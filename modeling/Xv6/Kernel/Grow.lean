/-
A file that gets a block, and a file that is written to.

`use` is a function, so what one file owns no other file has, and no block of a file is at two
places of it. Each lemma says what one write to the disk does to one file; the bytes of the
file change by `splice`.
-/
import Xv6.Kernel.Blocks

set_option autoImplicit false

namespace Xv6.Kernel.Files

open Xv6.Lib Xv6.Mkfs Xv6.Mkfs.Kernel

/-! ## Bytes -/

/-- The bytes `c` with `p` written from `off` on. -/
def splice (c : List Byte) (off : Nat) (p : List Byte) : List Byte :=
  c.take off ++ p ++ c.drop (off + p.length)

variable {c p q : List Byte} {off : Nat}

theorem splice_nil (c : List Byte) (off : Nat) : splice c off [] = c := by
  rw [splice, List.append_nil, List.length_nil, Nat.add_zero, List.take_append_drop]

theorem length_splice (h : off ≤ c.length) (p : List Byte) :
    (splice c off p).length = max c.length (off + p.length) := by
  rw [splice, List.length_append, List.length_append, List.length_take, List.length_drop]
  omega

theorem getD_splice (h : off ≤ c.length) (p : List Byte) (i : Nat) : (splice c off p).getD i 0 =
    if off ≤ i ∧ i < off + p.length then p.getD (i - off) 0 else c.getD i 0 := by
  have htake : (c.take off).length = off := by
    rw [List.length_take]
    omega
  rw [splice, List.append_assoc]
  by_cases h1 : i < off
  · rw [List.getD_append _ _ _ _ (by omega), if_neg (by omega), List.getD_eq_getElem?_getD,
      List.getD_eq_getElem?_getD, List.getElem?_take_of_lt h1]
  · rw [List.getD_append_right _ _ _ _ (by omega), htake]
    by_cases h2 : i < off + p.length
    · rw [if_pos ⟨by omega, h2⟩, List.getD_append _ _ _ _ (by omega)]
    · rw [if_neg (by omega), List.getD_append_right _ _ _ _ (by omega),
        List.getD_eq_getElem?_getD, List.getD_eq_getElem?_getD, List.getElem?_drop]
      congr 2
      omega

/-- One write after the other. -/
theorem splice_splice (h : off ≤ c.length) (p q : List Byte) :
    splice (splice c off p) (off + p.length) q = splice c off (p ++ q) := by
  have hlen := length_splice h p
  have hlen' : (splice (splice c off p) (off + p.length) q).length =
      (splice c off (p ++ q)).length := by
    rw [length_splice (by omega), hlen, length_splice h, List.length_append]
    omega
  refine List.ext_getElem hlen' fun i hi hi' => ?_
  rw [← List.getD_eq_getElem _ 0 hi, ← List.getD_eq_getElem _ 0 hi', getD_splice (by omega),
    getD_splice h, getD_splice h, List.length_append]
  by_cases h1 : off + p.length ≤ i ∧ i < off + p.length + q.length
  · rw [if_pos h1, if_pos ⟨by omega, by omega⟩, List.getD_append_right _ _ _ _ (by omega)]
    congr 1
    omega
  · rw [if_neg h1]
    by_cases h2 : off ≤ i ∧ i < off + p.length
    · rw [if_pos h2, if_pos ⟨h2.1, by omega⟩, List.getD_append _ _ _ _ (by omega)]
    · rw [if_neg h2, if_neg (by omega)]

end Xv6.Kernel.Files

/-! ## One file -/

namespace Xv6.Mkfs.FileOk

open Xv6.Lib Xv6.Mkfs.Kernel Xv6.Kernel.Files

variable {c p : List Byte} {disk : Nat → Sector} {use : Use} {i nb k b : Nat} {ip : Dinode}

theorem setAddr_addrs (ip : Dinode) (k b j : Nat) :
    (ip.setAddr k b).addrs j = if j = k then b else ip.addrs j := rfl

/-- A direct block more. -/
theorem addDirect (h : FileOk disk use i ip k c) (hk : k < NDIRECT) (hb : b ≠ 0)
    (hu : use b = some (i, k)) : FileOk disk use i (ip.setAddr k b) (k + 1) c := by
  have hat : ∀ j, blockAt disk (ip.setAddr k b) j = if j = k then b else blockAt disk ip j := by
    intro j
    rw [blockAt, blockAt, setAddr_addrs, setAddr_addrs, if_neg (by omega : NDIRECT ≠ k)]
    by_cases hj : j = k
    · rw [if_pos hj, if_pos hj, if_pos (hj ▸ hk)]
    · rw [if_neg hj, if_neg hj]
  refine ⟨?_, ?_, fun j hj => ?_, fun j hj => ?_, fun hlt => by omega, fun hx => ?_,
    fun q hq => ?_⟩
  · have : NDIRECT ≤ MAXFILE := by decide
    omega
  · exact h.cover.trans (Nat.mul_le_mul_right _ (Nat.le_succ k))
  · rw [hat]
    split
    case isTrue hjk => exact iff_of_true hb (by omega)
    case isFalse hjk =>
      rw [h.some_iff j hj]
      omega
  · rw [hat]
    split
    case isTrue hjk => rw [hu, hjk]
    case isFalse hjk => exact h.used j (by omega)
  · rw [setAddr_addrs, if_neg (by omega : NDIRECT ≠ k)] at hx ⊢
    exact h.usedIndirect hx
  · have := h.div_lt hq
    rw [hat, if_neg (by omega)]
    exact h.data q hq

/-- An indirect block, which is zeroed. -/
theorem addIndirect (h : FileOk disk use i ip nb c) (hx : ip.addrs NDIRECT = 0)
    (hb : b ≠ 0) (hu : use b = some (i, MAXFILE)) (hz : disk b = zeroes) :
    FileOk disk use i (ip.setAddr NDIRECT b) nb c := by
  have hat : ∀ j, blockAt disk (ip.setAddr NDIRECT b) j = blockAt disk ip j := by
    intro j
    rw [blockAt, blockAt, setAddr_addrs, setAddr_addrs]
    by_cases hj : j < NDIRECT
    · rw [if_pos hj, if_pos hj, if_neg hj.ne]
    · rw [if_neg hj, if_neg hj, if_pos rfl, if_neg hb, if_pos hx, hz, getNum_zeroes]
  refine ⟨h.nb_le, h.cover, fun j hj => ?_, fun j hj => ?_, fun _ => ?_, fun _ => ?_,
    fun q hq => ?_⟩
  · rw [hat]
    exact h.some_iff j hj
  · rw [hat]
    exact h.used j hj
  · rw [setAddr_addrs, if_pos rfl]
    exact hb
  · rw [setAddr_addrs, if_pos rfl]
    exact hu
  · rw [hat]
    exact h.data q hq

/-- The blocks of a file are different, and none of them is its indirect block. -/
theorem ne_indirect (h : FileOk disk use i ip nb c) (hx : ip.addrs NDIRECT ≠ 0)
    (hk : k < nb) : blockAt disk ip k ≠ ip.addrs NDIRECT := by
  intro he
  have hu := h.used k hk
  rw [he, h.usedIndirect hx] at hu
  have := (Prod.mk.inj (Option.some.inj hu)).2
  have := h.nb_le
  omega

/-- A block more that the indirect block points to. -/
theorem addEntry (h : FileOk disk use i ip k c) (hk : NDIRECT ≤ k) (hkm : k < MAXFILE)
    (hx : ip.addrs NDIRECT ≠ 0) (hb : b ≠ 0) (hlt : b < 2 ^ 32) (hu : use b = some (i, k)) :
    FileOk (Function.update disk (ip.addrs NDIRECT)
      (putNum (disk (ip.addrs NDIRECT)) (4 * (k - NDIRECT)) 4 b)) use i ip (k + 1) c := by
  set a := ip.addrs NDIRECT with ha
  set disk' := Function.update disk a (putNum (disk a) (4 * (k - NDIRECT)) 4 b) with hdisk
  have hself : disk' a = putNum (disk a) (4 * (k - NDIRECT)) 4 b := Function.update_self _ _ _
  have hat : ∀ j, blockAt disk' ip j = if j = k then b else blockAt disk ip j := by
    intro j
    rw [blockAt, blockAt, ← ha, if_neg hx, if_neg hx, hself]
    by_cases hj : j < NDIRECT
    · rw [if_pos hj, if_pos hj, if_neg (by omega)]
    · rw [if_neg hj, if_neg hj]
      by_cases hjk : j = k
      · rw [if_pos hjk, hjk]
        exact getNum_putNum _ _ _ _ (by norm_num at hlt ⊢; exact hlt)
      · rw [if_neg hjk]
        exact getNum_putNum_of_disjoint _ _ (by omega)
  refine ⟨hkm, ?_, fun j hj => ?_, fun j hj => ?_, fun _ => hx, h.usedIndirect, fun q hq => ?_⟩
  · exact h.cover.trans (Nat.mul_le_mul_right _ (Nat.le_succ k))
  · rw [hat]
    split
    case isTrue hjk => exact iff_of_true hb (by omega)
    case isFalse hjk =>
      rw [h.some_iff j hj]
      omega
  · rw [hat]
    split
    case isTrue hjk => rw [hu, hjk]
    case isFalse hjk => exact h.used j (by omega)
  · have hqk := h.div_lt hq
    rw [hat, if_neg (by omega), hdisk, Function.update_of_ne (h.ne_indirect hx hqk)]
    exact h.data q hq

/-- A byte of a stretch that does not leave the block `k`. -/
theorem div_eq_of_within {q o n : Nat} (ho : o + n ≤ BSIZE) (h1 : k * BSIZE + o ≤ q)
    (h2 : q < k * BSIZE + o + n) : q / BSIZE = k := by
  refine Nat.div_eq_of_lt_le ((Nat.le_add_right _ _).trans h1) (h2.trans_le ?_)
  rw [Nat.add_one_mul, Nat.add_assoc]
  exact Nat.add_le_add_left ho _

/-- `memmove` into a block of the file. -/
theorem write (h : FileOk disk use i ip nb c) (hk : k < nb) {o : Nat}
    (ho : o + p.length ≤ BSIZE) (hc : k * BSIZE + o ≤ c.length) :
    FileOk (Function.update disk (blockAt disk ip k) (putBytes (disk (blockAt disk ip k)) o p)) use
      i ip nb (splice c (k * BSIZE + o) p) := by
  set b := blockAt disk ip k with hb
  set disk' := Function.update disk b (putBytes (disk b) o p) with hdisk
  have hself : disk' b = putBytes (disk b) o p := Function.update_self _ _ _
  have hat : ∀ j, blockAt disk' ip j = blockAt disk ip j := by
    intro j
    rw [blockAt, blockAt]
    by_cases hx : ip.addrs NDIRECT = 0
    · rw [if_pos hx, if_pos hx]
    · rw [if_neg hx, if_neg hx, hdisk, Function.update_of_ne (h.ne_indirect hx hk).symm]
  have hlen := length_splice hc p
  refine ⟨h.nb_le, ?_, fun j hj => ?_, fun j hj => ?_, h.indirect, h.usedIndirect,
    fun q hq => ?_⟩
  · have hmul : (k + 1) * BSIZE ≤ nb * BSIZE := Nat.mul_le_mul_right _ hk
    have := h.cover
    rw [Nat.add_one_mul] at hmul
    rw [hlen]
    omega
  · rw [hat]
    exact h.some_iff j hj
  · rw [hat]
    exact h.used j hj
  · rw [hat, getD_splice hc]
    have hpos : 0 < BSIZE := by decide
    have hdm := Nat.div_add_mod q BSIZE
    have hmod := Nat.mod_lt q hpos
    by_cases hqk : q / BSIZE = k
    · -- a byte of the block that is written
      rw [hqk, ← hb, hself, putBytes]
      rw [hqk] at hdm
      have hcomm : BSIZE * k = k * BSIZE := Nat.mul_comm _ _
      by_cases hin : o ≤ q % BSIZE ∧ q % BSIZE < o + p.length
      · rw [if_pos hin, if_pos ⟨by omega, by omega⟩]
        congr 1
        omega
      · rw [if_neg hin, if_neg (by omega)]
        have hd := h.data q (by omega)
        rw [hqk, ← hb] at hd
        exact hd
    · -- a byte of another block
      have hout : ¬(k * BSIZE + o ≤ q ∧ q < k * BSIZE + o + p.length) := by
        rintro ⟨h1, h2⟩
        exact hqk (div_eq_of_within ho h1 h2)
      have hqc : q < c.length := by
        rw [hlen] at hq
        by_contra hge
        -- what is beyond the old end is in the block that is written
        have hend : q < k * BSIZE + o + p.length :=
          (lt_max_iff.1 hq).resolve_left hge
        exact hqk (div_eq_of_within ho (hc.trans (not_lt.1 hge)) hend)
      rw [if_neg hout, hdisk, Function.update_of_ne]
      · exact h.data q hqc
      · intro he
        have hu := h.used _ (h.div_lt hqc)
        rw [he, hb, h.used k hk] at hu
        exact hqk (Prod.mk.inj (Option.some.inj hu)).2.symm

end Xv6.Mkfs.FileOk
