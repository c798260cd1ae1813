/-
Room on the disk (`fs.c`).

`balloc` panics when no block is free. A write needs the blocks between the old and the new
end of the file, and the indirect block if it is the first to go beyond the direct ones; it
panics exactly when fewer blocks are free. A read needs none, and a truncation frees blocks:
the panic of `bfree` is never reached.
-/
import Xv6.Kernel.Store

set_option autoImplicit false

namespace Xv6.Kernel.Files

open Xv6.Lib Xv6.Mkfs Xv6.Mkfs.Kernel

/-- The blocks that `balloc` can find. -/
def freeBlocks (sb : Superblock) (disk : Nat → Sector) : Nat :=
  ((Finset.range sb.size).filter fun b => isFree sb disk b = true).card

/-- The blocks that `e` bytes take. -/
def blocksFor (e : Nat) : Nat := (e + (BSIZE - 1)) / BSIZE

/-- The blocks that a file with `n` of them needs to have `e` bytes; `x` is its indirect block. -/
def lacking (n x e : Nat) : Nat :=
  (blocksFor e - n) + if NDIRECT < blocksFor e ∧ x = 0 then 1 else 0

/-- A call that needs more blocks than there are. -/
def Fs.Full (sb : Superblock) (s : Fs) : Call → Prop
  | .write i off src =>
    off ≤ (s.ip i).size ∧ off + src.length ≤ MAXFILE * BSIZE ∧ freeBlocks sb s.disk <
      lacking (blocksFor (s.ip i).size) ((s.ip i).addrs NDIRECT) (off + src.length)
  | _ => False

variable {sb : Superblock} {nmeta : Nat} {s : Fs} {use use' : Use} {nb : Nat → Nat}
  {con : Nat → List Byte} {i k b : Nat} {disk disk' : Nat → Sector} {o : Open}

theorem freeBlocks_congr (h : ∀ b, b < sb.size → isFree sb disk' b = isFree sb disk b) :
    freeBlocks sb disk' = freeBlocks sb disk := by
  refine congrArg Finset.card (Finset.filter_congr fun b hb => ?_)
  rw [h b (Finset.mem_range.1 hb)]

theorem balloc_none : Kernel.balloc sb disk = none ↔ freeBlocks sb disk = 0 := by
  rw [Kernel.balloc, Option.map_eq_none_iff, List.find?_eq_none, freeBlocks, Finset.card_eq_zero,
    Finset.filter_eq_empty_iff]
  exact ⟨fun h b hb => h b (List.mem_range.2 (Finset.mem_range.1 hb)),
    fun h b hb => h (Finset.mem_range.2 (List.mem_range.1 hb))⟩

theorem Bits.isFree_iff (h : Bits sb nmeta disk use) (hb : b < sb.size) :
    isFree sb disk b = true ↔ nmeta ≤ b ∧ use b = none := by
  rw [← Bool.not_eq_false, h b hb, not_or, not_lt, Option.not_isSome_iff_eq_none]

/-- `balloc` takes one block. -/
theorem balloc_free (hL : Layout sb nmeta) (hB : Bits sb nmeta disk use)
    (h : balloc sb disk = some (b, disk')) : freeBlocks sb disk' + 1 = freeBlocks sb disk := by
  obtain ⟨⟨hmeta, hlt, hnone⟩, -, -, hB'⟩ := balloc_spec hL hB (0, 0) h
  have hset : ((Finset.range sb.size).filter fun x => isFree sb disk' x = true) =
      ((Finset.range sb.size).filter fun x => isFree sb disk x = true).erase b := by
    ext x
    rw [Finset.mem_erase, Finset.mem_filter, Finset.mem_filter, Finset.mem_range]
    rw [and_left_comm]
    refine and_congr_right fun hx => ?_
    rw [hB.isFree_iff hx, hB'.isFree_iff hx, Use.add, Function.update_apply]
    by_cases hxb : x = b
    · rw [if_pos hxb]
      exact iff_of_false (fun h => Option.some_ne_none _ h.2) fun h => h.1 hxb
    · rw [if_neg hxb]
      exact (and_iff_right hxb).symm
  have hmem : b ∈ (Finset.range sb.size).filter fun x => isFree sb disk x = true :=
    Finset.mem_filter.2 ⟨Finset.mem_range.2 hlt, (hB.isFree_iff hlt).2 ⟨hmeta, hnone⟩⟩
  rw [freeBlocks, hset]
  exact Finset.card_erase_add_one hmem

/-! ## `bmap` -/

/-- What `bmap` takes for block `k` of a file with `n` blocks. -/
def price (n x k : Nat) : Nat := if k < n then 0 else 1 + if NDIRECT ≤ k ∧ x = 0 then 1 else 0

/-- What is lacking beyond block `k` once that has been paid. -/
theorem lacking_step {n x x' e : Nat} (hk : k ≤ n) (hke : k < blocksFor e)
    (hx : x' = 0 ↔ x = 0 ∧ (k < n ∨ k < NDIRECT)) :
    lacking (max n (k + 1)) x' e + price n x k = lacking n x e := by
  rw [lacking, lacking, price]
  rcases Nat.lt_or_eq_of_le hk with hlt | rfl
  · -- the block is there
    rw [max_eq_left hlt]
    split_ifs <;> omega
  · rw [max_eq_right (Nat.le_succ k)]
    split_ifs <;> omega

/-- The indirect block of a file, allocated if there is none. -/
theorem Inv.indirect_price (hL : Layout sb nmeta) (h : Inv sb nmeta s use nb con)
    (hi : i < sb.ninodes) {r : Option Open}
    (hr : (if (s.ip i).addrs NDIRECT = 0 then
        (Kernel.balloc sb s.disk).map fun p =>
          (⟨p.2, (s.ip i).setAddr NDIRECT p.1⟩ : Open)
      else some (s.view i)) = r) :
    (r = none ↔ freeBlocks sb s.disk < if (s.ip i).addrs NDIRECT = 0 then 1 else 0) ∧
    ∀ o, r = some o → (∃ use', Inv sb nmeta (s.put i o) use' nb con) ∧ o.ip.addrs NDIRECT ≠ 0 ∧
      freeBlocks sb o.disk + (if (s.ip i).addrs NDIRECT = 0 then 1 else 0) =
        freeBlocks sb s.disk := by
  subst hr
  by_cases hx0 : (s.ip i).addrs NDIRECT = 0
  · rw [if_pos hx0, if_pos hx0, Option.map_eq_none_iff, balloc_none, Nat.lt_one_iff]
    refine ⟨Iff.rfl, fun o ho => ?_⟩
    obtain ⟨⟨b, disk'⟩, hball, rfl⟩ := Option.map_eq_some_iff.1 ho
    refine ⟨h.takeIndirect hL hi hx0 hball, ?_, balloc_free hL h.bits hball⟩
    rw [FileOk.setAddr_addrs, if_pos rfl]
    exact (h.grown hL hi hball MAXFILE).1.1
  · rw [if_neg hx0, if_neg hx0]
    refine ⟨iff_of_false (Option.some_ne_none _) (Nat.not_lt_zero _), fun o ho => ?_⟩
    obtain rfl := Option.some.inj ho
    exact ⟨⟨use, (s.put_view i).symm ▸ h⟩, hx0, rfl⟩

/-- `bmap` of a direct block that the file does not have. -/
theorem Inv.direct_price (hL : Layout sb nmeta) (h : Inv sb nmeta s use nb con)
    (hd : k < NDIRECT) (hat : (s.ip i).addrs k = 0) :
    (Kernel.bmap sb k (s.view i) = none ↔ freeBlocks sb s.disk < 1) ∧
    ∀ a o, Kernel.bmap sb k (s.view i) = some (a, o) →
      freeBlocks sb o.disk + 1 = freeBlocks sb s.disk ∧
      o.ip.addrs NDIRECT = (s.ip i).addrs NDIRECT := by
  have hrun : Kernel.bmap sb k (s.view i) =
      (Kernel.balloc sb s.disk).map fun p =>
        (p.1, ⟨p.2, (s.ip i).setAddr k p.1⟩) := by
    rw [Fs.view]
    unfold Kernel.bmap
    dsimp only
    rw [if_pos hd, if_pos hat]
  rw [hrun, Option.map_eq_none_iff, balloc_none, Nat.lt_one_iff]
  refine ⟨Iff.rfl, fun a o ho => ?_⟩
  obtain ⟨⟨b, disk'⟩, hball, ho⟩ := Option.map_eq_some_iff.1 ho
  obtain ⟨rfl, rfl⟩ := Prod.mk.inj ho
  refine ⟨balloc_free hL h.bits hball, ?_⟩
  dsimp only
  rw [FileOk.setAddr_addrs, if_neg hd.ne']

/-- `bmap` of a block beyond the direct ones that the file does not have. -/
theorem Inv.entry_price (hL : Layout sb nmeta) (h : Inv sb nmeta s use nb con)
    (hi : i < sb.ninodes) (hkm : k < MAXFILE) (hlt : ¬k < nb i) (hd : ¬k < NDIRECT) :
    (Kernel.bmap sb k (s.view i) = none ↔
      freeBlocks sb s.disk < 1 + if (s.ip i).addrs NDIRECT = 0 then 1 else 0) ∧
    ∀ a o, Kernel.bmap sb k (s.view i) = some (a, o) →
      freeBlocks sb o.disk + (1 + if (s.ip i).addrs NDIRECT = 0 then 1 else 0) =
        freeBlocks sb s.disk ∧
      o.ip.addrs NDIRECT ≠ 0 := by
  have hM : MAXFILE = NDIRECT + NINDIRECT := rfl
  have hrun : Kernel.bmap sb k (s.view i) =
      (if (s.ip i).addrs NDIRECT = 0 then
        (Kernel.balloc sb s.disk).map fun p =>
          (⟨p.2, (s.ip i).setAddr NDIRECT p.1⟩ : Open)
      else some (s.view i)).bind fun o =>
        let a := o.disk (o.ip.addrs NDIRECT)
        let addr := getNum a (4 * (k - NDIRECT)) 4
        if addr = 0 then
          (Kernel.balloc sb o.disk).map fun p => (p.1, ⟨Function.update p.2
            (o.ip.addrs NDIRECT) (putNum a (4 * (k - NDIRECT)) 4 p.1), o.ip⟩)
        else some (addr, o) := by
    rw [Fs.view]
    unfold Kernel.bmap
    dsimp only
    rw [if_neg hd, if_pos (by omega)]
  obtain ⟨hnone, hsome⟩ := h.indirect_price hL hi rfl
  rw [hrun]
  revert hnone hsome
  generalize (if (s.ip i).addrs NDIRECT = 0 then
      (Kernel.balloc sb s.disk).map fun p =>
        (⟨p.2, (s.ip i).setAddr NDIRECT p.1⟩ : Open)
    else some (s.view i)) = r
  intro hnone hsome
  cases r with
  | none =>
    rw [Option.bind_none]
    have := hnone.1 rfl
    exact ⟨iff_of_true rfl (by omega), fun a o ho => absurd ho.symm (Option.some_ne_none _)⟩
  | some o₁ =>
    -- the entry of the indirect block is 0
    obtain ⟨⟨use₁, h₁⟩, hne, hfree⟩ := hsome o₁ rfl
    have hf₁ := h₁.file i hi
    rw [s.put_ip] at hf₁
    have hat₁ : blockAt o₁.disk o₁.ip k = 0 := not_not.1 (mt (hf₁.some_iff k hkm).1 hlt)
    rw [blockAt, if_neg hd, if_neg hne] at hat₁
    rw [Option.bind_some]
    dsimp only
    rw [if_pos hat₁, Option.map_eq_none_iff, balloc_none]
    refine ⟨by omega, fun a o ho => ?_⟩
    obtain ⟨⟨b, disk'⟩, hball, ho⟩ := Option.map_eq_some_iff.1 ho
    obtain ⟨rfl, rfl⟩ := Prod.mk.inj ho
    have hone := balloc_free hL h₁.bits hball
    have hmeta := (h₁.use_lt _ _ (hf₁.usedIndirect hne)).1
    have hsame : freeBlocks sb (Function.update disk' (o₁.ip.addrs NDIRECT)
        (putNum (o₁.disk (o₁.ip.addrs NDIRECT)) (4 * (k - NDIRECT)) 4 b)) =
          freeBlocks sb disk' := freeBlocks_congr fun x hx =>
      isFree_congr (Function.update_of_ne ((hL.bitmap x hx).trans_le hmeta).ne _ _)
    have hone' : freeBlocks sb disk' + 1 = freeBlocks sb o₁.disk := hone
    refine ⟨?_, hne⟩
    rw [hsame]
    omega

/-- **`bmap`** panics exactly when its price cannot be paid. -/
theorem Inv.bmap_price (hL : Layout sb nmeta) (h : Inv sb nmeta s use nb con)
    (hi : i < sb.ninodes) (hkm : k < MAXFILE) :
    (Kernel.bmap sb k (s.view i) = none ↔
      freeBlocks sb s.disk < price (nb i) ((s.ip i).addrs NDIRECT) k) ∧
    ∀ a o, Kernel.bmap sb k (s.view i) = some (a, o) →
      freeBlocks sb o.disk + price (nb i) ((s.ip i).addrs NDIRECT) k = freeBlocks sb s.disk ∧
      (o.ip.addrs NDIRECT = 0 ↔ (s.ip i).addrs NDIRECT = 0 ∧ (k < nb i ∨ k < NDIRECT)) := by
  have hf := h.file i hi
  by_cases hlt : k < nb i
  · rw [Fs.view, bmap_spec hf hlt, price, if_pos hlt]
    refine ⟨iff_of_false (Option.some_ne_none _) (Nat.not_lt_zero _), fun a o ho => ?_⟩
    obtain ⟨-, rfl⟩ := Prod.mk.inj (Option.some.inj ho)
    exact ⟨rfl, (and_iff_left (Or.inl hlt)).symm⟩
  rw [price, if_neg hlt, or_iff_right hlt]
  by_cases hd : k < NDIRECT
  · have hat : blockAt s.disk (s.ip i) k = 0 := not_not.1 (mt (hf.some_iff k hkm).1 hlt)
    rw [blockAt, if_pos hd] at hat
    obtain ⟨hnone, hsome⟩ := h.direct_price hL hd hat
    rw [if_neg fun h : NDIRECT ≤ k ∧ _ => h.1.not_gt hd, and_iff_left hd]
    refine ⟨hnone, fun a o ho => ?_⟩
    obtain ⟨hfree, hx⟩ := hsome a o ho
    exact ⟨hfree, by rw [hx]⟩
  · have hprice : (if NDIRECT ≤ k ∧ (s.ip i).addrs NDIRECT = 0 then 1 else 0) =
        if (s.ip i).addrs NDIRECT = 0 then 1 else 0 := by
      simp only [not_lt.1 hd, true_and]
    obtain ⟨hnone, hsome⟩ := h.entry_price hL hi hkm hlt hd
    rw [hprice]
    refine ⟨hnone, fun a o ho => ?_⟩
    obtain ⟨hfree, hne⟩ := hsome a o ho
    exact ⟨hfree, iff_of_false hne fun h0 => hd h0.2⟩

theorem price_le {n x e : Nat} (hk : k ≤ n) (hke : k < blocksFor e) :
    price n x k ≤ lacking n x e := by
  have hx : (if x = 0 ∧ (k < n ∨ k < NDIRECT) then 0 else 1) = 0 ↔
      x = 0 ∧ (k < n ∨ k < NDIRECT) := by
    split_ifs <;> simp_all
  have h := lacking_step hk hke hx
  omega

theorem blocksFor_le {n e : Nat} (h : e ≤ n * BSIZE) : blocksFor e ≤ n := by
  rw [blocksFor, Nat.div_le_iff_le_mul_add_pred (by decide), Nat.mul_comm]
  exact Nat.add_le_add_right h _

theorem lt_blocksFor {e : Nat} (h : k * BSIZE < e) : k < blocksFor e := by
  rw [blocksFor, ← Nat.add_one_le_iff, Nat.le_div_iff_mul_le (by decide), Nat.add_one_mul]
  exact Nat.add_le_add_right h (BSIZE - 1)

theorem blocksFor_eq {n : Nat} {c : List Byte} (hc : c.length ≤ n * BSIZE) (ht : Tight n c) :
    blocksFor c.length = n := by
  refine le_antisymm (blocksFor_le hc) ?_
  rw [blocksFor, Nat.le_div_iff_mul_le (by decide)]
  exact Nat.le_of_lt_succ ht

/-- A file lacks nothing up to its end. -/
theorem Inv.lacking_zero (h : Inv sb nmeta s use nb con) (hi : i < sb.ninodes) {e : Nat}
    (he : e ≤ (con i).length) : lacking (nb i) ((s.ip i).addrs NDIRECT) e = 0 := by
  have hle : blocksFor e ≤ nb i := blocksFor_le (he.trans (h.file i hi).cover)
  rw [lacking, Nat.sub_eq_zero_of_le hle, if_neg]
  exact fun hx => (h.file i hi).indirect (hx.1.trans_le hle) hx.2

/-- `bmap` finds no block of the metadata. -/
theorem Inv.bmap_meta (hL : Layout sb nmeta) (h : Inv sb nmeta s use nb con) (hi : i < sb.ninodes)
    (hk : k ≤ nb i) (hkm : k < MAXFILE) {a : Nat}
    (hb : Kernel.bmap sb k (s.view i) = some (a, o)) : nmeta ≤ a := by
  obtain ⟨use', h', hat, -⟩ := h.bmap hL hi hk hkm hb
  have hf := h'.file i hi
  rw [s.put_ip, Function.update_self] at hf
  have hused := hf.used k (lt_max_of_lt_right (Nat.lt_succ_self k))
  rw [← hat]
  exact (h'.use_lt _ _ hused).1

/-- **The loop of `writei`** panics exactly when the disk lacks blocks. -/
theorem Inv.writeLoop_room (hL : Layout sb nmeta) (hi : i < sb.ninodes) (fuel : Nat) :
    ∀ {s : Fs} {use : Use} {nb : Nat → Nat} {con : Nat → List Byte} {n tot off : Nat}
      {src : List Byte}, Inv sb nmeta s use nb con → src.length = n - tot → src.length ≤ fuel →
    off ≤ (con i).length → off + src.length ≤ MAXFILE * BSIZE →
    (writeLoop sb fuel n tot off src (s.view i) = none ↔ freeBlocks sb s.disk <
      lacking (nb i) ((s.ip i).addrs NDIRECT) (off + src.length)) := by
  -- the loop stops when nothing is left
  have stop : ∀ {s : Fs} {use : Use} {nb : Nat → Nat} {con : Nat → List Byte} {off : Nat}
      {src : List Byte}, Inv sb nmeta s use nb con → src.length = 0 → off ≤ (con i).length →
      (some (s.view i) = none ↔ freeBlocks sb s.disk <
        lacking (nb i) ((s.ip i).addrs NDIRECT) (off + src.length)) := by
    intro s use nb con off src h hnil hoff
    rw [hnil, Nat.add_zero, h.lacking_zero hi hoff]
    exact iff_of_false (Option.some_ne_none _) (Nat.not_lt_zero _)
  induction fuel with
  | zero =>
    intro s use nb con n tot off src h _ hfuel hoff _
    exact stop h (Nat.le_zero.1 hfuel) hoff
  | succ fuel ih =>
    intro s use nb con n tot off src h hlen hfuel hoff hmax
    unfold writeLoop
    by_cases hlt : tot < n
    case neg =>
      rw [if_neg hlt]
      exact stop h (hlen.trans (Nat.sub_eq_zero_of_le (not_lt.1 hlt))) hoff
    rw [if_pos hlt]
    have hB : 0 < BSIZE := by decide
    have hmod := Nat.mod_lt off hB
    have hkm : off / BSIZE < MAXFILE := (Nat.div_lt_iff_lt_mul hB).2 (by omega)
    have hk := h.div_le hi hoff
    have hke : off / BSIZE < blocksFor (off + src.length) :=
      lt_blocksFor ((Nat.div_mul_le_self off BSIZE).trans_lt (by omega))
    obtain ⟨hnone, hsome⟩ := h.bmap_price hL hi hkm
    cases hb : Kernel.bmap sb (off / BSIZE) (s.view i) with
    | none =>
      rw [Option.bind_none]
      exact iff_of_true rfl ((hnone.1 hb).trans_le (price_le hk hke))
    | some r =>
      obtain ⟨a, o⟩ := r
      obtain ⟨hfree, hx⟩ := hsome a o hb
      rw [Option.bind_some]
      dsimp only
      set m := min (n - tot) (BSIZE - off % BSIZE) with hm
      have htake : (src.take m).length = m := by
        rw [List.length_take]
        omega
      have hdrop : (src.drop m).length = src.length - m := List.length_drop
      obtain ⟨use₂, h₂, -, -⟩ := h.turn (p := src.take m) hL hi hoff (by omega) hkm hb rfl
      have hoff₂ : off + m ≤
          (Function.update con i (splice (con i) off (src.take m)) i).length := by
        rw [Function.update_self, length_splice hoff, htake]
        omega
      have hend : off + m + (src.drop m).length = off + src.length := by omega
      have hleft : (src.drop m).length = n - (tot + m) := by omega
      have hnext := ih h₂ hleft (by omega) hoff₂ (by omega)
      rw [Fs.view_put, hend, Function.update_self, s.put_ip] at hnext
      -- the bitmap is not in the block that was written
      have hmeta := h.bmap_meta hL hi hk hkm hb
      have hsame : freeBlocks sb (s.put i ⟨Function.update o.disk a
          (putBytes (o.disk a) (off % BSIZE) (src.take m)), o.ip⟩).disk = freeBlocks sb o.disk :=
        freeBlocks_congr fun x hx =>
          isFree_congr (Function.update_of_ne ((hL.bitmap x hx).trans_le hmeta).ne _ _)
      rw [hsame] at hnext
      dsimp only at hnext
      have hstep := lacking_step hk hke hx
      rw [hnext]
      omega

/-- **A call panics exactly when the disk is full.** -/
theorem Holds.exec_none (hL : Layout sb nmeta) (h : Holds sb nmeta s con) {call : Call}
    (hf : call.Fits sb s) : s.exec sb call = none ↔ s.Full sb call := by
  cases call with
  | read i off n =>
    obtain ⟨hi, hoff, hn⟩ := hf
    rw [Fs.exec, h.readi hi hoff hn]
    exact iff_of_false (Option.some_ne_none _) id
  | trunc i =>
    obtain ⟨o, hrun, -⟩ := h.itrunc hL hf.1
    rw [Fs.exec, hrun]
    exact iff_of_false (Option.some_ne_none _) id
  | write i off src =>
    obtain ⟨⟨hlt, hty⟩, hoff, hn⟩ := hf
    obtain ⟨use, nb, hinv, ht⟩ := h.inv
    have hsize := h.size i hlt
    have hM : MAXFILE * BSIZE < 2 ^ 32 := by decide
    have hblocks := blocksFor_eq (hinv.file i hlt).cover (ht i hlt)
    have hview : (s.view i).ip = s.ip i := rfl
    rw [Fs.exec, Option.map_eq_none_iff, Fs.Full, hsize, hblocks]
    unfold Files.writei
    dsimp only
    rw [hview, if_neg hty, hsize]
    by_cases hc : off ≤ (con i).length ∧ off + src.length ≤ MAXFILE * BSIZE
    case neg =>
      refine iff_of_false ?_ fun hfull => hc ⟨hfull.1, hfull.2.1⟩
      by_cases h1 : off > (con i).length ∨ (off + src.length) % 2 ^ 32 < off
      · rw [if_pos h1]
        exact Option.some_ne_none _
      · rw [if_neg h1, if_pos (by omega)]
        exact Option.some_ne_none _
    rw [if_neg (by omega), Nat.mod_eq_of_lt (by omega), if_neg (by omega),
      Option.map_eq_none_iff, hinv.writeLoop_room hL hlt src.length rfl le_rfl hc.1 hc.2]
    exact ⟨fun hlack => ⟨hc.1, hc.2, hlack⟩, fun hfull => hfull.2.2⟩

/-- **No panic but that of a full disk.** In every state of a run a call panics exactly when
it is a write that needs more blocks than are free. -/
theorem panics_when_full (hL : Layout sb nmeta) (h : Holds sb nmeta s con)
    {ls : List (Call × Ret)} {t : Fs} (hr : Run (Step sb) s ls t) {call : Call}
    (hf : call.Fits sb t) : t.exec sb call = none ↔ t.Full sb call := by
  obtain ⟨con', -, h'⟩ := h.run hL hr
  exact h'.exec_none hL hf

theorem panics_when_full_served :
    served.exec tiny (.write 1 2 [9]) = none ↔ served.Full tiny (.write 1 2 [9]) :=
  panics_when_full tiny_layout fresh_holds served_run
    ⟨⟨by decide, by decide +kernel⟩, by decide, by decide⟩

end Xv6.Kernel.Files
