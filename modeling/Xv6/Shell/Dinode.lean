/-
The inodes of the enhanced shell, on disk and in memory.

The on-disk inode keeps its link count in 13 bits, to make room for three mode bits;
in memory the count is a `short` and the mode an `unsigned`. `iupdate` copies the
memory to the disk and `ilock` the disk to the memory.
-/
import Mathlib

set_option autoImplicit false

namespace Xv6.Shell

abbrev NDIRECT : Nat := 12

abbrev Addrs : Type := Fin (NDIRECT + 1) → BitVec 32

/-- `struct dinode`, with its bit-fields. -/
structure Dinode where
  type : BitVec 16
  major : BitVec 16
  minor : BitVec 16
  nlink : BitVec 13
  mode : BitVec 3
  size : BitVec 32
  addrs : Addrs

/-- `struct inode`, the fields that are copies of the disk's. -/
structure Inode where
  type : BitVec 16
  major : BitVec 16
  minor : BitVec 16
  nlink : BitVec 16
  mode : BitVec 32
  size : BitVec 32
  addrs : Addrs

/-- The assignments of `iupdate`. -/
def Inode.toDisk (ip : Inode) : Dinode where
  type := ip.type
  major := ip.major
  minor := ip.minor
  nlink := ip.nlink.setWidth 13
  mode := ip.mode.setWidth 3
  size := ip.size
  addrs := ip.addrs

/-- The assignments of `ilock`. -/
def Dinode.toMemory (dip : Dinode) : Inode where
  type := dip.type
  major := dip.major
  minor := dip.minor
  nlink := dip.nlink.setWidth 16
  mode := dip.mode.setWidth 32
  size := dip.size
  addrs := dip.addrs

/-! ## Blocks -/

/-- A block of `BSIZE` bytes, as 32-bit words. -/
abbrev Block : Type := Fin 128 → BitVec 32

instance words_neZero : NeZero 128 := ⟨by decide⟩

/-- The words of a dinode: it is packed, and the bit-fields share 16 bits. -/
def Dinode.words (dip : Dinode) (j : Fin 16) : BitVec 32 :=
  if j.val = 0 then dip.major ++ dip.type
  else if j.val = 1 then (dip.mode ++ dip.nlink) ++ dip.minor
  else if j.val = 2 then dip.size
  else dip.addrs (Fin.ofNat 13 (j.val - 3))

/-- The dinode at place `k` of a block. -/
def Block.dinode (w : Block) (k : Fin 8) : Dinode where
  type := (w (Fin.ofNat 128 (16 * k))).extractLsb' 0 16
  major := (w (Fin.ofNat 128 (16 * k))).extractLsb' 16 16
  minor := (w (Fin.ofNat 128 (16 * k + 1))).extractLsb' 0 16
  nlink := (w (Fin.ofNat 128 (16 * k + 1))).extractLsb' 16 13
  mode := (w (Fin.ofNat 128 (16 * k + 1))).extractLsb' 29 3
  size := w (Fin.ofNat 128 (16 * k + 2))
  addrs j := w (Fin.ofNat 128 (16 * k + 3 + j))

/-- The block with the dinode at place `k` written. -/
def Block.putDinode (k : Fin 8) (dip : Dinode) (w : Block) : Block := fun j =>
  if j.val / 16 = k then dip.words (Fin.ofNat 16 j) else w j

variable (k : Fin 8) (dip : Dinode) (w : Block)

theorem Block.putDinode_word {j : Nat} (hj : j < 16) :
    w.putDinode k dip (Fin.ofNat 128 (16 * k + j)) = dip.words (Fin.ofNat 16 j) := by
  have hk := k.isLt
  have hval : (Fin.ofNat 128 (16 * k + j)).val = 16 * k + j := Nat.mod_eq_of_lt (by omega)
  unfold Block.putDinode
  rw [if_pos (by omega), hval]
  congr 1
  apply Fin.ext
  simp only [Fin.ofNat]
  omega

/-- A dinode that is written is read back. -/
theorem Block.dinode_putDinode : (w.putDinode k dip).dinode k = dip := by
  have h0 : w.putDinode k dip (Fin.ofNat 128 (16 * k)) = dip.major ++ dip.type :=
    Block.putDinode_word k dip w (j := 0) (by omega)
  have h1 : w.putDinode k dip (Fin.ofNat 128 (16 * k + 1)) = (dip.mode ++ dip.nlink) ++ dip.minor :=
    Block.putDinode_word k dip w (j := 1) (by omega)
  have h2 : w.putDinode k dip (Fin.ofNat 128 (16 * k + 2)) = dip.size :=
    Block.putDinode_word k dip w (j := 2) (by omega)
  have h3 : ∀ j : Fin 13, w.putDinode k dip (Fin.ofNat 128 (16 * k + 3 + j)) = dip.addrs j := by
    intro j
    rw [Nat.add_assoc, Block.putDinode_word k dip w (by omega)]
    have hj : (Fin.ofNat 16 (3 + j.val)).val = 3 + j := Nat.mod_eq_of_lt (by omega)
    simp only [Dinode.words, hj]
    rw [if_neg (by omega), if_neg (by omega), if_neg (by omega)]
    congr 1
    apply Fin.ext
    simp only [Fin.ofNat]
    omega
  have hmode : ((dip.mode ++ dip.nlink) ++ dip.minor).extractLsb' 29 3 = dip.mode := by
    rw [BitVec.extractLsb'_append_eq_of_le (by decide)]
    exact BitVec.extractLsb'_append_eq_left
  have hnlink : ((dip.mode ++ dip.nlink) ++ dip.minor).extractLsb' 16 13 = dip.nlink := by
    rw [BitVec.extractLsb'_append_eq_of_le (by decide)]
    exact BitVec.extractLsb'_append_eq_right
  unfold Block.dinode
  rw [h0, h1, h2, hmode, hnlink, BitVec.extractLsb'_append_eq_left,
    BitVec.extractLsb'_append_eq_right, BitVec.extractLsb'_append_eq_right]
  simp only [h3]

/-- The other dinodes of the block stay. -/
theorem Block.dinode_putDinode_of_ne {k' : Fin 8} (h : k' ≠ k) :
    (w.putDinode k dip).dinode k' = w.dinode k' := by
  have hne : k'.val ≠ k.val := fun he => h (Fin.ext he)
  have hk := k'.isLt
  have hword : ∀ j < 16, w.putDinode k dip (Fin.ofNat 128 (16 * k' + j)) =
      w (Fin.ofNat 128 (16 * k' + j)) := by
    intro j hj
    have hval : (Fin.ofNat 128 (16 * k'.val + j)).val = 16 * k' + j := Nat.mod_eq_of_lt (by omega)
    unfold Block.putDinode
    rw [if_neg (by omega)]
  have h0 := hword 0 (by omega)
  have h3 : ∀ j : Fin 13, w.putDinode k dip (Fin.ofNat 128 (16 * k' + 3 + j)) =
      w (Fin.ofNat 128 (16 * k' + 3 + j)) := by
    intro j
    have := hword (3 + j) (by omega)
    rwa [← Nat.add_assoc] at this
  unfold Block.dinode
  rw [Nat.add_zero] at h0
  rw [h0, hword 1 (by omega), hword 2 (by omega)]
  simp only [h3]

end Xv6.Shell
