/-
Disk blocks: the free map and who owns a block (`fs.c`).

The bitmap on the disk says which blocks are in use. What it should say is the ownership of
`Use`: a block is in use when it is metadata or a file owns it. `balloc` gives an owner to a
block that has none and `bfree` takes it away, and both write the bitmap accordingly (`Bits`).

The disk is what the buffer cache shows; the log is not in this model.
-/
import Xv6.Lib.Bitmap
import Xv6.Mkfs.Lookup

set_option autoImplicit false

namespace Xv6.Kernel.Files

open Xv6.Lib Xv6.Mkfs Xv6.Mkfs.Kernel

/-- Where things are on the disk: the first `nmeta` blocks hold the metadata. -/
structure Layout (sb : Superblock) (nmeta : Nat) : Prop where
  bitmap : ∀ b, b < sb.size → BBLOCK b sb < nmeta
  inodes : ∀ i, i < sb.ninodes → Kernel.IBLOCK i sb < nmeta
  apart : ∀ b i, b < sb.size → i < sb.ninodes → BBLOCK b sb ≠ Kernel.IBLOCK i sb
  pos : 0 < nmeta
  size : sb.size < 2 ^ 32

/-- `bfree`; `none` is the panic on a block that is free. -/
def bfree (sb : Superblock) (b : Nat) (disk : Nat → Sector) : Option (Nat → Sector) :=
  if isFree sb disk b then none
  else
    let bi := b % BPB
    let buf := disk (BBLOCK b sb)
    let buf : Sector := fun i =>
      if i = bi / 8 then buf i &&& ~~~BitVec.ofNat 8 (1 <<< (bi % 8)) else buf i
    some (Function.update disk (BBLOCK b sb) buf)

/-- The bitmap says who is in use. -/
def Bits (sb : Superblock) (nmeta : Nat) (disk : Nat → Sector) (use : Use) : Prop :=
  ∀ b, b < sb.size → (isFree sb disk b = false ↔ b < nmeta ∨ (use b).isSome = true)

/-- The owners without block `b`. -/
def unown (use : Use) (b : Nat) : Use := Function.update use b none

/-- The blocks of the inodes are the same. -/
def SameInodes (sb : Superblock) (disk disk' : Nat → Sector) : Prop :=
  ∀ i, i < sb.ninodes → disk' (Kernel.IBLOCK i sb) = disk (Kernel.IBLOCK i sb)

variable {sb : Superblock} {nmeta b x : Nat} {disk disk' disk'' : Nat → Sector} {use : Use}

theorem SameInodes.trans (h : SameInodes sb disk disk') (h' : SameInodes sb disk' disk'') :
    SameInodes sb disk disk'' := fun i hi => (h' i hi).trans (h i hi)

/-- A write to a block of data, or of the bitmap. -/
theorem SameInodes.update (hL : Layout sb nmeta) (h : nmeta ≤ b) (buf : Sector) :
    SameInodes sb disk (Function.update disk b buf) :=
  fun i hi => Function.update_of_ne ((hL.inodes i hi).trans_le h).ne _ _

theorem SameInodes.bitmap (hL : Layout sb nmeta) (h : b < sb.size) (buf : Sector) :
    SameInodes sb disk (Function.update disk (BBLOCK b sb) buf) :=
  fun i hi => Function.update_of_ne (hL.apart b i h hi).symm _ _

/-- The bit of a block. -/
theorem isFree_eq (sb : Superblock) (disk : Nat → Sector) (b : Nat) :
    isFree sb disk b = !Bitmap.test (disk (BBLOCK b sb)) (b % BPB) := rfl

/-- Blocks are told apart by their bitmap block and their place in it. -/
theorem eq_iff_BBLOCK : x = b ↔ BBLOCK x sb = BBLOCK b sb ∧ x % BPB = b % BPB := by
  constructor
  · rintro rfl
    exact ⟨rfl, rfl⟩
  · rintro ⟨hB, hm⟩
    have hd : x / BPB = b / BPB := Nat.add_right_cancel hB
    rw [← Nat.div_add_mod x BPB, ← Nat.div_add_mod b BPB, hd, hm]

/-- The free map when the bitmap block of `b` is written. -/
theorem isFree_update {buf : Sector} {f : Bool → Bool}
    (hbuf : ∀ j, Bitmap.test buf j = if j = b % BPB then f (Bitmap.test (disk (BBLOCK b sb)) j)
      else Bitmap.test (disk (BBLOCK b sb)) j) :
    isFree sb (Function.update disk (BBLOCK b sb) buf) x =
      if x = b then !f (Bitmap.test (disk (BBLOCK b sb)) (b % BPB)) else isFree sb disk x := by
  rw [isFree_eq, isFree_eq]
  by_cases hB : BBLOCK x sb = BBLOCK b sb
  · rw [hB, Function.update_self, hbuf]
    by_cases hm : x % BPB = b % BPB
    · rw [if_pos hm, if_pos (eq_iff_BBLOCK.2 ⟨hB, hm⟩), hm]
    · have hxb : x ≠ b := fun h => hm (congrArg (· % BPB) h)
      rw [if_neg hm, if_neg hxb]
  · have hxb : x ≠ b := fun h => hB (congrArg (Kernel.BBLOCK · sb) h)
    rw [Function.update_of_ne hB, if_neg hxb]

theorem isFree_congr (h : disk' (BBLOCK x sb) = disk (BBLOCK x sb)) :
    isFree sb disk' x = isFree sb disk x := by
  rw [isFree_eq, isFree_eq, h]

/-- **`balloc`** finds a block without an owner, and leaves it zeroed and in use. -/
theorem balloc_spec (hL : Layout sb nmeta) (hB : Bits sb nmeta disk use) (o : Nat × Nat)
    (h : balloc sb disk = some (b, disk')) :
    (nmeta ≤ b ∧ b < sb.size ∧ use b = none) ∧ disk' b = zeroes ∧
      (∀ x, nmeta ≤ x → x ≠ b → disk' x = disk x) ∧ Bits sb nmeta disk' (use.add b o) := by
  obtain ⟨b', hfind, hb'⟩ := Option.map_eq_some_iff.1 h
  obtain ⟨rfl, rfl⟩ := Prod.mk.inj hb'
  have hlt : b' < sb.size := List.mem_range.1 (List.mem_of_find?_eq_some hfind)
  have hfree : isFree sb disk b' = true := by
    have := List.find?_some hfind
    exact this
  have hno : ¬(b' < nmeta ∨ (use b').isSome = true) := by
    rw [← hB b' hlt, hfree]
    nofun
  obtain ⟨hmeta, huse⟩ := not_or.1 hno
  have hne : BBLOCK b' sb ≠ b' := ((hL.bitmap b' hlt).trans_le (Nat.le_of_not_lt hmeta)).ne
  refine ⟨⟨Nat.le_of_not_lt hmeta, hlt, Option.not_isSome_iff_eq_none.1 huse⟩,
    Function.update_self _ _ _, fun x hx hxb => ?_, fun x hx => ?_⟩
  · rw [Function.update_of_ne hxb, Function.update_of_ne]
    exact ((hL.bitmap b' hlt).trans_le hx).ne'
  · have hbm : BBLOCK x sb ≠ b' := ((hL.bitmap x hx).trans_le (Nat.le_of_not_lt hmeta)).ne
    rw [isFree_congr (Function.update_of_ne hbm _ _)]
    have hset : isFree sb (Function.update disk (BBLOCK b' sb)
        (Bitmap.set (disk (BBLOCK b' sb)) (b' % BPB))) x =
          if x = b' then false else isFree sb disk x :=
      isFree_update (f := fun _ => true) fun j => by
        rw [Bitmap.test_set (by decide)]
        split
        case isTrue hj => rw [decide_eq_true hj, Bool.or_true]
        case isFalse hj => rw [decide_eq_false hj, Bool.or_false]
    show isFree sb (Function.update disk (BBLOCK b' sb)
      (Bitmap.set (disk (BBLOCK b' sb)) (b' % BPB))) x = false ↔ _
    rw [hset]
    by_cases hxb : x = b'
    · subst hxb
      rw [if_pos rfl]
      refine iff_of_true rfl (Or.inr ?_)
      rw [Use.add, Function.update_self]
      rfl
    · rw [if_neg hxb, Use.add, Function.update_of_ne hxb]
      exact hB x hx

theorem balloc_inodes (hL : Layout sb nmeta) (hB : Bits sb nmeta disk use)
    (h : balloc sb disk = some (b, disk')) : SameInodes sb disk disk' := by
  obtain ⟨⟨hmeta, hlt, -⟩, -⟩ := balloc_spec hL hB (0, 0) h
  obtain ⟨b', -, hb'⟩ := Option.map_eq_some_iff.1 h
  obtain ⟨rfl, rfl⟩ := Prod.mk.inj hb'
  exact (SameInodes.bitmap hL hlt _).trans (SameInodes.update hL hmeta _)

/-- **`bfree`** of a block in use does not panic. -/
theorem bfree_spec (hL : Layout sb nmeta) (hB : Bits sb nmeta disk use) (hmeta : nmeta ≤ b)
    (hlt : b < sb.size) (huse : (use b).isSome = true) :
    ∃ disk', bfree sb b disk = some disk' ∧ (∀ x, nmeta ≤ x → disk' x = disk x) ∧
      SameInodes sb disk disk' ∧ Bits sb nmeta disk' (unown use b) := by
  have hused : isFree sb disk b = false := (hB b hlt).2 (Or.inr huse)
  refine ⟨Function.update disk (BBLOCK b sb) (Bitmap.clear (disk (BBLOCK b sb)) (b % BPB)), ?_,
    fun x hx => ?_, SameInodes.bitmap hL hlt _, fun x hx => ?_⟩
  · rw [bfree, hused]
    rfl
  · exact Function.update_of_ne ((hL.bitmap b hlt).trans_le hx).ne' _ _
  · rw [isFree_update (f := fun _ => false) fun j => ?_]
    · by_cases hxb : x = b
      · subst hxb
        rw [if_pos rfl, unown, Function.update_self]
        exact iff_of_false nofun (not_or.2 ⟨Nat.not_lt.2 hmeta, nofun⟩)
      · rw [if_neg hxb, unown, Function.update_of_ne hxb]
        exact hB x hx
    · rw [Bitmap.test_clear (by decide)]
      split
      case isTrue hj => rw [decide_eq_true hj, Bool.not_true, Bool.and_false]
      case isFalse hj => rw [decide_eq_false hj, Bool.not_false, Bool.and_true]

end Xv6.Kernel.Files
