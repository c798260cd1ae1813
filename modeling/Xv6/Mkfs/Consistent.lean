/-
What a consistent image is, and what `mkfs` builds.

The property is read as the kernel reads the image: through `BBLOCK`, the bit
numbering of its `balloc`, and `bmap`. No image of `mkfs` has it. The first loop of
`balloc` runs `while i > BSIZE*8` and so never; the second one takes the first
bitmap block as done and, for the second, computes offsets that are negative up to
that point, so that it writes below its buffer. And `sb.bmapstart` leaves out the swap blocks,
which puts the bitmap into the swap area.
-/
import Xv6.Mkfs.Image

set_option autoImplicit false

namespace Xv6.Mkfs

/-- Blocks `a` up to `b`. -/
structure Region where
  start : Nat
  stop : Nat

def Region.Disjoint (p q : Region) : Prop := p.stop ≤ q.start ∨ q.stop ≤ p.start

/-- The regions of the image: swap, log, inodes, bitmap and data. -/
def regions : List Region :=
  [⟨2, 2 + NSWAPBLOCKS⟩, ⟨sb.logstart, sb.logstart + sb.nlog⟩,
    ⟨sb.inodestart, sb.inodestart + ninodeblocks⟩, ⟨sb.bmapstart, sb.bmapstart + nbitmap⟩,
    ⟨sb.size - sb.nblocks, sb.size⟩]

/-- The bit for block `b`, as the kernel's `balloc` tests it. -/
def bitOf (s : State) (b : Nat) : Bool :=
  (s.disk (BBLOCK b) (b % BPB / 8)).getLsbD (b % BPB % 8)

/-- The block at index `fbn` of an inode, as the kernel's `bmap` finds it; 0 is none. -/
def bmap (s : State) (inum fbn : Nat) : Nat :=
  let din := rinode inum s
  if fbn < NDIRECT then din.addrs fbn
  else if din.addrs NDIRECT = 0 then 0
  else getNum (s.disk (din.addrs NDIRECT)) (4 * (fbn - NDIRECT)) 4

/-- The inodes that are in use and the block indices below their sizes. -/
def InFile (s : State) (inum fbn : Nat) : Prop :=
  1 ≤ inum ∧ inum < s.freeinode ∧ fbn * BSIZE < (rinode inum s).size

structure Consistent (s : State) : Prop where
  inside : s.outside = false
  disjoint : regions.Pairwise Region.Disjoint
  bitmap : ∀ b, b < FSSIZE → (bitOf s b = true ↔ b < s.freeblock)
  backed : ∀ inum fbn, InFile s inum fbn →
    nmeta ≤ bmap s inum fbn ∧ bmap s inum fbn < s.freeblock
  distinct : ∀ inum fbn inum' fbn', InFile s inum fbn → InFile s inum' fbn' →
    bmap s inum fbn = bmap s inum' fbn' → inum = inum' ∧ fbn = fbn'

/-! ## `freeblock` -/

theorem winode_freeblock (inum : Nat) (ip : Dinode) (s : State) :
    (winode inum ip s).freeblock = s.freeblock := rfl

theorem blockOf_freeblock (din : Dinode) (fbn : Nat) (s : State) :
    s.freeblock ≤ (blockOf din fbn s).2.2.freeblock := by
  simp only [blockOf, takeBlock]
  split
  · split
    · exact Nat.le_succ _
    · exact le_rfl
  · split
    · split
      · show s.freeblock ≤ s.freeblock + 1 + 1
        omega
      · exact Nat.le_succ _
    · split
      · exact Nat.le_succ _
      · exact le_rfl

theorem appendLoop_freeblock (fuel : Nat) : ∀ (din : Dinode) (off : Nat) (p : List Byte)
    (s : State) (r : Dinode × Nat × State), appendLoop fuel din off p s = some r →
      s.freeblock ≤ r.2.2.freeblock := by
  induction fuel with
  | zero =>
    intro din off p s r h
    obtain rfl := Option.some.inj h
    exact le_rfl
  | succ fuel ih =>
    intro din off p s r h
    simp only [appendLoop] at h
    split at h
    · obtain rfl := Option.some.inj h
      exact le_rfl
    · split at h
      · have hb := blockOf_freeblock din (off / BSIZE) s
        have hi := ih _ _ _ _ _ h
        exact le_trans hb hi
      · cases h

theorem iappend_freeblock {inum : Nat} {xp : List Byte} {s t : State}
    (h : iappend inum xp s = some t) : s.freeblock ≤ t.freeblock := by
  unfold iappend at h
  obtain ⟨r, hr, rfl⟩ := Option.map_eq_some_iff.1 h
  exact appendLoop_freeblock _ _ _ _ _ _ hr

theorem copyFile_freeblock {inum : Nat} (fuel : Nat) : ∀ {data : List Byte} {s t : State},
    copyFile inum fuel data s = some t → s.freeblock ≤ t.freeblock := by
  induction fuel with
  | zero =>
    intro data s t h
    obtain rfl := Option.some.inj h
    exact le_rfl
  | succ fuel ih =>
    intro data s t h
    simp only [copyFile] at h
    split at h
    · obtain rfl := Option.some.inj h
      exact le_rfl
    · obtain ⟨u, hu, ht⟩ := Option.bind_eq_some_iff.1 h
      exact le_trans (iappend_freeblock hu) (ih ht)

theorem addFiles_freeblock {rootino : Nat} : ∀ {files : List File} {s t : State},
    addFiles rootino files s = some t → s.freeblock ≤ t.freeblock := by
  intro files
  induction files with
  | nil =>
    intro s t h
    obtain rfl := Option.some.inj h
    exact le_rfl
  | cons f fs ih =>
    intro s t h
    obtain ⟨u, hu, ht⟩ := Option.bind_eq_some_iff.1 h
    refine le_trans ?_ (ih ht)
    unfold addFile at hu
    split at hu
    · cases hu
    · obtain ⟨v, hv, hu⟩ := Option.bind_eq_some_iff.1 hu
      have h1 := iappend_freeblock hv
      rw [winode_freeblock] at h1
      exact le_trans h1 (copyFile_freeblock _ hu)

/-! ## The bitmap loops -/

/-- A write outside the buffer stays recorded. -/
theorem innerLoop_outside (used j : Int) (fuel : Nat) : ∀ (i : Int) (b : Buf),
    b.outside = true → (innerLoop used j fuel i b).2.outside = true := by
  induction fuel with
  | zero => exact fun i b hb => hb
  | succ fuel ih =>
    intro i b hb
    simp only [innerLoop]
    split
    · refine ih _ _ ?_
      simp [Buf.orBit, hb]
    · exact hb

theorem outerLoop_outside (used fuel : Nat) : ∀ (j : Nat) (i : Int) (s : State),
    s.outside = true → (outerLoop used fuel j i s).outside = true := by
  induction fuel with
  | zero => exact fun j i s hs => hs
  | succ fuel ih =>
    intro j i s hs
    simp only [outerLoop]
    split
    · refine ih _ _ _ ?_
      exact innerLoop_outside _ _ _ _ _ hs
    · exact hs

/-- The first loop does not run: it asks for `i > BSIZE*8` from `i = 0` on. -/
theorem firstLoop_none (n : Nat) (b : Buf) :
    firstLoop ((n + 1 : Nat) : Int) (n + 1) 0 b = (0, b) := by
  rw [firstLoop, if_neg (by simp)]

/-- **The bitmap loops write outside their buffer** as soon as a block is in use. -/
theorem balloc_outside (used : Nat) (h : 0 < used) (s : State) :
    (balloc used s).outside = true := by
  obtain ⟨n, rfl⟩ : ∃ n, used = n + 1 := ⟨used - 1, by omega⟩
  simp only [balloc, firstLoop_none, outerLoop]
  rw [if_pos (by omega)]
  -- the first bit of the second block is at byte -512
  refine outerLoop_outside _ _ _ _ _ ?_
  simp only [wsect, innerLoop]
  have hi : (0 : Int) < ((n + 1 : Nat) : Int) ∧
      (0 : Int) < (((1 : Nat) : Int) + 1) * ((BSIZE * 8 : Nat) : Int) :=
    ⟨by omega, by decide⟩
  rw [if_pos hi]
  refine innerLoop_outside _ _ _ _ _ ?_
  simp [Buf.orBit, Buf.zero]

theorem outerLoop_disk (used fuel n : Nat) : ∀ (j : Nat) (i : Int) (s : State),
    n < sb.bmapstart + j → (outerLoop used fuel j i s).disk n = s.disk n := by
  induction fuel with
  | zero => exact fun j i s hn => rfl
  | succ fuel ih =>
    intro j i s hn
    simp only [outerLoop]
    split
    · rw [ih _ _ _ (by omega)]
      exact if_neg (by omega)
    · rfl

/-- **The first bitmap block stays empty**: the kernel takes every block below `BPB`
to be free, the boot block first. -/
theorem balloc_first (used : Nat) (h : 0 < used) (s : State) (b : Nat) (hb : b < BPB) :
    bitOf (balloc used s) b = false := by
  obtain ⟨n, rfl⟩ : ∃ n, used = n + 1 := ⟨used - 1, by omega⟩
  have hB : BBLOCK b = sb.bmapstart := by
    rw [BBLOCK, Nat.div_eq_of_lt hb, Nat.zero_add]
  have hd : (balloc (n + 1) s).disk sb.bmapstart = (Buf.zero s.outside).sector := by
    simp only [balloc, firstLoop_none]
    rw [outerLoop_disk _ _ _ _ _ _ (Nat.lt_succ_self _)]
    simp [wsect]
  rw [bitOf, hB, hd]
  simp [Buf.sector, Buf.zero]

/-- The bitmap lies in the swap area. -/
theorem regions_overlap : ¬ regions.Pairwise Region.Disjoint := by
  intro h
  -- the bitmap starts at block 58, the swap area ends at 6402
  have hd : Region.Disjoint ⟨2, 2 + NSWAPBLOCKS⟩ ⟨sb.bmapstart, sb.bmapstart + nbitmap⟩ :=
    (List.pairwise_cons.1 h).1 _ (by simp)
  have hsb : sb.bmapstart = 58 := by decide
  have hn : nbitmap = 6 := by decide
  rw [Region.Disjoint, hsb, hn] at hd
  revert hd
  decide

/-- The image is what `balloc` leaves, with blocks in use. -/
theorem mkfs_eq_balloc {files : List File} {s : State} (h : mkfs files = some s) :
    ∃ used t, 0 < used ∧ s = balloc used t := by
  unfold mkfs at h
  obtain ⟨s1, h1, h⟩ := Option.bind_eq_some_iff.1 h
  obtain ⟨s2, h2, h⟩ := Option.bind_eq_some_iff.1 h
  obtain ⟨s3, h3, h⟩ := Option.bind_eq_some_iff.1 h
  refine ⟨_, _, ?_, (Option.some.inj h).symm⟩
  have hf1 := iappend_freeblock h1
  have hf2 := iappend_freeblock h2
  have hf3 := addFiles_freeblock h3
  have h0 : 0 < nmeta := by decide
  show 0 < s3.freeblock
  simp only [wsect, winode_freeblock] at hf1
  omega

theorem mkfs_outside {files : List File} {s : State} (h : mkfs files = some s) :
    s.outside = true := by
  obtain ⟨used, t, hused, rfl⟩ := mkfs_eq_balloc h
  exact balloc_outside used hused t

/-- **No image of `mkfs` is consistent.** Whatever the files are, `balloc` writes
outside its buffer, the bitmap lies in the swap area, and the first `BPB` blocks are
free in it. -/
theorem mkfs_inconsistent (files : List File) (s : State) (h : mkfs files = some s) :
    s.outside = true ∧ ¬ regions.Pairwise Region.Disjoint ∧
      (∀ b, b < BPB → bitOf s b = false) ∧ ¬ Consistent s := by
  have hout := mkfs_outside h
  refine ⟨hout, regions_overlap, ?_, fun hc => ?_⟩
  · obtain ⟨used, t, hused, rfl⟩ := mkfs_eq_balloc h
    exact balloc_first used hused t
  · rw [hc.inside] at hout
    cases hout

/-- A file of two blocks and one of three bytes. -/
def twoFiles : List File := [⟨[97], List.replicate 600 65⟩, ⟨[98, 99], [66, 67, 68]⟩]

/-- The image with these files and the root directory. -/
theorem mkfs_inconsistent_twoFiles :
    ∃ s, mkfs twoFiles = some s ∧ s.outside = true ∧ bitOf s 0 = false ∧ ¬ Consistent s := by
  have h : (mkfs twoFiles).isSome = true := by decide +kernel
  obtain ⟨s, hs⟩ := Option.isSome_iff_exists.1 h
  obtain ⟨hout, -, hfree, hc⟩ := mkfs_inconsistent twoFiles s hs
  exact ⟨s, hs, hout, hfree 0 (by decide), hc⟩

/-- An image with one file of one byte. -/
theorem mkfs_one_file : ∃ s, mkfs [⟨[97], [65]⟩] = some s ∧ ¬ Consistent s := by
  have h : (mkfs [⟨[97], [65]⟩]).isSome = true := by decide +kernel
  obtain ⟨s, hs⟩ := Option.isSome_iff_exists.1 h
  refine ⟨s, hs, fun hc => ?_⟩
  have hout := mkfs_outside hs
  rw [hc.inside] at hout
  cases hout

end Xv6.Mkfs
