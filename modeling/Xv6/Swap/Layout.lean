/-
The constants of `mmu.h`, `memlayout.h`, `param.h` and `pageswap.c`, and page
table entries.

A 32-bit entry is split where the hardware splits it: `ppn` is the page number
`PTE_ADDR(*pte) >> 12` and `flags` the low twelve bits `*pte & 0xFFF`. While a
page is in memory `ppn` is its frame; once it has been paged out the kernel
reuses the same bits for the swap slot, and only `PTE_P` tells the two apart.
The all-zero entry is the one of a page that was never mapped.

Addresses are byte addresses below `2^32`; a page number is an address divided
by `PGSIZE`, and the user half of an address space is the pages below `UPAGES`.
-/
import Xv6.Lib.Chunk

set_option autoImplicit false

namespace Xv6.Swap

open Xv6.Lib

/-! ## Sizes -/

/-- Blocks of a swapped page. -/
abbrev SWAP_BLOCKS_PER_PAGE : Nat := 8

/-- Bytes of a disk block. -/
abbrev BSIZE : Nat := 512

/-- Bytes of a page: the eight blocks of its swap slot. -/
abbrev PGSIZE : Nat := SWAP_BLOCKS_PER_PAGE * BSIZE

/-- Number of swap slots. -/
abbrev SWAP_SLOT_TOTAL : Nat := 800

/-- First disk block of the swap area. -/
abbrev SWAP_BLOCK_START : Nat := 2

/-- Entries of a page-table page. -/
abbrev NPTENTRIES : Nat := 1024

/-- Entries of a page directory. -/
abbrev NPDENTRIES : Nat := 1024

/-- First kernel virtual address. -/
abbrev KERNBASE : Nat := 0x80000000

/-- Pages of the user half, `KERNBASE / PGSIZE`. -/
abbrev UPAGES : Nat := 524288

/-- Frames of physical memory, `PHYSTOP / PGSIZE`. -/
abbrev NFRAMES : Nat := 1024

/-- First page of `DEVSPACE`. -/
abbrev DEVPAGE : Nat := 1040384

/-- Slots of the process table. -/
abbrev NPROC : Nat := 64

/-- `PGROUNDUP`, as a number of pages. -/
def pagesUp (sz : Nat) : Nat := (sz + 4095) / 4096

/-- `PGROUNDUP`. -/
def PGROUNDUP (sz : Nat) : Nat := pagesUp sz * 4096

theorem pagesUp_mono {a b : Nat} (h : a ≤ b) : pagesUp a ≤ pagesUp b := by
  unfold pagesUp
  omega

theorem pagesUp_le_upages {sz : Nat} (h : sz ≤ KERNBASE) : pagesUp sz ≤ UPAGES := by
  unfold pagesUp
  simp only [KERNBASE, UPAGES] at *
  omega

/-! ## Bytes, blocks and pages -/

abbrev Byte : Type := UInt8

/-- A disk block. -/
abbrev Block : Type := Fin BSIZE → Byte

/-- The contents of a frame. -/
abbrev Page : Type := Fin PGSIZE → Byte

/-- `memset` of a whole page. -/
def memset (b : Byte) : Page := fun _ => b

/-- The offset of an address in its page. -/
def pgoff (a : Nat) : Fin PGSIZE := ⟨a % PGSIZE, Nat.mod_lt _ (by decide)⟩

/-! ## Page-table entries -/

abbrev PTE_P : BitVec 12 := 0x001#12
abbrev PTE_W : BitVec 12 := 0x002#12
abbrev PTE_U : BitVec 12 := 0x004#12
abbrev PTE_A : BitVec 12 := 0x020#12
/-- The dirty bit, which only the hardware writes. -/
abbrev PTE_D : BitVec 12 := 0x040#12

/-- A page-table entry: page number (or swap slot) and flag bits. -/
structure Pte where
  ppn : Nat
  flags : BitVec 12
  deriving DecidableEq

namespace Pte

/-- The entry `0`. -/
def zero : Pte := ⟨0, 0#12⟩

/-- `*pte & PTE_P`. -/
def present (e : Pte) : Bool := e.flags.getLsbD 0

/-- `*pte & PTE_W`. -/
def writable (e : Pte) : Bool := e.flags.getLsbD 1

/-- `*pte & PTE_U`. -/
def user (e : Pte) : Bool := e.flags.getLsbD 2

/-- `*pte & PTE_A`. -/
def accessed (e : Pte) : Bool := e.flags.getLsbD 5

/-- A page that was paged out: not present, and not the zero entry. -/
def swapped (e : Pte) : Bool := !e.present && e != zero

/-- `*pte &= ~PTE_A`. -/
def clearA (e : Pte) : Pte := { e with flags := e.flags &&& ~~~PTE_A }

/-- The entry that `swapAndPageOut` writes: `(slot << 12) | (*pte & ~PTE_P & 0xFFF)`. -/
def toSlot (e : Pte) (slot : Nat) : Pte := ⟨slot, e.flags &&& ~~~PTE_P⟩

/-- The permission flags: all flag bits but presence and the accessed bit. -/
def perm (e : Pte) : BitVec 12 := e.flags &&& ~~~(PTE_P ||| PTE_A)

@[simp] theorem present_zero : zero.present = false := rfl

@[simp] theorem swapped_zero : zero.swapped = false := rfl

@[simp] theorem perm_zero : zero.perm = 0#12 := rfl

theorem swapped_iff {e : Pte} : e.swapped = true ↔ e.present = false ∧ e ≠ zero := by
  simp [swapped]

/-- The three kinds of entry. -/
theorem cases_kind (e : Pte) : e.present = true ∨ e.swapped = true ∨ e = zero := by
  rw [swapped_iff]
  cases e.present <;> simp [Classical.em, or_comm]

theorem present_ne_zero {e : Pte} (h : e.present = true) : e ≠ zero := by
  rintro rfl
  cases h

@[simp] theorem clearA_ppn (e : Pte) : e.clearA.ppn = e.ppn := rfl

@[simp] theorem clearA_present (e : Pte) : e.clearA.present = e.present := by
  simp [clearA, present, PTE_A]

@[simp] theorem clearA_user (e : Pte) : e.clearA.user = e.user := by
  simp [clearA, user, PTE_A]

@[simp] theorem toSlot_ppn (e : Pte) (k : Nat) : (e.toSlot k).ppn = k := rfl

@[simp] theorem toSlot_present (e : Pte) (k : Nat) : (e.toSlot k).present = false := by
  simp [toSlot, present]

@[simp] theorem toSlot_user (e : Pte) (k : Nat) : (e.toSlot k).user = e.user := by
  simp [toSlot, user]

/-- Clearing the accessed bit keeps the permission flags. -/
@[simp] theorem clearA_perm (e : Pte) : e.clearA.perm = e.perm := by
  apply BitVec.eq_of_getLsbD_eq
  intro i _
  simp only [perm, clearA, BitVec.getLsbD_and, BitVec.getLsbD_not, BitVec.getLsbD_or]
  cases e.flags.getLsbD i <;> cases PTE_A.getLsbD i <;> simp

/-- Paging out keeps the permission flags. -/
@[simp] theorem toSlot_perm (e : Pte) (k : Nat) : (e.toSlot k).perm = e.perm := by
  apply BitVec.eq_of_getLsbD_eq
  intro i _
  simp only [perm, toSlot, BitVec.getLsbD_and, BitVec.getLsbD_not, BitVec.getLsbD_or]
  cases e.flags.getLsbD i <;> cases PTE_P.getLsbD i <;> simp

/-- The user flag is a permission flag. -/
theorem user_of_perm {e e' : Pte} (h : e'.perm = e.perm) : e'.user = e.user := by
  have hb := congrArg (fun b => b.getLsbD 2) h
  simpa [perm, user, PTE_P, PTE_A] using hb

/-- An entry with a nonzero flag is not the zero entry. -/
theorem ne_zero_of_user {e : Pte} (h : e.user = true) : e ≠ zero := by
  rintro rfl
  cases h

/-- A paged-out user page is a swapped entry, whatever its slot. -/
theorem toSlot_swapped {e : Pte} (k : Nat) (h : e.user = true) : (e.toSlot k).swapped = true := by
  rw [swapped_iff]
  exact ⟨toSlot_present e k, ne_zero_of_user (by rw [toSlot_user]; exact h)⟩

end Pte

/-- The entry with frame `f`, flags `perm` and `PTE_P`: what `mapPages` writes. -/
def Pte.mapped (f : Nat) (perm : BitVec 12) : Pte := ⟨f, perm ||| PTE_P⟩

namespace Pte

@[simp] theorem mapped_ppn (f : Nat) (p : BitVec 12) : (mapped f p).ppn = f := rfl

/-- The permission flags of a mapped page are those it was mapped with. -/
theorem mapped_perm (f : Nat) (p : BitVec 12) : (mapped f p).perm = p &&& ~~~(PTE_P ||| PTE_A) := by
  apply BitVec.eq_of_getLsbD_eq
  intro i _
  simp only [perm, mapped, BitVec.getLsbD_and, BitVec.getLsbD_not, BitVec.getLsbD_or]
  cases p.getLsbD i <;> cases PTE_P.getLsbD i <;> simp

@[simp] theorem mapped_present (f : Nat) (p : BitVec 12) : (mapped f p).present = true := by
  simp [mapped, present]

@[simp] theorem mapped_swapped (f : Nat) (p : BitVec 12) : (mapped f p).swapped = false := by
  simp [swapped]

end Pte

end Xv6.Swap
