/-
Who holds each frame and each swap slot.

A frame in use is the frame of one user page, one page-table page, one page
directory, one kernel stack or one pipe, or it is held by a routine that has
allocated it and not yet given it its place (`held`). A slot in use is the slot
of one paged-out page of a process that is not a zombie. Both are instances of
`Lib.Own`, and together with the ranges and the process table they are the
invariant `Inv` of the kernel between and inside its routines.

A zombie is left out of the slots on purpose: `exit` frees the slots of its
paged-out pages and leaves the entries as they are.
-/
import Xv6.Lib.Own
import Xv6.Swap.Process

set_option autoImplicit false

namespace Xv6.Swap

open Xv6.Lib

/-! ## Reading page tables -/

namespace Machine

/-- The entry of page `v` in directory `d`. -/
def pte (s : Machine) (d v : Nat) : Pte :=
  match s.space d with
  | some sp => sp.pte v
  | none => Pte.zero

/-- The page-table page of directory entry `i` in directory `d`. -/
def tab (s : Machine) (d i : Nat) : Option Nat :=
  match s.space d with
  | some sp => sp.tab i
  | none => none

theorem pte_of_space {s : Machine} {d : Nat} {sp : Space} (h : s.space d = some sp) (v : Nat) :
    s.pte d v = sp.pte v := by
  simp only [pte, h]

theorem tab_of_space {s : Machine} {d : Nat} {sp : Space} (h : s.space d = some sp) (i : Nat) :
    s.tab d i = sp.tab i := by
  simp only [tab, h]

@[simp] theorem setPte_tab (s : Machine) (d v : Nat) (e : Pte) (d' i : Nat) :
    (s.setPte d v e).tab d' i = s.tab d' i := by
  simp only [tab, setPte_space]
  by_cases hd : d' = d
  · subst hd
    rw [Function.update_self]
    cases s.space d' <;> rfl
  · rw [Function.update_of_ne hd]

theorem setPte_pte {s : Machine} {d v : Nat} {e : Pte} (h : (s.space d).isSome) (d' v' : Nat) :
    (s.setPte d v e).pte d' v' = if d' = d ∧ v' = v then e else s.pte d' v' := by
  obtain ⟨sp, hsp⟩ := Option.isSome_iff_exists.1 h
  simp only [pte, setPte_space]
  by_cases hd : d' = d
  · subst hd
    rw [Function.update_self, hsp]
    by_cases hv : v' = v
    · subst hv; simp
    · simp [hv]
  · simp [hd]

@[simp] theorem setPte_isSome (s : Machine) (d v : Nat) (e : Pte) (d' : Nat) :
    ((s.setPte d v e).space d').isSome = (s.space d').isSome := by
  rw [setPte_space]
  by_cases hd : d' = d
  · subst hd; simp
  · rw [Function.update_of_ne hd]

/-- `d` is the directory of a process that has exited and was not reaped. -/
def zombie (s : Machine) (d : Nat) : Prop :=
  ∃ p, (s.proc p).state = .ZOMBIE ∧ (s.proc p).pgdir = d

/-- What a program that owns directory `d` stored in page `v`: the bytes of its
frame, or of its slot once it is paged out. -/
def content (s : Machine) (d v : Nat) : Option Page :=
  if (s.pte d v).present then some (s.mem (s.pte d v).ppn)
  else if (s.pte d v).swapped then some (s.slotPage (s.pte d v).ppn)
  else none

end Machine

/-- A process with an address space of its own. -/
def Proc.live (p : Proc) : Prop := p.state ≠ .UNUSED ∧ p.state ≠ .EMBRYO

/-! ## The owners -/

/-- What a frame can be used for. -/
inductive Owner where
  | page (d v : Nat)
  | table (d i : Nat)
  | dir (d : Nat)
  | kstack (p : Nat)
  | pipe (i : Nat)
  | held (f : Nat)

/-- The frames each owner holds; `h` are the frames of routines under way. -/
def Uses (h : Set Nat) (s : Machine) : Owner → Nat → Prop
  | .page d v, f => v < UPAGES ∧ (s.pte d v).present = true ∧ (s.pte d v).ppn = f
  | .table d i, f => s.tab d i = some f
  | .dir d, f => (s.space d).isSome = true ∧ f = d
  | .kstack p, f => (s.proc p).kstack = f ∧ f ≠ 0
  | .pipe i, f => s.pipe i = some f
  | .held g, f => g ∈ h ∧ f = g

/-- The slot of each paged-out page. -/
def SlotUses (s : Machine) (o : Nat × Nat) (k : Nat) : Prop :=
  ¬ s.zombie o.1 ∧ o.2 < UPAGES ∧ (s.pte o.1 o.2).swapped = true ∧ (s.pte o.1 o.2).ppn = k

/-- Frames and slots are held as they should be, inside a routine that holds the
frames `h`. -/
structure Frames (h : Set Nat) (s : Machine) : Prop where
  own : Own (Uses h s) (· ∈ s.freelist)
  nodup : s.freelist.Nodup
  range_free : ∀ f ∈ s.freelist, s.kend ≤ f ∧ f < NFRAMES
  range_used : ∀ o f, Uses h s o f → s.kend ≤ f ∧ f < NFRAMES
  kend_pos : 0 < s.kend
  tab_zero : ∀ d v, s.tab d (v / NPTENTRIES) = none → s.pte d v = Pte.zero
  slot_own : Own (SlotUses s) fun k => (s.slots k).is_free = true
  slot_range : ∀ o k, SlotUses s o k → k < SWAP_SLOT_TOTAL

/-- The processes that have an address space have one each. -/
structure Procs (s : Machine) : Prop where
  dir : ∀ p, (s.proc p).live → (s.space (s.proc p).pgdir).isSome = true
  dir_inj : ∀ p q, (s.proc p).live → (s.proc q).live → (s.proc p).pgdir = (s.proc q).pgdir → p = q
  size : ∀ p, (s.proc p).live → (s.proc p).sz ≤ KERNBASE
  embryo : ∀ p, (s.proc p).state = .EMBRYO → (s.proc p).rss = 0#32

/-- The invariant of the kernel. -/
structure Inv (h : Set Nat) (s : Machine) : Prop extends Frames h s, Procs s

/-- The part of the state the invariant is about. -/
def Machine.core (s : Machine) :
    Nat × List Nat × (Nat → Option Space) × (Nat → Slot) × (Nat → Proc) × (Nat → Option Nat) :=
  (s.kend, s.freelist, s.space, s.slots, s.proc, s.pipe)

/-- Memory, disk, processor and history do not matter to the invariant. -/
theorem Frames.congr {h : Set Nat} {s t : Machine} (hF : Frames h s) (hc : t.core = s.core) :
    Frames h t := by
  cases s
  cases t
  simp only [Machine.core, Prod.mk.injEq] at hc
  obtain ⟨rfl, rfl, rfl, rfl, rfl, rfl⟩ := hc
  exact ⟨hF.own, hF.nodup, hF.range_free, hF.range_used, hF.kend_pos, hF.tab_zero, hF.slot_own,
    hF.slot_range⟩

theorem Procs.congr {s t : Machine} (hP : Procs s) (hs : t.space = s.space)
    (hp : t.proc = s.proc) : Procs t := by
  cases s
  cases t
  subst hs hp
  exact ⟨hP.dir, hP.dir_inj, hP.size, hP.embryo⟩

theorem Inv.congr {h : Set Nat} {s t : Machine} (hI : Inv h s) (hc : t.core = s.core) :
    Inv h t := by
  refine ⟨hI.toFrames.congr hc, ?_⟩
  simp only [Machine.core, Prod.mk.injEq] at hc
  exact hI.toProcs.congr hc.2.2.1 hc.2.2.2.2.1

namespace Frames

variable {h h' : Set Nat} {s : Machine}

/-- A routine may forget a frame it holds. -/
theorem forget (hF : Frames h s) (hh : h' ⊆ h) : Frames h' s := by
  have hu : ∀ o f, Uses h' s o f → Uses h s o f := by
    rintro (_ | _ | _ | _ | _ | _) f hf
    case held => exact ⟨hh hf.1, hf.2⟩
    all_goals exact hf
  exact { hF with
    own := hF.own.mono hu fun _ hf => hf
    range_used := fun o f hf => hF.range_used o f (hu o f hf) }

/-- An entry that is not zero has its page table. -/
theorem tab_isSome (hF : Frames h s) {d v : Nat} (hv : s.pte d v ≠ Pte.zero) :
    (s.tab d (v / NPTENTRIES)).isSome = true := by
  rw [Option.isSome_iff_ne_none]
  exact fun hn => hv (hF.tab_zero d v hn)

/-- The walk of a directory finds the entry or there is none. -/
theorem walk_eq (hF : Frames h s) {d : Nat} {sp : Space} (hsp : s.space d = some sp) (v : Nat) :
    (sp.walk v = none ∧ s.pte d v = Pte.zero) ∨ sp.walk v = some (s.pte d v) := by
  rw [Machine.pte_of_space hsp]
  unfold Space.walk
  split
  · exact Or.inr rfl
  · next hn =>
    refine Or.inl ⟨rfl, ?_⟩
    rw [← Machine.pte_of_space hsp]
    refine hF.tab_zero d v ?_
    rw [Machine.tab_of_space hsp]
    simpa using hn

end Frames

end Xv6.Swap
