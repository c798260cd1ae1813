/-
Page faults in user mode: what the process finds when `trap` returns.

`trap` calls `swapPageIn` for every page fault, and returns to the faulting instruction
when that returns 0. It returns 0 for a page that is present, also when the fault was a
protection fault on an entry without `PTE_U`, and the instruction then faults again, for
ever. It also returns 0 when it has loaded a page with the permissions of its slot,
whatever they are.
-/
import Xv6.Swap.Release

set_option autoImplicit false

namespace Xv6.Swap

open Xv6.Lib

variable {h : Set Nat} {s t u : Machine} {d v a : Nat}

/-- The entry of page `v` is present and user-accessible. -/
def Accessible (s : Machine) (d v : Nat) : Prop :=
  ∃ e, s.walk d v = some e ∧ e.present = true ∧ e.user = true

/-- The slot was recorded with `PTE_U`. -/
def Slot.user (sl : Slot) : Bool := sl.page_perm.getLsbD 2

theorem mapped_user (f : Nat) (sl : Slot) :
    (Pte.mapped f (sl.page_perm ||| PTE_P)).user = sl.user := by
  simp [Pte.mapped, Pte.user, Slot.user]

/-- The entry, if it is present, is a user page; if it names a slot in use, the slot was that
of a user page, unless there is no memory to load it. -/
def Servable (s : Machine) (d v : Nat) : Prop :=
  ∀ e, s.walk d v = some e →
    (e.present = true → e.user = true) ∧
    (e.present = false → s.occupied e →
      (s.slots e.ppn).user = true ∨ s.freelist = [] ∧ Starved s)

/-- `swapPageIn` returns 0 only with the page accessible, exactly when it is servable. -/
theorem PageIns.accessible_iff {r : Bool} (hn : 1 ≤ s.npages_to_swap) (hp : PageIns h d v s r t) :
    (r = true → Accessible t d v) ↔ Servable s d v := by
  unfold Servable
  cases hp with
  | noTable hw =>
    refine iff_of_true (fun hr => absurd hr.symm Bool.false_ne_true.symm) fun e he => ?_
    rw [hw] at he
    cases he
  | present e hw hp =>
    simp only [hw, Option.some.injEq, forall_eq', hp, true_implies, Accessible, exists_eq_left',
      true_and, Bool.true_eq_false, false_implies, and_true]
  | noSlot e hw hp hk =>
    refine iff_of_true (fun hr => absurd hr.symm Bool.false_ne_true.symm) fun e' he => ?_
    obtain rfl := Option.some.inj (hw.symm.trans he)
    exact ⟨fun hx => absurd (hp.symm.trans hx) Bool.false_ne_true, fun _ hx => absurd hx hk⟩
  | noMemory e t hw hp hk hmem hr =>
    refine iff_of_true (fun hr => absurd hr.symm Bool.false_ne_true.symm) fun e' he => ?_
    obtain rfl := Option.some.inj (hw.symm.trans he)
    exact ⟨fun hx => absurd (hp.symm.trans hx) Bool.false_ne_true, fun _ _ => Or.inr (hmem hn)⟩
  | loaded e f u t hw hp hk hmem hsu ht =>
    have hwalk := hsu.walk_loaded hw hp ht
    constructor
    · intro hacc e' he
      obtain rfl := Option.some.inj (hw.symm.trans he)
      refine ⟨fun hx => absurd (hp.symm.trans hx) Bool.false_ne_true, fun _ _ => Or.inl ?_⟩
      obtain ⟨e', he', -, huser⟩ := hacc rfl
      obtain rfl := Option.some.inj (hwalk.symm.trans he')
      rwa [mapped_user] at huser
    · intro hserv _
      refine ⟨_, hwalk, Pte.mapped_present _ _, ?_⟩
      rw [mapped_user]
      exact ((hserv e hw).2 hp hk).resolve_right (hmem hn)

/-- A page fault that is not served ends the process. -/
theorem pageFault_kills (hI : Inv ∅ s) (hcur : s.myproc.alive) :
    K.Spec (pageFault a) s fun r t => r = false → t.myproc.state = .ZOMBIE := by
  unfold pageFault
  simp only [Code.spec_get_bind]
  refine (swapPageIn_exact hI (hI.dir _ hcur.1)).spec.bind fun r s1 hr => ?_
  cases r with
  | true => exact Code.spec_pure.2 fun hx => absurd hx.symm Bool.false_ne_true
  | false =>
    rw [if_neg Bool.false_ne_true]
    simp only [Code.spec_modify_bind]
    have hE := hr.rounds.evicts hI
    have hK : Keeps ∅ noPage s s1 := hE.keeps hI
    have hal1 : s1.myproc.alive := hK.myproc.2.2.2.2 hcur
    have hS := hE.1.setSteady (X := noPage) (i := s1.cpu.proc)
      (g := fun p => { p with killed := true }) ⟨rfl, Or.inl rfl⟩
    exact (exit_spec hS.inv (hS.spares _ trivial hal1).alive).bind fun _ t hpost =>
      Code.spec_pure.2 fun _ => hpost.2

/-- A page fault that is served has paged in. -/
theorem pageFault_serves (hrun : (pageFault a).run s = .ok (true, t)) :
    (swapPageIn s.myproc.pgdir (a / PGSIZE)).run s = .ok (true, t) := by
  unfold pageFault at hrun
  rw [K.run, Code.run_get_bind] at hrun
  obtain ⟨r, s1, h1, h2⟩ := Code.run_bind_ok.1 hrun
  cases r with
  | true =>
    rw [if_pos rfl, Code.run_pure] at h2
    cases h2
    exact h1
  | false =>
    rw [if_neg Bool.false_ne_true, Code.run_modify_bind] at h2
    obtain ⟨_, s2, -, h3⟩ := Code.run_bind_ok.1 h2
    cases h3

theorem pageFault_of_swapPageIn
    (hrun : (swapPageIn s.myproc.pgdir (a / PGSIZE)).run s = .ok (true, t)) :
    (pageFault a).run s = .ok (true, t) := by
  unfold pageFault
  rw [K.run, Code.run_get_bind, Code.run_bind_of_ok hrun, if_pos rfl]
  rfl

/-- **The page-fault handler makes progress** on a fault at address `a` exactly when the page
is servable: it returns to the instruction only with the page accessible. Otherwise, when it
does not return to it, the process is killed. -/
theorem fault_progress_iff (hI : Inv ∅ s) (hcur : s.myproc.alive) (hn : 1 ≤ s.npages_to_swap)
    (a : Nat) :
    ((∀ t, (pageFault a).run s = .ok (true, t) → Accessible t s.myproc.pgdir (a / PGSIZE)) ↔
      Servable s s.myproc.pgdir (a / PGSIZE)) ∧
    ∀ t, (pageFault a).run s = .ok (false, t) → t.myproc.state = .ZOMBIE := by
  refine ⟨?_, fun t hrun => pageFault_kills hI hcur _ _ hrun rfl⟩
  obtain ⟨r, t, hrun, hp⟩ := swapPageIn_exact (d := s.myproc.pgdir) (v := a / PGSIZE) hI
    (hI.dir _ hcur.1)
  rw [← hp.accessible_iff hn]
  constructor
  · rintro hP rfl
    exact hP t (pageFault_of_swapPageIn hrun)
  · intro hP t' hrun'
    have he := (pageFault_serves hrun').symm.trans hrun
    obtain ⟨hr, ht⟩ := Prod.ext_iff.1 (Except.ok.inj he)
    subst ht
    exact hP hr.symm

/-- A fault on the page in its slot is served. One on a page without a page table is not, and
ends the process. -/
theorem fault_progress_onePageOut :
    (∃ t, (pageFault 5000).run onePageOut = .ok (true, t) ∧ Accessible t 1 1) ∧
    (swapPageIn 1 1024).run onePageOut = .ok (false, onePageOut) ∧
      ∀ t, (pageFault 4194304).run onePageOut = .ok (false, t) → t.myproc.state = .ZOMBIE := by
  have hprogress := fault_progress_iff onePageOut_inv ⟨⟨by decide, by decide⟩, by decide⟩
    (by decide)
  have hserv : Servable onePageOut 1 1 := by
    intro e he
    obtain rfl : (⟨0, 6#12⟩ : Pte) = e := Option.some.inj he
    exact ⟨fun hp => absurd hp Bool.false_ne_true, fun _ _ => Or.inl rfl⟩
  have hrun : (pageFault 5000).run onePageOut = .ok (true, _) :=
    Code.run_of_result (by decide +kernel)
  exact ⟨⟨_, hrun, (hprogress 5000).1.2 hserv _ hrun⟩, rfl, (hprogress 4194304).2⟩

/-- The process with a guard page, as `exec` leaves it. -/
def guarded : Machine := twoPages.setPte 1 1 ⟨4, 3#12⟩

theorem guarded_inv : Inv ∅ guarded := twoPages_inv.setFlags rfl rfl rfl rfl

/-- A touch of the guard page faults, and the handler returns to the instruction in the state
of the fault. -/
theorem guard_faults_forever : Inv ∅ guarded ∧ (clearpteu 1 1).run twoPages = .ok ((), guarded) ∧
    uaccess guarded 4096 false = none ∧ (pageFault 4096).run guarded = .ok (true, guarded) ∧
    ¬Accessible guarded 1 1 := by
  refine ⟨guarded_inv, rfl, rfl, rfl, ?_⟩
  rintro ⟨e, he, -, hu⟩
  obtain rfl : (⟨4, 3#12⟩ : Pte) = e := Option.some.inj he
  cases hu

end Xv6.Swap
