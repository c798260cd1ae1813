/-
What `fork` and `custom_fork` hand to the scheduler.

`allocproc` takes a slot under `ptable.lock` and fills it without; the slot is safe
meanwhile because an EMBRYO is nobody's business but its creator's. SIGBG and SIGFG
make it everybody's: they set it RUNNABLE half-built, and they do the same to a
slot that is already ZOMBIE or UNUSED. This module proves that nothing else
does: what is dispatched is complete (`Built`).
-/
import Xv6.Signal.Start

set_option autoImplicit false

namespace Xv6.Signal

open Xv6.Lib

variable {k : Config} {s t : Machine} {c : Nat} {i j : Slot} {e : Event}

/-! ## Complete processes -/

/-- The kernel stack with its context, the page directory and the trap frame are
those of this pid, and the process has not been through `exit`. -/
structure Whole (p : Proc) : Prop where
  kstack : p.kstack = true
  pgdir : p.pgdir = some p.pid
  tf : p.tf = some p.pid
  pos : p.pos ≠ .exited

/-- The states of a process that `fork` has finished with and that has not ended. -/
def Live (st : ProcState) : Prop :=
  st = .RUNNABLE ∨ st = .RUNNING ∨ st = .SLEEPING ∨ st = .CREATED

/-- What is there of the new process before a stage. -/
structure Progress (st : Stage) (p : Proc) : Prop where
  kstack : st ≠ .stack → p.kstack = true
  pgdir : st = .linking ∨ st = .files ∨ st = .ready → p.pgdir = some p.pid
  tf : st = .files ∨ st = .ready → p.tf = some p.pid
  pos : p.pos ≠ .exited

structure Built (s : Machine) : Prop where
  live : ∀ i, Live (s.proc i).state → Whole (s.proc i)
  creating : ∀ i np a st, (s.proc i).pos = .creating np a st → Progress st (s.proc np)

/-- The parts of a process that `Whole` speaks of are the same. -/
structure SameParts (p q : Proc) : Prop where
  kstack : q.kstack = p.kstack
  pgdir : q.pgdir = p.pgdir
  tf : q.tf = p.tf
  pid : q.pid = p.pid
  pos : q.pos = .exited → p.pos = .exited

theorem Built.keep (h : Built s) (hn : Nursery s)
    (hpos : ∀ i np a st, (t.proc i).pos = .creating np a st → (s.proc i).pos = .creating np a st)
    (hlive : ∀ j, Live (t.proc j).state → Live (s.proc j).state ∧ SameParts (s.proc j) (t.proc j))
    (hem : ∀ j, (s.proc j).state = .EMBRYO → SameParts (s.proc j) (t.proc j)) : Built t := by
  constructor
  · intro i hi
    obtain ⟨hl, hs⟩ := hlive i hi
    have hw := h.live i hl
    exact ⟨hs.kstack.trans hw.kstack, by rw [hs.pgdir, hs.pid, hw.pgdir],
      by rw [hs.tf, hs.pid, hw.tf], fun hx => hw.pos (hs.pos hx)⟩
  · intro i np a st hi
    have hi' := hpos i np a st hi
    have hp := h.creating i np a st hi'
    have hs := hem np (hn.embryo i np a st hi')
    exact ⟨fun hx => hs.kstack.trans (hp.kstack hx), fun hx => by rw [hs.pgdir, hs.pid, hp.pgdir hx],
      fun hx => by rw [hs.tf, hs.pid, hp.tf hx], fun hx => hp.pos (hs.pos hx)⟩

theorem Built.alloc (h : Built s) (hn : Nursery s) {np : Slot} (a : Option ForkArgs)
    (hu : (s.proc np).state = .UNUSED) (hi : (s.proc i).state = .RUNNING) :
    Built { (s.set np (Proc.alloc s.nextpid a)).set i fun p =>
      { p with pos := .creating np a .stack } with nextpid := s.nextpid + 1 } := by
  have hni : np ≠ i := by
    rintro rfl
    rw [hu] at hi
    cases hi
  -- no one was creating the slot, since it was UNUSED
  have hnew : ∀ j b st, (s.proc j).pos ≠ .creating np b st := fun j b st hj => by
    have := hn.embryo j np b st hj
    rw [hu] at this
    cases this
  constructor
  · intro j hj
    have hw := h.live j
    simp only [Machine.set_proc, Proc.alloc] at *
    by_cases hjn : j = np
    · -- the new process is EMBRYO
      simp only [hjn, if_true, if_neg hni] at hj
      rcases hj with hj | hj | hj | hj <;> cases hj
    · by_cases hji : j = i
      · simp only [hji, if_true, if_neg hni.symm] at *
        have := hw hj
        exact ⟨this.kstack, this.pgdir, this.tf, by simp⟩
      · simp only [if_neg hjn, if_neg hji] at *
        exact hw hj
  · intro j m b st hj
    by_cases hji : j = i
    · simp only [hji, Machine.set_proc, if_true, Pos.creating.injEq] at hj
      obtain ⟨rfl, rfl, rfl⟩ := hj
      simp only [Machine.set_proc, if_true, if_neg hni, Proc.alloc]
      exact ⟨by simp, by simp, by simp, by simp⟩
    · have hjn : j ≠ np := by
        rintro rfl
        simp [Machine.set_proc, hji, Proc.alloc] at hj
      simp only [Machine.set_proc, if_neg hji, if_neg hjn] at hj
      have hp := h.creating j m b st hj
      have hmn : m ≠ np := by
        rintro rfl
        exact hnew j b st hj
      simp only [Machine.set_proc, if_neg hmn]
      split
      · exact ⟨hp.kstack, hp.pgdir, hp.tf, by simp⟩
      · exact hp

/-- A stage makes the progress that the next one starts from. -/
theorem Progress.write {st st' : Stage} {cur p : Proc} {a b : Option ForkArgs} {np m : Slot}
    (h : Progress st p) (hnext : st.next np a = .creating m b st') :
    Progress st' (st.write k i cur a p) := by
  cases st <;> simp only [Stage.next, Pos.creating.injEq, reduceCtorEq] at hnext
  all_goals
    obtain ⟨-, -, rfl⟩ := hnext
    cases a <;> constructor <;> simp [Stage.write] <;>
      simp [h.kstack, h.pgdir, h.tf, h.pos]

theorem Built.advance (h : Built s) (hn : Nursery s) {np : Slot} {a : Option ForkArgs}
    {st : Stage} (hi : (s.proc i).state = .RUNNING) (hpos : (s.proc i).pos = .creating np a st) :
    Built ((s.set np fun p => st.write k i (s.proc i) a p).set i
      fun p => { p with pos := st.next np a }) := by
  have hp := h.creating i np a st hpos
  have hem := hn.embryo i np a st hpos
  have hni : np ≠ i := by
    rintro rfl
    rw [hem] at hi
    cases hi
  have hexit : st.next np a ≠ .exited := by cases st <;> simp [Stage.next]
  constructor
  · intro j hj
    by_cases hjn : j = np
    · -- the process is handed over: this was the last stage
      subst hjn
      simp only [Machine.set_proc, if_true, if_neg hni] at hj ⊢
      rw [Stage.write_state] at hj
      split at hj
      · rename_i hst
        subst hst
        exact ⟨hp.kstack (by simp), hp.pgdir (by simp), hp.tf (by simp), hp.pos⟩
      · rw [hem] at hj
        rcases hj with hj | hj | hj | hj <;> cases hj
    · by_cases hji : j = i
      · subst hji
        simp only [Machine.set_proc, if_true, if_neg hjn] at hj ⊢
        have := h.live j hj
        exact ⟨this.kstack, this.pgdir, this.tf, hexit⟩
      · simp only [Machine.set_proc, if_neg hjn, if_neg hji] at hj ⊢
        exact h.live j hj
  · intro j m b st' hj
    by_cases hji : j = i
    · subst hji
      simp only [Machine.set_proc, if_true] at hj
      -- the creator goes on with the same slot
      have hm : m = np := by cases st <;> simp [Stage.next] at hj <;> grind -ring -linarith
      subst hm
      simp only [Machine.set_proc, if_true, if_neg hni]
      exact hp.write hj
    · have hj' : (s.proc j).pos = .creating m b st' := by
        simp only [Machine.set_proc, if_neg hji] at hj
        split at hj
        · rw [Stage.write_pos] at hj
          exact hj
        · exact hj
      -- another creator is at another slot
      have hmn : m ≠ np := by
        rintro rfl
        exact hji (hn.creator j i m b a st' st hj' hpos)
      simp only [Machine.set_proc, if_neg hmn]
      have := h.creating j m b st' hj'
      split
      · exact ⟨this.kstack, this.pgdir, this.tf, hexit⟩
      · exact this

/-- The states that SIGBG and SIGFG may overwrite without undoing a birth or a
death. -/
def Alive (st : ProcState) : Prop := st = .SLEEPING ∨ st = .RUNNABLE ∨ st = .CREATED
  deriving Decidable

theorem Alive.parked {st : ProcState} (h : Alive st) : Parked st := by
  rcases h with rfl | rfl | rfl <;> exact ⟨by decide, by decide⟩

theorem sendsig_parts (n : Nat) (s : Machine) (j : Slot) :
    SameParts (s.proc j) ((sendsig n s).proc j) := by
  unfold sendsig
  constructor <;> grind -ring -linarith [Proc.kill, Proc.background, Proc.foreground, Proc.custom]

theorem aged_parts (k : Config) (s : Machine) (j : Slot) :
    SameParts (s.proc j) ((s.aged k).proc j) := by
  constructor <;> simp only [Machine.aged, Machine.each_proc, Proc.expire, Proc.boost] <;>
    grind -ring -linarith

theorem reparent_parts (p : Proc) (i init : Slot) : SameParts p (p.reparent i init) := by
  constructor <;> simp only [Proc.reparent] <;> grind -ring -linarith

theorem Built.step (h : Built s) (hP : Placed s) (hn : Nursery s) (hA : Spares Alive s e)
    (he : Step k s e t) (hp : t.panicked = none) : Built t := by
  replace he := effect_of_step he
  have hrun : ∀ c i, s.cpu c = some i → (s.proc i).state = .RUNNING ∧ Whole (s.proc i) :=
    fun c i hi => ⟨hP.running c i hi, h.live i (Or.inr (Or.inl (hP.running c i hi)))⟩
  by_cases ho : e.isTurn = true
  · -- the process of a CPU moves, and keeps its stack, directory and trap frame
    obtain ⟨c, i, q, hi, hq, hT, -⟩ := turn_step he ho
    have hpos := hT.pos
    have hsame : SameParts (s.proc i) q := ⟨hT.kstack, hT.pgdir, hT.tf, hT.pid,
      by grind -ring -linarith⟩
    have hr := (hrun c i hi).1
    refine h.keep hn (by grind -ring -linarith [Pos.isCreating]) (fun j hj => ?_) fun j hj => ?_
    all_goals
      rw [hq] at *
      by_cases hji : j = i
    · subst hji
      exact ⟨Or.inr (Or.inl hr), by rw [if_pos rfl]; exact hsame⟩
    · rw [if_neg hji] at hj ⊢
      exact ⟨hj, ⟨rfl, rfl, rfl, rfl, id⟩⟩
    · rw [hji, hr] at hj
      cases hj
    · rw [if_neg hji]
      exact ⟨rfl, rfl, rfl, rfl, id⟩
  cases e <;> first
    | exact absurd rfl ho
    | simp only [effect, act_eq_some, Option.some.injEq] at he
  case round c =>
    split at he
    · obtain rfl := Option.some.inj he
      have hag := aged_state k s
      have hpo := aged_pos k s
      have hpa := aged_parts k s
      rcases round_cases k c hp with ⟨-, hr⟩ | ⟨i, -, hir, -, hr⟩
      · rw [hr]
        exact h.keep hn (by grind -ring -linarith) (by grind -ring -linarith [Live])
          (by grind -ring -linarith)
      · rw [hr]
        exact h.keep hn (by grind -ring -linarith [Proc.run])
          (by grind -ring -linarith [Live, Proc.run, SameParts])
          (by grind -ring -linarith [Proc.run])
    · cases he
  case wakeup a =>
    subst he
    have := wakeup1_proc (some (.addr a)) s
    exact h.keep hn (by grind -ring -linarith) (by grind -ring -linarith [Live, SameParts])
      (by grind -ring -linarith [SameParts])
  case exitDone c =>
    obtain ⟨i, hi, -, rfl⟩ := he
    split
    · exact h.keep hn (by grind -ring -linarith) (by grind -ring -linarith [SameParts])
        (by grind -ring -linarith [SameParts])
    · have hself := exitDone_self c i s
      have hother := fun j (hj : j ≠ i) => exitDone_other (c := c) (s := s) hj
      have hre := fun j => reparent_parts (s.proc j) i s.initproc
      have hrp : ∀ j, ((s.proc j).reparent i s.initproc).pos = (s.proc j).pos := fun j => by
        unfold Proc.reparent
        split <;> rfl
      -- the process that exits becomes ZOMBIE, and the others change parent and wake up
      refine h.keep hn (fun j np a st hj => ?_) (fun j hj => ?_) fun j hj => ?_
      all_goals by_cases hji : j = i
      · rw [hji, hself] at hj
        cases hj
      · obtain ⟨st', -, hq⟩ := hother j hji
        rw [hq] at hj
        exact (hrp j).symm.trans hj
      · rw [hji, hself] at hj
        rcases hj with hj | hj | hj | hj <;> cases hj
      · obtain ⟨st', hst', hq⟩ := hother j hji
        rw [Proc.reparent_state] at hst'
        rw [hq] at hj ⊢
        exact ⟨by grind -ring -linarith [Live],
          ⟨(hre j).kstack, (hre j).pgdir, (hre j).tf, (hre j).pid, (hre j).pos⟩⟩
      · rw [hji, (hrun c i hi).1] at hj
        cases hj
      · obtain ⟨st', hst', hq⟩ := hother j hji
        rw [hq]
        exact ⟨(hre j).kstack, (hre j).pgdir, (hre j).tf, (hre j).pid, (hre j).pos⟩
  case wait c =>
    obtain ⟨i, hi, -, rfl⟩ := he
    rcases wait_cases c i s with ⟨j, -, hz, hw⟩ | hw | ⟨-, hw⟩
    · rw [hw]
      exact h.keep hn (by grind -ring -linarith [Proc.reap])
        (by grind -ring -linarith [Live, SameParts, Proc.reap])
        (by grind -ring -linarith [SameParts])
    · rw [hw]
      exact h
    · rw [hw]
      exact h.keep hn (by grind -ring -linarith [sleep])
        (by grind -ring -linarith [Live, SameParts, sleep])
        (by grind -ring -linarith [SameParts, sleep])
  case kill c pid =>
    obtain ⟨i, hi, -, rfl⟩ := he
    rcases kill_cases pid s with hk | ⟨j, -, hk⟩
    · rw [hk]
      exact h
    · rw [hk]
      exact h.keep hn (by grind -ring -linarith [Proc.kill])
        (by grind -ring -linarith [Live, SameParts, Proc.kill])
        (by grind -ring -linarith [SameParts, Proc.kill])
  case fork c a =>
    obtain ⟨i, hi, -, rfl⟩ := he
    rcases allocproc_cases i a s with hk | ⟨np, hu, hk⟩
    · rw [hk]
      exact h
    · rw [hk]
      exact h.alloc hn a hu (hP.running c i hi)
  case advance c =>
    obtain ⟨i, hi, hg, rfl⟩ := he
    obtain ⟨np, a, st, hpos, hk⟩ := advance_cases k hg
    rw [hk]
    exact h.advance hn (hP.running c i hi) hpos
  case fail c =>
    obtain ⟨i, hi, hg, rfl⟩ := he
    obtain ⟨np, a, st, hpos, -, hk⟩ := failFork_cases hg
    rw [hk]
    -- a creation that fails frees the slot
    have hem := hn.embryo i np a st hpos
    have hcr := hn.creator
    refine ⟨fun j hj => ?_, fun j m b st' hj => ?_⟩
    · have := h.live j
      simp only [Machine.set_proc] at *
      grind -ring -linarith [Live, Whole, Proc.noStack, Proc.noCopy]
    · have := h.creating j m b st'
      simp only [Machine.set_proc] at *
      grind -ring -linarith [Progress, Proc.noStack, Proc.noCopy]
  case sendsig n =>
    subst he
    refine h.keep hn (fun i np a st hi => by rw [← hi, sendsig_pos]) (fun j hj => ?_)
      fun j _ => sendsig_parts n s j
    have := sendsig_state n s j
    have := hA j
    exact ⟨by grind -ring -linarith [Alive, Live], sendsig_parts n s j⟩
  case scheduler_start c =>
    obtain ⟨i, hi, -, rfl⟩ := he
    exact h.keep hn (by grind -ring -linarith [Proc.start])
      (by grind -ring -linarith [Live, SameParts, Proc.start])
      (by grind -ring -linarith [SameParts, Proc.start])
  case resumeExit c =>
    obtain ⟨i, hi, -, rfl⟩ := he
    cases hp

/-- A dead process comes back to no list of the scheduler: a ZOMBIE stays until
`wait` frees its slot, and a free slot until `allocproc` takes it. -/
def StaysDead (s t : Machine) : Prop :=
  ∀ j, ((s.proc j).state = .ZOMBIE → (t.proc j).state = .ZOMBIE ∨ (t.proc j).state = .UNUSED) ∧
    ((s.proc j).state = .UNUSED → (t.proc j).state = .UNUSED ∨ (t.proc j).state = .EMBRYO)

theorem stays_dead (hP : Placed s) (hn : Nursery s) (hA : Spares Alive s e)
    (he : Step k s e t) (hp : t.panicked = none) : StaysDead s t := by
  replace he := effect_of_step he
  intro l
  by_cases ho : e.isTurn = true
  · obtain ⟨c, i, q, hi, hq, -⟩ := turn_step he ho
    have hr := hP.running c i hi
    grind -ring -linarith
  cases e <;> first
    | exact absurd rfl ho
    | simp only [effect, act_eq_some, Option.some.injEq] at he
  case round c =>
    split at he
    · obtain rfl := Option.some.inj he
      have hag := aged_state k s l
      rcases round_cases k c hp with ⟨-, hr⟩ | ⟨i, -, hir, -, hr⟩ <;> rw [hr]
      · grind -ring -linarith
      · have := aged_state k s i
        grind -ring -linarith
    · cases he
  case wakeup a =>
    subst he
    have := wakeup1_proc (some (.addr a)) s l
    grind -ring -linarith
  case exitDone c =>
    obtain ⟨i, hi, -, rfl⟩ := he
    have := hP.running c i hi
    split
    · grind -ring -linarith
    · by_cases hji : l = i
      · grind -ring -linarith
      · obtain ⟨st', hst', hq⟩ := exitDone_other (c := c) (s := s) hji
        rw [Proc.reparent_state] at hst'
        rw [hq]
        grind -ring -linarith
  case wait c =>
    obtain ⟨i, hi, -, rfl⟩ := he
    have := hP.running c i hi
    rcases wait_cases c i s with ⟨j, -, hz, hw⟩ | hw | ⟨-, hw⟩ <;> rw [hw] <;>
      grind -ring -linarith [Proc.reap, sleep]
  case kill c pid =>
    obtain ⟨i, hi, -, rfl⟩ := he
    rcases kill_cases pid s with hk | ⟨j, -, hk⟩ <;> rw [hk] <;> grind -ring -linarith [Proc.kill]
  case fork c a =>
    obtain ⟨i, hi, -, rfl⟩ := he
    have := hP.running c i hi
    rcases allocproc_cases i a s with hk | ⟨np, hu, hk⟩ <;> rw [hk]
    · grind -ring -linarith
    · simp only [Machine.set_proc, Proc.alloc]
      grind -ring -linarith
  case advance c =>
    obtain ⟨i, hi, hg, rfl⟩ := he
    have := hP.running c i hi
    obtain ⟨np, a, st, hpos, hk⟩ := advance_cases k hg
    -- the slot that is written is EMBRYO, neither dead nor free
    have hem := hn.embryo i np a st hpos
    have := Stage.write_state k i (s.proc i) a (s.proc np) st
    rw [hk]
    grind -ring -linarith
  case fail c =>
    obtain ⟨i, hi, hg, rfl⟩ := he
    have := hP.running c i hi
    obtain ⟨np, a, st, hpos, -, hk⟩ := failFork_cases hg
    have hem := hn.embryo i np a st hpos
    rw [hk]
    grind -ring -linarith [Proc.noStack, Proc.noCopy]
  case sendsig n =>
    subst he
    have := sendsig_state n s l
    have := hA l
    grind -ring -linarith [Alive]
  case scheduler_start c =>
    obtain ⟨i, hi, -, rfl⟩ := he
    grind -ring -linarith [Proc.start]
  case resumeExit c =>
    obtain ⟨i, hi, -, rfl⟩ := he
    cases hp

/-- The only panic is that of an exiting init. -/
theorem panic_initExiting (hP : Placed s) (hB : Built s) (he : Step k s e t) :
    t.panicked = none ∨ t.panicked = some .initExiting := by
  have hs := not_panicked_of_step he
  replace he := effect_of_step he
  by_cases ho : e.isTurn = true
  · obtain ⟨c, i, q, -, -, -, -, -, hpan⟩ := turn_step he ho
    exact Or.inl (hpan.trans hs)
  cases e <;> first
    | exact absurd rfl ho
    | simp only [effect, act_eq_some, Option.some.injEq] at he
  case round c =>
    split at he
    · obtain rfl := Option.some.inj he
      unfold round
      cases hh : highest (s.aged k) with
      | none => exact Or.inl hs
      | some i =>
        -- the chosen process is RUNNABLE, hence whole
        obtain ⟨hr, -⟩ := Proc.eligible_iff.1 (highest_eligible hh)
        have hst := aged_state k s i
        have hpa := aged_parts k s i
        have hw := hB.live i (by grind -ring -linarith [Live])
        rcases dispatch_cases c i (s.aged k) with ⟨m, hm, -⟩ | ⟨-, -, hd⟩
        · have hks := hpa.kstack.trans hw.kstack
          have hpg := hpa.pgdir.trans hw.pgdir
          rcases hm with ⟨-, hm⟩ | ⟨-, hm⟩
          · rw [hm] at hks
            cases hks
          · rw [hm] at hpg
            cases hpg
        · exact Or.inl (by simp only [hd]; exact hs)
    · cases he
  case resumeExit c =>
    obtain ⟨i, hi, hg, -⟩ := he
    have := (hB.live i (Or.inr (Or.inl (hP.running c i hi)))).pos
    simp at hg
    exact absurd hg this
  case exitDone c =>
    obtain ⟨i, hi, -, rfl⟩ := he
    split
    · exact Or.inr rfl
    · exact Or.inl ((exitDone_rest c i s).2.2.trans hs)
  case wakeup a =>
    subst he
    exact Or.inl ((wakeup1_rest _ s).2.2.2.trans hs)
  case wait c =>
    obtain ⟨i, hi, -, rfl⟩ := he
    rcases wait_cases c i s with ⟨j, -, -, hw⟩ | hw | ⟨-, hw⟩ <;> rw [hw] <;> exact Or.inl hs
  case kill c pid =>
    obtain ⟨i, hi, -, rfl⟩ := he
    rcases kill_cases pid s with hk | ⟨j, -, hk⟩ <;> rw [hk] <;> exact Or.inl hs
  case fork c a =>
    obtain ⟨i, hi, -, rfl⟩ := he
    rcases allocproc_cases i a s with hk | ⟨np, -, hk⟩ <;> rw [hk] <;> exact Or.inl hs
  case advance c =>
    obtain ⟨i, hi, hg, rfl⟩ := he
    obtain ⟨np, a, st, -, hk⟩ := advance_cases k hg
    rw [hk]
    exact Or.inl hs
  case fail c =>
    obtain ⟨i, hi, hg, rfl⟩ := he
    obtain ⟨np, a, st, -, -, hk⟩ := failFork_cases hg
    rw [hk]
    exact Or.inl hs
  case sendsig n =>
    subst he
    exact Or.inl ((sendsig_cpu n s).2.2.2.trans hs)
  case scheduler_start c =>
    obtain ⟨i, hi, -, rfl⟩ := he
    exact Or.inl hs

theorem built_boot (k : Config) : Built (boot k) := by
  constructor
  · intro i hi
    simp only [boot] at hi ⊢
    split
    · exact ⟨rfl, rfl, rfl, by simp [initcode]⟩
    · rename_i h0
      rw [if_neg h0] at hi
      rcases hi with hi | hi | hi | hi <;> cases hi
  · intro i np a st hi
    rcases boot_pos k i with hp | hp <;> rw [hp] at hi <;> cases hi

/-- **Only complete, live processes are dispatched.** In a run whose signals resume
only SLEEPING, RUNNABLE and CREATED processes, a round switches to a RUNNABLE
process with its page directory, trap frame and context, no ZOMBIE or UNUSED slot
becomes RUNNABLE, and the kernel panics neither in `switchuvm` nor after the
`sched` of `exit`. -/
theorem dispatched_whole {es : List Event}
    (hrun : Run (Guarded (Step k) (Spares Alive)) (boot k) es s) :
    (s.panicked = none ∨ s.panicked = some .initExiting) ∧
      (∀ c t i, Step k s (.round c) t → t.panicked = none → t.cpu c = some i →
        (s.proc i).state = .RUNNABLE ∧ Whole (s.proc i)) ∧
      (∀ e t, Spares Alive s e → Step k s e t → t.panicked = none → StaysDead s t) := by
  have hS : Sound s ∧ (s.panicked = none → Built s) ∧
      (s.panicked = none ∨ s.panicked = some .initExiting) := by
    refine hrun.invariant (P := fun s => Sound s ∧ (s.panicked = none → Built s) ∧
      (s.panicked = none ∨ s.panicked = some .initExiting)) (fun s e t hst h => ?_)
      ⟨sound_boot k, fun _ => built_boot k, Or.inl rfl⟩
    have hp := not_panicked_of_step hst.2
    have hP := h.1.placed hp
    have hB := h.2.1 hp
    exact ⟨h.1.step (hst.1.mono fun st h => h.parked) hst.2,
      hB.step hP (h.1.nursery hp) hst.1 hst.2, panic_initExiting hP hB hst.2⟩
  refine ⟨hS.2.2, fun c t i he ht hc => ?_, fun e t hA he ht => ?_⟩
  · have hp := not_panicked_of_step he
    replace he := effect_of_step he
    simp only [effect] at he
    split at he
    · rename_i hidle
      obtain rfl := Option.some.inj he
      rcases round_cases k c ht with ⟨-, hr⟩ | ⟨j, -, hst, -, hr⟩
      · rw [hr] at hc
        exact absurd (hidle.symm.trans hc) (by simp)
      · rw [hr] at hc
        simp only [Machine.setCpu_cpu, if_true, Option.some.injEq] at hc
        subst hc
        have := aged_state k s j
        have hr : (s.proc j).state = .RUNNABLE := by grind -ring -linarith
        exact ⟨hr, (hS.2.1 hp).live j (Or.inl hr)⟩
    · cases he
  · have hp := not_panicked_of_step he
    exact stays_dead (hS.1.placed hp) (hS.1.nursery hp) hA he ht

/-- Signals that find the shell asleep and its child CREATED. -/
theorem dispatched_whole_parked : ∃ es s,
    Run (Guarded (Step xv6) (Spares Alive)) (boot xv6) es s ∧
      (s.panicked = none ∨ s.panicked = some .initExiting) := by
  have hx : ((stepsIf xv6 (Spares Alive) (startParked ++ [Event.sleep 0 7, .sendsig 2, .sendsig 3,
      .round 0]) (boot xv6)).map Machine.panicked) = some none := by decide +kernel
  obtain ⟨s, hs, -⟩ := Option.map_eq_some_iff.1 hx
  exact ⟨_, s, run_of_stepsIf hs, (dispatched_whole (run_of_stepsIf hs)).1⟩

/-- SIGBG between the exit of the shell and its reaping: the scheduler runs the
zombie again. -/
theorem zombie_dispatched : ∃ es s, Run (Step xv6) (boot xv6) es s ∧
    s.panicked = some .zombieExit := by
  have hx : ((steps xv6 (startShell ++ [Event.round 0, .forkret 0, .enter 0, .exit 0, .dropCwd 0,
      .exitDone 0, .sendsig 2, .round 0, .retest 0, .trapret 0, .timer 0, .round 0,
      .resumeExit 0]) (boot xv6)).map Machine.panicked) = some (some .zombieExit) := by
    decide +kernel
  obtain ⟨s, hs, hp⟩ := Option.map_eq_some_iff.1 hx
  exact ⟨_, s, run_of_steps hs, hp⟩

end Xv6.Signal
