/-
The suspended start.

`custom_fork` with `start_later` leaves its child in the state CREATED, and only
`scheduler_start` is meant to take it out. SIGFG takes it out as well: SIGBG marks
a CREATED process suspended like any other, and SIGFG sets every suspended process
RUNNABLE. The same two signals reach the child while it is an EMBRYO.
-/
import Xv6.Signal.Cpu

set_option autoImplicit false

namespace Xv6.Signal

open Xv6.Lib

variable {k : Config} {s t : Machine} {c : Nat} {i j : Slot} {e : Event}

/-- A process that waits for `scheduler_start` is EMBRYO or CREATED, and the `fork`
that is creating it was asked to leave it so. -/
structure Unstarted (s : Machine) : Prop where
  state : ∀ i, (s.proc i).parked = true →
    (s.proc i).state = .EMBRYO ∨ (s.proc i).state = .CREATED
  later : ∀ i np a st, (s.proc i).pos = .creating np a st → (s.proc np).parked = true →
    ForkArgs.later a = true

/-- Changes that park nobody, create nothing and keep the EMBRYO and CREATED ones. -/
theorem Unstarted.keep (h : Unstarted s)
    (hpos : ∀ i np a st, (t.proc i).pos = .creating np a st → (s.proc i).pos = .creating np a st)
    (hpk : ∀ j, (t.proc j).parked = true → (s.proc j).parked = true)
    (hst : ∀ j, (s.proc j).parked = true → (t.proc j).parked = true →
      (t.proc j).state = (s.proc j).state) : Unstarted t := by
  constructor
  · intro i hi
    rw [hst i (hpk i hi) hi]
    exact h.state i (hpk i hi)
  · intro i np a st hi hp
    exact h.later i np a st (hpos i np a st hi) (hpk np hp)

theorem Unstarted.alloc (h : Unstarted s) (hn : Nursery s) {np : Slot} (a : Option ForkArgs)
    (hu : (s.proc np).state = .UNUSED) (hi : (s.proc i).state = .RUNNING) :
    Unstarted { (s.set np (Proc.alloc s.nextpid a)).set i fun p =>
      { p with pos := .creating np a .stack } with nextpid := s.nextpid + 1 } := by
  have hnew : ∀ j b st, (s.proc j).pos ≠ .creating np b st := fun j b st hj => by
    have := hn.embryo j np b st hj
    rw [hu] at this
    cases this
  obtain ⟨h1, h2⟩ := h
  constructor
  · intro j hj
    simp only [Machine.set_proc, Proc.alloc] at *
    grind -ring -linarith
  · intro j m b st hj hm
    simp only [Machine.set_proc, Proc.alloc] at *
    grind -ring -linarith

@[simp] theorem Stage.write_parked (k : Config) (i : Slot) (cur : Proc) (a : Option ForkArgs)
    (p : Proc) (st : Stage) : (st.write k i cur a p).parked = p.parked := by
  cases st <;> cases a <;> rfl

theorem Unstarted.advance (h : Unstarted s) {np : Slot} {a : Option ForkArgs} {st : Stage}
    (hpos : (s.proc i).pos = .creating np a st) :
    Unstarted ((s.set np fun p => st.write k i (s.proc i) a p).set i
      fun p => { p with pos := st.next np a }) := by
  have hlater := h.later i np a st hpos
  obtain ⟨h1, h2⟩ := h
  have hnext : ∀ m b st', st.next np a = .creating m b st' → m = np ∧ b = a := by
    intro m b st' hm
    cases st <;> simp [Stage.next] at hm <;> grind -ring -linarith
  have hw := Stage.write_state k i (s.proc i) a
  have hp := Stage.write_pos k i (s.proc i) a
  have hk := Stage.write_parked k i (s.proc i) a
  constructor
  · intro j hj
    simp only [Machine.set_proc] at *
    grind -ring -linarith
  · intro j m b st' hj hm
    simp only [Machine.set_proc] at *
    grind -ring -linarith

/-- The states of which SIGBG and SIGFG may make RUNNABLE. -/
def Started (st : ProcState) : Prop := st ≠ .RUNNING ∧ st ≠ .EMBRYO ∧ st ≠ .CREATED
  deriving Decidable

theorem sendsig_parked (n : Nat) (s : Machine) (j : Slot) :
    ((sendsig n s).proc j).parked = (s.proc j).parked := by
  unfold sendsig
  grind -ring -linarith [Proc.kill, Proc.background, Proc.foreground, Proc.custom]

theorem Unstarted.step (h : Unstarted s) (hP : Placed s) (hn : Nursery s)
    (hA : Spares Started s e) (he : Step k s e t) (hp : t.panicked = none) : Unstarted t := by
  replace he := effect_of_step he
  -- a process that runs is not parked
  have hrun : ∀ c i, s.cpu c = some i → (s.proc i).parked = false ∧
      (s.proc i).state = .RUNNING := fun c i hi => by
    have := hP.running c i hi
    have := h.state i
    grind -ring -linarith
  have hst := h.state
  by_cases ho : e.isTurn = true
  · obtain ⟨c, i, q, hi, hq, hT, -⟩ := turn_step he ho
    have hpos := hT.pos
    have hpk := hT.parked
    have := hrun c i hi
    exact h.keep (by grind -ring -linarith [Pos.isCreating]) (by grind -ring -linarith)
      (by grind -ring -linarith)
  cases e <;> first
    | exact absurd rfl ho
    | simp only [effect, act_eq_some, Option.some.injEq] at he
  case round c =>
    split at he
    · obtain rfl := Option.some.inj he
      have hag := aged_state k s
      have hpo := aged_pos k s
      have hpk : ∀ j, ((s.aged k).proc j).parked = (s.proc j).parked := fun j => by
        simp only [Machine.aged, Machine.each_proc, Proc.expire, Proc.boost]
        grind -ring -linarith
      rcases round_cases k c hp with ⟨-, hr⟩ | ⟨i, -, hir, -, hr⟩
      · rw [hr]
        exact h.keep (by grind -ring -linarith) (by grind -ring -linarith)
          (by grind -ring -linarith)
      · rw [hr]
        exact h.keep (by grind -ring -linarith [Proc.run]) (by grind -ring -linarith [Proc.run])
          (by grind -ring -linarith [Proc.run])
    · cases he
  case wakeup a =>
    subst he
    have := wakeup1_proc (some (.addr a)) s
    exact h.keep (by grind -ring -linarith) (by grind -ring -linarith) (by grind -ring -linarith)
  case exitDone c =>
    obtain ⟨i, hi, -, rfl⟩ := he
    split
    · exact h.keep (by grind -ring -linarith) (by grind -ring -linarith) (by grind -ring -linarith)
    · have hself := exitDone_self c i s
      have hother := fun j (hj : j ≠ i) => exitDone_other (c := c) (s := s) hj
      have hre : ∀ j, ((s.proc j).reparent i s.initproc).parked = (s.proc j).parked ∧
          ((s.proc j).reparent i s.initproc).pos = (s.proc j).pos := fun j => by
        unfold Proc.reparent
        split <;> exact ⟨rfl, rfl⟩
      have hj : ∀ j, ((exitDone c i s).proc j).parked = (s.proc j).parked ∧
          (((exitDone c i s).proc j).pos = (s.proc j).pos ∨
            ((exitDone c i s).proc j).pos = .exited) ∧
          (j ≠ i → (s.proc j).state ≠ .SLEEPING →
            ((exitDone c i s).proc j).state = (s.proc j).state) := by
        intro j
        by_cases hji : j = i
        · rw [hji, hself]
          exact ⟨(hre i).1, Or.inr rfl, fun hn => absurd rfl hn⟩
        · obtain ⟨st', hst', hq⟩ := hother j hji
          rw [hq]
          rw [Proc.reparent_state] at hst'
          exact ⟨(hre j).1, Or.inl (hre j).2, fun _ hs => by grind -ring -linarith⟩
      exact h.keep (by grind -ring -linarith) (by grind -ring -linarith) (by grind -ring -linarith)
  case wait c =>
    obtain ⟨i, hi, -, rfl⟩ := he
    rcases wait_cases c i s with ⟨j, -, hz, hw⟩ | hw | ⟨-, hw⟩
    · rw [hw]
      exact h.keep (by grind -ring -linarith [Proc.reap]) (by grind -ring -linarith [Proc.reap])
        (by grind -ring -linarith [Proc.reap])
    · rw [hw]
      exact h
    · rw [hw]
      exact h.keep (by grind -ring -linarith [sleep]) (by grind -ring -linarith [sleep])
        (by grind -ring -linarith [sleep])
  case kill c pid =>
    obtain ⟨i, hi, -, rfl⟩ := he
    rcases kill_cases pid s with hk | ⟨j, -, hk⟩
    · rw [hk]
      exact h
    · rw [hk]
      exact h.keep (by grind -ring -linarith [Proc.kill]) (by grind -ring -linarith [Proc.kill])
        (by grind -ring -linarith [Proc.kill])
  case fork c a =>
    obtain ⟨i, hi, -, rfl⟩ := he
    rcases allocproc_cases i a s with hk | ⟨np, hu, hk⟩
    · rw [hk]
      exact h
    · rw [hk]
      exact h.alloc hn a hu (hP.running c i hi)
  case advance c =>
    obtain ⟨i, hi, hg, rfl⟩ := he
    obtain ⟨np, a, st, hpos, hk⟩ := advance_cases k hg
    rw [hk]
    exact h.advance hpos
  case fail c =>
    obtain ⟨i, hi, hg, rfl⟩ := he
    obtain ⟨np, a, st, hpos, -, hk⟩ := failFork_cases hg
    rw [hk]
    -- the slot is given up, and with it the promise
    exact h.keep (by grind -ring -linarith [Proc.noStack, Proc.noCopy])
      (by grind -ring -linarith [Proc.noStack, Proc.noCopy])
      (by grind -ring -linarith [Proc.noStack, Proc.noCopy])
  case sendsig n =>
    subst he
    refine h.keep (fun i np a st hi => by rw [← hi, sendsig_pos])
      (fun j hj => by rw [← hj, sendsig_parked]) fun j hj _ => ?_
    have := sendsig_state n s j
    have := hA j
    grind -ring -linarith [Started]
  case scheduler_start c =>
    obtain ⟨i, hi, -, rfl⟩ := he
    exact h.keep (by grind -ring -linarith [Proc.start]) (by grind -ring -linarith [Proc.start])
      (by grind -ring -linarith [Proc.start])
  case resumeExit c =>
    obtain ⟨i, hi, -, rfl⟩ := he
    cases hp

/-- **The suspended start.** In a run whose signals resume no RUNNING, EMBRYO or
CREATED process, a process that `custom_fork` created with `start_later` is neither
RUNNABLE nor RUNNING before some process calls `scheduler_start` after its creation. -/
theorem parked_not_runnable {es : List Event}
    (hrun : Run (Guarded (Step k) (Spares Started)) (boot k) es s) (hs : s.panicked = none)
    (hi : (s.proc i).parked = true) :
    (s.proc i).state ≠ .RUNNABLE ∧ (s.proc i).state ≠ .RUNNING := by
  suffices h : Sound s ∧ (s.panicked = none → Unstarted s) by
    have := (h.2 hs).state i hi
    grind -ring -linarith
  refine hrun.invariant (P := fun s => Sound s ∧ (s.panicked = none → Unstarted s))
    (fun s e t hst h => ?_) ⟨sound_boot k, fun _ => ⟨fun j hj => ?_, fun j np a st hj => ?_⟩⟩
  · have hp := not_panicked_of_step hst.2
    exact ⟨h.1.step (hst.1.mono fun st h => ⟨h.1, h.2.1⟩) hst.2,
      (h.2 hp).step (h.1.placed hp) (h.1.nursery hp) hst.1 hst.2⟩
  · simp only [boot, initcode] at hj
    split at hj <;> cases hj
  · rcases boot_pos k j with hp | hp <;> rw [hp] at hj <;> cases hj

/-- init starts the shell, which starts a process with `start_later`. -/
def startParked : List Event :=
  startShell ++ [Event.round 0, .forkret 0, .enter 0, .fork 0 (some ⟨1, 50⟩)] ++
    List.replicate 8 (Event.advance 0)

/-- The child stays parked through SIGINT, SIGFG and SIGCUSTOM. -/
theorem parked_not_runnable_signals : ∃ es s,
    Run (Guarded (Step xv6) (Spares Started)) (boot xv6) es s ∧ (s.proc 2).parked = true ∧
      (s.proc 2).state ≠ .RUNNABLE ∧ (s.proc 2).state ≠ .RUNNING := by
  have hx : ((stepsIf xv6 (Spares Started) (startParked ++
      [Event.sendsig 3, .sendsig 1, .sendsig 4]) (boot xv6)).map fun s =>
        (s.panicked, (s.proc 2).parked)) = some (none, true) := by
    decide +kernel
  obtain ⟨s, hs, hv⟩ := Option.map_eq_some_iff.1 hx
  simp only [Prod.mk.injEq] at hv
  exact ⟨_, s, run_of_stepsIf hs, hv.2, parked_not_runnable (run_of_stepsIf hs) hv.1 hv.2⟩

/-- SIGBG and then SIGFG, and nobody has called `scheduler_start`. -/
theorem parked_resumed : ∃ es s, Run (Step xv6) (boot xv6) es s ∧ s.panicked = none ∧
    (s.proc 2).parked = true ∧ (s.proc 2).state = .RUNNABLE ∧ ∀ c, .scheduler_start c ∉ es := by
  have hx : ((steps xv6 (startParked ++ [Event.sleep 0 7, .sendsig 2, .sendsig 3]) (boot xv6)).map
      fun s => (s.panicked, (s.proc 2).parked, (s.proc 2).state)) = some (none, true, .RUNNABLE) := by
    decide +kernel
  obtain ⟨s, hs, hv⟩ := Option.map_eq_some_iff.1 hx
  simp only [Prod.mk.injEq] at hv
  refine ⟨_, s, run_of_steps hs, hv.1, hv.2.1, hv.2.2, fun c hc => ?_⟩
  simp [startParked, startShell] at hc

end Xv6.Signal
