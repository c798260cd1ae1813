/-
Ctrl-C.

SIGINT marks every process after the shell and wakes the sleeping ones; the process
is gone once it passes one of the tests of `killed` in `trap`. What keeps it from
there is a state that SIGINT does not touch (CREATED, or suspended), and a position
past the last test: `trap` ends with a `yield` for suspended processes, after which
nothing is tested.

No invariant of the scheduler is needed: that a killed process cannot get past a
test again holds of every step, whatever the signals do to its state.
-/
import Xv6.Signal.Slots

set_option autoImplicit false

namespace Xv6.Signal

open Xv6.Lib

variable {k : Config} {s t u : Machine} {c : Nat} {i j : Slot} {e : Event}

/-- The processes that SIGINT is meant to end. -/
def Interrupted (p : Proc) : Prop :=
  2 < p.pid ∧ p.state ≠ .UNUSED ∧ p.state ≠ .EMBRYO ∧ p.state ≠ .ZOMBIE
  deriving Decidable

/-- Each of them is past no last test, is not CREATED, and is suspended only if it
is RUNNING. -/
def Catchable (s : Machine) : Prop :=
  ∀ i, Interrupted (s.proc i) → (s.proc i).pos ≠ .leaving ∧ (s.proc i).state ≠ .CREATED ∧
    ((s.proc i).suspended = true → (s.proc i).state = .RUNNING)
  deriving Decidable

/-- On its way to `exit`: it runs, or the scheduler will run it. -/
def UnderWay (p : Proc) : Prop := p.state = .RUNNING ∨ p.eligible = true
  deriving Decidable

/-- Killed, and with a test of `killed` still before it. -/
def Caught (p : Proc) : Prop := p.killed = true ∧ p.pos ≠ .leaving

theorem sigint_proc (s : Machine) (i : Slot) :
    (sendsig 1 s).proc i = if 2 < (s.proc i).pid then (s.proc i).kill else s.proc i := rfl

/-- SIGINT sends every process on its way exactly when none is parked or suspended. -/
theorem sigint_underWay (i : Slot) (hi : Interrupted (s.proc i)) :
    UnderWay ((sendsig 1 s).proc i) ↔ (s.proc i).state ≠ .CREATED ∧
      ((s.proc i).suspended = true → (s.proc i).state = .RUNNING) := by
  obtain ⟨hpid, hu, hem, hz⟩ := hi
  rw [sigint_proc, if_pos hpid]
  unfold UnderWay Proc.eligible Proc.kill
  cases hst : (s.proc i).state <;> cases hsu : (s.proc i).suspended <;> simp_all

/-- **One step of a caught process.** It stays caught, unless its slot gets a new
pid. -/
theorem Caught.step (h : Caught (s.proc j)) (he : Step k s e t) :
    Caught (t.proc j) ∧ (t.proc j).pid = (s.proc j).pid ∨ (t.proc j).pid = 0 ∨
      (t.proc j).pid = s.nextpid := by
  replace he := effect_of_step he
  obtain ⟨hk, hl⟩ := h
  by_cases ho : e.isTurn = true
  · -- the last test sends a killed process to `exit`, and nothing clears `killed`
    obtain ⟨c, i, q, hi, hq, hT, -⟩ := turn_step he ho
    have hkl := hT.killed
    have hpid := hT.pid
    left
    grind -ring -linarith [Caught]
  cases e <;> first
    | exact absurd rfl ho
    | simp only [effect, act_eq_some, Option.some.injEq] at he
  case round c =>
    split at he
    · obtain rfl := Option.some.inj he
      have hag : Caught ((s.aged k).proc j) ∧ ((s.aged k).proc j).pid = (s.proc j).pid := by
        unfold Caught
        simp only [Machine.aged, Machine.each_proc, Proc.expire, Proc.boost]
        grind -ring -linarith
      unfold round
      cases highest (s.aged k) with
      | none => exact Or.inl hag
      | some i =>
        left
        simp only [dispatch]
        split
        · split <;> grind -ring -linarith [Caught]
        · grind -ring -linarith [Caught]
    · cases he
  case wakeup a =>
    subst he
    have := wakeup1_proc (some (.addr a)) s j
    grind -ring -linarith [Caught]
  case exitDone c =>
    obtain ⟨i, hi, -, rfl⟩ := he
    left
    split
    · grind -ring -linarith [Caught]
    · have hre : ((s.proc j).reparent i s.initproc).killed = (s.proc j).killed ∧
          ((s.proc j).reparent i s.initproc).pos = (s.proc j).pos ∧
          ((s.proc j).reparent i s.initproc).pid = (s.proc j).pid := by
        unfold Proc.reparent
        split <;> exact ⟨rfl, rfl, rfl⟩
      by_cases hji : j = i
      · subst hji
        rw [exitDone_self]
        exact ⟨⟨hre.1.trans hk, by simp⟩, hre.2.2⟩
      · obtain ⟨st, -, hq⟩ := exitDone_other (c := c) (s := s) hji
        rw [hq]
        exact ⟨⟨hre.1.trans hk, by rw [hre.2.1]; exact hl⟩, hre.2.2⟩
  case wait c =>
    obtain ⟨i, hi, -, rfl⟩ := he
    rcases wait_cases c i s with ⟨l, -, hz, hw⟩ | hw | ⟨-, hw⟩ <;> rw [hw] <;>
      grind -ring -linarith [Caught, Proc.reap, sleep]
  case kill c pid =>
    obtain ⟨i, hi, -, rfl⟩ := he
    rcases kill_cases pid s with hk | ⟨l, -, hk⟩ <;> rw [hk] <;>
      grind -ring -linarith [Caught, Proc.kill]
  case fork c a =>
    obtain ⟨i, hi, -, rfl⟩ := he
    rcases allocproc_cases i a s with hk | ⟨np, hu, hk⟩ <;> rw [hk]
    · exact Or.inl ⟨⟨‹_›, hl⟩, rfl⟩
    · simp only [Machine.set_proc, Proc.alloc]
      grind -ring -linarith [Caught]
  case advance c =>
    obtain ⟨i, hi, hg, rfl⟩ := he
    obtain ⟨np, a, st, hpos, hadv⟩ := advance_cases k hg
    have hw := Stage.write_flags k i (s.proc i) a (s.proc np) st
    have hwp := Stage.write_pos k i (s.proc i) a (s.proc np) st
    -- the last stage goes back to the system call, not to the return from it
    have hnx : st.next np a ≠ .leaving := by cases st <;> simp [Stage.next]
    rw [hadv]
    left
    grind -ring -linarith [Caught]
  case fail c =>
    obtain ⟨i, hi, hg, rfl⟩ := he
    obtain ⟨np, a, st, hpos, -, hf⟩ := failFork_cases hg
    rw [hf]
    left
    grind -ring -linarith [Caught, Proc.noStack, Proc.noCopy]
  case sendsig n =>
    subst he
    have hpo := sendsig_pos n s j
    left
    unfold Caught
    rw [hpo]
    unfold sendsig
    grind -ring -linarith [Proc.kill, Proc.background, Proc.foreground, Proc.custom]
  case scheduler_start c =>
    obtain ⟨i, hi, -, rfl⟩ := he
    left
    grind -ring -linarith [Caught, Proc.start]
  case resumeExit c =>
    obtain ⟨i, hi, -, rfl⟩ := he
    exact Or.inl ⟨⟨hk, hl⟩, rfl⟩

/-- A step gives a slot no pid but 0 and the next one. -/
theorem pid_step (he : Step k s e t) (j : Slot) :
    s.nextpid ≤ t.nextpid ∧ ((t.proc j).pid = (s.proc j).pid ∨ (t.proc j).pid = 0 ∨
      (t.proc j).pid = s.nextpid ∧ s.nextpid < t.nextpid) := by
  replace he := effect_of_step he
  by_cases ho : e.isTurn = true
  · obtain ⟨c, i, q, hi, hq, hT, hnx, -⟩ := turn_step he ho
    have hpid := hT.pid
    grind -ring -linarith
  cases e <;> first
    | exact absurd rfl ho
    | simp only [effect, act_eq_some, Option.some.injEq] at he
  case round c =>
    split at he
    · obtain rfl := Option.some.inj he
      have hag : ((s.aged k).proc j).pid = (s.proc j).pid := by
        simp only [Machine.aged, Machine.each_proc, Proc.expire, Proc.boost]
        grind -ring -linarith
      have hnx : (s.aged k).nextpid = s.nextpid := rfl
      unfold round
      cases highest (s.aged k) with
      | none => exact ⟨hnx.ge, Or.inl hag⟩
      | some i =>
        simp only [dispatch]
        split
        · split <;> grind -ring -linarith
        · grind -ring -linarith
    · cases he
  case wakeup a =>
    subst he
    have := wakeup1_proc (some (.addr a)) s j
    have := wakeup1_rest (some (.addr a)) s
    grind -ring -linarith
  case exitDone c =>
    obtain ⟨i, hi, -, rfl⟩ := he
    have hre : ((s.proc j).reparent i s.initproc).pid = (s.proc j).pid := by
      unfold Proc.reparent
      split <;> rfl
    split
    · grind -ring -linarith
    · refine ⟨(exitDone_rest c i s).1.ge, Or.inl ?_⟩
      by_cases hji : j = i
      · subst hji
        rw [exitDone_self]
        exact hre
      · obtain ⟨st, -, hq⟩ := exitDone_other (c := c) (s := s) hji
        rw [hq]
        exact hre
  case wait c =>
    obtain ⟨i, hi, -, rfl⟩ := he
    rcases wait_cases c i s with ⟨l, -, hz, hw⟩ | hw | ⟨-, hw⟩ <;> rw [hw] <;>
      grind -ring -linarith [Proc.reap, sleep]
  case kill c pid =>
    obtain ⟨i, hi, -, rfl⟩ := he
    rcases kill_cases pid s with hk | ⟨l, -, hk⟩ <;> rw [hk] <;> grind -ring -linarith [Proc.kill]
  case fork c a =>
    obtain ⟨i, hi, -, rfl⟩ := he
    rcases allocproc_cases i a s with hk | ⟨np, hu, hk⟩ <;> rw [hk]
    · grind -ring -linarith
    · simp only [Machine.set_proc, Proc.alloc]
      grind -ring -linarith
  case advance c =>
    obtain ⟨i, hi, hg, rfl⟩ := he
    obtain ⟨np, a, st, hpos, hadv⟩ := advance_cases k hg
    have hw := Stage.write_flags k i (s.proc i) a (s.proc np) st
    rw [hadv]
    grind -ring -linarith
  case fail c =>
    obtain ⟨i, hi, hg, rfl⟩ := he
    obtain ⟨np, a, st, hpos, -, hf⟩ := failFork_cases hg
    rw [hf]
    grind -ring -linarith [Proc.noStack, Proc.noCopy]
  case sendsig n =>
    subst he
    have := sendsig_parts n s j
    have := sendsig_cpu n s
    exact ⟨by grind -ring -linarith, Or.inl (sendsig_parts n s j).pid⟩
  case scheduler_start c =>
    obtain ⟨i, hi, -, rfl⟩ := he
    grind -ring -linarith [Proc.start]
  case resumeExit c =>
    obtain ⟨i, hi, -, rfl⟩ := he
    exact ⟨le_rfl, Or.inl rfl⟩

/-- In every run the pids are below the next one. -/
theorem pid_lt_nextpid {es : List Event} (hrun : Run (Step k) (boot k) es s) (i : Slot) :
    (s.proc i).pid < s.nextpid := by
  have h : (∀ i, (s.proc i).pid < s.nextpid) ∧ 0 < s.nextpid := by
    refine hrun.invariant (P := fun s => (∀ i, (s.proc i).pid < s.nextpid) ∧ 0 < s.nextpid)
      (fun s e t hst h => ?_) ⟨fun i => ?_, Nat.zero_lt_two⟩
    · have hn := (pid_step hst 0).1
      refine ⟨fun j => ?_, by omega⟩
      have := pid_step hst j
      have := h.1 j
      omega
    · simp only [boot, initcode]
      split <;> simp
  exact h.1 i

/-- **Ctrl-C ends what it should.** When SIGINT comes in a state in which no process
after the shell is CREATED, suspended without running, or past its last test of
`killed`, each of them runs or will be run by the scheduler, and in no continuation
does `trap` return to user mode in one of them. -/
theorem sigint_ends {es fs : List Event} (hrun : Run (Step k) (boot k) es s)
    (hC : Catchable s) (ht : Step k s (.sendsig 1) t) (hfs : Run (Step k) t fs u)
    (hi : Interrupted (s.proc i)) :
    UnderWay (t.proc i) ∧ ∀ c, (u.proc i).pid = (s.proc i).pid → u.cpu c = some i →
      step k (.trapret c) u = none := by
  obtain rfl : sendsig 1 s = t := Option.some.inj (effect_of_step ht)
  obtain ⟨hl, hcr, hsu⟩ := hC i hi
  have hpid := pid_lt_nextpid hrun i
  set P := (s.proc i).pid with hP
  have h2 : 2 < P := hi.1
  -- in the continuation the slot has another pid, or the process is still caught
  have hinv : P < u.nextpid ∧ ((u.proc i).pid = P → Caught (u.proc i)) := by
    refine hfs.invariant (P := fun u => P < u.nextpid ∧ ((u.proc i).pid = P → Caught (u.proc i)))
      (fun v e w hst h => ?_) ⟨hpid, fun _ => ?_⟩
    · have hp := pid_step hst i
      refine ⟨by omega, fun hw => ?_⟩
      have hv : (v.proc i).pid = P := by omega
      rcases (h.2 hv).step hst with ⟨hc, -⟩ | h0 | h0
      · exact hc
      · omega
      · omega
    · rw [sigint_proc, if_pos h2]
      exact ⟨rfl, hl⟩
  refine ⟨(sigint_underWay i hi).2 ⟨hcr, hsu⟩, fun c hup hc => ?_⟩
  have hne := (hinv.2 hup).2
  cases hst : step k (.trapret c) u with
  | none => rfl
  | some v =>
    have he := effect_of_step (show Step k u (.trapret c) v from hst)
    simp only [effect, act_eq_some] at he
    obtain ⟨j, hj, hg, -⟩ := he
    obtain rfl : j = i := Option.some.inj (hj.symm.trans hc)
    exact absurd (by simpa using hg) hne

/-- The shell and its child sleep in system calls when SIGINT comes. SIGBG and SIGFG follow,
the shell sleeps again and the child is dispatched. -/
theorem sigint_ends_sleeping : ∃ s t u, Step xv6 s (.sendsig 1) t ∧ UnderWay (t.proc 2) ∧
    Run (Step xv6) t [.sendsig 2, .sendsig 3, .round 0, .sleep 0 7, .round 0] u ∧
    u.cpu 0 = some 2 ∧ step xv6 (.trapret 0) u = none := by
  have hx : ((steps xv6 (startShell ++ [Event.round 0, .forkret 0, .enter 0, .fork 0 none] ++
      List.replicate 8 (Event.advance 0) ++
        [Event.wait 0, .round 0, .retest 0, .trapret 0, .enter 0, .sleep 0 7, .round 0,
          .forkret 0, .enter 0, .sleep 0 8]) (boot xv6)).bind fun s =>
        (step xv6 (.sendsig 1) s).bind fun t =>
          (steps xv6 [.sendsig 2, .sendsig 3, .round 0, .sleep 0 7, .round 0] t).map fun u =>
            (decide (Catchable s ∧ Interrupted (s.proc 2)), (u.proc 2).pid == (s.proc 2).pid,
              u.cpu 0)) = some (true, true, some 2) := by decide +kernel
  obtain ⟨s, hs, hx⟩ := Option.bind_eq_some_iff.1 hx
  obtain ⟨t, ht, hx⟩ := Option.bind_eq_some_iff.1 hx
  obtain ⟨u, hu, hv⟩ := Option.map_eq_some_iff.1 hx
  simp only [Prod.mk.injEq, decide_eq_true_eq, beq_iff_eq] at hv
  obtain ⟨⟨hC, hi⟩, hpid, hcpu⟩ := hv
  have h := sigint_ends (run_of_steps hs) hC ht (run_of_steps hu) hi
  exact ⟨s, t, u, ht, h.1, run_of_steps hu, hcpu, h.2 0 hpid hcpu⟩

/-- SIGBG comes when the shell's child runs in user mode: the child yields at the
end of `trap`. SIGINT leaves it there, and after SIGFG it goes back to user mode. -/
theorem suspended_returns : ∃ es s t u, Run (Step xv6) (boot xv6) es s ∧
    Step xv6 s (.sendsig 1) t ∧ Interrupted (s.proc 2) ∧ ¬ UnderWay (t.proc 2) ∧
    Run (Step xv6) t [.round 0, .wait 0, .leave 0, .trapret 0, .enter 0, .sleep 0 9, .sendsig 3,
      .round 0] u ∧ (u.proc 2).pid = (s.proc 2).pid ∧ u.cpu 0 = some 2 ∧
    (step xv6 (.trapret 0) u).isSome = true := by
  have hx : ((steps xv6 (startShell ++ [Event.round 0, .forkret 0, .enter 0, .fork 0 none] ++
      List.replicate 8 (Event.advance 0) ++
        [Event.wait 0, .round 0, .retest 0, .trapret 0, .enter 0, .sleep 0 7, .round 0,
          .forkret 0, .interrupt 0, .sendsig 2, .test 0, .retest 0])
      (boot xv6)).bind fun s => (step xv6 (.sendsig 1) s).bind fun t =>
        (steps xv6 [.round 0, .wait 0, .leave 0, .trapret 0, .enter 0, .sleep 0 9, .sendsig 3,
          .round 0] t).map fun u =>
          (decide (Interrupted (s.proc 2)), decide (UnderWay (t.proc 2)),
            (u.proc 2).pid == (s.proc 2).pid, u.cpu 0, (step xv6 (.trapret 0) u).isSome)) =
      some (true, false, true, some 2, true) := by decide +kernel
  obtain ⟨s, hs, hx⟩ := Option.bind_eq_some_iff.1 hx
  obtain ⟨t, ht, hx⟩ := Option.bind_eq_some_iff.1 hx
  obtain ⟨u, hu, hv⟩ := Option.map_eq_some_iff.1 hx
  simp only [Prod.mk.injEq, decide_eq_true_eq, decide_eq_false_iff_not, beq_iff_eq] at hv
  exact ⟨_, s, t, u, run_of_steps hs, ht, hv.1, hv.2.1, run_of_steps hu, hv.2.2.1, hv.2.2.2.1,
    hv.2.2.2.2⟩

end Xv6.Signal
