/-
Ctrl-B.

SIGBG marks the processes after the shell as suspended. The scheduler skips a
suspended process, and an interrupt in user mode ends with a `yield` for it. The end
of a system call tests nothing of the kind, and neither does the way back to user
mode once `trap` is past its last test: a process that is there when the signal comes
goes on. So does a process whose creator has yet to clear its signals.

Runs here are those of one CPU, where the keyboard interrupts what the CPU executes.
-/
import Xv6.Signal.Account
import Xv6.Signal.Interrupt

set_option autoImplicit false

namespace Xv6.Signal

open Xv6.Lib

/-- The CPU that makes the step, if it is not an interrupt handler's. -/
def Event.cpu : Event → Option Nat
  | .round c | .timer c | .interrupt c | .fault c | .test c | .retest c | .trapret c
  | .forkret c | .enter c | .leave c | .sleep c _ | .acquiresleep c _ | .releasesleep c _
  | .begin_op c | .end_op c | .openFile c _ | .closeFile c _ | .exit c | .dropCwd c
  | .exitDone c | .resumeExit c | .wait c | .kill c _ | .signal c _ | .scheduler_start c
  | .fork c _ | .advance c | .fail c => some c
  | .wakeup _ | .sendsig _ => none

def Event.fromConsole : Event → Bool
  | .sendsig _ => true
  | _ => false

/-- A step on a machine with one CPU. The console interrupt takes a process out of user
mode before its handler sends a signal. -/
def OneCpu (s : Machine) (e : Event) : Prop :=
  (∀ c ∈ e.cpu, c = 0) ∧ (e.fromConsole = true → ∀ i ∈ s.cpu 0, (s.proc i).pos ≠ .user)

instance (s : Machine) (e : Event) : Decidable (OneCpu s e) :=
  inferInstanceAs (Decidable (_ ∧ _))

/-- The processes that SIGBG is meant to stop. -/
def Suspends (p : Proc) : Prop := 2 < p.pid ∧ p.state ≠ .UNUSED
  deriving Decidable

/-- Instructions of the process are executed in user mode. -/
def InUser (s : Machine) (i : Slot) : Prop :=
  s.panicked = none ∧ s.cpu 0 = some i ∧ (s.proc i).pos = .user

/-- Before a test that will stop it: in the interrupt path of `trap`, in `exit`, or in a
system call that ends in `exit`. -/
def Stopped (p : Proc) : Prop :=
  match p.pos with
  | .trapped | .retest | .exiting | .exited => True
  | .syscall | .creating .. => p.killed = true
  | .user | .leaving | .forkret => False

instance (p : Proc) : Decidable (Stopped p) := by
  unfold Stopped
  split <;> infer_instance

/-- The creator of slot `i` has yet to clear its signals. -/
def Pos.clears (i : Slot) : Pos → Bool
  | .creating np _ .stack | .creating np _ .signals => np == i
  | _ => false

/-- The condition on the state that SIGBG finds: the process of the CPU is before a test
that will stop it, and a process whose signals are not yet cleared has a creator that is
itself stopped by the signal. -/
def Stoppable (s : Machine) : Prop :=
  ∀ i, Suspends (s.proc i) → (s.cpu 0 = some i → Stopped (s.proc i)) ∧
    ∀ j, (s.proc j).pos.clears i = true → Suspends (s.proc j) ∧ s.cpu 0 ≠ some j
  deriving Decidable

variable {k : Config} {s s₀ t u : Machine} {c : Nat} {i j : Slot} {e : Event}

/-! ## What a step does -/

/-- The flag is taken away by SIGFG, by SIGBG from the shell, and by the creator. -/
theorem suspended_step (he : effect k e s = some t) (h3 : e ≠ .sendsig 3)
    (hs : (s.proc i).suspended = true) (h2 : (s.proc i).pid ≠ 2)
    (hcl : ∀ l c, (s.proc l).pos.clears i = true → s.cpu c ≠ some l) :
    (t.proc i).suspended = true := by
  by_cases hw : e.writesAccount = false
  · rw [(account_step he hw i).suspended]
    exact hs
  cases e <;> first | exact absurd rfl hw | skip
  case timer c =>
    simp only [effect, act_eq_some] at he
    obtain ⟨j, -, -, rfl⟩ := he
    rw [(timer_account c j s i).suspended]
    split
    · unfold Proc.charge
      split <;> exact hs
    · exact hs
  case advance c =>
    obtain ⟨j, np, a, st, hj, hpos, rfl⟩ := advance_inv he
    rw [(advance_account (k := k) hpos i).suspended]
    by_cases hi : i = np
    · rw [if_pos hi]
      -- the stage that clears the flag would be its creator's
      cases st <;> cases a <;> first
        | exact hs
        | exact absurd hj (hcl j c (by rw [hpos, hi]; simp [Pos.clears]))
    · rw [if_neg hi]
      exact hs
  case sendsig n =>
    obtain rfl := Option.some.inj he
    have hn : n ≠ 3 := by
      rintro rfl
      exact h3 rfl
    unfold sendsig
    grind -ring -linarith [Proc.kill, Proc.background, Proc.custom]
  all_goals
    simp only [effect, act_eq_some] at he
    obtain ⟨j, -, -, rfl⟩ := he
    rw [Machine.set_proc]
    split <;> exact hs

/-- Ageing leaves no process at its limit to be run. -/
theorem aged_expired (k : Config) (s : Machine) (j : Slot) (h : (s.proc j).expired = true) :
    ((s.aged k).proc j).eligible = false := by
  simp only [Machine.aged, Machine.each_proc, Proc.expire, Proc.boost]
  unfold Proc.expired Proc.eligible at *
  grind -ring -linarith

/-- A process comes to a CPU from the scheduler, which has found it not suspended and
below its limit. -/
theorem current_step (he : effect k e s = some t) (hp : t.panicked = none) {d : Nat}
    (hj : t.cpu d = some j) : s.cpu d = some j ∨ (s.proc j).suspended = false ∧
      (s.proc j).expired = false ∧ (t.proc j).state = .RUNNING := by
  cases e <;> simp only [effect, act_eq_some, Option.some.injEq] at he
  case round c =>
    split at he
    · obtain rfl := Option.some.inj he
      have hag := (sameAccount_aged k s j).suspended
      rcases round_cases k c hp with ⟨-, hr⟩ | ⟨i, hh, -, hsu, hr⟩ <;> rw [hr] at hj ⊢
      · exact Or.inl hj
      · rw [Machine.setCpu_cpu] at hj
        split at hj
        · obtain rfl := Option.some.inj hj
          refine Or.inr ⟨hag.symm.trans hsu, ?_, by simp [Proc.run]⟩
          -- an expired process is a ZOMBIE when the choice is made
          by_contra hex
          have := aged_expired k s i (by simpa using hex)
          rw [highest_eligible hh] at this
          cases this
        · exact Or.inl hj
    · cases he
  case wakeup a =>
    subst he
    left
    rwa [(wakeup1_rest (some (.addr a)) s).1] at hj
  case timer c =>
    obtain ⟨i, -, -, rfl⟩ := he
    left
    rcases timer_cases c i s with ⟨-, -, ht⟩ | ⟨-, ht⟩ | ⟨-, ht⟩ <;> rw [ht] at hj <;>
      grind -ring -linarith
  case retest c =>
    obtain ⟨i, -, -, rfl⟩ := he
    left
    rcases retest_cases c i s with ⟨-, hr⟩ | hr <;> rw [hr] at hj <;> grind -ring -linarith
  case sleep c a =>
    obtain ⟨i, -, -, rfl⟩ := he
    left
    grind -ring -linarith [sleep]
  case exitDone c =>
    obtain ⟨i, -, -, rfl⟩ := he
    left
    split at hj
    · exact hj
    · rw [exitDone_cpu] at hj
      split at hj
      · cases hj
      · exact hj
  case wait c =>
    obtain ⟨i, -, -, rfl⟩ := he
    left
    rcases wait_cases c i s with ⟨l, -, -, hw⟩ | hw | ⟨-, hw⟩ <;> rw [hw] at hj <;>
      grind -ring -linarith [sleep]
  case kill c pid =>
    obtain ⟨i, -, -, rfl⟩ := he
    left
    rcases kill_cases pid s with hk | ⟨l, -, hk⟩ <;> rw [hk] at hj <;> exact hj
  case fork c a =>
    obtain ⟨i, -, -, rfl⟩ := he
    left
    rcases allocproc_cases i a s with hk | ⟨np, -, hk⟩ <;> rw [hk] at hj <;> exact hj
  case advance c =>
    obtain ⟨i, -, hg, rfl⟩ := he
    obtain ⟨np, a, st, -, hk⟩ := advance_cases k hg
    left
    rw [hk] at hj
    exact hj
  case fail c =>
    obtain ⟨i, -, hg, rfl⟩ := he
    obtain ⟨np, a, st, -, -, hk⟩ := failFork_cases hg
    left
    rw [hk] at hj
    exact hj
  case sendsig n =>
    subst he
    left
    rwa [(sendsig_cpu n s).1] at hj
  all_goals
    obtain ⟨i, -, -, rfl⟩ := he
    exact Or.inl hj

/-- On one CPU the others stay empty. -/
theorem solo_step (he : effect k e s = some t) (ho : OneCpu s e)
    (hs : ∀ d, d ≠ 0 → s.cpu d = none) : ∀ d, d ≠ 0 → t.cpu d = none := by
  intro d hd
  have h0 := hs d hd
  cases e <;> simp only [effect, act_eq_some, Option.some.injEq] at he
  case round c =>
    obtain rfl : c = 0 := ho.1 c rfl
    split at he
    · obtain rfl := Option.some.inj he
      unfold round
      split
      · simp only [dispatch]
        split
        · split <;> simp [hd, Machine.aged, h0]
        · simp [hd, Machine.aged, h0]
      · exact h0
    · cases he
  case wakeup a =>
    subst he
    rwa [(wakeup1_rest (some (.addr a)) s).1]
  case sendsig n =>
    subst he
    rwa [(sendsig_cpu n s).1]
  case timer c =>
    obtain ⟨i, -, -, rfl⟩ := he
    rcases timer_cases c i s with ⟨-, -, ht⟩ | ⟨-, ht⟩ | ⟨-, ht⟩ <;> rw [ht] <;>
      grind -ring -linarith
  case retest c =>
    obtain ⟨i, -, -, rfl⟩ := he
    rcases retest_cases c i s with ⟨-, hr⟩ | hr <;> rw [hr] <;> grind -ring -linarith
  case sleep c a =>
    obtain ⟨i, -, -, rfl⟩ := he
    grind -ring -linarith [sleep]
  case exitDone c =>
    obtain ⟨i, -, -, rfl⟩ := he
    split
    · exact h0
    · rw [exitDone_cpu]
      split
      · rfl
      · exact h0
  case wait c =>
    obtain ⟨i, -, -, rfl⟩ := he
    rcases wait_cases c i s with ⟨l, -, -, hw⟩ | hw | ⟨-, hw⟩ <;> rw [hw] <;>
      grind -ring -linarith [sleep]
  case kill c pid =>
    obtain ⟨i, -, -, rfl⟩ := he
    rcases kill_cases pid s with hk | ⟨l, -, hk⟩ <;> rw [hk] <;> exact h0
  case fork c a =>
    obtain ⟨i, -, -, rfl⟩ := he
    rcases allocproc_cases i a s with hk | ⟨np, -, hk⟩ <;> rw [hk] <;> exact h0
  case advance c =>
    obtain ⟨i, -, hg, rfl⟩ := he
    obtain ⟨np, a, st, -, hk⟩ := advance_cases k hg
    rw [hk]
    exact h0
  case fail c =>
    obtain ⟨i, -, hg, rfl⟩ := he
    obtain ⟨np, a, st, -, -, hk⟩ := failFork_cases hg
    rw [hk]
    exact h0
  all_goals
    obtain ⟨i, -, -, rfl⟩ := he
    exact h0

theorem clears_iff {p : Pos} : p.clears i = true ↔
    ∃ a st, p = .creating i a st ∧ (st = .stack ∨ st = .signals) := by
  cases p with
  | creating np b st => cases st <;> simp [Pos.clears]
  | _ => simp [Pos.clears]

/-- A creator that has the signals of a slot to clear had them before, or has just taken
the slot and given it a new pid. -/
theorem clears_step (he : effect k e s = some t) (hp : t.panicked = none)
    (hj : (t.proc j).pos.clears i = true) (hpid : (t.proc i).pid ≠ s.nextpid)
    (hcl : ∀ l c, (s.proc l).pos.clears i = true → s.cpu c ≠ some l) :
    (s.proc j).pos.clears i = true := by
  obtain ⟨a, st, hpos, hst⟩ := clears_iff.1 hj
  by_cases hadv : ∃ c, e = .advance c
  · obtain ⟨c, rfl⟩ := hadv
    obtain ⟨l, np, b, st', hl, hposl, rfl⟩ := advance_inv he
    rw [advance_pos hposl] at hpos
    by_cases hjl : j = l
    · -- the stage before it would be its creator's
      subst hjl
      rw [if_pos rfl] at hpos
      exfalso
      apply hcl j c _ hl
      cases st' <;> simp only [Stage.next, Pos.creating.injEq, reduceCtorEq] at hpos
      case stack =>
        rw [hposl, hpos.1]
        simp [Pos.clears]
      all_goals
        obtain ⟨-, -, rfl⟩ := hpos
        rcases hst with h | h <;> cases h
    · rw [if_neg hjl] at hpos
      exact clears_iff.2 ⟨a, st, hpos, hst⟩
  have hadv' : ∀ c, e ≠ .advance c := fun c hc => hadv ⟨c, hc⟩
  apply clears_iff.2
  refine ⟨a, st, ?_, hst⟩
  exact (creating_step he hadv' hp hpos).resolve_right fun hs => hpid hs.2

/-- **A stopped process stays stopped.** It is on its CPU before and after the step, and
its slot has not been taken away. -/
theorem stopped_step (he : effect k e s = some t) (ho : OneCpu s e) (hsolo : ∀ d, d ≠ 0 → s.cpu d = none)
    (hi : s.cpu 0 = some i) (hi' : t.cpu 0 = some i) (hs : (s.proc i).suspended = true)
    (hS : Stopped (s.proc i)) (hpid : (t.proc i).pid = (s.proc i).pid) (h0 : (s.proc i).pid ≠ 0)
    (hn : (s.proc i).pid ≠ s.nextpid) : Stopped (t.proc i) := by
  -- the process of the step is the stopped one
  have hcur : ∀ c l, s.cpu c = some l → c = 0 ∧ l = i := by
    intro c l hl
    have hc : c = 0 := by
      by_contra hc
      rw [hsolo c hc] at hl
      cases hl
    subst hc
    exact ⟨rfl, Option.some.inj (hl.symm.trans hi)⟩
  unfold Stopped at hS ⊢
  cases e <;> simp only [effect, act_eq_some, Option.some.injEq] at he
  case round c =>
    split at he
    · -- the CPU is not idle
      rename_i hidle
      obtain rfl : c = 0 := ho.1 c rfl
      rw [hidle] at hi
      cases hi
    · cases he
  case wakeup a =>
    subst he
    have := wakeup1_proc (some (.addr a)) s i
    grind -ring -linarith
  case sendsig n =>
    subst he
    rw [sendsig_pos]
    have : (s.proc i).killed = true → ((sendsig n s).proc i).killed = true := by
      unfold sendsig
      grind -ring -linarith [Proc.kill, Proc.background, Proc.foreground, Proc.custom]
    grind -ring -linarith
  case timer c =>
    obtain ⟨l, hl, -, rfl⟩ := he
    obtain ⟨rfl, rfl⟩ := hcur c l hl
    have hk : (s.proc l).killed = true → (s.proc l).charge.killed = true := by
      unfold Proc.charge
      grind -ring -linarith
    rcases timer_cases 0 l s with ⟨hu, -, ht⟩ | ⟨-, ht⟩ | ⟨-, ht⟩ <;> rw [ht] at hi' ⊢
    · simp
    · simp at hi'
    · unfold Pos.interrupted
      grind -ring -linarith
  case retest c =>
    obtain ⟨l, hl, -, rfl⟩ := he
    obtain ⟨rfl, rfl⟩ := hcur c l hl
    unfold retest at hi' ⊢
    grind -ring -linarith [yield, Proc.orExit]
  case exitDone c =>
    obtain ⟨l, hl, -, rfl⟩ := he
    obtain ⟨rfl, rfl⟩ := hcur c l hl
    by_cases hin : l = s.initproc
    · rw [if_pos hin]
      exact hS
    · rw [if_neg hin, exitDone_cpu] at hi'
      simp at hi'
  case wait c =>
    obtain ⟨l, hl, -, rfl⟩ := he
    obtain ⟨rfl, rfl⟩ := hcur c l hl
    rcases wait_cases 0 l s with ⟨m, -, -, hw⟩ | hw | ⟨-, hw⟩ <;> rw [hw] at hi' hpid ⊢
    · grind -ring -linarith [Proc.reap]
    · exact hS
    · simp [sleep] at hi'
  case kill c pid =>
    obtain ⟨l, hl, -, rfl⟩ := he
    rcases kill_cases pid s with hk | ⟨m, -, hk⟩ <;> rw [hk] <;> grind -ring -linarith [Proc.kill]
  case fork c a =>
    obtain ⟨l, hl, hg, rfl⟩ := he
    obtain ⟨rfl, rfl⟩ := hcur c l hl
    have hpos : (s.proc l).pos = .syscall := by simpa using hg
    simp only [hpos] at hS
    rcases allocproc_cases l a s with hk | ⟨np, -, hk⟩ <;> rw [hk] at hpid ⊢
    · simpa only [hpos] using hS
    · -- its own slot is not the new one, or it would have the next pid
      have hln : l ≠ np := by
        rintro rfl
        simp only [Machine.set_proc, if_true, Proc.alloc] at hpid
        exact hn hpid.symm
      simp only [Machine.set_proc, if_true, if_neg hln]
      exact hS
  case advance c =>
    obtain ⟨l, hl, hg, rfl⟩ := he
    obtain ⟨rfl, rfl⟩ := hcur c l hl
    obtain ⟨np, a, st, hpos, hk⟩ := advance_cases k hg
    have hw := Stage.write_flags k l (s.proc l) a (s.proc l) st
    rw [hk]
    cases st <;> grind -ring -linarith [Stage.next]
  case fail c =>
    obtain ⟨l, hl, hg, rfl⟩ := he
    obtain ⟨rfl, rfl⟩ := hcur c l hl
    obtain ⟨np, a, st, hpos, -, hk⟩ := failFork_cases hg
    rw [hk]
    grind -ring -linarith [Proc.noStack, Proc.noCopy]
  case sleep c a =>
    obtain ⟨l, hl, -, rfl⟩ := he
    obtain ⟨rfl, rfl⟩ := hcur c l hl
    simp [sleep] at hi'
  all_goals
    obtain ⟨l, hl, hg, rfl⟩ := he
    obtain ⟨rfl, rfl⟩ := hcur _ l hl
    grind -ring -linarith [Proc.orExit, Proc.leave, Pos.mayBlock, Proc.start]

/-- Only `fork` and `custom_fork` give out pids. -/
theorem nextpid_step (he : effect k e s = some t) (hf : ∀ c a, e ≠ .fork c a) :
    t.nextpid = s.nextpid := by
  by_cases ho : e.isTurn = true
  · obtain ⟨c, i, q, -, -, -, hn, -⟩ := turn_step he ho
    exact hn
  cases e <;> first
    | exact absurd rfl ho
    | simp only [effect, act_eq_some, Option.some.injEq] at he
  case round c =>
    split at he
    · obtain rfl := Option.some.inj he
      unfold round
      split
      · simp only [dispatch]
        split
        · split <;> rfl
        · rfl
      · rfl
    · cases he
  case wakeup a =>
    subst he
    exact (wakeup1_rest (some (.addr a)) s).2.1
  case sendsig n =>
    subst he
    exact (sendsig_cpu n s).2.1
  case fork c a => exact absurd rfl (hf c a)
  case exitDone c =>
    obtain ⟨i, -, -, rfl⟩ := he
    split
    · rfl
    · exact (exitDone_rest c i s).1
  case wait c =>
    obtain ⟨i, -, -, rfl⟩ := he
    rcases wait_cases c i s with ⟨l, -, -, hw⟩ | hw | ⟨-, hw⟩ <;> rw [hw] <;> rfl
  case kill c pid =>
    obtain ⟨i, -, -, rfl⟩ := he
    rcases kill_cases pid s with hk | ⟨l, -, hk⟩ <;> rw [hk]
    rfl
  case advance c =>
    obtain ⟨i, -, hg, rfl⟩ := he
    obtain ⟨np, a, st, -, hk⟩ := advance_cases k hg
    rw [hk]
    rfl
  case fail c =>
    obtain ⟨i, -, hg, rfl⟩ := he
    obtain ⟨np, a, st, -, -, hk⟩ := failFork_cases hg
    rw [hk]
    rfl
  all_goals
    obtain ⟨i, -, -, rfl⟩ := he
    rfl

/-- A slot that is taken has a new process, which has nothing to clear but itself. -/
theorem taken_step (he : Step k s e t) (hlt : (s.proc j).pid < s.nextpid)
    (h0 : 0 < s.nextpid) (hj : (t.proc j).pid = s.nextpid)
    (hcl : (t.proc j).pos.clears i = true) : i = j := by
  have hpid := (pid_step he j).2
  replace he := effect_of_step he
  by_cases hf : ∃ c a, e = .fork c a
  · obtain ⟨c, a, rfl⟩ := hf
    simp only [effect, act_eq_some] at he
    obtain ⟨l, -, -, rfl⟩ := he
    rcases allocproc_cases l a s with hk | ⟨np, -, hk⟩ <;> rw [hk] at hj hcl
    · omega
    · simp only [Machine.set_proc] at hj hcl
      by_cases hjl : j = l
      · rw [if_pos hjl] at hj hcl
        have hi : np = i := by simpa [Pos.clears] using hcl
        split at hj
        · rename_i hn
          rw [← hi, ← hn]
        · exact absurd hj hlt.ne
      · rw [if_neg hjl] at hj hcl
        split at hj
        · rename_i hn
          rw [if_pos hn] at hcl
          cases hcl
        · exact absurd hj hlt.ne
  · have := nextpid_step he fun c a hc => hf ⟨c, a, hc⟩
    omega

/-! ## From the signal on -/

/-- The process that SIGBG found in slot `i` in the state `s` is still there. -/
def Still (s u : Machine) (i : Slot) : Prop :=
  Suspends (s.proc i) ∧ (u.proc i).pid = (s.proc i).pid

/-- What holds after SIGBG has found `s`. The slots of `G` stay suspended: those of the
processes that the signal stopped, until the slot is taken again. Who has the signals of
such a slot to clear is in `G` too, and on no CPU. -/
structure Held (s u : Machine) : Prop where
  solo : ∀ d, d ≠ 0 → u.cpu d = none
  pid : ∀ i, Suspends (s.proc i) → (s.proc i).pid < u.nextpid
  still : ∃ G : Set Slot, (∀ i, Still s u i → i ∈ G ∧ (u.cpu 0 = some i → Stopped (u.proc i))) ∧
    ∀ i ∈ G, (u.proc i).suspended = true ∧ (u.proc i).pid ≠ 2 ∧
      (u.proc i).pid < u.nextpid ∧ ∀ l, (u.proc l).pos.clears i = true → l ∈ G ∧ u.cpu 0 ≠ some l

theorem Held.step (h : Held s₀ s) (he : Step k s e t) (ho : OneCpu s e) (h3 : e ≠ .sendsig 3)
    (h2 : 2 < s.nextpid) (hp : t.panicked = none) : Held s₀ t := by
  have hpids := pid_step he
  have hst := he
  replace he := effect_of_step he
  obtain ⟨hsolo, hpid, G, hG, hF⟩ := h
  have hsolo' := solo_step he ho hsolo
  -- a creator that has the signals of a slot of G to clear is on no CPU
  have hcl : ∀ i ∈ G, ∀ l c, (s.proc l).pos.clears i = true → s.cpu c ≠ some l := by
    intro i hi l c hl hc
    by_cases hc0 : c = 0
    · rw [hc0] at hc
      exact ((hF i hi).2.2.2 l hl).2 hc
    · rw [hsolo c hc0] at hc
      cases hc
  have hstill : ∀ i, Still s₀ t i → Still s₀ s i ∧ (t.proc i).pid ≠ s.nextpid := by
    intro i hi
    have h1 := (hpids i).2
    have h2 := hpid i hi.1
    have h3 := hi.1.1
    have h4 := hi.2
    exact ⟨⟨hi.1, by omega⟩, by omega⟩
  refine ⟨hsolo', fun i hi => (hpid i hi).trans_le (hpids i).1,
    {i | i ∈ G ∧ (t.proc i).pid ≠ s.nextpid}, ?_, ?_⟩
  · intro i hi
    obtain ⟨hs, hn⟩ := hstill i hi
    obtain ⟨hiG, hstop⟩ := hG i hs
    refine ⟨⟨hiG, hn⟩, fun hcur => ?_⟩
    have hsus := (hF i hiG).1
    rcases current_step he hp hcur with hc | ⟨hc, -⟩
    · have h1 := hpid i hi.1
      have h2 := hi.1.1
      have h3 := hs.2
      exact stopped_step he ho hsolo hc hcur hsus (hstop hc) (hi.2.trans hs.2.symm) (by omega)
        (by omega)
    · rw [hsus] at hc
      cases hc
  · rintro i ⟨hiG, hn⟩
    obtain ⟨hsus, hne, hlt, hcre⟩ := hF i hiG
    refine ⟨suspended_step he h3 hsus hne (hcl i hiG), ?_, ?_, fun l hl => ?_⟩
    · have := (hpids i).2
      omega
    · have := hpids i
      omega
    · have hls := clears_step he hp hl hn (hcl i hiG)
      obtain ⟨hlG, hlc⟩ := hcre l hls
      refine ⟨⟨hlG, fun hln => ?_⟩, fun hc => ?_⟩
      · -- a slot that is taken again is at no point of a creation
        obtain rfl := taken_step hst (hF l hlG).2.2.1 (by omega) hln hl
        exact hn hln
      · rcases current_step he hp hc with hc' | ⟨hc', -⟩
        · exact hlc hc'
        · rw [(hF l hlG).1] at hc'
          cases hc'

/-- The signal itself. -/
theorem Held.start (hsolo : ∀ d, d ≠ 0 → s.cpu d = none) (hpid : ∀ i, (s.proc i).pid < s.nextpid)
    (hS : Stoppable s) : Held s (sendsig 2 s) := by
  have hcpu := sendsig_cpu 2 s
  have hpos := sendsig_pos 2 s
  have hpids : ∀ i, ((sendsig 2 s).proc i).pid = (s.proc i).pid := fun i => (sendsig_parts 2 s i).pid
  refine ⟨?_, ?_, {i | Suspends (s.proc i)}, ?_, ?_⟩
  · rw [hcpu.1]
    exact hsolo
  · intro i _
    rw [hcpu.2.1]
    exact hpid i
  · rintro i ⟨hi, -⟩
    refine ⟨hi, fun hc => ?_⟩
    rw [hcpu.1] at hc
    have hst := (hS i hi).1 hc
    have hkl : ((sendsig 2 s).proc i).killed = (s.proc i).killed := by
      show (Proc.background s (s.proc i)).killed = _
      unfold Proc.background
      split
      · rfl
      · split <;> rfl
    unfold Stopped at hst ⊢
    rw [hpos, hkl]
    exact hst
  · intro i hi
    have hi2 : 2 < (s.proc i).pid := hi.1
    refine ⟨?_, ?_, ?_, ?_⟩
    · show (Proc.background s (s.proc i)).suspended = true
      unfold Proc.background
      rw [if_neg (by omega), if_pos hi2]
    · rw [hpids]
      omega
    · rw [hpids, hcpu.2.1]
      exact hpid i
    · intro l hl
      rw [hpos] at hl
      rw [hcpu.1]
      exact (hS i hi).2 l hl

/-- **Ctrl-B takes effect.** On one CPU, when SIGBG comes in a state in which the process
of the CPU is before a test that stops it and nobody's signals wait to be cleared by a
creator that runs on, then in no continuation without SIGFG does a process after the
shell that was there execute an instruction in user mode. -/
theorem suspension_effective {es fs : List Event}
    (hrun : Run (Guarded (Step k) OneCpu) (boot k) es s) (hS : Stoppable s)
    (ht : Step k s (.sendsig 2) t) (hfs : Run (Guarded (Step k) OneCpu) t fs u)
    (h3 : .sendsig 3 ∉ fs) (hi : Suspends (s.proc i)) (hpid : (u.proc i).pid = (s.proc i).pid) :
    ¬ InUser u i := by
  have hlt := pid_lt_nextpid (hrun.mono fun _ _ _ h => h.2)
  have hsolo : ∀ d, d ≠ 0 → s.cpu d = none :=
    hrun.invariant (P := fun s => ∀ d, d ≠ 0 → s.cpu d = none)
      (fun s e t hst h => solo_step (effect_of_step hst.2) hst.1 h) fun d _ => rfl
  obtain rfl : sendsig 2 s = t := Option.some.inj (effect_of_step ht)
  have hH : 2 < u.nextpid ∧ (u.panicked = none → Held s u) := by
    have h0 : 2 < (sendsig 2 s).nextpid ∧
        ((sendsig 2 s).panicked = none → Held s (sendsig 2 s)) := by
      refine ⟨?_, fun _ => Held.start hsolo hlt hS⟩
      rw [(sendsig_cpu 2 s).2.1]
      have := hlt i
      have := hi.1
      omega
    generalize sendsig 2 s = t at hfs h0
    induction hfs with
    | nil t => exact h0
    | cons hst _ ih =>
      rename_i v w x e es _
      obtain ⟨he, hes⟩ := List.mem_cons.not.1 h3 |> not_or.1
      refine ih hes hpid ⟨?_, fun hw => ?_⟩
      · have := (pid_step hst.2 i).1
        omega
      · exact (h0.2 (not_panicked_of_step hst.2)).step hst.2 hst.1 (Ne.symm he) h0.1 hw
  rintro ⟨hp, hc, hus⟩
  obtain ⟨-, -, G, hG, -⟩ := hH.2 hp
  have hst := (hG i ⟨hi, hpid⟩).2 hc
  unfold Stopped at hst
  rw [hus] at hst
  exact hst

/-- The shell has a child, process 3 in slot 2, which runs in user mode. -/
def childInUser : List Event :=
  startShell ++ [Event.round 0, .forkret 0, .enter 0, .fork 0 none] ++
    List.replicate 8 (Event.advance 0) ++ [Event.wait 0, .round 0, .retest 0, .trapret 0, .enter 0,
      .sleep 0 7, .round 0, .forkret 0]

/-- The keyboard interrupts the child in user mode. -/
theorem suspension_effective_interrupt : ∃ u, (u.proc 2).pid = 3 ∧ u.cpu 0 = none ∧
    ¬ InUser u 2 := by
  have hx : ((execIf (step xv6) OneCpu (childInUser ++
      [Event.interrupt 0]) (boot xv6)).bind fun s =>
      (step xv6 (.sendsig 2) s).bind fun t =>
        (execIf (step xv6) OneCpu [.test 0, .retest 0, .round 0, .sleep 0 9] t).map fun u =>
          (decide (Stoppable s), decide (Suspends (s.proc 2)), (s.proc 2).pid, (u.proc 2).pid,
            u.cpu 0)) = some (true, true, 3, 3, none) := by decide +kernel
  obtain ⟨s, hs, hx⟩ := Option.bind_eq_some_iff.1 hx
  obtain ⟨t, ht, hx⟩ := Option.bind_eq_some_iff.1 hx
  obtain ⟨u, hu, hx⟩ := Option.map_eq_some_iff.1 hx
  simp only [Prod.mk.injEq, decide_eq_true_eq] at hx
  obtain ⟨hS, hi, hp, hp', hc⟩ := hx
  exact ⟨u, hp', hc, suspension_effective (run_of_execIf hs) hS ht (run_of_execIf hu) (by simp) hi
    (hp'.trans hp.symm)⟩

/-- The keyboard interrupts a system call of the child, which goes back to user mode. -/
theorem suspended_call_returns : ∃ es s t fs u, Run (Guarded (Step xv6) OneCpu) (boot xv6) es s ∧
    OneCpu s (.sendsig 2) ∧ Step xv6 s (.sendsig 2) t ∧ Suspends (s.proc 2) ∧
    Run (Guarded (Step xv6) OneCpu) t fs u ∧ .sendsig 3 ∉ fs ∧
    (u.proc 2).pid = (s.proc 2).pid ∧ (u.proc 2).suspended = true ∧ InUser u 2 := by
  have hx : ((execIf (step xv6) OneCpu (childInUser ++ [Event.enter 0]) (boot xv6)).bind fun s =>
      (step xv6 (.sendsig 2) s).bind fun t =>
        (execIf (step xv6) OneCpu [.leave 0, .trapret 0] t).map fun u =>
          (decide (OneCpu s (.sendsig 2) ∧ Suspends (s.proc 2)),
            decide ((u.proc 2).pid = (s.proc 2).pid ∧ (u.proc 2).suspended = true),
            decide (u.panicked = none ∧ u.cpu 0 = some 2 ∧ (u.proc 2).pos = .user))) =
      some (true, true, true) := by decide +kernel
  obtain ⟨s, hs, hx⟩ := Option.bind_eq_some_iff.1 hx
  obtain ⟨t, ht, hx⟩ := Option.bind_eq_some_iff.1 hx
  obtain ⟨u, hu, hx⟩ := Option.map_eq_some_iff.1 hx
  simp only [Prod.mk.injEq, decide_eq_true_eq] at hx
  obtain ⟨⟨ho, hi⟩, ⟨hp, hsu⟩, huser⟩ := hx
  exact ⟨_, s, t, _, u, run_of_execIf hs, ho, ht, hi, run_of_execIf hu, by simp, hp, hsu, huser⟩

end Xv6.Signal
