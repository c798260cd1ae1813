/-
The limit on execution time.

`custom_fork` stores `exec_time`. The timer charges the process that it interrupts and
marks it killed at the limit, and the scheduler makes a zombie of a process at its
limit instead of running it. What remains to the process is `exit`, if the last charge
came in user mode: there its interrupts are off.

The charge is made only to a RUNNING process that is not suspended. SIGFG makes the
process of the CPU RUNNABLE, and a suspended process can be in user mode: such
interrupts count for nothing.
-/
import Xv6.Signal.Clock
import Xv6.Signal.Suspend

set_option autoImplicit false

namespace Xv6.Signal

open Xv6.Lib

/-- The machine, and how often the timer has interrupted each process since `custom_fork`
wrote its limit. -/
structure Timed where
  m : Machine
  hits : Slot → Nat

/-- The process whose limit the event writes. -/
def limits (m : Machine) : Event → Option Slot
  | .advance c =>
    match m.cpu c with
    | some i =>
      match (m.proc i).pos with
      | .creating np (some _) .linking => some np
      | _ => none
    | none => none
  | _ => none

/-- The process that the timer interrupts. -/
def interrupted (m : Machine) : Event → Option Slot
  | .timer c => m.cpu c
  | _ => none

/-- One step. -/
def Timed.step (k : Config) (e : Event) (s : Timed) : Option Timed :=
  (Signal.step k e s.m).map fun m =>
    { m := m
      hits := fun i =>
        if limits s.m e = some i then 0
        else if interrupted s.m e = some i then s.hits i + 1
        else s.hits i }

def Timed.Step (k : Config) (s : Timed) (e : Event) (t : Timed) : Prop := s.step k e = some t

def Timed.boot (k : Config) : Timed := ⟨Signal.boot k, fun _ => 0⟩

/-- A step on one CPU in which no signal from the console makes a process RUNNABLE that
is being created. -/
def Plain (s : Timed) (e : Event) : Prop := OneCpu s.m e ∧ Spares (· ≠ .EMBRYO) s.m e
  deriving Decidable

/-- A step on one CPU in which an interrupt of the timer finds process `i` RUNNING and not
suspended. -/
def Counting (i : Slot) (s : Timed) (e : Event) : Prop :=
  OneCpu s.m e ∧ (interrupted s.m e = some i →
    (s.m.proc i).state = .RUNNING ∧ (s.m.proc i).suspended = false)
  deriving Decidable

/-- In `exit` with interrupts off, or past it: the timer does not interrupt it any more. -/
def Late (p : Proc) : Prop := p.pos = .exiting ∧ p.cli = true ∨ p.pos = .exited
  deriving Decidable

variable {k : Config} {s t : Machine} {i j : Slot} {e : Event}

/-! ## Creation on one CPU -/

/-- What the creation of a process relies on: the process of the CPU is no EMBRYO, an
EMBRYO has one creator at most, and it has a pid. -/
structure Nest (s : Machine) : Prop where
  solo : ∀ d, d ≠ 0 → s.cpu d = none
  current : ∀ i, s.cpu 0 = some i → (s.proc i).state = .RUNNING ∨ (s.proc i).state = .RUNNABLE
  nursery : Nursery s
  pid : ∀ i, (s.proc i).state = .EMBRYO → (s.proc i).pid ≠ 0

theorem Nest.current_any (h : Nest s) (c : Nat) (hi : s.cpu c = some i) :
    c = 0 ∧ ((s.proc i).state = .RUNNING ∨ (s.proc i).state = .RUNNABLE) := by
  have hc : c = 0 := by
    by_contra hc
    rw [h.solo c hc] at hi
    cases hi
  subst hc
  exact ⟨rfl, h.current i hi⟩

/-- A process that stays on the CPU stays RUNNING or RUNNABLE. -/
theorem Nest.awake (h : Nest s) (he : effect k e s = some t) (hi : s.cpu 0 = some i)
    (hi' : t.cpu 0 = some i) (ho : OneCpu s e) :
    (t.proc i).state = .RUNNING ∨ (t.proc i).state = .RUNNABLE := by
  have hst := h.current i hi
  -- the process of the step is the one on CPU 0
  have hcur : ∀ c l, s.cpu c = some l → c = 0 ∧ l = i := by
    intro c l hl
    obtain ⟨rfl, -⟩ := h.current_any c hl
    exact ⟨rfl, Option.some.inj (hl.symm.trans hi)⟩
  cases e <;> simp only [effect, act_eq_some, Option.some.injEq] at he
  case round c =>
    split at he
    · rename_i hidle
      obtain rfl : c = 0 := ho.1 c rfl
      rw [hidle] at hi
      cases hi
    · cases he
  case wakeup a =>
    subst he
    have := wakeup1_proc (some (.addr a)) s i
    grind -ring -linarith
  case sendsig n =>
    subst he
    have := sendsig_state n s i
    grind -ring -linarith
  case timer c =>
    obtain ⟨l, hl, -, rfl⟩ := he
    obtain ⟨rfl, rfl⟩ := hcur c l hl
    rcases timer_cases 0 l s with ⟨-, -, ht⟩ | ⟨-, ht⟩ | ⟨-, ht⟩ <;> rw [ht] at hi' ⊢
    · simpa using hst
    · simp at hi'
    · simpa using hst
  case retest c =>
    obtain ⟨l, hl, -, rfl⟩ := he
    obtain ⟨rfl, rfl⟩ := hcur c l hl
    rcases retest_cases 0 l s with ⟨-, hr⟩ | hr <;> rw [hr] at hi' ⊢
    · simp at hi'
    · simpa [Proc.orExit] using hst
  case sleep c a =>
    obtain ⟨l, hl, -, rfl⟩ := he
    obtain ⟨rfl, rfl⟩ := hcur c l hl
    simp [sleep] at hi'
  case exitDone c =>
    obtain ⟨l, hl, -, rfl⟩ := he
    obtain ⟨rfl, rfl⟩ := hcur c l hl
    split at hi'
    · rename_i hin
      rw [if_pos hin]
      exact hst
    · rw [exitDone_cpu] at hi'
      simp at hi'
  case wait c =>
    obtain ⟨l, hl, -, rfl⟩ := he
    obtain ⟨rfl, rfl⟩ := hcur c l hl
    rcases wait_cases 0 l s with ⟨m, -, hz, hw⟩ | hw | ⟨-, hw⟩ <;> rw [hw] at hi' ⊢
    · grind -ring -linarith [Proc.reap]
    · exact hst
    · simp [sleep] at hi'
  case kill c pid =>
    obtain ⟨l, hl, -, rfl⟩ := he
    rcases kill_cases pid s with hk | ⟨m, -, hk⟩ <;> rw [hk] <;> grind -ring -linarith [Proc.kill]
  case fork c a =>
    obtain ⟨l, hl, -, rfl⟩ := he
    rcases allocproc_cases l a s with hk | ⟨np, hu, hk⟩ <;> rw [hk] <;>
      grind -ring -linarith [Proc.alloc]
  case advance c =>
    obtain ⟨l, hl, hg, rfl⟩ := he
    obtain ⟨np, a, st, hpos, hk⟩ := advance_cases k hg
    -- the slot that is written is EMBRYO, and the creator is not
    have hem := h.nursery.embryo l np a st hpos
    have hw := Stage.write_state k l (s.proc l) a (s.proc np) st
    rw [hk]
    grind -ring -linarith
  case fail c =>
    obtain ⟨l, hl, hg, rfl⟩ := he
    obtain ⟨np, a, st, hpos, -, hk⟩ := failFork_cases hg
    have hem := h.nursery.embryo l np a st hpos
    rw [hk]
    grind -ring -linarith [Proc.noStack, Proc.noCopy]
  case scheduler_start c =>
    obtain ⟨l, hl, -, rfl⟩ := he
    grind -ring -linarith [Proc.start]
  all_goals
    obtain ⟨l, hl, -, rfl⟩ := he
    grind -ring -linarith [Proc.orExit, Proc.leave]

/-- An EMBRYO was one before, with its pid, or has just been given the next one. -/
theorem embryo_step (he : effect k e s = some t) (hp : t.panicked = none)
    (hi : (t.proc i).state = .EMBRYO) :
    (s.proc i).state = .EMBRYO ∧ (t.proc i).pid = (s.proc i).pid ∨ (t.proc i).pid = s.nextpid := by
  by_cases ho : e.isTurn = true
  · obtain ⟨c, l, q, hl, hq, hT, -⟩ := turn_step he ho
    have hst := hT.state
    have hpid := hT.pid
    grind -ring -linarith
  cases e <;> first
    | exact absurd rfl ho
    | simp only [effect, act_eq_some, Option.some.injEq] at he
  case round c =>
    split at he
    · obtain rfl := Option.some.inj he
      have hag := aged_state k s i
      have hpid := (aged_parts k s i).pid
      rcases round_cases k c hp with ⟨-, hr⟩ | ⟨l, -, -, -, hr⟩ <;> rw [hr] at hi ⊢ <;>
        grind -ring -linarith [Proc.run]
    · cases he
  case wakeup a =>
    subst he
    have := wakeup1_proc (some (.addr a)) s i
    grind -ring -linarith
  case sendsig n =>
    subst he
    have := sendsig_state n s i
    have := (sendsig_parts n s i).pid
    grind -ring -linarith
  case exitDone c =>
    obtain ⟨l, hl, -, rfl⟩ := he
    split at hi
    · rename_i hin
      rw [if_pos hin]
      exact Or.inl ⟨hi, rfl⟩
    · rename_i hin
      rw [if_neg hin]
      by_cases hil : i = l
      · rw [hil, exitDone_self] at hi
        cases hi
      · -- the others change parent and wake up
        obtain ⟨st, hst, hq⟩ := exitDone_other (c := c) (s := s) hil
        rw [Proc.reparent_state] at hst
        have hre := (reparent_parts (s.proc i) l s.initproc).pid
        rw [hq] at hi ⊢
        grind -ring -linarith
  case wait c =>
    obtain ⟨l, -, -, rfl⟩ := he
    rcases wait_cases c l s with ⟨m, -, -, hw⟩ | hw | ⟨-, hw⟩ <;> rw [hw] at hi ⊢ <;>
      grind -ring -linarith [Proc.reap, sleep]
  case kill c pid =>
    obtain ⟨l, -, -, rfl⟩ := he
    rcases kill_cases pid s with hk | ⟨m, -, hk⟩ <;> rw [hk] at hi ⊢ <;>
      grind -ring -linarith [Proc.kill]
  case fork c a =>
    obtain ⟨l, -, -, rfl⟩ := he
    rcases allocproc_cases l a s with hk | ⟨np, -, hk⟩ <;> rw [hk] at hi ⊢ <;>
      grind -ring -linarith [Proc.alloc]
  case advance c =>
    obtain ⟨l, -, hg, rfl⟩ := he
    obtain ⟨np, a, st, -, hk⟩ := advance_cases k hg
    have hw := Stage.write_state k l (s.proc l) a (s.proc np) st
    have hf := Stage.write_flags k l (s.proc l) a (s.proc np) st
    rw [hk] at hi ⊢
    grind -ring -linarith
  case fail c =>
    obtain ⟨l, -, hg, rfl⟩ := he
    obtain ⟨np, a, st, -, -, hk⟩ := failFork_cases hg
    rw [hk] at hi ⊢
    grind -ring -linarith [Proc.noStack, Proc.noCopy]
  case scheduler_start c =>
    obtain ⟨l, -, -, rfl⟩ := he
    grind -ring -linarith [Proc.start]
  case resumeExit c =>
    obtain ⟨l, -, -, rfl⟩ := he
    exact Or.inl ⟨hi, rfl⟩

theorem Nest.step (h : Nest s) (ho : OneCpu s e) (hA : Spares (· ≠ .EMBRYO) s e)
    (he : Step k s e t) (h0 : 0 < s.nextpid) (hp : t.panicked = none) : Nest t := by
  have he' := effect_of_step he
  refine ⟨solo_step he' ho h.solo, fun i hi => ?_, ?_, fun i hi => ?_⟩
  · rcases current_step he' hp hi with hc | ⟨-, -, hr⟩
    · exact h.awake he' hc hi ho
    · exact Or.inl hr
  · refine h.nursery.keeps (fun c i hi => ?_) hA he hp
    rcases (h.current_any c hi).2 with hr | hr <;> rw [hr] <;> simp
  · rcases embryo_step he' hp hi with ⟨hs, hpid⟩ | hpid <;> rw [hpid]
    · exact h.pid i hs
    · exact h0.ne'

/-! ## What limits a process -/

/-- A process does not come back from `exit`, nor do its interrupts. -/
theorem late_step (he : effect k e s = some t) (hs : Late (s.proc i))
    (hn : (t.proc i).pid ≠ s.nextpid) : Late (t.proc i) := by
  unfold Late at *
  cases e <;> simp only [effect, act_eq_some, Option.some.injEq] at he
  case round c =>
    split at he
    · obtain rfl := Option.some.inj he
      have hpos := aged_pos k s i
      have hcli := aged_cli k s i
      unfold round
      split
      · simp only [dispatch]
        split
        · split <;> grind -ring -linarith
        · grind -ring -linarith
      · rwa [hpos, hcli]
    · cases he
  case wakeup a =>
    subst he
    have := wakeup1_proc (some (.addr a)) s i
    grind -ring -linarith
  case sendsig n =>
    subst he
    rwa [sendsig_pos, sendsig_cli]
  case timer c =>
    obtain ⟨l, -, hg, rfl⟩ := he
    rcases timer_cases c l s with ⟨hu, -, ht⟩ | ⟨-, ht⟩ | ⟨-, ht⟩ <;> rw [ht] <;>
      grind -ring -linarith [Pos.interrupted]
  case retest c =>
    obtain ⟨l, -, hg, rfl⟩ := he
    rcases retest_cases c l s with ⟨-, hr⟩ | hr <;> rw [hr] <;> grind -ring -linarith [Proc.orExit]
  case exitDone c =>
    obtain ⟨l, -, -, rfl⟩ := he
    split
    · exact hs
    · by_cases hil : i = l
      · rw [hil, exitDone_self]
        exact Or.inr rfl
      · -- the others change parent and wake up, wherever they are
        obtain ⟨st, -, hq⟩ := exitDone_other (c := c) (s := s) hil
        have hre : ((s.proc i).reparent l s.initproc).pos = (s.proc i).pos ∧
            ((s.proc i).reparent l s.initproc).cli = (s.proc i).cli := by
          unfold Proc.reparent
          split <;> exact ⟨rfl, rfl⟩
        rw [hq, hre.1, hre.2]
        exact hs
  case wait c =>
    obtain ⟨l, -, -, rfl⟩ := he
    rcases wait_cases c l s with ⟨m, -, -, hw⟩ | hw | ⟨-, hw⟩ <;> rw [hw] <;>
      grind -ring -linarith [Proc.reap, sleep]
  case kill c pid =>
    obtain ⟨l, -, -, rfl⟩ := he
    rcases kill_cases pid s with hk | ⟨m, -, hk⟩ <;> rw [hk] <;> grind -ring -linarith [Proc.kill]
  case fork c a =>
    obtain ⟨l, -, hg, rfl⟩ := he
    rcases allocproc_cases l a s with hk | ⟨np, -, hk⟩ <;> rw [hk] at hn ⊢ <;>
      grind -ring -linarith [Proc.alloc]
  case advance c =>
    obtain ⟨l, -, hg, rfl⟩ := he
    obtain ⟨np, a, st, hpos, hk⟩ := advance_cases k hg
    have hw := Stage.write_pos k l (s.proc l) a (s.proc np) st
    have hc := Stage.write_cli k l (s.proc l) a (s.proc np) st
    rw [hk]
    grind -ring -linarith
  case fail c =>
    obtain ⟨l, -, hg, rfl⟩ := he
    obtain ⟨np, a, st, hpos, -, hk⟩ := failFork_cases hg
    rw [hk]
    grind -ring -linarith [Proc.noStack, Proc.noCopy]
  case scheduler_start c =>
    obtain ⟨l, -, -, rfl⟩ := he
    grind -ring -linarith [Proc.start]
  all_goals
    obtain ⟨l, -, hg, rfl⟩ := he
    grind -ring -linarith [Proc.orExit, Proc.leave, Pos.mayBlock, sleep]

/-- The limit is written by the creator, before the files are copied. -/
theorem exec_time_step (he : effect k e s = some t)
    (hcr : ∀ l a st, (s.proc l).pos = .creating i a st → st = .files ∨ st = .ready) :
    (t.proc i).exec_time = (s.proc i).exec_time := by
  by_cases hw : e.writesAccount = false
  · exact (account_step he hw i).exec_time
  cases e <;> first | exact absurd rfl hw | skip
  case timer c =>
    simp only [effect, act_eq_some] at he
    obtain ⟨l, -, -, rfl⟩ := he
    rw [(timer_account c l s i).exec_time]
    split
    · unfold Proc.charge
      split <;> rfl
    · rfl
  case advance c =>
    obtain ⟨l, np, a, st, -, hpos, rfl⟩ := advance_inv he
    rw [(advance_account (k := k) hpos i).exec_time]
    split
    · rename_i hi
      rw [← hi] at hpos
      rcases hcr l a st hpos with rfl | rfl <;> rfl
    · rfl
  case sendsig n =>
    obtain rfl := Option.some.inj he
    unfold sendsig
    grind -ring -linarith [Proc.kill, Proc.background, Proc.foreground, Proc.custom]
  all_goals
    simp only [effect, act_eq_some] at he
    obtain ⟨l, -, -, rfl⟩ := he
    rw [Machine.set_proc]
    split <;> rfl

/-- Process `i` under the limit `n`: each interrupt has been charged, its creator has
written what it writes of the books, and at the limit only `exit` is left to it. -/
structure Within (n : Int) (i : Slot) (s : Timed) : Prop where
  exec_time : (s.m.proc i).exec_time = n
  total : (s.m.proc i).total_ticks = s.hits i
  creators : ∀ l a st, (s.m.proc l).pos = .creating i a st → st = .files ∨ st = .ready
  current : n ≤ s.hits i → s.m.cpu 0 = some i → Late (s.m.proc i)
  bound : s.hits i ≤ n

theorem Within.creators_step {n : Int} {s : Timed} {t : Machine} (h : Within n i s)
    (he : effect k e s.m = some t) (hp : t.panicked = none) (hn : (t.proc i).pid ≠ s.m.nextpid) :
    ∀ l a st, (t.proc l).pos = .creating i a st → st = .files ∨ st = .ready := by
  intro l a st hl
  by_cases hadv : ∃ c, e = .advance c
  · obtain ⟨c, rfl⟩ := hadv
    obtain ⟨m, np, b, st', -, hpos, rfl⟩ := advance_inv he
    rw [advance_pos hpos] at hl
    split at hl
    · cases st' <;> simp only [Stage.next, Pos.creating.injEq, reduceCtorEq] at hl
      case files => exact Or.inr hl.2.2.symm
      all_goals
        have := h.creators m b _ (hl.1 ▸ hpos)
        simp at this
    · exact h.creators l a st hl
  · have hadv' : ∀ c, e ≠ .advance c := fun c hc => hadv ⟨c, hc⟩
    have hs := (creating_step he hadv' hp hl).resolve_right fun hs => hn hs.2
    exact h.creators l a st hs

/-- The creator does not write the limit again. -/
theorem Within.not_limits {n : Int} {s : Timed} (h : Within n i s) (e : Event) :
    limits s.m e ≠ some i := by
  intro hcr
  unfold limits at hcr
  split at hcr <;> try cases hcr
  split at hcr <;> try cases hcr
  split at hcr <;> cases hcr
  rename_i hpos
  have := h.creators _ _ _ hpos
  simp at this

theorem Within.not_creates {n : Int} {s : Timed} (h : Within n i s) (e : Event) :
    creates s.m e ≠ some i := by
  intro hcr
  unfold creates at hcr
  split at hcr <;> try cases hcr
  split at hcr <;> try cases hcr
  split at hcr <;> cases hcr <;> rename_i hpos <;> have := h.creators _ _ _ hpos <;> simp at this

/-- A process that is interrupted was not yet interrupted `n` times. -/
theorem Within.bound_step {n : Int} {s t : Timed} (h : Within n i s)
    (hsolo : ∀ d, d ≠ 0 → s.m.cpu d = none) (hs : Timed.Step k s e t) : t.hits i ≤ n := by
  obtain ⟨m, hm, rfl⟩ := Option.map_eq_some_iff.1 hs
  have he := effect_of_step (show Step k s.m e m from hm)
  simp only
  rw [if_neg (h.not_limits e)]
  by_cases hint : interrupted s.m e = some i
  · obtain ⟨c, rfl⟩ : ∃ c, e = .timer c := by
      cases e <;> first | exact ⟨_, rfl⟩ | cases hint
    have hcpu : s.m.cpu c = some i := hint
    obtain rfl : c = 0 := by
      by_contra hc0
      rw [hsolo c hc0] at hcpu
      cases hcpu
    rw [if_pos hint]
    by_contra hlt
    push_cast at hlt
    -- at its limit the process has no interrupts
    have hlate := h.current (by omega) hcpu
    simp only [effect, act_eq_some] at he
    obtain ⟨l, hl, hg, -⟩ := he
    obtain rfl : l = i := Option.some.inj (hl.symm.trans hcpu)
    rcases hlate with ⟨-, hcli⟩ | hex
    · simp [hcli] at hg
    · simp [hex] at hg
  · rw [if_neg hint]
    exact h.bound

/-- **One step under the limit.** -/
theorem Within.step {n : Int} {s t : Timed} (h : Within n i s) (hn : 0 < n)
    (hsolo : ∀ d, d ≠ 0 → s.m.cpu d = none) (hc : Counting i s e) (hs : Timed.Step k s e t)
    (hp : t.m.panicked = none) (hpid : (t.m.proc i).pid ≠ s.m.nextpid) : Within n i t := by
  have hbound := h.bound_step hsolo hs
  obtain ⟨m, hm, rfl⟩ := Option.map_eq_some_iff.1 hs
  have he := effect_of_step (show Step k s.m e m from hm)
  simp only at hp hpid hbound
  have hcre := h.not_creates e
  have hlim := h.not_limits e
  have htotal := total_step he i
  rw [if_neg hcre] at htotal
  have hlate : Late (s.m.proc i) → Late (m.proc i) := fun hl => late_step he hl hpid
  have hexec := (exec_time_step he h.creators).trans h.exec_time
  have hcreators := h.creators_step he hp hpid
  by_cases hint : interrupted s.m e = some i
  · -- the timer interrupts the process, and charges it
    obtain ⟨c, rfl⟩ : ∃ c, e = .timer c := by
      cases e <;> first | exact ⟨_, rfl⟩ | cases hint
    have hcpu : s.m.cpu c = some i := hint
    obtain rfl : c = 0 := by
      by_contra hc0
      rw [hsolo c hc0] at hcpu
      cases hcpu
    obtain ⟨hrun, hsus⟩ := hc.2 hint
    simp only [if_pos (show Charges s.m 0 i from ⟨hcpu, hrun, hsus⟩)] at htotal
    refine ⟨hexec, ?_, hcreators, fun hle hi' => ?_, hbound⟩
    · simp only [if_neg hlim, if_pos hint]
      rw [htotal, h.total]
    · simp only [if_neg hlim, if_pos hint] at hle
      by_cases hle' : n ≤ s.hits i
      · exact hlate (h.current hle' hcpu)
      · -- the last charge: the process exits or leaves the CPU
        simp only [effect, act_eq_some] at he
        obtain ⟨l, hl, -, rfl⟩ := he
        obtain rfl : l = i := Option.some.inj (hl.symm.trans hcpu)
        rcases timer_cases 0 l s.m with ⟨-, -, ht⟩ | ⟨-, ht⟩ | ⟨hnr, -⟩
        · rw [ht]
          exact Or.inl (by simp)
        · simp only [ht] at hi'
          simp at hi'
        · exact absurd hrun hnr
  · -- no interrupt: the count and the ticks stay
    have hto : (m.proc i).total_ticks = (s.m.proc i).total_ticks := by
      rw [htotal]
      cases e <;> try rfl
      case timer c =>
        simp only
        rw [if_neg]
        · rfl
        · intro hch
          exact hint hch.1
    refine ⟨hexec, ?_, hcreators, fun hle hi' => ?_, hbound⟩
    · simp only [if_neg hlim, if_neg hint]
      rw [hto, h.total]
    · simp only [if_neg hlim, if_neg hint] at hle
      rcases current_step he hp hi' with hi | ⟨-, hex, -⟩
      · exact hlate (h.current hle hi)
      · -- the scheduler runs no process at its limit
        have : (s.m.proc i).expired = true := by
          unfold Proc.expired
          rw [h.exec_time, h.total]
          simp [hn, hle]
        rw [hex] at this
        cases this

/-- A run of the timed machine is a run of the machine. -/
theorem Timed.run_m {ok : Timed → Event → Prop} {es : List Event} {s t : Timed}
    (h : Run (Guarded (Timed.Step k) ok) s es t) : Run (Signal.Step k) s.m es t.m := by
  have hR : ∀ (s : Timed) (a : Machine) (e : Event) (t : Timed), s.m = a →
      Guarded (Timed.Step k) ok s e t → ∃ b, Signal.Step k a e b ∧ t.m = b := by
    rintro s a e t rfl hst
    obtain ⟨m, hm, rfl⟩ := Option.map_eq_some_iff.1 hst.2
    exact ⟨m, hm, rfl⟩
  obtain ⟨b, hb, rfl⟩ := h.refine hR s.m rfl
  exact hb

theorem nest_boot (k : Config) : Nest (boot k) := by
  refine ⟨fun d _ => rfl, fun i hi => ?_, (sound_boot k).nursery rfl, fun i hi => ?_⟩
  · cases hi
  · rcases boot_state k i with hs | hs <;> rw [hs] at hi <;> cases hi

/-- In a run on one CPU, `custom_fork` has just written the limit `n` of process `i`. -/
def Created (k : Config) (n : Int) (i : Slot) (t : Timed) : Prop :=
  ∃ es s j a, Run (Guarded (Timed.Step k) Plain) (Timed.boot k) es s ∧ s.m.cpu 0 = some j ∧
    (s.m.proc j).pos = .creating i (some a) .linking ∧ a.exec_time = n ∧
    Timed.Step k s (.advance 0) t

/-- **The limit is enforced.** On one CPU, when no signal from the console makes a process
RUNNABLE before it is created: let `custom_fork` write the limit `n` of process `i`, and
let every later interrupt of the timer find it RUNNING and not suspended. It is interrupted
`n` times at most, and once it has been interrupted `n` times it is never in user mode. -/
theorem exec_time_enforced {n : Int} {fs : List Event} {t u : Timed} (hc : Created k n i t)
    (hn : 0 < n) (hfs : Run (Guarded (Timed.Step k) (Counting i)) t fs u)
    (hpid : (u.m.proc i).pid = (t.m.proc i).pid) :
    (u.hits i : Int) ≤ n ∧ (n ≤ u.hits i → ¬ InUser u.m i) := by
  obtain ⟨es, s, j, a, hrun, hj, hpos, rfl, ht⟩ := hc
  have hrun' := Timed.run_m hrun
  have hlt := pid_lt_nextpid hrun'
  have hnest : 0 < s.m.nextpid ∧ (s.m.panicked = none → Nest s.m) := by
    refine hrun.invariant (P := fun s => 0 < s.m.nextpid ∧ (s.m.panicked = none → Nest s.m))
      (fun v e w hst h => ?_) ⟨Nat.zero_lt_two, fun _ => nest_boot k⟩
    obtain ⟨m, hm, rfl⟩ := Option.map_eq_some_iff.1 hst.2
    have hpn := (pid_step (show Step k v.m e m from hm) i).1
    exact ⟨by simp only; omega, fun hp =>
      (h.2 (not_panicked_of_step hm)).step hst.1.1 hst.1.2 hm h.1 hp⟩
  obtain ⟨m, hm, rfl⟩ := Option.map_eq_some_iff.1 ht
  have hN := hnest.2 (not_panicked_of_step hm)
  have hadv : advance k j s.m = m := by
    obtain ⟨l, _, _, _, hl, -, hlm⟩ :=
      advance_inv (effect_of_step (show Step k s.m (.advance 0) m from hm))
    obtain rfl : l = j := Option.some.inj (hl.symm.trans hj)
    exact hlm
  have hpids : (m.proc i).pid = (s.m.proc i).pid ∧ m.nextpid = s.m.nextpid := by
    subst hadv
    have hf := (Stage.write_flags k j (s.m.proc j) (some a) (s.m.proc i) .linking)
    constructor
    · simp only [advance, hpos, Machine.set_proc]
      grind -ring -linarith
    · simp only [advance, hpos]
      rfl
  have hP0 := hN.pid i (hN.nursery.embryo j i _ _ hpos)
  have hW : Within a.exec_time i ⟨m, fun l => if limits s.m (.advance 0) = some l then 0
      else if interrupted s.m (.advance 0) = some l then s.hits l + 1 else s.hits l⟩ := by
    have hh : limits s.m (.advance 0) = some i := by simp [limits, hj, hpos]
    subst hadv
    have hacc := advance_account (k := k) hpos i
    rw [if_pos rfl] at hacc
    refine ⟨hacc.exec_time, ?_, fun l b st hl => ?_, fun hle => ?_, ?_⟩
    · simp only [if_pos hh]
      exact hacc.total_ticks
    · simp only at hl
      rw [advance_pos hpos] at hl
      split at hl
      · simp only [Stage.next, Pos.creating.injEq] at hl
        exact Or.inl hl.2.2.symm
      · -- a slot has one creator
        rename_i hlj
        exact absurd (hN.nursery.creator l j i _ _ _ _ hl hpos) hlj
    · simp only [if_pos hh] at hle
      omega
    · simp only [if_pos hh]
      omega
  simp only at hpid
  -- up to `u` the slot has another pid, or the process is under its limit
  have hinv : (s.m.proc i).pid < u.m.nextpid ∧ (∀ d, d ≠ 0 → u.m.cpu d = none) ∧
      ((u.m.proc i).pid = (s.m.proc i).pid → (u.m.panicked = none → Within a.exec_time i u) ∧
        (u.hits i : Int) ≤ a.exec_time) := by
    refine hfs.invariant (P := fun u => (s.m.proc i).pid < u.m.nextpid ∧
      (∀ d, d ≠ 0 → u.m.cpu d = none) ∧ ((u.m.proc i).pid = (s.m.proc i).pid →
        (u.m.panicked = none → Within a.exec_time i u) ∧ (u.hits i : Int) ≤ a.exec_time))
      (fun v e w hst h => ?_) ⟨?_, ?_, fun _ => ⟨fun _ => hW, hW.bound⟩⟩
    · obtain ⟨m', hm', hw⟩ := Option.map_eq_some_iff.1 hst.2
      have hwm : w.m = m' := by rw [← hw]
      have hst' : Step k v.m e w.m := by
        rw [hwm]
        exact hm'
      have hpn := pid_step hst' i
      obtain ⟨h1, h2, h3⟩ := h
      refine ⟨by omega, solo_step (effect_of_step hst') hst.1.1 h2, fun hpw => ?_⟩
      have hv : (v.m.proc i).pid = (s.m.proc i).pid := by omega
      have hWv := (h3 hv).1 (not_panicked_of_step hst')
      exact ⟨fun hp => hWv.step hn h2 hst.1 hst.2 hp (by omega), hWv.bound_step h2 hst.2⟩
    · simp only
      rw [hpids.2]
      exact hlt i
    · simp only
      rw [← hadv]
      simp only [advance, hpos]
      exact hN.solo
  have hiu : (u.m.proc i).pid = (s.m.proc i).pid := hpid.trans hpids.1
  refine ⟨(hinv.2.2 hiu).2, ?_⟩
  rintro hle ⟨hp, hc, hus⟩
  rcases ((hinv.2.2 hiu).1 hp).current hle hc with ⟨hx, -⟩ | hx <;> rw [hus] at hx <;> cases hx

/-! ## A child with one tick -/

/-- The shell is in `custom_fork(0, 1)`, about to write the limit of process 3. -/
def limiting : List Event :=
  startShell ++ [Event.round 0, .forkret 0, .enter 0, .fork 0 (some ⟨0, 1⟩)] ++
    List.replicate 5 (Event.advance 0)

/-- The rest of the creation, up to the child's first step in user mode. -/
def childRuns : List Event :=
  [.advance 0, .advance 0, .wait 0, .round 0, .retest 0, .trapret 0, .enter 0, .sleep 0 7,
    .round 0, .forkret 0]

theorem limiting_created : ∃ t, Created xv6 1 2 t ∧
    ((execIf (Timed.step xv6) Plain limiting (Timed.boot xv6)).bind
      (Timed.step xv6 (.advance 0))) = some t := by
  have hx : ((execIf (Timed.step xv6) Plain limiting (Timed.boot xv6)).bind fun s =>
      (Timed.step xv6 (.advance 0) s).map fun _ =>
        (decide (s.m.cpu 0 = some 1),
          decide ((s.m.proc 1).pos = .creating 2 (some ⟨0, 1⟩) .linking))) =
      some (true, true) := by decide +kernel
  obtain ⟨s, hs, hx⟩ := Option.bind_eq_some_iff.1 hx
  obtain ⟨t, ht, hx⟩ := Option.map_eq_some_iff.1 hx
  simp only [Prod.mk.injEq, decide_eq_true_eq] at hx
  refine ⟨t, ⟨_, s, 1, _, run_of_execIf hs, hx.1, hx.2, rfl, ht⟩, ?_⟩
  rw [hs]
  exact ht

/-- The child is interrupted in user mode, and exits. -/
theorem exec_time_enforced_once : ∃ u : Timed, u.hits 2 = 1 ∧ (u.m.proc 2).pid = 3 ∧
    ¬ InUser u.m 2 := by
  have hx : ((execIf (Timed.step xv6) Plain limiting (Timed.boot xv6)).bind
      (Timed.step xv6 (.advance 0))).bind (fun t =>
        (execIf (Timed.step xv6) (Counting 2) (childRuns ++ [Event.timer 0]) t).map fun u =>
          (u.hits 2, (u.m.proc 2).pid, (t.m.proc 2).pid)) = some (1, 3, 3) := by decide +kernel
  obtain ⟨t, ht, hx⟩ := Option.bind_eq_some_iff.1 hx
  obtain ⟨u, hu, hx⟩ := Option.map_eq_some_iff.1 hx
  simp only [Prod.mk.injEq] at hx
  obtain ⟨t', hc, ht'⟩ := limiting_created
  obtain rfl : t' = t := Option.some.inj (ht'.symm.trans ht)
  have h := exec_time_enforced hc Int.one_pos (run_of_execIf hu) (hx.2.1.trans hx.2.2.symm)
  refine ⟨u, hx.1, hx.2.1, h.2 ?_⟩
  rw [hx.1]
  rfl

/-- SIGBG and SIGFG come while the child, with a limit of one tick, is in a system call: the
timer then finds it RUNNABLE on the CPU and neither charges nor preempts it, in the call and
in user mode. -/
theorem limit_exceeded : ∃ t fs u, Created xv6 1 2 t ∧ Run (Guarded (Timed.Step xv6) Plain) t fs u ∧
    (u.m.proc 2).pid = (t.m.proc 2).pid ∧ u.hits 2 = 2 ∧ InUser u.m 2 := by
  obtain ⟨t', hc, ht'⟩ := limiting_created
  have hx : ((execIf (Timed.step xv6) Plain limiting (Timed.boot xv6)).bind
      (Timed.step xv6 (.advance 0))).bind (fun t =>
        (execIf (Timed.step xv6) Plain (childRuns ++
          [Event.enter 0, .sendsig 2, .sendsig 3, .timer 0, .leave 0, .trapret 0, .timer 0,
            .retest 0, .trapret 0]) t).map fun u =>
          ((u.m.proc 2).pid == (t.m.proc 2).pid, u.hits 2,
            decide (u.m.panicked = none ∧ u.m.cpu 0 = some 2 ∧ (u.m.proc 2).pos = .user))) =
      some (true, 2, true) := by decide +kernel
  obtain ⟨t, ht, hx⟩ := Option.bind_eq_some_iff.1 hx
  obtain ⟨u, hu, hx⟩ := Option.map_eq_some_iff.1 hx
  simp only [Prod.mk.injEq, beq_iff_eq, decide_eq_true_eq] at hx
  obtain rfl : t' = t := Option.some.inj (ht'.symm.trans ht)
  exact ⟨t', _, u, hc, run_of_execIf hu, hx.1, hx.2.1, hx.2.2⟩

end Xv6.Signal
