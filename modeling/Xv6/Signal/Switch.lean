/-
Who pays for a context switch.

Each scheduler keeps the process it ran last in `prev_proc`, as a pointer into the table,
and counts a switch on it when it dispatches another one. The kernel of `Step` runs here
with the clock and the metrics, and beside it goes what the source does not keep: the pid
that each CPU ran last, how many switches each pid has had, and the slots whose count was
set to 0 since they got their pid.
-/
import Xv6.Signal.Clock
import Xv6.Signal.Schedule

set_option autoImplicit false

namespace Xv6.Signal

open Xv6.Lib

/-! ## The steps -/

/-- `ticks++`, which CPU 0 does. -/
def Sched.tick (c : Nat) (s : Sched) : Sched :=
  if c = 0 then { s with ticks := s.ticks + 1 } else s

/-- The timer finds the process of CPU `c` at its limit. -/
def Sched.limit (c : Nat) (s : Sched) : Sched :=
  match s.m.cpu c with
  | some i =>
    let p := s.m.proc i
    if p.state = .RUNNING ∧ p.suspended = false ∧ p.charge.expired = true then
      s.setMetrics i fun x => { x with end_time := s.ticks }
    else s
  | none => s

/-- The clock and the metrics, in an event other than a round. `allocproc` writes the
metrics in two stages, and `custom_fork` some of them once more. -/
def Sched.beat (s : Sched) (e : Event) : Sched :=
  match e with
  | .timer c => (s.tick c).limit c
  | .advance c =>
    match s.m.cpu c with
    | some i =>
      match (s.m.proc i).pos with
      | .creating np _ .ticks =>
        s.setMetrics np fun x => { x with creation_time := s.ticks, end_time := 0 }
      | .creating np _ .waiting =>
        s.setMetrics np fun x =>
          { x with context_switches := 0, first_scheduled := false, response_time := 0 }
      | .creating np (some _) .linking =>
        s.setMetrics np fun x =>
          { x with creation_time := s.ticks, context_switches := 0, first_scheduled := false }
      | _ => s
    | none => s
  | _ => s

/-- One step. -/
def Sched.step (k : Config) (b : Beat) (s : Sched) : Option Sched :=
  match b with
  | .kernel (.round c) =>
    if s.m.panicked = none ∧ s.m.cpu c = none then some (scheduler k c s) else none
  | .kernel e => (Signal.step k e s.m).map fun m => { s.beat e with m := m }
  | .idle =>
    if s.m.cpu 0 = none ∧ s.m.panicked = none then some { s with ticks := s.ticks + 1 } else none
  | .stamp c =>
    (s.m.reporting c).map fun i => s.setMetrics i fun x => { x with end_time := s.ticks }
  | .measure c => (s.m.reporting c).map fun _ => s
  | .report c => (s.m.reporting c).map fun _ => s

/-- The slot that `wait` frees. -/
def reaped (m : Machine) : Event → Option Slot
  | .wait c =>
    match m.cpu c with
    | some i => m.find fun p => p.parent == some i && p.state == .ZOMBIE
    | none => none
  | _ => none

/-- The slot that `allocproc` takes. -/
def taken (m : Machine) : Event → Option Slot
  | .fork _ _ => m.find fun p => p.state == .UNUSED
  | _ => none

/-- The process whose `context_switches` a stage of its creation sets to 0. -/
def zeroed (m : Machine) : Event → Option Slot
  | .advance c =>
    match m.cpu c with
    | some i =>
      match (m.proc i).pos with
      | .creating np _ .waiting | .creating np (some _) .linking => some np
      | _ => none
    | none => none
  | _ => none

/-- The kernel and the books that the source does not keep. -/
structure Ledger where
  sys : Sched
  /-- The pid that each CPU ran last. -/
  ran : Nat → Option Nat
  /-- How often a scheduler that ran this pid last has counted a switch. -/
  switches : Nat → Nat
  /-- The slots whose count was set to 0 since their pid was assigned. -/
  born : Slot → Bool

/-- The slot whose `context_switches` is another one after the round. -/
def charged (s t : Sched) : Option Slot :=
  (List.finRange NPROC).find? fun q =>
    (t.metrics q).context_switches != (s.metrics q).context_switches

/-- A round of CPU `c` that leads to `t`, in the books. -/
def Ledger.round (c : Nat) (u : Ledger) (t : Sched) : Ledger :=
  { u with
    sys := t
    ran := fun d =>
      if d = c ∧ t.m.panicked = none then
        match t.m.cpu c with
        | some i => some (t.m.proc i).pid
        | none => u.ran d
      else u.ran d
    switches := fun p =>
      if (charged u.sys t).isSome ∧ u.ran c = some p then u.switches p + 1 else u.switches p }

/-- Another event that leads to `t`, in the books. -/
def Ledger.note (e : Event) (u : Ledger) (t : Sched) : Ledger :=
  { u with
    sys := t
    born := fun q =>
      if zeroed u.sys.m e = some q then true
      else if reaped u.sys.m e = some q ∨ taken u.sys.m e = some q then false
      else u.born q }

def Ledger.step (k : Config) (b : Beat) (u : Ledger) : Option Ledger :=
  (u.sys.step k b).map fun t =>
    match b with
    | .kernel (.round c) => u.round c t
    | .kernel e => u.note e t
    | _ => { u with sys := t }

def Ledger.Step (k : Config) (u : Ledger) (b : Beat) (v : Ledger) : Prop := u.step k b = some v

/-- After `userinit`. -/
def Ledger.boot (k : Config) : Ledger where
  sys := Sched.boot k
  ran _ := none
  switches _ := 0
  born i := i = 0

/-- The condition on a step: no scheduler still remembers the slot that `wait` frees or
`allocproc` takes. -/
def Forgotten (u : Ledger) : Beat → Prop
  | .kernel e => ∀ q, reaped u.sys.m e = some q ∨ taken u.sys.m e = some q →
      ∀ c, u.sys.prev_proc c ≠ some q
  | _ => True

variable {k : Config} {c d : Nat} {s t : Sched} {m m' : Machine} {i j q : Slot} {e : Event}
  {b : Beat} {u v : Ledger}

/-! ## Pids -/

theorem set_pid {f : Proc → Proc} (hf : ∀ p, (f p).pid = p.pid) (i j : Slot) :
    ((m.set i f).proc j).pid = (m.proc j).pid := by
  rw [Machine.set_proc]
  split
  · exact hf _
  · rfl

theorem sleep_pid (c : Nat) (i : Slot) (ch : Chan) (j : Slot) :
    ((sleep c i ch m).proc j).pid = (m.proc j).pid := by
  unfold sleep
  rw [Machine.setCpu_proc]
  apply set_pid
  exact fun _ => rfl

theorem boost_pid (k : Config) (p : Proc) : (p.boost k).pid = p.pid := by
  unfold Proc.boost
  split
  · rfl
  · rfl

theorem expire_pid (p : Proc) : p.expire.pid = p.pid := by
  unfold Proc.expire
  split
  · rfl
  · rfl

theorem dispatch_pid (c : Nat) (i j : Slot) : ((dispatch c i m).proc j).pid = (m.proc j).pid := by
  rw [dispatch_proc]
  split
  · split
    · rfl
    · rfl
  · rfl

theorem round_pid (k : Config) (c : Nat) (j : Slot) :
    ((round k c m).proc j).pid = (m.proc j).pid := by
  have haged : ((m.aged k).proc j).pid = (m.proc j).pid :=
    (expire_pid _).trans (boost_pid k _)
  unfold round
  split
  · rw [dispatch_pid, haged]
  · exact haged

theorem sendsig_pid (n : Nat) (j : Slot) : ((sendsig n m).proc j).pid = (m.proc j).pid := by
  unfold sendsig
  split_ifs
  · rw [Machine.each_proc]
    split
    · rfl
    · rfl
  · rw [Machine.each_proc]
    unfold Proc.background
    split_ifs
    all_goals rfl
  · rw [Machine.each_proc]
    unfold Proc.foreground
    split
    · rfl
    · rfl
  · rw [Machine.each_proc]
    unfold Proc.custom
    split
    · rfl
    · rfl
  · rfl

theorem woken_pid {p q : Proc} (h : Woken p q) : q.pid = p.pid := by
  obtain ⟨st, -, rfl⟩ := h
  rfl

theorem reparent_pid (i init : Slot) (p : Proc) : (p.reparent i init).pid = p.pid := by
  unfold Proc.reparent
  split
  · rfl
  · rfl

theorem charge_pid (p : Proc) : p.charge.pid = p.pid := by
  unfold Proc.charge
  split
  · rfl
  · rfl

theorem write_pid (k : Config) (i : Slot) (cur : Proc) (a : Option ForkArgs) (p : Proc)
    (st : Stage) : (st.write k i cur a p).pid = p.pid := by
  cases st <;> cases a <;> rfl

/-- **What keeps a pid**: everything but `wait` on the slot it frees and `allocproc` on the slot
it takes. -/
theorem pid_kept (he : effect k e m = some m') (hr : reaped m e ≠ some j)
    (ht : taken m e ≠ some j) : (m'.proc j).pid = (m.proc j).pid := by
  cases e <;> simp only [effect, act_eq_some, Option.some.injEq] at he
  case round c =>
    split at he
    · obtain rfl := Option.some.inj he
      exact round_pid k c j
    · cases he
  case timer c =>
    obtain ⟨i, -, -, rfl⟩ := he
    rcases timer_cases c i m with ⟨-, -, h⟩ | ⟨-, h⟩ | ⟨-, h⟩
    · rw [h]
      apply set_pid
      exact charge_pid
    · rw [h, Machine.setCpu_proc]
      apply set_pid
      exact charge_pid
    · rw [h]
      apply set_pid
      exact charge_pid
  case wakeup a =>
    subst he
    exact woken_pid (Woken.of_cases (wakeup1_proc (some (.addr a)) m j))
  case retest c =>
    obtain ⟨i, -, -, rfl⟩ := he
    rcases retest_cases c i m with ⟨-, h⟩ | h
    · rw [h, Machine.setCpu_proc]
      apply set_pid
      exact fun _ => rfl
    · rw [h]
      apply set_pid
      exact fun _ => rfl
  case exitDone c =>
    obtain ⟨i, -, -, rfl⟩ := he
    split
    · rfl
    · by_cases hji : j = i
      · subst hji
        rw [exitDone_self]
        exact reparent_pid j m.initproc (m.proc j)
      · exact (woken_pid (exitDone_other hji)).trans (reparent_pid i m.initproc (m.proc j))
  case wait c =>
    obtain ⟨i, hi, -, rfl⟩ := he
    simp only [reaped, hi] at hr
    unfold wait
    split
    · next l hl =>
      rw [hl] at hr
      -- the slot that is freed is another one
      rw [Machine.set_proc, if_neg fun h => hr (congrArg some h.symm)]
    · split
      · rfl
      · exact sleep_pid c i (.proc i) j
  case kill c pid =>
    obtain ⟨i, -, -, rfl⟩ := he
    rcases kill_cases pid m with h | ⟨l, -, h⟩
    · rw [h]
    · rw [h]
      apply set_pid
      exact fun _ => rfl
  case fork c a =>
    obtain ⟨i, -, -, rfl⟩ := he
    simp only [taken] at ht
    unfold allocproc
    split
    · next np hnp =>
      rw [hnp] at ht
      -- the slot that is taken is another one
      have hne : ((m.set np (Proc.alloc m.nextpid a)).proc j) = m.proc j :=
        if_neg fun h => ht (congrArg some h.symm)
      rw [← hne]
      change (((m.set np (Proc.alloc m.nextpid a)).set i
        fun p => { p with pos := .creating np a .stack }).proc j).pid = _
      apply set_pid
      exact fun _ => rfl
    · rfl
  case advance c =>
    obtain ⟨i, -, hg, rfl⟩ := he
    obtain ⟨np, a, st, -, h⟩ := advance_cases k hg
    rw [h]
    have hnp : ((m.set np fun p => st.write k i (m.proc i) a p).proc j).pid = (m.proc j).pid := by
      apply set_pid
      exact fun p => write_pid k i (m.proc i) a p st
    rw [← hnp]
    apply set_pid
    exact fun _ => rfl
  case fail c =>
    obtain ⟨i, -, hg, rfl⟩ := he
    obtain ⟨np, a, st, -, -, h⟩ := failFork_cases hg
    rw [h]
    have hnp : ((m.set np (if st = .stack then Proc.noStack else Proc.noCopy)).proc j).pid =
        (m.proc j).pid := by
      apply set_pid
      intro p
      split
      · rfl
      · rfl
    rw [← hnp]
    apply set_pid
    exact fun _ => rfl
  case sendsig n =>
    subst he
    exact sendsig_pid n j
  case sleep c a =>
    obtain ⟨i, -, -, rfl⟩ := he
    exact sleep_pid c i (.addr a) j
  case scheduler_start c =>
    obtain ⟨i, -, -, rfl⟩ := he
    rfl
  case resumeExit c =>
    obtain ⟨i, -, -, rfl⟩ := he
    rfl
  all_goals
    obtain ⟨i, -, -, rfl⟩ := he
    apply set_pid
    exact fun _ => rfl

/-! ## A round -/

/-- What a round does to the books of the source: no pid changes, and if a process is
dispatched without a panic, it is remembered, and its predecessor is charged. -/
structure Rounds (c : Nat) (s t : Sched) : Prop where
  pid : ∀ j, (t.m.proc j).pid = (s.m.proc j).pid
  prev : ∀ d q, t.prev_proc d = some q →
    s.prev_proc d = some q ∧ (d = c → t.m.cpu c = none ∨ t.m.panicked ≠ none) ∨
      d = c ∧ t.m.cpu c = some q ∧ t.m.panicked = none
  count : ∀ j, (t.metrics j).context_switches = (s.metrics j).context_switches ∨
    (t.metrics j).context_switches = (s.metrics j).context_switches + 1 ∧ s.prev_proc c = some j

theorem dispatch_panicked (c : Nat) (i : Slot) (hp : m.panicked = none) :
    (dispatch c i m).panicked = none ↔
      ((m.proc i).kstack && (m.proc i).pgdir.isSome) = true := by
  unfold dispatch
  cases hk : (m.proc i).kstack <;> cases hd : (m.proc i).pgdir <;> simp [hk, hd, hp]

theorem countSwitch_count (c : Nat) (i : Slot) (s : Sched) (j : Slot) :
    ((countSwitch c i s).metrics j).context_switches = (s.metrics j).context_switches ∨
      ((countSwitch c i s).metrics j).context_switches = (s.metrics j).context_switches + 1 ∧
        s.prev_proc c = some j := by
  unfold countSwitch
  split
  · next q hq =>
    split
    · rw [Sched.setMetrics_metrics]
      split
      · next hj => exact Or.inr ⟨rfl, hj ▸ hq⟩
      · exact Or.inl rfl
    · exact Or.inl rfl
  · exact Or.inl rfl

theorem countSwitch_prev (c : Nat) (i : Slot) (s : Sched) :
    (countSwitch c i s).prev_proc = s.prev_proc := by
  unfold countSwitch
  split
  · split
    · rfl
    · rfl
  · rfl

theorem first_count (ticks : BitVec 32) (x : Metrics) :
    (x.first ticks).context_switches = x.context_switches := by
  unfold Metrics.first
  split
  · rfl
  · rfl

theorem run_rounds (c : Nat) (i : Slot) (hp : s.m.panicked = none) : Rounds c s (run c i s) := by
  have hfirst : ∀ j, ((s.setMetrics i (Metrics.first s.ticks)).metrics j).context_switches =
      (s.metrics j).context_switches := by
    intro j
    rw [Sched.setMetrics_metrics]
    split
    · exact first_count _ _
    · rfl
  have hpanic := dispatch_panicked c i hp
  refine ⟨fun j => by rw [run_m]; exact dispatch_pid c i j, fun d q hq => ?_, fun j => ?_⟩
  · rw [run_m, dispatch_cpu]
    unfold run at hq
    by_cases hk : ((s.m.proc i).kstack && (s.m.proc i).pgdir.isSome) = true
    · simp only [hk, if_true, Sched.setPrev_prev, countSwitch_prev] at hq
      split at hq
      · next hd => exact Or.inr ⟨hd, hq, hpanic.2 hk⟩
      · next hd => exact Or.inl ⟨hq, fun h => absurd h hd⟩
    · simp only [if_neg hk] at hq
      exact Or.inl ⟨hq, fun _ => Or.inr fun hn => hk (hpanic.1 hn)⟩
  · unfold run
    by_cases hk : ((s.m.proc i).kstack && (s.m.proc i).pgdir.isSome) = true
    · simp only [hk, if_true, Sched.setPrev_metrics]
      have h := countSwitch_count c i
        { s.setMetrics i (Metrics.first s.ticks) with m := dispatch c i s.m } j
      rw [← hfirst j]
      exact h
    · simp only [if_neg hk]
      exact Or.inl (hfirst j)

theorem boostInt_pid (k : Config) (p : Proc) : (p.boostInt k).pid = p.pid := by
  unfold Proc.boostInt
  split
  · rfl
  · rfl

theorem scheduler_rounds (k : Config) (c : Nat) (hp : s.m.panicked = none)
    (hc : s.m.cpu c = none) : Rounds c s (scheduler k c s) := by
  set s1 := marked { s with m := boostLoop k s.m } (List.finRange NPROC).reverse with hs1
  -- the two loops before the choice keep the pids, the counts and the CPUs
  have hpid : ∀ j, (s1.m.proc j).pid = (s.m.proc j).pid := by
    intro j
    have hboost : ((boostLoop k s.m).proc j).pid = (s.m.proc j).pid := by
      rw [boostLoop_eq]
      exact boostInt_pid k _
    rw [← hboost, hs1]
    unfold marked
    simp only
    split
    · exact expire_pid _
    · rfl
  have hcount : ∀ j, (s1.metrics j).context_switches = (s.metrics j).context_switches := by
    intro j
    rw [hs1]
    unfold marked
    simp only
    split
    · rfl
    · rfl
  have hm : s1.m.panicked = s.m.panicked ∧ s1.m.cpu = s.m.cpu := by
    rw [hs1, boostLoop_eq]
    exact ⟨rfl, rfl⟩
  have hprev : s1.prev_proc = s.prev_proc := rfl
  rw [scheduler_loops]
  split
  · next i _ =>
    obtain ⟨h1, h2, h3⟩ := run_rounds c i (hm.1.trans hp)
    rw [hprev] at h2 h3
    refine ⟨fun j => (h1 j).trans (hpid j), h2, fun j => ?_⟩
    rw [← hcount j]
    exact h3 j
  · exact ⟨hpid, fun d q hq => Or.inl ⟨hq, fun _ => Or.inl (by rw [hm.2, hc])⟩,
      fun j => Or.inl (hcount j)⟩

/-! ## The invariant -/

/-- Each scheduler remembers the process that it ran last, and each count holds at most the
switches of its process. -/
structure Own (u : Ledger) : Prop where
  remembers : ∀ c q, u.sys.prev_proc c = some q → u.ran c = some (u.sys.m.proc q).pid
  counts : ∀ q, u.born q = true → ∃ n ≤ u.switches (u.sys.m.proc q).pid,
    (u.sys.metrics q).context_switches = BitVec.ofNat 32 n

theorem charged_isSome (h : (t.metrics q).context_switches ≠ (s.metrics q).context_switches) :
    (charged s t).isSome = true := by
  unfold charged
  rw [List.find?_isSome]
  exact ⟨q, List.mem_finRange q, bne_iff_ne.2 h⟩

theorem Own.round (h : Own u) (hR : Rounds c u.sys t) : Own (u.round c t) := by
  constructor
  · intro d q hq
    rw [show (u.round c t).sys = t from rfl] at hq ⊢
    unfold Ledger.round
    simp only
    -- `prev_proc` is as before, or is the process of this CPU
    rcases hR.prev d q hq with ⟨hold, hd⟩ | ⟨rfl, hcpu, hpanic⟩
    · have hran := h.remembers d q hold
      rw [hR.pid q]
      split
      · next hdc =>
        obtain ⟨rfl, hpanic⟩ := hdc
        rcases hd rfl with hcpu | hn
        · rw [hcpu]
          exact hran
        · exact absurd hpanic hn
      · exact hran
    · rw [if_pos ⟨rfl, hpanic⟩, hcpu]
  · intro q hq
    obtain ⟨n, hn, hcount⟩ := h.counts q hq
    change ∃ n ≤ (u.round c t).switches (t.m.proc q).pid,
      (t.metrics q).context_switches = BitVec.ofNat 32 n
    rw [hR.pid q]
    unfold Ledger.round
    simp only
    rcases hR.count q with hsame | ⟨hmore, hprev⟩
    · refine ⟨n, ?_, by rw [hsame, hcount]⟩
      split
      · omega
      · exact hn
    · -- the process that is charged is the one that this CPU ran
      have hne : (t.metrics q).context_switches ≠ (u.sys.metrics q).context_switches := by
        rw [hmore]
        intro he
        have := congrArg (fun x => x - (u.sys.metrics q).context_switches) he
        simp at this
      rw [if_pos ⟨charged_isSome hne, h.remembers c q hprev⟩]
      refine ⟨n + 1, by omega, ?_⟩
      rw [hmore, hcount, BitVec.ofNat_add]
      rfl

theorem tick_metrics (c : Nat) (s : Sched) : (s.tick c).metrics = s.metrics := by
  unfold Sched.tick
  split
  · rfl
  · rfl

theorem limit_count (c : Nat) (s : Sched) (q : Slot) :
    ((s.limit c).metrics q).context_switches = (s.metrics q).context_switches := by
  unfold Sched.limit
  split
  · simp only
    split
    · rw [Sched.setMetrics_metrics]
      split
      · rfl
      · rfl
    · rfl
  · rfl

theorem beat_prev (s : Sched) (e : Event) : (s.beat e).prev_proc = s.prev_proc := by
  unfold Sched.beat
  cases e <;> try rfl
  case timer c =>
    have htick : (s.tick c).prev_proc = s.prev_proc := by
      unfold Sched.tick
      split
      · rfl
      · rfl
    rw [← htick]
    simp only
    unfold Sched.limit
    split
    · simp only
      split
      · rfl
      · rfl
    · rfl
  case advance c =>
    simp only
    split
    · split
      all_goals rfl
    · rfl

theorem beat_count (s : Sched) (e : Event) (q : Slot) : ((s.beat e).metrics q).context_switches =
    if zeroed s.m e = some q then 0 else (s.metrics q).context_switches := by
  -- a write of other metrics, to any slot
  have hset : ∀ (u : Sched) (i : Slot) (f : Metrics → Metrics),
      (∀ x, (f x).context_switches = x.context_switches) →
      ((u.setMetrics i f).metrics q).context_switches = (u.metrics q).context_switches := by
    intro u i f hf
    rw [Sched.setMetrics_metrics]
    split
    · exact hf _
    · rfl
  have hzero : ∀ (np : Slot) (f : Metrics → Metrics), (∀ x, (f x).context_switches = 0) →
      ((s.setMetrics np f).metrics q).context_switches =
        if some np = some q then 0 else (s.metrics q).context_switches := by
    intro np f hf
    rw [Sched.setMetrics_metrics]
    by_cases hq : q = np
    · rw [if_pos hq, if_pos (congrArg some hq.symm)]
      exact hf _
    · rw [if_neg hq, if_neg fun h => hq (Option.some.inj h).symm]
  unfold Sched.beat
  cases e <;> try rfl
  case timer c =>
    have hz : zeroed s.m (.timer c) = none := rfl
    rw [hz, if_neg (Option.some_ne_none q).symm]
    exact (limit_count c _ q).trans (congrArg (fun x => (x q).context_switches) (tick_metrics c s))
  case advance c =>
    have hkeep : zeroed s.m (.advance c) = none → ∀ w : Sched,
        (w.metrics q).context_switches = (s.metrics q).context_switches →
        (w.metrics q).context_switches = if zeroed s.m (.advance c) = some q then 0
          else (s.metrics q).context_switches := by
      intro hz w hw
      rw [hz, if_neg (Option.some_ne_none q).symm, hw]
    simp only
    cases hc : s.m.cpu c with
    | none => exact hkeep (by simp only [zeroed, hc]) s rfl
    | some i =>
      simp only
      cases hpos : (s.m.proc i).pos with
      | creating np a st =>
        cases st with
        | ticks =>
          apply hkeep (by simp only [zeroed, hc, hpos])
          apply hset
          exact fun _ => rfl
        | waiting =>
          have hz : zeroed s.m (.advance c) = some np := by simp only [zeroed, hc, hpos]
          rw [hz]
          apply hzero
          exact fun _ => rfl
        | linking =>
          cases a with
          | none => exact hkeep (by simp only [zeroed, hc, hpos]) s rfl
          | some a =>
            have hz : zeroed s.m (.advance c) = some np := by simp only [zeroed, hc, hpos]
            rw [hz]
            apply hzero
            exact fun _ => rfl
        | _ => exact hkeep (by simp only [zeroed, hc, hpos]) s rfl
      | _ => exact hkeep (by simp only [zeroed, hc, hpos]) s rfl

/-- An event other than a round. -/
theorem Own.note (h : Own u) (hs : Signal.step k e u.sys.m = some m')
    (hF : Forgotten u (.kernel e)) : Own (u.note e { u.sys.beat e with m := m' }) := by
  have he : effect k e u.sys.m = some m' := effect_of_step hs
  constructor
  · intro c q hq
    have hq' : u.sys.prev_proc c = some q := (congrFun (beat_prev u.sys e) c).symm.trans hq
    have hpid := pid_kept he (fun hr => hF q (Or.inl hr) c hq') (fun ht => hF q (Or.inr ht) c hq')
    exact (h.remembers c q hq').trans (congrArg some hpid.symm)
  · intro q hq
    change ∃ n ≤ u.switches (m'.proc q).pid,
      ((u.sys.beat e).metrics q).context_switches = BitVec.ofNat 32 n
    rw [beat_count]
    by_cases hz : zeroed u.sys.m e = some q
    · exact ⟨0, Nat.zero_le _, if_pos hz⟩
    · have hborn : (if reaped u.sys.m e = some q ∨ taken u.sys.m e = some q then false
          else u.born q) = true := (if_neg hz).symm.trans hq
      rw [if_neg hz]
      by_cases hrt : reaped u.sys.m e = some q ∨ taken u.sys.m e = some q
      · rw [if_pos hrt] at hborn
        cases hborn
      · rw [if_neg hrt] at hborn
        rw [pid_kept he (fun hr => hrt (Or.inl hr)) fun ht => hrt (Or.inr ht)]
        exact h.counts q hborn

theorem Own.step (h : Own u) (hF : Forgotten u b) (hs : Ledger.Step k u b v) : Own v := by
  unfold Ledger.Step Ledger.step at hs
  obtain ⟨t, ht, rfl⟩ := Option.map_eq_some_iff.1 hs
  unfold Sched.step at ht
  cases b with
  | kernel e =>
    -- only a round counts a switch
    by_cases hr : ∃ c, e = .round c
    · obtain ⟨c, rfl⟩ := hr
      simp only at ht
      split at ht
      · next hok =>
        obtain rfl := Option.some.inj ht
        exact h.round (scheduler_rounds k c hok.1 hok.2)
      · cases ht
    · cases e <;> first
        | exact absurd ⟨_, rfl⟩ hr
        | skip
      all_goals
        obtain ⟨m', hm, rfl⟩ := Option.map_eq_some_iff.1 ht
        exact h.note hm hF
  | idle =>
    simp only at ht
    split at ht
    · obtain rfl := Option.some.inj ht
      exact ⟨h.remembers, h.counts⟩
    · cases ht
  | stamp c =>
    obtain ⟨i, -, rfl⟩ := Option.map_eq_some_iff.1 ht
    refine ⟨h.remembers, fun q hq => ?_⟩
    obtain ⟨n, hn, hcount⟩ := h.counts q hq
    refine ⟨n, hn, ?_⟩
    rw [← hcount]
    simp only [Sched.setMetrics_metrics]
    split <;> rfl
  | measure c =>
    obtain ⟨i, -, rfl⟩ := Option.map_eq_some_iff.1 ht
    exact ⟨h.remembers, h.counts⟩
  | report c =>
    obtain ⟨i, -, rfl⟩ := Option.map_eq_some_iff.1 ht
    exact ⟨h.remembers, h.counts⟩

theorem own_boot (k : Config) : Own (Ledger.boot k) :=
  ⟨fun _ _ hq => absurd hq.symm (Option.some_ne_none _), fun _ _ => ⟨0, le_rfl, rfl⟩⟩

/-- **Switches are charged to the process switched out**, in every run in which `wait` frees and
`allocproc` takes no slot that a scheduler remembers: a round of CPU `c` charges the pid that
`c` ran last, and no count holds more than the switches of its own pid. -/
theorem switches_charged {bs : List Beat}
    (h : Run (Guarded (Ledger.Step k) Forgotten) (Ledger.boot k) bs u) :
    (∀ c v, Ledger.Step k u (.kernel (.round c)) v → ∀ q,
      (v.sys.metrics q).context_switches ≠ (u.sys.metrics q).context_switches →
        u.ran c = some (u.sys.m.proc q).pid) ∧
    ∀ q, u.born q = true → ∃ n ≤ u.switches (u.sys.m.proc q).pid,
      (u.sys.metrics q).context_switches = BitVec.ofNat 32 n := by
  have hown : Own u := h.invariant (fun _ _ _ hs hI => hI.step hs.1 hs.2) (own_boot k)
  refine ⟨fun c v hs q hne => ?_, hown.counts⟩
  unfold Ledger.Step Ledger.step at hs
  obtain ⟨t, ht, hv⟩ := Option.map_eq_some_iff.1 hs
  have hsys : v.sys = t := by
    rw [← hv]
    rfl
  rw [hsys] at hne
  simp only [Sched.step] at ht
  split at ht
  · next hok =>
    obtain rfl := Option.some.inj ht
    rcases (scheduler_rounds k c hok.1 hok.2).count q with hsame | ⟨-, hprev⟩
    · exact absurd hsame hne
    · exact hown.remembers c q hprev
  · cases ht

/-! ## Two runs -/

/-- An event that neither frees a slot nor takes one. -/
def Beat.quiet : Beat → Bool
  | .kernel (.wait _) | .kernel (.fork _ _) => false
  | _ => true

theorem forgotten_of_quiet (h : b.quiet = true) : Forgotten u b := by
  cases b with
  | kernel e =>
    cases e <;> first
      | exact Bool.noConfusion h
      | exact fun q hq => absurd hq (by simp [reaped, taken])
  | idle | stamp c | measure c | report c => exact trivial

/-- The state after a list of events, all of which can happen. -/
def after (bs : List Beat) (u : Ledger) : Ledger := (exec (Ledger.step xv6) bs u).getD u

theorem exec_after {bs : List Beat} (h : (exec (Ledger.step xv6) bs u).isSome = true) :
    exec (Ledger.step xv6) bs u = some (after bs u) := by
  obtain ⟨v, hv⟩ := Option.isSome_iff_exists.1 h
  unfold after
  rw [hv]
  rfl

theorem run_of_quiet {bs : List Beat} (hq : ∀ b ∈ bs, b.quiet = true)
    (h : exec (Ledger.step k) bs u = some v) : Run (Guarded (Ledger.Step k) Forgotten) u bs v := by
  induction bs generalizing u with
  | nil =>
    obtain rfl := Option.some.inj h
    exact .nil u
  | cons b bs ih =>
    obtain ⟨w, hw, hv⟩ := Option.bind_eq_some_iff.1 h
    exact .cons ⟨forgotten_of_quiet (hq b List.mem_cons_self), hw⟩
      (ih (fun b' hb' => hq b' (List.mem_cons_of_mem b hb')) hv)

/-- A `fork` in a run: only CPU 0 has run a process, and that one is not in the slot it takes. -/
theorem run_of_fork {p : Slot} (hprev : ∀ c, u.sys.prev_proc c = if c = 0 then some p else none)
    (ht : taken u.sys.m (.fork 0 none) = some q) (hne : p ≠ q)
    (h : exec (Ledger.step k) [.kernel (.fork 0 none)] u = some v) :
    Run (Guarded (Ledger.Step k) Forgotten) u [.kernel (.fork 0 none)] v := by
  obtain ⟨w, hw, hv⟩ := Option.bind_eq_some_iff.1 h
  obtain rfl := Option.some.inj hv
  refine .cons ⟨fun q' hq' c hc => ?_, hw⟩ (.nil w)
  rcases hq' with hr | ht'
  · cases hr
  · obtain rfl := Option.some.inj (ht.symm.trans ht')
    rw [hprev c] at hc
    split at hc
    · exact hne (Option.some.inj hc)
    · cases hc

/-- init is in a system call. -/
def inCall : Ledger := after [.kernel (.round 0), .kernel (.forkret 0), .kernel (.enter 0)]
  (Ledger.boot xv6)

/-- A child is built, and its creator is back in user mode. -/
def built : List Beat :=
  List.replicate 8 (Beat.kernel (.advance 0)) ++ [Beat.kernel (.leave 0), .kernel (.trapret 0)]

def firstChild : Ledger := after (built ++ [Beat.kernel (.enter 0)])
  (after [.kernel (.fork 0 none)] inCall)

/-- The first child has run on CPU 0 and is preempted. -/
def childRan : Ledger := after
  (built ++ [Beat.kernel (.timer 0), .kernel (.round 0), .kernel (.forkret 0), .kernel (.timer 0)])
  (after [.kernel (.fork 0 none)] firstChild)

theorem childRan_run : ∃ bs, Run (Guarded (Ledger.Step xv6) Forgotten) (Ledger.boot xv6) bs
    childRan := by
  -- init is the only one that has run
  have hprev1 : ∀ c, inCall.sys.prev_proc c = if c = 0 then some 0 else none := fun _ => rfl
  have hprev2 : ∀ c, firstChild.sys.prev_proc c = if c = 0 then some 0 else none := fun _ => rfl
  have ht1 : taken inCall.sys.m (.fork 0 none) = some 1 := rfl
  have ht2 : taken firstChild.sys.m (.fork 0 none) = some 2 := rfl
  have h1 : Run (Guarded (Ledger.Step xv6) Forgotten) (Ledger.boot xv6) _ inCall :=
    run_of_quiet (by decide) (exec_after (by decide +kernel))
  have h2 : Run (Guarded (Ledger.Step xv6) Forgotten) inCall _ _ :=
    run_of_fork hprev1 ht1 (by decide) (exec_after (by decide +kernel))
  have h3 : Run (Guarded (Ledger.Step xv6) Forgotten) _ _ firstChild :=
    run_of_quiet (by decide) (exec_after (by decide +kernel))
  have h4 : Run (Guarded (Ledger.Step xv6) Forgotten) firstChild _ _ :=
    run_of_fork hprev2 ht2 (by decide) (exec_after (by decide +kernel))
  have h5 : Run (Guarded (Ledger.Step xv6) Forgotten) _ _ childRan :=
    run_of_quiet (by decide) (exec_after (by decide +kernel))
  exact ⟨_, (((h1.append h2).append h3).append h4).append h5⟩

/-- The next round dispatches the second child and charges the first one, pid 2. -/
theorem switches_charged_childRan : ∃ v, Ledger.Step xv6 childRan (.kernel (.round 0)) v ∧
    (v.sys.metrics 1).context_switches ≠ (childRan.sys.metrics 1).context_switches ∧
    childRan.ran 0 = some (childRan.sys.m.proc 1).pid := by
  obtain ⟨bs, hrun⟩ := childRan_run
  have hx : (childRan.step xv6 (.kernel (.round 0))).map (fun v =>
      ((v.sys.metrics 1).context_switches, (childRan.sys.metrics 1).context_switches)) =
        some (1, 0) := by decide +kernel
  obtain ⟨v, hv, hx⟩ := Option.map_eq_some_iff.1 hx
  have hne : (v.sys.metrics 1).context_switches ≠ (childRan.sys.metrics 1).context_switches := by
    rw [(Prod.mk.inj hx).1, (Prod.mk.inj hx).2]
    decide
  exact ⟨v, hv, hne, (switches_charged hrun).1 0 v hv 1 hne⟩

/-- The process of CPU 0 forks a child. -/
def forkChild : List Event :=
  [Event.enter 0, .fork 0 none] ++ List.replicate 8 (Event.advance 0) ++ [Event.leave 0, .trapret 0]

/-- init forks two children; the first one runs on CPU 1 and exits; init reaps it, and its
slot goes to a third child. -/
def reuseSlot : List Event :=
  [Event.round 0, .forkret 0] ++ forkChild ++ forkChild ++
    [Event.round 1, .forkret 1, .enter 1, .exit 1, .dropCwd 1, .exitDone 1] ++
    [Event.enter 0, .wait 0, .leave 0, .trapret 0] ++ forkChild

/-- Then CPU 1 dispatches the second child, and charges the third one, which has not run. -/
theorem reuseSlot_charged : ∃ u v, Run (Ledger.Step xv6) (Ledger.boot xv6) (reuseSlot.map Beat.kernel) u ∧
    Ledger.Step xv6 u (.kernel (.round 1)) v ∧
    (v.sys.metrics 1).context_switches ≠ (u.sys.metrics 1).context_switches ∧
    u.ran 1 = some 2 ∧ (u.sys.m.proc 1).pid = 4 := by
  have hx : ((exec (Ledger.step xv6) (reuseSlot.map Beat.kernel) (Ledger.boot xv6)).bind fun u =>
      (u.step xv6 (.kernel (.round 1))).map fun v =>
        ((v.sys.metrics 1).context_switches, (u.sys.metrics 1).context_switches, u.ran 1,
          (u.sys.m.proc 1).pid)) = some (1, 0, some 2, 4) := by decide +kernel
  obtain ⟨u, hu, hx⟩ := Option.bind_eq_some_iff.1 hx
  obtain ⟨v, hv, hx⟩ := Option.map_eq_some_iff.1 hx
  simp only [Prod.mk.injEq] at hx
  obtain ⟨h1, h0, hran, hpid⟩ := hx
  refine ⟨u, v, run_of_exec hu, hv, ?_, hran, hpid⟩
  rw [h1, h0]
  decide

end Xv6.Signal
