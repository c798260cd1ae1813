/-
The waiting time that `exit` prints.

`exit` stores `end_time`, computes TAT as the ticks since `creation_time` and WT as TAT
less `total_ticks`; the README defines WT as the time spent in the RUNNABLE state. Here
the machine has the clock and the times beside it, words as in the source, and two counts
that the source does not keep: the ticks of a process's life that found it RUNNABLE, and
the others. Ticks come from CPU 0 only, charges from every CPU.

Between the store and the two computations interrupts may be on: each is a step, and the
timer may charge the process in between, and store `end_time` once more at its limit.
-/
import Xv6.Signal.Account

set_option autoImplicit false

namespace Xv6.Signal

open Xv6.Lib

/-- The ticks of a life that found the process RUNNABLE, and those that found it in
another state. -/
structure Life where
  runnable : Nat := 0
  other : Nat := 0
  deriving DecidableEq, Repr

/-- How far `exit` has come with what it prints; with `tat` goes the life up to the
`end_time` that it was computed from. -/
inductive Report where
  | before
  | stored
  | measured (tat : BitVec 32) (l : Life)
  | printed
  deriving DecidableEq, Repr

/-- The machine with its clock. -/
structure Clocked where
  m : Machine
  ticks : BitVec 32
  creation_time : Slot → BitVec 32
  end_time : Slot → BitVec 32
  /-- The life since `creation_time` was written. -/
  life : Slot → Life
  /-- The life when `end_time` was written last. -/
  ended : Slot → Life
  report : Slot → Report
  /-- TAT and WT as printed, the last one first. -/
  printed : List (Slot × Int × Int)

/-- A step of the kernel, a timer interrupt of CPU 0 between two rounds of its scheduler,
or one of the three steps of the report in `exit`. -/
inductive Beat where
  | kernel (e : Event)
  | idle
  /-- `curproc->end_time = ticks`. -/
  | stamp (c : Nat)
  /-- `int tat=curproc->end_time - curproc->creation_time`. -/
  | measure (c : Nat)
  /-- `int wt=tat-curproc->total_ticks`, and the printing. -/
  | report (c : Nat)
  deriving DecidableEq, Repr

/-- A tick. -/
def Life.tick (p : Proc) (l : Life) : Life :=
  if p.state = .RUNNABLE then { l with runnable := l.runnable + 1 }
  else { l with other := l.other + 1 }

namespace Clocked

variable (s : Clocked)

/-- `ticks++`. -/
def tick : Clocked :=
  { s with
    ticks := s.ticks + 1
    life := fun i => (s.life i).tick (s.m.proc i) }

/-- `creation_time = ticks`. The 0 that `allocproc` stores in `end_time` is not read. -/
def create (i : Slot) : Clocked :=
  { s with
    creation_time := fun j => if j = i then s.ticks else s.creation_time j
    life := fun j => if j = i then {} else s.life j
    report := fun j => if j = i then .before else s.report j }

/-- `end_time = ticks`, for the processes that meet a test. -/
def finish (f : Slot → Bool) : Clocked :=
  { s with
    end_time := fun i => if f i then s.ticks else s.end_time i
    ended := fun i => if f i then s.life i else s.ended i }

/-- The timer finds the process of CPU `c` at its limit. -/
def limited (c : Nat) (i : Slot) : Bool :=
  let p := s.m.proc i
  s.m.cpu c == some i && p.state == .RUNNING && !p.suspended && p.charge.expired

/-- The scheduler finds the process at its limit. -/
def expired (i : Slot) : Bool := (s.m.proc i).eligible && (s.m.proc i).expired

end Clocked

/-- The process whose `creation_time` the event writes: `allocproc` writes it with
`total_ticks`, and `custom_fork` once more. -/
def creates (m : Machine) : Event → Option Slot
  | .advance c =>
    match m.cpu c with
    | some i =>
      match (m.proc i).pos with
      | .creating np _ .ticks | .creating np (some _) .linking => some np
      | _ => none
    | none => none
  | _ => none

/-- The clock's part of an event. -/
def Clocked.beat (s : Clocked) (e : Event) : Clocked :=
  match e with
  | .timer c => (if c = 0 then s.tick else s).finish (s.limited c)
  | .round _ => s.finish s.expired
  | _ =>
    match creates s.m e with
    | some i => s.create i
    | none => s

/-- The process of CPU `c`, if it is in `exit`, between the closing of its files and of
its directory and its last critical section. -/
def Machine.reporting (m : Machine) (c : Nat) : Option Slot :=
  (m.cpu c).filter fun i =>
    let p := m.proc i
    p.pos == .exiting && p.ofile.isEmpty && !p.cwd && i != m.initproc && m.panicked.isNone

/-- One step. -/
def Clocked.step (k : Config) (b : Beat) (s : Clocked) : Option Clocked :=
  match b with
  | .kernel e => (Signal.step k e s.m).map fun m => { s.beat e with m := m }
  | .idle => if s.m.cpu 0 = none ∧ s.m.panicked = none then some s.tick else none
  | .stamp c =>
    (s.m.reporting c).bind fun i =>
      if s.report i = .before then
        some { s.finish (· = i) with report := Function.update s.report i .stored }
      else none
  | .measure c =>
    (s.m.reporting c).bind fun i =>
      if s.report i = .stored then
        some { s with
          report := Function.update s.report i
            (.measured (s.end_time i - s.creation_time i) (s.ended i)) }
      else none
  | .report c =>
    (s.m.reporting c).bind fun i =>
      match s.report i with
      | .measured tat _ =>
        let wt := tat - BitVec.ofNat 32 (s.m.proc i).total_ticks
        some { s with
          printed := (i, tat.toInt, wt.toInt) :: s.printed
          report := Function.update s.report i .printed }
      | _ => none

def Clocked.Step (k : Config) (s : Clocked) (b : Beat) (t : Clocked) : Prop := s.step k b = some t

/-- After `userinit`. -/
def Clocked.boot (k : Config) : Clocked where
  m := Signal.boot k
  ticks := 0
  creation_time _ := 0
  end_time _ := 0
  life _ := {}
  ended _ := {}
  report _ := .before
  printed := []

/-- Whether a timer interrupt on CPU `c` charges process `i`. -/
def Charges (m : Machine) (c : Nat) (i : Slot) : Prop :=
  m.cpu c = some i ∧ (m.proc i).state = .RUNNING ∧ (m.proc i).suspended = false
  deriving Decidable

/-- The condition on a step: each tick finds the process RUNNABLE or charges it, nothing
else charges it, and nothing at all while `exit` makes its report. -/
def Metered (i : Slot) (s : Clocked) : Beat → Prop
  | .kernel (.timer 0) =>
    (s.m.proc i).state = .RUNNABLE ∨ Charges s.m 0 i ∧ s.report i = .before
  | .kernel (.timer (c + 1)) => ¬ Charges s.m (c + 1) i
  | .idle => (s.m.proc i).state = .RUNNABLE
  | _ => True

instance (i : Slot) (s : Clocked) (b : Beat) : Decidable (Metered i s b) := by
  unfold Metered
  split <;> infer_instance

/-- The clock shows the ticks of a life. -/
def Shows (w : BitVec 32) (l : Life) : Prop := w = BitVec.ofNat 32 (l.runnable + l.other)

/-- The clock shows the ticks that were counted: since the creation, up to the end, and
in what `exit` has computed. -/
structure Counted (i : Slot) (s : Clocked) : Prop where
  life : Shows (s.ticks - s.creation_time i) (s.life i)
  ended : s.report i = .stored → Shows (s.end_time i - s.creation_time i) (s.ended i)
  measured : ∀ tat l, s.report i = .measured tat l → Shows tat l

variable {k : Config} {s t u v : Clocked} {i : Slot} {b : Beat} {c : Nat}

theorem Life.tick_sum (p : Proc) (l : Life) :
    (l.tick p).runnable + (l.tick p).other = l.runnable + l.other + 1 := by
  unfold Life.tick
  split <;> simp only <;> omega

theorem Shows.tick {w x : BitVec 32} {l : Life} (h : Shows (w - x) l) (p : Proc) :
    Shows (w + 1 - x) (l.tick p) := by
  unfold Shows at *
  rw [Life.tick_sum, BitVec.ofNat_add, ← h]
  exact BitVec.add_sub_comm ..

theorem Counted.tick (h : Counted i s) : Counted i s.tick :=
  ⟨h.life.tick _, h.ended, h.measured⟩

theorem Counted.create (h : Counted i s) (j : Slot) : Counted i (s.create j) := by
  by_cases hj : i = j
  · subst hj
    refine ⟨?_, fun hr => ?_, fun tat l hr => ?_⟩
    · simp [Clocked.create, Shows]
    · simp [Clocked.create] at hr
    · simp [Clocked.create] at hr
  · refine ⟨?_, fun hr => ?_, fun tat l hr => ?_⟩
    · simpa [Clocked.create, hj] using h.life
    · simpa [Clocked.create, hj] using h.ended (by simpa [Clocked.create, hj] using hr)
    · exact h.measured tat l (by simpa [Clocked.create, hj] using hr)

theorem Counted.finish (h : Counted i s) (f : Slot → Bool) : Counted i (s.finish f) := by
  refine ⟨h.life, fun hr => ?_, h.measured⟩
  by_cases hf : f i = true
  · simpa [Clocked.finish, hf] using h.life
  · simpa [Clocked.finish, hf] using h.ended hr

@[simp] theorem beat_m (s : Clocked) (e : Event) : (s.beat e).m = s.m := by
  unfold Clocked.beat
  split
  · split <;> rfl
  · rfl
  · split <;> rfl

theorem Counted.beat (h : Counted i s) (e : Event) : Counted i (s.beat e) := by
  unfold Clocked.beat
  split
  · split
    · exact h.tick.finish _
    · exact h.finish _
  · exact h.finish _
  · split
    · exact h.create _
    · exact h

/-- The three steps of the report. -/
theorem stamp_inv (hs : Clocked.Step k s (.stamp c) t) :
    ∃ j, s.m.reporting c = some j ∧ s.report j = .before ∧
      t = { s.finish (· = j) with report := Function.update s.report j .stored } := by
  obtain ⟨j, hj, ht⟩ := Option.bind_eq_some_iff.1 hs
  split at ht
  · exact ⟨j, hj, ‹_›, (Option.some.inj ht).symm⟩
  · cases ht

theorem measure_inv (hs : Clocked.Step k s (.measure c) t) :
    ∃ j, s.m.reporting c = some j ∧ s.report j = .stored ∧
      t = { s with
        report := Function.update s.report j
          (.measured (s.end_time j - s.creation_time j) (s.ended j)) } := by
  obtain ⟨j, hj, ht⟩ := Option.bind_eq_some_iff.1 hs
  split at ht
  · exact ⟨j, hj, ‹_›, (Option.some.inj ht).symm⟩
  · cases ht

theorem report_inv (hs : Clocked.Step k s (.report c) t) :
    ∃ j tat l, s.m.reporting c = some j ∧ s.report j = .measured tat l ∧
      t = { s with
        printed := (j, tat.toInt, (tat - BitVec.ofNat 32 (s.m.proc j).total_ticks).toInt) :: s.printed
        report := Function.update s.report j .printed } := by
  obtain ⟨j, hj, ht⟩ := Option.bind_eq_some_iff.1 hs
  split at ht
  · exact ⟨j, _, _, hj, ‹_›, (Option.some.inj ht).symm⟩
  · cases ht

theorem reporting_cpu {m : Machine} (h : m.reporting c = some i) : m.cpu c = some i :=
  (Option.filter_eq_some_iff.1 h).1

theorem Counted.setReport (h : Counted i s) (j : Slot) {r : Report}
    (hst : i = j → r = .stored → Shows (s.end_time i - s.creation_time i) (s.ended i))
    (hm : i = j → ∀ tat l, r = .measured tat l → Shows tat l) :
    Counted i { s with report := Function.update s.report j r } := by
  by_cases hj : i = j
  · refine ⟨h.life, fun hr => hst hj ?_, fun tat l hr => hm hj tat l ?_⟩ <;> subst hj <;>
      simpa using hr
  · refine ⟨h.life, fun hr => h.ended ?_, fun tat l hr => h.measured tat l ?_⟩ <;>
      simpa [hj] using hr

theorem Counted.step (h : Counted i s) (hs : Clocked.Step k s b t) : Counted i t := by
  cases b with
  | kernel e =>
    obtain ⟨m, -, rfl⟩ := Option.map_eq_some_iff.1 hs
    have hb := h.beat e
    exact ⟨hb.life, hb.ended, hb.measured⟩
  | idle =>
    unfold Clocked.Step Clocked.step at hs
    simp only at hs
    split at hs
    · obtain rfl := Option.some.inj hs
      exact h.tick
    · cases hs
  | stamp c =>
    obtain ⟨j, -, -, rfl⟩ := stamp_inv hs
    refine (h.finish _).setReport j (fun hj _ => ?_) fun _ _ _ hr => by cases hr
    subst hj
    simpa [Clocked.finish] using h.life
  | measure c =>
    obtain ⟨j, -, hst, rfl⟩ := measure_inv hs
    refine h.setReport j (fun _ hr => by cases hr) fun hj tat l hr => ?_
    subst hj
    cases hr
    exact h.ended hst
  | report c =>
    obtain ⟨j, tat', l', -, -, rfl⟩ := report_inv hs
    have hp : Counted i { s with
        printed := (j, tat'.toInt, (tat' - BitVec.ofNat 32 (s.m.proc j).total_ticks).toInt) ::
          s.printed } := ⟨h.life, h.ended, h.measured⟩
    exact hp.setReport j (fun _ hr => by cases hr) fun _ _ _ hr => by cases hr

/-! ## The charges -/

theorem sendsig_ticks (n : Nat) (m : Machine) (j : Slot) :
    ((sendsig n m).proc j).total_ticks = (m.proc j).total_ticks := by
  unfold sendsig
  grind [Proc.kill, Proc.background, Proc.foreground, Proc.custom]

theorem charge_ticks (p : Proc) : p.charge.total_ticks =
    p.total_ticks + if p.state = .RUNNING ∧ p.suspended = false then 1 else 0 := by
  unfold Proc.charge
  split <;> rfl

/-- A stage writes `total_ticks` where it writes `creation_time`, and sets it to 0. -/
theorem write_ticks (k : Config) (i : Slot) (cur : Proc) (a : Option ForkArgs) (p : Proc)
    (st : Stage) : (st.write k i cur a p).total_ticks =
      match st, a with
      | .ticks, _ | .linking, some _ => 0
      | _, _ => p.total_ticks := by
  cases st <;> cases a <;> rfl

/-- **What an event does to `total_ticks`.** -/
theorem total_step {m m' : Machine} {e : Event} (he : effect k e m = some m') (i : Slot) :
    (m'.proc i).total_ticks =
      if creates m e = some i then 0
      else match e with
        | .timer c => (m.proc i).total_ticks + if Charges m c i then 1 else 0
        | _ => (m.proc i).total_ticks := by
  by_cases hw : e.writesAccount = false
  · rw [(account_step he hw i).total_ticks]
    cases e <;> first | rfl | exact Bool.noConfusion hw
  cases e <;> first | exact absurd rfl hw | skip
  case timer c =>
    simp only [effect, act_eq_some] at he
    obtain ⟨j, hj, -, rfl⟩ := he
    have hacc := (timer_account c j m i).total_ticks
    simp only [creates, reduceCtorEq, if_false]
    rw [hacc]
    by_cases hij : i = j
    · subst hij
      simp only [if_true, charge_ticks, Charges, hj, true_and]
    · rw [if_neg hij, if_neg]
      · rfl
      · rintro ⟨hi, -⟩
        exact hij (Option.some.inj (hi.symm.trans hj))
  case advance c =>
    obtain ⟨j, np, a, st, hj, hpos, rfl⟩ := advance_inv he
    have hacc := (advance_account (k := k) hpos i).total_ticks
    simp only [creates, hj, hpos]
    rw [hacc]
    by_cases hi : i = np
    · subst hi
      rw [if_pos rfl, write_ticks]
      cases st <;> cases a <;> simp
    · rw [if_neg hi]
      have hne : np ≠ i := Ne.symm hi
      cases st <;> cases a <;> simp [hne]
  case sendsig n =>
    obtain rfl := Option.some.inj he
    exact sendsig_ticks n m i
  all_goals
    simp only [effect, act_eq_some] at he
    obtain ⟨j, -, -, rfl⟩ := he
    simp only [creates, reduceCtorEq, if_false, Machine.set_proc]
    split <;> rfl

/-- The process was charged one tick for each that did not find it RUNNABLE, and so it
stays while `exit` makes its report. -/
structure Balanced (i : Slot) (s : Clocked) : Prop where
  life : (s.life i).other = (s.m.proc i).total_ticks
  ended : s.report i = .stored → (s.ended i).other = (s.m.proc i).total_ticks
  measured : ∀ tat l, s.report i = .measured tat l → l.other = (s.m.proc i).total_ticks

theorem life_beat (s : Clocked) (e : Event) (i : Slot) : (s.beat e).life i =
    if creates s.m e = some i then {}
    else match e with
      | .timer 0 => (s.life i).tick (s.m.proc i)
      | _ => s.life i := by
  unfold Clocked.beat
  split
  · rename_i c
    simp only [creates, reduceCtorEq, if_false]
    cases c <;> rfl
  · rfl
  · rename_i hne _
    cases hc : creates s.m e with
    | none =>
      simp only [reduceCtorEq, if_false]
      split
      · exact absurd rfl (hne 0)
      · rfl
    | some j =>
      simp only [Clocked.create, Option.some.injEq]
      by_cases hj : j = i
      · rw [if_pos hj, if_pos hj.symm]
      · rw [if_neg hj, if_neg (Ne.symm hj)]
        split
        · exact absurd rfl (hne 0)
        · rfl

theorem report_beat (s : Clocked) (e : Event) (i : Slot) : (s.beat e).report i =
    if creates s.m e = some i then .before else s.report i := by
  unfold Clocked.beat
  split
  · rename_i c
    by_cases h0 : c = 0 <;> simp [creates, Clocked.finish, Clocked.tick, h0]
  · simp [creates, Clocked.finish]
  · cases hc : creates s.m e with
    | none => simp
    | some j =>
      by_cases hj : i = j
      · simp [Clocked.create, hj]
      · simp [Clocked.create, hj, Ne.symm hj]

/-- What an event writes to `end_time` goes with the life at that time. -/
theorem ended_beat (s : Clocked) (e : Event) (i : Slot) :
    (s.beat e).ended i = s.ended i ∨ (s.beat e).ended i = (s.beat e).life i := by
  have hf : ∀ (v : Clocked) f, (v.finish f).ended i = v.ended i ∨
      (v.finish f).ended i = (v.finish f).life i := by
    intro v f
    simp only [Clocked.finish]
    split
    · exact Or.inr rfl
    · exact Or.inl rfl
  unfold Clocked.beat
  split
  · split
    · exact hf s.tick _
    · exact hf s _
  · exact hf s _
  · split <;> exact Or.inl rfl

/-- A tick that finds the process RUNNABLE, or charges it. -/
theorem tick_other {p : Proc} (l : Life) :
    (l.tick p).other = l.other + if p.state = .RUNNABLE then 0 else 1 := by
  unfold Life.tick
  split <;> rfl

/-- **An event under the condition**: the process is charged, or not, as its life asks; and
while `exit` makes its report, it is not. -/
theorem metered_event {m : Machine} {e : Event} (hm : Metered i s (.kernel e))
    (he : effect k e s.m = some m) :
    ((s.life i).other = (s.m.proc i).total_ticks →
      ((s.beat e).life i).other = (m.proc i).total_ticks) ∧
    ((s.beat e).report i ≠ .before → (m.proc i).total_ticks = (s.m.proc i).total_ticks) := by
  have ht := total_step he i
  rw [life_beat, report_beat, ht]
  by_cases hc : creates s.m e = some i
  · simp [hc]
  · simp only [if_neg hc]
    have hn : ∀ {c}, (s.m.proc i).state = .RUNNABLE → ¬ Charges s.m c i := by
      rintro c hr ⟨-, hrun, -⟩
      rw [hr] at hrun
      cases hrun
    cases e <;> try exact ⟨fun h => h, fun _ => rfl⟩
    case timer c =>
      cases c with
      | zero =>
        -- a tick of the clock: the process is RUNNABLE, or it is charged
        rcases hm with hr | ⟨hch, hb⟩
        · simp only [if_neg (hn hr), tick_other, if_pos hr]
          exact ⟨fun h => h, fun _ => rfl⟩
        · refine ⟨fun h => ?_, fun h => absurd hb h⟩
          simp only [if_pos hch, tick_other, hch.2.1, h, reduceCtorEq, if_false]
      | succ c =>
        have hno : ¬ Charges s.m (c + 1) i := hm
        simp only [if_neg hno]
        exact ⟨fun h => h, fun _ => rfl⟩

theorem Balanced.setReport (h : Balanced i s) (j : Slot) {r : Report}
    (hst : i = j → r = .stored → (s.ended i).other = (s.m.proc i).total_ticks)
    (hm : i = j → ∀ tat l, r = .measured tat l → l.other = (s.m.proc i).total_ticks) :
    Balanced i { s with report := Function.update s.report j r } := by
  by_cases hj : i = j
  · refine ⟨h.life, fun hr => hst hj ?_, fun tat l hr => hm hj tat l ?_⟩ <;> subst hj <;>
      simpa using hr
  · refine ⟨h.life, fun hr => h.ended ?_, fun tat l hr => h.measured tat l ?_⟩ <;>
      simpa [hj] using hr

theorem Balanced.step (h : Balanced i s) (hm : Metered i s b) (hs : Clocked.Step k s b t) :
    Balanced i t := by
  cases b with
  | kernel e =>
    obtain ⟨m, hk, rfl⟩ := Option.map_eq_some_iff.1 hs
    obtain ⟨hlife, hsame⟩ := metered_event hm (effect_of_step (show Step k s.m e m from hk))
    have hrep : ∀ r, r ≠ .before → (s.beat e).report i = r → s.report i = r := by
      intro r hr h'
      rw [report_beat] at h'
      split at h'
      · exact absurd h'.symm hr
      · exact h'
    refine ⟨hlife h.life, fun hr => ?_, fun tat l hr => ?_⟩
    · simp only at hr ⊢
      rw [hsame (by rw [hr]; decide)]
      rcases ended_beat s e i with he | he
      · rw [he]
        exact h.ended (hrep _ (by decide) hr)
      · rw [he, ← hsame (by rw [hr]; decide)]
        exact hlife h.life
    · simp only at hr ⊢
      rw [hsame (by rw [hr]; simp)]
      exact h.measured tat l (hrep _ (by simp) hr)
  | idle =>
    unfold Clocked.Step Clocked.step at hs
    simp only at hs
    split at hs
    · obtain rfl := Option.some.inj hs
      have hr : (s.m.proc i).state = .RUNNABLE := hm
      refine ⟨?_, h.ended, h.measured⟩
      simp only [Clocked.tick, tick_other, if_pos hr]
      exact h.life
    · cases hs
  | stamp c =>
    obtain ⟨j, -, -, rfl⟩ := stamp_inv hs
    have hf : Balanced i (s.finish (· = j)) := by
      refine ⟨h.life, fun hr => ?_, h.measured⟩
      simp only [Clocked.finish]
      split
      · exact h.life
      · exact h.ended hr
    refine hf.setReport j (fun hj _ => ?_) fun _ _ _ hr => by cases hr
    subst hj
    simpa [Clocked.finish] using h.life
  | measure c =>
    obtain ⟨j, -, hst, rfl⟩ := measure_inv hs
    refine h.setReport j (fun _ hr => by cases hr) fun hj tat l hr => ?_
    subst hj
    cases hr
    exact h.ended hst
  | report c =>
    obtain ⟨j, tat', l', -, -, rfl⟩ := report_inv hs
    have hp : Balanced i { s with
        printed := (j, tat'.toInt, (tat' - BitVec.ofNat 32 (s.m.proc j).total_ticks).toInt) ::
          s.printed } := ⟨h.life, h.ended, h.measured⟩
    exact hp.setReport j (fun _ hr => by cases hr) fun _ _ _ hr => by cases hr

/-! ## What is printed -/

/-- As a signed word, a number is what it is below 2^31. -/
theorem toInt_ofNat_eq_iff (n : Nat) : (BitVec.ofNat 32 n).toInt = (n : Int) ↔ n < 2 ^ 31 := by
  rw [BitVec.toInt_eq_toNat_cond, BitVec.toNat_ofNat]
  split <;> omega

/-- WT is the number of ticks that were not charged. -/
theorem wt_iff (r o n : Nat) :
    (BitVec.ofNat 32 (r + o) - BitVec.ofNat 32 n).toInt = (r : Int) ↔
      r < 2 ^ 31 ∧ o ≡ n [MOD 2 ^ 32] := by
  constructor
  · intro hw
    have hlt : r < 2 ^ 31 := by
      have := BitVec.toInt_lt (x := BitVec.ofNat 32 (r + o) - BitVec.ofNat 32 n)
      omega
    have heq : BitVec.ofNat 32 (r + o) - BitVec.ofNat 32 n = BitVec.ofNat 32 r := by
      apply BitVec.eq_of_toInt_eq
      rw [hw, (toInt_ofNat_eq_iff r).2 hlt]
    refine ⟨hlt, ?_⟩
    have hn := congrArg BitVec.toNat heq
    rw [BitVec.toNat_sub, BitVec.toNat_ofNat, BitVec.toNat_ofNat, BitVec.toNat_ofNat] at hn
    unfold Nat.ModEq
    omega
  · rintro ⟨hlt, hmod⟩
    have heq : BitVec.ofNat 32 (r + o) - BitVec.ofNat 32 n = BitVec.ofNat 32 r := by
      apply BitVec.eq_of_toNat_eq
      rw [BitVec.toNat_sub, BitVec.toNat_ofNat, BitVec.toNat_ofNat, BitVec.toNat_ofNat]
      unfold Nat.ModEq at hmod
      omega
    rw [heq]
    exact (toInt_ofNat_eq_iff r).2 hlt

/-- `exit` prints the ticks of the life that found the process RUNNABLE. -/
def Reported (i : Slot) (l : Life) (u v : Clocked) : Prop :=
  ∃ tat, v.printed = (i, tat, (l.runnable : Int)) :: u.printed

theorem create_counted (hc : creates s.m (.advance c) = some i)
    (hs : Clocked.Step k s (.kernel (.advance c)) t) : Counted i t ∧ Balanced i t := by
  obtain ⟨m, hk, rfl⟩ := Option.map_eq_some_iff.1
    (show (Signal.step k (.advance c) s.m).map (fun m => { s.beat (.advance c) with m := m }) =
      some t from hs)
  have ht := total_step (effect_of_step (show Step k s.m (.advance c) m from hk)) i
  rw [if_pos hc] at ht
  have hb : s.beat (.advance c) = s.create i := by
    simp only [Clocked.beat, hc]
  rw [hb]
  constructor
  · refine ⟨?_, fun hr => ?_, fun tat l hr => ?_⟩
    · simp [Clocked.create, Shows]
    · simp [Clocked.create] at hr
    · simp [Clocked.create] at hr
  · refine ⟨?_, fun hr => ?_, fun tat l hr => ?_⟩
    · simp [Clocked.create, ht]
    · simp [Clocked.create] at hr
    · simp [Clocked.create] at hr

/-- **WT.** From the event that writes the creation time of a process on, along any run:
when `exit` prints, it has computed TAT from an `end_time` up to which the process has had
the life `l`, and it prints the ticks of it that found the process RUNNABLE exactly when
they are fewer than 2^31 and it was charged, by the time of the printing and up to the word
size, as many ticks as found it in another state. That is so when every tick finds it
RUNNABLE or charges it, nothing else charges it, and nothing charges it between the store
to `end_time` and the printing. -/
theorem waiting_time_reported {bs : List Beat} {d : Nat} (hc : creates s.m (.advance c) = some i)
    (hs : Clocked.Step k s (.kernel (.advance c)) t) (hrun : Run (Clocked.Step k) t bs u)
    (hi : u.m.cpu d = some i) (hv : Clocked.Step k u (.report d) v) :
    ∃ tat l, u.report i = .measured tat l ∧
      (Reported i l u v ↔
        l.runnable < 2 ^ 31 ∧ l.other ≡ (u.m.proc i).total_ticks [MOD 2 ^ 32]) ∧
      (Run (Guarded (Clocked.Step k) (Metered i)) t bs u → l.runnable < 2 ^ 31 →
        Reported i l u v) := by
  obtain ⟨h0, hb0⟩ := create_counted hc hs
  have hcount : Counted i u := hrun.invariant (fun _ _ _ hst h => h.step hst) h0
  obtain ⟨j, tat, l, hj, hr, rfl⟩ := report_inv hv
  obtain rfl : j = i := Option.some.inj ((reporting_cpu hj).symm.trans hi)
  have htat : tat = BitVec.ofNat 32 (l.runnable + l.other) := hcount.measured tat l hr
  have hrep : ∀ w r, Reported j l u { u with
      printed := (j, tat.toInt, w) :: u.printed
      report := r } ↔ w = (l.runnable : Int) := by
    intro w r
    unfold Reported
    simp only [List.cons.injEq, Prod.mk.injEq, true_and, and_true, exists_eq_left']
  refine ⟨tat, l, hr, ?_, fun hm hlt => ?_⟩
  · rw [hrep, htat, wt_iff]
  · have hbal : Balanced j u := hm.invariant (fun _ _ _ hst h => h.step hst.1 hst.2) hb0
    rw [hrep, htat, wt_iff, hbal.measured tat l hr]
    exact ⟨hlt, rfl⟩

/-! ## Two children of the shell -/

/-- The shell is in `fork`, about to write the creation time of process 3. -/
def forking : List Event :=
  startShell ++ [Event.round 0, .forkret 0, .enter 0, .fork 0 none, .advance 0, .advance 0]

/-- The rest of the creation, up to the first call of the child. -/
def childEnters : List Event :=
  List.replicate 5 (Event.advance 0) ++ [Event.wait 0, .round 0, .retest 0, .trapret 0, .enter 0,
    .sleep 0 7, .round 0, .forkret 0, .enter 0]

/-- The child exits, and computes TAT. -/
def childExits : List Beat :=
  [.kernel (.exit 0), .kernel (.dropCwd 0), .stamp 0, .measure 0]

/-- The child is charged a tick, waits for one tick and exits. -/
theorem waiting_time_reported_waits :
    ∃ tat u v, u.report 2 = .measured tat ⟨1, 1⟩ ∧ Reported 2 ⟨1, 1⟩ u v := by
  have hx : ((exec (Clocked.step xv6) (forking.map Beat.kernel) (Clocked.boot xv6)).bind fun s =>
      (Clocked.step xv6 (.kernel (.advance 0)) s).bind fun t =>
        (execIf (Clocked.step xv6) (Metered 2) (childEnters.map Beat.kernel ++
          [Beat.kernel (.timer 0), .idle, .kernel (.round 0)] ++ childExits) t).bind fun u =>
          (Clocked.step xv6 (.report 0) u).map fun v =>
            (creates s.m (.advance 0), u.m.cpu 0, u.report 2)) =
      some (some 2, some 2, .measured 2 ⟨1, 1⟩) := by decide +kernel
  obtain ⟨s, -, hx⟩ := Option.bind_eq_some_iff.1 hx
  obtain ⟨t, ht, hx⟩ := Option.bind_eq_some_iff.1 hx
  obtain ⟨u, hu, hx⟩ := Option.bind_eq_some_iff.1 hx
  obtain ⟨v, hv, hx⟩ := Option.map_eq_some_iff.1 hx
  simp only [Prod.mk.injEq] at hx
  have hrun := run_of_execIf hu
  obtain ⟨tat, l, hl, -, h⟩ :=
    waiting_time_reported hx.1 ht (hrun.mono fun _ _ _ hst => hst.2) hx.2.1 hv
  obtain ⟨rfl, rfl⟩ : tat = 2 ∧ l = ⟨1, 1⟩ := by
    rw [hx.2.2] at hl
    cases hl
    exact ⟨rfl, rfl⟩
  exact ⟨2, u, v, hl, h hrun (by decide)⟩

/-- The child sleeps for a tick: `exit` prints 1, and it was never RUNNABLE at a tick. -/
theorem sleep_reported : ∃ as s t bs u v, Run (Clocked.Step xv6) (Clocked.boot xv6) as s ∧
    creates s.m (.advance 0) = some 2 ∧ Clocked.Step xv6 s (.kernel (.advance 0)) t ∧
    Run (Clocked.Step xv6) t bs u ∧ u.m.cpu 0 = some 2 ∧ Clocked.Step xv6 u (.report 0) v ∧
    u.report 2 = .measured 1 ⟨0, 1⟩ ∧ v.printed = [(2, 1, 1)] ∧ ¬ Reported 2 ⟨0, 1⟩ u v := by
  have hx : ((exec (Clocked.step xv6) (forking.map Beat.kernel) (Clocked.boot xv6)).bind fun s =>
      (Clocked.step xv6 (.kernel (.advance 0)) s).bind fun t =>
        (exec (Clocked.step xv6) (childEnters.map Beat.kernel ++
          [Beat.kernel (.sleep 0 8), .idle, .kernel (.wakeup 8), .kernel (.round 0)] ++
            childExits) t).bind fun u =>
          (Clocked.step xv6 (.report 0) u).map fun v =>
            (creates s.m (.advance 0), u.m.cpu 0, u.report 2, decide (v.printed = [(2, 1, 1)]))) =
      some (some 2, some 2, .measured 1 ⟨0, 1⟩, true) := by decide +kernel
  obtain ⟨s, hs, hx⟩ := Option.bind_eq_some_iff.1 hx
  obtain ⟨t, ht, hx⟩ := Option.bind_eq_some_iff.1 hx
  obtain ⟨u, hu, hx⟩ := Option.bind_eq_some_iff.1 hx
  obtain ⟨v, hv, hx⟩ := Option.map_eq_some_iff.1 hx
  simp only [Prod.mk.injEq, decide_eq_true_eq] at hx
  refine ⟨_, s, t, _, u, v, run_of_exec hs, hx.1, ht, run_of_exec hu, hx.2.1, hv, hx.2.2.1,
    hx.2.2.2, ?_⟩
  rintro ⟨tat, hrep⟩
  rw [hx.2.2.2] at hrep
  simp at hrep

end Xv6.Signal
