/-
Half-dead zombies.

`exit` gives everything back before it becomes a ZOMBIE. The scheduler has a second
way to make one: a process over its execution time limit becomes a ZOMBIE where it
stands, with its files, its directory, its sleep locks and its transaction, its
children still its own and its parent still asleep. This module is about the runs
without console signals, and shows that this branch is the only way.
-/
import Xv6.Signal.Priority

set_option autoImplicit false

namespace Xv6.Signal

open Xv6.Lib

variable {k : Config} {s t : Machine} {c : Nat} {i j : Slot} {e : Event}

/-- What `exit` leaves of a process: nothing is open, locked or counted, no process
has it as its parent, and its own parent is not asleep in `wait`. -/
structure CleanedUp (s : Machine) (i : Slot) : Prop where
  ofile : (s.proc i).ofile = []
  cwd : (s.proc i).cwd = false
  locks : (s.proc i).locks = []
  ops : (s.proc i).ops = 0
  children : ∀ j, (s.proc j).parent ≠ some i
  parent : ∀ r, (s.proc i).parent = some r →
    ¬ ((s.proc r).state = .SLEEPING ∧ (s.proc r).chan = some (.proc r))

/-- The invariant; init is there to take the orphans. -/
structure Buried (s : Machine) : Prop where
  zombie : ∀ i, (s.proc i).state = .ZOMBIE → CleanedUp s i
  init : Live (s.proc s.initproc).state ∧ (s.proc s.initproc).parent = none
  parent : ∀ i, (s.proc i).parent ≠ some i

/-- No signal comes from the console, and no round finds an eligible process at its
execution time limit. -/
def Unhurried (s : Machine) : Event → Prop
  | .sendsig _ => False
  | .round _ => ∀ i, (s.proc i).eligible = true → (s.proc i).expired = false
  | _ => True

instance (s : Machine) : (e : Event) → Decidable (Unhurried s e)
  | .sendsig _ => inferInstanceAs (Decidable False)
  | .round _ =>
    inferInstanceAs (Decidable (∀ i, (s.proc i).eligible = true → (s.proc i).expired = false))
  | .timer _ | .interrupt _ | .fault _ | .test _ | .retest _ | .trapret _ | .forkret _
  | .enter _ | .leave _ | .sleep _ _ | .wakeup _ | .acquiresleep _ _ | .releasesleep _ _
  | .begin_op _ | .end_op _ | .openFile _ _ | .closeFile _ _ | .exit _ | .dropCwd _
  | .exitDone _ | .resumeExit _ | .wait _ | .kill _ _ | .signal _ _ | .scheduler_start _
  | .fork _ _ | .advance _ | .fail _ =>
    inferInstanceAs (Decidable True)

theorem Unhurried.spares (h : Unhurried s e) (A : ProcState → Prop) : Spares A s e := by
  cases e <;> trivial

/-- The process sleeps in its own `wait`. -/
def InWait (s : Machine) (r : Slot) : Prop :=
  (s.proc r).state = .SLEEPING ∧ (s.proc r).chan = some (.proc r)

theorem Buried.keep (h : Buried s)
    (hz : ∀ i, (t.proc i).state = .ZOMBIE → (s.proc i).state = .ZOMBIE ∧
      (t.proc i).ofile = (s.proc i).ofile ∧ (t.proc i).cwd = (s.proc i).cwd ∧
      (t.proc i).locks = (s.proc i).locks ∧ (t.proc i).ops = (s.proc i).ops)
    (hp : ∀ j r, (t.proc j).parent = some r → (s.proc j).parent = some r ∨
      (s.proc j).state = .EMBRYO ∧ (t.proc j).state = .EMBRYO ∧ r ≠ j ∧ (t.proc r).state ≠ .ZOMBIE)
    (hs : ∀ r, InWait t r → InWait s r ∨
      ∀ j, (s.proc j).parent = some r → (s.proc j).state ≠ .ZOMBIE)
    (hi : t.initproc = s.initproc) (hl : Live (t.proc s.initproc).state) : Buried t := by
  have hinit := h.init
  constructor
  · intro i hti
    obtain ⟨hsi, ho, hc, hlk, hop⟩ := hz i hti
    have hcl := h.zombie i hsi
    refine ⟨ho.trans hcl.ofile, hc.trans hcl.cwd, hlk.trans hcl.locks, hop.trans hcl.ops,
      fun j hj => ?_, fun r hr hw => ?_⟩
    · -- a new parent is no zombie, so a zombie gets no children
      rcases hp j i hj with hj | ⟨-, -, -, hn⟩
      · exact hcl.children j hj
      · exact hn hti
    · -- who has just gone to sleep in `wait` has found no zombie child
      rcases hp i r hr with hr | ⟨hn, -⟩
      · rcases hs r hw with hw | hw
        · exact hcl.parent r hr hw
        · exact hw i hr hsi
      · rw [hsi] at hn
        cases hn
  · rw [hi]
    refine ⟨hl, ?_⟩
    cases hpar : (t.proc s.initproc).parent with
    | none => rfl
    | some r =>
      rcases hp _ r hpar with hr | ⟨hn, -⟩
      · rw [hinit.2] at hr
        cases hr
      · have := hinit.1
        rw [hn] at this
        rcases this with h | h | h | h <;> cases h
  · intro i hii
    rcases hp i i hii with hr | ⟨-, -, hn, -⟩
    · exact h.parent i hr
    · exact hn rfl

/-- `exit` wakes its parent, and init when it passes a zombie on to it. -/
theorem exitDone_wakes (hj : j ≠ i) (hs : ((exitDone c i s).proc j).state = .SLEEPING) :
    (s.proc j).state = .SLEEPING ∧ ((exitDone c i s).proc j).chan = (s.proc j).chan ∧
      (∀ r, (s.proc i).parent = some r → (s.proc j).chan ≠ some (.proc r)) ∧
      (∀ z, (s.proc z).parent = some i → (s.proc z).state = .ZOMBIE →
        (s.proc j).chan ≠ some (.proc s.initproc)) := by
  have hwk : ∀ ch p, (Proc.wake ch p).parent = p.parent ∧
      (p.state = .ZOMBIE → (Proc.wake ch p).state = .ZOMBIE) := fun ch p => by
    unfold Proc.wake
    grind -ring -linarith
  set s1 := wakeup1 ((s.proc i).parent.map .proc) s with hs1
  have h1 : ∀ l, (s1.proc l).parent = (s.proc l).parent ∧ (s1.proc l).chan = (s.proc l).chan ∧
      ((s.proc l).state = .ZOMBIE → (s1.proc l).state = .ZOMBIE) := fun l => by
    rcases wakeup1_proc ((s.proc i).parent.map .proc) s l with hw | ⟨hst, hw⟩
    · rw [hs1, hw]
      exact ⟨rfl, rfl, id⟩
    · rw [hs1, hw]
      exact ⟨rfl, rfl, fun hz => by rw [hst] at hz; cases hz⟩
  -- who still sleeps after the first wake-up was not asleep on the parent
  have h2 : (s1.proc j).state = .SLEEPING → (s.proc j).state = .SLEEPING ∧
      ∀ r, (s.proc i).parent = some r → (s.proc j).chan ≠ some (.proc r) := fun hsl => by
    rw [hs1] at hsl
    cases hpar : (s.proc i).parent with
    | none =>
      rw [hpar] at hsl
      exact ⟨hsl, fun r hr => by cases hr⟩
    | some q =>
      rw [hpar] at hsl
      simp only [Option.map_some, wakeup1, Machine.each_proc, Proc.wake] at hsl
      grind -ring -linarith
  have h3 : ∀ z, (s.proc z).parent = some i → (s.proc z).state = .ZOMBIE →
      zombieChild i s1 = true := fun z hz hzz => by
    unfold zombieChild
    rw [Option.isSome_iff_ne_none]
    intro hn
    have := s1.find_none hn z
    simp [(h1 z).1, hz, (h1 z).2.2 hzz] at this
  simp only [exitDone, Machine.setCpu_proc, Machine.set_proc, if_neg hj, ← hs1] at hs ⊢
  have h1j := h1 j
  have hst := Proc.reparent_state i s.initproc (s1.proc j)
  have hch : ((s1.proc j).reparent i s.initproc).chan = (s1.proc j).chan := by
    unfold Proc.reparent
    split <;> rfl
  split at hs
  · rename_i hzc
    simp only [Machine.each_proc, Proc.wake] at hs ⊢
    rw [if_pos hzc]
    simp only [Machine.each_proc, Proc.wake]
    grind -ring -linarith
  · rename_i hzc
    simp only [Machine.each_proc] at hs ⊢
    rw [if_neg hzc]
    simp only [Machine.each_proc]
    grind -ring -linarith

theorem Buried.exitDone (h : Buried s) (hi : (s.proc i).state = .RUNNING) (hne : i ≠ s.initproc)
    (ho : (s.proc i).ofile = []) (hc : (s.proc i).cwd = false) (hf : (s.proc i).free = true) :
    Buried (Signal.exitDone c i s) := by
  have hself := exitDone_self c i s
  have hother := fun j (hj : j ≠ i) => exitDone_other (c := c) (s := s) hj
  have hwake := fun j (hj : j ≠ i) => exitDone_wakes (c := c) (s := s) hj
  have hinit := (exitDone_rest c i s).2.1
  set t := Signal.exitDone c i s with ht
  -- the parents afterwards
  have hpar : ∀ j, (t.proc j).parent =
      if (s.proc j).parent = some i then some s.initproc else (s.proc j).parent := by
    intro j
    by_cases hj : j = i
    · subst hj
      rw [hself]
      simp only [Proc.reparent]
      split <;> rfl
    · obtain ⟨st, -, hq⟩ := hother j hj
      rw [hq]
      simp only [Proc.reparent]
      split <;> rfl
  have hsame : ∀ j, (t.proc j).ofile = (s.proc j).ofile ∧ (t.proc j).cwd = (s.proc j).cwd ∧
      (t.proc j).locks = (s.proc j).locks ∧ (t.proc j).ops = (s.proc j).ops := by
    intro j
    by_cases hj : j = i
    · subst hj
      rw [hself]
      simp only [Proc.reparent]
      split <;> exact ⟨rfl, rfl, rfl, rfl⟩
    · obtain ⟨st, -, hq⟩ := hother j hj
      rw [hq]
      simp only [Proc.reparent]
      split <;> exact ⟨rfl, rfl, rfl, rfl⟩
  have hst : ∀ j, j ≠ i → (t.proc j).state = (s.proc j).state ∨
      (s.proc j).state = .SLEEPING ∧ (t.proc j).state = .RUNNABLE := by
    intro j hj
    obtain ⟨st, hst, hq⟩ := hother j hj
    rw [Proc.reparent_state] at hst
    rw [hq]
    exact hst
  obtain ⟨hil, hip⟩ := h.init
  have hiz : (s.proc s.initproc).state ≠ .ZOMBIE := by
    intro hz
    rw [hz] at hil
    rcases hil with h | h | h | h <;> cases h
  have hti : (t.proc i).state = .ZOMBIE := by rw [hself]
  constructor
  · intro z hz
    have hzs : z ≠ i → (s.proc z).state = .ZOMBIE := fun hzi => by
      rcases hst z hzi with hx | ⟨-, hx⟩
      · exact hx.symm.trans hz
      · rw [hz] at hx
        cases hx
    obtain ⟨h1, h2, h3, h4⟩ := hsame z
    have hchildren : ∀ j, (t.proc j).parent ≠ some z := by
      intro j hj
      rw [hpar j] at hj
      by_cases hzi : z = i
      · grind -ring -linarith
      · have := (h.zombie z (hzs hzi)).children j
        grind -ring -linarith
    have hparent : ∀ r, (t.proc z).parent = some r → ¬ InWait t r := by
      rintro r hr ⟨hrs, hrc⟩
      rw [hpar z] at hr
      by_cases hri : r = i
      · rw [hri, hti] at hrs
        cases hrs
      · obtain ⟨w1, w2, w3, w4⟩ := hwake r hri hrs
        rw [w2] at hrc
        split at hr
        · -- a child that went to init: it was a zombie already
          rename_i hzp
          have hzi : z ≠ i := fun hzi => h.parent i (hzi ▸ hzp)
          obtain rfl := Option.some.inj hr
          exact w4 z hzp (hzs hzi) hrc
        · by_cases hzi : z = i
          · subst hzi
            exact w3 r hr hrc
          · exact (h.zombie z (hzs hzi)).parent r hr ⟨w1, hrc⟩
    by_cases hzi : z = i
    · subst hzi
      simp only [Proc.free, Bool.and_eq_true, List.isEmpty_iff, beq_iff_eq] at hf
      exact ⟨h1.trans ho, h2.trans hc, h3.trans hf.1, h4.trans hf.2, hchildren, hparent⟩
    · have hcl := h.zombie z (hzs hzi)
      exact ⟨h1.trans hcl.ofile, h2.trans hcl.cwd, h3.trans hcl.locks, h4.trans hcl.ops, hchildren,
        hparent⟩
  · rw [hinit]
    refine ⟨?_, ?_⟩
    · have := hst s.initproc (Ne.symm hne)
      grind -ring -linarith [Live]
    · rw [hpar, hip]
      simp
  · intro j hj
    rw [hpar j] at hj
    split at hj
    · rename_i hji
      obtain rfl := Option.some.inj hj
      rw [hip] at hji
      cases hji
    · exact h.parent j hj

theorem Stage.write_parent (k : Config) (i : Slot) (cur : Proc) (a : Option ForkArgs) (p : Proc)
    (st : Stage) : (st.write k i cur a p).parent = p.parent ∨
      (st.write k i cur a p).parent = some i ∧ st ≠ .ready := by
  cases st <;> cases a <;> simp [Stage.write]

theorem Stage.write_chan (k : Config) (i : Slot) (cur : Proc) (a : Option ForkArgs) (p : Proc)
    (st : Stage) : (st.write k i cur a p).chan = p.chan := by
  cases st <;> cases a <;> rfl

/-- What no round, no `exit` and no stage of a creation touches. -/
structure SameHoldings (p q : Proc) : Prop where
  parent : q.parent = p.parent
  chan : q.chan = p.chan ∨ q.chan = none
  ofile : p.state = .ZOMBIE → q.ofile = p.ofile ∧ q.cwd = p.cwd ∧ q.locks = p.locks ∧ q.ops = p.ops

/-- Steps that make no zombie, put nobody to sleep in `wait` and leave init alone. -/
theorem Buried.same (h : Buried s) (hf : ∀ j, SameHoldings (s.proc j) (t.proc j))
    (hz : ∀ j, (t.proc j).state = .ZOMBIE → (s.proc j).state = .ZOMBIE)
    (hs : ∀ j, (t.proc j).state = .SLEEPING → (s.proc j).state = .SLEEPING ∨
      ∃ a, (t.proc j).chan = some (.addr a))
    (hl : ∀ j, Live (s.proc j).state → Live (t.proc j).state)
    (hi : t.initproc = s.initproc) : Buried t := by
  refine h.keep (fun i hti => ?_) (fun j r hr => Or.inl ?_) (fun r hw => Or.inl ?_) hi
    (hl _ h.init.1)
  · have := (hf i).ofile (hz i hti)
    exact ⟨hz i hti, this⟩
  · rw [← (hf j).parent]
    exact hr
  · rcases hs r hw.1 with hst | ⟨a, ha⟩
    · refine ⟨hst, ?_⟩
      rcases (hf r).chan with hc | hc
      · exact hc.symm.trans hw.2
      · rw [hw.2] at hc
        cases hc
    · rw [hw.2] at ha
      cases ha

theorem Buried.step (h : Buried s) (hP : Placed s) (hn : Nursery s) (hA : Unhurried s e)
    (he : Step k s e t) (hp : t.panicked = none) : Buried t := by
  replace he := effect_of_step he
  have hrun := hP.running
  have hinit := h.init
  by_cases ho : e.isTurn = true
  · -- the process of a CPU moves: it is RUNNING, so no zombie changes
    obtain ⟨c, i, q, hi, hq, hT, -, hin, -⟩ := turn_step he ho
    have hr := hrun c i hi
    have hst := hT.state
    have hch := hT.chan
    have has := hT.asleep
    have hpar := hT.parent
    refine h.keep (by grind -ring -linarith) (by grind -ring -linarith) (fun r hw => ?_) hin
      (by grind -ring -linarith [Live])
    unfold InWait at *
    grind -ring -linarith
  cases e <;> first
    | exact absurd rfl ho
    | simp only [effect, act_eq_some, Option.some.injEq] at he
  case round c =>
    split at he
    · obtain rfl := Option.some.inj he
      have hst : ∀ j, ((s.aged k).proc j).state = (s.proc j).state := fun j => by
        rcases aged_state k s j with hag | ⟨hr, -, hx, hsus⟩
        · exact hag
        · have := hA j (Proc.eligible_iff.2 ⟨hr, hsus⟩)
          rw [hx] at this
          cases this
      have hf : ∀ j, SameHoldings (s.proc j) ((s.aged k).proc j) := fun j => by
        constructor <;> simp only [Machine.aged, Machine.each_proc, Proc.expire, Proc.boost] <;>
          grind -ring -linarith
      rcases round_cases k c hp with ⟨-, hr⟩ | ⟨i, -, hir, -, hr⟩ <;> rw [hr]
      · exact h.same hf (by grind -ring -linarith) (by grind -ring -linarith)
          (by grind -ring -linarith) rfl
      · exact h.same (by grind -ring -linarith [SameHoldings, Proc.run])
          (by grind -ring -linarith [Proc.run])
          (by grind -ring -linarith [Proc.run]) (by grind -ring -linarith [Live, Proc.run]) rfl
    · cases he
  case wakeup a =>
    subst he
    have := wakeup1_proc (some (.addr a)) s
    exact h.same (by grind -ring -linarith [SameHoldings]) (by grind -ring -linarith)
      (by grind -ring -linarith) (by grind -ring -linarith [Live])
      (wakeup1_rest _ s).2.2.1
  case exitDone c =>
    obtain ⟨i, hi, hg, rfl⟩ := he
    split at hp
    · cases hp
    · rename_i hne
      rw [if_neg hne]
      simp only [Bool.and_eq_true, beq_iff_eq, List.isEmpty_iff, Bool.not_eq_true'] at hg
      exact h.exitDone (hrun c i hi) hne hg.1.1.2 hg.1.2 hg.2
  case wait c =>
    obtain ⟨i, hi, -, rfl⟩ := he
    have := hrun c i hi
    rcases wait_cases c i s with ⟨j, -, hz, hw⟩ | hw | ⟨hno, hw⟩ <;> rw [hw]
    · -- a zombie child is reaped, and init is none
      have hji : j ≠ s.initproc := fun hji => by
        have := hinit.1
        rw [← hji, hz] at this
        rcases this with h | h | h | h <;> cases h
      refine h.keep (by grind -ring -linarith [Proc.reap])
        (by grind -ring -linarith [Proc.reap]) (fun r hw => ?_) rfl
        (by grind -ring -linarith [Live, Proc.reap])
      unfold InWait at *
      grind -ring -linarith [Proc.reap]
    · exact h
    · refine h.keep (by grind -ring -linarith [sleep])
        (by grind -ring -linarith [sleep]) (fun r hw => ?_) rfl
        (by grind -ring -linarith [Live, sleep])
      unfold InWait at *
      grind -ring -linarith [sleep]
  case kill c pid =>
    obtain ⟨i, hi, -, rfl⟩ := he
    rcases kill_cases pid s with hk | ⟨j, -, hk⟩ <;> rw [hk]
    · exact h
    · exact h.same (by grind -ring -linarith [SameHoldings, Proc.kill])
        (by grind -ring -linarith [Proc.kill])
        (by grind -ring -linarith [Proc.kill]) (by grind -ring -linarith [Live, Proc.kill]) rfl
  case fork c a =>
    obtain ⟨i, hi, -, rfl⟩ := he
    have := hrun c i hi
    rcases allocproc_cases i a s with hk | ⟨np, hu, hk⟩ <;> rw [hk]
    · exact h
    · -- the new slot was UNUSED and becomes EMBRYO
      have hni : np ≠ i := by grind -ring -linarith
      have hnl : ¬ Live (s.proc np).state := by
        rw [hu]
        simp [Live]
      refine h.same (fun j => ?_) (fun j => ?_) (fun j => ?_) (fun j hj => ?_) rfl
      · constructor <;> simp only [Machine.set_proc, Proc.alloc] <;> grind -ring -linarith
      · simp only [Machine.set_proc, Proc.alloc]
        grind -ring -linarith
      · simp only [Machine.set_proc, Proc.alloc]
        grind -ring -linarith
      · simp only [Machine.set_proc, Proc.alloc]
        grind -ring -linarith
  case advance c =>
    obtain ⟨i, hi, hg, rfl⟩ := he
    have hir := hrun c i hi
    obtain ⟨np, a, st, hpos, hk⟩ := advance_cases k hg
    have hem := hn.embryo i np a st hpos
    have hws := Stage.write_state k i (s.proc i) a (s.proc np) st
    have hwp := Stage.write_parent k i (s.proc i) a (s.proc np) st
    have hwc := Stage.write_chan k i (s.proc i) a (s.proc np) st
    have hni : np ≠ i := by grind -ring -linarith
    -- the stage writes an EMBRYO, which init is not
    have hnin : np ≠ s.initproc := fun hji => by
      have := hinit.1
      rw [← hji, hem] at this
      rcases this with h | h | h | h <;> cases h
    rw [hk]
    refine h.keep (fun j => ?_) (fun j r => ?_) (fun r hw => ?_) rfl ?_
    · simp only [Machine.set_proc]
      grind -ring -linarith
    · simp only [Machine.set_proc]
      grind -ring -linarith
    · unfold InWait at *
      simp only [Machine.set_proc] at *
      grind -ring -linarith
    · simp only [Machine.set_proc]
      grind -ring -linarith
  case fail c =>
    obtain ⟨i, hi, hg, rfl⟩ := he
    have hir := hrun c i hi
    obtain ⟨np, a, st, hpos, -, hk⟩ := failFork_cases hg
    have hem := hn.embryo i np a st hpos
    have hnl : ¬ Live (s.proc np).state := by
      rw [hem]
      simp [Live]
    rw [hk]
    exact h.same (by grind -ring -linarith [SameHoldings, Proc.noStack, Proc.noCopy])
      (by grind -ring -linarith [Proc.noStack, Proc.noCopy])
        (by grind -ring -linarith [Proc.noStack, Proc.noCopy])
      (by grind -ring -linarith [Proc.noStack, Proc.noCopy]) rfl
  case sendsig n => exact absurd hA (by simp [Unhurried])
  case scheduler_start c =>
    obtain ⟨i, hi, -, rfl⟩ := he
    exact h.same (by grind -ring -linarith [SameHoldings, Proc.start])
      (by grind -ring -linarith [Proc.start])
      (by grind -ring -linarith [Proc.start]) (by grind -ring -linarith [Live, Proc.start]) rfl
  case resumeExit c =>
    obtain ⟨i, hi, -, rfl⟩ := he
    cases hp

theorem buried_boot (k : Config) : Buried (boot k) := by
  constructor
  · intro i hi
    rcases boot_state k i with hp | hp <;> rw [hp] at hi <;> cases hi
  · exact ⟨Or.inl rfl, rfl⟩
  · intro i hi
    simp only [boot, initcode] at hi
    split at hi <;> cases hi

/-- **No half-dead zombie.** In a run without console signals whose rounds find no
eligible process at its execution time limit, every ZOMBIE has completed `exit`. -/
theorem zombie_cleanedUp {es : List Event} (hrun : Run (Guarded (Step k) Unhurried) (boot k) es s)
    (hs : s.panicked = none) (hi : (s.proc i).state = .ZOMBIE) : CleanedUp s i := by
  have hS : Sound s ∧ (s.panicked = none → Buried s) := by
    refine hrun.invariant (P := fun s => Sound s ∧ (s.panicked = none → Buried s))
      (fun s e t hst h => ?_) ⟨sound_boot k, fun _ => buried_boot k⟩
    have hp := not_panicked_of_step hst.2
    exact ⟨h.1.step (hst.1.spares Parked) hst.2,
      (h.2 hp).step (h.1.placed hp) (h.1.nursery hp) hst.1 hst.2⟩
  exact (hS.2 hs).zombie i hi

/-- The shell exits while init is asleep in `wait`. -/
theorem zombie_cleanedUp_shell : ∃ es s,
    Run (Guarded (Step xv6) Unhurried) (boot xv6) es s ∧ CleanedUp s 1 := by
  have hx : ((stepsIf xv6 Unhurried (startShell ++ [Event.round 0, .forkret 0, .enter 0, .sleep 0 7,
      .round 0, .retest 0, .trapret 0, .enter 0, .wait 0, .wakeup 7, .round 0, .exit 0, .dropCwd 0,
      .exitDone 0]) (boot xv6)).map fun s => (s.panicked, (s.proc 1).state)) =
      some (none, .ZOMBIE) := by decide +kernel
  obtain ⟨s, hs, hv⟩ := Option.map_eq_some_iff.1 hx
  simp only [Prod.mk.injEq] at hv
  exact ⟨_, s, run_of_stepsIf hs, zombie_cleanedUp (run_of_stepsIf hs) hv.1 hv.2⟩

/-- A child with a limit of one tick is preempted in a system call, inside a
transaction and with a sleep lock; the next round makes it a ZOMBIE there. -/
theorem expired_holds_lock : ∃ es s, Run (Step xv6) (boot xv6) es s ∧ s.panicked = none ∧
    (∀ n, .sendsig n ∉ es) ∧ (s.proc 2).state = .ZOMBIE ∧ ¬ CleanedUp s 2 := by
  have hx : ((steps xv6 (startShell ++
      [Event.round 0, .forkret 0, .enter 0, .fork 0 (some ⟨0, 1⟩)] ++
      List.replicate 8 (Event.advance 0) ++
        [Event.wait 0, .round 0, .retest 0, .trapret 0, .enter 0, .sleep 0 7, .round 0,
          .forkret 0, .enter 0, .begin_op 0, .acquiresleep 0 5, .timer 0, .round 0]) (boot xv6)).map fun s =>
        (s.panicked, (s.proc 2).state, (s.proc 2).locks)) = some (none, .ZOMBIE, [5]) := by
    decide +kernel
  obtain ⟨s, hs, hv⟩ := Option.map_eq_some_iff.1 hx
  simp only [Prod.mk.injEq] at hv
  refine ⟨_, s, run_of_steps hs, hv.1, fun n hn => ?_, hv.2.1, fun hc => ?_⟩
  · simp [startShell] at hn
  · have := hc.locks
    rw [hv.2.2] at this
    cases this

end Xv6.Signal
