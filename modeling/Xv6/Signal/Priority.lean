/-
No starvation under priority boosting.

Each round adds BETA to the priority of every eligible process and resets the
waiting time of the one with the highest. What a process has gained over its own
CPU usage (`excess`) is bounded, but not by induction on itself: the invariant
counts, for each threshold `BETA * j`, the processes above it, and leaves room for
at most `NPROC - 1 - j` of them. A round moves the eligible ones up by one
threshold and takes the highest of them away.

Suspended and sleeping processes keep their waiting time and stay in the count. A
slot is out of it while it is free, a zombie or an EMBRYO: `allocproc` resets
`total_ticks` and `waiting_time` one after the other, and an expired process keeps
the waiting time of its last round.
-/
import Xv6.Signal.Interrupt

set_option autoImplicit false

namespace Xv6.Signal

open Xv6.Lib

variable {k : Config} {s t : Machine} {c : Nat} {i j : Slot} {e : Event}

/-! ## The search for the highest priority -/

/-- **The choice.** No eligible process has a higher priority than the chosen one. -/
theorem highest_max (h : (s.proc j).eligible = true) :
    ∃ m, highest s = some m ∧ (s.proc j).dynamic_priority ≤ (s.proc m).dynamic_priority := by
  rw [highest_scan]
  cases hs : scan (fun i => (s.proc i).eligible = true) (fun i => (s.proc i).key)
      (List.finRange NPROC) none with
  | none => exact absurd h (scan_eq_none.1 hs j (List.mem_finRange j))
  | some m =>
    refine ⟨m, rfl, ?_⟩
    obtain ⟨-, -, hmax⟩ := scan_max hs
    have hle : (s.proc j).key ≤ (s.proc m).key := hmax j (List.mem_finRange j) h
    rcases Prod.Lex.toLex_le_toLex.1 hle with hlt | ⟨heq, -⟩
    · exact hlt.le
    · exact heq.le

/-! ## The counting invariant -/

/-- What a process has gained by waiting over what it has used. -/
def excess (k : Config) (p : Proc) : Int := k.BETA * p.waiting_time - k.ALPHA * p.total_ticks

instance (st : ProcState) : Decidable (Live st) := by
  unfold Live
  infer_instance

/-- The live processes above the threshold `j`. -/
def above (k : Config) (s : Machine) (j : Nat) : Finset Slot :=
  Finset.univ.filter fun i => Live (s.proc i).state ∧ k.BETA * j < excess k (s.proc i)

theorem mem_above {j : Nat} :
    i ∈ above k s j ↔ Live (s.proc i).state ∧ k.BETA * j < excess k (s.proc i) := by
  simp [above]

structure Fair (k : Config) (s : Machine) : Prop where
  priority : ∀ i, Live (s.proc i).state → (s.proc i).initial_priority = k.INIT_PRIORITY
  fresh : ∀ i np a st, (s.proc i).pos = .creating np a st →
    st ≠ .stack → st ≠ .signals → st ≠ .ticks → st ≠ .waiting →
    (s.proc np).waiting_time = 0 ∧ (s.proc np).initial_priority = k.INIT_PRIORITY
  bound : ∀ j : Nat, (above k s j).card ≤ NPROC - 1 - j

/-- A process whose waiting time is reset is above no threshold. -/
theorem excess_reset (hα : 0 ≤ k.ALPHA) {p : Proc} (hw : p.waiting_time = 0) : excess k p ≤ 0 := by
  have : 0 ≤ k.ALPHA * (p.total_ticks : Int) := mul_nonneg hα (Int.natCast_nonneg _)
  unfold excess
  rw [hw]
  simpa using this

theorem excess_mono (hα : 0 ≤ k.ALPHA) {p q : Proc} (hw : q.waiting_time = p.waiting_time)
    (ht : p.total_ticks ≤ q.total_ticks) : excess k q ≤ excess k p := by
  have : k.ALPHA * (p.total_ticks : Int) ≤ k.ALPHA * (q.total_ticks : Int) :=
    mul_le_mul_of_nonneg_left (by exact_mod_cast ht) hα
  unfold excess
  rw [hw]
  omega

theorem threshold_nonneg (hβ : 0 < k.BETA) (j : Nat) : 0 ≤ k.BETA * (j : Int) :=
  mul_nonneg hβ.le (Int.natCast_nonneg j)

/-- Nobody comes above a threshold. -/
theorem above_subset (hβ : 0 < k.BETA) (h : ∀ i, Live (t.proc i).state →
    excess k (t.proc i) ≤ 0 ∨ Live (s.proc i).state ∧ excess k (t.proc i) ≤ excess k (s.proc i))
    (j : Nat) : above k t j ⊆ above k s j := by
  intro i hi
  rw [mem_above] at hi ⊢
  have := threshold_nonneg hβ j
  rcases h i hi.1 with h0 | ⟨hl, hle⟩
  · omega
  · exact ⟨hl, lt_of_lt_of_le hi.2 hle⟩

/-- What no step but a round, `fork` and its stages does is to change a waiting
time. -/
structure SameTimes (p q : Proc) : Prop where
  waiting_time : q.waiting_time = p.waiting_time
  initial_priority : q.initial_priority = p.initial_priority
  total_ticks : p.total_ticks ≤ q.total_ticks

theorem Fair.keep (hα : 0 ≤ k.ALPHA) (hβ : 0 < k.BETA) (h : Fair k s)
    (hpos : ∀ i np a st, (t.proc i).pos = .creating np a st → (s.proc i).pos = .creating np a st)
    (hlive : ∀ j, Live (t.proc j).state → Live (s.proc j).state)
    (htm : ∀ j, SameTimes (s.proc j) (t.proc j)) : Fair k t := by
  refine ⟨fun i hi => ?_, fun i np a st hi h1 h2 h3 h4 => ?_, fun j => ?_⟩
  · rw [(htm i).initial_priority]
    exact h.priority i (hlive i hi)
  · rw [(htm np).waiting_time, (htm np).initial_priority]
    exact h.fresh i np a st (hpos i np a st hi) h1 h2 h3 h4
  · refine le_trans (Finset.card_le_card (above_subset hβ (fun i hi => Or.inr ⟨hlive i hi, ?_⟩) j))
      (h.bound j)
    exact excess_mono hα (htm i).waiting_time (htm i).total_ticks

/-- How a round ages the excess of a process. -/
theorem aged_excess (k : Config) (s : Machine) (i : Slot) :
    excess k ((s.aged k).proc i) =
      if (s.proc i).eligible then excess k (s.proc i) + k.BETA else excess k (s.proc i) := by
  have hx : ∀ p : Proc, excess k p.expire = excess k p := fun p => by
    unfold excess Proc.expire
    split <;> rfl
  simp only [Machine.aged, Machine.each_proc, hx]
  unfold Proc.boost
  split
  · simp only [excess]
    push_cast
    ring
  · rfl

/-- The priority of an aged process that is still eligible. -/
theorem aged_priority (k : Config) (s : Machine) (i : Slot)
    (h : ((s.aged k).proc i).eligible = true) :
    (s.proc i).eligible = true ∧ ((s.aged k).proc i).dynamic_priority =
      (s.proc i).initial_priority + excess k ((s.aged k).proc i) := by
  have hel : (s.proc i).eligible = true := by
    rw [Proc.eligible_iff] at h ⊢
    simp only [Machine.aged, Machine.each_proc, Proc.expire, Proc.boost] at h
    grind -ring -linarith
  refine ⟨hel, ?_⟩
  have hex : ((Proc.boost k (s.proc i)).eligible && (Proc.boost k (s.proc i)).expired) = false := by
    rw [Proc.eligible_iff] at h
    simp only [Machine.aged, Machine.each_proc, Proc.expire] at h
    grind -ring -linarith
  simp only [Machine.aged, Machine.each_proc, Proc.expire, hex, Bool.false_eq_true, if_false]
  unfold Proc.boost
  rw [if_pos hel]
  simp only [excess]
  push_cast
  ring

/-- **The counting step.** The eligible processes move up by one threshold, and the
highest of them is taken away. -/
theorem bound_run (hα : 0 ≤ k.ALPHA) (hβ : 0 < k.BETA) (h : Fair k s)
    (hi : highest (s.aged k) = some i) (c : Nat) (j : Nat) :
    (above k (((s.aged k).set i Proc.run).setCpu c (some i)) j).card ≤ NPROC - 1 - j := by
  set t := ((s.aged k).set i Proc.run).setCpu c (some i) with ht
  -- the process that runs has waited for nothing
  have hti : i ∉ above k t j := by
    rw [mem_above]
    have := excess_reset hα (k := k) (p := t.proc i) (by simp [ht, Proc.run])
    have := threshold_nonneg hβ j
    omega
  have hto : ∀ l, l ≠ i → t.proc l = (s.aged k).proc l := fun l hl => by simp [ht, hl]
  have hlive : ∀ l, Live ((s.aged k).proc l).state → Live (s.proc l).state := fun l hl => by
    have := aged_state k s l
    grind -ring -linarith [Live]
  by_cases hex : ∃ l, ((s.aged k).proc l).eligible = true ∧
      k.BETA * j < excess k ((s.aged k).proc l)
  · -- the chosen process is above the threshold as well
    obtain ⟨l, hl, hlj⟩ := hex
    obtain ⟨m, hm, hmax⟩ := highest_max hl
    obtain rfl : i = m := Option.some.inj (hi.symm.trans hm)
    have hie := highest_eligible hi
    obtain ⟨hise, hip⟩ := aged_priority k s i hie
    obtain ⟨hlse, hlp⟩ := aged_priority k s l hl
    have hpi := h.priority i (Or.inl (Proc.eligible_iff.1 hise).1)
    have hpl := h.priority l (Or.inl (Proc.eligible_iff.1 hlse).1)
    have hij : k.BETA * j < excess k ((s.aged k).proc i) := by omega
    rcases Nat.eq_zero_or_pos j with rfl | hj
    · have hlt : (above k t 0).card < Fintype.card Slot :=
        Finset.card_lt_univ_of_notMem hti
      rw [Fintype.card_fin] at hlt
      omega
    · have hprev : ∀ l, Live (s.proc l).state → k.BETA * j < excess k ((s.aged k).proc l) →
          l ∈ above k s (j - 1) := fun l hls hlj => by
        rw [mem_above]
        refine ⟨hls, ?_⟩
        have := aged_excess k s l
        have hcast : k.BETA * ((j - 1 : Nat) : Int) = k.BETA * (j : Int) - k.BETA := by
          rw [Nat.cast_sub hj]
          push_cast
          ring
        split at this <;> omega
      -- the chosen one leaves the set, and the others were above the threshold below
      have hsub : above k t j ⊂ above k s (j - 1) := by
        refine (Finset.ssubset_iff_of_subset fun l hl => ?_).2
          ⟨i, hprev i (Or.inl (Proc.eligible_iff.1 hise).1) hij, hti⟩
        have hli : l ≠ i := fun hli => hti (hli ▸ hl)
        rw [mem_above, hto l hli] at hl
        exact hprev l (hlive l hl.1) hl.2
      have hlt := Finset.card_lt_card hsub
      have := h.bound (j - 1)
      omega
  · -- whoever is above it was not aged
    push Not at hex
    refine le_trans (Finset.card_le_card fun l hl => ?_) (h.bound j)
    have hli : l ≠ i := fun hli => hti (hli ▸ hl)
    rw [mem_above, hto l hli] at hl
    rw [mem_above]
    refine ⟨hlive l hl.1, ?_⟩
    have hag := aged_excess k s l
    have hst := aged_state k s l
    by_cases hel : (s.proc l).eligible = true
    · have hel' : ((s.aged k).proc l).eligible = true := by
        rw [Proc.eligible_iff] at hel ⊢
        have : ((s.aged k).proc l).suspended = (s.proc l).suspended := by
          simp only [Machine.aged, Machine.each_proc, Proc.expire, Proc.boost]
          grind -ring -linarith
        grind -ring -linarith [Live]
      have := hex l hel'
      omega
    · rw [if_neg hel] at hag
      omega

/-- A process that is handed over has waited for nothing. -/
theorem Fair.advance (hα : 0 ≤ k.ALPHA) (hβ : 0 < k.BETA) (h : Fair k s) (hn : Nursery s)
    {np : Slot} {a : Option ForkArgs} {st : Stage} (hi : (s.proc i).state = .RUNNING)
    (hpos : (s.proc i).pos = .creating np a st) :
    Fair k ((s.set np fun p => st.write k i (s.proc i) a p).set i
      fun p => { p with pos := st.next np a }) := by
  have hem := hn.embryo i np a st hpos
  have hcr := hn.creator
  have hni : np ≠ i := by
    rintro rfl
    rw [hem] at hi
    cases hi
  have hf := h.fresh i np a st hpos
  have hws := Stage.write_state k i (s.proc i) a (s.proc np) st
  have hwp := Stage.write_pos k i (s.proc i) a (s.proc np) st
  have hw0 : st ≠ .stack → st ≠ .signals → st ≠ .ticks →
      (st.write k i (s.proc i) a (s.proc np)).waiting_time = 0 ∧
      (st.write k i (s.proc i) a (s.proc np)).initial_priority = k.INIT_PRIORITY := by
    intro h1 h2 h3
    cases st <;> cases a <;> simp_all [Stage.write]
  refine ⟨fun l hl => ?_, fun l m b st' hl h1 h2 h3 h4 => ?_, fun j => ?_⟩
  · have hp := h.priority l
    simp only [Machine.set_proc] at *
    grind -ring -linarith [Live]
  · have hnext : ∀ m b st', st.next np a = .creating m b st' → m = np ∧
        (st' ≠ .signals → st' ≠ .ticks → st' ≠ .waiting → st ≠ .stack ∧ st ≠ .signals ∧
          st ≠ .ticks) := by
      intro m b st' hm
      cases st <;> simp [Stage.next] at hm <;> grind -ring -linarith
    have hfr := h.fresh l m b st'
    simp only [Machine.set_proc] at *
    grind -ring -linarith
  · refine le_trans (Finset.card_le_card (above_subset hβ (fun l hl => ?_) j)) (h.bound j)
    by_cases hln : l = np
    · subst hln
      left
      simp only [Machine.set_proc, if_true, if_neg hni] at hl ⊢
      refine excess_reset hα (hw0 ?_ ?_ ?_).1 <;> rintro rfl <;> rw [hws, hem] at hl <;>
        simp [Live] at hl
    · right
      by_cases hli : l = i
      · subst hli
        simp only [Machine.set_proc, if_true, if_neg hln] at hl ⊢
        exact ⟨hl, le_rfl⟩
      · simp only [Machine.set_proc, if_neg hln, if_neg hli] at hl ⊢
        exact ⟨hl, le_rfl⟩

theorem Fair.alloc (hβ : 0 < k.BETA) (h : Fair k s) (hn : Nursery s) {np : Slot}
    (a : Option ForkArgs) (hu : (s.proc np).state = .UNUSED) :
    Fair k { (s.set np (Proc.alloc s.nextpid a)).set i fun p =>
      { p with pos := .creating np a .stack } with nextpid := s.nextpid + 1 } := by
  have hnew : ∀ j b st, (s.proc j).pos ≠ .creating np b st := fun j b st hj => by
    have := hn.embryo j np b st hj
    rw [hu] at this
    cases this
  refine ⟨fun l hl => ?_, fun l m b st' hl => ?_, fun j => ?_⟩
  · have := h.priority l
    simp only [Machine.set_proc, Proc.alloc] at *
    grind -ring -linarith [Live]
  · have := h.fresh l m b st'
    simp only [Machine.set_proc, Proc.alloc] at *
    grind -ring -linarith
  · refine le_trans (Finset.card_le_card (above_subset hβ (fun l hl => ?_) j)) (h.bound j)
    right
    simp only [Machine.set_proc, Proc.alloc, excess] at *
    grind -ring -linarith [Live]

theorem Fair.step (hα : 0 ≤ k.ALPHA) (hβ : 0 < k.BETA) (h : Fair k s) (hP : Placed s)
    (hn : Nursery s) (hA : Spares Alive s e) (he : Step k s e t) (hp : t.panicked = none) :
    Fair k t := by
  replace he := effect_of_step he
  have hrun := hP.running
  by_cases ho : e.isTurn = true
  · obtain ⟨c, i, q, hi, hq, hT, -⟩ := turn_step he ho
    have hpos := hT.pos
    have hsame : SameTimes (s.proc i) q := ⟨hT.waiting_time, hT.initial_priority, hT.total_ticks⟩
    have hr := hrun c i hi
    exact h.keep hα hβ (by grind -ring -linarith [Pos.isCreating]) (by grind -ring -linarith [Live])
      (by grind -ring -linarith [SameTimes])
  cases e <;> first
    | exact absurd rfl ho
    | simp only [effect, act_eq_some, Option.some.injEq] at he
  case round c =>
    split at he
    · obtain rfl := Option.some.inj he
      have hag := aged_state k s
      have hpo := aged_pos k s
      have hip : ∀ j, ((s.aged k).proc j).initial_priority = (s.proc j).initial_priority ∧
          ((s.proc j).eligible = false →
            ((s.aged k).proc j).waiting_time = (s.proc j).waiting_time) := fun j => by
        simp only [Machine.aged, Machine.each_proc, Proc.expire, Proc.boost]
        grind -ring -linarith
      have hemb : ∀ j, (s.proc j).state = .EMBRYO → (s.proc j).eligible = false := fun j hj => by
        simp [Proc.eligible, hj]
      have hfr := h.fresh
      have hem := hn.embryo
      have hpr := h.priority
      rcases round_cases k c hp with ⟨hno, hr⟩ | ⟨i, hhi, hir, -, hr⟩
      · rw [hr]
        refine ⟨by grind -ring -linarith [Live], by grind -ring -linarith, fun j => ?_⟩
        -- without a candidate every eligible process has expired
        refine le_trans (Finset.card_le_card (above_subset hβ (fun l hl => Or.inr ?_) j))
          (h.bound j)
        have hx := aged_excess k s l
        have hnel : (s.proc l).eligible = false := by
          by_contra hel
          rw [Bool.not_eq_false, Proc.eligible_iff] at hel
          have hsus : ((s.aged k).proc l).suspended = (s.proc l).suspended := by
            simp only [Machine.aged, Machine.each_proc, Proc.expire, Proc.boost]
            grind -ring -linarith
          have hel' : ((s.aged k).proc l).eligible = true := by
            rw [Proc.eligible_iff]
            have := hag l
            grind -ring -linarith [Live]
          obtain ⟨m, hm, -⟩ := highest_max hel'
          rw [hno] at hm
          cases hm
        rw [hnel, if_neg (by simp)] at hx
        have := hag l
        exact ⟨by grind -ring -linarith [Live], hx.le⟩
      · rw [hr]
        refine ⟨by grind -ring -linarith [Live, Proc.run],
          by grind -ring -linarith [Proc.run], fun j => ?_⟩
        exact bound_run hα hβ h hhi c j
    · cases he
  case wakeup a =>
    subst he
    have := wakeup1_proc (some (.addr a)) s
    exact h.keep hα hβ (by grind -ring -linarith) (by grind -ring -linarith [Live])
      (by grind -ring -linarith [SameTimes])
  case exitDone c =>
    obtain ⟨i, hi, -, rfl⟩ := he
    have hi' := hrun c i hi
    split
    · exact h.keep hα hβ (by grind -ring -linarith) (by grind -ring -linarith)
        (by grind -ring -linarith [SameTimes])
    · have hself := exitDone_self c i s
      have hother := fun j (hj : j ≠ i) => exitDone_other (c := c) (s := s) hj
      have hre : ∀ j, SameTimes (s.proc j) ((s.proc j).reparent i s.initproc) ∧
          ((s.proc j).reparent i s.initproc).pos = (s.proc j).pos := fun j => by
        unfold Proc.reparent
        split <;> exact ⟨⟨rfl, rfl, le_rfl⟩, rfl⟩
      refine h.keep hα hβ (fun j np a st hj => ?_) (fun j hj => ?_) fun j => ?_
      all_goals by_cases hji : j = i
      · rw [hji, hself] at hj
        cases hj
      · obtain ⟨st', -, hq⟩ := hother j hji
        rw [hq] at hj
        exact (hre j).2.symm.trans hj
      · rw [hji, hself] at hj
        rcases hj with hj | hj | hj | hj <;> cases hj
      · obtain ⟨st', hst', hq⟩ := hother j hji
        rw [Proc.reparent_state] at hst'
        rw [hq] at hj
        grind -ring -linarith [Live]
      · rw [hji, hself]
        have hf := (hre i).1
        exact ⟨hf.waiting_time, hf.initial_priority, hf.total_ticks⟩
      · obtain ⟨st', hst', hq⟩ := hother j hji
        rw [hq]
        have hf := (hre j).1
        exact ⟨hf.waiting_time, hf.initial_priority, hf.total_ticks⟩
  case wait c =>
    obtain ⟨i, hi, -, rfl⟩ := he
    have := hrun c i hi
    rcases wait_cases c i s with ⟨j, -, hz, hw⟩ | hw | ⟨-, hw⟩ <;> rw [hw]
    · exact h.keep hα hβ (by grind -ring -linarith [Proc.reap])
        (by grind -ring -linarith [Live, Proc.reap])
        (by grind -ring -linarith [SameTimes, Proc.reap])
    · exact h
    · exact h.keep hα hβ (by grind -ring -linarith [sleep]) (by grind -ring -linarith [Live, sleep])
        (by grind -ring -linarith [SameTimes, sleep])
  case kill c pid =>
    obtain ⟨i, hi, -, rfl⟩ := he
    rcases kill_cases pid s with hk | ⟨j, -, hk⟩ <;> rw [hk]
    · exact h
    · exact h.keep hα hβ (by grind -ring -linarith [Proc.kill])
        (by grind -ring -linarith [Live, Proc.kill])
        (by grind -ring -linarith [SameTimes, Proc.kill])
  case fork c a =>
    obtain ⟨i, hi, -, rfl⟩ := he
    rcases allocproc_cases i a s with hk | ⟨np, hu, hk⟩ <;> rw [hk]
    · exact h
    · exact h.alloc hβ hn a hu
  case advance c =>
    obtain ⟨i, hi, hg, rfl⟩ := he
    obtain ⟨np, a, st, hpos, hk⟩ := advance_cases k hg
    rw [hk]
    exact h.advance hα hβ hn (hrun c i hi) hpos
  case fail c =>
    obtain ⟨i, hi, hg, rfl⟩ := he
    obtain ⟨np, a, st, hpos, -, hk⟩ := failFork_cases hg
    rw [hk]
    exact h.keep hα hβ (by grind -ring -linarith [Proc.noStack, Proc.noCopy])
      (by grind -ring -linarith [Live, Proc.noStack, Proc.noCopy])
        (by grind -ring -linarith [SameTimes, Proc.noStack, Proc.noCopy])
  case sendsig n =>
    subst he
    refine h.keep hα hβ (fun i np a st hi => by rw [← hi, sendsig_pos]) (fun j hj => ?_) fun j => ?_
    · have := sendsig_state n s j
      have := hA j
      grind -ring -linarith [Alive, Live]
    · unfold sendsig
      constructor <;>
        grind -ring -linarith [Proc.kill, Proc.background, Proc.foreground, Proc.custom]
  case scheduler_start c =>
    obtain ⟨i, hi, -, rfl⟩ := he
    exact h.keep hα hβ (by grind -ring -linarith [Proc.start])
      (by grind -ring -linarith [Live, Proc.start])
      (by grind -ring -linarith [SameTimes, Proc.start])
  case resumeExit c =>
    obtain ⟨i, hi, -, rfl⟩ := he
    cases hp

theorem fair_boot (hα : 0 ≤ k.ALPHA) (hβ : 0 < k.BETA) : Fair k (boot k) := by
  have hw : ∀ i, ((boot k).proc i).waiting_time = 0 := fun i => by
    simp only [boot, initcode]
    split <;> rfl
  refine ⟨fun i hi => ?_, fun i np a st hi => ?_, fun j => ?_⟩
  · simp only [boot] at hi ⊢
    split
    · rfl
    · rename_i h0
      rw [if_neg h0] at hi
      rcases hi with hi | hi | hi | hi <;> cases hi
  · rcases boot_pos k i with hp | hp <;> rw [hp] at hi <;> cases hi
  · have : above k (boot k) j = ∅ := by
      refine Finset.eq_empty_of_forall_notMem fun i hi => ?_
      rw [mem_above] at hi
      have := excess_reset hα (hw i)
      have := threshold_nonneg hβ j
      omega
    rw [this]
    simp

/-- **No starvation.** In a run whose signals resume only SLEEPING, RUNNABLE and
CREATED processes, a RUNNABLE process has waited at most `NPROC - 1` rounds beyond
what its CPU usage accounts for. -/
theorem waiting_bounded {es : List Event} (hα : 0 ≤ k.ALPHA) (hβ : 0 < k.BETA)
    (hrun : Run (Guarded (Step k) (Spares Alive)) (boot k) es s) (hs : s.panicked = none)
    (hi : (s.proc i).state = .RUNNABLE) :
    k.BETA * (s.proc i).waiting_time ≤
      k.ALPHA * (s.proc i).total_ticks + k.BETA * (NPROC - 1 : Nat) := by
  have hS : Sound s ∧ (s.panicked = none → Fair k s) := by
    refine hrun.invariant (P := fun s => Sound s ∧ (s.panicked = none → Fair k s))
      (fun s e t hst h => ?_) ⟨sound_boot k, fun _ => fair_boot hα hβ⟩
    have hp := not_panicked_of_step hst.2
    exact ⟨h.1.step (hst.1.mono fun st h => h.parked) hst.2,
      (h.2 hp).step hα hβ (h.1.placed hp) (h.1.nursery hp) hst.1 hst.2⟩
  -- nobody is above the last threshold
  have hb := (hS.2 hs).bound (NPROC - 1)
  have hmem : i ∉ above k s (NPROC - 1) := fun hm => by
    have := Finset.card_pos.2 ⟨i, hm⟩
    omega
  rw [mem_above] at hmem
  have : excess k (s.proc i) ≤ k.BETA * (NPROC - 1 : Nat) := by
    by_contra hx
    exact hmem ⟨Or.inl hi, by omega⟩
  unfold excess at this
  omega

/-- init waits while the shell runs, sleeps and is resumed by SIGBG. -/
theorem waiting_bounded_init : ∃ es s, Run (Guarded (Step xv6) (Spares Alive)) (boot xv6) es s ∧
    xv6.BETA * (s.proc 0).waiting_time ≤
      xv6.ALPHA * (s.proc 0).total_ticks + xv6.BETA * (NPROC - 1 : Nat) := by
  have hx : ((stepsIf xv6 (Spares Alive) (startShell ++ [Event.round 0, .forkret 0, .enter 0,
      .sleep 0 7, .sendsig 2]) (boot xv6)).map fun s => (s.panicked, (s.proc 0).state)) =
      some (none, .RUNNABLE) := by decide +kernel
  obtain ⟨s, hs, hv⟩ := Option.map_eq_some_iff.1 hx
  simp only [Prod.mk.injEq] at hv
  exact ⟨_, s, run_of_stepsIf hs,
    waiting_bounded (by decide) (by decide) (run_of_stepsIf hs) hv.1 hv.2⟩

/-- A scheduler that weighs CPU usage heavily. -/
def heavyUse : Config where
  ALPHA := 100
  BETA := 1
  INIT_PRIORITY := 10

/-- The shell's child is charged one tick and is then, through SIGBG and SIGFG,
RUNNABLE while it runs on CPU 0. CPU 1 prefers the shell 65 times. The child exits and
is reaped; `allocproc` has reset `total_ticks` of its slot, and not yet
`waiting_time`, when SIGBG and SIGFG make the new EMBRYO RUNNABLE. -/
def staleWait : List Event :=
  startShell ++ [Event.round 0, .forkret 0, .enter 0, .fork 0 none] ++
    List.replicate 8 (Event.advance 0) ++
    [Event.wait 0, .round 0, .forkret 0, .timer 0, .round 0, .retest 0, .trapret 0, .enter 0,
      .sleep 0 7, .round 0, .retest 0, .trapret 0, .sendsig 2, .sendsig 3] ++
    (List.replicate 65 [Event.round 1, .sleep 1 9, .wakeup 9]).flatten ++
    [Event.round 1, .sleep 1 9, .enter 0, .exit 0, .dropCwd 0, .exitDone 0, .wakeup 7, .round 0,
      .wait 0, .fork 0 none, .advance 0, .advance 0, .advance 0, .sendsig 2, .sendsig 3]

theorem staleWait_starves : ∃ s, Run (Step heavyUse) (boot heavyUse) staleWait s ∧
    s.panicked = none ∧ (s.proc 2).state = .RUNNABLE ∧
    ¬ heavyUse.BETA * (s.proc 2).waiting_time ≤
      heavyUse.ALPHA * (s.proc 2).total_ticks + heavyUse.BETA * (NPROC - 1 : Nat) := by
  have hx : ((steps heavyUse staleWait (boot heavyUse)).map fun s => (s.panicked,
      (s.proc 2).state, (s.proc 2).waiting_time, (s.proc 2).total_ticks)) =
      some (none, .RUNNABLE, 66, 0) := by decide +kernel
  obtain ⟨s, hs, hv⟩ := Option.map_eq_some_iff.1 hx
  simp only [Prod.mk.injEq] at hv
  refine ⟨s, run_of_steps hs, hv.1, hv.2.1, ?_⟩
  rw [hv.2.2.1, hv.2.2.2]
  decide

end Xv6.Signal
