/-
A round of `scheduler` with everything it writes.

The two loops over the table are here as the source has them, slot by slot: the first one
counts the waiting time and recomputes the priority, the second one marks the expired
processes and keeps the best of the others. The machine has the clock, the metrics that
the round writes and the `prev_proc` of each CPU beside it. As long as no priority leaves
the range of an `int`, the process table after the round is that of `round`, and the
choice is the scan of `Lib.Best` by priority and then by pid.
-/
import Xv6.Signal.Cpu

set_option autoImplicit false

namespace Xv6.Signal

open Xv6.Lib

/-- What a scheduler writes in `struct proc` beside the fields of `Proc`. -/
structure Metrics where
  creation_time : BitVec 32
  end_time : BitVec 32
  response_time : BitVec 32
  first_scheduled : Bool
  context_switches : BitVec 32
  deriving DecidableEq, Repr

/-- The machine with the clock, the metrics, and the `prev_proc` of each scheduler. -/
structure Sched where
  m : Machine
  ticks : BitVec 32
  metrics : Slot → Metrics
  prev_proc : Nat → Option Slot

namespace Sched

variable (s : Sched)

def setMetrics (i : Slot) (f : Metrics → Metrics) : Sched :=
  { s with metrics := fun j => if j = i then f (s.metrics j) else s.metrics j }

def setPrev (c : Nat) (q : Option Slot) : Sched :=
  { s with prev_proc := fun d => if d = c then q else s.prev_proc d }

section
variable (i j : Slot) (f : Metrics → Metrics) (c d : Nat) (q : Option Slot)

@[simp] theorem setMetrics_m : (s.setMetrics i f).m = s.m := rfl
@[simp] theorem setMetrics_ticks : (s.setMetrics i f).ticks = s.ticks := rfl
@[simp] theorem setMetrics_prev : (s.setMetrics i f).prev_proc = s.prev_proc := rfl
@[simp] theorem setMetrics_metrics :
    (s.setMetrics i f).metrics j = if j = i then f (s.metrics j) else s.metrics j := rfl
@[simp] theorem setPrev_m : (s.setPrev c q).m = s.m := rfl
@[simp] theorem setPrev_ticks : (s.setPrev c q).ticks = s.ticks := rfl
@[simp] theorem setPrev_metrics : (s.setPrev c q).metrics = s.metrics := rfl
@[simp] theorem setPrev_prev :
    (s.setPrev c q).prev_proc d = if d = c then q else s.prev_proc d := rfl

end

end Sched

/-! ## The code -/

/-- The value of an `int` that a computation has left. -/
def int (n : Int) : Int := n.bmod (2 ^ 32)

/-- The dynamic priority of a process in the round, waiting time counted. -/
def Proc.priority (k : Config) (p : Proc) : Int :=
  p.initial_priority - k.ALPHA * p.total_ticks + k.BETA * (p.waiting_time + 1 : Nat)

/-- The body of the first loop. -/
def Proc.boostInt (k : Config) (p : Proc) : Proc :=
  if p.eligible then
    { p with waiting_time := p.waiting_time + 1, dynamic_priority := int (p.priority k) }
  else p

/-- The first loop. -/
def boostLoop (k : Config) (m : Machine) : Machine :=
  (List.finRange NPROC).foldl (fun m i => m.set i (Proc.boostInt k)) m

/-- The body of the second loop; `best` is `highest_priority_proc`. -/
def examine (a : Sched × Option Slot) (i : Slot) : Sched × Option Slot :=
  let (s, best) := a
  let p := s.m.proc i
  if p.suspended then (s, best)
  else if p.state ≠ .RUNNABLE then (s, best)
  else if p.expired then
    ({ s with m := s.m.set i fun p => { p with state := .ZOMBIE } }.setMetrics i
      fun x => { x with end_time := s.ticks }, best)
  else
    match best with
    | none => (s, some i)
    | some j => if p.better (s.m.proc j) then (s, some i) else (s, some j)

/-- The second loop. -/
def examineLoop (s : Sched) : Sched × Option Slot :=
  (List.finRange NPROC).foldl examine (s, none)

/-- The first dispatch of a process. -/
def Metrics.first (ticks : BitVec 32) (x : Metrics) : Metrics :=
  if x.first_scheduled then x
  else { x with first_scheduled := true, response_time := ticks - x.creation_time }

/-- `prev_proc->context_switches++`, for the dispatch of `i` on CPU `c`. -/
def countSwitch (c : Nat) (i : Slot) (s : Sched) : Sched :=
  match s.prev_proc c with
  | some q =>
    if q ≠ i ∧ i ≠ 1 then
      s.setMetrics q fun x => { x with context_switches := x.context_switches + 1 }
    else s
  | none => s

/-- The dispatch. The source comes to `prev_proc` when `switchuvm` has not panicked. -/
def run (c : Nat) (i : Slot) (s : Sched) : Sched :=
  let p := s.m.proc i
  let s := s.setMetrics i (Metrics.first s.ticks)
  let s := { s with m := dispatch c i s.m }
  if p.kstack && p.pgdir.isSome then (countSwitch c i s).setPrev c (some i) else s

/-- One round of `scheduler` on CPU `c`. -/
def scheduler (k : Config) (c : Nat) (s : Sched) : Sched :=
  match examineLoop { s with m := boostLoop k s.m } with
  | (s, some i) => run c i s
  | (s, none) => s

/-! ## The first loop -/

variable {k : Config} {c : Nat} {s t : Sched} {m : Machine} {i j : Slot} {l : List Slot}

theorem set_loop (f : Proc → Proc) (hl : l.Nodup) (m : Machine) :
    (l.foldl (fun m i => m.set i f) m) =
      { m with proc := fun j => if j ∈ l then f (m.proc j) else m.proc j } := by
  induction l generalizing m with
  | nil => simp
  | cons i l ih =>
    rw [List.nodup_cons] at hl
    rw [List.foldl_cons, ih hl.2]
    unfold Machine.set
    refine congrArg (fun p => { m with proc := p }) (funext fun j => ?_)
    by_cases hj : j = i
    · subst hj
      simp [hl.1]
    · simp [hj]

theorem boostLoop_eq (k : Config) (m : Machine) : boostLoop k m = m.each (Proc.boostInt k) := by
  unfold boostLoop
  rw [set_loop _ (List.nodup_finRange NPROC)]
  simp [Machine.each]

/-- The priorities of the round are in the range of an `int`. -/
def Fits (k : Config) (m : Machine) : Prop :=
  ∀ i, (m.proc i).eligible = true →
    -2 ^ 31 ≤ (m.proc i).priority k ∧ (m.proc i).priority k < 2 ^ 31

theorem int_eq {n : Int} (hlo : -2 ^ 31 ≤ n) (hhi : n < 2 ^ 31) : int n = n := by
  unfold int
  apply Int.bmod_eq_of_le
  · omega
  · omega

theorem boostInt_eq (hF : Fits k m) (i : Slot) : (m.proc i).boostInt k = (m.proc i).boost k := by
  unfold Proc.boostInt Proc.boost
  split
  · next he =>
    obtain ⟨hlo, hhi⟩ := hF i he
    rw [int_eq hlo hhi]
    rfl
  · rfl

theorem boostLoop_boost (hF : Fits k m) : boostLoop k m = m.each (Proc.boost k) := by
  rw [boostLoop_eq]
  unfold Machine.each
  exact congrArg (fun p => { m with proc := p }) (funext fun i => boostInt_eq hF i)

/-! ## The second loop -/

/-- Whether the second loop considers the process. -/
def Proc.candidate (p : Proc) : Bool := p.eligible && !p.expired

/-- The slots `l` have been examined: the expired processes among them are zombies. -/
def marked (s : Sched) (l : List Slot) : Sched :=
  { s with
    m := { s.m with proc := fun j => if j ∈ l then (s.m.proc j).expire else s.m.proc j }
    metrics := fun j =>
      if j ∈ l ∧ (s.m.proc j).eligible = true ∧ (s.m.proc j).expired = true then
        { s.metrics j with end_time := s.ticks }
      else s.metrics j }

/-- One step of the search for the best candidate. -/
abbrev betterOf (s : Sched) (best : Option Slot) (i : Slot) : Option Slot :=
  better (fun i => (s.m.proc i).candidate = true) (fun i => (s.m.proc i).key) best i

theorem betterOf_of_not {best : Option Slot} (h : ¬(s.m.proc i).candidate = true) :
    betterOf s best i = best := better_of_not h

theorem betterOf_none (h : (s.m.proc i).candidate = true) : betterOf s none i = some i :=
  better_none h

theorem betterOf_some (h : (s.m.proc i).candidate = true) : betterOf s (some j) i =
    if (s.m.proc j).key < (s.m.proc i).key then some i else some j := better_some h

/-- The scan of the table for the best candidate. -/
abbrev bestOf (s : Sched) (l : List Slot) (best : Option Slot) : Option Slot :=
  scan (fun i => (s.m.proc i).candidate = true) (fun i => (s.m.proc i).key) l best

theorem expire_of_candidate {p : Proc} (h : p.candidate = true) : p.expire = p := by
  unfold Proc.candidate at h
  unfold Proc.expire
  rw [Bool.and_eq_true, Bool.not_eq_true'] at h
  rw [h.2, Bool.and_false, if_neg Bool.false_ne_true]

theorem expire_of_not {p : Proc} (h : (p.eligible && p.expired) = false) : p.expire = p := by
  unfold Proc.expire
  rw [h, if_neg Bool.false_ne_true]

theorem marked_skip {done : List Slot}
    (h : ((s.m.proc i).eligible && (s.m.proc i).expired) = false) :
    marked s (i :: done) = marked s done := by
  unfold marked
  have hproc : ∀ j, (if j ∈ i :: done then (s.m.proc j).expire else s.m.proc j) =
      if j ∈ done then (s.m.proc j).expire else s.m.proc j := by
    intro j
    by_cases hj : j = i
    · subst hj
      rw [expire_of_not h, ite_self, ite_self]
    · simp [hj]
  have hmetrics : ∀ j, (if j ∈ i :: done ∧ (s.m.proc j).eligible = true ∧
        (s.m.proc j).expired = true then { s.metrics j with end_time := s.ticks }
      else s.metrics j) =
      if j ∈ done ∧ (s.m.proc j).eligible = true ∧ (s.m.proc j).expired = true then
        { s.metrics j with end_time := s.ticks }
      else s.metrics j := by
    intro j
    by_cases hj : j = i
    · subst hj
      have hn : ¬((s.m.proc j).eligible = true ∧ (s.m.proc j).expired = true) := fun hx => by
        rw [hx.1, hx.2] at h
        cases h
      rw [if_neg fun hx => hn hx.2, if_neg fun hx => hn hx.2]
    · simp [hj]
  simp only [hproc, hmetrics]

theorem marked_expired {done : List Slot} (hi : i ∉ done) (he : (s.m.proc i).eligible = true)
    (hx : (s.m.proc i).expired = true) : marked s (i :: done) =
      { marked s done with
        m := (marked s done).m.set i fun p => { p with state := .ZOMBIE } }.setMetrics i
          fun x => { x with end_time := s.ticks } := by
  unfold marked Sched.setMetrics Machine.set
  have hproc : ∀ j, (if j ∈ i :: done then (s.m.proc j).expire else s.m.proc j) =
      if j = i then { (if j ∈ done then (s.m.proc j).expire else s.m.proc j) with state := .ZOMBIE }
      else if j ∈ done then (s.m.proc j).expire else s.m.proc j := by
    intro j
    by_cases hj : j = i
    · subst hj
      rw [if_pos List.mem_cons_self, if_pos rfl, if_neg hi]
      unfold Proc.expire
      rw [he, hx, Bool.and_true, if_pos rfl]
    · simp [hj]
  have hmetrics : ∀ j, (if j ∈ i :: done ∧ (s.m.proc j).eligible = true ∧
        (s.m.proc j).expired = true then { s.metrics j with end_time := s.ticks }
      else s.metrics j) =
      if j = i then
        { (if j ∈ done ∧ (s.m.proc j).eligible = true ∧ (s.m.proc j).expired = true then
            { s.metrics j with end_time := s.ticks }
          else s.metrics j) with end_time := s.ticks }
      else if j ∈ done ∧ (s.m.proc j).eligible = true ∧ (s.m.proc j).expired = true then
        { s.metrics j with end_time := s.ticks }
      else s.metrics j := by
    intro j
    by_cases hj : j = i
    · subst hj
      rw [if_pos ⟨List.mem_cons_self, he, hx⟩, if_pos rfl, if_neg fun h => hi h.1]
    · simp [hj]
  simp only [hproc, hmetrics]

theorem examine_marked {done : List Slot} {best : Option Slot} (hi : i ∉ done)
    (hbest : ∀ j, best = some j → (s.m.proc j).candidate = true) :
    examine (marked s done, best) i = (marked s (i :: done), betterOf s best i) := by
  have hp : (marked s done).m.proc i = s.m.proc i := if_neg hi
  unfold examine
  simp only [hp]
  by_cases hs : (s.m.proc i).suspended = true
  · have he : (s.m.proc i).eligible = false := by
      unfold Proc.eligible
      rw [hs, Bool.not_true, Bool.and_false]
    have hc : ¬(s.m.proc i).candidate = true := by
      unfold Proc.candidate
      rw [he, Bool.false_and]
      exact Bool.false_ne_true
    rw [if_pos hs, betterOf_of_not hc, marked_skip (by rw [he, Bool.false_and])]
  rw [if_neg hs]
  by_cases hr : (s.m.proc i).state ≠ .RUNNABLE
  · have he : (s.m.proc i).eligible = false := by
      unfold Proc.eligible
      rw [beq_eq_false_iff_ne.2 hr, Bool.false_and]
    have hc : ¬(s.m.proc i).candidate = true := by
      unfold Proc.candidate
      rw [he, Bool.false_and]
      exact Bool.false_ne_true
    rw [if_pos hr, betterOf_of_not hc, marked_skip (by rw [he, Bool.false_and])]
  rw [if_neg hr]
  have he : (s.m.proc i).eligible = true := by
    unfold Proc.eligible
    rw [not_not.1 hr, Bool.eq_false_of_not_eq_true hs]
    rfl
  by_cases hx : (s.m.proc i).expired = true
  · have hc : ¬(s.m.proc i).candidate = true := by
      unfold Proc.candidate
      rw [hx, Bool.not_true, Bool.and_false]
      exact Bool.false_ne_true
    rw [if_pos hx, betterOf_of_not hc, marked_expired hi he hx]
    rfl
  · have hx' := Bool.eq_false_of_not_eq_true hx
    have hc : (s.m.proc i).candidate = true := by
      unfold Proc.candidate
      rw [he, hx']
      rfl
    rw [if_neg hx, marked_skip (by rw [hx', Bool.and_false])]
    cases best with
    | none => rw [betterOf_none hc]
    | some j =>
      -- the best process so far is a candidate, hence no zombie
      have hq : (marked s done).m.proc j = s.m.proc j := by
        show (if j ∈ done then (s.m.proc j).expire else s.m.proc j) = s.m.proc j
        rw [expire_of_candidate (hbest j rfl), ite_self]
      rw [betterOf_some hc]
      simp only [hq]
      by_cases hb : (s.m.proc i).better (s.m.proc j) = true
      · rw [if_pos hb, if_pos ((better_iff _ _).1 hb)]
      · rw [if_neg hb, if_neg fun h => hb ((better_iff _ _).2 h)]

theorem better_candidate {best : Option Slot}
    (hbest : ∀ j, best = some j → (s.m.proc j).candidate = true) (i : Slot) :
    ∀ j, betterOf s best i = some j → (s.m.proc j).candidate = true := by
  intro j hj
  have hscan : bestOf s [i] best = some j := hj
  rcases scan_mem hscan with h | ⟨-, h⟩
  · exact hbest j h
  · exact h

/-- **The second loop** marks the expired processes, and finds the best of the others. -/
theorem examine_loop {done : List Slot} {best : Option Slot} (hl : l.Nodup)
    (hd : ∀ i ∈ l, i ∉ done) (hbest : ∀ j, best = some j → (s.m.proc j).candidate = true) :
    l.foldl examine (marked s done, best) = (marked s (l.reverse ++ done), bestOf s l best) := by
  induction l generalizing done best with
  | nil => rfl
  | cons i l ih =>
    rw [List.nodup_cons] at hl
    rw [List.foldl_cons, examine_marked (hd i List.mem_cons_self) hbest,
      ih hl.2 (fun j hj hm => ?_) (better_candidate hbest i), List.reverse_cons, List.append_assoc]
    · rfl
    · rcases List.mem_cons.1 hm with rfl | hm
      · exact hl.1 hj
      · exact hd j (List.mem_cons_of_mem i hj) hm

theorem examineLoop_eq (s : Sched) : examineLoop s =
    (marked s (List.finRange NPROC).reverse, bestOf s (List.finRange NPROC) none) := by
  have hnil : marked s [] = s := by
    unfold marked
    simp
  have h : (List.finRange NPROC).foldl examine (marked s [], none) =
      (marked s ((List.finRange NPROC).reverse ++ []), bestOf s (List.finRange NPROC) none) :=
    examine_loop (List.nodup_finRange NPROC) (fun i _ => List.not_mem_nil) fun j hj =>
      absurd hj.symm (Option.some_ne_none j)
  rw [hnil, List.append_nil] at h
  exact h

/-! ## The round and its abstraction -/

theorem expire_eligible (p : Proc) : p.expire.eligible = p.candidate := by
  unfold Proc.expire Proc.candidate
  cases he : p.eligible with
  | false =>
    rw [Bool.false_and, if_neg Bool.false_ne_true, he]
    rfl
  | true =>
    cases hx : p.expired with
    | false => exact he
    | true => rfl

/-- The search of `round`, in the table without the expired processes, is the same scan. -/
theorem highest_eq (hm : ∀ i, m.proc i = (s.m.proc i).expire) :
    highest m = bestOf s (List.finRange NPROC) none := by
  rw [highest_scan]
  refine scan_congr (fun i => ?_) (fun i hi => ?_) fun j hj => absurd hj.symm (Option.some_ne_none j)
  · rw [hm i, expire_eligible]
  · rw [hm i, expire_eligible] at hi
    rw [hm i, expire_of_candidate hi]

/-- The table after the first loop, and after the second one. -/
def boosted (k : Config) (s : Sched) : Sched := { s with m := s.m.each (Proc.boost k) }

def aged (k : Config) (s : Sched) : Sched := marked (boosted k s) (List.finRange NPROC).reverse

theorem aged_proc (k : Config) (s : Sched) (i : Slot) :
    (aged k s).m.proc i = ((s.m.proc i).boost k).expire :=
  if_pos (List.mem_reverse.2 (List.mem_finRange i))

theorem aged_m (k : Config) (s : Sched) : (aged k s).m = s.m.aged k :=
  congrArg (fun p => { s.m with proc := p }) (funext (aged_proc k s))

@[simp] theorem countSwitch_m (c : Nat) (i : Slot) (s : Sched) : (countSwitch c i s).m = s.m := by
  unfold countSwitch
  split
  · split
    · rfl
    · rfl
  · rfl

@[simp] theorem run_m (c : Nat) (i : Slot) (s : Sched) : (run c i s).m = dispatch c i s.m := by
  unfold run
  simp only
  split
  · simp
  · rfl

/-- The two loops, and then the dispatch if there is a candidate. -/
theorem scheduler_loops (k : Config) (c : Nat) (s : Sched) : scheduler k c s =
    match bestOf { s with m := boostLoop k s.m } (List.finRange NPROC) none with
    | some i => run c i (marked { s with m := boostLoop k s.m } (List.finRange NPROC).reverse)
    | none => marked { s with m := boostLoop k s.m } (List.finRange NPROC).reverse := by
  unfold scheduler
  rw [examineLoop_eq]
  cases bestOf { s with m := boostLoop k s.m } (List.finRange NPROC) none with
  | none => rfl
  | some i => rfl

theorem scheduler_eq (hF : Fits k s.m) (c : Nat) : scheduler k c s =
    match bestOf (boosted k s) (List.finRange NPROC) none with
    | some i => run c i (aged k s)
    | none => aged k s := by
  rw [scheduler_loops, boostLoop_boost hF]
  rfl

/-- **On the table, a round is `round`.** -/
theorem scheduler_round (hF : Fits k s.m) (c : Nat) : (scheduler k c s).m = round k c s.m := by
  have hbest : highest (s.m.aged k) = bestOf (boosted k s) (List.finRange NPROC) none :=
    highest_eq fun i => rfl
  rw [scheduler_eq hF]
  unfold round
  rw [hbest]
  cases bestOf (boosted k s) (List.finRange NPROC) none with
  | none => exact aged_m k s
  | some i =>
    simp only [run_m]
    rw [aged_m]

/-! ## What a round promises -/

theorem boost_eligible (k : Config) (p : Proc) : (p.boost k).eligible = p.eligible := by
  unfold Proc.boost
  split
  · rfl
  · rfl

theorem boost_candidate (k : Config) (p : Proc) : (p.boost k).candidate = p.candidate := by
  unfold Proc.boost
  split
  · rfl
  · rfl

theorem boost_key {p : Proc} (he : p.eligible = true) :
    (p.boost k).key = toLex (p.priority k, OrderDual.toDual p.pid) := by
  unfold Proc.boost
  rw [if_pos he]
  rfl

theorem eligible_of_candidate {p : Proc} (h : p.candidate = true) : p.eligible = true := by
  unfold Proc.candidate at h
  rw [Bool.and_eq_true] at h
  exact h.1

/-- What is found has the greatest priority, and the smallest pid among those. -/
theorem best_some (h : bestOf (boosted k s) (List.finRange NPROC) none = some i) :
    (s.m.proc i).candidate = true ∧ ∀ j, (s.m.proc j).candidate = true →
      (s.m.proc j).priority k < (s.m.proc i).priority k ∨
        (s.m.proc j).priority k = (s.m.proc i).priority k ∧ (s.m.proc i).pid ≤ (s.m.proc j).pid := by
  obtain ⟨-, hi, hmax⟩ := scan_max h
  have hci : (s.m.proc i).candidate = true := (boost_candidate k _).symm.trans hi
  refine ⟨hci, fun j hj => ?_⟩
  have hle : ((s.m.proc j).boost k).key ≤ ((s.m.proc i).boost k).key :=
    hmax j (List.mem_finRange j) ((boost_candidate k _).trans hj)
  rw [boost_key (eligible_of_candidate hj), boost_key (eligible_of_candidate hci),
    Prod.Lex.toLex_le_toLex] at hle
  rcases hle with hlt | ⟨heq, hpid⟩
  · exact Or.inl hlt
  · exact Or.inr ⟨heq, OrderDual.toDual_le_toDual.1 hpid⟩

theorem best_none : bestOf (boosted k s) (List.finRange NPROC) none = none ↔
    ∀ i, (s.m.proc i).candidate = false := by
  rw [scan_eq_none]
  constructor
  · intro h i
    have hn := h i (List.mem_finRange i)
    rw [← boost_candidate k]
    exact Bool.eq_false_of_not_eq_true hn
  · intro h i _ hc
    have hci : (s.m.proc i).candidate = true := (boost_candidate k _).symm.trans hc
    rw [h i] at hci
    cases hci

/-- What a round of CPU `c` leads to. -/
structure Selects (k : Config) (c : Nat) (s t : Sched) : Prop where
  /-- Each RUNNABLE process that is not suspended has waited once more, and has its new
  priority; the dispatched one starts to wait anew. -/
  boosted : ∀ i, (s.m.proc i).eligible = true →
    (t.m.proc i).dynamic_priority = (s.m.proc i).priority k ∧
      (t.m.proc i).waiting_time = if t.m.cpu c = some i then 0 else (s.m.proc i).waiting_time + 1
  /-- The dispatched process is a best candidate. -/
  chosen : ∀ i, t.m.cpu c = some i → (s.m.proc i).candidate = true ∧
    ∀ j, (s.m.proc j).candidate = true →
      (s.m.proc j).priority k < (s.m.proc i).priority k ∨
        (s.m.proc j).priority k = (s.m.proc i).priority k ∧ (s.m.proc i).pid ≤ (s.m.proc j).pid
  idle : t.m.cpu c = none ↔ ∀ i, (s.m.proc i).candidate = false
  /-- The expired processes are zombies. The dispatched one runs, unless `switchuvm` panics. -/
  state : ∀ i, (s.m.proc i).eligible = true → (t.m.proc i).state =
    if (s.m.proc i).expired then .ZOMBIE
    else if t.m.cpu c = some i ∧ (s.m.proc i).kstack = true ∧ (s.m.proc i).pgdir.isSome = true then
      .RUNNING
    else .RUNNABLE
  ended : ∀ i, (t.metrics i).end_time =
    if (s.m.proc i).eligible = true ∧ (s.m.proc i).expired = true then s.ticks
    else (s.metrics i).end_time
  /-- `first_scheduled` and `response_time` are written at the first dispatch. -/
  first : ∀ i, ((t.metrics i).first_scheduled, (t.metrics i).response_time) =
    if t.m.cpu c = some i ∧ (s.metrics i).first_scheduled = false then
      (true, s.ticks - (s.metrics i).creation_time)
    else ((s.metrics i).first_scheduled, (s.metrics i).response_time)
  /-- No other field of an eligible process changes. -/
  rest : ∀ i, ∃ st w d ch, t.m.proc i =
    { s.m.proc i with state := st, waiting_time := w, dynamic_priority := d, chan := ch }
  /-- Of the other processes only `context_switches` does, the suspended ones included. -/
  still : ∀ i, (s.m.proc i).eligible = false → t.m.proc i = s.m.proc i ∧
    ∃ n, t.metrics i = { s.metrics i with context_switches := n }

theorem dispatch_cpu (c : Nat) (i : Slot) (m : Machine) : (dispatch c i m).cpu c = some i := by
  unfold dispatch
  simp only
  split
  · split
    · simp
    · simp
  · simp

theorem dispatch_proc (c : Nat) (i j : Slot) (m : Machine) : (dispatch c i m).proc j =
    if j = i then
      if (m.proc i).kstack = true ∧ (m.proc i).pgdir.isSome = true then
        { m.proc j with waiting_time := 0, state := .RUNNING, chan := none }
      else { m.proc j with waiting_time := 0 }
    else m.proc j := by
  unfold dispatch
  by_cases hj : j = i
  · subst hj
    cases hk : (m.proc j).kstack <;> cases hp : (m.proc j).pgdir <;> simp [hk, hp]
  · simp only [if_neg hj]
    split
    · split
      · simp [hj]
      · simp [hj]
    · simp [hj]

theorem countSwitch_metrics (c : Nat) (i : Slot) (s : Sched) (j : Slot) :
    ∃ n, (countSwitch c i s).metrics j = { s.metrics j with context_switches := n } := by
  unfold countSwitch
  split
  · split
    · rw [Sched.setMetrics_metrics]
      split
      · exact ⟨_, rfl⟩
      · exact ⟨_, rfl⟩
    · exact ⟨_, rfl⟩
  · exact ⟨_, rfl⟩

theorem run_metrics (c : Nat) (i : Slot) (s : Sched) (j : Slot) :
    ∃ n, (run c i s).metrics j =
      { (if j = i then (s.metrics j).first s.ticks else s.metrics j) with
        context_switches := n } := by
  unfold run
  simp only
  split
  · obtain ⟨n, hn⟩ := countSwitch_metrics c i
      { s.setMetrics i (Metrics.first s.ticks) with m := dispatch c i s.m } j
    exact ⟨n, hn⟩
  · exact ⟨_, rfl⟩

theorem aged_metrics (k : Config) (s : Sched) (i : Slot) : (aged k s).metrics i =
    if (s.m.proc i).eligible = true ∧ (s.m.proc i).expired = true then
      { s.metrics i with end_time := s.ticks }
    else s.metrics i := by
  have hx : ((s.m.proc i).boost k).expired = (s.m.proc i).expired := by
    unfold Proc.boost
    split
    · rfl
    · rfl
  unfold aged marked boosted
  simp only [Machine.each_proc, boost_eligible, hx, List.mem_reverse, List.mem_finRange, true_and]

theorem boost_eq {p : Proc} (he : p.eligible = true) : p.boost k =
    { p with
      waiting_time := p.waiting_time + 1, dynamic_priority := p.priority k, state := .RUNNABLE } := by
  have hr : p.state = .RUNNABLE := by
    unfold Proc.eligible at he
    rw [Bool.and_eq_true, beq_iff_eq] at he
    exact he.1
  unfold Proc.boost
  rw [if_pos he, ← hr]
  rfl

/-- The process after the two loops. -/
theorem aged_eq (k : Config) (s : Sched) (i : Slot) : (aged k s).m.proc i =
    if (s.m.proc i).eligible = true then
      { s.m.proc i with
        waiting_time := (s.m.proc i).waiting_time + 1
        dynamic_priority := (s.m.proc i).priority k
        state := if (s.m.proc i).expired then .ZOMBIE else .RUNNABLE }
    else s.m.proc i := by
  rw [aged_proc]
  by_cases he : (s.m.proc i).eligible = true
  · have hx : ((s.m.proc i).boost k).expired = (s.m.proc i).expired := by
      rw [boost_eq he]
      rfl
    rw [if_pos he]
    cases hexp : (s.m.proc i).expired with
    | true =>
      unfold Proc.expire
      rw [boost_eligible, he, hx, hexp, if_pos rfl, boost_eq he]
      rfl
    | false =>
      rw [expire_of_not (by rw [hx, hexp, Bool.and_false]), boost_eq he]
      rfl
  · have hb : (s.m.proc i).boost k = s.m.proc i := if_neg he
    have he' := Bool.eq_false_of_not_eq_true he
    rw [if_neg he, hb, expire_of_not (by rw [he', Bool.false_and])]

theorem aged_cpu (k : Config) (s : Sched) : (aged k s).m.cpu = s.m.cpu := rfl

/-- The process that the round dispatches, and what the round leaves of each process. -/
theorem scheduler_proc (hF : Fits k s.m) (hc : s.m.cpu c = none) :
    (scheduler k c s).m.cpu c = bestOf (boosted k s) (List.finRange NPROC) none ∧
    ∀ i, (scheduler k c s).m.proc i =
      if (scheduler k c s).m.cpu c = some i then
        if (s.m.proc i).kstack = true ∧ (s.m.proc i).pgdir.isSome = true then
          { (aged k s).m.proc i with waiting_time := 0, state := .RUNNING, chan := none }
        else { (aged k s).m.proc i with waiting_time := 0 }
      else (aged k s).m.proc i := by
  rw [scheduler_eq hF]
  cases hb : bestOf (boosted k s) (List.finRange NPROC) none with
  | none =>
    refine ⟨by rw [aged_cpu, hc], fun i => ?_⟩
    rw [aged_cpu, hc, if_neg (Option.some_ne_none i).symm]
  | some i =>
    simp only [run_m, dispatch_cpu, true_and, dispatch_proc, Option.some.injEq]
    intro j
    by_cases hj : j = i
    · subst hj
      have hk : ((aged k s).m.proc j).kstack = (s.m.proc j).kstack ∧
          ((aged k s).m.proc j).pgdir = (s.m.proc j).pgdir := by
        rw [aged_eq]
        split
        · exact ⟨rfl, rfl⟩
        · exact ⟨rfl, rfl⟩
      rw [if_pos rfl, if_pos rfl, hk.1, hk.2]
    · rw [if_neg hj, if_neg (Ne.symm hj)]

theorem scheduler_metrics (hF : Fits k s.m) (hc : s.m.cpu c = none) (i : Slot) :
    ∃ n, (scheduler k c s).metrics i =
      { (if (scheduler k c s).m.cpu c = some i then ((aged k s).metrics i).first s.ticks
          else (aged k s).metrics i) with context_switches := n } := by
  rw [scheduler_eq hF]
  cases hb : bestOf (boosted k s) (List.finRange NPROC) none with
  | none =>
    simp only [aged_cpu, hc, if_neg (Option.some_ne_none i).symm]
    exact ⟨_, rfl⟩
  | some j =>
    obtain ⟨n, hn⟩ := run_metrics c j (aged k s) i
    refine ⟨n, ?_⟩
    simp only [run_m, dispatch_cpu, Option.some.injEq]
    rw [hn]
    by_cases hij : i = j
    · rw [if_pos hij, if_pos hij.symm]
      rfl
    · rw [if_neg hij, if_neg (Ne.symm hij)]

theorem candidate_iff {p : Proc} :
    p.candidate = true ↔ p.eligible = true ∧ p.expired = false := by
  unfold Proc.candidate
  rw [Bool.and_eq_true, Bool.not_eq_true']

theorem scheduler_selects_table (hF : Fits k s.m) (hc : s.m.cpu c = none) :
    Selects k c s (scheduler k c s) := by
  obtain ⟨hcpu, hproc⟩ := scheduler_proc hF hc
  have hmetrics := scheduler_metrics hF hc
  -- a dispatched process is a candidate
  have hcand : ∀ i, (scheduler k c s).m.cpu c = some i → (s.m.proc i).candidate = true :=
    fun i hi => (best_some (hcpu.symm.trans hi)).1
  generalize scheduler k c s = t at *
  refine {
    boosted := fun i he => ?_
    chosen := fun i hi => best_some (hcpu.symm.trans hi)
    idle := by rw [hcpu]; exact best_none
    state := fun i he => ?_
    ended := fun i => ?_
    first := fun i => ?_
    rest := fun i => ?_
    still := fun i he => ?_ }
  · rw [hproc i, aged_eq, if_pos he]
    by_cases hi : t.m.cpu c = some i
    · rw [if_pos hi, if_pos hi]
      split
      · exact ⟨rfl, rfl⟩
      · exact ⟨rfl, rfl⟩
    · rw [if_neg hi, if_neg hi]
      exact ⟨rfl, rfl⟩
  · rw [hproc i, aged_eq, if_pos he]
    by_cases hi : t.m.cpu c = some i
    · obtain ⟨-, hx⟩ := candidate_iff.1 (hcand i hi)
      simp only [if_pos hi, hx, Bool.false_eq_true, if_false]
      by_cases hk : (s.m.proc i).kstack = true ∧ (s.m.proc i).pgdir.isSome = true
      · rw [if_pos hk, if_pos ⟨hi, hk⟩]
      · rw [if_neg hk, if_neg fun h => hk h.2]
    · rw [if_neg hi, if_neg fun h : t.m.cpu c = some i ∧ _ => hi h.1]
  · obtain ⟨n, hn⟩ := hmetrics i
    have hfirst : ∀ x : Metrics, (x.first s.ticks).end_time = x.end_time := by
      intro x
      unfold Metrics.first
      split
      · rfl
      · rfl
    have hend : (t.metrics i).end_time = ((aged k s).metrics i).end_time := by
      rw [hn]
      split
      · exact hfirst _
      · rfl
    rw [hend, aged_metrics]
    split
    · rfl
    · rfl
  · obtain ⟨n, hn⟩ := hmetrics i
    have haged : ∀ y : Metrics, y = (aged k s).metrics i →
        y.first_scheduled = (s.metrics i).first_scheduled ∧
          y.response_time = (s.metrics i).response_time ∧
          y.creation_time = (s.metrics i).creation_time := by
      intro y hy
      rw [hy, aged_metrics]
      split
      · exact ⟨rfl, rfl, rfl⟩
      · exact ⟨rfl, rfl, rfl⟩
    obtain ⟨h1, h2, h3⟩ := haged _ rfl
    rw [hn]
    by_cases hi : t.m.cpu c = some i
    · rw [if_pos hi]
      unfold Metrics.first
      rw [h1]
      cases hf : (s.metrics i).first_scheduled with
      | true => rw [if_pos rfl, if_neg fun h => Bool.noConfusion h.2, h1, h2, hf]
      | false => rw [if_neg Bool.false_ne_true, if_pos ⟨hi, rfl⟩, h3]
    · rw [if_neg hi, if_neg fun h => hi h.1, h1, h2]
  · rw [hproc i, aged_eq]
    by_cases he : (s.m.proc i).eligible = true
    · rw [if_pos he]
      split
      · split
        · exact ⟨_, _, _, _, rfl⟩
        · exact ⟨_, _, _, _, rfl⟩
      · exact ⟨_, _, _, _, rfl⟩
    · rw [if_neg he]
      split
      · split
        · exact ⟨_, _, _, _, rfl⟩
        · exact ⟨_, _, _, _, rfl⟩
      · exact ⟨_, _, _, _, rfl⟩
  · have hne : ¬t.m.cpu c = some i := fun hi => by
      rw [(candidate_iff.1 (hcand i hi)).1] at he
      cases he
    have hne' : ¬(s.m.proc i).eligible = true := fun h => by
      rw [h] at he
      cases he
    obtain ⟨n, hn⟩ := hmetrics i
    refine ⟨by rw [hproc i, if_neg hne, aged_eq, if_neg hne'], n, ?_⟩
    rw [hn, if_neg hne, aged_metrics, if_neg fun h => hne' h.1]

/-- The same processes in other slots: the dispatched one has the same pid. -/
theorem dispatched_perm {s' : Sched} (e : Slot ≃ Slot)
    (hs : ∀ i, s'.m.proc i = s.m.proc (e i)) (hF : Fits k s.m) (hc : s.m.cpu c = none)
    (hc' : s'.m.cpu c = none) :
    ((scheduler k c s').m.cpu c).map (fun i => (s'.m.proc i).pid) =
      ((scheduler k c s).m.cpu c).map fun i => (s.m.proc i).pid := by
  have hF' : Fits k s'.m := fun i he => by
    rw [hs i] at he ⊢
    exact hF (e i) he
  rw [(scheduler_proc hF hc).1, (scheduler_proc hF' hc').1]
  have hperm : (bestOf (boosted k s') (List.finRange NPROC) none).map
        (fun i => ((boosted k s').m.proc i).key) =
      (bestOf (boosted k s) (List.finRange NPROC) none).map
        fun i => ((boosted k s).m.proc i).key := by
    refine scan_key_perm e (fun i => ?_) (fun i => ?_) fun i => ?_
    · exact iff_of_true (List.mem_finRange _) (List.mem_finRange _)
    · exact Eq.congr_left (congrArg (fun p => (p.boost k).candidate) (hs i))
    · exact congrArg (fun p => (p.boost k).key) (hs i)
  have hpid : ∀ p : Proc, (p.boost k).pid = p.pid := by
    intro p
    unfold Proc.boost
    split
    · rfl
    · rfl
  have h := congrArg (Option.map fun x : Int ×ₗ Natᵒᵈ => OrderDual.ofDual (ofLex x).2) hperm
  rw [Option.map_map, Option.map_map] at h
  have hs1 : ∀ u : Sched, (fun i => (u.m.proc i).pid) =
      (fun x : Int ×ₗ Natᵒᵈ => OrderDual.ofDual (ofLex x).2) ∘
        fun i => ((boosted k u).m.proc i).key :=
    fun u => funext fun i => (hpid (u.m.proc i)).symm
  rw [hs1 s, hs1 s']
  exact h

/-- **A round selects correctly**: the RUNNABLE processes that are not suspended age, those at
their limit become zombies, a best one of the others is dispatched, and nothing else changes.
The pid that is dispatched does not depend on the order of the slots. -/
theorem scheduler_selects (hF : Fits k s.m) (hc : s.m.cpu c = none) :
    Selects k c s (scheduler k c s) ∧
      ∀ (e : Slot ≃ Slot) (s' : Sched), (∀ i, s'.m.proc i = s.m.proc (e i)) →
        s'.m.cpu c = none →
        ((scheduler k c s').m.cpu c).map (fun i => (s'.m.proc i).pid) =
          ((scheduler k c s).m.cpu c).map fun i => (s.m.proc i).pid :=
  ⟨scheduler_selects_table hF hc, fun e _ hs hc' => dispatched_perm e hs hF hc hc'⟩

/-- After `userinit`, the clock at 0. -/
def Sched.boot (k : Config) : Sched where
  m := Signal.boot k
  ticks := 0
  metrics _ := ⟨0, 0, 0, false, 0⟩
  prev_proc _ := none

/-- A RUNNABLE process that has waited for `n` rounds. -/
def ready (pid n : Nat) : Proc where
  state := .RUNNABLE
  pid := pid
  kstack := true
  pgdir := some pid
  waiting_time := n

/-- Two processes of the same priority, one that has waited less, one at its limit and one
that is suspended. -/
def crowd (i : Slot) : Proc :=
  if i = 1 then ready 5 3
  else if i = 2 then ready 4 3
  else if i = 3 then ready 6 1
  else if i = 4 then { ready 7 9 with exec_time := 2, total_ticks := 2 }
  else if i = 5 then { ready 8 9 with suspended := true }
  else {}

def Sched.crowded : Sched where
  m := { Signal.boot xv6 with proc := crowd }
  ticks := 20
  metrics _ := ⟨3, 0, 0, false, 0⟩
  prev_proc _ := some 1

/-- The two of the same priority in each other's slots. -/
def Sched.crossed : Sched :=
  { crowded with m := { crowded.m with proc := fun i => crowded.m.proc (Equiv.swap 1 2 i) } }

theorem crowded_fits : Fits xv6 Sched.crowded.m := by
  unfold Fits
  decide +kernel

/-- The smaller pid of the two is dispatched, from either slot. -/
theorem scheduler_selects_crowded : Selects xv6 0 .crowded (scheduler xv6 0 .crowded) ∧
    (scheduler xv6 0 .crowded).m.cpu 0 = some 2 ∧
    ((scheduler xv6 0 .crossed).m.cpu 0).map (fun i => (Sched.crossed.m.proc i).pid) =
      ((scheduler xv6 0 .crowded).m.cpu 0).map fun i => (Sched.crowded.m.proc i).pid := by
  obtain ⟨hs, hperm⟩ := scheduler_selects crowded_fits (c := 0) rfl
  exact ⟨hs, by decide +kernel, hperm (Equiv.swap 1 2) .crossed (fun _ => rfl) rfl⟩

end Xv6.Signal
