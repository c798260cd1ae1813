/-
One CPU per process.

The scheduler of the source hands a process to a CPU by writing `c->proc` and
`p->state` together, and every way off a CPU writes the state again before
`ptable.lock` is free. `sendsig` is the exception: SIGBG and SIGFG write RUNNABLE
over whatever state they find. The invariant (`Placed`) holds as long as they
find no RUNNING process, and no EMBRYO, whose creator would write its state a
second time while it runs (`Nursery`).
-/
import Xv6.Lib.Best
import Xv6.Signal.Step

set_option autoImplicit false

namespace Xv6.Signal

open Xv6.Lib

variable {k : Config} {s t : Machine} {c : Nat} {i j : Slot} {e : Event}

/-! ## What the searches and the scheduler do -/

/-- By priority, and then by pid, the smaller one first. -/
def Proc.key (p : Proc) : Int ×ₗ Natᵒᵈ := toLex (p.dynamic_priority, OrderDual.toDual p.pid)

theorem better_iff (p q : Proc) : p.better q = true ↔ q.key < p.key := by
  unfold Proc.better Proc.key
  rw [Prod.Lex.toLex_lt_toLex]
  simp only [Bool.or_eq_true, decide_eq_true_eq, Bool.and_eq_true, beq_iff_eq,
    OrderDual.toDual_lt_toDual]
  rw [eq_comm]

/-- **The search is a scan** for the eligible process with the greatest key. -/
theorem highest_scan (s : Machine) : highest s =
    scan (fun i => (s.proc i).eligible = true) (fun i => (s.proc i).key)
      (List.finRange NPROC) none := by
  have hpick : pick s =
      better (fun i => (s.proc i).eligible = true) (fun i => (s.proc i).key) := by
    funext best i
    unfold pick better
    by_cases he : (s.proc i).eligible = true
    · rw [if_pos he, if_pos he]
      cases best with
      | none => rfl
      | some j =>
        simp only
        by_cases hb : (s.proc i).better (s.proc j) = true
        · rw [if_pos hb, if_pos ((better_iff _ _).1 hb)]
        · rw [if_neg hb, if_neg fun h => hb ((better_iff _ _).2 h)]
    · rw [if_neg he, if_neg he]
  unfold highest scan
  rw [hpick]

/-- The process that is chosen is eligible. -/
theorem highest_eligible (h : highest s = some j) : (s.proc j).eligible = true := by
  rw [highest_scan] at h
  exact (scan_max h).2.1

theorem Proc.eligible_iff {p : Proc} :
    p.eligible = true ↔ p.state = .RUNNABLE ∧ p.suspended = false := by
  simp [Proc.eligible]

/-- How a process comes out of the scheduler's `swtch`. -/
def Proc.run (p : Proc) : Proc := { p with waiting_time := 0, state := .RUNNING, chan := none }

/-- `dispatch` either panics or runs the process. -/
theorem dispatch_cases (c : Nat) (i : Slot) (s : Machine) :
    (∃ m, (m = .noKstack ∧ (s.proc i).kstack = false ∨ m = .noPgdir ∧ (s.proc i).pgdir = none) ∧
      (dispatch c i s).panicked = some m) ∨
    ((s.proc i).kstack = true ∧ (s.proc i).pgdir.isSome = true ∧
      dispatch c i s = (s.set i Proc.run).setCpu c (some i)) := by
  unfold dispatch
  by_cases hk : (s.proc i).kstack = true
  · by_cases hp : (s.proc i).pgdir.isSome = true
    · refine Or.inr ⟨hk, hp, ?_⟩
      simp only [if_true, hk, hp, Machine.set, Machine.setCpu]
      congr 1
      funext j
      by_cases hj : j = i
      · simp [hj, Proc.run]
      · simp [hj]
    · refine Or.inl ⟨.noPgdir, Or.inr ⟨rfl, by simpa using hp⟩, ?_⟩
      simp [hk, hp]
  · refine Or.inl ⟨.noKstack, Or.inl ⟨rfl, by simpa using hk⟩, ?_⟩
    simp [hk]

/-- **What a round does.** It ages the table; then it runs an eligible process, or
finds none. -/
theorem round_cases (k : Config) (c : Nat) {s : Machine} (hp : (round k c s).panicked = none) :
    (highest (s.aged k) = none ∧ round k c s = s.aged k) ∨
    ∃ i, highest (s.aged k) = some i ∧ ((s.aged k).proc i).state = .RUNNABLE ∧
      ((s.aged k).proc i).suspended = false ∧
      round k c s = ((s.aged k).set i Proc.run).setCpu c (some i) := by
  unfold round at *
  cases hh : highest (s.aged k) with
  | none => exact Or.inl ⟨rfl, rfl⟩
  | some i =>
    obtain ⟨hr, hsu⟩ := Proc.eligible_iff.1 (highest_eligible hh)
    rw [hh] at hp
    rcases dispatch_cases c i (s.aged k) with ⟨m, -, hm⟩ | ⟨-, -, hd⟩
    · rw [hm] at hp
      cases hp
    · exact Or.inr ⟨i, rfl, hr, hsu, hd⟩

/-- Ageing changes no state but that of an expired process. -/
theorem aged_state (k : Config) (s : Machine) (j : Slot) :
    ((s.aged k).proc j).state = (s.proc j).state ∨
      (s.proc j).state = .RUNNABLE ∧ ((s.aged k).proc j).state = .ZOMBIE ∧
        (s.proc j).expired = true ∧ (s.proc j).suspended = false := by
  simp only [Machine.aged, Machine.each_proc, Proc.expire, Proc.boost, Proc.eligible, Proc.expired]
  grind -ring -linarith

theorem aged_pos (k : Config) (s : Machine) (j : Slot) :
    ((s.aged k).proc j).pos = (s.proc j).pos := by
  simp only [Machine.aged, Machine.each_proc, Proc.expire, Proc.boost]
  grind -ring -linarith

theorem aged_cli (k : Config) (s : Machine) (j : Slot) :
    ((s.aged k).proc j).cli = (s.proc j).cli := by
  simp only [Machine.aged, Machine.each_proc, Proc.expire, Proc.boost]
  grind -ring -linarith

/-- A wake-up changes the state of a sleeping process, and nothing else. -/
theorem wakeup1_proc (ch : Option Chan) (s : Machine) (j : Slot) :
    (wakeup1 ch s).proc j = s.proc j ∨
      (s.proc j).state = .SLEEPING ∧ (wakeup1 ch s).proc j = { s.proc j with state := .RUNNABLE } := by
  unfold wakeup1
  cases ch with
  | none => exact Or.inl rfl
  | some ch =>
    simp only [Machine.each_proc, Proc.wake]
    grind -ring -linarith

theorem wakeup1_rest (ch : Option Chan) (s : Machine) :
    (wakeup1 ch s).cpu = s.cpu ∧ (wakeup1 ch s).nextpid = s.nextpid ∧
      (wakeup1 ch s).initproc = s.initproc ∧ (wakeup1 ch s).panicked = s.panicked := by
  unfold wakeup1
  cases ch <;> exact ⟨rfl, rfl, rfl, rfl⟩

theorem Proc.wake_cases (ch : Chan) (p : Proc) :
    p.wake ch = p ∨ p.state = .SLEEPING ∧ p.wake ch = { p with state := .RUNNABLE } := by
  unfold Proc.wake
  grind -ring -linarith

@[simp] theorem Proc.reparent_state (i init : Slot) (p : Proc) :
    (p.reparent i init).state = p.state := by
  unfold Proc.reparent
  split <;> rfl

theorem Proc.reparent_with (i init : Slot) (p : Proc) (st : ProcState) :
    Proc.reparent i init { p with state := st } = { p.reparent i init with state := st } := by
  unfold Proc.reparent
  split <;> rfl

/-- A process whose state a loop over the table has left alone or woken. -/
def Woken (p q : Proc) : Prop :=
  ∃ st, (st = p.state ∨ p.state = .SLEEPING ∧ st = .RUNNABLE) ∧ q = { p with state := st }

theorem Woken.of_cases {p q : Proc}
    (h : q = p ∨ p.state = .SLEEPING ∧ q = { p with state := .RUNNABLE }) : Woken p q := by
  rcases h with rfl | ⟨hs, rfl⟩
  · exact ⟨_, Or.inl rfl, rfl⟩
  · exact ⟨_, Or.inr ⟨hs, rfl⟩, rfl⟩

theorem Woken.trans {p q r : Proc} (h : Woken p q) (h' : Woken q r) : Woken p r := by
  obtain ⟨st, hst, rfl⟩ := h
  obtain ⟨st', hst', rfl⟩ := h'
  refine ⟨st', ?_, rfl⟩
  grind -ring -linarith

theorem Woken.reparent {p q : Proc} (h : Woken p q) (i init : Slot) :
    Woken (p.reparent i init) (q.reparent i init) := by
  obtain ⟨st, hst, rfl⟩ := h
  exact ⟨st, by simpa using hst, Proc.reparent_with i init p st⟩

/-- **What `exit` does to the table.** Every other process keeps its fields, but
that it may be woken and that a child of `i` goes to init. -/
theorem exitDone_other (h : j ≠ i) :
    Woken (Proc.reparent i s.initproc (s.proc j)) ((exitDone c i s).proc j) := by
  have h1 := (Woken.of_cases (wakeup1_proc ((s.proc i).parent.map .proc) s j)).reparent i s.initproc
  simp only [exitDone, Machine.setCpu_proc, Machine.set_proc, if_neg h]
  split
  · exact h1.trans (Woken.of_cases (Proc.wake_cases _ _))
  · exact h1

theorem exitDone_self (c : Nat) (i : Slot) (s : Machine) :
    (exitDone c i s).proc i =
      { (s.proc i).reparent i s.initproc with state := .ZOMBIE, pos := .exited } := by
  have h1 := (Woken.of_cases (wakeup1_proc ((s.proc i).parent.map .proc) s i)).reparent i s.initproc
  simp only [exitDone, Machine.setCpu_proc, Machine.set_proc, if_true]
  split
  · obtain ⟨st, -, hq⟩ := h1.trans (Woken.of_cases (Proc.wake_cases (.proc s.initproc) _))
    rw [Machine.each_proc, Machine.each_proc, hq]
  · obtain ⟨st, -, hq⟩ := h1
    rw [Machine.each_proc, hq]

@[simp, grind =] theorem exitDone_cpu (c : Nat) (i : Slot) (s : Machine) (d : Nat) :
    (exitDone c i s).cpu d = if d = c then none else s.cpu d := by
  have := wakeup1_rest ((s.proc i).parent.map .proc) s
  simp only [exitDone, Machine.setCpu_cpu, Machine.set_cpu]
  split
  · rfl
  · split <;> simp [this.1]

theorem exitDone_rest (c : Nat) (i : Slot) (s : Machine) :
    (exitDone c i s).nextpid = s.nextpid ∧ (exitDone c i s).initproc = s.initproc ∧
      (exitDone c i s).panicked = s.panicked := by
  have := wakeup1_rest ((s.proc i).parent.map .proc) s
  simp only [exitDone]
  split <;> simp [this.2.1, this.2.2.1, this.2.2.2]

/-- What one pass of `wait` does: it reaps a zombie child, returns, or sleeps. -/
theorem wait_cases (c : Nat) (i : Slot) (s : Machine) :
    (∃ j, (s.proc j).parent = some i ∧ (s.proc j).state = .ZOMBIE ∧
      wait c i s = s.set j Proc.reap) ∨
    wait c i s = s ∨
    ((∀ j, (s.proc j).parent = some i → (s.proc j).state ≠ .ZOMBIE) ∧
      wait c i s = sleep c i (.proc i) s) := by
  unfold wait
  split
  · rename_i j hj
    have := s.find_some hj
    refine Or.inl ⟨j, ?_, ?_, rfl⟩ <;> grind -ring -linarith
  · rename_i hn
    have := s.find_none hn
    grind -ring -linarith

theorem kill_cases (pid : Nat) (s : Machine) :
    kill pid s = s ∨ ∃ i, (s.proc i).pid = pid ∧ kill pid s = s.set i Proc.kill := by
  unfold kill
  split
  · rename_i i hi
    exact Or.inr ⟨i, by simpa using s.find_some hi, rfl⟩
  · exact Or.inl rfl

theorem allocproc_cases (i : Slot) (a : Option ForkArgs) (s : Machine) :
    allocproc i a s = s ∨ ∃ np, (s.proc np).state = .UNUSED ∧
      allocproc i a s =
        { (s.set np (Proc.alloc s.nextpid a)).set i fun p =>
            { p with pos := .creating np a .stack } with nextpid := s.nextpid + 1 } := by
  unfold allocproc
  split
  · rename_i np hnp
    exact Or.inr ⟨np, by simpa using s.find_some hnp, rfl⟩
  · exact Or.inl rfl

theorem advance_cases (k : Config) (h : (s.proc i).pos.isCreating = true) :
    ∃ np a st, (s.proc i).pos = .creating np a st ∧
      advance k i s = (s.set np fun p => st.write k i (s.proc i) a p).set i
        fun p => { p with pos := st.next np a } := by
  unfold advance
  cases hp : (s.proc i).pos <;> simp_all [Pos.isCreating]

/-- The last stage writes the state, the others do not. -/
theorem Stage.write_state (k : Config) (i : Slot) (cur : Proc) (a : Option ForkArgs) (p : Proc)
    (st : Stage) : (st.write k i cur a p).state =
      if st = .ready then (if ForkArgs.later a then .CREATED else .RUNNABLE) else p.state := by
  cases st <;> cases a <;> rfl

theorem Stage.write_pos (k : Config) (i : Slot) (cur : Proc) (a : Option ForkArgs) (p : Proc)
    (st : Stage) : (st.write k i cur a p).pos = p.pos := by
  cases st <;> cases a <;> rfl

theorem Stage.write_cli (k : Config) (i : Slot) (cur : Proc) (a : Option ForkArgs) (p : Proc)
    (st : Stage) : (st.write k i cur a p).cli = p.cli := by
  cases st <;> cases a <;> rfl

theorem failFork_cases (h : (s.proc i).pos.canFail = true) :
    ∃ np a st, (s.proc i).pos = .creating np a st ∧ (st = .stack ∨ st = .copying) ∧
      failFork i s = (s.set np (if st = .stack then Proc.noStack else Proc.noCopy)).set i
        fun p => { p with pos := .syscall } := by
  unfold failFork
  cases hp : (s.proc i).pos with
  | creating np a st => cases st <;> simp_all [Pos.canFail]
  | _ => simp_all [Pos.canFail]

theorem set_set (i : Slot) (f g : Proc → Proc) (s : Machine) :
    (s.set i f).set i g = s.set i fun p => g (f p) := by
  unfold Machine.set
  congr 1
  funext j
  by_cases hj : j = i <;> simp [hj]

@[simp] theorem Proc.charge_state (p : Proc) : p.charge.state = p.state := by
  unfold Proc.charge
  split <;> rfl

@[simp] theorem Proc.charge_pos (p : Proc) : p.charge.pos = p.pos := by
  unfold Proc.charge
  split <;> rfl

/-- Where a process goes on after a timer interrupt that did not end it. -/
def Pos.interrupted (pos : Pos) : Pos := if pos = .user then .retest else pos

/-- **What a timer interrupt does.** It charges the process; then the process exits,
or leaves the CPU, or goes on if it is not RUNNING. -/
theorem timer_cases (c : Nat) (i : Slot) (s : Machine) :
    ((s.proc i).pos = .user ∧ (s.proc i).charge.killed = true ∧
      timer c i s = s.set i fun p => { p.charge with pos := .exiting, cli := true }) ∨
    ((s.proc i).state = .RUNNING ∧ timer c i s =
      (s.set i fun p =>
        { p.charge with
          state := .RUNNABLE, pos := (s.proc i).pos.interrupted
          cli := (s.proc i).pos == .user }).setCpu c none) ∨
    ((s.proc i).state ≠ .RUNNING ∧ timer c i s =
      s.set i fun p =>
        { p.charge with pos := (s.proc i).pos.interrupted, cli := (s.proc i).pos == .user }) := by
  simp only [timer, yield, set_set, Machine.set_proc, if_true, Proc.charge_state, Proc.charge_pos,
    Pos.interrupted]
  by_cases hk : (s.proc i).pos = .user ∧ (s.proc i).charge.killed = true
  · exact Or.inl ⟨hk.1, hk.2, by simp [hk.1, hk.2]⟩
  · have hk' : ((s.proc i).pos == .user && (s.proc i).charge.killed) = false := by simpa using hk
    rw [hk']
    by_cases hr : (s.proc i).state = .RUNNING
    · exact Or.inr (Or.inl ⟨hr, by simp [hr]⟩)
    · exact Or.inr (Or.inr ⟨hr, by simp [hr]⟩)

/-- What the second test of `killed` does. -/
theorem retest_cases (c : Nat) (i : Slot) (s : Machine) :
    ((s.proc i).killed = false ∧ retest c i s =
      (s.set i fun p => { p with state := .RUNNABLE, pos := .leaving }).setCpu c none) ∨
    retest c i s = s.set i (Proc.orExit .leaving) := by
  unfold retest yield
  split
  · rename_i h
    simp only [Bool.and_eq_true, Bool.not_eq_true'] at h
    exact Or.inl ⟨h.1, rfl⟩
  · exact Or.inr rfl

/-- The steps that a process makes for itself: they write its own slot only. -/
def Event.isTurn : Event → Bool
  | .timer _ | .interrupt _ | .fault _ | .test _ | .retest _ | .trapret _ | .forkret _
  | .enter _ | .leave _ | .sleep _ _ | .acquiresleep _ _ | .releasesleep _ _ | .begin_op _
  | .end_op _ | .openFile _ _ | .closeFile _ _ | .exit _ | .dropCwd _ | .signal _ _ => true
  | _ => false

/-- What such a step leaves of the process: it goes on, or leaves its CPU to be run
again or to sleep, and it is at no point of a creation or behind `exit` but where it
was. -/
structure Turn (p q : Proc) : Prop where
  state : q.state = p.state ∨ q.state = .RUNNABLE ∨ q.state = .SLEEPING
  pos : q.pos = p.pos ∨ q.pos.isCreating = false ∧ q.pos ≠ .exited
  killed : p.killed = true → q.killed = true ∧ (q.pos = .leaving → p.pos = .leaving)
  chan : q.chan = p.chan ∨ q.state = .SLEEPING ∧ ∃ a, q.chan = some (.addr a)
  asleep : q.state = .SLEEPING → q.state = p.state ∨ ∃ a, q.chan = some (.addr a)
  pid : q.pid = p.pid
  parent : q.parent = p.parent
  kstack : q.kstack = p.kstack
  pgdir : q.pgdir = p.pgdir
  tf : q.tf = p.tf
  waiting_time : q.waiting_time = p.waiting_time
  initial_priority : q.initial_priority = p.initial_priority
  total_ticks : p.total_ticks ≤ q.total_ticks
  parked : q.parked = p.parked

theorem charge_turn (p : Proc) (pos : Pos) (h : pos = p.pos ∨ pos.isCreating = false ∧
    pos ≠ .exited ∧ (p.killed = true → pos ≠ .leaving)) (st : ProcState)
    (hst : st = p.state ∨ st = .RUNNABLE) (b : Bool) :
    Turn p { p.charge with state := st, pos := pos, cli := b } := by
  unfold Proc.charge
  split <;> constructor <;> grind -ring -linarith

theorem set_at (s : Machine) (i : Slot) (f : Proc → Proc) (j : Slot) :
    (s.set i f).proc j = if j = i then f (s.proc i) else s.proc j := by
  by_cases h : j = i <;> simp [h]

theorem leave_at (s : Machine) (i : Slot) (f : Proc → Proc) (c : Nat) (j : Slot) :
    ((s.set i f).setCpu c none).proc j = if j = i then f (s.proc i) else s.proc j :=
  set_at s i f j

/-- **A turn.** The step writes the slot of its process, and no other. -/
theorem turn_step (he : effect k e s = some t) (ho : e.isTurn = true) :
    ∃ c i q, s.cpu c = some i ∧ (∀ j, t.proc j = if j = i then q else s.proc j) ∧
      Turn (s.proc i) q ∧ t.nextpid = s.nextpid ∧ t.initproc = s.initproc ∧
      t.panicked = s.panicked := by
  cases e <;> try cases ho
  all_goals simp only [effect, act_eq_some] at he
  case timer c =>
    obtain ⟨i, hi, -, rfl⟩ := he
    have hpos : (s.proc i).pos.interrupted = (s.proc i).pos ∨
        (s.proc i).pos.interrupted.isCreating = false ∧ (s.proc i).pos.interrupted ≠ .exited ∧
          ((s.proc i).killed = true → (s.proc i).pos.interrupted ≠ .leaving) := by
      unfold Pos.interrupted
      split
      · exact Or.inr ⟨rfl, by simp, fun _ => by simp⟩
      · exact Or.inl rfl
    rcases timer_cases c i s with ⟨-, -, ht⟩ | ⟨-, ht⟩ | ⟨-, ht⟩ <;> rw [ht]
    · exact ⟨c, i, _, hi, set_at s i _,
        charge_turn _ .exiting (Or.inr ⟨rfl, by simp, fun _ => by simp⟩) (s.proc i).charge.state
          (Or.inl (by simp)) true, rfl, rfl, rfl⟩
    · exact ⟨c, i, _, hi, leave_at s i _ c,
        charge_turn _ _ hpos .RUNNABLE (Or.inr rfl) _, rfl, rfl, rfl⟩
    · exact ⟨c, i, _, hi, set_at s i _,
        charge_turn _ _ hpos (s.proc i).charge.state (Or.inl (by simp)) _, rfl, rfl, rfl⟩
  case retest c =>
    obtain ⟨i, hi, -, rfl⟩ := he
    rcases retest_cases c i s with ⟨hk, hr⟩ | hr <;> rw [hr]
    · refine ⟨c, i, _, hi, leave_at s i _ c, ?_, rfl, rfl, rfl⟩
      constructor <;> simp [Pos.isCreating, hk]
    · refine ⟨c, i, _, hi, set_at s i _, ?_, rfl, rfl, rfl⟩
      constructor <;> grind -ring -linarith [Proc.orExit, Pos.isCreating]
  case sleep c a =>
    obtain ⟨i, hi, -, rfl⟩ := he
    refine ⟨c, i, _, hi, leave_at s i
      (fun p => { p with state := .SLEEPING, chan := some (.addr a) }) c, ?_, rfl, rfl, rfl⟩
    constructor <;> simp
  all_goals
    obtain ⟨i, hi, -, rfl⟩ := he
    refine ⟨_, i, _, hi, set_at s i _, ?_, rfl, rfl, rfl⟩
    constructor <;> grind -ring -linarith [Proc.orExit, Proc.leave, Pos.isCreating]

/-! ## The invariant -/

/-- The step is no signal that resumes a process outside `A`. -/
def Spares (A : ProcState → Prop) (s : Machine) : Event → Prop
  | .sendsig n => ∀ i, (s.proc i).resumedBy n = true → A (s.proc i).state
  | _ => True

instance (A : ProcState → Prop) [DecidablePred A] (s : Machine) (e : Event) :
    Decidable (Spares A s e) := by
  cases e <;> dsimp only [Spares] <;> infer_instance

theorem Spares.mono {A B : ProcState → Prop} (h : Spares A s e) (hAB : ∀ st, A st → B st) :
    Spares B s e := by
  cases e <;> first | trivial | exact fun i hi => hAB _ (h i hi)

/-- Each CPU's process is RUNNING, on that CPU only, and no other process is. -/
structure Placed (s : Machine) : Prop where
  running : ∀ c i, s.cpu c = some i → (s.proc i).state = .RUNNING
  placed : ∀ i, (s.proc i).state = .RUNNING → ∃ c, s.cpu c = some i
  alone : ∀ c d i, s.cpu c = some i → s.cpu d = some i → c = d

/-- A process that is being created is an EMBRYO, and has one creator. -/
structure Nursery (s : Machine) : Prop where
  embryo : ∀ i np a st, (s.proc i).pos = .creating np a st → (s.proc np).state = .EMBRYO
  creator : ∀ i j np a b st st', (s.proc i).pos = .creating np a st →
    (s.proc j).pos = .creating np b st' → i = j

/-- The states over which SIGBG and SIGFG can write RUNNABLE without harm to the
scheduler. -/
def Parked (st : ProcState) : Prop := st ≠ .RUNNING ∧ st ≠ .EMBRYO
  deriving Decidable

/-- A process leaves its CPU. -/
theorem Placed.leave (h : Placed s) (hc : s.cpu c = some i) (f : Proc → Proc)
    (hf : ∀ p, (f p).state ≠ .RUNNING) : Placed ((s.set i f).setCpu c none) := by
  obtain ⟨h1, h2, h3⟩ := h
  constructor
  · intro d j hd
    simp only [Machine.setCpu_cpu, Machine.set_cpu, Machine.setCpu_proc, Machine.set_proc] at *
    grind -ring -linarith
  · intro j hj
    simp only [Machine.setCpu_cpu, Machine.set_cpu, Machine.setCpu_proc, Machine.set_proc] at *
    grind -ring -linarith
  · intro d e j hd he
    simp only [Machine.setCpu_cpu, Machine.set_cpu] at *
    grind -ring -linarith

/-- An idle CPU runs a process. -/
theorem Placed.enter (h : Placed s) (hc : s.cpu c = none) (hi : (s.proc i).state ≠ .RUNNING)
    (f : Proc → Proc) (hf : ∀ p, (f p).state = .RUNNING) :
    Placed ((s.set i f).setCpu c (some i)) := by
  -- a process that is not RUNNING is on no CPU
  have hidle : ∀ d, s.cpu d ≠ some i := fun d hd => hi (h.running d i hd)
  obtain ⟨h1, h2, h3⟩ := h
  constructor
  · intro d j hd
    simp only [Machine.setCpu_cpu, Machine.set_cpu, Machine.setCpu_proc, Machine.set_proc] at *
    grind -ring -linarith
  · intro j hj
    simp only [Machine.setCpu_cpu, Machine.set_cpu, Machine.setCpu_proc, Machine.set_proc] at *
    by_cases hji : j = i
    · exact ⟨c, by rw [if_pos rfl, hji]⟩
    · rw [if_neg hji] at hj
      obtain ⟨d, hd⟩ := h2 j hj
      exact ⟨d, by rw [if_neg (fun hdc => by rw [hdc, hc] at hd; cases hd), hd]⟩
  · intro d e j hd he
    simp only [Machine.setCpu_cpu, Machine.set_cpu] at *
    grind -ring -linarith

/-- Changes that keep the CPUs and which processes are RUNNING. -/
theorem Placed.keep (h : Placed s) (hc : t.cpu = s.cpu)
    (hs : ∀ j, (t.proc j).state = .RUNNING ↔ (s.proc j).state = .RUNNING) : Placed t := by
  constructor
  · intro c i hi
    rw [hc] at hi
    exact (hs i).2 (h.running c i hi)
  · intro i hi
    rw [hc]
    exact h.placed i ((hs i).1 hi)
  · rw [hc]
    exact h.alone

theorem Placed.round (h : Placed s) (hc : s.cpu c = none)
    (hp : (Signal.round k c s).panicked = none) : Placed (Signal.round k c s) := by
  have ha : Placed (s.aged k) := h.keep rfl fun j => by
    have := aged_state k s j
    grind -ring -linarith
  rcases round_cases k c hp with ⟨-, hr⟩ | ⟨i, -, hst, -, hr⟩
  · rw [hr]
    exact ha
  · rw [hr]
    exact ha.enter hc (by rw [hst]; decide) _ fun p => rfl

/-- A write to one slot that neither starts nor stops its process. -/
theorem Placed.set (h : Placed s) (i : Slot) (f : Proc → Proc)
    (hf : (f (s.proc i)).state = .RUNNING ↔ (s.proc i).state = .RUNNING) : Placed (s.set i f) := by
  refine h.keep rfl fun j => ?_
  rw [Machine.set_proc]
  split
  · rename_i hj
    rw [hj]
    exact hf
  · exact Iff.rfl

theorem Placed.timer (h : Placed s) (hc : s.cpu c = some i) : Placed (Signal.timer c i s) := by
  rcases timer_cases c i s with ⟨-, -, ht⟩ | ⟨-, ht⟩ | ⟨-, ht⟩
  · rw [ht]
    exact h.set i _ (by simp)
  · rw [ht]
    exact h.leave hc _ fun p => by simp
  · rw [ht]
    exact h.set i _ (by simp)

theorem Placed.exitDone (h : Placed s) (hc : s.cpu c = some i) :
    Placed (Signal.exitDone c i s) := by
  have hself := exitDone_self c i s
  have hother := fun j (hj : j ≠ i) => exitDone_other (c := c) (s := s) hj
  have hcpu := exitDone_cpu c i s
  have hrun : ∀ j, j ≠ i →
      (((Signal.exitDone c i s).proc j).state = .RUNNING ↔ (s.proc j).state = .RUNNING) := by
    intro j hj
    obtain ⟨st, hst, hq⟩ := hother j hj
    rw [hq]
    rw [Proc.reparent_state] at hst
    grind -ring -linarith
  obtain ⟨h1, h2, h3⟩ := h
  constructor <;> grind -ring -linarith

theorem Placed.wait (h : Placed s) (hc : s.cpu c = some i) : Placed (Signal.wait c i s) := by
  rcases wait_cases c i s with ⟨j, -, hz, hw⟩ | hw | ⟨-, hw⟩
  · rw [hw]
    exact h.keep rfl fun j => by grind -ring -linarith [Proc.reap]
  · rw [hw]
    exact h
  · rw [hw]
    exact h.leave hc _ fun p => by simp

theorem sendsig_cpu (n : Nat) (s : Machine) : (sendsig n s).cpu = s.cpu ∧
    (sendsig n s).nextpid = s.nextpid ∧ (sendsig n s).initproc = s.initproc ∧
    (sendsig n s).panicked = s.panicked := by
  unfold sendsig
  grind -ring -linarith

/-- **What a signal does to a state.** It wakes a sleeping process, or it resumes
one whatever its state. -/
theorem sendsig_state (n : Nat) (s : Machine) (j : Slot) :
    ((sendsig n s).proc j).state = (s.proc j).state ∨
      ((sendsig n s).proc j).state = .RUNNABLE ∧
        ((s.proc j).state = .SLEEPING ∨ (s.proc j).resumedBy n = true) := by
  unfold sendsig Proc.resumedBy
  grind -ring -linarith [Proc.kill, Proc.background, Proc.foreground, Proc.custom]

theorem sendsig_pos (n : Nat) (s : Machine) (j : Slot) :
    ((sendsig n s).proc j).pos = (s.proc j).pos := by
  unfold sendsig
  grind -ring -linarith [Proc.kill, Proc.background, Proc.foreground, Proc.custom]

theorem sendsig_cli (n : Nat) (s : Machine) (j : Slot) :
    ((sendsig n s).proc j).cli = (s.proc j).cli := by
  unfold sendsig
  grind -ring -linarith [Proc.kill, Proc.background, Proc.foreground, Proc.custom]

theorem Placed.step (h : Placed s) (hn : Nursery s) (hA : Spares Parked s e)
    (he : Step k s e t) (hp : t.panicked = none) : Placed t := by
  replace he := effect_of_step he
  cases e <;> simp only [effect, act_eq_some, Option.some.injEq] at he
  case round c =>
    split at he
    · obtain rfl := Option.some.inj he
      exact h.round ‹_› hp
    · cases he
  case timer c =>
    obtain ⟨i, hi, -, rfl⟩ := he
    exact h.timer hi
  case retest c =>
    obtain ⟨i, hi, -, rfl⟩ := he
    rcases retest_cases c i s with ⟨-, hr⟩ | hr
    · rw [hr]
      exact h.leave hi _ fun p => by simp
    · rw [hr]
      exact h.set i _ (by simp [Proc.orExit])
  case sleep c a =>
    obtain ⟨i, hi, -, rfl⟩ := he
    exact h.leave hi _ fun p => by simp
  case wakeup a =>
    subst he
    exact h.keep (wakeup1_rest _ s).1 fun j => by
      have := wakeup1_proc (some (.addr a)) s j
      grind -ring -linarith
  case exitDone c =>
    obtain ⟨i, hi, -, rfl⟩ := he
    split
    · exact h.keep rfl fun j => Iff.rfl
    · exact h.exitDone hi
  case wait c =>
    obtain ⟨i, hi, -, rfl⟩ := he
    exact h.wait hi
  case kill c pid =>
    obtain ⟨i, hi, -, rfl⟩ := he
    rcases kill_cases pid s with hk | ⟨j, -, hk⟩
    · rw [hk]
      exact h
    · rw [hk]
      exact h.keep rfl fun j => by grind -ring -linarith [Proc.kill]
  case fork c a =>
    obtain ⟨i, hi, -, rfl⟩ := he
    rcases allocproc_cases i a s with hk | ⟨np, hu, hk⟩
    · rw [hk]
      exact h
    · rw [hk]
      exact h.keep rfl fun j => by grind -ring -linarith [Proc.alloc]
  case advance c =>
    obtain ⟨i, hi, hg, rfl⟩ := he
    obtain ⟨np, a, st, hpos, hk⟩ := advance_cases k hg
    rw [hk]
    -- the new process is an EMBRYO up to its last stage
    have hem := hn.embryo _ _ _ _ hpos
    exact h.keep rfl fun j => by grind -ring -linarith [Stage.write_state]
  case fail c =>
    obtain ⟨i, hi, hg, rfl⟩ := he
    obtain ⟨np, a, st, hpos, -, hk⟩ := failFork_cases hg
    rw [hk]
    have hem := hn.embryo _ _ _ _ hpos
    exact h.keep rfl fun j => by grind -ring -linarith [Proc.noStack, Proc.noCopy]
  case sendsig n =>
    subst he
    exact h.keep (sendsig_cpu n s).1 fun j => by
      have := sendsig_state n s j
      have := hA j
      grind -ring -linarith [Parked]
  case scheduler_start c =>
    obtain ⟨i, hi, -, rfl⟩ := he
    exact h.keep rfl fun j => by grind -ring -linarith [Proc.start]
  all_goals
    obtain ⟨i, hi, -, rfl⟩ := he
    exact h.keep rfl fun j => by grind -ring -linarith [Proc.orExit, Proc.leave]

/-- Changes that create nothing and keep the EMBRYOs. -/
theorem Nursery.keep (h : Nursery s)
    (hpos : ∀ i np a st, (t.proc i).pos = .creating np a st → (s.proc i).pos = .creating np a st)
    (hst : ∀ j, (s.proc j).state = .EMBRYO → (t.proc j).state = .EMBRYO) : Nursery t := by
  constructor
  · intro i np a st hi
    exact hst np (h.embryo i np a st (hpos i np a st hi))
  · intro i j np a b st st' hi hj
    exact h.creator i j np a b st st' (hpos _ _ _ _ hi) (hpos _ _ _ _ hj)

theorem Nursery.alloc (h : Nursery s) {np : Slot} (a : Option ForkArgs)
    (hu : (s.proc np).state = .UNUSED) :
    Nursery { (s.set np (Proc.alloc s.nextpid a)).set i fun p =>
      { p with pos := .creating np a .stack } with nextpid := s.nextpid + 1 } := by
  -- nobody else is creating an UNUSED slot
  have hnew : ∀ j b st, (s.proc j).pos ≠ .creating np b st := fun j b st hj => by
    have := h.embryo j np b st hj
    rw [hu] at this
    cases this
  obtain ⟨h1, h2⟩ := h
  constructor
  · intro j m b st hj
    simp only [Machine.set_proc, Proc.alloc] at *
    grind -ring -linarith
  · intro j l m b b' st st' hj hl
    simp only [Machine.set_proc, Proc.alloc] at *
    grind -ring -linarith

theorem Nursery.advance (h : Nursery s) {np : Slot} {a : Option ForkArgs} {st : Stage}
    (hpos : (s.proc i).pos = .creating np a st) :
    Nursery ((s.set np fun p => st.write k i (s.proc i) a p).set i
      fun p => { p with pos := st.next np a }) := by
  obtain ⟨h1, h2⟩ := h
  have hnext : ∀ m b st', st.next np a = .creating m b st' → m = np ∧ st ≠ .ready := by
    intro m b st' hm
    cases st <;> simp [Stage.next] at hm <;> grind -ring -linarith
  constructor
  · intro j m b st' hj
    simp only [Machine.set_proc] at *
    have := Stage.write_state k i (s.proc i) a
    have := Stage.write_pos k i (s.proc i) a
    grind -ring -linarith
  · intro j l m b b' st' st'' hj hl
    simp only [Machine.set_proc] at *
    have := Stage.write_pos k i (s.proc i) a
    grind -ring -linarith

theorem Nursery.fail (h : Nursery s) {np : Slot} {a : Option ForkArgs} {st : Stage}
    (hpos : (s.proc i).pos = .creating np a st) (f : Proc → Proc) (hf : ∀ p, (f p).pos = p.pos) :
    Nursery ((s.set np f).set i fun p => { p with pos := .syscall }) := by
  obtain ⟨h1, h2⟩ := h
  constructor
  · intro j m b st' hj
    simp only [Machine.set_proc] at *
    grind -ring -linarith
  · intro j l m b b' st' st'' hj hl
    simp only [Machine.set_proc] at *
    grind -ring -linarith

/-- The process of a CPU is no EMBRYO, and no signal makes a process RUNNABLE that is one. -/
theorem Nursery.keeps (h : Nursery s) (hcur : ∀ c i, s.cpu c = some i → (s.proc i).state ≠ .EMBRYO)
    (hA : Spares (· ≠ .EMBRYO) s e) (he : Step k s e t) (hp : t.panicked = none) : Nursery t := by
  replace he := effect_of_step he
  by_cases ho : e.isTurn = true
  · obtain ⟨c, i, q, hi, hq, hT, -⟩ := turn_step he ho
    have hr := hcur c i hi
    have hpos := hT.pos
    exact h.keep (by grind -ring -linarith [Pos.isCreating]) (by grind -ring -linarith)
  cases e <;> first
    | exact absurd rfl ho
    | simp only [effect, act_eq_some, Option.some.injEq] at he
  case round c =>
    split at he
    · obtain rfl := Option.some.inj he
      have hag := aged_state k s
      have hpo := aged_pos k s
      rcases round_cases k c hp with ⟨-, hr⟩ | ⟨i, -, hst, -, hr⟩
      · rw [hr]
        exact h.keep (by grind -ring -linarith) (by grind -ring -linarith)
      · rw [hr]
        exact h.keep (by grind -ring -linarith [Proc.run]) (by grind -ring -linarith [Proc.run])
    · cases he
  case wakeup a =>
    subst he
    have := wakeup1_proc (some (.addr a)) s
    exact h.keep (by grind -ring -linarith) (by grind -ring -linarith)
  case exitDone c =>
    obtain ⟨i, hi, -, rfl⟩ := he
    split
    · exact h.keep (by grind -ring -linarith) (by grind -ring -linarith)
    · -- the process that exits is no EMBRYO, and no other becomes one
      have hr := hcur c i hi
      have hself := exitDone_self c i s
      have hother := fun j (hj : j ≠ i) => exitDone_other (c := c) (s := s) hj
      refine h.keep (fun j np a st hj => ?_) fun j hj => ?_
      · by_cases hji : j = i
        · rw [hji, hself] at hj
          cases hj
        · obtain ⟨st', -, hq⟩ := hother j hji
          rw [hq] at hj
          unfold Proc.reparent at hj
          grind -ring -linarith
      · have hji : j ≠ i := by
          intro hji
          rw [hji] at hj
          exact hr hj
        obtain ⟨st', hst', hq⟩ := hother j hji
        rw [Proc.reparent_state] at hst'
        rw [hq]
        grind -ring -linarith
  case wait c =>
    obtain ⟨i, hi, -, rfl⟩ := he
    have := hcur c i hi
    rcases wait_cases c i s with ⟨j, -, hz, hw⟩ | hw | ⟨-, hw⟩
    · rw [hw]
      exact h.keep (by grind -ring -linarith [Proc.reap]) (by grind -ring -linarith [Proc.reap])
    · rw [hw]
      exact h
    · rw [hw]
      exact h.keep (by grind -ring -linarith [sleep]) (by grind -ring -linarith [sleep])
  case kill c pid =>
    obtain ⟨i, hi, -, rfl⟩ := he
    rcases kill_cases pid s with hk | ⟨j, -, hk⟩
    · rw [hk]
      exact h
    · rw [hk]
      exact h.keep (by grind -ring -linarith [Proc.kill]) (by grind -ring -linarith [Proc.kill])
  case fork c a =>
    obtain ⟨i, hi, -, rfl⟩ := he
    rcases allocproc_cases i a s with hk | ⟨np, hu, hk⟩
    · rw [hk]
      exact h
    · rw [hk]
      exact h.alloc a hu
  case advance c =>
    obtain ⟨i, hi, hg, rfl⟩ := he
    obtain ⟨np, a, st, hpos, hk⟩ := advance_cases k hg
    rw [hk]
    exact h.advance hpos
  case fail c =>
    obtain ⟨i, hi, hg, rfl⟩ := he
    obtain ⟨np, a, st, hpos, -, hk⟩ := failFork_cases hg
    rw [hk]
    exact h.fail hpos _ fun p => by split <;> rfl
  case sendsig n =>
    subst he
    refine h.keep (fun i np a st hi => by rw [← hi, sendsig_pos]) fun j hj => ?_
    have := sendsig_state n s j
    have := hA j
    grind -ring -linarith
  case scheduler_start c =>
    obtain ⟨i, hi, -, rfl⟩ := he
    exact h.keep (by grind -ring -linarith [Proc.start]) (by grind -ring -linarith [Proc.start])
  case resumeExit c =>
    obtain ⟨i, hi, -, rfl⟩ := he
    cases hp

theorem Nursery.step (h : Nursery s) (hP : Placed s) (hA : Spares Parked s e)
    (he : Step k s e t) (hp : t.panicked = none) : Nursery t := by
  refine h.keeps (fun c i hi => ?_) (hA.mono fun st hst => hst.2) he hp
  rw [hP.running c i hi]
  simp

/-- The two invariants, as long as the kernel has not panicked. -/
structure Sound (s : Machine) : Prop where
  placed : s.panicked = none → Placed s
  nursery : s.panicked = none → Nursery s

theorem boot_state (k : Config) (i : Slot) :
    ((boot k).proc i).state = .RUNNABLE ∨ ((boot k).proc i).state = .UNUSED := by
  simp only [boot, initcode]
  split
  · exact Or.inl rfl
  · exact Or.inr rfl

theorem boot_pos (k : Config) (i : Slot) :
    ((boot k).proc i).pos = .forkret ∨ ((boot k).proc i).pos = .exited := by
  simp only [boot, initcode]
  split
  · exact Or.inl rfl
  · exact Or.inr rfl

theorem sound_boot (k : Config) : Sound (boot k) := by
  have hpos : ∀ i np a st, ((boot k).proc i).pos ≠ .creating np a st := by
    intro i np a st h
    rcases boot_pos k i with hp | hp <;> rw [hp] at h <;> cases h
  refine ⟨fun _ => ⟨?_, ?_, ?_⟩, fun _ => ⟨?_, ?_⟩⟩
  · intro c i h
    cases h
  · intro i h
    rcases boot_state k i with hp | hp <;> rw [hp] at h <;> cases h
  · intro c d i h
    cases h
  · exact fun i np a st h => absurd h (hpos i np a st)
  · exact fun i j np a b st st' h => absurd h (hpos i np a st)

theorem Sound.step (h : Sound s) (hA : Spares Parked s e) (he : Step k s e t) : Sound t where
  placed hp := (h.placed (not_panicked_of_step he)).step (h.nursery (not_panicked_of_step he)) hA he hp
  nursery hp := (h.nursery (not_panicked_of_step he)).step (h.placed (not_panicked_of_step he)) hA he hp

/-- What a timer interrupt must do to the process that has the CPU: charge its tick,
and take the CPU from it or send it to `exit`. -/
def Charged (c : Nat) (s t : Machine) : Prop :=
  ∀ i, s.cpu c = some i → (t.proc i).total_ticks = (s.proc i).total_ticks + 1 ∧
    (t.cpu c = none ∨ (t.proc i).pos = .exiting)

/-- A timer interrupt finds no suspended process on its CPU. -/
def Chargeable (s : Machine) : Event → Prop
  | .timer c => ∀ i, s.cpu c = some i → (s.proc i).suspended = false
  | _ => True

instance (s : Machine) (e : Event) : Decidable (Chargeable s e) := by
  cases e <;> dsimp only [Chargeable] <;> infer_instance

/-- No signal resumes a RUNNING or EMBRYO process, and no timer interrupt finds a
suspended one. -/
def Orderly (s : Machine) (e : Event) : Prop := Spares Parked s e ∧ Chargeable s e
  deriving Decidable

theorem timer_charged (h : Placed s) (hi : ∀ i, s.cpu c = some i → (s.proc i).suspended = false)
    (he : Step k s (.timer c) t) : Charged c s t := by
  intro i hc
  replace he := effect_of_step he
  simp only [effect, act_eq_some] at he
  obtain ⟨j, hj, -, rfl⟩ := he
  obtain rfl : j = i := Option.some.inj (hj.symm.trans hc)
  have hr := h.running c j hj
  have hsus := hi j hj
  have hticks : (s.proc j).charge.total_ticks = (s.proc j).total_ticks + 1 := by
    unfold Proc.charge
    rw [if_pos ⟨hr, hsus⟩]
  rcases timer_cases c j s with ⟨-, -, ht⟩ | ⟨-, ht⟩ | ⟨hn, -⟩
  · rw [ht]
    exact ⟨by simpa using hticks, Or.inr (by simp)⟩
  · rw [ht]
    exact ⟨by simpa using hticks, Or.inl (by simp)⟩
  · exact absurd hr hn

/-- What a round runs was on no CPU. -/
theorem round_idle (h : Placed s) (he : Step k s (.round c) t) (hp : t.panicked = none)
    (hc : t.cpu c = some i) (d : Nat) : s.cpu d ≠ some i := by
  intro hd
  have hr := h.running d i hd
  replace he := effect_of_step he
  simp only [effect] at he
  split at he
  · rename_i hidle
    obtain rfl := Option.some.inj he
    rcases round_cases k c hp with ⟨-, ht⟩ | ⟨j, -, hst, -, ht⟩
    · rw [ht] at hc
      exact absurd (hidle.symm.trans hc) (by simp)
    · rw [ht] at hc
      simp only [Machine.setCpu_cpu, if_true, Option.some.injEq] at hc
      subst hc
      have := aged_state k s j
      grind -ring -linarith
  · cases he

/-- **One CPU per process.** In a run whose signals resume no RUNNING or EMBRYO
process and whose timer interrupts find no suspended one, each CPU's process is
RUNNING there and nowhere else and no other process is RUNNING; what a round
dispatches was not executing, and each timer interrupt charges and preempts. -/
theorem one_cpu_per_process {es : List Event}
    (hrun : Run (Guarded (Step k) Orderly) (boot k) es s) (hs : s.panicked = none) :
    Placed s ∧
      (∀ c t, Orderly s (.timer c) → Step k s (.timer c) t → Charged c s t) ∧
      (∀ c t i d, Step k s (.round c) t → t.panicked = none → t.cpu c = some i →
        s.cpu d ≠ some i) := by
  have hS : Sound s := hrun.invariant (fun s e t hst hS => hS.step hst.1.1 hst.2) (sound_boot k)
  have hP := hS.placed hs
  exact ⟨hP, fun c t ho he => timer_charged hP ho.2 he,
    fun c t i d he hp hc => round_idle hP he hp hc d⟩

/-- A run in which init starts the shell, SIGBG comes while the shell is asleep and
SIGFG after it. -/
theorem one_cpu_sleepingShell : ∃ es s, Run (Guarded (Step xv6) Orderly) (boot xv6) es s ∧
    s.panicked = none ∧ Placed s := by
  have hx : ((stepsIf xv6 Orderly (startShell ++ [Event.round 0, .forkret 0, .enter 0, .sleep 0 7,
      .sendsig 2, .sendsig 3]) (boot xv6)).map Machine.panicked) = some none := by decide +kernel
  obtain ⟨s, hs, hp⟩ := Option.map_eq_some_iff.1 hx
  exact ⟨_, s, run_of_stepsIf hs, hp, (one_cpu_per_process (run_of_stepsIf hs) hp).1⟩

/-- SIGBG while the shell runs on CPU 0. -/
theorem running_shell_not_placed : ∃ es s, Run (Step xv6) (boot xv6) es s ∧
    s.panicked = none ∧ ¬ Placed s := by
  have hx : ((steps xv6 (startShell ++ [Event.round 0, .sendsig 2]) (boot xv6)).map fun s =>
      (s.panicked, s.cpu 0, (s.proc 1).state)) = some (none, some 1, .RUNNABLE) := by
    decide +kernel
  obtain ⟨s, hs, hv⟩ := Option.map_eq_some_iff.1 hx
  simp only [Prod.mk.injEq] at hv
  refine ⟨_, s, run_of_steps hs, hv.1, fun hP => ?_⟩
  have := hP.running 0 1 hv.2.1
  rw [hv.2.2] at this
  cases this

end Xv6.Signal
