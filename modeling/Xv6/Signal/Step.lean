/-
The kernel as a step relation: which critical section, or stage of a longer path,
can run next, and on which CPU.

A step is made by a CPU on behalf of its current process, by a CPU in its
scheduler loop, or by an interrupt. The paths through `trap`, `syscall`, `exit`
and `fork` are the sequences of steps that the position of the process allows.
The file system is there through what the process table has to do with it: open
files, sleep locks, transactions and sleeping. `sendsig` comes from the console
interrupt, which any CPU can take at any time `ptable.lock` is free.

On a timer interrupt the charge, the first test of `killed` and the `yield` are
one step. An interrupt or an exception turns interrupts off (only `T_SYSCALL` is a trap
gate): a process that was in user mode has them off until it returns there (`cli`), also
in `exit`, and no timer interrupt comes in between.
-/
import Xv6.Lib.Run
import Xv6.Signal.Table

set_option autoImplicit false

namespace Xv6.Signal

open Xv6.Lib

inductive Event where
  /-- A round of the scheduler. -/
  | round (c : Nat)
  | timer (c : Nat)
  /-- Another interrupt in user mode. -/
  | interrupt (c : Nat)
  /-- An exception in user mode: the process is killed. -/
  | fault (c : Nat)
  /-- The first test of `killed` in `trap`. -/
  | test (c : Nat)
  /-- The second one, with the `yield` of a suspended process. -/
  | retest (c : Nat)
  /-- `trap` returns to user mode. -/
  | trapret (c : Nat)
  /-- A new process enters user mode. -/
  | forkret (c : Nat)
  | enter (c : Nat)
  /-- `syscall` is done: signal delivery and the last test of `killed`. -/
  | leave (c : Nat)
  | sleep (c : Nat) (a : Nat)
  | wakeup (a : Nat)
  | acquiresleep (c : Nat) (l : Nat)
  | releasesleep (c : Nat) (l : Nat)
  | begin_op (c : Nat)
  | end_op (c : Nat)
  | openFile (c : Nat) (fd : Nat)
  | closeFile (c : Nat) (fd : Nat)
  | exit (c : Nat)
  | dropCwd (c : Nat)
  | exitDone (c : Nat)
  /-- A process resumes after the `sched` of `exit`. -/
  | resumeExit (c : Nat)
  | wait (c : Nat)
  | kill (c : Nat) (pid : Nat)
  | signal (c : Nat) (h : Nat)
  | scheduler_start (c : Nat)
  | fork (c : Nat) (a : Option ForkArgs)
  /-- The next stage of the creation. -/
  | advance (c : Nat)
  /-- The creation fails in `kalloc` or in `copyuvm`. -/
  | fail (c : Nat)
  | sendsig (n : Nat)
  deriving DecidableEq, Repr

/-- Whether the process runs kernel code that may sleep and take locks. -/
def Pos.mayBlock : Pos → Bool
  | .syscall | .exiting | .forkret => true
  | _ => false

/-- A step that process `i` makes when `g` holds of it. -/
def act (c : Nat) (g : Proc → Bool) (f : Slot → Machine → Machine) (s : Machine) :
    Option Machine :=
  match s.cpu c with
  | some i => if g (s.proc i) then some (f i s) else none
  | none => none

/-- The charge of a timer interrupt. -/
def Proc.charge (p : Proc) : Proc :=
  if p.state = .RUNNING ∧ p.suspended = false then
    { p with
      total_ticks := p.total_ticks + 1
      killed := p.killed || (0 < p.exec_time && p.exec_time ≤ (p.total_ticks + 1 : Nat)) }
  else p

/-- A timer interrupt on CPU `c`, up to the `yield`. -/
def timer (c : Nat) (i : Slot) (s : Machine) : Machine :=
  let user := (s.proc i).pos == .user
  let s := s.set i fun p => { p.charge with cli := user }
  if user && (s.proc i).killed then s.set i fun p => { p with pos := .exiting }
  else
    let pos := if user then .retest else (s.proc i).pos
    if (s.proc i).state = .RUNNING then yield c i pos s
    else s.set i fun p => { p with pos := pos }

/-- A test of `killed`, on the way to `pos`. -/
def Proc.orExit (pos : Pos) (p : Proc) : Proc :=
  { p with pos := if p.killed then .exiting else pos }

/-- The second test and the `yield` of a suspended process. -/
def retest (c : Nat) (i : Slot) (s : Machine) : Machine :=
  if !(s.proc i).killed && (s.proc i).suspended then yield c i .leaving s
  else s.set i (Proc.orExit .leaving)

/-- The end of `syscall` and of its branch of `trap`. -/
def Proc.leave (p : Proc) : Proc :=
  Proc.orExit .leaving
    { p with sig_pending := if p.sighandler ≠ 0 then false else p.sig_pending }

/-- The process holds no sleep lock and is in no transaction. Every system call releases
its locks and ends its transaction before it returns, also when it fails, so `leave`, `exit`
and the steps of `exit` wait for this. -/
def Proc.free (p : Proc) : Bool := p.locks.isEmpty && p.ops == 0

def advance (k : Config) (i : Slot) (s : Machine) : Machine :=
  match (s.proc i).pos with
  | .creating np a st =>
    (s.set np fun p => st.write k i (s.proc i) a p).set i fun p => { p with pos := st.next np a }
  | _ => s

def failFork (i : Slot) (s : Machine) : Machine :=
  match (s.proc i).pos with
  | .creating np _ st =>
    (s.set np (if st = .stack then Proc.noStack else Proc.noCopy)).set i
      fun p => { p with pos := .syscall }
  | _ => s

def Pos.isCreating : Pos → Bool
  | .creating .. => true
  | _ => false

/-- Whether the next stage of the creation can fail. -/
def Pos.canFail : Pos → Bool
  | .creating _ _ .stack | .creating _ _ .copying => true
  | _ => false

/-- The effect of an event, where it can happen. -/
def effect (k : Config) (e : Event) (s : Machine) : Option Machine :=
  match e with
  | .round c => if s.cpu c = none then some (round k c s) else none
  | .timer c => act c (fun p => p.pos != .exited && !p.cli) (timer c) s
  | .interrupt c =>
    act c (fun p => p.pos == .user)
      (fun i s => s.set i fun p => { p with pos := .trapped, cli := true }) s
  | .fault c =>
    act c (fun p => p.pos == .user)
      (fun i s => s.set i fun p => { p with pos := .trapped, cli := true, killed := true }) s
  | .test c => act c (fun p => p.pos == .trapped) (fun i s => s.set i (Proc.orExit .retest)) s
  | .retest c => act c (fun p => p.pos == .retest) (retest c) s
  | .trapret c =>
    act c (fun p => p.pos == .leaving)
      (fun i s => s.set i fun p => { p with pos := .user, cli := false }) s
  | .forkret c =>
    act c (fun p => p.pos == .forkret && p.free)
      (fun i s => s.set i fun p => { p with pos := .user }) s
  | .enter c => act c (fun p => p.pos == .user) (fun i s => s.set i (Proc.orExit .syscall)) s
  | .leave c => act c (fun p => p.pos == .syscall && p.free) (fun i s => s.set i Proc.leave) s
  | .sleep c a => act c (fun p => p.pos.mayBlock) (fun i s => sleep c i (.addr a) s) s
  | .wakeup a => some (wakeup1 (some (.addr a)) s)
  | .acquiresleep c l =>
    act c (fun p => p.pos.mayBlock) (fun i s => s.set i fun p => { p with locks := l :: p.locks }) s
  | .releasesleep c l =>
    act c (fun p => p.pos.mayBlock)
      (fun i s => s.set i fun p => { p with locks := p.locks.erase l }) s
  | .begin_op c =>
    act c (fun p => p.pos.mayBlock) (fun i s => s.set i fun p => { p with ops := p.ops + 1 }) s
  | .end_op c =>
    act c (fun p => p.pos.mayBlock && p.ops != 0)
      (fun i s => s.set i fun p => { p with ops := p.ops - 1 }) s
  | .openFile c fd =>
    act c (fun p => p.pos == .syscall) (fun i s => s.set i fun p => { p with ofile := fd :: p.ofile }) s
  | .closeFile c fd =>
    act c (fun p => p.pos == .syscall || p.pos == .exiting)
      (fun i s => s.set i fun p => { p with ofile := p.ofile.erase fd }) s
  | .exit c =>
    act c (fun p => p.pos == .syscall && p.free)
      (fun i s => s.set i fun p => { p with pos := .exiting }) s
  | .dropCwd c =>
    act c (fun p => p.pos == .exiting && p.ofile.isEmpty && p.free)
      (fun i s => s.set i fun p => { p with cwd := false }) s
  | .exitDone c =>
    act c (fun p => p.pos == .exiting && p.ofile.isEmpty && !p.cwd && p.free)
      (fun i s => if i = s.initproc then s.panic .initExiting else exitDone c i s) s
  | .resumeExit c => act c (fun p => p.pos == .exited) (fun _ s => s.panic .zombieExit) s
  | .wait c => act c (fun p => p.pos == .syscall) (wait c) s
  | .kill c pid => act c (fun p => p.pos == .syscall) (fun _ => kill pid) s
  | .signal c h =>
    act c (fun p => p.pos == .syscall)
      (fun i s => s.set i fun p => { p with sighandler := h, signalled := true }) s
  | .scheduler_start c => act c (fun p => p.pos == .syscall) (fun _ s => s.each Proc.start) s
  | .fork c a => act c (fun p => p.pos == .syscall) (fun i s => allocproc i a s) s
  | .advance c => act c (fun p => p.pos.isCreating) (advance k) s
  | .fail c => act c (fun p => p.pos.canFail) failFork s
  | .sendsig n => some (sendsig n s)

/-- One step of the kernel, which stops at a panic. -/
def step (k : Config) (e : Event) (s : Machine) : Option Machine :=
  if s.panicked = none then effect k e s else none

/-- The step relation. -/
def Step (k : Config) (s : Machine) (e : Event) (t : Machine) : Prop := step k e s = some t

/-- The state after a list of events. -/
def steps (k : Config) : List Event → Machine → Option Machine
  | [], s => some s
  | e :: es, s => (step k e s).bind (steps k es)

theorem run_of_steps {k : Config} {es : List Event} {s t : Machine} (h : steps k es s = some t) :
    Run (Step k) s es t := by
  induction es generalizing s with
  | nil =>
    obtain rfl := Option.some.inj h
    exact .nil s
  | cons e es ih =>
    obtain ⟨u, hu, ht⟩ := Option.bind_eq_some_iff.1 h
    exact .cons hu (ih ht)

/-- The state after a list of events whose steps all meet a condition. -/
def stepsIf (k : Config) (ok : Machine → Event → Prop) [∀ s e, Decidable (ok s e)] :
    List Event → Machine → Option Machine
  | [], s => some s
  | e :: es, s => if ok s e then (step k e s).bind (stepsIf k ok es) else none

theorem run_of_stepsIf {k : Config} {ok : Machine → Event → Prop} [∀ s e, Decidable (ok s e)]
    {es : List Event} {s t : Machine} (h : stepsIf k ok es s = some t) :
    Run (Guarded (Step k) ok) s es t := by
  induction es generalizing s with
  | nil =>
    obtain rfl := Option.some.inj h
    exact .nil s
  | cons e es ih =>
    simp only [stepsIf] at h
    split at h
    · obtain ⟨u, hu, ht⟩ := Option.bind_eq_some_iff.1 h
      exact .cons ⟨‹_›, hu⟩ (ih ht)
    · cases h

/-- The first process, as `userinit` leaves it. -/
def initcode (k : Config) : Proc :=
  { state := .RUNNABLE, pid := 1, kstack := true, pgdir := some 1, tf := some 1, cwd := true
    exec_time := -1, initial_priority := k.INIT_PRIORITY, dynamic_priority := k.INIT_PRIORITY
    pos := .forkret }

/-- The state after `userinit`, each CPU in its scheduler. -/
def boot (k : Config) : Machine where
  proc i := if i = 0 then initcode k else {}
  cpu _ := none
  nextpid := 2
  initproc := 0
  panicked := none

/-- The constants of the Makefile. -/
def xv6 : Config where
  ALPHA := 1
  BETA := 1
  INIT_PRIORITY := 10

/-- init runs, forks the shell (pid 2) and is preempted. -/
def startShell : List Event :=
  [Event.round 0, .forkret 0, .enter 0, .fork 0 none] ++ List.replicate 8 (Event.advance 0) ++
    [Event.leave 0, .trapret 0, .timer 0]

/-- What a step made by a process is: the process and its condition. -/
theorem act_eq_some {c : Nat} {g : Proc → Bool} {f : Slot → Machine → Machine} {s t : Machine} :
    act c g f s = some t ↔ ∃ i, s.cpu c = some i ∧ g (s.proc i) = true ∧ f i s = t := by
  unfold act
  cases s.cpu c with
  | none => simp
  | some i => by_cases h : g (s.proc i) = true <;> simp [h]

theorem effect_of_step {k : Config} {e : Event} {s t : Machine} (h : Step k s e t) :
    effect k e s = some t := by
  unfold Step step at h
  split at h
  · exact h
  · cases h

/-- A kernel that steps has not panicked. -/
theorem not_panicked_of_step {k : Config} {e : Event} {s t : Machine} (h : Step k s e t) :
    s.panicked = none := by
  unfold Step step at h
  split at h
  · assumption
  · cases h

end Xv6.Signal
