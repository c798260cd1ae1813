/-
The process table of the signal and priority scheduler, and what each piece of
`proc.c` and `trap.c` does to it while it holds `ptable.lock`.

A process is its `struct proc` together with the point its kernel thread has
reached (`Pos`): the table alone does not say whether a process is half-way
through `fork`, past its last test of `killed`, or dead. What a critical section
does is one function here; what `fork` does without the lock is cut into the
stages between which an interrupt or another CPU can come (`Stage`).

Three fields are not in the source. `parked`, `targeted` and `signalled` record
what happened to a process since its pid was assigned, for the properties that
speak of its past. Nothing the code does depends on them.
-/
import Mathlib

set_option autoImplicit false

namespace Xv6.Signal

/-- Maximum number of processes (`param.h`). -/
abbrev NPROC : Nat := 64

instance : NeZero NPROC := ⟨by decide⟩

/-- An index of `ptable.proc`. -/
abbrev Slot := Fin NPROC

inductive ProcState where
  | UNUSED | EMBRYO | SLEEPING | RUNNABLE | RUNNING | ZOMBIE | CREATED
  deriving DecidableEq, Repr

/-- What a process can sleep on: the `struct proc` of a parent in `wait`, or any
other kernel object. -/
inductive Chan where
  | proc (p : Slot)
  | addr (a : Nat)
  deriving DecidableEq, Repr

/-- The stages of `fork` and `custom_fork` after `allocproc` has taken a slot, in
the order of the source: what the next piece of code writes. -/
inductive Stage where
  | stack | signals | ticks | waiting | copying | linking | files | ready
  deriving DecidableEq, Repr

/-- The arguments of `custom_fork`, or none for `fork`. -/
structure ForkArgs where
  start_later : Int
  exec_time : Int
  deriving DecidableEq, Repr

/-- Where the thread of a process is. -/
inductive Pos where
  | user
  /-- In the body of a system call. -/
  | syscall
  /-- In `fork` or `custom_fork`, about to run a stage of the creation of `np`. -/
  | creating (np : Slot) (args : Option ForkArgs) (st : Stage)
  /-- In `exit`, before its last critical section. -/
  | exiting
  /-- Past the `sched` of `exit`. -/
  | exited
  /-- In `trap`, after an interrupt in user mode, before the first test of `killed`. -/
  | trapped
  /-- In `trap`, past the first test of `killed` and before the second. -/
  | retest
  /-- Past the last test of `killed`, on the way back to user mode. -/
  | leaving
  /-- About to run for the first time. -/
  | forkret
  deriving DecidableEq, Repr

/-- `struct proc`. A page directory and a trap frame are named by the pid of the
process they were built for; `kstack` stands for the kernel stack and the context
at its top, which `allocproc` builds together. `locks` are the sleep locks that
carry this process's pid and `ops` its share of `log.outstanding`. -/
structure Proc where
  state : ProcState := .UNUSED
  pid : Nat := 0
  parent : Option Slot := none
  chan : Option Chan := none
  killed : Bool := false
  kstack : Bool := false
  pgdir : Option Nat := none
  tf : Option Nat := none
  ofile : List Nat := []
  cwd : Bool := false
  suspended : Bool := false
  sighandler : Nat := 0
  sig_pending : Bool := false
  start_later : Int := 0
  exec_time : Int := 0
  total_ticks : Nat := 0
  waiting_time : Nat := 0
  initial_priority : Int := 0
  dynamic_priority : Int := 0
  locks : List Nat := []
  ops : Nat := 0
  pos : Pos := .exited
  /-- Interrupts are off while it runs. -/
  cli : Bool := false
  /-- Created by `custom_fork` with `start_later`, and no `scheduler_start` since. -/
  parked : Bool := false
  /-- `kill` or SIGINT found this pid. -/
  targeted : Bool := false
  /-- A signal was sent to this pid, or it registered a handler. -/
  signalled : Bool := false
  deriving DecidableEq, Repr

inductive Panic where
  | noKstack | noPgdir | zombieExit | initExiting
  deriving DecidableEq, Repr

/-- The compile-time constants of the scheduler. -/
structure Config where
  ALPHA : Int
  BETA : Int
  INIT_PRIORITY : Int

/-- The state: the table, the current process of each CPU (`c->proc`), the next pid,
`initproc`, and the panic that stopped the kernel. -/
structure Machine where
  proc : Slot → Proc
  cpu : Nat → Option Slot
  nextpid : Nat
  initproc : Slot
  panicked : Option Panic

namespace Machine

variable (s : Machine)

/-- Write one slot. -/
def set (i : Slot) (f : Proc → Proc) : Machine :=
  { s with proc := fun j => if j = i then f (s.proc j) else s.proc j }

/-- A loop over the table that writes each slot by itself. -/
def each (f : Proc → Proc) : Machine :=
  { s with proc := fun j => f (s.proc j) }

def setCpu (c : Nat) (p : Option Slot) : Machine :=
  { s with cpu := fun d => if d = c then p else s.cpu d }

def panic (m : Panic) : Machine := { s with panicked := some m }

/-- The first slot that meets a test. -/
def find (f : Proc → Bool) : Option Slot := (List.finRange NPROC).find? fun i => f (s.proc i)

section
variable (i j : Slot) (f : Proc → Proc) (c d : Nat) (q : Option Slot) (m : Panic)

@[simp, grind =] theorem set_proc :
    (s.set i f).proc j = if j = i then f (s.proc j) else s.proc j := rfl
@[simp, grind =] theorem set_cpu : (s.set i f).cpu d = s.cpu d := rfl
@[simp, grind =] theorem set_nextpid : (s.set i f).nextpid = s.nextpid := rfl
@[simp, grind =] theorem set_initproc : (s.set i f).initproc = s.initproc := rfl
@[simp, grind =] theorem set_panicked : (s.set i f).panicked = s.panicked := rfl
@[simp, grind =] theorem each_proc : (s.each f).proc j = f (s.proc j) := rfl
@[simp, grind =] theorem each_cpu : (s.each f).cpu d = s.cpu d := rfl
@[simp, grind =] theorem each_nextpid : (s.each f).nextpid = s.nextpid := rfl
@[simp, grind =] theorem each_initproc : (s.each f).initproc = s.initproc := rfl
@[simp, grind =] theorem each_panicked : (s.each f).panicked = s.panicked := rfl
@[simp, grind =] theorem setCpu_proc : (s.setCpu c q).proc j = s.proc j := rfl
@[simp, grind =] theorem setCpu_cpu :
    (s.setCpu c q).cpu d = if d = c then q else s.cpu d := rfl
@[simp, grind =] theorem setCpu_nextpid : (s.setCpu c q).nextpid = s.nextpid := rfl
@[simp, grind =] theorem setCpu_initproc : (s.setCpu c q).initproc = s.initproc := rfl
@[simp, grind =] theorem setCpu_panicked : (s.setCpu c q).panicked = s.panicked := rfl
@[simp, grind =] theorem panic_proc : (s.panic m).proc j = s.proc j := rfl
@[simp, grind =] theorem panic_cpu : (s.panic m).cpu d = s.cpu d := rfl
@[simp, grind =] theorem panic_nextpid : (s.panic m).nextpid = s.nextpid := rfl
@[simp, grind =] theorem panic_initproc : (s.panic m).initproc = s.initproc := rfl
@[simp, grind =] theorem panic_panicked : (s.panic m).panicked = some m := rfl

end

theorem find_some {f : Proc → Bool} {i : Slot} (h : s.find f = some i) : f (s.proc i) = true := by
  unfold find at h
  have := List.find?_some h
  exact this

theorem find_none {f : Proc → Bool} (h : s.find f = none) (i : Slot) : f (s.proc i) = false := by
  have := List.find?_eq_none.1 h i (List.mem_finRange i)
  simpa using this

end Machine

/-! ## The scheduler -/

/-- Whether the scheduler looks at the process. -/
def Proc.eligible (p : Proc) : Bool := p.state == .RUNNABLE && !p.suspended

/-- Whether the process has used up its execution time limit. -/
def Proc.expired (p : Proc) : Bool := 0 < p.exec_time && p.exec_time ≤ p.total_ticks

/-- The first loop of a round: waiting time and priority of each eligible process. -/
def Proc.boost (k : Config) (p : Proc) : Proc :=
  if p.eligible then
    { p with
      waiting_time := p.waiting_time + 1
      dynamic_priority := p.initial_priority - k.ALPHA * p.total_ticks +
        k.BETA * (p.waiting_time + 1 : Nat) }
  else p

/-- The second loop, on the processes at their limit. -/
def Proc.expire (p : Proc) : Proc :=
  if p.eligible && p.expired then { p with state := .ZOMBIE } else p

/-- Whether `p` replaces the best process found so far. -/
def Proc.better (p q : Proc) : Bool :=
  q.dynamic_priority < p.dynamic_priority ||
    (p.dynamic_priority == q.dynamic_priority && p.pid < q.pid)

/-- One step of the search for `highest_priority_proc`. -/
def pick (s : Machine) (best : Option Slot) (i : Slot) : Option Slot :=
  if (s.proc i).eligible then
    match best with
    | none => some i
    | some j => if (s.proc i).better (s.proc j) then some i else best
  else best

/-- `highest_priority_proc`. The source marks the expired processes in the same
loop; a slot it marks is never the one it has chosen, so the order is immaterial. -/
def highest (s : Machine) : Option Slot := (List.finRange NPROC).foldl (pick s) none

/-- `switchuvm` and `swtch` to process `i` on CPU `c`. The process resumes by
clearing `chan`, when it comes out of `sleep`. -/
def dispatch (c : Nat) (i : Slot) (s : Machine) : Machine :=
  let s := (s.set i fun p => { p with waiting_time := 0 }).setCpu c (some i)
  if (s.proc i).kstack then
    if (s.proc i).pgdir.isSome then
      s.set i fun p => { p with state := .RUNNING, chan := none }
    else s.panic .noPgdir
  else s.panic .noKstack

/-- The table after both loops of a round. -/
def Machine.aged (k : Config) (s : Machine) : Machine := (s.each (Proc.boost k)).each Proc.expire

/-- One round of `scheduler` on CPU `c`. -/
def round (k : Config) (c : Nat) (s : Machine) : Machine :=
  match highest (s.aged k) with
  | some i => dispatch c i (s.aged k)
  | none => s.aged k

/-! ## Sleeping, waking and dying -/

/-- `wakeup1` on one process. -/
def Proc.wake (ch : Chan) (p : Proc) : Proc :=
  if p.state = .SLEEPING ∧ p.chan = some ch then { p with state := .RUNNABLE } else p

/-- What `kill` does to the process it found: it is also what SIGINT does. -/
def Proc.kill (p : Proc) : Proc :=
  { p with
    killed := true
    state := if p.state = .SLEEPING then .RUNNABLE else p.state
    targeted := true }

/-- `yield` on CPU `c`, up to the release of `ptable.lock` by the scheduler; the
thread goes on at `pos` when it is dispatched again. -/
def yield (c : Nat) (i : Slot) (pos : Pos) (s : Machine) : Machine :=
  (s.set i fun p => { p with state := .RUNNABLE, pos := pos }).setCpu c none

def sleep (c : Nat) (i : Slot) (ch : Chan) (s : Machine) : Machine :=
  (s.set i fun p => { p with state := .SLEEPING, chan := some ch }).setCpu c none

/-- `wakeup1`; the null channel wakes nobody. -/
def wakeup1 (ch : Option Chan) (s : Machine) : Machine :=
  match ch with
  | some ch => s.each (Proc.wake ch)
  | none => s

/-- `exit` passes the children of `i` to init. -/
def Proc.reparent (i init : Slot) (p : Proc) : Proc :=
  if p.parent = some i then { p with parent := some init } else p

/-- Whether `i` leaves a zombie behind, for which init is woken. -/
def zombieChild (i : Slot) (s : Machine) : Bool :=
  (s.find fun p => p.parent == some i && p.state == .ZOMBIE).isSome

/-- The last critical section of `exit`, with the `sched` at its end. -/
def exitDone (c : Nat) (i : Slot) (s : Machine) : Machine :=
  let s1 := wakeup1 ((s.proc i).parent.map .proc) s
  let s2 := s1.each (Proc.reparent i s.initproc)
  let s3 := if zombieChild i s1 then s2.each (Proc.wake (.proc s.initproc)) else s2
  (s3.set i fun p => { p with state := .ZOMBIE, pos := .exited }).setCpu c none

/-- What `wait` leaves of a zombie. -/
def Proc.reap (p : Proc) : Proc :=
  { p with kstack := false, pid := 0, parent := none, killed := false, state := .UNUSED }

/-- One pass of the loop in `wait` by process `i`. -/
def wait (c : Nat) (i : Slot) (s : Machine) : Machine :=
  match s.find fun p => p.parent == some i && p.state == .ZOMBIE with
  | some k => s.set k Proc.reap
  | none =>
    if (s.find fun p => p.parent == some i).isNone || (s.proc i).killed then s
    else sleep c i (.proc i) s

def kill (pid : Nat) (s : Machine) : Machine :=
  match s.find fun p => p.pid == pid with
  | some i => s.set i Proc.kill
  | none => s

/-- `scheduler_start`. -/
def Proc.start (p : Proc) : Proc :=
  { p with
    state := if p.state = .CREATED then .RUNNABLE else p.state
    parked := if p.state = .EMBRYO then p.parked else false }

/-! ## Creation -/

def ForkArgs.later (a : Option ForkArgs) : Bool :=
  match a with
  | some a => a.start_later != 0
  | none => false

/-- `allocproc` takes a slot. -/
def Proc.alloc (pid : Nat) (a : Option ForkArgs) (p : Proc) : Proc :=
  { p with
    state := .EMBRYO, pid := pid, pos := .forkret, cli := false
    parked := ForkArgs.later a, targeted := false, signalled := false }

/-- The critical section of `allocproc`, called by `i`; without a free slot the
call returns -1. -/
def allocproc (i : Slot) (a : Option ForkArgs) (s : Machine) : Machine :=
  match s.find fun p => p.state == .UNUSED with
  | some np =>
    { (s.set np (Proc.alloc s.nextpid a)).set i fun p =>
        { p with pos := .creating np a .stack } with nextpid := s.nextpid + 1 }
  | none => s

/-- What a stage of the creation writes in the new process; `cur` is its creator. -/
def Stage.write (k : Config) (i : Slot) (cur : Proc) (a : Option ForkArgs) (p : Proc) :
    Stage → Proc
  | .stack => { p with kstack := true }
  | .signals =>
    { p with suspended := false, sig_pending := false, sighandler := 0, start_later := 0,
             exec_time := -1 }
  | .ticks => { p with total_ticks := 0 }
  | .waiting =>
    { p with waiting_time := 0, initial_priority := k.INIT_PRIORITY,
             dynamic_priority := k.INIT_PRIORITY }
  | .copying => { p with pgdir := some p.pid }
  | .linking =>
    match a with
    | none => { p with parent := some i, tf := some p.pid }
    | some a =>
      { p with parent := some i, tf := some p.pid, sig_pending := false,
               start_later := a.start_later, exec_time := a.exec_time, total_ticks := 0,
               waiting_time := 0, initial_priority := k.INIT_PRIORITY,
               dynamic_priority := k.INIT_PRIORITY }
  | .files => { p with ofile := cur.ofile, cwd := cur.cwd }
  | .ready => { p with state := if ForkArgs.later a then .CREATED else .RUNNABLE }

/-- The stage after it, or the return from the system call. -/
def Stage.next (np : Slot) (a : Option ForkArgs) : Stage → Pos
  | .stack => .creating np a .signals
  | .signals => .creating np a .ticks
  | .ticks => .creating np a .waiting
  | .waiting => .creating np a .copying
  | .copying => .creating np a .linking
  | .linking => .creating np a .files
  | .files => .creating np a .ready
  | .ready => .syscall

/-- `kalloc` found no page for the kernel stack. -/
def Proc.noStack (p : Proc) : Proc := { p with kstack := false, state := .UNUSED, parked := false }

/-- `copyuvm` failed. -/
def Proc.noCopy (p : Proc) : Proc :=
  { p with pgdir := none, kstack := false, state := .UNUSED, parked := false }

/-! ## Console signals -/

/-- Whether signal `n` sets the process RUNNABLE whatever its state is. -/
def Proc.resumedBy (n : Nat) (p : Proc) : Bool :=
  (n == 2 && p.pid == 2) ||
    (n == 3 && p.suspended && p.state != .ZOMBIE && p.state != .UNUSED)

/-- SIGBG on one process; the parent's pid is read in the table `s`. -/
def Proc.background (s : Machine) (p : Proc) : Proc :=
  if p.pid = 2 then { p with suspended := false, state := .RUNNABLE, signalled := true }
  else if 2 < p.pid then
    { p with
      parent := if p.parent.any fun r => (s.proc r).pid = 2 then some 0 else p.parent
      suspended := true, signalled := true }
  else p

/-- SIGFG on one process. -/
def Proc.foreground (p : Proc) : Proc :=
  if p.suspended then
    { p with
      suspended := false
      state := if p.state ≠ .ZOMBIE ∧ p.state ≠ .UNUSED then .RUNNABLE else p.state }
  else p

/-- SIGCUSTOM on one process. -/
def Proc.custom (p : Proc) : Proc :=
  if 2 < p.pid ∧ p.state ≠ .UNUSED ∧ p.state ≠ .ZOMBIE then
    { p with
      sig_pending := true, signalled := true
      state := if p.state = .SLEEPING then .RUNNABLE else p.state }
  else p

/-- `sendsig`. -/
def sendsig (n : Nat) (s : Machine) : Machine :=
  if n = 1 then s.each fun p => if 2 < p.pid then p.kill else p
  else if n = 2 then s.each (Proc.background s)
  else if n = 3 then s.each Proc.foreground
  else if n = 4 then s.each Proc.custom
  else s

end Xv6.Signal
