/-
The open files of the enhanced shell: file-table entries, the inode-cache entries they
point to, pipes, and the permission test of read and write.

`sys_read` and `sys_write` test `f->ip->mode` before they know what `f` is, and without
the lock of the inode. `pipealloc` does not write `ip`, so the entry of a pipe keeps
the pointer that its last inode file left, or the null pointer.

A step is what a process does between two points where another may run: under a
spinlock, or up to the next sleeplock. The pointers that calls in progress hold, and
the current directories, are the `tmp` entries of their process. The inode that a path
leads to and the one `ialloc` finds are arguments of the steps.
-/
import Xv6.Lib.Refs
import Xv6.Lib.Run
import Xv6.Shell.Block

set_option autoImplicit false

namespace Xv6.Shell.File

open Xv6.Lib

def NFILE : Nat := 100
def NINODE : Nat := 50
def NOFILE : Nat := 16

instance : NeZero NFILE := ⟨by decide⟩
instance : NeZero NINODE := ⟨by decide⟩
instance : NeZero NOFILE := ⟨by decide⟩

abbrev PIPESIZE : Nat := 512
abbrev MAXOPBLOCKS : Nat := 10

/-- The most that one transaction of `filewrite` writes. -/
abbrev MAXCHUNK : Nat := (MAXOPBLOCKS - 1 - 1 - 2) / 2 * 512

/-- An entry of `icache.inode`, of `ftable.file`, and of the `ofile` of a process. -/
abbrev Ix : Type := Fin NINODE
abbrev FileIx : Type := Fin NFILE
abbrev Fd : Type := Slot × Fin NOFILE

/-- A pointer that a process holds in a call, or its current directory. -/
abbrev Tmp : Type := Slot × Fin 3

instance tmp_neZero : NeZero 3 := ⟨by decide⟩

/-- `struct inode`. -/
structure Cached where
  inum : Nat := 0
  ref : Nat := 0
  valid : Bool := false
  mode : BitVec 32 := 0
  /-- The process that holds the sleeplock. -/
  lock : Option Slot := none

inductive FdType where
  | FD_NONE
  | FD_PIPE
  | FD_INODE
  deriving DecidableEq, Repr

/-- `struct file`. -/
structure Entry where
  ref : Nat := 0
  type : FdType := .FD_NONE
  readable : Bool := false
  writable : Bool := false
  pipe : Nat := 0
  ip : Option Ix := none

/-- `struct pipe`, with the bytes between `nread` and `nwrite`. -/
structure Pipe where
  data : List (BitVec 8) := []
  readopen : Bool := false
  writeopen : Bool := false
  deriving DecidableEq, Repr

/-- The steps of one turn of `filewrite`, and of `fileread`. -/
inductive Chunk where
  | begin_op
  | ilock
  | data
  | iunlock
  | end_op
  deriving DecidableEq, Repr

/-- Where a process is: past the test of read or write, or elsewhere. `left` is what
the loop still has to write. -/
inductive Pos where
  | user
  | write (x : Fd) (f : FileIx) (left : Nat) (at_ : Chunk)
  | read (x : Fd) (f : FileIx) (at_ : Chunk)
  | piperead (f : FileIx) (n : Nat)
  | pipewrite (f : FileIx) (rest : List (BitVec 8))
  deriving DecidableEq, Repr

structure Sys where
  cache : Ix → Cached
  /-- The mode bits on disk. -/
  disk : Nat → BitVec 3
  file : FileIx → Entry
  ofile : Fd → Option FileIx
  tmp : Tmp → Option Ix
  pipe : Nat → Pipe
  pos : Slot → Pos
  /-- The word of user memory at the offset of `mode`. -/
  low : Slot → BitVec 32

namespace Sys

def setCache (i : Ix) (f : Cached → Cached) (s : Sys) : Sys :=
  { s with cache := Function.update s.cache i (f (s.cache i)) }

def setFile (f : FileIx) (g : Entry → Entry) (s : Sys) : Sys :=
  { s with file := Function.update s.file f (g (s.file f)) }

def setPos (p : Slot) (c : Pos) (s : Sys) : Sys := { s with pos := Function.update s.pos p c }

/-- `f->ip->mode`; the null pointer leads to the user memory of the process. -/
def modeAt (p : Slot) (ip : Option Ix) (s : Sys) : BitVec 32 :=
  match ip with
  | some i => (s.cache i).mode
  | none => s.low p

/-- `filealloc`. -/
def filealloc (s : Sys) : Option FileIx :=
  (List.finRange NFILE).find? fun f => (s.file f).ref = 0

/-! ## Inodes -/

/-- `iget` into the pointer `y`. -/
def iget (y : Tmp) (inum : Nat) (s : Sys) : Option Sys :=
  if s.tmp y ≠ none then none
  else
    match (List.finRange NINODE).find? fun i => 0 < (s.cache i).ref ∧ (s.cache i).inum = inum with
    | some i =>
      some { s.setCache i fun c => { c with ref := c.ref + 1 } with
        tmp := Function.update s.tmp y (some i) }
    | none =>
      -- "iget: no inodes"
      ((List.finRange NINODE).find? fun i => (s.cache i).ref = 0).map fun i =>
        { s.setCache i fun c => { c with inum := inum, ref := 1, valid := false } with
          tmp := Function.update s.tmp y (some i) }

/-- `idup`. -/
def idup (y y' : Tmp) (s : Sys) : Option Sys :=
  if s.tmp y' ≠ none then none
  else
    (s.tmp y).map fun i =>
      { s.setCache i fun c => { c with ref := c.ref + 1 } with
        tmp := Function.update s.tmp y' (some i) }

/-- `iput`, which frees an inode without links at its last reference. -/
def iput (y : Tmp) (unlinked : Bool) (s : Sys) : Option Sys :=
  (s.tmp y).bind fun i =>
    if (s.cache i).lock ≠ none then none
    else
      some { s.setCache i fun c =>
          { c with
            ref := c.ref - 1
            valid := if unlinked ∧ c.ref = 1 then false else c.valid } with
        tmp := Function.update s.tmp y none }

/-- `ilock` by process `p`. -/
def lock (p : Slot) (i : Ix) (s : Sys) : Option Sys :=
  if (s.cache i).lock ≠ none then none
  else
    some (s.setCache i fun c =>
      if c.valid then { c with lock := some p }
      else { c with lock := some p, valid := true, mode := (s.disk c.inum).setWidth 32 })

/-- `iunlock` by process `p`. -/
def unlock (p : Slot) (i : Ix) (s : Sys) : Option Sys :=
  if (s.cache i).lock = some p then some (s.setCache i fun c => { c with lock := none }) else none

/-- The assignment of chmod and of create to a locked inode, and `iupdate`. -/
def setMode (p : Slot) (i : Ix) (mode : BitVec 32) (s : Sys) : Option Sys :=
  if (s.cache i).lock = some p then
    some { s.setCache i fun c => { c with mode := mode } with
      disk := Function.update s.disk (s.cache i).inum (mode.setWidth 3) }
  else none

/-! ## Files -/

/-- The end of `sys_open`: the file takes the pointer `y` to the locked inode. -/
def openFile (y : Tmp) (x : Fd) (readable writable : Bool) (s : Sys) : Option Sys :=
  (s.tmp y).bind fun i =>
    if s.ofile x ≠ none ∨ (s.cache i).lock ≠ some y.1 then none
    else
      s.filealloc.map fun f =>
        let s := s.setCache i fun c => { c with lock := none }
        let s := s.setFile f fun e =>
          { e with ref := 1, type := .FD_INODE, ip := some i, readable := readable,
                   writable := writable }
        { s with
          tmp := Function.update s.tmp y none
          ofile := Function.update s.ofile x (some f) }

/-- `pipealloc` and the two calls of `fdalloc`; `k` is the page of the pipe. -/
def pipealloc (x x' : Fd) (k : Nat) (s : Sys) : Option Sys :=
  if s.ofile x ≠ none ∨ s.ofile x' ≠ none ∨ x = x' ∨ (s.pipe k).readopen ∨ (s.pipe k).writeopen then
    none
  else
    s.filealloc.bind fun f0 =>
      let s := s.setFile f0 fun e =>
        { e with ref := 1, type := .FD_PIPE, readable := true, writable := false, pipe := k }
      s.filealloc.map fun f1 =>
        { s.setFile f1 fun e =>
            { e with ref := 1, type := .FD_PIPE, readable := false, writable := true, pipe := k } with
          ofile := Function.update (Function.update s.ofile x (some f0)) x' (some f1)
          pipe := Function.update s.pipe k ⟨[], true, true⟩ }

/-- `filedup` into the descriptor `x'`: dup, and fork for each file. -/
def filedup (x x' : Fd) (s : Sys) : Option Sys :=
  if s.ofile x' ≠ none then none
  else
    (s.ofile x).map fun f =>
      { s.setFile f fun e => { e with ref := e.ref + 1 } with
        ofile := Function.update s.ofile x' (some f) }

/-- `pipeclose`. -/
def pipeclose (k : Nat) (writable : Bool) (s : Sys) : Sys :=
  let q := s.pipe k
  let q := if writable then { q with writeopen := false } else { q with readopen := false }
  { s with pipe := Function.update s.pipe k q }

/-- close, up to `iput`; the last close of an inode file passes the pointer to `y`. -/
def close (x : Fd) (y : Tmp) (s : Sys) : Option Sys :=
  (s.ofile x).bind fun f =>
    let e := s.file f
    let s := { s with ofile := Function.update s.ofile x none }
    if 1 < e.ref then some (s.setFile f fun e => { e with ref := e.ref - 1 })
    else
      let s := s.setFile f fun e => { e with ref := 0, type := .FD_NONE }
      match e.type with
      | .FD_NONE => some s
      | .FD_PIPE => some (s.pipeclose e.pipe e.writable)
      | .FD_INODE => if s.tmp y ≠ none then none else some { s with tmp := Function.update s.tmp y e.ip }

end Sys

/-! ## Read and write -/

/-- How a call goes on: it returns a value, or the process is inside it. -/
inductive Out where
  | panic
  | ret (r : Int) (s : Sys)
  | inside (s : Sys)

/-- `piperead`; it sleeps on an empty pipe. -/
def Pipe.piperead (n : Nat) (killed : Bool) (q : Pipe) : Option (Int × Pipe) :=
  if q.data = [] ∧ q.writeopen then
    if killed then some (-1, q) else none
  else some ((q.data.take n).length, { q with data := q.data.drop n })

/-- `pipewrite` up to where it returns or sleeps: the value or the bytes that remain. -/
def Pipe.pipewrite (n : Int) (bytes : List (BitVec 8)) (killed : Bool) (q : Pipe) :
    (Int ⊕ List (BitVec 8)) × Pipe :=
  let room := PIPESIZE - q.data.length
  let q' := { q with data := q.data ++ bytes.take room }
  if bytes.length ≤ room then (.inl n, q')
  else if !q.readopen || killed then (.inl (-1), q')
  else (.inr (bytes.drop room), q')

def setPipe (k : Nat) (q : Pipe) (s : Sys) : Sys := { s with pipe := Function.update s.pipe k q }

def piperead (x : Fd) (f : FileIx) (n : Nat) (killed : Bool) (s : Sys) : Out :=
  let k := (s.file f).pipe
  match (s.pipe k).piperead n killed with
  | some (r, q) => .ret r (setPipe k q s)
  | none => .inside (s.setPos x.1 (.piperead f n))

def pipewrite (x : Fd) (f : FileIx) (bytes : List (BitVec 8)) (killed : Bool) (s : Sys) : Out :=
  let k := (s.file f).pipe
  match (s.pipe k).pipewrite bytes.length bytes killed with
  | (.inl r, q) => .ret r (setPipe k q s)
  | (.inr rest, q) => .inside ((setPipe k q s).setPos x.1 (.pipewrite f rest))

def fileread (x : Fd) (f : FileIx) (n : Nat) (killed : Bool) (s : Sys) : Out :=
  let e := s.file f
  if !e.readable then .ret (-1) s
  else
    match e.type with
    | .FD_PIPE => piperead x f n killed s
    | .FD_INODE => .inside (s.setPos x.1 (.read x f .ilock))
    | .FD_NONE => .panic

def filewrite (x : Fd) (f : FileIx) (bytes : List (BitVec 8)) (killed : Bool) (s : Sys) : Out :=
  let e := s.file f
  if !e.writable then .ret (-1) s
  else
    match e.type with
    | .FD_PIPE => pipewrite x f bytes killed s
    | .FD_INODE =>
      if bytes.length = 0 then .ret 0 s
      else .inside (s.setPos x.1 (.write x f bytes.length .begin_op))
    | .FD_NONE => .panic

/-- `sys_read`, and the inode pointers it follows on the way to `fileread`. `ok` says
that the count and the buffer are good. -/
def sys_read (x : Fd) (n : Nat) (ok killed : Bool) (s : Sys) : List (Option Ix) × Out :=
  match s.ofile x with
  | none => ([], .ret (-1) s)
  | some f =>
    if !ok then ([], .ret (-1) s)
    else
      let ip := (s.file f).ip
      ([ip], if s.modeAt x.1 ip &&& 1 = 0 then .ret (-1) s else fileread x f n killed s)

def sys_write (x : Fd) (bytes : List (BitVec 8)) (ok killed : Bool) (s : Sys) :
    List (Option Ix) × Out :=
  match s.ofile x with
  | none => ([], .ret (-1) s)
  | some f =>
    if !ok then ([], .ret (-1) s)
    else
      let ip := (s.file f).ip
      ([ip], if s.modeAt x.1 ip &&& 2 = 0 then .ret (-1) s else filewrite x f bytes killed s)

/-- The state after a call that does not panic. -/
def Out.state : Out → Option Sys
  | .panic => none
  | .ret _ s => some s
  | .inside s => some s

/-- The next step of a read or a write in progress. `fails` says that `readi` or
`writei` returns -1. -/
def advance (p : Slot) (fails killed : Bool) (s : Sys) : Option Sys :=
  match s.pos p with
  | .user => none
  | .read x f c =>
    (s.file f).ip.bind fun i =>
      match c with
      | .ilock => (s.lock p i).map fun s => s.setPos p (.read x f .data)
      | .data => some (s.setPos p (.read x f .iunlock))
      | .iunlock => (s.unlock p i).map fun s => s.setPos p .user
      | _ => none
  | .write x f left c =>
    (s.file f).ip.bind fun i =>
      match c with
      | .begin_op => some (s.setPos p (.write x f left .ilock))
      | .ilock => (s.lock p i).map fun s => s.setPos p (.write x f left .data)
      | .data => some (s.setPos p (.write x f (if fails then 0 else left - MAXCHUNK) .iunlock))
      | .iunlock => (s.unlock p i).map fun s => s.setPos p (.write x f left .end_op)
      | .end_op => some (s.setPos p (if left = 0 then .user else .write x f left .begin_op))
  | .piperead f n =>
    let k := (s.file f).pipe
    ((s.pipe k).piperead n killed).map fun (_, q) => (setPipe k q s).setPos p .user
  | .pipewrite f rest =>
    let k := (s.file f).pipe
    match (s.pipe k).pipewrite rest.length rest killed with
    | (.inl _, q) => some ((setPipe k q s).setPos p .user)
    | (.inr rest, q) => some ((setPipe k q s).setPos p (.pipewrite f rest))

inductive Event where
  /-- A user program writes to its low memory. -/
  | store (p : Slot) (w : BitVec 32)
  | iget (y : Tmp) (inum : Nat)
  | idup (y y' : Tmp)
  | iput (y : Tmp) (unlinked : Bool)
  | ilock (y : Tmp)
  | iunlock (y : Tmp)
  | chmod (y : Tmp) (mode : BitVec 32)
  /-- create, of the new inode it has locked. -/
  | create (y : Tmp)
  | openFile (y : Tmp) (x : Fd) (readable writable : Bool)
  | pipe (x x' : Fd) (k : Nat)
  | filedup (x x' : Fd)
  | close (x : Fd) (y : Tmp)
  | read (x : Fd) (n : Nat) (ok killed : Bool)
  | write (x : Fd) (bytes : List (BitVec 8)) (ok killed : Bool)
  | next (p : Slot) (fails killed : Bool)
  deriving DecidableEq

/-- The process that takes a step. -/
def Event.proc : Event → Slot
  | store p _ => p
  | iget y _ => y.1
  | idup y _ => y.1
  | iput y _ => y.1
  | ilock y => y.1
  | iunlock y => y.1
  | chmod y _ => y.1
  | create y => y.1
  | openFile y _ _ _ => y.1
  | pipe x _ _ => x.1
  | filedup x _ => x.1
  | close x _ => x.1
  | read x _ _ _ => x.1
  | write x _ _ _ => x.1
  | next p _ _ => p

/-- The step itself. -/
def Event.run (e : Event) (s : Sys) : Option Sys :=
  match e with
  | store p w => some { s with low := Function.update s.low p w }
  | iget y inum => s.iget y inum
  | idup y y' => s.idup y y'
  | iput y unlinked => s.iput y unlinked
  | ilock y => (s.tmp y).bind fun i => s.lock y.1 i
  | iunlock y => (s.tmp y).bind fun i => s.unlock y.1 i
  | chmod y mode => (s.tmp y).bind fun i => s.setMode y.1 i (mode &&& 7)
  | create y => (s.tmp y).bind fun i => s.setMode y.1 i 7
  | openFile y x readable writable => if x.1 = y.1 then s.openFile y x readable writable else none
  | pipe x x' k => if x'.1 = x.1 then s.pipealloc x x' k else none
  | filedup x x' => s.filedup x x'
  | close x y => if y.1 = x.1 then s.close x y else none
  | read x n ok killed => (sys_read x n ok killed s).2.state
  | write x bytes ok killed => (sys_write x bytes ok killed s).2.state
  | next p fails killed => advance p fails killed s

/-- A process that is inside a read or a write takes its next step only. -/
def step (e : Event) (s : Sys) : Option Sys :=
  match e with
  | .next .. => e.run s
  | _ => if s.pos e.proc = .user then e.run s else none

def Step (s : Sys) (e : Event) (t : Sys) : Prop := step e s = some t

/-- The state when the kernel starts the first process. -/
def boot (disk : Nat → BitVec 3) (low : Slot → BitVec 32) : Sys where
  cache _ := {}
  disk := disk
  file _ := {}
  ofile _ := none
  tmp _ := none
  pipe _ := {}
  pos _ := .user
  low := low

/-! ## Pipes -/

/-- A call follows no inode pointer, and goes on as `direct` does. -/
def Independent (call : List (Option Ix) × Out) (direct : Out) : Prop :=
  call.1 = [] ∧ call.2 = direct

/-- A call on the end of a pipe as the pipe answers it: it is refused for bad arguments
and on the other end. -/
def onPipe (ok this : Bool) (o : Out) (s : Sys) : Out := if ok && this then o else .ret (-1) s

section Pipes

variable {s t : Sys} {x : Fd} {f : FileIx}

/-- What `sys_read` does with a descriptor and good arguments, whatever the file is. -/
theorem sys_read_eq (hx : s.ofile x = some f) (n : Nat) (killed : Bool) :
    sys_read x n true killed s = ([(s.file f).ip],
      if s.modeAt x.1 (s.file f).ip &&& 1 = 0 then .ret (-1) s else fileread x f n killed s) := by
  unfold sys_read
  rw [hx]
  rfl

theorem sys_read_refused (x : Fd) (n : Nat) (killed : Bool) (s : Sys) :
    sys_read x n false killed s = ([], .ret (-1) s) := by
  unfold sys_read
  cases s.ofile x <;> rfl

theorem sys_write_eq (hx : s.ofile x = some f) (bytes : List (BitVec 8)) (killed : Bool) :
    sys_write x bytes true killed s = ([(s.file f).ip],
      if s.modeAt x.1 (s.file f).ip &&& 2 = 0 then .ret (-1) s
      else filewrite x f bytes killed s) := by
  unfold sys_write
  rw [hx]
  rfl

theorem sys_write_refused (x : Fd) (bytes : List (BitVec 8)) (killed : Bool) (s : Sys) :
    sys_write x bytes false killed s = ([], .ret (-1) s) := by
  unfold sys_write
  cases s.ofile x <;> rfl

/-- A test in front of a call lets it through, or refuses what the call refuses too. -/
theorem ite_refused_iff {c : Prop} [Decidable c] {o d : Out} :
    (if c then o else d) = d ↔ ¬c ∨ d = o := by
  by_cases hc : c
  · simp only [hc, if_true, not_true, false_or]
    exact eq_comm
  · simp [hc]

theorem fileread_pipe (ht : (s.file f).type = .FD_PIPE) (n : Nat) (killed : Bool) :
    fileread x f n killed s =
      onPipe true (s.file f).readable (piperead x f n killed s) s := by
  unfold fileread onPipe
  cases h : (s.file f).readable <;> simp [ht, h]

theorem filewrite_pipe (ht : (s.file f).type = .FD_PIPE) (bytes : List (BitVec 8))
    (killed : Bool) : filewrite x f bytes killed s =
      onPipe true (s.file f).writable (pipewrite x f bytes killed s) s := by
  unfold filewrite onPipe
  cases h : (s.file f).writable <;> simp [ht, h]

/-- **Calls on pipes consult an inode** whenever their arguments are good: they follow
the pointer that the entry of the pipe was left with. They go on as the pipe answers
exactly when the word there has the permission bit, or the answer is -1 as well. -/
theorem pipe_independent_iff (hx : s.ofile x = some f) (ht : (s.file f).type = .FD_PIPE) :
    (∀ n ok killed, Independent (sys_read x n ok killed s)
      (onPipe ok (s.file f).readable (piperead x f n killed s) s) ↔ ok = false) ∧
    (∀ bytes ok killed, Independent (sys_write x bytes ok killed s)
      (onPipe ok (s.file f).writable (pipewrite x f bytes killed s) s) ↔ ok = false) ∧
    (∀ n killed, (sys_read x n true killed s).2 =
        onPipe true (s.file f).readable (piperead x f n killed s) s ↔
      s.modeAt x.1 (s.file f).ip &&& 1 ≠ 0 ∨
        onPipe true (s.file f).readable (piperead x f n killed s) s = .ret (-1) s) ∧
    ∀ bytes killed, (sys_write x bytes true killed s).2 =
        onPipe true (s.file f).writable (pipewrite x f bytes killed s) s ↔
      s.modeAt x.1 (s.file f).ip &&& 2 ≠ 0 ∨
        onPipe true (s.file f).writable (pipewrite x f bytes killed s) s = .ret (-1) s := by
  refine ⟨fun n ok killed => ?_, fun bytes ok killed => ?_, fun n killed => ?_,
    fun bytes killed => ?_⟩
  · cases ok with
    | false => exact ⟨fun _ => rfl, fun _ => by rw [sys_read_refused]; exact ⟨rfl, rfl⟩⟩
    | true =>
      refine ⟨fun h => ?_, fun h => by cases h⟩
      rw [sys_read_eq hx] at h
      cases h.1
  · cases ok with
    | false => exact ⟨fun _ => rfl, fun _ => by rw [sys_write_refused]; exact ⟨rfl, rfl⟩⟩
    | true =>
      refine ⟨fun h => ?_, fun h => by cases h⟩
      rw [sys_write_eq hx] at h
      cases h.1
  · rw [sys_read_eq hx, fileread_pipe ht]
    exact ite_refused_iff
  · rw [sys_write_eq hx, filewrite_pipe ht]
    exact ite_refused_iff

end Pipes

/-- The value a call returns. -/
def Out.value : Out → Option Int
  | .ret r _ => some r
  | _ => none

/-- A process makes and opens a file, takes its permissions, and closes it; then it
makes a pipe and writes three bytes to it. -/
def stalePipe : List Event :=
  [.iget (0, 0) 5, .ilock (0, 0), .create (0, 0), .openFile (0, 0) (0, 0) true true,
    .iget (0, 0) 5, .ilock (0, 0), .chmod (0, 0) 0, .iunlock (0, 0), .iput (0, 0) false,
    .close (0, 0) (0, 0), .iput (0, 0) false,
    .pipe (0, 0) (0, 1) 0, .write (0, 1) [1, 2, 3] true false]

theorem pipe_independent_iff_stale : ∃ s,
    exec step stalePipe (boot (fun _ => 0) fun _ => 7) = some s ∧
      ¬Independent (sys_read (0, 0) 3 true false s)
        (onPipe true (s.file 0).readable (piperead (0, 0) 0 3 false s) s) := by
  have h : ((exec step stalePipe (boot (fun _ => 0) fun _ => 7)).any fun s =>
      s.ofile (0, 0) == some 0 && (s.file 0).type == .FD_PIPE) = true := by decide +kernel
  obtain ⟨s, hs, h⟩ := (Option.any_eq_true _ _).1 h
  simp only [Bool.and_eq_true, beq_iff_eq] at h
  exact ⟨s, hs, fun hi => absurd (((pipe_independent_iff h.1 h.2).1 3 true false).1 hi) (by decide)⟩

/-- **A pipe is refused by the mode of a file** that its file-table entry once was. -/
theorem pipe_refused_by_mode : ∃ s,
    exec step stalePipe (boot (fun _ => 0) fun _ => 7) = some s ∧
      s.ofile (0, 0) = some 0 ∧ (s.file 0).type = .FD_PIPE ∧
      (sys_read (0, 0) 3 true false s).1 = [some 0] ∧
      (sys_read (0, 0) 3 true false s).2.value = some (-1) ∧
      (onPipe true (s.file 0).readable (piperead (0, 0) 0 3 false s) s).value = some 3 := by
  have h : ((exec step stalePipe (boot (fun _ => 0) fun _ => 7)).any fun s =>
      s.ofile (0, 0) == some 0 && (s.file 0).type == .FD_PIPE &&
        (sys_read (0, 0) 3 true false s).1 == [some 0] &&
        (sys_read (0, 0) 3 true false s).2.value == some (-1) &&
        (onPipe true (s.file 0).readable (piperead (0, 0) 0 3 false s) s).value == some 3) =
          true := by decide +kernel
  obtain ⟨s, hs, h⟩ := (Option.any_eq_true _ _).1 h
  simp only [Bool.and_eq_true, beq_iff_eq] at h
  obtain ⟨⟨⟨⟨h1, h2⟩, h3⟩, h4⟩, h5⟩ := h
  exact ⟨s, hs, h1, h2, h3, h4, h5⟩

end Xv6.Shell.File
