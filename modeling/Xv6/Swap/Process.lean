/-
`proc.c`, `exec.c`, the pipes' frames and the page fault of `trap.c`.

The functions keep what they do to memory, to the process table and to the
processor. Files are not modelled: `exec` gets the program that `namei` and
`readi` find (`Program`), and the file-system calls of `exec` and `exit` are
points where the process may sleep.
-/
import Xv6.Swap.Vm

set_option autoImplicit false

namespace Xv6.Swap

open Xv6.Lib

/-! ## Running a process -/

/-- `switchuvm(p)`. -/
def switchuvm (i : Nat) : K Unit := do
  let s ← Code.get
  if (s.proc i).kstack = 0 then Code.panic "switchuvm: no kstack"
  else if (s.proc i).pgdir = 0 then Code.panic "switchuvm: no pgdir"
  else Code.modify fun s => s.setCpu { s.cpu with cr3 := (s.proc i).pgdir } []

/-- `wakeup1(chan)`, for the address of a process. -/
def wakeup1 (chan : Nat) (s : Machine) : Machine :=
  { s with proc := fun i =>
      if i < NPROC ∧ (s.proc i).state = .SLEEPING ∧ (s.proc i).chan = some chan then
        { s.proc i with state := .RUNNABLE }
      else s.proc i }

/-- `yield()` by the running process and the choice of process `q` by the
scheduler; `false` when `q` cannot run. -/
def schedule (q : Nat) : K Bool := do
  Code.modify fun s =>
    if s.myproc.state = .RUNNING then
      s.setProc s.cpu.proc fun p => { p with state := .RUNNABLE }
    else s
  let s ← Code.get
  if q < NPROC ∧ (s.proc q).state = .RUNNABLE then
    Code.modify fun s => s.setCpu { s.cpu with proc := q } s.hist.reloads
    switchuvm q
    Code.modify fun s => s.setProc q fun p => { p with state := .RUNNING }
    return true
  else return false

/-- `kill(pid)`. -/
def kill (pid : Nat) : K Bool := do
  let s ← Code.get
  match (List.range NPROC).find? (fun i => (s.proc i).pid = pid) with
  | none => return false
  | some i =>
    Code.modify fun s => s.setProc i fun p =>
      { p with killed := true, state := if p.state = .SLEEPING then .RUNNABLE else p.state }
    return true

/-! ## Creating a process -/

/-- `allocproc()`: the index of the new process. -/
def allocproc : K (Option Nat) := do
  let s ← Code.get
  match (List.range NPROC).find? (fun i => (s.proc i).state = .UNUSED) with
  | none => return none
  | some i =>
    Code.modify fun s =>
      { s.setProc i fun p => { p with state := .EMBRYO, pid := s.nextpid, rss := 0#32 } with
        nextpid := s.nextpid + 1 }
    match ← kalloc with
    | none =>
      Code.modify fun s => s.setProc i fun p => { p with kstack := 0, state := .UNUSED }
      return none
    | some f =>
      Code.modify fun s => s.setProc i fun p => { p with kstack := f }
      return some i

/-- `inituvm(pgdir, init, sz)`. -/
def inituvm (d : Nat) (init : Page) : K Unit := do
  match ← kalloc with
  | none => Code.panic "inituvm: null page"
  | some f =>
    Code.modify fun s => s.setMem f init
    let _ ← mapPages d 0 f (PTE_W ||| PTE_U)

/-- `userinit()`, with the page of `initcode`. -/
def userinit (init : Page) : K Unit := do
  match ← allocproc with
  | none => Code.panic "userinit: no process"
  | some i =>
    Code.modify fun s => { s with initproc := i }
    match ← setupkvm with
    | none => Code.panic "userinit: out of memory?"
    | some d =>
      Code.modify fun s => s.setProc i fun p => { p with pgdir := d }
      inituvm d init
      Code.modify fun s => s.setProc i fun p =>
        { p with sz := PGSIZE, rss := 1#32, esp := PGSIZE, state := .RUNNABLE }

/-- `fork()`: the child's pid. -/
def fork : K (Option Nat) := do
  match ← allocproc with
  | none => return none
  | some np =>
    let s ← Code.get
    let curproc := s.cpu.proc
    match ← copyuvm s.myproc.pgdir s.myproc.sz with
    | none =>
      Code.modify fun s => s.setProc np fun p => { p with pgdir := 0 }
      kfree (s.proc np).kstack
      Code.modify fun s => s.setProc np fun p => { p with kstack := 0, state := .UNUSED }
      return none
    | some d =>
      Code.modify fun s => s.setProc np fun p =>
        { p with pgdir := d, sz := (s.proc curproc).sz, parent := some curproc,
                 rss := (s.proc curproc).rss, esp := (s.proc curproc).esp, state := .RUNNABLE }
      return some (s.proc np).pid

/-! ## Growing and shrinking -/

/-- `sz + n` in 32-bit arithmetic. -/
def addSize (sz : Nat) (n : Int) : Nat := ((sz + n) % 2 ^ 32).toNat

/-- The pages `growproc` counts for `n` bytes: `n / PGSIZE`, rounded up. -/
def rssPages (n : Nat) : BitVec 32 :=
  BitVec.ofNat 32 (n / 4096) + if n % 4096 ≠ 0 then 1#32 else 0#32

/-- `growproc(n)`; `true` is the return value `0`. -/
def growproc (n : Int) : K Bool := do
  let s ← Code.get
  let curproc := s.cpu.proc
  if 0 < n then
    let sz ← allocuvm s.myproc.pgdir s.myproc.sz (addSize s.myproc.sz n)
    if sz = 0 then return false
    else
      Code.modify fun s => s.setProc curproc fun p =>
        { p with rss := p.rss + rssPages n.natAbs, sz := sz }
      switchuvm curproc
      return true
  else if n < 0 then
    let sz ← deallocuvm s.myproc.pgdir s.myproc.sz (addSize s.myproc.sz n)
    if sz = 0 then return false
    else
      Code.modify fun s => s.setProc curproc fun p =>
        { p with rss := p.rss - rssPages n.natAbs, sz := sz }
      switchuvm curproc
      return true
  else
    switchuvm curproc
    return true

/-! ## Leaving and reaping -/

/-- The loop of `swapAndClean` over the pages `vs`. -/
def cleanLoop (sp : Space) : List Nat → K Unit
  | [] => return ()
  | v :: vs => do
    match sp.walk v with
    | none => cleanLoop sp vs
    | some pte =>
      if pte.swapped then
        freeSlot pte.ppn
        cleanLoop sp vs
      else cleanLoop sp vs

/-- `swapAndClean(p)`. -/
def swapAndClean (i : Nat) : K Unit := do
  let s ← Code.get
  if (s.proc i).pgdir = 0 then return ()
  else
    let sp ← pgdir (s.proc i).pgdir
    cleanLoop sp (List.range' 0 UPAGES)

/-- The children of `i` pass to `initproc`, which is woken when one is a zombie. -/
def reparent (i : Nat) (s : Machine) : Machine :=
  let woken := if ∃ j, j < NPROC ∧ (s.proc j).parent = some i ∧ (s.proc j).state = .ZOMBIE then
      wakeup1 s.initproc s
    else s
  { woken with proc := fun j =>
      if j < NPROC ∧ (s.proc j).parent = some i then
        { woken.proc j with parent := some s.initproc }
      else woken.proc j }

/-- `exit()`. -/
def exit : K Unit := do
  let s ← Code.get
  let curproc := s.cpu.proc
  if curproc = s.initproc then Code.panic "init exiting"
  else
    mayBlock
    Code.modify fun s =>
      match (s.proc curproc).parent with
      | some p => wakeup1 p s
      | none => s
    Code.modify (reparent curproc)
    swapAndClean curproc
    Code.modify fun s => s.setProc curproc fun p => { p with state := .ZOMBIE }

/-- The branch of `wait` for the zombie `i`. -/
def reap (i : Nat) : K (Option (Option Nat)) := do
  let s ← Code.get
  kfree (s.proc i).kstack
  Code.modify fun s => s.setProc i fun p => { p with kstack := 0 }
  freevm (s.proc i).pgdir
  Code.modify fun s => s.setProc i fun p =>
    { p with pid := 0, parent := none, killed := false, state := .UNUSED }
  return some (some (s.proc i).pid)

/-- `wait()`: the pid of a reaped child, `some none` for the value `-1`, or
`none` when the caller has to sleep. -/
def wait : K (Option (Option Nat)) := do
  let s ← Code.get
  let curproc := s.cpu.proc
  Code.modify fun s => s.setProc curproc fun p => { p with chan := none }
  match (List.range NPROC).find? (fun i =>
      (s.proc i).parent = some curproc ∧ (s.proc i).state = .ZOMBIE) with
  | some i => reap i
  | none =>
    if (∀ i < NPROC, (s.proc i).parent ≠ some curproc) ∨ s.myproc.killed then return some none
    else
      Code.modify fun s => s.setProc curproc fun p =>
        { p with chan := some curproc, state := .SLEEPING }
      return none

/-! ## Pipes -/

/-- `pipealloc(f0, f1)`, as far as memory goes; `i` names the pipe. -/
def pipealloc (i : Nat) : K Bool := do
  let s ← Code.get
  if (s.pipe i).isSome then return false
  else
    match ← kalloc with
    | none => return false
    | some f =>
      Code.modify fun s => { s with pipe := Function.update s.pipe i (some f) }
      return true

/-- `pipeclose` of the second end of pipe `i`. -/
def pipeclose (i : Nat) : K Unit := do
  let s ← Code.get
  match s.pipe i with
  | none => return ()
  | some f =>
    Code.modify fun s => { s with pipe := Function.update s.pipe i none }
    kfree f

/-! ## Loading a program -/

/-- `struct proghdr`. -/
structure Proghdr where
  /-- `type == ELF_PROG_LOAD`. -/
  load : Bool
  off : Nat
  vaddr : Nat
  filesz : Nat
  memsz : Nat

/-- The file that `namei` and `readi` find. -/
structure Program where
  /-- The ELF header is read and has the right magic. -/
  magic : Bool
  /-- The program headers; `none` where `readi` is short. -/
  phdrs : List (Option Proghdr)
  size : Nat
  data : Nat → Byte

/-- The loop of `loaduvm`: the pages from `v` on, from byte `i` of the segment. -/
def loadLoop (d : Nat) (file : Program) (offset sz : Nat) : (fuel v i : Nat) → K Bool
  | 0, _, _ => return true
  | fuel + 1, v, i =>
    if sz ≤ i then return true
    else do
      match ← walkpgdir d v with
      | none => Code.panic "loaduvm: address should exist"
      | some pte =>
        let n := min (sz - i) PGSIZE
        mayBlock
        Code.modify fun s => s.setMem pte.ppn fun o =>
          if o.val < n ∧ offset + i + o.val < file.size then file.data (offset + i + o.val)
          else s.mem pte.ppn o
        if offset + i + n ≤ file.size then loadLoop d file offset sz fuel (v + 1) (i + PGSIZE)
        else return false

/-- `loaduvm(pgdir, addr, ip, offset, sz)`. -/
def loaduvm (d addr : Nat) (file : Program) (offset sz : Nat) : K Bool :=
  loadLoop d file offset sz (pagesUp sz) (addr / PGSIZE) 0

/-- The program loop of `exec`: the size reached, or nothing for `goto bad`. -/
def loadProgram (d : Nat) (file : Program) : List (Option Proghdr) → (sz : Nat) → K (Option Nat)
  | [], sz => return some sz
  | none :: _, _ => return none
  | some ph :: phs, sz =>
    if ph.load then
      if ph.memsz < ph.filesz then return none
      else if (ph.vaddr + ph.memsz) % 2 ^ 32 < ph.vaddr then return none
      else do
        let sz ← allocuvm d sz ((ph.vaddr + ph.memsz) % 2 ^ 32)
        if sz = 0 then return none
        else if ph.vaddr % PGSIZE ≠ 0 then return none
        else if ← loaduvm d ph.vaddr file ph.off ph.filesz then loadProgram d file phs sz
        else return none
    else loadProgram d file phs sz

/-- `MAXARG`. -/
abbrev MAXARG : Nat := 32

/-- `strlen` of the user string at `a`, `n` bytes of which are already counted. -/
def strlenLoop (a : Nat) : (fuel n : Nat) → K Nat
  | 0, _ => Code.panic "strlen"
  | fuel + 1, n => do
    let b ← kload ((a + n) % 2 ^ 32)
    if b = 0 then return n else strlenLoop a fuel (n + 1)

/-- `strlen(a)`. -/
def strlen (a : Nat) : K Nat := strlenLoop a (2 ^ 32) 0

/-- `x - y` in 32-bit arithmetic. -/
def subSize (x y : Nat) : Nat := (x + 2 ^ 32 - y % 2 ^ 32) % 2 ^ 32

/-- The argument loop of `exec`: the stack pointer and the pushed addresses. -/
def pushArgs (d : Nat) : (argv : List Nat) → (sp : Nat) → (ustack : List Nat) →
    K (Option (Nat × List Nat))
  | [], sp, ustack => return some (sp, ustack)
  | arg :: argv, sp, ustack =>
    if MAXARG ≤ ustack.length then return none
    else do
      let len ← strlen arg
      let sp := subSize sp (len + 1) / 4 * 4
      let len ← strlen arg
      if ← copyout d sp (fun j => kload ((arg + j) % 2 ^ 32)) (len + 1) then
        pushArgs d argv sp (ustack ++ [sp])
      else return none

/-- Byte `j` of an array of words. -/
def wordByte (ws : List Nat) (j : Nat) : Byte := UInt8.ofNat (ws.getD (j / 4) 0 / 256 ^ (j % 4))

/-- The part of `exec` that builds the new address space `d`: its size and stack
pointer, or nothing for `goto bad`. -/
def buildImage (d : Nat) (file : Program) (argv : List Nat) : K (Option (Nat × Nat)) := do
  match ← loadProgram d file file.phdrs 0 with
  | none => return none
  | some sz =>
    mayBlock
    let sz ← allocuvm d (PGROUNDUP sz) ((PGROUNDUP sz + 2 * PGSIZE) % 2 ^ 32)
    if sz = 0 then return none
    else
      clearpteu d ((sz - 2 * PGSIZE) / PGSIZE)
      match ← pushArgs d argv sz [] with
      | none => return none
      | some (sp, args) =>
        let argc := args.length
        let ustack := [0xffffffff, argc, subSize sp ((argc + 1) * 4)] ++ args ++ [0]
        let sp := subSize sp ((3 + argc + 1) * 4)
        if ← copyout d sp (fun j => return wordByte ustack j) ((3 + argc + 1) * 4) then
          return some (sz, sp)
        else return none

/-- `exec(path, argv)`: `file` is what `namei(path)` finds. -/
def exec (file : Option Program) (argv : List Nat) : K Bool := do
  mayBlock
  match file with
  | none => return false
  | some file =>
    if file.magic then
      match ← setupkvm with
      | none => return false
      | some d =>
        match ← buildImage d file argv with
        | none =>
          freevm d
          mayBlock
          return false
        | some (sz, sp) =>
          let s ← Code.get
          let curproc := s.cpu.proc
          Code.modify fun s => s.setProc curproc fun p =>
            { p with pgdir := d, sz := sz, rss := BitVec.ofNat 32 (sz / PGSIZE), esp := sp }
          switchuvm curproc
          freevm (s.proc curproc).pgdir
          return true
    else
      mayBlock
      return false

/-! ## User mode -/

/-- What the processor finds when a user program touches address `a`: the entry
of a page it may touch. -/
def uaccess (s : Machine) (a : Nat) (write : Bool) : Option Pte :=
  match s.space s.cpu.cr3 with
  | none => none
  | some sp =>
    match sp.walk (a / PGSIZE) with
    | none => none
    | some e => if e.present && e.user && (!write || e.writable) then some e else none

/-- A user program loads the byte at address `a`, whose entry is `e`. -/
def uload (s : Machine) (a : Nat) (e : Pte) : Byte × Machine :=
  (s.mem e.ppn (pgoff a),
    s.setPte s.cpu.cr3 (a / PGSIZE) { e with flags := e.flags ||| PTE_A })

/-- A user program stores `b` at address `a`, whose entry is `e`. -/
def ustore (s : Machine) (a : Nat) (e : Pte) (b : Byte) : Machine :=
  (s.setByte e.ppn (pgoff a) b).setPte s.cpu.cr3 (a / PGSIZE)
    { e with flags := e.flags ||| (PTE_A ||| PTE_D) }

/-- `trap` for a page fault in user mode at address `a`. -/
def pageFault (a : Nat) : K Bool := do
  let s ← Code.get
  if ← swapPageIn s.myproc.pgdir (a / PGSIZE) then return true
  else
    Code.modify fun s => s.setProc s.cpu.proc fun p => { p with killed := true }
    exit
    return false

end Xv6.Swap
