/-
Creation of a process: `fork` and `custom_fork`.

The two are separate copies. Each takes a slot with `allocproc`, which initialises some
fields, copies the memory of the caller, and initialises others; `custom_fork` writes some
of the fields of `allocproc` again.

Memory is addressed as the kernel addresses it. The page tables, the kernel stacks with the
trap frames, and the list of free pages, which runs through the pages themselves, are all
in it. A call of `fork` is run as one step.
-/
import Xv6.Signal.Table
import Xv6.Signal.Copyout

set_option autoImplicit false

namespace Xv6.Signal.Fork

open Xv6.Signal (ProcState Slot NPROC)
open Xv6.Signal.Delivery (Word Byte Mem PGSIZE PGROUNDDOWN)
open Xv6.Signal.Copyout (PDX PTX KERNBASE P2V PTE_ADDR PTE_P)

/-! ## Memory and the free list (`kalloc.c`) -/

/-- What the linker and the Makefile fix. -/
structure Link where
  kernel_end : Word
  data : Word
  trapret : Word
  forkret : Word
  INIT_PRIORITY : Word

/-- Memory, with `kmem.freelist`; the list is null-terminated. -/
structure Ram where
  mem : Mem
  freelist : Word

def V2P (a : Word) : Word := a - KERNBASE

def PHYSTOP : Word := 0xE000000

namespace Ram

/-- A store of a word. -/
def store (a w : Word) (r : Ram) : Ram :=
  { r with mem := (((r.mem.store a (w.extractLsb' 0 8)).store (a + 1) (w.extractLsb' 8 8)).store
    (a + 2) (w.extractLsb' 16 8)).store (a + 3) (w.extractLsb' 24 8) }

def memset (a : Word) (c : Byte) (n : Nat) (r : Ram) : Ram :=
  { r with mem := fun x => if (x - a).toNat < n then c else r.mem x }

def memmove (dst src : Word) (n : Nat) (r : Ram) : Ram :=
  { r with mem := fun x => if (x - dst).toNat < n then r.mem (src + (x - dst)) else r.mem x }

end Ram

/-- `kalloc`: the page at the head of the list holds the pointer to the next one. -/
def kalloc (r : Ram) : Word × Ram :=
  if r.freelist = 0 then (0, r) else (r.freelist, { r with freelist := r.mem.word r.freelist })

def kfree (L : Link) (v : Word) (r : Ram) : Except String Ram :=
  if v.toNat % PGSIZE ≠ 0 ∨ v < L.kernel_end ∨ PHYSTOP ≤ V2P v then .error "kfree"
  else
    let r := (r.memset v 1 PGSIZE).store v r.freelist
    .ok { r with freelist := v }

/-! ## Page tables (`vm.c`) -/

/-- `walkpgdir`: the address of the entry, or none for null. -/
def walkpgdir (pgdir va : Word) (alloc : Bool) (r : Ram) : Option Word × Ram :=
  let pde := pgdir + 4 * BitVec.ofNat 32 (PDX va)
  let entry (pgtab : Word) := pgtab + 4 * BitVec.ofNat 32 (PTX va)
  if PTE_P (r.mem.word pde) then (some (entry (P2V (PTE_ADDR (r.mem.word pde)))), r)
  else if alloc then
    let (pgtab, r) := kalloc r
    if pgtab = 0 then (none, r)
    else (some (entry pgtab), (r.memset pgtab 0 PGSIZE).store pde (V2P pgtab ||| 7))
  else (none, r)

/-- The loop of `mappages`, with `n` more pages after the one at `a`; `true` is the return
value 0. -/
def mappagesLoop (pgdir perm : Word) : Nat → Word → Word → Ram → Except String (Bool × Ram)
  | n, a, pa, r =>
    match walkpgdir pgdir a true r with
    | (none, r) => .ok (false, r)
    | (some pte, r) =>
      if PTE_P (r.mem.word pte) then .error "remap"
      else
        let r := r.store pte (pa ||| perm ||| 1)
        match n with
        | 0 => .ok (true, r)
        | n + 1 => mappagesLoop pgdir perm n (a + 4096) (pa + 4096) r

def mappages (pgdir va size pa perm : Word) (r : Ram) : Except String (Bool × Ram) :=
  let a := PGROUNDDOWN va
  let last := PGROUNDDOWN (va + size - 1)
  mappagesLoop pgdir perm ((last - a).toNat / PGSIZE) a pa r

/-- One turn of the loop of `deallocuvm`, for page number `v`, and how many pages it passes
over: where there is no page table it goes on with the next page directory entry. -/
def deallocPage (L : Link) (pgdir : Word) (v : Nat) (r : Ram) : Except String (Nat × Ram) :=
  match walkpgdir pgdir (BitVec.ofNat 32 (v * PGSIZE)) false r with
  | (none, r) => .ok (1023 - v % 1024, r)
  | (some pte, r) =>
    let e := r.mem.word pte
    if PTE_P e then
      if PTE_ADDR e = 0 then .error "kfree"
      else (kfree L (P2V (PTE_ADDR e)) r).map fun r => (0, r.store pte 0)
    else .ok (0, r)

/-- The loop of `deallocuvm`, from page number `v` on; there are at most `n` pages to go. -/
def deallocLoop (L : Link) (pgdir : Word) (hi : Nat) : Nat → Nat → Ram → Except String Ram
  | 0, _, r => .ok r
  | n + 1, v, r =>
    if v < hi then do
      let (passed, r) ← deallocPage L pgdir v r
      deallocLoop L pgdir hi n (v + passed + 1) r
    else .ok r

def pagesUp (sz : Word) : Nat := (sz.toNat + 4095) / PGSIZE

def deallocuvm (L : Link) (pgdir oldsz newsz : Word) (r : Ram) : Except String (Word × Ram) :=
  if oldsz ≤ newsz then .ok (oldsz, r)
  else (deallocLoop L pgdir (pagesUp oldsz) (pagesUp oldsz) (pagesUp newsz) r).map fun r => (newsz, r)

/-- The loop of `freevm` over the page directory. -/
def freeTables (L : Link) (pgdir : Word) : List Nat → Ram → Except String Ram
  | [], r => .ok r
  | i :: is, r => do
    let pde := r.mem.word (pgdir + 4 * BitVec.ofNat 32 i)
    let r ← if PTE_P pde then kfree L (P2V (PTE_ADDR pde)) r else .ok r
    freeTables L pgdir is r

def freevm (L : Link) (pgdir : Word) (r : Ram) : Except String Ram :=
  if pgdir = 0 then .error "freevm: no pgdir"
  else do
    let (_, r) ← deallocuvm L pgdir KERNBASE 0 r
    let r ← freeTables L pgdir (List.range 1024) r
    kfree L pgdir r

/-- `kmap`: where each part starts, its first and last physical address, and `PTE_W`. -/
def kmap (L : Link) : List (Word × Word × Word × Word) :=
  [(KERNBASE, 0, 0x100000, 2), (KERNBASE + 0x100000, 0x100000, V2P L.data, 0),
    (L.data, V2P L.data, PHYSTOP, 2), (0xFE000000, 0xFE000000, 0, 2)]

/-- The loop of `setupkvm`. -/
def mapKernel (L : Link) (pgdir : Word) :
    List (Word × Word × Word × Word) → Ram → Except String (Word × Ram)
  | [], r => .ok (pgdir, r)
  | (virt, phys_start, phys_end, perm) :: ks, r => do
    match ← mappages pgdir virt (phys_end - phys_start) phys_start perm r with
    | (true, r) => mapKernel L pgdir ks r
    | (false, r) => (freevm L pgdir r).map fun r => (0, r)

/-- `setupkvm`; its test of `PHYSTOP` is on constants. -/
def setupkvm (L : Link) (r : Ram) : Except String (Word × Ram) :=
  let (pgdir, r) := kalloc r
  if pgdir = 0 then .ok (0, r) else mapKernel L pgdir (kmap L) (r.memset pgdir 0 PGSIZE)

/-- The loop of `copyuvm`, with `n` pages from address `i` on to copy. -/
def copyLoop (L : Link) (pgdir d : Word) : Nat → Word → Ram → Except String (Word × Ram)
  | 0, _, r => .ok (d, r)
  | n + 1, i, r =>
    let bad (r : Ram) := (freevm L d r).map fun r => ((0 : Word), r)
    match walkpgdir pgdir i false r with
    | (none, _) => .error "copyuvm: pte should exist"
    | (some pte, r) =>
      let e := r.mem.word pte
      if PTE_P e = false then .error "copyuvm: page not present"
      else
        let (page, r) := kalloc r
        if page = 0 then bad r
        else do
          let r := r.memmove page (P2V (PTE_ADDR e)) PGSIZE
          match ← mappages d i 4096 (V2P page) (e &&& 0xFFF) r with
          | (true, r) => copyLoop L pgdir d n (i + 4096) r
          | (false, r) => (kfree L page r).bind bad

def copyuvm (L : Link) (pgdir sz : Word) (r : Ram) : Except String (Word × Ram) := do
  let (d, r) ← setupkvm L r
  if d = 0 then return (0, r)
  copyLoop L pgdir d (pagesUp sz) 0 r

/-! ## Processes (`proc.c`) -/

abbrev NOFILE : Nat := 16

/-- `struct proc`. Files and inodes are the indices of their entries in `ftable` and
`icache`. -/
structure Proc where
  sz : Word
  pgdir : Word
  kstack : Word
  state : ProcState
  pid : Word
  parent : Option Slot
  tf : Word
  context : Word
  chan : Word
  killed : Word
  ofile : Fin NOFILE → Option Nat
  cwd : Nat
  name : Fin 16 → Byte
  suspended : Word
  sighandler : Word
  sig_pending : Word
  oldstate : Word
  start_later : Word
  exec_time : Word
  creation_time : Word
  start_time : Word
  end_time : Word
  total_ticks : Word
  waiting_time : Word
  context_switches : Word
  first_scheduled : Word
  response_time : Word
  initial_priority : Word
  dynamic_priority : Word

/-- The kernel, as far as `fork` goes: memory, the process table, `nextpid`, `ticks`, and
the reference counts of files and inodes. -/
structure Kernel where
  ram : Ram
  proc : Slot → Proc
  nextpid : Word
  ticks : Word
  file_ref : Nat → BitVec 32
  inode_ref : Nat → BitVec 32

/-- Write one slot. -/
def Kernel.set (np : Slot) (f : Proc → Proc) (k : Kernel) : Kernel :=
  { k with proc := Function.update k.proc np (f (k.proc np)) }

/-- The slot that `allocproc` takes. -/
def Kernel.unused (k : Kernel) : Option Slot :=
  (List.finRange NPROC).find? fun i => (k.proc i).state == .UNUSED

/-- What `allocproc` writes into a slot that has a kernel stack. -/
def Proc.init (L : Link) (ticks sp : Word) (p : Proc) : Proc :=
  { p with
    tf := sp - 76
    context := sp - 100
    suspended := 0
    sig_pending := 0
    sighandler := 0
    start_later := 0
    exec_time := -1
    creation_time := ticks
    start_time := 0
    end_time := 0
    total_ticks := 0
    waiting_time := 0
    context_switches := 0
    first_scheduled := 0
    response_time := 0
    initial_priority := L.INIT_PRIORITY
    dynamic_priority := L.INIT_PRIORITY }

/-- `allocproc`. The trap frame is at the top of the kernel stack, below it the word that
`forkret` returns to, and below that the context, whose last word is its `eip`. -/
def allocproc (L : Link) (k : Kernel) : Option Slot × Kernel :=
  match k.unused with
  | none => (none, k)
  | some np =>
    let k := { k.set np fun p => { p with state := .EMBRYO, pid := k.nextpid } with
      nextpid := k.nextpid + 1 }
    let (kstack, ram) := kalloc k.ram
    let k := { k with ram := ram }.set np fun p => { p with kstack := kstack }
    if kstack = 0 then (none, k.set np fun p => { p with state := .UNUSED })
    else
      let sp := kstack + 4096
      let ram := ((k.ram.store (sp - 80) L.trapret).memset (sp - 100) 0 20).store (sp - 84) L.forkret
      (some np, { k with ram := ram }.set np (Proc.init L k.ticks sp))

/-- `filedup`. -/
def filedup (f : Nat) (k : Kernel) : Except String Kernel :=
  if (k.file_ref f).slt 1 then .error "filedup"
  else .ok { k with file_ref := Function.update k.file_ref f (k.file_ref f + 1) }

/-- `idup`. -/
def idup (ip : Nat) (k : Kernel) : Kernel :=
  { k with inode_ref := Function.update k.inode_ref ip (k.inode_ref ip + 1) }

/-- The loop over the open files of `cur`. -/
def dupFiles (cur np : Slot) : List (Fin NOFILE) → Kernel → Except String Kernel
  | [], k => .ok k
  | i :: is, k =>
    match (k.proc cur).ofile i with
    | none => dupFiles cur np is k
    | some f => do
      let k ← filedup f k
      dupFiles cur np is (k.set np fun p => { p with ofile := Function.update p.ofile i (some f) })

/-- `safestrcpy(s, t, 16)`: up to 15 bytes before the first zero byte, and a terminator. -/
def safestrcpy (s t : Fin 16 → Byte) : Fin 16 → Byte :=
  let n := (List.finRange 15).findIdx fun i => t i.castSucc == 0
  fun i => if i.val < n then t i else if i.val = n then 0 else s i

/-- The size, the parent, and `*np->tf = *curproc->tf`. -/
def copyState (cur np : Slot) (k : Kernel) : Kernel :=
  let k := k.set np fun p => { p with sz := (k.proc cur).sz, parent := some cur }
  { k with ram := k.ram.memmove (k.proc np).tf (k.proc cur).tf 76 }

/-- What `custom_fork` sets, its parameters among it. -/
def Proc.customise (L : Link) (start_later exec_time ticks : Word) (p : Proc) : Proc :=
  { p with
    sig_pending := 0
    start_later := start_later
    exec_time := exec_time
    creation_time := ticks
    total_ticks := 0
    waiting_time := 0
    context_switches := 0
    first_scheduled := 0
    initial_priority := L.INIT_PRIORITY
    dynamic_priority := L.INIT_PRIORITY }

/-- `np->tf->eax = 0`. -/
def clearEax (np : Slot) (k : Kernel) : Kernel :=
  { k with ram := k.ram.store ((k.proc np).tf + 28) 0 }

/-- `np->cwd = idup(curproc->cwd)`. -/
def copyCwd (cur np : Slot) (k : Kernel) : Kernel :=
  (idup (k.proc cur).cwd k).set np fun p => { p with cwd := (k.proc cur).cwd }

/-- `safestrcpy(np->name, curproc->name, sizeof(curproc->name))`. -/
def copyName (cur np : Slot) (k : Kernel) : Kernel :=
  k.set np fun p => { p with name := safestrcpy p.name (k.proc cur).name }

/-- What both do when there is no memory for the copy: the slot is given back. -/
def noCopy (L : Link) (np : Slot) (k : Kernel) : Except String (Word × Kernel) := do
  let ram ← kfree L (k.proc np).kstack k.ram
  let k := { k with ram := ram }.set np fun p => { p with kstack := 0, state := .UNUSED }
  return (-1, k)

/-- `fork` of the process in slot `cur`. -/
def fork (L : Link) (cur : Slot) (k : Kernel) : Except String (Word × Kernel) := do
  match allocproc L k with
  | (none, k) => return (-1, k)
  | (some np, k) =>
    let (d, ram) ← copyuvm L (k.proc cur).pgdir (k.proc cur).sz k.ram
    let k := { k with ram := ram }.set np fun p => { p with pgdir := d }
    if d = 0 then noCopy L np k
    else
      let k := copyState cur np k
      let k := clearEax np k
      let k ← dupFiles cur np (List.finRange NOFILE) k
      let k := copyCwd cur np k
      let k := copyName cur np k
      let pid := (k.proc np).pid
      let k := k.set np fun p => { p with state := .RUNNABLE }
      return (pid, k)

/-- `custom_fork` of the process in slot `cur`. -/
def custom_fork (L : Link) (start_later exec_time : Word) (cur : Slot) (k : Kernel) :
    Except String (Word × Kernel) := do
  match allocproc L k with
  | (none, k) => return (-1, k)
  | (some np, k) =>
    let (d, ram) ← copyuvm L (k.proc cur).pgdir (k.proc cur).sz k.ram
    let k := { k with ram := ram }.set np fun p => { p with pgdir := d }
    if d = 0 then noCopy L np k
    else
      let k := copyState cur np k
      let k := k.set np (Proc.customise L start_later exec_time k.ticks)
      let k := clearEax np k
      let k ← dupFiles cur np (List.finRange NOFILE) k
      let k := copyCwd cur np k
      let k := copyName cur np k
      let pid := (k.proc np).pid
      let k := k.set np fun p => { p with state := if start_later ≠ 0 then .CREATED else .RUNNABLE }
      return (pid, k)

/-! ## Writes to the child -/

variable {L : Link} {cur np : Slot} {k : Kernel} {f g : Proc → Proc}

@[simp] theorem set_self : (k.set np f).proc np = f (k.proc np) := Function.update_self ..

theorem set_set : (k.set np f).set np g = k.set np fun p => g (f p) := by
  unfold Kernel.set
  dsimp only
  rw [Function.update_self, Function.update_idem]

theorem set_congr (h : f (k.proc np) = g (k.proc np)) : k.set np f = k.set np g := by
  unfold Kernel.set
  rw [h]

theorem set_id (h : f (k.proc np) = k.proc np) : k.set np f = k := by
  unfold Kernel.set
  rw [h, Function.update_eq_self]

theorem set_comm (h : ∀ p, f (g p) = g (f p)) : (k.set np f).set np g = (k.set np g).set np f := by
  rw [set_set, set_set]
  exact set_congr (h _).symm

/-- What a write to the child leaves alone can be read from the caller as before, even if it
were the same process. -/
theorem set_read {α : Type} (get : Proc → α) (h : ∀ p, get (f p) = get p) :
    get ((k.set np f).proc cur) = get (k.proc cur) := by
  by_cases hc : cur = np
  · rw [hc, set_self, h]
  · exact congrArg get (Function.update_of_ne hc _ _)

/-- The parameters of `custom_fork`. -/
def Proc.limited (start_later exec_time : Word) (p : Proc) : Proc :=
  { p with start_later := start_later, exec_time := exec_time }

variable {s e : Word}

theorem clearEax_set : clearEax np (k.set np (Proc.limited s e)) =
    (clearEax np k).set np (Proc.limited s e) := by
  unfold clearEax
  rw [set_self]
  rfl

theorem filedup_set (i : Nat) : filedup i (k.set np f) = (filedup i k).map (Kernel.set np f) := by
  unfold filedup
  by_cases h : (k.file_ref i).slt 1
  · rw [if_pos h, if_pos (show ((k.set np f).file_ref i).slt 1 from h)]
    rfl
  · rw [if_neg h, if_neg (show ¬ ((k.set np f).file_ref i).slt 1 from h)]
    rfl

theorem dupFiles_set (is : List (Fin NOFILE)) : ∀ k : Kernel,
    dupFiles cur np is (k.set np (Proc.limited s e)) =
      (dupFiles cur np is k).map (Kernel.set np (Proc.limited s e)) := by
  induction is with
  | nil => intro k; rfl
  | cons i is ih =>
    intro k
    have hread : ((k.set np (Proc.limited s e)).proc cur).ofile = (k.proc cur).ofile :=
      set_read Proc.ofile fun _ => rfl
    rw [dupFiles, dupFiles, hread]
    cases (k.proc cur).ofile i with
    | none => exact ih k
    | some x =>
      dsimp only
      rw [filedup_set]
      cases filedup x k with
      | error msg => rfl
      | ok k' =>
        refine Eq.trans ?_ (ih _)
        exact congrArg (dupFiles cur np is) (set_comm fun _ => rfl)

theorem copyCwd_set : copyCwd cur np (k.set np (Proc.limited s e)) =
    (copyCwd cur np k).set np (Proc.limited s e) := by
  have hread : ((k.set np (Proc.limited s e)).proc cur).cwd = (k.proc cur).cwd :=
    set_read Proc.cwd fun _ => rfl
  unfold copyCwd
  rw [hread]
  exact set_comm (k := idup (k.proc cur).cwd k) fun _ => rfl

theorem copyName_set : copyName cur np (k.set np (Proc.limited s e)) =
    (copyName cur np k).set np (Proc.limited s e) := by
  have hread : ((k.set np (Proc.limited s e)).proc cur).name = (k.proc cur).name :=
    set_read Proc.name fun _ => rfl
  unfold copyName
  rw [hread]
  exact set_comm fun _ => rfl

/-! ## Both, in parts -/

/-- What both do from `np->tf->eax = 0` on, up to the write of the state. -/
def prepare (cur np : Slot) (k : Kernel) : Except String (Word × Kernel) := do
  let k := clearEax np k
  let k ← dupFiles cur np (List.finRange NOFILE) k
  let k := copyCwd cur np k
  let k := copyName cur np k
  return ((k.proc np).pid, k)

/-- The two go on with a write to the child. -/
theorem prepare_map : (do
      let k ← dupFiles cur np (List.finRange NOFILE) (clearEax np k)
      let k := copyName cur np (copyCwd cur np k)
      return ((k.proc np).pid, k.set np g)) =
    (prepare cur np k).map fun q => (q.1, q.2.set np g) := by
  unfold prepare
  dsimp only
  cases dupFiles cur np (List.finRange NOFILE) (clearEax np k) with
  | error msg => rfl
  | ok k => rfl

/-- **The parameters make no difference to it.** -/
theorem prepare_set : prepare cur np (k.set np (Proc.limited s e)) =
    (prepare cur np k).map fun r => (r.1, r.2.set np (Proc.limited s e)) := by
  unfold prepare
  dsimp only
  rw [clearEax_set, dupFiles_set]
  cases dupFiles cur np (List.finRange NOFILE) (clearEax np k) with
  | error msg => rfl
  | ok k =>
    change Except.ok _ = Except.ok _
    rw [copyCwd_set, copyName_set, set_self]
    rfl

/-- The values that `allocproc` leaves in the fields that `custom_fork` writes. -/
structure Fresh (L : Link) (ticks : Word) (p : Proc) : Prop where
  sig_pending : p.sig_pending = 0
  start_later : p.start_later = 0
  exec_time : p.exec_time = -1
  creation_time : p.creation_time = ticks
  total_ticks : p.total_ticks = 0
  waiting_time : p.waiting_time = 0
  context_switches : p.context_switches = 0
  first_scheduled : p.first_scheduled = 0
  initial_priority : p.initial_priority = L.INIT_PRIORITY
  dynamic_priority : p.dynamic_priority = L.INIT_PRIORITY

theorem allocproc_fresh {k' : Kernel} (h : allocproc L k = (some np, k')) :
    k.unused = some np ∧ Fresh L k'.ticks (k'.proc np) := by
  unfold allocproc at h
  split at h
  · exact absurd h (by simp)
  · rename_i i hi
    dsimp only at h
    split at h
    · exact absurd h (by simp)
    · obtain ⟨hnp, rfl⟩ := Prod.mk.inj h
      obtain rfl := Option.some.inj hnp
      refine ⟨hi, ?_⟩
      rw [set_self]
      constructor <;> rfl

/-- A failed `allocproc` leaves the slot it has looked at unused. -/
theorem allocproc_none {k' : Kernel} (h : allocproc L k = (none, k')) :
    ∀ i ∈ k.unused, (k'.proc i).state = .UNUSED := by
  intro i hi
  unfold allocproc at h
  rw [Option.mem_def.1 hi] at h
  dsimp only at h
  split at h
  · obtain ⟨-, rfl⟩ := Prod.mk.inj h
    rw [set_self]
  · exact absurd h (by simp)

/-- What `custom_fork` writes on a fresh process amounts to its parameters. -/
theorem customise_fresh {p : Proc} {ticks : Word} (h : Fresh L ticks p) :
    p.customise L s e ticks = p.limited s e := by
  cases p
  obtain ⟨hsig, -, -, hcreation, htotal, hwaiting, hswitches, hfirst, hinitial, hdynamic⟩ := h
  dsimp only at *
  subst hsig hcreation htotal hwaiting hswitches hfirst hinitial hdynamic
  rfl

/-! ## The second copy -/

/-- The child before `np->tf->eax = 0`, where the page directory `d` has been built for it. -/
def linked (cur np : Slot) (d : Word) (ram : Ram) (k : Kernel) : Kernel :=
  copyState cur np ({ k with ram := ram }.set np fun p => { p with pgdir := d })

theorem Fresh.linked {d : Word} {ram : Ram} (h : Fresh L k.ticks (k.proc np)) :
    Fresh L (linked cur np d ram k).ticks ((linked cur np d ram k).proc np) := by
  unfold Fork.linked copyState
  dsimp only
  rw [set_self, set_self]
  exact ⟨h.sig_pending, h.start_later, h.exec_time, h.creation_time, h.total_ticks,
    h.waiting_time, h.context_switches, h.first_scheduled, h.initial_priority, h.dynamic_priority⟩

/-- The write of the state after it. -/
theorem fork_some {k' : Kernel} (h : allocproc L k = (some np, k')) : fork L cur k =
    (copyuvm L (k'.proc cur).pgdir (k'.proc cur).sz k'.ram).bind fun r =>
      if r.1 = 0 then
        noCopy L np ({ k' with ram := r.2 }.set np fun p => { p with pgdir := r.1 })
      else (prepare cur np (linked cur np r.1 r.2 k')).map fun q =>
        (q.1, q.2.set np fun p => { p with state := .RUNNABLE }) := by
  unfold fork
  rw [h]
  dsimp only
  cases copyuvm L (k'.proc cur).pgdir (k'.proc cur).sz k'.ram with
  | error msg => rfl
  | ok r =>
    obtain ⟨d, ram⟩ := r
    change (if d = 0 then _ else _) = if d = 0 then _ else _
    by_cases hd : d = 0
    · rw [if_pos hd, if_pos hd]
    · rw [if_neg hd, if_neg hd]
      exact prepare_map

theorem custom_fork_some {k' : Kernel} (h : allocproc L k = (some np, k')) :
    custom_fork L s e cur k =
    (copyuvm L (k'.proc cur).pgdir (k'.proc cur).sz k'.ram).bind fun r =>
      if r.1 = 0 then
        noCopy L np ({ k' with ram := r.2 }.set np fun p => { p with pgdir := r.1 })
      else (prepare cur np ((linked cur np r.1 r.2 k').set np (Proc.limited s e))).map fun q =>
        (q.1, q.2.set np fun p => { p with state := if s ≠ 0 then .CREATED else .RUNNABLE }) := by
  have hfresh := (allocproc_fresh h).2
  unfold custom_fork
  rw [h]
  dsimp only
  cases copyuvm L (k'.proc cur).pgdir (k'.proc cur).sz k'.ram with
  | error msg => rfl
  | ok r =>
    obtain ⟨d, ram⟩ := r
    change (if d = 0 then _ else _) = if d = 0 then _ else _
    by_cases hd : d = 0
    · rw [if_pos hd, if_pos hd]
    · rw [if_neg hd, if_neg hd, ← set_congr (customise_fresh hfresh.linked)]
      exact prepare_map

/-- `t`, where the child that a fork from `k` has made, if there is one, is a child with these
parameters. -/
def withParams (start_later exec_time : Word) (k t : Kernel) : Kernel :=
  match k.unused with
  | none => t
  | some np =>
    if (t.proc np).state = .RUNNABLE then
      t.set np fun p => { p with
        start_later := start_later
        exec_time := exec_time
        state := if start_later ≠ 0 then .CREATED else .RUNNABLE }
    else t

theorem withParams_of_unused {t : Kernel} (h : ∀ i ∈ k.unused, (t.proc i).state = .UNUSED) :
    withParams s e k t = t := by
  unfold withParams
  split
  · rfl
  · rename_i i hi
    rw [h i hi]
    exact if_neg ProcState.noConfusion

theorem withParams_runnable {t : Kernel} (hnp : k.unused = some np) :
    withParams s e k (t.set np fun p => { p with state := .RUNNABLE }) =
      (t.set np (Proc.limited s e)).set np fun p =>
        { p with state := if s ≠ 0 then .CREATED else .RUNNABLE } := by
  unfold withParams
  rw [hnp]
  dsimp only
  rw [set_self, if_pos rfl, set_set, set_set]
  rfl

theorem noCopy_withParams {t : Kernel} (hnp : k.unused = some np) :
    (noCopy L np t).map (fun r => (r.1, withParams s e k r.2)) = noCopy L np t := by
  unfold noCopy
  cases kfree L (t.proc np).kstack t.ram with
  | error msg => rfl
  | ok ram =>
    refine congrArg (fun t => Except.ok ((-1 : Word), t)) (withParams_of_unused fun i hi => ?_)
    obtain rfl : np = i := Option.some.inj (hnp.symm.trans hi)
    rw [set_self]

/-- **`custom_fork` generalises `fork`**: with 0 and -1 it does the same, and otherwise the
only difference is in the child's parameters and its first state. That holds on every path,
in every state. -/
theorem custom_fork_generalises (L : Link) (cur : Slot) (k : Kernel) :
    custom_fork L 0 (-1) cur k = fork L cur k ∧
      ∀ start_later exec_time, custom_fork L start_later exec_time cur k =
        (fork L cur k).map fun r => (r.1, withParams start_later exec_time k r.2) := by
  rcases hal : allocproc L k with ⟨_ | np, k'⟩
  · -- no slot, or no kernel stack
    have hcustom : ∀ s e, custom_fork L s e cur k = .ok (-1, k') := by
      intro s e
      unfold custom_fork
      rw [hal]
      rfl
    have hfork : fork L cur k = .ok (-1, k') := by
      unfold fork
      rw [hal]
      rfl
    refine ⟨(hcustom 0 (-1)).trans hfork.symm, fun s e => ?_⟩
    rw [hcustom, hfork]
    exact congrArg (fun t => Except.ok ((-1 : Word), t)) (withParams_of_unused
      fun i hi => allocproc_none hal i hi).symm
  · obtain ⟨hnp, hfresh⟩ := allocproc_fresh hal
    constructor
    · have hid : ∀ d ram, (linked cur np d ram k').set np (Proc.limited 0 (-1)) =
          linked cur np d ram k' := by
        intro d ram
        refine set_id ?_
        have h : Fresh L (linked cur np d ram k').ticks ((linked cur np d ram k').proc np) :=
          hfresh.linked
        unfold Proc.limited
        rw [← h.start_later, ← h.exec_time]
      rw [custom_fork_some hal, fork_some hal]
      simp only [hid]
      rfl
    · intro s e
      rw [custom_fork_some hal, fork_some hal]
      cases copyuvm L (k'.proc cur).pgdir (k'.proc cur).sz k'.ram with
      | error msg => rfl
      | ok r =>
        change (if r.1 = 0 then _ else _) = Except.map _ (if r.1 = 0 then _ else _)
        by_cases hd : r.1 = 0
        · rw [if_pos hd, if_pos hd, noCopy_withParams hnp]
        · rw [if_neg hd, if_neg hd, prepare_set]
          cases prepare cur np (linked cur np r.1 r.2 k') with
          | error msg => rfl
          | ok q =>
            exact congrArg (fun t => Except.ok (q.1, t)) (withParams_runnable hnp).symm

end Xv6.Signal.Fork
