/-
The state of the swapping kernel.

Physical memory is typed: a frame on the free list, a frame that holds the bytes
of a user page (`mem`), or a frame that holds a page directory (`space`). A
directory is named by its own frame, as `V2P(p->pgdir)` names it in the
page-directory register. Its page-table pages are frames too (`tab`), and the
entries are kept by page number. That these uses never overlap is not built in;
it is the invariant of `Ownership`.

One processor runs the kernel. `cpu.cr3` is the page-directory register,
`cpu.proc` the process the processor is executing for, and `cpu.hits` the answers
the buffer cache will give to the coming `bread` calls (`true`: the block is
cached and the call does not sleep). `hist` is history: it records what the
kernel did and no function of the kernel reads it.
-/
import Xv6.Lib.Code
import Xv6.Swap.Layout

set_option autoImplicit false

namespace Xv6.Swap

open Xv6.Lib

/-- `struct swap_slot`. -/
structure Slot where
  page_perm : BitVec 12
  is_free : Bool

/-- A page directory with its page tables. -/
structure Space where
  /-- The frame of the page-table page of each directory entry, when present. -/
  tab : Nat → Option Nat
  /-- The entries, by page number. -/
  pte : Nat → Pte

inductive ProcState where
  | UNUSED | EMBRYO | SLEEPING | RUNNABLE | RUNNING | ZOMBIE
  deriving DecidableEq

/-- `struct proc`, without the fields that only the file system and the context
switch use. A null `kstack` or `pgdir` is `0`. -/
structure Proc where
  sz : Nat
  pgdir : Nat
  kstack : Nat
  state : ProcState
  pid : Nat
  parent : Option Nat
  /-- `tf->esp`. -/
  esp : Nat
  /-- The channel, when it is the address of a process (`wait`). -/
  chan : Option Nat
  killed : Bool
  rss : BitVec 32

/-- The processor. -/
structure Cpu where
  cr3 : Nat
  proc : Nat
  hits : List Bool

/-- What the kernel did. -/
structure History where
  /-- The directory and page each swap slot was last filled for. -/
  filled : Nat → Option (Nat × Nat)
  /-- The directories that the page-out code has loaded into `cr3` since
  `switchuvm` last did. -/
  reloads : List Nat
  /-- The pages whose page-out has started and not finished. -/
  evicting : List (Nat × Nat)
  /-- A page was paged out a second time, or its directory freed, while its
  page-out had started and not finished. -/
  clash : Bool

structure Machine where
  /-- The first frame after the kernel, `V2P(end) / PGSIZE`. -/
  kend : Nat
  freelist : List Nat
  mem : Nat → Page
  space : Nat → Option Space
  slots : Nat → Slot
  /-- Disk 0, each block as it was last written. -/
  disk : Nat → Block
  threshold : Nat
  npages_to_swap : Nat
  proc : Nat → Proc
  initproc : Nat
  nextpid : Nat
  /-- The frame of each open pipe. -/
  pipe : Nat → Option Nat
  cpu : Cpu
  hist : History

namespace Machine

/-- `myproc()`. -/
def myproc (s : Machine) : Proc := s.proc s.cpu.proc

/-- Change one process. -/
def setProc (s : Machine) (i : Nat) (f : Proc → Proc) : Machine :=
  { s with proc := Function.update s.proc i (f (s.proc i)) }

/-- Change one swap slot. -/
def setSlot (s : Machine) (k : Nat) (f : Slot → Slot) : Machine :=
  { s with slots := Function.update s.slots k (f (s.slots k)) }

/-- Put a page directory at frame `d`, or take it away. -/
def setSpace (s : Machine) (d : Nat) (sp : Option Space) : Machine :=
  { s with space := Function.update s.space d sp }

/-- Write one page-table entry. -/
def setPte (s : Machine) (d v : Nat) (e : Pte) : Machine :=
  { s with
    space := Function.update s.space d
      ((s.space d).map fun sp => { sp with pte := Function.update sp.pte v e }) }

/-- Fill a frame. -/
def setMem (s : Machine) (f : Nat) (pg : Page) : Machine :=
  { s with mem := Function.update s.mem f pg }

/-- Replace the free list. -/
def setFree (s : Machine) (l : List Nat) : Machine :=
  { s with freelist := l }

/-- Write a disk block. -/
def setBlock (s : Machine) (b : Nat) (data : Block) : Machine :=
  { s with disk := Function.update s.disk b data }

/-- Replace the disk. -/
def setDisk (s : Machine) (disk : Nat → Block) : Machine :=
  { s with disk := disk }

/-- Replace the processor and the record of its register. -/
def setCpu (s : Machine) (c : Cpu) (rl : List Nat) : Machine :=
  { s with cpu := c, hist := { s.hist with reloads := rl } }

/-- Add to the history. -/
def setHist (s : Machine) (f : History → History) : Machine :=
  { s with hist := f s.hist }

attribute [simps -fullyApplied kend freelist mem space slots disk threshold npages_to_swap proc
  initproc nextpid pipe cpu hist]
  setProc setSlot setSpace setPte setMem setFree setBlock setDisk setCpu setHist

/-- Store one byte in a frame. -/
def setByte (s : Machine) (f : Nat) (o : Fin PGSIZE) (b : Byte) : Machine :=
  s.setMem f (Function.update (s.mem f) o b)

/-- The content of slot `k` on the disk. -/
def slotPage (s : Machine) (k : Nat) : Page :=
  join fun i j => s.disk (SWAP_BLOCK_START + k * SWAP_BLOCKS_PER_PAGE + i.val) j

/-- What the switch to another process and back leaves behind: the scheduler
goes through `switchuvm` for the process it resumes. -/
def resched (s : Machine) : Machine :=
  s.setCpu { s.cpu with cr3 := s.myproc.pgdir } []

end Machine

/-! ## Kernel routines -/

/-- A kernel routine. -/
abbrev K (α : Type) : Type := Code Machine α

namespace K

variable {α : Type}

/-- The outcome of a routine that no other process interrupts. -/
abbrev run (m : K α) (s : Machine) : Except String (α × Machine) :=
  Code.run Machine.resched m s

/-- Its result, if it does not panic. -/
abbrev result (m : K α) (s : Machine) : Option α := Code.result Machine.resched m s

/-- The state it leaves behind. -/
abbrev final (m : K α) (s : Machine) : Machine := Code.final Machine.resched m s

/-- `Code.Spec` for such a run. -/
abbrev Spec (m : K α) (s : Machine) (Q : α → Machine → Prop) : Prop :=
  Code.Spec Machine.resched m s Q

/-- `Code.Returns` for such a run. -/
abbrev Returns (m : K α) (s : Machine) (Q : α → Machine → Prop) : Prop :=
  Code.Returns Machine.resched m s Q

end K

/-! ## The kernel half of an address space

`setupkvm` gives every directory the same kernel half: the 4 MB of physical
memory from `KERNBASE` on (one page-table page, all entries present) and the
device space from `DEVSPACE` to the top (eight page-table pages, all entries
present). None of these entries has `PTE_U`. -/

/-- The directory entries of the kernel half, in the order `kmap` reaches them. -/
def kernelTables : List Nat := [512, 1016, 1017, 1018, 1019, 1020, 1021, 1022, 1023]

/-- The kernel mapping of a page: `KERNBASE + a ↦ a`, devices mapped directly. -/
def kernelPte (v : Nat) : Pte :=
  if v < DEVPAGE then ⟨v - UPAGES, PTE_P ||| PTE_W⟩ else ⟨v, PTE_P ||| PTE_W⟩

namespace Space

/-- A fresh directory: `memset(pgdir, 0, PGSIZE)`. -/
def empty : Space := ⟨fun _ => none, fun _ => Pte.zero⟩

/-- `walkpgdir(pgdir, va, 0)`: the entry of a page, if its page table exists. -/
def walk (sp : Space) (v : Nat) : Option Pte :=
  if (sp.tab (v / NPTENTRIES)).isSome then some (sp.pte v) else none

/-- A new page-table page `f` at directory entry `i`, with the entries `ptes`. -/
def addTable (sp : Space) (i f : Nat) (ptes : Nat → Pte) : Space where
  tab := Function.update sp.tab i (some f)
  pte v := if v / NPTENTRIES = i then ptes v else sp.pte v

/-- A present page a user program may touch. -/
def userPage (sp : Space) (v : Nat) : Bool :=
  match sp.walk v with
  | some e => e.present && e.user
  | none => false

/-- Such a page that was not accessed since its bit was cleared. -/
def unaccessed (sp : Space) (v : Nat) : Bool :=
  sp.userPage v && !(sp.pte v).accessed

/-- The second loop of `findVictimPage`: clear `PTE_A` on every user page. -/
def clearAccessed (sp : Space) : Space where
  tab := sp.tab
  pte v := if v < UPAGES ∧ sp.userPage v = true then (sp.pte v).clearA else sp.pte v

theorem walk_eq_some {sp : Space} {v : Nat} {e : Pte} :
    sp.walk v = some e ↔ (sp.tab (v / NPTENTRIES)).isSome = true ∧ sp.pte v = e := by
  unfold walk
  split <;> simp_all

theorem userPage_iff {sp : Space} {v : Nat} :
    sp.userPage v = true ↔ (sp.tab (v / NPTENTRIES)).isSome = true ∧
      (sp.pte v).present = true ∧ (sp.pte v).user = true := by
  unfold userPage walk
  split
  · next e h =>
    split at h
    · next ht => simp only [Option.some.injEq] at h; subst h; simp [ht]
    · cases h
  · next h =>
    split at h
    · cases h
    · next ht => simp [ht]

end Space

end Xv6.Swap
