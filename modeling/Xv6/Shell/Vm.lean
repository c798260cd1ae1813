/-
Page frames and page directories (`kalloc.c`, `vm.c`), as far as `exec` uses them.

Physical memory is typed: a frame on the free list, a frame with the bytes of a user page
(`mem`), or a frame with a page directory (`space`), which is named by its frame. Page
tables are frames too (`tab`), and their entries are kept by page number; `none` is an
entry without `PTE_P`. The kernel's addresses are page numbers in its address space.
-/
import Xv6.Lib.Outcome

set_option autoImplicit false

namespace Xv6.Shell.Exec

open Xv6.Lib

abbrev Word := BitVec 32
abbrev Byte := BitVec 8

/-- The bytes of a page, by offset. -/
abbrev Page := Nat → Byte

/-- `KERNBASE`, as a page number. -/
def UPAGES : Nat := 0x80000

/-- `PHYSTOP`, as a page number. -/
def PHYSPAGES : Nat := 0xE000

/-- Where the linker has put the kernel (`kernel.ld`), as physical page numbers: `data` is the
page after the text, and `kend` the one after the kernel. -/
structure Link where
  data : Nat
  kend : Nat
  text : 0x100 < data
  order : data ≤ kend
  ram : data < PHYSPAGES

structure Pte where
  frame : Nat
  /-- `PTE_U`. -/
  user : Bool

/-- A page directory with its page tables. -/
structure Space where
  /-- The page table of each entry of the directory, when present. -/
  tab : Nat → Option Nat
  /-- The entries that are present, by page number. -/
  pte : Nat → Option Pte

structure Vm where
  freelist : List Nat
  mem : Nat → Page
  space : Nat → Option Space

abbrev K := Code Vm

namespace Space

def empty : Space := ⟨fun _ => none, fun _ => none⟩

/-- A page table, all zero, for entry `i` of the directory. -/
def addTable (sp : Space) (i f : Nat) : Space where
  tab := Function.update sp.tab i (some f)
  pte v := if v / 1024 = i then none else sp.pte v

def setPte (sp : Space) (v : Nat) (e : Option Pte) : Space :=
  { sp with pte := Function.update sp.pte v e }

section
variable (sp : Space) (i f v : Nat) (e : Option Pte)

@[simp] theorem addTable_tab : (sp.addTable i f).tab = Function.update sp.tab i (some f) := rfl
@[simp] theorem setPte_tab : (sp.setPte v e).tab = sp.tab := rfl
@[simp] theorem setPte_pte : (sp.setPte v e).pte = Function.update sp.pte v e := rfl

end

end Space

namespace Vm

def setMem (s : Vm) (f : Nat) (p : Page) : Vm := { s with mem := Function.update s.mem f p }

def setSpace (s : Vm) (d : Nat) (sp : Option Space) : Vm :=
  { s with space := Function.update s.space d sp }

section
variable (s : Vm) (f d : Nat) (p : Page) (sp : Option Space)

@[simp] theorem setMem_freelist : (s.setMem f p).freelist = s.freelist := rfl
@[simp] theorem setMem_mem : (s.setMem f p).mem = Function.update s.mem f p := rfl
@[simp] theorem setMem_space : (s.setMem f p).space = s.space := rfl
@[simp] theorem setSpace_freelist : (s.setSpace d sp).freelist = s.freelist := rfl
@[simp] theorem setSpace_mem : (s.setSpace d sp).mem = s.mem := rfl
@[simp] theorem setSpace_space : (s.setSpace d sp).space = Function.update s.space d sp := rfl

end

end Vm

/-! ## `kalloc.c` -/

def kalloc : K (Option Nat) := do
  let s ← Code.get
  match s.freelist with
  | [] => return none
  | f :: fs =>
    Code.modify fun s => { s with freelist := fs }
    return some f

def kfree (L : Link) (f : Nat) : K Unit :=
  if L.kend ≤ f ∧ f < PHYSPAGES then
    Code.modify fun s => { s.setMem f (fun _ => 1) with freelist := f :: s.freelist }
  else Code.panic "kfree"

/-! ## `vm.c` -/

/-- The page directory at a frame. -/
def pgdir (d : Nat) : K Space := do
  let s ← Code.get
  match s.space d with
  | some sp => return sp
  | none => Code.panic "trap"

/-- `walkpgdir(pgdir, va, 0)`: whether it finds a page table. -/
def walkpgdir (d v : Nat) : K Bool := do
  let sp ← pgdir d
  return (sp.tab (v / 1024)).isSome

/-- `walkpgdir(pgdir, va, 1)`. -/
def walkpgdirAlloc (d v : Nat) : K Bool := do
  let sp ← pgdir d
  if (sp.tab (v / 1024)).isSome then return true
  else
    match ← kalloc with
    | none => return false
    | some f =>
      Code.modify fun s => (s.setMem f fun _ => 0).setSpace d (some (sp.addTable (v / 1024) f))
      return true

/-- One turn of the loop of `mappages`; `true` if there is a page table. -/
def mapPage (d v f : Nat) (user : Bool) : K Bool := do
  if ← walkpgdirAlloc d v then
    let sp ← pgdir d
    if (sp.pte v).isSome then Code.panic "remap"
    else
      Code.modify fun s => s.setSpace d (some (sp.setPte v (some ⟨f, user⟩)))
      return true
  else return false

/-- `mappages` for `n` pages; `true` is the return value 0. -/
def mappages (d : Nat) (user : Bool) : Nat → Nat → Nat → K Bool
  | 0, _, _ => return true
  | n + 1, v, f => do
    if ← mapPage d v f user then mappages d user n (v + 1) (f + 1)
    else return false

/-- The number of pages of a size, rounded up. -/
def pagesUp (sz : Word) : Nat := (sz.toNat + 4095) / 4096

/-- One turn of the loop of `deallocuvm`, and how many pages it passes over: where there is
no page table it goes on with the next entry of the directory. -/
def deallocPage (L : Link) (d v : Nat) : K Nat := do
  if ← walkpgdir d v then
    let sp ← pgdir d
    match sp.pte v with
    | none => return 0
    | some e =>
      kfree L e.frame
      Code.modify fun s => s.setSpace d (some (sp.setPte v none))
      return 0
  else return 1023 - v % 1024

/-- The loop of `deallocuvm`, from page `v` on; there are at most `n` pages to go. -/
def deallocLoop (L : Link) (d hi : Nat) : Nat → Nat → K Unit
  | 0, _ => return ()
  | n + 1, v =>
    if v < hi then do
      let passed ← deallocPage L d v
      deallocLoop L d hi n (v + passed + 1)
    else return ()

/-- `deallocuvm`, from `hi` pages to `lo` pages. -/
def deallocuvm (L : Link) (d hi lo : Nat) : K Unit := deallocLoop L d hi hi lo

/-- The loop of `freevm` over the directory. -/
def freeTables (L : Link) (d : Nat) : List Nat → K Unit
  | [] => return ()
  | i :: is => do
    let sp ← pgdir d
    match sp.tab i with
    | none => freeTables L d is
    | some t => do
      kfree L t
      freeTables L d is

def freevm (L : Link) (d : Nat) : K Unit := do
  deallocuvm L d UPAGES 0
  freeTables L d (List.range 1024)
  Code.modify fun s => s.setSpace d none
  kfree L d

/-- `kmap`: the first page, its frame, and the number of pages. -/
def kmap (L : Link) : List (Nat × Nat × Nat) :=
  [(0x80000, 0, 0x100), (0x80100, 0x100, L.data - 0x100),
    (0x80000 + L.data, L.data, PHYSPAGES - L.data), (0xFE000, 0xFE000, 0x2000)]

/-- The loop of `setupkvm`. -/
def mapKernel (L : Link) (d : Nat) : List (Nat × Nat × Nat) → K Bool
  | [] => return true
  | (v, f, n) :: ks => do
    if ← mappages d false n v f then mapKernel L d ks
    else do
      freevm L d
      return false

def setupkvm (L : Link) : K (Option Nat) := do
  match ← kalloc with
  | none => return none
  | some d =>
    Code.modify fun s => s.setSpace d (some Space.empty)
    if ← mapKernel L d (kmap L) then return some d else return none

/-- The loop of `allocuvm`, with `n` pages from `v` on to come. -/
def allocLoop (L : Link) (d : Nat) (oldsz newsz : Word) : Nat → Nat → K Word
  | 0, _ => return newsz
  | n + 1, v => do
    match ← kalloc with
    | none =>
      deallocuvm L d (pagesUp newsz) (pagesUp oldsz)
      return 0
    | some f =>
      Code.modify fun s => s.setMem f fun _ => 0
      if ← mapPage d v f true then allocLoop L d oldsz newsz n (v + 1)
      else do
        deallocuvm L d (pagesUp newsz) (pagesUp oldsz)
        kfree L f
        return 0

def allocuvm (L : Link) (d : Nat) (oldsz newsz : Word) : K Word :=
  if 0x80000000 ≤ newsz then return 0
  else if newsz < oldsz then return oldsz
  else allocLoop L d oldsz newsz (pagesUp newsz - pagesUp oldsz) (pagesUp oldsz)

/-- `clearpteu` for the page at `v`. -/
def clearpteu (d v : Nat) : K Unit := do
  if ← walkpgdir d v then
    Code.modify fun s => s.setSpace d ((s.space d).map fun sp =>
      sp.setPte v ((sp.pte v).map fun e => { e with user := false }))
  else Code.panic "clearpteu"

/-! ## `copyout` -/

/-- Bytes `bs` in a page, from offset `off` on. -/
def overlay (p : Page) (off : Nat) (bs : List Byte) : Page := fun i =>
  if off ≤ i then (bs[i - off]?).getD (p i) else p i

/-- A store by the kernel to the page `p` of its address space, which goes through the page
directory in `%cr3`. The kernel's text cannot be written, nor what is not mapped; the
devices are no memory. -/
def storeBytes (L : Link) (cr3 p off : Nat) (bs : List Byte) : K Unit :=
  if p < UPAGES then do
    let sp ← pgdir cr3
    match sp.pte p with
    | some e => Code.modify fun s => s.setMem e.frame (overlay (s.mem e.frame) off bs)
    | none => Code.panic "trap"
  else if p < UPAGES + PHYSPAGES then
    if 0x100 ≤ p - UPAGES ∧ p - UPAGES < L.data then Code.panic "trap"
    else Code.modify fun s => s.setMem (p - UPAGES) (overlay (s.mem (p - UPAGES)) off bs)
  else if 0xFE000 ≤ p then return ()
  else Code.panic "trap"

/-- The word at virtual address 0, through the page directory in `%cr3`. -/
def Vm.nullWord (s : Vm) (cr3 : Nat) : Option Word :=
  ((s.space cr3).bind fun sp => sp.pte 0).map fun e =>
    s.mem e.frame 3 ++ s.mem e.frame 2 ++ s.mem e.frame 1 ++ s.mem e.frame 0

/-- A load of it. -/
def loadNull (cr3 : Nat) : K Word := do
  let s ← Code.get
  match s.nullWord cr3 with
  | some w => return w
  | none => Code.panic "trap"

/-- The page of `P2V(PTE_ADDR(w))`. -/
def kpage (w : Word) : Nat := (w.toNat / 4096 + UPAGES) % 0x100000

/-- A page between the kernel's memory and its devices. -/
def Hole (v : Nat) : Prop := UPAGES + PHYSPAGES ≤ v ∧ v < 0xFE000

instance (v : Nat) : Decidable (Hole v) := inferInstanceAs (Decidable (_ ∧ _))

/-- Whether a word, as an entry, has `PTE_P` and `PTE_U`. -/
def userEntry (w : Word) : Bool := w.getLsbD 0 && w.getLsbD 2

/-- `uva2ka`: the kernel's page for the page `v`. It does not test whether `walkpgdir` has
found a page table. -/
def uva2ka (cr3 d v : Nat) : K (Option Nat) := do
  if ← walkpgdir d v then
    let sp ← pgdir d
    match sp.pte v with
    | some e => return if e.user then some (e.frame + UPAGES) else none
    | none => return none
  else
    let w ← loadNull cr3
    return if userEntry w then some (kpage w) else none

/-- `copyout`: `true` is the return value 0. Each turn copies at least one byte, and `n` is
at least the number of bytes. -/
def copyout (L : Link) (cr3 d : Nat) : Nat → Word → List Byte → K Bool
  | 0, _, _ => return true
  | n + 1, va, bs =>
    if bs = [] then return true
    else do
      match ← uva2ka cr3 d (va.toNat / 4096) with
      | none => return false
      | some p =>
        if p = 0 then return false
        else do
          let m := min (4096 - va.toNat % 4096) bs.length
          storeBytes L cr3 p (va.toNat % 4096) (bs.take m)
          copyout L cr3 d n (BitVec.ofNat 32 (va.toNat / 4096 * 4096 + 4096)) (bs.drop m)

end Xv6.Shell.Exec
