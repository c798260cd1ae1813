/-
`vm.c` and `swapPageIn` of `pageswap.c`: building, growing, shrinking, copying
and destroying an address space.

Every caller of `mapPages` for the user half maps one page (`PGSIZE` bytes at a
page boundary), so the user-half `mapPages` here is one turn of its loop; the
calls of `setupkvm` are `addKernelTables`. Loops over pages count the pages left,
so they are structural; the page number runs along.
-/
import Xv6.Swap.PageSwap

set_option autoImplicit false

namespace Xv6.Swap

open Xv6.Lib

/-! ## Page tables, with allocation -/

/-- `walkpgdir(pgdir, va, 1)`. -/
def walkpgdirAlloc (d v : Nat) : K (Option Pte) := do
  match ← walkpgdir d v with
  | some pte => return some pte
  | none =>
    match ← kalloc with
    | none => return none
    | some f =>
      let sp ← pgdir d
      Code.modify fun s =>
        s.setSpace d (some (sp.addTable (v / NPTENTRIES) f fun _ => Pte.zero))
      return some Pte.zero

/-- `mapPages(pgdir, va, PGSIZE, pa, perm)`; `true` is the return value `0`. -/
def mapPages (d v pa : Nat) (perm : BitVec 12) : K Bool := do
  match ← walkpgdirAlloc d v with
  | none => return false
  | some pte =>
    if pte.present then Code.panic "remap"
    else
      Code.modify fun s => s.setPte d v (Pte.mapped pa perm)
      return true

/-! ## Paging in -/

/-- The block loop of `swapPageIn`: blocks `is` of a slot go to frame `f`. -/
def pageInBlocks (blockno f : Nat) : List (Fin SWAP_BLOCKS_PER_PAGE) → K Unit
  | [] => return ()
  | i :: is => do
    let b ← bread (blockno + i.val)
    Code.modify fun s => s.setMem f (setChunk (s.mem f) i b)
    pageInBlocks blockno f is

/-- `swapPageIn(pgdir, va)` for the page `v` of `va`; `true` is the value `0`. -/
def swapPageIn (d v : Nat) : K Bool := do
  let s ← Code.get
  match ← walkpgdir d v with
  | none => return false
  | some pte =>
    if pte.present then return true
    else if SWAP_SLOT_TOTAL ≤ pte.ppn then return false
    else if (s.slots pte.ppn).is_free then return false
    else
      match ← kallocRetry 1 with
      | none => return false
      | some f =>
        pageInBlocks (SWAP_BLOCK_START + pte.ppn * SWAP_BLOCKS_PER_PAGE) f
          (List.finRange SWAP_BLOCKS_PER_PAGE)
        let s ← Code.get
        if ← mapPages d v f ((s.slots pte.ppn).page_perm ||| PTE_P) then
          freeSlot pte.ppn
          Code.modify fun s => s.setProc s.cpu.proc fun p => { p with rss := p.rss + 1 }
          return true
        else
          kfree f
          return false

/-! ## Directories -/

/-- The page-table pages of the kernel half, as `setupkvm` reaches them. -/
def addKernelTables (d : Nat) : List Nat → K Bool
  | [] => return true
  | i :: is => do
    match ← kalloc with
    | none => return false
    | some f =>
      let sp ← pgdir d
      Code.modify fun s => s.setSpace d (some (sp.addTable i f kernelPte))
      addKernelTables d is

/-- The loop of `deallocuvm` from page `v` to page `hi`; a missing page table is
skipped as a whole. -/
def deallocLoop (d hi : Nat) : (fuel v : Nat) → K Unit
  | 0, _ => return ()
  | n + 1, v =>
    if hi ≤ v then return ()
    else do
      match ← walkpgdir d v with
      | none => deallocLoop d hi n ((v / NPTENTRIES + 1) * NPTENTRIES)
      | some pte =>
        if pte.present then
          if pte.ppn = 0 then Code.panic "kfree"
          else
            kfree pte.ppn
            Code.modify fun s => s.setPte d v Pte.zero
            deallocLoop d hi n (v + 1)
        else deallocLoop d hi n (v + 1)

/-- `deallocuvm(pgdir, oldsz, newsz)`. -/
def deallocuvm (d oldsz newsz : Nat) : K Nat :=
  if oldsz ≤ newsz then return oldsz
  else do
    deallocLoop d (pagesUp oldsz) (pagesUp oldsz - pagesUp newsz) (pagesUp newsz)
    return newsz

/-- The second loop of `freevm`: the page-table pages of a directory. -/
def freeTables (sp : Space) : List Nat → K Unit
  | [] => return ()
  | i :: is => do
    match sp.tab i with
    | none => freeTables sp is
    | some f =>
      kfree f
      freeTables sp is

/-- Directory `d` is freed. -/
def History.free (d : Nat) (h : History) : History :=
  { h with clash := h.clash || h.evicting.any fun q => q.1 == d }

/-- `freevm(pgdir)`. The directory is dead from the second loop on. -/
def freevm (d : Nat) : K Unit := do
  Code.modify fun s => s.setHist (History.free d)
  let _ ← deallocuvm d KERNBASE 0
  let sp ← pgdir d
  Code.modify fun s => s.setSpace d none
  freeTables sp (List.range' 0 NPDENTRIES)
  kfree d

/-- `setupkvm()`. -/
def setupkvm : K (Option Nat) := do
  match ← kalloc with
  | none => return none
  | some d =>
    Code.modify fun s => s.setSpace d (some Space.empty)
    if ← addKernelTables d kernelTables then return some d
    else
      freevm d
      return none

/-! ## Growing -/

/-- The loop of `allocuvm`: `n` more pages from page `v` on. -/
def allocLoop (d oldsz newsz : Nat) : (n v : Nat) → K Nat
  | 0, _ => return newsz
  | n + 1, v => do
    match ← kallocRetry 2 with
    | none =>
      let _ ← deallocuvm d newsz oldsz
      return 0
    | some f =>
      Code.modify fun s => s.setMem f (memset 0)
      if ← mapPages d v f (PTE_W ||| PTE_U) then allocLoop d oldsz newsz n (v + 1)
      else
        let _ ← deallocuvm d newsz oldsz
        kfree f
        return 0

/-- `allocuvm(pgdir, oldsz, newsz)`. -/
def allocuvm (d oldsz newsz : Nat) : K Nat :=
  if KERNBASE ≤ newsz then return 0
  else if newsz < oldsz then return oldsz
  else allocLoop d oldsz newsz (pagesUp newsz - pagesUp oldsz) (pagesUp oldsz)

/-- `clearpteu(pgdir, uva)`. -/
def clearpteu (d v : Nat) : K Unit := do
  match ← walkpgdir d v with
  | none => Code.panic "clearpteu"
  | some pte =>
    Code.modify fun s => s.setPte d v { pte with flags := pte.flags &&& ~~~PTE_U }

/-! ## Copying -/

/-- Copy frame `pa` to the new frame `f` and map it at page `v` of `d`. -/
def copyFrame (d v pa f : Nat) (flags : BitVec 12) : K Bool := do
  Code.modify fun s => s.setMem f (s.mem pa)
  if ← mapPages d v f flags then return true
  else
    kfree f
    return false

/-- The branch of `copyuvm` for a page in memory. -/
def copyPresent (d v : Nat) (pte : Pte) : K Bool := do
  match ← kallocRetry 2 with
  | none => return false
  | some f => copyFrame d v pte.ppn f pte.flags

/-- The fall-back of `copyuvm` when no slot is left: page the parent in, copy. -/
def copyPagedIn (parent d v : Nat) : K Bool := do
  if ← swapPageIn parent v then
    match ← walkpgdir parent v with
    | none => return false
    | some pte =>
      if pte.present then
        match ← kalloc with
        | none => return false
        | some f => copyFrame d v pte.ppn f pte.flags
      else return false
  else return false

/-- A slot now has a copy that belongs to page `v` of directory `d`. -/
def History.fill (d v slot : Nat) (h : History) : History :=
  { h with filled := Function.update h.filled slot (some (d, v)) }

/-- The branch of `copyuvm` for a page that is paged out. -/
def copySwapped (parent d v : Nat) (pte : Pte) : K Bool := do
  match ← duplicateSwapSlot pte.ppn with
  | none => copyPagedIn parent d v
  | some new_slot =>
    match ← walkpgdirAlloc d v with
    | none => return false
    | some _ =>
      Code.modify fun s =>
        (s.setPte d v (pte.toSlot new_slot)).setHist (History.fill d v new_slot)
      return true

/-- One turn of the loop of `copyuvm`. -/
def copyPage (parent d v : Nat) : K Bool := do
  match ← walkpgdir parent v with
  | none => Code.panic "copyuvm: pte should exist"
  | some pte =>
    if pte.present then copyPresent d v pte
    else if pte ≠ Pte.zero then copySwapped parent d v pte
    else return true

/-- The loop of `copyuvm`: `n` more pages from page `v` on. -/
def copyLoop (parent d : Nat) : (n v : Nat) → K Bool
  | 0, _ => return true
  | n + 1, v => do
    if ← copyPage parent d v then copyLoop parent d n (v + 1)
    else return false

/-- `copyuvm(pgdir, sz)`. -/
def copyuvm (parent sz : Nat) : K (Option Nat) := do
  match ← setupkvm with
  | none => return none
  | some d =>
    if ← copyLoop parent d (pagesUp sz) 0 then return some d
    else
      freevm d
      return none

/-! ## Access to user memory -/

/-- The kernel touches address `a` through the page-directory register. A missing
page is a page fault in kernel mode, which `trap` answers with a panic. -/
def kaccess (a : Nat) (bits : BitVec 12) : K Nat := do
  let s ← Code.get
  match ← walkpgdir s.cpu.cr3 (a / PGSIZE) with
  | none => Code.panic "trap"
  | some pte =>
    if pte.present then
      Code.modify fun s =>
        s.setPte s.cpu.cr3 (a / PGSIZE) { pte with flags := pte.flags ||| bits }
      return pte.ppn
    else Code.panic "trap"

/-- The kernel reads the byte at address `a`. -/
def kload (a : Nat) : K Byte := do
  let f ← kaccess a PTE_A
  let s ← Code.get
  return s.mem f (pgoff a)

/-- The kernel writes the byte at address `a`. -/
def kstore (a : Nat) (b : Byte) : K Unit := do
  let f ← kaccess a (PTE_A ||| PTE_D)
  Code.modify fun s => s.setByte f (pgoff a) b

/-- `uva2ka(pgdir, uva)`: the frame of a present user page. -/
def uva2ka (d v : Nat) : K (Option Nat) := do
  match ← walkpgdir d v with
  | none => return none
  | some pte => if pte.present && pte.user then return some pte.ppn else return none

/-- `memmove(pa0 + (va - va0), buf, n)`: byte `j` of the source goes to offset
`o + j` of the target frame; a null `pa0` makes it a write to address `o + j`. -/
def moveBytes (pa0 : Option Nat) (src : Nat → K Byte) (o j : Nat) : (n : Nat) → K Unit
  | 0 => return ()
  | n + 1 => do
    let b ← src j
    match pa0 with
    | some f => Code.modify fun s => s.setByte f (pgoff (o + j)) b
    | none => kstore (o + j) b
    moveBytes pa0 src o (j + 1) n

/-- The translation step of one turn of `copyout`: the frame to write to (`none` for
a null `pa0`), or the return value `-1`. -/
def copyoutTarget (d v : Nat) : K (Option (Option Nat)) := do
  match ← uva2ka d v with
  | some f => return some (some f)
  | none =>
    match ← walkpgdir d v with
    | none => return some none
    | some pte =>
      if pte.present then return some none
      else
        let _ ← swapPageIn d v
        return none

/-- The loop of `copyout`; byte `j` of the source is written at `va`. Each turn
copies at least one byte, so `len` bounds the turns. -/
def copyoutLoop (d : Nat) (src : Nat → K Byte) : (fuel va j len : Nat) → K Bool
  | 0, _, _, _ => return true
  | fuel + 1, va, j, len =>
    if len = 0 then return true
    else do
      match ← copyoutTarget d (va / PGSIZE) with
      | none => return false
      | some pa0 =>
        let n := min (PGSIZE - va % PGSIZE) len
        moveBytes pa0 (fun i => src (j + i)) (va % PGSIZE) 0 n
        copyoutLoop d src fuel ((va - va % PGSIZE + PGSIZE) % 2 ^ 32) (j + n) (len - n)

/-- `copyout(pgdir, va, p, len)`; `true` is the return value `0`. -/
def copyout (d va : Nat) (src : Nat → K Byte) (len : Nat) : K Bool :=
  copyoutLoop d src len va 0 len

end Xv6.Swap
