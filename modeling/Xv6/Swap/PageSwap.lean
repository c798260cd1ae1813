/-
`kalloc.c` and the swapping half of `pageswap.c`.

The two files call each other: `kalloc` evicts pages through `checkAndSwap` when
the free list is empty, and an eviction gives its frame back through `kfree`.
The definitions below are in the order of the calls, so everything `kalloc`
needs comes before it. `swapPageIn`, which needs `mapPages`, is in `Vm`.

The spin locks are not modelled: no routine sleeps while it holds one. A routine
gives up the processor where `iderw` sleeps, in `bwrite` always and in `bread`
when the block is not in the buffer cache.
-/
import Xv6.Swap.Machine

set_option autoImplicit false

namespace Xv6.Swap

open Xv6.Lib

/-! ## The processor and the disk -/

/-- `lcr3(V2P(pgdir))` in the page-out code. -/
def lcr3 (d : Nat) : K Unit :=
  Code.modify fun s => s.setCpu { s.cpu with cr3 := d } (d :: s.hist.reloads)

/-- A disk access that sleeps unless the buffer cache already has the block. -/
def mayBlock : K Unit := do
  let s ← Code.get
  Code.modify fun s => s.setCpu { s.cpu with hits := s.cpu.hits.tail } s.hist.reloads
  if s.cpu.hits.head? = some true then return () else Code.yield

/-- `bread(0, blockno)` and the use of its data. -/
def bread (blockno : Nat) : K Block := do
  mayBlock
  let s ← Code.get
  return s.disk blockno

/-- `bwrite` of a buffer of disk 0: `iderw` sleeps until the block is written. -/
def bwrite (blockno : Nat) (b : Block) : K Unit := do
  Code.modify fun s => s.setBlock blockno b
  Code.yield

/-! ## Frames -/

/-- The four bytes of the pointer `P2V(next)`, or of the null pointer. -/
def linkByte (next : Option Nat) (i : Nat) : Byte :=
  match next with
  | none => 0
  | some f => UInt8.ofNat ((KERNBASE + f * PGSIZE) / 256 ^ i)

/-- A frame after `kfree`: `memset(v, 1, PGSIZE)`, then the link to the next one. -/
def freePage (next : Option Nat) : Page :=
  fun o => if o.val < 4 then linkByte next o.val else 1

/-- `kfree(P2V(f))`. -/
def kfree (f : Nat) : K Unit := do
  let s ← Code.get
  if f < s.kend ∨ NFRAMES ≤ f then Code.panic "kfree"
  else Code.modify fun s => (s.setMem f (freePage s.freelist.head?)).setFree (f :: s.freelist)

/-- `countFreePages()`. -/
def countFreePages : K Nat := do
  let s ← Code.get
  return s.freelist.length

/-! ## Swap slots -/

/-- `findFreeSlot()`: take the first free slot. -/
def findFreeSlot : K (Option Nat) := do
  let s ← Code.get
  match (List.range' 0 SWAP_SLOT_TOTAL).find? (fun k => (s.slots k).is_free) with
  | none => return none
  | some k =>
    Code.modify fun s => s.setSlot k fun sl => { sl with is_free := false }
    return some k

/-- `freeSlot(slot_index)`. -/
def freeSlot (k : Nat) : K Unit :=
  if k < SWAP_SLOT_TOTAL then
    Code.modify fun s => s.setSlot k fun sl => { sl with is_free := true, page_perm := 0#12 }
  else return ()

/-! ## Page tables, without allocation -/

/-- The directory at frame `d`. A routine that follows a pointer to a directory
that was freed is outside the model and counts as a panic. -/
def pgdir (d : Nat) : K Space := do
  let s ← Code.get
  match s.space d with
  | some sp => return sp
  | none => Code.panic "dangling page directory"

/-- `walkpgdir(pgdir, va, 0)`. -/
def walkpgdir (d v : Nat) : K (Option Pte) := do
  let sp ← pgdir d
  return sp.walk v

/-! ## Paging out -/

/-- The block loop of `swapAndPageOut`: blocks `is` of frame `pa` go to the disk. -/
def pageOutBlocks (blockno pa : Nat) : List (Fin SWAP_BLOCKS_PER_PAGE) → K Unit
  | [] => return ()
  | i :: is => do
    let _ ← bread (blockno + i.val)
    let s ← Code.get
    bwrite (blockno + i.val) (chunk (s.mem pa) i)
    pageOutBlocks blockno pa is

/-- The page-out of page `v` of directory `d` starts. -/
def History.start (d v slot : Nat) (h : History) : History :=
  { h with filled := Function.update h.filled slot (some (d, v)),
           evicting := (d, v) :: h.evicting,
           clash := h.clash || h.evicting.contains (d, v) }

/-- The page-out of page `v` of directory `d` is finished. -/
def History.finish (d v : Nat) (h : History) : History :=
  { h with evicting := h.evicting.erase (d, v) }

/-- `swapAndPageOut(pgdir, va, pa)`; `true` is the return value `0`. -/
def swapAndPageOut (d v pa : Nat) : K Bool := do
  match ← findFreeSlot with
  | none => return false
  | some slot =>
    match ← walkpgdir d v with
    | none => return false
    | some pte =>
      if pte.present then
        Code.modify fun s =>
          (s.setSlot slot fun sl => { sl with page_perm := pte.flags }).setHist
            (History.start d v slot)
        pageOutBlocks (SWAP_BLOCK_START + slot * SWAP_BLOCKS_PER_PAGE) pa
          (List.finRange SWAP_BLOCKS_PER_PAGE)
        let sp ← pgdir d
        Code.modify fun s =>
          (s.setPte d v ((sp.pte v).toSlot slot)).setHist (History.finish d v)
        lcr3 d
        return true
      else return false

/-- One step of the loop of `findVictimProc`: the victim so far and `maxrss`. -/
def victimStep (s : Machine) (acc : Option Nat × BitVec 32) (i : Nat) : Option Nat × BitVec 32 :=
  let p := s.proc i
  if p.state ≠ .UNUSED ∧ 1 ≤ p.pid ∧
      (acc.2 < p.rss ∨ (p.rss = acc.2 ∧ ∃ v ∈ acc.1, p.pid < (s.proc v).pid)) then
    (some i, p.rss)
  else acc

/-- `findVictimProc()`. -/
def findVictimProc (s : Machine) : Option Nat :=
  ((List.range NPROC).foldl (victimStep s) (none, 0#32)).1

/-- `findVictimPage(pgdir, &va)`: the page and its frame, or nothing. -/
def findVictimPage (d : Nat) : K (Option (Nat × Nat)) := do
  let sp ← pgdir d
  match (List.range' 0 UPAGES).find? sp.unaccessed with
  | some v => return some (v, (sp.pte v).ppn)
  | none =>
    Code.modify fun s => s.setSpace d (some sp.clearAccessed)
    lcr3 d
    match (List.range' 0 UPAGES).find? sp.clearAccessed.userPage with
    | some v => return some (v, (sp.clearAccessed.pte v).ppn)
    | none => return none

/-- The loop of `swapOutPages` for victim `q`: at most `attempts` more rounds,
until `n` pages are out. -/
def swapLoop (q n : Nat) : (attempts swapped : Nat) → K Unit
  | 0, _ => return ()
  | attempts + 1, swapped =>
    if swapped < n then do
      let s ← Code.get
      match ← findVictimPage (s.proc q).pgdir with
      | none => return ()
      | some (v, pa) =>
        if pa = 0 then return ()
        else if ← swapAndPageOut (s.proc q).pgdir v pa then
          Code.modify fun s => s.setProc q fun p => { p with rss := p.rss - 1 }
          kfree pa
          swapLoop q n attempts (swapped + 1)
        else swapLoop q n attempts swapped
    else return ()

/-- `swapOutPages()`. -/
def swapOutPages : K Unit := do
  let s ← Code.get
  match findVictimProc s with
  | none => return ()
  | some q =>
    swapLoop q s.npages_to_swap (s.npages_to_swap * 2) 0

/-- `beta`, in percent. -/
abbrev beta : Nat := 10

/-- `alpha`, in percent. -/
abbrev alpha : Nat := 25

/-- `limit`. -/
abbrev limit : Nat := 100

/-- The last lines of `checkAndSwap`: a lower threshold, a larger batch. -/
def adapt (s : Machine) : Machine :=
  let t := s.threshold - s.threshold * beta / 100
  let n := s.npages_to_swap + s.npages_to_swap * alpha / 100
  { s with threshold := if t < 1 then 1 else t, npages_to_swap := if n > limit then limit else n }

/-- `checkAndSwap()`. -/
def checkAndSwap : K Unit := do
  let free_pages ← countFreePages
  let s ← Code.get
  if free_pages > s.threshold then return ()
  else
    swapOutPages
    Code.modify adapt

/-! ## Allocation -/

/-- The tail of `kalloc`: pop the free list. -/
def popFrame : K (Option Nat) := do
  let s ← Code.get
  match s.freelist with
  | [] => return none
  | r :: rest =>
    Code.modify fun s => (s.setMem r (memset 5)).setFree rest
    return some r

/-- `checkAndSwap()`, run only while the free list is empty. -/
def swapIfEmpty : K Unit := do
  let s ← Code.get
  if s.freelist = [] then checkAndSwap else return ()

/-- `kalloc()`: with an empty free list, `checkAndSwap` once, and once more if
that freed nothing. -/
def kalloc : K (Option Nat) := do
  let s ← Code.get
  if s.freelist = [] then
    checkAndSwap
    swapIfEmpty
    popFrame
  else popFrame

/-- `kalloc()` with `n` retries, each after another `checkAndSwap()`. -/
def kallocRetry : Nat → K (Option Nat)
  | 0 => kalloc
  | n + 1 => do
    match ← kalloc with
    | some f => return some f
    | none =>
      checkAndSwap
      kallocRetry n

/-- `findFreeSlot()` with `n` retries, each after another `checkAndSwap()`. -/
def findFreeSlotRetry : Nat → K (Option Nat)
  | 0 => findFreeSlot
  | n + 1 => do
    match ← findFreeSlot with
    | some k => return some k
    | none =>
      checkAndSwap
      findFreeSlotRetry n

/-- The block loop of `duplicateSwapSlot`. -/
def copyBlocks (src dst : Nat) : List (Fin SWAP_BLOCKS_PER_PAGE) → K Unit
  | [] => return ()
  | i :: is => do
    let b ← bread (src + i.val)
    let _ ← bread (dst + i.val)
    bwrite (dst + i.val) b
    copyBlocks src dst is

/-- `duplicateSwapSlot(parent_slot)`. -/
def duplicateSwapSlot (parent_slot : Nat) : K (Option Nat) := do
  let s ← Code.get
  if SWAP_SLOT_TOTAL ≤ parent_slot then return none
  else if (s.slots parent_slot).is_free then return none
  else
    match ← findFreeSlotRetry 2 with
    | none => return none
    | some child_slot =>
      Code.modify fun s => s.setSlot child_slot fun sl =>
        { sl with page_perm := (s.slots parent_slot).page_perm }
      copyBlocks (SWAP_BLOCK_START + parent_slot * SWAP_BLOCKS_PER_PAGE)
        (SWAP_BLOCK_START + child_slot * SWAP_BLOCKS_PER_PAGE)
        (List.finRange SWAP_BLOCKS_PER_PAGE)
      return some child_slot

end Xv6.Swap
