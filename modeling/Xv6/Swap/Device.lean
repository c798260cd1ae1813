/-
Which blocks of which disk the swap code reads and writes.

`mkfs` reserves the blocks between the superblock and the log of the file-system
disk (ROOTDEV) for swapping. The three block loops of `pageswap.c` compute their
block numbers for that range, but call `bread(0, ...)`, and `idestart` selects the
disk by the device number. Disk 0 holds the boot block and, from sector 1 on, the
kernel.

Here the swap code is modelled with the device, and each access is recorded. What a
routine reads of a page table is an argument of the operation, and the frame of a
page-out is given by its contents. `checkAndSwap` is a series of page-outs; where a
routine goes on after it, the rest is an operation of its own, so that anything can
happen in between.
-/
import Xv6.Swap.Machine
import Xv6.Mkfs.Image

set_option autoImplicit false

namespace Xv6.Swap.Device

open Xv6.Lib

/-- The device of the file system. -/
abbrev ROOTDEV : Nat := 1

structure Access where
  dev : Nat
  blockno : Nat
  write : Bool
  deriving DecidableEq, Repr

/-- A block that `mkfs` reserves for swapping. -/
def Reserved (dev blockno : Nat) : Prop :=
  dev = ROOTDEV ∧ 2 ≤ blockno ∧ blockno < Mkfs.sb.logstart

/-- The slot table, the disks by device and block, and the accesses so far. -/
structure State where
  slots : Nat → Slot
  disk : Nat → Nat → Block
  trace : List Access

/-! ## The buffer cache -/

/-- `bread(dev, blockno)` and the data. -/
def bread (dev blockno : Nat) (s : State) : Block × State :=
  (s.disk dev blockno, { s with trace := ⟨dev, blockno, false⟩ :: s.trace })

/-- `bwrite` of a buffer with the data. -/
def bwrite (dev blockno : Nat) (data : Block) (s : State) : State :=
  { s with
    disk := fun d b => if d = dev ∧ b = blockno then data else s.disk d b
    trace := ⟨dev, blockno, true⟩ :: s.trace }

/-! ## Slots -/

def State.setSlot (s : State) (k : Nat) (f : Slot → Slot) : State :=
  { s with slots := Function.update s.slots k (f (s.slots k)) }

/-- The slot `findFreeSlot` takes. -/
def State.firstFree (s : State) : Option Nat :=
  (List.range' 0 SWAP_SLOT_TOTAL).find? fun k => (s.slots k).is_free

def findFreeSlot (s : State) : Option Nat × State :=
  match s.firstFree with
  | none => (none, s)
  | some k => (some k, s.setSlot k fun sl => { sl with is_free := false })

def freeSlot (k : Nat) (s : State) : State :=
  if k < SWAP_SLOT_TOTAL then
    s.setSlot k fun sl => { sl with is_free := true, page_perm := 0#12 }
  else s

/-- The first block of a slot. -/
def blockOf (slot : Nat) : Nat := SWAP_BLOCK_START + slot * SWAP_BLOCKS_PER_PAGE

/-! ## The routines -/

def pageOutBlocks (blockno : Nat) (page : Page) :
    List (Fin SWAP_BLOCKS_PER_PAGE) → State → State
  | [], s => s
  | i :: is, s =>
    let (_, s) := bread 0 (blockno + i.val) s
    pageOutBlocks blockno page is (bwrite 0 (blockno + i.val) (chunk page i) s)

/-- `swapAndPageOut`, with the entry that `walkpgdir` finds. -/
def swapAndPageOut (pte : Option Pte) (page : Page) (s : State) : State :=
  match findFreeSlot s with
  | (none, s) => s
  | (some slot, s) =>
    match pte with
    | none => s
    | some e =>
      if e.present then
        pageOutBlocks (blockOf slot) page (List.finRange SWAP_BLOCKS_PER_PAGE)
          (s.setSlot slot fun sl => { sl with page_perm := e.flags })
      else s

def pageInBlocks (blockno : Nat) : List (Fin SWAP_BLOCKS_PER_PAGE) → Page → State → Page × State
  | [], page, s => (page, s)
  | i :: is, page, s =>
    let (b, s) := bread 0 (blockno + i.val) s
    pageInBlocks blockno is (setChunk page i b) s

/-- `swapPageIn` from `kalloc` on; `mapped` says whether `mapPages` succeeds. -/
def pageInFrom (slot : Nat) (mapped : Bool) (s : State) : State :=
  let (_, s) := pageInBlocks (blockOf slot) (List.finRange SWAP_BLOCKS_PER_PAGE) (memset 5) s
  if mapped then freeSlot slot s else s

/-- The tests of `swapPageIn`: the slot to read. -/
def slotOf (pte : Option Pte) (s : State) : Option Nat :=
  match pte with
  | none => none
  | some e =>
    if e.present then none
    else if SWAP_SLOT_TOTAL ≤ e.ppn then none
    else if (s.slots e.ppn).is_free then none
    else some e.ppn

/-- `swapPageIn`; `room` says whether the first `kalloc` finds a frame. -/
def swapPageIn (pte : Option Pte) (room mapped : Bool) (s : State) : State :=
  match slotOf pte s with
  | none => s
  | some slot => if room then pageInFrom slot mapped s else s

def copyBlocks (src dst : Nat) : List (Fin SWAP_BLOCKS_PER_PAGE) → State → State
  | [], s => s
  | i :: is, s =>
    let (b, s) := bread 0 (src + i.val) s
    let (_, s) := bread 0 (dst + i.val) s
    copyBlocks src dst is (bwrite 0 (dst + i.val) b s)

/-- `duplicateSwapSlot` from a call of `findFreeSlot` on. -/
def duplicateFrom (parent_slot : Nat) (s : State) : State :=
  match findFreeSlot s with
  | (none, s) => s
  | (some child_slot, s) =>
    copyBlocks (blockOf parent_slot) (blockOf child_slot) (List.finRange SWAP_BLOCKS_PER_PAGE)
      (s.setSlot child_slot fun sl => { sl with page_perm := (s.slots parent_slot).page_perm })

def duplicateSwapSlot (parent_slot : Nat) (s : State) : State :=
  if SWAP_SLOT_TOTAL ≤ parent_slot then s
  else if (s.slots parent_slot).is_free then s
  else duplicateFrom parent_slot s

/-! ## Runs -/

inductive Op where
  | pageOut (pte : Option Pte) (page : Page)
  | pageIn (pte : Option Pte) (room mapped : Bool)
  /-- The rest of a page-in of `slot`, after `checkAndSwap`. -/
  | pageInRetry (slot : Fin SWAP_SLOT_TOTAL) (mapped : Bool)
  | duplicate (parent_slot : Nat)
  /-- The rest of a duplication, after `checkAndSwap`. -/
  | duplicateRetry (parent_slot : Fin SWAP_SLOT_TOTAL)
  | free (k : Nat)

def Op.run : Op → State → State
  | pageOut pte page => swapAndPageOut pte page
  | pageIn pte room mapped => swapPageIn pte room mapped
  | pageInRetry slot mapped => pageInFrom slot mapped
  | duplicate parent_slot => duplicateSwapSlot parent_slot
  | duplicateRetry parent_slot => duplicateFrom parent_slot
  | free k => freeSlot k

/-- The operation returns before its block loop. -/
def Op.Idle (s : State) : Op → Prop
  | pageOut pte _ => s.firstFree = none ∨ ∀ e, pte = some e → e.present = false
  | pageIn pte room _ => slotOf pte s = none ∨ room = false
  | pageInRetry _ _ => False
  | duplicate parent_slot => SWAP_SLOT_TOTAL ≤ parent_slot ∨
      (s.slots parent_slot).is_free = true ∨ s.firstFree = none
  | duplicateRetry _ => s.firstFree = none
  | free _ => True

def runAll : List Op → State → State
  | [], s => s
  | op :: ops, s => runAll ops (op.run s)

/-- Every operation of the run returns before its block loop. -/
def AllIdle : List Op → State → Prop
  | [], _ => True
  | op :: ops, s => op.Idle s ∧ AllIdle ops (op.run s)

/-- Before the first swap operation. -/
def start (slots : Nat → Slot) (disk : Nat → Nat → Block) : State := ⟨slots, disk, []⟩

/-- The accesses up to `t` are of reserved blocks, and no other block of any disk has
changed. -/
structure Inside (disk : Nat → Nat → Block) (t : State) : Prop where
  accesses : ∀ a ∈ t.trace, Reserved a.dev a.blockno
  others : ∀ dev b, ¬ Reserved dev b → t.disk dev b = disk dev b

/-! ## The block loops -/

/-- What a block loop that uses blocks of the slots in `ks` does: it adds accesses,
all of disk 0 and of those slots. -/
structure Loops (ks : List Nat) (s t : State) : Prop where
  grows : ∀ a ∈ s.trace, a ∈ t.trace
  adds : ∀ a ∈ t.trace, a ∈ s.trace ∨
    a.dev = 0 ∧ ∃ k ∈ ks, ∃ i : Fin SWAP_BLOCKS_PER_PAGE, a.blockno = blockOf k + i

namespace Loops

variable {ks : List Nat} {s t u : State}

theorem refl (ks : List Nat) (s : State) : Loops ks s s := ⟨fun _ h => h, fun _ h => .inl h⟩

theorem trans (h : Loops ks s t) (h' : Loops ks t u) : Loops ks s u where
  grows a ha := h'.grows a (h.grows a ha)
  adds a ha := by
    rcases h'.adds a ha with ht | hk
    · exact h.adds a ht
    · exact .inr hk

/-- One access of a block of one of the slots. -/
theorem access {k : Nat} (hk : k ∈ ks) (i : Fin SWAP_BLOCKS_PER_PAGE) (w : Bool)
    (ht : t.trace = ⟨0, blockOf k + i, w⟩ :: s.trace) : Loops ks s t where
  grows a ha := by
    rw [ht]
    exact List.mem_cons_of_mem _ ha
  adds a ha := by
    rw [ht] at ha
    rcases List.mem_cons.1 ha with rfl | ha
    · exact .inr ⟨rfl, k, hk, i, rfl⟩
    · exact .inl ha

end Loops

theorem pageOutBlocks_loops (k : Nat) (page : Page) :
    ∀ (is : List (Fin SWAP_BLOCKS_PER_PAGE)) (s : State),
      Loops [k] s (pageOutBlocks (blockOf k) page is s) := by
  intro is
  induction is with
  | nil => exact fun s => .refl _ s
  | cons i is ih =>
    intro s
    have hk : k ∈ [k] := List.mem_singleton_self k
    have h1 : Loops [k] s (bread 0 (blockOf k + i) s).2 := .access hk i false rfl
    have h2 := Loops.access (t := bwrite 0 (blockOf k + i) (chunk page i)
      (bread 0 (blockOf k + i) s).2) hk i true rfl
    exact (h1.trans h2).trans (ih _)

theorem pageInBlocks_loops (k : Nat) : ∀ (is : List (Fin SWAP_BLOCKS_PER_PAGE)) (page : Page)
    (s : State), Loops [k] s (pageInBlocks (blockOf k) is page s).2 := by
  intro is
  induction is with
  | nil => exact fun page s => .refl _ s
  | cons i is ih =>
    intro page s
    have h1 : Loops [k] s (bread 0 (blockOf k + i) s).2 :=
      .access (List.mem_singleton_self k) i false rfl
    exact h1.trans (ih _ _)

theorem copyBlocks_loops (j k : Nat) : ∀ (is : List (Fin SWAP_BLOCKS_PER_PAGE)) (s : State),
    Loops [j, k] s (copyBlocks (blockOf j) (blockOf k) is s) := by
  intro is
  induction is with
  | nil => exact fun s => .refl _ s
  | cons i is ih =>
    intro s
    have hj : j ∈ [j, k] := by simp
    have hk : k ∈ [j, k] := by simp
    have h1 : Loops [j, k] s (bread 0 (blockOf j + i) s).2 := .access hj i false rfl
    have h2 : Loops [j, k] _ (bread 0 (blockOf k + i) (bread 0 (blockOf j + i) s).2).2 :=
      .access hk i false rfl
    have h3 := Loops.access (t := bwrite 0 (blockOf k + i) (bread 0 (blockOf j + i) s).1
      (bread 0 (blockOf k + i) (bread 0 (blockOf j + i) s).2).2) hk i true rfl
    exact ((h1.trans h2).trans h3).trans (ih _)

/-! The first block of each loop is accessed, whatever follows. -/

theorem pageOutBlocks_first (k : Nat) (page : Page) (i : Fin SWAP_BLOCKS_PER_PAGE)
    (is : List (Fin SWAP_BLOCKS_PER_PAGE)) (s : State) :
    ⟨0, blockOf k + i, true⟩ ∈ (pageOutBlocks (blockOf k) page (i :: is) s).trace := by
  simp only [pageOutBlocks]
  exact (pageOutBlocks_loops k page is _).grows _ List.mem_cons_self

theorem pageInBlocks_first (k : Nat) (i : Fin SWAP_BLOCKS_PER_PAGE)
    (is : List (Fin SWAP_BLOCKS_PER_PAGE)) (page : Page) (s : State) :
    ⟨0, blockOf k + i, false⟩ ∈ (pageInBlocks (blockOf k) (i :: is) page s).2.trace := by
  simp only [pageInBlocks]
  exact (pageInBlocks_loops k is _ _).grows _ List.mem_cons_self

theorem copyBlocks_first (j k : Nat) (i : Fin SWAP_BLOCKS_PER_PAGE)
    (is : List (Fin SWAP_BLOCKS_PER_PAGE)) (s : State) :
    ⟨0, blockOf k + i, true⟩ ∈ (copyBlocks (blockOf j) (blockOf k) (i :: is) s).trace := by
  simp only [copyBlocks]
  exact (copyBlocks_loops j k is _).grows _ List.mem_cons_self

/-- The block loops run over all blocks of a slot, the first one first. -/
theorem finRange_blocks : List.finRange SWAP_BLOCKS_PER_PAGE =
    0 :: (List.finRange 7).map Fin.succ := List.finRange_succ

/-! ## The operations -/

theorem firstFree_lt {s : State} {k : Nat} (h : s.firstFree = some k) : k < SWAP_SLOT_TOTAL := by
  have := List.mem_of_find?_eq_some h
  simpa using this

theorem freeSlot_trace (k : Nat) (s : State) : (freeSlot k s).trace = s.trace := by
  unfold freeSlot
  split <;> rfl

theorem slotOf_lt {pte : Option Pte} {s : State} {k : Nat} (h : slotOf pte s = some k) :
    k < SWAP_SLOT_TOTAL := by
  unfold slotOf at h
  cases pte with
  | none => cases h
  | some e =>
    simp only at h
    split at h
    · cases h
    · split at h
      · cases h
      · split at h
        · cases h
        · obtain rfl := Option.some.inj h
          omega

/-- What an operation does: nothing to the disks, or a block loop over slots of the
swap area, which accesses disk 0. -/
inductive Did (s t : State) (idle : Prop) : Prop where
  | nothing (h : idle) (trace : t.trace = s.trace) (disk : t.disk = s.disk)
  | loop (h : ¬ idle) (ks : List Nat) (hk : ∀ k ∈ ks, k < SWAP_SLOT_TOTAL) (hl : Loops ks s t)
      (a : Access) (ha : a ∈ t.trace) (hdev : a.dev = 0)

theorem pageInFrom_did (slot : Nat) (h : slot < SWAP_SLOT_TOTAL) (mapped : Bool) (s : State)
    {idle : Prop} (hi : ¬ idle) : Did s (pageInFrom slot mapped s) idle := by
  have hl := pageInBlocks_loops slot (List.finRange SWAP_BLOCKS_PER_PAGE) (memset 5) s
  have ha : (⟨0, blockOf slot + (0 : Fin SWAP_BLOCKS_PER_PAGE), false⟩ : Access) ∈
      (pageInBlocks (blockOf slot) (List.finRange SWAP_BLOCKS_PER_PAGE) (memset 5) s).2.trace := by
    rw [finRange_blocks]
    exact pageInBlocks_first slot _ _ _ _
  have ht : (pageInFrom slot mapped s).trace =
      (pageInBlocks (blockOf slot) (List.finRange SWAP_BLOCKS_PER_PAGE) (memset 5) s).2.trace := by
    unfold pageInFrom
    cases mapped with
    | true => exact freeSlot_trace _ _
    | false => rfl
  refine .loop hi [slot] ?_ ⟨?_, ?_⟩ _ (ht ▸ ha) rfl
  · intro k hk
    obtain rfl := List.mem_singleton.1 hk
    exact h
  · rw [ht]
    exact hl.grows
  · rw [ht]
    exact hl.adds

theorem duplicateFrom_did (parent_slot : Nat) (h : parent_slot < SWAP_SLOT_TOTAL) (s : State)
    {idle : Prop} (hi : idle ↔ s.firstFree = none) :
    Did s (duplicateFrom parent_slot s) idle := by
  unfold duplicateFrom findFreeSlot
  cases hf : s.firstFree with
  | none => exact .nothing (hi.2 hf) rfl rfl
  | some k =>
    have hl := copyBlocks_loops parent_slot k (List.finRange SWAP_BLOCKS_PER_PAGE)
    refine .loop (fun hn => ?_) [parent_slot, k] ?_ ⟨(hl _).grows, (hl _).adds⟩
      ⟨0, blockOf k + (0 : Fin SWAP_BLOCKS_PER_PAGE), true⟩ ?_ rfl
    · rw [hi, hf] at hn
      cases hn
    · intro j hj
      rcases List.mem_cons.1 hj with rfl | hj
      · exact h
      · obtain rfl := List.mem_singleton.1 hj
        exact firstFree_lt hf
    · rw [finRange_blocks]
      exact copyBlocks_first parent_slot k _ _ _

theorem swapAndPageOut_did (pte : Option Pte) (page : Page) (s : State) :
    Did s (swapAndPageOut pte page s) (Op.Idle s (.pageOut pte page)) := by
  unfold swapAndPageOut findFreeSlot
  cases hf : s.firstFree with
  | none => exact .nothing (.inl hf) rfl rfl
  | some k =>
    cases pte with
    | none => exact .nothing (.inr fun e he => by cases he) rfl rfl
    | some e =>
      by_cases hp : e.present = true
      · simp only [hp, if_true]
        have hl := pageOutBlocks_loops k page (List.finRange SWAP_BLOCKS_PER_PAGE)
        refine .loop ?_ [k] ?_ ⟨(hl _).grows, (hl _).adds⟩ ⟨0, blockOf k + (0 : Fin SWAP_BLOCKS_PER_PAGE), true⟩ ?_ rfl
        · rintro (hn | hn)
          · rw [hf] at hn
            cases hn
          · rw [hn e rfl] at hp
            cases hp
        · intro j hj
          obtain rfl := List.mem_singleton.1 hj
          exact firstFree_lt hf
        · rw [finRange_blocks]
          exact pageOutBlocks_first k page _ _ _
      · simp only [hp]
        refine .nothing (.inr fun e' he => ?_) rfl rfl
        obtain rfl := Option.some.inj he
        exact Bool.not_eq_true _ ▸ hp

theorem Op.run_did (op : Op) (s : State) : Did s (op.run s) (op.Idle s) := by
  cases op with
  | pageOut pte page => exact swapAndPageOut_did pte page s
  | pageIn pte room mapped =>
    simp only [Op.run, swapPageIn]
    cases hs : slotOf pte s with
    | none => exact .nothing (.inl hs) rfl rfl
    | some k =>
      cases room with
      | false => exact .nothing (.inr rfl) rfl rfl
      | true =>
        refine pageInFrom_did k (slotOf_lt hs) mapped s ?_
        rintro (hn | hn)
        · rw [hs] at hn
          cases hn
        · cases hn
  | pageInRetry slot mapped => exact pageInFrom_did slot slot.isLt mapped s id
  | duplicate parent_slot =>
    simp only [Op.run, duplicateSwapSlot]
    split
    case isTrue h => exact .nothing (.inl h) rfl rfl
    case isFalse h =>
      split
      case isTrue hfree => exact .nothing (.inr (.inl hfree)) rfl rfl
      case isFalse hfree =>
        refine duplicateFrom_did parent_slot (by omega) s ?_
        simp [Op.Idle, hfree, h]
  | duplicateRetry parent_slot => exact duplicateFrom_did parent_slot parent_slot.isLt s .rfl
  | free k =>
    refine .nothing trivial ?_ ?_
    · exact freeSlot_trace k s
    · simp only [Op.run, freeSlot]
      split <;> rfl

/-! ## Runs -/

theorem runAll_grows (ops : List Op) : ∀ (s : State), ∀ a ∈ s.trace, a ∈ (runAll ops s).trace := by
  induction ops with
  | nil => exact fun s a ha => ha
  | cons op ops ih =>
    intro s a ha
    refine ih _ a ?_
    cases op.run_did s with
    | nothing _ ht => rwa [ht]
    | loop _ ks _ hl => exact hl.grows a ha

/-- **Every access is of disk 0**, and its block number is one of those `mkfs` reserves. -/
theorem runAll_disk0 (ops : List Op) : ∀ (s : State),
    (∀ a ∈ s.trace, a.dev = 0 ∧ 2 ≤ a.blockno ∧ a.blockno < Mkfs.sb.logstart) →
    ∀ a ∈ (runAll ops s).trace, a.dev = 0 ∧ 2 ≤ a.blockno ∧ a.blockno < Mkfs.sb.logstart := by
  induction ops with
  | nil => exact fun s hs => hs
  | cons op ops ih =>
    intro s hs
    refine ih _ fun a ha => ?_
    cases op.run_did s with
    | nothing _ ht => exact hs a (ht ▸ ha)
    | loop _ ks hks hl =>
      rcases hl.adds a ha with ha | ⟨hdev, k, hk, i, hb⟩
      · exact hs a ha
      · have hk := hks k hk
        have hi := i.isLt
        have hlog : Mkfs.sb.logstart = 6402 := by decide
        simp only [blockOf, SWAP_BLOCK_START, SWAP_BLOCKS_PER_PAGE, SWAP_SLOT_TOTAL] at *
        exact ⟨hdev, by omega, by omega⟩

theorem runAll_idle (ops : List Op) : ∀ (s : State), AllIdle ops s →
    (runAll ops s).trace = s.trace ∧ (runAll ops s).disk = s.disk := by
  induction ops with
  | nil => exact fun s _ => ⟨rfl, rfl⟩
  | cons op ops ih =>
    intro s ⟨hi, hs⟩
    obtain ⟨ht, hd⟩ := ih _ hs
    cases op.run_did s with
    | nothing _ ht' hd' => exact ⟨ht.trans ht', hd.trans hd'⟩
    | loop h => exact absurd hi h

/-- An operation that is not idle leaves an access of disk 0. -/
theorem runAll_busy (ops : List Op) : ∀ (s : State), ¬ AllIdle ops s →
    ∃ a ∈ (runAll ops s).trace, a.dev = 0 := by
  induction ops with
  | nil => exact fun s h => absurd trivial h
  | cons op ops ih =>
    intro s h
    cases op.run_did s with
    | nothing hi => exact ih _ fun hs => h ⟨hi, hs⟩
    | loop _ ks _ _ a ha hdev => exact ⟨a, runAll_grows ops _ a ha, hdev⟩

/-- **The swap code keeps to its blocks** exactly when it uses no block: in every run,
its accesses stay inside the reserved blocks, and no other block of any disk is
written, if and only if each operation returns before its block loop. -/
theorem inside_iff (slots : Nat → Slot) (disk : Nat → Nat → Block) (ops : List Op) :
    Inside disk (runAll ops (start slots disk)) ↔ AllIdle ops (start slots disk) := by
  constructor
  · intro h
    by_contra hbusy
    obtain ⟨a, ha, hdev⟩ := runAll_busy ops _ hbusy
    have hroot := (h.accesses a ha).1
    rw [hdev] at hroot
    exact absurd hroot (by decide)
  · intro h
    obtain ⟨ht, hd⟩ := runAll_idle ops _ h
    refine ⟨fun a ha => ?_, fun dev b _ => by rw [hd]; rfl⟩
    rw [ht] at ha
    cases ha

/-- The first page-out of a machine writes block 2 of disk 0, a block of the kernel. -/
theorem kernel_block_written :
    let s := start (fun _ => ⟨0, true⟩) fun _ _ _ => 0
    let t := runAll [.pageOut (some ⟨5, 0x007#12⟩) (memset 1)] s
    ¬ Inside s.disk t ∧ s.disk 0 2 0 = 0 ∧ t.disk 0 2 0 = 1 := by
  refine ⟨fun h => ?_, rfl, by decide +kernel⟩
  have := (h.accesses ⟨0, 2, true⟩ (by decide +kernel)).1
  exact absurd this (by decide)

end Xv6.Swap.Device
