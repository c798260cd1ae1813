/-
What an eviction does, and so what every allocation does.

`kalloc` may page out pages of any process. `Paged h s t` is all a caller can
rely on afterwards: the process table is the same up to `rss`, no directory and
no page table appears or disappears, the frames the caller holds keep their
bytes, no slot in use is touched, and a page is either where it was or has moved
to a slot that was free (`PageMove`). It is reflexive and transitive, so the specification of
the loop of `swapOutPages` is an induction that only uses the one of a turn.

The specifications are total: from a state with the invariant, an allocation
returns.
-/
import Xv6.Swap.Ownership

set_option autoImplicit false

namespace Xv6.Swap

open Xv6.Lib

variable {h : Set Nat} {s t u : Machine}

/-! ## The effect of evictions -/

/-- The permission flags in a slot's `page_perm`. -/
def permOf (b : BitVec 12) : BitVec 12 := b &&& ~~~(PTE_P ||| PTE_A)

/-- What may happen to page `v` of directory `d`. -/
inductive PageMove (s t : Machine) (d v : Nat) : Prop where
  /-- It was not in memory; the entry is the same. -/
  | out (hs : (s.pte d v).present = false) (ht : t.pte d v = s.pte d v)
  /-- It stays in its frame. -/
  | stay (hs : (s.pte d v).present = true) (ht : (t.pte d v).present = true)
      (hf : (t.pte d v).ppn = (s.pte d v).ppn) (hp : (t.pte d v).perm = (s.pte d v).perm)
      (hm : t.mem (s.pte d v).ppn = s.mem (s.pte d v).ppn)
  /-- It moves to a slot that was free. -/
  | move (hs : (s.pte d v).present = true) (hu : (s.pte d v).user = true)
      (ht : (t.pte d v).swapped = true) (hp : (t.pte d v).perm = (s.pte d v).perm)
      (hk : (t.pte d v).ppn < SWAP_SLOT_TOTAL)
      (hfree : (s.slots (t.pte d v).ppn).is_free = true)
      (hused : (t.slots (t.pte d v).ppn).is_free = false)
      (hfill : t.hist.filled (t.pte d v).ppn = some (d, v))
      (hperm : permOf (t.slots (t.pte d v).ppn).page_perm = (s.pte d v).perm)
      (hm : t.slotPage (t.pte d v).ppn = s.mem (s.pte d v).ppn)

/-- What a routine that holds the frames `h` may rely on across evictions. -/
structure Paged (h : Set Nat) (s t : Machine) : Prop where
  kend : t.kend = s.kend
  initproc : t.initproc = s.initproc
  nextpid : t.nextpid = s.nextpid
  pipe : t.pipe = s.pipe
  cpu_proc : t.cpu.proc = s.cpu.proc
  proc : ∀ p, ∃ r, t.proc p = { s.proc p with rss := r }
  dirs : ∀ d, (t.space d).isSome = (s.space d).isSome
  tab : ∀ d i, t.tab d i = s.tab d i
  kern : ∀ d v, UPAGES ≤ v → t.pte d v = s.pte d v
  held : ∀ f ∈ h, t.mem f = s.mem f
  slot : ∀ k, (s.slots k).is_free = false →
    t.slots k = s.slots k ∧ t.hist.filled k = s.hist.filled k ∧ t.slotPage k = s.slotPage k
  page : ∀ d v, v < UPAGES → PageMove s t d v

/-- Nothing happens to a page whose entry and frame stay the same. -/
theorem PageMove.same {d v : Nat} (he : t.pte d v = s.pte d v)
    (hm : (s.pte d v).present = true → t.mem (s.pte d v).ppn = s.mem (s.pte d v).ppn) :
    PageMove s t d v := by
  cases hp : (s.pte d v).present
  · exact .out hp he
  · exact .stay hp (by rw [he, hp]) (by rw [he]) (by rw [he]) (hm hp)

namespace Paged

theorem refl (h : Set Nat) (s : Machine) : Paged h s s where
  kend := rfl
  initproc := rfl
  nextpid := rfl
  pipe := rfl
  cpu_proc := rfl
  proc _ := ⟨_, rfl⟩
  dirs _ := rfl
  tab _ _ := rfl
  kern _ _ _ := rfl
  held _ _ := rfl
  slot _ _ := ⟨rfl, rfl, rfl⟩
  page _ _ _ := .same rfl fun _ => rfl

/-- A slot that was in use is still in use. -/
theorem used (hst : Paged h s t) {k : Nat} (hk : (s.slots k).is_free = false) :
    (t.slots k).is_free = false := by
  rw [(hst.slot k hk).1, hk]

/-- A slot that is free now was free before. -/
theorem free (hst : Paged h s t) {k : Nat} (hk : (t.slots k).is_free = true) :
    (s.slots k).is_free = true := by
  cases hs : (s.slots k).is_free
  · rw [hst.used hs] at hk
    cases hk
  · rfl

theorem trans (hst : Paged h s t) (htu : Paged h t u) : Paged h s u where
  kend := htu.kend.trans hst.kend
  initproc := htu.initproc.trans hst.initproc
  nextpid := htu.nextpid.trans hst.nextpid
  pipe := htu.pipe.trans hst.pipe
  cpu_proc := htu.cpu_proc.trans hst.cpu_proc
  proc p := by
    obtain ⟨r, hr⟩ := hst.proc p
    obtain ⟨r', hr'⟩ := htu.proc p
    exact ⟨r', by rw [hr', hr]⟩
  dirs d := (htu.dirs d).trans (hst.dirs d)
  tab d i := (htu.tab d i).trans (hst.tab d i)
  kern d v hv := (htu.kern d v hv).trans (hst.kern d v hv)
  held f hf := (htu.held f hf).trans (hst.held f hf)
  slot k hk := by
    obtain ⟨h1, h2, h3⟩ := hst.slot k hk
    obtain ⟨g1, g2, g3⟩ := htu.slot k (hst.used hk)
    exact ⟨g1.trans h1, g2.trans h2, g3.trans h3⟩
  page d v hv := by
    -- a page goes out in the first half or in the second, and never comes back
    cases hst.page d v hv with
    | out hs ht =>
      cases htu.page d v hv with
      | out _ hu => exact .out hs (hu.trans ht)
      | stay ht' => rw [ht, hs] at ht'; cases ht'
      | move ht' => rw [ht, hs] at ht'; cases ht'
    | stay hs ht hf hp hm =>
      cases htu.page d v hv with
      | out ht' => rw [ht] at ht'; cases ht'
      | stay _ hu hf' hp' hm' =>
        refine .stay hs hu (hf'.trans hf) (hp'.trans hp) ?_
        rw [hf] at hm'
        rw [hm', hm]
      | move _ huser hu hp' hk hfree hused hfill hperm hm' =>
        refine .move hs ?_ hu (hp'.trans hp) hk (hst.free hfree) hused hfill (hperm.trans hp) ?_
        · rw [← Pte.user_of_perm hp]
          exact huser
        · rw [hm', hf, hm]
    | move hs huser ht hp hk hfree hused hfill hperm hm =>
      have hnp := (Pte.swapped_iff.1 ht).1
      cases htu.page d v hv with
      | stay ht' => rw [hnp] at ht'; cases ht'
      | move ht' => rw [hnp] at ht'; cases ht'
      | out _ hu =>
        obtain ⟨g1, g2, g3⟩ := htu.slot _ hused
        refine .move hs huser ?_ ?_ ?_ ?_ ?_ ?_ ?_ ?_
        all_goals rw [hu]
        · exact ht
        · exact hp
        · exact hk
        · exact hfree
        · rw [g1]; exact hused
        · rw [g2]; exact hfill
        · rw [g1]; exact hperm
        · rw [g3]; exact hm

/-- Processes keep their state and their directory. -/
theorem state (hst : Paged h s t) (p : Nat) : (t.proc p).state = (s.proc p).state := by
  obtain ⟨r, hr⟩ := hst.proc p
  rw [hr]

theorem pgdir (hst : Paged h s t) (p : Nat) : (t.proc p).pgdir = (s.proc p).pgdir := by
  obtain ⟨r, hr⟩ := hst.proc p
  rw [hr]

theorem live (hst : Paged h s t) (p : Nat) : (t.proc p).live ↔ (s.proc p).live := by
  simp only [Proc.live, hst.state]

theorem zombie (hst : Paged h s t) (d : Nat) : t.zombie d ↔ s.zombie d := by
  simp only [Machine.zombie, hst.state, hst.pgdir]

theorem mono {h' : Set Nat} (hst : Paged h s t) (hh : h' ⊆ h) : Paged h' s t :=
  { hst with held := fun f hf => hst.held f (hh hf) }

/-- **Evictions do not change what a process has stored.** -/
theorem content (hst : Paged h s t) (hI : Inv h s) {d v : Nat} (hv : v < UPAGES)
    (hz : ¬ s.zombie d) : t.content d v = s.content d v := by
  unfold Machine.content
  cases hst.page d v hv with
  | out hs ht =>
    rw [ht, hs]
    simp only [Bool.false_eq_true, if_false]
    split
    · next hsw =>
      have hused := hI.slot_own.busy (o := (d, v)) ⟨hz, hv, hsw, rfl⟩
      rw [(hst.slot _ (by simpa using hused)).2.2]
    · rfl
  | stay hs ht hf hp hm => rw [if_pos hs, if_pos ht, hf, hm]
  | move hs hu ht hp hk hfree hused hfill hperm hm =>
    rw [if_pos hs, if_neg (by rw [(Pte.swapped_iff.1 ht).1]; simp), if_pos ht, hm]

/-- Evictions do not change permissions. -/
theorem perm (hst : Paged h s t) {d v : Nat} (hv : v < UPAGES) :
    (t.pte d v).perm = (s.pte d v).perm := by
  cases hst.page d v hv with
  | out hs ht => rw [ht]
  | stay hs ht hf hp hm => exact hp
  | move hs hu ht hp => exact hp

/-- A page that was paged out stays where it is. -/
theorem out_eq (hst : Paged h s t) {d v : Nat} (hv : v < UPAGES)
    (hp : (s.pte d v).present = false) : t.pte d v = s.pte d v := by
  cases hst.page d v hv with
  | out hs ht => exact ht
  | stay hs => rw [hp] at hs; cases hs
  | move hs => rw [hp] at hs; cases hs

end Paged

/-! ## Steps of the page-out code

Each piece of `swapOutPages` keeps the invariant and is an instance of `Paged`. -/

/-- What an allocation or an eviction establishes. -/
abbrev Evicts (h : Set Nat) (s t : Machine) : Prop := Inv h t ∧ Paged h s t

theorem Evicts.refl (hI : Inv h s) : Evicts h s s := ⟨hI, .refl h s⟩

theorem Evicts.trans (hst : Evicts h s t) (htu : Evicts h t u) : Evicts h s u :=
  ⟨htu.1, hst.2.trans htu.2⟩

/-- A change to the processor, to history and to slots that were free is no
change at all for `Paged`. -/
theorem Paged.of_core {h : Set Nat} {s t : Machine} (hc : t.core = s.core)
    (hi : t.initproc = s.initproc) (hn : t.nextpid = s.nextpid) (hm : t.mem = s.mem)
    (hp : t.cpu.proc = s.cpu.proc)
    (hf : ∀ k, (s.slots k).is_free = false →
      t.hist.filled k = s.hist.filled k ∧ t.slotPage k = s.slotPage k) : Paged h s t := by
  simp only [Machine.core, Prod.mk.injEq] at hc
  obtain ⟨h1, h2, h3, h4, h5, h6⟩ := hc
  have hpte : ∀ d v, t.pte d v = s.pte d v := by
    intro d v
    simp only [Machine.pte, h3]
  exact {
    kend := h1
    initproc := hi
    nextpid := hn
    pipe := h6
    cpu_proc := hp
    proc := fun p => ⟨(s.proc p).rss, by rw [h5]⟩
    dirs := fun d => by rw [h3]
    tab := fun d i => by simp only [Machine.tab, h3]
    kern := fun d v _ => hpte d v
    held := fun f _ => by rw [hm]
    slot := fun k hk => ⟨by rw [h4], hf k hk⟩
    page := fun d v _ => .same (hpte d v) fun _ => by rw [hm] }

/-! ### Sleeping and the disk -/

/-- Only the processor (not the process it runs) and the record of its register
have changed. -/
def Quiet (s t : Machine) : Prop :=
  ∃ cpu rl, t = s.setCpu cpu rl ∧ cpu.proc = s.cpu.proc

namespace Quiet

theorem refl (s : Machine) : Quiet s s := ⟨s.cpu, s.hist.reloads, rfl, rfl⟩

theorem trans (hst : Quiet s t) (htu : Quiet t u) : Quiet s u := by
  obtain ⟨c, r, rfl, hc⟩ := hst
  obtain ⟨c', r', rfl, hc'⟩ := htu
  exact ⟨c', r', rfl, hc'.trans hc⟩

theorem resched (s : Machine) : Quiet s s.resched := ⟨_, _, rfl, rfl⟩

theorem evicts (hst : Quiet s t) (hI : Inv h s) : Evicts h s t := by
  obtain ⟨c, r, rfl, hc⟩ := hst
  exact ⟨hI.congr rfl, .of_core rfl rfl rfl rfl hc fun _ _ => ⟨rfl, rfl⟩⟩

theorem pte (hst : Quiet s t) (d v : Nat) : t.pte d v = s.pte d v := by
  obtain ⟨c, r, rfl, -⟩ := hst
  rfl

end Quiet

theorem lcr3_spec (d : Nat) (s : Machine) : K.Returns (lcr3 d) s fun _ t => Quiet s t :=
  ⟨(), _, rfl, _, _, rfl, rfl⟩

theorem mayBlock_spec (s : Machine) : K.Returns mayBlock s fun _ t => Quiet s t := by
  unfold mayBlock
  simp only [Code.returns_get_bind, Code.returns_modify_bind]
  have hq : Quiet s (s.setCpu { s.cpu with hits := s.cpu.hits.tail } s.hist.reloads) :=
    ⟨_, _, rfl, rfl⟩
  split
  · exact Code.returns_pure.2 hq
  · exact ⟨(), _, rfl, hq.trans (.resched _)⟩

theorem bread_spec (b : Nat) (s : Machine) :
    K.Returns (bread b) s fun r t => Quiet s t ∧ r = s.disk b := by
  refine (mayBlock_spec s).bind fun _ t ht => ?_
  simp only [Code.returns_get_bind, Code.returns_pure]
  refine ⟨ht, ?_⟩
  obtain ⟨c, r, rfl, -⟩ := ht
  rfl

theorem bwrite_spec (b : Nat) (data : Block) (s : Machine) :
    K.Returns (bwrite b data) s fun _ t => Quiet (s.setBlock b data) t :=
  ⟨(), _, rfl, .resched _⟩

/-- After the copying loop over `is`, block `i` of the slot holds block `i` of
the frame exactly when `i` is in `is`; no other block of the disk has changed. -/
theorem pageOutBlocks_spec (b pa : Nat) (is : List (Fin SWAP_BLOCKS_PER_PAGE)) (s : Machine) :
    K.Returns (pageOutBlocks b pa is) s fun _ t =>
      ∃ disk, Quiet (s.setDisk disk) t ∧
        (∀ i : Fin SWAP_BLOCKS_PER_PAGE, disk (b + i) =
          if i ∈ is then chunk (s.mem pa) i else s.disk (b + i)) ∧
        ∀ c, (∀ i : Fin SWAP_BLOCKS_PER_PAGE, c ≠ b + i) → disk c = s.disk c := by
  induction is generalizing s with
  | nil => exact Code.returns_pure.2 ⟨s.disk, .refl s, fun i => by simp, fun _ _ => rfl⟩
  | cons i is ih =>
    unfold pageOutBlocks
    refine (bread_spec _ s).bind fun _ t hpost => ?_
    obtain ⟨⟨c, r, ht, hc⟩, _⟩ := hpost
    subst ht
    simp only [Code.returns_get_bind]
    refine (bwrite_spec _ _ _).bind fun _ t hpost => ?_
    obtain ⟨c', r', ht, hc'⟩ := hpost
    subst ht
    refine (ih _).mono fun _ u hpost => ?_
    obtain ⟨disk, ⟨c'', r'', hu, hc''⟩, hd, ho⟩ := hpost
    subst hu
    refine ⟨disk, ⟨c'', r'', rfl, hc''.trans (hc'.trans hc)⟩, fun j => ?_, fun x hx => ?_⟩
    · rw [hd j]
      simp only [Machine.setCpu_mem, Machine.setCpu_disk, Machine.setBlock_mem,
        Machine.setBlock_disk, List.mem_cons]
      rcases eq_or_ne j i with rfl | hji
      · simp
      · have hne : b + j.val ≠ b + i.val := fun he => hji (Fin.ext (by omega))
        rw [Function.update_of_ne hne]
        simp only [hji, false_or]
    · rw [ho x hx]
      exact Function.update_of_ne (hx i) _ _

/-! ### Taking a slot and returning a frame -/

/-- A slot that was free is put to some use; no page is in it yet. -/
theorem Inv.useSlot {k : Nat} (hI : Inv h s) (hfree : (s.slots k).is_free = true)
    (hc : (t.kend, t.freelist, t.space, t.proc, t.pipe) =
      (s.kend, s.freelist, s.space, s.proc, s.pipe))
    (hg : (t.initproc, t.nextpid, t.cpu.proc, t.mem) = (s.initproc, s.nextpid, s.cpu.proc, s.mem))
    (hslot : ∀ j, j ≠ k → t.slots j = s.slots j ∧ t.hist.filled j = s.hist.filled j ∧
      t.slotPage j = s.slotPage j)
    (hk : (t.slots k).is_free = false) :
    Evicts h s t ∧ ∀ o, ¬ SlotUses t o k := by
  simp only [Prod.mk.injEq] at hc hg
  obtain ⟨h1, h2, h3, h4, h5⟩ := hc
  obtain ⟨g1, g2, g3, g4⟩ := hg
  have hpte : ∀ d v, t.pte d v = s.pte d v := fun d v => by simp only [Machine.pte, h3]
  have hslots : ∀ o j, SlotUses t o j → SlotUses s o j := by
    rintro o j ⟨hz, hv, hs, hj⟩
    rw [hpte] at hs hj
    exact ⟨fun hx => hz (by simpa only [Machine.zombie, h4] using hx), hv, hs, hj⟩
  have hmid : Inv h { s with slots := t.slots } := by
    refine ⟨{ hI.toFrames with
      slot_own := hI.slot_own.mono (fun _ _ hx => hx) fun j hj => ?_ }, hI.toProcs.congr rfl rfl⟩
    rcases eq_or_ne j k with rfl | hjk
    · exact hfree
    · rwa [show (s.slots j) = t.slots j from (hslot j hjk).1.symm]
  refine ⟨⟨hmid.congr ?_, ?_⟩, fun o ho => hI.slot_own.busy (hslots o k ho) hfree⟩
  · simp only [Machine.core, h1, h2, h3, h4, h5]
  · exact {
      kend := h1, initproc := g1, nextpid := g2, pipe := h5, cpu_proc := g3
      proc := fun p => ⟨(s.proc p).rss, by rw [h4]⟩
      dirs := fun d => by rw [h3]
      tab := fun d i => by simp only [Machine.tab, h3]
      kern := fun d v _ => hpte d v
      held := fun f _ => by rw [g4]
      slot := fun j hj => hslot j fun he => by rw [he, hfree] at hj; cases hj
      page := fun d v _ => .same (hpte d v) fun _ => by rw [g4] }

/-- The state after `findFreeSlot` has taken slot `k`. -/
def Machine.takeSlot (s : Machine) (k : Nat) : Machine :=
  s.setSlot k fun sl => { sl with is_free := false }

theorem Inv.takeSlot {k : Nat} (hI : Inv h s) (hfree : (s.slots k).is_free = true) :
    Evicts h s (s.takeSlot k) :=
  (hI.useSlot (t := s.takeSlot k) hfree rfl rfl
    (fun j hj => ⟨by simp [Machine.takeSlot, hj], rfl, rfl⟩) (by simp [Machine.takeSlot])).1

/-- `findFreeSlot` fails only when every slot is in use. -/
theorem findFreeSlot_exact (s : Machine) : K.Returns findFreeSlot s fun r t =>
    match r with
    | none => t = s ∧ ∀ k < SWAP_SLOT_TOTAL, (s.slots k).is_free = false
    | some k => k < SWAP_SLOT_TOTAL ∧ (s.slots k).is_free = true ∧ t = s.takeSlot k := by
  unfold findFreeSlot
  simp only [Code.returns_get_bind]
  split
  · next hnone =>
    refine Code.returns_pure.2 ⟨rfl, fun k hk => ?_⟩
    simpa using List.find?_eq_none.1 hnone k (List.mem_range'_1.2 ⟨Nat.zero_le k, by omega⟩)
  · next k hk =>
    have hfree : (s.slots k).is_free = true := by simpa using List.find?_some hk
    have hm := List.mem_of_find?_eq_some hk
    simp only [List.mem_range'_1] at hm
    simp only [Code.returns_modify_bind, Code.returns_pure]
    exact ⟨by omega, hfree, rfl⟩

theorem findFreeSlot_spec (s : Machine) : K.Returns findFreeSlot s fun r t =>
    match r with
    | none => t = s
    | some k => k < SWAP_SLOT_TOTAL ∧ (s.slots k).is_free = true ∧ t = s.takeSlot k := by
  refine (findFreeSlot_exact s).mono fun r t hr => ?_
  cases r with
  | none => exact hr.1
  | some k => exact hr

/-- A frame that no one holds may be given to `kfree`. -/
structure Loose (h : Set Nat) (s : Machine) (f : Nat) : Prop where
  unused : ∀ o, ¬ Uses h s o f
  not_free : f ∉ s.freelist
  lo : s.kend ≤ f
  hi : f < NFRAMES

/-- The state after `kfree` of frame `f`. -/
def Machine.kfreed (s : Machine) (f : Nat) : Machine :=
  (s.setMem f (freePage s.freelist.head?)).setFree (f :: s.freelist)

theorem kfree_returns {f : Nat} (hlo : s.kend ≤ f) (hhi : f < NFRAMES) :
    (kfree f).run s = .ok ((), s.kfreed f) := by
  unfold kfree
  rw [K.run, Code.run_get_bind, if_neg (by omega)]
  rfl

theorem Frames.kfreed {f : Nat} (hF : Frames h s) (hf : Loose h s f) : Frames h (s.kfreed f) :=
  { hF with
    own := hF.own.release hf.unused (fun _ _ hx => hx) fun y hy => List.mem_cons.1 hy
    nodup := List.nodup_cons.2 ⟨hf.not_free, hF.nodup⟩
    range_free := fun y hy => by
      rcases List.mem_cons.1 hy with rfl | hy
      · exact ⟨hf.lo, hf.hi⟩
      · exact hF.range_free y hy
    range_used := hF.range_used }

/-- A frame that someone holds is not the one that was freed. -/
theorem Loose.kfreed_mem {f g : Nat} {o : Owner} (hf : Loose h s f) (ho : Uses h s o g) :
    (s.kfreed f).mem g = s.mem g := by
  have hne : g ≠ f := fun he => hf.unused o (he ▸ ho)
  simp [Machine.kfreed, hne]

theorem kfree_spec {f : Nat} (hI : Inv h s) (hf : Loose h s f) :
    K.Returns (kfree f) s fun _ t => Evicts h s t := by
  refine ⟨(), _, kfree_returns hf.lo hf.hi, ⟨hI.toFrames.kfreed hf, hI.toProcs.congr rfl rfl⟩, ?_⟩
  exact { Paged.refl h s with
    held := fun g hg => hf.kfreed_mem (o := .held g) ⟨hg, rfl⟩
    slot := fun _ _ => ⟨rfl, rfl, rfl⟩
    page := fun d v hv => .same rfl fun hp => hf.kfreed_mem (o := .page d v) ⟨hv, hp, rfl⟩ }

/-! ### Paging out one page -/

/-- The slots of the disk are disjoint. -/
theorem slotPage_of_ne {j k : Nat} (hjk : j ≠ k)
    (ho : ∀ c, (∀ i : Fin SWAP_BLOCKS_PER_PAGE,
      c ≠ SWAP_BLOCK_START + k * SWAP_BLOCKS_PER_PAGE + i) → t.disk c = s.disk c) :
    t.slotPage j = s.slotPage j := by
  unfold Machine.slotPage
  refine congrArg join (funext fun i => ?_)
  rw [ho _ fun i' he => hjk (blockno_inj he).1]

/-- A slot whose blocks are those of a page holds that page. -/
theorem slotPage_of_chunks {k : Nat} {pg : Page}
    (hd : ∀ i : Fin SWAP_BLOCKS_PER_PAGE,
      t.disk (SWAP_BLOCK_START + k * SWAP_BLOCKS_PER_PAGE + i) = chunk pg i) :
    t.slotPage k = pg := by
  unfold Machine.slotPage
  rw [← join_chunk pg]
  refine congrArg join (funext fun i => ?_)
  rw [hd i]

/-- **One page moves to a free slot.** The state `t` differs from `s` in the
entry of page `v` of `d`, which now names slot `k`, in the slot and its blocks,
and in the processor. The frame of the page is then held by no one. -/
theorem Inv.pageOut {d v k : Nat} (hI : Inv h s) (hd : (s.space d).isSome = true)
    (hv : v < UPAGES) (hp : (s.pte d v).present = true) (hu : (s.pte d v).user = true)
    (hk : k < SWAP_SLOT_TOTAL) (hfree : (s.slots k).is_free = true)
    (hc : (t.kend, t.freelist, t.mem, t.proc, t.pipe) = (s.kend, s.freelist, s.mem, s.proc, s.pipe))
    (hg : (t.initproc, t.nextpid, t.cpu.proc) = (s.initproc, s.nextpid, s.cpu.proc))
    (hspace : t.space = (s.setPte d v ((s.pte d v).toSlot k)).space)
    (hslot : t.slots = Function.update s.slots k ⟨(s.pte d v).flags, false⟩)
    (hfill : t.hist.filled = Function.update s.hist.filled k (some (d, v)))
    (hpage : t.slotPage k = s.mem (s.pte d v).ppn)
    (hother : ∀ j, j ≠ k → t.slotPage j = s.slotPage j) :
    Evicts h s t ∧ Loose h t (s.pte d v).ppn := by
  simp only [Prod.mk.injEq] at hc hg
  obtain ⟨hkend, hlist, hmem, hproc, hpipe⟩ := hc
  obtain ⟨hinit, hnext, hcur⟩ := hg
  -- the entries, page tables and directories of `t`
  have hpte : ∀ d' v', t.pte d' v' =
      if d' = d ∧ v' = v then (s.pte d v).toSlot k else s.pte d' v' := by
    intro d' v'
    rw [← Machine.setPte_pte hd]
    simp only [Machine.pte, hspace]
  have htab : ∀ d' i, t.tab d' i = s.tab d' i := by
    intro d' i
    rw [← Machine.setPte_tab s d v ((s.pte d v).toSlot k)]
    simp only [Machine.tab, hspace]
  have hdirs : ∀ d', (t.space d').isSome = (s.space d').isSome := by
    intro d'
    rw [hspace, Machine.setPte_isSome]
  have hself : t.pte d v = (s.pte d v).toSlot k := by rw [hpte, if_pos ⟨rfl, rfl⟩]
  have hne : ∀ d' v', ¬ (d' = d ∧ v' = v) → t.pte d' v' = s.pte d' v' := by
    intro d' v' hn
    rw [hpte, if_neg hn]
  have hzombie : ∀ d', t.zombie d' ↔ s.zombie d' := by
    intro d'
    simp only [Machine.zombie, hproc]
  have hswapped := Pte.toSlot_swapped k hu
  -- no frame gets a new use, and the page loses its own
  have huses : ∀ o f, Uses h t o f → Uses h s o f ∧ o ≠ .page d v := by
    rintro (⟨d', v'⟩ | ⟨d', i⟩ | d' | p | i | g) f hf
    · by_cases hdv : d' = d ∧ v' = v
      · obtain ⟨rfl, rfl⟩ := hdv
        have := hf.2.1
        rw [hself, Pte.toSlot_present] at this
        cases this
      · refine ⟨?_, fun he => hdv (by cases he; exact ⟨rfl, rfl⟩)⟩
        have := hf
        simp only [Uses, hne d' v' hdv] at this
        exact this
    · exact ⟨by rw [Uses, ← htab]; exact hf, by simp⟩
    · exact ⟨by rw [Uses, ← hdirs]; exact hf, by simp⟩
    · exact ⟨by rw [Uses, ← hproc]; exact hf, by simp⟩
    · exact ⟨by rw [Uses, ← hpipe]; exact hf, by simp⟩
    · exact ⟨hf, by simp⟩
  have hinv : Inv h t := {
    own := hI.own.mono (fun o f hf => (huses o f hf).1) fun f hf => by rwa [hlist] at hf
    nodup := by rw [hlist]; exact hI.nodup
    range_free := by rw [hlist, hkend]; exact hI.range_free
    range_used := fun o f hf => by rw [hkend]; exact hI.range_used o f (huses o f hf).1
    kend_pos := by rw [hkend]; exact hI.kend_pos
    tab_zero := fun d' v' hn => by
      rw [htab] at hn
      have hz := hI.tab_zero d' v' hn
      rw [hne d' v' ?_, hz]
      rintro ⟨rfl, rfl⟩
      exact Pte.present_ne_zero hp hz
    -- the slot was free: the page becomes its only user
    slot_own := by
      refine hI.slot_own.take (o := (d, v)) hfree ?_ ?_
      · rintro ⟨d', v'⟩ j ⟨hz, hv', hs, hj⟩
        by_cases hdv : d' = d ∧ v' = v
        · obtain ⟨rfl, rfl⟩ := hdv
          rw [hself, Pte.toSlot_ppn] at hj
          exact Or.inl ⟨rfl, hj.symm⟩
        · rw [hne d' v' hdv] at hs hj
          exact Or.inr ⟨fun h' => hz ((hzombie d').2 h'), hv', hs, hj⟩
      · intro j hj
        rw [hslot] at hj
        rcases eq_or_ne j k with rfl | hjk
        · simp at hj
        · rw [Function.update_of_ne hjk] at hj
          exact ⟨hj, hjk⟩
    slot_range := by
      rintro ⟨d', v'⟩ j ⟨hz, hv', hs, hj⟩
      by_cases hdv : d' = d ∧ v' = v
      · obtain ⟨rfl, rfl⟩ := hdv
        rw [hself, Pte.toSlot_ppn] at hj
        omega
      · rw [hne d' v' hdv] at hs hj
        exact hI.slot_range (d', v') j ⟨fun h' => hz ((hzombie d').2 h'), hv', hs, hj⟩
    dir := fun p hp => by
      rw [hdirs, hproc]
      exact hI.dir p (by rwa [hproc] at hp)
    dir_inj := by rw [hproc]; exact hI.dir_inj
    size := by rw [hproc]; exact hI.size
    embryo := by rw [hproc]; exact hI.embryo }
  refine ⟨⟨hinv, ?_⟩, ?_⟩
  · exact {
      kend := hkend
      initproc := hinit
      nextpid := hnext
      pipe := hpipe
      cpu_proc := hcur
      proc := fun p => ⟨(s.proc p).rss, by rw [hproc]⟩
      dirs := hdirs
      tab := htab
      kern := fun d' v' hv' => hne d' v' (by rintro ⟨-, rfl⟩; omega)
      held := fun f _ => by rw [hmem]
      slot := fun j hj => by
        have hjk : j ≠ k := fun he => by rw [he, hfree] at hj; cases hj
        refine ⟨?_, ?_, hother j hjk⟩
        · rw [hslot, Function.update_of_ne hjk]
        · rw [hfill, Function.update_of_ne hjk]
      page := fun d' v' hv' => by
        by_cases hdv : d' = d ∧ v' = v
        · obtain ⟨rfl, rfl⟩ := hdv
          refine .move hp hu ?_ ?_ ?_ ?_ ?_ ?_ ?_ ?_
          all_goals rw [hself]
          · exact hswapped
          · exact Pte.toSlot_perm _ k
          · exact hk
          · exact hfree
          · rw [Pte.toSlot_ppn, hslot, Function.update_self]
          · rw [Pte.toSlot_ppn, hfill, Function.update_self]
          · rw [Pte.toSlot_ppn, hslot, Function.update_self]
            rfl
          · exact hpage
        · exact .same (hne d' v' hdv) fun _ => by rw [hmem] }
  · -- the frame had the page as its only use
    have huse : Uses h s (.page d v) (s.pte d v).ppn := ⟨hv, hp, rfl⟩
    have hr := hI.range_used _ _ huse
    exact {
      unused := fun o ho => (huses o _ ho).2 (hI.own.inj (huses o _ ho).1 huse)
      not_free := by rw [hlist]; exact hI.own.busy huse
      lo := by rw [hkend]; exact hr.1
      hi := hr.2 }

theorem pgdir_returns {d : Nat} {sp : Space} (hsp : s.space d = some sp) :
    (pgdir d).run s = .ok (sp, s) := by
  unfold pgdir
  simp only [Code.run_get_bind, hsp, Code.run_pure]

theorem walkpgdir_returns {d : Nat} {sp : Space} (hsp : s.space d = some sp) (v : Nat) :
    (walkpgdir d v).run s = .ok (sp.walk v, s) := by
  unfold walkpgdir
  rw [K.run, Code.run_bind_of_ok (pgdir_returns hsp), Code.run_pure]

/-- Page `v` of `d` is in slot `k`, which was free; the frame `pa` it was read from is as
before, and so is all else but the processor and the history. -/
structure MovedOut (d v pa k : Nat) (s t : Machine) : Prop where
  slot_lt : k < SWAP_SLOT_TOTAL
  slot_free : (s.slots k).is_free = true
  core : (t.kend, t.freelist, t.mem, t.proc, t.pipe) = (s.kend, s.freelist, s.mem, s.proc, s.pipe)
  global : (t.initproc, t.nextpid, t.cpu.proc) = (s.initproc, s.nextpid, s.cpu.proc)
  tuning : (t.threshold, t.npages_to_swap) = (s.threshold, s.npages_to_swap)
  space : t.space = (s.setPte d v ((s.pte d v).toSlot k)).space
  slots : t.slots = Function.update s.slots k ⟨(s.pte d v).flags, false⟩
  filled : t.hist.filled = Function.update s.hist.filled k (some (d, v))
  page : t.slotPage k = s.mem pa
  other : ∀ j, j ≠ k → t.slotPage j = s.slotPage j

/-- **`swapAndPageOut`** of a page in memory: it fails only for want of a slot. -/
theorem swapAndPageOut_moves {d v : Nat} {sp : Space} (hsp : s.space d = some sp) (pa : Nat)
    (hwalk : sp.walk v = some (s.pte d v)) (hp : (s.pte d v).present = true) :
    K.Returns (swapAndPageOut d v pa) s fun r t =>
      (r = false ∧ t = s ∧ ∀ k < SWAP_SLOT_TOTAL, (s.slots k).is_free = false) ∨
        (r = true ∧ ∃ k, MovedOut d v pa k s t) := by
  unfold swapAndPageOut
  refine (findFreeSlot_exact s).bind fun r t hr => ?_
  cases r with
  | none => exact Code.returns_pure.2 (Or.inl ⟨rfl, hr.1, hr.2⟩)
  | some k =>
    obtain ⟨hlt, hfree, rfl⟩ := hr
    refine Code.Returns.bind_run (walkpgdir_returns (s := s.takeSlot k) hsp v) ?_
    rw [hwalk]
    simp only [hp, if_true, Code.returns_modify_bind]
    refine (pageOutBlocks_spec _ _ _ _).bind fun _ t hpost => ?_
    obtain ⟨disk, ⟨c, rl, ht, hc⟩, hblocks, hother⟩ := hpost
    have ht' : t.space d = some sp := by rw [ht]; exact hsp
    refine Code.Returns.bind_run (pgdir_returns ht') ?_
    simp only [Code.returns_modify_bind, lcr3, Code.returns_pure]
    rw [← Machine.pte_of_space hsp]
    subst ht
    refine Or.inr ⟨trivial, k, ?_⟩
    exact {
      slot_lt := hlt
      slot_free := hfree
      core := by simp [Machine.takeSlot]
      global := by simpa [Machine.takeSlot] using hc
      tuning := by simp [Machine.takeSlot]
      space := by simp [Machine.takeSlot]
      slots := by
        funext j
        rcases eq_or_ne j k with rfl | hjk
        · simp [Machine.takeSlot]
        · simp [Machine.takeSlot, hjk]
      filled := by simp [Machine.takeSlot, History.start, History.finish]
      page := by
        refine slotPage_of_chunks fun i => ?_
        simpa [Machine.takeSlot] using hblocks i
      other := by
        refine fun j hj => slotPage_of_ne hj fun c hc => ?_
        simpa [Machine.takeSlot] using hother c hc }

/-- The walk finds a page in memory. -/
theorem Frames.walk_present {d v : Nat} {sp : Space} (hF : Frames h s) (hsp : s.space d = some sp)
    (hp : (s.pte d v).present = true) : sp.walk v = some (s.pte d v) := by
  rcases hF.walk_eq hsp v with ⟨-, hz⟩ | hw
  · exact absurd hz (Pte.present_ne_zero hp)
  · exact hw

/-- `swapAndPageOut` of a user page in memory. -/
theorem swapAndPageOut_spec {d v : Nat} (hI : Inv h s) (hd : (s.space d).isSome = true)
    (hv : v < UPAGES) (hp : (s.pte d v).present = true) (hu : (s.pte d v).user = true) :
    K.Returns (swapAndPageOut d v (s.pte d v).ppn) s fun r t =>
      Evicts h s t ∧ (r = true → Loose h t (s.pte d v).ppn) := by
  obtain ⟨sp, hsp⟩ := Option.isSome_iff_exists.1 hd
  refine (swapAndPageOut_moves hsp _ (hI.walk_present hsp hp) hp).mono fun r t hr => ?_
  rcases hr with ⟨rfl, rfl, -⟩ | ⟨rfl, k, hm⟩
  · exact ⟨.refl hI, fun hr => absurd hr Bool.false_ne_true⟩
  · have hpo := hI.pageOut hd hv hp hu hm.slot_lt hm.slot_free hm.core hm.global hm.space hm.slots
      hm.filled hm.page hm.other
    exact ⟨hpo.1, fun _ => hpo.2⟩

/-! ### Choosing a victim -/

/-- A process that `findVictimProc` picks has an address space. -/
theorem findVictimProc_live (hI : Inv h s) {q : Nat} (hq : findVictimProc s = some q) :
    (s.proc q).live := by
  -- `maxrss` grows from zero, so the victim so far is in use and its `rss` is not zero
  have key : ∀ (l : List Nat) (acc : Option Nat × BitVec 32),
      (∀ i, acc.1 = some i → (s.proc i).state ≠ .UNUSED ∧ (s.proc i).rss ≠ 0#32 ∧ acc.2 ≠ 0#32) →
      ∀ i, (l.foldl (victimStep s) acc).1 = some i →
        (s.proc i).state ≠ .UNUSED ∧ (s.proc i).rss ≠ 0#32 := by
    intro l
    induction l with
    | nil => exact fun acc hacc i hi => ⟨(hacc i hi).1, (hacc i hi).2.1⟩
    | cons j l ih =>
      intro acc hacc
      refine ih _ fun i hi => ?_
      unfold victimStep at hi ⊢
      simp only at hi ⊢
      split at hi
      · next hc =>
        rw [if_pos hc]
        cases hi
        obtain ⟨hst, -, hr | ⟨he, v, hv, -⟩⟩ := hc
        · have hne : (s.proc j).rss ≠ 0#32 := fun h0 => by rw [h0] at hr; exact absurd hr (by simp)
          exact ⟨hst, hne, hne⟩
        · have := (hacc v (by simpa using hv)).2.2
          rw [← he] at this
          exact ⟨hst, this, this⟩
      · next hc =>
        rw [if_neg hc]
        exact hacc i hi
  obtain ⟨hst, hr⟩ := key _ (none, 0#32) (fun i hi => by cases hi) q hq
  exact ⟨hst, fun he => hr (hI.embryo q he)⟩

/-- Clearing the accessed bits of a directory is no change for `Paged`. -/
theorem Inv.clearAccessed {d : Nat} {sp : Space} (hI : Inv h s) (hsp : s.space d = some sp) :
    Evicts h s (s.setSpace d (some sp.clearAccessed)) ∧
      ∀ v, ((s.setSpace d (some sp.clearAccessed)).pte d v) = sp.clearAccessed.pte v := by
  set t := s.setSpace d (some sp.clearAccessed) with ht
  have hself : ∀ v, t.pte d v = sp.clearAccessed.pte v := by
    intro v
    simp [ht, Machine.pte]
  have htab : ∀ d' i, t.tab d' i = s.tab d' i := by
    intro d' i
    rcases eq_or_ne d' d with rfl | hd
    · simp [ht, Machine.tab, hsp, Space.clearAccessed]
    · simp [ht, Machine.tab, hd]
  have hdirs : ∀ d', (t.space d').isSome = (s.space d').isSome := by
    intro d'
    rcases eq_or_ne d' d with rfl | hd
    · simp [ht, hsp]
    · simp [ht, hd]
  -- an entry either is the same or is a user page in memory that keeps its frame
  have hpte : ∀ d' v, t.pte d' v = s.pte d' v ∨
      (v < UPAGES ∧ (s.pte d' v).present = true ∧ t.pte d' v = (s.pte d' v).clearA) := by
    intro d' v
    rcases eq_or_ne d' d with rfl | hd
    · rw [hself, Machine.pte_of_space hsp]
      unfold Space.clearAccessed
      dsimp only
      split
      · next hc => exact Or.inr ⟨hc.1, (Space.userPage_iff.1 hc.2).2.1, rfl⟩
      · exact Or.inl rfl
    · exact Or.inl (by simp [ht, Machine.pte, hd])
  have hpres : ∀ d' v, (t.pte d' v).present = (s.pte d' v).present ∧
      (t.pte d' v).ppn = (s.pte d' v).ppn ∧ (t.pte d' v).perm = (s.pte d' v).perm := by
    intro d' v
    rcases hpte d' v with he | ⟨-, -, he⟩ <;> rw [he] <;> simp
  have hout : ∀ d' v, (s.pte d' v).present = false → t.pte d' v = s.pte d' v := by
    intro d' v hn
    rcases hpte d' v with he | ⟨-, hp, -⟩
    · exact he
    · rw [hn] at hp; cases hp
  have huses : ∀ o f, Uses h t o f → Uses h s o f := by
    rintro (⟨d', v'⟩ | ⟨d', i⟩ | d' | p | i | g) f hf
    · obtain ⟨h1, h2, -⟩ := hpres d' v'
      simp only [Uses, h1, h2] at hf
      exact hf
    · rw [Uses, ← htab]; exact hf
    · rw [Uses, ← hdirs]; exact hf
    all_goals exact hf
  refine ⟨⟨?_, ?_⟩, hself⟩
  · refine { hI with
      own := hI.own.mono huses fun _ hf => hf
      range_used := fun o f hf => hI.range_used o f (huses o f hf)
      tab_zero := fun d' v hn => ?_
      slot_own := hI.slot_own.mono ?_ fun _ hk => hk
      slot_range := ?_
      dir := fun p hp => by rw [hdirs]; exact hI.dir p hp }
    · rw [htab] at hn
      have hz := hI.tab_zero d' v hn
      rw [hout d' v (by rw [hz]; rfl), hz]
    all_goals
      rintro ⟨d', v'⟩ k ⟨hz, hv', hs, hk⟩
      have hn := (Pte.swapped_iff.1 hs).1
      rw [(hpres d' v').1] at hn
      rw [hout d' v' hn] at hs hk
    · exact ⟨hz, hv', hs, hk⟩
    · exact hI.slot_range (d', v') k ⟨hz, hv', hs, hk⟩
  · refine { Paged.refl h s with
      dirs := hdirs
      tab := htab
      kern := fun d' v hv => ?_
      slot := fun _ _ => ⟨rfl, rfl, rfl⟩
      page := fun d' v hv => ?_ }
    · rcases hpte d' v with he | ⟨hlt, -⟩
      · exact he
      · omega
    · obtain ⟨h1, h2, h3⟩ := hpres d' v
      cases hp : (s.pte d' v).present
      · exact .out hp (hout d' v hp)
      · exact .stay hp (by rw [h1, hp]) h2 h3 rfl

/-- A page found by one of the scans of `findVictimPage`. -/
theorem find_page {p : Nat → Bool} {n v : Nat} (hf : (List.range' 0 n).find? p = some v) :
    v < n ∧ p v = true := by
  have hm := List.mem_of_find?_eq_some hf
  simp only [List.mem_range'_1] at hm
  exact ⟨by omega, List.find?_some hf⟩

/-- `findVictimPage` returns a user page in memory and its frame. -/
theorem findVictimPage_spec {d : Nat} (hI : Inv h s) (hd : (s.space d).isSome = true) :
    K.Returns (findVictimPage d) s fun r t => Evicts h s t ∧ ∀ v pa, r = some (v, pa) →
      v < UPAGES ∧ (t.pte d v).present = true ∧ (t.pte d v).user = true ∧ (t.pte d v).ppn = pa := by
  obtain ⟨sp, hsp⟩ := Option.isSome_iff_exists.1 hd
  unfold findVictimPage
  refine Code.Returns.bind_run (pgdir_returns hsp) ?_
  split
  · next v hv =>
    obtain ⟨hlt, hu⟩ := find_page hv
    simp only [Space.unaccessed, Bool.and_eq_true] at hu
    obtain ⟨-, hp, hu⟩ := Space.userPage_iff.1 hu.1
    refine Code.returns_pure.2 ⟨.refl hI, fun v' pa hr => ?_⟩
    cases hr
    rw [Machine.pte_of_space hsp]
    exact ⟨hlt, hp, hu, rfl⟩
  · obtain ⟨hev, hpte⟩ := hI.clearAccessed hsp
    simp only [Code.returns_modify_bind]
    refine (lcr3_spec d _).bind fun _ t hq => ?_
    split
    · next v hv =>
      obtain ⟨hlt, hu⟩ := find_page hv
      obtain ⟨-, hp, hu⟩ := Space.userPage_iff.1 hu
      refine Code.returns_pure.2 ⟨hev.trans (hq.evicts hev.1), fun v' pa hr => ?_⟩
      cases hr
      rw [hq.pte, hpte v]
      exact ⟨hlt, hp, hu, rfl⟩
    · exact Code.returns_pure.2 ⟨hev.trans (hq.evicts hev.1), fun v' pa hr => by cases hr⟩

/-! ### The loop of `swapOutPages` -/

/-- Counting pages off or on a process. -/
theorem Inv.setRss {q : Nat} {g : Proc → BitVec 32} (hI : Inv h s) (hq : (s.proc q).live) :
    Evicts h s (s.setProc q fun p => { p with rss := g p }) := by
  have hproc : ∀ p, ∃ r', (s.setProc q fun p => { p with rss := g p }).proc p =
      { s.proc p with rss := r' } := by
    intro p
    rcases eq_or_ne p q with rfl | hp
    · exact ⟨g (s.proc p), by simp⟩
    · exact ⟨(s.proc p).rss, by simp [hp]⟩
  have hP : Paged h s (s.setProc q fun p => { p with rss := g p }) := {
    Paged.refl h s with
    proc := hproc
    slot := fun _ _ => ⟨rfl, rfl, rfl⟩
    page := fun _ _ _ => .same rfl fun _ => rfl }
  refine ⟨?_, hP⟩
  have hks : ∀ p, ((s.setProc q fun p => { p with rss := g p }).proc p).kstack = (s.proc p).kstack := by
    intro p
    obtain ⟨r', hr⟩ := hproc p
    rw [hr]
  have huses : ∀ o f, Uses h (s.setProc q fun p => { p with rss := g p }) o f → Uses h s o f := by
    rintro (_ | _ | _ | p | _ | _) f hf
    case kstack => simpa only [Uses, hks] using hf
    all_goals exact hf
  have hslots : ∀ o k, SlotUses (s.setProc q fun p => { p with rss := g p }) o k → SlotUses s o k :=
    fun o k hk => ⟨fun hz => hk.1 ((hP.zombie o.1).2 hz), hk.2⟩
  exact { hI with
    own := hI.own.mono huses fun _ hf => hf
    range_used := fun o f hf => hI.range_used o f (huses o f hf)
    slot_own := hI.slot_own.mono hslots fun _ hk => hk
    slot_range := fun o k hk => hI.slot_range o k (hslots o k hk)
    dir := fun p hp => by
      rw [hP.pgdir, hP.dirs]
      exact hI.dir p ((hP.live p).1 hp)
    size := fun p hp => by
      obtain ⟨r', hr⟩ := hproc p
      rw [hr]
      exact hI.size p ((hP.live p).1 hp)
    dir_inj := fun p p' hp hp' he => by
      rw [hP.pgdir, hP.pgdir] at he
      exact hI.dir_inj p p' ((hP.live p).1 hp) ((hP.live p').1 hp') he
    embryo := fun p hp => by
      rcases eq_or_ne p q with rfl | hpq
      · rw [hP.state] at hp
        exact absurd hp hq.2
      · have := hI.embryo p (by rwa [hP.state] at hp)
        simpa [hpq] using this }

/-- A loose frame stays loose when a process only counts a page off. -/
theorem Loose.setRss {q f : Nat} {g : Proc → BitVec 32} (hf : Loose h s f) :
    Loose h (s.setProc q fun p => { p with rss := g p }) f where
  unused o ho := by
    refine hf.unused o ?_
    rcases o with _ | _ | _ | p | _ | _
    case kstack =>
      rcases eq_or_ne p q with rfl | hp
      · simpa [Uses] using ho
      · simpa [Uses, hp] using ho
    all_goals exact ho
  not_free := hf.not_free
  lo := hf.lo
  hi := hf.hi

/-- **The loop of `swapOutPages`.** -/
theorem swapLoop_spec (q n attempts swapped : Nat) (hI : Inv h s) (hq : (s.proc q).live) :
    K.Returns (swapLoop q n attempts swapped) s fun _ t => Evicts h s t := by
  induction attempts generalizing s swapped with
  | zero => exact Code.returns_pure.2 (.refl hI)
  | succ attempts ih =>
    unfold swapLoop
    split
    · simp only [Code.returns_get_bind]
      refine (findVictimPage_spec hI (hI.dir q hq)).bind fun r t hpost => ?_
      obtain ⟨hst, hr⟩ := hpost
      have hd : (t.space (s.proc q).pgdir).isSome = true := by
        rw [hst.2.dirs]
        exact hI.dir q hq
      cases r with
      | none => exact Code.returns_pure.2 hst
      | some vp =>
        obtain ⟨v, pa⟩ := vp
        obtain ⟨hv, hp, hu, rfl⟩ := hr v pa rfl
        simp only
        split
        · exact Code.returns_pure.2 hst
        · refine (swapAndPageOut_spec hst.1 hd hv hp hu).bind fun b u hpost => ?_
          obtain ⟨htu, hl⟩ := hpost
          have hsu := hst.trans htu
          have hqu : (u.proc q).live := (hsu.2.live q).2 hq
          cases b with
          | false => exact (ih swapped hsu.1 hqu).mono fun _ _ h' => hsu.trans h'
          | true =>
            simp only [if_true, Code.returns_modify_bind]
            have hset := htu.1.setRss (g := fun p => p.rss - 1) hqu
            refine (kfree_spec hset.1 (hl rfl).setRss).bind fun _ w hk => ?_
            have hsw := hsu.trans (hset.trans hk)
            exact (ih (swapped + 1) hsw.1 ((hsw.2.live q).2 hq)).mono fun _ _ h' => hsw.trans h'
    · exact Code.returns_pure.2 (.refl hI)

theorem swapOutPages_spec (hI : Inv h s) :
    K.Returns swapOutPages s fun _ t => Evicts h s t := by
  unfold swapOutPages
  simp only [Code.returns_get_bind]
  split
  · exact Code.returns_pure.2 (.refl hI)
  · next q hq => exact swapLoop_spec _ _ _ _ hI (findVictimProc_live hI hq)

/-! ## Allocation -/

theorem checkAndSwap_spec (hI : Inv h s) :
    K.Returns checkAndSwap s fun _ t => Evicts h s t := by
  unfold checkAndSwap
  refine Code.Returns.bind_run (a := s.freelist.length) (t := s) rfl ?_
  rw [Code.returns_get_bind]
  split
  · exact Code.returns_pure.2 (.refl hI)
  · refine (swapOutPages_spec hI).bind fun _ t hst => ?_
    exact (Code.returns_modify _).2
      (hst.trans ⟨hst.1.congr rfl, .of_core rfl rfl rfl rfl rfl fun _ _ => ⟨rfl, rfl⟩⟩)

theorem swapIfEmpty_spec (hI : Inv h s) :
    K.Returns swapIfEmpty s fun _ t => Evicts h s t := by
  unfold swapIfEmpty
  simp only [Code.returns_get_bind]
  split
  · exact checkAndSwap_spec hI
  · exact Code.returns_pure.2 (.refl hI)

/-- The outcome of an allocation: on success the caller holds one more frame. -/
def Allocs (h : Set Nat) (s : Machine) : Option Nat → Machine → Prop
  | none, t => Evicts h s t
  | some f, t => Inv (insert f h) t ∧ Paged h s t ∧ f ∉ h ∧ t.mem f = memset 5

theorem Allocs.paged {r : Option Nat} (ha : Allocs h s r t) : Paged h s t := by
  cases r with
  | none => exact ha.2
  | some f => exact ha.2.1

theorem Allocs.after {r : Option Nat} (hst : Evicts h s t) (ha : Allocs h t r u) :
    Allocs h s r u := by
  cases r with
  | none => exact hst.trans ha
  | some f => exact ⟨ha.1, hst.2.trans ha.2.1, ha.2.2⟩

theorem popFrame_spec (hI : Inv h s) : K.Returns popFrame s (Allocs h s) := by
  unfold popFrame
  simp only [Code.returns_get_bind]
  split
  · exact Code.returns_pure.2 (.refl hI)
  · next f rest hl =>
    simp only [Code.returns_modify_bind, Code.returns_pure]
    have hfree : f ∈ s.freelist := by rw [hl]; exact List.mem_cons_self
    have hnd := hI.nodup
    rw [hl, List.nodup_cons] at hnd
    have hrest : ∀ g ∈ rest, g ∈ s.freelist ∧ g ≠ f := fun g hg =>
      ⟨by rw [hl]; exact List.mem_cons_of_mem f hg, fun he => hnd.1 (he ▸ hg)⟩
    have hnot : ∀ o, ¬ Uses h s o f := fun o ho => hI.own.busy ho hfree
    have hfh : f ∉ h := fun hm => hnot (.held f) ⟨hm, rfl⟩
    have huses : ∀ o g, Uses (insert f h) ((s.setMem f (memset 5)).setFree rest) o g →
        (o = .held f ∧ g = f) ∨ Uses h s o g := by
      rintro (_ | _ | _ | _ | _ | o) g hg
      case held =>
        obtain ⟨hm, rfl⟩ := hg
        rcases Set.mem_insert_iff.1 hm with rfl | hm
        · exact Or.inl ⟨rfl, rfl⟩
        · exact Or.inr ⟨hm, rfl⟩
      all_goals exact Or.inr hg
    refine ⟨?_, ?_, hfh, by simp⟩
    · exact { hI with
        own := hI.own.take (o := .held f) hfree huses hrest
        nodup := hnd.2
        range_free := fun g hg => hI.range_free g (hrest g hg).1
        range_used := fun o g hg => by
          rcases huses o g hg with ⟨-, rfl⟩ | hg
          · exact hI.range_free g hfree
          · exact hI.range_used o g hg }
    · exact { Paged.refl h s with
        held := fun g hg => by
          have hne : g ≠ f := fun he => hfh (he ▸ hg)
          simp [hne]
        slot := fun _ _ => ⟨rfl, rfl, rfl⟩
        page := fun d v hv => .same rfl fun hp => by
          have hne : (s.pte d v).ppn ≠ f := fun he => hnot (.page d v) ⟨hv, hp, he⟩
          simp [hne] }

/-- **`kalloc`** returns, and either fails or hands the caller a frame. -/
theorem kalloc_spec (hI : Inv h s) : K.Returns kalloc s (Allocs h s) := by
  unfold kalloc
  rw [K.Returns, Code.returns_get_bind]
  split
  · refine (checkAndSwap_spec hI).bind fun _ t hst => ?_
    refine (swapIfEmpty_spec hst.1).bind fun _ u htu => ?_
    have hsu := hst.trans htu
    exact (popFrame_spec hsu.1).mono fun _ _ ha => ha.after hsu
  · exact popFrame_spec hI

theorem kallocRetry_spec (n : Nat) (hI : Inv h s) : K.Returns (kallocRetry n) s (Allocs h s) := by
  induction n generalizing s with
  | zero => exact kalloc_spec hI
  | succ n ih =>
    refine (kalloc_spec hI).bind fun r t ha => ?_
    cases r with
    | some f => exact Code.returns_pure.2 ha
    | none =>
      refine (checkAndSwap_spec ha.1).bind fun _ u htu => ?_
      have hsu := Evicts.trans ha htu
      exact (ih hsu.1).mono fun _ _ ha => ha.after hsu

/-- Evictions, and then a free slot for the caller, if there is one. -/
def TakesSlot (h : Set Nat) (s : Machine) (r : Option Nat) (t : Machine) : Prop :=
  ∃ u, Evicts h s u ∧ match r with
    | none => t = u
    | some k => k < SWAP_SLOT_TOTAL ∧ (u.slots k).is_free = true ∧ t = u.takeSlot k

theorem findFreeSlotRetry_spec (n : Nat) (hI : Inv h s) :
    K.Returns (findFreeSlotRetry n) s (TakesSlot h s) := by
  induction n generalizing s with
  | zero => exact (findFreeSlot_spec s).mono fun r t hr => ⟨s, .refl hI, hr⟩
  | succ n ih =>
    refine (findFreeSlot_spec s).bind fun r t hr => ?_
    cases r with
    | some f => exact Code.returns_pure.2 ⟨s, .refl hI, hr⟩
    | none =>
      subst hr
      refine (checkAndSwap_spec hI).bind fun _ u htu => ?_
      refine (ih htu.1).mono fun r w hpost => ?_
      obtain ⟨x, hx, hr⟩ := hpost
      exact ⟨x, htu.trans hx, hr⟩

end Xv6.Swap
