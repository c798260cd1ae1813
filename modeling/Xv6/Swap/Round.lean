/-
One round of evictions, exactly.

`Evicted q d L s t` says that between `s` and `t` the pages `L` of directory `d`, each
with the slot it went to, have left memory on account of process `q`, and that nothing
else has happened but that accessed bits of `d` were cleared. It holds at the start of
the loop of `swapOutPages` with no page, each turn of the loop keeps it and adds at most
one page, and the loop ends when `n` pages are out, when the directory has no page left
or when no slot is left. The number of pages follows from that alone: they are different
pages of `d` in different free slots.
-/
import Xv6.Swap.Victim

set_option autoImplicit false

namespace Xv6.Swap

open Xv6.Lib

variable {h : Set Nat} {s t u : Machine} {q d : Nat} {L : List (Nat × Nat)}

/-! ## Pages in memory and free slots -/

/-- Page `v` of directory `d` is a user page in memory. -/
def Resident (s : Machine) (d v : Nat) : Prop :=
  v < UPAGES ∧ (s.pte d v).present = true ∧ (s.pte d v).user = true

instance (s : Machine) (d v : Nat) : Decidable (Resident s d v) :=
  inferInstanceAs (Decidable (_ ∧ _ ∧ _))

/-- The user pages of a directory that are in memory. -/
def residentPages (s : Machine) (d : Nat) : Finset Nat := (Finset.range UPAGES).filter (Resident s d)

/-- The free swap slots. -/
def freeSlots (s : Machine) : Finset Nat :=
  (Finset.range SWAP_SLOT_TOTAL).filter fun k => (s.slots k).is_free = true

theorem mem_residentPages {v : Nat} : v ∈ residentPages s d ↔ Resident s d v := by
  unfold residentPages
  rw [Finset.mem_filter, Finset.mem_range]
  exact ⟨fun hv => hv.2, fun hv => ⟨hv.1, hv⟩⟩

theorem mem_freeSlots {k : Nat} :
    k ∈ freeSlots s ↔ k < SWAP_SLOT_TOTAL ∧ (s.slots k).is_free = true := by
  unfold freeSlots
  rw [Finset.mem_filter, Finset.mem_range]

/-- With the page tables in order, a user page in memory is one that the scans find. -/
theorem resident_iff {sp : Space} {v : Nat} (hF : Frames h s) (hsp : s.space d = some sp) :
    Resident s d v ↔ v < UPAGES ∧ sp.userPage v = true := by
  unfold Resident
  rw [Space.userPage_iff, Machine.pte_of_space hsp]
  refine and_congr_right fun _ => ⟨fun hp => ⟨?_, hp⟩, fun hp => hp.2⟩
  rw [← Machine.tab_of_space hsp]
  refine hF.tab_isSome (Pte.present_ne_zero ?_)
  rw [Machine.pte_of_space hsp]
  exact hp.1

/-! ## A page that goes -/

/-- `w` is `s` after page `v` of `d` went to slot `k`, on account of process `q`, and its
frame to the free list. -/
structure Gone (q d v k : Nat) (s w : Machine) : Prop where
  space : w.space = (s.setPte d v ((s.pte d v).toSlot k)).space
  slots : w.slots = Function.update s.slots k ⟨(s.pte d v).flags, false⟩
  freelist : w.freelist = (s.pte d v).ppn :: s.freelist
  mem : ∀ g, w.mem g = if g = (s.pte d v).ppn then freePage s.freelist.head? else s.mem g
  proc : ∀ p, w.proc p =
    if p = q then { s.proc q with rss := (s.proc q).rss - 1 } else s.proc p
  tuning : (w.threshold, w.npages_to_swap) = (s.threshold, s.npages_to_swap)

/-- `swapAndPageOut`, the counter of the victim and `kfree`. -/
theorem MovedOut.gone {v k f : Nat} (hf : (s.pte d v).ppn = f) (hm : MovedOut d v f k s t) :
    Gone q d v k s ((t.setProc q fun p => { p with rss := p.rss - 1 }).kfreed f) := by
  have hcore := hm.core
  simp only [Prod.mk.injEq] at hcore
  obtain ⟨-, hlist, hmem, hproc, -⟩ := hcore
  set w := (t.setProc q fun p => { p with rss := p.rss - 1 }).kfreed f with hw
  have hwlist : w.freelist = f :: t.freelist := rfl
  have hwmem : w.mem = Function.update t.mem f (freePage t.freelist.head?) := rfl
  have hwproc : w.proc = Function.update t.proc q { t.proc q with rss := (t.proc q).rss - 1 } := rfl
  exact {
    space := hm.space
    slots := hm.slots
    freelist := by rw [hwlist, hlist, hf]
    mem := fun g => by
      rw [hwmem, hmem, hlist, hf]
      by_cases hg : g = f
      · rw [hg, Function.update_self, if_pos rfl]
      · rw [Function.update_of_ne hg, if_neg hg]
    proc := fun p => by
      rw [hwproc, hproc]
      by_cases hp : p = q
      · rw [hp, Function.update_self, if_pos rfl]
      · rw [Function.update_of_ne hp, if_neg hp]
    tuning := hm.tuning }

theorem Gone.pte {v k : Nat} (hg : Gone q d v k s t) (hd : (s.space d).isSome = true) (d' v' : Nat) :
    t.pte d' v' = if d' = d ∧ v' = v then (s.pte d v).toSlot k else s.pte d' v' := by
  rw [← Machine.setPte_pte hd]
  simp only [Machine.pte, hg.space]

/-! ## The accessed bit aside -/

theorem Pte.clearA_eq {e e' : Pte} :
    e.clearA = e'.clearA ↔ e.ppn = e'.ppn ∧ e.flags &&& ~~~PTE_A = e'.flags &&& ~~~PTE_A := by
  unfold Pte.clearA
  rw [Pte.mk.injEq]

theorem Pte.clearA_clearA (e : Pte) : e.clearA.clearA = e.clearA := by
  unfold Pte.clearA
  rw [Pte.mk.injEq]
  refine ⟨rfl, ?_⟩
  rw [BitVec.and_assoc, BitVec.and_self]

theorem Pte.present_of_clearA {e e' : Pte} (he : e.clearA = e'.clearA) : e.present = e'.present := by
  rw [← Pte.clearA_present e, he, Pte.clearA_present]

theorem Pte.user_of_clearA {e e' : Pte} (he : e.clearA = e'.clearA) : e.user = e'.user := by
  rw [← Pte.clearA_user e, he, Pte.clearA_user]

theorem Pte.toSlot_clearA {e e' : Pte} (k : Nat) (he : e.clearA = e'.clearA) :
    (e.toSlot k).clearA = (e'.toSlot k).clearA := by
  rw [Pte.clearA_eq] at he ⊢
  refine ⟨rfl, ?_⟩
  unfold Pte.toSlot
  dsimp only
  rw [BitVec.and_assoc, BitVec.and_comm (~~~PTE_P), ← BitVec.and_assoc, he.2, BitVec.and_assoc,
    BitVec.and_comm (~~~PTE_A), ← BitVec.and_assoc]

/-- Only accessed bits of user pages of `d` in memory have changed. -/
structure Touched (d : Nat) (s t : Machine) : Prop where
  rest : t.rest = s.rest
  bits : ∀ v, (t.pte d v).clearA = (s.pte d v).clearA
  entry : ∀ v, ¬Resident s d v → t.pte d v = s.pte d v
  tab : ∀ i, t.tab d i = s.tab d i
  dir : (t.space d).isSome = (s.space d).isSome
  space : ∀ d', d' ≠ d → t.space d' = s.space d'

theorem Touched.refl (d : Nat) (s : Machine) : Touched d s s where
  rest := rfl
  bits _ := rfl
  entry _ _ := rfl
  tab _ := rfl
  dir := rfl
  space _ _ := rfl

theorem Touched.resident (ht : Touched d s t) (v : Nat) : Resident t d v ↔ Resident s d v := by
  unfold Resident
  rw [Pte.present_of_clearA (ht.bits v), Pte.user_of_clearA (ht.bits v)]

theorem Cleared.touched {sp sp' : Space} (hsp : s.space d = some sp) (hc : Cleared s t d sp sp') :
    Touched d s t := by
  have hself : t.space d = some sp' := by rw [hc.space, Function.update_self]
  have hpte : ∀ v, t.pte d v = sp'.pte v := Machine.pte_of_space hself
  refine ⟨hc.rest, fun v => ?_, fun v hv => ?_, fun i => ?_, ?_, fun d' hd => ?_⟩
  · rw [hpte, Machine.pte_of_space hsp]
    by_cases hv : v < UPAGES ∧ sp.userPage v = true
    · rw [hc.page v hv.1 hv.2, Pte.clearA_clearA]
    · rw [hc.other v hv]
  · rw [hpte, Machine.pte_of_space hsp]
    refine hc.other v fun hu => hv ?_
    unfold Resident
    rw [Machine.pte_of_space hsp]
    exact ⟨hu.1, (Space.userPage_iff.1 hu.2).2⟩
  · rw [Machine.tab_of_space hself, Machine.tab_of_space hsp, hc.tab]
  · rw [hself, hsp]
    rfl
  · rw [hc.space, Function.update_of_ne hd]

/-- What `findVictimPage` finds, and what it does to the accessed bits. -/
theorem VictimPage.found {sp : Space} {r : Option (Nat × Nat)} (hsp : s.space d = some sp)
    (hV : VictimPage s d sp r t) : Touched d s t ∧
      ((pageFrame r = 0 ∧ ∀ v < UPAGES, sp.userPage v = false) ∨
        ∃ v, r = some (v, (sp.pte v).ppn) ∧ v < UPAGES ∧ sp.userPage v = true) := by
  cases h1 : (List.range' 0 UPAGES).find? sp.unaccessed with
  | some v =>
    have hlow := find_lowest.1 h1
    obtain ⟨hr, rfl⟩ := hV.unaccessed v hlow
    exact ⟨.refl d t, Or.inr ⟨v, hr, hlow.1, unaccessed_userPage hlow.2.1⟩⟩
  | none =>
    obtain ⟨⟨sp', hc⟩, hlow⟩ := hV.accessed (find_none.1 h1)
    refine ⟨hc.touched hsp, ?_⟩
    cases h2 : (List.range' 0 UPAGES).find? sp.userPage with
    | some v =>
      have hv := find_lowest.1 h2
      exact Or.inr ⟨v, hlow v hv, hv.1, hv.2.1⟩
    | none => exact Or.inl ⟨hV.zero.2 (find_none.1 h2), find_none.1 h2⟩

/-! ## The pages that have left -/

/-- The frame each page of `L` had. -/
def framesOf (s : Machine) (d : Nat) (L : List (Nat × Nat)) : List Nat :=
  L.map fun x => (s.pte d x.1).ppn

structure Evicted (q d : Nat) (L : List (Nat × Nat)) (s t : Machine) : Prop where
  pages : (L.map Prod.fst).Nodup
  slots : (L.map Prod.snd).Nodup
  resident : ∀ x ∈ L, Resident s d x.1
  free : ∀ x ∈ L, x.2 < SWAP_SLOT_TOTAL ∧ (s.slots x.2).is_free = true
  /-- The entry names the slot and has the flags it had without `PTE_P`. -/
  entry : ∀ x ∈ L, (t.pte d x.1).clearA = ((s.pte d x.1).toSlot x.2).clearA
  used : ∀ x ∈ L, (t.slots x.2).is_free = false
  recorded : ∀ x ∈ L, (t.slots x.2).page_perm &&& ~~~PTE_A = (s.pte d x.1).flags &&& ~~~PTE_A
  data : ∀ x ∈ L, t.slotPage x.2 = s.mem (s.pte d x.1).ppn
  freelist : t.freelist = framesOf s d L ++ s.freelist
  mem : ∀ f ∉ framesOf s d L, t.mem f = s.mem f
  kept : ∀ v ∉ L.map Prod.fst, (t.pte d v).clearA = (s.pte d v).clearA
  absent : ∀ v, ¬Resident s d v → t.pte d v = s.pte d v
  slot : ∀ k ∉ L.map Prod.snd, t.slots k = s.slots k ∧ t.slotPage k = s.slotPage k
  tab : ∀ i, t.tab d i = s.tab d i
  dir : (t.space d).isSome = (s.space d).isSome
  space : ∀ d', d' ≠ d → t.space d' = s.space d'
  proc : ∀ p, t.proc p = if p = q then
    { s.proc p with rss := (s.proc p).rss - BitVec.ofNat 32 L.length } else s.proc p
  rest : (t.kend, t.pipe, t.initproc, t.nextpid, t.cpu.proc) =
    (s.kend, s.pipe, s.initproc, s.nextpid, s.cpu.proc)

namespace Evicted

theorem refl (q d : Nat) (s : Machine) : Evicted q d [] s s where
  pages := List.nodup_nil
  slots := List.nodup_nil
  resident x hx := absurd hx List.not_mem_nil
  free x hx := absurd hx List.not_mem_nil
  entry x hx := absurd hx List.not_mem_nil
  used x hx := absurd hx List.not_mem_nil
  recorded x hx := absurd hx List.not_mem_nil
  data x hx := absurd hx List.not_mem_nil
  freelist := rfl
  mem _ _ := rfl
  kept _ _ := rfl
  absent _ _ := rfl
  slot _ _ := ⟨rfl, rfl⟩
  tab _ := rfl
  dir := rfl
  space _ _ := rfl
  proc p := by
    split
    · rw [List.length_nil, BitVec.sub_zero]
    · rfl
  rest := rfl

/-- A page that has left is not in memory. -/
theorem gone (hE : Evicted q d L s t) {v : Nat} (hv : v ∈ L.map Prod.fst) :
    (t.pte d v).present = false := by
  obtain ⟨x, hx, rfl⟩ := List.mem_map.1 hv
  rw [Pte.present_of_clearA (hE.entry x hx), Pte.toSlot_present]

/-- The pages in memory are those that were and have not left. -/
theorem resident_iff (hE : Evicted q d L s t) (v : Nat) :
    Resident t d v ↔ Resident s d v ∧ v ∉ L.map Prod.fst := by
  by_cases hv : v ∈ L.map Prod.fst
  · refine iff_of_false (fun hr => ?_) fun hr => hr.2 hv
    have hp := hr.2.1
    rw [hE.gone hv] at hp
    cases hp
  · unfold Resident
    rw [Pte.present_of_clearA (hE.kept v hv), Pte.user_of_clearA (hE.kept v hv)]
    exact ⟨fun hr => ⟨hr, hv⟩, fun hr => hr.1⟩

/-- The free slots are those that were and have not been filled. -/
theorem free_iff (hE : Evicted q d L s t) (k : Nat) : (t.slots k).is_free = true ↔
    (s.slots k).is_free = true ∧ k ∉ L.map Prod.snd := by
  by_cases hk : k ∈ L.map Prod.snd
  · obtain ⟨x, hx, rfl⟩ := List.mem_map.1 hk
    rw [hE.used x hx]
    exact iff_of_false Bool.false_ne_true fun hf => hf.2 hk
  · rw [(hE.slot k hk).1]
    exact ⟨fun hf => ⟨hf, hk⟩, fun hf => hf.1⟩

theorem pgdir (hE : Evicted q d L s t) (p : Nat) : (t.proc p).pgdir = (s.proc p).pgdir := by
  rw [hE.proc]
  split <;> rfl

theorem touch (hE : Evicted q d L s t) (ht : Touched d t u) : Evicted q d L s u := by
  have hrest := ht.rest
  simp only [Machine.rest, Prod.mk.injEq] at hrest
  obtain ⟨⟨hkend, hlist, hmem, hslots, hdisk⟩, hproc, hpipe, -, -, hinit, hnext, hcur⟩ := hrest
  have hpage : ∀ k, u.slotPage k = t.slotPage k := fun k => by
    unfold Machine.slotPage
    rw [hdisk]
  exact {
    pages := hE.pages
    slots := hE.slots
    resident := hE.resident
    free := hE.free
    entry := fun x hx => (ht.bits x.1).trans (hE.entry x hx)
    used := fun x hx => by rw [hslots, hE.used x hx]
    recorded := fun x hx => by rw [hslots, hE.recorded x hx]
    data := fun x hx => by rw [hpage, hE.data x hx]
    freelist := hlist.trans hE.freelist
    mem := fun f hf => by rw [hmem, hE.mem f hf]
    kept := fun v hv => (ht.bits v).trans (hE.kept v hv)
    absent := fun v hv => by
      rw [ht.entry v fun hr => hv ((hE.resident_iff v).1 hr).1, hE.absent v hv]
    slot := fun k hk => by rw [hslots, hpage]; exact hE.slot k hk
    tab := fun i => (ht.tab i).trans (hE.tab i)
    dir := ht.dir.trans hE.dir
    space := fun d' hd => (ht.space d' hd).trans (hE.space d' hd)
    proc := fun p => by rw [hproc, hE.proc]
    rest := by rw [hkend, hpipe, hinit, hnext, hcur, hE.rest] }

/-- **One page more.** Page `v` of `d` goes to slot `k`, the victim counts it off and its
frame `f` goes to the free list. -/
theorem out {v k f : Nat} (hE : Evicted q d L s t) (hI : Inv h s) (hv : Resident t d v)
    (hd : (t.space d).isSome = true) (hf : (t.pte d v).ppn = f) (hm : MovedOut d v f k t u) :
    Evicted q d ((v, k) :: L) s
      ((u.setProc q fun p => { p with rss := p.rss - 1 }).kfreed f) := by
  obtain ⟨hvs, hvL⟩ := (hE.resident_iff v).1 hv
  have hkfree := (hE.free_iff k).1 hm.slot_free
  have hA := hE.kept v hvL
  obtain ⟨hppn, hflags⟩ := Pte.clearA_eq.1 hA
  have hcore := hm.core
  simp only [Prod.mk.injEq] at hcore
  obtain ⟨hkend, -, -, -, hpipe⟩ := hcore
  have hglobal := hm.global
  simp only [Prod.mk.injEq] at hglobal
  obtain ⟨hinit, hnext, hcur⟩ := hglobal
  have hrest := hE.rest
  simp only [Prod.mk.injEq] at hrest
  obtain ⟨rkend, rpipe, rinit, rnext, rcur⟩ := hrest
  set w := (u.setProc q fun p => { p with rss := p.rss - 1 }).kfreed f with hw
  have hg : Gone q d v k t w := hm.gone hf
  have hne : ∀ v', v' ≠ v → w.pte d v' = t.pte d v' := fun v' hn => by
    rw [hg.pte hd, if_neg fun hx => hn hx.2]
  have hself : w.pte d v = (t.pte d v).toSlot k := by rw [hg.pte hd, if_pos ⟨rfl, rfl⟩]
  have hsame : ∀ j, j ≠ k → w.slots j = t.slots j ∧ w.slotPage j = t.slotPage j := fun j hj =>
    ⟨by rw [hg.slots, Function.update_of_ne hj], hm.other j hj⟩
  have hfs : f = (s.pte d v).ppn := by rw [← hf, hppn]
  -- a page that left earlier had another frame and went to another slot
  have hfL : f ∉ framesOf s d L := by
    intro hx
    obtain ⟨x, hx, hfx⟩ := List.mem_map.1 hx
    have hr := hE.resident x hx
    have h1 : Uses h s (.page d x.1) f := ⟨hr.1, hr.2.1, hfx⟩
    have h2 : Uses h s (.page d v) f := ⟨hvs.1, hvs.2.1, hfs.symm⟩
    have he := hI.own.inj h1 h2
    obtain ⟨-, he⟩ := Owner.page.inj he
    exact hvL (he ▸ List.mem_map_of_mem hx)
  have hold : ∀ x ∈ L, x.1 ≠ v ∧ x.2 ≠ k := fun x hx =>
    ⟨fun he => hvL (he ▸ List.mem_map_of_mem hx), fun he => hkfree.2 (he ▸ List.mem_map_of_mem hx)⟩
  exact {
    pages := List.nodup_cons.2 ⟨hvL, hE.pages⟩
    slots := List.nodup_cons.2 ⟨hkfree.2, hE.slots⟩
    resident := List.forall_mem_cons.2 ⟨hvs, hE.resident⟩
    free := List.forall_mem_cons.2 ⟨⟨hm.slot_lt, hkfree.1⟩, hE.free⟩
    entry := by
      refine List.forall_mem_cons.2 ⟨?_, fun x hx => ?_⟩
      · rw [hself]
        exact Pte.toSlot_clearA k hA
      · rw [hne _ (hold x hx).1, hE.entry x hx]
    used := by
      refine List.forall_mem_cons.2 ⟨?_, fun x hx => ?_⟩
      · rw [hg.slots, Function.update_self]
      · rw [(hsame _ (hold x hx).2).1, hE.used x hx]
    recorded := by
      refine List.forall_mem_cons.2 ⟨?_, fun x hx => ?_⟩
      · rw [hg.slots, Function.update_self]
        exact hflags
      · rw [(hsame _ (hold x hx).2).1, hE.recorded x hx]
    data := by
      refine List.forall_mem_cons.2 ⟨?_, fun x hx => ?_⟩
      · rw [← hfs, ← hE.mem f hfL]
        exact hm.page
      · rw [(hsame _ (hold x hx).2).2, hE.data x hx]
    freelist := by
      rw [hg.freelist, hE.freelist, hf, hfs]
      rfl
    mem := fun g hx => by
      obtain ⟨hgf, hgL⟩ := not_or.1 fun hn => hx (List.mem_cons.2 hn)
      rw [hg.mem, hf, if_neg fun he => hgf (he.trans hfs), hE.mem g hgL]
    kept := fun v' hv' => by
      obtain ⟨hv1, hv2⟩ := not_or.1 fun hx => hv' (List.mem_cons.2 hx)
      rw [hne v' hv1, hE.kept v' hv2]
    absent := fun v' hv' => by
      rw [hne v' fun he => hv' (he ▸ hvs), hE.absent v' hv']
    slot := fun j hj => by
      obtain ⟨hj1, hj2⟩ := not_or.1 fun hx => hj (List.mem_cons.2 hx)
      rw [(hsame j hj1).1, (hsame j hj1).2]
      exact hE.slot j hj2
    tab := fun i => by
      rw [← hE.tab i, ← Machine.setPte_tab t d v ((t.pte d v).toSlot k)]
      simp only [Machine.tab, hg.space]
    dir := by rw [hg.space, Machine.setPte_isSome, hE.dir]
    space := fun d' hd' => by
      rw [hg.space, Machine.setPte_space, Function.update_of_ne hd', hE.space d' hd']
    proc := fun p => by
      rw [hg.proc]
      by_cases hp : p = q
      · subst hp
        have ht := hE.proc p
        rw [if_pos rfl] at ht
        rw [if_pos rfl, if_pos rfl, ht, List.length_cons, BitVec.ofNat_add, ← BitVec.sub_sub]
        rfl
      · rw [if_neg hp, if_neg hp, hE.proc, if_neg hp]
    rest := by
      rw [← rkend, ← rpipe, ← rinit, ← rnext, ← rcur, ← hkend, ← hpipe, ← hinit, ← hnext, ← hcur]
      rfl }

end Evicted

/-! ## The loop -/

/-- No swap slot is free. -/
def Full (s : Machine) : Prop := ∀ k < SWAP_SLOT_TOTAL, (s.slots k).is_free = false

/-- The loop has done what it can: `n` pages are out, or no page or no slot is left. -/
def Ended (d n : Nat) (L : List (Nat × Nat)) (t : Machine) : Prop :=
  L.length ≤ n ∧ (L.length = n ∨ (∀ v, ¬Resident t d v) ∨ Full t)

/-- What the loop leaves behind. -/
def Leaves (h : Set Nat) (q d n : Nat) (s t u : Machine) : Prop :=
  ∃ L, Evicted q d L s u ∧ Ended d n L u ∧ Evicts h t u ∧
    (u.threshold, u.npages_to_swap) = (t.threshold, t.npages_to_swap)

/-- A frame of a user page is not frame 0. -/
theorem Frames.ppn_ne_zero {v : Nat} (hF : Frames h s) (hv : Resident s d v) :
    (s.pte d v).ppn ≠ 0 := by
  have hlo := (hF.range_used (.page d v) _ ⟨hv.1, hv.2.1, rfl⟩).1
  have hpos := hF.kend_pos
  omega

/-- `kfree` of the frame of a page that has moved out, on account of process `q`. -/
theorem MovedOut.kfree {v k f : Nat} (hI : Inv h t) (hd : (t.space d).isSome = true)
    (hv : Resident t d v) (hf : (t.pte d v).ppn = f) (hm : MovedOut d v f k t u)
    (hq : (t.proc q).live) :
    (kfree f).run (u.setProc q fun p => { p with rss := p.rss - 1 }) =
        .ok ((), (u.setProc q fun p => { p with rss := p.rss - 1 }).kfreed f) ∧
      Evicts h t ((u.setProc q fun p => { p with rss := p.rss - 1 }).kfreed f) := by
  subst hf
  obtain ⟨htu, hl⟩ := hI.pageOut hd hv.1 hv.2.1 hv.2.2 hm.slot_lt hm.slot_free hm.core hm.global
    hm.space hm.slots hm.filled hm.page hm.other
  have hset := htu.1.setRss (g := fun p => p.rss - 1) ((htu.2.live q).2 hq)
  have hl' : Loose h (u.setProc q fun p => { p with rss := p.rss - 1 }) (t.pte d v).ppn := hl.setRss
  have hrun := kfree_returns hl'.lo hl'.hi
  exact ⟨hrun, htu.trans (hset.trans ((kfree_spec hset.1 hl').spec _ _ hrun))⟩

/-- **The loop of `swapOutPages`, exactly.** The attempts suffice: each turn takes a page out
unless no slot is free, and then no later turn does. -/
theorem swapLoop_exact (n attempts : Nat) (hI : Inv h s) (hIt : Inv h t) (hq : (t.proc q).live)
    (hd : (t.proc q).pgdir = d) (hE : Evicted q d L s t) (hn : L.length ≤ n)
    (ha : n ≤ attempts + L.length ∨ Full t) :
    K.Returns (swapLoop q n attempts L.length) t fun _ u => Leaves h q d n s t u := by
  induction attempts generalizing t L with
  | zero =>
    refine Code.returns_pure.2 ⟨L, hE, ⟨hn, ?_⟩, .refl hIt, rfl⟩
    rcases ha with ha | ha
    · exact Or.inl (by omega)
    · exact Or.inr (Or.inr ha)
  | succ attempts ih =>
    unfold swapLoop
    by_cases hlt : L.length < n
    case neg =>
      rw [if_neg hlt]
      exact Code.returns_pure.2 ⟨L, hE, ⟨hn, Or.inl (by omega)⟩, .refl hIt, rfl⟩
    rw [if_pos hlt]
    simp only [Code.returns_get_bind, hd]
    have hdir : (t.space d).isSome = true := hd ▸ hIt.dir q hq
    obtain ⟨sp, hsp⟩ := Option.isSome_iff_exists.1 hdir
    have hres : ∀ v, Resident t d v ↔ v < UPAGES ∧ sp.userPage v = true := fun v =>
      Xv6.Swap.resident_iff hIt.toFrames hsp
    have hpte : ∀ v, t.pte d v = sp.pte v := Machine.pte_of_space hsp
    have hnull : ∀ v < UPAGES, sp.userPage v = true → (sp.pte v).ppn ≠ 0 := fun v hv hu => by
      rw [← hpte]
      exact hIt.ppn_ne_zero ((hres v).2 ⟨hv, hu⟩)
    -- the search clears accessed bits at most
    refine ((findVictimPage_exact hsp hnull).and (findVictimPage_spec hIt hdir).spec).bind
      fun r u hpost => ?_
    obtain ⟨hV, htu, -⟩ := hpost
    obtain ⟨htouch, hfound⟩ := hV.found hsp
    have hEu := hE.touch htouch
    have htune : (u.threshold, u.npages_to_swap) = (t.threshold, t.npages_to_swap) := by
      have hrest := htouch.rest
      simp only [Machine.rest, Prod.mk.injEq] at hrest ⊢
      exact ⟨hrest.2.2.2.1, hrest.2.2.2.2.1⟩
    rcases hfound with ⟨h0, hnone⟩ | ⟨v, rfl, hvu⟩
    · -- the directory has no page left
      have hno : ∀ v, ¬Resident u d v := fun v hv => by
        have hu := (hres v).1 ((htouch.resident v).1 hv)
        rw [hnone v hu.1] at hu
        exact Bool.false_ne_true hu.2
      have hend : Leaves h q d n s t u := ⟨L, hEu, ⟨hn, Or.inr (Or.inl hno)⟩, htu, htune⟩
      cases r with
      | none => exact Code.returns_pure.2 hend
      | some vp =>
        obtain ⟨v, pa⟩ := vp
        obtain rfl : pa = 0 := h0
        exact Code.returns_pure.2 hend
    · -- page `v` goes out, if a slot is free
      have hrv : Resident t d v := (hres v).2 hvu
      have hru : Resident u d v := (htouch.resident v).2 hrv
      have hppn : (u.pte d v).ppn = (sp.pte v).ppn := by
        rw [← hpte]
        exact (Pte.clearA_eq.1 (htouch.bits v)).1
      have hdu : (u.space d).isSome = true := htouch.dir.trans hdir
      obtain ⟨spu, hspu⟩ := Option.isSome_iff_exists.1 hdu
      have hqu : (u.proc q).live := (htu.2.live q).2 hq
      dsimp only
      rw [if_neg (hnull v hvu.1 hvu.2)]
      refine (swapAndPageOut_moves hspu _ (htu.1.walk_present hspu hru.2.1) hru.2.1).bind
        fun b w hpost => ?_
      rcases hpost with ⟨rfl, rfl, hfull⟩ | ⟨rfl, k, hm⟩
      · -- no slot is free, and none will be
        rw [if_neg Bool.false_ne_true]
        refine (ih htu.1 hqu ((htu.2.pgdir q).trans hd) hEu hn (Or.inr hfull)).mono fun _ x hx => ?_
        obtain ⟨L', hE', hend, hwx, htune'⟩ := hx
        exact ⟨L', hE', hend, htu.trans hwx, htune'.trans htune⟩
      · -- it has gone: the rest of the loop goes on from there
        rw [if_pos rfl]
        obtain ⟨hrun, hux⟩ := hm.kfree htu.1 hdu hru hppn hqu
        have hE' := hEu.out hI hru hdu hppn hm
        have hqx := (hux.2.live q).2 hqu
        have hdx : ((_ : Machine).proc q).pgdir = d := (hux.2.pgdir q).trans ((htu.2.pgdir q).trans hd)
        rw [Code.returns_modify_bind]
        refine Code.Returns.bind_run hrun ?_
        refine (ih (L := (v, k) :: L) hux.1 hqx hdx hE' hlt ?_).mono fun _ x hx => ?_
        · rw [List.length_cons]
          rcases ha with ha | ha
          · exact Or.inl (by omega)
          · refine absurd hm.slot_free ?_
            have hslots := htouch.rest
            simp only [Machine.rest, Prod.mk.injEq] at hslots
            rw [hslots.1.2.2.2.1, ha k hm.slot_lt]
            exact Bool.false_ne_true
        · obtain ⟨L', hE'', hend, hwx, htune'⟩ := hx
          refine ⟨L', hE'', hend, htu.trans (hux.trans hwx), htune'.trans ?_⟩
          exact Eq.trans hm.tuning htune

/-! ## The round -/

namespace Evicted

/-- Different pages of the directory have gone to different free slots. -/
theorem length_le (hE : Evicted q d L s t) :
    L.length ≤ (residentPages s d).card ∧ L.length ≤ (freeSlots s).card := by
  constructor
  · rw [← List.length_map (f := Prod.fst), ← List.toFinset_card_of_nodup hE.pages]
    refine Finset.card_le_card fun v hv => ?_
    obtain ⟨x, hx, rfl⟩ := List.mem_map.1 (List.mem_toFinset.1 hv)
    exact mem_residentPages.2 (hE.resident x hx)
  · rw [← List.length_map (f := Prod.snd), ← List.toFinset_card_of_nodup hE.slots]
    refine Finset.card_le_card fun k hk => ?_
    obtain ⟨x, hx, rfl⟩ := List.mem_map.1 (List.mem_toFinset.1 hk)
    exact mem_freeSlots.2 (hE.free x hx)

/-- When none is left, all have gone. -/
theorem all_pages (hE : Evicted q d L s t) (hno : ∀ v, ¬Resident t d v) :
    (residentPages s d).card ≤ L.length := by
  rw [← List.length_map (f := Prod.fst), ← List.toFinset_card_of_nodup hE.pages]
  refine Finset.card_le_card fun v hv => List.mem_toFinset.2 ?_
  by_contra hn
  exact hno v ((hE.resident_iff v).2 ⟨mem_residentPages.1 hv, hn⟩)

theorem all_slots (hE : Evicted q d L s t) (hfull : Full t) :
    (freeSlots s).card ≤ L.length := by
  rw [← List.length_map (f := Prod.snd), ← List.toFinset_card_of_nodup hE.slots]
  refine Finset.card_le_card fun k hk => List.mem_toFinset.2 ?_
  by_contra hn
  obtain ⟨hlt, hfree⟩ := mem_freeSlots.1 hk
  have ht := (hE.free_iff k).2 ⟨hfree, hn⟩
  rw [hfull k hlt] at ht
  cases ht

/-- **The number of pages** a loop has taken out when it ends. -/
theorem count {n : Nat} (hE : Evicted q d L s t) (hend : Ended d n L t) :
    L.length = min n (min (residentPages s d).card (freeSlots s).card) := by
  obtain ⟨hr, hs⟩ := hE.length_le
  obtain ⟨hn, rfl | hno | hfull⟩ := hend
  · omega
  · have := hE.all_pages hno
    omega
  · have := hE.all_slots hfull
    omega

/-- The processor, the history and the two parameters of `checkAndSwap` do not matter. -/
theorem adapt (hE : Evicted q d L s t) : Evicted q d L s (adapt t) := { hE with }

end Evicted

/-- `swapOutPages` for the victim `q`. -/
theorem swapOutPages_exact (hI : Inv h s) (hq : findVictimProc s = some q) :
    K.Returns swapOutPages s fun _ t => Leaves h q (s.proc q).pgdir s.npages_to_swap s s t := by
  unfold swapOutPages
  simp only [Code.returns_get_bind, hq]
  refine swapLoop_exact s.npages_to_swap _ hI hI (findVictimProc_live hI hq) rfl (.refl _ _ s) ?_ ?_
  · exact Nat.zero_le _
  · exact Or.inl (by rw [List.length_nil]; omega)

/-- What one call of `checkAndSwap` does. -/
structure Checked (h : Set Nat) (s t : Machine) : Prop where
  enough : s.threshold < s.freelist.length → t = s
  none : s.freelist.length ≤ s.threshold → findVictimProc s = none → t = adapt s
  some : s.freelist.length ≤ s.threshold → ∀ q, findVictimProc s = some q →
    ∃ L, Evicted q (s.proc q).pgdir L s t ∧
      L.length = min s.npages_to_swap
        (min (residentPages s (s.proc q).pgdir).card (freeSlots s).card)
  tuning : s.freelist.length ≤ s.threshold → (t.threshold, t.npages_to_swap) =
    ((adapt s).threshold, (adapt s).npages_to_swap)
  evicts : Evicts h s t

/-- **One call of `checkAndSwap`.** -/
theorem checkAndSwap_exact (hI : Inv h s) :
    K.Returns checkAndSwap s fun _ t => Checked h s t := by
  unfold checkAndSwap
  refine Code.Returns.bind_run (a := s.freelist.length) (t := s) rfl ?_
  rw [Code.returns_get_bind]
  by_cases hlt : s.threshold < s.freelist.length
  · rw [if_pos hlt]
    exact Code.returns_pure.2 ⟨fun _ => rfl, fun hle => absurd hlt (by omega),
      fun hle => absurd hlt (by omega), fun hle => absurd hlt (by omega), .refl hI⟩
  · rw [if_neg hlt]
    have hadapt : ∀ {t : Machine}, Evicts h s t → Evicts h s (adapt t) := fun {t} hst =>
      hst.trans ⟨hst.1.congr rfl, .of_core rfl rfl rfl rfl rfl fun _ _ => ⟨rfl, rfl⟩⟩
    cases hq : findVictimProc s with
    | none =>
      have hrun : swapOutPages.run s = .ok ((), s) := by
        unfold swapOutPages
        rw [K.run, Code.run_get_bind, hq]
        rfl
      refine Code.Returns.bind_run hrun ((Code.returns_modify _).2 ?_)
      exact ⟨fun h => absurd h hlt, fun _ _ => rfl,
        fun _ q hx => absurd (hx.symm.trans hq) (Option.some_ne_none q), fun _ => rfl,
        hadapt (.refl hI)⟩
    | some q =>
      refine (swapOutPages_exact hI hq).bind fun _ t hpost => (Code.returns_modify _).2 ?_
      obtain ⟨L, hE, hend, hst, htune⟩ := hpost
      obtain ⟨h1, h2⟩ := Prod.ext_iff.1 htune
      refine ⟨fun h => absurd h hlt, fun _ hx => absurd (hq.symm.trans hx) (Option.some_ne_none q),
        fun _ q' hx => ?_, fun _ => ?_, hadapt hst⟩
      · obtain rfl := Option.some.inj (hq.symm.trans hx)
        exact ⟨L, hE.adapt, hE.count hend⟩
      · unfold Xv6.Swap.adapt
        dsimp only at h1 h2 ⊢
        rw [h1, h2]

/-- **One eviction round does exactly its job.** -/
theorem eviction_round (hI : Inv h s) : K.Returns checkAndSwap s fun _ t =>
    (s.freelist.length ≤ s.threshold → ∀ q, findVictimProc s = some q →
      ∃ L, Evicted q (s.proc q).pgdir L s t ∧
        L.length = min s.npages_to_swap
          (min (residentPages s (s.proc q).pgdir).card (freeSlots s).card) ∧
        t.freelist.length = s.freelist.length + L.length ∧
        ∀ p, p ≠ q → (s.proc p).live → (t.proc p).pgdir = (s.proc p).pgdir ∧
          t.space (s.proc p).pgdir = s.space (s.proc p).pgdir) ∧
    (s.threshold < s.freelist.length → t = s) := by
  refine (checkAndSwap_exact hI).mono fun _ t hc => ⟨fun hle q hq => ?_, hc.enough⟩
  obtain ⟨L, hE, hlen⟩ := hc.some hle q hq
  refine ⟨L, hE, hlen, ?_, fun p hp hl => ⟨hE.pgdir p, hE.space _ fun he => hp ?_⟩⟩
  · rw [hE.freelist, List.length_append, framesOf, List.length_map, Nat.add_comm]
  · exact hI.dir_inj p q hl (findVictimProc_live hI hq) he

theorem eviction_round_twoPages : ∃ t, checkAndSwap.run twoPages = .ok ((), t) ∧
    ∃ L, Evicted 0 1 L twoPages t ∧ t.freelist.length = L.length := by
  obtain ⟨⟨⟩, t, hrun, hround, -⟩ := eviction_round twoPages_inv
  obtain ⟨L, hE, -, hlen, -⟩ := hround (Nat.zero_le _) 0 (by decide)
  exact ⟨t, hrun, L, hE, hlen.trans (Nat.zero_add _)⟩

end Xv6.Swap
