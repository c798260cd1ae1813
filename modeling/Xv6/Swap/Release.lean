/-
What the swap operations leave behind when they fail.

`duplicateSwapSlot` and `swapPageIn` may call `checkAndSwap` on the way, and a failing
call has done nothing else: the state is the one after some complete rounds of evictions
(`Rounds`). `swapAndPageOut` takes a slot before it looks at the entry of the page; when
there is no entry, or the page is not in memory, it returns with the slot taken.
-/
import Xv6.Swap.Exhaust

set_option autoImplicit false

namespace Xv6.Swap

open Xv6.Lib

variable {h : Set Nat} {s t u : Machine} {d v : Nat}

/-- Complete rounds of evictions. -/
abbrev Rounds : Machine → Machine → Prop :=
  Relation.ReflTransGen fun s t => checkAndSwap.run s = .ok ((), t)

/-- The free slots, the page-table entries and the free frames are the same. -/
structure SameHeld (s t : Machine) : Prop where
  slots : ∀ k, (t.slots k).is_free = (s.slots k).is_free
  pte : ∀ d v, t.pte d v = s.pte d v
  frames : ∀ f, f ∈ t.freelist ↔ f ∈ s.freelist

theorem SameHeld.refl (s : Machine) : SameHeld s s where
  slots _ := rfl
  pte _ _ := rfl
  frames _ := Iff.rfl

/-- Apart from complete rounds, nothing is taken and nothing has moved. -/
def Released (s t : Machine) : Prop := ∃ u, Rounds s u ∧ SameHeld u t

theorem Rounds.one (hrun : checkAndSwap.run s = .ok ((), t)) : Rounds s t := .single hrun

theorem Rounds.released (hr : Rounds s t) : Released s t := ⟨t, hr, .refl t⟩

/-! ## Rounds -/

/-- A round that adds no frame to the free list fills no slot. -/
theorem Checked.grows (hc : Checked h s t) : ∃ fs, t.freelist = fs ++ s.freelist ∧
    (fs = [] → ∀ k, (t.slots k).is_free = (s.slots k).is_free) := by
  by_cases hlt : s.threshold < s.freelist.length
  · rw [hc.enough hlt]
    exact ⟨[], rfl, fun _ _ => rfl⟩
  · have hle : s.freelist.length ≤ s.threshold := by omega
    cases hq : findVictimProc s with
    | none =>
      rw [hc.none hle hq]
      exact ⟨[], rfl, fun _ _ => rfl⟩
    | some q =>
      obtain ⟨L, hE, -⟩ := hc.some hle q hq
      refine ⟨_, hE.freelist, fun hnil k => ?_⟩
      obtain rfl : L = [] := List.map_eq_nil_iff.1 hnil
      exact hE.unmoved.free k

theorem Rounds.evicts (hI : Inv h s) (hr : Rounds s t) : Evicts h s t := by
  induction hr with
  | refl => exact .refl hI
  | tail _ hrun ih => exact ih.trans ((checkAndSwap_spec ih.1).spec _ _ hrun)

theorem Rounds.grows (hI : Inv h s) (hr : Rounds s t) : ∃ fs, t.freelist = fs ++ s.freelist ∧
    (fs = [] → ∀ k, (t.slots k).is_free = (s.slots k).is_free) := by
  induction hr with
  | refl => exact ⟨[], rfl, fun _ _ => rfl⟩
  | tail hst hrun ih =>
    obtain ⟨fs, hfs, hsame⟩ := ih
    obtain ⟨gs, hgs, hsame'⟩ :=
      ((checkAndSwap_exact (Rounds.evicts hI hst).1).spec _ _ hrun).grows
    refine ⟨gs ++ fs, by rw [hgs, hfs, List.append_assoc], fun hnil k => ?_⟩
    obtain ⟨h1, h2⟩ := List.append_eq_nil_iff.1 hnil
    rw [hsame' h1 k, hsame h2 k]

/-- A slot that was taken and not given back is no round of evictions. -/
theorem not_released_takeSlot {k : Nat} (hI : Inv h s) (hk : (s.slots k).is_free = true) :
    ¬Released s (s.takeSlot k) := by
  rintro ⟨u, hr, hsame⟩
  obtain ⟨fs, hfs, hslots⟩ := hr.grows hI
  have hnd := (hr.evicts hI).1.nodup
  rw [hfs, List.nodup_append] at hnd
  have hnil : fs = [] := by
    refine List.eq_nil_iff_forall_not_mem.2 fun f hf => ?_
    have hu : f ∈ u.freelist := by rw [hfs]; exact List.mem_append_left _ hf
    exact hnd.2.2 f hf f ((hsame.frames f).2 hu) rfl
  have hfree := hsame.slots k
  rw [hslots hnil k, hk, Machine.takeSlot, Machine.setSlot_slots, Function.update_self] at hfree
  cases hfree

/-- A `kalloc` that fails has only run rounds. -/
theorem kalloc_rounds (s : Machine) : K.Spec kalloc s fun r t => r = none → Rounds s t := by
  have hpop : ∀ {u : Machine}, Rounds s u →
      K.Spec popFrame u fun r t => r = none → Rounds s t := by
    intro u hr
    unfold popFrame
    simp only [Code.spec_get_bind]
    split
    · exact Code.spec_pure.2 fun _ => hr
    · simp only [Code.spec_modify_bind]
      exact Code.spec_pure.2 fun hn => absurd hn (Option.some_ne_none _)
  unfold kalloc
  rw [K.Spec, Code.spec_get_bind]
  split
  · refine (K.spec_run checkAndSwap s).bind fun _ t hst => ?_
    have hif : K.Spec swapIfEmpty t fun _ u => Rounds s u := by
      unfold swapIfEmpty
      rw [K.Spec, Code.spec_get_bind]
      split
      · exact (K.spec_run checkAndSwap t).mono fun _ u htu => (Rounds.one hst).trans (Rounds.one htu)
      · exact Code.spec_pure.2 (Rounds.one hst)
    exact hif.bind fun _ u hr => hpop hr
  · exact hpop .refl

theorem kallocRetry_rounds (n : Nat) (s : Machine) :
    K.Spec (kallocRetry n) s fun r t => r = none → Rounds s t := by
  induction n generalizing s with
  | zero => exact kalloc_rounds s
  | succ n ih =>
    refine (kalloc_rounds s).bind fun r t hr => ?_
    cases r with
    | some f => exact Code.spec_pure.2 fun hn => absurd hn (Option.some_ne_none f)
    | none =>
      refine (K.spec_run checkAndSwap t).bind fun _ u htu => ?_
      exact (ih u).mono fun r w hw hn => ((hr rfl).trans (Rounds.one htu)).trans (hw hn)

theorem findFreeSlotRetry_rounds (n : Nat) (s : Machine) :
    K.Spec (findFreeSlotRetry n) s fun r t => r = none → Rounds s t := by
  induction n generalizing s with
  | zero =>
    refine (findFreeSlot_spec s).spec.mono fun r t hr hn => ?_
    subst hn
    obtain rfl : t = s := hr
    exact .refl
  | succ n ih =>
    refine (findFreeSlot_spec s).spec.bind fun r t hr => ?_
    cases r with
    | some k => exact Code.spec_pure.2 fun hn => absurd hn (Option.some_ne_none k)
    | none =>
      obtain rfl : t = s := hr
      refine (K.spec_run checkAndSwap t).bind fun _ u htu => ?_
      exact (ih u).mono fun r w hw hn => (Rounds.one htu).trans (hw hn)

/-! ## The three operations -/

/-- `swapAndPageOut` of a page that is not in memory takes a slot, if there is one. -/
theorem swapAndPageOut_absent {sp : Space} (hsp : s.space d = some sp)
    (hno : ∀ e, sp.walk v = some e → e.present = false) (pa : Nat) :
    K.Returns (swapAndPageOut d v pa) s fun r t => r = false ∧
      ((Full s ∧ t = s) ∨ ∃ k < SWAP_SLOT_TOTAL, (s.slots k).is_free = true ∧ t = s.takeSlot k) := by
  unfold swapAndPageOut
  refine (findFreeSlot_exact s).bind fun r t hr => ?_
  cases r with
  | none => exact Code.returns_pure.2 ⟨rfl, Or.inl ⟨hr.2, hr.1⟩⟩
  | some k =>
    obtain ⟨hlt, hfree, rfl⟩ := hr
    refine Code.Returns.bind_run (walkpgdir_returns (s := s.takeSlot k) hsp v) ?_
    cases hw : sp.walk v with
    | none => exact Code.returns_pure.2 ⟨rfl, Or.inr ⟨k, hlt, hfree, rfl⟩⟩
    | some e =>
      simp only [hno e hw, Bool.false_eq_true, if_false]
      exact Code.returns_pure.2 ⟨rfl, Or.inr ⟨k, hlt, hfree, rfl⟩⟩

/-- **`swapAndPageOut`** gives back what it took exactly when it took nothing, or when the
page is in memory. -/
theorem swapAndPageOut_released_iff (hI : Inv h s) (hd : (s.space d).isSome = true) (pa : Nat) :
    (∀ t, (swapAndPageOut d v pa).run s = .ok (false, t) → Released s t) ↔
      (Full s ∨ ∃ e, s.walk d v = some e ∧ e.present = true) := by
  obtain ⟨sp, hsp⟩ := Option.isSome_iff_exists.1 hd
  have hw : s.walk d v = sp.walk v := by
    rw [Machine.walk, hsp]
    rfl
  rw [hw]
  by_cases hp : ∃ e, sp.walk v = some e ∧ e.present = true
  · refine iff_of_true (fun t hrun => ?_) (Or.inr hp)
    obtain ⟨e, he, hp⟩ := hp
    have hpte : s.pte d v = e := (Machine.pte_of_space hsp v).trans (Space.walk_eq_some.1 he).2
    subst hpte
    rcases (swapAndPageOut_moves hsp pa he hp).spec _ _ hrun with ⟨-, rfl, -⟩ | ⟨hr, -⟩
    · exact Rounds.released .refl
    · cases hr
  · have hno : ∀ e, sp.walk v = some e → e.present = false := fun e he =>
      Bool.eq_false_of_not_eq_true fun hx => hp ⟨e, he, hx⟩
    constructor
    · intro hrel
      obtain ⟨r, t, hrun, rfl, ⟨hfull, -⟩ | ⟨k, -, hfree, rfl⟩⟩ := swapAndPageOut_absent hsp hno pa
      · exact Or.inl hfull
      · exact absurd (hrel _ hrun) (not_released_takeSlot hI hfree)
    · intro hc t hrun
      have hfull := hc.resolve_right hp
      rcases ((swapAndPageOut_absent hsp hno pa).spec _ _ hrun).2 with ⟨-, rfl⟩ | ⟨k, hlt, hfree, -⟩
      · exact Rounds.released .refl
      · rw [hfull k hlt] at hfree
        cases hfree

/-- **`duplicateSwapSlot`** takes its slot last of all. -/
theorem duplicateSwapSlot_released (k : Nat) (s : Machine) :
    K.Spec (duplicateSwapSlot k) s fun r t => r = none → Released s t := by
  unfold duplicateSwapSlot
  simp only [Code.spec_get_bind]
  split
  · exact Code.spec_pure.2 fun _ => Rounds.released .refl
  · split
    · exact Code.spec_pure.2 fun _ => Rounds.released .refl
    · refine (findFreeSlotRetry_rounds 2 s).bind fun r t hr => ?_
      cases r with
      | none => exact Code.spec_pure.2 fun _ => (hr rfl).released
      | some c =>
        simp only [Code.spec_modify_bind]
        exact (K.spec_run _ _).bind fun _ u _ =>
          Code.spec_pure.2 fun hn => absurd hn (Option.some_ne_none c)

/-- An entry that is not present stays, with its page table. -/
theorem Paged.walk {e : Pte} (hst : Paged h s t) (hw : s.walk d v = some e)
    (hp : e.present = false) : t.walk d v = some e := by
  obtain ⟨sp, hsp, hwalk⟩ := Option.bind_eq_some_iff.1 hw
  obtain ⟨htab, hpte⟩ := Space.walk_eq_some.1 hwalk
  obtain ⟨sp', hsp'⟩ := Option.isSome_iff_exists.1 ((hst.dirs d).trans (by rw [hsp]; rfl))
  have hse : s.pte d v = e := (Machine.pte_of_space hsp v).trans hpte
  rw [Machine.walk, hsp']
  refine Space.walk_eq_some.2 ⟨?_, ?_⟩
  · rw [← Machine.tab_of_space hsp', hst.tab, Machine.tab_of_space hsp, htab]
  · rw [← Machine.pte_of_space hsp', ← hse]
    rcases Nat.lt_or_ge v UPAGES with hv | hv
    · exact hst.out_eq hv (by rw [hse]; exact hp)
    · exact hst.kern d v hv

/-- The slot that `swapPageIn` takes entry `e` to name is in range and in use. -/
def Machine.occupied (s : Machine) (e : Pte) : Prop :=
  e.ppn < SWAP_SLOT_TOTAL ∧ (s.slots e.ppn).is_free = false

/-- What `swapPageIn` does, case by case. -/
inductive PageIns (h : Set Nat) (d v : Nat) (s : Machine) : Bool → Machine → Prop where
  | noTable (hw : s.walk d v = none) : PageIns h d v s false s
  | present (e : Pte) (hw : s.walk d v = some e) (hp : e.present = true) : PageIns h d v s true s
  | noSlot (e : Pte) (hw : s.walk d v = some e) (hp : e.present = false) (hk : ¬s.occupied e) :
      PageIns h d v s false s
  | noMemory (e : Pte) (t : Machine) (hw : s.walk d v = some e) (hp : e.present = false)
      (hk : s.occupied e) (hmem : 1 ≤ s.npages_to_swap → s.freelist = [] ∧ Starved s)
      (hr : Rounds s t) : PageIns h d v s false t
  /-- `u` is the state when the frame has been allocated. -/
  | loaded (e : Pte) (f : Nat) (u t : Machine) (hw : s.walk d v = some e) (hp : e.present = false)
      (hk : s.occupied e) (hmem : 1 ≤ s.npages_to_swap → ¬(s.freelist = [] ∧ Starved s))
      (hsu : Paged h s u)
      (ht : t.space = (u.setPte d v (Pte.mapped f ((s.slots e.ppn).page_perm ||| PTE_P))).space) :
      PageIns h d v s true t

/-- **`swapPageIn`.** Once it has a frame it succeeds: the page table is there, so mapping
the page takes no other. -/
theorem swapPageIn_exact (hI : Inv h s) (hd : (s.space d).isSome = true) :
    K.Returns (swapPageIn d v) s (PageIns h d v s) := by
  obtain ⟨sp, hsp⟩ := Option.isSome_iff_exists.1 hd
  have hwalk : s.walk d v = sp.walk v := by
    rw [Machine.walk, hsp]
    rfl
  unfold swapPageIn
  simp only [Code.returns_get_bind]
  refine Code.Returns.bind_run (walkpgdir_returns hsp v) ?_
  cases hw : sp.walk v with
  | none => exact Code.returns_pure.2 (.noTable (hwalk.trans hw))
  | some e =>
    have hw' := hwalk.trans hw
    dsimp only
    by_cases hp : e.present = true
    case pos =>
      rw [if_pos hp]
      exact Code.returns_pure.2 (.present e hw' hp)
    have hp' : e.present = false := Bool.eq_false_of_not_eq_true hp
    rw [if_neg hp]
    by_cases hlt : SWAP_SLOT_TOTAL ≤ e.ppn
    case pos =>
      rw [if_pos hlt]
      exact Code.returns_pure.2 (.noSlot e hw' hp' fun hk => absurd hk.1 (Nat.not_lt.2 hlt))
    rw [if_neg hlt]
    by_cases hfree : (s.slots e.ppn).is_free = true
    case pos =>
      rw [if_pos hfree]
      exact Code.returns_pure.2 (.noSlot e hw' hp' fun hk => by rw [hk.2] at hfree; cases hfree)
    rw [if_neg hfree]
    have hk : s.occupied e := ⟨Nat.not_le.1 hlt, Bool.eq_false_of_not_eq_true hfree⟩
    have hexact : K.Spec (kallocRetry 1) s fun r _ =>
        1 ≤ s.npages_to_swap → (r = none ↔ s.freelist = [] ∧ Starved s) := fun r t hrun hn =>
      ((kallocRetry_exact 1 hI hn).spec r t hrun).1
    refine ((kallocRetry_spec 1 hI).and ((kallocRetry_rounds 1 s).and hexact)).bind
      fun r u hpost => ?_
    obtain ⟨ha, hr, hmem⟩ := hpost
    cases r with
    | none => exact Code.returns_pure.2 (.noMemory e u hw' hp' hk (fun hn => (hmem hn).1 rfl) (hr rfl))
    | some f =>
      -- the page is still paged out, and its page table is still there
      have hsu : Paged h s u := ha.2.1
      obtain ⟨sp1, hsp1, hwalk1⟩ := Option.bind_eq_some_iff.1 (hsu.walk hw' hp')
      refine (pageInBlocks_spec _ _ _ _).bind fun _ x hpost => ?_
      obtain ⟨pg, ⟨c, rl, rfl, -⟩, -⟩ := hpost
      simp only [Code.returns_get_bind]
      have hsp2 : ((u.setMem f pg).setCpu c rl).space d = some sp1 := hsp1
      refine Code.Returns.bind_run (mapPages_run hsp2 hwalk1 hp') ?_
      have hslot : ((u.setMem f pg).setCpu c rl).slots e.ppn = s.slots e.ppn := (hsu.slot _ hk.2).1
      rw [if_pos rfl, hslot]
      unfold freeSlot
      rw [if_pos hk.1]
      simp only [Code.returns_modify_bind]
      refine Code.returns_pure.2 (.loaded e f u _ hw' hp' hk (fun hn hx => ?_) hsu rfl)
      exact absurd ((hmem hn).2 hx) (Option.some_ne_none f)

/-- A page-in that fails has only run rounds. -/
theorem PageIns.rounds (hp : PageIns h d v s false t) : Rounds s t := by
  cases hp with
  | noTable => exact .refl
  | noSlot => exact .refl
  | noMemory e t hw hp hk hmem hr => exact hr

/-- The entry of a page that was loaded has the permissions of its slot. -/
theorem Paged.walk_loaded {e e' : Pte} (hsu : Paged h s u) (hw : s.walk d v = some e)
    (hp : e.present = false) (ht : t.space = (u.setPte d v e').space) : t.walk d v = some e' := by
  obtain ⟨sp, hsp, hwalk⟩ := Option.bind_eq_some_iff.1 (hsu.walk hw hp)
  have hspace : t.space d = some { sp with pte := Function.update sp.pte v e' } := by
    rw [ht, Machine.setPte_space, Function.update_self, hsp]
    rfl
  rw [Machine.walk, hspace]
  refine Space.walk_eq_some.2 ⟨(Space.walk_eq_some.1 hwalk).1, ?_⟩
  exact Function.update_self _ _ _

/-- **A failing swap operation releases what it took**, but for `swapAndPageOut` of a page
that is not in memory while a slot is free. -/
theorem swap_failures (hI : Inv h s) :
    (∀ d v pa, (s.space d).isSome = true →
      ((∀ t, (swapAndPageOut d v pa).run s = .ok (false, t) → Released s t) ↔
        (Full s ∨ ∃ e, s.walk d v = some e ∧ e.present = true))) ∧
    (∀ k t, (duplicateSwapSlot k).run s = .ok (none, t) → Released s t) ∧
    (∀ d v t, (s.space d).isSome = true → (swapPageIn d v).run s = .ok (false, t) → Released s t ∧
      ∀ e, s.walk d v = some e → e.present = false → t.walk d v = some e ∧
        ((s.slots e.ppn).is_free = false → t.slots e.ppn = s.slots e.ppn ∧
          t.slotPage e.ppn = s.slotPage e.ppn)) := by
  refine ⟨fun d v pa hd => swapAndPageOut_released_iff hI hd pa, fun k t hrun => ?_,
    fun d v t hd hrun => ?_⟩
  · exact duplicateSwapSlot_released k s _ _ hrun rfl
  · have hr := ((swapPageIn_exact hI hd).spec _ _ hrun).rounds
    have hst := (hr.evicts hI).2
    exact ⟨hr.released, fun e hw hp => ⟨hst.walk hw hp, fun hk => ⟨(hst.slot _ hk).1, (hst.slot _ hk).2.2⟩⟩⟩

/-- `twoPages` with page 1 in a slot and its frame free. -/
def onePageOut : Machine := K.final (kfree 4) (K.final (swapAndPageOut 1 1 4) twoPages)

theorem onePageOut_inv : Inv ∅ onePageOut := by
  obtain ⟨r, t, hrun, hE, hl⟩ :=
    swapAndPageOut_spec (d := 1) (v := 1) twoPages_inv rfl (by decide) rfl rfl
  have hfinal : (swapAndPageOut 1 1 4).run twoPages =
      .ok (true, K.final (swapAndPageOut 1 1 4) twoPages) := Code.run_of_result rfl
  obtain ⟨rfl, rfl⟩ := Prod.ext_iff.1 (Except.ok.inj (hrun.symm.trans hfinal))
  exact ((kfree_spec hE.1 (hl rfl)).spec _ _ (Code.run_of_result rfl)).1

/-- The same without a free frame or a free slot. -/
def slotsFull : Machine := { onePageOut with
  freelist := []
  slots := fun k => ⟨if k = 0 then 7#12 else 0#12, false⟩ }

theorem slotsFull_inv : Inv ∅ slotsFull := by
  have hI := onePageOut_inv
  refine ⟨{ hI.toFrames with
    own := hI.own.mono (fun _ _ hx => hx) fun _ hf => absurd hf List.not_mem_nil
    nodup := List.nodup_nil
    range_free := fun _ hf => absurd hf List.not_mem_nil
    slot_own := hI.slot_own.mono (fun _ _ hx => hx) fun _ hk => absurd hk Bool.false_ne_true },
    hI.toProcs.congr rfl rfl⟩

/-- All three fail there: page 0 has no slot to go to, slot 0 none to be copied to, and page 1
no frame. The slot of page 1 keeps it. -/
theorem swap_failures_full :
    (∃ t, (swapAndPageOut 1 0 3).run slotsFull = .ok (false, t) ∧ Released slotsFull t) ∧
    (∃ t, (duplicateSwapSlot 0).run slotsFull = .ok (none, t) ∧ Released slotsFull t) ∧
    ∃ t, (swapPageIn 1 1).run slotsFull = .ok (false, t) ∧ Released slotsFull t ∧
      t.walk 1 1 = some ⟨0, 6#12⟩ ∧ t.slotPage 0 = slotsFull.slotPage 0 := by
  obtain ⟨hout, hdup, hin⟩ := swap_failures slotsFull_inv
  have h1 : (swapAndPageOut 1 0 3).run slotsFull = .ok (false, _) :=
    Code.run_of_result (by decide +kernel)
  have h2 : (duplicateSwapSlot 0).run slotsFull = .ok (none, _) :=
    Code.run_of_result (by decide +kernel)
  have h3 : (swapPageIn 1 1).run slotsFull = .ok (false, _) :=
    Code.run_of_result (by decide +kernel)
  obtain ⟨hr, hkept⟩ := hin 1 1 _ rfl h3
  obtain ⟨hw, hslot⟩ := hkept ⟨0, 6#12⟩ rfl rfl
  exact ⟨⟨_, h1, (hout 1 0 3 rfl).2 (Or.inl fun _ _ => rfl) _ h1⟩, ⟨_, h2, hdup 0 _ h2⟩,
    _, h3, hr, hw, (hslot rfl).2⟩

/-- Page 5 of the process is not mapped: slot 0 is taken and nothing names it. -/
theorem pageOut_leaks : ∃ t, (swapAndPageOut 1 5 0).run twoPages = .ok (false, t) ∧
    ¬Released twoPages t :=
  ⟨twoPages.takeSlot 0, rfl, not_released_takeSlot twoPages_inv rfl⟩

end Xv6.Swap
