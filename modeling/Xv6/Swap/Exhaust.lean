/-
When `kalloc` fails.

With an empty free list `kalloc` runs `checkAndSwap` once, and once more if that freed
nothing. A round takes a page out unless no slot is free or the process that
`findVictimProc` picks has no page in memory (`Starved`), and a round that takes nothing
out leaves everything as it was, so the second one does not help. `findVictimProc`
goes by the counter `rss`, which is not the number of pages a process has in memory: the
process it picks may have none while others have some.
-/
import Xv6.Swap.Round

set_option autoImplicit false

namespace Xv6.Swap

open Xv6.Lib

variable {h : Set Nat} {s t u : Machine} {q d : Nat} {L : List (Nat × Nat)}

/-- No process but those being created has a user page in memory. -/
def NoPage (s : Machine) : Prop :=
  ∀ p < NPROC, (s.proc p).live → ∀ v, ¬Resident s (s.proc p).pgdir v

/-- A round of evictions cannot take a page out. -/
def Starved (s : Machine) : Prop :=
  Full s ∨ ∀ q, findVictimProc s = some q → ∀ v, ¬Resident s (s.proc q).pgdir v

/-! ## A round that takes nothing out -/

theorem findVictimProc_congr (hp : t.proc = s.proc) : findVictimProc t = findVictimProc s := by
  have hstep : victimStep t = victimStep s := by
    funext acc i
    unfold victimStep
    rw [hp]
  unfold findVictimProc
  rw [hstep]

/-- Processes, pages in memory and free slots are the same. -/
structure Unmoved (s t : Machine) : Prop where
  freelist : t.freelist = s.freelist
  proc : t.proc = s.proc
  resident : ∀ d v, Resident t d v ↔ Resident s d v
  free : ∀ k, (t.slots k).is_free = (s.slots k).is_free

namespace Unmoved

theorem refl (s : Machine) : Unmoved s s where
  freelist := rfl
  proc := rfl
  resident _ _ := Iff.rfl
  free _ := rfl

theorem trans (hst : Unmoved s t) (htu : Unmoved t u) : Unmoved s u where
  freelist := htu.freelist.trans hst.freelist
  proc := htu.proc.trans hst.proc
  resident d v := (htu.resident d v).trans (hst.resident d v)
  free k := (htu.free k).trans (hst.free k)

theorem full (hst : Unmoved s t) : Full t ↔ Full s := by
  unfold Full
  simp only [hst.free]

theorem noPage (hst : Unmoved s t) : NoPage t ↔ NoPage s := by
  unfold NoPage
  rw [hst.proc]
  simp only [hst.resident]

theorem starved (hst : Unmoved s t) : Starved t ↔ Starved s := by
  unfold Starved
  rw [hst.full, findVictimProc_congr hst.proc, hst.proc]
  simp only [hst.resident]

end Unmoved

/-- A round in which no page leaves. -/
theorem Evicted.unmoved (hE : Evicted q d [] s t) : Unmoved s t where
  freelist := hE.freelist
  proc := by
    funext p
    rw [hE.proc, List.length_nil, BitVec.sub_zero]
    exact ite_self _
  resident d' v := by
    rcases eq_or_ne d' d with rfl | hd
    · rw [hE.resident_iff, List.map_nil]
      exact and_iff_left List.not_mem_nil
    · unfold Resident Machine.pte
      rw [hE.space d' hd]
  free k := by rw [(hE.slot k List.not_mem_nil).1]

/-- As many pages leave as the space has in memory: it has none left. -/
theorem Evicted.gone_all (hE : Evicted q d L s t) (hn : (residentPages s d).card ≤ L.length) (v : Nat) :
    ¬Resident t d v := by
  have hsub : (L.map Prod.fst).toFinset ⊆ residentPages s d := by
    intro w hw
    obtain ⟨x, hx, rfl⟩ := List.mem_map.1 (List.mem_toFinset.1 hw)
    exact mem_residentPages.2 (hE.resident x hx)
  have hcard : (residentPages s d).card ≤ (L.map Prod.fst).toFinset.card := by
    rw [List.toFinset_card_of_nodup hE.pages, List.length_map]
    exact hn
  have hall := Finset.eq_of_subset_of_card_le hsub hcard
  intro hv
  obtain ⟨hv, hL⟩ := (hE.resident_iff v).1 hv
  apply hL
  rw [← List.mem_toFinset, hall]
  exact mem_residentPages.2 hv

/-- Fewer pages leave than slots are free: a slot stays free. -/
theorem Evicted.not_full (hE : Evicted q d L s t) (hn : L.length < (freeSlots s).card) : ¬Full t := by
  have hlt : (L.map Prod.snd).toFinset.card < (freeSlots s).card := by
    rw [List.toFinset_card_of_nodup hE.slots, List.length_map]
    exact hn
  obtain ⟨k, hk, hL⟩ := Finset.exists_mem_notMem_of_card_lt_card hlt
  obtain ⟨hk, hfree⟩ := mem_freeSlots.1 hk
  intro hfull
  have hused := hfull k hk
  rw [(hE.free_iff k).2 ⟨hfree, fun hm => hL (List.mem_toFinset.2 hm)⟩] at hused
  cases hused

/-- A page leaves unless the machine is starved. -/
theorem Checked.starved (hc : Checked h s t) (hl : s.freelist = []) (hs : Starved s) :
    Unmoved s t := by
  have hle : s.freelist.length ≤ s.threshold := by rw [hl]; exact Nat.zero_le _
  cases hq : findVictimProc s with
  | none =>
    rw [hc.none hle hq]
    exact ⟨rfl, rfl, fun _ _ => Iff.rfl, fun _ => rfl⟩
  | some q =>
    obtain ⟨L, hE, -⟩ := hc.some hle q hq
    obtain rfl : L = [] := by
      rcases hs with hfull | hno
      · refine List.eq_nil_iff_forall_not_mem.2 fun x hx => ?_
        obtain ⟨hk, hfree⟩ := hE.free x hx
        rw [hfull x.2 hk] at hfree
        cases hfree
      · exact List.eq_nil_iff_forall_not_mem.2 fun x hx => hno q hq x.1 (hE.resident x hx)
    exact hE.unmoved

theorem Checked.moves (hc : Checked h s t) (hn : 1 ≤ s.npages_to_swap) (hl : s.freelist = [])
    (hs : ¬Starved s) : t.freelist ≠ [] := by
  have hle : s.freelist.length ≤ s.threshold := by rw [hl]; exact Nat.zero_le _
  obtain ⟨hfull, hvictim⟩ := not_or.1 hs
  push Not at hvictim
  obtain ⟨q, hq, v, hv⟩ := hvictim
  obtain ⟨L, hE, hlen⟩ := hc.some hle q hq
  have hr : 0 < (residentPages s (s.proc q).pgdir).card :=
    Finset.card_pos.2 ⟨v, mem_residentPages.2 hv⟩
  have hf : 0 < (freeSlots s).card := by
    unfold Full at hfull
    push Not at hfull
    obtain ⟨k, hk, hfree⟩ := hfull
    exact Finset.card_pos.2 ⟨k, mem_freeSlots.2 ⟨hk, Bool.eq_true_of_not_eq_false hfree⟩⟩
  intro ht
  have h0 := congrArg List.length (hE.freelist.symm.trans ht)
  rw [List.length_append, framesOf, List.length_map, List.length_nil] at h0
  omega

theorem adapt_npages (hn : 1 ≤ s.npages_to_swap) : 1 ≤ (adapt s).npages_to_swap := by
  unfold adapt
  dsimp only
  split
  · decide
  · omega

theorem Checked.npages (hc : Checked h s t) (hn : 1 ≤ s.npages_to_swap) : 1 ≤ t.npages_to_swap := by
  by_cases hlt : s.threshold < s.freelist.length
  · rw [hc.enough hlt]
    exact hn
  · have htune := Prod.ext_iff.1 (hc.tuning (by omega))
    exact (adapt_npages hn).trans_eq htune.2.symm

/-! ## `kalloc` -/

theorem popFrame_nil (hl : s.freelist = []) : popFrame.run s = .ok (none, s) := by
  unfold popFrame
  rw [K.run, Code.run_get_bind, hl]
  rfl

theorem popFrame_cons {f : Nat} {rest : List Nat} (hl : s.freelist = f :: rest) :
    popFrame.run s = .ok (some f, (s.setMem f (memset 5)).setFree rest) := by
  unfold popFrame
  rw [K.run, Code.run_get_bind, hl]
  rfl

theorem popFrame_some (hl : s.freelist ≠ []) : K.Returns popFrame s fun r _ => r ≠ none := by
  obtain ⟨f, rest, hl⟩ := List.exists_cons_of_ne_nil hl
  exact ⟨some f, _, popFrame_cons hl, Option.some_ne_none f⟩

theorem swapIfEmpty_some (hl : s.freelist ≠ []) : swapIfEmpty.run s = .ok ((), s) := by
  unfold swapIfEmpty
  rw [K.run, Code.run_get_bind, if_neg hl]
  rfl

theorem swapIfEmpty_nil (hI : Inv h s) (hl : s.freelist = []) :
    K.Returns swapIfEmpty s fun _ t => Checked h s t := by
  unfold swapIfEmpty
  rw [K.Returns, Code.returns_get_bind, if_pos hl]
  exact checkAndSwap_exact hI

/-- **`kalloc` fails** exactly when the free list is empty and the machine is starved, and
then it has changed nothing. -/
theorem kalloc_exact (hI : Inv h s) (hn : 1 ≤ s.npages_to_swap) :
    K.Returns kalloc s fun r t => (r = none ↔ s.freelist = [] ∧ Starved s) ∧
      (r = none → Unmoved s t ∧ 1 ≤ t.npages_to_swap) := by
  unfold kalloc
  rw [K.Returns, Code.returns_get_bind]
  by_cases hl : s.freelist = []
  · rw [if_pos hl]
    refine (checkAndSwap_exact hI).bind fun _ t hc => ?_
    by_cases hs : Starved s
    · -- nothing leaves, in the first round and in the second
      have hst := hc.starved hl hs
      have htl : t.freelist = [] := hst.freelist.trans hl
      refine (swapIfEmpty_nil hc.evicts.1 htl).bind fun _ u hc' => ?_
      have htu := hc'.starved htl (hst.starved.2 hs)
      refine ⟨none, u, popFrame_nil (htu.freelist.trans htl), ?_, fun _ => ⟨hst.trans htu, ?_⟩⟩
      · exact iff_of_true rfl ⟨hl, hs⟩
      · exact hc'.npages (hc.npages hn)
    · have htl := hc.moves hn hl hs
      refine Code.Returns.bind_run (swapIfEmpty_some htl) ?_
      refine (popFrame_some htl).mono fun r u hr => ⟨?_, fun h => absurd h hr⟩
      exact iff_of_false hr fun h => hs h.2
  · rw [if_neg hl]
    refine (popFrame_some hl).mono fun r u hr => ⟨?_, fun h => absurd h hr⟩
    exact iff_of_false hr fun h => hl h.1

/-- A second attempt does not help. -/
theorem kallocRetry_exact (n : Nat) (hI : Inv h s) (hn : 1 ≤ s.npages_to_swap) :
    K.Returns (kallocRetry n) s fun r t => (r = none ↔ s.freelist = [] ∧ Starved s) ∧
      (r = none → Unmoved s t ∧ 1 ≤ t.npages_to_swap) := by
  induction n generalizing s with
  | zero => exact kalloc_exact hI hn
  | succ n ih =>
    unfold kallocRetry
    refine ((kalloc_exact hI hn).and (kalloc_spec hI).spec).bind fun r t hpost => ?_
    obtain ⟨⟨hr, hst⟩, ha⟩ := hpost
    cases r with
    | some f => exact Code.returns_pure.2 ⟨hr, hst⟩
    | none =>
      obtain ⟨hl, hs⟩ := hr.1 rfl
      obtain ⟨hst, hnt⟩ := hst rfl
      have htl : t.freelist = [] := hst.freelist.trans hl
      refine (checkAndSwap_exact ha.1).bind fun _ u hc => ?_
      have htu := hc.starved htl (hst.starved.2 hs)
      have hsu := hst.trans htu
      refine (ih hc.evicts.1 (hc.npages hnt)).mono fun r w ⟨hr', hw⟩ => ⟨?_, fun hnone => ?_⟩
      · rw [hr', hsu.starved, hsu.freelist]
      · exact ⟨hsu.trans (hw hnone).1, (hw hnone).2⟩

/-- **`kalloc` fails only when memory is exhausted** exactly when the free list is not empty,
or every slot is in use, or no process has a page, or the victim has one. -/
theorem kalloc_exhausted_iff (hI : Inv h s) (hn : 1 ≤ s.npages_to_swap) :
    K.Returns kalloc s fun r t => (r = none → Full t ∨ NoPage t) ↔
      (s.freelist ≠ [] ∨ Full s ∨ NoPage s ∨
        ∃ q, findVictimProc s = some q ∧ ∃ v, Resident s (s.proc q).pgdir v) := by
  refine (kalloc_exact hI hn).mono fun r t ⟨hr, hpost⟩ => ?_
  have hst : r = none → Unmoved s t := fun hnone => (hpost hnone).1
  constructor
  · intro hP
    by_cases hnone : r = none
    · rcases hP hnone with hf | hp
      · exact Or.inr (Or.inl ((hst hnone).full.1 hf))
      · exact Or.inr (Or.inr (Or.inl ((hst hnone).noPage.1 hp)))
    · by_cases hl : s.freelist = []
      · obtain ⟨-, hv⟩ := not_or.1 fun hs => hnone (hr.2 ⟨hl, hs⟩)
        push Not at hv
        exact Or.inr (Or.inr (Or.inr hv))
      · exact Or.inl hl
  · intro hC hnone
    obtain ⟨hl, hs⟩ := hr.1 hnone
    rw [(hst hnone).full, (hst hnone).noPage]
    rcases hC with hC | hC | hC | ⟨q, hq, v, hv⟩
    · exact absurd hl hC
    · exact Or.inl hC
    · exact Or.inr hC
    · exact hs.imp_right fun hno => absurd hv (hno q hq v)

theorem kalloc_exhausted_iff_twoPages : K.Returns kalloc twoPages fun r t =>
    (r = none → Full t ∨ NoPage t) ↔
      (twoPages.freelist ≠ [] ∨ Full twoPages ∨ NoPage twoPages ∨
        ∃ q, findVictimProc twoPages = some q ∧ ∃ v, Resident twoPages (twoPages.proc q).pgdir v) :=
  kalloc_exhausted_iff twoPages_inv (by decide)

/-! ## A process that is counted and has nothing -/

/-- Process 0 (two pages at frames 3 and 4) grows by one byte inside its last page; process 1
has one page, at frame 8. No frame is free. -/
def drifting : Machine where
  kend := 1
  freelist := []
  mem _ := memset 0
  space d := if d = 1 then some {
      tab := fun i => if i = 0 then some 2 else none
      pte := fun v => if v = 0 then ⟨3, 7#12⟩ else if v = 1 then ⟨4, 7#12⟩ else Pte.zero }
    else if d = 6 then some {
      tab := fun i => if i = 0 then some 7 else none
      pte := fun v => if v = 0 then ⟨8, 7#12⟩ else Pte.zero }
    else none
  slots _ := ⟨0#12, true⟩
  disk _ _ := 0
  threshold := 100
  npages_to_swap := 4
  proc i := if i = 0 then ⟨4097, 1, 5, .RUNNING, 1, none, 4097, none, false, 2#32⟩
    else if i = 1 then ⟨4096, 6, 9, .RUNNABLE, 2, some 0, 4096, none, false, 1#32⟩
    else ⟨0, 0, 0, .UNUSED, 0, none, 0, none, false, 0#32⟩
  initproc := 0
  nextpid := 3
  pipe _ := none
  cpu := ⟨1, 0, []⟩
  hist := ⟨fun _ => none, [], [], false⟩

/-- What each frame of `drifting` is. -/
def driftingOwner : Nat → Option Owner
  | 1 => some (.dir 1)
  | 2 => some (.table 1 0)
  | 3 => some (.page 1 0)
  | 4 => some (.page 1 1)
  | 5 => some (.kstack 0)
  | 6 => some (.dir 6)
  | 7 => some (.table 6 0)
  | 8 => some (.page 6 0)
  | 9 => some (.kstack 1)
  | _ => none

theorem drifting_pte (d v : Nat) : drifting.pte d v =
    if d = 1 ∧ v = 0 then ⟨3, 7#12⟩ else if d = 1 ∧ v = 1 then ⟨4, 7#12⟩
    else if d = 6 ∧ v = 0 then ⟨8, 7#12⟩ else Pte.zero := by
  by_cases h1 : d = 1
  · subst h1
    simp [Machine.pte, drifting]
  · by_cases h6 : d = 6
    · subst h6
      simp [Machine.pte, drifting]
    · simp [Machine.pte, drifting, h1, h6]

theorem drifting_tab (d i : Nat) : drifting.tab d i =
    if d = 1 ∧ i = 0 then some 2 else if d = 6 ∧ i = 0 then some 7 else none := by
  by_cases h1 : d = 1
  · subst h1
    simp [Machine.tab, drifting]
  · by_cases h6 : d = 6
    · subst h6
      simp [Machine.tab, drifting]
    · simp [Machine.tab, drifting, h1, h6]

theorem drifting_uses (o : Owner) (f : Nat) (hu : Uses ∅ drifting o f) :
    driftingOwner f = some o := by
  rcases o with ⟨d, v⟩ | ⟨d, i⟩ | d | p | i | g
  · obtain ⟨-, hp, rfl⟩ := hu
    rw [drifting_pte] at hp ⊢
    split_ifs at hp ⊢ with h1 h2 h3
    · obtain ⟨rfl, rfl⟩ := h1; rfl
    · obtain ⟨rfl, rfl⟩ := h2; rfl
    · obtain ⟨rfl, rfl⟩ := h3; rfl
    · cases hp
  · have hf : drifting.tab d i = some f := hu
    rw [drifting_tab] at hf
    split_ifs at hf with h1 h2
    · obtain ⟨rfl, rfl⟩ := h1; cases hf; rfl
    · obtain ⟨rfl, rfl⟩ := h2; cases hf; rfl
  · obtain ⟨hs, rfl⟩ := hu
    by_cases h1 : f = 1
    · subst h1; rfl
    · by_cases h6 : f = 6
      · subst h6; rfl
      · simp [drifting, h1, h6] at hs
  · obtain ⟨hk, hne⟩ := hu
    by_cases h0 : p = 0
    · subst h0; cases hk; rfl
    · by_cases h1 : p = 1
      · subst h1; cases hk; rfl
      · simp only [drifting, if_neg h0, if_neg h1] at hk
        exact absurd hk.symm hne
  · cases hu
  · exact hu.1.elim

theorem drifting_inv : Inv ∅ drifting := by
  have hlive : ∀ p, (drifting.proc p).live → p = 0 ∨ p = 1 := by
    intro p hl
    by_contra hp
    obtain ⟨h0, h1⟩ := not_or.1 hp
    exact hl.1 (by simp [drifting, h0, h1])
  have hno : ∀ o k, ¬SlotUses drifting o k := by
    rintro ⟨d, v⟩ k ⟨-, -, hs, -⟩
    rw [drifting_pte] at hs
    split_ifs at hs
    all_goals cases hs
  refine ⟨{
    own := ⟨fun {o p r} ho hp => ?_, fun _ hf => by cases hf⟩
    nodup := List.nodup_nil
    range_free := fun f hf => by cases hf
    range_used := fun o f hu => ?_
    kend_pos := by decide
    tab_zero := fun d v hn => ?_
    slot_own := ⟨fun ho => absurd ho (hno _ _), fun ho => absurd ho (hno _ _)⟩
    slot_range := fun o k ho => absurd ho (hno o k) }, {
    dir := fun p hl => by rcases hlive p hl with rfl | rfl <;> rfl
    dir_inj := fun p q hp hq he => ?_
    size := fun p hl => by rcases hlive p hl with rfl | rfl <;> decide
    embryo := fun p he => ?_ }⟩
  · exact Option.some.inj ((drifting_uses o r ho).symm.trans (drifting_uses p r hp))
  · have ho := drifting_uses o f hu
    unfold driftingOwner at ho
    split at ho
    all_goals first | decide | cases ho
  · rw [drifting_tab] at hn
    rw [drifting_pte]
    split_ifs at hn with h1 h6
    rw [if_neg, if_neg, if_neg]
    · rintro ⟨rfl, rfl⟩; exact h6 ⟨rfl, rfl⟩
    · rintro ⟨rfl, rfl⟩; exact h1 ⟨rfl, rfl⟩
    · rintro ⟨rfl, rfl⟩; exact h1 ⟨rfl, rfl⟩
  · rcases hlive p hp with rfl | rfl <;> rcases hlive q hq with rfl | rfl
    · rfl
    · cases he
    · cases he
    · rfl
  · by_cases h0 : p = 0
    · subst h0; cases he
    · by_cases h1 : p = 1
      · subst h1; cases he
      · simp [drifting, h0, h1]

/-- Process 0 has called `sbrk(1)` and process 1 has been dispatched. -/
def drifted : Machine := K.final (schedule 1) (K.final (growproc 1) drifting)

theorem drifted_runs : ∃ s, (growproc 1).run drifting = .ok (true, s) ∧
    (schedule 1).run s = .ok (true, drifted) :=
  ⟨_, rfl, rfl⟩

theorem drifted_inv : Inv ∅ drifted := by
  obtain ⟨s, h1, h2⟩ := drifted_runs
  have hs := (growproc_spec drifting_inv ⟨⟨by decide, by decide⟩, by decide⟩ (by decide) (by decide)
    _ _ h1).serves.inv
  exact (schedule_spec hs _ _ h2).1

theorem drifted_resident (v : Nat) : Resident drifted 1 v ↔ v ∈ ({0, 1} : Finset Nat) := by
  have hpte : drifted.pte 1 v = drifting.pte 1 v := rfl
  unfold Resident
  rw [hpte, drifting_pte, Finset.mem_insert, Finset.mem_singleton]
  by_cases h0 : v = 0
  · subst h0
    exact iff_of_true ⟨by decide, rfl, rfl⟩ (Or.inl rfl)
  · by_cases h1 : v = 1
    · subst h1
      exact iff_of_true ⟨by decide, rfl, rfl⟩ (Or.inr rfl)
    · rw [if_neg fun h => h0 h.2, if_neg fun h => h1 h.2, if_neg fun h => h0 h.2]
      exact iff_of_false (fun h => absurd h.2.1 (by decide)) (not_or.2 ⟨h0, h1⟩)

theorem drifted_pages : residentPages drifted 1 = {0, 1} :=
  Finset.ext fun v => mem_residentPages.trans (drifted_resident v)

theorem drifted_slots : 2 < (freeSlots drifted).card := by
  have hall : freeSlots drifted = Finset.range SWAP_SLOT_TOTAL :=
    Finset.filter_true_of_mem fun _ _ => rfl
  rw [hall, Finset.card_range]
  decide

/-- Process 1 keeps its page: a process whose space no eviction touches. -/
theorem drifted_other (hp : s.proc 1 = drifted.proc 1) (hd : s.space 6 = drifted.space 6) :
    ¬NoPage s := by
  intro hpage
  refine hpage 1 (by decide) ?_ 0 ?_
  · rw [hp]
    exact ⟨by decide, by decide⟩
  · have hpte : s.pte 6 0 = drifted.pte 6 0 := by
      unfold Machine.pte
      rw [hd]
    rw [hp]
    unfold Resident
    rw [show (drifted.proc 1).pgdir = 6 from rfl, hpte]
    exact ⟨by decide, rfl, rfl⟩

/-- The counter of process 0 is one more than its pages, so one round leaves it at one. -/
theorem drifted_victim (hp : ∀ p, s.proc p = if p = 0 then
    { drifted.proc p with rss := (drifted.proc p).rss - BitVec.ofNat 32 2 } else drifted.proc p) :
    findVictimProc s = some 0 := by
  let u : Machine := { drifted with
    proc := fun p =>
      if p = 0 then { drifted.proc p with rss := (drifted.proc p).rss - BitVec.ofNat 32 2 }
      else drifted.proc p }
  have hu : findVictimProc u = some 0 := by decide
  rw [← hu]
  exact findVictimProc_congr (funext hp)

theorem kalloc_cons {f : Nat} {rest : List Nat} (hl : s.freelist = f :: rest) :
    kalloc.run s = .ok (some f, (s.setMem f (memset 5)).setFree rest) := by
  have hne : s.freelist ≠ [] := by rw [hl]; exact List.cons_ne_nil f rest
  unfold kalloc
  rw [K.run, Code.run_get_bind, if_neg hne]
  exact popFrame_cons hl

theorem kalloc_refill {f : Nat} {rest : List Nat} (hl : s.freelist = [])
    (hrun : checkAndSwap.run s = .ok ((), t)) (ht : t.freelist = f :: rest) :
    kalloc.run s = .ok (some f, (t.setMem f (memset 5)).setFree rest) := by
  have hne : t.freelist ≠ [] := by rw [ht]; exact List.cons_ne_nil f rest
  unfold kalloc
  rw [K.run, Code.run_get_bind, if_pos hl, Code.run_bind_of_ok hrun,
    Code.run_bind_of_ok (swapIfEmpty_some hne)]
  exact popFrame_cons ht

/-- The third frame that process 1 asks for: `kalloc` fails, with slots free and a page of
process 1 in memory. -/
theorem kalloc_not_exhausted : ∃ s s3 s4 s5 f g, Inv ∅ drifting ∧
    (growproc 1).run drifting = .ok (true, s) ∧ (schedule 1).run s = .ok (true, drifted) ∧
    kalloc.run drifted = .ok (some f, s3) ∧ kalloc.run s3 = .ok (some g, s4) ∧
    kalloc.run s4 = .ok (none, s5) ∧ ¬(Full s5 ∨ NoPage s5) := by
  obtain ⟨s, h1, h2⟩ := drifted_runs
  obtain ⟨⟨⟩, t, hround, hc⟩ := checkAndSwap_exact drifted_inv
  obtain ⟨L, hE, hlen⟩ := hc.some (Nat.zero_le _) 0 (by decide)
  have hE : Evicted 0 1 L drifted t := hE
  have hslots := drifted_slots
  have hcard : (residentPages drifted 1).card = 2 := by
    rw [drifted_pages]
    rfl
  have hL : L.length = 2 := by
    rw [hlen, show (drifted.proc 0).pgdir = 1 from rfl, hcard,
      show drifted.npages_to_swap = 4 from rfl]
    omega
  -- both pages of process 0 have left
  have hno : ∀ v, ¬Resident t 1 v := hE.gone_all (by rw [hcard, hL])
  have hfree : ¬Full t := by
    apply hE.not_full
    rw [hL]
    exact drifted_slots
  obtain ⟨f, g, hlist⟩ : ∃ f g, t.freelist = [f, g] := by
    apply List.length_eq_two.1
    rw [hE.freelist, show drifted.freelist = [] from rfl, List.append_nil, framesOf,
      List.length_map, hL]
  -- the two frames go to process 1
  have hk1 := kalloc_refill (s := drifted) rfl hround hlist
  set s3 := (t.setMem f (memset 5)).setFree [g] with hs3
  have hI3 := ((kalloc_spec drifted_inv).spec _ _ hk1).1
  have hk2 : kalloc.run s3 = .ok (some g, (s3.setMem g (memset 5)).setFree []) := kalloc_cons rfl
  set s4 := (s3.setMem g (memset 5)).setFree [] with hs4
  have hI4 := ((kalloc_spec hI3).spec _ _ hk2).1
  have hproc : ∀ p, s4.proc p = if p = 0 then
      { drifted.proc p with rss := (drifted.proc p).rss - BitVec.ofNat 32 2 } else drifted.proc p := by
    intro p
    rw [← hL]
    exact hE.proc p
  -- process 0 is picked again, and has nothing
  have hvictim : findVictimProc s4 = some 0 := drifted_victim hproc
  have hstarved : Starved s4 := by
    refine Or.inr fun q hq v hv => ?_
    obtain rfl := Option.some.inj (hvictim.symm.trans hq)
    have hdir : (s4.proc 0).pgdir = 1 := hE.pgdir 0
    rw [hdir] at hv
    exact hno v hv
  have hnp : 1 ≤ s4.npages_to_swap := hc.npages (by decide)
  obtain ⟨r, s5, hk3, hr, hsame⟩ := kalloc_exact hI4 hnp
  obtain rfl : r = none := hr.2 ⟨rfl, hstarved⟩
  have hun := (hsame rfl).1
  refine ⟨s, s3, s4, s5, f, g, drifting_inv, h1, h2, hk1, hk2, hk3, ?_⟩
  rintro (hfull | hpage)
  · exact hfree (hun.full.1 hfull)
  · exact drifted_other (hproc 1) (hE.space 6 (by decide)) (hun.noPage.1 hpage)

end Xv6.Swap
