/-
`duplicateSwapSlot` and `copyuvm`: what the child of a fork gets.

Whatever the allocations of `copyuvm` evict, the child's directory is new, each
of its pages has a frame or a slot of its own, and the parent sees the same
bytes as before. Whether the child gets the parent's bytes is another matter: the
frame number of a page in memory is read before the frame for its copy is
allocated, and that allocation may page out the very page. `Intact` says of one
turn of the loop that the frame still has its bytes when it is copied, and
`CopiesIntact` says it of every turn; `copyLoop_spec` proves that the child gets
the parent's bytes exactly then.
-/
import Xv6.Swap.Grow

set_option autoImplicit false

namespace Xv6.Swap

open Xv6.Lib

variable {h : Set Nat} {s t u : Machine} {X : Nat → Nat → Prop}

/-! ## Duplicating a slot -/

/-- The copying loop over `is` copies exactly the blocks in `is`. -/
theorem copyBlocks_spec (src dst : Nat) (is : List (Fin SWAP_BLOCKS_PER_PAGE)) (s : Machine)
    (hne : ∀ i j : Fin SWAP_BLOCKS_PER_PAGE, src + i.val ≠ dst + j.val) :
    K.Returns (copyBlocks src dst is) s fun _ t =>
      ∃ disk, Quiet (s.setDisk disk) t ∧
        (∀ i : Fin SWAP_BLOCKS_PER_PAGE, disk (dst + i) =
          if i ∈ is then s.disk (src + i) else s.disk (dst + i)) ∧
        ∀ c, (∀ i : Fin SWAP_BLOCKS_PER_PAGE, c ≠ dst + i) → disk c = s.disk c := by
  induction is generalizing s with
  | nil => exact Code.returns_pure.2 ⟨s.disk, .refl s, fun i => by simp, fun _ _ => rfl⟩
  | cons i is ih =>
    unfold copyBlocks
    refine (bread_spec _ s).bind fun b t hpost => ?_
    obtain ⟨⟨c, r, ht, hc⟩, hb⟩ := hpost
    subst ht hb
    refine (bread_spec _ _).bind fun _ t hpost => ?_
    obtain ⟨⟨c1, r1, ht, hc1⟩, _⟩ := hpost
    subst ht
    refine (bwrite_spec _ _ _).bind fun _ t hpost => ?_
    obtain ⟨c2, r2, ht, hc2⟩ := hpost
    subst ht
    refine (ih _).mono fun _ u hpost => ?_
    obtain ⟨disk, ⟨c3, r3, hu, hc3⟩, hd, ho⟩ := hpost
    subst hu
    refine ⟨disk, ⟨c3, r3, rfl, hc3.trans (hc2.trans (hc1.trans hc))⟩, fun j => ?_, fun x hx => ?_⟩
    · rw [hd j]
      simp only [Machine.setCpu_disk, Machine.setBlock_disk, List.mem_cons]
      rw [Function.update_of_ne (hne j i)]
      rcases eq_or_ne j i with rfl | hji
      · simp
      · have hne' : dst + j.val ≠ dst + i.val := fun he => hji (Fin.ext (by omega))
        rw [Function.update_of_ne hne']
        simp only [hji, false_or]
    · rw [ho x hx]
      exact Function.update_of_ne (hx i) _ _

/-- Slot `j` is a copy of slot `k` that no page is in. -/
structure SlotCopy (s t : Machine) (k j : Nat) : Prop where
  lt : j < SWAP_SLOT_TOTAL
  used : (t.slots j).is_free = false
  unowned : ∀ o, ¬ SlotUses t o j
  perm : (t.slots j).page_perm = (s.slots k).page_perm
  page : t.slotPage j = s.slotPage k

/-- **`duplicateSwapSlot`** of a slot in use. -/
theorem duplicateSwapSlot_spec {k : Nat} (hI : Inv h s) (hk : k < SWAP_SLOT_TOTAL)
    (hused : (s.slots k).is_free = false) :
    K.Returns (duplicateSwapSlot k) s fun r t =>
      Evicts h s t ∧ ∀ j, r = some j → SlotCopy s t k j := by
  unfold duplicateSwapSlot
  simp only [Code.returns_get_bind, if_neg (Nat.not_le.2 hk), hused, Bool.false_eq_true, if_false]
  refine (findFreeSlotRetry_spec 2 hI).bind fun r t hpost => ?_
  obtain ⟨u, hu, hr⟩ := hpost
  cases r with
  | none =>
    subst hr
    exact Code.returns_pure.2 ⟨hu, fun j hj => by cases hj⟩
  | some j =>
    obtain ⟨hj, hfree, rfl⟩ := hr
    simp only [Code.returns_modify_bind]
    obtain ⟨hks, hkf, hkp⟩ := hu.2.slot k hused
    have hkj : k ≠ j := fun he => by rw [← he, hks, hused] at hfree; cases hfree
    refine (copyBlocks_spec _ _ _ _ fun i i' he => hkj (blockno_inj he).1).bind
      fun _ t hpost => ?_
    obtain ⟨disk, ⟨c, rl, ht, hc⟩, hd, ho⟩ := hpost
    subst ht
    refine Code.returns_pure.2 ?_
    have hcopy : ∀ i : Fin SWAP_BLOCKS_PER_PAGE,
        disk (SWAP_BLOCK_START + j * SWAP_BLOCKS_PER_PAGE + i) = chunk (u.slotPage k) i := by
      intro i
      rw [hd i, if_pos (List.mem_finRange i)]
      simp [Machine.slotPage, Machine.takeSlot]
    obtain ⟨hE, hn⟩ := hu.1.useSlot (k := j)
      (t := (((u.takeSlot j).setSlot j fun sl =>
        { sl with page_perm := ((u.takeSlot j).slots k).page_perm }).setDisk disk).setCpu c rl)
      hfree rfl (by simpa [Machine.takeSlot] using hc)
      (fun i hi => ⟨by simp [Machine.takeSlot, hi], rfl,
        slotPage_of_ne hi fun c hc => ho c hc⟩)
      (by simp [Machine.takeSlot])
    refine ⟨hu.trans hE, fun i hi => ?_⟩
    cases hi
    refine ⟨hj, by simp [Machine.takeSlot], hn, ?_, ?_⟩
    · simp [Machine.takeSlot, hkj, hks]
    · rw [← hkp]
      exact slotPage_of_chunks hcopy

/-! ## One page -/

/-- The frame of page `v` of the parent keeps its bytes until it is copied. -/
structure Intact (parent v : Nat) (s : Machine) : Prop where
  /-- A page in memory: while the frame of the copy is allocated. -/
  present : (s.pte parent v).present = true → ∀ f t,
    (kallocRetry 2).run s = .ok (some f, t) → t.mem (s.pte parent v).ppn = s.mem (s.pte parent v).ppn
  /-- A page that is paged in because no slot is left for a copy: the same. -/
  pagedIn : (s.pte parent v).swapped = true → ∀ s1 s2 f t,
    (duplicateSwapSlot (s.pte parent v).ppn).run s = .ok (none, s1) →
    (swapPageIn parent v).run s1 = .ok (true, s2) → kalloc.run s2 = .ok (some f, t) →
    t.mem (s2.pte parent v).ppn = s2.mem (s2.pte parent v).ppn

/-- Page `v` of the child has what page `v` of the parent had. -/
def Copied (parent d : Nat) (s t : Machine) (v : Nat) : Prop :=
  t.content d v = s.content parent v ∧ (t.pte d v).perm = (s.pte parent v).perm

/-- Page `v` of `parent` or of `d`. -/
abbrev pairPage (parent d v : Nat) : Nat → Nat → Prop := fun d' v' => (d' = d ∨ d' = parent) ∧ v' = v

/-- The outcome of copying page `v`. -/
structure CopiesPage (h : Set Nat) (parent d v : Nat) (s : Machine) (ok : Bool) (t : Machine) :
    Prop where
  inv : Inv h t
  keeps : Keeps h (pairPage parent d v) s t
  same : Same s t parent v
  copied : ok = true → (Copied parent d s t v ↔ Intact parent v s)

/-- The frame `pa`, read in `s`, is copied to the frame `f`, allocated since. -/
theorem copyFrame_spec {d v pa f : Nat} {flags : BitVec 12} (hI : Inv (insert f h) s) (hf : f ∉ h)
    (hd : (s.space d).isSome = true) (hv : v < UPAGES) :
    K.Spec (copyFrame d v pa f flags) s fun ok t => Inv h t ∧ Keeps h (onlyPage d v) s t ∧
      (ok = true → t.content d v = some (s.mem pa) ∧
        (t.pte d v).perm = flags &&& ~~~(PTE_P ||| PTE_A)) := by
  unfold copyFrame
  simp only [Code.spec_modify_bind]
  have hI1 : Inv (insert f h) (s.setMem f (s.mem pa)) := hI.congr rfl
  have hK1 : Keeps h (onlyPage d v) s (s.setMem f (s.mem pa)) := Machine.setMem_keeps hI hf
  refine (mapPages_spec hI1 hf hd hv).bind fun ok t hpost => ?_
  obtain ⟨_, hm⟩ := hpost
  cases ok with
  | true =>
    obtain ⟨hI2, hK2, hpte, hmem⟩ := hm
    refine Code.spec_pure.2 ⟨hI2, hK1.trans hK2, fun _ => ⟨?_, ?_⟩⟩
    · rw [Machine.content, hpte, if_pos (Pte.mapped_present _ _), Pte.mapped_ppn, hmem]
      simp
    · rw [hpte, Pte.mapped_perm]
  | false =>
    obtain ⟨hI2, hK2, -⟩ := hm
    refine (kfree_held hI2 hf).spec.bind fun _ u hE => Code.spec_pure.2 ?_
    have hsub : h ⊆ insert f h := Set.subset_insert f h
    refine ⟨hE.1, hK1.trans (((hK2.forget hsub).mono fun _ _ hx => hx.elim).trans
      (hE.keeps ⟨hI2.toFrames.forget hsub, hI2.toProcs⟩)), fun hx => by cases hx⟩

/-- The outcome of a routine is the one that running it gives. -/
theorem K.spec_run {α : Type} (m : K α) (s : Machine) : m.Spec s fun a t => m.run s = .ok (a, t) :=
  fun _ _ h => h

/-- What one turn of the loop of `copyuvm` needs to know of the two directories. -/
structure Pair (parent d v : Nat) (s : Machine) : Prop where
  parent_dir : (s.space parent).isSome = true
  dir : (s.space d).isSome = true
  parent_live : ¬ s.zombie parent
  live : ¬ s.zombie d
  ne : d ≠ parent
  lt : v < UPAGES

theorem Pair.keeps {parent d v : Nat} (hp : Pair parent d v s) (hK : Keeps h noPage s t) :
    Pair parent d v t where
  parent_dir := hK.dir_noPage hp.parent_dir
  dir := hK.dir_noPage hp.dir
  parent_live := fun hx => hp.parent_live ((hK.zombie _).1 hx)
  live := fun hx => hp.live ((hK.zombie _).1 hx)
  ne := hp.ne
  lt := hp.lt

/-- The branch for a page in memory. -/
theorem copyPresent_spec {parent d v : Nat} (hI : Inv h s) (hp : Pair parent d v s)
    (hpres : (s.pte parent v).present = true) :
    K.Spec (copyPresent d v (s.pte parent v)) s (CopiesPage h parent d v s) := by
  unfold copyPresent
  refine ((K.spec_run _ s).and (kallocRetry_spec 2 hI).spec).bind fun r s1 hpost => ?_
  obtain ⟨hrun, ha⟩ := hpost
  have hK1 : Keeps h noPage s s1 := ha.keeps hI
  have hp1 := hp.keeps hK1
  cases r with
  | none =>
    refine Code.spec_pure.2 ⟨ha.1, hK1.mono fun _ _ hx => hx.elim, ?_, fun hx => by cases hx⟩
    exact (hK1.page _ _ hp.parent_dir hp.parent_live hp.lt id).toSame
  | some f =>
    obtain ⟨hI1, -, hf, -⟩ := ha
    refine (copyFrame_spec hI1 hf hp1.dir hp.lt).mono fun ok t hpost => ?_
    obtain ⟨hIt, hKt, hcopy⟩ := hpost
    have hK : Keeps h (onlyPage d v) s t := (hK1.mono fun _ _ hx => hx.elim).trans hKt
    refine ⟨hIt, hK.mono fun _ _ hx => ⟨Or.inl hx.1, hx.2⟩, ?_, fun hok => ?_⟩
    · exact (hK.page _ _ hp.parent_dir hp.parent_live hp.lt fun hx => hp.ne hx.1.symm).toSame
    · obtain ⟨hc, hperm⟩ := hcopy hok
      have hcp : s.content parent v = some (s.mem (s.pte parent v).ppn) := by
        rw [Machine.content, if_pos hpres]
      unfold Copied
      rw [hc, hcp, Option.some.injEq]
      constructor
      · rintro ⟨hm, -⟩
        refine ⟨fun _ f' t' hrun' => ?_, fun hs => ?_⟩
        · rw [hrun] at hrun'
          cases hrun'
          exact hm
        · rw [(Pte.swapped_iff.1 hs).1] at hpres
          cases hpres
      · exact fun hi => ⟨hi.present hpres f s1 hrun, hperm⟩

/-- The page `v` of `d` goes to slot `e.ppn`, in use and with no page in it. -/
theorem Inv.placeSlot {d v : Nat} {e : Pte} (hI : Inv h s) (hd : (s.space d).isSome = true)
    (hv : v < UPAGES) (htab : (s.tab d (v / NPTENTRIES)).isSome = true) (hs : e.swapped = true)
    (hlt : e.ppn < SWAP_SLOT_TOTAL) (hused : (s.slots e.ppn).is_free = false)
    (hno : ∀ o, ¬ SlotUses s o e.ppn)
    (hperm : permOf (s.slots e.ppn).page_perm = e.perm) (huser : e.user = true) :
    let t := (s.setPte d v e).setHist (History.fill d v e.ppn)
    Inv h t ∧ Keeps h (onlyPage d v) s t ∧ t.pte d v = e := by
  intro t
  have hpte : ∀ d' v', t.pte d' v' = if d' = d ∧ v' = v then e else s.pte d' v' :=
    Machine.setPte_pte hd
  have hdirs : ∀ d', (t.space d').isSome = (s.space d').isSome := Machine.setPte_isSome s d v _
  have htabs : ∀ d' i, t.tab d' i = s.tab d' i := Machine.setPte_tab s d v _
  have huses : ∀ o f, Uses h t o f → Uses h s o f := by
    rintro (⟨d', v'⟩ | ⟨d', i⟩ | d' | p | i | g) f hf
    · by_cases hn : d' = d ∧ v' = v
      · simp only [Uses, hpte, if_pos hn] at hf
        rw [(Pte.swapped_iff.1 hs).1] at hf
        cases hf.2.1
      · simp only [Uses, hpte, if_neg hn] at hf
        exact hf
    · simp only [Uses, htabs] at hf
      exact hf
    · simp only [Uses, hdirs] at hf
      exact hf
    all_goals exact hf
  -- the slot gets the page as its only user
  have hslots : ∀ o k, SlotUses t o k → (o = (d, v) ∧ k = e.ppn) ∨ SlotUses s o k := by
    rintro ⟨d', v'⟩ k ⟨hz, hv', hs', hk⟩
    by_cases hn : d' = d ∧ v' = v
    · rw [hpte, if_pos hn] at hk
      exact Or.inl ⟨by rw [hn.1, hn.2], hk.symm⟩
    · rw [hpte, if_neg hn] at hs' hk
      exact Or.inr ⟨hz, hv', hs', hk⟩
  refine ⟨⟨?_, { hI.toProcs with dir := fun p hp => by rw [hdirs]; exact hI.dir p hp }⟩, ?_, ?_⟩
  · exact { hI.toFrames with
      own := hI.own.mono huses fun _ hy => hy
      range_used := fun o f hf => hI.range_used o f (huses o f hf)
      tab_zero := fun d' v' hn => by
        rw [htabs] at hn
        have hne : ¬ (d' = d ∧ v' = v) := by
          rintro ⟨rfl, rfl⟩
          rw [hn] at htab
          cases htab
        rw [hpte, if_neg hne, hI.tab_zero d' v' hn]
      slot_own := hI.slot_own.claim (by simp [hused]) hno hslots fun _ hk => hk
      slot_range := fun o k hk => by
        rcases hslots o k hk with ⟨-, rfl⟩ | hk
        · exact hlt
        · exact hI.slot_range o k hk }
  · exact {
      kend := rfl, initproc := rfl, nextpid := rfl, pipe := rfl, cpu_proc := rfl
      proc := fun p => ⟨_, rfl⟩
      held := fun _ _ => rfl
      dirs := fun d' _ hd' => by rw [hdirs, hd']
      page := fun d' v' hd' hz hv' hn => by
        have he : t.pte d' v' = s.pte d' v' := by rw [hpte, if_neg hn]
        refine ⟨⟨by rw [hdirs, hd'], ?_, by rw [he]⟩, fun _ => he⟩
        simp only [Machine.content, he]
        rfl
      recorded := fun hR d' v' hz hv' hs' => by
        by_cases hn : d' = d ∧ v' = v
        · obtain ⟨rfl, rfl⟩ := hn
          rw [hpte, if_pos ⟨rfl, rfl⟩]
          exact ⟨by simp [t, History.fill], hperm, huser⟩
        · rw [hpte, if_neg hn] at hs' ⊢
          have hne : (s.pte d' v').ppn ≠ e.ppn := fun he => hno (d', v') ⟨hz, hv', hs', he⟩
          obtain ⟨h1, h2, h3⟩ := hR d' v' hz hv' hs'
          refine ⟨?_, h2, h3⟩
          simpa [t, History.fill, hne] using h1 }
  · rw [hpte, if_pos ⟨rfl, rfl⟩]

/-- The fall-back when no slot is left; `s1` is the state after `duplicateSwapSlot`
has failed. -/
theorem copyPagedIn_spec {parent d v : Nat} {s1 : Machine} (hI : Inv h s) (hR : s.Recorded)
    (hp : Pair parent d v s) (hsw : (s.pte parent v).swapped = true)
    (hdup : (duplicateSwapSlot (s.pte parent v).ppn).run s = .ok (none, s1)) (hE : Evicts h s s1)
    (hcur : s.myproc.live) :
    K.Spec (copyPagedIn parent d v) s1 (CopiesPage h parent d v s) := by
  have hK1 : Keeps h noPage s s1 := hE.keeps hI
  have hp1 := hp.keeps hK1
  have hpte1 : s1.pte parent v = s.pte parent v := hE.2.out_eq hp.lt (Pte.swapped_iff.1 hsw).1
  have hsame1 : Same s s1 parent v :=
    (hK1.page _ _ hp.parent_dir hp.parent_live hp.lt id).toSame
  have hcur1 : s1.myproc.live := by
    have := (hK1.live s.cpu.proc).2 hcur
    rwa [← hK1.cpu_proc] at this
  have hfail : ∀ {t}, Inv h t → Keeps h noPage s1 t → CopiesPage h parent d v s false t :=
    fun hIt hKt => ⟨hIt, (hK1.trans hKt).mono fun _ _ hx => hx.elim,
      ((hK1.trans hKt).page _ _ hp.parent_dir hp.parent_live hp.lt id).toSame,
      fun hx => by cases hx⟩
  unfold copyPagedIn
  refine ((K.spec_run _ s1).and (swapPageIn_spec hE.1 hp1.parent_dir hp.lt hp1.parent_live
    (by rw [hpte1]; exact hsw) hcur1).spec).bind fun ok s2 hpost => ?_
  obtain ⟨hrun2, hpg⟩ := hpost
  cases ok with
  | false => exact Code.spec_pure.2 (hfail hpg.1 (Evicts.keeps hpg hE.1))
  | true =>
    simp only [if_true] at hpg ⊢
    have hd2 := hpg.keeps.dir_onlyPage hp1.parent_dir
    obtain ⟨sp, hsp⟩ := Option.isSome_iff_exists.1 hd2
    have hw := hpg.inv.walk_of_ne_zero hsp (Pte.present_ne_zero hpg.present)
    refine Code.Spec.bind_run (walkpgdir_returns hsp v) ?_
    simp only [hw, hpg.present, if_true]
    -- the parent's page is in memory again, with the flags its slot kept
    have hR1 := hK1.recorded hR
    have hperm2 : (s2.pte parent v).perm = (s.pte parent v).perm := by
      have h1 := (hR1 parent v hp1.parent_live hp.lt (by rw [hpte1]; exact hsw)).2.1
      rw [← hpte1, ← h1, Pte.perm, hpg.flags]
      exact Pte.mapped_perm 0 _
    have hsame2 : Same s s2 parent v :=
      hsame1.trans ⟨hd2, hpg.content, by rw [hperm2, hpte1]⟩
    have hz2 : ¬ s2.zombie parent := fun hx => hp1.parent_live ((hpg.keeps.zombie _).1 hx)
    have hK2 : Keeps h (pairPage parent d v) s s2 :=
      (hK1.mono fun _ _ hx => hx.elim).trans (hpg.keeps.mono fun _ _ hx => ⟨Or.inr hx.1, hx.2⟩)
    refine ((K.spec_run _ s2).and (kalloc_spec hpg.inv).spec).bind fun r s3 hpost => ?_
    obtain ⟨hrun3, ha⟩ := hpost
    have hK3 : Keeps h noPage s2 s3 := ha.keeps hpg.inv
    have hsame3 := hsame2.trans (hK3.page _ _ hd2 hz2 hp.lt id).toSame
    have hK03 := hK2.trans (hK3.mono fun _ _ hx => hx.elim)
    cases r with
    | none => exact Code.spec_pure.2 ⟨ha.1, hK03, hsame3, fun hx => by cases hx⟩
    | some f =>
      obtain ⟨hI3, -, hf, -⟩ := ha
      have hd3 := hK3.dir_noPage (hpg.keeps.dir_onlyPage hp1.dir)
      refine (copyFrame_spec hI3 hf hd3 hp.lt).mono fun ok t hpost => ?_
      obtain ⟨hIt, hKt, hcopy⟩ := hpost
      have hz3 : ¬ s3.zombie parent := fun hx => hz2 ((hK3.zombie _).1 hx)
      refine ⟨hIt, hK03.trans (hKt.mono fun _ _ hx => ⟨Or.inl hx.1, hx.2⟩), ?_, fun hok => ?_⟩
      · exact hsame3.trans (hKt.page _ _ (hK3.dir_noPage hd2) hz3 hp.lt
          fun hx => hp.ne hx.1.symm).toSame
      · obtain ⟨hc, hperm⟩ := hcopy hok
        have hcp : s.content parent v = some (s2.mem (s2.pte parent v).ppn) := by
          rw [← hsame2.content, Machine.content, if_pos hpg.present]
        unfold Copied
        rw [hc, hcp, Option.some.injEq, hperm]
        constructor
        · rintro ⟨hm, -⟩
          refine ⟨fun hs => ?_, fun _ a b f' t' hrun1' hrun2' hrun3' => ?_⟩
          · rw [(Pte.swapped_iff.1 hsw).1] at hs
            cases hs
          · rw [hdup] at hrun1'
            cases hrun1'
            rw [hrun2] at hrun2'
            cases hrun2'
            rw [hrun3] at hrun3'
            cases hrun3'
            exact hm
        · exact fun hi => ⟨hi.pagedIn hsw s1 s2 f s3 hdup hrun2 hrun3, hperm2⟩

/-- The branch for a page that is paged out. -/
theorem copySwapped_spec {parent d v : Nat} (hI : Inv h s) (hR : s.Recorded)
    (hp : Pair parent d v s) (hsw : (s.pte parent v).swapped = true) (hcur : s.myproc.live) :
    K.Spec (copySwapped parent d v (s.pte parent v)) s (CopiesPage h parent d v s) := by
  have huse : SlotUses s (parent, v) (s.pte parent v).ppn := ⟨hp.parent_live, hp.lt, hsw, rfl⟩
  have hused : (s.slots (s.pte parent v).ppn).is_free = false := by
    simpa using hI.slot_own.busy huse
  unfold copySwapped
  refine ((K.spec_run _ s).and (duplicateSwapSlot_spec hI (hI.slot_range _ _ huse) hused).spec).bind
    fun r s1 hpost => ?_
  obtain ⟨hrun, hE, hcopy⟩ := hpost
  cases r with
  -- no slot for a copy: the page is brought in and copied from there
  | none => exact copyPagedIn_spec hI hR hp hsw hrun hE hcur
  | some j =>
    have hc := hcopy j rfl
    have hK1 : Keeps h noPage s s1 := hE.keeps hI
    have hp1 := hp.keeps hK1
    refine (walkpgdirAlloc_spec hE.1 hp1.dir hp.lt).spec.bind
      fun r s2 hpost => ?_
    obtain ⟨hI2, hK2, hS2, hpte2, hr⟩ := hpost
    have hK02 := hK1.trans hK2
    cases r with
    | none =>
      refine Code.spec_pure.2 ⟨hI2, hK02.mono fun _ _ hx => hx.elim, ?_, fun hx => by cases hx⟩
      exact (hK02.page _ _ hp.parent_dir hp.parent_live hp.lt id).toSame
    | some e =>
      simp only [Code.spec_modify_bind]
      -- the entry of the child names the duplicate
      obtain ⟨-, htab⟩ := hr e rfl
      have huser := (hR parent v hp.parent_live hp.lt hsw).2.2
      obtain ⟨hslot2, -, hpage2⟩ := hS2.used j hc.used
      obtain ⟨hI3, hK3, hpte3⟩ := hI2.placeSlot (e := (s.pte parent v).toSlot j)
        (hK2.dir_noPage hp1.dir) hp.lt htab (Pte.toSlot_swapped j huser) hc.lt
        (by rw [Pte.toSlot_ppn, hslot2, hc.used]) (hS2.unowned j hc.used hc.unowned)
        (by
          rw [Pte.toSlot_ppn, hslot2, hc.perm, Pte.toSlot_perm]
          exact (hR parent v hp.parent_live hp.lt hsw).2.1)
        (by rw [Pte.toSlot_user, huser])
      rw [Pte.toSlot_ppn] at hI3 hK3 hpte3
      have hK : Keeps h (onlyPage d v) s _ := (hK02.mono fun _ _ hx => hx.elim).trans hK3
      refine Code.spec_pure.2 ⟨hI3, hK.mono fun _ _ hx => ⟨Or.inl hx.1, hx.2⟩,
        (hK.page _ _ hp.parent_dir hp.parent_live hp.lt fun hx => hp.ne hx.1.symm).toSame,
        fun _ => ?_⟩
      refine iff_of_true ⟨?_, by rw [hpte3, Pte.toSlot_perm]⟩ ⟨fun hs => ?_, fun _ a b f t hn => ?_⟩
      · rw [Machine.content, hpte3, if_neg (by simp), if_pos (Pte.toSlot_swapped j huser),
          Machine.content, if_neg (by rw [(Pte.swapped_iff.1 hsw).1]; simp), if_pos hsw]
        exact congrArg some (hpage2.trans hc.page)
      · rw [(Pte.swapped_iff.1 hsw).1] at hs
        cases hs
      · rw [hrun] at hn
        cases hn

/-- **One turn of the loop of `copyuvm`**, for a page the child does not have yet. -/
theorem copyPage_spec {parent d v : Nat} (hI : Inv h s) (hR : s.Recorded) (hp : Pair parent d v s)
    (hnew : s.pte d v = Pte.zero) (hcur : s.myproc.live) :
    K.Spec (copyPage parent d v) s (CopiesPage h parent d v s) := by
  obtain ⟨sp, hsp⟩ := Option.isSome_iff_exists.1 hp.parent_dir
  unfold copyPage
  refine Code.Spec.bind_run (walkpgdir_returns hsp v) ?_
  rcases hI.walk_eq hsp v with ⟨hw, -⟩ | hw
  · rw [hw]
    exact Code.spec_panic _
  · rw [hw]
    rcases (s.pte parent v).cases_kind with hpres | hsw | hzero
    · simp only [hpres, if_true]
      exact copyPresent_spec hI hp hpres
    · obtain ⟨hnp, hne⟩ := Pte.swapped_iff.1 hsw
      simp only [hnp, Bool.false_eq_true, if_false, if_pos hne]
      exact copySwapped_spec hI hR hp hsw hcur
    · simp only [hzero, Pte.present_zero, Bool.false_eq_true, if_false, ne_eq, not_true_eq_false]
      refine Code.spec_pure.2 ⟨hI, .refl hI, ⟨hp.parent_dir, rfl, rfl⟩, fun _ => ?_⟩
      refine iff_of_true ⟨?_, by rw [hnew, hzero]⟩ ⟨fun hs => ?_, fun hs => ?_⟩
      · rw [Machine.content, Machine.content, hnew, hzero]
      · rw [hzero] at hs; cases hs
      · rw [hzero] at hs; cases hs

/-! ## All pages -/

/-- The loop of `copyuvm` copies each frame with the bytes it had when its number
was read. -/
def CopiesIntact (parent d : Nat) : (n v : Nat) → Machine → Prop
  | 0, _, _ => True
  | n + 1, v, s => Intact parent v s ∧
      ∀ t, (copyPage parent d v).run s = .ok (true, t) → CopiesIntact parent d n (v + 1) t

/-- The pages of both directories from `lo` up to `hi`. -/
abbrev pairRange (parent d lo hi : Nat) : Nat → Nat → Prop :=
  fun d' v => (d' = d ∨ d' = parent) ∧ lo ≤ v ∧ v < hi

/-- The outcome of copying the pages from `v` up to `hi`. -/
structure CopiesRange (h : Set Nat) (parent d v hi : Nat) (s : Machine) (ok : Bool) (t : Machine)
    (intact : Prop) : Prop where
  inv : Inv h t
  dir : (t.space d).isSome = true
  keeps : Keeps h (pairRange parent d v hi) s t
  same : ∀ w, v ≤ w → w < hi → Same s t parent w
  copied : ok = true → ((∀ w, v ≤ w → w < hi → Copied parent d s t w) ↔ intact)

/-- **The loop of `copyuvm`.** -/
theorem copyLoop_spec {parent d : Nat} (n v : Nat) (hI : Inv h s) (hR : s.Recorded)
    (hpd : (s.space parent).isSome = true) (hd : (s.space d).isSome = true)
    (hpz : ¬ s.zombie parent) (hz : ¬ s.zombie d) (hne : d ≠ parent) (hn : v + n ≤ UPAGES)
    (hnew : ∀ w, v ≤ w → w < UPAGES → s.pte d w = Pte.zero) (hcur : s.myproc.live) :
    K.Spec (copyLoop parent d n v) s fun ok t =>
      CopiesRange h parent d v (v + n) s ok t (CopiesIntact parent d n v s) := by
  induction n generalizing s v with
  | zero =>
    exact Code.spec_pure.2 ⟨hI, hd, .refl hI, fun w h1 h2 => by omega,
      fun _ => iff_of_true (fun w h1 h2 => by omega) trivial⟩
  | succ n ih =>
    have hp : Pair parent d v s := ⟨hpd, hd, hpz, hz, hne, by omega⟩
    unfold copyLoop
    refine ((K.spec_run _ s).and (copyPage_spec hI hR hp (hnew v le_rfl hp.lt) hcur)).bind
      fun ok s1 hpost => ?_
    obtain ⟨hrun, hc⟩ := hpost
    have hsub : ∀ d' w, pairPage parent d v d' w → pairRange parent d v (v + (n + 1)) d' w :=
      fun d' w hx => ⟨hx.1, by omega⟩
    have hd1 : (s1.space d).isSome = true := hc.keeps.dirs d
      ⟨if v = 0 then 1 else 0, by simp only [UPAGES]; split <;> omega,
        by rintro ⟨-, he⟩; split at he <;> omega⟩ hd
    -- the turn leaves the other pages of both directories
    have hkept : ∀ w, w ≠ v → w < UPAGES → ∀ d', d' = d ∨ d' = parent → Kept s s1 d' w := by
      intro w hwv hw d' hd'
      refine hc.keeps.page d' w ?_ ?_ hw fun hx => hwv hx.2
      · rcases hd' with rfl | rfl
        · exact hd
        · exact hpd
      · rcases hd' with rfl | rfl
        · exact hz
        · exact hpz
    cases ok with
    | false =>
      refine Code.spec_pure.2 ⟨hc.inv, hd1, hc.keeps.mono hsub, fun w h1 h2 => ?_,
        fun hx => by cases hx⟩
      rcases eq_or_ne w v with rfl | hwv
      · exact hc.same
      · exact (hkept w hwv (by omega) parent (Or.inr rfl)).toSame
    | true =>
      have hcur1 : s1.myproc.live := by
        have := (hc.keeps.live s.cpu.proc).2 hcur
        rwa [← hc.keeps.cpu_proc] at this
      have hz1 : ∀ d', ¬ s.zombie d' → ¬ s1.zombie d' := fun d' hx hy => hx ((hc.keeps.zombie _).1 hy)
      refine (ih (v + 1) hc.inv (hc.keeps.recorded hR) hc.same.dir hd1 (hz1 _ hpz) (hz1 _ hz)
        (by omega) (fun w h1 h2 => ?_) hcur1).mono fun ok t hr => ?_
      · have hzero := hnew w (by omega) h2
        rw [(hkept w (by omega) h2 d (Or.inl rfl)).out (by rw [hzero]; rfl), hzero]
      · have hkt : ∀ d', d' = d ∨ d' = parent → ¬ s1.zombie d' → (s1.space d').isSome = true →
            Same s1 t d' v := fun d' _ hzd hdd =>
          (hr.keeps.page d' v hdd hzd hp.lt fun hx => by omega).toSame
        -- the later turns leave page `v` of both directories
        have hsv := hkt parent (Or.inr rfl) (hz1 _ hpz) hc.same.dir
        have hdv := hkt d (Or.inl rfl) (hz1 _ hz) hd1
        refine ⟨hr.inv, hr.dir, (hc.keeps.mono hsub).trans
          (hr.keeps.mono fun d' w hx => ⟨hx.1, by omega⟩), fun w h1 h2 => ?_, fun hok => ?_⟩
        · rcases eq_or_ne w v with rfl | hwv
          · exact hc.same.trans hsv
          · exact (hkept w hwv (by omega) parent (Or.inr rfl)).toSame.trans
              (hr.same w (by omega) (by omega))
        · -- the page of this turn, and the ones of the turns that follow
          have hfirst : Copied parent d s t v ↔ Intact parent v s := by
            rw [← hc.copied rfl, Copied, Copied, hdv.content, hdv.perm]
          have hrest : (∀ w, v + 1 ≤ w → w < v + 1 + n → Copied parent d s1 t w) ↔
              ∀ w, v + 1 ≤ w → w < v + 1 + n → Copied parent d s t w := by
            refine forall_congr' fun w => forall_congr' fun h1 => forall_congr' fun h2 => ?_
            have hk := hkept w (by omega) (by omega) parent (Or.inr rfl)
            rw [Copied, Copied, hk.content, hk.perm]
          have hsplit : (∀ w, v ≤ w → w < v + (n + 1) → Copied parent d s t w) ↔
              Copied parent d s t v ∧ ∀ w, v + 1 ≤ w → w < v + 1 + n → Copied parent d s t w := by
            constructor
            · exact fun hx => ⟨hx v le_rfl (by omega), fun w h1 h2 => hx w (by omega) (by omega)⟩
            · rintro ⟨hx, hy⟩ w h1 h2
              rcases eq_or_ne w v with rfl | hwv
              · exact hx
              · exact hy w (by omega) (by omega)
          rw [hsplit, hfirst, ← hrest, hr.copied hok, CopiesIntact]
          refine and_congr_right fun _ => ⟨fun hx t' ht' => ?_, fun hx => hx s1 hrun⟩
          rw [hrun] at ht'
          cases ht'
          exact hx

/-- A zombie keeps its directory until it is reaped. -/
theorem Inv.zombie_dir {d : Nat} (hI : Inv h s) (hd : s.zombie d) :
    (s.space d).isSome = true := by
  obtain ⟨p, hp, rfl⟩ := hd
  exact hI.dir p ⟨by rw [hp]; decide, by rw [hp]; decide⟩

/-- `CopiesIntact` for the whole of `copyuvm(pgdir, sz)`. -/
def ForkIntact (parent sz : Nat) (s : Machine) : Prop :=
  ∀ d t, setupkvm.run s = .ok (some d, t) → CopiesIntact parent d (pagesUp sz) 0 t

/-- The outcome of `copyuvm(parent, sz)`. -/
structure CopiesAll (h : Set Nat) (parent sz : Nat) (s : Machine) (r : Option Nat) (t : Machine) :
    Prop where
  inv : Inv h t
  keeps : Keeps h (pageRange parent 0 (pagesUp sz)) s t
  same : ∀ w < pagesUp sz, Same s t parent w
  new : ∀ d, r = some d → s.space d = none ∧ (t.space d).isSome = true
  rest : ∀ d, r = some d → ∀ w, pagesUp sz ≤ w → w < UPAGES → t.pte d w = Pte.zero
  copied : ∀ d, r = some d → ((∀ w < pagesUp sz, Copied parent d s t w) ↔ ForkIntact parent sz s)

/-- **`copyuvm`.** -/
theorem copyuvm_spec {parent sz : Nat} (hI : Inv h s) (hR : s.Recorded)
    (hpd : (s.space parent).isSome = true) (hpz : ¬ s.zombie parent) (hsz : sz ≤ KERNBASE)
    (hcur : s.myproc.live) : K.Spec (copyuvm parent sz) s (CopiesAll h parent sz s) := by
  unfold copyuvm
  have hup := pagesUp_le_upages hsz
  refine ((K.spec_run _ s).and (setupkvm_spec hI).spec).bind fun r s1 hpost => ?_
  obtain ⟨hrun, hI1, hK1, hr⟩ := hpost
  -- `setupkvm` touches no page of the parent
  have hpk : ∀ w < UPAGES, Kept s s1 parent w := fun w hw => hK1.page _ _ hpd hpz hw id
  cases r with
  | none =>
    exact Code.spec_pure.2 ⟨hI1, hK1.mono fun _ _ hx => hx.elim,
      fun w hw => (hpk w (by omega)).toSame, fun d hd => (by cases hd), fun d hd => (by cases hd),
      fun d hd => (by cases hd)⟩
  | some d =>
    obtain ⟨hnone, hfresh⟩ := hr d rfl
    have hne : d ≠ parent := fun he => by rw [he, ← Option.not_isSome_iff_eq_none] at hnone; exact hnone hpd
    have hz1 : ∀ d', ¬ s.zombie d' → ¬ s1.zombie d' := fun d' hx hy => hx ((hK1.zombie _).1 hy)
    have hzs : ¬ s.zombie d := fun hx => by
      have := hI.zombie_dir hx
      rw [hnone] at this
      cases this
    have hcur1 : s1.myproc.live := by
      have := (hK1.live s.cpu.proc).2 hcur
      rwa [← hK1.cpu_proc] at this
    refine (copyLoop_spec (pagesUp sz) 0 hI1 (hK1.recorded hR) (hK1.dir_noPage hpd) hfresh.1
      (hz1 _ hpz) (hz1 _ hzs) hne (by omega) (fun w _ hw => hfresh.2 w hw) hcur1).bind
      fun ok s2 hc => ?_
    rw [Nat.zero_add] at hc
    have hK2 := (hK1.mono (Y := pairRange parent d 0 (pagesUp sz)) fun _ _ hx => hx.elim).trans
      hc.keeps
    have hsub : ∀ d' w, d' ≠ d → pairRange parent d 0 (pagesUp sz) d' w →
        pageRange parent 0 (pagesUp sz) d' w := fun d' w hd' hx => ⟨hx.1.resolve_left hd', hx.2⟩
    have hsame : ∀ w < pagesUp sz, Same s s2 parent w := fun w hw =>
      (hpk w (by omega)).toSame.trans (hc.same w (Nat.zero_le w) hw)
    cases ok with
    | true =>
      refine Code.spec_pure.2 ⟨hc.inv, hK2.of_new hnone hsub, hsame, fun d' hd' => ?_,
        fun d' hd' w h1 h2 => ?_, fun d' hd' => ?_⟩
      · cases hd'
        exact ⟨hnone, hc.dir⟩
      · cases hd'
        have hzero := hfresh.2 w h2
        rw [(hc.keeps.page d w hfresh.1 (hz1 _ hzs) h2 fun hx => by omega).out
          (by rw [hzero]; rfl), hzero]
      · cases hd'
        -- `Copied` in terms of the state after `setupkvm`, where the loop starts
        have hl : (∀ w < pagesUp sz, Copied parent d s s2 w) ↔
            ∀ w, 0 ≤ w → w < pagesUp sz → Copied parent d s1 s2 w := by
          refine forall_congr' fun w => ⟨fun hx _ hw => ?_, fun hx hw => ?_⟩
          · rw [Copied, (hpk w (by omega)).content, (hpk w (by omega)).perm]
            exact hx hw
          · rw [Copied, ← (hpk w (by omega)).content, ← (hpk w (by omega)).perm]
            exact hx (Nat.zero_le w) hw
        rw [hl, hc.copied rfl]
        refine ⟨fun hx d' t' ht' => ?_, fun hx => hx d s1 hrun⟩
        rw [hrun] at ht'
        cases ht'
        exact hx
    | false =>
      -- the directory of the child goes, and no process had it
      refine (freevm_unowned hc.inv hc.dir (hK2.not_owned hI hnone)).spec.bind
        fun _ s3 hpost => Code.spec_pure.2 ?_
      obtain ⟨hI3, hK3, _⟩ := hpost
      have hK03 : Keeps h (fun d' w => pairRange parent d 0 (pagesUp sz) d' w ∨ d' = d) s s3 :=
        (hK2.mono fun _ _ hx => Or.inl hx).trans (hK3.mono fun _ _ hx => Or.inr hx)
      have hz2 : ¬ s2.zombie parent := fun hx => hpz ((hK2.zombie _).1 hx)
      refine ⟨hI3, hK03.of_new hnone fun d' w hd' hx => hsub d' w hd' (hx.resolve_right hd'),
        fun w hw => (hsame w hw).trans ?_, fun d hd => (by cases hd), fun d hd => (by cases hd),
        fun d hd => (by cases hd)⟩
      exact (hK3.page parent w (hsame w hw).dir hz2 (by omega) fun hx => hne hx.symm).toSame

end Xv6.Swap
