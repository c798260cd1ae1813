/-
`deallocuvm` and `freevm`: pages, page tables and a directory are given back.

Neither sleeps nor allocates, and each touches one directory only: `Frees h d X`
says that outside the pages `X` of `d` nothing has changed, and that a frame
still in use after it was in use before and has its bytes. Entries that name a
swap slot are left as they are, which is how a page above the size of a process
can still name a slot.
-/
import Xv6.Swap.Keeps

set_option autoImplicit false

namespace Xv6.Swap

open Xv6.Lib

variable {h : Set Nat} {s t u : Machine} {X : Nat → Prop}

/-! ## Giving frames back -/

/-- Only the pages `X` of directory `d` and frames that are no longer in use have
changed. -/
structure Frees (h : Set Nat) (d : Nat) (X : Nat → Prop) (s t : Machine) : Prop where
  kernel : (t.kend, t.initproc, t.nextpid, t.pipe, t.proc, t.cpu) =
    (s.kend, s.initproc, s.nextpid, s.pipe, s.proc, s.cpu)
  swap : (t.slots, t.disk, t.hist.filled, t.hist.reloads) =
    (s.slots, s.disk, s.hist.filled, s.hist.reloads)
  other : ∀ d', d' ≠ d → t.space d' = s.space d'
  pte : ∀ v, ¬ X v → t.pte d v = s.pte d v
  swapped : ∀ v, (t.pte d v).swapped = true → t.pte d v = s.pte d v
  uses : ∀ o f, Uses h t o f → Uses h s o f ∧ t.mem f = s.mem f

namespace Frees

theorem refl (h : Set Nat) (d : Nat) (X : Nat → Prop) (s : Machine) : Frees h d X s s :=
  ⟨rfl, rfl, fun _ _ => rfl, fun _ _ => rfl, fun _ _ => rfl, fun _ _ hu => ⟨hu, rfl⟩⟩

theorem trans {d : Nat} (hst : Frees h d X s t) (htu : Frees h d X t u) : Frees h d X s u where
  kernel := htu.kernel.trans hst.kernel
  swap := htu.swap.trans hst.swap
  other d' hd := (htu.other d' hd).trans (hst.other d' hd)
  pte v hv := (htu.pte v hv).trans (hst.pte v hv)
  swapped v hv := by
    have he := htu.swapped v hv
    rw [he] at hv ⊢
    exact hst.swapped v hv
  uses o f hu := by
    obtain ⟨h1, h2⟩ := htu.uses o f hu
    obtain ⟨h3, h4⟩ := hst.uses o f h1
    exact ⟨h3, h2.trans h4⟩

theorem mono {d : Nat} {Y : Nat → Prop} (hst : Frees h d X s t) (hX : ∀ v, X v → Y v) :
    Frees h d Y s t :=
  { hst with pte := fun v hv => hst.pte v fun hx => hv (hX v hx) }

theorem proc {d : Nat} (hst : Frees h d X s t) : t.proc = s.proc := by
  have := hst.kernel
  simp only [Prod.mk.injEq] at this
  exact this.2.2.2.2.1

theorem cpu {d : Nat} (hst : Frees h d X s t) : t.cpu = s.cpu := by
  have := hst.kernel
  simp only [Prod.mk.injEq] at this
  exact this.2.2.2.2.2

/-- The entry of a page outside `X`, in any directory. -/
theorem pte_eq {d : Nat} (hst : Frees h d X s t) {d' v : Nat} (hn : ¬ (d' = d ∧ X v)) :
    t.pte d' v = s.pte d' v := by
  rcases eq_or_ne d' d with rfl | hd
  · exact hst.pte v fun hx => hn ⟨rfl, hx⟩
  · simp only [Machine.pte, hst.other d' hd]

/-- Outside the pages it is about, `Frees` keeps every page. -/
theorem keeps {d : Nat} (hst : Frees h d X s t)
    (hdir : (∃ v < UPAGES, ¬ X v) → (s.space d).isSome = true → (t.space d).isSome = true) :
    Keeps h (fun d' v => d' = d ∧ X v) s t := by
  have hk := hst.kernel
  have hw := hst.swap
  simp only [Prod.mk.injEq] at hk hw
  obtain ⟨h1, h2, h3, h4, h5, h6⟩ := hk
  obtain ⟨g1, g2, g3, -⟩ := hw
  have hdirs : ∀ d', (∃ v < UPAGES, ¬ (d' = d ∧ X v)) → (s.space d').isSome = true →
      (t.space d').isSome = true := by
    rintro d' ⟨v, hv, hn⟩ hd'
    rcases eq_or_ne d' d with rfl | hd
    · exact hdir ⟨v, hv, fun hx => hn ⟨rfl, hx⟩⟩ hd'
    · rw [hst.other d' hd, hd']
  refine {
    kend := h1, initproc := h2, nextpid := h3, pipe := h4, cpu_proc := by rw [h6]
    proc := fun p => ⟨_, by rw [h5]⟩
    held := fun f hf => (hst.uses (.held f) f ⟨hf, rfl⟩).2
    dirs := hdirs
    page := fun d' v hd' hz hv hn => ?_
    recorded := fun hR => hR.mono (fun d' => by simp only [Machine.zombie, h5]) g1 g3
      fun d' v _ hs => ?_ }
  · have hpte := hst.pte_eq hn
    refine ⟨⟨hdirs d' ⟨v, hv, hn⟩ hd', ?_, by rw [hpte]⟩, fun _ => hpte⟩
    unfold Machine.content
    rw [hpte]
    split
    · next hp => rw [(hst.uses (.page d' v) _ ⟨hv, by rw [hpte, hp], by rw [hpte]⟩).2]
    · simp only [Machine.slotPage, g2]
  · rcases eq_or_ne d' d with rfl | hd
    · exact hst.swapped v hs
    · simp only [Machine.pte, hst.other d' hd]

end Frees

/-- A second loose frame is still loose after the first was freed. -/
theorem Loose.kfreed {f g : Nat} (hg : Loose h s g) (hne : g ≠ f) : Loose h (s.kfreed f) g where
  unused := hg.unused
  not_free hm := by
    rcases List.mem_cons.1 hm with he | hm
    · exact hne he
    · exact hg.not_free hm
  lo := hg.lo
  hi := hg.hi

theorem Loose.frees {d f : Nat} (hf : Loose h s f) : Frees h d X s (s.kfreed f) where
  kernel := rfl
  swap := rfl
  other _ _ := rfl
  pte _ _ := rfl
  swapped _ _ := rfl
  uses _ _ hu := ⟨hu, hf.kfreed_mem hu⟩

/-! ## Unmapping -/

/-- `kfree` of the frame of a page in memory, and the zero entry. -/
theorem Frames.unmap {d v : Nat} (hF : Frames h s) (hd : (s.space d).isSome = true)
    (hv : v < UPAGES) (hp : (s.pte d v).present = true) :
    let t := (s.kfreed (s.pte d v).ppn).setPte d v Pte.zero
    Frames h t ∧ Frees h d (· = v) s t := by
  intro t
  have hpte : ∀ d' v', t.pte d' v' = if d' = d ∧ v' = v then Pte.zero else s.pte d' v' :=
    Machine.setPte_pte (s := s.kfreed _) hd
  have hdirs : ∀ d', (t.space d').isSome = (s.space d').isSome :=
    Machine.setPte_isSome (s.kfreed _) d v _
  have htabs : ∀ d' i, t.tab d' i = s.tab d' i := Machine.setPte_tab (s.kfreed _) d v _
  have huse : Uses h s (.page d v) (s.pte d v).ppn := ⟨hv, hp, rfl⟩
  have hr := hF.range_used _ _ huse
  -- the page was the only use of its frame, and loses it
  have huses : ∀ o f, Uses h t o f → Uses h s o f ∧ o ≠ .page d v := by
    rintro (⟨d', v'⟩ | ⟨d', j⟩ | d' | p | j | o) g hg
    · by_cases hn : d' = d ∧ v' = v
      · obtain ⟨rfl, rfl⟩ := hn
        have := hg.2.1
        rw [hpte, if_pos ⟨rfl, rfl⟩] at this
        cases this
      · simp only [Uses, hpte, if_neg hn] at hg
        exact ⟨hg, fun he => hn (by cases he; exact ⟨rfl, rfl⟩)⟩
    · simp only [Uses, htabs] at hg
      exact ⟨hg, by simp⟩
    · exact ⟨⟨by rw [← hdirs]; exact hg.1, hg.2⟩, by simp⟩
    · exact ⟨hg, by simp⟩
    · exact ⟨hg, by simp⟩
    · exact ⟨hg, by simp⟩
  have hslots : ∀ o k, SlotUses t o k → SlotUses s o k := by
    rintro ⟨d', v'⟩ k ⟨hzb, hv', hs, hk⟩
    by_cases hn : d' = d ∧ v' = v
    · rw [hpte, if_pos hn] at hs
      cases hs
    · rw [hpte, if_neg hn] at hs hk
      exact ⟨hzb, hv', hs, hk⟩
  refine ⟨{ hF with
    own := hF.own.give huse huses fun y hy => List.mem_cons.1 hy
    nodup := List.nodup_cons.2 ⟨hF.own.busy huse, hF.nodup⟩
    range_free := fun y hy => by
      rcases List.mem_cons.1 hy with rfl | hy
      · exact hr
      · exact hF.range_free y hy
    range_used := fun o f hf => hF.range_used o f (huses o f hf).1
    tab_zero := fun d' v' hn => by
      rw [htabs] at hn
      rw [hpte, hF.tab_zero d' v' hn, ite_self]
    slot_own := hF.slot_own.mono hslots fun _ hk => hk
    slot_range := fun o k hk => hF.slot_range o k (hslots o k hk) }, ?_⟩
  exact {
    kernel := rfl
    swap := rfl
    other := fun d' hd' => by simp [t, hd', Machine.kfreed]
    pte := fun v' hv' => by rw [hpte, if_neg fun hn => hv' hn.2]
    swapped := fun v' hs => by
      rw [hpte] at hs ⊢
      split at hs
      · cases hs
      · next hn => rw [if_neg hn]
    uses := fun o f hf => by
      obtain ⟨hu, hne⟩ := huses o f hf
      refine ⟨hu, ?_⟩
      have hfp : f ≠ (s.pte d v).ppn := fun he => hne (hF.own.inj hu (he ▸ huse))
      simp [t, Machine.kfreed, hfp] }

/-- The outcome of unmapping the pages of `d` from `lo` up to `hi`. -/
structure Unmaps (h : Set Nat) (d lo hi : Nat) (s t : Machine) : Prop where
  frames : Frames h t
  frees : Frees h d (fun v => lo ≤ v ∧ v < hi) s t
  dirs : ∀ d', (t.space d').isSome = (s.space d').isSome
  tab : ∀ d' i, t.tab d' i = s.tab d' i
  gone : ∀ v, lo ≤ v → v < hi → (t.pte d v).present = false
  out : ∀ v, (s.pte d v).present = false → t.pte d v = s.pte d v

/-- Pages without a page table are not in memory. -/
theorem Frames.not_present {d v i : Nat} (hF : Frames h s) (ht : s.tab d i = none)
    (hv : v / NPTENTRIES = i) : s.pte d v = Pte.zero :=
  hF.tab_zero d v (by rw [hv, ht])

/-- The loop of `deallocuvm`. Each turn moves at least one page on, so the number
of pages bounds the turns. -/
theorem deallocLoop_spec {d hi : Nat} (hhi : hi ≤ UPAGES) (fuel v : Nat) (hF : Frames h s)
    (hd : (s.space d).isSome = true) (hfuel : hi ≤ v + fuel) :
    K.Returns (deallocLoop d hi fuel v) s fun _ t => Unmaps h d v hi s t := by
  induction fuel generalizing s v with
  | zero =>
    exact Code.returns_pure.2 ⟨hF, .refl h d _ s, fun _ => rfl, fun _ _ => rfl,
      fun w h1 h2 => by omega, fun _ _ => rfl⟩
  | succ fuel ih =>
    unfold deallocLoop
    split
    · exact Code.returns_pure.2 ⟨hF, .refl h d _ s, fun _ => rfl, fun _ _ => rfl,
        fun w h1 h2 => by omega, fun _ _ => rfl⟩
    · next hlt =>
      obtain ⟨sp, hsp⟩ := Option.isSome_iff_exists.1 hd
      refine Code.Returns.bind_run (walkpgdir_returns hsp v) ?_
      rcases hw : sp.walk v with _ | e
      · -- no page table: the whole directory entry is skipped
        have htab : s.tab d (v / NPTENTRIES) = none := by
          unfold Space.walk at hw
          rw [Machine.tab_of_space hsp]
          split at hw
          · cases hw
          · next hn => simpa using hn
        have hle : v < (v / NPTENTRIES + 1) * NPTENTRIES := by
          simp only [NPTENTRIES]
          omega
        refine (ih ((v / NPTENTRIES + 1) * NPTENTRIES) hF hd (by omega)).mono fun _ t ht => ?_
        refine { ht with
          frees := ht.frees.mono fun w hw => by omega
          gone := fun w h1 h2 => ?_ }
        rcases Nat.lt_or_ge w ((v / NPTENTRIES + 1) * NPTENTRIES) with hlt' | hge
        · have hwi : w / NPTENTRIES = v / NPTENTRIES := by
            simp only [NPTENTRIES] at *
            omega
          have hz := hF.not_present htab hwi
          rw [ht.out w (by rw [hz]; rfl), hz]
          rfl
        · exact ht.gone w hge h2
      · obtain ⟨-, he⟩ := Space.walk_eq_some.1 hw
        rw [← Machine.pte_of_space hsp] at he
        subst he
        simp only
        split
        · next hp =>
          -- a page in memory: its frame is freed and the entry cleared
          have hv : v < UPAGES := by omega
          have hr := hF.range_used (.page d v) _ ⟨hv, hp, rfl⟩
          have hpos := hF.kend_pos
          rw [if_neg (by omega)]
          refine Code.Returns.bind_run (kfree_returns hr.1 hr.2) ?_
          simp only [Code.returns_modify_bind]
          obtain ⟨hF1, hfr1⟩ := hF.unmap hd hv hp
          have hd1 : ∀ d', (((s.kfreed (s.pte d v).ppn).setPte d v Pte.zero).space d').isSome =
              (s.space d').isSome := Machine.setPte_isSome (s.kfreed _) d v _
          have hpte1 := Machine.setPte_pte (s := s.kfreed (s.pte d v).ppn) (e := Pte.zero) (v := v) hd
          refine (ih (v + 1) hF1 (by rw [hd1, hd]) (by omega)).mono fun _ t ht => ?_
          exact {
            frames := ht.frames
            frees := (hfr1.mono fun w hw => by omega).trans (ht.frees.mono fun w hw => by omega)
            dirs := fun d' => (ht.dirs d').trans (hd1 d')
            tab := fun d' i => (ht.tab d' i).trans (Machine.setPte_tab (s.kfreed _) d v _ d' i)
            gone := fun w h1 h2 => by
              rcases eq_or_ne w v with rfl | hne
              · have hz := (hpte1 d w).trans (if_pos ⟨rfl, rfl⟩)
                rw [ht.out w (by rw [hz]; rfl), hz]
                rfl
              · exact ht.gone w (by omega) h2
            out := fun w hw => by
              have hne : w ≠ v := fun he => by rw [he, hp] at hw; cases hw
              have hz := (hpte1 d w).trans (if_neg fun hn => hne hn.2)
              rw [ht.out w (by rw [hz]; exact hw), hz]
              rfl }
        · next hp =>
          refine (ih (v + 1) hF hd (by omega)).mono fun _ t ht => ?_
          refine { ht with
            frees := ht.frees.mono fun w hw => by omega
            gone := fun w h1 h2 => ?_ }
          rcases eq_or_ne w v with rfl | hne
          · rw [ht.out w (by simpa using hp)]
            simpa using hp
          · exact ht.gone w (by omega) h2

/-- **`deallocuvm`** unmaps the pages from `PGROUNDUP(newsz)` up to
`PGROUNDUP(oldsz)`. -/
theorem deallocuvm_spec {d m n : Nat} (hF : Frames h s) (hd : (s.space d).isSome = true)
    (hm : m ≤ KERNBASE) :
    K.Returns (deallocuvm d m n) s fun r t =>
      r = min m n ∧ Unmaps h d (pagesUp n) (pagesUp m) s t := by
  unfold deallocuvm
  split
  · next hle =>
    have := pagesUp_mono hle
    exact Code.returns_pure.2 ⟨by omega, hF, .refl h d _ s, fun _ => rfl, fun _ _ => rfl,
      fun w h1 h2 => by omega, fun _ _ => rfl⟩
  · refine (deallocLoop_spec (pagesUp_le_upages hm) _ _ hF hd (by omega)).bind fun _ t ht => ?_
    exact Code.returns_pure.2 ⟨by omega, ht⟩

/-! ## Freeing an address space -/

/-- The second loop of `freevm` frees the page-table pages it is given. -/
theorem freeTables_spec {d : Nat} {sp : Space} (is : List Nat) (hF : Frames h s)
    (hL : ∀ f ∈ is.filterMap sp.tab, Loose h s f) (hn : (is.filterMap sp.tab).Nodup) :
    K.Returns (freeTables sp is) s fun _ t => Frames h t ∧ Frees h d X s t ∧
      t.space = s.space ∧ ∀ g, Loose h s g → g ∉ is.filterMap sp.tab → Loose h t g := by
  induction is generalizing s with
  | nil => exact Code.returns_pure.2 ⟨hF, .refl h d X s, rfl, fun g hg _ => hg⟩
  | cons i is ih =>
    unfold freeTables
    rcases hi : sp.tab i with _ | f
    · simp only [List.filterMap_cons, hi] at hL hn
      simp only [List.filterMap_cons, hi]
      exact ih hF hL hn
    · simp only [List.filterMap_cons, hi, List.mem_cons, List.nodup_cons] at hL hn
      simp only [List.filterMap_cons, hi, List.mem_cons, not_or]
      have hf := hL f (Or.inl rfl)
      refine Code.Returns.bind_run (kfree_returns hf.lo hf.hi) ?_
      refine (ih (hF.kfreed hf) (fun g hg => ?_) hn.2).mono fun _ t hpost => ?_
      · exact (hL g (Or.inr hg)).kfreed fun he => hn.1 (he ▸ hg)
      · obtain ⟨h1, h2, h3, h4⟩ := hpost
        exact ⟨h1, hf.frees.trans h2, h3, fun g hg hng => h4 g (hg.kfreed hng.1) hng.2⟩

/-- Without its directory a page-table page, and the directory's own frame, are
held by no one. -/
theorem Frames.dropDir {d : Nat} {sp : Space} (hF : Frames h s) (hsp : s.space d = some sp)
    (hgone : ∀ v, v < UPAGES → (s.pte d v).present = false) :
    let t := s.setSpace d none
    Frames h t ∧ Frees h d (fun _ => True) s t ∧ (∀ i f, sp.tab i = some f → Loose h t f) ∧
      Loose h t d := by
  intro t
  have hother : ∀ d', d' ≠ d → t.space d' = s.space d' := fun d' hd' => by simp [t, hd']
  have hself : t.space d = none := by simp [t]
  have hpte : ∀ d' v, d' ≠ d → t.pte d' v = s.pte d' v := fun d' v hd' => by
    simp only [Machine.pte, hother d' hd']
  have hzero : ∀ v, t.pte d v = Pte.zero := fun v => by simp only [Machine.pte, hself]
  -- the directory and its page tables are used no more
  have huses : ∀ o f, Uses h t o f → Uses h s o f ∧ o ≠ .dir d ∧ ∀ i, o ≠ .table d i := by
    rintro (⟨d', v'⟩ | ⟨d', j⟩ | d' | p | j | o) g hg
    · rcases eq_or_ne d' d with rfl | hd'
      · have := hg.2.1
        rw [hzero] at this
        cases this
      · simp only [Uses, hpte d' v' hd'] at hg
        exact ⟨hg, by simp, by simp⟩
    · rcases eq_or_ne d' d with rfl | hd'
      · simp [Uses, Machine.tab, hself] at hg
      · simp only [Uses, Machine.tab, hother d' hd'] at hg
        exact ⟨hg, by simp, by simp [hd']⟩
    · rcases eq_or_ne d' d with rfl | hd'
      · simp [Uses, hself] at hg
      · simp only [Uses, hother d' hd'] at hg
        exact ⟨hg, by simp [hd'], by simp⟩
    · exact ⟨hg, by simp, by simp⟩
    · exact ⟨hg, by simp, by simp⟩
    · exact ⟨hg, by simp, by simp⟩
  have hslots : ∀ o k, SlotUses t o k → SlotUses s o k := by
    rintro ⟨d', v'⟩ k ⟨hzb, hv', hs, hk⟩
    rcases eq_or_ne d' d with rfl | hd'
    · rw [hzero] at hs
      cases hs
    · rw [hpte d' v' hd'] at hs hk
      exact ⟨hzb, hv', hs, hk⟩
  have hloose : ∀ o f, Uses h s o f → (o = .dir d ∨ ∃ i, o = .table d i) → Loose h t f := by
    intro o f hf ho
    have hr := hF.range_used o f hf
    refine ⟨fun o' ho' => ?_, hF.own.busy hf, hr.1, hr.2⟩
    obtain ⟨h1, h2, h3⟩ := huses o' f ho'
    have := hF.own.inj h1 hf
    subst this
    rcases ho with rfl | ⟨i, rfl⟩
    · exact h2 rfl
    · exact h3 i rfl
  refine ⟨?_, ?_, fun i f hf => hloose (.table d i) f ?_ (Or.inr ⟨i, rfl⟩),
    hloose (.dir d) d ⟨by rw [hsp]; rfl, rfl⟩ (Or.inl rfl)⟩
  · exact { hF with
      own := hF.own.mono (fun o f hf => (huses o f hf).1) fun _ hf => hf
      range_used := fun o f hf => hF.range_used o f (huses o f hf).1
      tab_zero := fun d' v hn => by
        rcases eq_or_ne d' d with rfl | hd'
        · exact hzero v
        · rw [hpte d' v hd']
          refine hF.tab_zero d' v ?_
          simpa only [Machine.tab, hother d' hd'] using hn
      slot_own := hF.slot_own.mono hslots fun _ hk => hk
      slot_range := fun o k hk => hF.slot_range o k (hslots o k hk) }
  · exact ⟨rfl, rfl, hother, fun v hv => absurd trivial hv,
      fun v hs => (by rw [hzero] at hs; cases hs), fun o f hf => ⟨(huses o f hf).1, rfl⟩⟩
  · rw [Uses, Machine.tab_of_space hsp, hf]

/-- **`freevm`** gives back every frame of directory `d`. -/
theorem freevm_spec {d : Nat} (hF : Frames h s) (hd : (s.space d).isSome = true) :
    K.Returns (freevm d) s fun _ t => Frames h t ∧ Frees h d (fun _ => True) s t ∧
      t.space d = none := by
  unfold freevm
  simp only [Code.returns_modify_bind]
  set s0 := s.setHist (History.free d) with hs0
  have hF0 : Frames h s0 := hF.congr rfl
  have hfr0 : Frees h d (fun _ => True) s s0 :=
    ⟨rfl, rfl, fun _ _ => rfl, fun _ _ => rfl, fun _ _ => rfl, fun _ _ hu => ⟨hu, rfl⟩⟩
  refine (deallocuvm_spec (n := 0) hF0 hd le_rfl).bind fun _ s1 hpost => ?_
  obtain ⟨_, hU⟩ := hpost
  have hd1 : (s1.space d).isSome = true := by rw [hU.dirs]; exact hd
  obtain ⟨sp, hsp⟩ := Option.isSome_iff_exists.1 hd1
  refine Code.Returns.bind_run (pgdir_returns hsp) ?_
  simp only [Code.returns_modify_bind]
  have hgone : ∀ v, v < UPAGES → (s1.pte d v).present = false := fun v hv =>
    hU.gone v (Nat.zero_le v) (by simpa [pagesUp, KERNBASE] using hv)
  obtain ⟨hF2, hfr2, htabs, hdir⟩ := hU.frames.dropDir hsp hgone
  -- the page-table pages are different frames, and none is the directory's
  have hinj : ∀ i j f, sp.tab i = some f → sp.tab j = some f → i = j := by
    intro i j f hi hj
    have := hU.frames.own.inj (o := .table d i) (p := .table d j) (r := f)
      (by rw [Uses, Machine.tab_of_space hsp, hi]) (by rw [Uses, Machine.tab_of_space hsp, hj])
    cases this
    rfl
  have hnotdir : ∀ i, sp.tab i ≠ some d := by
    intro i hi
    have := hU.frames.own.inj (o := .table d i) (p := .dir d) (r := d)
      (by rw [Uses, Machine.tab_of_space hsp, hi]) ⟨hd1, rfl⟩
    cases this
  have hnd : ((List.range' 0 NPDENTRIES).filterMap sp.tab).Nodup := by
    refine List.Nodup.filterMap (fun i j f hi hj => ?_) (List.nodup_range')
    exact hinj i j f hi hj
  refine (freeTables_spec (d := d) (X := fun _ => True) _ hF2 (fun f hf => ?_) hnd).bind
    fun _ s3 hpost => ?_
  · obtain ⟨i, -, hi⟩ := List.mem_filterMap.1 hf
    exact htabs i f hi
  · obtain ⟨hF3, hfr3, hsp3, hl3⟩ := hpost
    have hdl : Loose h s3 d := hl3 d hdir fun hm => by
      obtain ⟨i, -, hi⟩ := List.mem_filterMap.1 hm
      exact hnotdir i hi
    refine ⟨(), _, kfree_returns hdl.lo hdl.hi, hF3.kfreed hdl, ?_, ?_⟩
    · exact (hfr0.trans (hU.frees.mono fun _ _ => trivial)).trans
        (hfr2.trans (hfr3.trans hdl.frees))
    · show s3.space d = none
      rw [hsp3]
      simp

end Xv6.Swap
