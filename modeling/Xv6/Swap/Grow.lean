/-
`setupkvm` and `allocuvm`: a new directory, and new pages in one.

Both allocate, so other pages may be paged out on the way, and both give back
what they have allocated when memory runs out. A page that `allocuvm` has made
may itself be paged out before the loop ends; what holds at the end is that its
content is zero, wherever it is.
-/
import Xv6.Swap.PageIn
import Xv6.Swap.Unmap

set_option autoImplicit false

namespace Xv6.Swap

open Xv6.Lib

variable {h : Set Nat} {s t u : Machine} {X : Nat → Nat → Prop}

/-! ## A new directory -/

/-- A frame that the caller holds is not a directory. -/
theorem Inv.held_not_dir {d : Nat} (hI : Inv (insert d h) s) : s.space d = none := by
  cases hsp : s.space d with
  | none => rfl
  | some sp =>
    have := hI.own.inj (o := .dir d) (p := .held d) (r := d) ⟨by rw [hsp]; rfl, rfl⟩
      ⟨Set.mem_insert d h, rfl⟩
    cases this

/-- The held frame `d` becomes an empty directory. -/
theorem Inv.newDir {d : Nat} (hI : Inv (insert d h) s) (hd : d ∉ h) :
    Inv h (s.setSpace d (some Space.empty)) ∧ Keeps h X s (s.setSpace d (some Space.empty)) := by
  have hnone := hI.held_not_dir
  set t := s.setSpace d (some Space.empty) with ht
  have hother : ∀ d', d' ≠ d → t.space d' = s.space d' := fun d' hd' => by simp [ht, hd']
  have hpte : ∀ d' v, t.pte d' v = s.pte d' v := by
    intro d' v
    rcases eq_or_ne d' d with rfl | hd'
    · simp [ht, Machine.pte, hnone, Space.empty]
    · simp only [Machine.pte, hother d' hd']
  have htab : ∀ d' i, t.tab d' i = s.tab d' i := by
    intro d' v
    rcases eq_or_ne d' d with rfl | hd'
    · simp [ht, Machine.tab, hnone, Space.empty]
    · simp only [Machine.tab, hother d' hd']
  have hheld : Uses (insert d h) s (.held d) d := ⟨Set.mem_insert d h, rfl⟩
  -- the frame passes from the caller to the directory; every other use is as before
  have huses : ∀ o f, Uses h t o f →
      (o = .dir d ∧ f = d) ∨ (Uses (insert d h) s o f ∧ o ≠ .held d) := by
    rintro (⟨d', v⟩ | ⟨d', j⟩ | d' | p | j | o) g hg
    · simp only [Uses, hpte] at hg
      exact Or.inr ⟨hg, by simp⟩
    · simp only [Uses, htab] at hg
      exact Or.inr ⟨hg, by simp⟩
    · rcases eq_or_ne d' d with rfl | hd'
      · exact Or.inl ⟨rfl, hg.2⟩
      · simp only [Uses, hother d' hd'] at hg
        exact Or.inr ⟨hg, by simp⟩
    · exact Or.inr ⟨hg, by simp⟩
    · exact Or.inr ⟨hg, by simp⟩
    · refine Or.inr ⟨⟨Set.mem_insert_of_mem d hg.1, hg.2⟩, fun he => hd ?_⟩
      cases he
      exact hg.1
  have hslots : ∀ o k, SlotUses t o k → SlotUses s o k := by
    rintro ⟨d', v⟩ k ⟨hzb, hv, hs, hk⟩
    rw [hpte] at hs hk
    exact ⟨hzb, hv, hs, hk⟩
  have hdirs : ∀ d', (s.space d').isSome = true → (t.space d').isSome = true := by
    intro d' hd'
    rcases eq_or_ne d' d with rfl | hne
    · rw [hnone] at hd'; cases hd'
    · rw [hother d' hne, hd']
  refine ⟨⟨?_, { hI.toProcs with dir := fun p hp => hdirs _ (hI.dir p hp) }⟩, ?_⟩
  · exact { hI.toFrames with
      own := hI.own.pass hheld huses fun _ hy => hy
      range_used := fun o g hg => by
        rcases huses o g hg with ⟨-, rfl⟩ | ⟨hg, -⟩
        · exact hI.range_used _ _ hheld
        · exact hI.range_used o g hg
      tab_zero := fun d' v hn => by
        rw [htab] at hn
        rw [hpte, hI.tab_zero d' v hn]
      slot_own := hI.slot_own.mono hslots fun _ hk => hk
      slot_range := fun o k hk => hI.slot_range o k (hslots o k hk) }
  · exact {
      kend := rfl, initproc := rfl, nextpid := rfl, pipe := rfl, cpu_proc := rfl
      proc := fun p => ⟨_, rfl⟩
      held := fun _ _ => rfl
      dirs := fun d' _ hd' => hdirs d' hd'
      page := fun d' v hd' _ _ _ =>
        { dir := hdirs d' hd'
          content := by
            simp only [Machine.content, hpte]
            rfl
          perm := by rw [hpte]
          out := fun _ => hpte d' v }
      recorded := fun hR => hR.mono (fun _ => Iff.rfl) rfl rfl fun d' v _ _ => hpte d' v }

/-- A directory that is built up: it exists and its user half is empty. -/
def Fresh (d : Nat) (t : Machine) : Prop :=
  (t.space d).isSome = true ∧ ∀ v < UPAGES, t.pte d v = Pte.zero

/-- The loop over the page tables of the kernel half. -/
theorem addKernelTables_spec {d : Nat} (is : List Nat) (hI : Inv h s) (hd : Fresh d s)
    (hn : is.Nodup) (hk : ∀ i ∈ is, UPAGES ≤ i * NPTENTRIES ∧ s.tab d i = none) :
    K.Returns (addKernelTables d is) s fun _ t => Inv h t ∧ Keeps h noPage s t ∧ Fresh d t := by
  induction is generalizing s with
  | nil => exact Code.returns_pure.2 ⟨hI, .refl hI, hd⟩
  | cons i is ih =>
    unfold addKernelTables
    refine (kalloc_spec hI).bind fun r t ha => ?_
    have hP := ha.paged
    have hdt : Fresh d t := by
      refine ⟨by rw [hP.dirs]; exact hd.1, fun v hv => ?_⟩
      have hz := hd.2 v hv
      rw [hP.out_eq hv (by rw [hz]; rfl), hz]
    cases r with
    | none => exact Code.returns_pure.2 ⟨ha.1, ha.keeps hI, hdt⟩
    | some f =>
      obtain ⟨hIt, -, hf, -⟩ := ha
      obtain ⟨sp, hsp⟩ := Option.isSome_iff_exists.1 hdt.1
      refine Code.Returns.bind_run (pgdir_returns hsp) ?_
      simp only [Code.returns_modify_bind]
      obtain ⟨hge, hnone⟩ := hk i List.mem_cons_self
      obtain ⟨hIu, hKu, -, htu, hpu⟩ := hIt.addTable (X := noPage) (e := kernelPte) hf hsp
        (by rw [hP.tab, hnone]) fun v hv hlt => by
          simp only [NPTENTRIES] at *
          omega
      have hKsu := (hP.keeps hI).trans hKu
      rw [List.nodup_cons] at hn
      refine (ih hIu ⟨by simp, fun v hv => by rw [hpu d v hv, hdt.2 v hv]⟩ hn.2 fun j hj => ?_).mono
        fun _ w hw => ⟨hw.1, hKsu.trans hw.2.1, hw.2.2⟩
      obtain ⟨hge', hnone'⟩ := hk j (List.mem_cons_of_mem i hj)
      refine ⟨hge', ?_⟩
      have hji : j ≠ i := fun he => hn.1 (he ▸ hj)
      have htj : sp.tab j = none := by rw [← Machine.tab_of_space hsp, hP.tab, hnone']
      simp [Machine.tab, Space.addTable, hji, htj]

/-- The processes do not notice a directory of no one go. -/
theorem Procs.freed {d : Nat} (hP : Procs s) (hproc : t.proc = s.proc)
    (hother : ∀ d', d' ≠ d → t.space d' = s.space d')
    (hd : ∀ p, (s.proc p).live → (s.proc p).pgdir ≠ d) : Procs t where
  dir p hp := by
    rw [hproc] at hp ⊢
    rw [hother _ (hd p hp)]
    exact hP.dir p hp
  dir_inj := by rw [hproc]; exact hP.dir_inj
  size := by rw [hproc]; exact hP.size
  embryo := by rw [hproc]; exact hP.embryo

/-- `freevm` of a directory that no process has. -/
theorem freevm_unowned {d : Nat} (hI : Inv h s) (hd : (s.space d).isSome = true)
    (hno : ∀ p, (s.proc p).live → (s.proc p).pgdir ≠ d) :
    K.Returns (freevm d) s fun _ t => Inv h t ∧ Keeps h (allPages d) s t ∧ t.space d = none := by
  refine (freevm_spec hI.toFrames hd).mono fun _ t hpost => ?_
  obtain ⟨hF, hfr, hnone⟩ := hpost
  refine ⟨⟨hF, hI.toProcs.freed hfr.proc hfr.other hno⟩, ?_, hnone⟩
  refine (hfr.keeps fun hx => ?_).mono fun d' v hx => hx.1
  obtain ⟨v, _, hn⟩ := hx
  exact absurd trivial hn

/-- Across `Keeps`, no process gets a directory that it did not have. -/
theorem Keeps.not_owned {d : Nat} (hK : Keeps h X s t) (hI : Inv h s) (hd : s.space d = none)
    (p : Nat) (hp : (t.proc p).live) : (t.proc p).pgdir ≠ d := by
  intro he
  have := hI.dir p ((hK.live p).1 hp)
  rw [← hK.pgdir, he, hd] at this
  cases this

/-- **`setupkvm`** makes a directory with an empty user half. -/
theorem setupkvm_spec (hI : Inv h s) : K.Returns setupkvm s fun r t =>
    Inv h t ∧ Keeps h noPage s t ∧ ∀ d, r = some d → s.space d = none ∧ Fresh d t := by
  unfold setupkvm
  refine (kalloc_spec hI).bind fun r s1 ha => ?_
  cases r with
  | none => exact Code.returns_pure.2 ⟨ha.1, ha.keeps hI, fun d hd => by cases hd⟩
  | some d =>
    obtain ⟨hI1, hP1, hd, -⟩ := ha
    have hnone : s.space d = none := by
      have hn := hP1.dirs d
      rw [hI1.held_not_dir] at hn
      simpa using hn.symm
    simp only [Code.returns_modify_bind]
    obtain ⟨hI2, hK2⟩ := hI1.newDir (X := noPage) hd
    have hK02 := (hP1.keeps hI).trans hK2
    have hfresh : Fresh d (s1.setSpace d (some Space.empty)) :=
      ⟨by simp, fun v _ => by simp [Machine.pte, Space.empty]⟩
    have htabs : ∀ i ∈ kernelTables, UPAGES ≤ i * NPTENTRIES ∧
        (s1.setSpace d (some Space.empty)).tab d i = none := by
      intro i hi
      refine ⟨?_, by simp [Machine.tab, Space.empty]⟩
      simp only [kernelTables, List.mem_cons, List.not_mem_nil, or_false] at hi
      simp only [UPAGES, NPTENTRIES]
      omega
    refine (addKernelTables_spec _ hI2 hfresh (by decide) htabs).bind
      fun ok s3 hpost => ?_
    obtain ⟨hI3, hK3, hd3⟩ := hpost
    have hK03 := hK02.trans hK3
    cases ok with
    | true =>
      refine Code.returns_pure.2 ⟨hI3, hK03, fun d' he => ?_⟩
      cases he
      exact ⟨hnone, hd3⟩
    | false =>
      refine (freevm_unowned hI3 hd3.1 (hK03.not_owned hI hnone)).bind fun _ s4 hpost => ?_
      obtain ⟨hI4, hK4, _⟩ := hpost
      refine Code.returns_pure.2 ⟨hI4, ?_, fun d' he => by cases he⟩
      exact ((hK03.mono fun _ _ hx => hx.elim).trans hK4).of_new hnone fun d' _ hne hx => hne hx

/-! ## New pages -/

/-- A frame that was held and is given up is loose. -/
theorem Frames.loose {f : Nat} (hF : Frames (insert f h) s) (hf : f ∉ h) : Loose h s f where
  unused o ho := by
    have hu : Uses (insert f h) s o f := by
      rcases o with _ | _ | _ | _ | _ | g
      case held => exact ⟨Set.mem_insert_of_mem f ho.1, ho.2⟩
      all_goals exact ho
    have := hF.own.inj hu (p := .held f) ⟨Set.mem_insert f h, rfl⟩
    subst this
    exact hf ho.1
  not_free := hF.own.busy (o := .held f) ⟨Set.mem_insert f h, rfl⟩
  lo := (hF.range_used (.held f) f ⟨Set.mem_insert f h, rfl⟩).1
  hi := (hF.range_used (.held f) f ⟨Set.mem_insert f h, rfl⟩).2

theorem Unmaps.inv {d lo hi : Nat} (hU : Unmaps h d lo hi s t) (hI : Inv h s) : Inv h t :=
  ⟨hU.frames, {
    dir := fun p hp => by
      rw [hU.frees.proc] at hp ⊢
      rw [hU.dirs]
      exact hI.dir p hp
    dir_inj := by rw [hU.frees.proc]; exact hI.dir_inj
    size := by rw [hU.frees.proc]; exact hI.size
    embryo := by rw [hU.frees.proc]; exact hI.embryo }⟩

theorem Unmaps.keeps {d lo hi : Nat} (hU : Unmaps h d lo hi s t) :
    Keeps h (pageRange d lo hi) s t :=
  hU.frees.keeps fun _ hd => by rw [hU.dirs, hd]

/-- `kfree` of a frame that was held. -/
theorem kfree_held {f : Nat} (hI : Inv (insert f h) s) (hf : f ∉ h) :
    K.Returns (kfree f) s fun _ t => Evicts h s t :=
  kfree_spec ⟨hI.toFrames.forget (Set.subset_insert f h), hI.toProcs⟩ (hI.toFrames.loose hf)

/-- The outcome of making the pages of `d` from `v` on, `lo` being the first page
the caller has asked for. -/
structure Grows (h : Set Nat) (d lo v newsz : Nat) (s : Machine) (r : Nat) (t : Machine) : Prop where
  inv : Inv h t
  dir : (t.space d).isSome = true
  keeps : Keeps h (pageRange d lo (pagesUp newsz)) s t
  result : r = 0 ∨ r = newsz
  /-- On success the pages before `v` are kept too, and the ones from `v` are new. -/
  grown : r ≠ 0 → Keeps h (pageRange d v (pagesUp newsz)) s t
  zero : r ≠ 0 → ∀ w, v ≤ w → w < pagesUp newsz → t.content d w = some (memset 0)
  perm : r ≠ 0 → ∀ w, v ≤ w → w < pagesUp newsz → (t.pte d w).perm = PTE_W ||| PTE_U

/-- The pages of the range are unmapped again, and a frame is given back. -/
theorem Unmaps.grows {d v m n : Nat} (hU : Unmaps h d (pagesUp m) (pagesUp n) s t) (hI : Inv h s)
    (hd : (s.space d).isSome = true) : Grows h d (pagesUp m) v n s 0 t where
  inv := hU.inv hI
  dir := by rw [hU.dirs, hd]
  keeps := hU.keeps
  result := Or.inl rfl
  grown hr := absurd rfl hr
  zero hr := absurd rfl hr
  perm hr := absurd rfl hr

/-- **The loop of `allocuvm`.** -/
theorem allocLoop_spec {d oldsz newsz : Nat} (hsz : newsz < KERNBASE) (n v : Nat) (hI : Inv h s)
    (hd : (s.space d).isSome = true) (hz : ¬ s.zombie d) (hv : pagesUp oldsz ≤ v)
    (hn : v + n = max v (pagesUp newsz)) :
    K.Spec (allocLoop d oldsz newsz n v) s (Grows h d (pagesUp oldsz) v newsz s) := by
  induction n generalizing s v with
  | zero =>
    exact Code.spec_pure.2 ⟨hI, hd, .refl hI, Or.inr rfl, fun _ => .refl hI,
      fun _ w h1 h2 => by omega, fun _ w h1 h2 => by omega⟩
  | succ n ih =>
    have hup : pagesUp newsz ≤ UPAGES := pagesUp_le_upages (Nat.le_of_lt hsz)
    have hvlt : v < pagesUp newsz := by omega
    unfold allocLoop
    refine (kallocRetry_spec 2 hI).spec.bind fun r s1 ha => ?_
    have hK1 : Keeps h noPage s s1 := ha.keeps hI
    have hd1 := hK1.dir_noPage hd
    cases r with
    | none =>
      -- no frame: the pages taken so far are given back
      refine (deallocuvm_spec ha.1.toFrames hd1 (Nat.le_of_lt hsz)).spec.bind
        fun _ s2 hpost => Code.spec_pure.2 ?_
      obtain ⟨_, hU⟩ := hpost
      have hG := hU.grows (v := v) ha.1 hd1
      exact { hG with
        keeps := (hK1.mono fun _ _ hx => hx.elim).trans hG.keeps
        grown := fun hr => absurd rfl hr }
    | some f =>
      obtain ⟨hI1, -, hf, -⟩ := ha
      simp only [Code.spec_modify_bind]
      have hI2 : Inv (insert f h) (s1.setMem f (memset 0)) := hI1.congr rfl
      have hK2 : Keeps h noPage s (s1.setMem f (memset 0)) :=
        hK1.trans (Machine.setMem_keeps hI1 hf)
      refine (mapPages_spec hI2 hf hd1 (by omega)).bind fun ok s3 hpost => ?_
      obtain ⟨hp, hm⟩ := hpost
      cases ok with
      | false =>
        -- no page table: the frame is given back as well
        obtain ⟨hI3, hK3, -⟩ := hm
        have hsub : h ⊆ insert f h := Set.subset_insert f h
        have hK03 := hK2.trans (hK3.forget hsub)
        have hd3 := hK03.dir_noPage hd
        refine (deallocuvm_spec hI3.toFrames hd3 (Nat.le_of_lt hsz)).spec.bind
          fun _ s4 hpost => ?_
        obtain ⟨_, hU⟩ := hpost
        refine (kfree_held (hU.inv hI3) hf).spec.bind fun _ s5 hE => Code.spec_pure.2 ?_
        have hI4 : Inv h s4 := ⟨(hU.inv hI3).toFrames.forget hsub, (hU.inv hI3).toProcs⟩
        have hK05 := ((hK03.mono fun _ _ hx => hx.elim).trans (hU.keeps.forget hsub)).trans
          (hE.keeps hI4)
        exact {
          inv := hE.1
          dir := by rw [hE.2.dirs, hU.dirs, hd3]
          keeps := hK05
          result := Or.inl rfl
          grown := fun hr => absurd rfl hr
          zero := fun hr => absurd rfl hr
          perm := fun hr => absurd rfl hr }
      | true =>
        obtain ⟨hI3, hK3, hpte, hmem⟩ := hm
        -- page `v` is in, and the later turns leave it
        have hKs3 : Keeps h (onlyPage d v) s s3 := (hK2.mono fun _ _ hx => hx.elim).trans hK3
        have hd3 := hKs3.dir_onlyPage hd
        refine (ih (v + 1) hI3 hd3 (fun hx => hz ((hKs3.zombie d).1 hx)) (by omega)
          (by omega)).mono fun r t hG => ?_
        have hsub : ∀ d' w, onlyPage d v d' w → pageRange d v (pagesUp newsz) d' w :=
          fun d' w hx => ⟨hx.1, by omega⟩
        have hlo : ∀ d' w, pageRange d v (pagesUp newsz) d' w →
            pageRange d (pagesUp oldsz) (pagesUp newsz) d' w := fun d' w hx => ⟨hx.1, by omega⟩
        have hnew : r ≠ 0 → Kept s3 t d v := fun hr =>
          (hG.grown hr).page d v hd3 (fun hx => hz ((hKs3.zombie d).1 hx)) (by omega)
            fun hx => by omega
        exact {
          inv := hG.inv
          dir := hG.dir
          keeps := (hKs3.mono fun d' w hx => hlo d' w (hsub d' w hx)).trans hG.keeps
          result := hG.result
          grown := fun hr => (hKs3.mono hsub).trans
            ((hG.grown hr).mono fun d' w hx => ⟨hx.1, by omega⟩)
          zero := fun hr w h1 h2 => by
            rcases eq_or_ne w v with rfl | hne
            · rw [(hnew hr).content, Machine.content, hpte,
                if_pos (Pte.mapped_present _ _), Pte.mapped_ppn, hmem]
              simp
            · exact hG.zero hr w (by omega) h2
          perm := fun hr w h1 h2 => by
            rcases eq_or_ne w v with rfl | hne
            · rw [(hnew hr).perm, hpte, Pte.mapped_perm]
              rfl
            · exact hG.perm hr w (by omega) h2 }

/-- The outcome of `allocuvm(pgdir, m, n)`. -/
structure Allocated (h : Set Nat) (d m n : Nat) (s : Machine) (r : Nat) (t : Machine) : Prop where
  inv : Inv h t
  dir : (t.space d).isSome = true
  keeps : Keeps h (pageRange d (pagesUp m) (pagesUp n)) s t
  result : r = 0 ∨ r = max m n ∧ n < KERNBASE
  new : r ≠ 0 → ∀ w, pagesUp m ≤ w → w < pagesUp n →
    t.content d w = some (memset 0) ∧ (t.pte d w).perm = PTE_W ||| PTE_U

/-- **`allocuvm`** fails, or makes the pages from `PGROUNDUP(m)` up to
`PGROUNDUP(n)`, all zero. -/
theorem allocuvm_spec {d m n : Nat} (hI : Inv h s) (hd : (s.space d).isSome = true)
    (hz : ¬ s.zombie d) : K.Spec (allocuvm d m n) s (Allocated h d m n s) := by
  unfold allocuvm
  split
  · exact Code.spec_pure.2 ⟨hI, hd, .refl hI, Or.inl rfl, fun hr => absurd rfl hr⟩
  · split
    · next hn hlt =>
      have := pagesUp_mono (Nat.le_of_lt hlt)
      exact Code.spec_pure.2 ⟨hI, hd, .refl hI, Or.inr ⟨by omega, by omega⟩,
        fun _ w h1 h2 => by omega⟩
    · next hn hge =>
      have hle : m ≤ n := by omega
      have := pagesUp_mono hle
      refine (allocLoop_spec (by omega) _ _ hI hd hz le_rfl (by omega)).mono fun r t hG => ?_
      refine ⟨hG.inv, hG.dir, hG.keeps, ?_, fun hr w h1 h2 => ?_⟩
      · rcases hG.result with hr | hr
        · exact Or.inl hr
        · exact Or.inr ⟨by omega, by omega⟩
      · exact ⟨hG.zero hr w h1 h2, hG.perm hr w h1 h2⟩

end Xv6.Swap
