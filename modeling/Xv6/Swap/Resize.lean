/-
`growproc`: what is promised when it succeeds, and what is left when it fails.

While the loop of `allocuvm` runs, pages of any process may be paged out, pages of the
caller and pages it has just been given included, and each is counted off its `rss`.
`Counts` is that account: between two states the counter of a process has gone down by
the number of slots that were free and now hold a page of its directory.
-/
import Xv6.Swap.Copyout

set_option autoImplicit false

namespace Xv6.Swap

open Xv6.Lib

variable {h : Set Nat} {s t u : Machine} {d v : Nat}

/-! ## The account of the evictions -/

/-- The slots that were free and now hold a page of directory `d`. -/
def drawn (s t : Machine) (d : Nat) : Finset Nat :=
  (Finset.range SWAP_SLOT_TOTAL).filter fun k => (s.slots k).is_free = true ∧
    (t.slots k).is_free = false ∧ (t.hist.filled k).map Prod.fst = some d

theorem mem_drawn {k : Nat} : k ∈ drawn s t d ↔ k < SWAP_SLOT_TOTAL ∧ (s.slots k).is_free = true ∧
    (t.slots k).is_free = false ∧ (t.hist.filled k).map Prod.fst = some d := by
  unfold drawn
  rw [Finset.mem_filter, Finset.mem_range]

/-- Slots in use stay, and each process has counted off its pages that were paged out. -/
structure Counts (s t : Machine) : Prop where
  used : ∀ k, (s.slots k).is_free = false →
    (t.slots k).is_free = false ∧ t.hist.filled k = s.hist.filled k
  proc : ∀ p, ∃ r, t.proc p = { s.proc p with rss := r }
  rss : ∀ p, (s.proc p).live →
    (t.proc p).rss = (s.proc p).rss - BitVec.ofNat 32 (drawn s t (s.proc p).pgdir).card

namespace Counts

theorem of_eq (hs : t.slots = s.slots) (hf : t.hist.filled = s.hist.filled) (hp : t.proc = s.proc) :
    Counts s t where
  used k hk := by rw [hs, hf]; exact ⟨hk, rfl⟩
  proc p := ⟨(s.proc p).rss, by rw [hp]⟩
  rss p _ := by
    have hnone : drawn s t (s.proc p).pgdir = ∅ := by
      refine Finset.eq_empty_iff_forall_notMem.2 fun k hk => ?_
      obtain ⟨-, h1, h2, -⟩ := mem_drawn.1 hk
      rw [hs, h1] at h2
      cases h2
    rw [hnone, hp, Finset.card_empty, BitVec.sub_zero]

theorem refl (s : Machine) : Counts s s := of_eq rfl rfl rfl

theorem pgdir (hst : Counts s t) (p : Nat) : (t.proc p).pgdir = (s.proc p).pgdir := by
  obtain ⟨r, hr⟩ := hst.proc p
  rw [hr]

theorem live (hst : Counts s t) (p : Nat) : (t.proc p).live ↔ (s.proc p).live := by
  obtain ⟨r, hr⟩ := hst.proc p
  rw [hr]
  exact Iff.rfl

/-- What was drawn in two steps was drawn in the one or in the other. -/
theorem drawn_trans (hst : Counts s t) (htu : Counts t u) (d : Nat) :
    (drawn s u d).card = (drawn s t d).card + (drawn t u d).card := by
  have hunion : drawn s u d = drawn s t d ∪ drawn t u d := by
    ext k
    rw [Finset.mem_union, mem_drawn, mem_drawn, mem_drawn]
    constructor
    · rintro ⟨hk, hs, hu, hf⟩
      cases ht : (t.slots k).is_free with
      | false => exact Or.inl ⟨hk, hs, rfl, by rw [← (htu.used k ht).2, hf]⟩
      | true => exact Or.inr ⟨hk, rfl, hu, hf⟩
    · rintro (⟨hk, hs, ht, hf⟩ | ⟨hk, ht, hu, hf⟩)
      · exact ⟨hk, hs, (htu.used k ht).1, by rw [(htu.used k ht).2, hf]⟩
      · refine ⟨hk, ?_, hu, hf⟩
        by_contra hs
        rw [(hst.used k (Bool.eq_false_of_not_eq_true hs)).1] at ht
        cases ht
  rw [hunion, Finset.card_union_of_disjoint]
  refine Finset.disjoint_left.2 fun k h1 h2 => ?_
  have ht := (mem_drawn.1 h1).2.2.1
  rw [(mem_drawn.1 h2).2.1] at ht
  cases ht

theorem trans (hst : Counts s t) (htu : Counts t u) : Counts s u where
  used k hk := by
    obtain ⟨h1, h2⟩ := hst.used k hk
    obtain ⟨h3, h4⟩ := htu.used k h1
    exact ⟨h3, h4.trans h2⟩
  proc p := by
    obtain ⟨r, hr⟩ := hst.proc p
    obtain ⟨r', hr'⟩ := htu.proc p
    exact ⟨r', by rw [hr', hr]⟩
  rss p hp := by
    rw [htu.rss p ((hst.live p).2 hp), hst.pgdir, hst.rss p hp, hst.drawn_trans htu,
      BitVec.ofNat_add, ← BitVec.sub_sub]

end Counts

/-- One round of evictions. -/
theorem Evicted.counts {q : Nat} {L : List (Nat × Nat)} (hE : Evicted q d L s t) (hI : Inv h s)
    (hst : Paged h s t) (hq : (s.proc q).live) (hd : (s.proc q).pgdir = d) : Counts s t := by
  -- the slots drawn for a directory
  have hfill : ∀ x ∈ L, t.hist.filled x.2 = some (d, x.1) := by
    intro x hx
    have hppn := (Pte.clearA_eq.1 (hE.entry x hx)).1
    have hgone := hE.gone (List.mem_map_of_mem (f := Prod.fst) hx)
    have hr := hE.resident x hx
    cases hst.page d x.1 hr.1 with
    | out hs => rw [hr.2.1] at hs; cases hs
    | stay hs ht => rw [hgone] at ht; cases ht
    | move hs hu ht hp hk hfree hused hfill =>
      rwa [hppn] at hfill
  have hnew : ∀ k, (s.slots k).is_free = true → (t.slots k).is_free = false →
      ∃ x ∈ L, x.2 = k := by
    intro k hs ht
    by_contra hn
    have hk : k ∉ L.map Prod.snd := fun hm => by
      obtain ⟨x, hx, he⟩ := List.mem_map.1 hm
      exact hn ⟨x, hx, he⟩
    rw [(hE.slot k hk).1, hs] at ht
    cases ht
  have hdrawn : ∀ d', (drawn s t d').card = if d' = d then L.length else 0 := by
    intro d'
    by_cases hd' : d' = d
    · subst hd'
      rw [if_pos rfl, ← List.length_map (f := Prod.snd), ← List.toFinset_card_of_nodup hE.slots]
      refine congrArg Finset.card (Finset.ext fun k => ?_)
      rw [mem_drawn, List.mem_toFinset]
      constructor
      · rintro ⟨-, hs, ht, -⟩
        obtain ⟨x, hx, rfl⟩ := hnew k hs ht
        exact List.mem_map_of_mem hx
      · intro hk
        obtain ⟨x, hx, rfl⟩ := List.mem_map.1 hk
        refine ⟨(hE.free x hx).1, (hE.free x hx).2, hE.used x hx, ?_⟩
        rw [hfill x hx]
        rfl
    · rw [if_neg hd', Finset.card_eq_zero, Finset.eq_empty_iff_forall_notMem]
      intro k hk
      obtain ⟨-, hs, ht, hf⟩ := mem_drawn.1 hk
      obtain ⟨x, hx, rfl⟩ := hnew k hs ht
      rw [hfill x hx] at hf
      exact hd' (Option.some.inj hf).symm
  refine ⟨fun k hk => ?_, fun p => ?_, fun p hp => ?_⟩
  · obtain ⟨h1, h2, -⟩ := hst.slot k hk
    exact ⟨by rw [h1, hk], h2⟩
  · exact hst.proc p
  · rw [hE.proc p, hdrawn]
    by_cases hpq : p = q
    · subst hpq
      rw [if_pos rfl, if_pos hd]
    · have hne : (s.proc p).pgdir ≠ d := fun he => hpq (hI.dir_inj p q hp hq (he.trans hd.symm))
      rw [if_neg hpq, if_neg hne, BitVec.sub_zero]

theorem checkAndSwap_counts (hI : Inv h s) : K.Spec checkAndSwap s fun _ t => Counts s t := by
  refine (checkAndSwap_exact hI).spec.mono fun _ t hc => ?_
  by_cases hlt : s.threshold < s.freelist.length
  · rw [hc.enough hlt]
    exact .refl s
  · have hle : s.freelist.length ≤ s.threshold := by omega
    cases hq : findVictimProc s with
    | none =>
      rw [hc.none hle hq]
      exact .of_eq rfl rfl rfl
    | some q =>
      obtain ⟨L, hE, -⟩ := hc.some hle q hq
      exact hE.counts hI hc.evicts.2 (findVictimProc_live hI hq) rfl

theorem popFrame_counts (s : Machine) : K.Spec popFrame s fun _ t => Counts s t := by
  unfold popFrame
  simp only [Code.spec_get_bind]
  split
  · exact Code.spec_pure.2 (.refl s)
  · simp only [Code.spec_modify_bind]
    exact Code.spec_pure.2 (.of_eq rfl rfl rfl)

theorem kalloc_counts (hI : Inv h s) : K.Spec kalloc s fun _ t => Counts s t := by
  unfold kalloc
  rw [K.Spec, Code.spec_get_bind]
  split
  · refine ((checkAndSwap_counts hI).and (checkAndSwap_spec hI).spec).bind fun _ t hpost => ?_
    obtain ⟨hst, hIt⟩ := hpost
    have hif : K.Spec swapIfEmpty t fun _ u => Counts t u := by
      unfold swapIfEmpty
      rw [K.Spec, Code.spec_get_bind]
      split
      · exact checkAndSwap_counts hIt.1
      · exact Code.spec_pure.2 (.refl t)
    exact hif.bind fun _ u htu => (popFrame_counts u).mono fun _ w huw => (hst.trans htu).trans huw
  · exact popFrame_counts s

theorem kallocRetry_counts (n : Nat) (hI : Inv h s) :
    K.Spec (kallocRetry n) s fun _ t => Counts s t := by
  induction n generalizing s with
  | zero => exact kalloc_counts hI
  | succ n ih =>
    refine ((kalloc_counts hI).and (kalloc_spec hI).spec).bind fun r t hpost => ?_
    obtain ⟨hst, ha⟩ := hpost
    cases r with
    | some f => exact Code.spec_pure.2 hst
    | none =>
      have hIt : Inv h t := ha.1
      refine ((checkAndSwap_counts hIt).and (checkAndSwap_spec hIt).spec).bind fun _ u hpost => ?_
      exact (ih hpost.2.1).mono fun _ w huw => (hst.trans hpost.1).trans huw

theorem pgdir_still (s : Machine) : K.Spec (pgdir d) s fun _ t => t = s := by
  unfold pgdir
  simp only [Code.spec_get_bind]
  split
  · exact Code.spec_pure.2 rfl
  · exact Code.spec_panic _

theorem walkpgdir_still (s : Machine) : K.Spec (walkpgdir d v) s fun _ t => t = s :=
  (pgdir_still s).bind fun _ _ ht => Code.spec_pure.2 ht

theorem mapPages_counts {f : Nat} {perm : BitVec 12} (hI : Inv h s) :
    K.Spec (mapPages d v f perm) s fun _ t => Counts s t := by
  have halloc : K.Spec (walkpgdirAlloc d v) s fun _ t => Counts s t := by
    unfold walkpgdirAlloc
    refine (walkpgdir_still s).bind fun r t ht => ?_
    subst ht
    cases r with
    | some e => exact Code.spec_pure.2 (.refl t)
    | none =>
      refine (kalloc_counts hI).bind fun r u hu => ?_
      cases r with
      | none => exact Code.spec_pure.2 hu
      | some g =>
        refine (pgdir_still u).bind fun sp w hw => ?_
        subst hw
        simp only [Code.spec_modify_bind]
        exact Code.spec_pure.2 (hu.trans (.of_eq rfl rfl rfl))
  unfold mapPages
  refine halloc.bind fun r t ht => ?_
  cases r with
  | none => exact Code.spec_pure.2 ht
  | some e =>
    dsimp only
    split
    · exact Code.spec_panic _
    · simp only [Code.spec_modify_bind]
      exact Code.spec_pure.2 (ht.trans (.of_eq rfl rfl rfl))

theorem kfree_counts (f : Nat) (s : Machine) : K.Spec (kfree f) s fun _ t => Counts s t := by
  unfold kfree
  simp only [Code.spec_get_bind]
  split
  · exact Code.spec_panic _
  · exact (Code.spec_modify _).2 (.of_eq rfl rfl rfl)

theorem Unmaps.counts {lo hi : Nat} (hU : Unmaps h d lo hi s t) : Counts s t := by
  have hw := hU.frees.swap
  simp only [Prod.mk.injEq] at hw
  exact .of_eq hw.1 hw.2.2.1 hU.frees.proc

/-- **The loop of `allocuvm`** only counts off pages that are paged out. -/
theorem allocLoop_counts {oldsz newsz : Nat} (hsz : newsz < KERNBASE) (n v : Nat) (hI : Inv h s)
    (hd : (s.space d).isSome = true) (hn : v + n = max v (pagesUp newsz)) :
    K.Spec (allocLoop d oldsz newsz n v) s fun _ t => Counts s t := by
  induction n generalizing s v with
  | zero => exact Code.spec_pure.2 (.refl s)
  | succ n ih =>
    have hup : pagesUp newsz ≤ UPAGES := pagesUp_le_upages (Nat.le_of_lt hsz)
    unfold allocLoop
    refine ((kallocRetry_counts 2 hI).and (kallocRetry_spec 2 hI).spec).bind fun r s1 hpost => ?_
    obtain ⟨hc1, ha⟩ := hpost
    have hK1 : Keeps h noPage s s1 := ha.keeps hI
    have hd1 := hK1.dir_noPage hd
    -- every way on frees or maps frames, which counts nothing
    cases r with
    | none =>
      refine (deallocuvm_spec ha.1.toFrames hd1 (Nat.le_of_lt hsz)).spec.bind fun _ s2 hpost => ?_
      exact Code.spec_pure.2 (hc1.trans hpost.2.counts)
    | some f =>
      obtain ⟨hI1, -, hf, -⟩ := ha
      simp only [Code.spec_modify_bind]
      have hI2 : Inv (insert f h) (s1.setMem f (memset 0)) := hI1.congr rfl
      have hc2 : Counts s (s1.setMem f (memset 0)) := hc1.trans (.of_eq rfl rfl rfl)
      refine ((mapPages_counts hI2).and (mapPages_spec hI2 hf hd1 (by omega))).bind
        fun ok s3 hpost => ?_
      obtain ⟨hc3, -, hm⟩ := hpost
      have hc03 := hc2.trans hc3
      cases ok with
      | false =>
        obtain ⟨hI3, hK3, -⟩ := hm
        have hd3 := hK3.dir_noPage hd1
        refine (deallocuvm_spec hI3.toFrames hd3 (Nat.le_of_lt hsz)).spec.bind fun _ s4 hpost => ?_
        refine (kfree_counts f s4).bind fun _ s5 hc5 => Code.spec_pure.2 ?_
        exact (hc03.trans hpost.2.counts).trans hc5
      | true =>
        obtain ⟨hI3, hK3, -, -⟩ := hm
        have hd3 := hK3.dir_onlyPage hd1
        exact (ih (v + 1) hI3 hd3 (by omega)).mono fun _ t ht => hc03.trans ht

theorem allocuvm_counts {m n : Nat} (hI : Inv h s) (hd : (s.space d).isSome = true) :
    K.Spec (allocuvm d m n) s fun _ t => Counts s t := by
  unfold allocuvm
  split
  · exact Code.spec_pure.2 (.refl s)
  · split
    · exact Code.spec_pure.2 (.refl s)
    · have hmono := pagesUp_mono (Nat.not_lt.1 ‹_›)
      exact allocLoop_counts (Nat.not_le.1 ‹_›) _ _ hI hd (by omega)

/-! ## `growproc` -/

/-- A page of the range that was in memory is no longer mapped. -/
theorem Unmaps.closed {lo hi : Nat} (hU : Unmaps h d lo hi s t) (hp : (s.pte d v).present = true)
    (hlo : lo ≤ v) (hhi : v < hi) : t.pte d v = Pte.zero := by
  have hgone := hU.gone v hlo hhi
  rcases (t.pte d v).cases_kind with hpt | hs | hz
  · rw [hgone] at hpt
    cases hpt
  · -- it has not become a swapped page either
    rw [hU.frees.swapped v hs, hp] at hgone
    cases hgone
  · exact hz

/-- The page was never mapped, or it is a page in memory below the old size. -/
def Closable (s : Machine) (v : Nat) : Prop :=
  s.pte s.myproc.pgdir v = Pte.zero ∨
    (s.pte s.myproc.pgdir v).present = true ∧ v < pagesUp s.myproc.sz

/-- What `growproc(n)` leaves beside `Grown`: above the new size the pages are closed; and a
failed growth has counted off the caller's pages that were paged out. -/
structure GrowRest (s t : Machine) (n : Int) (ok : Bool) : Prop where
  closed : ok = true → ∀ v, pagesUp t.myproc.sz ≤ v → v < UPAGES → Closable s v →
    (n < 0 → 0 ≤ s.myproc.sz + n) → t.pte s.myproc.pgdir v = Pte.zero
  rss : ok = false → 0 < n →
    t.myproc.rss = s.myproc.rss - BitVec.ofNat 32 (drawn s t s.myproc.pgdir).card
  moves : ok = false → n ≠ 0

/-- What the last steps of `growproc` leave of the address space. -/
theorem setSize_pte {sz : Nat} {r : Proc → BitVec 32} (c : Nat) (s : Machine) :
    K.Spec (do
      Code.modify fun s' => s'.setProc c fun p => { p with rss := r p, sz := sz }
      switchuvm c
      return true) s fun ok t => ok = true ∧ (∀ d v, t.pte d v = s.pte d v) ∧
        (c = s.cpu.proc → t.myproc.sz = sz) := by
  simp only [Code.spec_modify_bind]
  refine (switchuvm_spec _ _).bind fun _ t ht => Code.spec_pure.2 ?_
  subst ht
  refine ⟨rfl, fun d v => rfl, fun hc => ?_⟩
  subst hc
  simp [Machine.myproc]

theorem growproc_rest {n : Int} (hI : Inv ∅ s) (hcur : s.myproc.alive) (hlo : -2 ^ 31 ≤ n)
    (hhi : n < 2 ^ 31) : K.Spec (growproc n) s fun ok t => GrowRest s t n ok := by
  have hsz : s.myproc.sz ≤ KERNBASE := hI.size _ hcur.1
  have hdir : (s.space s.myproc.pgdir).isSome = true := hI.dir _ hcur.1
  have hz : ¬ s.zombie s.myproc.pgdir := hI.alive_dir hcur
  unfold growproc
  simp only [Code.spec_get_bind]
  split
  · -- more memory
    next hn =>
    rw [addSize_of_pos hsz hn hhi]
    refine ((allocuvm_spec hI hdir hz).and (allocuvm_counts hI hdir)).bind fun r s1 hpost => ?_
    obtain ⟨ha, hc⟩ := hpost
    have hcp : s1.cpu.proc = s.cpu.proc := ha.keeps.cpu_proc
    split
    · refine Code.spec_pure.2
        ⟨fun hx => absurd hx Bool.false_ne_true, fun _ _ => ?_, fun _ => by omega⟩
      unfold Machine.myproc
      rw [hcp]
      exact hc.rss _ hcur.1
    · next hr =>
      obtain ⟨hrr, -⟩ := ha.result.resolve_left hr
      refine (setSize_pte _ s1).mono fun ok t hpost => ?_
      obtain ⟨rfl, hpte, htsz⟩ := hpost
      refine ⟨fun _ v hv hup hcl _ => ?_, fun hx => absurd hx.symm Bool.false_ne_true,
        fun _ => by omega⟩
      rw [htsz hcp.symm, hrr] at hv
      -- the pages from the new size up are above the old one too
      have hge : pagesUp s.myproc.sz ≤ v := (pagesUp_mono (Nat.le_max_left _ _)).trans hv
      have hge' := (pagesUp_mono (Nat.le_max_right s.myproc.sz (s.myproc.sz + n.toNat))).trans hv
      rcases hcl with h0 | ⟨-, hlt⟩
      · have hk := ha.keeps.page _ v hdir hz hup fun hx => absurd hx.2.2 (by omega)
        rw [hpte, hk.out (by rw [h0]; rfl), h0]
      · omega
  · next hn =>
    split
    · -- less memory
      next hneg =>
      refine (deallocuvm_spec hI.toFrames hdir hsz).spec.bind fun r s1 hpost => ?_
      obtain ⟨hr, hU⟩ := hpost
      have hcp : s1.cpu.proc = s.cpu.proc := hU.keeps.cpu_proc
      split
      · exact Code.spec_pure.2
          ⟨fun hx => absurd hx Bool.false_ne_true, fun _ hx => absurd hx hn, fun _ => by omega⟩
      · refine (setSize_pte _ s1).mono fun ok t hpost => ?_
        obtain ⟨rfl, hpte, htsz⟩ := hpost
        refine ⟨fun _ v hv hup hcl hle => ?_, fun hx => absurd hx.symm Bool.false_ne_true,
          fun _ => by omega⟩
        have hle := hle hneg
        have hsize : addSize s.myproc.sz n ≤ s.myproc.sz := by
          rw [addSize_of_neg hsz hneg hlo, if_pos (by omega)]
          omega
        rw [htsz hcp.symm, hr, Nat.min_eq_right hsize] at hv
        rw [hpte]
        rcases hcl with h0 | ⟨hp, hlt⟩
        · rw [hU.out v (by rw [h0]; rfl), h0]
        · exact hU.closed hp hv hlt
    · -- no change
      next hneg =>
      refine (switchuvm_spec _ _).bind fun _ t ht => Code.spec_pure.2 ?_
      subst ht
      refine ⟨fun _ v hv _ hcl _ => ?_, fun hx => absurd hx.symm Bool.false_ne_true,
        fun hx => absurd hx.symm Bool.false_ne_true⟩
      rcases hcl with h0 | ⟨-, hlt⟩
      · exact h0
      · exact absurd hlt (Nat.not_lt.2 hv)

/-- The outcome of `growproc(n)`, for the caller. -/
structure Resized (s t : Machine) (n : Int) (ok : Bool) : Prop where
  size : (t.myproc.sz : Int) = if ok then s.myproc.sz + n else s.myproc.sz
  /-- The pages below both sizes are as before; when it fails, all of them are. -/
  kept : ∀ v, v < pagesUp s.myproc.sz → v < pagesUp t.myproc.sz → Kept s t s.myproc.pgdir v
  /-- New pages are zero. -/
  zero : ∀ v, pagesUp s.myproc.sz ≤ v → v < pagesUp t.myproc.sz →
    t.content s.myproc.pgdir v = some (memset 0)
  /-- No page that was in memory is accessible above the new size, and none has appeared. -/
  closed : ok = true → ∀ v, pagesUp t.myproc.sz ≤ v → v < UPAGES → Closable s v →
    t.pte s.myproc.pgdir v = Pte.zero
  /-- A failed call counts off the caller's pages that were paged out meanwhile, and no more. -/
  rss : ok = false →
    t.myproc.rss = s.myproc.rss - BitVec.ofNat 32 (drawn s t s.myproc.pgdir).card

/-- **`growproc(n)` towards a positive size is all or nothing**, but for the pages paged out
while it ran: when it fails, size and contents are as before, and the `rss` is less by the
pages of the caller that have gone to the swap area. -/
theorem growproc_all_or_nothing {n : Int} (hI : Inv ∅ s) (hcur : s.myproc.alive)
    (hlo : -2 ^ 31 ≤ n) (hhi : n < 2 ^ 31) (hpos : n < 0 → 0 < s.myproc.sz + n) :
    K.Spec (growproc n) s fun ok t => Resized s t n ok := by
  refine ((growproc_spec hI hcur hlo hhi).and (growproc_rest hI hcur hlo hhi)).mono
    fun ok t hpost => ?_
  obtain ⟨hG, hS⟩ := hpost
  -- a call that fails is a growth
  have hgrows : ok = false → 0 < n := by
    intro hok
    have h0 := hS.moves hok
    rcases hG.fails hok with hn | hle
    · exact hn
    · by_contra hn
      have := hpos (by omega)
      omega
  have hor : ok = true ∨ 0 < n := by
    cases ok with
    | true => exact Or.inl rfl
    | false => exact Or.inr (hgrows rfl)
  refine {
    size := ?_
    kept := hG.kept hor
    zero := hG.zero
    closed := fun hok v hv hup hcl => hS.closed hok v hv hup hcl fun hn => (hpos hn).le
    rss := fun hok => hS.rss hok (hgrows hok) }
  rw [hG.sz]
  cases ok with
  | false => rfl
  | true =>
    simp only [if_true]
    unfold grownSize
    by_cases hn : 0 < n
    · rw [if_pos hn]
      omega
    · rw [if_neg hn]
      by_cases h0 : n = 0
      · subst h0
        simp
      · have := hpos (by omega)
        rw [if_pos (by omega)]
        omega

theorem growproc_all_or_nothing_twoPages : K.Spec (growproc 12288) twoPages fun ok t =>
    Resized twoPages t 12288 ok :=
  growproc_all_or_nothing twoPages_inv ⟨⟨by decide, by decide⟩, by decide⟩ (by decide) (by decide)
    (by decide)

/-- A process with four pages, at frames 3 to 6, and no memory left. -/
def fourPages : Machine where
  kend := 1
  freelist := []
  mem _ := memset 0
  space d := if d = 1 then some {
    tab := fun i => if i = 0 then some 2 else none
    pte := fun v => if v < 4 then ⟨3 + v, 7#12⟩ else Pte.zero } else none
  slots _ := ⟨0#12, true⟩
  disk _ _ := 0
  threshold := 100
  npages_to_swap := 4
  proc i := if i = 0 then
      ⟨16384, 1, 7, .RUNNING, 1, none, 16384, none, false, 4#32⟩
    else ⟨0, 0, 0, .UNUSED, 0, none, 0, none, false, 0#32⟩
  initproc := 0
  nextpid := 2
  pipe _ := none
  cpu := ⟨1, 0, []⟩
  hist := ⟨fun _ => none, [], [], false⟩

theorem fourPages_pte (d v : Nat) :
    fourPages.pte d v = if d = 1 ∧ v < 4 then ⟨3 + v, 7#12⟩ else Pte.zero := by
  by_cases hd : d = 1
  · subst hd
    simp [Machine.pte, fourPages]
  · simp [Machine.pte, fourPages, hd]

theorem fourPages_tab (d i : Nat) :
    fourPages.tab d i = if d = 1 ∧ i = 0 then some 2 else none := by
  by_cases hd : d = 1
  · subst hd
    simp [Machine.tab, fourPages]
  · simp [Machine.tab, fourPages, hd]

/-- What each frame of `fourPages` is. -/
def fourPagesOwner (f : Nat) : Option Owner :=
  if f = 1 then some (.dir 1)
  else if f = 2 then some (.table 1 0)
  else if f = 7 then some (.kstack 0)
  else if 3 ≤ f ∧ f < 7 then some (.page 1 (f - 3))
  else none

theorem fourPages_uses (o : Owner) (f : Nat) (hu : Uses ∅ fourPages o f) :
    fourPagesOwner f = some o := by
  rcases o with ⟨d, v⟩ | ⟨d, i⟩ | d | p | i | g
  · obtain ⟨-, hp, rfl⟩ := hu
    rw [fourPages_pte] at hp ⊢
    split at hp
    · next hdv =>
      obtain ⟨rfl, hv⟩ := hdv
      rw [if_pos ⟨rfl, hv⟩]
      unfold fourPagesOwner
      simp only
      rw [if_neg (by omega), if_neg (by omega), if_neg (by omega), if_pos (by omega),
        Nat.add_sub_cancel_left]
    · cases hp
  · have hf : fourPages.tab d i = some f := hu
    rw [fourPages_tab] at hf
    split at hf
    · next hdi =>
      obtain ⟨rfl, rfl⟩ := hdi
      cases hf
      rfl
    · cases hf
  · obtain ⟨hs, rfl⟩ := hu
    by_cases hf : f = 1
    · subst hf; rfl
    · simp [fourPages, hf] at hs
  · obtain ⟨hk, hne⟩ := hu
    by_cases hp : p = 0
    · subst hp; cases hk; rfl
    · simp only [fourPages, if_neg hp] at hk
      exact absurd hk.symm hne
  · cases hu
  · exact hu.1.elim

theorem fourPages_inv : Inv ∅ fourPages := by
  have hlive : ∀ p, (fourPages.proc p).live → p = 0 := by
    intro p hl
    by_contra hp
    exact hl.1 (by simp [fourPages, hp])
  have hno : ∀ o k, ¬SlotUses fourPages o k := by
    rintro ⟨d, v⟩ k ⟨-, -, hs, -⟩
    rw [fourPages_pte] at hs
    split at hs
    · exact absurd (Pte.swapped_iff.1 hs).1 (by simp [Pte.present])
    · cases hs
  refine ⟨{
    own := ⟨fun {o p r} ho hp => ?_, fun _ hf => by cases hf⟩
    nodup := List.nodup_nil
    range_free := fun f hf => by cases hf
    range_used := fun o f hu => ?_
    kend_pos := by decide
    tab_zero := fun d v hn => ?_
    slot_own := ⟨fun ho => absurd ho (hno _ _), fun ho => absurd ho (hno _ _)⟩
    slot_range := fun o k ho => absurd ho (hno o k) }, {
    dir := fun p hl => by rw [hlive p hl]; rfl
    dir_inj := fun p q hp hq _ => (hlive p hp).trans (hlive q hq).symm
    size := fun p hl => by rw [hlive p hl]; decide
    embryo := fun p he => ?_ }⟩
  · exact Option.some.inj ((fourPages_uses o r ho).symm.trans (fourPages_uses p r hp))
  · have ho := fourPages_uses o f hu
    have hlt : f < 8 ∧ 1 ≤ f := by
      unfold fourPagesOwner at ho
      split_ifs at ho
      all_goals omega
    have hk : fourPages.kend = 1 := rfl
    rw [hk]
    simp only [NFRAMES]
    omega
  · rw [fourPages_tab] at hn
    rw [fourPages_pte, if_neg]
    rintro ⟨rfl, hv⟩
    rw [if_pos ⟨rfl, Nat.div_eq_of_lt (by simp only [NPTENTRIES]; omega)⟩] at hn
    cases hn
  · by_cases hp : p = 0
    · subst hp; cases he
    · simp [fourPages, hp]

set_option maxRecDepth 8192 in
/-- A growth by five pages fails after the caller's four pages were paged out, and its `rss`
stays at 0. Shrinking to 0 gives the pages back and fails, and shrinking by one byte more
does nothing and succeeds. -/
theorem growproc_not_all_or_nothing : Inv ∅ fourPages ∧
    (∃ t, (growproc 20480).run fourPages = .ok (false, t) ∧ t.myproc.rss ≠ fourPages.myproc.rss) ∧
    (∃ t, (growproc (-16384)).run fourPages = .ok (false, t) ∧
      t.content 1 0 ≠ fourPages.content 1 0) ∧
    ∃ t, (growproc (-16385)).run fourPages = .ok (true, t) ∧
      (t.myproc.sz : Int) ≠ 16384 + (-16385) := by
  refine ⟨fourPages_inv, ⟨_, rfl, fun hr => ?_⟩, ⟨_, rfl, fun hc => ?_⟩, _, rfl, fun hs => ?_⟩
  · exact absurd (show (0#32 : BitVec 32) = 4#32 from hr) (by decide)
  · exact Option.some_ne_none (memset 0) (show some (memset 0) = none from hc.symm)
  · exact absurd (show (16384 : Int) = 16384 + (-16385) from hs) (by decide)

end Xv6.Swap
