/-
`swapPageIn`: what it does to a page that was paged out, and when it does
nothing.

The frame that `kalloc` returns may come from an eviction of another page of the
same address space. The page that is read in is not in memory, so no eviction
touches its entry, and its slot is in use, so no eviction writes to its blocks:
after the read the frame has the bytes of the slot, which are the bytes the
process stored.
-/
import Xv6.Swap.Keeps

set_option autoImplicit false

namespace Xv6.Swap

open Xv6.Lib

variable {h : Set Nat} {s t u : Machine} {X : Nat → Nat → Prop}

/-! ## The pieces -/

/-- The walk of an entry that is not zero finds it. -/
theorem Frames.walk_of_ne_zero {d v : Nat} {sp : Space} (hF : Frames h s) (hsp : s.space d = some sp)
    (hne : s.pte d v ≠ Pte.zero) : sp.walk v = some (s.pte d v) := by
  rcases hF.walk_eq hsp v with ⟨-, hz⟩ | hw
  · exact absurd hz hne
  · exact hw

/-- With its page table there, `mapPages` allocates nothing. -/
theorem mapPages_run {d v f : Nat} {perm : BitVec 12} {sp : Space} {e : Pte}
    (hsp : s.space d = some sp) (hw : sp.walk v = some e) (hp : e.present = false) :
    (mapPages d v f perm).run s = .ok (true, s.setPte d v (Pte.mapped f perm)) := by
  have hrun : (walkpgdirAlloc d v).run s = .ok (some e, s) := by
    unfold walkpgdirAlloc
    rw [K.run, Code.run_bind_of_ok (walkpgdir_returns hsp v), hw]
    rfl
  unfold mapPages
  rw [K.run, Code.run_bind_of_ok hrun]
  simp only [hp]
  rfl

/-- The reading loop over `is` fills exactly the blocks in `is`. -/
theorem pageInBlocks_spec (b f : Nat) (is : List (Fin SWAP_BLOCKS_PER_PAGE)) (s : Machine) :
    K.Returns (pageInBlocks b f is) s fun _ t =>
      ∃ pg, Quiet (s.setMem f pg) t ∧
        ∀ i, chunk pg i = if i ∈ is then s.disk (b + i.val) else chunk (s.mem f) i := by
  induction is generalizing s with
  | nil =>
    refine Code.returns_pure.2 ⟨s.mem f, ⟨s.cpu, s.hist.reloads, ?_, rfl⟩, fun i => by simp⟩
    cases s
    simp [Machine.setMem, Machine.setCpu]
  | cons i is ih =>
    unfold pageInBlocks
    refine (bread_spec _ s).bind fun data t hpost => ?_
    obtain ⟨⟨c, r, ht, hc⟩, hdata⟩ := hpost
    subst ht
    simp only [Code.returns_modify_bind]
    refine (ih _).mono fun _ u hpost => ?_
    obtain ⟨pg, ⟨c', r', hu, hc'⟩, hpg⟩ := hpost
    subst hu
    refine ⟨pg, ⟨c', r', ?_, hc'.trans hc⟩, fun j => ?_⟩
    · simp [Machine.setMem, Machine.setCpu]
    · rw [hpg j]
      simp only [Machine.setMem_mem, Machine.setCpu_mem, Machine.setMem_disk, Machine.setCpu_disk,
        Function.update_self, List.mem_cons]
      rcases eq_or_ne j i with rfl | hji
      · simp [hdata]
      · rw [chunk_setChunk_of_ne _ _ hji]
        simp [hji]

/-- A held frame is not the frame of any page, so filling it keeps every page. -/
theorem Machine.setMem_keeps {f : Nat} {pg : Page} (hI : Inv (insert f h) s) (hf : f ∉ h) :
    Keeps h X s (s.setMem f pg) := by
  have hmem : ∀ g, g ≠ f → (s.setMem f pg).mem g = s.mem g := fun g hg => by simp [hg]
  have hheld : Uses (insert f h) s (.held f) f := ⟨Set.mem_insert f h, rfl⟩
  refine {
    kend := rfl, initproc := rfl, nextpid := rfl, pipe := rfl, cpu_proc := rfl
    proc := fun p => ⟨_, rfl⟩
    held := fun g hg => hmem g fun he => hf (he ▸ hg)
    dirs := fun _ _ hd => hd
    page := fun d v hd hz hv _ => ⟨⟨hd, ?_, rfl⟩, fun _ => rfl⟩
    recorded := fun hR => hR }
  unfold Machine.content
  by_cases hp : (s.pte d v).present = true
  · rw [if_pos hp, if_pos (show ((s.setMem f pg).pte d v).present = true from hp)]
    refine congrArg some (hmem _ fun he => ?_)
    have := hI.own.inj (o := .page d v) ⟨hv, hp, he⟩ hheld
    cases this
  · rw [if_neg hp, if_neg (show ¬ ((s.setMem f pg).pte d v).present = true from hp)]
    rfl

/-- Once its page is mapped a slot has no owner, and freeing it keeps the rest. -/
theorem Inv.freeSlot {k d v : Nat} (hI : Inv h s) (hk : ∀ o, ¬ SlotUses s o k) :
    let t := s.setSlot k fun sl => { sl with is_free := true, page_perm := 0#12 }
    Inv h t ∧ Keeps h (onlyPage d v) s t := by
  intro t
  have hslot : ∀ j, j ≠ k → t.slots j = s.slots j := fun j hj => by simp [t, hj]
  refine ⟨⟨{ hI.toFrames with
    slot_own := hI.slot_own.release (r := k) (fun o ho => hk o ho) (fun _ _ ho => ho) ?_ },
    hI.toProcs.congr rfl rfl⟩, ?_⟩
  · intro j hj
    rcases eq_or_ne j k with rfl | hjk
    · exact Or.inl rfl
    · rw [hslot j hjk] at hj
      exact Or.inr hj
  · exact {
      kend := rfl, initproc := rfl, nextpid := rfl, pipe := rfl, cpu_proc := rfl
      proc := fun p => ⟨_, rfl⟩
      held := fun _ _ => rfl
      dirs := fun _ _ hd => hd
      page := fun d' v' hd hz hv _ => ⟨⟨hd, rfl, rfl⟩, fun _ => rfl⟩
      recorded := fun hR d' v' hz hv hs => by
        have hne : (s.pte d' v').ppn ≠ k := fun he => hk (d', v') ⟨hz, hv, hs, he⟩
        obtain ⟨h1, h2, h3⟩ := hR d' v' hz hv hs
        exact ⟨h1, (congrArg (fun x => permOf x.page_perm) (hslot _ hne)).trans h2, h3⟩ }

/-! ## The whole routine -/

/-- The outcome of `swapPageIn` for a page that was paged out to slot `k`. -/
structure PagedIn (h : Set Nat) (d v k : Nat) (s t : Machine) : Prop where
  inv : Inv h t
  keeps : Keeps h (onlyPage d v) s t
  present : (t.pte d v).present = true
  flags : (t.pte d v).flags = (s.slots k).page_perm ||| PTE_P
  content : t.content d v = s.content d v
  freed : (t.slots k).is_free = true

/-- **Paging in.** A page of a live process that was paged out comes back with
its bytes, and its slot becomes free; or there is no memory, and nothing a
process can see has changed. -/
theorem swapPageIn_spec {d v : Nat} (hI : Inv h s) (hd : (s.space d).isSome = true)
    (hv : v < UPAGES) (hz : ¬ s.zombie d) (hs : (s.pte d v).swapped = true) (hcur : s.myproc.live) :
    K.Returns (swapPageIn d v) s fun r t =>
      if r then PagedIn h d v (s.pte d v).ppn s t else Evicts h s t := by
  obtain ⟨sp, hsp⟩ := Option.isSome_iff_exists.1 hd
  obtain ⟨hp, hne⟩ := Pte.swapped_iff.1 hs
  have hwalk := hI.walk_of_ne_zero hsp hne
  have huse : SlotUses s (d, v) (s.pte d v).ppn := ⟨hz, hv, hs, rfl⟩
  have hlt := hI.slot_range _ _ huse
  have hused : (s.slots (s.pte d v).ppn).is_free = false := by simpa using hI.slot_own.busy huse
  unfold swapPageIn
  simp only [Code.returns_get_bind]
  refine Code.Returns.bind_run (walkpgdir_returns hsp v) ?_
  simp only [hwalk, hp, hused, Bool.false_eq_true, if_false, if_neg (Nat.not_le.2 hlt)]
  refine (kallocRetry_spec 1 hI).bind fun r s1 ha => ?_
  cases r with
  | none => exact Code.returns_pure.2 ha
  | some f =>
    obtain ⟨hI1, hP1, hf, -⟩ := ha
    have hout : s1.pte d v = s.pte d v := hP1.out_eq hv hp
    obtain ⟨hslot, -, hdisk⟩ := hP1.slot _ hused
    have hsub : h ⊆ insert f h := Set.subset_insert f h
    simp only
    refine (pageInBlocks_spec _ _ _ _).bind fun _ s2 hpost => ?_
    obtain ⟨pg, hq, hpg⟩ := hpost
    have hpage : pg = s.slotPage (s.pte d v).ppn := by
      rw [← hdisk]
      refine page_ext fun i => ?_
      rw [hpg i, if_pos (List.mem_finRange i)]
      simp [Machine.slotPage]
    -- the frame is filled; the entry is still the one that names the slot
    have hI2 : Inv (insert f h) s2 := (hq.evicts (hI1.congr (t := s1.setMem f pg) rfl)).1
    have hK2 : Keeps h (onlyPage d v) s s2 := by
      have hI1' : Inv h (s1.setMem f pg) :=
        ⟨(hI1.toFrames.forget hsub).congr rfl, hI1.toProcs.congr rfl rfl⟩
      exact ((hP1.keeps hI).mono fun _ _ hx => hx.elim).trans
        ((Machine.setMem_keeps hI1 hf).trans ((hq.evicts hI1').keeps hI1'))
    obtain ⟨c, rl, rfl, hc⟩ := hq
    have hd2 := hK2.dir_onlyPage hd
    obtain ⟨sp2, hsp2⟩ := Option.isSome_iff_exists.1 hd2
    have hpte2 : ((s1.setMem f pg).setCpu c rl).pte d v = s.pte d v := hout
    have hw2 := hI2.walk_of_ne_zero hsp2 (by rw [hpte2]; exact hne)
    simp only [Code.returns_get_bind]
    refine Code.Returns.bind_run (mapPages_run hsp2 hw2 (by rw [hpte2]; exact hp)) ?_
    simp only [if_true]
    set s2 := (s1.setMem f pg).setCpu c rl with hs2
    set perm := (s2.slots (s.pte d v).ppn).page_perm ||| PTE_P with hperm
    have hI2' : Inv h s2 := ⟨hI2.toFrames.forget hsub, hI2.toProcs⟩
    have hI3 := hI2.map (b := perm) hf hd2 hv (hI2.tab_isSome (by rw [hpte2]; exact hne))
    have hK3 := hK2.trans (Machine.setPte_keeps hd2 (Pte.mapped_swapped f perm))
    have hself : ∀ e, (s2.setPte d v e).pte d v = e := fun e => by
      rw [Machine.setPte_pte hd2, if_pos ⟨rfl, rfl⟩]
    -- no other page is in the slot
    have hnone : ∀ o, ¬ SlotUses (s2.setPte d v (Pte.mapped f perm)) o (s.pte d v).ppn := by
      rintro ⟨d', v'⟩ ⟨hz', hv', hs', hk'⟩
      have hz2 : ¬ s2.zombie d := fun hx => hz ((hK2.zombie d).1 hx)
      by_cases hn : d' = d ∧ v' = v
      · obtain ⟨rfl, rfl⟩ := hn
        rw [hself] at hs'
        have := (Pte.swapped_iff.1 hs').1
        rw [Pte.mapped_present] at this
        cases this
      · rw [Machine.setPte_pte hd2, if_neg hn] at hs' hk'
        have := hI2'.slot_own.inj (o := (d', v')) (p := (d, v)) ⟨hz', hv', hs', hk'⟩
          ⟨hz2, hv, by rw [hpte2]; exact hs, by rw [hpte2]⟩
        cases this
        exact hn ⟨rfl, rfl⟩
    obtain ⟨hI4, hK4⟩ := hI3.freeSlot (d := d) (v := v) hnone
    unfold Xv6.Swap.freeSlot
    rw [if_pos hlt]
    simp only [Code.returns_modify_bind, Code.returns_pure]
    have hcur' : ((s2.setPte d v (Pte.mapped f perm)).setSlot (s.pte d v).ppn fun sl =>
        { sl with is_free := true, page_perm := 0#12 }).myproc.live := by
      have := (hK3.live s.cpu.proc).2 hcur
      rw [← hK3.cpu_proc] at this
      exact this
    have hE5 := hI4.setRss (g := fun p => p.rss + 1) hcur'
    refine ⟨hE5.1, hK3.trans (hK4.trans (hE5.keeps hI4)), ?_, ?_, ?_, ?_⟩
    · exact (congrArg Pte.present (hself _)).trans (Pte.mapped_present f perm)
    · refine (congrArg Pte.flags (hself _)).trans ?_
      simp only [Pte.mapped, hperm, hs2, Machine.setCpu_slots, Machine.setMem_slots, hslot]
      rw [BitVec.or_assoc, BitVec.or_self]
    · have hcont : s.content d v = some (s.slotPage (s.pte d v).ppn) := by
        rw [Machine.content, if_neg (by rw [hp]; simp), if_pos hs]
      have h5 := hself (Pte.mapped f perm)
      rw [hcont, Machine.content]
      refine (if_pos ((congrArg Pte.present h5).trans (Pte.mapped_present f perm))).trans ?_
      refine congrArg some ((congrArg s2.mem (congrArg Pte.ppn h5)).trans ?_)
      simp [hs2, hpage]
    · simp

end Xv6.Swap
