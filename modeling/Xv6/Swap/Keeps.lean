/-
What the routines of `vm.c` leave alone, and the specifications of the ones that
add an entry to a page table.

`Paged` is too strong for a routine that maps or unmaps pages. `Keeps h X s t`
is the relation for those: the process table is the same up to `rss`, the frames
`h` of the caller keep their bytes, and every page outside `X` of a directory
that is not a zombie's is `Kept`: its owner sees the same bytes with the same
permissions, and if it was not in memory its entry is the same. It composes, so
a system call is specified by the pages it is about.
-/
import Xv6.Swap.Evict

set_option autoImplicit false

namespace Xv6.Swap

open Xv6.Lib

variable {h : Set Nat} {s t u : Machine} {X Y : Nat → Nat → Prop}

/-- The slot of a paged-out page was filled from that page and has its flags, and
the page is a user page. -/
def Machine.recorded (s : Machine) (d v : Nat) : Prop :=
  (s.pte d v).swapped = true → s.hist.filled (s.pte d v).ppn = some (d, v) ∧
    permOf (s.slots (s.pte d v).ppn).page_perm = (s.pte d v).perm ∧ (s.pte d v).user = true

/-- So it is for every page of a process that is not a zombie. -/
def Machine.Recorded (s : Machine) : Prop :=
  ∀ d v, ¬ s.zombie d → v < UPAGES → s.recorded d v

/-- The owner of page `v` of `d` sees no difference: the same bytes with the same
permissions, wherever they are. -/
structure Same (s t : Machine) (d v : Nat) : Prop where
  dir : (t.space d).isSome = true
  content : t.content d v = s.content d v
  perm : (t.pte d v).perm = (s.pte d v).perm

/-- Moreover the page was not paged in: if it was not in memory its entry is the
same. -/
structure Kept (s t : Machine) (d v : Nat) : Prop extends Same s t d v where
  out : (s.pte d v).present = false → t.pte d v = s.pte d v

/-- The pages outside `X` are kept. -/
structure Keeps (h : Set Nat) (X : Nat → Nat → Prop) (s t : Machine) : Prop where
  kend : t.kend = s.kend
  initproc : t.initproc = s.initproc
  nextpid : t.nextpid = s.nextpid
  pipe : t.pipe = s.pipe
  cpu_proc : t.cpu.proc = s.cpu.proc
  proc : ∀ p, ∃ r, t.proc p = { s.proc p with rss := r }
  held : ∀ f ∈ h, t.mem f = s.mem f
  dirs : ∀ d, (∃ v < UPAGES, ¬ X d v) → (s.space d).isSome = true → (t.space d).isSome = true
  page : ∀ d v, (s.space d).isSome = true → ¬ s.zombie d → v < UPAGES → ¬ X d v → Kept s t d v
  recorded : s.Recorded → t.Recorded

/-- No page at all. -/
abbrev noPage : Nat → Nat → Prop := fun _ _ => False

/-- Page `v` of `d` alone. -/
abbrev onlyPage (d v : Nat) : Nat → Nat → Prop := fun d' v' => d' = d ∧ v' = v

/-- The pages of `d` from `lo` up to `hi`. -/
abbrev pageRange (d lo hi : Nat) : Nat → Nat → Prop := fun d' v => d' = d ∧ lo ≤ v ∧ v < hi

/-- Every page of `d`. -/
abbrev allPages (d : Nat) : Nat → Nat → Prop := fun d' _ => d' = d

theorem Same.trans {d v : Nat} (hst : Same s t d v) (htu : Same t u d v) : Same s u d v where
  dir := htu.dir
  content := htu.content.trans hst.content
  perm := htu.perm.trans hst.perm

theorem Kept.trans {d v : Nat} (hst : Kept s t d v) (htu : Kept t u d v) : Kept s u d v where
  toSame := hst.toSame.trans htu.toSame
  out hp := by
    have he := hst.out hp
    rw [htu.out (by rw [he, hp]), he]

namespace Keeps

theorem state (hst : Keeps h X s t) (p : Nat) : (t.proc p).state = (s.proc p).state := by
  obtain ⟨r, hr⟩ := hst.proc p
  rw [hr]

theorem pgdir (hst : Keeps h X s t) (p : Nat) : (t.proc p).pgdir = (s.proc p).pgdir := by
  obtain ⟨r, hr⟩ := hst.proc p
  rw [hr]

theorem sz (hst : Keeps h X s t) (p : Nat) : (t.proc p).sz = (s.proc p).sz := by
  obtain ⟨r, hr⟩ := hst.proc p
  rw [hr]

theorem live (hst : Keeps h X s t) (p : Nat) : (t.proc p).live ↔ (s.proc p).live := by
  simp only [Proc.live, hst.state]

theorem zombie (hst : Keeps h X s t) (d : Nat) : t.zombie d ↔ s.zombie d := by
  simp only [Machine.zombie, hst.state, hst.pgdir]

theorem mono (hst : Keeps h X s t) (hX : ∀ d v, X d v → Y d v) : Keeps h Y s t :=
  { hst with
    dirs := fun d hd => hst.dirs d (hd.imp fun v hv => ⟨hv.1, fun hx => hv.2 (hX d v hx)⟩)
    page := fun d v hd hz hv hn => hst.page d v hd hz hv fun hx => hn (hX d v hx) }

theorem forget {h' : Set Nat} (hst : Keeps h X s t) (hh : h' ⊆ h) : Keeps h' X s t :=
  { hst with held := fun f hf => hst.held f (hh hf) }

theorem trans (hst : Keeps h X s t) (htu : Keeps h X t u) : Keeps h X s u where
  kend := htu.kend.trans hst.kend
  initproc := htu.initproc.trans hst.initproc
  nextpid := htu.nextpid.trans hst.nextpid
  pipe := htu.pipe.trans hst.pipe
  cpu_proc := htu.cpu_proc.trans hst.cpu_proc
  proc p := by
    obtain ⟨r, hr⟩ := hst.proc p
    obtain ⟨r', hr'⟩ := htu.proc p
    exact ⟨r', by rw [hr', hr]⟩
  held f hf := (htu.held f hf).trans (hst.held f hf)
  dirs d hX hd := htu.dirs d hX (hst.dirs d hX hd)
  page d v hd hz hv hn :=
    (hst.page d v hd hz hv hn).trans
      (htu.page d v (hst.dirs d ⟨v, hv, hn⟩ hd) (fun hz' => hz ((hst.zombie d).1 hz')) hv hn)
  recorded hr := htu.recorded (hst.recorded hr)

/-- The directories that `noPage` and `onlyPage` are about survive. -/
theorem dir_noPage (hst : Keeps h noPage s t) {d : Nat} (hd : (s.space d).isSome = true) :
    (t.space d).isSome = true :=
  hst.dirs d ⟨0, by simp only [UPAGES]; omega, id⟩ hd

theorem dir_onlyPage {d v : Nat} (hst : Keeps h (onlyPage d v) s t) {d' : Nat}
    (hd : (s.space d').isSome = true) : (t.space d').isSome = true :=
  hst.dirs d' ⟨if v = 0 then 1 else 0, by simp only [UPAGES]; split <;> omega,
    by rintro ⟨-, he⟩; split at he <;> omega⟩ hd

/-- What happens to a directory that is made on the way does not matter before. -/
theorem of_new (hst : Keeps h X s t) {d : Nat} (hd : s.space d = none)
    (hX : ∀ d' v, d' ≠ d → X d' v → Y d' v) : Keeps h Y s t :=
  { hst with
    dirs := fun d' hx hd' => by
      obtain ⟨v, hv, hn⟩ := hx
      have hne : d' ≠ d := fun he => by rw [he, hd] at hd'; cases hd'
      exact hst.dirs d' ⟨v, hv, fun hx => hn (hX d' v hne hx)⟩ hd'
    page := fun d' v hd' hz hv hn => by
      have hne : d' ≠ d := fun he => by rw [he, hd] at hd'; cases hd'
      exact hst.page d' v hd' hz hv fun hx => hn (hX d' v hne hx) }

end Keeps

/-- Evictions keep every page. -/
theorem Paged.keeps (hst : Paged h s t) (hI : Inv h s) : Keeps h noPage s t where
  kend := hst.kend
  initproc := hst.initproc
  nextpid := hst.nextpid
  pipe := hst.pipe
  cpu_proc := hst.cpu_proc
  proc := hst.proc
  held := hst.held
  dirs d _ hd := by rw [hst.dirs, hd]
  page d v hd hz hv _ :=
    { dir := by rw [hst.dirs, hd]
      content := hst.content hI hv hz
      perm := hst.perm hv
      out := hst.out_eq hv }
  recorded hR d v hz hv hs := by
    rw [hst.zombie] at hz
    cases hst.page d v hv with
    | out hp he =>
      rw [he] at hs ⊢
      have hused := hI.slot_own.busy (o := (d, v)) ⟨hz, hv, hs, rfl⟩
      obtain ⟨h1, h2, -⟩ := hst.slot _ (by simpa using hused)
      rw [h1, h2]
      exact hR d v hz hv hs
    | stay hp ht => rw [(Pte.swapped_iff.1 hs).1] at ht; cases ht
    | move hp hu ht hperm hk hfree hused hfill hpp hm =>
      exact ⟨hfill, by rw [hpp, hperm], by rw [Pte.user_of_perm hperm, hu]⟩

/-- The slots in use stay as they are, and those that no page is in stay so. -/
structure SlotsKept (s t : Machine) : Prop where
  used : ∀ k, (s.slots k).is_free = false →
    t.slots k = s.slots k ∧ t.hist.filled k = s.hist.filled k ∧ t.slotPage k = s.slotPage k
  unowned : ∀ k, (s.slots k).is_free = false → (∀ o, ¬ SlotUses s o k) → ∀ o, ¬ SlotUses t o k

theorem SlotsKept.refl (s : Machine) : SlotsKept s s :=
  ⟨fun _ _ => ⟨rfl, rfl, rfl⟩, fun _ _ hn => hn⟩

theorem SlotsKept.trans (hst : SlotsKept s t) (htu : SlotsKept t u) : SlotsKept s u where
  used k hk := by
    obtain ⟨h1, h2, h3⟩ := hst.used k hk
    obtain ⟨g1, g2, g3⟩ := htu.used k (by rw [h1, hk])
    exact ⟨g1.trans h1, g2.trans h2, g3.trans h3⟩
  unowned k hk hn := htu.unowned k (by rw [(hst.used k hk).1, hk]) (hst.unowned k hk hn)

/-- A page that is paged out goes to a slot that was free. -/
theorem Paged.slotsKept (hst : Paged h s t) : SlotsKept s t where
  used := hst.slot
  unowned k hk hn := by
    rintro ⟨d, v⟩ ⟨hz, hv, hs, rfl⟩
    cases hst.page d v hv with
    | out hp he =>
      rw [he] at hs hn
      exact hn (d, v) ⟨fun hx => hz ((hst.zombie d).2 hx), hv, hs, rfl⟩
    | stay hp ht => rw [(Pte.swapped_iff.1 hs).1] at ht; cases ht
    | move hp hu ht hperm hk' hfree => rw [hk] at hfree; cases hfree

/-- A step that leaves the slots alone and writes no entry that names one. -/
theorem Machine.Recorded.mono (hR : s.Recorded) (hz : ∀ d, t.zombie d ↔ s.zombie d)
    (hs : t.slots = s.slots) (hf : t.hist.filled = s.hist.filled)
    (hp : ∀ d v, v < UPAGES → (t.pte d v).swapped = true → t.pte d v = s.pte d v) :
    t.Recorded := by
  intro d v hzd hv hsw
  have he := hp d v hv hsw
  rw [he] at hsw ⊢
  rw [hs, hf]
  exact hR d v (fun hx => hzd ((hz d).2 hx)) hv hsw

theorem Keeps.refl (hI : Inv h s) : Keeps h X s s :=
  ((Paged.refl h s).keeps hI).mono fun _ _ hx => hx.elim

theorem Evicts.keeps (hst : Evicts h s t) (hI : Inv h s) : Keeps h X s t :=
  (hst.2.keeps hI).mono fun _ _ hx => hx.elim

/-- A frame that the caller has allocated is not one it held before. -/
theorem Allocs.keeps {r : Option Nat} (ha : Allocs h s r t) (hI : Inv h s) : Keeps h X s t :=
  (ha.paged.keeps hI).mono fun _ _ hx => hx.elim

/-! ## A new page-table page -/

/-- The frame `f` that the caller holds becomes page-table page `i` of `d`. The
entries `ptes` of the user half, if any, are zero. -/
theorem Inv.addTable {d i f : Nat} {sp : Space} {e : Nat → Pte} (hI : Inv (insert f h) s)
    (hf : f ∉ h) (hsp : s.space d = some sp) (hi : s.tab d i = none)
    (hz : ∀ v, v / NPTENTRIES = i → v < UPAGES → e v = Pte.zero) :
    Inv h (s.setSpace d (some (sp.addTable i f e))) ∧
      Keeps h X s (s.setSpace d (some (sp.addTable i f e))) ∧
      SlotsKept s (s.setSpace d (some (sp.addTable i f e))) ∧
      (s.setSpace d (some (sp.addTable i f e))).tab d i = some f ∧
      ∀ d' v, v < UPAGES → (s.setSpace d (some (sp.addTable i f e))).pte d' v = s.pte d' v := by
  set t := s.setSpace d (some (sp.addTable i f e)) with ht
  have hdirs : ∀ d', (t.space d').isSome = (s.space d').isSome := by
    intro d'
    rcases eq_or_ne d' d with rfl | hd
    · simp [ht, hsp]
    · simp [ht, hd]
  have htab : ∀ d' j, t.tab d' j = if d' = d ∧ j = i then some f else s.tab d' j := by
    intro d' j
    rcases eq_or_ne d' d with rfl | hd
    · rcases eq_or_ne j i with rfl | hj
      · simp [ht, Machine.tab, Space.addTable]
      · simp [ht, Machine.tab, Space.addTable, hj, hsp]
    · simp [ht, Machine.tab, hd]
  have hother : ∀ d' v, ¬ (d' = d ∧ v / NPTENTRIES = i) → t.pte d' v = s.pte d' v := by
    intro d' v hn
    rcases eq_or_ne d' d with rfl | hd
    · have hv : ¬ v / NPTENTRIES = i := fun he => hn ⟨rfl, he⟩
      simp only [ht, Machine.pte, Machine.setSpace_space, Function.update_self, Space.addTable,
        if_neg hv, hsp]
    · simp [ht, Machine.pte, hd]
  have hpte : ∀ d' v, v < UPAGES → t.pte d' v = s.pte d' v := by
    intro d' v hv
    by_cases hd : d' = d ∧ v / NPTENTRIES = i
    · obtain ⟨rfl, hvi⟩ := hd
      rw [hI.tab_zero d' v (by rw [hvi, hi])]
      simp only [ht, Machine.pte, Machine.setSpace_space, Function.update_self, Space.addTable,
        if_pos hvi]
      exact hz v hvi hv
    · exact hother d' v hd
  -- the frame passes from the caller to the page table; every other use is as before
  have huses : ∀ o g, Uses h t o g →
      (o = .table d i ∧ g = f) ∨ (Uses (insert f h) s o g ∧ o ≠ .held f) := by
    rintro (⟨d', v⟩ | ⟨d', j⟩ | d' | p | j | o) g hg
    · obtain ⟨hv, hp, hg⟩ := hg
      rw [hpte d' v hv] at hp hg
      exact Or.inr ⟨⟨hv, hp, hg⟩, by simp⟩
    · by_cases hd : d' = d ∧ j = i
      · obtain ⟨rfl, rfl⟩ := hd
        simp only [Uses, htab, and_self, if_true, Option.some.injEq] at hg
        exact Or.inl ⟨rfl, hg.symm⟩
      · simp only [Uses, htab, if_neg hd] at hg
        exact Or.inr ⟨hg, by simp⟩
    · exact Or.inr ⟨⟨by rw [← hdirs]; exact hg.1, hg.2⟩, by simp⟩
    · exact Or.inr ⟨hg, by simp⟩
    · exact Or.inr ⟨hg, by simp⟩
    · refine Or.inr ⟨⟨Set.mem_insert_of_mem f hg.1, hg.2⟩, fun he => hf ?_⟩
      cases he
      exact hg.1
  have hslots : ∀ o k, SlotUses t o k → SlotUses s o k := by
    rintro ⟨d', v⟩ k ⟨hzb, hv, hs, hk⟩
    rw [hpte d' v hv] at hs hk
    exact ⟨hzb, hv, hs, hk⟩
  have hheld : Uses (insert f h) s (.held f) f := ⟨Set.mem_insert f h, rfl⟩
  -- the user half of the new table is empty, so no page changes
  have hpage : ∀ d' v, v < UPAGES → t.content d' v = s.content d' v := by
    intro d' v hv
    simp only [Machine.content, hpte d' v hv]
    rfl
  refine ⟨⟨?_, ?_⟩, ?_, ?_, by rw [htab, if_pos ⟨rfl, rfl⟩], hpte⟩
  · exact { hI.toFrames with
      own := hI.own.pass hheld huses fun _ hy => hy
      range_used := fun o g hg => by
        rcases huses o g hg with ⟨-, rfl⟩ | ⟨hg, -⟩
        · exact hI.range_used _ _ hheld
        · exact hI.range_used o g hg
      tab_zero := fun d' v hn => by
        rw [htab] at hn
        split at hn
        · cases hn
        · next hne => rw [hother d' v hne, hI.tab_zero d' v hn]
      slot_own := hI.slot_own.mono hslots fun _ hk => hk
      slot_range := fun o k hk => hI.slot_range o k (hslots o k hk) }
  · exact { hI.toProcs with dir := fun p hp => by rw [hdirs]; exact hI.dir p hp }
  · exact {
      kend := rfl, initproc := rfl, nextpid := rfl, pipe := rfl, cpu_proc := rfl
      proc := fun p => ⟨_, rfl⟩
      held := fun _ _ => rfl
      dirs := fun d' _ hd => by rw [hdirs, hd]
      page := fun d' v hd hzb hv _ =>
        { dir := by rw [hdirs, hd]
          content := hpage d' v hv
          perm := by rw [hpte d' v hv]
          out := fun _ => hpte d' v hv }
      recorded := fun hR => hR.mono (fun _ => Iff.rfl) rfl rfl fun d' v hv _ => hpte d' v hv }
  · exact ⟨fun _ _ => ⟨rfl, rfl, rfl⟩, fun k _ hn o ho => hn o (hslots o k ho)⟩

/-- `walkpgdir(pgdir, va, 1)` finds the entry, after making its page table if it
had none. -/
theorem walkpgdirAlloc_spec {d v : Nat} (hI : Inv h s) (hd : (s.space d).isSome = true)
    (hv : v < UPAGES) : K.Returns (walkpgdirAlloc d v) s fun r t =>
      Inv h t ∧ Keeps h noPage s t ∧ SlotsKept s t ∧ t.pte d v = s.pte d v ∧
      ∀ e, r = some e → e = s.pte d v ∧ (t.tab d (v / NPTENTRIES)).isSome = true := by
  obtain ⟨sp, hsp⟩ := Option.isSome_iff_exists.1 hd
  unfold walkpgdirAlloc
  refine Code.Returns.bind_run (walkpgdir_returns hsp v) ?_
  rcases hw : sp.walk v with _ | e
  · -- no page table: allocate one
    have htab : s.tab d (v / NPTENTRIES) = none := by
      unfold Space.walk at hw
      rw [Machine.tab_of_space hsp]
      split at hw
      · cases hw
      · next hn => simpa using hn
    have hzero := hI.tab_zero d v htab
    refine (kalloc_spec hI).bind fun r t ha => ?_
    have hkeep := ha.keeps (X := noPage) hI
    have hout : t.pte d v = s.pte d v := ha.paged.out_eq hv (by rw [hzero]; rfl)
    cases r with
    | none => exact Code.returns_pure.2 ⟨ha.1, hkeep, ha.paged.slotsKept, hout, fun e he => by cases he⟩
    | some f =>
      obtain ⟨hIt, hpaged, hf, -⟩ := ha
      obtain ⟨sp', hsp'⟩ := Option.isSome_iff_exists.1 (hkeep.dir_noPage hd)
      refine Code.Returns.bind_run (pgdir_returns hsp') ?_
      simp only [Code.returns_modify_bind, Code.returns_pure]
      obtain ⟨hIu, hku, hsu, htu, hpu⟩ := hIt.addTable (X := noPage) (e := fun _ => Pte.zero) hf hsp'
        (by rw [hpaged.tab, htab]) fun _ _ _ => rfl
      refine ⟨hIu, hkeep.trans hku, hpaged.slotsKept.trans hsu, by rw [hpu d v hv, hout],
        fun e he => ?_⟩
      cases he
      exact ⟨hzero.symm, by rw [htu]; rfl⟩
  · refine Code.returns_pure.2 ⟨hI, .refl hI, .refl s, rfl, fun e' he => ?_⟩
    cases he
    obtain ⟨ht, he⟩ := Space.walk_eq_some.1 hw
    exact ⟨by rw [Machine.pte_of_space hsp, he], by rw [Machine.tab_of_space hsp, ht]⟩

/-! ## Mapping a page -/

/-- A new value for the entry of page `v` of `d`, naming no slot, leaves the other
pages alone. -/
theorem Machine.setPte_keeps {d v : Nat} {e : Pte} (hd : (s.space d).isSome = true)
    (he : e.swapped = false) : Keeps h (onlyPage d v) s (s.setPte d v e) where
  kend := rfl
  initproc := rfl
  nextpid := rfl
  pipe := rfl
  cpu_proc := rfl
  proc p := ⟨_, rfl⟩
  held _ _ := rfl
  dirs d' _ hd' := by rw [Machine.setPte_isSome, hd']
  page d' v' hd' hz hv' hn := by
    have hpte : (s.setPte d v e).pte d' v' = s.pte d' v' := by rw [Machine.setPte_pte hd, if_neg hn]
    refine ⟨⟨by rw [Machine.setPte_isSome, hd'], ?_, by rw [hpte]⟩, fun _ => hpte⟩
    simp only [Machine.content, hpte]
    rfl
  recorded hR := by
    refine hR.mono (fun _ => Iff.rfl) rfl rfl fun d' v' _ hs => ?_
    rw [Machine.setPte_pte hd] at hs ⊢
    split at hs
    · rw [he] at hs; cases hs
    · next hn => rw [if_neg hn]

/-- The frame `f` that the caller holds becomes the frame of page `v` of `d`. -/
theorem Inv.map {d v f : Nat} {b : BitVec 12} (hI : Inv (insert f h) s) (hf : f ∉ h)
    (hd : (s.space d).isSome = true) (hv : v < UPAGES)
    (htab : (s.tab d (v / NPTENTRIES)).isSome = true) :
    Inv h (s.setPte d v (Pte.mapped f b)) := by
  set t := s.setPte d v (Pte.mapped f b) with ht
  have hpte : ∀ d' v', t.pte d' v' = if d' = d ∧ v' = v then Pte.mapped f b else s.pte d' v' :=
    Machine.setPte_pte hd
  have hdirs : ∀ d', (t.space d').isSome = (s.space d').isSome := Machine.setPte_isSome s d v _
  have htabs : ∀ d' i, t.tab d' i = s.tab d' i := Machine.setPte_tab s d v _
  have hheld : Uses (insert f h) s (.held f) f := ⟨Set.mem_insert f h, rfl⟩
  have huses : ∀ o g, Uses h t o g →
      (o = .page d v ∧ g = f) ∨ (Uses (insert f h) s o g ∧ o ≠ .held f) := by
    rintro (⟨d', v'⟩ | ⟨d', j⟩ | d' | p | j | o) g hg
    · by_cases hn : d' = d ∧ v' = v
      · obtain ⟨rfl, rfl⟩ := hn
        have := hg.2.2
        rw [hpte, if_pos ⟨rfl, rfl⟩, Pte.mapped_ppn] at this
        exact Or.inl ⟨rfl, this.symm⟩
      · simp only [Uses, hpte, if_neg hn] at hg
        exact Or.inr ⟨hg, by simp⟩
    · simp only [Uses, htabs] at hg
      exact Or.inr ⟨hg, by simp⟩
    · exact Or.inr ⟨⟨by rw [← hdirs]; exact hg.1, hg.2⟩, by simp⟩
    · exact Or.inr ⟨hg, by simp⟩
    · exact Or.inr ⟨hg, by simp⟩
    · refine Or.inr ⟨⟨Set.mem_insert_of_mem f hg.1, hg.2⟩, fun he => hf ?_⟩
      cases he
      exact hg.1
  have hslots : ∀ o k, SlotUses t o k → SlotUses s o k := by
    rintro ⟨d', v'⟩ k ⟨hzb, hv', hs, hk⟩
    by_cases hn : d' = d ∧ v' = v
    · rw [hpte, if_pos hn] at hs
      have := (Pte.swapped_iff.1 hs).1
      rw [Pte.mapped_present] at this
      cases this
    · rw [hpte, if_neg hn] at hs hk
      exact ⟨hzb, hv', hs, hk⟩
  refine ⟨?_, { hI.toProcs with dir := fun p hp => by rw [hdirs]; exact hI.dir p hp }⟩
  exact { hI.toFrames with
    own := hI.own.pass hheld huses fun _ hy => hy
    range_used := fun o g hg => by
      rcases huses o g hg with ⟨-, rfl⟩ | ⟨hg, -⟩
      · exact hI.range_used _ _ hheld
      · exact hI.range_used o g hg
    tab_zero := fun d' v' hn => by
      rw [htabs] at hn
      have hne : ¬ (d' = d ∧ v' = v) := by
        rintro ⟨rfl, rfl⟩
        rw [hn] at htab
        cases htab
      rw [hpte, if_neg hne, hI.tab_zero d' v' hn]
    slot_own := hI.slot_own.mono hslots fun _ hk => hk
    slot_range := fun o k hk => hI.slot_range o k (hslots o k hk) }

/-- The outcome of mapping the held frame `f` at page `v` of `d`. -/
def Maps (h : Set Nat) (d v f : Nat) (perm : BitVec 12) (s : Machine) : Bool → Machine → Prop
  | false, t => Inv (insert f h) t ∧ Keeps (insert f h) noPage s t ∧ t.pte d v = s.pte d v
  | true, t => Inv h t ∧ Keeps h (onlyPage d v) s t ∧ t.pte d v = Pte.mapped f perm ∧
      t.mem f = s.mem f

theorem mapPages_returns {d v f : Nat} {perm : BitVec 12} (hI : Inv (insert f h) s) (hf : f ∉ h)
    (hd : (s.space d).isSome = true) (hv : v < UPAGES) (hp : (s.pte d v).present = false) :
    K.Returns (mapPages d v f perm) s (Maps h d v f perm s) := by
  unfold mapPages
  refine (walkpgdirAlloc_spec hI hd hv).bind fun r t hpost => ?_
  obtain ⟨hIt, hkt, _, hout, hr⟩ := hpost
  cases r with
  | none => exact Code.returns_pure.2 ⟨hIt, hkt, hout⟩
  | some e =>
    obtain ⟨rfl, htab⟩ := hr e rfl
    simp only [hp, Bool.false_eq_true, if_false, Code.returns_modify_bind, Code.returns_pure]
    have hdt := hkt.dir_noPage hd
    have hsub : h ⊆ insert f h := Set.subset_insert f h
    refine ⟨hIt.map hf hdt hv htab, ?_, ?_, hkt.held f (Set.mem_insert f h)⟩
    · exact ((hkt.forget hsub).mono fun _ _ hx => hx.elim).trans
        (Machine.setPte_keeps hdt (Pte.mapped_swapped f perm))
    · rw [Machine.setPte_pte hdt, if_pos ⟨rfl, rfl⟩]

/-- `mapPages` returns only for a page that is not in memory: else it panics. -/
theorem mapPages_spec {d v f : Nat} {perm : BitVec 12} (hI : Inv (insert f h) s) (hf : f ∉ h)
    (hd : (s.space d).isSome = true) (hv : v < UPAGES) :
    K.Spec (mapPages d v f perm) s fun r t =>
      (s.pte d v).present = false ∧ Maps h d v f perm s r t := by
  cases hp : (s.pte d v).present
  · exact (mapPages_returns hI hf hd hv hp).spec.mono fun r t hr => ⟨rfl, hr⟩
  · obtain ⟨sp, hsp⟩ := Option.isSome_iff_exists.1 hd
    have hwalk : sp.walk v = some (s.pte d v) := by
      rcases hI.walk_eq hsp v with ⟨-, hz⟩ | hw
      · exact absurd hz (Pte.present_ne_zero hp)
      · exact hw
    have hrun : (walkpgdirAlloc d v).run s = .ok (some (s.pte d v), s) := by
      unfold walkpgdirAlloc
      rw [K.run, Code.run_bind_of_ok (walkpgdir_returns hsp v), hwalk]
      rfl
    unfold mapPages
    refine Code.Spec.bind_run hrun ?_
    simp only [hp, if_true]
    exact Code.spec_panic _

end Xv6.Swap
