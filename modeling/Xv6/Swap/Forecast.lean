/-
What the copies of a fork find in memory, foreseen from the state before the call.

`copyuvm` copies a page from the frame that it has read in the entry, after an allocation
that may have taken that very page out. Which pages the allocations of one call take is
decided by the pressure on the machine before the call, so `Pressure.copies` runs through
the pages and says of each whether it is still in its frame when it is copied.
`ForkSpares` says it of every page of the caller. `fork_forecast` proves the forecast
right: when it spares every page, each frame keeps its bytes until it is copied; and when
it does not, some frame does not, unless the page had by chance the bytes with which
`kfree` and `kalloc` fill a frame.
-/
import Xv6.Swap.Pressure
import Xv6.Swap.Fork

set_option autoImplicit false

namespace Xv6.Swap

open Xv6.Lib

/-! ## The model -/

namespace Pressure

/-- The caller `c` has no page below page `v` in the same 4 MB, so that the child has no
page table there yet. -/
def opens (q : Pressure) (c v : Nat) : Bool :=
  (List.range' (v / NPTENTRIES * NPTENTRIES) (v % NPTENTRIES)).all fun w =>
    decide (q.place c w = .absent)

/-- The page table of the child for page `v`. -/
def table (q : Pressure) (c v : Nat) : Pressure := if q.opens c v then q.take else q

/-- Page `v` of the caller comes back from its slot, with the accessed bit `a`. -/
def pageIn (q : Pressure) (c v : Nat) (a : Bool) : Pressure :=
  { q with
    slots := q.slots + 1
    rss := Function.update q.rss c (q.rss c + 1)
    place := Function.update q.place c (Function.update (q.place c) v (.memory a)) }

/-- A slot is taken. -/
def takeSlot (q : Pressure) : Pressure := { q with slots := q.slots - 1 }

/-- What has been taken when page `v` of the caller is copied: a frame for the copy of a
page in memory, a slot for the copy of a page in a slot. With no slot left the page comes
back first, and is copied as a page in memory. -/
def source (q : Pressure) (c v : Nat) : Pressure :=
  match q.place c v with
  | .absent => q
  | .pinned => q.takeRetry 2
  | .memory _ => q.takeRetry 2
  | .slot a =>
    if (q.slotRounds 2).slots = 0 then (((q.slotRounds 2).takeRetry 1).pageIn c v a).take
    else (q.slotRounds 2).takeSlot

/-- One turn of the loop of `copyuvm`. -/
def copyPage (q : Pressure) (c v : Nat) : Pressure :=
  if q.place c v = .absent then q else (q.source c v).table c v

/-- If page `v` is copied from a frame, it is still in that frame when it is copied. -/
def spared (q : Pressure) (c v : Nat) : Bool :=
  match q.place c v with
  | .absent => true
  | .pinned => true
  | .memory _ => ((q.source c v).place c v).user
  | .slot _ => decide ((q.slotRounds 2).slots ≠ 0) || ((q.source c v).place c v).user

/-- So it is for `n` more pages from page `v` on. -/
def copies (c : Nat) : (n v : Nat) → Pressure → Bool
  | 0, _, _ => true
  | n + 1, v, q => q.spared c v && copies c n (v + 1) (q.copyPage c v)

/-- The frames that `fork` takes before it copies the first page: the kernel stack, the
directory, and the page tables of the kernel half. -/
def prepare (q : Pressure) : Pressure := take^[2 + kernelTables.length] q

end Pressure

/-- **The forecast of a fork**: no allocation takes out the page that it is to hold the
copy of. -/
def ForkSpares (s : Machine) : Prop :=
  Pressure.copies s.cpu.proc (pagesUp s.myproc.sz) 0 s.pressure.prepare = true

instance (s : Machine) : Decidable (ForkSpares s) := inferInstanceAs (Decidable (_ = _))

/-! ## A directory that no process has -/

variable {h : Set Nat} {s t u : Machine} {q : Pressure} {p c d v : Nat}

/-- No process has the directory `d`. -/
def Unowned (s : Machine) (d : Nat) : Prop := ∀ p, (s.proc p).live → (s.proc p).pgdir ≠ d

theorem Unowned.paged (hno : Unowned s d) (hst : Paged h s t) : Unowned t d := by
  intro p hp
  rw [hst.pgdir]
  exact hno p ((hst.live p).1 hp)

/-- A frame that is no directory is the directory of no process. -/
theorem Inv.unowned (hI : Inv h s) (hd : s.space d = none) : Unowned s d := by
  intro p hp he
  have hdir := hI.dir p hp
  rw [he, hd] at hdir
  cases hdir

/-- What is done to such a directory does not matter, nor do bytes and history. -/
theorem Fits.unowned (hq : Fits q s) (hno : Unowned s d)
    (hcore : (t.freelist, t.slots, t.proc) = (s.freelist, s.slots, s.proc))
    (htune : (t.threshold, t.npages_to_swap) = (s.threshold, s.npages_to_swap))
    (hspace : ∀ d', d' ≠ d → t.space d' = s.space d') : Fits q t := by
  simp only [Prod.mk.injEq] at hcore
  obtain ⟨hlist, hslots, hproc⟩ := hcore
  refine hq.congr (by rw [hlist]) hslots htune (fun p _ => by rw [hproc]) ?_ ?_
  · intro p hp
    rwa [hproc] at hp
  · intro p hp
    exact hspace _ (hno p hp)

theorem Fits.setPte {e : Pte} (hq : Fits q s) (hno : Unowned s d) : Fits q (s.setPte d v e) := by
  refine hq.unowned hno rfl rfl fun d' hd' => ?_
  rw [Machine.setPte_space, Function.update_of_ne hd']

theorem Fits.setSpace {sp : Option Space} (hq : Fits q s) (hno : Unowned s d) :
    Fits q (s.setSpace d sp) := by
  refine hq.unowned hno rfl rfl fun d' hd' => ?_
  rw [Machine.setSpace_space, Function.update_of_ne hd']

/-! ## Before the first page -/

/-- An update of a process that is not live before or after. -/
theorem Fits.setProc {i : Nat} {g : Proc → Proc} (hq : Fits q s) (hi : ¬(s.proc i).live)
    (hi' : ¬(g (s.proc i)).live) : Fits q (s.setProc i g) := by
  have hother : ∀ p, p ≠ i → (s.setProc i g).proc p = s.proc p := fun p hp => by simp [hp]
  refine hq.congr rfl rfl rfl (fun p hp => hother p fun he => hi (he ▸ hp)) ?_ fun _ _ => rfl
  intro p hp
  rcases eq_or_ne p i with rfl | hne
  · exact absurd (by simpa using hp) hi'
  · rwa [hother p hne] at hp

theorem allocproc_takes (hI : Inv h s) (hq : Fits q s) :
    K.Spec allocproc s fun r t => ∀ i, r = some i → Fits q.take t := by
  unfold allocproc
  simp only [Code.spec_get_bind]
  cases hfind : (List.range NPROC).find? fun i => decide ((s.proc i).state = .UNUSED) with
  | none => exact Code.spec_pure.2 fun i hi => by cases hi
  | some i =>
    have hun : (s.proc i).state = .UNUSED := by simpa using List.find?_some hfind
    simp only [Code.spec_modify_bind]
    set g : Proc → Proc := fun p => { p with state := .EMBRYO, pid := s.nextpid, rss := 0#32 } with hg
    have hemb : ¬(g (s.proc i)).live := fun hl => hl.2 rfl
    -- the new process is not live, and its counter is zero
    have hI1 : Inv h { s.setProc i g with nextpid := s.nextpid + 1 } := by
      have hset := hI.setProc (i := i) (X := noPage) (g := g) (fun hl => absurd hl hemb)
        (fun _ => rfl) (Or.inl rfl) fun hz => by rw [hun] at hz; cases hz
      exact hset.inv.congr rfl
    have hq1 : Fits q { s.setProc i g with nextpid := s.nextpid + 1 } :=
      (hq.setProc (g := g) (fun hl => hl.1 hun) hemb).congr rfl rfl rfl (fun _ _ => rfl)
        (fun _ hp => hp) fun _ _ => rfl
    refine (kalloc_takes hI1 hq1).spec.bind fun r t ht => ?_
    cases r with
    | none =>
      simp only [Code.spec_modify_bind]
      exact Code.spec_pure.2 fun i hi => by cases hi
    | some f =>
      simp only [Code.spec_modify_bind]
      have hstate : (t.proc i).state = .EMBRYO := by
        rw [ht.1.allocs.paged.state]
        simp [hg]
      refine Code.spec_pure.2 fun j _ => ht.1.fits.setProc ?_ ?_
      · exact fun hl => hl.2 hstate
      · exact fun hl => hl.2 hstate

/-- The page tables of the kernel half. -/
theorem addKernelTables_takes (is : List Nat) (hI : Inv h s) (hq : Fits q s) (hd : Fresh d s)
    (hno : Unowned s d) (hn : is.Nodup)
    (hk : ∀ i ∈ is, UPAGES ≤ i * NPTENTRIES ∧ s.tab d i = none) :
    K.Spec (addKernelTables d is) s fun ok t => ok = true →
      Fits (Pressure.take^[is.length] q) t ∧ ∀ i ∉ is, t.tab d i = s.tab d i := by
  induction is generalizing s q with
  | nil => exact Code.spec_pure.2 fun _ => ⟨hq, fun _ _ => rfl⟩
  | cons i is ih =>
    unfold addKernelTables
    refine (kalloc_takes hI hq).spec.bind fun r t ht => ?_
    have hP := ht.1.allocs.paged
    cases r with
    | none => exact Code.spec_pure.2 fun hok => by cases hok
    | some f =>
      obtain ⟨hfits, ⟨hIt, -, hf, -⟩, -⟩ := ht.1
      have hdt : Fresh d t := by
        refine ⟨by rw [hP.dirs]; exact hd.1, fun v hv => ?_⟩
        have hz := hd.2 v hv
        rw [hP.out_eq hv (by rw [hz]; rfl), hz]
      obtain ⟨sp, hsp⟩ := Option.isSome_iff_exists.1 hdt.1
      refine Code.Spec.bind_run (pgdir_returns hsp) ?_
      simp only [Code.spec_modify_bind]
      obtain ⟨hge, hnone⟩ := hk i List.mem_cons_self
      obtain ⟨hIu, -, -, -, hpu⟩ := hIt.addTable (X := noPage) (e := kernelPte) hf hsp
        (by rw [hP.tab, hnone]) fun v hv hlt => by
          simp only [NPTENTRIES] at *
          omega
      rw [List.nodup_cons] at hn
      have htab : ∀ j, j ≠ i →
          (t.setSpace d (some (sp.addTable i f kernelPte))).tab d j = s.tab d j := by
        intro j hj
        rw [← hP.tab, Machine.tab_of_space hsp]
        simp [Machine.tab, Space.addTable, hj]
      have hnot := hno.paged hP
      refine (ih hIu (hfits.setSpace hnot) ⟨by simp, fun v hv => ?_⟩ hnot hn.2 fun j hj => ?_).mono
        fun ok w hw hok => ⟨(hw hok).1, fun j hj => ?_⟩
      · rw [hpu d v hv, hdt.2 v hv]
      · obtain ⟨hge', hnone'⟩ := hk j (List.mem_cons_of_mem i hj)
        exact ⟨hge', by rw [htab j fun he => hn.1 (he ▸ hj), hnone']⟩
      · obtain ⟨hji, hjs⟩ := not_or.1 fun hx => hj (List.mem_cons.2 hx)
        rw [(hw hok).2 j hjs, htab j hji]

/-- The new directory has no page table in the user half. -/
theorem setupkvm_takes (hI : Inv h s) (hq : Fits q s) :
    K.Spec setupkvm s fun r t => ∀ d, r = some d →
      Fits (Pressure.take^[1 + kernelTables.length] q) t ∧
        ∀ i < UPAGES / NPTENTRIES, t.tab d i = none := by
  unfold setupkvm
  refine (kalloc_takes hI hq).spec.bind fun r s1 ht => ?_
  cases r with
  | none => exact Code.spec_pure.2 fun d hd => by cases hd
  | some d =>
    obtain ⟨hfits, ⟨hI1, -, hd, -⟩, -⟩ := ht.1
    simp only [Code.spec_modify_bind]
    obtain ⟨hI2, -⟩ := hI1.newDir (X := noPage) hd
    have hno := hI1.unowned hI1.held_not_dir
    have hfresh : Fresh d (s1.setSpace d (some Space.empty)) :=
      ⟨by simp, fun v _ => by simp [Machine.pte, Space.empty]⟩
    have hempty : ∀ i, (s1.setSpace d (some Space.empty)).tab d i = none := fun i => by
      simp [Machine.tab, Space.empty]
    have hhigh : ∀ i ∈ kernelTables, UPAGES / NPTENTRIES ≤ i := by decide
    refine (addKernelTables_takes kernelTables hI2 (hfits.setSpace hno) hfresh hno (by decide)
      fun i hi => ⟨?_, hempty i⟩).bind fun ok s3 hpost => ?_
    · have := hhigh i hi
      simp only [UPAGES, NPTENTRIES] at *
      omega
    cases ok with
    | true =>
      refine Code.spec_pure.2 fun d' hd' => ?_
      cases hd'
      obtain ⟨hf, htab⟩ := hpost rfl
      refine ⟨?_, fun i hi => ?_⟩
      · rw [Nat.add_comm, Function.iterate_succ_apply]
        exact hf
      · rw [htab i fun hm => absurd (hhigh i hm) (Nat.not_le.2 hi), hempty]
    | false =>
      refine (K.spec_run _ _).bind fun _ _ _ => Code.spec_pure.2 ?_
      intro d' hd'
      cases hd'

/-! ## The page table of the child -/

/-- The outcome of making room for the entry of page `v` in directory `d`. -/
structure Rooms (d v : Nat) (s : Machine) (q : Pressure) (t : Machine) : Prop where
  fits : Fits (if (s.tab d (v / NPTENTRIES)).isSome then q else q.take) t
  tab : ∀ i, (t.tab d i).isSome = true ↔ (s.tab d i).isSome = true ∨ i = v / NPTENTRIES
  unowned : Unowned t d

theorem walkpgdirAlloc_rooms (hI : Inv h s) (hq : Fits q s) (hd : (s.space d).isSome = true)
    (hno : Unowned s d) : K.Spec (walkpgdirAlloc d v) s fun r t => r ≠ none → Rooms d v s q t := by
  obtain ⟨sp, hsp⟩ := Option.isSome_iff_exists.1 hd
  unfold walkpgdirAlloc
  refine Code.Spec.bind_run (walkpgdir_returns hsp v) ?_
  have htab : ∀ i, s.tab d i = sp.tab i := Machine.tab_of_space hsp
  cases hw : sp.walk v with
  | some e =>
    -- the page table is there
    obtain ⟨hsome, -⟩ := Space.walk_eq_some.1 hw
    refine Code.spec_pure.2 fun _ => ⟨?_, fun i => ⟨Or.inl, ?_⟩, hno⟩
    · rw [htab, hsome, if_pos rfl]
      exact hq
    · rintro (hi | rfl)
      · exact hi
      · rw [htab, hsome]
  | none =>
    have hnone : sp.tab (v / NPTENTRIES) = none := by
      unfold Space.walk at hw
      split at hw
      · cases hw
      · next hn => simpa using hn
    dsimp only
    refine (kalloc_takes hI hq).spec.bind fun r t ht => ?_
    cases r with
    | none => exact Code.spec_pure.2 fun hn => absurd rfl hn
    | some f =>
      have hP := ht.1.allocs.paged
      obtain ⟨sp', hsp'⟩ := Option.isSome_iff_exists.1 ((hP.dirs d).trans hd)
      refine Code.Spec.bind_run (pgdir_returns hsp') ?_
      simp only [Code.spec_modify_bind]
      have hnot := hno.paged hP
      refine Code.spec_pure.2 fun _ => ⟨?_, fun i => ?_, hnot⟩
      · rw [htab, hnone, Option.isSome_none, if_neg Bool.false_ne_true]
        exact ht.1.fits.setSpace hnot
      · have hi : sp'.tab i = sp.tab i := by
          rw [← Machine.tab_of_space hsp', hP.tab, htab]
        rw [htab, ← hi]
        by_cases he : i = v / NPTENTRIES
        · simp [Machine.tab, Space.addTable, he]
        · simp [Machine.tab, Space.addTable, he]

/-- `copyFrame` to a directory that no process has. -/
theorem copyFrame_rooms {pa f : Nat} {flags : BitVec 12} (hI : Inv h s) (hq : Fits q s)
    (hd : (s.space d).isSome = true) (hno : Unowned s d) :
    K.Spec (copyFrame d v pa f flags) s fun ok t => ok = true → Rooms d v s q t := by
  unfold copyFrame
  simp only [Code.spec_modify_bind]
  have hI1 : Inv h (s.setMem f (s.mem pa)) := hI.congr rfl
  have hq1 : Fits q (s.setMem f (s.mem pa)) := hq.unowned hno rfl rfl fun _ _ => rfl
  have hmap : K.Spec (mapPages d v f flags) (s.setMem f (s.mem pa)) fun ok t =>
      ok = true → Rooms d v s q t := by
    unfold mapPages
    refine (walkpgdirAlloc_rooms hI1 hq1 hd hno).bind fun r t ht => ?_
    cases r with
    | none => exact Code.spec_pure.2 fun hok => by cases hok
    | some e =>
      obtain ⟨hfits, htab, hnot⟩ := ht (Option.some_ne_none e)
      dsimp only
      split
      · exact Code.spec_panic _
      · simp only [Code.spec_modify_bind]
        refine Code.spec_pure.2 fun _ => ⟨hfits.setPte hnot, fun i => ?_, hnot⟩
        rw [Machine.setPte_tab]
        exact htab i
  refine hmap.bind fun ok t ht => ?_
  cases ok with
  | true => exact Code.spec_pure.2 ht
  | false =>
    refine (K.spec_run _ _).bind fun _ _ _ => Code.spec_pure.2 ?_
    intro hok
    cases hok

/-! ## Slots -/

/-- The places of the other pages do not depend on slot `k`, which none of them is in. -/
theorem Fits.useSlot {k : Nat} (hI : Inv h s) (hq : Fits q s) (hk : k < SWAP_SLOT_TOTAL)
    (hfree : (s.slots k).is_free = true) (hused : (t.slots k).is_free = false)
    (hslots : ∀ j, j ≠ k → t.slots j = s.slots j)
    (hcore : (t.freelist, t.space, t.proc) = (s.freelist, s.space, s.proc))
    (htune : (t.threshold, t.npages_to_swap) = (s.threshold, s.npages_to_swap)) :
    Fits q.takeSlot t := by
  simp only [Prod.mk.injEq] at hcore htune
  obtain ⟨hlist, hspace, hproc⟩ := hcore
  exact {
    frames := by rw [hlist]; exact hq.frames
    slots := by
      have hset : freeSlots t = (freeSlots s).erase k := by
        ext j
        rw [mem_freeSlots, Finset.mem_erase, mem_freeSlots]
        by_cases hj : j = k
        · simp [hj, hused]
        · simp [hj, hslots j hj]
      rw [hset, Finset.card_erase_of_mem (mem_freeSlots.2 ⟨hk, hfree⟩), ← hq.slots]
      rfl
    threshold := hq.threshold.trans htune.1.symm
    batch := hq.batch.trans htune.2.symm
    pid := by rw [hproc]; exact hq.pid
    rss := by rw [hproc]; exact hq.rss
    dead := by rw [hproc]; exact hq.dead
    place := fun p hp v hv => by
      rw [hproc] at hp
      have hpte : t.pte (t.proc p).pgdir v = s.pte (s.proc p).pgdir v := by
        simp only [Machine.pte, hspace, hproc]
      refine (hq.place p hp v hv).trans (Machine.place_congr (by rw [hproc]) hpte ?_).symm
      intro hs hz
      refine hslots _ fun he => ?_
      have huse : SlotUses s ((s.proc p).pgdir, v) k := ⟨hI.alive_dir ⟨hp, hz⟩, hv, hs, he⟩
      exact hI.slot_own.busy huse hfree }

/-- `duplicateSwapSlot` of a slot in use. -/
theorem duplicateSwapSlot_presses {k : Nat} (hI : Inv h s) (hq : Fits q s)
    (hk : k < SWAP_SLOT_TOTAL) (hused : (s.slots k).is_free = false) :
    K.Spec (duplicateSwapSlot k) s fun r t => match r with
      | none => Presses h s (q.slotRounds 2) t ∧ (q.slotRounds 2).slots = 0
      | some _ => Fits (q.slotRounds 2).takeSlot t ∧ (q.slotRounds 2).slots ≠ 0 ∧
          ∀ d i, t.tab d i = s.tab d i := by
  unfold duplicateSwapSlot
  rw [K.Spec, Code.spec_get_bind, if_neg (Nat.not_le.2 hk), hused, if_neg Bool.false_ne_true]
  refine (findFreeSlotRetry_presses 2 hI hq).spec.bind fun r t hpost => ?_
  obtain ⟨u, hu, hr⟩ := hpost
  cases r with
  | none =>
    obtain ⟨rfl, h0⟩ := hr
    exact Code.spec_pure.2 ⟨hu, h0⟩
  | some j =>
    obtain ⟨hj, hfree, rfl⟩ := hr
    simp only [Code.spec_modify_bind]
    have hslots : (q.slotRounds 2).slots ≠ 0 := fun h0 => by
      have hfull := (mem_slots_zero hu.fits).1 h0 j hj
      rw [hfree] at hfull
      cases hfull
    have hkj : k ≠ j := fun he => by
      have huk := hu.evicts.2.used hused
      rw [he, hfree] at huk
      cases huk
    refine (copyBlocks_spec _ _ _ _ fun i i' he => hkj (blockno_inj he).1).spec.bind
      fun _ t hpost => ?_
    obtain ⟨disk, ⟨c, rl, rfl, -⟩, -⟩ := hpost
    refine Code.spec_pure.2 ⟨?_, hslots, fun d i => hu.evicts.2.tab d i⟩
    refine hu.fits.useSlot hu.evicts.1 hj hfree ?_ (fun i hi => ?_) rfl rfl
    · simp [Machine.takeSlot]
    · simp [Machine.takeSlot, hi]

/-- The place of a page in a slot. -/
theorem Machine.place_of_swapped (hs : (s.pte (s.proc p).pgdir v).swapped = true)
    (hz : (s.proc p).state ≠ .ZOMBIE) : s.place p v =
      .slot ((s.slots (s.pte (s.proc p).pgdir v).ppn).page_perm.getLsbD 5) := by
  unfold Machine.place
  dsimp only
  rw [(Pte.swapped_iff.1 hs).1, if_neg Bool.false_ne_true, if_pos hs, decide_eq_true hz,
    Bool.true_and]

/-- `t` is `s` after a page of `c` came back from slot `k`, with the entry `e`. -/
structure Back (c v k : Nat) (e : Pte) (s t : Machine) : Prop where
  present : e.present = true
  user : e.user = true
  free : (t.slots k).is_free = true
  slots : ∀ j, j ≠ k → t.slots j = s.slots j
  space : t.space = (s.setPte (s.proc c).pgdir v e).space
  proc : t.proc = Function.update s.proc c { s.proc c with rss := (s.proc c).rss + 1 }
  rest : (t.freelist, t.threshold, t.npages_to_swap) = (s.freelist, s.threshold, s.npages_to_swap)

namespace Back

variable {k : Nat} {e : Pte}

theorem proc_same (hb : Back c v k e s t) (i : Nat) :
    ((t.proc i).live ↔ (s.proc i).live) ∧ (t.proc i).state = (s.proc i).state ∧
      (t.proc i).pgdir = (s.proc i).pgdir ∧ (t.proc i).pid = (s.proc i).pid := by
  rw [hb.proc]
  by_cases hi : i = c
  · subst hi
    rw [Function.update_self]
    exact ⟨Iff.rfl, rfl, rfl, rfl⟩
  · rw [Function.update_of_ne hi]
    exact ⟨Iff.rfl, rfl, rfl, rfl⟩

theorem pte (hb : Back c v k e s t) (hd : (s.space (s.proc c).pgdir).isSome = true) (d' v' : Nat) :
    t.pte d' v' = if d' = (s.proc c).pgdir ∧ v' = v then e else s.pte d' v' := by
  rw [← Machine.setPte_pte hd]
  simp only [Machine.pte, hb.space]

/-- One slot more is free. -/
theorem freeSlots (hb : Back c v k e s t) (hk : k < SWAP_SLOT_TOTAL) :
    freeSlots t = insert k (freeSlots s) := by
  ext j
  rw [mem_freeSlots, Finset.mem_insert, mem_freeSlots]
  by_cases hj : j = k
  · simp [hj, hb.free, hk]
  · simp [hj, hb.slots j hj]

variable (hI : Inv h s) (hq : Fits q s) (hc : (s.proc c).alive)
  (huse : SlotUses s ((s.proc c).pgdir, v) k) (hb : Back c v k e s t)

include hI hq hc huse hb

/-- The page is in memory, and the other pages stay. -/
theorem place {i w : Nat} (hl : (s.proc i).live) (hw : w < UPAGES) :
    (q.pageIn c v e.accessed).place i w = t.place i w := by
  obtain ⟨-, hstate, hpg, -⟩ := hb.proc_same i
  have hpte := hb.pte (hI.dir c hc.1)
  unfold Pressure.pageIn
  dsimp only
  by_cases hx : (s.proc i).pgdir = (s.proc c).pgdir ∧ w = v
  · -- the page itself
    obtain ⟨hic, rfl⟩ := hx
    obtain rfl := hI.dir_inj i c hl hc.1 hic
    have he : t.pte (t.proc i).pgdir w = e := by rw [hpg, hpte, if_pos ⟨rfl, rfl⟩]
    have hr : Resident t (t.proc i).pgdir w := by
      unfold Resident
      rw [he]
      exact ⟨hw, hb.present, hb.user⟩
    rw [Function.update_self, Function.update_self, Machine.place_of_resident hr, he]
  · have he : t.pte (t.proc i).pgdir w = s.pte (s.proc i).pgdir w := by rw [hpg, hpte, if_neg hx]
    have hplace : t.place i w = s.place i w := by
      refine Machine.place_congr hstate he fun hsw hz => hb.slots _ fun hik => hx ?_
      -- slot `k` has no other page
      have huse' : SlotUses s ((s.proc i).pgdir, w) k := ⟨hI.alive_dir ⟨hl, hz⟩, hw, hsw, hik⟩
      exact Prod.mk.inj (hI.slot_own.inj huse' huse)
    rw [hplace, ← hq.place i hl w hw]
    by_cases hic : i = c
    · rw [hic, Function.update_self, Function.update_of_ne]
      exact fun hwv => hx ⟨by rw [hic], hwv⟩
    · rw [Function.update_of_ne hic]

theorem fits : Fits (q.pageIn c v e.accessed) t := by
  have hrest := hb.rest
  simp only [Prod.mk.injEq] at hrest
  obtain ⟨hlist, hthr, hbat⟩ := hrest
  exact {
    frames := by rw [hlist]; exact hq.frames
    slots := by
      have hnot : k ∉ Xv6.Swap.freeSlots s := fun hm =>
        hI.slot_own.busy huse (mem_freeSlots.1 hm).2
      rw [hb.freeSlots (hI.slot_range _ _ huse), Finset.card_insert_of_notMem hnot, ← hq.slots]
      rfl
    threshold := hq.threshold.trans hthr.symm
    batch := hq.batch.trans hbat.symm
    pid := fun i hi => by
      obtain ⟨hlive, -, -, hpid⟩ := hb.proc_same i
      rw [hpid]
      exact hq.pid i (hlive.1 hi)
    rss := fun i hi => by
      have hrss := hq.rss i ((hb.proc_same i).1.1 hi)
      unfold Pressure.pageIn
      dsimp only
      rw [hb.proc]
      by_cases hic : i = c
      · rw [hic] at hrss ⊢
        rw [Function.update_self, Function.update_self, hrss]
      · rw [Function.update_of_ne hic, Function.update_of_ne hic, hrss]
    dead := fun i hi => by
      have hl : ¬(s.proc i).live := fun hx => hi ((hb.proc_same i).1.2 hx)
      have hic : i ≠ c := fun he => hl (he ▸ hc.1)
      exact (Function.update_of_ne hic ..).trans (hq.dead i hl)
    place := fun i hi w hw => hb.place hI hq hc huse ((hb.proc_same i).1.1 hi) hw }

end Back

/-- **`swapPageIn`** of a page of the caller that is in a slot. -/
theorem swapPageIn_fits {D : Nat} {a : Bool} (hI : Inv h s) (hR : s.Recorded) (hq : Fits q s)
    (hc : (s.proc s.cpu.proc).alive) (hD : (s.proc s.cpu.proc).pgdir = D) (hv : v < UPAGES)
    (hs : (s.pte D v).swapped = true) (ha : q.place s.cpu.proc v = .slot a) :
    K.Spec (swapPageIn D v) s fun ok t => ok = true →
      Fits ((q.takeRetry 1).pageIn s.cpu.proc v a) t ∧ ∀ d i, t.tab d i = s.tab d i := by
  have hdirD : (s.space D).isSome = true := hD ▸ hI.dir _ hc.1
  have hzD : ¬s.zombie D := hD ▸ hI.alive_dir hc
  obtain ⟨sp, hsp⟩ := Option.isSome_iff_exists.1 hdirD
  obtain ⟨hp, hne⟩ := Pte.swapped_iff.1 hs
  have hwalk := hI.walk_of_ne_zero hsp hne
  have huse : SlotUses s (D, v) (s.pte D v).ppn := ⟨hzD, hv, hs, rfl⟩
  have hlt := hI.slot_range _ _ huse
  have hused : (s.slots (s.pte D v).ppn).is_free = false := by simpa using hI.slot_own.busy huse
  -- the slot keeps the accessed bit `a` and the flags of the page
  have hbit : (s.slots (s.pte D v).ppn).page_perm.getLsbD 5 = a := by
    subst hD
    rw [hq.place _ hc.1 v hv, Machine.place_of_swapped hs hc.2] at ha
    exact Place.slot.inj ha
  obtain ⟨-, hperm, huser⟩ := hR D v hzD hv hs
  unfold swapPageIn
  simp only [Code.spec_get_bind]
  refine Code.Spec.bind_run (walkpgdir_returns hsp v) ?_
  simp only [hwalk, hp, hused, Bool.false_eq_true, if_false, if_neg (Nat.not_le.2 hlt)]
  refine (kallocRetry_takes 1 hI hq).spec.bind fun r u ht => ?_
  cases r with
  | none => exact Code.spec_pure.2 fun hok => by cases hok
  | some f =>
    obtain ⟨hfits, ⟨hIu, hsu, -⟩, -⟩ := ht
    have hout : u.pte D v = s.pte D v := hsu.out_eq hv hp
    obtain ⟨hslot, -⟩ := hsu.slot _ hused
    dsimp only
    refine (pageInBlocks_spec _ _ _ _).spec.bind fun _ w hpost => ?_
    obtain ⟨pg, ⟨c', rl, rfl, hc'⟩, -⟩ := hpost
    obtain ⟨sp', hsp'⟩ := Option.isSome_iff_exists.1 ((hsu.dirs D).trans hdirD)
    have hw' := hIu.walk_of_ne_zero hsp' (by rw [hout]; exact hne)
    simp only [Code.spec_get_bind]
    refine Code.Spec.bind_run (mapPages_run (s := (u.setMem f pg).setCpu c' rl) hsp' hw'
      (by rw [hout]; exact hp)) ?_
    simp only [if_true]
    unfold Xv6.Swap.freeSlot
    rw [if_pos hlt]
    simp only [Code.spec_modify_bind]
    have hcpu : c'.proc = s.cpu.proc := hc'.trans hsu.cpu_proc
    have hdir : (u.proc s.cpu.proc).pgdir = D := (hsu.pgdir _).trans hD
    have hcu : (u.proc s.cpu.proc).alive := by
      refine ⟨(hsu.live _).2 hc.1, ?_⟩
      rw [hsu.state]
      exact hc.2
    refine Code.spec_pure.2 fun _ => ⟨?_, fun d i => ?_⟩
    · have hacc : (Pte.mapped f ((u.slots (s.pte D v).ppn).page_perm ||| PTE_P)).accessed = a := by
        rw [← hbit, hslot]
        simp [Pte.mapped, Pte.accessed, PTE_P]
      rw [← hacc]
      have huse' : SlotUses u ((u.proc s.cpu.proc).pgdir, v) (s.pte D v).ppn := by
        rw [hdir]
        exact ⟨fun hz => hzD ((hsu.zombie D).1 hz), hv, by rw [hout]; exact hs, by rw [hout]⟩
      refine Back.fits hIu hfits hcu huse' {
        present := Pte.mapped_present _ _
        user := ?_
        free := ?_
        slots := fun j hj => Function.update_of_ne hj _ _
        space := ?_
        proc := ?_
        rest := rfl }
      · rw [hslot]
        refine (Pte.user_of_perm (e := s.pte D v) ?_).trans huser
        rw [← hperm, Pte.mapped_perm]
        exact Pte.mapped_perm 0 _
      · exact congrArg Slot.is_free (Function.update_self (s.pte D v).ppn _ u.slots)
      · rw [hdir]
        rfl
      · rw [← hcpu]
        rfl
    · exact (Machine.setPte_tab u D v _ d i).trans (hsu.tab d i)

/-! ## One turn -/

/-- A page that stays keeps its bytes; one that goes does not, unless they are a filling. -/
theorem Scrubs.stays (hS : Scrubs s t) (hP : Paged h s t) (hr : Resident s d v) :
    (Resident t d v → t.mem (s.pte d v).ppn = s.mem (s.pte d v).ppn) ∧
      (t.mem (s.pte d v).ppn = s.mem (s.pte d v).ppn → ¬Filling (s.mem (s.pte d v).ppn) →
        Resident t d v) := by
  cases hP.page d v hr.1 with
  | out hs => rw [hr.2.1] at hs; cases hs
  | stay _ ht _ hperm hm =>
    refine ⟨fun _ => hm, fun _ _ => ⟨hr.1, ht, ?_⟩⟩
    rw [Pte.user_of_perm hperm]
    exact hr.2.2
  | move _ _ ht =>
    have hgone := (Pte.swapped_iff.1 ht).1
    refine ⟨fun hrt => ?_, fun hm hn => ?_⟩
    · have hpt := hrt.2.1
      rw [hgone] at hpt
      cases hpt
    · have hfill := hS.page d v hr.1 hr.2.1 hgone
      rw [hm] at hfill
      exact absurd hfill hn

theorem Machine.place_absent : s.place p v = .absent ↔ s.content (s.proc p).pgdir v = none := by
  unfold Machine.place Machine.content
  dsimp only
  split
  · split <;> exact iff_of_false (fun hx => by cases hx) (Option.some_ne_none _)
  · split
    · exact iff_of_false (fun hx => by cases hx) (Option.some_ne_none _)
    · exact iff_of_true rfl rfl

/-- The child `d` has a page table where the parent `D` has a page below page `v`. -/
def Tables (D d v : Nat) (s : Machine) : Prop :=
  ∀ i < UPAGES / NPTENTRIES, (s.tab d i).isSome = true ↔
    ∃ w < v, w / NPTENTRIES = i ∧ s.content D w ≠ none

/-- What holds when the loop of `copyuvm` comes to page `v`: `c` is the caller, `D` its
directory and `d` the one of the child. -/
structure Copying (h : Set Nat) (c D d v : Nat) (s : Machine) (q : Pressure) : Prop where
  inv : Inv h s
  recorded : s.Recorded
  fits : Fits q s
  cpu : s.cpu.proc = c
  alive : (s.proc c).alive
  pgdir : (s.proc c).pgdir = D
  dir : (s.space d).isSome = true
  unowned : Unowned s d
  live : ¬s.zombie d
  ne : d ≠ D
  tables : Tables D d v s
  rest : ∀ w, v ≤ w → w < UPAGES → s.pte d w = Pte.zero

namespace Copying

variable {D : Nat}

theorem parent_dir (hC : Copying h c D d v s q) : (s.space D).isSome = true :=
  hC.pgdir ▸ hC.inv.dir c hC.alive.1

theorem parent_live (hC : Copying h c D d v s q) : ¬s.zombie D :=
  hC.pgdir ▸ hC.inv.alive_dir hC.alive

theorem pair (hC : Copying h c D d v s q) (hv : v < UPAGES) : Pair D d v s :=
  ⟨hC.parent_dir, hC.dir, hC.parent_live, hC.live, hC.ne, hv⟩

theorem place (hC : Copying h c D d v s q) (hv : v < UPAGES) : q.place c v = s.place c v :=
  hC.fits.place c hC.alive.1 v hv

/-- The page table for page `v`, when the tables and the pages below are as at the start of
the turn. -/
theorem table {q' : Pressure} {u : Machine} (hC : Copying h c D d v s q) (hv : v < UPAGES)
    (hq : Fits q' t) (htab : ∀ i, t.tab d i = s.tab d i)
    (hpg : (t.proc c).live ∧ (t.proc c).pgdir = D)
    (hsame : ∀ w < v, t.content D w = s.content D w) (hr : Rooms d v t q' u) :
    Fits (q'.table c v) u := by
  have hv' : v / NPTENTRIES < UPAGES / NPTENTRIES := by
    simp only [UPAGES, NPTENTRIES] at *
    omega
  have hiff := hC.tables _ hv'
  have hopens : q'.opens c v = true ↔ ¬(t.tab d (v / NPTENTRIES)).isSome = true := by
    rw [htab, hiff]
    unfold Pressure.opens
    rw [List.all_eq_true]
    constructor
    · rintro hall ⟨w, hw, hwv, hne⟩
      refine hne ?_
      have hmem : w ∈ List.range' (v / NPTENTRIES * NPTENTRIES) (v % NPTENTRIES) := by
        rw [List.mem_range'_1]
        simp only [NPTENTRIES] at *
        omega
      have habs := of_decide_eq_true (hall w hmem)
      rw [hq.place c hpg.1 w (by omega), Machine.place_absent, hpg.2, hsame w hw] at habs
      exact habs
    · intro hno w hmem
      have hw : w < v ∧ w / NPTENTRIES = v / NPTENTRIES := by
        rw [List.mem_range'_1] at hmem
        simp only [NPTENTRIES] at *
        omega
      refine decide_eq_true ?_
      rw [hq.place c hpg.1 w (by omega), Machine.place_absent, hpg.2, hsame w hw.1]
      by_contra hne
      exact hno ⟨w, hw.1, hw.2, hne⟩
  have hfits := hr.fits
  unfold Pressure.table
  by_cases hsome : (t.tab d (v / NPTENTRIES)).isSome = true
  · rw [if_pos hsome] at hfits
    rw [if_neg fun hx => hopens.1 hx hsome]
    exact hfits
  · rw [if_neg hsome] at hfits
    rw [if_pos (hopens.2 hsome)]
    exact hfits

end Copying

/-- Page `v` of directory `D` does not have the bytes of a freed frame. -/
def Unfilled (s : Machine) (D v : Nat) : Prop := ∀ pg, s.content D v = some pg → ¬Filling pg

/-- The outcome of a turn that goes well. -/
structure Turn (c D d v : Nat) (s : Machine) (q : Pressure) (t : Machine) : Prop where
  fits : Fits (q.copyPage c v) t
  tab : ∀ i, (t.tab d i).isSome = true ↔
    (s.tab d i).isSome = true ∨ (i = v / NPTENTRIES ∧ s.content D v ≠ none)
  unowned : Unowned t d
  spared : q.spared c v = true → Intact D v s
  intact : Intact D v s → Unfilled s D v → q.spared c v = true

/-- What a turn does to the tables, once the page has been copied. -/
theorem Rooms.turn_tab {q' : Pressure} {D : Nat} (hr : Rooms d v t q' u)
    (htab : ∀ i, t.tab d i = s.tab d i) (hne : s.content D v ≠ none) (i : Nat) :
    (u.tab d i).isSome = true ↔
      (s.tab d i).isSome = true ∨ (i = v / NPTENTRIES ∧ s.content D v ≠ none) := by
  rw [hr.tab, htab]
  exact or_congr_right ⟨fun hi => ⟨hi, hne⟩, fun hi => hi.1⟩

section Turns

variable {D : Nat} (hC : Copying h c D d v s q) (hv : v < UPAGES)

include hC hv

theorem Copying.place_resident (hr : Resident s D v) :
    q.place c v = .memory (s.pte D v).accessed := by
  rw [hC.place hv, Machine.place_of_resident (by rw [hC.pgdir]; exact hr), hC.pgdir]

/-- The end of a turn that copies a frame; `t` is the state after the last `kalloc`. -/
theorem Copying.ends {h' : Set Nat} {q' : Pressure} {pa f : Nat} {flags : BitVec 12}
    (hI : Inv h' t) (hfits : Fits q' t) (hd : (t.space d).isSome = true) (hno : Unowned t d)
    (htab : ∀ i, t.tab d i = s.tab d i) (hpg : (t.proc c).live ∧ (t.proc c).pgdir = D)
    (hsame : ∀ w < v, t.content D w = s.content D w) (hne : s.content D v ≠ none)
    (hmapped : q.place c v ≠ .absent) (hsrc : q.source c v = q')
    (hspared : q.spared c v = true → Intact D v s)
    (hintact : Intact D v s → Unfilled s D v → q.spared c v = true) :
    K.Spec (copyFrame d v pa f flags) t fun ok u => ok = true → Turn c D d v s q u := by
  refine (copyFrame_rooms hI hfits hd hno).mono fun ok u hrooms hok => ?_
  have hr := hrooms hok
  exact {
    fits := by
      unfold Pressure.copyPage
      rw [if_neg hmapped, hsrc]
      exact hC.table hv hfits htab hpg hsame hr
    tab := hr.turn_tab htab hne
    unowned := hr.unowned
    spared := hspared
    intact := hintact }

/-- After a duplication that failed, the page comes back from the slot it was in, with the
same accessed bit. -/
theorem Copying.pagesIn {q' : Pressure} {a : Bool} (hsw : (s.pte D v).swapped = true)
    (ha : q.place c v = .slot a) (hpr : Presses h s q' t) :
    K.Spec (swapPageIn D v) t fun ok u => ok = true →
      Fits ((q'.takeRetry 1).pageIn c v a) u ∧ ∀ d i, u.tab d i = t.tab d i := by
  have hP := hpr.evicts.2
  have hpte : t.pte D v = s.pte D v := hP.out_eq hv (Pte.swapped_iff.1 hsw).1
  have hcpu : t.cpu.proc = c := hP.cpu_proc.trans hC.cpu
  have hpg : (t.proc c).pgdir = D := (hP.pgdir c).trans hC.pgdir
  have halive : (t.proc c).alive := by
    refine ⟨(hP.live c).2 hC.alive.1, ?_⟩
    rw [hP.state]
    exact hC.alive.2
  have hused : (s.slots (s.pte D v).ppn).is_free = false := by
    have huse : SlotUses s (D, v) (s.pte D v).ppn := ⟨hC.parent_live, hv, hsw, rfl⟩
    simpa using hC.inv.slot_own.busy huse
  have ha' : q'.place c v = .slot a := by
    rw [hpr.fits.place c halive.1 v hv, ← ha, hC.place hv]
    refine Machine.place_congr (hP.state c) (by rw [hpg, hC.pgdir, hpte]) fun _ _ => ?_
    rw [hC.pgdir]
    exact (hP.slot _ hused).1
  have hK : Keeps h noPage s t := hpr.evicts.keeps hC.inv
  have hx := swapPageIn_fits (D := D) (a := a) (v := v) hpr.evicts.1
    (hK.recorded hC.recorded) hpr.fits
  rw [hcpu] at hx
  exact hx halive hpg hv (by rw [hpte]; exact hsw) ha'

/-- A page in memory. -/
theorem copyPresent_turn (hpres : (s.pte D v).present = true) :
    K.Spec (copyPresent d v (s.pte D v)) s fun ok t => ok = true → Turn c D d v s q t := by
  unfold copyPresent
  refine ((K.spec_run _ s).and (kallocRetry_takes 2 hC.inv hC.fits).spec).bind fun r s1 hpost => ?_
  obtain ⟨hrun, ht⟩ := hpost
  cases r with
  | none => exact Code.spec_pure.2 fun hok => by cases hok
  | some f =>
    obtain ⟨hfits, ⟨hI1, hP, -⟩, hS⟩ := ht
    have hcont : s.content D v = some (s.mem (s.pte D v).ppn) := by
      rw [Machine.content, if_pos hpres]
    have hne : s.content D v ≠ none := by rw [hcont]; exact Option.some_ne_none _
    have hlive1 : (s1.proc c).live := (hP.live c).2 hC.alive.1
    have hpg1 : (s1.proc c).pgdir = D := (hP.pgdir c).trans hC.pgdir
    -- the frame that was read is the one that is copied
    have hintact : Intact D v s ↔ s1.mem (s.pte D v).ppn = s.mem (s.pte D v).ppn := by
      refine ⟨fun hi => hi.present hpres f s1 hrun, fun hm => ⟨fun _ f' t' hrun' => ?_, fun hs => ?_⟩⟩
      · rw [hrun] at hrun'
        cases hrun'
        exact hm
      · rw [(Pte.swapped_iff.1 hs).1] at hpres
        cases hpres
    have hstay : q.place c v ≠ .absent ∧ q.source c v = q.takeRetry 2 ∧
        (q.spared c v = true → s1.mem (s.pte D v).ppn = s.mem (s.pte D v).ppn) ∧
        (s1.mem (s.pte D v).ppn = s.mem (s.pte D v).ppn → Unfilled s D v →
          q.spared c v = true) := by
      by_cases hu : (s.pte D v).user = true
      · -- a user page may have gone
        have hr : Resident s D v := ⟨hv, hpres, hu⟩
        have hplace := hC.place_resident hv hr
        have hsrc : q.source c v = q.takeRetry 2 := by
          unfold Pressure.source
          rw [hplace]
        have hspared : q.spared c v = true ↔ Resident s1 D v := by
          unfold Pressure.spared
          rw [hplace, hsrc]
          dsimp only
          rw [hfits.place c hlive1 v hv, Machine.place_user hv, hpg1]
        rw [hplace, hspared]
        refine ⟨Place.noConfusion, hsrc, (hS.stays hP hr).1, fun hm hun => ?_⟩
        exact (hS.stays hP hr).2 hm (hun _ hcont)
      · -- any other page is where it was
        have hplace : q.place c v = .pinned := by
          rw [hC.place hv]
          unfold Machine.place
          dsimp only
          rw [hC.pgdir, if_pos hpres, if_neg hu]
        unfold Pressure.source Pressure.spared
        rw [hplace]
        refine ⟨Place.noConfusion, rfl, fun _ => ?_, fun _ _ => rfl⟩
        cases hP.page D v hv with
        | out hs => rw [hpres] at hs; cases hs
        | stay _ _ _ _ hm => exact hm
        | move _ hx => exact absurd hx hu
    obtain ⟨hmapped, hsrc, hsp, hun⟩ := hstay
    exact hC.ends hv hI1 hfits ((hP.dirs d).trans hC.dir) (hC.unowned.paged hP)
      (fun i => hP.tab d i) ⟨hlive1, hpg1⟩
      (fun w hw => hP.content hC.inv (by omega) hC.parent_live) hne hmapped hsrc
      (fun hx => hintact.2 (hsp hx)) fun hi => hun (hintact.1 hi)

/-- A page in a slot, when no slot is left for a copy; `s1` is the state in which
`duplicateSwapSlot` has failed. -/
theorem copyPagedIn_turn {a : Bool} {s1 : Machine} (hsw : (s.pte D v).swapped = true)
    (ha : q.place c v = .slot a)
    (hdup : (duplicateSwapSlot (s.pte D v).ppn).run s = .ok (none, s1))
    (hpr : Presses h s (q.slotRounds 2) s1) (h0 : (q.slotRounds 2).slots = 0) :
    K.Spec (copyPagedIn D d v) s1 fun ok t => ok = true → Turn c D d v s q t := by
  have hP1 := hpr.evicts.2
  have hp1 := (hC.pair hv).keeps (hpr.evicts.keeps hC.inv)
  have hpte1 : s1.pte D v = s.pte D v := hP1.out_eq hv (Pte.swapped_iff.1 hsw).1
  have hlive1 : (s1.proc c).live := (hP1.live c).2 hC.alive.1
  have hpg1 : (s1.proc c).pgdir = D := (hP1.pgdir c).trans hC.pgdir
  have hmyproc : s1.myproc.live := by
    unfold Machine.myproc
    rw [hP1.cpu_proc, hC.cpu]
    exact hlive1
  unfold copyPagedIn
  refine ((K.spec_run _ s1).and ((hC.pagesIn hv hsw ha hpr).and (swapPageIn_spec hpr.evicts.1
    hp1.parent_dir hv hp1.parent_live (by rw [hpte1]; exact hsw) hmyproc).spec)).bind
    fun ok s2 hpost => ?_
  obtain ⟨hrun2, hf2, hpg⟩ := hpost
  cases ok with
  | false => exact Code.spec_pure.2 fun hok => by cases hok
  | true =>
    obtain ⟨hfits2, htab2⟩ := hf2 rfl
    simp only [if_true] at hpg ⊢
    obtain ⟨sp, hsp⟩ := Option.isSome_iff_exists.1 (hpg.keeps.dir_onlyPage hp1.parent_dir)
    have hw := hpg.inv.walk_of_ne_zero hsp (Pte.present_ne_zero hpg.present)
    refine Code.Spec.bind_run (walkpgdir_returns hsp v) ?_
    simp only [hw, hpg.present, if_true]
    refine ((K.spec_run _ s2).and (kalloc_takes hpg.inv hfits2).spec).bind fun r s3 hpost => ?_
    obtain ⟨hrun3, ht, -⟩ := hpost
    cases r with
    | none => exact Code.spec_pure.2 fun hok => by cases hok
    | some f =>
      obtain ⟨hfits3, ⟨hI3, hP3, -⟩, hS3⟩ := ht
      have hlive2 : (s2.proc c).live := (hpg.keeps.live c).2 hlive1
      have hlive3 : (s3.proc c).live := (hP3.live c).2 hlive2
      have hpg2 : (s2.proc c).pgdir = D := (hpg.keeps.pgdir c).trans hpg1
      have hpg3 : (s3.proc c).pgdir = D := (hP3.pgdir c).trans hpg2
      have hz2 : ¬s2.zombie D := fun hx => hp1.parent_live ((hpg.keeps.zombie D).1 hx)
      have hcont2 : s.content D v = some (s2.mem (s2.pte D v).ppn) := by
        rw [← hP1.content hC.inv hv hC.parent_live, ← hpg.content, Machine.content,
          if_pos hpg.present]
      have hres2 : Resident s2 D v := by
        rw [← hpg2, ← Machine.place_user hv, ← hfits2.place c hlive2 v hv]
        unfold Pressure.pageIn
        dsimp only
        rw [Function.update_self, Function.update_self]
        rfl
      have hsrc : q.source c v = ((((q.slotRounds 2).takeRetry 1).pageIn c v a).take) := by
        unfold Pressure.source
        rw [ha]
        dsimp only
        rw [if_pos h0]
      have hspared : q.spared c v = true ↔ Resident s3 D v := by
        unfold Pressure.spared
        rw [ha, hsrc]
        dsimp only
        rw [h0, decide_eq_false (fun hx => hx rfl), Bool.false_or, hfits3.place c hlive3 v hv,
          Machine.place_user hv, hpg3]
      have hintact : Intact D v s ↔ s3.mem (s2.pte D v).ppn = s2.mem (s2.pte D v).ppn := by
        refine ⟨fun hi => hi.pagedIn hsw s1 s2 f s3 hdup hrun2 hrun3,
          fun hm => ⟨fun hs => ?_, fun _ x y f' z hrun1' hrun2' hrun3' => ?_⟩⟩
        · rw [(Pte.swapped_iff.1 hsw).1] at hs
          cases hs
        · rw [hdup] at hrun1'
          cases hrun1'
          rw [hrun2] at hrun2'
          cases hrun2'
          rw [hrun3] at hrun3'
          cases hrun3'
          exact hm
      have hstay := hS3.stays hP3 hres2
      refine hC.ends hv hI3 hfits3 ((hP3.dirs d).trans (hpg.keeps.dir_onlyPage hp1.dir)) ?_
        (fun i => by rw [hP3.tab, htab2, hP1.tab]) ⟨hlive3, hpg3⟩ (fun w hw => ?_)
        (by rw [hcont2]; exact Option.some_ne_none _) (by rw [ha]; exact Place.noConfusion) hsrc
        (fun hx => hintact.2 (hstay.1 (hspared.1 hx)))
        fun hi hun => hspared.2 (hstay.2 (hintact.1 hi) (hun _ hcont2))
      · intro p hp
        rw [hP3.pgdir, hpg.keeps.pgdir]
        exact hC.unowned.paged hP1 p ((hpg.keeps.live p).1 ((hP3.live p).1 hp))
      · -- the pages below keep their content
        have hkept := hpg.keeps.page D w hp1.parent_dir hp1.parent_live (by omega)
          fun hx => absurd hx.2 (by omega)
        rw [hP3.content hpg.inv (by omega) hz2, hkept.content,
          hP1.content hC.inv (by omega) hC.parent_live]

/-- A page in a slot. -/
theorem copySwapped_turn (hsw : (s.pte D v).swapped = true) :
    K.Spec (copySwapped D d v (s.pte D v)) s fun ok t => ok = true → Turn c D d v s q t := by
  have huse : SlotUses s (D, v) (s.pte D v).ppn := ⟨hC.parent_live, hv, hsw, rfl⟩
  have hused : (s.slots (s.pte D v).ppn).is_free = false := by
    simpa using hC.inv.slot_own.busy huse
  have hlt := hC.inv.slot_range _ _ huse
  have hplace : q.place c v = .slot ((s.slots (s.pte D v).ppn).page_perm.getLsbD 5) := by
    rw [hC.place hv, Machine.place_of_swapped (by rw [hC.pgdir]; exact hsw) hC.alive.2, hC.pgdir]
  unfold copySwapped
  refine ((K.spec_run _ s).and ((duplicateSwapSlot_presses hC.inv hC.fits hlt hused).and
    (duplicateSwapSlot_spec hC.inv hlt hused).spec)).bind fun r s1 hpost => ?_
  obtain ⟨hrun, hpr, hE, -⟩ := hpost
  cases r with
  | none => exact copyPagedIn_turn hC hv hsw hplace hrun hpr.1 hpr.2
  | some j =>
    -- the slot has been duplicated, and no frame is copied
    obtain ⟨hfits, hslots, htab⟩ := hpr
    have hP := hE.2
    have hne : s.content D v ≠ none := by
      rw [Machine.content, (Pte.swapped_iff.1 hsw).1, if_neg Bool.false_ne_true, if_pos hsw]
      exact Option.some_ne_none _
    have hsrc : q.source c v = (q.slotRounds 2).takeSlot := by
      unfold Pressure.source
      rw [hplace]
      dsimp only
      rw [if_neg hslots]
    have hspared : q.spared c v = true := by
      unfold Pressure.spared
      rw [hplace]
      dsimp only
      rw [decide_eq_true hslots, Bool.true_or]
    have hlive1 : (s1.proc c).live := (hP.live c).2 hC.alive.1
    have hpg1 : (s1.proc c).pgdir = D := (hP.pgdir c).trans hC.pgdir
    refine (walkpgdirAlloc_rooms hE.1 hfits ((hP.dirs d).trans hC.dir)
      (hC.unowned.paged hP)).bind fun r s2 hrooms => ?_
    cases r with
    | none => exact Code.spec_pure.2 fun hok => by cases hok
    | some e =>
      have hr := hrooms (Option.some_ne_none e)
      simp only [Code.spec_modify_bind]
      refine Code.spec_pure.2 fun _ => {
        fits := ?_
        tab := fun i => ?_
        unowned := hr.unowned
        spared := fun _ => ⟨fun hs => ?_, fun _ x y f t hn => ?_⟩
        intact := fun _ _ => hspared }
      · unfold Pressure.copyPage
        rw [if_neg (by rw [hplace]; exact Place.noConfusion), hsrc]
        have hq2 := hC.table hv hfits (htab d) ⟨hlive1, hpg1⟩
          (fun w hw => hP.content hC.inv (by omega) hC.parent_live) hr
        exact (hq2.setPte (v := v) (e := (s.pte D v).toSlot j) hr.unowned).unowned
          (t := (s2.setPte d v _).setHist _) (d := d) hr.unowned rfl rfl fun _ _ => rfl
      · refine Iff.trans ?_ (hr.turn_tab (htab d) hne i)
        exact Iff.of_eq (congrArg (fun x => x.isSome = true)
          (Machine.setPte_tab s2 d v ((s.pte D v).toSlot j) d i))
      · rw [(Pte.swapped_iff.1 hsw).1] at hs
        cases hs
      · rw [hrun] at hn
        cases hn

/-- **One turn of the loop of `copyuvm`.** -/
theorem copyPage_turn : K.Spec (copyPage D d v) s fun ok t =>
    ok = true → Turn c D d v s q t := by
  obtain ⟨sp, hsp⟩ := Option.isSome_iff_exists.1 hC.parent_dir
  unfold copyPage
  refine Code.Spec.bind_run (walkpgdir_returns hsp v) ?_
  rcases hC.inv.walk_eq hsp v with ⟨hw, -⟩ | hw
  · rw [hw]
    exact Code.spec_panic _
  · rw [hw]
    rcases (s.pte D v).cases_kind with hpres | hsw | hzero
    · simp only [hpres, if_true]
      exact copyPresent_turn hC hv hpres
    · obtain ⟨hnp, hne⟩ := Pte.swapped_iff.1 hsw
      simp only [hnp, Bool.false_eq_true, if_false, if_pos hne]
      exact copySwapped_turn hC hv hsw
    · -- nothing is mapped there, and nothing is done
      simp only [hzero, Pte.present_zero, Bool.false_eq_true, if_false, ne_eq, not_true_eq_false]
      have hnone : s.content D v = none := by
        rw [Machine.content, hzero]
        rfl
      have hplace : q.place c v = .absent := by
        rw [hC.place hv, Machine.place_absent, hC.pgdir]
        exact hnone
      refine Code.spec_pure.2 fun _ => {
        fits := ?_
        tab := fun i => ?_
        unowned := hC.unowned
        spared := fun _ => ⟨fun hs => ?_, fun hs => ?_⟩
        intact := fun _ _ => ?_ }
      · unfold Pressure.copyPage
        rw [if_pos hplace]
        exact hC.fits
      · exact ⟨Or.inl, fun hi => hi.resolve_right fun hx => hx.2 hnone⟩
      · rw [hzero] at hs; cases hs
      · rw [hzero] at hs; cases hs
      · unfold Pressure.spared
        rw [hplace]

end Turns

/-! ## The loop -/

/-- The loop goes on to the next page. -/
theorem Copying.next {D : Nat} (hC : Copying h c D d v s q) (hv : v < UPAGES)
    (hc : CopiesPage h D d v s true t) (hT : Turn c D d v s q t) :
    Copying h c D d (v + 1) t (q.copyPage c v) := by
  have hkept : ∀ w, w ≠ v → w < UPAGES → Kept s t D w := fun w hw hlt =>
    hc.keeps.page D w hC.parent_dir hC.parent_live hlt fun hx => hw hx.2
  have hcont : ∀ w < v + 1, t.content D w = s.content D w := by
    intro w hw
    rcases eq_or_ne w v with rfl | hwv
    · exact hc.same.content
    · exact (hkept w hwv (by omega)).content
  have hlive : ¬t.zombie d := fun hx => hC.live ((hc.keeps.zombie d).1 hx)
  exact {
    inv := hc.inv
    recorded := hc.keeps.recorded hC.recorded
    fits := hT.fits
    cpu := hc.keeps.cpu_proc.trans hC.cpu
    alive := hc.keeps.alive.2 hC.alive
    pgdir := (hc.keeps.pgdir c).trans hC.pgdir
    dir := hc.keeps.dirs d ⟨if v = 0 then 1 else 0, by simp only [UPAGES]; split <;> omega,
      by rintro ⟨-, he⟩; split at he <;> omega⟩ hC.dir
    unowned := hT.unowned
    live := hlive
    ne := hC.ne
    tables := fun i hi => by
      rw [hT.tab, hC.tables i hi]
      constructor
      · rintro (⟨w, hw, hwi, hne⟩ | ⟨rfl, hne⟩)
        · exact ⟨w, by omega, hwi, by rw [hcont w (by omega)]; exact hne⟩
        · exact ⟨v, by omega, rfl, by rw [hcont v (by omega)]; exact hne⟩
      · rintro ⟨w, hw, hwi, hne⟩
        rw [hcont w hw] at hne
        rcases eq_or_ne w v with rfl | hwv
        · exact Or.inr ⟨hwi.symm, hne⟩
        · exact Or.inl ⟨w, by omega, hwi, hne⟩
    rest := fun w h1 h2 => by
      have hzero := hC.rest w (by omega) h2
      have hk := hc.keeps.page d w hC.dir hC.live h2 fun hx => absurd hx.2 (by omega)
      rw [hk.out (by rw [hzero]; rfl), hzero] }

/-- **The forecast is right**, for the pages from `v` on. -/
theorem copyLoop_forecast {D : Nat} (n v : Nat) (hC : Copying h c D d v s q)
    (hn : v + n ≤ UPAGES) : K.Spec (copyLoop D d n v) s fun ok _ => ok = true →
      (Pressure.copies c n v q = true → CopiesIntact D d n v s) ∧
        (CopiesIntact D d n v s → (∀ w, v ≤ w → w < v + n → Unfilled s D w) →
          Pressure.copies c n v q = true) := by
  induction n generalizing s q v with
  | zero => exact Code.spec_pure.2 fun _ => ⟨fun _ => trivial, fun _ _ => rfl⟩
  | succ n ih =>
    have hv : v < UPAGES := by omega
    have hcur : s.myproc.live := by
      unfold Machine.myproc
      rw [hC.cpu]
      exact hC.alive.1
    unfold copyLoop
    refine ((K.spec_run _ s).and ((copyPage_spec hC.inv hC.recorded (hC.pair hv)
      (hC.rest v le_rfl hv) hcur).and (copyPage_turn hC hv))).bind fun ok s1 hpost => ?_
    obtain ⟨hrun, hc, hturn⟩ := hpost
    cases ok with
    | false => exact Code.spec_pure.2 fun hok => by cases hok
    | true =>
      have hT := hturn rfl
      refine (ih (v + 1) (hC.next hv hc hT) (by omega)).mono fun ok t hr hok => ?_
      obtain ⟨hspares, hintact⟩ := hr hok
      unfold Pressure.copies CopiesIntact
      rw [Bool.and_eq_true]
      constructor
      · rintro ⟨hfirst, hrest⟩
        refine ⟨hT.spared hfirst, fun t' ht' => ?_⟩
        rw [hrun] at ht'
        cases ht'
        exact hspares hrest
      · rintro ⟨hfirst, hrest⟩ hun
        refine ⟨hT.intact hfirst (hun v le_rfl (by omega)), hintact (hrest s1 hrun) ?_⟩
        -- the turn leaves the bytes of the later pages
        intro w h1 h2 pg hpg
        have hk := hc.keeps.page D w hC.parent_dir hC.parent_live (by omega)
          fun hx => absurd hx.2 (by omega)
        rw [hk.content] at hpg
        exact hun w (by omega) (by omega) pg hpg

/-- The forecast for the whole of `copyuvm`. -/
theorem copyuvm_forecast (hI : Inv h s) (hR : s.Recorded) (hq : Fits q s)
    (hcur : s.myproc.alive) : K.Spec (copyuvm s.myproc.pgdir s.myproc.sz) s fun r _ => r ≠ none →
      (Pressure.copies s.cpu.proc (pagesUp s.myproc.sz) 0
          (Pressure.take^[1 + kernelTables.length] q) = true →
        ForkIntact s.myproc.pgdir s.myproc.sz s) ∧
      (ForkIntact s.myproc.pgdir s.myproc.sz s →
        (∀ v < pagesUp s.myproc.sz, Unfilled s s.myproc.pgdir v) →
        Pressure.copies s.cpu.proc (pagesUp s.myproc.sz) 0
          (Pressure.take^[1 + kernelTables.length] q) = true) := by
  have hpd : (s.space s.myproc.pgdir).isSome = true := hI.dir _ hcur.1
  have hpz : ¬s.zombie s.myproc.pgdir := hI.alive_dir hcur
  have hup : pagesUp s.myproc.sz ≤ UPAGES := pagesUp_le_upages (hI.size _ hcur.1)
  unfold copyuvm
  refine ((K.spec_run _ s).and ((setupkvm_spec hI).spec.and (setupkvm_takes hI hq))).bind
    fun r s1 hpost => ?_
  obtain ⟨hrun, ⟨hI1, hK1, hnew⟩, htakes⟩ := hpost
  cases r with
  | none => exact Code.spec_pure.2 fun hn => absurd rfl hn
  | some d =>
    obtain ⟨hnone, hfresh⟩ := hnew d rfl
    obtain ⟨hfits, htab⟩ := htakes d rfl
    have hC : Copying h s.cpu.proc s.myproc.pgdir d 0 s1
        (Pressure.take^[1 + kernelTables.length] q) := {
      inv := hI1
      recorded := hK1.recorded hR
      fits := hfits
      cpu := hK1.cpu_proc
      alive := hK1.alive.2 hcur
      pgdir := hK1.pgdir _
      dir := hfresh.1
      unowned := hK1.not_owned hI hnone
      live := fun hx => by
        have hdir := hI.zombie_dir ((hK1.zombie d).1 hx)
        rw [hnone] at hdir
        cases hdir
      ne := fun he => by
        rw [← he, hnone] at hpd
        cases hpd
      tables := fun i hi => by
        rw [htab i hi]
        exact iff_of_false (fun hx => by cases hx) fun ⟨w, hw, _⟩ => absurd hw (Nat.not_lt_zero w)
      rest := fun w _ hw => hfresh.2 w hw }
    refine (copyLoop_forecast (pagesUp s.myproc.sz) 0 hC (by omega)).bind fun ok s2 hloop => ?_
    cases ok with
    | false =>
      refine (K.spec_run _ _).bind fun _ _ _ => Code.spec_pure.2 ?_
      intro hn
      exact absurd rfl hn
    | true =>
      obtain ⟨hspares, hintact⟩ := hloop rfl
      refine Code.spec_pure.2 fun _ => ⟨fun hx d' t' ht' => ?_, fun hx hun => ?_⟩
      · rw [hrun] at ht'
        cases ht'
        exact hspares hx
      · refine hintact (hx d s1 hrun) fun w _ hw pg hpg => ?_
        have hk := hK1.page _ w hpd hpz (by omega) id
        rw [hk.content] at hpg
        exact hun w (by omega) pg hpg

/-- **The forecast of a fork is right.** -/
theorem fork_forecast (hI : Inv ∅ s) (hR : s.Recorded) (hcur : s.myproc.alive) :
    K.Spec fork s fun r _ => r ≠ none → (ForkSpares s → ForkCopiesIntact s) ∧
      (ForkCopiesIntact s → (∀ v < pagesUp s.myproc.sz, Unfilled s s.myproc.pgdir v) →
        ForkSpares s) := by
  unfold fork
  refine ((K.spec_run _ s).and ((allocproc_spec hI).spec.and
    (allocproc_takes hI s.pressure_fits))).bind fun r s1 hpost => ?_
  obtain ⟨hrun, ⟨hS1, -⟩, htakes⟩ := hpost
  cases r with
  | none => exact Code.spec_pure.2 fun hn => absurd rfl hn
  | some np =>
    -- the caller is as before `allocproc`
    have hcs := hS1.spares _ trivial hcur
    have hme : s1.myproc = s1.proc s.cpu.proc := by rw [Machine.myproc, hS1.cpu_proc]
    have hcur1 : s1.myproc.alive := by rw [hme]; exact hcs.alive
    have hdir1 : s1.myproc.pgdir = s.myproc.pgdir := by rw [hme]; exact hcs.pgdir
    have hsz1 : s1.myproc.sz = s.myproc.sz := by rw [hme]; exact hcs.sz
    have hup : pagesUp s.myproc.sz ≤ UPAGES := pagesUp_le_upages (hI.size _ hcur.1)
    have hspares : ForkSpares s ↔ Pressure.copies s1.cpu.proc (pagesUp s1.myproc.sz) 0
        (Pressure.take^[1 + kernelTables.length] s.pressure.take) = true := by
      unfold ForkSpares Pressure.prepare
      rw [hS1.cpu_proc, hsz1, ← Function.iterate_succ_apply]
      rfl
    have hintact : ForkCopiesIntact s ↔ ForkIntact s1.myproc.pgdir s1.myproc.sz s1 := by
      refine ⟨fun hx => hx np s1 hrun, fun hx np' t' ht' => ?_⟩
      rw [hrun] at ht'
      cases ht'
      exact hx
    simp only [Code.spec_get_bind]
    refine (copyuvm_forecast hS1.inv (hS1.recorded hR) (htakes np rfl) hcur1).bind
      fun r s2 hcopy => ?_
    cases r with
    | none =>
      simp only [Code.spec_modify_bind]
      refine (K.spec_run _ _).bind fun _ _ _ => ?_
      simp only [Code.spec_modify_bind]
      exact Code.spec_pure.2 fun hn => absurd rfl hn
    | some d =>
      obtain ⟨h1, h2⟩ := hcopy (Option.some_ne_none d)
      simp only [Code.spec_modify_bind]
      refine Code.spec_pure.2 fun _ => ?_
      rw [hspares, hintact]
      refine ⟨h1, fun hx hun => h2 hx ?_⟩
      rw [hsz1, hdir1]
      intro v hv pg hpg
      have hk : Kept s s1 s.myproc.pgdir v := hcs.page v (by omega) id
      rw [hk.content] at hpg
      exact hun v hv pg hpg

end Xv6.Swap
