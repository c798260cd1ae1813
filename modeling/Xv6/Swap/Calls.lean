/-
The system calls besides `fork` and `exec`, page faults, and the switch to
another process: what each does to the caller, and that it keeps the others.
-/
import Xv6.Swap.Fork

set_option autoImplicit false

namespace Xv6.Swap

open Xv6.Lib

variable {h : Set Nat} {s t u : Machine} {X Y : Nat → Nat → Prop} {A : Nat → Prop}

/-- Processes other than the caller. -/
abbrev others (s : Machine) : Nat → Prop := (· ≠ s.cpu.proc)

/-- A process that is alive has its directory for itself. -/
theorem Inv.other_dir {q : Nat} (hI : Inv h s) (hcur : s.myproc.live) (hq : others s q)
    (ha : (s.proc q).alive) : (s.proc q).pgdir ≠ s.myproc.pgdir :=
  fun he => hq (hI.dir_inj _ _ ha.1 hcur he)

/-- A routine that only changes pages of the caller spares the others. -/
theorem Keeps.serves_others (hK : Keeps h X s t) (hI : Inv h s) (hI' : Inv h t)
    (hcur : s.myproc.live) (hX : ∀ d v, X d v → d = s.myproc.pgdir) : Serves h (others s) Y s t :=
  (hK.serves (A := others s) hI hI').mono (fun _ hq => hq) fun _ _ hq ha hx =>
    absurd (hX _ _ hx) (hI.other_dir hcur hq ha)

/-- Only the processor changes. -/
theorem Inv.setCpu (hI : Inv h s) {c : Cpu} {rl : List Nat} (hc : c.proc = s.cpu.proc) :
    Serves h A X s (s.setCpu c rl) where
  inv := hI.congr rfl
  recorded hR := hR
  spares _ _ hq := (s.setCpu_tableOnly c rl).spares (hI.dir _ hq.1) hq rfl rfl
  fewer _ _ ha := ha
  cpu_proc := hc
  initproc := rfl

/-- `switchuvm` of a process: it panics or loads the directory of the process. -/
theorem switchuvm_spec (i : Nat) (s : Machine) : K.Spec (switchuvm i) s fun _ t =>
    t = s.setCpu { s.cpu with cr3 := (s.proc i).pgdir } [] := by
  unfold switchuvm
  simp only [Code.spec_get_bind]
  split
  · exact Code.spec_panic _
  · split
    · exact Code.spec_panic _
    · exact (Code.spec_modify _).2 rfl

/-! ## `growproc` -/

/-- The size after `growproc(n)`, when it succeeds. -/
def grownSize (sz : Nat) (n : Int) : Nat :=
  if 0 < n then sz + n.toNat else if n.natAbs ≤ sz then sz - n.natAbs else sz

theorem addSize_of_pos {sz : Nat} {n : Int} (hsz : sz ≤ KERNBASE) (hn : 0 < n) (hlt : n < 2 ^ 31) :
    addSize sz n = sz + n.toNat := by
  unfold addSize
  simp only [KERNBASE] at hsz
  omega

theorem addSize_of_neg {sz : Nat} {n : Int} (hsz : sz ≤ KERNBASE) (hn : n < 0) (hle : -2 ^ 31 ≤ n) :
    addSize sz n = if n.natAbs ≤ sz then sz - n.natAbs else 2 ^ 32 + sz - n.natAbs := by
  unfold addSize
  simp only [KERNBASE] at hsz
  split <;> omega

/-- The outcome of `growproc(n)`. -/
structure Grown (s t : Machine) (n : Int) (ok : Bool) : Prop where
  serves : Serves ∅ (others s) noPage s t
  state : t.myproc.state = s.myproc.state
  pgdir : t.myproc.pgdir = s.myproc.pgdir
  sz : t.myproc.sz = if ok then grownSize s.myproc.sz n else s.myproc.sz
  kept : ok = true ∨ 0 < n → ∀ v, v < pagesUp s.myproc.sz → v < pagesUp t.myproc.sz →
    Kept s t s.myproc.pgdir v
  zero : ∀ v, pagesUp s.myproc.sz ≤ v → v < pagesUp t.myproc.sz →
    t.content s.myproc.pgdir v = some (memset 0)
  fails : ok = false → 0 < n ∨ s.myproc.sz ≤ n.natAbs

/-- The last steps of `growproc`: the new size, and `switchuvm`. -/
theorem setSize_spec {sz : Nat} {r : Proc → BitVec 32} (hI : Inv h s) (hcur : s.myproc.alive)
    (hsz : sz ≤ KERNBASE) :
    K.Spec (do
      Code.modify fun s' => s'.setProc s.cpu.proc fun p => { p with rss := r p, sz := sz }
      switchuvm s.cpu.proc
      return true) s fun ok t => ok = true ∧ Serves h (others s) X s t ∧ TableOnly s t ∧
        t.myproc.state = s.myproc.state ∧ t.myproc.pgdir = s.myproc.pgdir ∧ t.myproc.sz = sz := by
  simp only [Code.spec_modify_bind]
  have hS := hI.setProc (X := X) (i := s.cpu.proc) (g := fun p => { p with rss := r p, sz := sz })
    (fun hl => ⟨hl, rfl, hsz⟩) (fun he => absurd he hcur.1.2) (Or.inl rfl)
    (fun hz => absurd hz hcur.2)
  refine (switchuvm_spec _ _).bind fun _ t ht => Code.spec_pure.2 ?_
  subst ht
  exact ⟨rfl, hS.trans (hS.inv.setCpu rfl), (s.setProc_tableOnly _ _).trans ⟨rfl, rfl⟩,
    by simp [Machine.myproc], by simp [Machine.myproc], by simp [Machine.myproc]⟩

/-- The caller across a routine of `vm.c`. -/
theorem Keeps.myproc (hK : Keeps h X s t) :
    t.myproc.state = s.myproc.state ∧ t.myproc.pgdir = s.myproc.pgdir ∧
      t.myproc.sz = s.myproc.sz ∧ (t.myproc.alive ↔ s.myproc.alive) := by
  simp only [Machine.myproc, hK.cpu_proc, hK.state, hK.pgdir, hK.sz, hK.alive, true_and]

/-- **`growproc`.** -/
theorem growproc_spec {n : Int} (hI : Inv ∅ s) (hcur : s.myproc.alive) (hlo : -2 ^ 31 ≤ n)
    (hhi : n < 2 ^ 31) : K.Spec (growproc n) s fun ok t => Grown s t n ok := by
  have hsz : s.myproc.sz ≤ KERNBASE := hI.size _ hcur.1
  have hdir : (s.space s.myproc.pgdir).isSome = true := hI.dir _ hcur.1
  have hz : ¬ s.zombie s.myproc.pgdir := hI.alive_dir hcur
  have hup := pagesUp_le_upages hsz
  unfold growproc
  simp only [Code.spec_get_bind]
  split
  · -- more memory
    next hn =>
    rw [addSize_of_pos hsz hn hhi]
    refine (allocuvm_spec hI hdir hz).bind fun r s1 ha => ?_
    obtain ⟨hst, hpg, hs1, hal⟩ := ha.keeps.myproc
    have hS : Serves ∅ (others s) noPage s s1 :=
      ha.keeps.serves_others hI ha.inv hcur.1 fun _ _ hx => hx.1
    -- `allocuvm` touches the pages above the old size only
    have hkept : ∀ v, v < pagesUp s.myproc.sz → Kept s s1 s.myproc.pgdir v := fun v hv =>
      ha.keeps.page _ v hdir hz (by omega) fun hx => by
        have := hx.2.1
        omega
    split
    · -- no memory: the size stays
      next hr =>
      refine Code.spec_pure.2 ⟨hS, hst, hpg, by simp [hs1], fun _ v hv _ => hkept v hv,
        fun v h1 h2 => ?_, fun _ => Or.inl hn⟩
      rw [hs1] at h2
      omega
    · next hr =>
      -- the new size is the one asked for, and `switchuvm` keeps the table
      obtain ⟨hrr, hlt⟩ := ha.result.resolve_left hr
      have hrsz : r = s.myproc.sz + n.toNat := by
        rw [hrr]
        exact Nat.max_eq_right (Nat.le_add_right _ _)
      have hcp : s1.cpu.proc = s.cpu.proc := ha.keeps.cpu_proc
      rw [← hcp]
      refine (setSize_spec (X := noPage) ha.inv (hal.2 hcur) (by omega)).mono
        fun ok t hpost => ?_
      obtain ⟨hok, hS2, hT, hst2, hpg2, hsz2⟩ := hpost
      subst hok
      have hkt : ∀ v, Kept s1 t s.myproc.pgdir v := hT.kept ha.dir
      refine ⟨hS.trans ?_, hst2.trans hst, hpg2.trans hpg, ?_, fun _ v hv _ =>
        (hkept v hv).trans (hkt v), fun v h1 h2 => ?_, fun hx => by cases hx⟩
      · exact hS2.mono (fun q hq => by rwa [others, hcp]) fun _ _ _ _ hx => hx
      · rw [hsz2, hrsz]
        simp [grownSize, hn]
      · rw [hsz2, hrsz] at h2
        rw [(hkt v).content]
        exact (ha.new hr v h1 h2).1
  · next hn =>
    split
    · -- less memory
      next hneg =>
      rw [addSize_of_neg hsz hneg hlo]
      refine (deallocuvm_spec hI.toFrames hdir hsz).spec.bind fun r s1 hpost => ?_
      obtain ⟨hr, hU⟩ := hpost
      have hI1 := hU.inv hI
      obtain ⟨hst, hpg, hs1, hal⟩ := hU.keeps.myproc
      have hS : Serves ∅ (others s) noPage s s1 :=
        hU.keeps.serves_others hI hI1 hcur.1 fun _ _ hx => hx.1
      have hdir1 : (s1.space s.myproc.pgdir).isSome = true := by rw [hU.dirs]; exact hdir
      have hrsz : r = grownSize s.myproc.sz n := by
        rw [hr, grownSize, if_neg hn]
        simp only [KERNBASE] at hsz
        split <;> omega
      split
      · next h0 =>
        -- a size of 0 is taken for a failure
        refine Code.spec_pure.2 ⟨hS, hst, hpg, by simp [hs1], fun hx => ?_, fun v h1 h2 => ?_,
          fun _ => Or.inr ?_⟩
        · rcases hx with hx | hx
          · cases hx
          · omega
        · rw [hs1] at h2
          omega
        · rw [h0] at hr
          split at hr <;> omega
      · next h0 =>
        have hcp : s1.cpu.proc = s.cpu.proc := hU.keeps.cpu_proc
        rw [← hcp]
        refine (setSize_spec (X := noPage) hI1 (hal.2 hcur) (by omega)).mono
          fun ok t hpost => ?_
        obtain ⟨hok, hS2, hT, hst2, hpg2, hsz2⟩ := hpost
        subst hok
        have hkt : ∀ v, Kept s1 t s.myproc.pgdir v := hT.kept hdir1
        have hle : r ≤ s.myproc.sz := by omega
        refine ⟨hS.trans ?_, hst2.trans hst, hpg2.trans hpg, by rw [hsz2, hrsz]; rfl,
          fun _ v hv hv' => ?_, fun v h1 h2 => ?_, fun hx => by cases hx⟩
        · exact hS2.mono (fun q hq => by rwa [others, hcp]) fun _ _ _ _ hx => hx
        · rw [hsz2] at hv'
          refine (hU.keeps.page _ v hdir hz (by omega) fun hx => ?_).trans (hkt v)
          -- a page below the new size is not among those unmapped
          generalize (if n.natAbs ≤ s.myproc.sz then s.myproc.sz - n.natAbs
            else 2 ^ 32 + s.myproc.sz - n.natAbs) = m at hr hx
          obtain ⟨-, h1, h2⟩ := hx
          rcases Nat.le_total s.myproc.sz m with hm | hm
          · have := pagesUp_mono hm
            omega
          · rw [Nat.min_eq_right hm] at hr
            rw [hr] at hv'
            omega
        · rw [hsz2] at h2
          have := pagesUp_mono hle
          omega
    · -- no change
      next hneg =>
      have h0 : n = 0 := by omega
      subst h0
      refine (switchuvm_spec _ _).bind fun _ t ht => Code.spec_pure.2 ?_
      subst ht
      exact ⟨hI.setCpu rfl, rfl, rfl, by simp [grownSize, Machine.myproc],
        fun _ v _ _ => (s.setCpu_tableOnly _ _).kept hdir v,
        fun v h1 h2 => by simp only [Machine.myproc, Machine.setCpu_proc, Machine.setCpu_cpu] at *; omega,
        fun hx => by cases hx⟩

/-! ## Changes of state -/

/-- A process that keeps its memory, and is alive if it was. -/
structure Proc.Steady (p p' : Proc) : Prop where
  mem : (p'.sz, p'.pgdir, p'.kstack, p'.rss) = (p.sz, p.pgdir, p.kstack, p.rss)
  state : p'.state = p.state ∨ p.alive ∧ p'.alive

namespace Proc.Steady

variable {p p' : Proc}

theorem live (hs : p.Steady p') : p'.live ↔ p.live := by
  rcases hs.state with he | ⟨h1, h2⟩
  · simp only [Proc.live, he]
  · exact iff_of_true h2.1 h1.1

theorem alive (hs : p.Steady p') : p'.alive ↔ p.alive := by
  rcases hs.state with he | ⟨h1, h2⟩
  · simp only [Proc.alive, Proc.live, he]
  · exact iff_of_true h2 h1

theorem zombie (hs : p.Steady p') : p'.state = .ZOMBIE ↔ p.state = .ZOMBIE := by
  rcases hs.state with he | ⟨h1, h2⟩
  · rw [he]
  · exact iff_of_false h2.2 h1.2

end Proc.Steady

/-- Wake-ups, sleeps, kills and the like change no one's memory. -/
theorem Inv.steady (hI : Inv h s) (hT : TableOnly s t) (hp : ∀ p, (s.proc p).Steady (t.proc p)) :
    Inv h t ∧ (s.Recorded → t.Recorded) ∧ ∀ q, (s.proc q).alive → Spares X q s t := by
  have hm : ∀ p, (t.proc p).sz = (s.proc p).sz ∧ (t.proc p).pgdir = (s.proc p).pgdir ∧
      (t.proc p).kstack = (s.proc p).kstack ∧ (t.proc p).rss = (s.proc p).rss := by
    intro p
    have := (hp p).mem
    simpa only [Prod.mk.injEq] using this
  have hz : ∀ d, s.zombie d → t.zombie d ∨ s.space d = none := by
    rintro d ⟨p, hz, rfl⟩
    exact Or.inl ⟨p, (hp p).zombie.2 hz, (hm p).2.1⟩
  refine ⟨hI.table hT ?_ (fun p => Or.inl (hm p).2.2.1) hz, fun hR => hR.table hT hz, fun q hq => ?_⟩
  · refine ⟨fun p hl => ?_, fun p q h1 h2 he => ?_, fun p hl => ?_, fun p he => ?_⟩
    · rw [hT.space, (hm p).2.1]
      exact hI.dir p ((hp p).live.1 hl)
    · rw [(hm p).2.1, (hm q).2.1] at he
      exact hI.dir_inj p q ((hp p).live.1 h1) ((hp q).live.1 h2) he
    · rw [(hm p).1]
      exact hI.size p ((hp p).live.1 hl)
    · rw [(hm p).2.2.2]
      refine hI.embryo p ?_
      rcases (hp p).state with h1 | h1
      · rw [← h1, he]
      · exact absurd he h1.2.1.2
  · exact hT.spares (hI.dir q hq.1) ((hp q).alive.2 hq) (hm q).2.1 (hm q).1

theorem wakeup1_steady (chan : Nat) (s : Machine) (p : Nat) :
    (s.proc p).Steady ((wakeup1 chan s).proc p) := by
  unfold wakeup1
  simp only
  split
  · next hw =>
    refine ⟨rfl, Or.inr ⟨⟨⟨?_, ?_⟩, ?_⟩, ⟨⟨?_, ?_⟩, ?_⟩⟩⟩
    all_goals simp [hw.2.1]
  · exact ⟨rfl, Or.inl rfl⟩

theorem reparent_steady (i : Nat) (s : Machine) (p : Nat) :
    (s.proc p).Steady ((reparent i s).proc p) := by
  unfold reparent
  simp only
  have hw : (s.proc p).Steady ((if ∃ j, j < NPROC ∧ (s.proc j).parent = some i ∧
      (s.proc j).state = .ZOMBIE then wakeup1 s.initproc s else s).proc p) := by
    split
    · exact wakeup1_steady _ s p
    · exact ⟨rfl, Or.inl rfl⟩
  split
  · exact ⟨hw.mem, hw.state⟩
  · exact hw

/-! ## `exit` -/

/-- `freeSlot` of some of the slots `P`. -/
def FreesSlots (P : Nat → Prop) (s t : Machine) : Prop :=
  ∃ f, t = { s with slots := f } ∧ ∀ k, f k = s.slots k ∨ P k

theorem cleanLoop_spec {P : Nat → Prop} {sp : Space} (vs : List Nat) (s : Machine)
    (hP : ∀ v ∈ vs, ∀ e, sp.walk v = some e → e.swapped = true → P e.ppn) :
    K.Returns (cleanLoop sp vs) s fun _ t => FreesSlots P s t := by
  induction vs generalizing s with
  | nil => exact Code.returns_pure.2 ⟨s.slots, rfl, fun _ => Or.inl rfl⟩
  | cons v vs ih =>
    have ih := fun s => ih s fun v hv => hP v (List.mem_cons_of_mem _ hv)
    unfold cleanLoop
    split
    · exact ih s
    · next e hw =>
      split
      · next hsw =>
        unfold freeSlot
        split
        · simp only [Code.returns_modify_bind]
          refine (ih _).mono fun _ t hpost => ?_
          obtain ⟨f, ht, hf⟩ := hpost
          refine ⟨f, ht, fun k => ?_⟩
          rcases eq_or_ne k e.ppn with rfl | hk
          · exact Or.inr (hP v List.mem_cons_self e hw hsw)
          · rcases hf k with h1 | h1
            · exact Or.inl (by rw [h1]; simp [hk])
            · exact Or.inr h1
        · exact ih s
      · exact ih s

/-- A process becomes a zombie and the slots of its pages become free. -/
theorem Inv.toZombie {i : Nat} {f : Nat → Slot} (hI : Inv h s) (hi : (s.proc i).alive)
    (hf : ∀ k, f k = s.slots k ∨ ∃ v < UPAGES, (s.pte (s.proc i).pgdir v).swapped = true ∧
      (s.pte (s.proc i).pgdir v).ppn = k) :
    Serves h (· ≠ i) X s
      ((show Machine from { s with slots := f }).setProc i fun p => { p with state := .ZOMBIE }) := by
  have hS := hI.setProc (X := X) (i := i) (g := fun p => { p with state := .ZOMBIE })
    (fun _ => ⟨hi.1, rfl, hI.size i hi.1⟩) (fun he => by cases he) (Or.inl rfl)
    (fun hz => absurd hz hi.2)
  set u := s.setProc i fun p => { p with state := .ZOMBIE } with hu
  set t := (show Machine from { s with slots := f }).setProc i fun p => { p with state := .ZOMBIE }
    with ht
  have hz : u.zombie (s.proc i).pgdir := ⟨i, by simp [hu], by simp [hu]⟩
  -- a slot that some page is still in is not one of the freed ones
  have hkeep : ∀ o k, SlotUses u o k → f k = s.slots k := by
    intro o k ho
    refine (hf k).resolve_right ?_
    rintro ⟨v, hv, hsw, hk⟩
    have ho' : SlotUses s o k := ⟨fun hx => ho.1 (by
      obtain ⟨p, hp, hpd⟩ := hx
      have hpi : p ≠ i := fun he => hi.2 (he ▸ hp)
      exact ⟨p, by simpa [hu, hpi] using hp, by simpa [hu, hpi] using hpd⟩), ho.2⟩
    have := hI.slot_own.inj ho' (p := ((s.proc i).pgdir, v)) ⟨hI.alive_dir hi, hv, hsw, hk⟩
    rw [this] at ho
    exact ho.1 hz
  refine ⟨⟨{ hS.inv.toFrames with
      slot_own := ⟨hS.inv.slot_own.inj, fun {o k} ho hk => hS.inv.slot_own.busy ho ?_⟩ },
    hS.inv.toProcs.congr rfl rfl⟩, fun hR d v hzd hv hsw => ?_, fun q hq ha => ?_, hS.fewer,
    rfl, rfl⟩
  · exact (congrArg (fun sl => sl.is_free = true) (hkeep o k ho)).mp hk
  · obtain ⟨h1, h2, h3⟩ := hS.recorded hR d v hzd hv hsw
    refine ⟨h1, ?_, h3⟩
    exact (congrArg (fun sl => permOf sl.page_perm) (hkeep (d, v) _ ⟨hzd, hv, hsw, rfl⟩)).trans h2
  · have hq' := hS.spares q hq ha
    exact ⟨hq'.alive, hq'.pgdir, hq'.sz, fun v hv hn => ⟨⟨(hq'.page v hv hn).dir,
      (hq'.page v hv hn).content, (hq'.page v hv hn).perm⟩, (hq'.page v hv hn).out⟩⟩

/-- What `exit` does first under the lock: the parent may be waiting. -/
def wakeParent (i : Nat) (s : Machine) : Machine :=
  match (s.proc i).parent with
  | some p => wakeup1 p s
  | none => s

theorem wakeParent_steady (i : Nat) (s : Machine) :
    TableOnly s (wakeParent i s) ∧ (wakeParent i s).cpu = s.cpu ∧
      (wakeParent i s).initproc = s.initproc ∧
      ∀ p, (s.proc p).Steady ((wakeParent i s).proc p) := by
  unfold wakeParent
  split
  · exact ⟨⟨rfl, rfl⟩, rfl, rfl, wakeup1_steady _ s⟩
  · exact ⟨⟨rfl, rfl⟩, rfl, rfl, fun p => ⟨rfl, Or.inl rfl⟩⟩

/-- **`exit`.** The other processes do not notice. -/
theorem exit_spec (hI : Inv h s) (hcur : s.myproc.alive) :
    K.Spec exit s fun _ t => Serves h (others s) noPage s t ∧ t.myproc.state = .ZOMBIE := by
  unfold exit
  simp only [Code.spec_get_bind]
  split
  · exact Code.spec_panic _
  · refine (mayBlock_spec s).spec.bind fun _ s1 hpost => ?_
    obtain ⟨c, rl, hs1, hc⟩ := hpost
    subst hs1
    simp only [Code.spec_modify_bind]
    have hS1 : Serves h (others s) noPage s (s.setCpu c rl) := hI.setCpu hc
    set s1 := s.setCpu c rl with hs1
    set s2 : Machine := wakeParent s.cpu.proc s1 with hs2
    obtain ⟨hT2, hc2, hi2, hp2⟩ := wakeParent_steady s.cpu.proc s1
    obtain ⟨hI2, hR2, hsp2⟩ := hS1.inv.steady (X := noPage) hT2 hp2
    set s3 := reparent s.cpu.proc s2 with hs3
    have hT3 : TableOnly s2 s3 ∧ s3.cpu = s2.cpu ∧ s3.initproc = s2.initproc := by
      rw [hs3]
      unfold reparent
      refine ⟨⟨?_, ?_⟩, ?_, ?_⟩ <;> (simp only; split <;> rfl)
    obtain ⟨hT3, hc3, hi3⟩ := hT3
    obtain ⟨hI3, hR3, hsp3⟩ := hI2.steady (X := noPage) hT3 (reparent_steady s.cpu.proc s2)
    have hS3 : Serves h (others s) noPage s s3 := hS1.trans
      ⟨hI3, fun hR => hR3 (hR2 hR), fun q _ ha => (hsp2 q ha).trans (hsp3 q (hsp2 q ha).alive),
        fun q _ ha => (hp2 q).alive.1 ((reparent_steady s.cpu.proc s2 q).alive.1 ha),
        by rw [hc3, hc2], by rw [hi3, hi2]⟩
    have hcur3 : (s3.proc s.cpu.proc).alive := (hsp3 _ (hsp2 _ hcur).alive).alive
    -- the slots of the caller
    have hclean : K.Spec (swapAndClean s.cpu.proc) s3 fun _ t => FreesSlots (fun k =>
        ∃ v < UPAGES, (s3.pte (s3.proc s.cpu.proc).pgdir v).swapped = true ∧
          (s3.pte (s3.proc s.cpu.proc).pgdir v).ppn = k) s3 t := by
      unfold swapAndClean
      simp only [Code.spec_get_bind]
      split
      · exact Code.spec_pure.2 ⟨s3.slots, rfl, fun _ => Or.inl rfl⟩
      · obtain ⟨sp, hsp⟩ := Option.isSome_iff_exists.1 (hI3.dir _ hcur3.1)
        refine Code.Spec.bind_run (pgdir_returns hsp) ?_
        refine (cleanLoop_spec _ _ fun v hv e hw hsw => ?_).spec
        have he : s3.pte (s3.proc s.cpu.proc).pgdir v = e := by
          rw [Machine.pte_of_space hsp]
          exact (Space.walk_eq_some.1 hw).2
        rw [List.mem_range'_1] at hv
        exact ⟨v, by omega, by rw [he, hsw], by rw [he]⟩
    refine hclean.bind fun _ s4 hpost => (Code.spec_modify _).2 ?_
    obtain ⟨f, hs4, hf⟩ := hpost
    subst hs4
    have hz := hI3.toZombie (X := noPage) hcur3 hf
    refine ⟨hS3.trans hz, ?_⟩
    have hcp : s3.cpu.proc = s.cpu.proc := hS3.cpu_proc
    simp [Machine.myproc, hcp]

/-! ## `wait` -/

theorem reap_spec {i : Nat} (hI : Inv h s) (hi : (s.proc i).state = .ZOMBIE) :
    K.Spec (reap i) s fun _ t => Serves h everyone noPage s t := by
  have hlive : (s.proc i).live := ⟨by rw [hi]; decide, by rw [hi]; decide⟩
  have hne : ∀ q, (s.proc q).alive → q ≠ i := fun q hq he => hq.2 (he ▸ hi)
  unfold reap
  simp only [Code.spec_get_bind]
  by_cases h0 : (s.proc i).kstack = 0
  · rw [h0]
    exact (kfree_zero (Q := fun _ _ => False) hI).bind fun _ _ hx => hx.elim
  · set g : Proc → Proc := fun p => { p with kstack := 0 } with hg
    obtain ⟨hlo, hhi, hS⟩ := (hI.setProc (i := i) (g := g) (X := noPage)
      (fun _ => ⟨hlive, rfl, hI.size i hlive⟩) (hI.embryo i) (Or.inr rfl)
      fun hz => ⟨hz, rfl⟩).dropStack hI rfl h0
    refine Code.Spec.bind_run (kfree_returns hlo hhi) ?_
    simp only [Code.spec_modify_bind]
    have heq : (s.kfreed (s.proc i).kstack).setProc i (fun p => { p with kstack := 0 }) =
        (s.setProc i g).kfreed (s.proc i).kstack := rfl
    rw [heq]
    set s1 := (s.setProc i g).kfreed (s.proc i).kstack with hs1
    have hzi : (s1.proc i).state = .ZOMBIE ∧ (s1.proc i).pgdir = (s.proc i).pgdir := by
      simp [hs1, Machine.kfreed, hg, hi]
    have hl1 : (s1.proc i).live := ⟨by rw [hzi.1]; decide, by rw [hzi.1]; decide⟩
    have hd1 : (s1.space (s.proc i).pgdir).isSome = true := by
      rw [← hzi.2]
      exact hS.inv.dir i hl1
    refine (freevm_spec hS.inv.toFrames hd1).spec.bind fun _ s2 hpost => ?_
    obtain ⟨hF, hfr, hnone⟩ := hpost
    simp only [Code.spec_modify_bind]
    refine Code.spec_pure.2 ?_
    -- the zombie has no directory any more, and leaves the table
    set t := s2.setProc i fun p =>
      { p with pid := 0, parent := none, killed := false, state := .UNUSED } with ht
    have hother : ∀ p, p ≠ i → t.proc p = s1.proc p := fun p hp => by simp [ht, hp, hfr.proc]
    have hself : (t.proc i).state = .UNUSED := by simp [ht]
    have hT : TableOnly s2 t := s2.setProc_tableOnly i _
    have hpi : ∀ p, (t.proc p).live → p ≠ i := fun p hl he => hl.1 (he ▸ hself)
    have hdir : ∀ p, p ≠ i → (s1.proc p).live → (s1.proc p).pgdir ≠ (s.proc i).pgdir :=
      fun p hp hl he => hp (hS.inv.dir_inj p i hl hl1 (he.trans hzi.2.symm))
    have hzd : ∀ d, s2.zombie d → t.zombie d ∨ s2.space d = none := by
      rintro d ⟨p, hp, rfl⟩
      rw [hfr.proc] at hp
      rcases eq_or_ne p i with rfl | hne
      · exact Or.inr (by rw [hfr.proc, hzi.2]; exact hnone)
      · exact Or.inl ⟨p, by rw [hother p hne, hp], by rw [hother p hne, hfr.proc]⟩
    have hP : Procs t := {
      dir := fun p hl => by
        have hp := hpi p hl
        rw [hother p hp] at hl ⊢
        rw [hT.space, hfr.other _ (hdir p hp hl)]
        exact hS.inv.dir p hl
      dir_inj := fun p q hl hl' he => by
        have hp := hpi p hl
        have hq := hpi q hl'
        rw [hother p hp] at hl he
        rw [hother q hq] at hl' he
        exact hS.inv.dir_inj p q hl hl' he
      size := fun p hl => by
        have hp := hpi p hl
        rw [hother p hp] at hl ⊢
        exact hS.inv.size p hl
      embryo := fun p he => by
        have hp : p ≠ i := fun hx => by rw [hx, hself] at he; cases he
        rw [hother p hp] at he ⊢
        exact hS.inv.embryo p he }
    have hK := hfr.keeps fun hx => by
      obtain ⟨v, _, hn⟩ := hx
      exact absurd trivial hn
    refine ⟨⟨hF.table hT (fun p => ?_) hzd, hP⟩, fun hR => (hK.recorded (hS.recorded hR)).table hT hzd,
      fun q _ hq => ?_, fun q _ hq => ?_, ?_, ?_⟩
    · rcases eq_or_ne p i with rfl | hp
      · exact Or.inl (by simp [ht])
      · exact Or.inl (by simp [ht, hp])
    · have hqi := hne q hq
      have h1 := hS.spares q hqi hq
      have hdq := hdir q hqi h1.alive.1
      have h2 : Spares noPage q s1 s2 := (hK.spares hS.inv h1.alive).mono fun v hx => hdq hx.1
      refine h1.trans (h2.trans (Machine.setProc_spares h2.alive ?_ hqi))
      rw [hfr.proc, hfr.other _ hdq]
      exact hS.inv.dir q h1.alive.1
    · have hqi := hpi q hq.1
      rw [hother q hqi] at hq
      exact hS.fewer q hqi hq
    · rw [show t.cpu = s2.cpu from rfl, hfr.cpu, hS.cpu_proc]
    · have := hfr.kernel
      simp only [Prod.mk.injEq] at this
      exact this.2.1.trans hS.initproc

/-- Only the process `i` changes, and only its state or its marks. -/
theorem Inv.setSteady {i : Nat} {g : Proc → Proc} (hI : Inv h s)
    (hg : (s.proc i).Steady (g (s.proc i))) : Serves h everyone X s (s.setProc i g) := by
  have hp : ∀ p, (s.proc p).Steady ((s.setProc i g).proc p) := by
    intro p
    rcases eq_or_ne p i with rfl | hp
    · simpa using hg
    · simpa [hp] using ⟨rfl, Or.inl rfl⟩
  obtain ⟨h1, h2, h3⟩ := hI.steady (X := X) (s.setProc_tableOnly i g) hp
  exact ⟨h1, h2, fun q _ hq => h3 q hq, fun q _ hq => (hp q).alive.1 hq, rfl, rfl⟩

/-- **`wait`**, reaping a child or not, spares every process. -/
theorem wait_spec (hI : Inv h s) (hcur : s.myproc.alive) :
    K.Spec wait s fun _ t => Serves h everyone noPage s t := by
  unfold wait
  simp only [Code.spec_get_bind, Code.spec_modify_bind]
  have hS := hI.setSteady (X := noPage) (i := s.cpu.proc) (g := fun p => { p with chan := none })
    ⟨rfl, Or.inl rfl⟩
  set s1 := s.setProc s.cpu.proc fun p => { p with chan := none } with hs1
  split
  · next i hi =>
    have hz : (s.proc i).state = .ZOMBIE := by
      have := List.find?_some hi
      simp only [decide_eq_true_eq] at this
      exact this.2
    have hic : i ≠ s.cpu.proc := fun he => hcur.2 (by rw [Machine.myproc, ← he, hz])
    have hp : s1.proc i = s.proc i := by simp [hs1, hic]
    exact (reap_spec hS.inv (by rw [hp, hz])).mono fun _ t ht => hS.trans ht
  · split
    · exact Code.spec_pure.2 hS
    · simp only [Code.spec_modify_bind]
      refine Code.spec_pure.2 (hS.trans (hS.inv.setSteady ⟨rfl, Or.inr ?_⟩))
      have hal := (hS.spares _ trivial hcur).alive
      exact ⟨hal, ⟨by simp, by simp⟩, by simp⟩

/-! ## Pipes -/

/-- The pipe `i` gets the held frame `f`. -/
theorem Inv.openPipe {i f : Nat} (hI : Inv (insert f h) s) (hf : f ∉ h) :
    Inv h { s with pipe := Function.update s.pipe i (some f) } := by
  have hheld : Uses (insert f h) s (.held f) f := ⟨Set.mem_insert f h, rfl⟩
  have huses : ∀ o g, Uses h { s with pipe := Function.update s.pipe i (some f) } o g →
      (o = .pipe i ∧ g = f) ∨ (Uses (insert f h) s o g ∧ o ≠ .held f) := by
    rintro (⟨d, v⟩ | ⟨d, j⟩ | d | p | j | o) g hg
    case pipe =>
      rcases eq_or_ne j i with rfl | hj
      · simp only [Uses, Function.update_self, Option.some.injEq] at hg
        exact Or.inl ⟨rfl, hg.symm⟩
      · simp only [Uses, Function.update_of_ne hj] at hg
        exact Or.inr ⟨hg, by simp⟩
    case held =>
      refine Or.inr ⟨⟨Set.mem_insert_of_mem f hg.1, hg.2⟩, fun he => hf ?_⟩
      cases he
      exact hg.1
    all_goals exact Or.inr ⟨hg, by simp⟩
  exact ⟨{ hI.toFrames with
    own := hI.own.pass hheld huses fun _ hy => hy
    range_used := fun o g hg => by
      rcases huses o g hg with ⟨-, rfl⟩ | ⟨hg, -⟩
      · exact hI.range_used _ _ hheld
      · exact hI.range_used o g hg
    slot_own := hI.slot_own
    slot_range := hI.slot_range }, hI.toProcs.congr rfl rfl⟩

theorem pipealloc_spec (i : Nat) (hI : Inv h s) :
    K.Returns (pipealloc i) s fun _ t => Serves h everyone noPage s t := by
  unfold pipealloc
  simp only [Code.returns_get_bind]
  split
  · exact Code.returns_pure.2 ((Keeps.refl hI).serves hI hI)
  · refine (kalloc_spec hI).bind fun r t ha => ?_
    have hK : Keeps h noPage s t := ha.keeps hI
    cases r with
    | none => exact Code.returns_pure.2 (hK.serves hI ha.1)
    | some f =>
      obtain ⟨hIt, -, hf, -⟩ := ha
      simp only [Code.returns_modify_bind]
      have hK2 : Keeps h noPage s t := hK
      refine Code.returns_pure.2 ⟨hIt.openPipe hf, fun hR => hK2.recorded hR, fun q _ hq => ?_,
        fun q _ hq => hK2.alive.1 hq, hK2.cpu_proc, hK2.initproc⟩
      exact { hK2.spares hI hq with
        page := fun v hv hn => ⟨⟨((hK2.spares hI hq).page v hv hn).dir,
          ((hK2.spares hI hq).page v hv hn).content, ((hK2.spares hI hq).page v hv hn).perm⟩,
          ((hK2.spares hI hq).page v hv hn).out⟩ }

/-- Pipe `i` gives its frame up. -/
theorem Inv.closePipe {i f : Nat} (hI : Inv h s) (hi : s.pipe i = some f) :
    let t : Machine := { s with pipe := Function.update s.pipe i none }
    Inv h t ∧ Loose h t f := by
  intro t
  have huses : ∀ o g, Uses h t o g → Uses h s o g ∧ o ≠ .pipe i := by
    rintro (⟨d, v⟩ | ⟨d, j⟩ | d | p | j | o) g hg
    case pipe =>
      rcases eq_or_ne j i with rfl | hj
      · simp [Uses, t] at hg
      · simp only [Uses, t, Function.update_of_ne hj] at hg
        exact ⟨hg, by simpa using hj⟩
    all_goals exact ⟨hg, by simp⟩
  have huse : Uses h s (.pipe i) f := hi
  exact ⟨⟨{ hI.toFrames with
    own := hI.own.mono (fun o g hg => (huses o g hg).1) fun _ hy => hy
    range_used := fun o g hg => hI.range_used o g (huses o g hg).1
    slot_own := hI.slot_own
    slot_range := hI.slot_range }, hI.toProcs.congr rfl rfl⟩, {
    unused := fun o ho => (huses o f ho).2 (hI.own.inj (huses o f ho).1 huse)
    not_free := hI.own.busy huse
    lo := (hI.range_used _ _ huse).1
    hi := (hI.range_used _ _ huse).2 }⟩

theorem pipeclose_spec (i : Nat) (hI : Inv h s) :
    K.Returns (pipeclose i) s fun _ t => Serves h everyone noPage s t := by
  unfold pipeclose
  simp only [Code.returns_get_bind]
  split
  · exact Code.returns_pure.2 ((Keeps.refl hI).serves hI hI)
  · next f hf =>
    simp only [Code.returns_modify_bind]
    obtain ⟨hI1, hL⟩ := hI.closePipe hf
    have hS1 : Serves h everyone noPage s { s with pipe := Function.update s.pipe i none } := by
      refine ⟨hI1, fun hR => hR, fun q _ hq => ?_, fun _ _ hq => hq, rfl, rfl⟩
      exact ⟨hq, rfl, rfl, fun v _ _ => ⟨⟨hI.dir q hq.1, rfl, rfl⟩, fun _ => rfl⟩⟩
    exact (kfree_spec hI1 hL).mono fun _ t hE => hS1.trans ((hE.keeps hI1).serves hI1 hE.1)

/-! ## Switching and killing -/

/-- **A context switch** to process `q`. -/
theorem schedule_spec {q : Nat} (hI : Inv h s) :
    K.Spec (schedule q) s fun ok t => Inv h t ∧ (s.Recorded → t.Recorded) ∧
      (∀ p, (s.proc p).alive ↔ (t.proc p).alive) ∧ (∀ p, (s.proc p).alive → Spares noPage p s t) ∧
      (ok = true → t.cpu.proc = q ∧ (t.proc q).state = .RUNNING) := by
  unfold schedule
  simp only [Code.spec_modify_bind, Code.spec_get_bind]
  set s1 := (if s.myproc.state = .RUNNING then
      s.setProc s.cpu.proc fun p => { p with state := .RUNNABLE } else s) with hs1
  have h1 : TableOnly s s1 ∧ ∀ p, (s.proc p).Steady (s1.proc p) := by
    rw [hs1]
    split
    · next hr =>
      refine ⟨s.setProc_tableOnly _ _, fun p => ?_⟩
      rcases eq_or_ne p s.cpu.proc with rfl | hp
      · rw [Machine.myproc] at hr
        exact ⟨by simp, Or.inr ⟨⟨⟨by rw [hr]; decide, by rw [hr]; decide⟩, by rw [hr]; decide⟩,
          ⟨⟨by simp, by simp⟩, by simp⟩⟩⟩
      · exact ⟨by simp [hp], Or.inl (by simp [hp])⟩
    · exact ⟨⟨rfl, rfl⟩, fun p => ⟨rfl, Or.inl rfl⟩⟩
  obtain ⟨hT1, hp1⟩ := h1
  obtain ⟨hI1, hR1, hsp1⟩ := hI.steady (X := noPage) hT1 hp1
  split
  · next hq =>
    simp only [Code.spec_modify_bind]
    set s2 := s1.setCpu { s1.cpu with proc := q } s1.hist.reloads with hs2
    refine (switchuvm_spec q s2).bind fun _ s3 hs3 => ?_
    simp only [Code.spec_modify_bind]
    refine Code.spec_pure.2 ?_
    subst hs3
    set s3 := s2.setCpu { s2.cpu with cr3 := (s2.proc q).pgdir } [] with hs3
    have hT3 : TableOnly s1 (s3.setProc q fun p => { p with state := .RUNNING }) :=
      ((s1.setCpu_tableOnly _ _).trans (s2.setCpu_tableOnly _ _)).trans (s3.setProc_tableOnly q _)
    have hp3 : ∀ p, (s1.proc p).Steady
        ((s3.setProc q fun p => { p with state := .RUNNING }).proc p) := by
      intro p
      rcases eq_or_ne p q with rfl | hpq
      · exact ⟨by simp [hs3, hs2], Or.inr ⟨⟨⟨by rw [hq.2]; decide, by rw [hq.2]; decide⟩,
          by rw [hq.2]; decide⟩, ⟨⟨by simp, by simp⟩, by simp⟩⟩⟩
      · exact ⟨by simp [hs3, hs2, hpq], Or.inl (by simp [hs3, hs2, hpq])⟩
    obtain ⟨hI3, hR3, hsp3⟩ := hI1.steady (X := noPage) hT3 hp3
    exact ⟨hI3, fun hR => hR3 (hR1 hR), fun p => (hp1 p).alive.symm.trans (hp3 p).alive.symm,
      fun p hp => (hsp1 p hp).trans (hsp3 p (hsp1 p hp).alive), fun _ => by simp [hs3, hs2]⟩
  · exact Code.spec_pure.2 ⟨hI1, hR1, fun p => (hp1 p).alive.symm, hsp1, fun hx => by cases hx⟩

theorem kill_spec (pid : Nat) (hI : Inv h s) :
    K.Returns (kill pid) s fun _ t => Serves h everyone noPage s t := by
  unfold kill
  simp only [Code.returns_get_bind]
  split
  · exact Code.returns_pure.2 ((Keeps.refl hI).serves hI hI)
  · next i _ =>
    simp only [Code.returns_modify_bind]
    refine Code.returns_pure.2 (hI.setSteady ⟨rfl, ?_⟩)
    simp only
    split
    · next hs =>
      exact Or.inr ⟨⟨⟨by rw [hs]; decide, by rw [hs]; decide⟩, by rw [hs]; decide⟩,
        ⟨⟨by simp, by simp⟩, by simp⟩⟩
    · exact Or.inl rfl

end Xv6.Swap
