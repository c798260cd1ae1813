/-
Changes to the process table, and what another process sees of a system call.

A routine of `proc.c` alternates between routines of `vm.c`, which leave the
process table alone up to `rss`, and updates of the table, which leave memory
alone (`TableOnly`). `Spares X q s t` is what survives both kinds of step for a
process `q` that is alive: it stays alive, with its directory and its size, and
its pages outside `X` are kept.
-/
import Xv6.Swap.Copy

set_option autoImplicit false

namespace Xv6.Swap

open Xv6.Lib

variable {h : Set Nat} {s t u : Machine} {X Y : Nat → Nat → Prop}

/-! ## Updates of the table -/

/-- Memory, the page tables, the slots and the disk are the same. -/
structure TableOnly (s t : Machine) : Prop where
  frames : (t.kend, t.freelist, t.space, t.pipe, t.mem) = (s.kend, s.freelist, s.space, s.pipe, s.mem)
  slots : (t.slots, t.disk, t.hist.filled) = (s.slots, s.disk, s.hist.filled)

namespace TableOnly

theorem space (hT : TableOnly s t) : t.space = s.space := by
  have := hT.frames
  simp only [Prod.mk.injEq] at this
  exact this.2.2.1

theorem pte (hT : TableOnly s t) (d v : Nat) : t.pte d v = s.pte d v := by
  simp only [Machine.pte, hT.space]

theorem tab (hT : TableOnly s t) (d i : Nat) : t.tab d i = s.tab d i := by
  simp only [Machine.tab, hT.space]

/-- A page is where it was. -/
theorem kept (hT : TableOnly s t) {d : Nat} (hd : (s.space d).isSome = true) (v : Nat) :
    Kept s t d v := by
  have hf := hT.frames
  have hs := hT.slots
  simp only [Prod.mk.injEq] at hf hs
  refine ⟨⟨by rw [hT.space, hd], ?_, by rw [hT.pte]⟩, fun _ => hT.pte d v⟩
  simp only [Machine.content, Machine.slotPage, hT.pte, hf.2.2.2.2, hs.2.1]

theorem trans (hst : TableOnly s t) (htu : TableOnly t u) : TableOnly s u :=
  ⟨htu.frames.trans hst.frames, htu.slots.trans hst.slots⟩

end TableOnly

theorem Machine.setProc_tableOnly (s : Machine) (i : Nat) (g : Proc → Proc) :
    TableOnly s (s.setProc i g) := ⟨rfl, rfl⟩

theorem Machine.setCpu_tableOnly (s : Machine) (c : Cpu) (rl : List Nat) :
    TableOnly s (s.setCpu c rl) := ⟨rfl, rfl⟩

/-- The frames stay with their owners when no kernel stack appears, and the slots
when no zombie disappears but those whose directory is gone. -/
theorem Frames.table (hF : Frames h s) (hT : TableOnly s t)
    (hk : ∀ p, (t.proc p).kstack = (s.proc p).kstack ∨ (t.proc p).kstack = 0)
    (hz : ∀ d, s.zombie d → t.zombie d ∨ s.space d = none) : Frames h t := by
  have hf := hT.frames
  have hs := hT.slots
  simp only [Prod.mk.injEq] at hf hs
  obtain ⟨h1, h2, h3, h4, h5⟩ := hf
  have huses : ∀ o f, Uses h t o f → Uses h s o f := by
    rintro (⟨d, v⟩ | ⟨d, i⟩ | d | p | i | g) f hu
    · simpa only [Uses, hT.pte] using hu
    · simpa only [Uses, hT.tab] using hu
    · simpa only [Uses, h3] using hu
    · obtain ⟨hu, hne⟩ := hu
      rcases hk p with he | he
      · exact ⟨by rw [← he, hu], hne⟩
      · exact absurd (hu.symm.trans he) hne
    · simpa only [Uses, h4] using hu
    · exact hu
  have hslots : ∀ o k, SlotUses t o k → SlotUses s o k := by
    rintro ⟨d, v⟩ k ⟨hzd, hv, hsw, hkk⟩
    rw [hT.pte] at hsw hkk
    refine ⟨fun hx => ?_, hv, hsw, hkk⟩
    rcases hz d hx with hx | hx
    · exact hzd hx
    · simp only [Machine.pte, hx, Pte.swapped_zero] at hsw
      cases hsw
  exact {
    own := hF.own.mono huses fun _ hy => by rwa [h2] at hy
    nodup := by rw [h2]; exact hF.nodup
    range_free := by rw [h1, h2]; exact hF.range_free
    range_used := fun o f hu => by rw [h1]; exact hF.range_used o f (huses o f hu)
    kend_pos := by rw [h1]; exact hF.kend_pos
    tab_zero := fun d v hn => by
      rw [hT.tab] at hn
      rw [hT.pte, hF.tab_zero d v hn]
    slot_own := hF.slot_own.mono hslots fun _ hy => by rwa [hs.1] at hy
    slot_range := fun o k hu => hF.slot_range o k (hslots o k hu) }

theorem Inv.table (hI : Inv h s) (hT : TableOnly s t) (hP : Procs t)
    (hk : ∀ p, (t.proc p).kstack = (s.proc p).kstack ∨ (t.proc p).kstack = 0)
    (hz : ∀ d, s.zombie d → t.zombie d ∨ s.space d = none) : Inv h t :=
  ⟨hI.toFrames.table hT hk hz, hP⟩

theorem Machine.Recorded.table (hR : s.Recorded) (hT : TableOnly s t)
    (hz : ∀ d, s.zombie d → t.zombie d ∨ s.space d = none) : t.Recorded := by
  have hs := hT.slots
  simp only [Prod.mk.injEq] at hs
  intro d v hzd hv hsw
  rw [hT.pte] at hsw ⊢
  rw [hs.1, hs.2.2]
  refine hR d v (fun hx => ?_) hv hsw
  rcases hz d hx with hx | hx
  · exact hzd hx
  · simp only [Machine.pte, hx, Pte.swapped_zero] at hsw
    cases hsw

/-- One process changes, and gets no new address space. -/
theorem Procs.setProc (hP : Procs s) {i : Nat} {g : Proc → Proc}
    (hl : (g (s.proc i)).live → (s.proc i).live ∧ (g (s.proc i)).pgdir = (s.proc i).pgdir ∧
      (g (s.proc i)).sz ≤ KERNBASE)
    (he : (g (s.proc i)).state = .EMBRYO → (g (s.proc i)).rss = 0#32) :
    Procs (s.setProc i g) := by
  have hp : ∀ p, ((s.setProc i g).proc p).live →
      (s.proc p).live ∧ ((s.setProc i g).proc p).pgdir = (s.proc p).pgdir ∧
        ((s.setProc i g).proc p).sz ≤ KERNBASE := by
    intro p hp
    rcases eq_or_ne p i with rfl | hne
    · simp only [Machine.setProc_proc, Function.update_self] at hp ⊢
      exact hl hp
    · have hp' : (s.setProc i g).proc p = s.proc p := by simp [hne]
      rw [hp'] at hp ⊢
      exact ⟨hp, rfl, hP.size p hp⟩
  refine ⟨fun p hlp => ?_, fun p q hlp hlq hpq => ?_, fun p hlp => (hp p hlp).2.2, fun p hlp => ?_⟩
  · rw [(hp p hlp).2.1]
    exact hP.dir p (hp p hlp).1
  · rw [(hp p hlp).2.1, (hp q hlq).2.1] at hpq
    exact hP.dir_inj p q (hp p hlp).1 (hp q hlq).1 hpq
  · rcases eq_or_ne p i with rfl | hne
    · simp only [Machine.setProc_proc, Function.update_self] at hlp ⊢
      exact he hlp
    · simp only [Machine.setProc_proc, Function.update_of_ne hne] at hlp ⊢
      exact hP.embryo p hlp

/-- Process `i` gets the directory `d`, which no other process has. -/
theorem Procs.newSpace (hP : Procs s) {i d : Nat} {g : Proc → Proc}
    (hd : (s.space d).isSome = true) (hno : ∀ p, (s.proc p).live → (s.proc p).pgdir ≠ d)
    (hg : (g (s.proc i)).pgdir = d) (hsz : (g (s.proc i)).sz ≤ KERNBASE)
    (he : (g (s.proc i)).state ≠ .EMBRYO) : Procs (s.setProc i g) := by
  have hother : ∀ p, p ≠ i → (s.setProc i g).proc p = s.proc p := fun p hp => by simp [hp]
  have hself : (s.setProc i g).proc i = g (s.proc i) := by simp
  refine ⟨fun p hlp => ?_, fun p q hlp hlq hpq => ?_, fun p hlp => ?_, fun p hlp => ?_⟩
  · rcases eq_or_ne p i with rfl | hne
    · rw [hself, hg]; exact hd
    · rw [hother p hne] at hlp ⊢
      exact hP.dir p hlp
  · by_cases hp : p = i <;> by_cases hq : q = i
    · rw [hp, hq]
    · rw [hp, hself, hother q hq, hg] at hpq
      rw [hother q hq] at hlq
      exact absurd hpq.symm (hno q hlq)
    · rw [hq, hself, hother p hp, hg] at hpq
      rw [hother p hp] at hlp
      exact absurd hpq (hno p hlp)
    · rw [hother p hp, hother q hq] at hpq
      rw [hother p hp] at hlp
      rw [hother q hq] at hlq
      exact hP.dir_inj p q hlp hlq hpq
  · rcases eq_or_ne p i with rfl | hne
    · rw [hself]; exact hsz
    · rw [hother p hne] at hlp ⊢
      exact hP.size p hlp
  · rcases eq_or_ne p i with rfl | hne
    · rw [hself] at hlp; exact absurd hlp he
    · rw [hother p hne] at hlp ⊢
      exact hP.embryo p hlp

/-- The held frame `f` becomes the kernel stack of process `i`. -/
theorem Inv.kstack {i f : Nat} (hI : Inv (insert f h) s) (hf : f ∉ h) :
    Inv h (s.setProc i fun p => { p with kstack := f }) := by
  set t := s.setProc i fun p => { p with kstack := f } with ht
  have hother : ∀ p, p ≠ i → t.proc p = s.proc p := fun p hp => by simp [ht, hp]
  have hself : t.proc i = { s.proc i with kstack := f } := by simp [ht]
  have hz : ∀ d, t.zombie d ↔ s.zombie d := by
    refine fun d => exists_congr fun p => ?_
    rcases eq_or_ne p i with rfl | hp
    · rw [hself]
    · rw [hother p hp]
  have hheld : Uses (insert f h) s (.held f) f := ⟨Set.mem_insert f h, rfl⟩
  have huses : ∀ o g, Uses h t o g →
      (o = .kstack i ∧ g = f) ∨ (Uses (insert f h) s o g ∧ o ≠ .held f) := by
    rintro (⟨d, v⟩ | ⟨d, j⟩ | d | p | j | o) g hg
    case kstack =>
      rcases eq_or_ne p i with rfl | hp
      · have := hg.1
        rw [hself] at this
        exact Or.inl ⟨rfl, this.symm⟩
      · rw [Uses, hother p hp] at hg
        exact Or.inr ⟨hg, by simp⟩
    case held =>
      refine Or.inr ⟨⟨Set.mem_insert_of_mem f hg.1, hg.2⟩, fun he => hf ?_⟩
      cases he
      exact hg.1
    all_goals exact Or.inr ⟨hg, by simp⟩
  refine ⟨{ hI.toFrames with
    own := hI.own.pass hheld huses fun _ hy => hy
    range_used := fun o g hg => by
      rcases huses o g hg with ⟨-, rfl⟩ | ⟨hg, -⟩
      · exact hI.range_used _ _ hheld
      · exact hI.range_used o g hg
    slot_own := hI.slot_own.mono (fun o k ho => ⟨fun hx => ho.1 ((hz _).2 hx), ho.2⟩) fun _ hk => hk
    slot_range := fun o k ho => hI.slot_range o k ⟨fun hx => ho.1 ((hz _).2 hx), ho.2⟩ },
    hI.toProcs.setProc (fun hl => ⟨hl, rfl, hI.size i hl⟩) (hI.embryo i)⟩

/-! ## Other processes -/

/-- A process that runs, can run, or waits to. -/
def Proc.alive (p : Proc) : Prop := p.live ∧ p.state ≠ .ZOMBIE

/-- A process that is alive shares its directory with no zombie. -/
theorem Inv.alive_dir {q : Nat} (hI : Inv h s) (hq : (s.proc q).alive) :
    ¬ s.zombie (s.proc q).pgdir := by
  rintro ⟨p, hp, hpq⟩
  have := hI.dir_inj p q ⟨by rw [hp]; decide, by rw [hp]; decide⟩ hq.1 hpq
  subst this
  exact hq.2 hp

/-- Process `q` goes on with the address space it had, but for the pages `X`. -/
structure Spares (X : Nat → Nat → Prop) (q : Nat) (s t : Machine) : Prop where
  alive : (t.proc q).alive
  pgdir : (t.proc q).pgdir = (s.proc q).pgdir
  sz : (t.proc q).sz = (s.proc q).sz
  page : ∀ v < UPAGES, ¬ X (s.proc q).pgdir v → Kept s t (s.proc q).pgdir v

namespace Spares

variable {q : Nat}

theorem trans (hst : Spares X q s t) (htu : Spares X q t u) : Spares X q s u where
  alive := htu.alive
  pgdir := htu.pgdir.trans hst.pgdir
  sz := htu.sz.trans hst.sz
  page v hv hn := by
    refine (hst.page v hv hn).trans ?_
    rw [← hst.pgdir]
    rw [← hst.pgdir] at hn
    exact htu.page v hv hn

theorem mono (hst : Spares X q s t) (hX : ∀ v, X (s.proc q).pgdir v → Y (s.proc q).pgdir v) :
    Spares Y q s t :=
  { hst with page := fun v hv hn => hst.page v hv fun hx => hn (hX v hx) }

end Spares

theorem Keeps.alive {q : Nat} (hK : Keeps h X s t) : (t.proc q).alive ↔ (s.proc q).alive := by
  simp only [Proc.alive, hK.live, hK.state]

theorem Keeps.spares {q : Nat} (hK : Keeps h X s t) (hI : Inv h s) (hq : (s.proc q).alive) :
    Spares X q s t where
  alive := hK.alive.2 hq
  pgdir := hK.pgdir q
  sz := hK.sz q
  page v hv hn := hK.page _ v (hI.dir q hq.1) (hI.alive_dir hq) hv hn

theorem TableOnly.spares {q : Nat} (hT : TableOnly s t)
    (hs : (s.space (s.proc q).pgdir).isSome = true) (hq : (t.proc q).alive)
    (hd : (t.proc q).pgdir = (s.proc q).pgdir) (hsz : (t.proc q).sz = (s.proc q).sz) :
    Spares X q s t where
  alive := hq
  pgdir := hd
  sz := hsz
  page v _ _ := hT.kept hs v

/-- An update of another process. -/
theorem Machine.setProc_spares {q i : Nat} {g : Proc → Proc} (hq : (s.proc q).alive)
    (hs : (s.space (s.proc q).pgdir).isSome = true) (hne : q ≠ i) :
    Spares X q s (s.setProc i g) :=
  (s.setProc_tableOnly i g).spares hs (by simpa [hne] using hq) (by simp [hne]) (by simp [hne])

end Xv6.Swap
