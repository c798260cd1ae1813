/-
`allocproc` and `fork`.

Every process that is alive when `fork` is called goes on as before, the caller
included, whether `fork` succeeds or not. The child has a directory of its own,
so by the invariant it shares no frame and no slot. Whether its pages have the
bytes of the caller's is decided in `copyuvm`.
-/
import Xv6.Swap.Table

set_option autoImplicit false

namespace Xv6.Swap

open Xv6.Lib

variable {h : Set Nat} {s t u : Machine} {X Y : Nat → Nat → Prop} {A : Nat → Prop}

/-! ## System calls -/

/-- What a system call keeps: the invariant, and the processes `A` but for the
pages `X`. -/
structure Serves (h : Set Nat) (A : Nat → Prop) (X : Nat → Nat → Prop) (s t : Machine) : Prop where
  inv : Inv h t
  recorded : s.Recorded → t.Recorded
  spares : ∀ q, A q → (s.proc q).alive → Spares X q s t
  /-- No other process appears. -/
  fewer : ∀ q, A q → (t.proc q).alive → (s.proc q).alive
  cpu_proc : t.cpu.proc = s.cpu.proc
  initproc : t.initproc = s.initproc

/-- All processes. -/
abbrev everyone : Nat → Prop := fun _ => True

namespace Serves

theorem trans (hst : Serves h A X s t) (htu : Serves h A X t u) : Serves h A X s u where
  inv := htu.inv
  recorded hR := htu.recorded (hst.recorded hR)
  spares q hq ha := (hst.spares q hq ha).trans (htu.spares q hq (hst.spares q hq ha).alive)
  fewer q hq ha := hst.fewer q hq (htu.fewer q hq ha)
  cpu_proc := htu.cpu_proc.trans hst.cpu_proc
  initproc := htu.initproc.trans hst.initproc

theorem mono {B : Nat → Prop} (hst : Serves h A X s t) (hA : ∀ q, B q → A q)
    (hX : ∀ q v, B q → (s.proc q).alive → X (s.proc q).pgdir v → Y (s.proc q).pgdir v) :
    Serves h B Y s t :=
  { hst with
    spares := fun q hq ha => (hst.spares q (hA q hq) ha).mono fun v => hX q v hq ha
    fewer := fun q hq => hst.fewer q (hA q hq) }

/-- A process that is dead before and after needs no care. -/
theorem toEveryone {i : Nat} (hst : Serves h (· ≠ i) X s t) (hi : ¬ (s.proc i).alive)
    (hi' : ¬ (t.proc i).alive) : Serves h everyone X s t :=
  { hst with
    spares := fun q _ ha => hst.spares q (fun he => hi (he ▸ ha)) ha
    fewer := fun q _ ha => hst.fewer q (fun he => hi' (he ▸ ha)) ha }

end Serves

theorem Keeps.serves (hK : Keeps h X s t) (hI : Inv h s) (hI' : Inv h t) : Serves h A X s t :=
  ⟨hI', hK.recorded, fun _ _ hq => hK.spares hI hq, fun _ _ => hK.alive.1, hK.cpu_proc, hK.initproc⟩

/-- An update of process `i` that gives it no address space and no kernel stack. -/
theorem Inv.setProc {i : Nat} {g : Proc → Proc} (hI : Inv h s)
    (hl : (g (s.proc i)).live → (s.proc i).live ∧ (g (s.proc i)).pgdir = (s.proc i).pgdir ∧
      (g (s.proc i)).sz ≤ KERNBASE)
    (he : (g (s.proc i)).state = .EMBRYO → (g (s.proc i)).rss = 0#32)
    (hk : (g (s.proc i)).kstack = (s.proc i).kstack ∨ (g (s.proc i)).kstack = 0)
    (hz : (s.proc i).state = .ZOMBIE →
      (g (s.proc i)).state = .ZOMBIE ∧ (g (s.proc i)).pgdir = (s.proc i).pgdir) :
    Serves h (· ≠ i) X s (s.setProc i g) := by
  have hT := s.setProc_tableOnly i g
  have hother : ∀ p, p ≠ i → (s.setProc i g).proc p = s.proc p := fun p hp => by simp [hp]
  have hzd : ∀ d, s.zombie d → (s.setProc i g).zombie d ∨ s.space d = none := by
    rintro d ⟨p, hp, rfl⟩
    rcases eq_or_ne p i with rfl | hne
    · exact Or.inl ⟨p, by simpa using (hz hp).1, by simpa using (hz hp).2⟩
    · exact Or.inl ⟨p, by rw [hother p hne, hp], by rw [hother p hne]⟩
  refine ⟨hI.table hT (hI.toProcs.setProc hl he) (fun p => ?_) hzd, fun hR => hR.table hT hzd,
    fun q hq ha => Machine.setProc_spares ha (hI.dir q ha.1) hq,
    fun q hq ha => by rwa [hother q hq] at ha, rfl, rfl⟩
  rcases eq_or_ne p i with rfl | hne
  · simpa using hk
  · exact Or.inl (by rw [hother p hne])

/-! ## `allocproc` -/

/-- The outcome of `allocproc`. -/
def AllocatesProc (h : Set Nat) (s : Machine) (r : Option Nat) (t : Machine) : Prop :=
  Serves h everyone noPage s t ∧ ∀ i, r = some i → (s.proc i).state = .UNUSED ∧
    (t.proc i).state = .EMBRYO ∧ (t.proc i).pid = s.nextpid

theorem allocproc_spec (hI : Inv h s) : K.Returns allocproc s (AllocatesProc h s) := by
  unfold allocproc
  simp only [Code.returns_get_bind]
  cases hfind : (List.range NPROC).find? fun i => decide ((s.proc i).state = .UNUSED) with
  | none => exact Code.returns_pure.2 ⟨(Keeps.refl hI).serves hI hI, fun i hi => by cases hi⟩
  | some i =>
    have hun : (s.proc i).state = .UNUSED := by simpa using List.find?_some hfind
    simp only [Code.returns_modify_bind]
    set s1 : Machine :=
      { s.setProc i fun p => { p with state := .EMBRYO, pid := s.nextpid, rss := 0#32 } with
        nextpid := s.nextpid + 1 } with hs1
    have hne : ∀ q, (s.proc q).alive → q ≠ i := fun q hq he => hq.1.1 (he ▸ hun)
    have hS1 : Serves h everyone noPage s s1 := by
      have h1 := hI.setProc (i := i) (X := noPage)
        (g := fun p => { p with state := .EMBRYO, pid := s.nextpid, rss := 0#32 })
        (fun hl => absurd rfl hl.2) (fun _ => rfl) (Or.inl rfl) fun hz => by rw [hun] at hz; cases hz
      have h2 := h1.toEveryone (fun ha => hne i ha rfl) fun ha => ha.1.2 (by simp)
      have hT : TableOnly s s1 := ⟨rfl, rfl⟩
      refine ⟨h2.inv.congr rfl, h2.recorded, fun q _ ha => ?_, h2.fewer, rfl, rfl⟩
      have hq := h2.spares q trivial ha
      exact hT.spares (hI.dir q ha.1) hq.alive hq.pgdir hq.sz
    refine (kalloc_spec hS1.inv).bind fun r s2 ha => ?_
    have hK2 : Keeps h noPage s1 s2 := ha.keeps hS1.inv
    have hemb : (s2.proc i).state = .EMBRYO := by rw [hK2.state]; simp [hs1]
    have hpid : (s2.proc i).pid = s.nextpid := by
      obtain ⟨r, hr⟩ := hK2.proc i
      rw [hr]
      simp [hs1]
    have hne2 : ∀ q, (s2.proc q).alive → q ≠ i := fun q hq he => hq.1.2 (he ▸ hemb)
    cases r with
    | none =>
      simp only [Code.returns_modify_bind]
      have hS2 := hS1.trans (hK2.serves (A := everyone) hS1.inv ha.1)
      have h3 := ha.1.setProc (i := i) (X := noPage)
        (g := fun p => { p with kstack := 0, state := .UNUSED })
        (fun hl => absurd rfl hl.1) (fun he => by cases he) (Or.inr rfl)
        fun hz => by rw [hemb] at hz; cases hz
      exact Code.returns_pure.2 ⟨hS2.trans (h3.toEveryone (fun ha => hne2 i ha rfl)
        fun ha => ha.1.1 (by simp)), fun i hi => by cases hi⟩
    | some f =>
      simp only [Code.returns_modify_bind]
      obtain ⟨hI2, -, hf, -⟩ := ha
      have hI2' : Inv h s2 := ⟨hI2.toFrames.forget (Set.subset_insert f h), hI2.toProcs⟩
      have hS2 := hS1.trans (hK2.serves (A := everyone) hS1.inv hI2')
      refine Code.returns_pure.2 ⟨hS2.trans ⟨hI2.kstack hf, fun hR => ?_,
        fun q _ hq => Machine.setProc_spares hq (hI2.dir q hq.1) (hne2 q hq), fun q _ hq => ?_,
        rfl, rfl⟩, fun j hj => ?_⟩
      · refine hR.table (s2.setProc_tableOnly i _) ?_
        rintro d ⟨p, hp, rfl⟩
        have hpi : p ≠ i := fun he => by rw [he, hemb] at hp; cases hp
        exact Or.inl ⟨p, by simpa [hpi] using hp, by simp [hpi]⟩
      · rcases eq_or_ne q i with rfl | hqi
        · exact absurd hemb (by simpa using hq.1.2)
        · simpa [hqi] using hq
      · cases hj
        exact ⟨hun, by simpa using hemb, by simpa using hpid⟩

/-! ## `fork` -/

/-- In this call of `fork`, each frame that `copyuvm` copies has the bytes it had
when its number was read. -/
def ForkCopiesIntact (s : Machine) : Prop :=
  ∀ np t, allocproc.run s = .ok (some np, t) → ForkIntact t.myproc.pgdir t.myproc.sz t

/-- Page by page, the memory of process `q` in `t` is the memory of `p` in `s`,
with the same permissions. -/
def SameMemory (s t : Machine) (p q : Nat) : Prop :=
  ∀ v < pagesUp (s.proc p).sz, t.content (t.proc q).pgdir v = s.content (s.proc p).pgdir v ∧
    (t.pte (t.proc q).pgdir v).perm = (s.pte (s.proc p).pgdir v).perm

/-- The outcome of a `fork` that returns the pid of child `np`. -/
structure Forked (s t : Machine) (np : Nat) (pid : Nat) : Prop where
  unused : (s.proc np).state = .UNUSED
  state : (t.proc np).state = .RUNNABLE
  pid_eq : (t.proc np).pid = pid ∧ pid = s.nextpid
  parent_eq : (t.proc np).parent = some s.cpu.proc
  sz : (t.proc np).sz = s.myproc.sz
  parent : SameMemory s t s.cpu.proc s.cpu.proc
  child : SameMemory s t s.cpu.proc np ↔ ForkCopiesIntact s

/-- The kernel stack of process `i` is given back, in an update that drops it. -/
theorem Serves.dropStack {i : Nat} {g : Proc → Proc} (hI : Inv h s)
    (hS : Serves h (· ≠ i) X s (s.setProc i g)) (hg : (g (s.proc i)).kstack = 0)
    (h0 : (s.proc i).kstack ≠ 0) :
    s.kend ≤ (s.proc i).kstack ∧ (s.proc i).kstack < NFRAMES ∧
      Serves h (· ≠ i) X s ((s.setProc i g).kfreed (s.proc i).kstack) := by
  have huse : Uses h s (.kstack i) (s.proc i).kstack := ⟨rfl, h0⟩
  obtain ⟨hlo, hhi⟩ := hI.range_used _ _ huse
  have hL : Loose h (s.setProc i g) (s.proc i).kstack := {
    unused := fun o ho => by
      have ho' : Uses h s o (s.proc i).kstack ∧ o ≠ .kstack i := by
        rcases o with _ | _ | _ | p | _ | _
        case kstack =>
          have hp : p ≠ i := by
            rintro rfl
            exact ho.2 (ho.1.symm.trans (by simpa using hg))
          refine ⟨?_, fun he => hp (by cases he; rfl)⟩
          rwa [Uses, Machine.setProc_proc, Function.update_of_ne hp] at ho
        all_goals exact ⟨ho, by simp⟩
      exact ho'.2 (hI.own.inj ho'.1 huse)
    not_free := hI.own.busy huse
    lo := hlo
    hi := hhi }
  have hE := (kfree_spec hS.inv hL).spec () _ (kfree_returns hlo hhi)
  exact ⟨hlo, hhi, hS.trans ((hE.keeps hS.inv).serves hS.inv hE.1)⟩

/-- `kfree(0)` panics. -/
theorem kfree_zero (hI : Inv h s) {Q : Unit → Machine → Prop} : K.Spec (kfree 0) s Q := by
  unfold kfree
  rw [K.Spec, Code.spec_get_bind, if_pos (Or.inl hI.kend_pos)]
  exact Code.spec_panic _

/-- The branch of `fork` that gives the new process up again. -/
theorem dropChild_spec {np : Nat} (hI : Inv h s) (hemb : (s.proc np).state = .EMBRYO) :
    K.Spec (do
      Code.modify fun s => s.setProc np fun p => { p with pgdir := 0 }
      kfree (s.proc np).kstack
      Code.modify fun s => s.setProc np fun p => { p with kstack := 0, state := .UNUSED }
      return none) s fun (r : Option Nat) t => r = none ∧ Serves h everyone X s t := by
  set g : Proc → Proc := fun p => { p with pgdir := 0, kstack := 0, state := .UNUSED } with hg
  have hS : ∀ g' : Proc → Proc, (g' (s.proc np)).state = .UNUSED ∨ (g' (s.proc np)).state = .EMBRYO →
      (g' (s.proc np)).rss = (s.proc np).rss →
      ((g' (s.proc np)).kstack = (s.proc np).kstack ∨ (g' (s.proc np)).kstack = 0) →
      Serves h (· ≠ np) X s (s.setProc np g') := fun g' hst hr hk =>
    hI.setProc (fun hl => (hst.elim hl.1 hl.2).elim) (fun _ => hr.trans (hI.embryo np hemb)) hk
      fun hz => by rw [hemb] at hz; cases hz
  have hne : ∀ q, (s.proc q).alive → q ≠ np := fun q hq he => hq.1.2 (he ▸ hemb)
  simp only [Code.spec_modify_bind]
  by_cases h0 : (s.proc np).kstack = 0
  · rw [h0]
    exact (kfree_zero (Q := fun _ _ => False)
      (hS (fun p => { p with pgdir := 0 }) (Or.inr hemb) rfl (Or.inl rfl)).inv).bind
      fun _ _ hx => hx.elim
  · obtain ⟨hlo, hhi, hS'⟩ := (hS g (Or.inl rfl) rfl (Or.inr rfl)).dropStack hI rfl h0
    refine Code.Spec.bind_run
      (kfree_returns (s := s.setProc np fun p => { p with pgdir := 0 }) hlo hhi) ?_
    simp only [Code.spec_modify_bind]
    -- the updates of the table and `kfree` commute
    have heq : ((s.setProc np fun p => { p with pgdir := 0 }).kfreed (s.proc np).kstack).setProc np
        (fun p => { p with kstack := 0, state := .UNUSED }) =
        (s.setProc np g).kfreed (s.proc np).kstack := by
      simp [Machine.kfreed, Machine.setProc, Machine.setMem, Machine.setFree, hg]
    rw [heq]
    exact Code.spec_pure.2 ⟨rfl, hS'.toEveryone (fun ha => hne np ha rfl)
      fun ha => ha.1.1 (by simp [Machine.kfreed, hg])⟩

/-- The pages of the caller. -/
abbrev callerPage (s : Machine) : Nat → Nat → Prop := fun d _ => d = s.myproc.pgdir

/-- **`fork`.** -/
theorem fork_spec (hI : Inv ∅ s) (hR : s.Recorded) (hcur : s.myproc.alive) :
    K.Spec fork s fun r t => match r with
      | none => Serves ∅ everyone (callerPage s) s t
      | some pid => ∃ np, Forked s t np pid ∧ Serves ∅ (· ≠ np) (callerPage s) s t := by
  unfold fork
  refine ((K.spec_run _ s).and (allocproc_spec hI).spec).bind fun r s1 hpost => ?_
  obtain ⟨hrun, hS1, hr⟩ := hpost
  have hS1' : Serves ∅ everyone (callerPage s) s s1 :=
    hS1.mono (fun _ _ => trivial) fun _ _ _ _ hx => hx.elim
  cases r with
  | none => exact Code.spec_pure.2 hS1'
  | some np =>
    obtain ⟨hun, hemb, hpid⟩ := hr np rfl
    simp only [Code.spec_get_bind]
    -- the caller after `allocproc`
    have hcs := hS1.spares _ trivial hcur
    have hme : s1.myproc = s1.proc s.cpu.proc := by rw [Machine.myproc, hS1.cpu_proc]
    have hcur1 : s1.myproc.alive := by rw [hme]; exact hcs.alive
    have hdir1 : s1.myproc.pgdir = s.myproc.pgdir := by rw [hme]; exact hcs.pgdir
    have hsz1 : s1.myproc.sz = s.myproc.sz := by rw [hme]; exact hcs.sz
    have hup : pagesUp s.myproc.sz ≤ UPAGES := pagesUp_le_upages (hI.size _ hcur.1)
    have hpage1 : ∀ v < pagesUp s.myproc.sz, Kept s s1 s.myproc.pgdir v := fun v hv =>
      hcs.page v (by omega) id
    have hpd1 := hS1.inv.dir _ hcur1.1
    refine (copyuvm_spec hS1.inv (hS1.recorded hR) hpd1 (hS1.inv.alive_dir hcur1)
      (hS1.inv.size _ hcur1.1) hcur1.1).bind fun r s2 hc => ?_
    change CopiesAll ∅ s1.myproc.pgdir s1.myproc.sz s1 r s2 at hc
    rw [hdir1, hsz1] at hc
    have hS2 : Serves ∅ everyone (callerPage s) s s2 := by
      refine hS1'.trans ((hc.keeps.serves hS1.inv hc.inv).mono (fun _ hq => hq) fun _ _ _ _ hx => ?_)
      exact hx.1
    have hemb2 : (s2.proc np).state = .EMBRYO := by rw [hc.keeps.state, hemb]
    have hnpz : ∀ p, (s2.proc p).state = .ZOMBIE → p ≠ np := fun p hp he => by
      rw [he, hemb2] at hp
      cases hp
    have hne2 : ∀ q, (s2.proc q).alive → q ≠ np := fun q hq he => hq.1.2 (he ▸ hemb2)
    cases r with
    | none =>
      have hkst : (s1.proc np).kstack = (s2.proc np).kstack := by
        obtain ⟨r, hr⟩ := hc.keeps.proc np
        rw [hr]
      rw [hkst]
      refine (dropChild_spec (X := callerPage s) hc.inv hemb2).mono fun r t hpost => ?_
      obtain ⟨hr, hS⟩ := hpost
      subst hr
      exact hS2.trans hS
    | some d =>
      simp only [Code.spec_modify_bind]
      obtain ⟨hnone, hdir⟩ := hc.new d rfl
      set g : Proc → Proc := fun p => { p with
        pgdir := d, sz := (s2.proc s1.cpu.proc).sz, parent := some s1.cpu.proc,
        rss := (s2.proc s1.cpu.proc).rss, esp := (s2.proc s1.cpu.proc).esp, state := .RUNNABLE }
        with hg
      have hsz2 : (s2.proc s1.cpu.proc).sz = s.myproc.sz := by
        rw [hc.keeps.sz]
        exact hsz1
      have hP : Procs (s2.setProc np g) := by
        refine hc.inv.toProcs.newSpace (d := d) hdir (hc.keeps.not_owned hS1.inv hnone) rfl ?_
          (by simp [hg])
        simp only [hg, hsz2]
        exact hI.size _ hcur.1
      have hT := s2.setProc_tableOnly np g
      have hzd : ∀ d', s2.zombie d' → (s2.setProc np g).zombie d' ∨ s2.space d' = none := by
        rintro d' ⟨p, hp, rfl⟩
        exact Or.inl ⟨p, by simpa [hnpz p hp] using hp, by simp [hnpz p hp]⟩
      have h3 : Serves ∅ (· ≠ np) (callerPage s) s2 (s2.setProc np g) := by
        refine ⟨hc.inv.table hT hP (fun p => Or.inl ?_) hzd, fun hR => hR.table hT hzd,
          fun q hq ha => Machine.setProc_spares ha (hc.inv.dir q ha.1) hq,
          fun q hq ha => by simpa [hq] using ha, rfl, rfl⟩
        rcases eq_or_ne p np with rfl | hp
        · simp [hg]
        · simp [hp]
      have hS3 : Serves ∅ (· ≠ np) (callerPage s) s (s2.setProc np g) :=
        (hS2.mono (fun _ _ => trivial) fun _ _ _ _ hx => hx).trans h3
      have hcont : ∀ d' v, (s2.setProc np g).content d' v = s2.content d' v := fun _ _ => rfl
      have hpte : ∀ d' v, (s2.setProc np g).pte d' v = s2.pte d' v := fun _ _ => rfl
      have hnpd : ((s2.setProc np g).proc np).pgdir = d := by simp [hg]
      have hmed : ((s2.setProc np g).proc s.cpu.proc).pgdir = s.myproc.pgdir :=
        (hS3.spares _ (fun he => hcur.1.1 (by rw [Machine.myproc, he, hun])) hcur).pgdir
      refine Code.spec_pure.2 ⟨np, ?_, hS3⟩
      refine {
        unused := hun
        state := by simp [hg]
        pid_eq := ⟨?_, hpid⟩
        parent_eq := by simp [hg, hS1.cpu_proc]
        sz := by simpa [hg] using hsz2
        parent := fun v hv => ?_
        child := ?_ }
      · obtain ⟨r, hr⟩ := hc.keeps.proc np
        simp [hg, hr]
      · rw [hmed, hcont, hpte]
        have hk := (hpage1 v hv).toSame.trans (hc.same v hv)
        exact ⟨hk.content, hk.perm⟩
      · have hl : SameMemory s (s2.setProc np g) s.cpu.proc np ↔
            ∀ w < pagesUp s.myproc.sz, Copied s.myproc.pgdir d s1 s2 w := by
          unfold SameMemory Copied
          rw [hnpd]
          refine forall_congr' fun v => forall_congr' fun hv => ?_
          have hk := hpage1 v hv
          rw [hcont, hpte, hk.content, hk.perm]
          rfl
        rw [hl, hc.copied d rfl]
        rw [← hdir1, ← hsz1]
        refine ⟨fun hx np' t' ht' => ?_, fun hx => hx np s1 hrun⟩
        rw [hrun] at ht'
        cases ht'
        exact hx

end Xv6.Swap
