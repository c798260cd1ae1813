/-
Page faults and the user's own loads and stores.

A fault goes to `swapPageIn` with no check that the address is below the size of
the process or that its entry is not zero. `FaultOk` is what such a check would
ensure: when the entry is read as a paged-out page whose slot is in use, it is
one, and the process has that address. Then a fault either changes nothing, or
brings the page back, or ends the process for want of memory.
-/
import Xv6.Swap.Calls

set_option autoImplicit false

namespace Xv6.Swap

open Xv6.Lib

variable {h : Set Nat} {s t u : Machine} {X Y : Nat → Nat → Prop} {A : Nat → Prop}

/-! ## Faults -/

/-- The entry of page `v` of directory `d`, if the walk finds one. -/
def Machine.walk (s : Machine) (d v : Nat) : Option Pte := (s.space d).bind fun sp => sp.walk v

/-- What `swapPageIn` takes for a paged-out page at address `a` of the current
process is one, and lies below the size. -/
def FaultOk (s : Machine) (a : Nat) : Prop :=
  ∀ e, s.walk s.myproc.pgdir (a / PGSIZE) = some e → e.present = false →
    e.ppn < SWAP_SLOT_TOTAL → (s.slots e.ppn).is_free = false → e ≠ Pte.zero ∧ a < s.myproc.sz

/-- The outcome of `swapPageIn` for page `v` of directory `d`. -/
inductive FaultIn (d v : Nat) (s : Machine) : Bool → Machine → Prop where
  /-- The page is in memory. -/
  | present (hp : (s.pte d v).present = true) : FaultIn d v s true s
  /-- There is no such page. -/
  | absent (hp : (s.pte d v).present = false) : FaultIn d v s false s
  | loaded (t : Machine) (hs : (s.pte d v).swapped = true)
      (hp : PagedIn ∅ d v (s.pte d v).ppn s t) : FaultIn d v s true t
  | noMemory (t : Machine) (hs : (s.pte d v).swapped = true) (he : Evicts ∅ s t) :
      FaultIn d v s false t

theorem page_lt_upages {a sz : Nat} (ha : a < sz) (hsz : sz ≤ KERNBASE) : a / PGSIZE < UPAGES := by
  simp only [KERNBASE, PGSIZE, SWAP_BLOCKS_PER_PAGE, BSIZE, UPAGES] at *
  omega

/-- `swapPageIn` on a fault of the current process. -/
theorem swapPageIn_fault {a : Nat} (hI : Inv ∅ s) (hcur : s.myproc.alive) (hok : FaultOk s a) :
    K.Returns (swapPageIn s.myproc.pgdir (a / PGSIZE)) s
      (FaultIn s.myproc.pgdir (a / PGSIZE) s) := by
  have hdir : (s.space s.myproc.pgdir).isSome = true := hI.dir _ hcur.1
  have hz : ¬ s.zombie s.myproc.pgdir := hI.alive_dir hcur
  have hsz : s.myproc.sz ≤ KERNBASE := hI.size _ hcur.1
  obtain ⟨sp, hsp⟩ := Option.isSome_iff_exists.1 hdir
  have hwalk : s.walk s.myproc.pgdir (a / PGSIZE) = sp.walk (a / PGSIZE) := by
    rw [Machine.walk, hsp]
    rfl
  by_cases hload : (s.pte s.myproc.pgdir (a / PGSIZE)).swapped = true ∧ a < s.myproc.sz
  · obtain ⟨hs, ha⟩ := hload
    refine (swapPageIn_spec hI hdir (page_lt_upages ha hsz) hz hs hcur.1).mono fun r t hr => ?_
    cases r with
    | true => exact .loaded t hs hr
    | false => exact .noMemory t hs hr
  · unfold swapPageIn
    simp only [Code.returns_get_bind]
    refine Code.Returns.bind_run (walkpgdir_returns hsp _) ?_
    rcases hI.walk_eq hsp (a / PGSIZE) with ⟨hw, h0⟩ | hw
    · rw [hw]
      exact Code.returns_pure.2 (.absent (by rw [h0]; rfl))
    · rw [hw]
      simp only
      split
      · next hp => exact Code.returns_pure.2 (.present hp)
      · next hp =>
        have hp : (s.pte s.myproc.pgdir (a / PGSIZE)).present = false := by simpa using hp
        split
        · exact Code.returns_pure.2 (.absent hp)
        · next hlt =>
          split
          · exact Code.returns_pure.2 (.absent hp)
          · next hfree =>
            obtain ⟨hne, ha⟩ := hok _ (hwalk.trans hw) hp (by omega) (by simpa using hfree)
            exact absurd ⟨Pte.swapped_iff.2 ⟨hp, hne⟩, ha⟩ hload

/-- **A page fault.** It is served, and the process sees the memory it had; or
the process exits. Either way the others do not notice. -/
theorem pageFault_spec {a : Nat} (hI : Inv ∅ s) (hcur : s.myproc.alive) (hok : FaultOk s a) :
    K.Spec (pageFault a) s fun r t => Serves ∅ (others s) noPage s t ∧
      (r = true → Serves ∅ everyone (onlyPage s.myproc.pgdir (a / PGSIZE)) s t ∧
        t.myproc.state = s.myproc.state ∧
        ∀ v < UPAGES, t.content s.myproc.pgdir v = s.content s.myproc.pgdir v) ∧
      (r = false → t.myproc.state = .ZOMBIE) := by
  have hdir : (s.space s.myproc.pgdir).isSome = true := hI.dir _ hcur.1
  have hz : ¬ s.zombie s.myproc.pgdir := hI.alive_dir hcur
  have hsz : s.myproc.sz ≤ KERNBASE := hI.size _ hcur.1
  unfold pageFault
  simp only [Code.spec_get_bind]
  refine (swapPageIn_fault hI hcur hok).spec.bind fun r s1 hr => ?_
  -- when the fault is not served the process is killed
  have hdie : ∀ {s1 : Machine}, Evicts ∅ s s1 → K.Spec (do
      Code.modify fun s => s.setProc s.cpu.proc fun p => { p with killed := true }
      exit
      return false) s1 fun r t => Serves ∅ (others s) noPage s t ∧
        (r = true → Serves ∅ everyone (onlyPage s.myproc.pgdir (a / PGSIZE)) s t ∧
          t.myproc.state = s.myproc.state ∧
          ∀ v < UPAGES, t.content s.myproc.pgdir v = s.content s.myproc.pgdir v) ∧
        (r = false → t.myproc.state = .ZOMBIE) := by
    intro s1 hE
    simp only [Code.spec_modify_bind]
    have hK : Keeps ∅ noPage s s1 := hE.keeps hI
    have hcp : s1.cpu.proc = s.cpu.proc := hK.cpu_proc
    have hal1 : s1.myproc.alive := hK.myproc.2.2.2.2 hcur
    have hS2 := hE.1.setSteady (X := noPage) (i := s1.cpu.proc)
      (g := fun p => { p with killed := true }) ⟨rfl, Or.inl rfl⟩
    set s2 := s1.setProc s1.cpu.proc fun p => { p with killed := true } with hs2
    have hal2 : s2.myproc.alive := (hS2.spares _ trivial hal1).alive
    refine (exit_spec hS2.inv hal2).bind fun _ t hpost => Code.spec_pure.2 ?_
    obtain ⟨hS3, hst⟩ := hpost
    have hS02 : Serves ∅ (others s) noPage s s2 :=
      (hK.serves hI hE.1).trans (hS2.mono (fun _ _ => trivial) fun _ _ _ _ hx => hx)
    refine ⟨hS02.trans (hS3.mono (fun q hq => ?_) fun _ _ _ _ hx => hx),
      fun hx => absurd hx (by decide), fun _ => hst⟩
    rwa [others, show s2.cpu.proc = s.cpu.proc from hcp]
  cases hr with
  | present hp =>
    exact Code.spec_pure.2 ⟨(Keeps.refl hI).serves hI hI,
      fun _ => ⟨(Keeps.refl hI).serves hI hI, rfl, fun _ _ => rfl⟩, fun hx => absurd hx (by decide)⟩
  | absent hp => exact hdie (.refl hI)
  | noMemory t hs he => exact hdie he
  | loaded t hs hp =>
    obtain ⟨hst, -, -, -⟩ := hp.keeps.myproc
    refine Code.spec_pure.2 ⟨hp.keeps.serves_others hI hp.inv hcur.1 fun _ _ hx => hx.1,
      fun _ => ⟨hp.keeps.serves hI hp.inv, hst, fun v hv => ?_⟩,
      fun hx => absurd hx (by decide)⟩
    rcases eq_or_ne v (a / PGSIZE) with rfl | hne
    · exact hp.content
    · exact (hp.keeps.page _ v hdir hz hv fun hx => hne hx.2).content

/-! ## Loads and stores -/

theorem uaccess_eq_some {a : Nat} {w : Bool} {e : Pte} (he : uaccess s a w = some e) :
    (s.space s.cpu.cr3).isSome = true ∧ e = s.pte s.cpu.cr3 (a / PGSIZE) ∧ e.present = true ∧
      e.user = true ∧ (s.tab s.cpu.cr3 (a / PGSIZE / NPTENTRIES)).isSome = true := by
  unfold uaccess at he
  split at he
  · cases he
  · next sp hsp =>
    split at he
    · cases he
    · next e' hw =>
      split at he
      · next hc =>
        cases he
        obtain ⟨ht, hpte⟩ := Space.walk_eq_some.1 hw
        simp only [Bool.and_eq_true] at hc
        exact ⟨by rw [hsp]; rfl, by rw [Machine.pte_of_space hsp, hpte], hc.1.1, hc.1.2,
          by rw [Machine.tab_of_space hsp, ht]⟩
      · cases he

/-- Setting flags of a page in memory keeps every frame where it is. -/
theorem Inv.setFlags {d v : Nat} {e : Pte} (hI : Inv h s) (hd : (s.space d).isSome = true)
    (hp : (s.pte d v).present = true) (he : e.present = true) (hf : e.ppn = (s.pte d v).ppn) :
    Inv h (s.setPte d v e) := by
  have hpte : ∀ d' v', (s.setPte d v e).pte d' v' = if d' = d ∧ v' = v then e else s.pte d' v' :=
    Machine.setPte_pte hd
  have hdirs : ∀ d', ((s.setPte d v e).space d').isSome = (s.space d').isSome :=
    Machine.setPte_isSome s d v _
  have huses : ∀ o g, Uses h (s.setPte d v e) o g → Uses h s o g := by
    rintro (⟨d', v'⟩ | ⟨d', i⟩ | d' | p | i | g) f hu
    · by_cases hn : d' = d ∧ v' = v
      · obtain ⟨rfl, rfl⟩ := hn
        simp only [Uses, hpte, and_self, if_true] at hu
        exact ⟨hu.1, hp, hf.symm.trans hu.2.2⟩
      · simpa only [Uses, hpte, if_neg hn] using hu
    · simpa only [Uses, Machine.setPte_tab] using hu
    · simpa only [Uses, hdirs] using hu
    all_goals exact hu
  have hslots : ∀ o k, SlotUses (s.setPte d v e) o k → SlotUses s o k := by
    rintro ⟨d', v'⟩ k ⟨hz, hv, hs, hk⟩
    by_cases hn : d' = d ∧ v' = v
    · simp only [hpte, if_pos hn] at hs
      rw [(Pte.swapped_iff.1 hs).1] at he
      cases he
    · rw [hpte, if_neg hn] at hs hk
      exact ⟨hz, hv, hs, hk⟩
  exact ⟨{ hI.toFrames with
    own := hI.own.mono huses fun _ hy => hy
    range_used := fun o f hf => hI.range_used o f (huses o f hf)
    tab_zero := fun d' v' hn => by
      rw [Machine.setPte_tab] at hn
      have hz := hI.tab_zero d' v' hn
      have hne : ¬ (d' = d ∧ v' = v) := by
        rintro ⟨rfl, rfl⟩
        rw [hz] at hp
        cases hp
      rw [hpte, if_neg hne, hz]
    slot_own := hI.slot_own.mono hslots fun _ hk => hk
    slot_range := fun o k hk => hI.slot_range o k (hslots o k hk) },
    { hI.toProcs with dir := fun p hp => by rw [hdirs]; exact hI.dir p hp }⟩

theorem setFlag_present {e : Pte} (b : BitVec 12) (he : e.present = true) :
    ({ e with flags := e.flags ||| b } : Pte).present = true := by
  simp only [Pte.present, BitVec.getLsbD_or] at *
  rw [he, Bool.true_or]

theorem Pte.not_swapped {e : Pte} (he : e.present = true) : e.swapped = false := by
  simp [swapped, he]

/-- **A load** returns a byte of the page's content, and changes no content. -/
theorem uload_spec {a : Nat} {e : Pte} (hI : Inv h s) (he : uaccess s a false = some e) :
    let t := (uload s a e).2
    Inv h t ∧ Keeps h (onlyPage s.cpu.cr3 (a / PGSIZE)) s t ∧ t.cpu = s.cpu ∧ t.proc = s.proc ∧
      (∀ d v, t.content d v = s.content d v) ∧
      s.content s.cpu.cr3 (a / PGSIZE) = some (s.mem e.ppn) := by
  intro t
  obtain ⟨hd, rfl, hp, -, -⟩ := uaccess_eq_some he
  have hp' := setFlag_present PTE_A hp
  refine ⟨hI.setFlags hd hp hp' rfl, Machine.setPte_keeps hd (Pte.not_swapped hp'), rfl, rfl,
    fun d v => ?_, by rw [Machine.content, if_pos hp]⟩
  have hpte : t.pte d v = _ := Machine.setPte_pte hd d v
  by_cases hn : d = s.cpu.cr3 ∧ v = a / PGSIZE
  · obtain ⟨rfl, rfl⟩ := hn
    rw [if_pos ⟨rfl, rfl⟩] at hpte
    rw [Machine.content, Machine.content, hpte, if_pos hp', if_pos hp]
    rfl
  · rw [if_neg hn] at hpte
    simp only [Machine.content, hpte]
    rfl

/-- **A store** changes one byte of the page's content. -/
theorem ustore_spec {a : Nat} {e : Pte} {b : Byte} (hI : Inv h s) (he : uaccess s a true = some e)
    (ha : a / PGSIZE < UPAGES) :
    let t := ustore s a e b
    Inv h t ∧ Keeps h (onlyPage s.cpu.cr3 (a / PGSIZE)) s t ∧ t.cpu = s.cpu ∧ t.proc = s.proc ∧
      s.content s.cpu.cr3 (a / PGSIZE) = some (s.mem e.ppn) ∧
      t.content s.cpu.cr3 (a / PGSIZE) = some (Function.update (s.mem e.ppn) (pgoff a) b) := by
  intro t
  obtain ⟨hd, rfl, hp, -, -⟩ := uaccess_eq_some he
  set e := s.pte s.cpu.cr3 (a / PGSIZE) with he'
  set s1 := s.setByte e.ppn (pgoff a) b with hs1
  have huse : Uses h s (.page s.cpu.cr3 (a / PGSIZE)) e.ppn := ⟨ha, hp, rfl⟩
  have hmem : ∀ o f, Uses h s o f → o ≠ .page s.cpu.cr3 (a / PGSIZE) → s1.mem f = s.mem f := by
    intro o f ho hne
    have : f ≠ e.ppn := fun hx => hne (hI.own.inj (hx ▸ ho) huse)
    simp [hs1, Machine.setByte, this]
  have hI1 : Inv h s1 := hI.congr rfl
  have hK1 : Keeps h (onlyPage s.cpu.cr3 (a / PGSIZE)) s s1 := {
    kend := rfl, initproc := rfl, nextpid := rfl, pipe := rfl, cpu_proc := rfl
    proc := fun p => ⟨_, rfl⟩
    held := fun f hf => hmem (.held f) f ⟨hf, rfl⟩ (by simp)
    dirs := fun _ _ hd => hd
    page := fun d v hd hz hv hn => by
      refine ⟨⟨hd, ?_, rfl⟩, fun _ => rfl⟩
      have hpte : s1.pte d v = s.pte d v := rfl
      rw [Machine.content, Machine.content, hpte]
      by_cases hpv : (s.pte d v).present = true
      · rw [if_pos hpv, if_pos hpv, hmem (.page d v) _ ⟨hv, hpv, rfl⟩ (by simpa using hn)]
      · rw [if_neg hpv, if_neg hpv]
        rfl
    recorded := fun hR => hR }
  have hp' := setFlag_present (PTE_A ||| PTE_D) hp
  refine ⟨hI1.setFlags hd hp hp' rfl, hK1.trans (Machine.setPte_keeps hd (Pte.not_swapped hp')),
    rfl, rfl, by rw [Machine.content, if_pos hp], ?_⟩
  have hpte : t.pte s.cpu.cr3 (a / PGSIZE) = _ :=
    Machine.setPte_pte (s := s1) hd s.cpu.cr3 (a / PGSIZE)
  rw [if_pos ⟨rfl, rfl⟩] at hpte
  rw [Machine.content, hpte, if_pos hp']
  refine congrArg some ?_
  simp [t, ustore, Machine.setByte, he']

end Xv6.Swap
