/-
What a page directory that is being built maps.

`Shape` says which pages are mapped and which page tables there are. In `exec` these are at
each moment the first pages of the address space and those of the kernel (`Image`): hence no
page is mapped twice, and between the kernel's memory and its devices there is no page table.
-/
import Xv6.Shell.Space

set_option autoImplicit false

namespace Xv6.Shell.Exec

open Xv6.Lib
open Xv6.Lib.Code (Returns Ends)

variable {L : Link} {F h : Multiset Nat} {o s : Vm} {d v f : Nat} {sp : Space}

/-! ## What is mapped -/

/-- A page of the kernel's part of an address space. -/
def KernelPage (v : Nat) : Prop :=
  UPAGES ≤ v ∧ v < UPAGES + PHYSPAGES ∨ 0xFE000 ≤ v ∧ v < 0x100000

/-- The pages of an image of `n` pages, with those of the kernel. -/
def Image (n v : Nat) : Prop := v < n ∨ KernelPage v

theorem image_low {n x : Nat} (hx : x < UPAGES) : Image n x ↔ x < n := by
  constructor
  · rintro (h | h | h)
    · exact h
    · exact absurd hx (Nat.not_lt.2 h.1)
    · unfold UPAGES at hx
      omega
  · exact Or.inl

/-- The pages `A` are mapped, and no page table is without one of them. User code can reach no
others than those in `U`. -/
structure Shape (A U : Nat → Prop) (sp : Space) : Prop where
  pte : ∀ v, (sp.pte v).isSome ↔ A v
  tab : ∀ i, (sp.tab i).isSome ↔ ∃ v, A v ∧ v / 1024 = i
  user : ∀ v e, sp.pte v = some e → e.user = true → U v

/-- The frame of a page, where it is one of a user page. -/
def own (v f : Nat) : Multiset Nat := if v < UPAGES then {f} else 0

variable {A U : Nat → Prop}

theorem own_of_kernel (hv : UPAGES ≤ v) : own v f = 0 := if_neg (Nat.not_lt.2 hv)

/-- A page table is added where there is none, unless memory has run out. -/
theorem Holds.walkpgdirAlloc (hs : Holds F o h d sp s) (hv : v < 0x100000) :
    Returns id (walkpgdirAlloc d v) s fun r t => match r with
      | true => ∃ sp', Holds F o h d sp' t ∧ sp'.pte = sp.pte ∧
          ∀ i, (sp'.tab i).isSome ↔ (sp.tab i).isSome ∨ i = v / 1024
      | false => t = s ∧ s.freelist = [] := by
  unfold Exec.walkpgdirAlloc
  refine Returns.bind_run hs.pgdir ?_
  by_cases htab : (sp.tab (v / 1024)).isSome
  · rw [if_pos htab]
    refine Code.returns_pure.2 ⟨sp, hs, rfl, fun i => ⟨Or.inl, fun hi => ?_⟩⟩
    rcases hi with hi | rfl
    · exact hi
    · exact htab
  · rw [if_neg htab]
    refine hs.kalloc.bind fun r t ht => ?_
    cases r with
    | none => exact Code.returns_pure.2 ht
    | some f =>
      rw [Code.returns_modify_bind, Code.returns_pure]
      have hf : f ∈ F := Holds.mem_taken ht
      have hnone : sp.tab (v / 1024) = none := by simpa using htab
      have hpte : (sp.addTable (v / 1024) f).pte = sp.pte := hs.linked.pte_addTable hnone
      refine ⟨sp.addTable (v / 1024) f, (Holds.setMem ht hf _).setSpace ?_ ⟨fun x hx => ?_, fun i hi => ?_⟩,
        hpte, fun i => ?_⟩
      · have hpages : (sp.addTable (v / 1024) f).pages = sp.pages := by
          unfold Space.pages
          rw [hpte]
        rw [tables_addTable (by omega) hnone, hpages]
        abel
      · rw [hpte] at hx
        have hold := hs.linked.tab x hx
        rw [Space.addTable_tab]
        by_cases hxv : x / 1024 = v / 1024
        · rw [hxv, Function.update_self]
          rfl
        · rwa [Function.update_of_ne hxv]
      · by_cases hiv : i = v / 1024
        · omega
        · rw [Space.addTable_tab, Function.update_of_ne hiv] at hi
          exact hs.linked.dir i hi
      · rw [Space.addTable_tab]
        by_cases hiv : i = v / 1024
        · rw [hiv, Function.update_self]
          exact ⟨fun _ => Or.inr rfl, fun _ => rfl⟩
        · rw [Function.update_of_ne hiv]
          exact ⟨Or.inl, fun hi => hi.resolve_right hiv⟩

/-- A page that is not mapped is mapped, and the frame of a user page goes from hand to the
directory. There is no page that `mappages` finds mapped. -/
theorem Holds.mapPage (hs : Holds F o (h + own v f) d sp s) (hshape : Shape A U sp) (hA : ¬ A v)
    (hv : v < 0x100000) (user : Bool) :
    Returns id (mapPage d v f user) s fun r t => match r with
      | true => ∃ sp', Holds F o h d sp' t ∧
          Shape (fun x => A x ∨ x = v) (fun x => U x ∨ user = true ∧ x = v) sp'
      | false => t = s ∧ s.freelist = [] := by
  unfold Exec.mapPage
  refine (hs.walkpgdirAlloc hv).bind fun r t ht => ?_
  cases r with
  | false => exact Code.returns_pure.2 ht
  | true =>
    obtain ⟨sp1, hs1, hpte, htab⟩ := ht
    rw [if_pos rfl]
    refine Returns.bind_run hs1.pgdir ?_
    have hnone : sp1.pte v = none := by
      rw [hpte]
      simpa using mt (hshape.pte v).1 hA
    rw [hnone, if_neg (by simp), Code.returns_modify_bind, Code.returns_pure]
    -- whether it was there before or not, there is a page table now
    have htabs : (sp1.tab (v / 1024)).isSome := (htab _).2 (Or.inr rfl)
    refine ⟨sp1.setPte v (some ⟨f, user⟩), hs1.setSpace ?_ ⟨fun x hx => ?_, hs1.linked.dir⟩, ?_⟩
    -- the frame of a user page counts as one of the directory, that of a kernel page does not
    · rw [tables_setPte]
      by_cases hlow : v < UPAGES
      · have hpages := pages_setPte sp1 (some ⟨f, user⟩) hlow
        rw [hnone] at hpages
        have hnew : (sp1.setPte v (some ⟨f, user⟩)).pages = sp1.pages + {f} :=
          (add_zero _).symm.trans hpages
        rw [hnew, own, if_pos hlow]
        abel
      · rw [pages_setPte_kernel (Nat.not_lt.1 hlow), own_of_kernel (Nat.not_lt.1 hlow), add_zero]
    · rw [Space.setPte_pte] at hx
      by_cases hxv : x = v
      · rw [hxv]
        exact htabs
      · rw [Function.update_of_ne hxv] at hx
        exact hs1.linked.tab x hx
    · refine ⟨fun x => ?_, fun i => ?_, fun x e he hu => ?_⟩
      · rw [Space.setPte_pte]
        by_cases hxv : x = v
        · rw [hxv, Function.update_self]
          exact ⟨fun _ => Or.inr rfl, fun _ => rfl⟩
        · rw [Function.update_of_ne hxv, hpte, hshape.pte]
          exact ⟨Or.inl, fun hx => hx.resolve_right hxv⟩
      · rw [Space.setPte_tab, htab, hshape.tab]
        constructor
        · rintro (⟨x, hx, hi⟩ | rfl)
          · exact ⟨x, Or.inl hx, hi⟩
          · exact ⟨v, Or.inr rfl, rfl⟩
        · rintro ⟨x, hx | rfl, hi⟩
          · exact Or.inl ⟨x, hx, hi⟩
          · exact Or.inr hi.symm
      · rw [Space.setPte_pte] at he
        by_cases hxv : x = v
        · rw [hxv, Function.update_self] at he
          obtain rfl := Option.some.inj he
          exact Or.inr ⟨hu, hxv⟩
        · rw [Function.update_of_ne hxv, hpte] at he
          exact Or.inl (hshape.user x e he hu)

theorem Shape.congr {A' U' : Nat → Prop} (hshape : Shape A U sp) (hA : ∀ x, A x ↔ A' x)
    (hU : ∀ x, U x → U' x) : Shape A' U' sp where
  pte v := (hshape.pte v).trans (hA v)
  tab i := (hshape.tab i).trans (exists_congr fun v => and_congr_left fun _ => hA v)
  user v e he hu := hU v (hshape.user v e he hu)

/-! ## How many frames there are -/

theorem card_sum_opt (n : Nat) (g : Nat → Option Nat) :
    (∑ i ∈ Finset.range n, opt (g i)).card = ((Finset.range n).filter fun i => (g i).isSome).card := by
  rw [Multiset.card_sum, Finset.card_filter]
  refine Finset.sum_congr rfl fun i _ => ?_
  cases g i with
  | none => rfl
  | some f => rfl

theorem card_tables_le (sp : Space) : sp.tables.card ≤ 1024 := by
  unfold Space.tables
  rw [card_sum_opt]
  exact (Finset.card_filter_le _ _).trans (Finset.card_range 1024).le

theorem Shape.card_pages {n : Nat} (hshape : Shape A U sp) (hn : n ≤ UPAGES)
    (hA : ∀ x, x < UPAGES → (A x ↔ x < n)) : sp.pages.card = n := by
  have hset : ((Finset.range UPAGES).filter fun v => ((sp.pte v).map Pte.frame).isSome) =
      Finset.range n := by
    ext x
    rw [Finset.mem_filter, Finset.mem_range, Finset.mem_range, Option.isSome_map, hshape.pte]
    constructor
    · exact fun ⟨hx, hAx⟩ => (hA x hx).1 hAx
    · exact fun hx => ⟨hx.trans_le hn, (hA x (hx.trans_le hn)).2 hx⟩
  unfold Space.pages
  rw [card_sum_opt, hset, Finset.card_range]

theorem Holds.card (hs : Holds F o h d sp s) :
    F.card = s.freelist.length + (h.card + (1 + (sp.tables.card + sp.pages.card))) := by
  rw [← hs.frames]
  simp only [Multiset.card_add, Multiset.coe_card, Multiset.card_singleton]

theorem Shape.card_tables {n : Nat} (hshape : Shape A U sp) (hn : n ≤ UPAGES)
    (hA : ∀ x, Image n x → A x) : 64 + (n + 1023) / 1024 ≤ sp.tables.card := by
  unfold UPAGES at hn
  -- the tables of the image, of the kernel's memory and of the devices
  have hset : Finset.range ((n + 1023) / 1024) ∪ (Finset.Ico 512 568 ∪ Finset.Ico 1016 1024) ⊆
      (Finset.range 1024).filter fun i => (sp.tab i).isSome := by
    intro i hi
    rw [Finset.mem_union, Finset.mem_union, Finset.mem_range, Finset.mem_Ico, Finset.mem_Ico] at hi
    rw [Finset.mem_filter, Finset.mem_range, hshape.tab]
    refine ⟨by omega, i * 1024, hA _ ?_, Nat.mul_div_cancel i (by omega)⟩
    unfold Image KernelPage UPAGES PHYSPAGES
    omega
  have hcard := Finset.card_le_card hset
  rw [Finset.card_union_of_disjoint, Finset.card_union_of_disjoint, Finset.card_range,
    Nat.card_Ico, Nat.card_Ico] at hcard
  · unfold Space.tables
    rw [card_sum_opt]
    omega
  · refine Finset.disjoint_left.2 fun i hi hi' => ?_
    rw [Finset.mem_Ico] at hi hi'
    omega
  · refine Finset.disjoint_left.2 fun i hi hi' => ?_
    rw [Finset.mem_union, Finset.mem_Ico, Finset.mem_Ico] at hi'
    rw [Finset.mem_range] at hi
    omega

/-- Memory has run out: the frames that there were are in the directory or in hand. -/
theorem Holds.card_le {n : Nat} (hs : Holds F o h d sp s) (hfree : s.freelist = [])
    (hshape : Shape A U sp) (hn : n ≤ UPAGES) (hA : ∀ x, x < UPAGES → (A x ↔ x < n)) :
    F.card ≤ 1025 + h.card + n := by
  have hcard := hs.card
  have htables := card_tables_le sp
  rw [hshape.card_pages hn hA, hfree, List.length_nil] at hcard
  omega

/-! ## `setupkvm` -/

theorem Holds.mappages :
    ∀ (n v f : Nat) (A : Nat → Prop) (sp : Space) (s : Vm), UPAGES ≤ v → v + n ≤ 0x100000 →
      (∀ x, A x → x < v) → Holds F o 0 d sp s → Shape A (fun _ => False) sp →
      Returns id (mappages d false n v f) s fun r t => match r with
        | true => ∃ sp', Holds F o 0 d sp' t ∧
            Shape (fun x => A x ∨ v ≤ x ∧ x < v + n) (fun _ => False) sp'
        | false => t.freelist = [] ∧ ∃ sp' k, Holds F o 0 d sp' t ∧
            Shape (fun x => A x ∨ v ≤ x ∧ x < v + k) (fun _ => False) sp' := by
  intro n
  induction n with
  | zero =>
    intro v f A sp s hv hn hA hs hshape
    refine Code.returns_pure.2 ⟨sp, hs, hshape.congr (fun x => ⟨Or.inl, ?_⟩) fun _ hx => hx⟩
    rintro (hx | hx)
    · exact hx
    · omega
  | succ n ih =>
    intro v f A sp s hv hn hA hs hshape
    unfold Exec.mappages
    have hnew : ¬ A v := fun hx => lt_irrefl v (hA v hx)
    have hs0 : Holds F o (0 + own v f) d sp s := by rwa [own_of_kernel hv]
    refine (hs0.mapPage hshape hnew (by omega) false).bind fun r t ht => ?_
    cases r with
    | false =>
      obtain ⟨rfl, hfree⟩ := ht
      refine Code.returns_pure.2 ⟨hfree, sp, 0, hs, hshape.congr (fun x => ⟨Or.inl, ?_⟩) fun _ hx => hx⟩
      rintro (hx | hx)
      · exact hx
      · omega
    | true =>
      obtain ⟨sp1, hs1, hshape1⟩ := ht
      have hshape2 : Shape (fun x => A x ∨ x = v) (fun _ => False) sp1 :=
        hshape1.congr (fun _ => Iff.rfl) fun x hx => hx.elim id fun hu => absurd hu.1 Bool.false_ne_true
      refine (ih (v + 1) (f + 1) _ sp1 t (by omega) (by omega) (fun x hx => ?_) hs1 hshape2).mono
        fun r u hu => ?_
      · rcases hx with hx | rfl
        · exact (hA x hx).trans (Nat.lt_succ_self v)
        · exact Nat.lt_succ_self x
      · have hjoin : ∀ k x, ((A x ∨ x = v) ∨ v + 1 ≤ x ∧ x < v + 1 + k) ↔
            (A x ∨ v ≤ x ∧ x < v + (k + 1)) := by
          intro k x
          rw [or_assoc]
          exact or_congr_right (by omega)
        cases r with
        | true =>
          obtain ⟨sp2, hs2, hshape3⟩ := hu
          exact ⟨sp2, hs2, hshape3.congr (hjoin n) fun _ hx => hx⟩
        | false =>
          obtain ⟨hfree, sp2, k, hs2, hshape3⟩ := hu
          exact ⟨hfree, sp2, k + 1, hs2, hshape3.congr (hjoin k) fun _ hx => hx⟩

/-- The ranges of a list of mappings, one after the other, from page `v` on. -/
def Ascending : Nat → List (Nat × Nat × Nat) → Prop
  | _, [] => True
  | lo, (v, _, n) :: ks => lo ≤ v ∧ v + n ≤ 0x100000 ∧ Ascending (v + n) ks

theorem Holds.mapKernel (hF : Valid L F) :
    ∀ (ks : List (Nat × Nat × Nat)) (lo : Nat) (A : Nat → Prop) (sp : Space) (s : Vm),
      UPAGES ≤ lo → Ascending lo ks → (∀ x, A x → UPAGES ≤ x ∧ x < lo) → Holds F o 0 d sp s →
      Shape A (fun _ => False) sp →
      Returns id (mapKernel L d ks) s fun r t => match r with
        | true => ∃ sp', Holds F o 0 d sp' t ∧
            Shape (fun x => A x ∨ ∃ k ∈ ks, k.1 ≤ x ∧ x < k.1 + k.2.2) (fun _ => False) sp'
        | false => Freed F o t ∧ F.card ≤ 1025 := by
  intro ks
  induction ks with
  | nil =>
    intro lo A sp s hlo hks hA hs hshape
    exact Code.returns_pure.2 ⟨sp, hs, hshape.congr (fun x => by simp) fun _ hx => hx⟩
  | cons k ks ih =>
    obtain ⟨v, f, n⟩ := k
    intro lo A sp s hlo hks hA hs hshape
    obtain ⟨hv, hn, hks⟩ := hks
    unfold Exec.mapKernel
    refine (Holds.mappages n v f A sp s (hlo.trans hv) hn (fun x hx => (hA x hx).2.trans_le hv) hs
      hshape).bind fun r t ht => ?_
    cases r with
    | true =>
      obtain ⟨sp1, hs1, hshape1⟩ := ht
      rw [if_pos rfl]
      refine (ih (v + n) _ sp1 t (by omega) hks (fun x hx => ?_) hs1 hshape1).mono fun r u hu => ?_
      · rcases hx with hx | hx
        · have hx := hA x hx
          omega
        · omega
      · cases r with
        | false => exact hu
        | true =>
          obtain ⟨sp2, hs2, hshape2⟩ := hu
          exact ⟨sp2, hs2, hshape2.congr (fun x => by simp [or_assoc]) fun _ hx => hx⟩
    | false =>
      obtain ⟨hfree, sp1, k, hs1, hshape1⟩ := ht
      rw [if_neg Bool.false_ne_true]
      -- no user page is mapped yet
      have hcard : F.card ≤ 1025 := by
        refine hs1.card_le (n := 0) hfree hshape1 (Nat.zero_le _) fun x hx => ?_
        constructor
        · rintro (hx' | hx')
          · exact absurd (hA x hx').1 (Nat.not_le.2 hx)
          · omega
        · exact fun h0 => absurd h0 (Nat.not_lt_zero x)
      refine (hs1.freevm hF).bind fun _ u hu => ?_
      exact Code.returns_pure.2 ⟨hu, hcard⟩

theorem empty_tables : Space.empty.tables = 0 := by
  unfold Space.tables
  exact Finset.sum_eq_zero fun _ _ => rfl

theorem kmap_ascending (L : Link) : Ascending UPAGES (kmap L) := by
  have htext := L.text
  have hram := L.ram
  unfold PHYSPAGES at hram
  simp only [kmap, Ascending, UPAGES, PHYSPAGES, and_true]
  omega

theorem mem_kmap (L : Link) (x : Nat) :
    (∃ k ∈ kmap L, k.1 ≤ x ∧ x < k.1 + k.2.2) ↔ KernelPage x := by
  have htext := L.text
  have hram := L.ram
  unfold PHYSPAGES at hram
  simp only [kmap, KernelPage, UPAGES, PHYSPAGES, List.mem_cons, List.not_mem_nil, or_false,
    exists_eq_or_imp, exists_eq_left]
  omega

/-- **`setupkvm`** maps the kernel's pages, unless memory runs out. -/
theorem setupkvm_returns (hF : Valid L (s.freelist : Multiset Nat)) :
    Returns id (setupkvm L) s fun r t => match r with
      | none => Freed s.freelist s t ∧ s.freelist.length ≤ 1025
      | some d => ∃ sp, Holds s.freelist s 0 d sp t ∧ Shape (Image 0) (fun _ => False) sp := by
  unfold Exec.setupkvm
  cases hfree : s.freelist with
  | nil =>
    refine Returns.bind_run (kalloc_none hfree) (Code.returns_pure.2 ⟨⟨?_, ?_, ?_⟩, Nat.zero_le _⟩)
    · rw [hfree]
    · exact fun _ _ => rfl
    · exact fun _ _ => rfl
  | cons d fs =>
    rw [hfree] at hF
    refine Returns.bind_run (kalloc_some hfree) ?_
    rw [Code.returns_modify_bind]
    have hd : d ∈ ((d :: fs : List Nat) : Multiset Nat) := List.mem_cons_self
    have hs : Holds ((d :: fs : List Nat) : Multiset Nat) s 0 d Space.empty
        (Vm.setSpace { s with freelist := fs } d (some Space.empty)) := by
      refine ⟨Function.update_self .., ?_, fun _ _ => rfl, fun x hx => ?_, ?_⟩
      · rw [empty_tables, pages_eq_zero fun _ _ => rfl, ← Multiset.cons_coe, ← Multiset.singleton_add]
        change (fs : Multiset Nat) + (0 + ({d} + (0 + 0))) = _
        abel
      · exact Function.update_of_ne (ne_of_mem_of_not_mem hd hx).symm _ _
      · exact ⟨fun v hv => absurd hv Bool.false_ne_true, fun i hi => absurd hi Bool.false_ne_true⟩
    have hshape : Shape (fun _ => False) (fun _ => False) Space.empty :=
      ⟨fun v => by simp [Space.empty], fun i => by simp [Space.empty], fun v e he => by cases he⟩
    refine (Holds.mapKernel hF (kmap L) UPAGES _ _ _ le_rfl (kmap_ascending L) (fun x hx => hx.elim) hs
      hshape).bind fun r t ht => ?_
    cases r with
    | false =>
      rw [if_neg Bool.false_ne_true]
      exact Code.returns_pure.2 ⟨ht.1, ht.2⟩
    | true =>
      obtain ⟨sp, hs1, hshape1⟩ := ht
      rw [if_pos rfl]
      refine Code.returns_pure.2 ⟨sp, hs1, hshape1.congr (fun x => ?_) fun _ hx => hx⟩
      rw [mem_kmap, false_or]
      exact ⟨Or.inr, fun hx => hx.resolve_left (Nat.not_lt_zero x)⟩

/-! ## `allocuvm` and `clearpteu` -/

theorem Holds.allocLoop {oldsz newsz : Word} (hF : Valid L F) (hnew : pagesUp newsz ≤ UPAGES) :
    ∀ (n v : Nat) (sp : Space) (s : Vm), v + n ≤ UPAGES → Holds F o 0 d sp s →
      Shape (Image v) (· < v) sp →
      Returns id (allocLoop L d oldsz newsz n v) s fun r t =>
        (r = newsz ∧ ∃ sp', Holds F o 0 d sp' t ∧ Shape (Image (v + n)) (· < v + n) sp') ∨
          (r = 0 ∧ F.card ≤ 1026 + (v + n) ∧ ∃ sp', Holds F o 0 d sp' t) := by
  intro n
  induction n with
  | zero => exact fun v sp s _ hs hshape => Code.returns_pure.2 (Or.inl ⟨rfl, sp, hs, hshape⟩)
  | succ n ih =>
    intro v sp s hv hs hshape
    have hlow : v < UPAGES := by omega
    have himage : ∀ x, x < UPAGES → (Image v x ↔ x < v) := fun x => image_low
    unfold Exec.allocLoop
    refine hs.kalloc.bind fun r t ht => ?_
    cases r with
    -- `kalloc` has failed
    | none =>
      obtain ⟨rfl, hfree⟩ := ht
      have hcard := hs.card_le hfree hshape hlow.le himage
      rw [Multiset.card_zero] at hcard
      refine (hs.deallocuvm hF hnew).bind fun _ u ⟨sp1, hs1, _⟩ => ?_
      exact Code.returns_pure.2 (Or.inr ⟨rfl, by omega, sp1, hs1⟩)
    | some f =>
      rw [Code.returns_modify_bind]
      have hf : f ∈ F := Holds.mem_taken ht
      have hown : own v f = {f} := if_pos hlow
      have hs1 : Holds F o (0 + own v f) d sp (t.setMem f fun _ => 0) := by
        rw [hown]
        exact Holds.setMem ht hf _
      have hnot : ¬ Image v v := mt (himage v hlow).1 (lt_irrefl v)
      refine (hs1.mapPage hshape hnot (by unfold UPAGES at hlow; omega) true).bind
        fun r u hu => ?_
      cases r with
      -- there was a frame for the page, but none for its page table
      | false =>
        obtain ⟨rfl, hfree⟩ := hu
        rw [hown] at hs1
        have hcard := hs1.card_le hfree hshape hlow.le himage
        rw [zero_add, Multiset.card_singleton] at hcard
        rw [if_neg Bool.false_ne_true]
        refine (hs1.deallocuvm hF hnew).bind fun _ u ⟨sp2, hs2, _⟩ => ?_
        refine (hs2.kfree hF).bind fun _ u hs3 => ?_
        exact Code.returns_pure.2 (Or.inr ⟨rfl, by omega, sp2, hs3⟩)
      | true =>
        obtain ⟨sp1, hs2, hshape1⟩ := hu
        rw [if_pos rfl]
        have hshape2 : Shape (Image (v + 1)) (· < v + 1) sp1 := by
          refine hshape1.congr (fun x => ?_) fun x hx => ?_
          · unfold Image
            rw [or_right_comm]
            exact or_congr_left (by omega)
          · rcases hx with hx | ⟨_, rfl⟩
            · exact Nat.lt_succ_of_lt hx
            · exact Nat.lt_succ_self x
        have hgo := ih (v + 1) sp1 u (by omega) hs2 hshape2
        rwa [show v + 1 + n = v + (n + 1) by omega] at hgo

theorem pagesUp_le {sz : Word} (hsz : sz.toNat ≤ 0x80000000) : pagesUp sz ≤ UPAGES := by
  unfold pagesUp UPAGES
  omega

/-- **`allocuvm`** makes an image of the pages of the larger size, or leaves a directory that
can be given back. -/
theorem Holds.allocuvm (oldsz newsz : Word) (hs : Holds F o 0 d sp s) (hF : Valid L F)
    (hshape : Shape (Image (pagesUp oldsz)) (· < pagesUp oldsz) sp) :
    Returns id (allocuvm L d oldsz newsz) s fun r t =>
      (newsz < 0x80000000 ∧ (r = if newsz < oldsz then oldsz else newsz) ∧
        ∃ sp', Holds F o 0 d sp' t ∧ Shape (Image (pagesUp r)) (· < pagesUp r) sp') ∨
      (r = 0 ∧ (newsz < 0x80000000 → F.card ≤ 1026 + pagesUp newsz) ∧ ∃ sp', Holds F o 0 d sp' t) := by
  unfold Exec.allocuvm
  by_cases hbig : 0x80000000 ≤ newsz
  · rw [if_pos hbig]
    exact Code.returns_pure.2 (Or.inr ⟨rfl, fun hlt => absurd hbig (BitVec.not_le.2 hlt), sp, hs⟩)
  · rw [if_neg hbig]
    have hlt : newsz < 0x80000000 := BitVec.not_le.1 hbig
    by_cases hless : newsz < oldsz
    · rw [if_pos hless]
      exact Code.returns_pure.2 (Or.inl ⟨hlt, (if_pos hless).symm, sp, hs, hshape⟩)
    · rw [if_neg hless]
      have hnew : pagesUp newsz ≤ UPAGES := pagesUp_le (BitVec.lt_def.1 hlt).le
      have hmono : pagesUp oldsz ≤ pagesUp newsz := by
        have hle := BitVec.le_def.1 (BitVec.not_lt.1 hless)
        unfold pagesUp
        omega
      have hsum : pagesUp oldsz + (pagesUp newsz - pagesUp oldsz) = pagesUp newsz := by omega
      refine (Holds.allocLoop hF hnew _ (pagesUp oldsz) sp s (by omega) hs hshape).mono fun r t ht => ?_
      rw [hsum] at ht
      rcases ht with ⟨rfl, hgood⟩ | ⟨rfl, hcard, hbad⟩
      · exact Or.inl ⟨hlt, (if_neg hless).symm, hgood⟩
      · exact Or.inr ⟨rfl, fun _ => hcard, hbad⟩

theorem Holds.clearpteu (hs : Holds F o 0 d sp s) (hshape : Shape A U sp) (hA : A v)
    (hv : v < UPAGES) :
    Returns id (clearpteu d v) s fun _ t => ∃ sp', Holds F o 0 d sp' t ∧
      Shape A (fun x => U x ∧ x ≠ v) sp' := by
  have htab : (sp.tab (v / 1024)).isSome := (hshape.tab _).2 ⟨v, hA, rfl⟩
  obtain ⟨e, he⟩ := Option.isSome_iff_exists.1 ((hshape.pte v).2 hA)
  unfold Exec.clearpteu
  refine Returns.bind_run hs.walkpgdir ?_
  rw [if_pos htab, Code.returns_modify, hs.space]
  change ∃ sp', Holds F o 0 d sp' (s.setSpace d (some (sp.setPte v ((sp.pte v).map fun e =>
    { e with user := false })))) ∧ _
  rw [he]
  refine ⟨_, hs.setSpace ?_ ⟨fun x hx => ?_, hs.linked.dir⟩, fun x => ?_, fun i => ?_, fun x e' he' hu => ?_⟩
  · have hpages := pages_setPte sp (some { e with user := false }) hv
    rw [he] at hpages
    have hsame : (sp.setPte v (some { e with user := false })).pages = sp.pages :=
      add_right_cancel hpages
    change 0 + ((sp.setPte v (some { e with user := false })).tables +
      (sp.setPte v (some { e with user := false })).pages) = _
    rw [tables_setPte, hsame]
  · by_cases hxv : x = v
    · rw [hxv]
      exact htab
    · change (Function.update sp.pte v _ x).isSome = true at hx
      rw [Function.update_of_ne hxv] at hx
      exact hs.linked.tab x hx
  · change (Function.update sp.pte v _ x).isSome = true ↔ _
    by_cases hxv : x = v
    · rw [hxv, Function.update_self]
      exact ⟨fun _ => hA, fun _ => rfl⟩
    · rw [Function.update_of_ne hxv]
      exact hshape.pte x
  · exact hshape.tab i
  · change Function.update sp.pte v _ x = some e' at he'
    by_cases hxv : x = v
    · rw [hxv, Function.update_self] at he'
      obtain rfl := Option.some.inj he'
      exact absurd hu Bool.false_ne_true
    · rw [Function.update_of_ne hxv] at he'
      exact ⟨hshape.user x e' he' hu, hxv⟩

/-! ## `copyout` -/

theorem Holds.uva2ka (hs : Holds F o h d sp s) (cr3 : Nat) (htab : (sp.tab (v / 1024)).isSome) :
    (uva2ka cr3 d v).run id s = .ok (match sp.pte v with
      | some e => if e.user then some (e.frame + UPAGES) else none
      | none => none, s) := by
  unfold Exec.uva2ka
  rw [Code.run_bind_of_ok hs.walkpgdir, if_pos htab, Code.run_bind_of_ok hs.pgdir]
  cases sp.pte v with
  | none => rfl
  | some e => rfl

/-- The kernel can write to each of the frames. -/
theorem Holds.storeBytes (hs : Holds F o h d sp s) (hF : Valid L F) (hf : f ∈ F) (cr3 off : Nat)
    (bs : List Byte) :
    Returns id (storeBytes L cr3 (f + UPAGES) off bs) s fun _ t => Holds F o h d sp t := by
  obtain ⟨hkend, htop⟩ := hF f hf
  have horder := L.order
  unfold Exec.storeBytes
  rw [if_neg (by omega), if_pos (by omega), if_neg (by omega), Code.returns_modify,
    Nat.add_sub_cancel]
  exact hs.setMem hf _

theorem Image.tab {n : Nat} (hshape : Shape (Image n) U sp) (hn : n ≤ UPAGES) (hv : Hole v) :
    sp.tab (v / 1024) = none := by
  by_contra hne
  obtain ⟨x, hx, hxv⟩ := (hshape.tab _).1 (Option.isSome_iff_ne_none.2 hne)
  unfold Hole at hv
  unfold Image KernelPage at hx
  unfold UPAGES PHYSPAGES at *
  omega

/-- A copy within the image returns; when it succeeds, all its pages are user pages. -/
theorem Holds.copyout_low {n : Nat} (hF : Valid L F) (hshape : Shape (Image n) U sp)
    (hn : n ≤ UPAGES) (cr3 : Nat) :
    ∀ (fuel : Nat) (va : Word) (bs : List Byte) (s : Vm), bs.length ≤ fuel →
      va.toNat + bs.length ≤ n * 4096 → Holds F o h d sp s →
      Returns id (copyout L cr3 d fuel va bs) s fun r t => Holds F o h d sp t ∧
        (r = true → ∀ i, i < bs.length → U ((va.toNat + i) / 4096)) := by
  intro fuel
  induction fuel with
  | zero =>
    intro va bs s hfuel hva hs
    exact Code.returns_pure.2 ⟨hs, fun _ i hi => by omega⟩
  | succ fuel ih =>
    intro va bs s hfuel hva hs
    unfold Exec.copyout
    by_cases hnil : bs = []
    · rw [if_pos hnil]
      refine Code.returns_pure.2 ⟨hs, fun _ i hi => ?_⟩
      rw [hnil] at hi
      exact absurd hi (Nat.not_lt_zero i)
    · rw [if_neg hnil]
      have hpos : 0 < bs.length := List.length_pos_iff.2 hnil
      have hpage : va.toNat / 4096 < n := by omega
      have hA : Image n (va.toNat / 4096) := Or.inl hpage
      have hlow : va.toNat / 4096 < UPAGES := hpage.trans_le hn
      obtain ⟨e, he⟩ := Option.isSome_iff_exists.1 ((hshape.pte _).2 hA)
      refine Returns.bind_run (hs.uva2ka cr3 ((hshape.tab _).2 ⟨_, hA, rfl⟩)) ?_
      rw [he]
      by_cases hu : e.user = true
      · simp only [hu, if_true]
        rw [if_neg (by unfold UPAGES; omega)]
        refine (hs.storeBytes hF (hs.mem_page hlow he) cr3 _ _).bind fun _ t ht => ?_
        unfold UPAGES at hn
        have hnext : (BitVec.ofNat 32 (va.toNat / 4096 * 4096 + 4096)).toNat =
            va.toNat / 4096 * 4096 + 4096 := by
          rw [BitVec.toNat_ofNat, Nat.mod_eq_of_lt (by omega)]
        refine (ih _ _ t ?_ ?_ ht).mono fun r u ⟨hu1, hall⟩ => ⟨hu1, fun hr i hi => ?_⟩
        · rw [List.length_drop]
          omega
        · rw [hnext, List.length_drop]
          omega
        -- a byte of this turn is in a user page, and one of the turns to come by induction
        · by_cases him : i < 4096 - va.toNat % 4096
          · rw [show (va.toNat + i) / 4096 = va.toNat / 4096 by omega]
            exact hshape.user _ e he hu
          · have hrest := hall hr (i - min (4096 - va.toNat % 4096) bs.length)
              (by rw [List.length_drop]; omega)
            rw [hnext] at hrest
            rwa [show va.toNat + i = va.toNat / 4096 * 4096 + 4096 +
              (i - min (4096 - va.toNat % 4096) bs.length) by omega]
      · simp only [hu]
        exact Code.returns_pure.2 ⟨hs, fun hr => absurd hr Bool.false_ne_true⟩

/-- Where there is no page table, `uva2ka` takes the word at address 0 for the entry. -/
theorem uva2ka_null (hwalk : (walkpgdir d v).run id s = .ok (false, s)) (cr3 : Nat) :
    (uva2ka cr3 d v).run id s = match s.nullWord cr3 with
      | some w => .ok (if userEntry w then some (kpage w) else none, s)
      | none => .error "trap" := by
  unfold Exec.uva2ka loadNull
  rw [Code.run_bind_of_ok hwalk, if_neg Bool.false_ne_true, Code.run_bind, Code.run_get_bind]
  cases s.nullWord cr3 with
  | some w => rfl
  | none => rfl

/-- A copy to the kernel's part fails. -/
theorem Holds.copyout_kernel {n fuel : Nat} {va : Word} {bs : List Byte}
    (hs : Holds F o h d sp s) (hshape : Shape (Image n) U sp) (hn : n ≤ UPAGES)
    (hU : ∀ x, U x → x < n) (cr3 : Nat) (hbs : bs ≠ []) (hva : UPAGES ≤ va.toNat / 4096)
    (hhole : ¬ Hole (va.toNat / 4096)) :
    Returns id (copyout L cr3 d (fuel + 1) va bs) s fun r t => r = false ∧ t = s := by
  unfold Exec.copyout
  rw [if_neg hbs]
  have hA : Image n (va.toNat / 4096) := by
    have hlt := va.isLt
    unfold Hole at hhole
    refine Or.inr ?_
    unfold KernelPage
    unfold UPAGES PHYSPAGES at *
    omega
  refine Returns.bind_run (hs.uva2ka cr3 ((hshape.tab _).2 ⟨_, hA, rfl⟩)) ?_
  have hnone : (match sp.pte (va.toNat / 4096) with
      | some e => if e.user then some (e.frame + UPAGES) else none
      | none => none) = none := by
    cases he : sp.pte (va.toNat / 4096) with
    | none => rfl
    | some e =>
      refine if_neg fun hu => ?_
      have hx := hU _ (hshape.user _ e he hu)
      omega
  rw [hnone]
  exact Code.returns_pure.2 ⟨rfl, rfl⟩

/-- So does one to the hole, unless a word at address 0 that looks like an entry of a page table
lets it through. -/
theorem Holds.copyout_high {n fuel : Nat} {cr3 : Nat} {va : Word} {bs : List Byte}
    (hs : Holds F o h d sp s) (hshape : Shape (Image n) U sp) (hn : n ≤ UPAGES)
    (hU : ∀ x, U x → x < n) (hbs : bs ≠ []) (hva : UPAGES ≤ va.toNat / 4096)
    (hsafe : Hole (va.toNat / 4096) → ∀ w, s.nullWord cr3 = some w → userEntry w = false) :
    Ends id (copyout L cr3 d (fuel + 1) va bs) s (· = "trap") fun r t => r = false ∧ t = s := by
  by_cases hhole : Hole (va.toNat / 4096)
  · have hwalk := hs.walkpgdir (v := va.toNat / 4096)
    rw [Image.tab hshape hn hhole] at hwalk
    have hnull := uva2ka_null hwalk cr3
    unfold Exec.copyout
    rw [if_neg hbs]
    cases hw : s.nullWord cr3 with
    | none =>
      rw [hw] at hnull
      unfold Ends
      rw [Code.run_bind, hnull]
      exact ⟨fun a t hm => (nomatch hm), fun msg hm => (Except.error.inj hm).symm⟩
    | some w =>
      rw [hw] at hnull
      refine Ends.bind_run hnull ?_
      rw [hsafe hhole w hw, if_neg Bool.false_ne_true]
      exact Code.ends_pure _ |>.2 ⟨rfl, rfl⟩
  · exact (hs.copyout_kernel hshape hn hU cr3 hbs hva hhole).ends

/-- Where it does let it through, the first bytes go to the frame in the word. Here the string
starts in the last page of the hole, and the copy fails at the next one. -/
theorem Holds.copyout_stray {n cr3 : Nat} {va w : Word} {bs : List Byte} (m : Nat)
    (hs : Holds F o h d sp s) (hshape : Shape (Image n) U sp) (hn : n ≤ UPAGES)
    (hU : ∀ x, U x → x < n) (hw : s.nullWord cr3 = some w) (hu : userEntry w = true)
    (hf : kpage w = f + UPAGES) (hdata : L.data ≤ f) (htop : f < PHYSPAGES)
    (hva : va.toNat / 4096 = 0xFDFFF) (hbs : 4096 - va.toNat % 4096 < bs.length) :
    Returns id (copyout L cr3 d (m + 2) va bs) s fun r t => r = false ∧
      t = s.setMem f (overlay (s.mem f) (va.toNat % 4096) (bs.take (4096 - va.toNat % 4096))) := by
  have hhole : Hole (va.toNat / 4096) := by
    rw [hva]
    decide
  have hwalk := hs.walkpgdir (v := va.toNat / 4096)
  rw [Image.tab hshape hn hhole] at hwalk
  have hnull := uva2ka_null hwalk cr3
  rw [hw] at hnull
  unfold Exec.copyout
  rw [if_neg (List.length_pos_iff.1 (by omega))]
  refine Returns.bind_run hnull ?_
  rw [if_pos hu, hf]
  simp only []
  rw [if_neg (by unfold UPAGES; omega), min_eq_left hbs.le]
  have hstore : (Exec.storeBytes L cr3 (f + UPAGES) (va.toNat % 4096)
      (bs.take (4096 - va.toNat % 4096))).run id s = .ok ((), s.setMem f
        (overlay (s.mem f) (va.toNat % 4096) (bs.take (4096 - va.toNat % 4096)))) := by
    have htext := L.text
    unfold Exec.storeBytes
    rw [if_neg (by omega), if_pos (by omega), if_neg (by omega), Nat.add_sub_cancel]
    rfl
  refine Returns.bind_run hstore ?_
  have hnext : (BitVec.ofNat 32 (va.toNat / 4096 * 4096 + 4096)).toNat / 4096 = 0xFE000 := by
    rw [hva]
    decide
  -- the next page is one of the devices
  refine (hs.setMem_other _).copyout_kernel hshape hn hU cr3 ?_ ?_ ?_
  · exact List.length_pos_iff.1 (by rw [List.length_drop]; omega)
  · rw [hnext]
    decide
  · rw [hnext]
    decide

end Xv6.Shell.Exec
