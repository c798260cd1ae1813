/-
The frames of a page directory that is being built.

`exec` builds its page directory from frames of the free list and, when it fails, puts all
of them back. At each moment the frames that were free when it started are those on the
free list, those in the hands of the code, and those of the directory: its own, its page
tables and its user pages (`Holds`). No other frame is touched.
-/
import Mathlib
import Xv6.Shell.Vm

set_option autoImplicit false

namespace Xv6.Shell.Exec

open Xv6.Lib
open Xv6.Lib.Code (Returns)

/-! ## Frames -/

/-- A frame, if there is one. -/
def opt : Option Nat → Multiset Nat
  | none => 0
  | some f => {f}

/-- The page tables of a directory. -/
@[irreducible] def Space.tables (sp : Space) : Multiset Nat := ∑ i ∈ Finset.range 1024, opt (sp.tab i)

/-- Its user pages. -/
@[irreducible] def Space.pages (sp : Space) : Multiset Nat :=
  ∑ v ∈ Finset.range UPAGES, opt ((sp.pte v).map Pte.frame)

/-- Each present entry is in a page table. -/
structure Space.Linked (sp : Space) : Prop where
  tab : ∀ v, (sp.pte v).isSome → (sp.tab (v / 1024)).isSome
  dir : ∀ i, (sp.tab i).isSome → i < 1024

/-- The directory at frame `d` is `sp`, and the frames `F` are those on the free list, those
in hand (`h`), and those of the directory. The others are as in `o`. -/
structure Holds (F : Multiset Nat) (o : Vm) (h : Multiset Nat) (d : Nat) (sp : Space) (s : Vm) :
    Prop where
  space : s.space d = some sp
  frames : (s.freelist : Multiset Nat) + (h + ({d} + (sp.tables + sp.pages))) = F
  mem : ∀ f ∉ F, s.mem f = o.mem f
  spaces : ∀ f ∉ F, s.space f = o.space f
  linked : sp.Linked

/-- Each of the frames can be given back. -/
def Valid (L : Link) (F : Multiset Nat) : Prop := ∀ f ∈ F, L.kend ≤ f ∧ f < PHYSPAGES

variable {L : Link} {F h : Multiset Nat} {o s : Vm} {d v f : Nat} {sp : Space}

theorem sum_update {n i : Nat} (hi : i < n) (g : Nat → Multiset Nat) (b : Multiset Nat) :
    (∑ x ∈ Finset.range n, Function.update g i b x) + g i = (∑ x ∈ Finset.range n, g x) + b := by
  have hmem : i ∈ Finset.range n := Finset.mem_range.2 hi
  rw [Finset.sum_update_of_mem hmem, Finset.sum_eq_add_sum_sdiff_singleton_of_mem hmem g]
  abel

theorem tables_addTable {i : Nat} (hi : i < 1024) (hn : sp.tab i = none) :
    (sp.addTable i f).tables = sp.tables + {f} := by
  -- only the term of entry `i` changes
  have h := sum_update hi (fun x => opt (sp.tab x)) {f}
  have hfun : ∀ x, opt ((sp.addTable i f).tab x) =
      Function.update (fun x => opt (sp.tab x)) i {f} x := by
    intro x
    rw [Space.addTable_tab]
    by_cases hx : x = i
    · rw [hx, Function.update_self, Function.update_self]
      rfl
    · rw [Function.update_of_ne hx, Function.update_of_ne hx]
  unfold Space.tables
  rw [Finset.sum_congr rfl fun x _ => hfun x]
  rw [hn] at h
  exact (add_zero _).symm.trans h

/-- A directory entry without a table has no entries below it. -/
theorem Space.Linked.pte_addTable {i : Nat} (hl : sp.Linked) (hn : sp.tab i = none) :
    (sp.addTable i f).pte = sp.pte := by
  funext v
  change (if v / 1024 = i then none else sp.pte v) = sp.pte v
  by_cases hv : v / 1024 = i
  · rw [if_pos hv]
    by_contra hne
    have hsome := hl.tab v (Option.isSome_iff_ne_none.2 (Ne.symm hne))
    rw [hv, hn] at hsome
    exact Bool.false_ne_true hsome
  · rw [if_neg hv]

theorem pages_setPte (sp : Space) (e : Option Pte) (hv : v < UPAGES) :
    (sp.setPte v e).pages + opt ((sp.pte v).map Pte.frame) =
      sp.pages + opt (e.map Pte.frame) := by
  have h := sum_update hv (fun x => opt ((sp.pte x).map Pte.frame)) (opt (e.map Pte.frame))
  have hfun : ∀ x, opt (((sp.setPte v e).pte x).map Pte.frame) =
      Function.update (fun x => opt ((sp.pte x).map Pte.frame)) v (opt (e.map Pte.frame)) x := by
    intro x
    rw [Space.setPte_pte]
    by_cases hx : x = v
    · rw [hx, Function.update_self, Function.update_self]
    · rw [Function.update_of_ne hx, Function.update_of_ne hx]
  unfold Space.pages
  rw [Finset.sum_congr rfl fun x _ => hfun x]
  exact h

theorem pages_setPte_kernel {e : Option Pte} (hv : UPAGES ≤ v) :
    (sp.setPte v e).pages = sp.pages := by
  unfold Space.pages
  refine Finset.sum_congr rfl fun x hx =>
    congrArg (fun e : Option Pte => opt (e.map Pte.frame)) ?_
  have hxv : x ≠ v := fun h => absurd (Finset.mem_range.1 hx) (by omega)
  exact Function.update_of_ne hxv e sp.pte

/-! ## The moves of a frame -/

/-- A frame of the directory, of the free list or in hand is one of `F`. -/
theorem Holds.mem_hand (hs : Holds F o h d sp s) {f : Nat} (hf : f ∈ h) : f ∈ F := by
  rw [← hs.frames]
  exact Multiset.mem_add.2 (Or.inr (Multiset.mem_add.2 (Or.inl hf)))

theorem Holds.mem_dir (hs : Holds F o h d sp s) : d ∈ F := by
  rw [← hs.frames]
  refine Multiset.mem_add.2 (Or.inr (Multiset.mem_add.2 (Or.inr (Multiset.mem_add.2 (Or.inl ?_)))))
  exact Multiset.mem_singleton_self d

theorem Holds.mem_page (hs : Holds F o h d sp s) {e : Pte} (hv : v < UPAGES)
    (he : sp.pte v = some e) : e.frame ∈ F := by
  have hpages : e.frame ∈ sp.pages := by
    unfold Space.pages
    rw [Multiset.mem_sum]
    exact ⟨v, Finset.mem_range.2 hv, by rw [he]; exact Multiset.mem_singleton_self _⟩
  rw [← hs.frames]
  refine Multiset.mem_add.2 (Or.inr (Multiset.mem_add.2 (Or.inr (Multiset.mem_add.2 (Or.inr ?_)))))
  exact Multiset.mem_add.2 (Or.inr hpages)

theorem Holds.mem_taken (hs : Holds F o (h + {f}) d sp s) : f ∈ F :=
  hs.mem_hand (Multiset.mem_add.2 (Or.inr (Multiset.mem_singleton_self f)))

/-- A write to one of the frames. -/
theorem Holds.setMem (hs : Holds F o h d sp s) (hf : f ∈ F) (p : Page) :
    Holds F o h d sp (s.setMem f p) where
  space := hs.space
  frames := hs.frames
  mem x hx := by
    rw [Vm.setMem_mem, Function.update_of_ne (ne_of_mem_of_not_mem hf hx).symm]
    exact hs.mem x hx
  spaces := hs.spaces
  linked := hs.linked

/-- A write to another frame, which is then as in the new state. -/
theorem Holds.setMem_other (hs : Holds F o h d sp s) (p : Page) :
    Holds F (o.setMem f p) h d sp (s.setMem f p) where
  space := hs.space
  frames := hs.frames
  mem x hx := by
    rw [Vm.setMem_mem, Vm.setMem_mem]
    by_cases hxf : x = f
    · rw [hxf, Function.update_self, Function.update_self]
    · rw [Function.update_of_ne hxf, Function.update_of_ne hxf]
      exact hs.mem x hx
  spaces := hs.spaces
  linked := hs.linked

/-- A write to the directory, where the frames that it gives up are in hand afterwards. -/
theorem Holds.setSpace (hs : Holds F o h d sp s) {sp' : Space} {h' : Multiset Nat}
    (hf : h' + (sp'.tables + sp'.pages) = h + (sp.tables + sp.pages)) (hl : sp'.Linked) :
    Holds F o h' d sp' (s.setSpace d (some sp')) where
  space := Function.update_self ..
  frames := by
    rw [Vm.setSpace_freelist, ← hs.frames, add_left_comm h', hf,
      add_left_comm ({d} : Multiset Nat) h]
  mem := hs.mem
  spaces x hx := by
    rw [Vm.setSpace_space, Function.update_of_ne (ne_of_mem_of_not_mem hs.mem_dir hx).symm]
    exact hs.spaces x hx
  linked := hl

theorem kalloc_none (hfree : s.freelist = []) : kalloc.run id s = .ok (none, s) := by
  unfold Exec.kalloc
  rw [Code.run_get_bind, hfree]
  rfl

theorem kalloc_some {fs : List Nat} (hfree : s.freelist = f :: fs) :
    kalloc.run id s = .ok (some f, { s with freelist := fs }) := by
  unfold Exec.kalloc
  rw [Code.run_get_bind, hfree]
  rfl

theorem Holds.pgdir (hs : Holds F o h d sp s) : (pgdir d).run id s = .ok (sp, s) := by
  unfold Exec.pgdir
  rw [Code.run_get_bind, hs.space]
  rfl

/-- A frame from the free list comes into hand, unless there is none. -/
theorem Holds.kalloc (hs : Holds F o h d sp s) :
    Returns id kalloc s fun r t => match r with
      | none => t = s ∧ s.freelist = []
      | some f => Holds F o (h + {f}) d sp t := by
  cases hfree : s.freelist with
  | nil => exact ⟨none, s, kalloc_none hfree, rfl, rfl⟩
  | cons f fs =>
    refine ⟨some f, _, kalloc_some hfree, hs.space, ?_, hs.mem, hs.spaces, hs.linked⟩
    have hframes := hs.frames
    rw [hfree, ← Multiset.cons_coe, ← Multiset.singleton_add] at hframes
    rw [← hframes]
    abel

/-- A frame in hand goes back. -/
theorem Holds.give (hs : Holds F o (h + {f}) d sp s) :
    Holds F o h d sp { s.setMem f (fun _ => 1) with freelist := f :: s.freelist } where
  space := hs.space
  frames := by
    rw [← Multiset.cons_coe, ← Multiset.singleton_add, ← hs.frames]
    abel
  mem := (hs.setMem hs.mem_taken _).mem
  spaces := hs.spaces
  linked := hs.linked

theorem kfree_run (hF : Valid L F) (hf : f ∈ F) (s : Vm) :
    (kfree L f).run id s =
      .ok ((), { s.setMem f (fun _ => 1) with freelist := f :: s.freelist }) := by
  unfold Exec.kfree
  rw [if_pos (hF f hf)]
  rfl

theorem Holds.kfree (hs : Holds F o (h + {f}) d sp s) (hF : Valid L F) :
    Returns id (kfree L f) s fun _ t => Holds F o h d sp t :=
  ⟨(), _, kfree_run hF hs.mem_taken s, hs.give⟩

/-! ## Giving a directory back -/

/-- All the frames are free again, and the others as in `o`. -/
structure Freed (F : Multiset Nat) (o s : Vm) : Prop where
  frames : (s.freelist : Multiset Nat) = F
  mem : ∀ f ∉ F, s.mem f = o.mem f
  spaces : ∀ f ∉ F, s.space f = o.space f

theorem Space.Linked.clear (hl : sp.Linked) : (sp.setPte v none).Linked where
  tab x hx := by
    rw [Space.setPte_pte] at hx
    by_cases hxv : x = v
    · rw [hxv, Function.update_self] at hx
      exact absurd hx Bool.false_ne_true
    · rw [Function.update_of_ne hxv] at hx
      exact hl.tab x hx
  dir := hl.dir

@[simp] theorem tables_setPte (e : Option Pte) : (sp.setPte v e).tables = sp.tables := by
  unfold Space.tables
  rfl

theorem Holds.walkpgdir (hs : Holds F o h d sp s) :
    (walkpgdir d v).run id s = .ok ((sp.tab (v / 1024)).isSome, s) := by
  unfold Exec.walkpgdir
  rw [Code.run_bind_of_ok hs.pgdir]
  rfl

/-- A present page is taken out of the directory and freed. -/
theorem Holds.unmap {e : Pte} (hs : Holds F o h d sp s) (hv : v < UPAGES)
    (he : sp.pte v = some e) :
    Holds F o (h + {e.frame}) d (sp.setPte v none) (s.setSpace d (some (sp.setPte v none))) := by
  refine hs.setSpace ?_ hs.linked.clear
  have hpages := pages_setPte sp none hv
  rw [he] at hpages
  have hback : (sp.setPte v none).pages + {e.frame} = sp.pages := hpages.trans (add_zero _)
  rw [tables_setPte, ← hback]
  abel

/-- A turn of `deallocuvm` clears the pages up to the next turn. -/
theorem Holds.deallocPage (hs : Holds F o h d sp s) (hF : Valid L F) (hv : v < UPAGES) :
    Returns id (deallocPage L d v) s fun passed t => ∃ sp', Holds F o h d sp' t ∧
      (∀ x, v ≤ x → x < v + passed + 1 → sp'.pte x = none) ∧
      ∀ x, sp.pte x = none → sp'.pte x = none := by
  unfold Exec.deallocPage
  refine Returns.bind_run hs.walkpgdir ?_
  by_cases htab : (sp.tab (v / 1024)).isSome
  · rw [if_pos htab]
    refine Returns.bind_run hs.pgdir ?_
    cases he : sp.pte v with
    | none =>
      refine Code.returns_pure.2 ⟨sp, hs, fun x h1 h2 => ?_, fun x hx => hx⟩
      rwa [show x = v by omega]
    | some e =>
      refine Returns.bind_run (kfree_run hF (hs.mem_page hv he) s) ?_
      rw [Code.returns_modify_bind, Code.returns_pure]
      -- the frame is freed first, and its entry cleared after that
      refine ⟨sp.setPte v none, (hs.unmap hv he).give, fun x h1 h2 => ?_, fun x hx => ?_⟩
      · rw [show x = v by omega]
        exact Function.update_self ..
      · by_cases hxv : x = v
        · rw [hxv]
          exact Function.update_self ..
        · exact (Function.update_of_ne hxv _ _).trans hx
  · rw [if_neg htab]
    -- a page that is passed over has no page table either, so it is not mapped
    refine Code.returns_pure.2 ⟨sp, hs, fun x h1 h2 => ?_, fun x hx => hx⟩
    by_contra hne
    have hx := hs.linked.tab x (Option.isSome_iff_ne_none.2 hne)
    rw [show x / 1024 = v / 1024 by omega] at hx
    exact htab hx

theorem Holds.deallocLoop {hi : Nat} (hF : Valid L F) (hhi : hi ≤ UPAGES) :
    ∀ (n v : Nat) (sp : Space) (s : Vm), hi ≤ v + n → Holds F o h d sp s →
      Returns id (deallocLoop L d hi n v) s fun _ t => ∃ sp', Holds F o h d sp' t ∧
        (∀ x, v ≤ x → x < hi → sp'.pte x = none) ∧ ∀ x, sp.pte x = none → sp'.pte x = none := by
  intro n
  induction n with
  | zero =>
    intro v sp s hn hs
    exact Code.returns_pure.2 ⟨sp, hs, fun x h1 h2 => by omega, fun x hx => hx⟩
  | succ n ih =>
    intro v sp s hn hs
    unfold Exec.deallocLoop
    by_cases hv : v < hi
    · rw [if_pos hv]
      refine (hs.deallocPage hF (lt_of_lt_of_le hv hhi)).bind fun passed t ⟨sp1, hs1, hgone, hkeep⟩ => ?_
      -- what this turn has cleared stays clear to the end of the loop
      refine (ih (v + passed + 1) sp1 t (by omega) hs1).mono fun _ u ⟨sp2, hs2, hgone2, hkeep2⟩ => ?_
      refine ⟨sp2, hs2, fun x h1 h2 => ?_, fun x hx => hkeep2 x (hkeep x hx)⟩
      by_cases hx : x < v + passed + 1
      · exact hkeep2 x (hgone x h1 hx)
      · exact hgone2 x (by omega) h2
    · rw [if_neg hv]
      exact Code.returns_pure.2 ⟨sp, hs, fun x h1 h2 => by omega, fun x hx => hx⟩

theorem Holds.deallocuvm {hi lo : Nat} (hs : Holds F o h d sp s) (hF : Valid L F)
    (hhi : hi ≤ UPAGES) :
    Returns id (deallocuvm L d hi lo) s fun _ t => ∃ sp', Holds F o h d sp' t ∧
      ∀ x, lo ≤ x → x < hi → sp'.pte x = none :=
  (Holds.deallocLoop hF hhi hi lo sp s (by omega) hs).mono
    fun _ _ ⟨sp', hs', hgone, _⟩ => ⟨sp', hs', hgone⟩

theorem pages_eq_zero (hnone : ∀ x, x < UPAGES → sp.pte x = none) : sp.pages = 0 := by
  unfold Space.pages
  refine Finset.sum_eq_zero fun x hx => ?_
  rw [hnone x (Finset.mem_range.1 hx)]
  rfl

theorem tables_eq_list : sp.tables = ((List.range 1024).map fun i => opt (sp.tab i)).sum := by
  unfold Space.tables
  rw [← List.toFinset_range, List.sum_toFinset _ List.nodup_range]

/-- The directory `sp` at frame `d` without its pages, of which the frames `rest` are still to
be freed. -/
structure Giving (F : Multiset Nat) (o : Vm) (d : Nat) (sp : Space) (rest : Multiset Nat)
    (s : Vm) : Prop where
  space : s.space d = some sp
  frames : (s.freelist : Multiset Nat) + ({d} + rest) = F
  mem : ∀ f ∉ F, s.mem f = o.mem f
  spaces : ∀ f ∉ F, s.space f = o.space f

theorem Giving.freeTables (hF : Valid L F) :
    ∀ (is : List Nat) (s : Vm), Giving F o d sp (is.map fun i => opt (sp.tab i)).sum s →
      Returns id (freeTables L d is) s fun _ t => Giving F o d sp 0 t := by
  intro is
  induction is with
  | nil => exact fun s hs => Code.returns_pure.2 hs
  | cons i is ih =>
    intro s hs
    have hdir : (Exec.pgdir d).run id s = .ok (sp, s) := by
      unfold Exec.pgdir
      rw [Code.run_get_bind, hs.space]
      rfl
    unfold Exec.freeTables
    refine Returns.bind_run hdir ?_
    have hframes := hs.frames
    rw [List.map_cons, List.sum_cons] at hframes
    cases htab : sp.tab i with
    | none =>
      refine ih s ⟨hs.space, ?_, hs.mem, hs.spaces⟩
      rw [htab] at hframes
      rw [← hframes]
      exact congrArg (fun m => (s.freelist : Multiset Nat) + ({d} + m)) (zero_add _).symm
    | some f =>
      rw [htab] at hframes
      have hf : f ∈ F := by
        rw [← hframes]
        exact Multiset.mem_add.2 (Or.inr (Multiset.mem_add.2 (Or.inr (Multiset.mem_add.2
          (Or.inl (Multiset.mem_singleton_self f))))))
      refine Returns.bind_run (kfree_run hF hf s) (ih _ ⟨hs.space, ?_, fun x hx => ?_, hs.spaces⟩)
      · rw [← Multiset.cons_coe, ← Multiset.singleton_add, ← hframes]
        change _ = (s.freelist : Multiset Nat) + ({d} + ({f} + _))
        abel
      · rw [Vm.setMem_mem, Function.update_of_ne (ne_of_mem_of_not_mem hf hx).symm]
        exact hs.mem x hx

/-- **`freevm`** gives every frame of the directory back. -/
theorem Holds.freevm (hs : Holds F o 0 d sp s) (hF : Valid L F) :
    Returns id (freevm L d) s fun _ t => Freed F o t := by
  unfold Exec.freevm
  refine (hs.deallocuvm hF le_rfl).bind fun _ t ⟨sp1, hs1, hgone⟩ => ?_
  -- no page is left, so the directory holds its page tables only
  have hgiving : Giving F o d sp1 ((List.range 1024).map fun i => opt (sp1.tab i)).sum t := by
    refine ⟨hs1.space, ?_, hs1.mem, hs1.spaces⟩
    have hframes := hs1.frames
    rw [pages_eq_zero fun x hx => hgone x (Nat.zero_le x) hx, add_zero, zero_add,
      tables_eq_list] at hframes
    exact hframes
  refine (Giving.freeTables hF _ t hgiving).bind fun _ u hu => ?_
  rw [Code.returns_modify_bind]
  have hd : d ∈ F := hs.mem_dir
  -- and at last its own frame
  refine ⟨(), _, kfree_run hF hd _, ?_, fun x hx => ?_, fun x hx => ?_⟩
  · rw [← Multiset.cons_coe, ← Multiset.singleton_add, ← hu.frames, add_zero]
    exact add_comm _ _
  · rw [Vm.setMem_mem, Function.update_of_ne (ne_of_mem_of_not_mem hd hx).symm]
    exact hu.mem x hx
  · change Function.update u.space d none x = _
    rw [Function.update_of_ne (ne_of_mem_of_not_mem hd hx).symm]
    exact hu.spaces x hx

end Xv6.Shell.Exec
