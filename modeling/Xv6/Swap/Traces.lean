/-
The kernel's routines and the operations of `Device`.

`Device` has the swap code with the devices it addresses and with what it reads of the page
tables as arguments. The routines of `PageSwap`, `Vm` and `Process` have one disk and no
record of the accesses. `Shows s x` relates the two states: the slot table is the same, and the
disk of the machine is disk 0. `Traced m` says that whatever `m` does to the slots and the
disk, a list of operations of `Device` does it too. It is kept by composition, so it holds of
every routine once it holds of those that touch a slot.
-/
import Xv6.Swap.Device
import Xv6.Swap.Evict
import Xv6.Swap.Process

set_option autoImplicit false

namespace Xv6.Swap.Device

open Xv6.Lib

variable {s t : Machine} {x y : State} {α β : Type} {m : K α}

/-- The slot table and disk 0 of `x` are those of the machine. -/
structure Shows (s : Machine) (x : State) : Prop where
  slots : x.slots = s.slots
  disk : x.disk 0 = s.disk

theorem Shows.congr (h : Shows s x) (hs : t.slots = s.slots) (hd : t.disk = s.disk) : Shows t x :=
  ⟨h.slots.trans hs.symm, h.disk.trans hd.symm⟩

theorem Shows.quiet (h : Shows s x) (hst : Quiet s t) : Shows t x := by
  obtain ⟨c, r, rfl, -⟩ := hst
  exact h.congr rfl rfl

theorem Shows.firstFree (h : Shows s x) :
    x.firstFree = (List.range' 0 SWAP_SLOT_TOTAL).find? fun k => (s.slots k).is_free := by
  unfold State.firstFree
  rw [h.slots]

theorem Shows.setSlot (h : Shows s x) (k : Nat) (f : Slot → Slot) :
    Shows (s.setSlot k f) (x.setSlot k f) := by
  refine ⟨?_, h.disk⟩
  rw [State.setSlot, Machine.setSlot_slots, h.slots]

theorem Shows.bwrite (h : Shows s x) (b : Nat) (data : Block) :
    Shows (s.setBlock b data) (bwrite 0 b data x) := by
  refine ⟨h.slots, funext fun c => ?_⟩
  simp only [Device.bwrite, Machine.setBlock_disk, true_and, Function.update_apply, ← h.disk]

/-- A read changes the record only. -/
theorem Shows.bread (h : Shows s x) (b : Nat) : Shows s (bread 0 b x).2 := ⟨h.slots, h.disk⟩

/-! ## Composition -/

theorem runAll_append (ops ops' : List Op) (x : State) :
    runAll (ops ++ ops') x = runAll ops' (runAll ops x) := by
  induction ops generalizing x with
  | nil => rfl
  | cons op ops ih => exact ih _

/-- What the routine does to the slots and the disk is a list of operations. -/
def Traced (m : K α) : Prop :=
  ∀ s x, Shows s x → m.Spec s fun _ t => ∃ ops, Shows t (runAll ops x)

namespace Traced

theorem bind {f : α → K β} (hm : Traced m) (hf : ∀ a, Traced (f a)) : Traced (m >>= f) := by
  intro s x hx
  refine (hm s x hx).bind fun a t ht => ?_
  obtain ⟨ops, hops⟩ := ht
  refine (hf a t _ hops).mono fun b u hu => ?_
  obtain ⟨ops', hops'⟩ := hu
  exact ⟨ops ++ ops', by rwa [runAll_append]⟩

theorem ret (a : α) : Traced (pure a : K α) := fun _ _ hx => Code.spec_pure.2 ⟨[], hx⟩

theorem panic (msg : String) : Traced (Code.panic msg : K α) := fun _ _ _ => Code.spec_panic msg

/-- A routine that reads the state. -/
theorem get {f : Machine → K α} (hf : ∀ s, Traced (f s)) : Traced (Code.get >>= f) :=
  fun s x hx => Code.spec_get_bind.2 (hf s s x hx)

/-- An update of anything else. -/
theorem modify {g : Machine → Machine} (hs : ∀ s, (g s).slots = s.slots)
    (hd : ∀ s, (g s).disk = s.disk) : Traced (Code.modify g) := fun s _ hx =>
  (Code.spec_modify g).2 ⟨[], hx.congr (hs s) (hd s)⟩

theorem modify_bind {g : Machine → Machine} {f : Unit → K α} (hs : ∀ s, (g s).slots = s.slots)
    (hd : ∀ s, (g s).disk = s.disk) (hf : Traced (f ())) : Traced (Code.modify g >>= f) :=
  (modify hs hd).bind fun _ => hf

theorem quiet (h : ∀ s, m.Spec s fun _ t => Quiet s t) : Traced m := fun s _ hx =>
  (h s).mono fun _ _ ht => ⟨[], hx.quiet ht⟩

theorem ite {p : Prop} [Decidable p] {m' : K α} (h : Traced m) (h' : Traced m') :
    Traced (if p then m else m') := by
  split
  · exact h
  · exact h'

end Traced

/-! ## What touches no slot -/

theorem pgdir_traced (d : Nat) : Traced (pgdir d) := by
  unfold pgdir
  refine .get fun s => ?_
  split
  · exact .ret _
  · exact .panic _

theorem walkpgdir_traced (d v : Nat) : Traced (walkpgdir d v) :=
  (pgdir_traced d).bind fun _ => .ret _

theorem kfree_traced (f : Nat) : Traced (kfree f) := by
  unfold kfree
  exact .get fun s => .ite (.panic _) (.modify (fun _ => rfl) fun _ => rfl)

theorem findVictimPage_traced (d : Nat) : Traced (findVictimPage d) := by
  unfold findVictimPage
  refine (pgdir_traced d).bind fun sp => ?_
  split
  · exact .ret _
  · refine .modify_bind (fun _ => rfl) (fun _ => rfl) ?_
    refine (Traced.quiet fun s => (lcr3_spec d s).spec).bind fun _ => ?_
    split
    · exact .ret _
    · exact .ret _

theorem popFrame_traced : Traced popFrame := by
  unfold popFrame
  refine .get fun s => ?_
  split
  · exact .ret _
  · exact .modify_bind (fun _ => rfl) (fun _ => rfl) (.ret _)

/-! ## The page-out -/

/-- A walk reads. -/
theorem walkpgdir_reads (d v : Nat) (s : Machine) : K.Spec (walkpgdir d v) s fun _ t => t = s := by
  cases hsp : s.space d with
  | none =>
    intro r t hrun
    unfold walkpgdir pgdir at hrun
    obtain ⟨sp, u, h, -⟩ := Code.run_bind_ok.1 hrun
    rw [Code.run_get_bind, hsp] at h
    cases h
  | some sp =>
    have h : K.Returns (walkpgdir d v) s fun _ t => t = s := ⟨_, s, walkpgdir_returns hsp v, rfl⟩
    exact h.spec

theorem findFreeSlot_shows (hx : Shows s x) :
    K.Returns Swap.findFreeSlot s fun r t => r = (findFreeSlot x).1 ∧ Shows t (findFreeSlot x).2 ∧
      t.mem = s.mem := by
  unfold Swap.findFreeSlot findFreeSlot
  rw [K.Returns, Code.returns_get_bind, ← hx.firstFree]
  cases x.firstFree with
  | none => exact Code.returns_pure.2 ⟨rfl, hx, rfl⟩
  | some k => exact Code.returns_modify_bind.2 (Code.returns_pure.2 ⟨rfl, hx.setSlot k _, rfl⟩)

theorem pageOutBlocks_shows (b pa : Nat) (is : List (Fin SWAP_BLOCKS_PER_PAGE))
    (hx : Shows s x) : K.Returns (Swap.pageOutBlocks b pa is) s fun _ t =>
      Shows t (pageOutBlocks b (s.mem pa) is x) := by
  induction is generalizing s x with
  | nil => exact Code.returns_pure.2 hx
  | cons i is ih =>
    unfold Swap.pageOutBlocks
    refine (bread_spec _ s).bind fun _ t hpost => ?_
    obtain ⟨⟨c, r, rfl, -⟩, -⟩ := hpost
    rw [Code.returns_get_bind]
    refine (bwrite_spec _ _ _).bind fun _ t hpost => ?_
    obtain ⟨c', r', rfl, -⟩ := hpost
    exact ih (((hx.bread _).congr rfl rfl).bwrite _ _ |>.congr rfl rfl)

theorem swapAndPageOut_traced (d v pa : Nat) : Traced (Swap.swapAndPageOut d v pa) := by
  intro s x hx
  unfold Swap.swapAndPageOut
  refine (findFreeSlot_shows hx).spec.bind fun r t hpost => ?_
  obtain ⟨hr, ht, hmem⟩ := hpost
  -- the operation, for the entry that the walk finds
  have hop : ∀ pte, runAll [.pageOut pte (s.mem pa)] x = swapAndPageOut pte (s.mem pa) x :=
    fun _ => rfl
  unfold swapAndPageOut at hop
  generalize findFreeSlot x = fx at hr ht hop
  obtain ⟨r', y⟩ := fx
  obtain rfl : r = r' := hr
  cases r with
  | none => exact Code.spec_pure.2 ⟨[.pageOut none (s.mem pa)], by rw [hop]; exact ht⟩
  | some slot =>
    refine (walkpgdir_reads d v t).bind fun e u hu => ?_
    subst hu
    cases e with
    | none => exact Code.spec_pure.2 ⟨[.pageOut none (s.mem pa)], by rw [hop]; exact ht⟩
    | some e =>
      dsimp only at ht ⊢
      by_cases hp : e.present = true
      case neg =>
        rw [if_neg hp]
        refine Code.spec_pure.2 ⟨[Op.pageOut (some e) (s.mem pa)], ?_⟩
        rw [hop]
        simp only [hp]
        exact ht
      simp only [if_pos hp, Code.spec_modify_bind]
      have hset : Shows ((u.setSlot slot fun sl => { sl with page_perm := e.flags }).setHist
          (History.start d v slot)) (y.setSlot slot fun sl => { sl with page_perm := e.flags }) :=
        (ht.setSlot slot _).congr rfl rfl
      refine (pageOutBlocks_shows _ pa _ hset).spec.bind fun _ w hw => ?_
      have hw' : Shows w (runAll [.pageOut (some e) (s.mem pa)] x) := by
        rw [hop]
        simp only [if_pos hp]
        rw [← hmem]
        exact hw
      -- the rest writes the entry
      have hrest : Traced (do
          let sp ← pgdir d
          Code.modify fun s => (s.setPte d v ((sp.pte v).toSlot slot)).setHist (History.finish d v)
          lcr3 d
          return true) := by
        refine (pgdir_traced d).bind fun sp => ?_
        refine .modify_bind (fun _ => rfl) (fun _ => rfl) ?_
        exact (Traced.quiet fun s => (lcr3_spec d s).spec).bind fun _ => .ret _
      refine (hrest w _ hw').mono fun _ z hz => ?_
      obtain ⟨ops, hops⟩ := hz
      exact ⟨[Op.pageOut (some e) (s.mem pa)] ++ ops, by rwa [runAll_append]⟩

theorem swapLoop_traced (q n attempts swapped : Nat) : Traced (swapLoop q n attempts swapped) := by
  induction attempts generalizing swapped with
  | zero => exact .ret _
  | succ attempts ih =>
    unfold swapLoop
    refine .ite (.get fun s => (findVictimPage_traced _).bind fun r => ?_) (.ret _)
    split
    · exact .ret _
    · refine .ite (.ret _) ((swapAndPageOut_traced _ _ _).bind fun b => .ite ?_ (ih _))
      refine .modify_bind (fun _ => rfl) (fun _ => rfl) ?_
      exact (kfree_traced _).bind fun _ => ih _

theorem checkAndSwap_traced : Traced checkAndSwap := by
  unfold checkAndSwap
  refine Traced.bind (.get fun s => .ret _) fun n => .get fun s => .ite (.ret _) ?_
  refine Traced.bind (.get fun s => ?_) fun _ => .modify (fun _ => rfl) fun _ => rfl
  split
  · exact .ret _
  · exact swapLoop_traced _ _ _ _

theorem kalloc_traced : Traced kalloc := by
  unfold kalloc
  refine .get fun s => .ite ?_ popFrame_traced
  refine checkAndSwap_traced.bind fun _ => Traced.bind (.get fun s => ?_) fun _ => popFrame_traced
  exact .ite checkAndSwap_traced (.ret _)

theorem kallocRetry_traced (n : Nat) : Traced (kallocRetry n) := by
  induction n with
  | zero => exact kalloc_traced
  | succ n ih =>
    unfold kallocRetry
    refine kalloc_traced.bind fun r => ?_
    split
    · exact .ret _
    · exact checkAndSwap_traced.bind fun _ => ih

/-! ## Duplicating a slot -/

theorem copyBlocks_shows (src dst : Nat) (is : List (Fin SWAP_BLOCKS_PER_PAGE)) (hx : Shows s x) :
    K.Returns (Swap.copyBlocks src dst is) s fun _ t => Shows t (copyBlocks src dst is x) := by
  induction is generalizing s x with
  | nil => exact Code.returns_pure.2 hx
  | cons i is ih =>
    unfold Swap.copyBlocks
    refine (bread_spec _ s).bind fun b t hpost => ?_
    obtain ⟨⟨c, r, rfl, -⟩, rfl⟩ := hpost
    refine (bread_spec _ _).bind fun _ t hpost => ?_
    obtain ⟨⟨c1, r1, rfl, -⟩, -⟩ := hpost
    refine (bwrite_spec _ _ _).bind fun _ t hpost => ?_
    obtain ⟨c2, r2, rfl, -⟩ := hpost
    have hb := (((hx.bread (src + i)).bread (dst + i)).congr (t := (s.setCpu c r).setCpu c1 r1)
      rfl rfl).bwrite (dst + i) (s.disk (src + i))
    rw [← hx.disk] at hb ⊢
    exact ih (hb.congr rfl rfl)

/-- A slot is taken, after the operations `ops`, or there is none to take. -/
theorem findFreeSlotRetry_traced (n : Nat) (hx : Shows s x) :
    K.Spec (findFreeSlotRetry n) s fun r t => ∃ ops, (findFreeSlot (runAll ops x)).1 = r ∧
      Shows t (findFreeSlot (runAll ops x)).2 := by
  induction n generalizing s x with
  | zero =>
    refine (findFreeSlot_shows hx).spec.mono fun r t hr => ?_
    exact ⟨[], hr.1.symm, hr.2.1⟩
  | succ n ih =>
    unfold findFreeSlotRetry
    refine (findFreeSlot_shows hx).spec.bind fun r t hpost => ?_
    obtain ⟨hr, ht, -⟩ := hpost
    cases r with
    | some k => exact Code.spec_pure.2 ⟨[], hr.symm, ht⟩
    | none =>
      have htx : (findFreeSlot x).2 = x := by
        unfold findFreeSlot at hr ⊢
        split at hr
        · rfl
        · cases hr
      rw [htx] at ht
      refine (checkAndSwap_traced t x ht).bind fun _ u hu => ?_
      obtain ⟨ops, hops⟩ := hu
      refine (ih hops).mono fun r w hw => ?_
      obtain ⟨ops', hr', hw⟩ := hw
      exact ⟨ops ++ ops', by rwa [runAll_append], by rwa [runAll_append]⟩

theorem duplicateSwapSlot_traced (k : Nat) : Traced (Swap.duplicateSwapSlot k) := by
  unfold Swap.duplicateSwapSlot
  refine .get fun s0 => ?_
  by_cases hk : SWAP_SLOT_TOTAL ≤ k
  · rw [if_pos hk]
    exact .ret _
  rw [if_neg hk]
  refine .ite (.ret _) fun s x hx => ?_
  refine (findFreeSlotRetry_traced 2 hx).bind fun r t hpost => ?_
  obtain ⟨ops, hr, ht⟩ := hpost
  -- the rest of the duplication, from the state in which the slot is taken
  obtain ⟨ops', hop⟩ : ∃ ops', runAll ops' x = duplicateFrom k (runAll ops x) :=
    ⟨ops ++ [Op.duplicateRetry ⟨k, by omega⟩], runAll_append _ _ _⟩
  unfold duplicateFrom at hop
  generalize findFreeSlot (runAll ops x) = fx at hr ht hop
  obtain ⟨r', y⟩ := fx
  obtain rfl : r' = r := hr
  cases r' with
  | none => exact Code.spec_pure.2 ⟨ops', by rw [hop]; exact ht⟩
  | some j =>
    simp only [Code.spec_modify_bind]
    refine (copyBlocks_shows _ _ _ (x := y.setSlot j _) (ht.setSlot j _)).spec.bind fun _ u hu => ?_
    refine Code.spec_pure.2 ⟨ops', ?_⟩
    rw [hop]
    dsimp only at ht ⊢
    rw [ht.slots]
    exact hu

/-! ## The page-in -/

theorem pageInBlocks_shows (b f : Nat) (is : List (Fin SWAP_BLOCKS_PER_PAGE)) (pg : Page)
    (hx : Shows s x) :
    K.Returns (Swap.pageInBlocks b f is) s fun _ t => Shows t (pageInBlocks b is pg x).2 := by
  induction is generalizing s x pg with
  | nil => exact Code.returns_pure.2 hx
  | cons i is ih =>
    unfold Swap.pageInBlocks
    refine (bread_spec _ s).bind fun b t hpost => ?_
    obtain ⟨⟨c, r, rfl, -⟩, -⟩ := hpost
    rw [Code.returns_modify_bind]
    exact ih _ ((hx.bread _).congr rfl rfl)

theorem freeSlot_traced (k : Nat) : Traced (Swap.freeSlot k) := by
  intro s x hx
  have hop : runAll [.free k] x = freeSlot k x := rfl
  unfold freeSlot at hop
  unfold Swap.freeSlot
  by_cases hk : k < SWAP_SLOT_TOTAL
  · rw [if_pos hk] at hop ⊢
    exact (Code.spec_modify _).2 ⟨[.free k], by rw [hop]; exact hx.setSlot k _⟩
  · rw [if_neg hk] at hop ⊢
    exact Code.spec_pure.2 ⟨[.free k], by rw [hop]; exact hx⟩

theorem mapPages_traced (d v pa : Nat) (perm : BitVec 12) : Traced (mapPages d v pa perm) := by
  unfold mapPages walkpgdirAlloc
  refine Traced.bind ((walkpgdir_traced d v).bind fun r => ?_) fun r => ?_
  · split
    · exact .ret _
    · refine kalloc_traced.bind fun r => ?_
      split
      · exact .ret _
      · exact (pgdir_traced d).bind fun sp => .modify_bind (fun _ => rfl) (fun _ => rfl) (.ret _)
  · split
    · exact .ret _
    · exact .ite (.panic _) (.modify_bind (fun _ => rfl) (fun _ => rfl) (.ret _))

theorem swapPageIn_traced (d v : Nat) : Traced (Swap.swapPageIn d v) := by
  unfold Swap.swapPageIn
  refine .get fun s => (walkpgdir_traced d v).bind fun r => ?_
  split
  · exact .ret _
  · next pte =>
    refine .ite (.ret _) ?_
    by_cases hk : SWAP_SLOT_TOTAL ≤ pte.ppn
    · rw [if_pos hk]
      exact .ret _
    rw [if_neg hk]
    refine .ite (.ret _) ((kallocRetry_traced 1).bind fun r => ?_)
    split
    · exact .ret _
    · next f =>
      refine Traced.bind (fun s x hx => ?_) fun _ => ?_
      · exact (pageInBlocks_shows _ f _ (memset 5) hx).spec.mono fun _ t ht =>
          ⟨[.pageInRetry ⟨pte.ppn, by omega⟩ false], ht⟩
      · refine .get fun s => (mapPages_traced _ _ _ _).bind fun b => .ite ?_ ?_
        · exact (freeSlot_traced _).bind fun _ => .modify_bind (fun _ => rfl) (fun _ => rfl) (.ret _)
        · exact (kfree_traced _).bind fun _ => .ret _

/-! ## Leaving -/

theorem cleanLoop_traced (sp : Space) (vs : List Nat) : Traced (cleanLoop sp vs) := by
  induction vs with
  | nil => exact .ret _
  | cons v vs ih =>
    unfold cleanLoop
    split
    · exact ih
    · exact .ite ((freeSlot_traced _).bind fun _ => ih) ih

theorem swapAndClean_traced (i : Nat) : Traced (swapAndClean i) := by
  unfold swapAndClean
  exact .get fun s => .ite (.ret _) ((pgdir_traced _).bind fun sp => cleanLoop_traced sp _)

/-- **The two models agree.** Whatever a routine that uses the swap area does to the slots and
to the disk is a list of the operations of a run. -/
theorem routines_traced : Traced kalloc ∧ Traced checkAndSwap ∧
    (∀ d v pa, Traced (Swap.swapAndPageOut d v pa)) ∧ (∀ d v, Traced (Swap.swapPageIn d v)) ∧
    (∀ k, Traced (Swap.duplicateSwapSlot k)) ∧ ∀ i, Traced (swapAndClean i) :=
  ⟨kalloc_traced, checkAndSwap_traced, swapAndPageOut_traced, swapPageIn_traced,
    duplicateSwapSlot_traced, swapAndClean_traced⟩

end Xv6.Swap.Device
