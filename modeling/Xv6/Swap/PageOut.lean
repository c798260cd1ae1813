/-
A page-out while its owner runs.

The eight blocks of the page go to the disk one after the other. `bwrite` sleeps
for each, `bread` may sleep before it, and the owner's entry is present all that
time: in each sleep the owner may store to the page. `turn` is such a sleep.

A block is copied once. The slot holds what the page had at its end exactly when
the stores that come after the copy of a block leave that block as it was
(`Settled`): any other store is lost when the page is paged in again.
-/
import Xv6.Swap.Flat

set_option autoImplicit false

namespace Xv6.Swap

open Xv6.Lib

variable {s t u : Machine} {d v pa : Nat}

/-! ## The owner's turns -/

/-- A byte to store, and its offset in the page. -/
abbrev Store : Type := Fin PGSIZE × Byte

/-- A page after some stores. -/
def after (pg : Page) (l : List Store) : Page :=
  l.foldl (fun pg w => Function.update pg w.1 w.2) pg

/-- The program in address space `d` stores a byte to page `v`. -/
def ownerStore (d v : Nat) (s : Machine) (w : Store) : Machine :=
  let s' := s.setCpu { s.cpu with cr3 := d } s.hist.reloads
  match uaccess s' (v * PGSIZE + w.1.val) true with
  | some e => ustore s' (v * PGSIZE + w.1.val) e w.2
  | none => s'

/-- A sleep in which the program makes the stores `l`. -/
def turn (d v : Nat) (l : List Store) (s : Machine) : Machine := (l.foldl (ownerStore d v) s).resched

/-- Page `v` of `d` is in frame `pa` and its program may store to it. -/
structure Storable (d v pa : Nat) (s : Machine) : Prop where
  dir : (s.space d).isSome = true
  tab : (s.tab d (v / NPTENTRIES)).isSome = true
  present : (s.pte d v).present = true
  user : (s.pte d v).user = true
  writable : (s.pte d v).writable = true
  frame : (s.pte d v).ppn = pa

/-- The processes are as before, and the invariant still holds, whatever slots are in
use. -/
structure Steady (s t : Machine) : Prop where
  slots : t.slots = s.slots
  proc : t.proc = s.proc
  cpu_proc : t.cpu.proc = s.cpu.proc
  inv : ∀ h sl, Inv h { s with slots := sl } → Inv h { t with slots := sl }

theorem Steady.refl (s : Machine) : Steady s s := ⟨rfl, rfl, rfl, fun _ _ hI => hI⟩

theorem Steady.trans (h1 : Steady s t) (h2 : Steady t u) : Steady s u :=
  ⟨h2.slots.trans h1.slots, h2.proc.trans h1.proc, h2.cpu_proc.trans h1.cpu_proc,
    fun h sl hI => h2.inv h sl (h1.inv h sl hI)⟩

theorem ownerStore_steady (hv : v < UPAGES) (s : Machine) (w : Store) :
    Steady s (ownerStore d v s w) := by
  have hlt := w.1.isLt
  have hdiv : (v * PGSIZE + w.1.val) / PGSIZE = v := by
    simp only [PGSIZE, SWAP_BLOCKS_PER_PAGE, BSIZE] at *
    omega
  unfold ownerStore
  simp only
  split
  · next e he =>
    refine ⟨rfl, rfl, rfl, fun h sl hI => ?_⟩
    have hI' : Inv h { s.setCpu { s.cpu with cr3 := d } s.hist.reloads with slots := sl } :=
      hI.congr rfl
    exact (ustore_spec (b := w.2) hI' he (by rw [hdiv]; exact hv)).1
  · exact ⟨rfl, rfl, rfl, fun _ _ hI => hI.congr rfl⟩

theorem turn_steady (hv : v < UPAGES) (l : List Store) (s : Machine) : Steady s (turn d v l s) := by
  have h : Steady s (l.foldl (ownerStore d v) s) := by
    induction l generalizing s with
    | nil => exact .refl s
    | cons w l ih => exact (ownerStore_steady hv s w).trans (ih _)
  exact h.trans ⟨rfl, rfl, rfl, fun _ _ hI => hI.congr rfl⟩

/-- The effect of the owner's stores `l`. -/
structure Stored (d v pa : Nat) (l : List Store) (s t : Machine) : Prop where
  storable : Storable d v pa t
  mem : t.mem pa = after (s.mem pa) l
  disk : t.disk = s.disk
  hits : t.cpu.hits = s.cpu.hits

theorem Storable.walk (hs : Storable d v pa s) {sp : Space} (hsp : s.space d = some sp) :
    sp.walk v = some (s.pte d v) := by
  rw [Space.walk_eq_some, ← Machine.tab_of_space hsp, ← Machine.pte_of_space hsp]
  exact ⟨hs.tab, rfl⟩

theorem ownerStore_stored (hs : Storable d v pa s) (w : Store) :
    Stored d v pa [w] s (ownerStore d v s w) := by
  obtain ⟨sp, hsp⟩ := Option.isSome_iff_exists.1 hs.dir
  set s' := s.setCpu { s.cpu with cr3 := d } s.hist.reloads with hs'
  have hsp' : s'.space s'.cpu.cr3 = some sp := hsp
  have hlt := w.1.isLt
  have hdiv : (v * PGSIZE + w.1.val) / PGSIZE = v := by
    simp only [PGSIZE, SWAP_BLOCKS_PER_PAGE, BSIZE] at *
    omega
  have hoff : pgoff (v * PGSIZE + w.1.val) = w.1 := by
    refine Fin.ext ?_
    change (v * PGSIZE + w.1.val) % PGSIZE = w.1.val
    simp only [PGSIZE, SWAP_BLOCKS_PER_PAGE, BSIZE] at *
    omega
  have hacc : uaccess s' (v * PGSIZE + w.1.val) true = some (s.pte d v) := by
    unfold uaccess
    rw [hsp', hdiv]
    simp only [hs.walk hsp, hs.present, hs.user, hs.writable]
    rfl
  have hfr := hs.frame
  unfold ownerStore
  simp only [← hs', hacc]
  unfold ustore
  rw [hoff, hdiv]
  set e : Pte := { s.pte d v with flags := (s.pte d v).flags ||| (PTE_A ||| PTE_D) } with he
  rw [hfr]
  set s1 := s'.setByte pa w.1 w.2 with hs1
  change Stored d v pa [w] s (s1.setPte d v e)
  have hd1 : (s1.space d).isSome = true := hs.dir
  have hpte : (s1.setPte d v e).pte d v = e := by rw [Machine.setPte_pte hd1, if_pos ⟨rfl, rfl⟩]
  have hbit : ∀ i, (s.pte d v).flags.getLsbD i = true → e.flags.getLsbD i = true := by
    intro i hi
    simp only [he, BitVec.getLsbD_or, hi, Bool.true_or]
  exact ⟨⟨by rw [Machine.setPte_isSome]; exact hs.dir,
      by rw [Machine.setPte_tab]; exact hs.tab, (congrArg Pte.present hpte).trans (hbit 0 hs.present),
      (congrArg Pte.user hpte).trans (hbit 2 hs.user),
      (congrArg Pte.writable hpte).trans (hbit 1 hs.writable), (congrArg Pte.ppn hpte).trans hfr⟩,
    by simp [hs1, hs', Machine.setByte, after], rfl, rfl⟩

theorem turn_stored (hs : Storable d v pa s) (l : List Store) :
    Stored d v pa l s (turn d v l s) := by
  have h : Stored d v pa l s (l.foldl (ownerStore d v) s) := by
    induction l generalizing s with
    | nil => exact ⟨hs, rfl, rfl, rfl⟩
    | cons w l ih =>
      have h1 := ownerStore_stored hs w
      have h2 := ih h1.storable
      exact ⟨h2.storable, by rw [List.foldl_cons, h2.mem, h1.mem]; rfl, h2.disk.trans h1.disk,
        h2.hits.trans h1.hits⟩
  exact ⟨⟨h.storable.dir, h.storable.tab, h.storable.present, h.storable.user, h.storable.writable,
    h.storable.frame⟩, h.mem, h.disk, h.hits⟩

/-! ## The schedule

`ws` has the stores of each sleep to come, and `hits` tells which of the coming
`bread` calls do not sleep. -/

/-- The page and the schedule when the first of the blocks to come is copied. -/
def atCopy (hits : List Bool) (ws : List (List Store)) (pg : Page) : List (List Store) × Page :=
  if hits.head? = some true then (ws, pg) else (ws.tail, after pg (ws.headD []))

/-- The page at the end of the copies of `is`. -/
def atEnd : List (Fin SWAP_BLOCKS_PER_PAGE) → List Bool → List (List Store) → Page → Page
  | [], _, _, pg => pg
  | _ :: is, hits, ws, pg =>
    let (ws, pg) := atCopy hits ws pg
    atEnd is hits.tail ws.tail (after pg (ws.headD []))

/-- The stores that come after the copy of a block leave that block as it was. -/
def Settled : List (Fin SWAP_BLOCKS_PER_PAGE) → List Bool → List (List Store) → Page → Prop
  | [], _, _, _ => True
  | i :: is, hits, ws, pg =>
    let (ws', pg') := atCopy hits ws pg
    chunk (atEnd (i :: is) hits ws pg) i = chunk pg' i ∧
      Settled is hits.tail ws'.tail (after pg' (ws'.headD []))

/-! ## The copies -/

/-- A sleep in the environment that the schedule gives. -/
theorem yield_runIn (hs : Storable d v pa s) (ws : List (List Store)) :
    ∃ t, (Code.yield : K Unit).runIn Machine.resched (ws.map (turn d v)) s =
        .ok ((), ws.tail.map (turn d v), t) ∧ Stored d v pa (ws.headD []) s t ∧
      (v < UPAGES → Steady s t) := by
  cases ws with
  | nil => exact ⟨_, rfl, turn_stored hs [], fun hv => turn_steady (d := d) hv [] s⟩
  | cons l ws => exact ⟨_, rfl, turn_stored hs l, fun hv => turn_steady (d := d) hv l s⟩

theorem bread_runIn (hs : Storable d v pa s) (ws : List (List Store)) (b : Nat) :
    ∃ t, (bread b).runIn Machine.resched (ws.map (turn d v)) s =
        .ok (s.disk b, (atCopy s.cpu.hits ws (s.mem pa)).1.map (turn d v), t) ∧
      Storable d v pa t ∧ t.mem pa = (atCopy s.cpu.hits ws (s.mem pa)).2 ∧ t.disk = s.disk ∧
      t.cpu.hits = s.cpu.hits.tail ∧ (v < UPAGES → Steady s t) := by
  set s1 := s.setCpu { s.cpu with hits := s.cpu.hits.tail } s.hist.reloads with hs1
  have hst1 : Storable d v pa s1 :=
    ⟨hs.dir, hs.tab, hs.present, hs.user, hs.writable, hs.frame⟩
  have hst : Steady s s1 := ⟨rfl, rfl, rfl, fun _ _ hI => hI.congr rfl⟩
  unfold atCopy
  by_cases hh : s.cpu.hits.head? = some true
  · rw [if_pos hh]
    have hm : (mayBlock).runIn Machine.resched (ws.map (turn d v)) s =
        .ok ((), ws.map (turn d v), s1) := by
      unfold mayBlock
      rw [Code.runIn_get_bind, Code.runIn_modify_bind, if_pos hh]
      rfl
    refine ⟨s1, ?_, hst1, rfl, rfl, rfl, fun _ => hst⟩
    unfold bread
    rw [Code.runIn_bind_of_ok hm]
    rfl
  · rw [if_neg hh]
    obtain ⟨t, hy, hsd, hsteady⟩ := yield_runIn hst1 ws
    have hm : (mayBlock).runIn Machine.resched (ws.map (turn d v)) s =
        .ok ((), ws.tail.map (turn d v), t) := by
      unfold mayBlock
      rw [Code.runIn_get_bind, Code.runIn_modify_bind, if_neg hh]
      exact hy
    refine ⟨t, ?_, hsd.storable, hsd.mem, hsd.disk, hsd.hits, fun hv => hst.trans (hsteady hv)⟩
    unfold bread
    rw [Code.runIn_bind_of_ok hm, Code.runIn_get_bind, Code.runIn_pure, hsd.disk]
    rfl

theorem bwrite_runIn (hs : Storable d v pa s) (ws : List (List Store)) (b : Nat) (data : Block) :
    ∃ t, (bwrite b data).runIn Machine.resched (ws.map (turn d v)) s =
        .ok ((), ws.tail.map (turn d v), t) ∧ Storable d v pa t ∧
      t.mem pa = after (s.mem pa) (ws.headD []) ∧ t.disk = Function.update s.disk b data ∧
      t.cpu.hits = s.cpu.hits ∧ (v < UPAGES → Steady s t) := by
  obtain ⟨t, hy, hst, hsteady⟩ := yield_runIn (s := s.setBlock b data)
    ⟨hs.dir, hs.tab, hs.present, hs.user, hs.writable, hs.frame⟩ ws
  have hblock : Steady s (s.setBlock b data) := ⟨rfl, rfl, rfl, fun _ _ hI => hI.congr rfl⟩
  refine ⟨t, ?_, hst.storable, hst.mem, hst.disk, hst.hits, fun hv => hblock.trans (hsteady hv)⟩
  unfold bwrite
  rw [Code.runIn_modify_bind]
  exact hy

/-- **The block loop.** At its end the frame has the page as the owner left it. Its
blocks on the disk are those of that page exactly when the schedule is settled. -/
theorem pageOutBlocks_runIn (b : Nat) (is : List (Fin SWAP_BLOCKS_PER_PAGE)) (hn : is.Nodup)
    (ws : List (List Store)) (hs : Storable d v pa s) :
    ∃ t ws', (pageOutBlocks b pa is).runIn Machine.resched (ws.map (turn d v)) s =
        .ok ((), ws', t) ∧ Storable d v pa t ∧
      t.mem pa = atEnd is s.cpu.hits ws (s.mem pa) ∧ (v < UPAGES → Steady s t) ∧
      (∀ c, (∀ i ∈ is, c ≠ b + i.val) → t.disk c = s.disk c) ∧
      ((∀ i ∈ is, t.disk (b + i.val) = chunk (t.mem pa) i) ↔
        Settled is s.cpu.hits ws (s.mem pa)) := by
  induction is generalizing s ws with
  | nil => exact ⟨s, _, rfl, hs, rfl, fun _ => .refl s, fun _ _ => rfl, by simp [Settled]⟩
  | cons i is ih =>
    obtain ⟨hi, hn⟩ := List.nodup_cons.1 hn
    obtain ⟨s1, hr1, hs1, hm1, hd1, hh1, hst1⟩ := bread_runIn hs ws (b + i.val)
    set ws1 := (atCopy s.cpu.hits ws (s.mem pa)).1 with hws1
    obtain ⟨s2, hr2, hs2, hm2, hd2, hh2, hst2⟩ := bwrite_runIn hs1 ws1 (b + i.val) (chunk (s1.mem pa) i)
    obtain ⟨t, ws', hr, hst, hm, hsd, ho, hset⟩ := ih hn ws1.tail hs2
    rw [hh2, hh1, hm2, hm1] at hm hset
    have hend : t.mem pa = atEnd (i :: is) s.cpu.hits ws (s.mem pa) := hm
    have hne : ∀ j ∈ is, b + j.val ≠ b + i.val := by
      rintro j hj he
      have hji : j = i := Fin.ext (by omega)
      exact hi (hji ▸ hj)
    have hself : t.disk (b + i.val) = chunk (s1.mem pa) i := by
      rw [ho _ fun j hj => (hne j hj).symm, hd2, Function.update_self]
    refine ⟨t, ws', ?_, hst, hend, fun hv => ((hst1 hv).trans (hst2 hv)).trans (hsd hv),
      fun c hc => ?_, ?_⟩
    · unfold pageOutBlocks
      rw [Code.runIn_bind_of_ok hr1, Code.runIn_get_bind, Code.runIn_bind_of_ok hr2]
      exact hr
    · rw [ho c fun j hj => hc j (List.mem_cons_of_mem i hj), hd2,
        Function.update_of_ne (hc i List.mem_cons_self), hd1]
    · rw [List.forall_mem_cons, hset, hself, Settled, hend, hm1]
      exact and_congr_left fun _ => eq_comm

/-! ## The whole page-out -/

theorem findFreeSlot_runIn (es : List (Machine → Machine)) (s : Machine) :
    findFreeSlot.runIn Machine.resched es s = .ok (none, es, s) ∨
      ∃ k, k < SWAP_SLOT_TOTAL ∧ (s.slots k).is_free = true ∧
        findFreeSlot.runIn Machine.resched es s = .ok (some k, es, s.takeSlot k) := by
  unfold findFreeSlot
  rw [Code.runIn_get_bind]
  split
  · exact Or.inl rfl
  · next k hk =>
    have hm := List.mem_of_find?_eq_some hk
    rw [List.mem_range'_1] at hm
    exact Or.inr ⟨k, by omega, by simpa using List.find?_some hk, rfl⟩

theorem pgdir_runIn {sp : Space} (es : List (Machine → Machine)) (hsp : s.space d = some sp) :
    (pgdir d).runIn Machine.resched es s = .ok (sp, es, s) := by
  unfold pgdir
  simp only [Code.runIn_get_bind, hsp, Code.runIn_pure]

theorem walkpgdir_runIn {sp : Space} (es : List (Machine → Machine)) (hsp : s.space d = some sp) :
    (walkpgdir d v).runIn Machine.resched es s = .ok (sp.walk v, es, s) := by
  unfold walkpgdir
  rw [Code.runIn_bind_of_ok (pgdir_runIn es hsp), Code.runIn_pure]

/-- The page moves to slot `k` while its owner runs: whatever blocks the slot has got, the
frame is held by no one. -/
theorem Inv.pageOutWhile {h : Set Nat} {c s2 : Machine} {k : Nat} (hI : Inv h s)
    (hc : c.core = ({ s with slots := c.slots } : Machine).core)
    (hk : k < SWAP_SLOT_TOTAL) (hfree : (s.slots k).is_free = true)
    (hslots : ∀ j, (c.slots j).is_free = true → j ≠ k ∧ (s.slots j).is_free = true)
    (hst : Steady c s2) (hs2 : Storable d v pa s2) (hv : v < UPAGES)
    (hcore : t.core = (s2.setPte d v ((s2.pte d v).toSlot k)).core) :
    Inv h t ∧ Loose h t pa := by
  obtain ⟨hdir, -, hp, hu, -, rfl⟩ := hs2
  have hI0 : Inv h { c with slots := s.slots } := by
    refine hI.congr ?_
    simp only [Machine.core, Prod.mk.injEq] at hc ⊢
    exact ⟨hc.1, hc.2.1, hc.2.2.1, trivial, hc.2.2.2.2.1, hc.2.2.2.2.2⟩
  have hI2 := hst.inv h s.slots hI0
  -- the disk does not matter: give the slot the page that its owner has
  set pg := s2.mem (s2.pte d v).ppn with hpg
  set D : Nat → Block := fun b => chunk pg
    ⟨(b - (SWAP_BLOCK_START + k * SWAP_BLOCKS_PER_PAGE)) % SWAP_BLOCKS_PER_PAGE,
      Nat.mod_lt _ (by decide)⟩ with hD
  set s' : Machine := { s2 with
    slots := s.slots
    disk := D } with hs'
  set t' : Machine := { s'.setPte d v ((s2.pte d v).toSlot k) with
    slots := Function.update s.slots k ⟨(s2.pte d v).flags, false⟩
    hist := { s2.hist with filled := Function.update s2.hist.filled k (some (d, v)) } } with ht'
  have hpage : t'.slotPage k = pg := by
    refine slotPage_of_chunks fun i => ?_
    change chunk pg _ = chunk pg i
    refine congrArg (chunk pg) (Fin.ext ?_)
    change (_ + i.val - _) % _ = i.val
    rw [Nat.add_sub_cancel_left, Nat.mod_eq_of_lt i.isLt]
  have hI' : Inv h s' := hI2.congr rfl
  have hout := hI'.pageOut (t := t') hdir hv hp hu hk hfree rfl rfl rfl rfl rfl hpage
    fun _ _ => rfl
  -- nor do the permissions that the slot has recorded
  have hmid : Inv h { t' with slots := c.slots } := by
    refine ⟨{ hout.1.1.toFrames with
      slot_own := hout.1.1.slot_own.mono (fun _ _ hx => hx) fun j hj => ?_ },
      hout.1.1.toProcs.congr rfl rfl⟩
    obtain ⟨hjk, hj⟩ := hslots j hj
    change (Function.update s.slots k _ j).is_free = true
    rwa [Function.update_of_ne hjk]
  have hct : t.core = ({ t' with slots := c.slots } : Machine).core := by
    rw [hcore, Machine.core, Machine.core]
    simp only [Machine.setPte_slots, hst.slots]
    rfl
  refine ⟨hmid.congr hct, ?_⟩
  simp only [Machine.core, Prod.mk.injEq] at hct
  obtain ⟨h1, h2, h3, -, h5, h6⟩ := hct
  have huse : ∀ o, ¬ Uses h t o (s2.pte d v).ppn := by
    intro o ho
    refine hout.2.unused o ?_
    cases o <;> simp only [Uses, Machine.pte, Machine.tab, h3, h5, h6] at ho ⊢ <;> exact ho
  exact ⟨huse, by rw [h2]; exact hout.2.not_free, by rw [h1]; exact hout.2.lo, hout.2.hi⟩

/-- The slot of a page that was paged out has the page as its owner left it
exactly when the schedule is settled. -/
theorem swapAndPageOut_runIn {ws : List (List Store)} {ws' : List (Machine → Machine)}
    (hs : Storable d v pa s)
    (hrun : (swapAndPageOut d v pa).runIn Machine.resched (ws.map (turn d v)) s =
      .ok (true, ws', t)) :
    (t.pte d v).swapped = true ∧ (t.content d v = some (t.mem pa) ↔
      Settled (List.finRange SWAP_BLOCKS_PER_PAGE) s.cpu.hits ws (s.mem pa)) ∧
    (v < UPAGES → t.proc = s.proc ∧ t.cpu.proc = s.cpu.proc ∧
      ∀ h, Inv h s → Inv h t ∧ Loose h t pa) := by
  obtain ⟨sp, hsp⟩ := Option.isSome_iff_exists.1 hs.dir
  unfold swapAndPageOut at hrun
  rcases findFreeSlot_runIn (ws.map (turn d v)) s with hfree | ⟨k, hk, hkfree, hfree⟩
  · rw [Code.runIn_bind_of_ok hfree] at hrun
    cases hrun
  · rw [Code.runIn_bind_of_ok hfree,
      Code.runIn_bind_of_ok (walkpgdir_runIn (s := s.takeSlot k) _ hsp), hs.walk hsp] at hrun
    simp only [hs.present, if_true, Code.runIn_modify_bind] at hrun
    obtain ⟨s2, es, hr, hs2, hm, hsteady, -, hset⟩ := pageOutBlocks_runIn (v := v)
      (SWAP_BLOCK_START + k * SWAP_BLOCKS_PER_PAGE) _ (List.nodup_finRange _) ws
      (s := ((s.takeSlot k).setSlot k fun sl => { sl with page_perm := (s.pte d v).flags }).setHist
        (History.start d v k)) (d := d)
      ⟨hs.dir, hs.tab, hs.present, hs.user, hs.writable, hs.frame⟩
    rw [Code.runIn_bind_of_ok hr] at hrun
    obtain ⟨sp2, hsp2⟩ := Option.isSome_iff_exists.1 hs2.dir
    rw [Code.runIn_bind_of_ok (pgdir_runIn _ hsp2)] at hrun
    simp only [Code.runIn_modify_bind, lcr3, Code.runIn_pure, Except.ok.injEq, Prod.mk.injEq,
      true_and] at hrun
    obtain ⟨-, rfl⟩ := hrun
    set t2 := (s2.setPte d v ((sp2.pte v).toSlot k)).setHist (History.finish d v) with ht2
    have huser : (sp2.pte v).user = true := by
      rw [← Machine.pte_of_space hsp2]
      exact hs2.user
    have hpte : (s2.setPte d v ((sp2.pte v).toSlot k)).pte d v = (sp2.pte v).toSlot k := by
      rw [Machine.setPte_pte hs2.dir, if_pos ⟨rfl, rfl⟩]
    have hsw : ((s2.setPte d v ((sp2.pte v).toSlot k)).pte d v).swapped = true := by
      rw [hpte]
      exact Pte.toSlot_swapped k huser
    refine ⟨hsw, ?_, fun hv => ⟨(hsteady hv).proc, (hsteady hv).cpu_proc, fun h hI => ?_⟩⟩
    rotate_left
    · refine hI.pageOutWhile (c := (((s.takeSlot k).setSlot k fun sl =>
        { sl with page_perm := (s.pte d v).flags }).setHist (History.start d v k)))
        rfl hk hkfree ?_ (hsteady hv) hs2 hv ?_
      · intro j hj
        have hjk : j ≠ k := by
          rintro rfl
          simp [Machine.takeSlot] at hj
        refine ⟨hjk, ?_⟩
        simpa [Machine.takeSlot, hjk] using hj
      · rw [Machine.pte_of_space hsp2]
        rfl
    -- the content is now the slot, whose blocks the loop has written
    have hcont : (t2.setCpu { t2.cpu with cr3 := d } (d :: t2.hist.reloads)).content d v =
        some (s2.slotPage k) := by
      unfold Machine.content
      refine (if_neg ?_).trans ((if_pos hsw).trans ?_)
      · rw [show Machine.pte (t2.setCpu _ _) d v = (sp2.pte v).toSlot k from hpte,
          Pte.toSlot_present]
        decide
      · rw [show Machine.pte (t2.setCpu _ _) d v = (sp2.pte v).toSlot k from hpte, Pte.toSlot_ppn]
        rfl
    rw [hcont, Option.some.injEq]
    refine Iff.trans ?_ hset
    constructor
    · intro he i _
      rw [← show s2.slotPage k = s2.mem pa from he, Machine.slotPage, chunk_join]
    · exact fun he => slotPage_of_chunks fun i => he i (List.mem_finRange i)

/-- A store to the first byte of the page while its first block is written, hence
after that block was copied. -/
def lateStore : List (List Store) := [[], [(0, 9)]]

end Xv6.Swap
