/-
The choice of a victim, against what it is for.

`findVictimProc` is a scan for the best candidate (`Lib.Best`): a process in use with
a pid and a counter that is not zero, the larger counter first and then the smaller
pid. `findVictimPage` makes three passes over the user half of a page table; the
second one clears the accessed bits when the first one has found no page without.
-/
import Xv6.Lib.Best
import Xv6.Swap.Flat

set_option autoImplicit false

namespace Xv6.Swap

open Xv6.Lib

variable {s t : Machine} {q i : Nat}

/-! ## The process -/

/-- A process that can be the victim. -/
def Candidate (s : Machine) (i : Nat) : Prop :=
  (s.proc i).state ≠ .UNUSED ∧ 1 ≤ (s.proc i).pid ∧ (s.proc i).rss ≠ 0#32

instance (s : Machine) (i : Nat) : Decidable (Candidate s i) :=
  inferInstanceAs (Decidable (_ ∧ _ ∧ _))

/-- The larger counter wins, and then the smaller pid. -/
def victimKey (s : Machine) (i : Nat) : ℕ ×ₗ ℕᵒᵈ :=
  toLex ((s.proc i).rss.toNat, OrderDual.toDual (s.proc i).pid)

theorem victimKey_lt {i j : Nat} : victimKey s j < victimKey s i ↔
    (s.proc j).rss < (s.proc i).rss ∨
      (s.proc i).rss = (s.proc j).rss ∧ (s.proc i).pid < (s.proc j).pid := by
  unfold victimKey
  rw [Prod.Lex.toLex_lt_toLex, BitVec.lt_def, OrderDual.toDual_lt_toDual, BitVec.toNat_inj,
    eq_comm (a := (s.proc j).rss)]

theorem victimKey_le {i j : Nat} : victimKey s j ≤ victimKey s i ↔
    (s.proc j).rss < (s.proc i).rss ∨
      (s.proc j).rss = (s.proc i).rss ∧ (s.proc i).pid ≤ (s.proc j).pid := by
  unfold victimKey
  rw [Prod.Lex.toLex_le_toLex, BitVec.lt_def, OrderDual.toDual_le_toDual, BitVec.toNat_inj]

/-- What the loop has at each turn: `maxrss` is the counter of the victim so far. -/
structure Held (s : Machine) (acc : Option Nat × BitVec 32) : Prop where
  none : acc.1 = none → acc.2 = 0#32
  some : ∀ v, acc.1 = some v → acc.2 = (s.proc v).rss ∧ (s.proc v).rss ≠ 0#32

theorem rss_pos {r : BitVec 32} : 0#32 < r ↔ r ≠ 0#32 := by
  rw [BitVec.lt_def, BitVec.toNat_ofNat, Nat.zero_mod, Nat.pos_iff_ne_zero, Ne, Ne,
    ← BitVec.toNat_inj, BitVec.toNat_ofNat, Nat.zero_mod]

/-- One turn of the loop of `findVictimProc` is one step of the scan. -/
theorem victimStep_eq {acc : Option Nat × BitVec 32} (h : Held s acc) (i : Nat) :
    (victimStep s acc i).1 = better (Candidate s) (victimKey s) acc.1 i ∧
      Held s (victimStep s acc i) := by
  obtain ⟨best, maxrss⟩ := acc
  -- a process wins the turn exactly when it is a candidate and beats the one there is
  have hwin : ((s.proc i).state ≠ .UNUSED ∧ 1 ≤ (s.proc i).pid ∧
      (maxrss < (s.proc i).rss ∨
        ((s.proc i).rss = maxrss ∧ ∃ v ∈ best, (s.proc i).pid < (s.proc v).pid))) ↔
      Candidate s i ∧ ∀ v ∈ best, victimKey s v < victimKey s i := by
    cases best with
    | none =>
      obtain rfl : maxrss = 0#32 := h.none rfl
      simp only [Option.not_mem_none, false_and, exists_false, and_false, or_false, rss_pos,
        Candidate, IsEmpty.forall_iff, implies_true, and_true]
    | some v =>
      obtain ⟨rfl, hv⟩ := h.some v rfl
      simp only [Option.mem_some, exists_eq_left', forall_eq', victimKey_lt, Candidate]
      refine ⟨fun ⟨h1, h2, h3⟩ => ⟨⟨h1, h2, fun h0 => ?_⟩, h3⟩, fun ⟨⟨h1, h2, _⟩, h3⟩ => ⟨h1, h2, h3⟩⟩
      rcases h3 with h3 | ⟨h3, -⟩
      · rw [h0] at h3
        exact absurd h3 (by simp)
      · exact hv (h3.symm.trans h0)
  unfold victimStep
  dsimp only
  by_cases hc : Candidate s i
  · cases best with
    | none =>
      rw [if_pos (hwin.2 ⟨hc, by simp⟩), better_none hc]
      exact ⟨rfl, ⟨fun hn => absurd hn (Option.some_ne_none i),
        fun v hv => Option.some.inj hv ▸ ⟨rfl, hc.2.2⟩⟩⟩
    | some v =>
      rw [better_some hc]
      by_cases hlt : victimKey s v < victimKey s i
      · rw [if_pos (hwin.2 ⟨hc, fun w hw => Option.some.inj hw ▸ hlt⟩), if_pos hlt]
        exact ⟨rfl, ⟨fun hn => absurd hn (Option.some_ne_none i),
          fun w hw => Option.some.inj hw ▸ ⟨rfl, hc.2.2⟩⟩⟩
      · rw [if_neg fun hw => hlt ((hwin.1 hw).2 v rfl), if_neg hlt]
        exact ⟨rfl, h⟩
  · rw [if_neg fun hw => hc (hwin.1 hw).1, better_of_not hc]
    exact ⟨rfl, h⟩

/-- `findVictimProc` looks for the best candidate. -/
theorem findVictimProc_eq (s : Machine) :
    findVictimProc s = scan (Candidate s) (victimKey s) (List.range NPROC) none := by
  have key : ∀ (l : List Nat) (acc : Option Nat × BitVec 32), Held s acc →
      (l.foldl (victimStep s) acc).1 = scan (Candidate s) (victimKey s) l acc.1 := by
    intro l
    induction l with
    | nil => exact fun acc _ => rfl
    | cons i l ih =>
      intro acc h
      obtain ⟨heq, hheld⟩ := victimStep_eq h i
      rw [List.foldl_cons, ih _ hheld, heq, scan_cons]
  exact key _ _ ⟨fun _ => rfl, fun v hv => absurd hv.symm (Option.some_ne_none v)⟩

/-- The specification of the choice. -/
structure VictimProc (s : Machine) (r : Option Nat) : Prop where
  none : r = none ↔ ∀ i < NPROC, ¬Candidate s i
  some : ∀ q, r = some q → q < NPROC ∧ Candidate s q ∧ ∀ i < NPROC, Candidate s i →
    (s.proc i).rss < (s.proc q).rss ∨
      (s.proc i).rss = (s.proc q).rss ∧ (s.proc q).pid ≤ (s.proc i).pid

theorem findVictimProc_spec (s : Machine) : VictimProc s (findVictimProc s) := by
  rw [findVictimProc_eq]
  refine ⟨?_, fun q hq => ?_⟩
  · rw [scan_eq_none]
    simp only [List.mem_range]
  · obtain ⟨hm, hc, hle⟩ := scan_max hq
    refine ⟨List.mem_range.1 hm, hc, fun i hi hci => ?_⟩
    exact victimKey_le.1 (hle i (List.mem_range.2 hi) hci)

/-- The counter and the pid of the victim do not depend on the order of the slots. -/
theorem findVictimProc_perm (e : Nat ≃ Nat) (hslots : ∀ i, e i < NPROC ↔ i < NPROC)
    (hproc : ∀ i, t.proc i = s.proc (e i)) :
    (findVictimProc t).map (fun q => ((t.proc q).rss, (t.proc q).pid)) =
      (findVictimProc s).map fun q => ((s.proc q).rss, (s.proc q).pid) := by
  have h : (scan (Candidate t) (victimKey t) (List.range NPROC) none).map (victimKey t) =
      (scan (Candidate s) (victimKey s) (List.range NPROC) none).map (victimKey s) :=
    scan_key_perm e (fun i => by rw [List.mem_range, List.mem_range, hslots])
      (fun i => by unfold Candidate; rw [hproc]) fun i => by unfold victimKey; rw [hproc]
  rw [← findVictimProc_eq, ← findVictimProc_eq] at h
  have hkey : ∀ u : Machine, (fun q => ((u.proc q).rss, (u.proc q).pid)) =
      (fun k : ℕ ×ₗ ℕᵒᵈ => (BitVec.ofNat 32 (ofLex k).1, OrderDual.ofDual (ofLex k).2)) ∘
        victimKey u := by
    intro u
    funext q
    simp only [Function.comp_apply, victimKey, ofLex_toLex, BitVec.ofNat_toNat, BitVec.setWidth_eq,
      OrderDual.ofDual_toDual]
  rw [hkey t, hkey s, ← Option.map_map, h, Option.map_map]

/-- With different pids it is the same process. -/
theorem findVictimProc_same (e : Nat ≃ Nat) (hslots : ∀ i, e i < NPROC ↔ i < NPROC)
    (hproc : ∀ i, t.proc i = s.proc (e i))
    (hpid : ∀ i < NPROC, ∀ j < NPROC, Candidate s i → Candidate s j →
      (s.proc i).pid = (s.proc j).pid → i = j) :
    (findVictimProc t).map e = findVictimProc s := by
  have h := findVictimProc_perm (s := s) (t := t) e hslots hproc
  cases ht : findVictimProc t with
  | none =>
    rw [ht, Option.map_none] at h
    rw [Option.map_none, Option.map_eq_none_iff.1 h.symm]
  | some q =>
    rw [ht, Option.map_some] at h
    obtain ⟨r, hr, hkey⟩ := Option.map_eq_some_iff.1 h.symm
    obtain ⟨hq, hcq, -⟩ := (findVictimProc_spec t).some q ht
    obtain ⟨hrl, hcr, -⟩ := (findVictimProc_spec s).some r hr
    unfold Candidate at hcq
    rw [hproc] at hcq hkey
    rw [Option.map_some, hr, hpid (e q) ((hslots q).2 hq) r hrl hcq hcr (Prod.ext_iff.1 hkey).2.symm]

/-! ## The page -/

/-- The lowest page of the user half with a property. -/
def Lowest (p : Nat → Bool) (v : Nat) : Prop := v < UPAGES ∧ p v = true ∧ ∀ w < v, p w = false

theorem find_lowest {p : Nat → Bool} {v : Nat} :
    (List.range' 0 UPAGES).find? p = some v ↔ Lowest p v := by
  rw [List.find?_range'_eq_some]
  simp only [List.mem_range'_1, Nat.zero_le, true_and, Nat.zero_add, forall_const,
    Bool.not_eq_true', Lowest]
  exact ⟨fun ⟨h1, h2, h3⟩ => ⟨h2, h1, h3⟩, fun ⟨h1, h2, h3⟩ => ⟨h2, h1, h3⟩⟩

theorem find_none {p : Nat → Bool} :
    (List.range' 0 UPAGES).find? p = none ↔ ∀ v < UPAGES, p v = false := by
  rw [List.find?_range'_eq_none]
  simp only [Nat.zero_le, Nat.zero_add, forall_const, Bool.not_eq_true']

/-- The value of `findVictimPage`: the frame, or 0. -/
def pageFrame (r : Option (Nat × Nat)) : Nat :=
  match r with
  | some (_, pa) => pa
  | none => 0

/-- All of the machine but the page tables, the processor and the history. -/
def Machine.rest (s : Machine) : (Nat × List Nat × (Nat → Page) × (Nat → Slot) × (Nat → Block)) ×
    (Nat → Proc) × (Nat → Option Nat) × (Nat × Nat × Nat × Nat × Nat) :=
  ((s.kend, s.freelist, s.mem, s.slots, s.disk), s.proc, s.pipe,
    (s.threshold, s.npages_to_swap, s.initproc, s.nextpid, s.cpu.proc))

/-- The page tables after the call, when the accessed bit is cleared on every user page of `d`
that is in memory. -/
structure Cleared (s t : Machine) (d : Nat) (sp sp' : Space) : Prop where
  rest : t.rest = s.rest
  space : t.space = Function.update s.space d (some sp')
  tab : sp'.tab = sp.tab
  page : ∀ v < UPAGES, sp.userPage v = true → sp'.pte v = (sp.pte v).clearA
  other : ∀ v, ¬(v < UPAGES ∧ sp.userPage v = true) → sp'.pte v = sp.pte v

/-- The specification of `findVictimPage` on the page table `sp` of `d`. -/
structure VictimPage (s : Machine) (d : Nat) (sp : Space) (r : Option (Nat × Nat)) (t : Machine) :
    Prop where
  zero : pageFrame r = 0 ↔ ∀ v < UPAGES, sp.userPage v = false
  unaccessed : ∀ v, Lowest sp.unaccessed v → r = some (v, (sp.pte v).ppn) ∧ t = s
  accessed : (∀ v < UPAGES, sp.unaccessed v = false) → (∃ sp', Cleared s t d sp sp') ∧
    ∀ v, Lowest sp.userPage v → r = some (v, (sp.pte v).ppn)

theorem clearAccessed_userPage (sp : Space) (v : Nat) :
    sp.clearAccessed.userPage v = sp.userPage v := by
  rw [Bool.eq_iff_iff, Space.userPage_iff, Space.userPage_iff]
  unfold Space.clearAccessed
  dsimp only
  split
  · rw [Pte.clearA_present, Pte.clearA_user]
  · exact Iff.rfl

theorem unaccessed_userPage {sp : Space} {v : Nat} (h : sp.unaccessed v = true) :
    sp.userPage v = true := by
  unfold Space.unaccessed at h
  exact (Bool.and_eq_true_iff.1 h).1

theorem lcr3_rest (d : Nat) (s : Machine) :
    K.Returns (lcr3 d) s fun _ t => t.rest = s.rest ∧ t.space = s.space :=
  ⟨(), _, rfl, rfl, rfl⟩

/-- The tables after the second pass. -/
theorem cleared_of_space {d : Nat} {sp : Space} (hr : t.rest = s.rest)
    (ht : t.space = Function.update s.space d (some sp.clearAccessed)) :
    Cleared s t d sp sp.clearAccessed where
  rest := hr
  space := ht
  tab := rfl
  page _ hv hu := if_pos ⟨hv, hu⟩
  other _ hn := if_neg hn

/-- **`findVictimPage`.** -/
theorem findVictimPage_exact {d : Nat} {sp : Space} (hsp : s.space d = some sp)
    (hnull : ∀ v < UPAGES, sp.userPage v = true → (sp.pte v).ppn ≠ 0) :
    K.Returns (findVictimPage d) s (VictimPage s d sp) := by
  unfold findVictimPage
  refine Code.Returns.bind_run (pgdir_returns hsp) ?_
  cases h1 : (List.range' 0 UPAGES).find? sp.unaccessed with
  | some v =>
    -- the first pass ends with a page and touches nothing
    have hlow := find_lowest.1 h1
    have hu := unaccessed_userPage hlow.2.1
    refine Code.returns_pure.2 ⟨?_, fun w hw => ?_, fun hnone => ?_⟩
    · refine iff_of_false (hnull v hlow.1 hu) fun hall => ?_
      rw [hall v hlow.1] at hu
      cases hu
    · obtain rfl := Option.some.inj ((find_lowest.2 hw).symm.trans h1)
      exact ⟨rfl, rfl⟩
    · have hun := hlow.2.1
      rw [hnone v hlow.1] at hun
      cases hun
  | none =>
    have hnone := find_none.1 h1
    simp only [Code.returns_modify_bind]
    refine (lcr3_rest d _).bind fun _ t ht => ?_
    have hc : Cleared s t d sp sp.clearAccessed := cleared_of_space ht.1 ht.2
    have hfind : (List.range' 0 UPAGES).find? sp.clearAccessed.userPage =
        (List.range' 0 UPAGES).find? sp.userPage :=
      congrArg (List.find? · _) (funext (clearAccessed_userPage sp))
    rw [hfind]
    cases h2 : (List.range' 0 UPAGES).find? sp.userPage with
    | some v =>
      have hlow := find_lowest.1 h2
      have hppn : (sp.clearAccessed.pte v).ppn = (sp.pte v).ppn := by
        rw [hc.page v hlow.1 hlow.2.1, Pte.clearA_ppn]
      refine Code.returns_pure.2 ⟨?_, fun w hw => ?_, fun _ => ⟨⟨_, hc⟩, fun w hw => ?_⟩⟩
      · refine iff_of_false (fun h0 => hnull v hlow.1 hlow.2.1 (hppn.symm.trans h0)) fun hall => ?_
        have hu := hlow.2.1
        rw [hall v hlow.1] at hu
        cases hu
      · have hu := hw.2.1
        rw [hnone w hw.1] at hu
        cases hu
      · obtain rfl := Option.some.inj ((find_lowest.2 hw).symm.trans h2)
        rw [hppn]
    | none =>
      have hall := find_none.1 h2
      refine Code.returns_pure.2 ⟨iff_of_true rfl hall, fun w hw => ?_, fun _ => ⟨⟨_, hc⟩, fun w hw => ?_⟩⟩
      · have hu := hw.2.1
        rw [hnone w hw.1] at hu
        cases hu
      · have hu := hw.2.1
        rw [hall w hw.1] at hu
        cases hu

/-- **Victim selection.** The process is the one with the largest counter and then the
smallest pid, wherever the slots are; the page is the lowest one without the accessed
bit, or the lowest one after the bit has been cleared everywhere. -/
theorem victim_selected :
    (∀ s : Machine, VictimProc s (findVictimProc s)) ∧
    (∀ (s t : Machine) (e : Nat ≃ Nat), (∀ i, e i < NPROC ↔ i < NPROC) →
      (∀ i, t.proc i = s.proc (e i)) →
      (findVictimProc t).map (fun q => ((t.proc q).rss, (t.proc q).pid)) =
        (findVictimProc s).map (fun q => ((s.proc q).rss, (s.proc q).pid)) ∧
      ((∀ i < NPROC, ∀ j < NPROC, Candidate s i → Candidate s j →
        (s.proc i).pid = (s.proc j).pid → i = j) → (findVictimProc t).map e = findVictimProc s)) ∧
    (∀ (s : Machine) (d : Nat) (sp : Space), s.space d = some sp →
      (∀ v < UPAGES, sp.userPage v = true → (sp.pte v).ppn ≠ 0) →
      K.Returns (findVictimPage d) s (VictimPage s d sp)) := by
  refine ⟨findVictimProc_spec, fun s t e hslots hproc => ⟨?_, ?_⟩, fun s d sp hsp hnull => ?_⟩
  · exact findVictimProc_perm e hslots hproc
  · exact findVictimProc_same e hslots hproc
  · exact findVictimPage_exact hsp hnull

/-- The address space of `twoPages`. -/
def twoPagesSpace : Space where
  tab i := if i = 0 then some 2 else none
  pte v := if v = 0 then ⟨3, 7#12⟩ else if v = 1 then ⟨4, 7#12⟩ else Pte.zero

/-- It has no page at frame 0. -/
theorem twoPagesSpace_ppn {v : Nat} (hu : twoPagesSpace.userPage v = true) :
    (twoPagesSpace.pte v).ppn ≠ 0 := by
  obtain ⟨-, hp, -⟩ := Space.userPage_iff.1 hu
  simp only [twoPagesSpace] at hp ⊢
  split
  · decide
  · next h0 =>
    rw [if_neg h0] at hp
    split
    · decide
    · next h1 =>
      rw [if_neg h1] at hp
      cases hp

/-- `twoPages` with its process in the second slot of the table. -/
def twoPagesMoved : Machine :=
  { twoPages with proc := fun i => twoPages.proc (Equiv.swap 0 1 i) }

theorem swap_slots (i : Nat) : Equiv.swap 0 1 i < NPROC ↔ i < NPROC := by
  rw [Equiv.swap_apply_def]
  simp only [NPROC]
  split
  · omega
  · split <;> omega

theorem victim_selected_twoPages :
    (findVictimProc twoPagesMoved).map
        (fun q => ((twoPagesMoved.proc q).rss, (twoPagesMoved.proc q).pid)) =
      (findVictimProc twoPages).map (fun q => ((twoPages.proc q).rss, (twoPages.proc q).pid)) ∧
    K.Returns (findVictimPage 1) twoPages (VictimPage twoPages 1 twoPagesSpace) :=
  ⟨(victim_selected.2.1 twoPages twoPagesMoved (Equiv.swap 0 1) swap_slots fun _ => rfl).1,
    victim_selected.2.2 twoPages 1 twoPagesSpace rfl fun _ _ hu => twoPagesSpace_ppn hu⟩

end Xv6.Swap
