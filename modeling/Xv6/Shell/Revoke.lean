/-
Permissions that are taken away while a read or a write is in progress.

The test of the mode is made once, before the loop of `filewrite`, which takes the
lock of the inode for each chunk. What the test found still holds at a chunk if no
chmod in between takes the bit. For that the file and its inode have to be the same
until the call returns: the reference counts of the file table and of the inode cache
are those of the references there are, so neither entry is used again before.
-/
import Mathlib
import Xv6.Shell.File

set_option autoImplicit false

namespace Xv6.Shell.File

open Xv6.Lib

/-- The file of a read or a write in progress. -/
def Pos.busy : Pos → Option (Fd × FileIx)
  | .write x f _ _ => some (x, f)
  | .read x f _ => some (x, f)
  | _ => none

/-- The file and the permission bit that a call in progress has still to use. -/
def Pos.needs : Pos → Option (FileIx × BitVec 32)
  | .write _ f left c => if left = 0 ∧ (c = .iunlock ∨ c = .end_op) then none else some (f, 2)
  | .read _ f c => if c = .iunlock then none else some (f, 1)
  | _ => none

/-- The file whose inode a call in progress has locked. -/
def Pos.locked : Pos → Option FileIx
  | .write _ f _ c => if c = .data ∨ c = .iunlock then some f else none
  | .read _ f c => if c = .data ∨ c = .iunlock then some f else none
  | _ => none

/-- No chmod takes a permission that a read or a write in progress has still to use. -/
def Respects (s : Sys) : Event → Prop
  | .chmod y mode => ∀ p : Slot, ∀ fb ∈ (s.pos p).needs,
      (s.file fb.1).ip = s.tmp y → mode &&& 7 &&& fb.2 ≠ 0
  | _ => True

/-- `Respects` for a chmod, computed. -/
def respects (s : Sys) (y : Tmp) (mode : BitVec 32) : Bool :=
  (List.finRange NPROC).all fun p => (s.pos p).needs.all fun fb =>
    (s.file fb.1).ip != s.tmp y || mode &&& 7 &&& fb.2 != 0

theorem respects_iff {s : Sys} {y : Tmp} {mode : BitVec 32} :
    respects s y mode = true ↔ Respects s (.chmod y mode) := by
  unfold respects Respects
  simp only [List.all_eq_true, List.mem_finRange, true_imp_iff, Option.all_eq_true,
    Bool.or_eq_true, bne_iff_ne, ne_eq, ← imp_iff_not_or, Option.mem_def]

instance (s : Sys) : (e : Event) → Decidable (Respects s e)
  | .chmod y mode => decidable_of_iff (respects s y mode = true) respects_iff
  | .store .. => inferInstanceAs (Decidable True)
  | .iget .. => inferInstanceAs (Decidable True)
  | .idup .. => inferInstanceAs (Decidable True)
  | .iput .. => inferInstanceAs (Decidable True)
  | .ilock .. => inferInstanceAs (Decidable True)
  | .iunlock .. => inferInstanceAs (Decidable True)
  | .create .. => inferInstanceAs (Decidable True)
  | .openFile .. => inferInstanceAs (Decidable True)
  | .pipe .. => inferInstanceAs (Decidable True)
  | .filedup .. => inferInstanceAs (Decidable True)
  | .close .. => inferInstanceAs (Decidable True)
  | .read .. => inferInstanceAs (Decidable True)
  | .write .. => inferInstanceAs (Decidable True)
  | .next .. => inferInstanceAs (Decidable True)

/-- Who refers to the entries of the inode cache. -/
def Sys.holds (s : Sys) : FileIx ⊕ Tmp → Option Ix
  | .inl f => if (s.file f).type = .FD_INODE then (s.file f).ip else none
  | .inr y => s.tmp y

/-- The counters are those of the references. -/
structure Counted (s : Sys) : Prop where
  files : ∀ f, (s.file f).ref = count s.ofile f
  inodes : ∀ i, (s.cache i).ref = count s.holds i
  closed : ∀ f, (s.file f).ref = 0 → (s.file f).type = .FD_NONE
  valid : ∀ f, (s.file f).type = .FD_INODE →
    ∃ i, (s.file f).ip = some i ∧ (s.cache i).valid = true
  locks : ∀ i, (s.cache i).lock ≠ none → (s.cache i).valid = true ∧ 0 < (s.cache i).ref

/-- What the calls in progress rely on. -/
structure Calls (s : Sys) : Prop where
  busy : ∀ p x f, (s.pos p).busy = some (x, f) →
    x.1 = p ∧ s.ofile x = some f ∧ (s.file f).type = .FD_INODE
  needs : ∀ p f bit i, (s.pos p).needs = some (f, bit) → (s.file f).ip = some i →
    (s.cache i).mode &&& bit ≠ 0
  locked : ∀ p f i, (s.pos p).locked = some f → (s.file f).ip = some i →
    (s.cache i).lock = some p

structure Inv (s : Sys) : Prop where
  counted : Counted s
  calls : Calls s

theorem Pos.busy_of_needs {c : Pos} {f : FileIx} {bit : BitVec 32}
    (h : c.needs = some (f, bit)) : ∃ x, c.busy = some (x, f) := by
  cases c with
  | write x f' left c =>
    simp only [Pos.needs] at h
    split at h
    · cases h
    · cases h
      exact ⟨x, rfl⟩
  | read x f' c =>
    simp only [Pos.needs] at h
    split at h
    · cases h
    · cases h
      exact ⟨x, rfl⟩
  | _ => cases h

theorem Pos.busy_of_locked {c : Pos} {f : FileIx} (h : c.locked = some f) :
    ∃ x, c.busy = some (x, f) := by
  cases c with
  | write x f' left c =>
    simp only [Pos.locked] at h
    split at h
    · cases h
      exact ⟨x, rfl⟩
    · cases h
  | read x f' c =>
    simp only [Pos.locked] at h
    split at h
    · cases h
      exact ⟨x, rfl⟩
    · cases h
  | _ => cases h

/-- The permissions that a call may need. -/
theorem Pos.bit_of_needs {c : Pos} {f : FileIx} {bit : BitVec 32}
    (h : c.needs = some (f, bit)) : bit = 1 ∨ bit = 2 := by
  cases c with
  | write x f' left c =>
    simp only [Pos.needs] at h
    split at h
    · cases h
    · cases h
      exact .inr rfl
  | read x f' c =>
    simp only [Pos.needs] at h
    split at h
    · cases h
    · cases h
      exact .inl rfl
  | _ => cases h

section Steps

variable {s t : Sys} {p : Slot} {x : Fd} {y : Tmp} {f : FileIx} {i : Ix}

theorem Pos.ne_user {xf : Fd × FileIx} (h : (s.pos p).busy = some xf) : s.pos p ≠ .user := by
  intro hu
  rw [hu] at h
  cases h

/-- The inode of an open file is referred to. -/
theorem Sys.holds_file (ht : (s.file f).type = .FD_INODE) (hi : (s.file f).ip = some i) :
    s.holds (.inl f) = some i :=
  (if_pos ht).trans hi

/-- A step that no call in progress sees. -/
theorem Calls.frame (hs : Calls s) (hpos : t.pos = s.pos)
    (hfd : ∀ x f, s.pos x.1 ≠ .user → s.ofile x = some f → (s.file f).type = .FD_INODE →
      t.ofile x = some f ∧ (t.file f).type = .FD_INODE ∧ (t.file f).ip = (s.file f).ip)
    (hmode : ∀ p f bit i, (s.pos p).needs = some (f, bit) → (s.file f).type = .FD_INODE →
      (s.file f).ip = some i → (t.cache i).mode &&& bit ≠ 0)
    (hlock : ∀ p f i, (s.pos p).locked = some f → (s.cache i).lock = some p →
      (t.cache i).lock = some p) : Calls t := by
  have hkeep : ∀ p x f, (s.pos p).busy = some (x, f) → t.ofile x = some f ∧
      (t.file f).type = .FD_INODE ∧ (t.file f).ip = (s.file f).ip := by
    intro p x f hb
    obtain ⟨hx, ho, ht⟩ := hs.busy p x f hb
    refine hfd x f ?_ ho ht
    rw [hx]
    exact Pos.ne_user hb
  refine ⟨fun p x f hb => ?_, fun p f bit i hn hi => ?_, fun p f i hl hi => ?_⟩
  · rw [hpos] at hb
    exact ⟨(hs.busy p x f hb).1, (hkeep p x f hb).1, (hkeep p x f hb).2.1⟩
  · rw [hpos] at hn
    obtain ⟨x, hb⟩ := Pos.busy_of_needs hn
    rw [(hkeep p x f hb).2.2] at hi
    exact hmode p f bit i hn (hs.busy p x f hb).2.2 hi
  · rw [hpos] at hl
    obtain ⟨x, hb⟩ := Pos.busy_of_locked hl
    rw [(hkeep p x f hb).2.2] at hi
    exact hlock p f i hl (hs.locked p f i hl hi)

/-! ## Inodes -/

/-- A field that the new value leaves alone is the same in every entry. -/
theorem update_field {β : Type} {g : Cached} (π : Cached → β) (h : π g = π (s.cache i)) (j : Ix) :
    π (Function.update s.cache i g j) = π (s.cache j) := by
  by_cases hji : j = i
  · subst hji
    rw [Function.update_self, h]
  · rw [Function.update_of_ne hji]

theorem holds_tmp (s : Sys) (y : Tmp) (o : Option Ix) (cache : Ix → Cached) :
    Sys.holds { s with cache := cache, tmp := Function.update s.tmp y o } =
      Function.update s.holds (.inr y) o := by
  funext h
  cases h with
  | inl f => rw [Function.update_of_ne Sum.inl_ne_inr]; rfl
  | inr z =>
    by_cases hz : z = y
    · subst hz
      rw [Function.update_self]
      exact Function.update_self ..
    · rw [Function.update_of_ne (fun h => hz (Sum.inr.inj h))]
      exact Function.update_of_ne hz ..

/-- `iget` and `idup`: a pointer takes a reference. An entry that is used again had
none. -/
theorem Inv.take (hs : Inv s) (hy : s.tmp y = none) {g : Cached}
    (href : g.ref = (s.cache i).ref + 1) (hmode : g.mode = (s.cache i).mode)
    (hlock : g.lock = (s.cache i).lock)
    (hvalid : g.valid = (s.cache i).valid ∨ (s.cache i).ref = 0) :
    Inv { s with cache := Function.update s.cache i g
                 tmp := Function.update s.tmp y (some i) } := by
  have hkept : ∀ j, 0 < (s.cache j).ref → (s.cache j).valid = true →
      (Function.update s.cache i g j).valid = true := by
    intro j hj hv
    by_cases hji : j = i
    · subst hji
      rw [Function.update_self]
      rcases hvalid with h | h
      · rw [h]
        exact hv
      · omega
    · rw [Function.update_of_ne hji]
      exact hv
  have hcount := hs.counted.inodes
  refine ⟨⟨hs.counted.files, fun j => ?_, hs.counted.closed, fun f ht => ?_, fun j hj => ?_⟩, ?_⟩
  · show (Function.update s.cache i g j).ref = count (Sys.holds { s with
      cache := Function.update s.cache i g, tmp := Function.update s.tmp y (some i) }) j
    rw [holds_tmp, count_take (x := Sum.inr y) hy, ← hcount]
    by_cases hji : j = i
    · subst hji
      rw [Function.update_self, if_pos rfl, href]
    · rw [Function.update_of_ne hji, if_neg hji, Nat.add_zero]
  · obtain ⟨j, hj, hv⟩ := hs.counted.valid f ht
    refine ⟨j, hj, hkept j ?_ hv⟩
    rw [hcount]
    exact count_pos (Sys.holds_file ht hj)
  · have hl : (s.cache j).lock ≠ none := by
      rw [← update_field Cached.lock hlock]
      exact hj
    obtain ⟨hv, hr⟩ := hs.counted.locks j hl
    refine ⟨hkept j hr hv, ?_⟩
    show 0 < (Function.update s.cache i g j).ref
    by_cases hji : j = i
    · subst hji
      rw [Function.update_self, href]
      omega
    · rw [Function.update_of_ne hji]
      exact hr
  · refine hs.calls.frame rfl (fun x f _ hx ht => ⟨hx, ht, rfl⟩) (fun p f bit j hn _ hj => ?_)
      fun p _ j _ hl => ?_
    · have := hs.calls.needs p f bit j hn hj
      rw [← update_field Cached.mode hmode] at this
      exact this
    · exact (update_field Cached.lock hlock j).trans hl

theorem iget_spec {inum : Nat} (hs : Inv s) (h : s.iget y inum = some t) : Inv t := by
  unfold Sys.iget at h
  split at h
  · cases h
  case isFalse hy =>
    have hy' : s.tmp y = none := not_ne_iff.1 hy
    split at h
    · obtain rfl := Option.some.inj h
      exact hs.take hy' rfl rfl rfl (.inl rfl)
    · obtain ⟨i, hi, rfl⟩ := Option.map_eq_some_iff.1 h
      have h0 : (s.cache i).ref = 0 := by simpa using List.find?_some hi
      exact hs.take hy' (by rw [h0]) rfl rfl (.inr h0)

theorem idup_spec {y' : Tmp} (hs : Inv s) (h : s.idup y y' = some t) : Inv t := by
  unfold Sys.idup at h
  split at h
  · cases h
  case isFalse hy =>
    obtain ⟨i, -, rfl⟩ := Option.map_eq_some_iff.1 h
    exact hs.take (not_ne_iff.1 hy) rfl rfl rfl (.inl rfl)

/-- A pointer drops its reference. -/
theorem iput_spec {unlinked : Bool} (hs : Inv s) (h : s.iput y unlinked = some t) : Inv t := by
  obtain ⟨i, hy, h⟩ := Option.bind_eq_some_iff.1 h
  split at h
  · cases h
  case isFalse hl =>
    have hunlocked : (s.cache i).lock = none := not_ne_iff.1 hl
    obtain rfl := Option.some.inj h
    have hcount := hs.counted.inodes
    have hother : ∀ j, j ≠ i → ∀ g, (Function.update s.cache i g j) = s.cache j :=
      fun j hj g => Function.update_of_ne hj _ _
    refine ⟨⟨hs.counted.files, fun j => ?_, hs.counted.closed, fun f ht => ?_, fun j hj => ?_⟩, ?_⟩
    · refine Eq.trans ?_ (congrArg (fun g => count g j) (holds_tmp s y none _)).symm
      have := count_drop (g := s.holds) (x := Sum.inr y) hy j
      rw [← hcount] at this
      show (Function.update s.cache i _ j).ref = _
      by_cases hji : j = i
      · subst hji
        rw [if_pos rfl] at this
        rw [Function.update_self]
        show (s.cache j).ref - 1 = _
        omega
      · rw [if_neg hji, Nat.add_zero] at this
        rw [hother j hji]
        exact this
    · obtain ⟨j, hj, hv⟩ := hs.counted.valid f ht
      refine ⟨j, hj, ?_⟩
      show (Function.update s.cache i _ j).valid = true
      by_cases hji : j = i
      · subst hji
        rw [Function.update_self]
        -- the file holds a reference of its own, so this one is not the last
        have h2 : 2 ≤ count s.holds j :=
          two_le_count (Sys.holds_file ht hj) (show s.holds (.inr y) = some j from hy)
            Sum.inl_ne_inr
        rw [← hcount] at h2
        have hne : ¬(unlinked = true ∧ (s.cache j).ref = 1) := by omega
        simp only [if_neg hne]
        exact hv
      · rw [hother j hji]
        exact hv
    · have hji : j ≠ i := by
        rintro rfl
        refine hj ?_
        show (Function.update s.cache j _ j).lock = none
        rw [Function.update_self]
        exact hunlocked
      have hj' : (s.cache j).lock ≠ none := by
        refine fun h0 => hj ?_
        show (Function.update s.cache i _ j).lock = none
        rw [hother j hji]
        exact h0
      show (Function.update s.cache i _ j).valid = true ∧ 0 < (Function.update s.cache i _ j).ref
      rw [hother j hji]
      exact hs.counted.locks j hj'
    · refine hs.calls.frame rfl (fun x f _ hx ht => ⟨hx, ht, rfl⟩)
        (fun p f bit j hn _ hj => ?_) fun p _ j _ hheld => ?_
      · refine ne_of_eq_of_ne ?_ (hs.calls.needs p f bit j hn hj)
        exact congrArg (fun m => m &&& bit) (update_field Cached.mode (by rfl) j)
      · have hji : j ≠ i := by
          rintro rfl
          rw [hunlocked] at hheld
          cases hheld
        show (Function.update s.cache i _ j).lock = some p
        rw [hother j hji]
        exact hheld

/-- What a step that only locks, unlocks or writes an inode keeps. -/
structure Touched (i : Ix) (s t : Sys) : Prop where
  file : t.file = s.file
  ofile : t.ofile = s.ofile
  tmp : t.tmp = s.tmp
  pos : t.pos = s.pos
  cache : ∀ j, j ≠ i → t.cache j = s.cache j
  ref : (t.cache i).ref = (s.cache i).ref
  valid : (s.cache i).valid = true → (t.cache i).valid = true
  locked : (t.cache i).lock ≠ none → (t.cache i).valid = true ∧ 0 < (t.cache i).ref

theorem Touched.counted (h : Touched i s t) (hs : Counted s) : Counted t := by
  have hholds : t.holds = s.holds := by
    funext o
    cases o with
    | inl f => simp only [Sys.holds, h.file]
    | inr y => simp only [Sys.holds, h.tmp]
  refine ⟨fun f => ?_, fun j => ?_, fun f => ?_, fun f ht => ?_, fun j hj => ?_⟩
  · rw [h.file, h.ofile]
    exact hs.files f
  · rw [hholds, ← hs.inodes]
    by_cases hji : j = i
    · subst hji
      exact h.ref
    · rw [h.cache j hji]
  · rw [h.file]
    exact hs.closed f
  · rw [h.file] at ht ⊢
    obtain ⟨j, hj, hv⟩ := hs.valid f ht
    refine ⟨j, hj, ?_⟩
    by_cases hji : j = i
    · subst hji
      exact h.valid hv
    · rw [h.cache j hji]
      exact hv
  · by_cases hji : j = i
    · subst hji
      exact h.locked hj
    · rw [h.cache j hji] at hj ⊢
      exact hs.locks j hj

/-- `ilock`: what is valid is as it was. -/
theorem lock_spec (hr : 0 < (s.cache i).ref) (h : s.lock p i = some t) :
    Touched i s t ∧ (s.cache i).lock = none ∧ (t.cache i).lock = some p ∧
      ((s.cache i).valid = true → (t.cache i).mode = (s.cache i).mode) := by
  unfold Sys.lock at h
  split at h
  · cases h
  case isFalse hl =>
    obtain rfl := Option.some.inj h
    have hself := Function.update_self i (if (s.cache i).valid then { s.cache i with lock := some p }
      else { s.cache i with
        lock := some p, valid := true, mode := (s.disk (s.cache i).inum).setWidth 32 }) s.cache
    refine ⟨⟨rfl, rfl, rfl, rfl, fun j hj => Function.update_of_ne hj _ _, ?_, ?_, ?_⟩,
      not_ne_iff.1 hl, ?_, ?_⟩
    all_goals simp only [Sys.setCache, hself]
    · split <;> rfl
    · intro hv
      rw [if_pos hv]
      exact hv
    · intro _
      by_cases hv : (s.cache i).valid = true
      · rw [if_pos hv]
        exact ⟨hv, hr⟩
      · rw [if_neg hv]
        exact ⟨rfl, hr⟩
    · split <;> rfl
    · intro hv
      rw [if_pos hv]

theorem unlock_spec (h : s.unlock p i = some t) :
    Touched i s t ∧ (s.cache i).lock = some p ∧ (t.cache i).mode = (s.cache i).mode := by
  unfold Sys.unlock at h
  split at h
  case isFalse => cases h
  case isTrue hl =>
    obtain rfl := Option.some.inj h
    have hself := Function.update_self i { s.cache i with lock := none } s.cache
    refine ⟨⟨rfl, rfl, rfl, rfl, fun j hj => Function.update_of_ne hj _ _, ?_, ?_, ?_⟩, hl, ?_⟩
    all_goals simp only [Sys.setCache, hself]
    · exact id
    · exact fun h => absurd rfl h

theorem setMode_spec {mode : BitVec 32} (hs : Counted s) (h : s.setMode p i mode = some t) :
    Touched i s t ∧ (t.cache i).lock = (s.cache i).lock ∧ (t.cache i).mode = mode := by
  unfold Sys.setMode at h
  split at h
  case isFalse => cases h
  case isTrue hl =>
    obtain rfl := Option.some.inj h
    have hself := Function.update_self i { s.cache i with mode := mode } s.cache
    refine ⟨⟨rfl, rfl, rfl, rfl, fun j hj => Function.update_of_ne hj _ _, ?_, ?_, ?_⟩, ?_, ?_⟩
    all_goals simp only [Sys.setCache, hself]
    · exact id
    · exact hs.locks i

/-- The pointer `y` refers to its inode. -/
theorem ref_pos_of_tmp (hs : Counted s) (hy : s.tmp y = some i) : 0 < (s.cache i).ref := by
  rw [hs.inodes]
  exact count_pos (x := Sum.inr y) hy

theorem ref_pos_of_file (hs : Counted s) (ht : (s.file f).type = .FD_INODE)
    (hi : (s.file f).ip = some i) : 0 < (s.cache i).ref := by
  rw [hs.inodes]
  exact count_pos (Sys.holds_file ht hi)

/-- An inode that is touched: the permissions that are needed are still there, and who has
the lock keeps it. -/
theorem Touched.inv (hT : Touched i s t) (hs : Inv s)
    (hmode : ∀ q f bit, (s.pos q).needs = some (f, bit) → (s.file f).type = .FD_INODE →
      (s.file f).ip = some i → (t.cache i).mode &&& bit ≠ 0)
    (hlock : ∀ q f, (s.pos q).locked = some f → (s.cache i).lock = some q →
      (t.cache i).lock = some q) : Inv t := by
  refine ⟨hT.counted hs.counted, hs.calls.frame hT.pos (fun x f _ hx ht => ?_)
    (fun q f bit j hn ht hj => ?_) fun q f j hq hl => ?_⟩
  · rw [hT.ofile, hT.file]
    exact ⟨hx, ht, rfl⟩
  · by_cases hji : j = i
    · subst hji
      exact hmode q f bit hn ht hj
    · rw [hT.cache j hji]
      exact hs.calls.needs q f bit j hn hj
  · by_cases hji : j = i
    · subst hji
      exact hlock q f hq hl
    · rw [hT.cache j hji]
      exact hl

theorem ilock_spec (hs : Inv s) (hr : 0 < (s.cache i).ref) (h : s.lock p i = some t) :
    Inv t := by
  obtain ⟨hT, hfree, -, hmode⟩ := lock_spec hr h
  apply hT.inv hs
  · intro q f bit hn ht hi
    -- the inode of an open file is valid, so it is not read again
    obtain ⟨j, hj, hv⟩ := hs.counted.valid f ht
    obtain rfl := Option.some.inj (hi.symm.trans hj)
    rw [hmode hv]
    exact hs.calls.needs q f bit i hn hi
  · intro q f _ hl
    rw [hfree] at hl
    cases hl

theorem iunlock_spec (hs : Inv s) (hp : (s.pos p).locked = none) (h : s.unlock p i = some t) :
    Inv t := by
  obtain ⟨hT, hheld, hmode⟩ := unlock_spec h
  apply hT.inv hs
  · intro q f bit hn _ hi
    rw [hmode]
    exact hs.calls.needs q f bit i hn hi
  · intro q f hq hl
    obtain rfl := Option.some.inj (hheld.symm.trans hl)
    rw [hp] at hq
    cases hq

/-- A new mode that has the bits the calls in progress need. -/
theorem mode_spec {mode : BitVec 32} (hs : Inv s) (h : s.setMode p i mode = some t)
    (hok : ∀ q f bit, (s.pos q).needs = some (f, bit) → (s.file f).ip = some i →
      mode &&& bit ≠ 0) : Inv t := by
  obtain ⟨hT, hlock, hmode⟩ := setMode_spec hs.counted h
  apply hT.inv hs
  · intro q f bit hn _ hi
    rw [hmode]
    exact hok q f bit hn hi
  · intro q f _ hl
    rw [hlock]
    exact hl

/-! ## Files -/

theorem filealloc_spec (h : s.filealloc = some f) : (s.file f).ref = 0 := by
  simpa using List.find?_some h

/-- An entry without references is not open. -/
theorem Counted.free_file (hs : Counted s) (hf : (s.file f).ref = 0) :
    s.holds (.inl f) = none ∧ ∀ x g, s.ofile x = some g → g ≠ f := by
  refine ⟨if_neg ?_, ?_⟩
  · rw [hs.closed f hf]
    decide
  · rintro x g hx rfl
    have := hs.files g
    rw [hf] at this
    exact absurd (count_pos hx) (by omega)

/-- What no step on the file table changes. -/
theorem Inv.of_eq (hs : Inv s) (hcache : t.cache = s.cache) (hfile : t.file = s.file)
    (hofile : t.ofile = s.ofile) (htmp : t.tmp = s.tmp) (hpos : t.pos = s.pos) : Inv t := by
  obtain ⟨cache, disk, file, ofile, tmp, pipe, pos, low⟩ := t
  simp only at hcache hfile hofile htmp hpos
  subst hcache hfile hofile htmp hpos
  exact ⟨⟨hs.counted.files, hs.counted.inodes, hs.counted.closed, hs.counted.valid,
    hs.counted.locks⟩, ⟨hs.calls.busy, hs.calls.needs, hs.calls.locked⟩⟩

theorem holds_file (s : Sys) (f : FileIx) (e : Entry) (ofile : Fd → Option FileIx) :
    Sys.holds { s with file := Function.update s.file f e, ofile := ofile } =
      Function.update s.holds (.inl f) (if e.type = .FD_INODE then e.ip else none) := by
  funext o
  cases o with
  | inr z => rw [Function.update_of_ne Sum.inr_ne_inl]; rfl
  | inl g =>
    unfold Sys.holds
    by_cases hg : g = f
    · subst hg
      simp only [Function.update_self]
    · rw [Function.update_of_ne fun h => hg (Sum.inl.inj h)]
      simp only [Function.update_of_ne hg]

/-- An entry that refers to what it did leaves the counts of the inodes. -/
theorem holds_file_self {e : Entry} (ofile : Fd → Option FileIx)
    (he : (if e.type = .FD_INODE then e.ip else none) = s.holds (.inl f)) :
    Sys.holds { s with file := Function.update s.file f e, ofile := ofile } = s.holds := by
  rw [holds_file, he, Function.update_eq_self]

/-- **An entry of the file table is written**, with the descriptors and the pointers: the
counts are right, and the calls in progress do not see it. -/
theorem Inv.setFile (hs : Inv s) {e : Entry} {ofile : Fd → Option FileIx} {tmp : Tmp → Option Ix}
    (hfiles : ∀ g, (if g = f then e.ref else (s.file g).ref) = count ofile g)
    (hcount : ∀ j, count (Sys.holds { s with
      file := Function.update s.file f e, ofile := ofile, tmp := tmp }) j = count s.holds j)
    (hclosed : e.ref = 0 → e.type = .FD_NONE)
    (hopen : e.type = .FD_INODE → ∃ i, e.ip = some i ∧ (s.cache i).valid = true)
    (hkept : ∀ z g, s.pos z.1 ≠ .user → s.ofile z = some g → ofile z = some g ∧
      (g = f → e.type = (s.file g).type ∧ e.ip = (s.file g).ip)) :
    Inv { s with file := Function.update s.file f e, ofile := ofile, tmp := tmp } := by
  have hself : Function.update s.file f e f = e := Function.update_self ..
  have hother : ∀ g, g ≠ f → Function.update s.file f e g = s.file g :=
    fun g hg => Function.update_of_ne hg _ _
  refine ⟨⟨fun g => ?_, fun j => (hs.counted.inodes j).trans (hcount j).symm, fun g hg => ?_,
    fun g hg => ?_, hs.counted.locks⟩, ?_⟩
  · rw [← hfiles g]
    by_cases hgf : g = f
    · subst hgf
      rw [if_pos rfl]
      exact congrArg Entry.ref hself
    · rw [if_neg hgf]
      exact congrArg Entry.ref (hother g hgf)
  · by_cases hgf : g = f
    · subst hgf
      simp only [hself] at hg ⊢
      exact hclosed hg
    · simp only [hother g hgf] at hg ⊢
      exact hs.counted.closed g hg
  · by_cases hgf : g = f
    · subst hgf
      simp only [hself] at hg ⊢
      exact hopen hg
    · simp only [hother g hgf] at hg ⊢
      exact hs.counted.valid g hg
  · refine hs.calls.frame rfl (fun z g hz hg ht => ?_)
      (fun p f bit j hn _ hj => hs.calls.needs p f bit j hn hj) fun p _ j _ hl => hl
    obtain ⟨ho, he⟩ := hkept z g hz hg
    refine ⟨ho, ?_⟩
    by_cases hgf : g = f
    · subst hgf
      simp only [hself]
      exact ⟨(he rfl).1.trans ht, (he rfl).2⟩
    · simp only [hother g hgf]
      exact ⟨ht, trivial⟩

/-- The other descriptors stay when a closed one is opened. -/
theorem ofile_opened (hx : s.ofile x = none) (o : Option FileIx) {z : Fd} {g : FileIx}
    (hz : s.ofile z = some g) : Function.update s.ofile x o z = some g := by
  rw [Function.update_of_ne]
  · exact hz
  · rintro rfl
    rw [hx] at hz
    cases hz

/-- The descriptors of the calls in progress stay when their process is not the one that closes. -/
theorem ofile_kept (hp : s.pos x.1 = .user) {z : Fd} (hz : s.pos z.1 ≠ .user) :
    Function.update s.ofile x none z = s.ofile z := by
  refine Function.update_of_ne ?_ _ _
  rintro rfl
  exact hz hp

/-- A free entry is taken, for a new descriptor. -/
theorem Inv.takeFile (hs : Inv s) (hx : s.ofile x = none) (hf : (s.file f).ref = 0) {e : Entry}
    (he : e.ref = 1) {tmp : Tmp → Option Ix}
    (hcount : ∀ j, count (Sys.holds { s with
      file := Function.update s.file f e
      ofile := Function.update s.ofile x (some f)
      tmp := tmp }) j = count s.holds j)
    (hopen : e.type = .FD_INODE → ∃ i, e.ip = some i ∧ (s.cache i).valid = true) :
    Inv { s with file := Function.update s.file f e
                 ofile := Function.update s.ofile x (some f)
                 tmp := tmp } := by
  apply hs.setFile _ hcount _ hopen
  · intro z g _ hz
    exact ⟨ofile_opened hx _ hz, fun hg => absurd hg ((hs.counted.free_file hf).2 z g hz)⟩
  · intro g
    rw [count_take hx, ← hs.counted.files]
    by_cases hg : g = f
    · subst hg
      rw [if_pos rfl, if_pos rfl, he, hf]
    · rw [if_neg hg, if_neg hg, Nat.add_zero]
  · intro h0
    omega

/-- A free entry becomes the end of a pipe. -/
theorem Inv.install (hs : Inv s) (hx : s.ofile x = none) (hf : (s.file f).ref = 0) {e : Entry}
    (he : e.ref = 1) (htype : e.type = .FD_PIPE) :
    Inv { s with file := Function.update s.file f e
                 ofile := Function.update s.ofile x (some f) } := by
  have hne : e.type ≠ .FD_INODE := by
    rw [htype]
    decide
  have hholds := holds_file_self (Function.update s.ofile x (some f))
    ((if_neg hne).trans (hs.counted.free_file hf).1.symm)
  exact hs.takeFile hx hf he (fun j => congrArg (fun g => count g j) hholds)
    fun h => absurd h hne

theorem pipealloc_spec {x' : Fd} {k : Nat} (hs : Inv s) (h : s.pipealloc x x' k = some t) :
    Inv t := by
  unfold Sys.pipealloc at h
  split at h
  · cases h
  case isFalse hc =>
    simp only [not_or, ne_eq, Decidable.not_not] at hc
    obtain ⟨hx, hx', hne, -⟩ := hc
    obtain ⟨f0, hf0, h⟩ := Option.bind_eq_some_iff.1 h
    obtain ⟨f1, hf1, rfl⟩ := Option.map_eq_some_iff.1 h
    have h1 := hs.install (e := { s.file f0 with
      ref := 1, type := .FD_PIPE, readable := true, writable := false, pipe := k }) hx
      (filealloc_spec hf0) rfl rfl
    have hx1 : Function.update s.ofile x (some f0) x' = none := by
      rw [Function.update_of_ne (Ne.symm hne)]
      exact hx'
    have h2 := h1.install (x := x') (f := f1) (e := { (Function.update s.file f0 { s.file f0 with
      ref := 1, type := .FD_PIPE, readable := true, writable := false, pipe := k }) f1 with
      ref := 1, type := .FD_PIPE, readable := false, writable := true, pipe := k })
      hx1 (filealloc_spec hf1) rfl rfl
    exact h2.of_eq rfl rfl rfl rfl rfl

/-- A free entry becomes an open file, which takes the reference of a pointer. -/
theorem Inv.installInode (hs : Inv s) (hx : s.ofile x = none) (hf : (s.file f).ref = 0)
    (hy : s.tmp y = some i) (hv : (s.cache i).valid = true) {e : Entry} (he : e.ref = 1)
    (htype : e.type = .FD_INODE) (hip : e.ip = some i) :
    Inv { s with file := Function.update s.file f e
                 ofile := Function.update s.ofile x (some f)
                 tmp := Function.update s.tmp y none } := by
  refine hs.takeFile hx hf he (fun j => ?_) fun _ => ⟨i, hip, hv⟩
  have hholds := holds_tmp { s with
    file := Function.update s.file f e, ofile := Function.update s.ofile x (some f) } y none s.cache
  rw [holds_file, if_pos htype, hip, Function.update_comm Sum.inl_ne_inr] at hholds
  refine (congrArg (fun g => count g j) hholds).trans ?_
  exact count_pass (show s.holds (.inr y) = some i from hy) (hs.counted.free_file hf).1 j

theorem openFile_spec {readable writable : Bool} (hs : Inv s) (hp : s.pos y.1 = .user)
    (h : s.openFile y x readable writable = some t) : Inv t := by
  obtain ⟨i, hy, h⟩ := Option.bind_eq_some_iff.1 h
  split at h
  · cases h
  case isFalse hc =>
    simp only [not_or, ne_eq, Decidable.not_not] at hc
    obtain ⟨hx, hl⟩ := hc
    obtain ⟨f, hf, rfl⟩ := Option.map_eq_some_iff.1 h
    have hlock := hs.counted.locks i (by rw [hl]; simp)
    -- the lock goes first
    have h1 : Inv (s.setCache i fun c => { c with lock := none }) :=
      iunlock_spec (p := y.1) hs (by rw [hp]; rfl) (if_pos hl)
    have hv : ((s.setCache i fun c => { c with lock := none }).cache i).valid = true := by
      simp only [Sys.setCache, Function.update_self]
      exact hlock.1
    have h2 := h1.installInode (x := x) (f := f) (y := y) (e := { s.file f with
      ref := 1, type := .FD_INODE, ip := some i, readable := readable, writable := writable })
      hx (filealloc_spec hf) hy hv rfl rfl rfl
    exact h2.of_eq rfl rfl rfl rfl rfl

/-- The number of the descriptors of an open file changes, and it stays open. -/
theorem Inv.recount (hs : Inv s) {r : Nat} (hr : r ≠ 0) {ofile : Fd → Option FileIx}
    (hfiles : ∀ g, (if g = f then r else (s.file g).ref) = count ofile g)
    (hkept : ∀ z g, s.pos z.1 ≠ .user → s.ofile z = some g → ofile z = some g) :
    Inv { s with file := Function.update s.file f { s.file f with ref := r }
                 ofile := ofile } := by
  have hholds : Sys.holds { s with
      file := Function.update s.file f { s.file f with ref := r }, ofile := ofile } = s.holds :=
    holds_file_self ofile rfl
  refine hs.setFile hfiles (fun j => congrArg (fun g => count g j) hholds)
    (fun h0 => absurd h0 hr) (hs.counted.valid f) fun z g hz hg => ⟨hkept z g hz hg, ?_⟩
  rintro rfl
  exact ⟨rfl, rfl⟩

theorem filedup_spec {x' : Fd} (hs : Inv s) (h : s.filedup x x' = some t) : Inv t := by
  unfold Sys.filedup at h
  split at h
  · cases h
  case isFalse hx' =>
    have hx'' : s.ofile x' = none := not_ne_iff.1 hx'
    obtain ⟨f, hx, rfl⟩ := Option.map_eq_some_iff.1 h
    apply hs.recount (Nat.succ_ne_zero _)
    · intro g
      rw [count_take hx'', ← hs.counted.files]
      by_cases hg : g = f
      · rw [if_pos hg, if_pos hg, hg]
      · rw [if_neg hg, if_neg hg, Nat.add_zero]
    · intro z g _ hz
      exact ofile_opened hx'' _ hz

/-- The close of a file with another descriptor. -/
theorem Inv.unshare (hs : Inv s) (hp : s.pos x.1 = .user) (hx : s.ofile x = some f)
    (hr : 1 < (s.file f).ref) : Inv { s with
      file := Function.update s.file f { s.file f with ref := (s.file f).ref - 1 }
      ofile := Function.update s.ofile x none } := by
  apply hs.recount (Nat.sub_ne_zero_of_lt hr)
  · intro g
    have hd := count_drop hx g
    have hg := hs.counted.files g
    by_cases hgf : g = f
    · subst hgf
      rw [if_pos rfl] at hd ⊢
      omega
    · rw [if_neg hgf] at hd ⊢
      omega
  · intro z g hz hg
    rw [ofile_kept hp hz]
    exact hg

/-- The last close of a file; `tmp` is what takes its inode. -/
theorem Inv.closeLast (hs : Inv s) (hp : s.pos x.1 = .user) (hx : s.ofile x = some f)
    (hr : (s.file f).ref = 1) (tmp : Tmp → Option Ix)
    (hcount : ∀ j, count (Sys.holds { s with
      file := Function.update s.file f { s.file f with ref := 0, type := .FD_NONE }
      ofile := Function.update s.ofile x none
      tmp := tmp }) j = count s.holds j) : Inv { s with
      file := Function.update s.file f { s.file f with ref := 0, type := .FD_NONE }
      ofile := Function.update s.ofile x none
      tmp := tmp } := by
  refine hs.setFile (fun g => ?_) hcount (fun _ => rfl) (fun h => by cases h) fun z g hz hg => ?_
  · have hd := count_drop hx g
    have hg := hs.counted.files g
    by_cases hgf : g = f
    · subst hgf
      rw [if_pos rfl] at hd ⊢
      show 0 = count (Function.update s.ofile x none) g
      omega
    · rw [if_neg hgf] at hd ⊢
      omega
  · refine ⟨(ofile_kept hp hz).trans hg, ?_⟩
    -- a call in progress on this file has a descriptor of its own
    rintro rfl
    have hzx : z ≠ x := by
      rintro rfl
      exact hz hp
    have h2 := two_le_count hg hx hzx
    rw [← hs.counted.files] at h2
    omega

theorem close_spec (hs : Inv s) (hp : s.pos x.1 = .user) (h : s.close x y = some t) : Inv t := by
  obtain ⟨f, hx, h⟩ := Option.bind_eq_some_iff.1 h
  have hpos : 0 < (s.file f).ref := by
    rw [hs.counted.files]
    exact count_pos hx
  simp only at h
  split at h
  case isTrue hr =>
    obtain rfl := Option.some.inj h
    exact (hs.unshare hp hx hr).of_eq rfl rfl rfl rfl rfl
  case isFalse hr =>
    have h1 : (s.file f).ref = 1 := by omega
    cases htype : (s.file f).type with
    | FD_NONE =>
      simp only [htype] at h
      obtain rfl := Option.some.inj h
      have hne : (s.file f).type ≠ .FD_INODE := by
        rw [htype]
        decide
      have := hs.closeLast hp hx h1 s.tmp fun j =>
        congrArg (fun g => count g j) (holds_file_self _ (if_neg hne).symm)
      exact this.of_eq rfl rfl rfl rfl rfl
    | FD_PIPE =>
      simp only [htype] at h
      obtain rfl := Option.some.inj h
      have hne : (s.file f).type ≠ .FD_INODE := by
        rw [htype]
        decide
      have := hs.closeLast hp hx h1 s.tmp fun j =>
        congrArg (fun g => count g j) (holds_file_self _ (if_neg hne).symm)
      exact this.of_eq rfl rfl rfl rfl rfl
    | FD_INODE =>
      simp only [htype] at h
      split at h
      · cases h
      case isFalse hy =>
        have hy' : s.tmp y = none := not_ne_iff.1 hy
        obtain rfl := Option.some.inj h
        obtain ⟨i, hi, -⟩ := hs.counted.valid f htype
        -- the pointer takes the reference of the file
        have hpass := holds_tmp { s with
          file := Function.update s.file f { s.file f with ref := 0, type := .FD_NONE }
          ofile := Function.update s.ofile x none } y (some i) s.cache
        rw [holds_file, if_neg fun h => by cases h] at hpass
        have := hs.closeLast hp hx h1 (Function.update s.tmp y (s.file f).ip) fun j => by
          rw [hi]
          refine (congrArg (fun g => count g j) hpass).trans ?_
          exact count_pass (Sys.holds_file htype hi) (show s.holds (.inr y) = none from hy') j
        exact this.of_eq rfl rfl rfl rfl rfl

/-! ## Read and write -/

/-- A process that is at no lock goes to another point of a call. -/
theorem Inv.setPos (hs : Inv s) (p : Slot) {c : Pos}
    (hbusy : ∀ x f, c.busy = some (x, f) →
      x.1 = p ∧ s.ofile x = some f ∧ (s.file f).type = .FD_INODE)
    (hneeds : ∀ f bit i, c.needs = some (f, bit) → (s.file f).ip = some i →
      (s.cache i).mode &&& bit ≠ 0)
    (hlocked : ∀ f i, c.locked = some f → (s.file f).ip = some i →
      (s.cache i).lock = some p) : Inv (s.setPos p c) := by
  refine ⟨⟨hs.counted.files, hs.counted.inodes, hs.counted.closed, hs.counted.valid,
    hs.counted.locks⟩, fun q x f hq => ?_, fun q f bit i hq => ?_, fun q f i hq => ?_⟩
  all_goals
    simp only [Sys.setPos] at hq
    by_cases hqp : q = p
  · subst hqp
    rw [Function.update_self] at hq
    exact hbusy x f hq
  · rw [Function.update_of_ne hqp] at hq
    exact hs.calls.busy q x f hq
  · subst hqp
    rw [Function.update_self] at hq
    exact hneeds f bit i hq
  · rw [Function.update_of_ne hqp] at hq
    exact hs.calls.needs q f bit i hq
  · subst hqp
    rw [Function.update_self] at hq
    exact hlocked f i hq
  · rw [Function.update_of_ne hqp] at hq
    exact hs.calls.locked q f i hq

/-- To a point outside of the calls on inodes. -/
theorem Inv.setIdle (hs : Inv s) (p : Slot) {c : Pos} (hb : c.busy = none) :
    Inv (s.setPos p c) := by
  refine hs.setPos p (fun x f h => ?_) (fun f bit i h => ?_) fun f i h => ?_
  · rw [hb] at h
    cases h
  · obtain ⟨x, h⟩ := Pos.busy_of_needs h
    rw [hb] at h
    cases h
  · obtain ⟨x, h⟩ := Pos.busy_of_locked h
    rw [hb] at h
    cases h

theorem fileread_spec {n : Nat} {killed : Bool} (hs : Inv s) (hx : s.ofile x = some f)
    (hmode : s.modeAt x.1 (s.file f).ip &&& 1 ≠ 0)
    (h : (fileread x f n killed s).state = some t) : Inv t := by
  unfold fileread at h
  simp only at h
  split at h
  · obtain rfl := Option.some.inj h
    exact hs
  · cases htype : (s.file f).type with
    | FD_NONE => simp [htype, Out.state] at h
    | FD_PIPE =>
      simp only [htype, piperead] at h
      split at h
      · obtain rfl := Option.some.inj h
        exact hs.of_eq rfl rfl rfl rfl rfl
      · obtain rfl := Option.some.inj h
        exact hs.setIdle x.1 rfl
    | FD_INODE =>
      simp only [htype] at h
      obtain rfl := Option.some.inj h
      refine hs.setPos x.1 (fun x' f' hb => ?_) (fun f' bit i hn hi => ?_) fun f' i hl => ?_
      · obtain ⟨rfl, rfl⟩ := Prod.mk.inj (Option.some.inj hb)
        exact ⟨rfl, hx, htype⟩
      · obtain ⟨rfl, rfl⟩ := Prod.mk.inj (Option.some.inj hn)
        rw [hi] at hmode
        exact hmode
      · cases hl

theorem filewrite_spec {bytes : List (BitVec 8)} {killed : Bool} (hs : Inv s)
    (hx : s.ofile x = some f) (hmode : s.modeAt x.1 (s.file f).ip &&& 2 ≠ 0)
    (h : (filewrite x f bytes killed s).state = some t) : Inv t := by
  unfold filewrite at h
  simp only at h
  split at h
  · obtain rfl := Option.some.inj h
    exact hs
  · cases htype : (s.file f).type with
    | FD_NONE => simp [htype, Out.state] at h
    | FD_PIPE =>
      simp only [htype, pipewrite] at h
      split at h
      · obtain rfl := Option.some.inj h
        exact hs.of_eq rfl rfl rfl rfl rfl
      · obtain rfl := Option.some.inj h
        exact (hs.setIdle x.1 (c := .pipewrite f _) rfl).of_eq rfl rfl rfl rfl rfl
    | FD_INODE =>
      simp only [htype] at h
      split at h
      · obtain rfl := Option.some.inj h
        exact hs
      · obtain rfl := Option.some.inj h
        refine hs.setPos x.1 (fun x' f' hb => ?_) (fun f' bit i hn hi => ?_) fun f' i hl => ?_
        · obtain ⟨rfl, rfl⟩ := Prod.mk.inj (Option.some.inj hb)
          exact ⟨rfl, hx, htype⟩
        · have hn' : some (f, (2 : BitVec 32)) = some (f', bit) := by simpa [Pos.needs] using hn
          obtain ⟨rfl, rfl⟩ := Prod.mk.inj (Option.some.inj hn')
          rw [hi] at hmode
          exact hmode
        · cases hl

theorem sys_read_spec {n : Nat} {ok killed : Bool} (hs : Inv s)
    (h : (sys_read x n ok killed s).2.state = some t) : Inv t := by
  cases ok with
  | false =>
    rw [sys_read_refused] at h
    obtain rfl := Option.some.inj h
    exact hs
  | true =>
    cases hx : s.ofile x with
    | none =>
      simp only [sys_read, hx] at h
      obtain rfl := Option.some.inj h
      exact hs
    | some f =>
      rw [sys_read_eq hx] at h
      simp only at h
      split at h
      · obtain rfl := Option.some.inj h
        exact hs
      case isFalse hmode => exact fileread_spec hs hx hmode h

theorem sys_write_spec {bytes : List (BitVec 8)} {ok killed : Bool} (hs : Inv s)
    (h : (sys_write x bytes ok killed s).2.state = some t) : Inv t := by
  cases ok with
  | false =>
    rw [sys_write_refused] at h
    obtain rfl := Option.some.inj h
    exact hs
  | true =>
    cases hx : s.ofile x with
    | none =>
      simp only [sys_write, hx] at h
      obtain rfl := Option.some.inj h
      exact hs
    | some f =>
      rw [sys_write_eq hx] at h
      simp only at h
      split at h
      · obtain rfl := Option.some.inj h
        exact hs
      case isFalse hmode => exact filewrite_spec hs hx hmode h

/-- The lock of a chunk is taken before the position changes, and given back after. -/
theorem unlock_setPos {c : Pos} (h : (s.unlock p i).map (Sys.setPos p c) = some t) :
    (s.setPos p c).unlock p i = some t := by
  obtain ⟨u, hu, rfl⟩ := Option.map_eq_some_iff.1 h
  unfold Sys.unlock at hu
  split at hu
  case isFalse => cases hu
  case isTrue hl =>
    obtain rfl := Option.some.inj hu
    exact if_pos hl

/-- A chunk takes the lock of the inode. -/
theorem advance_ilock (hs : Inv s) {c d : Pos} (hc : s.pos p = c) (hb : c.busy = some (x, f))
    (hi : (s.file f).ip = some i) (hb' : d.busy = c.busy) (hn : d.needs = c.needs)
    (h : (s.lock p i).map (Sys.setPos p d) = some t) : Inv t := by
  obtain ⟨u, hu, rfl⟩ := Option.map_eq_some_iff.1 h
  obtain ⟨-, -, ht⟩ := hs.calls.busy p x f (by rw [hc]; exact hb)
  have hr := ref_pos_of_file hs.counted ht hi
  have hI := ilock_spec hs hr hu
  obtain ⟨hT, -, hheld, -⟩ := lock_spec hr hu
  have hpos : u.pos p = c := by rw [hT.pos, hc]
  refine hI.setPos p (fun x' f' h' => ?_) (fun f' bit j h' hj => ?_) fun f' j h' hj => ?_
  · rw [hb'] at h'
    exact hI.calls.busy p x' f' (by rw [hpos]; exact h')
  · rw [hn] at h'
    exact hI.calls.needs p f' bit j (by rw [hpos]; exact h') hj
  · obtain ⟨x', h'⟩ := Pos.busy_of_locked h'
    rw [hb', hb] at h'
    obtain ⟨rfl, rfl⟩ := Prod.mk.inj (Option.some.inj h')
    rw [hT.file, hi] at hj
    obtain rfl := Option.some.inj hj
    exact hheld

/-- A step that stays in the call, and needs and has locked no more than before. -/
theorem advance_pos (hs : Inv s) {c d : Pos} (hc : s.pos p = c)
    (hb : ∀ xf, d.busy = some xf → c.busy = some xf)
    (hn : ∀ fb, d.needs = some fb → c.needs = some fb)
    (hl : ∀ f, d.locked = some f → c.locked = some f) : Inv (s.setPos p d) := by
  subst hc
  exact hs.setPos p (fun x f h => hs.calls.busy p x f (hb _ h))
    (fun f bit i h => hs.calls.needs p f bit i (hn _ h)) fun f i h => hs.calls.locked p f i (hl _ h)

theorem advance_iunlock (hs : Inv s) {c d : Pos} (hc : s.pos p = c)
    (hb : ∀ xf, d.busy = some xf → c.busy = some xf)
    (hn : ∀ fb, d.needs = some fb → c.needs = some fb) (hl : d.locked = none)
    (h : (s.unlock p i).map (Sys.setPos p d) = some t) : Inv t := by
  have h1 := advance_pos hs hc hb hn fun f h => by
    rw [hl] at h
    cases h
  refine iunlock_spec (p := p) h1 ?_ (unlock_setPos h)
  simp only [Sys.setPos, Function.update_self]
  exact hl

theorem advance_spec {fails killed : Bool} (hs : Inv s) (h : advance p fails killed s = some t) :
    Inv t := by
  unfold advance at h
  cases hc : s.pos p with
  | user => simp [hc] at h
  | read x f c =>
    simp only [hc] at h
    obtain ⟨i, hi, h⟩ := Option.bind_eq_some_iff.1 h
    cases c with
    | begin_op => cases h
    | end_op => cases h
    | ilock => exact advance_ilock (d := .read x f .data) hs hc rfl hi rfl rfl h
    | data =>
      obtain rfl := Option.some.inj h
      refine advance_pos hs hc (fun _ h => h) (fun _ h => ?_) fun _ h => h
      simp [Pos.needs] at h
    | iunlock =>
      refine advance_iunlock (d := .user) hs hc (fun _ h => ?_) (fun _ h => ?_) rfl h
      · cases h
      · cases h
  | write x f left c =>
    simp only [hc] at h
    obtain ⟨i, hi, h⟩ := Option.bind_eq_some_iff.1 h
    cases c with
    | begin_op =>
      obtain rfl := Option.some.inj h
      refine advance_pos hs hc (fun _ h => h) (fun _ h => ?_) fun _ h => h
      simpa [Pos.needs] using h
    | ilock =>
      refine advance_ilock (d := .write x f left .data) hs hc rfl hi rfl ?_ h
      simp [Pos.needs]
    | data =>
      obtain rfl := Option.some.inj h
      refine advance_pos hs hc (fun _ h => h) (fun fb h => ?_) fun _ h => h
      have hfb : Pos.needs (.write x f left .data) = some (f, 2) := by simp [Pos.needs]
      rw [hfb]
      simp only [Pos.needs, ite_eq_iff] at h
      rcases h with ⟨-, h⟩ | ⟨-, h⟩
      · cases h
      · exact h
    | iunlock =>
      refine advance_iunlock (d := .write x f left .end_op) hs hc (fun _ h => h) (fun _ h => ?_)
        (by simp [Pos.locked]) h
      simpa [Pos.needs] using h
    | end_op =>
      obtain rfl := Option.some.inj h
      by_cases hleft : left = 0
      · rw [if_pos hleft]
        exact hs.setIdle p rfl
      · -- more chunks: the call goes back to `begin_op`
        rw [if_neg hleft]
        refine advance_pos hs hc (fun _ h => h) (fun _ h => ?_) fun _ h => ?_
        · simpa [Pos.needs, hleft] using h
        · cases h
  | piperead f n =>
    simp only [hc] at h
    obtain ⟨rq, -, rfl⟩ := Option.map_eq_some_iff.1 h
    exact (hs.setIdle p (c := .user) rfl).of_eq rfl rfl rfl rfl rfl
  | pipewrite f rest =>
    simp only [hc] at h
    split at h
    · obtain rfl := Option.some.inj h
      exact (hs.setIdle p (c := .user) rfl).of_eq rfl rfl rfl rfl rfl
    · obtain rfl := Option.some.inj h
      exact (hs.setIdle p (c := .pipewrite f _) rfl).of_eq rfl rfl rfl rfl rfl

/-! ## Runs -/

theorem Inv.run {e : Event} (hs : Inv s) (hp : s.pos e.proc = .user) (hok : Respects s e)
    (h : e.run s = some t) : Inv t := by
  cases e with
  | store p w =>
    obtain rfl := Option.some.inj h
    exact hs.of_eq rfl rfl rfl rfl rfl
  | iget y inum => exact iget_spec hs h
  | idup y y' => exact idup_spec hs h
  | iput y unlinked => exact iput_spec hs h
  | ilock y =>
    obtain ⟨i, hy, h⟩ := Option.bind_eq_some_iff.1 h
    exact ilock_spec hs (ref_pos_of_tmp hs.counted hy) h
  | iunlock y =>
    obtain ⟨i, -, h⟩ := Option.bind_eq_some_iff.1 h
    exact iunlock_spec hs (by rw [show s.pos y.1 = .user from hp]; rfl) h
  | chmod y mode =>
    obtain ⟨i, hy, h⟩ := Option.bind_eq_some_iff.1 h
    exact mode_spec hs h fun q f bit hn hi => hok q _ hn (hi.trans hy.symm)
  | create y =>
    obtain ⟨i, -, h⟩ := Option.bind_eq_some_iff.1 h
    refine mode_spec hs h fun q f bit hn _ => ?_
    rcases Pos.bit_of_needs hn with rfl | rfl <;> decide
  | openFile y x readable writable =>
    simp only [Event.run] at h
    split at h
    case isFalse => cases h
    case isTrue => exact openFile_spec hs hp h
  | pipe x x' k =>
    simp only [Event.run] at h
    split at h
    case isFalse => cases h
    case isTrue => exact pipealloc_spec hs h
  | filedup x x' => exact filedup_spec hs h
  | close x y =>
    simp only [Event.run] at h
    split at h
    case isFalse => cases h
    case isTrue => exact close_spec hs hp h
  | read x n ok killed => exact sys_read_spec hs h
  | write x bytes ok killed => exact sys_write_spec hs h
  | next p fails killed => exact advance_spec hs h

theorem Inv.step {e : Event} (hs : Inv s) (hok : Respects s e) (h : Step s e t) : Inv t := by
  unfold Step File.step at h
  split at h
  case h_1 p fails killed => exact advance_spec hs h
  case h_2 =>
    split at h
    case isFalse => cases h
    case isTrue hp => exact hs.run hp hok h

theorem inv_boot (disk : Nat → BitVec 3) (low : Slot → BitVec 32) : Inv (boot disk low) := by
  have hholds : (boot disk low).holds = fun _ => none := by
    funext o
    cases o <;> rfl
  refine ⟨⟨fun f => (count_none f).symm, fun i => ?_, fun _ _ => rfl, fun f hf => (nomatch hf),
    fun i hi => absurd rfl hi⟩, ⟨fun p x f h => (nomatch h), fun p f bit i h => (nomatch h),
    fun p f i h => (nomatch h)⟩⟩
  rw [hholds]
  exact (count_none i).symm

end Steps

/-- **Permissions at a chunk.** In a run where no chmod takes a permission that a read
or a write in progress has still to use, data is written to an inode whose mode has the
write bit, and read from one whose mode has the read bit, while the lock is held. -/
theorem data_permitted {disk : Nat → BitVec 3} {low : Slot → BitVec 32} {es : List Event}
    {s : Sys} (hr : Run (Guarded Step Respects) (boot disk low) es s) :
    (∀ p x f left, s.pos p = .write x f left .data → ∃ i, (s.file f).ip = some i ∧
      (s.cache i).lock = some p ∧ (s.cache i).mode &&& 2 ≠ 0) ∧
    ∀ p x f, s.pos p = .read x f .data → ∃ i, (s.file f).ip = some i ∧
      (s.cache i).lock = some p ∧ (s.cache i).mode &&& 1 ≠ 0 := by
  have hs : Inv s := hr.invariant (fun _ _ _ h hs => hs.step h.1 h.2) (inv_boot disk low)
  refine ⟨fun p x f left hp => ?_, fun p x f hp => ?_⟩
  · obtain ⟨-, -, ht⟩ := hs.calls.busy p x f (by rw [hp]; rfl)
    obtain ⟨i, hi, -⟩ := hs.counted.valid f ht
    exact ⟨i, hi, hs.calls.locked p f i (by rw [hp]; rfl) hi,
      hs.calls.needs p f 2 i (by rw [hp]; simp [Pos.needs]) hi⟩
  · obtain ⟨-, -, ht⟩ := hs.calls.busy p x f (by rw [hp]; rfl)
    obtain ⟨i, hi, -⟩ := hs.counted.valid f ht
    exact ⟨i, hi, hs.calls.locked p f i (by rw [hp]; rfl) hi,
      hs.calls.needs p f 1 i (by rw [hp]; rfl) hi⟩

/-- A process makes and opens a file and calls write. Another one changes the mode, and
the write goes on to its chunk. -/
def chmodDuringWrite (mode : BitVec 32) : List Event :=
  [.iget (0, 0) 5, .ilock (0, 0), .create (0, 0), .openFile (0, 0) (0, 0) true true,
    .write (0, 0) [1] true false,
    .iget (1, 0) 5, .ilock (1, 0), .chmod (1, 0) mode, .iunlock (1, 0),
    .next 0 false false, .next 0 false false]

/-- A chmod that leaves the write bit. -/
theorem data_permitted_chmod : ∃ s,
    execIf step Respects (chmodDuringWrite 2) (boot (fun _ => 0) fun _ => 0) = some s ∧
      ∃ i, (s.file 0).ip = some i ∧ (s.cache i).lock = some 0 ∧ (s.cache i).mode &&& 2 ≠ 0 := by
  have h : ((execIf step Respects (chmodDuringWrite 2) (boot (fun _ => 0) fun _ => 0)).any fun s =>
      s.pos 0 == .write (0, 0) 0 1 .data) = true := by decide +kernel
  obtain ⟨s, hs, h⟩ := (Option.any_eq_true _ _).1 h
  exact ⟨s, hs, (data_permitted (run_of_execIf hs)).1 0 (0, 0) 0 1 (beq_iff_eq.1 h)⟩

/-- **A write after its permission is revoked**: the test came before the chmod. -/
theorem write_after_revoke : ∃ s,
    exec step (chmodDuringWrite 0) (boot (fun _ => 0) fun _ => 0) = some s ∧
      s.pos 0 = .write (0, 0) 0 1 .data ∧ (s.file 0).ip = some 0 ∧
      (s.cache 0).lock = some 0 ∧ (s.cache 0).mode &&& 2 = 0 := by
  have h : ((exec step (chmodDuringWrite 0) (boot (fun _ => 0) fun _ => 0)).any fun s =>
      s.pos 0 == .write (0, 0) 0 1 .data && (s.file 0).ip == some 0 &&
        (s.cache 0).lock == some 0 && (s.cache 0).mode &&& 2 == 0) = true := by decide +kernel
  obtain ⟨s, hs, h⟩ := (Option.any_eq_true _ _).1 h
  simp only [Bool.and_eq_true, beq_iff_eq] at h
  obtain ⟨⟨⟨h1, h2⟩, h3⟩, h4⟩ := h
  exact ⟨s, hs, h1, h2, h3, h4⟩

end Xv6.Shell.File
