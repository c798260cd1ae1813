/-
A scan that keeps the best candidate so far.

A C loop that looks for a maximum keeps a pointer, null at first, and replaces it
whenever the next entry beats the one it has. `scan ok key l best` is that loop over
the entries `l`: an entry that is not `ok` is passed over, and one beats another when
its key is greater, in any linear order. The result is a candidate whose key no other
one exceeds (`scan_max`), there is none exactly when there is no candidate
(`scan_eq_none`), and so the greatest key does not depend on the order of the scan
(`scan_key_perm`).
-/
import Mathlib

set_option autoImplicit false

namespace Xv6.Lib

variable {ι K : Type} [LinearOrder K] (ok : ι → Prop) [DecidablePred ok] (key : ι → K)

/-- One step of the scan. -/
def better (best : Option ι) (i : ι) : Option ι :=
  if ok i then
    match best with
    | none => some i
    | some j => if key j < key i then some i else some j
  else best

def scan (l : List ι) (best : Option ι) : Option ι := l.foldl (better ok key) best

variable {ok key} {l m : List ι} {best : Option ι} {i j : ι}

theorem better_of_not (h : ¬ok i) : better ok key best i = best := if_neg h

theorem better_none (h : ok i) : better ok key none i = some i := if_pos h

theorem better_some (h : ok i) :
    better ok key (some j) i = if key j < key i then some i else some j := if_pos h

theorem scan_cons : scan ok key (i :: l) best = scan ok key l (better ok key best i) := rfl

/-- What is found is a candidate of the list, or was there before. -/
theorem scan_mem (h : scan ok key l best = some i) : best = some i ∨ i ∈ l ∧ ok i := by
  induction l generalizing best with
  | nil => exact Or.inl h
  | cons j l ih =>
    rw [scan_cons] at h
    rcases ih h with hb | ⟨hm, hi⟩
    · by_cases hj : ok j
      · cases best with
        | none =>
          rw [better_none hj] at hb
          obtain rfl := Option.some.inj hb
          exact Or.inr ⟨List.mem_cons_self, hj⟩
        | some k =>
          rw [better_some hj] at hb
          split at hb
          · obtain rfl := Option.some.inj hb
            exact Or.inr ⟨List.mem_cons_self, hj⟩
          · exact Or.inl hb
      · rw [better_of_not hj] at hb
        exact Or.inl hb
    · exact Or.inr ⟨List.mem_cons_of_mem j hm, hi⟩

/-- The scan looks only at which entries are candidates, and at their keys. -/
theorem scan_congr {ok' : ι → Prop} [DecidablePred ok'] {key' : ι → K} (hok : ∀ i, ok i ↔ ok' i)
    (hkey : ∀ i, ok i → key i = key' i) (hbest : ∀ j, best = some j → ok j) :
    scan ok key l best = scan ok' key' l best := by
  induction l generalizing best with
  | nil => rfl
  | cons i l ih =>
    have hstep : better ok key best i = better ok' key' best i := by
      by_cases hi : ok i
      · cases best with
        | none => rw [better_none hi, better_none ((hok i).1 hi)]
        | some j =>
          rw [better_some hi, better_some ((hok i).1 hi), hkey i hi, hkey j (hbest j rfl)]
      · rw [better_of_not hi, better_of_not fun h => hi ((hok i).2 h)]
    rw [scan_cons, scan_cons, ← hstep]
    apply ih
    intro j hj
    rcases scan_mem (show scan ok key [i] best = some j from hj) with hb | ⟨-, hb⟩
    · exact hbest j hb
    · exact hb

variable (ok key) in
/-- Once there is a candidate, there stays one, and its key only grows. -/
theorem scan_some (l : List ι) (j : ι) :
    ∃ i, scan ok key l (some j) = some i ∧ key j ≤ key i ∧ ∀ k ∈ l, ok k → key k ≤ key i := by
  induction l generalizing j with
  | nil => exact ⟨j, rfl, le_rfl, fun k hk => absurd hk List.not_mem_nil⟩
  | cons k l ih =>
    have hstep : ∃ b, better ok key (some j) k = some b ∧ key j ≤ key b ∧ (ok k → key k ≤ key b) := by
      by_cases hk : ok k
      · rw [better_some hk]
        by_cases hlt : key j < key k
        · exact ⟨k, if_pos hlt, hlt.le, fun _ => le_rfl⟩
        · exact ⟨j, if_neg hlt, le_rfl, fun _ => not_lt.1 hlt⟩
      · exact ⟨j, better_of_not hk, le_rfl, fun h => absurd h hk⟩
    obtain ⟨b, hb, hjb, hkb⟩ := hstep
    obtain ⟨i, hi, hbi, hl⟩ := ih b
    refine ⟨i, by rw [scan_cons, hb, hi], hjb.trans hbi, fun k' hk' hok => ?_⟩
    rcases List.mem_cons.1 hk' with rfl | hk'
    · exact (hkb hok).trans hbi
    · exact hl k' hk' hok

/-- **Nothing is found exactly when there is no candidate.** -/
theorem scan_eq_none : scan ok key l none = none ↔ ∀ i ∈ l, ¬ok i := by
  induction l with
  | nil => exact iff_of_true rfl fun i hi => absurd hi List.not_mem_nil
  | cons j l ih =>
    rw [scan_cons]
    by_cases hj : ok j
    · rw [better_none hj]
      obtain ⟨i, hi, -⟩ := scan_some ok key l j
      rw [hi]
      exact iff_of_false (Option.some_ne_none i) fun h => h j List.mem_cons_self hj
    · rw [better_of_not hj, ih]
      exact ⟨fun h i hi => (List.mem_cons.1 hi).elim (fun he => he ▸ hj) (h i),
        fun h i hi => h i (List.mem_cons_of_mem j hi)⟩

/-- **What is found is a greatest candidate.** -/
theorem scan_max (h : scan ok key l none = some i) :
    i ∈ l ∧ ok i ∧ ∀ j ∈ l, ok j → key j ≤ key i := by
  have hmem : i ∈ l ∧ ok i := (scan_mem h).resolve_left fun hn => absurd hn.symm (Option.some_ne_none i)
  refine ⟨hmem.1, hmem.2, ?_⟩
  clear hmem
  induction l with
  | nil => exact fun j hj => absurd hj List.not_mem_nil
  | cons k l ih =>
    rw [scan_cons] at h
    by_cases hk : ok k
    · rw [better_none hk] at h
      obtain ⟨i', hi', hki, hl⟩ := scan_some ok key l k
      rw [hi'] at h
      obtain rfl := Option.some.inj h
      intro j hj hok
      rcases List.mem_cons.1 hj with rfl | hj
      · exact hki
      · exact hl j hj hok
    · rw [better_of_not hk] at h
      intro j hj hok
      rcases List.mem_cons.1 hj with rfl | hj
      · exact absurd hok hk
      · exact ih h j hj hok

/-- A greatest candidate has the greatest key. -/
theorem scan_key (h : scan ok key l none = some i) (hj : j ∈ l) (hok : ok j)
    (hmax : ∀ k ∈ l, ok k → key k ≤ key j) : key i = key j := by
  obtain ⟨hi, hoki, hle⟩ := scan_max h
  exact le_antisymm (hmax i hi hoki) (hle j hj hok)

/-- **The greatest key does not depend on the order of the scan.** -/
theorem scan_key_perm {ok' : ι → Prop} [DecidablePred ok'] {key' : ι → K} (e : ι ≃ ι)
    (hmem : ∀ i, e i ∈ l ↔ i ∈ m) (hok : ∀ i, ok' i ↔ ok (e i)) (hkey : ∀ i, key' i = key (e i)) :
    (scan ok' key' m none).map key' = (scan ok key l none).map key := by
  cases h : scan ok' key' m none with
  | none =>
    have hnone : scan ok key l none = none := by
      rw [scan_eq_none] at h ⊢
      intro i hi hoki
      refine h (e.symm i) ((hmem _).1 (by rwa [e.apply_symm_apply])) ?_
      rwa [hok, e.apply_symm_apply]
    rw [hnone]
    rfl
  | some i =>
    obtain ⟨hi, hoki, hle⟩ := scan_max h
    cases h' : scan ok key l none with
    | none => exact absurd ((hok i).1 hoki) (scan_eq_none.1 h' _ ((hmem i).2 hi))
    | some j =>
      have hj : key j = key (e i) := by
        refine scan_key h' ((hmem i).2 hi) ((hok i).1 hoki) fun k hk hokk => ?_
        have := hle (e.symm k) ((hmem _).1 (by rwa [e.apply_symm_apply]))
          ((hok _).2 (by rwa [e.apply_symm_apply]))
        rwa [hkey, hkey, e.apply_symm_apply] at this
      rw [Option.map_some, Option.map_some, hj, hkey]

end Xv6.Lib
