/-
Reference counts: a table of references `g : α → Option β`, and how many entries of it
lead to each `b`.

An entry takes a reference, drops it, or passes it on to another entry. The count of a
table follows each move, so a counter that is kept by hand is compared with it move by
move.
-/
import Mathlib

set_option autoImplicit false

namespace Xv6.Lib

variable {α β : Type} [Fintype α] [DecidableEq β]

/-- The entries that lead to `b`. -/
def count (g : α → Option β) (b : β) : Nat := (Finset.univ.filter fun x => g x = some b).card

variable {g : α → Option β} {x y : α} {b : β}

theorem count_pos (h : g x = some b) : 0 < count g b :=
  Finset.card_pos.2 ⟨x, Finset.mem_filter.2 ⟨Finset.mem_univ x, h⟩⟩

theorem two_le_count (hx : g x = some b) (hy : g y = some b) (h : x ≠ y) : 2 ≤ count g b :=
  Finset.one_lt_card.2 ⟨x, Finset.mem_filter.2 ⟨Finset.mem_univ x, hx⟩, y,
    Finset.mem_filter.2 ⟨Finset.mem_univ y, hy⟩, h⟩

theorem count_none (c : β) : count (fun _ : α => (none : Option β)) c = 0 := by
  simp [count]

variable [DecidableEq α]

/-- An empty entry takes a reference. -/
theorem count_take (h : g x = none) (b c : β) :
    count (Function.update g x (some b)) c = count g c + if c = b then 1 else 0 := by
  unfold count
  by_cases hc : c = b
  · subst hc
    have hx : x ∉ Finset.univ.filter fun y => g y = some c := by simp [h]
    rw [if_pos rfl, ← Finset.card_insert_of_notMem hx]
    congr 1
    ext y
    by_cases hy : y = x
    · simp [hy]
    · simp [hy]
  · rw [if_neg hc, Nat.add_zero]
    congr 1
    ext y
    by_cases hy : y = x
    · subst hy
      simp [h, Ne.symm hc]
    · simp [hy]

/-- An entry drops its reference. -/
theorem count_drop (h : g x = some b) (c : β) :
    count g c = count (Function.update g x none) c + if c = b then 1 else 0 := by
  have := count_take (g := Function.update g x none) (x := x) (Function.update_self ..) b c
  rw [Function.update_idem] at this
  rw [← this]
  congr 1
  rw [← h, Function.update_eq_self]

/-- An entry passes its reference on. -/
theorem count_pass (hx : g x = some b) (hy : g y = none) (c : β) :
    count (Function.update (Function.update g x none) y (some b)) c = count g c := by
  have hne : y ≠ x := by
    rintro rfl
    rw [hx] at hy
    cases hy
  rw [count_take (by rw [Function.update_of_ne hne]; exact hy), count_drop hx]

end Xv6.Lib
