/-
A redo log on a disk: one region of the disk holds a header and copies of blocks, and
the header names the home of each copy.

`Redo r head d L A` says that the disk `d` stands for the contents `A`: the header
names the homes `L`, the copies are what `A` has there, and every other home block is
already what `A` says. Installing a copy keeps it, clearing the header of a log that
is installed keeps it, and a header written over an empty one moves it to other
contents at once. So it holds again after any prefix of these writes.
-/
import Mathlib

set_option autoImplicit false

namespace Xv6.Lib

/-- The blocks `start`, ..., `start + size - 1`; the first one is the header. -/
structure Region where
  start : Nat
  size : Nat

/-- The blocks outside the region. -/
def Region.Home (r : Region) (b : Nat) : Prop := b < r.start ∨ r.start + r.size ≤ b

instance (r : Region) (b : Nat) : Decidable (r.Home b) := by unfold Region.Home; infer_instance

variable {β : Type} {r : Region} {head : β → Option (List Nat)}

structure Redo (r : Region) (head : β → Option (List Nat)) (d : Nat → β) (L : List Nat)
    (A : Nat → β) : Prop where
  header : head (d r.start) = some L
  room : L.length < r.size
  homes : ∀ b ∈ L, r.Home b
  logged : ∀ i (h : i < L.length), d (r.start + 1 + i) = A L[i]
  rest : ∀ b, r.Home b → b ∉ L → d b = A b

namespace Redo

variable {d A B : Nat → β} {L : List Nat}

/-- A disk with an empty log is what it stands for. -/
theorem clean (h : Redo r head d [] A) {b : Nat} (hb : r.Home b) : d b = A b :=
  h.rest b hb List.not_mem_nil

/-- A disk is what it stands for when the homes in the log are. -/
theorem installed (h : Redo r head d L A) (hL : ∀ b ∈ L, d b = A b) {b : Nat}
    (hb : r.Home b) : d b = A b := by
  by_cases hbL : b ∈ L
  · exact hL b hbL
  · exact h.rest b hb hbL

theorem Home.ne {x b : Nat} (hb : r.Home b) (h : r.start ≤ x) (h' : x < r.start + r.size) :
    b ≠ x := by
  unfold Region.Home at hb
  omega

/-- **Installing a copy.** -/
theorem install (h : Redo r head d L A) {i : Nat} (hi : i < L.length) :
    Redo r head (Function.update d L[i] (d (r.start + 1 + i))) L A := by
  have hroom := h.room
  have hhome := h.homes L[i] (List.getElem_mem hi)
  refine ⟨?_, h.room, h.homes, fun j hj => ?_, fun b hb hbL => ?_⟩
  · rw [Function.update_of_ne (Home.ne hhome le_rfl (by omega)).symm]
    exact h.header
  · rw [Function.update_of_ne (Home.ne hhome (by omega) (by omega)).symm]
    exact h.logged j hj
  · rw [Function.update_of_ne]
    · exact h.rest b hb hbL
    · rintro rfl
      exact hbL (List.getElem_mem hi)

/-- A copy that is installed stays so, and the new one is. -/
theorem install_prefix (h : Redo r head d L A) {i : Nat} (hi : i < L.length)
    (hp : ∀ j (hj : j < L.length), j < i → d L[j] = A L[j]) :
    ∀ j (hj : j < L.length), j < i + 1 →
      Function.update d L[i] (d (r.start + 1 + i)) L[j] = A L[j] := by
  intro j hj hji
  by_cases he : L[j] = L[i]
  · rw [he, Function.update_self]
    exact h.logged i hi
  · rw [Function.update_of_ne he]
    refine hp j hj ?_
    have : j ≠ i := by
      rintro rfl
      exact he rfl
    omega

/-- **Clearing the header** once every copy is installed. -/
theorem clear (h : Redo r head d L A) (hL : ∀ b ∈ L, d b = A b) {v : β} (hv : head v = some []) :
    Redo r head (Function.update d r.start v) [] A := by
  have hroom := h.room
  refine ⟨by rw [Function.update_self]; exact hv, ?_, ?_, ?_, fun b hb _ => ?_⟩
  · exact lt_of_le_of_lt (Nat.zero_le _) hroom
  · intro b hb
    cases hb
  · intro i hi
    cases hi
  · rw [Function.update_of_ne (Home.ne hb le_rfl (by omega))]
    exact h.installed hL hb

/-- Writes into the log, below an empty header. -/
theorem log (h : Redo r head d [] A) {i : Nat} (hi : i + 1 < r.size) (v : β) :
    Redo r head (Function.update d (r.start + 1 + i) v) [] A := by
  refine ⟨?_, h.room, h.homes, fun j hj => absurd hj (Nat.not_lt_zero j), fun b hb _ => ?_⟩
  · rw [Function.update_of_ne (by omega)]
    exact h.header
  · rw [Function.update_of_ne (Home.ne hb (by omega) (by omega))]
    exact h.clean hb

/-- **The commit**: the header names the copies, and the disk stands for the contents
that have them. -/
theorem commit (h : Redo r head d [] A) {v : β} (hv : head v = some L) (hroom : L.length < r.size)
    (hhome : ∀ b ∈ L, r.Home b) (hlog : ∀ i (h : i < L.length), d (r.start + 1 + i) = B L[i])
    (hrest : ∀ b, r.Home b → b ∉ L → A b = B b) :
    Redo r head (Function.update d r.start v) L B := by
  refine ⟨by rw [Function.update_self]; exact hv, hroom, hhome, fun i hi => ?_,
    fun b hb hbL => ?_⟩
  · rw [Function.update_of_ne (by omega)]
    exact hlog i hi
  · rw [Function.update_of_ne (Home.ne hb le_rfl (by omega)), ← hrest b hb hbL]
    exact h.clean hb

end Redo

end Xv6.Lib
