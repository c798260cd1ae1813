/-
Exclusive ownership of a pool of resources.

A pool hands out resources (page frames, disk slots, tokens). At any moment some
are free and the ones in use are held by owners. Owners are named by a type `O`;
`uses o r` says that owner `o` holds `r`. `Own` is the exclusion law: no resource
is held twice and no held resource is free.

Every operation on a pool is one of a few moves, and each keeps the law: forget
owners (`Own.mono`), hand a free resource to an owner (`Own.take`) or one that is
neither free nor owned (`Own.claim`), put an unowned one back (`Own.release`),
pass one from an owner to another (`Own.pass`). The moves are stated by what the new relation may contain, not by an equation
between relations, so a client with a large state only looks at the entries that
changed.
-/
import Mathlib

set_option autoImplicit false

namespace Xv6.Lib

variable {O R : Type} {uses uses' : O → R → Prop} {free free' : R → Prop} {o o' : O} {r : R}

/-- No resource has two owners and no owned resource is free. -/
structure Own (uses : O → R → Prop) (free : R → Prop) : Prop where
  inj : ∀ {o p r}, uses o r → uses p r → o = p
  busy : ∀ {o r}, uses o r → ¬ free r

namespace Own

/-- Forgetting owners and forgetting free resources keeps the law. -/
theorem mono (h : Own uses free) (hu : ∀ x y, uses' x y → uses x y)
    (hf : ∀ y, free' y → free y) : Own uses' free' where
  inj h1 h2 := h.inj (hu _ _ h1) (hu _ _ h2)
  busy h1 h2 := h.busy (hu _ _ h1) (hf _ h2)

/-- Owner `o` takes the free resource `r`. -/
theorem take (h : Own uses free) (hr : free r)
    (hu : ∀ x y, uses' x y → (x = o ∧ y = r) ∨ uses x y)
    (hf : ∀ y, free' y → free y ∧ y ≠ r) : Own uses' free' where
  inj := by
    intro x x' y h1 h2
    rcases hu _ _ h1 with ⟨rfl, rfl⟩ | g1 <;> rcases hu _ _ h2 with ⟨rfl, g2⟩ | g2
    · rfl
    · exact absurd hr (h.busy g2)
    · subst g2; exact absurd hr (h.busy g1)
    · exact h.inj g1 g2
  busy := by
    intro x y h1 h2
    rcases hu _ _ h1 with ⟨-, rfl⟩ | g1
    · exact (hf _ h2).2 rfl
    · exact h.busy g1 (hf _ h2).1

/-- Owner `o` takes a resource that is neither free nor owned. -/
theorem claim (h : Own uses free) (hr : ¬ free r) (hn : ∀ x, ¬ uses x r)
    (hu : ∀ x y, uses' x y → (x = o ∧ y = r) ∨ uses x y) (hf : ∀ y, free' y → free y) :
    Own uses' free' where
  inj := by
    intro x x' y h1 h2
    rcases hu _ _ h1 with ⟨rfl, rfl⟩ | g1 <;> rcases hu _ _ h2 with ⟨rfl, g2⟩ | g2
    · rfl
    · exact absurd g2 (hn _)
    · subst g2; exact absurd g1 (hn _)
    · exact h.inj g1 g2
  busy := by
    intro x y h1 h2
    rcases hu _ _ h1 with ⟨-, rfl⟩ | g1
    · exact hr (hf _ h2)
    · exact h.busy g1 (hf _ h2)

/-- A resource that no owner holds goes back to the pool. -/
theorem release (h : Own uses free) (hr : ∀ x, ¬ uses' x r)
    (hu : ∀ x y, uses' x y → uses x y) (hf : ∀ y, free' y → y = r ∨ free y) :
    Own uses' free' where
  inj h1 h2 := h.inj (hu _ _ h1) (hu _ _ h2)
  busy := by
    intro x y h1 h2
    rcases hf _ h2 with rfl | g2
    · exact hr x h1
    · exact h.busy (hu _ _ h1) g2

/-- Owner `o` gives its resource `r` back to the pool. -/
theorem give (h : Own uses free) (ho : uses o r)
    (hu : ∀ x y, uses' x y → uses x y ∧ x ≠ o) (hf : ∀ y, free' y → y = r ∨ free y) :
    Own uses' free' :=
  h.release (fun x hx => (hu x r hx).2 (h.inj (hu x r hx).1 ho)) (fun x y hx => (hu x y hx).1) hf

/-- Owner `o` passes its resource `r` on to `o'`. -/
theorem pass (h : Own uses free) (ho : uses o r)
    (hu : ∀ x y, uses' x y → (x = o' ∧ y = r) ∨ (uses x y ∧ x ≠ o))
    (hf : ∀ y, free' y → free y) : Own uses' free' where
  inj := by
    intro x x' y h1 h2
    rcases hu _ _ h1 with ⟨rfl, rfl⟩ | ⟨g1, n1⟩ <;> rcases hu _ _ h2 with ⟨rfl, g2⟩ | ⟨g2, n2⟩
    · rfl
    · exact absurd (h.inj g2 ho) n2
    · subst g2; exact absurd (h.inj g1 ho) n1
    · exact h.inj g1 g2
  busy := by
    intro x y h1 h2
    rcases hu _ _ h1 with ⟨-, rfl⟩ | ⟨g1, -⟩
    · exact h.busy ho (hf _ h2)
    · exact h.busy g1 (hf _ h2)

end Own

end Xv6.Lib
