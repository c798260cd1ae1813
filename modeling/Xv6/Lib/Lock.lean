/-
Locks and who is inside.

`Held h f` ties the holder `h` of a lock to a predicate `f` of where the processes are: the
holder is the one that is inside. A step of process `i` passes the lock as `Hand` says, and
keeps the tie (`Held.hand`). `Lock` is a lock that is taken and freed at once: what an
implementation refines.
-/
import Mathlib

set_option autoImplicit false

namespace Xv6.Lib

variable {ι : Type} {h h' : Option ι} {f : ι → Bool} {i j : ι} {b b' : Bool}

/-- Who holds the lock is inside, and nobody else is. -/
def Held (h : Option ι) (f : ι → Bool) : Prop := ∀ i, h = some i ↔ f i = true

namespace Held

theorem unique (hf : Held h f) (hi : f i = true) (hj : f j = true) : i = j :=
  Option.some.inj (((hf i).2 hi).symm.trans ((hf j).2 hj))

/-- Nobody is inside when the lock is free. -/
theorem free (hf : Held none f) (i : ι) : f i = false := by
  by_contra hi
  exact absurd ((hf i).2 (Bool.eq_true_of_not_eq_false hi)) nofun

end Held

/-- How a step of `i` passes the lock: from the holder `h`, with `i` inside or not (`b`), to
`h'` and `b'`. -/
inductive Hand (i : ι) : Option ι → Bool → Option ι → Bool → Prop where
  | keep (h : Option ι) (b : Bool) : Hand i h b h b
  | acquire : Hand i none false (some i) true
  | release (h : Option ι) : Hand i h true none false

theorem Held.hand [DecidableEq ι] (hf : Held h f) (hi : f i = b) (hh : Hand i h b h' b') :
    Held h' (Function.update f i b') := by
  intro j
  rw [Function.update_apply]
  cases hh with
  | keep =>
    split
    case isTrue hji =>
      subst hji
      rw [hf, hi]
    case isFalse => exact hf j
  | acquire =>
    split
    case isTrue hji => simp [hji]
    case isFalse hji =>
      rw [hf.free j]
      simpa using Ne.symm hji
  | release =>
    split
    case isTrue hji => simp
    case isFalse hji =>
      refine ⟨nofun, fun hj => absurd (hf.unique hj hi) hji⟩

/-! ## The lock that is taken at once -/

/-- `i` takes the lock when it is free, or frees it when it has it, or does something else. -/
inductive Lock (i : ι) : Option ι → Option ι → Prop where
  | other (h : Option ι) : Lock i h h
  | acquire : Lock i none (some i)
  | release : Lock i (some i) none

theorem Held.lock (hf : Held h f) (hi : f i = b) (hh : Hand i h b h' b') : Lock i h h' := by
  cases hh with
  | keep => exact .other h
  | acquire => exact .acquire
  | release =>
    obtain rfl := (hf i).2 hi
    exact .release

end Xv6.Lib
