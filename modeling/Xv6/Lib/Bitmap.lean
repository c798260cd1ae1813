/-
Bit maps in an array of words.

Bit `i` is bit `i % w` of word `i / w`. Setting and clearing one bit leaves the others.
-/
import Mathlib

set_option autoImplicit false

namespace Xv6.Lib.Bitmap

variable {w : Nat} {a : Nat → BitVec w} {i j : Nat}

def test (a : Nat → BitVec w) (i : Nat) : Bool := (a (i / w)).toNat.testBit (i % w)

/-- `1 << (i % w)`. -/
def mask (w i : Nat) : BitVec w := BitVec.ofNat w (1 <<< (i % w))

/-- `a[i/w] |= 1 << (i % w)`. -/
def set (a : Nat → BitVec w) (i : Nat) : Nat → BitVec w :=
  fun k => if k = i / w then a k ||| mask w i else a k

/-- `a[i/w] &= ~(1 << (i % w))`. -/
def clear (a : Nat → BitVec w) (i : Nat) : Nat → BitVec w :=
  fun k => if k = i / w then a k &&& ~~~mask w i else a k

/-- Bits are told apart by their word and their place in it. -/
theorem eq_iff_div_mod : j = i ↔ j / w = i / w ∧ j % w = i % w := by
  constructor
  · rintro rfl
    exact ⟨rfl, rfl⟩
  · rintro ⟨hd, hm⟩
    rw [← Nat.div_add_mod i w, ← Nat.div_add_mod j w, hd, hm]

theorem getLsbD_mask (hw : 0 < w) (i j : Nat) :
    (mask w i).getLsbD (j % w) = decide (j % w = i % w) := by
  rw [mask, BitVec.getLsbD_ofNat, decide_eq_true (Nat.mod_lt j hw), Bool.true_and,
    Nat.one_shiftLeft, Nat.testBit_two_pow]
  exact decide_eq_decide.2 eq_comm

theorem test_set (hw : 0 < w) : test (set a i) j = (test a j || decide (j = i)) := by
  rw [test, test, set, BitVec.testBit_toNat, BitVec.testBit_toNat]
  by_cases hd : j / w = i / w
  · rw [if_pos hd, BitVec.getLsbD_or, getLsbD_mask hw]
    congr 1
    exact decide_eq_decide.2 ((and_iff_right hd).symm.trans eq_iff_div_mod.symm)
  · rw [if_neg hd, decide_eq_false fun h => hd (congrArg (· / w) h), Bool.or_false]

theorem test_clear (hw : 0 < w) : test (clear a i) j = (test a j && !decide (j = i)) := by
  rw [test, test, clear, BitVec.testBit_toNat, BitVec.testBit_toNat]
  by_cases hd : j / w = i / w
  · rw [if_pos hd, BitVec.getLsbD_and, BitVec.getLsbD_not, getLsbD_mask hw,
      decide_eq_true (Nat.mod_lt j hw), Bool.true_and]
    congr 2
    exact decide_eq_decide.2 ((and_iff_right hd).symm.trans eq_iff_div_mod.symm)
  · rw [if_neg hd, decide_eq_false fun h => hd (congrArg (· / w) h), Bool.not_false, Bool.and_true]

end Xv6.Lib.Bitmap
