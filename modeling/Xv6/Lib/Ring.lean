/-
A ring buffer with free-running positions.

A buffer of `N` cells is read and written at positions that only grow, in the arithmetic of
`w`-bit words, and position `x` is cell `x % N`. `window N data r n` is what the `n` cells
from position `r` on hold. When `N` divides `2^w` the cells of a window of at most `N`
positions are different, also where the positions wrap around, so a window is a queue: it
grows at its end (`window_put`) and shrinks at its start (`window_take`).
-/
import Mathlib

set_option autoImplicit false

namespace Xv6.Lib

variable {α : Type} {w N : Nat} {data : Nat → α} {r : BitVec w} {m n : Nat}

/-- The cell of position `x`. -/
def cell (N : Nat) (x : BitVec w) : Nat := x.toNat % N

def window (N : Nat) (data : Nat → α) (r : BitVec w) (n : Nat) : List α :=
  (List.range n).map fun i => data (cell N (r + BitVec.ofNat w i))

@[simp] theorem length_window : (window N data r n).length = n := by simp [window]

@[simp] theorem window_zero : window N data r 0 = [] := rfl

theorem window_succ :
    window N data r (n + 1) = window N data r n ++ [data (cell N (r + BitVec.ofNat w n))] := by
  rw [window, List.range_succ, List.map_append]
  rfl

theorem add_ofNat_succ (r : BitVec w) (i : Nat) :
    r + BitVec.ofNat w (i + 1) = r + 1 + BitVec.ofNat w i := by
  rw [Nat.add_comm, BitVec.ofNat_add, ← BitVec.add_assoc]
  rfl

/-- The first cell, and the others. -/
theorem window_cons :
    window N data r (n + 1) = data (cell N r) :: window N data (r + 1) n := by
  rw [window, List.range_succ_eq_map, List.map_cons, List.map_map]
  refine congrArg₂ List.cons ?_ (List.map_congr_left fun i _ => ?_)
  · exact congrArg (fun x => data (cell N x)) (BitVec.add_zero r)
  · exact congrArg (fun x => data (cell N x)) (add_ofNat_succ r i)

/-- Position `i` after `r` is cell `r + i`. -/
theorem cell_add (hN : N ∣ 2 ^ w) (i : Nat) :
    cell N (r + BitVec.ofNat w i) = (r.toNat + i) % N := by
  rw [cell, BitVec.toNat_add, BitVec.toNat_ofNat, Nat.mod_mod_of_dvd _ hN, Nat.add_mod,
    Nat.mod_mod_of_dvd _ hN, ← Nat.add_mod]

/-- The positions of a window have different cells. -/
theorem cell_inj (hN : N ∣ 2 ^ w) {i j : Nat} (hi : i < N) (hj : j < N)
    (h : cell N (r + BitVec.ofNat w i) = cell N (r + BitVec.ofNat w j)) : i = j := by
  rw [cell_add hN, cell_add hN] at h
  have hmod : i % N = j % N := Nat.ModEq.add_left_cancel' r.toNat h
  rwa [Nat.mod_eq_of_lt hi, Nat.mod_eq_of_lt hj] at hmod

/-- A write behind the window leaves it. -/
theorem window_update (hN : N ∣ 2 ^ w) {j : Nat} (hn : n ≤ j) (hj : j < N) (x : α) :
    window N (Function.update data (cell N (r + BitVec.ofNat w j)) x) r n = window N data r n := by
  refine List.map_congr_left fun i hi => ?_
  have hin := List.mem_range.1 hi
  refine Function.update_of_ne (fun h => ?_) _ _
  have := cell_inj hN (hin.trans_le (hn.trans hj.le)) hj h
  omega

/-- **Put** at the end. -/
theorem window_put (hN : N ∣ 2 ^ w) (hn : n < N) (x : α) :
    window N (Function.update data (cell N (r + BitVec.ofNat w n)) x) r (n + 1) =
      window N data r n ++ [x] := by
  rw [window_succ, window_update hN le_rfl hn, Function.update_self]

/-! ## Two positions -/

/-- The length of the window from `r` to `e`. -/
def span (r e : BitVec w) : Nat := (e - r).toNat

theorem add_span (r e : BitVec w) : r + BitVec.ofNat w (span r e) = e := by
  rw [span, BitVec.ofNat_toNat, BitVec.setWidth_eq]
  rw [BitVec.add_comm, BitVec.sub_add_cancel]

theorem span_eq_zero {r e : BitVec w} : span r e = 0 ↔ r = e := by
  constructor
  · intro h
    have := add_span r e
    rw [h] at this
    exact (BitVec.add_zero r).symm.trans this
  · rintro rfl
    simp [span]

/-- The end moves one on. -/
theorem span_put {e : BitVec w} (h : span r e + 1 < 2 ^ w) : span r (e + 1) = span r e + 1 := by
  have hsub : e + 1 - r = e - r + 1 := by ring
  have hone : (1 : BitVec w).toNat = 1 % 2 ^ w := BitVec.toNat_ofNat 1 w
  rw [span, hsub, BitVec.toNat_add, hone, Nat.add_mod_mod]
  exact Nat.mod_eq_of_lt h

/-- The start moves one on. -/
theorem span_take {e : BitVec w} (h : r ≠ e) : span (r + 1) e + 1 = span r e := by
  have hadd : e - r = e - (r + 1) + 1 := by ring
  have hlt : span (r + 1) e + 1 < 2 ^ w := by
    by_contra hge
    have hmax := (e - (r + 1)).isLt
    have hone : (1 : BitVec w).toNat = 1 % 2 ^ w := BitVec.toNat_ofNat 1 w
    have hzero : span r e = 0 := by
      rw [span, hadd, BitVec.toNat_add, hone, Nat.add_mod_mod]
      have : (e - (r + 1)).toNat + 1 = 2 ^ w := by
        simp only [span] at hge
        omega
      rw [this, Nat.mod_self]
    exact h (span_eq_zero.1 hzero)
  rw [span, span, hadd] at *
  rw [BitVec.toNat_add]
  have hone : (1 : BitVec w).toNat = 1 % 2 ^ w := BitVec.toNat_ofNat 1 w
  rw [hone, Nat.add_mod_mod]
  exact (Nat.mod_eq_of_lt hlt).symm

end Xv6.Lib
