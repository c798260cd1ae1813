/-
A page as a sequence of blocks.

A page of `n * m` cells is stored on a device in `n` blocks of `m` cells.
`chunk` reads one block out of a page, `join` puts the blocks together, and
`setChunk` overwrites one block. The index arithmetic is `finProdFinEquiv`, so
the two directions are inverse by construction and no division appears in a
proof that uses them.

Slots laid out one after the other on the device give every pair (slot, block)
its own block number; that is `blockno_inj`.
-/
import Mathlib

set_option autoImplicit false

namespace Xv6.Lib

variable {n m : Nat} {β : Type}

/-- Block `i` of a page. -/
def chunk (pg : Fin (n * m) → β) (i : Fin n) : Fin m → β :=
  fun j => pg (finProdFinEquiv (i, j))

/-- The page whose blocks are `b`. -/
def join (b : Fin n → Fin m → β) : Fin (n * m) → β :=
  fun o => b (finProdFinEquiv.symm o).1 (finProdFinEquiv.symm o).2

/-- The page with block `i` overwritten. -/
def setChunk (pg : Fin (n * m) → β) (i : Fin n) (b : Fin m → β) : Fin (n * m) → β :=
  fun o => if (finProdFinEquiv.symm o).1 = i then b (finProdFinEquiv.symm o).2 else pg o

@[simp] theorem join_chunk (pg : Fin (n * m) → β) : join (chunk pg) = pg := by
  funext o
  simp only [join, chunk, Prod.mk.eta, Equiv.apply_symm_apply]

@[simp] theorem chunk_join (b : Fin n → Fin m → β) : chunk (join b) = b := by
  funext i j
  simp only [join, chunk, Equiv.symm_apply_apply]

@[simp] theorem chunk_setChunk_self (pg : Fin (n * m) → β) (i : Fin n) (b : Fin m → β) :
    chunk (setChunk pg i b) i = b := by
  funext j
  simp only [chunk, setChunk, Equiv.symm_apply_apply, if_true]

theorem chunk_setChunk_of_ne (pg : Fin (n * m) → β) {i k : Fin n} (b : Fin m → β)
    (h : k ≠ i) : chunk (setChunk pg i b) k = chunk pg k := by
  funext j
  simp only [chunk, setChunk, Equiv.symm_apply_apply, if_neg h]

/-- Two pages with the same blocks are equal. -/
theorem page_ext {p q : Fin (n * m) → β} (h : ∀ i, chunk p i = chunk q i) : p = q := by
  rw [← join_chunk p, ← join_chunk q]
  exact congrArg join (funext h)

/-! ## Block numbers

Slot `k` of an area that starts at block `s` occupies the blocks
`s + k * n, …, s + k * n + n - 1`. -/

/-- A block number determines its slot and its place in the slot. -/
theorem blockno_inj {s k l : Nat} {i j : Fin n} (h : s + k * n + i = s + l * n + j) :
    k = l ∧ i = j := by
  have hk : (k * n + i.val) / n = k := by
    rw [Nat.mul_comm, Nat.mul_add_div (Nat.lt_of_le_of_lt (Nat.zero_le _) i.isLt),
      Nat.div_eq_of_lt i.isLt, Nat.add_zero]
  have hl : (l * n + j.val) / n = l := by
    rw [Nat.mul_comm, Nat.mul_add_div (Nat.lt_of_le_of_lt (Nat.zero_le _) j.isLt),
      Nat.div_eq_of_lt j.isLt, Nat.add_zero]
  have he : k * n + i.val = l * n + j.val := by omega
  have hkl : k = l := by rw [← hk, ← hl, he]
  subst hkl
  exact ⟨rfl, Fin.ext (by omega)⟩

end Xv6.Lib
