/-
Linked lists and rings of nodes.

`Path here next p l q` is a linked list: `p` points to the first node of `l`, each node to the
one after it, and the last one to `q`. A ring is a path that comes back to its start. The same
definition is a row of things that lie one after the other, when `next` is where a thing ends.

Paths are cut and put together at their nodes (`path_append_cons`), do not see what changes
elsewhere (`Path.congr`), and a ring may be walked from any of its nodes (`Path.rotate`).
`search` follows the pointers to the first node that satisfies a test. In a ring sorted by its
addresses the test `between b` holds of one node only, the last one before `b`, so a search
from any node finds the place of `b` (`Path.search_between`).
-/
import Mathlib

set_option autoImplicit false

namespace Xv6.Lib

variable {α β : Type} {here next next' : β → α} {p q r : α} {x y : β} {l l₁ l₂ : List β}

/-- The nodes `l` from `p` up to, and without, `q`. -/
def Path (here next : β → α) : α → List β → α → Prop
  | p, [], q => p = q
  | p, x :: l, q => here x = p ∧ Path here next (next x) l q

theorem path_append :
    Path here next p (l₁ ++ l₂) q ↔ ∃ r, Path here next p l₁ r ∧ Path here next r l₂ q := by
  induction l₁ generalizing p with
  | nil => exact ⟨fun h => ⟨p, rfl, h⟩, fun ⟨r, hp, h⟩ => (show p = r from hp) ▸ h⟩
  | cons x l ih =>
    constructor
    · rintro ⟨hx, h⟩
      obtain ⟨r, h₁, h₂⟩ := ih.1 h
      exact ⟨r, ⟨hx, h₁⟩, h₂⟩
    · rintro ⟨r, ⟨hx, h₁⟩, h₂⟩
      exact ⟨hx, ih.2 ⟨r, h₁, h₂⟩⟩

/-- A path is cut at a node. -/
theorem path_append_cons :
    Path here next p (l₁ ++ x :: l₂) q ↔
      Path here next p l₁ (here x) ∧ Path here next (next x) l₂ q := by
  rw [path_append]
  constructor
  · rintro ⟨r, h₁, rfl, h₂⟩
    exact ⟨h₁, h₂⟩
  · rintro ⟨h₁, h₂⟩
    exact ⟨here x, h₁, rfl, h₂⟩

/-- What changes elsewhere does not matter. -/
theorem Path.congr (h : Path here next p l q) (hn : ∀ x ∈ l, next' x = next x) :
    Path here next' p l q := by
  induction l generalizing p with
  | nil => exact h
  | cons x l ih =>
    refine ⟨h.1, ?_⟩
    rw [hn x List.mem_cons_self]
    exact ih h.2 fun y hy => hn y (List.mem_cons_of_mem x hy)

/-- Where the first node is, or the end. -/
theorem Path.start (h : Path here next p l q) : (l.head?.map here).getD q = p := by
  cases l with
  | nil => exact h.symm
  | cons x l => exact h.1

/-- A node points to the one after it. -/
theorem Path.next_eq (h : Path here next p (l₁ ++ x :: l₂) q) :
    (l₂.head?.map here).getD q = next x :=
  (path_append_cons.1 h).2.start

/-- **A ring may be walked from any node.** -/
theorem Path.rotate (h : Path here next p (l₁ ++ x :: l₂) p) :
    Path here next (here x) (x :: l₂ ++ l₁) (here x) := by
  obtain ⟨h₁, h₂⟩ := path_append_cons.1 h
  exact path_append.2 ⟨p, ⟨rfl, h₂⟩, h₁⟩

/-- The node after `x` goes. -/
theorem Path.unlink (h : Path here next p (l₁ ++ x :: y :: l₂) q)
    (h₁ : ∀ z ∈ l₁, next' z = next z) (h₂ : ∀ z ∈ l₂, next' z = next z)
    (hx : next' x = next y) : Path here next' p (l₁ ++ x :: l₂) q := by
  obtain ⟨hl, -, hr⟩ := path_append_cons.1 h
  refine path_append_cons.2 ⟨hl.congr h₁, ?_⟩
  rw [hx]
  exact hr.congr h₂

/-! ## Order -/

section Order

variable [LinearOrder α]

/-- Where each node ends after it begins, the nodes lie in order. -/
theorem Path.ordered (h : Path here next p l q) (hn : ∀ x ∈ l, here x ≤ next x) :
    p ≤ q ∧ (∀ x ∈ l, p ≤ here x ∧ next x ≤ q) ∧ l.Pairwise fun x y => next x ≤ here y := by
  induction l generalizing p with
  | nil => exact ⟨le_of_eq h, fun x hx => absurd hx List.not_mem_nil, List.Pairwise.nil⟩
  | cons x l ih =>
    obtain ⟨rfl, h⟩ := h
    have hx := hn x List.mem_cons_self
    obtain ⟨hle, hin, hp⟩ := ih h fun y hy => hn y (List.mem_cons_of_mem x hy)
    refine ⟨hx.trans hle, fun y hy => ?_, List.pairwise_cons.2 ⟨fun y hy => (hin y hy).1, hp⟩⟩
    rcases List.mem_cons.1 hy with rfl | hy
    · exact ⟨le_rfl, hle⟩
    · exact ⟨hx.trans (hin y hy).1, (hin y hy).2⟩

/-- The nodes lie one after the other without a gap: each place is in one of them. -/
theorem Path.cover (h : Path here next p l q) {z : α} (hp : p ≤ z) (hq : z < q) :
    ∃ x ∈ l, here x ≤ z ∧ z < next x := by
  induction l generalizing p with
  | nil => exact absurd (hp.trans_lt hq) (lt_irrefl p ∘ fun hlt => h ▸ hlt)
  | cons x l ih =>
    obtain ⟨rfl, h⟩ := h
    rcases lt_or_ge z (next x) with hz | hz
    · exact ⟨x, List.mem_cons_self, hp, hz⟩
    · obtain ⟨y, hy, hyz⟩ := ih h hz
      exact ⟨y, List.mem_cons_of_mem x hy, hyz⟩

end Order

/-! ## Search -/

/-- The first node from `p` on that satisfies the test. -/
def search (next : α → α) (stop : α → Bool) : Nat → α → Option α
  | 0, _ => none
  | n + 1, p => if stop p then some p else search next stop n (next p)

variable {node : α → α} {stop : α → Bool} {n : Nat}

/-- A search along a path on which one address only satisfies the test. -/
theorem Path.search {c : α} (h : Path here (fun x => node (here x)) p l q)
    (hmem : c ∈ l.map here) (hstop : ∀ x ∈ l, stop (here x) = true ↔ here x = c)
    (hn : l.length ≤ n) : search node stop n p = some c := by
  induction l generalizing p n with
  | nil => exact absurd hmem List.not_mem_nil
  | cons x l ih =>
    obtain ⟨rfl, h⟩ := h
    cases n with
    | zero => exact absurd hn (Nat.not_succ_le_zero _)
    | succ n =>
      rw [Lib.search]
      by_cases hx : here x = c
      · rw [if_pos ((hstop x List.mem_cons_self).2 hx), hx]
      · rw [if_neg (mt (hstop x List.mem_cons_self).1 hx)]
        refine ih h ?_ (fun y hy => hstop y (List.mem_cons_of_mem x hy))
          (Nat.le_of_succ_le_succ hn)
        exact (List.mem_cons.1 hmem).resolve_left fun hc => hx hc.symm

section Between

variable [LinearOrder α] {b : α}

/-- `b` lies between the node `p` and the next one, or past the last one, or before the
first one. -/
def between (next : α → α) (b p : α) : Bool :=
  (decide (p < b) && decide (b < next p)) ||
    (decide (next p ≤ p) && (decide (p < b) || decide (b < next p)))

theorem between_iff : between node b p = true ↔
    (p < b ∧ b < node p) ∨ (node p ≤ p ∧ (p < b ∨ b < node p)) := by
  simp only [between, Bool.or_eq_true, Bool.and_eq_true, decide_eq_true_eq]

/-- The test holds of the last node before `b` only. -/
theorem Path.between_only (h : Path here (fun x => node (here x)) p (l₁ ++ x :: l₂) p)
    (hs : (l₁ ++ x :: l₂).Pairwise fun y z => here y < here z)
    (hl : ∀ y ∈ l₁ ++ [x], here y < b) (hr : ∀ y ∈ l₂, b < here y) :
    ∀ y ∈ l₁ ++ x :: l₂, between node b (here y) = true ↔ here y = here x := by
  -- the ring starts at its lowest node, which is before `b`
  have hp : p < b := by
    rw [← h.start]
    cases l₁ with
    | nil => exact hl x List.mem_cons_self
    | cons y l => exact hl y List.mem_cons_self
  intro y hy
  rw [between_iff]
  rcases List.mem_append.1 hy with hy | hy
  · -- before `x`: the next node is before `b` too
    obtain ⟨s, t, rfl⟩ := List.append_of_mem hy
    rw [List.append_assoc, List.cons_append] at h hs
    have hs' := List.pairwise_cons.1 (List.pairwise_append.1 hs).2.1
    obtain ⟨z, u, htz⟩ : ∃ z u, t ++ x :: l₂ = z :: u := by
      cases t with
      | nil => exact ⟨x, l₂, rfl⟩
      | cons z t => exact ⟨z, t ++ x :: l₂, rfl⟩
    have hz : z ∈ (s ++ y :: t) ++ [x] := by
      cases t with
      | nil => simp_all
      | cons z' t => simp_all
    have hnext : here z = node (here y) := (htz ▸ h).next_eq
    have hyz : here y < here z := hs'.1 z (htz ▸ List.mem_cons_self)
    have hyx : here y < here x := hs'.1 x (List.mem_append_right t List.mem_cons_self)
    rw [← hnext]
    refine iff_of_false ?_ hyx.ne
    rintro (⟨-, hbz⟩ | ⟨hzy, -⟩)
    · exact lt_asymm hbz (hl z hz)
    · exact absurd hyz (not_lt_of_ge hzy)
  rcases List.mem_cons.1 hy with rfl | hy
  · -- the next node is after `b`, or the first one
    refine iff_of_true ?_ rfl
    have hyb : here y < b := hl y (List.mem_append_right l₁ List.mem_cons_self)
    have hnext := h.next_eq
    cases l₂ with
    | nil =>
      have hpy : p ≤ here y := by
        rw [← h.start]
        cases l₁ with
        | nil => exact le_rfl
        | cons z l => exact ((List.pairwise_append.1 hs).2.2 z List.mem_cons_self y
            List.mem_cons_self).le
      exact Or.inr ⟨le_of_eq_of_le hnext.symm hpy, Or.inl hyb⟩
    | cons z l => exact Or.inl ⟨hyb, lt_of_lt_of_eq (hr z List.mem_cons_self) hnext⟩
  · -- after `b`: the next node is further on, or the first one
    have hby := hr y hy
    have hxy : here x < here y :=
      (hl x (List.mem_append_right l₁ List.mem_cons_self)).trans hby
    refine iff_of_false ?_ hxy.ne'
    rintro (⟨hyb, -⟩ | ⟨hny, hyb | hbn⟩)
    · exact lt_asymm hyb hby
    · exact lt_asymm hyb hby
    · obtain ⟨s, t, rfl⟩ := List.append_of_mem hy
      rw [← List.cons_append, ← List.append_assoc] at h hs
      have hnext := h.next_eq
      cases t with
      | nil => exact lt_asymm hp (lt_of_lt_of_eq hbn hnext.symm)
      | cons z t =>
        have hyz : here y < here z :=
          (List.pairwise_cons.1 (List.pairwise_append.1 hs).2.1).1 z List.mem_cons_self
        exact absurd (lt_of_lt_of_eq hyz hnext) (not_lt_of_ge hny)

/-- **The place of an address in a sorted ring** is found from any node. -/
theorem Path.search_between {c : α} (h : Path here (fun x => node (here x)) p (l₁ ++ x :: l₂) p)
    (hs : (l₁ ++ x :: l₂).Pairwise fun y z => here y < here z)
    (hl : ∀ y ∈ l₁ ++ [x], here y < b) (hr : ∀ y ∈ l₂, b < here y)
    (hc : c ∈ (l₁ ++ x :: l₂).map here) (hn : (l₁ ++ x :: l₂).length ≤ n) :
    Lib.search node (between node b) n c = some (here x) := by
  have htest := h.between_only hs hl hr
  obtain ⟨y, hy, rfl⟩ := List.mem_map.1 hc
  have hx : x ∈ l₁ ++ x :: l₂ := List.mem_append_right l₁ List.mem_cons_self
  obtain ⟨s, t, hst⟩ := List.append_of_mem hy
  rw [hst] at h hn hx htest
  have hmem : ∀ z, z ∈ y :: t ++ s ↔ z ∈ s ++ y :: t := fun z =>
    List.perm_append_comm.mem_iff
  refine h.rotate.search (List.mem_map_of_mem ((hmem x).2 hx))
    (fun z hz => htest z ((hmem z).1 hz)) ?_
  rwa [List.length_append, Nat.add_comm, ← List.length_append]

end Between

end Xv6.Lib
