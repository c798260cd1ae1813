/-
The string functions of the user library (`ulib.c`).

A string in memory is the list of the bytes of its buffer that have been written. It ends
at its first zero byte, and the list counts as followed by one.
-/
import Mathlib

set_option autoImplicit false

namespace Xv6.Shell.Ulib

abbrev Byte := BitVec 8

/-- What the reads of one byte from a file give: the byte, or `none` at an end of file. A
read of the console waits when there is nothing left. -/
abbrev Input := List (Option Byte)

/-- The characters of the string that starts a buffer. -/
def cstr (s : List Byte) : List Byte := s.takeWhile (fun c => decide (c ≠ 0))

/-! ## The code -/

def strcmp : List Byte → List Byte → Int
  | [], q => (0 : Byte).toNat - (q.headD 0).toNat
  | c :: p, q =>
    if c ≠ 0 ∧ c = q.headD 0 then strcmp p q.tail
    else c.toNat - (q.headD 0).toNat

def strlen : List Byte → Nat
  | [] => 0
  | c :: s => if c ≠ 0 then strlen s + 1 else 0

/-- The loop of `gets`, with room for `n` more bytes: what it puts into the buffer, and the
input it leaves; `none` while it waits for input. -/
def getsLoop : Nat → Input → Option (List Byte × Input)
  | 0, inp => some ([], inp)
  | _ + 1, [] => none
  | _ + 1, none :: inp => some ([], inp)
  | n + 1, some c :: inp =>
    if c = 10 ∨ c = 13 then some ([c], inp)
    else (getsLoop n inp).map fun r => (c :: r.1, r.2)

/-- `gets` for a buffer of `max` bytes; one of them is for the terminator. -/
def gets (max : Nat) (inp : Input) : Option (List Byte × Input) := getsLoop (max - 1) inp

def atoiLoop : BitVec 32 → List Byte → BitVec 32
  | n, [] => n
  | n, c :: s =>
    if 48 ≤ c.toNat ∧ c.toNat ≤ 57 then atoiLoop (n * 10 + c.setWidth 32 - 48) s else n

def atoi (s : List Byte) : BitVec 32 := atoiLoop 0 s

/-! ## Strings -/

@[simp] theorem cstr_nil : cstr [] = [] := rfl

@[simp] theorem cstr_cons (c : Byte) (s : List Byte) :
    cstr (c :: s) = if c = 0 then [] else c :: cstr s := by
  unfold cstr
  rw [List.takeWhile_cons]
  by_cases h : c = 0
  · rw [if_pos h, if_neg (fun hd => absurd h (of_decide_eq_true hd))]
  · rw [if_neg h, if_pos (decide_eq_true h)]

theorem cstr_eq_nil (s : List Byte) : cstr s = [] ↔ s.headD 0 = 0 := by
  cases s with
  | nil => exact iff_of_true rfl rfl
  | cons c s =>
    rw [cstr_cons, List.headD_cons]
    by_cases h : c = 0
    · rw [if_pos h]
      exact iff_of_true rfl h
    · rw [if_neg h]
      exact iff_of_false (List.cons_ne_nil c _) h

/-- A string without a zero byte, and whatever follows its terminator. -/
theorem cstr_append (t : List Byte) : ∀ {s : List Byte}, 0 ∉ s → cstr (s ++ 0 :: t) = s := by
  intro s
  induction s with
  | nil => intro _; simp
  | cons c s ih =>
    intro h
    have hc : c ≠ 0 := fun hc => h (hc ▸ List.mem_cons_self)
    rw [List.cons_append, cstr_cons, if_neg hc, ih (fun hs => h (List.mem_cons_of_mem _ hs))]

theorem cstr_eq_self {s : List Byte} (h : 0 ∉ s) : cstr s = s := by
  refine List.takeWhile_eq_self_iff.2 fun c hc => ?_
  exact decide_eq_true fun h0 => h (h0 ▸ hc)

theorem strlen_eq (s : List Byte) : strlen s = (cstr s).length := by
  induction s with
  | nil => rfl
  | cons c s ih =>
    rw [strlen, cstr_cons]
    by_cases h : c = 0
    · rw [if_neg (not_not.2 h), if_pos h, List.length_nil]
    · rw [if_pos h, if_neg h, ih, List.length_cons]

theorem sub_toNat_eq_zero (a b : Byte) : (a.toNat : Int) - b.toNat = 0 ↔ a = b := by
  rw [sub_eq_zero, Nat.cast_inj, BitVec.toNat_inj]

/-- `strcmp` finds no difference exactly between equal strings. -/
theorem strcmp_eq_zero (p : List Byte) : ∀ q : List Byte, strcmp p q = 0 ↔ cstr p = cstr q := by
  induction p with
  | nil =>
    intro q
    rw [strcmp, sub_toNat_eq_zero, cstr_nil, eq_comm, ← cstr_eq_nil, eq_comm]
  | cons a p ih =>
    intro q
    rw [strcmp, cstr_cons]
    by_cases ha : a = 0
    · rw [if_neg (fun h => h.1 ha), sub_toNat_eq_zero, if_pos ha, ha, eq_comm, ← cstr_eq_nil,
        eq_comm]
    · rw [if_neg ha]
      cases q with
      | nil =>
        rw [if_neg (fun h => ha h.2), sub_toNat_eq_zero]
        exact iff_of_false ha (List.cons_ne_nil _ _)
      | cons b q =>
        rw [List.headD_cons, List.tail_cons]
        by_cases hab : a = b
        · rw [if_pos ⟨ha, hab⟩, ih, cstr_cons, if_neg (hab ▸ ha), hab, List.cons.injEq,
            and_iff_right rfl]
        · rw [if_neg (fun h => hab h.2), sub_toNat_eq_zero]
          refine iff_of_false hab fun h => ?_
          rw [cstr_cons] at h
          split at h
          · exact List.cons_ne_nil _ _ h
          · exact hab (List.cons.inj h).1

/-! ## Lines -/

/-- A byte that does not end a line. -/
def Plain (c : Byte) : Prop := c ≠ 10 ∧ c ≠ 13

instance : DecidablePred Plain := fun c => inferInstanceAs (Decidable (c ≠ 10 ∧ c ≠ 13))

/-- A line for which there is room is read whole, with its newline. -/
theorem getsLoop_line (rest : Input) : ∀ {n : Nat} {l : List Byte}, (∀ c ∈ l, Plain c) →
    l.length < n → getsLoop n (l.map some ++ some 10 :: rest) = some (l ++ [10], rest) := by
  intro n l
  induction l generalizing n with
  | nil =>
    intro _ hn
    obtain ⟨n, rfl⟩ : ∃ m, n = m + 1 := ⟨n - 1, by simp at hn; omega⟩
    simp [getsLoop]
  | cons c l ih =>
    intro hl hn
    obtain ⟨n, rfl⟩ : ∃ m, n = m + 1 := ⟨n - 1, by simp at hn; omega⟩
    obtain ⟨h10, h13⟩ := hl c List.mem_cons_self
    rw [List.map_cons, List.cons_append, getsLoop, if_neg (not_or.2 ⟨h10, h13⟩),
      ih (fun d hd => hl d (List.mem_cons_of_mem _ hd)) (by simpa using hn)]
    rfl

/-- Of a longer line the buffer is filled, and the rest stays in the input. -/
theorem getsLoop_long (rest : Input) : ∀ {n : Nat} {l : List Byte}, (∀ c ∈ l, Plain c) →
    n ≤ l.length → getsLoop n (l.map some ++ rest) = some (l.take n, (l.drop n).map some ++ rest) := by
  intro n
  induction n with
  | zero => intro l _ _; simp [getsLoop]
  | succ n ih =>
    intro l hl hn
    cases l with
    | nil => simp at hn
    | cons c l =>
      obtain ⟨h10, h13⟩ := hl c List.mem_cons_self
      rw [List.map_cons, List.cons_append, getsLoop, if_neg (not_or.2 ⟨h10, h13⟩),
        ih (fun d hd => hl d (List.mem_cons_of_mem _ hd)) (by simpa using hn)]
      rfl

end Xv6.Shell.Ulib
