/-
`grep` (`grep.c`).

The matcher knows `^`, `.`, `*` and `$`; it tries every way in which a star can be taken. What
a pattern means is a language, so `matchRe` is compared with sets of strings and not with
another matcher. `grep` fills a buffer, prints the lines of it that match, and keeps the part
of a line at its end for the next turn. A file is printed as if it were read at once, if its
lines fit into the buffer.
-/
import Xv6.Mkfs.Image

set_option autoImplicit false

namespace Xv6.User.Grep

open Xv6.Mkfs
open scoped Computability

/-! ## The matcher

The end of a list is the zero byte of a string. -/

def CARET : Byte := 94
def DOLLAR : Byte := 36
def STAR : Byte := 42
def DOT : Byte := 46
def NEWLINE : Byte := 10

/-- `matchstar`, where `here` is `matchhere` with the rest of the pattern. -/
def matchstar (c : Byte) (here : List Byte → Bool) : List Byte → Bool
  | [] => here []
  | t :: text => here (t :: text) || ((t == c || c == DOT) && matchstar c here text)

/-- The last case of `matchhere`: one character, and the rest. -/
def matchone (c : Byte) (here : List Byte → Bool) : List Byte → Bool
  | [] => false
  | t :: text => (c == DOT || c == t) && here text

def matchhere : List Byte → List Byte → Bool
  | [], _ => true
  | [c], text => if c = DOLLAR then text.isEmpty else matchone c (matchhere []) text
  | c :: d :: re, text =>
    if d = STAR then matchstar c (matchhere re) text else matchone c (matchhere (d :: re)) text

/-- The loop of `match`. -/
def matchLoop (re : List Byte) : List Byte → Bool
  | [] => matchhere re []
  | t :: text => matchhere re (t :: text) || matchLoop re text

/-- `match` -/
def matchRe (re text : List Byte) : Bool :=
  match re with
  | [] => matchLoop [] text
  | c :: re => if c = CARET then matchhere re text else matchLoop (c :: re) text

/-! ## `grep` -/

/-- `strchr`: what is before and after the first `c`. -/
def strchr (c : Byte) : List Byte → Option (List Byte × List Byte)
  | [] => none
  | b :: s =>
    if b = 0 then none
    else if b = c then some ([], s)
    else (strchr c s).map fun r => (b :: r.1, r.2)

/-- The inner loop: what it writes, and `p` after it. Each turn takes a byte or more. -/
def lineLoop (re : List Byte) : Nat → List Byte → List Byte × List Byte
  | 0, p => ([], p)
  | n + 1, p =>
    match strchr NEWLINE p with
    | none => ([], p)
    | some (line, p) =>
      let r := lineLoop re n p
      ((if matchRe re line then line ++ [NEWLINE] else []) ++ r.1, r.2)

/-- `sizeof(buf)` -/
def SIZE : Nat := 1024

/-- A turn of the outer loop with `buf`: what it writes, and what it keeps. -/
def turn (re buf : List Byte) : List Byte × List Byte :=
  let r := lineLoop re buf.length buf
  (r.1, if r.2.length = buf.length then [] else r.2)

/-- The outer loop. `ns` are the bytes that each `read` has at hand, `m` is what is kept, `inp`
what is left to read. -/
def grepLoop (re : List Byte) : List Nat → List Byte → List Byte → List Byte
  | [], _, _ => []
  | n :: ns, m, inp =>
    let chunk := inp.take (min n (SIZE - m.length - 1))
    if chunk = [] then []
    else
      let r := turn re (m ++ chunk)
      r.1 ++ grepLoop re ns r.2 (inp.drop chunk.length)

def grep (re : List Byte) (ns : List Nat) (inp : List Byte) : List Byte := grepLoop re ns [] inp

/-! ## Meaning of a pattern -/

/-- A character of a pattern, or one with a star. -/
inductive Item where
  | one (c : Byte)
  | many (c : Byte)

/-- The strings of one character that `c` stands for. -/
def atom (c : Byte) : Language Byte := {s | ∃ t, s = [t] ∧ (c = DOT ∨ c = t)}

def Item.lang : Item → Language Byte
  | .one c => atom c
  | .many c => (atom c)∗

/-- The items of a pattern, and whether `$` ends it. -/
def body : List Byte → List Item × Bool
  | [] => ([], false)
  | [c] => if c = DOLLAR then ([], true) else ([.one c], false)
  | c :: d :: re =>
    if d = STAR then (.many c :: (body re).1, (body re).2)
    else (.one c :: (body (d :: re)).1, (body (d :: re)).2)

/-- A part of the text, after `a` and before `b`, is a string of the items. -/
def Found (p : List Item × Bool) (a text : List Byte) : Prop :=
  ∃ m b, text = a ++ (m ++ b) ∧ m ∈ (p.1.map Item.lang).prod ∧ (p.2 = true → b = [])

/-- **What a pattern means.** -/
def Means (re text : List Byte) : Prop :=
  (∃ re', re = CARET :: re' ∧ Found (body re') [] text) ∨
    re.head? ≠ some CARET ∧ ∃ a, Found (body re) a text

variable {c t : Byte} {re text m s : List Byte} {here : List Byte → Bool}

theorem cons_mem_star : t :: m ∈ (atom c)∗ ↔ (c = DOT ∨ c = t) ∧ m ∈ (atom c)∗ := by
  constructor
  · intro h
    rw [← Language.one_add_self_mul_kstar_eq_kstar] at h
    rcases h with h | h
    · exact absurd h (List.cons_ne_nil t m)
    · obtain ⟨a, ⟨t', rfl, ht⟩, b, hb, hab⟩ := Language.mem_mul.1 h
      obtain ⟨rfl, rfl⟩ := List.cons.inj hab
      exact ⟨ht, hb⟩
  · rintro ⟨ht, hm⟩
    rw [← Language.one_add_self_mul_kstar_eq_kstar]
    exact Or.inr (Language.mem_mul.2 ⟨[t], ⟨t, rfl, ht⟩, m, hm, rfl⟩)

/-- **`matchstar`** finds every way to take the star. -/
theorem matchstar_iff : matchstar c here text = true ↔
    ∃ m b, text = m ++ b ∧ m ∈ (atom c)∗ ∧ here b = true := by
  induction text with
  | nil =>
    constructor
    · intro h
      exact ⟨[], [], rfl, Language.nil_mem_kstar _, h⟩
    · rintro ⟨m, b, hmb, -, hb⟩
      obtain ⟨-, rfl⟩ := List.append_eq_nil_iff.1 hmb.symm
      exact hb
  | cons t text ih =>
    have heq : ((t == c || c == DOT) = true) ↔ (c = DOT ∨ c = t) := by
      rw [Bool.or_eq_true, beq_iff_eq, beq_iff_eq, or_comm, eq_comm (a := t)]
    rw [matchstar, Bool.or_eq_true, Bool.and_eq_true, heq, ih]
    constructor
    · rintro (h | ⟨ht, m, b, rfl, hm, hb⟩)
      · exact ⟨[], t :: text, rfl, Language.nil_mem_kstar _, h⟩
      · exact ⟨t :: m, b, rfl, cons_mem_star.2 ⟨ht, hm⟩, hb⟩
    · rintro ⟨m, b, hmb, hm, hb⟩
      cases m with
      | nil => exact Or.inl (hmb ▸ hb)
      | cons t' m =>
        obtain ⟨rfl, rfl⟩ := List.cons.inj hmb
        obtain ⟨ht, hm⟩ := cons_mem_star.1 hm
        exact Or.inr ⟨ht, m, b, rfl, hm, hb⟩

theorem matchone_iff : matchone c here text = true ↔
    ∃ m b, text = m ++ b ∧ m ∈ atom c ∧ here b = true := by
  cases text with
  | nil =>
    refine iff_of_false Bool.false_ne_true ?_
    rintro ⟨m, b, hmb, ⟨t, rfl, -⟩, -⟩
    exact List.cons_ne_nil _ _ hmb.symm
  | cons t text =>
    rw [matchone, Bool.and_eq_true, Bool.or_eq_true, beq_iff_eq, beq_iff_eq]
    constructor
    · rintro ⟨ht, hb⟩
      exact ⟨[t], text, rfl, ⟨t, rfl, ht⟩, hb⟩
    · rintro ⟨m, b, hmb, ⟨t', rfl, ht⟩, hb⟩
      obtain ⟨rfl, rfl⟩ := List.cons.inj hmb
      exact ⟨ht, hb⟩

/-- An item, and the items after it. -/
theorem found_cons {i : Item} {is : List Item} {e : Bool} :
    Found (i :: is, e) [] text ↔
      ∃ m b, text = m ++ b ∧ m ∈ i.lang ∧ Found (is, e) [] b := by
  constructor
  · rintro ⟨m, b, rfl, hm, hb⟩
    rw [List.map_cons, List.prod_cons] at hm
    obtain ⟨m₁, h₁, m₂, h₂, rfl⟩ := Language.mem_mul.1 hm
    refine ⟨m₁, m₂ ++ b, ?_, h₁, m₂, b, rfl, h₂, hb⟩
    rw [List.nil_append, List.append_assoc]
  · rintro ⟨m₁, b₁, rfl, h₁, m₂, b, rfl, h₂, hb⟩
    refine ⟨m₁ ++ m₂, b, ?_, ?_, hb⟩
    · rw [List.nil_append, List.nil_append, List.append_assoc]
    · rw [List.map_cons, List.prod_cons]
      exact Language.mem_mul.2 ⟨m₁, h₁, m₂, h₂, rfl⟩

/-- No items. -/
theorem found_nil {e : Bool} : Found ([], e) [] text ↔ (e = true → text = []) := by
  constructor
  · rintro ⟨m, b, rfl, hm, hb⟩ he
    obtain rfl : m = [] := hm
    exact hb he
  · intro h
    exact ⟨[], text, rfl, rfl, h⟩

/-- **`matchhere`** is right at the beginning of the text. -/
theorem matchhere_iff (re : List Byte) : ∀ text,
    matchhere re text = true ↔ Found (body re) [] text := by
  induction re using body.induct with
  | case1 =>
    intro text
    exact iff_of_true rfl (found_nil.2 fun h => absurd h Bool.false_ne_true)
  | case2 =>
    intro text
    rw [matchhere, if_pos rfl, body, if_pos rfl, found_nil, List.isEmpty_iff]
    exact ⟨fun h _ => h, fun h => h rfl⟩
  | case3 c hc =>
    intro text
    rw [matchhere, if_neg hc, body, if_neg hc, found_cons, matchone_iff]
    refine exists_congr fun m => exists_congr fun b => and_congr_right fun _ =>
      and_congr_right fun _ => ?_
    exact iff_of_true rfl (found_nil.2 fun h => absurd h Bool.false_ne_true)
  | case4 c re ih =>
    intro text
    rw [matchhere, if_pos rfl, body, if_pos rfl, found_cons, matchstar_iff]
    exact exists_congr fun m => exists_congr fun b => and_congr_right fun _ =>
      and_congr_right fun _ => ih b
  | case5 c d re hd ih =>
    intro text
    rw [matchhere, if_neg hd, body, if_neg hd, found_cons, matchone_iff]
    exact exists_congr fun m => exists_congr fun b => and_congr_right fun _ =>
      and_congr_right fun _ => ih b

theorem matchLoop_iff : matchLoop re text = true ↔ ∃ a, Found (body re) a text := by
  induction text with
  | nil =>
    rw [matchLoop, matchhere_iff]
    constructor
    · exact fun h => ⟨[], h⟩
    · rintro ⟨a, m, b, h, hm⟩
      obtain ⟨rfl, h'⟩ := List.append_eq_nil_iff.1 h.symm
      exact ⟨m, b, h, hm⟩
  | cons t text ih =>
    rw [matchLoop, Bool.or_eq_true, matchhere_iff, ih]
    constructor
    · rintro (h | ⟨a, m, b, rfl, h⟩)
      · exact ⟨[], h⟩
      · exact ⟨t :: a, m, b, rfl, h⟩
    · rintro ⟨a, m, b, hab, h⟩
      cases a with
      | nil => exact Or.inl ⟨m, b, hab, h⟩
      | cons t' a =>
        obtain ⟨rfl, rfl⟩ := List.cons.inj hab
        exact Or.inr ⟨a, m, b, rfl, h⟩

/-- **The matcher is right:** it accepts a text exactly when the pattern means it. -/
theorem match_iff (re text : List Byte) : matchRe re text = true ↔ Means re text := by
  unfold Means
  cases re with
  | nil =>
    have hno : ¬∃ re', [] = CARET :: re' ∧ Found (body re') [] text := by
      rintro ⟨re', h, -⟩
      exact List.cons_ne_nil _ _ h.symm
    rw [matchRe, matchLoop_iff, or_iff_right hno]
    exact (and_iff_right (fun h => Option.some_ne_none _ h.symm)).symm
  | cons c re =>
    rw [matchRe]
    by_cases hc : c = CARET
    · rw [if_pos hc, matchhere_iff, hc]
      constructor
      · exact fun h => Or.inl ⟨re, rfl, h⟩
      · rintro (⟨re', he, h⟩ | ⟨hne, -⟩)
        · exact (List.cons.inj he).2 ▸ h
        · exact absurd rfl hne
    · have hno : ¬∃ re', c :: re = CARET :: re' ∧ Found (body re') [] text := by
        rintro ⟨re', h, -⟩
        exact hc (List.cons.inj h).1
      rw [if_neg hc, matchLoop_iff, or_iff_right hno]
      exact (and_iff_right (fun h => hc (Option.some.inj h))).symm

/-! ## Lines -/

/-- No newline, and no zero byte. -/
def IsLine (l : List Byte) : Prop := NEWLINE ∉ l ∧ 0 ∉ l

instance (l : List Byte) : Decidable (IsLine l) := inferInstanceAs (Decidable (_ ∧ _))

/-- Lines, each with its newline. -/
def ended (ls : List (List Byte)) : List Byte := ls.flatMap fun l => l ++ [NEWLINE]

variable {l r rest buf inp : List Byte} {ls : List (List Byte)} {n : Nat} {ns : List Nat}

theorem ended_cons : ended (l :: ls) = l ++ NEWLINE :: ended ls := by
  rw [ended, List.flatMap_cons, List.append_assoc]
  rfl

theorem ended_append (ls ls' : List (List Byte)) : ended (ls ++ ls') = ended ls ++ ended ls' :=
  List.flatMap_append

theorem length_le_ended (ls : List (List Byte)) : ls.length ≤ (ended ls).length := by
  induction ls with
  | nil => exact Nat.zero_le _
  | cons l ls ih =>
    rw [ended_cons, List.length_append, List.length_cons, List.length_cons]
    omega

theorem strchr_line (hl : IsLine l) : strchr NEWLINE (l ++ NEWLINE :: s) = some (l, s) := by
  induction l with
  | nil => rfl
  | cons b l ih =>
    obtain ⟨hnl, hz⟩ := hl
    have hb0 : b ≠ 0 := fun h => hz (h ▸ List.mem_cons_self)
    have hbn : b ≠ NEWLINE := fun h => hnl (h ▸ List.mem_cons_self)
    rw [List.cons_append, strchr, if_neg hb0, if_neg hbn,
      ih ⟨fun h => hnl (List.mem_cons_of_mem b h), fun h => hz (List.mem_cons_of_mem b h)⟩]
    rfl

theorem strchr_none (h : NEWLINE ∉ s) : strchr NEWLINE s = none := by
  induction s with
  | nil => rfl
  | cons b s ih =>
    rw [strchr]
    by_cases hb : b = 0
    · exact if_pos hb
    · have hbn : b ≠ NEWLINE := fun he => h (he ▸ List.mem_cons_self)
      rw [if_neg hb, if_neg hbn, ih fun hs => h (List.mem_cons_of_mem b hs)]
      rfl

/-- **The inner loop** writes the lines that match and stops at the part of a line at the end. -/
theorem lineLoop_spec (hr : NEWLINE ∉ r) : ∀ {n : Nat} {ls : List (List Byte)},
    (∀ l ∈ ls, IsLine l) → ls.length ≤ n →
    lineLoop re n (ended ls ++ r) = (ended (ls.filter fun l => matchRe re l), r) := by
  intro n
  induction n with
  | zero =>
    intro ls hls hn
    obtain rfl := List.length_eq_zero_iff.1 (Nat.le_zero.1 hn)
    rfl
  | succ n ih =>
    intro ls hls hn
    rw [lineLoop]
    cases ls with
    | nil =>
      rw [show ended [] ++ r = r from rfl, strchr_none hr]
      rfl
    | cons l ls =>
      have hl := hls l List.mem_cons_self
      rw [ended_cons, List.append_assoc, List.cons_append, strchr_line hl]
      dsimp only
      rw [ih (fun l' h => hls l' (List.mem_cons_of_mem l h)) (Nat.le_of_succ_le_succ hn)]
      by_cases hm : matchRe re l = true
      · rw [if_pos hm, List.filter_cons_of_pos hm, ended_cons, List.append_assoc]
        rfl
      · rw [if_neg hm, List.filter_cons_of_neg hm]
        rfl

/-- What has been read of a file ends within a line, or after one. -/
theorem cut_lines (hr : NEWLINE ∉ rest) : ∀ {ls : List (List Byte)} {buf : List Byte},
    (∀ l ∈ ls, IsLine l) → buf ++ inp = ended ls ++ rest →
    ∃ ls₁ ls₂ r, ls = ls₁ ++ ls₂ ∧ buf = ended ls₁ ++ r ∧ NEWLINE ∉ r ∧
      r ++ inp = ended ls₂ ++ rest := by
  intro ls
  induction ls with
  | nil =>
    intro buf hls h
    refine ⟨[], [], buf, rfl, rfl, fun hb => hr ?_, h⟩
    rw [show rest = buf ++ inp from h.symm]
    exact List.mem_append_left inp hb
  | cons l ls ih =>
    intro buf hls h
    have hl := hls l List.mem_cons_self
    have h' := h
    rw [ended_cons, ← List.singleton_append, ← List.append_assoc, List.append_assoc] at h'
    rcases List.append_eq_append_iff.1 h' with ⟨a, ha, hi⟩ | ⟨a, ha, hi⟩
    · -- within the first line, or at its end
      rcases List.eq_nil_or_concat a with rfl | ⟨a, x, rfl⟩
      · rw [List.append_nil] at ha
        refine ⟨[l], ls, [], rfl, ?_, List.not_mem_nil, hi⟩
        rw [← ha, ended_cons, List.append_nil]
        rfl
      · rw [List.concat_eq_append, ← List.append_assoc] at ha
        obtain ⟨hla, -⟩ := List.append_inj' ha rfl
        exact ⟨[], l :: ls, buf, rfl, rfl, fun hb => hl.1 (hla ▸ List.mem_append_left a hb), h⟩
    · obtain ⟨ls₁, ls₂, r, rfl, hb, hnl, hrest⟩ :=
        ih (fun l' h => hls l' (List.mem_cons_of_mem l h)) hi.symm
      refine ⟨l :: ls₁, ls₂, r, rfl, ?_, hnl, hrest⟩
      rw [ha, hb, ended_cons, List.append_assoc, List.append_assoc]
      rfl

/-- What has no newline ends within the first line. -/
theorem no_newline (h : r ++ inp = l ++ NEWLINE :: s) (hr : NEWLINE ∉ r) :
    r.length ≤ l.length ∧ inp ≠ [] := by
  rcases List.append_eq_append_iff.1 h with ⟨a, rfl, ha⟩ | ⟨a, rfl, ha⟩
  · refine ⟨?_, fun hi => ?_⟩
    · rw [List.length_append]
      exact Nat.le_add_right _ _
    · rw [hi] at ha
      exact List.cons_ne_nil _ _ (List.append_eq_nil_iff.1 ha.symm).2
  · cases a with
    | nil =>
      refine ⟨(congrArg List.length (List.append_nil l)).le, fun hi => ?_⟩
      rw [hi] at ha
      exact List.cons_ne_nil _ _ ha
    | cons b a =>
      obtain ⟨rfl, -⟩ := List.cons.inj ha
      exact absurd (List.mem_append_right l List.mem_cons_self) hr

/-- A turn prints the lines of the buffer that match and keeps what comes after them, or nothing
if there is no line. -/
theorem turn_spec (hls : ∀ l ∈ ls, IsLine l) (hr : NEWLINE ∉ r) :
    turn re (ended ls ++ r) =
      (ended (ls.filter fun l => matchRe re l), if ls = [] then [] else r) := by
  have hle := length_le_ended ls
  have hlen : (ended ls ++ r).length = (ended ls).length + r.length := List.length_append
  rw [turn, lineLoop_spec hr hls (by omega)]
  dsimp only
  refine congrArg _ ?_
  by_cases hnil : ls = []
  · rw [if_pos hnil, if_pos]
    rw [hnil]
    rfl
  · have := List.length_pos_iff.2 hnil
    rw [if_neg hnil, if_neg (by omega)]

/-- A turn in which `read` fills the buffer, or comes to the end of the file. -/
theorem grepLoop_cons (re : List Byte) (ns : List Nat) {n : Nat} (hn : SIZE - 1 ≤ n)
    (m inp : List Byte) :
    ∃ chunk inp', inp = chunk ++ inp' ∧ chunk.length = min (SIZE - m.length - 1) inp.length ∧
      grepLoop re (n :: ns) m inp = if chunk = [] then [] else
        (turn re (m ++ chunk)).1 ++ grepLoop re ns (turn re (m ++ chunk)).2 inp' := by
  have hmin : min n (SIZE - m.length - 1) = SIZE - m.length - 1 :=
    min_eq_right (le_trans (by omega) hn)
  refine ⟨inp.take (SIZE - m.length - 1), inp.drop (inp.take (SIZE - m.length - 1)).length, ?_,
    List.length_take, ?_⟩
  · exact (List.prefix_iff_eq_append.1 (List.take_prefix _ inp)).symm
  · rw [grepLoop, hmin]

/-- **The outer loop** on a file whose lines fit into the buffer. -/
theorem grepLoop_spec (hns : ∀ n ∈ ns, SIZE - 1 ≤ n) : ∀ {m inp rest : List Byte}
    {ls : List (List Byte)}, (∀ l ∈ ls, IsLine l ∧ l.length + 1 < SIZE) → NEWLINE ∉ rest →
    m.length + 1 < SIZE → NEWLINE ∉ m → inp.length < ns.length →
    m ++ inp = ended ls ++ rest →
    grepLoop re ns m inp = ended (ls.filter fun l => matchRe re l) := by
  induction ns with
  | nil =>
    intro m inp rest ls hls hr hm hnl hlen
    exact absurd hlen (Nat.not_lt_zero _)
  | cons n ns ih =>
    intro m inp rest ls hls hr hm hnl hlen h
    have hns' : ∀ n ∈ ns, SIZE - 1 ≤ n := fun n hn => hns n (List.mem_cons_of_mem _ hn)
    obtain ⟨chunk, inp', rfl, hcl, hloop⟩ :=
      grepLoop_cons re ns (hns n List.mem_cons_self) m inp
    rw [hloop]
    rw [List.length_append] at hcl hlen
    rw [List.length_cons] at hlen
    by_cases hc : chunk = []
    · -- the end of the file: what is kept has no newline
      have hnil : inp' = [] := by
        rw [← List.length_eq_zero_iff]
        rw [hc, List.length_nil] at hcl
        omega
      rw [if_pos hc]
      rw [hc, hnil, List.append_nil, List.append_nil] at h
      cases ls with
      | nil => rfl
      | cons l ls =>
        refine absurd (h ▸ ?_) hnl
        rw [ended_cons]
        simp
    rw [if_neg hc]
    have hpos : 0 < chunk.length := List.length_pos_iff.2 hc
    rw [← List.append_assoc] at h
    obtain ⟨ls₁, ls₂, r, rfl, hb, hnlr, hrest⟩ := cut_lines hr (fun l hl => (hls l hl).1) h
    have hls₁ : ∀ l ∈ ls₁, IsLine l := fun l hl => (hls l (List.mem_append_left _ hl)).1
    have hls₂ := fun l hl => hls l (List.mem_append_right ls₁ hl)
    have hblen := congrArg List.length hb
    rw [List.length_append, List.length_append] at hblen
    rw [hb, turn_spec hls₁ hnlr, List.filter_append, ended_append]
    refine congrArg _ ?_
    dsimp only
    by_cases hfirst : ls₁ = []
    · -- no newline in the buffer: only after the last line
      rw [if_pos hfirst]
      rw [hfirst] at hblen
      replace hblen : m.length + chunk.length = r.length := hblen.trans (Nat.zero_add _)
      cases ls₂ with
      | nil =>
        have hr' : rest = r ++ inp' := hrest.symm
        refine @ih hns' [] inp' inp' [] (fun l hl => absurd hl List.not_mem_nil) (fun hi => ?_)
          (by decide) List.not_mem_nil (by omega) rfl
        exact hr (hr' ▸ List.mem_append_right r hi)
      | cons l ls₂ =>
        have hl := (hls₂ l List.mem_cons_self).2
        rw [ended_cons, List.append_assoc] at hrest
        obtain ⟨hrl, hne⟩ := no_newline hrest hnlr
        have := List.length_pos_iff.2 hne
        omega
    · have hone := List.length_pos_iff.2 hfirst
      have hle := length_le_ended ls₁
      rw [if_neg hfirst]
      exact ih hns' hls₂ hr (by omega) hnlr (by omega) hrest

/-- **`grep` on a file** whose lines fit into the buffer, where each `read` fills it while there is
something to read, writes the lines that match. What follows the last newline it never writes. -/
theorem grep_lines (re rest : List Byte) (ls : List (List Byte)) (ns : List Nat)
    (hls : ∀ l ∈ ls, IsLine l ∧ l.length + 1 < SIZE) (hr : NEWLINE ∉ rest)
    (hns : ∀ n ∈ ns, SIZE - 1 ≤ n) (hlen : (ended ls ++ rest).length < ns.length) :
    grep re ns (ended ls ++ rest) = ended (ls.filter fun l => matchRe re l) :=
  grepLoop_spec hns hls hr (by decide) List.not_mem_nil hlen rfl

/-- Three lines of 501, 500 and 501 bytes: the first `read` ends inside the third one. -/
def longLines : List (List Byte) :=
  [List.replicate 500 98 ++ [97], List.replicate 500 98, List.replicate 500 98 ++ [97]]

theorem grep_lines_cut : NEWLINE ∉ ((ended longLines).drop (SIZE - 2)).take 2 ∧
    grep [97, DOLLAR] (List.replicate 1600 2000) (ended longLines ++ [97]) =
      ended (longLines.filter fun l => matchRe [97, DOLLAR] l) := by
  refine ⟨by decide +kernel, grep_lines _ _ _ _ (by decide +kernel) (by decide) (fun n hn => ?_)
    (by decide +kernel)⟩
  rw [List.eq_of_mem_replicate hn]
  decide

end Xv6.User.Grep
