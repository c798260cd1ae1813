/-
What the shell's parser accepts.

`Spells line s ts` says how the line from position `s` on is read as tokens, one character
at a time, and `Syn` is the grammar: its trees are the ways to write a command line with
tokens. `parsecmd` accepts exactly the lines that a tree of the grammar spells, and returns
the command of the tree; it panics on every other line.

The tokens give the recursion its measure: each turn of a loop and each level of the
recursion reads one.
-/
import Xv6.Shell.Parse

set_option autoImplicit false

namespace Xv6.Shell.Parse

open Xv6.Shell.Ulib Xv6.Shell.Chmod

/-- An operator, where `+` is the operator `>>`, or a word by its positions. -/
inductive Tok where
  | op (c : Byte)
  | word (q eq : Nat)
  deriving DecidableEq

/-- From position `s` on the line reads `ts`. -/
inductive Spells (line : List Byte) : Nat → List Tok → Prop where
  | done : Spells line line.length []
  | blank {s : Nat} {ts : List Tok} (hs : s < line.length) (hc : isBlank (char line s) = true)
      (h : Spells line (s + 1) ts) : Spells line s ts
  | op {s : Nat} {ts : List Tok} (hs : s < line.length) (hc : char line s ∈ symbols)
      (hno : char line s = chr '>' → char line (s + 1) ≠ chr '>')
      (h : Spells line (s + 1) ts) : Spells line s (.op (char line s) :: ts)
  | append {s : Nat} {ts : List Tok} (hs : s + 1 < line.length) (hc : char line s = chr '>')
      (hc' : char line (s + 1) = chr '>') (h : Spells line (s + 2) ts) :
      Spells line s (.op (chr '+') :: ts)
  | word {q eq : Nat} {ts : List Tok} (hq : q < eq) (heq : eq ≤ line.length)
      (hw : ∀ i, q ≤ i → i < eq → isWord (char line i) = true)
      (hend : eq < line.length → isWord (char line eq) = false)
      (h : Spells line eq ts) : Spells line q (.word q eq :: ts)

/-! ## The grammar -/

structure Redir where
  tok : Byte
  q : Nat
  eq : Nat

def Redir.toks (r : Redir) : List Tok := [.op r.tok, .word r.q r.eq]

def redirToks (rs : List Redir) : List Tok := rs.flatMap Redir.toks

/-- Redirections around a command, the first one inside. -/
def redirs (cmd : Cmd) (rs : List Redir) : Cmd :=
  rs.foldl (fun cmd r => redircmd cmd r.tok r.q r.eq) cmd

/-- An argument and the redirections after it. -/
structure Arg where
  q : Nat
  eq : Nat
  rs : List Redir

def Arg.toks (a : Arg) : List Tok := .word a.q a.eq :: redirToks a.rs

def args (cmd : Cmd) (as : List Arg) : Cmd :=
  as.foldl (fun cmd a => redirs (cmd.arg a.q a.eq) a.rs) cmd

inductive Level where
  | exec | pipe | line

/-- A command line as it is written. -/
inductive Syn : Level → Type where
  | simple (rs : List Redir) (as : List Arg) : Syn .exec
  | block (l : Syn .line) (rs : List Redir) : Syn .exec
  | one (e : Syn .exec) : Syn .pipe
  | pipe (e : Syn .exec) (p : Syn .pipe) : Syn .pipe
  | stop (p : Syn .pipe) (backs : Nat) : Syn .line
  | seq (p : Syn .pipe) (backs : Nat) (l : Syn .line) : Syn .line

namespace Syn

def toks : {k : Level} → Syn k → List Tok
  | _, simple rs as => redirToks rs ++ as.flatMap Arg.toks
  | _, block l rs => .op (chr '(') :: l.toks ++ .op (chr ')') :: redirToks rs
  | _, one e => e.toks
  | _, pipe e p => e.toks ++ .op (chr '|') :: p.toks
  | _, stop p n => p.toks ++ List.replicate n (Tok.op (chr '&'))
  | _, seq p n l => p.toks ++ List.replicate n (Tok.op (chr '&')) ++ .op (chr ';') :: l.toks

def cmd : {k : Level} → Syn k → Cmd
  | _, simple rs as => args (redirs (.exec []) rs) as
  | _, block l rs => redirs l.cmd rs
  | _, one e => e.cmd
  | _, pipe e p => .pipe e.cmd p.cmd
  | _, stop p n => Cmd.back^[n] p.cmd
  | _, seq p n l => .list (Cmd.back^[n] p.cmd) l.cmd

/-- What the code demands beyond the tokens: the operators of redirections are such, and a
command has fewer than `MAXARGS` arguments. -/
def Fits : {k : Level} → Syn k → Prop
  | _, simple rs as => (∀ r ∈ rs, r.tok ∈ [chr '<', chr '>', chr '+']) ∧
      (∀ a ∈ as, ∀ r ∈ a.rs, r.tok ∈ [chr '<', chr '>', chr '+']) ∧ as.length < MAXARGS
  | _, block l rs => l.Fits ∧ ∀ r ∈ rs, r.tok ∈ [chr '<', chr '>', chr '+']
  | _, one e => e.Fits
  | _, pipe e p => e.Fits ∧ p.Fits
  | _, stop p _ => p.Fits
  | _, seq p _ l => p.Fits ∧ l.Fits

end Syn

/-! ## Scanning -/

section scan

variable {line : List Byte} {s q eq : Nat} {ts rest : List Tok} {p : Byte → Bool}

theorem drop_eq_cons (hs : s < line.length) :
    line.drop s = char line s :: line.drop (s + 1) := by
  rw [char, List.getD_eq_getElem _ _ hs]
  exact List.drop_eq_getElem_cons hs

theorem skip_next (hs : s < line.length) (hp : p (char line s) = true) :
    skip p line s = skip p line (s + 1) := by
  rw [skip, skip, drop_eq_cons hs, List.takeWhile_cons_of_pos hp, List.length_cons]
  omega

theorem skip_here (h : s < line.length → p (char line s) = false) : skip p line s = s := by
  rw [skip]
  by_cases hs : s < line.length
  · rw [drop_eq_cons hs, List.takeWhile_cons_of_neg (by rw [h hs]; decide)]
    rfl
  · rw [List.drop_eq_nil_of_le (by omega)]
    rfl

/-- A run of characters, and its end. -/
theorem skip_run (hq : q ≤ eq) (heq : eq ≤ line.length)
    (hp : ∀ i, q ≤ i → i < eq → p (char line i) = true)
    (hend : eq < line.length → p (char line eq) = false) : skip p line q = eq := by
  obtain ⟨k, rfl⟩ := Nat.exists_eq_add_of_le hq
  induction k generalizing q with
  | zero => exact skip_here hend
  | succ k ih =>
    rw [skip_next (by omega) (hp q le_rfl (by omega))]
    have hadd : q + (k + 1) = q + 1 + k := by omega
    rw [hadd] at heq hend hp ⊢
    exact ih (by omega) heq (fun i hi hi' => hp i (by omega) hi') hend

theorem not_blank_of_symbol {c : Byte} (hc : c ∈ symbols) : isBlank c = false := by
  fin_cases hc <;> rfl

theorem not_blank_of_word {c : Byte} (hc : isWord c = true) : isBlank c = false :=
  strchr_eq_false.2 (isWord_iff.1 hc).1

theorem skip_spec {s : Nat} (hs : s ≤ line.length) :
    s ≤ skip p line s ∧ skip p line s ≤ line.length ∧
      (∀ i, s ≤ i → i < skip p line s → p (char line i) = true) ∧
      (skip p line s < line.length → p (char line (skip p line s)) = false) := by
  by_cases hp : s < line.length ∧ p (char line s) = true
  · obtain ⟨h1, h2, h3, h4⟩ := skip_spec (s := s + 1) hp.1
    rw [skip_next hp.1 hp.2]
    refine ⟨by omega, h2, fun i hi hi' => ?_, h4⟩
    rcases hi.eq_or_lt with rfl | hi
    · exact hp.2
    · exact h3 i hi hi'
  · have hno : s < line.length → p (char line s) = false := fun hs' =>
      Bool.eq_false_of_not_eq_true fun hc => hp ⟨hs', hc⟩
    rw [skip_here hno]
    exact ⟨le_rfl, hs, fun i hi hi' => absurd hi' (by omega), hno⟩
termination_by line.length - s

/-- The token that `ts` starts with is at `q`. -/
inductive View (line : List Byte) (q : Nat) : List Tok → Prop where
  | done (hq : q = line.length) : View line q []
  | op {ts : List Tok} (hs : q < line.length) (hc : char line q ∈ symbols)
      (hno : char line q = chr '>' → char line (q + 1) ≠ chr '>')
      (h : Spells line (q + 1) ts) : View line q (.op (char line q) :: ts)
  | append {ts : List Tok} (hs : q + 1 < line.length) (hc : char line q = chr '>')
      (hc' : char line (q + 1) = chr '>') (h : Spells line (q + 2) ts) :
      View line q (.op (chr '+') :: ts)
  | word {eq : Nat} {ts : List Tok} (hs : q < line.length) (hc : isWord (char line q) = true)
      (hw : skip isWord line q = eq) (h : Spells line eq ts) : View line q (.word q eq :: ts)

theorem Spells.view (h : Spells line s ts) :
    View line (skip isBlank line s) ts ∧ Spells line (skip isBlank line s) ts := by
  induction h with
  | done =>
    rw [skip_here (fun h => absurd h (lt_irrefl _))]
    exact ⟨.done rfl, .done⟩
  | blank hs hc _ ih =>
    rw [skip_next hs hc]
    exact ih
  | op hs hc hno h =>
    rw [skip_here fun _ => not_blank_of_symbol hc]
    exact ⟨.op hs hc hno h, .op hs hc hno h⟩
  | append hs hc hc' h =>
    rw [skip_here fun _ => by rw [hc]; rfl]
    exact ⟨.append hs hc hc' h, .append hs hc hc' h⟩
  | @word q eq ts hq heq hw hend h =>
    have hc := hw q le_rfl hq
    rw [skip_here fun _ => not_blank_of_word hc]
    exact ⟨.word (by omega) hc (skip_run hq.le heq hw hend) h, .word hq heq hw hend h⟩

theorem lt_of_char {c : Byte} (h : char line s = c) (hc : c ≠ 0) : s < line.length := by
  by_contra hge
  rw [char, List.getD_eq_default _ _ (by omega)] at h
  exact hc h.symm

/-- Every line is read in some way. -/
theorem exists_spells {s : Nat} (hs : s ≤ line.length) : ∃ ts, Spells line s ts := by
  rcases hs.eq_or_lt with rfl | hs
  · exact ⟨[], .done⟩
  by_cases hb : isBlank (char line s) = true
  · obtain ⟨ts, h⟩ := exists_spells (s := s + 1) hs
    exact ⟨ts, .blank hs hb h⟩
  by_cases hsym : char line s ∈ symbols
  · by_cases htwo : char line s = chr '>' ∧ char line (s + 1) = chr '>'
    · have hlt := lt_of_char htwo.2 (by decide)
      obtain ⟨ts, h⟩ := exists_spells (s := s + 2) hlt
      exact ⟨_, .append hlt htwo.1 htwo.2 h⟩
    · obtain ⟨ts, h⟩ := exists_spells (s := s + 1) hs
      exact ⟨_, .op hs hsym (fun h1 h2 => htwo ⟨h1, h2⟩) h⟩
  · have hw : isWord (char line s) = true :=
      isWord_iff.2 ⟨fun hc => hb (strchr_iff.2 hc), hsym⟩
    obtain ⟨h1, h2, h3, h4⟩ := skip_spec (p := isWord) hs.le
    have hlt : s < skip isWord line s := by
      rw [skip_next hs hw]
      exact Nat.lt_of_lt_of_le (Nat.lt_succ_self s) (skip_spec hs).1
    obtain ⟨ts, h⟩ := exists_spells (s := skip isWord line s) h2
    exact ⟨_, .word hlt h2 h3 h4 h⟩
termination_by line.length - s

/-- A token takes at least one character. -/
theorem Spells.length_le (h : Spells line s ts) : s + ts.length ≤ line.length := by
  induction h with
  | done => exact le_rfl
  | blank hs _ _ ih => omega
  | op hs _ _ _ ih =>
    rw [List.length_cons]
    omega
  | append hs _ _ _ ih =>
    rw [List.length_cons]
    omega
  | word hq heq _ _ _ ih =>
    rw [List.length_cons]
    omega

/-! ## `gettoken` and `peek` -/

theorem char_ne_zero (h0 : 0 ∉ line) (hs : s < line.length) : char line s ≠ 0 := by
  intro h
  rw [char, List.getD_eq_getElem _ _ hs] at h
  exact h0 (h ▸ List.getElem_mem hs)

theorem subset_symbols : bytes "|();&<" ⊆ symbols := by decide

theorem gettoken_nil (h : Spells line s []) :
    (gettoken line s).ret = 0 ∧ Spells line (gettoken line s).s [] := by
  obtain ⟨hv, h⟩ := h.view
  cases hv with
  | done hq =>
    have hc : char line (skip isBlank line s) = 0 := by
      rw [char, List.getD_eq_default _ _ hq.ge]
    have hgot : gettoken line s = ⟨0, skip isBlank line s, skip isBlank line s,
        skip isBlank line (skip isBlank line s)⟩ := by simp [gettoken, hc]
    rw [hgot]
    exact ⟨rfl, h.view.2⟩

theorem gettoken_op {c : Byte} (h : Spells line s (.op c :: ts)) :
    (gettoken line s).ret = c ∧ Spells line (gettoken line s).s ts := by
  obtain ⟨hv, -⟩ := h.view
  generalize hq : skip isBlank line s = q at hv
  cases hv with
  | op hs hc hno h =>
    have hgot : gettoken line s = ⟨char line q, q, q + 1, skip isBlank line (q + 1)⟩ := by
      rw [gettoken, hq]
      generalize hc' : char line q = c at hc hno ⊢
      have hzero : c ≠ 0 := by
        rintro rfl
        exact absurd hc (by decide)
      by_cases hgt : c = chr '>'
      · subst hgt
        simp only [if_neg (hno rfl)]
        rfl
      · have hone : strchr (bytes "|();&<") c = true := by
          fin_cases hc <;> first | rfl | exact absurd rfl hgt
        simp only [if_neg hzero, if_pos hone]
    rw [hgot]
    exact ⟨rfl, h.view.2⟩
  | append hs hc hc' h =>
    have hgot : gettoken line s = ⟨chr '+', q, q + 2, skip isBlank line (q + 2)⟩ := by
      rw [gettoken, hq, hc, hc']
      rfl
    rw [hgot]
    exact ⟨rfl, h.view.2⟩

theorem gettoken_word (h0 : 0 ∉ line) (h : Spells line s (.word q eq :: ts)) :
    (gettoken line s).ret = chr 'a' ∧ (gettoken line s).q = q ∧ (gettoken line s).eq = eq ∧
      Spells line (gettoken line s).s ts := by
  obtain ⟨hv, -⟩ := h.view
  generalize hq : skip isBlank line s = q' at hv
  cases hv with
  | word hs hc hw h =>
    have hgot : gettoken line s = ⟨chr 'a', q, eq, skip isBlank line eq⟩ := by
      have hzero : char line q ≠ 0 := char_ne_zero h0 hs
      have hsym : char line q ∉ symbols := (isWord_iff.1 hc).2
      have hone : ¬strchr (bytes "|();&<") (char line q) = true :=
        fun h => hsym (subset_symbols (strchr_iff.1 h))
      have hgt : char line q ≠ chr '>' := fun h => hsym (by rw [h]; decide)
      rw [gettoken, hq]
      simp only [if_neg hzero, if_neg hone, if_neg hgt, hw]
    rw [hgot]
    exact ⟨rfl, rfl, rfl, h.view.2⟩

/-- The operators. -/
theorem Spells.op_mem {c : Byte} (h : Spells line s (.op c :: ts)) : c ∈ chr '+' :: symbols := by
  obtain ⟨hv, -⟩ := h.view
  generalize skip isBlank line s = q at hv
  cases hv with
  | op hs hc => exact List.mem_cons_of_mem _ hc
  | append => exact List.mem_cons_self

/-- `gettoken` returns 0 at the end of the line only. -/
theorem gettoken_zero (h0 : 0 ∉ line) (h : Spells line s ts) (hz : (gettoken line s).ret = 0) :
    ts = [] := by
  match ts, h with
  | [], _ => rfl
  | .word q eq :: ts', h =>
    rw [(gettoken_word h0 h).1] at hz
    exact absurd hz (by decide)
  | .op c :: ts', h =>
    rw [(gettoken_op h).1] at hz
    subst hz
    exact absurd h.op_mem (by decide)

/-- `gettoken` returns `a` for words only. -/
theorem gettoken_a (h : Spells line s ts) (ha : (gettoken line s).ret = chr 'a') :
    ∃ q eq ts', ts = .word q eq :: ts' := by
  match ts, h with
  | [], h =>
    rw [(gettoken_nil h).1] at ha
    exact absurd ha (by decide)
  | .word q eq :: ts', _ => exact ⟨q, eq, ts', rfl⟩
  | .op c :: ts', h =>
    rw [(gettoken_op h).1] at ha
    subst ha
    exact absurd h.op_mem (by decide)

/-- The first character of a token; for a word, one that is no symbol. -/
def Tok.first : Tok → Byte
  | .op c => if c = chr '+' then chr '>' else c
  | .word _ _ => chr 'a'

/-- The next token is one of `toks`. -/
def next (toks : String) (ts : List Tok) : Bool :=
  match ts with
  | [] => false
  | t :: _ => strchr (bytes toks) t.first

theorem peek_spec (toks : String) (hsub : bytes toks ⊆ symbols) (h0 : 0 ∉ line)
    (h : Spells line s ts) :
    ∃ s', peek line toks s = (next toks ts, s') ∧ Spells line s' ts := by
  obtain ⟨hv, h⟩ := h.view
  refine ⟨_, Prod.ext ?_ rfl, h⟩
  show (char line (skip isBlank line s) != 0 &&
    strchr (bytes toks) (char line (skip isBlank line s))) = _
  generalize skip isBlank line s = q at hv
  cases hv with
  | done hq =>
    have hc : char line q = 0 := by rw [char, List.getD_eq_default _ _ hq.ge]
    simp [hc, next]
  | op hs hc hno h =>
    have hfirst : (Tok.op (char line q)).first = char line q := by
      rw [Tok.first, if_neg]
      intro hplus
      rw [hplus] at hc
      exact absurd hc (by decide)
    rw [next, hfirst, bne_iff_ne.2 (char_ne_zero h0 hs), Bool.true_and]
  | append hs hc hc' h =>
    have hfirst : (Tok.op (chr '+')).first = char line q := hc.symm
    rw [next, hfirst, bne_iff_ne.2 (char_ne_zero h0 (by omega)), Bool.true_and]
  | @word eq ts hs hc hw h =>
    have hno : char line q ∉ bytes toks := fun hc' => (isWord_iff.1 hc).2 (hsub hc')
    have ha : chr 'a' ∉ symbols := by decide
    have hno' : (Tok.word q eq).first ∉ bytes toks := fun hc' => ha (hsub hc')
    rw [next, strchr_eq_false.2 hno', strchr_eq_false.2 hno, Bool.and_false]

/-- All of the line is read when no token is left. -/
theorem peek_end (toks : String) (h : Spells line s ts) :
    (peek line toks s).2 = line.length ↔ ts = [] := by
  obtain ⟨hv, -⟩ := h.view
  show skip isBlank line s = _ ↔ _
  generalize skip isBlank line s = q at hv
  cases hv with
  | done hq => exact iff_of_true hq rfl
  | op hs => exact iff_of_false hs.ne (List.cons_ne_nil _ _)
  | append hs => exact iff_of_false (by omega) (List.cons_ne_nil _ _)
  | word hs => exact iff_of_false hs.ne (List.cons_ne_nil _ _)

end scan

/-! ## What the parser returns -/

section sound

variable {line : List Byte} {s n : Nat} {ts : List Tok} {cmd : Cmd}

/-- A function returns a command and what is left of the line, with `P` of the two, or
panics. -/
def Yields (line : List Byte) (r : Except Stop (Cmd × Nat)) (P : Cmd → List Tok → Prop) : Prop :=
  (∃ cmd s rest, r = .ok (cmd, s) ∧ Spells line s rest ∧ P cmd rest) ∨
    ∃ msg, r = .error (.panic msg)

variable {r : Except Stop (Cmd × Nat)} {P Q : Cmd → List Tok → Prop}

theorem Yields.bind {f : Cmd × Nat → Except Stop (Cmd × Nat)} (h : Yields line r P)
    (hf : ∀ cmd s rest, Spells line s rest → P cmd rest → Yields line (f (cmd, s)) Q) :
    Yields line (r >>= f) Q := by
  rcases h with ⟨cmd, s, rest, rfl, hs, hP⟩ | ⟨msg, rfl⟩
  · exact hf cmd s rest hs hP
  · exact Or.inr ⟨msg, rfl⟩

theorem Yields.mono (h : Yields line r P) (hPQ : ∀ cmd rest, P cmd rest → Q cmd rest) :
    Yields line r Q := by
  rcases h with ⟨cmd, s, rest, hr, hs, hP⟩ | hp
  · exact Or.inl ⟨cmd, s, rest, hr, hs, hPQ cmd rest hP⟩
  · exact Or.inr hp

theorem yields_ok {rest : List Tok} (hs : Spells line s rest) (hP : P cmd rest) :
    Yields line (.ok (cmd, s)) P := Or.inl ⟨cmd, s, rest, rfl, hs, hP⟩

theorem yields_panic {msg : String} : Yields line (.error (.panic msg)) P := Or.inr ⟨msg, rfl⟩

/-- The operators of redirections. -/
def redirOps : List Byte := [chr '<', chr '>', chr '+']

theorem next_redir (h : next "<>" ts = true) : ∃ c ts', ts = .op c :: ts' ∧ c ∈ redirOps := by
  cases ts with
  | nil => cases h
  | cons t ts =>
    have hmem := strchr_iff.1 h
    cases t with
    | word q eq => exact absurd hmem (by rw [Tok.first]; decide)
    | op c =>
      refine ⟨c, ts, rfl, ?_⟩
      rw [Tok.first] at hmem
      split at hmem
      case isTrue hc => rw [hc]; decide
      case isFalse => fin_cases hmem <;> decide

theorem next_op {toks : String} {c : Byte} (hb : bytes toks = [c]) (hgt : c ≠ chr '>')
    (ha : c ≠ chr 'a') (h : next toks ts = true) : ∃ ts', ts = .op c :: ts' := by
  cases ts with
  | nil => cases h
  | cons t ts =>
    have hmem := strchr_iff.1 h
    rw [hb, List.mem_singleton] at hmem
    cases t with
    | word q eq => exact absurd hmem.symm ha
    | op d =>
      rw [Tok.first] at hmem
      split at hmem
      · exact absurd hmem.symm hgt
      · exact ⟨ts, by rw [hmem]⟩

theorem parseredirs_yields (h0 : 0 ∉ line) (h : Spells line s ts) (hn : ts.length < n) :
    Yields line (parseredirs line n cmd s) fun cmd' rest =>
      ∃ rs : List Redir, (∀ r ∈ rs, r.tok ∈ redirOps) ∧ ts = redirToks rs ++ rest ∧
        cmd' = redirs cmd rs := by
  induction n generalizing s ts cmd with
  | zero => omega
  | succ n ih =>
    rw [parseredirs]
    obtain ⟨s', hp, hs⟩ := peek_spec "<>" (by decide) h0 h
    simp only [hp]
    split
    case isFalse => exact yields_ok hs ⟨[], nofun, rfl, rfl⟩
    case isTrue hmore =>
      obtain ⟨c, ts, rfl, hc⟩ := next_redir hmore
      obtain ⟨hret, hs1⟩ := gettoken_op hs
      split
      · exact yields_panic
      case isFalse hfile =>
        obtain ⟨q, eq, ts, rfl⟩ := gettoken_a hs1 (not_not.1 hfile)
        obtain ⟨-, hq, heq, hs2⟩ := gettoken_word h0 hs1
        have hlen : ts.length < n := by
          simp only [List.length_cons] at hn
          omega
        refine (ih hs2 hlen).mono fun cmd' rest ⟨rs, hrs, hts, hcmd⟩ => ?_
        refine ⟨⟨c, q, eq⟩ :: rs, List.forall_mem_cons.2 ⟨hc, hrs⟩, ?_, ?_⟩
        · rw [hts]
          rfl
        · rw [hcmd, hret, hq, heq]
          rfl

theorem parsebacks_yields (h0 : 0 ∉ line) (h : Spells line s ts) (hn : ts.length < n) :
    Yields line (parsebacks line n cmd s) fun cmd' rest =>
      ∃ k, ts = List.replicate k (Tok.op (chr '&')) ++ rest ∧ cmd' = Cmd.back^[k] cmd := by
  induction n generalizing s ts cmd with
  | zero => omega
  | succ n ih =>
    rw [parsebacks]
    obtain ⟨s', hp, hs⟩ := peek_spec "&" (by decide) h0 h
    simp only [hp]
    split
    case isFalse => exact yields_ok hs ⟨0, rfl, rfl⟩
    case isTrue hmore =>
      obtain ⟨ts, rfl⟩ := next_op (c := chr '&') rfl (by decide) (by decide) hmore
      obtain ⟨-, hs1⟩ := gettoken_op hs
      have hlen : ts.length < n := by
        simp only [List.length_cons] at hn
        omega
      refine (ih hs1 hlen).mono fun cmd' rest ⟨k, hts, hcmd⟩ => ⟨k + 1, ?_, hcmd⟩
      rw [hts]
      rfl

theorem parseargs_yields {argc : Nat} (h0 : 0 ∉ line) (h : Spells line s ts) (hn : ts.length < n)
    (hargc : argc < MAXARGS) : Yields line (parseargs line n argc cmd s) fun cmd' rest =>
      ∃ as : List Arg, (∀ a ∈ as, ∀ r ∈ a.rs, r.tok ∈ redirOps) ∧ argc + as.length < MAXARGS ∧
        ts = as.flatMap Arg.toks ++ rest ∧ cmd' = args cmd as := by
  induction n generalizing s ts cmd argc with
  | zero => omega
  | succ n ih =>
    rw [parseargs]
    obtain ⟨s', hp, hs⟩ := peek_spec "|)&;" (by decide) h0 h
    simp only [hp]
    split
    · exact yields_ok hs ⟨[], nofun, hargc, rfl, rfl⟩
    split
    case isTrue hret =>
      obtain rfl := gettoken_zero h0 hs hret
      exact yields_ok (gettoken_nil hs).2 ⟨[], nofun, hargc, rfl, rfl⟩
    split
    · exact yields_panic
    case isFalse hword =>
    split
    · exact yields_panic
    case isFalse hmax =>
      obtain ⟨q, eq, ts, rfl⟩ := gettoken_a hs (not_not.1 hword)
      obtain ⟨-, hq, heq, hs1⟩ := gettoken_word h0 hs
      rw [List.length_cons] at hn
      refine (parseredirs_yields h0 hs1 (by omega)).bind fun cmd' s rest hs2 hP => ?_
      obtain ⟨rs, hrs, rfl, rfl⟩ := hP
      rw [List.length_append] at hn
      refine (ih hs2 (by omega) (by omega)).mono fun cmd' rest ⟨as, has, hlen, hts, hcmd⟩ => ?_
      refine ⟨⟨q, eq, rs⟩ :: as, List.forall_mem_cons.2 ⟨hrs, has⟩, ?_, ?_, ?_⟩
      · rw [List.length_cons]
        omega
      · rw [hts]
        simp [Arg.toks]
      · rw [hcmd, hq, heq]
        rfl

/-- A function for `k` reads a tree of the grammar. -/
def Reads {k : Level} (ts : List Tok) (cmd : Cmd) (rest : List Tok) : Prop :=
  ∃ x : Syn k, x.Fits ∧ ts = x.toks ++ rest ∧ cmd = x.cmd

theorem parseblock_yields (h0 : 0 ∉ line)
    (ih : ∀ {s ts}, Spells line s ts → 4 * ts.length + 4 ≤ n →
      Yields line (parseline line n s) (Reads (k := .line) ts))
    (h : Spells line s ts) (hn : 4 * ts.length ≤ n) :
    Yields line (parseblock line (n + 1) s) (Reads (k := .exec) ts) := by
  rw [parseblock]
  obtain ⟨s', hp, hs⟩ := peek_spec "(" (by decide) h0 h
  simp only [hp]
  split
  · exact yields_panic
  case isFalse hblock =>
  obtain ⟨ts, rfl⟩ := next_op (c := chr '(') rfl (by decide) (by decide)
    (Bool.eq_true_of_not_eq_false hblock)
  rw [List.length_cons] at hn
  refine (ih (gettoken_op hs).2 (by omega)).bind fun cmd s rest hs1 hP => ?_
  obtain ⟨x, hx, rfl, rfl⟩ := hP
  obtain ⟨s', hp, hs2⟩ := peek_spec ")" (by decide) h0 hs1
  simp only [hp]
  split
  · exact yields_panic
  case isFalse hclosed =>
  obtain ⟨rest, rfl⟩ := next_op (c := chr ')') rfl (by decide) (by decide)
    (Bool.eq_true_of_not_eq_false hclosed)
  rw [List.length_append, List.length_cons] at hn
  refine (parseredirs_yields h0 (gettoken_op hs2).2 (by omega)).mono fun cmd' rest hP => ?_
  obtain ⟨rs, hrs, rfl, rfl⟩ := hP
  refine ⟨.block x rs, ⟨hx, hrs⟩, ?_, rfl⟩
  simp [Syn.toks]

theorem parseexec_yields (h0 : 0 ∉ line)
    (ih : ∀ {s ts}, Spells line s ts → 4 * ts.length + 1 ≤ n →
      Yields line (parseblock line n s) (Reads (k := .exec) ts))
    (h : Spells line s ts) (hn : 4 * ts.length + 1 ≤ n) :
    Yields line (parseexec line (n + 1) s) (Reads (k := .exec) ts) := by
  rw [parseexec]
  obtain ⟨s', hp, hs⟩ := peek_spec "(" (by decide) h0 h
  simp only [hp]
  split
  · exact ih hs hn
  refine (parseredirs_yields h0 hs (by omega)).bind fun cmd s rest hs1 hP => ?_
  obtain ⟨rs, hrs, rfl, rfl⟩ := hP
  rw [List.length_append] at hn
  refine (parseargs_yields h0 hs1 (by omega) (by decide)).mono fun cmd' rest hP => ?_
  obtain ⟨as, has, hlen, rfl, rfl⟩ := hP
  refine ⟨.simple rs as, ⟨hrs, has, by omega⟩, ?_, rfl⟩
  simp [Syn.toks]

theorem parsepipe_yields (h0 : 0 ∉ line)
    (ih : ∀ {s ts}, Spells line s ts → 4 * ts.length + 2 ≤ n →
      Yields line (parseexec line n s) (Reads (k := .exec) ts))
    (ih' : ∀ {s ts}, Spells line s ts → 4 * ts.length + 3 ≤ n →
      Yields line (parsepipe line n s) (Reads (k := .pipe) ts))
    (h : Spells line s ts) (hn : 4 * ts.length + 2 ≤ n) :
    Yields line (parsepipe line (n + 1) s) (Reads (k := .pipe) ts) := by
  rw [parsepipe]
  refine (ih h hn).bind fun cmd s rest hs hP => ?_
  obtain ⟨x, hx, rfl, rfl⟩ := hP
  obtain ⟨s', hp, hs1⟩ := peek_spec "|" (by decide) h0 hs
  simp only [hp]
  split
  case isFalse => exact yields_ok hs1 ⟨.one x, hx, rfl, rfl⟩
  case isTrue hmore =>
    obtain ⟨rest, rfl⟩ := next_op (c := chr '|') rfl (by decide) (by decide) hmore
    rw [List.length_append, List.length_cons] at hn
    refine (ih' (gettoken_op hs1).2 (by omega)).bind fun right s rest hs2 hP => ?_
    obtain ⟨y, hy, rfl, rfl⟩ := hP
    refine yields_ok hs2 ⟨.pipe x y, ⟨hx, hy⟩, ?_, rfl⟩
    simp [Syn.toks]

theorem parseline_yields (h0 : 0 ∉ line)
    (ih : ∀ {s ts}, Spells line s ts → 4 * ts.length + 3 ≤ n →
      Yields line (parsepipe line n s) (Reads (k := .pipe) ts))
    (ih' : ∀ {s ts}, Spells line s ts → 4 * ts.length + 4 ≤ n →
      Yields line (parseline line n s) (Reads (k := .line) ts))
    (h : Spells line s ts) (hn : 4 * ts.length + 3 ≤ n) :
    Yields line (parseline line (n + 1) s) (Reads (k := .line) ts) := by
  rw [parseline]
  refine (ih h hn).bind fun cmd s rest hs hP => ?_
  obtain ⟨x, hx, rfl, rfl⟩ := hP
  rw [List.length_append] at hn
  refine (parsebacks_yields h0 hs (by omega)).bind fun cmd s rest hs1 hP => ?_
  obtain ⟨k, rfl, rfl⟩ := hP
  obtain ⟨s', hp, hs2⟩ := peek_spec ";" (by decide) h0 hs1
  simp only [hp]
  split
  case isFalse =>
    refine yields_ok hs2 ⟨.stop x k, hx, ?_, rfl⟩
    simp [Syn.toks]
  case isTrue hmore =>
    obtain ⟨rest, rfl⟩ := next_op (c := chr ';') rfl (by decide) (by decide) hmore
    rw [List.length_append, List.length_cons] at hn
    refine (ih' (gettoken_op hs2).2 (by omega)).bind fun right s rest hs3 hP => ?_
    obtain ⟨y, hy, rfl, rfl⟩ := hP
    refine yields_ok hs3 ⟨.seq x k y, ⟨hx, hy⟩, ?_, rfl⟩
    simp [Syn.toks]

/-- Each function reads a tree or panics. -/
theorem parse_yields (h0 : 0 ∉ line) (n : Nat) :
    (∀ {s ts}, Spells line s ts → 4 * ts.length + 4 ≤ n →
      Yields line (parseline line n s) (Reads (k := .line) ts)) ∧
    (∀ {s ts}, Spells line s ts → 4 * ts.length + 3 ≤ n →
      Yields line (parsepipe line n s) (Reads (k := .pipe) ts)) ∧
    (∀ {s ts}, Spells line s ts → 4 * ts.length + 2 ≤ n →
      Yields line (parseexec line n s) (Reads (k := .exec) ts)) ∧
    ∀ {s ts}, Spells line s ts → 4 * ts.length + 1 ≤ n →
      Yields line (parseblock line n s) (Reads (k := .exec) ts) := by
  induction n with
  | zero =>
    exact ⟨fun _ h => by omega, fun _ h => by omega, fun _ h => by omega, fun _ h => by omega⟩
  | succ n ih =>
    obtain ⟨hline, hpipe, hexec, hblock⟩ := ih
    exact ⟨fun h hn => parseline_yields h0 hpipe hline h (by omega),
      fun h hn => parsepipe_yields h0 hexec hpipe h (by omega),
      fun h hn => parseexec_yields h0 hblock h (by omega),
      fun h hn => parseblock_yields h0 hline h (by omega)⟩

end sound

/-! ## What the parser accepts -/

section complete

variable {line : List Byte} {s n : Nat} {rest : List Tok} {cmd : Cmd}

/-- What may come after a tree of a level. -/
def Follows : Level → List Tok → Prop
  | .exec, rest => rest = [] ∨ next "|)&;" rest = true
  | .pipe, rest => rest = [] ∨ next ")&;" rest = true
  | .line, rest => rest = [] ∨ next ")" rest = true

/-- The first token is none of `toks` if it is one of others. -/
theorem not_next {toks others : String} (hdis : ∀ c ∈ bytes others, c ∉ bytes toks)
    (h : rest = [] ∨ next others rest = true) : next toks rest = false := by
  rcases h with rfl | h
  · rfl
  · cases rest with
    | nil => rfl
    | cons t rest => exact strchr_eq_false.2 (hdis _ (strchr_iff.1 h))

theorem follows_mono {toks others : String} (hsub : bytes toks ⊆ bytes others)
    (h : rest = [] ∨ next toks rest = true) : rest = [] ∨ next others rest = true := by
  refine h.imp_right fun h => ?_
  cases rest with
  | nil => cases h
  | cons t rest => exact strchr_iff.2 (hsub (strchr_iff.1 h))

theorem parseredirs_complete (cmd : Cmd) (h0 : 0 ∉ line) {rs : List Redir}
    (hrs : ∀ r ∈ rs, r.tok ∈ redirOps) (h : Spells line s (redirToks rs ++ rest))
    (hrest : next "<>" rest = false)
    (hn : (redirToks rs ++ rest).length < n) :
    ∃ s', parseredirs line n cmd s = .ok (redirs cmd rs, s') ∧ Spells line s' rest := by
  induction rs generalizing s n cmd with
  | nil =>
    obtain _ | n := n
    · exact absurd hn (Nat.not_lt_zero _)
    obtain ⟨s', hp, hs⟩ := peek_spec "<>" (by decide) h0 h
    rw [parseredirs]
    refine ⟨s', ?_, hs⟩
    simp only [hp]
    rw [if_neg]
    · rfl
    · exact Bool.eq_false_iff.1 hrest
  | cons r rs ih =>
    obtain _ | n := n
    · exact absurd hn (Nat.not_lt_zero _)
    obtain ⟨hr, hrs⟩ := List.forall_mem_cons.1 hrs
    obtain ⟨s', hp, hs⟩ := peek_spec "<>" (by decide) h0 h
    have hmore : next "<>" (redirToks (r :: rs) ++ rest) = true := by
      refine strchr_iff.2 ?_
      show (Tok.op r.tok).first ∈ _
      generalize r.tok = c at hr
      fin_cases hr <;> decide
    obtain ⟨hret, hs1⟩ := gettoken_op hs
    obtain ⟨ha, hq, heq, hs2⟩ := gettoken_word h0 hs1
    rw [parseredirs]
    simp only [hp, hmore, if_true, ha, ne_eq, not_true_eq_false, if_false, hret, hq, heq]
    refine ih _ hrs hs2 ?_
    simp only [redirToks, Redir.toks, List.flatMap_cons, List.length_append, List.length_cons,
      List.length_nil] at hn ⊢
    omega

theorem parsebacks_complete (cmd : Cmd) (h0 : 0 ∉ line) {k : Nat}
    (h : Spells line s (List.replicate k (Tok.op (chr '&')) ++ rest))
    (hrest : next "&" rest = false) (hn : k + rest.length < n) :
    ∃ s', parsebacks line n cmd s = .ok (Cmd.back^[k] cmd, s') ∧ Spells line s' rest := by
  induction k generalizing s n cmd with
  | zero =>
    obtain _ | n := n
    · exact absurd hn (Nat.not_lt_zero _)
    obtain ⟨s', hp, hs⟩ := peek_spec "&" (by decide) h0 h
    rw [parsebacks]
    refine ⟨s', ?_, hs⟩
    simp only [hp]
    rw [if_neg]
    · rfl
    · exact Bool.eq_false_iff.1 hrest
  | succ k ih =>
    obtain _ | n := n
    · exact absurd hn (Nat.not_lt_zero _)
    obtain ⟨s', hp, hs⟩ := peek_spec "&" (by decide) h0 h
    have hmore : next "&" (List.replicate (k + 1) (Tok.op (chr '&')) ++ rest) = true := rfl
    rw [parsebacks]
    simp only [hp, hmore, if_true]
    exact ih _ (gettoken_op hs).2 (by omega)

theorem parseargs_complete (argc : Nat) (cmd : Cmd) (h0 : 0 ∉ line) {as : List Arg}
    (has : ∀ a ∈ as, ∀ r ∈ a.rs, r.tok ∈ redirOps) (hargc : argc + as.length < MAXARGS)
    (h : Spells line s (as.flatMap Arg.toks ++ rest)) (hrest : Follows .exec rest)
    (hn : (as.flatMap Arg.toks ++ rest).length < n) :
    ∃ s', parseargs line n argc cmd s = .ok (args cmd as, s') ∧ Spells line s' rest := by
  induction as generalizing s n cmd argc with
  | nil =>
    obtain _ | n := n
    · exact absurd hn (Nat.not_lt_zero _)
    obtain ⟨s', hp, hs⟩ := peek_spec "|)&;" (by decide) h0 h
    rw [parseargs]
    rcases hrest with rfl | hnext
    · obtain ⟨hret, hs1⟩ := gettoken_nil hs
      refine ⟨_, ?_, hs1⟩
      simp only [hp, List.flatMap_nil, List.append_nil, next, hret, if_true]
      rfl
    · refine ⟨s', ?_, hs⟩
      simp only [hp, List.flatMap_nil, List.nil_append, hnext, if_true]
      rfl
  | cons a as ih =>
    obtain _ | n := n
    · exact absurd hn (Nat.not_lt_zero _)
    obtain ⟨ha, has⟩ := List.forall_mem_cons.1 has
    obtain ⟨s', hp, hs⟩ := peek_spec "|)&;" (by decide) h0 h
    have hstop : next "|)&;" ((a :: as).flatMap Arg.toks ++ rest) = false := rfl
    have htoks : (a :: as).flatMap Arg.toks ++ rest =
        .word a.q a.eq :: (redirToks a.rs ++ (as.flatMap Arg.toks ++ rest)) := by
      simp [Arg.toks]
    rw [htoks, List.length_cons] at hn
    rw [htoks] at hs
    rw [List.length_cons] at hargc
    obtain ⟨hret, hq, heq, hs1⟩ := gettoken_word h0 hs
    have hnext : next "<>" (as.flatMap Arg.toks ++ rest) = false := by
      cases as with
      | nil => exact not_next (by decide) hrest
      | cons b as => rfl
    obtain ⟨s1, hr, hs2⟩ :=
      parseredirs_complete (n := n) (cmd.arg a.q a.eq) h0 ha hs1 hnext (by omega)
    have hz : chr 'a' ≠ 0 := by decide
    have hmax : ¬argc + 1 ≥ MAXARGS := by omega
    rw [List.length_append] at hn
    rw [parseargs]
    simp only [hp, hstop, Bool.false_eq_true, if_false, hret, hz, ne_eq, not_true_eq_false, hmax,
      hq, heq, hr]
    exact ih _ _ has (by omega) hs2 (by omega)

/-- The function for a level. -/
def parse (line : List Byte) : Level → Nat → Nat → Except Stop (Cmd × Nat)
  | .exec => parseexec line
  | .pipe => parsepipe line
  | .line => parseline line

/-- The fuel for a level, beyond four for each token. -/
def depth : Level → Nat
  | .exec => 2
  | .pipe => 3
  | .line => 4

theorem next_simple {rs : List Redir} {as : List Arg} (hrs : ∀ r ∈ rs, r.tok ∈ redirOps)
    (hrest : Follows .exec rest) : next "(" ((Syn.simple rs as).toks ++ rest) = false := by
  cases rs with
  | nil =>
    cases as with
    | nil => exact not_next (by decide) hrest
    | cons a as => rfl
  | cons r rs =>
    refine strchr_eq_false.2 ?_
    have hr := hrs r List.mem_cons_self
    show (Tok.op r.tok).first ∉ _
    generalize r.tok = c at hr
    fin_cases hr <;> decide

/-- A tree of the grammar is read in full. -/
theorem Syn.parse_complete (h0 : 0 ∉ line) {k : Level} (x : Syn k) (hx : x.Fits)
    (h : Spells line s (x.toks ++ rest)) (hrest : Follows k rest)
    (hn : 4 * (x.toks ++ rest).length + depth k ≤ n) :
    ∃ s', parse line k n s = .ok (x.cmd, s') ∧ Spells line s' rest := by
  induction x generalizing s n rest with
  | simple rs as =>
    obtain _ | n := n
    · exact absurd hn (Nat.not_succ_le_zero _)
    obtain ⟨hrs, has, hlen⟩ := hx
    obtain ⟨s', hp, hs⟩ := peek_spec "(" (by decide) h0 h
    rw [toks, List.append_assoc] at hs hn
    have hblock : next "(" ((Syn.simple rs as).toks ++ rest) = false :=
      next_simple hrs hrest
    have hnext : next "<>" (as.flatMap Arg.toks ++ rest) = false := by
      cases as with
      | nil => exact not_next (by decide) hrest
      | cons b as => rfl
    simp only [depth] at hn
    obtain ⟨s1, hr, hs1⟩ :=
      parseredirs_complete (n := n) (.exec []) h0 hrs hs hnext (by omega)
    rw [List.length_append] at hn
    obtain ⟨s2, ha, hs2⟩ := parseargs_complete (n := n) 0 (redirs (.exec []) rs)
      h0 has (by omega) hs1 hrest (by omega)
    refine ⟨s2, ?_, hs2⟩
    rw [parse, parseexec]
    simp only [hp, hblock, Bool.false_eq_true, if_false, hr]
    exact ha
  | block l rs ih =>
    obtain _ | _ | n := n
    · exact absurd hn (by simp [depth])
    · exact absurd hn (by simp [depth])
    obtain ⟨hl, hrs⟩ := hx
    obtain ⟨s', hp, hs⟩ := peek_spec "(" (by decide) h0 h
    obtain ⟨s1, hp1, hs1⟩ := peek_spec "(" (by decide) h0 hs
    have htoks : (Syn.block l rs).toks ++ rest =
        .op (chr '(') :: (l.toks ++ .op (chr ')') :: (redirToks rs ++ rest)) := by
      simp [toks]
    have hopen : next "(" ((Syn.block l rs).toks ++ rest) = true := rfl
    rw [htoks] at hs1
    rw [htoks, List.length_cons] at hn
    simp only [depth] at hn
    obtain ⟨s2, hline, hs2⟩ :=
      ih hl (n := n) (gettoken_op hs1).2 (Or.inr rfl) (by rw [depth]; omega)
    obtain ⟨s3, hp3, hs3⟩ := peek_spec ")" (by decide) h0 hs2
    have hclose : next ")" (.op (chr ')') :: (redirToks rs ++ rest)) = true := rfl
    rw [List.length_append, List.length_cons] at hn
    obtain ⟨s4, hr, hs4⟩ := parseredirs_complete (n := n) l.cmd h0 hrs
      (gettoken_op hs3).2 (not_next (by decide) hrest) (by omega)
    refine ⟨s4, ?_, hs4⟩
    rw [parse] at hline
    rw [parse, parseexec]
    simp only [hp, hopen, if_true, parseblock, hp1, Bool.true_eq_false, if_false, hline]
    simp only [bind, Except.bind, hp3, hclose, Bool.true_eq_false, if_false, hr]
    rfl
  | one e ih =>
    obtain _ | n := n
    · exact absurd hn (by simp [depth])
    simp only [depth] at hn
    obtain ⟨s1, he, hs1⟩ :=
      ih hx (n := n) h (follows_mono (by decide) hrest)
        (by rw [depth]; exact Nat.le_of_succ_le_succ hn)
    obtain ⟨s2, hp, hs2⟩ := peek_spec "|" (by decide) h0 hs1
    refine ⟨s2, ?_, hs2⟩
    have hmore : next "|" rest = false := not_next (by decide) hrest
    rw [parse] at he
    rw [parse, parsepipe]
    simp only [he, bind, Except.bind, hp, hmore]
    rfl
  | pipe e p ihe ihp =>
    obtain _ | n := n
    · exact absurd hn (by simp [depth])
    have htoks : (Syn.pipe e p).toks ++ rest = e.toks ++ .op (chr '|') :: (p.toks ++ rest) := by
      simp [toks]
    rw [htoks] at h hn
    simp only [depth] at hn
    obtain ⟨s1, he, hs1⟩ := ihe hx.1 (n := n) h (Or.inr rfl) (by rw [depth]; omega)
    obtain ⟨s2, hp, hs2⟩ := peek_spec "|" (by decide) h0 hs1
    rw [List.length_append, List.length_cons] at hn
    obtain ⟨s3, hpipe, hs3⟩ :=
      ihp hx.2 (n := n) (gettoken_op hs2).2 hrest (by rw [depth]; omega)
    refine ⟨s3, ?_, hs3⟩
    have hmore : next "|" (.op (chr '|') :: (p.toks ++ rest)) = true := rfl
    simp only [parse] at he hpipe
    rw [parse, parsepipe]
    simp only [he, bind, Except.bind, hp, hmore, if_true, hpipe]
    rfl
  | stop p k ih =>
    obtain _ | n := n
    · exact absurd hn (by simp [depth])
    have htoks : (Syn.stop p k).toks ++ rest =
        p.toks ++ (List.replicate k (Tok.op (chr '&')) ++ rest) := by
      simp [toks]
    rw [htoks] at h hn
    simp only [depth] at hn
    have hbacks : Follows .pipe (List.replicate k (Tok.op (chr '&')) ++ rest) := by
      cases k with
      | zero => exact follows_mono (by decide) hrest
      | succ k => exact Or.inr rfl
    obtain ⟨s1, he, hs1⟩ := ih hx (n := n) h hbacks (by rw [depth]; omega)
    rw [List.length_append, List.length_append, List.length_replicate] at hn
    obtain ⟨s2, hb, hs2⟩ := parsebacks_complete (n := n) p.cmd h0 hs1
      (not_next (by decide) hrest) (by omega)
    obtain ⟨s3, hp, hs3⟩ := peek_spec ";" (by decide) h0 hs2
    refine ⟨s3, ?_, hs3⟩
    have hmore : next ";" rest = false := not_next (by decide) hrest
    rw [parse] at he
    rw [parse, parseline]
    simp only [he, bind, Except.bind, hb, hp, hmore]
    rfl
  | seq p k l ihp ihl =>
    obtain _ | n := n
    · exact absurd hn (by simp [depth])
    have htoks : (Syn.seq p k l).toks ++ rest = p.toks ++
        (List.replicate k (Tok.op (chr '&')) ++ .op (chr ';') :: (l.toks ++ rest)) := by
      simp [toks]
    rw [htoks] at h hn
    simp only [depth] at hn
    have hbacks : Follows .pipe
        (List.replicate k (Tok.op (chr '&')) ++ .op (chr ';') :: (l.toks ++ rest)) := by
      cases k with
      | zero => exact Or.inr rfl
      | succ k => exact Or.inr rfl
    obtain ⟨s1, he, hs1⟩ := ihp hx.1 (n := n) h hbacks (by rw [depth]; omega)
    rw [List.length_append, List.length_append, List.length_replicate, List.length_cons] at hn
    obtain ⟨s2, hb, hs2⟩ := parsebacks_complete (n := n) p.cmd h0 hs1 rfl
      (by rw [List.length_cons]; omega)
    obtain ⟨s3, hp, hs3⟩ := peek_spec ";" (by decide) h0 hs2
    obtain ⟨s4, hl, hs4⟩ :=
      ihl hx.2 (n := n) (gettoken_op hs3).2 hrest (by rw [depth]; omega)
    refine ⟨s4, ?_, hs4⟩
    have hmore : next ";" (.op (chr ';') :: (l.toks ++ rest)) = true := rfl
    simp only [parse] at he hl
    rw [parse, parseline]
    simp only [he, bind, Except.bind, hb, hp, hmore, if_true, hl]
    rfl

end complete

/-! ## Command lines -/

variable {line : List Byte}

theorem accepts_of (h0 : 0 ∉ line) {x : Syn .line} (hx : x.Fits) (h : Spells line 0 x.toks) :
    parsecmd line = .ok (x.cmd, nulterminate x.cmd line) := by
  have hlen := h.length_le
  rw [← List.append_nil x.toks] at h
  obtain ⟨s, hp, hs⟩ := x.parse_complete (n := 4 * (line.length + 2)) h0 hx h (Or.inl rfl)
    (by rw [List.append_nil, depth]; omega)
  have hend : (peek line "" s).2 = line.length := (peek_end "" hs).2 rfl
  rw [parse] at hp
  rw [parsecmd]
  simp only [hp, bind, Except.bind, hend, ne_eq, not_true_eq_false, if_false]
  rfl

theorem parsecmd_cases (h0 : 0 ∉ line) :
    (∃ x : Syn .line, x.Fits ∧ Spells line 0 x.toks ∧
      parsecmd line = .ok (x.cmd, nulterminate x.cmd line)) ∨
    ∃ msg, parsecmd line = .error (.panic msg) := by
  obtain ⟨ts, h⟩ := exists_spells (Nat.zero_le line.length)
  have hlen := h.length_le
  rcases (parse_yields h0 (4 * (line.length + 2))).1 h (by omega) with
    ⟨cmd, s, rest, hp, hs, x, hx, rfl, rfl⟩ | ⟨msg, hp⟩
  · by_cases hend : (peek line "" s).2 = line.length
    · obtain rfl := (peek_end "" hs).1 hend
      rw [List.append_nil] at h
      exact Or.inl ⟨x, hx, h, accepts_of h0 hx h⟩
    · refine Or.inr ⟨"syntax", ?_⟩
      rw [parsecmd]
      simp only [hp, bind, Except.bind, ne_eq, hend, not_false_eq_true, if_true]
  · refine Or.inr ⟨msg, ?_⟩
    rw [parsecmd]
    simp only [hp, bind, Except.bind]

/-- **The parser accepts the grammar**: exactly the lines that a tree spells, with the command
of the tree. On every other line it panics. -/
theorem parsecmd_iff (h0 : 0 ∉ line) :
    (∀ cmd buf, parsecmd line = .ok (cmd, buf) ↔
      ∃ x : Syn .line, x.Fits ∧ Spells line 0 x.toks ∧ cmd = x.cmd ∧
        buf = nulterminate cmd line) ∧
    ((¬∃ x : Syn .line, x.Fits ∧ Spells line 0 x.toks) →
      ∃ msg, parsecmd line = .error (.panic msg)) := by
  constructor
  · intro cmd buf
    constructor
    · intro h
      rcases parsecmd_cases h0 with ⟨x, hx, hs, hp⟩ | ⟨msg, hp⟩
      · rw [hp] at h
        cases h
        exact ⟨x, hx, hs, rfl, rfl⟩
      · rw [hp] at h
        cases h
    · rintro ⟨x, hx, hs, rfl, rfl⟩
      exact accepts_of h0 hx hs
  · intro hno
    rcases parsecmd_cases h0 with ⟨x, hx, hs, -⟩ | hp
    · exact absurd ⟨x, hx, hs⟩ hno
    · exact hp

theorem parsecmd_iff_pipeline : ∃ x : Syn .line, x.Fits ∧ Spells (bytes "ls|wc>f&") 0 x.toks ∧
    x.cmd = .back (.pipe (.exec [(0, 2)]) (.redir (.exec [(3, 5)]) 6 7 513 1)) := by
  have h0 : 0 ∉ bytes "ls|wc>f&" := by decide
  obtain ⟨x, hx, hs, hcmd, -⟩ := ((parsecmd_iff h0).1 (.back (.pipe (.exec [(0, 2)])
    (.redir (.exec [(3, 5)]) 6 7 513 1))) [108, 115, 0, 119, 99, 0, 102, 0]).1 rfl
  exact ⟨x, hx, hs, hcmd.symm⟩

end Xv6.Shell.Parse
