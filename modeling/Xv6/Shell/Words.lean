/-
The words that the shell hands on.

`nulterminate` writes a zero byte at the end of each word, in the line itself. No word is cut:
the byte after a word is a blank, a symbol or the end of the line, and so not a byte of any
other word. So each argument and each file name is the string of its word.
-/
import Xv6.Shell.Grammar

set_option autoImplicit false

namespace Xv6.Shell.Parse

open Xv6.Shell.Ulib Xv6.Shell.Chmod

variable {line : List Byte} {cmd : Cmd} {q eq s : Nat} {w : Nat × Nat}

/-! ## The words of a tree -/

theorem words_arg (h : w ∈ (cmd.arg q eq).words) : w ∈ cmd.words ∨ w = (q, eq) := by
  induction cmd with
  | exec argv =>
    rw [Cmd.arg, Cmd.words, List.mem_append, List.mem_singleton] at h
    exact h
  | redir cmd file efile mode fd ih =>
    rw [Cmd.arg, Cmd.words, List.mem_append] at h
    rw [Cmd.words, List.mem_append]
    rcases h with h | h
    · exact (ih h).imp_left Or.inl
    · exact Or.inl (Or.inr h)
  | pipe | list | back => exact Or.inl h

theorem words_redircmd (cmd : Cmd) (tok : Byte) (q eq : Nat) :
    (redircmd cmd tok q eq).words = cmd.words ++ [(q, eq)] := by
  rw [redircmd]
  split <;> rfl

theorem words_redirs {rs : List Redir} (h : w ∈ (redirs cmd rs).words) :
    w ∈ cmd.words ∨ Tok.word w.1 w.2 ∈ redirToks rs := by
  induction rs generalizing cmd with
  | nil => exact Or.inl h
  | cons r rs ih =>
    have hcons : redirToks (r :: rs) = r.toks ++ redirToks rs := List.flatMap_cons
    rw [hcons, List.mem_append]
    rcases ih h with h | h
    · rw [words_redircmd, List.mem_append, List.mem_singleton] at h
      refine h.imp_right fun h => Or.inl ?_
      subst h
      exact List.mem_cons_of_mem _ List.mem_cons_self
    · exact Or.inr (Or.inr h)

theorem words_args {as : List Arg} (h : w ∈ (args cmd as).words) :
    w ∈ cmd.words ∨ Tok.word w.1 w.2 ∈ as.flatMap Arg.toks := by
  induction as generalizing cmd with
  | nil => exact Or.inl h
  | cons a as ih =>
    rw [List.flatMap_cons, List.mem_append, Arg.toks, List.mem_cons]
    rcases ih h with h | h
    · rcases words_redirs h with h | h
      · refine (words_arg h).imp_right fun h => Or.inl (Or.inl ?_)
        rw [h]
      · exact Or.inr (Or.inl (Or.inr h))
    · exact Or.inr (Or.inr h)

theorem words_backs (k : Nat) : (Cmd.back^[k] cmd).words = cmd.words := by
  induction k generalizing cmd with
  | zero => rfl
  | succ k ih => exact ih

/-- The words of the command are words of the line. -/
theorem Syn.word_mem {k : Level} (x : Syn k) (h : w ∈ x.cmd.words) :
    Tok.word w.1 w.2 ∈ x.toks := by
  induction x with
  | simple rs as =>
    rw [toks, List.mem_append]
    rcases words_args h with h | h
    · exact Or.inl ((words_redirs h).resolve_left List.not_mem_nil)
    · exact Or.inr h
  | block l rs ih =>
    rw [toks]
    refine List.mem_cons_of_mem _ (List.mem_append.2 ?_)
    exact (words_redirs h).imp ih (List.mem_cons_of_mem _)
  | one e ih => exact ih h
  | pipe e p ihe ihp =>
    rw [cmd, Cmd.words, List.mem_append] at h
    rw [toks, List.mem_append]
    exact h.imp ihe fun h => List.mem_cons_of_mem _ (ihp h)
  | stop p k ih =>
    rw [cmd, words_backs] at h
    exact List.mem_append_left _ (ih h)
  | seq p k l ihp ihl =>
    rw [cmd, Cmd.words, words_backs, List.mem_append] at h
    rw [toks, List.mem_append]
    exact h.imp (fun h => List.mem_append_left _ (ihp h)) fun h => List.mem_cons_of_mem _ (ihl h)

/-! ## The words of a line -/

/-- A word of the line: its characters, and where it ends. -/
structure IsWordAt (line : List Byte) (q eq : Nat) : Prop where
  lt : q < eq
  le : eq ≤ line.length
  inside : ∀ i, q ≤ i → i < eq → isWord (char line i) = true
  ends : eq < line.length → isWord (char line eq) = false

theorem Spells.isWordAt {ts : List Tok} (h : Spells line s ts) (hmem : Tok.word q eq ∈ ts) :
    IsWordAt line q eq := by
  induction h with
  | done => cases hmem
  | blank _ _ _ ih => exact ih hmem
  | op _ _ _ _ ih => exact ih ((List.mem_cons.1 hmem).resolve_left nofun)
  | append _ _ _ _ ih => exact ih ((List.mem_cons.1 hmem).resolve_left nofun)
  | word hq heq hw hend _ ih =>
    rcases List.mem_cons.1 hmem with h | h
    · cases h
      exact ⟨hq, heq, hw, hend⟩
    · exact ih h

/-! ## `nulterminate` -/

theorem char_set (buf : List Byte) (e i : Nat) :
    char (buf.set e 0) i = if i = e then 0 else char buf i := by
  rw [char, char, List.getD_eq_getElem?_getD, List.getD_eq_getElem?_getD, List.getElem?_set]
  by_cases hi : e = i
  · rw [if_pos hi, if_pos hi.symm]
    split <;> rfl
  · rw [if_neg hi, if_neg (Ne.symm hi)]

/-- The line after `nulterminate`: zero bytes at the ends of the words. -/
theorem char_nulterminate (cmd : Cmd) (line : List Byte) (i : Nat) :
    char (nulterminate cmd line) i = if i ∈ cmd.words.map Prod.snd then 0 else char line i := by
  rw [nulterminate]
  induction cmd.words generalizing line with
  | nil => rfl
  | cons w ws ih =>
    rw [List.foldl_cons, ih, char_set, List.map_cons]
    by_cases hw : i = w.2
    · simp [hw]
    · simp only [List.mem_cons, hw, false_or, if_false]

theorem length_nulterminate (cmd : Cmd) (line : List Byte) :
    (nulterminate cmd line).length = line.length := by
  rw [nulterminate]
  induction cmd.words generalizing line with
  | nil => rfl
  | cons w ws ih => rw [List.foldl_cons, ih, List.length_set]

/-- Two lines that agree on a stretch. -/
theorem take_drop_congr {l l' : List Byte} (hlen : l.length = l'.length)
    (hc : ∀ i, q ≤ i → i < eq → char l i = char l' i) :
    (l.drop q).take (eq - q) = (l'.drop q).take (eq - q) := by
  refine List.ext_getElem (by simp [hlen]) fun i hi hi' => ?_
  simp only [List.length_take, List.length_drop, lt_min_iff] at hi hi'
  have := hc (q + i) (by omega) (by omega)
  rw [char, char, List.getD_eq_getElem _ _ (by omega), List.getD_eq_getElem _ _ (by omega)] at this
  simpa using this

/-- **The words are strings**: after `parsecmd`, each argument and file name is the string of
its word, which is not empty and has no blanks or symbols. -/
theorem words_terminated {buf : List Byte} (h0 : 0 ∉ line) (h : parsecmd line = .ok (cmd, buf))
    (hw : w ∈ cmd.words) :
    cstr (buf.drop w.1) = (line.drop w.1).take (w.2 - w.1) ∧ w.1 < w.2 ∧ w.2 ≤ line.length ∧
      ∀ c ∈ (line.drop w.1).take (w.2 - w.1), isWord c = true := by
  obtain ⟨x, -, hs, rfl, rfl⟩ := ((parsecmd_iff h0).1 cmd buf).1 h
  have hword : ∀ w ∈ x.cmd.words, IsWordAt line w.1 w.2 :=
    fun w hw => hs.isWordAt (x.word_mem hw)
  have hat := hword w hw
  refine ⟨?_, hat.lt, hat.le, fun c hc => ?_⟩
  · set buf := nulterminate x.cmd line with hbuf
    have hlen : buf.length = line.length := length_nulterminate x.cmd line
    have hinside : ∀ i, w.1 ≤ i → i < w.2 → char buf i = char line i := by
      intro i hi hi'
      rw [hbuf, char_nulterminate, if_neg]
      intro hmem
      obtain ⟨v, hv, rfl⟩ := List.mem_map.1 hmem
      -- the end of a word is in no word
      have hno := (hword v hv).ends (hi'.trans_le hat.le)
      rw [hat.inside _ hi hi'] at hno
      cases hno
    have hsame := take_drop_congr hlen hinside
    have hsplit : buf.drop w.1 = (line.drop w.1).take (w.2 - w.1) ++ buf.drop w.2 := by
      have hadd : w.1 + (w.2 - w.1) = w.2 := Nat.add_sub_cancel' hat.lt.le
      rw [← hsame, ← hadd, Nat.add_sub_cancel_left, ← List.drop_drop, List.take_append_drop]
    have hzero : 0 ∉ (line.drop w.1).take (w.2 - w.1) := fun hmem =>
      h0 (List.mem_of_mem_drop (List.mem_of_mem_take hmem))
    rw [hsplit]
    by_cases hend : w.2 < line.length
    · have hnul : char buf w.2 = 0 := by
        rw [hbuf, char_nulterminate, if_pos (List.mem_map_of_mem hw)]
      have hdrop : buf.drop w.2 = 0 :: buf.drop (w.2 + 1) := by
        rw [drop_eq_cons (by omega), hnul]
      rw [hdrop]
      exact cstr_append _ hzero
    · have hdrop : buf.drop w.2 = [] := List.drop_eq_nil_of_le (by omega)
      rw [hdrop, List.append_nil]
      exact cstr_eq_self hzero
  · obtain ⟨i, hi, rfl⟩ := List.getElem_of_mem hc
    simp only [List.length_take, List.length_drop, lt_min_iff] at hi
    have := hat.inside (w.1 + i) (by omega) (by omega)
    rw [char, List.getD_eq_getElem _ _ (by omega)] at this
    simpa using this

theorem words_terminated_pipeline : ∃ cmd buf, parsecmd (bytes "ls|wc>f&") = .ok (cmd, buf) ∧
    cstr (buf.drop 3) = bytes "wc" := by
  have hp : parsecmd (bytes "ls|wc>f&") = .ok
      (.back (.pipe (.exec [(0, 2)]) (.redir (.exec [(3, 5)]) 6 7 513 1)),
        [108, 115, 0, 119, 99, 0, 102, 0]) := rfl
  exact ⟨_, _, hp, (words_terminated (w := (3, 5)) (by decide) hp (by decide)).1⟩

end Xv6.Shell.Parse
