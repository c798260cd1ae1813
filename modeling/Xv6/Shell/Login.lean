/-
The login at boot (`init.c`).

`login` reads lines into buffers of 20 bytes. `gets` fills a buffer with at most 19 bytes
and leaves the rest of a longer line in the input, where the next prompt finds it: then the
prompts are out of step with the lines that were typed.
-/
import Mathlib
import Xv6.Shell.Ulib

set_option autoImplicit false

namespace Xv6.Shell.Login

open Xv6.Shell.Ulib

/-! ## The code -/

abbrev MAX_ATTEMPTS : Nat := 3

/-- The size of `uname` and of `pass`. -/
abbrev SIZE : Nat := 20

structure State where
  /-- What the reads of the console will give. -/
  input : Input
  /-- What has been printed. -/
  output : List String

def State.printf (msg : String) (s : State) : State := { s with output := s.output ++ [msg] }

/-- The line in `buf` is the part before its terminator, which is stored over a newline. -/
def chop (buf : List Byte) : List Byte :=
  let len := strlen buf
  if 0 < len ∧ buf[len - 1]? = some 10 then buf.set (len - 1) 0 else buf

/-- `get_input`; `none` while it waits. -/
def get_input (size : Nat) (s : State) : Option (List Byte × State) :=
  (gets size s.input).map fun r => (chop r.1, { s with input := r.2 })

/-- One turn of the loop of `login`, with `attempts + 1` attempts left: whether it returns,
or goes on with `attempts`; `none` while it waits for input. -/
def turn (USERNAME PASSWORD : List Byte) (attempts : Nat) (s : State) : Option (Bool × State) :=
  (get_input SIZE (s.printf "Enter username: ")).bind fun (uname, s) =>
    if strcmp uname USERNAME ≠ 0 then
      some (false, s.printf ("Invalid Username. Attempts left: " ++ toString attempts ++ "\n"))
    else (get_input SIZE (s.printf "Enter password: ")).map fun (pass, s) =>
      if strcmp pass PASSWORD = 0 then (true, s.printf "Login successful\n")
      else (false, s.printf ("Incorrect password. Attempts left: " ++ toString attempts ++ "\n"))

inductive Result where
  /-- It waits for more input. -/
  | waits
  /-- It stays in the loop that prevents access. -/
  | denied
  | returns
  deriving DecidableEq

/-- How far `login` gets: `heads` is the input each time that the loop tests `attempts`. -/
structure Run where
  result : Result
  heads : List Input
  final : State

/-- The loop of `login`. -/
def loginLoop (USERNAME PASSWORD : List Byte) : Nat → State → Run
  | 0, s => ⟨.denied, [s.input], s.printf "Login failed. Access denied.\n"⟩
  | attempts + 1, s =>
    match turn USERNAME PASSWORD attempts s with
    | none => ⟨.waits, [s.input], s⟩
    | some (true, t) => ⟨.returns, [s.input], t⟩
    | some (false, t) =>
      let r := loginLoop USERNAME PASSWORD attempts t
      { r with heads := s.input :: r.heads }

def login (USERNAME PASSWORD : List Byte) (inp : Input) : Run :=
  loginLoop USERNAME PASSWORD MAX_ATTEMPTS ⟨inp, []⟩

/-! ## What is typed -/

/-- A user name or a password: at most 18 printable characters. -/
structure Credential where
  str : List Byte
  short : str.length ≤ 18
  printable : ∀ c ∈ str, 32 ≤ c.toNat ∧ c.toNat ≤ 126

/-- A line without its newline. The console stores no zero byte and turns each carriage
return into a newline. -/
structure Line where
  str : List Byte
  noNul : 0 ∉ str
  plain : ∀ c ∈ str, Plain c

/-- The input when these lines have been typed. -/
def typed (ls : List Line) : Input := ls.flatMap fun l => l.str.map some ++ [some 10]

/-! ## Attempts -/

variable (U P : Credential)

/-- One attempt on these lines: a user-name line and, if that is right, a password line.
It gives whether both are right, and the lines left; `none` if a line is still missing. -/
def attempt : List Line → Option (Bool × List Line)
  | [] => none
  | u :: ls =>
    if u.str = U.str then
      match ls with
      | [] => none
      | p :: ls => some (decide (p.str = P.str), ls)
    else some (false, ls)

/-- The lines that an attempt reads, as far as they have been typed. -/
def readBy : List Line → List Line
  | [] => []
  | u :: ls => u :: if u.str = U.str then ls.take 1 else []

/-- The lines left after an attempt that fails. -/
def failed (ls : List Line) : Option (List Line) :=
  (attempt U P ls).bind fun r => if r.1 then none else some r.2

/-- The lines left after `k` attempts that all fail. -/
def after : Nat → List Line → Option (List Line)
  | 0, ls => some ls
  | k + 1, ls => (failed U P ls).bind (after k)

/-- **Exactly the right credentials are accepted** from these lines, with this many attempts,
in the run `r`. -/
structure Exact (attempts : Nat) (ls : List Line) (r : Run) : Prop where
  /-- It returns when one of the attempts is right, with the lines of the attempts up to
  that one consumed. -/
  returns : ∀ inp, (r.result = .returns ∧ r.final.input = inp) ↔
    ∃ k < attempts, ∃ ks rest, after U P k ls = some ks ∧
      attempt U P ks = some (true, rest) ∧ inp = typed rest
  /-- Each attempt that is not right counts as one, with its lines consumed. -/
  counts : ∀ k ≤ attempts, r.heads[k]? = (after U P k ls).map typed
  /-- It denies access when none is right. -/
  denies : r.result = .denied ↔ (after U P attempts ls).isSome

/-- No line that these attempts read is longer than 18 characters. -/
def Short (attempts : Nat) (ls : List Line) : Prop :=
  ∀ k < attempts, ∀ ks, after U P k ls = some ks → ∀ l ∈ readBy U ks, l.str.length ≤ 18

variable {U P}

/-! ## Reading a line -/

theorem typed_cons (l : Line) (ls : List Line) :
    typed (l :: ls) = l.str.map some ++ some 10 :: typed ls := by
  unfold typed
  rw [List.flatMap_cons, List.append_assoc]
  rfl

/-- The newline of a line is overwritten. -/
theorem chop_line {l : List Byte} (h0 : 0 ∉ l) : chop (l ++ [10]) = l ++ [0] := by
  have hlen : strlen (l ++ [10]) = l.length + 1 := by
    have hnul : (0 : Byte) ∉ l ++ [10] := by
      rw [List.mem_append, List.mem_singleton]
      exact not_or.2 ⟨h0, by decide⟩
    rw [strlen_eq, cstr_eq_self hnul, List.length_append, List.length_singleton]
  unfold chop
  dsimp only
  rw [hlen, Nat.add_sub_cancel, if_pos ⟨Nat.succ_pos _, by simp⟩]
  simp

/-- A buffer without a newline stays as it is. -/
theorem chop_plain {l : List Byte} (h : ∀ c ∈ l, Plain c) : chop l = l := by
  unfold chop
  refine if_neg fun ⟨_, h10⟩ => ?_
  exact (h 10 (List.mem_of_getElem? h10)).1 rfl

theorem get_input_line {s : State} {l : Line} {ls : List Line} (hs : s.input = typed (l :: ls))
    (hl : l.str.length ≤ 18) :
    get_input SIZE s = some (l.str ++ [0], { s with input := typed ls }) := by
  unfold get_input gets
  rw [hs, typed_cons, getsLoop_line _ l.plain (show _ < SIZE - 1 from Nat.lt_succ_of_le hl),
    Option.map_some, chop_line l.noNul]

/-- Of a line that is too long the end stays in the input. -/
theorem get_input_long {s : State} {l : Line} {ls : List Line} (hs : s.input = typed (l :: ls))
    (hl : 18 < l.str.length) :
    ∃ t : State, get_input SIZE s = some (l.str.take 19, t) ∧
      (typed ls).length < t.input.length := by
  refine ⟨{ s with input := (l.str.drop 19).map some ++ some 10 :: typed ls }, ?_, ?_⟩
  · unfold get_input gets
    rw [hs, typed_cons, getsLoop_long _ l.plain (show SIZE - 1 ≤ _ from hl), Option.map_some,
      chop_plain fun c hc => l.plain c (List.mem_of_mem_take hc)]
    rfl
  · rw [List.length_append, List.length_cons]
    omega

theorem get_input_nil {s : State} (hs : s.input = typed []) : get_input SIZE s = none := by
  unfold get_input gets
  rw [hs]
  rfl

/-! ## Comparing it -/

theorem Credential.noNul (C : Credential) : 0 ∉ C.str := fun h => by
  have := (C.printable 0 h).1
  simp at this

theorem strcmp_line (l : Line) (C : Credential) :
    strcmp (l.str ++ [0]) C.str = 0 ↔ l.str = C.str := by
  rw [strcmp_eq_zero, cstr_append [] l.noNul, cstr_eq_self C.noNul]

/-- A buffer that is filled is longer than any user name or password. -/
theorem strcmp_long {l : Line} (C : Credential) (hl : 18 < l.str.length) :
    strcmp (l.str.take 19) C.str ≠ 0 ∧ l.str ≠ C.str := by
  have hC := C.short
  constructor
  · rw [Ne, strcmp_eq_zero, cstr_eq_self fun h => l.noNul (List.mem_of_mem_take h),
      cstr_eq_self C.noNul]
    intro h
    have := congrArg List.length h
    rw [List.length_take] at this
    omega
  · intro h
    rw [h] at hl
    omega

/-! ## One turn -/

/-- **A turn is one attempt**, if the lines it reads fit into the buffers. -/
theorem turn_short {n : Nat} {s : State} {ls : List Line} (hs : s.input = typed ls)
    (h : ∀ l ∈ readBy U ls, l.str.length ≤ 18) :
    (turn U.str P.str n s).map (fun r => (r.1, r.2.input)) =
      (attempt U P ls).map fun r => (r.1, typed r.2) := by
  have hs1 : (s.printf "Enter username: ").input = typed ls := hs
  unfold turn
  cases ls with
  | nil => rw [get_input_nil hs1]; rfl
  | cons u ls =>
    rw [get_input_line hs1 (h u List.mem_cons_self), Option.bind_some]
    dsimp only
    by_cases hu : u.str = U.str
    · rw [if_neg (not_not.2 ((strcmp_line u U).2 hu))]
      cases ls with
      | nil =>
        rw [get_input_nil rfl, attempt, if_pos hu]
        rfl
      | cons p ls =>
        have hp : p ∈ readBy U (u :: p :: ls) := by
          rw [readBy, if_pos hu]
          exact List.mem_cons_of_mem _ List.mem_cons_self
        rw [get_input_line rfl (h p hp), attempt, if_pos hu, Option.map_some]
        dsimp only
        by_cases hpw : p.str = P.str
        · rw [if_pos ((strcmp_line p P).2 hpw), decide_eq_true hpw]
          rfl
        · rw [if_neg (fun h0 => hpw ((strcmp_line p P).1 h0)), decide_eq_false hpw]
          rfl
    · rw [if_pos (fun h0 => hu ((strcmp_line u U).1 h0)), attempt.eq_def]
      dsimp only
      rw [if_neg hu]
      rfl

/-- A turn that reads a line that is too long fails, as the attempt does, but leaves more
input than the attempt. -/
theorem turn_long {n : Nat} {s : State} {ls : List Line} (hs : s.input = typed ls)
    (h : ∃ l ∈ readBy U ls, 18 < l.str.length) :
    ∃ t rest, turn U.str P.str n s = some (false, t) ∧ attempt U P ls = some (false, rest) ∧
      (typed rest).length < t.input.length := by
  have hs1 : (s.printf "Enter username: ").input = typed ls := hs
  unfold turn
  cases ls with
  | nil => exact absurd h (by simp [readBy])
  | cons u ls =>
    by_cases hul : 18 < u.str.length
    · obtain ⟨hne, hu⟩ := strcmp_long U hul
      obtain ⟨t, ht, hlen⟩ := get_input_long hs1 hul
      refine ⟨t.printf ("Invalid Username. Attempts left: " ++ toString n ++ "\n"), ls, ?_, ?_,
        hlen⟩
      · rw [ht, Option.bind_some]
        dsimp only
        rw [if_pos hne]
      · rw [attempt.eq_def]
        dsimp only
        rw [if_neg hu]
    · rw [get_input_line hs1 (by omega), Option.bind_some]
      dsimp only
      -- the long line is the password line, so there is one
      obtain ⟨p, hp, hpl⟩ := h
      rw [readBy, List.mem_cons] at hp
      obtain rfl | hp := hp
      · exact absurd hpl hul
      by_cases hu : u.str = U.str
      · rw [if_pos hu] at hp
        cases ls with
        | nil => simp at hp
        | cons q ls =>
          obtain rfl : p = q := by simpa using hp
          obtain ⟨hne, hpw⟩ := strcmp_long P hpl
          rw [if_neg (not_not.2 ((strcmp_line u U).2 hu))]
          obtain ⟨t, ht, hlen⟩ := get_input_long
            (s := State.printf "Enter password: "
              ⟨typed (p :: ls), (s.printf "Enter username: ").output⟩) rfl hpl
          refine ⟨t.printf ("Incorrect password. Attempts left: " ++ toString n ++ "\n"), ls, ?_,
            ?_, hlen⟩
          · rw [ht, Option.map_some]
            dsimp only
            rw [if_neg hne]
          · rw [attempt, if_pos hu, decide_eq_false hpw]
      · rw [if_neg hu] at hp
        exact absurd hp List.not_mem_nil

/-! ## The attempts of a run -/

theorem after_succ {k : Nat} {ls ks : List Line} (h : attempt U P ls = some (false, ks)) :
    after U P (k + 1) ls = after U P k ks := by
  rw [after, failed, h]
  rfl

/-- After an attempt that is right, or that is not complete, there is no other. -/
theorem after_none {k : Nat} {ls : List Line}
    (h : ∀ ks, attempt U P ls ≠ some (false, ks)) : after U P (k + 1) ls = none := by
  rw [after, failed]
  cases ha : attempt U P ls with
  | none => rfl
  | some r =>
    obtain ⟨b, ks⟩ := r
    cases b with
    | false => exact absurd ha (h ks)
    | true => rfl

theorem short_succ {n : Nat} {ls : List Line} :
    Short U P (n + 1) ls ↔ (∀ l ∈ readBy U ls, l.str.length ≤ 18) ∧
      ∀ ks, attempt U P ls = some (false, ks) → Short U P n ks := by
  constructor
  · intro h
    refine ⟨h 0 (Nat.succ_pos n) ls rfl, fun ks hks k hk js hjs => ?_⟩
    exact h (k + 1) (Nat.succ_lt_succ hk) js ((after_succ hks).trans hjs)
  · rintro ⟨h0, hs⟩ k hk js hjs
    cases k with
    | zero =>
      obtain rfl : ls = js := Option.some.inj hjs
      exact h0
    | succ k =>
      by_cases hks : ∃ ks, attempt U P ls = some (false, ks)
      · obtain ⟨ks, hks⟩ := hks
        exact hs ks hks k (Nat.lt_of_succ_lt_succ hk) js ((after_succ hks).symm.trans hjs)
      · rw [after_none fun ks h => hks ⟨ks, h⟩] at hjs
        exact absurd hjs (by simp)

/-- The first test of `attempts` finds the input as it is. -/
theorem heads_zero (n : Nat) (s : State) :
    (loginLoop U.str P.str n s).heads[0]? = some s.input := by
  cases n with
  | zero => rfl
  | succ n =>
    rw [loginLoop]
    split <;> rfl

/-- Where the first attempt fails, the others decide. -/
theorem exact_succ {n : Nat} {s : State} {ls ks : List Line} {r : Run} (hs : s.input = typed ls)
    (h : attempt U P ls = some (false, ks)) :
    Exact U P (n + 1) ls { r with heads := s.input :: r.heads } ↔ Exact U P n ks r := by
  have hright : ∀ inp, (∃ k < n + 1, ∃ js rest, after U P k ls = some js ∧
      attempt U P js = some (true, rest) ∧ inp = typed rest) ↔
      ∃ k < n, ∃ js rest, after U P k ks = some js ∧
        attempt U P js = some (true, rest) ∧ inp = typed rest := by
    intro inp
    constructor
    · rintro ⟨k, hk, js, rest, hjs, hrest, hinp⟩
      cases k with
      | zero =>
        obtain rfl : ls = js := Option.some.inj hjs
        rw [h] at hrest
        exact absurd hrest (by simp)
      | succ k =>
        exact ⟨k, Nat.lt_of_succ_lt_succ hk, js, rest, (after_succ h).symm.trans hjs, hrest, hinp⟩
    · rintro ⟨k, hk, js, rest, hjs, hrest, hinp⟩
      exact ⟨k + 1, Nat.succ_lt_succ hk, js, rest, (after_succ h).trans hjs, hrest, hinp⟩
  constructor
  · intro he
    refine ⟨fun inp => (he.returns inp).trans (hright inp), fun k hk => ?_, ?_⟩
    · rw [← after_succ h]
      exact he.counts (k + 1) (Nat.succ_le_succ hk)
    · rw [← after_succ h]
      exact he.denies
  · intro he
    refine ⟨fun inp => (he.returns inp).trans (hright inp).symm, fun k hk => ?_, ?_⟩
    · cases k with
      | zero => exact congrArg some hs
      | succ k =>
        rw [after_succ h]
        exact he.counts k (Nat.le_of_succ_le_succ hk)
    · rw [after_succ h]
      exact he.denies

/-- Where the first attempt is right, or not complete, it decides. -/
theorem exact_last {n : Nat} {ls : List Line} {r : Run} (hh : r.heads = [typed ls])
    (hr : ∀ inp, (r.result = .returns ∧ r.final.input = inp) ↔
      ∃ rest, attempt U P ls = some (true, rest) ∧ inp = typed rest)
    (hd : r.result ≠ .denied) (h : ∀ ks, attempt U P ls ≠ some (false, ks)) :
    Exact U P (n + 1) ls r := by
  refine ⟨fun inp => (hr inp).trans ⟨?_, ?_⟩, fun k _ => ?_, ?_⟩
  · rintro ⟨rest, hrest⟩
    exact ⟨0, Nat.succ_pos n, ls, rest, rfl, hrest⟩
  · rintro ⟨k, -, js, rest, hjs, hrest⟩
    cases k with
    | zero =>
      obtain rfl : ls = js := Option.some.inj hjs
      exact ⟨rest, hrest⟩
    | succ k =>
      rw [after_none h] at hjs
      exact absurd hjs (by simp)
  · rw [hh]
    cases k with
    | zero => rfl
    | succ k => rw [after_none h]; rfl
  · rw [after_none h]
    exact iff_of_false hd (by simp)

/-- **From any input, the loop of `login` follows the attempts exactly when no line is too
long**, by induction on the number of attempts. -/
theorem loginLoop_exact (n : Nat) : ∀ {s : State} {ls : List Line}, s.input = typed ls →
    (Exact U P n ls (loginLoop U.str P.str n s) ↔ Short U P n ls) := by
  induction n with
  | zero =>
    intro s ls hs
    refine iff_of_true ⟨fun inp => ?_, fun k hk => ?_, ?_⟩ fun k hk => absurd hk (Nat.not_lt_zero k)
    · exact iff_of_false (fun h => Result.noConfusion h.1)
        fun ⟨k, hk, _⟩ => absurd hk (Nat.not_lt_zero k)
    · obtain rfl := Nat.le_zero.1 hk
      exact congrArg some hs
    · exact iff_of_true rfl rfl
  | succ n ih =>
    intro s ls hs
    rw [short_succ]
    by_cases hlong : ∃ l ∈ readBy U ls, 18 < l.str.length
    · -- the next test of `attempts` sees the end of the long line
      obtain ⟨t, rest, ht, ha, hlt⟩ := turn_long (n := n) (P := P) hs hlong
      refine iff_of_false (fun he => ?_) fun h => ?_
      · rw [loginLoop, ht] at he
        have h1 := he.counts 1 (Nat.succ_le_succ (Nat.zero_le n))
        rw [after_succ ha] at h1
        have h2 : some t.input = some (typed rest) := (heads_zero n t).symm.trans h1
        rw [Option.some.inj h2] at hlt
        exact lt_irrefl _ hlt
      · obtain ⟨l, hl, hlen⟩ := hlong
        exact absurd (h.1 l hl) (Nat.not_le.2 hlen)
    · have hfit : ∀ l ∈ readBy U ls, l.str.length ≤ 18 :=
        fun l hl => Nat.not_lt.1 fun h => hlong ⟨l, hl, h⟩
      rw [and_iff_right hfit, loginLoop]
      have ht := turn_short (n := n) (P := P) hs hfit
      cases ha : attempt U P ls with
      | none =>
        rw [ha, Option.map_none, Option.map_eq_none_iff] at ht
        rw [ht]
        refine iff_of_true (exact_last (congrArg (fun i => [i]) hs) (fun inp => ?_)
          Result.noConfusion (by simp [ha])) (by simp)
        exact iff_of_false (fun h => Result.noConfusion h.1) (by simp [ha])
      | some r =>
        obtain ⟨b, ks⟩ := r
        rw [ha, Option.map_some, Option.map_eq_some_iff] at ht
        obtain ⟨⟨b', t⟩, ht, hbt⟩ := ht
        obtain ⟨rfl, hin⟩ := Prod.mk.inj hbt
        rw [ht]
        cases b' with
        | true =>
          refine iff_of_true (exact_last (congrArg (fun i => [i]) hs) (fun inp => ?_)
            Result.noConfusion (by simp [ha])) (by simp)
          constructor
          · rintro ⟨-, rfl⟩
            exact ⟨ks, ha, hin⟩
          · rintro ⟨rest, hrest, rfl⟩
            rw [ha] at hrest
            cases hrest
            exact ⟨rfl, hin⟩
        | false =>
          rw [exact_succ hs ha, ih hin]
          constructor
          · rintro h js hjs
            cases hjs
            exact h
          · exact fun h => h ks rfl

/-- **Login accepts exactly the right credentials, attempt by attempt, if and only if no line
that it reads in its three attempts is longer than 18 characters.** -/
theorem login_exact (U P : Credential) (ls : List Line) :
    Exact U P MAX_ATTEMPTS ls (login U.str P.str (typed ls)) ↔ Short U P MAX_ATTEMPTS ls :=
  loginLoop_exact MAX_ATTEMPTS rfl

/-! ## A long line -/

/-- The user name "u" and the password "p". -/
def user : Credential := ⟨[117], by decide, by decide⟩
def password : Credential := ⟨[112], by decide, by decide⟩

/-- Nineteen times "x", then "u". -/
def longName : Line := ⟨List.replicate 19 120 ++ [117], by decide, by decide⟩
def goodPassword : Line := ⟨[112], by decide, by decide⟩

/-- `login` returns though no line is the user name: of the line "xxxxxxxxxxxxxxxxxxxu" the
second prompt finds "u". -/
theorem login_long_line : ¬ Exact user password MAX_ATTEMPTS [longName, goodPassword]
    (login user.str password.str (typed [longName, goodPassword])) := by
  intro h
  have hreturns := (h.returns []).1 (by decide)
  obtain ⟨k, hk, ks, rest, hks, hrest, -⟩ := hreturns
  have hfail : ∀ k < MAX_ATTEMPTS, ∀ ks ∈ after user password k [longName, goodPassword],
      (attempt user password ks).map Prod.fst ≠ some true := by
    decide
  exact hfail k hk ks hks (by rw [hrest]; rfl)

end Xv6.Shell.Login
