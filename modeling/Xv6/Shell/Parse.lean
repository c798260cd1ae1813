/-
The parser of the shell (`sh.c`).

A position in the line stands for a pointer into it, and a word is the pair of positions
where it starts and ends; `nulterminate` puts a zero byte at each end. `panic` prints its
message and ends the process. `malloc` is taken to succeed.

The recursion of the code is bounded here by a number, which `parsecmd` takes from the
length of the line.
-/
import Xv6.Shell.Chmod

set_option autoImplicit false

namespace Xv6.Shell.Parse

open Xv6.Shell.Ulib Xv6.Shell.Chmod

abbrev MAXARGS : Nat := 10

abbrev O_RDONLY : Nat := 0x000
abbrev O_WRONLY : Nat := 0x001
abbrev O_CREATE : Nat := 0x200

/-- `struct cmd`. The arguments of `exec` are the pairs of `argv` and `eargv`. -/
inductive Cmd where
  | exec (argv : List (Nat × Nat))
  | redir (cmd : Cmd) (file efile mode fd : Nat)
  | pipe (left right : Cmd)
  | list (left right : Cmd)
  | back (cmd : Cmd)
  deriving DecidableEq

/-- One more argument for the `execcmd` under the redirections of `ret`. -/
def Cmd.arg (q eq : Nat) : Cmd → Cmd
  | .exec argv => .exec (argv ++ [(q, eq)])
  | .redir cmd file efile mode fd => .redir (cmd.arg q eq) file efile mode fd
  | cmd => cmd

inductive Stop where
  | panic (msg : String)
  | fuel
  deriving DecidableEq

def chr (c : Char) : Byte := BitVec.ofNat 8 c.toNat

def whitespace : List Byte := [32, 9, 13, 10, 11]

def symbols : List Byte := bytes "<|>&;()"

/-- Whether `strchr` finds the character. -/
def strchr (s : List Byte) (c : Byte) : Bool := s.contains c

theorem strchr_iff {s : List Byte} {c : Byte} : strchr s c = true ↔ c ∈ s := List.contains_iff_mem

theorem strchr_eq_false {s : List Byte} {c : Byte} : strchr s c = false ↔ c ∉ s := by
  rw [← Bool.not_eq_true, strchr_iff]

def isBlank (c : Byte) : Bool := strchr whitespace c

def isWord (c : Byte) : Bool := !strchr whitespace c && !strchr symbols c

theorem isWord_iff {c : Byte} : isWord c = true ↔ c ∉ whitespace ∧ c ∉ symbols := by
  rw [isWord, Bool.and_eq_true, Bool.not_eq_true', Bool.not_eq_true', strchr_eq_false,
    strchr_eq_false]

/-- `*s`. -/
def char (line : List Byte) (s : Nat) : Byte := line.getD s 0

/-- `while(s < es && p(*s)) s++`. -/
def skip (p : Byte → Bool) (line : List Byte) (s : Nat) : Nat :=
  s + ((line.drop s).takeWhile p).length

/-- What `gettoken` returns and writes. -/
structure Got where
  ret : Byte
  q : Nat
  eq : Nat
  s : Nat

def gettoken (line : List Byte) (s : Nat) : Got :=
  let q := skip isBlank line s
  let c := char line q
  let (ret, eq) :=
    if c = 0 then (c, q)
    else if strchr (bytes "|();&<") c then (c, q + 1)
    else if c = chr '>' then
      if char line (q + 1) = chr '>' then (chr '+', q + 2) else (c, q + 1)
    else (chr 'a', skip isWord line q)
  ⟨ret, q, eq, skip isBlank line eq⟩

def peek (line : List Byte) (toks : String) (s : Nat) : Bool × Nat :=
  let s := skip isBlank line s
  (char line s != 0 && strchr (bytes toks) (char line s), s)

/-- One turn of the loop of `parseredirs`. -/
def redircmd (cmd : Cmd) (tok : Byte) (q eq : Nat) : Cmd :=
  if tok = chr '<' then .redir cmd q eq O_RDONLY 0
  else .redir cmd q eq (O_WRONLY ||| O_CREATE) 1

def parseredirs (line : List Byte) : Nat → Cmd → Nat → Except Stop (Cmd × Nat)
  | 0, _, _ => .error .fuel
  | n + 1, cmd, s =>
    let (more, s) := peek line "<>" s
    if more then
      let tok := gettoken line s
      let file := gettoken line tok.s
      if file.ret ≠ chr 'a' then .error (.panic "missing file for redirection")
      else parseredirs line n (redircmd cmd tok.ret file.q file.eq) file.s
    else .ok (cmd, s)

/-- The loop of `parseexec`, with `argc` arguments so far. -/
def parseargs (line : List Byte) : Nat → Nat → Cmd → Nat → Except Stop (Cmd × Nat)
  | 0, _, _, _ => .error .fuel
  | n + 1, argc, ret, s =>
    let (stop, s) := peek line "|)&;" s
    if stop then .ok (ret, s)
    else
      let tok := gettoken line s
      if tok.ret = 0 then .ok (ret, tok.s)
      else if tok.ret ≠ chr 'a' then .error (.panic "syntax")
      else if argc + 1 ≥ MAXARGS then .error (.panic "too many args")
      else do
        let (ret, s) ← parseredirs line n (ret.arg tok.q tok.eq) tok.s
        parseargs line n (argc + 1) ret s

/-- `while(peek(ps, es, "&"))` in `parseline`. -/
def parsebacks (line : List Byte) : Nat → Cmd → Nat → Except Stop (Cmd × Nat)
  | 0, _, _ => .error .fuel
  | n + 1, cmd, s =>
    let (more, s) := peek line "&" s
    if more then parsebacks line n (.back cmd) (gettoken line s).s else .ok (cmd, s)

mutual

def parseline (line : List Byte) : Nat → Nat → Except Stop (Cmd × Nat)
  | 0, _ => .error .fuel
  | n + 1, s => do
    let (cmd, s) ← parsepipe line n s
    let (cmd, s) ← parsebacks line n cmd s
    let (more, s) := peek line ";" s
    if more then do
      let (right, s) ← parseline line n (gettoken line s).s
      return (.list cmd right, s)
    else return (cmd, s)
termination_by structural n _ => n

def parsepipe (line : List Byte) : Nat → Nat → Except Stop (Cmd × Nat)
  | 0, _ => .error .fuel
  | n + 1, s => do
    let (cmd, s) ← parseexec line n s
    let (more, s) := peek line "|" s
    if more then do
      let (right, s) ← parsepipe line n (gettoken line s).s
      return (.pipe cmd right, s)
    else return (cmd, s)
termination_by structural n _ => n

def parseexec (line : List Byte) : Nat → Nat → Except Stop (Cmd × Nat)
  | 0, _ => .error .fuel
  | n + 1, s => do
    let (block, s) := peek line "(" s
    if block then parseblock line n s
    else do
      let (ret, s) ← parseredirs line n (.exec []) s
      parseargs line n 0 ret s
termination_by structural n _ => n

def parseblock (line : List Byte) : Nat → Nat → Except Stop (Cmd × Nat)
  | 0, _ => .error .fuel
  | n + 1, s => do
    let (block, s) := peek line "(" s
    if block = false then .error (.panic "parseblock")
    else do
      let (cmd, s) ← parseline line n (gettoken line s).s
      let (closed, s) := peek line ")" s
      if closed = false then .error (.panic "syntax - missing )")
      else parseredirs line n cmd (gettoken line s).s
termination_by structural n _ => n

end

/-- The words of a command, in the order in which `nulterminate` comes to them. -/
def Cmd.words : Cmd → List (Nat × Nat)
  | .exec argv => argv
  | .redir cmd file efile _ _ => cmd.words ++ [(file, efile)]
  | .pipe left right => left.words ++ right.words
  | .list left right => left.words ++ right.words
  | .back cmd => cmd.words

/-- A zero byte at the end of each word. At its own end the line has one already. -/
def nulterminate (cmd : Cmd) (line : List Byte) : List Byte :=
  cmd.words.foldl (fun line w => line.set w.2 0) line

def parsecmd (line : List Byte) : Except Stop (Cmd × List Byte) := do
  let (cmd, s) ← parseline line (4 * (line.length + 2)) 0
  let (_, s) := peek line "" s
  if s ≠ line.length then .error (.panic "syntax") else return (cmd, nulterminate cmd line)

end Xv6.Shell.Parse
