/-
How the shell runs a command (`sh.c`).

`runcmd` wires the programs of a command with system calls that take the lowest free
descriptor: a descriptor is closed, and the next `open` or `dup` is trusted to get it. What a
command means is said without descriptors: each program has an input, an output and an error
output, a redirection replaces one of them, and a pipe puts itself between its two sides
(`meaning`). Every process that `runcmd` starts gets just what the meaning says and nothing
else; in particular no end of a pipe is left open in a program that does not use it.

The programs are listed in the order of the command. Which of the calls fail is a parameter.
-/
import Xv6.Shell.Words

set_option autoImplicit false

namespace Xv6.Shell.Parse

open Xv6.Shell.Ulib Xv6.Shell.Chmod

abbrev NOFILE : Nat := 16

/-- A place in a command: the turns that lead there, the last one first. -/
abbrev Place := List Nat

/-- What a descriptor refers to. -/
inductive File where
  /-- A file that the shell has open. -/
  | given (k : Nat)
  | named (file efile mode : Nat)
  /-- The ends of the pipe that the command at a place makes. -/
  | pipeRead (place : Place)
  | pipeWrite (place : Place)
  deriving DecidableEq

/-- `ofile` of a process. -/
abbrev Fds := Nat → Option File

/-- A call of `exec`. -/
structure Exec where
  argv : List (Nat × Nat)
  fds : Fds

/-- Which calls succeed, by the place of the command that makes them. -/
structure World where
  opens : Place → Bool
  pipes : Place → Bool
  forks : Place → Bool
  /-- The second `fork1` of a pipe. -/
  forks2 : Place → Bool

/-! ## System calls -/

/-- The lowest free descriptor. -/
def fdalloc (f : File) (fds : Fds) : Option (Nat × Fds) :=
  ((List.range NOFILE).find? fun fd => (fds fd).isNone).map fun fd =>
    (fd, Function.update fds fd (some f))

def close (fd : Nat) (fds : Fds) : Fds := Function.update fds fd none

/-- `dup`, whose result the shell does not look at. -/
def dup (fd : Nat) (fds : Fds) : Fds :=
  match fds fd with
  | none => fds
  | some f => ((fdalloc f fds).map Prod.snd).getD fds

/-- `pipe(p)`: the two descriptors. -/
def pipe (place : Place) (fds : Fds) : Option (Nat × Nat × Fds) := do
  let (p0, fds) ← fdalloc (.pipeRead place) fds
  let (p1, fds) ← fdalloc (.pipeWrite place) fds
  return (p0, p1, fds)

/-! ## `runcmd` -/

/-- The programs that `runcmd` and the processes it forks execute. Where a call fails, the
process prints a message and exits. -/
def runcmd (world : World) : Place → Cmd → Fds → List Exec
  | _, .exec argv, fds => if argv = [] then [] else [⟨argv, fds⟩]
  | place, .redir cmd file efile mode fd, fds =>
    let fds := close fd fds
    if world.opens place then
      match fdalloc (.named file efile mode) fds with
      | none => []
      | some (_, fds) => runcmd world (0 :: place) cmd fds
    else []
  | place, .list left right, fds =>
    if world.forks place then
      runcmd world (0 :: place) left fds ++ runcmd world (1 :: place) right fds
    else []
  | place, .pipe left right, fds =>
    if world.pipes place then
      match pipe place fds with
      | none => []
      | some (p0, p1, fds) =>
        if world.forks place then
          runcmd world (0 :: place) left (close p1 (close p0 (dup p1 (close 1 fds)))) ++
            if world.forks2 place then
              runcmd world (1 :: place) right (close p1 (close p0 (dup p0 (close 0 fds))))
            else []
        else []
    else []
  | place, .back cmd, fds =>
    if world.forks place then runcmd world (0 :: place) cmd fds else []

/-- The loop at the start of `main`, as far as it gets: `open("console", O_RDWR)` until a
descriptor beyond the first three comes back. -/
def openConsole : Nat → Fds → Fds
  | 0, fds => fds
  | n + 1, fds =>
    match fdalloc (.given 0) fds with
    | none => fds
    | some (fd, fds) => if fd ≥ 3 then close fd fds else openConsole n fds

/-! ## What a command means -/

/-- The three files of a program. -/
structure Std where
  stdin : File
  stdout : File
  stderr : File
  deriving DecidableEq

def Std.fds (std : Std) : Fds
  | 0 => some std.stdin
  | 1 => some std.stdout
  | 2 => some std.stderr
  | _ => none

/-- The redirections of the grammar are of input and output. -/
def Std.redirect (std : Std) (fd : Nat) (f : File) : Std :=
  if fd = 0 then { std with stdin := f } else { std with stdout := f }

/-- The programs of a command, with their files. -/
def meaning (world : World) : Place → Cmd → Std → List (List (Nat × Nat) × Std)
  | _, .exec argv, std => if argv = [] then [] else [(argv, std)]
  | place, .redir cmd file efile mode fd, std =>
    if world.opens place then
      meaning world (0 :: place) cmd (std.redirect fd (.named file efile mode))
    else []
  | place, .list left right, std =>
    if world.forks place then
      meaning world (0 :: place) left std ++ meaning world (1 :: place) right std
    else []
  | place, .pipe left right, std =>
    if world.pipes place ∧ world.forks place then
      meaning world (0 :: place) left { std with stdout := .pipeWrite place } ++
        if world.forks2 place then
          meaning world (1 :: place) right { std with stdin := .pipeRead place }
        else []
    else []
  | place, .back cmd, std =>
    if world.forks place then meaning world (0 :: place) cmd std else []

/-- The redirections are of descriptors 0 and 1. -/
def Cmd.Wired : Cmd → Prop
  | .exec _ => True
  | .redir cmd _ _ _ fd => cmd.Wired ∧ fd < 2
  | .pipe left right => left.Wired ∧ right.Wired
  | .list left right => left.Wired ∧ right.Wired
  | .back cmd => cmd.Wired

/-! ## The wiring -/

variable {world : World} {std : Std} {place : Place} {cmd : Cmd} {fd : Nat} {f : File}

theorem fdalloc_close (std : Std) (hfd : fd < 2) (f : File) :
    fdalloc f (close fd std.fds) = some (fd, (std.redirect fd f).fds) := by
  have hfun : Function.update (close fd std.fds) fd (some f) = (std.redirect fd f).fds := by
    funext i
    rw [close, Function.update_idem, Function.update_apply]
    interval_cases fd
    · match i with
      | 0 | 1 | 2 | n + 3 => rfl
    · match i with
      | 0 | 1 | 2 | n + 3 => rfl
  rw [fdalloc, ← hfun]
  interval_cases fd <;> rfl

theorem pipe_std (place : Place) (std : Std) : pipe place std.fds = some (3, 4,
    Function.update (Function.update std.fds 3 (some (.pipeRead place))) 4
      (some (.pipeWrite place))) := rfl

/-- The left side of a pipe. -/
theorem fds_left (place : Place) (std : Std) :
    close 4 (close 3 (dup 4 (close 1 (Function.update (Function.update std.fds 3
      (some (.pipeRead place))) 4 (some (.pipeWrite place)))))) =
      { std with stdout := File.pipeWrite place : Std }.fds := by
  funext i
  match i with
  | 0 | 1 | 2 | 3 | 4 | n + 5 => rfl

/-- The right side of a pipe. -/
theorem fds_right (place : Place) (std : Std) :
    close 4 (close 3 (dup 3 (close 0 (Function.update (Function.update std.fds 3
      (some (.pipeRead place))) 4 (some (.pipeWrite place)))))) =
      { std with stdin := File.pipeRead place : Std }.fds := by
  funext i
  match i with
  | 0 | 1 | 2 | 3 | 4 | n + 5 => rfl

/-- **The wiring is the meaning.** -/
theorem runcmd_wired (hw : cmd.Wired) (std : Std) :
    runcmd world place cmd std.fds =
      (meaning world place cmd std).map fun r => ⟨r.1, r.2.fds⟩ := by
  induction cmd generalizing place std with
  | exec argv =>
    rw [runcmd, meaning]
    split <;> rfl
  | redir cmd file efile mode fd ih =>
    rw [runcmd, meaning]
    split
    · simp only [fdalloc_close std hw.2]
      exact ih hw.1 _
    · rfl
  | list left right ihl ihr =>
    rw [runcmd, meaning]
    split
    · rw [ihl hw.1, ihr hw.2, List.map_append]
    · rfl
  | pipe left right ihl ihr =>
    rw [runcmd, meaning]
    by_cases hp : world.pipes place = true
    · by_cases hf : world.forks place = true
      · rw [if_pos hp, if_pos ⟨hp, hf⟩, pipe_std]
        simp only [hf, if_true]
        rw [fds_left, fds_right, ihl hw.1, ihr hw.2, List.map_append]
        split <;> rfl
      · rw [if_pos hp, if_neg fun h => hf h.2, pipe_std]
        simp only [hf, Bool.false_eq_true, if_false, List.map_nil]
    · rw [if_neg hp, if_neg fun h => hp h.1, List.map_nil]
  | back cmd ih =>
    rw [runcmd, meaning]
    split
    · exact ih hw _
    · rfl

/-! ## Command lines -/

theorem wired_arg {q eq : Nat} (h : cmd.Wired) : (cmd.arg q eq).Wired := by
  induction cmd with
  | exec => trivial
  | redir cmd file efile mode fd ih => exact ⟨ih h.1, h.2⟩
  | pipe | list | back => exact h

theorem wired_redirs {rs : List Redir} (h : cmd.Wired) : (redirs cmd rs).Wired := by
  induction rs generalizing cmd with
  | nil => exact h
  | cons r rs ih =>
    refine ih ?_
    show (redircmd _ _ _ _).Wired
    rw [redircmd]
    split
    · exact ⟨h, by decide⟩
    · exact ⟨h, by decide⟩

theorem wired_args {as : List Arg} (h : cmd.Wired) : (args cmd as).Wired := by
  induction as generalizing cmd with
  | nil => exact h
  | cons a as ih => exact ih (wired_redirs (wired_arg h))

theorem wired_backs {k : Nat} (h : cmd.Wired) : (Cmd.back^[k] cmd).Wired := by
  induction k generalizing cmd with
  | zero => exact h
  | succ k ih => exact ih h

theorem Syn.wired {k : Level} (x : Syn k) : x.cmd.Wired := by
  induction x with
  | simple rs as => exact wired_args (wired_redirs trivial)
  | block l rs ih => exact wired_redirs ih
  | one e ih => exact ih
  | pipe e p ihe ihp => exact ⟨ihe, ihp⟩
  | stop p k ih => exact wired_backs ih
  | seq p k l ihp ihl => exact ⟨wired_backs ihp, ihl⟩

/-- A table with at most the first three descriptors open. -/
def three (a b c : Option File) : Fds
  | 0 => a
  | 1 => b
  | 2 => c
  | _ => none

theorem eq_three {fds : Fds} (h : ∀ i, fds (i + 3) = none) :
    fds = three (fds 0) (fds 1) (fds 2) := by
  funext i
  match i with
  | 0 | 1 | 2 => rfl
  | i + 3 => exact h i

/-- `main` makes sure that the first three descriptors are open. -/
theorem openConsole_std {fds : Fds} (h : ∀ i, fds (i + 3) = none) :
    openConsole 4 fds = (Std.mk ((fds 0).getD (.given 0)) ((fds 1).getD (.given 0))
      ((fds 2).getD (.given 0))).fds := by
  rw [eq_three h]
  generalize fds 0 = a, fds 1 = b, fds 2 = c
  cases a <;> cases b <;> cases c <;> funext i <;>
    match i with
    | 0 | 1 | 2 | 3 | n + 4 => rfl

/-- **A command line runs as it is meant**: from a shell with nothing but the first three
descriptors, each program of the line gets the three files that its redirections and pipes
say, and no other. -/
theorem runs_meant {line buf : List Byte} (fds : Fds) (h0 : 0 ∉ line)
    (h : parsecmd line = .ok (cmd, buf)) (hfds : ∀ i, fds (i + 3) = none) (world : World) :
    ∃ std : Std, openConsole 4 fds = std.fds ∧ runcmd world [] cmd (openConsole 4 fds) =
      (meaning world [] cmd std).map fun r => ⟨r.1, r.2.fds⟩ := by
  have hstd := openConsole_std hfds
  obtain ⟨x, -, -, rfl, -⟩ := ((parsecmd_iff h0).1 cmd buf).1 h
  exact ⟨_, hstd, by rw [hstd, runcmd_wired x.wired]⟩

/-- No call fails. -/
def World.good : World := ⟨fun _ => true, fun _ => true, fun _ => true, fun _ => true⟩

theorem runs_meant_pipeline : ∃ std : Std,
    runcmd .good [] (.back (.pipe (.exec [(0, 2)]) (.redir (.exec [(3, 5)]) 6 7 513 1)))
      (openConsole 4 fun _ => none) = (meaning .good [] (.back (.pipe (.exec [(0, 2)])
        (.redir (.exec [(3, 5)]) 6 7 513 1))) std).map fun r => ⟨r.1, r.2.fds⟩ := by
  have hp : parsecmd (bytes "ls|wc>f&") = .ok
      (.back (.pipe (.exec [(0, 2)]) (.redir (.exec [(3, 5)]) 6 7 513 1)),
        [108, 115, 0, 119, 99, 0, 102, 0]) := rfl
  obtain ⟨std, -, h⟩ := runs_meant (fun _ => none) (by decide) hp (fun _ => rfl) .good
  exact ⟨std, h⟩

/-! ## Several redirections -/

theorem arg_redirs {q eq : Nat} (rs : List Redir) :
    (redirs cmd rs).arg q eq = redirs (cmd.arg q eq) rs := by
  induction rs generalizing cmd with
  | nil => rfl
  | cons r rs ih =>
    refine ih.trans ?_
    show redirs ((redircmd cmd r.tok r.q r.eq).arg q eq) rs =
      redirs (redircmd (cmd.arg q eq) r.tok r.q r.eq) rs
    rw [redircmd, redircmd]
    split <;> rfl

/-- The redirections of a simple command are around its arguments, wherever they stand. -/
theorem args_redirs (argv : List (Nat × Nat)) (rs : List Redir) (as : List Arg) :
    args (redirs (.exec argv) rs) as = redirs (.exec (argv ++ as.map fun a => (a.q, a.eq)))
      (rs ++ as.flatMap Arg.rs) := by
  induction as generalizing argv rs with
  | nil => simp [args]
  | cons a as ih =>
    have hcons : args (redirs (.exec argv) rs) (a :: as) =
        args (redirs ((redirs (.exec argv) rs).arg a.q a.eq) a.rs) as := rfl
    have happend : ∀ (c : Cmd) (rs rs' : List Redir), redirs (redirs c rs) rs' =
        redirs c (rs ++ rs') := fun c rs rs' => List.foldl_append.symm
    rw [hcons, arg_redirs, happend, Cmd.arg, ih, List.append_assoc, List.append_assoc]
    rfl

def Redir.isInput (r : Redir) : Bool := decide (r.tok = chr '<')

def Redir.file (r : Redir) : File :=
  .named r.q r.eq (if r.isInput then O_RDONLY else O_WRONLY ||| O_CREATE)

/-- The files of a program when the first redirection of each kind counts. -/
def Std.redirected (std : Std) (rs : List Redir) : Std where
  stdin := ((rs.find? Redir.isInput).map Redir.file).getD std.stdin
  stdout := ((rs.find? fun r => !r.isInput).map Redir.file).getD std.stdout
  stderr := std.stderr

/-- The files of a program with one more redirection around it. -/
def Std.around (std : Std) (r : Redir) : Std :=
  if r.isInput then { std with stdin := r.file } else { std with stdout := r.file }

theorem meaning_redircmd (hopen : ∀ place, world.opens place = true) (r : Redir) :
    meaning world place (redircmd cmd r.tok r.q r.eq) std =
      meaning world (0 :: place) cmd (std.around r) := by
  rw [redircmd, Std.around, Redir.file, Redir.isInput]
  by_cases hr : r.tok = chr '<'
  · rw [if_pos hr, meaning, if_pos (hopen place), decide_eq_true hr]
    rfl
  · rw [if_neg hr, meaning, if_pos (hopen place), decide_eq_false hr]
    rfl

theorem redirected_append (std : Std) (rs : List Redir) (r : Redir) :
    std.redirected (rs ++ [r]) = (std.around r).redirected rs := by
  rw [Std.redirected, Std.redirected, Std.around, List.find?_append, List.find?_append]
  cases hr : r.isInput
  · cases rs.find? Redir.isInput <;> cases rs.find? (fun r => !r.isInput) <;> simp [hr]
  · cases rs.find? Redir.isInput <;> cases rs.find? (fun r => !r.isInput) <;> simp [hr]

/-- **The first redirection counts**: of several redirections of the input, or of the output,
of a simple command the program gets the first one of the line. -/
theorem first_redirection (hopen : ∀ place, world.opens place = true) (rs : List Redir)
    (as : List Arg) (std : Std) : meaning world place (Syn.simple rs as).cmd std =
      if as = [] then []
      else [(as.map fun a => (a.q, a.eq), std.redirected (rs ++ as.flatMap Arg.rs))] := by
  rw [Syn.cmd, args_redirs, List.nil_append]
  generalize rs ++ as.flatMap Arg.rs = rs'
  induction rs' using List.reverseRecOn generalizing place std with
  | nil =>
    cases as <;> rfl
  | append_singleton rs' r ih =>
    have hlast : redirs (.exec (as.map fun a => (a.q, a.eq))) (rs' ++ [r]) =
        redircmd (redirs (.exec (as.map fun a => (a.q, a.eq))) rs') r.tok r.q r.eq := by
      rw [redirs, List.foldl_append]
      rfl
    rw [hlast, meaning_redircmd hopen, ih, redirected_append]

theorem first_redirection_twice :
    meaning .good [] (Syn.simple [] [⟨0, 4, [⟨chr '>', 7, 8⟩, ⟨chr '>', 11, 12⟩]⟩]).cmd
      ⟨.given 0, .given 1, .given 2⟩ = [([(0, 4)], ⟨.given 0, .named 7 8 513, .given 2⟩)] :=
  first_redirection (fun _ => rfl) [] _ _

end Xv6.Shell.Parse
