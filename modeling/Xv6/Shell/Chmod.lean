/-
The built-in command `chmod` of the shell (`sh.c`).

`strtok_xv6` ends a token at every delimiter, so of two blanks in a row the second one
gives the empty token. `builtin_chmod` takes the second and the third token, whatever they
are. The empty path is a path: `namei` finds the current directory for it.
-/
import Mathlib
import Xv6.Shell.Ulib

set_option autoImplicit false

namespace Xv6.Shell.Chmod

open Xv6.Shell.Ulib

/-- The characters of a string. -/
def bytes (s : String) : List Byte := s.toList.map fun c => BitVec.ofNat 8 c.toNat

/-! ## The shell -/

/-- A system call that the shell makes; `fork` stands for every command that is not built
in. -/
inductive Call where
  | chdir (path : List Byte)
  | gethistory
  | block (syscall_id : BitVec 32)
  | unblock (syscall_id : BitVec 32)
  | chmod (path : List Byte) (mode : BitVec 32)
  | fork
  | exit
  deriving DecidableEq

/-- The buffer that `strtok_xv6` cuts up, and its `next_token`: a position in it. -/
structure Tok where
  buf : List Byte
  next_token : Option Nat

/-- The string at a position of the buffer. -/
def Tok.str (t : Tok) (p : Nat) : List Byte := cstr (t.buf.drop p)

/-- The loop of `strtok_xv6` on the buffer from position `p` on: where it finds a delimiter. -/
def delimiter (delim : List Byte) : Nat → List Byte → Option Nat
  | _, [] => none
  | p, c :: s =>
    if c = 0 then none
    else if c ∈ delim then some p
    else delimiter delim (p + 1) s

/-- `strtok_xv6`, with the positions of the strings for the strings. -/
def strtok_xv6 (s : Option Nat) (delim : List Byte) (t : Tok) : Option Nat × Tok :=
  match s.or t.next_token with
  | none => (none, t)
  | some p =>
    if (t.buf.drop p).headD 0 = 0 then (none, { t with next_token := some p })
    else
      match delimiter delim p (t.buf.drop p) with
      | some q => (some p, { buf := t.buf.set q 0, next_token := some (q + 1) })
      | none => (some p, { t with next_token := none })

/-- `builtin_chmod` on `buf`, the buffer of `t`. -/
def builtin_chmod (t : Tok) : List Call × Tok :=
  let (_, t) := strtok_xv6 (some 0) (bytes " \n") t
  let (filename, t) := strtok_xv6 none (bytes " \n") t
  let (modeStr, t) := strtok_xv6 none (bytes " \n") t
  match filename, modeStr with
  | some filename, some modeStr => ([.chmod (t.str filename) (atoi (t.str modeStr))], t)
  | _, _ => ([], t)

def my_strncmp : Nat → List Byte → List Byte → Int
  | 0, _, _ => 0
  | n + 1, s1, s2 =>
    if s1.headD 0 ≠ s2.headD 0 then (s1.headD 0).toNat - (s2.headD 0).toNat
    else if s1.headD 0 = 0 then 0
    else my_strncmp n s1.tail s2.tail

/-- What the loop of `main` does with a command line in `buf`. -/
def command (t : Tok) : List Call × Tok :=
  if t.buf.take 3 = bytes "cd " then
    let buf := t.buf.set (strlen t.buf - 1) 0
    ([.chdir (cstr (buf.drop 3))], { t with buf := buf })
  else if my_strncmp 7 t.buf (bytes "history") = 0 then ([.gethistory], t)
  else if my_strncmp 5 t.buf (bytes "block") = 0 then ([.block (atoi (t.buf.drop 6))], t)
  else if my_strncmp 7 t.buf (bytes "unblock") = 0 then ([.unblock (atoi (t.buf.drop 8))], t)
  else if my_strncmp 5 t.buf (bytes "chmod") = 0 then builtin_chmod t
  else ([.fork], t)

/-- The size of `buf` in `main`. -/
abbrev SIZE : Nat := 100

structure Sh where
  /-- What the reads of the standard input will give. -/
  input : Input
  tok : Tok

/-- One turn of the loop of `main`: the calls it makes; `none` while it waits for input. -/
def turn (s : Sh) : Option (List Call × Sh) :=
  (gets SIZE s.input).map fun (buf, rest) =>
    if buf.headD 0 = 0 then ([.exit], { input := rest, tok := { s.tok with buf := buf } })
    else
      let (calls, t) := command { s.tok with buf := buf }
      (calls, { input := rest, tok := t })

/-! ## The kernel -/

abbrev DIRSIZ : Nat := 14

def slash (c : Byte) : Bool := decide (c = 47)

/-- `skipelem`: the first element of a path, as far as `name` has room, and the path after
it. -/
def skipelem (path : List Byte) : Option (List Byte × List Byte) :=
  let path := path.dropWhile slash
  if path = [] then none
  else
    let s := path.takeWhile fun c => !slash c
    let path := path.dropWhile fun c => !slash c
    some (s.take DIRSIZ, path.dropWhile slash)

theorem skipelem_lt {path name rest : List Byte} (h : skipelem path = some (name, rest)) :
    rest.length < path.length := by
  unfold skipelem at h
  dsimp only at h
  have hle : (path.dropWhile slash).length ≤ path.length := List.length_dropWhile_le slash path
  have hhead := List.head?_dropWhile_not slash path
  cases hq : path.dropWhile slash with
  | nil => rw [hq, if_pos rfl] at h; exact absurd h (by simp)
  | cons c q =>
    rw [hq] at h hle hhead
    rw [if_neg (List.cons_ne_nil c q)] at h
    obtain ⟨-, rfl⟩ := Prod.mk.inj (Option.some.inj h)
    have hc : slash c = false := by simpa using hhead
    calc ((((c :: q).dropWhile fun c => !slash c).dropWhile slash)).length
        ≤ ((c :: q).dropWhile fun c => !slash c).length := List.length_dropWhile_le _ _
      _ = (q.dropWhile fun c => !slash c).length := by
          rw [List.dropWhile_cons_of_pos (by rw [hc]; rfl)]
      _ ≤ q.length := List.length_dropWhile_le _ _
      _ < (c :: q).length := Nat.lt_succ_self _
      _ ≤ path.length := hle

/-- A file system, as far as paths and modes go. -/
structure Fs (Inode : Type) where
  root : Inode
  isDir : Inode → Bool
  dirlookup : Inode → List Byte → Option Inode
  mode : Inode → BitVec 32

variable {Inode : Type}

/-- The loop of `namex`. -/
def namexLoop (fs : Fs Inode) (path : List Byte) (ip : Inode) : Option Inode :=
  match _h : skipelem path with
  | none => some ip
  | some (name, rest) =>
    if fs.isDir ip then
      match fs.dirlookup ip name with
      | none => none
      | some next => namexLoop fs rest next
    else none
termination_by path.length
decreasing_by exact skipelem_lt _h

/-- `namei` for a process in the directory `cwd`. -/
def namei (fs : Fs Inode) (cwd : Inode) (path : List Byte) : Option Inode :=
  namexLoop fs path (if path.head? = some 47 then fs.root else cwd)

/-- The empty path is that of the current directory. -/
theorem namei_nil (fs : Fs Inode) (cwd : Inode) : namei fs cwd [] = some cwd := by
  unfold namei
  rw [namexLoop]
  rfl

variable [DecidableEq Inode]

/-- `sys_chmod`: what it returns, and the file system. -/
def sys_chmod (cwd : Inode) (path : List Byte) (mode : BitVec 32) (fs : Fs Inode) : Int × Fs Inode :=
  match namei fs cwd path with
  | none => (-1, fs)
  | some ip => (0, { fs with mode := Function.update fs.mode ip (mode &&& 7) })

/-- The file system after a system call of a shell in the directory `cwd`. -/
def Call.run (cwd : Inode) (fs : Fs Inode) : Call → Fs Inode
  | .chmod path mode => (sys_chmod cwd path mode fs).2
  | _ => fs

/-- A chmod changes at most the mode of the file that its path names. -/
theorem sys_chmod_mode {cwd ip : Inode} {path : List Byte} {mode : BitVec 32} {fs : Fs Inode}
    (h : (sys_chmod cwd path mode fs).2.mode ip ≠ fs.mode ip) : namei fs cwd path = some ip := by
  unfold sys_chmod at h
  split at h
  · exact absurd rfl h
  · rename_i jp hjp
    by_cases hij : ip = jp
    · rw [hjp, hij]
    · exact absurd (Function.update_of_ne hij _ _) h

/-! ## Command lines -/

/-- A further word of a command line, with the blanks before it. -/
structure Arg where
  blanks : Nat
  sep : 0 < blanks
  word : List Byte
  nonempty : word ≠ []
  plain : ∀ c ∈ word, c ≠ 0 ∧ c ≠ 32 ∧ Plain c

/-- A command line: `chmod`, the words after it, and the blanks after these. -/
structure Cmdline where
  args : List Arg
  trailing : Nat

def Arg.str (a : Arg) : List Byte := List.replicate a.blanks 32 ++ a.word

def Cmdline.str (l : Cmdline) : List Byte :=
  bytes "chmod" ++ l.args.flatMap Arg.str ++ List.replicate l.trailing 32

/-- The input when this line has been typed, and `rest` after it. -/
def Cmdline.typed (l : Cmdline) (rest : Input) : Input := l.str.map some ++ some 10 :: rest

/-- The number that the decimal digits at the start of a word stand for. -/
def decimal (w : List Byte) : Nat :=
  (w.takeWhile fun c => decide (48 ≤ c.toNat ∧ c.toNat ≤ 57)).foldl
    (fun n c => n * 10 + (c.toNat - 48)) 0

/-- The calls that a command line asks for. -/
def Cmdline.expected (l : Cmdline) : List Call :=
  match l.args with
  | path :: mode :: _ => [.chmod path.word (BitVec.ofNat 32 (decimal mode.word))]
  | _ => []

/-- **The line is parsed by words**, when the shell makes `calls` for it and leaves the
input `left` for the next command line. -/
structure ByWords (l : Cmdline) (rest : Input) (calls : List Call) (left : Input) : Prop where
  asked : calls = l.expected
  /-- Only the mode of the file that the first of the words names can change. -/
  modes : ∀ (Inode : Type) [DecidableEq Inode] (fs : Fs Inode) (cwd ip : Inode),
    (calls.foldl (Call.run cwd) fs).mode ip ≠ fs.mode ip →
      ∃ path mode more, l.args = path :: mode :: more ∧ namei fs cwd path.word = some ip
  /-- The line is one command line. -/
  line : left = rest

/-- The blanks of a line do not give empty tokens that matter: there is one blank before
the first word, and one before the second if its value is not 0 anyway; a line with fewer
words has no blank at its end, except for one after `chmod` alone. -/
def Spaced (l : Cmdline) : Prop :=
  match l.args with
  | [] => l.trailing ≤ 1
  | [path] => path.blanks = 1 ∧ l.trailing = 0
  | path :: mode :: _ =>
    path.blanks = 1 ∧ (mode.blanks = 1 ∨ BitVec.ofNat 32 (decimal mode.word) = 0)

/-! ## Tokens -/

/-- A byte at which `strtok_xv6` ends a token. -/
abbrev Delim (c : Byte) : Prop := c ∈ bytes " \n"

/-- No byte of `f` ends a token or the string. -/
abbrev Field (f : List Byte) : Prop := ∀ c ∈ f, c ≠ 0 ∧ ¬ Delim c

theorem Field.noNul {f : List Byte} (hf : Field f) : 0 ∉ f := fun h => (hf 0 h).1 rfl

theorem delim_ne_zero {d : Byte} (hd : Delim d) : d ≠ 0 := by
  rintro rfl
  exact absurd hd (by decide)

theorem delimiter_field {f : List Byte} {d : Byte} (r : List Byte) (hd : Delim d) (p : Nat)
    (hf : Field f) : delimiter (bytes " \n") p (f ++ d :: r) = some (p + f.length) := by
  induction f generalizing p with
  | nil => rw [List.nil_append, delimiter, if_neg (delim_ne_zero hd), if_pos hd]; rfl
  | cons c f ih =>
    obtain ⟨h0, hc⟩ := hf c List.mem_cons_self
    rw [List.cons_append, delimiter, if_neg h0, if_neg hc,
      ih (p + 1) fun b hb => hf b (List.mem_cons_of_mem _ hb), List.length_cons]
    congr 1
    omega

/-- **A token ends at the next delimiter**, also if there is nothing before it. The part of
the buffer up to that delimiter is done with. -/
theorem strtok_field {s n : Option Nat} {pre f : List Byte} {d : Byte} (r : List Byte)
    (hn : s.or n = some pre.length) (hf : Field f) (hd : Delim d) :
    strtok_xv6 s (bytes " \n") ⟨pre ++ (f ++ d :: r), n⟩ =
      (some pre.length, ⟨(pre ++ (f ++ [0])) ++ r, some (pre ++ (f ++ [0])).length⟩) := by
  have hne : (f ++ d :: r).headD 0 ≠ 0 := by
    cases f with
    | nil => exact delim_ne_zero hd
    | cons c f => exact (hf c List.mem_cons_self).1
  have hset : (pre ++ (f ++ d :: r)).set (pre.length + f.length) 0 = (pre ++ (f ++ [0])) ++ r := by
    rw [List.set_append_right _ _ (Nat.le_add_right _ _), Nat.add_sub_cancel_left,
      List.set_append_right _ _ le_rfl, Nat.sub_self, List.set_cons_zero]
    simp
  unfold strtok_xv6
  rw [hn]
  dsimp only
  rw [List.drop_left, if_neg hne, delimiter_field r hd _ hf]
  dsimp only
  rw [hset, List.length_append, List.length_append, List.length_singleton, Nat.add_assoc]

/-- At the end of the string there is no token. -/
theorem strtok_end (pre : List Byte) :
    strtok_xv6 none (bytes " \n") ⟨pre, some pre.length⟩ = (none, ⟨pre, some pre.length⟩) := by
  unfold strtok_xv6
  rw [Option.none_or]
  dsimp only
  rw [List.drop_length, if_pos (show ([] : List Byte).headD 0 = 0 from rfl)]

/-- The token of a field of the buffer. -/
theorem str_field {pre f : List Byte} (r : List Byte) {n : Option Nat} (hf : Field f) :
    Tok.str ⟨pre ++ (f ++ 0 :: r), n⟩ pre.length = f := by
  unfold Tok.str
  rw [List.drop_left]
  exact cstr_append r hf.noNul

section Fields

variable {f g u r : List Byte} {d e b : Byte} {n : Option Nat}

/-- A line of one field makes no call. -/
theorem builtin_one (hf : Field f) (hd : Delim d) :
    (builtin_chmod ⟨f ++ [d], n⟩).1 = [] := by
  unfold builtin_chmod
  rw [← List.nil_append (f ++ [d]), strtok_field [] rfl hf hd]
  dsimp only
  rw [List.append_nil, strtok_end]

/-- Nor does a line of two fields. -/
theorem builtin_two (hf : Field f) (hd : Delim d) (hg : Field g) (he : Delim e) :
    (builtin_chmod ⟨f ++ d :: (g ++ [e]), n⟩).1 = [] := by
  unfold builtin_chmod
  rw [← List.nil_append (f ++ d :: (g ++ [e])), strtok_field _ rfl hf hd]
  dsimp only
  rw [strtok_field [] rfl hg he]
  dsimp only
  rw [List.append_nil, strtok_end]

/-- **The call of a line with more fields is that of the second and the third field.** -/
theorem builtin_three (hf : Field f) (hd : Delim d) (hg : Field g) (he : Delim e)
    (hu : Field u) (hb : Delim b) :
    (builtin_chmod ⟨f ++ d :: (g ++ e :: (u ++ b :: r)), n⟩).1 = [.chmod g (atoi u)] := by
  unfold builtin_chmod
  rw [← List.nil_append (f ++ d :: _), strtok_field _ rfl hf hd]
  dsimp only
  rw [strtok_field _ rfl hg he]
  dsimp only
  rw [strtok_field _ rfl hu hb]
  dsimp only
  -- the buffer, as each of the two tokens sees it
  have hbuf1 : ([] ++ (f ++ [0]) ++ (g ++ [0]) ++ (u ++ [0]) ++ r : List Byte) =
      ([] ++ (f ++ [0])) ++ (g ++ 0 :: (u ++ [0] ++ r)) := by simp
  have hbuf2 : ([] ++ (f ++ [0]) ++ (g ++ [0]) ++ (u ++ [0]) ++ r : List Byte) =
      ([] ++ (f ++ [0]) ++ (g ++ [0])) ++ (u ++ 0 :: r) := by simp
  congr 2
  · rw [hbuf1, str_field _ hg]
  · rw [hbuf2, str_field _ hu]

end Fields

/-! ## Numbers -/

/-- One digit more. -/
theorem digit_step {m : Nat} {c : Byte} (hc : 48 ≤ c.toNat ∧ c.toNat ≤ 57) :
    BitVec.ofNat 32 m * 10 + c.setWidth 32 - 48 = BitVec.ofNat 32 (m * 10 + (c.toNat - 48)) := by
  have h10 : (10 : BitVec 32).toNat = 10 := rfl
  have h48 : (48 : BitVec 32).toNat = 48 := rfl
  apply BitVec.eq_of_toNat_eq
  rw [BitVec.toNat_sub, BitVec.toNat_add, BitVec.toNat_mul, BitVec.toNat_ofNat,
    BitVec.toNat_ofNat, BitVec.toNat_setWidth, h10, h48]
  omega

theorem atoiLoop_eq (w : List Byte) : ∀ m : Nat, atoiLoop (BitVec.ofNat 32 m) w =
    BitVec.ofNat 32 ((w.takeWhile fun c => decide (48 ≤ c.toNat ∧ c.toNat ≤ 57)).foldl
      (fun n c => n * 10 + (c.toNat - 48)) m) := by
  induction w with
  | nil => intro m; rfl
  | cons c w ih =>
    intro m
    rw [atoiLoop, List.takeWhile_cons]
    by_cases hc : 48 ≤ c.toNat ∧ c.toNat ≤ 57
    · rw [if_pos hc, if_pos (decide_eq_true hc), digit_step hc, ih]
      rfl
    · rw [if_neg hc, if_neg (fun h => hc (of_decide_eq_true h))]
      rfl

/-- `atoi` gives the decimal value, modulo 2^32. -/
theorem atoi_eq (w : List Byte) : atoi w = BitVec.ofNat 32 (decimal w) := atoiLoop_eq w 0

/-! ## Lines -/

theorem Arg.field (a : Arg) : Field a.word := by
  intro c hc
  obtain ⟨h0, h32, h10, -⟩ := a.plain c hc
  refine ⟨h0, fun hd => ?_⟩
  have : c = 32 ∨ c = 10 := by simpa [Delim, bytes] using hd
  exact this.elim h32 h10

theorem field_chmod : Field (bytes "chmod") := by decide

theorem delim_blank : Delim 32 := by decide

theorem delim_newline : Delim 10 := by decide

theorem field_nil : Field [] := fun _ h => absurd h List.not_mem_nil

/-- A string with a delimiter in it starts with a field. -/
theorem exists_field {s : List Byte} (h0 : 0 ∉ s) (h : ∃ d ∈ s, Delim d) :
    ∃ f d r, s = f ++ d :: r ∧ Field f ∧ Delim d := by
  induction s with
  | nil => exact absurd h (by simp)
  | cons c s ih =>
    by_cases hc : Delim c
    · exact ⟨[], c, s, rfl, field_nil, hc⟩
    · obtain ⟨d, hd, hdd⟩ := h
      have hds : d ∈ s := (List.mem_cons.1 hd).resolve_left fun h => hc (h ▸ hdd)
      obtain ⟨f, d', r, rfl, hf, hd'⟩ := ih (fun h => h0 (List.mem_cons_of_mem _ h)) ⟨d, hds, hdd⟩
      refine ⟨c :: f, d', r, rfl, fun b hb => ?_, hd'⟩
      obtain rfl | hb := List.mem_cons.1 hb
      · exact ⟨fun h => h0 (h ▸ List.mem_cons_self), hc⟩
      · exact hf b hb

theorem Arg.str_one {a : Arg} (h : a.blanks = 1) : a.str = 32 :: a.word := by
  rw [Arg.str, h]
  rfl

theorem Arg.str_more {a : Arg} (h : a.blanks ≠ 1) :
    a.str = 32 :: 32 :: (List.replicate (a.blanks - 2) 32 ++ a.word) := by
  obtain ⟨n, hn⟩ : ∃ n, a.blanks = n + 2 := ⟨a.blanks - 2, by have := a.sep; omega⟩
  rw [Arg.str, hn]
  rfl

/-- What a line ends with, after the words: it is not empty and has a delimiter in front. -/
theorem ending (args : List Arg) (t : Nat) :
    ∃ d r, args.flatMap Arg.str ++ (List.replicate t 32 ++ [10]) = d :: r ∧ Delim d := by
  cases args with
  | nil =>
    cases t with
    | zero => exact ⟨10, [], rfl, delim_newline⟩
    | succ t => exact ⟨32, List.replicate t 32 ++ [10], rfl, delim_blank⟩
  | cons a args =>
    by_cases ha : a.blanks = 1
    · exact ⟨32, _, by rw [List.flatMap_cons, Arg.str_one ha]; rfl, delim_blank⟩
    · exact ⟨32, _, by rw [List.flatMap_cons, Arg.str_more ha]; rfl, delim_blank⟩

theorem noNul_args (args : List Arg) (t : Nat) :
    0 ∉ args.flatMap Arg.str ++ (List.replicate t 32 ++ [10]) := by
  intro h
  rw [List.mem_append, List.mem_append, List.mem_flatMap, List.mem_singleton] at h
  obtain ⟨a, -, ha⟩ | h | h := h
  · rw [Arg.str, List.mem_append] at ha
    obtain ha | ha := ha
    · exact absurd (List.eq_of_mem_replicate ha) (by decide)
    · exact a.field.noNul ha
  · exact absurd (List.eq_of_mem_replicate h) (by decide)
  · exact absurd h (by decide)

/-- The line as a whole, with its newline. -/
theorem Cmdline.str_eq (l : Cmdline) : l.str ++ [10] =
    bytes "chmod" ++ (l.args.flatMap Arg.str ++ (List.replicate l.trailing 32 ++ [10])) := by
  unfold Cmdline.str
  rw [List.append_assoc, List.append_assoc]

/-- **Two blanks after `chmod` make the path empty.** -/
theorem builtin_two_blanks {s : List Byte} {n : Option Nat} (h0 : 0 ∉ s) (h10 : 10 ∈ s) :
    ∃ mode, (builtin_chmod ⟨bytes "chmod" ++ 32 :: 32 :: s, n⟩).1 = [.chmod [] mode] := by
  obtain ⟨f, d, r, rfl, hf, hd⟩ := exists_field h0 ⟨10, h10, delim_newline⟩
  exact ⟨atoi f, builtin_three (g := []) field_chmod delim_blank field_nil delim_blank hf hd⟩

/-- **The calls are those that the line asks for exactly if its blanks are right.** The cases
are those of the number of words. -/
theorem builtin_line (l : Cmdline) (n : Option Nat) :
    (builtin_chmod ⟨l.str ++ [10], n⟩).1 = l.expected ↔ Spaced l := by
  rw [l.str_eq]
  obtain ⟨args, t⟩ := l
  unfold Cmdline.expected Spaced
  match args with
  | [] =>
    match t with
    | 0 =>
      exact iff_of_true (builtin_one field_chmod delim_newline) (Nat.zero_le 1)
    | 1 =>
      exact iff_of_true (builtin_two (g := []) field_chmod delim_blank field_nil delim_newline)
        le_rfl
    | t + 2 =>
      have h0 : (0 : Byte) ∉ List.replicate t 32 ++ [10] := noNul_args [] t
      obtain ⟨mode, hm⟩ := builtin_two_blanks (n := n) h0 (by simp)
      refine iff_of_false (fun h => ?_) (by simp)
      exact absurd (hm.symm.trans h) (by simp)
  | a :: more =>
    by_cases ha : a.blanks = 1
    · have hs : List.flatMap Arg.str (a :: more) ++ (List.replicate t 32 ++ [10]) =
          32 :: (a.word ++ (more.flatMap Arg.str ++ (List.replicate t 32 ++ [10]))) := by
        rw [List.flatMap_cons, Arg.str_one ha]
        simp
      dsimp only
      rw [hs]
      match more with
      | [] =>
        match t with
        | 0 =>
          exact iff_of_true (builtin_two field_chmod delim_blank a.field delim_newline) ⟨ha, rfl⟩
        | t + 1 =>
          obtain ⟨d, r, hr, hd⟩ := ending [] t
          have hcall := builtin_three (n := n) (r := r) field_chmod delim_blank a.field delim_blank
            field_nil hd
          rw [List.nil_append, ← hr] at hcall
          exact iff_of_false (fun h => absurd (hcall.symm.trans h) (by simp)) (by simp)
      | b :: more =>
        obtain ⟨d, r, hr, hd⟩ := ending more t
        by_cases hb : b.blanks = 1
        · have hcall := builtin_three (n := n) (r := r) field_chmod delim_blank a.field delim_blank
            b.field hd
          rw [List.flatMap_cons, Arg.str_one hb, List.append_assoc, hr]
          rw [atoi_eq] at hcall
          exact iff_of_true hcall ⟨ha, Or.inl hb⟩
        · -- the mode is the empty token, which counts as 0
          have hcall := builtin_three (n := n)
            (r := List.replicate (b.blanks - 2) 32 ++ b.word ++ d :: r) field_chmod delim_blank
            a.field delim_blank field_nil delim_blank
          rw [List.flatMap_cons, Arg.str_more hb, List.append_assoc, hr]
          refine (Eq.congr_left hcall).trans ?_
          dsimp only
          rw [List.cons.injEq, Call.chmod.injEq, and_iff_right rfl, and_iff_left rfl,
            and_iff_right ha, or_iff_right hb, eq_comm]
          rfl
    · -- the path is empty, and no word is
      have hs : List.flatMap Arg.str (a :: more) ++ (List.replicate t 32 ++ [10]) =
          32 :: 32 :: (List.replicate (a.blanks - 2) 32 ++ a.word ++
            (more.flatMap Arg.str ++ (List.replicate t 32 ++ [10]))) := by
        rw [List.flatMap_cons, Arg.str_more ha]
        simp
      have h0 := noNul_args (a :: more) t
      rw [hs, List.mem_cons, List.mem_cons, not_or, not_or] at h0
      obtain ⟨mode, hm⟩ := builtin_two_blanks (n := n) h0.2.2 (by simp)
      dsimp only
      rw [hs, hm]
      cases more with
      | nil => exact iff_of_false (by simp) fun h => ha h.1
      | cons b more =>
        refine iff_of_false (fun h => ?_) fun h => ha h.1
        exact a.nonempty (Call.chmod.inj (List.cons.inj h).1).1.symm

/-! ## One turn -/

/-- A line that starts with `chmod` is taken for `chmod`. -/
theorem command_chmod (s : List Byte) (n : Option Nat) :
    command ⟨bytes "chmod" ++ s, n⟩ = builtin_chmod ⟨bytes "chmod" ++ s, n⟩ := by
  have hcd : (bytes "chmod" ++ s).take 3 = [99, 104, 109] := rfl
  have hhistory : my_strncmp 7 (bytes "chmod" ++ s) (bytes "history") = -5 := rfl
  have hblock : my_strncmp 5 (bytes "chmod" ++ s) (bytes "block") = 1 := rfl
  have hunblock : my_strncmp 7 (bytes "chmod" ++ s) (bytes "unblock") = -18 := rfl
  have hchmod : my_strncmp 5 (bytes "chmod" ++ s) (bytes "chmod") = 0 := rfl
  unfold command
  dsimp only
  rw [hcd, hhistory, hblock, hunblock, hchmod, if_neg (by decide), if_neg (by decide),
    if_neg (by decide), if_neg (by decide), if_pos rfl]

theorem Cmdline.plain_str (l : Cmdline) : ∀ c ∈ l.str, Plain c := by
  intro c hc
  rw [Cmdline.str, List.mem_append, List.mem_append, List.mem_flatMap] at hc
  obtain (hc | ⟨a, -, hc⟩) | hc := hc
  · exact (by decide : ∀ c ∈ bytes "chmod", Plain c) c hc
  · rw [Arg.str, List.mem_append] at hc
    obtain hc | hc := hc
    · rw [List.eq_of_mem_replicate hc]
      decide
    · exact (a.plain c hc).2.2
  · rw [List.eq_of_mem_replicate hc]
    decide

/-- What the shell does once `buf` holds a part of the line. -/
theorem turn_buf {l : Cmdline} {rest left : Input} {tok : Tok} {s : List Byte}
    (h : gets SIZE (l.typed rest) = some (bytes "chmod" ++ s, left)) :
    turn ⟨l.typed rest, tok⟩ =
      some ((builtin_chmod ⟨bytes "chmod" ++ s, tok.next_token⟩).1,
        ⟨left, (builtin_chmod ⟨bytes "chmod" ++ s, tok.next_token⟩).2⟩) := by
  have hhead : (bytes "chmod" ++ s).headD 0 ≠ 0 := show (99 : Byte) ≠ 0 by decide
  unfold turn
  dsimp only
  rw [h, Option.map_some]
  dsimp only
  rw [if_neg hhead, command_chmod]

/-- A line that fits into `buf` is read as it is. -/
theorem turn_line {l : Cmdline} (hl : l.str.length ≤ 98) (rest : Input) (tok : Tok) :
    ∃ s : Sh, turn ⟨l.typed rest, tok⟩ =
      some ((builtin_chmod ⟨l.str ++ [10], tok.next_token⟩).1, s) ∧ s.input = rest := by
  have hgets : gets SIZE (l.typed rest) = some (l.str ++ [10], rest) :=
    getsLoop_line rest l.plain_str (Nat.lt_succ_of_le hl)
  rw [l.str_eq] at hgets ⊢
  exact ⟨_, turn_buf hgets, rfl⟩

/-- Of a longer line a part is left for the next turn. -/
theorem turn_long {l : Cmdline} (hl : 98 < l.str.length) (rest : Input) (tok : Tok) :
    ∃ calls s, turn ⟨l.typed rest, tok⟩ = some (calls, s) ∧ rest.length < s.input.length := by
  have hgets : gets SIZE (l.typed rest) =
      some (l.str.take 99, (l.str.drop 99).map some ++ some 10 :: rest) :=
    getsLoop_long (some 10 :: rest) l.plain_str hl
  have htake : l.str.take 99 = bytes "chmod" ++
      (l.args.flatMap Arg.str ++ List.replicate l.trailing 32).take 94 := by
    rw [Cmdline.str, List.append_assoc, List.take_append]
    rfl
  rw [htake] at hgets
  refine ⟨_, _, turn_buf hgets, ?_⟩
  rw [List.length_append, List.length_cons]
  omega

/-- **The built-in command `chmod` parses its line by words if and only if the line fits into
the buffer of the shell and its blanks give no empty token that matters.** -/
theorem chmod_by_words (l : Cmdline) (rest : Input) (tok : Tok) :
    (∃ calls s, turn ⟨l.typed rest, tok⟩ = some (calls, s) ∧ ByWords l rest calls s.input) ↔
      l.str.length ≤ 98 ∧ Spaced l := by
  by_cases hl : l.str.length ≤ 98
  · obtain ⟨s, hs, hrest⟩ := turn_line hl rest tok
    rw [and_iff_right hl, ← builtin_line l tok.next_token, hs]
    constructor
    · rintro ⟨calls, s', hs', h⟩
      rw [← h.asked, (Prod.mk.inj (Option.some.inj hs')).1]
    · intro h
      refine ⟨l.expected, s, by rw [h], rfl, fun Inode _ fs cwd ip hip => ?_, hrest⟩
      unfold Cmdline.expected at hip
      split at hip
      · rename_i path mode more hargs
        exact ⟨path, mode, more, hargs, sys_chmod_mode hip⟩
      · exact absurd rfl hip
  · obtain ⟨calls, s, hs, hlen⟩ := turn_long (Nat.not_le.1 hl) rest tok
    refine iff_of_false ?_ fun h => hl h.1
    rintro ⟨calls', s', hs', h⟩
    obtain ⟨-, rfl⟩ := Prod.mk.inj (Option.some.inj (hs.symm.trans hs'))
    rw [h.line] at hlen
    exact lt_irrefl _ hlen

/-! ## Two blanks -/

/-- The line "chmod  f 7", with two blanks after `chmod`. -/
def twoBlanks : Cmdline where
  args := [⟨2, by decide, [102], by decide, by decide⟩, ⟨1, by decide, [55], by decide, by decide⟩]
  trailing := 0

/-- A file system with one directory, which everyone may do everything with. -/
def oneDir : Fs Unit := ⟨(), fun _ => true, fun _ _ => none, fun _ => 7⟩

/-- It takes away every permission of the current directory. -/
theorem two_blanks_current_directory :
    (turn ⟨twoBlanks.typed [], ⟨[], none⟩⟩).map Prod.fst = some [.chmod [] 0] ∧
      (Call.run () oneDir (.chmod [] 0)).mode () = 0 ∧
      ¬ ∃ calls s, turn ⟨twoBlanks.typed [], ⟨[], none⟩⟩ = some (calls, s) ∧
        ByWords twoBlanks [] calls s.input := by
  have hcalls : (turn ⟨twoBlanks.typed [], ⟨[], none⟩⟩).map Prod.fst = some [.chmod [] 0] := by
    decide
  refine ⟨hcalls, ?_, ?_⟩
  · unfold Call.run sys_chmod
    dsimp only
    rw [namei_nil]
    rfl
  · rintro ⟨calls, s, hs, h⟩
    rw [hs, Option.map_some, h.asked] at hcalls
    have hne : twoBlanks.expected ≠ [.chmod [] 0] := by decide
    exact hne (Option.some.inj hcalls)

end Xv6.Shell.Chmod
