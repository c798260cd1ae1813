/-
Pipes: readers and writers that block, over all interleavings.

`pipewrite` and `piperead` hold the lock of the pipe but when they sleep, so a step of the
system is what a process does from where it gets the lock to where it returns or sleeps.
The counters are 32-bit words that wrap around.

In every run, what was written is what was read followed by what is in the buffer: no byte
is lost, doubled or moved, and the bytes of each process are in its order. A writer sleeps
only while the buffer is full and can be read. A reader sleeps only while the buffer is
empty and can be written, but for one case: a killed writer that finds the buffer full
returns without waking the readers, and what it wrote before may strand them.
-/
import Xv6.Lib.Ring
import Xv6.Lib.Run

set_option autoImplicit false

namespace Xv6.Kernel.Pipes

open Xv6.Lib

abbrev PIPESIZE : Nat := 512

/-- `struct pipe`. -/
structure Pipe where
  data : Nat → UInt8
  nread : BitVec 32
  nwrite : BitVec 32
  readopen : Bool
  writeopen : Bool

namespace Pipe

/-- `nwrite == nread + PIPESIZE`. -/
def full (p : Pipe) : Bool := p.nwrite == p.nread + BitVec.ofNat 32 PIPESIZE

/-- `data[nwrite++ % PIPESIZE] = b`. -/
def put (p : Pipe) (b : UInt8) : Pipe :=
  { p with data := Function.update p.data (cell PIPESIZE p.nwrite) b, nwrite := p.nwrite + 1 }

/-- `nread++`. -/
def take (p : Pipe) : Pipe := { p with nread := p.nread + 1 }

/-- `data[nread % PIPESIZE]`. -/
def head (p : Pipe) : UInt8 := p.data (cell PIPESIZE p.nread)

/-- What is in the buffer. -/
def contents (p : Pipe) : List UInt8 := window PIPESIZE p.data p.nread (span p.nread p.nwrite)

structure Sound (p : Pipe) : Prop where
  le : span p.nread p.nwrite ≤ PIPESIZE

end Pipe

/-- How a stretch of `pipewrite` ends. -/
inductive WriteEnd where
  | done | fail | sleep
  deriving DecidableEq

/-- The loop of `pipewrite` while it holds the lock: the bytes that are left. -/
def writeLoop (killed : Bool) (p : Pipe) : List UInt8 → Pipe × List UInt8 × WriteEnd
  | [] => (p, [], .done)
  | b :: bs =>
    if p.full then (p, b :: bs, if p.readopen = false ∨ killed then .fail else .sleep)
    else writeLoop killed (p.put b) bs

/-- The copying loop of `piperead`. -/
def readLoop (p : Pipe) : Nat → Pipe × List UInt8
  | 0 => (p, [])
  | n + 1 =>
    if p.nread = p.nwrite then (p, [])
    else ((readLoop p.take n).1, p.head :: (readLoop p.take n).2)

/-! ## The system -/

/-- Where a process is. -/
inductive Task where
  | idle
  /-- In `pipewrite` of `n` bytes, with those that are left. -/
  | write (n : Nat) (todo : List UInt8)
  /-- In `piperead`, before it copies. -/
  | read (n : Nat)

/-- The bytes a process still has to write. -/
def Task.pending : Task → List UInt8
  | .write _ todo => todo
  | _ => []

/-- `&p->nread` and `&p->nwrite`. -/
inductive Chan where
  | nread | nwrite
  deriving DecidableEq

structure Sys where
  pipe : Pipe
  task : Nat → Task
  /-- The channel a process sleeps on. -/
  chan : Nat → Option Chan
  /-- What the last call of a process returned. -/
  ret : Nat → Int
  /-- The bytes written, with their writers, and the bytes read, in order. -/
  written : List (Nat × UInt8)
  got : List UInt8
  /-- The bytes of the writes of each process, but for the rests of failed ones. -/
  sent : Nat → List UInt8
  /-- A killed writer has returned where others may read. -/
  dropped : Bool

namespace Sys

def wakeup (c : Chan) (s : Sys) : Sys :=
  { s with chan := fun i => if s.chan i = some c then none else s.chan i }

def setTask (i : Nat) (t : Task) (s : Sys) : Sys :=
  { s with task := Function.update s.task i t }

def leave (i : Nat) (v : Int) (s : Sys) : Sys :=
  { s.setTask i .idle with ret := Function.update s.ret i v }

def sleep (i : Nat) (c : Chan) (s : Sys) : Sys :=
  { s with chan := Function.update s.chan i (some c) }

/-- What a stretch of `pipewrite` has put into the buffer, and what is left. -/
def record (i n : Nat) (p : Pipe) (bytes rest : List UInt8) (s : Sys) : Sys :=
  { s.setTask i (.write n rest) with pipe := p, written := s.written ++ bytes.map fun b => (i, b) }

/-- The call of `i` has failed: `rest` is not written. -/
def giveUp (i : Nat) (rest : List UInt8) (s : Sys) : Sys :=
  { s.leave i (-1) with
    sent := Function.update s.sent i ((s.sent i).take ((s.sent i).length - rest.length))
    dropped := s.dropped || s.pipe.readopen }

/-- A stretch of `pipewrite` of process `i`; `killed` is what it finds in `myproc()`. -/
def pipewrite (i : Nat) (killed : Bool) (n : Nat) (todo : List UInt8) (s : Sys) : Sys :=
  let (p, rest, ending) := writeLoop killed s.pipe todo
  let s := s.record i n p (todo.take (todo.length - rest.length)) rest
  match ending with
  | .done => (s.wakeup .nread).leave i n
  | .fail => s.giveUp i rest
  | .sleep => (s.wakeup .nread).sleep i .nwrite

/-- A stretch of `piperead` of process `i`. -/
def piperead (i : Nat) (killed : Bool) (n : Nat) (s : Sys) : Sys :=
  if s.pipe.nread = s.pipe.nwrite ∧ s.pipe.writeopen = true then
    if killed then s.leave i (-1) else s.sleep i .nread
  else
    let (p, bytes) := readLoop s.pipe n
    ({ s with pipe := p, got := s.got ++ bytes }.wakeup .nwrite).leave i bytes.length

/-- `pipeclose(p, writable)`. -/
def pipeclose (writable : Bool) (s : Sys) : Sys :=
  if writable then { s with pipe := { s.pipe with writeopen := false } }.wakeup .nread
  else { s with pipe := { s.pipe with readopen := false } }.wakeup .nwrite

/-- A call starts. -/
def enter (i : Nat) (t : Task) (s : Sys) : Sys :=
  { s.setTask i t with sent := Function.update s.sent i (s.sent i ++ t.pending) }

inductive Event where
  /-- A process that is not in the pipe calls `pipewrite` or `piperead`. -/
  | write (i : Nat) (killed : Bool) (bytes : List UInt8)
  | read (i : Nat) (killed : Bool) (n : Nat)
  /-- A process that is awake in the pipe goes on. -/
  | resume (i : Nat) (killed : Bool)
  | close (writable : Bool)
  /-- `kill` wakes a process, on whichever channel it sleeps. -/
  | kill (i : Nat)

def step (e : Event) (s : Sys) : Sys :=
  match e with
  | .write i killed bytes =>
    (s.enter i (.write bytes.length bytes)).pipewrite i killed bytes.length bytes
  | .read i killed n => (s.enter i (.read n)).piperead i killed n
  | .resume i killed =>
    match s.task i with
    | .idle => s
    | .write n todo => s.pipewrite i killed n todo
    | .read n => s.piperead i killed n
  | .close writable => s.pipeclose writable
  | .kill i => { s with chan := Function.update s.chan i none }

/-- A call has a file open for its end of the pipe, and an end is closed when the last file
for it is. -/
def Allowed (s : Sys) : Event → Prop
  | .write i _ _ => s.task i = .idle ∧ s.pipe.writeopen = true
  | .read i _ _ => s.task i = .idle ∧ s.pipe.readopen = true
  | .resume i _ => s.chan i = none
  | .close true => ∀ i n todo, s.task i ≠ .write n todo
  | .close false => ∀ i n, s.task i ≠ .read n
  | .kill _ => True

def Step (s : Sys) (e : Event) (t : Sys) : Prop := Allowed s e ∧ step e s = t

/-- After `pipealloc`. The page of the pipe may hold anything. -/
def boot (data : Nat → UInt8) : Sys where
  pipe := ⟨data, 0, 0, true, true⟩
  task _ := .idle
  chan _ := none
  ret _ := 0
  written := []
  got := []
  sent _ := []
  dropped := false

end Sys

/-! ## The loops -/

theorem dvd_words : PIPESIZE ∣ 2 ^ 32 := ⟨2 ^ 23, rfl⟩

namespace Pipe

variable {p : Pipe}

theorem full_iff : p.full = true ↔ span p.nread p.nwrite = PIPESIZE := by
  rw [full, beq_iff_eq]
  constructor
  · intro h
    rw [h, span, add_sub_cancel_left]
    rfl
  · intro h
    rw [← h, add_span]

theorem contents_put (h : p.Sound) (hf : ¬p.full = true) (b : UInt8) :
    (p.put b).contents = p.contents ++ [b] ∧ (p.put b).Sound := by
  have hlt : span p.nread p.nwrite < PIPESIZE := by
    have := h.le
    rw [full_iff] at hf
    omega
  have hput : span p.nread (p.nwrite + 1) = span p.nread p.nwrite + 1 :=
    span_put (by rw [PIPESIZE] at hlt; omega)
  refine ⟨?_, ⟨?_⟩⟩
  · show window PIPESIZE _ p.nread (span p.nread (p.nwrite + 1)) = _
    rw [hput]
    have hend := @window_put UInt8 32 PIPESIZE p.data p.nread _ dvd_words hlt b
    rw [add_span] at hend
    exact hend
  · show span p.nread (p.nwrite + 1) ≤ PIPESIZE
    omega

theorem contents_take (h : p.Sound) (hne : p.nread ≠ p.nwrite) :
    p.contents = p.head :: p.take.contents ∧ p.take.Sound := by
  have htake := span_take hne
  refine ⟨?_, ⟨?_⟩⟩
  · show window PIPESIZE p.data p.nread (span p.nread p.nwrite) = _
    rw [← htake, window_cons]
    rfl
  · have := h.le
    show span (p.nread + 1) p.nwrite ≤ PIPESIZE
    omega

end Pipe

/-- What a stretch of `pipewrite` leaves. -/
structure Wrote (killed : Bool) (p q : Pipe) (todo rest : List UInt8) (ending : WriteEnd) :
    Prop where
  sound : q.Sound
  split : todo = todo.take (todo.length - rest.length) ++ rest
  contents : q.contents = p.contents ++ todo.take (todo.length - rest.length)
  readopen : q.readopen = p.readopen
  writeopen : q.writeopen = p.writeopen
  full : ending ≠ .done → q.full = true
  all : ending = .done → rest = []
  awake : ending = .sleep → p.readopen = true
  keeps : p.full = true → q.full = true

theorem writeLoop_spec (killed : Bool) (todo : List UInt8) {p : Pipe} (h : p.Sound) :
    Wrote killed p (writeLoop killed p todo).1 todo (writeLoop killed p todo).2.1
      (writeLoop killed p todo).2.2 := by
  induction todo generalizing p with
  | nil =>
    exact ⟨h, rfl, by simp [writeLoop], rfl, rfl, fun hne => absurd rfl hne, fun _ => rfl,
      nofun, id⟩
  | cons b bs ih =>
    unfold writeLoop
    by_cases hf : p.full = true
    · rw [if_pos hf]
      refine ⟨h, by simp, by simp, rfl, rfl, fun _ => hf, fun hd => ?_, fun hs => ?_, id⟩
      · simp only at hd
        split at hd <;> cases hd
      · simp only at hs
        split at hs
        · cases hs
        case isFalse hopen =>
          simp only [not_or, Bool.not_eq_false] at hopen
          exact hopen.1
    · rw [if_neg hf]
      obtain ⟨hc, hs⟩ := Pipe.contents_put h hf b
      have hW := ih hs
      have hlen : (b :: bs).length - (writeLoop killed (p.put b) bs).2.1.length =
          bs.length - (writeLoop killed (p.put b) bs).2.1.length + 1 := by
        have := congrArg List.length hW.split
        simp only [List.length_append, List.length_take] at this
        simp only [List.length_cons]
        omega
      refine ⟨hW.sound, ?_, ?_, hW.readopen, hW.writeopen, hW.full, hW.all, hW.awake,
        fun h => absurd h hf⟩
      · rw [hlen, List.take_succ_cons, List.cons_append, ← hW.split]
      · rw [hlen, List.take_succ_cons, hW.contents, hc, List.append_assoc]
        rfl

theorem readLoop_spec (n : Nat) {p : Pipe} (h : p.Sound) :
    (readLoop p n).1.Sound ∧ p.contents = (readLoop p n).2 ++ (readLoop p n).1.contents ∧
      (readLoop p n).1.readopen = p.readopen ∧ (readLoop p n).1.writeopen = p.writeopen := by
  induction n generalizing p with
  | zero => exact ⟨h, rfl, rfl, rfl⟩
  | succ n ih =>
    unfold readLoop
    by_cases he : p.nread = p.nwrite
    · rw [if_pos he]
      exact ⟨h, rfl, rfl, rfl⟩
    · rw [if_neg he]
      obtain ⟨hc, hs⟩ := Pipe.contents_take h he
      obtain ⟨h1, h2, h3, h4⟩ := ih hs
      exact ⟨h1, by rw [hc, h2]; rfl, h3, h4⟩

/-! ## The invariant -/

namespace Sys

/-- The bytes that process `i` has put into the pipe. -/
def wrote (s : Sys) (i : Nat) : List UInt8 :=
  (s.written.filter fun e => e.1 = i).map Prod.snd

/-- What holds whether or not the readers are awake. -/
structure Core (s : Sys) : Prop where
  sound : s.pipe.Sound
  fifo : s.written.map Prod.snd = s.got ++ s.pipe.contents
  order : ∀ i, s.wrote i ++ (s.task i).pending = s.sent i
  writing : ∀ i n todo, s.task i = .write n todo → s.pipe.writeopen = true
  reading : ∀ i n, s.task i = .read n → s.pipe.readopen = true
  writer : ∀ i, s.chan i = some .nwrite →
    (∃ n todo, s.task i = .write n todo) ∧ s.pipe.full = true ∧ s.pipe.readopen = true
  sleeper : ∀ i, s.chan i = some .nread → ∃ n, s.task i = .read n

structure Inv (s : Sys) : Prop extends Core s where
  reader : ∀ i, s.chan i = some .nread →
    s.pipe.writeopen = true ∧ (s.pipe.nread = s.pipe.nwrite ∨ s.dropped = true)

variable {s : Sys} {i : Nat}

theorem inv_boot (data : Nat → UInt8) : Inv (boot data) where
  sound := ⟨by simp [boot, span]⟩
  fifo := by simp [boot, Pipe.contents, span]
  order _ := rfl
  writing _ _ _ h := nomatch h
  reading _ _ h := nomatch h
  writer _ h := nomatch h
  sleeper _ h := nomatch h
  reader _ h := nomatch h

theorem wrote_record (s : Sys) (i j n : Nat) (p : Pipe) (bytes rest : List UInt8) :
    (s.record i n p bytes rest).wrote j = s.wrote j ++ if j = i then bytes else [] := by
  simp only [wrote, record, List.filter_append, List.map_append, List.filter_map]
  congr 1
  by_cases hij : i = j
  · subst hij
    simp [Function.comp_def]
  · simp [hij, Ne.symm hij, Function.comp_def]

theorem task_setTask (s : Sys) (i j : Nat) (t : Task) :
    (s.setTask i t).task j = if j = i then t else s.task j := by
  simp [setTask, Function.update_apply]

theorem chan_wakeup {c d : Chan} {j : Nat} :
    (s.wakeup c).chan j = some d ↔ s.chan j = some d ∧ d ≠ c := by
  simp only [wakeup]
  split
  case isTrue h =>
    refine ⟨nofun, fun ⟨hd, hne⟩ => absurd ?_ hne⟩
    exact Option.some.inj (hd.symm.trans h)
  case isFalse h =>
    refine ⟨fun hd => ⟨hd, ?_⟩, And.left⟩
    rintro rfl
    exact h hd

theorem chan_sleep {c d : Chan} {j : Nat} :
    (s.sleep i c).chan j = some d ↔ j = i ∧ c = d ∨ j ≠ i ∧ s.chan j = some d := by
  simp only [sleep, Function.update_apply]
  by_cases hji : j = i <;> simp [hji]

namespace Core

variable (h : Core s)
include h

theorem wakeup (c : Chan) : Core (s.wakeup c) :=
  { h with
    writer := fun j hj => h.writer j (chan_wakeup.1 hj).1
    sleeper := fun j hj => h.sleeper j (chan_wakeup.1 hj).1 }

/-- What process `i` does while it is awake, with the lock: the others stay where they are. -/
theorem stretch {t : Sys} (ha : s.chan i = none) (hchan : t.chan = s.chan)
    (hothers : ∀ j, j ≠ i → t.task j = s.task j ∧ t.wrote j = s.wrote j ∧ t.sent j = s.sent j)
    (hopen : t.pipe.readopen = s.pipe.readopen ∧ t.pipe.writeopen = s.pipe.writeopen)
    (hsound : t.pipe.Sound) (hfifo : t.written.map Prod.snd = t.got ++ t.pipe.contents)
    (horder : t.wrote i ++ (t.task i).pending = t.sent i)
    (hwriting : ∀ n todo, t.task i = .write n todo → s.pipe.writeopen = true)
    (hreading : ∀ n, t.task i = .read n → s.pipe.readopen = true)
    (hfull : ∀ j, s.chan j = some .nwrite → t.pipe.full = true) : Core t := by
  have hne : ∀ j c, t.chan j = some c → s.chan j = some c ∧ j ≠ i := by
    intro j c hc
    rw [hchan] at hc
    refine ⟨hc, ?_⟩
    rintro rfl
    exact absurd (ha.symm.trans hc) nofun
  refine ⟨hsound, hfifo, fun j => ?_, fun j n todo hj => ?_, fun j n hj => ?_, fun j hj => ?_,
    fun j hj => ?_⟩
  · by_cases hji : j = i
    · exact hji ▸ horder
    · obtain ⟨h1, h2, h3⟩ := hothers j hji
      rw [h1, h2, h3]
      exact h.order j
  · rw [hopen.2]
    by_cases hji : j = i
    · exact hwriting n todo (hji ▸ hj)
    · exact h.writing j n todo ((hothers j hji).1 ▸ hj)
  · rw [hopen.1]
    by_cases hji : j = i
    · exact hreading n (hji ▸ hj)
    · exact h.reading j n ((hothers j hji).1 ▸ hj)
  · obtain ⟨hc, hji⟩ := hne j _ hj
    rw [hopen.1, (hothers j hji).1]
    obtain ⟨h1, _, h3⟩ := h.writer j hc
    exact ⟨h1, hfull j hc, h3⟩
  · obtain ⟨hc, hji⟩ := hne j _ hj
    rw [(hothers j hji).1]
    exact h.sleeper j hc

/-- A process with nothing left to write leaves the pipe. -/
theorem leave (ha : s.chan i = none) (hp : (s.task i).pending = []) (v : Int) :
    Core (s.leave i v) := by
  have hi : (s.leave i v).task i = .idle := (task_setTask s i i _).trans (if_pos rfl)
  refine h.stretch ha rfl (fun j hji => ⟨?_, rfl, rfl⟩) ⟨rfl, rfl⟩ h.sound h.fifo ?_ ?_ ?_
    fun j hj => (h.writer j hj).2.1
  · exact (task_setTask s i j _).trans (if_neg hji)
  · rw [hi]
    have := h.order i
    rw [hp] at this
    exact this
  · rw [hi]
    nofun
  · rw [hi]
    nofun

/-- The loop of `pipewrite`. -/
theorem record {n : Nat} {todo rest : List UInt8} {q : Pipe} {killed : Bool} {ending : WriteEnd}
    (ha : s.chan i = none) (hi : s.task i = .write n todo)
    (hW : Wrote killed s.pipe q todo rest ending) :
    Core (s.record i n q (todo.take (todo.length - rest.length)) rest) := by
  have htask : ∀ j, (s.record i n q (todo.take (todo.length - rest.length)) rest).task j =
      if j = i then .write n rest else s.task j := fun j => task_setTask s i j _
  refine h.stretch ha rfl (fun j hji => ⟨?_, ?_, rfl⟩) ⟨hW.readopen, hW.writeopen⟩ hW.sound ?_ ?_
    (fun _ _ _ => h.writing i n todo hi) (fun m hm => ?_) fun j hj => hW.keeps (h.writer j hj).2.1
  · rw [htask, if_neg hji]
  · rw [wrote_record, if_neg hji, List.append_nil]
  · calc (s.written ++ _).map Prod.snd
      _ = s.got ++ s.pipe.contents ++ todo.take (todo.length - rest.length) := by
        rw [List.map_append, h.fifo, List.map_map]
        simp [Function.comp_def]
      _ = s.got ++ q.contents := by rw [hW.contents, List.append_assoc]
  · rw [wrote_record, htask, if_pos rfl, if_pos rfl]
    have := h.order i
    rw [hi, Task.pending, hW.split, ← List.append_assoc] at this
    exact this
  · rw [htask, if_pos rfl] at hm
    cases hm

/-- The rest of a failed write is not sent. -/
theorem giveUp {n : Nat} {rest : List UInt8} (ha : s.chan i = none)
    (hi : s.task i = .write n rest) :
    Core (s.giveUp i rest) := by
  have hidle : (s.giveUp i rest).task i = .idle := (task_setTask s i i _).trans (if_pos rfl)
  refine h.stretch ha rfl (fun j hji => ⟨?_, rfl, ?_⟩) ⟨rfl, rfl⟩ h.sound h.fifo ?_ ?_ ?_
    fun j hj => (h.writer j hj).2.1
  · exact (task_setTask s i j _).trans (if_neg hji)
  · exact Function.update_of_ne hji _ _
  · have hsent := h.order i
    rw [hi, Task.pending] at hsent
    rw [hidle]
    show s.wrote i ++ [] = Function.update s.sent i _ i
    rw [Function.update_self, ← hsent, List.length_append, Nat.add_sub_cancel, List.take_left,
      List.append_nil]
  · rw [hidle]
    nofun
  · rw [hidle]
    nofun

/-- A writer that finds the buffer full sleeps. -/
theorem sleep_write {n : Nat} {todo : List UInt8} (hi : s.task i = .write n todo)
    (hf : s.pipe.full = true) (hr : s.pipe.readopen = true) : Core (s.sleep i .nwrite) := by
  refine { h with writer := fun j hj => ?_, sleeper := fun j hj => ?_ }
  · obtain ⟨rfl, -⟩ | ⟨-, hj⟩ := chan_sleep.1 hj
    · exact ⟨⟨n, todo, hi⟩, hf, hr⟩
    · exact h.writer j hj
  · obtain ⟨-, hc⟩ | ⟨-, hj⟩ := chan_sleep.1 hj
    · cases hc
    · exact h.sleeper j hj

/-- A reader that finds the buffer empty sleeps. -/
theorem sleep_read {n : Nat} (hi : s.task i = .read n) : Core (s.sleep i .nread) := by
  refine { h with writer := fun j hj => ?_, sleeper := fun j hj => ?_ }
  · obtain ⟨-, hc⟩ | ⟨-, hj⟩ := chan_sleep.1 hj
    · cases hc
    · exact h.writer j hj
  · obtain ⟨rfl, -⟩ | ⟨-, hj⟩ := chan_sleep.1 hj
    · exact ⟨n, hi⟩
    · exact h.sleeper j hj

end Core

/-- The readers are awake. -/
theorem Core.inv (h : Core s) (hn : ∀ i, s.chan i ≠ some .nread) : Inv s :=
  { h with reader := fun i hi => absurd hi (hn i) }

theorem inv_pipewrite (h : Inv s) (killed : Bool) {n : Nat} {todo : List UInt8}
    (hi : s.task i = .write n todo) (ha : s.chan i = none) :
    Inv (s.pipewrite i killed n todo) := by
  have hW := writeLoop_spec killed todo h.sound
  have hR := h.toCore.record ha hi hW
  rw [pipewrite]
  generalize writeLoop killed s.pipe todo = w at hW hR
  obtain ⟨q, rest, ending⟩ := w
  simp only at hW hR ⊢
  generalize hs' : s.record i n q (todo.take (todo.length - rest.length)) rest = s' at hR
  have hi' : s'.task i = .write n rest := by
    rw [← hs']
    exact (task_setTask s i i _).trans (if_pos rfl)
  have ha' : s'.chan i = none := by rw [← hs']; exact ha
  have hawake : (s'.wakeup .nread).chan i = none := by
    simp [wakeup, ha']
  have hnone : ∀ j, (s'.wakeup .nread).chan j ≠ some .nread := fun j hj =>
    (chan_wakeup.1 hj).2 rfl
  have hq : s'.pipe = q := by rw [← hs']; rfl
  cases ending with
  | done =>
    obtain rfl := hW.all rfl
    exact ((hR.wakeup .nread).leave hawake (congrArg Task.pending hi') _).inv hnone
  | fail =>
    -- the readers stay asleep
    refine { hR.giveUp ha' hi' with reader := fun j hj => ?_ }
    have hj' : s.chan j = some .nread := by rw [← hs'] at hj; exact hj
    obtain ⟨m, hm⟩ := h.sleeper j hj'
    have hopen : s'.pipe.readopen = true := by rw [hq, hW.readopen]; exact h.reading j m hm
    refine ⟨?_, Or.inr ?_⟩
    · show s'.pipe.writeopen = true
      rw [hq, hW.writeopen]
      exact (h.reader j hj').1
    · show (s'.dropped || s'.pipe.readopen) = true
      rw [hopen, Bool.or_true]
  | sleep =>
    refine ((hR.wakeup .nread).sleep_write hi' ?_ ?_).inv fun j hj => ?_
    · show s'.pipe.full = true
      rw [hq]
      exact hW.full nofun
    · show s'.pipe.readopen = true
      rw [hq, hW.readopen]
      exact hW.awake rfl
    · obtain ⟨-, hc⟩ | ⟨-, hj⟩ := chan_sleep.1 hj
      · cases hc
      · exact hnone j hj

theorem inv_piperead (h : Inv s) (killed : Bool) {n : Nat} (hi : s.task i = .read n)
    (ha : s.chan i = none) : Inv (s.piperead i killed n) := by
  rw [piperead]
  split
  case isTrue hempty =>
    split
    · refine { h.toCore.leave ha (congrArg Task.pending hi) _ with reader := h.reader }
    · refine { h.toCore.sleep_read hi with reader := fun j hj => ?_ }
      obtain ⟨rfl, -⟩ | ⟨-, hj⟩ := chan_sleep.1 hj
      · exact ⟨hempty.2, Or.inl hempty.1⟩
      · exact h.reader j hj
  case isFalse hsome =>
    obtain ⟨hs, hc, hr, hw⟩ := readLoop_spec n h.sound
    have hW := h.toCore.wakeup .nwrite
    have hawake : (s.wakeup .nwrite).chan i = none := by simp [wakeup, ha]
    have hcopy : Core { s.wakeup .nwrite with
        pipe := (readLoop s.pipe n).1, got := s.got ++ (readLoop s.pipe n).2 } :=
      hW.stretch hawake rfl (fun j _ => ⟨rfl, rfl, rfl⟩) ⟨hr, hw⟩ hs
        (by rw [List.append_assoc, ← hc]; exact h.fifo) (h.order i) (h.writing i) (h.reading i)
        fun j hj => absurd rfl (chan_wakeup.1 hj).2
    refine { hcopy.leave hawake (congrArg Task.pending hi) _ with reader := fun j hj => ?_ }
    obtain ⟨hw', he⟩ := h.reader j (chan_wakeup.1 hj).1
    refine ⟨hw.trans hw', ?_⟩
    refine he.imp (fun he => ?_) id
    exact absurd ⟨he, hw'⟩ hsome

theorem inv_pipeclose (h : Inv s) (writable : Bool) (ha : Allowed s (.close writable)) :
    Inv (s.pipeclose writable) := by
  cases writable with
  | true =>
    have hW := h.toCore.wakeup .nread
    exact
      { hW with
        sound := ⟨h.sound.le⟩
        fifo := h.fifo
        order := h.order
        writing := fun j n todo hj => absurd hj (ha j n todo)
        writer := fun j hj => by
          obtain ⟨n, todo, ht⟩ := (hW.writer j hj).1
          exact absurd ht (ha j n todo)
        reader := fun j hj => absurd rfl (chan_wakeup.1 hj).2 }
  | false =>
    have hW := h.toCore.wakeup .nwrite
    exact
      { hW with
        sound := ⟨h.sound.le⟩
        fifo := h.fifo
        order := h.order
        reading := fun j n hj => absurd hj (ha j n)
        writer := fun j hj => absurd rfl (chan_wakeup.1 hj).2
        reader := fun j hj => absurd (hW.sleeper j hj).choose_spec (ha j _) }

theorem inv_enter (h : Inv s) {t : Task} (hi : s.task i = .idle)
    (hw : ∀ n todo, t = .write n todo → s.pipe.writeopen = true)
    (hr : ∀ n, t = .read n → s.pipe.readopen = true) :
    Inv (s.enter i t) ∧ (s.enter i t).task i = t ∧ s.chan i = none := by
  have ha : s.chan i = none := by
    by_contra hne
    obtain ⟨c, hc⟩ := Option.ne_none_iff_exists'.1 hne
    cases c with
    | nread =>
      obtain ⟨n, hn⟩ := h.sleeper i hc
      exact absurd (hi.symm.trans hn) nofun
    | nwrite =>
      obtain ⟨n, todo, ht⟩ := (h.writer i hc).1
      exact absurd (hi.symm.trans ht) nofun
  have ht : (s.enter i t).task i = t := (task_setTask s i i t).trans (if_pos rfl)
  have horder : s.wrote i ++ ((s.enter i t).task i).pending = (s.enter i t).sent i := by
    have hsent := h.order i
    rw [hi] at hsent
    rw [ht]
    show s.wrote i ++ t.pending = Function.update s.sent i _ i
    rw [Function.update_self, ← hsent]
    exact congrArg (· ++ t.pending) (List.append_nil _).symm
  have hcore : Core (s.enter i t) := h.toCore.stretch ha rfl
    (fun j hji => ⟨(task_setTask s i j t).trans (if_neg hji), rfl, Function.update_of_ne hji _ _⟩)
    ⟨rfl, rfl⟩ h.sound h.fifo horder (fun n todo he => hw n todo (ht.symm.trans he))
    (fun n he => hr n (ht.symm.trans he)) fun j hj => (h.writer j hj).2.1
  exact ⟨{ hcore with reader := h.reader }, ht, ha⟩

/-- **One step.** -/
theorem inv_step {e : Event} {t : Sys} (h : Inv s) (hst : Step s e t) : Inv t := by
  obtain ⟨ha, rfl⟩ := hst
  cases e with
  | write i killed bytes =>
    obtain ⟨hinv, hi, hawake⟩ := inv_enter (t := .write bytes.length bytes) h ha.1
      (fun _ _ _ => ha.2) nofun
    exact inv_pipewrite hinv killed hi hawake
  | read i killed n =>
    obtain ⟨hinv, hi, hawake⟩ := inv_enter (t := .read n) h ha.1 nofun fun _ _ => ha.2
    exact inv_piperead hinv killed hi hawake
  | resume i killed =>
    simp only [step]
    split
    case h_1 => exact h
    case h_2 n todo hi => exact inv_pipewrite h killed hi ha
    case h_3 n hi => exact inv_piperead h killed hi ha
  | close writable => exact inv_pipeclose h writable ha
  | kill i =>
    have hchan : ∀ j c, Function.update s.chan i none j = some c → s.chan j = some c := by
      intro j c hj
      rw [Function.update_apply] at hj
      split at hj
      · cases hj
      · exact hj
    exact
      { h with
        writer := fun j hj => h.writer j (hchan j _ hj)
        sleeper := fun j hj => h.sleeper j (hchan j _ hj)
        reader := fun j hj => h.reader j (hchan j _ hj) }

theorem inv_run {data : Nat → UInt8} {es : List Event} (h : Run Step (boot data) es s) : Inv s :=
  h.invariant (fun _ _ _ hst hs => inv_step hs hst) (inv_boot data)

/-! ## Runs -/

variable {data : Nat → UInt8} {es : List Event}

/-- **First in, first out**: the bytes written are those read, then those in the buffer, and
the bytes of a process are in the pipe in the order of its calls. -/
theorem fifo (h : Run Step (boot data) es s) :
    s.written.map Prod.snd = s.got ++ s.pipe.contents ∧ s.pipe.contents.length ≤ PIPESIZE ∧
      ∀ i, s.wrote i ++ (s.task i).pending = s.sent i := by
  have hI := inv_run h
  refine ⟨hI.fifo, ?_, hI.order⟩
  rw [Pipe.contents, length_window]
  exact hI.sound.le

/-- A reader that waits is served by a writer that comes. -/
theorem fifo_served : ∃ s : Sys, s.written.map Prod.snd = s.got ++ s.pipe.contents ∧
    s.pipe.contents.length ≤ PIPESIZE ∧ ∀ i, s.wrote i ++ (s.task i).pending = s.sent i :=
  have hrun : Run Step (boot fun _ => 0)
      [.read 1 false 3, .write 0 false [7, 8], .resume 1 false] _ :=
    .cons ⟨⟨rfl, rfl⟩, rfl⟩ (.cons ⟨⟨rfl, rfl⟩, rfl⟩ (.cons ⟨rfl, rfl⟩ (.nil _)))
  ⟨_, fifo hrun⟩

/-- **No wakeup is lost**: a writer sleeps only on a full buffer that can be read. A reader
sleeps only on an empty buffer that can be written, unless a killed writer has given up; so
without that, a reader and a writer never wait for each other. -/
theorem sleeps_in_need (h : Run Step (boot data) es s) :
    (∀ i, s.chan i = some .nwrite →
      s.pipe.contents.length = PIPESIZE ∧ s.pipe.readopen = true) ∧
    (∀ i, s.chan i = some .nread →
      s.pipe.writeopen = true ∧ (s.pipe.contents = [] ∨ s.dropped = true)) ∧
    (s.dropped = false → ∀ i j, s.chan i = some .nwrite → s.chan j ≠ some .nread) := by
  have hI := inv_run h
  have hlen : s.pipe.contents.length = span s.pipe.nread s.pipe.nwrite := length_window
  have hfull : ∀ i, s.chan i = some .nwrite →
      s.pipe.contents.length = PIPESIZE ∧ s.pipe.readopen = true := by
    intro i hi
    obtain ⟨-, hf, hr⟩ := hI.writer i hi
    exact ⟨hlen.trans (Pipe.full_iff.1 hf), hr⟩
  have hempty : ∀ i, s.chan i = some .nread →
      s.pipe.writeopen = true ∧ (s.pipe.contents = [] ∨ s.dropped = true) := by
    intro i hi
    refine (hI.reader i hi).imp_right (Or.imp_left fun he => ?_)
    exact List.eq_nil_of_length_eq_zero (hlen.trans (span_eq_zero.2 he))
  refine ⟨hfull, hempty, fun hd i j hi hj => ?_⟩
  rcases (hempty j hj).2 with he | hdrop
  · have := (hfull i hi).1
    rw [he] at this
    exact absurd this (by decide)
  · rw [hd] at hdrop
    cases hdrop

theorem sleeps_in_need_reader : ∃ s : Sys, s.chan 1 = some .nread ∧
    s.pipe.writeopen = true ∧ (s.pipe.contents = [] ∨ s.dropped = true) :=
  have hread : Step (boot fun _ => 0) (.read 1 false 3) _ := ⟨⟨rfl, rfl⟩, rfl⟩
  ⟨_, rfl, (sleeps_in_need (.cons hread (.nil _))).2.1 1 rfl⟩

/-- When both ends are closed, and `pipeclose` frees the page, no process is in the pipe. -/
theorem idle_of_closed (h : Run Step (boot data) es s) (hr : s.pipe.readopen = false)
    (hw : s.pipe.writeopen = false) (i : Nat) : s.task i = .idle := by
  have hI := inv_run h
  cases hi : s.task i with
  | idle => rfl
  | write n todo => exact absurd (hw.symm.trans (hI.writing i n todo hi)) nofun
  | read n => exact absurd (hr.symm.trans (hI.reading i n hi)) nofun

end Sys

end Xv6.Kernel.Pipes
