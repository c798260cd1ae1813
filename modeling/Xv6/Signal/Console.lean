/-
Signals from the keyboard.

`consoleintr` takes all the characters that the device has, with `cons.lock` held. It
cannot call `sendsig` there, so it notes the signal in `sigtype` and sends it after the
loop. There is one `sigtype` for all the characters of the call: each control character
overwrites it, and only the last one of the call is sent.

The buffer is a ring of which `r`, `w` and `e` are positions that only their users take
modulo its size. `calls` records what `consoleintr` calls, in order, and `got` what the
readers of the console have taken. Nothing the code does depends on them.
-/
import Xv6.Signal.Step

set_option autoImplicit false

namespace Xv6.Signal.Console

open Xv6.Lib

/-! ## The code -/

abbrev INPUT_BUF : Nat := 128

/-- Control-x. -/
def C (x : Char) : Nat := x.toNat - '@'.toNat

/-- `input`. -/
structure Input where
  buf : Fin INPUT_BUF → BitVec 8
  /-- Read index. -/
  r : BitVec 32
  /-- Write index. -/
  w : BitVec 32
  /-- Edit index. -/
  e : BitVec 32

/-- The element of `buf` at a position. -/
def slot (i : BitVec 32) : Fin INPUT_BUF := ⟨i.toNat % INPUT_BUF, Nat.mod_lt _ (by decide)⟩

/-- What `consoleintr` calls. -/
inductive Call where
  | consputc (c : Nat)
  /-- `wakeup(&input.r)`. -/
  | wakeup
  | cprintf (msg : String)
  | sendsig (n : Nat)
  | procdump
  deriving DecidableEq

def BACKSPACE : Nat := 0x100

/-- The variables of `consoleintr`, with what it has called. -/
structure Loop where
  input : Input
  sigtype : Nat
  doprocdump : Bool
  calls : List Call

namespace Loop

def call (k : Call) (l : Loop) : Loop := { l with calls := l.calls ++ [k] }

def setInput (i : Input) (l : Loop) : Loop := { l with input := i }

/-- `input.e--`, and the character disappears from the screen. -/
def erase (l : Loop) : Loop :=
  (l.setInput { l.input with e := l.input.e - 1 }).call (.consputc BACKSPACE)

/-- The loop of Control-U; each turn takes `e` one closer to `w`. -/
def killLine : Nat → Loop → Loop
  | 0, l => l
  | n + 1, l =>
    if l.input.e ≠ l.input.w ∧ l.input.buf (slot (l.input.e - 1)) ≠ 10 then killLine n l.erase
    else l

/-- The default case of the switch. -/
def store (c : Nat) (l : Loop) : Loop :=
  if c ≠ 0 ∧ (l.input.e - l.input.r).toNat < INPUT_BUF then
    let c := if c = 13 then 10 else c
    let i := { l.input with
      buf := Function.update l.input.buf (slot l.input.e) (BitVec.ofNat 8 c)
      e := l.input.e + 1 }
    let l := (l.setInput i).call (.consputc c)
    if c = 10 ∨ c = C 'D' ∨ i.e = i.r + BitVec.ofNat 32 INPUT_BUF then
      (l.setInput { i with w := i.e }).call .wakeup
    else l
  else l

/-- One turn of the loop, on character `c`. -/
def key (l : Loop) (c : Nat) : Loop :=
  if c = C 'P' then { l with doprocdump := true }
  else if c = C 'C' then { l with sigtype := 1 }
  else if c = C 'B' then { l with sigtype := 2 }
  else if c = C 'F' then { l with sigtype := 3 }
  else if c = C 'G' then { l with sigtype := 4 }
  else if c = C 'U' then l.killLine (l.input.e - l.input.w).toNat
  else if c = C 'H' ∨ c = 0x7f then if l.input.e ≠ l.input.w then l.erase else l
  else l.store c

/-- The switch on `sigtype` after the loop. -/
def send (l : Loop) : Loop :=
  match l.sigtype with
  | 1 => (l.call (.cprintf "Ctrl-C is detected by xv6\n")).call (.sendsig 1)
  | 2 => (l.call (.cprintf "Ctrl-B is detected by xv6\n")).call (.sendsig 2)
  | 3 => (l.call (.cprintf "Ctrl-F is detected by xv6\n")).call (.sendsig 3)
  | 4 => (l.call (.cprintf "Ctrl-G is detected by xv6\n")).call (.sendsig 4)
  | _ => l

def dump (l : Loop) : Loop := if l.doprocdump then l.call .procdump else l

end Loop

/-- The buffer, what `consoleintr` has called, and what readers have got. -/
structure State where
  input : Input
  calls : List Call
  got : List (BitVec 8)

/-- `consoleintr`, where `getc` gives the characters `cs` and then a negative value. -/
def consoleintr (cs : List Nat) (s : State) : State :=
  let l := ((cs.foldl Loop.key ⟨s.input, 0, false, s.calls⟩).send).dump
  { s with input := l.input, calls := l.calls }

/-- One turn of the loop of `consoleread`, which waits while there is nothing to read. It
leaves the end of file in the buffer if it has read something before (`n < target`). -/
def consoleread (some_read : Bool) (s : State) : State :=
  if s.input.r = s.input.w then s
  else
    let c := s.input.buf (slot s.input.r)
    if c = BitVec.ofNat 8 (C 'D') then
      if some_read then s else { s with input := { s.input with r := s.input.r + 1 } }
    else { s with input := { s.input with r := s.input.r + 1 }, got := s.got ++ [c] }

inductive Event where
  /-- A call of `consoleintr` that drains these characters. -/
  | intr (cs : List Nat)
  | read (some_read : Bool)
  deriving DecidableEq

def Event.run (s : State) : Event → State
  | .intr cs => consoleintr cs s
  | .read b => consoleread b s

def run (es : List Event) (s : State) : State := es.foldl Event.run s

/-! ## What was typed and what was sent -/

/-- The signal that a character stands for. -/
def signum (c : Nat) : Option Nat :=
  if c = C 'C' then some 1
  else if c = C 'B' then some 2
  else if c = C 'F' then some 3
  else if c = C 'G' then some 4
  else none

/-- The signals that a list of characters stands for. -/
def signals (cs : List Nat) : List Nat := cs.filterMap signum

/-- The other characters. -/
def others (cs : List Nat) : List Nat := cs.filter fun c => (signum c).isNone

def Event.typed : Event → List Nat
  | .intr cs => signals cs
  | .read _ => []

/-- The event without its control characters. -/
def Event.plain : Event → Event
  | .intr cs => .intr (others cs)
  | .read b => .read b

def Call.signal : Call → Option Nat
  | .sendsig n => some n
  | _ => none

/-- The calls of `sendsig`. -/
def sent (calls : List Call) : List Nat := calls.filterMap Call.signal

variable {l l' : Loop} {s t : State} {c n : Nat}

/-! ## One character -/

theorem signum_range (h : signum c = some n) : 1 ≤ n ∧ n ≤ 4 := by
  unfold signum at h
  split_ifs at h <;> cases h <;> decide

/-- A control character only writes `sigtype`. -/
theorem key_signal (h : signum c = some n) : l.key c = { l with sigtype := n } := by
  unfold signum at h
  split_ifs at h with h1 h2 h3 h4
  all_goals
    obtain rfl := Option.some.inj h
    subst c
    rfl

theorem killLine_sigtype (n : Nat) (l : Loop) : (l.killLine n).sigtype = l.sigtype := by
  induction n generalizing l with
  | zero => rfl
  | succ n ih =>
    unfold Loop.killLine
    split
    · exact ih l.erase
    · rfl

theorem store_sigtype (c : Nat) (l : Loop) : (l.store c).sigtype = l.sigtype := by
  unfold Loop.store
  generalize (if c = 13 then 10 else c) = d
  split
  · simp only
    split
    · rfl
    · rfl
  · rfl

/-- The other characters leave `sigtype`. -/
theorem key_sigtype (h : signum c = none) : (l.key c).sigtype = l.sigtype := by
  unfold signum at h
  split_ifs at h with h1 h2 h3 h4
  unfold Loop.key
  rw [if_neg h1, if_neg h2, if_neg h3, if_neg h4]
  split_ifs
  · rfl
  · exact killLine_sigtype _ l
  · rfl
  · rfl
  · exact store_sigtype c l

theorem sent_call (k : Call) (l : Loop) :
    sent (l.call k).calls = sent l.calls ++ k.signal.toList := by
  unfold sent Loop.call
  rw [List.filterMap_append]
  cases hk : k.signal <;> simp [hk]

theorem sent_quiet {k : Call} (hk : k.signal = none) (l : Loop) :
    sent (l.call k).calls = sent l.calls := by
  rw [sent_call, hk]
  exact List.append_nil _

theorem erase_sent (l : Loop) : sent l.erase.calls = sent l.calls := sent_quiet rfl (l.setInput _)

theorem killLine_sent (n : Nat) (l : Loop) : sent (l.killLine n).calls = sent l.calls := by
  induction n generalizing l with
  | zero => rfl
  | succ n ih =>
    unfold Loop.killLine
    split
    · exact (ih l.erase).trans (erase_sent l)
    · rfl

theorem store_sent (c : Nat) (l : Loop) : sent (l.store c).calls = sent l.calls := by
  unfold Loop.store
  generalize (if c = 13 then 10 else c) = d
  split
  · simp only
    split
    · refine (sent_quiet rfl _).trans ?_
      exact sent_quiet (k := .consputc d) rfl (l.setInput _)
    · exact sent_quiet rfl (l.setInput _)
  · rfl

/-- No signal is sent inside the loop. -/
theorem key_sent (l : Loop) (c : Nat) : sent (l.key c).calls = sent l.calls := by
  unfold Loop.key
  split_ifs
  · rfl
  · rfl
  · rfl
  · rfl
  · rfl
  · exact killLine_sent _ l
  · exact erase_sent l
  · rfl
  · exact store_sent c l

theorem erase_input (l : Loop) : l.erase.input = { l.input with e := l.input.e - 1 } := rfl

theorem killLine_input (n : Nat) (h : l.input = l'.input) :
    (l.killLine n).input = (l'.killLine n).input := by
  induction n generalizing l l' with
  | zero => exact h
  | succ n ih =>
    have herase : l.erase.input = l'.erase.input := by
      rw [erase_input, erase_input, h]
    unfold Loop.killLine
    rw [h]
    split
    · exact ih herase
    · exact h

theorem store_input (c : Nat) (h : l.input = l'.input) : (l.store c).input = (l'.store c).input := by
  unfold Loop.store
  generalize (if c = 13 then 10 else c) = d
  rw [h]
  split
  · simp only
    split
    · rfl
    · rfl
  · exact h

/-- What a character does to the buffer depends on the buffer alone. -/
theorem key_input (c : Nat) (h : l.input = l'.input) : (l.key c).input = (l'.key c).input := by
  unfold Loop.key
  rw [h]
  split_ifs
  · rfl
  · rfl
  · rfl
  · rfl
  · rfl
  · exact killLine_input _ h
  · rw [erase_input, erase_input, h]
  · exact h
  · exact store_input c h

/-! ## The loop -/

theorem signals_cons_none (h : signum c = none) (cs : List Nat) : signals (c :: cs) = signals cs :=
  List.filterMap_cons_none h

theorem signals_cons_some (h : signum c = some n) (cs : List Nat) :
    signals (c :: cs) = n :: signals cs := List.filterMap_cons_some h

theorem others_cons_none (h : signum c = none) (cs : List Nat) :
    others (c :: cs) = c :: others cs := by
  unfold others
  rw [List.filter_cons_of_pos]
  rw [h]
  rfl

theorem others_cons_some (h : signum c = some n) (cs : List Nat) : others (c :: cs) = others cs := by
  unfold others
  rw [List.filter_cons_of_neg]
  rw [h]
  exact Bool.false_ne_true

/-- After the loop `sigtype` is the last signal of the call. -/
theorem keys_sigtype (cs : List Nat) (l : Loop) :
    (cs.foldl Loop.key l).sigtype = (signals cs).getLast?.getD l.sigtype := by
  induction cs generalizing l with
  | nil => rfl
  | cons c cs ih =>
    rw [List.foldl_cons, ih]
    cases hc : signum c with
    | none => rw [key_sigtype hc, signals_cons_none hc]
    | some n =>
      rw [key_signal hc, signals_cons_some hc, List.getLast?_cons]
      rfl

theorem keys_sent (cs : List Nat) (l : Loop) : sent (cs.foldl Loop.key l).calls = sent l.calls := by
  induction cs generalizing l with
  | nil => rfl
  | cons c cs ih => rw [List.foldl_cons, ih, key_sent]

/-- The buffer is as if the control characters had not been typed. -/
theorem keys_input (cs : List Nat) (h : l.input = l'.input) :
    (cs.foldl Loop.key l).input = ((others cs).foldl Loop.key l').input := by
  induction cs generalizing l l' with
  | nil => exact h
  | cons c cs ih =>
    rw [List.foldl_cons]
    cases hc : signum c with
    | none =>
      rw [others_cons_none hc, List.foldl_cons]
      exact ih (key_input c h)
    | some n =>
      rw [others_cons_some hc]
      apply ih
      rw [key_signal hc]
      exact h

theorem send_input (l : Loop) : l.send.dump.input = l.input := by
  unfold Loop.dump Loop.send
  split <;> split <;> rfl

/-- The call of `sendsig` after the loop. -/
theorem send_sent (l : Loop) : sent l.send.dump.calls =
    sent l.calls ++ if 1 ≤ l.sigtype ∧ l.sigtype ≤ 4 then [l.sigtype] else [] := by
  have hdump : ∀ l : Loop, sent l.dump.calls = sent l.calls := by
    intro l
    unfold Loop.dump
    split
    · exact sent_quiet rfl l
    · rfl
  have hsend : ∀ (msg : String) (n : Nat),
      sent ((l.call (.cprintf msg)).call (.sendsig n)).calls = sent l.calls ++ [n] := by
    intro msg n
    rw [sent_call, sent_quiet rfl]
    rfl
  rw [hdump]
  unfold Loop.send
  split
  · next h => rw [hsend, h]; rfl
  · next h => rw [hsend, h]; rfl
  · next h => rw [hsend, h]; rfl
  · next h => rw [hsend, h]; rfl
  · next h1 h2 h3 h4 =>
    rw [if_neg, List.append_nil]
    rintro ⟨hlo, hhi⟩
    have h1 : l.sigtype ≠ 1 := h1
    have h2 : l.sigtype ≠ 2 := h2
    have h3 : l.sigtype ≠ 3 := h3
    have h4 : l.sigtype ≠ 4 := h4
    omega

/-- **One call of `consoleintr` sends the last signal** that its characters stand for. -/
theorem consoleintr_sent (cs : List Nat) (s : State) :
    sent (consoleintr cs s).calls = sent s.calls ++ (signals cs).getLast?.toList := by
  unfold consoleintr
  simp only
  rw [send_sent, keys_sent, keys_sigtype]
  congr 1
  cases hl : (signals cs).getLast? with
  | none => rfl
  | some n =>
    obtain ⟨c, -, hc⟩ := List.mem_filterMap.1 (List.mem_of_getLast? hl)
    exact if_pos (signum_range hc)

theorem consoleintr_input (cs : List Nat) (h : s.input = t.input) :
    (consoleintr cs s).input = (consoleintr (others cs) t).input := by
  unfold consoleintr
  simp only
  rw [send_input, send_input]
  exact keys_input cs h

/-! ## The process table -/

/-- What a call does to the process table, where `a` stands for `&input.r`. -/
def Call.event (a : Nat) : Call → Option Signal.Event
  | .wakeup => some (.wakeup a)
  | .sendsig n => some (.sendsig n)
  | _ => none

/-- The calls are steps that the kernel can always make, in their order. -/
theorem calls_run (k : Config) (a : Nat) (ks : List Call) {m : Machine} (hm : m.panicked = none) :
    ∃ m', Run (Signal.Step k) m (ks.filterMap (Call.event a)) m' ∧ m'.panicked = none := by
  induction ks generalizing m with
  | nil => exact ⟨m, .nil m, hm⟩
  | cons c ks ih =>
    have hstep : ∀ e, c.event a = some e →
        ∃ m', Signal.Step k m e m' ∧ m'.panicked = none := by
      intro e he
      cases c <;> cases he
      case wakeup => exact ⟨_, if_pos hm, hm⟩
      case sendsig n =>
        have hsig : (Signal.sendsig n m).panicked = m.panicked := by
          unfold Signal.sendsig
          split_ifs <;> rfl
        exact ⟨_, if_pos hm, hsig.trans hm⟩
    rw [List.filterMap_cons]
    cases hc : c.event a with
    | none => exact ih hm
    | some e =>
      obtain ⟨m1, h1, hm1⟩ := hstep e hc
      obtain ⟨m2, h2, hm2⟩ := ih hm1
      exact ⟨m2, .cons h1 h2, hm2⟩

/-! ## Runs -/

/-- What a reader finds and leaves depends on the buffer alone. -/
theorem consoleread_same (b : Bool) (hi : s.input = t.input) (hg : s.got = t.got) :
    (consoleread b s).input = (consoleread b t).input ∧
      (consoleread b s).got = (consoleread b t).got := by
  unfold consoleread
  rw [hi, hg]
  split
  · exact ⟨hi, hg⟩
  · simp only
    split
    · split
      · exact ⟨hi, hg⟩
      · exact ⟨rfl, rfl⟩
    · exact ⟨rfl, rfl⟩

theorem run_same (es : List Event) (hi : s.input = t.input) (hg : s.got = t.got) :
    (run es s).input = (run (es.map Event.plain) t).input ∧
      (run es s).got = (run (es.map Event.plain) t).got := by
  induction es generalizing s t with
  | nil => exact ⟨hi, hg⟩
  | cons e es ih =>
    cases e with
    | intr cs => exact ih (consoleintr_input cs hi) hg
    | read b =>
      obtain ⟨hi, hg⟩ := consoleread_same b hi hg
      exact ih hi hg

/-- The signals that a run sends. -/
def Event.sends : Event → List Nat
  | .intr cs => (signals cs).getLast?.toList
  | .read _ => []

theorem run_sent (es : List Event) (s : State) :
    sent (run es s).calls = sent s.calls ++ es.flatMap Event.sends := by
  induction es generalizing s with
  | nil => exact (List.append_nil _).symm
  | cons e es ih =>
    rw [List.flatMap_cons, ← List.append_assoc]
    refine (ih (e.run s)).trans ?_
    congr 1
    cases e with
    | intr cs => exact consoleintr_sent cs s
    | read b =>
      have hcalls : (consoleread b s).calls = s.calls := by
        unfold consoleread
        split
        · rfl
        · simp only
          split
          · split
            · rfl
            · rfl
          · rfl
      exact (congrArg sent hcalls).trans (List.append_nil _).symm

/-- At most one signal is typed for each call of `consoleintr`. -/
def Event.single (e : Event) : Prop := e.typed.length ≤ 1

theorem getLast_length (l : List Nat) : l.getLast?.toList.length ≤ l.length := by
  cases l with
  | nil => exact le_rfl
  | cons a l =>
    rw [List.getLast?_cons]
    exact Nat.succ_le_succ (Nat.zero_le _)

theorem getLast_eq_iff (l : List Nat) : l.getLast?.toList = l ↔ l.length ≤ 1 := by
  match l with
  | [] => exact iff_of_true rfl (Nat.zero_le 1)
  | [a] => exact iff_of_true rfl le_rfl
  | a :: b :: l =>
    refine iff_of_false (fun h => ?_) fun h => ?_
    · have hlen := congrArg List.length h
      rw [List.getLast?_cons] at hlen
      cases hlen
    · rw [List.length_cons, List.length_cons] at h
      omega

theorem sends_length (e : Event) : e.sends.length ≤ e.typed.length := by
  cases e with
  | intr cs => exact getLast_length (signals cs)
  | read b => exact le_rfl

theorem sends_eq_iff (e : Event) : e.sends = e.typed ↔ e.single := by
  cases e with
  | intr cs => exact getLast_eq_iff (signals cs)
  | read b => exact iff_of_true rfl (Nat.zero_le 1)

theorem runs_length (es : List Event) :
    (es.flatMap Event.sends).length ≤ (es.flatMap Event.typed).length := by
  induction es with
  | nil => exact le_rfl
  | cons e es ih =>
    rw [List.flatMap_cons, List.flatMap_cons, List.length_append, List.length_append]
    exact Nat.add_le_add (sends_length e) ih

/-- What is sent is what was typed, if each call gets one signal. -/
theorem runs_eq_iff (es : List Event) :
    es.flatMap Event.sends = es.flatMap Event.typed ↔ ∀ e ∈ es, e.single := by
  induction es with
  | nil => exact iff_of_true rfl fun e he => absurd he List.not_mem_nil
  | cons e es ih =>
    rw [List.flatMap_cons, List.flatMap_cons, List.forall_mem_cons, ← ih, ← sends_eq_iff]
    constructor
    · intro h
      -- neither part can be longer than what was typed, so both are as long
      have hlen := congrArg List.length h
      have h1 := sends_length e
      have h2 := runs_length es
      rw [List.length_append, List.length_append] at hlen
      exact List.append_inj h (by omega)
    · rintro ⟨h1, h2⟩
      rw [h1, h2]

/-- **No keyboard signal is lost or reordered** exactly in the runs in which each call of
`consoleintr` finds at most one. The other characters always change the buffer, and reach
the readers, as if the control characters had not been typed. -/
theorem keyboard_signals (es : List Event) (s : State) :
    (sent (run es s).calls = sent s.calls ++ es.flatMap Event.typed ∧
      (run es s).input = (run (es.map Event.plain) s).input ∧
      (run es s).got = (run (es.map Event.plain) s).got) ↔ ∀ e ∈ es, e.single := by
  obtain ⟨hinput, hgot⟩ := run_same es (s := s) rfl rfl
  rw [← runs_eq_iff, run_sent]
  constructor
  · rintro ⟨h, -, -⟩
    exact List.append_cancel_left h
  · intro h
    exact ⟨congrArg _ h, hinput, hgot⟩

/-- An empty buffer. -/
def idle : State := ⟨⟨fun _ => 0, 0, 0, 0⟩, [], []⟩

/-- Control-B and Control-F in one call: the processes are not suspended. -/
theorem suspend_lost : ¬ (sent (run [.intr [C 'B', C 'F']] idle).calls =
    sent idle.calls ++ [.intr [C 'B', C 'F']].flatMap Event.typed) := by
  decide

end Xv6.Signal.Console
