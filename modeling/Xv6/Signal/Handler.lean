/-
Who a handler is entered for.

`sighandler` and `sig_pending` are two fields of the slot, and a delivery looks at
nothing else. The law of signals is about a history: the handler was registered by
this process since it was created and since its last `exec`, and the signal was sent
after that. So the state here is the machine with a record of what happened
(`Chronicle`), newest entry first, and an event that the table does not see (`exec`).

A process is its slot between two `created` entries. The console sends SIGCUSTOM
only; what SIGBG and SIGFG do to the table is the business of other modules.
-/
import Xv6.Signal.Account

set_option autoImplicit false

namespace Xv6.Signal

open Xv6.Lib

/-- What is recorded of the past. -/
inductive Note where
  /-- `allocproc` took the slot. -/
  | created (i : Slot)
  /-- `signal` stored the handler `h`. -/
  | registered (i : Slot) (h : Nat)
  /-- `exec` replaced the program. -/
  | execed (i : Slot)
  /-- SIGCUSTOM, with the processes that it marked. -/
  | sent (who : List Slot)
  /-- `syscall` sent the process to the handler `h`. -/
  | entered (i : Slot) (h : Nat)
  /-- `syscall` lost the signal: its `copyout` failed. -/
  | dropped (i : Slot)
  deriving DecidableEq, Repr

structure Chronicle where
  m : Machine
  past : List Note

/-- A step of the kernel, with the outcome of the `copyout` at the end of `syscall`, or
a successful `exec`. -/
inductive Act where
  | kernel (e : Event) (copied : Bool)
  | exec (c : Nat)
  deriving DecidableEq, Repr

/-- The only signal from the console is SIGCUSTOM. -/
def Event.onlyCustom : Event → Bool
  | .sendsig n => n == 4
  | _ => true

/-- Whether `syscall` ends in the handler. -/
def Proc.redirects (copied : Bool) (p : Proc) : Bool :=
  p.sig_pending && p.sighandler != 0 && copied

/-- What the end of `syscall` adds to the record. -/
def Proc.delivery (i : Slot) (copied : Bool) (p : Proc) : List Note :=
  if p.redirects copied then [.entered i p.sighandler]
  else if p.redirects true then [.dropped i]
  else []

/-- Whether SIGCUSTOM marks the process. -/
def Proc.marked (p : Proc) : Bool := 2 < p.pid && p.state != .UNUSED && p.state != .ZOMBIE

/-- What an event adds to the record. -/
def notes (m : Machine) (copied : Bool) : Event → List Note
  | .fork c _ =>
    match m.cpu c, m.find fun p => p.state == .UNUSED with
    | some _, some np => [.created np]
    | _, _ => []
  | .signal c h =>
    match m.cpu c with
    | some i => [.registered i h]
    | none => []
  | .leave c =>
    match m.cpu c with
    | some i => (m.proc i).delivery i copied
    | none => []
  | .sendsig _ => [.sent ((List.finRange NPROC).filter fun i => (m.proc i).marked)]
  | _ => []

/-- One step. `exec` commits to the new image in the body of a system call: it writes
`pgdir`, `sz`, `name` and the trap frame, and none of the fields here. -/
def Chronicle.step (k : Config) (a : Act) (s : Chronicle) : Option Chronicle :=
  match a with
  | .kernel e copied =>
    if e.onlyCustom then
      (Signal.step k e s.m).map fun m => ⟨m, notes s.m copied e ++ s.past⟩
    else none
  | .exec c =>
    match s.m.cpu c with
    | some i =>
      if (s.m.proc i).pos = .syscall ∧ s.m.panicked = none then
        some ⟨s.m, .execed i :: s.past⟩
      else none
    | none => none

def Chronicle.Step (k : Config) (s : Chronicle) (a : Act) (t : Chronicle) : Prop :=
  s.step k a = some t

/-- After `userinit`, with nothing on record. -/
def Chronicle.boot (k : Config) : Chronicle := ⟨Signal.boot k, []⟩

/-! ## The law -/

/-- Reading the past back: `i` registered `h`, and since then it was not created anew
and executed no other program. -/
def Standing (i : Slot) (h : Nat) : List Note → Bool
  | [] => false
  | .registered j g :: ns => (j == i && g == h) || Standing i h ns
  | .execed j :: ns | .created j :: ns => j != i && Standing i h ns
  | .sent _ :: ns | .entered _ _ :: ns | .dropped _ :: ns => Standing i h ns

/-- Reading the past back: a SIGCUSTOM marked `i` when its registration of `h` was
standing, and since then `i` entered no handler, lost no signal, executed no other program
and was not created anew. -/
def Due (i : Slot) (h : Nat) : List Note → Bool
  | [] => false
  | .sent who :: ns => (who.contains i && Standing i h ns) || Due i h ns
  | .execed j :: ns | .created j :: ns | .entered j _ :: ns | .dropped j :: ns =>
    j != i && Due i h ns
  | .registered _ _ :: ns => Due i h ns

/-- An entry that takes nothing from a registration of `i`. -/
def Note.sparesHandler (i : Slot) : Note → Bool
  | .execed j | .created j => j != i
  | _ => true

/-- An entry that takes nothing from a pending signal of `i`. -/
def Note.sparesSignal (i : Slot) : Note → Bool
  | .entered j _ | .dropped j => j != i
  | n => n.sparesHandler i

variable {k : Config} {i j : Slot} {h : Nat} {n : Note} {past ns : List Note}

theorem Standing.cons (hs : Standing i h past = true) (hn : n.sparesHandler i = true) :
    Standing i h (n :: past) = true := by
  cases n with
  | created j => exact (Bool.and_eq_true _ _).mpr ⟨hn, hs⟩
  | execed j => exact (Bool.and_eq_true _ _).mpr ⟨hn, hs⟩
  | registered j g => exact (Bool.or_eq_true _ _).mpr (Or.inr hs)
  | sent who => exact hs
  | entered j g => exact hs
  | dropped j => exact hs

theorem Due.cons (hd : Due i h past = true) (hn : n.sparesSignal i = true) :
    Due i h (n :: past) = true := by
  cases n with
  | created j => exact (Bool.and_eq_true _ _).mpr ⟨hn, hd⟩
  | execed j => exact (Bool.and_eq_true _ _).mpr ⟨hn, hd⟩
  | registered j g => exact hd
  | sent who => exact (Bool.or_eq_true _ _).mpr (Or.inr hd)
  | entered j g => exact (Bool.and_eq_true _ _).mpr ⟨hn, hd⟩
  | dropped j => exact (Bool.and_eq_true _ _).mpr ⟨hn, hd⟩

/-- What the two fields of a process say about its past. -/
structure Law (past : List Note) (i : Slot) (p : Proc) : Prop where
  handler : p.sighandler ≠ 0 → Standing i p.sighandler past = true
  pending : p.sig_pending = true → p.sighandler ≠ 0 → Due i p.sighandler past = true

theorem Law.of_none {p : Proc} (hp : p.sighandler = 0) : Law past i p :=
  ⟨fun h => absurd hp h, fun _ h => absurd hp h⟩

/-- The law is kept by an entry that spares it and a process with the same handler
that is pending only if it was. -/
theorem Law.cons {p q : Proc} (hl : Law past i p) (hn : n.sparesSignal i = true)
    (hh : q.sighandler = p.sighandler) (hp : q.sig_pending = true → p.sig_pending = true) :
    Law (n :: past) i q := by
  have hn' : n.sparesHandler i = true := by
    cases n <;> first | exact hn | rfl
  constructor
  · intro h
    rw [hh] at h ⊢
    exact Standing.cons (hl.handler h) hn'
  · intro hq h
    rw [hh] at h ⊢
    exact Due.cons (hl.pending (hp hq) h) hn

theorem Law.keep {p q : Proc} (hl : Law past i p) (hh : q.sighandler = p.sighandler)
    (hp : q.sig_pending = true → p.sig_pending = true) : Law past i q := by
  constructor
  · intro h
    rw [hh] at h ⊢
    exact hl.handler h
  · intro hq h
    rw [hh] at h ⊢
    exact hl.pending (hp hq) h

/-- The process is in use: its fields are its own. -/
def Proc.inUse (p : Proc) : Prop := p.state ≠ .UNUSED ∧ p.state ≠ .EMBRYO

/-- The invariant: the law holds of each process in use, and of one that is being
created from the stage on that clears its signals. -/
structure Lawful (past : List Note) (m : Machine) : Prop where
  live : ∀ i, (m.proc i).inUse → Law past i (m.proc i)
  creating : ∀ j np a st, (m.proc j).pos = .creating np a st → st ≠ .stack → st ≠ .signals →
    Law past np (m.proc np)

/-- The condition on a step: `signal` is not called to register a handler while a
signal is pending, nor `exec` while a handler is registered. -/
def Careful (s : Chronicle) : Act → Prop
  | .kernel (.signal c h) _ => ∀ i ∈ s.m.cpu c, h = 0 ∨ (s.m.proc i).sig_pending = false
  | .exec c => ∀ i ∈ s.m.cpu c, (s.m.proc i).sighandler = 0
  | _ => True

instance (s : Chronicle) (a : Act) : Decidable (Careful s a) := by
  unfold Careful
  split <;> infer_instance

/-! ## What the events do to it -/

variable {s t : Machine} {e : Event}

/-- Outside a creation's last stage no slot comes into use. -/
theorem inUse_step (hP : Placed s) (he : effect k e s = some t) (hc : e.onlyCustom = true)
    (ha : ∀ c, e ≠ .advance c) (hp : t.panicked = none) (hj : (t.proc j).inUse) :
    (s.proc j).inUse := by
  obtain ⟨hu, hem⟩ := hj
  unfold Proc.inUse
  by_cases ho : e.isTurn = true
  · obtain ⟨c, i, q, hi, hq, hT, -⟩ := turn_step he ho
    have hr := hP.running c i hi
    rw [hq] at hu hem
    split at hu
    · rename_i hji
      rw [hji, hr]
      exact ⟨by simp, by simp⟩
    · rename_i hji
      rw [if_neg hji] at hem
      exact ⟨hu, hem⟩
  cases e <;> first
    | exact absurd rfl ho
    | simp only [effect, act_eq_some, Option.some.injEq] at he
  case round c =>
    split at he
    · obtain rfl := Option.some.inj he
      have hag := aged_state k s j
      rcases round_cases k c hp with ⟨-, hr⟩ | ⟨i, -, hst, -, hr⟩
      · rw [hr] at hu hem
        grind
      · have hagi := aged_state k s i
        rw [hr] at hu hem
        grind
    · cases he
  case wakeup a =>
    subst he
    rcases wakeup1_proc (some (.addr a)) s j with hw | ⟨hs, -⟩
    · rw [hw] at hu hem
      exact ⟨hu, hem⟩
    · rw [hs]
      exact ⟨by simp, by simp⟩
  case exitDone c =>
    obtain ⟨i, hi, -, rfl⟩ := he
    split at hu
    · rename_i hin
      rw [if_pos hin] at hem
      exact ⟨hu, hem⟩
    · rename_i hin
      rw [if_neg hin] at hem
      have hr := hP.running c i hi
      by_cases hji : j = i
      · rw [hji, hr]
        exact ⟨by simp, by simp⟩
      · obtain ⟨st, hst, hq⟩ := exitDone_other (c := c) (s := s) hji
        rw [Proc.reparent_state] at hst
        rw [hq] at hu hem
        grind
  case wait c =>
    obtain ⟨i, hi, -, rfl⟩ := he
    have hr := hP.running c i hi
    rcases wait_cases c i s with ⟨l, -, hz, hw⟩ | hw | ⟨-, hw⟩ <;> rw [hw] at hu hem
    · grind [Proc.reap]
    · exact ⟨hu, hem⟩
    · grind [sleep]
  case kill c pid =>
    obtain ⟨i, -, -, rfl⟩ := he
    rcases kill_cases pid s with hk | ⟨l, -, hk⟩ <;> rw [hk] at hu hem
    · exact ⟨hu, hem⟩
    · grind [Proc.kill]
  case fork c a =>
    obtain ⟨i, -, -, rfl⟩ := he
    rcases allocproc_cases i a s with hk | ⟨np, hun, hk⟩ <;> rw [hk] at hu hem
    · exact ⟨hu, hem⟩
    · grind [Proc.alloc]
  case advance c => exact absurd rfl (ha c)
  case fail c =>
    obtain ⟨i, -, hg, rfl⟩ := he
    obtain ⟨np, a, st, -, -, hf⟩ := failFork_cases hg
    rw [hf] at hu hem
    grind [Proc.noStack, Proc.noCopy]
  case sendsig n =>
    subst he
    obtain rfl : n = 4 := by simpa [Event.onlyCustom] using hc
    -- signal 4 wakes a sleeping process, and resumes no other
    rcases sendsig_state 4 s j with hs | ⟨-, hs | hs⟩
    · rw [hs] at hu hem
      exact ⟨hu, hem⟩
    · rw [hs]
      exact ⟨by simp, by simp⟩
    · simp [Proc.resumedBy] at hs
  case scheduler_start c =>
    obtain ⟨i, -, -, rfl⟩ := he
    grind [Proc.start]
  case resumeExit c =>
    obtain ⟨i, -, -, rfl⟩ := he
    exact ⟨hu, hem⟩

/-! ## The law over a step -/

/-- The law passes to the next state where it passes for each process. -/
theorem Lawful.pass {past' : List Note} (h : Lawful past s)
    (hin : ∀ j, (t.proc j).inUse → (s.proc j).inUse)
    (hcr : ∀ j np a st, (t.proc j).pos = .creating np a st → st ≠ .stack →
      (s.proc j).pos = .creating np a st)
    (hl : ∀ j, Law past j (s.proc j) → Law past' j (t.proc j)) : Lawful past' t := by
  constructor
  · intro j hj
    exact hl j (h.live j (hin j hj))
  · intro j np a st hj h1 h2
    exact hl np (h.creating j np a st (hcr j np a st hj h1) h1 h2)

theorem Lawful.fork {c : Nat} {a : Option ForkArgs} {copied : Bool} (h : Lawful past s)
    (hn : Nursery s) (hi : s.cpu c = some i) :
    Lawful (notes s copied (.fork c a) ++ past) (allocproc i a s) := by
  unfold allocproc
  simp only [notes, hi]
  cases hf : s.find fun p => p.state == .UNUSED with
  | none => exact h
  | some np =>
    have hu : (s.proc np).state = .UNUSED := by simpa using s.find_some hf
    -- the new slot is in no creation, and an EMBRYO now
    have hnew : ∀ l b st, (s.proc l).pos ≠ .creating np b st := by
      intro l b st hl
      have := hn.embryo l np b st hl
      rw [hu] at this
      cases this
    have hother : ∀ j, j ≠ np → Law past j (s.proc j) → Law (.created np :: past) j
        (((s.set np (Proc.alloc s.nextpid a)).set i fun p =>
          { p with pos := .creating np a .stack }).proc j) := by
      intro j hj hl
      have hsp : (Note.created np).sparesSignal j = true := by
        simpa [Note.sparesSignal, Note.sparesHandler] using Ne.symm hj
      apply hl.cons hsp <;> grind
    constructor
    · intro j hj
      have hjn : j ≠ np := by
        rintro rfl
        apply hj.2
        grind [Proc.alloc]
      refine hother j hjn (h.live j ?_)
      unfold Proc.inUse at hj ⊢
      grind
    · intro l m b st hl h1 h2
      have hl' : (s.proc l).pos = .creating m b st := by
        simp only [Machine.set_proc] at hl
        grind [Proc.alloc]
      have hmn : m ≠ np := by
        rintro rfl
        exact hnew l b st hl'
      exact hother m hmn (h.creating l m b st hl' h1 h2)

theorem Lawful.advance {np : Slot} {a : Option ForkArgs} {st : Stage} (h : Lawful past s)
    (hn : Nursery s) (hpos : (s.proc i).pos = .creating np a st) :
    Lawful past (Signal.advance k i s) := by
  have hacc := fun j => advance_account (k := k) hpos j
  have hstate : ∀ j, j ≠ np → ((Signal.advance k i s).proc j).state = (s.proc j).state := by
    intro j hj
    simp only [Signal.advance, hpos, Machine.set_proc, if_neg hj]
    split <;> rfl
  -- every other process keeps its law
  have hother : ∀ j, j ≠ np → Law past j (s.proc j) → Law past j ((Signal.advance k i s).proc j) := by
    intro j hj hl
    have hj' := hacc j
    rw [if_neg hj] at hj'
    refine hl.keep hj'.sighandler fun hq => ?_
    rwa [hj'.sig_pending] at hq
  -- the new one has it from the stage on that clears the handler
  have hnp : st ≠ .stack → Law past np ((Signal.advance k i s).proc np) := by
    intro h1
    have hw := hacc np
    rw [if_pos rfl] at hw
    by_cases h2 : st = .signals
    · apply Law.of_none
      rw [hw.sighandler, h2]
      rfl
    · refine (h.creating i np a st hpos h1 h2).keep ?_ fun hq => ?_
      · rw [hw.sighandler]
        cases st <;> cases a <;> first | rfl | exact absurd rfl h2
      · rw [hw.sig_pending] at hq
        cases st <;> cases a <;> first | exact hq | cases hq
  constructor
  · intro j hj
    by_cases hjn : j = np
    · subst hjn
      apply hnp
      rintro rfl
      -- the first stage leaves an EMBRYO
      apply hj.2
      have hem := hn.embryo i j a .stack hpos
      simp only [Signal.advance, hpos, Machine.set_proc]
      split <;> exact hem
    · refine hother j hjn (h.live j ?_)
      unfold Proc.inUse at hj ⊢
      rwa [hstate j hjn] at hj
  · intro l m b st' hl h1 h2
    rw [advance_pos hpos] at hl
    by_cases hli : l = i
    · rw [if_pos hli] at hl
      cases st <;> simp only [Stage.next, Pos.creating.injEq, reduceCtorEq] at hl <;>
        obtain ⟨rfl, rfl, rfl⟩ := hl <;>
        first
          | exact absurd rfl h1
          | exact absurd rfl h2
          | exact hnp (by decide)
    · rw [if_neg hli] at hl
      -- a slot has one creator
      have hmn : m ≠ np := by
        rintro rfl
        exact hli (hn.creator l i m b a st' st hl hpos)
      exact hother m hmn (h.creating l m b st' hl h1 h2)

/-- `signal`. -/
theorem Law.register {p : Proc} (hp : h = 0 ∨ p.sig_pending = false) :
    Law (.registered i h :: past) i { p with sighandler := h, signalled := true } := by
  rcases hp with rfl | hp
  · exact .of_none rfl
  · constructor
    · intro _
      simp [Standing]
    · intro hq
      rw [hp] at hq
      cases hq

/-- The end of `syscall`. -/
theorem Law.leave {p : Proc} (hl : Law past i p) (copied : Bool) :
    Law (p.delivery i copied ++ past) i p.leave := by
  have hpend : p.leave.sighandler = p.sighandler ∧
      (p.leave.sighandler ≠ 0 → p.leave.sig_pending = false) := by
    refine ⟨rfl, fun h => ?_⟩
    simp only [Proc.leave, Proc.orExit] at h ⊢
    rw [if_pos h]
  constructor
  · intro h
    rw [hpend.1] at h ⊢
    unfold Proc.delivery
    split
    · exact Standing.cons (hl.handler h) rfl
    · split
      · exact Standing.cons (hl.handler h) rfl
      · exact hl.handler h
  · intro hq h
    rw [hpend.2 h] at hq
    cases hq

/-- SIGCUSTOM on a process that it marks. -/
theorem Law.mark {p : Proc} (hl : Law past i p) {who : List Slot}
    (hw : i ∈ who ↔ p.marked = true) : Law (.sent who :: past) i p.custom := by
  have hh : p.custom.sighandler = p.sighandler := by
    unfold Proc.custom
    split <;> rfl
  by_cases hm : p.marked = true
  · constructor
    · intro h
      rw [hh] at h ⊢
      exact Standing.cons (hl.handler h) rfl
    · intro _ h
      rw [hh] at h ⊢
      have hc : who.contains i = true := List.contains_iff_mem.2 (hw.2 hm)
      have hs := hl.handler h
      simp only [Due, Bool.or_eq_true, Bool.and_eq_true]
      exact Or.inl ⟨hc, hs⟩
  · have hcu : p.custom = p := by
      unfold Proc.custom
      apply if_neg
      simpa [Proc.marked] using hm
    rw [hcu]
    exact hl.cons rfl rfl id

/-- **One step.** -/
theorem Lawful.step {a : Act} {u v : Chronicle} (h : Lawful u.past u.m) (hP : Placed u.m)
    (hn : Nursery u.m) (ha : Careful u a) (hs : Chronicle.Step k u a v)
    (hp : v.m.panicked = none) : Lawful v.past v.m := by
  unfold Chronicle.Step Chronicle.step at hs
  cases a with
  | exec c =>
    simp only at hs
    split at hs
    case h_2 => cases hs
    rename_i i hi
    split at hs
    case isFalse => cases hs
    obtain rfl := Option.some.inj hs
    -- `exec` keeps the handler, so the condition says that there is none
    have h0 : (u.m.proc i).sighandler = 0 := ha i hi
    refine h.pass (fun _ hj => hj) (fun _ _ _ _ hj _ => hj) fun j hl => ?_
    by_cases hji : j = i
    · rw [hji]
      exact .of_none h0
    · apply hl.cons _ rfl id
      simpa [Note.sparesSignal, Note.sparesHandler] using Ne.symm hji
  | kernel e copied =>
    simp only at hs
    split at hs
    case isFalse => cases hs
    rename_i hc
    obtain ⟨m, hm, rfl⟩ := Option.map_eq_some_iff.1 hs
    have he := effect_of_step (show Step k u.m e m from hm)
    simp only at hp ⊢
    -- the stages of a creation copy the handler, and `fork` records the copy
    by_cases hadv : ∃ c, e = .advance c
    · obtain ⟨c, rfl⟩ := hadv
      obtain ⟨i, np, a, st, -, hpos, rfl⟩ := advance_inv he
      exact h.advance hn hpos
    have hadv' : ∀ c, e ≠ .advance c := fun c hec => hadv ⟨c, hec⟩
    by_cases hfork : ∃ c a, e = .fork c a
    · obtain ⟨c, a, rfl⟩ := hfork
      simp only [effect, act_eq_some] at he
      obtain ⟨i, hi, -, rfl⟩ := he
      exact h.fork hn hi
    refine h.pass (fun j hj => inUse_step hP he hc hadv' hp hj)
      (fun j np a st hj hst => (creating_step he hadv' hp hj).resolve_right fun hs => hst hs.1)
      fun j hl => ?_
    by_cases hw : e.writesAccount = false
    · -- nothing happens to the handlers, and nothing is recorded
      have hacc := account_step he hw j
      have hnotes : notes u.m copied e = [] := by
        cases e <;> first | rfl | exact Bool.noConfusion hw | exact absurd ⟨_, _, rfl⟩ hfork
      rw [hnotes]
      refine hl.keep hacc.sighandler fun hq => ?_
      rwa [hacc.sig_pending] at hq
    · -- the events that write a handler or a pending flag
      cases e <;> first | exact absurd rfl hw | skip
      case timer c =>
        simp only [effect, act_eq_some] at he
        obtain ⟨i, -, -, rfl⟩ := he
        have hacc := timer_account c i u.m j
        have hch : ((u.m.proc j).charge).sighandler = (u.m.proc j).sighandler ∧
            ((u.m.proc j).charge).sig_pending = (u.m.proc j).sig_pending := by
          unfold Proc.charge
          split <;> exact ⟨rfl, rfl⟩
        refine hl.keep (hacc.sighandler.trans ?_) fun hq => ?_
        · split
          · exact hch.1
          · rfl
        · rw [hacc.sig_pending] at hq
          split at hq
          · rwa [hch.2] at hq
          · exact hq
      case advance c => exact absurd rfl (hadv' c)
      case leave c =>
        simp only [effect, act_eq_some] at he
        obtain ⟨i, hi, -, rfl⟩ := he
        simp only [notes, hi, Machine.set_proc]
        by_cases hji : j = i
        · subst hji
          rw [if_pos rfl]
          exact hl.leave copied
        · rw [if_neg hji]
          have hij : (i != j) = true := by simpa using Ne.symm hji
          unfold Proc.delivery
          split
          · exact hl.cons hij rfl id
          · split
            · exact hl.cons hij rfl id
            · exact hl
      case signal c g =>
        simp only [effect, act_eq_some] at he
        obtain ⟨i, hi, -, rfl⟩ := he
        have hg : g = 0 ∨ (u.m.proc i).sig_pending = false := ha i hi
        simp only [notes, hi, Machine.set_proc]
        by_cases hji : j = i
        · subst hji
          rw [if_pos rfl]
          exact .register hg
        · rw [if_neg hji]
          exact hl.cons rfl rfl id
      case sendsig n =>
        obtain rfl : n = 4 := by simpa [Event.onlyCustom] using hc
        obtain rfl := Option.some.inj he
        have hcu : (sendsig 4 u.m).proc j = (u.m.proc j).custom := rfl
        rw [hcu]
        apply hl.mark
        rw [List.mem_filter]
        exact ⟨fun hj => hj.2, fun hj => ⟨List.mem_finRange j, hj⟩⟩

/-- The invariants of a run. -/
structure Chronicle.Sound (u : Chronicle) : Prop where
  table : Signal.Sound u.m
  lawful : u.m.panicked = none → Lawful u.past u.m

/-- SIGCUSTOM resumes nobody. -/
theorem spares_of_onlyCustom {A : ProcState → Prop} (he : e.onlyCustom = true) : Spares A s e := by
  cases e <;> try trivial
  case sendsig n =>
    obtain rfl : n = 4 := by simpa [Event.onlyCustom] using he
    intro i hi
    simp [Proc.resumedBy] at hi

theorem Chronicle.Sound.step {a : Act} {u v : Chronicle} (h : u.Sound) (ha : Careful u a)
    (hs : Chronicle.Step k u a v) : v.Sound := by
  have htab : Signal.Sound v.m ∧ u.m.panicked = none := by
    unfold Chronicle.Step Chronicle.step at hs
    cases a with
    | exec c =>
      simp only at hs
      split at hs
      case h_2 => cases hs
      split at hs
      case isFalse => cases hs
      rename_i hpos
      obtain rfl := Option.some.inj hs
      exact ⟨h.table, hpos.2⟩
    | kernel e copied =>
      simp only at hs
      split at hs
      case isFalse => cases hs
      rename_i hc
      obtain ⟨m, hm, rfl⟩ := Option.map_eq_some_iff.1 hs
      exact ⟨h.table.step (spares_of_onlyCustom hc) hm, not_panicked_of_step hm⟩
  obtain ⟨htab, hu⟩ := htab
  exact ⟨htab, fun hp => (h.lawful hu).step (h.table.placed hu) (h.table.nursery hu) ha hs hp⟩

theorem Chronicle.sound_boot (k : Config) : (Chronicle.boot k).Sound := by
  refine ⟨Signal.sound_boot k, fun _ => ⟨fun i _ => ?_, fun j np a st hj _ _ => ?_⟩⟩
  · apply Law.of_none
    simp only [Chronicle.boot, Signal.boot, initcode]
    split <;> rfl
  · rcases boot_pos k j with hp | hp <;> rw [Chronicle.boot, hp] at hj <;> cases hj

/-- **A handler is entered for its registrant.** In every run in which no process
registers a handler with a signal pending or calls `exec` with a handler registered:
whenever `syscall` sends a process to a handler, the process registered it since it was
created and last executed a program, and the SIGCUSTOM that it delivers was sent after
that. -/
theorem handler_for_registrant {as : List Act} {u v : Chronicle} {c : Nat} {copied : Bool}
    (hrun : Run (Guarded (Chronicle.Step k) Careful) (Chronicle.boot k) as u)
    (hs : Chronicle.Step k u (.kernel (.leave c) copied) v)
    (hv : v.past = .entered i h :: u.past) : Due i h u.past = true := by
  have hS : u.Sound := hrun.invariant (fun s a t hst hS => hS.step hst.1 hst.2) (Chronicle.sound_boot k)
  obtain ⟨m, hm, rfl⟩ := Option.map_eq_some_iff.1 (show (Signal.step k (.leave c) u.m).map
    (fun m => (⟨m, notes u.m copied (.leave c) ++ u.past⟩ : Chronicle)) = some v from hs)
  have hu := not_panicked_of_step (show Step k u.m (.leave c) m from hm)
  have he := effect_of_step (show Step k u.m (.leave c) m from hm)
  simp only [effect, act_eq_some] at he
  obtain ⟨j, hj, -, -⟩ := he
  simp only [notes, hj, Proc.delivery] at hv
  split at hv
  case isFalse =>
    split at hv
    · cases hv
    · exact absurd (congrArg List.length hv) (by simp)
  rename_i hr
  obtain ⟨rfl, rfl⟩ : j = i ∧ (u.m.proc j).sighandler = h := by simpa using hv
  simp only [Proc.redirects, Bool.and_eq_true, bne_iff_ne, ne_eq] at hr
  have hrun := (hS.table.placed hu).running c j hj
  have hl := (hS.lawful hu).live j ⟨by rw [hrun]; simp, by rw [hrun]; simp⟩
  exact hl.pending hr.1.1 hr.1.2

/-! ## Two histories -/

/-- The shell has a child, process 3 in slot 2, which is in a system call. -/
def childInCall : List Event :=
  startShell ++ [Event.round 0, .forkret 0, .enter 0, .fork 0 none] ++
    List.replicate 8 (Event.advance 0) ++ [Event.wait 0, .round 0, .retest 0, .trapret 0, .enter 0,
      .sleep 0 7, .round 0, .forkret 0, .enter 0]

/-- The child registers a handler, and Ctrl-G comes during its next call. -/
theorem handler_for_registrant_child : ∃ u : Chronicle, Due 2 64 u.past = true ∧ u.past.length = 4 := by
  have hx : ((execIf (Chronicle.step xv6) Careful (childInCall.map (Act.kernel · true) ++
      [Act.kernel (.signal 0 64) true, .kernel (.leave 0) true, .kernel (.trapret 0) true,
        .kernel (.enter 0) true, .kernel (.sendsig 4) true]) (Chronicle.boot xv6)).bind fun u =>
        (Chronicle.step xv6 (.kernel (.leave 0) true) u).map fun v =>
          (u.past.length, decide (v.past = .entered 2 64 :: u.past))) = some (4, true) := by
    decide +kernel
  obtain ⟨u, hu, hx⟩ := Option.bind_eq_some_iff.1 hx
  obtain ⟨v, hv, hx⟩ := Option.map_eq_some_iff.1 hx
  simp only [Prod.mk.injEq, decide_eq_true_eq] at hx
  exact ⟨u, handler_for_registrant (run_of_execIf hu) hv hx.2, hx.1⟩

/-- The child registers a handler and calls `exec`; the program that it executes gets
the Ctrl-G at that address. Or Ctrl-G comes first, and is delivered to the handler that
the child registers later. -/
theorem handler_of_old_program :
    (∃ as u v, Run (Chronicle.Step xv6) (Chronicle.boot xv6) as u ∧
      Chronicle.Step xv6 u (.kernel (.leave 0) true) v ∧ v.past = .entered 2 64 :: u.past ∧
      .execed 2 ∈ u.past ∧ Due 2 64 u.past = false) ∧
    ∃ as u v, Run (Chronicle.Step xv6) (Chronicle.boot xv6) as u ∧
      Chronicle.Step xv6 u (.kernel (.leave 0) true) v ∧ v.past = .entered 2 64 :: u.past ∧
      .execed 2 ∉ u.past ∧ Due 2 64 u.past = false := by
  constructor
  · have hx : ((exec (Chronicle.step xv6) (childInCall.map (Act.kernel · true) ++
        [Act.kernel (.signal 0 64) true, .kernel (.leave 0) true, .kernel (.trapret 0) true,
          .kernel (.enter 0) true, .exec 0, .kernel (.sendsig 4) true]) (Chronicle.boot xv6)).bind fun u =>
          (Chronicle.step xv6 (.kernel (.leave 0) true) u).map fun v =>
            (decide (v.past = .entered 2 64 :: u.past), decide (Note.execed 2 ∈ u.past),
              Due 2 64 u.past)) = some (true, true, false) := by decide +kernel
    obtain ⟨u, hu, hx⟩ := Option.bind_eq_some_iff.1 hx
    obtain ⟨v, hv, hx⟩ := Option.map_eq_some_iff.1 hx
    simp only [Prod.mk.injEq, decide_eq_true_eq] at hx
    exact ⟨_, u, v, run_of_exec hu, hv, hx.1, hx.2.1, hx.2.2⟩
  · have hx : ((exec (Chronicle.step xv6) (childInCall.map (Act.kernel · true) ++
        [Act.kernel (.sendsig 4) true, .kernel (.signal 0 64) true])
          (Chronicle.boot xv6)).bind fun u =>
          (Chronicle.step xv6 (.kernel (.leave 0) true) u).map fun v =>
            (decide (v.past = .entered 2 64 :: u.past), decide (Note.execed 2 ∈ u.past),
              Due 2 64 u.past)) = some (true, false, false) := by decide +kernel
    obtain ⟨u, hu, hx⟩ := Option.bind_eq_some_iff.1 hx
    obtain ⟨v, hv, hx⟩ := Option.map_eq_some_iff.1 hx
    simp only [Prod.mk.injEq, decide_eq_true_eq, decide_eq_false_iff_not] at hx
    exact ⟨_, u, v, run_of_exec hu, hv, hx.1, hx.2.1, hx.2.2⟩

end Xv6.Signal
