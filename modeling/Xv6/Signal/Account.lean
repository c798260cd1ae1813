/-
What each event leaves alone in the books that signals and the timer keep.

Five fields of `struct proc` are written in few places: `suspended` by the console
signals, `sighandler` and `sig_pending` by `signal`, SIGCUSTOM and the end of
`syscall`, `exec_time` and `total_ticks` by the timer, and all of them once more
by the process that creates the slot's next occupant. Every other event keeps the
five in every slot (`account_step`). The modules on suspension, on handlers and on
the clock start from there and look at the writers only.
-/
import Xv6.Signal.Slots

set_option autoImplicit false

namespace Xv6.Signal

open Xv6.Lib

variable {k : Config} {s t : Machine} {c : Nat} {i j : Slot} {e : Event}

/-- The same entries in the books. -/
structure SameAccount (p q : Proc) : Prop where
  suspended : q.suspended = p.suspended
  sighandler : q.sighandler = p.sighandler
  sig_pending : q.sig_pending = p.sig_pending
  exec_time : q.exec_time = p.exec_time
  total_ticks : q.total_ticks = p.total_ticks

theorem SameAccount.refl (p : Proc) : SameAccount p p := ⟨rfl, rfl, rfl, rfl, rfl⟩

/-- The events that write one of the five fields. -/
def Event.writesAccount : Event → Bool
  | .timer _ | .advance _ | .sendsig _ | .signal _ _ | .leave _ => true
  | _ => false

/-- A loop or a step that writes each slot by a function which keeps the books. -/
theorem SameAccount.set {f : Proc → Proc} (hf : ∀ p, SameAccount p (f p)) :
    SameAccount (s.proc j) ((s.set i f).proc j) := by
  rw [Machine.set_proc]
  split
  · exact hf _
  · exact .refl _

theorem SameAccount.trans {p q r : Proc} (h : SameAccount p q) (h' : SameAccount q r) :
    SameAccount p r :=
  ⟨h'.suspended.trans h.suspended, h'.sighandler.trans h.sighandler,
    h'.sig_pending.trans h.sig_pending, h'.exec_time.trans h.exec_time,
    h'.total_ticks.trans h.total_ticks⟩

theorem sameAccount_orExit (pos : Pos) (p : Proc) : SameAccount p (p.orExit pos) :=
  ⟨rfl, rfl, rfl, rfl, rfl⟩

theorem sameAccount_aged (k : Config) (s : Machine) (j : Slot) :
    SameAccount (s.proc j) ((s.aged k).proc j) := by
  simp only [Machine.aged, Machine.each_proc, Proc.expire, Proc.boost]
  constructor <;> grind

theorem sameAccount_dispatch (c : Nat) (i : Slot) (s : Machine) (j : Slot) :
    SameAccount (s.proc j) ((dispatch c i s).proc j) := by
  simp only [dispatch]
  split
  · split
    · constructor <;> grind
    · constructor <;> grind
  · constructor <;> grind

theorem sameAccount_round (k : Config) (c : Nat) (s : Machine) (j : Slot) :
    SameAccount (s.proc j) ((round k c s).proc j) := by
  have ha := sameAccount_aged k s j
  unfold round
  cases highest (s.aged k) with
  | none => exact ha
  | some i => exact ha.trans (sameAccount_dispatch c i _ j)

theorem sameAccount_woken {p q : Proc} (h : Woken p q) : SameAccount p q := by
  obtain ⟨st, -, rfl⟩ := h
  exact ⟨rfl, rfl, rfl, rfl, rfl⟩

theorem sameAccount_reparent (i init : Slot) (p : Proc) : SameAccount p (p.reparent i init) := by
  unfold Proc.reparent
  split <;> exact ⟨rfl, rfl, rfl, rfl, rfl⟩

theorem sameAccount_exitDone (c : Nat) (i : Slot) (s : Machine) (j : Slot) :
    SameAccount (s.proc j) ((exitDone c i s).proc j) := by
  have hr := sameAccount_reparent i s.initproc (s.proc j)
  by_cases hji : j = i
  · subst hji
    rw [exitDone_self]
    exact ⟨hr.suspended, hr.sighandler, hr.sig_pending, hr.exec_time, hr.total_ticks⟩
  · exact hr.trans (sameAccount_woken (exitDone_other hji))

theorem sameAccount_sleep (c : Nat) (i : Slot) (ch : Chan) (s : Machine) (j : Slot) :
    SameAccount (s.proc j) ((sleep c i ch s).proc j) := by
  unfold sleep
  rw [Machine.setCpu_proc]
  exact SameAccount.set (fun p => ⟨rfl, rfl, rfl, rfl, rfl⟩)

/-- **What keeps the books.** An event other than the five writers leaves them as
they were in every slot. -/
theorem account_step (he : effect k e s = some t) (hw : e.writesAccount = false) (j : Slot) :
    SameAccount (s.proc j) (t.proc j) := by
  cases e <;> first
    | exact Bool.noConfusion hw
    | simp only [effect, act_eq_some, Option.some.injEq] at he
  case round c =>
    split at he
    · obtain rfl := Option.some.inj he
      exact sameAccount_round k c s j
    · cases he
  case wakeup a =>
    subst he
    exact sameAccount_woken (Woken.of_cases (wakeup1_proc (some (.addr a)) s j))
  case retest c =>
    obtain ⟨i, -, -, rfl⟩ := he
    rcases retest_cases c i s with ⟨-, hr⟩ | hr <;> rw [hr]
    · rw [Machine.setCpu_proc]
      exact SameAccount.set (fun p => ⟨rfl, rfl, rfl, rfl, rfl⟩)
    · exact SameAccount.set (sameAccount_orExit .leaving)
  case exitDone c =>
    obtain ⟨i, -, -, rfl⟩ := he
    split
    · exact .refl _
    · exact sameAccount_exitDone c i s j
  case wait c =>
    obtain ⟨i, -, -, rfl⟩ := he
    rcases wait_cases c i s with ⟨l, -, -, hw⟩ | hw | ⟨-, hw⟩ <;> rw [hw]
    · exact SameAccount.set (fun p => ⟨rfl, rfl, rfl, rfl, rfl⟩)
    · exact .refl _
    · exact sameAccount_sleep c i (.proc i) s j
  case kill c pid =>
    obtain ⟨i, -, -, rfl⟩ := he
    rcases kill_cases pid s with hk | ⟨l, -, hk⟩ <;> rw [hk]
    · exact .refl _
    · exact SameAccount.set (fun p => ⟨rfl, rfl, rfl, rfl, rfl⟩)
  case fork c a =>
    obtain ⟨i, -, -, rfl⟩ := he
    rcases allocproc_cases i a s with hk | ⟨np, -, hk⟩ <;> rw [hk]
    · exact .refl _
    · have h1 : SameAccount (s.proc j) ((s.set np (Proc.alloc s.nextpid a)).proc j) :=
        SameAccount.set (fun p => ⟨rfl, rfl, rfl, rfl, rfl⟩)
      have h2 : ∀ u : Machine, SameAccount (u.proc j)
          ((u.set i fun p => { p with pos := .creating np a .stack }).proc j) :=
        fun u => SameAccount.set (fun p => ⟨rfl, rfl, rfl, rfl, rfl⟩)
      exact h1.trans (h2 _)
  case fail c =>
    obtain ⟨i, -, hg, rfl⟩ := he
    obtain ⟨np, a, st, -, -, hf⟩ := failFork_cases hg
    rw [hf]
    -- the slot that is given back, and the creator
    have h1 : SameAccount (s.proc j)
        ((s.set np (if st = .stack then Proc.noStack else Proc.noCopy)).proc j) := by
      apply SameAccount.set
      intro p
      split <;> exact ⟨rfl, rfl, rfl, rfl, rfl⟩
    exact h1.trans (SameAccount.set (fun p => ⟨rfl, rfl, rfl, rfl, rfl⟩))
  case scheduler_start c =>
    obtain ⟨i, -, -, rfl⟩ := he
    exact ⟨rfl, rfl, rfl, rfl, rfl⟩
  case resumeExit c =>
    obtain ⟨i, -, -, rfl⟩ := he
    exact .refl _
  case sleep c a =>
    obtain ⟨i, -, -, rfl⟩ := he
    exact sameAccount_sleep c i (.addr a) s j
  all_goals
    obtain ⟨i, -, -, rfl⟩ := he
    exact SameAccount.set (fun p => ⟨rfl, rfl, rfl, rfl, rfl⟩)

/-! ## The writers -/

/-- A timer interrupt charges the process of its CPU. -/
theorem timer_account (c : Nat) (i : Slot) (s : Machine) (j : Slot) :
    SameAccount (if j = i then (s.proc j).charge else s.proc j) ((timer c i s).proc j) := by
  rcases timer_cases c i s with ⟨-, -, ht⟩ | ⟨-, ht⟩ | ⟨-, ht⟩ <;> rw [ht] <;>
    simp only [Machine.setCpu_proc, Machine.set_proc] <;>
    by_cases hj : j = i <;> simp only [hj, if_true, if_false] <;> exact ⟨rfl, rfl, rfl, rfl, rfl⟩

/-- A stage of a creation writes the books of the new process only. -/
theorem advance_account {np : Slot} {a : Option ForkArgs} {st : Stage}
    (hpos : (s.proc i).pos = .creating np a st) (j : Slot) :
    SameAccount (if j = np then st.write k i (s.proc i) a (s.proc j) else s.proc j)
      ((advance k i s).proc j) := by
  simp only [advance, hpos]
  have h2 : ∀ u : Machine, SameAccount (u.proc j)
      ((u.set i fun p => { p with pos := st.next np a }).proc j) :=
    fun u => SameAccount.set (fun p => ⟨rfl, rfl, rfl, rfl, rfl⟩)
  exact h2 (s.set np fun p => st.write k i (s.proc i) a p)

/-- What lies behind a stage of a creation. -/
theorem advance_inv (he : effect k (.advance c) s = some t) :
    ∃ i np a st, s.cpu c = some i ∧ (s.proc i).pos = .creating np a st ∧ advance k i s = t := by
  simp only [effect, act_eq_some] at he
  obtain ⟨i, hi, hg, rfl⟩ := he
  obtain ⟨np, a, st, hpos, -⟩ := advance_cases k hg
  exact ⟨i, np, a, st, hi, hpos, rfl⟩

/-! ## Creators -/

/-- Where the processes are after a stage of a creation. -/
theorem advance_pos {np : Slot} {a : Option ForkArgs} {st : Stage}
    (hpos : (s.proc i).pos = .creating np a st) (j : Slot) :
    ((advance k i s).proc j).pos = if j = i then st.next np a else (s.proc j).pos := by
  have hw := Stage.write_pos k i (s.proc i) a (s.proc np) st
  simp only [advance, hpos, Machine.set_proc]
  grind

/-- Outside a stage of a creation, a process at a point of one was there before, or has
just taken the slot and given it the next pid. -/
theorem creating_step (he : effect k e s = some t) (ha : ∀ c, e ≠ .advance c)
    (hp : t.panicked = none) {np : Slot} {a : Option ForkArgs} {st : Stage}
    (hj : (t.proc j).pos = .creating np a st) :
    (s.proc j).pos = .creating np a st ∨ st = .stack ∧ (t.proc np).pid = s.nextpid := by
  by_cases ho : e.isTurn = true
  · obtain ⟨c, i, q, hi, hq, hT, -⟩ := turn_step he ho
    have hpos := hT.pos
    grind [Pos.isCreating]
  by_cases hfork : ∃ c a, e = .fork c a
  · obtain ⟨c, b, rfl⟩ := hfork
    simp only [effect, act_eq_some] at he
    obtain ⟨i, -, -, rfl⟩ := he
    rcases allocproc_cases i b s with hk | ⟨np, -, hk⟩ <;> rw [hk] at hj ⊢ <;> grind [Proc.alloc]
  left
  cases e <;> first
    | exact absurd rfl ho
    | simp only [effect, act_eq_some, Option.some.injEq] at he
  case round c =>
    split at he
    · obtain rfl := Option.some.inj he
      have hpo := aged_pos k s
      rcases round_cases k c hp with ⟨-, hr⟩ | ⟨i, -, -, -, hr⟩ <;> rw [hr] at hj <;>
        grind [Proc.run]
    · cases he
  case wakeup a =>
    subst he
    have := wakeup1_proc (some (.addr a)) s j
    grind
  case exitDone c =>
    obtain ⟨i, hi, -, rfl⟩ := he
    split at hj
    · exact hj
    · by_cases hji : j = i
      · rw [hji, exitDone_self] at hj
        cases hj
      · -- the others change parent and wake up
        obtain ⟨st', -, hq⟩ := exitDone_other (c := c) (s := s) hji
        rw [hq] at hj
        unfold Proc.reparent at hj
        grind
  case wait c =>
    obtain ⟨i, -, -, rfl⟩ := he
    rcases wait_cases c i s with ⟨l, -, -, hw⟩ | hw | ⟨-, hw⟩ <;> rw [hw] at hj <;>
      grind [Proc.reap, sleep]
  case kill c pid =>
    obtain ⟨i, -, -, rfl⟩ := he
    rcases kill_cases pid s with hk | ⟨l, -, hk⟩ <;> rw [hk] at hj <;> grind [Proc.kill]
  case fork c a => exact absurd ⟨c, a, rfl⟩ hfork
  case advance c => exact absurd rfl (ha c)
  case fail c =>
    obtain ⟨i, -, hg, rfl⟩ := he
    obtain ⟨np, a, st, -, -, hf⟩ := failFork_cases hg
    rw [hf] at hj
    grind [Proc.noStack, Proc.noCopy]
  case sendsig n =>
    subst he
    rw [sendsig_pos] at hj
    exact hj
  case scheduler_start c =>
    obtain ⟨i, -, -, rfl⟩ := he
    grind [Proc.start]
  case resumeExit c =>
    obtain ⟨i, -, -, rfl⟩ := he
    exact hj

end Xv6.Signal
