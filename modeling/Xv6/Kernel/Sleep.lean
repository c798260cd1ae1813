/-
Sleep locks over `sleep` and `wakeup`, instruction by instruction.

A process that finds the sleep lock taken gives up the spin lock `lk->lk` only after it has
got `ptable.lock`, and a process that frees the sleep lock wakes the sleepers under
`ptable.lock`. Any number of processes run in any order, and `kill` may wake a sleeper at any
time.

In every run at most one process holds the sleep lock (`holder_unique`). No wakeup is lost: a
process sleeps only while the lock is taken, or while somebody is on the way to wake it
(`sleeper_waits`). And the processes never wait for each other in a circle (`not_stuck`).
-/
import Xv6.Lib.Lock
import Xv6.Lib.Run

set_option autoImplicit false

namespace Xv6.Kernel.Sleep

open Xv6.Lib

/-- Where a process is in `acquiresleep` and `releasesleep`: what it does next. -/
inductive Pc where
  | idle
  /-- `acquire(&lk->lk)` -/
  | acquire
  /-- `while(lk->locked)` -/
  | test
  /-- In `sleep`: `acquire(&ptable.lock)`. -/
  | sleepAcquire
  /-- `release(lk)` -/
  | sleepRelease
  /-- `p->state = SLEEPING; sched()` -/
  | sched
  /-- In `sched`. -/
  | switched
  /-- Back from `sched`: `p->chan = 0; release(&ptable.lock)`. -/
  | tidy
  /-- `acquire(lk)` -/
  | reacquire
  /-- `lk->locked = 1; lk->pid = myproc()->pid; release(&lk->lk)` -/
  | take
  /-- The sleep lock is held. -/
  | held
  /-- In `releasesleep`: `acquire(&lk->lk)`. -/
  | free
  /-- `lk->locked = 0; lk->pid = 0` -/
  | clear
  /-- In `wakeup`: `acquire(&ptable.lock)`. -/
  | wakeAcquire
  /-- `wakeup1(lk)` -/
  | wake
  /-- `release(&ptable.lock)` -/
  | wakeRelease
  /-- `release(&lk->lk)` -/
  | freeRelease
  deriving DecidableEq

/-- Here a process has `lk->lk`. -/
def Pc.spin : Pc → Bool
  | .test | .sleepAcquire | .sleepRelease | .take | .clear | .wakeAcquire | .wake | .wakeRelease
  | .freeRelease => true
  | _ => false

/-- Here a process has `ptable.lock`. -/
def Pc.ptable : Pc → Bool
  | .sleepRelease | .sched | .tidy | .wake | .wakeRelease => true
  | _ => false

/-- Here a process has the sleep lock. -/
def Pc.owns : Pc → Bool
  | .held | .free | .clear => true
  | _ => false

/-- Here a process has found the sleep lock taken, and has `lk->lk` still. -/
def Pc.found : Pc → Bool
  | .sleepAcquire | .sleepRelease => true
  | _ => false

/-- Here a process is about to wake the sleepers. -/
def Pc.waking : Pc → Bool
  | .wakeAcquire | .wake => true
  | _ => false

structure Sys where
  pc : Nat → Pc
  /-- The state of a process is `SLEEPING`. -/
  asleep : Nat → Bool
  /-- Who has `lk->lk` and `ptable.lock`. -/
  spin : Option Nat
  ptable : Option Nat
  locked : Bool
  /-- Who has the sleep lock (`lk->pid`). -/
  owner : Option Nat

namespace Sys

def goto (i : Nat) (c : Pc) (s : Sys) : Sys := { s with pc := Function.update s.pc i c }

/-- The next instruction of process `i`, unless it has to wait. -/
def step (i : Nat) (s : Sys) : Option Sys :=
  match s.pc i with
  | .idle => some (s.goto i .acquire)
  | .acquire | .reacquire =>
    if s.spin = none then some ({ s with spin := some i }.goto i .test) else none
  | .test => some (s.goto i (if s.locked then .sleepAcquire else .take))
  | .sleepAcquire =>
    if s.ptable = none then some ({ s with ptable := some i }.goto i .sleepRelease) else none
  | .sleepRelease => some ({ s with spin := none }.goto i .sched)
  | .sched =>
    some ({ s with asleep := Function.update s.asleep i true, ptable := none }.goto i .switched)
  | .switched =>
    -- the scheduler picks a runnable process and passes `ptable.lock` on to it
    if s.asleep i = false ∧ s.ptable = none then
      some ({ s with ptable := some i }.goto i .tidy)
    else none
  | .tidy => some ({ s with ptable := none }.goto i .reacquire)
  | .take => some ({ s with locked := true, owner := some i, spin := none }.goto i .held)
  | .held => some (s.goto i .free)
  | .free => if s.spin = none then some ({ s with spin := some i }.goto i .clear) else none
  | .clear => some ({ s with locked := false, owner := none }.goto i .wakeAcquire)
  | .wakeAcquire =>
    if s.ptable = none then some ({ s with ptable := some i }.goto i .wake) else none
  | .wake => some ({ s with asleep := fun _ => false }.goto i .wakeRelease)
  | .wakeRelease => some ({ s with ptable := none }.goto i .freeRelease)
  | .freeRelease => some ({ s with spin := none }.goto i .idle)

inductive Event where
  | step (i : Nat)
  /-- `kill`, under `ptable.lock`. -/
  | kill (i : Nat)

def next (e : Event) (s : Sys) : Option Sys :=
  match e with
  | .step i => s.step i
  | .kill i =>
    if s.ptable = none then some { s with asleep := Function.update s.asleep i false } else none

def Step (s : Sys) (e : Event) (t : Sys) : Prop := next e s = some t

/-- What `holdingsleep` returns to process `i`. -/
def holdingsleep (i : Nat) (s : Sys) : Bool := s.locked && s.owner == some i

/-- After `initsleeplock`. -/
def boot : Sys := ⟨fun _ => .idle, fun _ => false, none, none, false, none⟩

/-! ## What a step does -/

variable {s t : Sys} {i j : Nat}

/-- How a step from `c` to `d` passes the two spin locks and the sleep lock. -/
structure Passes (s t : Sys) (i : Nat) (c d : Pc) : Prop where
  here : s.pc i = c
  pc : t.pc = Function.update s.pc i d
  spin : Hand i s.spin c.spin t.spin d.spin
  ptable : Hand i s.ptable c.ptable t.ptable d.ptable
  owner : Hand i s.owner c.owns t.owner d.owns

/-! ## The invariant -/

structure Inv (s : Sys) : Prop where
  spin : Held s.spin (Pc.spin ∘ s.pc)
  ptable : Held s.ptable (Pc.ptable ∘ s.pc)
  owner : Held s.owner (Pc.owns ∘ s.pc)
  locked : s.locked = s.owner.isSome
  found : ∀ i, (s.pc i).found = true → s.locked = true
  free : ∀ i, s.pc i = .take → s.locked = false
  switched : ∀ i, s.asleep i = true → s.pc i = .switched
  /-- Who is about to sleep or sleeps will be woken. -/
  waits : ∀ i, s.pc i = .sched ∨ s.asleep i = true →
    s.locked = true ∨ ∃ j, (s.pc j).waking = true

theorem inv_boot : Inv boot := by
  constructor <;> simp [boot, Held, Pc.spin, Pc.ptable, Pc.owns, Pc.found]

theorem Inv.pass (h : Inv s) {c d : Pc} (hp : Passes s t i c d) :
    Held t.spin (Pc.spin ∘ t.pc) ∧ Held t.ptable (Pc.ptable ∘ t.pc) ∧
      Held t.owner (Pc.owns ∘ t.pc) := by
  rw [hp.pc, Function.comp_update, Function.comp_update, Function.comp_update]
  exact ⟨h.spin.hand (congrArg Pc.spin hp.here) hp.spin,
    h.ptable.hand (congrArg Pc.ptable hp.here) hp.ptable,
    h.owner.hand (congrArg Pc.owns hp.here) hp.owner⟩

/-- A step that neither locks nor wakes. -/
theorem Inv.goto (h : Inv s) {c d : Pc} (hp : Passes s t i c d) (hl : t.locked = s.locked)
    (ho : t.owner = s.owner) (ha : t.asleep = s.asleep) (hi : s.asleep i = false)
    (hf : d.found = false ∧ d ≠ .sched ∨ s.locked = true) (ht : d = .take → s.locked = false)
    (hw : c.waking = true → d.waking = true) : Inv t := by
  obtain ⟨h1, h2, h3⟩ := h.pass hp
  have hpc : ∀ j, t.pc j = if j = i then d else s.pc j := by
    intro j
    rw [hp.pc, Function.update_apply]
  have hother : ∀ j, j ≠ i → t.pc j = s.pc j := fun j hji => by rw [hpc, if_neg hji]
  have hself : t.pc i = d := by rw [hpc, if_pos rfl]
  refine ⟨h1, h2, h3, ?_, fun j hj => ?_, fun j hj => ?_, fun j hj => ?_, fun j hj => ?_⟩
  · rw [hl, ho, h.locked]
  · rw [hl]
    by_cases hji : j = i
    · subst hji
      refine hf.resolve_left fun hno => ?_
      rw [← hself, hj] at hno
      exact absurd hno.1 nofun
    · exact h.found j (hother j hji ▸ hj)
  · rw [hl]
    by_cases hji : j = i
    · subst hji
      exact ht (hself.symm.trans hj)
    · exact h.free j ((hother j hji).symm.trans hj)
  · rw [ha] at hj
    have hji : j ≠ i := by
      rintro rfl
      rw [hi] at hj
      cases hj
    rw [hother j hji]
    exact h.switched j hj
  · rw [hl]
    have hwaits : s.locked = true ∨ ∃ j, (s.pc j).waking = true := by
      by_cases hji : j = i
      · subst hji
        rw [hself, ha, hi] at hj
        exact Or.inl (hf.resolve_left fun hno => hno.2 (hj.resolve_right nofun))
      · rw [hother j hji, ha] at hj
        exact h.waits j hj
    refine hwaits.imp_right fun ⟨k, hk⟩ => ⟨k, ?_⟩
    by_cases hki : k = i
    · subst hki
      rw [hself]
      exact hw (hp.here ▸ hk)
    · rw [hother k hki]
      exact hk

/-- Who takes the sleep lock finds it free. -/
theorem Inv.owner_take (h : Inv s) (hc : s.pc i = .take) : s.owner = none := by
  have hl := h.locked
  rw [h.free i hc] at hl
  exact Option.isNone_iff_eq_none.1 (by rw [← Option.not_isSome, ← hl]; rfl)

theorem Inv.awake (h : Inv s) (hc : s.pc i ≠ .switched) : s.asleep i = false := by
  by_contra hne
  exact hc (h.switched i (Bool.eq_true_of_not_eq_false hne))

/-- `p->state = SLEEPING`. -/
theorem inv_sched (h : Inv s) (hc : s.pc i = .sched) :
    Inv ({ s with asleep := Function.update s.asleep i true, ptable := none }.goto i .switched) := by
  obtain ⟨h1, h2, h3⟩ := h.pass (d := .switched)
    (t := { s with asleep := Function.update s.asleep i true, ptable := none }.goto i .switched)
    ⟨hc, rfl, .keep _ _, .release _, .keep _ _⟩
  refine ⟨h1, h2, h3, h.locked, fun j hj => ?_, fun j hj => ?_, fun j hj => ?_, fun j hj => ?_⟩
  all_goals simp only [goto, Function.update_apply] at hj ⊢
  · split at hj
    · cases hj
    · exact h.found j hj
  · split at hj
    · cases hj
    · exact h.free j hj
  · split
    · rfl
    case isFalse hji =>
      rw [if_neg hji] at hj
      exact h.switched j hj
  · have hwaits : s.locked = true ∨ ∃ j, (s.pc j).waking = true := by
      by_cases hji : j = i
      · exact h.waits i (Or.inl hc)
      · rw [if_neg hji, if_neg hji] at hj
        exact h.waits j hj
    refine hwaits.imp_right fun ⟨k, hk⟩ => ⟨k, ?_⟩
    have hki : k ≠ i := by
      rintro rfl
      rw [hc] at hk
      cases hk
    rw [if_neg hki]
    exact hk

/-- The sleep lock is taken. -/
theorem inv_take (h : Inv s) (hc : s.pc i = .take) :
    Inv ({ s with locked := true, owner := some i, spin := none }.goto i .held) := by
  have hfree := h.owner_take hc
  obtain ⟨h1, h2, h3⟩ := h.pass (d := .held)
    (t := { s with locked := true, owner := some i, spin := none }.goto i .held)
    ⟨hc, rfl, .release _, .keep _ _, by rw [hfree]; exact .acquire⟩
  refine ⟨h1, h2, h3, rfl, fun j _ => rfl, fun j hj => ?_, fun j hj => ?_, fun j _ => Or.inl rfl⟩
  all_goals simp only [goto, Function.update_apply] at hj ⊢
  · split at hj
    · cases hj
    case isFalse hji =>
      -- only one process has `lk->lk`
      exact absurd (h.spin.unique (congrArg Pc.spin hj) (congrArg Pc.spin hc)) hji
  · have hji : j ≠ i := by
      rintro rfl
      exact absurd ((h.switched j hj).symm.trans hc) nofun
    rw [if_neg hji]
    exact h.switched j hj

/-- The sleep lock is free. -/
theorem inv_clear (h : Inv s) (hc : s.pc i = .clear) :
    Inv ({ s with locked := false, owner := none }.goto i .wakeAcquire) := by
  obtain ⟨h1, h2, h3⟩ := h.pass (d := .wakeAcquire)
    (t := { s with locked := false, owner := none }.goto i .wakeAcquire)
    ⟨hc, rfl, .keep _ _, .keep _ _, .release _⟩
  refine ⟨h1, h2, h3, rfl, fun j hj => ?_, fun j _ => rfl, fun j hj => ?_, fun j _ => ?_⟩
  · simp only [goto, Function.update_apply] at hj
    split at hj
    · cases hj
    case isFalse hji =>
      have hspin : (s.pc j).spin = true := by
        generalize s.pc j = c at hj
        cases c <;> first | rfl | cases hj
      exact absurd (h.spin.unique hspin (congrArg Pc.spin hc)) hji
  · simp only [goto, Function.update_apply] at hj ⊢
    have hji : j ≠ i := by
      rintro rfl
      exact absurd ((h.switched j hj).symm.trans hc) nofun
    rw [if_neg hji]
    exact h.switched j hj
  · refine Or.inr ⟨i, ?_⟩
    simp [goto, Pc.waking]

/-- `wakeup1(lk)`. -/
theorem inv_wake (h : Inv s) (hc : s.pc i = .wake) :
    Inv ({ s with asleep := fun _ => false }.goto i .wakeRelease) := by
  obtain ⟨h1, h2, h3⟩ := h.pass (d := .wakeRelease)
    (t := { s with asleep := fun _ => false }.goto i .wakeRelease)
    ⟨hc, rfl, .keep _ _, .keep _ _, .keep _ _⟩
  refine ⟨h1, h2, h3, h.locked, fun j hj => ?_, fun j hj => ?_, nofun, fun j hj => ?_⟩
  all_goals simp only [goto, Function.update_apply] at hj
  · split at hj
    · cases hj
    · exact h.found j hj
  · split at hj
    · cases hj
    · exact h.free j hj
  · refine absurd (hj.resolve_right nofun) ?_
    split
    · nofun
    case isFalse hji =>
      -- who is about to sleep has `ptable.lock`
      exact fun hs => hji (h.ptable.unique (congrArg Pc.ptable hs) (congrArg Pc.ptable hc))

/-- **One step.** -/
theorem inv_step (h : Inv s) (hst : s.step i = some t) : Inv t := by
  unfold step at hst
  cases hc : s.pc i <;> simp only [hc] at hst
  case acquire | reacquire | free =>
    obtain ⟨hnone, hst⟩ := Option.ite_none_right_eq_some.1 hst
    obtain rfl := Option.some.inj hst
    exact h.goto ⟨hc, rfl, hnone ▸ .acquire, .keep _ _, .keep _ _⟩ rfl rfl rfl
      (h.awake (by rw [hc]; nofun)) (Or.inl (by decide)) nofun nofun
  case sleepAcquire =>
    obtain ⟨hnone, hst⟩ := Option.ite_none_right_eq_some.1 hst
    obtain rfl := Option.some.inj hst
    exact h.goto ⟨hc, rfl, .keep _ _, hnone ▸ .acquire, .keep _ _⟩ rfl rfl rfl
      (h.awake (by rw [hc]; nofun)) (Or.inr (h.found i (by rw [hc]; rfl))) nofun nofun
  case wakeAcquire =>
    obtain ⟨hnone, hst⟩ := Option.ite_none_right_eq_some.1 hst
    obtain rfl := Option.some.inj hst
    exact h.goto ⟨hc, rfl, .keep _ _, hnone ▸ .acquire, .keep _ _⟩ rfl rfl rfl
      (h.awake (by rw [hc]; nofun)) (Or.inl (by decide)) nofun fun _ => rfl
  case switched =>
    obtain ⟨⟨hawake, hnone⟩, hst⟩ := Option.ite_none_right_eq_some.1 hst
    obtain rfl := Option.some.inj hst
    exact h.goto ⟨hc, rfl, .keep _ _, hnone ▸ .acquire, .keep _ _⟩ rfl rfl rfl hawake
      (Or.inl (by decide)) nofun nofun
  case test =>
    obtain rfl := Option.some.inj hst
    have hawake := h.awake (i := i) (by rw [hc]; nofun)
    cases hl : s.locked with
    | false =>
      exact h.goto ⟨hc, rfl, .keep _ _, .keep _ _, .keep _ _⟩ rfl rfl rfl hawake
        (Or.inl (by decide)) (fun _ => hl) nofun
    | true =>
      exact h.goto ⟨hc, rfl, .keep _ _, .keep _ _, .keep _ _⟩ rfl rfl rfl hawake
        (Or.inr hl) nofun nofun
  all_goals obtain rfl := Option.some.inj hst
  case sched => exact inv_sched h hc
  case take => exact inv_take h hc
  case clear => exact inv_clear h hc
  case wake => exact inv_wake h hc
  case idle | held =>
    exact h.goto ⟨hc, rfl, .keep _ _, .keep _ _, .keep _ _⟩ rfl rfl rfl
      (h.awake (by rw [hc]; nofun)) (Or.inl (by decide)) nofun nofun
  case sleepRelease =>
    exact h.goto ⟨hc, rfl, .release _, .keep _ _, .keep _ _⟩ rfl rfl rfl
      (h.awake (by rw [hc]; nofun)) (Or.inr (h.found i (by rw [hc]; rfl))) nofun nofun
  case freeRelease =>
    exact h.goto ⟨hc, rfl, .release _, .keep _ _, .keep _ _⟩ rfl rfl rfl
      (h.awake (by rw [hc]; nofun)) (Or.inl (by decide)) nofun nofun
  case tidy | wakeRelease =>
    exact h.goto ⟨hc, rfl, .keep _ _, .release _, .keep _ _⟩ rfl rfl rfl
      (h.awake (by rw [hc]; nofun)) (Or.inl (by decide)) nofun nofun

theorem inv_next {e : Event} (h : Inv s) (hst : Step s e t) : Inv t := by
  cases e with
  | step i => exact inv_step h hst
  | kill i =>
    obtain ⟨-, hst⟩ := Option.ite_none_right_eq_some.1 hst
    obtain rfl := Option.some.inj hst
    have hasleep : ∀ j, Function.update s.asleep i false j = true → s.asleep j = true := by
      intro j hj
      rw [Function.update_apply] at hj
      split at hj
      · cases hj
      · exact hj
    exact { h with
      switched := fun j hj => h.switched j (hasleep j hj)
      waits := fun j hj => h.waits j (hj.imp_right (hasleep j)) }

theorem inv_run {es : List Event} (h : Run Step boot es s) : Inv s :=
  h.invariant (fun _ _ _ hst hs => inv_next hs hst) inv_boot

/-! ## Runs -/

/-- A step takes the sleep lock when it is free, or frees it, or leaves it. -/
theorem owner_step (h : Inv s) (hst : s.step i = some t) : Lock i s.owner t.owner := by
  unfold step at hst
  cases hc : s.pc i <;> simp only [hc] at hst
  case acquire | reacquire | free | sleepAcquire | wakeAcquire | switched =>
    obtain ⟨-, hst⟩ := Option.ite_none_right_eq_some.1 hst
    obtain rfl := Option.some.inj hst
    exact .other _
  all_goals obtain rfl := Option.some.inj hst
  case take =>
    rw [h.owner_take hc]
    exact .acquire
  case clear =>
    rw [(h.owner i).2 (congrArg Pc.owns hc)]
    exact .release
  all_goals exact .other _

/-- The sleep lock as one lock that is taken and freed at once. -/
def LockStep (o : Option Nat) (e : Event) (o' : Option Nat) : Prop :=
  match e with
  | .step i => Lock i o o'
  | .kill _ => o = o'

/-- **Mutual exclusion.** The runs of the sleep lock are runs of a lock that is taken and
freed at once, and `holdingsleep` tells who is inside. -/
theorem refines_lock {es : List Event} (h : Run Step boot es s) :
    Run LockStep none es s.owner ∧ ∀ i, s.holdingsleep i = true ↔ (s.pc i).owns = true := by
  constructor
  · have hsim : ∀ (s : Sys) (o : Option Nat) (e : Event) (t : Sys), Inv s ∧ s.owner = o →
        Step s e t → ∃ o', LockStep o e o' ∧ Inv t ∧ t.owner = o' := by
      rintro s o e t ⟨hI, rfl⟩ hst
      refine ⟨t.owner, ?_, inv_next hI hst, rfl⟩
      cases e with
      | step i => exact owner_step hI hst
      | kill i =>
        obtain ⟨-, hst⟩ := Option.ite_none_right_eq_some.1 hst
        obtain rfl := Option.some.inj hst
        rfl
    obtain ⟨o, hrun, -, rfl⟩ := h.refine hsim none ⟨inv_boot, rfl⟩
    exact hrun
  · intro i
    have hI := inv_run h
    rw [holdingsleep, hI.locked, Bool.and_eq_true, beq_iff_eq]
    refine ⟨fun ho => (hI.owner i).1 ho.2, fun ho => ?_⟩
    have howner := (hI.owner i).2 ho
    exact ⟨by rw [howner]; rfl, howner⟩

/-- Process 0 takes the lock, 1 sleeps for it, and has it when 0 has freed it. -/
def handOver : List Event :=
  (List.replicate 4 0 ++ List.replicate 6 1 ++ List.replicate 7 0 ++ List.replicate 5 1).map .step

theorem refines_lock_handOver : ∃ s : Sys, s.pc 0 = .idle ∧ s.pc 1 = .held ∧
    Run LockStep none handOver s.owner ∧ ∀ i, s.holdingsleep i = true ↔ (s.pc i).owns = true :=
  ⟨_, rfl, rfl, refines_lock (run_of_exec (show exec next handOver boot = _ from rfl))⟩

/-- A process that has the locks it needs can go on. -/
theorem can_step (hp : s.ptable = none ∨ (s.pc i).ptable = true)
    (hs : s.spin = none ∨ (s.pc i).spin = true ∨ (s.pc i).ptable = true)
    (ha : s.asleep i = false) : ∃ t, s.step i = some t := by
  unfold step
  cases hc : s.pc i <;> simp only [hc, Pc.spin, Pc.ptable, reduceCtorEq, or_false] at hp hs ⊢
  case acquire | reacquire | free => exact ⟨_, if_pos hs⟩
  case sleepAcquire | wakeAcquire => exact ⟨_, if_pos hp⟩
  case switched => exact ⟨_, if_pos ⟨ha, hp⟩⟩
  all_goals exact ⟨_, rfl⟩

/-- **No process waits in vain**: one that sleeps finds the lock taken, or somebody on the
way to wake it, and while any process is in the code, one that is can take a step. -/
theorem not_stuck {es : List Event} (h : Run Step boot es s) :
    (∀ i, s.asleep i = true → s.locked = true ∨ ∃ j, (s.pc j).waking = true) ∧
      ∀ i, s.pc i ≠ .idle → ∃ j t, s.pc j ≠ .idle ∧ s.step j = some t := by
  have hI := inv_run h
  refine ⟨fun i hi => hI.waits i (Or.inr hi), fun i hi => ?_⟩
  have hgo : ∀ k, s.pc k ≠ .idle → s.pc k ≠ .switched →
      (s.ptable = none ∨ (s.pc k).ptable = true) →
      (s.spin = none ∨ (s.pc k).spin = true ∨ (s.pc k).ptable = true) →
      ∃ j t, s.pc j ≠ .idle ∧ s.step j = some t := by
    intro k hk hsw hp hs
    obtain ⟨t, ht⟩ := can_step hp hs (hI.awake hsw)
    exact ⟨k, t, hk, ht⟩
  cases hp : s.ptable with
  | some k =>
    have hk := (hI.ptable k).1 hp
    refine hgo k ?_ ?_ (Or.inr hk) (Or.inr (Or.inr hk))
    · exact fun hc => absurd ((congrArg Pc.ptable hc).symm.trans hk) nofun
    · exact fun hc => absurd ((congrArg Pc.ptable hc).symm.trans hk) nofun
  | none =>
    cases hs : s.spin with
    | some k =>
      have hk := (hI.spin k).1 hs
      refine hgo k ?_ ?_ (Or.inl hp) (Or.inr (Or.inl hk))
      · exact fun hc => absurd ((congrArg Pc.spin hc).symm.trans hk) nofun
      · exact fun hc => absurd ((congrArg Pc.spin hc).symm.trans hk) nofun
    | none =>
      cases ha : s.asleep i with
      | false =>
        obtain ⟨t, ht⟩ := can_step (Or.inl hp) (Or.inl hs) ha
        exact ⟨i, t, hi, ht⟩
      | true =>
        -- a sleeper: the owner goes on, or who is about to wake it
        have hother : ∃ k, (s.pc k).owns = true ∨ (s.pc k).waking = true := by
          rcases hI.waits i (Or.inr ha) with hl | ⟨k, hk⟩
          · rw [hI.locked] at hl
            obtain ⟨k, hk⟩ := Option.isSome_iff_exists.1 hl
            exact ⟨k, Or.inl ((hI.owner k).1 hk)⟩
          · exact ⟨k, Or.inr hk⟩
        obtain ⟨k, hk⟩ := hother
        refine hgo k ?_ ?_ (Or.inl hp) (Or.inl hs)
        · exact fun hc => by simp [hc, Pc.owns, Pc.waking] at hk
        · exact fun hc => by simp [hc, Pc.owns, Pc.waking] at hk

theorem not_stuck_handOver : ∃ s : Sys, s.asleep 1 = true ∧ (s.locked = true ∨
    ∃ j, (s.pc j).waking = true) ∧ ∃ j t, s.pc j ≠ .idle ∧ s.step j = some t := by
  obtain ⟨s, hs⟩ : ∃ s, exec next (handOver.take 10) boot = some s := ⟨_, rfl⟩
  have hstuck := not_stuck (run_of_exec hs)
  obtain rfl := Option.some.inj hs
  exact ⟨_, rfl, hstuck.1 1 rfl, hstuck.2 1 nofun⟩

end Sys

end Xv6.Kernel.Sleep
