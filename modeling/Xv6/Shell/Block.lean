/-
The blocked system calls of the enhanced shell: the check of `syscall()` on a process
table of structures, and what a step can do to such a table.

Whether a call is refused is stored nowhere. `syscall()` looks at the `blocked`
array of the parent, and for exec at the one of the parent's parent, when the call
is made. So the refused set of a process is a function of the process table, and
fork, exit and wait, which write the `parent` pointers, may change it.

`LIVE` stands for SLEEPING, RUNNABLE and RUNNING. The calls themselves are in
`Xv6.Shell.Table`, on the words of the kernel's memory; `Effect` is what they show on
the table of structures while `block` and `unblock` keep to their array.
-/
import Mathlib

set_option autoImplicit false

namespace Xv6.Shell

def NPROC : Nat := 64

instance : NeZero NPROC := ⟨by decide⟩

abbrev NSYSCALLS : Nat := 64
abbrev SYS_fork : Nat := 1
abbrev SYS_exit : Nat := 2
abbrev SYS_wait : Nat := 3
abbrev SYS_exec : Nat := 7
abbrev SYS_block : Nat := 23
abbrev SYS_unblock : Nat := 24

/-- `NELEM(syscalls)`; every entry but the one at 0 is set. -/
abbrev NELEM : Nat := 26

/-- An entry of `ptable.proc`. -/
abbrev Slot : Type := Fin NPROC

inductive ProcState where
  | UNUSED
  | LIVE
  | ZOMBIE
  deriving DecidableEq, Repr

/-- `struct proc`, the fields the check depends on. -/
structure Proc where
  state : ProcState := .UNUSED
  pid : Nat := 0
  parent : Option Slot := none
  blocked : Nat → Bool := fun _ => false

structure Machine where
  proc : Slot → Proc
  nextpid : Nat

/-- `initproc`. -/
def initproc : Slot := 0

namespace Machine

def set (s : Machine) (i : Slot) (f : Proc → Proc) : Machine :=
  { s with proc := fun j => if j = i then f (s.proc j) else s.proc j }

theorem set_self (s : Machine) (i : Slot) (f : Proc → Proc) :
    (s.set i f).proc i = f (s.proc i) := if_pos rfl

theorem set_of_ne (s : Machine) {i j : Slot} (f : Proc → Proc) (h : j ≠ i) :
    (s.set i f).proc j = s.proc j := if_neg h

/-- The check of `syscall()`: whether call `num` returns -1 because it is blocked. -/
def refused (s : Machine) (i : Slot) (num : Nat) : Bool :=
  (0 < num && num < NELEM) &&
    if num = SYS_exec then
      ((s.proc i).parent.bind fun p => (s.proc p).parent).any fun q => (s.proc q).blocked num
    else
      (s.proc i).parent.any fun p => (s.proc p).blocked num

/-- `exit`: the children go to init, and the process is a zombie. -/
def exit (i : Slot) (s : Machine) : Machine :=
  { s with
    proc := fun j =>
      let p := s.proc j
      let p := if p.parent = some i then { p with parent := some initproc } else p
      if j = i then { p with state := .ZOMBIE } else p }

theorem exit_parent (s : Machine) (i j : Slot) : ((s.exit i).proc j).parent =
    if (s.proc j).parent = some i then some initproc else (s.proc j).parent := by
  by_cases hp : (s.proc j).parent = some i <;> by_cases hj : j = i <;> simp [exit, hp, hj] <;> simp_all

theorem exit_state (s : Machine) (i j : Slot) : ((s.exit i).proc j).state =
    if j = i then .ZOMBIE else (s.proc j).state := by
  by_cases hp : (s.proc j).parent = some i <;> by_cases hj : j = i <;> simp [exit, hp, hj]

theorem exit_blocked (s : Machine) (i j : Slot) :
    ((s.exit i).proc j).blocked = (s.proc j).blocked := by
  simp only [exit]
  split <;> split <;> rfl

end Machine

/-! ## What a step can do -/

/-- A step that ends process `x`, if any, and is a call of `block` or `unblock` if `b`
says so: it does nothing, ends the process, takes a slot, reaps a zombie, or changes the
blocked calls of its caller. -/
inductive Effect (s : Machine) (x : Option Slot) (b : Bool) : Machine → Prop where
  | idle (hx : ∀ i, x = some i → s.refused i SYS_exit = true) : Effect s x b s
  | ends (i : Slot) (hx : x = some i) (h0 : i ≠ initproc) : Effect s x b (s.exit i)
  | takes (i np : Slot) (t : Machine) (hx : x = none) (hi : (s.proc i).state = .LIVE)
      (hnp : (s.proc np).state = .UNUSED) (ht : ∀ j, j ≠ np → t.proc j = s.proc j)
      (hp : (t.proc np).parent = (s.proc np).parent ∨ (t.proc np).parent = some i)
      (hb : ∀ n, (s.proc i).blocked n = false → (t.proc np).blocked n = false) : Effect s x b t
  | reaps (j : Slot) (hx : x = none) (hj : (s.proc j).state = .ZOMBIE) :
      Effect s x b (s.set j fun p => { p with pid := 0, parent := none, state := .UNUSED })
  | blocks (i : Slot) (f : Proc → Nat → Bool) (hx : x = none) (he : b = true)
      (hf : ∀ n, n = SYS_fork ∨ n = SYS_exit → (s.proc i).blocked n = false →
        f (s.proc i) n = false) :
      Effect s x b (s.set i fun p => { p with blocked := f p })

/-! ## The process tree -/

/-- What the `parent` pointers are in every state: init has none, and they lead to
processes that have not exited. And nobody has blocked fork or exit. -/
structure Forest (s : Machine) : Prop where
  init_live : (s.proc initproc).state = .LIVE
  init_top : (s.proc initproc).parent = none
  parent_live : ∀ i p, (s.proc i).parent = some p → (s.proc p).state = .LIVE
  may_exit : ∀ i n, n = SYS_fork ∨ n = SYS_exit → (s.proc i).blocked n = false

namespace Forest

variable {s t : Machine} {x : Option Slot} {b : Bool}

/-- Fork and exit are never refused. -/
theorem not_refused (hs : Forest s) (i : Slot) {n : Nat} (hn : n = SYS_fork ∨ n = SYS_exit) :
    s.refused i n = false := by
  have hne : n ≠ SYS_exec := by
    rcases hn with rfl | rfl <;> decide
  unfold Machine.refused
  rw [if_neg hne]
  cases (s.proc i).parent with
  | none => simp
  | some p => simp [hs.may_exit p n hn]

theorem ne_init (hs : Forest s) {i : Slot} (hi : (s.proc i).state ≠ .LIVE) : i ≠ initproc := by
  rintro rfl
  exact hi hs.init_live

/-- A slot that is not live is nobody's parent. -/
theorem parent_ne (hs : Forest s) {i p : Slot} (hp : (s.proc p).state ≠ .LIVE) :
    (s.proc i).parent ≠ some p :=
  fun h => hp (hs.parent_live i p h)

theorem takes (hs : Forest s) {i np : Slot} (hi : (s.proc i).state = .LIVE)
    (hnp : (s.proc np).state = .UNUSED) (ht : ∀ j, j ≠ np → t.proc j = s.proc j)
    (hp : (t.proc np).parent = (s.proc np).parent ∨ (t.proc np).parent = some i)
    (hb : ∀ n, (s.proc i).blocked n = false → (t.proc np).blocked n = false) : Forest t := by
  have hdead : (s.proc np).state ≠ .LIVE := by
    rw [hnp]
    decide
  have hlive : ∀ p, (s.proc p).state = .LIVE → (t.proc p).state = .LIVE := by
    intro p hl
    have hpn : p ≠ np := by
      rintro rfl
      exact hdead hl
    rw [ht p hpn]
    exact hl
  have h0 := ht initproc (hs.ne_init hdead).symm
  refine ⟨by rw [h0]; exact hs.init_live, by rw [h0]; exact hs.init_top, ?_, ?_⟩
  · intro j p hj
    by_cases hjn : j = np
    · subst hjn
      rcases hp with hp | hp
      · rw [hp] at hj
        exact hlive p (hs.parent_live _ _ hj)
      · obtain rfl : i = p := Option.some.inj (hp.symm.trans hj)
        exact hlive i hi
    · rw [ht j hjn] at hj
      exact hlive p (hs.parent_live _ _ hj)
  · intro j n hn
    by_cases hjn : j = np
    · subst hjn
      exact hb n (hs.may_exit i n hn)
    · rw [ht j hjn]
      exact hs.may_exit j n hn

theorem ends (hs : Forest s) {i : Slot} (h0 : i ≠ initproc) : Forest (s.exit i) := by
  refine ⟨?_, ?_, ?_, ?_⟩
  · rw [Machine.exit_state, if_neg h0.symm]
    exact hs.init_live
  · rw [Machine.exit_parent, hs.init_top]
    exact if_neg (by simp)
  · intro j p hj
    rw [Machine.exit_parent] at hj
    split at hj
    · obtain rfl := Option.some.inj hj
      rw [Machine.exit_state, if_neg h0.symm]
      exact hs.init_live
    case isFalse hne =>
      -- no pointer leads to `i` any more
      have hpi : p ≠ i := by
        rintro rfl
        exact hne hj
      rw [Machine.exit_state, if_neg hpi]
      exact hs.parent_live j p hj
  · intro j n hn
    rw [Machine.exit_blocked]
    exact hs.may_exit j n hn

theorem reaps (hs : Forest s) {j : Slot} (hj : (s.proc j).state = .ZOMBIE) :
    Forest (s.set j fun p => { p with pid := 0, parent := none, state := .UNUSED }) := by
  have hdead : (s.proc j).state ≠ .LIVE := by
    rw [hj]
    decide
  have h0 := Machine.set_of_ne s (fun p => { p with pid := 0, parent := none, state := .UNUSED })
    (hs.ne_init hdead).symm
  refine ⟨by rw [h0]; exact hs.init_live, by rw [h0]; exact hs.init_top, ?_, ?_⟩
  · intro i p hi
    by_cases hij : i = j
    · subst hij
      rw [Machine.set_self] at hi
      cases hi
    · rw [Machine.set_of_ne _ _ hij] at hi
      have hpj : p ≠ j := by
        rintro rfl
        exact hs.parent_ne hdead hi
      rw [Machine.set_of_ne _ _ hpj]
      exact hs.parent_live i p hi
  · intro i n hn
    by_cases hij : i = j
    · subst hij
      rw [Machine.set_self]
      exact hs.may_exit i n hn
    · rw [Machine.set_of_ne _ _ hij]
      exact hs.may_exit i n hn

theorem blocks (hs : Forest s) {i : Slot} {f : Proc → Nat → Bool}
    (hf : ∀ n, n = SYS_fork ∨ n = SYS_exit → (s.proc i).blocked n = false →
      f (s.proc i) n = false) : Forest (s.set i fun p => { p with blocked := f p }) := by
  have hstate : ∀ j, ((s.set i fun p => { p with blocked := f p }).proc j).state =
      (s.proc j).state := by
    intro j
    by_cases hj : j = i <;> simp [Machine.set, hj]
  have hparent : ∀ j, ((s.set i fun p => { p with blocked := f p }).proc j).parent =
      (s.proc j).parent := by
    intro j
    by_cases hj : j = i <;> simp [Machine.set, hj]
  refine ⟨(hstate _).trans hs.init_live, (hparent _).trans hs.init_top, ?_, ?_⟩
  · intro j p hj
    rw [hparent] at hj
    exact (hstate p).trans (hs.parent_live j p hj)
  · intro j n hn
    by_cases hj : j = i
    · subst hj
      rw [Machine.set_self]
      exact hf n hn (hs.may_exit j n hn)
    · rw [Machine.set_of_ne _ _ hj]
      exact hs.may_exit j n hn

theorem effect (hs : Forest s) (h : Effect s x b t) : Forest t := by
  cases h with
  | idle => exact hs
  | ends i _ h0 => exact hs.ends h0
  | takes i np _ _ hi hnp ht hp hb => exact hs.takes hi hnp ht hp hb
  | reaps j _ hj => exact hs.reaps hj
  | blocks i f _ _ hf => exact hs.blocks hf

end Forest

/-! ## The refused set -/

namespace Machine

variable {s t : Machine} {g : Slot}

/-- The parent's parent. -/
def grandparent (s : Machine) (i : Slot) : Option Slot :=
  (s.proc i).parent.bind fun p => (s.proc p).parent

/-- The refused set depends on the two pointers and the two arrays they lead to. -/
theorem refused_congr (hp : (t.proc g).parent = (s.proc g).parent)
    (hq : t.grandparent g = s.grandparent g)
    (hb : ∀ p, (s.proc g).parent = some p → (t.proc p).blocked = (s.proc p).blocked)
    (hc : ∀ q, s.grandparent g = some q → (t.proc q).blocked = (s.proc q).blocked) (n : Nat) :
    t.refused g n = s.refused g n := by
  have h1 : (t.proc g).parent.any (fun p => (t.proc p).blocked n) =
      (s.proc g).parent.any fun p => (s.proc p).blocked n := by
    rw [hp]
    cases hpar : (s.proc g).parent with
    | none => rfl
    | some p => simp [hb p hpar]
  have h2 : (t.grandparent g).any (fun p => (t.proc p).blocked n) =
      (s.grandparent g).any fun p => (s.proc p).blocked n := by
    rw [hq]
    cases hgp : s.grandparent g with
    | none => rfl
    | some q => simp [hc q hgp]
  simp only [grandparent] at h2
  simp only [refused, h1, h2]

/-- After the exit of the parent, the calls that init has blocked are refused; exec is
not, as init has no parent. -/
theorem exit_parent_refused (hs : Forest s) {d : Slot} (hd : (s.proc g).parent = some d)
    (n : Nat) : (s.exit d).refused g n =
      (0 < n && n < NELEM && n ≠ SYS_exec && (s.proc initproc).blocked n) := by
  have hp : ((s.exit d).proc g).parent = some initproc := by
    rw [exit_parent, if_pos hd]
  have h0 : ((s.exit d).proc initproc).parent = none := by
    rw [exit_parent, hs.init_top]
    exact if_neg (by simp)
  unfold refused
  rw [hp]
  by_cases hn : n = SYS_exec
  · rw [if_pos hn]
    simp [h0, hn]
  · rw [if_neg hn]
    simp [hn, exit_blocked]

/-- After the exit of the parent's parent, exec is refused if init has blocked it;
the other calls stay as they were. -/
theorem exit_grandparent_refused {d : Slot} (hp : (s.proc g).parent ≠ some d)
    (hd : s.grandparent g = some d) (n : Nat) : (s.exit d).refused g n =
      if n = SYS_exec then (s.proc initproc).blocked n else s.refused g n := by
  obtain ⟨p, hgp, hpd⟩ := Option.bind_eq_some_iff.1 hd
  have hg : ((s.exit d).proc g).parent = some p := by
    rw [exit_parent, if_neg hp, hgp]
  have hq : ((s.exit d).proc p).parent = some initproc := by
    rw [exit_parent, if_pos hpd]
  unfold refused
  rw [hg]
  by_cases hn : n = SYS_exec
  · have hlt : SYS_exec < NELEM := by decide
    rw [if_pos hn, if_pos hn]
    simp [hq, hn, exit_blocked, hlt]
  · rw [if_neg hn, if_neg hn, if_neg hn]
    simp [hgp, exit_blocked]

/-- The exit of a process that is neither changes nothing. -/
theorem exit_other_refused {d : Slot} (hp : (s.proc g).parent ≠ some d)
    (hq : s.grandparent g ≠ some d) (n : Nat) : (s.exit d).refused g n = s.refused g n := by
  have hg : ((s.exit d).proc g).parent = (s.proc g).parent := by
    rw [exit_parent, if_neg hp]
  refine refused_congr hg ?_ (fun _ _ => exit_blocked _ _ _) (fun _ _ => exit_blocked _ _ _) n
  unfold grandparent at hq ⊢
  rw [hg]
  cases hgp : (s.proc g).parent with
  | none => rfl
  | some p =>
    have hpd : (s.proc p).parent ≠ some d := by
      rw [hgp] at hq
      exact hq
    show ((s.exit d).proc p).parent = (s.proc p).parent
    rw [exit_parent, if_neg hpd]

/-- A write to a slot that is not live changes the refused set of no live process. -/
theorem dead_slot_refused (hs : Forest s) {j : Slot} (hj : (s.proc j).state ≠ .LIVE)
    (hg : (s.proc g).state = .LIVE) (ht : ∀ i, i ≠ j → t.proc i = s.proc i) (n : Nat) :
    t.refused g n = s.refused g n := by
  have hlive : ∀ i, (s.proc i).state = .LIVE → t.proc i = s.proc i := by
    intro i hi
    refine ht i ?_
    rintro rfl
    exact hj hi
  have hp : (t.proc g).parent = (s.proc g).parent := by rw [hlive g hg]
  have hpar : ∀ p, (s.proc g).parent = some p → t.proc p = s.proc p :=
    fun p h => hlive p (hs.parent_live g p h)
  have hgrand : ∀ q, s.grandparent g = some q → t.proc q = s.proc q := by
    intro q hq
    obtain ⟨p, -, hpq⟩ := Option.bind_eq_some_iff.1 hq
    exact hlive q (hs.parent_live p q hpq)
  refine refused_congr hp ?_ (fun p h => by rw [hpar p h]) (fun q h => by rw [hgrand q h]) n
  unfold grandparent
  rw [hp]
  cases hgp : (s.proc g).parent with
  | none => rfl
  | some p =>
    show (t.proc p).parent = (s.proc p).parent
    rw [hpar p hgp]

end Machine

/-- The refused set of a live process changes, but for calls of `block` and `unblock`,
only at the exit of its parent or of its parent's parent, and then it is what
`syscall()` computes through init. -/
theorem Effect.refused_live {s t : Machine} {x : Option Slot} {b : Bool} {g : Slot}
    (hs : Forest s) (h : Effect s x b t) (hg : (s.proc g).state = .LIVE) (hb : b = false) :
    ((∀ d, x = some d → (s.proc g).parent ≠ some d ∧ s.grandparent g ≠ some d) →
      ∀ n, t.refused g n = s.refused g n) ∧
    (∀ d, x = some d → (s.proc g).parent = some d → ∀ n, t.refused g n =
      (0 < n && n < NELEM && n ≠ SYS_exec && (s.proc initproc).blocked n)) ∧
    ∀ d, x = some d → (s.proc g).parent ≠ some d → s.grandparent g = some d → ∀ n,
      t.refused g n = if n = SYS_exec then (s.proc initproc).blocked n else s.refused g n := by
  have not_exit : x = none → ∀ d, x ≠ some d := by
    rintro rfl d hd
    cases hd
  cases h with
  | idle hx =>
    have hno : ∀ d, x ≠ some d := by
      intro d hd
      have := hx d hd
      rw [hs.not_refused d (.inr rfl)] at this
      cases this
    exact ⟨fun _ _ => rfl, fun d hd => absurd hd (hno d), fun d hd => absurd hd (hno d)⟩
  | ends i hx h0 =>
    refine ⟨fun hn => ?_, ?_, ?_⟩
    · exact Machine.exit_other_refused (hn i hx).1 (hn i hx).2
    · intro d hd hp
      obtain rfl : i = d := Option.some.inj (hx.symm.trans hd)
      exact Machine.exit_parent_refused hs hp
    · intro d hd hp hq
      obtain rfl : i = d := Option.some.inj (hx.symm.trans hd)
      exact Machine.exit_grandparent_refused hp hq
  | takes i np _ hx hi hnp ht hp hb' =>
    have hno := not_exit hx
    refine ⟨fun _ => ?_, fun d hd => absurd hd (hno d), fun d hd => absurd hd (hno d)⟩
    exact Machine.dead_slot_refused hs (by rw [hnp]; decide) hg ht
  | reaps j hx hj =>
    have hno := not_exit hx
    refine ⟨fun _ => ?_, fun d hd => absurd hd (hno d), fun d hd => absurd hd (hno d)⟩
    exact Machine.dead_slot_refused hs (by rw [hj]; decide) hg fun i hi => Machine.set_of_ne _ _ hi
  | blocks i f _ he =>
    rw [hb] at he
    cases he

end Xv6.Shell
