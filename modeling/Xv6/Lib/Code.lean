/-
Stateful routines that may sleep or panic, what they compute when they run
alone, and the rules for proving it.

A C routine of a kernel reads and writes the machine, gives up the processor at
some points, and may end the machine with a panic. `Code σ α` is such a routine
as a tree of atomic actions: `act f k` replaces the state `s` by `f s` and goes
on as `k s`; `sleep k` gives up the processor and goes on as `k` later; `ret`
and `panic` are the two ends. The routines compose with `do`, so a model can be
read next to the C text.

One routine has three readings. `Code.run w` runs it alone: nothing happens in a
sleep except `w`, what the switch away and back does to the state by itself.
`Code.runIn w` runs it in an environment that takes a step in each sleep.

Alone, a routine has a result or has panicked. `Spec w m s Q` says that a
result, if there is one, meets `Q`; `Returns w m s Q` says that there is one and
that it meets `Q`. Both are computed along the text of `m` by the lemmas below,
and a call is replaced by the specification of the callee with the `bind` rule.
-/
import Mathlib

set_option autoImplicit false

namespace Xv6.Lib

/-- A routine over the states `σ` with results in `α`. -/
inductive Code (σ α : Type) : Type where
  | ret (a : α)
  | panic (msg : String)
  | act (f : σ → σ) (k : σ → Code σ α)
  | sleep (k : Code σ α)

namespace Code

variable {σ α β : Type}

/-- Run `m`, then `f` on its result. -/
protected def bind : Code σ α → (α → Code σ β) → Code σ β
  | ret a, f => f a
  | panic msg, _ => panic msg
  | act g k, f => act g fun s => (k s).bind f
  | sleep k, f => sleep (k.bind f)

instance : Monad (Code σ) where
  pure := ret
  bind := Code.bind

/-- Read the whole state. -/
def get : Code σ σ := act id ret

/-- Change the state. -/
def modify (f : σ → σ) : Code σ Unit := act f fun _ => ret ()

/-- Give up the processor. -/
def yield : Code σ Unit := sleep (ret ())

/-! ## Running alone -/

/-- The result and the final state of a routine that runs alone, or the message
of its panic. `w` is what a sleep does to the state. -/
def run (w : σ → σ) : Code σ α → σ → Except String (α × σ)
  | ret a, s => .ok (a, s)
  | panic msg, _ => .error msg
  | act f k, s => run w (k s) (f s)
  | sleep k, s => run w k (w s)

variable {w : σ → σ} {s t u : σ} {a : α} {b : β}

theorem run_bind (m : Code σ α) (f : α → Code σ β) (s : σ) :
    (m >>= f).run w s = match m.run w s with
      | .ok (a, t) => (f a).run w t
      | .error e => .error e := by
  induction m generalizing s with
  | ret a => rfl
  | panic msg => rfl
  | act g k ih => exact ih s (g s)
  | sleep k ih => exact ih (w s)

/-- Rewrite under the first half when it is known to return. -/
theorem run_bind_of_ok {m : Code σ α} (h : m.run w s = .ok (a, t)) (f : α → Code σ β) :
    (m >>= f).run w s = (f a).run w t := by
  rw [run_bind, h]

/-- **Peeling a composition.** A composed routine returns exactly when its
first half does and its second half does from there. -/
theorem run_bind_ok {m : Code σ α} {f : α → Code σ β} :
    (m >>= f).run w s = .ok (b, u) ↔
      ∃ a t, m.run w s = .ok (a, t) ∧ (f a).run w t = .ok (b, u) := by
  rw [run_bind]
  constructor
  · intro h
    cases hm : m.run w s with
    | error e => rw [hm] at h; cases h
    | ok r =>
      obtain ⟨a, t⟩ := r
      rw [hm] at h
      exact ⟨a, t, rfl, h⟩
  · rintro ⟨a, t, hm, hf⟩
    rw [hm]
    exact hf

@[simp] theorem run_pure (a : α) (s : σ) : (pure a : Code σ α).run w s = .ok (a, s) := rfl

@[simp] theorem run_panic (msg : String) (s : σ) :
    (panic msg : Code σ α).run w s = .error msg := rfl

@[simp] theorem run_get_bind (f : σ → Code σ β) (s : σ) :
    (get >>= f).run w s = (f s).run w s := rfl

@[simp] theorem run_modify (g : σ → σ) (s : σ) : (modify g).run w s = .ok ((), g s) := rfl

@[simp] theorem run_modify_bind (g : σ → σ) (f : Unit → Code σ β) (s : σ) :
    (modify g >>= f).run w s = (f ()).run w (g s) := rfl

@[simp] theorem run_yield (s : σ) : (yield : Code σ Unit).run w s = .ok ((), w s) := rfl

@[simp] theorem run_yield_bind (f : Unit → Code σ β) (s : σ) :
    (yield >>= f).run w s = (f ()).run w (w s) := rfl

/-- The result of running alone, if there is one. -/
def result (w : σ → σ) (m : Code σ α) (s : σ) : Option α :=
  match m.run w s with
  | .ok (a, _) => some a
  | .error _ => none

/-- The state it leaves behind; the state before, when it panics. -/
def final (w : σ → σ) (m : Code σ α) (s : σ) : σ :=
  match m.run w s with
  | .ok (_, t) => t
  | .error _ => s

theorem run_of_result {m : Code σ α} (h : m.result w s = some a) :
    m.run w s = .ok (a, m.final w s) := by
  unfold result at h
  unfold final
  cases hm : m.run w s with
  | error e => rw [hm] at h; cases h
  | ok r => rw [hm] at h; cases h; rfl

/-! ## Running in an environment -/

/-- The outcome of a routine whose first sleeps are the given steps of other
parties, and the steps that are left when it ends. -/
def runIn (w : σ → σ) : Code σ α → List (σ → σ) → σ → Except String (α × List (σ → σ) × σ)
  | ret a, es, s => .ok (a, es, s)
  | panic msg, _, _ => .error msg
  | act f k, es, s => runIn w (k s) es (f s)
  | sleep k, [], s => runIn w k [] (w s)
  | sleep k, e :: es, s => runIn w k es (e s)

variable {es fs : List (σ → σ)}

/-- Without other parties the routine runs alone. -/
theorem runIn_nil (m : Code σ α) (s : σ) :
    m.runIn w [] s = (m.run w s).map fun r => (r.1, [], r.2) := by
  induction m generalizing s with
  | ret a => rfl
  | panic msg => rfl
  | act f k ih => exact ih s (f s)
  | sleep k ih => exact ih (w s)

theorem runIn_bind_of_ok {m : Code σ α} (h : m.runIn w es s = .ok (a, fs, t)) (f : α → Code σ β) :
    (m >>= f).runIn w es s = (f a).runIn w fs t := by
  induction m generalizing s es with
  | ret b => cases h; rfl
  | panic msg => cases h
  | act g k ih => exact ih s h
  | sleep k ih =>
    cases es with
    | nil => exact ih h
    | cons e es => exact ih h

@[simp] theorem runIn_pure (a : α) (es : List (σ → σ)) (s : σ) :
    (pure a : Code σ α).runIn w es s = .ok (a, es, s) := rfl

@[simp] theorem runIn_get_bind (f : σ → Code σ β) (es : List (σ → σ)) (s : σ) :
    (get >>= f).runIn w es s = (f s).runIn w es s := rfl

@[simp] theorem runIn_modify_bind (g : σ → σ) (f : Unit → Code σ β) (es : List (σ → σ)) (s : σ) :
    (modify g >>= f).runIn w es s = (f ()).runIn w es (g s) := rfl

@[simp] theorem runIn_modify (g : σ → σ) (es : List (σ → σ)) (s : σ) :
    (modify g).runIn w es s = .ok ((), es, g s) := rfl

@[simp] theorem runIn_yield_cons (e : σ → σ) (es : List (σ → σ)) (s : σ) :
    (yield : Code σ Unit).runIn w (e :: es) s = .ok ((), es, e s) := rfl

@[simp] theorem runIn_yield_nil (s : σ) :
    (yield : Code σ Unit).runIn w [] s = .ok ((), [], w s) := rfl

/-! ## Specifications -/

/-- If `m` returns from `s`, its result and final state meet `Q`. -/
def Spec (w : σ → σ) (m : Code σ α) (s : σ) (Q : α → σ → Prop) : Prop :=
  ∀ a t, m.run w s = .ok (a, t) → Q a t

/-- From `s`, `m` returns, and its result and final state meet `Q`. -/
def Returns (w : σ → σ) (m : Code σ α) (s : σ) (Q : α → σ → Prop) : Prop :=
  ∃ a t, m.run w s = .ok (a, t) ∧ Q a t

variable {m : Code σ α} {f : α → Code σ β} {Q Q' : α → σ → Prop} {P : β → σ → Prop}

theorem Returns.spec (h : Returns w m s Q) : Spec w m s Q := by
  obtain ⟨a, t, hm, hQ⟩ := h
  intro a' t' hm'
  rw [hm] at hm'
  cases hm'
  exact hQ

theorem Spec.mono (h : Spec w m s Q) (hQ : ∀ a t, Q a t → Q' a t) : Spec w m s Q' :=
  fun a t hm => hQ a t (h a t hm)

theorem Returns.mono (h : Returns w m s Q) (hQ : ∀ a t, Q a t → Q' a t) :
    Returns w m s Q' := by
  obtain ⟨a, t, hm, h⟩ := h
  exact ⟨a, t, hm, hQ a t h⟩

/-- **The call rule.** -/
theorem Spec.bind (h : Spec w m s Q) (hf : ∀ a t, Q a t → Spec w (f a) t P) :
    Spec w (m >>= f) s P := by
  intro b u hb
  obtain ⟨a, t, hm, hfa⟩ := run_bind_ok.1 hb
  exact hf a t (h a t hm) b u hfa

/-- **The call rule**, for a callee and a caller that return. -/
theorem Returns.bind (h : Returns w m s Q) (hf : ∀ a t, Q a t → Returns w (f a) t P) :
    Returns w (m >>= f) s P := by
  obtain ⟨a, t, hm, hQ⟩ := h
  obtain ⟨b, u, hb, hP⟩ := hf a t hQ
  exact ⟨b, u, run_bind_ok.2 ⟨a, t, hm, hb⟩, hP⟩

/-- A call whose outcome is known. -/
theorem Spec.bind_run (h : m.run w s = .ok (a, t)) (hf : Spec w (f a) t P) :
    Spec w (m >>= f) s P := by
  intro b u hb
  rw [run_bind_of_ok h] at hb
  exact hf b u hb

theorem Returns.bind_run (h : m.run w s = .ok (a, t)) (hf : Returns w (f a) t P) :
    Returns w (m >>= f) s P := by
  obtain ⟨b, u, hb, hP⟩ := hf
  exact ⟨b, u, by rw [run_bind_of_ok h, hb], hP⟩

/-- Two specifications of one routine hold together. -/
theorem Spec.and (h : Spec w m s Q) (h' : Spec w m s Q') :
    Spec w m s fun a t => Q a t ∧ Q' a t :=
  fun a t hm => ⟨h a t hm, h' a t hm⟩

theorem Returns.and (h : Returns w m s Q) (h' : Spec w m s Q') :
    Returns w m s fun a t => Q a t ∧ Q' a t := by
  obtain ⟨a, t, hm, hQ⟩ := h
  exact ⟨a, t, hm, hQ, h' a t hm⟩

@[simp] theorem spec_pure : Spec w (pure a : Code σ α) s Q ↔ Q a s := by
  constructor
  · exact fun h => h a s rfl
  · intro h a t hm
    cases hm
    exact h

@[simp] theorem spec_panic (msg : String) : Spec w (panic msg : Code σ α) s Q := by
  intro a t hm
  cases hm

@[simp] theorem spec_modify (g : σ → σ) {Q : Unit → σ → Prop} :
    Spec w (modify g) s Q ↔ Q () (g s) := by
  constructor
  · exact fun h => h () _ rfl
  · intro h a t hm
    cases hm
    exact h

@[simp] theorem spec_get_bind {f : σ → Code σ β} :
    Spec w (get >>= f) s P ↔ Spec w (f s) s P := Iff.rfl

@[simp] theorem spec_modify_bind {g : σ → σ} {f : Unit → Code σ β} :
    Spec w (modify g >>= f) s P ↔ Spec w (f ()) (g s) P := Iff.rfl

@[simp] theorem spec_yield_bind {f : Unit → Code σ β} :
    Spec w (yield >>= f) s P ↔ Spec w (f ()) (w s) P := Iff.rfl

@[simp] theorem returns_pure : Returns w (pure a : Code σ α) s Q ↔ Q a s := by
  constructor
  · rintro ⟨a, t, hm, hQ⟩
    cases hm
    exact hQ
  · exact fun h => ⟨a, s, rfl, h⟩

@[simp] theorem returns_modify (g : σ → σ) {Q : Unit → σ → Prop} :
    Returns w (modify g) s Q ↔ Q () (g s) := by
  constructor
  · rintro ⟨a, t, hm, hQ⟩
    cases hm
    exact hQ
  · exact fun h => ⟨(), _, rfl, h⟩

@[simp] theorem returns_get_bind {f : σ → Code σ β} :
    Returns w (get >>= f) s P ↔ Returns w (f s) s P := Iff.rfl

@[simp] theorem returns_modify_bind {g : σ → σ} {f : Unit → Code σ β} :
    Returns w (modify g >>= f) s P ↔ Returns w (f ()) (g s) P := Iff.rfl

@[simp] theorem returns_yield_bind {f : Unit → Code σ β} :
    Returns w (yield >>= f) s P ↔ Returns w (f ()) (w s) P := Iff.rfl

end Code

end Xv6.Lib
