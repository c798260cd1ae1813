/-
Routines that may panic, and routines that work on a part of the state.

`Ends w m s E Q` says how `m` ends from `s` when it runs alone: it returns with a result
and a state that meet `Q`, or it panics with a message that meets `E`. It lies between
`Spec`, which allows every panic, and `Returns`, which allows none.

A `Part` names a part of a state. A routine for the part becomes a routine for the whole
with `Code.on`, which leaves everything else as it is.
-/
import Xv6.Lib.Code

set_option autoImplicit false

namespace Xv6.Lib

namespace Code

variable {σ α β : Type} {w : σ → σ} {s t : σ} {m : Code σ α} {f : α → Code σ β}
  {E E' : String → Prop} {Q Q' : α → σ → Prop} {P : β → σ → Prop}

/-- From `s`, `m` returns with `Q`, or panics with a message in `E`. -/
def Ends (w : σ → σ) (m : Code σ α) (s : σ) (E : String → Prop) (Q : α → σ → Prop) : Prop :=
  (∀ a t, m.run w s = .ok (a, t) → Q a t) ∧ ∀ msg, m.run w s = .error msg → E msg

theorem Returns.ends (h : Returns w m s Q) : Ends w m s E Q := by
  obtain ⟨a, t, hm, hQ⟩ := h
  refine ⟨fun a' t' hm' => ?_, fun msg hm' => ?_⟩
  · rw [hm] at hm'
    cases hm'
    exact hQ
  · rw [hm] at hm'
    cases hm'

theorem Ends.mono (h : Ends w m s E Q) (hE : ∀ msg, E msg → E' msg) (hQ : ∀ a t, Q a t → Q' a t) :
    Ends w m s E' Q' :=
  ⟨fun a t hm => hQ a t (h.1 a t hm), fun msg hm => hE msg (h.2 msg hm)⟩

/-- **The call rule.** -/
theorem Ends.bind (h : Ends w m s E Q) (hf : ∀ a t, Q a t → Ends w (f a) t E P) :
    Ends w (m >>= f) s E P := by
  unfold Ends
  rw [run_bind]
  cases hm : m.run w s with
  | error msg =>
    refine ⟨fun b u h' => ?_, fun msg' h' => ?_⟩
    · cases h'
    · obtain rfl := Except.error.inj h'
      exact h.2 _ hm
  | ok r =>
    obtain ⟨a, t⟩ := r
    exact hf a t (h.1 a t hm)

/-- A call whose outcome is known. -/
theorem Ends.bind_run {a : α} (h : m.run w s = .ok (a, t)) (hf : Ends w (f a) t E P) :
    Ends w (m >>= f) s E P := by
  unfold Ends
  rw [run_bind_of_ok h]
  exact hf

/-- A call of a routine that returns. -/
theorem Returns.bind_ends (h : Returns w m s Q) (hf : ∀ a t, Q a t → Ends w (f a) t E P) :
    Ends w (m >>= f) s E P :=
  h.ends.bind hf

@[simp] theorem ends_pure (a : α) : Ends w (pure a : Code σ α) s E Q ↔ Q a s := by
  constructor
  · exact fun h => h.1 a s rfl
  · intro h
    refine ⟨fun a' t hm => ?_, fun msg hm => by cases hm⟩
    cases hm
    exact h

@[simp] theorem ends_panic (msg : String) : Ends w (panic msg : Code σ α) s E Q ↔ E msg := by
  constructor
  · exact fun h => h.2 msg rfl
  · intro h
    refine ⟨fun a t hm => ?_, fun msg' hm => ?_⟩
    · cases hm
    · cases hm
      exact h

@[simp] theorem ends_modify (g : σ → σ) {Q : Unit → σ → Prop} :
    Ends w (modify g) s E Q ↔ Q () (g s) := by
  constructor
  · exact fun h => h.1 () _ rfl
  · intro h
    refine ⟨fun a t hm => ?_, fun msg hm => by cases hm⟩
    cases hm
    exact h

@[simp] theorem ends_get_bind {f : σ → Code σ β} :
    Ends w (get >>= f) s E P ↔ Ends w (f s) s E P := Iff.rfl

@[simp] theorem ends_modify_bind {g : σ → σ} {f : Unit → Code σ β} :
    Ends w (modify g >>= f) s E P ↔ Ends w (f ()) (g s) E P := Iff.rfl

end Code

/-- A part of the states `σ`, with states `τ` of its own. -/
structure Part (σ τ : Type) where
  get : σ → τ
  set : τ → σ → σ
  get_set : ∀ v s, get (set v s) = v
  set_get : ∀ s, set (get s) s = s
  set_set : ∀ u v s, set u (set v s) = set u s

namespace Code

variable {σ τ α : Type} {p : Part σ τ} {s : σ} {m : Code τ α} {E : String → Prop}
  {Q : α → τ → Prop}

/-- `m` as a routine for the whole state. -/
def on (p : Part σ τ) : Code τ α → Code σ α
  | ret a => ret a
  | panic msg => panic msg
  | act f k => act (fun s => p.set (f (p.get s)) s) fun s => on p (k (p.get s))
  | sleep k => sleep (on p k)

theorem run_on (m : Code τ α) : ∀ s : σ,
    (on p m).run id s = (m.run id (p.get s)).map fun r => (r.1, p.set r.2 s) := by
  induction m with
  | ret a =>
    intro s
    change Except.ok (a, s) = Except.ok (a, p.set (p.get s) s)
    rw [p.set_get]
  | panic msg => intro s; rfl
  | act f k ih =>
    intro s
    change (on p (k (p.get s))).run id (p.set (f (p.get s)) s) = _
    rw [ih, p.get_set]
    change _ = ((k (p.get s)).run id (f (p.get s))).map fun r => (r.1, p.set r.2 s)
    simp only [p.set_set]
  | sleep k ih => exact ih

/-- **The frame rule**: the rest of the state stays. -/
theorem Returns.on (h : Returns id m (p.get s) Q) :
    Returns id (on p m) s fun a t => ∃ v, Q a v ∧ t = p.set v s := by
  obtain ⟨a, v, hm, hQ⟩ := h
  exact ⟨a, p.set v s, by rw [run_on, hm]; rfl, v, hQ, rfl⟩

theorem Ends.on (h : Ends id m (p.get s) E Q) :
    Ends id (on p m) s E fun a t => ∃ v, Q a v ∧ t = p.set v s := by
  unfold Ends
  rw [run_on]
  cases hm : m.run id (p.get s) with
  | error msg =>
    refine ⟨fun a t h' => ?_, fun msg' h' => ?_⟩
    · cases h'
    · obtain rfl := Except.error.inj h'
      exact h.2 _ hm
  | ok r =>
    refine ⟨fun a t h' => ?_, fun msg h => by cases h⟩
    cases h'
    exact ⟨r.2, h.1 r.1 r.2 hm, rfl⟩

end Code

end Xv6.Lib
