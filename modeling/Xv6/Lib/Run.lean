/-
Labelled transition systems: runs, invariants over runs, and trace refinement.

A system is a step relation `step s l t`: from `s`, with the label `l`, to `t`.
A run is a list of labels with the states it passes. Three rules cover how the
models use runs:

* `Run.invariant`: what holds at the start and is kept by each step holds at
  every state of a run. The step may assume a condition on the state it leaves
  and on its label, and then the run is one whose steps all meet that condition;
* `Run.refine`: a relation between two systems that every step of the first
  can follow in the second makes every trace of the first one of the second;
* `Run.snoc`/`Run.append`: runs extend at their end and compose.

Where steps are computed, `exec` follows a list of labels, and `execIf` one whose steps
all meet a condition.
-/
import Mathlib

set_option autoImplicit false

namespace Xv6.Lib

variable {σ τ L : Type}

/-- A run from `s` along the labels to `t`. -/
inductive Run (step : σ → L → σ → Prop) : σ → List L → σ → Prop where
  | nil (s : σ) : Run step s [] s
  | cons {s t u : σ} {l : L} {ls : List L} :
      step s l t → Run step t ls u → Run step s (l :: ls) u

/-- The steps of `step` whose label and starting state meet `ok`. -/
def Guarded (step : σ → L → σ → Prop) (ok : σ → L → Prop) (s : σ) (l : L) (t : σ) : Prop :=
  ok s l ∧ step s l t

namespace Run

variable {step : σ → L → σ → Prop} {s t u : σ} {l : L} {ls ms : List L}

theorem append (h : Run step s ls t) (h' : Run step t ms u) : Run step s (ls ++ ms) u := by
  induction h with
  | nil s => exact h'
  | cons hst _ ih => exact .cons hst (ih h')

theorem snoc (h : Run step s ls t) (h' : step t l u) : Run step s (ls ++ [l]) u :=
  h.append (.cons h' (.nil u))

/-- **The invariant rule.** -/
theorem invariant {P : σ → Prop} (hP : ∀ s l t, step s l t → P s → P t)
    (h : Run step s ls t) (hs : P s) : P t := by
  induction h with
  | nil s => exact hs
  | cons hst _ ih => exact ih (hP _ _ _ hst hs)

/-- Runs of a system are runs of a larger one. -/
theorem mono {step' : σ → L → σ → Prop} (hm : ∀ s l t, step s l t → step' s l t)
    (h : Run step s ls t) : Run step' s ls t := by
  induction h with
  | nil s => exact .nil s
  | cons hst _ ih => exact .cons (hm _ _ _ hst) ih

/-- **The refinement rule.** When each step of the concrete system from related
states has a step of the abstract one with the same label to related states,
every trace of the concrete system is a trace of the abstract one. -/
theorem refine {astep : τ → L → τ → Prop} {R : σ → τ → Prop}
    (hR : ∀ s a l t, R s a → step s l t → ∃ b, astep a l b ∧ R t b)
    (h : Run step s ls t) : ∀ a, R s a → ∃ b, Run astep a ls b ∧ R t b := by
  induction h with
  | nil s => exact fun a ha => ⟨a, .nil a, ha⟩
  | cons hst _ ih =>
    intro a ha
    obtain ⟨b, hab, hb⟩ := hR _ _ _ _ ha hst
    obtain ⟨c, hbc, hc⟩ := ih b hb
    exact ⟨c, .cons hab hbc, hc⟩

end Run

/-! ## Computed steps -/

/-- The state after a list of labels. -/
def exec (f : L → σ → Option σ) : List L → σ → Option σ
  | [], s => some s
  | l :: ls, s => (f l s).bind (exec f ls)

theorem run_of_exec {f : L → σ → Option σ} {s t : σ} {ls : List L} (h : exec f ls s = some t) :
    Run (fun s l t => f l s = some t) s ls t := by
  induction ls generalizing s with
  | nil =>
    obtain rfl := Option.some.inj h
    exact .nil s
  | cons l ls ih =>
    obtain ⟨u, hu, ht⟩ := Option.bind_eq_some_iff.1 h
    exact .cons hu (ih ht)

/-- The state after a list of labels, if each step meets the condition. -/
def execIf (f : L → σ → Option σ) (ok : σ → L → Prop) [∀ s l, Decidable (ok s l)] :
    List L → σ → Option σ
  | [], s => some s
  | l :: ls, s => if ok s l then (f l s).bind (execIf f ok ls) else none

theorem run_of_execIf {f : L → σ → Option σ} {ok : σ → L → Prop} [∀ s l, Decidable (ok s l)]
    {s t : σ} {ls : List L} (h : execIf f ok ls s = some t) :
    Run (Guarded (fun s l t => f l s = some t) ok) s ls t := by
  induction ls generalizing s with
  | nil =>
    obtain rfl := Option.some.inj h
    exact .nil s
  | cons l ls ih =>
    simp only [execIf] at h
    split at h
    case isFalse => cases h
    case isTrue hok =>
      obtain ⟨u, hu, ht⟩ := Option.bind_eq_some_iff.1 h
      exact .cons ⟨hok, hu⟩ (ih ht)

end Xv6.Lib
