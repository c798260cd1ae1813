/-
What a slot of the process table carries over from its last owner.

`wait` clears the pid and `killed`, `allocproc` the signal fields; the error paths
of `fork` clear neither, so that a slot can be UNUSED with a pid that `kill` and
`sendsig` still find, and `kill(0)` finds every slot that is free. What they set
there is set in the next process that is created in the slot.
-/
import Xv6.Signal.Birth

set_option autoImplicit false

namespace Xv6.Signal

open Xv6.Lib

variable {k : Config} {s t : Machine} {c : Nat} {i j : Slot} {e : Event}

/-- What `fork` may leave set in the process it hands over. -/
structure Clean (p : Proc) : Prop where
  killed : p.killed = true → p.targeted = true
  signals : p.suspended = true ∨ p.sig_pending = true ∨ p.sighandler ≠ 0 → p.signalled = true

/-- The invariant: free slots carry nothing that a search or a test finds, and an
EMBRYO only what was meant for it. -/
structure Tidy (s : Machine) : Prop where
  unused : ∀ i, (s.proc i).state = .UNUSED →
    (s.proc i).pid = 0 ∧ (s.proc i).killed = false ∧ (s.proc i).suspended = false
  embryo : ∀ i, (s.proc i).state = .EMBRYO → (s.proc i).killed = true →
    (s.proc i).targeted = true
  creating : ∀ i np a st, (s.proc i).pos = .creating np a st → st ≠ .stack → st ≠ .signals →
    ((s.proc np).suspended = true ∨ (s.proc np).sig_pending = true ∨
      (s.proc np).sighandler ≠ 0) → (s.proc np).signalled = true

/-- What the four signals and `kill` look for in a slot. -/
def Matches (s : Machine) (i : Slot) : Event → Prop
  | .kill _ pid => (s.find fun p => p.pid == pid) = some i
  | .sendsig n =>
    (n = 1 ∧ 2 < (s.proc i).pid) ∨ (n = 2 ∧ 2 ≤ (s.proc i).pid) ∨
      (n = 3 ∧ (s.proc i).suspended = true) ∨
      (n = 4 ∧ 2 < (s.proc i).pid ∧ (s.proc i).state ≠ .UNUSED ∧ (s.proc i).state ≠ .ZOMBIE)
  | _ => False

/-- No `fork` fails once it has a slot, `kill` is not called with pid 0, and `wait`
reaps no suspended zombie. -/
def Thorough (s : Machine) : Event → Prop
  | .fail _ => False
  | .kill _ pid => pid ≠ 0
  | .wait c => ∀ i j, s.cpu c = some i →
      (s.find fun p => p.parent == some i && p.state == .ZOMBIE) = some j →
      (s.proc j).suspended = false
  | _ => True

instance (s : Machine) : (e : Event) → Decidable (Thorough s e)
  | .fail _ => inferInstanceAs (Decidable False)
  | .kill _ pid => inferInstanceAs (Decidable (pid ≠ 0))
  | .wait c => inferInstanceAs (Decidable (∀ i j, s.cpu c = some i →
      (s.find fun p => p.parent == some i && p.state == .ZOMBIE) = some j →
      (s.proc j).suspended = false))
  | .round _ | .timer _ | .interrupt _ | .fault _ | .test _ | .retest _ | .trapret _
  | .forkret _ | .enter _ | .leave _ | .sleep _ _ | .wakeup _ | .acquiresleep _ _
  | .releasesleep _ _ | .begin_op _ | .end_op _ | .openFile _ _ | .closeFile _ _ | .exit _
  | .dropCwd _ | .exitDone _ | .resumeExit _ | .signal _ _ | .scheduler_start _ | .fork _ _
  | .advance _ | .sendsig _ =>
    inferInstanceAs (Decidable True)

/-- The condition on a step: it is thorough, and a signal resumes no RUNNING or
EMBRYO process. -/
def Neat (s : Machine) (e : Event) : Prop := Spares Parked s e ∧ Thorough s e
  deriving Decidable

/-- The fields that `Tidy` speaks of are the same. -/
structure SameFlags (p q : Proc) : Prop where
  pid : q.pid = p.pid
  killed : q.killed = p.killed
  suspended : q.suspended = p.suspended
  sig_pending : q.sig_pending = p.sig_pending
  sighandler : q.sighandler = p.sighandler
  targeted : q.targeted = p.targeted
  signalled : q.signalled = p.signalled

theorem Tidy.keep (h : Tidy s) (hn : Nursery s)
    (hpos : ∀ i np a st, (t.proc i).pos = .creating np a st → (s.proc i).pos = .creating np a st)
    (hst : ∀ j, (t.proc j).state = .UNUSED ∨ (t.proc j).state = .EMBRYO →
      (t.proc j).state = (s.proc j).state)
    (hfl : ∀ j, (s.proc j).state = .UNUSED ∨ (s.proc j).state = .EMBRYO →
      SameFlags (s.proc j) (t.proc j)) : Tidy t := by
  constructor
  · intro i hi
    have hs := hst i (Or.inl hi)
    have hf := hfl i (Or.inl (hs.symm.trans hi))
    rw [hf.pid, hf.killed, hf.suspended]
    exact h.unused i (hs.symm.trans hi)
  · intro i hi
    have hs := hst i (Or.inr hi)
    have hf := hfl i (Or.inr (hs.symm.trans hi))
    rw [hf.killed, hf.targeted]
    exact h.embryo i (hs.symm.trans hi)
  · intro i np a st hi h1 h2
    have hi' := hpos i np a st hi
    have hf := hfl np (Or.inr (hn.embryo i np a st hi'))
    rw [hf.suspended, hf.sig_pending, hf.sighandler, hf.signalled]
    exact h.creating i np a st hi' h1 h2

theorem Tidy.alloc (h : Tidy s) (hn : Nursery s) {np : Slot} (a : Option ForkArgs)
    (hu : (s.proc np).state = .UNUSED) (hi : (s.proc i).state = .RUNNING) :
    Tidy { (s.set np (Proc.alloc s.nextpid a)).set i fun p =>
      { p with pos := .creating np a .stack } with nextpid := s.nextpid + 1 } := by
  have hnew : ∀ j b st, (s.proc j).pos ≠ .creating np b st := fun j b st hj => by
    have := hn.embryo j np b st hj
    rw [hu] at this
    cases this
  have hclean := h.unused np hu
  obtain ⟨h1, h2, h3⟩ := h
  constructor
  · intro j hj
    simp only [Machine.set_proc, Proc.alloc] at *
    grind -ring -linarith
  · intro j hj hk
    simp only [Machine.set_proc, Proc.alloc] at *
    grind -ring -linarith
  · intro j m b st hj
    simp only [Machine.set_proc, Proc.alloc] at *
    grind -ring -linarith

theorem Stage.write_flags (k : Config) (i : Slot) (cur : Proc) (a : Option ForkArgs) (p : Proc)
    (st : Stage) : (st.write k i cur a p).pid = p.pid ∧ (st.write k i cur a p).killed = p.killed ∧
      (st.write k i cur a p).targeted = p.targeted ∧
      (st.write k i cur a p).signalled = p.signalled ∧
      ((st.write k i cur a p).suspended = true → p.suspended = true ∧ st ≠ .signals) ∧
      ((st.write k i cur a p).sig_pending = true → p.sig_pending = true ∧ st ≠ .signals) ∧
      ((st.write k i cur a p).sighandler ≠ 0 → p.sighandler ≠ 0 ∧ st ≠ .signals) := by
  cases st <;> cases a <;> simp [Stage.write]

theorem Tidy.advance (h : Tidy s) (hn : Nursery s) {np : Slot} {a : Option ForkArgs}
    {st : Stage} (hi : (s.proc i).state = .RUNNING) (hpos : (s.proc i).pos = .creating np a st) :
    Tidy ((s.set np fun p => st.write k i (s.proc i) a p).set i
      fun p => { p with pos := st.next np a }) := by
  have hem := hn.embryo i np a st hpos
  have hcr := hn.creator
  have hw := Stage.write_flags k i (s.proc i) a (s.proc np) st
  have hws := Stage.write_state k i (s.proc i) a (s.proc np) st
  have hwp := Stage.write_pos k i (s.proc i) a (s.proc np) st
  have hnext : ∀ m b st', st.next np a = .creating m b st' → m = np ∧ st' ≠ .stack ∧
      (st' ≠ .signals → st ≠ .stack) := by
    intro m b st' hm
    cases st <;> simp [Stage.next] at hm <;> grind -ring -linarith
  have hc := h.creating i np a st hpos
  obtain ⟨h1, h2, h3⟩ := h
  constructor
  · intro j hj
    simp only [Machine.set_proc] at *
    grind -ring -linarith
  · intro j hj hk
    simp only [Machine.set_proc] at *
    grind -ring -linarith
  · intro j m b st' hj hs1 hs2
    simp only [Machine.set_proc] at *
    grind -ring -linarith

theorem sendsig_flags (hT : Tidy s) (n : Nat) (j : Slot) (hj : (s.proc j).state = .UNUSED) :
    SameFlags (s.proc j) ((sendsig n s).proc j) := by
  have := hT.unused j hj
  unfold sendsig
  constructor <;> grind -ring -linarith [Proc.kill, Proc.background, Proc.foreground, Proc.custom]

/-- What a signal sets in a process, it records. -/
theorem sendsig_records (n : Nat) (s : Machine) (j : Slot) :
    (((sendsig n s).proc j).killed = true → (s.proc j).killed = true ∨
      ((sendsig n s).proc j).targeted = true) ∧
    ((s.proc j).targeted = true → ((sendsig n s).proc j).targeted = true) ∧
    ((s.proc j).signalled = true → ((sendsig n s).proc j).signalled = true) ∧
    (((sendsig n s).proc j).suspended = true → (s.proc j).suspended = true ∨
      ((sendsig n s).proc j).signalled = true) ∧
    (((sendsig n s).proc j).sig_pending = true → (s.proc j).sig_pending = true ∨
      ((sendsig n s).proc j).signalled = true) ∧
    ((sendsig n s).proc j).sighandler = (s.proc j).sighandler := by
  unfold sendsig
  grind -ring -linarith [Proc.kill, Proc.background, Proc.foreground, Proc.custom]

theorem Tidy.kill (h : Tidy s) {j : Slot} (hj : (s.proc j).pid ≠ 0) :
    Tidy (s.set j Proc.kill) := by
  -- the process is not in a free slot
  have hu : (s.proc j).state ≠ .UNUSED := fun hx => hj (h.unused j hx).1
  obtain ⟨h1, h2, h3⟩ := h
  constructor
  · intro i hi
    simp only [Machine.set_proc, Proc.kill] at *
    grind -ring -linarith
  · intro i hi hk
    simp only [Machine.set_proc, Proc.kill] at *
    grind -ring -linarith
  · intro i np a st hi
    simp only [Machine.set_proc, Proc.kill] at *
    grind -ring -linarith

theorem Tidy.sendsig (h : Tidy s) (n : Nat) : Tidy (Signal.sendsig n s) := by
  have hst := sendsig_state n s
  have hpo := sendsig_pos n s
  have hre := sendsig_records n s
  constructor
  · intro j hj
    have hju : (s.proc j).state = .UNUSED := by
      have := hst j
      grind -ring -linarith
    have hf := sendsig_flags h n j hju
    rw [hf.pid, hf.killed, hf.suspended]
    exact h.unused j hju
  · intro j hj hk
    have hje : (s.proc j).state = .EMBRYO := by
      have := hst j
      grind -ring -linarith
    have := hre j
    have := h.embryo j hje
    grind -ring -linarith
  · intro i np a st hi h1 h2
    rw [hpo] at hi
    have := hre np
    have := h.creating i np a st hi h1 h2
    grind -ring -linarith

theorem Tidy.step (h : Tidy s) (hP : Placed s) (hn : Nursery s) (hA : Neat s e)
    (he : Step k s e t) (hp : t.panicked = none) : Tidy t := by
  replace he := effect_of_step he
  have hrun := hP.running
  by_cases ho : e.isTurn = true
  · -- the process of a CPU moves: no free slot changes
    obtain ⟨c, i, q, hi, hq, hT, -⟩ := turn_step he ho
    have hpos := hT.pos
    have hst := hT.state
    have hr := hrun c i hi
    exact h.keep hn (by grind -ring -linarith [Pos.isCreating]) (by grind -ring -linarith)
      (by grind -ring -linarith [SameFlags])
  cases e <;> first
    | exact absurd rfl ho
    | simp only [effect, act_eq_some, Option.some.injEq] at he
  case round c =>
    split at he
    · obtain rfl := Option.some.inj he
      have hag := aged_state k s
      have hpo := aged_pos k s
      have hfl : ∀ j, SameFlags (s.proc j) ((s.aged k).proc j) := fun j => by
        constructor <;> simp only [Machine.aged, Machine.each_proc, Proc.expire, Proc.boost] <;>
          grind -ring -linarith
      rcases round_cases k c hp with ⟨-, hr⟩ | ⟨i, -, hir, -, hr⟩
      · rw [hr]
        exact h.keep hn (by grind -ring -linarith) (by grind -ring -linarith)
          (by grind -ring -linarith)
      · rw [hr]
        exact h.keep hn (by grind -ring -linarith [Proc.run]) (by grind -ring -linarith [Proc.run])
          (by grind -ring -linarith [Proc.run])
    · cases he
  case wakeup a =>
    subst he
    have := wakeup1_proc (some (.addr a)) s
    exact h.keep hn (by grind -ring -linarith) (by grind -ring -linarith)
      (by grind -ring -linarith [SameFlags])
  case exitDone c =>
    obtain ⟨i, hi, -, rfl⟩ := he
    have hi' := hrun c i hi
    split
    · exact h.keep hn (by grind -ring -linarith) (by grind -ring -linarith)
        (by grind -ring -linarith [SameFlags])
    · have hself := exitDone_self c i s
      have hother := fun j (hj : j ≠ i) => exitDone_other (c := c) (s := s) hj
      have hre : ∀ j, SameFlags (s.proc j) ((s.proc j).reparent i s.initproc) ∧
          ((s.proc j).reparent i s.initproc).pos = (s.proc j).pos := fun j => by
        unfold Proc.reparent
        split <;> exact ⟨⟨rfl, rfl, rfl, rfl, rfl, rfl, rfl⟩, rfl⟩
      -- the process that exits becomes ZOMBIE, and the others change parent and wake up
      refine h.keep hn (fun j np a st hj => ?_) (fun j hj => ?_) fun j hj => ?_
      all_goals by_cases hji : j = i
      · rw [hji, hself] at hj
        cases hj
      · obtain ⟨st', -, hq⟩ := hother j hji
        rw [hq] at hj
        exact (hre j).2.symm.trans hj
      · rw [hji, hself] at hj
        rcases hj with hj | hj <;> cases hj
      · obtain ⟨st', hst', hq⟩ := hother j hji
        rw [Proc.reparent_state] at hst'
        rw [hq] at hj ⊢
        grind -ring -linarith
      · rw [hji, hi'] at hj
        rcases hj with hj | hj <;> cases hj
      · obtain ⟨st', hst', hq⟩ := hother j hji
        rw [hq]
        have hf := (hre j).1
        exact ⟨hf.pid, hf.killed, hf.suspended, hf.sig_pending, hf.sighandler, hf.targeted,
          hf.signalled⟩
  case wait c =>
    obtain ⟨i, hi, -, rfl⟩ := he
    have := hrun c i hi
    have hsus := hA.2 i
    unfold wait
    split
    · -- the slot becomes free, and the condition says that it is not suspended
      rename_i j hj
      have hjs := hsus j hi hj
      have hfind := s.find_some hj
      have hjz : (s.proc j).state = .ZOMBIE := by grind -ring -linarith
      obtain ⟨h1, h2, h3⟩ := h
      have hem := hn.embryo
      constructor
      · intro l hl
        simp only [Machine.set_proc, Proc.reap] at *
        grind -ring -linarith
      · intro l hl hk
        simp only [Machine.set_proc, Proc.reap] at *
        grind -ring -linarith
      · intro l np a st hl
        simp only [Machine.set_proc, Proc.reap] at *
        grind -ring -linarith
    · split
      · exact h
      · exact h.keep hn (by grind -ring -linarith [Signal.sleep])
          (by grind -ring -linarith [Signal.sleep])
          (by grind -ring -linarith [SameFlags, Signal.sleep])
  case kill c pid =>
    obtain ⟨i, hi, -, rfl⟩ := he
    rcases kill_cases pid s with hk | ⟨j, hj, hk⟩
    · rw [hk]
      exact h
    · rw [hk]
      exact h.kill (by rw [hj]; exact hA.2)
  case fork c a =>
    obtain ⟨i, hi, -, rfl⟩ := he
    rcases allocproc_cases i a s with hk | ⟨np, hu, hk⟩
    · rw [hk]
      exact h
    · rw [hk]
      exact h.alloc hn a hu (hrun c i hi)
  case advance c =>
    obtain ⟨i, hi, hg, rfl⟩ := he
    obtain ⟨np, a, st, hpos, hk⟩ := advance_cases k hg
    rw [hk]
    exact h.advance hn (hrun c i hi) hpos
  case fail c => exact absurd hA.2 (by simp [Thorough])
  case sendsig n =>
    subst he
    exact h.sendsig n
  case scheduler_start c =>
    obtain ⟨i, hi, -, rfl⟩ := he
    exact h.keep hn (by grind -ring -linarith [Proc.start]) (by grind -ring -linarith [Proc.start])
      (by grind -ring -linarith [SameFlags, Proc.start])
  case resumeExit c =>
    obtain ⟨i, hi, -, rfl⟩ := he
    cases hp

theorem tidy_boot (k : Config) : Tidy (boot k) := by
  constructor
  · intro i hi
    simp only [boot] at hi ⊢
    split
    · rename_i h0
      rw [if_pos h0] at hi
      cases hi
    · exact ⟨rfl, rfl, rfl⟩
  · intro i hi
    rcases boot_state k i with hp | hp <;> rw [hp] at hi <;> cases hi
  · intro i np a st hi
    rcases boot_pos k i with hp | hp <;> rw [hp] at hi <;> cases hi

/-- **Every process is born clean.** In a run in which no `fork` fails once it has a
slot, `kill` never gets pid 0, `wait` reaps no suspended zombie and signals resume no
RUNNING or EMBRYO process: what `fork` is about to hand over is killed only if its
pid was, and has a signal field set only if a signal came; and no `kill` or `sendsig`
finds an UNUSED slot. -/
theorem born_clean {es : List Event} (hrun : Run (Guarded (Step k) Neat) (boot k) es s)
    (hs : s.panicked = none) :
    (∀ i np a, (s.proc i).pos = .creating np a .ready → Clean (s.proc np)) ∧
      ∀ e i, Neat s e → (s.proc i).state = .UNUSED → ¬ Matches s i e := by
  have hS : Sound s ∧ (s.panicked = none → Tidy s) := by
    refine hrun.invariant (P := fun s => Sound s ∧ (s.panicked = none → Tidy s))
      (fun s e t hst h => ?_) ⟨sound_boot k, fun _ => tidy_boot k⟩
    have hp := not_panicked_of_step hst.2
    exact ⟨h.1.step hst.1.1 hst.2,
      (h.2 hp).step (h.1.placed hp) (h.1.nursery hp) hst.1 hst.2⟩
  have hT := hS.2 hs
  refine ⟨fun i np a hi => ?_, fun e i hA hu hm => ?_⟩
  · exact ⟨hT.embryo np ((hS.1.nursery hs).embryo i np a _ hi),
      hT.creating i np a _ hi (by simp) (by simp)⟩
  · obtain ⟨hpid, -, hsus⟩ := hT.unused i hu
    cases e with
    | kill c pid =>
      have hx := s.find_some hm
      have hne := hA.2
      simp only [Thorough, beq_iff_eq] at hne hx
      exact hne (hx.symm.trans hpid)
    | sendsig n =>
      unfold Matches at hm
      grind -ring -linarith
    | _ => exact hm

/-- The shell's child is about to be handed over, and SIGINT has found it. -/
theorem born_clean_sigint : ∃ es s, Run (Guarded (Step xv6) Neat) (boot xv6) es s ∧
    Clean (s.proc 2) := by
  have hx : ((stepsIf xv6 Neat (startShell ++ [Event.round 0, .forkret 0, .enter 0, .fork 0 none] ++
      List.replicate 7 (Event.advance 0) ++ [Event.sendsig 1]) (boot xv6)).map fun s =>
        (s.panicked, (s.proc 1).pos)) = some (none, .creating 2 none .ready) := by decide +kernel
  obtain ⟨s, hs, hv⟩ := Option.map_eq_some_iff.1 hx
  simp only [Prod.mk.injEq] at hv
  exact ⟨_, s, run_of_stepsIf hs, (born_clean (run_of_stepsIf hs) hv.1).1 1 2 none hv.2⟩

/-- `kill(0)` finds the first free slot; the next child is created in it and is
killed, though nobody has killed its pid. -/
theorem born_killed : ∃ es s, Run (Step xv6) (boot xv6) es s ∧
    (s.proc 1).pos = .creating 2 none .ready ∧ ¬ Clean (s.proc 2) := by
  have hx : ((steps xv6 (startShell ++
      [Event.round 0, .forkret 0, .enter 0, .kill 0 0, .fork 0 none] ++
      List.replicate 7 (Event.advance 0)) (boot xv6)).map fun s =>
        ((s.proc 1).pos, (s.proc 2).killed, (s.proc 2).targeted)) =
      some (.creating 2 none .ready, true, false) := by decide +kernel
  obtain ⟨s, hs, hv⟩ := Option.map_eq_some_iff.1 hx
  simp only [Prod.mk.injEq] at hv
  refine ⟨_, s, run_of_steps hs, hv.1, fun hc => ?_⟩
  have := hc.killed hv.2.1
  rw [hv.2.2] at this
  cases this

end Xv6.Signal
