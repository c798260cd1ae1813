/-
A machine with one process, to start runs from.

Its process has `n` pages in memory, from frame 6 on, and the machine has the frames
`free`. The pages have the bytes `fill`.
-/
import Xv6.Swap.Flat

set_option autoImplicit false

namespace Xv6.Swap

open Xv6.Lib

def solo (n : Nat) (free : List Nat) (fill : Nat → Page) : Machine where
  kend := 1
  freelist := free
  mem f := if 6 ≤ f ∧ f < 6 + n then fill (f - 6) else memset 0
  space d := if d = 1 then some {
    tab := fun i => if i = 0 then some 2 else none
    pte := fun v => if v < n then ⟨6 + v, 7#12⟩ else Pte.zero } else none
  slots _ := ⟨0#12, true⟩
  disk _ _ := 0
  threshold := 100
  npages_to_swap := 4
  proc i := if i = 0 then
      ⟨n * PGSIZE, 1, 3, .RUNNING, 1, none, n * PGSIZE, none, false, BitVec.ofNat 32 n⟩
    else ⟨0, 0, 0, .UNUSED, 0, none, 0, none, false, 0#32⟩
  initproc := 0
  nextpid := 2
  pipe _ := none
  cpu := ⟨1, 0, []⟩
  hist := ⟨fun _ => none, [], [], false⟩

namespace Solo

variable {n : Nat} {free : List Nat} {fill : Nat → Page}

theorem pte_eq (d v : Nat) :
    (solo n free fill).pte d v = if d = 1 ∧ v < n then ⟨6 + v, 7#12⟩ else Pte.zero := by
  by_cases hd : d = 1
  · subst hd
    simp [Machine.pte, solo]
  · simp [Machine.pte, solo, hd]

theorem tab_eq (d i : Nat) :
    (solo n free fill).tab d i = if d = 1 ∧ i = 0 then some 2 else none := by
  by_cases hd : d = 1
  · subst hd
    simp [Machine.tab, solo]
  · simp [Machine.tab, solo, hd]

/-- What each frame is. -/
def owner (n f : Nat) : Option Owner :=
  if f = 1 then some (.dir 1)
  else if f = 2 then some (.table 1 0)
  else if f = 3 then some (.kstack 0)
  else if 6 ≤ f ∧ f < 6 + n then some (.page 1 (f - 6))
  else none

theorem uses (o : Owner) (f : Nat) (hu : Uses ∅ (solo n free fill) o f) :
    owner n f = some o := by
  rcases o with ⟨d, v⟩ | ⟨d, i⟩ | d | p | i | g
  · obtain ⟨-, hp, rfl⟩ := hu
    rw [pte_eq] at hp ⊢
    split at hp
    · next hdv =>
      obtain ⟨rfl, hv⟩ := hdv
      rw [if_pos ⟨rfl, hv⟩]
      unfold owner
      simp only
      rw [if_neg (by omega), if_neg (by omega), if_neg (by omega), if_pos (by omega),
        Nat.add_sub_cancel_left]
    · cases hp
  · have hf : (solo n free fill).tab d i = some f := hu
    rw [tab_eq] at hf
    split at hf
    · next hdi =>
      obtain ⟨rfl, rfl⟩ := hdi
      cases hf
      rfl
    · cases hf
  · obtain ⟨hs, rfl⟩ := hu
    by_cases hf : f = 1
    · subst hf; rfl
    · simp [solo, hf] at hs
  · obtain ⟨hk, hne⟩ := hu
    by_cases hp : p = 0
    · subst hp; cases hk; rfl
    · simp only [solo, if_neg hp] at hk
      exact absurd hk.symm hne
  · cases hu
  · exact hu.1.elim

theorem live {p : Nat} (hl : ((solo n free fill).proc p).live) : p = 0 := by
  by_contra hp
  exact hl.1 (by simp [solo, hp])

theorem no_slot (o : Nat × Nat) (k : Nat) : ¬SlotUses (solo n free fill) o k := by
  rintro ⟨-, -, hs, -⟩
  rw [pte_eq] at hs
  split at hs
  · exact absurd (Pte.swapped_iff.1 hs).1 (by simp [Pte.present])
  · cases hs

/-- **The invariant holds**, when the free frames are others. -/
theorem inv (hn : 6 + n ≤ NFRAMES) (hnodup : free.Nodup)
    (hfree : ∀ f ∈ free, 6 + n ≤ f ∧ f < NFRAMES) : Inv ∅ (solo n free fill) := by
  refine ⟨{
    own := ⟨fun {o p r} ho hp => ?_, fun {o r} ho hf => ?_⟩
    nodup := hnodup
    range_free := fun f hf => ⟨show 1 ≤ f by have := hfree f hf; omega, (hfree f hf).2⟩
    range_used := fun o f hu => ?_
    kend_pos := Nat.one_pos
    tab_zero := fun d v hn => ?_
    slot_own := ⟨fun ho => absurd ho (no_slot _ _), fun ho => absurd ho (no_slot _ _)⟩
    slot_range := fun o k ho => absurd ho (no_slot o k) }, {
    dir := fun p hl => by rw [live hl]; rfl
    dir_inj := fun p q hp hq _ => (live hp).trans (live hq).symm
    size := fun p hl => ?_
    embryo := fun p he => ?_ }⟩
  · exact Option.some.inj ((uses o r ho).symm.trans (uses p r hp))
  · have hr := uses o r ho
    have := hfree r hf
    unfold owner at hr
    split_ifs at hr
    all_goals omega
  · have ho := uses o f hu
    have hlt : f < 6 + n ∧ 1 ≤ f := by
      unfold owner at ho
      split_ifs at ho
      all_goals omega
    exact ⟨hlt.2, by omega⟩
  · rw [tab_eq] at hn
    rw [pte_eq, if_neg]
    rintro ⟨rfl, hv⟩
    rw [if_pos ⟨rfl, Nat.div_eq_of_lt (by simp only [NFRAMES, NPTENTRIES] at *; omega)⟩] at hn
    cases hn
  · rw [live hl]
    show n * PGSIZE ≤ KERNBASE
    simp only [NFRAMES, PGSIZE, KERNBASE, SWAP_BLOCKS_PER_PAGE, BSIZE] at *
    omega
  · by_cases hp : p = 0
    · subst hp; cases he
    · simp [solo, hp]

theorem recorded : (solo n free fill).Recorded := by
  intro d v _ _ hs
  rw [pte_eq] at hs
  split at hs
  · exact absurd (Pte.swapped_iff.1 hs).1 (by simp [Pte.present])
  · cases hs

theorem alive : (solo n free fill).myproc.alive := by
  have hstate : (solo n free fill).myproc.state = .RUNNING := rfl
  refine ⟨⟨?_, ?_⟩, ?_⟩
  all_goals rw [hstate]; decide

end Solo

end Xv6.Swap
