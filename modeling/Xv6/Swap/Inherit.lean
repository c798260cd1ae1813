/-
What the child of a fork gets, under any evictions.

Whatever the allocations of `fork` evict, the child's frames and slots are its own and the
parent's memory is as before. The child's memory is the parent's when no allocation takes
out the very page that it is to hold the copy of (`ForkSpares`): `copyuvm` reads the entry
of a page in memory before it calls `kalloc`, and with an empty free list `kalloc` may page
out that page and give its frame back. Then the child gets what `kfree` wrote there.
-/
import Xv6.Swap.Solo
import Xv6.Swap.Forecast

set_option autoImplicit false

namespace Xv6.Swap

open Xv6.Lib

variable {s t : Machine}

/-- No other process has a frame or a slot of process `q`. A zombie has given its slots back. -/
structure Private (t : Machine) (q : Nat) : Prop where
  frames : ∀ p, p ≠ q → (t.proc p).live → ∀ v < UPAGES, ∀ w < UPAGES,
    (t.pte (t.proc q).pgdir v).present = true → (t.pte (t.proc p).pgdir w).present = true →
      (t.pte (t.proc p).pgdir w).ppn ≠ (t.pte (t.proc q).pgdir v).ppn
  slots : ∀ p, p ≠ q → (t.proc p).alive → ∀ v < UPAGES, ∀ w < UPAGES,
    (t.pte (t.proc q).pgdir v).swapped = true → (t.pte (t.proc p).pgdir w).swapped = true →
      (t.pte (t.proc p).pgdir w).ppn ≠ (t.pte (t.proc q).pgdir v).ppn

/-- Frames and slots have one owner each. -/
theorem Inv.isPrivate {q : Nat} (hI : Inv ∅ t) (hq : (t.proc q).alive) : Private t q where
  frames p hpq hp v hv w hw hpv hpw heq := by
    have hown := hI.own.inj (o := .page (t.proc p).pgdir w) (p := .page (t.proc q).pgdir v)
      ⟨hw, hpw, heq⟩ ⟨hv, hpv, rfl⟩
    obtain ⟨hdir, -⟩ := Owner.page.inj hown
    exact hpq (hI.dir_inj p q hp hq.1 hdir)
  slots p hpq hp v hv w hw hsv hsw heq := by
    have hown := hI.slot_own.inj (o := ((t.proc p).pgdir, w)) (p := ((t.proc q).pgdir, v))
      ⟨hI.alive_dir hp, hw, hsw, heq⟩ ⟨hI.alive_dir hq, hv, hsv, rfl⟩
    exact hpq (hI.dir_inj p q hp.1 hq.1 (Prod.mk.inj hown).1)

/-- Process `np` of `t` has the memory that the caller has in `s`, and the caller still has it. -/
structure Inherits (s t : Machine) (np : Nat) : Prop where
  child : SameMemory s t s.cpu.proc np
  own : Private t np
  parent : SameMemory s t s.cpu.proc s.cpu.proc

/-- **The child of a fork inherits the memory of its parent** when the forecast spares every
page, and only then, unless a page has by chance the bytes of a freed frame. -/
theorem fork_inherits_iff {pid : Nat} (hI : Inv ∅ s) (hR : s.Recorded) (hcur : s.myproc.alive)
    (hrun : fork.run s = .ok (some pid, t)) :
    ∃ np, (t.proc np).pid = pid ∧ (t.proc np).parent = some s.cpu.proc ∧
      (t.proc np).sz = s.myproc.sz ∧ (ForkSpares s → Inherits s t np) ∧
        (Inherits s t np → (∀ v < pagesUp s.myproc.sz, Unfilled s s.myproc.pgdir v) →
          ForkSpares s) := by
  obtain ⟨np, hF, hS⟩ := fork_spec hI hR hcur _ _ hrun
  obtain ⟨hspares, hintact⟩ := fork_forecast hI hR hcur _ _ hrun (Option.some_ne_none pid)
  have hnp : (t.proc np).alive := by
    refine ⟨⟨?_, ?_⟩, ?_⟩
    all_goals rw [hF.state]; decide
  refine ⟨np, hF.pid_eq.1, hF.parent_eq, hF.sz, fun h => ?_, fun h => hintact (hF.child.1 h.child)⟩
  exact ⟨hF.child.2 (hspares h), hS.inv.isPrivate hnp, hF.parent⟩

/-- A process with six pages, and frames to spare for the first of its copies. -/
def twoToSpare : Machine :=
  solo 6 [12, 13, 14, 15, 16, 17, 18, 19, 20, 21, 22, 23, 24] fun v _ => UInt8.ofNat v

/-- The same with batches of one page. -/
def oneByOne : Machine := { twoToSpare with npages_to_swap := 1 }

theorem oneByOne_inv : Inv ∅ oneByOne :=
  Inv.congr (s := twoToSpare) (Solo.inv (by decide) (by decide) (by decide)) rfl

theorem oneByOne_recorded : oneByOne.Recorded :=
  Machine.Recorded.mono (s := twoToSpare) Solo.recorded (fun _ => Iff.rfl) rfl rfl
    fun _ _ _ _ => rfl

theorem oneByOne_alive : oneByOne.myproc.alive := by
  have hstate : oneByOne.myproc.state = .RUNNING := rfl
  refine ⟨⟨?_, ?_⟩, ?_⟩
  all_goals rw [hstate]; decide

theorem oneByOne_forks : K.result fork oneByOne = some (some 2) := by decide +kernel

/-- The copies of pages 1 to 5 each take a page out that has been copied before. -/
theorem fork_inherits_iff_oneByOne :
    (∃ np, ((K.final fork oneByOne).proc np).pid = 2 ∧
      Inherits oneByOne (K.final fork oneByOne) np) ∧
    ∀ v < 5, ((K.final fork oneByOne).pte 1 v).swapped = true := by
  have hrun : fork.run oneByOne = .ok (some 2, K.final fork oneByOne) :=
    Code.run_of_result oneByOne_forks
  have hspares : ForkSpares oneByOne := by decide +kernel
  obtain ⟨np, hpid, -, -, h, -⟩ :=
    fork_inherits_iff oneByOne_inv oneByOne_recorded oneByOne_alive hrun
  refine ⟨⟨np, hpid, h hspares⟩, ?_⟩
  decide +kernel

/-! ## A page that is evicted while it is copied -/

/-- A process with six pages, and the frames that `fork` needs before it copies the first. -/
def sixPages : Machine :=
  solo 6 [12, 13, 14, 15, 16, 17, 18, 19, 20, 21, 22] fun v _ => UInt8.ofNat v

theorem sixPages_inv : Inv ∅ sixPages := Solo.inv (by decide) (by decide) (by decide)

theorem sixPages_forks : K.result fork sixPages = some (some 2) := by decide +kernel

/-- The forecast does not spare page 0. -/
example : Inv ∅ sixPages ∧ ¬ForkSpares sixPages := ⟨sixPages_inv, by decide +kernel⟩

/-- Byte `o` of page `v` of process `p`. -/
def byteOf (s : Machine) (p v : Nat) (o : Fin PGSIZE) : Option Byte :=
  (s.content (s.proc p).pgdir v).map fun pg => pg o

theorem sixPages_child : ((K.final fork sixPages).proc 1).pid = 2 ∧
    byteOf (K.final fork sixPages) 1 0 ⟨5, by decide⟩ = some 1 := by decide +kernel

/-- **The child gets a freed frame**: page 0 is evicted while the frame of its copy is
allocated, and the child has the filling of `kfree` where its parent has 0. -/
theorem fork_copies_freed : ∃ t, fork.run sixPages = .ok (some 2, t) ∧ (t.proc 1).pid = 2 ∧
    ¬Inherits sixPages t 1 := by
  obtain ⟨hpid, hchild⟩ := sixPages_child
  refine ⟨K.final fork sixPages, Code.run_of_result sixPages_forks, hpid, fun h => ?_⟩
  have hpage : 0 < pagesUp (sixPages.proc sixPages.cpu.proc).sz := by decide
  have hbyte : byteOf (K.final fork sixPages) 1 0 ⟨5, by decide⟩ = some 0 := by
    unfold byteOf
    rw [(h.child 0 hpage).1]
    rfl
  rw [hchild] at hbyte
  exact absurd hbyte (by decide)

end Xv6.Swap
