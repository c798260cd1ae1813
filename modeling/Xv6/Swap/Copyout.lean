/-
`copyout` over a partly swapped address space.

The loop takes one page of the range at a time. A resident user page is written through
its frame. For any other page `uva2ka` gives a null pointer, and then the entry decides:
when there is one and it is not present, the page is loaded and `copyout` returns -1 all
the same (`else return -1`); otherwise `memmove` writes through the null pointer, at the
page offset of `va`.

`copyoutWatched` is the loop with a record of the pages written to, so that a write
through a null pointer can be seen.
-/
import Xv6.Swap.Progress

set_option autoImplicit false

namespace Xv6.Swap

open Xv6.Lib

variable {h : Set Nat} {s t u : Machine} {d v : Nat}

/-! ## The record -/

/-- The loop of `copyout`, and the pages it has written to with the frames it wrote through
(`none` for a null pointer), the last one first. -/
def copyoutLoopWatched (d : Nat) (src : Nat → K Byte) :
    (fuel va j len : Nat) → List (Nat × Option Nat) → K (Bool × List (Nat × Option Nat))
  | 0, _, _, _, seen => return (true, seen)
  | fuel + 1, va, j, len, seen =>
    if len = 0 then return (true, seen)
    else do
      match ← copyoutTarget d (va / PGSIZE) with
      | none => return (false, seen)
      | some pa0 =>
        let n := min (PGSIZE - va % PGSIZE) len
        moveBytes pa0 (fun i => src (j + i)) (va % PGSIZE) 0 n
        copyoutLoopWatched d src fuel ((va - va % PGSIZE + PGSIZE) % 2 ^ 32) (j + n) (len - n)
          ((va / PGSIZE, pa0) :: seen)

def copyoutWatched (d va : Nat) (src : Nat → K Byte) (len : Nat) :
    K (Bool × List (Nat × Option Nat)) :=
  copyoutLoopWatched d src len va 0 len []

/-- Without the record it is `copyout`. -/
theorem copyoutLoopWatched_run (d : Nat) (src : Nat → K Byte) (fuel va j len : Nat)
    (seen : List (Nat × Option Nat)) (s : Machine) :
    (copyoutLoop d src fuel va j len).run s =
      ((copyoutLoopWatched d src fuel va j len seen).run s).map fun r => (r.1.1, r.2) := by
  induction fuel generalizing va j len seen s with
  | zero => rfl
  | succ fuel ih =>
    unfold copyoutLoop copyoutLoopWatched
    split
    · rfl
    · rw [K.run, K.run, Code.run_bind, Code.run_bind]
      cases Code.run Machine.resched (copyoutTarget d (va / PGSIZE)) s with
      | error e => rfl
      | ok r =>
        obtain ⟨_ | pa0, t⟩ := r
        · rfl
        · dsimp only
          rw [Code.run_bind, Code.run_bind]
          cases Code.run Machine.resched (moveBytes pa0 (fun i => src (j + i)) (va % PGSIZE) 0
              (min (PGSIZE - va % PGSIZE) len)) t with
          | error e => rfl
          | ok r => exact ih _ _ _ _ _

theorem copyoutWatched_run (d va : Nat) (src : Nat → K Byte) (len : Nat) (s : Machine) :
    (copyout d va src len).run s = ((copyoutWatched d va src len).run s).map fun r => (r.1.1, r.2) :=
  copyoutLoopWatched_run d src len va 0 len [] s

/-! ## What `copyout` is for -/

/-- The range `[va, va + len)` has a byte in page `v`. -/
def Spans (va len v : Nat) : Prop := ∃ x, va ≤ x ∧ x < va + len ∧ x / PGSIZE = v

/-- Page `v` is a user page in a swap slot, and there is memory to load it. -/
def Loadable (s : Machine) (d v : Nat) : Prop :=
  ∃ e, s.walk d v = some e ∧ e.swapped = true ∧ s.occupied e ∧ (s.slots e.ppn).user = true ∧
    ¬(s.freelist = [] ∧ Starved s)

/-- The machine with other bytes in its frames. -/
def Machine.withMem (s : Machine) (mem : Nat → Page) : Machine := { s with mem := mem }

/-- The bytes at `[va, hi)` of directory `d` have been written, and no other. -/
structure Wrote (s : Machine) (d va hi : Nat) (bytes : Nat → Byte) (t : Machine) : Prop where
  mem : t = s.withMem t.mem
  page : ∀ v, Resident s d v → ∀ o : Fin PGSIZE, t.mem (s.pte d v).ppn o =
    if va ≤ v * PGSIZE + o ∧ v * PGSIZE + o < hi then bytes (v * PGSIZE + o - va)
    else s.mem (s.pte d v).ppn o
  other : ∀ f, (∀ v, Resident s d v → (s.pte d v).ppn ≠ f) → t.mem f = s.mem f

/-- The content of page `v'` of `d'` once the bytes at `[va, hi)` of `d` have been written. -/
def Machine.overwritten (s : Machine) (d va hi : Nat) (bytes : Nat → Byte) (d' v' : Nat) :
    Option Page :=
  (s.content d' v').map fun pg o =>
    if d' = d ∧ va ≤ v' * PGSIZE + o.val ∧ v' * PGSIZE + o.val < hi then
      bytes (v' * PGSIZE + o.val - va)
    else pg o

/-- Every write recorded went through the frame of a user page. -/
def Translated (s : Machine) (d : Nat) (seen : List (Nat × Option Nat)) : Prop :=
  ∀ x ∈ seen, ∃ e, s.walk d x.1 = some e ∧ e.present = true ∧ e.user = true ∧ x.2 = some e.ppn

/-- What the caller of `copyout` may expect: it returns 0 exactly when the pages are user pages,
in memory or loadable; then the bytes are there; and it never writes through anything but a
user page. -/
def CopyoutOk (s : Machine) (d va : Nat) (bytes : Nat → Byte) (len : Nat) : Prop :=
  ∃ ok seen t, (copyout d va (fun j => return bytes j) len).run s = .ok (ok, t) ∧
    (copyoutWatched d va (fun j => return bytes j) len).run s = .ok ((ok, seen), t) ∧
    (ok = true ↔ ∀ v, Spans va len v → Accessible s d v ∨ Loadable s d v) ∧
    (ok = true → t = s.withMem t.mem ∧ ∀ d' v', v' < UPAGES →
      t.content d' v' = s.overwritten d va (va + len) bytes d' v') ∧
    Translated s d seen

/-- The first page of the range that is not a user page in memory. -/
structure FirstBad (s : Machine) (d va len v : Nat) : Prop where
  spans : Spans va len v
  bad : ¬Accessible s d v
  first : ∀ w < v, Spans va len w → Accessible s d w

/-! ## One page -/

theorem Machine.setMem_setMem (s : Machine) (f : Nat) (p p' : Page) :
    (s.setMem f p).setMem f p' = s.setMem f p' := by
  unfold Machine.setMem
  rw [Function.update_idem]

/-- `memmove` to a frame. -/
theorem moveBytes_run (f : Nat) (bytes : Nat → Byte) (o j n : Nat) (s : Machine)
    (hn : o + j + n ≤ PGSIZE) :
    (moveBytes (some f) (fun i => return bytes i) o j n).run s =
      .ok ((), s.setMem f fun x => if o + j ≤ x.val ∧ x.val < o + j + n then bytes (x.val - o)
        else s.mem f x) := by
  induction n generalizing j s with
  | zero =>
    have hnone : (fun x : Fin PGSIZE => if o + j ≤ x.val ∧ x.val < o + j + 0 then bytes (x.val - o)
        else s.mem f x) = s.mem f := by
      funext x
      exact if_neg (by omega)
    rw [hnone]
    unfold Machine.setMem
    rw [Function.update_eq_self]
    rfl
  | succ n ih =>
    have hrun : (moveBytes (some f) (fun i => return bytes i) o j (n + 1)).run s =
        (moveBytes (some f) (fun i => return bytes i) o (j + 1) n).run
          (s.setByte f (pgoff (o + j)) (bytes j)) := rfl
    rw [hrun, ih (j + 1) _ (by omega)]
    refine congrArg (fun m => Except.ok ((), m)) ?_
    unfold Machine.setByte
    rw [Machine.setMem_setMem]
    refine congrArg (s.setMem f) (funext fun x => ?_)
    rw [Machine.setMem_mem, Function.update_self]
    have hoff : (pgoff (o + j)).val = o + j := Nat.mod_eq_of_lt (by omega)
    by_cases hx : x.val = o + j
    · have hxe : x = pgoff (o + j) := Fin.ext (hx.trans hoff.symm)
      rw [if_neg (by omega), if_pos (by omega), hxe, Function.update_self, hoff,
        show o + j - o = j by omega]
    · have hxe : x ≠ pgoff (o + j) := fun he => hx ((congrArg Fin.val he).trans hoff)
      rw [Function.update_of_ne hxe]
      by_cases hin : o + (j + 1) ≤ x.val ∧ x.val < o + (j + 1) + n
      · rw [if_pos hin, if_pos (by omega)]
      · rw [if_neg hin, if_neg (by omega)]

/-- The target of an accessible page is its frame. -/
theorem copyoutTarget_accessible {e : Pte} (hw : s.walk d v = some e) (hp : e.present = true)
    (hu : e.user = true) : (copyoutTarget d v).run s = .ok (some (some e.ppn), s) := by
  obtain ⟨sp, hsp, hwalk⟩ := Option.bind_eq_some_iff.1 hw
  have hk : (uva2ka d v).run s = .ok (some e.ppn, s) := by
    unfold uva2ka
    rw [K.run, Code.run_bind_of_ok (walkpgdir_returns hsp v), hwalk]
    dsimp only
    rw [hp, hu]
    rfl
  unfold copyoutTarget
  rw [K.run, Code.run_bind_of_ok hk]
  rfl

/-- The kernel half of the directory has no user pages. -/
def NoKernelUser (s : Machine) (d : Nat) : Prop := ∀ v, UPAGES ≤ v → ¬Accessible s d v

theorem Accessible.resident {e : Pte} (hk : NoKernelUser s d) (hw : s.walk d v = some e)
    (hp : e.present = true) (hu : e.user = true) : Resident s d v ∧ (s.pte d v).ppn = e.ppn := by
  have hv : v < UPAGES := by
    by_contra hn
    exact hk v (Nat.not_lt.1 hn) ⟨e, hw, hp, hu⟩
  obtain ⟨sp, hsp, hwalk⟩ := Option.bind_eq_some_iff.1 hw
  have hpte : s.pte d v = e := (Machine.pte_of_space hsp v).trans (Space.walk_eq_some.1 hwalk).2
  rw [Resident, hpte]
  exact ⟨⟨hv, hp, hu⟩, rfl⟩

/-- Writing the bytes `[j, j + n)` of the source at the end of what was written. -/
theorem Wrote.extend {va j n : Nat} {bytes : Nat → Byte} (hI : Inv h s)
    (hW : Wrote s d va (va + j) bytes u) (hr : Resident s d ((va + j) / PGSIZE))
    (hn : (va + j) % PGSIZE + n ≤ PGSIZE) :
    Wrote s d va (va + j + n) bytes (u.setMem (s.pte d ((va + j) / PGSIZE)).ppn fun x =>
      if (va + j) % PGSIZE + 0 ≤ x.val ∧ x.val < (va + j) % PGSIZE + 0 + n then
        bytes (j + (x.val - (va + j) % PGSIZE))
      else u.mem (s.pte d ((va + j) / PGSIZE)).ppn x) := by
  set f := (s.pte d ((va + j) / PGSIZE)).ppn with hf
  have hdiv := Nat.div_add_mod (va + j) PGSIZE
  refine ⟨?_, fun v hv o => ?_, fun g hg => ?_⟩
  · conv_lhs => rw [hW.mem]
    rfl
  · have ho := o.isLt
    by_cases hvv : v = (va + j) / PGSIZE
    · subst hvv
      rw [Machine.setMem_mem, ← hf, Function.update_self, hW.page _ hv o, ← hf]
      simp only [PGSIZE, SWAP_BLOCKS_PER_PAGE, BSIZE] at hdiv hn ho ⊢
      by_cases hin : (va + j) % (8 * 512) + 0 ≤ o.val ∧ o.val < (va + j) % (8 * 512) + 0 + n
      · rw [if_pos hin, if_pos (by omega)]
        exact congrArg bytes (by omega)
      · rw [if_neg hin]
        by_cases hlo : va ≤ (va + j) / (8 * 512) * (8 * 512) + o.val ∧
            (va + j) / (8 * 512) * (8 * 512) + o.val < va + j
        · rw [if_pos hlo, if_pos (by omega)]
        · rw [if_neg hlo, if_neg (by omega)]
    · -- another page is in another frame
      have hne : (s.pte d v).ppn ≠ f := fun he => by
        have hx := hI.own.inj (o := .page d v) (p := .page d ((va + j) / PGSIZE)) ⟨hv.1, hv.2.1, he⟩
          ⟨hr.1, hr.2.1, rfl⟩
        exact hvv (Owner.page.inj hx).2
      rw [Machine.setMem_mem, Function.update_of_ne hne, hW.page _ hv o]
      simp only [PGSIZE, SWAP_BLOCKS_PER_PAGE, BSIZE] at hdiv hn ho hvv ⊢
      by_cases hlo : va ≤ v * (8 * 512) + o.val ∧ v * (8 * 512) + o.val < va + j
      · rw [if_pos hlo, if_pos (by omega)]
      · rw [if_neg hlo, if_neg (by omega)]
  · rw [Machine.setMem_mem, Function.update_of_ne fun he => hg _ hr he.symm, hW.other g hg]

/-- The bytes are in the memory of the process, and no other memory has changed. -/
theorem Wrote.content {va len : Nat} {bytes : Nat → Byte} (hI : Inv h s) (hk : NoKernelUser s d)
    (hW : Wrote s d va (va + len) bytes t) (hall : ∀ v, Spans va len v → Accessible s d v)
    {d' v' : Nat} (hv : v' < UPAGES) :
    t.content d' v' = s.overwritten d va (va + len) bytes d' v' := by
  have hpte : t.pte d' v' = s.pte d' v' := by rw [hW.mem]; rfl
  have hslot : ∀ k, t.slotPage k = s.slotPage k := fun k => by rw [hW.mem]; rfl
  unfold Machine.overwritten
  by_cases hr : d' = d ∧ Resident s d v'
  · obtain ⟨rfl, hr⟩ := hr
    have hs : s.content d' v' = some (s.mem (s.pte d' v').ppn) := if_pos hr.2.1
    have ht : t.content d' v' = some (t.mem (s.pte d' v').ppn) := by
      rw [Machine.content, hpte, if_pos hr.2.1]
    rw [hs, ht, Option.map_some]
    refine congrArg some (funext fun o => (hW.page v' hr o).trans ?_)
    simp only [true_and]
  · -- a page of the range is one of `d` in memory
    have hout : ∀ o : Fin PGSIZE, ¬(d' = d ∧ va ≤ v' * PGSIZE + o.val ∧
        v' * PGSIZE + o.val < va + len) := by
      rintro o ⟨rfl, h1, h2⟩
      have ho := o.isLt
      have hdiv : (v' * PGSIZE + o.val) / PGSIZE = v' := by
        simp only [PGSIZE, SWAP_BLOCKS_PER_PAGE, BSIZE] at ho ⊢
        omega
      obtain ⟨e, hw, hp, hu⟩ := hall v' ⟨_, h1, h2, hdiv⟩
      exact hr ⟨rfl, (Accessible.resident hk hw hp hu).1⟩
    have hmap : (s.content d' v').map (fun pg o => if d' = d ∧ va ≤ v' * PGSIZE + o.val ∧
        v' * PGSIZE + o.val < va + len then bytes (v' * PGSIZE + o.val - va) else pg o) =
        s.content d' v' := by
      refine (congrArg (fun g => (s.content d' v').map g) ?_).trans Option.map_id_apply
      funext pg o
      exact if_neg (hout o)
    rw [hmap, Machine.content, Machine.content, hpte]
    by_cases hp : (s.pte d' v').present = true
    · rw [if_pos hp, if_pos hp]
      refine congrArg some (hW.other _ fun w hw he => hr ?_)
      have hx := hI.own.inj (o := .page d w) (p := .page d' v') ⟨hw.1, hw.2.1, he⟩ ⟨hv, hp, rfl⟩
      obtain ⟨rfl, rfl⟩ := Owner.page.inj hx
      exact ⟨rfl, hw⟩
    · rw [if_neg hp, if_neg hp, hslot]

/-- **One turn of the loop** on an accessible page. -/
theorem copyoutLoopWatched_turn {va j len fuel : Nat} {bytes : Nat → Byte}
    {seen : List (Nat × Option Nat)} (hI : Inv h s) (hk : NoKernelUser s d)
    (hW : Wrote s d va (va + j) bytes u) (hlen : 0 < len) (hT : Translated s d seen)
    (ha : Accessible s d ((va + j) / PGSIZE)) :
    ∃ n va' seen' u', 0 < n ∧ n ≤ len ∧ (len - n = 0 ∨ va' = va + (j + n)) ∧
      (∀ x, va + j ≤ x → x < va + (j + n) → x / PGSIZE = (va + j) / PGSIZE) ∧
      (len - n = 0 ∨ (va + (j + n)) % PGSIZE = 0) ∧
      Translated s d seen' ∧ Wrote s d va (va + (j + n)) bytes u' ∧
      (copyoutLoopWatched d (fun i => return bytes i) (fuel + 1) (va + j) j len seen).run u =
        (copyoutLoopWatched d (fun i => return bytes i) fuel va' (j + n) (len - n) seen').run u' := by
  obtain ⟨e, hw, hp, hu⟩ := ha
  obtain ⟨hr, hppn⟩ := Accessible.resident hk hw hp hu
  have hdiv := Nat.div_add_mod (va + j) PGSIZE
  have hmod : (va + j) % PGSIZE < PGSIZE := Nat.mod_lt _ (by decide)
  set n := min (PGSIZE - (va + j) % PGSIZE) len with hn
  have hnle : (va + j) % PGSIZE + n ≤ PGSIZE := by omega
  have hW' := hW.extend hI hr hnle
  rw [hppn] at hW'
  refine ⟨n, (va + j - (va + j) % PGSIZE + PGSIZE) % 2 ^ 32,
    ((va + j) / PGSIZE, some e.ppn) :: seen, u.setMem e.ppn fun x =>
      if (va + j) % PGSIZE + 0 ≤ x.val ∧ x.val < (va + j) % PGSIZE + 0 + n then
        bytes (j + (x.val - (va + j) % PGSIZE)) else u.mem e.ppn x,
    by omega, Nat.min_le_right _ _, ?_, fun x h1 h2 => ?_, ?_, ?_, ?_, ?_⟩
  · -- a user page ends below KERNBASE, so the next address does not wrap
    have hlt := hr.1
    by_cases hfull : len ≤ PGSIZE - (va + j) % PGSIZE
    · exact Or.inl (by omega)
    · refine Or.inr ?_
      simp only [PGSIZE, SWAP_BLOCKS_PER_PAGE, BSIZE, UPAGES] at *
      omega
  · simp only [PGSIZE, SWAP_BLOCKS_PER_PAGE, BSIZE] at *
    omega
  · simp only [PGSIZE, SWAP_BLOCKS_PER_PAGE, BSIZE] at *
    omega
  · exact List.forall_mem_cons.2 ⟨⟨e, hw, hp, hu, rfl⟩, hT⟩
  · rw [← Nat.add_assoc]
    exact hW'
  · have hwu : u.walk d ((va + j) / PGSIZE) = some e := by
      rw [hW.mem]
      exact hw
    have htarget := copyoutTarget_accessible hwu hp hu
    have hmove := moveBytes_run e.ppn (fun i => bytes (j + i)) ((va + j) % PGSIZE) 0 n u (by omega)
    conv_lhs => unfold copyoutLoopWatched
    rw [if_neg (by omega), K.run, Code.run_bind_of_ok htarget]
    dsimp only
    rw [Code.run_bind_of_ok hmove]

/-! ## The loop -/

/-- The loop goes on until the range is written or a page of it is not a user page in memory. -/
theorem copyoutLoopWatched_prefix {va va' j len fuel : Nat} {bytes : Nat → Byte}
    {seen : List (Nat × Option Nat)} (hI : Inv h s) (hk : NoKernelUser s d) (hf : len ≤ fuel)
    (hva : len = 0 ∨ va' = va + j) (hW : Wrote s d va (va + j) bytes u) (hT : Translated s d seen)
    (hacc : ∀ x, va ≤ x → x < va + j → Accessible s d (x / PGSIZE)) :
    (∃ seen' t, (copyoutLoopWatched d (fun i => return bytes i) fuel va' j len seen).run u =
        .ok ((true, seen'), t) ∧ Translated s d seen' ∧ Wrote s d va (va + (j + len)) bytes t ∧
        ∀ x, va ≤ x → x < va + (j + len) → Accessible s d (x / PGSIZE)) ∨
      ∃ fuel' j' len' seen' u', 0 < len' ∧
        (copyoutLoopWatched d (fun i => return bytes i) fuel va' j len seen).run u =
          (copyoutLoopWatched d (fun i => return bytes i) (fuel' + 1) (va + j') j' len' seen').run u' ∧
        Translated s d seen' ∧ Wrote s d va (va + j') bytes u' ∧
        FirstBad s d va (j + len) ((va + j') / PGSIZE) := by
  induction fuel generalizing va' j len seen u with
  | zero =>
    obtain rfl : len = 0 := by omega
    exact Or.inl ⟨seen, u, rfl, hT, hW, hacc⟩
  | succ fuel ih =>
    by_cases hlen : len = 0
    · subst hlen
      refine Or.inl ⟨seen, u, ?_, hT, hW, hacc⟩
      unfold copyoutLoopWatched
      rw [if_pos rfl]
      rfl
    · obtain rfl := hva.resolve_left hlen
      by_cases ha : Accessible s d ((va + j) / PGSIZE)
      · -- the turn writes up to the end of the page, and the rest of the loop goes on there
        obtain ⟨n, va', seen', u', hn, hnl, hnext, hpage, -, hT', hW', hrun⟩ :=
          copyoutLoopWatched_turn hI hk hW (Nat.pos_of_ne_zero hlen) hT ha
        have hacc' : ∀ x, va ≤ x → x < va + (j + n) → Accessible s d (x / PGSIZE) := by
          intro x h1 h2
          by_cases hx : x < va + j
          · exact hacc x h1 hx
          · rw [hpage x (by omega) h2]
            exact ha
        have hih := ih (by omega) hnext hW' hT' hacc'
        rw [show j + n + (len - n) = j + len by omega] at hih
        rw [hrun]
        exact hih
      · refine Or.inr ⟨fuel, j, len, seen, u, Nat.pos_of_ne_zero hlen, rfl, hT, hW, ?_⟩
        refine ⟨⟨va + j, Nat.le_add_right _ _, by omega, rfl⟩, ha, fun w hw hs => ?_⟩
        obtain ⟨x, h1, h2, rfl⟩ := hs
        refine hacc x h1 ?_
        by_contra hx
        exact absurd (Nat.div_le_div_right (c := PGSIZE) (Nat.not_lt.1 hx)) (Nat.not_le.2 hw)

/-- The record only grows. -/
theorem copyoutLoopWatched_seen (src : Nat → K Byte) (fuel va j len : Nat)
    (seen : List (Nat × Option Nat)) (s : Machine) :
    K.Spec (copyoutLoopWatched d src fuel va j len seen) s fun r _ => ∀ x ∈ seen, x ∈ r.2 := by
  induction fuel generalizing va j len seen s with
  | zero => exact Code.spec_pure.2 fun x hx => hx
  | succ fuel ih =>
    unfold copyoutLoopWatched
    split
    · exact Code.spec_pure.2 fun x hx => hx
    · refine (K.spec_run _ _).bind fun r t _ => ?_
      cases r with
      | none => exact Code.spec_pure.2 fun x hx => hx
      | some pa0 =>
        refine (K.spec_run _ _).bind fun _ u _ => ?_
        exact (ih _ _ _ _ u).mono fun r _ hr x hx => hr x (List.mem_cons_of_mem _ hx)

/-- The target of a page that is not a user page in memory, when it has no entry or a present
one: a null pointer. -/
theorem copyoutTarget_null {sp : Space} (hsp : s.space d = some sp) (ha : ¬Accessible s d v)
    (hp : ∀ e, s.walk d v = some e → e.present = true) :
    (copyoutTarget d v).run s = .ok (some none, s) := by
  have hwalk : s.walk d v = sp.walk v := by
    rw [Machine.walk, hsp]
    rfl
  have hk : (uva2ka d v).run s = .ok (none, s) := by
    unfold uva2ka
    rw [K.run, Code.run_bind_of_ok (walkpgdir_returns hsp v)]
    cases hw : sp.walk v with
    | none => rfl
    | some e =>
      have hpe := hp e (hwalk.trans hw)
      have hue : e.user = false := Bool.eq_false_of_not_eq_true fun hu =>
        ha ⟨e, hwalk.trans hw, hpe, hu⟩
      dsimp only
      rw [hpe, hue]
      rfl
  unfold copyoutTarget
  rw [K.run, Code.run_bind_of_ok hk]
  dsimp only
  rw [Code.run_bind_of_ok (walkpgdir_returns hsp v)]
  cases hw : sp.walk v with
  | none => rfl
  | some e =>
    dsimp only
    rw [if_pos (hp e (hwalk.trans hw))]
    rfl

/-- The target of a page whose entry is not present: it may be loaded, and there is none. -/
theorem copyoutTarget_out {e : Pte} (hI : Inv h s) (hw : s.walk d v = some e)
    (hp : e.present = false) : K.Returns (copyoutTarget d v) s fun r _ => r = none := by
  obtain ⟨sp, hsp, hwalk⟩ := Option.bind_eq_some_iff.1 hw
  have hk : (uva2ka d v).run s = .ok (none, s) := by
    unfold uva2ka
    rw [K.run, Code.run_bind_of_ok (walkpgdir_returns hsp v), hwalk]
    dsimp only
    rw [hp]
    rfl
  unfold copyoutTarget
  refine Code.Returns.bind_run hk ?_
  refine Code.Returns.bind_run (walkpgdir_returns hsp v) ?_
  rw [hwalk]
  dsimp only
  rw [if_neg (by rw [hp]; exact Bool.false_ne_true)]
  exact (swapPageIn_exact hI (by rw [hsp]; rfl)).bind fun _ _ _ => Code.returns_pure.2 rfl

/-- Other bytes in the frames change nothing else. -/
theorem Inv.withMem (hI : Inv h s) (mem : Nat → Page) : Inv h (s.withMem mem) := hI.congr rfl

/-- What `copyout` does, by the first page that is not a user page in memory. -/
theorem copyoutWatched_outcome {sp : Space} (va len : Nat) (bytes : Nat → Byte) (hI : Inv h s)
    (hsp : s.space d = some sp) (hk : NoKernelUser s d) :
    (∃ seen t, (copyoutWatched d va (fun j => return bytes j) len).run s = .ok ((true, seen), t) ∧
        Translated s d seen ∧ Wrote s d va (va + len) bytes t ∧
        ∀ v, Spans va len v → Accessible s d v) ∨
      ∃ v, FirstBad s d va len v ∧
        ((∃ e, s.walk d v = some e ∧ e.present = false ∧ ∃ seen t,
            (copyoutWatched d va (fun j => return bytes j) len).run s = .ok ((false, seen), t) ∧
            Translated s d seen) ∨
          (∀ e, s.walk d v = some e → e.present = true) ∧
            K.Spec (copyoutWatched d va (fun j => return bytes j) len) s
              fun r _ => (v, none) ∈ r.2) := by
  have hW0 : Wrote s d va (va + 0) bytes s := by
    refine ⟨rfl, fun v _ o => ?_, fun _ _ => rfl⟩
    exact (if_neg (by omega)).symm
  have hT0 : Translated s d [] := fun x hx => absurd hx List.not_mem_nil
  unfold copyoutWatched
  rcases copyoutLoopWatched_prefix hI hk le_rfl (Or.inr rfl : len = 0 ∨ va = va + 0) hW0 hT0
      (fun x h1 h2 => absurd h2 (by omega)) with
    ⟨seen, t, hrun, hT, hW, hall⟩ | ⟨fuel, j, len', seen, u, hlen, hrun, hT, hW, hbad⟩
  · rw [Nat.zero_add] at hW hall
    refine Or.inl ⟨seen, t, hrun, hT, hW, fun v hv => ?_⟩
    obtain ⟨x, h1, h2, rfl⟩ := hv
    exact hall x h1 h2
  · rw [Nat.zero_add] at hbad
    refine Or.inr ⟨_, hbad, ?_⟩
    have hwu : ∀ v, u.walk d v = s.walk d v := fun v => by rw [hW.mem]; rfl
    have hspu : u.space d = some sp := by rw [hW.mem]; exact hsp
    have hIu : Inv h u := by rw [hW.mem]; exact hI.withMem _
    -- the loop stops at the first bad page: it returns, or writes through the null pointer
    by_cases hp : ∃ e, s.walk d ((va + j) / PGSIZE) = some e ∧ e.present = false
    · obtain ⟨e, hw, hp⟩ := hp
      refine Or.inl ⟨e, hw, hp, ?_⟩
      obtain ⟨r, t, htarget, rfl⟩ := copyoutTarget_out hIu ((hwu _).trans hw) hp
      refine ⟨seen, t, hrun.trans ?_, hT⟩
      unfold copyoutLoopWatched
      rw [if_neg (Nat.pos_iff_ne_zero.1 hlen), K.run, Code.run_bind_of_ok htarget]
      rfl
    · have hpres : ∀ e, s.walk d ((va + j) / PGSIZE) = some e → e.present = true := fun e he => by
        by_contra hn
        exact hp ⟨e, he, Bool.eq_false_of_not_eq_true hn⟩
      refine Or.inr ⟨hpres, ?_⟩
      intro r t hr
      have hr := hrun.symm.trans hr
      have hnull : ¬Accessible u d ((va + j) / PGSIZE) := by
        unfold Accessible
        simp only [hwu]
        exact hbad.bad
      have htarget := copyoutTarget_null hspu hnull fun e he => hpres e ((hwu _).symm.trans he)
      unfold copyoutLoopWatched at hr
      rw [if_neg (Nat.pos_iff_ne_zero.1 hlen), K.run, Code.run_bind_of_ok htarget] at hr
      obtain ⟨_, u2, -, hr⟩ := Code.run_bind_ok.1 hr
      exact copyoutLoopWatched_seen _ _ _ _ _ _ _ _ _ hr _ List.mem_cons_self

/-- **`copyout` does what its callers expect** exactly when every page of the range is a user
page in memory, or the first one that is not has an entry that is not present and some page of
the range is neither a user page in memory nor loadable. -/
theorem copyout_iff {va len : Nat} {bytes : Nat → Byte} (hI : Inv h s)
    (hd : (s.space d).isSome = true) (hk : NoKernelUser s d) :
    CopyoutOk s d va bytes len ↔
      (∀ v, Spans va len v → Accessible s d v) ∨
        ((∃ v e, FirstBad s d va len v ∧ s.walk d v = some e ∧ e.present = false) ∧
          ∃ v, Spans va len v ∧ ¬Accessible s d v ∧ ¬Loadable s d v) := by
  obtain ⟨sp, hsp⟩ := Option.isSome_iff_exists.1 hd
  have hplain : ∀ {r t}, (copyoutWatched d va (fun j => return bytes j) len).run s = .ok (r, t) →
      (copyout d va (fun j => return bytes j) len).run s = .ok (r.1, t) := by
    intro r t hrun
    rw [copyoutWatched_run, hrun]
    rfl
  rcases copyoutWatched_outcome va len bytes hI hsp hk with
    ⟨seen, t, hrun, hT, hW, hall⟩ | ⟨v, hbad, ⟨e, hw, hp, seen, t, hrun, hT⟩ | ⟨hpres, hnull⟩⟩
  · refine iff_of_true ⟨true, seen, t, hplain hrun, hrun, ?_, fun _ => ⟨hW.mem, ?_⟩, hT⟩ (Or.inl hall)
    · exact iff_of_true rfl fun v hv => Or.inl (hall v hv)
    · exact fun d' v' hv => hW.content hI hk hall hv
  · -- `copyout` returns -1, which is right when some page cannot be loaded
    have hnall : ¬∀ v, Spans va len v → Accessible s d v := fun hall => hbad.bad (hall v hbad.spans)
    constructor
    · rintro ⟨ok, seen', t', -, hrun', hok, -⟩
      obtain ⟨h1, -⟩ := Prod.ext_iff.1 (Except.ok.inj (hrun.symm.trans hrun'))
      obtain ⟨rfl, -⟩ := Prod.ext_iff.1 h1
      refine Or.inr ⟨⟨v, e, hbad, hw, hp⟩, ?_⟩
      have hn : ¬∀ v, Spans va len v → Accessible s d v ∨ Loadable s d v := fun hx =>
        Bool.false_ne_true (hok.2 hx)
      push Not at hn
      exact hn
    · intro hC
      obtain ⟨-, w, hws, hwa, hwl⟩ := hC.resolve_left hnall
      refine ⟨false, seen, t, hplain hrun, hrun, ?_, fun hx => absurd hx Bool.false_ne_true, hT⟩
      exact iff_of_false Bool.false_ne_true fun hx => (hx w hws).elim hwa hwl
  · refine iff_of_false ?_ ?_
    · rintro ⟨ok, seen, t, -, hrun, -, -, hT⟩
      obtain ⟨e, -, -, -, hx⟩ := hT _ (hnull _ _ hrun)
      exact Option.some_ne_none _ hx.symm
    · rintro (hall | ⟨⟨w, e, hw, hwe, hwp⟩, -⟩)
      · exact hbad.bad (hall v hbad.spans)
      · -- the first bad page is one page
        have hvw : v = w := by
          rcases Nat.lt_trichotomy v w with hlt | he | hgt
          · exact absurd (hw.first v hlt hbad.spans) hbad.bad
          · exact he
          · exact absurd (hbad.first w hgt hw.spans) hw.bad
        subst hvw
        rw [hpres e hwe] at hwp
        cases hwp

theorem K.result_of_run {α : Type} {m : K α} {a : α} (hrun : m.run s = .ok (a, t)) :
    m.result s = some a := by
  rw [K.result, Code.result, show Code.run Machine.resched m s = _ from hrun]

/-- With one page table the walk ends for the pages it has. -/
theorem walk_first {v : Nat} {e : Pte} (ht : ∀ i, i ≠ 0 → s.tab d i = none)
    (hw : s.walk d v = some e) : v / NPTENTRIES = 0 := by
  obtain ⟨sp, hsp, hwalk⟩ := Option.bind_eq_some_iff.1 hw
  have htab := (Space.walk_eq_some.1 hwalk).1
  rw [← Machine.tab_of_space hsp] at htab
  by_contra hn
  rw [ht _ hn] at htab
  cases htab

theorem noKernelUser_first (ht : ∀ i, i ≠ 0 → s.tab d i = none) : NoKernelUser s d := by
  rintro v hv ⟨e, hw, -⟩
  have h0 := walk_first ht hw
  simp only [UPAGES, NPTENTRIES] at hv h0
  omega

theorem twoPages_first {i : Nat} (hi : i ≠ 0) : twoPages.tab 1 i = none :=
  show twoPagesSpace.tab i = none from if_neg hi

theorem onePageOut_first {i : Nat} (hi : i ≠ 0) : onePageOut.tab 1 i = none :=
  show twoPagesSpace.tab i = none from if_neg hi

/-- The range goes over page 0, page 1 in its slot, and page 2, which there is not: `copyout`
fails, as it should. -/
theorem copyout_iff_onePageOut : CopyoutOk onePageOut 1 4090 (fun _ => 7) 5000 := by
  have hout : onePageOut.walk 1 1 = some ⟨0, 6#12⟩ := rfl
  have hnone : onePageOut.walk 1 2 = some Pte.zero := rfl
  have hacc : ∀ v e, onePageOut.walk 1 v = some e → e.present = false →
      ¬Accessible onePageOut 1 v := by
    rintro v e hw hp ⟨e', hw', hp', -⟩
    obtain rfl := Option.some.inj (hw.symm.trans hw')
    exact Bool.false_ne_true (hp.symm.trans hp')
  refine (copyout_iff onePageOut_inv rfl (noKernelUser_first fun _ => onePageOut_first)).2
    (Or.inr ⟨⟨1, _, ?_, hout, rfl⟩, 2, ⟨8192, by decide, by decide, by decide⟩,
      hacc 2 _ hnone rfl, ?_⟩)
  · -- page 0 is in memory
    refine ⟨⟨4096, by decide, by decide, by decide⟩, hacc 1 _ hout rfl, fun v hv _ => ?_⟩
    obtain rfl : v = 0 := by omega
    exact ⟨⟨3, 7#12⟩, rfl, rfl, rfl⟩
  · rintro ⟨e, hw, hs, -⟩
    obtain rfl := Option.some.inj (hnone.symm.trans hw)
    cases hs

/-- A page without a page table is written through the null pointer: the byte goes to the page
at address 0, and `copyout` returns 0. A page in a slot, which could be loaded and is, makes
`copyout` return -1. -/
theorem copyout_wrong :
    (∃ t, (copyout 1 4194304 (fun _ => return 7) 1).run twoPages = .ok (true, t) ∧
      (t.content 1 0).map (· 0) = some 7 ∧ ¬CopyoutOk twoPages 1 4194304 (fun _ => 7) 1) ∧
    ∃ t, (copyout 1 4096 (fun _ => return 7) 1).run onePageOut = .ok (false, t) ∧
      Accessible t 1 1 ∧ ¬CopyoutOk onePageOut 1 4096 (fun _ => 7) 1 := by
  have hnull : (copyout 1 4194304 (fun _ => return 7) 1).result twoPages = some true := rfl
  have hout : (copyout 1 4096 (fun _ => return 7) 1).result onePageOut = some false := rfl
  refine ⟨⟨_, rfl, rfl, ?_⟩, _, rfl, ⟨⟨4, 7#12⟩, rfl, rfl, rfl⟩, ?_⟩
  · rintro ⟨ok, seen, t, hrun, -, hok, -⟩
    have hok1 : ok = true := Option.some.inj ((K.result_of_run hrun).symm.trans hnull)
    -- page 1024 has no page table
    have hno : ∀ e, twoPages.walk 1 1024 ≠ some e := fun e hw =>
      absurd (walk_first (fun _ => twoPages_first) hw) (by decide)
    rcases hok.1 hok1 1024 ⟨4194304, by decide, by decide, by decide⟩ with
      ⟨e, hw, -⟩ | ⟨e, hw, -⟩
    · exact hno e hw
    · exact hno e hw
  · rintro ⟨ok, seen, t, hrun, -, hok, -⟩
    obtain rfl : ok = false := Option.some.inj ((K.result_of_run hrun).symm.trans hout)
    refine Bool.false_ne_true (hok.2 fun v hv => Or.inr ?_)
    obtain ⟨x, h1, h2, rfl⟩ := hv
    obtain rfl : x = 4096 := by omega
    exact ⟨⟨0, 6#12⟩, rfl, rfl, ⟨by decide, rfl⟩, rfl, fun hx => List.cons_ne_nil 4 [] hx.1⟩

end Xv6.Swap
