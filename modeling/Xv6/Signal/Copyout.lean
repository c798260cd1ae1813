/-
`copyout` and signal delivery, down to the page table.

`uva2ka` does not test what `walkpgdir` returns: for an address whose page table does not
exist it loads a word through the null pointer, at virtual address 0 of the address space
that is loaded, and takes it for the entry of the page. Memory is addressed as the kernel
addresses it, a page through `P2V` of its frame; the page tables are no user pages, so
nothing that is copied changes them. `nulls` and `written` record what `copyout` touches.
Nothing the code does depends on them.
-/
import Xv6.Signal.Delivery

set_option autoImplicit false

namespace Xv6.Signal.Copyout

open Xv6.Signal.Delivery

/-! ## The code -/

/-- A page directory: the page tables that are present, and their entries. -/
abbrev Pgdir := Nat → Option (Nat → Word)

/-- Page directory index. -/
def PDX (va : Word) : Nat := va.toNat / 4194304

/-- Page table index. -/
def PTX (va : Word) : Nat := va.toNat / PGSIZE % 1024

def KERNBASE : Word := 0x80000000

def P2V (a : Word) : Word := a + KERNBASE

def PTE_ADDR (pte : Word) : Word := pte &&& ~~~0xFFF

/-- `PTE_P` and `PTE_U`. -/
def PTE_P (pte : Word) : Bool := pte.getLsbD 0

def PTE_U (pte : Word) : Bool := pte.getLsbD 2

/-- The kernel's memory and the page directory in `%cr3`. -/
structure Machine where
  cr3 : Pgdir
  mem : Mem
  /-- How many entries were read through the null pointer. -/
  nulls : Nat
  /-- The addresses of the bytes that were written, the last one first. -/
  written : List Word

/-- `walkpgdir(pgdir, va, 0)`: the entry that its result points to, or null. -/
def walkpgdir (pgdir : Pgdir) (va : Word) : Option Word :=
  (pgdir (PDX va)).map fun pgtab => pgtab (PTX va)

/-- A load from virtual address 0 by the kernel, which traps when no page is there. -/
def loadNull (s : Machine) : Except String (Word × Machine) :=
  match walkpgdir s.cr3 0 with
  | some pte =>
    if PTE_P pte then .ok (s.mem.word (P2V (PTE_ADDR pte)), { s with nulls := s.nulls + 1 })
    else .error "trap"
  | none => .error "trap"

/-- `*pte`. -/
def deref (pte : Option Word) (s : Machine) : Except String (Word × Machine) :=
  match pte with
  | some e => .ok (e, s)
  | none => loadNull s

/-- `uva2ka`. -/
def uva2ka (pgdir : Pgdir) (uva : Word) (s : Machine) : Except String (Word × Machine) := do
  let (pte, s) ← deref (walkpgdir pgdir uva) s
  if PTE_P pte = false then return (0, s)
  else if PTE_U pte = false then return (0, s)
  else return (P2V (PTE_ADDR pte), s)

/-- `memmove` to address `a`. -/
def memmove (a : Word) : List Byte → Machine → Machine
  | [], s => s
  | b :: bs, s => memmove (a + 1) bs { s with mem := s.mem.store a b, written := a :: s.written }

/-! An address is the start of its page and an offset. -/

theorem roundDown_add (va : Word) : PGROUNDDOWN va + (va &&& 4095#32) = va := by
  unfold PGROUNDDOWN
  rw [BitVec.add_eq_or_of_and_eq_zero]
  · apply BitVec.eq_of_getLsbD_eq
    intro i hi
    simp only [BitVec.getLsbD_or, BitVec.getLsbD_and, BitVec.getLsbD_not]
    cases va.getLsbD i <;> cases BitVec.getLsbD 4095#32 i <;> simp [hi]
  · apply BitVec.eq_of_getLsbD_eq
    intro i hi
    simp only [BitVec.getLsbD_and, BitVec.getLsbD_not]
    cases va.getLsbD i <;> cases BitVec.getLsbD 4095#32 i <;> simp [hi]

theorem offset_toNat (va : Word) : (va - PGROUNDDOWN va).toNat = va.toNat % PGSIZE := by
  have hoff : va - PGROUNDDOWN va = va &&& 4095#32 := by
    rw [BitVec.sub_eq_iff_eq_add, BitVec.add_comm, roundDown_add]
  rw [hoff, BitVec.toNat_and]
  exact Nat.and_two_pow_sub_one_eq_mod va.toNat 12

/-- `copyout`: `true` is the return value 0. -/
def copyout (pgdir : Pgdir) (va : Word) (buf : List Byte) (s : Machine) :
    Except String (Bool × Machine) :=
  if buf = [] then .ok (true, s)
  else do
    let va0 := PGROUNDDOWN va
    let (pa0, s) ← uva2ka pgdir va0 s
    if pa0 = 0 then return (false, s)
    let n := min (PGSIZE - (va - va0).toNat) buf.length
    copyout pgdir (va0 + BitVec.ofNat 32 PGSIZE) (buf.drop n)
      (memmove (pa0 + (va - va0)) (buf.take n) s)
termination_by buf.length
decreasing_by
  have hpos := List.length_pos_iff.2 ‹buf ≠ []›
  have hoff := offset_toNat va
  rw [List.length_drop]
  simp only [PGSIZE] at *
  omega

/-- The part of `struct proc` that signal delivery reads and writes. -/
structure Proc where
  tf : Regs
  pgdir : Pgdir
  sig_pending : Bool
  sighandler : Word

/-- The second half of `syscall`: signal delivery. -/
def deliver (p : Proc) (s : Machine) : Except String (Proc × Machine) :=
  if p.sig_pending ∧ p.sighandler ≠ 0 then do
    let old_eip := p.tf.eip
    let old_esp := p.tf.esp - 4
    match ← copyout p.pgdir old_esp (bytes old_eip) s with
    | (false, s) => .ok ({ p with sig_pending := false }, s)
    | (true, s) =>
      .ok ({ p with
        tf := { p.tf with esp := old_esp, eip := p.sighandler }
        sig_pending := false }, s)
  else .ok (p, s)

/-! ## The pages of a range -/

/-- The user can access the page of the address. -/
def Accessible (d : Pgdir) (a : Word) : Prop :=
  ∃ e, walkpgdir d a = some e ∧ PTE_P e = true ∧ PTE_U e = true

/-- `copyout` writes the page of the address: it is accessible, and its kernel address is
not 0. -/
def Copyable (d : Pgdir) (a : Word) : Prop :=
  ∃ e, walkpgdir d a = some e ∧ PTE_P e = true ∧ PTE_U e = true ∧ P2V (PTE_ADDR e) ≠ 0

/-- A byte of a page that the user can access, as the kernel addresses it. -/
def UserByte (d : Pgdir) (a : Word) : Prop :=
  ∃ va e o, walkpgdir d va = some e ∧ PTE_P e = true ∧ PTE_U e = true ∧ o < PGSIZE ∧
    a = P2V (PTE_ADDR e) + BitVec.ofNat 32 o

/-- The addresses of the range up to the first one that cannot be written have a page
table. -/
def Walkable (d : Pgdir) (va : Word) (len : Nat) : Prop :=
  ∀ i < len, (∀ j < i, Copyable d (va + BitVec.ofNat 32 j)) →
    (walkpgdir d (va + BitVec.ofNat 32 i)).isSome = true

variable {d : Pgdir} {s t u : Machine} {va a b : Word} {buf : List Byte} {e : Word} {n : Nat}

theorem walkpgdir_page (h : a.toNat / PGSIZE = b.toNat / PGSIZE) :
    walkpgdir d a = walkpgdir d b := by
  have hpdx : PDX a = PDX b := by
    simp only [PDX, PGSIZE] at *
    omega
  have hptx : PTX a = PTX b := by
    simp only [PTX, h]
  unfold walkpgdir
  rw [hpdx, hptx]

/-- The addresses from `va` to the end of its page are in one page. -/
theorem add_page {j : Nat} (hj : va.toNat % PGSIZE + j < PGSIZE) :
    (va + BitVec.ofNat 32 j).toNat / PGSIZE = va.toNat / PGSIZE := by
  have hva := va.isLt
  rw [BitVec.toNat_add, BitVec.toNat_ofNat]
  simp only [PGSIZE] at *
  omega

theorem roundDown_toNat (va : Word) :
    (PGROUNDDOWN va).toNat = va.toNat - va.toNat % PGSIZE := by
  have hoff := offset_toNat va
  have hva := va.isLt
  have hr := (PGROUNDDOWN va).isLt
  rw [BitVec.toNat_sub] at hoff
  simp only [PGSIZE] at *
  omega

theorem roundDown_page (va : Word) : (PGROUNDDOWN va).toNat / PGSIZE = va.toNat / PGSIZE := by
  rw [roundDown_toNat]
  simp only [PGSIZE]
  omega

/-- The page after that of `va`, as `copyout` computes it. -/
theorem next_page (va : Word) : PGROUNDDOWN va + BitVec.ofNat 32 PGSIZE =
    va + BitVec.ofNat 32 (PGSIZE - va.toNat % PGSIZE) := by
  apply BitVec.eq_of_toNat_eq
  rw [BitVec.toNat_add, BitVec.toNat_add, roundDown_toNat, BitVec.toNat_ofNat, BitVec.toNat_ofNat]
  simp only [PGSIZE]
  omega

theorem next_add (va : Word) (i : Nat) :
    PGROUNDDOWN va + BitVec.ofNat 32 PGSIZE + BitVec.ofNat 32 i =
      va + BitVec.ofNat 32 (PGSIZE - va.toNat % PGSIZE + i) := by
  rw [next_page, BitVec.add_assoc, BitVec.ofNat_add]

theorem Accessible.page (h : a.toNat / PGSIZE = b.toNat / PGSIZE) :
    Accessible d a ↔ Accessible d b := by
  unfold Accessible
  rw [walkpgdir_page h]

theorem Copyable.page (h : a.toNat / PGSIZE = b.toNat / PGSIZE) :
    Copyable d a ↔ Copyable d b := by
  unfold Copyable
  rw [walkpgdir_page h]

theorem Copyable.walk (h : Copyable d a) : (walkpgdir d a).isSome = true := by
  obtain ⟨e, he, -⟩ := h
  rw [he]
  rfl

/-- A range whose first page can be written is walked through if its rest is. -/
theorem walkable_next (hc : Copyable d va) {len : Nat} : Walkable d va len ↔
    Walkable d (PGROUNDDOWN va + BitVec.ofNat 32 PGSIZE) (len - (PGSIZE - va.toNat % PGSIZE)) := by
  have hin : ∀ j, j < PGSIZE - va.toNat % PGSIZE → Copyable d (va + BitVec.ofNat 32 j) :=
    fun j hj => (Copyable.page (add_page (by omega))).2 hc
  constructor
  · intro hW i hi hbefore
    rw [next_add]
    refine hW _ (by omega) fun j hj => ?_
    by_cases hlt : j < PGSIZE - va.toNat % PGSIZE
    · exact hin j hlt
    · have hnext := hbefore (j - (PGSIZE - va.toNat % PGSIZE)) (by omega)
      rwa [next_add, Nat.add_sub_cancel' (Nat.not_lt.1 hlt)] at hnext
  · intro hW i hi hbefore
    by_cases hlt : i < PGSIZE - va.toNat % PGSIZE
    · exact (hin i hlt).walk
    · have hnext := hW (i - (PGSIZE - va.toNat % PGSIZE)) (by omega) fun j hj => by
        rw [next_add]
        exact hbefore _ (by omega)
      rwa [next_add, Nat.add_sub_cancel' (Nat.not_lt.1 hlt)] at hnext

/-! ## What is touched -/

/-- Only bytes of pages that the user can access are written, and no entry is read through
the null pointer. -/
structure Touches (d : Pgdir) (s t : Machine) : Prop where
  nulls : t.nulls = s.nulls
  written : ∃ new, t.written = new ++ s.written ∧ (∀ a ∈ new, UserByte d a) ∧
    ∀ a, a ∉ new → t.mem a = s.mem a

theorem Touches.refl (d : Pgdir) (s : Machine) : Touches d s s :=
  ⟨rfl, [], rfl, fun _ ha => absurd ha List.not_mem_nil, fun _ _ => rfl⟩

theorem Touches.trans (hst : Touches d s t) (htu : Touches d t u) : Touches d s u := by
  obtain ⟨new, hw, hin, hout⟩ := hst.written
  obtain ⟨new', hw', hin', hout'⟩ := htu.written
  refine ⟨htu.nulls.trans hst.nulls, new' ++ new, ?_, fun a ha => ?_, fun a ha => ?_⟩
  · rw [hw', hw, List.append_assoc]
  · rcases List.mem_append.1 ha with h | h
    · exact hin' a h
    · exact hin a h
  · rw [List.mem_append, not_or] at ha
    rw [hout' a ha.1, hout a ha.2]

/-- `memmove` into a page that the user can access. -/
theorem memmove_touches (hw : walkpgdir d va = some e) (hp : PTE_P e = true) (hu : PTE_U e = true)
    (bs : List Byte) (o : Nat) (ho : o + bs.length ≤ PGSIZE) (s : Machine) :
    Touches d s (memmove (P2V (PTE_ADDR e) + BitVec.ofNat 32 o) bs s) := by
  induction bs generalizing o s with
  | nil => exact .refl d s
  | cons b bs ih =>
    rw [List.length_cons] at ho
    unfold memmove
    have hnext : P2V (PTE_ADDR e) + BitVec.ofNat 32 o + 1 =
        P2V (PTE_ADDR e) + BitVec.ofNat 32 (o + 1) := by
      rw [BitVec.add_assoc, BitVec.ofNat_add]
      rfl
    rw [hnext]
    refine Touches.trans ?_ (ih (o + 1) (by omega) _)
    refine ⟨rfl, [_], rfl, fun a ha => ?_, fun a ha => ?_⟩
    · obtain rfl := List.mem_singleton.1 ha
      exact ⟨va, e, o, hw, hp, hu, by omega, rfl⟩
    · exact if_neg fun hx => ha (List.mem_singleton.2 hx)

/-! ## One page -/

theorem ok_bind {α β : Type} (a : α) (f : α → Except String β) : (Except.ok a >>= f) = f a := rfl

/-- With a page table, `uva2ka` reads the entry of the page. -/
theorem uva2ka_some (hw : walkpgdir d va = some e) (s : Machine) : uva2ka d va s =
    .ok (if PTE_P e = true ∧ PTE_U e = true then P2V (PTE_ADDR e) else 0, s) := by
  unfold uva2ka
  rw [hw]
  change (if PTE_P e = false then Except.ok (0, s)
    else if PTE_U e = false then .ok (0, s) else .ok (P2V (PTE_ADDR e), s)) = _
  cases PTE_P e <;> cases PTE_U e <;> rfl

/-- Without one, it reads through the null pointer. -/
theorem uva2ka_none (hw : walkpgdir d va = none) {r : Word} (h : uva2ka d va s = .ok (r, t)) :
    t.nulls = s.nulls + 1 := by
  unfold uva2ka at h
  rw [hw] at h
  change (loadNull s).bind _ = _ at h
  cases hl : loadNull s with
  | error m =>
    rw [hl] at h
    cases h
  | ok x =>
    obtain ⟨pte, u⟩ := x
    rw [hl] at h
    change (if PTE_P pte = false then Except.ok (0, u)
      else if PTE_U pte = false then .ok (0, u) else .ok (P2V (PTE_ADDR pte), u)) = _ at h
    have hu : u.nulls = s.nulls + 1 := by
      unfold loadNull at hl
      split at hl
      · split at hl
        · cases hl
          rfl
        · cases hl
      · cases hl
    have ht : t = u := by
      split at h
      · exact (Prod.mk.inj (Except.ok.inj h)).2.symm
      · split at h
        · exact (Prod.mk.inj (Except.ok.inj h)).2.symm
        · exact (Prod.mk.inj (Except.ok.inj h)).2.symm
    rw [ht, hu]

/-- One turn of the loop. -/
theorem copyout_turn (hb : buf ≠ []) {pa : Word}
    (hu : uva2ka d (PGROUNDDOWN va) s = .ok (pa, t)) : copyout d va buf s =
      if pa = 0 then .ok (false, t)
      else copyout d (PGROUNDDOWN va + BitVec.ofNat 32 PGSIZE)
        (buf.drop (PGSIZE - va.toNat % PGSIZE))
        (memmove (pa + BitVec.ofNat 32 (va.toNat % PGSIZE))
          (buf.take (PGSIZE - va.toNat % PGSIZE)) t) := by
  have hoff : va - PGROUNDDOWN va = BitVec.ofNat 32 (va.toNat % PGSIZE) := by
    have hlt : va.toNat % PGSIZE < 2 ^ 32 := (Nat.mod_lt _ (by decide)).trans (by decide)
    apply BitVec.eq_of_toNat_eq
    rw [offset_toNat, BitVec.toNat_ofNat, Nat.mod_eq_of_lt hlt]
  have hdrop : ∀ n, buf.drop (min n buf.length) = buf.drop n := fun n => by
    rcases Nat.le_total n buf.length with h | h
    · rw [Nat.min_eq_left h]
    · rw [Nat.min_eq_right h, List.drop_length, List.drop_eq_nil_of_le h]
  have htake : ∀ n, buf.take (min n buf.length) = buf.take n := fun n => by
    rcases Nat.le_total n buf.length with h | h
    · rw [Nat.min_eq_left h]
    · rw [Nat.min_eq_right h, List.take_length, List.take_of_length_le h]
  rw [copyout, if_neg hb]
  simp only [offset_toNat, hdrop, htake]
  simp only [hoff, hu, ok_bind]
  by_cases hr : pa = 0
  · rw [if_pos hr, if_pos hr]
    rfl
  · rw [if_neg hr, if_neg hr]

/-! ## The whole range -/

/-- A page that can be written: the turn touches nothing else. -/
theorem copyout_copyable (hb : buf ≠ []) (hc : Copyable d va) (s : Machine) :
    ∃ t, Touches d s t ∧ copyout d va buf s =
      copyout d (PGROUNDDOWN va + BitVec.ofNat 32 PGSIZE)
        (buf.drop (PGSIZE - va.toNat % PGSIZE)) t := by
  obtain ⟨e, hw, hp, hu, hne⟩ := hc
  have hw0 : walkpgdir d (PGROUNDDOWN va) = some e := by
    rw [walkpgdir_page (roundDown_page va), hw]
  have hka := uva2ka_some hw0 s
  rw [if_pos ⟨hp, hu⟩] at hka
  refine ⟨_, ?_, (copyout_turn hb hka).trans (if_neg hne)⟩
  refine memmove_touches hw hp hu _ _ ?_ s
  have hmod := Nat.mod_lt va.toNat (by decide : 0 < PGSIZE)
  rw [List.length_take]
  omega

/-- A page that cannot be written, but has a page table: the call fails, and touches nothing. -/
theorem copyout_blocked (hb : buf ≠ []) (hw : walkpgdir d va = some e) (hc : ¬Copyable d va)
    (s : Machine) : copyout d va buf s = .ok (false, s) := by
  have hw0 : walkpgdir d (PGROUNDDOWN va) = some e := by
    rw [walkpgdir_page (roundDown_page va), hw]
  refine (copyout_turn hb (uva2ka_some hw0 s)).trans (if_pos ?_)
  by_contra hne
  refine hc ⟨e, hw, ?_⟩
  by_cases hpu : PTE_P e = true ∧ PTE_U e = true
  · rw [if_pos hpu] at hne
    exact ⟨hpu.1, hpu.2, hne⟩
  · rw [if_neg hpu] at hne
    exact absurd rfl hne

theorem add_zero_page (va : Word) : va + BitVec.ofNat 32 0 = va := BitVec.add_zero va

/-- **A range that can be walked through**: `copyout` returns, touches only bytes of the user's
pages, and succeeds exactly when each address can be written. -/
theorem copyout_exact {len : Nat} (hlen : buf.length = len) (hW : Walkable d va len) (s : Machine) :
    ∃ ok t, copyout d va buf s = .ok (ok, t) ∧ Touches d s t ∧
      (ok = true ↔ ∀ i < len, Copyable d (va + BitVec.ofNat 32 i)) := by
  induction len using Nat.strong_induction_on generalizing va buf s with
  | _ len ih =>
    by_cases hb : buf = []
    · subst hb
      obtain rfl : 0 = len := hlen
      refine ⟨true, s, ?_, .refl d s, iff_of_true rfl fun i hi => absurd hi (Nat.not_lt_zero i)⟩
      rw [copyout, if_pos rfl]
    · have hpos : 0 < len := hlen ▸ List.length_pos_iff.2 hb
      obtain ⟨e, hw⟩ := Option.isSome_iff_exists.1
        (hW 0 hpos fun j hj => absurd hj (Nat.not_lt_zero j))
      rw [add_zero_page] at hw
      by_cases hc : Copyable d va
      · have hmod := Nat.mod_lt va.toNat (by decide : 0 < PGSIZE)
        obtain ⟨t, hst, hrun⟩ := copyout_copyable hb hc s
        obtain ⟨ok, u, hrun', htu, hok⟩ := ih (len - (PGSIZE - va.toNat % PGSIZE)) (by omega)
          (by rw [List.length_drop, hlen]) ((walkable_next hc).1 hW) t
        refine ⟨ok, u, hrun.trans hrun', hst.trans htu, hok.trans ⟨fun h i hi => ?_, fun h i hi => ?_⟩⟩
        · by_cases hlt : i < PGSIZE - va.toNat % PGSIZE
          · exact (Copyable.page (add_page (by omega))).2 hc
          · have hnext := h (i - (PGSIZE - va.toNat % PGSIZE)) (by omega)
            rwa [next_add, Nat.add_sub_cancel' (Nat.not_lt.1 hlt)] at hnext
        · rw [next_add]
          exact h _ (by omega)
      · refine ⟨false, s, copyout_blocked hb hw hc s, .refl d s,
          iff_of_false Bool.false_ne_true fun h => hc ?_⟩
        have h0 := h 0 hpos
        rwa [add_zero_page] at h0

@[simp] theorem memmove_nulls (bs : List Byte) (a : Word) (s : Machine) :
    (memmove a bs s).nulls = s.nulls := by
  induction bs generalizing a s with
  | nil => rfl
  | cons b bs ih => exact ih (a + 1) _

/-- The reads through the null pointer are only counted up, and the missing page table that the
range comes to is one. -/
theorem copyout_nulls {len : Nat} (hlen : buf.length = len) {ok : Bool}
    (h : copyout d va buf s = .ok (ok, t)) :
    s.nulls ≤ t.nulls ∧ (¬Walkable d va len → s.nulls < t.nulls) := by
  induction len using Nat.strong_induction_on generalizing va buf s with
  | _ len ih =>
    by_cases hb : buf = []
    · subst hb
      obtain rfl : 0 = len := hlen
      rw [copyout, if_pos rfl] at h
      obtain rfl := (Prod.mk.inj (Except.ok.inj h)).2
      exact ⟨le_rfl, fun hW => absurd (fun i hi => absurd hi (Nat.not_lt_zero i)) hW⟩
    · have hpos : 0 < len := hlen ▸ List.length_pos_iff.2 hb
      have hmod := Nat.mod_lt va.toNat (by decide : 0 < PGSIZE)
      have hnext := fun u (hu : copyout d (PGROUNDDOWN va + BitVec.ofNat 32 PGSIZE)
          (buf.drop (PGSIZE - va.toNat % PGSIZE)) u = .ok (ok, t)) =>
        ih (len - (PGSIZE - va.toNat % PGSIZE)) (by omega) (by rw [List.length_drop, hlen]) hu
      cases hw : walkpgdir d va with
      | none =>
        -- the null pointer is read here
        have hlt : s.nulls < t.nulls := by
          have hw0 : walkpgdir d (PGROUNDDOWN va) = none := by
            rw [walkpgdir_page (roundDown_page va), hw]
          cases hka : uva2ka d (PGROUNDDOWN va) s with
          | error m =>
            rw [copyout, if_neg hb] at h
            simp only [hka] at h
            cases h
          | ok r =>
            obtain ⟨pa, u⟩ := r
            have hu := uva2ka_none hw0 hka
            rw [copyout_turn hb hka] at h
            by_cases hpa : pa = 0
            · rw [if_pos hpa] at h
              obtain rfl := (Prod.mk.inj (Except.ok.inj h)).2
              omega
            · rw [if_neg hpa] at h
              have hle := (hnext _ h).1
              rw [memmove_nulls] at hle
              omega
        exact ⟨hlt.le, fun _ => hlt⟩
      | some e =>
        by_cases hc : Copyable d va
        · obtain ⟨u, hsu, hrun⟩ := copyout_copyable hb hc s
          rw [hrun] at h
          obtain ⟨hle, hlt⟩ := hnext u h
          rw [hsu.nulls] at hle hlt
          exact ⟨hle, fun hW => hlt fun hn => hW ((walkable_next hc).2 hn)⟩
        · rw [copyout_blocked hb hw hc] at h
          obtain rfl := (Prod.mk.inj (Except.ok.inj h)).2
          refine ⟨le_rfl, fun hW => absurd (fun i hi hbefore => ?_) hW⟩
          rcases Nat.eq_zero_or_pos i with rfl | hi
          · rw [add_zero_page, hw]
            rfl
          · have h0 := hbefore 0 hi
            rw [add_zero_page] at h0
            exact absurd h0 hc

/-! ## What is promised -/

/-- `copyout` returns, it touches only bytes of pages that the user can access, and it fails if
a page of the range is none of these. -/
def CopyoutSafe (d : Pgdir) (va : Word) (buf : List Byte) (s : Machine) : Prop :=
  ∃ ok t, copyout d va buf s = .ok (ok, t) ∧ Touches d s t ∧
    ((∃ i < buf.length, ¬Accessible d (va + BitVec.ofNat 32 i)) → ok = false)

/-- The end of a system call returns and touches only such bytes; and where the word under the
stack pointer is not accessible, the trap frame is as before. -/
def DeliverySafe (p : Proc) (s : Machine) : Prop :=
  ∃ q t, deliver p s = .ok (q, t) ∧ Touches p.pgdir s t ∧
    ((∃ i < 4, ¬Accessible p.pgdir (p.tf.esp - 4 + BitVec.ofNat 32 i)) → q.tf = p.tf)

theorem Copyable.accessible (h : Copyable d a) : Accessible d a := by
  obtain ⟨e, hw, hp, hu, -⟩ := h
  exact ⟨e, hw, hp, hu⟩

theorem copyout_safe_iff : CopyoutSafe d va buf s ↔ Walkable d va buf.length := by
  constructor
  · rintro ⟨ok, t, hrun, hT, -⟩
    by_contra hW
    exact absurd hT.nulls ((copyout_nulls rfl hrun).2 hW).ne'
  · intro hW
    obtain ⟨ok, t, hrun, hT, hok⟩ := copyout_exact rfl hW s
    refine ⟨ok, t, hrun, hT, fun ⟨i, hi, hn⟩ => ?_⟩
    by_contra htrue
    exact hn ((hok.1 (Bool.eq_true_of_not_eq_false htrue)) i hi).accessible

variable {p : Proc}

/-- Delivery is one `copyout`, and what it answers decides about the trap frame. -/
theorem deliver_run (hp : p.sig_pending = true ∧ p.sighandler ≠ 0) {ok : Bool}
    (h : copyout p.pgdir (p.tf.esp - 4) (bytes p.tf.eip) s = .ok (ok, t)) : deliver p s =
      .ok ({ p with
        tf := if ok then { p.tf with esp := p.tf.esp - 4, eip := p.sighandler } else p.tf
        sig_pending := false }, t) := by
  unfold deliver
  rw [if_pos hp]
  simp only [h, ok_bind]
  cases ok with
  | false => rfl
  | true => rfl

theorem delivery_safe_iff : DeliverySafe p s ↔
    (p.sig_pending = true ∧ p.sighandler ≠ 0 → Walkable p.pgdir (p.tf.esp - 4) 4) := by
  by_cases hp : p.sig_pending = true ∧ p.sighandler ≠ 0
  · constructor
    · rintro ⟨q, t, hrun, hT, -⟩ -
      cases hc : copyout p.pgdir (p.tf.esp - 4) (bytes p.tf.eip) s with
      | error m =>
        unfold deliver at hrun
        rw [if_pos hp] at hrun
        simp only [hc] at hrun
        cases hrun
      | ok r =>
        obtain ⟨ok, u⟩ := r
        rw [deliver_run hp hc] at hrun
        obtain rfl := (Prod.mk.inj (Except.ok.inj hrun)).2
        by_contra hW
        exact absurd hT.nulls ((copyout_nulls rfl hc).2 hW).ne'
    · intro hW
      have hlen : (bytes p.tf.eip).length = 4 := rfl
      obtain ⟨ok, t, hc, hT, hok⟩ := copyout_exact hlen (hW hp) s
      refine ⟨_, t, deliver_run hp hc, hT, fun ⟨i, hi, hn⟩ => ?_⟩
      have hfalse : ok = false := by
        by_contra htrue
        exact hn (hok.1 (Bool.eq_true_of_not_eq_false htrue) i hi).accessible
      rw [hfalse]
      rfl
  · refine iff_of_true ⟨p, s, ?_, .refl _ s, fun _ => rfl⟩ fun h => absurd h hp
    unfold deliver
    rw [if_neg hp]

/-- **`copyout` and signal delivery keep to the memory of the process exactly when the range they
are given runs into no missing page table**, before a page that stops them. -/
theorem user_memory_only (d : Pgdir) (va : Word) (buf : List Byte) (s : Machine) (p : Proc) :
    (CopyoutSafe d va buf s ↔ Walkable d va buf.length) ∧
      (DeliverySafe p s ↔
        (p.sig_pending = true ∧ p.sighandler ≠ 0 → Walkable p.pgdir (p.tf.esp - 4) 4)) :=
  ⟨copyout_safe_iff, delivery_safe_iff⟩

/-- One page, at frame 0xDEE; its first word is 0x00E00007. -/
def onePage : Machine where
  cr3 i := if i = 0 then some fun j => if j = 0 then 0x00DEE007 else 0 else none
  mem a := if a = 0x80DEE000 then 7 else if a = 0x80DEE002 then 0xE0 else 0
  nulls := 0
  written := []

/-- A process with this page and a stack pointer of 0x40000004. -/
def highStack : Proc where
  tf := {
    edi := 0, esi := 0, ebp := 0, ebx := 0, edx := 0, ecx := 0, eax := 0
    eip := 0x40, esp := 0x40000004, eflags := 0 }
  pgdir := onePage.cr3
  sig_pending := true
  sighandler := 0x100

/-- The word at address 0 is taken for the entry of the page at 0x40000000: the return address
goes to frame 0xE00, and the handler is started. -/
theorem delivery_strays : ¬DeliverySafe highStack onePage ∧
    ∃ q t, deliver highStack onePage = .ok (q, t) ∧ t.nulls = 1 ∧
      t.written = [0x80E00003, 0x80E00002, 0x80E00001, 0x80E00000] ∧
      q.tf.eip = highStack.sighandler := by
  constructor
  · intro h
    have hW := delivery_safe_iff.1 h ⟨rfl, by decide⟩ 0 (by decide) fun j hj =>
      absurd hj (Nat.not_lt_zero j)
    revert hW
    decide
  · have hka : uva2ka highStack.pgdir (PGROUNDDOWN 0x40000000) onePage =
        .ok (0x80E00000, { onePage with nulls := 1 }) := rfl
    have hc : copyout highStack.pgdir 0x40000000 (bytes 0x40) onePage = .ok (true,
        memmove 0x80E00000 (bytes 0x40) { onePage with nulls := 1 }) := by
      rw [copyout_turn (by decide) hka, if_neg (by decide), copyout]
      rfl
    exact ⟨_, _, deliver_run ⟨rfl, by decide⟩ hc, rfl, rfl, rfl⟩

end Xv6.Signal.Copyout
