/-
Delivery of a signal at the end of a system call.

`syscall` stores the return value in the trap frame and then, for a pending signal
with a handler, pushes the interrupted eip on the user stack and sends the process
to the handler. The handler is an arbitrary function of the i386 C convention, and
its `ret` pops the pushed word: the program goes on where it was, with its stack
pointer. Nobody saves eax. The value of the system call is already in it when the
handler starts, and eax belongs to the handler.
-/
import Mathlib

set_option autoImplicit false

namespace Xv6.Signal.Delivery

abbrev Word := BitVec 32
abbrev Byte := BitVec 8

/-- The memory of a process as its instructions see it. -/
abbrev Mem := Word → Byte

/-- The registers of a process in user mode. They are what `trapret` restores from
the trap frame, less the segment registers, which no code here writes. -/
structure Regs where
  edi : Word
  esi : Word
  ebp : Word
  ebx : Word
  edx : Word
  ecx : Word
  eax : Word
  eip : Word
  esp : Word
  eflags : Word
  deriving DecidableEq

/-- The part of `struct proc` that `syscall` reads and writes; `user va` tells whether
`uva2ka` finds a page for the user at `va`. -/
structure Proc where
  tf : Regs
  mem : Mem
  user : Word → Bool
  sig_pending : Bool
  sighandler : Word

/-- Page size. -/
abbrev PGSIZE : Nat := 4096

/-- `PGROUNDDOWN`. -/
def PGROUNDDOWN (va : Word) : Word := va &&& ~~~(BitVec.ofNat 32 (PGSIZE - 1))

def Mem.store (m : Mem) (a : Word) (b : Byte) : Mem := fun x => if x = a then b else m x

/-- `copyout`. The source copies up to the end of a page at a time and looks the page
up once; here each byte looks it up, which is the same page. What was copied before
the failure stays. -/
def copyout (user : Word → Bool) (va : Word) : List Byte → Mem → Bool × Mem
  | [], m => (true, m)
  | b :: bs, m =>
    if user (PGROUNDDOWN va) then copyout user (va + 1) bs (m.store va b) else (false, m)

/-- The four bytes of a word, the lowest first. -/
def bytes (w : Word) : List Byte :=
  [w.extractLsb' 0 8, w.extractLsb' 8 8, w.extractLsb' 16 8, w.extractLsb' 24 8]

/-- The word at an address. -/
def Mem.word (m : Mem) (a : Word) : Word := m (a + 3) ++ m (a + 2) ++ m (a + 1) ++ m a

/-- A system call: its return value and what it does to the process. -/
abbrev Syscall := Proc → Word × Proc

/-- The first half of `syscall`: the call itself. -/
def call (syscalls : Word → Option Syscall) (p : Proc) : Proc :=
  match syscalls p.tf.eax with
  | some f =>
    let (r, p) := f p
    { p with tf := { p.tf with eax := r } }
  | none => { p with tf := { p.tf with eax := -1 } }

/-- The second half: signal delivery. -/
def deliver (p : Proc) : Proc :=
  if p.sig_pending ∧ p.sighandler ≠ 0 then
    let old_eip := p.tf.eip
    let old_esp := p.tf.esp - 4
    match copyout p.user old_esp (bytes old_eip) p.mem with
    | (false, m) => { p with mem := m, sig_pending := false }
    | (true, m) =>
      { p with
        mem := m
        tf := { p.tf with esp := old_esp, eip := p.sighandler }
        sig_pending := false }
  else p

/-- `syscall`. -/
def syscall (syscalls : Word → Option Syscall) (p : Proc) : Proc := deliver (call syscalls p)

/-- Delivery succeeds: the signal is pending, there is a handler, and the word under
the stack pointer can be written. -/
def Delivers (p : Proc) : Prop :=
  p.sig_pending = true ∧ p.sighandler ≠ 0 ∧
    (copyout p.user (p.tf.esp - 4) (bytes p.tf.eip) p.mem).1 = true

/-- What a function of the i386 C convention may do between its entry with `r` and
`m` and the end of its `ret` with `r'` and `m'`: `ret` pops the word it was entered
with, and everything at and above `esp + 4` is as it was. -/
structure Returns (r : Regs) (m : Mem) (r' : Regs) (m' : Mem) : Prop where
  eip : r'.eip = m.word r.esp
  esp : r'.esp = r.esp + 4
  edi : r'.edi = r.edi
  esi : r'.esi = r.esi
  ebp : r'.ebp = r.ebp
  ebx : r'.ebx = r.ebx
  mem : ∀ a, (r.esp + 4).toNat ≤ a.toNat → m' a = m a

/-! ## The pushed word -/

theorem copyout_mem {user : Word → Bool} {m : Mem} {a w : Word}
    (h : (copyout user a (bytes w) m).1 = true) :
    (copyout user a (bytes w) m).2 =
      (((m.store a (w.extractLsb' 0 8)).store (a + 1) (w.extractLsb' 8 8)).store (a + 1 + 1)
        (w.extractLsb' 16 8)).store (a + 1 + 1 + 1) (w.extractLsb' 24 8) := by
  simp only [bytes, copyout] at h ⊢
  split at h
  · split at h
    · split at h
      · split at h
        · rename_i h0 h1 h2 h3
          rw [if_pos h0, if_pos h1, if_pos h2, if_pos h3]
        · cases h
      · cases h
    · cases h
  · cases h

theorem bytes_join (w : Word) :
    (w.extractLsb' 24 8 ++ w.extractLsb' 16 8 ++ w.extractLsb' 8 8 ++ w.extractLsb' 0 8 : Word) =
      w := by
  apply BitVec.eq_of_getLsbD_eq
  intro i hi
  simp only [BitVec.getLsbD_append, BitVec.getLsbD_extractLsb']
  grind

/-- A successful `copyout` of a word leaves the word there. -/
theorem word_copyout {user : Word → Bool} {m : Mem} {a w : Word}
    (h : (copyout user a (bytes w) m).1 = true) : (copyout user a (bytes w) m).2.word a = w := by
  rw [copyout_mem h]
  have h1 : a + 1 ≠ a := by bv_omega
  have h2 : a + 2 ≠ a := by bv_omega
  have h3 : a + 3 ≠ a := by bv_omega
  have e2 : a + 1 + 1 = a + 2 := by bv_omega
  have e3 : a + 2 + 1 = a + 3 := by bv_omega
  have h4 : a + 2 ≠ a + 1 := by bv_omega
  have h5 : a + 3 ≠ a + 1 := by bv_omega
  have h6 : a + 3 ≠ a + 2 := by bv_omega
  simp only [Mem.word, Mem.store, e2, e3, if_true, if_neg h1, if_neg h2, if_neg h3, if_neg h4,
    if_neg h5, if_neg h6, if_neg h1.symm, if_neg h2.symm, if_neg h3.symm, if_neg h4.symm,
    if_neg h5.symm, if_neg h6.symm]
  exact bytes_join w

/-! ## Transparency -/

theorem deliver_of_delivers {p : Proc} (h : Delivers p) :
    deliver p = { p with
      mem := (copyout p.user (p.tf.esp - 4) (bytes p.tf.eip) p.mem).2
      tf := { p.tf with esp := p.tf.esp - 4, eip := p.sighandler }
      sig_pending := false } := by
  obtain ⟨hp, hh, hc⟩ := h
  unfold deliver
  rw [if_pos ⟨hp, hh⟩]
  simp only
  generalize hx : copyout p.user (p.tf.esp - 4) (bytes p.tf.eip) p.mem = x at hc ⊢
  obtain ⟨ok, m⟩ := x
  simp only at hc
  subst hc
  rfl

/-- The program resumes where it was interrupted, with its stack pointer and with the
value that the system call returned. -/
def Resumes (p : Proc) (r' : Regs) : Prop :=
  r'.eip = p.tf.eip ∧ r'.esp = p.tf.esp ∧ r'.eax = p.tf.eax

/-- **Transparency of a delivery.** For every system call, return value and stack
pointer for which delivery succeeds and every handler of the C convention, the
program resumes as it would have without the signal exactly when the handler leaves
eax as it found it. -/
theorem delivery_resumes_iff (syscalls : Word → Option Syscall) (p : Proc) (r' : Regs) (m' : Mem)
    (hd : Delivers (call syscalls p))
    (hr : Returns (syscall syscalls p).tf (syscall syscalls p).mem r' m') :
    Resumes (call syscalls p) r' ↔ r'.eax = (syscall syscalls p).tf.eax := by
  unfold syscall at hr ⊢
  rw [deliver_of_delivers hd] at hr ⊢
  have heip : r'.eip = (call syscalls p).tf.eip := by
    rw [hr.eip]
    exact word_copyout hd.2.2
  have hesp : r'.esp = (call syscalls p).tf.esp := by
    rw [hr.esp]
    exact BitVec.sub_add_cancel _ _
  constructor
  · intro h
    exact h.2.2
  · intro h
    exact ⟨heip, hesp, h⟩

/-! ## A handler that uses eax -/

/-- A process that calls `getpid` (11) with a signal pending and its handler at 64. -/
def caller : Proc where
  tf := ⟨0, 0, 0, 0, 0, 0, 11, 32, 4096, 0⟩
  mem := fun _ => 0
  user := fun va => va = 0
  sig_pending := true
  sighandler := 64

/-- `getpid` of process 3. -/
def getpid (n : Word) : Option Syscall := if n = 11 then some fun p => (3, p) else none

/-- The registers after a handler that has set eax to `v`, and its `ret`. -/
def afterHandler (v : Word) : Regs := ⟨0, 0, 0, 0, 0, 0, v, 32, 4096, 0⟩

theorem caller_delivers : Delivers (call getpid caller) := by
  refine ⟨rfl, by decide, ?_⟩
  decide +kernel

theorem caller_returns (v : Word) : Returns (syscall getpid caller).tf (syscall getpid caller).mem
    (afterHandler v) (syscall getpid caller).mem := by
  have hd := caller_delivers
  unfold syscall
  rw [deliver_of_delivers hd]
  refine ⟨?_, (BitVec.sub_add_cancel _ _).symm, rfl, rfl, rfl, rfl, fun a _ => rfl⟩
  exact (word_copyout hd.2.2).symm

/-- A handler that leaves eax alone. -/
theorem delivery_resumes_getpid : Resumes (call getpid caller) (afterHandler 3) ↔ (3 : Word) = 3 :=
  delivery_resumes_iff getpid caller (afterHandler 3) _ caller_delivers (caller_returns 3)

/-- A handler that returns 0: `getpid` seems to return 0 instead of 3. -/
theorem delivery_loses_eax : ∃ p r' m', Delivers (call getpid p) ∧
    Returns (syscall getpid p).tf (syscall getpid p).mem r' m' ∧
    (call getpid p).tf.eax = 3 ∧ r'.eax = 0 ∧ ¬ Resumes (call getpid p) r' := by
  refine ⟨caller, afterHandler 0, _, caller_delivers, caller_returns 0, by decide, rfl, fun h => ?_⟩
  exact absurd h.2.2 (by decide)

end Xv6.Signal.Delivery
