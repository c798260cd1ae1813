/-
The allocator of the user programs (`umalloc.c`).

Each block begins with a header of eight bytes, a pointer and a size in headers. The free
blocks are a ring through `base`, whose header lies below the heap; `freep` points into the
ring. Headers are bytes of the memory of the process, which the program reads and writes too.
Addresses and sizes are unsigned integers of 32 bits.
-/
import Xv6.Lib.Circle
import Xv6.Mkfs.Append

set_option autoImplicit false

namespace Xv6.User

open Xv6.Lib Xv6.Mkfs

/-- `KERNBASE`. -/
def KERNBASE : Nat := 0x80000000

/-- `sizeof(Header)`. -/
def HEADER : Nat := 8

/-- The process: its memory, `freep`, and the size that the kernel has for it. -/
structure Process where
  mem : Nat → Byte
  freep : Nat
  sz : Nat

/-! ## Headers -/

/-- `p->s.ptr`. -/
def ptr (mem : Nat → Byte) (p : Nat) : Nat := getNum mem p 4

/-- `p->s.size`. -/
def size (mem : Nat → Byte) (p : Nat) : Nat := getNum mem (p + 4) 4

def setPtr (p v : Nat) (mem : Nat → Byte) : Nat → Byte := putNum mem p 4 v

def setSize (p v : Nat) (mem : Nat → Byte) : Nat → Byte := putNum mem (p + 4) 4 v

/-- `p + n` of a pointer to headers. -/
def plus (p n : Nat) : Nat := (p + n * HEADER) % 2 ^ 32

/-! ## `free` -/

/-- The block `bp` points to what comes after `p`, and takes in what lies right above it. -/
def joinNext (bp p : Nat) (mem : Nat → Byte) : Nat → Byte :=
  if plus bp (size mem bp) = ptr mem p then
    let mem := setSize bp (size mem bp + size mem (ptr mem p)) mem
    setPtr bp (ptr mem (ptr mem p)) mem
  else setPtr bp (ptr mem p) mem

/-- `p` points to the block `bp`, or takes it in if `bp` lies right above it. -/
def joinPrev (bp p : Nat) (mem : Nat → Byte) : Nat → Byte :=
  if plus p (size mem p) = bp then
    let mem := setSize p (size mem p + size mem bp) mem
    setPtr p (ptr mem bp) mem
  else setPtr p bp mem

/-- `free`. A ring has fewer nodes than there are addresses below `KERNBASE`: a loop that takes
more turns does not end. -/
def free (ap : Nat) (s : Process) : Option Process :=
  let bp := (ap + 2 ^ 32 - HEADER) % 2 ^ 32
  (search (ptr s.mem) (between (ptr s.mem) bp) KERNBASE s.freep).map fun p =>
    { s with mem := joinPrev bp p (joinNext bp p s.mem), freep := p }

/-! ## `malloc` -/

/-- `sbrk`: the process grows by `n`, an integer. `room` says for which sizes the kernel has
the memory. -/
def sbrk (room : Nat → Bool) (n : Nat) (s : Process) : Option (Nat × Process) :=
  if n = 0 then some (s.sz, s)
  else if n < 2 ^ 31 then
    if s.sz + n < KERNBASE ∧ room (s.sz + n) then some (s.sz, { s with sz := s.sz + n })
    else none
  else
    let newsz := (s.sz + n) % 2 ^ 32
    let newsz := if s.sz ≤ newsz then s.sz else newsz
    if newsz = 0 then none else some (s.sz, { s with sz := newsz })

/-- What `morecore` asks for at least. -/
def MORE : Nat := 4096

/-- `morecore`; 0 when there is no more. -/
def morecore (room : Nat → Bool) (nu : Nat) (s : Process) : Option (Nat × Process) :=
  let nu := if nu < MORE then MORE else nu
  match sbrk room (nu * HEADER % 2 ^ 32) s with
  | none => some (0, s)
  | some (hp, s) =>
    (free (plus hp 1) { s with mem := setSize hp nu s.mem }).map fun s => (s.freep, s)

/-- The block at `p`, which is large enough, or the end of it. -/
def take (nunits prevp p : Nat) (s : Process) : Nat × Process :=
  if size s.mem p = nunits then
    (plus p 1, { s with mem := setPtr prevp (ptr s.mem p) s.mem, freep := prevp })
  else
    let mem := setSize p (size s.mem p - nunits) s.mem
    let p := plus p (size mem p)
    (plus p 1, { s with mem := setSize p nunits mem, freep := prevp })

/-- The loop of `malloc`. -/
def mallocLoop (room : Nat → Bool) (nunits : Nat) :
    Nat → Nat → Nat → Process → Option (Nat × Process)
  | 0, _, _, _ => none
  | k + 1, prevp, p, s =>
    if nunits ≤ size s.mem p then some (take nunits prevp p s)
    else if p = s.freep then
      (morecore room nunits s).bind fun (p, s) =>
        if p = 0 then some (0, s) else mallocLoop room nunits k p (ptr s.mem p) s
    else mallocLoop room nunits k p (ptr s.mem p) s

/-- The headers for `nbytes` bytes. -/
def units (nbytes : Nat) : Nat := (nbytes + HEADER - 1) % 2 ^ 32 / HEADER + 1

/-- The first call makes the ring of `base`. -/
def enter (base : Nat) (s : Process) : Process :=
  if s.freep = 0 then { s with mem := setSize base 0 (setPtr base base s.mem), freep := base }
  else s

/-- `malloc`. The loop goes twice around the ring, or it does not end. -/
def malloc (base : Nat) (room : Nat → Bool) (nbytes : Nat) (s : Process) :
    Option (Nat × Process) :=
  let s := enter base s
  mallocLoop room (units nbytes) (2 * KERNBASE) s.freep (ptr s.mem s.freep) s

/-! ## What changes in a header -/

variable {mem mem' mem'' : Nat → Byte} {p q v bp : Nat}

/-- The two differ in the header at `p` only. -/
def Only (p : Nat) (mem mem' : Nat → Byte) : Prop :=
  ∀ x, x < p ∨ p + HEADER ≤ x → mem' x = mem x

/-- The headers at the two places do not overlap. -/
def Apart (p q : Nat) : Prop := p + HEADER ≤ q ∨ q + HEADER ≤ p

theorem Apart.symm (h : Apart p q) : Apart q p := Or.symm h

theorem only_setPtr (p v : Nat) (mem : Nat → Byte) : Only p mem (setPtr p v mem) := by
  intro x hx
  apply putNum_of_outside
  unfold HEADER at hx
  omega

theorem only_setSize (p v : Nat) (mem : Nat → Byte) : Only p mem (setSize p v mem) := by
  intro x hx
  apply putNum_of_outside
  unfold HEADER at hx
  omega

theorem Only.trans (h : Only p mem mem') (h' : Only p mem' mem'') : Only p mem mem'' :=
  fun x hx => (h' x hx).trans (h x hx)

theorem Only.ptr (h : Only p mem mem') (hq : Apart p q) : ptr mem' q = ptr mem q := by
  apply getNum_congr
  intro x hx hx'
  apply h
  unfold Apart HEADER at *
  omega

theorem Only.size (h : Only p mem mem') (hq : Apart p q) : size mem' q = size mem q := by
  apply getNum_congr
  intro x hx hx'
  apply h
  unfold Apart HEADER at *
  omega

theorem ptr_lt (mem : Nat → Byte) (p : Nat) : ptr mem p < 2 ^ 32 := getNum_lt mem 4 p

theorem ptr_setPtr (hv : v < 2 ^ 32) : ptr (setPtr p v mem) p = v := getNum_putNum mem p 4 v hv

theorem size_setSize (hv : v < 2 ^ 32) : size (setSize p v mem) p = v :=
  getNum_putNum mem (p + 4) 4 v hv

theorem size_setPtr (p v : Nat) (mem : Nat → Byte) : size (setPtr p v mem) p = size mem p :=
  getNum_putNum_of_disjoint mem v (Or.inr le_rfl)

theorem ptr_setSize (p v : Nat) (mem : Nat → Byte) : ptr (setSize p v mem) p = ptr mem p :=
  getNum_putNum_of_disjoint mem v (Or.inl le_rfl)

theorem only_joinNext (bp p : Nat) (mem : Nat → Byte) : Only bp mem (joinNext bp p mem) := by
  unfold joinNext
  split_ifs
  · exact (only_setSize bp _ mem).trans (only_setPtr bp _ _)
  · exact only_setPtr bp _ mem

theorem only_joinPrev (bp p : Nat) (mem : Nat → Byte) : Only p mem (joinPrev bp p mem) := by
  unfold joinPrev
  split_ifs
  · exact (only_setSize p _ mem).trans (only_setPtr p _ _)
  · exact only_setPtr p bp mem

/-- The block above is the next one of the ring. -/
theorem joinNext_of_eq (h : plus bp (size mem bp) = ptr mem p) (hp : Apart bp p)
    (hn : Apart bp (ptr mem p)) (hv : size mem bp + size mem (ptr mem p) < 2 ^ 32) :
    size (joinNext bp p mem) bp = size mem bp + size mem (ptr mem p) ∧
      ptr (joinNext bp p mem) bp = ptr mem (ptr mem p) := by
  have hset := only_setSize bp (size mem bp + size mem (ptr mem p)) mem
  rw [joinNext, if_pos h]
  refine ⟨?_, ?_⟩
  · rw [size_setPtr, size_setSize hv]
  · rw [ptr_setPtr (ptr_lt _ _), hset.ptr hp, hset.ptr hn]

theorem joinNext_of_ne (h : plus bp (size mem bp) ≠ ptr mem p) :
    size (joinNext bp p mem) bp = size mem bp ∧ ptr (joinNext bp p mem) bp = ptr mem p := by
  rw [joinNext, if_neg h]
  exact ⟨size_setPtr bp _ mem, ptr_setPtr (ptr_lt mem p)⟩

theorem joinPrev_of_eq (h : plus p (size mem p) = bp) (hp : Apart p bp)
    (hv : size mem p + size mem bp < 2 ^ 32) :
    size (joinPrev bp p mem) p = size mem p + size mem bp ∧
      ptr (joinPrev bp p mem) p = ptr mem bp := by
  rw [joinPrev, if_pos h]
  refine ⟨?_, ?_⟩
  · rw [size_setPtr, size_setSize hv]
  · rw [ptr_setPtr (ptr_lt _ _), (only_setSize p _ mem).ptr hp]

theorem joinPrev_of_ne (h : plus p (size mem p) ≠ bp) (hv : bp < 2 ^ 32) :
    size (joinPrev bp p mem) p = size mem p ∧ ptr (joinPrev bp p mem) p = bp := by
  rw [joinPrev, if_neg h]
  exact ⟨size_setPtr p bp mem, ptr_setPtr hv⟩

end Xv6.User
