/-
`exec` (`exec.c`), with `loaduvm` (`vm.c`).

The process, the inode of its program and the log stand beside the frames. What a path names
is a parameter (`namei`), and `exec` runs alone: where it sleeps, for the log, for the lock
of the inode or for the disk, nothing else happens. The strings of the caller are values.
-/
import Xv6.Shell.Image

set_option autoImplicit false

namespace Xv6.Shell.Exec

open Xv6.Lib

/-! ## Files -/

/-- An inode as `exec` finds it. -/
structure File where
  mode : Word
  /-- For a device, what its routine does at its `k`-th call, for `n` bytes. -/
  dev : Option (Nat → Nat → Option (List Byte))
  size : Word
  data : Nat → Byte

/-- `readi`, as the read number `k`: the bytes that it reads, or nothing when it fails. -/
def File.read (f : File) (k : Nat) (off n : Word) : Option (List Byte) :=
  match f.dev with
  | some read => (read k n.toNat).map (List.take n.toNat)
  | none =>
    if f.size < off ∨ off + n < off then none
    else
      let n := if f.size < off + n then f.size - off else n
      some ((List.range n.toNat).map fun i => f.data (off.toNat + i))

/-- The little-endian word at `i`. -/
def word (bs : List Byte) (i : Nat) : Word :=
  bs.getD (i + 3) 0 ++ bs.getD (i + 2) 0 ++ bs.getD (i + 1) 0 ++ bs.getD i 0

def half (bs : List Byte) (i : Nat) : BitVec 16 := bs.getD (i + 1) 0 ++ bs.getD i 0

/-- `struct elfhdr`, without what `exec` does not use. -/
structure Elfhdr where
  magic : Word
  entry : Word
  phoff : Word
  phnum : BitVec 16

structure Proghdr where
  type : Word
  off : Word
  vaddr : Word
  filesz : Word
  memsz : Word

/-- `sizeof(struct elfhdr)`. -/
def ELFSIZE : Word := 52

/-- `sizeof(struct proghdr)`. -/
def PHSIZE : Word := 32

def ELF_MAGIC : Word := 0x464C457F
def ELF_PROG_LOAD : Word := 1
def MAXARG : Nat := 32

def elfhdr (bs : List Byte) : Elfhdr := ⟨word bs 0, word bs 24, word bs 28, half bs 44⟩

def proghdr (bs : List Byte) : Proghdr :=
  ⟨word bs 0, word bs 4, word bs 8, word bs 16, word bs 20⟩

/-! ## The machine -/

structure Trapframe where
  eip : Word
  esp : Word

/-- The calling process. Its page directory is the one in `%cr3`. -/
structure Proc where
  pgdir : Nat
  sz : Word
  name : List Byte
  tf : Trapframe

/-- The inode that the path names. -/
structure Inode where
  ref : Nat
  locked : Bool

structure Kernel where
  vm : Vm
  proc : Proc
  inode : Inode
  /-- `log.outstanding`. -/
  ops : Nat
  /-- How often `readi` has been called. -/
  reads : Nat

abbrev X := Code Kernel

/-- The frames of the machine. -/
def frames : Part Kernel Vm where
  get k := k.vm
  set v k := { k with vm := v }
  get_set _ _ := rfl
  set_get _ := rfl
  set_set _ _ _ := rfl

/-- A string of the caller. With its end it lies below `KERNBASE` (`fetchstr`). -/
structure Str where
  bytes : List Byte
  nul : 0 ∉ bytes
  below : bytes.length < 0x80000000

def begin_op : X Unit := Code.modify fun k => { k with ops := k.ops + 1 }

def end_op : X Unit := Code.modify fun k => { k with ops := k.ops - 1 }

/-- `namei`, which takes a reference to the inode. -/
def lookup (namei : List Byte → Option File) (path : Str) : X (Option File) :=
  match namei path.bytes with
  | none => return none
  | some f => do
    Code.modify fun k => { k with inode := { k.inode with ref := k.inode.ref + 1 } }
    return some f

def ilock : X Unit := do
  let k ← Code.get
  if k.inode.ref < 1 then Code.panic "ilock"
  else Code.modify fun k => { k with inode := { k.inode with locked := true } }

def iunlockput : X Unit := do
  let k ← Code.get
  if k.inode.locked = false ∨ k.inode.ref < 1 then Code.panic "iunlock"
  else Code.modify fun k => { k with inode := ⟨k.inode.ref - 1, false⟩ }

def readi (f : File) (off n : Word) : X (Option (List Byte)) := do
  let k ← Code.get
  Code.modify fun k => { k with reads := k.reads + 1 }
  return f.read k.reads off n

/-- `readi(ip, &x, off, n) != n` is a failure. -/
def readAll (f : File) (off n : Word) : X (Option (List Byte)) := do
  let r ← readi f off n
  return r.filter fun bs => bs.length = n.toNat

/-! ## `loaduvm` -/

/-- One turn of the loop of `loaduvm`: `n` bytes of the file for the page `v`. -/
def loadPage (d v : Nat) (f : File) (off n : Word) : X Bool := do
  if ← Code.on frames (walkpgdir d v) then
    let sp ← Code.on frames (pgdir d)
    let pa := ((sp.pte v).map Pte.frame).getD 0
    match ← readi f off n with
    | none => return false
    | some bs =>
      Code.on frames (Code.modify fun s => s.setMem pa (overlay (s.mem pa) 0 bs))
      return bs.length = n.toNat
  else Code.panic "loaduvm: address should exist"

/-- The loop of `loaduvm`, with `n` turns from `i` on to come. -/
def loadLoop (d : Nat) (addr : Word) (f : File) (offset sz : Word) : Nat → Word → X Bool
  | 0, _ => return true
  | n + 1, i => do
    let m := if sz - i < 4096 then sz - i else 4096
    if ← loadPage d ((addr + i).toNat / 4096) f (offset + i) m then
      loadLoop d addr f offset sz n (i + 4096)
    else return false

/-- `loaduvm`; `true` is the return value 0. The size is below `KERNBASE`. -/
def loaduvm (d : Nat) (addr : Word) (f : File) (offset sz : Word) : X Bool :=
  if addr.toNat % 4096 ≠ 0 then Code.panic "loaduvm: addr must be page aligned"
  else loadLoop d addr f offset sz (pagesUp sz) 0

/-! ## `exec` -/

/-- What the label `bad` does with `pgdir`. -/
def dropPgdir (L : Link) : Option Nat → X Unit
  | none => return ()
  | some d => Code.on frames (freevm L d)

/-- What it does with `ip`, when that is set. -/
def dropIp : Bool → X Unit
  | false => return ()
  | true => do
    iunlockput
    end_op

/-- The label `bad`. -/
def bad (L : Link) (pgdir : Option Nat) (ip : Bool) : X Int := do
  dropPgdir L pgdir
  dropIp ip
  return -1

/-- The loop over the program headers, with `n` of them from `off` on to come: the size of
the image, unless it fails. -/
def loadSegments (L : Link) (d : Nat) (f : File) : Nat → Word → Word → X (Option Word)
  | 0, _, sz => return some sz
  | n + 1, off, sz => do
    match ← readAll f off PHSIZE with
    | none => return none
    | some bs =>
      let ph := proghdr bs
      if ph.type ≠ ELF_PROG_LOAD then loadSegments L d f n (off + PHSIZE) sz
      else if ph.memsz < ph.filesz then return none
      else if ph.vaddr + ph.memsz < ph.vaddr then return none
      else
        let sz' ← Code.on frames (allocuvm L d sz (ph.vaddr + ph.memsz))
        if sz' = 0 then return none
        else if ph.vaddr.toNat % 4096 ≠ 0 then return none
        else if ← loaduvm d ph.vaddr f ph.off ph.filesz then
          loadSegments L d f n (off + PHSIZE) sz'
        else return none

/-- `PGROUNDUP`. -/
def pgroundup (sz : Word) : Word := (sz + 4095) &&& ~~~4095#32

/-- `copyout` by the calling process. -/
def copyoutProc (L : Link) (d : Nat) (va : Word) (bs : List Byte) : X Bool := do
  let k ← Code.get
  Code.on frames (copyout L k.proc.pgdir d bs.length va bs)

/-- Where a string of length `len` goes below `sp`. -/
def place (sp : Word) (len : Nat) : Word := (sp - BitVec.ofNat 32 (len + 1)) &&& ~~~3#32

/-- The loop over the arguments: the stack pointer after it, and where the strings are. -/
def pushArgs (L : Link) (d : Nat) : List Word → Word → List Str → X (Option (Word × List Word))
  | ptrs, sp, [] => return some (sp, ptrs)
  | ptrs, sp, arg :: argv => do
    if MAXARG ≤ ptrs.length then return none
    else
      let sp' := place sp arg.bytes.length
      if ← copyoutProc L d sp' (arg.bytes ++ [0]) then pushArgs L d (ptrs ++ [sp']) sp' argv
      else return none

/-- The bytes of a word. -/
def le (w : Word) : List Byte :=
  [w.extractLsb' 0 8, w.extractLsb' 8 8, w.extractLsb' 16 8, w.extractLsb' 24 8]

/-- `ustack`: the return address, `argc`, `argv`, and the array of `argv`. -/
def ustack (sp : Word) (ptrs : List Word) : List Byte :=
  ([0xffffffff, BitVec.ofNat 32 ptrs.length, sp - BitVec.ofNat 32 ((ptrs.length + 1) * 4)] ++
    ptrs ++ [0]).flatMap le

/-- The path after its last slash. -/
def lastName : List Byte → List Byte → List Byte
  | last, [] => last
  | last, c :: s => if c = BitVec.ofNat 8 '/'.toNat then lastName s s else lastName last s

/-- The new image becomes that of the process. -/
def commit (L : Link) (d : Nat) (path : Str) (entry sz sp : Word) : X Int := do
  let k ← Code.get
  Code.modify fun k => { k with
    proc := ⟨d, sz, (lastName path.bytes path.bytes).take 15, ⟨entry, sp⟩⟩ }
  Code.on frames (freevm L k.proc.pgdir)
  return 0

/-- `exec` from the stack pages on. -/
def finish (L : Link) (d : Nat) (path : Str) (argv : List Str) (entry sz : Word) : X Int := do
  let sz ← Code.on frames (allocuvm L d (pgroundup sz) (pgroundup sz + 0x2000))
  if sz = 0 then bad L (some d) false
  else
    Code.on frames (clearpteu d ((sz - 0x2000).toNat / 4096))
    match ← pushArgs L d [] sz argv with
    | none => bad L (some d) false
    | some (sp, ptrs) =>
      let sp' := sp - BitVec.ofNat 32 ((3 + ptrs.length + 1) * 4)
      if ← copyoutProc L d sp' (ustack sp ptrs) then commit L d path entry sz sp'
      else bad L (some d) false

/-- `exec` from the check of the mode on. -/
def load (L : Link) (f : File) (path : Str) (argv : List Str) : X Int := do
  if f.mode &&& 4 = 0 then bad L none true
  else
    match ← readAll f 0 ELFSIZE with
    | none => bad L none true
    | some bs =>
      let elf := elfhdr bs
      if elf.magic ≠ ELF_MAGIC then bad L none true
      else
        match ← Code.on frames (setupkvm L) with
        | none => bad L none true
        | some d =>
          match ← loadSegments L d f elf.phnum.toNat elf.phoff 0 with
          | none => bad L (some d) true
          | some sz => do
            dropIp true
            finish L d path argv elf.entry sz

def exec (L : Link) (namei : List Byte → Option File) (path : Str) (argv : List Str) : X Int := do
  begin_op
  match ← lookup namei path with
  | none => do
    end_op
    return -1
  | some f => do
    ilock
    load L f path argv

end Xv6.Shell.Exec
