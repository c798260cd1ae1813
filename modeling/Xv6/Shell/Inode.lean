/-
The inodes of the enhanced shell: their copies on disk and in memory, and the calls
that make, remove and count links.

The on-disk inode keeps its link count in 13 bits, to make room for three mode bits;
in memory it is a `short`. `iupdate` copies the memory to the disk and `ilock` the
disk to the memory, so a count of 2^13 is lost when the inode leaves the cache, and
one that comes back as 0 makes `iput` free the inode under its directory entries.

Each step is what a call does while it holds the locks of its inodes. A call of link
is two steps: it counts the link, and then writes the entry or takes the link back.
An inode is cached while somebody refers to it; a reference to an inode that is not
cached takes a fresh cache entry. The entries "." and ".." cannot be linked to or
unlinked and are not listed. The sizes and block addresses that `bmap` and `writei`
leave are arguments of the steps, as is the inode a path leads to.
-/
import Xv6.Shell.Dinode
import Xv6.Shell.Ledger

set_option autoImplicit false

namespace Xv6.Shell

/-- A dinode of zeroes, which is free. -/
def Dinode.zero : Dinode := ⟨0, 0, 0, 0, 0, 0, fun _ => 0⟩

/-- The values that fit the bit-fields. -/
structure Inode.Fits (ip : Inode) : Prop where
  nlink : ip.nlink.toNat < 2 ^ 13
  mode : ip.mode.toNat < 2 ^ 3

theorem setWidth_setWidth_of_lt {m n : Nat} {x : BitVec m} (h : x.toNat < 2 ^ n) :
    (x.setWidth n).setWidth m = x := by
  apply BitVec.eq_of_toNat_eq
  rw [BitVec.toNat_setWidth, BitVec.toNat_setWidth, Nat.mod_eq_of_lt h, Nat.mod_eq_of_lt x.isLt]

/-- **A reload changes nothing** of an inode that fits. -/
theorem Inode.Fits.reload {ip : Inode} (h : ip.Fits) : ip.toDisk.toMemory = ip := by
  simp only [Inode.toDisk, Dinode.toMemory]
  rw [setWidth_setWidth_of_lt h.nlink, setWidth_setWidth_of_lt h.mode]

theorem Dinode.toMemory_fits (dip : Dinode) : dip.toMemory.Fits where
  nlink := by
    have := dip.nlink.isLt
    simp only [Dinode.toMemory, BitVec.toNat_setWidth]
    omega
  mode := by
    have := dip.mode.isLt
    simp only [Dinode.toMemory, BitVec.toNat_setWidth]
    omega

theorem Inode.Fits.nlink_toDisk {ip : Inode} (h : ip.Fits) :
    ip.toDisk.nlink.toNat = ip.nlink.toNat := by
  simp only [Inode.toDisk, BitVec.toNat_setWidth]
  exact Nat.mod_eq_of_lt h.nlink

theorem Dinode.nlink_toMemory (dip : Dinode) : dip.toMemory.nlink.toNat = dip.nlink.toNat := by
  have := dip.nlink.isLt
  simp only [Dinode.toMemory, BitVec.toNat_setWidth]
  omega

namespace Links

open Xv6.Lib

/-! ## The file system -/

/-- An entry of the inode cache. -/
structure Cached where
  ref : Nat
  valid : Bool
  ip : Inode

structure Fs where
  disk : Nat → Dinode
  cache : Nat → Cached
  entries : List Entry
  /-- The inodes of the calls of link that have counted their link only. -/
  pending : List Nat
  /-- The links made to each inode and removed since it was allocated. -/
  made : Nat → Nat
  removed : Nat → Nat
  /-- The inode that `iupdate` last stored, or `ialloc` and `mkfs` made. -/
  stored : Nat → Inode

namespace Fs

def setCache (s : Fs) (i : Nat) (c : Cached) : Fs :=
  { s with cache := fun j => if j = i then c else s.cache j }

def setDisk (s : Fs) (i : Nat) (d : Dinode) : Fs :=
  { s with disk := fun j => if j = i then d else s.disk j }

def make (s : Fs) (i : Nat) : Fs :=
  { s with made := fun j => if j = i then s.made j + 1 else s.made j }

def remove (s : Fs) (i : Nat) : Fs :=
  { s with removed := fun j => if j = i then s.removed j + 1 else s.removed j }

/-- `iget`, and `idup`. -/
def iget (i : Nat) (s : Fs) : Fs :=
  let c := s.cache i
  s.setCache i
    (if c.ref = 0 then { c with ref := 1, valid := false } else { c with ref := c.ref + 1 })

/-- `ilock`: it panics without a reference, and on a free inode. -/
def ilock (i : Nat) (s : Fs) : Option Fs :=
  let c := s.cache i
  if c.ref = 0 then none
  else if c.valid then some s
  else if (s.disk i).type = 0 then none
  else some (s.setCache i { c with valid := true, ip := (s.disk i).toMemory })

/-- Change a locked inode, and `iupdate`. -/
def store (i : Nat) (f : Inode → Inode) (s : Fs) : Fs :=
  let c := s.cache i
  { (s.setCache i { c with ip := f c.ip }).setDisk i (f c.ip).toDisk with
    stored := fun j => if j = i then f c.ip else s.stored j }

/-- `itrunc` and the end of the inode. -/
def ifree (i : Nat) (s : Fs) : Fs :=
  let s := s.store i fun ip => { ip with addrs := fun _ => 0, size := 0, type := 0 }
  { s.setCache i { s.cache i with valid := false } with
    entries := s.entries.filter fun e => e.dir ≠ i }

/-- Whether `iput` frees the inode. -/
def dies (i : Nat) (s : Fs) : Bool :=
  (s.cache i).valid && (s.cache i).ip.nlink == 0 && (s.cache i).ref == 1

/-- `iput`. -/
def iput (i : Nat) (s : Fs) : Fs :=
  let s := if s.dies i then s.ifree i else s
  s.setCache i { s.cache i with ref := (s.cache i).ref - 1 }

/-- `dirlookup`, but for "." and "..", which are always found. -/
def lookup (d : Nat) (name : Name) (s : Fs) : Option Nat :=
  (s.entries.find? fun e => e.dir = d ∧ e.name = name).map (·.inum)

def isDot (name : Name) : Bool := name == [46] || name == [46, 46]

def found (d : Nat) (name : Name) (s : Fs) : Bool := isDot name || (s.lookup d name).isSome

/-- A write that leaves another size and other blocks, if it grows the file. -/
def grow (i : Nat) (g : Option (BitVec 32 × Addrs)) (s : Fs) : Fs :=
  match g with
  | none => s
  | some (size, addrs) => s.store i fun ip => { ip with size := size, addrs := addrs }

/-- `dirlink` of a name that is not present. -/
def dirlink (d : Nat) (name : Name) (i : Nat) (g : Option (BitVec 32 × Addrs)) (s : Fs) : Fs :=
  { s.grow d g with entries := ⟨d, name, i⟩ :: (s.grow d g).entries }

/-- The free inode `ialloc` takes. -/
def firstFree (s : Fs) : Option Nat :=
  (List.range' 1 (NINODES - 1)).find? fun i => (s.disk i).type = 0

/-- The inode on disk is not free any more. -/
def claim (i : Nat) (type : BitVec 16) (s : Fs) : Fs :=
  { s.setDisk i { Dinode.zero with type := type } with
    made := fun j => if j = i then 0 else s.made j
    removed := fun j => if j = i then 0 else s.removed j
    stored := fun j => if j = i then { Dinode.zero with type := type }.toMemory else s.stored j }

/-- `ialloc`. -/
def ialloc (i : Nat) (type : BitVec 16) (s : Fs) : Fs := (s.claim i type).iget i

/-- The entry is written over with zeroes. -/
def erase (e : Entry) (s : Fs) : Fs := { s with entries := s.entries.erase e }

def isdirempty (d : Nat) (s : Fs) : Bool := !s.entries.any fun e => e.dir = d

inductive Event where
  | iget (i : Nat)
  | ilock (i : Nat)
  | iput (i : Nat)
  | write (i : Nat) (size : BitVec 32) (addrs : Addrs)
  | chmod (i : Nat) (mode : BitVec 32)
  /-- link up to `iunlock(ip)`. -/
  | linkStart (i : Nat)
  /-- link from the lock of the directory on. -/
  | linkEnd (i d : Nat) (name : Name) (g : Option (BitVec 32 × Addrs))
  /-- link at `bad`. -/
  | linkBad (i : Nat)
  /-- `create` in directory `d`; `dots` is what writing "." and ".." leaves. -/
  | create (d : Nat) (name : Name) (type major minor : BitVec 16)
      (dots g : Option (BitVec 32 × Addrs))
  | unlink (d : Nat) (name : Name)

def sys_link_start (i : Nat) (s : Fs) : Option Fs :=
  (s.ilock i).map fun s =>
    if (s.cache i).ip.type = T_DIR then s.iput i
    else
      let s := (s.store i fun ip => { ip with nlink := ip.nlink + 1 }).make i
      { s with pending := i :: s.pending }

def sys_link_bad (i : Nat) (s : Fs) : Option Fs :=
  (s.ilock i).map fun s =>
    let s := (s.store i fun ip => { ip with nlink := ip.nlink - 1 }).remove i
    { s with pending := s.pending.erase i }.iput i

def sys_link_end (i d : Nat) (name : Name) (g : Option (BitVec 32 × Addrs)) (s : Fs) :
    Option Fs :=
  (s.ilock d).bind fun s =>
    if (s.cache d).ip.type = T_DIR ∧ s.found d name = false then
      some ({ s.dirlink d name i g with pending := s.pending.erase i }.iput i)
    else none

def create (d : Nat) (name : Name) (type major minor : BitVec 16)
    (dots g : Option (BitVec 32 × Addrs)) (s : Fs) : Option Fs :=
  (s.ilock d).bind fun s =>
    -- an entry that exists is opened or refused
    if (s.cache d).ip.type ≠ T_DIR ∨ s.found d name then some s
    else
      s.firstFree.bind fun i =>
        ((s.ialloc i type).ilock i).map fun s =>
          let s := (s.store i fun ip =>
            { ip with major := major, minor := minor, nlink := 1, mode := 7 }).make i
          let s :=
            if type = T_DIR then
              ((s.store d fun ip => { ip with nlink := ip.nlink + 1 }).make d).grow i dots
            else s
          s.dirlink d name i g

/-- `sys_unlink` from the lookup of the entry on. -/
def unlinkEntry (d i : Nat) (name : Name) (s : Fs) : Option Fs :=
  ((s.iget i).ilock i).bind fun s =>
    -- "unlink: nlink < 1"
    if (s.cache i).ip.nlink.slt 1 then none
    else if (s.cache i).ip.type = T_DIR then
      if s.isdirempty i then
        let s := s.erase ⟨d, name, i⟩
        let s := (s.store d fun ip => { ip with nlink := ip.nlink - 1 }).remove d
        some (((s.store i fun ip => { ip with nlink := ip.nlink - 1 }).remove i).iput i)
      else some (s.iput i)
    else
      let s := s.erase ⟨d, name, i⟩
      some (((s.store i fun ip => { ip with nlink := ip.nlink - 1 }).remove i).iput i)

def sys_unlink (d : Nat) (name : Name) (s : Fs) : Option Fs :=
  (s.ilock d).bind fun s =>
    if isDot name then some s
    else
      match s.lookup d name with
      | none => some s
      | some i => s.unlinkEntry d i name

/-- One step. The references that calls of link hold are theirs to drop. -/
def step (e : Event) (s : Fs) : Option Fs :=
  match e with
  | .iget i => some (s.iget i)
  | .ilock i => s.ilock i
  | .iput i => if s.pending.count i < (s.cache i).ref then some (s.iput i) else none
  | .write i size addrs => (s.ilock i).map fun s => s.grow i (some (size, addrs))
  | .chmod i mode => (s.ilock i).map fun s => s.store i fun ip => { ip with mode := mode &&& 7 }
  | .linkStart i => if s.pending.count i < (s.cache i).ref then s.sys_link_start i else none
  | .linkEnd i d name g => if i ∈ s.pending then s.sys_link_end i d name g else none
  | .linkBad i => if i ∈ s.pending then s.sys_link_bad i else none
  | .create d name type major minor dots g => s.create d name type major minor dots g
  | .unlink d name => s.sys_unlink d name

def Step (s : Fs) (e : Event) (t : Fs) : Prop := step e s = some t

/-- No call of link finds a file that has 2^13 - 1 links. -/
def Narrow (s : Fs) : Event → Prop
  | .linkStart i => (s.disk i).type ≠ T_DIR → (s.disk i).nlink.toNat + 1 < 2 ^ 13
  | _ => True

/-- An inode as `mkfs` makes it. -/
def fresh (type : BitVec 16) (content : BitVec 32 × Addrs) : Dinode where
  type := type
  major := 0
  minor := 0
  nlink := 1
  mode := 7
  size := content.1
  addrs := content.2

/-- The inodes of the image of `mkfs` with the given files: the root and one for each file. -/
def image (names : List Name) (content : Nat → BitVec 32 × Addrs) (i : Nat) : Dinode :=
  if i = ROOTINO then fresh T_DIR (content i)
  else if ROOTINO < i ∧ i < 2 + names.length then fresh T_FILE (content i)
  else .zero

def boot (names : List Name) (content : Nat → BitVec 32 × Addrs) : Fs where
  disk := image names content
  cache _ := ⟨0, false, Dinode.zero.toMemory⟩
  entries := (names.zipIdx 2).map fun (name, i) => ⟨ROOTINO, name, i⟩
  pending := []
  made i := if 0 < i ∧ i < 2 + names.length then 1 else 0
  removed _ := 0
  stored i := (image names content i).toMemory

/-! ## The cache and the disk -/

/-- The inodes in memory are those on disk, and each call of link holds a reference. -/
structure Mirror (s : Fs) : Prop where
  reload : ∀ i, (s.cache i).valid = true → (s.disk i).toMemory = (s.cache i).ip
  alive : ∀ i, (s.cache i).valid = true → (s.disk i).type ≠ 0
  owned : ∀ i, s.pending.count i ≤ (s.cache i).ref
  stored : ∀ i, (s.disk i).toMemory = s.stored i

/-- What the link counts are about. -/
def ledger (s : Fs) : Ledger where
  type i := (s.disk i).type
  nlink i := (s.disk i).nlink.toNat
  entries := s.entries
  pending := s.pending
  made := s.made
  removed := s.removed

/-- What `ilock` does. -/
structure Locked (i : Nat) (s t : Fs) : Prop where
  disk : t.disk = s.disk
  entries : t.entries = s.entries
  pending : t.pending = s.pending
  ledger : t.ledger = s.ledger
  ref : ∀ j, (t.cache j).ref = (s.cache j).ref
  valid : ∀ j, (s.cache j).valid = true → (t.cache j).valid = true
  self : (t.cache i).valid = true
  pos : 0 < (s.cache i).ref
  mirror : Mirror t

variable {s t : Fs} {i : Nat}

theorem ilock_spec (hs : Mirror s) (h : s.ilock i = some t) : Locked i s t := by
  unfold ilock at h
  simp only at h
  split at h
  · cases h
  case isFalse href =>
    have hpos : 0 < (s.cache i).ref := Nat.pos_of_ne_zero href
    split at h
    case isTrue hv =>
      obtain rfl := Option.some.inj h
      exact ⟨rfl, rfl, rfl, rfl, fun _ => rfl, fun _ hj => hj, hv, hpos, hs⟩
    case isFalse hv =>
      split at h
      · cases h
      case isFalse htype =>
        obtain rfl := Option.some.inj h
        refine ⟨rfl, rfl, rfl, rfl, fun j => ?_, fun j hj => ?_, ?_, hpos, fun j hj => ?_,
          fun j hj => ?_, fun j => ?_, hs.stored⟩
        · simp only [setCache]
          split
          · subst_vars
            rfl
          · rfl
        · simp only [setCache]
          split
          · rfl
          · exact hj
        · simp [setCache]
        · simp only [setCache] at hj ⊢
          split
          · subst_vars
            rfl
          case isFalse hne =>
            rw [if_neg hne] at hj
            exact hs.reload j hj
        · simp only [setCache] at hj ⊢
          split at hj
          · subst_vars
            exact htype
          · exact hs.alive j hj
        · have := hs.owned j
          simp only [setCache]
          split
          · subst_vars
            exact this
          · exact this

theorem iget_spec (hs : Mirror s) (i : Nat) : Mirror (s.iget i) ∧ (s.iget i).ledger = s.ledger ∧
    ((s.iget i).cache i).ref = (s.cache i).ref + 1 ∧
    ∀ j, 0 < (s.cache j).ref → (s.cache j).valid = true → ((s.iget i).cache j).valid = true := by
  have hcache : ∀ j, j ≠ i → (s.iget i).cache j = s.cache j := fun j hj => if_neg hj
  have hself : (s.iget i).cache i = if (s.cache i).ref = 0 then
      { s.cache i with ref := 1, valid := false }
      else { s.cache i with ref := (s.cache i).ref + 1 } := if_pos rfl
  have hvalid : ∀ j, ((s.iget i).cache j).valid = true → (s.cache j).valid = true ∧
      ((s.iget i).cache j).ip = (s.cache j).ip := by
    intro j hj
    by_cases hji : j = i
    · subst hji
      rw [hself] at hj ⊢
      split at hj
      · cases hj
      case isFalse h =>
        rw [if_neg h]
        exact ⟨hj, rfl⟩
    · rw [hcache j hji] at hj ⊢
      exact ⟨hj, rfl⟩
  refine ⟨⟨fun j hj => ?_, fun j hj => ?_, fun j => ?_, hs.stored⟩, rfl, ?_, fun j hpos hj => ?_⟩
  · obtain ⟨hv, hip⟩ := hvalid j hj
    rw [hip]
    exact hs.reload j hv
  · exact hs.alive j (hvalid j hj).1
  · have := hs.owned j
    by_cases hji : j = i
    · subst hji
      rw [hself]
      show s.pending.count j ≤ _
      split <;> simp <;> omega
    · rw [hcache j hji]
      exact this
  · rw [hself]
    split
    · simp_all
    · rfl
  · by_cases hji : j = i
    · subst hji
      rw [hself, if_neg (by omega)]
      exact hj
    · rw [hcache j hji]
      exact hj

/-- What an update of a locked inode leaves alone. -/
structure Updated (s t : Fs) : Prop where
  mirror : Mirror t
  ref : ∀ j, (t.cache j).ref = (s.cache j).ref
  valid : ∀ j, (t.cache j).valid = (s.cache j).valid
  pending : t.pending = s.pending
  entries : t.entries = s.entries

theorem store_spec (hs : Mirror s) {f : Inode → Inode}
    (hf : (f (s.cache i).ip).Fits) (ht : (f (s.cache i).ip).type ≠ 0) :
    Updated s (s.store i f) := by
  have hcache : ∀ j, (s.store i f).cache j =
      if j = i then { s.cache i with ip := f (s.cache i).ip } else s.cache j := fun j => rfl
  have hdisk : ∀ j, (s.store i f).disk j =
      if j = i then (f (s.cache i).ip).toDisk else s.disk j := fun j => rfl
  refine ⟨⟨fun j hj => ?_, fun j hj => ?_, fun j => ?_, fun j => ?_⟩, fun j => ?_, fun j => ?_,
    rfl, rfl⟩
  · rw [hcache] at hj ⊢
    rw [hdisk]
    by_cases hji : j = i
    · simp only [hji, if_true]
      exact hf.reload
    · simp only [hji, if_false] at hj ⊢
      exact hs.reload j hj
  · rw [hcache] at hj
    rw [hdisk]
    by_cases hji : j = i
    · simp only [hji, if_true]
      exact ht
    · simp only [hji, if_false] at hj ⊢
      exact hs.alive j hj
  · rw [hcache]
    by_cases hji : j = i
    · simp only [hji, if_true]
      exact hs.owned i
    · simp only [hji, if_false]
      exact hs.owned j
  · rw [hdisk]
    show _ = if j = i then _ else _
    by_cases hji : j = i
    · simp only [hji, if_true]
      exact hf.reload
    · simp only [hji, if_false]
      exact hs.stored j
  · rw [hcache]
    by_cases hji : j = i <;> simp [hji]
  · rw [hcache]
    by_cases hji : j = i <;> simp [hji]

theorem store_ledger (s : Fs) (i : Nat) (f : Inode → Inode) : (s.store i f).ledger =
    { s.ledger with
      type := fun j => if j = i then (f (s.cache i).ip).type else s.ledger.type j
      nlink := fun j =>
        if j = i then (f (s.cache i).ip).toDisk.nlink.toNat else s.ledger.nlink j } := by
  unfold ledger store setCache setDisk
  congr 1
  · funext j
    by_cases hji : j = i
    · simp [hji, Inode.toDisk]
    · simp [hji]
  · funext j
    by_cases hji : j = i <;> simp [hji]

/-- The fields of a locked inode, as the disk has them. -/
theorem Mirror.locked_type (hs : Mirror s) (hv : (s.cache i).valid = true) :
    (s.cache i).ip.type = (s.disk i).type := by
  rw [← hs.reload i hv]
  rfl

theorem Mirror.locked_nlink (hs : Mirror s) (hv : (s.cache i).valid = true) :
    (s.cache i).ip.nlink.toNat = (s.disk i).nlink.toNat := by
  rw [← hs.reload i hv]
  exact Dinode.nlink_toMemory _

theorem Mirror.locked_fits (hs : Mirror s) (hv : (s.cache i).valid = true) :
    (s.cache i).ip.Fits := by
  rw [← hs.reload i hv]
  exact Dinode.toMemory_fits _

/-- An update that leaves the type and the count alone. -/
theorem store_same (hs : Mirror s) (hv : (s.cache i).valid = true) {f : Inode → Inode}
    (ht : (f (s.cache i).ip).type = (s.cache i).ip.type)
    (hn : (f (s.cache i).ip).nlink = (s.cache i).ip.nlink)
    (hm : (f (s.cache i).ip).mode.toNat < 2 ^ 3) :
    Updated s (s.store i f) ∧ (s.store i f).ledger = s.ledger := by
  have hfits : (f (s.cache i).ip).Fits := ⟨by rw [hn]; exact (hs.locked_fits hv).nlink, hm⟩
  refine ⟨store_spec hs hfits ?_, ?_⟩
  · rw [ht, hs.locked_type hv]
    exact hs.alive i hv
  · have htype : (fun j => if j = i then (f (s.cache i).ip).type else s.ledger.type j) =
        s.ledger.type := by
      funext j
      by_cases hji : j = i
      · rw [if_pos hji, ht, hs.locked_type hv, hji]
        rfl
      · rw [if_neg hji]
    have hnlink : (fun j => if j = i then (f (s.cache i).ip).toDisk.nlink.toNat
        else s.ledger.nlink j) = s.ledger.nlink := by
      funext j
      by_cases hji : j = i
      · rw [if_pos hji, hfits.nlink_toDisk, hn, hs.locked_nlink hv, hji]
        rfl
      · rw [if_neg hji]
    rw [store_ledger, htype, hnlink]

theorem grow_spec (hs : Mirror s) (hv : (s.cache i).valid = true)
    (g : Option (BitVec 32 × Addrs)) :
    Updated s (s.grow i g) ∧ (s.grow i g).ledger = s.ledger := by
  cases g with
  | none => exact ⟨⟨hs, fun _ => rfl, fun _ => rfl, rfl, rfl⟩, rfl⟩
  | some g =>
    exact store_same (f := fun ip => { ip with size := g.1, addrs := g.2 }) hs hv rfl rfl
      (hs.locked_fits hv).mode

/-- An update that adds one to a count that fits. -/
theorem store_addLink (hs : Mirror s) (hv : (s.cache i).valid = true) {f : Inode → Inode}
    (ht : (f (s.cache i).ip).type = (s.cache i).ip.type)
    (hf : (f (s.cache i).ip).Fits)
    (hn : (f (s.cache i).ip).nlink.toNat = (s.disk i).nlink.toNat + 1) :
    Updated s ((s.store i f).make i) ∧ ((s.store i f).make i).ledger = s.ledger.addLink i := by
  have hU := store_spec hs hf (by rw [ht, hs.locked_type hv]; exact hs.alive i hv)
  refine ⟨⟨⟨hU.mirror.reload, hU.mirror.alive, hU.mirror.owned, hU.mirror.stored⟩, hU.ref,
    hU.valid, hU.pending, hU.entries⟩, ?_⟩
  show Ledger.mk _ _ _ _ _ _ = _
  have hL := store_ledger s i f
  have htype : (s.store i f).ledger.type = s.ledger.type := by
    rw [hL]
    funext j
    by_cases hji : j = i
    · simp only [hji, if_true]
      exact ht.trans (hs.locked_type hv)
    · simp only [hji, if_false]
  have hnlink : (s.store i f).ledger.nlink = (s.ledger.addLink i).nlink := by
    rw [hL]
    funext j
    simp only [Ledger.addLink]
    by_cases hji : j = i
    · simp only [hji, if_true]
      exact hf.nlink_toDisk.trans hn
    · simp only [hji, if_false]
  unfold Ledger.addLink
  congr 1

/-- `ip->nlink++` and `iupdate`, where the count fits. -/
theorem store_incr (hs : Mirror s) (hv : (s.cache i).valid = true)
    (hn : (s.disk i).nlink.toNat + 1 < 2 ^ 13) :
    Updated s ((s.store i fun ip => { ip with nlink := ip.nlink + 1 }).make i) ∧
      ((s.store i fun ip => { ip with nlink := ip.nlink + 1 }).make i).ledger =
        s.ledger.addLink i := by
  have hadd : ((s.cache i).ip.nlink + 1).toNat = (s.disk i).nlink.toNat + 1 := by
    rw [BitVec.toNat_add, hs.locked_nlink hv]
    simp
    omega
  refine store_addLink (f := fun ip => { ip with nlink := ip.nlink + 1 }) hs hv rfl ⟨?_, ?_⟩ hadd
  · show ((s.cache i).ip.nlink + 1).toNat < _
    rw [hadd]
    exact hn
  · exact (hs.locked_fits hv).mode

/-- `ip->nlink--` and `iupdate` of an inode with a link. -/
theorem store_dropLink (hs : Mirror s) (hv : (s.cache i).valid = true)
    (hn : 1 ≤ (s.disk i).nlink.toNat) :
    Updated s ((s.store i fun ip => { ip with nlink := ip.nlink - 1 }).remove i) ∧
      ((s.store i fun ip => { ip with nlink := ip.nlink - 1 }).remove i).ledger =
        s.ledger.dropLink i := by
  have hnl := hs.locked_nlink hv
  have hlt := (s.disk i).nlink.isLt
  have hsub : ((s.cache i).ip.nlink - 1).toNat = (s.disk i).nlink.toNat - 1 := by
    rw [BitVec.toNat_sub, hnl]
    simp
    omega
  have hfits : ({ (s.cache i).ip with nlink := (s.cache i).ip.nlink - 1 } : Inode).Fits :=
    ⟨by show ((s.cache i).ip.nlink - 1).toNat < _; rw [hsub]; omega, (hs.locked_fits hv).mode⟩
  have hU := store_spec (f := fun ip => { ip with nlink := ip.nlink - 1 }) hs hfits
    (by rw [hs.locked_type hv]; exact hs.alive i hv)
  refine ⟨⟨⟨hU.mirror.reload, hU.mirror.alive, hU.mirror.owned, hU.mirror.stored⟩, hU.ref,
    hU.valid, hU.pending, hU.entries⟩, ?_⟩
  show Ledger.mk _ _ _ _ _ _ = _
  have hL := store_ledger s i fun ip => { ip with nlink := ip.nlink - 1 }
  have htype : (s.store i fun ip => { ip with nlink := ip.nlink - 1 }).ledger.type =
      s.ledger.type := by
    rw [hL]
    funext j
    by_cases hji : j = i
    · simp only [hji, if_true]
      exact hs.locked_type hv
    · simp only [hji, if_false]
  have hnlink : (s.store i fun ip => { ip with nlink := ip.nlink - 1 }).ledger.nlink =
      (s.ledger.dropLink i).nlink := by
    rw [hL]
    funext j
    simp only [Ledger.dropLink]
    by_cases hji : j = i
    · simp only [hji, if_true]
      exact hfits.nlink_toDisk.trans hsub
    · simp only [hji, if_false]
  unfold Ledger.dropLink
  congr 1

/-- What `iput` does to the links: nothing, or the inode is free. -/
theorem iput_spec (hs : Mirror s) (hown : s.pending.count i < (s.cache i).ref) :
    Mirror (s.iput i) ∧ ∃ ls, Run Ledger.Step s.ledger ls (s.iput i).ledger := by
  have drop : ∀ u : Fs, Mirror u → u.pending.count i < (u.cache i).ref →
      Mirror (u.setCache i { u.cache i with ref := (u.cache i).ref - 1 }) := by
    intro u hu hown
    refine ⟨fun j hj => ?_, fun j hj => ?_, fun j => ?_, hu.stored⟩
    · simp only [setCache] at hj ⊢
      by_cases hji : j = i
      · subst hji
        simp only [if_true] at hj ⊢
        exact hu.reload j hj
      · simp only [hji, if_false] at hj ⊢
        exact hu.reload j hj
    · simp only [setCache] at hj ⊢
      by_cases hji : j = i
      · subst hji
        simp only [if_true] at hj
        exact hu.alive j hj
      · simp only [hji, if_false] at hj
        exact hu.alive j hj
    · have := hu.owned j
      simp only [setCache]
      by_cases hji : j = i
      · subst hji
        simp only [if_true]
        omega
      · simp only [hji, if_false]
        exact this
  unfold iput
  simp only
  by_cases hd : s.dies i = true
  · rw [if_pos hd]
    simp only [dies, Bool.and_eq_true, beq_iff_eq] at hd
    obtain ⟨⟨hv, h0⟩, href⟩ := hd
    have hfree : Mirror (s.ifree i) := by
      refine ⟨fun j hj => ?_, fun j hj => ?_, fun j => ?_, fun j => ?_⟩
      · simp only [ifree, store, setCache, setDisk] at hj ⊢
        by_cases hji : j = i
        · simp [hji] at hj
        · simp only [hji, if_false] at hj ⊢
          exact hs.reload j hj
      · simp only [ifree, store, setCache, setDisk] at hj ⊢
        by_cases hji : j = i
        · simp [hji] at hj
        · simp only [hji, if_false] at hj ⊢
          exact hs.alive j hj
      · have := hs.owned j
        simp only [ifree, store, setCache, setDisk]
        by_cases hji : j = i
        · subst hji
          simpa using this
        · simpa [hji] using this
      · simp only [ifree, store, setCache, setDisk]
        by_cases hji : j = i
        · have hfits := hs.locked_fits hv
          simp only [hji, if_true]
          exact Inode.Fits.reload ⟨hfits.nlink, hfits.mode⟩
        · simp only [hji, if_false]
          exact hs.stored j
    have href' : ((s.ifree i).cache i).ref = (s.cache i).ref := by
      simp [ifree, store, setCache, setDisk]
    have hnl0 : (s.disk i).nlink.toNat = 0 := by
      rw [← hs.locked_nlink hv, h0]
      rfl
    have hL : (s.ifree i).ledger = s.ledger.free i := by
      unfold ledger ifree store setCache setDisk Ledger.free
      congr 1
      · funext j
        by_cases hji : j = i
        · simp [hji, Inode.toDisk]
        · simp [hji]
      · funext j
        by_cases hji : j = i
        · subst hji
          simp only [if_true]
          rw [hnl0]
          simp [Inode.toDisk, h0]
        · simp [hji]
    refine ⟨drop _ hfree ?_, [()], .cons (Ledger.Step.free i (hs.alive i hv) hnl0) ?_⟩
    · rw [href']
      exact hown
    · rw [← hL]
      exact .nil _
  · rw [if_neg hd]
    exact ⟨drop s hs hown, [], .nil _⟩

end Fs

end Links

end Xv6.Shell
