/-
The host tool `mkfs`, which builds the file system image the kernel boots from.

The image is modelled byte by byte: `wsect` and `rsect` move sectors, `winode` and
`rinode` move 64-byte inodes in them, `iappend` grows a file, and `balloc` writes
the bitmap at the end. `xint` and `xshort` fix the byte order, so that on the value
they are the identity; here values are written to the bytes lowest first.

A buffer of the source is an array of BSIZE bytes. The writes of `balloc` to its
buffer go through `Buf.orBit`, which records a write outside of it.
-/
import Mathlib

set_option autoImplicit false

namespace Xv6.Mkfs

/-! ## Layout (`fs.h`, `param.h` and the top of `mkfs.c`) -/

abbrev BSIZE : Nat := 512
abbrev FSSIZE : Nat := 20985
abbrev LOGSIZE : Nat := 30
abbrev NINODES : Nat := 200
abbrev NSWAPBLOCKS : Nat := 800 * 8
abbrev NDIRECT : Nat := 12
abbrev NINDIRECT : Nat := BSIZE / 4
abbrev MAXFILE : Nat := NDIRECT + NINDIRECT
abbrev DIRSIZ : Nat := 14
abbrev ROOTINO : Nat := 1
abbrev T_DIR : Nat := 1
abbrev T_FILE : Nat := 2

/-- Inodes per block. -/
abbrev IPB : Nat := BSIZE / 64

/-- Bitmap bits per block. -/
abbrev BPB : Nat := BSIZE * 8

def nbitmap : Nat := FSSIZE / (BSIZE * 8) + 1
def ninodeblocks : Nat := NINODES / IPB + 1
def nlog : Nat := LOGSIZE
def nmeta : Nat := 2 + nlog + ninodeblocks + nbitmap + NSWAPBLOCKS
def nblocks : Nat := FSSIZE - nmeta

structure Superblock where
  size : Nat
  nblocks : Nat
  ninodes : Nat
  nlog : Nat
  logstart : Nat
  inodestart : Nat
  bmapstart : Nat
  deriving DecidableEq

/-- The superblock as `main` fills it. -/
def sb : Superblock where
  size := FSSIZE
  nblocks := nblocks
  ninodes := NINODES
  nlog := nlog
  logstart := 2 + NSWAPBLOCKS
  inodestart := 2 + NSWAPBLOCKS + nlog
  bmapstart := 2 + nlog + ninodeblocks

/-- Block containing inode `i`. -/
def IBLOCK (i : Nat) : Nat := i / IPB + sb.inodestart

/-- Block of the free map containing the bit for block `b`. -/
def BBLOCK (b : Nat) : Nat := b / BPB + sb.bmapstart

/-! ## Bytes -/

abbrev Byte := BitVec 8

/-- A sector, by byte offset. -/
abbrev Sector := Nat → Byte

def zeroes : Sector := fun _ => 0

/-- The byte `i` of a number, lowest first. -/
def byteOf (v i : Nat) : Byte := BitVec.ofNat 8 (v / 256 ^ i)

/-- The number in `n` bytes at `off`. -/
def getNum (s : Sector) (off : Nat) : Nat → Nat
  | 0 => 0
  | n + 1 => (s off).toNat + 256 * getNum s (off + 1) n

def putNum (s : Sector) (off n v : Nat) : Sector :=
  fun i => if off ≤ i ∧ i < off + n then byteOf v (i - off) else s i

def putBytes (s : Sector) (off : Nat) (bs : List Byte) : Sector :=
  fun i => if off ≤ i ∧ i < off + bs.length then bs.getD (i - off) 0 else s i

/-! ## The image -/

structure Dinode where
  type : Nat
  major : Nat := 0
  minor : Nat := 0
  nlink : Nat
  size : Nat
  addrs : Nat → Nat

/-- The state of the run: the image file, `freeinode` and `freeblock`, and whether a
write went outside its buffer. -/
structure State where
  disk : Nat → Sector
  freeinode : Nat
  freeblock : Nat
  outside : Bool

def wsect (sec : Nat) (buf : Sector) (s : State) : State :=
  { s with disk := fun n => if n = sec then buf else s.disk n }

def rsect (sec : Nat) (s : State) : Sector := s.disk sec

def winode (inum : Nat) (ip : Dinode) (s : State) : State :=
  let at_ := inum % IPB * 64
  let buf := rsect (IBLOCK inum) s
  let buf := putNum buf at_ 2 ip.type
  let buf := putNum buf (at_ + 2) 2 ip.major
  let buf := putNum buf (at_ + 4) 2 ip.minor
  let buf := putNum buf (at_ + 6) 2 ip.nlink
  let buf := putNum buf (at_ + 8) 4 ip.size
  let buf := (List.range (NDIRECT + 1)).foldl
    (fun buf i => putNum buf (at_ + 12 + 4 * i) 4 (ip.addrs i)) buf
  wsect (IBLOCK inum) buf s

def rinode (inum : Nat) (s : State) : Dinode :=
  let at_ := inum % IPB * 64
  let buf := rsect (IBLOCK inum) s
  { type := getNum buf at_ 2, major := getNum buf (at_ + 2) 2, minor := getNum buf (at_ + 4) 2
    nlink := getNum buf (at_ + 6) 2, size := getNum buf (at_ + 8) 4
    addrs := fun i => getNum buf (at_ + 12 + 4 * i) 4 }

def ialloc (type : Nat) (s : State) : Nat × State :=
  let inum := s.freeinode
  (inum, winode inum { type := type, nlink := 1, size := 0, addrs := fun _ => 0 }
    { s with freeinode := inum + 1 })

/-- `freeblock++`. -/
def takeBlock (s : State) : Nat × State := (s.freeblock, { s with freeblock := s.freeblock + 1 })

/-- The block of the file at `fbn`, allocated if there is none. -/
def blockOf (din : Dinode) (fbn : Nat) (s : State) : Nat × Dinode × State :=
  if fbn < NDIRECT then
    if din.addrs fbn = 0 then
      let (b, s) := takeBlock s
      (b, { din with addrs := fun i => if i = fbn then b else din.addrs i }, s)
    else (din.addrs fbn, din, s)
  else
    let (din, s) :=
      if din.addrs NDIRECT = 0 then
        let (b, s) := takeBlock s
        ({ din with addrs := fun i => if i = NDIRECT then b else din.addrs i }, s)
      else (din, s)
    let indirect := rsect (din.addrs NDIRECT) s
    let x := getNum indirect (4 * (fbn - NDIRECT)) 4
    if x = 0 then
      let (b, s) := takeBlock s
      (b, din, wsect (din.addrs NDIRECT) (putNum indirect (4 * (fbn - NDIRECT)) 4 b) s)
    else (x, din, s)

/-- The loop of `iappend`; it ends as the source's does, on `n = 0`, and the fuel is
`n`. It stops at the assertion `fbn < MAXFILE`. -/
def appendLoop : Nat → Dinode → Nat → List Byte → State → Option (Dinode × Nat × State)
  | 0, din, off, _, s => some (din, off, s)
  | fuel + 1, din, off, p, s =>
    if p = [] then some (din, off, s)
    else
      let fbn := off / BSIZE
      if fbn < MAXFILE then
        let (x, din, s) := blockOf din fbn s
        let n1 := min p.length ((fbn + 1) * BSIZE - off)
        let s := wsect x (putBytes (rsect x s) (off - fbn * BSIZE) (p.take n1)) s
        appendLoop fuel din (off + n1) (p.drop n1) s
      else none

def iappend (inum : Nat) (xp : List Byte) (s : State) : Option State :=
  let din := rinode inum s
  (appendLoop xp.length din din.size xp s).map fun (din, off, s) =>
    winode inum { din with size := off } s

/-! ## The bitmap -/

/-- The buffer of `balloc`, and whether a write missed it. -/
structure Buf where
  data : Int → Byte
  outside : Bool

def Buf.zero (outside : Bool) : Buf := ⟨fun _ => 0, outside⟩

/-- `buf[n/8] = buf[n/8] | (0x1 << (n%8))`, with the division of C. -/
def Buf.orBit (b : Buf) (n : Int) : Buf :=
  let i := n.tdiv 8
  { data := fun k => if k = i then b.data i ||| (1 <<< (n.tmod 8).toNat) else b.data k
    outside := b.outside || !(0 ≤ i && i < BSIZE) }

def Buf.sector (b : Buf) : Sector := fun i => b.data i

/-- The first loop of `balloc`. -/
def firstLoop (used : Int) : Nat → Int → Buf → Int × Buf
  | 0, i, b => (i, b)
  | fuel + 1, i, b =>
    if i < used ∧ i > (BSIZE * 8 : Nat) then firstLoop used fuel (i + 1) (b.orBit i) else (i, b)

/-- The inner loop of the second one. -/
def innerLoop (used j : Int) : Nat → Int → Buf → Int × Buf
  | 0, i, b => (i, b)
  | fuel + 1, i, b =>
    if i < used ∧ i < (j + 1) * (BSIZE * 8 : Nat) then
      innerLoop used j fuel (i + 1) (b.orBit (i - j * (BSIZE * 8 : Nat)))
    else (i, b)

/-- The second loop; `used` rounds are enough, as each writes one bit at least. -/
def outerLoop (used : Nat) : Nat → Nat → Int → State → State
  | 0, _, _, s => s
  | fuel + 1, j, i, s =>
    if i < used then
      let (i, b) := innerLoop used j used i (Buf.zero s.outside)
      outerLoop used fuel (j + 1) i
        (wsect (sb.bmapstart + j) b.sector { s with outside := b.outside })
    else s

def balloc (used : Nat) (s : State) : State :=
  let (i, b) := firstLoop used used 0 (Buf.zero s.outside)
  outerLoop used used 1 i (wsect sb.bmapstart b.sector { s with outside := b.outside })

/-! ## `main` -/

/-- An argument of `mkfs`: the name of the file and its bytes. -/
structure File where
  name : List Byte
  content : List Byte

/-- `struct dirent`: the inode number and the name, padded with zeroes. -/
def dirent (inum : Nat) (name : List Byte) : List Byte :=
  [byteOf inum 0, byteOf inum 1] ++ (name ++ List.replicate DIRSIZ 0).take DIRSIZ

/-- The reads of BSIZE bytes, each appended. -/
def copyFile (inum : Nat) : Nat → List Byte → State → Option State
  | 0, _, s => some s
  | fuel + 1, data, s =>
    if data = [] then some s
    else (iappend inum (data.take BSIZE) s).bind fun s => copyFile inum fuel (data.drop BSIZE) s

/-- The body of the loop over the arguments. -/
def addFile (rootino : Nat) (f : File) (s : State) : Option State :=
  if f.name.contains 47 then none
  else
    let name := if f.name.head? = some 95 then f.name.tail else f.name
    let (inum, s) := ialloc T_FILE s
    (iappend rootino (dirent inum name) s).bind fun s => copyFile inum f.content.length f.content s

def addFiles (rootino : Nat) : List File → State → Option State
  | [], s => some s
  | f :: fs, s => (addFile rootino f s).bind (addFiles rootino fs)

/-- The superblock in its sector. -/
def sbSector : Sector :=
  [sb.size, sb.nblocks, sb.ninodes, sb.nlog, sb.logstart, sb.inodestart, sb.bmapstart].zipIdx.foldl
    (fun buf (v, i) => putNum buf (4 * i) 4 v) zeroes

/-- The size of the root directory, rounded up. -/
def fixRoot (rootino : Nat) (s : State) : State :=
  let din := rinode rootino s
  winode rootino { din with size := (din.size / BSIZE + 1) * BSIZE } s

/-- `main`; it fails where an assertion does. -/
def mkfs (files : List File) : Option State :=
  let s : State := { disk := fun _ => zeroes, freeinode := 1, freeblock := nmeta, outside := false }
  let s := wsect 1 sbSector s
  let (rootino, s) := ialloc T_DIR s
  (iappend rootino (dirent rootino [46]) s).bind fun s =>
    (iappend rootino (dirent rootino [46, 46]) s).bind fun s =>
      (addFiles rootino files s).bind fun s =>
        let s := fixRoot rootino s
        some (balloc s.freeblock s)

end Xv6.Mkfs
