/-
The kernel's readers (`fs.c`) on the image that `mkfs` makes.

The reader finds the inode region through the superblock on the disk and has its own
`bmap`, which allocates a block where there is none. On a file of the image it never
does, so the disk and the inode are as they were after every call.
-/
import Xv6.Mkfs.Files

set_option autoImplicit false

namespace Xv6.Mkfs.Kernel

abbrev T_DEV : Nat := 3

/-- The disk, and an inode that is locked. -/
structure Open where
  disk : Nat → Sector
  ip : Dinode

def readsb (disk : Nat → Sector) : Superblock where
  size := getNum (disk 1) 0 4
  nblocks := getNum (disk 1) 4 4
  ninodes := getNum (disk 1) 8 4
  nlog := getNum (disk 1) 12 4
  logstart := getNum (disk 1) 16 4
  inodestart := getNum (disk 1) 20 4
  bmapstart := getNum (disk 1) 24 4

def IBLOCK (i : Nat) (sb : Superblock) : Nat := i / IPB + sb.inodestart

def BBLOCK (b : Nat) (sb : Superblock) : Nat := b / BPB + sb.bmapstart

/-- The inode read from the disk; `none` is the panic on a free one. -/
def ilock (sb : Superblock) (inum : Nat) (disk : Nat → Sector) : Option Dinode :=
  let at_ := inum % IPB * 64
  let buf := disk (IBLOCK inum sb)
  let ip : Dinode :=
    { type := getNum buf at_ 2, major := getNum buf (at_ + 2) 2, minor := getNum buf (at_ + 4) 2
      nlink := getNum buf (at_ + 6) 2, size := getNum buf (at_ + 8) 4
      addrs := fun i => getNum buf (at_ + 12 + 4 * i) 4 }
  if ip.type = 0 then none else some ip

/-- `bp->data[bi/8] & (1 << (bi % 8))`. -/
def isFree (sb : Superblock) (disk : Nat → Sector) (b : Nat) : Bool :=
  let bi := b % BPB
  !(disk (BBLOCK b sb) (bi / 8)).toNat.testBit (bi % 8)

/-- The first free block, marked and zeroed; `none` is the panic when there is none. -/
def balloc (sb : Superblock) (disk : Nat → Sector) : Option (Nat × (Nat → Sector)) :=
  ((List.range sb.size).find? (isFree sb disk)).map fun b =>
    let bi := b % BPB
    let buf := disk (BBLOCK b sb)
    let buf : Sector := fun i => if i = bi / 8 then buf i ||| (1 <<< (bi % 8)) else buf i
    (b, Function.update (Function.update disk (BBLOCK b sb) buf) b zeroes)

def bmap (sb : Superblock) (bn : Nat) (s : Open) : Option (Nat × Open) :=
  if bn < NDIRECT then
    if s.ip.addrs bn = 0 then
      (balloc sb s.disk).map fun (addr, disk) => (addr, ⟨disk, s.ip.setAddr bn addr⟩)
    else some (s.ip.addrs bn, s)
  else
    let bn := bn - NDIRECT
    if bn < NINDIRECT then
      (if s.ip.addrs NDIRECT = 0 then
        (balloc sb s.disk).map fun (addr, disk) => (⟨disk, s.ip.setAddr NDIRECT addr⟩ : Open)
      else some s).bind fun s =>
        let a := s.disk (s.ip.addrs NDIRECT)
        let addr := getNum a (4 * bn) 4
        if addr = 0 then
          (balloc sb s.disk).map fun (addr, disk) =>
            (addr, ⟨Function.update disk (s.ip.addrs NDIRECT) (putNum a (4 * bn) 4 addr), s.ip⟩)
        else some (addr, s)
    else none

/-- The loop of `readi`, with fuel. -/
def readLoop (sb : Superblock) : Nat → Nat → Nat → Nat → Open → Option (List Byte × Open)
  | 0, _, _, _, s => some ([], s)
  | fuel + 1, n, tot, off, s =>
    if tot < n then
      (bmap sb (off / BSIZE) s).bind fun (b, s) =>
        let m := min (n - tot) (BSIZE - off % BSIZE)
        let piece := (List.range m).map fun j => s.disk b (off % BSIZE + j)
        (readLoop sb fuel n (tot + m) (off + m) s).map fun (bs, s) => (piece ++ bs, s)
    else some ([], s)

/-- `readi`; the inner `none` is the value -1. `devread` is what `devsw` has for a major
number. -/
def readi (sb : Superblock) (devread : Nat → Nat → Option (List Byte)) (off n : Nat) (s : Open) :
    Option (Option (List Byte) × Open) :=
  if s.ip.type = T_DEV then some (devread s.ip.major n, s)
  else if off > s.ip.size ∨ (off + n) % 2 ^ 32 < off then some (none, s)
  else
    let n := if (off + n) % 2 ^ 32 > s.ip.size then s.ip.size - off else n
    (readLoop sb n n 0 off s).map fun (bs, s) => (some bs, s)

/-- `strncmp`; after its bytes a string has its terminator. -/
def strncmp : Nat → List Byte → List Byte → Int
  | 0, _, _ => 0
  | n + 1, p, q =>
    if p.headD 0 ≠ 0 ∧ p.headD 0 = q.headD 0 then strncmp n p.tail q.tail
    else (p.headD 0).toNat - (q.headD 0).toNat

def namecmp (s t : List Byte) : Int := strncmp DIRSIZ s t

/-- The loop of `dirlookup`, with fuel. It returns the inode number and the offset. -/
def dirLoop (sb : Superblock) (devread : Nat → Nat → Option (List Byte)) (name : List Byte) :
    Nat → Nat → Open → Option (Option (Nat × Nat) × Open)
  | 0, _, s => some (none, s)
  | fuel + 1, off, s =>
    if off < s.ip.size then
      (readi sb devread off 16 s).bind fun
        | (none, _) => none
        | (some de, s) =>
          let inum := getNum (fun i => de.getD i 0) 0 2
          if de.length ≠ 16 then none
          else if inum = 0 then dirLoop sb devread name fuel (off + 16) s
          else if namecmp name (de.drop 2) = 0 then some (some (inum, off), s)
          else dirLoop sb devread name fuel (off + 16) s
    else some (none, s)

def dirlookup (sb : Superblock) (devread : Nat → Nat → Option (List Byte)) (name : List Byte)
    (s : Open) : Option (Option (Nat × Nat) × Open) :=
  if s.ip.type ≠ T_DIR then none else dirLoop sb devread name s.ip.size 0 s

/-! ## The readers on a file of the image -/

variable {disk : Nat → Sector} {ip : Dinode} {c : List Byte} {sb : Superblock}
  {devread : Nat → Nat → Option (List Byte)} {off n : Nat}

theorem readsb_eq (h : disk 1 = sbSector) : readsb disk = Mkfs.sb := by
  unfold readsb
  rw [h]
  decide +kernel

/-- The kernel reads the inode that `mkfs` reads. -/
theorem ilock_eq (s : State) {i : Nat} (h : (rinode i s).type ≠ 0) :
    ilock Mkfs.sb i s.disk = some (rinode i s) := if_neg h

/-- The inode owns its blocks, and `c` is in them. -/
abbrev Stored (disk : Nat → Sector) (ip : Dinode) (c : List Byte) : Prop :=
  ∃ use i nb, FileOk disk use i ip nb c

/-- **No block is allocated under the bytes of a file.** -/
theorem bmap_spec {use : Use} {i nb k : Nat} (h : FileOk disk use i ip nb c) (hk : k < nb) :
    bmap sb k ⟨disk, ip⟩ = some (blockAt disk ip k, ⟨disk, ip⟩) := by
  have hM : MAXFILE = NDIRECT + NINDIRECT := rfl
  have hkm := hk.trans_le h.nb_le
  have hat := (h.some_iff k hkm).2 hk
  unfold blockAt at hat ⊢
  unfold bmap
  dsimp only
  by_cases hd : k < NDIRECT
  · rw [if_pos hd] at hat ⊢
    rw [if_pos hd, if_neg hat]
  · have hx := h.indirect ((Nat.le_of_not_lt hd).trans_lt hk)
    rw [if_neg hd, if_neg hx] at hat ⊢
    rw [if_neg hd, if_pos (by omega), if_neg hx, Option.bind_some, if_neg hat]

/-- The bytes of one block. -/
theorem piece_eq {use : Use} {i nb m : Nat} (h : FileOk disk use i ip nb c)
    (hm : m ≤ BSIZE - off % BSIZE) (hlen : off + m ≤ c.length) :
    (List.range m).map (fun j => disk (blockAt disk ip (off / BSIZE)) (off % BSIZE + j)) =
      (c.drop off).take m := by
  apply List.ext_getElem
  · rw [List.length_map, List.length_range, List.length_take, List.length_drop]
    omega
  · intro j h1 h2
    rw [List.length_map, List.length_range] at h1
    rw [List.getElem_map, List.getElem_range, List.getElem_take, List.getElem_drop]
    have hd := h.data (off + j) (by omega)
    have hdiv : (off + j) / BSIZE = off / BSIZE ∧ (off + j) % BSIZE = off % BSIZE + j := by
      unfold BSIZE at *
      omega
    rw [hdiv.1, hdiv.2, List.getD_eq_getElem _ _ (by omega)] at hd
    exact hd

/-- **The loop of `readi`.** -/
theorem readLoop_spec {use : Use} {i nb : Nat} (h : FileOk disk use i ip nb c) (fuel : Nat) :
    ∀ {n tot off : Nat}, tot ≤ n → n - tot ≤ fuel → off + (n - tot) ≤ c.length →
      readLoop sb fuel n tot off ⟨disk, ip⟩ = some ((c.drop off).take (n - tot), ⟨disk, ip⟩) := by
  induction fuel with
  | zero =>
    intro n tot off _ hf _
    rw [Nat.le_zero.1 hf, List.take_zero]
    rfl
  | succ fuel ih =>
    intro n tot off ht hf hlen
    unfold readLoop
    by_cases hlt : tot < n
    · have hmod : off % BSIZE < BSIZE := Nat.mod_lt _ (by norm_num)
      set m := min (n - tot) (BSIZE - off % BSIZE) with hm
      rw [if_pos hlt, bmap_spec h (h.div_lt (by omega)), Option.bind_some]
      dsimp only
      rw [piece_eq h (by omega) (by omega), ih (by omega) (by omega) (by omega),
        Option.map_some, ← List.drop_drop, show n - tot = m + (n - (tot + m)) by omega,
        List.take_add]
    · rw [if_neg hlt, show n - tot = 0 by omega, List.take_zero]

/-- **`readi` returns the bytes.** -/
theorem readi_spec (h : Stored disk ip c) (hty : ip.type ≠ T_DEV) (hlen : off + n ≤ c.length)
    (hsize : c.length ≤ ip.size) (hlt : ip.size < 2 ^ 32) :
    readi sb devread off n ⟨disk, ip⟩ = some (some ((c.drop off).take n), ⟨disk, ip⟩) := by
  obtain ⟨use, i, nb, hf⟩ := h
  have hmod : (off + n) % 2 ^ 32 = off + n := Nat.mod_eq_of_lt (by omega)
  unfold readi
  dsimp only
  rw [if_neg hty, hmod, if_neg (by omega), if_neg (by omega),
    readLoop_spec hf n (Nat.zero_le n) le_rfl (by omega), Option.map_some, Nat.sub_zero]

/-! ## Names -/

/-- On names without a terminator in them, `strncmp` is equality. -/
theorem strncmp_eq_zero (n : Nat) : ∀ {x y : List Byte} (k : Nat), (0 : Byte) ∉ x →
    (0 : Byte) ∉ y → x.length ≤ n → y.length ≤ n →
    (strncmp n x (y ++ List.replicate k 0) = 0 ↔ x = y) := by
  induction n with
  | zero =>
    intro x y k _ _ hx hy
    rw [List.eq_nil_of_length_eq_zero (Nat.le_zero.1 hx),
      List.eq_nil_of_length_eq_zero (Nat.le_zero.1 hy)]
    simp [strncmp]
  | succ n ih =>
    intro x y k h0x h0y hx hy
    have hdiff : ∀ a b : Byte, (a.toNat : Int) - b.toNat = 0 ↔ a = b := by
      intro a b
      rw [sub_eq_zero, Nat.cast_inj, BitVec.toNat_inj]
    have hpad : (List.replicate k (0 : Byte)).headD 0 = 0 := by
      cases k with
      | zero => rfl
      | succ k => rfl
    unfold strncmp
    cases x with
    | nil =>
      rw [if_neg (fun h => h.1 rfl), hdiff]
      cases y with
      | nil =>
        rw [List.nil_append, hpad]
        exact iff_of_true rfl rfl
      | cons b y =>
        refine iff_of_false (fun h => h0y ?_) (List.cons_ne_nil b y).symm
        rw [List.cons_append, List.headD_cons] at h
        rw [show (0 : Byte) = b from h]
        exact List.mem_cons_self
    | cons a x =>
      have ha : a ≠ 0 := fun h => h0x (h ▸ List.mem_cons_self)
      rw [List.headD_cons, List.tail_cons]
      cases y with
      | nil =>
        rw [List.nil_append, hpad, if_neg (fun h => ha h.2), hdiff]
        exact iff_of_false ha (List.cons_ne_nil a x)
      | cons b y =>
        rw [List.cons_append, List.headD_cons, List.tail_cons]
        by_cases hab : a = b
        · rw [if_pos ⟨ha, hab⟩, ih k (fun h => h0x (List.mem_cons_of_mem _ h))
            (fun h => h0y (List.mem_cons_of_mem _ h)) (Nat.le_of_succ_le_succ hx)
            (Nat.le_of_succ_le_succ hy), hab]
          exact ⟨fun h => h ▸ rfl, fun h => (List.cons.inj h).2⟩
        · rw [if_neg (fun h => hab h.2), hdiff]
          exact iff_of_false hab fun h => hab (List.cons.inj h).1

/-- A name that a directory entry can hold. -/
structure IsName (name : List Byte) : Prop where
  short : name.length ≤ DIRSIZ
  noNul : (0 : Byte) ∉ name

theorem dirent_name {inum : Nat} {name : List Byte} (h : IsName name) :
    (dirent inum name).drop 2 = name ++ List.replicate (DIRSIZ - name.length) 0 := by
  have hD := h.short
  show (name ++ List.replicate DIRSIZ 0).take DIRSIZ = _
  rw [List.take_append, List.take_of_length_le hD, List.take_replicate,
    Nat.min_eq_left (Nat.sub_le _ _)]

theorem namecmp_dirent {inum : Nat} {x y : List Byte} (hx : IsName x) (hy : IsName y) :
    namecmp x ((dirent inum y).drop 2) = 0 ↔ x = y := by
  rw [dirent_name hy]
  exact strncmp_eq_zero DIRSIZ _ hx.noNul hy.noNul hx.short hy.short

theorem dirent_inum {inum : Nat} (h : inum < 2 ^ 16) (name : List Byte) :
    getNum (fun i => (dirent inum name).getD i 0) 0 2 = inum := by
  rw [getNum_bytes 2 (v := inum), Nat.mod_eq_of_lt (by norm_num at h ⊢; exact h)]
  intro i hi
  interval_cases i
  · rfl
  · rfl

/-! ## `dirlookup` -/

/-- One entry of a directory. -/
theorem direntsOf_slot (pre rest : List (Nat × List Byte)) (e : Nat × List Byte) :
    ((direntsOf (pre ++ e :: rest)).drop (16 * pre.length)).take 16 = dirent e.1 e.2 := by
  have happ : direntsOf (pre ++ e :: rest) = direntsOf pre ++ (dirent e.1 e.2 ++ direntsOf rest) := by
    unfold direntsOf
    rw [List.flatMap_append, List.flatMap_cons]
  rw [happ, ← direntsOf_length, List.drop_left, ← dirent_length e.1 e.2, List.take_left]

/-- The entries can be looked up. -/
def IsDir (es : List (Nat × List Byte)) : Prop :=
  ∀ e ∈ es, e.1 ≠ 0 ∧ e.1 < 2 ^ 16 ∧ IsName e.2

section Loop

variable {name : List Byte}

/-- One round of the loop, at an entry. -/
theorem dirLoop_step (hname : IsName name) (hty : ip.type ≠ T_DEV) (hlt : ip.size < 2 ^ 32)
    {pre rest : List (Nat × List Byte)} {e : Nat × List Byte}
    (h : Stored disk ip (direntsOf (pre ++ e :: rest)))
    (hsize : (direntsOf (pre ++ e :: rest)).length ≤ ip.size) (hdir : IsDir (pre ++ e :: rest))
    (fuel : Nat) :
    dirLoop sb devread name (fuel + 1) (16 * pre.length) ⟨disk, ip⟩ =
      if name = e.2 then some (some (e.1, 16 * pre.length), ⟨disk, ip⟩)
      else dirLoop sb devread name fuel (16 * pre.length + 16) ⟨disk, ip⟩ := by
  obtain ⟨hne, hinum, he⟩ := hdir e (List.mem_append_right _ List.mem_cons_self)
  have hlen : 16 * pre.length + 16 ≤ (direntsOf (pre ++ e :: rest)).length := by
    rw [direntsOf_length, List.length_append, List.length_cons]
    omega
  have hread : readi sb devread (16 * pre.length) 16 ⟨disk, ip⟩ =
      some (some (dirent e.1 e.2), ⟨disk, ip⟩) := by
    rw [readi_spec h hty hlen hsize hlt, direntsOf_slot]
  have hcmp : namecmp name ((dirent e.1 e.2).drop 2) = 0 ↔ name = e.2 := namecmp_dirent hname he
  conv_lhs => unfold dirLoop
  dsimp only
  rw [if_pos (by omega), hread, Option.bind_some]
  dsimp only
  rw [if_neg (not_not.2 (dirent_length _ _)), dirent_inum hinum, if_neg hne]
  by_cases hn : name = e.2
  · rw [if_pos (hcmp.2 hn), if_pos hn]
  · rw [if_neg (fun h0 => hn (hcmp.1 h0)), if_neg hn]

/-- **The loop of `dirlookup`** passes the entries with other names. -/
theorem dirLoop_spec (hname : IsName name) (hty : ip.type ≠ T_DEV) (hlt : ip.size < 2 ^ 32)
    {inum : Nat} {rest : List (Nat × List Byte)} (before : List (Nat × List Byte)) :
    ∀ (pre : List (Nat × List Byte)) {fuel : Nat},
    Stored disk ip (direntsOf (pre ++ (before ++ (inum, name) :: rest))) →
    (direntsOf (pre ++ (before ++ (inum, name) :: rest))).length ≤ ip.size →
    IsDir (pre ++ (before ++ (inum, name) :: rest)) → name ∉ before.map Prod.snd →
    before.length < fuel →
    dirLoop sb devread name fuel (16 * pre.length) ⟨disk, ip⟩ =
      some (some (inum, 16 * (pre.length + before.length)), ⟨disk, ip⟩) := by
  induction before with
  | nil =>
    intro pre fuel h hsize hdir _ hfuel
    obtain ⟨fuel, rfl⟩ := Nat.exists_eq_succ_of_ne_zero (Nat.ne_zero_of_lt hfuel)
    rw [List.nil_append] at h hsize hdir
    rw [dirLoop_step hname hty hlt h hsize hdir, if_pos rfl, List.length_nil, Nat.add_zero]
  | cons e before ih =>
    intro pre fuel h hsize hdir hnot hfuel
    obtain ⟨fuel, rfl⟩ := Nat.exists_eq_succ_of_ne_zero (Nat.ne_zero_of_lt hfuel)
    rw [List.map_cons, List.mem_cons, not_or] at hnot
    have happ : pre ++ (e :: before ++ (inum, name) :: rest) =
        (pre ++ [e]) ++ (before ++ (inum, name) :: rest) := by simp
    have hlen : (pre ++ [e]).length = pre.length + 1 := by simp
    rw [dirLoop_step hname hty hlt h hsize hdir, if_neg hnot.1, ← Nat.mul_succ]
    rw [happ] at h hsize hdir
    have hrest := ih (pre ++ [e]) h hsize hdir hnot.2 (Nat.lt_of_succ_lt_succ hfuel)
    rw [hlen] at hrest
    rw [hrest, List.length_cons]
    congr 4
    omega

/-- **`dirlookup` finds a name at its first entry.** -/
theorem dirlookup_spec (hname : IsName name) (hty : ip.type = T_DIR) (hlt : ip.size < 2 ^ 32)
    {inum : Nat} {before rest : List (Nat × List Byte)}
    (h : Stored disk ip (direntsOf (before ++ (inum, name) :: rest)))
    (hsize : (direntsOf (before ++ (inum, name) :: rest)).length ≤ ip.size)
    (hdir : IsDir (before ++ (inum, name) :: rest)) (hnot : name ∉ before.map Prod.snd) :
    dirlookup sb devread name ⟨disk, ip⟩ = some (some (inum, 16 * before.length), ⟨disk, ip⟩) := by
  have hfuel : before.length < ip.size := by
    rw [direntsOf_length, List.length_append, List.length_cons] at hsize
    omega
  have hloop : dirLoop sb devread name ip.size 0 ⟨disk, ip⟩ =
      some (some (inum, 16 * (0 + before.length)), ⟨disk, ip⟩) :=
    dirLoop_spec hname (by rw [hty]; decide) hlt before [] h hsize hdir hnot hfuel
  unfold dirlookup
  dsimp only
  rw [if_neg (not_not.2 hty), hloop, Nat.zero_add]

end Loop

/-! ## The files of the image -/

/-- **The inputs of `mkfs`**: they fit, and their names in the root are distinct names of a
directory, other than its own two. The run must also stay below block FSSIZE, where the
source's `rsect` fails; the image of the model goes on, so nothing here needs that bound. -/
structure Fitting (files : List Input) : Prop where
  room : files.length + 1 < NINODES
  size : ∀ f ∈ files, f.content.length ≤ MAXFILE * BSIZE
  names : ∀ f ∈ files, stored f.name ≠ [] ∧ IsName (stored f.name)
  dots : ∀ f ∈ files, stored f.name ≠ [46] ∧ stored f.name ≠ [46, 46]
  distinct : (files.map fun f => stored f.name).Nodup

/-- What the kernel finds under a name: an inode of the size of the file, and the bytes. -/
def Found (disk : Nat → Sector) (devread : Nat → Nat → Option (List Byte)) (f : Input) : Prop :=
  ∃ root inum off ip, ilock (readsb disk) ROOTINO disk = some root ∧
    dirlookup (readsb disk) devread (stored f.name) ⟨disk, root⟩ =
      some (some (inum, off), ⟨disk, root⟩) ∧
    ilock (readsb disk) inum disk = some ip ∧ ip.size = f.content.length ∧
    readi (readsb disk) devread 0 ip.size ⟨disk, ip⟩ = some (some f.content, ⟨disk, ip⟩)

theorem entriesFrom_append (n : Nat) (as bs : List Input) :
    entriesFrom n (as ++ bs) = entriesFrom n as ++ entriesFrom (n + as.length) bs := by
  unfold entriesFrom
  rw [List.zipIdx_append, List.map_append, Nat.add_comm]

theorem entriesFrom_names (n : Nat) (files : List Input) :
    (entriesFrom n files).map Prod.snd = files.map fun f => stored f.name := by
  have h : (files.zipIdx n).map ((fun f : Input => stored f.name) ∘ Prod.fst) =
      files.map fun f => stored f.name := by
    rw [← List.map_map, List.zipIdx_map_fst]
  unfold entriesFrom
  rw [List.map_map]
  exact h

theorem isName_dots : IsName [46] ∧ IsName [46, 46] :=
  ⟨⟨by decide, by decide⟩, ⟨by decide, by decide⟩⟩

theorem Fitting.isDir {files : List Input} (h : Fitting files) : IsDir (rootEntries files) := by
  intro e he
  unfold rootEntries at he
  rcases List.mem_cons.1 he with rfl | he
  · exact ⟨by decide, by decide, isName_dots.1⟩
  rcases List.mem_cons.1 he with rfl | he
  · exact ⟨by decide, by decide, isName_dots.2⟩
  obtain ⟨⟨f, k⟩, hf, rfl⟩ := List.mem_map.1 he
  have hmem : f ∈ files := List.fst_mem_of_mem_zipIdx hf
  have hlow : 2 ≤ k := List.le_snd_of_mem_zipIdx hf
  have hhigh : k < files.length + 2 := List.snd_lt_of_mem_zipIdx hf
  have hroom := h.room
  have hN : NINODES = 200 := rfl
  refine ⟨?_, ?_, (h.names f hmem).2⟩
  · show k ≠ 0
    omega
  · show k < 2 ^ 16
    omega

/-- The entry of a file, with the names before it. -/
theorem Fitting.rootEntries_split {files as bs : List Input} {f : Input} (h : Fitting files)
    (hf : files = as ++ f :: bs) :
    ∃ before rest, rootEntries files = before ++ (2 + as.length, stored f.name) :: rest ∧
      stored f.name ∉ before.map Prod.snd := by
  refine ⟨(1, [46]) :: (1, [46, 46]) :: entriesFrom 2 as, entriesFrom (2 + as.length + 1) bs, ?_, ?_⟩
  · unfold rootEntries
    rw [hf, entriesFrom_append]
    rfl
  · rw [List.map_cons, List.map_cons, entriesFrom_names]
    have hdots := h.dots f (hf ▸ List.mem_append_right _ List.mem_cons_self)
    have hdis := h.distinct
    rw [hf, List.map_append, List.map_cons] at hdis
    have hnot := (List.disjoint_of_nodup_append hdis)
    intro hmem
    rcases List.mem_cons.1 hmem with hm | hmem
    · exact hdots.1 hm
    rcases List.mem_cons.1 hmem with hm | hmem
    · exact hdots.2 hm
    exact hnot hmem List.mem_cons_self

/-- On the image, the kernel finds each file under its name. -/
theorem Fitting.found {files : List Input} (h : Fitting files) {s : State}
    (hs : image files = some s) (devread : Nat → Nat → Option (List Byte)) {f : Input}
    (hf : f ∈ files) : Found s.disk devread f := by
  obtain ⟨t, ht, hsuper, hroot, htype, hsize, hfiles⟩ :=
    image_spec h.room h.size (image_slash hs)
  obtain rfl : s = t := Option.some.inj (hs.symm.trans ht)
  obtain ⟨as, bs, hsplit⟩ := List.append_of_mem hf
  obtain ⟨before, rest, hes, hnot⟩ := h.rootEntries_split hsplit
  have hmem : (f, 2 + as.length) ∈ files.zipIdx 2 := by
    rw [List.mk_mem_zipIdx_iff_le_and_getElem?_sub, hsplit]
    exact ⟨Nat.le_add_right _ _, by simp⟩
  obtain ⟨hheld, hftype, hfsize⟩ := hfiles f _ hmem
  have hlt : ∀ i, (rinode i s).size < 2 ^ 32 := fun i => getNum_lt _ 4 _
  have hle : (direntsOf (rootEntries files)).length ≤ (rinode 1 s).size := by
    rw [hsize]
    exact (end_of_div rfl).1.le
  unfold Found
  rw [readsb_eq hsuper]
  refine ⟨rinode 1 s, 2 + as.length, 16 * before.length, rinode (2 + as.length) s,
    ilock_eq s (by rw [htype]; decide), ?_, ilock_eq s (by rw [hftype]; decide), hfsize, ?_⟩
  · have hdir := h.isDir
    rw [hes] at hroot hle hdir
    obtain ⟨use, nb, hfile⟩ := hroot
    exact dirlookup_spec (h.names f hf).2 htype (hlt 1) ⟨use, 1, nb, hfile⟩ hle hdir hnot
  · obtain ⟨use, nb, hfile⟩ := hheld
    rw [hfsize, readi_spec ⟨use, _, nb, hfile⟩ (by rw [hftype]; decide) (by omega) hfsize.ge
      (hlt _), List.drop_zero, List.take_length]

/-- **`mkfs` and the kernel agree.** The image is made unless a name has a slash in it, and
the kernel finds every input under its name, with its length and its bytes. -/
theorem dirlookup_readi_image {files : List Input} (h : Fitting files)
    (devread : Nat → Nat → Option (List Byte)) :
    (image files = none ↔ ∃ f ∈ files, f.name.contains 47 = true) ∧
      ∀ s, image files = some s → ∀ f ∈ files, Found s.disk devread f := by
  refine ⟨⟨fun hnone => ?_, fun ⟨f, hf, hslash⟩ => ?_⟩, fun s hs f hf => h.found hs devread hf⟩
  · by_contra hno
    obtain ⟨s, hs, -⟩ := image_spec h.room h.size fun f hf => by
      by_contra hc
      exact hno ⟨f, hf, by simpa using hc⟩
    rw [hnone] at hs
    exact absurd hs.symm (Option.some_ne_none s)
  · by_contra hsome
    obtain ⟨s, hs⟩ := Option.ne_none_iff_exists'.1 hsome
    rw [image_slash hs f hf] at hslash
    exact Bool.noConfusion hslash

/-- Two files, the first read in two parts. -/
theorem dirlookup_readi_image_two : ∃ s,
    image [⟨[95, 115, 104], [[1, 2], [3]]⟩, ⟨[99, 97, 116], []⟩] = some s ∧
      Found s.disk (fun _ _ => none) ⟨[95, 115, 104], [[1, 2], [3]]⟩ := by
  have h : Fitting [⟨[95, 115, 104], [[1, 2], [3]]⟩, ⟨[99, 97, 116], []⟩] := by
    refine ⟨by decide, by decide, ?_, by decide, by decide⟩
    intro f hf
    rcases List.mem_cons.1 hf with rfl | hf
    · exact ⟨by decide, by decide, by decide⟩
    · rw [List.mem_singleton.1 hf]
      exact ⟨by decide, by decide, by decide⟩
  obtain ⟨hmade, hfound⟩ := dirlookup_readi_image h fun _ _ => none
  have hsome : image [⟨[95, 115, 104], [[1, 2], [3]]⟩, ⟨[99, 97, 116], []⟩] ≠ none := by
    rw [Ne, hmade]
    decide
  obtain ⟨s, hs⟩ := Option.ne_none_iff_exists'.1 hsome
  exact ⟨s, hs, hfound s hs _ List.mem_cons_self⟩

end Xv6.Mkfs.Kernel
