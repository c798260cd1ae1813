/-
The bytes of files (`fs.c`).

`writei` writes over the bytes of a file and past its end; the blocks for them are those that
`bmap` finds or allocates. `itrunc` gives all blocks of a file back. What holds between two
calls (`Inv`) is that each file has its bytes in blocks of its own and that the bitmap on the
disk says so.

The inodes are in memory, locked by the caller. Writes go through the buffer cache, and the
disk here is what it shows.
-/
import Xv6.Kernel.Grow

set_option autoImplicit false

namespace Xv6.Kernel.Files

open Xv6.Lib Xv6.Mkfs Xv6.Mkfs.Kernel

/-! ## The code -/

/-- `iupdate`: the inode goes to its place on the disk. -/
def iupdate (sb : Superblock) (inum : Nat) (s : Open) : Open :=
  let at_ := inum % IPB * 64
  let buf := dinodeIn at_ s.ip (s.disk (Kernel.IBLOCK inum sb))
  { s with disk := Function.update s.disk (Kernel.IBLOCK inum sb) buf }

/-- The loop of `writei`, with fuel; `none` is the panic of `balloc`. -/
def writeLoop (sb : Superblock) : Nat → Nat → Nat → Nat → List Byte → Open → Option Open
  | 0, _, _, _, _, s => some s
  | fuel + 1, n, tot, off, src, s =>
    if tot < n then
      (bmap sb (off / BSIZE) s).bind fun (b, s) =>
        let m := min (n - tot) (BSIZE - off % BSIZE)
        let disk := Function.update s.disk b (putBytes (s.disk b) (off % BSIZE) (src.take m))
        writeLoop sb fuel n (tot + m) (off + m) (src.drop m) { s with disk := disk }
    else some s

/-- `writei`, and what it returns. `devwrite` is what `devsw` has for a major number. -/
def writei (sb : Superblock) (devwrite : Nat → List Byte → Int) (inum off : Nat)
    (src : List Byte) (s : Open) : Option (Int × Open) :=
  let n := src.length
  if s.ip.type = T_DEV then some (devwrite s.ip.major src, s)
  else if off > s.ip.size ∨ (off + n) % 2 ^ 32 < off then some (-1, s)
  else if (off + n) % 2 ^ 32 > MAXFILE * BSIZE then some (-1, s)
  else
    (writeLoop sb n n 0 off src s).map fun s =>
      if n > 0 ∧ off + n > s.ip.size then
        (n, iupdate sb inum { s with ip := { s.ip with size := off + n } })
      else (n, s)

/-- One turn of the loops of `itrunc`: the block of an address is freed. -/
def freeAddr (sb : Superblock) (addr : Nat) (disk : Nat → Sector) : Option (Nat → Sector) :=
  if addr ≠ 0 then bfree sb addr disk else some disk

/-- `itrunc`; `none` is the panic of `bfree`. -/
def itrunc (sb : Superblock) (inum : Nat) (s : Open) : Option Open := do
  let disk ← (List.range NDIRECT).foldlM (fun disk i => freeAddr sb (s.ip.addrs i) disk) s.disk
  let ip : Dinode := { s.ip with addrs := fun i => if i < NDIRECT then 0 else s.ip.addrs i }
  let (ip, disk) ← if ip.addrs NDIRECT ≠ 0 then do
      let a := disk (ip.addrs NDIRECT)
      let disk ← (List.range NINDIRECT).foldlM
        (fun disk j => freeAddr sb (getNum a (4 * j) 4) disk) disk
      let disk ← bfree sb (ip.addrs NDIRECT) disk
      pure (ip.setAddr NDIRECT 0, disk)
    else pure (ip, disk)
  return iupdate sb inum ⟨disk, { ip with size := 0 }⟩

/-! ## Inodes in memory -/

/-- The disk, and the inodes in memory. -/
structure Fs where
  disk : Nat → Sector
  ip : Nat → Dinode

namespace Fs

/-- The inode `i`, open. -/
def view (s : Fs) (i : Nat) : Open := ⟨s.disk, s.ip i⟩

/-- What a call on the inode `i` has left. -/
def put (s : Fs) (i : Nat) (o : Open) : Fs := ⟨o.disk, Function.update s.ip i o.ip⟩

@[simp] theorem view_put (s : Fs) (i : Nat) (o : Open) : (s.put i o).view i = o :=
  congrArg (Open.mk o.disk) (Function.update_self _ _ _)

@[simp] theorem put_put (s : Fs) (i : Nat) (o o' : Open) : (s.put i o).put i o' = s.put i o' :=
  congrArg (Fs.mk o'.disk) (Function.update_idem _ _ _)

@[simp] theorem put_view (s : Fs) (i : Nat) : s.put i (s.view i) = s :=
  congrArg (Fs.mk s.disk) (Function.update_eq_self _ _)

theorem put_ip (s : Fs) (i : Nat) (o : Open) : (s.put i o).ip i = o.ip := Function.update_self _ _ _

end Fs

/-! ## The invariant -/

/-- The files have the blocks of `use`, as the bitmap says, and `con` is in them. -/
structure Inv (sb : Superblock) (nmeta : Nat) (s : Fs) (use : Use) (nb : Nat → Nat)
    (con : Nat → List Byte) : Prop where
  bits : Bits sb nmeta s.disk use
  use_lt : ∀ b o, use b = some o → nmeta ≤ b ∧ b < sb.size
  owned : ∀ b i k, use b = some (i, k) → i < sb.ninodes ∧
    (k < nb i ∧ blockAt s.disk (s.ip i) k = b ∨ k = MAXFILE ∧ (s.ip i).addrs NDIRECT = b)
  file : ∀ i, i < sb.ninodes → FileOk s.disk use i (s.ip i) (nb i) (con i)

variable {sb : Superblock} {nmeta : Nat} {s : Fs} {use use' : Use} {nb : Nat → Nat}
  {con : Nat → List Byte} {i k b m : Nat} {disk' : Nat → Sector} {ip' : Dinode} {c' : List Byte}

theorem blockAt_congr {disk : Nat → Sector} {ip : Dinode}
    (h : ip.addrs NDIRECT ≠ 0 → disk' (ip.addrs NDIRECT) = disk (ip.addrs NDIRECT)) (k : Nat) :
    blockAt disk' ip k = blockAt disk ip k := by
  rw [blockAt, blockAt]
  by_cases hx : ip.addrs NDIRECT = 0
  · rw [if_pos hx, if_pos hx]
  · rw [h hx]

/-- A file in a new state, with the others as they were. -/
theorem Inv.put (h : Inv sb nmeta s use nb con) (hi : i < sb.ninodes)
    (hbits : Bits sb nmeta disk' use')
    (hd : ∀ b j k, j ≠ i → use b = some (j, k) → disk' b = s.disk b)
    (hu : ∀ b j k, j ≠ i → (use' b = some (j, k) ↔ use b = some (j, k)))
    (hlt : ∀ b k, use' b = some (i, k) → nmeta ≤ b ∧ b < sb.size)
    (ho : ∀ b k, use' b = some (i, k) →
      k < m ∧ blockAt disk' ip' k = b ∨ k = MAXFILE ∧ ip'.addrs NDIRECT = b)
    (hf : FileOk disk' use' i ip' m c') :
    Inv sb nmeta (s.put i ⟨disk', ip'⟩) use' (Function.update nb i m)
      (Function.update con i c') := by
  have hself : (s.put i ⟨disk', ip'⟩).ip i = ip' := Function.update_self _ _ _
  have hother : ∀ j, j ≠ i → (s.put i ⟨disk', ip'⟩).ip j = s.ip j :=
    fun j hji => Function.update_of_ne hji _ _
  refine ⟨hbits, fun b o hb => ?_, fun b j k hb => ?_, fun j hj => ?_⟩
  · obtain ⟨j, k⟩ := o
    by_cases hji : j = i
    · exact hlt b k (hji ▸ hb)
    · exact h.use_lt b _ ((hu b j k hji).1 hb)
  · by_cases hji : j = i
    · subst hji
      rw [hself, Function.update_self]
      exact ⟨hi, ho b k hb⟩
    · rw [hother j hji, Function.update_of_ne hji]
      obtain ⟨hj, hat⟩ := h.owned b j k ((hu b j k hji).1 hb)
      refine ⟨hj, hat.imp_left fun hat => ⟨hat.1, Eq.trans ?_ hat.2⟩⟩
      exact blockAt_congr (fun hx => hd _ _ _ hji ((h.file j hj).usedIndirect hx)) k
  · by_cases hji : j = i
    · subst hji
      rw [hself, Function.update_self, Function.update_self]
      exact hf
    · rw [hother j hji, Function.update_of_ne hji, Function.update_of_ne hji]
      exact (h.file j hj).congr (fun b k hb => hd b j k hji hb)
        fun b k hb => (hu b j k hji).2 hb

/-! ## A block more -/

theorem add_of_none {o : Nat × Nat} (hb : use b = none) {x : Nat} {o' : Nat × Nat} :
    use.add b o x = some o' ↔ use x = some o' ∨ x = b ∧ o = o' := by
  rw [Use.add, Function.update_apply]
  split
  case isTrue hxb =>
    subst hxb
    rw [hb]
    simp
  case isFalse hxb => simp [hxb]

/-- The state after `balloc`, before the block is linked into the file. -/
theorem Inv.grown (hL : Layout sb nmeta) (h : Inv sb nmeta s use nb con) (hi : i < sb.ninodes)
    (hb : balloc sb s.disk = some (b, disk')) (k : Nat) :
    (b ≠ 0 ∧ b < 2 ^ 32) ∧ disk' b = zeroes ∧ use.add b (i, k) b = some (i, k) ∧
      (∀ x o, use x = some o → disk' x = s.disk x) ∧
      FileOk disk' (use.add b (i, k)) i (s.ip i) (nb i) (con i) := by
  obtain ⟨⟨hmeta, hlt, hnone⟩, hz, hsame, -⟩ := balloc_spec hL h.bits (i, k) hb
  have hd : ∀ x o, use x = some o → disk' x = s.disk x := by
    intro x o hx
    refine hsame x (h.use_lt x o hx).1 ?_
    rintro rfl
    rw [hnone] at hx
    cases hx
  have hpos := hL.pos
  have hsize := hL.size
  refine ⟨⟨by omega, by omega⟩, hz, Function.update_self _ _ _, hd, ?_⟩
  exact (h.file i hi).congr (fun x j hx => hd x _ hx)
    fun x j hx => (add_of_none hnone).2 (Or.inl hx)

/-- The new block is linked into the file. -/
theorem Inv.link (hL : Layout sb nmeta) (h : Inv sb nmeta s use nb con) (hi : i < sb.ninodes)
    (hb : balloc sb s.disk = some (b, disk')) {disk'' : Nat → Sector}
    (hd : ∀ x, (∀ l, use x ≠ some (i, l)) → disk'' x = disk' x)
    (hm : nb i ≤ m) (hat : ∀ j, j < nb i → blockAt disk'' ip' j = blockAt s.disk (s.ip i) j)
    (hx : (s.ip i).addrs NDIRECT ≠ 0 → ip'.addrs NDIRECT = (s.ip i).addrs NDIRECT)
    (hnew : k < m ∧ blockAt disk'' ip' k = b ∨ k = MAXFILE ∧ ip'.addrs NDIRECT = b)
    (hf : FileOk disk'' (use.add b (i, k)) i ip' m (con i)) :
    Inv sb nmeta (s.put i ⟨disk'', ip'⟩) (use.add b (i, k)) (Function.update nb i m)
      (Function.update con i (con i)) := by
  obtain ⟨⟨hmeta, hlt, hnone⟩, -, hsame, hbits⟩ := balloc_spec hL h.bits (i, k) hb
  have hold : ∀ x o, use x = some o → disk' x = s.disk x := (h.grown hL hi hb k).2.2.2.1
  have hpos := hL.pos
  refine h.put hi (fun x hx' => ?_) (fun x j l hji hx' => ?_) (fun x j l hji => ?_)
    (fun x l hx' => ?_) (fun x l hx' => ?_) hf
  · -- the bitmap is in no block of the file
    rw [isFree_congr (hd _ fun l hu => ?_)]
    · exact hbits x hx'
    · exact Nat.not_le.2 (hL.bitmap x hx') (h.use_lt _ _ hu).1
  · rw [hd x fun l hu => hji (Prod.mk.inj (Option.some.inj (hx'.symm.trans hu))).1]
    exact hold x _ hx'
  · rw [add_of_none hnone]
    exact or_iff_left fun hn => hji (Prod.mk.inj hn.2).1.symm
  · rcases (add_of_none hnone).1 hx' with hx' | ⟨rfl, -⟩
    · exact h.use_lt x _ hx'
    · exact ⟨hmeta, hlt⟩
  · rcases (add_of_none hnone).1 hx' with hx' | ⟨rfl, he⟩
    · have hne : x ≠ 0 := (hpos.trans_le (h.use_lt x _ hx').1).ne'
      rcases (h.owned x i l hx').2 with ⟨hl, hb'⟩ | ⟨hl, hb'⟩
      · exact Or.inl ⟨hl.trans_le hm, (hat l hl).trans hb'⟩
      · exact Or.inr ⟨hl, (hx (hb' ▸ hne)).trans hb'⟩
    · rw [← (Prod.mk.inj he).2]
      exact hnew

/-- A direct block. -/
theorem Inv.takeDirect (hL : Layout sb nmeta) (h : Inv sb nmeta s use nb con)
    (hi : i < sb.ninodes) (hk : k < NDIRECT) (hnb : nb i = k)
    (hb : balloc sb s.disk = some (b, disk')) :
    ∃ use', Inv sb nmeta (s.put i ⟨disk', (s.ip i).setAddr k b⟩) use'
      (Function.update nb i (k + 1)) con := by
  obtain ⟨⟨hb0, -⟩, -, hown, hold, hf⟩ := h.grown hL hi hb k
  have hxx : ((s.ip i).setAddr k b).addrs NDIRECT = (s.ip i).addrs NDIRECT := if_neg hk.ne'
  refine ⟨use.add b (i, k), ?_⟩
  rw [← Function.update_eq_self i con]
  refine h.link hL hi hb (fun _ _ => rfl) (hnb.trans_le (Nat.le_succ k)) (fun j hj => ?_)
    (fun _ => hxx) (Or.inl ⟨Nat.lt_succ_self k, ?_⟩) ?_
  · have hjk : j < k := hj.trans_eq hnb
    rw [blockAt, blockAt, if_pos (hjk.trans hk), if_pos (hjk.trans hk)]
    exact if_neg hjk.ne
  · rw [blockAt, if_pos hk]
    exact if_pos rfl
  · rw [hnb] at hf
    exact hf.addDirect hk hb0 hown

/-- The indirect block. -/
theorem Inv.takeIndirect (hL : Layout sb nmeta) (h : Inv sb nmeta s use nb con)
    (hi : i < sb.ninodes) (hx : (s.ip i).addrs NDIRECT = 0)
    (hb : balloc sb s.disk = some (b, disk')) :
    ∃ use', Inv sb nmeta (s.put i ⟨disk', (s.ip i).setAddr NDIRECT b⟩) use' nb con := by
  obtain ⟨⟨hb0, -⟩, hz, hown, hold, hf⟩ := h.grown hL hi hb MAXFILE
  refine ⟨use.add b (i, MAXFILE), ?_⟩
  rw [← Function.update_eq_self i con, ← Function.update_eq_self i nb]
  refine h.link hL hi hb (fun _ _ => rfl) le_rfl (fun j hj => ?_) (fun h0 => absurd hx h0)
    (Or.inr ⟨rfl, by rw [FileOk.setAddr_addrs, if_pos rfl]⟩) (hf.addIndirect hx hb0 hown hz)
  -- there is no entry yet
  have hj' : j < NDIRECT := by
    by_contra hge
    exact (h.file i hi).indirect ((not_lt.1 hge).trans_lt hj) hx
  rw [blockAt, blockAt, if_pos hj', if_pos hj']
  exact if_neg hj'.ne

/-- A block that the indirect block points to. -/
theorem Inv.takeEntry (hL : Layout sb nmeta) (h : Inv sb nmeta s use nb con)
    (hi : i < sb.ninodes) (hk : NDIRECT ≤ k) (hkm : k < MAXFILE) (hnb : nb i = k)
    (hx : (s.ip i).addrs NDIRECT ≠ 0) (hb : balloc sb s.disk = some (b, disk')) :
    ∃ use', Inv sb nmeta (s.put i ⟨Function.update disk' ((s.ip i).addrs NDIRECT)
      (putNum (s.disk ((s.ip i).addrs NDIRECT)) (4 * (k - NDIRECT)) 4 b), s.ip i⟩) use'
      (Function.update nb i (k + 1)) con := by
  obtain ⟨⟨hb0, hlt⟩, -, hown, hold, hf⟩ := h.grown hL hi hb k
  have hux := (h.file i hi).usedIndirect hx
  set a := (s.ip i).addrs NDIRECT with ha
  set disk'' := Function.update disk' a (putNum (s.disk a) (4 * (k - NDIRECT)) 4 b) with hdisk
  have hself : disk'' a = putNum (s.disk a) (4 * (k - NDIRECT)) 4 b := Function.update_self _ _ _
  refine ⟨use.add b (i, k), ?_⟩
  rw [← Function.update_eq_self i con]
  refine h.link hL hi hb (fun x hxu => Function.update_of_ne ?_ _ _)
    (hnb.trans_le (Nat.le_succ k)) (fun j hj => ?_) (fun _ => rfl)
    (Or.inl ⟨Nat.lt_succ_self k, ?_⟩) ?_
  · rintro rfl
    exact hxu _ hux
  · rw [blockAt, blockAt, ← ha, if_neg hx, hself]
    by_cases hj' : j < NDIRECT
    · rw [if_pos hj', if_pos hj']
    · rw [if_neg hj', if_neg hj', if_neg hx]
      exact getNum_putNum_of_disjoint _ _ (by omega)
  · rw [blockAt, ← ha, if_neg hk.not_gt, if_neg hx, hself]
    exact getNum_putNum _ _ _ _ (by norm_num at hlt ⊢; exact hlt)
  · rw [hnb] at hf
    have hadd := hf.addEntry hk hkm hx hb0 hlt hown
    rw [← ha, hold a _ hux] at hadd
    exact hadd

/-- What a call that looks up or allocates blocks leaves alone. -/
structure Beside (sb : Superblock) (o o' : Open) : Prop where
  rest : o'.ip = { o.ip with addrs := o'.ip.addrs }
  inodes : SameInodes sb o.disk o'.disk

theorem Beside.refl (sb : Superblock) (o : Open) : Beside sb o o := ⟨rfl, fun _ _ => rfl⟩

theorem Beside.trans {o o' o'' : Open} (h : Beside sb o o') (h' : Beside sb o' o'') :
    Beside sb o o'' :=
  ⟨h'.rest.trans (congrArg (fun ip : Dinode => { ip with addrs := o''.ip.addrs }) h.rest),
    h.inodes.trans h'.inodes⟩

/-- **`bmap`** of a block of the file or of the next one. -/
theorem Inv.bmap (hL : Layout sb nmeta) (h : Inv sb nmeta s use nb con) (hi : i < sb.ninodes)
    (hk : k ≤ nb i) (hkm : k < MAXFILE) {a : Nat} {o : Open}
    (hb : bmap sb k (s.view i) = some (a, o)) :
    ∃ use', Inv sb nmeta (s.put i o) use' (Function.update nb i (max (nb i) (k + 1))) con ∧
      blockAt o.disk o.ip k = a ∧ Beside sb (s.view i) o ∧ (k < nb i → o = s.view i) := by
  have hf := h.file i hi
  by_cases hlt : k < nb i
  · -- the block is there
    rw [Fs.view, bmap_spec hf hlt] at hb
    obtain ⟨rfl, rfl⟩ := Prod.mk.inj (Option.some.inj hb)
    refine ⟨use, ?_, rfl, Beside.refl sb _, fun _ => rfl⟩
    rw [max_eq_left hlt, Function.update_eq_self]
    exact (s.put_view i).symm ▸ h
  have hnb : nb i = k := le_antisymm (not_lt.1 hlt) hk
  have hmax : max (nb i) (k + 1) = k + 1 := max_eq_right (hnb.trans_le (Nat.le_succ k))
  have hat : blockAt s.disk (s.ip i) k = 0 := not_not.1 (mt (hf.some_iff k hkm).1 hlt)
  rw [hmax]
  rw [Fs.view] at hb
  unfold Kernel.bmap at hb
  dsimp only at hb
  by_cases hd : k < NDIRECT
  · rw [blockAt, if_pos hd] at hat
    rw [if_pos hd, if_pos hat] at hb
    obtain ⟨⟨b, disk'⟩, hball, hb⟩ := Option.map_eq_some_iff.1 hb
    obtain ⟨rfl, rfl⟩ := Prod.mk.inj hb
    obtain ⟨use', h'⟩ := h.takeDirect hL hi hd hnb hball
    refine ⟨use', h', ?_, ⟨rfl, balloc_inodes hL h.bits hball⟩, fun hlt' => absurd hlt' hlt⟩
    rw [blockAt, if_pos hd, FileOk.setAddr_addrs, if_pos rfl]
  have hM : MAXFILE = NDIRECT + NINDIRECT := rfl
  rw [if_neg hd, if_pos (by omega)] at hb
  obtain ⟨o₁, hx, hb⟩ := Option.bind_eq_some_iff.1 hb
  -- the file with its indirect block
  obtain ⟨use₁, h₁, hne, hbes₁⟩ : ∃ use₁, Inv sb nmeta (s.put i o₁) use₁ nb con ∧
      o₁.ip.addrs NDIRECT ≠ 0 ∧ Beside sb (s.view i) o₁ := by
    by_cases hx0 : (s.ip i).addrs NDIRECT = 0
    · rw [if_pos hx0] at hx
      obtain ⟨⟨b, disk'⟩, hball, rfl⟩ := Option.map_eq_some_iff.1 hx
      obtain ⟨use', h'⟩ := h.takeIndirect hL hi hx0 hball
      refine ⟨use', h', ?_, rfl, balloc_inodes hL h.bits hball⟩
      rw [FileOk.setAddr_addrs, if_pos rfl]
      exact (h.grown hL hi hball MAXFILE).1.1
    · rw [if_neg hx0] at hx
      obtain rfl := Option.some.inj hx
      exact ⟨use, (s.put_view i).symm ▸ h, hx0, Beside.refl sb _⟩
  have hip : (s.put i o₁).ip i = o₁.ip := s.put_ip i o₁
  have hf₁ := h₁.file i hi
  rw [hip] at hf₁
  have hat₁ : blockAt o₁.disk o₁.ip k = 0 := not_not.1 (mt (hf₁.some_iff k hkm).1 hlt)
  rw [blockAt, if_neg hd, if_neg hne] at hat₁
  rw [if_pos hat₁] at hb
  obtain ⟨⟨b, disk'⟩, hball, hb⟩ := Option.map_eq_some_iff.1 hb
  obtain ⟨rfl, rfl⟩ := Prod.mk.inj hb
  obtain ⟨use', h'⟩ := h₁.takeEntry hL hi (not_lt.1 hd) hkm hnb (hip.symm ▸ hne) hball
  rw [hip, Fs.put_put] at h'
  have hmeta := (h₁.use_lt _ _ (hf₁.usedIndirect hne)).1
  refine ⟨use', h', ?_, hbes₁.trans ⟨rfl, (balloc_inodes hL h₁.bits hball).trans
    (SameInodes.update hL hmeta _)⟩, fun hlt' => absurd hlt' hlt⟩
  have hb32 := (h₁.grown hL hi hball k).1.2
  rw [blockAt, if_neg hd, if_neg hne]
  dsimp only
  rw [Function.update_self]
  exact getNum_putNum _ _ _ _ (by norm_num at hb32 ⊢; exact hb32)

/-! ## Writing -/

/-- `memmove` into a block of the file. -/
theorem Inv.store (hL : Layout sb nmeta) (h : Inv sb nmeta s use nb con) (hi : i < sb.ninodes)
    (hk : k < nb i) {r : Nat} {p : List Byte} (hr : r + p.length ≤ BSIZE)
    (hc : k * BSIZE + r ≤ (con i).length) (hat : blockAt s.disk (s.ip i) k = b) :
    Inv sb nmeta (s.put i ⟨Function.update s.disk b (putBytes (s.disk b) r p), s.ip i⟩) use nb
        (Function.update con i (splice (con i) (k * BSIZE + r) p)) ∧
      SameInodes sb s.disk (Function.update s.disk b (putBytes (s.disk b) r p)) := by
  have hf := h.file i hi
  have hub := hf.used k hk
  have hw := hf.write hk hr hc
  rw [hat] at hub hw
  have hmeta := (h.use_lt _ _ hub).1
  refine ⟨?_, SameInodes.update hL hmeta _⟩
  rw [← Function.update_eq_self i nb]
  refine h.put hi (fun x hx => ?_) (fun x j l hji hx => Function.update_of_ne ?_ _ _)
    (fun _ _ _ _ => Iff.rfl) (fun x l hx => h.use_lt x _ hx) (fun x l hx => ?_) hw
  · rw [isFree_congr (Function.update_of_ne ((hL.bitmap x hx).trans_le hmeta).ne _ _)]
    exact h.bits x hx
  · rintro rfl
    exact hji (Prod.mk.inj (Option.some.inj (hx.symm.trans hub))).1
  · refine (h.owned x i l hx).2.imp_left fun hl => ⟨hl.1, Eq.trans ?_ hl.2⟩
    exact blockAt_congr (fun hx => Function.update_of_ne
      (fun he => hf.ne_indirect hx hk (hat.trans he.symm)) _ _) l

/-- A block more, which the file reaches into. -/
theorem tight_max {n : Nat} {c : List Byte} (ht : Tight n c) (hc : c.length ≤ c'.length)
    (hk : k * BSIZE < c'.length) : Tight (max n (k + 1)) c' := by
  rcases max_cases n (k + 1) with ⟨he, -⟩ | ⟨he, -⟩
  · rw [Tight, he]
    exact lt_of_lt_of_le ht (Nat.add_le_add_right hc BSIZE)
  · rw [Tight, he, Nat.add_one_mul]
    exact Nat.add_lt_add_right hk BSIZE

/-- A place up to the end of a file is in one of its blocks or in the next one. -/
theorem Inv.div_le (h : Inv sb nmeta s use nb con) (hi : i < sb.ninodes) {off : Nat}
    (hoff : off ≤ (con i).length) : off / BSIZE ≤ nb i :=
  Nat.div_le_of_le_mul (by rw [Nat.mul_comm]; exact hoff.trans (h.file i hi).cover)

/-- One turn of the loop of `writei`: the bytes `p` go into the block of `off`. -/
theorem Inv.turn (hL : Layout sb nmeta) (h : Inv sb nmeta s use nb con) (hi : i < sb.ninodes)
    {off : Nat} {p : List Byte} (hoff : off ≤ (con i).length)
    (hp : off % BSIZE + p.length ≤ BSIZE) (hkm : off / BSIZE < MAXFILE) {a : Nat} {o : Open}
    (hb : Kernel.bmap sb (off / BSIZE) (s.view i) = some (a, o)) {disk₂ : Nat → Sector}
    (hd : Function.update o.disk a (putBytes (o.disk a) (off % BSIZE) p) = disk₂) :
    ∃ use', Inv sb nmeta (s.put i ⟨disk₂, o.ip⟩) use'
        (Function.update nb i (max (nb i) (off / BSIZE + 1)))
        (Function.update con i (splice (con i) off p)) ∧
      Beside sb (s.view i) ⟨disk₂, o.ip⟩ ∧ (off / BSIZE < nb i → o.ip = s.ip i) := by
  subst hd
  have hdm : off / BSIZE * BSIZE + off % BSIZE = off := Nat.div_add_mod' off BSIZE
  obtain ⟨use₁, h₁, hat, hbes, hsame⟩ := h.bmap hL hi (h.div_le hi hoff) hkm hb
  have hk₁ : off / BSIZE < Function.update nb i (max (nb i) (off / BSIZE + 1)) i := by
    rw [Function.update_self]
    exact lt_max_of_lt_right (Nat.lt_succ_self _)
  have hip₁ : (s.put i o).ip i = o.ip := s.put_ip i o
  obtain ⟨h₂, hino⟩ := h₁.store (b := a) (r := off % BSIZE) hL hi hk₁ hp
    (by rw [hdm]; exact hoff) (by rw [hip₁]; exact hat)
  rw [hip₁, hdm, Fs.put_put] at h₂
  exact ⟨use₁, h₂, hbes.trans ⟨rfl, hino⟩, fun hlt => congrArg Open.ip (hsame hlt)⟩

/-- **The loop of `writei`.** A write that does not go beyond the end allocates no block. -/
theorem Inv.writeLoop_spec (hL : Layout sb nmeta) (hi : i < sb.ninodes) (fuel : Nat) :
    ∀ {s : Fs} {use : Use} {nb : Nat → Nat} {con : Nat → List Byte} {n tot off : Nat}
      {src : List Byte} {o : Open}, Inv sb nmeta s use nb con → Tight (nb i) (con i) →
    src.length = n - tot → src.length ≤ fuel → off ≤ (con i).length →
    off + src.length ≤ MAXFILE * BSIZE → writeLoop sb fuel n tot off src (s.view i) = some o →
    ∃ use' m, Inv sb nmeta (s.put i o) use' (Function.update nb i m)
        (Function.update con i (splice (con i) off src)) ∧ Tight m (splice (con i) off src) ∧
      Beside sb (s.view i) o ∧ (off + src.length ≤ (con i).length → o.ip = s.ip i) := by
  -- the loop stops when nothing is left
  have stop : ∀ {s : Fs} {use : Use} {nb : Nat → Nat} {con : Nat → List Byte} {off : Nat}
      {src : List Byte} {o : Open}, Inv sb nmeta s use nb con → Tight (nb i) (con i) →
      src.length = 0 → some (s.view i) = some o →
      ∃ use' m, Inv sb nmeta (s.put i o) use' (Function.update nb i m)
          (Function.update con i (splice (con i) off src)) ∧ Tight m (splice (con i) off src) ∧
        Beside sb (s.view i) o ∧ (off + src.length ≤ (con i).length → o.ip = s.ip i) := by
    intro s use nb con off src o h ht hnil ho
    obtain rfl := List.eq_nil_of_length_eq_zero hnil
    obtain rfl := Option.some.inj ho
    rw [splice_nil, Function.update_eq_self]
    refine ⟨use, nb i, ?_, ht, Beside.refl sb _, fun _ => rfl⟩
    rw [Function.update_eq_self, Fs.put_view]
    exact h
  induction fuel with
  | zero =>
    intro s use nb con n tot off src o h ht _ hfuel _ _ ho
    exact stop h ht (Nat.le_zero.1 hfuel) ho
  | succ fuel ih =>
    intro s use nb con n tot off src o h ht hlen hfuel hoff hmax ho
    unfold writeLoop at ho
    by_cases hlt : tot < n
    case neg =>
      rw [if_neg hlt] at ho
      exact stop h ht (hlen.trans (Nat.sub_eq_zero_of_le (not_lt.1 hlt))) ho
    rw [if_pos hlt] at ho
    obtain ⟨⟨a, o₁⟩, hb, ho⟩ := Option.bind_eq_some_iff.1 ho
    have hB : 0 < BSIZE := by decide
    have hmod := Nat.mod_lt off hB
    have hkm : off / BSIZE < MAXFILE := (Nat.div_lt_iff_lt_mul hB).2 (by omega)
    set m := min (n - tot) (BSIZE - off % BSIZE) with hm
    have htake : (src.take m).length = m := by
      rw [List.length_take]
      omega
    have hdrop : (src.drop m).length = src.length - m := List.length_drop
    obtain ⟨use₂, h₂, hbes₂, hsame₂⟩ :=
      h.turn (p := src.take m) hL hi hoff (by omega) hkm hb rfl
    have hlen₂ := length_splice hoff (src.take m)
    rw [htake] at hlen₂
    have hcon₂ : Function.update con i (splice (con i) off (src.take m)) i =
        splice (con i) off (src.take m) := Function.update_self _ _ _
    have ht₂ : Tight (Function.update nb i (max (nb i) (off / BSIZE + 1)) i)
        (Function.update con i (splice (con i) off (src.take m)) i) := by
      rw [Function.update_self, hcon₂]
      exact tight_max ht (by omega) ((Nat.div_mul_le_self off BSIZE).trans_lt (by omega))
    have hleft : (src.drop m).length = n - (tot + m) := by omega
    have hoff₂ : off + m ≤ (Function.update con i (splice (con i) off (src.take m)) i).length := by
      rw [hcon₂, hlen₂]
      omega
    obtain ⟨use', m', h', ht', hbes', hsame'⟩ := ih h₂ ht₂ hleft (by omega) hoff₂ (by omega)
      (by rw [Fs.view_put]; exact ho)
    have hsplice : splice (splice (con i) off (src.take m)) (off + m) (src.drop m) =
        splice (con i) off src := by
      have hs := splice_splice hoff (src.take m) (src.drop m)
      rwa [htake, List.take_append_drop] at hs
    rw [hcon₂, hsplice] at h' ht'
    rw [Fs.put_put, Function.update_idem, Function.update_idem] at h'
    rw [Fs.view_put] at hbes'
    refine ⟨use', m', h', ht', hbes₂.trans hbes', fun hend => ?_⟩
    have hlast : off / BSIZE < nb i := (h.file i hi).div_lt (by omega)
    rw [hsame' (by rw [hcon₂, hlen₂]; omega), Fs.put_ip]
    exact hsame₂ hlast

end Xv6.Kernel.Files
