/-
What `iappend` leaves in the image.

Every data block and every indirect block has one owner: `use b` names the inode and
the index in it, with MAXFILE for the indirect block. That one function says that no
block is shared, so the loop of `iappend` needs an argument about its own file only:
the others own none of the blocks it writes. The invariant (`Inv`) speaks of inodes
`D i` that are in memory or on the disk, for `iappend` writes its inode back at the end.
-/
import Xv6.Mkfs.Image

set_option autoImplicit false

namespace Xv6.Mkfs

/-! ## Numbers in sectors -/

theorem getNum_congr {s t : Sector} (n : Nat) : ∀ {off : Nat},
    (∀ j, off ≤ j → j < off + n → s j = t j) → getNum s off n = getNum t off n := by
  induction n with
  | zero => exact fun _ => rfl
  | succ n ih =>
    intro off h
    have h0 := h off le_rfl (by omega)
    have hn : getNum s (off + 1) n = getNum t (off + 1) n :=
      ih fun j h1 h2 => h j (by omega) (by omega)
    simp only [getNum, h0, hn]

theorem byteOf_succ (v i : Nat) : byteOf v (i + 1) = byteOf (v / 256) i := by
  unfold byteOf
  rw [Nat.div_div_eq_div_mul, pow_succ, Nat.mul_comm]

theorem getNum_bytes {s : Sector} (n : Nat) : ∀ {off v : Nat},
    (∀ i, i < n → s (off + i) = byteOf v i) → getNum s off n = v % 256 ^ n := by
  induction n with
  | zero =>
    intro off v _
    simp [getNum, Nat.mod_one]
  | succ n ih =>
    intro off v h
    have h0 : (s off).toNat = v % 256 := by
      have := h 0 (by omega)
      rw [Nat.add_zero] at this
      rw [this]
      simp [byteOf]
    have hn : getNum s (off + 1) n = v / 256 % 256 ^ n := by
      apply ih
      intro i hi
      rw [← byteOf_succ, ← h (i + 1) (by omega)]
      congr 1
      omega
    simp only [getNum, h0, hn]
    rw [pow_succ', Nat.mod_mul]

/-- A number that fits is read back. -/
theorem getNum_putNum (s : Sector) (off n v : Nat) (hv : v < 256 ^ n) :
    getNum (putNum s off n v) off n = v := by
  rw [getNum_bytes n (v := v), Nat.mod_eq_of_lt hv]
  intro i hi
  unfold putNum
  rw [if_pos (by omega)]
  congr 1
  omega

theorem putNum_of_outside (s : Sector) {off n j : Nat} (v : Nat) (h : j < off ∨ off + n ≤ j) :
    putNum s off n v j = s j := by
  unfold putNum
  exact if_neg (by omega)

/-- A number beside it is not touched. -/
theorem getNum_putNum_of_disjoint (s : Sector) {off n off' n' : Nat} (v : Nat)
    (h : off' + n' ≤ off ∨ off + n ≤ off') :
    getNum (putNum s off n v) off' n' = getNum s off' n' := by
  apply getNum_congr
  intro j h1 h2
  exact putNum_of_outside s v (by omega)

theorem getNum_zeroes (off n : Nat) : getNum zeroes off n = 0 := by
  have h : getNum zeroes off n = 0 % 256 ^ n := getNum_bytes n fun i _ => by
    simp [zeroes, byteOf]
  rwa [Nat.zero_mod] at h

/-! ## Inodes -/

/-- The fields of the inode fit their places. -/
structure Fits (ip : Dinode) : Prop where
  type : ip.type < 2 ^ 16
  size : ip.size < 2 ^ 32
  addrs : ∀ k, k ≤ NDIRECT → ip.addrs k < 2 ^ 32

/-- The fields that matter are the same. -/
structure Agree (a b : Dinode) : Prop where
  type : a.type = b.type
  size : a.size = b.size
  addrs : ∀ k, k ≤ NDIRECT → a.addrs k = b.addrs k

theorem Agree.trans {a b c : Dinode} (h : Agree a b) (h' : Agree b c) : Agree a c :=
  ⟨h.type.trans h'.type, h.size.trans h'.size, fun k hk => (h.addrs k hk).trans (h'.addrs k hk)⟩

/-- The addresses of an inode, written one after the other. -/
def putAddrs (base : Nat) (addrs : Nat → Nat) (n : Nat) (buf : Sector) : Sector :=
  (List.range n).foldl (fun buf i => putNum buf (base + 4 * i) 4 (addrs i)) buf

theorem putAddrs_succ (base : Nat) (addrs : Nat → Nat) (n : Nat) (buf : Sector) :
    putAddrs base addrs (n + 1) buf =
      putNum (putAddrs base addrs n buf) (base + 4 * n) 4 (addrs n) := by
  unfold putAddrs
  rw [List.range_succ, List.foldl_append]
  rfl

theorem putAddrs_of_outside (base : Nat) (addrs : Nat → Nat) (n : Nat) (buf : Sector) {j : Nat}
    (h : j < base ∨ base + 4 * n ≤ j) : putAddrs base addrs n buf j = buf j := by
  induction n with
  | zero => rfl
  | succ n ih =>
    rw [putAddrs_succ, putNum_of_outside _ _ (by omega)]
    exact ih (by omega)

theorem getNum_putAddrs (base : Nat) (addrs : Nat → Nat) (n : Nat) (buf : Sector) {k : Nat}
    (hk : k < n) (hv : addrs k < 2 ^ 32) :
    getNum (putAddrs base addrs n buf) (base + 4 * k) 4 = addrs k := by
  induction n with
  | zero => omega
  | succ n ih =>
    rw [putAddrs_succ]
    by_cases hkn : k = n
    · subst hkn
      exact getNum_putNum _ _ _ _ (by norm_num at hv ⊢; exact hv)
    · rw [getNum_putNum_of_disjoint _ _ (by omega)]
      exact ih (by omega)

/-- The sector of an inode with the inode written. -/
def dinodeIn (at_ : Nat) (ip : Dinode) (buf : Sector) : Sector :=
  putAddrs (at_ + 12) ip.addrs (NDIRECT + 1)
    (putNum (putNum (putNum (putNum (putNum buf at_ 2 ip.type) (at_ + 2) 2 ip.major) (at_ + 4) 2
      ip.minor) (at_ + 6) 2 ip.nlink) (at_ + 8) 4 ip.size)

theorem winode_eq (inum : Nat) (ip : Dinode) (s : State) :
    winode inum ip s =
      wsect (IBLOCK inum) (dinodeIn (inum % IPB * 64) ip (s.disk (IBLOCK inum))) s := rfl

theorem dinodeIn_of_outside {at_ : Nat} {ip : Dinode} {buf : Sector} {j : Nat}
    (h : j < at_ ∨ at_ + 64 ≤ j) : dinodeIn at_ ip buf j = buf j := by
  have hN : NDIRECT = 12 := rfl
  unfold dinodeIn
  rw [putAddrs_of_outside _ _ _ _ (by omega), putNum_of_outside _ _ (by omega),
    putNum_of_outside _ _ (by omega), putNum_of_outside _ _ (by omega),
    putNum_of_outside _ _ (by omega), putNum_of_outside _ _ (by omega)]

@[simp] theorem wsect_disk (sec : Nat) (buf : Sector) (s : State) (n : Nat) :
    (wsect sec buf s).disk n = if n = sec then buf else s.disk n := rfl

/-- **An inode is read back.** -/
theorem rinode_winode (inum : Nat) {ip : Dinode} (hf : Fits ip) (s : State) :
    Agree (rinode inum (winode inum ip s)) ip := by
  rw [winode_eq]
  have hne : ∀ (at_ off n : Nat) (v : Nat) (buf : Sector), off + n ≤ at_ + 12 →
      getNum (putAddrs (at_ + 12) ip.addrs (NDIRECT + 1) buf) off n = getNum buf off n := by
    intro at_ off n v buf h
    apply getNum_congr
    intro j h1 h2
    exact putAddrs_of_outside _ _ _ _ (by omega)
  constructor
  · simp only [rinode, rsect, wsect_disk, if_true, dinodeIn]
    rw [hne _ _ _ 0 _ (by omega), getNum_putNum_of_disjoint _ _ (by omega),
      getNum_putNum_of_disjoint _ _ (by omega), getNum_putNum_of_disjoint _ _ (by omega),
      getNum_putNum_of_disjoint _ _ (by omega)]
    exact getNum_putNum _ _ _ _ (by have := hf.type; omega)
  · simp only [rinode, rsect, wsect_disk, if_true, dinodeIn]
    rw [hne _ _ _ 0 _ (by omega)]
    exact getNum_putNum _ _ _ _ (by have := hf.size; omega)
  · intro k hk
    simp only [rinode, rsect, wsect_disk, if_true, dinodeIn]
    exact getNum_putAddrs _ _ _ _ (by omega) (hf.addrs k hk)

/-- The other inodes are not touched. -/
theorem rinode_winode_of_ne {inum j : Nat} (hj : j ≠ inum) (ip : Dinode) (s : State) :
    Agree (rinode j (winode inum ip s)) (rinode j s) := by
  rw [winode_eq]
  have hbyte : ∀ p, p < 64 →
      (wsect (IBLOCK inum) (dinodeIn (inum % IPB * 64) ip (s.disk (IBLOCK inum))) s).disk (IBLOCK j)
        (j % IPB * 64 + p) = s.disk (IBLOCK j) (j % IPB * 64 + p) := by
    intro p hp
    rw [wsect_disk]
    split
    · rename_i hb
      rw [hb]
      apply dinodeIn_of_outside
      -- in one sector the places of two inodes are 64 bytes apart
      have hdiv : j / IPB = inum / IPB := by
        unfold IBLOCK at hb
        omega
      have h1 := Nat.div_add_mod j IPB
      have h2 := Nat.div_add_mod inum IPB
      rw [hdiv] at h1
      omega
    · rfl
  have hnum : ∀ off n, off + n ≤ 64 →
      getNum ((wsect (IBLOCK inum) (dinodeIn (inum % IPB * 64) ip (s.disk (IBLOCK inum))) s).disk
        (IBLOCK j)) (j % IPB * 64 + off) n = getNum (s.disk (IBLOCK j)) (j % IPB * 64 + off) n := by
    intro off n h
    apply getNum_congr
    intro q h1 h2
    have := hbyte (q - j % IPB * 64) (by omega)
    rwa [Nat.add_sub_cancel' (by omega)] at this
  refine ⟨hnum 0 2 (by omega), hnum 8 4 (by omega), fun k hk => ?_⟩
  have := hnum (12 + 4 * k) 4 (by have : NDIRECT = 12 := rfl; omega)
  rw [← Nat.add_assoc] at this
  exact this

/-! ## Files -/

/-- The block at an index of a file, as it is found through the addresses; 0 is none. -/
def blockAt (disk : Nat → Sector) (din : Dinode) (k : Nat) : Nat :=
  if k < NDIRECT then din.addrs k
  else if din.addrs NDIRECT = 0 then 0
  else getNum (disk (din.addrs NDIRECT)) (4 * (k - NDIRECT)) 4

/-- Who owns a block: the inode, and the index in the file. -/
abbrev Use := Nat → Option (Nat × Nat)

/-- The file `i` has `nb` blocks, and `c` is in them. -/
structure FileOk (disk : Nat → Sector) (use : Use) (i : Nat) (din : Dinode) (nb : Nat)
    (c : List Byte) : Prop where
  nb_le : nb ≤ MAXFILE
  cover : c.length ≤ nb * BSIZE
  some_iff : ∀ k, k < MAXFILE → (blockAt disk din k ≠ 0 ↔ k < nb)
  used : ∀ k, k < nb → use (blockAt disk din k) = some (i, k)
  indirect : NDIRECT < nb → din.addrs NDIRECT ≠ 0
  usedIndirect : din.addrs NDIRECT ≠ 0 → use (din.addrs NDIRECT) = some (i, MAXFILE)
  data : ∀ p, p < c.length → disk (blockAt disk din (p / BSIZE)) (p % BSIZE) = c.getD p 0

/-- A byte of the file is in one of its blocks. -/
theorem FileOk.div_lt {disk : Nat → Sector} {use : Use} {i nb p : Nat} {din : Dinode}
    {c : List Byte} (h : FileOk disk use i din nb c) (hp : p < c.length) : p / BSIZE < nb := by
  rw [Nat.div_lt_iff_lt_mul (by norm_num)]
  exact hp.trans_le h.cover

/-- A file owns all it is read from. -/
theorem FileOk.congr {disk disk' : Nat → Sector} {use use' : Use} {i nb : Nat} {din : Dinode}
    {c : List Byte} (h : FileOk disk use i din nb c)
    (hd : ∀ b k, use b = some (i, k) → disk' b = disk b)
    (hu : ∀ b k, use b = some (i, k) → use' b = some (i, k)) : FileOk disk' use' i din nb c := by
  have hat : ∀ k, blockAt disk' din k = blockAt disk din k := by
    intro k
    unfold blockAt
    by_cases hi : din.addrs NDIRECT = 0
    · rw [if_pos hi, if_pos hi]
    · rw [hd _ _ (h.usedIndirect hi)]
  refine ⟨h.nb_le, h.cover, fun k hk => ?_, fun k hk => ?_, h.indirect, fun hi => ?_,
    fun p hp => ?_⟩
  · rw [hat]
    exact h.some_iff k hk
  · rw [hat]
    exact hu _ _ (h.used k hk)
  · exact hu _ _ (h.usedIndirect hi)
  · rw [hat, hd _ _ (h.used _ (h.div_lt hp))]
    exact h.data p hp

/-- The inode may be another one with the same addresses. -/
theorem FileOk.agree {disk : Nat → Sector} {use : Use} {i nb : Nat} {din din' : Dinode}
    {c : List Byte} (h : FileOk disk use i din nb c)
    (ha : ∀ k, k ≤ NDIRECT → din'.addrs k = din.addrs k) : FileOk disk use i din' nb c := by
  have hN := ha NDIRECT le_rfl
  have hat : ∀ k, blockAt disk din' k = blockAt disk din k := by
    intro k
    unfold blockAt
    rw [hN]
    split
    · rename_i hk
      exact ha k hk.le
    · rfl
  refine ⟨h.nb_le, h.cover, fun k hk => ?_, fun k hk => ?_, fun hk => ?_, fun hi => ?_,
    fun p hp => ?_⟩
  · rw [hat]
    exact h.some_iff k hk
  · rw [hat]
    exact h.used k hk
  · rw [hN]
    exact h.indirect hk
  · rw [hN] at hi ⊢
    exact h.usedIndirect hi
  · rw [hat]
    exact h.data p hp

/-- The image under construction: `D i` is the inode `i`, with `nb i` blocks and the bytes
`con i`. -/
structure Inv (s : State) (D : Nat → Dinode) (use : Use) (nb : Nat → Nat) (con : Nat → List Byte) :
    Prop where
  low : nmeta ≤ s.freeblock
  bound : s.freeblock < 2 ^ 32
  fresh : ∀ b, s.freeblock ≤ b → s.disk b = zeroes
  use_lt : ∀ b o, use b = some o → nmeta ≤ b ∧ b < s.freeblock
  file : ∀ i, 0 < i → i < s.freeinode → FileOk s.disk use i (D i) (nb i) (con i)

variable {s : State} {D : Nat → Dinode} {use : Use} {nb : Nat → Nat} {con : Nat → List Byte}
  {i k : Nat}

theorem nmeta_pos : 0 < nmeta := by decide

/-- The addresses of a file fit. -/
theorem Inv.addr_lt (h : Inv s D use nb con) (hi : 0 < i) (hl : i < s.freeinode)
    (hk : k ≤ NDIRECT) : (D i).addrs k < 2 ^ 32 := by
  have hf := h.file i hi hl
  have hb := h.bound
  by_cases h0 : (D i).addrs k = 0
  · rw [h0]
    norm_num
  · have hu : ∃ o, use ((D i).addrs k) = some o := by
      rcases Nat.lt_or_eq_of_le hk with hlt | rfl
      · have hat : blockAt s.disk (D i) k = (D i).addrs k := if_pos hlt
        have hlt' := (hf.some_iff k (by have : NDIRECT ≤ MAXFILE := by decide
                                        omega)).1 (by rwa [hat])
        have := hf.used k hlt'
        rw [hat] at this
        exact ⟨_, this⟩
      · exact ⟨_, hf.usedIndirect h0⟩
    obtain ⟨o, ho⟩ := hu
    exact (h.use_lt _ _ ho).2.trans hb

/-- What an operation on file `i` leaves alone. -/
structure Beside (s t : State) (n : Nat) : Prop where
  freeinode : t.freeinode = s.freeinode
  low : s.freeblock ≤ t.freeblock
  high : t.freeblock ≤ s.freeblock + n
  disk : ∀ b, b < nmeta → t.disk b = s.disk b

theorem Beside.refl (s : State) (n : Nat) : Beside s s n := ⟨rfl, le_rfl, by omega, fun _ _ => rfl⟩

theorem Beside.trans {s t u : State} {n m : Nat} (h : Beside s t n) (h' : Beside t u m) :
    Beside s u (n + m) :=
  ⟨h'.freeinode.trans h.freeinode, h.low.trans h'.low,
    by have := h.high; have := h'.high; omega,
    fun b hb => (h'.disk b hb).trans (h.disk b hb)⟩

/-- The block after the last one gets an owner; another file does not see it. -/
theorem Inv.other (h : Inv s D use nb con) {disk' : Nat → Sector} {use' : Use} {j : Nat}
    (hj : j ≠ i) (h0 : 0 < j) (hl : j < s.freeinode)
    (hd : ∀ b, disk' b = s.disk b ∨ s.freeblock ≤ b ∨ ∃ k, use b = some (i, k))
    (hu : ∀ b o, use b = some o → use' b = some o) :
    FileOk disk' use' j (D j) (nb j) (con j) := by
  refine (h.file j h0 hl).congr (fun b k hb => ?_) fun b k hb => hu b _ hb
  rcases hd b with hd | hd | ⟨l, hd⟩
  · exact hd
  · have := (h.use_lt b _ hb).2
    omega
  · rw [hb] at hd
    exact absurd (Prod.mk.inj (Option.some.inj hd)).1 hj

/-- A new state of file `i`, with the other files beside it. -/
theorem Inv.put (h : Inv s D use nb con) {t : State} {use' : Use} {din' : Dinode} {m : Nat}
    {c' : List Byte} (hfi : t.freeinode = s.freeinode) (hlow : s.freeblock ≤ t.freeblock)
    (hb : t.freeblock < 2 ^ 32) (hfresh : ∀ b, t.freeblock ≤ b → t.disk b = s.disk b)
    (hlt : ∀ b o, use' b = some o → use b = some o ∨ s.freeblock ≤ b ∧ b < t.freeblock)
    (hd : ∀ b, t.disk b = s.disk b ∨ s.freeblock ≤ b ∨ ∃ k, use b = some (i, k))
    (hu : ∀ b o, use b = some o → use' b = some o)
    (hfile : FileOk t.disk use' i din' m c') :
    Inv t (Function.update D i din') use' (Function.update nb i m) (Function.update con i c') := by
  refine ⟨h.low.trans hlow, hb, fun b hbt => ?_, fun b o ho => ?_, fun j h0 hl => ?_⟩
  · rw [hfresh b hbt]
    exact h.fresh b (hlow.trans hbt)
  · rcases hlt b o ho with ho | ⟨h1, h2⟩
    · have := h.use_lt b o ho
      omega
    · exact ⟨h.low.trans h1, h2⟩
  · by_cases hj : j = i
    · subst hj
      rw [Function.update_self, Function.update_self, Function.update_self]
      exact hfile
    · rw [Function.update_of_ne hj, Function.update_of_ne hj, Function.update_of_ne hj]
      rw [hfi] at hl
      exact h.other hj h0 hl hd hu

/-- The owners once the next free block has one. -/
def Use.add (use : Use) (b : Nat) (o : Nat × Nat) : Use := Function.update use b (some o)

theorem Inv.unused (h : Inv s D use nb con) {o : Nat × Nat} {b : Nat} (hb : use b = some o) :
    b ≠ s.freeblock := (h.use_lt b o hb).2.ne

theorem Inv.add_of_use (h : Inv s D use nb con) (o : Nat × Nat) (b : Nat) (o' : Nat × Nat)
    (hb : use b = some o') : use.add s.freeblock o b = some o' := by
  unfold Use.add
  rw [Function.update_of_ne (h.unused hb)]
  exact hb

theorem Use.add_cases {b n : Nat} {o o' : Nat × Nat} (h : use.add n o b = some o') :
    use b = some o' ∨ b = n ∧ o = o' := by
  unfold Use.add at h
  by_cases hb : b = n
  · rw [hb, Function.update_self] at h
    exact Or.inr ⟨hb, Option.some.inj h⟩
  · rw [Function.update_of_ne hb] at h
    exact Or.inl h

/-- The inode with one address written. -/
def Dinode.setAddr (din : Dinode) (k b : Nat) : Dinode :=
  { din with addrs := fun j => if j = k then b else din.addrs j }

/-- `freeblock++` for a direct block. -/
theorem Inv.takeDirect (h : Inv s D use nb con) (hi : 0 < i) (hl : i < s.freeinode)
    (hk : k < NDIRECT) (hnb : nb i = k) (hb : s.freeblock + 1 < 2 ^ 32) :
    Inv { s with freeblock := s.freeblock + 1 }
      (Function.update D i ((D i).setAddr k s.freeblock))
      (use.add s.freeblock (i, k)) (Function.update nb i (k + 1)) (Function.update con i (con i)) := by
  have hf := h.file i hi hl
  have hne : s.freeblock ≠ 0 := by
    have := h.low
    have := nmeta_pos
    omega
  have hN : NDIRECT ≠ k := hk.ne'
  have hat : ∀ j, blockAt s.disk ((D i).setAddr k s.freeblock) j =
      if j = k then s.freeblock else blockAt s.disk (D i) j := by
    intro j
    unfold blockAt Dinode.setAddr
    by_cases hj : j = k
    · subst hj
      simp [hk]
    · simp [hj, hN]
  refine h.put rfl (by simp) hb (fun _ _ => rfl) (fun b o ho => ?_) (fun b => Or.inl rfl)
    (h.add_of_use _) ?_
  · rcases Use.add_cases ho with ho | ⟨rfl, -⟩
    · exact Or.inl ho
    · exact Or.inr ⟨le_rfl, by simp⟩
  · refine ⟨?_, ?_, fun j hj => ?_, fun j hj => ?_, fun hlt => ?_, fun hx => ?_, fun p hp => ?_⟩
    · have : NDIRECT ≤ MAXFILE := by decide
      omega
    · have := hf.cover
      rw [hnb] at this
      exact this.trans (Nat.mul_le_mul_right _ (Nat.le_succ k))
    · rw [hat]
      by_cases hjk : j = k
      · simp [hjk, hne]
      · rw [if_neg hjk, hf.some_iff j hj, hnb]
        omega
    · rw [hat]
      by_cases hjk : j = k
      · rw [if_pos hjk, hjk]
        exact Function.update_self _ _ _
      · rw [if_neg hjk]
        exact h.add_of_use _ _ _ (hf.used j (by omega))
    · omega
    · have hx' : (D i).addrs NDIRECT ≠ 0 := by simpa [Dinode.setAddr, hN] using hx
      simp only [Dinode.setAddr, if_neg hN]
      exact h.add_of_use _ _ _ (hf.usedIndirect hx')
    · have hpk : p / BSIZE < k := hnb ▸ hf.div_lt hp
      rw [hat, if_neg hpk.ne]
      exact hf.data p hp

/-- `freeblock++` for the indirect block. -/
theorem Inv.takeIndirect (h : Inv s D use nb con) (hi : 0 < i) (hl : i < s.freeinode)
    (hx : (D i).addrs NDIRECT = 0) (hb : s.freeblock + 1 < 2 ^ 32) :
    Inv { s with freeblock := s.freeblock + 1 }
      (Function.update D i ((D i).setAddr NDIRECT s.freeblock))
      (use.add s.freeblock (i, MAXFILE)) (Function.update nb i (nb i))
      (Function.update con i (con i)) := by
  have hf := h.file i hi hl
  -- a new block is zero, so its entries say what the missing block said
  have hat : ∀ j, blockAt s.disk ((D i).setAddr NDIRECT s.freeblock) j =
      blockAt s.disk (D i) j := by
    intro j
    unfold blockAt Dinode.setAddr
    by_cases hj : j < NDIRECT
    · simp [hj, hj.ne]
    · rw [if_neg hj, if_neg hj, if_pos hx]
      simp only [if_true]
      split
      · rfl
      · rw [h.fresh _ le_rfl, getNum_zeroes]
  refine h.put rfl (by simp) hb (fun _ _ => rfl) (fun b o ho => ?_) (fun b => Or.inl rfl)
    (h.add_of_use _) ?_
  · rcases Use.add_cases ho with ho | ⟨rfl, -⟩
    · exact Or.inl ho
    · exact Or.inr ⟨le_rfl, by simp⟩
  · refine ⟨hf.nb_le, hf.cover, fun j hj => ?_, fun j hj => ?_, fun _ => ?_, fun _ => ?_,
      fun p hp => ?_⟩
    · rw [hat]
      exact hf.some_iff j hj
    · rw [hat]
      exact h.add_of_use _ _ _ (hf.used j hj)
    · have := h.low
      have := nmeta_pos
      simp only [Dinode.setAddr, if_true]
      omega
    · simp only [Dinode.setAddr, if_true]
      exact Function.update_self _ _ _
    · rw [hat]
      exact hf.data p hp

/-- `freeblock++` for a block that the indirect block points to. -/
theorem Inv.takeEntry (h : Inv s D use nb con) (hi : 0 < i) (hl : i < s.freeinode)
    (hk : NDIRECT ≤ k) (hkm : k < MAXFILE) (hx : (D i).addrs NDIRECT ≠ 0) (hnb : nb i = k)
    (hb : s.freeblock + 1 < 2 ^ 32) :
    Inv (wsect ((D i).addrs NDIRECT)
        (putNum (s.disk ((D i).addrs NDIRECT)) (4 * (k - NDIRECT)) 4 s.freeblock)
        { s with freeblock := s.freeblock + 1 })
      (Function.update D i (D i)) (use.add s.freeblock (i, k)) (Function.update nb i (k + 1))
      (Function.update con i (con i)) := by
  have hf := h.file i hi hl
  have hne : s.freeblock ≠ 0 := by
    have := h.low
    have := nmeta_pos
    omega
  set a := (D i).addrs NDIRECT with ha
  have hua : use a = some (i, MAXFILE) := hf.usedIndirect hx
  set t := wsect a (putNum (s.disk a) (4 * (k - NDIRECT)) 4 s.freeblock)
    { s with freeblock := s.freeblock + 1 } with ht
  have htd : ∀ b, t.disk b = if b = a then putNum (s.disk a) (4 * (k - NDIRECT)) 4 s.freeblock
      else s.disk b := fun b => rfl
  -- one entry of the indirect block changes
  have hat : ∀ j, blockAt t.disk (D i) j = if j = k then s.freeblock else blockAt s.disk (D i) j := by
    intro j
    unfold blockAt
    by_cases hj : j < NDIRECT
    · rw [if_pos hj, if_pos hj, if_neg (by omega)]
    · rw [if_neg hj, if_neg hj, ← ha, if_neg hx, if_neg hx, htd, if_pos rfl]
      by_cases hjk : j = k
      · rw [if_pos hjk, hjk]
        exact getNum_putNum _ _ _ _ (by norm_num; omega)
      · rw [if_neg hjk]
        exact getNum_putNum_of_disjoint _ _ (by omega)
  refine h.put rfl (Nat.le_succ _) hb (fun b hbt => ?_) (fun b o ho => ?_) (fun b => ?_)
    (h.add_of_use _) ?_
  · have hba : b ≠ a := by
      rintro rfl
      have := (h.use_lt _ _ hua).2
      have hbt' : s.freeblock + 1 ≤ a := hbt
      omega
    rw [htd, if_neg hba]
  · rcases Use.add_cases ho with ho | ⟨rfl, -⟩
    · exact Or.inl ho
    · exact Or.inr ⟨le_rfl, Nat.lt_succ_self _⟩
  · by_cases hba : b = a
    · rw [hba]
      exact Or.inr (Or.inr ⟨_, hua⟩)
    · rw [htd, if_neg hba]
      exact Or.inl rfl
  · refine ⟨hkm, ?_, fun j hj => ?_, fun j hj => ?_, fun _ => hx, fun _ => h.add_of_use _ _ _ hua,
      fun p hp => ?_⟩
    · have := hf.cover
      rw [hnb] at this
      exact this.trans (Nat.mul_le_mul_right _ (Nat.le_succ k))
    · rw [hat]
      by_cases hjk : j = k
      · simp [hjk, hne]
      · rw [if_neg hjk, hf.some_iff j hj, hnb]
        omega
    · rw [hat]
      by_cases hjk : j = k
      · rw [if_pos hjk, hjk]
        exact Function.update_self _ _ _
      · rw [if_neg hjk]
        exact h.add_of_use _ _ _ (hf.used j (by omega))
    · -- the bytes of the file are in blocks before this one, none of them the indirect block
      have hpk : p / BSIZE < k := hnb ▸ hf.div_lt hp
      have hu := hf.used (p / BSIZE) (by omega)
      have hba : blockAt s.disk (D i) (p / BSIZE) ≠ a := by
        intro hba
        rw [hba, hua] at hu
        have := (Prod.mk.inj (Option.some.inj hu)).2
        omega
      rw [hat, if_neg hpk.ne, htd, if_neg hba]
      exact hf.data p hp

/-! ## `iappend` -/

/-- File `i` may have grown, by `n` blocks at most in all. -/
structure Grown (s t : State) (D D' : Nat → Dinode) (nb nb' : Nat → Nat) (i n : Nat) : Prop where
  beside : Beside s t n
  type : (D' i).type = (D i).type
  other : ∀ j, j ≠ i → D' j = D j ∧ nb' j = nb j

theorem Grown.refl (s : State) (D : Nat → Dinode) (nb : Nat → Nat) (i n : Nat) :
    Grown s s D D nb nb i n := ⟨Beside.refl s n, rfl, fun _ _ => ⟨rfl, rfl⟩⟩

theorem Grown.trans {s t u : State} {D D' D'' : Nat → Dinode} {nb nb' nb'' : Nat → Nat}
    {i n m : Nat} (h : Grown s t D D' nb nb' i n) (h' : Grown t u D' D'' nb' nb'' i m) :
    Grown s u D D'' nb nb'' i (n + m) :=
  ⟨h.beside.trans h'.beside, h'.type.trans h.type, fun j hj =>
    ⟨(h'.other j hj).1.trans (h.other j hj).1, (h'.other j hj).2.trans (h.other j hj).2⟩⟩

theorem Grown.mono {t : State} {D' : Nat → Dinode} {nb' : Nat → Nat} {n m : Nat}
    (h : Grown s t D D' nb nb' i n) (hm : n ≤ m) : Grown s t D D' nb nb' i m :=
  ⟨⟨h.beside.freeinode, h.beside.low, h.beside.high.trans (by omega), h.beside.disk⟩, h.type,
    h.other⟩

/-- One block was taken, and `disk` is as it was below it. -/
theorem Grown.take {t : State} {din : Dinode} {m : Nat} (hfi : t.freeinode = s.freeinode)
    (hfb : t.freeblock = s.freeblock + 1) (hd : ∀ b, b < nmeta → t.disk b = s.disk b)
    (hty : din.type = (D i).type) :
    Grown s t D (Function.update D i din) nb (Function.update nb i m) i 1 := by
  refine ⟨⟨hfi, by omega, by omega, hd⟩, ?_, fun j hj => ?_⟩
  · rw [Function.update_self]
    exact hty
  · rw [Function.update_of_ne hj, Function.update_of_ne hj]
    exact ⟨rfl, rfl⟩

/-- A file without an indirect block gets one first. -/
theorem blockOf_indirect {din : Dinode} (hk : NDIRECT ≤ k) (hx : din.addrs NDIRECT = 0)
    (hne : s.freeblock ≠ 0) :
    blockOf din k s =
      blockOf (din.setAddr NDIRECT s.freeblock) k { s with freeblock := s.freeblock + 1 } := by
  have h : (din.setAddr NDIRECT s.freeblock).addrs NDIRECT ≠ 0 := by
    simpa [Dinode.setAddr] using hne
  unfold blockOf
  rw [if_neg hk.not_gt, if_neg hk.not_gt, if_pos hx, if_neg h]
  rfl

/-- The block at the end of the file, when the indirect block is there if it is needed. -/
theorem Inv.blockOf_entry (h : Inv s D use nb con) (hi : 0 < i) (hl : i < s.freeinode)
    (hk : k < MAXFILE) (hx : NDIRECT ≤ k → (D i).addrs NDIRECT ≠ 0)
    (hnb : nb i = k ∨ nb i = k + 1) (hb : s.freeblock + 1 < 2 ^ 32) :
    ∃ t D' use' nb', blockOf (D i) k s = (blockAt t.disk (D' i) k, D' i, t) ∧
      Inv t D' use' nb' con ∧ nb' i = k + 1 ∧ Grown s t D D' nb nb' i 1 := by
  have hf := h.file i hi hl
  have hat := hf.some_iff k hk
  unfold blockOf
  by_cases hd : k < NDIRECT
  · have hblock : ∀ disk (din : Dinode), blockAt disk din k = din.addrs k := fun _ _ => if_pos hd
    rw [hblock] at hat
    rw [if_pos hd]
    -- a direct block: new exactly when its address is 0
    by_cases h0 : (D i).addrs k = 0
    · have hnb' : nb i = k := by
        have : ¬ k < nb i := fun hlt => hat.2 hlt h0
        omega
      have hinv := h.takeDirect hi hl hd hnb' hb
      rw [Function.update_eq_self] at hinv
      refine ⟨_, _, _, _, ?_, hinv, Function.update_self _ _ _,
        Grown.take rfl rfl (fun _ _ => rfl) rfl⟩
      rw [if_pos h0, hblock, Function.update_self]
      simp [takeBlock, Dinode.setAddr]
    · have hnb' : nb i = k + 1 := by
        have := hat.1 h0
        omega
      refine ⟨s, D, use, nb, ?_, h, hnb', Grown.refl s D nb i 1⟩
      rw [if_neg h0, hblock]
  · have hk' : NDIRECT ≤ k := Nat.le_of_not_lt hd
    have hx' := hx hk'
    have hblock : ∀ disk, blockAt disk (D i) k =
        getNum (disk ((D i).addrs NDIRECT)) (4 * (k - NDIRECT)) 4 := by
      intro disk
      unfold blockAt
      rw [if_neg hd, if_neg hx']
    rw [hblock] at hat
    rw [if_neg hd, if_neg hx']
    dsimp only
    -- an entry of the indirect block, new exactly when it is 0
    by_cases h0 : getNum (rsect ((D i).addrs NDIRECT) s) (4 * (k - NDIRECT)) 4 = 0
    · have hnb' : nb i = k := by
        have : ¬ k < nb i := fun hlt => hat.2 hlt h0
        omega
      have hinv := h.takeEntry hi hl hk' hk hx' hnb' hb
      rw [Function.update_eq_self (f := con)] at hinv
      refine ⟨_, _, _, _, ?_, hinv, Function.update_self _ _ _, Grown.take rfl rfl ?_ rfl⟩
      · rw [if_pos h0, Function.update_self, hblock, wsect_disk, if_pos rfl,
          getNum_putNum _ _ _ _ (by norm_num; omega)]
        rfl
      · intro b hbm
        have hu := (h.use_lt _ _ (hf.usedIndirect hx')).1
        rw [wsect_disk, if_neg (by omega)]
    · have hnb' : nb i = k + 1 := by
        have := hat.1 h0
        omega
      refine ⟨s, D, use, nb, ?_, h, hnb', Grown.refl s D nb i 1⟩
      rw [if_neg h0, hblock]
      rfl

/-- **The block at the end of the file**, new if the file ends where a block does. -/
theorem Inv.blockOf_spec (h : Inv s D use nb con) (hi : 0 < i) (hl : i < s.freeinode)
    (hk : k < MAXFILE) (hnb : nb i = k ∨ nb i = k + 1) (hb : s.freeblock + 2 < 2 ^ 32) :
    ∃ t D' use' nb', blockOf (D i) k s = (blockAt t.disk (D' i) k, D' i, t) ∧
      Inv t D' use' nb' con ∧ nb' i = k + 1 ∧ Grown s t D D' nb nb' i 2 := by
  by_cases hx : NDIRECT ≤ k ∧ (D i).addrs NDIRECT = 0
  · have hne : s.freeblock ≠ 0 := by
      have := h.low
      have := nmeta_pos
      omega
    have hinv := h.takeIndirect hi hl hx.2 (by omega)
    rw [Function.update_eq_self, Function.update_eq_self] at hinv
    obtain ⟨t, D', use', nb', heq, hinv', hnb', hg⟩ := hinv.blockOf_entry (k := k) hi hl hk
      (fun _ => by rw [Function.update_self]; simpa [Dinode.setAddr] using hne) hnb
      (by simp only; omega)
    refine ⟨t, D', use', nb', ?_, hinv', hnb', ?_⟩
    · rw [blockOf_indirect hx.1 hx.2 hne, ← heq, Function.update_self]
    · have htake : Grown s { s with freeblock := s.freeblock + 1 } D
          (Function.update D i ((D i).setAddr NDIRECT s.freeblock)) nb
          (Function.update nb i (nb i)) i 1 := Grown.take rfl rfl (fun _ _ => rfl) rfl
      rw [Function.update_eq_self] at htake
      exact htake.trans hg
  · obtain ⟨t, D', use', nb', heq, hinv', hnb', hg⟩ := h.blockOf_entry (k := k) hi hl hk
      (fun hk' h0 => hx ⟨hk', h0⟩) hnb (by omega)
    exact ⟨t, D', use', nb', heq, hinv', hnb', hg.mono (by omega)⟩

/-- The place of a byte in block `k`. -/
theorem mod_of_div {p : Nat} (h : p / BSIZE = k) : p % BSIZE = p - k * BSIZE ∧ k * BSIZE ≤ p := by
  unfold BSIZE at *
  omega

/-- A byte after another one, in the same block. -/
theorem div_of_le {p l : Nat} (hl : l / BSIZE = k) (h : l ≤ p) (hp : p < (k + 1) * BSIZE) :
    p / BSIZE = k := by
  unfold BSIZE at *
  omega

theorem end_of_div {l : Nat} (h : l / BSIZE = k) :
    l < (k + 1) * BSIZE ∧ (k + 1) * BSIZE ≤ l + BSIZE := by
  unfold BSIZE at *
  omega

/-- A file with no more blocks than it needs ends in its last block, or where that ends. -/
theorem last_of_div {l m : Nat} (h : l / BSIZE = k) (hc : l ≤ m * BSIZE)
    (ht : m * BSIZE < l + BSIZE) : m = k ∨ m = k + 1 := by
  unfold BSIZE at *
  omega

/-- **Bytes are written after the end of the file**, in its last block. -/
theorem Inv.putBytes_spec (h : Inv s D use nb con) (hi : 0 < i) (hl : i < s.freeinode)
    {q : List Byte} (hk : (con i).length / BSIZE = k) (hnb : nb i = k + 1)
    (hq : (con i).length + q.length ≤ (k + 1) * BSIZE) :
    Inv (wsect (blockAt s.disk (D i) k)
        (putBytes (s.disk (blockAt s.disk (D i) k)) ((con i).length - k * BSIZE) q) s)
      D use nb (Function.update con i (con i ++ q)) := by
  have hB : BSIZE = 512 := rfl
  have hf := h.file i hi hl
  set x := blockAt s.disk (D i) k with hx
  have hux : use x = some (i, k) := hf.used k (by omega)
  -- every other block of a file lies elsewhere
  have hsec : ∀ b o, use b = some o → o ≠ (i, k) → b ≠ x := by
    rintro b o hb hne rfl
    rw [hux] at hb
    exact hne (Option.some.inj hb).symm
  set t := wsect x (putBytes (s.disk x) ((con i).length - k * BSIZE) q) s with ht
  have htd : ∀ b, b ≠ x → t.disk b = s.disk b := fun b hb => if_neg hb
  have htx : t.disk x = putBytes (s.disk x) ((con i).length - k * BSIZE) q := if_pos rfl
  have hkm : k < MAXFILE := by
    have := hf.nb_le
    omega
  have hat : ∀ j, blockAt t.disk (D i) j = blockAt s.disk (D i) j := by
    intro j
    unfold blockAt
    by_cases h0 : (D i).addrs NDIRECT = 0
    · rw [if_pos h0, if_pos h0]
    · have hne : ((i, MAXFILE) : Nat × Nat) ≠ (i, k) := by
        intro he
        have := (Prod.mk.inj he).2
        omega
      rw [htd _ (hsec _ _ (hf.usedIndirect h0) hne)]
  have hinv : Inv t (Function.update D i (D i)) use (Function.update nb i (nb i))
      (Function.update con i (con i ++ q)) := by
    refine h.put rfl le_rfl h.bound (fun b hb => htd b ?_) (fun b o ho => Or.inl ho)
      (fun b => ?_) (fun b o ho => ho) ?_
    · have := (h.use_lt _ _ hux).2
      have hbs : s.freeblock ≤ b := hb
      omega
    · by_cases hbx : b = x
      · rw [hbx]
        exact Or.inr (Or.inr ⟨k, hux⟩)
      · exact Or.inl (htd b hbx)
    · refine ⟨hf.nb_le, ?_, fun j hj => ?_, fun j hj => ?_, hf.indirect, hf.usedIndirect,
        fun p hp => ?_⟩
      · rw [List.length_append, hnb]
        exact hq
      · rw [hat]
        exact hf.some_iff j hj
      · rw [hat]
        exact hf.used j hj
      · rw [List.length_append] at hp
        rw [hat]
        by_cases hpl : p < (con i).length
        · -- a byte that was there
          have hd := hf.data p hpl
          rw [List.getD_append _ _ _ _ hpl, ← hd]
          by_cases hpk : p / BSIZE = k
          · rw [hpk, ← hx, htx]
            have hm := mod_of_div hpk
            have hm' := mod_of_div hk
            unfold putBytes
            rw [if_neg (by omega)]
          · have hne : ((i, p / BSIZE) : Nat × Nat) ≠ (i, k) := fun he =>
              hpk (Prod.mk.inj he).2
            rw [htd _ (hsec _ _ (hf.used _ (hf.div_lt hpl)) hne)]
        · have hpk : p / BSIZE = k := div_of_le hk (Nat.le_of_not_lt hpl) (hp.trans_le hq)
          have hm := mod_of_div hpk
          have hm' := mod_of_div hk
          rw [hpk, ← hx, htx, List.getD_append_right _ _ _ _ (Nat.le_of_not_lt hpl)]
          unfold putBytes
          rw [if_pos (by omega)]
          congr 1
          omega
  rwa [Function.update_eq_self, Function.update_eq_self] at hinv

/-- The file has no more blocks than its bytes need. -/
abbrev Tight (nb : Nat) (c : List Byte) : Prop := nb * BSIZE < c.length + BSIZE

/-- **The loop of `iappend`** appends all the bytes, if they fit. -/
theorem Inv.appendLoop_spec (hi : 0 < i) (fuel : Nat) : ∀ {s : State} {D : Nat → Dinode}
    {use : Use} {nb : Nat → Nat} {con : Nat → List Byte} {p : List Byte},
    Inv s D use nb con → i < s.freeinode → Tight (nb i) (con i) → p.length ≤ fuel →
    (con i).length + p.length ≤ MAXFILE * BSIZE → s.freeblock + 2 * p.length < 2 ^ 32 →
    ∃ t D' use' nb', appendLoop fuel (D i) (con i).length p s =
        some (D' i, (con i).length + p.length, t) ∧
      Inv t D' use' nb' (Function.update con i (con i ++ p)) ∧ Tight (nb' i) (con i ++ p) ∧
      Grown s t D D' nb nb' i (2 * p.length) := by
  induction fuel with
  | zero =>
    intro s D use nb con p h _ ht hp _ _
    have hnil : p = [] := List.eq_nil_of_length_eq_zero (by omega)
    subst hnil
    refine ⟨s, D, use, nb, rfl, ?_, ?_, Grown.refl _ _ _ _ _⟩
    · rwa [List.append_nil, Function.update_eq_self]
    · rwa [List.append_nil]
  | succ fuel ih =>
    intro s D use nb con p h hl ht hp hmax hb
    by_cases hnil : p = []
    · subst hnil
      refine ⟨s, D, use, nb, ?_, ?_, ?_, Grown.refl _ _ _ _ _⟩
      · simp [appendLoop]
      · rwa [List.append_nil, Function.update_eq_self]
      · rwa [List.append_nil]
    · have hpos : 0 < p.length := List.length_pos_iff.2 hnil
      set k := (con i).length / BSIZE with hk
      have hf := h.file i hi hl
      have hcover := hf.cover
      have hkm : k < MAXFILE := by
        rw [hk, Nat.div_lt_iff_lt_mul (by norm_num)]
        omega
      have hend := end_of_div hk.symm
      have hnb : nb i = k ∨ nb i = k + 1 := last_of_div hk.symm hcover ht
      -- the block at the end of the file, then the bytes that go into it
      obtain ⟨t, D', use', nb', heq, hinv, hnb', hg⟩ :=
        h.blockOf_spec hi hl hkm hnb (by omega)
      set n1 := min p.length ((k + 1) * BSIZE - (con i).length) with hn1
      have hn1pos : 0 < n1 := by omega
      have hlen : (p.take n1).length = n1 := by
        rw [List.length_take]
        omega
      have hl' : i < t.freeinode := by
        rw [hg.beside.freeinode]
        exact hl
      have hput := hinv.putBytes_spec hi hl' (q := p.take n1) hk.symm hnb' (by omega)
      set con' := Function.update con i (con i ++ p.take n1) with hcon'
      have hci : con' i = con i ++ p.take n1 := Function.update_self _ _ _
      have hcl : (con' i).length = (con i).length + n1 := by
        rw [hci, List.length_append, hlen]
      set u := wsect (blockAt t.disk (D' i) k)
        (putBytes (t.disk (blockAt t.disk (D' i) k)) ((con i).length - k * BSIZE) (p.take n1)) t
        with hu
      -- the file ends in its last block again, so the rest of the loop starts as this turn did
      have hfull : Tight (nb' i) (con' i) := by
        have hlt : (k + 1) * BSIZE < (con i).length + n1 + BSIZE :=
          hend.2.trans_lt (Nat.add_lt_add_right (Nat.lt_add_of_pos_right hn1pos) BSIZE)
        rwa [← hnb', ← hcl] at hlt
      have hdrop : (p.drop n1).length = p.length - n1 := List.length_drop
      have hhigh := hg.beside.high
      have hux := hinv.use_lt _ _ ((hinv.file i hi hl').used k (by omega))
      obtain ⟨v, D'', use'', nb'', heq', hinv', ht', hg'⟩ :=
        ih (p := p.drop n1) hput hl' hfull (by omega) (by omega) (by
          have : u.freeblock = t.freeblock := rfl
          omega)
      refine ⟨v, D'', use'', nb'', ?_, ?_, ?_, ?_⟩
      · rw [hcl] at heq'
        unfold appendLoop
        rw [if_neg hnil, if_pos hkm, heq]
        simp only [rsect]
        rw [← hk, ← hn1, ← hu, heq']
        congr 3
        omega
      · rw [hci, List.append_assoc, List.take_append_drop, hcon', Function.update_idem] at hinv'
        exact hinv'
      · rw [hci, List.append_assoc, List.take_append_drop] at ht'
        exact ht'
      · have hput' : Grown t u D' D' nb' nb' i 0 := by
          refine ⟨⟨rfl, le_rfl, le_rfl, fun b hbm => ?_⟩, rfl, fun _ _ => ⟨rfl, rfl⟩⟩
          rw [hu, wsect_disk, if_neg (by omega)]
        exact ((hg.trans hput').trans hg').mono (by omega)

theorem getNum_lt (s : Sector) (n : Nat) : ∀ off, getNum s off n < 256 ^ n := by
  induction n with
  | zero => exact fun _ => Nat.zero_lt_one
  | succ n ih =>
    intro off
    have hd := (s off).isLt
    have hn := ih (off + 1)
    simp only [getNum]
    rw [pow_succ']
    omega

/-- The inode blocks are before the data blocks. -/
theorem IBLOCK_lt {i : Nat} (h : i < NINODES) : IBLOCK i < nmeta := by
  have h1 : nmeta = 6464 := by decide
  have h2 : sb.inodestart = 6432 := by decide
  have h3 : NINODES = 200 := rfl
  have h4 : IPB = 8 := rfl
  unfold IBLOCK
  rw [h1, h2, h4]
  omega

theorem one_ne_IBLOCK (i : Nat) : 1 ≠ IBLOCK i := by
  have h1 : 1 < sb.inodestart := by decide
  have h2 : sb.inodestart ≤ IBLOCK i := Nat.le_add_left _ _
  exact (h1.trans_le h2).ne

theorem rinode_congr {s t : State} {i : Nat} (h : t.disk (IBLOCK i) = s.disk (IBLOCK i)) :
    rinode i t = rinode i s := by
  unfold rinode rsect
  rw [h]

/-- All inodes are on the disk, with the bytes `con i` and the type `ty i`. -/
structure OnDisk (s : State) (use : Use) (nb : Nat → Nat) (con : Nat → List Byte)
    (ty : Nat → Nat) : Prop where
  inv : Inv s (fun i => rinode i s) use nb con
  room : s.freeinode ≤ NINODES
  size : ∀ i, 0 < i → i < s.freeinode → (rinode i s).size = (con i).length
  type : ∀ i, 0 < i → i < s.freeinode → (rinode i s).type = ty i
  tight : ∀ i, 0 < i → i < s.freeinode → Tight (nb i) (con i)

/-- The image holds the files `con`. -/
def Built (s : State) (con : Nat → List Byte) (ty : Nat → Nat) : Prop :=
  ∃ use nb, OnDisk s use nb con ty

/-- What a call leaves alone: the superblock, and all but `n` free blocks. -/
structure Kept (s t : State) (n : Nat) : Prop where
  super : t.disk 1 = s.disk 1
  high : t.freeblock ≤ s.freeblock + n

theorem Kept.trans {s t u : State} {n m : Nat} (h : Kept s t n) (h' : Kept t u m) :
    Kept s u (n + m) :=
  ⟨h'.super.trans h.super, by have := h.high; have := h'.high; omega⟩

theorem Kept.mono {s t : State} {n m : Nat} (h : Kept s t n) (hm : n ≤ m) : Kept s t m :=
  ⟨h.super, h.high.trans (by omega)⟩

theorem winode_super (i : Nat) (ip : Dinode) (s : State) : (winode i ip s).disk 1 = s.disk 1 := by
  rw [winode_eq, wsect_disk, if_neg (one_ne_IBLOCK i)]

/-- An inode in memory is written back; the others are on the disk. -/
theorem Inv.writeback (h : Inv s D use nb con) (hi : i < NINODES) {ip : Dinode}
    (hf : Fits ip) (ha : ∀ k, k ≤ NDIRECT → ip.addrs k = (D i).addrs k)
    (hD : ∀ j, 0 < j → j < s.freeinode → j ≠ i → ∀ k, k ≤ NDIRECT →
      (rinode j s).addrs k = (D j).addrs k) :
    Inv (winode i ip s) (fun j => rinode j (winode i ip s)) use nb con := by
  have hdisk : ∀ b, nmeta ≤ b → (winode i ip s).disk b = s.disk b := by
    intro b hb
    have := IBLOCK_lt hi
    rw [winode_eq, wsect_disk, if_neg (by omega)]
  refine ⟨h.low, h.bound, fun b hb => ?_, h.use_lt, fun j h0 hl => ?_⟩
  · rw [hdisk b (h.low.trans hb)]
    exact h.fresh b hb
  · have hfile : FileOk (winode i ip s).disk use j (D j) (nb j) (con j) :=
      (h.file j h0 hl).congr (fun b k hb => hdisk b (h.use_lt b _ hb).1) fun b k hb => hb
    apply hfile.agree
    intro k hk
    by_cases hj : j = i
    · subst hj
      rw [(rinode_winode j hf s).addrs k hk]
      exact ha k hk
    · rw [(rinode_winode_of_ne hj ip s).addrs k hk]
      exact hD j h0 hl hj k hk

/-- **`iappend` appends.** -/
theorem Built.iappend_spec {ty : Nat → Nat} (h : Built s con ty) (hi : 0 < i)
    (hl : i < s.freeinode) {p : List Byte} (hmax : (con i).length + p.length ≤ MAXFILE * BSIZE)
    (hb : s.freeblock + 2 * p.length < 2 ^ 32) :
    ∃ t, iappend i p s = some t ∧ Built t (Function.update con i (con i ++ p)) ty ∧
      t.freeinode = s.freeinode ∧ Kept s t (2 * p.length) := by
  obtain ⟨use, nb, hd⟩ := h
  obtain ⟨v, D', use', nb', heq, hinv, ht, hg⟩ :=
    hd.inv.appendLoop_spec hi p.length hl (hd.tight i hi hl) le_rfl hmax hb
  have hroom : v.freeinode ≤ NINODES := hg.beside.freeinode.trans_le hd.room
  have hlv : i < v.freeinode := hl.trans_eq hg.beside.freeinode.symm
  have hiN : i < NINODES := hlv.trans_le hroom
  -- the loop writes no inode block
  have hrv : ∀ j, j < v.freeinode → rinode j v = rinode j s := fun j hj =>
    rinode_congr (hg.beside.disk _ (IBLOCK_lt (hj.trans_le hroom)))
  set ip : Dinode := { D' i with size := (con i).length + p.length } with hip
  have hfits : Fits ip := by
    refine ⟨?_, ?_, fun k hk => hinv.addr_lt hi hlv hk⟩
    · have hty : ip.type = (rinode i s).type := hg.type
      rw [hty]
      exact getNum_lt _ 2 _
    · have hM : MAXFILE * BSIZE = 71680 := rfl
      show (con i).length + p.length < 2 ^ 32
      rw [hM] at hmax
      exact hmax.trans_lt (by norm_num)
  have hon : ∀ j, 0 < j → j < v.freeinode → j ≠ i → rinode j v = D' j := fun j _ hj hji =>
    (hrv j hj).trans (hg.other j hji).1.symm
  have hinv' := hinv.writeback hiN hfits (fun _ _ => rfl) fun j h0 hj hji k _ => by
    rw [hon j h0 hj hji]
  have hself := rinode_winode i hfits v
  have hother : ∀ j, j ≠ i → j < v.freeinode → Agree (rinode j (winode i ip v)) (rinode j s) := by
    intro j hji hj
    have := rinode_winode_of_ne hji ip v
    rwa [hrv j hj] at this
  refine ⟨winode i ip v, ?_, ⟨use', nb', hinv', hroom, fun j h0 hj => ?_, fun j h0 hj => ?_,
    fun j h0 hj => ?_⟩, hg.beside.freeinode, ?_⟩
  · unfold iappend
    dsimp only
    rw [hd.size i hi hl, heq]
    rfl
  · by_cases hji : j = i
    · subst hji
      rw [hself.size, Function.update_self, List.length_append]
    · rw [(hother j hji hj).size, Function.update_of_ne hji]
      exact hd.size j h0 (hj.trans_eq hg.beside.freeinode)
  · by_cases hji : j = i
    · subst hji
      rw [hself.type, ← hd.type j h0 hl]
      exact hg.type
    · rw [(hother j hji hj).type]
      exact hd.type j h0 (hj.trans_eq hg.beside.freeinode)
  · by_cases hji : j = i
    · subst hji
      rwa [Function.update_self]
    · rw [Function.update_of_ne hji, (hg.other j hji).2]
      exact hd.tight j h0 (hj.trans_eq hg.beside.freeinode)
  · refine ⟨?_, hg.beside.high⟩
    rw [winode_super]
    exact hg.beside.disk 1 (by decide)

/-- **`ialloc` makes an empty file.** -/
theorem Built.ialloc_spec {ty : Nat → Nat} (h : Built s con ty)
    (hl : s.freeinode < NINODES) (type : Nat) (htype : type < 2 ^ 16) :
    Built (ialloc type s).2 (Function.update con s.freeinode [])
        (Function.update ty s.freeinode type) ∧
      Kept s (ialloc type s).2 0 := by
  obtain ⟨use, nb, hd⟩ := h
  set n := s.freeinode with hn
  set ip : Dinode := { type := type, nlink := 1, size := 0, addrs := fun _ => 0 } with hip
  set v : State := { s with freeinode := n + 1 } with hv
  have hfits : Fits ip := ⟨htype, by norm_num, fun _ _ => by norm_num⟩
  have hlt : ∀ j, j < n + 1 → j ≠ n → j < s.freeinode := fun j hj hjn => by omega
  have hinv : Inv v (Function.update (fun j => rinode j s) n ip) use (Function.update nb n 0)
      (Function.update con n []) := by
    refine ⟨hd.inv.low, hd.inv.bound, hd.inv.fresh, hd.inv.use_lt, fun j hj0 hj => ?_⟩
    by_cases hjn : j = n
    · subst hjn
      rw [Function.update_self, Function.update_self, Function.update_self]
      have hat : ∀ k, blockAt v.disk ip k = 0 := by
        intro k
        unfold blockAt
        split
        · rfl
        · exact if_pos rfl
      refine ⟨Nat.zero_le _, Nat.zero_le _, fun k _ => ?_, fun k hk => absurd hk (Nat.not_lt_zero _),
        fun hk => absurd hk (Nat.not_lt_zero _), fun hx => absurd rfl hx,
        fun p hp => absurd hp (Nat.not_lt_zero _)⟩
      rw [hat]
      simp
    · rw [Function.update_of_ne hjn, Function.update_of_ne hjn, Function.update_of_ne hjn]
      exact hd.inv.file j hj0 (hlt j hj hjn)
  have hinv' := hinv.writeback (i := n) hl hfits
    (fun k _ => by rw [Function.update_self]) fun j hj0 hj hjn k _ => by
      rw [Function.update_of_ne hjn]
      rfl
  have hother : ∀ j, j ≠ n → Agree (rinode j (winode n ip v)) (rinode j s) := fun j hjn =>
    rinode_winode_of_ne hjn ip v
  refine ⟨⟨use, Function.update nb n 0, hinv', Nat.succ_le_of_lt hl, fun j hj0 hj => ?_,
    fun j hj0 hj => ?_, fun j hj0 hj => ?_⟩, ⟨winode_super n ip v, le_rfl⟩⟩
  · by_cases hjn : j = n
    · subst hjn
      rw [Function.update_self]
      exact (rinode_winode n hfits v).size
    · rw [Function.update_of_ne hjn]
      exact (hother j hjn).size.trans (hd.size j hj0 (hlt j hj hjn))
  · by_cases hjn : j = n
    · subst hjn
      rw [Function.update_self]
      exact (rinode_winode n hfits v).type
    · rw [Function.update_of_ne hjn]
      exact (hother j hjn).type.trans (hd.type j hj0 (hlt j hj hjn))
  · by_cases hjn : j = n
    · subst hjn
      rw [Function.update_self, Function.update_self]
      decide
    · rw [Function.update_of_ne hjn, Function.update_of_ne hjn]
      exact hd.tight j hj0 (hlt j hj hjn)

end Xv6.Mkfs
