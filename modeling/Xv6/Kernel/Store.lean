/-
A store of files (`fs.c`).

What `readi`, `writei` and `itrunc` are for: a file is a list of bytes, a read returns a
stretch of it, a write goes over it and past its end, truncation empties it, and no call
touches another file. In every run of these calls on any number of files the answers are those
of the lists. After each call the inodes on the disk describe the files, so a kernel that
starts from the disk reads the same lists, and the bitmap has exactly the blocks of the files.
-/
import Xv6.Kernel.Contents
import Xv6.Lib.Run

set_option autoImplicit false

namespace Xv6.Kernel.Files

open Xv6.Lib Xv6.Mkfs Xv6.Mkfs.Kernel

/-! ## The calls -/

inductive Call where
  | read (i off n : Nat)
  | write (i off : Nat) (src : List Byte)
  | trunc (i : Nat)

inductive Ret where
  | bytes (bs : List Byte)
  | num (n : Int)
  deriving DecidableEq

/-- A call on an inode that is no device. -/
def Fs.exec (sb : Superblock) (c : Call) (s : Fs) : Option (Ret × Fs) :=
  match c with
  | .read i off n =>
    (readi sb (fun _ _ => none) off n (s.view i)).map fun (bs, o) =>
      (match bs with | some bs => .bytes bs | none => .num (-1), s.put i o)
  | .write i off src =>
    (writei sb (fun _ _ => -1) i off src (s.view i)).map fun (n, o) => (.num n, s.put i o)
  | .trunc i => (itrunc sb i (s.view i)).map fun o => (.num 0, s.put i o)

/-- The inode is one of the disk and no device. -/
def Fs.IsFile (sb : Superblock) (s : Fs) (i : Nat) : Prop :=
  i < sb.ninodes ∧ (s.ip i).type ≠ T_DEV

/-- The numbers of a call are unsigned integers. -/
def Call.Fits (sb : Superblock) (s : Fs) : Call → Prop
  | .read i off n => s.IsFile sb i ∧ off < 2 ^ 32 ∧ n < 2 ^ 32
  | .write i off src => s.IsFile sb i ∧ off < 2 ^ 32 ∧ src.length < 2 ^ 32
  | .trunc i => s.IsFile sb i

def Step (sb : Superblock) (s : Fs) (l : Call × Ret) (t : Fs) : Prop :=
  l.1.Fits sb s ∧ s.exec sb l.1 = some (l.2, t)

/-! ## Files as lists -/

/-- What the calls are for. -/
def spec (c : Call) (f : Nat → List Byte) : Ret × (Nat → List Byte) :=
  match c with
  | .read i off n =>
    if off ≤ (f i).length ∧ off + n < 2 ^ 32 then (.bytes (((f i).drop off).take n), f)
    else (.num (-1), f)
  | .write i off src =>
    if off ≤ (f i).length ∧ off + src.length ≤ MAXFILE * BSIZE then
      (.num src.length, Function.update f i (splice (f i) off src))
    else (.num (-1), f)
  | .trunc i => (.num 0, Function.update f i [])

def SpecStep (f : Nat → List Byte) (l : Call × Ret) (g : Nat → List Byte) : Prop :=
  spec l.1 f = (l.2, g)

/-! ## Inodes on the disk -/

/-- The inode `i` on the disk. -/
def onDisk (sb : Superblock) (i : Nat) (disk : Nat → Sector) : Dinode :=
  rinode i ⟨fun _ => disk (Kernel.IBLOCK i sb), 0, 0, false⟩

theorem ilock_onDisk (sb : Superblock) (i : Nat) (disk : Nat → Sector) :
    ilock sb i disk = if (onDisk sb i disk).type = 0 then none else some (onDisk sb i disk) := rfl

variable {sb : Superblock} {nmeta : Nat} {s : Fs} {use use' : Use} {nb : Nat → Nat}
  {con : Nat → List Byte} {i j k b m : Nat} {disk disk' : Nat → Sector} {o o' : Open}
  {c : List Byte}

theorem onDisk_congr (h : disk' (Kernel.IBLOCK i sb) = disk (Kernel.IBLOCK i sb)) :
    onDisk sb i disk' = onDisk sb i disk := by
  rw [onDisk, onDisk, h]

theorem onDisk_eq {t : State} (h : t.disk (Mkfs.IBLOCK i) = disk (Kernel.IBLOCK i sb)) :
    onDisk sb i disk = rinode i t := (rinode_congr h).symm

/-- **`iupdate`** saves the inode. -/
theorem iupdate_saved (hF : Fits o.ip) : Agree (onDisk sb i (iupdate sb i o).disk) o.ip := by
  rw [onDisk_eq]
  · exact rinode_winode i hF ⟨fun _ => o.disk (Kernel.IBLOCK i sb), 0, 0, false⟩
  · rw [winode_eq, wsect_disk, if_pos rfl]
    exact (Function.update_self (Kernel.IBLOCK i sb) _ o.disk).symm

/-- It leaves the other inodes of the block as they were. -/
theorem iupdate_other (hij : j ≠ i) :
    Agree (onDisk sb j (iupdate sb i o).disk) (onDisk sb j o.disk) := by
  by_cases hb : Kernel.IBLOCK j sb = Kernel.IBLOCK i sb
  · have hb' : Mkfs.IBLOCK j = Mkfs.IBLOCK i := by
      unfold Kernel.IBLOCK at hb
      unfold Mkfs.IBLOCK
      omega
    have h := rinode_winode_of_ne hij o.ip ⟨fun _ => o.disk (Kernel.IBLOCK i sb), 0, 0, false⟩
    rwa [← onDisk_eq, ← onDisk_eq] at h
    · exact congrArg o.disk hb.symm
    · rw [winode_eq, wsect_disk, if_pos hb', hb]
      exact (Function.update_self (Kernel.IBLOCK i sb) _ o.disk).symm
  · rw [onDisk_congr ]
    · exact ⟨rfl, rfl, fun _ _ => rfl⟩
    · exact Function.update_of_ne hb _ _

theorem blockAt_addrs {ip ip' : Dinode} (ha : ip'.addrs = ip.addrs) (k : Nat) :
    blockAt disk ip' k = blockAt disk ip k := by
  rw [blockAt, blockAt, ha]

/-- The files do not see what is written to the block of an inode. -/
theorem Inv.iupdate (hL : Layout sb nmeta) (h : Inv sb nmeta (s.put i o) use nb con)
    (hi : i < sb.ninodes) (ha : o'.ip.addrs = o.ip.addrs) (hd : o'.disk = o.disk) :
    Inv sb nmeta (s.put i (iupdate sb i o')) use nb con := by
  have hself : (s.put i o).ip i = o.ip := s.put_ip i o
  have hf := h.file i hi
  rw [hself] at hf
  have hdata : ∀ x, nmeta ≤ x → (Files.iupdate sb i o').disk x = o.disk x := fun x hx =>
    (Function.update_of_ne ((hL.inodes i hi).trans_le hx).ne' _ _).trans (congrFun hd x)
  have hown : ∀ x l, use x = some (i, l) → (Files.iupdate sb i o').disk x = o.disk x :=
    fun x l hx => hdata x (h.use_lt x _ hx).1
  have hput : Inv sb nmeta ((s.put i o).put i (Files.iupdate sb i o')) use
      (Function.update nb i (nb i)) (Function.update con i (con i)) := by
    refine h.put hi (fun x hx => ?_) (fun x j k _ hx => hdata x (h.use_lt x _ hx).1)
      (fun _ _ _ _ => Iff.rfl) (fun x k hx => h.use_lt x _ hx) (fun x k hx => ?_)
      ((hf.congr hown fun _ _ hu => hu).agree fun k _ => congrFun ha k)
    · rw [isFree_congr ((Function.update_of_ne (hL.apart x i hx hi) _ _).trans (congrFun hd _))]
      exact h.bits x hx
    · have ho := (h.owned x i k hx).2
      rw [hself] at ho
      have hat : blockAt (Files.iupdate sb i o').disk o.ip k = blockAt o.disk o.ip k :=
        blockAt_congr (fun hx' => hown _ _ (hf.usedIndirect hx')) k
      refine ho.imp (fun hk => ⟨hk.1, ?_⟩) fun hk => ⟨hk.1, (congrFun ha _).trans hk.2⟩
      exact (blockAt_addrs ha k).trans (hat.trans hk.2)
  rwa [Function.update_eq_self, Function.update_eq_self, Fs.put_put] at hput

/-- The addresses of a file fit. -/
theorem Inv.addr_lt (hL : Layout sb nmeta) (h : Inv sb nmeta s use nb con) (hi : i < sb.ninodes)
    (hk : k ≤ NDIRECT) : (s.ip i).addrs k < 2 ^ 32 := by
  have hf := h.file i hi
  have hsize := hL.size
  by_cases h0 : (s.ip i).addrs k = 0
  · rw [h0]
    norm_num
  obtain ⟨l, hl⟩ : ∃ l, use ((s.ip i).addrs k) = some (i, l) := by
    rcases Nat.lt_or_eq_of_le hk with hlt | rfl
    · have hat : blockAt s.disk (s.ip i) k = (s.ip i).addrs k := if_pos hlt
      have hM : NDIRECT ≤ MAXFILE := by decide
      have hused := hf.used k ((hf.some_iff k (hlt.trans_le hM)).1 (by rwa [hat]))
      rw [hat] at hused
      exact ⟨k, hused⟩
    · exact ⟨MAXFILE, hf.usedIndirect h0⟩
  exact (h.use_lt _ _ hl).2.trans hsize

/-! ## Truncation -/

/-- The owners without the blocks `l`. -/
def drop (use : Use) (l : List Nat) : Use := fun b => if b ∈ l then none else use b

/-- The owners without file `i`. -/
def disown (use : Use) (i : Nat) : Use :=
  fun b => (use b).filter fun o => o.1 ≠ i

theorem disown_eq_some {p : Nat × Nat} :
    disown use i b = some p ↔ use b = some p ∧ p.1 ≠ i := by
  rw [disown, Option.filter_eq_some_iff, decide_eq_true_iff]

theorem Bits.congr (h : Bits sb nmeta disk use)
    (hu : ∀ b, nmeta ≤ b → (use' b).isSome = (use b).isSome) : Bits sb nmeta disk use' := by
  intro b hb
  rw [h b hb]
  by_cases hmeta : b < nmeta
  · exact iff_of_true (Or.inl hmeta) (Or.inl hmeta)
  · rw [hu b (Nat.le_of_not_lt hmeta)]

theorem drop_unown (use : Use) (b : Nat) (l : List Nat) :
    drop (unown use b) l = drop use (b :: l) := by
  funext x
  rw [drop, drop, unown, Function.update_apply]
  by_cases hl : x ∈ l
  · rw [if_pos hl, if_pos (List.mem_cons_of_mem b hl)]
  · rw [if_neg hl]
    by_cases hb : x = b
    · rw [if_pos hb, if_pos (hb ▸ List.mem_cons_self)]
    · rw [if_neg hb, if_neg fun h => (List.mem_cons.1 h).elim hb hl]

/-- **A loop of `itrunc`** frees the blocks at its addresses, which are different. -/
theorem freeAddrs_spec (hL : Layout sb nmeta) (l : List Nat) :
    ∀ {disk : Nat → Sector} {use : Use}, Bits sb nmeta disk use →
    (∀ a ∈ l, a ≠ 0 → nmeta ≤ a ∧ a < sb.size ∧ (use a).isSome = true) →
    l.Pairwise (fun a b => a = b → a = 0) →
    ∃ disk', l.foldlM (fun disk a => freeAddr sb a disk) disk = some disk' ∧
      (∀ x, nmeta ≤ x → disk' x = disk x) ∧ SameInodes sb disk disk' ∧
      Bits sb nmeta disk' (drop use l) := by
  induction l with
  | nil => exact fun hB _ _ => ⟨_, rfl, fun _ _ => rfl, fun _ _ => rfl, hB⟩
  | cons a l ih =>
    intro disk use hB hu hne
    obtain ⟨ha, hne⟩ := List.pairwise_cons.1 hne
    obtain ⟨hua, hu⟩ := List.forall_mem_cons.1 hu
    rw [List.foldlM_cons]
    by_cases h0 : a = 0
    · -- there is no block
      obtain ⟨disk', hfold, hsame, hino, hB'⟩ := ih hB hu hne
      refine ⟨disk', ?_, hsame, hino, hB'.congr fun b hb => ?_⟩
      · rw [freeAddr, if_neg (not_not.2 h0)]
        exact hfold
      · have hb0 : b ≠ a := (h0.trans_lt (hL.pos.trans_le hb)).ne'
        rw [drop, drop]
        simp only [List.mem_cons, hb0, false_or]
    · obtain ⟨hmeta, hlt, huse⟩ := hua h0
      obtain ⟨disk₁, hfree, hsame₁, hino₁, hB₁⟩ := bfree_spec hL hB hmeta hlt huse
      have hu₁ : ∀ b ∈ l, b ≠ 0 → nmeta ≤ b ∧ b < sb.size ∧ (unown use a b).isSome = true := by
        intro b hb hb0
        rw [unown, Function.update_of_ne fun he => h0 (ha b hb he.symm)]
        exact hu b hb hb0
      obtain ⟨disk', hfold, hsame, hino, hB'⟩ := ih hB₁ hu₁ hne
      refine ⟨disk', ?_, fun x hx => (hsame x hx).trans (hsame₁ x hx), hino₁.trans hino, ?_⟩
      · rw [freeAddr, if_pos h0, hfree]
        exact hfold
      · rw [← drop_unown]
        exact hB'

theorem drop_drop (use : Use) (l l' : List Nat) : drop (drop use l) l' = drop use (l ++ l') := by
  funext b
  rw [drop, drop, drop]
  by_cases h' : b ∈ l'
  · rw [if_pos h', if_pos (List.mem_append_right l h')]
  · rw [if_neg h']
    by_cases h : b ∈ l
    · rw [if_pos h, if_pos (List.mem_append_left l' h)]
    · rw [if_neg h, if_neg fun hmem => (List.mem_append.1 hmem).elim h h']

theorem unown_drop (use : Use) (l : List Nat) (b : Nat) :
    unown (drop use l) b = drop use (l ++ [b]) := by
  have h := drop_unown (drop use l) b []
  rwa [drop_drop] at h

/-- The blocks of the file, in `l`, are those without an owner in the end. -/
theorem isSome_disown {l : List Nat} (hl : b ∈ l ↔ ∃ k, use b = some (i, k)) :
    (disown use i b).isSome = (drop use l b).isSome := by
  rw [disown, drop]
  by_cases hb : b ∈ l
  · obtain ⟨k, hk⟩ := hl.1 hb
    rw [if_pos hb, hk, Option.filter_some, if_neg]
    exact fun h => of_decide_eq_true h rfl
  · rw [if_neg hb]
    cases hu : use b with
    | none => rfl
    | some o =>
      have hne : o.1 ≠ i := fun he => hb (hl.2 ⟨o.2, by rw [hu, ← he]⟩)
      rw [Option.filter_some, if_pos (decide_eq_true hne)]

/-- The blocks of a file are those at its addresses. -/
theorem Inv.owned_iff (h : Inv sb nmeta s use nb con) (hi : i < sb.ninodes) (hb : b ≠ 0) :
    (∃ k, use b = some (i, k)) ↔
      (∃ k, k < MAXFILE ∧ blockAt s.disk (s.ip i) k = b) ∨ (s.ip i).addrs NDIRECT = b := by
  have hf := h.file i hi
  constructor
  · rintro ⟨k, hk⟩
    exact (h.owned b i k hk).2.imp (fun hat => ⟨k, hat.1.trans_le hf.nb_le, hat.2⟩) And.right
  · rintro (⟨k, hk, rfl⟩ | rfl)
    · exact ⟨k, hf.used k ((hf.some_iff k hk).1 hb)⟩
    · exact ⟨MAXFILE, hf.usedIndirect hb⟩

theorem FileOk_inj {use : Use} {ip : Dinode} {n : Nat} (hf : FileOk disk use i ip n c)
    (hj : j < MAXFILE) (hk : k < MAXFILE) (hjk : j ≠ k)
    (he : blockAt disk ip j = blockAt disk ip k) : blockAt disk ip j = 0 := by
  by_contra h0
  have hu := hf.used j ((hf.some_iff j hj).1 h0)
  rw [he, hf.used k ((hf.some_iff k hk).1 (he ▸ h0))] at hu
  exact hjk (Prod.mk.inj (Option.some.inj hu)).2.symm

/-- The `n` addresses of a file from index `a` on can be freed. -/
theorem Inv.freeable (h : Inv sb nmeta s use nb con) (hi : i < sb.ninodes) (a n : Nat)
    (ha : a + n ≤ MAXFILE) {l : List Nat}
    (hl : (List.range n).map (fun j => blockAt s.disk (s.ip i) (a + j)) = l) :
    (∀ b ∈ l, b ≠ 0 → nmeta ≤ b ∧ b < sb.size ∧ ∃ j, j < n ∧ use b = some (i, a + j)) ∧
      l.Pairwise fun b b' => b = b' → b = 0 := by
  have hf := h.file i hi
  subst hl
  rw [List.forall_mem_map, List.pairwise_map]
  constructor
  · intro j hj h0
    have hj' := List.mem_range.1 hj
    have hu := hf.used (a + j) ((hf.some_iff (a + j) (by omega)).1 h0)
    exact ⟨(h.use_lt _ _ hu).1, (h.use_lt _ _ hu).2, j, hj', hu⟩
  · refine List.nodup_range.pairwise_of_forall_ne fun j hj k hk hjk => ?_
    have hj' := List.mem_range.1 hj
    have hk' := List.mem_range.1 hk
    exact FileOk_inj hf (by omega) (by omega) (by omega)

theorem fileOk_empty {ip : Dinode} (hz : ∀ k, k ≤ NDIRECT → ip.addrs k = 0) :
    FileOk disk use i ip 0 [] := by
  have hat : ∀ k, blockAt disk ip k = 0 := by
    intro k
    rw [blockAt, if_pos (hz NDIRECT le_rfl)]
    by_cases hk : k < NDIRECT
    · rw [if_pos hk, hz k hk.le]
    · rw [if_neg hk]
  exact
    { nb_le := Nat.zero_le _
      cover := Nat.zero_le _
      some_iff := fun k _ => iff_of_false (not_not.2 (hat k)) (Nat.not_lt_zero k)
      used := fun k hk => absurd hk (Nat.not_lt_zero k)
      indirect := fun hn => absurd hn (Nat.not_lt_zero _)
      usedIndirect := fun hx => absurd (hz NDIRECT le_rfl) hx
      data := fun p hp => absurd hp (Nat.not_lt_zero p) }

/-- The blocks `l` of the file are free, and its addresses are 0. -/
theorem Inv.truncated (h : Inv sb nmeta s use nb con) (hi : i < sb.ninodes) {l : List Nat}
    {ip' : Dinode} (hsame : ∀ x, nmeta ≤ x → disk' x = s.disk x)
    (hB : Bits sb nmeta disk' (drop use l))
    (hl : ∀ b, nmeta ≤ b → (b ∈ l ↔ ∃ k, use b = some (i, k)))
    (hz : ∀ k, k ≤ NDIRECT → ip'.addrs k = 0) :
    Inv sb nmeta (s.put i ⟨disk', ip'⟩) (disown use i) (Function.update nb i 0)
      (Function.update con i []) := by
  exact h.put hi (hB.congr fun b hb => isSome_disown (hl b hb))
    (fun b j k _ hx => hsame b (h.use_lt b _ hx).1)
    (fun b j k hji => disown_eq_some.trans (and_iff_left hji))
    (fun b k hx => absurd rfl (disown_eq_some.1 hx).2)
    (fun b k hx => absurd rfl (disown_eq_some.1 hx).2) (fileOk_empty hz)

/-- What is at the `n` addresses of a file from index `a` on. -/
theorem mem_stretch {a n : Nat} {f : Nat → Nat}
    (hat : ∀ j, j < n → blockAt s.disk (s.ip i) (a + j) = f j) :
    b ∈ (List.range n).map f ↔
      ∃ k, (a ≤ k ∧ k < a + n) ∧ blockAt s.disk (s.ip i) k = b := by
  rw [List.mem_map]
  constructor
  · rintro ⟨j, hj, rfl⟩
    have hj' := List.mem_range.1 hj
    exact ⟨a + j, ⟨Nat.le_add_right a j, Nat.add_lt_add_left hj' a⟩, hat j hj'⟩
  · rintro ⟨k, hk, rfl⟩
    have hj : k - a < n := by omega
    refine ⟨k - a, List.mem_range.2 hj, ?_⟩
    rw [← hat _ hj, Nat.add_sub_cancel' hk.1]

/-- **A loop of `itrunc`** in its place: the blocks `l` below index `a` are free already. -/
theorem Inv.freeStretch (hL : Layout sb nmeta) (h : Inv sb nmeta s use nb con)
    (hi : i < sb.ninodes) {a n : Nat} (ha : a + n ≤ MAXFILE) {f : Nat → Nat}
    (hat : ∀ j, j < n → blockAt s.disk (s.ip i) (a + j) = f j) {l : List Nat}
    (hB : Bits sb nmeta disk (drop use l))
    (hl : ∀ b ∈ l, b ≠ 0 → ∃ j, j < a ∧ use b = some (i, j)) :
    ∃ disk', (List.range n).foldlM (fun disk j => freeAddr sb (f j) disk) disk = some disk' ∧
      (∀ x, nmeta ≤ x → disk' x = disk x) ∧ SameInodes sb disk disk' ∧
      Bits sb nmeta disk' (drop use (l ++ (List.range n).map f)) ∧
      ∀ b ∈ l ++ (List.range n).map f, b ≠ 0 → ∃ j, j < a + n ∧ use b = some (i, j) := by
  obtain ⟨hu, hne⟩ := h.freeable hi a n ha
    (List.map_congr_left fun j hj => hat j (List.mem_range.1 hj))
  have hown : ∀ b ∈ (List.range n).map f, b ≠ 0 →
      nmeta ≤ b ∧ b < sb.size ∧ (drop use l b).isSome = true := by
    intro b hb h0
    obtain ⟨hmeta, hlt, j, hj, huj⟩ := hu b hb h0
    have hbl : b ∉ l := by
      intro hmem
      obtain ⟨j', hj', huj'⟩ := hl b hmem h0
      have := (Prod.mk.inj (Option.some.inj (huj.symm.trans huj'))).2
      omega
    refine ⟨hmeta, hlt, ?_⟩
    rw [drop, if_neg hbl, huj]
    rfl
  obtain ⟨disk', hfold, hsame, hino, hB'⟩ := freeAddrs_spec hL _ hB hown hne
  rw [List.foldlM_map] at hfold
  rw [drop_drop] at hB'
  refine ⟨disk', hfold, hsame, hino, hB', fun b hb h0 => ?_⟩
  rcases List.mem_append.1 hb with hb | hb
  · obtain ⟨j, hj, huj⟩ := hl b hb h0
    exact ⟨j, hj.trans_le (Nat.le_add_right a n), huj⟩
  · obtain ⟨-, -, j, hj, huj⟩ := hu b hb h0
    exact ⟨a + j, Nat.add_lt_add_left hj a, huj⟩

/-- **`itrunc`** does not panic and leaves an empty file. -/
theorem Inv.itrunc (hL : Layout sb nmeta) (h : Inv sb nmeta s use nb con) (hi : i < sb.ninodes) :
    ∃ o, itrunc sb i (s.view i) = some (Files.iupdate sb i o) ∧ SameInodes sb s.disk o.disk ∧
      o.ip = { s.ip i with addrs := o.ip.addrs, size := 0 } ∧
      Inv sb nmeta (s.put i o) (disown use i) (Function.update nb i 0)
        (Function.update con i []) := by
  have hf := h.file i hi
  have hM : MAXFILE = NDIRECT + NINDIRECT := rfl
  have hN : ¬NDIRECT < NDIRECT := lt_irrefl _
  have hat₁ : ∀ j, j < NDIRECT → blockAt s.disk (s.ip i) (0 + j) = (s.ip i).addrs j := by
    intro j hj
    rw [Nat.zero_add, blockAt, if_pos hj]
  have hB₀ : Bits sb nmeta s.disk (drop use []) := h.bits.congr fun b _ => by
    rw [drop, if_neg List.not_mem_nil]
  obtain ⟨disk₁, hfold₁, hsame₁, hino₁, hB₁, hu₁⟩ := h.freeStretch hL hi (by omega) hat₁ hB₀
    fun b hb => absurd hb List.not_mem_nil
  rw [List.nil_append] at hB₁ hu₁
  set x := (s.ip i).addrs NDIRECT with hx
  by_cases hx0 : x = 0
  · -- no indirect block
    refine ⟨⟨disk₁, { s.ip i with
      addrs := fun k => if k < NDIRECT then 0 else (s.ip i).addrs k, size := 0 }⟩, ?_, hino₁, rfl,
      h.truncated hi hsame₁ hB₁ (fun b hb => ?_) fun k hk => ?_⟩
    · simp only [Files.itrunc, Fs.view, hfold₁, Option.bind_eq_bind, Option.bind_some, if_neg hN]
      rw [if_neg (not_not.2 hx0)]
      rfl
    · have hb0 : b ≠ 0 := (hL.pos.trans_le hb).ne'
      rw [h.owned_iff hi hb0, mem_stretch hat₁, ← hx, hx0, or_iff_left hb0.symm]
      constructor
      · rintro ⟨k, hk, rfl⟩
        exact ⟨k, by omega, rfl⟩
      · rintro ⟨k, -, rfl⟩
        refine ⟨k, ⟨Nat.zero_le k, ?_⟩, rfl⟩
        by_contra hk
        rw [blockAt, if_neg (by omega), ← hx, if_pos hx0] at hb0
        exact hb0 rfl
    · rcases Nat.lt_or_eq_of_le hk with hlt | rfl
      · exact if_pos hlt
      · dsimp only
        rw [if_neg hN]
        exact hx0
  · -- the entries of the indirect block, and the block itself
    have hux := hf.usedIndirect hx0
    have hxmeta : nmeta ≤ x := (h.use_lt _ _ hux).1
    have hat₂ : ∀ j, j < NINDIRECT →
        blockAt s.disk (s.ip i) (NDIRECT + j) = getNum (disk₁ x) (4 * j) 4 := by
      intro j hj
      rw [blockAt, if_neg (by omega), ← hx, if_neg hx0, hsame₁ x hxmeta, Nat.add_sub_cancel_left]
    rw [Nat.zero_add] at hu₁
    obtain ⟨disk₂, hfold₂, hsame₂, hino₂, hB₂, hu₂⟩ := h.freeStretch hL hi hM.ge hat₂ hB₁ hu₁
    have hxl : x ∉ (List.range NDIRECT).map (s.ip i).addrs ++
        (List.range NINDIRECT).map fun j => getNum (disk₁ x) (4 * j) 4 := by
      intro hmem
      obtain ⟨j, hj, huj⟩ := hu₂ x hmem hx0
      have := (Prod.mk.inj (Option.some.inj (hux.symm.trans huj))).2
      omega
    have hxown : (drop use ((List.range NDIRECT).map (s.ip i).addrs ++
        (List.range NINDIRECT).map fun j => getNum (disk₁ x) (4 * j) 4) x).isSome = true := by
      rw [drop, if_neg hxl, hux]
      rfl
    obtain ⟨disk₃, hfree, hsame₃, hino₃, hB₃⟩ :=
      bfree_spec hL hB₂ hxmeta (h.use_lt _ _ hux).2 hxown
    rw [unown_drop] at hB₃
    refine ⟨⟨disk₃, { s.ip i with
      addrs := fun k => if k = NDIRECT then 0 else if k < NDIRECT then 0 else (s.ip i).addrs k
      size := 0 }⟩, ?_, (hino₁.trans hino₂).trans hino₃, rfl,
      h.truncated hi (fun y hy => ((hsame₃ y hy).trans (hsame₂ y hy)).trans (hsame₁ y hy)) hB₃
        (fun b hb => ?_) fun k hk => ?_⟩
    · simp only [Files.itrunc, Fs.view, hfold₁, Option.bind_eq_bind, Option.bind_some, if_neg hN]
      rw [if_pos hx0]
      simp only [← hx, hfold₂, hfree, Option.bind_some]
      rfl
    · have hb0 : b ≠ 0 := (hL.pos.trans_le hb).ne'
      rw [h.owned_iff hi hb0, List.mem_append, List.mem_append, List.mem_singleton,
        mem_stretch hat₁, mem_stretch hat₂]
      refine or_congr ?_ eq_comm
      constructor
      · rintro (⟨k, hk, rfl⟩ | ⟨k, hk, rfl⟩)
        · exact ⟨k, by omega, rfl⟩
        · exact ⟨k, by omega, rfl⟩
      · rintro ⟨k, hk, rfl⟩
        by_cases hlt : k < NDIRECT
        · exact Or.inl ⟨k, by omega, rfl⟩
        · exact Or.inr ⟨k, by omega, rfl⟩
    · rcases Nat.lt_or_eq_of_le hk with hlt | rfl
      · dsimp only
        rw [if_neg hlt.ne, if_pos hlt]
      · dsimp only
        rw [if_pos rfl]

/-! ## The store -/

/-- The files are the lists `con`, and the inodes on the disk are those in memory. -/
structure Holds (sb : Superblock) (nmeta : Nat) (s : Fs) (con : Nat → List Byte) : Prop where
  inv : ∃ use nb, Inv sb nmeta s use nb con ∧ ∀ i, i < sb.ninodes → Tight (nb i) (con i)
  size : ∀ i, i < sb.ninodes → (s.ip i).size = (con i).length
  saved : ∀ i, i < sb.ninodes → Agree (onDisk sb i s.disk) (s.ip i)

theorem Inv.length_le (h : Inv sb nmeta s use nb con) (hi : i < sb.ninodes) :
    (con i).length ≤ MAXFILE * BSIZE :=
  (h.file i hi).cover.trans (Nat.mul_le_mul_right _ (h.file i hi).nb_le)

/-- One file has changed, and the inodes are on the disk. -/
theorem Holds.put (h : Holds sb nmeta s con)
    (ht : ∀ j, j < sb.ninodes → Tight (nb j) (con j))
    (hinv : Inv sb nmeta (s.put i o) use (Function.update nb i m) (Function.update con i c))
    (htm : Tight m c) (hsize : o.ip.size = c.length) (hsaved : Agree (onDisk sb i o.disk) o.ip)
    (hother : ∀ j, j < sb.ninodes → j ≠ i → Agree (onDisk sb j o.disk) (onDisk sb j s.disk)) :
    Holds sb nmeta (s.put i o) (Function.update con i c) := by
  have hip : ∀ j, j ≠ i → (s.put i o).ip j = s.ip j := fun j hj => Function.update_of_ne hj _ _
  refine ⟨⟨use, _, hinv, fun j hj => ?_⟩, fun j hj => ?_, fun j hj => ?_⟩
  · by_cases hji : j = i
    · rw [hji, Function.update_self, Function.update_self]
      exact htm
    · rw [Function.update_of_ne hji, Function.update_of_ne hji]
      exact ht j hj
  · by_cases hji : j = i
    · rw [hji, s.put_ip, Function.update_self]
      exact hsize
    · rw [hip j hji, Function.update_of_ne hji]
      exact h.size j hj
  · by_cases hji : j = i
    · rw [hji, s.put_ip]
      exact hsaved
    · rw [hip j hji]
      exact (hother j hj hji).trans (h.saved j hj)

/-- The end of a call that calls `iupdate`. -/
theorem Holds.save (hL : Layout sb nmeta) (h : Holds sb nmeta s con)
    (ht : ∀ j, j < sb.ninodes → Tight (nb j) (con j)) (hi : i < sb.ninodes)
    (hinv : Inv sb nmeta (s.put i o) use (Function.update nb i m) (Function.update con i c))
    (htm : Tight m c) (hino : SameInodes sb s.disk o.disk) (hd : o'.disk = o.disk)
    (hip : o'.ip = { s.ip i with addrs := o.ip.addrs, size := c.length }) :
    Holds sb nmeta (s.put i (iupdate sb i o')) (Function.update con i c) := by
  have hlen := hinv.length_le hi
  rw [Function.update_self] at hlen
  have hfits : Fits o'.ip := by
    rw [hip]
    refine ⟨?_, ?_, fun k hk => ?_⟩
    · have htype := (h.saved i hi).type
      have hlt := getNum_lt (s.disk (Kernel.IBLOCK i sb)) 2 (i % IPB * 64)
      dsimp only
      rw [← htype]
      exact hlt
    · exact hlen.trans_lt (by decide)
    · have haddr := hinv.addr_lt hL hi hk
      rwa [s.put_ip] at haddr
  refine h.put ht (hinv.iupdate hL hi (by rw [hip]) hd) htm ?_ (iupdate_saved hfits)
    fun j hj hji => (iupdate_other hji).trans ?_
  · show o'.ip.size = c.length
    rw [hip]
  · rw [hd, onDisk_congr (hino j hj)]
    exact ⟨rfl, rfl, fun _ _ => rfl⟩

/-- The end of a call that leaves the inode as it was. -/
theorem Holds.keep (h : Holds sb nmeta s con) (ht : ∀ j, j < sb.ninodes → Tight (nb j) (con j))
    (hi : i < sb.ninodes)
    (hinv : Inv sb nmeta (s.put i o) use (Function.update nb i m) (Function.update con i c))
    (htm : Tight m c) (hino : SameInodes sb s.disk o.disk) (hip : o.ip = s.ip i)
    (hlen : c.length = (con i).length) :
    Holds sb nmeta (s.put i o) (Function.update con i c) := by
  refine h.put ht hinv htm ?_ ?_ fun j hj _ => ?_
  · rw [hip, hlen]
    exact h.size i hi
  · rw [onDisk_congr (hino i hi), hip]
    exact h.saved i hi
  · rw [onDisk_congr (hino j hj)]
    exact ⟨rfl, rfl, fun _ _ => rfl⟩

/-- **`readi`**, also of a stretch that goes beyond the end. -/
theorem Holds.readi {n off : Nat} (h : Holds sb nmeta s con) (hi : s.IsFile sb i)
    (hoff : off < 2 ^ 32) (hn : n < 2 ^ 32) {devread : Nat → Nat → Option (List Byte)} :
    readi sb devread off n (s.view i) =
      some (if off ≤ (con i).length ∧ off + n < 2 ^ 32 then some (((con i).drop off).take n)
        else none, s.view i) := by
  obtain ⟨hlt, hty⟩ := hi
  obtain ⟨use, nb, hinv, -⟩ := h.inv
  have hf := hinv.file i hlt
  have hsize := h.size i hlt
  have hlen : (con i).length < 2 ^ 32 := (hinv.length_le hlt).trans_lt (by decide)
  have hloop : ∀ n', off + n' ≤ (con i).length →
      readLoop sb n' n' 0 off ⟨s.disk, s.ip i⟩ =
        some (((con i).drop off).take n', ⟨s.disk, s.ip i⟩) :=
    fun n' hn' => readLoop_spec hf n' (Nat.zero_le n') le_rfl hn'
  unfold Kernel.readi Fs.view
  dsimp only
  rw [if_neg hty, hsize]
  by_cases hc : off ≤ (con i).length ∧ off + n < 2 ^ 32
  case neg =>
    rw [if_neg hc, if_pos]
    by_cases hgt : off > (con i).length
    · exact Or.inl hgt
    · exact Or.inr (by omega)
  rw [if_pos hc, if_neg (by omega), Nat.mod_eq_of_lt hc.2]
  by_cases hend : off + n > (con i).length
  · have hdrop : ((con i).drop off).length = (con i).length - off := List.length_drop
    rw [if_pos hend, hloop _ (by omega), Option.map_some, List.take_of_length_le hdrop.le,
      List.take_of_length_le (by omega)]
  · rw [if_neg hend, hloop _ (by omega), Option.map_some]

/-- **`writei`** that returns. -/
theorem Holds.writei (hL : Layout sb nmeta) (h : Holds sb nmeta s con) (hi : s.IsFile sb i)
    {off : Nat} {src : List Byte} (hoff : off < 2 ^ 32) (hn : src.length < 2 ^ 32)
    {devwrite : Nat → List Byte → Int} {r : Int}
    (hw : writei sb devwrite i off src (s.view i) = some (r, o)) :
    if off ≤ (con i).length ∧ off + src.length ≤ MAXFILE * BSIZE then
      r = src.length ∧ Holds sb nmeta (s.put i o) (Function.update con i (splice (con i) off src))
    else r = -1 ∧ o = s.view i := by
  obtain ⟨hlt, hty⟩ := hi
  obtain ⟨use, nb, hinv, ht⟩ := h.inv
  have hsize := h.size i hlt
  have hM : MAXFILE * BSIZE < 2 ^ 32 := by decide
  unfold Files.writei at hw
  have hview : (s.view i).ip = s.ip i := rfl
  dsimp only at hw
  rw [hview, if_neg hty, hsize] at hw
  by_cases hc : off ≤ (con i).length ∧ off + src.length ≤ MAXFILE * BSIZE
  case neg =>
    rw [if_neg hc]
    have hr : some ((-1 : Int), s.view i) = some (r, o) := by
      by_cases h1 : off > (con i).length ∨ (off + src.length) % 2 ^ 32 < off
      · rwa [if_pos h1] at hw
      · rwa [if_neg h1, if_pos (by omega)] at hw
    obtain ⟨rfl, rfl⟩ := Prod.mk.inj (Option.some.inj hr)
    exact ⟨rfl, rfl⟩
  rw [if_pos hc]
  rw [if_neg (by omega), Nat.mod_eq_of_lt (by omega), if_neg (by omega)] at hw
  obtain ⟨o₁, hloop, hr⟩ := Option.map_eq_some_iff.1 hw
  obtain ⟨use', m, h', ht', hbes, hsame⟩ :=
    hinv.writeLoop_spec hL hlt src.length (ht i hlt) rfl le_rfl hc.1 hc.2 hloop
  have hlen := length_splice hc.1 src
  have hrest := hbes.rest
  rw [hview] at hrest
  have hsize₁ : o₁.ip.size = (con i).length := by rw [hrest, ← hsize]
  rw [hsize₁] at hr
  by_cases hgrow : src.length > 0 ∧ off + src.length > (con i).length
  · rw [if_pos hgrow] at hr
    obtain ⟨rfl, rfl⟩ := Prod.mk.inj hr
    refine ⟨rfl, h.save hL ht hlt h' ht' hbes.inodes rfl ?_⟩
    rw [hlen, max_eq_right hgrow.2.le, hrest]
  · rw [if_neg hgrow] at hr
    obtain ⟨rfl, rfl⟩ := Prod.mk.inj hr
    have hend : off + src.length ≤ (con i).length := by omega
    exact ⟨rfl, h.keep ht hlt h' ht' hbes.inodes (hsame hend) (hlen.trans (max_eq_left hend))⟩

/-- **`itrunc`** returns. -/
theorem Holds.itrunc (hL : Layout sb nmeta) (h : Holds sb nmeta s con) (hi : i < sb.ninodes) :
    ∃ o, itrunc sb i (s.view i) = some o ∧
      Holds sb nmeta (s.put i o) (Function.update con i []) := by
  obtain ⟨use, nb, hinv, ht⟩ := h.inv
  obtain ⟨o, hrun, hino, hip, h'⟩ := hinv.itrunc hL hi
  exact ⟨_, hrun, h.save hL ht hi h' (by decide) hino rfl hip⟩

/-- **A call on the files is the call on the lists.** -/
theorem Holds.step (hL : Layout sb nmeta) (h : Holds sb nmeta s con) {l : Call × Ret} {t : Fs}
    (hs : Step sb s l t) : ∃ con', SpecStep con l con' ∧ Holds sb nmeta t con' := by
  obtain ⟨call, ret⟩ := l
  obtain ⟨hfits, hexec⟩ := hs
  cases call with
  | read i off n =>
    obtain ⟨hi, hoff, hn⟩ := hfits
    rw [Fs.exec, h.readi hi hoff hn, Option.map_some] at hexec
    dsimp only at hexec
    rw [Fs.put_view] at hexec
    obtain ⟨rfl, rfl⟩ := Prod.mk.inj (Option.some.inj hexec)
    refine ⟨con, ?_, h⟩
    rw [SpecStep, spec]
    split
    case isTrue hc => rfl
    case isFalse hc => rfl
  | write i off src =>
    obtain ⟨hi, hoff, hn⟩ := hfits
    obtain ⟨⟨r, o⟩, hw, hr⟩ := Option.map_eq_some_iff.1 hexec
    obtain ⟨rfl, rfl⟩ := Prod.mk.inj hr
    have hspec := h.writei hL hi hoff hn hw
    split at hspec
    case isTrue hc =>
      obtain ⟨rfl, h'⟩ := hspec
      exact ⟨_, if_pos hc, h'⟩
    case isFalse hc =>
      obtain ⟨rfl, rfl⟩ := hspec
      rw [Fs.put_view]
      exact ⟨con, if_neg hc, h⟩
  | trunc i =>
    obtain ⟨o, hrun, h'⟩ := h.itrunc hL hfits.1
    rw [Fs.exec, hrun] at hexec
    obtain ⟨rfl, rfl⟩ := Prod.mk.inj (Option.some.inj hexec)
    exact ⟨_, rfl, h'⟩

/-! ## Runs -/

/-- What a kernel that starts from the disk reads of the file `i`. -/
def reread (sb : Superblock) (i : Nat) (disk : Nat → Sector) : Option (List Byte) :=
  (ilock sb i disk).bind fun ip =>
    (readi sb (fun _ _ => none) 0 ip.size ⟨disk, ip⟩).bind Prod.fst

theorem Holds.reread (h : Holds sb nmeta s con) (hi : s.IsFile sb i) (hty : (s.ip i).type ≠ 0) :
    reread sb i s.disk = some (con i) := by
  obtain ⟨hlt, hdev⟩ := hi
  obtain ⟨use, nb, hinv, -⟩ := h.inv
  have hsaved := h.saved i hlt
  have hsize := h.size i hlt
  have hlen : (con i).length < 2 ^ 32 := (hinv.length_le hlt).trans_lt (by decide)
  have hf := (hinv.file i hlt).agree hsaved.addrs
  have hs : (onDisk sb i s.disk).size = (con i).length := hsaved.size.trans hsize
  have hread : Kernel.readi sb (fun _ _ => none) 0 (con i).length ⟨s.disk, onDisk sb i s.disk⟩ =
      some (some (((con i).drop 0).take (con i).length), ⟨s.disk, onDisk sb i s.disk⟩) :=
    readi_spec ⟨use, i, nb i, hf⟩ (by rwa [hsaved.type]) (Nat.zero_add _).le hs.ge
      (hs.trans_lt hlen)
  rw [Files.reread, ilock_onDisk, if_neg (by rwa [hsaved.type]), Option.bind_some, hs, hread,
    Option.bind_some, List.drop_zero, List.take_length]

/-- Runs on the files are runs on the lists. -/
theorem Holds.run (hL : Layout sb nmeta) (h : Holds sb nmeta s con) {ls : List (Call × Ret)}
    {t : Fs} (hr : Run (Step sb) s ls t) :
    ∃ con', Run SpecStep con ls con' ∧ Holds sb nmeta t con' := by
  refine Run.refine ?_ hr con h
  intro s con l t h hs
  exact h.step hL hs

/-! ## A small disk -/

/-- Sixteen blocks: one of inodes, one of the bitmap, twelve of data. -/
def tiny : Superblock where
  size := 16
  nblocks := 12
  ninodes := 2
  nlog := 0
  logstart := 2
  inodestart := 2
  bmapstart := 3

/-- Two empty files. -/
def fresh : Fs where
  disk := fun n =>
    if n = 2 then putNum (putNum zeroes 0 2 2) 64 2 2
    else if n = 3 then fun p => if p = 0 then 0x0f else 0
    else zeroes
  ip := fun _ => { type := 2, nlink := 1, size := 0, addrs := fun _ => 0 }

theorem tiny_layout : Layout tiny 4 := by
  refine ⟨by decide, by decide, fun b i hb hi => ?_, by decide, by decide⟩
  have hb' : b < 16 := hb
  have hi' : i < 2 := hi
  show b / 4096 + 3 ≠ i / 8 + 2
  omega

theorem fresh_holds : Holds tiny 4 fresh fun _ => [] := by
  have hbits : Bits tiny 4 fresh.disk fun _ => none := by
    show ∀ b, b < 16 → (isFree tiny fresh.disk b = false ↔
      b < 4 ∨ (none : Option (Nat × Nat)).isSome = true)
    decide +kernel
  have hsaved : ∀ i, i < 2 → (onDisk tiny i fresh.disk).type = 2 ∧
      (onDisk tiny i fresh.disk).size = 0 ∧
      ∀ k, k ≤ NDIRECT → (onDisk tiny i fresh.disk).addrs k = 0 := by decide +kernel
  have htight : 0 * BSIZE < ([] : List Byte).length + BSIZE := by decide
  exact
    { inv := ⟨fun _ => none, fun _ => 0,
        ⟨hbits, nofun, nofun, fun i _ => fileOk_empty fun _ _ => rfl⟩, fun _ _ => htight⟩
      size := fun _ _ => rfl
      saved := fun i hi => ⟨(hsaved i hi).1, (hsaved i hi).2.1, (hsaved i hi).2.2⟩ }

/-- A call on a state, and the state after it. -/
def Fs.after (sb : Superblock) (s : Fs) (c : Call) : Fs :=
  ((s.exec sb c).map Prod.snd).getD s

theorem Fs.step_after {call : Call} {ret : Ret} (hf : call.Fits sb s)
    (h : (s.exec sb call).map Prod.fst = some ret) : Step sb s (call, ret) (s.after sb call) := by
  obtain ⟨⟨r, t⟩, hex, rfl⟩ := Option.map_eq_some_iff.1 h
  refine ⟨hf, ?_⟩
  rw [Fs.after, hex]
  rfl

/-- **A store of files.** In every run the answers of the calls are those of lists of bytes,
and after it the disk alone has the lists. -/
theorem store_of_files (hL : Layout sb nmeta) (h : Holds sb nmeta s con)
    {ls : List (Call × Ret)} {t : Fs} (hr : Run (Step sb) s ls t) :
    ∃ con', Run SpecStep con ls con' ∧
      ∀ i, t.IsFile sb i → (t.ip i).type ≠ 0 → reread sb i t.disk = some (con' i) := by
  obtain ⟨con', hrun, h'⟩ := h.run hL hr
  exact ⟨con', hrun, fun i hi hty => h'.reread hi hty⟩

/-- Two bytes are written, and one of them is read. -/
def served : Fs := (fresh.after tiny (.write 1 0 [7, 8])).after tiny (.read 1 1 5)

theorem served_run : Run (Step tiny) fresh
    [(.write 1 0 [7, 8], .num 2), (.read 1 1 5, .bytes [8])] served := by
  have hw : Step tiny fresh (.write 1 0 [7, 8], .num 2) (fresh.after tiny (.write 1 0 [7, 8])) :=
    Fs.step_after ⟨⟨by decide, by decide⟩, by decide, by decide⟩ (by decide +kernel)
  have hr : Step tiny (fresh.after tiny (.write 1 0 [7, 8])) (.read 1 1 5, .bytes [8]) served :=
    Fs.step_after ⟨⟨by decide, by decide +kernel⟩, by decide, by decide⟩ (by decide +kernel)
  exact .cons hw (.cons hr (.nil served))

theorem store_of_files_served : ∃ con', Run SpecStep (fun _ => [])
    [(.write 1 0 [7, 8], .num 2), (.read 1 1 5, .bytes [8])] con' ∧
      ∀ i, served.IsFile tiny i → (served.ip i).type ≠ 0 →
        reread tiny i served.disk = some (con' i) :=
  store_of_files tiny_layout fresh_holds served_run

/-- Block `b` is block `k` of file `i`; the indirect block counts as one after the last. -/
def Fs.IsBlock (s : Fs) (i k b : Nat) : Prop :=
  b ≠ 0 ∧ (k < MAXFILE ∧ blockAt s.disk (s.ip i) k = b ∨
    k = MAXFILE ∧ (s.ip i).addrs NDIRECT = b)

theorem Inv.isBlock_iff (hL : Layout sb nmeta) (h : Inv sb nmeta s use nb con)
    (hi : i < sb.ninodes) : s.IsBlock i k b ↔ use b = some (i, k) := by
  have hf := h.file i hi
  constructor
  · rintro ⟨hb, ⟨hk, rfl⟩ | ⟨rfl, rfl⟩⟩
    · exact hf.used k ((hf.some_iff k hk).1 hb)
    · exact hf.usedIndirect hb
  · intro hu
    have hb : b ≠ 0 := (hL.pos.trans_le (h.use_lt b _ hu).1).ne'
    exact ⟨hb, (h.owned b i k hu).2.imp_left fun hk => ⟨hk.1.trans_le hf.nb_le, hk.2⟩⟩

/-- **No block is lost or shared.** In every state of a run the bitmap has the metadata and the
blocks of the files, no block is at two places, and a file has as many as its size needs. -/
theorem blocks_accounted (hL : Layout sb nmeta) (h : Holds sb nmeta s con)
    {ls : List (Call × Ret)} {t : Fs} (hr : Run (Step sb) s ls t) :
    (∀ b, b < sb.size → (isFree sb t.disk b = false ↔
      b < nmeta ∨ ∃ i k, i < sb.ninodes ∧ t.IsBlock i k b)) ∧
    (∀ i j k l b, i < sb.ninodes → j < sb.ninodes → t.IsBlock i k b → t.IsBlock j l b →
      i = j ∧ k = l) ∧
    (∀ i k, i < sb.ninodes → k < MAXFILE →
      ((∃ b, t.IsBlock i k b) ↔ k * BSIZE < (t.ip i).size)) := by
  obtain ⟨con', -, h'⟩ := h.run hL hr
  obtain ⟨use, nb, hinv, ht⟩ := h'.inv
  refine ⟨fun b hb => ?_, fun i j k l b hi hj hk hl => ?_, fun i k hi hk => ?_⟩
  · rw [hinv.bits b hb, Option.isSome_iff_exists]
    refine or_congr_right ⟨?_, ?_⟩
    · rintro ⟨⟨i, k⟩, hu⟩
      have hi := (hinv.owned b i k hu).1
      exact ⟨i, k, hi, (hinv.isBlock_iff hL hi).2 hu⟩
    · rintro ⟨i, k, hi, hk⟩
      exact ⟨(i, k), (hinv.isBlock_iff hL hi).1 hk⟩
  · rw [hinv.isBlock_iff hL hi] at hk
    rw [hinv.isBlock_iff hL hj] at hl
    exact Prod.mk.inj (Option.some.inj (hk.symm.trans hl))
  · have hf := hinv.file i hi
    have hsome : (∃ b, t.IsBlock i k b) ↔ blockAt t.disk (t.ip i) k ≠ 0 := by
      constructor
      · rintro ⟨b, hb, ⟨-, rfl⟩ | ⟨rfl, -⟩⟩
        · exact hb
        · exact absurd hk (lt_irrefl _)
      · exact fun h0 => ⟨_, h0, Or.inl ⟨hk, rfl⟩⟩
    rw [hsome, hf.some_iff k hk, h'.size i hi]
    have htight : nb i * BSIZE < (con' i).length + BSIZE := ht i hi
    constructor
    · intro hlt
      have hmul : (k + 1) * BSIZE ≤ nb i * BSIZE := Nat.mul_le_mul_right _ hlt
      rw [Nat.add_one_mul] at hmul
      exact Nat.lt_of_add_lt_add_right (hmul.trans_lt htight)
    · exact fun hlt => Nat.lt_of_mul_lt_mul_right (hlt.trans_le hf.cover)

theorem blocks_accounted_served :
    (∀ b, b < tiny.size → (isFree tiny served.disk b = false ↔
      b < 4 ∨ ∃ i k, i < tiny.ninodes ∧ served.IsBlock i k b)) ∧
    (∀ i j k l b, i < tiny.ninodes → j < tiny.ninodes → served.IsBlock i k b →
      served.IsBlock j l b → i = j ∧ k = l) ∧
    (∀ i k, i < tiny.ninodes → k < MAXFILE →
      ((∃ b, served.IsBlock i k b) ↔ k * BSIZE < (served.ip i).size)) :=
  blocks_accounted tiny_layout fresh_holds served_run

end Xv6.Kernel.Files
