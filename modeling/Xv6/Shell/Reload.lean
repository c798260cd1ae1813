/-
What an inode has after it left the cache.

In a run in which no call of link finds a file with 2^13 - 1 links the disk has what was
stored last, a reload changes nothing, the counts are those of the links, and no inode is
freed under its entries. When the count of a file goes from 2^13 - 1 to 2^13 the disk
has 0: after 8191 links to the file of an image, in two directories, a reload of it brings
back no link and `iput` frees it under 8192 entries.
-/
import Xv6.Shell.Link

set_option autoImplicit false

namespace Xv6.Shell

namespace Links

open Xv6.Lib

namespace Fs

variable {s t : Fs} {i : Nat}

/-! ## What survives -/

/-- Inode `i` leaves the cache, and comes back when it is locked. -/
def reload (i : Nat) (s : Fs) : Option Fs :=
  ((s.setCache i { s.cache i with ref := 0 }).iget i).ilock i

/-- The lock of an inode that was not cached reads it. -/
theorem ilock_iget (href : (s.cache i).ref = 0) (h : (s.disk i).type ≠ 0) :
    (s.iget i).ilock i = some ((s.iget i).setCache i ⟨1, true, (s.disk i).toMemory⟩) := by
  have hget : (s.iget i).cache i = { s.cache i with ref := 1, valid := false } := by
    simp [iget, setCache, href]
  unfold ilock
  simp only [hget]
  rw [if_neg Nat.one_ne_zero, if_neg Bool.false_ne_true]
  exact if_neg h

/-- The metadata of the inodes do not depend on the cache. -/
structure Survives (s : Fs) : Prop where
  /-- The disk has what was stored last. -/
  stored : ∀ i, (s.disk i).toMemory = s.stored i
  /-- A reload leaves an inode in memory as it was. -/
  reload : ∀ i, (s.cache i).valid = true →
    ∃ t, s.reload i = some t ∧ (t.cache i).ip = (s.cache i).ip
  /-- The count is the one of the links. -/
  links : ∀ i, (s.disk i).type ≠ 0 →
    (s.disk i).toMemory.nlink.toNat + s.removed i = s.made i
  /-- No inode is freed under its entries. -/
  kept : ∀ i, s.dies i = true → ∀ e ∈ s.entries, e.inum ≠ i

theorem Sound.survives (hs : Sound s) : Survives s where
  stored := hs.mirror.stored
  reload i hi := by
    refine ⟨_, ilock_iget (by simp [setCache]) (hs.mirror.alive i hi), ?_⟩
    simp only [setCache, if_true]
    exact hs.mirror.reload i hi
  links i hi := by
    rw [Dinode.nlink_toMemory]
    exact hs.balanced.counted i hi
  kept i hi := by
    simp only [dies, Bool.and_eq_true, beq_iff_eq] at hi
    obtain ⟨⟨hv, h0⟩, -⟩ := hi
    refine hs.balanced.no_entry (hs.mirror.alive i hv) ?_
    show (s.disk i).nlink.toNat = 0
    rw [← hs.mirror.locked_nlink hv, h0]
    rfl

theorem Sound.run {es : List Event} (h : Run (Guarded Step Narrow) s es t) (hs : Sound s) :
    Sound t :=
  h.invariant (P := Sound) (fun _ _ _ hstep hs => hs.step hstep.1 hstep.2) hs

/-- **The metadata of inodes survive** every run in which no call of link finds a file with
2^13 - 1 links. -/
theorem metadata_survives (names : List Name) (content : Nat → BitVec 32 × Addrs)
    {es : List Event} (h : Run (Guarded Step Narrow) (boot names content) es s) : Survives s :=
  ((sound_boot names content).run h).survives

instance (s : Fs) : (e : Event) → Decidable (Narrow s e)
  | .linkStart i =>
    inferInstanceAs (Decidable ((s.disk i).type ≠ T_DIR → (s.disk i).nlink.toNat + 1 < 2 ^ 13))
  | .iget _ | .ilock _ | .iput _ | .write .. | .chmod .. | .linkEnd .. | .linkBad _ | .create ..
  | .unlink .. => inferInstanceAs (Decidable True)

/-! ## A run -/

/-- The blocks of a file of `n` entries, from block `b` on. -/
def blocks (b n : Nat) : Addrs := fun j => if 32 * j.val < n then BitVec.ofNat 32 (b + j) else 0

/-- Each inode of the image has a block. -/
def oneBlock (i : Nat) : BitVec 32 × Addrs := (512, blocks (100 * i) 1)

/-- A file "b" is made, linked to as "c", and unlinked. -/
def shortRun : List Event :=
  [.iget 1, .create 1 [98] T_FILE 0 0 none none, .linkStart 3, .linkEnd 3 1 [99] none, .iget 3,
    .ilock 3, .chmod 3 5, .unlink 1 [98], .iput 3]

theorem metadata_survives_shortRun :
    ∃ t, execIf step Narrow shortRun (boot [[97]] oneBlock) = some t ∧ Survives t := by
  obtain ⟨t, ht⟩ := Option.isSome_iff_exists.1
    (show (execIf step Narrow shortRun (boot [[97]] oneBlock)).isSome = true by decide)
  exact ⟨t, ht, metadata_survives _ _ (run_of_execIf ht)⟩

/-! ## 8192 links -/

/-- The name of link `k`, of two characters. -/
def linkName (k : Nat) : Name := [UInt8.ofNat (48 + k % 64), UInt8.ofNat (48 + k / 64)]

/-- A directory has room for 4480 entries: the links are in the root and in inode 3. -/
def linkDir (k : Nat) : Nat := if k < 4096 then ROOTINO else 3

/-- What the entry of link `k` leaves: the first block of the root has room for 28. -/
def linkGrowth (k : Nat) : Option (BitVec 32 × Addrs) :=
  if k < 28 then none
  else if k < 4096 then some (BitVec.ofNat 32 (16 * (k + 5)), blocks 100 (k + 5))
  else some (BitVec.ofNat 32 (16 * (k - 4093)), blocks 300 (k - 4093))

/-- Directory 3 is made, and `k` links to file 2. -/
def links : Nat → List Event
  | 0 => [.iget 1, .create 1 [100] T_DIR 0 0 (some (32, blocks 300 2)) none, .iput 3, .iget 3,
      .ilock 3]
  | k + 1 => links k ++
    [Event.iget 2, .linkStart 2, .linkEnd 2 (linkDir k) (linkName k) (linkGrowth k)]

/-- The file has had `n` links, whether the disk can say so or not, and the first `k` of
the entries have been written. -/
structure Linked (n k : Nat) (s : Fs) : Prop where
  type : (s.disk 2).type = T_FILE
  nlink : (s.disk 2).nlink = BitVec.ofNat 13 n
  stored : (s.stored 2).nlink = BitVec.ofNat 16 n
  dirs : ∀ d, d = ROOTINO ∨ d = 3 →
    0 < (s.cache d).ref ∧ (s.cache d).valid = true ∧ (s.cache d).ip.type = T_DIR
  first : (⟨ROOTINO, [97], 2⟩ : Entry) ∈ s.entries
  names : ∀ e ∈ s.entries, e.name.length = 2 → ∃ j < k, e.name = linkName j

/-- Nobody refers to the file. -/
def Unused (s : Fs) : Prop := (s.cache 2).ref = 0 ∧ s.pending = []

/-- A call of link has counted its link. -/
structure Started (n : Nat) (s : Fs) : Prop where
  ref : (s.cache 2).ref = 1
  nlink : (s.cache 2).ip.nlink = BitVec.ofNat 16 n
  pending : s.pending = [2]

theorem linkDir_cases (k : Nat) : linkDir k = ROOTINO ∨ linkDir k = 3 := by
  unfold linkDir
  split
  · exact .inl rfl
  · exact .inr rfl

theorem linkName_inj {j k : Nat} (hj : j < 8192) (hk : k < 8192) (h : linkName j = linkName k) :
    j = k := by
  simp only [linkName, List.cons.injEq, and_true, ← UInt8.toNat_inj, UInt8.toNat_ofNat'] at h
  omega

theorem isDot_linkName (k : Nat) : isDot (linkName k) = false := by
  have h1 : linkName k ≠ [46] := by simp [linkName]
  have h2 : linkName k ≠ [46, 46] := by
    intro h
    simp only [linkName, List.cons.injEq, and_true, ← UInt8.toNat_inj, UInt8.toNat_ofNat'] at h
    have : (48 + k % 64) % 2 ^ 8 = 46 := h.1
    omega
  rw [isDot, beq_eq_false_iff_ne.2 h1, beq_eq_false_iff_ne.2 h2]
  rfl

/-- The name of the next link is free. -/
theorem Linked.not_found {n k : Nat} (h : Linked n k s) (hk : k < 8192) (d : Nat) :
    s.found d (linkName k) = false := by
  have hnone : s.lookup d (linkName k) = none := by
    rw [lookup, Option.map_eq_none_iff, List.find?_eq_none]
    rintro e he hde
    simp only [decide_eq_true_eq] at hde
    obtain ⟨j, hj, hname⟩ := h.names e he (by rw [hde.2]; rfl)
    have := linkName_inj (hj.trans hk) hk (hname.symm.trans hde.2)
    omega
  rw [found, isDot_linkName k, hnone]
  rfl

theorem linkStart_linked {n k : Nat} (h : Linked n k s) (hu : Unused s) (hn : n < 2 ^ 13) :
    ∃ t, exec step [.iget 2, .linkStart 2] s = some t ∧ Linked (n + 1) k t ∧ Started (n + 1) t := by
  have halive : (s.disk 2).type ≠ 0 := by
    rw [h.type]
    decide
  have hlock := ilock_iget hu.1 halive
  set u := (s.iget 2).setCache 2 ⟨1, true, (s.disk 2).toMemory⟩ with hudef
  have hcache : u.cache 2 = ⟨1, true, (s.disk 2).toMemory⟩ := by simp [hudef, setCache]
  have hfile : ¬ (u.cache 2).ip.type = T_DIR := by
    rw [hcache]
    show ¬ (s.disk 2).type = T_DIR
    rw [h.type]
    decide
  have hpos : (s.iget 2).pending.count 2 < ((s.iget 2).cache 2).ref := by
    show s.pending.count 2 < _
    simp [hu.2, iget, setCache, hu.1]
  have hcount : (s.disk 2).toMemory.nlink + 1 = BitVec.ofNat 16 (n + 1) := by
    apply BitVec.eq_of_toNat_eq
    simp only [BitVec.toNat_add, Dinode.nlink_toMemory, h.nlink, BitVec.toNat_ofNat]
    show (n % 2 ^ 13 + 1) % 2 ^ 16 = (n + 1) % 2 ^ 16
    omega
  have hdirs : ∀ d, d ≠ 2 → u.cache d = s.cache d := fun d hd => by
    simp [hudef, setCache, iget, hd]
  obtain ⟨t, ht⟩ : ∃ t, t =
      { (u.store 2 fun ip => { ip with nlink := ip.nlink + 1 }).make 2 with
        pending := 2 :: u.pending } := ⟨_, rfl⟩
  have hip : (t.cache 2).ip = { (s.disk 2).toMemory with nlink := BitVec.ofNat 16 (n + 1) } := by
    rw [← hcount, ht]
    simp [make, store, setDisk, setCache, hcache]
  have hdisk : t.disk 2 = (t.cache 2).ip.toDisk := by
    rw [ht]
    simp [make, store, setDisk, setCache]
  have hstored : t.stored 2 = (t.cache 2).ip := by
    rw [ht]
    simp [make, store, setDisk, setCache]
  have hother : ∀ d, d ≠ 2 → t.cache d = s.cache d := by
    intro d hd
    rw [ht]
    simp [make, store, setDisk, setCache, hd, hudef, iget]
  refine ⟨t, ?_, ⟨?_, ?_, ?_, fun d hd => ?_, ?_, ?_⟩, ?_, ?_, ?_⟩
  · simp only [exec, step, if_pos hpos, sys_link_start, hlock, Option.bind_some, Option.map_some,
      if_neg hfile, ht]
    rfl
  · rw [hdisk, hip]
    exact h.type
  · rw [hdisk, hip]
    exact BitVec.setWidth_ofNat_of_le (show 13 ≤ 16 by decide) (n + 1)
  · rw [hstored, hip]
  · rw [hother d (by rintro rfl; simp at hd)]
    exact h.dirs d hd
  · rw [ht]
    exact h.first
  · rw [ht]
    exact h.names
  · rw [ht]
    simp [make, store, setDisk, setCache, hcache]
  · rw [hip]
  · rw [ht]
    show 2 :: s.pending = [2]
    rw [hu.2]

/-- What a write to directory `d` leaves of the other inodes, and of `d`. -/
theorem grow_frame (d : Nat) (g : Option (BitVec 32 × Addrs)) (s : Fs) :
    (∀ j, j ≠ d → (s.grow d g).disk j = s.disk j ∧ (s.grow d g).stored j = s.stored j) ∧
      (∀ j, ((s.grow d g).cache j).ref = (s.cache j).ref ∧
        ((s.grow d g).cache j).valid = (s.cache j).valid ∧
        ((s.grow d g).cache j).ip.type = (s.cache j).ip.type ∧
        ((s.grow d g).cache j).ip.nlink = (s.cache j).ip.nlink) ∧
      (s.grow d g).entries = s.entries := by
  cases g with
  | none => exact ⟨fun _ _ => ⟨rfl, rfl⟩, fun _ => ⟨rfl, rfl, rfl, rfl⟩, rfl⟩
  | some g =>
    refine ⟨fun j hj => ?_, fun j => ?_, rfl⟩
    · simp [grow, store, setDisk, setCache, hj]
    · by_cases hj : j = d
      · simp [grow, store, setDisk, setCache, hj]
      · simp [grow, store, setDisk, setCache, hj]

theorem linkEnd_linked {n k : Nat} (h : Linked n k s) (hs : Started n s) (h0 : 0 < n)
    (hn : n < 2 ^ 16) (hk : k < 8192) (g : Option (BitVec 32 × Addrs)) :
    ∃ t, step (.linkEnd 2 (linkDir k) (linkName k) g) s = some t ∧ Linked n (k + 1) t ∧
      Unused t := by
  obtain ⟨href, hvalid, hdir⟩ := h.dirs _ (linkDir_cases k)
  have hlock : s.ilock (linkDir k) = some s := by
    unfold ilock
    simp only
    rw [if_neg href.ne', if_pos hvalid]
  have hd2 : 2 ≠ linkDir k := by
    rcases linkDir_cases k with hd | hd <;> rw [hd] <;> decide
  obtain ⟨hframe, hcache, hentries⟩ := grow_frame (linkDir k) g s
  set w : Fs := { s.dirlink (linkDir k) (linkName k) 2 g with pending := s.pending.erase 2 } with hw
  have hwc : ∀ j, w.cache j = (s.grow (linkDir k) g).cache j := fun j => rfl
  have hnl : (w.cache 2).ip.nlink ≠ 0 := by
    rw [hwc, (hcache 2).2.2.2, hs.nlink]
    intro hzero
    have := congrArg BitVec.toNat hzero
    simp only [BitVec.toNat_ofNat] at this
    rw [Nat.mod_eq_of_lt hn] at this
    exact h0.ne' this
  have hdies : w.dies 2 = false := by
    rw [dies, beq_false_of_ne hnl, Bool.and_false, Bool.false_and]
  have hput : w.iput 2 = w.setCache 2 { w.cache 2 with ref := (w.cache 2).ref - 1 } := by
    simp [iput, hdies]
  refine ⟨w.iput 2, ?_, ?_, ?_⟩
  · have hpending : 2 ∈ s.pending := by simp [hs.pending]
    simp only [step, if_pos hpending, sys_link_end, hlock, Option.bind_some]
    rw [if_pos ⟨hdir, h.not_found hk _⟩]
  · rw [hput]
    refine ⟨?_, ?_, ?_, fun d hd => ?_, ?_, fun e he hlen => ?_⟩
    · exact (congrArg Dinode.type (hframe 2 hd2).1).trans h.type
    · exact (congrArg Dinode.nlink (hframe 2 hd2).1).trans h.nlink
    · exact (congrArg Inode.nlink (hframe 2 hd2).2).trans h.stored
    · have hne : d ≠ 2 := by
        rintro rfl
        simp at hd
      have hkept : (w.setCache 2 { w.cache 2 with ref := (w.cache 2).ref - 1 }).cache d =
          (s.grow (linkDir k) g).cache d := if_neg hne
      rw [hkept, (hcache d).1, (hcache d).2.1, (hcache d).2.2.1]
      exact h.dirs d hd
    · show _ ∈ _ :: (s.grow (linkDir k) g).entries
      rw [hentries]
      exact List.mem_cons_of_mem _ h.first
    · rcases List.mem_cons.1 he with rfl | he
      · exact ⟨k, Nat.lt_succ_self k, rfl⟩
      · rw [hentries] at he
        obtain ⟨j, hj, hname⟩ := h.names e he hlen
        exact ⟨j, hj.trans (Nat.lt_succ_self k), hname⟩
  · rw [hput]
    refine ⟨?_, ?_⟩
    · simp [setCache, hwc, (hcache 2).1, hs.ref]
    · show s.pending.erase 2 = []
      rw [hs.pending]
      rfl

theorem links_begin : (exec step (links 0) (boot [[97]] oneBlock)).isSome = true := by decide

theorem links_linked (k : Nat) (hk : k < 2 ^ 13) :
    ∃ s, Run Step (boot [[97]] oneBlock) (links k) s ∧ Linked (k + 1) k s ∧ Unused s := by
  induction k with
  | zero =>
    refine ⟨_, run_of_exec (Option.some_get links_begin).symm,
      ⟨by decide, by decide, by decide, fun d hd => ?_, by decide, fun e he hlen => ?_⟩,
      by decide, by decide⟩
    · rcases hd with rfl | rfl <;> decide
    · have hnames : ∀ e ∈ ((exec step (links 0) (boot [[97]] oneBlock)).get links_begin).entries,
          e.name.length ≠ 2 := by decide
      exact absurd hlen (hnames e he)
  | succ k ih =>
    obtain ⟨s, hrun, hL, hU⟩ := ih (by omega)
    obtain ⟨u, hu, hLu, hS⟩ := linkStart_linked hL hU (by omega)
    obtain ⟨t, ht, hLt, hUt⟩ :=
      linkEnd_linked hLu hS (by omega) (by omega) (by omega) (linkGrowth k)
    exact ⟨t, hrun.append ((run_of_exec hu).snoc ht), hLt, hUt⟩

/-- **A count is lost**: the file "a" has 8192 links and entries, and is freed. -/
theorem links_lost : ∃ s,
    Run Step (boot [[97]] oneBlock) (links 8191 ++ [Event.iget 2, .ilock 2]) s ∧
    (s.stored 2).nlink = 8192 ∧ (s.disk 2).toMemory.nlink = 0 ∧
    s.dies 2 = true ∧ (⟨ROOTINO, [97], 2⟩ : Entry) ∈ s.entries ∧ ¬ Survives s := by
  obtain ⟨s, hrun, hL, hU⟩ := links_linked 8191 (by decide)
  have halive : (s.disk 2).type ≠ 0 := by
    rw [hL.type]
    decide
  have hlock := ilock_iget hU.1 halive
  set t := (s.iget 2).setCache 2 ⟨1, true, (s.disk 2).toMemory⟩ with ht
  have hnlink : (s.disk 2).toMemory.nlink = 0 := by
    show (s.disk 2).nlink.setWidth 16 = 0
    rw [hL.nlink]
    rfl
  have hdies : t.dies 2 = true := by
    simp [dies, ht, setCache, hnlink]
  refine ⟨t, hrun.append (.cons rfl (.cons hlock (.nil t))), hL.stored, hnlink, hdies, hL.first,
    fun h => ?_⟩
  exact h.kept 2 hdies _ hL.first rfl

end Fs

end Links

end Xv6.Shell
