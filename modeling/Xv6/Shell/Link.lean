/-
The calls that make and remove links: each is a run of the ledger, as long as no call of
link finds a file whose count fills the 13 bits that the disk has for it (`Narrow`). So
the inodes in memory stay the ones on disk, and the counts stay balanced.
-/
import Xv6.Shell.Inode

set_option autoImplicit false

namespace Xv6.Shell

namespace Links

open Xv6.Lib

namespace Fs

variable {s t : Fs} {i : Nat}

/-! ## The calls -/

/-- A step keeps the mirror, and the ledger sees steps of its own. -/
def Refines (s t : Fs) : Prop := Mirror t ∧ ∃ ls, Run Ledger.Step s.ledger ls t.ledger

theorem Refines.of_eq (ht : Mirror t) (h : t.ledger = s.ledger) : Refines s t :=
  ⟨ht, [], by rw [h]; exact .nil _⟩

theorem Refines.of_step (ht : Mirror t) (h : Ledger.Step s.ledger () t.ledger) : Refines s t :=
  ⟨ht, [()], .cons h (.nil _)⟩

theorem Refines.start {w : Fs} (h : w.ledger = s.ledger) : Refines s t ↔ Refines w t := by
  unfold Refines
  rw [h]

theorem Refines.trans {u : Fs} (h : Refines s t) (h' : Refines t u) : Refines s u := by
  obtain ⟨ls, hr⟩ := h.2
  obtain ⟨ms, hr'⟩ := h'.2
  exact ⟨h'.1, ls ++ ms, hr.append hr'⟩

theorem sys_link_start_spec (hs : Mirror s) (hown : s.pending.count i < (s.cache i).ref)
    (hn : (s.disk i).type ≠ T_DIR → (s.disk i).nlink.toNat + 1 < 2 ^ 13)
    (h : s.sys_link_start i = some t) : Refines s t := by
  obtain ⟨u, hu, rfl⟩ := Option.map_eq_some_iff.1 h
  have hL := ilock_spec hs hu
  have htype : (u.cache i).ip.type = (s.disk i).type := by
    rw [hL.mirror.locked_type hL.self, hL.disk]
  by_cases hd : (u.cache i).ip.type = T_DIR
  · rw [if_pos hd]
    refine (Refines.of_eq hL.mirror hL.ledger).trans (iput_spec hL.mirror ?_)
    rw [hL.pending, hL.ref]
    exact hown
  · rw [if_neg hd]
    have hnu : (u.disk i).nlink.toNat + 1 < 2 ^ 13 := by
      rw [hL.disk]
      exact hn (htype ▸ hd)
    obtain ⟨hU, hadd⟩ := store_incr hL.mirror hL.self hnu
    refine .of_step ⟨hU.mirror.reload, hU.mirror.alive, fun j => ?_, hU.mirror.stored⟩ ?_
    · have hj := hL.mirror.owned j
      show (i :: _).count j ≤ _
      rw [hU.pending, hU.ref, List.count_cons]
      simp only [beq_iff_eq]
      split
      case isTrue hij =>
        subst hij
        rw [hL.pending, hL.ref]
        exact hown
      case isFalse => exact hj
    · have hstep := Ledger.Step.linkStart (L := s.ledger) i
        (by rw [← hL.ledger]; exact hL.mirror.alive i hL.self)
        (by show (s.disk i).type ≠ T_DIR; rw [← htype]; exact hd)
      rw [← hL.ledger, ← hadd] at hstep
      rw [← hL.ledger]
      exact hstep

theorem sys_link_bad_spec (hs : Mirror s) (hB : s.ledger.Balanced) (hi : i ∈ s.pending)
    (h : s.sys_link_bad i = some t) : Refines s t := by
  obtain ⟨u, hu, rfl⟩ := Option.map_eq_some_iff.1 h
  have hL := ilock_spec hs hu
  have hBu : u.ledger.Balanced := by
    rw [hL.ledger]
    exact hB
  have hiu : i ∈ u.ledger.pending := by
    rw [hL.ledger]
    exact hi
  have hnu : 1 ≤ (u.disk i).nlink.toNat := by
    have h1 := hBu.enough i (hBu.linked i hiu).1
    have h2 := Ledger.Balanced.uses_erasePending u.ledger hiu i
    rw [if_pos rfl] at h2
    exact le_trans (by omega) h1
  obtain ⟨hU, hdrop⟩ := store_dropLink hL.mirror hL.self hnu
  have hcount := Ledger.count_erase (l := u.pending) hiu
  refine (Refines.of_step ?_ ?_ : Refines s
    { (u.store i fun ip => { ip with nlink := ip.nlink - 1 }).remove i with
      pending := u.pending.erase i }).trans (iput_spec ?_ ?_)
  · refine ⟨hU.mirror.reload, hU.mirror.alive, fun j => ?_, hU.mirror.stored⟩
    have hj := hL.mirror.owned j
    have := hcount j
    show (u.pending.erase i).count j ≤ _
    rw [hU.ref]
    omega
  · have hstep := Ledger.Step.linkBad (L := u.ledger) i hiu
    rw [← hdrop] at hstep
    rw [← hL.ledger]
    exact hstep
  · refine ⟨hU.mirror.reload, hU.mirror.alive, fun j => ?_, hU.mirror.stored⟩
    have hj := hL.mirror.owned j
    have := hcount j
    show (u.pending.erase i).count j ≤ _
    rw [hU.ref]
    omega
  · have hj := hL.mirror.owned i
    have := hcount i
    rw [if_pos rfl] at this
    show (u.pending.erase i).count i < _
    rw [hU.ref]
    omega

theorem sys_link_end_spec (hs : Mirror s) {d : Nat} {name : Name}
    {g : Option (BitVec 32 × Addrs)} (hi : i ∈ s.pending)
    (h : s.sys_link_end i d name g = some t) : Refines s t := by
  obtain ⟨u, hu, h⟩ := Option.bind_eq_some_iff.1 h
  have hL := ilock_spec hs hu
  split at h
  case isFalse => cases h
  case isTrue hd =>
    obtain rfl := Option.some.inj h
    obtain ⟨hU, hgrow⟩ := grow_spec hL.mirror hL.self g
    have hiu : i ∈ u.ledger.pending := by
      rw [hL.ledger]
      exact hi
    have hcount := Ledger.count_erase (l := u.pending) hiu
    have hM : Mirror { u.dirlink d name i g with pending := u.pending.erase i } := by
      refine ⟨hU.mirror.reload, hU.mirror.alive, fun j => ?_, hU.mirror.stored⟩
      have hj := hL.mirror.owned j
      have := hcount j
      show (u.pending.erase i).count j ≤ ((u.grow d g).cache j).ref
      rw [hU.ref]
      omega
    refine (Refines.of_step hM ?_).trans (iput_spec hM ?_)
    · have hstep := Ledger.Step.linkEnd (L := u.ledger) i d name hiu
        (hL.mirror.alive d hL.self)
      rw [← hgrow] at hstep
      rw [← hL.ledger, ← hgrow]
      have hp : (u.grow d g).ledger.pending = u.pending := hU.pending
      rw [hp] at hstep
      exact hstep
    · have hj := hL.mirror.owned i
      have := hcount i
      rw [if_pos rfl] at this
      show (u.pending.erase i).count i < ((u.grow d g).cache i).ref
      rw [hU.ref]
      omega

theorem firstFree_spec (h : s.firstFree = some i) : i < NINODES ∧ (s.disk i).type = 0 := by
  refine ⟨?_, by simpa using List.find?_some h⟩
  have hmem := List.mem_of_find?_eq_some h
  rw [List.mem_range'_1] at hmem
  exact hmem.2

/-- `ialloc` takes a free inode and refers to it. -/
theorem ialloc_spec (hs : Mirror s) (hi : (s.disk i).type = 0) (type : BitVec 16) :
    Mirror (s.ialloc i type) ∧ (s.ialloc i type).ledger = s.ledger.alloc i type ∧
      (s.ialloc i type).entries = s.entries ∧
      ∀ j, j ≠ i → (s.ialloc i type).cache j = s.cache j := by
  have hinv : (s.cache i).valid ≠ true := fun hv => hs.alive i hv hi
  have hd : ∀ j, j ≠ i → (s.claim i type).disk j = s.disk j := fun j hj => if_neg hj
  have hclaim : Mirror (s.claim i type) := by
    refine ⟨fun j hj => ?_, fun j hj => ?_, hs.owned, fun j => ?_⟩
    · rw [hd j (by rintro rfl; exact hinv hj)]
      exact hs.reload j hj
    · rw [hd j (by rintro rfl; exact hinv hj)]
      exact hs.alive j hj
    · by_cases hji : j = i
      · simp [claim, setDisk, hji]
      · simp only [claim, setDisk, hji, if_false]
        exact hs.stored j
  obtain ⟨hM, hL, -, -⟩ := iget_spec hclaim i
  refine ⟨hM, hL.trans ?_, rfl, fun j hj => if_neg hj⟩
  unfold ledger claim setDisk Ledger.alloc
  congr 1
  · funext j
    by_cases hji : j = i
    · simp [hji]
    · simp [hji]
  · funext j
    by_cases hji : j = i
    · simp [hji, Dinode.zero]
    · simp [hji]

/-- `dirlink` into a locked directory. -/
theorem dirlink_spec (hs : Mirror s) {d : Nat} (hv : (s.cache d).valid = true) (name : Name)
    (i : Nat) (g : Option (BitVec 32 × Addrs)) :
    Mirror (s.dirlink d name i g) ∧
      (s.dirlink d name i g).ledger = s.ledger.addEntry ⟨d, name, i⟩ := by
  obtain ⟨hU, hgrow⟩ := grow_spec hs hv g
  refine ⟨⟨hU.mirror.reload, hU.mirror.alive, hU.mirror.owned, hU.mirror.stored⟩, ?_⟩
  rw [← hgrow]
  rfl

theorem create_spec (hs : Mirror s) (hB : s.ledger.Balanced) (hS : s.ledger.Snug) {d : Nat}
    {name : Name} {type major minor : BitVec 16} {dots g : Option (BitVec 32 × Addrs)}
    (h : s.create d name type major minor dots g = some t) : Refines s t := by
  obtain ⟨u, hu, h⟩ := Option.bind_eq_some_iff.1 h
  have hL := ilock_spec hs hu
  split at h
  case isTrue =>
    obtain rfl := Option.some.inj h
    exact .of_eq hL.mirror hL.ledger
  case isFalse hd =>
    obtain ⟨i, hfree, h⟩ := Option.bind_eq_some_iff.1 h
    obtain ⟨v, hv, rfl⟩ := Option.map_eq_some_iff.1 h
    obtain ⟨hN, hi⟩ := firstFree_spec hfree
    have hda := hL.mirror.alive d hL.self
    have hdi : d ≠ i := by
      rintro rfl
      exact hda hi
    obtain ⟨hA, hAL, -, hAc⟩ := ialloc_spec hL.mirror hi type
    have hLv := ilock_spec hA hv
    have hvL : v.ledger = s.ledger.alloc i type := by rw [hLv.ledger, hAL, hL.ledger]
    have hvd : (v.cache d).valid = true := by
      refine hLv.valid d ?_
      rw [hAc d hdi]
      exact hL.self
    have hv0 : (v.disk i).nlink.toNat = 0 := by
      show v.ledger.nlink i = 0
      rw [hvL]
      exact if_pos rfl
    have hvt : (v.disk i).type = type := by
      show v.ledger.type i = type
      rw [hvL]
      exact if_pos rfl
    have ht0 : type ≠ 0 := by
      rw [← hvt]
      exact hLv.mirror.alive i hLv.self
    obtain ⟨hW, hWL⟩ := store_addLink (f := fun ip =>
      { ip with major := major, minor := minor, nlink := 1, mode := 7 }) hLv.mirror hLv.self rfl
      ⟨show (1#16).toNat < 2 ^ 13 by decide, show (7#32).toNat < 2 ^ 3 by decide⟩
      (by rw [hv0]; rfl)
    have hi' : s.ledger.type i = 0 := by
      rw [← hL.ledger]
      exact hi
    have hd' : s.ledger.type d ≠ 0 := by
      rw [← hL.ledger]
      exact hda
    by_cases ht : type = T_DIR
    · simp only [ht, if_true] at hW hWL hvL ⊢
      have hwd := (hW.valid d).trans hvd
      -- `d` has few links, being a directory
      have hdir : s.ledger.type d = T_DIR := by
        rw [← hL.ledger]
        show (u.disk d).type = T_DIR
        rw [← hL.mirror.locked_type hL.self]
        exact not_not.1 fun hne => hd (Or.inl hne)
      have hle : s.ledger.nlink d ≤ 1 + NINODES := hS.nlink_le hB hdir
      have hnd : s.ledger.nlink d + 1 < 2 ^ 13 :=
        lt_of_le_of_lt (Nat.add_le_add_right hle 1) (by decide)
      obtain ⟨hX, hXL⟩ := store_incr hW.mirror hwd (by
        show Ledger.nlink (Fs.ledger _) d + 1 < _
        rw [hWL, hvL]
        simp only [Ledger.addLink, Ledger.alloc, hdi, if_false]
        exact hnd)
      obtain ⟨hY, hYL⟩ := grow_spec hX.mirror
        ((hX.valid i).trans ((hW.valid i).trans hLv.self)) dots
      obtain ⟨hZ, hZL⟩ := dirlink_spec hY.mirror
        ((hY.valid d).trans ((hX.valid d).trans hwd)) name i g
      refine .of_step hZ ?_
      rw [hZL, hYL, hXL, hWL, hvL]
      exact .mkdir i d name hi' hN hd'
    · simp only [ht, if_false]
      obtain ⟨hZ, hZL⟩ := dirlink_spec hW.mirror ((hW.valid d).trans hvd) name i g
      refine .of_step hZ ?_
      rw [hZL, hWL, hvL]
      exact .create i d name type hi' ht0 ht hd'

/-! ## Unlink -/

theorem lookup_mem {d : Nat} {name : Name} (h : s.lookup d name = some i) :
    (⟨d, name, i⟩ : Entry) ∈ s.entries := by
  obtain ⟨e, he, rfl⟩ := Option.map_eq_some_iff.1 h
  have hfound := List.find?_some he
  simp only [decide_eq_true_eq] at hfound
  obtain ⟨rfl, rfl⟩ := hfound
  exact List.mem_of_find?_eq_some he

/-- An inode is given up by whoever has taken a reference of its own to it. -/
theorem Updated.iput {u : Fs} (hU : Updated s u) (hown : s.pending.count i < (s.cache i).ref) :
    Refines u (u.iput i) := by
  refine iput_spec hU.mirror ?_
  rw [hU.pending, hU.ref]
  exact hown

theorem unlinkEntry_spec (hs : Mirror s) (hB : s.ledger.Balanced) {d : Nat} {name : Name}
    (hd : (s.cache d).valid = true) (hpos : 0 < (s.cache d).ref)
    (he : (⟨d, name, i⟩ : Entry) ∈ s.entries) (h : s.unlinkEntry d i name = some t) :
    Refines s t := by
  obtain ⟨hM, hledger, href, hvalid⟩ := iget_spec hs i
  obtain ⟨w, hw, h⟩ := Option.bind_eq_some_iff.1 h
  have hL := ilock_spec hM hw
  have hwl : w.ledger = s.ledger := hL.ledger.trans hledger
  have hBw : w.ledger.Balanced := by rwa [hwl]
  have hew : (⟨d, name, i⟩ : Entry) ∈ w.ledger.entries := by rwa [hwl]
  have hwd : (w.cache d).valid = true := hL.valid d (hvalid d hpos hd)
  have hown : w.pending.count i < (w.cache i).ref := by
    have hi := hs.owned i
    rw [hL.pending, hL.ref, href]
    exact Nat.lt_succ_of_le hi
  have htype : (w.cache i).ip.type = w.ledger.type i := hL.mirror.locked_type hL.self
  -- the state in which the entry has been erased
  have hE : Mirror (w.erase ⟨d, name, i⟩) :=
    ⟨hL.mirror.reload, hL.mirror.alive, hL.mirror.owned, hL.mirror.stored⟩
  rw [Refines.start hwl]
  split at h
  · cases h
  split at h
  case isTrue hdir =>
    split at h
    case isTrue =>
      obtain rfl := Option.some.inj h
      have ht : w.ledger.type i = T_DIR := htype.symm.trans hdir
      have hroom := hBw.rmdir_room hew ht
      have hnd : 1 ≤ (w.disk d).nlink.toNat := by
        have hd' := hroom d (hL.mirror.alive d hwd)
        simp only [if_true] at hd'
        exact le_trans (Nat.le_add_left 1 _) hd'
      obtain ⟨hU, hdrop⟩ := store_dropLink hE hwd hnd
      have hni : 1 ≤ ((w.erase ⟨d, name, i⟩).ledger.dropLink d).nlink i := by
        have hi' := hroom i (hL.mirror.alive i hL.self)
        simp only [if_true] at hi'
        show 1 ≤ if i = d then w.ledger.nlink i - 1 else w.ledger.nlink i
        by_cases hid : i = d
        · rw [if_pos hid.symm] at hi'
          rw [if_pos hid]
          omega
        · rw [if_neg hid]
          omega
      rw [← hdrop] at hni
      obtain ⟨hV, hdrop'⟩ := store_dropLink hU.mirror ((hU.valid i).trans hL.self) hni
      refine (Refines.of_step hV.mirror ?_).trans (hV.iput ?_)
      · rw [hdrop', hdrop]
        exact .rmdir ⟨d, name, i⟩ hew ht
      · rw [hU.pending, hU.ref]
        exact hown
    case isFalse =>
      obtain rfl := Option.some.inj h
      exact iput_spec hL.mirror hown
  case isFalse hdir =>
    obtain rfl := Option.some.inj h
    have ht : w.ledger.type i ≠ T_DIR := fun hty => hdir (htype.trans hty)
    have hni : 1 ≤ (w.disk i).nlink.toNat := hBw.nlink_pos hew
    obtain ⟨hU, hdrop⟩ := store_dropLink hE hL.self hni
    refine (Refines.of_step hU.mirror ?_).trans (hU.iput hown)
    rw [hdrop]
    exact .unlink ⟨d, name, i⟩ hew ht

theorem sys_unlink_spec (hs : Mirror s) (hB : s.ledger.Balanced) {d : Nat} {name : Name}
    (h : s.sys_unlink d name = some t) : Refines s t := by
  obtain ⟨u, hu, h⟩ := Option.bind_eq_some_iff.1 h
  have hL := ilock_spec hs hu
  have hlocked : Refines s u := .of_eq hL.mirror hL.ledger
  have hB' : u.ledger.Balanced := by rwa [hL.ledger]
  split at h
  · obtain rfl := Option.some.inj h
    exact hlocked
  split at h
  · obtain rfl := Option.some.inj h
    exact hlocked
  case h_2 i hfound =>
    refine hlocked.trans (unlinkEntry_spec hL.mirror hB' hL.self ?_ (lookup_mem hfound) h)
    rw [hL.ref]
    exact hL.pos

/-! ## Runs -/

structure Sound (s : Fs) : Prop where
  mirror : Mirror s
  balanced : s.ledger.Balanced
  snug : s.ledger.Snug

theorem Sound.refines (hs : Sound s) (h : Refines s t) : Sound t := by
  obtain ⟨hM, ls, hrun⟩ := h
  have hkept : t.ledger.Balanced ∧ t.ledger.Snug :=
    hrun.invariant (P := fun L => L.Balanced ∧ L.Snug)
      (fun _ _ _ hstep hL => ⟨hL.1.step hstep, hL.2.step hL.1 hstep⟩) ⟨hs.balanced, hs.snug⟩
  exact ⟨hM, hkept.1, hkept.2⟩

/-- **Every step of the calls keeps the mirror and the balance.** -/
theorem Sound.step {e : Event} (hs : Sound s) (hn : Narrow s e) (h : step e s = some t) :
    Sound t := by
  refine hs.refines ?_
  have hM := hs.mirror
  cases e with
  | iget i =>
    obtain rfl := Option.some.inj h
    exact .of_eq (iget_spec hM i).1 (iget_spec hM i).2.1
  | ilock i => exact .of_eq (ilock_spec hM h).mirror (ilock_spec hM h).ledger
  | iput i =>
    simp only [Fs.step, Option.ite_none_right_eq_some] at h
    obtain ⟨hown, h⟩ := h
    obtain rfl := Option.some.inj h
    exact iput_spec hM hown
  | write i size addrs =>
    obtain ⟨u, hu, rfl⟩ := Option.map_eq_some_iff.1 h
    have hL := ilock_spec hM hu
    obtain ⟨hU, hledger⟩ := grow_spec hL.mirror hL.self (some (size, addrs))
    exact .of_eq hU.mirror (hledger.trans hL.ledger)
  | chmod i mode =>
    obtain ⟨u, hu, rfl⟩ := Option.map_eq_some_iff.1 h
    have hL := ilock_spec hM hu
    have hmode : (mode &&& 7).toNat < 2 ^ 3 := by
      rw [BitVec.toNat_and]
      exact lt_of_le_of_lt Nat.and_le_right (by decide)
    obtain ⟨hU, hledger⟩ := store_same (f := fun ip => { ip with mode := mode &&& 7 }) hL.mirror
      hL.self rfl rfl hmode
    exact .of_eq hU.mirror (hledger.trans hL.ledger)
  | linkStart i =>
    simp only [Fs.step, Option.ite_none_right_eq_some] at h
    exact sys_link_start_spec hM h.1 hn h.2
  | linkEnd i d name g =>
    simp only [Fs.step, Option.ite_none_right_eq_some] at h
    exact sys_link_end_spec hM h.1 h.2
  | linkBad i =>
    simp only [Fs.step, Option.ite_none_right_eq_some] at h
    exact sys_link_bad_spec hM hs.balanced h.1 h.2
  | create d name type major minor dots g => exact create_spec hM hs.balanced hs.snug h
  | unlink d name => exact sys_unlink_spec hM hs.balanced h

variable (names : List Name) (content : Nat → BitVec 32 × Addrs)

theorem image_type (i : Nat) :
    (image names content i).type ≠ 0 ↔ 0 < i ∧ i < 2 + names.length := by
  simp only [image, ROOTINO]
  split
  · simp [fresh]
    omega
  split
  · simp [fresh]
    omega
  · simp [Dinode.zero]
    omega

theorem image_subdir {e : Entry} (he : e ∈ (boot names content).entries) :
    1 < e.inum ∧ e.inum < 2 + names.length ∧ e.dir = ROOTINO := by
  obtain ⟨⟨name, i⟩, hmem, rfl⟩ := List.mem_map.1 he
  obtain ⟨hlo, hhi, -⟩ := List.mem_zipIdx hmem
  exact ⟨hlo, hhi, rfl⟩

/-- The files of the image have an entry each. -/
theorem boot_entries_count (i : Nat) :
    (boot names content).entries.countP (fun e => e.inum == i) ≤ 1 := by
  have hinum : (boot names content).entries.map Entry.inum = List.range' 2 names.length := by
    simp [boot, List.map_map, Function.comp_def, ← List.zipIdx_map_snd]
  have hcount := List.nodup_iff_count_le_one.1 (List.nodup_range' (s := 2) (n := names.length)) i
  rw [← hinum, List.count, List.countP_map] at hcount
  exact hcount

theorem snug_boot : (boot names content).ledger.Snug := by
  have hroot : ∀ i, (boot names content).ledger.type i = T_DIR → i = ROOTINO := by
    intro i hi
    by_contra hne
    have himage : (image names content i).type = T_DIR := hi
    rw [image, if_neg hne] at himage
    split at himage <;> simp [fresh, Dinode.zero] at himage
  refine ⟨fun i hi => ?_, fun i hi => ?_⟩
  · rw [hroot i hi]
    exact Nat.le_add_right 1 _
  · rw [hroot i hi]
    decide

theorem sound_boot : Sound (boot names content) where
  snug := snug_boot names content
  mirror := {
    reload := fun _ h => nomatch h
    alive := fun _ h => nomatch h
    owned := fun _ => le_refl 0
    stored := fun _ => rfl }
  balanced := by
    have htype : ∀ i, (boot names content).ledger.type i ≠ 0 ↔ 0 < i ∧ i < 2 + names.length :=
      image_type names content
    have hsub : ∀ e ∈ (boot names content).entries, e.inum ≠ ROOTINO ∧
        (boot names content).ledger.type e.inum = T_FILE := by
      intro e he
      obtain ⟨h1, h2, -⟩ := image_subdir names content he
      have hne : e.inum ≠ ROOTINO := by
        show e.inum ≠ 1
        omega
      refine ⟨hne, ?_⟩
      show (image names content e.inum).type = _
      rw [image, if_neg hne, if_pos ⟨h1, h2⟩]
      rfl
    have hnlink : ∀ i, 0 < i ∧ i < 2 + names.length →
        (boot names content).ledger.nlink i = 1 := by
      intro i hi
      show (image names content i).nlink.toNat = 1
      by_cases h1 : i = ROOTINO
      · rw [image, if_pos h1]
        rfl
      · have h2 : 1 < i := by
          have : i ≠ 1 := h1
          omega
        rw [image, if_neg h1, if_pos ⟨h2, hi.2⟩]
        rfl
    have hroot : (boot names content).ledger.type ROOTINO ≠ 0 :=
      (htype 1).2 ⟨Nat.one_pos, by omega⟩
    have hpending : ∀ i, i ∉ (boot names content).ledger.pending := fun i => List.not_mem_nil
    refine ⟨fun i hi => ?_, fun e he => ?_, fun i hi => absurd hi (hpending i), fun i hi => ?_,
      hroot⟩
    · have hi' := (htype i).1 hi
      rw [hnlink i hi']
      show 1 + 0 = if _ then _ else _
      rw [if_pos hi']
    · obtain ⟨h1, h2, h3⟩ := image_subdir names content he
      rw [h3]
      exact ⟨(htype _).2 ⟨by omega, h2⟩, hroot⟩
    · rw [hnlink i ((htype i).1 hi)]
      have hdirs : (boot names content).ledger.subdirs i = 0 := by
        refine List.countP_eq_zero.2 fun e he => ?_
        rw [Ledger.isSubdir, (hsub e he).2]
        simp
      have hcount := boot_entries_count names content i
      have hno : i = ROOTINO →
          (boot names content).entries.countP (fun e => e.inum == i) = 0 := by
        rintro rfl
        refine List.countP_eq_zero.2 fun e he => ?_
        simpa using (hsub e he).1
      show (boot names content).entries.countP _ + (boot names content).ledger.subdirs i + 0 +
        (if _ then 1 else 0) ≤ 1
      rw [hdirs]
      by_cases h : i = ROOTINO
      · rw [if_pos h, hno h]
      · rw [if_neg h]
        omega

end Fs

end Links

end Xv6.Shell
