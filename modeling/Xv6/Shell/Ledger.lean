/-
What link counts are for: an abstract file system of inodes with a count, directory
entries, and calls of link that are under way.

An inode may be freed when its count is zero. That no entry is left then is the
inequality `Balanced.enough`: the count of an inode is at least the number of its
entries, of the directories in it, of the links under way, and one for the root. Every
operation keeps it, whatever the order of the operations is.
-/
import Xv6.Lib.Run

set_option autoImplicit false

namespace Xv6.Shell.Links

open Xv6.Lib

abbrev Name : Type := List UInt8

/-- A directory entry. -/
structure Entry where
  dir : Nat
  name : Name
  inum : Nat
  deriving DecidableEq

abbrev NINODES : Nat := 200

abbrev ROOTINO : Nat := 1
abbrev T_DIR : BitVec 16 := 1
abbrev T_FILE : BitVec 16 := 2
abbrev T_DEV : BitVec 16 := 3

/-- The inodes by number (type 0 is free), the entries but for "." and "..", the links
under way, and the links made and removed since an inode was allocated. -/
structure Ledger where
  type : Nat → BitVec 16
  nlink : Nat → Nat
  entries : List Entry
  pending : List Nat
  made : Nat → Nat
  removed : Nat → Nat

namespace Ledger

/-- An entry of a directory in directory `i`. -/
def isSubdir (L : Ledger) (i : Nat) (e : Entry) : Bool := e.dir == i && L.type e.inum == T_DIR

def subdirs (L : Ledger) (i : Nat) : Nat := L.entries.countP (L.isSubdir i)

/-- What an inode needs its links for. -/
def uses (L : Ledger) (i : Nat) : Nat :=
  L.entries.countP (fun e => e.inum == i) + L.subdirs i + L.pending.count i +
    if i = ROOTINO then 1 else 0

structure Balanced (L : Ledger) : Prop where
  counted : ∀ i, L.type i ≠ 0 → L.nlink i + L.removed i = L.made i
  kept : ∀ e ∈ L.entries, L.type e.inum ≠ 0 ∧ L.type e.dir ≠ 0
  linked : ∀ i ∈ L.pending, L.type i ≠ 0 ∧ L.type i ≠ T_DIR
  enough : ∀ i, L.type i ≠ 0 → L.uses i ≤ L.nlink i
  root : L.type ROOTINO ≠ 0

/-- A directory has the links of its subdirectories and one more. Only an inode that
`ialloc` finds becomes a directory. -/
structure Snug (L : Ledger) : Prop where
  links : ∀ i, L.type i = T_DIR → L.nlink i ≤ 1 + L.subdirs i
  number : ∀ i, L.type i = T_DIR → i < NINODES

/-! ## Operations -/

/-- Add one to the links of `i`. -/
def addLink (L : Ledger) (i : Nat) : Ledger :=
  { L with
    nlink := fun j => if j = i then L.nlink j + 1 else L.nlink j
    made := fun j => if j = i then L.made j + 1 else L.made j }

/-- Take one from the links of `i`. -/
def dropLink (L : Ledger) (i : Nat) : Ledger :=
  { L with
    nlink := fun j => if j = i then L.nlink j - 1 else L.nlink j
    removed := fun j => if j = i then L.removed j + 1 else L.removed j }

def addEntry (L : Ledger) (e : Entry) : Ledger := { L with entries := e :: L.entries }

def eraseEntry (L : Ledger) (e : Entry) : Ledger := { L with entries := L.entries.erase e }

/-- A new inode, without links. -/
def alloc (L : Ledger) (i : Nat) (type : BitVec 16) : Ledger :=
  { L with
    type := fun j => if j = i then type else L.type j
    nlink := fun j => if j = i then 0 else L.nlink j
    made := fun j => if j = i then 0 else L.made j
    removed := fun j => if j = i then 0 else L.removed j }

/-- The inode is free, and what is in it is gone. -/
def free (L : Ledger) (i : Nat) : Ledger :=
  { L with
    type := fun j => if j = i then 0 else L.type j
    entries := L.entries.filter fun e => e.dir ≠ i }

/-- What one critical section does to the ledger. -/
inductive Step (L : Ledger) : Unit → Ledger → Prop where
  | linkStart (i : Nat) (hi : L.type i ≠ 0) (hd : L.type i ≠ T_DIR) :
      Step L () { L.addLink i with pending := i :: L.pending }
  | linkBad (i : Nat) (hi : i ∈ L.pending) :
      Step L () { L.dropLink i with pending := L.pending.erase i }
  | linkEnd (i d : Nat) (name : Name) (hi : i ∈ L.pending) (hd : L.type d ≠ 0) :
      Step L () { L.addEntry ⟨d, name, i⟩ with pending := L.pending.erase i }
  | create (i d : Nat) (name : Name) (type : BitVec 16) (hi : L.type i = 0) (ht : type ≠ 0)
      (ht' : type ≠ T_DIR) (hd : L.type d ≠ 0) :
      Step L () (((L.alloc i type).addLink i).addEntry ⟨d, name, i⟩)
  | mkdir (i d : Nat) (name : Name) (hi : L.type i = 0) (hN : i < NINODES) (hd : L.type d ≠ 0) :
      Step L () ((((L.alloc i T_DIR).addLink i).addLink d).addEntry ⟨d, name, i⟩)
  | unlink (e : Entry) (he : e ∈ L.entries) (ht : L.type e.inum ≠ T_DIR) :
      Step L () ((L.eraseEntry e).dropLink e.inum)
  | rmdir (e : Entry) (he : e ∈ L.entries) (ht : L.type e.inum = T_DIR) :
      Step L () (((L.eraseEntry e).dropLink e.dir).dropLink e.inum)
  | free (i : Nat) (hi : L.type i ≠ 0) (h0 : L.nlink i = 0) : Step L () (L.free i)

/-! ## Uses -/

theorem isSubdir_of_ne (L : Ledger) {e : Entry} (ht : L.type e.inum ≠ T_DIR) (j : Nat) :
    L.isSubdir j e = false := by
  rw [isSubdir, beq_eq_false_iff_ne.2 ht, Bool.and_false]

theorem isSubdir_of_eq (L : Ledger) {e : Entry} (ht : L.type e.inum = T_DIR) (j : Nat) :
    L.isSubdir j e = (e.dir == j) := by
  rw [isSubdir, beq_iff_eq.2 ht, Bool.and_true]

@[simp] theorem uses_addLink (L : Ledger) (i j : Nat) : (L.addLink i).uses j = L.uses j := rfl

@[simp] theorem uses_dropLink (L : Ledger) (i j : Nat) : (L.dropLink i).uses j = L.uses j := rfl

theorem subdirs_addEntry (L : Ledger) (e : Entry) (j : Nat) :
    (L.addEntry e).subdirs j = L.subdirs j + if L.isSubdir j e then 1 else 0 :=
  List.countP_cons

theorem uses_addEntry (L : Ledger) (e : Entry) (j : Nat) : (L.addEntry e).uses j =
    L.uses j + (if e.inum == j then 1 else 0) + if L.isSubdir j e then 1 else 0 := by
  simp only [uses, subdirs_addEntry]
  simp only [addEntry, List.countP_cons]
  omega

theorem subdirs_eraseEntry (L : Ledger) {e : Entry} (he : e ∈ L.entries) (j : Nat) :
    L.subdirs j = (L.eraseEntry e).subdirs j + if L.isSubdir j e then 1 else 0 := by
  have h := (List.perm_cons_erase he).countP_eq (L.isSubdir j)
  rw [List.countP_cons] at h
  exact h

theorem uses_eraseEntry (L : Ledger) {e : Entry} (he : e ∈ L.entries) (j : Nat) : L.uses j =
    (L.eraseEntry e).uses j + (if e.inum == j then 1 else 0) +
      if L.isSubdir j e then 1 else 0 := by
  have h := (List.perm_cons_erase he).countP_eq (fun e => e.inum == j)
  rw [List.countP_cons] at h
  simp only [uses, h, subdirs_eraseEntry L he j]
  simp only [eraseEntry]
  omega

/-- Erasing a link under way. -/
theorem count_erase {l : List Nat} {i : Nat} (hi : i ∈ l) (j : Nat) :
    l.count j = (l.erase i).count j + if i = j then 1 else 0 := by
  have h := (List.perm_cons_erase hi).count_eq j
  rw [List.count_cons] at h
  simpa using h

namespace Balanced

variable {L : Ledger}

/-- Nothing leads to or lies in a free inode. -/
theorem entry_ne (hL : L.Balanced) {i : Nat} (hi : L.type i = 0) {e : Entry}
    (he : e ∈ L.entries) : e.inum ≠ i ∧ e.dir ≠ i := by
  refine ⟨?_, ?_⟩
  · rintro rfl
    exact (hL.kept e he).1 hi
  · rintro rfl
    exact (hL.kept e he).2 hi

theorem subdirs_alloc (hL : L.Balanced) {i : Nat} (hi : L.type i = 0) (type : BitVec 16)
    (j : Nat) : (L.alloc i type).subdirs j = L.subdirs j := by
  refine List.countP_congr fun e he => ?_
  simp [isSubdir, alloc, (hL.entry_ne hi he).1]

theorem uses_alloc (hL : L.Balanced) {i : Nat} (hi : L.type i = 0) (type : BitVec 16) (j : Nat) :
    (L.alloc i type).uses j = L.uses j := by
  simp only [uses, hL.subdirs_alloc hi]
  rfl

/-- A free inode has no uses, unless it is the root. -/
theorem uses_of_free (hL : L.Balanced) {i : Nat} (hi : L.type i = 0) :
    L.uses i = if i = ROOTINO then 1 else 0 := by
  have h1 : L.entries.countP (fun e => e.inum == i) = 0 := by
    refine List.countP_eq_zero.2 fun e he => ?_
    simpa using (hL.entry_ne hi he).1
  have h2 : L.subdirs i = 0 := by
    refine List.countP_eq_zero.2 fun e he => ?_
    simp [isSubdir, (hL.entry_ne hi he).2]
  have h3 : L.pending.count i = 0 :=
    List.count_eq_zero.2 fun hm => (hL.linked i hm).1 hi
  simp only [uses, h1, h2, h3]
  omega

theorem uses_free (L : Ledger) (i j : Nat) : (L.free i).uses j ≤ L.uses j := by
  have h1 : (L.free i).entries.countP (fun e => e.inum == j) ≤
      L.entries.countP fun e => e.inum == j := List.filter_sublist.countP_le
  have h2 : (L.free i).subdirs j ≤ L.subdirs j := by
    refine le_trans (List.countP_mono_left fun e he => ?_) List.filter_sublist.countP_le
    simp only [isSubdir, free, Bool.and_eq_true, beq_iff_eq]
    rintro ⟨hd, ht⟩
    refine ⟨hd, ?_⟩
    split at ht
    · simp at ht
    · exact ht
  have h3 : (L.free i).pending = L.pending := rfl
  simp only [uses, h3]
  omega

end Balanced

/-! ## The operations keep the balance -/

namespace Balanced

variable {L : Ledger}

theorem linkStart (hL : L.Balanced) {i : Nat} (hi : L.type i ≠ 0) (hd : L.type i ≠ T_DIR) :
    Balanced { L.addLink i with pending := i :: L.pending } where
  counted j hj := by
    have := hL.counted j hj
    simp only [addLink]
    split <;> omega
  kept := hL.kept
  linked j hj := by
    rcases List.mem_cons.1 hj with rfl | hj
    · exact ⟨hi, hd⟩
    · exact hL.linked j hj
  enough j hj := by
    have h1 := hL.enough j hj
    have h2 : ∀ L' : Ledger, L' = { L.addLink i with pending := i :: L.pending } →
        L'.uses j = L.uses j + if i = j then 1 else 0 := by
      rintro _ rfl
      have h : ({ L.addLink i with pending := i :: L.pending } : Ledger).subdirs j =
          L.subdirs j := rfl
      simp only [uses, h]
      simp only [addLink, List.count_cons, beq_iff_eq]
      omega
    rw [h2 _ rfl]
    by_cases hji : i = j
    · subst hji
      simp only [addLink, if_true]
      omega
    · have hij : ¬ j = i := fun h => hji h.symm
      simp only [addLink, hji, hij, if_false]
      omega
  root := hL.root

/-- The uses without one link under way. -/
theorem uses_erasePending (L : Ledger) {i : Nat} (hi : i ∈ L.pending) (j : Nat) : L.uses j =
    ({ L with pending := L.pending.erase i } : Ledger).uses j + if i = j then 1 else 0 := by
  have h : ({ L with pending := L.pending.erase i } : Ledger).subdirs j = L.subdirs j := rfl
  have h2 := count_erase hi j
  simp only [uses, h]
  omega

theorem linkBad (hL : L.Balanced) {i : Nat} (hi : i ∈ L.pending) :
    Balanced { L.dropLink i with pending := L.pending.erase i } := by
  have huse : ∀ j, ({ L.dropLink i with pending := L.pending.erase i } : Ledger).uses j =
      ({ L with pending := L.pending.erase i } : Ledger).uses j := fun j => rfl
  have hpos : 1 ≤ L.nlink i := by
    have h1 := hL.enough i (hL.linked i hi).1
    have h2 := uses_erasePending L hi i
    rw [if_pos rfl] at h2
    omega
  refine ⟨fun j hj => ?_, hL.kept, fun j hj => ?_, fun j hj => ?_, hL.root⟩
  · have := hL.counted j hj
    simp only [dropLink]
    split
    case isTrue h =>
      subst h
      omega
    case isFalse => exact this
  · exact hL.linked j (List.mem_of_mem_erase hj)
  · have h1 := hL.enough j hj
    have h2 := uses_erasePending L hi j
    rw [huse]
    by_cases hji : i = j
    · subst hji
      simp only [dropLink, if_true] at h2 ⊢
      omega
    · have hij : ¬ j = i := fun h => hji h.symm
      simp only [dropLink, hij, hji, if_false] at h2 ⊢
      omega

theorem linkEnd (hL : L.Balanced) {i d : Nat} {name : Name} (hi : i ∈ L.pending)
    (hd : L.type d ≠ 0) :
    Balanced { L.addEntry ⟨d, name, i⟩ with pending := L.pending.erase i } := by
  refine ⟨hL.counted, fun e he => ?_, fun j hj => ?_, fun j hj => ?_, hL.root⟩
  · rcases List.mem_cons.1 he with rfl | he
    · exact ⟨(hL.linked i hi).1, hd⟩
    · exact hL.kept e he
  · exact hL.linked j (List.mem_of_mem_erase hj)
  · have h1 := hL.enough j hj
    have h2 := uses_erasePending L hi j
    have h3 := uses_addEntry { L with pending := L.pending.erase i } ⟨d, name, i⟩ j
    -- the entry is of a file, and takes the place of the link under way
    have hfile : ({ L with pending := L.pending.erase i } : Ledger).isSubdir j ⟨d, name, i⟩ =
        false := isSubdir_of_ne _ (hL.linked i hi).2 j
    rw [hfile] at h3
    simp only [beq_iff_eq] at h3
    have h4 : ({ L.addEntry ⟨d, name, i⟩ with pending := L.pending.erase i } : Ledger).uses j =
        (({ L with pending := L.pending.erase i } : Ledger).addEntry ⟨d, name, i⟩).uses j := rfl
    show _ ≤ L.nlink j
    rw [h4]
    simp only [Bool.false_eq_true, if_false] at h3
    omega

/-- A new inode with one link, before its entry is written. -/
theorem alloc (hL : L.Balanced) {i : Nat} (hi : L.type i = 0) (type : BitVec 16) :
    Balanced ((L.alloc i type).addLink i) ∧ ((L.alloc i type).addLink i).uses i = 0 := by
  have hu : ∀ j, ((L.alloc i type).addLink i).uses j = L.uses j := fun j => by
    rw [uses_addLink, hL.uses_alloc hi]
  have hr : i ≠ ROOTINO := by
    rintro rfl
    exact hL.root hi
  have h0 : L.uses i = 0 := by rw [hL.uses_of_free hi, if_neg hr]
  refine ⟨⟨fun j hj => ?_, fun e he => ?_, fun j hj => ?_, fun j hj => ?_, ?_⟩,
    (hu i).trans h0⟩
  · simp only [addLink, Ledger.alloc] at hj ⊢
    by_cases hji : j = i
    · simp [hji]
    · simp only [hji, if_false] at hj ⊢
      exact hL.counted j hj
  · have hne := hL.entry_ne hi he
    simp only [addLink, Ledger.alloc, hne.1, hne.2, if_false]
    exact hL.kept e he
  · have hne : j ≠ i := by
      rintro rfl
      exact (hL.linked j hj).1 hi
    simp only [addLink, Ledger.alloc, hne, if_false]
    exact hL.linked j hj
  · rw [hu]
    simp only [addLink, Ledger.alloc] at hj ⊢
    by_cases hji : j = i
    · subst hji
      omega
    · simp only [hji, if_false] at hj ⊢
      exact hL.enough j hj
  · simp only [addLink, Ledger.alloc, hr.symm, if_false]
    exact hL.root

/-- A new entry, where the counts leave room for it. -/
theorem addEntry (hL : L.Balanced) {e : Entry} (hi : L.type e.inum ≠ 0) (hd : L.type e.dir ≠ 0)
    (hroom : ∀ j, L.type j ≠ 0 → L.uses j + (if e.inum == j then 1 else 0) +
      (if L.isSubdir j e then 1 else 0) ≤ L.nlink j) : Balanced (L.addEntry e) := by
  refine ⟨hL.counted, fun e' he => ?_, hL.linked, fun j hj => ?_, hL.root⟩
  · rcases List.mem_cons.1 he with rfl | he
    · exact ⟨hi, hd⟩
    · exact hL.kept e' he
  · rw [uses_addEntry]
    exact hroom j hj

theorem create (hL : L.Balanced) {i d : Nat} {name : Name} {type : BitVec 16}
    (hi : L.type i = 0) (ht : type ≠ 0) (ht' : type ≠ T_DIR) (hd : L.type d ≠ 0) :
    Balanced (((L.alloc i type).addLink i).addEntry ⟨d, name, i⟩) := by
  obtain ⟨hB, h0⟩ := hL.alloc hi type
  have hdi : d ≠ i := by
    rintro rfl
    exact hd hi
  have hself : ((L.alloc i type).addLink i).type i = type := if_pos rfl
  refine hB.addEntry ?_ ?_ fun j hj => ?_
  · rw [hself]
    exact ht
  · show ((L.alloc i type).addLink i).type d ≠ 0
    simp only [addLink, Ledger.alloc, hdi, if_false]
    exact hd
  · have hsub : ((L.alloc i type).addLink i).isSubdir j ⟨d, name, i⟩ = false :=
      isSubdir_of_ne _ (hself.trans_ne ht') j
    rw [hsub]
    by_cases hji : i = j
    · subst hji
      rw [h0]
      simp [addLink, Ledger.alloc]
    · have := hB.enough j hj
      simpa [hji] using this

theorem mkdir (hL : L.Balanced) {i d : Nat} {name : Name} (hi : L.type i = 0)
    (hd : L.type d ≠ 0) :
    Balanced ((((L.alloc i T_DIR).addLink i).addLink d).addEntry ⟨d, name, i⟩) := by
  obtain ⟨hB, h0⟩ := hL.alloc hi T_DIR
  have hdi : d ≠ i := by
    rintro rfl
    exact hd hi
  have hself : (((L.alloc i T_DIR).addLink i).addLink d).type i = T_DIR := if_pos rfl
  have hB' : Balanced (((L.alloc i T_DIR).addLink i).addLink d) := by
    refine ⟨fun j hj => ?_, hB.kept, hB.linked, fun j hj => ?_, hB.root⟩
    · have := hB.counted j hj
      simp only [addLink] at this ⊢
      split <;> omega
    · have := hB.enough j hj
      rw [uses_addLink]
      refine this.trans ?_
      show _ ≤ if j = d then _ + 1 else _
      split <;> omega
  refine hB'.addEntry ?_ ?_ fun j hj => ?_
  · rw [hself]
    decide
  · show ((L.alloc i T_DIR).addLink i).type d ≠ 0
    simp only [addLink, Ledger.alloc, hdi, if_false]
    exact hd
  · have hsub : (((L.alloc i T_DIR).addLink i).addLink d).isSubdir j ⟨d, name, i⟩ =
        (d == j) := isSubdir_of_eq _ hself j
    have hu : (((L.alloc i T_DIR).addLink i).addLink d).uses j =
        ((L.alloc i T_DIR).addLink i).uses j := rfl
    have henough := hB.enough j hj
    rw [hsub, hu]
    -- the link of the new directory is for its entry, the one of `d` for ".."
    by_cases hji : i = j
    · subst hji
      have hid : ¬ i = d := fun h => hdi h.symm
      rw [h0]
      simp [addLink, Ledger.alloc, hdi, hid]
    · by_cases hdj : d = j
      · subst hdj
        have : (((L.alloc i T_DIR).addLink i).addLink d).nlink d =
            ((L.alloc i T_DIR).addLink i).nlink d + 1 := if_pos rfl
        rw [this]
        simpa [hji] using henough
      · have : (((L.alloc i T_DIR).addLink i).addLink d).nlink j =
            ((L.alloc i T_DIR).addLink i).nlink j := if_neg fun h => hdj h.symm
        rw [this]
        simpa [hji, hdj] using henough

/-- An inode with an entry has a link. -/
theorem nlink_pos (hL : L.Balanced) {e : Entry} (he : e ∈ L.entries) : 1 ≤ L.nlink e.inum := by
  have h1 := hL.enough _ (hL.kept e he).1
  have h2 := uses_eraseEntry L he e.inum
  simp only [beq_self_eq_true, if_true] at h2
  omega

/-- One entry less, and one link less of its inode. -/
theorem unlink (hL : L.Balanced) {e : Entry} (he : e ∈ L.entries)
    (ht : L.type e.inum ≠ T_DIR) : Balanced ((L.eraseEntry e).dropLink e.inum) := by
  have huse := uses_eraseEntry L he
  have hsub := L.isSubdir_of_ne ht
  have hpos := hL.nlink_pos he
  refine ⟨fun j hj => ?_, fun e' he' => ?_, hL.linked, fun j hj => ?_, hL.root⟩
  · have := hL.counted j hj
    simp only [dropLink, eraseEntry]
    split
    case isTrue h =>
      subst h
      omega
    case isFalse => exact this
  · exact hL.kept e' (List.mem_of_mem_erase he')
  · have h1 := hL.enough j hj
    have h2 := huse j
    rw [hsub] at h2
    rw [uses_dropLink]
    simp only [dropLink, eraseEntry] at h2 ⊢
    by_cases hji : e.inum = j
    · subst hji
      simp at h2 ⊢
      omega
    · have hij : ¬ j = e.inum := fun h => hji h.symm
      simp [hji] at h2
      simp only [hij, if_false]
      omega

/-- The links that go with the entry of a directory are there. -/
theorem rmdir_room (hL : L.Balanced) {e : Entry} (he : e ∈ L.entries)
    (ht : L.type e.inum = T_DIR) (j : Nat) (hj : L.type j ≠ 0) :
    (if e.inum = j then 1 else 0) + (if e.dir = j then 1 else 0) ≤ L.nlink j := by
  have h1 := hL.enough j hj
  have h2 := uses_eraseEntry L he j
  rw [L.isSubdir_of_eq ht] at h2
  simp only [beq_iff_eq] at h2
  omega

theorem rmdir (hL : L.Balanced) {e : Entry} (he : e ∈ L.entries)
    (ht : L.type e.inum = T_DIR) :
    Balanced (((L.eraseEntry e).dropLink e.dir).dropLink e.inum) := by
  have huse := uses_eraseEntry L he
  have hsub := L.isSubdir_of_eq ht
  have hnlink := hL.rmdir_room he ht
  have hdrop : ∀ j, (((L.eraseEntry e).dropLink e.dir).dropLink e.inum).nlink j =
      L.nlink j - ((if e.inum = j then 1 else 0) + if e.dir = j then 1 else 0) := by
    intro j
    simp only [dropLink, eraseEntry, eq_comm (a := j)]
    split <;> split <;> omega
  have hrem : ∀ j, (((L.eraseEntry e).dropLink e.dir).dropLink e.inum).removed j =
      L.removed j + ((if e.inum = j then 1 else 0) + if e.dir = j then 1 else 0) := by
    intro j
    simp only [dropLink, eraseEntry, eq_comm (a := j)]
    split <;> split <;> omega
  refine ⟨fun j hj => ?_, fun e' he' => ?_, hL.linked, fun j hj => ?_, hL.root⟩
  · have h1 := hL.counted j hj
    have h2 := hnlink j hj
    rw [hdrop, hrem]
    show _ = L.made j
    omega
  · exact hL.kept e' (List.mem_of_mem_erase he')
  · have h1 := hL.enough j hj
    have h2 := huse j
    have h3 := hnlink j hj
    rw [hsub] at h2
    simp only [beq_iff_eq] at h2
    rw [hdrop, uses_dropLink, uses_dropLink]
    omega

theorem free (hL : L.Balanced) {i : Nat} (hi : L.type i ≠ 0) (h0 : L.nlink i = 0) :
    Balanced (L.free i) := by
  have huse : L.uses i = 0 := by
    have := hL.enough i hi
    omega
  have hno : ∀ e ∈ L.entries, e.inum ≠ i := by
    intro e he
    have h : L.entries.countP (fun e => e.inum == i) = 0 := by
      simp only [uses] at huse
      omega
    simpa using List.countP_eq_zero.1 h e he
  have hnp : ∀ j ∈ L.pending, j ≠ i := by
    rintro j hj rfl
    have := List.count_pos_iff.2 hj
    simp only [uses] at huse
    omega
  have hroot : i ≠ ROOTINO := by
    rintro rfl
    simp only [uses, if_true] at huse
    omega
  refine ⟨fun j hj => ?_, fun e he => ?_, fun j hj => ?_, fun j hj => ?_, ?_⟩
  · simp only [Ledger.free] at hj ⊢
    split at hj
    · exact absurd rfl hj
    · exact hL.counted j hj
  · obtain ⟨he, hdir⟩ := List.mem_filter.1 he
    have hdi : e.dir ≠ i := by simpa using hdir
    simp only [Ledger.free, hno e he, hdi, if_false]
    exact hL.kept e he
  · simp only [Ledger.free, hnp j hj, if_false]
    exact hL.linked j hj
  · refine (uses_free L i j).trans ?_
    simp only [Ledger.free] at hj ⊢
    split at hj
    · exact absurd rfl hj
    · exact hL.enough j hj
  · simp only [Ledger.free, hroot.symm, if_false]
    exact hL.root

/-- **Every critical section keeps the balance.** -/
theorem step {t : Ledger} (hL : L.Balanced) (h : Step L () t) : t.Balanced := by
  cases h with
  | linkStart i hi hd => exact hL.linkStart hi hd
  | linkBad i hi => exact hL.linkBad hi
  | linkEnd i d name hi hd => exact hL.linkEnd hi hd
  | create i d name type hi ht ht' hd => exact hL.create hi ht ht' hd
  | mkdir i d name hi hN hd => exact hL.mkdir hi hd
  | unlink e he ht => exact hL.unlink he ht
  | rmdir e he ht => exact hL.rmdir he ht
  | free i hi h0 => exact hL.free hi h0

/-- An inode without links has no entries. -/
theorem no_entry (hL : L.Balanced) {i : Nat} (hi : L.type i ≠ 0) (h0 : L.nlink i = 0) :
    ∀ e ∈ L.entries, e.inum ≠ i := by
  intro e he hei
  have h1 := hL.enough i hi
  have h2 : 0 < L.entries.countP (fun e => e.inum == i) :=
    List.countP_pos_iff.2 ⟨e, he, by simpa using hei⟩
  simp only [uses] at h1
  omega

/-- Nothing is in a directory whose inode is freed, and it is in none. -/
theorem subdirs_free (hL : L.Balanced) {i : Nat} (hi : L.type i ≠ 0) (h0 : L.nlink i = 0)
    {j : Nat} (hj : j ≠ i) : (L.free i).subdirs j = L.subdirs j := by
  unfold subdirs
  simp only [Ledger.free, List.countP_filter]
  refine List.countP_congr fun e he => ?_
  have hne := hL.no_entry hi h0 e he
  simp only [isSubdir, hne, if_false, Bool.and_eq_true, beq_iff_eq, decide_eq_true_eq, ne_eq]
  constructor
  · exact fun h => h.1
  · exact fun h => ⟨h, by rw [h.1]; exact hj⟩

end Balanced

/-! ## Directories -/

namespace Snug

variable {L : Ledger}

/-- Fewer links, or more subdirectories. -/
theorem mono {M : Ledger} (hS : L.Snug) (ht : ∀ j, M.type j = T_DIR → L.type j = T_DIR)
    (hn : ∀ j, M.type j = T_DIR → M.nlink j ≤ L.nlink j)
    (hs : ∀ j, M.type j = T_DIR → L.subdirs j ≤ M.subdirs j) : M.Snug where
  links j hj := (hn j hj).trans ((hS.links j (ht j hj)).trans (Nat.add_le_add_left (hs j hj) 1))
  number j hj := hS.number j (ht j hj)

theorem dropLink (hS : L.Snug) (i : Nat) : (L.dropLink i).Snug := by
  refine hS.mono (fun _ h => h) (fun j _ => ?_) fun j _ => Nat.le_refl _
  simp only [Ledger.dropLink]
  split <;> omega

theorem addEntry (hS : L.Snug) (e : Entry) : (L.addEntry e).Snug := by
  refine hS.mono (fun _ h => h) (fun _ _ => Nat.le_refl _) fun j _ => ?_
  rw [subdirs_addEntry]
  exact Nat.le_add_right _ _

/-- The pending links have no part in it. -/
theorem withPending (hS : L.Snug) (l : List Nat) : Snug { L with pending := l } :=
  ⟨hS.links, hS.number⟩

theorem mkdir (hS : L.Snug) (hL : L.Balanced) {i d : Nat} {name : Name} (hi : L.type i = 0)
    (hN : i < NINODES) (hd : L.type d ≠ 0) :
    Snug ((((L.alloc i T_DIR).addLink i).addLink d).addEntry ⟨d, name, i⟩) := by
  have hdi : d ≠ i := by
    rintro rfl
    exact hd hi
  have hself : (((L.alloc i T_DIR).addLink i).addLink d).type i = T_DIR := if_pos rfl
  have hother : ∀ j, j ≠ i → (((L.alloc i T_DIR).addLink i).addLink d).type j = L.type j :=
    fun j hj => if_neg hj
  refine ⟨fun j hj => ?_, fun j hj => ?_⟩
  · have hsub := subdirs_addEntry (((L.alloc i T_DIR).addLink i).addLink d) ⟨d, name, i⟩ j
    have hold : (((L.alloc i T_DIR).addLink i).addLink d).subdirs j = L.subdirs j :=
      hL.subdirs_alloc hi T_DIR j
    rw [isSubdir_of_eq _ hself, hold] at hsub
    rw [hsub]
    -- the new directory has one link, and `d` one more
    by_cases hji : j = i
    · subst hji
      have hjd : ¬ j = d := fun h => hdi h.symm
      simp only [Ledger.addEntry, addLink, Ledger.alloc, hjd, if_false, if_true]
      omega
    · have hlinks := hS.links j ((hother j hji).symm.trans hj)
      by_cases hjd : j = d
      · subst hjd
        simp only [Ledger.addEntry, addLink, Ledger.alloc, hji, beq_self_eq_true, if_false, if_true]
        omega
      · simp only [Ledger.addEntry, addLink, Ledger.alloc, hji, hjd, if_false]
        omega
  · by_cases hji : j = i
    · rw [hji]
      exact hN
    · exact hS.number j ((hother j hji).symm.trans hj)

theorem create (hS : L.Snug) (hL : L.Balanced) {i d : Nat} {name : Name} {type : BitVec 16}
    (hi : L.type i = 0) (ht : type ≠ T_DIR) :
    Snug (((L.alloc i type).addLink i).addEntry ⟨d, name, i⟩) := by
  refine addEntry (hS.mono (fun j hj => ?_) (fun j hj => ?_) fun j _ => ?_) _
  · simp only [addLink, Ledger.alloc] at hj
    split at hj
    · exact absurd hj ht
    · exact hj
  · have hji : j ≠ i := by
      rintro rfl
      exact ht ((if_pos rfl : ((L.alloc j type).addLink j).type j = type).symm.trans hj)
    simp only [addLink, Ledger.alloc, hji, if_false]
    exact Nat.le_refl _
  · exact (hL.subdirs_alloc hi type j).ge

theorem unlink (hS : L.Snug) {e : Entry} (he : e ∈ L.entries) (ht : L.type e.inum ≠ T_DIR) :
    Snug ((L.eraseEntry e).dropLink e.inum) := by
  refine dropLink (L := L.eraseEntry e)
    (hS.mono (fun _ h => h) (fun _ _ => Nat.le_refl _) fun j _ => ?_) _
  have h := subdirs_eraseEntry L he j
  rw [L.isSubdir_of_ne ht] at h
  exact h.le

theorem rmdir (hS : L.Snug) {e : Entry} (he : e ∈ L.entries) (ht : L.type e.inum = T_DIR) :
    Snug (((L.eraseEntry e).dropLink e.dir).dropLink e.inum) := by
  refine dropLink (L := (L.eraseEntry e).dropLink e.dir) ⟨fun j hj => ?_, hS.number⟩ _
  have hlinks := hS.links j hj
  have h := subdirs_eraseEntry L he j
  rw [L.isSubdir_of_eq ht] at h
  simp only [beq_iff_eq] at h
  show (if j = e.dir then L.nlink j - 1 else L.nlink j) ≤ 1 + (L.eraseEntry e).subdirs j
  by_cases hj : e.dir = j
  · rw [if_pos hj.symm]
    rw [if_pos hj] at h
    omega
  · rw [if_neg fun hn => hj hn.symm]
    rw [if_neg hj] at h
    omega

theorem free (hS : L.Snug) (hL : L.Balanced) {i : Nat} (hi : L.type i ≠ 0)
    (h0 : L.nlink i = 0) : Snug (L.free i) := by
  have hne : ∀ j, (L.free i).type j = T_DIR → j ≠ i := by
    rintro j hj rfl
    simp [Ledger.free] at hj
  refine hS.mono (fun j hj => ?_) (fun _ _ => Nat.le_refl _) fun j hj =>
    (hL.subdirs_free hi h0 (hne j hj)).ge
  have hji := hne j hj
  simpa [Ledger.free, hji] using hj

/-- **Every critical section keeps the directories snug.** -/
theorem step {t : Ledger} (hS : L.Snug) (hL : L.Balanced) (h : Step L () t) : t.Snug := by
  cases h with
  | linkStart i hi hd =>
    refine hS.mono (fun _ h => h) (fun j hj => ?_) fun j _ => Nat.le_refl _
    have hji : j ≠ i := by
      rintro rfl
      exact hd hj
    exact (if_neg hji).le
  | linkBad i hi => exact (hS.dropLink i).withPending _
  | linkEnd i d name hi hd => exact (hS.addEntry _).withPending _
  | create i d name type hi ht ht' hd => exact hS.create hL hi ht'
  | mkdir i d name hi hN hd => exact hS.mkdir hL hi hN hd
  | unlink e he ht => exact hS.unlink he ht
  | rmdir e he ht => exact hS.rmdir he ht
  | free i hi h0 => exact hS.free hL hi h0

/-- A directory has one entry at most. -/
theorem entry_unique (hS : L.Snug) (hL : L.Balanced) {i : Nat} (hi : L.type i = T_DIR) :
    L.entries.countP (fun e => e.inum == i) ≤ 1 := by
  have h1 := hS.links i hi
  have h2 := hL.enough i (by rw [hi]; decide)
  simp only [uses] at h2
  omega

/-- There are no more subdirectories than inodes. -/
theorem subdirs_le (hS : L.Snug) (hL : L.Balanced) (i : Nat) : L.subdirs i ≤ NINODES := by
  have hmem : ∀ {j}, j ∈ (L.entries.filter (L.isSubdir i)).map Entry.inum →
      L.type j = T_DIR := by
    intro j hj
    obtain ⟨e, he, rfl⟩ := List.mem_map.1 hj
    have hsub := (List.mem_filter.1 he).2
    simp only [isSubdir, Bool.and_eq_true, beq_iff_eq] at hsub
    exact hsub.2
  have hnodup : ((L.entries.filter (L.isSubdir i)).map Entry.inum).Nodup := by
    refine List.nodup_iff_count_le_one.2 fun j => ?_
    by_cases hj : L.type j = T_DIR
    · rw [List.count, List.countP_map]
      exact List.filter_sublist.countP_le.trans (hS.entry_unique hL hj)
    · rw [List.count_eq_zero.2 fun hm => hj (hmem hm)]
      exact Nat.zero_le 1
  have hsubset : (L.entries.filter (L.isSubdir i)).map Entry.inum ⊆ List.range NINODES :=
    fun j hj => List.mem_range.2 (hS.number j (hmem hj))
  have hle := (hnodup.subperm hsubset).length_le
  rw [List.length_map, List.length_range, ← List.countP_eq_length_filter] at hle
  exact hle

/-- The count of a directory is small. -/
theorem nlink_le (hS : L.Snug) (hL : L.Balanced) {i : Nat} (hi : L.type i = T_DIR) :
    L.nlink i ≤ 1 + NINODES :=
  (hS.links i hi).trans (Nat.add_le_add_left (hS.subdirs_le hL i) 1)

end Snug

end Ledger

end Xv6.Shell.Links
