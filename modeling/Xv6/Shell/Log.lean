/-
The log of the enhanced shell: transactions, the commit, and recovery after a crash.

The calls between `begin_op` and `end_op` change buffers and record their blocks in
the log header in memory. The last `end_op` commits: it writes the buffers to the log
on disk, the header, the home blocks, and the cleared header, one block at a time.
A crash leaves the disk only, and the kernel then runs `recover_from_log`.

A step of the commit or of the recovery writes at most one block, so a crash may fall
between any two writes. No call of the file system starts while the log commits; other
processes may still read blocks, and buffers that are not dirty may be recycled, at
any time.
-/
import Xv6.Lib.Run
import Xv6.Lib.Redo
import Xv6.Shell.Dinode

set_option autoImplicit false

namespace Xv6.Shell

open Xv6.Lib

namespace Log

abbrev FSSIZE : Nat := 1000
abbrev MAXOPBLOCKS : Nat := 10
abbrev LOGSIZE : Nat := MAXOPBLOCKS * 3

/-- `log.start` and `log.size`, from the superblock that `mkfs` writes. -/
abbrev region : Region := ⟨2, LOGSIZE⟩

/-- A buffer of the cache that has been read. -/
structure Buf where
  data : Block
  dirty : Bool

/-- Where `commit` and `recover_from_log` are. -/
inductive Pc where
  | ready
  | write_log (tail : Nat)
  | write_head
  | install_trans (tail : Nat)
  | clear
  | read_head
  deriving DecidableEq, Repr

structure Sys where
  disk : Nat → Block
  cache : Nat → Option Buf
  /-- `log.lh` -/
  lh : List Nat
  outstanding : Nat
  pc : Pc

/-- The header block that names the homes, over an earlier one. -/
def writeHead (lh : List Nat) (w : Block) : Block := fun j =>
  if j.val = 0 then BitVec.ofNat 32 lh.length
  else if h : j.val - 1 < lh.length then BitVec.ofNat 32 lh[j.val - 1] else w j

/-- The homes a header block names. A count above `LOGSIZE` overruns `log.lh.block`. -/
def readHead (w : Block) : Option (List Nat) :=
  let n := (w 0).toInt.toNat
  if n ≤ LOGSIZE then some ((List.range n).map fun i => (w (Fin.ofNat 128 (i + 1))).toNat)
  else none

namespace Sys

/-- The data of `bread`. -/
def bread (s : Sys) (b : Nat) : Block :=
  match s.cache b with
  | some buf => buf.data
  | none => s.disk b

/-- `bwrite`, which leaves the buffer clean. -/
def bwrite (b : Nat) (w : Block) (s : Sys) : Sys :=
  { s with disk := Function.update s.disk b w
           cache := Function.update s.cache b (some ⟨w, false⟩) }

/-- A crash, and the kernel up to `initlog`. -/
def crash (s : Sys) : Sys where
  disk := s.disk
  cache _ := none
  lh := []
  outstanding := 0
  pc := .read_head

def begin_op (s : Sys) : Option Sys :=
  if s.pc = .ready ∧ s.lh.length + (s.outstanding + 1) * MAXOPBLOCKS ≤ LOGSIZE then
    some { s with outstanding := s.outstanding + 1 }
  else none

/-- A change of a buffer, and `log_write`. -/
def log_write (b : Nat) (f : Block → Block) (s : Sys) : Option Sys :=
  -- "too big a transaction"
  if s.lh.length ≥ LOGSIZE ∨ s.lh.length ≥ region.size - 1 then none
  -- "log_write outside of trans"
  else if s.outstanding < 1 then none
  else if region.Home b ∧ b < FSSIZE then
    some { s with
      cache := Function.update s.cache b (some ⟨f (s.bread b), true⟩)
      lh := if b ∈ s.lh then s.lh else s.lh ++ [b] }
  else none

/-- `end_op`; the last one begins the commit, unless nothing was written. -/
def end_op (s : Sys) : Option Sys :=
  if s.outstanding = 0 then none
  else
    some { s with
      outstanding := s.outstanding - 1
      pc := if s.outstanding = 1 ∧ 0 < s.lh.length then .write_log 0 else s.pc }

/-- One turn of the loops of `write_log` and `install_trans`, or one of the writes
between them. -/
def next (s : Sys) : Option Sys :=
  match s.pc with
  | .ready => none
  | .write_log tail =>
    if h : tail < s.lh.length then
      some { s.bwrite (region.start + 1 + tail) (s.bread s.lh[tail]) with
        pc := .write_log (tail + 1) }
    else some { s with pc := .write_head }
  | .write_head =>
    some { s.bwrite region.start (writeHead s.lh (s.bread region.start)) with
      pc := .install_trans 0 }
  | .install_trans tail =>
    if h : tail < s.lh.length then
      some { s.bwrite s.lh[tail] (s.bread (region.start + 1 + tail)) with
        pc := .install_trans (tail + 1) }
    else some { s with pc := .clear }
  | .clear =>
    some { s.bwrite region.start (writeHead [] (s.bread region.start)) with
      lh := []
      pc := .ready }
  | .read_head =>
    (readHead (s.bread region.start)).map fun lh =>
      { s with lh := lh, pc := .install_trans 0 }

/-- Another process reads a block. -/
def load (b : Nat) (s : Sys) : Sys :=
  match s.cache b with
  | some _ => s
  | none => { s with cache := Function.update s.cache b (some ⟨s.disk b, false⟩) }

/-- `bget` takes the buffer of a block that is not dirty for another block. -/
def recycle (b : Nat) (s : Sys) : Option Sys :=
  match s.cache b with
  | some ⟨_, false⟩ => some { s with cache := Function.update s.cache b none }
  | _ => none

end Sys

inductive Event where
  | begin_op
  | log_write (b : Nat) (f : Block → Block)
  | end_op
  | next
  | crash
  | load (b : Nat)
  | recycle (b : Nat)

def step (e : Event) (s : Sys) : Option Sys :=
  match e with
  | .begin_op => s.begin_op
  | .log_write b f => s.log_write b f
  | .end_op => s.end_op
  | .next => s.next
  | .crash => some s.crash
  | .load b => some (s.load b)
  | .recycle b => s.recycle b

def Step (s : Sys) (e : Event) (t : Sys) : Prop := step e s = some t

/-- The disk of `mkfs`, whose log is empty, at power-on. -/
def boot (d : Nat → Block) : Sys :=
  Sys.crash ⟨Function.update d region.start fun _ => 0, fun _ => none, [], 0, .ready⟩

/-- The events of the calls of the file system. -/
def Event.isOp : Event → Bool
  | .next => false
  | .crash => false
  | _ => true

/-- The events of the commit and of crashes. -/
def Event.isCommit : Event → Bool
  | .next => true
  | .crash => true
  | .load _ => true
  | .recycle _ => true
  | _ => false

/-- What a list of events has written over some contents. -/
def written : List Event → (Nat → Block) → Nat → Block
  | [], d => d
  | .log_write b f :: es, d => written es (Function.update d b (f (d b)))
  | _ :: es, d => written es d

/-! ## The header -/

theorem readHead_writeHead {lh : List Nat} (hlen : lh.length ≤ LOGSIZE)
    (hb : ∀ b ∈ lh, b < FSSIZE) (w : Block) : readHead (writeHead lh w) = some lh := by
  have h0 : ((writeHead lh w) 0).toInt.toNat = lh.length := by
    have hlt : lh.length < 2 ^ 31 := by
      simp only [LOGSIZE, MAXOPBLOCKS] at hlen
      omega
    have hnat : (BitVec.ofNat 32 lh.length).toNat = lh.length := Nat.mod_eq_of_lt (by omega)
    simp only [writeHead, Fin.val_zero, if_true]
    rw [BitVec.toInt_eq_toNat_of_lt (by omega), hnat, Int.toNat_natCast]
  unfold readHead
  simp only [h0]
  rw [if_pos hlen]
  congr 1
  apply List.ext_getElem
  · simp
  · intro i hi hi'
    have hi128 : (Fin.ofNat 128 (i + 1)).val = i + 1 := by
      simp only [LOGSIZE, MAXOPBLOCKS] at hlen
      exact Nat.mod_eq_of_lt (by omega)
    have hlt := hb _ (List.getElem_mem hi')
    simp only [FSSIZE] at hlt
    simp only [List.getElem_map, List.getElem_range, writeHead, hi128, Nat.add_sub_cancel]
    rw [if_neg (by omega), dif_pos hi']
    simp only [BitVec.toNat_ofNat]
    omega

theorem readHead_zero : readHead (fun _ => 0) = some [] := by decide

/-! ## What holds in every state -/

/-- The buffers that are not dirty are what the disk has. -/
def Coherent (s : Sys) : Prop :=
  ∀ b buf, s.cache b = some buf → buf.dirty = false → buf.data = s.disk b

/-- The dirty buffers are of these blocks. -/
def DirtyIn (s : Sys) (L : List Nat) : Prop :=
  ∀ b buf, s.cache b = some buf → buf.dirty = true → b ∈ L

/-- The blocks recorded in the header fit the log. -/
structure Recorded (lh : List Nat) : Prop where
  room : lh.length < region.size
  homes : ∀ b ∈ lh, region.Home b ∧ b < FSSIZE

/-- **What the commit and the recovery have done**, by where they are, for a disk that
stands for the contents `A`. -/
def Phase (A : Nat → Block) (s : Sys) : Pc → Prop
  | .ready => Redo region readHead s.disk [] A ∧ DirtyIn s s.lh ∧ Recorded s.lh ∧
      (s.outstanding = 0 → s.lh = [])
  | .write_log tail => Redo region readHead s.disk [] A ∧ DirtyIn s s.lh ∧ Recorded s.lh ∧
      tail ≤ s.lh.length ∧ s.outstanding = 0 ∧
      ∀ i (h : i < s.lh.length), i < tail → s.disk (region.start + 1 + i) = s.bread s.lh[i]
  | .write_head => Redo region readHead s.disk [] A ∧ DirtyIn s s.lh ∧ Recorded s.lh ∧
      s.outstanding = 0 ∧
      ∀ i (h : i < s.lh.length), s.disk (region.start + 1 + i) = s.bread s.lh[i]
  | .install_trans tail => Redo region readHead s.disk s.lh A ∧ DirtyIn s (s.lh.drop tail) ∧
      tail ≤ s.lh.length ∧ s.outstanding = 0 ∧
      ∀ i (h : i < s.lh.length), i < tail → s.disk s.lh[i] = A s.lh[i]
  | .clear => Redo region readHead s.disk s.lh A ∧ DirtyIn s [] ∧ s.outstanding = 0 ∧
      ∀ b ∈ s.lh, s.disk b = A b
  | .read_head => (∃ L, Redo region readHead s.disk L A) ∧ DirtyIn s [] ∧ s.outstanding = 0

structure Inv (A : Nat → Block) (s : Sys) : Prop where
  coherent : Coherent s
  phase : Phase A s s.pc

section Lemmas

variable {A : Nat → Block} {s t : Sys}

theorem bread_of_clean (hs : Coherent s) {b : Nat}
    (hb : ∀ buf, s.cache b = some buf → buf.dirty = false) : s.bread b = s.disk b := by
  unfold Sys.bread
  cases hc : s.cache b with
  | none => rfl
  | some buf => exact hs b buf hc (hb buf hc)

theorem bread_of_not_mem (hs : Coherent s) {L : List Nat} (hd : DirtyIn s L) {b : Nat}
    (hb : b ∉ L) : s.bread b = s.disk b := by
  refine bread_of_clean hs fun buf hbuf => ?_
  cases hdirty : buf.dirty with
  | false => rfl
  | true => exact absurd (hd b buf hbuf hdirty) hb

theorem bread_congr {b : Nat} (hc : t.cache b = s.cache b) (hd : t.disk b = s.disk b) :
    t.bread b = s.bread b := by
  unfold Sys.bread
  rw [hc, hd]

theorem coherent_bwrite (hs : Coherent s) (b : Nat) (w : Block) : Coherent (s.bwrite b w) := by
  intro x buf hx hclean
  simp only [Sys.bwrite] at hx ⊢
  by_cases hxb : x = b
  · subst hxb
    rw [Function.update_self] at hx ⊢
    obtain rfl := Option.some.inj hx
    rfl
  · rw [Function.update_of_ne hxb] at hx ⊢
    exact hs x buf hx hclean

/-- A block that is written is not dirty any more. -/
theorem dirtyIn_bwrite {L L' : List Nat} (hs : DirtyIn s L) (b : Nat) (w : Block)
    (hL : ∀ x ∈ L, x ≠ b → x ∈ L') : DirtyIn (s.bwrite b w) L' := by
  intro x buf hx hdirty
  simp only [Sys.bwrite] at hx
  by_cases hxb : x = b
  · subst hxb
    rw [Function.update_self] at hx
    obtain rfl := Option.some.inj hx
    cases hdirty
  · rw [Function.update_of_ne hxb] at hx
    exact hL x (hs x buf hx hdirty) hxb

theorem bread_bwrite_of_ne {b x : Nat} (w : Block) (h : x ≠ b) :
    (s.bwrite b w).bread x = s.bread x :=
  bread_congr (Function.update_of_ne h _ _) (Function.update_of_ne h _ _)

/-- The phase depends on the disk, on which buffers are dirty, and on their data. -/
theorem Phase.congr {pc : Pc} (h : Phase A s pc) (hdisk : t.disk = s.disk) (hlh : t.lh = s.lh)
    (hout : t.outstanding = s.outstanding) (hdirty : ∀ L, DirtyIn s L → DirtyIn t L)
    (hread : ∀ b, t.bread b = s.bread b) : Phase A t pc := by
  cases pc with
  | ready =>
    obtain ⟨h1, h2, h3, h4⟩ := h
    simp only [Phase, hdisk, hlh, hout]
    exact ⟨h1, hdirty _ h2, h3, h4⟩
  | write_log tail =>
    obtain ⟨h1, h2, h3, h4, h5, h6⟩ := h
    simp only [Phase, hdisk, hlh, hout, hread]
    exact ⟨h1, hdirty _ h2, h3, h4, h5, h6⟩
  | write_head =>
    obtain ⟨h1, h2, h3, h4, h5⟩ := h
    simp only [Phase, hdisk, hlh, hout, hread]
    exact ⟨h1, hdirty _ h2, h3, h4, h5⟩
  | install_trans tail =>
    obtain ⟨h1, h2, h3, h4, h5⟩ := h
    simp only [Phase, hdisk, hlh, hout]
    exact ⟨h1, hdirty _ h2, h3, h4, h5⟩
  | clear =>
    obtain ⟨h1, h2, h3, h4⟩ := h
    simp only [Phase, hdisk, hlh, hout]
    exact ⟨h1, hdirty _ h2, h3, h4⟩
  | read_head =>
    obtain ⟨h1, h2, h3⟩ := h
    simp only [Phase, hdisk, hout]
    exact ⟨h1, hdirty _ h2, h3⟩

theorem Recorded.encode {lh : List Nat} (h : Recorded lh) (w : Block) :
    readHead (writeHead lh w) = some lh :=
  readHead_writeHead (le_of_lt h.room) (fun b hb => (h.homes b hb).2) w

/-- What the disk stands for, wherever the commit is. -/
theorem Inv.redo (hs : Inv A s) : ∃ L, Redo region readHead s.disk L A := by
  have hp := hs.phase
  cases hpc : s.pc with
  | ready => rw [hpc] at hp; exact ⟨_, hp.1⟩
  | write_log tail => rw [hpc] at hp; exact ⟨_, hp.1⟩
  | write_head => rw [hpc] at hp; exact ⟨_, hp.1⟩
  | install_trans tail => rw [hpc] at hp; exact ⟨_, hp.1⟩
  | clear => rw [hpc] at hp; exact ⟨_, hp.1⟩
  | read_head => rw [hpc] at hp; exact hp.1

theorem inv_crash (hs : Inv A s) : Inv A s.crash := by
  have hempty : ∀ b buf, s.crash.cache b ≠ some buf := by
    intro b buf hb
    cases hb
  exact ⟨fun b buf hb => absurd hb (hempty b buf), hs.redo,
    fun b buf hb => absurd hb (hempty b buf), rfl⟩

/-- Only a system that is ready has calls of the file system in progress. -/
theorem Inv.ready_of_outstanding (hs : Inv A s) (h : s.outstanding ≠ 0) : s.pc = .ready := by
  have hp := hs.phase
  cases hpc : s.pc with
  | ready => rfl
  | write_log tail => rw [hpc] at hp; exact absurd hp.2.2.2.2.1 h
  | write_head => rw [hpc] at hp; exact absurd hp.2.2.2.1 h
  | install_trans tail => rw [hpc] at hp; exact absurd hp.2.2.2.1 h
  | clear => rw [hpc] at hp; exact absurd hp.2.2.1 h
  | read_head => rw [hpc] at hp; exact absurd hp.2.2 h

theorem begin_op_spec (hs : Inv A s) (h : s.begin_op = some t) :
    Inv A t ∧ t.bread = s.bread := by
  unfold Sys.begin_op at h
  split at h
  case isFalse => cases h
  case isTrue hc =>
    obtain rfl := Option.some.inj h
    have hp := hs.phase
    rw [hc.1] at hp
    refine ⟨⟨hs.coherent, ?_⟩, rfl⟩
    simp only [hc.1]
    exact ⟨hp.1, hp.2.1, hp.2.2.1, fun h0 => absurd h0 (Nat.succ_ne_zero _)⟩

theorem log_write_spec {b : Nat} {f : Block → Block} (hs : Inv A s)
    (h : s.log_write b f = some t) :
    Inv A t ∧ t.bread = Function.update s.bread b (f (s.bread b)) := by
  unfold Sys.log_write at h
  split at h
  · cases h
  case isFalse hroom =>
    split at h
    · cases h
    case isFalse hout =>
      split at h
      case isFalse => cases h
      case isTrue hb =>
        obtain rfl := Option.some.inj h
        have hpc := hs.ready_of_outstanding (by omega)
        have hp := hs.phase
        rw [hpc] at hp
        obtain ⟨hredo, hdirty, hrec, -⟩ := hp
        have hmem : ∀ x, x ∈ (if b ∈ s.lh then s.lh else s.lh ++ [b]) ↔ x ∈ s.lh ∨ x = b := by
          intro x
          split
          case isTrue hbm =>
            constructor
            · exact .inl
            · rintro (hx | rfl)
              · exact hx
              · exact hbm
          case isFalse => simp
        have hother : ∀ x, x ≠ b →
            Function.update s.cache b (some ⟨f (s.bread b), true⟩) x = s.cache x :=
          fun x hx => Function.update_of_ne hx _ _
        refine ⟨⟨?_, ?_⟩, ?_⟩
        · -- the buffer is dirty, the others are as before
          intro x buf hx hclean
          by_cases hxb : x = b
          · subst hxb
            simp only [Function.update_self] at hx
            obtain rfl := Option.some.inj hx
            cases hclean
          · exact hs.coherent x buf ((hother x hxb).symm.trans hx) hclean
        · simp only [hpc]
          refine ⟨hredo, ?_, ⟨?_, ?_⟩, fun h0 => absurd h0 (by show s.outstanding ≠ 0; omega)⟩
          · intro x buf hx hd
            refine (hmem x).2 ?_
            by_cases hxb : x = b
            · exact .inr hxb
            · exact .inl (hdirty x buf ((hother x hxb).symm.trans hx) hd)
          · -- an absorbed block takes no room
            split
            · exact hrec.room
            · rw [List.length_append, List.length_singleton]
              omega
          · intro x hx
            rcases (hmem x).1 hx with hx | rfl
            · exact hrec.homes x hx
            · exact hb
        · funext x
          by_cases hxb : x = b
          · subst hxb
            simp [Sys.bread]
          · rw [Function.update_of_ne hxb]
            exact bread_congr (hother x hxb) rfl

theorem end_op_spec (hs : Inv A s) (h : s.end_op = some t) : Inv A t ∧ t.bread = s.bread := by
  unfold Sys.end_op at h
  split at h
  · cases h
  case isFalse h0 =>
    obtain rfl := Option.some.inj h
    have hpc := hs.ready_of_outstanding h0
    have hp := hs.phase
    rw [hpc] at hp
    obtain ⟨hredo, hdirty, hrec, -⟩ := hp
    refine ⟨⟨hs.coherent, ?_⟩, rfl⟩
    by_cases hc : s.outstanding = 1 ∧ 0 < s.lh.length
    · simp only [hc, and_self, if_true]
      exact ⟨hredo, hdirty, hrec, Nat.zero_le _, rfl, fun i _ hi => absurd hi (Nat.not_lt_zero i)⟩
    · simp only [hc, if_false, hpc]
      refine ⟨hredo, hdirty, hrec, fun hz => ?_⟩
      have hlen : s.lh.length = 0 := by
        have hz' : s.outstanding - 1 = 0 := hz
        omega
      exact List.length_eq_zero_iff.1 hlen

theorem load_spec (hs : Inv A s) (b : Nat) :
    Inv A (s.load b) ∧ (s.load b).bread = s.bread ∧ (s.load b).pc = s.pc := by
  unfold Sys.load
  cases hc : s.cache b with
  | some buf => exact ⟨hs, rfl, rfl⟩
  | none =>
    have hother : ∀ x, x ≠ b → Function.update s.cache b (some ⟨s.disk b, false⟩) x = s.cache x :=
      fun x hx => Function.update_of_ne hx _ _
    have hread : ∀ x, Sys.bread { s with
        cache := Function.update s.cache b (some ⟨s.disk b, false⟩) } x = s.bread x := by
      intro x
      by_cases hxb : x = b
      · subst hxb
        simp [Sys.bread, hc]
      · exact bread_congr (hother x hxb) rfl
    refine ⟨⟨?_, hs.phase.congr rfl rfl rfl ?_ hread⟩, funext hread, rfl⟩
    · intro x buf hx hclean
      by_cases hxb : x = b
      · subst hxb
        simp only [Function.update_self] at hx
        obtain rfl := Option.some.inj hx
        rfl
      · exact hs.coherent x buf ((hother x hxb).symm.trans hx) hclean
    · intro L hL x buf hx hdirty
      by_cases hxb : x = b
      · subst hxb
        simp only [Function.update_self] at hx
        obtain rfl := Option.some.inj hx
        cases hdirty
      · exact hL x buf ((hother x hxb).symm.trans hx) hdirty

theorem recycle_spec (hs : Inv A s) {b : Nat} (h : s.recycle b = some t) :
    Inv A t ∧ t.bread = s.bread ∧ t.pc = s.pc := by
  unfold Sys.recycle at h
  split at h
  case h_2 => cases h
  case h_1 data hc =>
    obtain rfl := Option.some.inj h
    have hother : ∀ x, x ≠ b → Function.update s.cache b none x = s.cache x :=
      fun x hx => Function.update_of_ne hx _ _
    have hgone : ∀ x buf, Function.update s.cache b none x = some buf → s.cache x = some buf := by
      intro x buf hx
      by_cases hxb : x = b
      · subst hxb
        rw [Function.update_self] at hx
        cases hx
      · rw [← hother x hxb]
        exact hx
    have hread : ∀ x, Sys.bread { s with cache := Function.update s.cache b none } x =
        s.bread x := by
      intro x
      by_cases hxb : x = b
      · -- the buffer had what the disk has
        subst hxb
        have hdata : data = s.disk x := hs.coherent x _ hc rfl
        simp [Sys.bread, hc, hdata]
      · exact bread_congr (hother x hxb) rfl
    refine ⟨⟨?_, hs.phase.congr rfl rfl rfl ?_ hread⟩, funext hread, rfl⟩
    · exact fun x buf hx => hs.coherent x buf (hgone x buf hx)
    · exact fun L hL x buf hx => hL x buf (hgone x buf hx)

/-- A block of the log is not a home. -/
theorem not_home {i : Nat} (hi : i + 1 < region.size) : ¬region.Home (region.start + 1 + i) := by
  unfold Region.Home
  omega

theorem write_log_spec {tail : Nat} (hs : Inv A s) (hpc : s.pc = .write_log tail)
    (h : s.next = some t) :
    Inv A t ∧ ∀ b, region.Home b → t.bread b = s.bread b := by
  have hp := hs.phase
  rw [hpc] at hp
  obtain ⟨hredo, hdirty, hrec, htail, hout, hlog⟩ := hp
  have hroom := hrec.room
  unfold Sys.next at h
  simp only [hpc] at h
  split at h
  case isTrue hlt =>
    obtain rfl := Option.some.inj h
    have hread : ∀ b, region.Home b →
        (s.bwrite (region.start + 1 + tail) (s.bread s.lh[tail])).bread b = s.bread b := by
      intro b hb
      refine bread_bwrite_of_ne _ ?_
      rintro rfl
      exact not_home (by omega) hb
    refine ⟨⟨coherent_bwrite hs.coherent _ _, hredo.log (by omega) _,
      dirtyIn_bwrite hdirty _ _ fun x hx _ => hx, hrec, hlt, hout, ?_⟩, hread⟩
    intro i hi hit
    refine Eq.trans ?_ (hread _ (hrec.homes _ (List.getElem_mem hi)).1).symm
    rcases Nat.lt_succ_iff_lt_or_eq.1 hit with hit | rfl
    · have hne : region.start + 1 + i ≠ region.start + 1 + tail := by omega
      exact (Function.update_of_ne hne _ _).trans (hlog i hi hit)
    · exact Function.update_self ..
  case isFalse hge =>
    obtain rfl := Option.some.inj h
    have hlast : ∀ i, i < s.lh.length → i < tail := fun i hi => by omega
    exact ⟨⟨hs.coherent, hredo, hdirty, hrec, hout, fun i hi => hlog i hi (hlast i hi)⟩,
      fun _ _ => rfl⟩

/-- **The real commit**: the disk stands for what the buffers have. -/
theorem write_head_spec (hs : Inv A s) (hpc : s.pc = .write_head) (h : s.next = some t) :
    Inv s.bread t := by
  have hp := hs.phase
  rw [hpc] at hp
  obtain ⟨hredo, hdirty, hrec, hout, hlog⟩ := hp
  unfold Sys.next at h
  simp only [hpc] at h
  obtain rfl := Option.some.inj h
  refine ⟨coherent_bwrite hs.coherent _ _, ?_, dirtyIn_bwrite hdirty _ _ fun x hx _ => hx,
    Nat.zero_le _, hout, fun i _ hi => absurd hi (Nat.not_lt_zero i)⟩
  refine hredo.commit (hrec.encode _) hrec.room (fun b hb => (hrec.homes b hb).1) hlog ?_
  intro b hb hbL
  rw [bread_of_not_mem hs.coherent hdirty hbL]
  exact (hredo.clean hb).symm

theorem install_trans_spec {tail : Nat} (hs : Inv A s) (hpc : s.pc = .install_trans tail)
    (h : s.next = some t) : Inv A t := by
  have hp := hs.phase
  rw [hpc] at hp
  obtain ⟨hredo, hdirty, htail, hout, hdone⟩ := hp
  have hroom := hredo.room
  unfold Sys.next at h
  simp only [hpc] at h
  split at h
  case isTrue hlt =>
    obtain rfl := Option.some.inj h
    -- the copy is read from the disk, as no buffer of the log is dirty
    have hcopy : s.bread (region.start + 1 + tail) = s.disk (region.start + 1 + tail) := by
      refine bread_of_not_mem hs.coherent hdirty fun hmem => ?_
      exact not_home (by omega) (hredo.homes _ (List.mem_of_mem_drop hmem))
    rw [hcopy]
    refine ⟨coherent_bwrite hs.coherent _ _, hredo.install hlt,
      dirtyIn_bwrite hdirty _ _ ?_, hlt, hout, hredo.install_prefix hlt hdone⟩
    intro x hx hne
    rw [List.drop_eq_getElem_cons hlt] at hx
    exact (List.mem_cons.1 hx).resolve_left hne
  case isFalse hge =>
    obtain rfl := Option.some.inj h
    have hall : s.lh.drop tail = [] := List.drop_eq_nil_of_le (by omega)
    have hlast : ∀ i, i < s.lh.length → i < tail := fun i hi => by omega
    rw [hall] at hdirty
    refine ⟨hs.coherent, hredo, hdirty, hout, fun b hb => ?_⟩
    obtain ⟨i, hi, rfl⟩ := List.getElem_of_mem hb
    exact hdone i hi (hlast i hi)

theorem clear_spec (hs : Inv A s) (hpc : s.pc = .clear) (h : s.next = some t) : Inv A t := by
  have hp := hs.phase
  rw [hpc] at hp
  obtain ⟨hredo, hdirty, -, hdone⟩ := hp
  have hnil : Recorded [] := ⟨by decide, fun b hb => by cases hb⟩
  unfold Sys.next at h
  simp only [hpc] at h
  obtain rfl := Option.some.inj h
  exact ⟨coherent_bwrite hs.coherent _ _, hredo.clear hdone (hnil.encode _),
    dirtyIn_bwrite hdirty _ _ fun x hx _ => hx, hnil, fun _ => rfl⟩

theorem read_head_spec (hs : Inv A s) (hpc : s.pc = .read_head) (h : s.next = some t) :
    Inv A t := by
  have hp := hs.phase
  rw [hpc] at hp
  obtain ⟨⟨L, hredo⟩, hdirty, hout⟩ := hp
  have hhead : s.bread region.start = s.disk region.start :=
    bread_of_not_mem hs.coherent hdirty List.not_mem_nil
  unfold Sys.next at h
  simp only [hpc] at h
  rw [hhead, hredo.header] at h
  obtain rfl := Option.some.inj h
  refine ⟨hs.coherent, hredo, ?_, Nat.zero_le _, hout, fun i _ hi => absurd hi (Nat.not_lt_zero i)⟩
  intro b buf hb hd
  exact absurd (hdirty b buf hb hd) List.not_mem_nil

/-- Whether the buffers are still to be written to the log. -/
def Pc.logs : Pc → Bool
  | .write_log _ => true
  | .write_head => true
  | _ => false

/-- **A step of the commit** or the recovery keeps the contents, but for the write of
the header, which makes them those of the buffers. -/
theorem next_spec (hs : Inv A s) (h : s.next = some t) :
    (s.pc = .write_head ∧ t.pc.logs = false ∧ Inv s.bread t) ∨
      (Inv A t ∧ (t.pc.logs = true →
        s.pc.logs = true ∧ ∀ b, region.Home b → t.bread b = s.bread b)) := by
  cases hpc : s.pc with
  | ready => simp [Sys.next, hpc] at h
  | write_log tail =>
    obtain ⟨hI, hread⟩ := write_log_spec hs hpc h
    exact .inr ⟨hI, fun _ => ⟨rfl, hread⟩⟩
  | write_head =>
    have hI := write_head_spec hs hpc h
    simp only [Sys.next, hpc] at h
    obtain rfl := Option.some.inj h
    exact .inl ⟨rfl, rfl, hI⟩
  | install_trans tail =>
    have hI := install_trans_spec hs hpc h
    simp only [Sys.next, hpc] at h
    refine .inr ⟨hI, fun hlogs => ?_⟩
    split at h <;> obtain rfl := Option.some.inj h <;> cases hlogs
  | clear =>
    have hI := clear_spec hs hpc h
    simp only [Sys.next, hpc] at h
    obtain rfl := Option.some.inj h
    exact .inr ⟨hI, fun hlogs => by cases hlogs⟩
  | read_head =>
    have hI := read_head_spec hs hpc h
    simp only [Sys.next, hpc] at h
    obtain ⟨lh, -, rfl⟩ := Option.map_eq_some_iff.1 h
    exact .inr ⟨hI, fun hlogs => by cases hlogs⟩

theorem inv_boot (d : Nat → Block) : ∃ A, Inv A (boot d) := by
  have hempty : ∀ b buf, (boot d).cache b ≠ some buf := by
    intro b buf hb
    cases hb
  refine ⟨d, fun b buf hb => absurd hb (hempty b buf), ⟨[], ?_⟩,
    fun b buf hb => absurd hb (hempty b buf), rfl⟩
  refine ⟨?_, by decide, fun b hb => absurd hb List.not_mem_nil,
    fun i hi => absurd hi (Nat.not_lt_zero i), ?_⟩
  · show readHead (Function.update d region.start (fun _ => 0) region.start) = _
    rw [Function.update_self]
    exact readHead_zero
  · intro b hb _
    refine Function.update_of_ne ?_ _ _
    rintro rfl
    exact absurd hb (by decide)

theorem inv_step {e : Event} (hs : ∃ A, Inv A s) (h : Step s e t) : ∃ A, Inv A t := by
  obtain ⟨A, hs⟩ := hs
  cases e with
  | begin_op => exact ⟨A, (begin_op_spec hs h).1⟩
  | log_write b f => exact ⟨A, (log_write_spec hs h).1⟩
  | end_op => exact ⟨A, (end_op_spec hs h).1⟩
  | next =>
    rcases next_spec hs h with ⟨-, -, hI⟩ | ⟨hI, -⟩
    · exact ⟨_, hI⟩
    · exact ⟨A, hI⟩
  | crash =>
    obtain rfl := Option.some.inj h
    exact ⟨A, inv_crash hs⟩
  | load b =>
    obtain rfl := Option.some.inj h
    exact ⟨A, (load_spec hs b).1⟩
  | recycle b => exact ⟨A, (recycle_spec hs h).1⟩

/-- **In every reachable state** the disk stands for some contents. -/
theorem inv_run {d : Nat → Block} {es : List Event} (hr : Run Step (boot d) es s) :
    ∃ A, Inv A s :=
  hr.invariant (P := fun s => ∃ A, Inv A s) (fun _ _ _ h hs => inv_step hs h) (inv_boot d)

/-! ## A transaction -/

theorem written_cons (e : Event) (es : List Event) (d : Nat → Block) :
    written (e :: es) d = written es (written [e] d) := by
  cases e <;> rfl

/-- A call of the file system changes the buffers as it says, and the contents not. -/
theorem op_spec {e : Event} (hs : Inv A s) (he : e.isOp = true) (h : Step s e t) :
    Inv A t ∧ t.bread = written [e] s.bread := by
  cases e with
  | begin_op => exact begin_op_spec hs h
  | log_write b f => exact log_write_spec hs h
  | end_op => exact end_op_spec hs h
  | next => cases he
  | crash => cases he
  | load b =>
    obtain rfl := Option.some.inj h
    exact ⟨(load_spec hs b).1, (load_spec hs b).2.1⟩
  | recycle b => exact ⟨(recycle_spec hs h).1, (recycle_spec hs h).2.1⟩

theorem ops_spec {es : List Event} (hr : Run Step s es t) (hs : Inv A s)
    (he : ∀ e ∈ es, e.isOp = true) : Inv A t ∧ t.bread = written es s.bread := by
  induction hr with
  | nil s => exact ⟨hs, rfl⟩
  | @cons s u t e es h _ ih =>
    obtain ⟨hu, hread⟩ := op_spec hs (he e List.mem_cons_self) h
    obtain ⟨ht, hread'⟩ := ih hu fun e' h' => he e' (List.mem_cons_of_mem _ h')
    refine ⟨ht, ?_⟩
    rw [hread', hread, ← written_cons]

/-- What holds of a transaction until it is done: the disk stands for the old contents,
and the buffers that are still to be logged have the new ones; or it stands for the
new ones. -/
def Between (A B : Nat → Block) (s : Sys) : Prop :=
  (Inv A s ∧ (s.pc.logs = true → ∀ b, region.Home b → s.bread b = B b)) ∨
    ∃ C, Inv C s ∧ s.pc.logs = false ∧ ∀ b, region.Home b → C b = B b

theorem Between.step {B : Nat → Block} {e : Event} (hs : Between A B s)
    (he : e.isCommit = true) (h : Step s e t) : Between A B t := by
  cases e with
  | begin_op => cases he
  | log_write b f => cases he
  | end_op => cases he
  | next =>
    rcases hs with ⟨hI, hB⟩ | ⟨C, hI, hlogs, hB⟩
    · rcases next_spec hI h with ⟨hpc, hlogs, hI'⟩ | ⟨hI', hread⟩
      · -- the commit point
        exact .inr ⟨_, hI', hlogs, hB (by rw [hpc]; rfl)⟩
      · refine .inl ⟨hI', fun hlogs b hb => ?_⟩
        obtain ⟨hs', hr⟩ := hread hlogs
        rw [hr b hb]
        exact hB hs' b hb
    · rcases next_spec hI h with ⟨hpc, -, -⟩ | ⟨hI', hback⟩
      · rw [hpc] at hlogs
        cases hlogs
      · refine .inr ⟨C, hI', Bool.eq_false_iff.2 fun ht => ?_, hB⟩
        rw [(hback ht).1] at hlogs
        cases hlogs
  | crash =>
    obtain rfl := Option.some.inj h
    rcases hs with ⟨hI, -⟩ | ⟨C, hI, -, hB⟩
    · exact .inl ⟨inv_crash hI, fun hlogs => by cases hlogs⟩
    · exact .inr ⟨C, inv_crash hI, rfl, hB⟩
  | load b =>
    obtain rfl := Option.some.inj h
    rcases hs with ⟨hI, hB⟩ | ⟨C, hI, hlogs, hB⟩
    · obtain ⟨hI', hread, hpc⟩ := load_spec hI b
      refine .inl ⟨hI', ?_⟩
      rw [hread, hpc]
      exact hB
    · obtain ⟨hI', -, hpc⟩ := load_spec hI b
      exact .inr ⟨C, hI', hpc ▸ hlogs, hB⟩
  | recycle b =>
    rcases hs with ⟨hI, hB⟩ | ⟨C, hI, hlogs, hB⟩
    · obtain ⟨hI', hread, hpc⟩ := recycle_spec hI h
      refine .inl ⟨hI', ?_⟩
      rw [hread, hpc]
      exact hB
    · obtain ⟨hI', -, hpc⟩ := recycle_spec hI h
      exact .inr ⟨C, hI', hpc ▸ hlogs, hB⟩

theorem Between.run {B : Nat → Block} {es : List Event} (hr : Run Step s es t)
    (hs : Between A B s) (he : ∀ e ∈ es, e.isCommit = true) : Between A B t := by
  induction hr with
  | nil s => exact hs
  | cons h _ ih =>
    exact ih (hs.step (he _ List.mem_cons_self) h) fun e h' => he e (List.mem_cons_of_mem _ h')

end Lemmas

/-! ## The inodes -/

/-- The block of an inode. -/
def IBLOCK (inum : Nat) : Nat := inum / 8 + (region.start + LOGSIZE)

theorem home_IBLOCK (inum : Nat) : region.Home (IBLOCK inum) :=
  .inr (Nat.le_add_left _ _)

def dinode (d : Nat → Block) (inum : Nat) : Dinode := (d (IBLOCK inum)).dinode (Fin.ofNat 8 inum)

/-- `iupdate`. -/
def iupdate (inum : Nat) (ip : Inode) : Event :=
  .log_write (IBLOCK inum) (Block.putDinode (Fin.ofNat 8 inum) ip.toDisk)

/-- What `sys_chmod` writes. -/
def chmod (inum : Nat) (ip : Inode) (mode : BitVec 32) : Event :=
  iupdate inum { ip with mode := mode &&& 7 }

/-- The events that do not change an inode. -/
def KeepsDinode (inum : Nat) : Event → Prop
  | .log_write b f => b = IBLOCK inum →
      ∀ w, (f w).dinode (Fin.ofNat 8 inum) = w.dinode (Fin.ofNat 8 inum)
  | _ => True

theorem dinode_written_of_keeps {inum : Nat} {es : List Event}
    (he : ∀ e ∈ es, KeepsDinode inum e) (d : Nat → Block) :
    dinode (written es d) inum = dinode d inum := by
  induction es generalizing d with
  | nil => rfl
  | cons e es ih =>
    have ih' := ih (fun e' h' => he e' (List.mem_cons_of_mem _ h'))
    have hk := he e List.mem_cons_self
    cases e with
    | log_write b f =>
      refine (ih' _).trans ?_
      unfold dinode
      by_cases hb : b = IBLOCK inum
      · subst hb
        rw [Function.update_self]
        exact hk rfl _
      · rw [Function.update_of_ne (Ne.symm hb)]
    | _ => exact ih' d

theorem written_append (es es' : List Event) (d : Nat → Block) :
    written (es ++ es') d = written es' (written es d) := by
  induction es generalizing d with
  | nil => rfl
  | cons e es ih =>
    rw [List.cons_append, written_cons, ih, ← written_cons]

/-- An inode that `iupdate` writes last is what it wrote. -/
theorem dinode_written_iupdate {inum : Nat} {es' : List Event} (es : List Event) (ip : Inode)
    (he : ∀ e ∈ es', KeepsDinode inum e) (d : Nat → Block) :
    dinode (written (es ++ iupdate inum ip :: es') d) inum = ip.toDisk := by
  rw [written_append]
  refine (dinode_written_of_keeps he _).trans ?_
  unfold dinode
  rw [Function.update_self]
  exact Block.dinode_putDinode _ _ _

/-- **A transaction is atomic across crashes.** From a state with no call of the file
system in progress, after calls and then a commit with crashes wherever they fall: when
the kernel is ready again, every home block has its old contents or every one its new
ones. And an inode that one of the calls rewrites with chmod has its old or its new
metadata. -/
theorem crash_atomic {d : Nat → Block} {es ops fs : List Event} {s u t : Sys}
    (hr : Run Step (boot d) es s) (hready : s.pc = .ready) (hquiet : s.outstanding = 0)
    (hops : Run Step s ops u) (hop : ∀ e ∈ ops, e.isOp = true)
    (hfs : Run Step u fs t) (hcommit : ∀ e ∈ fs, e.isCommit = true) (ht : t.pc = .ready) :
    ((∀ b, region.Home b → t.disk b = s.disk b) ∨
      ∀ b, region.Home b → t.disk b = written ops s.disk b) ∧
    ∀ inum ip mode before after, ops = before ++ chmod inum ip mode :: after →
      (∀ e ∈ after, KeepsDinode inum e) →
      dinode t.disk inum = dinode s.disk inum ∨
        dinode t.disk inum = Inode.toDisk { ip with mode := mode &&& 7 } := by
  obtain ⟨A, hs⟩ := inv_run hr
  have hp := hs.phase
  rw [hready] at hp
  obtain ⟨hredo, hdirty, -, hlh⟩ := hp
  rw [hlh hquiet] at hdirty
  -- no buffer is dirty, so the calls start from the disk
  have hread : s.bread = s.disk := by
    funext b
    exact bread_of_not_mem hs.coherent hdirty List.not_mem_nil
  obtain ⟨hu, hnew⟩ := ops_spec hops hs hop
  rw [hread] at hnew
  have hbetween : Between A (written ops s.disk) t :=
    Between.run hfs (.inl ⟨hu, fun _ b _ => by rw [hnew]⟩) hcommit
  have hblocks : (∀ b, region.Home b → t.disk b = s.disk b) ∨
      ∀ b, region.Home b → t.disk b = written ops s.disk b := by
    rcases hbetween with ⟨hI, -⟩ | ⟨C, hI, -, hC⟩
    · have hpt := hI.phase
      rw [ht] at hpt
      exact .inl fun b hb => (hpt.1.clean hb).trans (hredo.clean hb).symm
    · have hpt := hI.phase
      rw [ht] at hpt
      exact .inr fun b hb => (hpt.1.clean hb).trans (hC b hb)
  refine ⟨hblocks, ?_⟩
  rintro inum ip mode before after rfl hkeep
  rcases hblocks with hold | hnew'
  · left
    unfold dinode
    rw [hold _ (home_IBLOCK inum)]
  · right
    rw [← dinode_written_iupdate before { ip with mode := mode &&& 7 } hkeep s.disk]
    unfold dinode
    rw [hnew' _ (home_IBLOCK inum)]
    rfl

/-- The kernel starts on an empty log. -/
def start : List Event := [.next, .next, .next]

/-- A call of chmod on the root, and a commit with a crash after its header is written
and another one during the recovery. -/
def chmodRoot (ip : Inode) : List Event := [.begin_op, chmod 1 ip 5, .end_op]

def crashes : List Event :=
  [.next, .next, .next, .crash, .next, .next, .crash, .next, .next, .next, .next]

theorem crash_atomic_chmod :
    ∃ s u t, exec step start (boot fun _ _ => 0) = some s ∧
      exec step (chmodRoot ⟨1, 0, 0, 1, 7, 512, fun _ => 0⟩) s = some u ∧
      exec step crashes u = some t ∧
      ((∀ b, region.Home b → t.disk b = s.disk b) ∨ ∀ b, region.Home b →
        t.disk b = written (chmodRoot ⟨1, 0, 0, 1, 7, 512, fun _ => 0⟩) s.disk b) := by
  have h : ((exec step start (boot fun _ _ => 0)).any fun s =>
      s.pc == .ready && s.outstanding == 0 &&
        (exec step (chmodRoot ⟨1, 0, 0, 1, 7, 512, fun _ => 0⟩) s).any fun u =>
          (exec step crashes u).any fun t => t.pc == .ready) = true := by decide +kernel
  obtain ⟨s, hs, h⟩ := (Option.any_eq_true _ _).1 h
  simp only [Bool.and_eq_true, beq_iff_eq] at h
  obtain ⟨⟨hready, hquiet⟩, h⟩ := h
  obtain ⟨u, hu, h⟩ := (Option.any_eq_true _ _).1 h
  obtain ⟨t, ht, h⟩ := (Option.any_eq_true _ _).1 h
  refine ⟨s, u, t, hs, hu, ht, (crash_atomic (run_of_exec hs) hready hquiet (run_of_exec hu) ?_
    (run_of_exec ht) ?_ (beq_iff_eq.1 h)).1⟩
  · simp [chmodRoot, chmod, iupdate, Event.isOp]
  · simp [crashes, Event.isCommit]

end Log

end Xv6.Shell
