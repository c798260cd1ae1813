/-
Memory pressure: what an allocation takes out of memory, foreseen.

Which pages the evictions take is decided by little: how many frames and slots are free,
the two parameters of `checkAndSwap`, the pid and the counter of each process, and where
each page is. `Pressure` is that much of a machine and no more: no bytes, no frame
numbers, no page tables. Its operations are functions, so what the allocations to come
will take can be computed from the state before them. `Presses` says that a routine has
done to the machine what the operation does to its `Pressure`: the loop of `swapOutPages`,
the round of `checkAndSwap`, and `kalloc` with its retries.

A page that goes leaves its frame to `kfree` and to the next `kalloc`. `Scrubs` says that
its bytes are gone with it.
-/
import Xv6.Swap.Exhaust

set_option autoImplicit false

namespace Xv6.Swap

open Xv6.Lib

/-! ## The model -/

/-- Where a page is, as far as the evictions can tell. -/
inductive Place where
  | absent
  /-- In memory, and not a user page: it stays there. -/
  | pinned
  | memory (accessed : Bool)
  /-- In a slot, with the accessed bit that it will come back with. -/
  | slot (accessed : Bool)
  deriving DecidableEq

namespace Place

/-- A page that the scans of `findVictimPage` may find. -/
def user : Place → Bool
  | memory _ => true
  | _ => false

def unaccessed : Place → Bool
  | memory a => !a
  | _ => false

def clearA : Place → Place
  | memory _ => memory false
  | p => p

end Place

/-- What decides the evictions. -/
structure Pressure where
  frames : Nat
  slots : Nat
  threshold : Nat
  batch : Nat
  pid : Nat → Nat
  rss : Nat → BitVec 32
  /-- The place of each page of each process. -/
  place : Nat → Nat → Place

namespace Pressure

/-- A process that can be the victim. -/
def Candidate (q : Pressure) (p : Nat) : Prop := 1 ≤ q.pid p ∧ q.rss p ≠ 0#32

instance (q : Pressure) (p : Nat) : Decidable (q.Candidate p) :=
  inferInstanceAs (Decidable (_ ∧ _))

/-- The larger counter wins, and then the smaller pid. -/
def key (q : Pressure) (p : Nat) : ℕ ×ₗ ℕᵒᵈ :=
  toLex ((q.rss p).toNat, OrderDual.toDual (q.pid p))

def victim (q : Pressure) : Option Nat := scan q.Candidate q.key (List.range NPROC) none

/-- The lowest user page of process `p` without the accessed bit. -/
def unaccessed (q : Pressure) (p : Nat) : Option Nat :=
  (List.range' 0 UPAGES).find? fun v => (q.place p v).unaccessed

/-- The lowest user page of process `p`. -/
def lowest (q : Pressure) (p : Nat) : Option Nat :=
  (List.range' 0 UPAGES).find? fun v => (q.place p v).user

/-- What the search for a page does to the accessed bits of process `p`. -/
def search (q : Pressure) (p : Nat) : Pressure :=
  match q.unaccessed p with
  | some _ => q
  | none => { q with place := Function.update q.place p fun v => (q.place p v).clearA }

/-- The page it finds. -/
def victimPage (q : Pressure) (p : Nat) : Option Nat :=
  match q.unaccessed p with
  | some v => some v
  | none => q.lowest p

/-- Page `v` of process `p` goes to a slot. -/
def leave (q : Pressure) (p v : Nat) : Pressure :=
  { q with
    frames := q.frames + 1
    slots := q.slots - 1
    rss := Function.update q.rss p (q.rss p - 1)
    place := Function.update q.place p (Function.update (q.place p) v (.slot false)) }

/-- The loop of `swapOutPages` for victim `p`. -/
def outLoop (p n : Nat) : (attempts swapped : Nat) → Pressure → Pressure
  | 0, _, q => q
  | attempts + 1, swapped, q =>
    if swapped < n then
      match q.victimPage p with
      | none => q.search p
      | some v =>
        if (q.search p).slots = 0 then outLoop p n attempts swapped (q.search p)
        else outLoop p n attempts (swapped + 1) ((q.search p).leave p v)
    else q

/-- A lower threshold, a larger batch. -/
def adapt (q : Pressure) : Pressure :=
  let t := q.threshold - q.threshold * beta / 100
  let n := q.batch + q.batch * alpha / 100
  { q with threshold := if t < 1 then 1 else t, batch := if n > limit then limit else n }

/-- `swapOutPages`. -/
def swapOut (q : Pressure) : Pressure :=
  match q.victim with
  | none => q
  | some p => outLoop p q.batch (q.batch * 2) 0 q

/-- One call of `checkAndSwap`. -/
def round (q : Pressure) : Pressure := if q.frames > q.threshold then q else q.swapOut.adapt

/-- What `kalloc` does before it takes a frame. -/
def refill (q : Pressure) : Pressure :=
  if q.frames = 0 then
    if q.round.frames = 0 then q.round.round else q.round
  else q

/-- `kalloc`. It fails when `refill` leaves no frame. -/
def take (q : Pressure) : Pressure := { q.refill with frames := q.refill.frames - 1 }

/-- `kalloc` with `n` retries. -/
def takeRetry : Nat → Pressure → Pressure
  | 0, q => q.take
  | n + 1, q => if q.refill.frames = 0 then takeRetry n q.take.round else q.take

/-- The rounds that `findFreeSlot` with `n` retries runs while no slot is free. -/
def slotRounds : Nat → Pressure → Pressure
  | 0, q => q
  | n + 1, q => if q.slots = 0 then slotRounds n q.round else q

end Pressure

/-! ## The pressure on a machine -/

variable {h : Set Nat} {s t u : Machine} {q : Pressure} {p d v : Nat}

/-- Where page `v` of process `p` is. The slots of a zombie are no longer its own. -/
def Machine.place (s : Machine) (p v : Nat) : Place :=
  let e := s.pte (s.proc p).pgdir v
  if e.present then
    if e.user then .memory e.accessed else .pinned
  else if e.swapped then
    .slot (decide ((s.proc p).state ≠ .ZOMBIE) && (s.slots e.ppn).page_perm.getLsbD 5)
  else .absent

instance (p : Proc) : Decidable p.live := inferInstanceAs (Decidable (_ ∧ _))

/-- The pressure on a machine. -/
def Machine.pressure (s : Machine) : Pressure where
  frames := s.freelist.length
  slots := (freeSlots s).card
  threshold := s.threshold
  batch := s.npages_to_swap
  pid p := (s.proc p).pid
  rss p := if (s.proc p).live then (s.proc p).rss else 0#32
  place := s.place

/-- `q` is the pressure on `s`, as far as it matters: pids and pages of live processes, and
pages of the user half. -/
structure Fits (q : Pressure) (s : Machine) : Prop where
  frames : q.frames = s.freelist.length
  slots : q.slots = (freeSlots s).card
  threshold : q.threshold = s.threshold
  batch : q.batch = s.npages_to_swap
  pid : ∀ p, (s.proc p).live → q.pid p = (s.proc p).pid
  rss : ∀ p, (s.proc p).live → q.rss p = (s.proc p).rss
  dead : ∀ p, ¬(s.proc p).live → q.rss p = 0#32
  place : ∀ p, (s.proc p).live → ∀ v < UPAGES, q.place p v = s.place p v

theorem Machine.pressure_fits (s : Machine) : Fits s.pressure s where
  frames := rfl
  slots := by
    unfold Machine.pressure
    dsimp only
  threshold := rfl
  batch := rfl
  pid _ _ := rfl
  rss _ hp := if_pos hp
  dead _ hp := if_neg hp
  place _ _ _ _ := rfl

/-- Two machines that agree on an entry, and on the slot it names. -/
theorem Machine.place_congr (hz : (t.proc p).state = (s.proc p).state)
    (he : t.pte (t.proc p).pgdir v = s.pte (s.proc p).pgdir v)
    (hs : (s.pte (s.proc p).pgdir v).swapped = true → (s.proc p).state ≠ .ZOMBIE →
      t.slots (s.pte (s.proc p).pgdir v).ppn = s.slots (s.pte (s.proc p).pgdir v).ppn) :
    t.place p v = s.place p v := by
  unfold Machine.place
  rw [hz, he]
  dsimp only
  split
  · rfl
  · split
    · next hsw =>
      by_cases hzs : (s.proc p).state = .ZOMBIE
      · simp [hzs]
      · rw [hs hsw hzs]
    · rfl

/-- What is not a live process, or not a page table of one, may change. -/
theorem Fits.congr (hq : Fits q s) (hfree : t.freelist.length = s.freelist.length)
    (hslots : t.slots = s.slots)
    (htune : (t.threshold, t.npages_to_swap) = (s.threshold, s.npages_to_swap))
    (hproc : ∀ p, (s.proc p).live → t.proc p = s.proc p)
    (hdead : ∀ p, (t.proc p).live → (s.proc p).live)
    (hspace : ∀ p, (s.proc p).live → t.space (s.proc p).pgdir = s.space (s.proc p).pgdir) :
    Fits q t := by
  obtain ⟨ht, hn⟩ := Prod.ext_iff.1 htune
  exact {
    frames := hq.frames.trans hfree.symm
    slots := by
      rw [hq.slots]
      unfold freeSlots
      rw [hslots]
    threshold := hq.threshold.trans ht.symm
    batch := hq.batch.trans hn.symm
    pid := fun p hp => by rw [hproc p (hdead p hp)]; exact hq.pid p (hdead p hp)
    rss := fun p hp => by rw [hproc p (hdead p hp)]; exact hq.rss p (hdead p hp)
    dead := fun p hp => hq.dead p fun hl => hp (by rw [hproc p hl]; exact hl)
    place := fun p hp v hv => by
      have hl := hdead p hp
      rw [hq.place p hl v hv, Machine.place_congr]
      · rw [hproc p hl]
      · simp only [Machine.pte, hproc p hl, hspace p hl]
      · rw [hslots]
        exact fun _ _ => rfl }

/-! ## The victim -/

theorem Fits.victim (hI : Inv h s) (hq : Fits q s) : q.victim = findVictimProc s := by
  rw [findVictimProc_eq]
  unfold Pressure.victim
  have hlive : ∀ i, Candidate s i → (s.proc i).live := fun i hi =>
    ⟨hi.1, fun he => hi.2.2 (hI.embryo i he)⟩
  have hok : ∀ i, q.Candidate i ↔ Candidate s i := by
    intro i
    by_cases hl : (s.proc i).live
    · unfold Pressure.Candidate Candidate
      rw [hq.pid i hl, hq.rss i hl]
      exact ⟨fun hi => ⟨hl.1, hi⟩, fun hi => hi.2⟩
    · exact iff_of_false (fun hi => hi.2 (hq.dead i hl)) fun hi => hl (hlive i hi)
  refine scan_congr hok (fun i hi => ?_) fun j hj => absurd hj.symm (Option.some_ne_none j)
  have hl := hlive i ((hok i).1 hi)
  unfold Pressure.key victimKey
  rw [hq.pid i hl, hq.rss i hl]

/-- The scans look at the user half. -/
theorem find_pages_congr {f g : Nat → Bool} (h : ∀ v < UPAGES, f v = g v) :
    (List.range' 0 UPAGES).find? f = (List.range' 0 UPAGES).find? g := by
  cases hg : (List.range' 0 UPAGES).find? g with
  | none => exact find_none.2 fun v hv => (h v hv).trans (find_none.1 hg v hv)
  | some v =>
    obtain ⟨hv, hp, hlow⟩ := find_lowest.1 hg
    exact find_lowest.2 ⟨hv, (h v hv).trans hp, fun w hw => (h w (hw.trans hv)).trans (hlow w hw)⟩

/-- The place of a user page in memory. -/
theorem Machine.place_of_resident (hv : Resident s (s.proc p).pgdir v) :
    s.place p v = .memory (s.pte (s.proc p).pgdir v).accessed := by
  unfold Machine.place
  dsimp only
  rw [if_pos hv.2.1, if_pos hv.2.2]

theorem Machine.place_user (hv : v < UPAGES) :
    (s.place p v).user = true ↔ Resident s (s.proc p).pgdir v := by
  refine ⟨fun hu => ?_, fun hr => by rw [Machine.place_of_resident hr]; rfl⟩
  unfold Machine.place at hu
  dsimp only at hu
  split at hu
  · next hp =>
    split at hu
    · next huser => exact ⟨hv, hp, huser⟩
    · cases hu
  · split at hu
    · cases hu
    · cases hu

/-- A page that is no user page in memory is not touched by clearing. -/
theorem Machine.place_clearA (hv : v < UPAGES) (hr : ¬Resident s (s.proc p).pgdir v) :
    (s.place p v).clearA = s.place p v ∧ (s.place p v).unaccessed = false := by
  have hu : (s.place p v).user ≠ true := fun hx => hr ((Machine.place_user hv).1 hx)
  cases hpl : s.place p v with
  | memory a =>
    rw [hpl] at hu
    exact absurd rfl hu
  | _ => exact ⟨rfl, rfl⟩

section Scans

variable {sp : Space} (hI : Inv h s) (hq : Fits q s) (hp : (s.proc p).live)
  (hsp : s.space (s.proc p).pgdir = some sp)

include hI hq hp hsp

theorem Fits.user (hv : v < UPAGES) : (q.place p v).user = sp.userPage v := by
  rw [hq.place p hp v hv, Bool.eq_iff_iff, Machine.place_user hv, resident_iff hI.toFrames hsp]
  exact ⟨fun hr => hr.2, fun hr => ⟨hv, hr⟩⟩

theorem Fits.unaccessed (hv : v < UPAGES) : (q.place p v).unaccessed = sp.unaccessed v := by
  have huser := hq.user hI hp hsp hv
  rw [hq.place p hp v hv] at huser ⊢
  unfold Space.unaccessed
  rw [← huser]
  by_cases hr : Resident s (s.proc p).pgdir v
  · rw [Machine.place_of_resident hr, Machine.pte_of_space hsp]
    rfl
  · have hu : (s.place p v).user = false :=
      Bool.eq_false_of_not_eq_true fun hx => hr ((Machine.place_user hv).1 hx)
    rw [(Machine.place_clearA hv hr).2, hu]
    rfl

theorem Fits.scans : q.unaccessed p = (List.range' 0 UPAGES).find? sp.unaccessed ∧
    q.lowest p = (List.range' 0 UPAGES).find? sp.userPage :=
  ⟨find_pages_congr fun _ hv => hq.unaccessed hI hp hsp hv,
    find_pages_congr fun _ hv => hq.user hI hp hsp hv⟩

end Scans

/-! ## What is left of the bytes -/

/-- What `kfree` leaves in a frame, from the fifth byte on, or `kalloc`. -/
def Filling (pg : Page) : Prop := (∀ o, 4 ≤ o.val → pg o = 1) ∨ pg = memset 5

theorem freePage_filling (next : Option Nat) : Filling (freePage next) :=
  Or.inl fun _ ho => if_neg (Nat.not_lt.2 ho)

/-- A frame keeps its bytes or is filled; the frame of a page that goes is filled. -/
structure Scrubs (s t : Machine) : Prop where
  mem : ∀ f, t.mem f = s.mem f ∨ Filling (t.mem f)
  page : ∀ d v, v < UPAGES → (s.pte d v).present = true → (t.pte d v).present = false →
    Filling (t.mem (s.pte d v).ppn)

/-- Nothing goes. -/
theorem Scrubs.of_mem (hmem : ∀ f, t.mem f = s.mem f ∨ Filling (t.mem f))
    (hpte : ∀ d v, (t.pte d v).present = (s.pte d v).present) : Scrubs s t where
  mem := hmem
  page d v _ hs ht := by
    rw [hpte, hs] at ht
    cases ht

theorem Scrubs.refl (s : Machine) : Scrubs s s := .of_mem (fun _ => Or.inl rfl) fun _ _ => rfl

theorem Scrubs.trans (hst : Scrubs s t) (hP : Paged h s t) (htu : Scrubs t u) : Scrubs s u where
  mem f := by
    rcases htu.mem f with hf | hf
    · rw [hf]
      exact hst.mem f
    · exact Or.inr hf
  page d v hv hs hu := by
    cases ht : (t.pte d v).present with
    | true =>
      -- it goes in the second half, from the same frame
      cases hP.page d v hv with
      | out hn => rw [hs] at hn; cases hn
      | stay _ _ hf => rw [← hf]; exact htu.page d v hv ht hu
      | move _ _ hsw => rw [(Pte.swapped_iff.1 hsw).1] at ht; cases ht
    | false =>
      have hgone := hst.page d v hv hs ht
      rcases htu.mem (s.pte d v).ppn with hf | hf
      · rw [hf]
        exact hgone
      · exact hf

/-! ## Paging out -/

/-- The outcome of a routine that evicts: the pressure is `q` afterwards. -/
structure Presses (h : Set Nat) (s : Machine) (q : Pressure) (t : Machine) : Prop where
  fits : Fits q t
  evicts : Evicts h s t
  scrubs : Scrubs s t

theorem Presses.refl (hI : Inv h s) (hq : Fits q s) : Presses h s q s := ⟨hq, .refl hI, .refl s⟩

theorem Presses.trans {q' : Pressure} (hst : Presses h s q t) (htu : Presses h t q' u) :
    Presses h s q' u :=
  ⟨htu.fits, hst.evicts.trans htu.evicts, hst.scrubs.trans hst.evicts.2 htu.scrubs⟩

theorem Pte.clearA_accessed (e : Pte) : e.clearA.accessed = false := by
  simp [Pte.clearA, Pte.accessed, PTE_A]

/-- The accessed bits of process `p` are cleared. -/
theorem Cleared.fits {sp sp' : Space} (hI : Inv h s) (hq : Fits q s) (hp : (s.proc p).live)
    (hsp : s.space (s.proc p).pgdir = some sp) (hc : Cleared s t (s.proc p).pgdir sp sp') :
    Fits { q with place := Function.update q.place p fun v => (q.place p v).clearA } t := by
  have ht := hc.touched hsp
  have hrest := ht.rest
  simp only [Machine.rest, Prod.mk.injEq] at hrest
  obtain ⟨⟨-, hlist, -, hslots, -⟩, hproc, -, hthr, hbat, -⟩ := hrest
  have hself : ∀ v, t.pte (s.proc p).pgdir v = sp'.pte v :=
    Machine.pte_of_space (by rw [hc.space, Function.update_self])
  exact {
    frames := by rw [hlist]; exact hq.frames
    slots := by
      unfold freeSlots
      rw [hslots]
      exact hq.slots
    threshold := hq.threshold.trans hthr.symm
    batch := hq.batch.trans hbat.symm
    pid := fun i hi => by rw [hproc] at hi ⊢; exact hq.pid i hi
    rss := fun i hi => by rw [hproc] at hi ⊢; exact hq.rss i hi
    dead := fun i hi => by rw [hproc] at hi; exact hq.dead i hi
    place := fun i hi v hv => by
      rw [hproc] at hi
      dsimp only
      have hsame : ∀ e, t.pte (t.proc i).pgdir v = e → e = s.pte (s.proc i).pgdir v →
          t.place i v = s.place i v := fun e he hes =>
        Machine.place_congr (by rw [hproc]) (he.trans hes) fun _ _ => by rw [hslots]
      by_cases hip : i = p
      · subst hip
        rw [Function.update_self, hq.place i hi v hv]
        by_cases hr : Resident s (s.proc i).pgdir v
        · -- a user page in memory
          have hrt : Resident t (t.proc i).pgdir v := by rw [hproc]; exact (ht.resident v).2 hr
          obtain ⟨-, hu⟩ := (resident_iff hI.toFrames hsp).1 hr
          rw [Machine.place_of_resident hr, Machine.place_of_resident hrt, hproc, hself,
            hc.page v hv hu, Pte.clearA_accessed]
          rfl
        · rw [(Machine.place_clearA hv hr).1]
          exact (hsame _ rfl (by rw [hproc]; exact ht.entry v hr)).symm
      · rw [Function.update_of_ne hip, hq.place i hi v hv]
        have hne : (s.proc i).pgdir ≠ (s.proc p).pgdir := fun he => hip (hI.dir_inj i p hi hp he)
        refine (hsame _ rfl ?_).symm
        simp only [Machine.pte, hproc, ht.space _ hne] }

/-- **The search for a page.** -/
theorem findVictimPage_presses (hI : Inv h s) (hq : Fits q s) (hp : (s.proc p).live) :
    K.Returns (findVictimPage (s.proc p).pgdir) s fun r t =>
      Presses h s (q.search p) t ∧ t.proc = s.proc ∧
        match q.victimPage p with
        | none => pageFrame r = 0
        | some v => r = some (v, (t.pte (s.proc p).pgdir v).ppn) ∧
            Resident t (s.proc p).pgdir v ∧ (t.pte (s.proc p).pgdir v).accessed = false := by
  have hdir := hI.dir p hp
  obtain ⟨sp, hsp⟩ := Option.isSome_iff_exists.1 hdir
  have hres : ∀ v, Resident s (s.proc p).pgdir v ↔ v < UPAGES ∧ sp.userPage v = true := fun v =>
    resident_iff hI.toFrames hsp
  have hpte : ∀ v, s.pte (s.proc p).pgdir v = sp.pte v := Machine.pte_of_space hsp
  have hnull : ∀ v < UPAGES, sp.userPage v = true → (sp.pte v).ppn ≠ 0 := fun v hv hu => by
    rw [← hpte]
    exact hI.ppn_ne_zero ((hres v).2 ⟨hv, hu⟩)
  obtain ⟨hscan, hscan'⟩ := hq.scans hI hp hsp
  refine ((findVictimPage_exact hsp hnull).and (findVictimPage_spec hI hdir).spec).mono
    fun r t hpost => ?_
  obtain ⟨hV, hst, -⟩ := hpost
  unfold Pressure.search Pressure.victimPage
  rw [hscan, hscan']
  cases h1 : (List.range' 0 UPAGES).find? sp.unaccessed with
  | some v =>
    have hlow := find_lowest.1 h1
    obtain ⟨hr, rfl⟩ := hV.unaccessed v hlow
    have hun := hlow.2.1
    unfold Space.unaccessed at hun
    obtain ⟨hu, ha⟩ := Bool.and_eq_true_iff.1 hun
    refine ⟨.refl hI hq, rfl, ?_, (hres v).2 ⟨hlow.1, hu⟩, ?_⟩
    · rw [hpte]
      exact hr
    · rw [hpte]
      simpa using ha
  | none =>
    obtain ⟨⟨sp', hc⟩, hlow⟩ := hV.accessed (find_none.1 h1)
    have ht := hc.touched hsp
    have hrest := ht.rest
    simp only [Machine.rest, Prod.mk.injEq] at hrest
    have hpr : Presses h s _ t := ⟨hc.fits hI hq hp hsp, hst,
      .of_mem (fun f => Or.inl (by rw [hrest.1.2.2.1])) fun d v => by
        by_cases hd : d = (s.proc p).pgdir
        · subst hd
          exact Pte.present_of_clearA (ht.bits v)
        · simp only [Machine.pte, ht.space d hd]⟩
    refine ⟨hpr, hrest.2.1, ?_⟩
    cases h2 : (List.range' 0 UPAGES).find? sp.userPage with
    | none => exact hV.zero.2 (find_none.1 h2)
    | some v =>
      have hv := find_lowest.1 h2
      have hself : t.pte (s.proc p).pgdir v = (sp.pte v).clearA := by
        rw [Machine.pte_of_space (by rw [hc.space, Function.update_self])]
        exact hc.page v hv.1 hv.2.1
      refine ⟨?_, (ht.resident v).2 ((hres v).2 ⟨hv.1, hv.2.1⟩), ?_⟩
      · rw [hself, Pte.clearA_ppn]
        exact hlow v hv
      · rw [hself, Pte.clearA_accessed]

/-- The process loses nothing but the count of the page. -/
theorem Gone.proc_same {k : Nat} (hg : Gone p d v k s t) (i : Nat) :
    ((t.proc i).live ↔ (s.proc i).live) ∧ (t.proc i).state = (s.proc i).state ∧
      (t.proc i).pgdir = (s.proc i).pgdir ∧ (t.proc i).pid = (s.proc i).pid := by
  rw [hg.proc]
  split
  · next hip =>
    subst hip
    exact ⟨Iff.rfl, rfl, rfl, rfl⟩
  · exact ⟨Iff.rfl, rfl, rfl, rfl⟩

/-- The bytes of the page are gone. -/
theorem Gone.scrubs {k : Nat} (hd : (s.space d).isSome = true) (hg : Gone p d v k s t) :
    Scrubs s t where
  mem g := by
    rw [hg.mem]
    split
    · exact Or.inr (freePage_filling _)
    · exact Or.inl rfl
  page d' v' _ hs ht := by
    by_cases hx : d' = d ∧ v' = v
    · obtain ⟨rfl, rfl⟩ := hx
      rw [hg.mem, if_pos rfl]
      exact freePage_filling _
    · rw [hg.pte hd, if_neg hx, hs] at ht
      cases ht

/-- One slot less is free. -/
theorem Gone.freeSlots {k : Nat} (hg : Gone p d v k s t) :
    freeSlots t = (freeSlots s).erase k := by
  ext j
  rw [mem_freeSlots, Finset.mem_erase, mem_freeSlots, hg.slots]
  by_cases hj : j = k
  · simp [hj]
  · simp [hj]

section Leave

variable {k : Nat} (hI : Inv h s) (hq : Fits q s) (hp : (s.proc p).live)
  (hv : Resident s (s.proc p).pgdir v) (ha : (s.pte (s.proc p).pgdir v).accessed = false)
  (hk : k < SWAP_SLOT_TOTAL) (hfree : (s.slots k).is_free = true)
  (hg : Gone p (s.proc p).pgdir v k s t)

include hI hq hp hv ha hfree hg in
/-- The page is in its slot, without the accessed bit, and the other pages stay. -/
theorem Gone.place {i v' : Nat} (hl : (s.proc i).live) (hv' : v' < UPAGES) :
    (q.leave p v).place i v' = t.place i v' := by
  obtain ⟨-, hstate, hpg, -⟩ := hg.proc_same i
  have hpte := hg.pte (hI.dir p hp)
  by_cases hx : (s.proc i).pgdir = (s.proc p).pgdir ∧ v' = v
  · obtain ⟨hid, rfl⟩ := hx
    obtain rfl := hI.dir_inj i p hl hp hid
    have he : t.pte (t.proc i).pgdir v' = (s.pte (s.proc i).pgdir v').toSlot k := by
      rw [hpg, hpte, if_pos ⟨rfl, rfl⟩]
    have hbit : (t.slots k).page_perm.getLsbD 5 = false := by
      rw [hg.slots, Function.update_self]
      exact ha
    unfold Machine.place
    dsimp only
    rw [he, Pte.toSlot_present, if_neg Bool.false_ne_true,
      if_pos (Pte.toSlot_swapped k hv.2.2), Pte.toSlot_ppn, hbit, Bool.and_false]
    simp only [Pressure.leave, Function.update_self]
  · have he : t.pte (t.proc i).pgdir v' = s.pte (s.proc i).pgdir v' := by
      rw [hpg, hpte, if_neg hx]
    have hplace : (q.leave p v).place i v' = q.place i v' := by
      unfold Pressure.leave
      dsimp only
      by_cases hip : i = p
      · subst hip
        rw [Function.update_self, Function.update_of_ne fun hn => hx ⟨rfl, hn⟩]
      · rw [Function.update_of_ne hip]
    rw [hplace, hq.place i hl v' hv']
    refine (Machine.place_congr hstate he fun hs hz => ?_).symm
    -- the slot of another page was in use, and slot `k` was free
    have huse : SlotUses s ((s.proc i).pgdir, v') (s.pte (s.proc i).pgdir v').ppn :=
      ⟨hI.alive_dir ⟨hl, hz⟩, hv', hs, rfl⟩
    have hne : (s.pte (s.proc i).pgdir v').ppn ≠ k := fun hk => hI.slot_own.busy huse (hk ▸ hfree)
    rw [hg.slots, Function.update_of_ne hne]

include hI hq hp hv ha hk hfree hg in
theorem Gone.fits : Fits (q.leave p v) t := by
  obtain ⟨hthr, hbat⟩ := Prod.ext_iff.1 hg.tuning
  exact {
    frames := by
      rw [hg.freelist, List.length_cons, ← hq.frames]
      rfl
    slots := by
      rw [hg.freeSlots, Finset.card_erase_of_mem (mem_freeSlots.2 ⟨hk, hfree⟩), ← hq.slots]
      rfl
    threshold := hq.threshold.trans hthr.symm
    batch := hq.batch.trans hbat.symm
    pid := fun i hi => by
      obtain ⟨hlive, -, -, hpid⟩ := hg.proc_same i
      rw [hpid]
      exact hq.pid i (hlive.1 hi)
    rss := fun i hi => by
      have hrss := hq.rss i ((hg.proc_same i).1.1 hi)
      rw [hg.proc]
      split
      · next hip =>
        subst hip
        exact (Function.update_self ..).trans (by rw [hrss])
      · next hip => exact (Function.update_of_ne hip ..).trans hrss
    dead := fun i hi => by
      have hl : ¬(s.proc i).live := fun hx => hi ((hg.proc_same i).1.2 hx)
      have hip : i ≠ p := fun he => hl (he ▸ hp)
      exact (Function.update_of_ne hip ..).trans (hq.dead i hl)
    place := fun i hi v' hv' =>
      hg.place hI hq hp hv ha hfree ((hg.proc_same i).1.1 hi) hv' }

end Leave

/-- **A page goes**, on account of process `p`. -/
theorem Presses.out {k : Nat} (hI : Inv h s) (hq : Fits q s) (hp : (s.proc p).live)
    (hv : Resident s (s.proc p).pgdir v) (ha : (s.pte (s.proc p).pgdir v).accessed = false)
    (hm : MovedOut (s.proc p).pgdir v (s.pte (s.proc p).pgdir v).ppn k s t) :
    (Xv6.Swap.kfree (s.pte (s.proc p).pgdir v).ppn).run
        (t.setProc p fun x => { x with rss := x.rss - 1 }) = .ok ((),
      (t.setProc p fun x => { x with rss := x.rss - 1 }).kfreed (s.pte (s.proc p).pgdir v).ppn) ∧
    Presses h s (q.leave p v) ((t.setProc p fun x => { x with rss := x.rss - 1 }).kfreed
      (s.pte (s.proc p).pgdir v).ppn) := by
  have hdir := hI.dir p hp
  obtain ⟨hrun, hsw⟩ := hm.kfree hI hdir hv rfl hp
  have hg : Gone p (s.proc p).pgdir v k s _ := hm.gone rfl
  exact ⟨hrun, hg.fits hI hq hp hv ha hm.slot_lt hm.slot_free, hsw, hg.scrubs hdir⟩

theorem mem_slots_zero (hq : Fits q s) : q.slots = 0 ↔ Full s := by
  rw [hq.slots, Finset.card_eq_zero, Finset.eq_empty_iff_forall_notMem]
  unfold Full
  simp only [mem_freeSlots, not_and, Bool.not_eq_true]

/-- **The loop of `swapOutPages`.** -/
theorem swapLoop_presses (n attempts swapped : Nat) (hI : Inv h s) (hq : Fits q s)
    (hp : (s.proc p).live) :
    K.Returns (swapLoop p n attempts swapped) s fun _ t =>
      Presses h s (Pressure.outLoop p n attempts swapped q) t := by
  induction attempts generalizing s q swapped with
  | zero => exact Code.returns_pure.2 (.refl hI hq)
  | succ attempts ih =>
    unfold swapLoop Pressure.outLoop
    by_cases hlt : swapped < n
    case neg =>
      rw [if_neg hlt, if_neg hlt]
      exact Code.returns_pure.2 (.refl hI hq)
    rw [if_pos hlt, if_pos hlt]
    simp only [Code.returns_get_bind]
    refine (findVictimPage_presses hI hq hp).bind fun r t hpost => ?_
    obtain ⟨hst, hproc, hr⟩ := hpost
    have hpt : (t.proc p).live := by rw [hproc]; exact hp
    cases hv : q.victimPage p with
    | none =>
      rw [hv] at hr
      dsimp only at hr ⊢
      cases r with
      | none => exact Code.returns_pure.2 hst
      | some vp =>
        obtain ⟨v, pa⟩ := vp
        obtain rfl : pa = 0 := hr
        exact Code.returns_pure.2 hst
    | some v =>
      rw [hv] at hr
      dsimp only at hr ⊢
      obtain ⟨rfl, hrv, ha⟩ := hr
      dsimp only
      rw [if_neg (hst.evicts.1.ppn_ne_zero hrv)]
      have hpg : (t.proc p).pgdir = (s.proc p).pgdir := by rw [hproc]
      rw [← hpg] at hrv ha ⊢
      obtain ⟨sp, hsp⟩ := Option.isSome_iff_exists.1 (hst.evicts.1.dir p hpt)
      refine (swapAndPageOut_moves hsp _ (hst.evicts.1.walk_present hsp hrv.2.1) hrv.2.1).bind
        fun b u hpost => ?_
      rcases hpost with ⟨rfl, rfl, hfull⟩ | ⟨rfl, k, hm⟩
      · -- no slot is free
        rw [if_neg Bool.false_ne_true, if_pos ((mem_slots_zero hst.fits).2 hfull)]
        exact (ih swapped hst.evicts.1 hst.fits hpt).mono fun _ _ hu => hst.trans hu
      · have hslots : (q.search p).slots ≠ 0 := fun h0 => by
          have hfull := (mem_slots_zero hst.fits).1 h0 k hm.slot_lt
          rw [hm.slot_free] at hfull
          cases hfull
        rw [if_pos rfl, if_neg hslots, Code.returns_modify_bind]
        obtain ⟨hrun, hpr⟩ := Presses.out hst.evicts.1 hst.fits hpt hrv ha hm
        have hsw := hst.trans hpr
        refine Code.Returns.bind_run hrun ?_
        exact (ih (swapped + 1) hpr.evicts.1 hpr.fits ((hsw.evicts.2.live p).2 hp)).mono
          fun _ _ hu => hsw.trans hu

/-! ## Allocation -/

theorem Fits.adapt (hq : Fits q s) : Fits q.adapt (adapt s) where
  frames := hq.frames
  slots := hq.slots
  threshold := by
    unfold Pressure.adapt Xv6.Swap.adapt
    rw [hq.threshold]
  batch := by
    unfold Pressure.adapt Xv6.Swap.adapt
    rw [hq.batch]
  pid := hq.pid
  rss := hq.rss
  dead := hq.dead
  place := hq.place

theorem swapOutPages_presses (hI : Inv h s) (hq : Fits q s) :
    K.Returns swapOutPages s fun _ t => Presses h s q.swapOut t := by
  unfold swapOutPages Pressure.swapOut
  rw [hq.victim hI]
  simp only [Code.returns_get_bind]
  cases hv : findVictimProc s with
  | none => exact Code.returns_pure.2 (.refl hI hq)
  | some p =>
    dsimp only
    rw [hq.batch]
    exact swapLoop_presses _ _ _ hI hq (findVictimProc_live hI hv)

/-- **One round.** -/
theorem checkAndSwap_presses (hI : Inv h s) (hq : Fits q s) :
    K.Returns checkAndSwap s fun _ t => Presses h s q.round t := by
  unfold checkAndSwap Pressure.round
  refine Code.Returns.bind_run (a := s.freelist.length) (t := s) rfl ?_
  rw [Code.returns_get_bind, hq.frames, hq.threshold]
  by_cases hlt : s.freelist.length > s.threshold
  · rw [if_pos hlt, if_pos hlt]
    exact Code.returns_pure.2 (.refl hI hq)
  · rw [if_neg hlt, if_neg hlt]
    refine (swapOutPages_presses hI hq).bind fun _ t hst => (Code.returns_modify _).2 ?_
    exact hst.trans ⟨hst.fits.adapt,
      ⟨hst.evicts.1.congr rfl, .of_core rfl rfl rfl rfl rfl fun _ _ => ⟨rfl, rfl⟩⟩,
      .of_mem (fun _ => Or.inl rfl) fun _ _ => rfl⟩

/-- The outcome of an allocation: the pressure is `q` afterwards. -/
structure Takes (h : Set Nat) (s : Machine) (q : Pressure) (r : Option Nat) (t : Machine) :
    Prop where
  fits : Fits q t
  allocs : Allocs h s r t
  scrubs : Scrubs s t

theorem Takes.after {r : Option Nat} {q' : Pressure} (hst : Presses h s q t)
    (htu : Takes h t q' r u) : Takes h s q' r u :=
  ⟨htu.fits, htu.allocs.after hst.evicts, hst.scrubs.trans hst.evicts.2 htu.scrubs⟩

/-- A failed allocation has only evicted. -/
theorem Takes.presses (hst : Takes h s q none t) : Presses h s q t :=
  ⟨hst.fits, hst.allocs, hst.scrubs⟩

theorem popFrame_takes (hI : Inv h s) (hq : Fits q s) :
    K.Returns popFrame s fun r t => Takes h s { q with frames := q.frames - 1 } r t ∧
      (r = none ↔ q.frames = 0) := by
  cases hl : s.freelist with
  | nil =>
    have h0 : q.frames = 0 := by rw [hq.frames, hl]; rfl
    refine ⟨none, s, popFrame_nil hl, ⟨?_, .refl hI, .refl s⟩, iff_of_true rfl h0⟩
    exact { hq with frames := by dsimp only; rw [h0, hl]; rfl }
  | cons f rest =>
    obtain ⟨r, t, hrun, ha⟩ := popFrame_spec hI
    cases (popFrame_cons hl).symm.trans hrun
    have h1 : q.frames = rest.length + 1 := by rw [hq.frames, hl]; rfl
    refine ⟨_, _, hrun, ⟨?_, ha, .of_mem (fun g => ?_) fun _ _ => rfl⟩,
      iff_of_false (Option.some_ne_none f) (by omega)⟩
    · exact { hq with frames := by dsimp only; rw [h1]; rfl }
    · by_cases hg : g = f
      · subst hg
        exact Or.inr (Or.inr (Function.update_self ..))
      · exact Or.inl (Function.update_of_ne hg ..)

/-- **`kalloc`** takes what it is foreseen to take. -/
theorem kalloc_takes (hI : Inv h s) (hq : Fits q s) :
    K.Returns kalloc s fun r t => Takes h s q.take r t ∧ (r = none ↔ q.refill.frames = 0) := by
  have hnil : ∀ {q' : Pressure} {t : Machine}, Fits q' t → (t.freelist = [] ↔ q'.frames = 0) :=
    fun hq' => by rw [hq'.frames, List.length_eq_zero_iff]
  unfold kalloc Pressure.take Pressure.refill
  rw [K.Returns, Code.returns_get_bind]
  by_cases hl : s.freelist = []
  · rw [if_pos hl, if_pos ((hnil hq).1 hl)]
    refine (checkAndSwap_presses hI hq).bind fun _ t hst => ?_
    have hif : K.Returns swapIfEmpty t fun _ u =>
        Presses h s (if q.round.frames = 0 then q.round.round else q.round) u := by
      unfold swapIfEmpty
      rw [K.Returns, Code.returns_get_bind]
      by_cases htl : t.freelist = []
      · rw [if_pos htl, if_pos ((hnil hst.fits).1 htl)]
        exact (checkAndSwap_presses hst.evicts.1 hst.fits).mono fun _ _ htu => hst.trans htu
      · rw [if_neg htl, if_neg fun h0 => htl ((hnil hst.fits).2 h0)]
        exact Code.returns_pure.2 hst
    refine hif.bind fun _ u hsu => ?_
    exact (popFrame_takes hsu.evicts.1 hsu.fits).mono fun r w hw => ⟨hw.1.after hsu, hw.2⟩
  · rw [if_neg hl, if_neg fun h0 => hl ((hnil hq).2 h0)]
    exact popFrame_takes hI hq

theorem kallocRetry_takes (n : Nat) (hI : Inv h s) (hq : Fits q s) :
    K.Returns (kallocRetry n) s (Takes h s (q.takeRetry n)) := by
  induction n generalizing s q with
  | zero => exact (kalloc_takes hI hq).mono fun _ _ ht => ht.1
  | succ n ih =>
    unfold kallocRetry Pressure.takeRetry
    refine (kalloc_takes hI hq).bind fun r t ht => ?_
    obtain ⟨hst, hr⟩ := ht
    cases r with
    | some f =>
      rw [if_neg fun h0 => Option.some_ne_none f (hr.2 h0)]
      exact Code.returns_pure.2 hst
    | none =>
      rw [if_pos (hr.1 rfl)]
      have hst' := hst.presses
      refine (checkAndSwap_presses hst'.evicts.1 hst'.fits).bind fun _ u htu => ?_
      have hsu := hst'.trans htu
      exact (ih hsu.evicts.1 hsu.fits).mono fun _ _ hw => hw.after hsu

/-- `findFreeSlot` with `n` retries takes a slot, if the rounds leave one. -/
theorem findFreeSlotRetry_presses (n : Nat) (hI : Inv h s) (hq : Fits q s) :
    K.Returns (findFreeSlotRetry n) s fun r t => ∃ u, Presses h s (q.slotRounds n) u ∧
      match r with
      | none => t = u ∧ (q.slotRounds n).slots = 0
      | some k => k < SWAP_SLOT_TOTAL ∧ (u.slots k).is_free = true ∧ t = u.takeSlot k := by
  induction n generalizing s q with
  | zero =>
    refine (findFreeSlot_exact s).mono fun r t hr => ⟨s, .refl hI hq, ?_⟩
    cases r with
    | none => exact ⟨hr.1, (mem_slots_zero hq).2 hr.2⟩
    | some k => exact hr
  | succ n ih =>
    unfold findFreeSlotRetry Pressure.slotRounds
    refine (findFreeSlot_exact s).bind fun r t hr => ?_
    cases r with
    | some k =>
      obtain ⟨hk, hfree, rfl⟩ := hr
      rw [if_neg fun h0 => by
        have hfull := (mem_slots_zero hq).1 h0 k hk
        rw [hfree] at hfull
        cases hfull]
      exact Code.returns_pure.2 ⟨s, .refl hI hq, hk, hfree, rfl⟩
    | none =>
      obtain ⟨rfl, hfull⟩ := hr
      rw [if_pos ((mem_slots_zero hq).2 hfull)]
      refine (checkAndSwap_presses hI hq).bind fun _ u hsu => ?_
      refine (ih hsu.evicts.1 hsu.fits).mono fun r w hw => ?_
      obtain ⟨x, hx, hr⟩ := hw
      exact ⟨x, hsu.trans hx, hr⟩

end Xv6.Swap
