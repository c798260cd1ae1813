/-
The segments of a program (`exec.c`, `loaduvm`).

From the bytes of a file follows which image it describes (`File.image`). While `exec` loads
it, nothing changes but frames (`Quiet`), no panic is reached, and what comes out is the size
that the program headers give.
-/
import Xv6.Shell.Exec

set_option autoImplicit false

namespace Xv6.Shell.Exec

open Xv6.Lib
open Xv6.Lib.Code (Returns Ends)

/-! ## The image of a file -/

/-- The bytes of a read that is not short. -/
def File.readAll (f : File) (k : Nat) (off n : Word) : Option (List Byte) :=
  (f.read k off n).filter fun bs => bs.length = n.toNat

/-- Whether the file has the bytes of a segment, with `n` pages from `i` on to come. -/
def File.loads (f : File) (offset sz : Word) : Nat → Nat → Word → Bool
  | 0, _, _ => true
  | n + 1, k, i =>
    let m := if sz - i < 4096 then sz - i else 4096
    (f.readAll k (offset + i) m).isSome && f.loads offset sz n (k + 1) (i + 4096)

/-- The size of an image after a segment up to `newsz`. -/
def grown (sz newsz : Word) : Word := if newsz < sz then sz else newsz

/-- The size of the image that `n` program headers describe, when they are valid. -/
def File.segments (f : File) : Nat → Nat → Word → Word → Option Word
  | 0, _, _, sz => some sz
  | n + 1, k, off, sz =>
    match f.readAll k off PHSIZE with
    | none => none
    | some bs =>
      let ph := proghdr bs
      if ph.type ≠ ELF_PROG_LOAD then f.segments n (k + 1) (off + PHSIZE) sz
      else if ph.memsz < ph.filesz ∨ ph.vaddr + ph.memsz < ph.vaddr ∨
          0x80000000 ≤ ph.vaddr + ph.memsz ∨ grown sz (ph.vaddr + ph.memsz) = 0 ∨
          ph.vaddr.toNat % 4096 ≠ 0 then none
      else if f.loads ph.off ph.filesz (pagesUp ph.filesz) (k + 1) 0 then
        f.segments n (k + 1 + pagesUp ph.filesz) (off + PHSIZE) (grown sz (ph.vaddr + ph.memsz))
      else none

/-- The end of the stack of a file that can be executed. -/
def File.image (f : File) (k : Nat) : Option Word :=
  if f.mode &&& 4 = 0 then none
  else
    match f.readAll k 0 ELFSIZE with
    | none => none
    | some bs =>
      if (elfhdr bs).magic ≠ ELF_MAGIC then none
      else
        (f.segments (elfhdr bs).phnum.toNat (k + 1) (elfhdr bs).phoff 0).bind fun sz =>
          if pgroundup sz + 0x2000 < 0x80000000 then some (pgroundup sz + 0x2000) else none

/-! ## Numbers -/

theorem toNat_and_not_low (x : Word) (k : Nat) :
    (x &&& ~~~BitVec.ofNat 32 (2 ^ k - 1)).toNat = x.toNat / 2 ^ k * 2 ^ k := by
  have hshift : x &&& ~~~BitVec.ofNat 32 (2 ^ k - 1) = (x >>> k) <<< k := by
    refine BitVec.eq_of_getLsbD_eq fun i hi => ?_
    simp only [BitVec.getLsbD_and, BitVec.getLsbD_not, BitVec.getLsbD_shiftLeft,
      BitVec.getLsbD_ushiftRight, BitVec.getLsbD_ofNat, Nat.testBit_two_pow_sub_one]
    by_cases hik : i < k
    · simp [hik, hi]
    · simp [hik, hi, Nat.add_sub_cancel' (Nat.not_lt.1 hik)]
  rw [hshift, BitVec.toNat_shiftLeft, BitVec.toNat_ushiftRight, Nat.shiftRight_eq_div_pow,
    Nat.shiftLeft_eq, Nat.mod_eq_of_lt ((Nat.div_mul_le_self _ _).trans_lt x.isLt)]

theorem pgroundup_toNat {sz : Word} (hsz : sz.toNat ≤ 0x80000000) :
    (pgroundup sz).toNat = pagesUp sz * 4096 := by
  unfold pgroundup pagesUp
  rw [show (4095#32) = BitVec.ofNat 32 (2 ^ 12 - 1) from rfl, toNat_and_not_low, BitVec.toNat_add,
    show BitVec.toNat (4095 : Word) = 4095 from rfl]
  omega

theorem place_toNat (sp : Word) (len : Nat) : (place sp len).toNat =
    (2 ^ 32 - (len + 1) % 2 ^ 32 + sp.toNat) % 2 ^ 32 / 4 * 4 := by
  unfold place
  rw [show (3#32) = BitVec.ofNat 32 (2 ^ 2 - 1) from rfl, toNat_and_not_low, BitVec.toNat_sub,
    BitVec.toNat_ofNat]
  rfl

theorem place_low {sp : Word} {len : Nat} (hlen : len + 1 ≤ sp.toNat) :
    (place sp len).toNat = (sp.toNat - (len + 1)) / 4 * 4 := by
  have hlt := sp.isLt
  rw [place_toNat]
  omega

/-- A string that does not fit below `sp` is placed in the upper half of the address space. -/
theorem place_high {sp : Word} {len : Nat} (hlen : sp.toNat < len + 1) (hlt : len < 0x80000000) :
    0x80000000 ≤ (place sp len).toNat := by
  have hsp := sp.isLt
  rw [place_toNat]
  omega

/-! ## The state while `exec` runs -/

/-- What `exec` does not touch before it commits, apart from frames and reads. -/
structure Quiet (k t : Kernel) : Prop where
  proc : t.proc = k.proc
  inode : t.inode = k.inode
  ops : t.ops = k.ops

theorem Quiet.trans {k t u : Kernel} (h : Quiet k t) (h' : Quiet t u) : Quiet k u :=
  ⟨h'.proc.trans h.proc, h'.inode.trans h.inode, h'.ops.trans h.ops⟩

variable {L : Link} {F : Multiset Nat} {o : Vm} {d n : Nat} {sp : Space} {k : Kernel} {α : Type}

/-- What a routine for the frames does in the kernel. -/
theorem frames_returns {m : K α} {Q : α → Vm → Prop} (h : Returns id m k.vm Q) :
    Returns id (Code.on frames m) k fun a t => Q a t.vm ∧ Quiet k t ∧ t.reads = k.reads :=
  (Returns.on (p := frames) h).mono fun _ _ ⟨_, hQ, ht⟩ => by
    subst ht
    exact ⟨hQ, ⟨rfl, rfl, rfl⟩, rfl⟩

theorem frames_ends {m : K α} {E : String → Prop} {Q : α → Vm → Prop} (h : Ends id m k.vm E Q) :
    Ends id (Code.on frames m) k E fun a t => Q a t.vm ∧ Quiet k t ∧ t.reads = k.reads :=
  (Ends.on (p := frames) h).mono (fun _ hE => hE) fun _ _ ⟨_, hQ, ht⟩ => by
    subst ht
    exact ⟨hQ, ⟨rfl, rfl, rfl⟩, rfl⟩

theorem frames_run {m : K α} {a : α} {v : Vm} (h : m.run id k.vm = .ok (a, v)) :
    (Code.on frames m).run id k = .ok (a, { k with vm := v }) := by
  rw [Code.run_on]
  change (m.run id k.vm).map _ = _
  rw [h]
  rfl

theorem readAll_run (f : File) (off n : Word) :
    (readAll f off n).run id k = .ok (f.readAll k.reads off n, { k with reads := k.reads + 1 }) :=
  rfl

/-! ## Loading the segments -/

/-- A turn of `loaduvm` writes to one of the pages of the image. -/
theorem loadPage_returns {v : Nat} {f : File} {off m : Word} (hs : Holds F o 0 d sp k.vm)
    (hshape : Shape (Image n) (· < n) sp) (hn : n ≤ UPAGES) (hv : v < n) :
    Returns id (loadPage d v f off m) k fun r t => Holds F o 0 d sp t.vm ∧ Quiet k t ∧
      t.reads = k.reads + 1 ∧ (r = true → (f.readAll k.reads off m).isSome) := by
  have hA : Image n v := Or.inl hv
  obtain ⟨e, he⟩ := Option.isSome_iff_exists.1 ((hshape.pte v).2 hA)
  unfold loadPage
  refine Returns.bind_run (frames_run hs.walkpgdir) ?_
  rw [if_pos ((hshape.tab _).2 ⟨v, hA, rfl⟩)]
  refine Returns.bind_run (frames_run hs.pgdir) ?_
  rw [he]
  refine Returns.bind_run (a := f.read k.reads off m) (t := { k with reads := k.reads + 1 }) rfl ?_
  cases hread : f.read k.reads off m with
  | none =>
    exact Code.returns_pure.2 ⟨hs, ⟨rfl, rfl, rfl⟩, rfl, fun h => absurd h Bool.false_ne_true⟩
  | some bs =>
    refine Returns.bind_run (t := { k with
      reads := k.reads + 1
      vm := k.vm.setMem e.frame (overlay (k.vm.mem e.frame) 0 bs) }) rfl ?_
    refine Code.returns_pure.2 ⟨hs.setMem (hs.mem_page (hv.trans_le hn) he) _, ⟨rfl, rfl, rfl⟩, rfl,
      fun h => ?_⟩
    unfold File.readAll
    rw [hread, Option.filter_some, if_pos h]
    rfl

theorem loadLoop_returns {addr offset sz : Word} {f : File} (hshape : Shape (Image n) (· < n) sp)
    (hn : n ≤ UPAGES) (haddr : addr.toNat % 4096 = 0) :
    ∀ (m j : Nat) (i : Word) (k : Kernel), i.toNat = j * 4096 → addr.toNat / 4096 + j + m ≤ n →
      Holds F o 0 d sp k.vm →
      Returns id (loadLoop d addr f offset sz m i) k fun r t => Holds F o 0 d sp t.vm ∧ Quiet k t ∧
        (r = true → f.loads offset sz m k.reads i = true ∧ t.reads = k.reads + m) := by
  intro m
  induction m with
  | zero => exact fun j i k _ _ hs => Code.returns_pure.2 ⟨hs, ⟨rfl, rfl, rfl⟩, fun _ => ⟨rfl, rfl⟩⟩
  | succ m ih =>
    intro j i k hi hj hs
    unfold UPAGES at hn
    have hpage : (addr + i).toNat / 4096 = addr.toNat / 4096 + j := by
      rw [BitVec.toNat_add, hi]
      omega
    have hnext : (i + 4096).toNat = (j + 1) * 4096 := by
      rw [BitVec.toNat_add, hi, show BitVec.toNat (4096 : Word) = 4096 from rfl]
      omega
    unfold loadLoop
    refine (loadPage_returns hs hshape hn (by omega)).bind fun r t ⟨ht, hq, hreads, hfull⟩ => ?_
    cases r with
    | false =>
      rw [if_neg Bool.false_ne_true]
      exact Code.returns_pure.2 ⟨ht, hq, fun h => absurd h Bool.false_ne_true⟩
    | true =>
      rw [if_pos rfl]
      refine (ih (j + 1) _ t hnext (by omega) ht).mono fun r u ⟨hu, hq', hall⟩ =>
        ⟨hu, hq.trans hq', fun hr => ?_⟩
      obtain ⟨hloads, hcount⟩ := hall hr
      rw [hreads] at hloads hcount
      refine ⟨?_, by omega⟩
      unfold File.loads
      rw [Bool.and_eq_true]
      exact ⟨hfull rfl, hloads⟩

/-- **`loaduvm`** finds all its pages. -/
theorem loaduvm_returns {addr offset sz : Word} {f : File} (hs : Holds F o 0 d sp k.vm)
    (hshape : Shape (Image n) (· < n) sp) (hn : n ≤ UPAGES) (haddr : addr.toNat % 4096 = 0)
    (hfit : addr.toNat / 4096 + pagesUp sz ≤ n) :
    Returns id (loaduvm d addr f offset sz) k fun r t => Holds F o 0 d sp t.vm ∧ Quiet k t ∧
      (r = true → f.loads offset sz (pagesUp sz) k.reads 0 = true ∧
        t.reads = k.reads + pagesUp sz) := by
  unfold loaduvm
  rw [if_neg (not_not.2 haddr)]
  exact loadLoop_returns hshape hn haddr _ 0 0 k rfl hfit hs

/-- A header that is not of a segment to load. -/
theorem File.segments_skip {f : File} {k : Nat} {off sz : Word} {bs : List Byte}
    (hread : f.readAll k off PHSIZE = some bs) (htype : (proghdr bs).type ≠ ELF_PROG_LOAD) :
    f.segments (n + 1) k off sz = f.segments n (k + 1) (off + PHSIZE) sz := by
  conv_lhs => unfold File.segments
  rw [hread]
  exact if_pos htype

theorem File.segments_load {f : File} {k : Nat} {off sz : Word} {bs : List Byte} {ph : Proghdr}
    (hread : f.readAll k off PHSIZE = some bs) (hph : proghdr bs = ph)
    (htype : ph.type = ELF_PROG_LOAD) (hsize : ¬ ph.memsz < ph.filesz)
    (hwrap : ¬ ph.vaddr + ph.memsz < ph.vaddr) (hbig : ph.vaddr + ph.memsz < 0x80000000)
    (hzero : grown sz (ph.vaddr + ph.memsz) ≠ 0) (haddr : ph.vaddr.toNat % 4096 = 0)
    (hload : f.loads ph.off ph.filesz (pagesUp ph.filesz) (k + 1) 0 = true) :
    f.segments (n + 1) k off sz =
      f.segments n (k + 1 + pagesUp ph.filesz) (off + PHSIZE) (grown sz (ph.vaddr + ph.memsz)) := by
  subst hph
  conv_lhs => unfold File.segments
  rw [hread]
  change (if _ then _ else if _ then _ else if _ then _ else _) = _
  rw [if_neg (not_not.2 htype), if_neg, if_pos hload]
  rintro (h | h | h | h | h)
  · exact hsize h
  · exact hwrap h
  · exact BitVec.not_le.2 hbig h
  · exact hzero h
  · exact h haddr

/-- A segment lies in the image that is made for it. -/
theorem segment_fits {ph : Proghdr} {sz : Word} (hsize : ¬ ph.memsz < ph.filesz)
    (hwrap : ¬ ph.vaddr + ph.memsz < ph.vaddr) (haddr : ph.vaddr.toNat % 4096 = 0) :
    ph.vaddr.toNat / 4096 + pagesUp ph.filesz ≤ pagesUp (grown sz (ph.vaddr + ph.memsz)) := by
  have hle := BitVec.le_def.1 (BitVec.not_lt.1 hsize)
  have hsum := BitVec.le_def.1 (BitVec.not_lt.1 hwrap)
  have hgrown : (ph.vaddr + ph.memsz).toNat ≤ (grown sz (ph.vaddr + ph.memsz)).toNat := by
    unfold grown
    by_cases hless : ph.vaddr + ph.memsz < sz
    · rw [if_pos hless]
      exact (BitVec.lt_def.1 hless).le
    · rw [if_neg hless]
  -- the sum does not wrap
  have hadd : (ph.vaddr + ph.memsz).toNat = ph.vaddr.toNat + ph.memsz.toNat := by
    rw [BitVec.toNat_add] at hsum ⊢
    have h1 := ph.vaddr.isLt
    have h2 := ph.memsz.isLt
    omega
  unfold pagesUp
  omega

/-- **The program headers.** No panic is reached, and the size of the image is the one that the
headers give. -/
theorem loadSegments_returns {f : File} (hF : Valid L F) :
    ∀ (n : Nat) (off sz : Word) (sp : Space) (k : Kernel), sz.toNat < 0x80000000 →
      Holds F o 0 d sp k.vm → Shape (Image (pagesUp sz)) (· < pagesUp sz) sp →
      Returns id (loadSegments L d f n off sz) k fun r t => ∃ sp', Holds F o 0 d sp' t.vm ∧
        Quiet k t ∧ ∀ sz', r = some sz' → sz'.toNat < 0x80000000 ∧
          Shape (Image (pagesUp sz')) (· < pagesUp sz') sp' ∧
          f.segments n k.reads off sz = some sz' := by
  intro n
  induction n with
  | zero =>
    intro off sz sp k hsz hs hshape
    refine Code.returns_pure.2 ⟨sp, hs, ⟨rfl, rfl, rfl⟩, fun sz' h => ?_⟩
    obtain rfl := Option.some.inj h
    exact ⟨hsz, hshape, rfl⟩
  | succ n ih =>
    intro off sz sp k hsz hs hshape
    unfold loadSegments
    refine Returns.bind_run (readAll_run f off PHSIZE) ?_
    have hq : Quiet k { k with reads := k.reads + 1 } := ⟨rfl, rfl, rfl⟩
    -- the exits of the loop
    have hnone : ∀ (sp' : Space) (t : Kernel), Holds F o 0 d sp' t.vm → Quiet k t →
        Returns id (pure none : X (Option Word)) t fun r t => ∃ sp', Holds F o 0 d sp' t.vm ∧
          Quiet k t ∧ ∀ sz', r = some sz' → sz'.toNat < 0x80000000 ∧
            Shape (Image (pagesUp sz')) (· < pagesUp sz') sp' ∧
            f.segments (n + 1) k.reads off sz = some sz' :=
      fun sp' t ht hq => Code.returns_pure.2 ⟨sp', ht, hq, fun _ h => (nomatch h)⟩
    cases hread : f.readAll k.reads off PHSIZE with
    | none => exact hnone sp _ hs hq
    | some bs =>
      generalize hph : proghdr bs = ph
      by_cases htype : ph.type = ELF_PROG_LOAD
      · simp only [hph, htype, ne_eq, not_true_eq_false, if_false]
        by_cases hsize : ph.memsz < ph.filesz
        · rw [if_pos hsize]
          exact hnone sp _ hs hq
        rw [if_neg hsize]
        by_cases hwrap : ph.vaddr + ph.memsz < ph.vaddr
        · rw [if_pos hwrap]
          exact hnone sp _ hs hq
        rw [if_neg hwrap]
        refine (frames_returns (k := { k with reads := k.reads + 1 })
          (hs.allocuvm sz (ph.vaddr + ph.memsz) hF hshape)).bind
          fun r t ⟨ht, hq1, hreads⟩ => ?_
        rcases ht with ⟨hbig, hr, sp1, hs1, hshape1⟩ | ⟨rfl, _, sp1, hs1⟩
        -- `allocuvm` returns the larger of the sizes, which is 0 for an empty image
        · change r = grown sz (ph.vaddr + ph.memsz) at hr
          by_cases hzero : r = 0
          · rw [if_pos hzero]
            exact hnone sp1 t hs1 (hq.trans hq1)
          rw [if_neg hzero]
          by_cases haddr : ph.vaddr.toNat % 4096 = 0
          · rw [if_neg (not_not.2 haddr)]
            subst hr
            have hsz1 : (grown sz (ph.vaddr + ph.memsz)).toNat < 0x80000000 := by
              unfold grown
              by_cases hless : ph.vaddr + ph.memsz < sz
              · rw [if_pos hless]
                exact hsz
              · rw [if_neg hless]
                exact BitVec.lt_def.1 hbig
            refine (loaduvm_returns hs1 hshape1 (pagesUp_le hsz1.le) haddr
              (segment_fits hsize hwrap haddr)).bind fun r u ⟨hu, hq2, hload⟩ => ?_
            have hqu := (hq.trans hq1).trans hq2
            cases r with
            | false =>
              rw [if_neg Bool.false_ne_true]
              exact hnone sp1 u hu hqu
            | true =>
              rw [if_pos rfl]
              obtain ⟨hloads, hcount⟩ := hload rfl
              rw [hreads] at hloads hcount
              refine (ih (off + PHSIZE) _ sp1 u hsz1 hu hshape1).mono
                fun r w ⟨sp', hw, hq', hall⟩ => ⟨sp', hw, hqu.trans hq', fun sz' h => ?_⟩
              obtain ⟨hsz', hshape', hseg⟩ := hall sz' h
              refine ⟨hsz', hshape', ?_⟩
              rw [File.segments_load hread hph htype hsize hwrap hbig hzero haddr hloads, ← hcount]
              exact hseg
          · rw [if_pos haddr]
            exact hnone sp1 t hs1 (hq.trans hq1)
        · rw [if_pos rfl]
          exact hnone sp1 t hs1 (hq.trans hq1)
      · simp only [hph, ne_eq, htype, not_false_eq_true, if_true]
        refine (ih (off + PHSIZE) sz sp { k with reads := k.reads + 1 } hsz hs hshape).mono
          fun r t ⟨sp', ht, hq', hall⟩ => ⟨sp', ht, hq.trans hq', fun sz' h => ?_⟩
        obtain ⟨hsz', hshape', hseg⟩ := hall sz' h
        refine ⟨hsz', hshape', ?_⟩
        rw [File.segments_skip hread (by rwa [hph])]
        exact hseg

end Xv6.Shell.Exec
