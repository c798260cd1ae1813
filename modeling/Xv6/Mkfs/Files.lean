/-
The image with its input files in it, before `balloc` writes the bitmap.

`read` of the host may return less than it is asked for, so an input is a list of
chunks here, in the order in which `read` returns them; `mkfs_eq` says that `mkfs` is
the case in which it always fills the buffer.
-/
import Xv6.Mkfs.Append

set_option autoImplicit false

namespace Xv6.Mkfs

/-- An argument of `mkfs`: the name of the file, and what each `read` of it returns. -/
structure Input where
  name : List Byte
  chunks : List (List Byte)

def Input.content (f : Input) : List Byte := f.chunks.flatten

/-- The name without a leading underscore. -/
def stored (name : List Byte) : List Byte := if name.head? = some 95 then name.tail else name

/-- The loop over `read`. -/
def copyChunks (inum : Nat) : List (List Byte) → State → Option State
  | [], s => some s
  | c :: cs, s => (iappend inum c s).bind (copyChunks inum cs)

/-- The body of the loop over the arguments. -/
def addInput (rootino : Nat) (f : Input) (s : State) : Option State :=
  if f.name.contains 47 then none
  else
    let (inum, s) := ialloc T_FILE s
    (iappend rootino (dirent inum (stored f.name)) s).bind (copyChunks inum f.chunks)

def addInputs (rootino : Nat) : List Input → State → Option State
  | [], s => some s
  | f :: fs, s => (addInput rootino f s).bind (addInputs rootino fs)

/-- All sectors are zeroed, and the superblock is written. -/
def blank : State :=
  wsect 1 sbSector
    { disk := fun _ => zeroes, freeinode := 1, freeblock := nmeta, outside := false }

/-- `main` up to the call of `balloc`. -/
def image (files : List Input) : Option State :=
  let (rootino, s) := ialloc T_DIR blank
  (iappend rootino (dirent rootino [46]) s).bind fun s =>
    (iappend rootino (dirent rootino [46, 46]) s).bind fun s =>
      (addInputs rootino files s).map (fixRoot rootino)

/-! ## Full reads -/

/-- What `read` returns when it fills the buffer each time. -/
def fullReads : Nat → List Byte → List (List Byte)
  | 0, _ => []
  | fuel + 1, data =>
    if data = [] then [] else data.take BSIZE :: fullReads fuel (data.drop BSIZE)

def File.input (f : File) : Input := ⟨f.name, fullReads f.content.length f.content⟩

theorem copyFile_eq (inum : Nat) (fuel : Nat) : ∀ (data : List Byte) (s : State),
    copyFile inum fuel data s = copyChunks inum (fullReads fuel data) s := by
  induction fuel with
  | zero => exact fun _ _ => rfl
  | succ fuel ih =>
    intro data s
    unfold copyFile fullReads
    by_cases h : data = []
    · rw [if_pos h, if_pos h]
      rfl
    · rw [if_neg h, if_neg h]
      unfold copyChunks
      congr 1
      funext t
      exact ih _ t

theorem addFiles_eq (rootino : Nat) (files : List File) : ∀ s : State,
    addFiles rootino files s = addInputs rootino (files.map File.input) s := by
  induction files with
  | nil => exact fun _ => rfl
  | cons f fs ih =>
    intro s
    have hf : addFile rootino f s = addInput rootino f.input s := by
      unfold addFile addInput stored
      simp only [File.input, copyFile_eq]
      rfl
    unfold addFiles
    rw [List.map_cons, hf]
    unfold addInputs
    congr 1
    funext t
    exact ih t

/-- `mkfs` writes the bitmap over the image of full reads. -/
theorem mkfs_eq (files : List File) :
    mkfs files = (image (files.map File.input)).map fun s => balloc s.freeblock s := by
  unfold mkfs image blank
  simp only [addFiles_eq, Option.map_eq_bind, Option.bind_assoc, Function.comp_def,
    Option.bind_some]

/-! ## The arguments are copied -/

variable {s : State} {con : Nat → List Byte} {ty : Nat → Nat}

theorem dirent_length (inum : Nat) (name : List Byte) : (dirent inum name).length = 16 := by
  simp [dirent]

/-- **All chunks are appended.** -/
theorem Built.copyChunks_spec {i : Nat} (hi : 0 < i) (cs : List (List Byte)) : ∀ {s : State}
    {con : Nat → List Byte}, Built s con ty → i < s.freeinode →
    (con i).length + cs.flatten.length ≤ MAXFILE * BSIZE →
    s.freeblock + 2 * cs.flatten.length < 2 ^ 32 →
    ∃ t, copyChunks i cs s = some t ∧ Built t (Function.update con i (con i ++ cs.flatten)) ty ∧
      t.freeinode = s.freeinode ∧ Kept s t (2 * cs.flatten.length) := by
  induction cs with
  | nil =>
    intro s con h _ _ _
    refine ⟨s, rfl, ?_, rfl, rfl, Nat.le_add_right _ _⟩
    rwa [List.flatten_nil, List.append_nil, Function.update_eq_self]
  | cons c cs ih =>
    intro s con h hl hmax hb
    rw [List.flatten_cons, List.length_append] at hmax hb
    obtain ⟨t, heq, hbuilt, hfi, hk⟩ := h.iappend_spec hi hl (p := c) (by omega) (by omega)
    have hci : Function.update con i (con i ++ c) i = con i ++ c := Function.update_self _ _ _
    have hhigh := hk.high
    obtain ⟨u, heq', hbuilt', hfi', hk'⟩ := ih hbuilt (hl.trans_eq hfi.symm)
      (by rw [hci, List.length_append]; omega) (by omega)
    refine ⟨u, ?_, ?_, hfi'.trans hfi, (hk.trans hk').mono ?_⟩
    · unfold copyChunks
      rw [heq]
      exact heq'
    · rwa [hci, List.append_assoc, Function.update_idem] at hbuilt'
    · rw [List.flatten_cons, List.length_append]
      omega

/-- The input fits: `iappend` and the kernel have MAXFILE blocks for a file. -/
def Input.Fits (f : Input) : Prop := f.content.length ≤ MAXFILE * BSIZE

/-- Free blocks that are enough for one more input. -/
def perInput : Nat := 2 * 16 + 2 * (MAXFILE * BSIZE)

/-- **An argument becomes an inode and an entry of the root directory.** -/
theorem Built.addInput_spec {f : Input} (h : Built s con ty) (hn : 1 < s.freeinode)
    (hl : s.freeinode < NINODES) (hroot : (con 1).length = 16 * s.freeinode) (hf : f.Fits)
    (hslash : f.name.contains 47 = false) (hb : s.freeblock + perInput < 2 ^ 32) :
    ∃ t, addInput 1 f s = some t ∧
      Built t (Function.update (Function.update con 1 (con 1 ++ dirent s.freeinode (stored f.name)))
        s.freeinode f.content) (Function.update ty s.freeinode T_FILE) ∧
      t.freeinode = s.freeinode + 1 ∧ Kept s t perInput := by
  unfold Input.Fits at hf
  have hM : MAXFILE * BSIZE = 71680 := rfl
  have hN : NINODES = 200 := rfl
  have hP : perInput = 2 * 16 + 2 * (MAXFILE * BSIZE) := rfl
  set n := s.freeinode with hnd
  obtain ⟨h1, hk1⟩ := h.ialloc_spec hl T_FILE (by norm_num)
  have hhigh1 := hk1.high
  set de := dirent n (stored f.name) with hde
  have hlen : de.length = 16 := dirent_length _ _
  have hroot1 : Function.update con n [] 1 = con 1 := Function.update_of_ne hn.ne _ _
  obtain ⟨t, heq, h2, hfi2, hk2⟩ := h1.iappend_spec (i := 1) (by norm_num)
    (by show 1 < n + 1; omega) (p := de) (by rw [← hnd, hroot1]; omega) (by omega)
  have hhigh2 := hk2.high
  rw [← hnd, hroot1] at h2
  have hfit : t.freeinode = n + 1 := hfi2
  set con2 := Function.update (Function.update con n []) 1 (con 1 ++ de) with hcon2
  have hnil : con2 n = [] := by
    rw [hcon2, Function.update_of_ne hn.ne', Function.update_self]
  obtain ⟨u, heq', h3, hfi3, hk3⟩ := h2.copyChunks_spec (i := n) (by omega) f.chunks
    (by omega) (by rw [hnil, List.length_nil, Nat.zero_add]; exact hf) (by unfold Input.content at hf; omega)
  rw [hnil, List.nil_append] at h3
  refine ⟨u, ?_, ?_, hfi3.trans hfit, ((hk1.trans hk2).trans hk3).mono ?_⟩
  · unfold addInput
    rw [if_neg (by rw [hslash]; decide)]
    show (iappend 1 de (ialloc T_FILE s).2).bind _ = _
    rw [heq]
    exact heq'
  · rw [hcon2, Function.update_comm hn.ne, Function.update_idem, Function.update_comm hn.ne'] at h3
    exact h3
  · unfold Input.content at hf
    omega

/-- The entries that the arguments get, from inode `n` on. -/
def entriesFrom (n : Nat) (files : List Input) : List (Nat × List Byte) :=
  (files.zipIdx n).map fun (f, k) => (k, stored f.name)

/-- The bytes of a directory. -/
def direntsOf (es : List (Nat × List Byte)) : List Byte := es.flatMap fun e => dirent e.1 e.2

theorem direntsOf_length (es : List (Nat × List Byte)) : (direntsOf es).length = 16 * es.length := by
  induction es with
  | nil => rfl
  | cons e es ih =>
    show (dirent e.1 e.2 ++ direntsOf es).length = 16 * (es.length + 1)
    rw [List.length_append, dirent_length, ih]
    omega

/-- **All the arguments are copied**; the image holds each of them, and the directory has
their entries. -/
theorem Built.addInputs_spec (files : List Input) : ∀ {s : State} {con : Nat → List Byte}
    {ty : Nat → Nat}, Built s con ty → 1 < s.freeinode →
    s.freeinode + files.length ≤ NINODES → (con 1).length = 16 * s.freeinode →
    (∀ f ∈ files, f.Fits) → (∀ f ∈ files, f.name.contains 47 = false) →
    s.freeblock + files.length * perInput < 2 ^ 32 →
    ∃ t con' ty', addInputs 1 files s = some t ∧ Built t con' ty' ∧
      t.freeinode = s.freeinode + files.length ∧
      con' 1 = con 1 ++ direntsOf (entriesFrom s.freeinode files) ∧
      (∀ f k, (f, k) ∈ files.zipIdx s.freeinode → con' k = f.content ∧ ty' k = T_FILE) ∧
      (∀ i, i < s.freeinode → ty' i = ty i ∧ (i ≠ 1 → con' i = con i)) ∧ t.disk 1 = s.disk 1 := by
  induction files with
  | nil =>
    intro s con ty h _ _ _ _ _ _
    refine ⟨s, con, ty, rfl, h, rfl, (List.append_nil _).symm, fun f k hk => ?_,
      fun i _ => ⟨rfl, fun _ => rfl⟩, rfl⟩
    rw [List.zipIdx_nil] at hk
    exact absurd hk List.not_mem_nil
  | cons f fs ih =>
    intro s con ty h hn hmax hroot hfits hslash hb
    rw [List.length_cons] at hmax hb
    rw [Nat.succ_mul] at hb
    obtain ⟨t, heq, h1, hfi, hk⟩ := h.addInput_spec hn (by omega) hroot
      (hfits f List.mem_cons_self) (hslash f List.mem_cons_self) (by omega)
    have hhigh := hk.high
    set n := s.freeinode with hnd
    set con1 := Function.update (Function.update con 1 (con 1 ++ dirent n (stored f.name))) n
      f.content with hcon1
    have hroot1 : con1 1 = con 1 ++ dirent n (stored f.name) := by
      rw [hcon1, Function.update_of_ne hn.ne, Function.update_self]
    obtain ⟨u, con', ty', heq', h2, hfi', hc', hfiles, hkeep, hsuper⟩ := ih h1 (by omega)
      (by omega) (by rw [hroot1, List.length_append, dirent_length, hroot, hfi]; omega)
      (fun g hg => hfits g (List.mem_cons_of_mem _ hg))
      (fun g hg => hslash g (List.mem_cons_of_mem _ hg)) (by omega)
    rw [hfi] at hc' hfiles hkeep
    refine ⟨u, con', ty', ?_, h2, ?_, ?_, fun g k hg => ?_, fun i hi => ?_,
      hsuper.trans hk.super⟩
    · unfold addInputs
      rw [heq]
      exact heq'
    · rw [hfi', hfi, List.length_cons]
      omega
    · rw [hc', hroot1, List.append_assoc]
      rfl
    · rw [List.zipIdx_cons, List.mem_cons] at hg
      rcases hg with hg | hg
      · obtain ⟨rfl, rfl⟩ := Prod.mk.inj hg
        have hself := hkeep n (Nat.lt_succ_self n)
        rw [hself.1, hself.2 hn.ne', hcon1, Function.update_self, Function.update_self]
        exact ⟨rfl, rfl⟩
      · exact hfiles g k hg
    · have hold := hkeep i (Nat.lt_succ_of_lt hi)
      refine ⟨?_, fun h1 => ?_⟩
      · rw [hold.1, Function.update_of_ne hi.ne]
      · rw [hold.2 h1, hcon1, Function.update_of_ne hi.ne, Function.update_of_ne h1]

/-- A name with a slash stops the run. -/
theorem addInputs_slash {files : List Input} : ∀ {s t : State}, addInputs 1 files s = some t →
    ∀ f ∈ files, f.name.contains 47 = false := by
  induction files with
  | nil => exact fun _ f hf => absurd hf List.not_mem_nil
  | cons g gs ih =>
    intro s t h f hf
    unfold addInputs at h
    obtain ⟨u, hu, hgs⟩ := Option.bind_eq_some_iff.1 h
    rcases List.mem_cons.1 hf with rfl | hf
    · unfold addInput at hu
      by_contra hc
      rw [if_pos (by simpa using hc)] at hu
      exact absurd hu.symm (Option.some_ne_none u)
    · exact ih hgs f hf

/-! ## The image -/

/-- The inode `i` has the bytes `c` in its blocks. -/
def Holds (s : State) (i : Nat) (c : List Byte) : Prop :=
  ∃ use nb, FileOk s.disk use i (rinode i s) nb c

theorem image_eq (files : List Input) :
    image files = (iappend 1 (dirent 1 [46]) (ialloc T_DIR blank).2).bind fun s =>
      (iappend 1 (dirent 1 [46, 46]) s).bind fun s => (addInputs 1 files s).map (fixRoot 1) := rfl

theorem blank_super : blank.disk 1 = sbSector := by
  unfold blank
  rw [wsect_disk, if_pos rfl]

theorem blank_data {b : Nat} (hb : nmeta ≤ b) : blank.disk b = zeroes := by
  have h1 : (1 : Nat) < nmeta := by decide
  unfold blank
  rw [wsect_disk, if_neg (h1.trans_le hb).ne']

/-- There is no inode yet. -/
theorem built_blank : Built blank (fun _ => []) fun _ => 0 := by
  have hfi : blank.freeinode = 1 := rfl
  have hfb : blank.freeblock = nmeta := rfl
  have hm : nmeta < 2 ^ 32 := by decide
  refine ⟨fun _ => none, fun _ => 0, ⟨hfb.ge, hfb.trans_lt hm, fun b hb => blank_data hb,
    fun b o ho => absurd ho.symm (Option.some_ne_none o), fun i h0 hl => ?_⟩, by decide,
    fun i h0 hl => ?_, fun i h0 hl => ?_, fun i h0 hl => ?_⟩
  all_goals exact absurd (hl.trans_eq hfi) (Nat.not_lt_of_le h0)

/-- The root, before it has an entry. -/
theorem built_root : Built (ialloc T_DIR blank).2 (fun _ => [])
    (Function.update (fun _ => 0) 1 T_DIR) := by
  have h := (built_blank.ialloc_spec (by decide) T_DIR (by decide)).1
  rwa [show blank.freeinode = 1 from rfl, Function.update_eq_self] at h

theorem image_slash {files : List Input} (h : image files = some s) :
    ∀ f ∈ files, f.name.contains 47 = false := by
  rw [image_eq] at h
  obtain ⟨s1, -, h⟩ := Option.bind_eq_some_iff.1 h
  obtain ⟨s2, -, h⟩ := Option.bind_eq_some_iff.1 h
  obtain ⟨s3, h, -⟩ := Option.map_eq_some_iff.1 h
  exact addInputs_slash h

/-- The entries of the root directory. -/
def rootEntries (files : List Input) : List (Nat × List Byte) :=
  (1, [46]) :: (1, [46, 46]) :: entriesFrom 2 files

/-- **The size of the root is fixed**; the files are as they were. -/
theorem Built.fixRoot_spec (h : Built s con ty) (hl : 1 < s.freeinode)
    (hmax : (con 1).length + BSIZE < 2 ^ 32) :
    (∀ i, 0 < i → i < s.freeinode → Holds (fixRoot 1 s) i (con i) ∧
      (rinode i (fixRoot 1 s)).type = ty i ∧
      (i ≠ 1 → (rinode i (fixRoot 1 s)).size = (con i).length)) ∧
    (rinode 1 (fixRoot 1 s)).size = ((con 1).length / BSIZE + 1) * BSIZE ∧
    (fixRoot 1 s).disk 1 = s.disk 1 := by
  obtain ⟨use, nb, hd⟩ := h
  have hsize := hd.size 1 (by norm_num) hl
  have hle : ((con 1).length / BSIZE + 1) * BSIZE ≤ (con 1).length + BSIZE := (end_of_div rfl).2
  set ip : Dinode :=
    { rinode 1 s with size := ((rinode 1 s).size / BSIZE + 1) * BSIZE } with hip
  have hips : ip.size = ((con 1).length / BSIZE + 1) * BSIZE := by rw [hip, ← hsize]
  have hfits : Fits ip := by
    refine ⟨getNum_lt _ 2 _, ?_, fun k hk => hd.inv.addr_lt (by norm_num) hl hk⟩
    rw [hips]
    exact hle.trans_lt hmax
  have hinv := hd.inv.writeback (i := 1) (by decide) hfits (fun _ _ => rfl)
    fun j _ _ _ _ _ => rfl
  have hother : ∀ j, j ≠ 1 → Agree (rinode j (fixRoot 1 s)) (rinode j s) := fun j hj =>
    rinode_winode_of_ne hj ip s
  have hself : Agree (rinode 1 (fixRoot 1 s)) ip := rinode_winode 1 hfits s
  refine ⟨fun i h0 hi => ⟨⟨use, nb i, hinv.file i h0 hi⟩, ?_, fun h1 => ?_⟩, ?_,
    winode_super 1 ip s⟩
  · rw [← hd.type i h0 hi]
    by_cases h1 : i = 1
    · rw [h1]
      exact hself.type
    · exact (hother i h1).type
  · rw [(hother i h1).size]
    exact hd.size i h0 hi
  · rw [hself.size, hips]

/-- **The image holds the root directory and every input file.** -/
theorem image_spec {files : List Input} (hroom : files.length + 2 ≤ NINODES)
    (hfits : ∀ f ∈ files, f.Fits) (hslash : ∀ f ∈ files, f.name.contains 47 = false) :
    ∃ s, image files = some s ∧ s.disk 1 = sbSector ∧
      Holds s 1 (direntsOf (rootEntries files)) ∧ (rinode 1 s).type = T_DIR ∧
      (rinode 1 s).size = ((direntsOf (rootEntries files)).length / BSIZE + 1) * BSIZE ∧
      ∀ f k, (f, k) ∈ files.zipIdx 2 → Holds s k f.content ∧ (rinode k s).type = T_FILE ∧
        (rinode k s).size = f.content.length := by
  have hN : NINODES = 200 := rfl
  have hM : MAXFILE * BSIZE = 71680 := rfl
  have hP : perInput = 143392 := rfl
  have hm : nmeta = 6464 := by decide
  set s0 := (ialloc T_DIR blank).2 with hs0
  have hfi0 : s0.freeinode = 2 := rfl
  have hfb0 : s0.freeblock = nmeta := rfl
  have hsb0 : s0.disk 1 = sbSector := by
    rw [hs0]
    exact (winode_super _ _ _).trans blank_super
  -- the two entries of the directory itself
  have hd1 : (dirent 1 [46]).length = 16 := dirent_length _ _
  have hd2 : (dirent 1 [46, 46]).length = 16 := dirent_length _ _
  obtain ⟨s1, heq1, h1, hfi1, hk1⟩ := built_root.iappend_spec (i := 1) (by norm_num) (by
    show 1 < s0.freeinode
    omega) (p := dirent 1 [46]) (by rw [List.length_nil]; omega) (by
    show s0.freeblock + _ < _
    omega)
  rw [← hs0] at heq1 hfi1 hk1
  have hhigh1 := hk1.high
  rw [List.nil_append] at h1
  have hc1 : Function.update (fun _ => ([] : List Byte)) 1 (dirent 1 [46]) 1 = dirent 1 [46] :=
    Function.update_self _ _ _
  obtain ⟨s2, heq2, h2, hfi2, hk2⟩ := h1.iappend_spec (i := 1) (by norm_num) (by omega)
    (p := dirent 1 [46, 46]) (by rw [hc1]; omega) (by omega)
  have hhigh2 := hk2.high
  rw [hc1, Function.update_idem] at h2
  set con2 := Function.update (fun _ => ([] : List Byte)) 1 (dirent 1 [46] ++ dirent 1 [46, 46])
    with hcon2
  have hc2 : con2 1 = dirent 1 [46] ++ dirent 1 [46, 46] := Function.update_self _ _ _
  have hfi : s2.freeinode = 2 := hfi2.trans (hfi1.trans hfi0)
  have hmul : files.length * perInput ≤ NINODES * perInput :=
    Nat.mul_le_mul_right _ (by omega)
  rw [hP, hN] at hmul
  obtain ⟨t, con', ty', heq, h3, hfi3, hc3, hfiles, hkeep, hsuper⟩ := h2.addInputs_spec files
    (by omega) (by omega) (by rw [hc2, List.length_append]; omega) hfits hslash
    (by rw [hP]; omega)
  rw [hfi] at hfi3 hc3 hfiles hkeep
  have hroot : con' 1 = direntsOf (rootEntries files) := by
    rw [hc3, hc2, List.append_assoc]
    rfl
  have hlen : (con' 1).length = 16 * (files.length + 2) := by
    rw [hroot, direntsOf_length]
    simp [rootEntries, entriesFrom]
  obtain ⟨hfix, hsize, hfixsuper⟩ := h3.fixRoot_spec (by omega) (by
    have hB : BSIZE = 512 := rfl
    omega)
  have hty : ty' 1 = T_DIR := (hkeep 1 (by norm_num)).1
  have hone := hfix 1 (by norm_num) (by omega)
  rw [hroot, hty] at hone
  refine ⟨fixRoot 1 t, ?_, ?_, hone.1, hone.2.1, ?_, fun f k hf => ?_⟩
  · rw [image_eq, ← hs0, heq1, Option.bind_some, heq2, Option.bind_some, heq]
    rfl
  · rw [hfixsuper, hsuper, hk2.super, hk1.super, hsb0]
  · rw [hsize, hroot]
  · have hk := List.mk_mem_zipIdx_iff_le_and_getElem?_sub.1 hf
    have hlt := (List.getElem?_eq_some_iff.1 hk.2).1
    have := hfix k (by omega) (by omega)
    rw [(hfiles f k hf).1, (hfiles f k hf).2] at this
    exact ⟨this.1, this.2.1, this.2.2 (by omega)⟩

end Xv6.Mkfs
