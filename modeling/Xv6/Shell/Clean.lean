/-
`exec` fails cleanly.

When `exec` returns -1, the process is as before, and so are the free frames, the inode and
the log; only the frames that were free have been written to. One slip remains. `uva2ka`
does not test whether `walkpgdir` has found a page table, so for a string that would be
placed in the hole below the devices `copyout` takes the word at virtual address 0 for a
page table entry, and writes where this word points to. `Stray` says when that happens.
-/
import Xv6.Shell.Load

set_option autoImplicit false

namespace Xv6.Shell.Exec

open Xv6.Lib
open Xv6.Lib.Code (Returns Ends)

/-! ## When a string goes astray -/

/-- How many frames an image takes: a page directory, 64 page tables for the kernel, and the
pages with their page tables. -/
def needed (top : Word) : Nat := 65 + (pagesUp top + 1023) / 1024 + pagesUp top

/-- Whether one of the strings is placed in the hole, while those before it are in the page of
the stack. -/
def inHole (top : Word) : Nat → Word → List Str → Bool
  | _, _, [] => false
  | argc, sp, arg :: argv =>
    let sp' := place sp arg.bytes.length
    if MAXARG ≤ argc then false
    else if Hole (sp'.toNat / 4096) then true
    else if top - 4096 ≤ sp' ∧ sp' < top then inHole top (argc + 1) sp' argv
    else false

/-- The file can be executed, there are frames for its image, a string is placed in the hole,
and the word at virtual address 0 has `PTE_P` and `PTE_U`. -/
def Stray (namei : List Byte → Option File) (path : Str) (argv : List Str) (k : Kernel) : Prop :=
  ∃ f top w, namei path.bytes = some f ∧ f.image k.reads = some top ∧
    needed top ≤ k.vm.freelist.length ∧ inHole top 0 top argv = true ∧
    k.vm.nullWord k.proc.pgdir = some w ∧ userEntry w = true

variable {L : Link} {F : Multiset Nat} {o : Vm} {d n : Nat} {sp : Space} {k : Kernel}

/-! ## The stack -/

/-- The word at address 0 of the process, whose frames are none of `F`. -/
theorem Holds.nullWord {h : Multiset Nat} {s : Vm} {cr3 : Nat} (hs : Holds F o h d sp s)
    (hdir : cr3 ∉ F) (hpage : ∀ cur e, o.space cr3 = some cur → cur.pte 0 = some e → e.frame ∉ F) :
    s.nullWord cr3 = o.nullWord cr3 := by
  unfold Vm.nullWord
  rw [hs.spaces cr3 hdir]
  cases hcur : o.space cr3 with
  | none => rfl
  | some cur =>
    cases he : cur.pte 0 with
    | none =>
      simp only [Option.bind_some, he]
      rfl
    | some e =>
      simp only [Option.bind_some, he, Option.map_some]
      rw [hs.mem e.frame (hpage cur e hcur he)]

/-- The pages of the stack: the last of the image, above a guard page. -/
structure Stack (n : Nat) (sp : Space) : Prop where
  two : 2 ≤ n
  low : n ≤ UPAGES
  shape : Shape (Image n) (fun x => x < n ∧ x ≠ n - 2) sp

/-- A string that is copied lies in the page of the stack. -/
theorem copy_string {arg : Str} {p : Word} (hs : Holds F o 0 d sp k.vm) (hF : Valid L F)
    (hst : Stack n sp) (hlow : (n - 1) * 4096 ≤ p.toNat) (hp : p.toNat ≤ n * 4096)
    (hsafe : Hole ((place p arg.bytes.length).toNat / 4096) →
      ∀ w, k.vm.nullWord k.proc.pgdir = some w → userEntry w = false) :
    Ends id (copyoutProc L d (place p arg.bytes.length) (arg.bytes ++ [0])) k (· = "trap")
      fun r t => Holds F o 0 d sp t.vm ∧ Quiet k t ∧ (r = true →
        (n - 1) * 4096 ≤ (place p arg.bytes.length).toNat ∧
          (place p arg.bytes.length).toNat < p.toNat) := by
  obtain ⟨h2, hn, hshape⟩ := hst
  have hlen : (arg.bytes ++ [0]).length = arg.bytes.length + 1 := List.length_append
  have hbelow := arg.below
  unfold copyoutProc
  rw [Code.ends_get_bind]
  by_cases hfit : arg.bytes.length + 1 ≤ p.toNat
  · have hplace := place_low hfit
    refine ((frames_returns (Holds.copyout_low hF hshape hn k.proc.pgdir _ _ _ _ le_rfl ?_ hs)).ends).mono
      (fun _ h => h) fun r t ⟨⟨ht, hall⟩, hq, _⟩ => ⟨ht, hq, fun hr => ?_⟩
    · rw [hlen, hplace]
      omega
    · by_contra hout
      -- one of the bytes would be in the guard page
      have hguard := hall hr ((n - 2) * 4096 - (place p arg.bytes.length).toNat)
      rw [hlen, hplace] at hguard
      omega
  -- it does not fit below the stack pointer, so the place wraps to the kernel's half
  · have hhigh := place_high (Nat.not_le.1 hfit) hbelow
    rw [hlen]
    refine (frames_ends (hs.copyout_high hshape hn (fun _ hx => hx.1) (by simp)
      (by unfold UPAGES; omega) hsafe)).mono (fun _ h => h) fun r t ⟨⟨hr, ht⟩, hq, _⟩ => ?_
    refine ⟨by rwa [ht], hq, fun h => ?_⟩
    rw [hr] at h
    exact absurd h Bool.false_ne_true

/-- The stack pointer after the strings is in the page of the stack. -/
theorem pushArgs_ends {top : Word} {cr3 : Nat} (hF : Valid L F) (hst : Stack n sp)
    (htop : top.toNat = n * 4096)
    (hdir : cr3 ∉ F) (hpage : ∀ cur e, o.space cr3 = some cur → cur.pte 0 = some e → e.frame ∉ F) :
    ∀ (argv : List Str) (ptrs : List Word) (p : Word) (k : Kernel), Holds F o 0 d sp k.vm →
      k.proc.pgdir = cr3 → ptrs.length ≤ MAXARG → (n - 1) * 4096 ≤ p.toNat → p.toNat ≤ n * 4096 →
      (inHole top ptrs.length p argv = true → ∀ w, o.nullWord cr3 = some w → userEntry w = false) →
      Ends id (pushArgs L d ptrs p argv) k (· = "trap") fun r t => Holds F o 0 d sp t.vm ∧
        Quiet k t ∧ ∀ p' ptrs', r = some (p', ptrs') → ptrs'.length ≤ MAXARG ∧
          (n - 1) * 4096 ≤ p'.toNat ∧ p'.toNat ≤ n * 4096 := by
  have h2 := hst.two
  intro argv
  induction argv with
  | nil =>
    intro ptrs p k hs _ hmax hlow hp _
    refine Code.ends_pure _ |>.2 ⟨hs, ⟨rfl, rfl, rfl⟩, fun p' ptrs' h => ?_⟩
    obtain ⟨rfl, rfl⟩ := Prod.mk.inj (Option.some.inj h)
    exact ⟨hmax, hlow, hp⟩
  | cons arg argv ih =>
    intro ptrs p k hs hcr3 hmax hlow hp hsafe
    unfold inHole at hsafe
    unfold pushArgs
    by_cases hfull : MAXARG ≤ ptrs.length
    · rw [if_pos hfull]
      exact Code.ends_pure _ |>.2 ⟨hs, ⟨rfl, rfl, rfl⟩, fun _ _ h => (nomatch h)⟩
    · rw [if_neg hfull] at hsafe ⊢
      have hnull := hs.nullWord hdir hpage
      refine (copy_string hs hF hst hlow hp fun hhole => ?_).bind fun r t ⟨ht, hq, hplaced⟩ => ?_
      · rw [hcr3, hnull]
        rw [if_pos hhole] at hsafe
        exact hsafe rfl
      · cases r with
        | false =>
          rw [if_neg Bool.false_ne_true]
          exact Code.ends_pure _ |>.2 ⟨ht, hq, fun _ _ h => (nomatch h)⟩
        | true =>
          obtain ⟨hlow', hp'⟩ := hplaced rfl
          rw [if_pos rfl]
          -- the string is in the page of the stack, where the condition goes on
          have hnot : ¬ Hole ((place p arg.bytes.length).toNat / 4096) := by
            have hn := hst.low
            unfold Hole
            unfold UPAGES PHYSPAGES at *
            omega
          have hin : top - 4096 ≤ place p arg.bytes.length ∧ place p arg.bytes.length < top := by
            rw [BitVec.le_def, BitVec.lt_def, BitVec.toNat_sub, htop,
              show BitVec.toNat (4096 : Word) = 4096 from rfl]
            have hlt := (place p arg.bytes.length).isLt
            have htop' := top.isLt
            omega
          rw [if_neg hnot, if_pos hin] at hsafe
          have hlength : (ptrs ++ [place p arg.bytes.length]).length = ptrs.length + 1 :=
            List.length_append
          refine (ih _ _ t ht (by rw [hq.proc, hcr3]) (by omega) hlow' (by omega)
            (by rwa [hlength])).mono (fun _ h => h) fun r u ⟨hu, hq', hall⟩ =>
            ⟨hu, hq.trans hq', hall⟩

/-! ## Clean-up -/

/-- A page of the process. -/
def Kernel.userPage (k : Kernel) (v : Nat) : Option Page :=
  ((k.vm.space k.proc.pgdir).bind fun sp => sp.pte v).map fun e => k.vm.mem e.frame

/-- The free frames are such as `kfree` takes and none of them is the process's; and the inode
is not locked. -/
structure Sound (L : Link) (k : Kernel) : Prop where
  free : ∀ f ∈ k.vm.freelist, L.kend ≤ f ∧ f < PHYSPAGES
  dir : k.proc.pgdir ∉ k.vm.freelist
  pages : ∀ sp v e, k.vm.space k.proc.pgdir = some sp → v < UPAGES → sp.pte v = some e →
    e.frame ∉ k.vm.freelist
  unlocked : k.inode.locked = false

/-- Nothing has changed but the bytes of free frames and their order. -/
structure Failed (k t : Kernel) : Prop where
  proc : t.proc = k.proc
  memory : ∀ v, v < UPAGES → t.userPage v = k.userPage v
  others : ∀ f ∉ k.vm.freelist, t.vm.mem f = k.vm.mem f ∧ t.vm.space f = k.vm.space f
  free : t.vm.freelist.Perm k.vm.freelist
  inode : t.inode = k.inode
  ops : t.ops = k.ops

/-- `exec` has begun in `k`, and `ip` is set or not. -/
structure Within (ip : Bool) (k t : Kernel) : Prop where
  proc : t.proc = k.proc
  inode : t.inode = if ip then ⟨k.inode.ref + 1, true⟩ else k.inode
  ops : t.ops = if ip then k.ops + 1 else k.ops

theorem Within.quiet {ip : Bool} {k t u : Kernel} (h : Within ip k t) (hq : Quiet t u) :
    Within ip k u :=
  ⟨hq.proc.trans h.proc, hq.inode.trans h.inode, hq.ops.trans h.ops⟩

variable {k₀ : Kernel} {ip : Bool}

theorem Within.dropIp (hw : Within ip k₀ k) (hun : k₀.inode.locked = false) :
    Returns id (dropIp ip) k fun _ t => t.vm = k.vm ∧ Within false k₀ t := by
  cases ip with
  | false => exact Code.returns_pure.2 ⟨rfl, hw⟩
  | true =>
    have hinode := hw.inode
    have hops := hw.ops
    rw [if_pos rfl] at hinode hops
    unfold Exec.dropIp iunlockput
    refine Returns.bind (Q := fun _ t => t = { k with inode := k₀.inode }) ?_ fun _ t ht => ?_
    · rw [Code.returns_get_bind, hinode, if_neg (by simp), Code.returns_modify, hinode]
      change { k with inode := ⟨k₀.inode.ref + 1 - 1, false⟩ } = _
      rw [Nat.add_sub_cancel, ← hun]
    · subst ht
      unfold end_op
      rw [Code.returns_modify]
      refine ⟨rfl, hw.proc, rfl, ?_⟩
      change k.ops - 1 = k₀.ops
      rw [hops, Nat.add_sub_cancel]

/-- All the frames are free again, and all else is as before. -/
theorem Sound.failed {t : Kernel} (hk : Sound L k₀) (hw : Within false k₀ t)
    (hf : Freed k₀.vm.freelist k₀.vm t.vm) : Failed k₀ t where
  proc := hw.proc
  memory v hv := by
    unfold Kernel.userPage
    rw [hw.proc, hf.spaces _ hk.dir]
    cases hsp : k₀.vm.space k₀.proc.pgdir with
    | none => rfl
    | some sp =>
      cases he : sp.pte v with
      | none => simp only [Option.bind_some, he, Option.map_none]
      | some e =>
        simp only [Option.bind_some, he, Option.map_some]
        rw [hf.mem _ (hk.pages sp v e hsp hv he)]
  others f hfree := ⟨hf.mem f hfree, hf.spaces f hfree⟩
  free := Multiset.coe_eq_coe.1 hf.frames
  inode := hw.inode
  ops := hw.ops

theorem Sound.dropped (hk : Sound L k₀) (hw : Within ip k₀ k) (hf : Freed k₀.vm.freelist k₀.vm k.vm) :
    Returns id (do dropIp ip; return -1 : X Int) k fun r t => r = -1 ∧ Failed k₀ t := by
  refine (hw.dropIp hk.unlocked).bind fun _ t ⟨hvm, ht⟩ => ?_
  exact Code.returns_pure.2 ⟨rfl, hk.failed ht (by rwa [hvm])⟩

/-- **The label `bad`**, once there is a page directory. -/
theorem Sound.bad (hk : Sound L k₀) (hw : Within ip k₀ k)
    (hs : Holds k₀.vm.freelist k₀.vm 0 d sp k.vm) :
    Returns id (bad L (some d) ip) k fun r t => r = -1 ∧ Failed k₀ t := by
  unfold Exec.bad
  refine (frames_returns (hs.freevm hk.free)).bind fun _ t ⟨hf, hq, _⟩ => ?_
  exact hk.dropped (hw.quiet hq) hf

/-- And before. -/
theorem Sound.bad_none (hk : Sound L k₀) (hw : Within ip k₀ k)
    (hf : Freed k₀.vm.freelist k₀.vm k.vm) :
    Returns id (Exec.bad L none ip) k fun r t => r = -1 ∧ Failed k₀ t :=
  hk.dropped hw hf

/-! ## The commit -/

/-- The panics of `freevm`. -/
def Loss (msg : String) : Prop := msg = "kfree" ∨ msg = "trap"

theorem pgdir_ends (d : Nat) (s : Vm) : Ends id (pgdir d) s Loss fun _ _ => True := by
  unfold pgdir
  rw [Code.ends_get_bind]
  cases s.space d with
  | none => exact Code.ends_panic _ |>.2 (Or.inr rfl)
  | some sp => exact Code.ends_pure _ |>.2 trivial

theorem kfree_ends (L : Link) (f : Nat) (s : Vm) : Ends id (kfree L f) s Loss fun _ _ => True := by
  unfold kfree
  by_cases hf : L.kend ≤ f ∧ f < PHYSPAGES
  · rw [if_pos hf]
    exact Code.ends_modify _ |>.2 trivial
  · rw [if_neg hf]
    exact Code.ends_panic _ |>.2 (Or.inl rfl)

theorem deallocPage_ends (L : Link) (d v : Nat) (s : Vm) :
    Ends id (deallocPage L d v) s Loss fun _ _ => True := by
  unfold deallocPage walkpgdir
  refine Ends.bind (Q := fun _ _ => True) ?_ fun r t _ => ?_
  · exact (pgdir_ends d s).bind fun sp t _ => Code.ends_pure _ |>.2 trivial
  · cases r with
    | false => exact Code.ends_pure _ |>.2 trivial
    | true =>
      rw [if_pos rfl]
      refine (pgdir_ends d t).bind fun sp u _ => ?_
      cases sp.pte v with
      | none => exact Code.ends_pure _ |>.2 trivial
      | some e =>
        refine (kfree_ends L e.frame u).bind fun _ w _ => ?_
        rw [Code.ends_modify_bind]
        exact Code.ends_pure _ |>.2 trivial

theorem deallocLoop_ends (L : Link) (d hi : Nat) :
    ∀ (n v : Nat) (s : Vm), Ends id (deallocLoop L d hi n v) s Loss fun _ _ => True := by
  intro n
  induction n with
  | zero => exact fun v s => Code.ends_pure _ |>.2 trivial
  | succ n ih =>
    intro v s
    unfold deallocLoop
    by_cases hv : v < hi
    · rw [if_pos hv]
      exact (deallocPage_ends L d v s).bind fun passed t _ => ih _ t
    · rw [if_neg hv]
      exact Code.ends_pure _ |>.2 trivial

theorem freeTables_ends (L : Link) (d : Nat) :
    ∀ (is : List Nat) (s : Vm), Ends id (freeTables L d is) s Loss fun _ _ => True := by
  intro is
  induction is with
  | nil => exact fun s => Code.ends_pure _ |>.2 trivial
  | cons i is ih =>
    intro s
    unfold freeTables
    refine (pgdir_ends d s).bind fun sp t _ => ?_
    cases sp.tab i with
    | none => exact ih t
    | some f => exact (kfree_ends L f t).bind fun _ u _ => ih u

theorem freevm_ends (L : Link) (d : Nat) (s : Vm) :
    Ends id (freevm L d) s Loss fun _ _ => True := by
  unfold freevm deallocuvm
  refine (deallocLoop_ends L d UPAGES UPAGES 0 s).bind fun _ t _ => ?_
  refine (freeTables_ends L d _ t).bind fun _ u _ => ?_
  rw [Code.ends_modify_bind]
  exact kfree_ends L d _

/-- A panic other than those of `mappages` and `loaduvm`. -/
def Allowed (msg : String) : Prop :=
  msg ≠ "remap" ∧ msg ≠ "loaduvm: addr must be page aligned" ∧
    msg ≠ "loaduvm: address should exist"

theorem Loss.allowed {msg : String} (h : Loss msg) : Allowed msg := by
  rcases h with rfl | rfl
  · exact ⟨by decide, by decide, by decide⟩
  · exact ⟨by decide, by decide, by decide⟩

theorem commit_ends (path : Str) (entry sz p : Word) :
    Ends id (commit L d path entry sz p) k Allowed fun r _ => r = 0 := by
  have hfree : ∀ t : Kernel, Ends id (Code.on frames (freevm L k.proc.pgdir)) t Allowed
      fun _ _ => True := fun t =>
    (frames_ends (freevm_ends L k.proc.pgdir t.vm)).mono (fun _ => Loss.allowed) fun _ _ _ => trivial
  unfold commit
  rw [Code.ends_get_bind, Code.ends_modify_bind]
  exact (hfree _).bind fun _ t _ => Code.ends_pure _ |>.2 rfl

/-! ## `exec` -/

theorem le_length (w : Word) : (le w).length = 4 := rfl

theorem ustack_length (p : Word) (ptrs : List Word) :
    (ustack p ptrs).length = (3 + ptrs.length + 1) * 4 := by
  unfold ustack
  rw [List.length_flatMap, List.map_congr_left fun w _ => le_length w, List.map_const',
    List.sum_replicate]
  simp only [List.length_append, List.length_cons, List.length_nil, smul_eq_mul]

/-- How `exec` ends. -/
def Outcome (k₀ : Kernel) (r : Int) (t : Kernel) : Prop := r = -1 ∧ Failed k₀ t ∨ r = 0

theorem Sound.frames_lt (hk : Sound L k₀) : ∀ cur e, k₀.vm.space k₀.proc.pgdir = some cur →
    cur.pte 0 = some e → e.frame ∉ (k₀.vm.freelist : Multiset Nat) :=
  fun cur e hcur he => hk.pages cur 0 e hcur (by decide) he

theorem Holds.needed_le {U : Nat → Prop} {top : Word} (hs : Holds F o 0 d sp k.vm)
    (hshape : Shape (Image (pagesUp top)) U sp) (htop : pagesUp top ≤ UPAGES) :
    needed top ≤ F.card := by
  have hcard := hs.card
  have htables := hshape.card_tables htop fun _ h => h
  rw [hshape.card_pages htop fun _ => image_low] at hcard
  unfold needed
  omega

theorem trap_allowed (msg : String) (h : msg = "trap") : Allowed msg := Loss.allowed (Or.inr h)

theorem finish_ends {path : Str} {argv : List Str} {entry sz : Word} (hk : Sound L k₀)
    (hw : Within false k₀ k) (hs : Holds k₀.vm.freelist k₀.vm 0 d sp k.vm)
    (hsz : sz.toNat < 0x80000000) (hshape : Shape (Image (pagesUp sz)) (· < pagesUp sz) sp)
    (hsafe : pgroundup sz + 0x2000 < 0x80000000 →
      needed (pgroundup sz + 0x2000) ≤ k₀.vm.freelist.length →
      inHole (pgroundup sz + 0x2000) 0 (pgroundup sz + 0x2000) argv = true →
      ∀ w, k₀.vm.nullWord k₀.proc.pgdir = some w → userEntry w = false) :
    Ends id (finish L d path argv entry sz) k Allowed (Outcome k₀) := by
  have hF : Valid L (k₀.vm.freelist : Multiset Nat) := hk.free
  have hround := pgroundup_toNat hsz.le
  have hpages : pagesUp (pgroundup sz) = pagesUp sz := by
    unfold pagesUp at hround ⊢
    omega
  -- the exits after the inode has been put
  have hbad : ∀ (sp' : Space) (t : Kernel), Within false k₀ t →
      Holds k₀.vm.freelist k₀.vm 0 d sp' t.vm →
      Ends id (bad L (some d) false) t Allowed (Outcome k₀) :=
    fun sp' t ht hs' => (hk.bad ht hs').ends.mono (fun _ h => h) fun _ _ h => Or.inl h
  generalize htop : pgroundup sz + 0x2000 = top at hsafe
  have htop' : top.toNat = (pagesUp sz + 2) * 4096 := by
    have hle : pagesUp sz ≤ UPAGES := pagesUp_le hsz.le
    unfold UPAGES at hle
    rw [← htop, BitVec.toNat_add, hround, show BitVec.toNat (0x2000 : Word) = 8192 from rfl]
    omega
  have hpages' : pagesUp top = pagesUp sz + 2 := by
    conv_lhs => unfold pagesUp
    omega
  unfold finish
  rw [htop]
  rw [← hpages] at hshape
  refine (frames_returns (hs.allocuvm _ _ hF hshape)).bind_ends fun r t ⟨ht, hq, _⟩ => ?_
  rcases ht with ⟨hbig, hr, sp1, hs1, hshape1⟩ | ⟨rfl, _, sp1, hs1⟩
  · have hless : ¬ top < pgroundup sz := by
      rw [BitVec.lt_def, htop', hround]
      omega
    rw [if_neg hless] at hr
    subst hr
    have hne : r ≠ 0 := by
      intro h0
      rw [h0] at htop'
      change 0 = _ at htop'
      omega
    have hlow : pagesUp r ≤ UPAGES := pagesUp_le (BitVec.lt_def.1 hbig).le
    have hguard : (r - 0x2000).toNat / 4096 = pagesUp sz := by
      rw [BitVec.toNat_sub, htop', show BitVec.toNat (0x2000 : Word) = 8192 from rfl]
      unfold UPAGES at hlow
      omega
    rw [if_neg hne, hguard]
    refine (frames_returns (hs1.clearpteu (v := pagesUp sz) hshape1 (Or.inl (by omega))
      (by omega))).bind_ends fun _ u ⟨⟨sp2, hs2, hshape2⟩, hq2, _⟩ => ?_
    have hneeded : needed r ≤ k₀.vm.freelist.length := hs2.needed_le hshape2 hlow
    rw [hpages'] at hlow hshape2
    -- `clearpteu` has made the lower of the two pages the guard page
    have hst : Stack (pagesUp sz + 2) sp2 :=
      ⟨by omega, hlow, hshape2.congr (fun _ => Iff.rfl) fun x hx => ⟨hx.1, by omega⟩⟩
    have hwu : Within false k₀ u := (hw.quiet hq).quiet hq2
    refine ((pushArgs_ends hF hst htop' hk.dir hk.frames_lt argv [] r u hs2
      (by rw [hwu.proc]) (Nat.zero_le _) (by omega) htop'.le (hsafe hbig hneeded)).mono
      trap_allowed fun _ _ h => h).bind fun res w ⟨hs3, hq3, hpushed⟩ => ?_
    have hww : Within false k₀ w := hwu.quiet hq3
    cases res with
    | none => exact hbad sp2 w hww hs3
    | some res =>
      obtain ⟨p, ptrs⟩ := res
      obtain ⟨hmax, hplow, hp⟩ := hpushed p ptrs rfl
      unfold MAXARG at hmax
      -- the page of the stack leaves room for `ustack`, above the guard page or in it
      have hsp : (p - BitVec.ofNat 32 ((3 + ptrs.length + 1) * 4)).toNat =
          p.toNat - (3 + ptrs.length + 1) * 4 := by
        rw [BitVec.toNat_sub, BitVec.toNat_ofNat]
        have hlt := p.isLt
        omega
      have hn : pagesUp sz + 2 ≤ UPAGES := hlow
      have hcopy : Returns id (copyoutProc L d (p - BitVec.ofNat 32 ((3 + ptrs.length + 1) * 4))
          (ustack p ptrs)) w fun _ x => Holds k₀.vm.freelist k₀.vm 0 d sp2 x.vm ∧ Quiet w x := by
        refine (frames_returns (Holds.copyout_low hF hst.shape hn w.proc.pgdir _ _ _ _ le_rfl ?_
          hs3)).mono fun _ x ⟨hx, hqx, _⟩ => ⟨hx.1, hqx⟩
        rw [hsp, ustack_length]
        omega
      refine hcopy.bind_ends fun done x ⟨hx, hqx⟩ => ?_
      cases done with
      | false => exact hbad sp2 x (hww.quiet hqx) hx
      | true => exact (commit_ends path entry r _).mono (fun _ h => h) fun _ _ h => Or.inr h
  · rw [if_pos rfl]
    exact hbad sp1 t (hw.quiet hq) hs1

/-- What a failure and a success of `exec` say. -/
def Ended (f : File) (k₀ : Kernel) (r : Int) (t : Kernel) : Prop :=
  r = -1 ∧ Failed k₀ t ∨ r = 0 ∧ f.mode &&& 4 ≠ 0

theorem load_ends {f : File} {path : Str} {argv : List Str} (hk : Sound L k₀)
    (hw : Within true k₀ k) (hvm : k.vm = k₀.vm) (hreads : k.reads = k₀.reads)
    (hsafe : ∀ top, f.image k₀.reads = some top → needed top ≤ k₀.vm.freelist.length →
      inHole top 0 top argv = true →
      ∀ w, k₀.vm.nullWord k₀.proc.pgdir = some w → userEntry w = false) :
    Ends id (load L f path argv) k Allowed (Ended f k₀) := by
  have hF : Valid L (k₀.vm.freelist : Multiset Nat) := hk.free
  -- the exits without a page directory
  have hearly : ∀ t : Kernel, Within true k₀ t → Freed k₀.vm.freelist k₀.vm t.vm →
      Ends id (bad L none true) t Allowed (Ended f k₀) :=
    fun t ht hf => (hk.bad_none ht hf).ends.mono (fun _ h => h) fun _ _ h => Or.inl h
  have hsame : ∀ t : Kernel, t.vm = k₀.vm → Freed k₀.vm.freelist k₀.vm t.vm :=
    fun t ht => by rw [ht]; exact ⟨rfl, fun _ _ => rfl, fun _ _ => rfl⟩
  unfold load
  by_cases hmode : f.mode &&& 4 = 0
  · rw [if_pos hmode]
    exact hearly k hw (hsame k hvm)
  rw [if_neg hmode]
  refine Ends.bind_run (readAll_run f 0 ELFSIZE) ?_
  have hw1 : Within true k₀ { k with reads := k.reads + 1 } := ⟨hw.proc, hw.inode, hw.ops⟩
  cases hread : f.readAll k.reads 0 ELFSIZE with
  | none => exact hearly _ hw1 (hsame _ hvm)
  | some bs =>
    by_cases hmagic : (elfhdr bs).magic = ELF_MAGIC
    · simp only [hmagic, ne_eq, not_true_eq_false, if_false]
      rw [← hvm] at hF
      refine (frames_returns (k := { k with reads := k.reads + 1 }) (setupkvm_returns hF)).bind_ends
        fun r t ⟨ht, hq, hcount⟩ => ?_
      rw [hvm] at hF
      rw [show ({ k with reads := k.reads + 1 } : Kernel).vm = k₀.vm from hvm] at ht
      have hwt : Within true k₀ t := hw1.quiet hq
      cases r with
      | none => exact hearly t hwt ht.1
      | some d =>
        obtain ⟨sp, hs, hshape⟩ := ht
        refine (loadSegments_returns hF _ (elfhdr bs).phoff 0 sp t (by decide) hs
          (hshape.congr (fun _ => Iff.rfl) fun _ h => h.elim)).bind_ends
          fun res u ⟨sp1, hs1, hq1, hall⟩ => ?_
        have hwu : Within true k₀ u := hwt.quiet hq1
        cases res with
        | none => exact (hk.bad hwu hs1).ends.mono (fun _ h => h) fun _ _ h => Or.inl h
        | some sz =>
          obtain ⟨hsz, hshape1, hseg⟩ := hall sz rfl
          refine (hwu.dropIp hk.unlocked).bind_ends fun _ w ⟨hvm2, hww⟩ => ?_
          rw [← hvm2] at hs1
          refine (finish_ends hk hww hs1 hsz hshape1 fun hbig => hsafe _ ?_).mono (fun _ h => h)
            fun r x h => h.imp id fun hr => ⟨hr, hmode⟩
          -- so the size is that of `File.image`, and the condition applies
          rw [hcount, hreads] at hseg
          rw [hreads] at hread
          unfold File.image
          rw [if_neg hmode, hread]
          simp only [hmagic, ne_eq, not_true_eq_false, if_false, hseg, Option.bind_some]
          exact if_pos hbig
    · simp only [ne_eq, hmagic, not_false_eq_true, if_true]
      exact hearly _ hw1 (hsame _ hvm)

/-- **`exec` fails cleanly**: on -1 nothing has changed but free frames, on 0 the file was
executable, and `mappages` and `loaduvm` do not panic. -/
def Clean (L : Link) (namei : List Byte → Option File) (path : Str) (argv : List Str)
    (k : Kernel) : Prop :=
  Ends id (exec L namei path argv) k Allowed fun r t =>
    r = -1 ∧ Failed k t ∨ r = 0 ∧ ∃ f, namei path.bytes = some f ∧ f.mode &&& 4 ≠ 0

theorem exec_clean {namei : List Byte → Option File} {path : Str} {argv : List Str}
    (hk : Sound L k) (hstray : ¬ Stray namei path argv k) : Clean L namei path argv k := by
  unfold Clean exec begin_op lookup
  rw [Code.ends_modify_bind]
  cases hfile : namei path.bytes with
  | none =>
    refine Ends.bind_run (t := { k with ops := k.ops + 1 }) rfl ?_
    unfold end_op
    rw [Code.ends_modify_bind, Code.ends_pure]
    have hw : Within false k { k with ops := k.ops + 1 - 1 } := ⟨rfl, rfl, rfl⟩
    exact Or.inl ⟨rfl, hk.failed hw ⟨rfl, fun _ _ => rfl, fun _ _ => rfl⟩⟩
  | some f =>
    refine Ends.bind_run (a := some f) (t := { k with
      ops := k.ops + 1
      inode := { k.inode with ref := k.inode.ref + 1 } }) rfl ?_
    unfold ilock
    refine Ends.bind_run (a := ()) (t := { k with
      ops := k.ops + 1
      inode := ⟨k.inode.ref + 1, true⟩ }) rfl ?_
    have hw : Within true k { k with
        ops := k.ops + 1
        inode := ⟨k.inode.ref + 1, true⟩ } := ⟨rfl, rfl, rfl⟩
    refine (load_ends hk hw rfl rfl fun top himage hneeded hin w hw => ?_).mono
      (fun _ h => h) fun r t h => h.imp id fun ⟨hr, hmode⟩ => ⟨hr, f, rfl, hmode⟩
    by_contra hu
    exact hstray ⟨f, top, w, hfile, himage, hneeded, hin, hw, by simpa using hu⟩

/-! ## A string of 32 MB -/

/-- An executable without segments. -/
def bare : File where
  mode := 7
  dev := none
  size := 52
  data i := [0x7F, 0x45, 0x4C, 0x46].getD i 0

/-- The argument: that many times the letter `a`. -/
def long : Str where
  bytes := List.replicate 33562627 0x61
  nul h := absurd (List.mem_replicate.1 h).2 (by decide)
  below := by
    rw [List.length_replicate]
    decide

def link : Link := ⟨0x200, 0x400, by decide, by decide, by decide⟩

/-- The caller has 8400 pages. -/
def callerSpace : Space where
  tab i :=
    if i < 9 ∨ 512 ≤ i ∧ i < 568 ∨ 1016 ≤ i ∧ i < 1024 then some (0x2100 + i) else none
  pte v :=
    if v < 8400 then some ⟨0x3000 + v, true⟩
    else if UPAGES ≤ v ∧ v < UPAGES + PHYSPAGES then some ⟨v - UPAGES, false⟩
    else if 0xFE000 ≤ v ∧ v < 0x100000 then some ⟨v, false⟩
    else none

/-- The word at address 0 is a page table entry with `PTE_P`, `PTE_W` and `PTE_U` for the frame
of page 1. The string is in the pages from 2 on. -/
def caller : Kernel where
  vm :=
    { freelist := List.range' 0x8000 2000
      mem f i :=
        if f = 0x3000 then [0x07, 0x10, 0x00, 0x03].getD i 0
        else if 0x3002 ≤ f ∧ (f - 0x3002) * 4096 + i < 33562627 then 0x61 else 0
      space f := if f = 0x2000 then some callerSpace else none }
  proc := ⟨0x2000, 8400 * 4096, [0x73, 0x68], ⟨0, 0⟩⟩
  inode := ⟨0, false⟩
  ops := 0
  reads := 0

theorem caller_sound : Sound link caller where
  free f hf := by
    have h := List.mem_range'_1.1 hf
    unfold PHYSPAGES
    change 0x400 ≤ f ∧ _
    omega
  dir hf := by
    have h := List.mem_range'_1.1 hf
    change 0x8000 ≤ 0x2000 ∧ _ at h
    omega
  pages sp v e hsp hv he hf := by
    have h := List.mem_range'_1.1 hf
    obtain rfl : callerSpace = sp := Option.some.inj hsp
    unfold callerSpace at he
    by_cases hlow : v < 8400
    · obtain rfl := Option.some.inj ((if_pos hlow).symm.trans he)
      change 0x8000 ≤ 0x3000 + v ∧ _ at h
      omega
    · have hdev : ¬ (0xFE000 ≤ v ∧ v < 0x100000) := by
        unfold UPAGES at hv
        omega
      dsimp only at he
      rw [if_neg hlow, if_neg fun hker => absurd hker.1 (Nat.not_le.2 hv), if_neg hdev] at he
      cases he
  unlocked := rfl

theorem caller_free : 0x3001 ∉ caller.vm.freelist := by
  intro h
  have hrange := List.mem_range'_1.1 h
  omega

theorem caller_word : caller.vm.nullWord caller.proc.pgdir = some 0x03001007 := by
  decide

theorem long_bytes : long.bytes = List.replicate 33562627 0x61 := rfl

/-- The string is placed at the end of the hole. -/
theorem long_place : place 0x2000 long.bytes.length = 0xFDFFFFFC := by
  rw [long_bytes, List.length_replicate]
  decide

/-- With an empty image the stack is page 1, and the first four letters of the string go where
the word at address 0 points to. -/
theorem pushArgs_long (hs : Holds F o 0 d sp k.vm)
    (hshape : Shape (Image 2) (fun x => x < 2 ∧ x ≠ 0) sp)
    (hword : k.vm.nullWord k.proc.pgdir = some 0x03001007) :
    Returns id (pushArgs link d [] 0x2000 [long]) k fun r t => r = none ∧ Quiet k t ∧
      t.vm = k.vm.setMem 0x3001 (overlay (k.vm.mem 0x3001) 4092 [0x61, 0x61, 0x61, 0x61]) := by
  have hlength : (long.bytes ++ [0]).length = 33562626 + 2 := by
    rw [List.length_append, long_bytes, List.length_replicate, List.length_singleton]
  have htake : (long.bytes ++ [0]).take 4 = [0x61, 0x61, 0x61, 0x61] := by
    rw [long_bytes, List.take_append_of_le_length (by rw [List.length_replicate]; decide),
      List.take_replicate]
    rfl
  unfold pushArgs
  rw [if_neg (by decide), long_place]
  have hcopy : Returns id (copyoutProc link d 0xFDFFFFFC (long.bytes ++ [0])) k fun r t =>
      (r = false ∧ t.vm = k.vm.setMem 0x3001
        (overlay (k.vm.mem 0x3001) 4092 [0x61, 0x61, 0x61, 0x61])) ∧ Quiet k t := by
    unfold copyoutProc
    rw [Code.returns_get_bind, hlength]
    have hpage : ((0xFDFFFFFC : Word)).toNat / 4096 = 0xFDFFF := by decide
    have hfirst : 4096 - (0xFDFFFFFC : Word).toNat % 4096 < (long.bytes ++ [0]).length := by
      rw [hlength]
      decide
    have hstray := hs.copyout_stray (L := link) (f := 0x3001) 33562626 hshape (by decide)
      (fun _ hx => hx.1) hword (by decide) (by decide) (by decide) (by decide) hpage hfirst
    rw [show (0xFDFFFFFC : Word).toNat % 4096 = 4092 by decide, htake] at hstray
    exact (frames_returns hstray).mono fun _ _ h => ⟨h.1, h.2.1⟩
  refine hcopy.bind fun r t ⟨⟨hr, hvm⟩, hq⟩ => ?_
  subst hr
  rw [if_neg Bool.false_ne_true]
  exact Code.returns_pure.2 ⟨rfl, hq, hvm⟩

/-- From the stack on, when the strings do not all get on it: what they have left in other
frames is not undone by `freevm`. -/
theorem finish_bare {o : Vm} {path : Str} {argv : List Str} {entry : Word} (hk : Sound link k₀)
    (hw : Within false k₀ k) (hs : Holds k₀.vm.freelist k₀.vm 0 d sp k.vm)
    (hshape : Shape (Image 0) (· < 0) sp) (hcard : 1040 ≤ k₀.vm.freelist.length)
    (hpush : ∀ d sp u, Within false k₀ u → Holds k₀.vm.freelist k₀.vm 0 d sp u.vm → Stack 2 sp →
      Returns id (pushArgs link d [] 0x2000 argv) u fun r t => r = none ∧ Quiet u t ∧
        Holds k₀.vm.freelist o 0 d sp t.vm) :
    Returns id (finish link d path argv entry 0) k fun r t => r = -1 ∧
      Freed k₀.vm.freelist o t.vm := by
  have hF : Valid link (k₀.vm.freelist : Multiset Nat) := hk.free
  unfold finish
  rw [show pgroundup (0 : Word) = 0 by decide, show (0 : Word) + 0x2000 = 0x2000 by decide]
  refine (frames_returns (hs.allocuvm 0 0x2000 hF hshape)).bind
    fun r t ⟨ht, hq, _⟩ => ?_
  rcases ht with ⟨_, hr, sp1, hs1, hshape1⟩ | ⟨_, hlarge, _⟩
  · obtain rfl : r = 0x2000 := hr.trans (by decide)
    rw [if_neg (by decide), show ((0x2000 : Word) - 0x2000).toNat / 4096 = 0 by decide]
    refine (frames_returns (hs1.clearpteu (v := 0) hshape1 (Or.inl (by decide))
      (by decide))).bind fun _ u ⟨⟨sp2, hs2, hshape2⟩, hq2, _⟩ => ?_
    have hwu : Within false k₀ u := (hw.quiet hq).quiet hq2
    refine (hpush d sp2 u hwu hs2 ⟨le_rfl, by decide, hshape2⟩).bind fun res w ⟨hres, hq3, hs3⟩ => ?_
    subst hres
    unfold bad
    refine (frames_returns (hs3.freevm hF)).bind fun _ x ⟨hfreed, hq4, _⟩ => ?_
    refine (((hwu.quiet hq3).quiet hq4).dropIp hk.unlocked).bind fun _ y ⟨hvm2, _⟩ => ?_
    refine Code.returns_pure.2 ⟨rfl, ?_⟩
    rw [hvm2]
    exact hfreed
  · have hle := hlarge (by decide)
    change k₀.vm.freelist.length ≤ 1028 at hle
    omega

theorem bare_read : bare.readAll 0 0 ELFSIZE = some ((List.range 52).map bare.data) := by
  decide

theorem load_bare {o : Vm} {path : Str} {argv : List Str} (hk : Sound link k₀)
    (hw : Within true k₀ k) (hvm : k.vm = k₀.vm) (hreads : k.reads = 0)
    (hcard : 1040 ≤ k₀.vm.freelist.length)
    (hpush : ∀ d sp u, Within false k₀ u → Holds k₀.vm.freelist k₀.vm 0 d sp u.vm → Stack 2 sp →
      Returns id (pushArgs link d [] 0x2000 argv) u fun r t => r = none ∧ Quiet u t ∧
        Holds k₀.vm.freelist o 0 d sp t.vm) :
    Returns id (load link bare path argv) k fun r t => r = -1 ∧
      Freed k₀.vm.freelist o t.vm := by
  have hF : Valid link (k₀.vm.freelist : Multiset Nat) := hk.free
  unfold load
  rw [if_neg (by decide)]
  refine Returns.bind_run (readAll_run bare 0 ELFSIZE) ?_
  rw [hreads, bare_read]
  have hw1 : Within true k₀ { k with reads := 0 + 1 } := ⟨hw.proc, hw.inode, hw.ops⟩
  change Returns id (if (elfhdr ((List.range 52).map bare.data)).magic ≠ ELF_MAGIC then _ else _) _ _
  rw [if_neg (by decide)]
  rw [← hvm] at hF
  refine (frames_returns (k := { k with reads := 0 + 1 }) (setupkvm_returns hF)).bind
    fun r t ⟨ht, hq, _⟩ => ?_
  rw [hvm] at hF
  rw [show ({ k with reads := 0 + 1 } : Kernel).vm = k₀.vm from hvm] at ht
  cases r with
  | none =>
    have hfew := ht.2
    omega
  | some d =>
    obtain ⟨sp, hs, hshape⟩ := ht
    rw [show (elfhdr ((List.range 52).map bare.data)).phnum.toNat = 0 by decide]
    refine Returns.bind_run (a := some 0) (t := t) rfl ?_
    refine ((hw1.quiet hq).dropIp hk.unlocked).bind fun _ u ⟨hvm2, hwu⟩ => ?_
    rw [← hvm2] at hs
    exact finish_bare hk hwu hs (hshape.congr (fun _ => Iff.rfl) fun _ h => h.elim) hcard hpush

/-- The path `x`. -/
def path : Str := ⟨[0x78], by decide, by decide⟩

theorem exec_bare {o : Vm} {l : List Str}
    (hpush : ∀ d sp u, Within false caller u →
      Holds caller.vm.freelist caller.vm 0 d sp u.vm → Stack 2 sp →
      Returns id (pushArgs link d [] 0x2000 l) u fun r t => r = none ∧ Quiet u t ∧
        Holds caller.vm.freelist o 0 d sp t.vm) :
    Returns id (exec link (fun _ => some bare) path l) caller fun r t => r = -1 ∧
      Freed caller.vm.freelist o t.vm := by
  unfold exec begin_op lookup
  rw [Code.returns_modify_bind]
  refine Returns.bind_run (a := some bare) (t := { caller with
    ops := 1
    inode := ⟨1, false⟩ }) rfl ?_
  refine Returns.bind_run (a := ()) (t := { caller with
    ops := 1
    inode := ⟨1, true⟩ }) rfl ?_
  have hw : Within true caller { caller with
      ops := 1
      inode := ⟨1, true⟩ } := ⟨rfl, rfl, rfl⟩
  exact load_bare caller_sound hw rfl rfl (by rw [caller, List.length_range']; decide) hpush

/-! ## A string that reaches the guard page -/

/-- The name of a program. -/
def ls : Str := ⟨[0x6C, 0x73], by decide, by decide⟩

/-- A string that is longer than a page. -/
def big : Str where
  bytes := List.replicate 5000 0x61
  nul h := absurd (List.mem_replicate.1 h).2 (by decide)
  below := by
    rw [List.length_replicate]
    decide

theorem big_place : place 0x1FFC big.bytes.length = 0xC70 := by
  rw [show big.bytes = List.replicate 5000 0x61 from rfl, List.length_replicate]
  decide

/-- The second string does not get on the stack. -/
theorem pushArgs_big {F : Multiset Nat} {o : Vm} (hF : Valid link F) (hs : Holds F o 0 d sp k.vm)
    (hst : Stack 2 sp) : Returns id (pushArgs link d [] 0x2000 [ls, big]) k fun r t =>
      r = none ∧ Quiet k t ∧ Holds F o 0 d sp t.vm := by
  have hcopy : ∀ {va : Word} {bs : List Byte} {k : Kernel}, va.toNat + bs.length ≤ 2 * 4096 →
      Holds F o 0 d sp k.vm → Returns id (copyoutProc link d va bs) k fun r t =>
        (r = true → ∀ i, i < bs.length → (va.toNat + i) / 4096 < 2 ∧ (va.toNat + i) / 4096 ≠ 0) ∧
          Quiet k t ∧ Holds F o 0 d sp t.vm := fun hva hs =>
    (frames_returns (Holds.copyout_low hF hst.shape hst.low _ _ _ _ _ le_rfl hva hs)).mono
      fun _ _ h => ⟨h.1.2, h.2.1, h.1.1⟩
  unfold pushArgs
  rw [if_neg (by decide), show place 0x2000 ls.bytes.length = 0x1FFC by decide]
  refine (hcopy (by decide) hs).bind fun r t ⟨_, hq, ht⟩ => ?_
  cases r with
  | false => exact Code.returns_pure.2 ⟨rfl, hq, ht⟩
  | true =>
    rw [if_pos rfl]
    unfold pushArgs
    rw [if_neg (by decide), big_place]
    have hlen : (big.bytes ++ [0]).length = 5001 := by
      rw [List.length_append, show big.bytes = List.replicate 5000 0x61 from rfl,
        List.length_replicate]
      rfl
    refine (hcopy (by rw [hlen]; decide) ht).bind fun r u ⟨hall, hq2, hu⟩ => ?_
    cases r with
    | false => exact Code.returns_pure.2 ⟨rfl, hq.trans hq2, hu⟩
    | true =>
      -- its first byte would be in the guard page
      have hguard := hall rfl 0 (by rw [hlen]; decide)
      exact absurd rfl hguard.2

/-- Both strings are placed in user memory, although the word at address 0 is an entry. -/
theorem big_not_stray : ¬ Stray (fun _ => some bare) path [ls, big] caller := by
  rintro ⟨f, top, w, hf, htop, _, hhole, _⟩
  obtain rfl := Option.some.inj hf
  obtain rfl : (0x2000 : Word) = top := Option.some.inj htop
  have hls : place 0x2000 ls.bytes.length = 0x1FFC := by decide
  simp only [inHole, hls, big_place] at hhole
  exact absurd hhole (by decide)

/-- The second argument is too long: the exit after the image has been built and the first
argument is on the stack. -/
theorem exec_clean_big : ∃ t, (exec link (fun _ => some bare) path [ls, big]).run id caller =
    .ok (-1, t) ∧ Failed caller t := by
  obtain ⟨r, t, hm, hr, _⟩ := exec_bare (o := caller.vm) (l := [ls, big])
    fun d sp u _ hs hst => pushArgs_big caller_sound.free hs hst
  subst hr
  refine ⟨t, hm, ?_⟩
  rcases (exec_clean caller_sound big_not_stray).1 _ _ hm with ⟨_, hfailed⟩ | ⟨h0, _⟩
  · exact hfailed
  · exact absurd h0 (by decide)

/-! ## The string goes astray -/

theorem exec_long : Returns id (exec link (fun _ => some bare) path [long]) caller fun r t => r = -1 ∧
    t.vm.mem 0x3001 = overlay (caller.vm.mem 0x3001) 4092 [0x61, 0x61, 0x61, 0x61] := by
  refine (exec_bare (o := caller.vm.setMem 0x3001
    (overlay (caller.vm.mem 0x3001) 4092 [0x61, 0x61, 0x61, 0x61])) fun d sp u hw hs hst => ?_).mono
    fun r t ⟨hr, hfreed⟩ => ⟨hr, ?_⟩
  · have hword := (hs.nullWord caller_sound.dir caller_sound.frames_lt).trans caller_word
    rw [← hw.proc] at hword
    refine (pushArgs_long hs hst.shape hword).mono fun r t ⟨hr, hq, hvm⟩ => ⟨hr, hq, ?_⟩
    rw [hvm, hs.mem _ caller_free]
    exact hs.setMem_other _
  · rw [hfreed.mem _ caller_free, Vm.setMem_mem, Function.update_self]

/-- **The slip.** `exec` returns -1, and four bytes of page 1 of the caller are letters of the
argument. -/
theorem long_argument :
    Sound link caller ∧ ¬ Clean link (fun _ => some bare) path [long] caller := by
  refine ⟨caller_sound, fun hclean => ?_⟩
  obtain ⟨r, t, hm, hr, hmem⟩ := exec_long
  rcases hclean.1 r t hm with ⟨_, hfailed⟩ | ⟨h0, _⟩
  · have hsame := (hfailed.others 0x3001 caller_free).1
    rw [hmem] at hsame
    exact absurd (congrFun hsame 4092) (by decide)
  · rw [hr] at h0
    exact absurd h0 (by decide)

end Xv6.Shell.Exec
