/-
`malloc` on the heap (`umalloc.c`).

`malloc` goes once around the ring. A free block that is large enough it takes whole, or cuts;
if there is none it gets a block from the kernel, frees it, and finds it on the second round.
It never asks the kernel twice.
-/
import Xv6.User.Heap

set_option autoImplicit false

namespace Xv6.User

open Xv6.Lib Xv6.Mkfs

variable {base start : Nat} {s t : Process} {l pre post : List Block} {b c d w : Block} {x k : Nat}

namespace Inv

/-- The node that points to a free block is the last one below it. -/
theorem prev (h : Inv base start s l) (hc : c ∈ holes l) (hw : w ∈ nodes base l)
    (hp : ptr s.mem w.addr = c.addr) :
    ∃ pre post u, l = pre ++ c :: post ∧ nodes base pre = u ++ [w] := by
  obtain ⟨hcl, hcf⟩ := mem_holes.1 hc
  obtain ⟨u, v, huv⟩ := List.append_of_mem hw
  have hnext := (huv ▸ h.ring).next_eq
  obtain ⟨v', rfl⟩ : ∃ v', v = c :: v' := by
    cases v with
    | nil =>
      have := h.base_lt hcl
      have : base = c.addr := hnext.trans hp
      unfold HEADER at *
      omega
    | cons z v' =>
      have hz : z ∈ nodes base l := huv ▸ List.mem_append_right u (by simp)
      have hzc : z.addr = c.addr := hnext.trans hp
      obtain rfl := h.inj (mem_cons_of_node hz) (List.mem_cons_of_mem _ hcl) hzc
      exact ⟨v', rfl⟩
  obtain ⟨pre, post, rfl⟩ := List.append_of_mem hcl
  have hasc := h.ascending
  rw [nodes_append, holes_free hcf] at huv hasc
  have hasc' := List.pairwise_append.1 hasc
  refine ⟨pre, post, u, rfl, ?_⟩
  have huv' : nodes base pre ++ c :: holes post = (u ++ [w]) ++ c :: v' := by
    rw [huv, List.append_assoc]
    rfl
  refine ((List.append_cons_inj_of_notMem ?_ ?_).1 huv').1
  · exact fun hm => lt_irrefl _ (hasc'.2.2 c hm c List.mem_cons_self)
  · exact fun hm => lt_irrefl _ ((List.pairwise_cons.1 hasc'.2.1).1 c hm)

/-- The ring at a free block. -/
theorem ring_at (h : Inv base start s (pre ++ c :: post)) (hc : c.used = false) {u : List Block}
    (hw : nodes base pre = u ++ [w]) :
    nodes base (pre ++ c :: post) = u ++ w :: c :: holes post ∧
      (u ++ w :: c :: holes post).Pairwise fun b c => b.addr < c.addr := by
  have hnodes : nodes base (pre ++ c :: post) = u ++ w :: c :: holes post := by
    rw [nodes_append, holes_free hc, hw, List.append_assoc]
    rfl
  exact ⟨hnodes, hnodes ▸ h.ascending⟩

/-- The whole of a free block. -/
theorem takeAll (h : Inv base start s (pre ++ c :: post)) (hc : c.used = false) {u : List Block}
    (hw : nodes base pre = u ++ [w]) :
    Inv base start ⟨setPtr w.addr (ptr s.mem c.addr) s.mem, w.addr, s.sz⟩
        (pre ++ ⟨c.addr, c.n, true⟩ :: post) ∧
      ∀ d ∈ inUse pre ++ inUse post, ∀ x, d.addr ≤ x → x < d.stop →
        setPtr w.addr (ptr s.mem c.addr) s.mem x = s.mem x := by
  obtain ⟨hnodes, hasc⟩ := h.ring_at hc hw
  obtain ⟨hpre, hpost, hpos, hlast, -⟩ := tiled_append_cons.1 h.tiled
  have hwm := (h.mem_pre (mem_cons_of_node (last_mem hw))).1
  have hring := hnodes ▸ h.ring
  have honly := only_setPtr w.addr (ptr s.mem c.addr) s.mem
  have hkeep : ∀ d ∈ nodes base (pre ++ c :: post), d ≠ w →
      ptr (setPtr w.addr (ptr s.mem c.addr) s.mem) d.addr = ptr s.mem d.addr := fun d hd hdw =>
    honly.ptr (h.apart hwm (mem_cons_of_node hd) hdw.symm)
  have hsize : ∀ d ∈ (⟨base, 0, false⟩ :: (pre ++ c :: post) : List Block),
      size (setPtr w.addr (ptr s.mem c.addr) s.mem) d.addr = d.n := by
    intro d hd
    rw [← h.sizes d hd]
    by_cases hdw : d = w
    · rw [hdw]
      exact size_setPtr _ _ _
    · exact honly.size (h.apart hwm hd fun hwd => hdw hwd.symm)
  refine ⟨⟨h.base_pos, h.base_le, h.sz_lt, ?_, ?_, ?_, ?_⟩, ?_⟩
  · exact tiled_append_cons.2 ⟨hpre, hpost, hpos, fun y hy => Or.inl ((hlast y hy).left hc),
      fun z _ => Or.inl rfl⟩
  · rw [nodes_append, holes_used rfl, hw, List.append_assoc]
    refine hring.unlink (fun z hz => ?_) (fun z hz => ?_) (ptr_setPtr (ptr_lt _ _))
    · refine hkeep z (hnodes ▸ List.mem_append_left _ hz) ?_
      rintro rfl
      exact lt_irrefl _ ((List.pairwise_append.1 hasc).2.2 z hz z List.mem_cons_self)
    · refine hkeep z (hnodes ▸ by simp [hz]) ?_
      rintro rfl
      exact lt_irrefl _ ((List.pairwise_cons.1 (List.pairwise_append.1 hasc).2.1).1 z
        (List.mem_cons_of_mem c hz))
  · rw [← List.cons_append] at hsize ⊢
    obtain ⟨hbelow, hat⟩ := List.forall_mem_append.1 hsize
    exact List.forall_mem_append.2 ⟨hbelow, List.forall_mem_cons.2 (List.forall_mem_cons.1 hat)⟩
  · refine List.mem_map_of_mem ?_
    rw [nodes_append]
    exact List.mem_append_left _ (last_mem hw)
  · intro d hd x hx hx'
    obtain ⟨hdm, hdc, hdw⟩ := h.users (last_mem hw) hd
    exact honly x (h.outside hdm hwm hdw hx hx')

/-- The headers after a block is cut: those of its two parts, and the others. No byte of another
block changes. -/
theorem cut_headers (h : Inv base start s (pre ++ c :: post)) {r : Nat} (hr : c.n = r + k)
    (hrpos : 0 < r) (hk : 0 < k) {mem : Nat → Byte}
    (hmem : setSize (c.addr + r * HEADER) k (setSize c.addr r s.mem) = mem) :
    size mem c.addr = r ∧ ptr mem c.addr = ptr s.mem c.addr ∧
      size mem (c.addr + r * HEADER) = k ∧
      (∀ d ∈ (⟨base, 0, false⟩ :: (pre ++ c :: post) : List Block), d ≠ c →
        ptr mem d.addr = ptr s.mem d.addr ∧ size mem d.addr = d.n) ∧
      ∀ x, x < c.addr ∨ c.stop ≤ x → mem x = s.mem x := by
  subst hmem
  have hcm : c ∈ pre ++ c :: post := List.mem_append_right pre List.mem_cons_self
  have hend : c.addr + r * HEADER + k * HEADER = c.stop := by
    rw [Block.stop, hr, Nat.add_mul, Nat.add_assoc]
  have hr32 : r < 2 ^ 32 ∧ k < 2 ^ 32 := by
    have := h.stop_lt hcm
    unfold HEADER at hend
    omega
  have honly₁ := only_setSize c.addr r s.mem
  have honly₂ := only_setSize (c.addr + r * HEADER) k (setSize c.addr r s.mem)
  have hcut : Apart (c.addr + r * HEADER) c.addr := by
    unfold Apart HEADER
    omega
  refine ⟨?_, ?_, size_setSize hr32.2, fun d hd hdc => ?_, fun x hx => ?_⟩
  · rw [honly₂.size hcut, size_setSize hr32.1]
  · rw [honly₂.ptr hcut, ptr_setSize]
  · have hd₁ := h.apart (List.mem_cons_of_mem _ hcm) hd hdc.symm
    have hd₂ : Apart (c.addr + r * HEADER) d.addr := by
      rcases h.sep hcm hd hdc.symm with hle | hle
      · left
        unfold HEADER at *
        omega
      · exact Or.inr (hle.trans (Nat.le_add_right _ _))
    rw [honly₂.ptr hd₂, honly₁.ptr hd₁, honly₂.size hd₂, honly₁.size hd₁]
    exact ⟨rfl, h.sizes d hd⟩
  · have hx₁ : x < c.addr ∨ c.addr + HEADER ≤ x := by
      unfold HEADER at *
      omega
    have hx₂ : x < c.addr + r * HEADER ∨ c.addr + r * HEADER + HEADER ≤ x := by
      unfold HEADER at *
      omega
    exact (honly₂ x hx₂).trans (honly₁ x hx₁)

/-- The last `k` headers of a free block. -/
theorem takeEnd (h : Inv base start s (pre ++ c :: post)) (hc : c.used = false) {u : List Block}
    (hw : nodes base pre = u ++ [w]) {r : Nat} (hr : c.n = r + k) (hrpos : 0 < r) (hk : 0 < k) :
    Inv base start ⟨setSize (c.addr + r * HEADER) k (setSize c.addr r s.mem), w.addr, s.sz⟩
        (pre ++ ⟨c.addr, r, false⟩ :: ⟨c.addr + r * HEADER, k, true⟩ :: post) ∧
      ∀ d ∈ inUse pre ++ inUse post, ∀ x, d.addr ≤ x → x < d.stop →
        setSize (c.addr + r * HEADER) k (setSize c.addr r s.mem) x = s.mem x := by
  generalize hmem : setSize (c.addr + r * HEADER) k (setSize c.addr r s.mem) = mem
  obtain ⟨hsizec, hptrc, hsizek, hkeep, hframe⟩ := h.cut_headers hr hrpos hk hmem
  obtain ⟨hnodes, hasc⟩ := h.ring_at hc hw
  obtain ⟨hpre, hpost, -, hlast, -⟩ := tiled_append_cons.1 h.tiled
  have hcm : c ∈ pre ++ c :: post := List.mem_append_right pre List.mem_cons_self
  have hring := hnodes ▸ h.ring
  have hsplit : u ++ w :: c :: holes post = (u ++ [w]) ++ c :: holes post := by
    rw [List.append_assoc]
    rfl
  rw [hsplit] at hring hasc hnodes
  obtain ⟨hlow, hhigh⟩ := path_append_cons.1 hring
  have hused : Tiled (c.addr + r * HEADER) ([] ++ ⟨c.addr + r * HEADER, k, true⟩ :: post)
      s.sz := by
    refine tiled_append_cons.2 ⟨tiled_nil _, ?_, hk,
      fun y hy => absurd hy (Option.not_mem_none y), fun z _ => Or.inl rfl⟩
    have hend : c.addr + r * HEADER + k * HEADER = c.stop := by
      rw [Block.stop, hr, Nat.add_mul, Nat.add_assoc]
    show Tiled (c.addr + r * HEADER + k * HEADER) post s.sz
    rwa [hend]
  refine ⟨⟨h.base_pos, h.base_le, h.sz_lt, ?_, ?_, ?_, ?_⟩, ?_⟩
  · refine tiled_append_cons.2 ⟨hpre, hused, hrpos, fun y hy => Or.inl ((hlast y hy).left hc),
      fun z hz => Or.inr ?_⟩
    obtain rfl := Option.some.inj hz
    rfl
  · -- the ring: the first part is the node that the block was
    rw [nodes_append, holes_free rfl, holes_used rfl, hw]
    refine path_append_cons.2 ⟨hlow.congr fun z hz => ?_, ?_⟩
    · refine (hkeep z (mem_cons_of_node (hnodes ▸ List.mem_append_left _ hz)) ?_).1
      rintro rfl
      exact lt_irrefl _ ((List.pairwise_append.1 hasc).2.2 z hz z List.mem_cons_self)
    · dsimp only
      rw [hptrc]
      refine hhigh.congr fun z hz => (hkeep z (mem_cons_of_node ?_) ?_).1
      · rw [hnodes]
        exact List.mem_append_right _ (List.mem_cons_of_mem c hz)
      · rintro rfl
        exact lt_irrefl _ ((List.pairwise_cons.1 (List.pairwise_append.1 hasc).2.1).1 z hz)
  · have hbelow : ∀ d ∈ (⟨base, 0, false⟩ :: pre : List Block), size mem d.addr = d.n :=
      fun d hd => (hkeep d (h.mem_pre hd).1 (h.mem_pre hd).2).2
    have habove : ∀ d ∈ post, size mem d.addr = d.n := by
      intro d hd
      obtain ⟨hdm, hdc⟩ := h.others (List.mem_append_right pre hd)
      exact (hkeep d (List.mem_cons_of_mem _ hdm) hdc).2
    rw [← List.cons_append]
    exact List.forall_mem_append.2 ⟨hbelow, List.forall_mem_cons.2 ⟨hsizec,
      List.forall_mem_cons.2 ⟨hsizek, habove⟩⟩⟩
  · refine List.mem_map_of_mem ?_
    rw [nodes_append]
    exact List.mem_append_left _ (last_mem hw)
  · -- the blocks in use
    intro d hd x hx hx'
    obtain ⟨hdm, hdc, -⟩ := h.users (last_mem hw) hd
    refine hframe x ?_
    rcases rel_or_rel h.tiled.pairwise hdm hcm hdc with hle | hle
    · exact Or.inl (hx'.trans_le hle)
    · exact Or.inr (hle.trans hx)

/-- **The end of `malloc`** takes the whole of a free block, or the end of it. -/
theorem take (h : Inv base start s (pre ++ c :: post)) (hc : c.used = false) {u : List Block}
    (hw : nodes base pre = u ++ [w]) (hk : 0 < k) (hkc : k ≤ c.n) :
    ∃ t l' b, User.take k w.addr c.addr s = (b.addr + HEADER, t) ∧ t.sz = s.sz ∧
      Inv base start t l' ∧ b.n = k ∧ inUse (pre ++ c :: post) = inUse pre ++ inUse post ∧
      inUse l' = inUse pre ++ b :: inUse post ∧
      ∀ d ∈ inUse pre ++ inUse post, ∀ x, d.addr ≤ x → x < d.stop → t.mem x = s.mem x := by
  have hcm : c ∈ pre ++ c :: post := List.mem_append_right pre List.mem_cons_self
  have hsize := h.sizes c (List.mem_cons_of_mem _ hcm)
  have huse : inUse (pre ++ c :: post) = inUse pre ++ inUse post := by
    rw [inUse_append, inUse_free hc]
  by_cases heq : c.n = k
  · obtain ⟨hinv, hframe⟩ := h.takeAll hc hw
    refine ⟨⟨setPtr w.addr (ptr s.mem c.addr) s.mem, w.addr, s.sz⟩, _, ⟨c.addr, c.n, true⟩, ?_, rfl,
      hinv, heq, huse, ?_, hframe⟩
    · rw [User.take, if_pos (hsize.trans heq), h.plus_eq hcm (h.tiled.pos c hcm), Nat.one_mul]
    · rw [inUse_append, inUse_used rfl]
  · obtain ⟨r, hr⟩ : ∃ r, c.n = r + k := ⟨c.n - k, (Nat.sub_add_cancel hkc).symm⟩
    have hrpos : 0 < r := by omega
    obtain ⟨hinv, hframe⟩ := h.takeEnd hc hw hr hrpos hk
    have hbig := h.stop_lt hcm
    have hplus : plus c.addr r = c.addr + r * HEADER := h.plus_eq hcm (by omega)
    have hone : plus (c.addr + r * HEADER) 1 = c.addr + r * HEADER + HEADER := by
      rw [plus, Nat.one_mul]
      refine Nat.mod_eq_of_lt (lt_of_le_of_lt ?_ hbig)
      unfold Block.stop HEADER
      omega
    have hsub : size s.mem c.addr - k = r := by
      rw [hsize, hr, Nat.add_sub_cancel]
    have hr32 : r < 2 ^ 32 := by
      unfold Block.stop HEADER at hbig
      omega
    refine ⟨⟨setSize (c.addr + r * HEADER) k (setSize c.addr r s.mem), w.addr, s.sz⟩, _,
      ⟨c.addr + r * HEADER, k, true⟩, ?_, rfl, hinv, rfl, huse, ?_, hframe⟩
    · rw [User.take, if_neg fun he => heq (hsize.symm.trans he), hsub]
      dsimp only
      rw [size_setSize hr32, hplus, hone]
    · rw [inUse_append, inUse_free rfl, inUse_used rfl]

/-! ## More memory -/

/-- A new block at the end of the heap, in use. -/
theorem grow (h : Inv base start s l) {nu : Nat} (hnu : 0 < nu)
    (hsz : s.sz + nu * HEADER < KERNBASE) :
    Inv base start ⟨setSize s.sz nu s.mem, s.freep, s.sz + nu * HEADER⟩
      (l ++ [⟨s.sz, nu, true⟩]) := by
  have honly := only_setSize s.sz nu s.mem
  have hnodes : nodes base (l ++ [⟨s.sz, nu, true⟩]) = nodes base l := by
    rw [nodes_append, holes_used rfl]
    exact List.append_nil _
  have hapart : ∀ d ∈ (⟨base, 0, false⟩ :: l : List Block), Apart s.sz d.addr := by
    intro d hd
    right
    rcases List.mem_cons.1 hd with rfl | hd
    · exact h.base_le.trans h.start_le
    · exact (Block.header_le_stop (h.tiled.pos d hd)).trans (h.tiled.within hd).2
  refine ⟨h.base_pos, h.base_le, hsz, ?_, ?_, ?_, ?_⟩
  · exact tiled_append_cons.2 ⟨h.tiled, tiled_nil _, hnu, fun y _ => Or.inr rfl,
      fun z hz => absurd hz (Option.not_mem_none z)⟩
  · rw [hnodes]
    exact h.ring.congr fun d hd => honly.ptr (hapart d (mem_cons_of_node hd))
  · intro d hd
    rw [← List.cons_append] at hd
    rcases List.mem_append.1 hd with hd | hd
    · exact (honly.size (hapart d hd)).trans (h.sizes d hd)
    · obtain rfl := List.mem_singleton.1 hd
      refine size_setSize ?_
      unfold KERNBASE HEADER at hsz
      omega
  · rw [hnodes]
    exact h.freep

end Inv

/-- What `morecore` asks for. -/
def asked (nu : Nat) : Nat := if nu < MORE then MORE else nu

/-- The kernel has the memory that `morecore` asks for. -/
def Granted (room : Nat → Bool) (nu : Nat) (s : Process) : Prop :=
  s.sz + asked nu * HEADER < KERNBASE ∧ room (s.sz + asked nu * HEADER) = true

theorem le_asked (nu : Nat) : nu ≤ asked nu := by
  unfold asked
  split_ifs <;> omega

variable {room : Nat → Bool}

theorem sbrk_asked (hk : k * HEADER < 2 ^ 31) :
    sbrk room (asked k * HEADER % 2 ^ 32) s =
      if s.sz + asked k * HEADER < KERNBASE ∧ room (s.sz + asked k * HEADER) then
        some (s.sz, { s with sz := s.sz + asked k * HEADER })
      else none := by
  have hlt : asked k * HEADER < 2 ^ 31 := by
    unfold asked
    split_ifs
    · decide
    · exact hk
  have hpos : asked k * HEADER ≠ 0 := by
    unfold asked MORE HEADER
    split_ifs <;> omega
  rw [Nat.mod_eq_of_lt (hlt.trans (by decide)), sbrk, if_neg hpos, if_pos hlt]

theorem morecore_refused (hk : k * HEADER < 2 ^ 31) (hg : ¬Granted room k s) :
    morecore room k s = some (0, s) := by
  unfold morecore
  dsimp only
  rw [show (if k < MORE then MORE else k) = asked k from rfl, sbrk_asked hk]
  unfold Granted at hg
  rw [if_neg hg]

namespace Inv

/-- **`morecore`** makes a free block that is large enough. -/
theorem morecore (h : Inv base start s l) (hk : k * HEADER < 2 ^ 31)
    (hg : Granted room k s) :
    ∃ t l', User.morecore room k s = some (t.freep, t) ∧ Inv base start t l' ∧
      t.sz = s.sz + asked k * HEADER ∧ inUse l' = inUse l ∧ (∃ c ∈ holes l', k ≤ c.n) ∧
      ∀ c ∈ inUse l, ∀ x, c.addr ≤ x → x < c.stop → t.mem x = s.mem x := by
  have hpos : 0 < asked k := by
    unfold asked MORE
    split_ifs <;> omega
  have hrun := (sbrk_asked (s := s) hk).trans (if_pos hg)
  obtain ⟨t, l', hfree, hsz, hinv, huse, ⟨c, hc, hcn⟩, hframe⟩ := (h.grow hpos hg.1).free rfl
  have hnil : inUse l ++ inUse [] = inUse l := List.append_nil _
  rw [hnil] at huse hframe
  refine ⟨t, l', ?_, hinv, hsz, huse, ⟨c, hc, (le_asked k).trans hcn⟩, fun d hd x hx hx' => ?_⟩
  · unfold User.morecore
    dsimp only
    rw [show (if k < MORE then MORE else k) = asked k from rfl, hrun]
    dsimp only
    rw [hfree]
    rfl
  · rw [hframe d hd x hx hx']
    refine only_setSize s.sz (asked k) s.mem x (Or.inl ?_)
    exact hx'.trans_le (h.tiled.within (mem_inUse.1 hd).1).2

end Inv

/-! ## The loop -/

variable (room) in
/-- A round of the loop that comes to a free block that is large enough. -/
theorem mallocLoop_fit {q : Nat} {ns : List Nat} : ∀ {n prevp p : Nat},
    Path Block.addr (fun c => ptr s.mem c.addr) p l q → ptr s.mem prevp = p → prevp ∈ ns →
    (∀ c ∈ l, size s.mem c.addr = c.n ∧ c.addr ∈ ns) → (∃ c ∈ l, k ≤ c.n) →
    (∀ c ∈ l.dropLast, c.addr ≠ s.freep) → l.length ≤ n →
    ∃ prev ∈ ns, ∃ c ∈ l, k ≤ c.n ∧ ptr s.mem prev = c.addr ∧
      mallocLoop room k n prevp p s = some (take k prev c.addr s) := by
  induction l with
  | nil =>
    intro n prevp p hp hprev hns hl hfit
    obtain ⟨c, hc, -⟩ := hfit
    exact absurd hc List.not_mem_nil
  | cons c l ih =>
    intro n prevp p hp hprev hns hl hfit hfreep hn
    obtain ⟨hcp, hp⟩ := hp
    obtain ⟨hsize, hcns⟩ := hl c List.mem_cons_self
    cases n with
    | zero => exact absurd hn (Nat.not_succ_le_zero _)
    | succ n =>
      subst hcp
      rw [mallocLoop, hsize]
      by_cases hk : k ≤ c.n
      · exact ⟨prevp, hns, c, List.mem_cons_self, hk, hprev, if_pos hk⟩
      · obtain ⟨d, hd, hdk⟩ := hfit
        have hdl : d ∈ l := (List.mem_cons.1 hd).resolve_left fun he => hk (he ▸ hdk)
        have hne : l ≠ [] := List.ne_nil_of_mem hdl
        rw [List.dropLast_cons_of_ne_nil hne] at hfreep
        rw [if_neg hk, if_neg (hfreep c List.mem_cons_self)]
        obtain ⟨prev, hprev', e, he, hke, hpe, hrun⟩ := ih hp rfl hcns
          (fun e he => hl e (List.mem_cons_of_mem c he)) ⟨d, hdl, hdk⟩
          (fun e he => hfreep e (List.mem_cons_of_mem c he)) (Nat.le_of_succ_le_succ hn)
        exact ⟨prev, hprev', e, List.mem_cons_of_mem c he, hke, hpe, hrun⟩

variable (room) in
/-- A round of the loop without such a block ends at `freep` and asks for more. -/
theorem mallocLoop_none {q n : Nat} (hw : w.addr = s.freep) : ∀ (prevp : Nat) {p : Nat},
    Path Block.addr (fun c => ptr s.mem c.addr) p (l ++ [w]) q →
    (∀ c ∈ l ++ [w], size s.mem c.addr = c.n ∧ c.n < k) → (∀ c ∈ l, c.addr ≠ s.freep) →
    mallocLoop room k (l.length + 1 + n) prevp p s =
      (morecore room k s).bind fun (p, s) =>
        if p = 0 then some (0, s) else mallocLoop room k n p (ptr s.mem p) s := by
  induction l with
  | nil =>
    intro prevp p hp hl hne
    obtain ⟨hwp, -⟩ := hp
    obtain ⟨hsize, hk⟩ := hl w List.mem_cons_self
    subst hwp
    rw [List.length_nil, Nat.zero_add, Nat.add_comm 1 n, mallocLoop, hsize,
      if_neg (Nat.not_le_of_lt hk), if_pos hw]
  | cons c l ih =>
    intro prevp p hp hl hne
    obtain ⟨hcp, hp⟩ := hp
    obtain ⟨hsize, hk⟩ := hl c List.mem_cons_self
    subst hcp
    rw [List.length_cons, Nat.add_right_comm, mallocLoop, hsize, if_neg (Nat.not_le_of_lt hk),
      if_neg (hne c List.mem_cons_self)]
    exact ih c.addr hp (fun e he => hl e (List.mem_cons_of_mem c he))
      fun e he => hne e (List.mem_cons_of_mem c he)

namespace Inv

/-- The ring from the node after `freep` on, once around. -/
theorem round (h : Inv base start s l) :
    ∃ u w, w.addr = s.freep ∧ (∀ c, c ∈ u ++ [w] ↔ c ∈ nodes base l) ∧
      (u ++ [w]).length ≤ KERNBASE ∧ (∀ c ∈ u, c.addr ≠ s.freep) ∧
      Path Block.addr (fun c => ptr s.mem c.addr) (ptr s.mem s.freep) (u ++ [w])
        (ptr s.mem s.freep) := by
  obtain ⟨w, hw, hwf⟩ := List.mem_map.1 h.freep
  obtain ⟨v, u, hvu⟩ := List.append_of_mem hw
  have hring := (hvu ▸ h.ring).rotate
  have hlen := hvu ▸ h.length_nodes
  have hasc := hvu ▸ h.ascending
  have hasc' := List.pairwise_append.1 hasc
  refine ⟨u ++ v, w, hwf, fun c => ?_, ?_, fun c hc => ?_, ?_⟩
  · rw [hvu]
    simp only [List.mem_append, List.mem_cons, List.not_mem_nil]
    tauto
  · simp only [List.length_append, List.length_cons, List.length_nil] at hlen ⊢
    omega
  · rw [← hwf]
    rcases List.mem_append.1 hc with hc | hc
    · exact ((List.pairwise_cons.1 hasc'.2.1).1 c hc).ne'
    · exact (hasc'.2.2 c hc w List.mem_cons_self).ne
  · rw [← hwf]
    obtain ⟨-, hpath⟩ := hring
    exact path_append.2 ⟨w.addr, hpath, rfl, rfl⟩

/-- The loop where a free block is large enough. -/
theorem loop_fit (h : Inv base start s l) (hk : 0 < k) (hfit : ∃ c ∈ holes l, k ≤ c.n) {n : Nat}
    (hn : KERNBASE ≤ n) :
    ∃ t l' b l₁ l₂, mallocLoop room k n s.freep (ptr s.mem s.freep) s =
        some (b.addr + HEADER, t) ∧ Inv base start t l' ∧ t.sz = s.sz ∧ b.n = k ∧
      inUse l = l₁ ++ l₂ ∧ inUse l' = l₁ ++ b :: l₂ ∧
      ∀ d ∈ inUse l, ∀ x, d.addr ≤ x → x < d.stop → t.mem x = s.mem x := by
  obtain ⟨u, w, hw, hmem, hlen, hne, hpath⟩ := h.round
  have hsizes : ∀ c ∈ u ++ [w], size s.mem c.addr = c.n ∧
      c.addr ∈ (nodes base l).map Block.addr := fun c hc =>
    ⟨h.sizes c (mem_cons_of_node ((hmem c).1 hc)), List.mem_map_of_mem ((hmem c).1 hc)⟩
  obtain ⟨c₀, hc₀, hk₀⟩ := hfit
  obtain ⟨prev, hprev, c, hc, hkc, hpc, hrun⟩ := mallocLoop_fit room hpath rfl h.freep
    hsizes ⟨c₀, (hmem c₀).2 (List.mem_cons_of_mem _ hc₀), hk₀⟩
    (by rwa [List.dropLast_concat]) (hlen.trans hn)
  have hch : c ∈ holes l := by
    refine (List.mem_cons.1 ((hmem c).1 hc)).resolve_left ?_
    rintro rfl
    exact absurd (hk.trans_le hkc) (lt_irrefl 0)
  obtain ⟨v, hv, hvp⟩ := List.mem_map.1 hprev
  rw [← hvp] at hpc hrun
  obtain ⟨pre, post, u', rfl, hpre⟩ := h.prev hch hv hpc
  obtain ⟨t, l', b, htake, hsz, hinv, hbn, huse, huse', hframe⟩ :=
    h.take (mem_holes.1 hch).2 hpre hk hkc
  exact ⟨t, l', b, inUse pre, inUse post, hrun.trans (congrArg some htake), hinv, hsz, hbn, huse,
    huse', huse ▸ hframe⟩

/-- **`malloc`** ends. It gives a new block, in use, of the units asked for, and leaves the other
blocks in use as they are; or it gives none, where no free block is large enough and the kernel
has no more memory. -/
theorem malloc (h : Inv base start (enter base s) l) (room : Nat → Bool) {nbytes : Nat}
    (hn : nbytes + 15 < 2 ^ 31) :
    (∃ t l' b l₁ l₂, User.malloc base room nbytes s = some (b.addr + HEADER, t) ∧
        Inv base start t l' ∧ b.n = units nbytes ∧ inUse l = l₁ ++ l₂ ∧
        inUse l' = l₁ ++ b :: l₂ ∧
        (∀ d ∈ inUse l, ∀ x, d.addr ≤ x → x < d.stop → t.mem x = (enter base s).mem x) ∧
        ((∃ c ∈ holes l, units nbytes ≤ c.n) ∨ Granted room (units nbytes) s)) ∨
      User.malloc base room nbytes s = some (0, enter base s) ∧
        (∀ c ∈ holes l, c.n < units nbytes) ∧ ¬Granted room (units nbytes) s := by
  have hpos : 0 < units nbytes := Nat.succ_pos _
  have hk : units nbytes * HEADER < 2 ^ 31 := by
    unfold units HEADER
    omega
  have hsz : (enter base s).sz = s.sz := by
    unfold enter
    split_ifs <;> rfl
  have hgr : Granted room (units nbytes) (enter base s) ↔ Granted room (units nbytes) s := by
    rw [Granted, hsz, Granted]
  have hrun : User.malloc base room nbytes s = mallocLoop room (units nbytes) (2 * KERNBASE)
      (enter base s).freep (ptr (enter base s).mem (enter base s).freep) (enter base s) := rfl
  rw [hrun]
  generalize enter base s = e at h hgr
  by_cases hfit : ∃ c ∈ holes l, units nbytes ≤ c.n
  · left
    obtain ⟨t, l', b, l₁, l₂, hloop, hinv, -, hbn, huse, huse', hframe⟩ :=
      h.loop_fit hpos hfit (n := 2 * KERNBASE) (Nat.le_mul_of_pos_left _ (by decide))
    exact ⟨t, l', b, l₁, l₂, hloop, hinv, hbn, huse, huse', hframe, Or.inl hfit⟩
  -- once around, and then more memory
  have hsmall : ∀ c ∈ holes l, c.n < units nbytes := fun c hc =>
    Nat.lt_of_not_le fun hle => hfit ⟨c, hc, hle⟩
  obtain ⟨u, w, hw, hmem, hlen, hne, hpath⟩ := h.round
  obtain ⟨n, hfuel⟩ : ∃ n, 2 * KERNBASE = u.length + 1 + n ∧ KERNBASE ≤ n := by
    rw [List.length_append, List.length_singleton] at hlen
    exact ⟨2 * KERNBASE - (u.length + 1), by omega, by omega⟩
  have hloop := mallocLoop_none room (k := units nbytes) (n := n) hw e.freep hpath
    (fun c hc => ⟨h.sizes c (mem_cons_of_node ((hmem c).1 hc)), ?_⟩) hne
  · rw [hfuel.1, hloop]
    by_cases hg : Granted room (units nbytes) e
    · left
      obtain ⟨t, l', hmore, hinv, -, huse, hbig, hframe⟩ := h.morecore hk hg
      have hne0 : t.freep ≠ 0 := by
        obtain ⟨v, hv, hvf⟩ := List.mem_map.1 hinv.freep
        have hb := hinv.base_pos
        rw [← hvf]
        rcases List.mem_cons.1 hv with rfl | hv
        · exact hb.ne'
        · have := hinv.base_lt (mem_holes.1 hv).1
          omega
      obtain ⟨t', l'', b, l₁, l₂, hloop', hinv', -, hbn, huse', huse'', hframe'⟩ :=
        hinv.loop_fit hpos hbig hfuel.2
      rw [huse] at huse' hframe'
      refine ⟨t', l'', b, l₁, l₂, ?_, hinv', hbn, huse', huse'', fun d hd x hx hx' => ?_,
        Or.inr (hgr.1 hg)⟩
      · rw [hmore, Option.bind_some]
        dsimp only
        rw [if_neg hne0]
        exact hloop'
      · exact (hframe' d hd x hx hx').trans (hframe d hd x hx hx')
    · right
      refine ⟨?_, hsmall, fun hg' => hg (hgr.2 hg')⟩
      rw [morecore_refused hk hg, Option.bind_some]
      exact if_pos rfl
  · rcases List.mem_cons.1 ((hmem c).1 hc) with rfl | hc
    · exact hpos
    · exact hsmall c hc

end Inv

end Xv6.User
