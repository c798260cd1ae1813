/-
The heap of the allocator (`umalloc.c`).

The memory from the first `sbrk` on is a row of blocks, in use or free, without a gap. The
ring that `freep` points into is `base` and the free blocks in the order of their addresses,
and no two free blocks lie side by side. `free` keeps this where it takes in the neighbours of
a block, `malloc` where it cuts a block or gets more memory. Neither writes to a block that
stays in use.
-/
import Xv6.User.Malloc

set_option autoImplicit false

namespace Xv6.User

open Xv6.Lib Xv6.Mkfs

/-! ## Blocks -/

/-- A stretch of `n` headers, the first one its own. -/
structure Block where
  addr : Nat
  n : Nat
  used : Bool
  deriving DecidableEq

def Block.stop (b : Block) : Nat := b.addr + b.n * HEADER

def holes (l : List Block) : List Block := l.filter fun b => !b.used

def inUse (l : List Block) : List Block := l.filter fun b => b.used

/-- The nodes of the ring: `base`, and the free blocks. -/
def nodes (base : Nat) (l : List Block) : List Block := ⟨base, 0, false⟩ :: holes l

/-- One of two neighbours is in use. -/
def Neighbours (b c : Block) : Prop := b.used = true ∨ c.used = true

/-- The blocks lie side by side from `start` to `stop`. -/
structure Tiled (start : Nat) (l : List Block) (stop : Nat) : Prop where
  row : Path Block.addr Block.stop start l stop
  pos : ∀ b ∈ l, 0 < b.n
  merged : l.IsChain Neighbours

structure Inv (base start : Nat) (s : Process) (l : List Block) : Prop where
  base_pos : 0 < base
  base_le : base + HEADER ≤ start
  sz_lt : s.sz < KERNBASE
  tiled : Tiled start l s.sz
  ring : Path Block.addr (fun b => ptr s.mem b.addr) base (nodes base l) base
  sizes : ∀ b ∈ (⟨base, 0, false⟩ :: l : List Block), size s.mem b.addr = b.n
  freep : s.freep ∈ (nodes base l).map Block.addr

variable {base start stop : Nat} {s t : Process} {l l' pre post post' u : List Block}
  {b b' c d w : Block} {mem mem' : Nat → Byte} {x : Nat}

/-- An element between two lists. -/
theorem mem_middle {α : Type} {l₁ l₂ : List α} {x y : α} :
    x ∈ l₁ ++ y :: l₂ ↔ x = y ∨ x ∈ l₁ ++ l₂ :=
  List.perm_middle.mem_iff.trans List.mem_cons

theorem mem_holes : b ∈ holes l ↔ b ∈ l ∧ b.used = false := by
  rw [holes, List.mem_filter, Bool.not_eq_true']

theorem mem_inUse : b ∈ inUse l ↔ b ∈ l ∧ b.used = true := List.mem_filter

theorem holes_append (l l' : List Block) : holes (l ++ l') = holes l ++ holes l' :=
  List.filter_append l l'

theorem inUse_append (l l' : List Block) : inUse (l ++ l') = inUse l ++ inUse l' :=
  List.filter_append l l'

theorem holes_free (h : b.used = false) : holes (b :: l) = b :: holes l :=
  List.filter_cons_of_pos (by rw [h]; rfl)

theorem holes_used (h : b.used = true) : holes (b :: l) = holes l :=
  List.filter_cons_of_neg (by rw [h]; exact Bool.false_ne_true)

theorem inUse_free (h : b.used = false) : inUse (b :: l) = inUse l :=
  List.filter_cons_of_neg (by rw [h]; exact Bool.false_ne_true)

theorem inUse_used (h : b.used = true) : inUse (b :: l) = b :: inUse l :=
  List.filter_cons_of_pos h

theorem nodes_append (base : Nat) (l l' : List Block) :
    nodes base (l ++ l') = nodes base l ++ holes l' := by
  rw [nodes, nodes, holes_append, List.cons_append]

theorem Block.addr_le_stop (b : Block) : b.addr ≤ b.stop := Nat.le_add_right _ _

theorem Block.header_le_stop (h : 0 < b.n) : b.addr + HEADER ≤ b.stop := by
  unfold Block.stop HEADER
  omega

theorem Neighbours.left (h : Neighbours b c) (hc : c.used = false) : b.used = true :=
  h.resolve_right fun hu => Bool.false_ne_true (hc.symm.trans hu)

theorem Neighbours.right (h : Neighbours b c) (hb : b.used = false) : c.used = true :=
  h.resolve_left fun hu => Bool.false_ne_true (hb.symm.trans hu)

/-! ## Rows -/

theorem Tiled.le (h : Tiled start l stop) : start ≤ stop :=
  (h.row.ordered fun b _ => b.addr_le_stop).1

theorem Tiled.within (h : Tiled start l stop) (hb : b ∈ l) : start ≤ b.addr ∧ b.stop ≤ stop :=
  (h.row.ordered fun b _ => b.addr_le_stop).2.1 b hb

theorem Tiled.pairwise (h : Tiled start l stop) :
    l.Pairwise fun b c => b.stop ≤ c.addr :=
  (h.row.ordered fun b _ => b.addr_le_stop).2.2

theorem Tiled.below (h : Tiled start (pre ++ b :: post) stop) (hc : c ∈ pre) :
    c.stop ≤ b.addr :=
  (List.pairwise_append.1 h.pairwise).2.2 c hc b List.mem_cons_self

theorem Tiled.above (h : Tiled start (pre ++ b :: post) stop) (hc : c ∈ post) :
    b.stop ≤ c.addr :=
  (List.pairwise_cons.1 (List.pairwise_append.1 h.pairwise).2.1).1 c hc

theorem tiled_nil (start : Nat) : Tiled start [] start :=
  ⟨rfl, fun _ hb => absurd hb List.not_mem_nil, List.IsChain.nil⟩

/-- A row is cut at a block, and put together where its neighbours allow it. -/
theorem tiled_append_cons :
    Tiled start (pre ++ b :: post) stop ↔ Tiled start pre b.addr ∧ Tiled b.stop post stop ∧
      0 < b.n ∧ (∀ y ∈ pre.getLast?, Neighbours y b) ∧ ∀ z ∈ post.head?, Neighbours b z := by
  constructor
  · rintro ⟨hrow, hpos, hchain⟩
    rw [List.forall_mem_append, List.forall_mem_cons] at hpos
    obtain ⟨hrow₁, hrow₂⟩ := path_append_cons.1 hrow
    obtain ⟨hchain₁, hchain₂, hlast⟩ := List.isChain_append.1 hchain
    obtain ⟨hfirst, hchain₂⟩ := List.isChain_cons.1 hchain₂
    exact ⟨⟨hrow₁, hpos.1, hchain₁⟩, ⟨hrow₂, hpos.2.2, hchain₂⟩, hpos.2.1,
      fun y hy => hlast y hy b rfl, hfirst⟩
  · rintro ⟨hpre, hpost, hn, hlast, hfirst⟩
    refine ⟨path_append_cons.2 ⟨hpre.row, hpost.row⟩, ?_, ?_⟩
    · rw [List.forall_mem_append, List.forall_mem_cons]
      exact ⟨hpre.pos, hn, hpost.pos⟩
    · refine List.isChain_append.2 ⟨hpre.merged, List.isChain_cons.2 ⟨hfirst, hpost.merged⟩, ?_⟩
      intro y hy z hz
      obtain rfl := Option.some.inj hz
      exact hlast y hy

/-- A row is as long as its blocks, at eight bytes or more for each. -/
theorem Tiled.length_le (h : Tiled start l stop) : l.length ≤ stop - start := by
  have hrow := h.row
  have hpos := h.pos
  clear h
  induction l generalizing start with
  | nil => exact Nat.zero_le _
  | cons b l ih =>
    obtain ⟨rfl, hrow⟩ := hrow
    have hb := Block.header_le_stop (hpos b List.mem_cons_self)
    have hle := (hrow.ordered fun b _ => b.addr_le_stop).1
    have := ih hrow fun c hc => hpos c (List.mem_cons_of_mem b hc)
    rw [List.length_cons]
    unfold HEADER at hb
    omega

/-- Each byte is in a block. -/
theorem Tiled.cover (h : Tiled start l stop) (hx : start ≤ x) (hx' : x < stop) :
    ∃ b ∈ l, b.addr ≤ x ∧ x < b.stop :=
  h.row.cover hx hx'

/-- Where nothing is in use there is one block, or none. -/
theorem Tiled.single (h : Tiled start l stop) (hu : inUse l = []) :
    l = [] ∧ start = stop ∨ ∃ b, l = [b] ∧ b.used = false ∧ b.addr = start ∧ b.stop = stop := by
  have hfree : ∀ b ∈ l, b.used = false := fun b hb => by
    rw [← Bool.not_eq_true]
    intro hb'
    exact List.not_mem_nil (hu ▸ mem_inUse.2 ⟨hb, hb'⟩)
  cases l with
  | nil => exact Or.inl ⟨rfl, h.row⟩
  | cons b l =>
    cases l with
    | nil => exact Or.inr ⟨b, rfl, hfree b List.mem_cons_self, h.row.1, h.row.2⟩
    | cons c l =>
      have hb := hfree b List.mem_cons_self
      have hc := hfree c (List.mem_cons_of_mem b List.mem_cons_self)
      have hu := (List.isChain_cons_cons.1 h.merged).1.right hb
      exact absurd (hc.symm.trans hu) Bool.false_ne_true

/-! ## The ring -/

/-- Two members of an ordered list are in one order or the other. -/
theorem rel_or_rel {α : Type} {R : α → α → Prop} {l : List α} (h : l.Pairwise R) {x y : α}
    (hx : x ∈ l) (hy : y ∈ l) (hne : x ≠ y) : R x y ∨ R y x := by
  have hsymm : Std.Symm fun x y => R x y ∨ R y x := ⟨fun _ _ => Or.symm⟩
  exact (h.imp (S := fun x y => R x y ∨ R y x) Or.inl).forall hx hy hne

namespace Inv

theorem start_le (h : Inv base start s l) : start ≤ s.sz := h.tiled.le

theorem mem_cons_of_node (hb : b ∈ nodes base l) : b ∈ (⟨base, 0, false⟩ :: l : List Block) :=
  (List.mem_cons.1 hb).elim (fun he => he ▸ List.mem_cons_self)
    fun hb => List.mem_cons_of_mem _ (mem_holes.1 hb).1

/-- `base` lies below the heap. -/
theorem base_lt (h : Inv base start s l) (hb : b ∈ l) : base + HEADER ≤ b.addr :=
  h.base_le.trans (h.tiled.within hb).1

/-- `base` and the blocks, in the order of their addresses. -/
theorem spread (h : Inv base start s l) :
    (⟨base, 0, false⟩ :: l : List Block).Pairwise fun b c =>
      b.addr + HEADER ≤ c.addr ∧ b.stop ≤ c.addr := by
  refine List.pairwise_cons.2 ⟨fun b hb => ?_, ?_⟩
  · have hle := h.base_lt hb
    exact ⟨hle, le_trans (Nat.add_le_add_left (Nat.zero_le _) base) hle⟩
  · refine List.Pairwise.imp_of_mem (fun hb _ hbc => ⟨?_, hbc⟩) h.tiled.pairwise
    exact (Block.header_le_stop (h.tiled.pos _ hb)).trans hbc

theorem spread_append (h : Inv base start s (pre ++ post))
    (hb : b ∈ (⟨base, 0, false⟩ :: pre : List Block)) (hc : c ∈ post) :
    b.addr + HEADER ≤ c.addr := by
  have hs := h.spread
  rw [← List.cons_append] at hs
  exact ((List.pairwise_append.1 hs).2.2 b hb c hc).1

/-- Another header lies above a block or below it. -/
theorem sep (h : Inv base start s l) (hc : c ∈ l)
    (hd : d ∈ (⟨base, 0, false⟩ :: l : List Block)) (hcd : c ≠ d) :
    c.stop ≤ d.addr ∨ d.addr + HEADER ≤ c.addr :=
  (rel_or_rel h.spread (List.mem_cons_of_mem _ hc) hd hcd).imp And.right And.left

theorem apart (h : Inv base start s l) (hb : b ∈ (⟨base, 0, false⟩ :: l : List Block))
    (hc : c ∈ (⟨base, 0, false⟩ :: l : List Block)) (hbc : b ≠ c) : Apart b.addr c.addr :=
  (rel_or_rel h.spread hb hc hbc).imp And.left And.left

/-- Blocks at one place are one block. -/
theorem inj (h : Inv base start s l) (hb : b ∈ (⟨base, 0, false⟩ :: l : List Block))
    (hc : c ∈ (⟨base, 0, false⟩ :: l : List Block)) (hbc : b.addr = c.addr) : b = c := by
  by_contra hne
  have := h.apart hb hc hne
  unfold Apart HEADER at this
  omega

/-- The nodes are in the order of their addresses. -/
theorem ascending (h : Inv base start s l) :
    (nodes base l).Pairwise fun b c => b.addr < c.addr := by
  have hsub : (nodes base l).Sublist (⟨base, 0, false⟩ :: l) :=
    List.filter_sublist.cons_cons _
  refine (h.spread.sublist hsub).imp fun {b c} hbc => ?_
  have := hbc.1
  unfold HEADER at this
  omega

/-- The bytes of a block are none of another header. -/
theorem outside (h : Inv base start s l) (hc : c ∈ l)
    (hd : d ∈ (⟨base, 0, false⟩ :: l : List Block)) (hcd : c ≠ d) (hx : c.addr ≤ x)
    (hx' : x < c.stop) : x < d.addr ∨ d.addr + HEADER ≤ x := by
  exact (h.sep hc hd hcd).imp (fun hle => hx'.trans_le hle) fun hle => hle.trans hx

theorem stop_lt (h : Inv base start s l) (hb : b ∈ l) : b.stop < 2 ^ 32 := by
  have := (h.tiled.within hb).2
  have := h.sz_lt
  unfold KERNBASE at this
  omega

/-- Pointers within a block do not wrap around. -/
theorem plus_eq (h : Inv base start s l) (hb : b ∈ l) {n : Nat} (hn : n ≤ b.n) :
    plus b.addr n = b.addr + n * HEADER := by
  refine Nat.mod_eq_of_lt (lt_of_le_of_lt ?_ (h.stop_lt hb))
  exact Nat.add_le_add_left (Nat.mul_le_mul_right _ hn) _

theorem length_nodes (h : Inv base start s l) : (nodes base l).length ≤ KERNBASE := by
  have := h.sz_lt
  have h1 := h.tiled.length_le
  have h2 : (holes l).length ≤ l.length := List.length_filter_le _ l
  rw [nodes, List.length_cons]
  omega

/-! ## Around a block -/

/-- The other blocks of the row. -/
theorem others (h : Inv base start s (pre ++ b :: post)) (hc : c ∈ pre ++ post) :
    c ∈ pre ++ b :: post ∧ c ≠ b := by
  have hc' : c ∈ pre ++ b :: post := mem_middle.2 (Or.inr hc)
  refine ⟨hc', ?_⟩
  rintro rfl
  have hlt := Block.header_le_stop (h.tiled.pos c hc')
  unfold HEADER at hlt
  rcases List.mem_append.1 hc with hc | hc
  · have := h.tiled.below hc
    omega
  · have := h.tiled.above hc
    omega

/-- `base` and the blocks below. -/
theorem mem_pre (h : Inv base start s (pre ++ b :: post))
    (hc : c ∈ (⟨base, 0, false⟩ :: pre : List Block)) :
    c ∈ (⟨base, 0, false⟩ :: (pre ++ b :: post) : List Block) ∧ c ≠ b := by
  refine ⟨?_, ?_⟩
  · rw [← List.cons_append]
    exact List.mem_append_left _ hc
  · rintro rfl
    have hlt := h.spread_append hc List.mem_cons_self
    unfold HEADER at hlt
    omega

/-- The blocks above are none of those below. -/
theorem mem_post (h : Inv base start s (pre ++ b :: post))
    (hw : w ∈ (⟨base, 0, false⟩ :: pre : List Block)) (hc : c ∈ post) :
    c ∈ (⟨base, 0, false⟩ :: (pre ++ b :: post) : List Block) ∧ c ≠ b ∧ c ≠ w := by
  obtain ⟨hcm, hcb⟩ := h.others (List.mem_append_right pre hc)
  refine ⟨List.mem_cons_of_mem _ hcm, hcb, ?_⟩
  rintro rfl
  have hlt := h.spread_append hw (List.mem_cons_of_mem b hc)
  unfold HEADER at hlt
  omega

/-- The other blocks in use are no nodes of the ring. -/
theorem users (h : Inv base start s (pre ++ b :: post)) (hw : w ∈ nodes base pre)
    (hc : c ∈ inUse pre ++ inUse post) : c ∈ pre ++ b :: post ∧ c ≠ b ∧ c ≠ w := by
  rw [← inUse_append] at hc
  obtain ⟨hcm, hcu⟩ := mem_inUse.1 hc
  obtain ⟨hc', hcb⟩ := h.others hcm
  refine ⟨hc', hcb, ?_⟩
  rintro rfl
  rcases List.mem_cons.1 hw with rfl | hwh
  · exact Bool.false_ne_true hcu
  · exact Bool.false_ne_true ((mem_holes.1 hwh).2.symm.trans hcu)

theorem exists_last (base : Nat) (l : List Block) : ∃ u w, nodes base l = u ++ [w] :=
  ⟨_, _, (List.dropLast_append_getLast (List.cons_ne_nil _ _)).symm⟩

theorem last_mem (hw : nodes base pre = u ++ [w]) : w ∈ nodes base pre :=
  hw ▸ List.mem_append_right u List.mem_cons_self

end Inv

/-! ## `free` -/

/-- The free block `b'` is in the place of `b` and of what `b` was joined with. It points into
the ring, but no node points to it yet. -/
structure Loose (base : Nat) (s : Process) (b : Block) (post : List Block) (mem : Nat → Byte)
    (b' : Block) (post' : List Block) : Prop where
  addr_eq : b'.addr = b.addr
  free : b'.used = false
  tiled : Tiled b.addr (b' :: post') s.sz
  sub : ∀ c ∈ post', c ∈ post
  size_eq : size mem b.addr = b'.n
  path : Path Block.addr (fun c => ptr s.mem c.addr) (ptr mem b.addr) (holes post') base
  only : Only b.addr s.mem mem

namespace Inv

/-- The ring is cut at a block in use. -/
theorem cut (h : Inv base start s (pre ++ b :: post)) (hb : b.used = true)
    (hw : nodes base pre = u ++ [w]) :
    nodes base (pre ++ b :: post) = u ++ w :: holes post ∧
      Path Block.addr (fun c => ptr s.mem c.addr) base u w.addr ∧
      Path Block.addr (fun c => ptr s.mem c.addr) (ptr s.mem w.addr) (holes post) base := by
  have hnodes : nodes base (pre ++ b :: post) = u ++ w :: holes post := by
    rw [nodes_append, holes_used hb, hw, List.append_assoc]
    rfl
  exact ⟨hnodes, path_append_cons.1 (hnodes ▸ h.ring)⟩

/-- The loop of `free` finds the last node below the block. -/
theorem free_eq (h : Inv base start s (pre ++ b :: post)) (hb : b.used = true)
    (hw : nodes base pre = u ++ [w]) :
    User.free (plus b.addr 1) s = some { s with
      mem := User.joinPrev b.addr w.addr (User.joinNext b.addr w.addr s.mem)
      freep := w.addr } := by
  obtain ⟨hnodes, -, -⟩ := h.cut hb hw
  have hbm : b ∈ pre ++ b :: post := List.mem_append_right pre List.mem_cons_self
  have hpos := h.tiled.pos b hbm
  -- `freep` may be any node of the ring
  have hfind : search (ptr s.mem) (between (ptr s.mem) b.addr) KERNBASE s.freep =
      some w.addr := by
    refine (hnodes ▸ h.ring).search_between (hnodes ▸ h.ascending) (fun y hy => ?_)
      (fun y hy => ?_) (hnodes ▸ h.freep) (hnodes ▸ h.length_nodes)
    · have := h.spread_append (mem_cons_of_node (hw ▸ hy)) List.mem_cons_self
      unfold HEADER at this
      omega
    · have := h.tiled.above (mem_holes.1 hy).1
      have := Block.header_le_stop hpos
      unfold HEADER at this
      omega
  have hbp : (plus b.addr 1 + 2 ^ 32 - HEADER) % 2 ^ 32 = b.addr := by
    have hlt := (h.stop_lt hbm).trans_le' b.addr_le_stop
    rw [h.plus_eq hbm hpos]
    unfold HEADER
    omega
  rw [User.free, hbp, hfind]
  rfl

/-- The block above is free, and `b` takes it in. -/
theorem takeNext (h : Inv base start s (pre ++ b :: c :: post)) (hb : b.used = true)
    (hc : c.used = false) (hw : nodes base pre = u ++ [w]) :
    Loose base s b (c :: post) (User.joinNext b.addr w.addr s.mem) ⟨b.addr, b.n + c.n, false⟩
      post := by
  have hbm : b ∈ pre ++ b :: c :: post := List.mem_append_right pre List.mem_cons_self
  have hbm' := List.mem_cons_of_mem (⟨base, 0, false⟩ : Block) hbm
  obtain ⟨hwm, hwb⟩ := h.mem_pre (mem_cons_of_node (last_mem hw))
  obtain ⟨hcm, hcb, -⟩ := h.mem_post (mem_cons_of_node (last_mem hw))
    (List.mem_cons_self (a := c) (l := post))
  have hpath := (h.cut hb hw).2.2
  rw [holes_free hc] at hpath
  obtain ⟨hcw, hpath⟩ := hpath
  obtain ⟨-, hrow, hbpos, -, -⟩ := tiled_append_cons.1 h.tiled
  have hcut : Tiled b.stop ([] ++ c :: post) s.sz := hrow
  obtain ⟨hbc, hpost, -, -, hfirst⟩ := tiled_append_cons.1 hcut
  have hbc : b.stop = c.addr := hbc.row
  have hstop : b.addr + (b.n + c.n) * HEADER = c.stop := by
    rw [Block.stop, ← hbc, Block.stop, Nat.add_mul, Nat.add_assoc]
  have hplus : plus b.addr (size s.mem b.addr) = ptr s.mem w.addr := by
    rw [h.sizes b hbm', h.plus_eq hbm le_rfl, ← hcw, ← hbc, Block.stop]
  have hsum : size s.mem b.addr + size s.mem (ptr s.mem w.addr) = b.n + c.n := by
    rw [h.sizes b hbm', ← hcw, h.sizes c hcm]
  have hlt : b.n + c.n < 2 ^ 32 := by
    have := h.stop_lt (List.mem_append_right pre (List.mem_cons_of_mem b List.mem_cons_self))
    rw [← hstop] at this
    unfold HEADER at this
    omega
  obtain ⟨hs, hp⟩ := joinNext_of_eq hplus (h.apart hbm' hwm hwb.symm)
    (hcw ▸ h.apart hbm' hcm hcb.symm) (hsum ▸ hlt)
  have htiled : Tiled b.addr ([] ++ ⟨b.addr, b.n + c.n, false⟩ :: post) s.sz := by
    refine tiled_append_cons.2 ⟨tiled_nil b.addr, ?_, Nat.add_pos_left hbpos c.n, ?_, ?_⟩
    · show Tiled (b.addr + (b.n + c.n) * HEADER) post s.sz
      rwa [hstop]
    · exact fun y hy => absurd hy (Option.not_mem_none y)
    · exact fun z hz => Or.inr ((hfirst z hz).right hc)
  refine ⟨rfl, rfl, htiled, fun d hd => List.mem_cons_of_mem c hd, hs.trans hsum, ?_,
    only_joinNext _ _ _⟩
  rw [hp, ← hcw]
  exact hpath

/-- The block above is in use, or there is none. -/
theorem leaveNext (h : Inv base start s (pre ++ b :: post)) (hb : b.used = true)
    (hused : ∀ c ∈ post.head?, c.used = true) (hw : nodes base pre = u ++ [w]) :
    Loose base s b post (User.joinNext b.addr w.addr s.mem) ⟨b.addr, b.n, false⟩ post := by
  have hbm : b ∈ pre ++ b :: post := List.mem_append_right pre List.mem_cons_self
  have hsize := h.sizes b (List.mem_cons_of_mem _ hbm)
  have hpath := (h.cut hb hw).2.2
  obtain ⟨-, hpost, hbpos, -, -⟩ := tiled_append_cons.1 h.tiled
  -- the next free block lies further on
  have hfar : ∀ d ∈ holes post, b.stop ≠ d.addr := by
    intro d hd he
    obtain ⟨hdm, hdf⟩ := mem_holes.1 hd
    cases post with
    | nil => exact List.not_mem_nil hdm
    | cons c post' =>
      have hwm := mem_cons_of_node (last_mem hw)
      obtain rfl := h.inj (h.mem_post hwm List.mem_cons_self).1 (h.mem_post hwm hdm).1
        (hpost.row.1.trans he)
      exact Bool.false_ne_true (hdf.symm.trans (hused c rfl))
  have hne : plus b.addr (size s.mem b.addr) ≠ ptr s.mem w.addr := by
    rw [hsize, h.plus_eq hbm le_rfl, ← hpath.start]
    cases hh : holes post with
    | nil =>
      have := h.base_lt hbm
      unfold HEADER at *
      show b.addr + b.n * 8 ≠ base
      omega
    | cons d hd => exact hfar d (hh ▸ List.mem_cons_self)
  obtain ⟨hs, hp⟩ := joinNext_of_ne hne
  have htiled : Tiled b.addr ([] ++ ⟨b.addr, b.n, false⟩ :: post) s.sz :=
    tiled_append_cons.2 ⟨tiled_nil b.addr, hpost, hbpos,
      fun y hy => absurd hy (Option.not_mem_none y), fun z hz => Or.inr (hused z hz)⟩
  exact ⟨rfl, rfl, htiled, fun d hd => hd, hs.trans hsize, hp.symm ▸ hpath, only_joinNext _ _ _⟩

/-- `b` with the free block above it, if there is one. -/
theorem joinNext (h : Inv base start s (pre ++ b :: post)) (hb : b.used = true)
    (hw : nodes base pre = u ++ [w]) :
    ∃ b' post', Loose base s b post (User.joinNext b.addr w.addr s.mem) b' post' ∧ b.n ≤ b'.n ∧
      inUse post' = inUse post := by
  by_cases hc : ∃ c post', post = c :: post' ∧ c.used = false
  · obtain ⟨c, post', rfl, hc⟩ := hc
    exact ⟨_, post', h.takeNext hb hc hw, Nat.le_add_right _ _, (inUse_free hc).symm⟩
  · refine ⟨_, post, h.leaveNext hb (fun c hcm => ?_) hw, le_rfl, rfl⟩
    by_contra hu
    obtain ⟨post', rfl⟩ := List.head?_eq_some_iff.1 hcm
    exact hc ⟨c, post', rfl, Bool.not_eq_true _ ▸ hu⟩

/-- The headers of the other blocks stay. -/
theorem kept (h : Inv base start s (pre ++ b :: post)) (hj : Loose base s b post mem b' post')
    (hw : nodes base pre = u ++ [w])
    (hc : c ∈ (⟨base, 0, false⟩ :: (pre ++ b :: post) : List Block)) (hcb : c ≠ b)
    (hcw : c ≠ w) :
    ptr (User.joinPrev b.addr w.addr mem) c.addr = ptr s.mem c.addr ∧
      size (User.joinPrev b.addr w.addr mem) c.addr = c.n := by
  have hbm : b ∈ pre ++ b :: post := List.mem_append_right pre List.mem_cons_self
  have honly := only_joinPrev b.addr w.addr mem
  have h₁ := h.apart (List.mem_cons_of_mem _ hbm) hc hcb.symm
  have h₂ := h.apart (h.mem_pre (mem_cons_of_node (last_mem hw))).1 hc hcw.symm
  rw [honly.ptr h₂, hj.only.ptr h₁, honly.size h₂, hj.only.size h₁]
  exact ⟨rfl, h.sizes c hc⟩

/-- The ring below the last node, and above the block. -/
theorem kept_ring (h : Inv base start s (pre ++ b :: post)) (hb : b.used = true)
    (hj : Loose base s b post mem b' post') (hw : nodes base pre = u ++ [w]) :
    Path Block.addr (fun c => ptr (User.joinPrev b.addr w.addr mem) c.addr) base u w.addr ∧
      Path Block.addr (fun c => ptr (User.joinPrev b.addr w.addr mem) c.addr)
        (ptr mem b.addr) (holes post') base := by
  obtain ⟨hnodes, hlow, -⟩ := h.cut hb hw
  have hasc := hnodes ▸ h.ascending
  refine ⟨hlow.congr fun c hc => ?_, hj.path.congr fun c hc => ?_⟩
  · have hcn : c ∈ nodes base pre := hw ▸ List.mem_append_left _ hc
    obtain ⟨hcm, hcb⟩ := h.mem_pre (mem_cons_of_node hcn)
    refine (h.kept hj hw hcm hcb ?_).1
    rintro rfl
    exact lt_irrefl _ ((List.pairwise_append.1 hasc).2.2 c hc c List.mem_cons_self)
  · obtain ⟨hcm, hcb, hcw⟩ :=
      h.mem_post (mem_cons_of_node (last_mem hw)) (hj.sub c (mem_holes.1 hc).1)
    exact (h.kept hj hw hcm hcb hcw).1

/-- The sizes above the block. -/
theorem kept_above (h : Inv base start s (pre ++ b :: post))
    (hj : Loose base s b post mem b' post') (hw : nodes base pre = u ++ [w]) (hc : c ∈ post') :
    size (User.joinPrev b.addr w.addr mem) c.addr = c.n := by
  obtain ⟨hcm, hcb, hcw⟩ := h.mem_post (mem_cons_of_node (last_mem hw)) (hj.sub c hc)
  exact (h.kept hj hw hcm hcb hcw).2

/-- The block below is free, and takes in the freed one. -/
theorem takePrev (h : Inv base start s (pre ++ [d] ++ b :: post)) (hb : b.used = true)
    (hd : d.used = false) (hj : Loose base s b post mem b' post') :
    Inv base start ⟨User.joinPrev b.addr d.addr mem, d.addr, s.sz⟩
      (pre ++ ⟨d.addr, d.n + b'.n, false⟩ :: post') := by
  have hw : nodes base (pre ++ [d]) = nodes base pre ++ [d] := by
    rw [nodes_append, holes_free hd]
    rfl
  have hbm : b ∈ pre ++ [d] ++ b :: post := List.mem_append_right _ List.mem_cons_self
  have hbm' := List.mem_cons_of_mem (⟨base, 0, false⟩ : Block) hbm
  have hdm : d ∈ pre ++ [d] ++ b :: post := by simp
  obtain ⟨hdm', hdb⟩ := h.mem_pre (mem_cons_of_node (last_mem hw))
  have hsized : size mem d.addr = d.n :=
    (hj.only.size (h.apart hbm' hdm' hdb.symm)).trans (h.sizes d hdm')
  obtain ⟨hpre, hdstop, hdpos, hlast, -⟩ :=
    tiled_append_cons.1 (tiled_append_cons.1 h.tiled).1
  have hdstop : d.stop = b.addr := hdstop.row
  have hcut : Tiled b.addr ([] ++ b' :: post') s.sz := hj.tiled
  obtain ⟨-, hpost, -, -, hfirst⟩ := tiled_append_cons.1 hcut
  have hplus : plus d.addr (size mem d.addr) = b.addr := by
    rw [hsized, h.plus_eq hdm le_rfl]
    exact hdstop
  -- `d` grows up to where the freed block ends
  have hend : d.addr + (d.n + b'.n) * HEADER = b'.stop := by
    rw [Block.stop, hj.addr_eq, ← hdstop, Block.stop, Nat.add_mul, Nat.add_assoc]
  have hlt : size mem d.addr + size mem b.addr < 2 ^ 32 := by
    have := (hj.tiled.within List.mem_cons_self).2
    have := h.sz_lt
    rw [hsized, hj.size_eq]
    unfold HEADER KERNBASE at *
    omega
  obtain ⟨hs, hp⟩ := joinPrev_of_eq hplus (h.apart hdm' hbm' hdb) hlt
  obtain ⟨hlow, hhigh⟩ := h.kept_ring hb hj hw
  have hbelow : ∀ c ∈ (⟨base, 0, false⟩ :: pre : List Block),
      size (User.joinPrev b.addr d.addr mem) c.addr = c.n := by
    intro c hc
    have hassoc : pre ++ [d] ++ b :: post = pre ++ d :: b :: post := by simp
    have hcp : c ∈ (⟨base, 0, false⟩ :: (pre ++ [d]) : List Block) :=
      List.mem_append_left [d] hc
    obtain ⟨hcm, hcb⟩ := h.mem_pre hcp
    exact (h.kept hj hw hcm hcb ((hassoc ▸ h).mem_pre hc).2).2
  have habove : ∀ c ∈ post', size (User.joinPrev b.addr d.addr mem) c.addr = c.n :=
    fun c hc => h.kept_above hj hw hc
  generalize User.joinPrev b.addr d.addr mem = mem' at hs hp hlow hhigh hbelow habove
  refine ⟨h.base_pos, h.base_le, h.sz_lt, tiled_append_cons.2 ⟨hpre, ?_,
    Nat.add_pos_left hdpos _, ?_, ?_⟩, ?_, ?_, ?_⟩
  · show Tiled (d.addr + (d.n + b'.n) * HEADER) post' s.sz
    rwa [hend]
  · exact fun y hy => Or.inl ((hlast y hy).left hd)
  · exact fun z hz => Or.inr ((hfirst z hz).right hj.free)
  · rw [nodes_append, holes_free rfl]
    refine path_append_cons.2 ⟨hlow, ?_⟩
    dsimp only
    rwa [hp]
  · rw [← List.cons_append]
    refine List.forall_mem_append.2 ⟨hbelow, List.forall_mem_cons.2 ⟨?_, habove⟩⟩
    rw [hs, hsized, hj.size_eq]
  · rw [nodes_append, holes_free rfl, List.map_append]
    exact List.mem_append_right _ List.mem_cons_self

/-- The last free block below ends before one in use. -/
theorem not_adjacent (h : Inv base start s (pre ++ b :: post))
    (hused : ∀ y ∈ pre.getLast?, y.used = true) (hw : w ∈ nodes base pre) :
    plus w.addr w.n ≠ b.addr := by
  rcases List.mem_cons.1 hw with rfl | hwh
  · have := h.spread_append (List.mem_cons_self (a := ⟨base, 0, false⟩) (l := pre))
      (List.mem_cons_self (a := b) (l := post))
    have := h.stop_lt (List.mem_append_right pre (List.mem_cons_self (a := b) (l := post)))
    have := b.addr_le_stop
    unfold plus HEADER at *
    dsimp only at *
    rw [Nat.mod_eq_of_lt (by omega)]
    omega
  obtain ⟨hwp, hwf⟩ := mem_holes.1 hwh
  rw [h.plus_eq (List.mem_append_left _ hwp) le_rfl]
  intro he
  obtain ⟨l₁, l₂, rfl⟩ := List.append_of_mem hwp
  have hrow := (path_append_cons.1 (path_append_cons.1 h.tiled.row).1).2
  rw [Block.stop, he] at hrow
  cases l₂ with
  | nil => exact Bool.false_ne_true (hwf.symm.trans (hused w (by simp)))
  | cons c l₂ =>
    -- the block after `w` is not empty
    have hc : c ∈ l₁ ++ w :: c :: l₂ := by simp
    have hpos := h.tiled.pos c (List.mem_append_left _ hc)
    have hle := h.tiled.below hc
    have := Block.header_le_stop hpos
    have : c.addr = b.addr := hrow.1
    unfold HEADER at *
    omega

/-- The block below is in use, or there is none: the last node below points to the freed one. -/
theorem leavePrev (h : Inv base start s (pre ++ b :: post)) (hb : b.used = true)
    (hused : ∀ y ∈ pre.getLast?, y.used = true) (hj : Loose base s b post mem b' post')
    (hw : nodes base pre = u ++ [w]) :
    Inv base start ⟨User.joinPrev b.addr w.addr mem, w.addr, s.sz⟩ (pre ++ b' :: post') := by
  have hbm : b ∈ pre ++ b :: post := List.mem_append_right pre List.mem_cons_self
  have hbm' := List.mem_cons_of_mem (⟨base, 0, false⟩ : Block) hbm
  obtain ⟨hwm, hwb⟩ := h.mem_pre (mem_cons_of_node (last_mem hw))
  have hapart := h.apart hwm hbm' hwb
  have hsizew : size mem w.addr = w.n := (hj.only.size hapart.symm).trans (h.sizes w hwm)
  obtain ⟨hs, hp⟩ := joinPrev_of_ne (hsizew.symm ▸ h.not_adjacent hused (last_mem hw))
    ((h.stop_lt hbm).trans_le' b.addr_le_stop)
  have honly := only_joinPrev b.addr w.addr mem
  obtain ⟨hlow, hhigh⟩ := h.kept_ring hb hj hw
  have hbelow : ∀ c ∈ (⟨base, 0, false⟩ :: pre : List Block),
      size (User.joinPrev b.addr w.addr mem) c.addr = c.n := by
    intro c hc
    obtain ⟨hcm, hcb⟩ := h.mem_pre hc
    by_cases hcw : c = w
    · rw [hcw]
      exact hs.trans hsizew
    · exact (h.kept hj hw hcm hcb hcw).2
  have habove : ∀ c ∈ post', size (User.joinPrev b.addr w.addr mem) c.addr = c.n :=
    fun c hc => h.kept_above hj hw hc
  generalize User.joinPrev b.addr w.addr mem = mem' at hs hp honly hlow hhigh hbelow habove
  have hcut : Tiled b.addr ([] ++ b' :: post') s.sz := hj.tiled
  obtain ⟨-, hpost, hpos, -, hfirst⟩ := tiled_append_cons.1 hcut
  refine ⟨h.base_pos, h.base_le, h.sz_lt, tiled_append_cons.2 ⟨?_, hpost, hpos,
    fun y hy => Or.inl (hused y hy), hfirst⟩, ?_, ?_, ?_⟩
  · rw [hj.addr_eq]
    exact (tiled_append_cons.1 h.tiled).1
  · rw [nodes_append, holes_free hj.free, hw]
    refine path_append_cons.2 ⟨path_append_cons.2 ⟨hlow, hp.trans hj.addr_eq.symm⟩, ?_⟩
    dsimp only
    rwa [hj.addr_eq, honly.ptr hapart]
  · rw [← List.cons_append]
    refine List.forall_mem_append.2 ⟨hbelow, List.forall_mem_cons.2 ⟨?_, habove⟩⟩
    rw [hj.addr_eq]
    exact (honly.size hapart).trans hj.size_eq
  · rw [nodes_append, List.map_append]
    exact List.mem_append_left _ (List.mem_map_of_mem (last_mem hw))

/-- The free block below takes in the freed one, if there is one; if there is none, the last node
below points to it. -/
theorem joinPrev (h : Inv base start s (pre ++ b :: post)) (hb : b.used = true)
    (hj : Loose base s b post mem b' post') (hw : nodes base pre = u ++ [w]) :
    ∃ l₁ v, Inv base start ⟨User.joinPrev b.addr w.addr mem, w.addr, s.sz⟩ (l₁ ++ v :: post') ∧
      v.used = false ∧ b'.n ≤ v.n ∧ inUse l₁ = inUse pre := by
  by_cases hd : ∃ pre' d, pre = pre' ++ [d] ∧ d.used = false
  · obtain ⟨pre', d, rfl, hdf⟩ := hd
    rw [nodes_append, holes_free hdf] at hw
    obtain ⟨-, hwd⟩ := List.append_inj' hw rfl
    obtain rfl := (List.cons.inj hwd).1
    refine ⟨pre', _, h.takePrev hb hdf hj, rfl, Nat.le_add_left _ _, ?_⟩
    rw [inUse_append, inUse_free hdf]
    exact (List.append_nil _).symm
  · refine ⟨pre, b', h.leavePrev hb (fun y hy => ?_) hj hw, hj.free, le_rfl, rfl⟩
    by_contra hu
    obtain ⟨ys, rfl⟩ := List.getLast?_eq_some_iff.1 hy
    exact hd ⟨ys, y, rfl, Bool.not_eq_true _ ▸ hu⟩

/-- **`free`** of a block in use ends, keeps the invariant, and leaves the other blocks in use
as they are. -/
theorem free (h : Inv base start s (pre ++ b :: post)) (hb : b.used = true) :
    ∃ t l', User.free (plus b.addr 1) s = some t ∧ t.sz = s.sz ∧ Inv base start t l' ∧
      inUse l' = inUse pre ++ inUse post ∧ (∃ c ∈ holes l', b.n ≤ c.n) ∧
      ∀ c ∈ inUse pre ++ inUse post, ∀ x, c.addr ≤ x → x < c.stop → t.mem x = s.mem x := by
  obtain ⟨u, w, hw⟩ := exists_last base pre
  obtain ⟨b', post', hj, hbn, huse⟩ := h.joinNext hb hw
  obtain ⟨l₁, v, hinv, hv, hvn, huse'⟩ := h.joinPrev hb hj hw
  have hfree := h.free_eq hb hw
  have hnext := hj.only
  generalize User.joinNext b.addr w.addr s.mem = mem at hinv hfree hnext
  have hprev := only_joinPrev b.addr w.addr mem
  generalize User.joinPrev b.addr w.addr mem = mem' at hinv hfree hprev
  refine ⟨_, _, hfree, rfl, hinv, ?_,
    ⟨v, mem_holes.2 ⟨List.mem_append_right l₁ List.mem_cons_self, hv⟩, hbn.trans hvn⟩, ?_⟩
  · rw [inUse_append, inUse_free hv, huse, huse']
  · intro c hc x hx hx'
    obtain ⟨hcm, hcb, hcw⟩ := h.users (last_mem hw) hc
    have hbm : b ∈ pre ++ b :: post := List.mem_append_right pre List.mem_cons_self
    have hwm := (h.mem_pre (mem_cons_of_node (last_mem hw))).1
    exact (hprev x (h.outside hcm hwm hcw hx hx')).trans
      (hnext x (h.outside hcm (List.mem_cons_of_mem _ hbm) hcb hx hx'))

end Inv

end Xv6.User
