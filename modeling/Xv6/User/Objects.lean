/-
The objects of a program (`umalloc.c`).

What `malloc` and `free` are for: an object is a list of bytes at a pointer, `malloc` gives a
new one, a store changes one byte of one object, and `free` ends one. A program that keeps to
its objects (it frees a pointer that it got and has not freed, and loads and stores within
the bytes it asked for) cannot tell the heap from such objects, in any run of these calls.
-/
import Xv6.User.Alloc
import Xv6.Lib.Run

set_option autoImplicit false

namespace Xv6.User

open Xv6.Lib Xv6.Mkfs

/-! ## The calls -/

/-- What a program does with memory. `room` is what the kernel has for `sbrk`. -/
inductive Call where
  | malloc (nbytes : Nat) (room : Nat → Bool)
  | free (p : Nat)
  | load (p i : Nat)
  | store (p i : Nat) (v : Byte)

inductive Ret where
  | ptr (p : Nat)
  | byte (v : Byte)
  | done
  deriving DecidableEq

def Process.exec (base : Nat) (c : Call) (s : Process) : Option (Ret × Process) :=
  match c with
  | .malloc nbytes room => (malloc base room nbytes s).map fun r => (.ptr r.1, r.2)
  | .free p => (free p s).map fun t => (.done, t)
  | .load p i => some (.byte (s.mem (p + i)), s)
  | .store p i v => some (.done, { s with mem := Function.update s.mem (p + i) v })

/-- How many bytes the program asked for at a pointer that it has. -/
abbrev Sizes := Nat → Option Nat

def Sizes.after (d : Sizes) : Call → Ret → Sizes
  | .malloc nbytes _, .ptr p => if p = 0 then d else Function.update d p (some nbytes)
  | .free p, _ => Function.update d p none
  | _, _ => d

/-- The program keeps to its objects. It asks for less than an integer holds. -/
def Call.Proper (d : Sizes) : Call → Prop
  | .malloc nbytes _ => nbytes + 15 < 2 ^ 31
  | .free p => ∃ n, d p = some n
  | .load p i => ∃ n, d p = some n ∧ i < n
  | .store p i _ => ∃ n, d p = some n ∧ i < n

def Step (base : Nat) (s : Process × Sizes) (l : Call × Ret) (t : Process × Sizes) : Prop :=
  l.1.Proper s.2 ∧ s.1.exec base l.1 = some (l.2, t.1) ∧ t.2 = s.2.after l.1 l.2

/-! ## Objects -/

abbrev Objects := Nat → Option (List Byte)

/-- What the calls are for. What a new object holds is not said. -/
def SpecStep (f : Objects) (l : Call × Ret) (g : Objects) : Prop :=
  match l with
  | (.malloc nbytes _, .ptr p) => p = 0 ∧ g = f ∨
      p ≠ 0 ∧ f p = none ∧
        ∃ bs : List Byte, bs.length = nbytes ∧ g = Function.update f p (some bs)
  | (.free p, .done) => (∃ bs, f p = some bs) ∧ g = Function.update f p none
  | (.load p i, .byte v) => g = f ∧ ∃ bs, f p = some bs ∧ bs[i]? = some v
  | (.store p i v, .done) =>
      ∃ bs, f p = some bs ∧ i < bs.length ∧ g = Function.update f p (some (bs.set i v))
  | _ => False

/-- The bytes at a pointer. -/
def bytes (mem : Nat → Byte) (p n : Nat) : List Byte := (List.range n).map fun i => mem (p + i)

/-- The objects in the memory of the process. -/
def objects (s : Process × Sizes) : Objects := fun p => (s.2 p).map (bytes s.1.mem p)

/-! ## The heap has the objects -/

/-- The blocks in use are the objects of the program. -/
structure Accounts (base start : Nat) (s : Process × Sizes) (l : List Block) : Prop where
  inv : Inv base start (enter base s.1) l
  object : ∀ p n, s.2 p = some n →
    ∃ b ∈ inUse l, p = b.addr + HEADER ∧ n + HEADER ≤ b.n * HEADER
  block : ∀ b ∈ inUse l, ∃ n, s.2 (b.addr + HEADER) = some n
  fresh : s.1.freep = 0 → l = []

variable {base start : Nat} {s t : Process × Sizes} {l l' l₁ l₂ : List Block} {b : Block}
  {mem mem' : Nat → Byte} {c : Call} {r : Ret} {p n x : Nat}

theorem enter_of_ne (base : Nat) {s : Process} (h : s.freep ≠ 0) : enter base s = s := if_neg h

theorem enter_mem {s : Process} (hx : base + HEADER ≤ x) : (enter base s).mem x = s.mem x := by
  rw [enter]
  split_ifs
  · exact (only_setPtr base base s.mem).trans (only_setSize base 0 _) x (Or.inr hx)
  · rfl

theorem bytes_congr (h : ∀ i, i < n → mem' (p + i) = mem (p + i)) :
    bytes mem' p n = bytes mem p n :=
  List.map_congr_left fun i hi => h i (List.mem_range.1 hi)

theorem bytes_update {i : Nat} {v : Byte} :
    bytes (Function.update mem (p + i) v) p n = (bytes mem p n).set i v := by
  apply List.ext_getElem
  · simp [bytes]
  · intro j h₁ h₂
    rw [List.getElem_set]
    simp only [bytes, List.getElem_map, List.getElem_range]
    rw [Function.update_apply]
    by_cases hij : i = j
    · rw [if_pos hij, if_pos (by omega)]
    · rw [if_neg hij, if_neg (by omega)]

theorem objects_of (hp : s.2 p = some n) : objects s p = some (bytes s.1.mem p n) := by
  rw [objects, hp]
  rfl

namespace Inv

theorem freep_ne {s : Process} (h : Inv base start s l) : s.freep ≠ 0 := by
  obtain ⟨v, hv, hvf⟩ := List.mem_map.1 h.freep
  have hb := h.base_pos
  rw [← hvf]
  rcases List.mem_cons.1 hv with rfl | hv
  · exact hb.ne'
  · have := h.base_lt (mem_holes.1 hv).1
    omega

/-- The blocks in use are at different places. -/
theorem inUse_sorted {s : Process} (h : Inv base start s l) :
    (inUse l).Pairwise fun b c => b.stop ≤ c.addr ∧ b.addr < c.addr := by
  refine List.Pairwise.sublist List.filter_sublist ?_
  refine List.Pairwise.imp_of_mem (fun {b c} hb _ hbc => ⟨hbc, ?_⟩) h.tiled.pairwise
  have := Block.header_le_stop (h.tiled.pos b hb)
  unfold HEADER at this
  omega

/-- The other blocks in use are elsewhere. -/
theorem addr_ne {s : Process} (h : Inv base start s l) (hl : inUse l = l₁ ++ b :: l₂)
    {d : Block} (hd : d ∈ l₁ ++ l₂) : d.addr ≠ b.addr := by
  have hsorted := List.pairwise_append.1 (hl ▸ h.inUse_sorted)
  rcases List.mem_append.1 hd with hd | hd
  · exact (hsorted.2.2 d hd b List.mem_cons_self).2.ne
  · exact ((List.pairwise_cons.1 hsorted.2.1).1 d hd).2.ne'

/-- What a program writes to its bytes of a block the allocator does not see. -/
theorem store {s : Process} (h : Inv base start s l) (hb : b ∈ inUse l)
    (hx : b.addr + HEADER ≤ x) (hx' : x < b.stop) (v : Byte) :
    Inv base start { s with mem := Function.update s.mem x v } l := by
  have hbl := (mem_inUse.1 hb).1
  have hout : ∀ d ∈ (⟨base, 0, false⟩ :: l : List Block), x < d.addr ∨ d.addr + HEADER ≤ x := by
    intro d hd
    by_cases hbd : b = d
    · exact Or.inr (hbd ▸ hx)
    · exact h.outside hbl hd hbd ((Nat.le_add_right _ _).trans hx) hx'
  have hsame : ∀ d ∈ (⟨base, 0, false⟩ :: l : List Block),
      ptr (Function.update s.mem x v) d.addr = ptr s.mem d.addr ∧
        size (Function.update s.mem x v) d.addr = size s.mem d.addr := by
    intro d hd
    have hd' := hout d hd
    unfold HEADER at hd'
    constructor
    · apply getNum_congr
      intro j hj hj'
      exact Function.update_of_ne (by omega) _ _
    · apply getNum_congr
      intro j hj hj'
      exact Function.update_of_ne (by omega) _ _
  exact ⟨h.base_pos, h.base_le, h.sz_lt, h.tiled,
    h.ring.congr fun d hd => (hsame d (mem_cons_of_node hd)).1,
    fun d hd => (hsame d hd).2.trans (h.sizes d hd), h.freep⟩

end Inv

namespace Accounts

/-- The process of a program that has an object. -/
theorem entered (h : Accounts base start s l) (hp : s.2 p = some n) :
    enter base s.1 = s.1 ∧ Inv base start s.1 l := by
  have hne : s.1.freep ≠ 0 := fun h0 => by
    obtain ⟨b, hb, -⟩ := h.object p n hp
    rw [h.fresh h0] at hb
    exact List.not_mem_nil hb
  have he := enter_of_ne base hne
  exact ⟨he, he ▸ h.inv⟩

/-- Objects that keep their blocks keep their bytes. -/
theorem objects_congr (h : Accounts base start s l) {q : Nat} {mem : Nat → Byte} {d : Sizes}
    {f : Nat} {z : Nat} (hd : d q = s.2 q)
    (hmem : ∀ b ∈ inUse l, q = b.addr + HEADER →
      ∀ x, b.addr ≤ x → x < b.stop → mem x = (enter base s.1).mem x) :
    objects (⟨mem, f, z⟩, d) q = objects s q := by
  unfold objects
  dsimp only
  rw [hd]
  cases hq : s.2 q with
  | none => rfl
  | some n =>
    obtain ⟨b, hb, hqb, hn⟩ := h.object q n hq
    rw [Option.map_some, Option.map_some]
    refine congrArg some (bytes_congr fun i hi => ?_)
    have hle := h.inv.base_lt (mem_inUse.1 hb).1
    rw [hmem b hb hqb (q + i) (by omega) (by unfold Block.stop; omega)]
    exact enter_mem (by omega)

/-- A block that was not in use is no object. -/
theorem vacant (h : Accounts base start s l) {t : Process} (hinv : Inv base start t l')
    (huse : inUse l = l₁ ++ l₂) (huse' : inUse l' = l₁ ++ b :: l₂) :
    s.2 (b.addr + HEADER) = none := by
  by_contra hne
  obtain ⟨m, hm⟩ := Option.ne_none_iff_exists'.1 hne
  obtain ⟨d, hd, hdb, -⟩ := h.object _ m hm
  exact hinv.addr_ne huse' (huse ▸ hd) (Nat.add_right_cancel hdb).symm

/-- One more block is in use, and is an object. -/
theorem insert (h : Accounts base start s l) {t : Process} (hinv : Inv base start t l')
    (huse : inUse l = l₁ ++ l₂) (huse' : inUse l' = l₁ ++ b :: l₂)
    (hn : n + HEADER ≤ b.n * HEADER) :
    Accounts base start (t, Function.update s.2 (b.addr + HEADER) (some n)) l' := by
  refine ⟨(enter_of_ne base hinv.freep_ne).symm ▸ hinv, fun q m hq => ?_, fun d hd => ?_,
    fun h0 => absurd h0 hinv.freep_ne⟩
  · rw [huse']
    by_cases hqb : q = b.addr + HEADER
    · have hq' : Function.update s.2 (b.addr + HEADER) (some n) q = some m := hq
      rw [hqb, Function.update_self] at hq'
      obtain rfl := Option.some.inj hq'
      exact ⟨b, mem_middle.2 (Or.inl rfl), hqb, hn⟩
    · obtain ⟨d, hd, hdq⟩ := h.object q m ((Function.update_of_ne hqb _ _).symm.trans hq)
      exact ⟨d, mem_middle.2 (Or.inr (huse ▸ hd)), hdq⟩
  · rw [huse'] at hd
    dsimp only
    rcases mem_middle.1 hd with rfl | hd
    · exact ⟨n, Function.update_self _ _ _⟩
    · have hne := hinv.addr_ne huse' hd
      rw [Function.update_of_ne fun he => hne (Nat.add_right_cancel he)]
      exact h.block d (huse ▸ hd)

/-- A block in use is free, and its object is gone. -/
theorem erase (h : Accounts base start s l) {t : Process} (hinv : Inv base start t l')
    (huse : inUse l = l₁ ++ b :: l₂) (huse' : inUse l' = l₁ ++ l₂) :
    Accounts base start (t, Function.update s.2 (b.addr + HEADER) none) l' := by
  refine ⟨(enter_of_ne base hinv.freep_ne).symm ▸ hinv, fun q m hq => ?_, fun d hd => ?_,
    fun h0 => absurd h0 hinv.freep_ne⟩
  · have hqb : q ≠ b.addr + HEADER := by
      rintro rfl
      exact Option.some_ne_none m (hq.symm.trans (Function.update_self _ _ _))
    obtain ⟨d, hd, hqd, hm⟩ := h.object q m ((Function.update_of_ne hqb _ _).symm.trans hq)
    refine ⟨d, huse' ▸ (mem_middle.1 (huse ▸ hd)).resolve_left ?_, hqd, hm⟩
    rintro rfl
    exact hqb hqd
  · rw [huse'] at hd
    dsimp only
    have hne := h.inv.addr_ne huse hd
    rw [Function.update_of_ne fun he => hne (Nat.add_right_cancel he)]
    exact h.block d (huse ▸ mem_middle.2 (Or.inr hd))

/-- **`malloc`** -/
theorem malloc (h : Accounts base start s l) (room : Nat → Bool) (hn : n + 15 < 2 ^ 31) :
    ∃ p t, s.1.exec base (.malloc n room) = some (.ptr p, t) ∧
      SpecStep (objects s) (.malloc n room, .ptr p)
        (objects (t, s.2.after (.malloc n room) (.ptr p))) ∧
      (∃ l', Accounts base start (t, s.2.after (.malloc n room) (.ptr p)) l') ∧
      (p = 0 ↔ (∀ b ∈ holes l, b.n < units n) ∧ ¬Granted room (units n) s.1) := by
  rcases h.inv.malloc room hn with
    ⟨t, l', b, l₁, l₂, hrun, hinv, hbn, huse, huse', hframe, hwhy⟩ | ⟨hrun, hsmall, hno⟩
  · -- a new object
    have hp : b.addr + HEADER ≠ 0 := Nat.succ_ne_zero _
    have hnone := h.vacant hinv huse huse'
    have hunits : n + HEADER ≤ b.n * HEADER := by
      rw [hbn]
      unfold units HEADER
      omega
    have hd' : s.2.after (.malloc n room) (.ptr (b.addr + HEADER)) =
        Function.update s.2 (b.addr + HEADER) (some n) := by
      unfold Sizes.after
      exact if_neg hp
    refine ⟨b.addr + HEADER, t, congrArg (Option.map _) hrun, ?_,
      ⟨l', hd' ▸ h.insert hinv huse huse' hunits⟩, ?_⟩
    · refine Or.inr ⟨hp, ?_, bytes t.mem (b.addr + HEADER) n, by simp [bytes], ?_⟩
      · rw [objects, hnone]
        rfl
      · rw [hd']
        funext q
        by_cases hq : q = b.addr + HEADER
        · rw [hq, Function.update_self, objects]
          dsimp only
          rw [Function.update_self]
          rfl
        · rw [Function.update_of_ne hq]
          exact h.objects_congr (Function.update_of_ne hq _ _) fun d hd _ => hframe d hd
    · refine iff_of_false hp fun hboth => ?_
      rcases hwhy with ⟨d, hd, hle⟩ | hg
      · exact absurd (hboth.1 d hd) (Nat.not_lt_of_le hle)
      · exact hboth.2 hg
  · refine ⟨0, enter base s.1, congrArg (Option.map _) hrun, Or.inl ⟨rfl, ?_⟩, ⟨l, ?_⟩,
      iff_of_true rfl ⟨hsmall, hno⟩⟩
    · funext q
      exact h.objects_congr rfl fun d _ _ x _ _ => rfl
    · have hne : (enter base s.1).freep ≠ 0 := h.inv.freep_ne
      exact ⟨(enter_of_ne base hne).symm ▸ h.inv, h.object, h.block, fun h0 => absurd h0 hne⟩

/-- **`free`** -/
theorem free (h : Accounts base start s l) (hp : s.2 p = some n) :
    ∃ t, s.1.exec base (.free p) = some (.done, t) ∧
      SpecStep (objects s) (.free p, .done) (objects (t, s.2.after (.free p) .done)) ∧
      ∃ l', Accounts base start (t, s.2.after (.free p) .done) l' := by
  obtain ⟨he, hinv⟩ := h.entered hp
  obtain ⟨b, hb, rfl, -⟩ := h.object p n hp
  obtain ⟨hbl, hbu⟩ := mem_inUse.1 hb
  have hplus : plus b.addr 1 = b.addr + HEADER := by
    rw [hinv.plus_eq hbl (hinv.tiled.pos b hbl), Nat.one_mul]
  obtain ⟨pre, post, rfl⟩ := List.append_of_mem hbl
  obtain ⟨t, l', hrun, -, hinv', huse', -, hframe⟩ := hinv.free hbu
  rw [hplus] at hrun
  have huse : inUse (pre ++ b :: post) = inUse pre ++ b :: inUse post := by
    rw [inUse_append, inUse_used hbu]
  have hexec : s.1.exec base (.free (b.addr + HEADER)) = some (.done, t) := by
    unfold Process.exec
    dsimp only
    rw [hrun, Option.map_some]
  refine ⟨t, hexec, ⟨⟨_, objects_of hp⟩, ?_⟩, l', h.erase hinv' huse huse'⟩
  funext q
  by_cases hq : q = b.addr + HEADER
  · have hnone : Function.update s.2 (b.addr + HEADER) none (b.addr + HEADER) = none :=
      Function.update_self _ _ _
    rw [hq, Function.update_self, objects, Option.map_eq_none_iff]
    exact hnone
  · rw [Function.update_of_ne hq]
    refine h.objects_congr (Function.update_of_ne hq _ _) fun d hd hqd => ?_
    rw [he]
    refine hframe d ((mem_middle.1 (huse ▸ hd)).resolve_left ?_)
    rintro rfl
    exact hq hqd

/-- A store. -/
theorem store (h : Accounts base start s l) (hp : s.2 p = some n) {i : Nat} (hi : i < n)
    (v : Byte) :
    SpecStep (objects s) (.store p i v, .done)
        (objects ({ s.1 with mem := Function.update s.1.mem (p + i) v }, s.2)) ∧
      Accounts base start ({ s.1 with mem := Function.update s.1.mem (p + i) v }, s.2) l := by
  obtain ⟨he, hinv⟩ := h.entered hp
  obtain ⟨b, hb, hpb, hn⟩ := h.object p n hp
  have hx : b.addr + HEADER ≤ p + i := by omega
  have hx' : p + i < b.stop := by
    unfold Block.stop
    omega
  have hinv' := hinv.store hb hx hx' v
  refine ⟨⟨bytes s.1.mem p n, objects_of hp, by simpa [bytes] using hi, ?_⟩, ?_⟩
  · funext q
    by_cases hq : q = p
    · rw [hq, Function.update_self, objects]
      dsimp only
      rw [hp, Option.map_some, bytes_update]
    · rw [Function.update_of_ne hq]
      refine h.objects_congr rfl fun d hd hqd y hy hy' => ?_
      rw [he]
      refine Function.update_of_ne ?_ _ _
      rintro rfl
      -- the byte is in one block only
      have hdb : d ≠ b := by
        rintro rfl
        exact hq (hqd.trans hpb.symm)
      rcases rel_or_rel hinv.tiled.pairwise (mem_inUse.1 hd).1 (mem_inUse.1 hb).1 hdb with
        hle | hle
      all_goals omega
  · exact ⟨(enter_of_ne base hinv'.freep_ne).symm ▸ hinv', h.object, h.block, h.fresh⟩

/-- **Each call** does what it is for, and ends. -/
theorem step (h : Accounts base start s l) (hc : c.Proper s.2) :
    ∃ r t, s.1.exec base c = some (r, t) ∧
      SpecStep (objects s) (c, r) (objects (t, s.2.after c r)) ∧
      ∃ l', Accounts base start (t, s.2.after c r) l' := by
  cases c with
  | malloc n room =>
    obtain ⟨p, t, hrun, hspec, hacc, -⟩ := h.malloc room hc
    exact ⟨.ptr p, t, hrun, hspec, hacc⟩
  | free p =>
    obtain ⟨n, hp⟩ := hc
    obtain ⟨t, hrun, hspec, hacc⟩ := h.free hp
    exact ⟨.done, t, hrun, hspec, hacc⟩
  | load p i =>
    obtain ⟨n, hp, hi⟩ := hc
    refine ⟨.byte (s.1.mem (p + i)), s.1, rfl, ⟨rfl, _, objects_of hp, ?_⟩, l, h⟩
    simp [bytes, hi]
  | store p i v =>
    obtain ⟨n, hp, hi⟩ := hc
    obtain ⟨hspec, hacc⟩ := h.store hp hi v
    exact ⟨.done, _, rfl, hspec, l, hacc⟩

/-- A program at its start. -/
theorem boot {s : Process} (hb : 0 < base) (hs : base + HEADER ≤ start) (hsz : s.sz = start)
    (hlt : start < KERNBASE) (h0 : s.freep = 0) :
    Accounts base start (s, fun _ => none) [] := by
  have hbase : base < 2 ^ 32 := by
    unfold KERNBASE HEADER at *
    omega
  refine ⟨?_, fun p n hp => absurd hp.symm (Option.some_ne_none n),
    fun b hb => absurd hb List.not_mem_nil, fun _ => rfl⟩
  have henter : enter base s = ⟨setSize base 0 (setPtr base base s.mem), base, start⟩ := by
    rw [enter, if_pos h0, hsz]
  dsimp only
  rw [henter]
  refine ⟨hb, hs, hlt, ⟨rfl, fun b hb => absurd hb List.not_mem_nil, List.isChain_nil⟩,
    ⟨rfl, ?_⟩, fun b hb => ?_, List.mem_cons_self⟩
  · show ptr (setSize base 0 (setPtr base base s.mem)) base = base
    rw [ptr_setSize, ptr_setPtr hbase]
  · obtain rfl := List.mem_singleton.1 hb
    exact size_setSize (by decide)

/-- **A run.** -/
theorem run {ls : List (Call × Ret)} (h : Run (Step base) s ls t) {f : Objects}
    (hf : f = objects s) (hs : ∃ l, Accounts base start s l) :
    Run SpecStep f ls (objects t) ∧ ∃ l, Accounts base start t l := by
  subst hf
  -- each step of the heap is one of the objects in its memory
  have hstep : ∀ (s : Process × Sizes) (f : Objects) (l : Call × Ret) (t : Process × Sizes),
      (f = objects s ∧ ∃ l, Accounts base start s l) → Step base s l t →
      ∃ g, SpecStep f l g ∧ g = objects t ∧ ∃ l, Accounts base start t l := by
    rintro s f ⟨c, r⟩ t ⟨rfl, l, hl⟩ ⟨hc, hexec, hd⟩
    obtain ⟨r', t', hexec', hspec, hl'⟩ := hl.step hc
    obtain ⟨rfl, rfl⟩ := Prod.mk.inj (Option.some.inj (hexec.symm.trans hexec'))
    have ht : t = (t.1, s.2.after c r) := Prod.ext rfl hd
    rw [ht]
    exact ⟨_, hspec, rfl, hl'⟩
  obtain ⟨g, hrun, rfl, ht⟩ := h.refine hstep (objects s) ⟨rfl, hs⟩
  exact ⟨hrun, ht⟩

end Accounts

/-! ## Runs -/

/-- A program that has not yet called `malloc`. -/
structure Boot (base start : Nat) (s : Process) : Prop where
  base_pos : 0 < base
  base_le : base + HEADER ≤ start
  sz : s.sz = start
  sz_lt : start < KERNBASE
  freep : s.freep = 0

theorem Boot.run {s : Process} (h : Boot base start s) {ls : List (Call × Ret)}
    (hrun : Run (Step base) (s, fun _ => none) ls t) :
    Run SpecStep (fun _ => none) ls (objects t) ∧ ∃ l, Accounts base start t l :=
  Accounts.run hrun rfl ⟨[], Accounts.boot h.base_pos h.base_le h.sz h.sz_lt h.freep⟩

/-! ## A small program -/

/-- A step, computed. -/
def next (base : Nat) (s : Process × Sizes) (l : Call × Ret) : Process × Sizes :=
  (((s.1.exec base l.1).map Prod.snd).getD s.1, s.2.after l.1 l.2)

theorem step_next {l : Call × Ret} (hc : l.1.Proper s.2)
    (hr : (s.1.exec base l.1).map Prod.fst = some l.2) : Step base s l (next base s l) := by
  obtain ⟨⟨r, u⟩, hexec, rfl⟩ := Option.map_eq_some_iff.1 hr
  refine ⟨hc, ?_, rfl⟩
  rw [next, hexec]
  rfl

/-- A process of three pages. -/
def booted : Process := ⟨fun _ => 0, 0, 0x3000⟩

theorem boot_booted : Boot 0x1000 0x3000 booted :=
  ⟨by decide, by decide, rfl, by decide, rfl⟩

def served : List (Call × Ret) :=
  [(.malloc 10 fun _ => true, .ptr 45040), (.malloc 20 fun _ => true, .ptr 45008),
    (.store 45040 9 65, .done), (.free 45008, .done), (.load 45040 9, .byte 65)]

theorem served_run : Run (Step 0x1000) (booted, fun _ => none) served
    (served.foldl (next 0x1000) (booted, fun _ => none)) :=
  .cons (step_next (show 10 + 15 < 2 ^ 31 by decide) (by decide +kernel)) <|
  .cons (step_next (show 20 + 15 < 2 ^ 31 by decide) (by decide +kernel)) <|
  .cons (step_next ⟨10, rfl, by decide⟩ rfl) <|
  .cons (step_next ⟨20, rfl⟩ (by decide +kernel)) <|
  .cons (step_next ⟨10, rfl, by decide⟩ (by decide +kernel)) (.nil _)

/-! ## Results -/

/-- **The heap is a store of objects.** In every run of a program that keeps to its objects
each call ends, and the answers are those of objects that share nothing. -/
theorem objects_of_heap {s : Process} (h : Boot base start s) {ls : List (Call × Ret)}
    (hrun : Run (Step base) (s, fun _ => none) ls t) :
    Run SpecStep (fun _ => none) ls (objects t) ∧
      ∀ c : Call, c.Proper t.2 → ∃ r u, t.1.exec base c = some (r, u) := by
  obtain ⟨hspec, l, hl⟩ := h.run hrun
  refine ⟨hspec, fun c hc => ?_⟩
  obtain ⟨r, u, hexec, -⟩ := hl.step hc
  exact ⟨r, u, hexec⟩

theorem objects_of_heap_served : Run SpecStep (fun _ => none) served
      (objects (served.foldl (next 0x1000) (booted, fun _ => none))) ∧
    ∀ c : Call, c.Proper (served.foldl (next 0x1000) (booted, fun _ => none)).2 →
      ∃ r u, (served.foldl (next 0x1000) (booted, fun _ => none)).1.exec 0x1000 c =
        some (r, u) :=
  objects_of_heap boot_booted served_run

/-- The row of blocks of a process, also before the first call of `malloc`. -/
theorem Accounts.tiled (h : Accounts base start s l) : Tiled start l s.1.sz := by
  have hsz : (enter base s.1).sz = s.1.sz := by
    rw [enter]
    split_ifs <;> rfl
  exact hsz ▸ h.inv.tiled

theorem Accounts.sizes (h : Accounts base start s l) : ∀ b ∈ l, size s.1.mem b.addr = b.n := by
  intro b hb
  by_cases h0 : s.1.freep = 0
  · rw [h.fresh h0] at hb
    exact absurd hb List.not_mem_nil
  · rw [← enter_of_ne base h0]
    exact h.inv.sizes b (List.mem_cons_of_mem _ hb)

theorem Accounts.pointers (h : Accounts base start s l) (p : Nat) :
    (∃ n, s.2 p = some n) ↔ ∃ b ∈ inUse l, p = b.addr + HEADER := by
  constructor
  · rintro ⟨n, hp⟩
    obtain ⟨b, hb, hpb, -⟩ := h.object p n hp
    exact ⟨b, hb, hpb⟩
  · rintro ⟨b, hb, rfl⟩
    exact h.block b hb

/-- **Nothing is lost.** After every run the memory that `malloc` got from the kernel is a row
of blocks. Those in use are the objects of the program. The free ones are the ring, no two of
them side by side; when the program has freed all its objects, there is one that has all. -/
theorem heap_tiled {s : Process} (h : Boot base start s) {ls : List (Call × Ret)}
    (hrun : Run (Step base) (s, fun _ => none) ls t) :
    ∃ l, Tiled start l t.1.sz ∧ (∀ b ∈ l, size t.1.mem b.addr = b.n) ∧
      (∀ p, (∃ n, t.2 p = some n) ↔ ∃ b ∈ inUse l, p = b.addr + HEADER) ∧
      (t.1.freep ≠ 0 → Path Block.addr (fun b => ptr t.1.mem b.addr) base (nodes base l) base) ∧
      ((∀ p, t.2 p = none) → t.1.sz = start ∨
        ∃ b, l = [b] ∧ b.used = false ∧ b.addr = start ∧ b.stop = t.1.sz) := by
  obtain ⟨-, l, hl⟩ := h.run hrun
  refine ⟨l, hl.tiled, hl.sizes, hl.pointers, fun hne => ?_, fun hnone => ?_⟩
  · have hring := hl.inv.ring
    rwa [enter_of_ne base hne] at hring
  · have hnil : inUse l = [] := by
      refine List.eq_nil_iff_forall_not_mem.2 fun b hb => ?_
      obtain ⟨n, hn⟩ := hl.block b hb
      exact Option.some_ne_none n (hn.symm.trans (hnone _))
    rcases hl.tiled.single hnil with ⟨-, he⟩ | hone
    · exact Or.inl he.symm
    · exact Or.inr hone

theorem heap_tiled_served : ∃ l,
    Tiled 0x3000 l (served.foldl (next 0x1000) (booted, fun _ => none)).1.sz ∧
      ∀ p, (∃ n, (served.foldl (next 0x1000) (booted, fun _ => none)).2 p = some n) ↔
        ∃ b ∈ inUse l, p = b.addr + HEADER := by
  obtain ⟨l, ht, -, hp, -⟩ := heap_tiled boot_booted served_run
  exact ⟨l, ht, hp⟩

/-- **`malloc` gives up** only when no free block is large enough and the kernel refuses what
`morecore` asks for. -/
theorem malloc_null {s : Process} (h : Boot base start s) {ls : List (Call × Ret)}
    (hrun : Run (Step base) (s, fun _ => none) ls t) {nbytes : Nat}
    (hn : nbytes + 15 < 2 ^ 31) (room : Nat → Bool) :
    ∃ l p u, Tiled start l t.1.sz ∧ (∀ b ∈ l, size t.1.mem b.addr = b.n) ∧
      (∀ p, (∃ n, t.2 p = some n) ↔ ∃ b ∈ inUse l, p = b.addr + HEADER) ∧
      malloc base room nbytes t.1 = some (p, u) ∧
      (p = 0 ↔ (∀ b ∈ holes l, b.n < units nbytes) ∧ ¬Granted room (units nbytes) t.1) := by
  obtain ⟨-, l, hl⟩ := h.run hrun
  obtain ⟨p, u, hexec, -, -, hiff⟩ := hl.malloc room hn
  obtain ⟨⟨p', u'⟩, hmalloc, heq⟩ := Option.map_eq_some_iff.1 hexec
  obtain ⟨hp, rfl⟩ := Prod.mk.inj heq
  obtain rfl := Ret.ptr.inj hp
  exact ⟨l, p', u', hl.tiled, hl.sizes, hl.pointers, hmalloc, hiff⟩

/-- The kernel refuses, and the rest of the 4096 units is too small. -/
theorem malloc_null_served : ∃ l p u,
    malloc 0x1000 (fun _ => false) 40000
      (served.foldl (next 0x1000) (booted, fun _ => none)).1 = some (p, u) ∧
    (p = 0 ↔ (∀ b ∈ holes l, b.n < units 40000) ∧ ¬Granted (fun _ => false) (units 40000)
      (served.foldl (next 0x1000) (booted, fun _ => none)).1) := by
  obtain ⟨l, p, u, -, -, -, hrun, hiff⟩ :=
    malloc_null boot_booted served_run (show 40000 + 15 < 2 ^ 31 by decide) fun _ => false
  exact ⟨l, p, u, hrun, hiff⟩

end Xv6.User
