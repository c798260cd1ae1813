/-
The swapping machine seen by its programs.

`Flat` is a machine without paging: each process has a private memory of bytes.
`UserStep` is what the real machine does for its programs: their loads and
stores (with their own page directory loaded), `sbrk`, page faults, `exit`, allocations
in the kernel, and the switch to another process. A label says what a program can observe. `Transparent up` says
that every trace of the real machine is one of the flat machine, in which `sbrk`
clears the memory between the old and the new size, both rounded by `up`.

With `PGROUNDUP` that holds (`transparent_pageRounded`). It does not hold without
rounding (`not_transparent_exact`): when a process shrinks inside a page and
grows again, the bytes it left in that page are still there.
-/
import Xv6.Lib.Run
import Xv6.Swap.Fault

set_option autoImplicit false

namespace Xv6.Swap

open Xv6.Lib

/-! ## The flat machine -/

structure Flat where
  cur : Nat
  alive : Nat → Prop
  sz : Nat → Nat
  mem : Nat → Nat → Byte

/-- What a step shows. -/
inductive Label where
  | load (p a : Nat) (b : Byte)
  | store (p a : Nat) (b : Byte)
  | sbrk (p : Nat) (n : Int) (ok : Bool)
  | exit (p : Nat)
  | switch (q : Nat)
  | tau

namespace Flat

/-- Process `cur` changes its size by `n`; what lies beyond the old size is zero. -/
def resize (up : Nat → Nat) (f : Flat) (n : Int) : Flat :=
  let sz := grownSize (f.sz f.cur) n
  { f with
    sz := Function.update f.sz f.cur sz
    mem := Function.update f.mem f.cur fun x =>
      if up (f.sz f.cur) ≤ x ∧ x < up sz then 0 else f.mem f.cur x }

inductive Step (up : Nat → Nat) : Flat → Label → Flat → Prop where
  | load (f : Flat) (a : Nat) (hl : f.alive f.cur) (ha : a < f.sz f.cur) :
      Step up f (.load f.cur a (f.mem f.cur a)) f
  | store (f : Flat) (a : Nat) (b : Byte) (hl : f.alive f.cur) (ha : a < f.sz f.cur) :
      Step up f (.store f.cur a b)
        { f with mem := Function.update f.mem f.cur (Function.update (f.mem f.cur) a b) }
  | sbrk (f : Flat) (n : Int) (hl : f.alive f.cur) : Step up f (.sbrk f.cur n true) (f.resize up n)
  /-- Only growing can fail. -/
  | noMemory (f : Flat) (n : Int) (hl : f.alive f.cur) (hn : 0 < n) :
      Step up f (.sbrk f.cur n false) f
  | exit (f : Flat) (hl : f.alive f.cur) :
      Step up f (.exit f.cur) { f with alive := fun p => f.alive p ∧ p ≠ f.cur }
  | switch (f : Flat) (q : Nat) (hl : f.alive q) : Step up f (.switch q) { f with cur := q }
  | tau (f : Flat) : Step up f .tau f

end Flat

/-! ## The real machine -/

/-- The processor executes for a process, in the kernel or outside. -/
def Executing (s : Machine) : Prop := s.myproc.state = .RUNNING

instance (s : Machine) : Decidable (Executing s) := inferInstanceAs (Decidable (_ = _))

/-- The process executes its own instructions, with its page directory loaded. A page-out
in the kernel leaves the directory of its victim loaded, and then the process goes on in the
memory of the victim. -/
structure Running (s : Machine) : Prop where
  state : Executing s
  cr3 : s.cpu.cr3 = s.myproc.pgdir

/-- A step of the machine. System calls and faults are atomic. -/
inductive UserStep : Machine → Label → Machine → Prop where
  | load (s : Machine) (a : Nat) (e : Pte) (hr : Running s) (ha : a < s.myproc.sz)
      (he : uaccess s a false = some e) :
      UserStep s (.load s.cpu.proc a (uload s a e).1) (uload s a e).2
  | store (s : Machine) (a : Nat) (b : Byte) (e : Pte) (hr : Running s) (ha : a < s.myproc.sz)
      (he : uaccess s a true = some e) : UserStep s (.store s.cpu.proc a b) (ustore s a e b)
  | fault (s t : Machine) (a : Nat) (hr : Executing s) (ha : a < s.myproc.sz)
      (hrun : (pageFault a).run s = .ok (true, t)) : UserStep s .tau t
  /-- A fault for which no memory is found ends the process. -/
  | faultExit (s t : Machine) (a : Nat) (hr : Executing s) (ha : a < s.myproc.sz)
      (hrun : (pageFault a).run s = .ok (false, t)) : UserStep s (.exit s.cpu.proc) t
  | sbrk (s t : Machine) (n : Int) (ok : Bool) (hr : Executing s) (hlo : -2 ^ 31 ≤ n)
      (hhi : n < 2 ^ 31) (hpos : 0 < s.myproc.sz + n) (hrun : (growproc n).run s = .ok (ok, t)) :
      UserStep s (.sbrk s.cpu.proc n ok) t
  | exit (s t : Machine) (hr : Executing s) (hrun : exit.run s = .ok ((), t)) :
      UserStep s (.exit s.cpu.proc) t
  /-- The kernel allocates or frees a frame for a pipe. -/
  | pipealloc (s t : Machine) (i : Nat) (ok : Bool) (hr : Executing s)
      (hrun : (pipealloc i).run s = .ok (ok, t)) : UserStep s .tau t
  | pipeclose (s t : Machine) (i : Nat) (hr : Executing s)
      (hrun : (pipeclose i).run s = .ok ((), t)) : UserStep s .tau t
  | switch (s t : Machine) (q : Nat) (hrun : (schedule q).run s = .ok (true, t)) :
      UserStep s (.switch q) t
  /-- The buffer cache changes. -/
  | cache (s : Machine) (hits : List Bool) :
      UserStep s .tau (s.setCpu { s.cpu with hits := hits } s.hist.reloads)

/-- Byte `x` of the memory of process `p`. -/
def Machine.byte (s : Machine) (p x : Nat) : Option Byte :=
  (s.content (s.proc p).pgdir (x / PGSIZE)).map fun pg => pg (pgoff x)

/-- The memory of the processes, without frames and slots. -/
def flatten (s : Machine) : Flat where
  cur := s.cpu.proc
  alive p := (s.proc p).alive
  sz p := (s.proc p).sz
  mem p x := (s.byte p x).getD 0

/-- Every page below the size of a live process is in memory or in a slot. -/
def Mapped (s : Machine) : Prop :=
  ∀ p, (s.proc p).alive → ∀ v < pagesUp (s.proc p).sz, (s.content (s.proc p).pgdir v).isSome = true

/-- Every trace of the real machine is one of the flat machine. -/
def Transparent (up : Nat → Nat) : Prop :=
  ∀ s ls t, Inv ∅ s → Mapped s → Run UserStep s ls t → ∃ f, Run (Flat.Step up) (flatten s) ls f

/-! ## The simulation -/

/-- The flat machine has the bytes of the real one, up to the end of the last page
of each process. -/
structure Flattens (s : Machine) (f : Flat) : Prop where
  inv : Inv ∅ s
  cur : f.cur = s.cpu.proc
  alive : ∀ p, f.alive p ↔ (s.proc p).alive
  sz : ∀ p, (s.proc p).alive → f.sz p = (s.proc p).sz
  mem : ∀ p, (s.proc p).alive → ∀ x < PGROUNDUP (s.proc p).sz, s.byte p x = some (f.mem p x)

variable {s t : Machine} {f : Flat}

theorem Executing.alive (hr : Executing s) : s.myproc.alive := by
  refine ⟨⟨?_, ?_⟩, ?_⟩
  all_goals
    rw [show s.myproc.state = .RUNNING from hr]
    decide

theorem Running.alive (hr : Running s) : s.myproc.alive := hr.state.alive

theorem page_of_lt {x sz : Nat} (hx : x < PGROUNDUP sz) : x / PGSIZE < pagesUp sz := by
  simp only [PGROUNDUP, PGSIZE, SWAP_BLOCKS_PER_PAGE, BSIZE] at *
  omega

theorem lt_pgroundup {x sz : Nat} (hx : x < sz) : x < PGROUNDUP sz := by
  simp only [PGROUNDUP, pagesUp]
  omega

theorem flattens_flatten (hI : Inv ∅ s) (hm : Mapped s) : Flattens s (flatten s) where
  inv := hI
  cur := rfl
  alive _ := Iff.rfl
  sz _ _ := rfl
  mem p hp x hx := by
    obtain ⟨pg, hpg⟩ := Option.isSome_iff_exists.1 (hm p hp _ (page_of_lt hx))
    simp [flatten, Machine.byte, hpg]

/-- A step that changes no byte of the processes `A`. -/
theorem Serves.byte {A : Nat → Prop} {h : Set Nat} (hS : Serves h A noPage s t) (hI : Inv h s)
    {p : Nat} (hA : A p) (hp : (s.proc p).alive) {x : Nat} (hx : x < PGROUNDUP (s.proc p).sz) :
    t.byte p x = s.byte p x := by
  have hs := hS.spares p hA hp
  have hv : x / PGSIZE < UPAGES :=
    Nat.lt_of_lt_of_le (page_of_lt hx) (pagesUp_le_upages (hI.size p hp.1))
  simp only [Machine.byte, hs.pgdir, (hs.page _ hv id).content]

/-- A system call that every process survives with its memory. -/
theorem Flattens.everyone (hf : Flattens s f) (hS : Serves ∅ everyone noPage s t) : Flattens t f where
  inv := hS.inv
  cur := hf.cur.trans hS.cpu_proc.symm
  alive p := (hf.alive p).trans ⟨fun ha => (hS.spares p trivial ha).alive, hS.fewer p trivial⟩
  sz p ha := by
    have ha' := hS.fewer p trivial ha
    rw [(hS.spares p trivial ha').sz, hf.sz p ha']
  mem p ha x hx := by
    have ha' := hS.fewer p trivial ha
    rw [(hS.spares p trivial ha').sz] at hx
    rw [hS.byte hf.inv trivial ha' hx, hf.mem p ha' x hx]

/-- The caller is gone, and the others have their memory. -/
theorem Flattens.exit (hf : Flattens s f) (hS : Serves ∅ (others s) noPage s t)
    (hz : t.myproc.state = .ZOMBIE) :
    Flattens t { f with alive := fun p => f.alive p ∧ p ≠ f.cur } := by
  have hne : ∀ p, (t.proc p).alive → p ≠ s.cpu.proc := by
    rintro p ha rfl
    rw [Machine.myproc, hS.cpu_proc] at hz
    exact ha.2 hz
  refine ⟨hS.inv, hf.cur.trans hS.cpu_proc.symm, fun p => ?_, fun p ha => ?_, fun p ha x hx => ?_⟩
  · simp only [hf.cur, hf.alive]
    exact ⟨fun ha => (hS.spares p ha.2 ha.1).alive,
      fun ha => ⟨hS.fewer p (hne p ha) ha, hne p ha⟩⟩
  · have ha' := hS.fewer p (hne p ha) ha
    rw [(hS.spares p (hne p ha) ha').sz]
    exact hf.sz p ha'
  · have ha' := hS.fewer p (hne p ha) ha
    rw [(hS.spares p (hne p ha) ha').sz] at hx
    rw [hS.byte hf.inv (hne p ha) ha' hx]
    exact hf.mem p ha' x hx

/-- The caller changed; the others have their memory. -/
theorem Flattens.own (hf : Flattens s f) (hS : Serves ∅ (others s) noPage s t)
    (hcur : s.myproc.alive) (ht : t.myproc.alive) {g : Flat} (hcg : g.cur = f.cur)
    (hag : ∀ p, g.alive p ↔ f.alive p) (hsz : ∀ p, p ≠ f.cur → g.sz p = f.sz p)
    (hmem : ∀ p, p ≠ f.cur → g.mem p = f.mem p) (hs : g.sz f.cur = t.myproc.sz)
    (hm : ∀ x < PGROUNDUP t.myproc.sz, t.byte s.cpu.proc x = some (g.mem s.cpu.proc x)) :
    Flattens t g := by
  have hcp := hS.cpu_proc
  refine ⟨hS.inv, (hcg.trans hf.cur).trans hcp.symm, fun p => ?_, fun p ha => ?_, fun p ha x hx => ?_⟩
  · rw [hag, hf.alive]
    rcases eq_or_ne p s.cpu.proc with rfl | hp
    · rw [Machine.myproc, hcp] at ht
      exact iff_of_true hcur ht
    · exact ⟨fun ha => (hS.spares p hp ha).alive, hS.fewer p hp⟩
  · rcases eq_or_ne p s.cpu.proc with rfl | hp
    · rw [Machine.myproc, hcp] at hs
      rw [← hf.cur, hs, hf.cur]
    · have ha' := hS.fewer p hp ha
      rw [hsz p (by rw [hf.cur]; exact hp), hf.sz p ha', (hS.spares p hp ha').sz]
  · rcases eq_or_ne p s.cpu.proc with rfl | hp
    · rw [Machine.myproc, hcp] at hm
      exact hm x hx
    · have ha' := hS.fewer p hp ha
      rw [(hS.spares p hp ha').sz] at hx
      rw [hS.byte hf.inv hp ha' hx, hmem p (by rw [hf.cur]; exact hp)]
      exact hf.mem p ha' x hx

/-- A load of the real machine is one of the flat machine, with the same byte. -/
theorem Flattens.load {a : Nat} {e : Pte} (hf : Flattens s f) (hr : Running s)
    (ha : a < s.myproc.sz) (he : uaccess s a false = some e) :
    ∃ g, Flat.Step PGROUNDUP f (.load s.cpu.proc a (uload s a e).1) g ∧
      Flattens (uload s a e).2 g := by
  obtain ⟨hI, -, hcpu, hproc, hcont, hbyte⟩ := uload_spec hf.inv he
  have hmem := hf.mem _ hr.alive a (lt_pgroundup ha)
  have hval : (uload s a e).1 = f.mem s.cpu.proc a := by
    change s.byte s.cpu.proc a = _ at hmem
    rw [Machine.byte, show (s.proc s.cpu.proc).pgdir = s.cpu.cr3 from hr.cr3.symm, hbyte] at hmem
    exact Option.some.inj hmem
  refine ⟨f, ?_, hI, hf.cur.trans (by rw [hcpu]), ?_, ?_, ?_⟩
  · rw [hval, ← hf.cur]
    refine .load f a ((hf.alive _).2 (by rw [hf.cur]; exact hr.alive)) ?_
    rw [hf.cur, hf.sz _ hr.alive]
    exact ha
  · rw [hproc]; exact hf.alive
  · rw [hproc]; exact hf.sz
  · simp only [hproc, Machine.byte, hcont]
    exact hf.mem

theorem pgoff_inj {x a : Nat} (hv : x / PGSIZE = a / PGSIZE) (ho : pgoff x = pgoff a) : x = a := by
  have hm : x % PGSIZE = a % PGSIZE := congrArg Fin.val ho
  rw [← Nat.div_add_mod x PGSIZE, ← Nat.div_add_mod a PGSIZE, hv, hm]

/-- A store of the real machine is one of the flat machine. -/
theorem Flattens.store {a : Nat} {b : Byte} {e : Pte} (hf : Flattens s f) (hr : Running s)
    (ha : a < s.myproc.sz) (he : uaccess s a true = some e) :
    ∃ g, Flat.Step PGROUNDUP f (.store s.cpu.proc a b) g ∧ Flattens (ustore s a e b) g := by
  have hsz : s.myproc.sz ≤ KERNBASE := hf.inv.size _ hr.alive.1
  obtain ⟨hI, hK, hcpu, hproc, hold, hnew⟩ :=
    ustore_spec (b := b) hf.inv he (page_lt_upages ha hsz)
  have hsz' : (ustore s a e b).myproc.sz = s.myproc.sz := by rw [Machine.myproc, hcpu, hproc]; rfl
  have hal : f.alive f.cur := (hf.alive _).2 (by rw [hf.cur]; exact hr.alive)
  have hfsz : f.sz f.cur = s.myproc.sz := by rw [hf.cur]; exact hf.sz _ hr.alive
  refine ⟨_, by rw [← hf.cur]; exact .store f a b hal (by rw [hfsz]; exact ha), ?_⟩
  refine hf.own (hK.serves_others hf.inv hI hr.alive.1 fun d v hx => hx.1.trans hr.cr3) hr.alive
    (by rw [Machine.myproc, hcpu, hproc]; exact hr.alive) rfl (fun _ => Iff.rfl) (fun _ _ => rfl)
    (fun p hp => Function.update_of_ne hp _ _) ?_ fun x hx => ?_
  · rw [hsz', hfsz]
  · rw [hsz'] at hx
    have hmx := hf.mem _ hr.alive x hx
    have hdir : (s.proc s.cpu.proc).pgdir = s.cpu.cr3 := hr.cr3.symm
    rw [Machine.byte, hproc, hdir]
    rw [Machine.byte, hdir] at hmx
    simp only [hf.cur, Function.update_self]
    rcases eq_or_ne (x / PGSIZE) (a / PGSIZE) with hv | hv
    · rw [hv] at hmx ⊢
      rw [hold] at hmx
      rw [hnew, Option.map_some]
      refine congrArg some ?_
      rcases eq_or_ne x a with rfl | hxa
      · simp
      · rw [Function.update_of_ne hxa, Function.update_of_ne fun ho => hxa (pgoff_inj hv ho)]
        simpa using hmx
    · have hxa : x ≠ a := fun he => hv (by rw [he])
      have hk := hK.page s.cpu.cr3 (x / PGSIZE) (by rw [hr.cr3]; exact hf.inv.dir _ hr.alive.1)
        (by rw [hr.cr3]; exact hf.inv.alive_dir hr.alive)
        (Nat.lt_of_lt_of_le (page_of_lt hx) (pagesUp_le_upages hsz)) fun hx => hv hx.2
      rw [hk.content, hmx, Function.update_of_ne hxa]

/-- A page below the size is mapped, so a fault on it is in order. -/
theorem Flattens.faultOk {a : Nat} (hf : Flattens s f) (hr : Executing s) (ha : a < s.myproc.sz) :
    FaultOk s a := by
  intro e hw hp _ _
  refine ⟨fun he => ?_, ha⟩
  have hmem := hf.mem _ hr.alive a (lt_pgroundup ha)
  obtain ⟨sp, hsp⟩ := Option.isSome_iff_exists.1 (hf.inv.dir _ hr.alive.1)
  have hpte : s.pte s.myproc.pgdir (a / PGSIZE) = Pte.zero := by
    rw [Machine.walk, show s.space s.myproc.pgdir = some sp from hsp] at hw
    rw [Machine.pte_of_space (show s.space s.myproc.pgdir = some sp from hsp),
      (Space.walk_eq_some.1 hw).2, he]
  change s.byte s.cpu.proc a = _ at hmem
  rw [Machine.byte, Machine.content, show (s.proc s.cpu.proc).pgdir = s.myproc.pgdir from rfl, hpte]
    at hmem
  cases hmem

/-- `sbrk` of the real machine is one of the flat machine. -/
theorem Flattens.sbrk {n : Int} {ok : Bool} (hf : Flattens s f) (hr : Executing s)
    (hpos : 0 < s.myproc.sz + n) (hg : Grown s t n ok) :
    ∃ g, Flat.Step PGROUNDUP f (.sbrk s.cpu.proc n ok) g ∧ Flattens t g := by
  have hal : f.alive f.cur := (hf.alive _).2 (by rw [hf.cur]; exact hr.alive)
  have hfsz : f.sz f.cur = s.myproc.sz := by rw [hf.cur]; exact hf.sz _ hr.alive
  have hta : t.myproc.alive := by
    simp only [Proc.alive, Proc.live, hg.state, show s.myproc.state = .RUNNING from hr]
    decide
  have hdir : (t.proc s.cpu.proc).pgdir = s.myproc.pgdir := by
    rw [← hg.serves.cpu_proc]
    exact hg.pgdir
  -- the bytes of the pages that stay
  have hold : ok = true ∨ 0 < n → ∀ x, x < PGROUNDUP s.myproc.sz → x < PGROUNDUP t.myproc.sz →
      t.byte s.cpu.proc x = some (f.mem s.cpu.proc x) := by
    intro hc x h1 h2
    rw [← hf.mem _ hr.alive x h1, Machine.byte, Machine.byte, hdir]
    exact congrArg (Option.map _) (hg.kept hc _ (page_of_lt h1) (page_of_lt h2)).content
  cases ok with
  | false =>
    have hsz : t.myproc.sz = s.myproc.sz := hg.sz
    have hn : 0 < n := by
      rcases hg.fails rfl with hn | hn
      · exact hn
      · omega
    refine ⟨f, by rw [← hf.cur]; exact .noMemory f n hal hn, hf.own hg.serves hr.alive hta rfl
      (fun _ => Iff.rfl) (fun _ _ => rfl) (fun _ _ => rfl) (by rw [hsz, hfsz]) fun x hx => ?_⟩
    exact hold (Or.inr hn) x (hsz ▸ hx) hx
  | true =>
    have hsz : t.myproc.sz = grownSize s.myproc.sz n := hg.sz
    refine ⟨f.resize PGROUNDUP n, by rw [← hf.cur]; exact .sbrk f n hal,
      hf.own hg.serves hr.alive hta rfl (fun _ => Iff.rfl)
      (fun p hp => Function.update_of_ne hp _ _) (fun p hp => Function.update_of_ne hp _ _) ?_
      fun x hx => ?_⟩
    · simp [Flat.resize, hfsz, hsz]
    · simp only [Flat.resize, ← hf.cur, Function.update_self, hfsz, ← hsz]
      by_cases hnew : PGROUNDUP s.myproc.sz ≤ x
      · rw [if_pos ⟨hnew, hx⟩, hf.cur, Machine.byte, hdir, hg.zero _ ?_ (page_of_lt hx)]
        · rfl
        · simp only [PGROUNDUP, PGSIZE, SWAP_BLOCKS_PER_PAGE, BSIZE] at *
          omega
      · rw [if_neg fun hc => hnew hc.1, hf.cur]
        exact hold (Or.inl rfl) x (by omega) hx

/-- **One step.** -/
theorem Flattens.step {l : Label} (hf : Flattens s f) (hs : UserStep s l t) :
    ∃ g, Flat.Step PGROUNDUP f l g ∧ Flattens t g := by
  -- the process goes, after a system call or a fault
  have hexit : ∀ {s t : Machine} {f : Flat}, Flattens s f → Executing s →
      Serves ∅ (others s) noPage s t → t.myproc.state = .ZOMBIE →
      ∃ g, Flat.Step PGROUNDUP f (.exit s.cpu.proc) g ∧ Flattens t g := by
    intro s t f hf hr hS hz
    have hal : f.alive f.cur := (hf.alive _).2 (by rw [hf.cur]; exact hr.alive)
    exact ⟨_, by rw [← hf.cur]; exact .exit f hal, hf.exit hS hz⟩
  cases hs with
  | load a e hr ha he => exact hf.load hr ha he
  | store a b e hr ha he => exact hf.store hr ha he
  | fault t a hr ha hrun =>
    obtain ⟨hS, hok, -⟩ := pageFault_spec hf.inv hr.alive (hf.faultOk hr ha) _ _ hrun
    obtain ⟨hall, hst, hcont⟩ := hok rfl
    have hcs := hall.spares _ trivial hr.alive
    have hsz : t.myproc.sz = s.myproc.sz := by rw [Machine.myproc, hall.cpu_proc]; exact hcs.sz
    refine ⟨f, .tau f, hf.own hS hr.alive ?_ rfl (fun _ => Iff.rfl) (fun _ _ => rfl)
      (fun _ _ => rfl) ?_ fun x hx => ?_⟩
    · rw [Machine.myproc, hall.cpu_proc]
      exact hcs.alive
    · rw [hsz, hf.cur]
      exact hf.sz _ hr.alive
    · rw [hsz] at hx
      rw [← hf.mem _ hr.alive x hx, Machine.byte, Machine.byte, hcs.pgdir]
      exact congrArg (Option.map _) (hcont _ (Nat.lt_of_lt_of_le (page_of_lt hx)
        (pagesUp_le_upages (hf.inv.size _ hr.alive.1))))
  | faultExit t a hr ha hrun =>
    obtain ⟨hS, -, hz⟩ := pageFault_spec hf.inv hr.alive (hf.faultOk hr ha) _ _ hrun
    exact hexit hf hr hS (hz rfl)
  | sbrk t n ok hr hlo hhi hpos hrun =>
    exact hf.sbrk hr hpos (growproc_spec hf.inv hr.alive hlo hhi _ _ hrun)
  | exit t hr hrun =>
    obtain ⟨hS, hz⟩ := exit_spec hf.inv hr.alive _ _ hrun
    exact hexit hf hr hS hz
  | pipealloc t i ok hr hrun =>
    exact ⟨f, .tau f, hf.everyone ((pipealloc_spec i hf.inv).spec _ _ hrun)⟩
  | pipeclose t i hr hrun =>
    exact ⟨f, .tau f, hf.everyone ((pipeclose_spec i hf.inv).spec _ _ hrun)⟩
  | switch t q hrun =>
    obtain ⟨hI, -, hal, hsp, hq⟩ := schedule_spec hf.inv _ _ hrun
    obtain ⟨hcur, hst⟩ := hq rfl
    -- the processes are the same ones, and one of them runs
    have hqa : (t.proc q).alive := by
      refine ⟨⟨?_, ?_⟩, ?_⟩
      all_goals rw [hst]; decide
    refine ⟨_, .switch f q ((hf.alive q).2 ((hal q).2 hqa)), hI, hcur.symm,
      fun p => (hf.alive p).trans (hal p), fun p ha => ?_, fun p ha x hx => ?_⟩
    · rw [(hsp p ((hal p).2 ha)).sz]
      exact hf.sz p ((hal p).2 ha)
    · have ha' := (hal p).2 ha
      have hs := hsp p ha'
      rw [hs.sz] at hx
      rw [Machine.byte, hs.pgdir, (hs.page _ (Nat.lt_of_lt_of_le (page_of_lt hx)
        (pagesUp_le_upages (hf.inv.size p ha'.1))) id).content]
      exact hf.mem p ha' x hx
  | cache hits =>
    exact ⟨f, .tau f, hf.everyone (hf.inv.setCpu rfl)⟩

/-- **Paging is transparent**, up to the end of the last page: every trace of the
swapping machine is one of the machine without swapping. -/
theorem transparent_pageRounded : Transparent PGROUNDUP := by
  intro s ls t hI hm hrun
  obtain ⟨f, hf, -⟩ := hrun.refine
    (fun s f l t (hf : Flattens s f) (hs : UserStep s l t) => hf.step hs) (flatten s)
    (flattens_flatten hI hm)
  exact ⟨f, hf⟩

/-! ## A machine to start from -/

/-- A process with two pages, at frames 3 and 4, and no memory left. -/
def twoPages : Machine where
  kend := 1
  freelist := []
  mem _ := memset 0
  space d := if d = 1 then some {
    tab := fun i => if i = 0 then some 2 else none
    pte := fun v => if v = 0 then ⟨3, 7#12⟩ else if v = 1 then ⟨4, 7#12⟩ else Pte.zero } else none
  slots _ := ⟨0#12, true⟩
  disk _ _ := 0
  threshold := 100
  npages_to_swap := 4
  proc i := if i = 0 then
      ⟨8192, 1, 5, .RUNNING, 1, none, 8192, none, false, 2#32⟩
    else ⟨0, 0, 0, .UNUSED, 0, none, 0, none, false, 0#32⟩
  initproc := 0
  nextpid := 2
  pipe _ := none
  cpu := ⟨1, 0, []⟩
  hist := ⟨fun _ => none, [], [], false⟩

/-- What each frame of `twoPages` is. -/
def twoPagesOwner : Nat → Option Owner
  | 1 => some (.dir 1)
  | 2 => some (.table 1 0)
  | 3 => some (.page 1 0)
  | 4 => some (.page 1 1)
  | 5 => some (.kstack 0)
  | _ => none

theorem twoPages_pte (d v : Nat) : twoPages.pte d v =
    if d = 1 ∧ v = 0 then ⟨3, 7#12⟩ else if d = 1 ∧ v = 1 then ⟨4, 7#12⟩ else Pte.zero := by
  by_cases hd : d = 1
  · subst hd
    simp [Machine.pte, twoPages]
  · simp [Machine.pte, twoPages, hd]

theorem twoPages_uses (o : Owner) (f : Nat) (hu : Uses ∅ twoPages o f) :
    twoPagesOwner f = some o := by
  rcases o with ⟨d, v⟩ | ⟨d, i⟩ | d | p | i | g
  · obtain ⟨-, hp, rfl⟩ := hu
    rw [twoPages_pte] at hp ⊢
    split
    · next hdv => obtain ⟨rfl, rfl⟩ := hdv; rfl
    · split
      · next hdv => obtain ⟨rfl, rfl⟩ := hdv; rfl
      · next h1 h2 => rw [if_neg h1, if_neg h2] at hp; cases hp
  · by_cases hd : d = 1
    · subst hd
      by_cases hi : i = 0
      · subst hi
        cases hu
        rfl
      · simp [Uses, Machine.tab, twoPages, hi] at hu
    · simp [Uses, Machine.tab, twoPages, hd] at hu
  · obtain ⟨hs, rfl⟩ := hu
    by_cases hf : f = 1
    · subst hf; rfl
    · simp [twoPages, hf] at hs
  · obtain ⟨hk, hne⟩ := hu
    by_cases hp : p = 0
    · subst hp; cases hk; rfl
    · simp only [twoPages, if_neg hp] at hk
      exact absurd hk.symm hne
  · cases hu
  · exact hu.1.elim

theorem twoPages_inv : Inv ∅ twoPages := by
  have hlive : ∀ p, (twoPages.proc p).live → p = 0 := by
    intro p hl
    by_contra hp
    exact hl.1 (by simp [twoPages, hp])
  have hno : ∀ o k, ¬ SlotUses twoPages o k := by
    rintro ⟨d, v⟩ k ⟨-, -, hs, -⟩
    rw [twoPages_pte] at hs
    split at hs
    · cases hs
    · split at hs <;> cases hs
  refine ⟨{
    own := ⟨fun {o p r} ho hp => ?_, fun _ hf => by cases hf⟩
    nodup := List.nodup_nil
    range_free := fun f hf => by cases hf
    range_used := fun o f hu => ?_
    kend_pos := by decide
    tab_zero := fun d v hn => ?_
    slot_own := ⟨fun ho => absurd ho (hno _ _), fun ho => absurd ho (hno _ _)⟩
    slot_range := fun o k ho => absurd ho (hno o k) }, {
    dir := fun p hl => by rw [hlive p hl]; rfl
    dir_inj := fun p q hp hq _ => (hlive p hp).trans (hlive q hq).symm
    size := fun p hl => by rw [hlive p hl]; decide
    embryo := fun p he => ?_ }⟩
  · have := (twoPages_uses o r ho).symm.trans (twoPages_uses p r hp)
    exact Option.some.inj this
  · have := twoPages_uses o f hu
    unfold twoPagesOwner at this
    split at this <;> first | decide | cases this
  · rw [twoPages_pte]
    by_cases hd : d = 1
    · subst hd
      have hv : v / NPTENTRIES ≠ 0 := by
        intro h0
        simp [Machine.tab, twoPages, h0] at hn
      rw [if_neg (by rintro ⟨-, rfl⟩; exact hv rfl), if_neg (by rintro ⟨-, rfl⟩; exact hv rfl)]
    · simp [hd]
  · by_cases hp : p = 0
    · subst hp; cases he
    · simp [twoPages, hp]

theorem twoPages_mapped : Mapped twoPages := by
  intro p hp v hv
  have hp0 : p = 0 := by
    by_contra hn
    exact hp.1.1 (by simp [twoPages, hn])
  subst hp0
  have h2 : v < 2 := Nat.lt_of_lt_of_eq hv rfl
  have hd : (twoPages.proc 0).pgdir = 1 := rfl
  rw [hd, Machine.content, twoPages_pte]
  rcases Nat.lt_or_ge v 1 with h | h
  · obtain rfl : v = 0 := by omega
    rfl
  · obtain rfl : v = 1 := by omega
    rfl

/-- Labels of the run: store 7 at 5000, give 3500 bytes back, take them again, load. -/
def shrinkGrow : List Label :=
  [.store 0 5000 7, .sbrk 0 (-3500) true, .sbrk 0 3500 true, .load 0 5000 7]

/-- `twoPages` after the store of 7 at 5000. -/
def stored : Machine := ustore twoPages 5000 ⟨4, 7#12⟩ 7

theorem twoPages_store : UserStep twoPages (.store 0 5000 7) stored :=
  .store twoPages 5000 7 ⟨4, 7#12⟩ ⟨rfl, rfl⟩ (by decide) rfl

/-- A successful `sbrk` of process 0. -/
theorem UserStep.sbrk_zero {n : Int} (hr : Executing s) (hp : s.cpu.proc = 0) (hlo : -2 ^ 31 ≤ n)
    (hhi : n < 2 ^ 31) (hpos : 0 < s.myproc.sz + n) (hrun : (growproc n).result s = some true) :
    UserStep s (.sbrk 0 n true) ((growproc n).final s) := by
  have h := UserStep.sbrk s _ n true hr hlo hhi hpos (Code.run_of_result hrun)
  rwa [hp] at h

/-- It loads the 7 again. -/
theorem UserStep.load_zero {a : Nat} {e : Pte} {b : Byte} (hr : Running s) (hp : s.cpu.proc = 0)
    (ha : a < s.myproc.sz) (he : uaccess s a false = some e) (hb : (uload s a e).1 = b) :
    UserStep s (.load 0 a b) (uload s a e).2 := by
  have h := UserStep.load s a e hr ha he
  rwa [hb, hp] at h

theorem shrinkGrow_runs : ∃ t, Run UserStep twoPages shrinkGrow t := by
  set s2 := (growproc (-3500)).final stored with hs2
  set s3 := (growproc 3500).final s2 with hs3
  have h2 : UserStep stored (.sbrk 0 (-3500) true) s2 :=
    .sbrk_zero (by decide +kernel) (by decide +kernel) (by decide) (by decide) (by decide +kernel)
      (by decide +kernel)
  have h3 : UserStep s2 (.sbrk 0 3500 true) s3 :=
    .sbrk_zero (by decide +kernel) (by decide +kernel) (by decide) (by decide) (by decide +kernel)
      (by decide +kernel)
  have h4 : UserStep s3 (.load 0 5000 7) (uload s3 5000 ⟨4, 103#12⟩).2 :=
    .load_zero ⟨by decide +kernel, by decide +kernel⟩ (by decide +kernel) (by decide +kernel)
      (by decide +kernel) (by decide +kernel)
  exact ⟨_, .cons twoPages_store (.cons h2 (.cons h3 (.cons h4 (.nil _))))⟩

theorem shrinkGrow_not_flat {f : Flat} : ¬ Run (Flat.Step id) (flatten twoPages) shrinkGrow f := by
  intro h
  cases h with
  | cons h1 h =>
  cases h1
  cases h with
  | cons h2 h =>
  cases h2
  cases h with
  | cons h3 h =>
  cases h3
  cases h with
  | cons h4 h =>
  generalize hl : Label.load 0 5000 7 = l at h4
  cases h4
  all_goals cases hl

/-- Without rounding the flat machine has no such run: what `sbrk` hands out again
is zero. -/
theorem not_transparent_exact : ¬ Transparent id := by
  intro h
  obtain ⟨t, ht⟩ := shrinkGrow_runs
  obtain ⟨f, hf⟩ := h _ _ t twoPages_inv twoPages_mapped ht
  exact shrinkGrow_not_flat hf

/-! ## A run with page-outs and page-ins -/

/-- `twoPages` with nines in its pages, and one page paged out in a round. -/
def ninePages : Machine := { twoPages with
  mem := fun _ => memset 9
  npages_to_swap := 1 }

theorem ninePages_inv : Inv ∅ ninePages := twoPages_inv.congr rfl

theorem ninePages_mapped : Mapped ninePages := by
  intro p hp v hv
  have h := twoPages_mapped p hp v hv
  simp only [Machine.content] at h ⊢
  split at h
  · next hpres => exact (congrArg Option.isSome (if_pos hpres)).trans rfl
  · next hpres =>
    refine (congrArg Option.isSome (if_neg hpres)).trans ?_
    split at h
    · next hsw => exact (congrArg Option.isSome (if_pos hsw)).trans rfl
    · cases h

/-- Page 0 goes out to make room for page 2. -/
def growOut : List Label := [.sbrk 0 4096 true]

/-- A fault brings page 0 in for page 1, another one page 1 for page 2. The nines are there,
and the byte stored in between. -/
def faultIn : List Label :=
  [.tau, .load 0 5 9, .store 0 6 7, .tau, .load 0 5000 9, .load 0 6 7]

theorem growOut_runs : ∃ s, Run UserStep ninePages growOut s ∧ (s.pte 1 0).swapped = true ∧
    ∃ t, Run UserStep s faultIn t ∧ (t.pte 1 0).present = true ∧ (t.pte 1 2).swapped = true := by
  set s1 := (growproc 4096).final ninePages with hs1
  set s2 := (pageFault 5).final s1 with hs2
  set s3 := (uload s2 5 ⟨4, 7#12⟩).2 with hs3
  set s4 := ustore s3 6 ⟨4, 39#12⟩ 7 with hs4
  set s5 := (pageFault 5000).final s4 with hs5
  set s6 := (uload s5 5000 ⟨3, 7#12⟩).2 with hs6
  have h1 : UserStep ninePages (.sbrk 0 4096 true) s1 :=
    .sbrk_zero rfl rfl (by decide) (by decide) (by decide) (by decide +kernel)
  have h2 : UserStep s1 .tau s2 :=
    .fault s1 s2 5 (by decide +kernel) (by decide +kernel) (Code.run_of_result (by decide +kernel))
  have h3 : UserStep s2 (.load 0 5 9) s3 :=
    .load_zero ⟨by decide +kernel, by decide +kernel⟩ (by decide +kernel) (by decide +kernel)
      (by decide +kernel) (by decide +kernel)
  have h4 : UserStep s3 (.store 0 6 7) s4 := by
    have h := UserStep.store s3 6 7 ⟨4, 39#12⟩ ⟨by decide +kernel, by decide +kernel⟩
      (by decide +kernel) (by decide +kernel)
    rwa [show s3.cpu.proc = 0 by decide +kernel] at h
  have h5 : UserStep s4 .tau s5 :=
    .fault s4 s5 5000 (by decide +kernel) (by decide +kernel)
      (Code.run_of_result (by decide +kernel))
  have h6 : UserStep s5 (.load 0 5000 9) s6 :=
    .load_zero ⟨by decide +kernel, by decide +kernel⟩ (by decide +kernel) (by decide +kernel)
      (by decide +kernel) (by decide +kernel)
  have h7 : UserStep s6 (.load 0 6 7) (uload s6 6 ⟨4, 103#12⟩).2 :=
    .load_zero ⟨by decide +kernel, by decide +kernel⟩ (by decide +kernel) (by decide +kernel)
      (by decide +kernel) (by decide +kernel)
  exact ⟨s1, .cons h1 (.nil _), by decide +kernel, _,
    .cons h2 (.cons h3 (.cons h4 (.cons h5 (.cons h6 (.cons h7 (.nil _)))))),
    by decide +kernel, by decide +kernel⟩

/-- The theorem at this run: page 0 has been to the swap area and back. -/
theorem transparent_growOut : ∃ s t f, Run UserStep ninePages growOut s ∧
    (s.pte 1 0).swapped = true ∧ Run UserStep s faultIn t ∧ (t.pte 1 0).present = true ∧
      (t.pte 1 2).swapped = true ∧
        Run (Flat.Step PGROUNDUP) (flatten ninePages) (growOut ++ faultIn) f := by
  obtain ⟨s, hs, hout, t, ht, hin, hout'⟩ := growOut_runs
  obtain ⟨f, hf⟩ := transparent_pageRounded _ _ t ninePages_inv ninePages_mapped (hs.append ht)
  exact ⟨s, t, f, hs, hout, ht, hin, hout', hf⟩

end Xv6.Swap
