import Xv6.Vm.Copy
import Xv6.Proc.Preservation
import Xv6.Proc.Kill

/-!
# fork

fork with the memory it sets up: allocproc's kernel stack and the frame it
builds there, copyuvm's copy of the parent's user memory, the parent's trap
frame with `eax` cleared, and the kfree of the stack when copyuvm fails, over
`Proc.Basic`'s table with each process's `sz`, its directory, kmem's free list
and the bytes of memory.  Every byte fork writes is in a page that was free; a
failed fork leaves the free list as it was, in some order, and a successful
one takes exactly the child's pages off it, as one run of `Proc.System`
(`fork_simulates`).
-/

namespace Xv6
namespace Fork

open Vm

/-- `KSTACKSIZE`. -/
def kstackSize : Nat := 4096

/-- `sizeof(struct trapframe)`: the eight registers pusha pushes, four segment
registers with their padding, `trapno`, then `err`, `eip`, `cs`, `eflags`,
`esp` and `ss`. -/
def tfSize : Nat := 76

/-- The offset of `eax` in struct trapframe. -/
def eaxOffset : Nat := 28

/-- `sizeof(struct context)`: `edi`, `esi`, `ebx`, `ebp`, `eip`. -/
def contextSize : Nat := 20

/-- The offset of `eip` in struct context. -/
def eipOffset : Nat := 16

/-- `*(uint*)a = w` on the little-endian x86. -/
def store32 (mem : Nat → UInt8) (a : Nat) (w : UInt32) : Nat → UInt8 :=
  fun x => if a ≤ x ∧ x < a + 4 then (w >>> (8 * (x - a)).toUInt32).toUInt8 else mem x

/-- `p->tf` for the kernel stack `kstack`: the trap frame at its top. -/
def tfOf (kstack : Nat) : Nat := kstack + kstackSize - tfSize

/-- `p->context` for the kernel stack `kstack`: below the trap frame and the
return address. -/
def contextOf (kstack : Nat) : Nat := tfOf kstack - 4 - contextSize

/-- allocproc's frame below the trap frame: the address of trapret, where
forkret returns, and below it a context zeroed but for `eip`, forkret. -/
def stackFrame (trapret forkret : UInt32) (mem : Nat → UInt8) (kstack : Nat) : Nat → UInt8 :=
  let mem := store32 mem (tfOf kstack - 4) trapret
  let mem := memset mem (contextOf kstack) 0 contextSize
  store32 mem (contextOf kstack + eipOffset) forkret

/-- The process table with the memory of its processes. -/
structure State where
  proc : Fin nProc → Proc
  sz : Fin nProc → Nat
  dir : Fin nProc → Pgdir
  nextpid : Nat
  kmem : Kmem
  mem : Nat → UInt8

namespace State

/-- allocproc: the first UNUSED entry becomes an EMBRYO with the next pid and
gets a kernel stack holding allocproc's frame; without a page for the stack
it goes back to UNUSED, its pid spent. -/
def allocproc (trapret forkret : UInt32) (s : State) : State × Option (Fin nProc) :=
  match Scan.first fun j => (s.proc j).state = .unused with
  | none => (s, none)
  | some p =>
      match kalloc s.kmem with
      | (none, m) =>
          ({ s with
            proc := Function.update s.proc p { s.proc p with state := .unused, pid := s.nextpid, kstack := none }
            nextpid := s.nextpid + 1
            kmem := m }, none)
      | (some kstack, m) =>
          ({ s with
            proc := Function.update s.proc p
              { s.proc p with state := .embryo, pid := s.nextpid, kstack := some kstack }
            nextpid := s.nextpid + 1
            kmem := m
            mem := stackFrame trapret forkret s.mem kstack }, some p)

/-- fork from `curproc`: the child's pid, or -1 with the child's entry
UNUSED again and its stack freed.  `data` is the kernel's `data` symbol,
where setupkvm's read-only mapping ends. -/
def fork (data : Nat) (trapret forkret : UInt32) (s : State) (curproc : Fin nProc) :
    Except String (State × Int) :=
  match allocproc trapret forkret s with
  | (s, none) => .ok (s, -1)
  | (s, some np) => do
      let kstack := (s.proc np).kstack.getD 0
      let ((r, m), mem) ← Phys.copyuvm data s.kmem s.mem (s.dir curproc) (s.sz curproc)
      match r with
      | none =>
          let (m, mem) ← Phys.kfree m mem kstack
          return ({ s with
            proc := Function.update s.proc np { s.proc np with kstack := none, pgdir := none, state := .unused }
            kmem := m
            mem := mem }, -1)
      | some (pgdir, d) =>
          -- `*np->tf = *curproc->tf`, then `np->tf->eax = 0`
          let mem := memmove mem (tfOf kstack) (tfOf ((s.proc curproc).kstack.getD 0)) tfSize
          let mem := store32 mem (tfOf kstack + eaxOffset) 0
          return ({ s with
            proc := Function.update s.proc np
              { s.proc np with pgdir := some pgdir, parent := some curproc, state := .runnable }
            sz := Function.update s.sz np (s.sz curproc)
            dir := Function.update s.dir np d
            kmem := m
            mem := mem }, ((s.proc np).pid : Int))

/-- wait's reaping of the zombie `j`: kfree its kernel stack, freevm its page
directory, clear the entry and mark it UNUSED.  `pgdir` is left as it was. -/
def reap (s : State) (j : Fin nProc) : Except String State := do
  let (m, mem) ← Phys.kfree s.kmem s.mem ((s.proc j).kstack.getD 0)
  let (m, mem) ← Phys.freevm m mem ((s.proc j).pgdir.getD 0) (s.dir j)
  return { s with
    proc := Function.update s.proc j
      { s.proc j with kstack := none, pid := 0, parent := none, killed := false, state := .unused }
    kmem := m
    mem := mem }

end State

/-! ## The bytes fork writes on the child's stack -/

section Bytes

variable {P : Nat → Prop} {mem mem' : Nat → UInt8}

/-- A write that changes only bytes from `a` to `a + n`, inside the page `v`. -/
theorem within_range {v a n : Nat} (inside : P v) (low : v ≤ a) (high : a + n ≤ v + pgSize)
    (outside : ∀ x, ¬ (a ≤ x ∧ x < a + n) → mem' x = mem x) : Within P mem mem' := by
  intro x changed
  by_cases here : a ≤ x ∧ x < a + n
  · exact ⟨v, inside, by omega, by omega⟩
  · exact absurd (outside x here) changed

theorem store32_of_not_mem {a x : Nat} (w : UInt32) (outside : ¬ (a ≤ x ∧ x < a + 4)) :
    store32 mem a w x = mem x :=
  if_neg outside

theorem store32_zero {a x : Nat} (inside : a ≤ x ∧ x < a + 4) : store32 mem a 0 x = 0 := by
  unfold store32
  rw [if_pos inside, UInt32.zero_shiftRight]
  rfl

theorem within_store32 {v a : Nat} (inside : P v) (low : v ≤ a) (high : a + 4 ≤ v + pgSize) (mem : Nat → UInt8)
    (w : UInt32) : Within P mem (store32 mem a w) :=
  within_range inside low high fun _ out => store32_of_not_mem w out

theorem memmove_of_lt (mem : Nat → UInt8) (dst src : Nat) {n k : Nat} (below : k < n) :
    memmove mem dst src n (dst + k) = mem (src + k) := by
  unfold memmove
  rw [if_pos ⟨Nat.le_add_right _ _, Nat.add_lt_add_left below _⟩, Nat.add_sub_cancel_left]

theorem memmove_of_not_mem (src : Nat) {dst n x : Nat} (outside : ¬ (dst ≤ x ∧ x < dst + n)) :
    memmove mem dst src n x = mem x :=
  if_neg outside

theorem tfOf_eq (kstack : Nat) : tfOf kstack = kstack + 4020 := by
  unfold tfOf kstackSize tfSize
  omega

theorem contextOf_eq (kstack : Nat) : contextOf kstack = kstack + 3996 := by
  unfold contextOf contextSize
  rw [tfOf_eq]
  omega

/-- allocproc's frame lies in the stack's page. -/
theorem within_stackFrame (trapret forkret : UInt32) (mem : Nat → UInt8) (kstack : Nat) :
    Within (· = kstack) mem (stackFrame trapret forkret mem kstack) := by
  unfold stackFrame
  dsimp only
  rw [tfOf_eq, contextOf_eq]
  have page : pgSize = 4096 := rfl
  refine (within_store32 (P := (· = kstack)) (v := kstack) (a := kstack + 4020 - 4) rfl (by omega) (by omega) mem trapret).trans ?_
  refine (within_range (P := (· = kstack)) (v := kstack) (a := kstack + 3996) (n := contextSize) rfl (by omega)
    (by unfold contextSize; omega) fun _ out => memset_of_not_mem 0 out).trans ?_
  exact within_store32 (P := (· = kstack)) (v := kstack) (a := kstack + 3996 + eipOffset) rfl (by unfold eipOffset; omega)
    (by unfold eipOffset; omega) _ forkret

/-- The trap frame copy leaves bytes of the child's stack page only. -/
theorem within_tfCopy (mem : Nat → UInt8) (kstack src : Nat) :
    Within (· = kstack) mem (store32 (memmove mem (tfOf kstack) src tfSize) (tfOf kstack + eaxOffset) 0) := by
  rw [tfOf_eq]
  have page : pgSize = 4096 := rfl
  refine (within_range (P := (· = kstack)) (v := kstack) (a := kstack + 4020) (n := tfSize) rfl (by omega)
    (by unfold tfSize; omega) fun _ out => memmove_of_not_mem src out).trans ?_
  exact within_store32 (P := (· = kstack)) (v := kstack) (a := kstack + 4020 + eaxOffset) rfl
    (by unfold eaxOffset; omega) (by unfold eaxOffset; omega) _ 0

/-- The child's trap frame after the copy: the source's, with `eax` 0. -/
theorem tfCopy_tf (mem : Nat → UInt8) (kstack src : Nat) {k : Nat} (below : k < tfSize) :
    store32 (memmove mem (tfOf kstack) src tfSize) (tfOf kstack + eaxOffset) 0 (tfOf kstack + k) =
      if eaxOffset ≤ k ∧ k < eaxOffset + 4 then 0 else mem (src + k) := by
  split
  case isTrue inEax => exact store32_zero (by omega)
  case isFalse outEax =>
    rw [store32_of_not_mem 0 (by omega), memmove_of_lt mem _ src below]

/-- Below the trap frame the copy changes nothing. -/
theorem tfCopy_below (mem : Nat → UInt8) {kstack src a : Nat} (below : a < tfOf kstack) :
    store32 (memmove mem (tfOf kstack) src tfSize) (tfOf kstack + eaxOffset) 0 a = mem a := by
  rw [store32_of_not_mem 0 (by omega), memmove_of_not_mem src (by omega)]

end Bytes

/-! ## What fork does -/

/-- What a failed fork leaves: the free list as it was, in some order, and
the same end of the kernel; every entry's state, size and directory as they
were; no entry changed but an UNUSED one. -/
structure Failed (s s' : State) : Prop where
  perm : s'.kmem.freelist.Perm s.kmem.freelist
  kend : s'.kmem.kend = s.kmem.kend
  state : ∀ j, (s'.proc j).state = (s.proc j).state
  used : ∀ j, (s.proc j).state ≠ .unused → s'.proc j = s.proc j
  sz : s'.sz = s.sz
  dir : s'.dir = s.dir

/-- What a fork that returns leaves in the child `np`.  `np` was UNUSED and is
RUNNABLE with the next pid, `curproc` as its parent, the kernel stack
`kstack`, the page directory `pgdir` and the parent's `sz`.  Its directory
has setupkvm's kernel mappings, none from `PGROUNDUP(sz)` up to `KERNBASE`,
and below `sz` a copy of each of the parent's pages with the parent's
`PTE_W`, `PTE_U` and bytes.  Its trap frame is the parent's with `eax` 0, and
below it lies allocproc's frame.  Its stack, directory, page tables and pages
are, with the free list, exactly the pages that were free, and the parent's
pages are still the parent's. -/
structure Forked (data : Nat) (trapret forkret : UInt32) (s s' : State) (curproc np : Fin nProc)
    (kstack pgdir : Nat) : Prop where
  unused : (s.proc np).state = .unused
  proc : s'.proc = Function.update s.proc np
    { s.proc np with
      state := .runnable, pid := s.nextpid, kstack := some kstack, pgdir := some pgdir, parent := some curproc }
  nextpid : s'.nextpid = s.nextpid + 1
  sz : s'.sz = Function.update s.sz np (s.sz curproc)
  dir : ∀ j, j ≠ np → s'.dir j = s.dir j
  owns : Owns s'.kmem (s'.dir np).owned [kstack, pgdir]
  tabled : (s'.dir np).owned.Tabled
  bounded : (s'.dir np).Bounded
  pool : Pool s'.kmem (s'.dir np).owned [kstack, pgdir] = (· ∈ s.kmem.freelist)
  parent : Owns s'.kmem (s'.dir curproc).owned []
  kernel : ∀ v, kernBase ≤ v → (s'.dir np).pte v = kernelPte data v
  above : ∀ v, pgroundup (s.sz curproc) ≤ v → v < kernBase → (s'.dir np).pte v = none
  copied : ∀ u, u * pgSize < s.sz curproc → ∃ e e', (s.dir curproc).pte (u * pgSize) = some e ∧
    (s'.dir np).pte (u * pgSize) = some e' ∧ e'.writable = e.writable ∧ e'.user = e.user ∧
    ∀ k < pgSize, s'.mem (p2v e'.addr + k) = s.mem (p2v e.addr + k)
  tf : ∀ k < tfSize, s'.mem (tfOf kstack + k) =
    if eaxOffset ≤ k ∧ k < eaxOffset + 4 then 0 else s.mem (tfOf ((s.proc curproc).kstack.getD 0) + k)
  frame : ∀ a, kstack ≤ a → a < tfOf kstack → s'.mem a = stackFrame trapret forkret s.mem kstack a

namespace State

variable {data : Nat} {trapret forkret : UInt32} {s : State}

/-- Everything allocproc can do. -/
theorem allocproc_cases (trapret forkret : UInt32) (s : State) :
    (Scan.first (fun j => (s.proc j).state = .unused) = none ∧ s.allocproc trapret forkret = (s, none)) ∨
    (∃ p, Scan.first (fun j => (s.proc j).state = .unused) = some p ∧ s.kmem.freelist = [] ∧
      s.allocproc trapret forkret = ({ s with
        proc := Function.update s.proc p { s.proc p with state := .unused, pid := s.nextpid, kstack := none }
        nextpid := s.nextpid + 1 }, none)) ∨
    ∃ p kstack rest, Scan.first (fun j => (s.proc j).state = .unused) = some p ∧
      s.kmem.freelist = kstack :: rest ∧
      s.allocproc trapret forkret = ({ s with
        proc := Function.update s.proc p
          { s.proc p with state := .embryo, pid := s.nextpid, kstack := some kstack }
        nextpid := s.nextpid + 1
        kmem := { s.kmem with freelist := rest }
        mem := stackFrame trapret forkret s.mem kstack }, some p) := by
  unfold allocproc
  rcases first : Scan.first (fun j => decide ((s.proc j).state = .unused)) with _ | p
  · exact .inl ⟨rfl, rfl⟩
  · rcases kalloc_cases s.kmem with ⟨empty, got⟩ | ⟨kstack, rest, list, got⟩
    · refine .inr (.inl ⟨p, rfl, empty, ?_⟩)
      rw [got]
    · refine .inr (.inr ⟨p, kstack, rest, rfl, list, ?_⟩)
      rw [got]

/-- A table whose only change is at an UNUSED entry that stays UNUSED, with
the free list as it was in some order: what a failed fork leaves. -/
theorem failed_of_unused {p : Fin nProc} (unused : (s.proc p).state = .unused) {procs : Fin nProc → Proc}
    (others : ∀ j, j ≠ p → procs j = s.proc j) (stillUnused : (procs p).state = .unused) {m : Kmem}
    (perm : m.freelist.Perm s.kmem.freelist) (kend : m.kend = s.kmem.kend) (n : Nat) (mem : Nat → UInt8) :
    Failed s { s with proc := procs, nextpid := n, kmem := m, mem := mem } where
  perm := perm
  kend := kend
  state j := by
    by_cases here : j = p
    · subst here
      exact stillUnused.trans unused.symm
    · exact congrArg Proc.state (others j here)
  used j used := others j fun here => used (here ▸ unused)
  sz := rfl
  dir := rfl

/-- fork from a RUNNING process whose kernel stack and pages are not free,
and whose directory maps every page below `sz < KERNBASE`, never panics and
writes only bytes of pages that were free, so no other process's memory
changes.  It returns -1 as `Failed` says, and only when the table has no
UNUSED entry or the free list has fewer pages than the stack, setupkvm's 67
and two for each page to copy; or it returns the next pid with the child set
up as `Forked` says. -/
theorem fork_spec (aligned : data % pgSize = 0) (linked : kernLink < data) (inMemory : data < p2v phyStop)
    {curproc : Fin nProc} (running : (s.proc curproc).state = .running)
    (parentOwns : Owns s.kmem (s.dir curproc).owned []) {stack : Nat}
    (stacked : (s.proc curproc).kstack = some stack) (stackAligned : stack % pgSize = 0)
    (stackBusy : stack ∉ s.kmem.freelist) (small : s.sz curproc < kernBase)
    (present : ∀ u, u * pgSize < s.sz curproc → ((s.dir curproc).pte (u * pgSize)).isSome) :
    ∃ s' r, s.fork data trapret forkret curproc = .ok (s', r) ∧ Within (· ∈ s.kmem.freelist) s.mem s'.mem ∧
      (r = -1 ∧ Failed s s' ∧ ((∀ j, (s.proc j).state ≠ .unused) ∨
          s.kmem.freelist.length < 68 + 2 * (pgroundup (s.sz curproc) / pgSize)) ∨
        ∃ np kstack pgdir, r = s.nextpid ∧ Forked data trapret forkret s s' curproc np kstack pgdir) := by
  have freeAligned : ∀ v ∈ s.kmem.freelist, v % pgSize = 0 := fun v free =>
    (parentOwns.spare v (List.mem_append_left _ free)).1
  rcases allocproc_cases trapret forkret s with ⟨none, alloc⟩ | ⟨p, first, empty, alloc⟩ |
    ⟨np, ks, rest, first, list, alloc⟩
  · -- no UNUSED entry
    have full : ∀ j, (s.proc j).state ≠ .unused := fun j unused => by
      have tested := Scan.first_none.mp none j
      simp [unused] at tested
    unfold fork
    rw [alloc]
    exact ⟨s, -1, rfl, Within.refl _ _,
      .inl ⟨rfl, ⟨List.Perm.refl _, rfl, fun _ => rfl, fun _ _ => rfl, rfl, rfl⟩, .inl full⟩⟩
  · -- no page for the kernel stack
    have unused : (s.proc p).state = .unused := of_decide_eq_true (Scan.first_some first)
    unfold fork
    rw [alloc]
    refine ⟨_, -1, rfl, Within.refl _ _, .inl ⟨rfl, failed_of_unused unused (fun j other => ?_) ?_
      (List.Perm.refl _) rfl _ s.mem, .inr (by rw [empty, List.length_nil]; omega)⟩⟩
    · exact Function.update_of_ne other _ _
    · rw [Function.update_self]
  have unused : (s.proc np).state = .unused := of_decide_eq_true (Scan.first_some first)
  have child : np ≠ curproc := fun same => by
    rw [same, running] at unused
    cases unused
  have taken : ks ∈ s.kmem.freelist := by
    rw [list]
    exact List.mem_cons_self
  have kept : ∀ v ∈ rest, v ∈ s.kmem.freelist := fun v kept => by
    rw [list]
    exact List.mem_cons_of_mem ks kept
  have nodup : (ks :: rest).Nodup := by
    have nodup := parentOwns.nodup
    rwa [List.append_nil, list] at nodup
  have fresh : ks ∉ rest := (List.nodup_cons.mp nodup).1
  have ksPage : s.kmem.Page ks := parentOwns.spare ks (List.mem_append_left _ taken)
  have stackOther : stack ≠ ks := fun same => stackBusy (same ▸ taken)
  -- allocproc's frame, then copyuvm from the free list without the stack
  have framed := within_stackFrame trapret forkret s.mem ks
  have parentOwns₁ : Owns { s.kmem with freelist := rest } (s.dir curproc).owned [] :=
    parentOwns.of_subset (List.nodup_cons.mp nodup).2 rfl kept
  obtain ⟨r, m₂, mem₂, copied, written, kend₂, outcome⟩ :=
    Phys.copyuvm_spec aligned linked inMemory parentOwns₁ small present (stackFrame trapret forkret s.mem ks)
  unfold fork
  rw [alloc]
  dsimp only
  rw [Function.update_self, Function.update_of_ne (Ne.symm child), stacked]
  dsimp only
  rw [Option.getD_some, Option.getD_some, copied, Fallible.ok_bind]
  rcases outcome with ⟨rfl, -, perm₂, short₂⟩ | ⟨pgdir, d, rfl, copying⟩
  · -- copyuvm failed: kfree the stack and put the entry back to UNUSED
    have page : m₂.Page ks := by
      unfold Kmem.Page at ksPage ⊢
      rwa [kend₂]
    dsimp only
    rw [Phys.kfree_eq, if_pos page, Fallible.ok_bind]
    have short : s.kmem.freelist.length < 68 + 2 * (pgroundup (s.sz curproc) / pgSize) := by
      have restShort : rest.length < 67 + 2 * (pgroundup (s.sz curproc) / pgSize) := short₂
      rw [list, List.length_cons]
      omega
    refine ⟨_, -1, rfl, ?_, .inl ⟨rfl, failed_of_unused (m := { m₂ with freelist := ks :: m₂.freelist }) unused
      (fun j other => ?_) ?_ ?_ kend₂ _ _, .inr short⟩⟩
    · have junk := within_memset (P := (· = ks)) rfl mem₂ 1
      refine (framed.mono fun v same => same ▸ taken).trans ((written.mono kept).trans ?_)
      exact junk.mono fun v same => same ▸ taken
    · rw [Function.update_of_ne other, Function.update_of_ne other]
    · rw [Function.update_self]
    · rw [list]
      exact perm₂.cons ks
  -- the child
  have pool₂ : ∀ v, Pool m₂ d.owned [pgdir] v ↔ v ∈ rest := fun v => by
    rw [copying.pool, pool_empty]
  have restAligned : ∀ v ∈ rest, v % pgSize = 0 := fun v free => freeAligned v (kept v free)
  have ksAligned : ∀ v, v = ks → v % pgSize = 0 := fun v same => same ▸ ksPage.1
  have moved := within_tfCopy mem₂ ks (tfOf stack)
  dsimp only
  refine ⟨_, _, rfl, ?_, .inr ⟨np, ks, pgdir, rfl, ?_⟩⟩
  · refine (framed.mono fun v same => same ▸ taken).trans ((written.mono kept).trans ?_)
    exact moved.mono fun v same => same ▸ taken
  refine
    { unused := unused, proc := ?_, nextpid := rfl, sz := rfl, dir := fun j other => ?_, owns := ?_
      tabled := ?_, bounded := ?_, pool := ?_, parent := ?_, kernel := ?_, above := ?_, copied := ?_, tf := ?_
      frame := ?_ }
  · rw [Function.update_idem]
  · exact Function.update_of_ne other _ _
  · dsimp only
    rw [Function.update_self]
    refine copying.owns.hold ?_ fun pooled => fresh ((pool₂ ks).mp pooled)
    unfold Kmem.Page at ksPage ⊢
    rwa [kend₂]
  · dsimp only
    rw [Function.update_self]
    exact copying.tabled
  · dsimp only
    rw [Function.update_self]
    exact copying.bounded
  · funext v
    dsimp only
    rw [Function.update_self, list]
    exact propext ((pool_cons.trans (or_congr Iff.rfl (pool₂ v))).trans List.mem_cons.symm)
  · dsimp only
    rw [Function.update_of_ne (Ne.symm child)]
    refine parentOwns.of_subset (List.nodup_append.mp copying.owns.nodup).1 kend₂ fun v free => ?_
    exact kept v (copying.free free)
  · dsimp only
    rw [Function.update_self]
    exact copying.kernel
  · dsimp only
    rw [Function.update_self]
    exact copying.above
  · intro u below
    dsimp only
    have upTo : u * pgSize < pgroundup (s.sz curproc) := by
      rw [pgroundup_of_lt small]
      unfold pgSize at *
      omega
    obtain ⟨e, e', parentFound, childFound, writable, user, bytes⟩ := copying.copied u upTo
    refine ⟨e, e', parentFound, by rw [Function.update_self]; exact childFound, writable, user, fun k short => ?_⟩
    have lower : u * pgSize < kernBase := Nat.lt_trans below small
    obtain ⟨childPage, -, childFree⟩ := copying.frame lower childFound
    obtain ⟨parentPage, parentBusy⟩ := parentOwns.frame_of_pte lower parentFound
    have parentOther : p2v e.addr ≠ ks := fun same => parentBusy (List.mem_append_left _ (same ▸ taken))
    calc store32 (memmove mem₂ (tfOf ks) (tfOf stack) tfSize) (tfOf ks + eaxOffset) 0 (p2v e'.addr + k)
        = mem₂ (p2v e'.addr + k) :=
          moved.page_eq childPage.1 ksAligned (fun same => fresh (same ▸ childFree)) short
      _ = stackFrame trapret forkret s.mem ks (p2v e.addr + k) := bytes k short
      _ = s.mem (p2v e.addr + k) := framed.page_eq parentPage.1 ksAligned parentOther short
  · intro k below
    dsimp only
    rw [tfCopy_tf mem₂ ks (tfOf stack) below, stacked, Option.getD_some]
    split
    · rfl
    · have inPage : 4020 + k < pgSize := by
        unfold tfSize at below
        unfold pgSize
        omega
      rw [tfOf_eq, Nat.add_assoc]
      rw [written.page_eq stackAligned restAligned (fun free => stackBusy (kept stack free)) inPage]
      exact framed.page_eq stackAligned ksAligned stackOther inPage
  · intro a low high
    dsimp only
    rw [tfCopy_below mem₂ high]
    obtain ⟨k, rfl⟩ : ∃ k, a = ks + k := ⟨a - ks, by omega⟩
    have inPage : k < pgSize := by
      rw [tfOf_eq] at high
      unfold pgSize
      omega
    exact written.page_eq ksPage.1 restAligned fresh inPage

/-- wait's reaping of an entry that holds its kernel stack `kstack` and its
page directory `pgdir`, with the pages of its directory, never panics and
writes only bytes of those pages; afterwards they are all free, with the
pages that were. -/
theorem reap_spec {j : Fin nProc} {kstack pgdir : Nat} (stacked : (s.proc j).kstack = some kstack)
    (mapped : (s.proc j).pgdir = some pgdir) (owns : Owns s.kmem (s.dir j).owned [kstack, pgdir])
    (tabled : (s.dir j).owned.Tabled) (bounded : (s.dir j).Bounded) :
    ∃ s', s.reap j = .ok s' ∧ Within (Pool s.kmem (s.dir j).owned [kstack, pgdir]) s.mem s'.mem ∧
      Owns s'.kmem Pgdir.empty [] ∧ Pool s'.kmem Pgdir.empty [] = Pool s.kmem (s.dir j).owned [kstack, pgdir] := by
  obtain ⟨freed, owns₁, pool₁⟩ := owns.kfree
  obtain ⟨mem₁, kfreed⟩ := Fallible.exists_ok_of_map_fst ((Phys.kfree_map_fst ..).trans freed)
  obtain ⟨m₂, cleared, owns₂, pool₂⟩ := owns₁.freevm tabled bounded
  obtain ⟨mem₂, released⟩ := Fallible.exists_ok_of_map_fst ((Phys.freevm_map_fst ..).trans cleared)
  have stackWritten := Phys.kfree_within kfreed
  have dirWritten := Phys.freevm_within [] released
  unfold reap
  rw [stacked, mapped, Option.getD_some, Option.getD_some, kfreed, Fallible.ok_bind]
  dsimp only
  rw [released, Fallible.ok_bind]
  refine ⟨_, rfl, ?_, owns₂, pool₂.trans pool₁⟩
  refine (stackWritten.mono fun v same => ?_).trans (dirWritten.mono fun v pooled => ?_)
  · exact .inl (List.mem_append_right _ (same ▸ List.mem_cons_self))
  · rw [pool₁] at pooled
    exact pooled

/-- What fork takes, wait gives back: reaping the child of a fork that
returned it leaves the free list as it was before the fork, in some order,
with every other byte of memory as it was before the reaping. -/
theorem reap_after_fork {s' : State} {curproc np : Fin nProc} {kstack pgdir : Nat}
    (forked : Forked data trapret forkret s s' curproc np kstack pgdir) (free : Owns s.kmem Pgdir.empty []) :
    ∃ s'', s'.reap np = .ok s'' ∧ s''.kmem.freelist.Perm s.kmem.freelist ∧
      Within (· ∈ s.kmem.freelist) s'.mem s''.mem := by
  have stacked : (s'.proc np).kstack = some kstack := by
    rw [forked.proc, Function.update_self]
  have mapped : (s'.proc np).pgdir = some pgdir := by
    rw [forked.proc, Function.update_self]
  obtain ⟨s'', reaped, written, owns'', pool''⟩ :=
    reap_spec stacked mapped forked.owns forked.tabled forked.bounded
  rw [forked.pool] at written pool''
  refine ⟨s'', reaped, free.perm_of_pool owns'' ?_, written⟩
  rw [pool'', pool_empty]

/-- fork never panics and writes only pages that were free.  It fails as
`Failed` says, only for want of an UNUSED entry or of free pages, or makes a
child as `Forked` says, and what it takes wait gives back: reaping that child
leaves the free list as it was before the fork, in some order. -/
theorem fork_then_reap (aligned : data % pgSize = 0) (linked : kernLink < data) (inMemory : data < p2v phyStop)
    {curproc : Fin nProc} (running : (s.proc curproc).state = .running)
    (parentOwns : Owns s.kmem (s.dir curproc).owned []) {stack : Nat}
    (stacked : (s.proc curproc).kstack = some stack) (stackAligned : stack % pgSize = 0)
    (stackBusy : stack ∉ s.kmem.freelist) (small : s.sz curproc < kernBase)
    (present : ∀ u, u * pgSize < s.sz curproc → ((s.dir curproc).pte (u * pgSize)).isSome) :
    ∃ s' r, s.fork data trapret forkret curproc = .ok (s', r) ∧ Within (· ∈ s.kmem.freelist) s.mem s'.mem ∧
      (r = -1 ∧ Failed s s' ∧ ((∀ j, (s.proc j).state ≠ .unused) ∨
          s.kmem.freelist.length < 68 + 2 * (pgroundup (s.sz curproc) / pgSize)) ∨
        ∃ np kstack pgdir, r = s.nextpid ∧ Forked data trapret forkret s s' curproc np kstack pgdir ∧
          ∃ s'', s'.reap np = .ok s'' ∧ s''.kmem.freelist.Perm s.kmem.freelist) := by
  obtain ⟨s', r, ran, written, outcome⟩ :=
    fork_spec aligned linked inMemory running parentOwns stacked stackAligned stackBusy small present
  refine ⟨s', r, ran, written, ?_⟩
  rcases outcome with failed | ⟨np, kstack, pgdir, pid, forked⟩
  · exact .inl failed
  · obtain ⟨s'', reaped, perm, -⟩ := reap_after_fork forked parentOwns.forget
    exact .inr ⟨np, kstack, pgdir, pid, forked, s'', reaped, perm⟩

/-- Entry 0 of the table. -/
def entry₀ : Fin nProc := Kernel.entry₀

/-- The first process running on CPU 0 in entry 0, the entries as
`Proc.Lifecycle`'s first table has them, with no user memory and one free
page: too few for a child. -/
def firstFork : State :=
  ⟨Kernel.initRunning.proc, fun _ => 0, fun _ => Pgdir.empty, Kernel.initRunning.nextpid, oneFreePage, fun _ => 0⟩

theorem firstFork_running : (firstFork.proc entry₀).state = .running := by
  decide +kernel

theorem firstFork_stack : (firstFork.proc entry₀).kstack = some 0 := by
  decide +kernel

theorem firstFork_owns : Owns firstFork.kmem (firstFork.dir entry₀).owned [] := by
  show Owns oneFreePage Pgdir.empty.owned []
  rw [Pgdir.empty_owned]
  exact ⟨by decide, by decide, (fun _ _ found => by cases found), (fun _ _ found => by cases found),
    (fun _ _ _ _ found => by cases found), (fun _ _ _ _ found => by cases found),
    (fun _ _ _ _ found => by cases found)⟩

theorem kernBase_lt_kmem70 : kernBase < 0x80200000 := by decide

/-- kmem with 70 free pages above the first process's page table and code
page: enough for the child's stack, setupkvm's 67 and the copy of the one
user page with its page table. -/
def kmem70 : Kmem := ⟨0x80200000, kernBase_lt_kmem70, (List.range 70).map fun i => 0x80203000 + i * pgSize⟩

/-- The first process as userinit leaves it, of size `PGSIZE` with its code
page mapped at 0, running in entry 0, with 70 free pages. -/
def firstUser : State :=
  ⟨Kernel.initRunning.proc, fun _ => pgSize, fun _ => initPgdir, Kernel.initRunning.nextpid, kmem70, fun _ => 0⟩

theorem firstUser_owns : Owns firstUser.kmem (firstUser.dir entry₀).owned [] := by
  show Owns kmem70 initPgdir.owned []
  have entry : ∀ {u e}, initPgdir.owned.entries u = some e → u = 0 ∧ e = ⟨0x202000, true, true⟩ :=
    fun {u e} found => by
      rw [Pgdir.owned_entries] at found
      split_ifs at found
      exact initPgdir_entry found
  refine ⟨by decide, by decide, fun u e found => ?_, fun i t found => ?_,
    fun u w e f found found' _ => ?_, fun i j t t' found found' _ => ?_, fun i t u e found found' => ?_⟩
  · rw [(entry found).2]
    decide
  · rw [(initPgdir_table found).2]
    decide
  · rw [(entry found).1, (entry found').1]
  · rw [(initPgdir_table found).1, (initPgdir_table found').1]
  · rw [(initPgdir_table found).2, (entry found').2]
    decide

theorem firstUser_present :
    ∀ u, u * pgSize < firstUser.sz entry₀ → ((firstUser.dir entry₀).pte (u * pgSize)).isSome := by
  intro u below
  obtain rfl : u = 0 := by
    change u * pgSize < pgSize at below
    unfold pgSize at below
    omega
  decide

/-- The first process forks with room for the child: fork returns the
child's pid with the child set up, and wait's reaping gives its pages back. -/
theorem fork_then_reap_first :
    ∃ s' np kstack pgdir, firstUser.fork 0x80108000 0 0 entry₀ = .ok (s', firstUser.nextpid) ∧
      Within (· ∈ firstUser.kmem.freelist) firstUser.mem s'.mem ∧
      Forked 0x80108000 0 0 firstUser s' entry₀ np kstack pgdir ∧
      ∃ s'', s'.reap np = .ok s'' ∧ s''.kmem.freelist.Perm firstUser.kmem.freelist := by
  have running : (firstUser.proc entry₀).state = .running := firstFork_running
  have stacked : (firstUser.proc entry₀).kstack = some 0 := firstFork_stack
  have unused : (firstUser.proc ⟨1, by decide⟩).state = .unused := by decide +kernel
  obtain ⟨s', r, ran, written, outcome⟩ := fork_then_reap (s := firstUser)
    (show (0x80108000 : Nat) % pgSize = 0 by decide) (by decide) (by decide) running firstUser_owns stacked
    (by decide) (by decide) (by decide) firstUser_present
  rcases outcome with ⟨-, -, full | short⟩ | ⟨np, kstack, pgdir, rfl, forked, reaped⟩
  · exact absurd unused (full _)
  · -- 70 free pages are enough for a process of one page
    exact absurd short (by decide)
  · exact ⟨s', np, kstack, pgdir, ran, written, forked, reaped⟩

end State

/-! ## fork is a run of the table's own model -/

/-- An entry of `Proc.Basic`'s table agrees with one of this table: the same
fields, with a kernel stack and a page directory where the other has one.
That table names those by the allocation that made them, this one by the
page itself. -/
structure EntryAgrees (p q : Proc) : Prop where
  state : p.state = q.state
  pid : p.pid = q.pid
  parent : p.parent = q.parent
  killed : p.killed = q.killed
  chan : p.chan = q.chan
  kstack : p.kstack.isSome = q.kstack.isSome
  pgdir : p.pgdir.isSome = q.pgdir.isSome

/-- `Proc.Basic`'s table `k` agrees with `s`: the same `nextpid`, and
agreeing entries. -/
structure Agrees (k : Kernel) (s : State) : Prop where
  nextpid : k.nextpid = s.nextpid
  proc : ∀ j, EntryAgrees (k.proc j) (s.proc j)

theorem agrees_update {f g : Fin nProc → Proc} (agrees : ∀ j, EntryAgrees (f j) (g j)) {np : Fin nProc}
    {p q : Proc} (same : EntryAgrees p q) (j : Fin nProc) :
    EntryAgrees (Function.update f np p j) (Function.update g np q j) := by
  by_cases here : j = np
  · rw [here, Function.update_self, Function.update_self]
    exact same
  · rw [Function.update_of_ne here, Function.update_of_ne here]
    exact agrees j

section Simulation

variable {data : Nat} {trapret forkret : UInt32} {s s' : State} {k : Kernel} {c : Fin nCpu}
  {curproc : Fin nProc}

/-- The `fork` action of the CPU running `curproc` is allocproc, whose entry
it records as the child `curproc` is forking. -/
theorem step_fork_eq (current : k.cpus c = some curproc) (idle : k.forking curproc = none) (stackOk : Bool) :
    k.step (.fork c stackOk) = some { (k.allocproc stackOk).1 with
      forking := Function.update (k.allocproc stackOk).1.forking curproc (k.allocproc stackOk).2 } := by
  simp only [Kernel.step, current, Option.bind_some, idle, if_true]

/-- The `forkCopy` action of the CPU running `curproc`, forking the child `np`. -/
theorem step_forkCopy_eq (current : k.cpus c = some curproc) {np : Fin nProc} (forking : k.forking curproc = some np)
    (copyOk : Bool) :
    k.step (.forkCopy c copyOk) = some { k.forkCopy curproc np copyOk with
      forking := Function.update k.forking curproc none } := by
  simp only [Kernel.step, current, Option.bind_some, forking, Option.map_some]

/-- fork here is a run of `Proc.System`'s table.  From a table that agrees,
where the CPU `c` runs `curproc` and `curproc` is not in the middle of a
fork, the `fork` action with kalloc's success, then, when allocproc found an
entry, the `forkCopy` action with copyuvm's, reach a table that agrees with
the one fork leaves, `curproc` no longer forking. -/
theorem fork_simulates (current : k.cpus c = some curproc) (idle : k.forking curproc = none) (agrees : Agrees k s)
    {r : Int} (ran : s.fork data trapret forkret curproc = .ok (s', r)) :
    ∃ stackOk k₁, k.step (.fork c stackOk) = some k₁ ∧
      (k₁.forking curproc = none ∧ Agrees k₁ s' ∨
        ∃ copyOk k₂, k₁.step (.forkCopy c copyOk) = some k₂ ∧ k₂.forking curproc = none ∧ Agrees k₂ s') := by
  -- both tables take the same first UNUSED entry
  have scan : (fun j => decide ((k.proc j).state = .unused)) = fun j => decide ((s.proc j).state = .unused) :=
    funext fun j => by rw [(agrees.proc j).state]
  unfold State.fork at ran
  rcases State.allocproc_cases trapret forkret s with ⟨absent, alloc⟩ | ⟨p, found, _, alloc⟩ |
    ⟨np, ks, rest, found, _, alloc⟩
  · -- no UNUSED entry: `fork` finds none either
    rw [alloc] at ran
    cases ran
    have stays : k.allocproc true = (k, none) := by
      unfold Kernel.allocproc
      rw [scan, absent]
    refine ⟨true, _, step_fork_eq current idle true, .inl ⟨?_, ?_⟩⟩
    · rw [stays]
      exact Function.update_self ..
    · rw [stays]
      exact ⟨agrees.nextpid, agrees.proc⟩
  · -- no page for the stack: `fork` with kalloc failing
    rw [alloc] at ran
    cases ran
    have spent : k.allocproc false = ({ k with
        proc := Function.update k.proc p { k.proc p with state := .unused, pid := k.nextpid, kstack := none }
        nextpid := k.nextpid + 1 }, none) := by
      unfold Kernel.allocproc
      rw [scan, found]
      rfl
    refine ⟨false, _, step_fork_eq current idle false, .inl ⟨?_, ?_⟩⟩
    · rw [spent]
      exact Function.update_self ..
    · rw [spent]
      have old := agrees.proc p
      refine ⟨congrArg (· + 1) agrees.nextpid, agrees_update agrees.proc ?_⟩
      exact ⟨rfl, agrees.nextpid, old.parent, old.killed, old.chan, rfl, old.pgdir⟩
  -- the stack: `fork` with kalloc succeeding, then `forkCopy` with copyuvm's outcome
  have made : k.allocproc true = ({ k with
      proc := Function.update k.proc np { k.proc np with state := .embryo, pid := k.nextpid, kstack := some k.nextStack }
      nextpid := k.nextpid + 1
      nextStack := k.nextStack + 1 }, some np) := by
    unfold Kernel.allocproc
    rw [scan, found]
    rfl
  have old := agrees.proc np
  have embryo : EntryAgrees { k.proc np with state := .embryo, pid := k.nextpid, kstack := some k.nextStack }
      { s.proc np with state := .embryo, pid := s.nextpid, kstack := some ks } :=
    ⟨rfl, agrees.nextpid, old.parent, old.killed, old.chan, rfl, old.pgdir⟩
  obtain ⟨k₁, forked, cpus₁, forking₁, proc₁, nextpid₁⟩ : ∃ k₁, k.step (.fork c true) = some k₁ ∧
      k₁.cpus = k.cpus ∧ k₁.forking curproc = some np ∧
      k₁.proc = Function.update k.proc np
        { k.proc np with state := .embryo, pid := k.nextpid, kstack := some k.nextStack } ∧
      k₁.nextpid = k.nextpid + 1 := by
    refine ⟨_, step_fork_eq current idle true, ?_, ?_, ?_, ?_⟩ <;> rw [made]
    exact Function.update_self ..
  refine ⟨true, k₁, forked, .inr ?_⟩
  have current₁ : k₁.cpus c = some curproc := by
    rw [cpus₁]
    exact current
  rw [alloc] at ran
  dsimp only at ran
  obtain ⟨⟨⟨copied, m₂⟩, mem₂⟩, -, rest⟩ := Fallible.bind_ok ran
  rcases copied with _ | ⟨pgdir, d⟩
  · -- copyuvm failed: `forkCopy` with `false`
    obtain ⟨⟨m₃, mem₃⟩, -, done⟩ := Fallible.bind_ok rest
    cases done
    refine ⟨false, _, step_forkCopy_eq current₁ forking₁ false, Function.update_self .., ?_, fun j => ?_⟩
    · show k₁.nextpid = s.nextpid + 1
      rw [nextpid₁, agrees.nextpid]
    · show EntryAgrees (Function.update k₁.proc np { k₁.proc np with kstack := none, pgdir := none, state := .unused } j) _
      rw [proc₁]
      refine agrees_update (agrees_update agrees.proc embryo) ?_ j
      rw [Function.update_self, Function.update_self]
      exact ⟨rfl, embryo.pid, embryo.parent, embryo.killed, embryo.chan, rfl, rfl⟩
  · -- copyuvm made the copy: `forkCopy` with `true`
    cases rest
    refine ⟨true, _, step_forkCopy_eq current₁ forking₁ true, Function.update_self .., ?_, fun j => ?_⟩
    · show k₁.nextpid = s.nextpid + 1
      rw [nextpid₁, agrees.nextpid]
    · show EntryAgrees (Function.update k₁.proc np
        { k₁.proc np with pgdir := some k₁.nextDir, parent := some curproc, state := .runnable } j) _
      rw [proc₁]
      refine agrees_update (agrees_update agrees.proc embryo) ?_ j
      rw [Function.update_self, Function.update_self]
      exact ⟨rfl, embryo.pid, rfl, embryo.killed, embryo.chan, embryo.kstack, rfl⟩

/-- After fork the table is one `Proc.System` reaches, so every fact of its
invariant (`Kernel.inv_reachable`: distinct pids, live parents, one forking
process per child) holds of it. -/
theorem fork_reachable (reachable : k.Reachable) (current : k.cpus c = some curproc)
    (idle : k.forking curproc = none) (agrees : Agrees k s) {r : Int}
    (ran : s.fork data trapret forkret curproc = .ok (s', r)) :
    ∃ k', k'.Reachable ∧ k'.forking curproc = none ∧ Agrees k' s' := by
  rcases fork_simulates current idle agrees ran with ⟨_, k₁, forked, ⟨idle₁, agrees₁⟩ | ⟨_, k₂, copied, idle₂, agrees₂⟩⟩
  · exact ⟨k₁, Machine.Reachable.next reachable forked, idle₁, agrees₁⟩
  · exact ⟨k₂, Machine.Reachable.next (Machine.Reachable.next reachable forked) copied, idle₂, agrees₂⟩

theorem fork_reachable_first :
    ∃ s' r, State.firstFork.fork 0x80108000 0 0 State.entry₀ = .ok (s', r) ∧
      ∃ k', k'.Reachable ∧ k'.forking State.entry₀ = none ∧ Agrees k' s' := by
  have scheduled : Kernel.step Kernel.firstKernel (.scheduler Kernel.cpu₀) = some Kernel.initRunning := by
    show (if Kernel.firstKernel.cpus Kernel.cpu₀ = none then
      some (Kernel.firstKernel.scheduler Kernel.cpu₀) else none) = _
    rw [if_pos (by decide +kernel)]
    rfl
  have reachable : Kernel.initRunning.Reachable :=
    Machine.Reachable.next (Machine.Reachable.initial Kernel.userinit_boot) scheduled
  have current : Kernel.initRunning.cpus Kernel.cpu₀ = some State.entry₀ := by
    decide +kernel
  have idle : Kernel.initRunning.forking State.entry₀ = none := by
    decide +kernel
  have agrees : Agrees Kernel.initRunning State.firstFork :=
    ⟨rfl, fun _ => ⟨rfl, rfl, rfl, rfl, rfl, rfl, rfl⟩⟩
  obtain ⟨s', r, ran, -⟩ := @State.fork_spec 0x80108000 0 0 State.firstFork (by decide) (by decide) (by decide)
    State.entry₀ State.firstFork_running State.firstFork_owns 0 State.firstFork_stack (by decide) (by decide)
    (by decide) fun _ below => absurd below (Nat.not_lt_zero _)
  exact ⟨s', r, ran, fork_reachable reachable current idle agrees ran⟩

end Simulation

end Fork
end Xv6
