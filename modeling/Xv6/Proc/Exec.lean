import Xv6.Vm.Stack
import Xv6.Proc.Fork

/-!
# exec

exec as a step of `Proc.Fork`'s process table, the program's file being its
inode's content (`none` when namei finds none): it builds the new image beside
the old one from free pages and commits only once the stack is in place, every
earlier failure going to `bad:`, which frees the new directory.  So exec is all
or nothing: -1 leaves the table, sizes, directories and free list (in some
order) as they were, and 0 leaves the new image holding, with the free list,
exactly the pages the old image and the free list held.
-/

namespace Xv6

namespace Vm

variable {m m' m₀ : Kmem} {d D : Pgdir} {held held' : List Nat} {v : Nat}

/-! ## Pages that change hands -/

/-- The pages `d` and the holder hold, beside the free list. -/
def Holding (d : Pgdir) (held : List Nat) (v : Nat) : Prop :=
  v ∈ held ∨ (∃ u e, d.entries u = some e ∧ v = p2v e.addr) ∨ ∃ i t, d.tables i = some t ∧ v = p2v t

theorem pool_iff : Pool m d held v ↔ v ∈ m.freelist ∨ Holding d held v := by
  simp only [Pool, Holding, List.mem_append, or_assoc]

theorem holding_empty : ¬ Holding Pgdir.empty [] v := by
  rintro (held | ⟨u, e, entry, -⟩ | ⟨i, t, found, -⟩)
  · cases held
  · cases entry
  · cases found

/-- A page `d` or the holder holds is not free. -/
theorem Owns.not_free_of_holding (owns : Owns m d held) (holding : Holding d held v) : v ∉ m.freelist := by
  rcases holding with kept | ⟨u, e, entry, rfl⟩ | ⟨i, t, found, rfl⟩
  · exact fun free => (List.nodup_append.mp owns.nodup).2.2 v free v kept rfl
  · exact fun free => (owns.user u e entry).2 (List.mem_append_left _ free)
  · exact fun free => (owns.table i t found).2 (List.mem_append_left _ free)

/-- Nothing held but the free list: drop a page from the holder. -/
theorem Owns.unhold {r : Nat} (owns : Owns m Pgdir.empty (r :: held)) : Owns m Pgdir.empty held where
  nodup := owns.drop_held.1
  spare v kept := owns.spare v (owns.drop_held.2 v kept)
  user _ _ entry := by cases entry
  table _ _ found := by cases found
  userInj _ _ _ _ entry := by cases entry
  tableInj _ _ _ _ found := by cases found
  apart _ _ _ _ found := by cases found

/-- One image taken from the free list, another handed back to it: the pool
of the one taken, with the free list after, is the pool of the one handed
back, with the free list before. -/
theorem pool_swap {m₁ m₂ : Kmem} (built : Pool m₁ D held = Pool m₀ Pgdir.empty [])
    (freed : Pool m₂ Pgdir.empty [] = Pool m₁ d held') : Pool m₂ D held = Pool m₀ d held' := by
  funext v
  have taken := congrFun built v
  have given := congrFun freed v
  simp only [eq_iff_iff, pool_iff] at taken given ⊢
  have nothing := holding_empty (v := v)
  tauto

end Vm

namespace Fork

open Vm

/-- The offset of `eip` in struct trapframe. -/
def tfEip : Nat := 56

/-- The offset of `esp` in struct trapframe. -/
def tfEsp : Nat := 68

namespace State

/-- exec's commit to the new image, held in `pgdir`: `curproc` gets the
directory and the size, its trap frame the program's entry and the stack
pointer, and the old directory is freed. -/
def commit (s : State) (curproc : Fin nProc) (pgdir : Nat) (d : Pgdir) (sz entry sp : Nat) (m : Kmem)
    (mem : Nat → UInt8) : Except Fault State := do
  let tf := tfOf ((s.proc curproc).kstack.getD 0)
  let mem := store32 mem (tf + tfEip) (UInt32.ofNat entry)
  let mem := store32 mem (tf + tfEsp) (UInt32.ofNat sp)
  let (m, mem) ← (Phys.freevm m mem ((s.proc curproc).pgdir.getD 0) (s.dir curproc)).mapError .panic
  return { s with
    proc := Function.update s.proc curproc { s.proc curproc with pgdir := some pgdir }
    sz := Function.update s.sz curproc sz
    dir := Function.update s.dir curproc d
    kmem := m
    mem := mem }

/-- exec by `curproc` of the program whose inode holds `file` (`none` when
namei finds no inode), with the arguments `argv`: 0, or -1.  `data` is the
kernel's `data` symbol, as for setupkvm. -/
def exec (data : Nat) (file : Option (List UInt8)) (argv : List (List UInt8)) (s : State)
    (curproc : Fin nProc) : Except Fault (State × Int) :=
  match file with
  | none => .ok (s, -1)
  | some file =>
      match readi file 0 elfhdrSize with
      | none => .ok (s, -1)
      | some b =>
          let elf := Elfhdr.read b
          if b.length ≠ elfhdrSize then .ok (s, -1)
          else if elf.magic ≠ elfMagic then .ok (s, -1)
          else do
            let ((r, m), mem) ← (Phys.setupkvm data s.kmem s.mem).mapError .panic
            match r with
            | none => return ({ s with kmem := m, mem := mem }, -1)
            | some (pgdir, d) =>
                let ((loaded, m, d), mem) ← Phys.loadSegs file elf.phnum m mem d 0 0 elf.phoff
                match loaded with
                | none =>
                    let ((_, m), mem) ← Phys.execBad pgdir m mem d
                    return ({ s with kmem := m, mem := mem }, -1)
                | some sz =>
                    match ← Phys.execStack pgdir m mem d sz argv with
                    | ((none, m), mem) => return ({ s with kmem := m, mem := mem }, -1)
                    | ((some (sz, sp, _, d), m), mem) =>
                        let s ← s.commit curproc pgdir d sz elf.entry sp m mem
                        return (s, 0)

end State

/-! ## What exec does -/

/-- What exec leaves when it returns -1: the table, every size and directory
as they were, the free list as it was in some order, the same end of the
kernel, and only bytes of pages that were free changed. -/
structure Unchanged (s s' : State) : Prop where
  proc : s'.proc = s.proc
  sz : s'.sz = s.sz
  dir : s'.dir = s.dir
  nextpid : s'.nextpid = s.nextpid
  perm : s'.kmem.freelist.Perm s.kmem.freelist
  kend : s'.kmem.kend = s.kmem.kend
  within : Within (· ∈ s.kmem.freelist) s.mem s'.mem

/-- What exec leaves when it returns 0, from the old image of `curproc` held
with its directory's page `pgdir₀`: `curproc` has the new directory, held in
the page `pgdir`, with setupkvm's kernel mappings and exactly the pages below
its size, each with `PTE_U` but the guard page; no other entry, size or
directory changed; the new image and the free list hold exactly the pages the
old image, `pgdir₀` and the free list held; and only bytes of those pages and
of the kernel stack `kstack` changed. -/
structure Replaced (data : Nat) (s s' : State) (curproc : Fin nProc) (pgdir₀ pgdir kstack : Nat) : Prop where
  proc : s'.proc = Function.update s.proc curproc { s.proc curproc with pgdir := some pgdir }
  sz : ∀ j, j ≠ curproc → s'.sz j = s.sz j
  dir : ∀ j, j ≠ curproc → s'.dir j = s.dir j
  nextpid : s'.nextpid = s.nextpid
  owns : Owns s'.kmem (s'.dir curproc).owned [pgdir]
  tabled : (s'.dir curproc).owned.Tabled
  bounded : (s'.dir curproc).Bounded
  pool : Pool s'.kmem (s'.dir curproc).owned [pgdir] = Pool s.kmem (s.dir curproc).owned [pgdir₀]
  kend : s'.kmem.kend = s.kmem.kend
  kernel : ∀ v, kernBase ≤ v → (s'.dir curproc).pte v = kernelPte data v
  present : ∀ u, ((s'.dir curproc).owned.entries u).isSome ↔ u * pgSize < s'.sz curproc
  user : ∀ u e, (s'.dir curproc).owned.entries u = some e →
    (e.user = true ↔ u * pgSize + 2 * pgSize ≠ s'.sz curproc)
  below : s'.sz curproc < kernBase
  within : Within (fun v => Pool s.kmem (s.dir curproc).owned [pgdir₀] v ∨ v = kstack) s.mem s'.mem

section Exec

variable {data : Nat} {s : State} {curproc : Fin nProc} {pgdir₀ kstack : Nat}

theorem unchanged_self (s : State) : Unchanged s s :=
  ⟨rfl, rfl, rfl, rfl, List.Perm.refl _, rfl, Within.refl _ _⟩

/-- `bad:` leaves the process as it was. -/
theorem Freed.unchanged {m : Kmem} {mem : Nat → UInt8} (free : Owns s.kmem Pgdir.empty [])
    (freed : Freed s.kmem s.mem m mem) : Unchanged s { s with kmem := m, mem := mem } :=
  ⟨rfl, rfl, rfl, rfl, free.perm_of_pool freed.owns freed.pool, freed.kend, freed.within⟩

/-- The commit, from the new image built of pages that were free, with the
old image held: it never panics, and it leaves what `Replaced` says. -/
theorem commit_spec {pgdir sz : Nat} {m : Kmem} {mem : Nat → UInt8} {d : Pgdir}
    (stacked : Stacked data s.kmem s.mem pgdir m mem d sz) (mapped : (s.proc curproc).pgdir = some pgdir₀)
    (kstacked : (s.proc curproc).kstack = some kstack) (owns : Owns s.kmem (s.dir curproc).owned [pgdir₀])
    (tabled : (s.dir curproc).owned.Tabled) (bounded : (s.dir curproc).Bounded) (entry sp : Nat) :
    ∃ s', s.commit curproc pgdir d sz entry sp m mem = .ok s' ∧
      Replaced data s s' curproc pgdir₀ pgdir kstack := by
  -- the old image is still held: exec took only pages that were free
  have kept : Owns m (s.dir curproc).owned [pgdir₀] :=
    owns.of_freelist stacked.owns.forget.unhold stacked.kend fun v free => .inl (stacked.free free)
  obtain ⟨m', freed, owns', pool'⟩ := kept.freevm tabled bounded
  have kend' := freevm_kend freed
  -- the trap frame's `eip` and `esp`, in the kernel stack's page
  have framed : Within (· = kstack) mem
      (store32 (store32 mem (tfOf kstack + tfEip) (UInt32.ofNat entry)) (tfOf kstack + tfEsp) (UInt32.ofNat sp)) := by
    refine (within_store32 (P := (· = kstack)) rfl ?_ ?_ mem _).trans
      (within_store32 (P := (· = kstack)) rfl ?_ ?_ _ _) <;>
      · simp only [tfOf_eq, tfEip, tfEsp, pgSize]
        omega
  obtain ⟨mem', phys⟩ := Fallible.exists_ok_of_map_fst ((Phys.freevm_map_fst ..).trans freed)
  have cleared := Phys.freevm_within [] phys
  have built : Pool m d.owned [pgdir] = Pool s.kmem Pgdir.empty [] := stacked.pool
  -- a page the old image held is none of the new image's, which were free
  have fresh : ∀ v ∈ m'.freelist, v ∈ m.freelist ∨ ¬ Pool m d.owned [pgdir] v := by
    intro v free
    have pooled : Pool m' Pgdir.empty [] v := .inl (List.mem_append_left _ free)
    rw [pool', pool_iff] at pooled
    rcases pooled with kept | holding
    · exact .inl kept
    · refine .inr fun taken => owns.not_free_of_holding holding ?_
      rw [built, pool_empty] at taken
      exact taken
  unfold State.commit
  rw [kstacked, mapped, Option.getD_some, Option.getD_some]
  dsimp only
  rw [phys, Fallible.ok_mapError, Fallible.ok_bind]
  refine ⟨_, rfl, ⟨rfl, fun j other => Function.update_of_ne other _ _,
    fun j other => Function.update_of_ne other _ _, rfl, ?_, ?_, ?_, ?_, ?_, ?_, ?_, ?_, ?_, ?_⟩⟩
  all_goals simp only [Function.update_self]
  · exact stacked.owns.of_freelist owns' (kend'.trans stacked.kend ▸ kend') fresh
  · exact stacked.tabled
  · exact stacked.bounded
  · exact pool_swap built pool'
  · exact kend'.trans stacked.kend
  · exact stacked.kernel
  · exact stacked.present
  · exact stacked.user
  · exact stacked.below
  · -- the build, the trap frame, then the old image's pages
    have before : ∀ v, Pool m (s.dir curproc).owned [pgdir₀] v → Pool s.kmem (s.dir curproc).owned [pgdir₀] v := by
      intro v pooled
      rw [pool_iff] at pooled ⊢
      rcases pooled with free | holding
      · exact .inl (stacked.free free)
      · exact .inr holding
    exact ((stacked.within.mono fun v free => .inl (pool_iff.mpr (.inl free))).trans
      (framed.mono fun v same => .inr same)).trans (cleared.mono fun v pooled => .inl (before v pooled))

/-- exec by a process that holds its image and its directory's page, with
arguments that fit in the two pages of its stack, never panics and is all
or nothing: it returns -1 with the process and the free list as they were
and only bytes of free pages changed, or 0 with the process's image replaced
as `Replaced` says. -/
theorem exec_all_or_nothing (aligned : data % pgSize = 0) (linked : kernLink < data)
    (inMemory : data < p2v phyStop) (mapped : (s.proc curproc).pgdir = some pgdir₀)
    (kstacked : (s.proc curproc).kstack = some kstack) (owns : Owns s.kmem (s.dir curproc).owned [pgdir₀])
    (tabled : (s.dir curproc).owned.Tabled) (bounded : (s.dir curproc).Bounded) (file : Option (List UInt8))
    {argv : List (List UInt8)} (fits : argSpace argv ≤ 2 * pgSize) :
    ∃ s' r, s.exec data file argv curproc = .ok (s', r) ∧
      (r = -1 ∧ Unchanged s s' ∨ r = 0 ∧ ∃ pgdir, Replaced data s s' curproc pgdir₀ pgdir kstack) := by
  have free : Owns s.kmem Pgdir.empty [] := owns.forget.unhold
  have refused : ∃ r, (Except.ok (s, -1) : Except Fault (State × Int)) = .ok (s, r) ∧
      (r = -1 ∧ Unchanged s s ∨ r = 0 ∧ ∃ pgdir, Replaced data s s curproc pgdir₀ pgdir kstack) :=
    ⟨-1, rfl, .inl ⟨rfl, unchanged_self s⟩⟩
  unfold State.exec
  rcases file with _ | file
  · exact ⟨s, refused⟩
  dsimp only
  rcases readi file 0 elfhdrSize with _ | b
  · exact ⟨s, refused⟩
  dsimp only
  by_cases short : b.length ≠ elfhdrSize
  · rw [if_pos short]
    exact ⟨s, refused⟩
  rw [if_neg short]
  by_cases foreign : (Elfhdr.read b).magic ≠ elfMagic
  · rw [if_pos foreign]
    exact ⟨s, refused⟩
  rw [if_neg foreign]
  -- setupkvm, then the segments, then the stack; each failure is `bad:`
  obtain ⟨r, m₁, mem₁, built, written₁, kend₁, outcome⟩ := Phys.setupkvm_spec aligned linked inMemory free s.mem
  rw [built, Fallible.ok_mapError, Fallible.ok_bind]
  dsimp only
  rcases outcome with ⟨rfl, owns₁, pool₁⟩ | ⟨pgdir, d, rfl, owns₁, tabled₁, bounded₁, kernel₁, pool₁⟩
  · exact ⟨_, -1, rfl, .inl ⟨rfl, Freed.unchanged free ⟨owns₁, pool₁, written₁, kend₁⟩⟩⟩
  dsimp only
  have start : Building data _ _ _ _ _ _ _ := Building.start owns₁ tabled₁ bounded₁ kernel₁ pool₁ written₁ kend₁
  obtain ⟨loaded, m₂, d₂, mem₂, load, holds₂, result⟩ :=
    start.loadSegs (by decide) file (Elfhdr.read b).phnum 0 (Elfhdr.read b).phoff
  rw [load, Fallible.ok_bind]
  dsimp only
  rcases loaded with _ | sz
  · obtain ⟨m₃, mem₃, bad, freed⟩ := holds₂.execBad
    rw [bad, Fallible.ok_bind]
    exact ⟨_, -1, rfl, .inl ⟨rfl, Freed.unchanged free freed⟩⟩
  obtain ⟨small, building⟩ := result sz rfl
  obtain ⟨r, m₃, mem₃, stack, outcome, -⟩ := building.execStack small fits
  dsimp only
  rw [stack, Fallible.ok_bind]
  rcases outcome with ⟨rfl, freed⟩ | ⟨sz', sp, ustack, d₃, rfl, stacked₃⟩
  · exact ⟨_, -1, rfl, .inl ⟨rfl, Freed.unchanged free freed⟩⟩
  dsimp only
  obtain ⟨s', committed, replaced⟩ :=
    commit_spec stacked₃ mapped kstacked owns tabled bounded (Elfhdr.read b).entry sp
  rw [committed, Fallible.ok_bind]
  exact ⟨s', 0, rfl, .inr ⟨rfl, pgdir, replaced⟩⟩

/-- exec of a program whose ELF header is well formed and names no program
header, with arguments that fit in one page and 71 free pages (setupkvm's 67
and the four the stack may take), commits to the new image: it returns 0. -/
theorem exec_commits (aligned : data % pgSize = 0) (linked : kernLink < data)
    (inMemory : data < p2v phyStop) (mapped : (s.proc curproc).pgdir = some pgdir₀)
    (kstacked : (s.proc curproc).kstack = some kstack) (owns : Owns s.kmem (s.dir curproc).owned [pgdir₀])
    (tabled : (s.dir curproc).owned.Tabled) (bounded : (s.dir curproc).Bounded) {file b : List UInt8}
    (header : readi file 0 elfhdrSize = some b) (sized : b.length = elfhdrSize)
    (magic : (Elfhdr.read b).magic = elfMagic) (noSegments : (Elfhdr.read b).phnum = 0)
    (enough : 71 ≤ s.kmem.freelist.length) {argv : List (List UInt8)} (fits : argSpace argv ≤ pgSize)
    (few : argv.length ≤ maxArg) :
    ∃ s', s.exec data (some file) argv curproc = .ok (s', 0) := by
  have free : Owns s.kmem Pgdir.empty [] := owns.forget.unhold
  unfold State.exec
  dsimp only
  rw [header]
  dsimp only
  rw [if_neg (not_not.mpr sized), if_neg (not_not.mpr magic)]
  obtain ⟨r, m₁, mem₁, built, written₁, kend₁, outcome⟩ := Phys.setupkvm_spec aligned linked inMemory free s.mem
  obtain ⟨isSome, used⟩ := Phys.setupkvm_some aligned linked inMemory (by omega) built
  rw [built, Fallible.ok_mapError, Fallible.ok_bind]
  dsimp only
  rcases outcome with ⟨rfl, -, -⟩ | ⟨pgdir, d, rfl, owns₁, tabled₁, bounded₁, kernel₁, pool₁⟩
  · cases isSome
  dsimp only
  -- no program header: loadSegs returns at once, at size 0
  rw [noSegments, Phys.loadSegs, if_neg (Nat.lt_irrefl 0), Fallible.ok_bind]
  dsimp only
  have start : Building data _ _ _ _ _ _ _ := Building.start owns₁ tabled₁ bounded₁ kernel₁ pool₁ written₁ kend₁
  obtain ⟨r, m₃, mem₃, stack, outcome, total⟩ := start.execStack (by decide) (show argSpace argv ≤ 2 * pgSize by omega)
  have stackSome : r.isSome := total (by decide) (by omega) fits few
  rw [stack, Fallible.ok_bind]
  rcases outcome with ⟨rfl, -⟩ | ⟨sz', sp, ustack, d₃, rfl, stacked₃⟩
  · cases stackSome
  dsimp only
  obtain ⟨s', committed, -⟩ := commit_spec stacked₃ mapped kstacked owns tabled bounded (Elfhdr.read b).entry sp
  rw [committed, Fallible.ok_bind]
  exact ⟨s', rfl⟩

/-- The first process as `State.firstFork` has it, holding the page above
the end of the kernel as its directory's page, with the 72 pages above that
free. -/
def firstExec : State :=
  { State.firstFork with
    proc := Function.update State.firstFork.proc State.entry₀
      { State.firstFork.proc State.entry₀ with pgdir := some (kernBase + 0x401000) }
    kmem := ⟨kernBase + 0x400000, kernBase_lt_add_four_mib,
      (List.range 72).map fun i => kernBase + 0x402000 + i * pgSize⟩ }

theorem firstExec_pgdir : (firstExec.proc State.entry₀).pgdir = some (kernBase + 0x401000) := by
  unfold firstExec
  dsimp only
  rw [Function.update_self]

theorem firstExec_stack : (firstExec.proc State.entry₀).kstack = some 0 := by
  unfold firstExec
  dsimp only
  rw [Function.update_self]
  exact State.firstFork_stack

theorem firstExec_owns : Owns firstExec.kmem (firstExec.dir State.entry₀).owned [kernBase + 0x401000] := by
  show Owns firstExec.kmem Pgdir.empty.owned [kernBase + 0x401000]
  rw [Pgdir.empty_owned]
  exact ⟨by decide +kernel, by decide +kernel, (fun _ _ found => by cases found), (fun _ _ found => by cases found),
    (fun _ _ _ _ found => by cases found), (fun _ _ _ _ found => by cases found),
    (fun _ _ _ _ found => by cases found)⟩

/-- An ELF header of 52 bytes: the magic number, then zeros, so no program
header and entry 0. -/
def emptyElf : List UInt8 := [0x7F, 0x45, 0x4C, 0x46] ++ List.replicate 48 0

theorem exec_all_or_nothing_first :
    ∃ s' pgdir, firstExec.exec 0x80108000 (some emptyElf) [[104, 105]] State.entry₀ = .ok (s', 0) ∧
      Replaced 0x80108000 firstExec s' State.entry₀ (kernBase + 0x401000) pgdir 0 := by
  obtain ⟨s', r, ran, outcome⟩ := exec_all_or_nothing (show (0x80108000 : Nat) % pgSize = 0 by decide)
    (by decide) (by decide) firstExec_pgdir firstExec_stack firstExec_owns Pgdir.empty_tabled Pgdir.empty_bounded (some emptyElf)
    (show argSpace [[104, 105]] ≤ 2 * pgSize by decide)
  obtain ⟨s'', commits⟩ := exec_commits (show (0x80108000 : Nat) % pgSize = 0 by decide) (by decide)
    (by decide) firstExec_pgdir firstExec_stack firstExec_owns Pgdir.empty_tabled Pgdir.empty_bounded
    (show readi emptyElf 0 elfhdrSize = some emptyElf by decide) (by decide) (by decide) (by decide)
    (by decide +kernel) (show argSpace [[104, 105]] ≤ pgSize by decide) (by decide)
  rw [ran, Except.ok.injEq, Prod.mk.injEq] at commits
  obtain ⟨rfl, rfl⟩ := commits
  rcases outcome with ⟨minus, -⟩ | ⟨-, pgdir, replaced⟩
  · cases minus
  · exact ⟨s', pgdir, ran, replaced⟩

end Exec

end Fork
end Xv6
