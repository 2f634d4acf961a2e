import Xv6.Proc.Preservation

/-!
# The life of a process

What the invariant of `Xv6.Proc.Preservation` says about every reachable
state of the table: live and zombie processes other than `initproc` have a
parent that is in use, `exit` hands every child to `initproc`, `wait` reaps
only its own zombie children and gives their pages back once, no process is
current on two CPUs, only the scheduler puts a process on a CPU and only a
RUNNABLE one, and used entries have distinct pids.
-/

namespace Xv6
namespace Kernel

variable {k k' : Kernel}

theorem allocproc_cpus (stackOk : Bool) : (k.allocproc stackOk).1.cpus = k.cpus := by
  rcases allocproc_cases (k := k) stackOk with full | ⟨_, _, _, alloc⟩ | ⟨_, _, _, alloc⟩
  · rw [full]
  · rw [alloc]
  · rw [alloc]

theorem forkCopy_cpus (i j : Fin nProc) (copyOk : Bool) : (k.forkCopy i j copyOk).cpus = k.cpus := by
  cases copyOk <;> rfl

/-- What a step can do to the CPUs: nothing, send one back to its
scheduler, or start a RUNNABLE process on one. -/
theorem step_cpus {a : Action} (stepped : k.step a = some k') :
    k'.cpus = k.cpus ∨ (∃ c, k'.cpus = Function.update k.cpus c none) ∨
      ∃ c j, (k.proc j).state = .runnable ∧ k'.cpus = Function.update k.cpus c (some j) := by
  cases a with
  | fork c stackOk =>
      obtain ⟨i, _, _, rfl⟩ := step_fork stepped
      exact .inl (allocproc_cpus stackOk)
  | forkCopy c copyOk =>
      obtain ⟨i, j, _, _, rfl⟩ := step_forkCopy stepped
      exact .inl (forkCopy_cpus i j copyOk)
  | exit c =>
      obtain ⟨i, procs, _, _, _, rfl⟩ := step_exit stepped
      exact .inr (.inl ⟨c, rfl⟩)
  | wait c =>
      obtain ⟨i, _, _, outcome⟩ := step_wait stepped
      rcases outcome with ⟨j, _, rfl⟩ | ⟨_, rfl⟩ | ⟨_, rfl⟩
      · exact .inl rfl
      · exact .inl rfl
      · exact .inr (.inl ⟨c, rfl⟩)
  | sleep c chan =>
      obtain ⟨i, _, _, rfl⟩ := step_sleep stepped
      exact .inr (.inl ⟨c, rfl⟩)
  | yield c =>
      obtain ⟨i, _, rfl⟩ := step_yield stepped
      exact .inr (.inl ⟨c, rfl⟩)
  | wakeup chan =>
      cases stepped
      exact .inl rfl
  | kill pid =>
      cases stepped
      exact .inl (kill_frame pid).1
  | scheduler c =>
      obtain ⟨_, rfl⟩ := step_scheduler stepped
      rcases scheduler_cases (k := k) c with ⟨j, runnable, scheduled⟩ | scheduled
      · exact .inr (.inr ⟨c, j, runnable, by rw [scheduled]⟩)
      · exact .inl (by rw [scheduled])

/-- A process a step makes current on a CPU was RUNNABLE. -/
theorem runnable_of_step {a : Action} (stepped : k.step a = some k') {c : Fin nCpu} {j : Fin nProc}
    (current : k'.cpus c = some j) (before : k.cpus c ≠ some j) : (k.proc j).state = .runnable := by
  rcases step_cpus stepped with same | ⟨c', released⟩ | ⟨c', j', runnable, dispatched⟩
  · rw [same] at current
    exact absurd current before
  · rw [released] at current
    by_cases here : c = c'
    · rw [here, Function.update_self] at current
      cases current
    · rw [Function.update_of_ne here] at current
      exact absurd current before
  · rw [dispatched] at current
    by_cases here : c = c'
    · rw [here, Function.update_self] at current
      cases current
      exact runnable
    · rw [Function.update_of_ne here] at current
      exact absurd current before

/-- The zombie `wait` reaps had a kernel stack and a page directory that had
not been freed, and reaping frees each of them. -/
theorem reap_frees (inv : MemInv k) {j : Fin nProc} (zombie : (k.proc j).state = .zombie) :
    ∃ a b, (k.proc j).kstack = some a ∧ (k.proc j).pgdir = some b ∧
      some a ∉ k.freedStacks ∧ some b ∉ k.freedDirs ∧
      (k.reap j).freedStacks = k.freedStacks ++ [some a] ∧
      (k.reap j).freedDirs = k.freedDirs ++ [some b] := by
  have used : (k.proc j).state ≠ .unused := by
    rw [zombie]
    decide
  have started : (k.proc j).state.Started := by
    rw [zombie]
    exact ProcState.started_zombie
  obtain ⟨a, stack, _, stackFresh⟩ := inv.kstacks.live j used
  obtain ⟨b, dir, _, dirFresh⟩ := inv.pgdirs.live j started
  refine ⟨a, b, stack, dir, stackFresh, dirFresh, ?_, ?_⟩
  · show k.freedStacks ++ [(k.proc j).kstack] = _
    rw [stack]
  · show k.freedDirs ++ [(k.proc j).pgdir] = _
    rw [dir]

theorem process_table_lifecycle :
    ∀ k : Kernel, Reachable k →
      (∀ j, (k.proc j).state.Started → k.initproc ≠ some j →
        ∃ z, (k.proc j).parent = some z ∧ (k.proc z).state ≠ .unused) ∧
      (∀ c k', k.step (.exit c) = some k' →
        ∃ i, k.cpus c = some i ∧ (k'.proc i).state = .zombie ∧
          ∀ j, (k'.proc j).parent ≠ some i ∧
            ((k.proc j).parent = some i → (k'.proc j).parent = k.initproc)) ∧
      (∀ i j, k.waitScan i = .reaped j →
        (k.proc j).parent = some i ∧ (k.proc j).state = .zombie ∧
        ((k.reap j).proc j).state = .unused ∧
        ∃ a b, (k.proc j).kstack = some a ∧ (k.proc j).pgdir = some b ∧
          some a ∉ k.freedStacks ∧ some b ∉ k.freedDirs ∧
          (k.reap j).freedStacks = k.freedStacks ++ [some a] ∧
          (k.reap j).freedDirs = k.freedDirs ++ [some b]) ∧
      (∀ i, k.waitScan i = .failed → (∀ j, (k.proc j).parent ≠ some i) ∨ (k.proc i).killed = true) ∧
      k.freedStacks.Nodup ∧ k.freedDirs.Nodup ∧
      (∀ c c' j, k.cpus c = some j → k.cpus c' = some j → c = c') ∧
      (∀ a k' c j, k.step a = some k' → k'.cpus c = some j → k.cpus c ≠ some j →
        (k.proc j).state = .runnable) ∧
      (∀ j j', (k.proc j).state ≠ .unused → (k.proc j').state ≠ .unused →
        (k.proc j).pid = (k.proc j').pid → j = j') := by
  intro k reachable
  have inv := inv_reachable reachable
  refine ⟨fun j started notInit => ?_, fun c k' stepped => ?_, fun i j scan => ?_,
    fun i scan => waitScan_failed scan, inv.mem.kstacks.nodup, inv.mem.pgdirs.nodup,
    inv.cpu.exclusive, fun a k' c j stepped current before => runnable_of_step stepped current before,
    fun j j' used used' same => inv.pids.distinct used used' same⟩
  · have orphanFree := inv.family.has_parent j started notInit
    obtain ⟨z, parent⟩ := Option.ne_none_iff_exists'.mp orphanFree
    exact ⟨z, parent, (inv.family.parent_alive j z parent).ne_unused⟩
  · obtain ⟨i, procs, current, _, exited, rfl⟩ := step_exit stepped
    have notInit := (exit_spec exited).1
    refine ⟨i, current, exit_zombie exited, fun j => ?_⟩
    show (procs j).parent ≠ some i ∧ ((k.proc j).parent = some i → (procs j).parent = k.initproc)
    rw [exit_parent exited j]
    split_ifs with child
    · exact ⟨notInit, fun _ => rfl⟩
    · exact ⟨child, fun found => absurd found child⟩
  · obtain ⟨child, zombie⟩ := waitScan_reaped scan
    refine ⟨child, zombie, ?_, reap_frees inv.mem zombie⟩
    show (Function.update k.proc j _ j).state = .unused
    rw [Function.update_self]

/-- The table once userinit has made the first process. -/
def firstKernel : Kernel := boot.userinit.getD boot

/-- userinit succeeds at boot. -/
theorem userinit_boot : boot.userinit = some firstKernel := by
  have some : boot.userinit.isSome = true := by decide
  unfold firstKernel
  cases found : boot.userinit with
  | none =>
      rw [found] at some
      cases some
  | some k => rfl

/-- The entries of initproc and of its first child, and the CPUs they run on. -/
def entry₀ : Fin nProc := ⟨0, by decide⟩

def entry₁ : Fin nProc := ⟨1, by decide⟩

def cpu₀ : Fin nCpu := ⟨0, by decide⟩

def cpu₁ : Fin nCpu := ⟨1, by decide⟩

/-- initproc is scheduled on CPU 0 and forks; its child runs on CPU 1 and
exits. -/
def forkExitRun : List Action :=
  [.scheduler cpu₀, .fork cpu₀ true, .forkCopy cpu₀ true, .scheduler cpu₁, .exit cpu₁]

/-- The lifecycle at the state `forkExitRun` leaves: the child is a zombie
whose parent, initproc, is in use, and the pass of wait's loop that
initproc runs next reaps it, freeing the child's kernel stack and page
directory, which were not freed before, exactly once. -/
theorem process_table_lifecycle_after_exit :
    ∃ k, Machine.run step firstKernel forkExitRun = some k ∧ k.waitScan entry₀ = .reaped entry₁ ∧
      (k.proc entry₁).parent = some entry₀ ∧ (k.proc entry₀).state ≠ .unused ∧
      ((k.reap entry₁).proc entry₁).state = .unused ∧
      ∃ a b, (k.proc entry₁).kstack = some a ∧ (k.proc entry₁).pgdir = some b ∧
        some a ∉ k.freedStacks ∧ some b ∉ k.freedDirs ∧
        (k.reap entry₁).freedStacks = k.freedStacks ++ [some a] ∧
        (k.reap entry₁).freedDirs = k.freedDirs ++ [some b] := by
  obtain ⟨k, ran⟩ : ∃ k, Machine.run step firstKernel forkExitRun = some k :=
    Option.isSome_iff_exists.mp (by decide +kernel)
  have seen : (Machine.run step firstKernel forkExitRun).map (fun k => k.waitScan entry₀) =
      some (.reaped entry₁) := by
    decide +kernel
  rw [ran, Option.map_some, Option.some.injEq] at seen
  have reachable : Reachable k := Machine.Reachable.run (Machine.Reachable.initial userinit_boot) ran
  obtain ⟨family, -, reaped, -⟩ := process_table_lifecycle k reachable
  obtain ⟨parent, zombie, unused, freed⟩ := reaped entry₀ entry₁ seen
  obtain ⟨z, parentOf, alive⟩ := family entry₁ (by rw [zombie]; trivial) (by
    intro isInit
    have initproc : (Machine.run step firstKernel forkExitRun).map (fun k => k.initproc) = some (some entry₀) := by
      decide +kernel
    rw [ran, Option.map_some, Option.some.injEq, isInit] at initproc
    cases initproc)
  rw [parent, Option.some.injEq] at parentOf
  rw [← parentOf] at alive
  exact ⟨k, ran, seen, parent, alive, unused, freed⟩

end Kernel
end Xv6
