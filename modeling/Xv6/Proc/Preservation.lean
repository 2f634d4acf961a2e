import Xv6.Proc.Invariant

/-!
# Every critical section keeps the invariant

One lemma per critical section, then the step lemma by cases on the action
and the run lemma by induction over the run.  `wakeup`, `kill`, `sleep`,
`yield` and the scheduler only restate live processes; allocation, the end
of `fork`, `exit` and the reaping in `wait` each change one entry's life and
have their own argument.
-/

namespace Xv6
namespace Kernel

variable {k k' : Kernel}

/-! ## Restating steps -/

theorem inv_wakeup (chan : Chan) (inv : Inv k) : Inv { k with proc := wakeup1 chan k.proc } := by
  have restates : k.Restates { k with proc := wakeup1 chan k.proc } :=
    ⟨fun j => .of_woken (wakeup1_woken chan k.proc j) (wakeup1_parent chan k.proc j),
      rfl, rfl, rfl, rfl, rfl, rfl, rfl⟩
  exact restates.inv inv (inv.cpu.frame rfl fun j => (wakeup1_woken chan k.proc j).running_iff)

theorem inv_kill (pid : Nat) (inv : Inv k) : Inv (k.kill pid) := by
  obtain ⟨cpus, nextpid, initproc, forking, nextStack, nextDir, freedStacks, freedDirs⟩ :=
    kill_frame (k := k) pid
  have restates : k.Restates (k.kill pid) :=
    ⟨fun j => .of_woken (kill_woken pid j).1 (kill_woken pid j).2, nextpid, initproc, forking,
      nextStack, nextDir, freedStacks, freedDirs⟩
  exact restates.inv inv (inv.cpu.frame cpus fun j => (kill_woken pid j).1.running_iff)

/-- The current process of `c` changes to a non-running live state and `c`
goes back to its scheduler: `sleep` and `yield`. -/
theorem inv_release {c : Fin nCpu} {i : Fin nProc} {st : ProcState} (inv : Inv k)
    (current : k.cpus c = some i) (alive : st.Alive) (stopped : st ≠ .running) (q : Proc)
    (entry : q = { k.proc i with state := st } ∨ ∃ chan, q = { k.proc i with chan := chan, state := st }) :
    Inv { k with proc := Function.update k.proc i q, cpus := Function.update k.cpus c none } := by
  have fields : q.state = st ∧ q.pid = (k.proc i).pid ∧ q.parent = (k.proc i).parent ∧
      q.kstack = (k.proc i).kstack ∧ q.pgdir = (k.proc i).pgdir := by
    rcases entry with rfl | ⟨chan, rfl⟩ <;> exact ⟨rfl, rfl, rfl, rfl, rfl⟩
  obtain ⟨state, pid, parent, kstack, pgdir⟩ := fields
  have restates : k.Restates
      { k with proc := Function.update k.proc i q, cpus := Function.update k.cpus c none } :=
    ⟨Proc.restate_update (.of_alive (inv.cpu.alive current) (state ▸ alive) pid parent kstack pgdir),
      rfl, rfl, rfl, rfl, rfl, rfl, rfl⟩
  refine restates.inv inv (inv.cpu.release current rfl ?_ fun j other => ?_)
  · show (Function.update k.proc i q i).state ≠ .running
    rw [Function.update_self, state]
    exact stopped
  · show (Function.update k.proc i q j).state = .running ↔ (k.proc j).state = .running
    rw [Function.update_of_ne other]

theorem inv_sleep {c : Fin nCpu} {i : Fin nProc} (chan : Chan) (inv : Inv k)
    (current : k.cpus c = some i) : Inv (k.sleep c i chan) :=
  inv_release inv current ProcState.alive_sleeping (by decide) _ (.inr ⟨chan, rfl⟩)

theorem inv_yield {c : Fin nCpu} {i : Fin nProc} (inv : Inv k) (current : k.cpus c = some i) :
    Inv (k.yield c i) :=
  inv_release inv current ProcState.alive_runnable (by decide) _ (.inl rfl)

theorem inv_scheduler {c : Fin nCpu} (inv : Inv k) (free : k.cpus c = none) :
    Inv (k.scheduler c) := by
  rcases scheduler_cases (k := k) c with ⟨j, runnable, scheduled⟩ | scheduled
  · rw [scheduled]
    have restates : k.Restates
        { k with
          proc := Function.update k.proc j { k.proc j with state := .running }
          cpus := Function.update k.cpus c (some j)
          schedPos := Function.update k.schedPos c (j.val + 1) } :=
      ⟨Proc.restate_update (.of_alive (by rw [runnable]; exact ProcState.alive_runnable)
        ProcState.alive_running rfl rfl rfl rfl), rfl, rfl, rfl, rfl, rfl, rfl, rfl⟩
    refine restates.inv inv (inv.cpu.dispatch free runnable rfl ?_ fun j' other => ?_)
    · show (Function.update k.proc j _ j).state = .running
      rw [Function.update_self]
    · show (Function.update k.proc j _ j').state = .running ↔ (k.proc j').state = .running
      rw [Function.update_of_ne other]
  · rw [scheduled]
    have restates : k.Restates { k with schedPos := Function.update k.schedPos c 0 } :=
      ⟨fun j => .refl _, rfl, rfl, rfl, rfl, rfl, rfl, rfl⟩
    exact restates.inv inv (inv.cpu.frame rfl fun _ => Iff.rfl)

/-! ## Steps that change one entry -/

/-- allocproc inside `fork` with a kernel stack. -/
theorem inv_claim {c : Fin nCpu} {i j : Fin nProc} (inv : Inv k) (current : k.cpus c = some i)
    (unused : (k.proc j).state = .unused) :
    Inv { k with
      proc := Function.update k.proc j
        { k.proc j with state := .embryo, pid := k.nextpid, kstack := some k.nextStack }
      nextpid := k.nextpid + 1
      nextStack := k.nextStack + 1
      forking := Function.update k.forking i (some j) } := by
  have dead : ¬ (k.proc j).state.Alive := by
    rw [unused]
    exact ProcState.not_alive_unused
  refine ⟨inv.pids.claim rfl rfl unused rfl,
    inv.family.update rfl rfl (inv.family.not_init dead) (fun alive => absurd alive dead)
      (inv.family.parent_alive j) (fun started => absurd started ProcState.not_started_embryo),
    inv.cpu.update rfl rfl (by rw [unused]; decide) (by dsimp only; decide),
    inv.forks.claim rfl rfl unused rfl (inv.cpu.alive current), ⟨?_, ?_⟩⟩
  · exact inv.mem.kstacks.update_alloc (fun p : Proc => p.state ≠ .unused) (fun p => p.kstack)
      (not_not.mpr unused) fun _ => rfl
  · exact inv.mem.pgdirs.update_keep (fun p : Proc => p.state.Started) (fun p => p.pgdir)
      fun started => absurd started ProcState.not_started_embryo

/-- allocproc inside `fork` when `kalloc` fails: the entry stays UNUSED, its
pid spent. -/
theorem inv_unclaim {i j : Fin nProc} (inv : Inv k) (idle : k.forking i = none)
    (unused : (k.proc j).state = .unused) :
    Inv { k with
      proc := Function.update k.proc j
        { k.proc j with state := .unused, pid := k.nextpid, kstack := none }
      nextpid := k.nextpid + 1
      forking := Function.update k.forking i none } := by
  have dead : ¬ (k.proc j).state.Alive := by
    rw [unused]
    exact ProcState.not_alive_unused
  have forking : Function.update k.forking i none = k.forking := by
    rw [← idle, Function.update_eq_self]
  refine ⟨inv.pids.claim rfl rfl unused rfl,
    inv.family.update rfl rfl (inv.family.not_init dead) (fun alive => absurd alive dead)
      (inv.family.parent_alive j) (fun started => absurd started ProcState.not_started_unused),
    inv.cpu.update rfl rfl (by rw [unused]; decide) (by dsimp only; decide),
    inv.forks.update rfl forking (by rw [unused]; decide) dead, ⟨?_, ?_⟩⟩
  · exact inv.mem.kstacks.update_keep (fun p : Proc => p.state ≠ .unused) (fun p => p.kstack)
      fun used => absurd rfl used
  · exact inv.mem.pgdirs.update_keep (fun p : Proc => p.state.Started) (fun p => p.pgdir)
      fun started => absurd started ProcState.not_started_unused

theorem inv_fork {c : Fin nCpu} {i : Fin nProc} (stackOk : Bool) (inv : Inv k)
    (current : k.cpus c = some i) (idle : k.forking i = none) :
    Inv { (k.allocproc stackOk).1 with
      forking := Function.update (k.allocproc stackOk).1.forking i (k.allocproc stackOk).2 } := by
  rcases allocproc_cases (k := k) stackOk with full | ⟨j, unused, _, alloc⟩ | ⟨j, unused, _, alloc⟩
  · rw [full]
    have forking : Function.update k.forking i none = k.forking := by
      rw [← idle, Function.update_eq_self]
    show Inv { k with forking := Function.update k.forking i none }
    rw [forking]
    exact inv
  · rw [alloc]
    exact inv_claim inv current unused
  · rw [alloc]
    exact inv_unclaim inv idle unused

/-- The end of `fork`, for the child `j` of `i`, whether `copyuvm` succeeds
or not. -/
theorem inv_forkCopy {i j : Fin nProc} (copyOk : Bool) (inv : Inv k)
    (child : k.forking i = some j) :
    Inv { k.forkCopy i j copyOk with forking := Function.update k.forking i none } := by
  have embryo := inv.forks.child_embryo i j child
  have dead : ¬ (k.proc j).state.Alive := by
    rw [embryo]
    exact ProcState.not_alive_embryo
  have used : (k.proc j).state ≠ .unused := by
    rw [embryo]
    decide
  have notRunning : (k.proc j).state ≠ .running := by
    rw [embryo]
    decide
  cases copyOk with
  | true =>
      refine ⟨inv.pids.update rfl rfl fun _ => ⟨used, rfl⟩,
        inv.family.update rfl rfl (inv.family.not_init dead) (fun alive => absurd alive dead)
          (fun z parent => ?_) (fun _ => Option.some_ne_none i),
        inv.cpu.update rfl rfl notRunning (by dsimp only; decide), inv.forks.finish rfl rfl child, ⟨?_, ?_⟩⟩
      · cases parent
        exact inv.forks.forker_alive i j child
      · exact inv.mem.kstacks.update_keep (fun p : Proc => p.state ≠ .unused) (fun p => p.kstack)
          fun _ => ⟨used, rfl⟩
      · refine inv.mem.pgdirs.update_alloc (fun p : Proc => p.state.Started) (fun p => p.pgdir)
          ?_ fun _ => rfl
        rw [embryo]
        exact ProcState.not_started_embryo
  | false =>
      refine ⟨inv.pids.update rfl rfl fun unused => absurd rfl unused,
        inv.family.update rfl rfl (inv.family.not_init dead) (fun alive => absurd alive dead)
          (inv.family.parent_alive j) (fun started => absurd started ProcState.not_started_unused),
        inv.cpu.update rfl rfl notRunning (by dsimp only; decide), inv.forks.finish rfl rfl child, ⟨?_, ?_⟩⟩
      · exact inv.mem.kstacks.update_free (fun p : Proc => p.state ≠ .unused) (fun p => p.kstack)
          used fun unused => unused rfl
      · exact inv.mem.pgdirs.update_keep (fun p : Proc => p.state.Started) (fun p => p.pgdir)
          fun started => absurd started ProcState.not_started_unused

/-- wait reaps the ZOMBIE child it found. -/
theorem inv_reap {i j : Fin nProc} (inv : Inv k) (scan : k.waitScan i = .reaped j) :
    Inv (k.reap j) := by
  have zombie := (waitScan_reaped scan).2
  have dead : ¬ (k.proc j).state.Alive := by
    rw [zombie]
    exact ProcState.not_alive_zombie
  refine ⟨inv.pids.update rfl rfl fun unused => absurd rfl unused,
    inv.family.update rfl rfl (inv.family.not_init dead) (fun alive => absurd alive dead)
      (fun z parent => by cases parent) (fun started => absurd started ProcState.not_started_unused),
    inv.cpu.update rfl rfl (by rw [zombie]; decide) (by dsimp only; decide),
    inv.forks.update rfl rfl (by rw [zombie]; decide) dead, ⟨?_, ?_⟩⟩
  · exact inv.mem.kstacks.update_free (fun p : Proc => p.state ≠ .unused) (fun p => p.kstack)
      (by rw [zombie]; decide) fun unused => unused rfl
  · refine inv.mem.pgdirs.update_free (fun p : Proc => p.state.Started) (fun p => p.pgdir) ?_
      ProcState.not_started_unused
    rw [zombie]
    exact ProcState.started_zombie

/-! ## exit -/

/-- exit for process `i` on CPU `c`: every entry but `i` is only woken or
handed to `initproc`, and `i`, no longer running, becomes a ZOMBIE. -/
theorem inv_exit {c : Fin nCpu} {i : Fin nProc} {procs : Fin nProc → Proc} (inv : Inv k)
    (current : k.cpus c = some i) (idle : k.forking i = none) (exited : k.exit i = some procs) :
    Inv { k with proc := procs, cpus := Function.update k.cpus c none } := by
  obtain ⟨notInit, adopted, moved, rfl⟩ := exit_spec exited
  have running := inv.cpu.current_running c i current
  have keeps : ∀ j, (k.proc j).Keeps (Function.update adopted i { adopted i with state := .zombie } j) := by
    intro j
    by_cases same : j = i
    · subst same
      rw [Function.update_self]
      have woken := (moved j).1
      refine ⟨woken.pid, woken.kstack, woken.pgdir, ?_, ?_⟩ <;> rw [running] <;> dsimp only <;> decide
    · rw [Function.update_of_ne same]
      exact (moved j).1.keeps
  have alive : ∀ z, z ≠ i → (k.proc z).state.Alive →
      (Function.update adopted i { adopted i with state := .zombie } z).state.Alive := by
    intro z other alive
    rw [Function.update_of_ne other]
    exact (moved z).1.alive_iff.mpr alive
  have parentOf : ∀ j, (Function.update adopted i { adopted i with state := .zombie } j).parent =
      if (k.proc j).parent = some i then k.initproc else (k.proc j).parent := by
    intro j
    by_cases same : j = i
    · subst same
      rw [Function.update_self]
      exact (moved j).2
    · rw [Function.update_of_ne same]
      exact (moved j).2
  obtain ⟨r, init, rAlive, orphan⟩ := inv.family.init_alive
  have rNotI : r ≠ i := by
    rintro rfl
    exact notInit init
  refine ⟨inv.pids.keep keeps rfl, ⟨fun j z parent => ?_, fun j started notInit' => ?_, ?_⟩,
    inv.cpu.release current rfl ?_ fun j other => ?_, ⟨fun i' j' child => ?_, fun i' j' child => ?_,
      inv.forks.unique⟩, inv.mem.keep keeps rfl rfl rfl rfl⟩
  · rw [parentOf] at parent
    split_ifs at parent with child
    · rw [init] at parent
      cases parent
      exact alive r rNotI rAlive
    · have zNotI : z ≠ i := by
        rintro rfl
        exact child parent
      exact alive z zNotI (inv.family.parent_alive j z parent)
  · rw [parentOf]
    split_ifs with child
    · rw [init]
      exact Option.some_ne_none r
    · exact inv.family.has_parent j ((keeps j).started.mp started) notInit'
  · refine ⟨r, init, alive r rNotI rAlive, ?_⟩
    rw [parentOf, orphan, if_neg (Option.some_ne_none i).symm]
  · show (Function.update adopted i _ i).state ≠ .running
    rw [Function.update_self]
    dsimp only
    decide
  · show (Function.update adopted i _ j).state = .running ↔ (k.proc j).state = .running
    rw [Function.update_of_ne other]
    exact (moved j).1.running_iff
  · exact (keeps j').embryo_iff.mpr (inv.forks.child_embryo i' j' child)
  · have other : i' ≠ i := by
      rintro rfl
      rw [idle] at child
      cases child
    exact alive i' other (inv.forks.forker_alive i' j' child)

/-! ## Runs -/

/-- The kernel before `userinit` has no process, so its ledgers are empty. -/
theorem pidInv_boot : PidInv boot :=
  ⟨fun _ used => absurd rfl used, Nat.one_pos, .empty fun _ used => used rfl⟩

theorem cpuInv_boot : CpuInv boot := by
  refine ⟨fun c j current => ?_, fun j running => ?_, fun c c' j current _ => ?_⟩
  · cases current
  · cases running
  · cases current

theorem forkInv_boot : ForkInv boot := by
  refine ⟨fun i j child => ?_, fun i j child => ?_, fun i i' j child _ => ?_⟩ <;> cases child

theorem memInv_boot : MemInv boot :=
  ⟨.empty fun _ used => used rfl, .empty fun _ started => ProcState.not_started_unused started⟩

/-- The first process is `initproc`, live and without a parent, and the
only used entry. -/
theorem inv_userinit (init : boot.userinit = some k) : Inv k := by
  obtain ⟨p, unused, rfl⟩ := userinit_spec init
  have dead : ¬ (boot.proc p).state.Alive := ProcState.not_alive_unused
  have others : ∀ j, j ≠ p → (Function.update boot.proc p
      { boot.proc p with
        state := .runnable, pid := boot.nextpid, kstack := some boot.nextStack,
        pgdir := some boot.nextDir } j) = Proc.zero :=
    fun j other => Function.update_of_ne other _ _
  refine ⟨pidInv_boot.claim rfl rfl unused rfl, ⟨fun j z parent => ?_, fun j started notInit => ?_,
    ⟨p, rfl, ?_, ?_⟩⟩, cpuInv_boot.update rfl rfl (by rw [unused]; decide) (by dsimp only; decide),
    forkInv_boot.update rfl rfl (by rw [unused]; decide) dead, ⟨?_, ?_⟩⟩
  · dsimp only at parent
    by_cases same : j = p
    · subst same
      rw [Function.update_self] at parent
      cases parent
    · rw [others j same] at parent
      cases parent
  · have same : j = p := by
      by_contra other
      dsimp only at started
      rw [others j other] at started
      exact ProcState.not_started_unused started
    exact absurd (congrArg some same).symm notInit
  · show (Function.update boot.proc p _ p).state.Alive
    rw [Function.update_self]
    exact ProcState.alive_runnable
  · show (Function.update boot.proc p _ p).parent = none
    rw [Function.update_self]
    rfl
  · exact memInv_boot.kstacks.update_alloc (fun p : Proc => p.state ≠ .unused) (fun p => p.kstack)
      (not_not.mpr unused) fun _ => rfl
  · exact memInv_boot.pgdirs.update_alloc (fun p : Proc => p.state.Started) (fun p => p.pgdir)
      ProcState.not_started_unused fun _ => rfl

theorem inv_step {a : Action} (inv : Inv k) (stepped : k.step a = some k') : Inv k' := by
  cases a with
  | fork c stackOk =>
      obtain ⟨i, current, idle, rfl⟩ := step_fork stepped
      exact inv_fork stackOk inv current idle
  | forkCopy c copyOk =>
      obtain ⟨i, j, _, child, rfl⟩ := step_forkCopy stepped
      exact inv_forkCopy copyOk inv child
  | exit c =>
      obtain ⟨i, procs, current, idle, exited, rfl⟩ := step_exit stepped
      exact inv_exit inv current idle exited
  | wait c =>
      obtain ⟨i, current, _, outcome⟩ := step_wait stepped
      rcases outcome with ⟨j, scan, rfl⟩ | ⟨_, rfl⟩ | ⟨_, rfl⟩
      · exact inv_reap inv scan
      · exact inv
      · exact inv_sleep _ inv current
  | sleep c chan =>
      obtain ⟨i, current, _, rfl⟩ := step_sleep stepped
      exact inv_sleep chan inv current
  | yield c =>
      obtain ⟨i, current, rfl⟩ := step_yield stepped
      exact inv_yield inv current
  | wakeup chan =>
      cases stepped
      exact inv_wakeup chan inv
  | kill pid =>
      cases stepped
      exact inv_kill pid inv
  | scheduler c =>
      obtain ⟨free, rfl⟩ := step_scheduler stepped
      exact inv_scheduler inv free

theorem inv_reachable (reachable : Reachable k) : Inv k :=
  Machine.Reachable.induction (fun _ init => inv_userinit init)
    (fun _ _ _ _ inv stepped => inv_step inv stepped) reachable

end Kernel
end Xv6
