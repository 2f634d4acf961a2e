import Xv6.Proc.System
import Xv6.Proc.Lemmas
import Xv6.Lib.Ledger

/-!
# The process-table invariant

Five groups of facts hold in every reachable state.  Pids of used entries
are distinct, positive and below `nextpid`.  Every entry's parent is a live
process, every started process but `initproc` has one, and `initproc` is
live and has none.  The CPUs' current processes are exactly the RUNNING
ones, each on one CPU.  A process in the middle of `fork` is live and is the
only one setting up its EMBRYO child.  Kernel stacks of used entries and page
directories of started ones are distinct live allocations, and the free
lists name each allocation at most once and never a null pointer.

Steps that only move live processes between SLEEPING, RUNNABLE and RUNNING
are handled once, by `Restates`; the others have a lemma each.
-/

namespace Xv6

/-- `q` is `p` with at most its state, `killed` and `chan` changed, and a
live process staying live. -/
structure Proc.Restate (p q : Proc) : Prop where
  pid : q.pid = p.pid
  parent : q.parent = p.parent
  kstack : q.kstack = p.kstack
  pgdir : q.pgdir = p.pgdir
  state : q.state = p.state ∨ p.state.Alive ∧ q.state.Alive

namespace Proc.Restate

variable {p q : Proc}

theorem refl (p : Proc) : p.Restate p := ⟨rfl, rfl, rfl, rfl, .inl rfl⟩

theorem of_woken (woken : p.Woken q) (parent : q.parent = p.parent) : p.Restate q := by
  refine ⟨woken.pid, parent, woken.kstack, woken.pgdir, ?_⟩
  rcases woken.state with same | ⟨sleeping, runnable⟩
  · exact .inl same
  · rw [sleeping, runnable]
    exact .inr ⟨ProcState.alive_sleeping, ProcState.alive_runnable⟩

theorem of_alive (alive : p.state.Alive) (alive' : q.state.Alive) (pid : q.pid = p.pid)
    (parent : q.parent = p.parent) (kstack : q.kstack = p.kstack) (pgdir : q.pgdir = p.pgdir) :
    p.Restate q :=
  ⟨pid, parent, kstack, pgdir, .inr ⟨alive, alive'⟩⟩

theorem state_iff (restate : p.Restate q) {P : ProcState → Prop}
    (stable : ∀ a b : ProcState, a.Alive → b.Alive → (P a ↔ P b)) : P q.state ↔ P p.state := by
  rcases restate.state with same | ⟨alive, alive'⟩
  · rw [same]
  · exact stable _ _ alive' alive

theorem unused_iff (restate : p.Restate q) : q.state = .unused ↔ p.state = .unused :=
  restate.state_iff fun _ _ alive alive' =>
    ⟨fun unused => absurd unused alive.ne_unused, fun unused => absurd unused alive'.ne_unused⟩

theorem embryo_iff (restate : p.Restate q) : q.state = .embryo ↔ p.state = .embryo :=
  restate.state_iff fun _ _ alive alive' =>
    ⟨fun embryo => absurd embryo alive.started.2, fun embryo => absurd embryo alive'.started.2⟩

theorem alive_iff (restate : p.Restate q) : q.state.Alive ↔ p.state.Alive :=
  restate.state_iff fun _ _ alive alive' => iff_of_true alive alive'

theorem started_iff (restate : p.Restate q) : q.state.Started ↔ p.state.Started :=
  restate.state_iff fun _ _ alive alive' => iff_of_true alive.started alive'.started

end Proc.Restate

theorem Proc.restate_update {procs : Fin nProc → Proc} {i : Fin nProc} {q : Proc}
    (restate : (procs i).Restate q) (j : Fin nProc) :
    (procs j).Restate (Function.update procs i q j) := by
  by_cases same : j = i
  · subst same
    rw [Function.update_self]
    exact restate
  · rw [Function.update_of_ne same]
    exact .refl _

/-- `q` is `p` with the same pid and pages, used and started exactly when
`p` is: what the pid and page ledgers read of an entry. -/
structure Proc.Keeps (p q : Proc) : Prop where
  pid : q.pid = p.pid
  kstack : q.kstack = p.kstack
  pgdir : q.pgdir = p.pgdir
  unused : q.state = .unused ↔ p.state = .unused
  started : q.state.Started ↔ p.state.Started

theorem Proc.Restate.keeps {p q : Proc} (restate : p.Restate q) : p.Keeps q :=
  ⟨restate.pid, restate.kstack, restate.pgdir, restate.unused_iff, restate.started_iff⟩

theorem Proc.Keeps.embryo_iff {p q : Proc} (keeps : p.Keeps q) :
    q.state = .embryo ↔ p.state = .embryo := by
  have embryo : ∀ st : ProcState, st = .embryo ↔ ¬ st = .unused ∧ ¬ st.Started := by
    intro st
    cases st <;> decide
  rw [embryo, embryo, keeps.unused, keeps.started]

theorem Proc.Woken.keeps {p q : Proc} (woken : p.Woken q) : p.Keeps q := by
  refine ⟨woken.pid, woken.kstack, woken.pgdir, ?_, ?_⟩
  all_goals
    rcases woken.state with same | ⟨sleeping, runnable⟩
    · rw [same]
    · rw [sleeping, runnable]
      decide

namespace Kernel

/-- Used entries carry distinct positive pids below `nextpid`. -/
structure PidInv (k : Kernel) : Prop where
  positive : ∀ j, (k.proc j).state ≠ .unused → 0 < (k.proc j).pid
  nextpid_pos : 0 < k.nextpid
  ledger : Ledger.Inv (fun j => (k.proc j).state ≠ .unused) (fun j => some (k.proc j).pid)
    k.nextpid []

/-- Parents are live, started processes other than `initproc` have one, and
`initproc` is live and has none. -/
structure FamilyInv (k : Kernel) : Prop where
  parent_alive : ∀ j z, (k.proc j).parent = some z → (k.proc z).state.Alive
  has_parent : ∀ j, (k.proc j).state.Started → k.initproc ≠ some j → (k.proc j).parent ≠ none
  init_alive : ∃ r, k.initproc = some r ∧ (k.proc r).state.Alive ∧ (k.proc r).parent = none

/-- The current processes of the CPUs are the RUNNING processes, each the
current process of one CPU. -/
structure CpuInv (k : Kernel) : Prop where
  current_running : ∀ c j, k.cpus c = some j → (k.proc j).state = .running
  running_current : ∀ j, (k.proc j).state = .running → ∃ c, k.cpus c = some j
  exclusive : ∀ c c' j, k.cpus c = some j → k.cpus c' = some j → c = c'

/-- A process inside `fork` is live and alone in setting up its EMBRYO child. -/
structure ForkInv (k : Kernel) : Prop where
  child_embryo : ∀ i j, k.forking i = some j → (k.proc j).state = .embryo
  forker_alive : ∀ i j, k.forking i = some j → (k.proc i).state.Alive
  unique : ∀ i i' j, k.forking i = some j → k.forking i' = some j → i = i'

/-- Kernel stacks of used entries and page directories of started ones are
ledgers of live allocations. -/
structure MemInv (k : Kernel) : Prop where
  kstacks : Ledger.Inv (fun j => (k.proc j).state ≠ .unused) (fun j => (k.proc j).kstack)
    k.nextStack k.freedStacks
  pgdirs : Ledger.Inv (fun j => (k.proc j).state.Started) (fun j => (k.proc j).pgdir)
    k.nextDir k.freedDirs

structure Inv (k : Kernel) : Prop where
  pids : PidInv k
  family : FamilyInv k
  cpu : CpuInv k
  forks : ForkInv k
  mem : MemInv k

variable {k k' : Kernel}

theorem PidInv.distinct (inv : PidInv k) {j j' : Fin nProc} (used : (k.proc j).state ≠ .unused)
    (used' : (k.proc j').state ≠ .unused) (same : (k.proc j).pid = (k.proc j').pid) : j = j' :=
  inv.ledger.distinct j j' (k.proc j).pid used used' rfl (by rw [same])

theorem CpuInv.alive {c : Fin nCpu} {i : Fin nProc} (inv : CpuInv k) (current : k.cpus c = some i) :
    (k.proc i).state.Alive := by
  rw [inv.current_running c i current]
  exact ProcState.alive_running

/-- Every entry keeps what the pid ledger reads, and `nextpid` stays. -/
theorem PidInv.keep (inv : PidInv k) (keeps : ∀ j, (k.proc j).Keeps (k'.proc j))
    (nextpid : k'.nextpid = k.nextpid) : PidInv k' := by
  have used : ∀ j, (k'.proc j).state ≠ .unused → (k.proc j).state ≠ .unused :=
    fun j used' unused => used' ((keeps j).unused.mpr unused)
  refine ⟨fun j used' => ?_, nextpid ▸ inv.nextpid_pos, ?_⟩
  · rw [(keeps j).pid]
    exact inv.positive j (used j used')
  · rw [nextpid]
    exact inv.ledger.congr used (fun j _ => congrArg some (keeps j).pid) le_rfl

/-- Every entry keeps what the page ledgers read, and the allocation counters
and free lists stay. -/
theorem MemInv.keep (inv : MemInv k) (keeps : ∀ j, (k.proc j).Keeps (k'.proc j))
    (nextStack : k'.nextStack = k.nextStack) (nextDir : k'.nextDir = k.nextDir)
    (freedStacks : k'.freedStacks = k.freedStacks) (freedDirs : k'.freedDirs = k.freedDirs) :
    MemInv k' := by
  refine ⟨?_, ?_⟩
  · rw [nextStack, freedStacks]
    exact inv.kstacks.congr (fun j used' unused => used' ((keeps j).unused.mpr unused))
      (fun j _ => (keeps j).kstack) le_rfl
  · rw [nextDir, freedDirs]
    exact inv.pgdirs.congr (fun j started => (keeps j).started.mp started)
      (fun j _ => (keeps j).pgdir) le_rfl

/-! ## Steps that only restate live processes -/

/-- `k'` keeps every entry's pid, parent and pages and every process's
life, and all the counters. -/
structure Restates (k k' : Kernel) : Prop where
  proc : ∀ j, (k.proc j).Restate (k'.proc j)
  nextpid : k'.nextpid = k.nextpid
  initproc : k'.initproc = k.initproc
  forking : k'.forking = k.forking
  nextStack : k'.nextStack = k.nextStack
  nextDir : k'.nextDir = k.nextDir
  freedStacks : k'.freedStacks = k.freedStacks
  freedDirs : k'.freedDirs = k.freedDirs

namespace Restates

variable (restates : k.Restates k')
include restates

theorem pidInv (inv : PidInv k) : PidInv k' :=
  inv.keep (fun j => (restates.proc j).keeps) restates.nextpid

theorem familyInv (inv : FamilyInv k) : FamilyInv k' := by
  refine ⟨fun j z parent => ?_, fun j started notInit => ?_, ?_⟩
  · rw [(restates.proc j).parent] at parent
    exact (restates.proc z).alive_iff.mpr (inv.parent_alive j z parent)
  · rw [(restates.proc j).parent]
    exact inv.has_parent j ((restates.proc j).started_iff.mp started) (restates.initproc ▸ notInit)
  · obtain ⟨r, init, alive, orphan⟩ := inv.init_alive
    exact ⟨r, restates.initproc.trans init, (restates.proc r).alive_iff.mpr alive,
      (restates.proc r).parent.trans orphan⟩

theorem forkInv (inv : ForkInv k) : ForkInv k' := by
  refine ⟨fun i j forking => ?_, fun i j forking => ?_, fun i i' j forking forking' => ?_⟩
  · rw [restates.forking] at forking
    exact (restates.proc j).embryo_iff.mpr (inv.child_embryo i j forking)
  · rw [restates.forking] at forking
    exact (restates.proc i).alive_iff.mpr (inv.forker_alive i j forking)
  · rw [restates.forking] at forking forking'
    exact inv.unique i i' j forking forking'

theorem memInv (inv : MemInv k) : MemInv k' :=
  inv.keep (fun j => (restates.proc j).keeps) restates.nextStack restates.nextDir
    restates.freedStacks restates.freedDirs

/-- A restating step keeps the invariant when it keeps the CPU invariant. -/
theorem inv (inv : Inv k) (cpu : CpuInv k') : Inv k' :=
  ⟨restates.pidInv inv.pids, restates.familyInv inv.family, cpu, restates.forkInv inv.forks,
    restates.memInv inv.mem⟩

end Restates

/-! ## The CPUs -/

namespace CpuInv

/-- The CPUs and which processes are RUNNING stay as they were. -/
theorem frame (inv : CpuInv k) (cpus : k'.cpus = k.cpus)
    (running : ∀ j, (k'.proc j).state = .running ↔ (k.proc j).state = .running) : CpuInv k' := by
  refine ⟨fun c j current => ?_, fun j run => ?_, fun c c' j current current' => ?_⟩
  · rw [cpus] at current
    exact (running j).mpr (inv.current_running c j current)
  · rw [cpus]
    exact inv.running_current j ((running j).mp run)
  · rw [cpus] at current current'
    exact inv.exclusive c c' j current current'

/-- The current process of CPU `c` stops running and `c` returns to its scheduler. -/
theorem release (inv : CpuInv k) {c : Fin nCpu} {i : Fin nProc} (current : k.cpus c = some i)
    (cpus : k'.cpus = Function.update k.cpus c none) (stopped : (k'.proc i).state ≠ .running)
    (others : ∀ j, j ≠ i → ((k'.proc j).state = .running ↔ (k.proc j).state = .running)) :
    CpuInv k' := by
  have away : ∀ c' j, k'.cpus c' = some j → c' ≠ c ∧ k.cpus c' = some j := by
    intro c' j current'
    rw [cpus] at current'
    by_cases same : c' = c
    · subst same
      rw [Function.update_self] at current'
      cases current'
    · rw [Function.update_of_ne same] at current'
      exact ⟨same, current'⟩
  refine ⟨fun c' j current' => ?_, fun j run => ?_, fun c₁ c₂ j current₁ current₂ => ?_⟩
  · obtain ⟨other, old⟩ := away c' j current'
    have notI : j ≠ i := by
      rintro rfl
      exact other (inv.exclusive c' c j old current)
    exact (others j notI).mpr (inv.current_running c' j old)
  · have notI : j ≠ i := by
      rintro rfl
      exact stopped run
    obtain ⟨c', old⟩ := inv.running_current j ((others j notI).mp run)
    have other : c' ≠ c := by
      rintro rfl
      rw [current] at old
      exact notI (Option.some.inj old).symm
    refine ⟨c', ?_⟩
    rw [cpus, Function.update_of_ne other]
    exact old
  · exact inv.exclusive c₁ c₂ j (away c₁ j current₁).2 (away c₂ j current₂).2

/-- CPU `c`, free, starts the RUNNABLE process `j`. -/
theorem dispatch (inv : CpuInv k) {c : Fin nCpu} {j : Fin nProc} (free : k.cpus c = none)
    (runnable : (k.proc j).state = .runnable) (cpus : k'.cpus = Function.update k.cpus c (some j))
    (started : (k'.proc j).state = .running)
    (others : ∀ j', j' ≠ j → ((k'.proc j').state = .running ↔ (k.proc j').state = .running)) :
    CpuInv k' := by
  have notCurrent : ∀ c', k.cpus c' ≠ some j := by
    intro c' current
    rw [inv.current_running c' j current] at runnable
    cases runnable
  have located : ∀ c' j', k'.cpus c' = some j' →
      (c' = c ∧ j' = j) ∨ (c' ≠ c ∧ j' ≠ j ∧ k.cpus c' = some j') := by
    intro c' j' current'
    rw [cpus] at current'
    by_cases same : c' = c
    · subst same
      rw [Function.update_self] at current'
      exact .inl ⟨rfl, (Option.some.inj current').symm⟩
    · rw [Function.update_of_ne same] at current'
      refine .inr ⟨same, ?_, current'⟩
      rintro rfl
      exact notCurrent c' current'
  refine ⟨fun c' j' current' => ?_, fun j' run => ?_, fun c₁ c₂ j' current₁ current₂ => ?_⟩
  · rcases located c' j' current' with ⟨_, rfl⟩ | ⟨_, other, old⟩
    · exact started
    · exact (others j' other).mpr (inv.current_running c' j' old)
  · by_cases same : j' = j
    · subst same
      exact ⟨c, by rw [cpus, Function.update_self]⟩
    · obtain ⟨c', old⟩ := inv.running_current j' ((others j' same).mp run)
      have other : c' ≠ c := by
        rintro rfl
        rw [free] at old
        cases old
      exact ⟨c', by rw [cpus, Function.update_of_ne other]; exact old⟩
  · rcases located c₁ j' current₁ with ⟨first, rfl⟩ | ⟨_, other₁, old₁⟩ <;>
      rcases located c₂ j' current₂ with ⟨second, same⟩ | ⟨_, other₂, old₂⟩
    · rw [first, second]
    · exact absurd rfl other₂
    · exact absurd same other₁
    · exact inv.exclusive c₁ c₂ j' old₁ old₂

end CpuInv

/-! ## Steps that change one entry

allocproc, the end of `fork` and the reaping in `wait` rewrite one entry `j`
of a table in which it is not live, and leave the others alone. -/

section Update

variable {j : Fin nProc} {q : Proc}

theorem FamilyInv.not_init (inv : FamilyInv k) (dead : ¬ (k.proc j).state.Alive) :
    k.initproc ≠ some j := by
  intro init
  obtain ⟨r, init', alive, _⟩ := inv.init_alive
  rw [init] at init'
  cases init'
  exact dead alive

/-- A used entry afterwards was used before, with the same pid. -/
theorem PidInv.update (inv : PidInv k) (proc : k'.proc = Function.update k.proc j q)
    (nextpid : k'.nextpid = k.nextpid)
    (keep : q.state ≠ .unused → (k.proc j).state ≠ .unused ∧ q.pid = (k.proc j).pid) :
    PidInv k' := by
  refine ⟨fun j' used => ?_, nextpid ▸ inv.nextpid_pos, ?_⟩
  · rw [proc] at used ⊢
    by_cases same : j' = j
    · subst same
      rw [Function.update_self] at used ⊢
      rw [(keep used).2]
      exact inv.positive j' (keep used).1
    · rw [Function.update_of_ne same] at used ⊢
      exact inv.positive j' used
  · rw [proc, nextpid]
    exact inv.ledger.update_keep (fun p : Proc => p.state ≠ .unused) (fun p => some p.pid)
      fun used => ⟨(keep used).1, congrArg some (keep used).2⟩

/-- allocproc's claim: the UNUSED entry `j` takes the next pid, used or not. -/
theorem PidInv.claim (inv : PidInv k) (proc : k'.proc = Function.update k.proc j q)
    (nextpid : k'.nextpid = k.nextpid + 1) (unused : (k.proc j).state = .unused)
    (pid : q.pid = k.nextpid) : PidInv k' := by
  refine ⟨fun j' used => ?_, nextpid ▸ Nat.succ_pos _, ?_⟩
  · rw [proc] at used ⊢
    by_cases same : j' = j
    · subst same
      rw [Function.update_self, pid]
      exact inv.nextpid_pos
    · rw [Function.update_of_ne same] at used ⊢
      exact inv.positive j' used
  · rw [proc, nextpid]
    exact inv.ledger.update_alloc (fun p : Proc => p.state ≠ .unused) (fun p => some p.pid)
      (not_not.mpr unused) fun _ => congrArg some pid

/-- No live process dies; the entry's parent afterwards, if any, is live, and
it has one if it is started. -/
theorem FamilyInv.update (inv : FamilyInv k) (proc : k'.proc = Function.update k.proc j q)
    (initproc : k'.initproc = k.initproc) (notInit : k.initproc ≠ some j)
    (stays : (k.proc j).state.Alive → q.state.Alive)
    (parent : ∀ z, q.parent = some z → (k.proc z).state.Alive)
    (hasParent : q.state.Started → q.parent ≠ none) : FamilyInv k' := by
  have alive : ∀ z, (k.proc z).state.Alive → (k'.proc z).state.Alive := by
    intro z alive
    rw [proc]
    by_cases same : z = j
    · subst same
      rw [Function.update_self]
      exact stays alive
    · rw [Function.update_of_ne same]
      exact alive
  refine ⟨fun j' z parent' => ?_, fun j' started notInit' => ?_, ?_⟩
  · rw [proc] at parent'
    by_cases same : j' = j
    · subst same
      rw [Function.update_self] at parent'
      exact alive z (parent z parent')
    · rw [Function.update_of_ne same] at parent'
      exact alive z (inv.parent_alive j' z parent')
  · rw [proc] at started ⊢
    rw [initproc] at notInit'
    by_cases same : j' = j
    · subst same
      rw [Function.update_self] at started ⊢
      exact hasParent started
    · rw [Function.update_of_ne same] at started ⊢
      exact inv.has_parent j' started notInit'
  · obtain ⟨r, init, rAlive, orphan⟩ := inv.init_alive
    have other : r ≠ j := by
      rintro rfl
      exact notInit init
    refine ⟨r, initproc.trans init, alive r rAlive, ?_⟩
    rw [proc, Function.update_of_ne other]
    exact orphan

/-- The entry runs neither before nor after, and the CPUs stay. -/
theorem CpuInv.update (inv : CpuInv k) (proc : k'.proc = Function.update k.proc j q)
    (cpus : k'.cpus = k.cpus) (before : (k.proc j).state ≠ .running)
    (after : q.state ≠ .running) : CpuInv k' := by
  refine inv.frame cpus fun j' => ?_
  rw [proc]
  by_cases same : j' = j
  · subst same
    rw [Function.update_self]
    exact iff_of_false after before
  · rw [Function.update_of_ne same]

/-- An entry that is neither an EMBRYO nor live is no one's child in `fork`
and no one forking. -/
theorem ForkInv.update (inv : ForkInv k) (proc : k'.proc = Function.update k.proc j q)
    (forking : k'.forking = k.forking) (notEmbryo : (k.proc j).state ≠ .embryo)
    (dead : ¬ (k.proc j).state.Alive) : ForkInv k' := by
  refine ⟨fun i j' child => ?_, fun i j' child => ?_, fun i i' j' child child' => ?_⟩
  · rw [forking] at child
    have embryo := inv.child_embryo i j' child
    have other : j' ≠ j := by
      rintro rfl
      exact notEmbryo embryo
    rw [proc, Function.update_of_ne other]
    exact embryo
  · rw [forking] at child
    have alive := inv.forker_alive i j' child
    have other : i ≠ j := by
      rintro rfl
      exact dead alive
    rw [proc, Function.update_of_ne other]
    exact alive
  · rw [forking] at child child'
    exact inv.unique i i' j' child child'

/-- allocproc inside `fork`: `i` starts setting up the UNUSED entry `j` as
an EMBRYO. -/
theorem ForkInv.claim {i : Fin nProc} (inv : ForkInv k) (proc : k'.proc = Function.update k.proc j q)
    (forking : k'.forking = Function.update k.forking i (some j))
    (unused : (k.proc j).state = .unused) (embryo : q.state = .embryo)
    (forker : (k.proc i).state.Alive) : ForkInv k' := by
  have notChild : ∀ i' j', k.forking i' = some j' → j' ≠ j := by
    rintro i' j' child rfl
    rw [inv.child_embryo i' j' child] at unused
    cases unused
  have notJ : ∀ i', (k.proc i').state.Alive → i' ≠ j := by
    rintro i' alive rfl
    rw [unused] at alive
    exact ProcState.not_alive_unused alive
  refine ⟨fun i' j' child => ?_, fun i' j' child => ?_, fun i₁ i₂ j' child₁ child₂ => ?_⟩
  · rw [forking] at child
    rw [proc]
    by_cases same : i' = i
    · subst same
      rw [Function.update_self] at child
      cases child
      rw [Function.update_self]
      exact embryo
    · rw [Function.update_of_ne same] at child
      rw [Function.update_of_ne (notChild i' j' child)]
      exact inv.child_embryo i' j' child
  · rw [proc]
    have alive : (k.proc i').state.Alive := by
      rw [forking] at child
      by_cases same : i' = i
      · rw [same]
        exact forker
      · rw [Function.update_of_ne same] at child
        exact inv.forker_alive i' j' child
    rw [Function.update_of_ne (notJ i' alive)]
    exact alive
  · rw [forking] at child₁ child₂
    by_cases first : i₁ = i <;> by_cases second : i₂ = i
    · rw [first, second]
    · rw [first, Function.update_self] at child₁
      rw [Function.update_of_ne second] at child₂
      exact absurd (Option.some.inj child₁).symm (notChild i₂ j' child₂)
    · rw [Function.update_of_ne first] at child₁
      rw [second, Function.update_self] at child₂
      exact absurd (Option.some.inj child₂).symm (notChild i₁ j' child₁)
    · rw [Function.update_of_ne first] at child₁
      rw [Function.update_of_ne second] at child₂
      exact inv.unique i₁ i₂ j' child₁ child₂

/-- The end of `fork`: `i` stops setting up its child `j`, whatever becomes
of `j`. -/
theorem ForkInv.finish {i : Fin nProc} (inv : ForkInv k) (proc : k'.proc = Function.update k.proc j q)
    (forking : k'.forking = Function.update k.forking i none) (child : k.forking i = some j) :
    ForkInv k' := by
  have away : ∀ i' j', k'.forking i' = some j' → i' ≠ i ∧ k.forking i' = some j' := by
    intro i' j' child'
    rw [forking] at child'
    by_cases same : i' = i
    · rw [same, Function.update_self] at child'
      cases child'
    · rw [Function.update_of_ne same] at child'
      exact ⟨same, child'⟩
  refine ⟨fun i' j' child' => ?_, fun i' j' child' => ?_, fun i₁ i₂ j' child₁ child₂ => ?_⟩
  · obtain ⟨other, old⟩ := away i' j' child'
    have notJ : j' ≠ j := by
      rintro rfl
      exact other (inv.unique i' i j' old child)
    rw [proc, Function.update_of_ne notJ]
    exact inv.child_embryo i' j' old
  · obtain ⟨_, old⟩ := away i' j' child'
    have alive := inv.forker_alive i' j' old
    have notJ : i' ≠ j := by
      rintro rfl
      rw [inv.child_embryo i i' child] at alive
      exact ProcState.not_alive_embryo alive
    rw [proc, Function.update_of_ne notJ]
    exact alive
  · exact inv.unique i₁ i₂ j' (away i₁ j' child₁).2 (away i₂ j' child₂).2

end Update

end Kernel

end Xv6
