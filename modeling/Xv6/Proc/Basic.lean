import Mathlib.Data.Fintype.Basic
import Mathlib.Logic.Function.Basic
import Xv6.Param
import Xv6.Lib.Scan

/-!
# The process table

The state `proc.c` keeps under `ptable.lock`: the `NPROC` entries of the
process table, `nextpid`, `initproc` and each CPU's current process, with the
loop variable of each CPU's scheduler.  Each function below is one critical
section of `proc.c`, the part of `allocproc`, `fork`, `exit`, `wait`,
`sleep`, `wakeup`, `yield`, `kill` or `scheduler` that runs with the lock held.
Pointers to entries are indices into the table.  The pages `kalloc` hands out
for kernel stacks and page directories are named by the allocation that
produced them, and two ghost lists record, in order, every `kstack` passed
to `kfree` and every `pgdir` passed to `freevm`; a null pointer is `none`.

`nextpid` is an `int` in the source and a `Nat` here: the two agree while
fewer than `2^31 - 1` pids have been handed out.
-/

namespace Xv6

/-- enum procstate. -/
inductive ProcState where
  | unused
  | embryo
  | sleeping
  | runnable
  | running
  | zombie
  deriving DecidableEq, Repr

namespace ProcState

/-- SLEEPING, RUNNABLE or RUNNING: a process that has not exited. -/
def Alive (st : ProcState) : Prop := st = .sleeping ∨ st = .runnable ∨ st = .running

/-- RUNNABLE, RUNNING, SLEEPING or ZOMBIE: a process that `fork` has handed over. -/
def Started (st : ProcState) : Prop := st ≠ .unused ∧ st ≠ .embryo

instance (st : ProcState) : Decidable st.Alive := inferInstanceAs (Decidable (_ ∨ _))

instance (st : ProcState) : Decidable st.Started := inferInstanceAs (Decidable (_ ∧ _))

@[simp] theorem alive_sleeping : ProcState.sleeping.Alive := .inl rfl
@[simp] theorem alive_runnable : ProcState.runnable.Alive := .inr (.inl rfl)
@[simp] theorem alive_running : ProcState.running.Alive := .inr (.inr rfl)
@[simp] theorem not_alive_unused : ¬ ProcState.unused.Alive := by decide
@[simp] theorem not_alive_embryo : ¬ ProcState.embryo.Alive := by decide
@[simp] theorem not_alive_zombie : ¬ ProcState.zombie.Alive := by decide
@[simp] theorem started_zombie : ProcState.zombie.Started := by decide
@[simp] theorem not_started_unused : ¬ ProcState.unused.Started := by decide
@[simp] theorem not_started_embryo : ¬ ProcState.embryo.Started := by decide

theorem Alive.started {st : ProcState} (alive : st.Alive) : st.Started := by
  rcases alive with rfl | rfl | rfl <;> decide

theorem Alive.ne_unused {st : ProcState} (alive : st.Alive) : st ≠ .unused :=
  alive.started.1

theorem Started.ne_unused {st : ProcState} (started : st.Started) : st ≠ .unused :=
  started.1

end ProcState

/-- A sleep channel, `void *chan`: null, the address of a process-table
entry, or the address of any other kernel object. -/
inductive Chan where
  | null
  | proc (i : Fin nProc)
  | other (addr : Nat)
  deriving DecidableEq, Repr

/-- A pointer to a table entry used as a channel. -/
def chanOf : Option (Fin nProc) → Chan
  | none => .null
  | some i => .proc i

/-- The fields of struct proc that the table's critical sections read and write. -/
structure Proc where
  state : ProcState
  pid : Nat
  parent : Option (Fin nProc)
  killed : Bool
  chan : Chan
  kstack : Option Nat
  pgdir : Option Nat
  deriving DecidableEq, Repr

/-- An entry as the zeroed bss leaves it. -/
def Proc.zero : Proc := ⟨.unused, 0, none, false, .null, none, none⟩

/-- ptable, `nextpid`, `initproc` and the CPUs, with the ghost allocation
counters and free lists. -/
structure Kernel where
  proc : Fin nProc → Proc
  nextpid : Nat
  initproc : Option (Fin nProc)
  cpus : Fin nCpu → Option (Fin nProc)
  schedPos : Fin nCpu → Nat
  forking : Fin nProc → Option (Fin nProc)
  nextStack : Nat
  nextDir : Nat
  freedStacks : List (Option Nat)
  freedDirs : List (Option Nat)

namespace Kernel

/-- The kernel before `userinit`. -/
def boot : Kernel :=
  ⟨fun _ => Proc.zero, 1, none, fun _ => none, fun _ => 0, fun _ => none, 0, 0, [], []⟩

/-- allocproc: claim the first UNUSED entry as an EMBRYO with the next pid,
and give it a kernel stack; when `kalloc` fails the entry goes back to
UNUSED, its pid spent. -/
def allocproc (k : Kernel) (stackOk : Bool) : Kernel × Option (Fin nProc) :=
  match Scan.first fun j => (k.proc j).state = .unused with
  | none => (k, none)
  | some j =>
      if stackOk then
        ({ k with
          proc := Function.update k.proc j
            { k.proc j with state := .embryo, pid := k.nextpid, kstack := some k.nextStack }
          nextpid := k.nextpid + 1
          nextStack := k.nextStack + 1 }, some j)
      else
        ({ k with
          proc := Function.update k.proc j
            { k.proc j with state := .unused, pid := k.nextpid, kstack := none }
          nextpid := k.nextpid + 1 }, none)

/-- The rest of fork for child `j` of `i`: when `copyuvm` fails the child's
stack is freed and the entry goes back to UNUSED; otherwise the child gets its
page directory and parent and becomes RUNNABLE. -/
def forkCopy (k : Kernel) (i j : Fin nProc) (copyOk : Bool) : Kernel :=
  if copyOk then
    { k with
      proc := Function.update k.proc j
        { k.proc j with pgdir := some k.nextDir, parent := some i, state := .runnable }
      nextDir := k.nextDir + 1 }
  else
    { k with
      proc := Function.update k.proc j
        { k.proc j with kstack := none, pgdir := none, state := .unused }
      freedStacks := k.freedStacks ++ [(k.proc j).kstack] }

/-- userinit: allocate the first process, make it `initproc` with a fresh
page directory, and mark it RUNNABLE.  A failed allocation at boot ends in a
panic, so only the run where it succeeds starts. -/
def userinit (k : Kernel) : Option Kernel :=
  match k.allocproc true with
  | (_, none) => none
  | (k', some p) =>
      some { k' with
        initproc := some p
        proc := Function.update k'.proc p
          { k'.proc p with pgdir := some k'.nextDir, state := .runnable }
        nextDir := k'.nextDir + 1 }

end Kernel

/-- wakeup1: every process sleeping on `chan` becomes RUNNABLE. -/
def wakeup1 (chan : Chan) (procs : Fin nProc → Proc) : Fin nProc → Proc := fun j =>
  if (procs j).state = .sleeping ∧ (procs j).chan = chan then { procs j with state := .runnable }
  else procs j

/-- One iteration of exit's loop: an entry whose parent is the exiting
process passes to `initproc`, which is woken if the entry is a zombie. -/
def adopt (curproc : Fin nProc) (initproc : Option (Fin nProc)) (procs : Fin nProc → Proc)
    (j : Fin nProc) : Fin nProc → Proc :=
  if (procs j).parent = some curproc then
    let adopted := Function.update procs j { procs j with parent := initproc }
    if (procs j).state = .zombie then wakeup1 (chanOf initproc) adopted else adopted
  else procs

namespace Kernel

/-- exit's critical section for process `i`: panic if it is `initproc`;
otherwise wake its parent, pass its children to `initproc` and become a
ZOMBIE. -/
def exit (k : Kernel) (i : Fin nProc) : Option (Fin nProc → Proc) :=
  if k.initproc = some i then none
  else
    let adopted := (List.finRange nProc).foldl (adopt i k.initproc)
      (wakeup1 (chanOf (k.proc i).parent) k.proc)
    some (Function.update adopted i { adopted i with state := .zombie })

/-- What one pass of wait's loop does. -/
inductive WaitResult where
  | reaped (j : Fin nProc)
  | failed
  | sleeps
  deriving DecidableEq

/-- One pass of wait's loop for process `i`: the first ZOMBIE child is reaped;
with no child, or when `i` is killed, wait returns -1; otherwise it sleeps. -/
def waitScan (k : Kernel) (i : Fin nProc) : WaitResult :=
  match Scan.first fun j => (k.proc j).parent = some i ∧ (k.proc j).state = .zombie with
  | some j => .reaped j
  | none => if (∀ j, (k.proc j).parent ≠ some i) ∨ (k.proc i).killed then .failed else .sleeps

/-- wait's reaping of zombie `j`: free its stack and page directory, clear
the entry and mark it UNUSED.  The `pgdir` field is left as it was. -/
def reap (k : Kernel) (j : Fin nProc) : Kernel :=
  { k with
    proc := Function.update k.proc j
      { k.proc j with kstack := none, pid := 0, parent := none, killed := false, state := .unused }
    freedStacks := k.freedStacks ++ [(k.proc j).kstack]
    freedDirs := k.freedDirs ++ [(k.proc j).pgdir] }

/-- sleep for process `i` on CPU `c`: record the channel, become SLEEPING
and switch to the scheduler. -/
def sleep (k : Kernel) (c : Fin nCpu) (i : Fin nProc) (chan : Chan) : Kernel :=
  { k with
    proc := Function.update k.proc i { k.proc i with chan := chan, state := .sleeping }
    cpus := Function.update k.cpus c none }

/-- yield for process `i` on CPU `c`: become RUNNABLE and switch to the scheduler. -/
def yield (k : Kernel) (c : Fin nCpu) (i : Fin nProc) : Kernel :=
  { k with
    proc := Function.update k.proc i { k.proc i with state := .runnable }
    cpus := Function.update k.cpus c none }

/-- kill: mark the first entry with the pid killed, waking it if it sleeps. -/
def kill (k : Kernel) (pid : Nat) : Kernel :=
  match Scan.first fun j => (k.proc j).pid = pid with
  | none => k
  | some j =>
      { k with
        proc := Function.update k.proc j
          { k.proc j with
            killed := true
            state := if (k.proc j).state = .sleeping then .runnable else (k.proc j).state } }

/-- What kill returns: 0 when its loop found an entry with the pid, -1 when
none has it. -/
def killRet (k : Kernel) (pid : Nat) : Int :=
  match Scan.first fun j => (k.proc j).pid = pid with
  | none => -1
  | some _ => 0

/-- One turn of the scheduler loop on CPU `c`: run the next RUNNABLE entry at
or after the loop variable, or end the pass and start again from the front. -/
def scheduler (k : Kernel) (c : Fin nCpu) : Kernel :=
  match Scan.first fun j => k.schedPos c ≤ j.val ∧ (k.proc j).state = .runnable with
  | some j =>
      { k with
        proc := Function.update k.proc j { k.proc j with state := .running }
        cpus := Function.update k.cpus c (some j)
        schedPos := Function.update k.schedPos c (j.val + 1) }
  | none => { k with schedPos := Function.update k.schedPos c 0 }

end Kernel

end Xv6
