import Xv6.Proc.Basic
import Xv6.Lib.Transition

/-!
# Runs of the process table

Every CPU runs either its scheduler or its current process, and every action
below is one critical section under `ptable.lock`, taken by the current
process of a CPU, by a CPU's scheduler, or, for `wakeup` and `kill`, by
anyone.  A process inside `fork` between `allocproc` and the final
assignment of RUNNABLE holds the lock at neither end of that stretch and may
be preempted there, so `fork` is two actions, and the only other action its
process takes in between is `yield`.  A process that sleeps inside `wait`
re-runs `wait`'s loop when it is scheduled again, which is the action `wait`.
-/

namespace Xv6
namespace Kernel

inductive Action where
  | fork (c : Fin nCpu) (stackOk : Bool)
  | forkCopy (c : Fin nCpu) (copyOk : Bool)
  | exit (c : Fin nCpu)
  | wait (c : Fin nCpu)
  | sleep (c : Fin nCpu) (chan : Chan)
  | yield (c : Fin nCpu)
  | wakeup (chan : Chan)
  | kill (pid : Nat)
  | scheduler (c : Fin nCpu)

/-- What the critical section an action names does, when it can run: process
actions need a current process on the CPU, one that is not in the middle of
`fork` unless it yields or finishes the fork, and the scheduler needs its CPU
to be free. -/
def step (k : Kernel) : Action → Option Kernel
  | .fork c stackOk =>
      (k.cpus c).bind fun i =>
        if k.forking i = none then
          let out := k.allocproc stackOk
          some { out.1 with forking := Function.update out.1.forking i out.2 }
        else none
  | .forkCopy c copyOk =>
      (k.cpus c).bind fun i =>
        (k.forking i).map fun j =>
          { k.forkCopy i j copyOk with forking := Function.update k.forking i none }
  | .exit c =>
      (k.cpus c).bind fun i =>
        if k.forking i = none then
          (k.exit i).map fun procs => { k with proc := procs, cpus := Function.update k.cpus c none }
        else none
  | .wait c =>
      (k.cpus c).bind fun i =>
        if k.forking i = none then
          match k.waitScan i with
          | .reaped j => some (k.reap j)
          | .failed => some k
          | .sleeps => some (k.sleep c i (.proc i))
        else none
  | .sleep c chan =>
      (k.cpus c).bind fun i => if k.forking i = none then some (k.sleep c i chan) else none
  | .yield c => (k.cpus c).map fun i => k.yield c i
  | .wakeup chan => some { k with proc := wakeup1 chan k.proc }
  | .kill pid => some (k.kill pid)
  | .scheduler c => if k.cpus c = none then some (k.scheduler c) else none

/-- The states a run from `userinit` reaches. -/
def Reachable (k : Kernel) : Prop :=
  Machine.Reachable (fun k => boot.userinit = some k) step k

variable {k k' : Kernel}

theorem step_fork {c : Fin nCpu} {stackOk : Bool} (stepped : k.step (.fork c stackOk) = some k') :
    ∃ i, k.cpus c = some i ∧ k.forking i = none ∧
      k' = { (k.allocproc stackOk).1 with
        forking := Function.update (k.allocproc stackOk).1.forking i (k.allocproc stackOk).2 } := by
  simp only [step, Option.bind_eq_some_iff] at stepped
  obtain ⟨i, current, rest⟩ := stepped
  split_ifs at rest with idle
  cases rest
  exact ⟨i, current, idle, rfl⟩

theorem step_forkCopy {c : Fin nCpu} {copyOk : Bool}
    (stepped : k.step (.forkCopy c copyOk) = some k') :
    ∃ i j, k.cpus c = some i ∧ k.forking i = some j ∧
      k' = { k.forkCopy i j copyOk with forking := Function.update k.forking i none } := by
  simp only [step, Option.bind_eq_some_iff, Option.map_eq_some_iff] at stepped
  obtain ⟨i, current, j, child, rfl⟩ := stepped
  exact ⟨i, j, current, child, rfl⟩

theorem step_exit {c : Fin nCpu} (stepped : k.step (.exit c) = some k') :
    ∃ i procs, k.cpus c = some i ∧ k.forking i = none ∧ k.exit i = some procs ∧
      k' = { k with proc := procs, cpus := Function.update k.cpus c none } := by
  simp only [step, Option.bind_eq_some_iff] at stepped
  obtain ⟨i, current, rest⟩ := stepped
  split_ifs at rest with idle
  obtain ⟨procs, exited, rfl⟩ := Option.map_eq_some_iff.mp rest
  exact ⟨i, procs, current, idle, exited, rfl⟩

theorem step_wait {c : Fin nCpu} (stepped : k.step (.wait c) = some k') :
    ∃ i, k.cpus c = some i ∧ k.forking i = none ∧
      ((∃ j, k.waitScan i = .reaped j ∧ k' = k.reap j) ∨
        (k.waitScan i = .failed ∧ k' = k) ∨
        (k.waitScan i = .sleeps ∧ k' = k.sleep c i (.proc i))) := by
  simp only [step, Option.bind_eq_some_iff] at stepped
  obtain ⟨i, current, rest⟩ := stepped
  split_ifs at rest with idle
  refine ⟨i, current, idle, ?_⟩
  split at rest
  · rename_i j reaped
    cases rest
    exact .inl ⟨j, reaped, rfl⟩
  · rename_i failed
    cases rest
    exact .inr (.inl ⟨failed, rfl⟩)
  · rename_i sleeps
    cases rest
    exact .inr (.inr ⟨sleeps, rfl⟩)

theorem step_sleep {c : Fin nCpu} {chan : Chan} (stepped : k.step (.sleep c chan) = some k') :
    ∃ i, k.cpus c = some i ∧ k.forking i = none ∧ k' = k.sleep c i chan := by
  simp only [step, Option.bind_eq_some_iff] at stepped
  obtain ⟨i, current, rest⟩ := stepped
  split_ifs at rest with idle
  cases rest
  exact ⟨i, current, idle, rfl⟩

theorem step_yield {c : Fin nCpu} (stepped : k.step (.yield c) = some k') :
    ∃ i, k.cpus c = some i ∧ k' = k.yield c i := by
  simp only [step, Option.map_eq_some_iff] at stepped
  obtain ⟨i, current, rfl⟩ := stepped
  exact ⟨i, current, rfl⟩

theorem step_scheduler {c : Fin nCpu} (stepped : k.step (.scheduler c) = some k') :
    k.cpus c = none ∧ k' = k.scheduler c := by
  simp only [step] at stepped
  split_ifs at stepped with idle
  cases stepped
  exact ⟨idle, rfl⟩

end Kernel
end Xv6
