import Xv6.Proc.Lifecycle

/-!
# kill and the entries it matches

kill compares `pid` with the pid field of every entry of the table, UNUSED
ones included, and UNUSED entries do have pids: 0 in an entry never used
and in one that wait reaped, and the spent pid in one whose allocproc ran
out of kernel stacks.  allocproc, for its part, leaves `killed` as it finds
it.  So kill(0) finds an UNUSED entry, returns 0 and marks it, and the next
process fork puts there starts killed.
-/

namespace Xv6
namespace Kernel

variable {k : Kernel}

/-- kill's loop finds the first entry with the pid: kill returns 0 and marks
that entry killed. -/
theorem kill_found {pid : Nat} {j : Fin nProc}
    (found : Scan.first (fun j => decide ((k.proc j).pid = pid)) = some j) :
    k.killRet pid = 0 ∧ ((k.kill pid).proc j).killed = true := by
  unfold killRet kill
  rw [found]
  exact ⟨rfl, by simp⟩

/-- In every reachable state with an UNUSED entry of pid 0, kill(0) returns 0
although no process that is not UNUSED has pid 0, and it marks an UNUSED
entry killed. -/
theorem kill_zero_marks_unused (reachable : Reachable k) {j : Fin nProc}
    (zero : (k.proc j).pid = 0) :
    k.killRet 0 = 0 ∧ (∀ i, (k.proc i).state ≠ .unused → (k.proc i).pid ≠ 0) ∧
      ∃ i, (k.proc i).state = .unused ∧ ((k.kill 0).proc i).killed = true := by
  have positive := (inv_reachable reachable).pids.positive
  have noneZero : ∀ i, (k.proc i).state ≠ .unused → (k.proc i).pid ≠ 0 :=
    fun i used => Nat.pos_iff_ne_zero.mp (positive i used)
  cases found : Scan.first (fun j => decide ((k.proc j).pid = 0)) with
  | none =>
      have missed := Scan.first_none.mp found j
      simp [zero] at missed
  | some i =>
      have matched : (k.proc i).pid = 0 := by simpa using Scan.first_some found
      have unused : (k.proc i).state = .unused :=
        Classical.byContradiction fun used => noneZero i used matched
      obtain ⟨returned, marked⟩ := kill_found found
      exact ⟨returned, noneZero, i, unused, marked⟩

/-- The first process running on CPU 0. -/
def initRunning : Kernel := firstKernel.scheduler cpu₀

/-- The failing input: init, running on CPU 0, calls kill(0), which returns 0
and marks the UNUSED entry 1; init then forks, and the child, put in entry 1,
is RUNNABLE with `killed` set before it ran an instruction. -/
theorem kill_zero_then_fork :
    Reachable initRunning ∧ (initRunning.proc entry₁).state = .unused ∧
      (initRunning.proc entry₁).pid = 0 ∧
      (initRunning.killRet 0 = 0 ∧
        (∀ i, (initRunning.proc i).state ≠ .unused → (initRunning.proc i).pid ≠ 0) ∧
        ∃ i, (initRunning.proc i).state = .unused ∧ ((initRunning.kill 0).proc i).killed = true) ∧
      ∃ k', Machine.run step initRunning [.kill 0, .fork cpu₀ true, .forkCopy cpu₀ true] = some k' ∧
        (k'.proc entry₁).state = .runnable ∧ (k'.proc entry₁).killed = true ∧
        (k'.proc entry₁).parent = initRunning.cpus cpu₀ := by
  have scheduled : step firstKernel (.scheduler cpu₀) = some initRunning := by
    show (if firstKernel.cpus cpu₀ = none then some (firstKernel.scheduler cpu₀) else none) = _
    rw [if_pos (by decide +kernel)]
    rfl
  have start : Reachable firstKernel := Machine.Reachable.initial userinit_boot
  have reachable : Reachable initRunning := Machine.Reachable.next start scheduled
  have free : (initRunning.proc entry₁).state = .unused := by decide +kernel
  have zero : (initRunning.proc entry₁).pid = 0 := by decide +kernel
  obtain ⟨k', ran⟩ : ∃ k', Machine.run step initRunning
      [.kill 0, .fork cpu₀ true, .forkCopy cpu₀ true] = some k' :=
    Option.isSome_iff_exists.mp (by decide +kernel)
  have child : (Machine.run step initRunning [.kill 0, .fork cpu₀ true, .forkCopy cpu₀ true]).map
      (fun k' => ((k'.proc entry₁).state, (k'.proc entry₁).killed, (k'.proc entry₁).parent)) =
      some (.runnable, true, initRunning.cpus cpu₀) := by
    decide +kernel
  rw [ran, Option.map_some, Option.some.injEq, Prod.mk.injEq, Prod.mk.injEq] at child
  exact ⟨reachable, free, zero, kill_zero_marks_unused reachable zero, k', ran, child⟩

end Kernel
end Xv6
