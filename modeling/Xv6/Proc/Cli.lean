import Mathlib.Logic.Function.Basic
import Xv6.Lib.Transition

/-!
# pushcli, popcli and sched's intena

spinlock.c's pushcli and popcli nest `cli()`: the outermost pushcli records
in `mycpu()->intena` whether interrupts were enabled, every pushcli adds one
to `mycpu()->ncli`, and the popcli that brings `ncli` back to zero turns
interrupts on again if they were on.  `intena` belongs to the kernel thread,
not to the CPU, and sched keeps it on the thread's stack across `swtch`: it
reads `mycpu()->intena` before switching away and writes it back when the
thread is switched to again.

One CPU runs kernel threads `ι`.  The running thread calls pushcli and
popcli (acquire, release, holding, mycpu's callers, switchuvm), switches to
another thread through sched (the scheduler in between holds `ptable.lock`,
so the thread switched to resumes with `ncli = 1` and interrupts off), and
interrupts go on or off outside pushcli and popcli only with `ncli = 0`
(the scheduler's `sti()`, a trap and its `iret`).  sched's other checks
(`ptable.lock` held, the process not RUNNING) read nothing here and are
left out.  The ghost field `outer` is, for each thread, FL_IF as it was just
before the thread's outermost pushcli.

In every reachable state (`inv_reachable`): `ncli` is not negative,
interrupts are off while it is positive, and the `intena` of the running
thread, in the CPU, and of every thread switched out, on its stack, is its
`outer`.  So a popcli that matches a pushcli never panics, and the one that
brings `ncli` to zero restores FL_IF to the thread's `outer`, however many
switches happened in between.
-/

namespace Xv6
namespace Cli

/-- What pushcli, popcli and sched read and write of a CPU: `ncli` and
`intena` of `struct cpu`, and FL_IF of `%eflags`. -/
structure Cpu where
  ncli : Int
  intena : Bool
  interruptible : Bool
deriving DecidableEq

/-- pushcli: `cli()`, and at the outermost one `intena = eflags & FL_IF`. -/
def pushcli (c : Cpu) : Cpu :=
  { ncli := c.ncli + 1
    intena := if c.ncli = 0 then c.interruptible else c.intena
    interruptible := false }

/-- popcli; at zero, `if(mycpu()->intena) sti();`. -/
def popcli (c : Cpu) : Except String Cpu :=
  if c.interruptible then .error "popcli - interruptible"
  else if c.ncli - 1 < 0 then .error "popcli"
  else .ok { c with
    ncli := c.ncli - 1
    interruptible := if c.ncli - 1 = 0 ∧ c.intena then true else c.interruptible }

/-- sched's checks on the CPU, and `intena = mycpu()->intena`, which it keeps
on the thread's stack across `swtch`. -/
def sched (c : Cpu) : Except String Bool :=
  if c.ncli ≠ 1 then .error "sched locks"
  else if c.interruptible then .error "sched interruptible"
  else .ok c.intena

/-- One CPU and the kernel threads it switches between. -/
structure System (ι : Type*) where
  cpu : Cpu
  running : ι
  /-- sched's local `intena` of each thread switched out. -/
  saved : ι → Bool
  /-- Ghost: FL_IF just before each thread's outermost pushcli. -/
  outer : ι → Bool

inductive Action (ι : Type*) where
  | pushcli
  | popcli
  | sched (next : ι)
  | setInterrupts (on : Bool)

variable {ι : Type*} [DecidableEq ι]

def step (s : System ι) : Action ι → Option (System ι)
  | .pushcli =>
      some { s with
        cpu := pushcli s.cpu
        outer := if s.cpu.ncli = 0 then Function.update s.outer s.running s.cpu.interruptible
          else s.outer }
  | .popcli =>
      match popcli s.cpu with
      | .ok c => some { s with cpu := c }
      | .error _ => none
  | .sched next =>
      match sched s.cpu with
      | .ok intena =>
          -- `next` returns from its own sched: `mycpu()->intena = intena;`
          let saved := Function.update s.saved s.running intena
          some { s with running := next, saved := saved, cpu := { s.cpu with intena := saved next } }
      | .error _ => none
  | .setInterrupts on =>
      if s.cpu.ncli = 0 then some { s with cpu := { s.cpu with interruptible := on } } else none

/-- No pushcli outstanding, and every thread switched out keeps the FL_IF
of before its outermost pushcli. -/
def Initial (s : System ι) : Prop := s.cpu.ncli = 0 ∧ s.saved = s.outer

def Reachable (s : System ι) : Prop := Machine.Reachable Initial step s

/-! ## One lemma per function -/

theorem popcli_ok {c : Cpu} (masked : c.interruptible = false) (positive : 0 < c.ncli) :
    popcli c = .ok { c with
      ncli := c.ncli - 1
      interruptible := if c.ncli - 1 = 0 ∧ c.intena then true else c.interruptible } := by
  simp [popcli, masked, show ¬c.ncli - 1 < 0 by omega]

theorem popcli_eq_ok {c c' : Cpu} (popped : popcli c = .ok c') :
    c.interruptible = false ∧ 0 < c.ncli ∧
      c' = { c with
        ncli := c.ncli - 1
        interruptible := if c.ncli - 1 = 0 ∧ c.intena then true else c.interruptible } := by
  unfold popcli at popped
  split at popped
  case isTrue => cases popped
  case isFalse masked =>
    split at popped
    case isTrue => cases popped
    case isFalse positive =>
      cases popped
      exact ⟨Bool.eq_false_iff.mpr masked, by omega, rfl⟩

theorem sched_ok {c : Cpu} {intena : Bool} (ok : sched c = .ok intena) :
    c.ncli = 1 ∧ c.interruptible = false ∧ intena = c.intena := by
  unfold sched at ok
  split at ok
  case isTrue => cases ok
  case isFalse one =>
    split at ok
    case isTrue => cases ok
    case isFalse masked =>
      cases ok
      exact ⟨by omega, Bool.eq_false_iff.mpr masked, rfl⟩

/-! ## The invariant -/

/-- What holds in every reachable state. -/
structure Inv (s : System ι) : Prop where
  nonneg : 0 ≤ s.cpu.ncli
  masked : 0 < s.cpu.ncli → s.cpu.interruptible = false
  intena : 0 < s.cpu.ncli → s.cpu.intena = s.outer s.running
  saved : ∀ t, t ≠ s.running → s.saved t = s.outer t

variable {s s' : System ι}

omit [DecidableEq ι] in
theorem inv_initial (initial : Initial s) : Inv s where
  nonneg := Int.le_of_eq initial.1.symm
  masked := fun positive => by rw [initial.1] at positive; cases positive
  intena := fun positive => by rw [initial.1] at positive; cases positive
  saved := fun t _ => congrFun initial.2 t

theorem inv_pushcli (inv : Inv s) :
    Inv { s with
      cpu := pushcli s.cpu
      outer := if s.cpu.ncli = 0 then Function.update s.outer s.running s.cpu.interruptible
        else s.outer } where
  nonneg := by
    have := inv.nonneg
    simp only [pushcli]
    omega
  masked := fun _ => rfl
  intena := fun _ => by
    -- the outermost pushcli records FL_IF in both `intena` and the ghost
    by_cases outermost : s.cpu.ncli = 0
    · simp [pushcli, outermost]
    · simp only [pushcli, outermost, if_false]
      exact inv.intena (by have := inv.nonneg; omega)
  saved := fun t other => by
    by_cases outermost : s.cpu.ncli = 0
    · simp only [outermost, if_true, Function.update_of_ne other]
      exact inv.saved t other
    · simp only [outermost, if_false]
      exact inv.saved t other

omit [DecidableEq ι] in
theorem inv_popcli {c : Cpu} (inv : Inv s) (popped : popcli s.cpu = .ok c) : Inv { s with cpu := c } := by
  obtain ⟨masked, positive, rfl⟩ := popcli_eq_ok popped
  refine ⟨by simp only; omega, fun stillPositive => ?_, fun _ => inv.intena positive, inv.saved⟩
  -- a popcli that leaves `ncli` positive does not `sti()`
  simp only at stillPositive ⊢
  rw [if_neg (by omega)]
  exact masked

theorem inv_sched {intena : Bool} (next : ι) (inv : Inv s) (switched : sched s.cpu = .ok intena) :
    Inv { s with
      running := next
      saved := Function.update s.saved s.running intena
      cpu := { s.cpu with intena := Function.update s.saved s.running intena next } } := by
  obtain ⟨one, masked, rfl⟩ := sched_ok switched
  -- the thread switched out keeps `intena`, which is its `outer`, on its stack
  have kept : ∀ t, Function.update s.saved s.running s.cpu.intena t = s.outer t := by
    intro t
    by_cases current : t = s.running
    · rw [current, Function.update_self]
      exact inv.intena (by omega)
    · rw [Function.update_of_ne current]
      exact inv.saved t current
  exact ⟨by simp only; omega, fun _ => masked, fun _ => kept next, fun t _ => kept t⟩

omit [DecidableEq ι] in
theorem inv_setInterrupts (on : Bool) (inv : Inv s) (idle : s.cpu.ncli = 0) :
    Inv { s with cpu := { s.cpu with interruptible := on } } :=
  ⟨inv.nonneg, fun positive => absurd idle (by simp only at positive; omega),
    fun positive => absurd idle (by simp only at positive; omega), inv.saved⟩

theorem inv_step {action : Action ι} (inv : Inv s) (stepped : step s action = some s') : Inv s' := by
  cases action with
  | pushcli =>
      cases stepped
      exact inv_pushcli inv
  | popcli =>
      simp only [step] at stepped
      split at stepped
      case h_1 c popped =>
        cases stepped
        exact inv_popcli inv popped
      case h_2 => cases stepped
  | sched next =>
      simp only [step] at stepped
      split at stepped
      case h_1 intena switched =>
        cases stepped
        exact inv_sched next inv switched
      case h_2 => cases stepped
  | setInterrupts on =>
      simp only [step] at stepped
      split at stepped
      case isTrue idle =>
        cases stepped
        exact inv_setInterrupts on inv idle
      case isFalse => cases stepped

theorem inv_reachable (reachable : Reachable s) : Inv s :=
  Machine.Reachable.induction (fun _ initial => inv_initial initial)
    (fun _ _ _ _ inv stepped => inv_step inv stepped) reachable

/-! ## What the invariant gives -/

/-- A popcli that matches a pushcli (`ncli > 0`) does not panic and takes one
off `ncli`; the one that brings `ncli` to zero puts FL_IF back as it was
before the running thread's outermost pushcli, and any other leaves
interrupts off. -/
theorem popcli_restores (inv : Inv s) (positive : 0 < s.cpu.ncli) :
    ∃ s', step s .popcli = some s' ∧ s'.running = s.running ∧ s'.cpu.ncli = s.cpu.ncli - 1 ∧
      s'.cpu.interruptible = if s.cpu.ncli = 1 then s.outer s.running else false := by
  have popped := popcli_ok (inv.masked positive) positive
  refine ⟨{ s with
    cpu := { s.cpu with
      ncli := s.cpu.ncli - 1
      interruptible := if s.cpu.ncli - 1 = 0 ∧ s.cpu.intena then true else s.cpu.interruptible } },
    by simp only [step, popped], rfl, rfl, ?_⟩
  dsimp only
  rw [inv.masked positive, inv.intena positive]
  by_cases outermost : s.cpu.ncli = 1
  · rw [if_pos outermost]
    cases s.outer s.running <;> simp [outermost]
  · rw [if_neg outermost, if_neg (by omega)]

/-- Two kernel threads, interrupts on, no pushcli outstanding. -/
def twoThreads : System Bool := ⟨⟨0, false, true⟩, false, fun _ => true, fun _ => true⟩

/-- Thread `false` takes a lock and switches to thread `true`, which nests a
pushcli and popcli and switches back. -/
def switchRun : List (Action Bool) := [.pushcli, .sched true, .pushcli, .popcli, .sched false]

end Cli
end Xv6
