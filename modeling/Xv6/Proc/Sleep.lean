import Mathlib.Logic.Function.Basic
import Xv6.Lib.Transition

/-!
# Sleep and wakeup under the locks they hold

Every sleep loop of xv6 has one shape.  The caller takes a spin-lock `lk`,
tests its condition and, while the condition is false, calls
`sleep(chan, lk)`; whoever makes the condition true takes the same lock first,
changes the condition and calls `wakeup(chan)`.  In `sleep`, the process takes
`ptable.lock` before it lets go of `lk`, and `wakeup` takes `ptable.lock`
before it looks for sleepers.  When `lk` is `ptable.lock` itself (wait and
exit) sleep keeps it throughout, and exit calls `wakeup1` under it.

The model has a step for each of those lines, with the holder of every lock
explicit, so a waker on another CPU may run between any two of the sleeper's
steps that its locks allow.  A process's position (`Pc`) says which locks it
must hold (`needs`); the invariant is that it holds them.  From that: once a
process has called `wakeup(chan)` holding chan's lock, no process is SLEEPING
on chan or on its way there from a test of its condition made before.

The model is generic in the processes, the channels and the spin-locks, and
in the lock that guards each channel, as `sleep(void *chan, struct spinlock
*lk)` is; `lockOf` at the end is xv6's own assignment.  kill makes a SLEEPING
process RUNNABLE under `ptable.lock`; the flag it sets is not guarded by the
sleeper's lock, so it is a wakeup the sleeper may miss, and it is modelled as
a spurious one.  After sched returns, the model lets the scheduler's hold of
`ptable.lock` and the reacquiring of `lk` happen in one step.
-/

namespace Xv6
namespace Sleep

/-- A spin-lock that sleep involves: `ptable.lock`, or one of the locks
callers guard their conditions with. -/
inductive Lock (L : Type) where
  | ptable
  | spin (lock : L)
deriving DecidableEq

/-- Where a process stands: in the caller between `acquire(lk)` and
`release(lk)`, or at a line of sleep(chan, lk). -/
inductive Pc (κ L : Type) where
  | idle
  | holding (lock : Lock L)
  /-- The caller's loop found its condition false and entered sleep. -/
  | tested (chan : κ)
  /-- `acquire(&ptable.lock)` done, `release(lk)` not yet. -/
  | swapping (chan : κ)
  /-- `release(lk)` done, the state not yet SLEEPING. -/
  | swapped (chan : κ)
  | sleeping (chan : κ)
  /-- RUNNABLE again, yet to return from sleep. -/
  | woken (chan : κ)
deriving DecidableEq

/-- The processes' positions, the holder of each lock, and for each process
and channel whether the condition its sleep loop on that channel waits for
holds. -/
structure State (ι κ L : Type) where
  pc : ι → Pc κ L
  holder : Lock L → Option ι
  cond : ι → κ → Bool

inductive Action (ι κ L : Type) where
  | acquire (p : ι) (lock : Lock L)
  | release (p : ι)
  | change (p : ι) (chan : κ) (cond : ι → Bool)
  | sleep (p : ι) (chan : κ)
  | acquirePtable (p : ι)
  | releaseLk (p : ι)
  | sched (p : ι)
  | wakeup (p : ι) (chan : κ)
  | kill (p : ι)
  | resume (p : ι)

variable {ι κ L : Type}

/-- wakeup1: every process SLEEPING on `chan` becomes RUNNABLE. -/
def wakeup1 [DecidableEq κ] [DecidableEq L] (chan : κ) (pc : ι → Pc κ L) : ι → Pc κ L := fun r =>
  if pc r = .sleeping chan then .woken chan else pc r

section Step

variable [DecidableEq ι] [DecidableEq κ] [DecidableEq L] (guard : κ → Lock L)

/-- One step of one process.  A lock is taken only when it is free, and a
condition is changed, tested or woken on only by the holder of the lock that
guards it. -/
def step (s : State ι κ L) : Action ι κ L → Option (State ι κ L)
  | .acquire p lock =>
      if s.pc p = .idle ∧ s.holder lock = none then
        some { s with
          pc := Function.update s.pc p (.holding lock)
          holder := Function.update s.holder lock (some p) }
      else none
  | .release p =>
      match s.pc p with
      | .holding lock =>
          some { s with
            pc := Function.update s.pc p .idle
            holder := Function.update s.holder lock none }
      | _ => none
  | .change p chan cond =>
      if s.pc p = .holding (guard chan) then
        some { s with cond := fun r d => if d = chan then cond r else s.cond r d }
      else none
  | .sleep p chan =>
      if s.pc p = .holding (guard chan) ∧ s.cond p chan = false then
        some { s with pc := Function.update s.pc p (.tested chan) }
      else none
  -- if(lk != &ptable.lock) acquire(&ptable.lock)
  | .acquirePtable p =>
      match s.pc p with
      | .tested chan =>
          if guard chan ≠ .ptable ∧ s.holder .ptable = none then
            some { s with
              pc := Function.update s.pc p (.swapping chan)
              holder := Function.update s.holder .ptable (some p) }
          else none
      | _ => none
  -- release(lk)
  | .releaseLk p =>
      match s.pc p with
      | .swapping chan =>
          some { s with
            pc := Function.update s.pc p (.swapped chan)
            holder := Function.update s.holder (guard chan) none }
      | _ => none
  -- p->state = SLEEPING; sched(): the scheduler lets go of ptable.lock,
  -- reached with lk released, or with lk being ptable.lock
  | .sched p =>
      match s.pc p with
      | .swapped chan =>
          some { s with
            pc := Function.update s.pc p (.sleeping chan)
            holder := Function.update s.holder .ptable none }
      | .tested chan =>
          if guard chan = .ptable then
            some { s with
              pc := Function.update s.pc p (.sleeping chan)
              holder := Function.update s.holder .ptable none }
          else none
      | _ => none
  -- wakeup(chan) takes ptable.lock; wakeup1(chan) is called holding it
  | .wakeup p chan =>
      if s.pc p = .holding (guard chan) ∧ (guard chan = .ptable ∨ s.holder .ptable = none) then
        some { s with pc := wakeup1 chan s.pc }
      else none
  | .kill p =>
      match s.pc p with
      | .sleeping chan =>
          if s.holder .ptable = none then
            some { s with pc := Function.update s.pc p (.woken chan) }
          else none
      | _ => none
  -- sleep returns holding lk
  | .resume p =>
      match s.pc p with
      | .woken chan =>
          if s.holder .ptable = none ∧ s.holder (guard chan) = none then
            some { s with
              pc := Function.update s.pc p (.holding (guard chan))
              holder := Function.update s.holder (guard chan) (some p) }
          else none
      | _ => none

/-- No process has started, and every lock is free. -/
def Initial (s : State ι κ L) : Prop :=
  (∀ p, s.pc p = .idle) ∧ ∀ lock, s.holder lock = none

def Reachable : State ι κ L → Prop :=
  Machine.Reachable Initial (step guard)

end Step

section Invariant

variable (guard : κ → Lock L)

/-- The locks a process at `pc` holds. -/
def needs : Pc κ L → List (Lock L)
  | .holding lock => [lock]
  | .tested chan => [guard chan]
  | .swapping chan => [guard chan, .ptable]
  | .swapped _ => [.ptable]
  | _ => []

/-- Past its test of the condition on `chan` and not woken since: in sleep on
its way to SLEEPING on `chan`, or there. -/
def Committed (chan : κ) : Pc κ L → Prop
  | .tested c | .swapping c | .swapped c | .sleeping c => c = chan
  | _ => False

instance [DecidableEq κ] (chan : κ) : DecidablePred (Committed (L := L) chan) := fun pc =>
  match pc with
  | .tested c | .swapping c | .swapped c | .sleeping c => inferInstanceAs (Decidable (c = chan))
  | .idle | .holding _ | .woken _ => inferInstanceAs (Decidable False)

/-- Every process holds the locks its position needs. -/
def Held (s : State ι κ L) : Prop :=
  ∀ p lock, lock ∈ needs guard (s.pc p) → s.holder lock = some p

/-- The invariant of sleep and wakeup. -/
structure Inv (s : State ι κ L) : Prop where
  held : Held guard s
  /-- A process in sleep that has not yet let go of `lk` sees the condition
  it tested false, since only the holder of `lk` may change it. -/
  tested_false : ∀ p chan, (s.pc p = .tested chan ∨ s.pc p = .swapping chan) → s.cond p chan = false
  /-- Only a lock other than `ptable.lock` is released inside sleep. -/
  swapping_spin : ∀ p chan, s.pc p = .swapping chan → guard chan ≠ .ptable

end Invariant

section Lemmas

variable {guard : κ → Lock L} {s s' : State ι κ L}

/-- wakeup1 leaves every position but SLEEPING on `chan` as it was. -/
theorem wakeup1_of_ne_woken [DecidableEq κ] [DecidableEq L] {chan : κ} {pc : ι → Pc κ L} {r : ι} {x : Pc κ L}
    (moved : wakeup1 chan pc r = x) (awake : x ≠ .woken chan) : pc r = x := by
  unfold wakeup1 at moved
  split at moved
  · exact absurd moved.symm awake
  · exact moved

@[simp] theorem needs_wakeup1 [DecidableEq κ] [DecidableEq L] (chan : κ) (pc : ι → Pc κ L) (r : ι) :
    needs guard (wakeup1 chan pc r) = needs guard (pc r) := by
  unfold wakeup1
  split
  · rename_i asleep
    rw [asleep]
    rfl
  · rfl

/-- A process in sleep before SLEEPING holds chan's lock or `ptable.lock`. -/
theorem needs_of_committed {chan : κ} {pc : Pc κ L} (committed : Committed chan pc)
    (awake : pc ≠ .sleeping chan) : guard chan ∈ needs guard pc ∨ .ptable ∈ needs guard pc := by
  cases pc with
  | tested c => subst committed; simp [needs]
  | swapping c => subst committed; simp [needs]
  | swapped c => subst committed; simp [needs]
  | sleeping c => subst committed; exact absurd rfl awake
  | idle | holding _ | woken _ => exact committed.elim

/-- A step that moves only `p` keeps the lock part of the invariant when `p`
holds what its new position needs. -/
theorem Held.setPc [DecidableEq ι] (held : Held guard s) {p : ι} {pc : Pc κ L}
    (own : ∀ lock ∈ needs guard pc, s.holder lock = some p) :
    Held guard { s with pc := Function.update s.pc p pc } := by
  intro r lock needed
  by_cases same : r = p
  · subst same
    simp only [Function.update_self] at needed
    exact own lock needed
  · simp only [Function.update_of_ne same] at needed
    exact held r lock needed

/-- A step that moves `p` and hands one lock, free or `p`'s, to a new holder
keeps the lock part of the invariant when `p` holds what its new position
needs afterwards. -/
theorem Held.setPcHolder [DecidableEq ι] [DecidableEq L] (held : Held guard s) {p : ι} {pc : Pc κ L} {changed : Lock L}
    {x : Option ι} (mine : s.holder changed = none ∨ s.holder changed = some p)
    (own : ∀ lock ∈ needs guard pc, Function.update s.holder changed x lock = some p) :
    Held guard { s with pc := Function.update s.pc p pc, holder := Function.update s.holder changed x } := by
  intro r lock needed
  by_cases same : r = p
  · subst same
    simp only [Function.update_self] at needed
    exact own lock needed
  · simp only [Function.update_of_ne same] at needed
    have theirs := held r lock needed
    -- r holds the lock, so it is not the one that was free or p's
    have other : lock ≠ changed := by
      rintro rfl
      rcases mine with free | ours
      · rw [free] at theirs
        cases theirs
      · rw [ours] at theirs
        exact same (Option.some.inj theirs).symm
    dsimp only
    rw [Function.update_of_ne other]
    exact theirs

/-- The frame rule of the invariant: a step that moves only `p` and keeps
every condition, where the locks match the positions afterwards and `p`
enters sleep only on a false condition. -/
theorem Inv.move [DecidableEq ι] (inv : Inv guard s) {p : ι} {pc : Pc κ L} {holder : Lock L → Option ι}
    (held : Held guard { s with pc := Function.update s.pc p pc, holder := holder })
    (fresh : ∀ chan, (pc = .tested chan ∨ pc = .swapping chan) → s.cond p chan = false)
    (spin : ∀ chan, pc = .swapping chan → guard chan ≠ .ptable) :
    Inv guard { s with pc := Function.update s.pc p pc, holder := holder } where
  held := held
  tested_false r chan placed := by
    by_cases same : r = p
    · subst same
      simp only [Function.update_self] at placed
      exact fresh chan placed
    · simp only [Function.update_of_ne same] at placed
      exact inv.tested_false r chan placed
  swapping_spin r chan placed := by
    by_cases same : r = p
    · subst same
      simp only [Function.update_self] at placed
      exact spin chan placed
    · simp only [Function.update_of_ne same] at placed
      exact inv.swapping_spin r chan placed

/-- A process in sleep that has not let go of `lk` holds it. -/
theorem Held.guard_of_testing (held : Held guard s) {r : ι} {chan : κ}
    (placed : s.pc r = .tested chan ∨ s.pc r = .swapping chan) :
    s.holder (guard chan) = some r := by
  rcases placed with tested | swapping
  · exact held r _ (by simp [tested, needs])
  · exact held r _ (by simp [swapping, needs])

theorem Inv.initial {s : State ι κ L} (initial : Initial s) : Inv guard s where
  held p lock needed := by
    rw [initial.1 p] at needed
    cases needed
  tested_false p chan placed := by
    rw [initial.1 p] at placed
    simp at placed
  swapping_spin p chan placed := by
    rw [initial.1 p] at placed
    cases placed

end Lemmas

/-! ## One lemma per action -/

section Preservation

variable [DecidableEq ι] [DecidableEq κ] [DecidableEq L] {guard : κ → Lock L} {s s' : State ι κ L}

theorem Inv.acquire (inv : Inv guard s) {p : ι} {lock : Lock L}
    (stepped : step guard s (.acquire p lock) = some s') : Inv guard s' := by
  simp only [step] at stepped
  split at stepped
  · rename_i enabled
    cases stepped
    exact inv.move (inv.held.setPcHolder (.inl enabled.2) (by simp [needs])) (by simp) (by simp)
  · cases stepped

theorem Inv.release (inv : Inv guard s) {p : ι}
    (stepped : step guard s (.release p) = some s') : Inv guard s' := by
  simp only [step] at stepped
  split at stepped
  · rename_i lock holding
    cases stepped
    have mine : s.holder lock = some p := inv.held p lock (by simp [holding, needs])
    exact inv.move (inv.held.setPcHolder (.inr mine) (by simp [needs])) (by simp) (by simp)
  · cases stepped

/-- Changing a condition keeps every sleeper's tested condition false: a
process in sleep before letting go of `lk` holds it, and the changer holds
the lock of the condition it changes. -/
theorem Inv.change (inv : Inv guard s) {p : ι} {chan : κ} {cond : ι → Bool}
    (stepped : step guard s (.change p chan cond) = some s') : Inv guard s' := by
  simp only [step] at stepped
  split at stepped
  · rename_i holding
    cases stepped
    have changer : s.holder (guard chan) = some p := inv.held p _ (by simp [holding, needs])
    refine ⟨inv.held, fun r d placed => ?_, inv.swapping_spin⟩
    dsimp only at placed ⊢
    split
    · rename_i same
      subst same
      have sleeper : r = p :=
        Option.some.inj ((inv.held.guard_of_testing placed).symm.trans changer)
      subst sleeper
      rcases placed with tested | swapping
      · rw [holding] at tested
        cases tested
      · rw [holding] at swapping
        cases swapping
    · exact inv.tested_false r d placed
  · cases stepped

theorem Inv.sleep (inv : Inv guard s) {p : ι} {chan : κ}
    (stepped : step guard s (.sleep p chan) = some s') : Inv guard s' := by
  simp only [step] at stepped
  split at stepped
  · rename_i enabled
    obtain ⟨holding, unset⟩ := enabled
    cases stepped
    have mine : s.holder (guard chan) = some p := inv.held p _ (by simp [holding, needs])
    refine inv.move (inv.held.setPc (by simp [needs, mine])) ?_ (by simp)
    rintro c (tested | swapping)
    · cases tested
      exact unset
    · cases swapping
  · cases stepped

theorem Inv.acquirePtable (inv : Inv guard s) {p : ι}
    (stepped : step guard s (.acquirePtable p) = some s') : Inv guard s' := by
  simp only [step] at stepped
  split at stepped
  · rename_i chan tested
    split at stepped
    · rename_i enabled
      obtain ⟨spin, free⟩ := enabled
      cases stepped
      have mine : s.holder (guard chan) = some p := inv.held p _ (by simp [tested, needs])
      refine inv.move (inv.held.setPcHolder (.inl free) ?_) ?_ ?_
      · simp [needs, Function.update_of_ne spin, mine]
      · rintro c (tested' | swapping)
        · cases tested'
        · cases swapping
          exact inv.tested_false p chan (.inl tested)
      · rintro c swapping
        cases swapping
        exact spin
    · cases stepped
  · cases stepped

theorem Inv.releaseLk (inv : Inv guard s) {p : ι}
    (stepped : step guard s (.releaseLk p) = some s') : Inv guard s' := by
  simp only [step] at stepped
  split at stepped
  · rename_i chan swapping
    cases stepped
    have mine : s.holder (guard chan) = some p := inv.held p _ (by simp [swapping, needs])
    have ptableMine : s.holder .ptable = some p := inv.held p _ (by simp [swapping, needs])
    -- the lock let go of is not ptable.lock, which p keeps
    have spin : Lock.ptable ≠ guard chan := Ne.symm (inv.swapping_spin p chan swapping)
    refine inv.move (inv.held.setPcHolder (.inr mine) ?_) (by simp) (by simp)
    simp [needs, Function.update_of_ne spin, ptableMine]
  · cases stepped

theorem Inv.sched (inv : Inv guard s) {p : ι}
    (stepped : step guard s (.sched p) = some s') : Inv guard s' := by
  simp only [step] at stepped
  split at stepped
  · rename_i chan swapped
    cases stepped
    have mine : s.holder .ptable = some p := inv.held p _ (by simp [swapped, needs])
    exact inv.move (inv.held.setPcHolder (.inr mine) (by simp [needs])) (by simp) (by simp)
  · rename_i chan tested
    split at stepped
    · rename_i isPtable
      cases stepped
      have mine : s.holder (guard chan) = some p := inv.held p _ (by simp [tested, needs])
      rw [isPtable] at mine
      exact inv.move (inv.held.setPcHolder (.inr mine) (by simp [needs])) (by simp) (by simp)
    · cases stepped
  · cases stepped

/-- What a wakeup step requires and does. -/
theorem step_wakeup_eq {p : ι} {chan : κ} (stepped : step guard s (.wakeup p chan) = some s') :
    s.pc p = .holding (guard chan) ∧ (guard chan = .ptable ∨ s.holder .ptable = none) ∧
      s' = { s with pc := wakeup1 chan s.pc } := by
  simp only [step] at stepped
  split at stepped
  · rename_i enabled
    cases stepped
    exact ⟨enabled.1, enabled.2, rfl⟩
  · cases stepped

theorem Inv.wakeup (inv : Inv guard s) {p : ι} {chan : κ}
    (stepped : step guard s (.wakeup p chan) = some s') : Inv guard s' := by
  obtain ⟨-, -, rfl⟩ := step_wakeup_eq stepped
  refine ⟨fun r lock needed => ?_, fun r c placed => ?_, fun r c placed => ?_⟩
  · dsimp only at needed
    rw [needs_wakeup1] at needed
    exact inv.held r lock needed
  · rcases placed with tested | swapping
    · exact inv.tested_false r c (.inl (wakeup1_of_ne_woken tested (by simp)))
    · exact inv.tested_false r c (.inr (wakeup1_of_ne_woken swapping (by simp)))
  · exact inv.swapping_spin r c (wakeup1_of_ne_woken placed (by simp))

theorem Inv.kill (inv : Inv guard s) {p : ι}
    (stepped : step guard s (.kill p) = some s') : Inv guard s' := by
  simp only [step] at stepped
  split at stepped
  · split at stepped
    · cases stepped
      exact inv.move (inv.held.setPc (by simp [needs])) (by simp) (by simp)
    · cases stepped
  · cases stepped

theorem Inv.resume (inv : Inv guard s) {p : ι}
    (stepped : step guard s (.resume p) = some s') : Inv guard s' := by
  simp only [step] at stepped
  split at stepped
  · split at stepped
    · rename_i enabled
      cases stepped
      exact inv.move (inv.held.setPcHolder (.inl enabled.2) (by simp [needs])) (by simp) (by simp)
    · cases stepped
  · cases stepped

/-- The step lemma: every action keeps the invariant. -/
theorem Inv.step (inv : Inv guard s) {action : Action ι κ L}
    (stepped : step guard s action = some s') : Inv guard s' := by
  cases action with
  | acquire => exact inv.acquire stepped
  | release => exact inv.release stepped
  | change => exact inv.change stepped
  | sleep => exact inv.sleep stepped
  | acquirePtable => exact inv.acquirePtable stepped
  | releaseLk => exact inv.releaseLk stepped
  | sched => exact inv.sched stepped
  | wakeup => exact inv.wakeup stepped
  | kill => exact inv.kill stepped
  | resume => exact inv.resume stepped

/-- The run lemma: the invariant holds in every reachable state. -/
theorem Inv.reachable (reachable : Reachable guard s) : Inv guard s :=
  Machine.Reachable.induction (fun _ initial => Inv.initial initial)
    (fun _ _ _ _ inv stepped => inv.step stepped) reachable

/-- No lost wakeup.  In every reachable state, once a process holding chan's
lock has called wakeup(chan), or wakeup1(chan) holding `ptable.lock` when that
is chan's lock, no process is SLEEPING on chan, nor in sleep on its way there
after a test of its condition: every such process was made RUNNABLE, or it
held a lock the waker needed. -/
theorem wakeup_leaves_no_sleeper (reachable : Reachable guard s) {q : ι} {chan : κ}
    (woke : step guard s (.wakeup q chan) = some s') (r : ι) : ¬ Committed chan (s'.pc r) := by
  have inv := Inv.reachable reachable
  obtain ⟨waker, ptableFree, rfl⟩ := step_wakeup_eq woke
  intro committed
  dsimp only at committed
  unfold wakeup1 at committed
  split at committed
  · exact committed
  · rename_i awake
    have other : r ≠ q := by
      rintro rfl
      rw [waker] at committed
      exact committed
    have wakerHolds : s.holder (guard chan) = some q := inv.held q _ (by simp [waker, needs])
    -- r is in sleep before SLEEPING, so it holds chan's lock or ptable.lock
    rcases needs_of_committed committed awake with mine | mine
    · have theirs := inv.held r _ mine
      rw [wakerHolds] at theirs
      exact other (Option.some.inj theirs).symm
    · have theirs := inv.held r _ mine
      rcases ptableFree with isPtable | free
      · rw [← isPtable, wakerHolds] at theirs
        exact other (Option.some.inj theirs).symm
      · rw [free] at theirs
        cases theirs

end Preservation

/-! ## xv6's sleep loops -/

/-- The channels xv6's sleep loops use, each named by what it is: piperead
sleeps on `&p->nread`, pipewrite on `&p->nwrite`, iderw on the buffer,
begin_op on `&log`, acquiresleep on the sleep-lock, consoleread on
`&input.r`, sys_sleep on `&ticks`, and wait on its own process. -/
inductive Channel where
  | nread (pipe : Nat)
  | nwrite (pipe : Nat)
  | buf (b : Nat)
  | log
  | sleeplock (lk : Nat)
  | input
  | ticks
  | proc (p : Nat)
deriving DecidableEq

/-- The spin-locks those loops hold: `p->lock`, `idelock`, `log.lock`,
`lk->lk`, `cons.lock` and `tickslock`. -/
inductive Spinlock where
  | pipe (pipe : Nat)
  | idelock
  | log
  | sleeplock (lk : Nat)
  | cons
  | tickslock
deriving DecidableEq

/-- The lock each loop passes to sleep, which its wakers hold when they
change the condition and call wakeup: pipewrite, piperead and pipeclose hold
`p->lock`, ideintr `idelock`, end_op `log.lock`, releasesleep `lk->lk`,
consoleintr `cons.lock`, the timer trap `tickslock`, and exit, which calls
wakeup1, `ptable.lock`. -/
def lockOf : Channel → Lock Spinlock
  | .nread pipe | .nwrite pipe => .spin (.pipe pipe)
  | .buf _ => .spin .idelock
  | .log => .spin .log
  | .sleeplock lk => .spin (.sleeplock lk)
  | .input => .spin .cons
  | .ticks => .spin .tickslock
  | .proc _ => .ptable

/-- Two processes, none started, every condition false. -/
def start : State (Fin 2) Channel Spinlock := ⟨fun _ => .idle, fun _ => none, fun _ _ => false⟩

/-- Process 0 in sys_sleep tests its condition on `ticks` under `tickslock`
and enters sleep, taking `ptable.lock` and letting go of `tickslock`; the
timer trap (process 1) then takes `tickslock` and advances `ticks`, making
the condition true, before process 0 is SLEEPING. -/
def ticksRun : List (Action (Fin 2) Channel Spinlock) :=
  [.acquire 0 (.spin .tickslock), .sleep 0 .ticks, .acquirePtable 0, .releaseLk 0,
    .acquire 1 (.spin .tickslock), .change 1 .ticks (fun _ => true), .sched 0]

/-- The run ends with process 0 SLEEPING on a true condition; the timer's
wakeup(&ticks), which had to wait for `ptable.lock`, then leaves no process
asleep on `ticks`. -/
theorem ticks_wakeup_after_release :
    ∃ s s', Machine.run (step lockOf) start ticksRun = some s ∧
      s.pc 0 = .sleeping .ticks ∧ s.cond 0 .ticks = true ∧
      step lockOf s (.wakeup 1 .ticks) = some s' ∧ ∀ r, ¬ Committed .ticks (s'.pc r) := by
  have summary : (Machine.run (step lockOf) start ticksRun).map (fun s =>
      decide (s.pc 0 = .sleeping .ticks) && s.cond 0 .ticks && (step lockOf s (.wakeup 1 .ticks)).isSome) =
      some true := by
    decide +kernel
  obtain ⟨s, ran, seen⟩ := Option.map_eq_some_iff.mp summary
  simp only [Bool.and_eq_true, decide_eq_true_iff, Option.isSome_iff_exists] at seen
  obtain ⟨⟨asleep, ready⟩, s', woke⟩ := seen
  have reachable : Reachable lockOf s :=
    (Machine.Reachable.initial ⟨fun _ => rfl, fun _ => rfl⟩).run ran
  exact ⟨s, s', ran, asleep, ready, woke, wakeup_leaves_no_sleeper reachable woke⟩

end Sleep
end Xv6
