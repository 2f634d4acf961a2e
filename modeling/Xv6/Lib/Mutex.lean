import Mathlib.Logic.Function.Basic
import Xv6.Lib.Transition

/-!
# Atomic locks

The lock that every locking protocol of the development implements: each lock
has at most one holder, it is taken only while it is free, and only its
holder gives it back, each in one atomic step.  A protocol that takes many
steps to do either refines this one when each of its steps is one of these or
leaves the holders as they are (`Machine.Reachable.simulation`).  Nothing here
names a particular lock.
-/

namespace Mutex

/-- The holder of every lock of `L`, one of `κ` or none. -/
structure State (κ L : Type*) where
  holder : L → Option κ

inductive Action (κ L : Type*) where
  | take (c : κ) (lock : L)
  | give (c : κ) (lock : L)

variable {κ L : Type*} [DecidableEq L]

/-- `take` waits for the lock to be free; `give` is only the holder's. -/
def step [DecidableEq κ] (s : State κ L) : Action κ L → Option (State κ L)
  | .take c lock =>
      if s.holder lock = none then some ⟨Function.update s.holder lock (some c)⟩ else none
  | .give c lock =>
      if s.holder lock = some c then some ⟨Function.update s.holder lock none⟩ else none

/-- Every lock free. -/
def Initial (s : State κ L) : Prop := ∀ lock, s.holder lock = none

def Reachable [DecidableEq κ] (s : State κ L) : Prop := Machine.Reachable Initial step s

variable [DecidableEq κ] {s : State κ L} {c : κ} {lock : L}

theorem step_take (free : s.holder lock = none) :
    step s (.take c lock) = some ⟨Function.update s.holder lock (some c)⟩ := by
  simp [step, free]

theorem step_give (held : s.holder lock = some c) :
    step s (.give c lock) = some ⟨Function.update s.holder lock none⟩ := by
  simp [step, held]

end Mutex
