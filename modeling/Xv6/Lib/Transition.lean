import Mathlib.Logic.Relation

/-!
# Transition systems with executable steps

A system is given by a predicate on initial states and an executable step
function, which answers `none` when the chosen action is blocked or halts the
machine.  The module proves the rules every invariant proof of the
development goes through: an invariant that holds initially and survives one
step holds in every reachable state, and reachable states are closed under
runs of actions.  Nothing here names a particular system.
-/

namespace Machine

variable {σ α : Type*}

/-- One step of the system: some action leads from `s` to `t`. -/
def Step (step : σ → α → Option σ) (s t : σ) : Prop :=
  ∃ action, step s action = some t

/-- Run a list of actions; `none` as soon as one of them is not enabled. -/
def run (step : σ → α → Option σ) : σ → List α → Option σ
  | s, [] => some s
  | s, action :: rest => (step s action).bind fun t => run step t rest

@[simp] theorem run_nil (step : σ → α → Option σ) (s : σ) :
    run step s [] = some s := rfl

@[simp] theorem run_cons (step : σ → α → Option σ) (s : σ)
    (action : α) (rest : List α) :
    run step s (action :: rest) =
      (step s action).bind fun t => run step t rest := rfl

/-- Running two lists of actions one after the other. -/
theorem run_append (step : σ → α → Option σ) (s : σ) (first second : List α) :
    run step s (first ++ second) =
      (run step s first).bind fun t => run step t second := by
  induction first generalizing s with
  | nil => rfl
  | cons action rest inductionHypothesis =>
      simp only [List.cons_append, run_cons]
      cases step s action with
      | none => rfl
      | some t => exact inductionHypothesis t

/-- A successful run is a path of single steps. -/
theorem run_reflTransGen {step : σ → α → Option σ} {s t : σ} {actions : List α}
    (ran : run step s actions = some t) :
    Relation.ReflTransGen (Step step) s t := by
  induction actions generalizing s with
  | nil =>
      cases ran
      exact Relation.ReflTransGen.refl
  | cons action rest inductionHypothesis =>
      rw [run_cons] at ran
      obtain ⟨middle, stepped, rest_ran⟩ := Option.bind_eq_some_iff.mp ran
      exact Relation.ReflTransGen.head ⟨action, stepped⟩
        (inductionHypothesis rest_ran)

/-- States reachable from an initial state by finitely many steps. -/
def Reachable (init : σ → Prop) (step : σ → α → Option σ) (s : σ) : Prop :=
  ∃ start, init start ∧ Relation.ReflTransGen (Step step) start s

variable {init : σ → Prop} {step : σ → α → Option σ}

theorem Reachable.initial {s : σ} (initial : init s) :
    Reachable init step s :=
  ⟨s, initial, Relation.ReflTransGen.refl⟩

theorem Reachable.next {s t : σ} (reachable : Reachable init step s)
    {action : α} (stepped : step s action = some t) :
    Reachable init step t := by
  obtain ⟨start, initial, path⟩ := reachable
  exact ⟨start, initial, path.tail ⟨action, stepped⟩⟩

/-- Reachable states are closed under successful runs. -/
theorem Reachable.run {s t : σ} (reachable : Reachable init step s)
    {actions : List α} (ran : Machine.run step s actions = some t) :
    Reachable init step t := by
  obtain ⟨start, initial, path⟩ := reachable
  exact ⟨start, initial, path.trans (run_reflTransGen ran)⟩

/-- The invariant rule: a property of initial states that every step from a
reachable state preserves holds in every reachable state. -/
theorem Reachable.induction {P : σ → Prop}
    (initial : ∀ s, init s → P s)
    (preserved : ∀ s action t, Reachable init step s → P s →
      step s action = some t → P t)
    {s : σ} (reachable : Reachable init step s) : P s := by
  obtain ⟨start, start_initial, path⟩ := reachable
  have strengthened : Reachable init step s ∧ P s := by
    induction path with
    | refl => exact ⟨Reachable.initial start_initial, initial start start_initial⟩
    | tail _ last inductionHypothesis =>
        obtain ⟨action, stepped⟩ := last
        exact ⟨inductionHypothesis.1.next stepped,
          preserved _ action _ inductionHypothesis.1 inductionHypothesis.2 stepped⟩
  exact strengthened.2

/-- The simulation rule: when every initial state of one system is related to
an initial state of another, and every step of the first from a reachable
state is matched by at most one step of the second, every reachable state of
the first is related to a reachable state of the second. -/
theorem Reachable.simulation {τ β : Type*} {init' : τ → Prop} {step' : τ → β → Option τ}
    (R : σ → τ → Prop) (initial : ∀ s, init s → ∃ t, init' t ∧ R s t)
    (matched : ∀ s t action s', Reachable init step s → Reachable init' step' t → R s t →
      step s action = some s' → ∃ t', Relation.ReflGen (Step step') t t' ∧ R s' t')
    {s : σ} (reachable : Reachable init step s) : ∃ t, Reachable init' step' t ∧ R s t := by
  refine Reachable.induction (P := fun s => ∃ t, Reachable init' step' t ∧ R s t) ?_ ?_ reachable
  · intro s start
    obtain ⟨t, start', related⟩ := initial s start
    exact ⟨t, Reachable.initial start', related⟩
  · rintro s action s' before ⟨t, before', related⟩ stepped
    obtain ⟨t', moved, related'⟩ := matched s t action s' before before' related stepped
    refine ⟨t', ?_, related'⟩
    cases moved with
    | refl => exact before'
    | single next =>
        obtain ⟨action', stepped'⟩ := next
        exact before'.next stepped'

end Machine
