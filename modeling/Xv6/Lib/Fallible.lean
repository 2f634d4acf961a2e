import Mathlib.Init

/-!
# Computations that can fail

A function of the kernel that can panic returns an `Except`, with the panic's
message as its error.  Proofs about a chain of such calls take it apart one
bind at a time, forwards when the first call is known to return and
backwards from what the chain returned; these are the rules they use.
Nothing here names a particular system.
-/

namespace Fallible

variable {ε α β : Type}

@[simp] theorem ok_bind (a : α) (f : α → Except ε β) : (Except.ok a >>= f) = f a := rfl

@[simp] theorem error_bind (e : ε) (f : α → Except ε β) :
    (Except.error e >>= f) = Except.error e := rfl

@[simp] theorem ok_mapError {ε' : Type} (a : α) (f : ε → ε') : (Except.ok a : Except ε α).mapError f = .ok a :=
  rfl

/-- A chain that returned: its first call returned, and so did the rest. -/
theorem bind_ok {x : Except ε α} {f : α → Except ε β} {b : β} (ran : (x >>= f) = .ok b) :
    ∃ a, x = .ok a ∧ f a = .ok b := by
  cases x with
  | error e => cases ran
  | ok a => exact ⟨a, rfl, ran⟩

/-- A chain that failed: its first call failed, or it returned and the rest
failed. -/
theorem bind_error {x : Except ε α} {f : α → Except ε β} {e : ε} (failed : (x >>= f) = .error e) :
    x = .error e ∨ ∃ a, x = .ok a ∧ f a = .error e := by
  cases x with
  | error e' =>
      cases failed
      exact .inl rfl
  | ok a => exact .inr ⟨a, rfl, failed⟩

/-- Dropping the second part of every result commutes with a chain, when the
first call drops to `y` and the rest to `g`. -/
theorem map_fst_bind {γ δ : Type} {x : Except ε (α × γ)} {y : Except ε α}
    {f : α × γ → Except ε (β × δ)} {g : α → Except ε β} (first : x.map Prod.fst = y)
    (rest : ∀ a c, (f (a, c)).map Prod.fst = g a) : (x >>= f).map Prod.fst = y >>= g := by
  subst first
  cases x with
  | error e => rfl
  | ok ac => exact rest ac.1 ac.2

/-- Two chains end alike but for the second part of their results when their
first calls do and their rests do from every two second parts. -/
theorem map_fst_bind_congr {γ γ' δ δ' : Type} {x : Except ε (α × γ)} {x' : Except ε (α × γ')}
    {f : α × γ → Except ε (β × δ)} {f' : α × γ' → Except ε (β × δ')}
    (first : x.map Prod.fst = x'.map Prod.fst)
    (rest : ∀ a c c', (f (a, c)).map Prod.fst = (f' (a, c')).map Prod.fst) :
    (x >>= f).map Prod.fst = (x' >>= f').map Prod.fst := by
  cases x with
  | error e =>
      cases x' with
      | error e' =>
          cases first
          rfl
      | ok _ => cases first
  | ok ac =>
      cases x' with
      | error _ => cases first
      | ok ac' =>
          obtain ⟨a, c⟩ := ac
          obtain ⟨a', c'⟩ := ac'
          cases first
          exact rest a c c'

/-- A computation whose mapped result returned, returned. -/
theorem map_eq_ok {x : Except ε α} {f : α → β} {b : β} (returned : x.map f = .ok b) :
    ∃ a, x = .ok a ∧ f a = b := by
  cases x with
  | error e => cases returned
  | ok a =>
      cases returned
      exact ⟨a, rfl, rfl⟩

/-- A computation whose first parts drop to a returned `a` returned `a`
beside some second part. -/
theorem exists_ok_of_map_fst {γ : Type} {x : Except ε (α × γ)} {a : α}
    (returned : x.map Prod.fst = .ok a) : ∃ c, x = .ok (a, c) := by
  obtain ⟨⟨a', c⟩, ran, same⟩ := map_eq_ok returned
  cases same
  exact ⟨c, ran⟩

/-- The error a computation ended with, if it failed: a decidable view of a
failure, for computations whose results cannot be compared. -/
def errorOf : Except ε α → Option ε
  | .error e => some e
  | .ok _ => none

theorem eq_error_of_errorOf {x : Except ε α} {e : ε} (failed : errorOf x = some e) : x = .error e := by
  cases x with
  | error e' => cases failed; rfl
  | ok a => cases failed

/-- A computation whose optional result is `a` returned `a`. -/
theorem eq_ok_of_toOption {x : Except ε α} {a : α} (returned : x.toOption = some a) : x = .ok a := by
  cases x with
  | error e => cases returned
  | ok b =>
      cases returned
      rfl

/-- Dropping the second part of a loop's state commutes with the loop, when it
commutes with each step. -/
theorem foldlM_map_fst {σ γ ι : Type} {f : σ × γ → ι → Except ε (σ × γ)} {g : σ → ι → Except ε σ}
    (step : ∀ s c i, (f (s, c) i).map Prod.fst = g s i) :
    ∀ (l : List ι) (s : σ) (c : γ), (l.foldlM f (s, c)).map Prod.fst = l.foldlM g s
  | [], _, _ => rfl
  | i :: rest, s, c => by
      rw [List.foldlM_cons, List.foldlM_cons]
      exact map_fst_bind (step s c i) fun s' c' => foldlM_map_fst step rest s' c'

/-- What every step of a loop keeps, the loop keeps. -/
theorem foldlM_invariant {σ ι : Type} {f : σ → ι → Except ε σ} {P : σ → Prop}
    (step : ∀ s i s', P s → f s i = .ok s' → P s') :
    ∀ (l : List ι) (s : σ) {s' : σ}, P s → l.foldlM f s = .ok s' → P s'
  | [], _, _, holds, ran => by
      cases ran
      exact holds
  | i :: rest, s, _, holds, ran => by
      rw [List.foldlM_cons] at ran
      obtain ⟨s₁, first, next⟩ := bind_ok ran
      exact foldlM_invariant step rest s₁ (step s i s₁ holds first) next

end Fallible
