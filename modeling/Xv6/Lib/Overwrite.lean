import Mathlib.Logic.Function.Basic
import Mathlib.Data.List.Basic

/-!
# Stores updated by lists of writes

A store is a total function from keys to values, and a write list is applied
left to right, a later write to a key overriding an earlier one.  A sequence
of write lists (a history of batches) is applied batch after batch.  The
lemmas say what the result holds at one key: the store's own value when no
write touches the key, and otherwise a value that does not depend on the
store at all.
-/

namespace Overwrite

variable {κ α : Type*} [DecidableEq κ]

/-- Apply a list of writes, in order, to a store. -/
def apply (writes : List (κ × α)) (store : κ → α) : κ → α :=
  writes.foldl (fun store write => Function.update store write.1 write.2) store

@[simp] theorem apply_nil (store : κ → α) : apply [] store = store := rfl

@[simp] theorem apply_cons (write : κ × α) (writes : List (κ × α)) (store : κ → α) :
    apply (write :: writes) store =
      apply writes (Function.update store write.1 write.2) := rfl

theorem apply_append (first second : List (κ × α)) (store : κ → α) :
    apply (first ++ second) store = apply second (apply first store) := by
  simp [apply, List.foldl_append]

@[simp] theorem apply_concat (writes : List (κ × α)) (write : κ × α) (store : κ → α) :
    apply (writes ++ [write]) store =
      Function.update (apply writes store) write.1 write.2 := by
  rw [apply_append]
  rfl

/-- A key no write touches keeps the store's value. -/
theorem apply_of_not_mem {writes : List (κ × α)} {key : κ}
    (untouched : key ∉ writes.map Prod.fst) (store : κ → α) :
    apply writes store key = store key := by
  induction writes generalizing store with
  | nil => rfl
  | cons write rest inductionHypothesis =>
      simp only [List.map_cons, List.mem_cons, not_or] at untouched
      rw [apply_cons, inductionHypothesis untouched.2]
      exact Function.update_of_ne untouched.1 _ _

/-- A key some write touches gets a value that does not depend on the store. -/
theorem apply_of_mem {writes : List (κ × α)} {key : κ}
    (touched : key ∈ writes.map Prod.fst) (store other : κ → α) :
    apply writes store key = apply writes other key := by
  induction writes generalizing store other with
  | nil => simp at touched
  | cons write rest inductionHypothesis =>
      rw [apply_cons, apply_cons]
      by_cases later : key ∈ rest.map Prod.fst
      · exact inductionHypothesis later _ _
      · have first : key = write.1 := by
          simp only [List.map_cons, List.mem_cons] at touched
          exact touched.resolve_right later
        rw [apply_of_not_mem later, apply_of_not_mem later, first]
        simp

/-- Apply a history of write batches, oldest first. -/
def applyAll (batches : List (List (κ × α))) (store : κ → α) : κ → α :=
  batches.foldl (fun store batch => apply batch store) store

@[simp] theorem applyAll_nil (store : κ → α) : applyAll [] store = store := rfl

@[simp] theorem applyAll_concat (batches : List (List (κ × α)))
    (batch : List (κ × α)) (store : κ → α) :
    applyAll (batches ++ [batch]) store = apply batch (applyAll batches store) := by
  simp [applyAll, List.foldl_append]

end Overwrite
