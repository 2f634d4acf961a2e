import Mathlib.Data.Fintype.Card

/-!
# Counting the slots of a table

A table is a function from a finite index type, and `count f P` is the number
of slots whose entry satisfies `P`.  Overwriting one slot changes the count by
at most one, in the direction the slot's entry crossed `P`; these three facts
are what reference-count and occupancy invariants are proved with.
-/

namespace Count

variable {ι β : Type*} [Fintype ι] [DecidableEq ι]

/-- The number of slots of `f` whose entry satisfies `P`. -/
def count (f : ι → β) (P : β → Prop) [DecidablePred P] : Nat :=
  (Finset.univ.filter fun slot => P (f slot)).card

variable {P : β → Prop} [DecidablePred P]

theorem count_eq_zero {f : ι → β} : count f P = 0 ↔ ∀ slot, ¬ P (f slot) := by
  simp [count, Finset.filter_eq_empty_iff]

/-- Overwriting a slot whose entry fails `P` with one that satisfies it. -/
theorem count_update_of_not_of {f : ι → β} {slot : ι} {value : β}
    (before : ¬ P (f slot)) (after : P value) :
    count (Function.update f slot value) P = count f P + 1 := by
  unfold count
  have grown : (Finset.univ.filter fun other => P (Function.update f slot value other)) =
      insert slot (Finset.univ.filter fun other => P (f other)) := by
    ext other
    by_cases same : other = slot
    · subst same
      simp [after]
    · simp [same]
  rw [grown, Finset.card_insert_of_notMem (by simp [before])]

/-- Overwriting a slot whose entry satisfies `P` with one that fails it. -/
theorem count_update_of_of_not {f : ι → β} {slot : ι} {value : β}
    (before : P (f slot)) (after : ¬ P value) :
    count (Function.update f slot value) P + 1 = count f P := by
  have restored : count (Function.update (Function.update f slot value) slot (f slot)) P =
      count (Function.update f slot value) P + 1 :=
    count_update_of_not_of (by simpa using after) before
  simpa using restored.symm

/-- Overwriting a slot without crossing `P` keeps the count. -/
theorem count_update_of_iff {f : ι → β} {slot : ι} {value : β}
    (same : P (f slot) ↔ P value) :
    count (Function.update f slot value) P = count f P := by
  unfold count
  congr 1
  ext other
  by_cases here : other = slot
  · subst here
    simp [same]
  · simp [here]

end Count
