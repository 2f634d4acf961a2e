import Mathlib.Order.Fin.Basic

/-!
# First-match scans over a fixed table

Kernel tables are arrays searched front to back by loops that stop at the
first entry passing a test.  `Scan.first` is that loop over `Fin n`; its
lemmas say that the entry found passes the test and that no entry passes
when the scan finds none.
-/

namespace Scan

variable {n : Nat}

/-- The first index, in increasing order, whose entry passes `test`. -/
def first (test : Fin n → Bool) : Option (Fin n) :=
  (List.finRange n).find? test

theorem first_some {test : Fin n → Bool} {j : Fin n} (found : first test = some j) :
    test j = true :=
  List.find?_some found

theorem first_none {test : Fin n → Bool} : first test = none ↔ ∀ j, test j = false := by
  simp [first, List.find?_eq_none, List.mem_finRange]

/-! ## Searches whose test changes

The same loop over a list, as bget runs it over the buffer list: what it
finds when the list loses an entry or the test changes at one entry. -/

section Lists

variable {α : Type*} {p p' : α → Bool} {l : List α} {a b : α}

/-- Taking out an entry that fails the test does not change what the search
finds. -/
theorem find?_erase_of_false [DecidableEq α] (fails : p b = false) (l : List α) :
    (l.erase b).find? p = l.find? p := by
  induction l with
  | nil => rfl
  | cons x l found =>
      by_cases same : x = b
      · subst same
        rw [List.erase_cons_head, List.find?_cons, fails]
      · rw [List.erase_cons_tail (by simpa using same), List.find?_cons, List.find?_cons, found]

/-- An entry that alone passes the test is what the search finds. -/
theorem find?_eq_of_unique (member : a ∈ l) (passes : p a = true)
    (only : ∀ x ∈ l, p x = true → x = a) : l.find? p = some a := by
  cases found : l.find? p with
  | none => exact absurd passes (List.find?_eq_none.mp found a member)
  | some x => rw [only x (List.mem_of_find?_eq_some found) (List.find?_some found)]

/-- Making the test fail at another entry than the one found keeps it found. -/
theorem find?_of_fail_at (found : l.find? p = some a) (other : b ≠ a)
    (same : ∀ x, x ≠ b → p' x = p x) (fails : p' b = false) : l.find? p' = some a := by
  obtain ⟨passes, front, back, split, before⟩ := List.find?_eq_some_iff_append.mp found
  refine List.find?_eq_some_iff_append.mpr ⟨by rw [same a (Ne.symm other)]; exact passes,
    front, back, split, fun x early => ?_⟩
  by_cases here : x = b
  · rw [here, fails]
    rfl
  · rw [same x here]
    exact before x early

end Lists

/-! ## A search that remembers a free entry

One pass over a table that stops at the first entry passing `hit` and, on
the way, remembers the first entry passing `free`: the loop that looks an
entry up and reserves a slot for it in the same walk. -/

section Sweep

variable {α : Type*} (hit free : α → Bool)

/-- The first entry passing `hit`, or else what was remembered: `empty` if it
was set on entry, or the first entry passing `free`. -/
def sweep : List α → Option α → α ⊕ Option α
  | [], empty => .inr empty
  | x :: rest, empty =>
      if hit x then .inl x
      else sweep rest (if empty.isNone && free x then some x else empty)

variable {hit free}

theorem sweep_inl {l : List α} {empty : Option α} {x : α}
    (found : sweep hit free l empty = .inl x) : x ∈ l ∧ hit x = true := by
  induction l generalizing empty with
  | nil => cases found
  | cons y rest inductionHypothesis =>
      rw [sweep] at found
      by_cases passes : hit y = true
      · rw [if_pos passes, Sum.inl.injEq] at found
        subst found
        exact ⟨List.mem_cons_self, passes⟩
      · rw [if_neg passes] at found
        obtain ⟨member, passesX⟩ := inductionHypothesis found
        exact ⟨List.mem_cons_of_mem y member, passesX⟩

/-- When no entry passes `hit`, the sweep answers what it remembered: the
first free entry, unless one was remembered before it started. -/
theorem sweep_inr {l : List α} {empty r : Option α}
    (missed : sweep hit free l empty = .inr r) :
    (∀ x ∈ l, hit x = false) ∧ r = empty.or (l.find? free) := by
  induction l generalizing empty with
  | nil =>
      cases missed
      simp
  | cons y rest inductionHypothesis =>
      rw [sweep] at missed
      by_cases passes : hit y = true
      · rw [if_pos passes] at missed
        cases missed
      · rw [if_neg passes] at missed
        obtain ⟨others, remembered⟩ := inductionHypothesis missed
        refine ⟨fun x member => ?_, ?_⟩
        · rcases List.mem_cons.mp member with rfl | later
          · simpa using passes
          · exact others x later
        · rw [remembered]
          cases empty with
          | some e => rfl
          | none => by_cases freeY : free y = true <;> simp [freeY]

end Sweep

end Scan
