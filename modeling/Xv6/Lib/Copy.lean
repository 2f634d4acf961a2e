import Mathlib.Logic.Function.Basic
import Mathlib.Logic.Function.Iterate

/-!
# Copying elements between two cursors

A copy loop reads the element under a source cursor, writes it under a
destination cursor and moves both cursors by one step, `n` times.  C writes
it with post-increments, `*d++ = *s++`, or with pre-decrements,
`*--d = *--s`; the second is the first started one step further on
(`runPre_eq`).

A loop over `n` elements copies what the source held before it started,
and changes nothing else, exactly when the destination positions are
distinct and no write lands on a source position that is still to be read
(`copies_run`).  Positions are `move^[i]` of the starting point, so the
module needs nothing of the memory but a type of addresses.
-/

namespace Copy

variable {α β : Type*}

section Loops

variable [DecidableEq α]

/-- `n` turns of `*d = *s; s = move s; d = move d`. -/
def run (move : α → α) (m : α → β) (s d : α) : Nat → α → β
  | 0 => m
  | n + 1 => run move (Function.update m d (m s)) (move s) (move d) n

/-- `n` turns of `s = move s; d = move d; *d = *s`. -/
def runPre (move : α → α) (m : α → β) (s d : α) : Nat → α → β
  | 0 => m
  | n + 1 => runPre move (Function.update m (move d) (m (move s))) (move s) (move d) n

/-- A pre-moving loop is a post-moving one that starts one step on. -/
theorem runPre_eq (move : α → α) (m : α → β) (s d : α) (n : Nat) :
    runPre move m s d n = run move m (move s) (move d) n := by
  induction n generalizing m s d with
  | zero => rfl
  | succ n inductionHypothesis => exact inductionHypothesis _ (move s) (move d)

end Loops

/-- What a copy of `n` elements from `s` to `d` leaves: the `i`-th
destination position holds what the `i`-th source position held before,
and every position that is not a destination keeps its value. -/
structure Copies (move : α → α) (m m' : α → β) (s d : α) (n : Nat) : Prop where
  copied : ∀ i < n, m' (move^[i] d) = m (move^[i] s)
  frame : ∀ a, (∀ i < n, a ≠ move^[i] d) → m' a = m a

/-- The destination positions of the loop are distinct. -/
def Distinct (move : α → α) (d : α) (n : Nat) : Prop :=
  ∀ i j, i < n → j < n → move^[i] d = move^[j] d → i = j

/-- No turn writes where a later turn reads. -/
def Unread (move : α → α) (s d : α) (n : Nat) : Prop :=
  ∀ i j, i < j → j < n → move^[i] d ≠ move^[j] s

section Shift

variable {move : α → α} {s d : α} {n : Nat}

theorem Distinct.shift (distinct : Distinct move d (n + 1)) : Distinct move (move d) n := by
  intro i j below below' same
  simp only [← Function.iterate_succ_apply] at same
  exact Nat.succ.inj (distinct _ _ (Nat.succ_lt_succ below) (Nat.succ_lt_succ below') same)

theorem Unread.shift (unread : Unread move s d (n + 1)) : Unread move (move s) (move d) n := by
  intro i j before below same
  simp only [← Function.iterate_succ_apply] at same
  exact unread _ _ (Nat.succ_lt_succ before) (Nat.succ_lt_succ below) same

/-- The first destination is none of the later ones. -/
theorem Distinct.first (distinct : Distinct move d (n + 1)) {i : Nat} (below : i < n) :
    d ≠ move^[i] (move d) := by
  intro same
  rw [← Function.iterate_succ_apply] at same
  cases distinct 0 (i + 1) (Nat.zero_lt_succ n) (Nat.succ_lt_succ below) same

end Shift

variable [DecidableEq α]

/-- The loop copies the source, and nothing else changes, when its
destinations are distinct and no write lands on a source still to be read. -/
theorem copies_run {move : α → α} (m : α → β) (s d : α) (n : Nat)
    (distinct : Distinct move d n) (unread : Unread move s d n) :
    Copies move m (run move m s d n) s d n := by
  induction n generalizing m s d with
  | zero => exact ⟨fun i below => absurd below (Nat.not_lt_zero i), fun _ _ => rfl⟩
  | succ n inductionHypothesis =>
      -- the first turn writes `m s` at `d`; the rest is a loop one step on
      have rest := inductionHypothesis (Function.update m d (m s)) (move s) (move d)
        distinct.shift unread.shift
      rw [run]
      refine ⟨fun i below => ?_, fun a outside => ?_⟩
      · cases i with
        | zero =>
            rw [Function.iterate_zero_apply, Function.iterate_zero_apply,
              rest.frame d fun i below' => distinct.first below', Function.update_self]
        | succ i =>
            have later : move^[i + 1] s ≠ d := fun same =>
              unread 0 (i + 1) (Nat.zero_lt_succ i) below same.symm
            rw [Function.iterate_succ_apply, Function.iterate_succ_apply,
              rest.copied i (Nat.lt_of_succ_lt_succ below), ← Function.iterate_succ_apply,
              Function.update_of_ne later]
      · have notFirst : a ≠ d := outside 0 (Nat.zero_lt_succ n)
        rw [rest.frame a fun i below same => outside (i + 1) (Nat.succ_lt_succ below)
          (same.trans (Function.iterate_succ_apply move i d).symm), Function.update_of_ne notFirst]

end Copy
