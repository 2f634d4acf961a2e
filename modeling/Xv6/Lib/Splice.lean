import Mathlib.Data.List.Basic

/-!
# Writing a run of elements into a list

A write of `src` at offset `off` into a buffer holding `data` keeps what
stands before `off`, replaces the next `src.length` elements and keeps the
rest, extending the buffer where `src` runs past its end.  Two writes at
consecutive offsets are one write of both runs: that is what a file offset,
advanced by each write, relies on.  Nothing here names a particular system.
-/

namespace Splice

variable {α : Type*}

/-- `data` with `src` written from `off` on. -/
def splice (data src : List α) (off : Nat) : List α :=
  data.take off ++ src ++ data.drop (off + src.length)

variable {data src : List α} {off : Nat}

@[simp] theorem splice_nil (data : List α) (off : Nat) : splice data [] off = data := by
  simp [splice]

theorem length_splice (inside : off ≤ data.length) :
    (splice data src off).length = max data.length (off + src.length) := by
  simp only [splice, List.length_append, List.length_take, List.length_drop]
  omega

theorem length_front (inside : off ≤ data.length) (src : List α) :
    (data.take off ++ src).length = off + src.length := by
  simp [inside]

/-- The written buffer up to the end of the write: the old elements before
`off`, then `src`. -/
theorem take_splice (inside : off ≤ data.length) :
    (splice data src off).take (off + src.length) = data.take off ++ src := by
  rw [splice, List.take_left' (length_front inside src)]

/-- The written buffer after the end of the write is the old one. -/
theorem drop_splice (inside : off ≤ data.length) :
    (splice data src off).drop (off + src.length) = data.drop (off + src.length) := by
  rw [splice, List.drop_left' (length_front inside src)]

/-- Two writes at consecutive offsets are one write of both runs. -/
theorem splice_splice (inside : off ≤ data.length) (first second : List α) :
    splice (splice data first off) second (off + first.length) = splice data (first ++ second) off := by
  have far : (splice data first off).drop (off + first.length + second.length) =
      data.drop (off + first.length + second.length) := by
    rw [← List.drop_drop, drop_splice inside, List.drop_drop]
  rw [splice, take_splice inside, far, splice]
  simp [Nat.add_assoc]

end Splice
