import Mathlib.Data.Nat.Init
import Mathlib.Algebra.Group.Nat.Defs

/-!
# Wrapping 32-bit counters over a ring of slots

A ring buffer can be driven by two free-running 32-bit counters, a front and
a back: the number of occupied slots is their difference modulo `2^32`, and a
counter's slot is its value modulo the ring size.  When the ring size divides
`2^32`, wrapping the counters past `2^32` never disturbs the slots.  This
module gives the arithmetic: how the gap moves when either counter is
incremented, what equality and emptiness tests on the counters say about the
gap, and which slot the `k`-th occupied entry lives in.
-/

namespace WrapCounter

/-- How far `back` runs ahead of `front`, modulo `2^32`. -/
def gap (front back : UInt32) : Nat := (back - front).toNat

theorem gap_eq (front back : UInt32) :
    gap front back = (2 ^ 32 - front.toNat + back.toNat) % 2 ^ 32 :=
  UInt32.toNat_sub back front

theorem gap_eq_zero_iff {front back : UInt32} : gap front back = 0 ↔ front = back := by
  rw [gap_eq, ← UInt32.toNat_inj]
  have frontBound := front.toNat_lt_size
  have backBound := back.toNat_lt_size
  simp only [UInt32.size] at frontBound backBound
  omega

/-- The back counter equals the front plus `c` exactly when the gap is `c`. -/
theorem eq_add_iff_gap {front back : UInt32} (c : UInt32) :
    back = front + c ↔ gap front back = c.toNat := by
  rw [gap_eq, ← UInt32.toNat_inj, UInt32.toNat_add]
  have frontBound := front.toNat_lt_size
  have backBound := back.toNat_lt_size
  have cBound := c.toNat_lt_size
  simp only [UInt32.size] at frontBound backBound cBound
  omega

/-- Incrementing the back counter grows the gap by one. -/
theorem gap_succ_back {front back : UInt32} (room : gap front back + 1 < 2 ^ 32) :
    gap front (back + 1) = gap front back + 1 := by
  rw [gap_eq, gap_eq, UInt32.toNat_add, UInt32.toNat_one] at *
  have frontBound := front.toNat_lt_size
  have backBound := back.toNat_lt_size
  simp only [UInt32.size] at frontBound backBound
  omega

/-- Incrementing the front counter shrinks a nonempty gap by one. -/
theorem gap_succ_front {front back : UInt32} (nonempty : 0 < gap front back) :
    gap (front + 1) back = gap front back - 1 := by
  rw [gap_eq, gap_eq, UInt32.toNat_add, UInt32.toNat_one] at *
  have frontBound := front.toNat_lt_size
  have backBound := back.toNat_lt_size
  simp only [UInt32.size] at frontBound backBound
  omega

/-- Decrementing the back counter shrinks a nonempty gap by one. -/
theorem gap_pred_back {front back : UInt32} (nonempty : 0 < gap front back) :
    gap front (back - 1) = gap front back - 1 := by
  rw [gap_eq, gap_eq, UInt32.toNat_sub, UInt32.toNat_one] at *
  have frontBound := front.toNat_lt_size
  have backBound := back.toNat_lt_size
  simp only [UInt32.size] at frontBound backBound
  omega

/-- A counter between front and back splits the gap in two. -/
theorem gap_split {front middle back : UInt32} (between : gap front middle ≤ gap front back) :
    gap front back = gap front middle + gap middle back := by
  rw [gap_eq, gap_eq, gap_eq] at *
  have frontBound := front.toNat_lt_size
  have middleBound := middle.toNat_lt_size
  have backBound := back.toNat_lt_size
  simp only [UInt32.size] at frontBound middleBound backBound
  omega

theorem exists_gap_eq_succ {front back : UInt32} (apart : front ≠ back) :
    ∃ count, gap front back = count + 1 :=
  Nat.exists_eq_add_one_of_ne_zero (mt gap_eq_zero_iff.mp apart)

theorem gap_pred_back_eq {front back : UInt32} {count : Nat}
    (wide : gap front back = count + 1) : gap front (back - 1) = count := by
  rw [gap_pred_back (by omega), wide, Nat.add_sub_cancel]

theorem gap_succ_front_eq {front back : UInt32} {count : Nat}
    (wide : gap front back = count + 1) : gap (front + 1) back = count := by
  rw [gap_succ_front (by omega), wide, Nat.add_sub_cancel]

theorem ne_add_one (a : UInt32) : a ≠ a + 1 := by
  intro same
  have values := congrArg UInt32.toNat same
  have bound := a.toNat_lt_size
  simp only [UInt32.toNat_add, UInt32.toNat_one, UInt32.size] at values bound
  omega

variable {m : Nat}

/-- The slot of an incremented counter, when the ring size divides `2^32`. -/
theorem slot_succ (divides : m ∣ 2 ^ 32) (a : UInt32) :
    (a + 1).toNat % m = (a.toNat + 1) % m := by
  rw [UInt32.toNat_add, UInt32.toNat_one, Nat.mod_mod_of_dvd _ divides]

/-- The back counter's slot is the slot `gap` places after the front's. -/
theorem slot_back (divides : m ∣ 2 ^ 32) (front back : UInt32) :
    back.toNat % m = (front.toNat + gap front back) % m := by
  obtain ⟨q, hq⟩ := divides
  have frontBound := front.toNat_lt_size
  have backBound := back.toNat_lt_size
  simp only [UInt32.size] at frontBound backBound
  rw [gap_eq]
  by_cases wrapped : back.toNat < front.toNat
  · have value : (2 ^ 32 - front.toNat + back.toNat) % 2 ^ 32 =
        2 ^ 32 - front.toNat + back.toNat := Nat.mod_eq_of_lt (by omega)
    rw [value, show front.toNat + (2 ^ 32 - front.toNat + back.toNat) = back.toNat + 2 ^ 32 by
      omega, hq, Nat.add_mul_mod_self_left]
  · have value : (2 ^ 32 - front.toNat + back.toNat) % 2 ^ 32 = back.toNat - front.toNat := by
      rw [show 2 ^ 32 - front.toNat + back.toNat = (back.toNat - front.toNat) + 2 ^ 32 by omega,
        Nat.add_mod_right, Nat.mod_eq_of_lt (by omega)]
    rw [value, show front.toNat + (back.toNat - front.toNat) = back.toNat by omega]

/-- Distinct positions less than a full ring apart occupy distinct slots. -/
theorem slot_ne {base i j : Nat} (below : i < j) (within : j < m) :
    (base + i) % m ≠ (base + j) % m := by
  intro same
  have divisible := Nat.sub_mod_eq_zero_of_mod_eq same.symm
  rw [show base + j - (base + i) = j - i by omega, Nat.mod_eq_of_lt (by omega)] at divisible
  omega

/-! ## The occupied window -/

variable {α : Type*}

/-- The `count` cells from position `front` on, in order. -/
def window (cell : Nat → α) (front count : Nat) : List α :=
  (List.range count).map fun k => cell (front + k)

@[simp] theorem length_window (cell : Nat → α) (front count : Nat) :
    (window cell front count).length = count := by
  simp [window]

theorem window_succ (cell : Nat → α) (front count : Nat) :
    window cell front (count + 1) = window cell front count ++ [cell (front + count)] := by
  simp [window, List.range_succ]

theorem window_succ_front (cell : Nat → α) (front count : Nat) :
    window cell front (count + 1) = cell front :: window cell (front + 1) count := by
  simp only [window, List.range_succ_eq_map, List.map_cons, List.map_map, Nat.add_zero]
  congr 1
  apply List.map_congr_left
  intro k _
  simp only [Function.comp_apply]
  congr 1
  omega

/-- The window reads only the cells it covers. -/
theorem window_congr {cell cell' : Nat → α} {front count : Nat}
    (agree : ∀ k, k < count → cell (front + k) = cell' (front + k)) :
    window cell front count = window cell' front count := by
  apply List.map_congr_left
  intro k member
  exact agree k (List.mem_range.mp member)

/-- Over cells that repeat with period `m`, windows starting at congruent
positions are equal. -/
theorem window_periodic {cell : Nat → α} (periodic : ∀ i, cell (i % m) = cell i)
    {front front' : Nat} (count : Nat) (same : front % m = front' % m) :
    window cell front count = window cell front' count := by
  apply List.map_congr_left
  intro k _
  rw [← periodic (front + k), ← periodic (front' + k), Nat.add_mod, same, ← Nat.add_mod]

end WrapCounter
