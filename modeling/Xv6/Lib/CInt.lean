import Mathlib.Data.UInt

/-!
# C's int and uint

A C `int` is an `Int32` and a `uint` a `UInt32`.  A conversion from int to
uint keeps the bits, so it adds `2^32` to a negative value, and uint
arithmetic wraps modulo `2^32`.  These lemmas read both back as integers, for
proofs that an overflow cannot happen under a size bound.
-/

namespace CInt

/-- The uint an int converts to: the int itself, or `2^32` more when it is negative. -/
theorem toNat_toUInt32 (a : Int32) :
    (a.toUInt32.toNat : Int) = if 0 ≤ a.toInt then a.toInt else a.toInt + 2 ^ 32 := by
  have bits : a.toUInt32.toNat = a.toBitVec.toNat := by
    rw [← UInt32.toNat_toBitVec, Int32.toBitVec_toUInt32]
  rw [bits, ← Int32.toInt_toBitVec, BitVec.toInt_eq_toNat_cond]
  have := a.toBitVec.isLt
  split <;> split <;> omega

theorem toNat_toUInt32_of_nonneg {a : Int32} (nonneg : 0 ≤ a.toInt) :
    (a.toUInt32.toNat : Int) = a.toInt := by
  rw [toNat_toUInt32, if_pos nonneg]

/-- An int whose uint is below `2^31` is not negative. -/
theorem nonneg_of_toUInt32_lt {a : Int32} (small : a.toUInt32.toNat < 2 ^ 31) : 0 ≤ a.toInt := by
  have cast := toNat_toUInt32 a
  have := a.le_toInt
  split at cast <;> omega

/-- A uint sum that stays below `2^32` does not wrap. -/
theorem toNat_add_of_lt {a b : UInt32} (fits : a.toNat + b.toNat < 2 ^ 32) :
    (a + b).toNat = a.toNat + b.toNat := by
  rw [UInt32.toNat_add, Nat.mod_eq_of_lt fits]

end CInt
