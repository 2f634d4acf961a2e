import Mathlib.Data.UInt
import Xv6.Lib.Copy
import Xv6.Lib.CInt

/-!
# memmove

string.c's `memmove` and `memcpy` over the bytes of the 32-bit address
space.  memmove copies backwards, from the ends, when the destination starts
inside the source (`s < d && s + n > d`, compared as 32-bit pointers), and
forwards otherwise; memcpy is memmove.  Both loops are `Xv6.Lib.Copy`'s,
moving by `+1` and by pre-decrement.

What they are meant to do is `moveThroughBuffer`: copy the source to a
temporary buffer and the buffer to the destination.  For ranges that do not
wrap the address space both do exactly that (`memmove_eq_moveThroughBuffer`),
whichever way the two ranges overlap: each direction's loop never writes a
source byte it has yet to read.
-/

namespace Xv6
namespace Kernel

/-- The bytes of the address space. -/
abbrev Mem := UInt32 → UInt8

/-- memmove(dst, src, n). -/
def memmove (m : Mem) (dst src n : UInt32) : Mem :=
  if src < dst ∧ src + n > dst then
    -- `s += n; d += n; while(n-- > 0) *--d = *--s;`
    Copy.runPre (· - 1) m (src + n) (dst + n) n.toNat
  else
    -- `while(n-- > 0) *d++ = *s++;`
    Copy.run (· + 1) m src dst n.toNat

/-- memcpy(dst, src, n): `return memmove(dst, src, n);`. -/
def memcpy (m : Mem) (dst src n : UInt32) : Mem := memmove m dst src n

/-! ## Copying through a buffer -/

/-- The `n` bytes at `src` copied to a temporary buffer and from it to `dst`. -/
def moveThroughBuffer (m : Mem) (dst src n : UInt32) : Mem :=
  let buffer := fun k => m (src + k)
  fun a => if a - dst < n then buffer (a - dst) else m a

theorem moveThroughBuffer_dst (m : Mem) {dst src n k : UInt32} (below : k < n) :
    moveThroughBuffer m dst src n (dst + k) = m (src + k) := by
  simp [moveThroughBuffer, below]

theorem moveThroughBuffer_outside (m : Mem) {dst src n a : UInt32} (outside : ∀ k < n, a ≠ dst + k) :
    moveThroughBuffer m dst src n a = m a := by
  have notBelow : ¬a - dst < n := fun below => outside _ below (by grind)
  simp [moveThroughBuffer, notBelow]

theorem ofNat_lt {k : Nat} {n : UInt32} (below : k < n.toNat) : UInt32.ofNat k < n := by
  rw [UInt32.lt_iff_toNat_lt, UInt32.toNat_ofNat', Nat.mod_eq_of_lt (by have := n.toNat_lt; omega)]
  exact below

/-- A memory that holds the source at the destination and is otherwise
unchanged is the copy through a buffer. -/
theorem eq_moveThroughBuffer {m m' : Mem} {dst src n : UInt32}
    (copied : ∀ k < n.toNat, m' (dst + UInt32.ofNat k) = m (src + UInt32.ofNat k))
    (frame : ∀ a, (∀ k < n.toNat, a ≠ dst + UInt32.ofNat k) → m' a = m a) :
    m' = moveThroughBuffer m dst src n := by
  funext a
  by_cases below : a - dst < n
  · have back : a = dst + UInt32.ofNat (a - dst).toNat := by simp
    rw [back, moveThroughBuffer_dst m (by simpa using below), copied _ (UInt32.lt_iff_toNat_lt.mp below)]
  · rw [frame a fun k below' same => below (by rw [same, add_sub_cancel_left]; exact ofNat_lt below')]
    simp [moveThroughBuffer, below]

/-! ## Positions of the two loops -/

theorem iterate_add_one (a : UInt32) (i : Nat) : (· + 1)^[i] a = a + UInt32.ofNat i := by
  induction i with
  | zero => simp
  | succ i inductionHypothesis =>
      rw [Function.iterate_succ_apply', inductionHypothesis]
      simp [UInt32.ofNat_add, add_assoc]

theorem iterate_sub_one (a : UInt32) (i : Nat) : (· - 1)^[i] a = a - UInt32.ofNat i := by
  induction i with
  | zero => simp
  | succ i inductionHypothesis =>
      rw [Function.iterate_succ_apply', inductionHypothesis]
      simp only [UInt32.ofNat_add]
      grind

/-- The `i`-th byte a pre-decrementing loop from `a + n` reaches is byte
`n - 1 - i` of `a`. -/
theorem iterate_sub_one_end (a n : UInt32) {i : Nat} (below : i < n.toNat) :
    (· - 1)^[i] (a + n - 1) = a + UInt32.ofNat (n.toNat - 1 - i) := by
  rw [iterate_sub_one]
  have index : UInt32.ofNat (n.toNat - 1 - i) = n - 1 - UInt32.ofNat i := by
    apply UInt32.toNat_inj.mp
    simp only [UInt32.toNat_ofNat', UInt32.toNat_sub, UInt32.toNat_one]
    have := n.toNat_lt
    omega
  rw [index]
  grind

/-- Adding an offset that stays inside the address space. -/
theorem toNat_add_ofNat (a : UInt32) {i : Nat} (fits : a.toNat + i < 2 ^ 32) :
    (a + UInt32.ofNat i).toNat = a.toNat + i := by
  simp only [UInt32.toNat_add, UInt32.toNat_ofNat']
  rw [Nat.mod_eq_of_lt (by omega : i < 2 ^ 32), Nat.mod_eq_of_lt fits]

theorem ofNat_injective {i j : Nat} (small : i < 2 ^ 32) (small' : j < 2 ^ 32)
    (same : UInt32.ofNat i = UInt32.ofNat j) : i = j := by
  have := congrArg UInt32.toNat same
  simp only [UInt32.toNat_ofNat'] at this
  rwa [Nat.mod_eq_of_lt small, Nat.mod_eq_of_lt small'] at this

section Ranges

variable {dst src n : UInt32}

/-- The destinations `dst + k`, `k < n`, are distinct. -/
theorem distinct_offsets {i j : Nat} (below : i < n.toNat) (below' : j < n.toNat)
    (same : dst + UInt32.ofNat i = dst + UInt32.ofNat j) : i = j :=
  ofNat_injective (by have := n.toNat_lt; omega) (by have := n.toNat_lt; omega)
    (add_left_cancel same)

variable (srcFits : src.toNat + n.toNat ≤ 2 ^ 32) (dstFits : dst.toNat + n.toNat ≤ 2 ^ 32)
include srcFits dstFits

/-- Forwards, a write at `dst + i` would hit a later source byte `src + j`
only if the destination started inside the source, which is the other branch. -/
theorem unread_forward (forward : ¬(src < dst ∧ src + n > dst)) :
    Copy.Unread (· + 1) src dst n.toNat := by
  intro i j before below same
  rw [iterate_add_one, iterate_add_one] at same
  have offsets := congrArg UInt32.toNat same
  rw [toNat_add_ofNat dst (by omega), toNat_add_ofNat src (by omega)] at offsets
  have sum : (src + n).toNat = src.toNat + n.toNat := CInt.toNat_add_of_lt (by omega)
  exact forward ⟨UInt32.lt_iff_toNat_lt.mpr (by omega), UInt32.lt_iff_toNat_lt.mpr (by omega)⟩

/-- Backwards from the ends, a write at byte `n - 1 - i` of `dst` would hit
byte `n - 1 - j` of `src`, `j > i`, only if `dst` were below `src`. -/
theorem unread_backward (backward : src < dst) :
    Copy.Unread (· - 1) (src + n - 1) (dst + n - 1) n.toNat := by
  intro i j before below same
  rw [iterate_sub_one_end dst n (Nat.lt_trans before below), iterate_sub_one_end src n below] at same
  have offsets := congrArg UInt32.toNat same
  rw [toNat_add_ofNat dst (by omega), toNat_add_ofNat src (by omega)] at offsets
  have := UInt32.lt_iff_toNat_lt.mp backward
  omega

end Ranges

/-! ## memmove -/

section Memmove

variable {dst src n : UInt32}

theorem moveThroughBuffer_forward (m : Mem)
    (copies : Copy.Copies (· + 1) m (Copy.run (· + 1) m src dst n.toNat) src dst n.toNat) :
    Copy.run (· + 1) m src dst n.toNat = moveThroughBuffer m dst src n := by
  apply eq_moveThroughBuffer
  · intro k below
    have := copies.copied k below
    rwa [iterate_add_one, iterate_add_one] at this
  · intro a outside
    exact copies.frame a fun i below => by rw [iterate_add_one]; exact outside i below

theorem moveThroughBuffer_backward (m : Mem)
    (copies : Copy.Copies (· - 1) m (Copy.run (· - 1) m (src + n - 1) (dst + n - 1) n.toNat)
      (src + n - 1) (dst + n - 1) n.toNat) :
    Copy.run (· - 1) m (src + n - 1) (dst + n - 1) n.toNat = moveThroughBuffer m dst src n := by
  apply eq_moveThroughBuffer
  · -- byte `k` is the one the loop writes at its turn `n - 1 - k`
    intro k below
    have := copies.copied (n.toNat - 1 - k) (by omega)
    rwa [iterate_sub_one_end _ _ (by omega), iterate_sub_one_end _ _ (by omega),
      show n.toNat - 1 - (n.toNat - 1 - k) = k by omega] at this
  · intro a outside
    exact copies.frame a fun i below => by
      rw [iterate_sub_one_end _ _ below]
      exact outside _ (by omega)

theorem memmove_eq_moveThroughBuffer (m : Mem)
    (srcFits : src.toNat + n.toNat ≤ 2 ^ 32) (dstFits : dst.toNat + n.toNat ≤ 2 ^ 32) :
    memmove m dst src n = moveThroughBuffer m dst src n := by
  unfold memmove
  split
  case isTrue backward =>
    rw [Copy.runPre_eq]
    exact moveThroughBuffer_backward m (Copy.copies_run m _ _ _
      (fun i j below below' same => by
        rw [iterate_sub_one_end _ _ below, iterate_sub_one_end _ _ below'] at same
        have := @distinct_offsets dst n _ _ (by omega) (by omega) same
        omega)
      (unread_backward srcFits dstFits backward.1))
  case isFalse forward =>
    exact moveThroughBuffer_forward m (Copy.copies_run m _ _ _
      (fun i j below below' same => by
        rw [iterate_add_one, iterate_add_one] at same
        exact distinct_offsets below below' same)
      (unread_forward srcFits dstFits forward))

/-- memmove copies `n` bytes as through a temporary buffer, however the two
ranges overlap, and changes no byte outside the destination; memcpy is the
same function. -/
theorem memmove_copies_any_overlap (m : Mem) (dst src n : UInt32)
    (srcFits : src.toNat + n.toNat ≤ 2 ^ 32) (dstFits : dst.toNat + n.toNat ≤ 2 ^ 32) :
    memmove m dst src n = moveThroughBuffer m dst src n ∧
      (∀ k < n, memmove m dst src n (dst + k) = m (src + k)) ∧
      (∀ a, (∀ k < n, a ≠ dst + k) → memmove m dst src n a = m a) ∧
      memcpy m dst src n = memmove m dst src n := by
  have through := memmove_eq_moveThroughBuffer m srcFits dstFits
  refine ⟨through, fun k below => ?_, fun a outside => ?_, rfl⟩
  · rw [through]
    exact moveThroughBuffer_dst m below
  · rw [through]
    exact moveThroughBuffer_outside m outside

/-- Four bytes moved up by one, so that the ranges overlap in all but one byte. -/
theorem memmove_up_by_one :
    (0 : UInt32).toNat + (4 : UInt32).toNat ≤ 2 ^ 32 ∧ (1 : UInt32).toNat + (4 : UInt32).toNat ≤ 2 ^ 32 ∧
      (memmove (fun a => a.toUInt8) 1 0 4 = moveThroughBuffer (fun a => a.toUInt8) 1 0 4 ∧
      (∀ k < 4, memmove (fun a => a.toUInt8) 1 0 4 (1 + k) = (0 + k).toUInt8) ∧
      (∀ a, (∀ k < 4, a ≠ 1 + k) → memmove (fun a => a.toUInt8) 1 0 4 a = a.toUInt8) ∧
      memcpy (fun a => a.toUInt8) 1 0 4 = memmove (fun a => a.toUInt8) 1 0 4) :=
  ⟨by decide, by decide, memmove_copies_any_overlap _ 1 0 4 (by decide) (by decide)⟩

end Memmove

end Kernel
end Xv6
