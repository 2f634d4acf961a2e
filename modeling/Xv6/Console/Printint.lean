import Mathlib.Data.Nat.Digits.Lemmas
import Mathlib.Data.UInt

/-!
# printint

The kernel's `printint` (console.c, behind cprintf's `%d`, `%x` and `%p`)
and the user library's (printf.c) are one function with two digit tables,
lower-case and upper-case.  An int to be printed signed and negative is
negated as an int and converted to uint; anything else is converted to uint
as it is.  A do-while loop then stores the digits of that uint in `buf`,
least significant first, the sign after them, and the buffer is emitted
backwards.

The int negation wraps at `INT_MIN` (C leaves it undefined; the compiled
code wraps, and Lean's `Int32` negation does the same), and the conversion
to uint then gives `2^31`, its absolute value (`toNat_toUInt32_neg`).  So
the output is the sign and the digits of `|xx|` (`printintWith_eq`), with no
leading zero since the digits are Mathlib's `Nat.digits`; and the buffer
holds at most 11 characters in base 10 and 9 in base 16 (`printintBuf_length_le`).
-/

namespace Xv6

/-- A base printint is called with: at least 2, and at most the 16 digits
of its table. -/
structure Radix where
  base : Nat
  two_le : 2 ≤ base
  le_sixteen : base ≤ 16

/-- cprintf's `%d`. -/
def Radix.decimal : Radix := ⟨10, by decide, by decide⟩

/-- cprintf's `%x` and `%p`. -/
def Radix.hex : Radix := ⟨16, by decide, by decide⟩

/-- The base as the uint `x % base` and `x /= base` divide by. -/
def Radix.word (radix : Radix) : UInt32 := UInt32.ofNat radix.base

@[simp] theorem Radix.toNat_word (radix : Radix) : radix.word.toNat = radix.base := by
  have := radix.le_sixteen
  simp only [Radix.word, UInt32.toNat_ofNat']
  exact Nat.mod_eq_of_lt (by omega)

/-- The loop `do{ buf[i++] = digits[x % base]; }while((x /= base) != 0);`,
with `buf` the characters `buf[0..i)`. -/
def digitLoop (digits : List Char) (radix : Radix) (buf : List Char) (x : UInt32) : List Char :=
  if x / radix.word ≠ 0 then
    digitLoop digits radix (buf ++ [digits.getD (x % radix.word).toNat '\x00']) (x / radix.word)
  else buf ++ [digits.getD (x % radix.word).toNat '\x00']
termination_by x.toNat
decreasing_by
  rename_i more
  have := radix.two_le
  have positive : 0 < x.toNat := by
    rcases Nat.eq_zero_or_pos x.toNat with zero | positive
    · exact absurd (UInt32.toNat_inj.mp (by simp [zero])) more
    · exact positive
  rw [UInt32.toNat_div, Radix.toNat_word]
  exact Nat.div_lt_self positive (by omega)

/-- Whether printint prints a sign: `sign && xx < 0`. -/
def negative (xx : Int32) (sign : Bool) : Bool := sign && decide (xx < 0)

/-- The buffer `buf[0..i)` once printint has stored the digits and the sign. -/
def printintBuf (digits : List Char) (xx : Int32) (radix : Radix) (sign : Bool) : List Char :=
  -- `x = -xx` or `x = xx`, an int converted to uint
  let x : UInt32 := if negative xx sign then (-xx).toUInt32 else xx.toUInt32
  let buf := digitLoop digits radix [] x
  if negative xx sign then buf ++ ['-'] else buf

/-- printint with the digit table `digits`: `while(--i >= 0)` emits the
buffer from its end. -/
def printintWith (digits : List Char) (xx : Int32) (radix : Radix) (sign : Bool) : List Char :=
  (printintBuf digits xx radix sign).reverse

namespace Console

/-- console.c's `digits[] = "0123456789abcdef"`. -/
def digits : List Char := "0123456789abcdef".toList

/-- console.c's printint(xx, base, sign): the characters it passes to
`consputc`, in order. -/
def printint (xx : Int32) (radix : Radix) (sign : Bool) : List Char :=
  printintWith digits xx radix sign

end Console

namespace Printf

/-- printf.c's `digits[] = "0123456789ABCDEF"`. -/
def digits : List Char := "0123456789ABCDEF".toList

/-- printf.c's printint(fd, xx, base, sgn): its `putc(fd, c)` calls, each a
one-byte write to `fd`, in order. -/
def printint (fd : Nat) (xx : Int32) (radix : Radix) (sgn : Bool) : List (Nat × Char) :=
  (printintWith digits xx radix sgn).map fun c => (fd, c)

end Printf

/-! ## What printint prints -/

/-- The digits of `n` in base `b`, least significant first, and a single
zero for zero: what a do-while digit loop produces. -/
def loopDigits (b n : Nat) : List Nat := if n = 0 then [0] else Nat.digits b n

/-- The numeral of `n` in base `b` over the digit table `digits`: its
digits, most significant first, with no leading zero, and "0" for zero. -/
def numeral (digits : List Char) (b n : Nat) : List Char :=
  (loopDigits b n).reverse.map (digits.getD · '\x00')

theorem loopDigits_of_lt {b n : Nat} (below : n < b) : loopDigits b n = [n] := by
  unfold loopDigits
  split
  case isTrue zero => rw [zero]
  case isFalse nonzero => exact Nat.digits_of_lt b n nonzero below

theorem loopDigits_of_le {b n : Nat} (two_le : 2 ≤ b) (le : b ≤ n) :
    loopDigits b n = n % b :: loopDigits b (n / b) := by
  have positive : 0 < n / b := Nat.div_pos le (by omega)
  have nonzero : n ≠ 0 := by omega
  rw [loopDigits, if_neg nonzero, loopDigits, if_neg (Nat.ne_of_gt positive)]
  exact Nat.digits_def' (by omega) (by omega)

/-- The digit loop appends the digits of `x`, least significant first. -/
theorem digitLoop_eq (digits : List Char) (radix : Radix) (buf : List Char) (x : UInt32) :
    digitLoop digits radix buf x =
      buf ++ (loopDigits radix.base x.toNat).map (digits.getD · '\x00') := by
  have two_le := radix.two_le
  induction buf, x using digitLoop.induct digits radix with
  | case1 buf x more inductionHypothesis =>
      -- another turn: `x / base` is not zero, so `x` has a digit after its last
      have le : radix.base ≤ x.toNat := by
        by_contra below
        exact more (UInt32.toNat_inj.mp (by
          rw [UInt32.toNat_div, Radix.toNat_word, Nat.div_eq_of_lt (by omega)]; rfl))
      rw [digitLoop, if_pos more, inductionHypothesis, loopDigits_of_le two_le le]
      simp
  | case2 buf x last =>
      have below : x.toNat < radix.base := by
        have zero := congrArg UInt32.toNat (not_not.mp last)
        rw [UInt32.toNat_div, Radix.toNat_word] at zero
        exact (Nat.div_eq_zero_iff_lt (by omega)).mp zero
      rw [digitLoop, if_neg last, loopDigits_of_lt below]
      simp [Nat.mod_eq_of_lt below]

/-- `-xx` converted to uint, for a negative `xx`, is `|xx|`; at `INT_MIN`
the negation wraps to `INT_MIN` and the conversion gives `2^31`. -/
theorem toNat_toUInt32_neg {xx : Int32} (negative : xx.toInt < 0) :
    (-xx).toUInt32.toNat = xx.toInt.natAbs := by
  have bits : (-xx).toUInt32.toNat = (-xx.toBitVec).toNat := by
    rw [← UInt32.toNat_toBitVec, Int32.toBitVec_toUInt32, Int32.toBitVec_neg]
  rw [bits, BitVec.toNat_neg, ← Int32.toInt_toBitVec] at *
  rw [BitVec.toInt_eq_toNat_cond] at negative ⊢
  have := xx.toBitVec.isLt
  split at negative <;> omega

theorem negative_iff {xx : Int32} {sign : Bool} : negative xx sign = true ↔ sign = true ∧ xx.toInt < 0 := by
  simp [negative, Int32.lt_iff_toInt_lt]

/-- What printint emits: a '-' and the digits of `|xx|` for a signed
negative `xx`, and otherwise the digits of `xx` read as a uint. -/
theorem printintWith_eq (digits : List Char) (xx : Int32) (radix : Radix) (sign : Bool) :
    printintWith digits xx radix sign =
      if sign = true ∧ xx.toInt < 0 then '-' :: numeral digits radix.base xx.toInt.natAbs
      else numeral digits radix.base xx.toUInt32.toNat := by
  unfold printintWith printintBuf
  by_cases signed : negative xx sign = true
  · have both := negative_iff.mp signed
    simp only [signed, if_true, if_pos both, digitLoop_eq, toNat_toUInt32_neg both.2, numeral]
    simp
  · have notBoth : ¬(sign = true ∧ xx.toInt < 0) := fun both => signed (negative_iff.mpr both)
    simp only [signed, if_neg notBoth, digitLoop_eq, numeral]
    simp

/-! ## The buffer -/

theorem length_loopDigits_le {b n k : Nat} (two_le : 2 ≤ b) (positive : 0 < k) (below : n < b ^ k) :
    (loopDigits b n).length ≤ k := by
  unfold loopDigits
  split
  · exact positive
  · exact (Nat.digits_length_le_iff (by omega) n).mpr below

/-- In base 10 or 16 the loop stores at most 10 digits, 8 in base 16, and
with the sign at most 11 characters: never past `buf[15]`. -/
theorem printintBuf_length_le (digits : List Char) (xx : Int32) (radix : Radix) (sign : Bool)
    (decimalOrHex : radix.base = 10 ∨ radix.base = 16) :
    (printintBuf digits xx radix sign).length ≤ 11 := by
  have digitCount : ∀ x : UInt32, (loopDigits radix.base x.toNat).length ≤ 10 := by
    intro x
    apply length_loopDigits_le radix.two_le (by decide)
    have := x.toNat_lt
    rcases decimalOrHex with ten | sixteen
    · rw [ten]
      omega
    · rw [sixteen]
      omega
  unfold printintBuf
  split <;> simp only [List.length_append, digitLoop_eq, List.length_map, List.nil_append,
    List.length_singleton] <;> grind

/-- The kernel's and the user library's printint print a '-' and the
digits of `|xx|` when asked for a sign and `xx` is negative, `INT_MIN`
included, and otherwise the digits of `xx` read as a uint, in their own
digit tables; in base 10 or 16 neither stores more than 11 characters in
its 16-byte buffer. -/
theorem printint_prints_digits (xx : Int32) (radix : Radix) (sign : Bool)
    (decimalOrHex : radix.base = 10 ∨ radix.base = 16) :
    Console.printint xx radix sign =
        (if sign = true ∧ xx.toInt < 0 then '-' :: numeral Console.digits radix.base xx.toInt.natAbs
        else numeral Console.digits radix.base xx.toUInt32.toNat) ∧
      (∀ fd, Printf.printint fd xx radix sign =
        (if sign = true ∧ xx.toInt < 0 then '-' :: numeral Printf.digits radix.base xx.toInt.natAbs
        else numeral Printf.digits radix.base xx.toUInt32.toNat).map fun c => (fd, c)) ∧
      (printintBuf Console.digits xx radix sign).length ≤ 11 ∧
      (printintBuf Printf.digits xx radix sign).length ≤ 11 :=
  ⟨printintWith_eq _ xx radix sign, fun fd => by rw [Printf.printint, printintWith_eq],
    printintBuf_length_le _ xx radix sign decimalOrHex, printintBuf_length_le _ xx radix sign decimalOrHex⟩

/-- cprintf's `%d` of `INT_MIN`. -/
theorem printint_int_min :
    (Radix.decimal.base = 10 ∨ Radix.decimal.base = 16) ∧
      (Console.printint Int32.minValue Radix.decimal true =
          (if true = true ∧ Int32.minValue.toInt < 0 then
            '-' :: numeral Console.digits Radix.decimal.base Int32.minValue.toInt.natAbs
          else numeral Console.digits Radix.decimal.base Int32.minValue.toUInt32.toNat) ∧
        (∀ fd, Printf.printint fd Int32.minValue Radix.decimal true =
          (if true = true ∧ Int32.minValue.toInt < 0 then
            '-' :: numeral Printf.digits Radix.decimal.base Int32.minValue.toInt.natAbs
          else numeral Printf.digits Radix.decimal.base Int32.minValue.toUInt32.toNat).map
            fun c => (fd, c)) ∧
        (printintBuf Console.digits Int32.minValue Radix.decimal true).length ≤ 11 ∧
        (printintBuf Printf.digits Int32.minValue Radix.decimal true).length ≤ 11) :=
  ⟨Or.inl rfl, printint_prints_digits Int32.minValue Radix.decimal true (Or.inl rfl)⟩

end Xv6
