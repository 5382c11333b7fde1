/-
A quotient and its remainder belong together.

Division of words is division of integers without bounds, cut toward zero and then down to a
word.  Cutting down changes a quotient in one case only, the least value divided by `-1`, and
it never changes a remainder, which is smaller than its divisor.

So two things are true of `x / y * y + x % y`.  Over the integers it is `x` but for that one
case (`exact_iff`).  Over the words it is `x` in that case too (`div_mul_add_mod`), because
cutting down goes through products and sums.
-/
import Reckon.Operator

namespace Reckon

/-! ### Words -/

section Words

variable {x y : Int64}

/-- A quotient is that of the integers, cut down to a word. -/
theorem div_eq_ofInt (x y : Int64) : x / y = .ofInt (x.toInt.tdiv y.toInt) := by
  rw [Int64.ofInt_tdiv x.minValue_le_toInt x.toInt_le y.minValue_le_toInt y.toInt_le,
    Int64.ofInt_toInt, Int64.ofInt_toInt]

theorem mod_eq_ofInt (x y : Int64) : x % y = .ofInt (x.toInt.tmod y.toInt) := by
  rw [Int64.ofInt_tmod x.minValue_le_toInt x.toInt_le y.minValue_le_toInt y.toInt_le,
    Int64.ofInt_toInt, Int64.ofInt_toInt]

/-- **Words divide and multiply back to what they were**, whatever wraps on the way. -/
theorem div_mul_add_mod (x y : Int64) : x / y * y + x % y = x :=
  calc
    x / y * y + x % y
        = .ofInt (x.toInt.tdiv y.toInt) * .ofInt y.toInt + .ofInt (x.toInt.tmod y.toInt) := by
          rw [← div_eq_ofInt, ← mod_eq_ofInt, Int64.ofInt_toInt]
    _ = .ofInt (x.toInt.tdiv y.toInt * y.toInt + x.toInt.tmod y.toInt) := by
          rw [Int64.ofInt_add, Int64.ofInt_mul]
    _ = x := by rw [Int.tdiv_mul_add_tmod, Int64.ofInt_toInt]

/-- The integers do so too, unless the least value is divided by `-1`. -/
theorem exact_iff :
    (x / y).toInt * y.toInt + (x % y).toInt = x.toInt ↔ ¬ (x = Int64.minValue ∧ y = -1) := by
  constructor
  · intro hexact hleast
    rw [hleast.1, hleast.2] at hexact
    exact absurd hexact (by decide)
  · intro hfits
    have hquotient : (x / y).toInt = x.toInt.tdiv y.toInt := by
      by_cases hx : x = Int64.minValue
      · exact Int64.toInt_div_of_ne_right x y fun hy => hfits ⟨hx, hy⟩
      · exact Int64.toInt_div_of_ne_left x y hx
    rw [hquotient, Int64.toInt_mod, Int.tdiv_mul_add_tmod]

theorem natAbs_mod_lt (hy : y ≠ 0) : (x % y).toInt.natAbs < y.toInt.natAbs := by
  have hpos : 0 < y.toInt.natAbs := Int.natAbs_pos.mpr fun hzero => hy (Int64.toInt_inj.mp hzero)
  rw [Int64.toInt_mod, Int.natAbs_tmod]
  exact Nat.mod_lt _ hpos

theorem mod_eq_zero_or_sign (x y : Int64) : x % y = 0 ∨ (x % y).toInt.sign = x.toInt.sign := by
  by_cases hdvd : y.toInt ∣ x.toInt
  · refine Or.inl (Int64.toInt_inj.mp ?_)
    rw [Int64.toInt_mod, Int.tmod_eq_zero_of_dvd hdvd]
    rfl
  · refine Or.inr ?_
    rw [Int64.toInt_mod, Int.sign_tmod, if_neg hdvd]

end Words

/-! ### Operators -/

namespace Operator

variable {op : Operator} {x y : Int64}

theorem apply_eq_error_iff :
    op.apply x y = .error .divisionByZero ↔ (op = div ∨ op = rem) ∧ y = 0 := by
  by_cases hy : y = 0
  · cases op <;> simp [apply, hy]
  · cases op <;> simp [apply, hy]

theorem exists_apply_eq_ok (h : ¬ ((op = div ∨ op = rem) ∧ y = 0)) :
    ∃ value, op.apply x y = .ok value := by
  rcases happly : op.apply x y with error | value
  · cases error
    exact absurd (apply_eq_error_iff.mp happly) h
  · exact ⟨value, rfl⟩

theorem apply_div (hy : y ≠ 0) : div.apply x y = .ok (x / y) :=
  if_neg hy

theorem apply_rem (hy : y ≠ 0) : rem.apply x y = .ok (x % y) :=
  if_neg hy

/--
**Division and remainder are consistent, and only a zero divisor is refused.**  An operator
fails just if it divides by zero, and what it computes otherwise is in range.  By another
divisor there are a quotient and a remainder.  The remainder is smaller than the divisor, and
it is zero or has the sign of what is divided.  Multiplied back they give exactly what was
divided, except that the least value divided by `-1` is itself, with no remainder.  And
multiplied back by the operators they give what was divided in that case as well.
-/
theorem quotient_and_remainder (x y : Int64) :
    (∀ op : Operator,
      (op.apply x y = .error .divisionByZero ↔ (op = div ∨ op = rem) ∧ y = 0) ∧
      (¬ ((op = div ∨ op = rem) ∧ y = 0) → ∃ value, op.apply x y = .ok value ∧
        Int64.minValue.toInt ≤ value.toInt ∧ value.toInt ≤ Int64.maxValue.toInt)) ∧
    (y ≠ 0 → ∃ quotient remainder,
      div.apply x y = .ok quotient ∧ rem.apply x y = .ok remainder ∧
      remainder.toInt.natAbs < y.toInt.natAbs ∧
      (remainder = 0 ∨ remainder.toInt.sign = x.toInt.sign) ∧
      (quotient.toInt * y.toInt + remainder.toInt = x.toInt ↔
        ¬ (x = Int64.minValue ∧ y = -1)) ∧
      (x = Int64.minValue ∧ y = -1 → quotient = Int64.minValue ∧ remainder = 0) ∧
      ∃ product, mul.apply quotient y = .ok product ∧ add.apply product remainder = .ok x) := by
  refine ⟨?_, ?_⟩
  · intro op
    refine ⟨apply_eq_error_iff, ?_⟩
    intro h
    obtain ⟨value, hvalue⟩ := exists_apply_eq_ok h
    exact ⟨value, hvalue, value.minValue_le_toInt, value.toInt_le⟩
  · intro hy
    refine ⟨x / y, x % y, apply_div hy, apply_rem hy, natAbs_mod_lt hy, mod_eq_zero_or_sign x y,
      exact_iff, ?_, x / y * y, rfl, ?_⟩
    · intro hleast
      rw [hleast.1, hleast.2]
      decide
    · show Except.ok (x / y * y + x % y) = _
      rw [div_mul_add_mod]

/-- The least value divided by `-1`, where the quotient wraps and is multiplied back all the
same. -/
theorem quotient_and_remainder_least :
    ((-1 : Int64) ≠ 0 ∧ ¬ ((add = div ∨ add = rem) ∧ (-1 : Int64) = 0)) ∧
    ∃ quotient remainder,
      div.apply Int64.minValue (-1) = .ok quotient ∧
      rem.apply Int64.minValue (-1) = .ok remainder ∧
      quotient = Int64.minValue ∧ remainder = 0 ∧
      ∃ product, mul.apply quotient (-1) = .ok product ∧
        add.apply product remainder = .ok Int64.minValue := by
  have hdivisor : (-1 : Int64) ≠ 0 := by decide
  have hadd : ¬ ((add = div ∨ add = rem) ∧ (-1 : Int64) = 0) := by decide
  obtain ⟨-, hdivides⟩ := quotient_and_remainder Int64.minValue (-1)
  obtain ⟨quotient, remainder, hquotient, hremainder, -, -, -, hleast, hback⟩ := hdivides hdivisor
  obtain ⟨hq, hr⟩ := hleast ⟨rfl, rfl⟩
  exact ⟨⟨hdivisor, hadd⟩, quotient, remainder, hquotient, hremainder, hq, hr, hback⟩

end Operator

end Reckon
