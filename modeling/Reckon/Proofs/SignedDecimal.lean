/-
What a decimal number of sixty-four bits is read as.

Three parts of a text decide: a sign, if one is in front, the digits behind it as far as they
go, and what is left (`Parts`).  If the digits alone are out of range, that is the outcome,
whatever is left.  Otherwise nothing may be left, and there has to be a digit.

The parts of a text are there and they are unique, so the reading is told by them in both
directions (`read_eq_iff`).
-/
import Reckon.Proofs.Spelling
import Mathlib.Data.List.TakeWhile

namespace Reckon

theorem head?_dropWhile {p : Char → Bool} (text : List Char) :
    ∀ c ∈ (text.dropWhile p).head?, p c = false := by
  intro c hc
  have hhead := List.head?_dropWhile_not p text
  rw [hc] at hhead
  exact hhead

namespace Decimal

/-- The number with a sign. -/
def signed (negative : Bool) (n : Nat) : Int :=
  if negative then -(n : Int) else n

@[simp] theorem signed_true (n : Nat) : signed true n = -(n : Int) := rfl

@[simp] theorem signed_false (n : Nat) : signed false n = n := rfl

/-- The range of sixty-four bits. -/
def InRange (i : Int) : Prop :=
  Int64.minValue.toInt ≤ i ∧ i ≤ Int64.maxValue.toInt

/-- A sign in front of a text, and what is behind it.  Without one, all of the text is. -/
inductive Signed : List Char → Bool → List Char → Prop
  | plus (behind : List Char) : Signed ('+' :: behind) false behind
  | minus (behind : List Char) : Signed ('-' :: behind) true behind
  | unsigned {text : List Char} (notPlus : text.head? ≠ some '+')
      (notMinus : text.head? ≠ some '-') : Signed text false text

/-- The parts of a text: a sign, all digits that follow it, and what is left. -/
structure Parts (text : List Char) (negative : Bool) (run rest : List Char) : Prop where
  sign : Signed text negative (run ++ rest)
  digits : ∀ c ∈ run, c.isDigit = true
  /-- The run of digits goes on as far as it can. -/
  longest : ∀ c ∈ rest.head?, c.isDigit = false

/-- What there is to read in a text: a value, or why there is none. -/
inductive ReadAs : List Char → Except Error Int64 → Prop
  | empty : ReadAs [] (.error .empty)
  /-- The digits are above the greatest value, whatever is left behind them. -/
  | tooLarge {text run rest : List Char} (parts : Parts text false run rest)
      (above : Int64.maxValue.toInt < signed false (value run)) : ReadAs text (.error .tooLarge)
  /-- With a minus sign they are below the least value. -/
  | tooSmall {text run rest : List Char} (parts : Parts text true run rest)
      (below : signed true (value run) < Int64.minValue.toInt) : ReadAs text (.error .tooSmall)
  /-- The digits are in range, but there are none or something is left behind them. -/
  | invalidDigit {text run rest : List Char} {negative : Bool} (nonempty : text ≠ [])
      (parts : Parts text negative run rest) (inRange : InRange (signed negative (value run)))
      (incomplete : run = [] ∨ rest ≠ []) : ReadAs text (.error .invalidDigit)
  /-- The digits are all there is, and with the sign they write a value. -/
  | number {text run : List Char} {negative : Bool} {n : Int64}
      (parts : Parts text negative run []) (nonempty : run ≠ [])
      (exact : n.toInt = signed negative (value run)) : ReadAs text (.ok n)

/-! ### The parts of a text -/

theorem exists_signed (text : List Char) : ∃ negative behind, Signed text negative behind := by
  by_cases hplus : text.head? = some '+'
  · obtain ⟨behind, rfl⟩ := List.head?_eq_some_iff.mp hplus
    exact ⟨false, behind, .plus behind⟩
  by_cases hminus : text.head? = some '-'
  · obtain ⟨behind, rfl⟩ := List.head?_eq_some_iff.mp hminus
    exact ⟨true, behind, .minus behind⟩
  exact ⟨false, text, .unsigned hplus hminus⟩

theorem exists_parts (text : List Char) : ∃ negative run rest, Parts text negative run rest := by
  obtain ⟨negative, behind, hsign⟩ := exists_signed text
  refine ⟨negative, behind.takeWhile Char.isDigit, behind.dropWhile Char.isDigit, ?_, ?_, ?_⟩
  · rw [List.takeWhile_append_dropWhile]
    exact hsign
  · intro c hc
    exact List.mem_takeWhile_imp hc
  · exact head?_dropWhile behind

theorem read_of_signed {text behind : List Char} {negative : Bool}
    (h : Signed text negative behind) (hne : text ≠ []) :
    read text = readUnsigned negative behind := by
  cases h with
  | plus | minus => rfl
  | unsigned notPlus notMinus =>
      unfold read
      split
      · exact absurd rfl hne
      · exact absurd rfl notPlus
      · exact absurd rfl notMinus
      · rfl

theorem Signed.eq_nil {negative : Bool} {behind : List Char} (h : Signed [] negative behind) :
    behind = [] := by
  cases h
  rfl

/-! ### Reading -/

theorem signed_lt_iff (negative : Bool) (n : Nat) :
    signed negative n < Int64.minValue.toInt ↔ (negative && decide (limit < n)) = true := by
  have hmin : Int64.minValue.toInt = -(limit : Int) := rfl
  cases negative with
  | true =>
      rw [signed_true, hmin, Bool.true_and, decide_eq_true_eq]
      omega
  | false =>
      rw [signed_false, hmin]
      exact iff_of_false (by omega) Bool.false_ne_true

theorem lt_signed_iff (negative : Bool) (n : Nat) :
    Int64.maxValue.toInt < signed negative n ↔ (!negative && decide (limit ≤ n)) = true := by
  have hmax : Int64.maxValue.toInt = (limit : Int) - 1 := rfl
  have hpos : 0 < limit := by decide
  cases negative with
  | true =>
      rw [signed_true, hmax]
      exact iff_of_false (by omega) Bool.false_ne_true
  | false =>
      rw [signed_false, hmax, Bool.not_false, Bool.true_and, decide_eq_true_eq]
      omega

section Parts

variable {text run rest : List Char} {negative : Bool}

theorem Parts.ne_nil (h : Parts text negative run rest) (hrun : run ≠ []) : text ≠ [] := by
  intro hnil
  have hsign := h.sign
  rw [hnil] at hsign
  exact hrun (List.append_eq_nil_iff.mp hsign.eq_nil).1

/-- **The parts of a text decide**: first the range of its digits, then whether they are all. -/
theorem Parts.read_eq (h : Parts text negative run rest) (hne : text ≠ []) :
    read text =
      if signed negative (value run) < Int64.minValue.toInt then .error .tooSmall
      else if Int64.maxValue.toInt < signed negative (value run) then .error .tooLarge
      else if run = [] ∨ rest ≠ [] then .error .invalidDigit
      else .ok (Int64.ofInt (signed negative (value run))) := by
  have hleft : ((run.isEmpty || decide (run.length < (run ++ rest).length)) = true) ↔
      run = [] ∨ rest ≠ [] := by
    simp [List.length_pos_iff]
  rw [read_of_signed h.sign hne, readUnsigned]
  simp only [takeWhile_of_head h.digits h.longest, ← signed_lt_iff, ← lt_signed_iff, hleft]
  rfl

end Parts

theorem inRange_toInt (n : Int64) : InRange n.toInt :=
  ⟨n.minValue_le_toInt, n.toInt_le⟩

theorem toInt_ofInt_of_inRange {i : Int} (h : InRange i) : (Int64.ofInt i).toInt = i := by
  have hmin : Int64.minValue.toInt = -2 ^ 63 := rfl
  have hmax : Int64.maxValue.toInt = 2 ^ 63 - 1 := rfl
  obtain ⟨hleast, hgreatest⟩ := h
  exact Int64.toInt_ofInt_of_le (by omega) (by omega)

/-- No digits write zero, which is in range. -/
theorem ne_nil_of_not_inRange {negative : Bool} {run : List Char}
    (h : ¬ InRange (signed negative (value run))) : run ≠ [] := by
  intro hnil
  subst hnil
  refine h ?_
  cases negative <;> exact ⟨by decide, by decide⟩

theorem ReadAs.read_eq {text : List Char} {outcome : Except Error Int64}
    (h : ReadAs text outcome) : read text = outcome := by
  cases h with
  | empty => rfl
  | tooLarge parts above =>
      have hout := ne_nil_of_not_inRange fun h => absurd above (Int.not_lt.mpr h.2)
      have hleast : Int64.minValue.toInt ≤ Int64.maxValue.toInt := by decide
      rw [parts.read_eq (parts.ne_nil hout),
        if_neg (Int.not_lt.mpr (Int.le_trans hleast (Int.le_of_lt above))), if_pos above]
  | tooSmall parts below =>
      have hout := ne_nil_of_not_inRange fun h => absurd below (Int.not_lt.mpr h.1)
      rw [parts.read_eq (parts.ne_nil hout), if_pos below]
  | invalidDigit nonempty parts inRange incomplete =>
      rw [parts.read_eq nonempty, if_neg (Int.not_lt.mpr inRange.1),
        if_neg (Int.not_lt.mpr inRange.2), if_pos incomplete]
  | @number _ run _ n parts nonempty exact =>
      have hrange := inRange_toInt n
      rw [exact] at hrange
      have hall : ¬ (run = [] ∨ ([] : List Char) ≠ []) := by simp [nonempty]
      rw [parts.read_eq (parts.ne_nil nonempty), if_neg (Int.not_lt.mpr hrange.1),
        if_neg (Int.not_lt.mpr hrange.2), if_neg hall, ← exact, Int64.ofInt_toInt]

theorem exists_readAs (text : List Char) : ∃ outcome, ReadAs text outcome := by
  by_cases hne : text = []
  · subst hne
    exact ⟨_, .empty⟩
  obtain ⟨negative, run, rest, hparts⟩ := exists_parts text
  by_cases hrange : InRange (signed negative (value run))
  · by_cases hincomplete : run = [] ∨ rest ≠ []
    · exact ⟨_, .invalidDigit hne hparts hrange hincomplete⟩
    · obtain ⟨hrun, hrest⟩ := not_or.mp hincomplete
      rw [not_not.mp hrest] at hparts
      exact ⟨_, .number hparts hrun (toInt_ofInt_of_inRange hrange)⟩
  · -- The sign says which end of the range is passed.
    have hmin : Int64.minValue.toInt ≤ 0 := by decide
    have hmax : 0 ≤ Int64.maxValue.toInt := by decide
    cases negative with
    | true =>
        refine ⟨_, .tooSmall hparts ?_⟩
        rw [InRange, signed_true] at hrange
        rw [signed_true]
        omega
    | false =>
        refine ⟨_, .tooLarge hparts ?_⟩
        rw [InRange, signed_false] at hrange
        rw [signed_false]
        omega

/-- **A text is read as what its sign, its digits and what is left behind them say.** -/
theorem read_eq_iff {text : List Char} {outcome : Except Error Int64} :
    read text = outcome ↔ ReadAs text outcome := by
  refine ⟨?_, ReadAs.read_eq⟩
  intro h
  obtain ⟨found, hfound⟩ := exists_readAs text
  rw [← h, hfound.read_eq]
  exact hfound

/-! ### What is written -/

theorem signed_digits (n : Nat) : Signed (digits n) false (digits n) := by
  have hhead : ∀ c, (digits n).head? = some c → c.isDigit = true :=
    fun c hc => isDigit_of_mem_digits (List.mem_of_mem_head? hc)
  refine .unsigned ?_ ?_
  · intro hplus
    exact absurd (hhead _ hplus) (by decide)
  · intro hminus
    exact absurd (hhead _ hminus) (by decide)

/-- **The text of a value is read as the value**, the least one included. -/
theorem readAs_chars (n : Int64) : ReadAs (chars n.toInt) (.ok n) := by
  have hne : digits n.toInt.natAbs ≠ [] := Nat.toDigits_ne_nil
  have hdigits : ∀ c ∈ digits n.toInt.natAbs, c.isDigit = true := fun c => isDigit_of_mem_digits
  by_cases hneg : n.toInt < 0
  · rw [chars, if_pos hneg]
    have hsign : Signed ('-' :: digits n.toInt.natAbs) true (digits n.toInt.natAbs ++ []) := by
      rw [List.append_nil]
      exact .minus _
    refine .number ⟨hsign, hdigits, by simp⟩ hne ?_
    rw [value_digits, signed_true]
    omega
  · rw [chars, if_neg hneg]
    have hsign : Signed (digits n.toInt.natAbs) false (digits n.toInt.natAbs ++ []) := by
      rw [List.append_nil]
      exact signed_digits _
    refine .number ⟨hsign, hdigits, by simp⟩ hne ?_
    rw [value_digits, signed_false]
    omega

end Decimal

end Reckon
