import ForwardChaining.Proofs.Number.Rounding
import ForwardChaining.Term.Atom

/-! # Comparing numbers

Two integers are compared exactly, and an integer with a double after it is rounded. Every
comparison asks for the sign of one difference (`Number.excess`), so among numbers that are no NaN
the five comparisons fit together.

Rounding keeps the order of integers (`Double.orderKey_ofInt_mono`), and this makes being less
transitive. Being no greater is not: different integers beyond `2 ^ 53` can be rounded to one
double, and compare as equal with it and as different with each other. There is no other exception
(`Number.comparisons_fit`). -/

namespace ForwardChaining

/-- Integers are ordered as their difference and zero are. -/
theorem compare_eq_compare_sub (left right : Int) :
    compare left right = compare (left - right) 0 := by
  simp only [Int.compare_eq_ite_lt, sub_neg, sub_pos]

namespace Double

/-! ## Rounded integers -/

/-- Rounding goes no further than to infinity. -/
theorem magnitudeNear_lt_signBit (numerator denominator : Nat) :
    magnitudeNear numerator denominator < signBit :=
  (Nat.min_le_right _ infiniteMagnitude).trans_lt (by decide)

/-- No integer is rounded to a NaN. -/
theorem isNaN_ofInt (value : Int) : (ofInt value).isNaN = false := by
  rw [isNaN, ofInt, ofUnits, magnitude_ofMagnitude _ (magnitudeNear_lt_signBit _ _)]
  exact decide_eq_false (Nat.min_le_right _ infiniteMagnitude).not_gt

/-- The place of a rounded integer among the doubles. -/
theorem orderKey_ofInt (value : Int) :
    (ofInt value).orderKey =
      if value < 0 then -(magnitudeNear (value.natAbs * unitsPerOne) 1 : Int)
      else magnitudeNear (value.natAbs * unitsPerOne) 1 := by
  have bound := magnitudeNear_lt_signBit (value.natAbs * unitsPerOne) 1
  rw [orderKey, ofInt, ofUnits, isNegative_ofMagnitude _ bound, magnitude_ofMagnitude _ bound]
  simp only [decide_eq_true_eq]

/-- **Rounding keeps the order of integers.** -/
theorem orderKey_ofInt_mono {lesser greater : Int} (atMost : lesser ≤ greater) :
    (ofInt lesser).orderKey ≤ (ofInt greater).orderKey := by
  have mono : ∀ {first second : Nat}, first ≤ second →
      magnitudeNear (first * unitsPerOne) 1 ≤ magnitudeNear (second * unitsPerOne) 1 :=
    fun atMost => magnitudeNear_mono Nat.one_pos (Nat.mul_le_mul_right _ atMost)
  simp only [orderKey_ofInt]
  split
  · split
    · -- Of two negative integers the lesser one has the greater magnitude.
      have := mono (show greater.natAbs ≤ lesser.natAbs by omega)
      omega
    · omega
  · split
    · omega
    · have := mono (show lesser.natAbs ≤ greater.natAbs by omega)
      omega

/-- A number of at most fifty-three binary digits is the value of a finite magnitude. -/
theorem exists_unitsOfMagnitude {value : Nat} (small : value ≤ 2 ^ 53) :
    ∃ magnitude < infiniteMagnitude, unitsOfMagnitude magnitude = value * unitsPerOne := by
  rcases Nat.eq_zero_or_pos value with rfl | positive
  · exact ⟨0, by decide, by rw [Nat.zero_mul, unitsOfMagnitude_eq_zero_iff]⟩
  -- The digits are moved up until they fill a binade.
  obtain ⟨digits, enough, lower, upper⟩ : ∃ digits ≤ 52,
      2 ^ digits ≤ value ∧ value ≤ 2 ^ (digits + 1) := by
    by_cases full : value < 2 ^ 53
    · have nonzero : value ≠ 0 := positive.ne'
      have := (Nat.log2_lt nonzero).mpr full
      exact ⟨value.log2, by omega, Nat.log2_self_le nonzero, Nat.lt_log2_self.le⟩
    · exact ⟨52, le_rfl, by omega, by omega⟩
  have power : binade = 2 ^ digits * 2 ^ (52 - digits) := by
    rw [← pow_add, Nat.add_sub_cancel' enough]
    rfl
  have atLeast : binade ≤ value * 2 ^ (52 - digits) := by
    rw [power]
    exact Nat.mul_le_mul_right _ lower
  have atMost : value * 2 ^ (52 - digits) ≤ 2 * binade := by
    rw [power, ← Nat.mul_assoc, ← Nat.pow_succ']
    exact Nat.mul_le_mul_right _ upper
  refine ⟨(1022 + digits) * binade + value * 2 ^ (52 - digits), ?_, ?_⟩
  · have infinite : infiniteMagnitude = 2047 * binade := rfl
    have shifts := Nat.mul_le_mul_right binade (show 1022 + digits ≤ 1074 by omega)
    have one : 0 < binade := by decide
    omega
  · rw [unitsOfMagnitude_shift (.inr atLeast) atMost, Nat.mul_assoc, ← pow_add, unitsPerOne,
      Nat.one_shiftLeft]
    congr 2
    omega

/-- Rounding does not change an integer of at most fifty-three binary digits. -/
theorem unitsOfMagnitude_magnitudeNear {value : Nat} (small : value ≤ 2 ^ 53) :
    unitsOfMagnitude (magnitudeNear (value * unitsPerOne) 1) = value * unitsPerOne := by
  obtain ⟨magnitude, finite, worth⟩ := exists_unitsOfMagnitude small
  have nearest := nearest_self magnitude Nat.one_pos
  rw [Nat.mul_one, worth] at nearest
  rw [magnitudeNear_of_nearest Nat.one_pos nearest finite, worth]

/-- **Integers of at most fifty-three binary digits are told apart** after rounding. -/
theorem eq_of_orderKey_ofInt {left right : Int} (leftSmall : left.natAbs ≤ 2 ^ 53)
    (rightSmall : right.natAbs ≤ 2 ^ 53)
    (same : (ofInt left).orderKey = (ofInt right).orderKey) : left = right := by
  have injective : ∀ first ≤ 2 ^ 53, ∀ second ≤ 2 ^ 53,
      magnitudeNear (first * unitsPerOne) 1 = magnitudeNear (second * unitsPerOne) 1 →
        first = second := by
    intro first firstSmall second secondSmall equal
    have worth := congrArg unitsOfMagnitude equal
    rw [unitsOfMagnitude_magnitudeNear firstSmall, unitsOfMagnitude_magnitudeNear secondSmall]
      at worth
    exact Nat.eq_of_mul_eq_mul_right unitsPerOne_pos worth
  have zero : magnitudeNear (0 * unitsPerOne) 1 = 0 := by
    rw [← unitsOfMagnitude_eq_zero_iff, unitsOfMagnitude_magnitudeNear (Nat.zero_le _),
      Nat.zero_mul]
  have leftZero := injective left.natAbs leftSmall 0 (Nat.zero_le _)
  have rightZero := injective right.natAbs rightSmall 0 (Nat.zero_le _)
  have bothSame := injective left.natAbs leftSmall right.natAbs rightSmall
  rw [zero] at leftZero rightZero
  rw [orderKey_ofInt, orderKey_ofInt] at same
  -- Magnitudes with different signs agree only at zero.
  split at same <;> split at same <;> omega

end Double

/-- The comparison that asks the same of exchanged operands. -/
def Comparison.exchange : Comparison → Comparison
  | .equal => .equal
  | .greater => .less
  | .greaterOrEqual => .lessOrEqual
  | .less => .greater
  | .lessOrEqual => .greaterOrEqual

/-- Exchanged comparisons hold of exchanged orders. -/
theorem Comparison.holds_exchange (comparison : Comparison) (value : Int) :
    comparison.exchange.holds (compare (-value) 0) = comparison.holds (compare value 0) := by
  rcases Int.lt_trichotomy value 0 with less | rfl | greater
  · rw [Int.compare_eq_lt.mpr less, Int.compare_eq_gt.mpr (by omega)]
    cases comparison <;> rfl
  · cases comparison <;> rfl
  · rw [Int.compare_eq_gt.mpr greater, Int.compare_eq_lt.mpr (by omega)]
    cases comparison <;> rfl

namespace Number

/-! ## The difference that is compared -/

/-- Whether the number is a NaN. -/
def isNaN : Number → Bool
  | .int _ => false
  | .double value => value.isNaN

/-- By how much the left one of two numbers is the greater, exactly for two integers, and otherwise
counted in doubles that lie between them. -/
def excess : Number → Number → Int
  | .int left, .int right => left.toInt - right.toInt
  | left, right => left.toDouble.orderKey - right.toDouble.orderKey

/-- Whether a comparison of two numbers is answered with yes. -/
def Compares (left : Number) (comparison : Comparison) (right : Number) : Prop :=
  Atom.compare? comparison (.number left) (.number right) = some true

instance (left : Number) (comparison : Comparison) (right : Number) :
    Decidable (left.Compares comparison right) :=
  inferInstanceAs (Decidable (_ = _))

variable {left middle right : Number}

/-- A number is rounded to a NaN only if it is one. -/
@[simp] theorem isNaN_toDouble (number : Number) : number.toDouble.isNaN = number.isNaN := by
  cases number with
  | int value => exact Double.isNaN_ofInt value.toInt
  | double value => rfl

/-- No number differs from itself. -/
theorem excess_self (number : Number) : number.excess number = 0 := by
  cases number <;> simp [excess]

/-- Exchanging the operands changes the sign of their difference. -/
theorem excess_comm (left right : Number) : right.excess left = -left.excess right := by
  cases left <;> cases right <;> simp [excess]

/-- Two numbers have an order when none is a NaN: that of their difference and zero. -/
theorem order?_eq (left right : Number) :
    left.order? right =
      if left.isNaN || right.isNaN then none else some (compare (left.excess right) 0) := by
  have inDoubles : left.toDouble.order? right.toDouble =
      if left.isNaN || right.isNaN then none
      else some (compare (left.toDouble.orderKey - right.toDouble.orderKey) 0) := by
    rw [Double.order?, isNaN_toDouble, isNaN_toDouble, compare_eq_compare_sub]
  match left, right with
  | .int first, .int second => exact congrArg some (compare_eq_compare_sub first.toInt second.toInt)
  | .int _, .double _ | .double _, .int _ | .double _, .double _ => exact inDoubles

/-- **Numbers are compared by the sign of their difference.** -/
theorem compare?_eq (leftNumber : ¬ left.isNaN) (rightNumber : ¬ right.isNaN)
    (comparison : Comparison) :
    Atom.compare? comparison (.number left) (.number right) =
      some (comparison.holds (compare (left.excess right) 0)) := by
  rw [Atom.compare?, Atom.order?, order?_eq, if_neg (by simp [leftNumber, rightNumber])]
  rfl

section

variable (leftNumber : ¬ left.isNaN) (rightNumber : ¬ right.isNaN)

include leftNumber rightNumber

/-- A comparison is answered by the sign of the difference. -/
theorem compares_iff (comparison : Comparison) :
    left.Compares comparison right ↔ comparison.holds (compare (left.excess right) 0) := by
  rw [Compares, compare?_eq leftNumber rightNumber, Option.some_inj]

/-- Numbers without a difference are equal. -/
theorem compares_equal_iff : left.Compares .equal right ↔ left.excess right = 0 := by
  simp [compares_iff leftNumber rightNumber, Comparison.holds]

/-- The greater number has a positive difference. -/
theorem compares_greater_iff : left.Compares .greater right ↔ 0 < left.excess right := by
  simp [compares_iff leftNumber rightNumber, Comparison.holds, Int.compare_eq_gt]

/-- The lesser number has a negative difference. -/
theorem compares_less_iff : left.Compares .less right ↔ left.excess right < 0 := by
  simp [compares_iff leftNumber rightNumber, Comparison.holds, Int.compare_eq_lt]

/-- A number that is no less has no negative difference. -/
theorem compares_greaterOrEqual_iff :
    left.Compares .greaterOrEqual right ↔ 0 ≤ left.excess right := by
  simp [compares_iff leftNumber rightNumber, Comparison.holds, Int.compare_eq_lt]

/-- A number that is no greater has no positive difference. -/
theorem compares_lessOrEqual_iff : left.Compares .lessOrEqual right ↔ left.excess right ≤ 0 := by
  simp [compares_iff leftNumber rightNumber, Comparison.holds, Int.compare_eq_gt]

/-- **Of two numbers exactly one of less, equal and greater holds.** -/
theorem existsUnique_compares :
    ∃! comparison, comparison ∈ [.less, .equal, .greater] ∧ left.Compares comparison right := by
  simp only [compares_iff leftNumber rightNumber]
  generalize compare (left.excess right) 0 = order
  cases order with
  | lt => exact ⟨.less, by decide, by rintro (_ | _ | _ | _ | _) <;> decide⟩
  | eq => exact ⟨.equal, by decide, by rintro (_ | _ | _ | _ | _) <;> decide⟩
  | gt => exact ⟨.greater, by decide, by rintro (_ | _ | _ | _ | _) <;> decide⟩

/-- Exchanged operands answer the exchanged comparison. -/
theorem compare?_exchange (comparison : Comparison) :
    Atom.compare? comparison.exchange (.number right) (.number left) =
      Atom.compare? comparison (.number left) (.number right) := by
  rw [compare?_eq leftNumber rightNumber, compare?_eq rightNumber leftNumber, excess_comm,
    comparison.holds_exchange]

end

/-! ## Transitivity -/

/-- A number that is no greater than another one is rounded to no greater double. -/
theorem orderKey_le_of_excess_nonpos (atMost : left.excess right ≤ 0) :
    left.toDouble.orderKey ≤ right.toDouble.orderKey := by
  match left, right with
  | .int first, .int second => exact Double.orderKey_ofInt_mono (sub_nonpos.mp atMost)
  | .int _, .double _ | .double _, .int _ | .double _, .double _ => exact sub_nonpos.mp atMost

/-- Only integers can differ that are rounded to one double. -/
theorem exists_int_of_orderKey_eq (different : left.excess right ≠ 0)
    (same : left.toDouble.orderKey = right.toDouble.orderKey) :
    ∃ first second, left = .int first ∧ right = .int second := by
  match left, right with
  | .int first, .int second => exact ⟨first, second, rfl, rfl⟩
  | .int _, .double _ | .double _, .int _ | .double _, .double _ =>
    exact absurd (sub_eq_zero.mpr same) different

/-- Numbers that ascend, and where the first one is no less than the last, are all rounded to one
double. -/
theorem orderKey_eq_of_excess (first : left.excess middle ≤ 0) (second : middle.excess right ≤ 0)
    (back : 0 ≤ left.excess right) :
    left.toDouble.orderKey = middle.toDouble.orderKey ∧
      middle.toDouble.orderKey = right.toDouble.orderKey := by
  have ascends := orderKey_le_of_excess_nonpos first
  have goesOn := orderKey_le_of_excess_nonpos second
  have returns : right.toDouble.orderKey ≤ left.toDouble.orderKey := by
    apply orderKey_le_of_excess_nonpos
    rw [excess_comm]
    omega
  omega

/-- **Being less is transitive**, whatever the numbers are rounded to. -/
theorem excess_neg_trans (first : left.excess middle < 0) (second : middle.excess right < 0) :
    left.excess right < 0 := by
  by_contra notLess
  -- All three are rounded to one double, so they are integers, which are compared exactly.
  obtain ⟨leftKey, rightKey⟩ := orderKey_eq_of_excess first.le second.le (not_lt.mp notLess)
  obtain ⟨least, between, rfl, rfl⟩ := exists_int_of_orderKey_eq first.ne leftKey
  obtain ⟨-, greatest, -, rfl⟩ := exists_int_of_orderKey_eq second.ne rightKey
  simp only [excess] at first second notLess
  omega

/-- Two different integers and a double between them that both are rounded to. -/
def Merged (first middle last : Number) : Prop :=
  ∃ (greater lesser : Int64) (between : Double),
    first = .int greater ∧ middle = .double between ∧ last = .int lesser ∧
      lesser.toInt < greater.toInt ∧ first.Compares .equal middle ∧ middle.Compares .equal last ∧
      (2 ^ 53 < greater.toInt ∨ lesser.toInt < -2 ^ 53)

/-- **Being no greater is transitive but for merged integers.** -/
theorem excess_nonpos_trans_iff (leftNumber : ¬ left.isNaN) (middleNumber : ¬ middle.isNaN)
    (rightNumber : ¬ right.isNaN) (first : left.excess middle ≤ 0)
    (second : middle.excess right ≤ 0) :
    left.excess right ≤ 0 ↔ ¬ Merged left middle right := by
  constructor
  · rintro atMost ⟨greater, lesser, between, rfl, rfl, rfl, less, -⟩
    simp only [excess] at atMost
    omega
  · intro notMerged
    by_contra greater
    obtain ⟨leftKey, rightKey⟩ := orderKey_eq_of_excess first second (by omega)
    obtain ⟨great, less, rfl, rfl⟩ := exists_int_of_orderKey_eq (by omega) (leftKey.trans rightKey)
    simp only [excess] at greater
    cases middle with
    | int between =>
      simp only [excess] at first second
      omega
    | double between =>
      refine notMerged ⟨great, less, between, rfl, rfl, rfl, by omega, ?_, ?_, ?_⟩
      · exact (compares_equal_iff leftNumber middleNumber).mpr (sub_eq_zero.mpr leftKey)
      · exact (compares_equal_iff middleNumber rightNumber).mpr (sub_eq_zero.mpr rightKey)
      · -- Closer to zero the two would be told apart.
        by_contra small
        have equal : great.toInt = less.toInt :=
          Double.eq_of_orderKey_ofInt (by omega) (by omega) (leftKey.trans rightKey)
        omega

/-- **The comparisons of numbers fit together.** Every comparison has an answer, exactly one of
less, equal and greater holds, the other two are the negations of greater and less, and operands can
be exchanged. Being less is transitive. Being no greater is transitive as well, except from one to
the other of two integers that are merged by a double between them, and so is being equal. -/
theorem comparisons_fit {first second third : Number} (firstNumber : ¬ first.isNaN)
    (secondNumber : ¬ second.isNaN) (thirdNumber : ¬ third.isNaN) :
    (∀ comparison, ∃ answer,
        Atom.compare? comparison (.number first) (.number second) = some answer) ∧
      (∃! comparison, comparison ∈ [.less, .equal, .greater] ∧ first.Compares comparison second) ∧
      (first.Compares .lessOrEqual second ↔ ¬ first.Compares .greater second) ∧
      (first.Compares .greaterOrEqual second ↔ ¬ first.Compares .less second) ∧
      (∀ comparison : Comparison,
        Atom.compare? comparison.exchange (.number second) (.number first) =
          Atom.compare? comparison (.number first) (.number second)) ∧
      (first.Compares .less second → second.Compares .less third → first.Compares .less third) ∧
      (first.Compares .lessOrEqual second → second.Compares .lessOrEqual third →
        (first.Compares .lessOrEqual third ↔ ¬ Merged first second third)) ∧
      (first.Compares .equal second → second.Compares .equal third →
        (first.Compares .equal third ↔
          ¬ Merged first second third ∧ ¬ Merged third second first)) := by
  refine ⟨fun comparison => ⟨_, compare?_eq firstNumber secondNumber comparison⟩,
    existsUnique_compares firstNumber secondNumber, ?_, ?_,
    compare?_exchange firstNumber secondNumber, ?_, ?_, ?_⟩
  · rw [compares_lessOrEqual_iff firstNumber secondNumber,
      compares_greater_iff firstNumber secondNumber, not_lt]
  · rw [compares_greaterOrEqual_iff firstNumber secondNumber,
      compares_less_iff firstNumber secondNumber, not_lt]
  · rw [compares_less_iff firstNumber secondNumber, compares_less_iff secondNumber thirdNumber,
      compares_less_iff firstNumber thirdNumber]
    exact excess_neg_trans
  · rw [compares_lessOrEqual_iff firstNumber secondNumber,
      compares_lessOrEqual_iff secondNumber thirdNumber,
      compares_lessOrEqual_iff firstNumber thirdNumber]
    exact excess_nonpos_trans_iff firstNumber secondNumber thirdNumber
  · rw [compares_equal_iff firstNumber secondNumber, compares_equal_iff secondNumber thirdNumber,
      compares_equal_iff firstNumber thirdNumber]
    intro left right
    have forth := excess_nonpos_trans_iff firstNumber secondNumber thirdNumber left.le right.le
    have back := excess_nonpos_trans_iff thirdNumber secondNumber firstNumber
      (by rw [excess_comm]; omega) (by rw [excess_comm]; omega)
    rw [excess_comm first third] at back
    rw [← forth, ← back]
    omega

/-- An integer, a double half above it and the greatest integer ascend. -/
theorem comparisons_fit_ascending :
    (int 3).Compares .less (.double ⟨0x400c000000000000⟩) ∧
      (double ⟨0x400c000000000000⟩).Compares .less (.int 9223372036854775807) ∧
      (int 3).Compares .less (.int 9223372036854775807) := by
  have low : (int 3).Compares .less (.double ⟨0x400c000000000000⟩) := by decide +kernel
  have high : (double ⟨0x400c000000000000⟩).Compares .less (.int 9223372036854775807) := by
    decide +kernel
  have lowNumber : ¬ (int 3).isNaN := by decide
  have betweenNumber : ¬ (double ⟨0x400c000000000000⟩).isNaN := by decide
  have highNumber : ¬ (int 9223372036854775807).isNaN := by decide
  obtain ⟨-, -, -, -, -, less, -⟩ := comparisons_fit lowNumber betweenNumber highNumber
  exact ⟨low, high, less low high⟩

/-- `2 ^ 53 + 1` is no greater than the double `2 ^ 53`, and this no greater than the integer
`2 ^ 53`, which is less than `2 ^ 53 + 1`. -/
theorem lessOrEqual_not_transitive :
    (int 9007199254740993).Compares .lessOrEqual (.double ⟨0x4340000000000000⟩) ∧
      (double ⟨0x4340000000000000⟩).Compares .lessOrEqual (.int 9007199254740992) ∧
      ¬ (int 9007199254740993).Compares .lessOrEqual (.int 9007199254740992) := by
  decide +kernel

end Number

end ForwardChaining
