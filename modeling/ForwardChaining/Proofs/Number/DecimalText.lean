import ForwardChaining.Proofs.Number.Rounding
import Mathlib.Data.List.TakeWhile

/-! # Decimal texts of doubles

A finite double is written as digits, a point and more digits after its sign
(`Double.exists_unsignedDigits`), and these read as a decimal that rounds to it
(`Double.exists_text`): either as its exact value, or as one that the search for the shortest
decimal has found between the midpoints to its neighbours. -/

namespace ForwardChaining

/-! ## Digits -/

/-- The digits of a number are digits. -/
theorem isDigit_of_mem_toDigits (value : Nat) : ∀ char ∈ Nat.toDigits 10 value, char.isDigit :=
  fun _ => Nat.isDigit_of_mem_toDigits (by decide) (by decide)

/-- The digits of a number have its value. -/
@[simp] theorem digitsValue_toDigits (value : Nat) : digitsValue (Nat.toDigits 10 value) = value :=
  Nat.ofDigitChars_ten_toDigits

/-- Digits before others count for as many tens. -/
theorem digitsValue_append (first second : List Char) :
    digitsValue (first ++ second) =
      10 ^ second.length * digitsValue first + digitsValue second := by
  rw [digitsValue, Nat.ofDigitChars_append, Nat.ofDigitChars_eq_ofDigitChars_zero]
  rfl

/-- Padding adds digits. -/
theorem isDigit_of_mem_paddedDigits (width value : Nat) :
    ∀ char ∈ paddedDigits width value, char.isDigit := by
  intro char member
  rcases List.mem_append.mp member with padding | inDigits
  · rw [List.eq_of_mem_replicate padding]
    decide
  · exact isDigit_of_mem_toDigits value char inDigits

/-- Padding does not change the value. -/
@[simp] theorem digitsValue_paddedDigits (width value : Nat) :
    digitsValue (paddedDigits width value) = value := by
  rw [paddedDigits, digitsValue_append, digitsValue_toDigits]
  simp [digitsValue]

/-- What fits in a width is padded to it. -/
theorem length_paddedDigits {width value : Nat} (positive : 0 < width) (fits : value < 10 ^ width) :
    (paddedDigits width value).length = width := by
  have short : (Nat.toDigits 10 value).length ≤ width :=
    (Nat.length_toDigits_le_iff (by decide) positive).mpr fits
  simp [paddedDigits, short]

/-! ## Numerals with a point -/

/-- A minus sign in front of some characters, or none. -/
def signed (negative : Bool) (unsigned : List Char) : List Char :=
  if negative then '-' :: unsigned else unsigned

/-- Whether a digit is in front of all other characters. -/
def StartsWithDigit (unsigned : List Char) : Prop :=
  ∃ first rest, unsigned = first :: rest ∧ first.isDigit

/-- Digits start with a digit, whatever follows them. -/
theorem startsWithDigit_append {digits : List Char} (nonempty : digits ≠ [])
    (areDigits : ∀ char ∈ digits, char.isDigit) (rest : List Char) :
    StartsWithDigit (digits ++ rest) := by
  obtain ⟨first, others, rfl⟩ := List.exists_cons_of_ne_nil nonempty
  exact ⟨first, others ++ rest, rfl, areDigits first List.mem_cons_self⟩

/-- The sign is taken off again from what starts with a digit. -/
theorem splitSign_signed (negative : Bool) {unsigned : List Char}
    (starts : StartsWithDigit unsigned) :
    splitSign (signed negative unsigned) = (negative, unsigned) := by
  obtain ⟨first, rest, rfl, digit⟩ := starts
  cases negative with
  | true => rfl
  | false =>
    show splitSign (first :: rest) = (false, first :: rest)
    unfold splitSign
    split
    · next equal =>
      cases equal
      cases digit
    · next equal =>
      cases equal
      cases digit
    · rfl

/-- Characters that are digits, a point and digits. -/
structure Pointed (unsigned whole fraction : List Char) : Prop where
  /-- The point is between the digits. -/
  eq_append : unsigned = whole ++ '.' :: fraction
  /-- There are digits before it. -/
  nonempty : whole ≠ []
  /-- There are only digits before it. -/
  wholeDigits : ∀ char ∈ whole, char.isDigit
  /-- There are only digits after it. -/
  fractionDigits : ∀ char ∈ fraction, char.isDigit

/-- A digit is in front. -/
theorem Pointed.startsWithDigit {unsigned whole fraction : List Char}
    (pointed : Pointed unsigned whole fraction) : StartsWithDigit unsigned := by
  rw [pointed.eq_append]
  exact startsWithDigit_append pointed.nonempty pointed.wholeDigits _

namespace Decimal

/-- Digits, a point and digits are a numeral without an exponent. -/
theorem ofChars?_point (negative : Bool) {unsigned whole fraction : List Char}
    (pointed : Pointed unsigned whole fraction) :
    ofChars? (signed negative unsigned) =
      some ⟨negative, digitsValue (whole ++ fraction), -(fraction.length : Int)⟩ := by
  have point : ¬ '.'.isDigit := by decide
  have inWhole := pointed.wholeDigits
  have inFraction := pointed.fractionDigits
  rw [ofChars?, splitSign_signed negative pointed.startsWithDigit, pointed.eq_append]
  simp only [List.takeWhile_append_of_pos inWhole, List.dropWhile_append_of_pos inWhole,
    List.takeWhile_cons_of_neg point, List.dropWhile_cons_of_neg point, List.append_nil]
  rw [List.takeWhile_eq_self_iff.mpr inFraction, List.dropWhile_eq_nil_iff.mpr inFraction,
    if_neg (by simp [pointed.nonempty])]
  simp [exponentOf?]

/-- What is too small to have its power of ten computed is nearest to zero. -/
theorem nearest_zero {coefficient places : Nat} (small : 400 + coefficient.log2 < places) :
    Double.Nearest 0 (coefficient * Double.unitsPerOne) (10 ^ places) := by
  -- Three binary digits for each place are more than the coefficient and the units have together.
  have scaled : ∀ shift : Nat, 2 * (2 ^ (coefficient.log2 + 1) * 1 <<< shift) =
      2 ^ (coefficient.log2 + 2 + shift) := by
    intro shift
    rw [Nat.one_shiftLeft]
    ring
  have bound : 2 * (coefficient * Double.unitsPerOne) < 10 ^ places :=
    calc 2 * (coefficient * Double.unitsPerOne)
        < 2 * (2 ^ (coefficient.log2 + 1) * Double.unitsPerOne) := by
          have := Nat.mul_lt_mul_of_pos_right (Nat.lt_log2_self (n := coefficient))
            Double.unitsPerOne_pos
          omega
      _ = 2 ^ (coefficient.log2 + 2 + 1074) := scaled 1074
      _ ≤ 2 ^ (3 * places) := Nat.pow_le_pow_right Nat.two_pos (by omega)
      _ = 8 ^ places := by rw [pow_mul]; rfl
      _ ≤ 10 ^ places := Nat.pow_le_pow_left (by decide) places
  have one : Double.unitsOfMagnitude 1 = 1 := rfl
  have zero : Double.unitsOfMagnitude 0 = 0 := rfl
  refine ⟨?_, ?_, fun _ => rfl⟩
  · simp [zero]
  · simp only [Nat.zero_add, zero, one]
    omega

/-- **A decimal is read as the double that it is nearest to**, if that is finite. -/
theorem toDouble_of_nearest {number : Double} {coefficient places : Nat} (positive : 0 < places)
    (finite : number.isFinite)
    (nearest : Double.Nearest number.magnitude (coefficient * Double.unitsPerOne) (10 ^ places)) :
    toDouble ⟨number.isNegative, coefficient, -(places : Int)⟩ = number := by
  have scale : 0 < 10 ^ places := Nat.pow_pos (by decide)
  have ofZero : number.magnitude = 0 → .zero number.isNegative = number := by
    intro zero
    rw [Double.zero, ← zero, Double.ofMagnitude_isNegative_magnitude]
  unfold toDouble
  dsimp only
  rw [Int.neg_neg, Int.toNat_natCast]
  split
  · next noDigits =>
    have exact := Double.nearest_self 0 scale
    rw [Double.unitsOfMagnitude_eq_zero_iff.mpr rfl, Nat.zero_mul] at exact
    rw [noDigits, Nat.zero_mul] at nearest
    exact ofZero (nearest.unique scale exact)
  · rw [if_neg (by omega)]
    -- The power of ten is left uncomputed only where the result is zero anyway.
    split
    · next small => exact ofZero (nearest.unique scale (nearest_zero small))
    · exact Double.ofUnits_of_nearest scale nearest finite

end Decimal

namespace Double

/-! ## The shortest decimal -/

/-- A decimal found for a number of places is read as the double. -/
theorem nearest_of_decimalWith? {magnitude places decimal : Nat}
    (found : decimalWith? magnitude places = some decimal) :
    Nearest magnitude (decimal * unitsPerOne) (10 ^ places) := by
  rw [decimalWith?] at found
  split at found
  · next below above =>
    split at found
    · cases found
      exact isNearest_iff.mp below
    · cases found
      exact isNearest_iff.mp above
  · next below _ =>
    cases found
    exact isNearest_iff.mp below
  · next _ above =>
    cases found
    exact isNearest_iff.mp above
  · cases found

/-- With as many places as there are binary ones the decimal is exact. -/
theorem nearest_exact (magnitude : Nat) {places : Nat} (enough : 1074 ≤ places) :
    Nearest magnitude (unitsOfMagnitude magnitude * 10 ^ places / unitsPerOne * unitsPerOne)
      (10 ^ places) := by
  have divides : ∀ shift ≤ places, 1 <<< shift ∣ 10 ^ places := by
    intro shift fewer
    rw [Nat.one_shiftLeft]
    exact (pow_dvd_pow 2 fewer).trans (pow_dvd_pow_of_dvd (by decide : 2 ∣ 10) places)
  have whole : unitsPerOne ∣ unitsOfMagnitude magnitude * 10 ^ places :=
    (divides 1074 enough).mul_left _
  rw [Nat.div_mul_cancel whole]
  exact nearest_self magnitude (Nat.pow_pos (by decide))

/-- **The shortest decimal is read as the double.** -/
theorem nearest_shortestDecimal (magnitude : Nat) {remaining places : Nat}
    (enough : remaining + places = 1074) :
    places ≤ (shortestDecimal magnitude remaining places).1 ∧
      Nearest magnitude ((shortestDecimal magnitude remaining places).2 * unitsPerOne)
        (10 ^ (shortestDecimal magnitude remaining places).1) := by
  induction remaining generalizing places with
  -- The search stops where the exact decimal has room.
  | zero => exact ⟨Nat.le_refl _, nearest_exact magnitude (by omega)⟩
  | succ remaining ih =>
    rw [shortestDecimal]
    split
    · next decimal found => exact ⟨Nat.le_refl _, nearest_of_decimalWith? found⟩
    · have further := ih (show remaining + (places + 1) = 1074 by omega)
      exact ⟨by omega, further.2⟩

/-! ## Texts -/

/-- A zero after the point has a whole number counted in tenths. -/
theorem digitsValue_of_isWhole {number : Double} (isWhole : number.isWhole) :
    digitsValue (Nat.toDigits 10 (number.units / unitsPerOne) ++ ['0']) * unitsPerOne =
      number.units * 10 := by
  have zero : digitsValue ['0'] = 0 := rfl
  have exact : number.units / unitsPerOne * unitsPerOne = number.units :=
    Nat.div_mul_cancel (Nat.dvd_of_mod_eq_zero (of_decide_eq_true isWhole))
  rw [digitsValue_append, digitsValue_toDigits, zero, List.length_singleton]
  calc (10 ^ 1 * (number.units / unitsPerOne) + 0) * unitsPerOne
      = number.units / unitsPerOne * unitsPerOne * 10 := by ring
    _ = number.units * 10 := by rw [exact]

/-- **The text of a finite double without its sign is digits, a point and digits**, and the double
is nearest to the decimal that they make up. -/
theorem exists_unsignedDigits (number : Double) :
    ∃ whole fraction, Pointed number.unsignedDigits whole fraction ∧ 0 < fraction.length ∧
      Nearest number.magnitude (digitsValue (whole ++ fraction) * unitsPerOne)
        (10 ^ fraction.length) := by
  rw [unsignedDigits]
  by_cases isWhole : number.isWhole
  · rw [if_pos isWhole]
    have zeroDigit : ∀ char ∈ ['0'], char.isDigit := List.forall_mem_cons.mpr ⟨rfl, nofun⟩
    refine ⟨_, ['0'], ⟨rfl, Nat.toDigits_ne_nil, isDigit_of_mem_toDigits _, zeroDigit⟩,
      Nat.one_pos, ?_⟩
    rw [digitsValue_of_isWhole isWhole]
    exact nearest_self number.magnitude (by decide)
  · rw [if_neg isWhole]
    obtain ⟨positive, nearest⟩ :=
      nearest_shortestDecimal number.magnitude (show 1073 + 1 = 1074 by omega)
    generalize shortestDecimal number.magnitude 1073 1 = shortest at positive nearest ⊢
    obtain ⟨places, decimal⟩ := shortest
    -- The digits after the point are the last ones of the decimal, zeros in front of them included.
    have fits : decimal % 10 ^ places < 10 ^ places := Nat.mod_lt _ (Nat.pow_pos (by decide))
    have width : (paddedDigits places (decimal % 10 ^ places)).length = places :=
      length_paddedDigits positive fits
    refine ⟨Nat.toDigits 10 (decimal / 10 ^ places), paddedDigits places (decimal % 10 ^ places),
      ⟨rfl, Nat.toDigits_ne_nil, isDigit_of_mem_toDigits _, isDigit_of_mem_paddedDigits _ _⟩,
      ?_, ?_⟩
    · rw [width]
      exact positive
    · rw [digitsValue_append, width, digitsValue_toDigits, digitsValue_paddedDigits,
        Nat.div_add_mod]
      exact nearest

/-- **The text of a finite double is a sign, digits, a point and digits**, and reads as the
double. -/
theorem exists_text {number : Double} (finite : number.isFinite) :
    ∃ unsigned whole fraction, number.text.toList = signed number.isNegative unsigned ∧
      Pointed unsigned whole fraction ∧
      Decimal.toDouble ⟨number.isNegative, digitsValue (whole ++ fraction),
        -(fraction.length : Int)⟩ = number := by
  obtain ⟨whole, fraction, pointed, places, nearest⟩ := number.exists_unsignedDigits
  refine ⟨_, whole, fraction, ?_, pointed, Decimal.toDouble_of_nearest places finite nearest⟩
  have magnitude : number.magnitude < infiniteMagnitude := of_decide_eq_true finite
  have notNaN : ¬ number.isNaN := by simp [isNaN, magnitude.le]
  have notInfinite : ¬ number.isInfinite := by simp [isInfinite, magnitude.ne]
  rw [text, if_neg notNaN, if_neg notInfinite, signed]
  split <;> simp

/-- The double `-1.5` has the text `-1.5`. -/
example : (Double.mk 0xbff8000000000000).text = "-1.5" := by decide +kernel

end Double

end ForwardChaining
