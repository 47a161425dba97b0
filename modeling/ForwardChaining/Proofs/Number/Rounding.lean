import ForwardChaining.Number.Decimal
import Mathlib.Order.Monotone.Basic
import Mathlib.Tactic.Linarith
import Mathlib.Tactic.Ring

/-! # Rounding to the nearest double

A magnitude is nearest to a ratio when the ratio lies between the midpoints to the neighbours of the
magnitude, and on a midpoint only if the magnitude is even (`Nearest`). Every ratio has at most one
nearest magnitude (`Nearest.unique`), as values ascend with magnitudes, and rounding finds it
(`magnitudeNear_of_nearest`). Hence rounding keeps the order of ratios (`magnitudeNear_mono`). -/

namespace ForwardChaining

namespace Double

/-! ## Values of magnitudes -/

/-- The value of a magnitude whose exponent bits say to shift some binary digits. The digits may
also be those of the next binade, which begins with the same value. -/
theorem unitsOfMagnitude_shift {shift digits : Nat} (lower : shift = 0 ∨ binade ≤ digits)
    (upper : digits ≤ 2 * binade) :
    unitsOfMagnitude (shift * binade + digits) = digits * 2 ^ shift := by
  have positive : 0 < binade := by decide
  rw [unitsOfMagnitude]
  by_cases subnormal : digits < binade
  · have unshifted : shift = 0 := by omega
    simp [unshifted, subnormal]
  · have normal : ¬ shift * binade + digits < binade := by
      have := Nat.zero_le (shift * binade)
      omega
    rw [if_neg normal, Nat.shiftLeft_eq]
    rcases Nat.lt_or_eq_of_le upper with inside | next
    · have quotient : (shift * binade + digits) / binade = shift + 1 :=
        Nat.div_eq_of_lt_le (by linarith) (by linarith)
      have remainder : (shift * binade + digits) % binade = digits - binade := by
        rw [Nat.mul_add_mod', Nat.mod_eq_sub_mod (by omega), Nat.mod_eq_of_lt (by omega)]
      rw [quotient, remainder, Nat.add_sub_cancel, Nat.add_sub_cancel' (by omega)]
    · -- Twice as many digits are those that the next binade begins with, shifted once more.
      have total : shift * binade + digits = (shift + 2) * binade := by
        rw [next]
        ring
      rw [total, Nat.mul_div_cancel _ positive, Nat.mul_mod_left, next]
      have one : shift + 2 - 1 = shift + 1 := rfl
      rw [one]
      ring

/-- Every magnitude shifts some binary digits. -/
theorem exists_shift (magnitude : Nat) :
    ∃ shift digits, magnitude = shift * binade + digits ∧ (shift = 0 ∨ binade ≤ digits) ∧
      digits < 2 * binade := by
  unfold binade
  by_cases subnormal : magnitude < 0x10000000000000
  · exact ⟨0, magnitude, by omega⟩
  · exact ⟨magnitude / 0x10000000000000 - 1,
      0x10000000000000 + magnitude % 0x10000000000000, by omega⟩

/-- **A greater magnitude has a greater value.** -/
theorem unitsOfMagnitude_strictMono : StrictMono unitsOfMagnitude := by
  refine strictMono_nat_of_lt_succ fun magnitude => ?_
  obtain ⟨shift, digits, rfl, lower, upper⟩ := exists_shift magnitude
  -- The next magnitude has the same shift, in the sense in which a binade includes its end.
  have next : shift = 0 ∨ binade ≤ digits + 1 := by omega
  rw [Nat.add_assoc, unitsOfMagnitude_shift lower upper.le, unitsOfMagnitude_shift next upper]
  exact Nat.mul_lt_mul_of_pos_right digits.lt_succ_self (Nat.two_pow_pos shift)

/-- Only the magnitude zero has the value zero. -/
theorem unitsOfMagnitude_eq_zero_iff {magnitude : Nat} :
    unitsOfMagnitude magnitude = 0 ↔ magnitude = 0 :=
  unitsOfMagnitude_strictMono.injective.eq_iff' rfl

/-- There are units in one. -/
theorem unitsPerOne_pos : 0 < unitsPerOne := by
  rw [unitsPerOne, Nat.one_shiftLeft]
  positivity

/-! ## The nearest magnitude -/

/-- A magnitude is nearest to `numerator / denominator` units. -/
structure Nearest (magnitude numerator denominator : Nat) : Prop where
  /-- The ratio is not below the midpoint to the magnitude before. -/
  lower : (unitsOfMagnitude (magnitude - 1) + unitsOfMagnitude magnitude) * denominator ≤
    2 * numerator
  /-- The ratio is not above the midpoint to the next magnitude. -/
  upper : 2 * numerator ≤
    (unitsOfMagnitude magnitude + unitsOfMagnitude (magnitude + 1)) * denominator
  /-- A midpoint goes to the even magnitude. -/
  tie : 2 * numerator =
      (unitsOfMagnitude (magnitude - 1) + unitsOfMagnitude magnitude) * denominator ∨
    2 * numerator =
      (unitsOfMagnitude magnitude + unitsOfMagnitude (magnitude + 1)) * denominator →
    magnitude % 2 = 0

variable {magnitude numerator denominator : Nat}

/-- A magnitude below another one is not nearest to a ratio that is no less. -/
theorem Nearest.not_lt {other lesser : Nat} (positive : 0 < denominator)
    (atMost : lesser ≤ numerator) (nearest : Nearest magnitude numerator denominator)
    (otherNearest : Nearest other lesser denominator) : ¬ magnitude < other := by
  intro below
  have mono := unitsOfMagnitude_strictMono.monotone
  have first : unitsOfMagnitude magnitude ≤ unitsOfMagnitude (other - 1) := mono (by omega)
  have second : unitsOfMagnitude (magnitude + 1) ≤ unitsOfMagnitude other := mono (by omega)
  -- The midpoint above the lesser one is not above the midpoint below the greater one, and the
  -- ratios are on both, so they are the same and both magnitudes are even.
  have midpoints := Nat.mul_le_mul_right denominator (Nat.add_le_add first second)
  have upper := nearest.upper
  have lower := otherNearest.lower
  have even := nearest.tie (.inr (by omega))
  have otherEven := otherNearest.tie (.inl (by omega))
  have equal : unitsOfMagnitude magnitude + unitsOfMagnitude (magnitude + 1) =
      unitsOfMagnitude (other - 1) + unitsOfMagnitude other :=
    Nat.eq_of_mul_eq_mul_right positive (by omega)
  -- But they are neighbours.
  have adjacent : magnitude + 1 = other := unitsOfMagnitude_strictMono.injective (by omega)
  omega

/-- **At most one magnitude is nearest to a ratio.** -/
theorem Nearest.unique {other : Nat} (positive : 0 < denominator)
    (nearest : Nearest magnitude numerator denominator)
    (otherNearest : Nearest other numerator denominator) : magnitude = other :=
  Nat.le_antisymm (Nat.le_of_not_lt (otherNearest.not_lt positive le_rfl nearest))
    (Nat.le_of_not_lt (nearest.not_lt positive le_rfl otherNearest))

/-- A magnitude is nearest to its own value. -/
theorem nearest_self (magnitude : Nat) (positive : 0 < denominator) :
    Nearest magnitude (unitsOfMagnitude magnitude * denominator) denominator := by
  have before : unitsOfMagnitude (magnitude - 1) ≤ unitsOfMagnitude magnitude :=
    unitsOfMagnitude_strictMono.monotone (by omega)
  have after : unitsOfMagnitude magnitude < unitsOfMagnitude (magnitude + 1) :=
    unitsOfMagnitude_strictMono magnitude.lt_succ_self
  have double : 2 * (unitsOfMagnitude magnitude * denominator) =
      (unitsOfMagnitude magnitude + unitsOfMagnitude magnitude) * denominator := by ring
  refine ⟨?_, ?_, ?_⟩
  · rw [double]
    exact Nat.mul_le_mul_right denominator (by omega)
  · rw [double]
    exact Nat.mul_le_mul_right denominator (by omega)
  · rw [double]
    rintro (equal | equal)
    · -- Only zero is no greater than the magnitude before it.
      have same := Nat.eq_of_mul_eq_mul_right positive equal
      have first : magnitude - 1 = magnitude := unitsOfMagnitude_strictMono.injective (by omega)
      omega
    · have same := Nat.eq_of_mul_eq_mul_right positive equal
      omega

/-- The test of decimals is that of `Nearest`. -/
theorem isNearest_iff : isNearest magnitude numerator denominator ↔
    Nearest magnitude (numerator * unitsPerOne) denominator := by
  rw [isNearest, Nat.mul_assoc]
  constructor
  · intro near
    split at near
    · next even =>
      simp only [Bool.and_eq_true, decide_eq_true_eq] at near
      exact ⟨near.1, near.2, fun _ => even⟩
    · simp only [Bool.and_eq_true, decide_eq_true_eq] at near
      exact ⟨near.1.le, near.2.le, fun tie => by omega⟩
  · intro near
    have lower := near.lower
    have upper := near.upper
    have tie := near.tie
    split
    · simpa using ⟨lower, upper⟩
    · simp only [Bool.and_eq_true, decide_eq_true_eq]
      omega

/-! ## Rounding -/

/-- Rounding goes down from below the half and up from above it, and at the half to the even one of
the two. -/
theorem roundHalfEven_cases (numerator : Nat) (positive : 0 < denominator) :
    ∃ quotient excess, numerator = quotient * denominator + excess ∧ excess < denominator ∧
      (2 * excess = denominator → roundHalfEven numerator denominator % 2 = 0) ∧
      (roundHalfEven numerator denominator = quotient ∧ 2 * excess ≤ denominator ∨
        roundHalfEven numerator denominator = quotient + 1 ∧ denominator ≤ 2 * excess) := by
  refine ⟨numerator / denominator, numerator % denominator,
    (Nat.div_add_mod' numerator denominator).symm, Nat.mod_lt numerator positive, ?_⟩
  rw [roundHalfEven]
  split_ifs <;> omega

/-- Rounding is at most a half downward. -/
theorem le_roundHalfEven (numerator : Nat) (positive : 0 < denominator) :
    2 * numerator ≤ (2 * roundHalfEven numerator denominator + 1) * denominator := by
  obtain ⟨quotient, excess, total, bound, -, down | up⟩ := roundHalfEven_cases numerator positive
  · rw [down.1]
    linarith
  · rw [up.1]
    linarith

/-- Rounding is at most a half upward. -/
theorem roundHalfEven_le (numerator : Nat) (positive : 0 < denominator) :
    2 * roundHalfEven numerator denominator * denominator ≤ 2 * numerator + denominator := by
  obtain ⟨quotient, excess, total, -, -, down | up⟩ := roundHalfEven_cases numerator positive
  · rw [down.1]
    linarith
  · rw [up.1]
    linarith

/-- A half is rounded to an even number. -/
theorem roundHalfEven_even (numerator : Nat) (positive : 0 < denominator)
    (half : 2 * numerator = (2 * roundHalfEven numerator denominator + 1) * denominator ∨
      2 * roundHalfEven numerator denominator * denominator = 2 * numerator + denominator) :
    roundHalfEven numerator denominator % 2 = 0 := by
  obtain ⟨quotient, excess, total, bound, even, down | up⟩ :=
    roundHalfEven_cases numerator positive
  · rw [down.1] at half
    exact even (by rcases half with half | half <;> linarith)
  · rw [up.1] at half
    exact even (by rcases half with half | half <;> linarith)

/-- The midpoint to the next magnitude is at least a half further. -/
theorem add_half_le {shift digits : Nat} (lower : shift = 0 ∨ binade ≤ digits)
    (upper : digits ≤ 2 * binade) :
    (2 * digits + 1) * 2 ^ shift ≤
      unitsOfMagnitude (shift * binade + digits) +
        unitsOfMagnitude (shift * binade + digits + 1) := by
  rw [unitsOfMagnitude_shift lower upper]
  rcases Nat.lt_or_eq_of_le upper with inside | next
  · have next : digits + 1 ≤ 2 * binade := inside
    rw [Nat.add_assoc, unitsOfMagnitude_shift (by omega) next]
    exact Nat.le_of_eq (by ring)
  · -- The next magnitude is in the next binade, where magnitudes are twice as far apart.
    have regroup : shift * binade + digits + 1 = (shift + 1) * binade + (binade + 1) := by
      rw [next]
      ring
    rw [regroup, unitsOfMagnitude_shift (by omega) (by decide), next, pow_succ]
    have := Nat.two_pow_pos shift
    nlinarith

/-- The midpoint to the magnitude before is a half nearer, unless that is in the binade before. -/
theorem before_add_half {shift digits : Nat} (lower : shift = 0 ∨ binade < digits)
    (upper : digits ≤ 2 * binade) (positive : 0 < digits) :
    unitsOfMagnitude (shift * binade + digits - 1) + unitsOfMagnitude (shift * binade + digits) +
      2 ^ shift = 2 * digits * 2 ^ shift := by
  obtain ⟨before, rfl⟩ : ∃ before, digits = before + 1 := ⟨digits - 1, by omega⟩
  rw [← Nat.add_assoc, Nat.add_sub_cancel, Nat.add_assoc (shift * binade),
    unitsOfMagnitude_shift (by omega) (by omega), unitsOfMagnitude_shift (by omega) upper]
  ring

/-- The digits that are left of a ratio after a shift stay in their binade when they are rounded, or
start the next one. -/
theorem roundHalfEven_bounds {shift scale : Nat} (positive : 0 < scale)
    (lower : shift = 0 ∨ binade * scale ≤ numerator) (upper : numerator < 2 * binade * scale) :
    (shift = 0 ∨ binade ≤ roundHalfEven numerator scale) ∧
      roundHalfEven numerator scale ≤ 2 * binade := by
  have down := le_roundHalfEven numerator positive
  have up := roundHalfEven_le numerator positive
  generalize roundHalfEven numerator scale = digits at down up ⊢
  constructor
  · refine lower.imp_right fun normal => ?_
    have bound : 2 * binade * scale ≤ (2 * digits + 1) * scale := by linarith
    have := Nat.le_of_mul_le_mul_right bound positive
    omega
  · have bound : 2 * digits * scale < (4 * binade + 1) * scale := by linarith
    have := Nat.lt_of_mul_lt_mul_right bound
    omega

/-- Rounding the digits that are left of a ratio after a shift gives the nearest magnitude, when
these are as many as the digits of a binade, or fewer without a shift. -/
theorem nearest_roundHalfEven {shift : Nat} (positive : 0 < denominator)
    (lower : shift = 0 ∨ binade * (denominator * 2 ^ shift) ≤ numerator)
    (upper : numerator < 2 * binade * (denominator * 2 ^ shift)) :
    Nearest (shift * binade + roundHalfEven numerator (denominator * 2 ^ shift)) numerator
      denominator := by
  have scaled : 0 < denominator * 2 ^ shift := Nat.mul_pos positive (Nat.two_pow_pos shift)
  obtain ⟨atLeast, atMost⟩ := roundHalfEven_bounds scaled lower upper
  have down := le_roundHalfEven numerator scaled
  have up := roundHalfEven_le numerator scaled
  have even := roundHalfEven_even numerator scaled
  generalize roundHalfEven numerator (denominator * 2 ^ shift) = digits at *
  have parity : digits % 2 = 0 → (shift * binade + digits) % 2 = 0 := by
    unfold binade
    omega
  -- Rounding moves a ratio by a half at most, and the midpoints are as far away.
  have above := Nat.mul_le_mul_right denominator (add_half_le atLeast atMost)
  by_cases inside : 0 < digits ∧ (shift = 0 ∨ binade < digits)
  · have below := congrArg (· * denominator) (before_add_half inside.2 atMost inside.1)
    refine ⟨by linarith, by linarith, fun tie => parity (even ?_)⟩
    rcases tie with tie | tie
    · right
      linarith
    · left
      linarith
  · -- Zero and the first magnitude of a binade are even, and the ratio is not below them.
    have digitsEven : digits % 2 = 0 := by
      have : digits = 0 ∨ digits = binade := by omega
      unfold binade at this
      omega
    have notBelow : digits * (denominator * 2 ^ shift) ≤ numerator := by
      have : digits = 0 ∨ digits = binade ∧ shift ≠ 0 := by omega
      rcases this with rfl | ⟨rfl, shifted⟩
      · omega
      · exact lower.resolve_left shifted
    have before : unitsOfMagnitude (shift * binade + digits - 1) ≤ digits * 2 ^ shift := by
      rw [← unitsOfMagnitude_shift atLeast atMost]
      exact unitsOfMagnitude_strictMono.monotone (Nat.sub_le _ 1)
    refine ⟨?_, by linarith, fun _ => parity digitsEven⟩
    rw [unitsOfMagnitude_shift atLeast atMost]
    have := Nat.mul_le_mul_right denominator before
    linarith

/-- Fifty-three binary digits of a ratio are left after the shift, or fewer without one. -/
theorem shift_bounds (numerator : Nat) (positive : 0 < denominator) {shift : Nat}
    (shifts : (numerator / denominator).log2 - 52 = shift) :
    (shift = 0 ∨ binade * (denominator * 2 ^ shift) ≤ numerator) ∧
      numerator < 2 * binade * (denominator * 2 ^ shift) := by
  have power : binade = 2 ^ 52 := by decide
  constructor
  · refine (Nat.eq_zero_or_pos shift).imp_right fun shifted => ?_
    have nonzero : numerator / denominator ≠ 0 := by
      intro zero
      rw [zero, Nat.log2_zero] at shifts
      omega
    have bound := (Nat.le_log2 nonzero).mp (show 52 + shift ≤ _ by omega)
    calc binade * (denominator * 2 ^ shift) = 2 ^ (52 + shift) * denominator := by
          rw [power, pow_add]
          ring
      _ ≤ numerator := (Nat.le_div_iff_mul_le positive).mp bound
  · have bound : numerator / denominator < 2 ^ (53 + shift) :=
      Nat.lt_log2_self.trans_le (Nat.pow_le_pow_right Nat.two_pos (by omega))
    calc numerator < 2 ^ (53 + shift) * denominator := (Nat.div_lt_iff_lt_mul positive).mp bound
      _ = 2 * binade * (denominator * 2 ^ shift) := by
          rw [power, pow_add]
          ring

/-- Every ratio has a nearest magnitude, which rounding finds up to that of the infinities. -/
theorem exists_nearest (numerator : Nat) (positive : 0 < denominator) :
    ∃ magnitude, Nearest magnitude numerator denominator ∧
      magnitudeNear numerator denominator = min magnitude infiniteMagnitude := by
  rw [magnitudeNear]
  generalize shifts : (numerator / denominator).log2 - 52 = shift
  obtain ⟨lower, upper⟩ := shift_bounds numerator positive shifts
  rw [Nat.shiftLeft_eq]
  exact ⟨_, nearest_roundHalfEven positive lower upper, rfl⟩

/-- **Rounding finds the nearest magnitude**, if it is finite. -/
theorem magnitudeNear_of_nearest (positive : 0 < denominator)
    (nearest : Nearest magnitude numerator denominator) (finite : magnitude < infiniteMagnitude) :
    magnitudeNear numerator denominator = magnitude := by
  obtain ⟨found, foundNearest, rounds⟩ := exists_nearest numerator positive
  rw [rounds, foundNearest.unique positive nearest]
  exact Nat.min_eq_left finite.le

/-- **Rounding keeps the order of ratios.** -/
theorem magnitudeNear_mono {lesser : Nat} (positive : 0 < denominator)
    (atMost : lesser ≤ numerator) :
    magnitudeNear lesser denominator ≤ magnitudeNear numerator denominator := by
  obtain ⟨low, lowNearest, lowRounds⟩ := exists_nearest lesser positive
  obtain ⟨high, highNearest, highRounds⟩ := exists_nearest numerator positive
  have ordered : low ≤ high := Nat.le_of_not_lt (highNearest.not_lt positive atMost lowNearest)
  rw [lowRounds, highRounds]
  exact min_le_min_right infiniteMagnitude ordered

/-- A finite double is what the ratios nearest to it are rounded to. -/
theorem ofUnits_of_nearest {number : Double} (positive : 0 < denominator)
    (nearest : Nearest number.magnitude numerator denominator) (finite : number.isFinite) :
    ofUnits number.isNegative numerator denominator = number := by
  rw [ofUnits, magnitudeNear_of_nearest positive nearest (of_decide_eq_true finite),
    ofMagnitude_isNegative_magnitude]

end Double

end ForwardChaining
