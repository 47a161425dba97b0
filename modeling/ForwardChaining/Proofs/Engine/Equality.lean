import ForwardChaining.Engine.Primitive
import ForwardChaining.Proofs.Number.Comparison

/-! # Equality of values

Equality compares two numbers by value and any other two values by structure. Where it has an
answer, a value is equal to itself and the operands can be exchanged.

It has an answer for all values but two numbers of which one is a NaN
(`Value.equality_answers_iff`). These are a type mismatch, also where the two are the same, and
arithmetic makes such numbers. -/

namespace ForwardChaining

namespace Value

variable {left right : Value}

/-- Two numbers of which one is a NaN. -/
def HaveNaN (left right : Value) : Prop :=
  ∃ first second, left.number? = some first ∧ right.number? = some second ∧
    (first.isNaN ∨ second.isNaN)

/-- It does not matter which of the two numbers comes first. -/
theorem HaveNaN.symm (haveNaN : left.HaveNaN right) : right.HaveNaN left := by
  obtain ⟨first, second, isFirst, isSecond, isNaN⟩ := haveNaN
  exact ⟨second, first, isSecond, isFirst, isNaN.symm⟩

/-- Two numbers are equal when they have no difference, and a mismatch when one is a NaN. -/
theorem compareValues_equal_of_numbers (name : String) {first second : Number}
    (isFirst : left.number? = some first) (isSecond : right.number? = some second) :
    Comparison.equal.compareValues name left right =
      if first.isNaN || second.isNaN then .error (.typeMismatch name left right)
      else .ok (first.excess second = 0) := by
  simp only [Comparison.compareValues, isFirst, isSecond, Number.order?_eq]
  by_cases isNaN : first.isNaN || second.isNaN
  · simp only [if_pos isNaN]
  · simp only [if_neg isNaN, Comparison.holds, compare_eq_iff_eq]

/-- Any other values are equal when they are the same. -/
theorem compareValues_equal_of_not (name : String)
    (other : left.number? = none ∨ right.number? = none) :
    Comparison.equal.compareValues name left right = .ok (left = right) := by
  rw [Comparison.compareValues]
  split
  · next isFirst isSecond => simp [isFirst, isSecond] at other
  · rw [if_pos rfl]

/-- A NaN is a mismatch with every number. -/
theorem HaveNaN.compareValues_equal (haveNaN : left.HaveNaN right) (name : String) :
    Comparison.equal.compareValues name left right = .error (.typeMismatch name left right) := by
  obtain ⟨first, second, isFirst, isSecond, isNaN⟩ := haveNaN
  rw [compareValues_equal_of_numbers name isFirst isSecond, if_pos (by simpa using isNaN)]

/-- **Equality has an answer** where no NaN meets a number, the same in both orders, and a value is
equal to itself. -/
theorem exists_compareValues_equal (name : String) (noNaN : ¬ left.HaveNaN right) :
    ∃ answer, Comparison.equal.compareValues name left right = .ok answer ∧
      Comparison.equal.compareValues name right left = .ok answer ∧
      (left = right → answer = true) := by
  by_cases other : left.number? = none ∨ right.number? = none
  · refine ⟨left = right, compareValues_equal_of_not name other, ?_, decide_eq_true⟩
    rw [compareValues_equal_of_not name other.symm]
    simp only [eq_comm]
  · obtain ⟨isLeft, isRight⟩ := not_or.mp other
    obtain ⟨first, isFirst⟩ := Option.ne_none_iff_exists'.mp isLeft
    obtain ⟨second, isSecond⟩ := Option.ne_none_iff_exists'.mp isRight
    have numbers : ¬ (first.isNaN ∨ second.isNaN) :=
      fun isNaN => noNaN ⟨first, second, isFirst, isSecond, isNaN⟩
    refine ⟨first.excess second = 0, ?_, ?_, ?_⟩
    · rw [compareValues_equal_of_numbers name isFirst isSecond, if_neg (by simpa using numbers)]
    · rw [compareValues_equal_of_numbers name isSecond isFirst,
        if_neg (by simpa [and_comm] using numbers), Number.excess_comm]
      simp only [Int.neg_eq_zero]
    · rintro rfl
      obtain rfl : first = second := Option.some.inj (isFirst.symm.trans isSecond)
      exact decide_eq_true first.excess_self

/-- **Equality is total, reflexive and symmetric** under both of its names, except that it is a type
mismatch between two numbers of which one is a NaN. -/
theorem equality_answers_iff (left right : Value) {name : String} (named : name ∈ ["=", "eql"]) :
    ∃ primitive, Primitive.ofName? name = some primitive ∧
      ((∃ answer, primitive.apply name [left, right] = .ok (.bool answer) ∧
          primitive.apply name [right, left] = .ok (.bool answer) ∧
          (left = right → answer = true)) ↔
        ¬ left.HaveNaN right) ∧
      (left.HaveNaN right →
        primitive.apply name [left, right] = .error (.typeMismatch name left right) ∧
          primitive.apply name [right, left] = .error (.typeMismatch name right left)) := by
  have isEquality : Primitive.ofName? name = some (.comparison .equal) := by
    rcases List.mem_cons.mp named with rfl | second
    · rfl
    · rw [List.mem_singleton.mp second]
      rfl
  refine ⟨.comparison .equal, isEquality, ⟨?_, fun noNaN => ?_⟩, fun haveNaN => ?_⟩
  · rintro ⟨answer, answered, -, -⟩ haveNaN
    rw [Primitive.apply, haveNaN.compareValues_equal] at answered
    cases answered
  · obtain ⟨answer, forth, back, same⟩ := exists_compareValues_equal name noNaN
    refine ⟨answer, ?_, ?_, same⟩
    · rw [Primitive.apply, forth]
      rfl
    · rw [Primitive.apply, back]
      rfl
  · refine ⟨?_, ?_⟩
    · rw [Primitive.apply, haveNaN.compareValues_equal]
      rfl
    · rw [Primitive.apply, haveNaN.symm.compareValues_equal]
      rfl

/-- A list of a NaN is equal to itself, because it is compared by structure. -/
theorem equality_answers_iff_list :
    let holder : Value := .term (.list [.atom (.number (.double .nan))])
    "eql" ∈ ["=", "eql"] ∧ ∃ primitive, Primitive.ofName? "eql" = some primitive ∧
      primitive.apply "eql" [holder, holder] = .ok (.bool true) := by
  intro holder
  have named : "eql" ∈ ["=", "eql"] := by decide
  obtain ⟨primitive, isPrimitive, answers, -⟩ := equality_answers_iff holder holder named
  have noNaN : ¬ holder.HaveNaN holder := by
    rintro ⟨first, -, isFirst, -⟩
    cases isFirst
  obtain ⟨answer, answered, -, same⟩ := answers.mpr noNaN
  exact ⟨named, primitive, isPrimitive, same rfl ▸ answered⟩

/-- Ten times `1e308` is infinite, the difference of infinities is a NaN, and it is not even equal
to itself. -/
theorem equality_mismatch_nan :
    let infinite : Number := .double (.infinity false)
    let nan : Value := .ofNumber (.double .nan)
    Arithmetic.mul.compute "*" (.double ⟨0x7fe1ccf385ebc8a0⟩) (.int 10) = .ok infinite ∧
      (Primitive.arithmetic .sub).apply "-" [.ofNumber infinite, .ofNumber infinite] = .ok nan ∧
      (Primitive.comparison .equal).apply "=" [nan, nan] =
        .error (.typeMismatch "=" nan nan) := by
  decide +kernel

end Value

end ForwardChaining
