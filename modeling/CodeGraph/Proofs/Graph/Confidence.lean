import CodeGraph.Graph.Edge
import Mathlib.Algebra.Order.Field.Power
import Mathlib.Algebra.Order.Ring.Rat
import Mathlib.Order.Compare
import Mathlib.Order.WithBot
import Mathlib.Tactic.Linarith
import Mathlib.Tactic.NormNum
import Mathlib.Tactic.Ring

namespace CodeGraph.Confidence

open Float.Model Float.Model.UnpackedFloat

/-! The values of doubles.  The comparison of two doubles, by their exponents and then by their
mantissas, is that of their values, as every mantissa is as long as it can be. -/

/-- Rational numbers with both infinities, and below them what is not a number. -/
abbrev Value := WithBot (WithBot (WithTop ℚ))

def finiteValue (value : ℚ) : Value :=
  ((value : WithTop ℚ) : WithBot (WithTop ℚ))

section

variable (value other : ℚ)

@[simp] theorem finiteValue_lt : finiteValue value < finiteValue other ↔ value < other := by
  simp [finiteValue]

@[simp] theorem finiteValue_le : finiteValue value ≤ finiteValue other ↔ value ≤ other := by
  simp [finiteValue]

@[simp] theorem infinite_lt_finiteValue :
    ((⊥ : WithBot (WithTop ℚ)) : Value) < finiteValue value :=
  WithBot.coe_lt_coe.mpr (WithBot.bot_lt_coe _)

@[simp] theorem finiteValue_lt_top : finiteValue value < ⊤ :=
  WithBot.coe_lt_coe.mpr (WithBot.coe_lt_coe.mpr (WithTop.coe_lt_top value))

@[simp] theorem finiteValue_ne_bot : finiteValue value ≠ ⊥ :=
  WithBot.coe_ne_bot

end

def valueOfParts : UnpackedFloat → Value
  | .notANumber => ⊥
  | .infinity .negative => ((⊥ : WithBot (WithTop ℚ)) : Value)
  | .infinity .positive => ⊤
  | .zero _ => finiteValue 0
  | .finite .negative mantissa exponent _ => finiteValue (-(mantissa * 2 ^ exponent))
  | .finite .positive mantissa exponent _ => finiteValue (mantissa * 2 ^ exponent)

def valueOf (x : Float) : Value :=
  valueOfParts x.toModel.unpack

theorem valueOfParts_eq_bot {parts : UnpackedFloat} (hbot : valueOfParts parts = ⊥) :
    parts = .notANumber := by
  rcases parts with ⟨_ | _⟩ | _ | _ | ⟨_ | _, mantissa, exponent, hpositive⟩
  case notANumber => rfl
  all_goals exact absurd hbot WithBot.coe_ne_bot

/-! Mantissas -/

/-- The mantissa has all its bits, unless the exponent is the least one. -/
def HasFullMantissa : UnpackedFloat → Prop
  | .finite _ mantissa exponent _ =>
      mantissa < 2 ^ 53 ∧ -1074 ≤ exponent ∧ (exponent = -1074 ∨ 2 ^ 52 ≤ mantissa)
  | _ => True

theorem toNat_one_append (mantissa : BitVec 52) :
    (1#1 ++ mantissa).toNat = 2 ^ 52 + mantissa.toNat := by
  rw [BitVec.toNat_append, ← Nat.shiftLeft_add_eq_or_of_lt mantissa.isLt]
  rfl

/-- The kinds of doubles, by the bits of the exponent and of the mantissa. -/
theorem unpack_cases {motive : UnpackedFloat → Prop} (x : Float.Model)
    (hinfinity : ∀ sign, motive (.infinity sign))
    (hnan : @unpackExponent .binary64 x.toBits.toBitVec = -1#11 →
      @unpackMantissa .binary64 x.toBits.toBitVec ≠ 0#52 → motive .notANumber)
    (hzero : ∀ sign, motive (.zero sign))
    (hfinite : ∀ sign mantissa exponent hpositive,
      HasFullMantissa (.finite sign mantissa exponent hpositive) →
        motive (.finite sign mantissa exponent hpositive)) :
    motive x.unpack := by
  unfold Float.Model.unpack UnpackedFloat.unpack
  dsimp only
  have hbias : Format.binary64.exponentBias = 1023 := by decide
  have hmantissa : (@unpackMantissa .binary64 x.toBits.toBitVec).toNat < 2 ^ 52 :=
    BitVec.isLt _
  by_cases hlast : @unpackExponent .binary64 x.toBits.toBitVec = -1#11
  · rw [if_pos hlast]
    by_cases hempty : @unpackMantissa .binary64 x.toBits.toBitVec = 0#52
    · rw [if_pos hempty]
      exact hinfinity _
    · rw [if_neg hempty]
      exact hnan hlast hempty
  · rw [if_neg hlast]
    by_cases hleast : @unpackExponent .binary64 x.toBits.toBitVec = 0#11
    · rw [if_pos hleast]
      by_cases hempty : @unpackMantissa .binary64 x.toBits.toBitVec = 0#52
      · rw [dif_pos hempty]
        exact hzero _
      · rw [dif_neg hempty]
        refine hfinite _ _ _ _ ⟨by omega, ?_, .inl ?_⟩ <;> rw [hleast, hbias] <;> decide
    · rw [if_neg hleast]
      have hpositive : 0 < (@unpackExponent .binary64 x.toBits.toBitVec).toNat :=
        Nat.pos_of_ne_zero fun hnone => hleast (BitVec.eq_of_toNat_eq hnone)
      have hlength := toNat_one_append (@unpackMantissa .binary64 x.toBits.toBitVec)
      refine hfinite _ _ _ _ ⟨?_, ?_, .inr ?_⟩
      · omega
      · rw [hbias]
        omega
      · omega

theorem hasFullMantissa_unpack (x : Float.Model) : HasFullMantissa x.unpack :=
  unpack_cases x (fun _ => trivial) (fun _ _ => trivial) (fun _ => trivial)
    (fun _ _ _ _ hfull => hfull)

/-! Comparing -/

theorem then_eq_lt_iff {mantissa other : Nat} {exponent power : Int} :
    (compare exponent power).then (compare mantissa other) = .lt ↔
      exponent < power ∨ exponent = power ∧ mantissa < other := by
  rw [Ordering.then_eq_lt, compare_lt_iff_lt, compare_eq_iff_eq, compare_lt_iff_lt]

theorem then_eq_gt_iff {mantissa other : Nat} {exponent power : Int} :
    (compare exponent power).then (compare mantissa other) = .gt ↔
      power < exponent ∨ power = exponent ∧ other < mantissa := by
  rw [Ordering.then_eq_gt, compare_gt_iff_gt, compare_eq_iff_eq, compare_gt_iff_gt,
    eq_comm (a := exponent)]

theorem size_lt_of_exponent_lt {mantissa other : Nat} {exponent power : Int}
    (hmantissa : mantissa < 2 ^ 53) (hother : 2 ^ 52 ≤ other) (hlt : exponent < power) :
    (mantissa : ℚ) * 2 ^ exponent < other * 2 ^ power := by
  calc (mantissa : ℚ) * 2 ^ exponent
      < 2 ^ 53 * 2 ^ exponent := by
        refine mul_lt_mul_of_pos_right ?_ (zpow_pos two_pos exponent)
        exact_mod_cast hmantissa
    _ = 2 ^ 52 * 2 ^ (exponent + 1) := by
        rw [zpow_add_one₀ two_ne_zero]
        ring
    _ ≤ other * 2 ^ power := by
        refine mul_le_mul ?_ (zpow_le_zpow_right₀ one_le_two hlt) (zpow_pos two_pos _).le
          (Nat.cast_nonneg other)
        exact_mod_cast hother

theorem sizes_lt_iff {mantissa other : Nat} {exponent power : Int}
    (hmantissa : mantissa < 2 ^ 53) (hother : other < 2 ^ 53)
    (hfull : exponent = -1074 ∨ 2 ^ 52 ≤ mantissa) (hfull' : power = -1074 ∨ 2 ^ 52 ≤ other)
    (hleast : -1074 ≤ exponent) (hleast' : -1074 ≤ power) :
    exponent < power ∨ exponent = power ∧ mantissa < other ↔
      (mantissa : ℚ) * 2 ^ exponent < other * 2 ^ power := by
  rcases lt_trichotomy exponent power with hlt | rfl | hgt
  · have hbits : 2 ^ 52 ≤ other := hfull'.resolve_left (by omega)
    exact iff_of_true (.inl hlt) (size_lt_of_exponent_lt hmantissa hbits hlt)
  · rw [mul_lt_mul_iff_left₀ (zpow_pos two_pos exponent), Nat.cast_lt]
    simp
  · have hbits : 2 ^ 52 ≤ mantissa := hfull.resolve_left (by omega)
    exact iff_of_false (by omega) (size_lt_of_exponent_lt hother hbits hgt).le.not_gt

theorem size_pos {mantissa : Nat} (hpositive : 0 < mantissa) (exponent : Int) :
    (0 : ℚ) < mantissa * 2 ^ exponent :=
  mul_pos (Nat.cast_pos.mpr hpositive) (zpow_pos two_pos exponent)

theorem lt_iff_valueOfParts_lt {first other : UnpackedFloat} (hfirst : HasFullMantissa first)
    (hother : HasFullMantissa other) (hnumber : first ≠ .notANumber) :
    first.lt other = true ↔ valueOfParts first < valueOfParts other := by
  -- infinities and unequal signs are decided by the kinds alone
  rcases first with ⟨_ | _⟩ | _ | sign | ⟨_ | _, mantissa, exponent, hpositive⟩ <;>
    rcases other with ⟨_ | _⟩ | _ | sign' | ⟨_ | _, mantissa', exponent', hpositive'⟩ <;>
    first
    | exact absurd rfl hnumber
    | dsimp only [UnpackedFloat.lt, UnpackedFloat.compare, valueOfParts]
      simp
  case infinity.negative.infinity.positive =>
    exact iff_of_true rfl (WithBot.coe_lt_coe.mpr bot_lt_top)
  case zero.finite.negative => exact (size_pos hpositive' exponent').le
  case zero.finite.positive => exact size_pos hpositive' exponent'
  case finite.negative.zero => exact size_pos hpositive exponent
  case finite.negative.finite.negative =>
    obtain ⟨hbits, hleast, hfull⟩ := hfirst
    obtain ⟨hbits', hleast', hfull'⟩ := hother
    rw [then_eq_gt_iff, sizes_lt_iff hbits' hbits hfull' hfull hleast' hleast]
  case finite.negative.finite.positive =>
    linarith [size_pos hpositive exponent, size_pos hpositive' exponent']
  case finite.positive.zero => exact (size_pos hpositive exponent).le
  case finite.positive.finite.negative =>
    linarith [size_pos hpositive exponent, size_pos hpositive' exponent']
  case finite.positive.finite.positive =>
    obtain ⟨hbits, hleast, hfull⟩ := hfirst
    obtain ⟨hbits', hleast', hfull'⟩ := hother
    rw [then_eq_lt_iff, sizes_lt_iff hbits hbits' hfull hfull' hleast hleast']

/-! Doubles that are not numbers -/

theorem isNaN_iff (x : Float) : x.isNaN = true ↔ x.toModel.unpack = .notANumber := by
  show x.toModel.unpack.isNaN = true ↔ _
  cases x.toModel.unpack with
  | notANumber => exact iff_of_true rfl rfl
  | infinity sign => exact iff_of_false Bool.false_ne_true (by rintro ⟨⟩)
  | zero sign => exact iff_of_false Bool.false_ne_true (by rintro ⟨⟩)
  | finite sign mantissa exponent hmantissa => exact iff_of_false Bool.false_ne_true (by rintro ⟨⟩)

/-- There is only one double that is not a number. -/
theorem eq_of_isNaN {first other : Float} (hfirst : first.isNaN = true)
    (hother : other.isNaN = true) : first = other := by
  have hbits : ∀ x : Float, x.isNaN = true →
      x.toModel.toBits.toBitVec = packedNaN .binary64 := by
    intro x hnan
    rw [isNaN_iff] at hnan
    revert hnan
    refine unpack_cases (motive := fun parts => parts = .notANumber →
      x.toModel.toBits.toBitVec = packedNaN .binary64) x.toModel ?_ ?_ ?_ ?_
    · rintro sign ⟨⟩
    · exact fun hlast hmantissa _ => x.toModel.valid.eq_packedNaN hlast hmantissa
    · rintro sign ⟨⟩
    · rintro sign mantissa exponent hpositive _ ⟨⟩
  have hsame := (hbits first hfirst).trans (hbits other hother).symm
  rcases first with ⟨⟨⟨bits⟩, hvalid⟩⟩
  rcases other with ⟨⟨⟨bits'⟩, hvalid'⟩⟩
  cases hsame
  rfl

theorem lt_iff_valueOf_lt {first : Float} (hnumber : first.isNaN = false) (other : Float) :
    first < other ↔ valueOf first < valueOf other := by
  have hlt : first < other ↔ first.toModel.unpack.lt other.toModel.unpack = true :=
    decide_eq_true_iff
  rw [hlt]
  refine lt_iff_valueOfParts_lt (hasFullMantissa_unpack _) (hasFullMantissa_unpack _) ?_
  intro hnan
  rw [(isNaN_iff first).mpr hnan] at hnumber
  cases hnumber

/-! The larger confidence -/

/-- The one of the larger value, and of equal values the first. -/
theorem largerConfidence_eq (first other : Float) :
    Edge.largerConfidence first other = if valueOf first < valueOf other then other else first := by
  rw [Edge.largerConfidence]
  cases hfirst : first.isNaN with
  | false =>
      rw [Bool.or_false]
      exact if_congr (by rw [decide_eq_true_iff, lt_iff_valueOf_lt hfirst]) rfl rfl
  | true =>
      rw [Bool.or_true, if_pos rfl]
      split
      · rfl
      · next hnot =>
          -- nothing is above a double that is not a number only if it is none itself
          have hbot : valueOf first = ⊥ := by rw [valueOf, (isNaN_iff first).mp hfirst]; rfl
          rw [hbot, bot_lt_iff_ne_bot, not_not, valueOf] at hnot
          exact eq_of_isNaN ((isNaN_iff other).mpr (valueOfParts_eq_bot hnot)) hfirst

theorem largerConfidence_eq_or (first other : Float) :
    Edge.largerConfidence first other = first ∨ Edge.largerConfidence first other = other := by
  rw [largerConfidence_eq]
  exact (ite_eq_or_eq _ _ _).symm

theorem valueOf_largerConfidence (first other : Float) :
    valueOf (Edge.largerConfidence first other) = max (valueOf first) (valueOf other) := by
  rw [largerConfidence_eq, max_def_lt]
  split <;> rfl

end CodeGraph.Confidence
