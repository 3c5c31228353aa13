import Mathlib.Algebra.Order.Floor.Ring
import Mathlib.Data.Rat.Floor
import Mathlib.Tactic.FieldSimp
import Mathlib.Tactic.Linarith
import Mathlib.Tactic.NormNum
import Mathlib.Tactic.Positivity
import Mathlib.Tactic.Ring

/-!
# Decimals

A finite decimal is a coefficient with a sign and an exponent, as `decimal.Decimal` keeps it, so one
value has many decimals.  `normalize` drops the trailing zeros of the coefficient; the decimal places
and digits that are left say which values there are (`decimalPlaces_normalize_le`).  A column
`NUMERIC(precision, scale)` rounds what it is given to its scale and overflows when that leaves too
many digits; what it stores unchanged is `Numeric.range` (`Numeric.store_eq_self`).
-/

structure Decimal where
  negative : Bool
  coefficient : Nat
  exponent : Int
  deriving DecidableEq, Repr

namespace Decimal

/-! ## Values -/

def sign (d : Decimal) : Int := if d.negative then -1 else 1

def value (d : Decimal) : ℚ := d.sign * d.coefficient * 10 ^ d.exponent

/-- The sign flipped, no digit touched. -/
def copyNegate (d : Decimal) : Decimal := { d with negative := !d.negative }

/-- The sign dropped, no digit touched. -/
def copyAbs (d : Decimal) : Decimal := { d with negative := false }

/-- Digits of the coefficient; a zero has one. -/
def numDigits (d : Decimal) : Nat := (Nat.toDigits 10 d.coefficient).length

/-- Digits behind the point. -/
def decimalPlaces (d : Decimal) : Nat := (-d.exponent).toNat

/-- All digits, without a zero before the point. -/
def totalDigits (d : Decimal) : Nat := max (d.numDigits + d.exponent.toNat) d.decimalPlaces

/-- Trailing zeros moved into the exponent, `fuel` of them at most. -/
def dropZeros : Nat → Nat → Int → Nat × Int
  | 0, coefficient, exponent => (coefficient, exponent)
  | fuel + 1, coefficient, exponent =>
    if coefficient % 10 = 0 then dropZeros fuel (coefficient / 10) (exponent + 1)
    else (coefficient, exponent)

/-- Without trailing zeros. -/
def normalize (d : Decimal) : Decimal :=
  if d.coefficient = 0 then { d with exponent := 0 }
  else
    let (coefficient, exponent) := dropZeros d.numDigits d.coefficient d.exponent
    { d with coefficient := coefficient, exponent := exponent }

/-- The value counted in units of the last of `scale` places; what does not fit there is cut. -/
def units (scale : Nat) (d : Decimal) : Int :=
  d.sign *
    if 0 ≤ d.exponent + scale then (d.coefficient * 10 ^ (d.exponent + scale).toNat : Nat)
    else (d.coefficient / 10 ^ (-(d.exponent + scale)).toNat : Nat)

theorem sign_copyNegate (d : Decimal) : d.copyNegate.sign = -d.sign := by
  unfold sign copyNegate
  cases d.negative <;> rfl

theorem value_copyNegate (d : Decimal) : d.copyNegate.value = -d.value := by
  unfold value
  rw [sign_copyNegate]
  simp only [copyNegate]
  push_cast
  ring

theorem abs_sign (d : Decimal) : |(d.sign : ℚ)| = 1 := by
  unfold sign
  cases d.negative <;> norm_num

theorem value_pos {d : Decimal} : 0 < d.value ↔ d.negative = false ∧ d.coefficient ≠ 0 := by
  have hpow : (0 : ℚ) < 10 ^ d.exponent := zpow_pos (by norm_num) _
  unfold value sign
  rw [mul_pos_iff_of_pos_right hpow]
  cases d.negative with
  | false => simp [Nat.pos_iff_ne_zero]
  | true =>
    have hcoefficient : (0 : ℚ) ≤ d.coefficient := Nat.cast_nonneg _
    have hneg : ¬ (0 : ℚ) < -1 * d.coefficient := by linarith
    simpa only [if_true, Int.cast_neg, Int.cast_one, Bool.true_eq_false, false_and, iff_false]
      using hneg

/-! ## Trailing zeros -/

theorem dropZeros_value (fuel coefficient : Nat) (exponent : Int) :
    ((dropZeros fuel coefficient exponent).1 : ℚ) * 10 ^ (dropZeros fuel coefficient exponent).2 =
      coefficient * 10 ^ exponent := by
  induction fuel generalizing coefficient exponent with
  | zero => rfl
  | succ fuel ih =>
    unfold dropZeros
    split
    · next hzero =>
      have hmul : coefficient / 10 * 10 = coefficient :=
        Nat.div_mul_cancel (Nat.dvd_of_mod_eq_zero hzero)
      have hcast : ((coefficient / 10 : Nat) : ℚ) * 10 = coefficient := by exact_mod_cast hmul
      rw [ih, ← hcast, zpow_add_one₀ (by norm_num)]
      ring
    · rfl

theorem dropZeros_last {fuel coefficient : Nat} (hne : coefficient ≠ 0)
    (hfuel : coefficient < 10 ^ fuel) (exponent : Int) :
    ¬ 10 ∣ (dropZeros fuel coefficient exponent).1 := by
  induction fuel generalizing coefficient exponent with
  | zero =>
    rw [pow_zero] at hfuel
    omega
  | succ fuel ih =>
    unfold dropZeros
    split
    · next hzero =>
      rw [pow_succ] at hfuel
      exact ih (by omega) (by omega) _
    · next hne => exact fun hdvd => hne (Nat.mod_eq_zero_of_dvd hdvd)

theorem lt_pow_numDigits (d : Decimal) : d.coefficient < 10 ^ d.numDigits :=
  (Nat.length_toDigits_le_iff (by norm_num) Nat.length_toDigits_pos).1 (Nat.le_refl _)

theorem normalize_value (d : Decimal) : d.normalize.value = d.value := by
  unfold normalize
  split
  · next hzero => simp [value, hzero]
  · have hdrop := dropZeros_value d.numDigits d.coefficient d.exponent
    unfold value
    rw [mul_assoc, mul_assoc, ← hdrop]
    rfl

theorem normalize_last {d : Decimal} (hne : d.coefficient ≠ 0) :
    ¬ 10 ∣ d.normalize.coefficient := by
  unfold normalize
  rw [if_neg hne]
  exact dropZeros_last hne d.lt_pow_numDigits d.exponent

theorem value_mul_pow (d : Decimal) (scale : Nat) :
    d.value * 10 ^ scale = d.sign * d.coefficient * 10 ^ (d.exponent + scale) := by
  rw [value, zpow_add₀ (by norm_num), zpow_natCast]
  ring

/-- The coefficient of a decimal with more places than its value needs. -/
theorem sign_mul_coefficient {d : Decimal} {scale k : Nat} {n : Int}
    (hn : d.value = n / 10 ^ scale) (hk : d.exponent + scale + k = 0) :
    d.sign * (d.coefficient : Int) = n * 10 ^ k := by
  have hscaled : d.value * 10 ^ scale = n := by
    rw [hn]
    field_simp
  have hpow : (10 : ℚ) ^ (d.exponent + scale) * 10 ^ k = 1 := by
    rw [← zpow_natCast, ← zpow_add₀ (by norm_num), hk, zpow_zero]
  have hcast : (d.sign * d.coefficient : ℚ) = n * 10 ^ k := by
    calc (d.sign * d.coefficient : ℚ)
        = d.sign * d.coefficient * (10 ^ (d.exponent + scale) * 10 ^ k) := by rw [hpow, mul_one]
      _ = n * 10 ^ k := by rw [← mul_assoc, ← value_mul_pow, hscaled]
  exact_mod_cast hcast

/-- The value is a multiple of the last place. -/
theorem multiple_of_decimalPlaces {d : Decimal} {scale : Nat} (hplaces : d.decimalPlaces ≤ scale) :
    ∃ n : Int, d.value = n / 10 ^ scale := by
  unfold decimalPlaces at hplaces
  obtain ⟨k, hk⟩ := Int.eq_ofNat_of_zero_le (show 0 ≤ d.exponent + scale by omega)
  refine ⟨d.sign * d.coefficient * 10 ^ k, ?_⟩
  rw [eq_div_iff (by positivity), value_mul_pow, hk]
  push_cast
  rw [zpow_natCast]

/-- The places that are left say of which power of ten the value is a multiple. -/
theorem decimalPlaces_normalize_le {d : Decimal} (hne : d.coefficient ≠ 0) {scale : Nat} :
    d.normalize.decimalPlaces ≤ scale ↔ ∃ n : Int, d.value = n / 10 ^ scale := by
  rw [← d.normalize_value]
  constructor
  · exact multiple_of_decimalPlaces
  · rintro ⟨n, hn⟩
    unfold decimalPlaces
    by_contra hplaces
    -- the coefficient would be ten times something
    obtain ⟨k, hk⟩ := Int.eq_ofNat_of_zero_le (show 0 ≤ -(d.normalize.exponent + scale) - 1 by omega)
    have hcoefficient := sign_mul_coefficient hn
      (show d.normalize.exponent + scale + (k + 1 : Nat) = 0 by omega)
    have hdvd : (10 : Int) ∣ d.normalize.sign * d.normalize.coefficient := by
      rw [hcoefficient, pow_succ, ← mul_assoc]
      exact Int.dvd_mul_left _ _
    refine normalize_last hne ?_
    unfold sign at hdvd
    split at hdvd <;> omega

theorem sign_mul_sign (d : Decimal) : d.sign * d.sign = 1 := by
  unfold sign
  split <;> rfl

/-- A value with no more places than that is a whole number of units. -/
theorem units_eq {d : Decimal} {scale : Nat} (h : ∃ n : Int, d.value = n / 10 ^ scale) :
    (d.units scale : ℚ) = d.value * 10 ^ scale := by
  obtain ⟨n, hn⟩ := h
  unfold units
  split
  · next hle =>
    obtain ⟨k, hk⟩ := Int.eq_ofNat_of_zero_le hle
    rw [value_mul_pow, hk, Int.toNat_natCast]
    push_cast
    rw [zpow_natCast, mul_assoc]
  · next hlt =>
    obtain ⟨k, hk⟩ := Int.eq_ofNat_of_zero_le (show 0 ≤ -(d.exponent + scale) by omega)
    have hcoefficient : (d.coefficient : Int) = d.sign * n * 10 ^ k := by
      calc (d.coefficient : Int) = d.sign * (d.sign * d.coefficient) := by
            rw [← mul_assoc, sign_mul_sign, one_mul]
        _ = d.sign * n * 10 ^ k := by
            rw [sign_mul_coefficient hn (show d.exponent + scale + (k : Int) = 0 by omega), mul_assoc]
    have hdiv : ((d.coefficient / 10 ^ k : Nat) : Int) = d.sign * n := by
      push_cast
      rw [hcoefficient]
      exact Int.mul_ediv_cancel _ (by positivity)
    rw [hk, Int.toNat_natCast, hdiv, ← mul_assoc, sign_mul_sign, one_mul, hn]
    field_simp

theorem abs_value (d : Decimal) : |d.value| = d.coefficient * 10 ^ d.exponent := by
  have hpow : (0 : ℚ) < 10 ^ d.exponent := zpow_pos (by norm_num) _
  rw [value, abs_mul, abs_mul, abs_sign, one_mul, Nat.abs_cast, abs_of_pos hpow]

theorem pow_le_coefficient {d : Decimal} (hne : d.coefficient ≠ 0) :
    10 ^ (d.numDigits - 1) ≤ d.coefficient := by
  by_contra hlt
  by_cases hone : d.numDigits - 1 = 0
  · rw [hone, pow_zero] at hlt
    omega
  · have hle := (Nat.length_toDigits_le_iff (b := 10) (by norm_num) (by omega)).2
      (Nat.lt_of_not_le hlt)
    unfold numDigits at hle hone
    omega

/-- Where the first digit stands says how large the value is. -/
theorem lead_lt_iff {d : Decimal} (hne : d.coefficient ≠ 0) {whole : Nat} :
    d.exponent + d.numDigits - 1 < whole ↔ |d.value| < 10 ^ whole := by
  have hpow : (0 : ℚ) < 10 ^ d.exponent := zpow_pos (by norm_num) _
  have hten : (1 : ℚ) < 10 := by norm_num
  rw [abs_value]
  constructor
  · intro hlead
    have hcoefficient : (d.coefficient : ℚ) < 10 ^ d.numDigits := by
      exact_mod_cast d.lt_pow_numDigits
    calc (d.coefficient : ℚ) * 10 ^ d.exponent
        < 10 ^ d.numDigits * 10 ^ d.exponent := mul_lt_mul_of_pos_right hcoefficient hpow
      _ = 10 ^ (d.numDigits + d.exponent : Int) := by
          rw [zpow_add₀ (by norm_num), zpow_natCast]
      _ ≤ 10 ^ (whole : Int) := zpow_le_zpow_right₀ hten.le (by omega)
      _ = 10 ^ whole := zpow_natCast _ _
  · intro hlt
    have hdigits : 0 < d.numDigits := Nat.length_toDigits_pos
    have hcoefficient : (10 : ℚ) ^ (d.numDigits - 1) ≤ d.coefficient := by
      exact_mod_cast pow_le_coefficient hne
    have hlead : ((d.numDigits - 1 : Nat) : Int) + d.exponent < whole := by
      rw [← zpow_lt_zpow_iff_right₀ hten, zpow_add₀ (by norm_num), zpow_natCast, zpow_natCast]
      exact lt_of_le_of_lt (mul_le_mul_of_nonneg_right hcoefficient hpow.le) hlt
    omega

/-- No more digits than the places in front of the point and those behind it. -/
theorem totalDigits_le {d : Decimal} (hne : d.coefficient ≠ 0) {whole scale : Nat}
    (hplaces : d.decimalPlaces ≤ scale) (hlt : |d.value| < 10 ^ whole) :
    d.totalDigits ≤ whole + scale := by
  have hlead := (lead_lt_iff hne).2 hlt
  have hdigits : 0 < d.numDigits := Nat.length_toDigits_pos
  unfold decimalPlaces at hplaces
  unfold totalDigits decimalPlaces
  omega

end Decimal

namespace Numeric

/-! ## Columns -/

/-- Rounded to the scale, ties away from zero. -/
def roundTo (scale : Nat) (x : ℚ) : ℚ :=
  (if x < 0 then -⌊-x * 10 ^ scale + 1 / 2⌋ else ⌊x * 10 ^ scale + 1 / 2⌋ : Int) / 10 ^ scale

/-- What a column stores for the value, or nothing on an overflow. -/
def store (precision scale : Nat) (x : ℚ) : Option ℚ :=
  if |roundTo scale x| < 10 ^ (precision - scale) then some (roundTo scale x) else none

/-- The values a column can have. -/
def range (precision scale : Nat) : Set ℚ :=
  { x | (∃ n : Int, x = n / 10 ^ scale) ∧ |x| < 10 ^ (precision - scale) }

theorem floor_half (n : Int) : ⌊(n : ℚ) + 1 / 2⌋ = n := by
  rw [Int.floor_intCast_add]
  norm_num

theorem roundTo_eq_self {scale : Nat} {x : ℚ} : roundTo scale x = x ↔ ∃ n : Int, x = n / 10 ^ scale := by
  constructor
  · intro h
    exact ⟨_, h.symm⟩
  · rintro ⟨n, rfl⟩
    have hpow : (10 : ℚ) ^ scale ≠ 0 := by positivity
    unfold roundTo
    rw [← neg_div, div_mul_cancel₀ _ hpow, div_mul_cancel₀ _ hpow, floor_half]
    have hneg : ⌊(-n : ℚ) + 1 / 2⌋ = -n := by exact_mod_cast floor_half (-n)
    rw [hneg, neg_neg, ite_self]

theorem neg_mem_range {precision scale : Nat} {x : ℚ} :
    -x ∈ range precision scale ↔ x ∈ range precision scale := by
  have hneg : ∀ {y : ℚ}, (∃ n : Int, y = n / 10 ^ scale) → ∃ n : Int, -y = n / 10 ^ scale := by
    rintro y ⟨n, rfl⟩
    exact ⟨-n, by rw [Int.cast_neg, neg_div]⟩
  constructor
  · rintro ⟨hmultiple, hlt⟩
    exact ⟨neg_neg x ▸ hneg hmultiple, abs_neg x ▸ hlt⟩
  · rintro ⟨hmultiple, hlt⟩
    exact ⟨hneg hmultiple, (abs_neg x).symm ▸ hlt⟩

/-- Neither rounded nor refused. -/
theorem store_eq_self {precision scale : Nat} {x : ℚ} :
    store precision scale x = some x ↔ x ∈ range precision scale := by
  unfold store
  constructor
  · intro h
    split at h
    · next hlt =>
      have hround := Option.some.inj h
      rw [hround] at hlt
      exact ⟨roundTo_eq_self.1 hround, hlt⟩
    · cases h
  · rintro ⟨hmultiple, hlt⟩
    rw [roundTo_eq_self.2 hmultiple, if_pos hlt]

end Numeric
