import Tradinghub.Lib.DecimalContext

/-!
# Decimals in responses (`core/schemas.py`)

`exactString` writes an amount with no exponent and no digit too many.  The context it rounds to is
as wide as the value, so whatever digits and exponent a decimal comes with, the text is that of its
value (`exactString_rendered`).
-/

namespace Tradinghub.Core

/-- A fixed precision would round a sum of many large amounts. -/
def exactString (value : Decimal) : Except Decimal.Signal String :=
  let exact : Decimal.Context := { prec := value.numDigits }
  (value.normalizeIn exact).map Decimal.formatF

/-- Clear of the default limits of exponents, which count at the first digit. -/
def Clear (d : Decimal) : Prop := -999999 ≤ d.adjusted ∧ d.adjusted ≤ 999999

def NegativeZero (d : Decimal) : Prop := d.negative = true ∧ d.coefficient = 0

/-- Digits, perhaps with a minus before them and a point in between, and no zero too many. -/
def PlainText (s : String) : Prop :=
  ∃ negative whole fraction,
    s = String.ofList (Decimal.assemble negative whole fraction) ∧ Decimal.Plain whole fraction

/-- The text of a decimal, and of no other value. -/
structure Rendered [Unicode] (d : Decimal) (s : String) : Prop where
  plain : PlainText s
  exact : ∃ d', Decimal.read s.toList = some (.finite d') ∧ d'.value = d.value
  canonical : ∀ d', Clear d' → ¬ NegativeZero d' → (exactString d' = .ok s ↔ d'.value = d.value)
  /-- the database hands every amount back with 18 places -/
  stored : ∀ n : Int, n.natAbs < 10 ^ 36 → d.value = n / 10 ^ 18 →
    exactString ⟨n < 0, n.natAbs, -18⟩ = .ok s

/-- Nothing is rounded. -/
theorem exactString_eq {d : Decimal} (hclear : Clear d) :
    exactString d = .ok d.normalize.formatF := by
  obtain ⟨hmin, hmax⟩ := hclear
  have htiny : Decimal.Context.Etiny { prec := d.numDigits } ≤ d.exponent := by
    unfold Decimal.adjusted at hmin
    unfold Decimal.Context.Etiny
    show (-999999 : Int) - d.numDigits + 1 ≤ d.exponent
    omega
  show (d.normalizeIn { prec := d.numDigits }).map Decimal.formatF = _
  rw [Decimal.normalizeIn_eq (Nat.le_refl _) htiny hmax]
  rfl

theorem plainText_formatF {d : Decimal} (hd : d.Normal) : PlainText d.formatF :=
  ⟨d.negative, d.pointed.1, d.pointed.2, hd.formatF_eq, Decimal.pointed_plain hd⟩

section Texts

variable [Unicode]

/-- One text, one value. -/
theorem exactString_inj (hminus : Unicode.isSpace '-' = false) {d d' : Decimal} {s : String}
    (hclear : Clear d) (hclear' : Clear d') (h : exactString d = .ok s)
    (h' : exactString d' = .ok s) : d.value = d'.value := by
  rw [exactString_eq hclear] at h
  rw [exactString_eq hclear'] at h'
  obtain ⟨r, hr, hvalue, -⟩ := Decimal.read_formatF hminus d.normalize d.normal_normalize
  obtain ⟨r', hr', hvalue', -⟩ := Decimal.read_formatF hminus d'.normalize d'.normal_normalize
  rw [Except.ok.inj h] at hr
  rw [Except.ok.inj h'] at hr'
  obtain rfl : r = r' := Decimal.Literal.finite.inj (Option.some.inj (hr.symm.trans hr'))
  rw [← d.normalize_value, ← d'.normalize_value, ← hvalue, ← hvalue']

omit [Unicode] in
/-- One value, one text. -/
theorem exactString_congr {d d' : Decimal} (hclear : Clear d) (hclear' : Clear d')
    (hzero : ¬ NegativeZero d) (hzero' : ¬ NegativeZero d') (h : d.value = d'.value) :
    exactString d = exactString d' := by
  have hsign : ∀ {d : Decimal}, ¬ NegativeZero d → d.coefficient = 0 → d.negative = false := by
    intro d hd hcoefficient
    rw [← Bool.not_eq_true]
    exact fun hnegative => hd ⟨hnegative, hcoefficient⟩
  rw [exactString_eq hclear, exactString_eq hclear',
    Decimal.normalize_inj (hsign hzero) (hsign hzero') h]

omit [Unicode] in
/-- An amount as the database hands it back. -/
theorem clear_stored {n : Int} (hn : n.natAbs < 10 ^ 36) :
    Clear ⟨n < 0, n.natAbs, -18⟩ ∧ ¬ NegativeZero ⟨n < 0, n.natAbs, -18⟩ := by
  have hdigits : (Nat.toDigits 10 n.natAbs).length ≤ 36 :=
    (Nat.length_toDigits_le_iff (by norm_num) (by norm_num)).2 hn
  have hpos : 0 < (Nat.toDigits 10 n.natAbs).length := Nat.length_toDigits_pos
  constructor
  · unfold Clear Decimal.adjusted Decimal.numDigits
    show (-999999 : Int) ≤ -18 + (Nat.toDigits 10 n.natAbs).length - 1 ∧
      -18 + ((Nat.toDigits 10 n.natAbs).length : Int) - 1 ≤ 999999
    omega
  · rintro ⟨hneg, hzero⟩
    have hlt : n < 0 := of_decide_eq_true hneg
    have hnat : n.natAbs = 0 := hzero
    omega

omit [Unicode] in
theorem value_stored (n : Int) : (Decimal.mk (n < 0) n.natAbs (-18)).value = n / 10 ^ 18 := by
  have hpow : (10 : ℚ) ^ (-18 : Int) = ((10 : ℚ) ^ 18)⁻¹ := by
    rw [zpow_neg]
    norm_num
  have hsign : Decimal.sign ⟨n < 0, n.natAbs, -18⟩ * (n.natAbs : Int) = n := by
    unfold Decimal.sign
    by_cases hneg : n < 0
    · simp only [hneg, decide_true, if_true]
      omega
    · simp only [hneg, decide_false, Bool.false_eq_true, if_false]
      omega
  have hcast : (Decimal.sign ⟨n < 0, n.natAbs, -18⟩ : ℚ) * ((n.natAbs : Int) : ℚ) = n := by
    exact_mod_cast hsign
  show (Decimal.sign ⟨n < 0, n.natAbs, -18⟩ : ℚ) * (n.natAbs : ℚ) * 10 ^ (-18 : Int) = _
  rw [hpow, ← Int.cast_natCast n.natAbs, hcast, div_eq_mul_inv]

/-- **Decimal rendering is exact and canonical.** -/
theorem exactString_rendered (hminus : Unicode.isSpace '-' = false) {d : Decimal}
    (hclear : Clear d) (hzero : ¬ NegativeZero d) :
    ∃ s, exactString d = .ok s ∧ Rendered d s := by
  refine ⟨d.normalize.formatF, exactString_eq hclear,
    plainText_formatF d.normal_normalize, ?_, fun d' hclear' hzero' => ?_, fun n hn hvalue => ?_⟩
  · obtain ⟨d', hread, hvalue, -⟩ :=
      Decimal.read_formatF hminus d.normalize d.normal_normalize
    exact ⟨d', hread, hvalue.trans d.normalize_value⟩
  · constructor
    · exact fun h => exactString_inj hminus hclear' hclear h (exactString_eq hclear)
    · intro h
      rw [exactString_congr hclear' hclear hzero' hzero h, exactString_eq hclear]
  · obtain ⟨hclear', hzero'⟩ := clear_stored hn
    rw [← exactString_eq hclear]
    exact exactString_congr hclear' hclear hzero' hzero ((value_stored n).trans hvalue.symm)

end Texts

/-- Nine hundred as the database hands it back. -/
theorem exactString_minus_nine_hundred :
    exactString ⟨true, 900 * 10 ^ 18, -18⟩ = .ok "-900" ∧
    @Rendered Unicode.ascii ⟨true, 900 * 10 ^ 18, -18⟩ "-900" := by
  have heq : exactString ⟨true, 900 * 10 ^ 18, -18⟩ = .ok "-900" := by decide +kernel
  have hclear : Clear ⟨true, 900 * 10 ^ 18, -18⟩ := by
    unfold Clear
    decide +kernel
  have hzero : ¬ NegativeZero ⟨true, 900 * 10 ^ 18, -18⟩ := by
    rintro ⟨-, hzero⟩
    cases hzero
  let _ : Unicode := Unicode.ascii
  obtain ⟨s, hs, hrendered⟩ := exactString_rendered (by decide) hclear hzero
  rw [heq] at hs
  cases hs
  exact ⟨heq, hrendered⟩

end Tradinghub.Core
