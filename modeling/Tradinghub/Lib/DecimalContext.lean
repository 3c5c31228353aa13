import Tradinghub.Lib.DecimalText

/-!
# Decimals rounded to a context and written

`normalizeIn` rounds to the precision of a context and drops the trailing zeros.  Where the context
has room for every digit it rounds nothing (`normalizeIn_eq`), and `normalize` has one result for
each value (`normalize_inj`).  `formatF` writes a decimal without an exponent; what it writes is read
again (`read_formatF`), and of a normalized decimal no digit could be left out (`Plain`).
-/

namespace Decimal

/-! ## Contexts -/

/-- `decimal.Context`: a precision, and limits of the exponent. -/
structure Context where
  prec : Nat
  Emin : Int := -999999
  Emax : Int := 999999
  deriving DecidableEq, Repr

inductive Signal where
  | overflow
  deriving DecidableEq, Repr

namespace Context

/-- `decimal.DefaultContext` -/
def default : Context := { prec := 28 }

/-- The least and the greatest exponent of a coefficient as long as the precision. -/
def Etiny (c : Context) : Int := c.Emin - c.prec + 1

def Etop (c : Context) : Int := c.Emax - c.prec + 1

end Context

/-- `decimal.MAX_EMAX` -/
def maxEmax : Int := 999999999999999999

/-- `decimal.MIN_ETINY` -/
def minEtiny : Int := -1999999999999999997

/-- The exponent of the first digit. -/
def adjusted (d : Decimal) : Int := d.exponent + d.numDigits - 1

/-- What `Decimal(text)` holds as it is written, in any context. -/
def Representable (d : Decimal) : Prop := d.adjusted ≤ maxEmax ∧ minEtiny ≤ d.exponent

instance (d : Decimal) : Decidable d.Representable :=
  inferInstanceAs (Decidable (d.adjusted ≤ maxEmax ∧ minEtiny ≤ d.exponent))

/-- The coefficient without its last `k` digits, rounded to the nearest, ties to even. -/
def roundHalfEven (coefficient k : Nat) : Nat :=
  let quotient := coefficient / 10 ^ k
  let twice := 2 * (coefficient % 10 ^ k)
  if 10 ^ k < twice ∨ twice = 10 ^ k ∧ quotient % 2 = 1 then quotient + 1 else quotient

/-- Rounded to the precision, and to the limits of the exponent. -/
def fix (c : Context) (d : Decimal) : Except Signal Decimal :=
  if d.coefficient = 0 then .ok { d with exponent := min (max d.exponent c.Etiny) c.Emax }
  else
    let least := d.numDigits + d.exponent - c.prec
    if c.Etop < least then .error .overflow
    else
      let least := max least c.Etiny
      if d.exponent < least then
        let rounded := { d with
          coefficient := roundHalfEven d.coefficient (least - d.exponent).toNat
          exponent := least }
        let rounded :=
          if c.prec < rounded.numDigits then
            { rounded with coefficient := rounded.coefficient / 10, exponent := least + 1 }
          else rounded
        if c.Etop < rounded.exponent then .error .overflow else .ok rounded
      else .ok d

/-- Trailing zeros moved into the exponent, as long as that is below `Emax`. -/
def stripZeros (Emax : Int) : Nat → Nat → Int → Nat × Int
  | 0, coefficient, exponent => (coefficient, exponent)
  | fuel + 1, coefficient, exponent =>
    if coefficient % 10 = 0 ∧ exponent < Emax then
      stripZeros Emax fuel (coefficient / 10) (exponent + 1)
    else (coefficient, exponent)

/-- Without its trailing zeros; a zero has exponent 0. -/
def stripped (c : Context) (d : Decimal) : Decimal :=
  if d.coefficient = 0 then { d with exponent := 0 }
  else
    let (coefficient, exponent) := stripZeros c.Emax d.numDigits d.coefficient d.exponent
    { d with coefficient := coefficient, exponent := exponent }

/-- `Decimal.normalize(context)` -/
def normalizeIn (c : Context) (d : Decimal) : Except Signal Decimal :=
  (fix c d).map (stripped c)

/-- Nothing to round where there is room for every digit, and for the exponent. -/
theorem fix_eq_self {c : Context} {d : Decimal} (hne : d.coefficient ≠ 0)
    (hprec : d.numDigits ≤ c.prec) (htiny : c.Etiny ≤ d.exponent)
    (hmax : d.adjusted ≤ c.Emax) : fix c d = .ok d := by
  unfold adjusted at hmax
  unfold fix
  rw [if_neg hne, if_neg (by unfold Context.Etop; omega), if_neg (by omega)]

/-- Rounding signals nothing below the greatest exponent. -/
theorem normalizeIn_ok {c : Context} {d : Decimal} (hlimits : c.Emin < c.Emax)
    (hmax : d.adjusted < c.Emax) : ∃ normalized, normalizeIn c d = .ok normalized := by
  have hfix : ∃ d', fix c d = .ok d' := by
    unfold adjusted at hmax
    unfold fix
    by_cases hzero : d.coefficient = 0
    · rw [if_pos hzero]
      exact ⟨_, rfl⟩
    · rw [if_neg hzero, if_neg (by unfold Context.Etop; omega)]
      dsimp only
      split
      · refine ⟨_, if_neg ?_⟩
        unfold Context.Etop Context.Etiny
        split
        · dsimp only
          omega
        · dsimp only
          omega
      · exact ⟨_, rfl⟩
  obtain ⟨d', hd'⟩ := hfix
  refine ⟨stripped c d', ?_⟩
  rw [normalizeIn, hd']
  rfl

/-- Above it, rounding overflows. -/
theorem adjusted_le_of_normalizeIn {c : Context} {d normalized : Decimal}
    (hne : d.coefficient ≠ 0) (h : normalizeIn c d = .ok normalized) : d.adjusted ≤ c.Emax := by
  by_contra hmax
  unfold adjusted at hmax
  have hoverflow : fix c d = .error .overflow := by
    unfold fix
    rw [if_neg hne, if_pos (by unfold Context.Etop; omega)]
  rw [normalizeIn, hoverflow] at h
  cases h

theorem stripZeros_eq {Emax : Int} {m : Nat} : ∀ {fuel coefficient : Nat} {exponent : Int},
    coefficient ≠ 0 → coefficient < 10 ^ m → exponent + m - 1 ≤ Emax →
      stripZeros Emax fuel coefficient exponent = dropZeros fuel coefficient exponent := by
  intro fuel
  induction fuel generalizing m with
  | zero => intros; rfl
  | succ fuel ih =>
    intro coefficient exponent hne hlt hmax
    unfold stripZeros dropZeros
    by_cases hzero : coefficient % 10 = 0
    · -- a zero at the end is not the only digit, so the exponent may grow
      obtain ⟨k, rfl⟩ : ∃ k, m = k + 2 := by
        refine ⟨m - 2, ?_⟩
        have hone : ¬ m ≤ 1 := by
          intro hle
          have hpow := Nat.pow_le_pow_right (show 0 < 10 by norm_num) hle
          omega
        omega
      rw [if_pos ⟨hzero, by push_cast at hmax; omega⟩, if_pos hzero]
      refine ih (m := k + 1) (by omega) ?_ (by push_cast at hmax ⊢; omega)
      rw [pow_succ] at hlt
      omega
    · rw [if_neg fun h => hzero h.1, if_neg hzero]

/-- With room for every digit, only the trailing zeros go. -/
theorem normalizeIn_eq {c : Context} {d : Decimal} (hprec : d.numDigits ≤ c.prec)
    (htiny : c.Etiny ≤ d.exponent) (hmax : d.adjusted ≤ c.Emax) :
    normalizeIn c d = .ok d.normalize := by
  unfold normalizeIn
  by_cases hzero : d.coefficient = 0
  · rw [fix, if_pos hzero, normalize, if_pos hzero]
    show Except.ok (stripped c _) = _
    rw [stripped, if_pos hzero]
  · rw [fix_eq_self hzero hprec htiny hmax, normalize, if_neg hzero]
    show Except.ok (stripped c d) = _
    rw [stripped, if_neg hzero, stripZeros_eq hzero d.lt_pow_numDigits hmax]

/-! ## One normal form for each value -/

theorem value_eq_zero {d : Decimal} : d.value = 0 ↔ d.coefficient = 0 := by
  have hpow : (10 : ℚ) ^ d.exponent ≠ 0 := (zpow_pos (by norm_num) _).ne'
  have hsign : (d.sign : ℚ) ≠ 0 := by
    intro hzero
    have habs := d.abs_sign
    rw [hzero, abs_zero] at habs
    norm_num at habs
  unfold value
  rw [mul_eq_zero, mul_eq_zero, Nat.cast_eq_zero]
  tauto

/-- Coefficients without trailing zeros, of the same value. -/
theorem eq_of_not_dvd {c c' : Nat} {e e' : Int} (hc : ¬ 10 ∣ c) (hc' : ¬ 10 ∣ c')
    (h : (c : ℚ) * 10 ^ e = c' * 10 ^ e') : c = c' ∧ e = e' := by
  wlog hle : e ≤ e' generalizing c c' e e'
  · obtain ⟨hcc, hee⟩ := this hc' hc h.symm (by omega)
    exact ⟨hcc.symm, hee.symm⟩
  obtain ⟨k, rfl⟩ : ∃ k : Nat, e' = e + k := ⟨(e' - e).toNat, by omega⟩
  have hpow : (10 : ℚ) ^ e ≠ 0 := (zpow_pos (by norm_num) _).ne'
  have hcast : (c : ℚ) = c' * 10 ^ k := by
    rw [zpow_add₀ (by norm_num), zpow_natCast, mul_comm (10 ^ e : ℚ), ← mul_assoc] at h
    exact mul_right_cancel₀ hpow h
  have hmul : c = c' * 10 ^ k := by exact_mod_cast hcast
  cases k with
  | zero => exact ⟨by simpa using hmul, by simp⟩
  | succ k =>
    refine absurd ?_ hc
    rw [hmul, pow_succ, ← mul_assoc]
    exact Nat.dvd_mul_left _ _

theorem normalize_negative (d : Decimal) : d.normalize.negative = d.negative := by
  unfold normalize
  split <;> rfl

theorem normalize_withSign (negative : Bool) (d : Decimal) :
    ({ d with negative := negative } : Decimal).normalize =
      { d.normalize with negative := negative } := by
  unfold normalize
  show (if d.coefficient = 0 then _ else _) = _
  split <;> rfl

theorem negative_eq_false {d : Decimal} (hne : d.coefficient ≠ 0) :
    d.negative = false ↔ 0 < d.value := by
  rw [value_pos, and_iff_left hne]

theorem normalize_inj {d d' : Decimal} (hzero : d.coefficient = 0 → d.negative = false)
    (hzero' : d'.coefficient = 0 → d'.negative = false) (h : d.value = d'.value) :
    d.normalize = d'.normalize := by
  by_cases hne : d.coefficient = 0
  · have hne' : d'.coefficient = 0 := value_eq_zero.1 (h ▸ value_eq_zero.2 hne)
    rw [normalize, normalize, if_pos hne, if_pos hne', hne, hne', hzero hne, hzero' hne']
  · have hne' : d'.coefficient ≠ 0 := fun h' => hne (value_eq_zero.1 (h ▸ value_eq_zero.2 h'))
    have habs : |d.normalize.value| = |d'.normalize.value| := by
      rw [normalize_value, normalize_value, h]
    rw [abs_value, abs_value] at habs
    obtain ⟨hcoefficient, hexponent⟩ :=
      eq_of_not_dvd (normalize_last hne) (normalize_last hne') habs
    have hnegative : d.normalize.negative = d'.normalize.negative := by
      rw [normalize_negative, normalize_negative, Bool.eq_iff_iff, ← not_iff_not,
        Bool.not_eq_true, Bool.not_eq_true, negative_eq_false hne, negative_eq_false hne', h]
    cases hd : d.normalize
    cases hd' : d'.normalize
    rw [hd, hd'] at hcoefficient hexponent hnegative
    cases hcoefficient
    cases hexponent
    cases hnegative
    rfl

/-! ## Written without an exponent -/

/-- The digits before the point and those after it. -/
def pointed (d : Decimal) : List Char × List Char :=
  let digits := Nat.toDigits 10 d.coefficient
  let dotplace := d.exponent + digits.length
  if dotplace < 0 then (['0'], List.replicate (-dotplace).toNat '0' ++ digits)
  else if digits.length < dotplace then
    (digits ++ List.replicate (dotplace - digits.length).toNat '0', [])
  else
    (if digits.take dotplace.toNat = [] then ['0'] else digits.take dotplace.toNat,
      digits.drop dotplace.toNat)

/-- A number in its parts: no point where nothing comes after it. -/
def assemble (negative : Bool) (whole fraction : List Char) : List Char :=
  (if negative then ['-'] else []) ++ whole ++ (if fraction = [] then [] else '.' :: fraction)

/-- `format(.., "f")`: no exponent, a zero without trailing ones before the point. -/
def formatF (d : Decimal) : String :=
  let d := if d.coefficient = 0 ∧ 0 < d.exponent then { d with exponent := 0 } else d
  String.ofList (assemble d.negative d.pointed.1 d.pointed.2)

/-- Digits before the point and after it, of which none could be left out. -/
structure Plain (whole fraction : List Char) : Prop where
  whole_ne : whole ≠ []
  whole_digits : ∀ c ∈ whole, c.isDigit = true
  fraction_digits : ∀ c ∈ fraction, c.isDigit = true
  leading : whole.head? = some '0' → whole = ['0']
  trailing : fraction.getLast? ≠ some '0'

theorem head_toDigits {n : Nat} (hne : n ≠ 0) : (Nat.toDigits 10 n).head? ≠ some '0' := by
  induction n using Nat.strong_induction_on with
  | _ n ih =>
    rw [Nat.toDigits_eq_if (by norm_num)]
    split
    · next hlt =>
      intro hhead
      exact hne (Nat.digitChar_eq_zero.1 (Option.some.inj hhead))
    · rw [List.head?_append_of_ne_nil _ Nat.toDigits_ne_nil]
      exact ih (n / 10) (by omega) (by omega)

theorem getLast_toDigits (n : Nat) : (Nat.toDigits 10 n).getLast? = some (n % 10).digitChar := by
  rw [Nat.toDigits_eq_if (by norm_num)]
  split
  · next hlt => rw [Nat.mod_eq_of_lt hlt, List.getLast?_singleton]
  · exact List.getLast?_concat

/-- The last digit of a coefficient that ten does not divide. -/
theorem last_toDigits {n : Nat} (hn : ¬ 10 ∣ n) : (Nat.toDigits 10 n).getLast? ≠ some '0' := by
  rw [getLast_toDigits]
  intro hlast
  exact hn (Nat.dvd_of_mod_eq_zero (Nat.digitChar_eq_zero.1 (Option.some.inj hlast)))

theorem isDigit_zeros {k : Nat} : ∀ c ∈ List.replicate k '0', c.isDigit = true := by
  intro c hc
  rw [List.eq_of_mem_replicate hc]
  rfl

theorem isDigit_append {cs cs' : List Char} (h : ∀ c ∈ cs, c.isDigit = true)
    (h' : ∀ c ∈ cs', c.isDigit = true) : ∀ c ∈ cs ++ cs', c.isDigit = true :=
  fun c hc => (List.mem_append.1 hc).elim (h c) (h' c)

/-- Normal forms: a zero with exponent 0, or no trailing zero. -/
def Normal (d : Decimal) : Prop := d.coefficient = 0 ∧ d.exponent = 0 ∨ ¬ 10 ∣ d.coefficient

theorem normal_normalize (d : Decimal) : d.normalize.Normal := by
  by_cases hne : d.coefficient = 0
  · unfold normalize
    rw [if_pos hne]
    exact Or.inl ⟨hne, rfl⟩
  · exact Or.inr (normalize_last hne)

/-- Where the point goes: before all digits, behind all of them, or among them. -/
theorem pointed_cases (d : Decimal) :
    (∃ k : Nat, d.exponent + d.numDigits + k = 0 ∧ 0 < k ∧
      d.pointed = (['0'], List.replicate k '0' ++ Nat.toDigits 10 d.coefficient)) ∨
    (∃ k : Nat, d.exponent = k ∧ 0 < k ∧
      d.pointed = (Nat.toDigits 10 d.coefficient ++ List.replicate k '0', [])) ∨
    ∃ k : Nat, d.exponent + d.numDigits = k ∧ k ≤ d.numDigits ∧
      d.pointed =
        (if k = 0 then ['0'] else (Nat.toDigits 10 d.coefficient).take k,
          (Nat.toDigits 10 d.coefficient).drop k) := by
  have hlength : (Nat.toDigits 10 d.coefficient).length = d.numDigits := rfl
  unfold pointed
  simp only [hlength]
  split
  · next hneg => exact Or.inl ⟨_, by omega, by omega, rfl⟩
  · split
    · next hlt => exact Or.inr (Or.inl ⟨_, by omega, by omega, rfl⟩)
    · next hle =>
      refine Or.inr (Or.inr ⟨(d.exponent + d.numDigits).toNat, by omega, by omega, ?_⟩)
      simp only [List.take_eq_nil_iff, Nat.toDigits_ne_nil, or_false]

theorem pointed_plain {d : Decimal} (h : d.Normal) : Plain d.pointed.1 d.pointed.2 := by
  have hdigits := isDigit_toDigits d.coefficient
  have hzero : ∀ c ∈ ['0'], c.isDigit = true := by
    intro c hc
    rw [List.mem_singleton.1 hc]
    rfl
  by_cases hne : d.coefficient = 0
  · have hexponent : d.exponent = 0 := by
      rcases h with ⟨-, hexponent⟩ | hlast
      · exact hexponent
      · exact absurd (hne ▸ Nat.dvd_zero 10) hlast
    have hpointed : d.pointed = (['0'], []) := by
      unfold pointed
      rw [hne, hexponent]
      rfl
    rw [hpointed]
    exact ⟨by simp, hzero, by simp, fun _ => rfl, by simp⟩
  have hhead := head_toDigits hne
  have hlast : (Nat.toDigits 10 d.coefficient).getLast? ≠ some '0' :=
    last_toDigits (h.resolve_left fun h => hne h.1)
  rcases d.pointed_cases with ⟨k, -, -, hk⟩ | ⟨k, -, -, hk⟩ | ⟨k, -, -, hk⟩
  · rw [hk]
    refine ⟨by simp, hzero, isDigit_append isDigit_zeros hdigits, fun _ => rfl, ?_⟩
    rwa [List.getLast?_append_of_ne_nil _ Nat.toDigits_ne_nil]
  · rw [hk]
    refine ⟨by simp, isDigit_append hdigits isDigit_zeros, by simp, fun h0 => ?_, by simp⟩
    rw [List.head?_append_of_ne_nil _ Nat.toDigits_ne_nil] at h0
    exact absurd h0 hhead
  · rw [hk]
    have hdrop : ((Nat.toDigits 10 d.coefficient).drop k).getLast? ≠ some '0' := by
      rw [List.getLast?_drop]
      split
      · simp
      · exact hlast
    have htail : ∀ c ∈ (Nat.toDigits 10 d.coefficient).drop k, c.isDigit = true :=
      fun c hc => hdigits c (List.mem_of_mem_drop hc)
    by_cases hk0 : k = 0
    · rw [if_pos hk0]
      exact ⟨by simp, hzero, htail, fun _ => rfl, hdrop⟩
    · rw [if_neg hk0]
      refine ⟨by simp [hk0], fun c hc => hdigits c (List.mem_of_mem_take hc), htail, fun h0 => ?_,
        hdrop⟩
      rw [List.head?_take, if_neg hk0] at h0
      exact absurd h0 hhead

/-- As many digits after the point as the decimal has places. -/
theorem pointed_places (d : Decimal) : d.pointed.2.length = d.decimalPlaces := by
  have hlength : (Nat.toDigits 10 d.coefficient).length = d.numDigits := rfl
  unfold decimalPlaces
  rcases d.pointed_cases with ⟨k, hexponent, -, hk⟩ | ⟨k, hexponent, -, hk⟩ | ⟨k, hexponent, -, hk⟩
  · rw [hk, List.length_append, List.length_replicate, hlength]
    omega
  · rw [hk, List.length_nil]
    omega
  · rw [hk, List.length_drop, hlength]
    omega

/-- The digits, read as a number, with the point counted from behind. -/
theorem pointed_value (d : Decimal) :
    (Nat.ofDigitChars 10 (d.pointed.1 ++ d.pointed.2) 0 : ℚ) * 10 ^ (-d.pointed.2.length : Int) =
      d.coefficient * 10 ^ d.exponent := by
  have hcoefficient : Nat.ofDigitChars 10 (Nat.toDigits 10 d.coefficient) 0 = d.coefficient :=
    Nat.ofDigitChars_ten_toDigits
  have hlength : (Nat.toDigits 10 d.coefficient).length = d.numDigits := rfl
  have hzero : ∀ cs, Nat.ofDigitChars 10 ('0' :: cs) 0 = Nat.ofDigitChars 10 cs 0 := by
    intro cs
    rw [Nat.ofDigitChars_cons]
    rfl
  rcases d.pointed_cases with ⟨k, hexponent, -, hk⟩ | ⟨k, hexponent, -, hk⟩ | ⟨k, hexponent, hle, hk⟩
  · have hlen : (-(List.replicate k '0' ++ Nat.toDigits 10 d.coefficient).length : Int) =
        d.exponent := by
      rw [List.length_append, List.length_replicate, hlength]
      push_cast
      omega
    rw [hk, hlen, List.singleton_append, hzero, Nat.ofDigitChars_append,
      Nat.ofDigitChars_replicate_zero, Nat.mul_zero, hcoefficient]
  · rw [hk, List.append_nil, Nat.ofDigitChars_append, hcoefficient,
      Nat.ofDigitChars_replicate_zero, hexponent, zpow_natCast]
    push_cast
    simp only [List.length_nil, Nat.cast_zero, neg_zero, zpow_zero, mul_one]
    ring
  · have hlen : (-((Nat.toDigits 10 d.coefficient).drop k).length : Int) = d.exponent := by
      rw [List.length_drop, hlength]
      omega
    rw [hk, hlen]
    by_cases hk0 : k = 0
    · rw [if_pos hk0, hk0, List.drop_zero, List.singleton_append, hzero, hcoefficient]
    · rw [if_neg hk0, List.take_append_drop, hcoefficient]

/-! ## Read again -/

section Reading

variable {whole fraction : List Char}

theorem takeFraction_tail (h : ∀ c ∈ fraction, c.isDigit = true) :
    takeFraction (if fraction = [] then [] else '.' :: fraction) = (fraction, []) := by
  split
  · next hnil =>
    rw [hnil]
    rfl
  · show takeDigits fraction = _
    have hall : takeDigits (fraction ++ []) = (fraction, []) := takeDigits_append h (by simp)
    rwa [List.append_nil] at hall

theorem readNumber_digits (negative : Bool) (hne : whole ≠ [])
    (hwhole : ∀ c ∈ whole, c.isDigit = true) (hfraction : ∀ c ∈ fraction, c.isDigit = true) :
    readNumber negative (whole ++ if fraction = [] then [] else '.' :: fraction) =
      some ⟨negative, Nat.ofDigitChars 10 (whole ++ fraction) 0, -fraction.length⟩ := by
  have hrest : ∀ c ∈ (if fraction = [] then [] else '.' :: fraction).head?,
      c.isDigit = false := by
    intro c hc
    split at hc
    · cases hc
    · obtain rfl := Option.some.inj hc
      rfl
  unfold readNumber
  rw [takeDigits_append hwhole hrest]
  simp only [takeFraction_tail hfraction]
  rw [if_neg fun hnil => hne hnil.1]
  simp only [readExponent, Option.map_some, Int.zero_sub]

theorem assemble_chars (negative : Bool) (hwhole : ∀ c ∈ whole, c.isDigit = true)
    (hfraction : ∀ c ∈ fraction, c.isDigit = true) :
    ∀ c ∈ assemble negative whole fraction, c = '-' ∨ c = '.' ∨ c.isDigit = true := by
  intro c hc
  unfold assemble at hc
  rcases List.mem_append.1 hc with hc | hc
  · rcases List.mem_append.1 hc with hc | hc
    · split at hc
      · exact Or.inl (List.mem_singleton.1 hc)
      · cases hc
    · exact Or.inr (Or.inr (hwhole c hc))
  · split at hc
    · cases hc
    · rcases List.mem_cons.1 hc with rfl | hc
      · exact Or.inr (Or.inl rfl)
      · exact Or.inr (Or.inr (hfraction c hc))

theorem getLast_assemble {negative : Bool} (hne : whole ≠ [])
    (hwhole : ∀ c ∈ whole, c.isDigit = true) (hfraction : ∀ c ∈ fraction, c.isDigit = true) :
    ∀ c ∈ (assemble negative whole fraction).getLast?, c.isDigit = true := by
  intro c hc
  unfold assemble at hc
  by_cases hnil : fraction = []
  · rw [if_pos hnil, List.append_nil, List.getLast?_append_of_ne_nil _ hne] at hc
    exact hwhole c (List.mem_of_getLast? hc)
  · rw [if_neg hnil, List.getLast?_append_of_ne_nil _ (by simp), List.getLast?_cons,
      Option.mem_def, List.getLast?_eq_getLast_of_ne_nil hnil, Option.getD_some] at hc
    exact hfraction c (Option.some.inj hc ▸ List.getLast_mem hnil)

theorem read_assemble [Unicode] (hminus : Unicode.isSpace '-' = false) (negative : Bool)
    (hne : whole ≠ []) (hwhole : ∀ c ∈ whole, c.isDigit = true)
    (hfraction : ∀ c ∈ fraction, c.isDigit = true) :
    read (assemble negative whole fraction) =
      some (.finite ⟨negative, Nat.ofDigitChars 10 (whole ++ fraction) 0, -fraction.length⟩) := by
  have hchars := assemble_chars negative hwhole hfraction
  have hnumber := readNumber_digits negative hne hwhole hfraction
  obtain ⟨c, cs, rfl⟩ := List.exists_cons_of_ne_nil hne
  have hc : c.isDigit = true := hwhole c List.mem_cons_self
  have hstrip : strip (assemble negative (c :: cs) fraction) =
      assemble negative (c :: cs) fraction := by
    refine strip_eq (fun c' hc' => ?_) fun c' hc' => ?_
    · cases negative with
      | false =>
        obtain rfl : c = c' := Option.some.inj hc'
        exact Unicode.isSpace_digit c hc
      | true =>
        obtain rfl : '-' = c' := Option.some.inj hc'
        exact hminus
    · exact Unicode.isSpace_digit c' (getLast_assemble hne hwhole hfraction c' hc')
  have hunderscores : (assemble negative (c :: cs) fraction).filter (· ≠ '_') =
      assemble negative (c :: cs) fraction := by
    refine List.filter_eq_self.2 fun c' hc' => decide_eq_true ?_
    rintro rfl
    rcases hchars _ hc' with h | h | h <;> cases h
  have hascii : (assemble negative (c :: cs) fraction).mapM toAscii =
      some (assemble negative (c :: cs) fraction) := by
    refine mapM_toAscii fun c' hc' => ?_
    rcases hchars c' hc' with rfl | rfl | h
    · decide
    · decide
    · exact isDigit_lt h
  have hsign : takeSign (assemble negative (c :: cs) fraction) =
      (negative, c :: cs ++ if fraction = [] then [] else '.' :: fraction) := by
    cases negative with
    | false => exact takeSign_digit hc _
    | true => rfl
  unfold read
  rw [hstrip, hunderscores, hascii]
  simp only [Option.bind_eq_bind, Option.bind_some, hsign]
  rw [List.cons_append, readUnsigned_digit negative hc, ← List.cons_append, hnumber]
  rfl

/-- A normal zero has no exponent to lose. -/
theorem Normal.formatF_eq {d : Decimal} (hd : d.Normal) :
    d.formatF = String.ofList (assemble d.negative d.pointed.1 d.pointed.2) := by
  have hexponent : ¬ (d.coefficient = 0 ∧ 0 < d.exponent) := by
    rintro ⟨hzero, hpos⟩
    rcases hd with ⟨-, h⟩ | h
    · omega
    · exact h (hzero ▸ Nat.dvd_zero 10)
  unfold formatF
  rw [if_neg hexponent]

/-- The sign is a minus in front, and nothing else. -/
theorem formatF_negative (d : Decimal) :
    ({ d with negative := true } : Decimal).formatF =
      "-" ++ ({ d with negative := false } : Decimal).formatF := by
  have hminus (text : List Char) : String.ofList ('-' :: text) = "-" ++ String.ofList text := by
    have happend : String.ofList (['-'] ++ text) = String.ofList ['-'] ++ String.ofList text :=
      String.ofList_append
    exact happend
  unfold formatF
  dsimp only
  split
  · exact hminus _
  · exact hminus _

/-- What is written is a number of the same value. -/
theorem read_formatF [Unicode] (hminus : Unicode.isSpace '-' = false) (d : Decimal)
    (hd : d.Normal) :
    ∃ d', read d.formatF.toList = some (.finite d') ∧ d'.value = d.value ∧
      d'.decimalPlaces = d.decimalPlaces := by
  have hplain := pointed_plain hd
  refine ⟨⟨d.negative, Nat.ofDigitChars 10 (d.pointed.1 ++ d.pointed.2) 0, -d.pointed.2.length⟩,
    ?_, ?_, ?_⟩
  · rw [hd.formatF_eq, String.toList_ofList]
    exact read_assemble hminus d.negative hplain.whole_ne hplain.whole_digits
      hplain.fraction_digits
  · have hvalue := d.pointed_value
    unfold value sign
    rw [mul_assoc, mul_assoc]
    exact congrArg _ hvalue
  · rw [← d.pointed_places]
    show (-(-(d.pointed.2.length : Int))).toNat = d.pointed.2.length
    omega

end Reading

end Decimal
