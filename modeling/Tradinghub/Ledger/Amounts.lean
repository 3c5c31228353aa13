import Tradinghub.Ledger.Services
import Tradinghub.Lib.DecimalContext
import Mathlib.Data.List.Forall2

/-!
# What the amount schema lets through, and what the column stores

`Amount` (`schemas/transactions.py`) is a positive decimal with at most 36 digits and at most 18
places, each a check of its own, and digits are counted a second time after `normalize`, which
rounds to 28 of them.  The column is `NUMERIC(36, 18)`: of its 36 digits 18 are places, so in front
of the point it has room for 18 only.  So the schema lets amounts through that overflow in the
database, and some that are rounded there.  An amount is stored to the digit just when its digits
fit on both sides of the point (`stored_exactly_iff`).  Those are whole numbers of 10⁻¹⁸, which the
ledger counts in.
-/

namespace Tradinghub.Ledger

open ReadCommitted

/-! ## The schema -/

/-- A JSON value, as far as the validator looks. -/
inductive JsonValue where
  | string (text : String)
  | other
  deriving DecidableEq, Repr

/-- What validation raises; `overflow` is the decimal's own and escapes. -/
inductive ValidationError where
  | valueError (message : String)
  | decimalParsing
  | finiteNumber
  | greaterThan
  | overflow
  | decimalMaxDigits
  | decimalMaxPlaces
  deriving DecidableEq, Repr

/-- `Field(gt=0, max_digits=36, decimal_places=18)`: digits and places are counted as they were sent,
and without trailing zeros as the default context rounds them. -/
structure ValidAmount where
  decimal : Decimal
  gt : decimal.negative = false ∧ decimal.coefficient ≠ 0
  normalized : Decimal
  normalizes : decimal.normalizeIn .default = .ok normalized
  max_digits : decimal.totalDigits ≤ 36 ∨ normalized.totalDigits ≤ 36
  decimal_places : decimal.decimalPlaces ≤ 18 ∨ normalized.decimalPlaces ≤ 18
  deriving DecidableEq, Repr

def amountMustBeAString : JsonValue → Except ValidationError String
  | .string text => .ok text
  | .other => .error (.valueError "amount must be a string")

def checkConstraints (decimal : Decimal) : Except ValidationError ValidAmount :=
  if gt : decimal.negative = false ∧ decimal.coefficient ≠ 0 then
    match normalizes : decimal.normalizeIn .default with
    | .error .overflow => .error .overflow
    | .ok normalized =>
      if max_digits : decimal.totalDigits ≤ 36 ∨ normalized.totalDigits ≤ 36 then
        if decimal_places : decimal.decimalPlaces ≤ 18 ∨ normalized.decimalPlaces ≤ 18 then
          .ok { decimal, gt, normalized, normalizes, max_digits, decimal_places }
        else .error .decimalMaxPlaces
      else .error .decimalMaxDigits
  else .error .greaterThan

theorem checkConstraints_ok {decimal : Decimal} {a : ValidAmount}
    (h : checkConstraints decimal = .ok a) : a.decimal = decimal := by
  unfold checkConstraints at h
  split at h
  · split at h
    · cases h
    · split at h
      · split at h
        · rw [← Except.ok.inj h]
        · cases h
      · cases h
  · cases h

/-- What has passed the checks passes them. -/
theorem ValidAmount.checked (a : ValidAmount) : checkConstraints a.decimal = .ok a := by
  unfold checkConstraints
  rw [dif_pos a.gt]
  split
  · next h =>
    rw [a.normalizes] at h
    cases h
  · next normalized h =>
    obtain rfl := Except.ok.inj (h.symm.trans a.normalizes)
    rw [dif_pos a.max_digits, dif_pos a.decimal_places]

section Schema

variable [Unicode]

def decimalOf (text : String) : Except ValidationError Decimal :=
  match Decimal.read text.toList with
  | some (.finite decimal) =>
    if decimal.Representable then .ok decimal else .error .decimalParsing
  | some .infinity => .error .finiteNumber
  | some .nan => .error .finiteNumber
  | none => .error .decimalParsing

def validateAmount (amount : JsonValue) : Except ValidationError ValidAmount := do
  let text ← amountMustBeAString amount
  let decimal ← decimalOf text
  checkConstraints decimal

/-- The number that was sent. -/
def sentValue (text : String) : ℚ :=
  match decimalOf text with
  | .ok decimal => decimal.value
  | .error _ => 0

theorem sentValue_eq {text : String} {a : ValidAmount}
    (h : validateAmount (.string text) = .ok a) : sentValue text = a.decimal.value := by
  unfold sentValue
  have hbind : decimalOf text >>= checkConstraints = .ok a := h
  cases hd : decimalOf text with
  | error e =>
    rw [hd] at hbind
    cases hbind
  | ok decimal =>
    rw [hd] at hbind
    rw [checkConstraints_ok hbind]

theorem validateAmount_read {text : String} {decimal : Decimal}
    (hread : Decimal.read text.toList = some (.finite decimal))
    (hrepresentable : decimal.Representable) :
    validateAmount (.string text) = checkConstraints decimal := by
  have hdecimal : decimalOf text = .ok decimal := by
    unfold decimalOf
    simp only [hread, if_pos hrepresentable]
  unfold validateAmount
  simp only [amountMustBeAString, hdecimal, bind, Except.bind]

end Schema

/-! ## The column -/

/-- The places of a number that the driver can send. -/
def maxDscale : Nat := 0x3fff

/-- What is stored of an amount that is set on a row: the column rounds it, or overflows. -/
def storedAmount (amount : Decimal) : Option ℚ :=
  if amount.decimalPlaces ≤ maxDscale then Numeric.store 36 18 amount.value else none

/-- At most 18 digits before the point and, trailing zeros aside, after it, and no more places
than can be sent. -/
structure FitsColumn (amount : Decimal) : Prop where
  whole : amount.adjusted < 18
  places : amount.normalize.decimalPlaces ≤ 18
  sent : amount.decimalPlaces ≤ maxDscale

instance (amount : Decimal) : Decidable (FitsColumn amount) :=
  decidable_of_iff (amount.adjusted < 18 ∧ amount.normalize.decimalPlaces ≤ 18 ∧
      amount.decimalPlaces ≤ maxDscale)
    ⟨fun ⟨whole, places, sent⟩ => ⟨whole, places, sent⟩, fun h => ⟨h.whole, h.places, h.sent⟩⟩

theorem fitsColumn_iff {amount : Decimal} (hne : amount.coefficient ≠ 0) :
    FitsColumn amount ↔
      amount.value ∈ Numeric.range 36 18 ∧ amount.decimalPlaces ≤ maxDscale := by
  have hwhole : amount.adjusted < 18 ↔ |amount.value| < 10 ^ (36 - 18) := Decimal.lead_lt_iff hne
  have hplaces : amount.normalize.decimalPlaces ≤ 18 ↔ ∃ n : Int, amount.value = n / 10 ^ 18 :=
    Decimal.decimalPlaces_normalize_le hne
  constructor
  · rintro ⟨whole, places, sent⟩
    exact ⟨⟨hplaces.1 places, hwhole.1 whole⟩, sent⟩
  · rintro ⟨⟨multiple, hlt⟩, sent⟩
    exact ⟨hwhole.2 hlt, hplaces.2 multiple, sent⟩

/-- What does not fit has too many digits before the point, or more than `normalize` counts, or more
places than can be sent. -/
theorem ValidAmount.fitsColumn_or (a : ValidAmount) :
    FitsColumn a.decimal ∨ 18 ≤ a.decimal.adjusted ∨ 28 < a.decimal.numDigits ∨
      maxDscale < a.decimal.decimalPlaces := by
  by_cases hsent : maxDscale < a.decimal.decimalPlaces
  · exact Or.inr (Or.inr (Or.inr hsent))
  by_cases hdigits : 28 < a.decimal.numDigits
  · exact Or.inr (Or.inr (Or.inl hdigits))
  by_cases hwhole : 18 ≤ a.decimal.adjusted
  · exact Or.inr (Or.inl hwhole)
  refine Or.inl ⟨not_le.1 hwhole, ?_, not_lt.1 hsent⟩
  rcases a.decimal_places with hplaces | hplaces
  · exact (Decimal.decimalPlaces_normalize_le a.gt.2).2 (Decimal.multiple_of_decimalPlaces hplaces)
  · -- nothing was rounded
    have htiny : Decimal.Context.Etiny .default ≤ a.decimal.exponent := by
      unfold Decimal.decimalPlaces maxDscale at hsent
      show (-999999 : Int) - (28 : Nat) + 1 ≤ a.decimal.exponent
      omega
    have hexact := Decimal.normalizeIn_eq (c := .default) (not_lt.1 hdigits) htiny
      (Decimal.adjusted_le_of_normalizeIn a.gt.2 a.normalizes)
    rw [a.normalizes] at hexact
    rwa [Except.ok.inj hexact] at hplaces

/-- The ledger's amount, counted in the last place of the column, is the decimal. -/
def Amount.Of (amount : Amount) (decimal : Decimal) : Prop :=
  (amount.units : ℚ) = decimal.value * 10 ^ 18

theorem ValidAmount.value_pos (a : ValidAmount) : 0 < a.decimal.value :=
  Decimal.value_pos.2 a.gt

theorem fitsNumeric_iff {units : Int} {x : ℚ} (h : (units : ℚ) = x * 10 ^ 18) :
    fitsNumeric units = true ↔ |x| < 10 ^ 18 := by
  have hpow : (0 : ℚ) < 10 ^ 18 := by norm_num
  have habs : |x| * 10 ^ 18 = (units.natAbs : ℚ) := by
    rw [Nat.cast_natAbs, Int.cast_abs, h, abs_mul, abs_of_pos hpow]
  rw [fitsNumeric, decide_eq_true_eq, ← mul_lt_mul_iff_left₀ hpow, habs]
  norm_cast

/-- What fits is an amount of the ledger's. -/
theorem ValidAmount.exists_amount {a : ValidAmount} (h : FitsColumn a.decimal) :
    ∃ amount : Amount, amount.Of a.decimal := by
  obtain ⟨⟨hmultiple, -⟩, -⟩ := (fitsColumn_iff a.gt.2).1 h
  have hunits := Decimal.units_eq hmultiple
  have hpos : (0 : ℚ) < a.decimal.units 18 := by
    rw [hunits]
    exact mul_pos a.value_pos (by norm_num)
  exact ⟨⟨a.decimal.units 18, by exact_mod_cast hpos⟩, hunits⟩

/-! ## The services -/

/-- `_signed`, on the decimal. -/
def signedDecimal (amount : Decimal) (kind : TransactionKind) : Decimal :=
  if kind = .expense then amount.copyNegate else amount

/-- The ledger's whole numbers are the service's decimals. -/
theorem signedDecimal_value {decimal : Decimal} {magnitude : Int} (kind : TransactionKind)
    (h : (magnitude : ℚ) = decimal.value * 10 ^ 18) :
    (signed magnitude kind : ℚ) = (signedDecimal decimal kind).value * 10 ^ 18 := by
  unfold signedDecimal signed
  split
  · rw [Decimal.value_copyNegate, neg_mul, ← h, Int.cast_neg]
  · exact h

section Services

variable [Unicode]

/-- The text of an amount, and what validation makes of it. -/
structure SentAmount where
  text : String
  amount : ValidAmount
  valid : validateAmount (.string text) = .ok amount

/-- The amounts of a request, with what the service signs them by. -/
inductive AmountsSent
  | createTransaction (kind : NonTransferKind) (amount : SentAmount)
  | updateTransaction (stored : TransactionKind) (kind : Option NonTransferKind)
      (amount : SentAmount)
  | createTransfer (amountSent amountReceived : SentAmount) (fee : Option SentAmount)

/-- An amount on its way: as it was sent, and as the service sets it on a row. -/
structure Written where
  sent : SentAmount
  amount : Decimal

def AmountsSent.written : AmountsSent → List Written
  | .createTransaction kind amount =>
    [⟨amount, signedDecimal amount.amount.decimal kind.toKind⟩]
  | .updateTransaction stored kind amount =>
    [⟨amount, signedDecimal amount.amount.decimal ((kind.map NonTransferKind.toKind).getD stored)⟩]
  | .createTransfer amountSent amountReceived fee =>
    ⟨amountSent, amountSent.amount.decimal.copyNegate⟩ ::
      ⟨amountReceived, amountReceived.amount.decimal⟩ ::
      fee.toList.map fun fee => ⟨fee, fee.amount.decimal.copyNegate⟩

/-- Neither refused nor rounded, and but for the sign the number that was sent. -/
structure Written.StoredExactly (written : Written) : Prop where
  in_range : written.amount.value ∈ Numeric.range 36 18
  stored : storedAmount written.amount = some written.amount.value
  sent : |written.amount.value| = sentValue written.sent.text

/-- The row of the ledger holds the amount. -/
def Written.On (written : Written) (row : Transaction) : Prop :=
  (row.amount : ℚ) = written.amount.value * 10 ^ 18

/-- The ledger's requests with these amounts, the statement they send and the rows it is about. -/
inductive Writes (env : Env) (n userId : Nat) :
    AmountsSent → Endpoint → Stmt → List Transaction → Prop
  | createTransaction {payload : TransactionCreate} {a : SentAmount}
      (amount : payload.amount.Of a.amount.decimal) :
    Writes env n userId (.createTransaction payload.kind a) (.createTransaction payload)
      (.insertTransactions [newTransaction env n userId payload])
      [newTransaction env n userId payload]
  | updateTransaction {transactionId : RowId} {loaded : Transaction} {payload : TransactionUpdate}
      {amount : Amount} {a : SentAmount} (sent : payload.amount = some amount)
      (amount_of : amount.Of a.amount.decimal) :
    Writes env n userId (.updateTransaction loaded.kind payload.kind a)
      (.updateTransaction transactionId payload)
      (.updateTransaction loaded (applyTransactionUpdate loaded payload))
      [applyTransactionUpdate loaded payload]
  | createTransfer {payload : TransferCreate} {a b : SentAmount} {c : Option SentAmount}
      (amountSent : payload.amountSent.Of a.amount.decimal)
      (amountReceived : payload.amountReceived.Of b.amount.decimal)
      (fee : payload.fee.Rel (fun fee c => fee.Of c.amount.decimal) c) :
    Writes env n userId (.createTransfer a b c) (.createTransfer payload)
      (.insertTransactions (transferRows env n userId payload)) (transferRows env n userId payload)

/-- Every amount is stored exactly, by the statement that the ledger sends too. -/
structure StoresExactly [Collation] (request : AmountsSent) : Prop where
  amounts : ∀ written ∈ request.written, written.StoredExactly
  statement : ∀ env n userId endpoint q rows, Writes env n userId request endpoint q rows →
    (∀ hits db, q.finish hits db ≠ .error .numericOverflow) ∧
      List.Forall₂ Written.On request.written rows

/-- Whatever field it was sent in, and whichever of the services signs it. -/
theorem AmountsSent.written_signs {request : AmountsSent} :
    ∀ written ∈ request.written, ∃ kind,
      written.amount = signedDecimal written.sent.amount.decimal kind := by
  intro written hw
  cases request with
  | createTransaction kind amount =>
    rw [List.mem_singleton.1 hw]
    exact ⟨_, rfl⟩
  | updateTransaction stored kind amount =>
    rw [List.mem_singleton.1 hw]
    exact ⟨_, rfl⟩
  | createTransfer amountSent amountReceived fee =>
    rcases List.mem_cons.1 hw with rfl | hw
    · exact ⟨.expense, rfl⟩
    rcases List.mem_cons.1 hw with rfl | hw
    · exact ⟨.income, rfl⟩
    · obtain ⟨fee, -, rfl⟩ := List.mem_map.1 hw
      exact ⟨.expense, rfl⟩

omit [Unicode] in
theorem signedDecimal_cases (amount : Decimal) (kind : TransactionKind) :
    (signedDecimal amount kind).decimalPlaces = amount.decimalPlaces ∧
      ((signedDecimal amount kind).value = amount.value ∨
        (signedDecimal amount kind).value = -amount.value) := by
  unfold signedDecimal
  split
  · exact ⟨rfl, Or.inr (Decimal.value_copyNegate _)⟩
  · exact ⟨rfl, Or.inl rfl⟩

/-- One amount, in the column. -/
theorem Written.storedExactly_iff {written : Written} {kind : TransactionKind}
    (h : written.amount = signedDecimal written.sent.amount.decimal kind) :
    written.StoredExactly ↔ FitsColumn written.sent.amount.decimal := by
  obtain ⟨hplaces, hvalue⟩ := signedDecimal_cases written.sent.amount.decimal kind
  rw [← h] at hplaces hvalue
  have hpos := written.sent.amount.value_pos
  have habs : |written.amount.value| = sentValue written.sent.text := by
    rw [sentValue_eq written.sent.valid, ← abs_of_pos hpos]
    rcases hvalue with hvalue | hvalue <;> rw [hvalue]
    exact abs_neg _
  have hrange : written.amount.value ∈ Numeric.range 36 18 ↔
      written.sent.amount.decimal.value ∈ Numeric.range 36 18 := by
    rcases hvalue with hvalue | hvalue <;> rw [hvalue]
    exact Numeric.neg_mem_range
  rw [fitsColumn_iff written.sent.amount.gt.2, ← hrange, ← hplaces]
  constructor
  · rintro ⟨in_range, stored, -⟩
    refine ⟨in_range, ?_⟩
    unfold storedAmount at stored
    split at stored
    · next hsent => exact hsent
    · cases stored
  · rintro ⟨in_range, hsent⟩
    refine ⟨in_range, ?_, habs⟩
    unfold storedAmount
    rw [if_pos hsent, Numeric.store_eq_self.2 in_range]

variable {env : Env} {n userId : Nat} {request : AmountsSent} {endpoint : Endpoint} {q : Stmt}
  {rows : List Transaction}

/-- The rows of the ledger hold what the service sets. -/
theorem Writes.on (h : Writes env n userId request endpoint q rows) :
    List.Forall₂ Written.On request.written rows := by
  cases h with
  | createTransaction amount =>
    exact .cons (signedDecimal_value _ amount) .nil
  | @updateTransaction transactionId loaded payload amount a sent amount_of =>
    refine .cons ?_ .nil
    have hsigned : (applyTransactionUpdate loaded payload).amount =
        signed amount.units ((payload.kind.map NonTransferKind.toKind).getD loaded.kind) := by
      simp only [applyTransactionUpdate, sent, Option.isSome_some, Bool.true_or, if_true,
        Option.map_some, Option.getD_some]
    show ((applyTransactionUpdate loaded payload).amount : ℚ) = _
    rw [hsigned]
    exact signedDecimal_value _ amount_of
  | @createTransfer payload a b c amountSent amountReceived fee =>
    have negated : ∀ {amount : Amount} {decimal : Decimal}, amount.Of decimal →
        ((-amount.units : Int) : ℚ) = decimal.copyNegate.value * 10 ^ 18 :=
      fun h => signedDecimal_value .expense h
    refine .cons (negated amountSent) (.cons amountReceived ?_)
    have hboth := payload.fee_and_account
    cases hfee : payload.fee with
    | none =>
      rw [hfee] at fee
      cases fee
      exact .nil
    | some amount =>
      rw [hfee] at fee hboth
      obtain ⟨feeAccountId, haccount⟩ := Option.isSome_iff_exists.1 hboth.symm
      rw [haccount]
      cases fee with
      | some amount_of => exact .cons (negated amount_of) .nil

omit [Unicode] in
theorem forall_right {α β : Type} {R : α → β → Prop} {P : β → Prop} {l : List α} {u : List β}
    (h : List.Forall₂ R l u) (hR : ∀ a ∈ l, ∀ b, R a b → P b) : ∀ b ∈ u, P b := by
  induction h with
  | nil => exact fun b hb => absurd hb List.not_mem_nil
  | @cons a b l u hab _ ih =>
    intro b' hb'
    rcases List.mem_cons.1 hb' with rfl | hb'
    · exact hR a List.mem_cons_self _ hab
    · exact ih (fun a ha => hR a (List.mem_cons_of_mem _ ha)) b' hb'

/-- Rows whose amounts fit. -/
theorem Writes.fits (h : Writes env n userId request endpoint q rows)
    (hexact : ∀ written ∈ request.written, written.StoredExactly) :
    ∀ row ∈ rows, fitsNumeric row.amount = true :=
  forall_right h.on fun written hw _ hon => (fitsNumeric_iff hon).2 (hexact written hw).in_range.2

variable [Collation]

omit [Unicode] in
theorem insert_fits {rows : List Transaction} (h : ∀ t ∈ rows, fitsNumeric t.amount = true)
    (hits : List Key) (db : Db) :
    (Stmt.insertTransactions rows).finish hits db ≠ .error .numericOverflow := by
  have hfits : (rows.any fun t => !fitsNumeric t.amount) = false := by
    rw [List.any_eq_false]
    intro t ht
    rw [h t ht]
    exact Bool.false_ne_true
  unfold Stmt.finish
  simp only [hfits]
  split
  · exact fun he => by cases he
  · split
    · next hfalse => cases hfalse
    · split
      · exact fun he => by cases he
      · split <;> exact fun he => by cases he

omit [Unicode] in
theorem update_fits {loaded current : Transaction} (h : fitsNumeric current.amount = true)
    (hits : List Key) (db : Db) :
    (Stmt.updateTransaction loaded current).finish hits db ≠ .error .numericOverflow := by
  have hfits : ((changed loaded.amount current.amount).any fun amount => !fitsNumeric amount) =
      false := by
    unfold changed
    split
    · rfl
    · rw [Option.any_some, h]
      rfl
  unfold Stmt.finish
  simp only [hfits]
  split
  · next hfalse => cases hfalse
  · split <;> exact fun he => by cases he

theorem Writes.finish (h : Writes env n userId request endpoint q rows)
    (hfits : ∀ row ∈ rows, fitsNumeric row.amount = true) :
    ∀ hits db, q.finish hits db ≠ .error .numericOverflow := by
  cases h with
  | createTransaction => exact insert_fits hfits
  | updateTransaction => exact update_fits (hfits _ List.mem_cons_self)
  | createTransfer => exact insert_fits hfits

/-- **Amounts are stored exactly** if and only if the digits of all that the request sends fit. -/
theorem stored_exactly_iff (request : AmountsSent) :
    StoresExactly request ↔
      ∀ written ∈ request.written, FitsColumn written.sent.amount.decimal := by
  constructor
  · intro h written hw
    obtain ⟨kind, hsigned⟩ := AmountsSent.written_signs written hw
    exact (Written.storedExactly_iff hsigned).1 (h.amounts written hw)
  · intro hfit
    have hexact : ∀ written ∈ request.written, written.StoredExactly := by
      intro written hw
      obtain ⟨kind, hsigned⟩ := AmountsSent.written_signs written hw
      exact (Written.storedExactly_iff hsigned).2 (hfit written hw)
    refine ⟨hexact, fun env n userId endpoint q rows h => ⟨?_, h.on⟩⟩
    exact h.finish (h.fits hexact)

end Services

/-! ## What can be sent -/

/-- A decimal as the column hands it out passes the checks. -/
theorem checkConstraints_fits {decimal : Decimal} (hpos : 0 < decimal.value)
    (hplaces : decimal.decimalPlaces ≤ 18) (hlt : |decimal.value| < 10 ^ 18) :
    ∃ a, checkConstraints decimal = .ok a ∧ a.decimal = decimal := by
  have hgt := Decimal.value_pos.1 hpos
  have hlead : decimal.adjusted < 18 := (Decimal.lead_lt_iff hgt.2).2 hlt
  obtain ⟨normalized, hnormalized⟩ := Decimal.normalizeIn_ok (c := .default) (d := decimal)
    (by decide) (lt_trans hlead (by decide))
  let a : ValidAmount :=
    { decimal, gt := hgt, normalized, normalizes := hnormalized
      max_digits := Or.inl (Decimal.totalDigits_le hgt.2 hplaces hlt)
      decimal_places := Or.inl hplaces }
  exact ⟨a, a.checked, rfl⟩

/-- It is read as it was written. -/
theorem representable_fits {decimal : Decimal} (hne : decimal.coefficient ≠ 0)
    (hplaces : decimal.decimalPlaces ≤ 18) (hlt : |decimal.value| < 10 ^ 18) :
    decimal.Representable := by
  have hlead : decimal.adjusted < 18 := (Decimal.lead_lt_iff hne).2 hlt
  unfold Decimal.decimalPlaces at hplaces
  unfold Decimal.Representable Decimal.maxEmax Decimal.minEtiny
  omega

/-- A stored amount as the driver reads it, 18 places behind the point. -/
def storedDecimal (amount : Int) : Decimal := ⟨decide (amount < 0), amount.natAbs, -18⟩

theorem storedDecimal_value (amount : Int) :
    (amount.natAbs : ℚ) = (storedDecimal amount).copyAbs.value * 10 ^ 18 := by
  show (amount.natAbs : ℚ) = ((1 : Int) : ℚ) * amount.natAbs * 10 ^ (-18 : Int) * 10 ^ 18
  have hpow : (10 : ℚ) ^ (-18 : Int) * 10 ^ 18 = 1 := by norm_num
  rw [mul_assoc, hpow, Int.cast_one, one_mul, mul_one]

/-- The schema is not too strict: whatever the column can hold can be sent. -/
theorem every_amount_can_be_sent [Unicode] {amount : Amount}
    (hfits : fitsNumeric amount.units = true) :
    ∃ sent : SentAmount, amount.Of sent.amount.decimal := by
  obtain ⟨decimal, hdecimal⟩ : ∃ d, (storedDecimal amount.units).copyAbs = d := ⟨_, rfl⟩
  have hof : amount.Of decimal := by
    have hnonneg : ((amount.units.natAbs : Int) : ℚ) = amount.units := by
      rw [Int.natAbs_of_nonneg (Int.le_of_lt amount.pos)]
    have hvalue := storedDecimal_value amount.units
    rw [hdecimal] at hvalue
    rw [Amount.Of, ← hvalue, ← hnonneg, Int.cast_natCast]
  have hpos : 0 < decimal.value := by
    rw [Decimal.value_pos, ← hdecimal]
    exact ⟨rfl, Int.natAbs_ne_zero.2 (Int.ne_of_gt amount.pos)⟩
  have hplaces : decimal.decimalPlaces ≤ 18 := by
    rw [← hdecimal]
    exact Nat.le_refl 18
  have hlt := (fitsNumeric_iff hof).1 hfits
  obtain ⟨hpositive, hne⟩ := Decimal.value_pos.1 hpos
  obtain ⟨a, ha, rfl⟩ := checkConstraints_fits hpos hplaces hlt
  have hread : Decimal.read (String.ofList
      (Decimal.text a.decimal.coefficient a.decimal.exponent)).toList = some (.finite a.decimal) := by
    rw [String.toList_ofList, Decimal.read_text, ← hpositive]
  have hvalid := validateAmount_read hread (representable_fits hne hplaces hlt)
  exact ⟨⟨_, a, hvalid.trans ha⟩, hof⟩

/-! ## Examples -/

/-- POST /transactions {"amount": .., "kind": "income", ..} -/
def income (amount : Amount) : TransactionCreate where
  accountId := .one
  amount := amount
  kind := .income
  occurredAt := 0

theorem cents_stored_exactly : ∃ (_ : Unicode) (_ : Collation) (request : AmountsSent),
    request.written.map (fun written => written.sent.text) = [" 9_00.50"] ∧
      StoresExactly request := by
  let _ : Unicode := Unicode.ascii
  let _ : Collation := Collation.codePoints
  let a : ValidAmount :=
    { decimal := ⟨false, 90050, -2⟩, gt := by decide, normalized := ⟨false, 9005, -1⟩
      normalizes := by decide +kernel, max_digits := by decide +kernel, decimal_places := by decide }
  have valid : validateAmount (.string " 9_00.50") = .ok a := by
    decide +kernel
  let request : AmountsSent := .createTransaction .income ⟨" 9_00.50", a, valid⟩
  refine ⟨Unicode.ascii, Collation.codePoints, request, rfl, (stored_exactly_iff request).2 ?_⟩
  intro written hw
  rw [List.mem_singleton.1 hw]
  show FitsColumn a.decimal
  decide +kernel

/-- 19 digits in front of the point: the schema counts 19 of 36, the column has room for 18. -/
theorem nineteen_digits_overflow : ∃ (_ : Unicode) (_ : Collation) (request : AmountsSent)
    (payload : TransactionCreate) (q : Stmt) (rows : List Transaction),
    request.written.map (fun written => written.sent.text) = ["1000000000000000000"] ∧
      Writes .counting 0 1 request (.createTransaction payload) q rows ∧
      q.finish [] Db.empty = .error .numericOverflow ∧ ¬ StoresExactly request := by
  let _ : Unicode := Unicode.ascii
  let _ : Collation := Collation.codePoints
  let a : ValidAmount :=
    { decimal := ⟨false, 10 ^ 18, 0⟩, gt := by decide, normalized := ⟨false, 1, 18⟩
      normalizes := by decide +kernel, max_digits := by decide +kernel, decimal_places := by decide }
  have valid : validateAmount (.string "1000000000000000000") = .ok a := by
    decide +kernel
  let request : AmountsSent := .createTransaction .income ⟨"1000000000000000000", a, valid⟩
  let amount : Amount := ⟨10 ^ 36, by decide⟩
  have hof : amount.Of a.decimal := by
    show ((10 ^ 36 : Int) : ℚ) = ((1 : Int) : ℚ) * (10 ^ 18 : Nat) * 10 ^ (0 : Int) * 10 ^ 18
    norm_num
  have hwrites : Writes .counting 0 1 request (.createTransaction (income amount)) _ _ :=
    @Writes.createTransaction _ _ _ _ (income amount) ⟨"1000000000000000000", a, valid⟩ hof
  have hoverflow : (Stmt.insertTransactions [newTransaction .counting 0 1 (income amount)]).finish []
      Db.empty = .error .numericOverflow := by
    decide +kernel
  exact ⟨Unicode.ascii, Collation.codePoints, request, income amount, _, _, rfl, hwrites, hoverflow,
    fun hstored => (hstored.statement _ _ _ _ _ _ hwrites).1 [] Db.empty hoverflow⟩

/-- Of these 29 digits `normalize` keeps 28, with 18 places, and the column rounds the last away. -/
example :
    (@validateAmount Unicode.ascii (.string "1234567890.1234567890123456789")).toOption.map
      (fun a => storedAmount a.decimal) = some (some (1234567890123456789012345679 / 10 ^ 18)) := by
  decide +kernel

/-- Below 10¹⁸, and `normalize` makes it 10¹⁸, as the column does. -/
example :
    (@validateAmount Unicode.ascii (.string "999999999999999999.9999999999999999999")).toOption.map
      (fun a => storedAmount a.decimal) = some none := by
  decide +kernel

end Tradinghub.Ledger
