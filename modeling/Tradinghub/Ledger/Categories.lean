import Tradinghub.Ledger.Amounts
import Tradinghub.Ledger.Paging
import Tradinghub.Lib.StringConstraints

/-!
# The texts a user names things by

What the schemas let through of a name, a unit, a category and a note (`schemas/`).  Each of them can
be sent back as it is stored, except that a category is lowered after its length is checked and may
not fit any more (`sentBack_iff`): then no filter finds it.
-/

namespace Tradinghub.Ledger

open ReadCommitted

/-! ## Schemas -/

/-- No null anywhere: Postgres text cannot store it. -/
def noNulPattern (cs : List Char) : Bool := cs.all (· ≠ '\x00')

/-- One ASCII letter or digit, or more. -/
def alphanumericPattern (cs : List Char) : Bool := !cs.isEmpty && cs.all Char.isAlphanum

def Schemas.AccountName : StringConstraints where
  stripWhitespace := true
  minLength := 1
  maxLength := 60
  pattern := noNulPattern

def Schemas.Unit : StringConstraints where
  stripWhitespace := true
  letterCase := .upper
  minLength := 2
  maxLength := 10
  pattern := alphanumericPattern

def Schemas.Category : StringConstraints where
  stripWhitespace := true
  letterCase := .lower
  minLength := 1
  maxLength := 40
  pattern := noNulPattern

def Schemas.Note : StringConstraints where
  stripWhitespace := true
  maxLength := 500
  pattern := noNulPattern

theorem TransactionFilters.default_limit_pos : 1 ≤ 50 := by decide

theorem TransactionFilters.default_limit_le : 50 ≤ 200 := by decide

theorem TransactionFilters.default_offset_le : 0 ≤ 2 ^ 63 - 1 := Nat.zero_le _

section Texts

variable [Casing]

def validateText (constraints : StringConstraints) : JsonValue → Except StringError String
  | .string text => constraints.validate text
  | .other => .error .stringType

/-- GET /transactions?category=.., with no other filter. -/
def categoryQuery (category : String) : Except StringError TransactionFilters :=
  (validateText Schemas.Category (.string category)).map fun category =>
    { category := some category
      limit_pos := TransactionFilters.default_limit_pos
      limit_le := TransactionFilters.default_limit_le
      offset_le := TransactionFilters.default_offset_le }

/-- The row an endpoint writes with the category it was sent. -/
inductive Files (env : Env) (n userId : Nat) (category : String) :
    Endpoint → Transaction → Prop
  | createTransaction {payload : TransactionCreate} (sent : payload.category = some category) :
    Files env n userId category (.createTransaction payload) (newTransaction env n userId payload)
  | updateTransaction {transactionId : RowId} {loaded : Transaction} {payload : TransactionUpdate}
      (sent : payload.category = some (some category)) :
    Files env n userId category (.updateTransaction transactionId payload)
      (applyTransactionUpdate loaded payload)
  | createTransfer {payload : TransferCreate} {fee : Amount} {feeAccountId : RowId}
      (sent : payload.feeCategory = some category) (hfee : payload.fee = some fee)
      (feeAccount : payload.feeAccountId = some feeAccountId) :
    Files env n userId category (.createTransfer payload)
      (transactionRow env n userId 2 payload feeAccountId.val (-fee.units) .expense
        payload.feeCategory)

/-- What a response shows can be sent back, and finds the row it came with. -/
structure SentBack [Collation] (category : String) (row : Transaction) : Prop where
  shown : (transactionResponse row).category = some category
  length : 1 ≤ category.length ∧ category.length ≤ 40
  again : validateText Schemas.Category (.string category) = .ok category
  found : ∀ (env : Env) (s : LedgerSystem),
    Run engine (handle env) anyStep { world := initialWorld } s → row ∈ s.world.db.transactions →
      ∃ filters, categoryQuery category = .ok filters ∧
        row ∈ pagesFrom s.world.db row.userId filters 0

end Texts

/-! ## What is let through again -/

section Again

theorem noNulPattern_iff {cs : List Char} : noNulPattern cs = true ↔ '\x00' ∉ cs := by
  unfold noNulPattern
  rw [List.all_eq_true]
  constructor
  · exact fun h hmem => absurd rfl (of_decide_eq_true (h _ hmem))
  · intro h c hc
    refine decide_eq_true ?_
    rintro rfl
    exact h hc

theorem isAlphanum_toUpper {c : Char} (h : c.isAlphanum = true) : c.toUpper.isAlphanum = true := by
  rcases Casing.toUpper_cases c with hsame | ⟨hmin, hmax⟩
  · rw [hsame, h]
  · have hupper : c.toUpper.isUpper = true :=
      decide_eq_true ⟨UInt32.le_iff_toNat_le.2 hmin, UInt32.le_iff_toNat_le.2 hmax⟩
    show ((c.toUpper.isUpper || c.toUpper.isLower) || c.toUpper.isDigit) = true
    rw [hupper]
    rfl

theorem isAlphanum_ascii {c : Char} (h : c.isAlphanum = true) : c.toNat < 128 := by
  have hcases : ((c.isUpper || c.isLower) || c.isDigit) = true := h
  rw [Bool.or_eq_true, Bool.or_eq_true] at hcases
  rcases hcases with (hupper | hlower) | hdigit
  · have hle : c.toNat ≤ 'Z'.toNat := UInt32.le_iff_toNat_le.1 (of_decide_eq_true hupper).2
    exact Nat.lt_of_le_of_lt hle (by decide)
  · have hle : c.toNat ≤ 'z'.toNat :=
      UInt32.le_iff_toNat_le.1 (of_decide_eq_true (Bool.and_eq_true_iff.1 hlower).2)
    exact Nat.lt_of_le_of_lt hle (by decide)
  · exact Decimal.isDigit_lt hdigit

variable [Casing] {text value : String}

theorem accountName_again (h : Schemas.AccountName.validate text = .ok value) :
    Schemas.AccountName.validate value = .ok value :=
  StringConstraints.validate_again_asSent rfl h

theorem note_again (h : Schemas.Note.validate text = .ok value) :
    Schemas.Note.validate value = .ok value :=
  StringConstraints.validate_again_asSent rfl h

/-- An ASCII letter has one capital. -/
theorem unit_again (h : Schemas.Unit.validate text = .ok value) :
    Schemas.Unit.validate value = .ok value := by
  obtain ⟨hpasses, hvalue⟩ := StringConstraints.validate_ok.1 h
  have hpattern := hpasses.pattern
  obtain ⟨hne, hall⟩ := Bool.and_eq_true_iff.1 hpattern
  rw [List.all_eq_true] at hall
  have hupper : Schemas.Unit.changeCase (Schemas.Unit.strip text) =
      (Schemas.Unit.strip text).map Char.toUpper :=
    Casing.uppercase_ascii fun c hc => isAlphanum_ascii (hall c hc)
  refine StringConstraints.validate_again_of_length (by rw [hupper, List.length_map]) h ?_
  rw [hvalue, hupper]
  refine Bool.and_eq_true_iff.2 ⟨?_, ?_⟩
  · rw [List.isEmpty_map]
    exact hne
  · rw [List.all_eq_true]
    intro c hc
    obtain ⟨b, hb, rfl⟩ := List.mem_map.1 hc
    exact isAlphanum_toUpper (hall b hb)

/-! ## Categories -/

theorem category_length (h : Schemas.Category.validate text = .ok value) :
    value.length = (Casing.trim text.toList).length + (Casing.trim text.toList).count 'İ' := by
  obtain ⟨-, hvalue⟩ := StringConstraints.validate_ok.1 h
  rw [← String.length_toList, hvalue]
  exact Casing.length_lowercase _

/-- Its length is all that can be wrong with a stored category. -/
theorem category_again_iff (h : Schemas.Category.validate text = .ok value) :
    Schemas.Category.validate value = .ok value ↔ value.length ≤ 40 := by
  obtain ⟨hpasses, hvalue⟩ := StringConstraints.validate_ok.1 h
  refine StringConstraints.validate_again h ?_
  have hnul := noNulPattern_iff.1 hpasses.pattern
  refine noNulPattern_iff.2 ?_
  rw [hvalue]
  exact StringConstraints.changeCase_noNul hnul

omit [Casing] in
theorem Files.category {env : Env} {n userId : Nat} {endpoint : Endpoint} {row : Transaction}
    (h : Files env n userId value endpoint row) :
    (transactionResponse row).category = some value := by
  cases h with
  | createTransaction sent => exact sent
  | updateTransaction sent =>
    show Option.getD _ _ = some value
    rw [sent]
    rfl
  | createTransfer sent _ _ => exact sent

/-- Filtering by the category of a row finds it, whatever page it is on. -/
theorem categoryQuery_finds [Collation] {env : Env} {s : LedgerSystem} {row : Transaction}
    (hrun : Run engine (handle env) anyStep { world := initialWorld } s)
    (hrow : row ∈ s.world.db.transactions) (hcategory : row.category = some value)
    (hagain : validateText Schemas.Category (.string value) = .ok value) :
    ∃ filters, categoryQuery value = .ok filters ∧
      row ∈ pagesFrom s.world.db row.userId filters 0 := by
  refine ⟨_, by rw [categoryQuery, hagain]; rfl, ?_⟩
  rw [((ledger_run (initial_ledger env) rfl hrun).inv.1.paged row.userId _).rows]
  refine ⟨hrow, rfl, ?_, ?_, ?_, ?_, ?_⟩
  · rintro _ ⟨⟩
  · rintro _ ⟨⟩
  · rintro _ ⟨⟩
    exact hcategory
  · rintro _ ⟨⟩
  · rintro _ ⟨⟩

/-- **A stored category can be sent back**, if its lower case is no longer than the limit. -/
theorem sentBack_iff [Collation] {env : Env} {n userId : Nat} {endpoint : Endpoint}
    {row : Transaction} (valid : validateText Schemas.Category (.string text) = .ok value)
    (hfiles : Files env n userId value endpoint row) :
    SentBack value row ↔
      (Casing.trim text.toList).length + (Casing.trim text.toList).count 'İ' ≤ 40 := by
  have hlength : value.length = _ := category_length valid
  rw [← hlength]
  constructor
  · exact fun h => h.length.2
  · intro hmax
    have hagain : validateText Schemas.Category (.string value) = .ok value :=
      (category_again_iff valid).2 hmax
    have hmin : 1 ≤ (Casing.trim text.toList).length :=
      (StringConstraints.validate_ok.1 valid).1.minLength
    exact
      { shown := hfiles.category
        length := ⟨by omega, hmax⟩
        again := hagain
        found := fun env s hrun hrow => categoryQuery_finds hrun hrow hfiles.category hagain }

end Again

def spentOn (category : String) : TransactionCreate where
  accountId := RowId.one
  amount := ⟨59 * 10 ^ 18, by decide⟩
  kind := .expense
  category := some category
  occurredAt := 0

theorem sentBack_iff_rent : ∃ (_ : Casing) (_ : Collation),
    validateText Schemas.Category (.string " Rent\n") = .ok "rent" ∧
      SentBack "rent" (newTransaction .counting 0 1 (spentOn "rent")) := by
  let _ : Casing := Casing.ascii
  let _ : Collation := Collation.codePoints
  have valid : validateText Schemas.Category (.string " Rent\n") = .ok "rent" := by decide +kernel
  have hfiles : Files .counting 0 1 "rent" (.createTransaction (spentOn "rent"))
      (newTransaction .counting 0 1 (spentOn "rent")) := .createTransaction rfl
  exact ⟨Casing.ascii, Collation.codePoints, valid,
    (sentBack_iff valid hfiles).2 (by decide +kernel)⟩

/-- Forty characters before the dot of the capital I is one of its own, and no filter takes
forty-one. -/
theorem category_not_sent_back : ∃ (_ : Casing) (_ : Collation) (category : String),
    validateText Schemas.Category (.string "İstanbul ile Ankara arası tren biletleri") =
        .ok category ∧
      Files .counting 0 1 category (.createTransaction (spentOn category))
        (newTransaction .counting 0 1 (spentOn category)) ∧
      categoryQuery category = .error (.tooLong 40) ∧
      ¬ SentBack category (newTransaction .counting 0 1 (spentOn category)) := by
  let _ : Casing := Casing.ascii
  let _ : Collation := Collation.codePoints
  have valid : validateText Schemas.Category (.string "İstanbul ile Ankara arası tren biletleri") =
      .ok "i\u0307stanbul ile ankara arası tren biletleri" := by decide +kernel
  have hrefused : categoryQuery "i\u0307stanbul ile ankara arası tren biletleri" =
      .error (.tooLong 40) := by
    have hagain : validateText Schemas.Category
        (.string "i\u0307stanbul ile ankara arası tren biletleri") = .error (.tooLong 40) := by
      decide +kernel
    rw [categoryQuery, hagain]
    rfl
  refine ⟨Casing.ascii, Collation.codePoints, _, valid, .createTransaction rfl, hrefused, ?_⟩
  intro h
  have hlong : ¬ "i\u0307stanbul ile ankara arası tren biletleri".length ≤ 40 := by decide +kernel
  exact hlong h.length.2

end Tradinghub.Ledger
