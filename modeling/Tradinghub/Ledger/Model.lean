import Tradinghub.Core.Errors
import Tradinghub.Lib.Sql
import Tradinghub.Lib.Table

/-!
# The ledger's rows, requests and answers

The two tables (`models/`), what the schemas let through (`schemas/`) and what the endpoints answer.
Amounts are whole numbers of 10⁻¹⁸, the last place of `NUMERIC(36, 18)`; times are microseconds.
A schema's check is a field of its structure, so a request that would be a 422 cannot be built.
-/

namespace Tradinghub.Ledger

open Store

/-! ## Rows -/

/-- What the account is for.  Cosmetic: every balance is computed the same way. -/
inductive AccountType where
  | cash
  | crypto
  | stock
  deriving DecidableEq, Repr

inductive TransactionKind where
  | income
  | expense
  | transfer
  deriving DecidableEq, Repr

structure Account where
  id : Nat
  userId : Nat
  name : String
  /-- what the balance is counted in -/
  unit : String
  type : AccountType
  archivedAt : Option Int
  deriving DecidableEq, Repr

structure Transaction where
  id : Nat
  userId : Nat
  accountId : Nat
  /-- signed: out is negative -/
  amount : Int
  kind : TransactionKind
  category : Option String
  occurredAt : Int
  note : Option String
  /-- both sides of a transfer, plus any fee -/
  transferGroupId : Option Nat
  deriving DecidableEq, Repr

instance : Keyed Account := ⟨Account.id⟩

instance : Keyed Transaction := ⟨Transaction.id⟩

structure Db where
  accounts : Table Account
  transactions : Table Transaction

def Db.empty : Db := ⟨Table.empty, Table.empty⟩

/-- How the database compares text: `fold` decides when two CITEXT names are one, `le` is the order
of ORDER BY, on folded names too. -/
class Collation where
  fold : String → String
  le : String → String → Bool
  le_trans : ∀ a b c, le a b = true → le b c = true → le a c = true
  le_total : ∀ a b, (le a b || le b a) = true
  le_antisymm : ∀ a b, le a b = true → le b a = true → a = b

/-- Text compared by code points, with case. -/
@[reducible] def Collation.codePoints : Collation where
  fold := id
  le a b := a ≤ b
  le_trans a b c hab hbc := decide_eq_true
    (String.le_trans (of_decide_eq_true hab) (of_decide_eq_true hbc))
  le_total a b := by
    rw [Bool.or_eq_true, decide_eq_true_eq, decide_eq_true_eq]
    exact String.le_total a b
  le_antisymm a b hab hba := String.le_antisymm (of_decide_eq_true hab) (of_decide_eq_true hba)

/-- Text compared by code points, names without case. -/
@[reducible] def Collation.ignoringCase : Collation :=
  { Collation.codePoints with fold := fun name => String.ofList (name.toList.map Char.toLower) }

/-! ## Requests -/

def maxRowId : Nat := 2 ^ 31 - 1

/-- What an INTEGER primary key can hold. -/
structure RowId where
  val : Nat
  pos : 1 ≤ val
  le : val ≤ maxRowId
  deriving DecidableEq, Repr

/-- A validated amount that is a whole number of 10⁻¹⁸, counted in it. -/
structure Amount where
  units : Int
  pos : 0 < units
  deriving DecidableEq, Repr

/-- A lone half of a transfer cannot be created or patched in. -/
inductive NonTransferKind where
  | income
  | expense
  deriving DecidableEq, Repr

def NonTransferKind.toKind : NonTransferKind → TransactionKind
  | .income => .income
  | .expense => .expense

theorem NonTransferKind.toKind_ne (kind : NonTransferKind) : kind.toKind ≠ .transfer := by
  cases kind <;> decide

structure AccountCreate where
  name : String
  unit : String
  type : AccountType
  deriving DecidableEq, Repr

/-- A partial update: `none` is left alone. -/
structure AccountUpdate where
  name : Option String := none
  unit : Option String := none
  type : Option AccountType := none
  archived : Option Bool := none
  deriving DecidableEq, Repr

structure TransactionCreate where
  accountId : RowId
  amount : Amount
  kind : NonTransferKind
  category : Option String := none
  occurredAt : Int
  note : Option String := none
  deriving DecidableEq, Repr

/-- A partial update: `none` was not sent, and a category or note sent as null clears it. -/
structure TransactionUpdate where
  amount : Option Amount := none
  kind : Option NonTransferKind := none
  category : Option (Option String) := none
  occurredAt : Option Int := none
  note : Option (Option String) := none
  deriving DecidableEq, Repr

structure TransactionFilters where
  accountId : Option RowId := none
  kind : Option TransactionKind := none
  category : Option String := none
  occurredFrom : Option Int := none
  occurredTo : Option Int := none
  limit : Nat := 50
  offset : Nat := 0
  limit_pos : 1 ≤ limit
  limit_le : limit ≤ 200
  /-- what OFFSET can hold -/
  offset_le : offset ≤ 2 ^ 63 - 1
  deriving DecidableEq, Repr

structure TransferCreate where
  fromAccountId : RowId
  toAccountId : RowId
  amountSent : Amount
  amountReceived : Amount
  fee : Option Amount := none
  feeAccountId : Option RowId := none
  feeCategory : Option String := none
  occurredAt : Int
  note : Option String := none
  fee_and_account : fee.isSome = feeAccountId.isSome
  category_needs_fee : fee = none → feeCategory = none
  deriving DecidableEq, Repr

/-- The range includes its start and excludes its end. -/
structure SummaryPeriod where
  occurredFrom : Int
  occurredTo : Int
  start_before_end : occurredFrom < occurredTo
  deriving DecidableEq, Repr

/-! ## Answers -/

structure AccountResponse where
  id : Nat
  name : String
  unit : String
  type : AccountType
  balance : Int
  archivedAt : Option Int
  deriving DecidableEq, Repr

structure TransactionResponse where
  id : Nat
  accountId : Nat
  amount : Int
  kind : TransactionKind
  category : Option String
  occurredAt : Int
  note : Option String
  transferGroupId : Option Nat
  deriving DecidableEq, Repr

structure TransactionPage where
  items : List TransactionResponse
  total : Nat
  deriving DecidableEq, Repr

structure UnitTotal where
  unit : String
  amount : Int
  deriving DecidableEq, Repr

/-- A null category is uncategorised. -/
structure CategoryTotal where
  category : Option String
  unit : String
  amount : Int
  deriving DecidableEq, Repr

structure SummaryResponse where
  totals : List UnitTotal
  income : List UnitTotal
  expenses : List UnitTotal
  byCategory : List CategoryTotal
  deriving DecidableEq, Repr

/-! ## Errors -/

def AccountNotFoundError : AppError where
  code := "account_not_found"
  message := "Account not found."
  statusCode := 404

def AccountNameTakenError : AppError where
  code := "account_name_taken"
  message := "You already have an account with that name."
  statusCode := 409

def TransactionNotFoundError : AppError where
  code := "transaction_not_found"
  message := "Transaction not found."
  statusCode := 404

def TransferNotEditableError : AppError where
  code := "transfer_not_editable"
  message := "A transfer cannot be edited. Delete it and record it again."
  statusCode := 409

def TransferAmountsDifferError : AppError where
  code := "transfer_amounts_differ"
  message :=
    "Between accounts of the same unit, the amount sent must equal the amount received."
  statusCode := 422

def TransferSameAccountError : AppError where
  code := "transfer_same_account"
  message := "A transfer needs two different accounts."
  statusCode := 422

end Tradinghub.Ledger
