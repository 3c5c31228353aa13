import Tradinghub.Ledger.Statements
import Mathlib.Data.Nat.Pairing

/-!
# The ledger's services and endpoints

`services/` and `routes.py`, each endpoint as the program of statements it sends.  GET /summary
runs at REPEATABLE READ, so its three queries see one snapshot and are one step here; every other
request is a READ COMMITTED transaction, each statement seeing what is committed when it begins.
-/

namespace Tradinghub.Ledger

open ReadCommitted Store

/-- What the database and `uuid4` decide: the ids of the rows request `n` inserts and its one group
id, none of them handed out twice, and the order in which its summary comes upon the categories,
which may depend on anything that is stored. -/
structure Env where
  accountId : Nat → Nat
  transactionId : Nat → Nat → Nat
  uuid4 : Nat → Nat
  categoriesFound : Nat → Db → Sql.Found CategoryTotal
  accountId_pos : ∀ n, 1 ≤ accountId n
  accountId_fresh : ∀ n m, accountId n = accountId m → n = m
  transactionId_fresh : ∀ n i m j, transactionId n i = transactionId m j → n = m ∧ i = j
  uuid4_fresh : ∀ n m, uuid4 n = uuid4 m → n = m

/-- Sequences that count up, from `start` on. -/
def Env.counting (start : Nat := 0)
    (categoriesFound : Nat → Db → Sql.Found CategoryTotal := fun _ _ => .asStored) : Env where
  accountId n := n + 1 + start
  transactionId n i := Nat.pair n i + start
  uuid4 n := n + start
  categoriesFound := categoriesFound
  accountId_pos n := by omega
  accountId_fresh n m h := by omega
  transactionId_fresh n i m j h := Nat.pair_eq_pair.1 (by omega)
  uuid4_fresh n m h := by omega

/-- The first ids they hand out. -/
def RowId.one : RowId := ⟨1, by decide, by decide⟩

def RowId.two : RowId := ⟨2, by decide, by decide⟩

abbrev Program := Prog Db Key Stmt DbError Failure

/-- A flush: the rows taken, or the database's error. -/
def flush (q : Stmt) : Program (Except DbError (List Key)) := .exec q fun r => .ret (r.map Prod.fst)

/-- A statement whose errors escape as they are. -/
def execute (q : Stmt) : Program (List Key) := do
  match ← flush q with
  | .ok hits => return hits
  | .error d => .raise (.database d)

def DbError.isIntegrityError : DbError → Bool
  | .uniqueViolation => true
  | .foreignKeyViolation => true
  | _ => false

/-- `except IntegrityError: raise AccountNameTakenError` -/
def orNameTaken : Except DbError (List Key) → Program Unit
  | .ok _ => pure ()
  | .error d =>
    if DbError.isIntegrityError d then .raise (.app AccountNameTakenError)
    else .raise (.database d)

variable [Collation] (env : Env) (n userId : Nat)

/-! ## Accounts (`services/accounts.py`) -/

/-- The row of `create_account`. -/
def newAccount (details : AccountCreate) : Account where
  id := env.accountId n
  userId := userId
  name := details.name
  unit := details.unit
  type := details.type
  archivedAt := none

def createAccount (details : AccountCreate) : Program AccountWithBalance := do
  let account := newAccount env n userId details
  orNameTaken (← flush (.insertAccount account))
  return { account := account, balance := 0 }

def getAccountOrRaise (accountId : Nat) : Program AccountWithBalance := do
  match ← Prog.select fun db => getAccountWithBalance db accountId userId with
  | none => .raise (.app AccountNotFoundError)
  | some accountWithBalance => return accountWithBalance

/-- The fields the caller sent.  Archiving keeps the first date. -/
def applyAccountUpdate (account : Account) (changes : AccountUpdate) : Program Account := do
  let account : Account :=
    { account with
      name := changes.name.getD account.name
      unit := changes.unit.getD account.unit
      type := changes.type.getD account.type }
  if changes.archived = some false then
    return { account with archivedAt := none }
  else if changes.archived = some true ∧ account.archivedAt = none then
    let now ← Prog.now
    return { account with archivedAt := some now }
  else
    return account

/-- Nothing changed, nothing sent. -/
def flushAccount (loaded current : Account) : Program (Except DbError (List Key)) :=
  if loaded = current then return .ok [] else flush (.updateAccount loaded current)

def updateAccount (accountId : Nat) (changes : AccountUpdate) : Program AccountWithBalance := do
  let accountWithBalance ← getAccountOrRaise userId accountId
  let loaded := accountWithBalance.account
  let account ← applyAccountUpdate loaded changes
  orNameTaken (← flushAccount loaded account)
  return { accountWithBalance with account := account }

/-! ## Transactions (`services/transactions.py`) -/

/-- The one place the sign convention lives: the API takes a positive amount and a kind. -/
def signed (amount : Int) (kind : TransactionKind) : Int :=
  if kind = .expense then -amount else amount

/-- The row of `create_transaction`. -/
def newTransaction (details : TransactionCreate) : Transaction where
  id := env.transactionId n 0
  userId := userId
  accountId := details.accountId.val
  amount := signed details.amount.units details.kind.toKind
  kind := details.kind.toKind
  category := details.category
  occurredAt := details.occurredAt
  note := details.note
  transferGroupId := none

def createTransaction (details : TransactionCreate) : Program Transaction := do
  match ← Prog.select fun db => getAccount db details.accountId.val userId with
  | none => .raise (.app AccountNotFoundError)
  | some _ =>
    let transaction := newTransaction env n userId details
    discard <| execute (.insertTransactions [transaction])
    return transaction

def getTransactionOrRaise (transactionId : Nat) : Program Transaction := do
  match ← Prog.select fun db => getTransaction db transactionId userId with
  | none => .raise (.app TransactionNotFoundError)
  | some transaction => return transaction

/-- The fields the caller sent.  The sign is recomputed whenever the amount or the kind is sent. -/
def applyTransactionUpdate (transaction : Transaction) (changes : TransactionUpdate) :
    Transaction :=
  let kind := (changes.kind.map NonTransferKind.toKind).getD transaction.kind
  let magnitude := (changes.amount.map Amount.units).getD transaction.amount.natAbs
  { transaction with
    amount :=
      if changes.amount.isSome || changes.kind.isSome then signed magnitude kind
      else transaction.amount
    kind := kind
    category := changes.category.getD transaction.category
    occurredAt := changes.occurredAt.getD transaction.occurredAt
    note := changes.note.getD transaction.note }

/-- Nothing changed, nothing sent. -/
def flushTransaction (loaded current : Transaction) : Program Unit :=
  if loaded = current then pure () else discard <| execute (.updateTransaction loaded current)

def updateTransaction (transactionId : Nat) (changes : TransactionUpdate) :
    Program Transaction := do
  let transaction ← getTransactionOrRaise userId transactionId
  if transaction.transferGroupId.isSome then
    .raise (.app TransferNotEditableError)
  else
    let current := applyTransactionUpdate transaction changes
    flushTransaction transaction current
    return current

def deleteTransaction (transactionId : Nat) : Program Unit := do
  let deletedIds ← execute (.deleteTransaction userId transactionId)
  if deletedIds.isEmpty then .raise (.app TransactionNotFoundError) else pure ()

/-! ## Transfers (`services/transfers.py`) -/

/-- The set of account ids a transfer names. -/
def TransferCreate.accountIds (details : TransferCreate) : List Nat :=
  (details.fromAccountId.val :: details.toAccountId.val ::
    (details.feeAccountId.map RowId.val).toList).dedup

/-- `_transaction_row`, the `i`-th of the request. -/
def transactionRow (i : Nat) (details : TransferCreate) (accountId : Nat) (amount : Int)
    (kind : TransactionKind) (category : Option String) : Transaction where
  id := env.transactionId n i
  userId := userId
  accountId := accountId
  amount := amount
  kind := kind
  category := category
  occurredAt := details.occurredAt
  note := details.note
  transferGroupId := some (env.uuid4 n)

/-- Both sides of the transfer, and the fee as an expense if there is one. -/
def transferRows (details : TransferCreate) : List Transaction :=
  let row := transactionRow env n userId
  [row 0 details details.fromAccountId.val (-details.amountSent.units) .transfer none,
    row 1 details details.toAccountId.val details.amountReceived.units .transfer none] ++
  match details.fee, details.feeAccountId with
  | some fee, some feeAccountId =>
    [row 2 details feeAccountId.val (-fee.units) .expense details.feeCategory]
  | _, _ => []

/-- The unit of one of the accounts found. -/
def unitOf (accounts : List Account) (id : Nat) : Option String :=
  (accounts.find? fun a => a.id = id).map Account.unit

def sameUnit (accounts : List Account) (details : TransferCreate) : Bool :=
  unitOf accounts details.fromAccountId.val = unitOf accounts details.toAccountId.val

def createTransfer (details : TransferCreate) : Program (List Transaction) := do
  if details.fromAccountId.val = details.toAccountId.val then
    .raise (.app TransferSameAccountError)
  else
    let accounts ← Prog.select fun db => getAccounts db details.accountIds userId
    if accounts.length ≠ details.accountIds.length then
      .raise (.app AccountNotFoundError)
    else if sameUnit accounts details ∧
        details.amountSent.units ≠ details.amountReceived.units then
      .raise (.app TransferAmountsDifferError)
    else
      let transactions := transferRows env n userId details
      discard <| execute (.insertTransactions transactions)
      return transactions

/-! ## Endpoints (`routes.py`) -/

def accountResponse (accountWithBalance : AccountWithBalance) : AccountResponse where
  id := accountWithBalance.account.id
  name := accountWithBalance.account.name
  unit := accountWithBalance.account.unit
  type := accountWithBalance.account.type
  balance := accountWithBalance.balance
  archivedAt := accountWithBalance.account.archivedAt

def transactionResponse (t : Transaction) : TransactionResponse where
  id := t.id
  accountId := t.accountId
  amount := t.amount
  kind := t.kind
  category := t.category
  occurredAt := t.occurredAt
  note := t.note
  transferGroupId := t.transferGroupId

def summary (found : Sql.Found CategoryTotal) (db : Db) (userId : Nat) (period : SummaryPeriod) :
    SummaryResponse where
  totals := getBalancesPerUnit db userId
  income := getIncomePerUnit db userId period
  expenses := getExpensesPerUnit db userId period
  byCategory := getExpensesByCategory found db userId period

inductive Endpoint where
  | createAccount (payload : AccountCreate)
  | listAccounts
  | getAccount (accountId : RowId)
  | updateAccount (accountId : RowId) (payload : AccountUpdate)
  | createTransaction (payload : TransactionCreate)
  | listTransactions (filters : TransactionFilters)
  | getTransaction (transactionId : RowId)
  | updateTransaction (transactionId : RowId) (payload : TransactionUpdate)
  | deleteTransaction (transactionId : RowId)
  | createTransfer (payload : TransferCreate)
  | getSummary (period : SummaryPeriod)
  deriving DecidableEq, Repr

/-- Whom the access cookie names, and what they ask for. -/
structure Request where
  userId : Nat
  endpoint : Endpoint
  deriving DecidableEq, Repr

inductive Response where
  | account (account : AccountResponse)
  | accounts (accounts : List AccountResponse)
  | transaction (transaction : TransactionResponse)
  | page (page : TransactionPage)
  | transactions (transactions : List TransactionResponse)
  | summary (summary : SummaryResponse)
  | noContent
  deriving DecidableEq, Repr

/-- Request `n` of user `userId`. -/
def route : Endpoint → Program Response
  | .createAccount payload => do
    return .account (accountResponse (← createAccount env n userId payload))
  | .listAccounts => do
    let accounts ← Prog.select fun db => listAccountsWithBalances db userId
    return .accounts (accounts.map accountResponse)
  | .getAccount accountId => do
    return .account (accountResponse (← getAccountOrRaise userId accountId.val))
  | .updateAccount accountId payload => do
    return .account (accountResponse (← updateAccount userId accountId.val payload))
  | .createTransaction payload => do
    return .transaction (transactionResponse (← createTransaction env n userId payload))
  | .listTransactions filters => do
    let total ← Prog.select fun db => countTransactions db userId filters
    let rows ← Prog.select fun db => pageTransactions db userId filters
    return .page { items := rows.map transactionResponse, total := total }
  | .getTransaction transactionId => do
    return .transaction (transactionResponse (← getTransactionOrRaise userId transactionId.val))
  | .updateTransaction transactionId payload => do
    return .transaction
      (transactionResponse (← updateTransaction userId transactionId.val payload))
  | .deleteTransaction transactionId => do
    deleteTransaction userId transactionId.val
    return .noContent
  | .createTransfer payload => do
    return .transactions ((← createTransfer env n userId payload).map transactionResponse)
  | .getSummary period => do
    return .summary (← Prog.select fun db => summary (env.categoriesFound n db) db userId period)

/-- Request `n`, as `get_db` runs it. -/
def handle (req : Request) : Program Response := route env n req.userId req.endpoint

abbrev LedgerWorld := World Db Request Failure Response

abbrev LedgerSystem := Sys Db Key Write Stmt DbError Failure Response Request

/-- An empty ledger and nobody there. -/
def initialWorld : LedgerWorld := { db := Db.empty }

end Tradinghub.Ledger
