import Tradinghub.Ledger.Transfers
import Tradinghub.Lib.Schema

/-!
# The migrations (`alembic/versions`)

Each revision's `upgrade`, in the order of its statements.  Constraints and the server's defaults
are left out: no statement here reads them.  Revision 79bce17ac2e6 drops
`transactions.transfer_group_id` and 095fd0b06881 adds it again: the schema at the head is the one
before, and every group id is null (`upgrade_forgets`).
-/

namespace Tradinghub.Ledger

open ReadCommitted Store Schema

inductive ColumnType where
  | integer
  | citext
  | string
  | enum (values : List String) (length : Nat)
  | numeric (precision scale : Nat)
  | timestamptz
  | uuid
  deriving DecidableEq, Repr

inductive Value where
  | int (n : Int)
  | text (s : String)
  /-- in units of the last place -/
  | numeric (units : Int)
  | timestamp (time : Int)
  | uuid (id : Nat)
  deriving DecidableEq, Repr

abbrev SqlColumn := Column ColumnType Value

abbrev SqlDatabase := Database ColumnType Value

def notNull (name : String) (type : ColumnType) : SqlColumn := { name, type, nullable := false }

def nullable (name : String) (type : ColumnType) : SqlColumn := { name, type, nullable := true }

/-! ## Revisions -/

def accountColumns : List SqlColumn :=
  [notNull "id" .integer, notNull "user_id" .integer, notNull "name" .citext,
    notNull "unit" .string, notNull "type" (.enum ["cash", "crypto", "stock"] 20),
    nullable "archived_at" .timestamptz, notNull "created_at" .timestamptz,
    notNull "updated_at" .timestamptz]

def transactionColumns : List SqlColumn :=
  [notNull "id" .integer, notNull "user_id" .integer, notNull "account_id" .integer,
    notNull "amount" (.numeric 36 18),
    notNull "kind" (.enum ["income", "expense", "transfer"] 20), nullable "category" .string,
    notNull "occurred_at" .timestamptz, nullable "note" .string,
    nullable "transfer_group_id" .uuid, notNull "created_at" .timestamptz,
    notNull "updated_at" .timestamptz]

def createUsersTable : Revision ColumnType Value where
  revision := "155d0e9ee80f"
  downRevision := none
  upgrade :=
    [.createExtension "citext",
      .createTable "users"
        [notNull "id" .integer, notNull "email" .citext, notNull "password_hash" .string,
          notNull "created_at" .timestamptz, notNull "updated_at" .timestamptz]]

def addSessionsTable : Revision ColumnType Value where
  revision := "0742d8e39597"
  downRevision := some "155d0e9ee80f"
  upgrade :=
    [.createTable "sessions"
        [notNull "id" .integer, notNull "user_id" .integer, notNull "family_id" .uuid,
          notNull "hashed_refresh_token" .string, nullable "used_at" .timestamptz,
          notNull "expires_at" .timestamptz, notNull "created_at" .timestamptz],
      .createIndex
        { name := "ix_sessions_family_id", table := "sessions", columns := ["family_id"],
          unique := false },
      .createIndex
        { name := "ix_sessions_hashed_refresh_token", table := "sessions",
          columns := ["hashed_refresh_token"], unique := true }]

def addAccountsAndTransactions : Revision ColumnType Value where
  revision := "badbca0b15e5"
  downRevision := some "0742d8e39597"
  upgrade :=
    [.createTable "accounts" accountColumns,
      .createTable "transactions" transactionColumns,
      .createIndex
        { name := "ix_transactions_user_id_occurred_at", table := "transactions",
          columns := ["user_id", "occurred_at"], unique := false }]

def indexTransactionsByAccount : Revision ColumnType Value where
  revision := "bfa69a57006e"
  downRevision := some "badbca0b15e5"
  upgrade :=
    [.createIndex
      { name := "ix_transactions_account_id", table := "transactions", columns := ["account_id"],
        unique := false }]

def dropTransferGroupId : Revision ColumnType Value where
  revision := "79bce17ac2e6"
  downRevision := some "bfa69a57006e"
  upgrade := [.dropColumn "transactions" "transfer_group_id"]

def restoreTransferGroupId : Revision ColumnType Value where
  revision := "095fd0b06881"
  downRevision := some "79bce17ac2e6"
  upgrade := [.addColumn "transactions" (nullable "transfer_group_id" .uuid)]

def revisions : List (Revision ColumnType Value) :=
  [createUsersTable, addSessionsTable, addAccountsAndTransactions, indexTransactionsByAccount,
    dropTransferGroupId, restoreTransferGroupId]

/-- What is left to run from bfa69a57006e. -/
theorem remaining :
    toHead revisions revisions.length (some "bfa69a57006e") =
      [dropTransferGroupId, restoreTransferGroupId] := rfl

theorem transactions_at {db : SqlDatabase} (hat : AtRevision revisions "bfa69a57006e" db) :
    ∃ t, db.tables "transactions" = some t ∧ named t.columns "transfer_group_id" = true := by
  obtain ⟨built, hbuilt, htables, -⟩ := hat
  have hcolumns : (built.tables "transactions").map Relation.columns = some transactionColumns := by
    have hrun : (runAll Database.empty (upTo "bfa69a57006e"
        (toHead revisions revisions.length none))).toOption.bind
          (fun db => (db.tables "transactions").map Relation.columns) = some transactionColumns := rfl
    rw [hbuilt] at hrun
    exact hrun
  rw [← htables] at hcolumns
  obtain ⟨t, ht, hcols⟩ := Option.map_eq_some_iff.1 hcolumns
  exact ⟨t, ht, by rw [hcols]; decide⟩

/-- What the remaining upgrades do to any rows: the group ids go, the rest stays. -/
theorem upgrade_forgets {db : SqlDatabase} (hat : AtRevision revisions "bfa69a57006e" db) :
    ∃ db', upgradeHead revisions (some "bfa69a57006e") db = .ok db' ∧
      db'.rows "transactions" =
        (db.rows "transactions").map (fun r => Function.update r "transfer_group_id" none) ∧
      ∀ table, table ≠ "transactions" → db'.tables table = db.tables table := by
  obtain ⟨t, ht, hnamed⟩ := transactions_at hat
  have hrows : db.rows "transactions" = t.rows := by rw [Database.rows, ht]; rfl
  have hcolumn : named t.columns (nullable "transfer_group_id" .uuid).name = true := hnamed
  obtain ⟨db', hrun, hrows', hother⟩ := dropAdd ht hcolumn rfl
  refine ⟨db', ?_, hrows'.trans (by rw [hrows]; rfl), hother⟩
  rw [upgradeHead, remaining, ← hrun]
  simp only [runAll, applyOps, dropTransferGroupId, restoreTransferGroupId, List.foldlM_cons,
    List.foldlM_nil, bind_pure]
  rfl

/-! ## What the upgrade keeps -/

/-- No row of kind transfer is without a group. -/
def Grouped (db : SqlDatabase) : Prop :=
  ∀ r ∈ db.rows "transactions", r "kind" = some (.text "transfer") → r "transfer_group_id" ≠ none

/-- Rows `i` and `j` belong to one transfer. -/
def SameTransfer (db : SqlDatabase) (i j : Nat) : Prop :=
  ∃ r s group, (db.rows "transactions")[i]? = some r ∧ (db.rows "transactions")[j]? = some s ∧
    r "transfer_group_id" = some group ∧ s "transfer_group_id" = some group

/-- The ledger after a migration is the one before it. -/
structure KeepsLedger (before after : SqlDatabase) : Prop where
  accounts : after.rows "accounts" = before.rows "accounts"
  transactions : after.rows "transactions" = before.rows "transactions"
  transfers : ∀ i j, SameTransfer after i j ↔ SameTransfer before i j
  grouped : Grouped after

/-! ## A ledger as a database at bfa69a57006e -/

def AccountType.value : AccountType → String
  | .cash => "cash"
  | .crypto => "crypto"
  | .stock => "stock"

def TransactionKind.value : TransactionKind → String
  | .income => "income"
  | .expense => "expense"
  | .transfer => "transfer"

/-- The row as the database has it.  `now` is when it was written. -/
def Account.toRow (now : Int) (a : Account) : Row Value :=
  rowOf
    [("id", some (.int a.id)), ("user_id", some (.int a.userId)), ("name", some (.text a.name)),
      ("unit", some (.text a.unit)), ("type", some (.text a.type.value)),
      ("archived_at", a.archivedAt.map .timestamp), ("created_at", some (.timestamp now)),
      ("updated_at", some (.timestamp now))]

def Transaction.toRow (now : Int) (t : Transaction) : Row Value :=
  rowOf
    [("id", some (.int t.id)), ("user_id", some (.int t.userId)),
      ("account_id", some (.int t.accountId)), ("amount", some (.numeric t.amount)),
      ("kind", some (.text t.kind.value)), ("category", t.category.map .text),
      ("occurred_at", some (.timestamp t.occurredAt)), ("note", t.note.map .text),
      ("transfer_group_id", t.transferGroupId.map .uuid), ("created_at", some (.timestamp now)),
      ("updated_at", some (.timestamp now))]

def accountsRelation (now : Int) (db : Db) : Relation ColumnType Value where
  columns := accountColumns
  rows := db.accounts.rows.map (Account.toRow now)
  blank := by
    intro r hr name hname
    obtain ⟨a, -, rfl⟩ := List.mem_map.1 hr
    exact rowOf_blank rfl hname
  notNull := by
    intro r hr col hcol hnull
    obtain ⟨a, -, rfl⟩ := List.mem_map.1 hr
    revert col
    simp [accountColumns, notNull, nullable, Account.toRow, rowOf, List.lookup_cons]

def transactionsRelation (now : Int) (db : Db) : Relation ColumnType Value where
  columns := transactionColumns
  rows := db.transactions.rows.map (Transaction.toRow now)
  blank := by
    intro r hr name hname
    obtain ⟨t, -, rfl⟩ := List.mem_map.1 hr
    exact rowOf_blank rfl hname
  notNull := by
    intro r hr col hcol hnull
    obtain ⟨t, -, rfl⟩ := List.mem_map.1 hr
    revert col
    simp [transactionColumns, notNull, nullable, Transaction.toRow, rowOf, List.lookup_cons]

/-- The empty tables of that revision. -/
def builtAt (revision : String) : SqlDatabase :=
  (runAll Database.empty (upTo revision (toHead revisions revisions.length none))).toOption.getD
    Database.empty

/-- The ledger, in the tables of bfa69a57006e. -/
def Db.stored (now : Int) (db : Db) : SqlDatabase :=
  ((builtAt "bfa69a57006e").put "accounts" (accountsRelation now db)).put "transactions"
    (transactionsRelation now db)

theorem stored_at (now : Int) (db : Db) : AtRevision revisions "bfa69a57006e" (db.stored now) := by
  have hbuilt : (builtAt "bfa69a57006e").SameSchema (builtAt "bfa69a57006e") := ⟨fun _ => rfl, rfl⟩
  refine ⟨builtAt "bfa69a57006e", rfl, ?_⟩
  have haccounts : (builtAt "bfa69a57006e").tables "accounts" = some (.create accountColumns) := rfl
  have htransactions :
      (builtAt "bfa69a57006e").tables "transactions" = some (.create transactionColumns) := rfl
  exact Database.sameSchema_put (Database.sameSchema_put hbuilt haccounts rfl) htransactions rfl

@[simp] theorem stored_transactions (now : Int) (db : Db) :
    (db.stored now).rows "transactions" = db.transactions.rows.map (Transaction.toRow now) := by
  rw [Database.rows, Db.stored, Database.put_self]
  rfl

@[simp] theorem toRow_group (now : Int) (t : Transaction) :
    t.toRow now "transfer_group_id" = t.transferGroupId.map .uuid := by
  simp [Transaction.toRow, rowOf, List.lookup_cons]

@[simp] theorem toRow_kind (now : Int) (t : Transaction) :
    t.toRow now "kind" = some (.text t.kind.value) := by
  simp [Transaction.toRow, rowOf, List.lookup_cons]

theorem toRow_forget (now : Int) (t : Transaction) :
    Function.update (t.toRow now) "transfer_group_id" none =
      { t with transferGroupId := none }.toRow now := by
  funext name
  by_cases hname : name = "transfer_group_id"
  · subst hname
    rw [Function.update_self, toRow_group]
    rfl
  · have hbeq : (name == "transfer_group_id") = false := beq_eq_false_iff_ne.2 hname
    rw [Function.update_of_ne hname]
    simp [Transaction.toRow, rowOf, List.lookup_cons, hbeq]

theorem stored_grouped {now : Int} {db : Db}
    (h : ∀ t ∈ db.transactions, t.kind = .transfer → t.transferGroupId ≠ none) :
    Grouped (db.stored now) := by
  intro r hr hkind
  rw [stored_transactions] at hr
  obtain ⟨t, ht, rfl⟩ := List.mem_map.1 hr
  have htransfer : t.kind = .transfer := by
    rw [toRow_kind] at hkind
    cases hk : t.kind with
    | transfer => rfl
    | _ => simp [hk, TransactionKind.value] at hkind
  rw [toRow_group, Ne, Option.map_eq_none_iff]
  exact h t ht htransfer

/-- Every ledger that requests can have written comes out with the same transactions and no group:
what was a transfer can be edited and deleted row by row. -/
theorem upgrade_of_reached [Collation] {env : Env} {s : LedgerSystem}
    (h : Run engine (handle env) anyStep { world := initialWorld } s) (now : Int) :
    Grouped (s.world.db.stored now) ∧
    ∃ db', upgradeHead revisions (some "bfa69a57006e") (s.world.db.stored now) = .ok db' ∧
      db'.rows "transactions" = s.world.db.transactions.rows.map
        fun t => { t with transferGroupId := none }.toRow now := by
  obtain ⟨db', hrun, hrows, -⟩ := upgrade_forgets (stored_at now s.world.db)
  refine ⟨stored_grouped (transfers_run h).grouped, db', hrun, ?_⟩
  rw [hrows, stored_transactions, List.map_map]
  exact List.map_congr_left fun t _ => toRow_forget now t

/-! ## When the ledger is kept -/

/-- **The upgrade to the head keeps the ledger exactly when no row has a group id.** -/
theorem upgrade_keeps_ledger_iff {db : SqlDatabase} (hat : AtRevision revisions "bfa69a57006e" db)
    (hgrouped : Grouped db) :
    ∃ db', upgradeHead revisions (some "bfa69a57006e") db = .ok db' ∧
      (KeepsLedger db db' ↔ ∀ r ∈ db.rows "transactions", r "transfer_group_id" = none) := by
  obtain ⟨db', hrun, hrows, hother⟩ := upgrade_forgets hat
  refine ⟨db', hrun, fun h => ?_, fun h => ?_⟩
  · exact (map_forget_eq_iff _ _).1 (hrows.symm.trans h.transactions)
  · have hsame : db'.rows "transactions" = db.rows "transactions" :=
      hrows.trans ((map_forget_eq_iff _ _).2 h)
    refine ⟨?_, hsame, fun i j => ?_, fun r hr => ?_⟩
    · rw [Database.rows, hother "accounts" (by decide)]
      rfl
    · rw [SameTransfer, hsame]
      rfl
    · rw [hsame] at hr
      exact hgrouped r hr

/-- One income, and no transfer. -/
def oneIncome : Db where
  accounts := Table.empty.put ⟨1, 1, "Cash", "EUR", .cash, none⟩
  transactions := Table.empty.put ⟨1, 1, 1, 40 * 10 ^ 18, .income, none, 0, none, none⟩

theorem income_kept : ∃ db', upgradeHead revisions (some "bfa69a57006e") (oneIncome.stored 0) =
    .ok db' ∧ KeepsLedger (oneIncome.stored 0) db' := by
  have hrows : oneIncome.transactions.rows =
      [⟨1, 1, 1, 40 * 10 ^ 18, .income, none, 0, none, none⟩] := by
    decide
  have hgrouped : Grouped (oneIncome.stored 0) := by
    refine stored_grouped fun t ht => ?_
    rw [Table.mem_iff, hrows, List.mem_singleton] at ht
    subst ht
    decide
  obtain ⟨db', hrun, hiff⟩ := upgrade_keeps_ledger_iff (stored_at 0 oneIncome) hgrouped
  refine ⟨db', hrun, hiff.2 fun r hr => ?_⟩
  rw [stored_transactions, hrows, List.map_singleton, List.mem_singleton] at hr
  rw [hr, toRow_group]
  rfl

/-- 40 moved from account 1 to account 2. -/
def oneTransfer : Db where
  accounts := (Table.empty.put ⟨1, 1, "Cash", "EUR", .cash, none⟩).put
    ⟨2, 1, "Bank", "EUR", .cash, none⟩
  transactions := (Table.empty.put ⟨1, 1, 1, -(40 * 10 ^ 18), .transfer, none, 0, none, some 9⟩).put
    ⟨2, 1, 2, 40 * 10 ^ 18, .transfer, none, 0, none, some 9⟩

theorem transfer_not_kept : ∃ db db', AtRevision revisions "bfa69a57006e" db ∧ Grouped db ∧
    upgradeHead revisions (some "bfa69a57006e") db = .ok db' ∧ ¬ KeepsLedger db db' ∧
    ∃ r ∈ db'.rows "transactions", r "kind" = some (.text "transfer") ∧
      r "transfer_group_id" = none := by
  have hrows : oneTransfer.transactions.rows =
      [⟨1, 1, 1, -(40 * 10 ^ 18), .transfer, none, 0, none, some 9⟩,
        ⟨2, 1, 2, 40 * 10 ^ 18, .transfer, none, 0, none, some 9⟩] := by
    decide
  have hgrouped : Grouped (oneTransfer.stored 0) := by
    refine stored_grouped fun t ht => ?_
    rw [Table.mem_iff, hrows] at ht
    revert t
    decide
  obtain ⟨db', hrun, hrows', -⟩ := upgrade_forgets (stored_at 0 oneTransfer)
  rw [stored_transactions, hrows] at hrows'
  have hrow : ∃ r ∈ db'.rows "transactions", r "kind" = some (.text "transfer") ∧
      r "transfer_group_id" = none := by
    refine ⟨_, by rw [hrows']; exact List.mem_cons_self, ?_, Function.update_self ..⟩
    rw [Function.update_of_ne (by decide), toRow_kind]
    rfl
  obtain ⟨r, hr, hkind, hnull⟩ := hrow
  exact ⟨_, db', stored_at 0 oneTransfer, hgrouped, hrun,
    fun hkeeps => hkeeps.grouped r hr hkind hnull, r, hr, hkind, hnull⟩

end Tradinghub.Ledger
