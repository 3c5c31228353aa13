import Tradinghub.Ledger.Queries
import Tradinghub.Lib.ReadCommitted

/-!
# The writing statements of the ledger

What Postgres does for each statement the ORM sends.  An UPDATE sets the columns that changed
since the row was loaded, on the newest version of the row.  A name is unique per user, so an
INSERT or a rename also waits for whoever else is writing that name.  The subquery of the DELETE is
evaluated once, when the statement begins.
-/

namespace Tradinghub.Ledger

open ReadCommitted Store

/-! ## Columns that changed -/

/-- The column's new value, if it has one. -/
def changed {α : Type} [DecidableEq α] (loaded current : α) : Option α :=
  if loaded = current then none else some current

structure AccountChange where
  name : Option String
  unit : Option String
  type : Option AccountType
  archivedAt : Option (Option Int)
  deriving DecidableEq, Repr

def AccountChange.between (loaded current : Account) : AccountChange where
  name := changed loaded.name current.name
  unit := changed loaded.unit current.unit
  type := changed loaded.type current.type
  archivedAt := changed loaded.archivedAt current.archivedAt

def AccountChange.apply (change : AccountChange) (row : Account) : Account :=
  { row with
    name := change.name.getD row.name
    unit := change.unit.getD row.unit
    type := change.type.getD row.type
    archivedAt := change.archivedAt.getD row.archivedAt }

structure TransactionChange where
  amount : Option Int
  kind : Option TransactionKind
  category : Option (Option String)
  occurredAt : Option Int
  note : Option (Option String)
  deriving DecidableEq, Repr

def TransactionChange.between (loaded current : Transaction) : TransactionChange where
  amount := changed loaded.amount current.amount
  kind := changed loaded.kind current.kind
  category := changed loaded.category current.category
  occurredAt := changed loaded.occurredAt current.occurredAt
  note := changed loaded.note current.note

def TransactionChange.apply (change : TransactionChange) (row : Transaction) : Transaction :=
  { row with
    amount := change.amount.getD row.amount
    kind := change.kind.getD row.kind
    category := change.category.getD row.category
    occurredAt := change.occurredAt.getD row.occurredAt
    note := change.note.getD row.note }

/-! ## Statements -/

inductive Stmt where
  | insertAccount (row : Account)
  | updateAccount (loaded current : Account)
  | insertTransactions (rows : List Transaction)
  | updateTransaction (loaded current : Transaction)
  /-- DELETE .. WHERE user_id = .. AND (id = .. OR transfer_group_id = (SELECT ..)) -/
  | deleteTransaction (userId transactionId : Nat)
  /-- the same, with the subquery's answer -/
  | deleteMatching (userId transactionId : Nat) (targetGroup : Option Nat)
  deriving DecidableEq, Repr

/-- A row, or a name in the unique index. -/
inductive Key where
  | account (id : Nat)
  | transaction (id : Nat)
  | name (userId : Nat) (folded : String)
  deriving DecidableEq, Repr

inductive Write where
  | insertAccount (row : Account)
  | updateAccount (id : Nat) (change : AccountChange)
  | insertTransaction (row : Transaction)
  | updateTransaction (id : Nat) (change : TransactionChange)
  | deleteTransaction (id : Nat)
  deriving DecidableEq, Repr

def Write.apply : Write → Db → Db
  | .insertAccount row, db => { db with accounts := db.accounts.put row }
  | .updateAccount id change, db =>
    match db.accounts.find? id with
    | some row => { db with accounts := db.accounts.put (change.apply row) }
    | none => db
  | .insertTransaction row, db => { db with transactions := db.transactions.put row }
  | .updateTransaction id change, db =>
    match db.transactions.find? id with
    | some row => { db with transactions := db.transactions.put (change.apply row) }
    | none => db
  | .deleteTransaction id, db => { db with transactions := db.transactions.erase id }

/-- The WHERE clause of the DELETE.  A null group equals nothing, not even another null. -/
def deleteMatches (userId transactionId : Nat) (targetGroup : Option Nat) (t : Transaction) :
    Bool :=
  t.userId = userId ∧
    (t.id = transactionId ∨ (t.transferGroupId ≠ none ∧ t.transferGroupId = targetGroup))

/-- What `NUMERIC(36, 18)` can hold, in units of its last place. -/
def fitsNumeric (amount : Int) : Bool := amount.natAbs < 10 ^ 36

section Engine

variable [Collation]

def nameKey (a : Account) : Key := .name a.userId (Collation.fold a.name)

def Stmt.plan : Stmt → Db → Stmt × List Key
  | .insertAccount row, _ => (.insertAccount row, [nameKey row])
  | .updateAccount loaded current, db =>
    let rows := (db.accounts.find? loaded.id).toList
    (.updateAccount loaded current,
      (rows.map fun row => Key.account row.id) ++
      -- The entry of the row's own name too, which need not be the one that was loaded.  A name that
      -- another rename gives the row while this one waits is still taken, too: whoever asks for it is
      -- refused at once, where Postgres has him wait for the end of this request first.
      if loaded.name = current.name then [] else rows.map nameKey ++ [nameKey current])
  | .insertTransactions rows, _ => (.insertTransactions rows, [])
  | .updateTransaction loaded current, db =>
    (.updateTransaction loaded current,
      (db.transactions.find? loaded.id).toList.map fun row => .transaction row.id)
  | .deleteTransaction userId transactionId, db =>
    let targetGroup := (getTransaction db transactionId userId).bind Transaction.transferGroupId
    (.deleteMatching userId transactionId targetGroup,
      (db.transactions.rows.filter (deleteMatches userId transactionId targetGroup)).map
        fun t => .transaction t.id)
  | .deleteMatching userId transactionId targetGroup, _ =>
    (.deleteMatching userId transactionId targetGroup, [])

/-- A row is taken if its newest version still matches, a new name always, and a name to be given up
if the newest version still has it. -/
def Stmt.takes : Stmt → Key → Db → Bool
  | .updateAccount _ _, .account id, db => (db.accounts.find? id).isSome
  | .updateAccount loaded current, .name userId folded, db =>
    .name userId folded = nameKey current ||
      (db.accounts.find? loaded.id).any fun row => nameKey row = .name userId folded
  | .updateTransaction _ _, .transaction id, db => (db.transactions.find? id).isSome
  | .deleteMatching userId transactionId targetGroup, .transaction id, db =>
    (db.transactions.find? id).any (deleteMatches userId transactionId targetGroup)
  | _, .name _ _, _ => true
  | _, _, _ => false

/-- The name a rename gives is waited for and taken. -/
theorem takes_newName (loaded current : Account) (db : Db) :
    (Stmt.updateAccount loaded current).takes (nameKey current) db = true := by
  simp [Stmt.takes, nameKey]

theorem takes_oldName {loaded row : Account} (current : Account) {db : Db}
    (h : db.accounts.find? loaded.id = some row) :
    (Stmt.updateAccount loaded current).takes (nameKey row) db = true := by
  simp [Stmt.takes, nameKey, h]

/-- Another account of the same user has that name. -/
def nameTaken (row : Account) (db : Db) : Bool :=
  db.accounts.rows.any fun a =>
    a.id ≠ row.id ∧ a.userId = row.userId ∧ Collation.fold a.name = Collation.fold row.name

/-- The composite foreign key. -/
def accountExists (t : Transaction) (db : Db) : Bool :=
  db.accounts.rows.any fun a => a.id = t.accountId ∧ a.userId = t.userId

/-- The constraints, and what is written once they hold. -/
def Stmt.finish : Stmt → List Key → Db → Except DbError (List Write)
  | .insertAccount row, _, db =>
    if maxRowId < row.id then .error .integerOverflow
    else if (db.accounts.find? row.id).isSome || nameTaken row db then .error .uniqueViolation
    else .ok [.insertAccount row]
  | .updateAccount loaded current, hits, db =>
    if Key.account loaded.id ∉ hits then .error .staleData
    else if loaded.name ≠ current.name ∧ nameTaken current db then .error .uniqueViolation
    else .ok [.updateAccount loaded.id (.between loaded current)]
  | .insertTransactions rows, _, db =>
    if rows.any fun t => maxRowId < t.id then .error .integerOverflow
    else if rows.any fun t => !fitsNumeric t.amount then .error .numericOverflow
    else if rows.any fun t => (db.transactions.find? t.id).isSome then .error .uniqueViolation
    else if rows.any fun t => !accountExists t db then .error .foreignKeyViolation
    else .ok (rows.map .insertTransaction)
  | .updateTransaction loaded current, hits, _ =>
    if (changed loaded.amount current.amount).any fun amount => !fitsNumeric amount then
      .error .numericOverflow
    else if Key.transaction loaded.id ∉ hits then .error .staleData
    else .ok [.updateTransaction loaded.id (.between loaded current)]
  | .deleteTransaction _ _, _, _ => .ok []
  | .deleteMatching _ _ _, hits, _ =>
    .ok (hits.filterMap fun
      | .transaction id => some (.deleteTransaction id)
      | _ => none)

def engine : Engine Db Key Write Stmt DbError where
  apply := Write.apply
  plan := Stmt.plan
  act q key db := if q.takes key db then some [] else none
  finish := Stmt.finish

/-- Taking a row writes nothing by itself. -/
theorem act_nil {q : Stmt} {key : Key} {db : Db} {ws : List Write}
    (h : engine.act q key db = some ws) : ws = [] := by
  simp only [engine] at h
  split at h
  · exact (Option.some.inj h).symm
  · cases h

/-! ## What a finished statement has checked and writes -/

inductive Finished (db : Db) : Stmt → List Key → List Write → Prop
  | insertAccount {row : Account} {hits : List Key} (hle : row.id ≤ maxRowId)
      (hnew : db.accounts.find? row.id = none) (hname : nameTaken row db = false) :
      Finished db (.insertAccount row) hits [.insertAccount row]
  | updateAccount {loaded current : Account} {hits : List Key}
      (hhit : Key.account loaded.id ∈ hits)
      (hname : loaded.name = current.name ∨ nameTaken current db = false) :
      Finished db (.updateAccount loaded current) hits
        [.updateAccount loaded.id (.between loaded current)]
  | insertTransactions {rows : List Transaction} {hits : List Key}
      (hle : ∀ t ∈ rows, t.id ≤ maxRowId) (hfits : ∀ t ∈ rows, fitsNumeric t.amount = true)
      (hnew : ∀ t ∈ rows, db.transactions.find? t.id = none)
      (haccount : ∀ t ∈ rows, accountExists t db = true) :
      Finished db (.insertTransactions rows) hits (rows.map .insertTransaction)
  | updateTransaction {loaded current : Transaction} {hits : List Key}
      (hfits : ∀ amount ∈ changed loaded.amount current.amount, fitsNumeric amount = true)
      (hhit : Key.transaction loaded.id ∈ hits) :
      Finished db (.updateTransaction loaded current) hits
        [.updateTransaction loaded.id (.between loaded current)]
  | deleteTransaction {userId transactionId : Nat} {hits : List Key} :
      Finished db (.deleteTransaction userId transactionId) hits []
  | deleteMatching {userId transactionId : Nat} {targetGroup : Option Nat} {hits : List Key}
      {ws : List Write}
      (hdeletes : ∀ w ∈ ws, ∃ id, w = .deleteTransaction id ∧ Key.transaction id ∈ hits) :
      Finished db (.deleteMatching userId transactionId targetGroup) hits ws

theorem finish_ok {q : Stmt} {hits : List Key} {db : Db} {ws : List Write}
    (h : q.finish hits db = .ok ws) : Finished db q hits ws := by
  have hnone : ∀ {α : Type} {l : List α} {p : α → Bool}, ¬ l.any p = true →
      ∀ a ∈ l, p a = false :=
    fun hl a ha => Bool.eq_false_iff.2 fun hp => hl (List.any_eq_true.2 ⟨a, ha, hp⟩)
  cases q with
  | insertAccount row =>
    simp only [Stmt.finish] at h
    split at h
    · cases h
    · rename_i hle
      split at h
      · cases h
      · rename_i hfree
        obtain rfl := Except.ok.inj h
        rw [Bool.or_eq_true, not_or, Option.not_isSome_iff_eq_none, Bool.not_eq_true] at hfree
        exact .insertAccount (Nat.not_lt.1 hle) hfree.1 hfree.2
  | updateAccount loaded current =>
    simp only [Stmt.finish] at h
    split at h
    · cases h
    · rename_i hhit
      split at h
      · cases h
      · rename_i hname
        obtain rfl := Except.ok.inj h
        refine .updateAccount (not_not.1 hhit) ?_
        by_cases hsame : loaded.name = current.name
        · exact Or.inl hsame
        · exact Or.inr (Bool.eq_false_iff.2 fun htaken => hname ⟨hsame, htaken⟩)
  | insertTransactions rows =>
    simp only [Stmt.finish] at h
    split at h
    · cases h
    · rename_i hle
      split at h
      · cases h
      · rename_i hfits
        split at h
        · cases h
        · rename_i hnew
          split at h
          · cases h
          · rename_i haccount
            obtain rfl := Except.ok.inj h
            refine .insertTransactions (fun t ht => ?_) (fun t ht => ?_) (fun t ht => ?_)
              fun t ht => ?_
            · exact Nat.not_lt.1 (of_decide_eq_false (hnone hle t ht))
            · simpa using hnone hfits t ht
            · simpa using hnone hnew t ht
            · simpa using hnone haccount t ht
  | updateTransaction loaded current =>
    simp only [Stmt.finish] at h
    split at h
    · cases h
    · rename_i hfits
      split at h
      · cases h
      · rename_i hhit
        obtain rfl := Except.ok.inj h
        refine .updateTransaction (fun amount hamount => ?_) (not_not.1 hhit)
        by_contra hno
        refine hfits ((Option.any_eq_true _ _).2 ⟨amount, hamount, ?_⟩)
        simpa using hno
  | deleteTransaction userId transactionId =>
    obtain rfl := Except.ok.inj h
    exact .deleteTransaction
  | deleteMatching userId transactionId targetGroup =>
    obtain rfl := Except.ok.inj h
    refine .deleteMatching fun w hw => ?_
    obtain ⟨key, hkey, hsome⟩ := List.mem_filterMap.1 hw
    cases key with
    | transaction id => exact ⟨id, (Option.some.inj hsome).symm, hkey⟩
    | _ => cases hsome

end Engine

end Tradinghub.Ledger
