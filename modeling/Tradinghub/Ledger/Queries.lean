import Tradinghub.Ledger.Model

/-!
# The SELECTs of the ledger (`crud/`)

Every read as a function of the committed rows it sees, clause by clause.  An ORDER BY leaves ties
in one query only: two categories of a unit may come to the same amount, and which of them is listed
first is up to the database (`Sql.Found`).  A user's names, the units of one answer and the ids of
the transactions are all different.
-/

namespace Tradinghub.Ledger

open Store

/-! ## Accounts -/

structure AccountWithBalance where
  account : Account
  balance : Int
  deriving DecidableEq, Repr

/-- The account without its balance, or nothing if it does not exist or is someone else's. -/
def getAccount (db : Db) (accountId userId : Nat) : Option Account :=
  db.accounts.rows.find? fun a => a.id = accountId ∧ a.userId = userId

/-- Those of the accounts that are the user's. -/
def getAccounts (db : Db) (accountIds : List Nat) (userId : Nat) : List Account :=
  db.accounts.rows.filter fun a => a.id ∈ accountIds ∧ a.userId = userId

/-- accounts LEFT OUTER JOIN transactions, WHERE .., GROUP BY accounts.id -/
def accountsWithBalancesStatement (db : Db) (conditions : Account → Bool) :
    List AccountWithBalance :=
  (Sql.groupBy (fun r => r.1.id)
    ((Sql.leftJoin (fun (a : Account) (t : Transaction) => t.accountId = a.id) db.accounts.rows
      db.transactions.rows).filter fun r => conditions r.1)).filterMap
    fun g => g.2.head?.map fun r =>
      { account := r.1
        balance := Sql.coalesce (Sql.sum (g.2.map fun r => r.2.map Transaction.amount)) 0 }

/-- The amounts on the account, summed. -/
def balance (db : Db) (accountId : Nat) : Int :=
  ((db.transactions.rows.filter fun t => t.accountId = accountId).map Transaction.amount).sum

/-- What the statement yields: each account that fits, with its balance. -/
theorem accountsWithBalances_eq (db : Db) (conditions : Account → Bool) :
    accountsWithBalancesStatement db conditions =
      (db.accounts.rows.filter conditions).map fun a =>
        { account := a, balance := balance db a.id } := by
  have hnodup : ((db.accounts.rows.filter conditions).map Account.id).Nodup :=
    db.accounts.nodup_keys.sublist (List.filter_sublist.map _)
  unfold accountsWithBalancesStatement
  rw [Sql.leftJoin_filter_left, Sql.groupBy_leftJoin hnodup, List.filterMap_map]
  refine List.filterMap_eq_map_iff_forall_eq_some.2 fun a _ => ?_
  obtain ⟨r, hr⟩ := Option.ne_none_iff_exists'.1 fun hnil =>
    Sql.matched_ne_nil (fun (a : Account) (t : Transaction) => t.accountId = a.id)
      db.transactions.rows a (List.head?_eq_none_iff.1 hnil)
  have hfst : r.1 = a := Sql.matched_fst (List.mem_of_head? hr)
  have hsum := Sql.matched_values (fun (a : Account) (t : Transaction) => t.accountId = a.id)
    db.transactions.rows a Transaction.amount
  simp only [Function.comp_apply, hr, Option.map_some, hfst, Sql.coalesce_sum, balance]
  rw [List.filterMap_map]
  exact congrArg (fun l => some (AccountWithBalance.mk a (List.sum l))) hsum

def getAccountWithBalance (db : Db) (accountId userId : Nat) : Option AccountWithBalance :=
  (accountsWithBalancesStatement db fun a => a.userId = userId ∧ a.id = accountId).head?

theorem mem_of_getAccountWithBalance {db : Db} {accountId userId : Nat}
    {found : AccountWithBalance}
    (h : getAccountWithBalance db accountId userId = some found) :
    found.account ∈ db.accounts ∧ found.account.userId = userId := by
  have hmem : found ∈ accountsWithBalancesStatement db fun a =>
      a.userId = userId ∧ a.id = accountId := List.mem_of_head? h
  rw [accountsWithBalances_eq] at hmem
  obtain ⟨a, ha, rfl⟩ := List.mem_map.1 hmem
  obtain ⟨ha, hcond⟩ := List.mem_filter.1 ha
  exact ⟨ha, (of_decide_eq_true hcond).1⟩

/-- Every account the user owns with its balance, name ascending. -/
def listAccountsWithBalances [Collation] (db : Db) (userId : Nat) : List AccountWithBalance :=
  Sql.orderBy
    (fun r r' => Collation.le (Collation.fold r.account.name) (Collation.fold r'.account.name))
    (accountsWithBalancesStatement db fun a => a.userId = userId)

/-! ## Transactions -/

def getTransaction (db : Db) (transactionId userId : Nat) : Option Transaction :=
  db.transactions.rows.find? fun t => t.id = transactionId ∧ t.userId = userId

theorem getTransaction_eq_some {db : Db} {transactionId userId : Nat} {t : Transaction} :
    getTransaction db transactionId userId = some t ↔
      t ∈ db.transactions ∧ t.id = transactionId ∧ t.userId = userId := by
  constructor
  · intro h
    exact ⟨List.mem_of_find?_eq_some h, by simpa using List.find?_some h⟩
  · rintro ⟨ht, hid, huser⟩
    cases h : getTransaction db transactionId userId with
    | none => simpa [hid, huser] using List.find?_eq_none.1 h t ht
    | some t' =>
      have ht' : t' ∈ db.transactions := List.mem_of_find?_eq_some h
      have hid' : t'.id = transactionId ∧ t'.userId = userId := by simpa using List.find?_some h
      rw [db.transactions.eq_of_key ht ht' (hid.trans hid'.1.symm)]

/-- A filter that was not sent lets every row through. -/
def unlessSent {α : Type} (sent : Option α) (p : α → Bool) : Bool := sent.all p

/-- The WHERE clause of the list: the filters combine with AND. -/
def TransactionFilters.matches (filters : TransactionFilters) (userId : Nat) (t : Transaction) :
    Bool :=
  t.userId = userId &&
  unlessSent filters.accountId (fun accountId => t.accountId = accountId.val) &&
  unlessSent filters.kind (fun kind => t.kind = kind) &&
  unlessSent filters.category (fun category => t.category = some category) &&
  unlessSent filters.occurredFrom (fun occurredFrom => occurredFrom ≤ t.occurredAt) &&
  unlessSent filters.occurredTo (fun occurredTo => t.occurredAt < occurredTo)

/-- ORDER BY occurred_at DESC, id DESC -/
def newestFirst (t t' : Transaction) : Bool :=
  t'.occurredAt < t.occurredAt ∨ (t.occurredAt = t'.occurredAt ∧ t'.id ≤ t.id)

def countTransactions (db : Db) (userId : Nat) (filters : TransactionFilters) : Nat :=
  (db.transactions.rows.filter (filters.matches userId)).length

def pageTransactions (db : Db) (userId : Nat) (filters : TransactionFilters) : List Transaction :=
  Sql.page filters.limit filters.offset
    (Sql.orderBy newestFirst (db.transactions.rows.filter (filters.matches userId)))

/-! ## Summary -/

def getBalancesPerUnit [Collation] (db : Db) (userId : Nat) : List UnitTotal :=
  Sql.orderBy (fun r r' => Collation.le r.unit r'.unit)
    ((Sql.groupBy (fun r => r.1.unit)
      ((Sql.leftJoin (fun (a : Account) (t : Transaction) => a.id = t.accountId) db.accounts.rows
        db.transactions.rows).filter fun r => r.1.userId = userId)).map
      fun g =>
        { unit := g.1
          amount := Sql.coalesce (Sql.sum (g.2.map fun r => r.2.map Transaction.amount)) 0 })

def ownedAndWithinPeriod (userId : Nat) (period : SummaryPeriod) (t : Transaction) : Bool :=
  t.userId = userId ∧ period.occurredFrom ≤ t.occurredAt ∧ t.occurredAt < period.occurredTo

/-- transactions JOIN accounts, WHERE .. -/
def transactionsWithAccounts (db : Db) (conditions : Transaction → Bool) :
    List (Transaction × Account) :=
  (Sql.join (fun (t : Transaction) (a : Account) => a.id = t.accountId) db.transactions.rows
    db.accounts.rows).filter fun r => conditions r.1

/-- SUM(amount) FILTER (WHERE kind = ..) -/
def sumOfKind (kind : TransactionKind) (rows : List (Transaction × Account)) : Option Int :=
  Sql.sum ((rows.filter fun r => r.1.kind = kind).map fun r => some r.1.amount)

/-- The rows of `get_income_and_expenses_per_unit`: a unit, its income, its expenses. -/
def incomeAndExpensesRows [Collation] (db : Db) (userId : Nat) (period : SummaryPeriod) :
    List (String × Option Int × Option Int) :=
  Sql.orderBy (fun r r' => Collation.le r.1 r'.1)
    ((Sql.groupBy (fun r => r.2.unit)
      (transactionsWithAccounts db (ownedAndWithinPeriod userId period))).map
      fun g => (g.1, sumOfKind .income g.2, (sumOfKind .expense g.2).map fun amount => -amount))

def getIncomePerUnit [Collation] (db : Db) (userId : Nat) (period : SummaryPeriod) :
    List UnitTotal :=
  (incomeAndExpensesRows db userId period).filterMap fun r =>
    r.2.1.map fun amount => { unit := r.1, amount := amount }

def getExpensesPerUnit [Collation] (db : Db) (userId : Nat) (period : SummaryPeriod) :
    List UnitTotal :=
  (incomeAndExpensesRows db userId period).filterMap fun r =>
    r.2.2.map fun amount => { unit := r.1, amount := amount }

/-- The columns the categories are sorted by. -/
def CategoryTotal.sortKey (c : CategoryTotal) : String × Int := (c.unit, c.amount)

/-- ORDER BY unit, spent DESC -/
def unitThenLargest [Collation] (k k' : String × Int) : Bool :=
  if k.1 = k'.1 then k'.2 ≤ k.2 else Collation.le k.1 k'.1

/-- GROUP BY category, unit.  A group has a row, so its sum is not null. -/
def expenseGroups (db : Db) (userId : Nat) (period : SummaryPeriod) : List CategoryTotal :=
  (Sql.groupBy (fun r => (r.1.category, r.2.unit))
    (transactionsWithAccounts db fun t =>
      ownedAndWithinPeriod userId period t ∧ t.kind = .expense)).map
    fun g =>
      { category := g.1.1
        unit := g.1.2
        amount := -(Sql.sum (g.2.map fun r => some r.1.amount)).getD 0 }

def getExpensesByCategory [Collation] (found : Sql.Found CategoryTotal) (db : Db) (userId : Nat)
    (period : SummaryPeriod) : List CategoryTotal :=
  Sql.orderBy (fun c c' => unitThenLargest c.sortKey c'.sortKey)
    (found.order (expenseGroups db userId period))

section Ties

variable [Collation]

theorem unitThenLargest_trans (k k' k'' : String × Int) (h : unitThenLargest k k' = true)
    (h' : unitThenLargest k' k'' = true) : unitThenLargest k k'' = true := by
  unfold unitThenLargest at h h' ⊢
  split at h
  · rename_i heq
    rw [heq]
    split at h'
    · rename_i heq'
      rw [if_pos heq']
      exact decide_eq_true ((of_decide_eq_true h').trans (of_decide_eq_true h))
    · rename_i hne
      rw [if_neg hne]
      exact h'
  · rename_i hne
    split at h'
    · rename_i heq'
      rw [← heq', if_neg hne]
      exact h
    · rename_i hne'
      have hle := Collation.le_trans _ _ _ h h'
      split
      · -- the units of the first and the last are one, so the middle one lies between it and itself
        rename_i heq
        rw [← heq] at h'
        exact absurd (Collation.le_antisymm _ _ h h') hne
      · exact hle

theorem unitThenLargest_total (k k' : String × Int) :
    (unitThenLargest k k' || unitThenLargest k' k) = true := by
  unfold unitThenLargest
  by_cases h : k.1 = k'.1
  · rw [if_pos h, if_pos h.symm, Bool.or_eq_true, decide_eq_true_eq, decide_eq_true_eq]
    omega
  · rw [if_neg h, if_neg (Ne.symm h)]
    exact Collation.le_total _ _

theorem unitThenLargest_antisymm (k k' : String × Int) (h : unitThenLargest k k' = true)
    (h' : unitThenLargest k' k = true) : k = k' := by
  unfold unitThenLargest at h h'
  by_cases heq : k.1 = k'.1
  · rw [if_pos heq] at h
    rw [if_pos heq.symm] at h'
    exact Prod.ext heq (Int.le_antisymm (of_decide_eq_true h') (of_decide_eq_true h))
  · rw [if_neg heq] at h
    rw [if_neg (Ne.symm heq)] at h'
    exact absurd (Collation.le_antisymm _ _ h h') heq

/-- However the categories are found, only those of one unit and one amount may be swapped. -/
theorem getExpensesByCategory_upToTies (found found' : Sql.Found CategoryTotal) (db : Db)
    (userId : Nat) (period : SummaryPeriod) :
    Sql.UpToTies CategoryTotal.sortKey (getExpensesByCategory found db userId period)
      (getExpensesByCategory found' db userId period) := by
  have hperm : (found.order (expenseGroups db userId period)).Perm
      (found'.order (expenseGroups db userId period)) :=
    (found.perm _).trans (found'.perm _).symm
  exact Sql.orderBy_upToTies CategoryTotal.sortKey unitThenLargest_trans unitThenLargest_total
    unitThenLargest_antisymm hperm

end Ties

end Tradinghub.Ledger
