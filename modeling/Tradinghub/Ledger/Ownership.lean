import Tradinghub.Ledger.Serial

/-!
# A user's requests and everybody else's rows

A request of a user computes, from all rows, what it would compute from the user's own rows
(`respond_confined`): every query filters by the user or joins through the composite foreign key, and
every write carries the user's id.  So what others have neither shows in an answer nor changes:
`ownership_noninterference`, for whole sequences of requests.

One thing is left open by the queries themselves: which of two categories of one unit and one amount
a summary lists first.  It may depend on what others have stored, `ties_may_tell`.
-/

namespace Tradinghub.Ledger

open ReadCommitted Store

/-- The rows of one user. -/
def Db.of (userId : Nat) (db : Db) : Db where
  accounts := db.accounts.filter fun a => a.userId = userId
  transactions := db.transactions.filter fun t => t.userId = userId

/-- The composite foreign key. -/
def ForeignKey (db : Db) : Prop :=
  ∀ t ∈ db.transactions, ∃ a ∈ db.accounts, a.id = t.accountId ∧ a.userId = t.userId

/-! ## Queries -/

section Queries

variable {db : Db} {userId : Nat}

theorem ForeignKey.owner (hfk : ForeignKey db) {t : Transaction} (ht : t ∈ db.transactions)
    {a : Account} (ha : a ∈ db.accounts) (hid : a.id = t.accountId) : a.userId = t.userId := by
  obtain ⟨b, hb, hbid, huser⟩ := hfk t ht
  rw [db.accounts.eq_of_key ha hb (hid.trans hbid.symm)]
  exact huser

theorem getAccount_of (accountId : Nat) :
    getAccount (db.of userId) accountId userId = getAccount db accountId userId := by
  refine Sql.find?_of_imp fun a ha => ?_
  exact decide_eq_true (of_decide_eq_true ha).2

theorem getAccounts_of (accountIds : List Nat) :
    getAccounts (db.of userId) accountIds userId = getAccounts db accountIds userId := by
  refine Sql.filter_of_imp fun a _ ha => ?_
  exact decide_eq_true (of_decide_eq_true ha).2

theorem getTransaction_of (transactionId : Nat) :
    getTransaction (db.of userId) transactionId userId = getTransaction db transactionId userId := by
  refine Sql.find?_of_imp fun t ht => ?_
  exact decide_eq_true (of_decide_eq_true ht).2

theorem TransactionFilters.matches_user {filters : TransactionFilters} {t : Transaction}
    (h : filters.matches userId t = true) : t.userId = userId := by
  simp only [TransactionFilters.matches, Bool.and_eq_true, decide_eq_true_eq] at h
  exact h.1.1.1.1.1

theorem filters_of (filters : TransactionFilters) :
    (db.of userId).transactions.rows.filter (filters.matches userId) =
      db.transactions.rows.filter (filters.matches userId) :=
  Sql.filter_of_imp fun _ _ ht => decide_eq_true (TransactionFilters.matches_user ht)

theorem countTransactions_of (filters : TransactionFilters) :
    countTransactions (db.of userId) userId filters = countTransactions db userId filters := by
  unfold countTransactions
  rw [filters_of]

theorem pageTransactions_of (filters : TransactionFilters) :
    pageTransactions (db.of userId) userId filters = pageTransactions db userId filters := by
  unfold pageTransactions
  rw [filters_of]

/-- The transactions of the user's account are the user's, so the join may skip all others. -/
theorem ForeignKey.on_account (hfk : ForeignKey db) {a : Account} (ha : a ∈ db.accounts)
    (huser : a.userId = userId) {on : Transaction → Bool}
    (hon : ∀ t, on t = true → t.accountId = a.id) :
    (db.of userId).transactions.rows.filter on = db.transactions.rows.filter on := by
  refine Sql.filter_of_imp fun t ht h => decide_eq_true ?_
  exact (hfk.owner ht ha (hon t h).symm).symm.trans huser

theorem accountsWithBalances_of (hfk : ForeignKey db) {conditions : Account → Bool}
    (hscoped : ∀ a, conditions a = true → a.userId = userId) :
    accountsWithBalancesStatement (db.of userId) conditions =
      accountsWithBalancesStatement db conditions := by
  unfold accountsWithBalancesStatement
  rw [Sql.leftJoin_filter_left, Sql.leftJoin_filter_left]
  have haccounts : (db.of userId).accounts.rows.filter conditions =
      db.accounts.rows.filter conditions :=
    Sql.filter_of_imp fun a _ ha => decide_eq_true (hscoped a ha)
  rw [haccounts]
  have hjoin : Sql.leftJoin (fun (a : Account) (t : Transaction) => t.accountId = a.id)
      (db.accounts.rows.filter conditions) (db.of userId).transactions.rows =
      Sql.leftJoin (fun (a : Account) (t : Transaction) => t.accountId = a.id)
        (db.accounts.rows.filter conditions) db.transactions.rows := by
    refine Sql.leftJoin_congr fun a ha => ?_
    obtain ⟨ha, hcond⟩ := List.mem_filter.1 ha
    exact hfk.on_account ha (hscoped a hcond) fun t ht => of_decide_eq_true ht
  rw [hjoin]

theorem getAccountWithBalance_of (hfk : ForeignKey db) (accountId : Nat) :
    getAccountWithBalance (db.of userId) accountId userId =
      getAccountWithBalance db accountId userId := by
  unfold getAccountWithBalance
  rw [accountsWithBalances_of hfk fun a ha => (of_decide_eq_true ha).1]

theorem transactionsWithAccounts_of (hfk : ForeignKey db) {conditions : Transaction → Bool}
    (hscoped : ∀ t, conditions t = true → t.userId = userId) :
    transactionsWithAccounts (db.of userId) conditions =
      transactionsWithAccounts db conditions := by
  unfold transactionsWithAccounts
  rw [Sql.join_filter_left, Sql.join_filter_left]
  have htransactions : (db.of userId).transactions.rows.filter conditions =
      db.transactions.rows.filter conditions :=
    Sql.filter_of_imp fun t _ ht => decide_eq_true (hscoped t ht)
  rw [htransactions]
  refine Sql.join_congr fun t ht => ?_
  obtain ⟨ht, hcond⟩ := List.mem_filter.1 ht
  refine Sql.filter_of_imp fun a ha h => decide_eq_true ?_
  exact (hfk.owner ht ha (of_decide_eq_true h)).trans (hscoped t hcond)

variable [Collation]

theorem listAccountsWithBalances_of (hfk : ForeignKey db) :
    listAccountsWithBalances (db.of userId) userId = listAccountsWithBalances db userId := by
  unfold listAccountsWithBalances
  rw [accountsWithBalances_of hfk fun a ha => of_decide_eq_true ha]

theorem getBalancesPerUnit_of (hfk : ForeignKey db) :
    getBalancesPerUnit (db.of userId) userId = getBalancesPerUnit db userId := by
  have hjoin : ((Sql.leftJoin (fun (a : Account) (t : Transaction) => a.id = t.accountId)
      (db.of userId).accounts.rows (db.of userId).transactions.rows).filter
        fun r => r.1.userId = userId) =
      (Sql.leftJoin (fun (a : Account) (t : Transaction) => a.id = t.accountId)
        db.accounts.rows db.transactions.rows).filter fun r => r.1.userId = userId := by
    rw [Sql.leftJoin_filter_left _ (fun a : Account => decide (a.userId = userId)),
      Sql.leftJoin_filter_left _ (fun a : Account => decide (a.userId = userId))]
    have haccounts : ((db.of userId).accounts.rows.filter fun a => a.userId = userId) =
        db.accounts.rows.filter fun a => a.userId = userId :=
      Sql.filter_of_imp fun _ _ ha => ha
    rw [haccounts]
    refine Sql.leftJoin_congr fun a ha => ?_
    obtain ⟨ha, huser⟩ := List.mem_filter.1 ha
    exact hfk.on_account ha (of_decide_eq_true huser) fun t ht => (of_decide_eq_true ht).symm
  unfold getBalancesPerUnit
  rw [hjoin]

/-- One summary, but for the order of categories of one unit and one amount. -/
structure SummaryResponse.UpToTies (s s' : SummaryResponse) : Prop where
  totals : s.totals = s'.totals
  income : s.income = s'.income
  expenses : s.expenses = s'.expenses
  byCategory : Sql.UpToTies CategoryTotal.sortKey s.byCategory s'.byCategory

omit [Collation] in
theorem expenseGroups_of (hfk : ForeignKey db) (period : SummaryPeriod) :
    expenseGroups (db.of userId) userId period = expenseGroups db userId period := by
  unfold expenseGroups
  rw [transactionsWithAccounts_of hfk fun t ht =>
    (of_decide_eq_true (of_decide_eq_true ht).1).1]

theorem summary_of (hfk : ForeignKey db) (found : Sql.Found CategoryTotal)
    (period : SummaryPeriod) :
    summary found (db.of userId) userId period = summary found db userId period := by
  have hrows : incomeAndExpensesRows (db.of userId) userId period =
      incomeAndExpensesRows db userId period := by
    unfold incomeAndExpensesRows
    rw [transactionsWithAccounts_of hfk fun t ht => (of_decide_eq_true ht).1]
  unfold summary getIncomePerUnit getExpensesPerUnit getExpensesByCategory
  rw [getBalancesPerUnit_of hfk, hrows, expenseGroups_of hfk]

theorem summary_upToTies (found found' : Sql.Found CategoryTotal) (db : Db) (userId : Nat)
    (period : SummaryPeriod) :
    (summary found db userId period).UpToTies (summary found' db userId period) where
  totals := rfl
  income := rfl
  expenses := rfl
  byCategory := getExpensesByCategory_upToTies found found' db userId period

end Queries

/-! ## Statements -/

section Statements

variable {db : Db} {userId : Nat}

theorem transactions_of_put (t : Transaction) (h : t.userId = userId) :
    (Db.of userId { db with transactions := db.transactions.put t }) =
      { db.of userId with transactions := (db.of userId).transactions.put t } :=
  congrArg (Db.mk _) (Table.filter_put_of_pos (decide_eq_true h))

theorem accounts_of_put (a : Account) (h : a.userId = userId) :
    (Db.of userId { db with accounts := db.accounts.put a }) =
      { db.of userId with accounts := (db.of userId).accounts.put a } :=
  congrArg (fun accounts => Db.mk accounts _) (Table.filter_put_of_pos (decide_eq_true h))

/-- A row of the user, new or a new version of one of the user's, is nothing to others. -/
theorem transactions_of_put_other {other : Nat} (hne : other ≠ userId) {t : Transaction}
    (h : t.userId = userId)
    (hkey : ∀ r ∈ db.transactions, r.id = t.id → r.userId = userId) :
    Db.of other { db with transactions := db.transactions.put t } = db.of other := by
  refine congrArg (Db.mk _) (Table.filter_put_of_neg ?_ fun r hr hid => ?_)
  · rw [h]
    exact decide_eq_false (Ne.symm hne)
  · rw [hkey r hr hid]
    exact decide_eq_false (Ne.symm hne)

theorem accounts_of_put_other {other : Nat} (hne : other ≠ userId) {a : Account}
    (h : a.userId = userId) (hkey : ∀ r ∈ db.accounts, r.id = a.id → r.userId = userId) :
    Db.of other { db with accounts := db.accounts.put a } = db.of other := by
  refine congrArg (fun accounts => Db.mk accounts _)
    (Table.filter_put_of_neg ?_ fun r hr hid => ?_)
  · rw [h]
    exact decide_eq_false (Ne.symm hne)
  · rw [hkey r hr hid]
    exact decide_eq_false (Ne.symm hne)

theorem find_transaction_of {t : Transaction} (ht : t ∈ db.transactions) (h : t.userId = userId) :
    (db.of userId).transactions.find? t.id = some t :=
  Table.find?_filter ht (decide_eq_true h)

theorem find_account_of {a : Account} (ha : a ∈ db.accounts) (h : a.userId = userId) :
    (db.of userId).accounts.find? a.id = some a :=
  Table.find?_filter ha (decide_eq_true h)

theorem accountExists_of {t : Transaction} (h : t.userId = userId) :
    accountExists t (db.of userId) = accountExists t db := by
  rw [Bool.eq_iff_iff, accountExists_iff, accountExists_iff]
  constructor
  · rintro ⟨a, ha, hid, huser⟩
    exact ⟨a, (Table.mem_filter.1 ha).1, hid, huser⟩
  · rintro ⟨a, ha, hid, huser⟩
    exact ⟨a, Table.mem_filter.2 ⟨ha, decide_eq_true (huser.trans h)⟩, hid, huser⟩

variable [Collation]

theorem nameTaken_of {row : Account} (h : row.userId = userId) :
    nameTaken row (db.of userId) = nameTaken row db := by
  rw [Bool.eq_iff_iff]
  unfold nameTaken
  simp only [List.any_eq_true, decide_eq_true_eq]
  constructor
  · rintro ⟨a, ha, hrest⟩
    exact ⟨a, (Table.mem_filter.1 ha).1, hrest⟩
  · rintro ⟨a, ha, hid, huser, hname⟩
    exact ⟨a, Table.mem_filter.2 ⟨ha, decide_eq_true (huser.trans h)⟩, hid, huser, hname⟩

/-- A statement of the user: it does to all rows what it does to the user's, and nothing to the
others'. -/
def Scoped (userId : Nat) (db : Db) (q : Stmt) : Prop :=
  q.whole (db.of userId) = (q.whole db).map (Db.of userId) ∧
  ∀ db', q.whole db = .ok db' → ∀ other, other ≠ userId → db'.of other = db.of other

/-- One write, under the same constraints. -/
theorem scoped_of_write {q : Stmt} (writes : List Write)
    (hsame : (q.plan (db.of userId)).1.finish (q.plan (db.of userId)).2 (db.of userId) =
      (q.plan db).1.finish (q.plan db).2 db)
    (hok : ∀ ws, (q.plan db).1.finish (q.plan db).2 db = .ok ws → ws = writes)
    (hrows : engine.applyAll writes (db.of userId) = (engine.applyAll writes db).of userId)
    (hothers : ∀ other, other ≠ userId → (engine.applyAll writes db).of other = db.of other) :
    Scoped userId db q := by
  unfold Scoped Stmt.whole
  rw [hsame]
  cases hf : (q.plan db).1.finish (q.plan db).2 db with
  | error d => exact ⟨rfl, fun db' h => by cases h⟩
  | ok ws =>
    obtain rfl := hok ws hf
    refine ⟨congrArg Except.ok hrows, fun db' h other hne => ?_⟩
    cases h
    exact hothers other hne

theorem scoped_insertAccount {row : Account} (h : row.userId = userId)
    (hfresh : ∀ a ∈ db.accounts, a.id ≠ row.id) : Scoped userId db (.insertAccount row) := by
  have hnone : ∀ t : Table Account, (∀ a ∈ t, a ∈ db.accounts) → t.find? row.id = none :=
    fun t ht => Table.find?_eq_none.2 fun a ha => hfresh a (ht a ha)
  refine scoped_of_write [.insertAccount row] ?_ ?_ (accounts_of_put row h).symm
    fun other hne => accounts_of_put_other hne h fun r hr hid => absurd hid (hfresh r hr)
  · have hown : ∀ a ∈ (db.of userId).accounts, a ∈ db.accounts :=
      fun _ ha => (Table.mem_filter.1 ha).1
    simp only [Stmt.plan, Stmt.finish]
    rw [hnone db.accounts fun _ ha => ha, hnone (db.of userId).accounts hown, nameTaken_of h]
  · exact fun ws hws => (insertAccount_finish hws).1

theorem scoped_updateAccount {loaded current : Account} (hloaded : loaded ∈ db.accounts)
    (h : loaded.userId = userId) (huser : current.userId = userId) :
    Scoped userId db (.updateAccount loaded current) := by
  have hfind : db.accounts.find? loaded.id = some loaded := Table.find?_eq_some.2 ⟨hloaded, rfl⟩
  have happly : ∀ db' : Db, loaded ∈ db'.accounts →
      engine.applyAll [.updateAccount loaded.id (.between loaded current)] db' = { db' with
        accounts := db'.accounts.put ((AccountChange.between loaded current).apply loaded) } :=
    fun db' hmem => apply_updateAccount hmem _
  refine scoped_of_write [.updateAccount loaded.id (.between loaded current)] ?_ ?_ ?_ ?_
  · simp only [Stmt.plan, Stmt.finish, hfind, find_account_of hloaded h, nameTaken_of huser]
  · exact fun ws hws => (updateAccount_finish hws).1
  · have hrow : ((AccountChange.between loaded current).apply loaded).userId = userId := h
    rw [happly _ (Table.mem_filter.2 ⟨hloaded, decide_eq_true h⟩), happly _ hloaded]
    exact (accounts_of_put _ hrow).symm
  · intro other hne
    rw [happly _ hloaded]
    refine accounts_of_put_other hne h fun r hr hid => ?_
    rw [db.accounts.eq_of_key hr hloaded hid]
    exact h

theorem scoped_updateTransaction {loaded current : Transaction}
    (hloaded : loaded ∈ db.transactions) (h : loaded.userId = userId) :
    Scoped userId db (.updateTransaction loaded current) := by
  have hfind : db.transactions.find? loaded.id = some loaded :=
    Table.find?_eq_some.2 ⟨hloaded, rfl⟩
  have happly : ∀ db' : Db, loaded ∈ db'.transactions →
      engine.applyAll [.updateTransaction loaded.id (.between loaded current)] db' = { db' with
        transactions :=
          db'.transactions.put ((TransactionChange.between loaded current).apply loaded) } :=
    fun db' hmem => apply_updateTransaction hmem _
  refine scoped_of_write [.updateTransaction loaded.id (.between loaded current)]
    ?_ (fun ws hws => (updateTransaction_finish hws).1) ?_ ?_
  · simp only [Stmt.plan, Stmt.finish, hfind, find_transaction_of hloaded h]
  · have hrow : ((TransactionChange.between loaded current).apply loaded).userId = userId := h
    rw [happly _ (Table.mem_filter.2 ⟨hloaded, decide_eq_true h⟩), happly _ hloaded]
    exact (transactions_of_put _ hrow).symm
  · intro other hne
    rw [happly _ hloaded]
    refine transactions_of_put_other hne h fun r hr hid => ?_
    rw [db.transactions.eq_of_key hr hloaded hid]
    exact h

omit [Collation] in
theorem insertAll_of {rows : List Transaction} (h : ∀ t ∈ rows, t.userId = userId) (db : Db) :
    (insertAll rows db).of userId = insertAll rows (db.of userId) := by
  induction rows generalizing db with
  | nil => rfl
  | cons t rows ih =>
    have ht : t.userId = userId := h t List.mem_cons_self
    show (insertAll rows { db with transactions := db.transactions.put t }).of userId = _
    rw [ih fun r hr => h r (List.mem_cons_of_mem _ hr), transactions_of_put t ht]
    rfl

omit [Collation] in
theorem insertAll_of_other {rows : List Transaction} (h : ∀ t ∈ rows, t.userId = userId)
    {other : Nat} (hne : other ≠ userId) (db : Db)
    (hkey : ∀ r ∈ db.transactions, ∀ t ∈ rows, r.id = t.id → r.userId = userId) :
    (insertAll rows db).of other = db.of other := by
  induction rows generalizing db with
  | nil => rfl
  | cons t rows ih =>
    have ht : t.userId = userId := h t List.mem_cons_self
    have hput : Db.of other { db with transactions := db.transactions.put t } = db.of other :=
      transactions_of_put_other hne ht fun r hr => hkey r hr t List.mem_cons_self
    show (insertAll rows { db with transactions := db.transactions.put t }).of other = _
    refine Eq.trans (ih (fun r hr => h r (List.mem_cons_of_mem _ hr)) _ ?_) hput
    intro r hr s hs hid
    rcases Table.mem_put.1 hr with rfl | ⟨hr, -⟩
    · exact ht
    · exact hkey r hr s (List.mem_cons_of_mem _ hs) hid

theorem scoped_insertTransactions {rows : List Transaction} (h : ∀ t ∈ rows, t.userId = userId)
    (hfresh : ∀ r ∈ db.transactions, ∀ t ∈ rows, r.id ≠ t.id) :
    Scoped userId db (.insertTransactions rows) := by
  have hnone : ∀ t ∈ rows, ∀ table : Table Transaction, (∀ r ∈ table, r ∈ db.transactions) →
      table.find? t.id = none :=
    fun t ht table hsub => Table.find?_eq_none.2 fun r hr => hfresh r (hsub r hr) t ht
  refine scoped_of_write (rows.map .insertTransaction) ?_
    (fun ws hws => (insertTransactions_finish hws).1) ?_ ?_
  · have hown : ∀ r ∈ (db.of userId).transactions, r ∈ db.transactions :=
      fun _ hr => (Table.mem_filter.1 hr).1
    simp only [Stmt.plan, Stmt.finish]
    have hids : (rows.any fun t => ((db.of userId).transactions.find? t.id).isSome) =
        rows.any fun t => (db.transactions.find? t.id).isSome := by
      refine Sql.any_congr fun t ht => ?_
      rw [hnone t ht db.transactions fun _ hr => hr, hnone t ht (db.of userId).transactions hown]
    have haccounts : (rows.any fun t => !accountExists t (db.of userId)) =
        rows.any fun t => !accountExists t db := by
      refine Sql.any_congr fun t ht => ?_
      rw [accountExists_of (h t ht)]
    rw [hids, haccounts]
  · rw [applyAll_inserts, applyAll_inserts, insertAll_of h]
  · intro other hne
    rw [applyAll_inserts]
    exact insertAll_of_other h hne db fun r hr t ht hid => absurd hid (hfresh r hr t ht)

theorem plan_deleteTransaction_of (transactionId : Nat) :
    (Stmt.deleteTransaction userId transactionId).plan (db.of userId) =
      (Stmt.deleteTransaction userId transactionId).plan db := by
  simp only [Stmt.plan]
  rw [getTransaction_of]
  have hrows : ∀ targetGroup, (db.of userId).transactions.rows.filter
      (deleteMatches userId transactionId targetGroup) =
      db.transactions.rows.filter (deleteMatches userId transactionId targetGroup) :=
    fun _ => Sql.filter_of_imp fun t _ ht => decide_eq_true (deleteMatches_iff.1 ht).1
  rw [hrows]

theorem scoped_deleteTransaction (transactionId : Nat) :
    Scoped userId db (.deleteTransaction userId transactionId) := by
  obtain ⟨targetGroup, hits, hplan, hhits⟩ : ∃ targetGroup hits,
      (Stmt.deleteTransaction userId transactionId).plan db =
        (.deleteMatching userId transactionId targetGroup, hits) ∧
      ∀ t ∈ db.transactions, Key.transaction t.id ∈ hits → t.userId = userId := by
    refine ⟨_, _, rfl, fun t ht hmem => ?_⟩
    obtain ⟨r, hr, hkey⟩ := List.mem_map.1 hmem
    obtain ⟨hr, hmatch⟩ := List.mem_filter.1 hr
    have hid : t.id = r.id := by simpa using hkey.symm
    rw [db.transactions.eq_of_key ht hr hid]
    exact (deleteMatches_iff.1 hmatch).1
  obtain ⟨ws, hws⟩ : ∃ ws, (Stmt.deleteMatching userId transactionId targetGroup).finish hits db =
      .ok ws := ⟨_, rfl⟩
  have happly := fun db' => applyAll_deletes hits db db' ws hws
  refine scoped_of_write ws ?_ ?_ ?_ ?_
  · rw [plan_deleteTransaction_of, hplan]
    rfl
  · intro ws' hws'
    rw [hplan] at hws'
    exact Except.ok.inj (hws'.symm.trans hws)
  · rw [happly, happly]
    exact congrArg (Db.mk _) (Table.filter_comm _ _ _)
  · intro other hne
    rw [happly]
    refine congrArg (Db.mk _) (Table.ext_mem fun t => ?_)
    rw [Table.mem_filter, Table.mem_filter, Table.mem_filter]
    constructor
    · rintro ⟨⟨ht, -⟩, hother⟩
      exact ⟨ht, hother⟩
    · rintro ⟨ht, hother⟩
      refine ⟨⟨ht, decide_eq_true fun hmem => hne ?_⟩, hother⟩
      exact (of_decide_eq_true hother).symm.trans (hhits t ht hmem)

end Statements

/-! ## Requests -/

section Requests

variable [Collation] {env : Env} {n userId : Nat} {now : Int} {db : Db}

/-- One answer, but for the order of categories that tie. -/
inductive SameAnswer : Except Failure Response → Except Failure Response → Prop
  | same (r : Except Failure Response) : SameAnswer r r
  | ties {s s' : SummaryResponse} (h : s.UpToTies s') :
    SameAnswer (.ok (.summary s)) (.ok (.summary s'))

omit [Collation] in
theorem SameAnswer.symm {r r' : Except Failure Response} (h : SameAnswer r r') :
    SameAnswer r' r := by
  cases h with
  | same => exact .same r
  | ties h => exact .ties ⟨h.totals.symm, h.income.symm, h.expenses.symm, h.byCategory.symm⟩

omit [Collation] in
theorem SameAnswer.trans {r r' r'' : Except Failure Response} (h : SameAnswer r r')
    (h' : SameAnswer r' r'') : SameAnswer r r'' := by
  cases h with
  | same => exact h'
  | ties h =>
    cases h' with
    | same => exact .ties h
    | ties h' =>
      exact .ties ⟨h.totals.trans h'.totals, h.income.trans h'.income,
        h.expenses.trans h'.expenses, h.byCategory.trans h'.byCategory⟩

/-- The order in which the user's categories are come upon depends on the user's rows alone. -/
def Env.FindsAlone (env : Env) (userId : Nat) : Prop :=
  ∀ n (db : Db), env.categoriesFound n (db.of userId) = env.categoriesFound n db

/-- What a request answers and leaves, `r` with all rows and `r'` with the user's rows alone. -/
structure Confined (env : Env) (userId : Nat) (db : Db) (r r' : Except Failure Response × Db) :
    Prop where
  answer : SameAnswer r'.1 r.1
  alone : env.FindsAlone userId → r'.1 = r.1
  rows : r'.2 = r.2.of userId
  others : ∀ other, other ≠ userId → r.2.of other = db.of other

omit [Collation] in
theorem Confined.unchanged (r : Except Failure Response) :
    Confined env userId db (r, db) (r, db.of userId) :=
  ⟨.same r, fun _ => rfl, rfl, fun _ _ => rfl⟩

theorem Confined.settle {q : Stmt} (h : Scoped userId db q) (failure : DbError → Failure)
    (a : Response) :
    Confined env userId db (settle (q.whole db) failure a db)
      (settle (q.whole (db.of userId)) failure a (db.of userId)) := by
  obtain ⟨hwhole, hothers⟩ := h
  rw [hwhole]
  cases hdb : q.whole db with
  | ok db' => exact ⟨.same _, fun _ => rfl, rfl, hothers db' hdb⟩
  | error d => exact .unchanged _

/-- The ids request `n` is handed out are not in use. -/
structure Fresh (env : Env) (n : Nat) (db : Db) : Prop where
  accounts : ∀ a ∈ db.accounts, a.id ≠ env.accountId n
  transactions : ∀ t ∈ db.transactions, ∀ i, t.id ≠ env.transactionId n i

/-- **Every endpoint is confined** to the rows of the user it is called by. -/
theorem respond_confined (hfk : ForeignKey db) (hfresh : Fresh env n db) (endpoint : Endpoint) :
    Confined env userId db (respond env n userId now db endpoint)
      (respond env n userId now (db.of userId) endpoint) := by
  cases endpoint with
  | createAccount payload =>
    have hscoped : Scoped userId db (.insertAccount (newAccount env n userId payload)) :=
      scoped_insertAccount rfl hfresh.accounts
    exact .settle hscoped _ _
  | listAccounts =>
    simp only [respond, listAccountsWithBalances_of hfk]
    exact .unchanged _
  | getAccount accountId =>
    simp only [respond, getAccountWithBalance_of hfk]
    cases getAccountWithBalance db accountId.val userId with
    | none => exact .unchanged _
    | some found => exact .unchanged _
  | updateAccount accountId payload =>
    simp only [respond, getAccountWithBalance_of hfk]
    cases hfound : getAccountWithBalance db accountId.val userId with
    | none => exact .unchanged _
    | some found =>
      obtain ⟨hmem, huser⟩ := mem_of_getAccountWithBalance hfound
      by_cases hsame : found.account = updatedAccount now found.account payload
      · simp only [if_pos hsame]
        exact .unchanged _
      · simp only [if_neg hsame]
        have hscoped : Scoped userId db
            (.updateAccount found.account (updatedAccount now found.account payload)) :=
          scoped_updateAccount hmem huser huser
        exact .settle hscoped _ _
  | createTransaction payload =>
    simp only [respond, getAccount_of]
    cases getAccount db payload.accountId.val userId with
    | none => exact .unchanged _
    | some found =>
      refine .settle (scoped_insertTransactions (fun t ht => ?_) fun r hr t ht => ?_) _ _
      · rw [List.mem_singleton.1 ht]
        rfl
      · rw [List.mem_singleton.1 ht]
        exact hfresh.transactions r hr 0
  | listTransactions filters =>
    simp only [respond, pageTransactions_of, countTransactions_of]
    exact .unchanged _
  | getTransaction transactionId =>
    simp only [respond, getTransaction_of]
    cases getTransaction db transactionId.val userId with
    | none => exact .unchanged _
    | some found => exact .unchanged _
  | updateTransaction transactionId payload =>
    simp only [respond, getTransaction_of]
    cases hfound : getTransaction db transactionId.val userId with
    | none => exact .unchanged _
    | some loaded =>
      obtain ⟨hmem, -, huser⟩ := getTransaction_eq_some.1 hfound
      by_cases hgroup : loaded.transferGroupId.isSome = true
      · simp only [if_pos hgroup]
        exact .unchanged _
      · simp only [if_neg hgroup]
        by_cases hsame : loaded = applyTransactionUpdate loaded payload
        · simp only [if_pos hsame]
          exact .unchanged _
        · simp only [if_neg hsame]
          exact .settle (scoped_updateTransaction hmem huser) _ _
  | deleteTransaction transactionId =>
    simp only [respond, plan_deleteTransaction_of]
    split
    · exact .unchanged _
    · exact .settle (scoped_deleteTransaction transactionId.val) _ _
  | createTransfer payload =>
    simp only [respond, getAccounts_of]
    split
    · exact .unchanged _
    · split
      · exact .unchanged _
      · split
        · exact .unchanged _
        · have hrows := transferRows_group env n userId payload
          refine .settle (scoped_insertTransactions (fun t ht => (hrows t ht).2)
            fun r hr t ht hid => ?_) _ _
          obtain ⟨i, hi⟩ := transferRows_ids env n userId payload t ht
          exact hfresh.transactions r hr i (hid.trans hi)
  | getSummary period =>
    simp only [respond, summary_of hfk]
    refine ⟨.ties (summary_upToTies _ _ db userId period), fun halone => ?_, rfl, fun _ _ => rfl⟩
    exact congrArg (fun found => Except.ok (Response.summary (summary found db userId period)))
      (halone n db)

/-! ## Two runs -/

/-- What requests served one at a time leave is as good as what they found. -/
theorem ledger_serial {w w' : LedgerWorld} (hw : LedgerOk env w) (hlog : w.log = [])
    (h : Serial engine (handle env) w w') : LedgerOk env w' ∧ w'.Unanswered w'.started := by
  have hgood := ledger_run hw hlog (serial_run h)
  exact ⟨hgood.inv.1, fun e he => Nat.ne_of_lt (hgood.logged e he)⟩

/-- The user's requests one after another, each some time after the one before. -/
def session (env : Env) (userId : Nat) : List (Nat × Endpoint) → LedgerWorld → LedgerWorld
  | [], w => w
  | (d, endpoint) :: rest, w =>
    session env userId rest ((w.tick d).serve engine (handle env) ⟨userId, endpoint⟩)

/-- The same requests, each with the same answer but for ties. -/
def SameLog : List (Nat × Request × Except Failure Response) →
    List (Nat × Request × Except Failure Response) → Prop :=
  List.Forall₂ fun e e' => e.1 = e'.1 ∧ e.2.1 = e'.2.1 ∧ SameAnswer e.2.2 e'.2.2

/-- Two worlds the user cannot tell apart, but for ties. -/
structure Alike (env : Env) (userId : Nat) (w₁ w₂ : LedgerWorld) : Prop where
  rows : w₁.db.of userId = w₂.db.of userId
  clock : w₁.clock = w₂.clock
  started : w₁.started = w₂.started
  log : SameLog w₁.log w₂.log
  alone : env.FindsAlone userId → w₁.log = w₂.log

theorem serve_confined {w₀ w : LedgerWorld} (hw : LedgerOk env w₀) (hlog : w₀.log = [])
    (h : Serial engine (handle env) w₀ w) (endpoint : Endpoint) :
    Confined env userId w.db (respond env w.started userId w.clock w.db endpoint)
      (respond env w.started userId w.clock (w.db.of userId) endpoint) := by
  obtain ⟨hok, hn⟩ := ledger_serial hw hlog h
  exact respond_confined hok.fk
    ⟨fun _ ha => hok.account_ne hn ha, fun _ ht i => hok.transaction_ne hn ht i⟩ endpoint

/-- One request keeps two worlds alike, and each world's other rows. -/
theorem Alike.serve {u₁ u₂ w₁ w₂ : LedgerWorld} (hw₁ : LedgerOk env u₁) (hlog₁ : u₁.log = [])
    (hw₂ : LedgerOk env u₂) (hlog₂ : u₂.log = []) (h₁ : Serial engine (handle env) u₁ w₁)
    (h₂ : Serial engine (handle env) u₂ w₂) (h : Alike env userId w₁ w₂) (endpoint : Endpoint) :
    Alike env userId (w₁.serve engine (handle env) ⟨userId, endpoint⟩)
      (w₂.serve engine (handle env) ⟨userId, endpoint⟩) := by
  have hc₁ : Confined env userId w₁.db _ _ := serve_confined hw₁ hlog₁ h₁ endpoint
  have hc₂ : Confined env userId w₂.db _ _ := serve_confined hw₂ hlog₂ h₂ endpoint
  rw [h.started, h.clock, h.rows] at hc₁
  rw [serve_eq, serve_eq, h.started, h.clock]
  refine ⟨hc₁.rows.symm.trans hc₂.rows, h.clock, congrArg (· + 1) h.started, ?_, fun halone => ?_⟩
  · exact .cons ⟨rfl, rfl, hc₁.answer.symm.trans hc₂.answer⟩ h.log
  · show _ :: w₁.log = _ :: w₂.log
    rw [h.alone halone, ← hc₁.alone halone, ← hc₂.alone halone]

theorem session_alike {u₁ u₂ : LedgerWorld} (hw₁ : LedgerOk env u₁) (hlog₁ : u₁.log = [])
    (hw₂ : LedgerOk env u₂) (hlog₂ : u₂.log = []) (requests : List (Nat × Endpoint)) :
    ∀ w₁ w₂ : LedgerWorld, Serial engine (handle env) u₁ w₁ → Serial engine (handle env) u₂ w₂ →
      Alike env userId w₁ w₂ →
      Alike env userId (session env userId requests w₁) (session env userId requests w₂) := by
  induction requests with
  | nil => exact fun w₁ w₂ _ _ h => h
  | cons request requests ih =>
    obtain ⟨d, endpoint⟩ := request
    intro w₁ w₂ h₁ h₂ h
    refine ih _ _ (.serve _ (.tick d h₁)) (.serve _ (.tick d h₂)) ?_
    have hlater : Alike env userId (w₁.tick d) (w₂.tick d) :=
      ⟨h.rows, congrArg (· + (d : Int)) h.clock, h.started, h.log, h.alone⟩
    exact Alike.serve hw₁ hlog₁ hw₂ hlog₂ (.tick d h₁) (.tick d h₂) hlater endpoint

theorem session_others {u : LedgerWorld} (hw : LedgerOk env u) (hlog : u.log = [])
    (requests : List (Nat × Endpoint)) {other : Nat} (hne : other ≠ userId) :
    ∀ w : LedgerWorld, Serial engine (handle env) u w →
      (session env userId requests w).db.of other = w.db.of other := by
  induction requests with
  | nil => exact fun w _ => rfl
  | cons request requests ih =>
    obtain ⟨d, endpoint⟩ := request
    intro w h
    refine (ih _ (.serve _ (.tick d h))).trans ?_
    rw [serve_eq]
    exact (serve_confined hw hlog (.tick d h) endpoint).others other hne

end Requests

/-- **Ownership noninterference**, for any requests of one user over any two ledgers in which the
user has the same rows: the answers are the same but for ties, and the same altogether where the
order of ties is not left to other users' rows. -/
theorem ownership_noninterference [Collation] {env : Env} {userId : Nat} {w₁ w₂ : LedgerWorld}
    (hw₁ : LedgerOk env w₁) (hw₂ : LedgerOk env w₂) (hlog₁ : w₁.log = []) (hlog₂ : w₂.log = [])
    (hclock : w₁.clock = w₂.clock) (hstarted : w₁.started = w₂.started)
    (hrows : w₁.db.of userId = w₂.db.of userId) (requests : List (Nat × Endpoint)) :
    SameLog (session env userId requests w₁).log (session env userId requests w₂).log ∧
    (env.FindsAlone userId →
      (session env userId requests w₁).log = (session env userId requests w₂).log) ∧
    (session env userId requests w₁).db.of userId = (session env userId requests w₂).db.of userId ∧
    ∀ other, other ≠ userId →
      (session env userId requests w₁).db.of other = w₁.db.of other ∧
      (session env userId requests w₂).db.of other = w₂.db.of other := by
  have hlogs : w₁.log = w₂.log := hlog₁.trans hlog₂.symm
  have hsame : SameLog w₁.log w₂.log := by
    rw [hlog₁, hlog₂]
    exact .nil
  have hstart : Alike env userId w₁ w₂ := ⟨hrows, hclock, hstarted, hsame, fun _ => hlogs⟩
  have halike := session_alike hw₁ hlog₁ hw₂ hlog₂ requests w₁ w₂ (.refl w₁) (.refl w₂) hstart
  exact ⟨halike.log, halike.alone, halike.rows, fun other hne =>
    ⟨session_others hw₁ hlog₁ requests hne w₁ (.refl w₁),
      session_others hw₂ hlog₂ requests hne w₂ (.refl w₂)⟩⟩

/-! ## A user with something to learn -/

/-- What user 2 has. -/
def strangersAccount : Account where
  id := 1
  userId := 2
  name := "cash"
  unit := "EUR"
  type := .cash
  archivedAt := none

def strangersExpense : Transaction where
  id := 2
  userId := 2
  accountId := 1
  amount := -5
  kind := .expense
  category := none
  occurredAt := 0
  note := none
  transferGroupId := none

def strangersWorld : LedgerWorld where
  db := ⟨Table.empty.put strangersAccount, Table.empty.put strangersExpense⟩

/-- A small table is gone through as it is stored, a larger one backwards. -/
def Env.bySize : Env := .counting 100 fun _ db =>
  if db.transactions.rows.length ≤ 2 then .asStored else .backwards

theorem strangersWorld_ok : LedgerOk .bySize strangersWorld := by
  have haccounts : ∀ a ∈ strangersWorld.db.accounts, a = strangersAccount := by
    intro a ha
    rcases Table.mem_put.1 ha with rfl | ⟨ha, -⟩
    · rfl
    · exact absurd ha (Table.not_mem_empty a)
  have htransactions : ∀ t ∈ strangersWorld.db.transactions, t = strangersExpense := by
    intro t ht
    rcases Table.mem_put.1 ht with rfl | ⟨ht, -⟩
    · rfl
    · exact absurd ht (Table.not_mem_empty t)
  constructor
  · intro t ht
    rw [htransactions t ht]
    exact ⟨strangersAccount, Table.mem_put.2 (Or.inl rfl), rfl, rfl⟩
  · intro a ha
    rw [haccounts a ha]
    refine ⟨by decide, by decide, fun k _ => ?_⟩
    show 1 ≠ k + 1 + 100
    omega
  · intro t ht
    rw [htransactions t ht]
    refine ⟨by decide, fun k _ i => ?_⟩
    show 2 ≠ Nat.pair k i + 100
    omega
  · intro t ht k _
    rw [htransactions t ht]
    exact fun h => by cases h

theorem strangersWorld_of : strangersWorld.db.of 1 = initialWorld.db.of 1 :=
  congrArg₂ Db.mk (Table.filter_put_of_neg rfl fun r hr => absurd hr (Table.not_mem_empty r))
    (Table.filter_put_of_neg rfl fun r hr => absurd hr (Table.not_mem_empty r))

/-- Three units of money spent on something. -/
def nosyExpense (category : String) : Endpoint := .createTransaction
  { accountId := ⟨101, by decide, by decide⟩
    amount := ⟨3 * 10 ^ 18, by decide⟩
    kind := .expense
    category := some category
    occurredAt := 10 }

/-- User 1 opens an account and tries what is not theirs, user 2's account and user 2's expense; then
spends the same on two categories and asks for a summary. -/
def nosyRequests : List (Nat × Endpoint) :=
  [(0, .createAccount { name := "cash", unit := "EUR", type := .cash }), (60, .listAccounts),
    (0, .getAccount .one), (0, .updateTransaction .two { kind := some .income }),
    (0, .deleteTransaction .two), (0, nosyExpense "food"), (0, nosyExpense "fuel"),
    (0, .getSummary ⟨0, 20, by decide⟩)]

/-- The categories in the last answer. -/
def lastCategories (log : List (Nat × Request × Except Failure Response)) : List (Option String) :=
  match log.head? with
  | some (_, _, .ok (.summary s)) => s.byCategory.map CategoryTotal.category
  | _ => []

/-- The answers user 1 is given. -/
def nosyLog (w : LedgerWorld) : List (Nat × Request × Except Failure Response) :=
  let _ : Collation := Collation.codePoints
  (session .bySize 1 nosyRequests w).log

theorem lastCategories_nosyLog :
    lastCategories (nosyLog strangersWorld) = [some "fuel", some "food"] ∧
    lastCategories (nosyLog initialWorld) = [some "food", some "fuel"] := by
  decide +kernel

/-- **A tie may tell**: two ledgers with the same rows of the user, and a summary that lists the
user's categories in another order, as the database chose by how many rows others have. -/
theorem ties_may_tell : ∃ (_ : Collation) (env : Env) (w₁ w₂ : LedgerWorld)
    (requests : List (Nat × Endpoint)), LedgerOk env w₁ ∧ LedgerOk env w₂ ∧
      w₁.log = [] ∧ w₂.log = [] ∧ w₁.clock = w₂.clock ∧ w₁.started = w₂.started ∧
      w₁.db.of 1 = w₂.db.of 1 ∧
      (session env 1 requests w₁).log ≠ (session env 1 requests w₂).log := by
  refine ⟨Collation.codePoints, .bySize, strangersWorld, initialWorld, nosyRequests,
    strangersWorld_ok, initial_ledger .bySize, rfl, rfl, rfl, rfl, strangersWorld_of, ?_⟩
  intro heq
  obtain ⟨hfuel, hfood⟩ := lastCategories_nosyLog
  have hsame : nosyLog strangersWorld = nosyLog initialWorld := heq
  rw [hsame, hfood] at hfuel
  exact absurd hfuel (by decide)

theorem nosyRequests_learn_nothing :
    SameLog (nosyLog strangersWorld) (nosyLog initialWorld) ∧
    lastCategories (nosyLog strangersWorld) = [some "fuel", some "food"] ∧
    ∃ _ : Collation, (session .bySize 1 nosyRequests strangersWorld).db.of 2 =
      strangersWorld.db.of 2 := by
  let _ : Collation := Collation.codePoints
  obtain ⟨hlog, -, -, hothers⟩ := ownership_noninterference strangersWorld_ok
    (initial_ledger .bySize) rfl rfl rfl rfl strangersWorld_of nosyRequests
  exact ⟨hlog, lastCategories_nosyLog.1, Collation.codePoints, (hothers 2 (by decide)).1⟩

end Tradinghub.Ledger
