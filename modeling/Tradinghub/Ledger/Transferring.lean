import Tradinghub.Ledger.Summary

/-!
# What recording a transfer does

`create_transfer` raises its three errors in a fixed order, and otherwise inserts the rows of the
transfer and nothing else (`TransferOutcome`).  What these rows do to every balance, total and
category is read off by adding them to the sums the queries compute (`TransferEffect`).
-/

namespace Tradinghub.Ledger

open ReadCommitted Store

/-! ## The outcome -/

/-- The accounts a transfer names are the user's. -/
def TransferCreate.Owned (details : TransferCreate) (db : Db) (userId : Nat) : Prop :=
  ∀ accountId ∈ details.fromAccountId :: details.toAccountId :: details.feeAccountId.toList,
    ∃ a ∈ db.accounts, a.id = accountId.val ∧ a.userId = userId

/-- Source and destination are counted in the same unit. -/
def TransferCreate.OneUnit (details : TransferCreate) (db : Db) : Prop :=
  ∃ a ∈ db.accounts, ∃ b ∈ db.accounts,
    a.id = details.fromAccountId.val ∧ b.id = details.toAccountId.val ∧ a.unit = b.unit

/-- The column can hold the amounts that are written. -/
def TransferCreate.Fits (details : TransferCreate) : Prop :=
  fitsNumeric details.amountSent.units = true ∧ fitsNumeric details.amountReceived.units = true ∧
    ∀ fee ∈ details.fee, fitsNumeric fee.units = true

/-- The sequence of `transactions.id` has not run out. -/
def Env.IdsLeft (env : Env) (n : Nat) : Prop := ∀ i, i < 3 → env.transactionId n i ≤ maxRowId

section Outcome

variable {env : Env} {n userId : Nat} {now : Int} {db : Db} {details : TransferCreate}

theorem RowId.eq_of_val {rowId rowId' : RowId} (h : rowId.val = rowId'.val) : rowId = rowId' := by
  cases rowId
  cases rowId'
  cases h
  rfl

theorem mem_accountIds {id : Nat} :
    id ∈ details.accountIds ↔ ∃ accountId ∈
      details.fromAccountId :: details.toAccountId :: details.feeAccountId.toList,
        accountId.val = id := by
  unfold TransferCreate.accountIds
  rw [List.mem_dedup, ← List.mem_map]
  cases details.feeAccountId <;> rfl

theorem TransferCreate.Owned.find (howned : details.Owned db userId) {id : Nat}
    (hid : id ∈ details.accountIds) : ∃ a ∈ db.accounts, a.id = id ∧ a.userId = userId := by
  obtain ⟨accountId, hmem, rfl⟩ := mem_accountIds.1 hid
  exact howned accountId hmem

theorem getAccounts_length_iff :
    (getAccounts db details.accountIds userId).length = details.accountIds.length ↔
      details.Owned db userId := by
  constructor
  · intro hlength accountId hmem
    obtain ⟨a, ha, hid⟩ := getAccounts_all hlength (mem_accountIds.2 ⟨accountId, hmem, rfl⟩)
    obtain ⟨ha, hcond⟩ := List.mem_filter.1 ha
    exact ⟨a, ha, hid, (of_decide_eq_true hcond).2⟩
  · intro howned
    have hnodup : ((getAccounts db details.accountIds userId).map Account.id).Nodup :=
      db.accounts.nodup_keys.sublist (List.filter_sublist.map _)
    have hids : ((getAccounts db details.accountIds userId).map Account.id).Perm
        details.accountIds := by
      refine (List.perm_ext_iff_of_nodup hnodup (List.nodup_dedup _)).2 fun id => ?_
      rw [List.mem_map]
      constructor
      · rintro ⟨a, ha, rfl⟩
        exact (of_decide_eq_true (List.mem_filter.1 ha).2).1
      · intro hid
        obtain ⟨a, ha, rfl, huser⟩ := howned.find hid
        exact ⟨a, List.mem_filter.2 ⟨ha, decide_eq_true ⟨hid, huser⟩⟩, rfl⟩
    rw [← hids.length_eq, List.length_map]

theorem from_mem_accountIds (details : TransferCreate) :
    details.fromAccountId.val ∈ details.accountIds :=
  mem_accountIds.2 ⟨_, List.mem_cons_self, rfl⟩

theorem to_mem_accountIds (details : TransferCreate) :
    details.toAccountId.val ∈ details.accountIds :=
  mem_accountIds.2 ⟨_, List.mem_cons_of_mem _ List.mem_cons_self, rfl⟩

theorem fee_mem_accountIds {feeAccountId : RowId} (h : feeAccountId ∈ details.feeAccountId) :
    feeAccountId.val ∈ details.accountIds :=
  mem_accountIds.2 ⟨_, List.mem_cons_of_mem _ (List.mem_cons_of_mem _ (Option.mem_toList.2 h)), rfl⟩

theorem sameUnit_iff (howned : details.Owned db userId) :
    sameUnit (getAccounts db details.accountIds userId) details = true ↔ details.OneUnit db := by
  have hlength := getAccounts_length_iff.2 howned
  have hfrom := from_mem_accountIds details
  have hto := to_mem_accountIds details
  rw [sameUnit, decide_eq_true_eq, unitOf_getAccounts hlength hfrom, unitOf_getAccounts hlength hto]
  obtain ⟨a, ha, hida, -⟩ := howned.find hfrom
  obtain ⟨b, hb, hidb, -⟩ := howned.find hto
  rw [← hida, ← hidb, unitOf_eq (fun _ h => h) ha, unitOf_eq (fun _ h => h) hb]
  constructor
  · intro hunit
    exact ⟨a, ha, b, hb, hida, hidb, Option.some.inj hunit⟩
  · rintro ⟨a', ha', b', hb', hida', hidb', hunit⟩
    rw [← db.accounts.eq_of_key ha' ha (hida'.trans hida.symm),
      ← db.accounts.eq_of_key hb' hb (hidb'.trans hidb.symm), hunit]

variable [Collation]

/-- The service, alone with the rows. -/
theorem alone_transfer :
    (createTransfer env n userId details).alone engine now db db =
      if details.fromAccountId.val = details.toAccountId.val then
        (.error (.app TransferSameAccountError), db)
      else if ¬ (getAccounts db details.accountIds userId).length = details.accountIds.length then
        (.error (.app AccountNotFoundError), db)
      else if sameUnit (getAccounts db details.accountIds userId) details = true ∧
          details.amountSent.units ≠ details.amountReceived.units then
        (.error (.app TransferAmountsDifferError), db)
      else
        match (Stmt.insertTransactions (transferRows env n userId details)).whole db with
        | .ok db' => (.ok (transferRows env n userId details), db')
        | .error d => (.error (.database d), db) := by
  unfold createTransfer
  split
  · rfl
  · rw [alone_select]
    by_cases hfound :
        (getAccounts db details.accountIds userId).length = details.accountIds.length
    · rw [if_neg (not_not_intro hfound), if_neg (not_not_intro hfound)]
      by_cases hdiffer : sameUnit (getAccounts db details.accountIds userId) details = true ∧
          details.amountSent.units ≠ details.amountReceived.units
      · rw [if_pos hdiffer, if_pos hdiffer]
        rfl
      · rw [if_neg hdiffer, if_neg hdiffer]
        simp only [Prog.discard_eq, Prog.bind_assoc]
        cases hwhole : (Stmt.insertTransactions (transferRows env n userId details)).whole db with
        | ok db' =>
          rw [alone_execute_ok hwhole]
          rfl
        | error d => rw [alone_execute_error hwhole]
    · rw [if_pos hfound, if_pos hfound]
      rfl

/-- An INSERT that breaks no constraint. -/
theorem insert_whole {rows : List Transaction} (hids : ∀ t ∈ rows, t.id ≤ maxRowId)
    (hfits : ∀ t ∈ rows, fitsNumeric t.amount = true)
    (hfresh : ∀ t ∈ rows, ∀ r ∈ db.transactions, r.id ≠ t.id)
    (haccounts : ∀ t ∈ rows, accountExists t db = true) :
    (Stmt.insertTransactions rows).whole db = .ok (insertAll rows db) := by
  have hfinish : (Stmt.insertTransactions rows).finish [] db =
      .ok (rows.map .insertTransaction) := by
    simp only [Stmt.finish]
    rw [if_neg, if_neg, if_neg, if_neg]
    all_goals rw [List.any_eq_true]
    · rintro ⟨t, ht, h⟩
      rw [haccounts t ht] at h
      cases h
    · rintro ⟨t, ht, h⟩
      obtain ⟨r, hr⟩ := Option.isSome_iff_exists.1 h
      obtain ⟨hr, hid⟩ := Table.find?_eq_some.1 hr
      exact hfresh t ht r hr hid
    · rintro ⟨t, ht, h⟩
      rw [hfits t ht] at h
      cases h
    · rintro ⟨t, ht, h⟩
      have := hids t ht
      have := of_decide_eq_true h
      omega
  unfold Stmt.whole
  show ((Stmt.insertTransactions rows).finish [] db).map _ = _
  rw [hfinish]
  exact congrArg Except.ok (applyAll_inserts rows db)

omit [Collation] in
/-- A row of the transfer is one of three. -/
theorem mem_transferRows {t : Transaction} :
    t ∈ transferRows env n userId details ↔
      t = transactionRow env n userId 0 details details.fromAccountId.val
        (-details.amountSent.units) .transfer none ∨
      t = transactionRow env n userId 1 details details.toAccountId.val
        details.amountReceived.units .transfer none ∨
      ∃ fee ∈ details.fee, ∃ feeAccountId ∈ details.feeAccountId,
        t = transactionRow env n userId 2 details feeAccountId.val (-fee.units) .expense
          details.feeCategory := by
  unfold transferRows
  simp only [List.cons_append, List.nil_append, List.mem_cons]
  refine or_congr_right (or_congr_right ?_)
  cases details.fee with
  | none => simp
  | some fee =>
    cases details.feeAccountId with
    | none => simp
    | some feeAccountId => simp

omit [Collation] in
theorem transferRows_account {t : Transaction} (ht : t ∈ transferRows env n userId details) :
    t.accountId ∈ details.accountIds := by
  rcases mem_transferRows.1 ht with rfl | rfl | ⟨fee, -, feeAccountId, hfee, rfl⟩
  · exact from_mem_accountIds details
  · exact to_mem_accountIds details
  · exact fee_mem_accountIds hfee

end Outcome

/-! ## The effect -/

/-- The fee, if the account pays it. -/
def TransferCreate.feeOn (details : TransferCreate) (accountId : Nat) : Int :=
  match details.fee, details.feeAccountId with
  | some fee, some feeAccountId => if accountId = feeAccountId.val then fee.units else 0
  | _, _ => 0

/-- What the transfer does to the balance of an account. -/
def TransferCreate.moved (details : TransferCreate) (accountId : Nat) : Int :=
  (if accountId = details.fromAccountId.val then -details.amountSent.units else 0) +
  (if accountId = details.toAccountId.val then details.amountReceived.units else 0) -
  details.feeOn accountId

/-- The fee, if its account is counted in the unit. -/
def TransferCreate.feeIn (details : TransferCreate) (db : Db) (unit : String) : Option Int :=
  match details.fee, details.feeAccountId with
  | some fee, some feeAccountId =>
    if unitOf db.accounts.rows feeAccountId.val = some unit then some fee.units else none
  | _, _ => none

/-- The fee, if it is the owner's and falls in the period. -/
def TransferCreate.feeWithin (details : TransferCreate) (db : Db) (userId owner : Nat)
    (period : SummaryPeriod) (unit : String) : Option Int :=
  if owner = userId ∧ period.occurredFrom ≤ details.occurredAt ∧
      details.occurredAt < period.occurredTo then details.feeIn db unit
  else none

/-- The total listed for the unit. -/
def totalOf (totals : List UnitTotal) (unit : String) : Option Int :=
  (totals.find? fun u => u.unit = unit).map UnitTotal.amount

def categoryTotalOf (totals : List CategoryTotal) (category : Option String) (unit : String) :
    Option Int :=
  (totals.find? fun c => c.category = category ∧ c.unit = unit).map CategoryTotal.amount

/-- A total with something added; one that was not listed was zero. -/
def plus (total added : Option Int) : Option Int :=
  match added with
  | none => total
  | some amount => some (total.getD 0 + amount)

/-- Everything a recorded transfer changes. -/
structure TransferEffect [Collation] (userId : Nat) (details : TransferCreate)
    (rows : List Transaction) (db db' : Db) : Prop where
  accounts : db'.accounts = db.accounts
  /-- only new rows appear -/
  newRows : db'.transactions.rows.Perm (rows ++ db.transactions.rows)
  balances : ∀ owner, listAccountsWithBalances db' owner =
    (listAccountsWithBalances db owner).map fun r =>
      { r with balance := r.balance + details.moved r.account.id }
  income : ∀ owner period, getIncomePerUnit db' owner period = getIncomePerUnit db owner period
  expenses : ∀ owner period unit, totalOf (getExpensesPerUnit db' owner period) unit =
    plus (totalOf (getExpensesPerUnit db owner period) unit)
      (details.feeWithin db userId owner period unit)
  byCategory : ∀ found found' owner period category unit,
    categoryTotalOf (getExpensesByCategory found' db' owner period) category unit =
      plus (categoryTotalOf (getExpensesByCategory found db owner period) category unit)
        (if category = details.feeCategory then details.feeWithin db userId owner period unit
        else none)
  totals : ∀ owner, getBalancesPerUnit db' owner =
    (getBalancesPerUnit db owner).map fun u =>
      { u with amount := u.amount +
          ((inUnit db owner u.unit).map fun a => details.moved a.id).sum }
  /-- what is sent and what arrives cancel out -/
  oneUnit : details.OneUnit db → ∀ owner, getBalancesPerUnit db' owner =
    (getBalancesPerUnit db owner).map fun u =>
      { u with amount := u.amount -
          if owner = userId then (details.feeIn db u.unit).getD 0 else 0 }

section Inserted

variable {env : Env} {n userId : Nat} {db : Db} {details : TransferCreate} {rows : List Transaction}

theorem insertAll_perm (hnodup : (rows.map Transaction.id).Nodup)
    (hfresh : ∀ t ∈ rows, ∀ r ∈ db.transactions, r.id ≠ t.id) :
    (insertAll rows db).transactions.rows.Perm (rows ++ db.transactions.rows) := by
  have hdisjoint : rows.Disjoint db.transactions.rows := fun t ht hold => hfresh t ht t hold rfl
  refine (List.perm_ext_iff_of_nodup (Table.nodup _)
    (hnodup.of_map.append db.transactions.nodup hdisjoint)).2 fun t => ?_
  show t ∈ (insertAll rows db).transactions ↔ _
  rw [mem_insertAll hnodup, List.mem_append]
  refine or_congr_right ⟨fun h => h.1, fun hold => ⟨hold, fun hid => ?_⟩⟩
  obtain ⟨r, hr, hid⟩ := List.mem_map.1 hid
  exact hfresh r hr t hold hid.symm

/-- Old rows and new ones, of those that fit. -/
theorem insertAll_filter (hnodup : (rows.map Transaction.id).Nodup)
    (hfresh : ∀ t ∈ rows, ∀ r ∈ db.transactions, r.id ≠ t.id) (p : Transaction → Bool) :
    ((insertAll rows db).transactions.rows.filter p).Perm
      (rows.filter p ++ db.transactions.rows.filter p) := by
  rw [← List.filter_append]
  exact (insertAll_perm hnodup hfresh).filter p

theorem unitRows_insertAll (hnodup : (rows.map Transaction.id).Nodup)
    (hfresh : ∀ t ∈ rows, ∀ r ∈ db.transactions, r.id ≠ t.id) (unit : String)
    (fits : Transaction → Bool) :
    (unitRows (insertAll rows db) unit fits).Perm
      ((rows.filter fun t => fits t && unitOf db.accounts.rows t.accountId = some unit) ++
        unitRows db unit fits) := insertAll_filter hnodup hfresh _

theorem balance_insertAll (hnodup : (rows.map Transaction.id).Nodup)
    (hfresh : ∀ t ∈ rows, ∀ r ∈ db.transactions, r.id ≠ t.id) (accountId : Nat) :
    balance (insertAll rows db) accountId = balance db accountId +
      ((rows.filter fun t => t.accountId = accountId).map Transaction.amount).sum := by
  unfold balance
  rw [((insertAll_filter hnodup hfresh _).map _).sum_eq, List.map_append, List.sum_append, add_comm]

/-- The rows of a transfer, summed on an account. -/
theorem transferRows_moved (accountId : Nat) :
    (((transferRows env n userId details).filter fun t => t.accountId = accountId).map
      Transaction.amount).sum = details.moved accountId := by
  unfold transferRows TransferCreate.moved TransferCreate.feeOn
  simp only [transactionRow, eq_comm (a := accountId)]
  cases details.fee with
  | none =>
    simp only [List.append_nil, List.filter_cons, List.filter_nil, decide_eq_true_eq]
    split <;> split <;> simp
  | some fee =>
    cases details.feeAccountId with
    | none =>
      simp only [List.append_nil, List.filter_cons, List.filter_nil, decide_eq_true_eq]
      split <;> split <;> simp
    | some feeAccountId =>
      simp only [List.cons_append, List.nil_append, List.filter_cons, List.filter_nil,
        decide_eq_true_eq]
      split <;> split <;> split <;> simp <;> omega

/-- The fee row, where it counts as an expense. -/
theorem transferRows_expense (env : Env) (n userId : Nat) (db : Db) (details : TransferCreate)
    (owner : Nat) (period : SummaryPeriod) (unit : String) :
    ((transferRows env n userId details).filter fun t => counted owner period .expense t &&
      unitOf db.accounts.rows t.accountId = some unit).map (fun t => (t.category, -t.amount)) =
      ((details.feeWithin db userId owner period unit).map
        fun amount => (details.feeCategory, amount)).toList := by
  unfold transferRows TransferCreate.feeWithin TransferCreate.feeIn
  cases details.fee with
  | none => simp [counted, transactionRow]
  | some fee =>
    cases details.feeAccountId with
    | none => simp [counted, transactionRow]
    | some feeAccountId =>
      by_cases howner : owner = userId ∧ period.occurredFrom ≤ details.occurredAt ∧
          details.occurredAt < period.occurredTo
      · by_cases hunit : unitOf db.accounts.rows feeAccountId.val = some unit
        · simp [counted, transactionRow, ownedAndWithinPeriod, howner, hunit]
        · simp [counted, transactionRow, howner, hunit]
      · have hnot : ¬ (userId = owner ∧ period.occurredFrom ≤ details.occurredAt ∧
            details.occurredAt < period.occurredTo) := fun h => howner ⟨h.1.symm, h.2⟩
        simp [counted, transactionRow, ownedAndWithinPeriod, howner, hnot]

theorem transferRows_income (owner : Nat) (period : SummaryPeriod) (unit : String) :
    ((transferRows env n userId details).filter fun t => counted owner period .income t &&
      unitOf db.accounts.rows t.accountId = some unit) = [] := by
  refine List.filter_eq_nil_iff.2 fun t ht => ?_
  rw [Bool.and_eq_true, counted, decide_eq_true_eq]
  rintro ⟨⟨-, hkind⟩, -⟩
  rcases mem_transferRows.1 ht with rfl | rfl | ⟨fee, -, feeAccountId, -, rfl⟩ <;> cases hkind

end Inserted

/-! ## The totals -/

section Totals

variable [Collation] {db db' : Db} {userId : Nat} {period : SummaryPeriod}

theorem totalOf_expenses (db : Db) (userId : Nat) (period : SummaryPeriod) (unit : String) :
    totalOf (getExpensesPerUnit db userId period) unit =
      if unitRows db unit (counted userId period .expense) = [] then none
      else some (spent (unitRows db unit (counted userId period .expense))) := by
  unfold totalOf
  cases hfind : (getExpensesPerUnit db userId period).find? fun u => u.unit = unit with
  | none =>
    rw [if_pos]
    · rfl
    · by_contra hne
      have hmem : UnitTotal.mk unit (spent (unitRows db unit (counted userId period .expense))) ∈
          getExpensesPerUnit db userId period := mem_getExpensesPerUnit.2 ⟨hne, rfl⟩
      exact List.find?_eq_none.1 hfind _ hmem (decide_eq_true rfl)
  | some u =>
    obtain rfl : u.unit = unit := by simpa using List.find?_some hfind
    obtain ⟨hne, hamount⟩ := mem_getExpensesPerUnit.1 (List.mem_of_find?_eq_some hfind)
    rw [if_neg hne, ← hamount]
    rfl

theorem categoryTotalOf_expenses (found : Sql.Found CategoryTotal) (db : Db) (userId : Nat)
    (period : SummaryPeriod) (category : Option String) (unit : String) :
    categoryTotalOf (getExpensesByCategory found db userId period) category unit =
      if categoryRows db userId period category unit = [] then none
      else some (spent (categoryRows db userId period category unit)) := by
  unfold categoryTotalOf
  cases hfind : (getExpensesByCategory found db userId period).find? fun c =>
      c.category = category ∧ c.unit = unit with
  | none =>
    rw [if_pos]
    · rfl
    · by_contra hne
      have hmem : CategoryTotal.mk category unit
          (spent (categoryRows db userId period category unit)) ∈
          getExpensesByCategory found db userId period := mem_getExpensesByCategory.2 ⟨hne, rfl⟩
      exact List.find?_eq_none.1 hfind _ hmem (decide_eq_true ⟨rfl, rfl⟩)
  | some c =>
    obtain ⟨rfl, rfl⟩ : c.category = category ∧ c.unit = unit := by
      simpa using List.find?_some hfind
    obtain ⟨hne, hamount⟩ := mem_getExpensesByCategory.1 (List.mem_of_find?_eq_some hfind)
    rw [if_neg hne, ← hamount]
    rfl

omit [Collation] in
/-- Rows added to a total. -/
theorem spent_plus {rows added rows' : List Transaction} (hperm : rows'.Perm (added ++ rows))
    {fee : Option Int} (hadded : added.map (fun t => -t.amount) = fee.toList) :
    (if rows' = [] then none else some (spent rows')) =
      plus (if rows = [] then none else some (spent rows)) fee := by
  have hspent : spent rows' = fee.toList.sum + spent rows := by
    unfold spent
    rw [(hperm.map _).sum_eq, List.map_append, List.sum_append, hadded]
  cases fee with
  | none =>
    obtain rfl : added = [] := List.map_eq_nil_iff.1 hadded
    have hnil : rows' = [] ↔ rows = [] :=
      ⟨fun h => (h ▸ hperm).nil_eq.symm, fun h => (h ▸ hperm).eq_nil⟩
    simp only [plus, hspent, hnil, Option.toList_none, List.sum_nil, zero_add]
  | some amount =>
    have hne : rows' ≠ [] := by
      rintro rfl
      have hnil := hperm.nil_eq.symm
      rw [(List.append_eq_nil_iff.1 hnil).1] at hadded
      cases hadded
    rw [if_neg hne, hspent]
    by_cases hrows : rows = []
    · rw [if_pos hrows, hrows]
      simp [plus, spent]
    · rw [if_neg hrows]
      simp [plus, add_comm]

theorem getIncomePerUnit_ascending (db : Db) (userId : Nat) (period : SummaryPeriod) :
    (getIncomePerUnit db userId period).Pairwise
      fun u u' => Collation.le u.unit u'.unit = true ∧ u.unit ≠ u'.unit := by
  have hrows : (incomeAndExpensesRows db userId period).Pairwise
      fun r r' => Collation.le r.1 r'.1 = true ∧ r.1 ≠ r'.1 :=
    (Sql.orderBy_sorted (fun a b c => Collation.le_trans a.1 b.1 c.1)
      (fun a b => Collation.le_total a.1 b.1) _).and
        (List.pairwise_map.1 (incomeAndExpensesRows_nodup db userId period))
  refine hrows.filterMap _ fun r r' h u hu u' hu' => ?_
  obtain ⟨amount, -, rfl⟩ := Option.map_eq_some_iff.1 hu
  obtain ⟨amount', -, rfl⟩ := Option.map_eq_some_iff.1 hu'
  exact h

/-- Totals in the order of their units are decided by their members. -/
theorem totals_ext {totals totals' : List UnitTotal}
    (h : totals.Pairwise fun u u' => Collation.le u.unit u'.unit = true ∧ u.unit ≠ u'.unit)
    (h' : totals'.Pairwise fun u u' => Collation.le u.unit u'.unit = true ∧ u.unit ≠ u'.unit)
    (hmem : ∀ u, u ∈ totals ↔ u ∈ totals') : totals = totals' :=
  Sql.eq_of_ascending
    (fun u u' huu' hu'u => huu'.2 (Collation.le_antisymm u.unit u'.unit huu'.1 hu'u.1)) h h' hmem

end Totals

/-! ## All of it -/

section Effect

variable {env : Env} {n userId : Nat} {db : Db} {details : TransferCreate}

theorem mem_inUnit_ids (howned : details.Owned db userId) {id : Nat}
    (hid : id ∈ details.accountIds) {owner : Nat} {unit : String} :
    id ∈ (inUnit db owner unit).map Account.id ↔
      owner = userId ∧ unitOf db.accounts.rows id = some unit := by
  obtain ⟨a, ha, rfl, huser⟩ := howned.find hid
  rw [unitOf_eq (fun _ h => h) ha, List.mem_map]
  constructor
  · rintro ⟨b, hb, hid⟩
    obtain ⟨hb, hcond⟩ := List.mem_filter.1 hb
    obtain ⟨howner, hunit⟩ := of_decide_eq_true hcond
    obtain rfl := db.accounts.eq_of_key hb ha hid
    exact ⟨howner.symm.trans huser, congrArg some hunit⟩
  · rintro ⟨howner, hunit⟩
    exact ⟨a, List.mem_filter.2 ⟨ha, decide_eq_true
      ⟨huser.trans howner.symm, Option.some.inj hunit⟩⟩, rfl⟩

/-- Between accounts of one unit, only the fee leaves it. -/
theorem moved_inUnit (howned : details.Owned db userId) (hunits : details.OneUnit db)
    (hequal : details.amountSent.units = details.amountReceived.units) (owner : Nat)
    (unit : String) :
    ((inUnit db owner unit).map fun a => details.moved a.id).sum =
      -if owner = userId then (details.feeIn db unit).getD 0 else 0 := by
  have hnodup : ((inUnit db owner unit).map Account.id).Nodup :=
    db.accounts.nodup_keys.sublist (List.filter_sublist.map _)
  obtain ⟨a, ha, b, hb, hfrom, hto, hunit⟩ := hunits
  have hboth : details.fromAccountId.val ∈ (inUnit db owner unit).map Account.id ↔
      details.toAccountId.val ∈ (inUnit db owner unit).map Account.id := by
    rw [mem_inUnit_ids howned (from_mem_accountIds details),
      mem_inUnit_ids howned (to_mem_accountIds details), ← hfrom, ← hto,
      unitOf_eq (fun _ h => h) ha, unitOf_eq (fun _ h => h) hb, hunit]
  have hfee : ((inUnit db owner unit).map fun a => details.feeOn a.id).sum =
      if owner = userId then (details.feeIn db unit).getD 0 else 0 := by
    unfold TransferCreate.feeOn TransferCreate.feeIn
    cases details.fee with
    | none => simp
    | some fee =>
      cases hfeeAccount : details.feeAccountId with
      | none => simp
      | some feeAccountId =>
        simp only
        rw [Sql.sum_at hnodup, ite_cond_congr
          (propext (mem_inUnit_ids howned (fee_mem_accountIds hfeeAccount)))]
        by_cases howner : owner = userId <;>
          by_cases hunit : unitOf db.accounts.rows feeAccountId.val = some unit <;>
            simp [howner, hunit]
  have hsplit : ((inUnit db owner unit).map fun a => details.moved a.id).sum =
      ((inUnit db owner unit).map fun a =>
          if a.id = details.fromAccountId.val then -details.amountSent.units else 0).sum +
        ((inUnit db owner unit).map fun a =>
          if a.id = details.toAccountId.val then details.amountReceived.units else 0).sum +
        ((inUnit db owner unit).map fun a => -details.feeOn a.id).sum := by
    rw [← List.sum_map_add, ← List.sum_map_add]
    rfl
  have hneg : ((inUnit db owner unit).map fun a => -details.feeOn a.id).sum =
      -((inUnit db owner unit).map fun a => details.feeOn a.id).sum := by
    rw [List.sum_neg, List.map_map]
    rfl
  rw [hsplit, hneg, hfee, Sql.sum_at hnodup, Sql.sum_at hnodup, hequal]
  by_cases hin : details.toAccountId.val ∈ (inUnit db owner unit).map Account.id
  · rw [if_pos (hboth.2 hin), if_pos hin]
    omega
  · rw [if_neg (hboth.not.2 hin), if_neg hin]
    omega

variable [Collation]

theorem listAccounts_insertAll (hfresh : ∀ t ∈ transferRows env n userId details,
      ∀ r ∈ db.transactions, r.id ≠ t.id) (owner : Nat) :
    listAccountsWithBalances (insertAll (transferRows env n userId details) db) owner =
      (listAccountsWithBalances db owner).map fun r =>
        { r with balance := r.balance + details.moved r.account.id } := by
  unfold listAccountsWithBalances
  rw [accountsWithBalances_eq, accountsWithBalances_eq]
  rw [Sql.orderBy_map (s := fun r r' : AccountWithBalance =>
    Collation.le (Collation.fold r.account.name) (Collation.fold r'.account.name))
    fun _ _ => rfl, List.map_map]
  refine congrArg (Sql.orderBy _) (List.map_congr_left fun a _ => ?_)
  rw [balance_insertAll (transferRows_nodup _ _ _ _) hfresh, transferRows_moved]
  rfl

omit [Collation] in
/-- A row of another category adds nothing to this one. -/
theorem transferRows_category (env : Env) (n owner : Nat) (period : SummaryPeriod) (category : Option String)
    (unit : String) :
    (((transferRows env n userId details).filter fun t => counted owner period .expense t &&
        unitOf db.accounts.rows t.accountId = some unit).filter fun t =>
          t.category = category).map (fun t => -t.amount) =
      (if category = details.feeCategory then details.feeWithin db userId owner period unit
        else none).toList := by
  have hrows := transferRows_expense env n userId db details owner period unit
  generalize ((transferRows env n userId details).filter fun t => counted owner period .expense t &&
    unitOf db.accounts.rows t.accountId = some unit) = rows at hrows ⊢
  cases hfee : details.feeWithin db userId owner period unit with
  | none =>
    rw [hfee] at hrows
    rw [List.map_eq_nil_iff.1 hrows]
    split <;> rfl
  | some amount =>
    rw [hfee] at hrows
    obtain ⟨t, rfl, heq⟩ := List.map_eq_singleton_iff.1 hrows
    obtain ⟨hcategory, hamount⟩ := Prod.mk.inj heq
    by_cases h : category = details.feeCategory
    · rw [if_pos h, List.filter_singleton, decide_eq_true (hcategory.trans h.symm)]
      exact congrArg (fun x => [x]) hamount
    · have hne : t.category ≠ category := fun hc => h (hc.symm.trans hcategory)
      rw [if_neg h, List.filter_singleton, decide_eq_false hne]
      rfl

theorem TransferEffect.of_insert (hfresh : ∀ t ∈ transferRows env n userId details,
      ∀ r ∈ db.transactions, r.id ≠ t.id) (howned : details.Owned db userId)
    (hequal : details.OneUnit db → details.amountSent.units = details.amountReceived.units) :
    TransferEffect userId details (transferRows env n userId details) db
      (insertAll (transferRows env n userId details) db) := by
  have hnodup := transferRows_nodup env n userId details
  have hrows := fun unit fits => unitRows_insertAll hnodup hfresh unit fits
  have htotals : ∀ owner, getBalancesPerUnit (insertAll (transferRows env n userId details) db)
      owner = (getBalancesPerUnit db owner).map fun u =>
        { u with amount := u.amount +
            ((inUnit db owner u.unit).map fun a => details.moved a.id).sum } := by
    intro owner
    refine totals_ext (getBalancesPerUnit_ascending _ owner)
      (List.pairwise_map.2 (getBalancesPerUnit_ascending db owner)) fun u => ?_
    have hsum : ((inUnit db owner u.unit).map fun a =>
        balance (insertAll (transferRows env n userId details) db) a.id).sum =
        ((inUnit db owner u.unit).map fun a => balance db a.id).sum +
          ((inUnit db owner u.unit).map fun a => details.moved a.id).sum := by
      rw [← List.sum_map_add]
      refine congrArg List.sum (List.map_congr_left fun a _ => ?_)
      rw [balance_insertAll hnodup hfresh, transferRows_moved]
    rw [mem_getBalancesPerUnit, List.mem_map]
    show inUnit db owner u.unit ≠ [] ∧ _ ↔ _
    constructor
    · rintro ⟨hne, hamount⟩
      obtain ⟨unit, amount⟩ := u
      refine ⟨⟨unit, ((inUnit db owner unit).map fun a => balance db a.id).sum⟩,
        mem_getBalancesPerUnit.2 ⟨hne, rfl⟩, ?_⟩
      exact congrArg (UnitTotal.mk unit) (hsum.symm.trans hamount.symm)
    · rintro ⟨v, hv, rfl⟩
      obtain ⟨hne, hamount⟩ := mem_getBalancesPerUnit.1 hv
      refine ⟨hne, ?_⟩
      show v.amount + _ = _
      rw [hamount]
      exact hsum.symm
  exact
    { accounts := rfl
      newRows := insertAll_perm hnodup hfresh
      balances := listAccounts_insertAll hfresh
      income := fun owner period => by
        refine totals_ext (getIncomePerUnit_ascending _ owner period)
          (getIncomePerUnit_ascending db owner period) fun u => ?_
        have hperm := hrows u.unit (counted owner period .income)
        rw [transferRows_income, List.nil_append] at hperm
        rw [mem_getIncomePerUnit, mem_getIncomePerUnit, (hperm.map _).sum_eq, Ne, Ne,
          ← List.length_eq_zero_iff, hperm.length_eq, List.length_eq_zero_iff]
      expenses := fun owner period unit => by
        rw [totalOf_expenses, totalOf_expenses]
        refine spent_plus (hrows unit (counted owner period .expense)) ?_
        have hfee := congrArg (List.map Prod.snd)
          (transferRows_expense env n userId db details owner period unit)
        rw [List.map_map] at hfee
        refine Eq.trans hfee ?_
        cases details.feeWithin db userId owner period unit <;> rfl
      byCategory := fun found found' owner period category unit => by
        rw [categoryTotalOf_expenses, categoryTotalOf_expenses]
        refine spent_plus ?_
          (transferRows_category env n owner period category unit)
        unfold categoryRows
        rw [← List.filter_append]
        exact (hrows unit (counted owner period .expense)).filter _
      totals := htotals
      oneUnit := fun hunits owner => by
        rw [htotals owner]
        refine List.map_congr_left fun u _ => ?_
        rw [moved_inUnit howned hunits (hequal hunits), Int.sub_eq_add_neg] }

end Effect

/-- The errors in their order, and what a transfer that is recorded does. -/
structure TransferOutcome [Collation] (env : Env) (n userId : Nat) (details : TransferCreate)
    (db : Db) (result : Except Failure (List Transaction) × Db) : Prop where
  sameAccount : result.1 = .error (.app TransferSameAccountError) ↔
    details.fromAccountId = details.toAccountId
  notFound : result.1 = .error (.app AccountNotFoundError) ↔
    details.fromAccountId ≠ details.toAccountId ∧ ¬ details.Owned db userId
  amountsDiffer : result.1 = .error (.app TransferAmountsDifferError) ↔
    details.fromAccountId ≠ details.toAccountId ∧ details.Owned db userId ∧ details.OneUnit db ∧
      details.amountSent.units ≠ details.amountReceived.units
  recorded : details.fromAccountId ≠ details.toAccountId → details.Owned db userId →
    (details.OneUnit db → details.amountSent.units = details.amountReceived.units) →
    result.1 = .ok (transferRows env n userId details) ∧
      TransferEffect userId details (transferRows env n userId details) db result.2
  refused : ∀ e, result.1 = .error e → result.2 = db

section Exact

variable [Collation] {env : Env}

omit [Collation] in
theorem LedgerOk.fresh {w : LedgerWorld} (h : LedgerOk env w) {n : Nat} (hn : w.Unanswered n)
    (userId : Nat) (details : TransferCreate) :
    ∀ t ∈ transferRows env n userId details, ∀ r ∈ w.db.transactions, r.id ≠ t.id := by
  intro t ht r hr
  obtain ⟨i, hi⟩ := transferRows_ids env n userId details t ht
  rw [hi]
  exact h.transaction_ne hn hr i

omit [Collation] in
theorem fitsNumeric_neg (amount : Int) : fitsNumeric (-amount) = fitsNumeric amount := by
  rw [fitsNumeric, fitsNumeric, Int.natAbs_neg]

/-- No constraint refuses the rows of a transfer between accounts of the user. -/
theorem transfer_whole {n userId : Nat} {db : Db} {details : TransferCreate}
    (hids : env.IdsLeft n) (hfits : details.Fits)
    (hfresh : ∀ t ∈ transferRows env n userId details, ∀ r ∈ db.transactions, r.id ≠ t.id)
    (howned : details.Owned db userId) :
    (Stmt.insertTransactions (transferRows env n userId details)).whole db =
      .ok (insertAll (transferRows env n userId details) db) := by
  obtain ⟨hsent, hreceived, hfee⟩ := hfits
  refine insert_whole (fun t ht => ?_) (fun t ht => ?_) hfresh fun t ht => ?_
  · rcases mem_transferRows.1 ht with rfl | rfl | ⟨fee, -, feeAccountId, -, rfl⟩
    · exact hids 0 (by omega)
    · exact hids 1 (by omega)
    · exact hids 2 (by omega)
  · rcases mem_transferRows.1 ht with rfl | rfl | ⟨fee, hmem, feeAccountId, -, rfl⟩
    · exact (fitsNumeric_neg _).trans hsent
    · exact hreceived
    · exact (fitsNumeric_neg _).trans (hfee fee hmem)
  · obtain ⟨a, ha, hid, huser⟩ := howned.find (transferRows_account ht)
    refine accountExists_iff.2 ⟨a, ha, hid, huser.trans ?_⟩
    exact (transferRows_group env n userId details t ht).2.symm

/-- **Recording a transfer**, in every state of every interleaving: which error it raises, and
otherwise what it does to every list and total.  The amounts fit the column and the sequence of ids
has not run out. -/
theorem transfer_exact {s : LedgerSystem}
    (h : Run engine (handle env) anyStep { world := initialWorld } s) (now : Int) (userId : Nat)
    (details : TransferCreate) (hfits : details.Fits) (hids : env.IdsLeft s.world.started) :
    TransferOutcome env s.world.started userId details s.world.db
      ((createTransfer env s.world.started userId details).alone engine now s.world.db
        s.world.db) := by
  have hgood : Good (discipline env {}) engine s := ledger_run (initial_ledger env) rfl h
  have hok : LedgerOk env s.world := hgood.inv.1
  have hunanswered : s.world.Unanswered s.world.started :=
    fun e he heq => absurd (hgood.logged e he) (by omega)
  have hfresh := hok.fresh hunanswered userId details
  generalize s.world.started = n at *
  generalize s.world.db = db at *
  rw [alone_transfer]
  by_cases hsame : details.fromAccountId = details.toAccountId
  · rw [if_pos (congrArg RowId.val hsame)]
    exact
      { sameAccount := iff_of_true rfl hsame
        notFound := iff_of_false (by simp [TransferSameAccountError, AccountNotFoundError])
          fun h => h.1 hsame
        amountsDiffer := iff_of_false
          (by simp [TransferSameAccountError, TransferAmountsDifferError]) fun h => h.1 hsame
        recorded := fun hne => absurd hsame hne
        refused := fun _ _ => rfl }
  · have hval : details.fromAccountId.val ≠ details.toAccountId.val :=
      fun heq => hsame (RowId.eq_of_val heq)
    rw [if_neg hval]
    by_cases howned : details.Owned db userId
    · rw [if_neg (not_not_intro (getAccounts_length_iff.2 howned))]
      by_cases hdiffer : details.OneUnit db ∧
          details.amountSent.units ≠ details.amountReceived.units
      · rw [if_pos ⟨(sameUnit_iff howned).2 hdiffer.1, hdiffer.2⟩]
        exact
          { sameAccount := iff_of_false
              (by simp [TransferSameAccountError, TransferAmountsDifferError]) hsame
            notFound := iff_of_false
              (by simp [AccountNotFoundError, TransferAmountsDifferError]) fun h => h.2 howned
            amountsDiffer := iff_of_true rfl ⟨hsame, howned, hdiffer⟩
            recorded := fun _ _ hequal => absurd (hequal hdiffer.1) hdiffer.2
            refused := fun _ _ => rfl }
      · rw [if_neg fun h => hdiffer ⟨(sameUnit_iff howned).1 h.1, h.2⟩,
          transfer_whole hids hfits hfresh howned]
        exact
          { sameAccount := iff_of_false (by simp) hsame
            notFound := iff_of_false (by simp) fun h => h.2 howned
            amountsDiffer := iff_of_false (by simp) fun h => hdiffer h.2.2
            recorded := fun _ _ hequal => ⟨rfl, .of_insert hfresh howned hequal⟩
            refused := fun _ h => by cases h }
    · rw [if_pos (mt getAccounts_length_iff.1 howned)]
      exact
        { sameAccount := iff_of_false
            (by simp [TransferSameAccountError, AccountNotFoundError]) hsame
          notFound := iff_of_true rfl ⟨hsame, howned⟩
          amountsDiffer := iff_of_false
            (by simp [AccountNotFoundError, TransferAmountsDifferError]) fun h => howned h.2.1
          recorded := fun _ h => absurd h howned
          refused := fun _ _ => rfl }

end Exact

/-- 250 leave account 1, 270 arrive on account 2, and account 2 pays 2 for it. -/
def exchange : TransferCreate where
  fromAccountId := .one
  toAccountId := .two
  amountSent := ⟨250 * 10 ^ 18, by decide⟩
  amountReceived := ⟨270 * 10 ^ 18, by decide⟩
  fee := some ⟨2 * 10 ^ 18, by decide⟩
  feeAccountId := some .two
  feeCategory := some "bank"
  occurredAt := 5
  fee_and_account := rfl
  category_needs_fee h := by cases h

theorem exchange_exact : ∃ (_ : Collation) (s : LedgerSystem),
    runList engine (handle .counting) { world := initialWorld } twoAccounts = some s ∧
    ((createTransfer .counting s.world.started 1 exchange).alone engine 0 s.world.db
      s.world.db).1.toOption.map List.length = some 3 ∧
    TransferOutcome .counting s.world.started 1 exchange s.world.db
      ((createTransfer .counting s.world.started 1 exchange).alone engine 0 s.world.db
        s.world.db) := by
  let _ : Collation := Collation.codePoints
  have hrun : (runList engine (handle .counting) { world := initialWorld } twoAccounts).any
      (fun s => decide
        (s.world.started = 2 ∧ ((createTransfer .counting s.world.started 1 exchange).alone engine 0
          s.world.db s.world.db).1.toOption.map List.length = some 3)) = true := by
    decide +kernel
  obtain ⟨s, hlist, hs, hp⟩ := exists_run hrun
  obtain ⟨hstarted, hrecorded⟩ := of_decide_eq_true hp
  have hids : Env.counting.IdsLeft s.world.started := by
    rw [hstarted]
    unfold Env.IdsLeft
    decide
  exact ⟨Collation.codePoints, s, hlist, hrecorded,
    transfer_exact hs 0 1 exchange ⟨by decide, by decide, by decide⟩ hids⟩

end Tradinghub.Ledger
