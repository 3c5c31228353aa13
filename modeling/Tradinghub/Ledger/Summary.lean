import Tradinghub.Ledger.Balances
import Tradinghub.Ledger.SerialSigns
import Tradinghub.Ledger.Units
import Mathlib.Algebra.Order.BigOperators.Group.List
import Mathlib.Algebra.Order.Group.Int

/-!
# The summary reconciles

Income, expenses, the categories and the totals per unit are sums over the same rows: a user's
transactions on the accounts of a unit (`unitRows`).  The joins yield each of them once, because a
transaction has exactly one account; so the four lists agree with each other and with the pages of
the transaction list (`summary_reconciles`).  That the amounts are positive rests on the sign
convention, which requests served one at a time cannot break (`serial_signed`).
-/

namespace Tradinghub.Ledger

open ReadCommitted Store

/-! ## The rows of a unit -/

/-- The transactions on accounts of the unit, those that fit. -/
def unitRows (db : Db) (unit : String) (fits : Transaction → Bool) : List Transaction :=
  db.transactions.rows.filter fun t =>
    fits t && unitOf db.accounts.rows t.accountId = some unit

def ownedBy (userId : Nat) (t : Transaction) : Bool := t.userId = userId

/-- In the period, of the kind. -/
def counted (userId : Nat) (period : SummaryPeriod) (kind : TransactionKind) (t : Transaction) :
    Bool :=
  ownedAndWithinPeriod userId period t ∧ t.kind = kind

section Rows

variable {db : Db} {userId : Nat} {unit : String} {fits : Transaction → Bool}

theorem mem_unitRows {t : Transaction} :
    t ∈ unitRows db unit fits ↔
      t ∈ db.transactions ∧ fits t = true ∧ unitOf db.accounts.rows t.accountId = some unit := by
  rw [unitRows, List.mem_filter, Bool.and_eq_true, decide_eq_true_eq]
  rfl

theorem unitRows_filter (p : Transaction → Bool) :
    (unitRows db unit fits).filter p = unitRows db unit fun t => fits t && p t := by
  unfold unitRows
  rw [List.filter_filter]
  refine List.filter_congr fun t _ => ?_
  rw [Bool.and_comm, Bool.and_right_comm]

theorem unitOf_eq_some {accountId : Nat} :
    unitOf db.accounts.rows accountId = some unit ↔
      ∃ a ∈ db.accounts, a.id = accountId ∧ a.unit = unit := by
  constructor
  · intro h
    obtain ⟨a, hfind, hunit⟩ := Option.map_eq_some_iff.1 h
    exact ⟨a, List.mem_of_find?_eq_some hfind, by simpa using List.find?_some hfind, hunit⟩
  · rintro ⟨a, ha, rfl, rfl⟩
    exact unitOf_eq (fun _ hb => hb) ha

/-- A transaction is on one account, so the join has each of them once. -/
theorem transactionsWithAccounts_rows (db : Db) (conditions p : Transaction → Bool)
    (unit : String) :
    ((transactionsWithAccounts db conditions).filter fun r => p r.1 && r.2.unit = unit).map
        Prod.fst = unitRows db unit fun t => conditions t && p t := by
  unfold transactionsWithAccounts
  have hone : ∀ t ∈ db.transactions.rows,
      (db.accounts.rows.filter fun a => a.id = t.accountId).length ≤ 1 :=
    fun t _ => Sql.filter_key_length db.accounts.nodup_keys t.accountId
  rw [List.filter_filter, Sql.join_at_most_one hone]
  refine List.filter_congr fun t _ => ?_
  rw [Bool.eq_iff_iff, List.any_eq_true]
  simp only [Bool.and_eq_true, decide_eq_true_eq, unitOf_eq_some]
  constructor
  · rintro ⟨a, ha, hid, ⟨hp, hunit⟩, hfits⟩
    exact ⟨⟨hfits, hp⟩, a, ha, hid, hunit⟩
  · rintro ⟨⟨hfits, hp⟩, a, ha, hid, hunit⟩
    exact ⟨a, ha, hid, ⟨hp, hunit⟩, hfits⟩

end Rows

/-! ## The lists -/

/-- What the rows took out of the accounts. -/
def spent (rows : List Transaction) : Int := (rows.map fun t => -t.amount).sum

theorem spent_eq (rows : List Transaction) : spent rows = -(rows.map Transaction.amount).sum := by
  rw [List.sum_neg, List.map_map]
  rfl

section Lists

variable [Collation] {db : Db} {userId : Nat} {period : SummaryPeriod}
variable {found : Sql.Found CategoryTotal}

omit [Collation] in
theorem sumOfKind_unit {kind : TransactionKind} {unit : String} {x : Int} :
    sumOfKind kind ((transactionsWithAccounts db (ownedAndWithinPeriod userId period)).filter
        fun r => r.2.unit = unit) = some x ↔
      unitRows db unit (counted userId period kind) ≠ [] ∧
        ((unitRows db unit (counted userId period kind)).map Transaction.amount).sum = x := by
  have hrows := transactionsWithAccounts_rows db (ownedAndWithinPeriod userId period)
    (fun t => t.kind = kind) unit
  have hcounted : (fun t => ownedAndWithinPeriod userId period t && decide (t.kind = kind)) =
      counted userId period kind := by
    funext t
    rw [Bool.eq_iff_iff, Bool.and_eq_true, decide_eq_true_eq, counted, decide_eq_true_eq]
  rw [hcounted] at hrows
  unfold sumOfKind
  rw [List.filter_filter, ← hrows, ← Sql.sum_of_values, List.map_map]
  rfl

theorem mem_incomeAndExpensesRows {unit : String} {income expenses : Option Int} :
    (unit, income, expenses) ∈ incomeAndExpensesRows db userId period ↔
      (∃ x ∈ transactionsWithAccounts db (ownedAndWithinPeriod userId period), x.2.unit = unit) ∧
      income = sumOfKind .income
        ((transactionsWithAccounts db (ownedAndWithinPeriod userId period)).filter
          fun x => x.2.unit = unit) ∧
      expenses = (sumOfKind .expense
        ((transactionsWithAccounts db (ownedAndWithinPeriod userId period)).filter
          fun x => x.2.unit = unit)).map fun amount => -amount := by
  unfold incomeAndExpensesRows
  rw [Sql.mem_orderBy, List.mem_map]
  constructor
  · rintro ⟨g, hg, heq⟩
    obtain ⟨hkey, hrows⟩ := Sql.mem_groupBy.1 hg
    rw [hrows] at heq
    cases heq
    exact ⟨hkey, rfl, rfl⟩
  · rintro ⟨hkey, rfl, rfl⟩
    exact ⟨_, Sql.group_mem hkey, rfl⟩

omit [Collation] in
/-- A unit that has a row of some kind has a group. -/
theorem unit_of_unitRows {unit : String} {kind : TransactionKind}
    (hne : unitRows db unit (counted userId period kind) ≠ []) :
    ∃ x ∈ transactionsWithAccounts db (ownedAndWithinPeriod userId period), x.2.unit = unit := by
  obtain ⟨t, ht⟩ := List.exists_mem_of_ne_nil _ hne
  obtain ⟨ht, hcounted, hunit⟩ := mem_unitRows.1 ht
  obtain ⟨a, ha, hid, hunit⟩ := unitOf_eq_some.1 hunit
  refine ⟨(t, a), List.mem_filter.2 ⟨Sql.mem_join.2 ⟨ht, ha, decide_eq_true hid⟩, ?_⟩, hunit⟩
  exact (of_decide_eq_true hcounted).1

theorem mem_getIncomePerUnit {u : UnitTotal} :
    u ∈ getIncomePerUnit db userId period ↔
      unitRows db u.unit (counted userId period .income) ≠ [] ∧
      u.amount =
        ((unitRows db u.unit (counted userId period .income)).map Transaction.amount).sum := by
  unfold getIncomePerUnit
  rw [List.mem_filterMap]
  constructor
  · rintro ⟨⟨unit, income, expenses⟩, hr, heq⟩
    obtain ⟨amount, hamount, rfl⟩ := Option.map_eq_some_iff.1 heq
    obtain ⟨-, hincome, -⟩ := mem_incomeAndExpensesRows.1 hr
    obtain ⟨hne, hsum⟩ := sumOfKind_unit.1 (hincome.symm.trans hamount)
    exact ⟨hne, hsum.symm⟩
  · rintro ⟨hne, hamount⟩
    have hsum := sumOfKind_unit.2 ⟨hne, hamount.symm⟩
    exact ⟨(u.unit, _, _),
      mem_incomeAndExpensesRows.2 ⟨unit_of_unitRows hne, hsum.symm, rfl⟩, rfl⟩

theorem mem_getExpensesPerUnit {u : UnitTotal} :
    u ∈ getExpensesPerUnit db userId period ↔
      unitRows db u.unit (counted userId period .expense) ≠ [] ∧
      u.amount = spent (unitRows db u.unit (counted userId period .expense)) := by
  unfold getExpensesPerUnit
  rw [List.mem_filterMap]
  constructor
  · rintro ⟨⟨unit, income, expenses⟩, hr, heq⟩
    obtain ⟨amount, hamount, rfl⟩ := Option.map_eq_some_iff.1 heq
    obtain ⟨-, -, hexpenses⟩ := mem_incomeAndExpensesRows.1 hr
    obtain ⟨spent, hspent, rfl⟩ := Option.map_eq_some_iff.1 (hexpenses.symm.trans hamount)
    obtain ⟨hne, hsum⟩ := sumOfKind_unit.1 hspent
    refine ⟨hne, ?_⟩
    rw [spent_eq, hsum]
  · rintro ⟨hne, hamount⟩
    have hsum := sumOfKind_unit.2 ⟨hne, rfl⟩
    refine ⟨(u.unit, _, _), mem_incomeAndExpensesRows.2 ⟨unit_of_unitRows hne, rfl, rfl⟩, ?_⟩
    simp only [hsum, Option.map_some, ← spent_eq, ← hamount]

/-- What was spent on the category, in the unit. -/
def categoryRows (db : Db) (userId : Nat) (period : SummaryPeriod) (category : Option String)
    (unit : String) : List Transaction :=
  (unitRows db unit (counted userId period .expense)).filter fun t => t.category = category

theorem mem_getExpensesByCategory {c : CategoryTotal} :
    c ∈ getExpensesByCategory found db userId period ↔
      categoryRows db userId period c.category c.unit ≠ [] ∧
      c.amount = spent (categoryRows db userId period c.category c.unit) := by
  let joined : List (Transaction × Account) :=
    transactionsWithAccounts db fun t => ownedAndWithinPeriod userId period t ∧ t.kind = .expense
  have hgroup : ∀ category unit, (joined.filter fun r => (r.1.category, r.2.unit) =
      (category, unit)).map Prod.fst = categoryRows db userId period category unit := by
    intro category unit
    unfold categoryRows
    rw [unitRows_filter, ← transactionsWithAccounts_rows]
    refine congrArg (List.map Prod.fst) (List.filter_congr fun r _ => ?_)
    rw [Bool.eq_iff_iff, Bool.and_eq_true, decide_eq_true_eq, decide_eq_true_eq, decide_eq_true_eq,
      Prod.mk.injEq]
  have hsum : ∀ category unit, categoryRows db userId period category unit ≠ [] →
      -(Sql.sum ((joined.filter fun r => (r.1.category, r.2.unit) = (category, unit)).map
        fun r => some r.1.amount)).getD 0 =
      spent (categoryRows db userId period category unit) := by
    intro category unit hne
    rw [Sql.sum_of_values.2 ⟨?_, rfl⟩, spent_eq, ← hgroup, List.map_map]
    · rfl
    · rw [← hgroup, Ne, List.map_eq_nil_iff] at hne
      exact hne
  have hkeys : ∀ category unit, (∃ r ∈ joined, (r.1.category, r.2.unit) = (category, unit)) ↔
      categoryRows db userId period category unit ≠ [] := by
    intro category unit
    rw [← hgroup, Ne, List.map_eq_nil_iff, List.filter_eq_nil_iff]
    push Not
    simp only [decide_eq_true_eq]
  unfold getExpensesByCategory expenseGroups
  rw [Sql.mem_orderBy, (found.perm _).mem_iff, List.mem_map]
  constructor
  · rintro ⟨⟨⟨category, unit⟩, rows⟩, hg, rfl⟩
    obtain ⟨hkey, hrows⟩ := Sql.mem_groupBy.1 hg
    have hne := (hkeys category unit).1 hkey
    rw [hrows]
    exact ⟨hne, hsum category unit hne⟩
  · rintro ⟨hne, hamount⟩
    refine ⟨_, Sql.group_mem ((hkeys c.category c.unit).2 hne), ?_⟩
    refine congrArg (CategoryTotal.mk c.category c.unit) (Eq.trans ?_ hamount.symm)
    exact hsum c.category c.unit hne

theorem incomeAndExpensesRows_nodup (db : Db) (userId : Nat) (period : SummaryPeriod) :
    ((incomeAndExpensesRows db userId period).map Prod.fst).Nodup := by
  unfold incomeAndExpensesRows
  rw [((Sql.orderBy_perm _ _).map Prod.fst).nodup_iff, List.map_map]
  exact Sql.nodup_groupBy_keys _ _

/-- A column of the rows has each unit at most once. -/
theorem column_nodup (column : String × Option Int × Option Int → Option Int) :
    (((incomeAndExpensesRows db userId period).filterMap fun r =>
      (column r).map fun amount => UnitTotal.mk r.1 amount).map UnitTotal.unit).Nodup := by
  refine List.pairwise_map.2 ((List.pairwise_map.1 (incomeAndExpensesRows_nodup db userId
    period)).filterMap _ fun r r' hne u hu u' hu' => ?_)
  obtain ⟨amount, -, rfl⟩ := Option.map_eq_some_iff.1 hu
  obtain ⟨amount', -, rfl⟩ := Option.map_eq_some_iff.1 hu'
  exact hne

theorem getExpensesByCategory_nodup (found : Sql.Found CategoryTotal) (db : Db) (userId : Nat)
    (period : SummaryPeriod) :
    ((getExpensesByCategory found db userId period).map fun c => (c.category, c.unit)).Nodup := by
  have hperm := ((Sql.orderBy_perm (fun c c' => unitThenLargest c.sortKey c'.sortKey) _).trans
    (found.perm (expenseGroups db userId period))).map fun c : CategoryTotal => (c.category, c.unit)
  unfold getExpensesByCategory
  rw [hperm.nodup_iff]
  unfold expenseGroups
  rw [List.map_map]
  exact Sql.nodup_groupBy_keys _ _

end Lists

/-! ## Reconciliation -/

/-- A unit that is missing counts as zero. -/
def amountOf (totals : List UnitTotal) (unit : String) : Int :=
  ((totals.find? fun u => u.unit = unit).map UnitTotal.amount).getD 0

/-- The list of an account, of the kind and in the period. -/
def ofKindWithin (period : SummaryPeriod) (kind : TransactionKind) (accountId : RowId)
    (limit : Nat) (limit_pos : 1 ≤ limit) (limit_le : limit ≤ 200) : TransactionFilters :=
  { onAccount accountId limit limit_pos limit_le with
    kind := some kind
    occurredFrom := some period.occurredFrom
    occurredTo := some period.occurredTo }

/-- The pages of the lists of the unit's accounts come to the amount. -/
def Listed (db : Db) (userId : Nat) (period : SummaryPeriod) (kind : TransactionKind)
    (unit : String) (amount : Int) : Prop :=
  ∃ accountIds : List RowId, accountIds.map RowId.val = (inUnit db userId unit).map Account.id ∧
    ∀ (limit : Nat) (limit_pos : 1 ≤ limit) (limit_le : limit ≤ 200),
      (accountIds.map fun accountId => ((allPages db userId
        (ofKindWithin period kind accountId limit limit_pos limit_le)).map
          Transaction.amount).sum).sum = amount

structure Reconciles (db : Db) (userId : Nat) (period : SummaryPeriod)
    (summary : SummaryResponse) : Prop where
  categories : ∀ u ∈ summary.expenses, u.amount =
    ((summary.byCategory.filter fun c => c.unit = u.unit).map CategoryTotal.amount).sum
  sameUnits : ∀ unit, unit ∈ summary.expenses.map UnitTotal.unit ↔
    unit ∈ summary.byCategory.map CategoryTotal.unit
  onceEach : (summary.byCategory.map fun c => (c.category, c.unit)).Nodup
  unitsOnce : (summary.income.map UnitTotal.unit).Nodup ∧
    (summary.expenses.map UnitTotal.unit).Nodup
  incomeListed : ∀ unit, Listed db userId period .income unit (amountOf summary.income unit)
  expensesListed : ∀ unit, Listed db userId period .expense unit (-amountOf summary.expenses unit)
  positive : (∀ u ∈ summary.income, 0 < u.amount) ∧ (∀ u ∈ summary.expenses, 0 < u.amount) ∧
    ∀ c ∈ summary.byCategory, 0 < c.amount
  /-- a period with all of the user's transactions in it explains the totals -/
  whole : (∀ t ∈ db.transactions, t.userId = userId → ownedAndWithinPeriod userId period t = true) →
    ∀ unit, amountOf summary.totals unit =
      amountOf summary.income unit - amountOf summary.expenses unit +
        ((unitRows db unit fun t => t.userId = userId ∧ t.kind = .transfer).map
          Transaction.amount).sum

section Reconciliation

theorem amountOf_eq {α : Type} {totals : List UnitTotal} (rows : String → List α)
    (amount : List α → Int) (hnil : amount [] = 0)
    (hmem : ∀ u, u ∈ totals ↔ rows u.unit ≠ [] ∧ u.amount = amount (rows u.unit))
    (unit : String) : amountOf totals unit = amount (rows unit) := by
  unfold amountOf
  cases hfind : totals.find? fun u => u.unit = unit with
  | none =>
    have hnone : rows unit = [] := by
      by_contra hne
      have hnot := List.find?_eq_none.1 hfind ⟨unit, amount (rows unit)⟩ ((hmem _).2 ⟨hne, rfl⟩)
      exact hnot (decide_eq_true rfl)
    rw [hnone, hnil]
    rfl
  | some u =>
    have hunit : u.unit = unit := by simpa using List.find?_some hfind
    rw [← hunit]
    exact ((hmem u).1 (List.mem_of_find?_eq_some hfind)).2

variable {db : Db} {userId : Nat} {unit : String} {period : SummaryPeriod}

/-- Summed account by account. -/
theorem sum_inUnit (hfk : ForeignKey db) {fits : Transaction → Bool}
    (howned : ∀ t, fits t = true → t.userId = userId) :
    ((inUnit db userId unit).map fun a => ((db.transactions.rows.filter fun t =>
      fits t && t.accountId = a.id).map Transaction.amount).sum).sum =
      ((unitRows db unit fits).map Transaction.amount).sum := by
  have hnodup : ((inUnit db userId unit).map Account.id).Nodup :=
    db.accounts.nodup_keys.sublist (List.filter_sublist.map _)
  have hkeys : ∀ t ∈ unitRows db unit fits, t.accountId ∈ (inUnit db userId unit).map Account.id := by
    intro t ht
    obtain ⟨ht, hfits, hunit⟩ := mem_unitRows.1 ht
    obtain ⟨a, ha, hid, hunit⟩ := unitOf_eq_some.1 hunit
    have huser : a.userId = userId := (hfk.owner ht ha hid).trans (howned t hfits)
    exact List.mem_map.2 ⟨a, List.mem_filter.2 ⟨ha, decide_eq_true ⟨huser, hunit⟩⟩, hid⟩
  rw [← Sql.sum_by_key Transaction.accountId Transaction.amount hnodup _ hkeys, List.map_map]
  refine congrArg List.sum (List.map_congr_left fun a ha => ?_)
  obtain ⟨ha, hcond⟩ := List.mem_filter.1 ha
  obtain ⟨-, hunit⟩ := of_decide_eq_true hcond
  have hrows : (unitRows db unit fits).filter (fun t => t.accountId = a.id) =
      db.transactions.rows.filter fun t => fits t && t.accountId = a.id := by
    rw [unitRows_filter]
    refine List.filter_congr fun t _ => ?_
    rw [Bool.and_eq_left_iff_imp, Bool.and_eq_true, decide_eq_true_eq, decide_eq_true_eq]
    rintro ⟨-, hid⟩
    rw [hid, unitOf_eq (fun _ hb => hb) ha, hunit]
  show _ = (((unitRows db unit fits).filter fun t => t.accountId = a.id).map
    Transaction.amount).sum
  rw [hrows]

variable [Collation]

theorem amountOf_income (unit : String) :
    amountOf (getIncomePerUnit db userId period) unit =
      ((unitRows db unit (counted userId period .income)).map Transaction.amount).sum :=
  amountOf_eq (fun unit => unitRows db unit (counted userId period .income))
    (fun rows => (rows.map Transaction.amount).sum) rfl (fun _ => mem_getIncomePerUnit) unit

theorem amountOf_expenses (unit : String) :
    amountOf (getExpensesPerUnit db userId period) unit =
      spent (unitRows db unit (counted userId period .expense)) :=
  amountOf_eq (fun unit => unitRows db unit (counted userId period .expense)) spent rfl
    (fun _ => mem_getExpensesPerUnit) unit

theorem amountOf_totals (hfk : ForeignKey db) (unit : String) :
    amountOf (getBalancesPerUnit db userId) unit =
      ((unitRows db unit (ownedBy userId)).map Transaction.amount).sum := by
  have htotal := amountOf_eq (inUnit db userId)
    (fun accounts => (accounts.map fun a => balance db a.id).sum) rfl
    (fun _ => mem_getBalancesPerUnit) unit
  have howned : ∀ t, ownedBy userId t = true → t.userId = userId :=
    fun t ht => of_decide_eq_true ht
  rw [htotal, ← sum_inUnit hfk howned]
  refine congrArg List.sum (List.map_congr_left fun a ha => ?_)
  obtain ⟨ha, hcond⟩ := List.mem_filter.1 ha
  unfold balance
  refine congrArg (fun rows => (List.map Transaction.amount rows).sum)
    (List.filter_congr fun t ht => ?_)
  rw [eq_comm, Bool.and_eq_right_iff_imp, decide_eq_true_eq]
  intro hid
  refine decide_eq_true ?_
  exact (hfk.owner ht ha hid.symm).symm.trans (of_decide_eq_true hcond).1

omit [Collation] in
theorem LedgerOk.listed {env : Env} {w : LedgerWorld} (h : LedgerOk env w)
    (kind : TransactionKind) (unit : String) :
    Listed w.db userId period kind unit
      ((unitRows w.db unit (counted userId period kind)).map Transaction.amount).sum := by
  let rowId : {a // a ∈ inUnit w.db userId unit} → RowId := fun a =>
    have hbounds := h.accountIds a.1 (List.mem_filter.1 a.2).1
    ⟨a.1.id, hbounds.1, hbounds.2.1⟩
  refine ⟨(inUnit w.db userId unit).attach.map rowId, ?_, fun limit limit_pos limit_le => ?_⟩
  · rw [List.map_map]
    exact List.attach_map_val (f := Account.id)
  · have howned : ∀ t, counted userId period kind t = true → t.userId = userId :=
      fun t ht => (of_decide_eq_true (of_decide_eq_true ht).1).1
    rw [← sum_inUnit h.fk howned, List.map_map]
    refine Eq.trans (congrArg List.sum (List.map_congr_left fun a _ => ?_))
      (congrArg List.sum (List.attach_map_val (f := fun a : Account => ((w.db.transactions.rows.filter
        fun t => counted userId period kind t && t.accountId = a.id).map Transaction.amount).sum)))
    show ((allPages w.db userId (ofKindWithin period kind (rowId a) limit limit_pos limit_le)).map
      Transaction.amount).sum = _
    rw [allPages_sum h.count_le]
    refine congrArg (fun rows => (List.map Transaction.amount rows).sum)
      (List.filter_congr fun t _ => ?_)
    rw [Bool.eq_iff_iff]
    simp only [TransactionFilters.matches, ofKindWithin, onAccount, unlessSent, Option.all_some,
      Option.all_none, Bool.and_true, Bool.and_eq_true, decide_eq_true_eq, counted,
      ownedAndWithinPeriod, rowId]
    constructor
    · rintro ⟨⟨⟨⟨huser, hid⟩, hkind⟩, hfrom⟩, hto⟩
      exact ⟨⟨⟨huser, hfrom, hto⟩, hkind⟩, hid⟩
    · rintro ⟨⟨⟨huser, hfrom, hto⟩, hkind⟩, hid⟩
      exact ⟨⟨⟨⟨huser, hid⟩, hkind⟩, hfrom⟩, hto⟩

omit [Collation] in
theorem Signed.income_pos (h : Signed db)
    (hne : unitRows db unit (counted userId period .income) ≠ []) :
    0 < ((unitRows db unit (counted userId period .income)).map Transaction.amount).sum := by
  refine List.sum_pos _ (fun x hx => ?_) fun hnil => hne (List.map_eq_nil_iff.1 hnil)
  obtain ⟨t, ht, rfl⟩ := List.mem_map.1 hx
  obtain ⟨ht, hcounted, -⟩ := mem_unitRows.1 ht
  exact (h t ht).1 (of_decide_eq_true hcounted).2

omit [Collation] in
theorem Signed.spent_pos (h : Signed db) {rows : List Transaction} (hne : rows ≠ [])
    (hrows : ∀ t ∈ rows, t ∈ unitRows db unit (counted userId period .expense)) :
    0 < spent rows := by
  refine List.sum_pos _ (fun x hx => ?_) fun hnil => hne (List.map_eq_nil_iff.1 hnil)
  obtain ⟨t, ht, rfl⟩ := List.mem_map.1 hx
  obtain ⟨ht, hcounted, -⟩ := mem_unitRows.1 (hrows t ht)
  exact Int.neg_pos_of_neg ((h t ht).2 (of_decide_eq_true hcounted).2)

/-- Every expense of the unit is in the category it has. -/
theorem mem_categories {unit : String} {category : Option String} :
    category ∈ ((getExpensesByCategory found db userId period).filter fun c => c.unit = unit).map
        CategoryTotal.category ↔ categoryRows db userId period category unit ≠ [] := by
  rw [List.mem_map]
  constructor
  · rintro ⟨c, hc, rfl⟩
    obtain ⟨hmem, hunit⟩ := List.mem_filter.1 hc
    obtain rfl : c.unit = unit := of_decide_eq_true hunit
    exact (mem_getExpensesByCategory.1 hmem).1
  · intro hne
    refine ⟨⟨category, unit, spent (categoryRows db userId period category unit)⟩, ?_, rfl⟩
    exact List.mem_filter.2 ⟨mem_getExpensesByCategory.2 ⟨hne, rfl⟩, decide_eq_true rfl⟩

theorem categories_sum (unit : String) :
    (((getExpensesByCategory found db userId period).filter fun c => c.unit = unit).map
      CategoryTotal.amount).sum = spent (unitRows db unit (counted userId period .expense)) := by
  let ofUnit : List CategoryTotal :=
    (getExpensesByCategory found db userId period).filter fun c => c.unit = unit
  have hnodup : (ofUnit.map CategoryTotal.category).Nodup := by
    have hpairs := (List.pairwise_map.1 (getExpensesByCategory_nodup found db userId period)).filter
      fun c => decide (c.unit = unit)
    refine List.pairwise_map.2 (hpairs.imp_of_mem fun hc hc' hne heq => hne ?_)
    have hunit := of_decide_eq_true (List.mem_filter.1 hc).2
    have hunit' := of_decide_eq_true (List.mem_filter.1 hc').2
    exact Prod.ext heq (hunit.trans hunit'.symm)
  have hkeys : ∀ t ∈ unitRows db unit (counted userId period .expense),
      t.category ∈ ofUnit.map CategoryTotal.category := by
    intro t ht
    refine mem_categories.2 (List.ne_nil_of_mem (List.mem_filter.2 ⟨ht, decide_eq_true rfl⟩))
  unfold spent
  rw [← Sql.sum_by_key Transaction.category (fun t => -t.amount) hnodup _ hkeys, List.map_map]
  refine congrArg List.sum (List.map_congr_left fun c hc => ?_)
  obtain ⟨hmem, hunit⟩ := List.mem_filter.1 hc
  obtain rfl : c.unit = unit := of_decide_eq_true hunit
  exact (mem_getExpensesByCategory.1 hmem).2

omit [Collation] in
/-- Every transaction is of one of the three kinds. -/
theorem sum_kinds (rows : List Transaction) :
    (rows.map Transaction.amount).sum =
      ((rows.filter fun t => t.kind = .income).map Transaction.amount).sum +
      ((rows.filter fun t => t.kind = .expense).map Transaction.amount).sum +
      ((rows.filter fun t => t.kind = .transfer).map Transaction.amount).sum := by
  have hkinds : ∀ t ∈ rows, t.kind ∈ [TransactionKind.income, .expense, .transfer] := by
    intro t _
    cases t.kind <;> decide
  rw [← Sql.sum_by_key Transaction.kind Transaction.amount (by decide) rows hkinds]
  simp only [List.map_cons, List.map_nil, List.sum_cons, List.sum_nil, add_zero, add_assoc]

theorem LedgerOk.reconciles {env : Env} {w : LedgerWorld} (h : LedgerOk env w)
    (hsigned : Signed w.db) (userId : Nat) (period : SummaryPeriod) :
    Reconciles w.db userId period (summary found w.db userId period) where
  categories u hu := by
    show _ = (((getExpensesByCategory found w.db userId period).filter fun c => c.unit = u.unit).map
      CategoryTotal.amount).sum
    rw [categories_sum]
    exact (mem_getExpensesPerUnit.1 hu).2
  sameUnits unit := by
    rw [List.mem_map, List.mem_map]
    constructor
    · rintro ⟨u, hu, rfl⟩
      obtain ⟨t, ht⟩ := List.exists_mem_of_ne_nil _ (mem_getExpensesPerUnit.1 hu).1
      have hne : categoryRows w.db userId period t.category u.unit ≠ [] :=
        List.ne_nil_of_mem (List.mem_filter.2 ⟨ht, decide_eq_true rfl⟩)
      exact ⟨⟨t.category, u.unit, spent (categoryRows w.db userId period t.category u.unit)⟩,
        mem_getExpensesByCategory.2 ⟨hne, rfl⟩, rfl⟩
    · rintro ⟨c, hc, rfl⟩
      obtain ⟨t, ht⟩ := List.exists_mem_of_ne_nil _ (mem_getExpensesByCategory.1 hc).1
      have hne := List.ne_nil_of_mem (List.mem_filter.1 ht).1
      exact ⟨⟨c.unit, spent (unitRows w.db c.unit (counted userId period .expense))⟩,
        mem_getExpensesPerUnit.2 ⟨hne, rfl⟩, rfl⟩
  onceEach := getExpensesByCategory_nodup found w.db userId period
  unitsOnce := ⟨column_nodup fun r => r.2.1, column_nodup fun r => r.2.2⟩
  incomeListed unit := by
    show Listed _ _ _ _ _ (amountOf (getIncomePerUnit w.db userId period) unit)
    rw [amountOf_income]
    exact h.listed .income unit
  expensesListed unit := by
    show Listed _ _ _ _ _ (-amountOf (getExpensesPerUnit w.db userId period) unit)
    rw [amountOf_expenses, spent_eq, Int.neg_neg]
    exact h.listed .expense unit
  positive := by
    refine ⟨fun u hu => ?_, fun u hu => ?_, fun c hc => ?_⟩
    · obtain ⟨hne, hamount⟩ := mem_getIncomePerUnit.1 hu
      rw [hamount]
      exact hsigned.income_pos hne
    · obtain ⟨hne, hamount⟩ := mem_getExpensesPerUnit.1 hu
      rw [hamount]
      exact hsigned.spent_pos hne fun _ ht => ht
    · obtain ⟨hne, hamount⟩ := mem_getExpensesByCategory.1 hc
      rw [hamount]
      exact hsigned.spent_pos hne fun _ ht => (List.mem_filter.1 ht).1
  whole hwhole unit := by
    show amountOf (getBalancesPerUnit w.db userId) unit =
      amountOf (getIncomePerUnit w.db userId period) unit -
        amountOf (getExpensesPerUnit w.db userId period) unit + _
    have hkind : ∀ kind, (unitRows w.db unit (ownedBy userId)).filter (fun t => t.kind = kind) =
        unitRows w.db unit (counted userId period kind) := by
      intro kind
      rw [unitRows_filter]
      refine List.filter_congr fun t ht => congrArg (· && _) ?_
      rw [Bool.eq_iff_iff, Bool.and_eq_true, ownedBy, decide_eq_true_eq, decide_eq_true_eq, counted,
        decide_eq_true_eq]
      refine and_congr_left fun _ => ⟨hwhole t ht, fun hperiod => ?_⟩
      exact (of_decide_eq_true hperiod).1
    have htransfers : (unitRows w.db unit (ownedBy userId)).filter (fun t => t.kind = .transfer) =
        unitRows w.db unit fun t => t.userId = userId ∧ t.kind = .transfer := by
      rw [unitRows_filter]
      refine List.filter_congr fun t _ => congrArg (· && _) ?_
      rw [Bool.eq_iff_iff, Bool.and_eq_true, ownedBy, decide_eq_true_eq, decide_eq_true_eq,
        decide_eq_true_eq]
    rw [amountOf_totals h.fk, amountOf_income, amountOf_expenses, spent_eq, sum_kinds, htransfers,
      hkind, hkind]
    omega

end Reconciliation

/-- **The summary reconciles**, whatever requests were served before it, one at a time. -/
theorem summary_reconciles [Collation] {env : Env} {w : LedgerWorld}
    (h : Serial engine (handle env) initialWorld w) (found : Sql.Found CategoryTotal) (userId : Nat)
    (period : SummaryPeriod) : Reconciles w.db userId period (summary found w.db userId period) :=
  (ledger_serial (initial_ledger env) rfl h).1.reconciles (serial_signed h) userId period

theorem session_serial [Collation] {env : Env} {userId : Nat} (requests : List (Nat × Endpoint)) :
    ∀ {w w' : LedgerWorld}, Serial engine (handle env) w w' →
      Serial engine (handle env) w (session env userId requests w') := by
  induction requests with
  | nil => exact fun h => h
  | cons request requests ih => exact fun h => ih ((h.tick request.1).serve _)

/-- Two accounts, income, an expense with a category, and a transfer with a fee that has none. -/
def month : List (Nat × Endpoint) :=
  [(0, .createAccount { name := "cash", unit := "GBP", type := .cash }),
    (60, .createAccount { name := "wallet", unit := "BTC", type := .crypto }),
    (0, .createTransaction
      { accountId := .one
        amount := ⟨900 * 10 ^ 18, by decide⟩
        kind := .income
        occurredAt := 10 }),
    (0, .createTransaction
      { accountId := .one
        amount := ⟨12 * 10 ^ 18, by decide⟩
        kind := .expense
        category := some "food"
        occurredAt := 20 }),
    (0, .createTransfer
      { fromAccountId := .one
        toAccountId := .two
        amountSent := ⟨101 * 10 ^ 18, by decide⟩
        amountReceived := ⟨10 ^ 15, by decide⟩
        fee := some ⟨10 ^ 16, by decide⟩
        feeAccountId := some .one
        occurredAt := 30
        fee_and_account := rfl
        category_needs_fee := fun h => by cases h })]

theorem month_reconciles : ∃ _ : Collation,
    (session .counting 1 month initialWorld).db.transactions.rows.map (fun t => t.amount) =
      [900 * 10 ^ 18, -12 * 10 ^ 18, -101 * 10 ^ 18, 10 ^ 15, -10 ^ 16] ∧
    Reconciles (session .counting 1 month initialWorld).db 1 ⟨0, 40, by decide⟩
      (summary .backwards (session .counting 1 month initialWorld).db 1 ⟨0, 40, by decide⟩) := by
  refine ⟨Collation.codePoints, ?_, ?_⟩
  · decide +kernel
  · exact @summary_reconciles Collation.codePoints _ _
      (@session_serial Collation.codePoints _ _ month _ _ (.refl _)) .backwards 1 _

end Tradinghub.Ledger
