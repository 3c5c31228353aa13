import Tradinghub.Ledger.Transferring

/-!
# Consecutive periods

A row of a period is in exactly one of its two parts, because each includes its start and excludes
its end.  So the rows of a unit, and of a category in it, are those of the first part and those of
the second (`Splits`), and the totals, which count them (`Counts`), add up (`summary_additive`).
-/

namespace Tradinghub.Ledger

open Store

/-- A period and the one that begins where it ends. -/
structure Consecutive where
  first : SummaryPeriod
  second : SummaryPeriod
  meet : first.occurredTo = second.occurredFrom

def Consecutive.whole (p : Consecutive) : SummaryPeriod where
  occurredFrom := p.first.occurredFrom
  occurredTo := p.second.occurredTo
  start_before_end :=
    Int.lt_trans (p.meet ▸ p.first.start_before_end) p.second.start_before_end

/-- A category and unit that is missing counts as zero. -/
def categoryAmountOf (totals : List CategoryTotal) (category : Option String) (unit : String) :
    Int :=
  (categoryTotalOf totals category unit).getD 0

/-- What a summary counts: an amount is that of the rows of its unit, or of its category in the unit,
and is listed when there are any. -/
structure Counts (db : Db) (userId : Nat) (period : SummaryPeriod) (s : SummaryResponse) : Prop where
  income : ∀ unit, amountOf s.income unit =
    ((unitRows db unit (counted userId period .income)).map Transaction.amount).sum
  expenses : ∀ unit, amountOf s.expenses unit =
    spent (unitRows db unit (counted userId period .expense))
  byCategory : ∀ category unit, categoryAmountOf s.byCategory category unit =
    spent (categoryRows db userId period category unit)
  incomeListed : ∀ unit, unit ∈ s.income.map UnitTotal.unit ↔
    unitRows db unit (counted userId period .income) ≠ []
  expensesListed : ∀ unit, unit ∈ s.expenses.map UnitTotal.unit ↔
    unitRows db unit (counted userId period .expense) ≠ []
  categoryListed : ∀ category unit,
    (category, unit) ∈ s.byCategory.map (fun c => (c.category, c.unit)) ↔
      categoryRows db userId period category unit ≠ []

/-- No row twice and none lost: those of the whole period are those of its two parts. -/
structure Splits (db : Db) (userId : Nat) (p : Consecutive) : Prop where
  unit : ∀ kind unit, (unitRows db unit (counted userId p.whole kind)).Perm
    (unitRows db unit (counted userId p.first kind) ++
      unitRows db unit (counted userId p.second kind))
  category : ∀ category unit, (categoryRows db userId p.whole category unit).Perm
    (categoryRows db userId p.first category unit ++ categoryRows db userId p.second category unit)

/-- The totals of a period from those of its two parts. -/
structure Additive (whole first second : SummaryResponse) : Prop where
  income : ∀ unit, amountOf whole.income unit =
    amountOf first.income unit + amountOf second.income unit
  expenses : ∀ unit, amountOf whole.expenses unit =
    amountOf first.expenses unit + amountOf second.expenses unit
  byCategory : ∀ category unit, categoryAmountOf whole.byCategory category unit =
    categoryAmountOf first.byCategory category unit +
      categoryAmountOf second.byCategory category unit
  incomeListed : ∀ unit, unit ∈ whole.income.map UnitTotal.unit ↔
    unit ∈ first.income.map UnitTotal.unit ∨ unit ∈ second.income.map UnitTotal.unit
  expensesListed : ∀ unit, unit ∈ whole.expenses.map UnitTotal.unit ↔
    unit ∈ first.expenses.map UnitTotal.unit ∨ unit ∈ second.expenses.map UnitTotal.unit
  categoryListed : ∀ category unit,
    (category, unit) ∈ whole.byCategory.map (fun c => (c.category, c.unit)) ↔
      (category, unit) ∈ first.byCategory.map (fun c => (c.category, c.unit)) ∨
      (category, unit) ∈ second.byCategory.map fun c => (c.category, c.unit)

section Rows

variable {db : Db} {userId : Nat}

theorem ownedAndWithinPeriod_iff {period : SummaryPeriod} {t : Transaction} :
    ownedAndWithinPeriod userId period t = true ↔
      t.userId = userId ∧ period.occurredFrom ≤ t.occurredAt ∧ t.occurredAt < period.occurredTo :=
  decide_eq_true_iff

theorem counted_iff {period : SummaryPeriod} {kind : TransactionKind} {t : Transaction} :
    counted userId period kind t = true ↔
      ownedAndWithinPeriod userId period t = true ∧ t.kind = kind :=
  decide_eq_true_iff

/-- A row of the period is in its first part or in its second, whichever side of the boundary it is
on. -/
theorem within_whole (p : Consecutive) (t : Transaction) :
    (ownedAndWithinPeriod userId p.first t = true ↔
      ownedAndWithinPeriod userId p.whole t = true ∧ t.occurredAt < p.first.occurredTo) ∧
    (ownedAndWithinPeriod userId p.second t = true ↔
      ownedAndWithinPeriod userId p.whole t = true ∧ ¬ t.occurredAt < p.first.occurredTo) := by
  have hfirst := p.first.start_before_end
  have hsecond := p.second.start_before_end
  have hmeet := p.meet
  simp only [ownedAndWithinPeriod_iff, Consecutive.whole]
  constructor
  · constructor
    · rintro ⟨huser, hfrom, hlt⟩
      exact ⟨⟨huser, hfrom, by omega⟩, hlt⟩
    · rintro ⟨⟨huser, hfrom, -⟩, hlt⟩
      exact ⟨huser, hfrom, hlt⟩
  · constructor
    · rintro ⟨huser, hfrom, hto⟩
      exact ⟨⟨huser, by omega, hto⟩, by omega⟩
    · rintro ⟨⟨huser, -, hto⟩, hnot⟩
      exact ⟨huser, by omega, hto⟩

/-- The rows of a unit in the period are those before the boundary and those after it. -/
theorem unitRows_perm (p : Consecutive) (kind : TransactionKind) (unit : String) :
    (unitRows db unit (counted userId p.whole kind)).Perm
      (unitRows db unit (counted userId p.first kind) ++
        unitRows db unit (counted userId p.second kind)) := by
  have hbefore : (unitRows db unit (counted userId p.whole kind)).filter
      (fun t => t.occurredAt < p.first.occurredTo) =
      unitRows db unit (counted userId p.first kind) := by
    rw [unitRows_filter]
    refine congrArg (unitRows db unit) (funext fun t => ?_)
    rw [Bool.eq_iff_iff, Bool.and_eq_true, decide_eq_true_eq, counted_iff, counted_iff,
      (within_whole p t).1, and_right_comm]
  have hafter : (unitRows db unit (counted userId p.whole kind)).filter
      (fun t => !decide (t.occurredAt < p.first.occurredTo)) =
      unitRows db unit (counted userId p.second kind) := by
    rw [unitRows_filter]
    refine congrArg (unitRows db unit) (funext fun t => ?_)
    rw [Bool.eq_iff_iff, Bool.and_eq_true, Bool.not_eq_true', decide_eq_false_iff_not, counted_iff,
      counted_iff, (within_whole p t).2, and_right_comm]
  rw [← hbefore, ← hafter]
  exact (List.filter_append_perm _ _).symm

theorem categoryRows_perm (p : Consecutive) (category : Option String) (unit : String) :
    (categoryRows db userId p.whole category unit).Perm
      (categoryRows db userId p.first category unit ++
        categoryRows db userId p.second category unit) := by
  unfold categoryRows
  rw [← List.filter_append]
  exact (unitRows_perm p .expense unit).filter _

theorem spent_perm {rows first second : List Transaction} (h : rows.Perm (first ++ second)) :
    spent rows = spent first + spent second := by
  unfold spent
  rw [(h.map _).sum_eq, List.map_append, List.sum_append]

theorem ne_nil_of_perm {rows first second : List Transaction} (h : rows.Perm (first ++ second)) :
    rows ≠ [] ↔ first ≠ [] ∨ second ≠ [] := by
  have hnil : rows = [] ↔ first = [] ∧ second = [] := by
    rw [← List.append_eq_nil_iff, ← List.length_eq_zero_iff, ← List.length_eq_zero_iff,
      h.length_eq]
  rw [Ne, hnil, Classical.not_and_iff_not_or_not]

end Rows

section Lists

variable [Collation] {db : Db} {userId : Nat} {period : SummaryPeriod}
variable {found : Sql.Found CategoryTotal}

theorem mem_income_units {unit : String} :
    unit ∈ (getIncomePerUnit db userId period).map UnitTotal.unit ↔
      unitRows db unit (counted userId period .income) ≠ [] := by
  rw [List.mem_map]
  constructor
  · rintro ⟨u, hu, rfl⟩
    exact (mem_getIncomePerUnit.1 hu).1
  · intro hne
    exact ⟨⟨unit, ((unitRows db unit (counted userId period .income)).map Transaction.amount).sum⟩,
      mem_getIncomePerUnit.2 ⟨hne, rfl⟩, rfl⟩

theorem mem_expenses_units {unit : String} :
    unit ∈ (getExpensesPerUnit db userId period).map UnitTotal.unit ↔
      unitRows db unit (counted userId period .expense) ≠ [] := by
  rw [List.mem_map]
  constructor
  · rintro ⟨u, hu, rfl⟩
    exact (mem_getExpensesPerUnit.1 hu).1
  · intro hne
    exact ⟨⟨unit, spent (unitRows db unit (counted userId period .expense))⟩,
      mem_getExpensesPerUnit.2 ⟨hne, rfl⟩, rfl⟩

theorem mem_category_units {category : Option String} {unit : String} :
    (category, unit) ∈ (getExpensesByCategory found db userId period).map
        (fun c => (c.category, c.unit)) ↔ categoryRows db userId period category unit ≠ [] := by
  rw [List.mem_map]
  constructor
  · rintro ⟨c, hc, heq⟩
    cases heq
    exact (mem_getExpensesByCategory.1 hc).1
  · intro hne
    exact ⟨⟨category, unit, spent (categoryRows db userId period category unit)⟩,
      mem_getExpensesByCategory.2 ⟨hne, rfl⟩, rfl⟩

theorem categoryAmountOf_expenses (category : Option String) (unit : String) :
    categoryAmountOf (getExpensesByCategory found db userId period) category unit =
      spent (categoryRows db userId period category unit) := by
  unfold categoryAmountOf
  rw [categoryTotalOf_expenses]
  split
  · next hnil =>
    rw [hnil]
    rfl
  · rfl

theorem summary_counts (found : Sql.Found CategoryTotal) (db : Db) (userId : Nat)
    (period : SummaryPeriod) : Counts db userId period (summary found db userId period) where
  income unit := amountOf_income unit
  expenses unit := amountOf_expenses unit
  byCategory := categoryAmountOf_expenses
  incomeListed _ := mem_income_units
  expensesListed _ := mem_expenses_units
  categoryListed _ _ := mem_category_units

omit [Collation] in
theorem rows_split (db : Db) (userId : Nat) (p : Consecutive) : Splits db userId p :=
  ⟨unitRows_perm p, categoryRows_perm p⟩

omit [Collation] in
/-- What is counted is added up as the rows are split. -/
theorem Splits.additive {p : Consecutive} (h : Splits db userId p)
    {whole first second : SummaryResponse} (hwhole : Counts db userId p.whole whole)
    (hfirst : Counts db userId p.first first) (hsecond : Counts db userId p.second second) :
    Additive whole first second where
  income unit := by
    rw [hwhole.income, hfirst.income, hsecond.income, ((h.unit .income unit).map _).sum_eq,
      List.map_append, List.sum_append]
  expenses unit := by
    rw [hwhole.expenses, hfirst.expenses, hsecond.expenses]
    exact spent_perm (h.unit .expense unit)
  byCategory category unit := by
    rw [hwhole.byCategory, hfirst.byCategory, hsecond.byCategory]
    exact spent_perm (h.category category unit)
  incomeListed unit := by
    rw [hwhole.incomeListed, hfirst.incomeListed, hsecond.incomeListed]
    exact ne_nil_of_perm (h.unit .income unit)
  expensesListed unit := by
    rw [hwhole.expensesListed, hfirst.expensesListed, hsecond.expensesListed]
    exact ne_nil_of_perm (h.unit .expense unit)
  categoryListed category unit := by
    rw [hwhole.categoryListed, hfirst.categoryListed, hsecond.categoryListed]
    exact ne_nil_of_perm (h.category category unit)

end Lists

/-- **Period totals are additive**, whatever is in the tables and in whatever order each of the three
answers lists what ties: each answer counts the rows of its period, and no row of the whole is in
both halves or in neither. -/
theorem summary_additive [Collation] (found found₁ found₂ : Sql.Found CategoryTotal) (db : Db)
    (userId : Nat) (p : Consecutive) :
    (Splits db userId p ∧ Counts db userId p.whole (summary found db userId p.whole) ∧
      Counts db userId p.first (summary found₁ db userId p.first) ∧
      Counts db userId p.second (summary found₂ db userId p.second)) ∧
    Additive (summary found db userId p.whole) (summary found₁ db userId p.first)
      (summary found₂ db userId p.second) := by
  have hwhole := summary_counts found db userId p.whole
  have hfirst := summary_counts found₁ db userId p.first
  have hsecond := summary_counts found₂ db userId p.second
  have hsplits := rows_split db userId p
  exact ⟨⟨hsplits, hwhole, hfirst, hsecond⟩, hsplits.additive hwhole hfirst hsecond⟩

/-- Two months: the first ends and the second begins at 20. -/
def twoMonths : Consecutive where
  first := ⟨10, 20, by decide⟩
  second := ⟨20, 30, by decide⟩
  meet := rfl

def onTheDay (id : Nat) (occurredAt amount : Int) (kind : TransactionKind)
    (category : Option String) : Transaction where
  id := id
  userId := 1
  accountId := 1
  amount := amount
  kind := kind
  category := category
  occurredAt := occurredAt
  note := none
  transferGroupId := none

/-- Rows at the start of the first month, on the boundary, just before it, and at the end of the
second month. -/
def boundaryDb : Db where
  accounts := Table.empty.put
    { id := 1, userId := 1, name := "cash", unit := "GBP", type := .cash, archivedAt := none }
  transactions := ((((Table.empty.put (onTheDay 1 10 7 .income none)).put
    (onTheDay 2 20 8 .income none)).put (onTheDay 3 19 (-3) .expense none)).put
      (onTheDay 4 20 (-4) .expense none)).put (onTheDay 5 30 (-9) .expense (some "food"))

theorem boundary_rows_counted_once : ∃ _ : Collation,
    (summary .asStored boundaryDb 1 twoMonths.first).income = [⟨"GBP", 7⟩] ∧
    (summary .asStored boundaryDb 1 twoMonths.second).income = [⟨"GBP", 8⟩] ∧
    (summary .asStored boundaryDb 1 twoMonths.whole).income = [⟨"GBP", 15⟩] ∧
    (summary .asStored boundaryDb 1 twoMonths.first).byCategory = [⟨none, "GBP", 3⟩] ∧
    (summary .asStored boundaryDb 1 twoMonths.second).byCategory = [⟨none, "GBP", 4⟩] ∧
    (summary .asStored boundaryDb 1 twoMonths.whole).byCategory = [⟨none, "GBP", 7⟩] ∧
    Additive (summary .asStored boundaryDb 1 twoMonths.whole)
      (summary .asStored boundaryDb 1 twoMonths.first)
      (summary .asStored boundaryDb 1 twoMonths.second) := by
  refine ⟨Collation.codePoints, by decide +kernel, by decide +kernel, by decide +kernel,
    by decide +kernel, by decide +kernel, by decide +kernel, ?_⟩
  exact (@summary_additive Collation.codePoints .asStored .asStored .asStored boundaryDb 1
    twoMonths).2

end Tradinghub.Ledger
