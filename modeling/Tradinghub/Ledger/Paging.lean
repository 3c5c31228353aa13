import Tradinghub.Ledger.Balances

/-!
# Paging is a partition

Count and page carry the same conditions, and (occurred_at, id) orders any two rows.  So the pages,
read until one is empty, are the user's rows that fit the filters, each once and strictly descending,
and consecutive date ranges tile (`Paged`).
-/

namespace Tradinghub.Ledger

open ReadCommitted Store

/-! ## The list -/

/-- `crud.list_transactions`: one page, and how many match in all. -/
def listTransactions (db : Db) (userId : Nat) (filters : TransactionFilters) :
    List Transaction × Nat :=
  (pageTransactions db userId filters, countTransactions db userId filters)

/-- The pages from the `k`-th on, until one is empty. -/
def pagesFrom (db : Db) (userId : Nat) (filters : TransactionFilters) (k : Nat) :
    List Transaction :=
  if h : k * filters.limit ≤ 2 ^ 63 - 1 then
    let rows := (listTransactions db userId
      { filters with offset := k * filters.limit, offset_le := h }).1
    if rows = [] then [] else rows ++ pagesFrom db userId filters (k + 1)
  else []
termination_by 2 ^ 63 - k * filters.limit
decreasing_by
  have hlimit := filters.limit_pos
  rw [Nat.succ_mul]
  omega

/-- The filters with a date range. -/
def TransactionFilters.between (filters : TransactionFilters) (occurredFrom occurredTo : Int) :
    TransactionFilters :=
  { filters with occurredFrom := some occurredFrom, occurredTo := some occurredTo }

/-- Later, or at the same time with a higher id. -/
def Newer (t t' : Transaction) : Prop :=
  t'.occurredAt < t.occurredAt ∨ t.occurredAt = t'.occurredAt ∧ t'.id < t.id

/-- Every filter that was given, as the reader means it. -/
structure Fits (filters : TransactionFilters) (userId : Nat) (t : Transaction) : Prop where
  userId : t.userId = userId
  accountId : ∀ accountId ∈ filters.accountId, t.accountId = accountId.val
  kind : ∀ kind ∈ filters.kind, t.kind = kind
  category : ∀ category ∈ filters.category, t.category = some category
  occurredFrom : ∀ occurredFrom ∈ filters.occurredFrom, occurredFrom ≤ t.occurredAt
  occurredTo : ∀ occurredTo ∈ filters.occurredTo, t.occurredAt < occurredTo

/-- The pages of a list, taken together. -/
structure Paged (db : Db) (userId : Nat) (filters : TransactionFilters) : Prop where
  rows : ∀ t, t ∈ pagesFrom db userId filters 0 ↔ t ∈ db.transactions ∧ Fits filters userId t
  descending : (pagesFrom db userId filters 0).Pairwise Newer
  total : ∀ k h, (listTransactions db userId
    { filters with offset := k * filters.limit, offset_le := h }).2 =
      (pagesFrom db userId filters 0).length
  tiles : ∀ a b c : Int, a ≤ b → b ≤ c → pagesFrom db userId (filters.between a c) 0 =
    pagesFrom db userId (filters.between b c) 0 ++ pagesFrom db userId (filters.between a b) 0

section Order

variable {t t' : Transaction}

theorem Newer.asymm (h : Newer t t') : ¬ Newer t' t := by
  unfold Newer at *
  omega

theorem newestFirst_iff : newestFirst t t' = true ↔
    t'.occurredAt < t.occurredAt ∨ t.occurredAt = t'.occurredAt ∧ t'.id ≤ t.id := decide_eq_true_iff

theorem newestFirst_trans (t t' t'' : Transaction) (h : newestFirst t t' = true)
    (h' : newestFirst t' t'' = true) : newestFirst t t'' = true := by
  rw [newestFirst_iff] at *
  omega

theorem newestFirst_total (t t' : Transaction) :
    (newestFirst t t' || newestFirst t' t) = true := by
  rw [Bool.or_eq_true, newestFirst_iff, newestFirst_iff]
  omega

theorem newer_of_ne (h : newestFirst t t' = true) (hne : t.id ≠ t'.id) : Newer t t' := by
  rw [newestFirst_iff] at h
  unfold Newer
  omega

end Order

section Pages

variable {db : Db} {userId : Nat} {filters : TransactionFilters}

/-- All that match, in order. -/
def matching (db : Db) (userId : Nat) (filters : TransactionFilters) : List Transaction :=
  Sql.orderBy newestFirst (db.transactions.rows.filter (filters.matches userId))

theorem length_matching : (matching db userId filters).length = countTransactions db userId filters :=
  (Sql.orderBy_perm _ _).length_eq

theorem matching_descending : (matching db userId filters).Pairwise Newer := by
  have hnodup : ((db.transactions.rows.filter (filters.matches userId)).map Transaction.id).Nodup :=
    db.transactions.nodup_keys.sublist (List.filter_sublist.map _)
  refine (Sql.orderBy_ascending newestFirst_trans newestFirst_total hnodup).imp ?_
  exact fun h => newer_of_ne h.1 h.2

/-- Pages until one is empty leave nothing out. -/
theorem pagesFrom_eq (hcount : countTransactions db userId filters ≤ 2 ^ 63 - 1) (k : Nat) :
    pagesFrom db userId filters k = (matching db userId filters).drop (k * filters.limit) := by
  have hlimit := filters.limit_pos
  rw [← length_matching] at hcount
  fun_induction pagesFrom db userId filters k with
  | case1 k h rows hempty =>
    have hpage : rows = ((matching db userId filters).drop (k * filters.limit)).take filters.limit :=
      rfl
    rw [hpage, List.take_eq_nil_iff] at hempty
    rcases hempty with hzero | hnil
    · omega
    · exact hnil.symm
  | case2 k h rows hne ih =>
    have hpage : rows = ((matching db userId filters).drop (k * filters.limit)).take filters.limit :=
      rfl
    rw [ih, hpage, Nat.succ_mul, ← List.drop_drop, List.take_append_drop]
  | case3 k h =>
    rw [List.drop_eq_nil_of_le (by omega)]

theorem matches_iff {t : Transaction} : filters.matches userId t = true ↔ Fits filters userId t := by
  have hsent : ∀ {α : Type} (sent : Option α) (p : α → Bool),
      unlessSent sent p = true ↔ ∀ a ∈ sent, p a = true := by
    intro α sent p
    cases sent <;> simp [unlessSent]
  simp only [TransactionFilters.matches, Bool.and_eq_true, hsent, decide_eq_true_eq]
  constructor
  · rintro ⟨⟨⟨⟨⟨huser, haccount⟩, hkind⟩, hcategory⟩, hfrom⟩, hto⟩
    exact ⟨huser, haccount, hkind, hcategory, hfrom, hto⟩
  · rintro ⟨huser, haccount, hkind, hcategory, hfrom, hto⟩
    exact ⟨⟨⟨⟨⟨huser, haccount⟩, hkind⟩, hcategory⟩, hfrom⟩, hto⟩

theorem mem_matching {t : Transaction} :
    t ∈ matching db userId filters ↔ t ∈ db.transactions ∧ Fits filters userId t := by
  unfold matching
  rw [Sql.mem_orderBy, List.mem_filter, matches_iff]
  rfl

theorem fits_between {a b : Int} {t : Transaction} :
    Fits (filters.between a b) userId t ↔
      Fits { filters with occurredFrom := none, occurredTo := none } userId t ∧
        a ≤ t.occurredAt ∧ t.occurredAt < b := by
  constructor
  · intro h
    refine ⟨⟨h.userId, h.accountId, h.kind, h.category, ?_, ?_⟩, h.occurredFrom a rfl,
      h.occurredTo b rfl⟩
    · rintro _ ⟨⟩
    · rintro _ ⟨⟩
  · rintro ⟨h, hfrom, hto⟩
    refine ⟨h.userId, h.accountId, h.kind, h.category, ?_, ?_⟩
    · rintro _ ⟨⟩
      exact hfrom
    · rintro _ ⟨⟩
      exact hto

/-- The later range first. -/
theorem matching_tiles {a b c : Int} (hab : a ≤ b) (hbc : b ≤ c) :
    matching db userId (filters.between a c) =
      matching db userId (filters.between b c) ++ matching db userId (filters.between a b) := by
  refine Sql.eq_of_ascending (fun _ _ => Newer.asymm) matching_descending ?_ fun t => ?_
  · refine List.pairwise_append.2 ⟨matching_descending, matching_descending, fun t ht t' ht' => ?_⟩
    obtain ⟨-, hfrom, -⟩ := fits_between.1 (mem_matching.1 ht).2
    obtain ⟨-, -, hto⟩ := fits_between.1 (mem_matching.1 ht').2
    exact Or.inl (by omega)
  · rw [List.mem_append, mem_matching, mem_matching, mem_matching, fits_between, fits_between,
      fits_between]
    constructor
    · rintro ⟨ht, hfits, hfrom, hto⟩
      by_cases hlater : b ≤ t.occurredAt
      · exact Or.inl ⟨ht, hfits, hlater, hto⟩
      · exact Or.inr ⟨ht, hfits, hfrom, by omega⟩
    · rintro (⟨ht, hfits, hfrom, hto⟩ | ⟨ht, hfits, hfrom, hto⟩)
      · exact ⟨ht, hfits, by omega, hto⟩
      · exact ⟨ht, hfits, hfrom, by omega⟩

/-- What the endpoint answers. -/
theorem alone_listTransactions [Collation] (env : Env) (n : Nat) (now : Int) :
    (route env n userId (.listTransactions filters)).alone engine now db db =
      (.ok (.page
        { items := (listTransactions db userId filters).1.map transactionResponse
          total := (listTransactions db userId filters).2 }), db) := rfl

theorem LedgerOk.paged {env : Env} {w : LedgerWorld} (h : LedgerOk env w) (userId : Nat)
    (filters : TransactionFilters) : Paged w.db userId filters := by
  have hcount : ∀ filters, countTransactions w.db userId filters ≤ 2 ^ 63 - 1 := by
    intro filters
    have hle := countTransactions_le w.db userId filters
    have hrows := h.count_le
    have : maxRowId + 1 ≤ 2 ^ 63 - 1 := by decide
    omega
  have hpages : ∀ filters, pagesFrom w.db userId filters 0 = matching w.db userId filters := by
    intro filters
    rw [pagesFrom_eq (hcount filters), Nat.zero_mul, List.drop_zero]
  constructor
  · intro t
    rw [hpages, mem_matching]
  · rw [hpages]
    exact matching_descending
  · intro k hk
    rw [hpages, length_matching]
    rfl
  · intro a b c hab hbc
    rw [hpages, hpages, hpages, matching_tiles hab hbc]

end Pages

/-- **Paging is a partition**, in every state of every interleaving. -/
theorem paging_partitions [Collation] {env : Env} {s : LedgerSystem}
    (h : Run engine (handle env) anyStep { world := initialWorld } s) (userId : Nat)
    (filters : TransactionFilters) : Paged s.world.db userId filters :=
  (ledger_run (initial_ledger env) rfl h).inv.1.paged userId filters

theorem three_rows_paged : ∃ (_ : Collation) (s : LedgerSystem) (filters : TransactionFilters),
    runList engine (handle .counting) { world := initialWorld } exchanged = some s ∧
    filters.limit = 1 ∧ s.world.db.transactions.rows.length = 3 ∧
      Paged s.world.db 1 filters := by
  let _ : Collation := Collation.codePoints
  have hrun : (runList engine (handle .counting) { world := initialWorld } exchanged).any
      (fun s => decide (s.world.db.transactions.rows.length = 3)) = true := by
    decide +kernel
  obtain ⟨s, hlist, hs, hp⟩ := exists_run hrun
  let filters : TransactionFilters :=
    { limit := 1, limit_pos := Nat.le_refl 1, limit_le := by decide, offset_le := Nat.zero_le _ }
  exact ⟨Collation.codePoints, s, filters, hlist, rfl, of_decide_eq_true hp,
    paging_partitions hs 1 filters⟩

end Tradinghub.Ledger
