import Tradinghub.Ledger.Ownership
import Tradinghub.Ledger.Transfers

/-!
# Every way of reading a balance agrees

The accounts list, the single account, the pages of the account's transactions and the totals per
unit are four queries of their own.  In every state the ledger can reach they come to the same sums
(`balances_agree`): the joins find exactly the transactions of an account, the foreign key makes the
user's filter on transactions drop none of them, and the pages are the whole list cut up.
-/

namespace Tradinghub.Ledger

open ReadCommitted Store

/-! ## Pages -/

/-- The filters of page `k`, if OFFSET can hold where it begins. -/
def TransactionFilters.page (filters : TransactionFilters) (k : Nat) : Option TransactionFilters :=
  if h : k * filters.limit ≤ 2 ^ 63 - 1 then
    some { filters with offset := k * filters.limit, offset_le := h }
  else none

/-- What the list returns page after page, as many as its total asks for. -/
def allPages (db : Db) (userId : Nat) (filters : TransactionFilters) : List Transaction :=
  (List.range (countTransactions db userId filters / filters.limit + 1)).flatMap fun k =>
    ((filters.page k).map (pageTransactions db userId)).getD []

/-- Only the account is filtered. -/
def onAccount (accountId : RowId) (limit : Nat) (limit_pos : 1 ≤ limit) (limit_le : limit ≤ 200) :
    TransactionFilters where
  accountId := some accountId
  limit := limit
  limit_pos := limit_pos
  limit_le := limit_le
  offset_le := Nat.zero_le _

section Pages

variable {env : Env} {w : LedgerWorld} {db : Db} {userId : Nat}

/-- There are no more rows than ids. -/
theorem LedgerOk.count_le (h : LedgerOk env w) : w.db.transactions.rows.length ≤ maxRowId + 1 := by
  have hsub : w.db.transactions.rows.map Transaction.id ⊆ List.range (maxRowId + 1) := by
    intro id hid
    obtain ⟨t, ht, rfl⟩ := List.mem_map.1 hid
    exact List.mem_range.2 (Nat.lt_succ_of_le (h.transactionIds t ht).1)
  have hperm := List.subperm_of_subset w.db.transactions.nodup_keys hsub
  simpa using hperm.length_le

theorem countTransactions_le (db : Db) (userId : Nat) (filters : TransactionFilters) :
    countTransactions db userId filters ≤ db.transactions.rows.length :=
  List.length_filter_le _ _

/-- The pages are the whole list. -/
theorem allPages_eq {filters : TransactionFilters}
    (hcount : countTransactions db userId filters ≤ 2 ^ 63 - 1) :
    allPages db userId filters =
      Sql.orderBy newestFirst (db.transactions.rows.filter (filters.matches userId)) := by
  obtain ⟨total, htotal⟩ : ∃ total, countTransactions db userId filters = total := ⟨_, rfl⟩
  have hlength : (Sql.orderBy newestFirst
      (db.transactions.rows.filter (filters.matches userId))).length = total := by
    rw [(Sql.orderBy_perm _ _).length_eq, ← htotal]
    rfl
  have hpage : ∀ k ∈ List.range (total / filters.limit + 1),
      ((filters.page k).map (pageTransactions db userId)).getD [] =
        Sql.page filters.limit (k * filters.limit) (Sql.orderBy newestFirst
          (db.transactions.rows.filter (filters.matches userId))) := by
    intro k hk
    have hle : k * filters.limit ≤ total :=
      (Nat.le_div_iff_mul_le filters.limit_pos).1 (Nat.lt_succ_iff.1 (List.mem_range.1 hk))
    have hoffset : k * filters.limit ≤ 2 ^ 63 - 1 := by omega
    rw [TransactionFilters.page, dif_pos hoffset]
    rfl
  unfold allPages
  rw [htotal, List.flatMap_def, List.map_congr_left hpage, ← List.flatMap_def]
  refine Sql.pages_all ?_
  rw [hlength]
  have := Nat.lt_mul_div_succ total filters.limit_pos
  rw [Nat.mul_comm] at this
  exact Nat.le_of_lt this

theorem allPages_sum {filters : TransactionFilters}
    (hcount : db.transactions.rows.length ≤ maxRowId + 1) :
    ((allPages db userId filters).map Transaction.amount).sum =
      ((db.transactions.rows.filter (filters.matches userId)).map Transaction.amount).sum := by
  have hle := countTransactions_le db userId filters
  have hfits : countTransactions db userId filters ≤ 2 ^ 63 - 1 := by
    have : maxRowId + 1 ≤ 2 ^ 63 - 1 := by decide
    omega
  rw [allPages_eq hfits]
  exact ((Sql.orderBy_perm _ _).map _).sum_eq

end Pages

/-! ## Balances -/

section Balances

variable {env : Env} {w : LedgerWorld} {db : Db} {userId : Nat}

theorem ForeignKey.onAccount_matches (hfk : ForeignKey db) {a : Account} (ha : a ∈ db.accounts)
    (huser : a.userId = userId) {accountId : RowId} (hid : accountId.val = a.id) {limit : Nat}
    (limit_pos : 1 ≤ limit) (limit_le : limit ≤ 200) :
    db.transactions.rows.filter ((onAccount accountId limit limit_pos limit_le).matches userId) =
      db.transactions.rows.filter fun t => t.accountId = a.id := by
  refine List.filter_congr fun t ht => ?_
  rw [Bool.eq_iff_iff, decide_eq_true_eq]
  simp only [TransactionFilters.matches, onAccount, unlessSent, Option.all_some, Option.all_none,
    Bool.and_true, Bool.and_eq_true, decide_eq_true_eq, hid]
  constructor
  · exact fun h => h.2
  · exact fun h => ⟨(hfk.owner ht ha h.symm).symm.trans huser, h⟩

variable [Collation]

theorem listAccountsWithBalances_perm (db : Db) (userId : Nat) :
    (listAccountsWithBalances db userId).Perm
      ((db.accounts.rows.filter fun a => a.userId = userId).map fun a =>
        { account := a, balance := balance db a.id }) := by
  unfold listAccountsWithBalances
  rw [accountsWithBalances_eq]
  exact Sql.orderBy_perm _ _

theorem mem_listAccountsWithBalances {r : AccountWithBalance} :
    r ∈ listAccountsWithBalances db userId ↔
      r.account ∈ db.accounts ∧ r.account.userId = userId ∧ r.balance = balance db r.account.id := by
  rw [(listAccountsWithBalances_perm db userId).mem_iff, List.mem_map]
  constructor
  · rintro ⟨a, ha, rfl⟩
    obtain ⟨ha, huser⟩ := List.mem_filter.1 ha
    exact ⟨ha, of_decide_eq_true huser, rfl⟩
  · rintro ⟨ha, huser, hbalance⟩
    refine ⟨r.account, List.mem_filter.2 ⟨ha, decide_eq_true huser⟩, ?_⟩
    rw [← hbalance]

omit [Collation] in
theorem getAccountWithBalance_eq {a : Account} (ha : a ∈ db.accounts) (huser : a.userId = userId) :
    getAccountWithBalance db a.id userId = some { account := a, balance := balance db a.id } := by
  have hone : (db.accounts.rows.filter fun b => b.userId = userId ∧ b.id = a.id) = [a] := by
    refine List.perm_singleton.1 ((List.perm_ext_iff_of_nodup (db.accounts.nodup.filter _)
      (List.nodup_singleton a)).2 fun b => ?_)
    rw [List.mem_filter, List.mem_singleton, decide_eq_true_eq]
    constructor
    · rintro ⟨hb, -, hid⟩
      exact db.accounts.eq_of_key hb ha hid
    · rintro rfl
      exact ⟨ha, huser, rfl⟩
  unfold getAccountWithBalance
  rw [accountsWithBalances_eq, hone]
  rfl

/-- The user's accounts in the unit. -/
def inUnit (db : Db) (userId : Nat) (unit : String) : List Account :=
  db.accounts.rows.filter fun a => a.userId = userId ∧ a.unit = unit

/-- A total per unit: of a unit that occurs, the balances of the accounts in it. -/
theorem mem_getBalancesPerUnit {u : UnitTotal} :
    u ∈ getBalancesPerUnit db userId ↔ inUnit db userId u.unit ≠ [] ∧
      u.amount = ((inUnit db userId u.unit).map fun a => balance db a.id).sum := by
  have hfilter : ∀ unit, (db.accounts.rows.filter fun a => decide (a.userId = userId)).filter
      (fun a => a.unit = unit) = inUnit db userId unit := by
    intro unit
    rw [List.filter_filter]
    refine List.filter_congr fun a _ => ?_
    rw [Bool.eq_iff_iff, Bool.and_eq_true, decide_eq_true_eq, decide_eq_true_eq, decide_eq_true_eq]
    exact and_comm
  let on : Account → Transaction → Bool := fun a t => a.id = t.accountId
  have hsum : ∀ unit, (((Sql.leftJoin on (db.accounts.rows.filter fun a => a.userId = userId)
      db.transactions.rows).filter fun r => r.1.unit = unit).filterMap
        fun r => r.2.map Transaction.amount).sum =
      ((inUnit db userId unit).map fun a => balance db a.id).sum := by
    intro unit
    rw [Sql.leftJoin_filter_left on (fun a => decide (a.unit = unit)), Sql.leftJoin_sum, hfilter]
    refine congrArg List.sum (List.map_congr_left fun a _ => ?_)
    have hfits : db.transactions.rows.filter (on a) =
        db.transactions.rows.filter fun t => t.accountId = a.id :=
      List.filter_congr fun t _ => decide_eq_decide.2 eq_comm
    rw [hfits]
    rfl
  have hkeys : ∀ unit, (∃ r ∈ Sql.leftJoin on
      (db.accounts.rows.filter fun a => a.userId = userId) db.transactions.rows,
        r.1.unit = unit) ↔ inUnit db userId unit ≠ [] := by
    intro unit
    rw [← hfilter unit]
    constructor
    · rintro ⟨r, hr, hunit⟩
      have ha := (Sql.leftJoin_keys on _ _ r.1).1 ⟨r, hr, rfl⟩
      exact List.ne_nil_of_mem (List.mem_filter.2 ⟨ha, decide_eq_true hunit⟩)
    · intro hne
      obtain ⟨a, ha⟩ := List.exists_mem_of_ne_nil _ hne
      obtain ⟨ha, hunit⟩ := List.mem_filter.1 ha
      obtain ⟨r, hr, rfl⟩ := (Sql.leftJoin_keys on _ db.transactions.rows a).2 ha
      exact ⟨r, hr, of_decide_eq_true hunit⟩
  unfold getBalancesPerUnit
  rw [Sql.mem_orderBy, Sql.leftJoin_filter_left on (fun a => decide (a.userId = userId)),
    List.mem_map]
  constructor
  · rintro ⟨g, hg, rfl⟩
    obtain ⟨hkey, hrows⟩ := Sql.mem_groupBy.1 hg
    refine ⟨(hkeys g.1).1 hkey, ?_⟩
    show Sql.coalesce (Sql.sum (g.2.map fun r => r.2.map Transaction.amount)) 0 = _
    rw [Sql.coalesce_sum, List.filterMap_map, ← hsum g.1, hrows]
    rfl
  · rintro ⟨hne, hamount⟩
    refine ⟨_, Sql.group_mem ((hkeys u.unit).2 hne), ?_⟩
    rw [Sql.coalesce_sum, List.filterMap_map]
    refine congrArg (UnitTotal.mk u.unit) (Eq.trans ?_ hamount.symm)
    exact hsum u.unit

theorem getBalancesPerUnit_ascending (db : Db) (userId : Nat) :
    (getBalancesPerUnit db userId).Pairwise
      fun u u' => Collation.le u.unit u'.unit = true ∧ u.unit ≠ u'.unit := by
  refine Sql.orderBy_ascending (fun u v w => Collation.le_trans u.unit v.unit w.unit)
    (fun u v => Collation.le_total u.unit v.unit) ?_
  rw [List.map_map]
  exact Sql.nodup_groupBy_keys _ _

/-- The four ways of reading a balance, at one state. -/
structure BalancesAgree (db : Db) (userId : Nat) : Prop where
  /-- the list has each of the user's accounts once -/
  listed : ((listAccountsWithBalances db userId).map AccountWithBalance.account).Perm
    (db.accounts.rows.filter fun a => a.userId = userId)
  single : ∀ r ∈ listAccountsWithBalances db userId,
    getAccountWithBalance db r.account.id userId = some r
  paged : ∀ r ∈ listAccountsWithBalances db userId, ∃ accountId : RowId,
    accountId.val = r.account.id ∧
    ∀ (limit : Nat) (limit_pos : 1 ≤ limit) (limit_le : limit ≤ 200),
      ((allPages db userId (onAccount accountId limit limit_pos limit_le)).map
        Transaction.amount).sum = r.balance
  units : ∀ unit, unit ∈ (getBalancesPerUnit db userId).map UnitTotal.unit ↔
    ∃ a ∈ db.accounts, a.userId = userId ∧ a.unit = unit
  ascending : (getBalancesPerUnit db userId).Pairwise
    fun u u' => Collation.le u.unit u'.unit = true ∧ u.unit ≠ u'.unit
  totals : ∀ u ∈ getBalancesPerUnit db userId, u.amount =
    (((listAccountsWithBalances db userId).filter fun r => r.account.unit = u.unit).map
      AccountWithBalance.balance).sum
  untouched : ∀ u ∈ getBalancesPerUnit db userId,
    (∀ t ∈ db.transactions, ∀ a ∈ inUnit db userId u.unit, t.accountId ≠ a.id) → u.amount = 0

theorem LedgerOk.balancesAgree (h : LedgerOk env w) (userId : Nat) :
    BalancesAgree w.db userId where
  listed := by
    refine ((listAccountsWithBalances_perm w.db userId).map _).trans ?_
    rw [List.map_map]
    exact List.Perm.of_eq (List.map_id _)
  single r hr := by
    obtain ⟨ha, huser, hbalance⟩ := mem_listAccountsWithBalances.1 hr
    rw [getAccountWithBalance_eq ha huser, ← hbalance]
  paged r hr := by
    obtain ⟨ha, huser, hbalance⟩ := mem_listAccountsWithBalances.1 hr
    obtain ⟨hpos, hle, -⟩ := h.accountIds r.account ha
    refine ⟨⟨r.account.id, hpos, hle⟩, rfl, fun limit limit_pos limit_le => ?_⟩
    rw [allPages_sum h.count_le, ForeignKey.onAccount_matches h.fk ha huser rfl, hbalance]
    rfl
  units unit := by
    rw [List.mem_map]
    constructor
    · rintro ⟨u, hu, rfl⟩
      obtain ⟨a, ha⟩ := List.exists_mem_of_ne_nil _ (mem_getBalancesPerUnit.1 hu).1
      obtain ⟨ha, hcond⟩ := List.mem_filter.1 ha
      exact ⟨a, ha, of_decide_eq_true hcond⟩
    · rintro ⟨a, ha, hcond⟩
      refine ⟨⟨unit, ((inUnit w.db userId unit).map fun a => balance w.db a.id).sum⟩,
        mem_getBalancesPerUnit.2 ⟨?_, rfl⟩, rfl⟩
      exact List.ne_nil_of_mem (List.mem_filter.2 ⟨ha, decide_eq_true hcond⟩)
  ascending := getBalancesPerUnit_ascending w.db userId
  totals u hu := by
    obtain ⟨-, hamount⟩ := mem_getBalancesPerUnit.1 hu
    rw [hamount]
    have hperm := ((listAccountsWithBalances_perm w.db userId).filter
      fun r => decide (r.account.unit = u.unit)).map AccountWithBalance.balance
    rw [hperm.sum_eq, List.filter_map, List.map_map, List.filter_filter]
    have hfilter : inUnit w.db userId u.unit = w.db.accounts.rows.filter fun a =>
        ((fun r : AccountWithBalance => decide (r.account.unit = u.unit)) ∘
          fun a => { account := a, balance := balance w.db a.id }) a && decide (a.userId = userId) := by
      refine List.filter_congr fun a _ => ?_
      rw [Bool.eq_iff_iff, Bool.and_eq_true, decide_eq_true_eq]
      exact and_comm.trans (and_congr_left' decide_eq_true_iff.symm |>.trans
        (and_congr_right' decide_eq_true_iff.symm))
    rw [hfilter]
    rfl
  untouched u hu hnone := by
    rw [(mem_getBalancesPerUnit.1 hu).2]
    refine List.sum_eq_zero fun x hx => ?_
    obtain ⟨a, ha, rfl⟩ := List.mem_map.1 hx
    have hnil : (w.db.transactions.rows.filter fun t => t.accountId = a.id) = [] :=
      List.filter_eq_nil_iff.2 fun t ht heq => hnone t ht a ha (of_decide_eq_true heq)
    rw [balance, hnil]
    rfl

end Balances

/-- **Every way of reading a balance agrees**, in every state of every interleaving. -/
theorem balances_agree [Collation] {env : Env} {s : LedgerSystem}
    (h : Run engine (handle env) anyStep { world := initialWorld } s) (userId : Nat) :
    BalancesAgree s.world.db userId :=
  (ledger_run (initial_ledger env) rfl h).inv.1.balancesAgree userId

theorem transfer_balances_agree : ∃ (_ : Collation) (s : LedgerSystem),
    runList engine (handle .counting) { world := initialWorld } exchanged = some s ∧
    s.world.db.transactions.rows.length = 3 ∧ BalancesAgree s.world.db 1 := by
  let _ : Collation := Collation.codePoints
  have hrun : (runList engine (handle .counting) { world := initialWorld } exchanged).any
      (fun s => decide (s.world.db.transactions.rows.length = 3)) = true := by
    decide +kernel
  obtain ⟨s, hlist, hs, hp⟩ := exists_run hrun
  exact ⟨Collation.codePoints, s, hlist, of_decide_eq_true hp, balances_agree hs 1⟩

end Tradinghub.Ledger
