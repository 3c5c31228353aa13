import Tradinghub.Ledger.Serial
import Tradinghub.Ledger.Signs
import Tradinghub.Ledger.Transfers

/-!
# The sign convention, one request at a time

What breaks it under concurrency, a PATCH between another's SELECT and UPDATE, cannot happen: the row
an UPDATE takes is the row its request has loaded.  So every state that requests served one at a
time can leave has the convention (`serial_signed`).
-/

namespace Tradinghub.Ledger

open ReadCommitted Store

variable [Collation] {env : Env} {n userId : Nat} {now : Int} {db : Db}

omit [Collation] in
theorem settle_snd (result : Except DbError Db) (failure : DbError → Failure) (a : Response) :
    (settle result failure a db).2 = db ∨
      ∃ db', result = .ok db' ∧ (settle result failure a db).2 = db' := by
  cases result with
  | ok db' => exact Or.inr ⟨db', rfl, rfl⟩
  | error d => exact Or.inl rfl

theorem whole_eq {q : Stmt} {db' : Db} (h : q.whole db = .ok db') :
    ∃ ws, (q.plan db).1.finish (q.plan db).2 db = .ok ws ∧ db' = engine.applyAll ws db := by
  unfold Stmt.whole at h
  cases hf : (q.plan db).1.finish (q.plan db).2 db with
  | error d => rw [hf] at h; cases h
  | ok ws =>
    rw [hf] at h
    exact ⟨ws, rfl, (Except.ok.inj h).symm⟩

theorem whole_insertTransactions {rows : List Transaction} {db' : Db}
    (h : (Stmt.insertTransactions rows).whole db = .ok db') :
    db' = insertAll rows db ∧ ∀ t ∈ rows, fitsNumeric t.amount = true := by
  obtain ⟨ws, hws, rfl⟩ := whole_eq h
  obtain ⟨rfl, -, hfits, -⟩ := insertTransactions_finish hws
  exact ⟨applyAll_inserts rows db, hfits⟩

omit [Collation] in
/-- Written onto the row it was computed from, an update is what the service made of the row. -/
theorem between_apply (loaded : Transaction) (changes : TransactionUpdate) :
    (TransactionChange.between loaded (applyTransactionUpdate loaded changes)).apply loaded =
      applyTransactionUpdate loaded changes := by
  have hcolumn : ∀ {α : Type} [DecidableEq α] (l c : α), (changed l c).getD l = c := by
    intro α _ l c
    rw [changed_getD]
    split
    · next h => exact h
    · rfl
  simp only [TransactionChange.apply, TransactionChange.between, hcolumn]
  rfl

theorem whole_updateTransaction {loaded : Transaction} {changes : TransactionUpdate} {db' : Db}
    (hloaded : loaded ∈ db.transactions)
    (h : (Stmt.updateTransaction loaded (applyTransactionUpdate loaded changes)).whole db =
      .ok db') :
    db' = { db with transactions := db.transactions.put (applyTransactionUpdate loaded changes) } ∧
      (loaded.amount = (applyTransactionUpdate loaded changes).amount ∨
        fitsNumeric (applyTransactionUpdate loaded changes).amount = true) := by
  obtain ⟨ws, hws, rfl⟩ := whole_eq h
  obtain ⟨rfl, -, hfits⟩ := updateTransaction_finish hws
  refine ⟨Eq.trans (apply_updateTransaction hloaded _) ?_, hfits⟩
  rw [between_apply]

theorem whole_insertAccount {row : Account} {db' : Db}
    (h : (Stmt.insertAccount row).whole db = .ok db') : db'.transactions = db.transactions := by
  obtain ⟨ws, hws, rfl⟩ := whole_eq h
  rw [(insertAccount_finish hws).1]
  rfl

theorem whole_updateAccount {loaded current : Account} {db' : Db} (hloaded : loaded ∈ db.accounts)
    (h : (Stmt.updateAccount loaded current).whole db = .ok db') :
    db'.transactions = db.transactions := by
  obtain ⟨ws, hws, rfl⟩ := whole_eq h
  rw [(updateAccount_finish hws).1]
  have happly : engine.applyAll [.updateAccount loaded.id (.between loaded current)] db =
      { db with accounts := db.accounts.put ((AccountChange.between loaded current).apply loaded) } :=
    apply_updateAccount hloaded _
  rw [happly]

theorem whole_deleteTransaction {transactionId : Nat} {db' : Db}
    (h : (Stmt.deleteTransaction userId transactionId).whole db = .ok db') :
    ∀ t ∈ db'.transactions, t ∈ db.transactions := by
  obtain ⟨ws, hws, rfl⟩ := whole_eq h
  rw [applyAll_deletes _ _ _ _ hws]
  exact fun t ht => (Table.mem_filter.1 ht).1

/-- Where a row comes from that is there after request `n`, served alone. -/
inductive Wrote (env : Env) (n userId : Nat) (db : Db) : Transaction → Prop
  | kept {t : Transaction} (ht : t ∈ db.transactions) : Wrote env n userId db t
  | created (details : TransactionCreate)
      (hfits : fitsNumeric (newTransaction env n userId details).amount = true) :
      Wrote env n userId db (newTransaction env n userId details)
  | transferred {t : Transaction} (details : TransferCreate)
      (ht : t ∈ transferRows env n userId details) (hfits : fitsNumeric t.amount = true) :
      Wrote env n userId db t
  | updated {loaded : Transaction} (changes : TransactionUpdate)
      (hloaded : loaded ∈ db.transactions) (hgroup : loaded.transferGroupId = none)
      (hfits : loaded.amount = (applyTransactionUpdate loaded changes).amount ∨
        fitsNumeric (applyTransactionUpdate loaded changes).amount = true) :
      Wrote env n userId db (applyTransactionUpdate loaded changes)

/-- With nobody in between, the row an UPDATE takes is the row that was loaded. -/
theorem respond_wrote (endpoint : Endpoint) :
    ∀ t ∈ (respond env n userId now db endpoint).2.transactions, Wrote env n userId db t := by
  have hsettled : ∀ {result : Except DbError Db} {failure : DbError → Failure} {a : Response},
      (∀ db', result = .ok db' → ∀ t ∈ db'.transactions, Wrote env n userId db t) →
      ∀ t ∈ (settle result failure a db).2.transactions, Wrote env n userId db t := by
    intro result failure a hok
    rcases settle_snd result failure a with heq | ⟨db', hres, heq⟩ <;> rw [heq]
    · exact fun t ht => .kept ht
    · exact hok db' hres
  cases endpoint with
  | createAccount payload =>
    refine hsettled fun db' hres t ht => .kept ?_
    rwa [whole_insertAccount hres] at ht
  | updateAccount accountId payload =>
    simp only [respond]
    cases hfound : getAccountWithBalance db accountId.val userId with
    | none => exact fun t ht => .kept ht
    | some found =>
      by_cases hsame : found.account = updatedAccount now found.account payload
      · simp only [if_pos hsame]
        exact fun t ht => .kept ht
      · simp only [if_neg hsame]
        refine hsettled fun db' hres t ht => .kept ?_
        rwa [whole_updateAccount (mem_of_getAccountWithBalance hfound).1 hres] at ht
  | createTransaction payload =>
    simp only [respond]
    cases getAccount db payload.accountId.val userId with
    | none => exact fun t ht => .kept ht
    | some found =>
      refine hsettled fun db' hres t ht => ?_
      obtain ⟨rfl, hfits⟩ := whole_insertTransactions hres
      rcases (mem_insertAll (by simp)).1 ht with hnew | ⟨hold, -⟩
      · rw [List.mem_singleton.1 hnew]
        exact .created payload (hfits _ List.mem_cons_self)
      · exact .kept hold
  | updateTransaction transactionId payload =>
    simp only [respond]
    cases hfound : getTransaction db transactionId.val userId with
    | none => exact fun t ht => .kept ht
    | some loaded =>
      obtain ⟨hloaded, -, -⟩ := getTransaction_eq_some.1 hfound
      by_cases hgroup : loaded.transferGroupId.isSome = true
      · simp only [if_pos hgroup]
        exact fun t ht => .kept ht
      · simp only [if_neg hgroup]
        rw [Option.not_isSome_iff_eq_none] at hgroup
        by_cases hsame : loaded = applyTransactionUpdate loaded payload
        · simp only [if_pos hsame]
          exact fun t ht => .kept ht
        · simp only [if_neg hsame]
          refine hsettled fun db' hres t ht => ?_
          obtain ⟨rfl, hfits⟩ := whole_updateTransaction hloaded hres
          rcases Table.mem_put.1 ht with rfl | ⟨hold, -⟩
          · exact .updated payload hloaded hgroup hfits
          · exact .kept hold
  | deleteTransaction transactionId =>
    simp only [respond]
    split
    · exact fun t ht => .kept ht
    · exact hsettled fun db' hres t ht => .kept (whole_deleteTransaction hres t ht)
  | createTransfer payload =>
    simp only [respond]
    split
    · exact fun t ht => .kept ht
    · split
      · exact fun t ht => .kept ht
      · split
        · exact fun t ht => .kept ht
        · refine hsettled fun db' hres t ht => ?_
          obtain ⟨rfl, hfits⟩ := whole_insertTransactions hres
          rcases (mem_insertAll (transferRows_nodup _ _ _ _)).1 ht with hnew | ⟨hold, -⟩
          · exact .transferred payload hnew (hfits t hnew)
          · exact .kept hold
  | getAccount accountId =>
    simp only [respond]
    split <;> exact fun t ht => .kept ht
  | getTransaction transactionId =>
    simp only [respond]
    split <;> exact fun t ht => .kept ht
  | listAccounts => exact fun t ht => .kept ht
  | listTransactions filters => exact fun t ht => .kept ht
  | getSummary period => exact fun t ht => .kept ht

omit [Collation] in
theorem Wrote.signed (hsigned : Signed db)
    (hgrouped : ∀ t ∈ db.transactions, t.kind = .transfer → t.transferGroupId ≠ none)
    {t : Transaction} (h : Wrote env n userId db t) : SignOk t := by
  cases h with
  | kept ht => exact hsigned t ht
  | created details => exact signed_ok details.amount.pos details.kind rfl rfl
  | transferred details ht => exact transferRows_sign _ _ _ _ t ht
  | @updated loaded changes hloaded hgroup =>
    exact ((hsigned loaded hloaded).applyTransactionUpdate
      (fun hkind => hgrouped loaded hloaded hkind hgroup) changes).1

theorem serial_signed {w : LedgerWorld} (h : Serial engine (handle env) initialWorld w) :
    Signed w.db := by
  induction h with
  | refl => exact fun t ht => absurd ht (Table.not_mem_empty t)
  | serve req h ih =>
    rw [serve_eq]
    exact fun t ht => (respond_wrote req.endpoint t ht).signed ih (transfers_run (serial_run h)).grouped
  | tick d _ ih => exact ih

/-- Every stored amount is one the column can hold. -/
theorem serial_fits {w : LedgerWorld} (h : Serial engine (handle env) initialWorld w) :
    ∀ t ∈ w.db.transactions, fitsNumeric t.amount = true := by
  induction h with
  | refl => exact fun t ht => absurd ht (Table.not_mem_empty t)
  | serve req _ ih =>
    rw [serve_eq]
    intro t ht
    cases respond_wrote req.endpoint t ht with
    | kept ht => exact ih t ht
    | created details hfits => exact hfits
    | transferred details _ hfits => exact hfits
    | @updated loaded changes hloaded _ hfits =>
      rcases hfits with hsame | hfits
      · rw [← hsame]
        exact ih loaded hloaded
      · exact hfits
  | tick d _ ih => exact ih

end Tradinghub.Ledger
