import Tradinghub.Ledger.Services

/-!
# What a ledger request may commit

`Effect env g n db db'` lists everything the commit of request `n` can do to the committed rows: one
constructor for each thing an endpoint writes.  `LedgerOk` is what the tables always satisfy: the
composite foreign key, and no id or group that will be handed out again.
Every claim about all runs is a case analysis over `Effect`; that the endpoints commit nothing else
is shown in `Ledger.Discipline`.
-/

namespace Tradinghub.Ledger

open ReadCommitted Store

/-- What is known of the runs looked at: `kept` holds of every committed state, `read n req`
of the rows that request `n`, which is `req`, reads in a query, `touch` of the row loaded, what is flushed and the newest version
when an UPDATE takes its row. -/
structure Setting where
  kept : Db → Prop := fun _ => True
  read : Nat → Request → Db → Prop := fun _ _ _ => True
  touch : Transaction → Transaction → Transaction → Prop := fun _ _ _ => True

/-- The columns no UPDATE writes. -/
structure SameRow (t t' : Transaction) : Prop where
  id : t'.id = t.id
  userId : t'.userId = t.userId
  accountId : t'.accountId = t.accountId
  group : t'.transferGroupId = t.transferGroupId

theorem SameRow.refl (t : Transaction) : SameRow t t := ⟨rfl, rfl, rfl, rfl⟩

theorem SameRow.apply (change : TransactionChange) (t : Transaction) :
    SameRow t (change.apply t) := ⟨rfl, rfl, rfl, rfl⟩

theorem SameRow.trans {t t' t'' : Transaction} (h : SameRow t t') (h' : SameRow t' t'') :
    SameRow t t'' :=
  ⟨h'.id.trans h.id, h'.userId.trans h.userId, h'.accountId.trans h.accountId,
    h'.group.trans h.group⟩

/-- The checks of `create_transfer`, on the rows it read. -/
def TransferAllowed (db : Db) (userId : Nat) (details : TransferCreate) : Prop :=
  let accounts := getAccounts db details.accountIds userId
  details.fromAccountId.val ≠ details.toAccountId.val ∧
    accounts.length = details.accountIds.length ∧
    (sameUnit accounts details = true → details.amountSent.units = details.amountReceived.units)

/-- Rows added one by one. -/
def insertAll (rows : List Transaction) (db : Db) : Db :=
  { db with transactions := rows.foldl Table.put db.transactions }

inductive Effect (env : Env) (g : Setting) (n : Nat) : Db → Db → Prop
  | nothing (db : Db) : Effect env g n db db
  | accountCreated {db : Db} {a : Account} (hid : a.id = env.accountId n)
      (hle : a.id ≤ maxRowId) :
      Effect env g n db { db with accounts := db.accounts.put a }
  | accountPatched {db : Db} {a : Account} (ha : a ∈ db.accounts) (change : AccountChange) :
      Effect env g n db { db with accounts := db.accounts.put (change.apply a) }
  | transactionCreated {db : Db} (userId : Nat) (details : TransactionCreate)
      (hle : env.transactionId n 0 ≤ maxRowId)
      (haccount : accountExists (newTransaction env n userId details) db = true) :
      Effect env g n db (insertAll [newTransaction env n userId details] db)
  | transactionPatched {db db₀ : Db} {loaded t : Transaction} (changes : TransactionUpdate)
      (hkept : g.kept db₀) (hread : loaded ∈ db₀.transactions) (ht : t ∈ db.transactions)
      (hsame : SameRow loaded t) (hgroup : loaded.transferGroupId = none)
      (htouch : g.touch loaded (applyTransactionUpdate loaded changes) t) :
      Effect env g n db { db with
        transactions := db.transactions.put
          ((TransactionChange.between loaded (applyTransactionUpdate loaded changes)).apply t) }
  | transferCreated {db db₀ : Db} (userId : Nat) (details : TransferCreate)
      (hread : g.read n ⟨userId, .createTransfer details⟩ db₀)
      (hallowed : TransferAllowed db₀ userId details)
      (hle : ∀ t ∈ transferRows env n userId details, t.id ≤ maxRowId)
      (haccounts : ∀ t ∈ transferRows env n userId details, accountExists t db = true) :
      Effect env g n db (insertAll (transferRows env n userId details) db)
  | deleted {db : Db} {userId transactionId : Nat} {targetGroup : Option Nat}
      (htarget : ∀ t ∈ db.transactions, t.id = transactionId → t.userId = userId →
        t.transferGroupId = targetGroup) :
      Effect env g n db { db with
        transactions := db.transactions.filter fun t =>
          !deleteMatches userId transactionId targetGroup t }

structure LedgerOk (env : Env) (w : LedgerWorld) : Prop where
  /-- the composite foreign key -/
  fk : ∀ t ∈ w.db.transactions, ∃ a ∈ w.db.accounts, a.id = t.accountId ∧ a.userId = t.userId
  /-- the database and `uuid4` hand out nothing that is in use -/
  accountIds : ∀ a ∈ w.db.accounts, 1 ≤ a.id ∧ a.id ≤ maxRowId ∧
    ∀ k, w.Unanswered k → a.id ≠ env.accountId k
  transactionIds : ∀ t ∈ w.db.transactions, t.id ≤ maxRowId ∧
    ∀ k, w.Unanswered k → ∀ i, t.id ≠ env.transactionId k i
  groups : ∀ t ∈ w.db.transactions, ∀ k, w.Unanswered k →
    t.transferGroupId ≠ some (env.uuid4 k)

/-! ## Rows before and after -/

section Rows

variable {env : Env} {g : Setting} {n : Nat} {db db' : Db}

theorem mem_insertAll {rows : List Transaction} (hnodup : (rows.map Transaction.id).Nodup)
    {t : Transaction} :
    t ∈ (insertAll rows db).transactions ↔
      t ∈ rows ∨ (t ∈ db.transactions ∧ t.id ∉ rows.map Transaction.id) := by
  unfold insertAll
  show t ∈ rows.foldl Table.put db.transactions ↔ _
  generalize db.transactions = table
  induction rows generalizing table with
  | nil => simp
  | cons r rows ih =>
    obtain ⟨hr, hnodup⟩ := List.nodup_cons.1 hnodup
    rw [List.foldl_cons, ih hnodup, Table.mem_put, List.map_cons, List.mem_cons, List.mem_cons,
      not_or]
    have hkey : ∀ s : Transaction, Keyed.key s = s.id := fun _ => rfl
    constructor
    · rintro (h | ⟨rfl | ⟨h, hne⟩, hid⟩)
      · exact Or.inl (Or.inr h)
      · exact Or.inl (Or.inl rfl)
      · exact Or.inr ⟨h, hne, hid⟩
    · rintro ((rfl | h) | ⟨h, hne, hid⟩)
      · exact Or.inr ⟨Or.inl rfl, hr⟩
      · exact Or.inl h
      · exact Or.inr ⟨Or.inr ⟨h, hne⟩, hid⟩

theorem transferRows_ids (env : Env) (n userId : Nat) (details : TransferCreate) :
    ∀ t ∈ transferRows env n userId details, ∃ i, t.id = env.transactionId n i := by
  intro t ht
  unfold transferRows at ht
  simp only [List.cons_append, List.nil_append, List.mem_cons] at ht
  rcases ht with rfl | rfl | ht
  · exact ⟨0, rfl⟩
  · exact ⟨1, rfl⟩
  · split at ht
    · rw [List.mem_singleton.1 ht]
      exact ⟨2, rfl⟩
    · cases ht

theorem transferRows_nodup (env : Env) (n userId : Nat) (details : TransferCreate) :
    ((transferRows env n userId details).map Transaction.id).Nodup := by
  have hne : ∀ i j, i ≠ j → env.transactionId n i ≠ env.transactionId n j :=
    fun i j hij he => hij (env.transactionId_fresh _ _ _ _ he).2
  unfold transferRows
  split
  · simp [transactionRow, hne 0 1, hne 0 2, hne 1 2]
  · simp [transactionRow, hne 0 1]

theorem transferRows_group (env : Env) (n userId : Nat) (details : TransferCreate) :
    ∀ t ∈ transferRows env n userId details,
      t.transferGroupId = some (env.uuid4 n) ∧ t.userId = userId := by
  intro t ht
  unfold transferRows at ht
  simp only [List.cons_append, List.nil_append, List.mem_cons] at ht
  rcases ht with rfl | rfl | ht
  · exact ⟨rfl, rfl⟩
  · exact ⟨rfl, rfl⟩
  · split at ht
    · rw [List.mem_singleton.1 ht]
      exact ⟨rfl, rfl⟩
    · cases ht

/-- Where a transaction row comes from. -/
theorem Effect.transaction (h : Effect env g n db db') :
    ∀ t' ∈ db'.transactions, (∃ t ∈ db.transactions, SameRow t t') ∨
      ((∃ i, t'.id = env.transactionId n i) ∧ t'.id ≤ maxRowId ∧ accountExists t' db = true ∧
        ∀ group, t'.transferGroupId = some group → group = env.uuid4 n) := by
  intro t' ht'
  cases h with
  | nothing => exact Or.inl ⟨t', ht', .refl t'⟩
  | accountCreated => exact Or.inl ⟨t', ht', .refl t'⟩
  | accountPatched => exact Or.inl ⟨t', ht', .refl t'⟩
  | transactionCreated userId details hle haccount =>
    rcases (mem_insertAll (by simp)).1 ht' with hnew | ⟨hold, -⟩
    · rw [List.mem_singleton.1 hnew]
      refine Or.inr ⟨⟨0, rfl⟩, hle, haccount, fun group hgroup => ?_⟩
      cases hgroup
    · exact Or.inl ⟨t', hold, .refl t'⟩
  | @transactionPatched _ _ t changes _ _ ht =>
    rcases Table.mem_put.1 ht' with rfl | ⟨hold, -⟩
    · exact Or.inl ⟨t, ht, .apply _ t⟩
    · exact Or.inl ⟨t', hold, .refl t'⟩
  | transferCreated userId details _ _ hle haccounts =>
    rcases (mem_insertAll (transferRows_nodup _ _ _ _)).1 ht' with hnew | ⟨hold, -⟩
    · refine Or.inr ⟨transferRows_ids _ _ _ _ t' hnew, hle t' hnew, haccounts t' hnew, ?_⟩
      intro group hgroup
      rw [(transferRows_group _ _ _ _ t' hnew).1] at hgroup
      exact (Option.some.inj hgroup).symm
    · exact Or.inl ⟨t', hold, .refl t'⟩
  | deleted => exact Or.inl ⟨t', (Table.mem_filter.1 ht').1, .refl t'⟩

/-- Accounts stay, under the same owner. -/
theorem Effect.account_stays (h : Effect env g n db db') :
    ∀ a ∈ db.accounts, a.id ≠ env.accountId n →
      ∃ a' ∈ db'.accounts, a'.id = a.id ∧ a'.userId = a.userId := by
  intro a ha hid
  cases h with
  | accountCreated hid' _ =>
    exact ⟨a, Table.mem_put.2 (Or.inr ⟨ha, fun he => hid (he.trans hid')⟩), rfl, rfl⟩
  | @accountPatched b hb change =>
    by_cases hab : a.id = b.id
    · obtain rfl := db.accounts.eq_of_key ha hb hab
      exact ⟨_, Table.mem_put.2 (Or.inl rfl), rfl, rfl⟩
    · exact ⟨a, Table.mem_put.2 (Or.inr ⟨ha, hab⟩), rfl, rfl⟩
  | _ => exact ⟨a, ha, rfl, rfl⟩

/-- Where an account comes from. -/
theorem Effect.account (h : Effect env g n db db') :
    ∀ a' ∈ db'.accounts, (∃ a ∈ db.accounts, a'.id = a.id ∧ a'.userId = a.userId) ∨
      (a'.id = env.accountId n ∧ a'.id ≤ maxRowId) := by
  intro a' ha'
  cases h with
  | accountCreated hid hle =>
    rcases Table.mem_put.1 ha' with rfl | ⟨hold, -⟩
    · exact Or.inr ⟨hid, hle⟩
    · exact Or.inl ⟨a', hold, rfl, rfl⟩
  | @accountPatched a ha change =>
    rcases Table.mem_put.1 ha' with rfl | ⟨hold, -⟩
    · exact Or.inl ⟨a, ha, rfl, rfl⟩
    · exact Or.inl ⟨a', hold, rfl, rfl⟩
  | _ => exact Or.inl ⟨a', ha', rfl, rfl⟩

theorem accountExists_iff {t : Transaction} :
    accountExists t db = true ↔
      ∃ a ∈ db.accounts, a.id = t.accountId ∧ a.userId = t.userId := by
  simp only [accountExists, List.any_eq_true, decide_eq_true_eq]
  rfl

end Rows

/-! ## The base invariant -/

section Base

variable {env : Env} {g : Setting} {n : Nat} {w : LedgerWorld}

theorem LedgerOk.account_ne (h : LedgerOk env w) (hn : w.Unanswered n) {a : Account}
    (ha : a ∈ w.db.accounts) : a.id ≠ env.accountId n := (h.accountIds a ha).2.2 n hn

theorem LedgerOk.transaction_ne (h : LedgerOk env w) (hn : w.Unanswered n) {t : Transaction}
    (ht : t ∈ w.db.transactions) (i : Nat) : t.id ≠ env.transactionId n i :=
  (h.transactionIds t ht).2 n hn i

/-- A transaction's account, whatever request `n` commits. -/
theorem Effect.accountExists (h : LedgerOk env w) (hn : w.Unanswered n) {db' : Db}
    (he : Effect env g n w.db db') {t : Transaction}
    (ht : ∃ a ∈ w.db.accounts, a.id = t.accountId ∧ a.userId = t.userId) :
    ∃ a ∈ db'.accounts, a.id = t.accountId ∧ a.userId = t.userId := by
  obtain ⟨a, ha, hid, huser⟩ := ht
  obtain ⟨a', ha', hid', huser'⟩ := he.account_stays a ha (h.account_ne hn ha)
  exact ⟨a', ha', hid'.trans hid, huser'.trans huser⟩

/-- Who is unanswered after request `n` has been answered. -/
theorem unanswered_answer {req : Request} {r : Except Failure Response} {db' : Db} {k : Nat}
    (h : (w.answer n req r db').Unanswered k) : n ≠ k ∧ w.Unanswered k :=
  ⟨h (n, req, r) List.mem_cons_self, fun e he => h e (List.mem_cons_of_mem _ he)⟩

/-- The commit of request `n`, with its answer. -/
theorem LedgerOk.commit (h : LedgerOk env w) (hn : w.Unanswered n) {db' : Db}
    (he : Effect env g n w.db db') (req : Request) (r : Except Failure Response) :
    LedgerOk env (w.answer n req r db') := by
  constructor
  · intro t' ht'
    rcases he.transaction t' ht' with ⟨t, ht, hsame⟩ | ⟨-, -, hacc, -⟩
    · rw [hsame.accountId, hsame.userId]
      exact Effect.accountExists h hn he (h.fk t ht)
    · exact Effect.accountExists h hn he (accountExists_iff.1 hacc)
  · intro a' ha'
    rcases he.account a' ha' with ⟨a, ha, hid, -⟩ | ⟨hid, hle⟩
    · obtain ⟨hpos, hle, hne⟩ := h.accountIds a ha
      rw [hid]
      exact ⟨hpos, hle, fun k hk => hne k (unanswered_answer hk).2⟩
    · rw [hid] at hle ⊢
      exact ⟨env.accountId_pos n, hle, fun k hk heq =>
        (unanswered_answer hk).1 (env.accountId_fresh _ _ heq)⟩
  · intro t' ht'
    rcases he.transaction t' ht' with ⟨t, ht, hsame⟩ | ⟨⟨i, hid⟩, hle, -, -⟩
    · obtain ⟨hle, hne⟩ := h.transactionIds t ht
      rw [hsame.id]
      exact ⟨hle, fun k hk => hne k (unanswered_answer hk).2⟩
    · refine ⟨hle, fun k hk j heq => ?_⟩
      rw [hid] at heq
      exact (unanswered_answer hk).1 (env.transactionId_fresh _ _ _ _ heq).1
  · intro t' ht' k hk hgroup
    obtain ⟨hne, hk⟩ := unanswered_answer hk
    rcases he.transaction t' ht' with ⟨t, ht, hsame⟩ | ⟨-, -, -, hnew⟩
    · exact h.groups t ht k hk (hsame.group ▸ hgroup)
    · exact hne (env.uuid4_fresh _ _ (hnew _ hgroup)).symm

end Base

end Tradinghub.Ledger
