import Tradinghub.Ledger.Discipline
import Tradinghub.Lib.Alone

/-!
# The ledger, one request at a time

`respond` says what a request does when nobody else is there: its answer and the rows after it, as
one function of the rows before.  `alone_handle` is the link: it is what the endpoint's program
computes, statement by statement, under `Prog.alone`.
-/

namespace Tradinghub.Ledger

open ReadCommitted Store

variable [Collation]

/-- The rows after a statement that takes all it picks, if the constraints hold. -/
def Stmt.whole (q : Stmt) (db : Db) : Except DbError Db :=
  ((q.plan db).1.finish (q.plan db).2 db).map fun ws => engine.applyAll ws db

/-- The answer and the new rows, or the database's error and the old ones. -/
def settle (result : Except DbError Db) (failure : DbError → Failure) (a : Response) (db : Db) :
    Except Failure Response × Db :=
  match result with
  | .ok db' => (.ok a, db')
  | .error d => (.error (failure d), db)

def nameFailure (d : DbError) : Failure :=
  if DbError.isIntegrityError d then .app AccountNameTakenError else .database d

def updatedAccount (now : Int) (account : Account) (changes : AccountUpdate) : Account where
  id := account.id
  userId := account.userId
  name := changes.name.getD account.name
  unit := changes.unit.getD account.unit
  type := changes.type.getD account.type
  archivedAt :=
    if changes.archived = some false then none
    else if changes.archived = some true ∧ account.archivedAt = none then some now
    else account.archivedAt

variable (env : Env) (n userId : Nat)

/-- Request `n` of user `userId`, alone with the rows `db`. -/
def respond (now : Int) (db : Db) : Endpoint → Except Failure Response × Db
  | .createAccount payload =>
    let account := newAccount env n userId payload
    settle ((Stmt.insertAccount account).whole db) nameFailure
      (.account (accountResponse { account := account, balance := 0 })) db
  | .listAccounts =>
    (.ok (.accounts ((listAccountsWithBalances db userId).map accountResponse)), db)
  | .getAccount accountId =>
    match getAccountWithBalance db accountId.val userId with
    | none => (.error (.app AccountNotFoundError), db)
    | some found => (.ok (.account (accountResponse found)), db)
  | .updateAccount accountId payload =>
    match getAccountWithBalance db accountId.val userId with
    | none => (.error (.app AccountNotFoundError), db)
    | some found =>
      let account := updatedAccount now found.account payload
      let a : Response := .account (accountResponse { found with account := account })
      if found.account = account then (.ok a, db)
      else settle ((Stmt.updateAccount found.account account).whole db) nameFailure a db
  | .createTransaction payload =>
    match getAccount db payload.accountId.val userId with
    | none => (.error (.app AccountNotFoundError), db)
    | some _ =>
      let transaction := newTransaction env n userId payload
      settle ((Stmt.insertTransactions [transaction]).whole db) .database
        (.transaction (transactionResponse transaction)) db
  | .listTransactions filters =>
    (.ok (.page
      { items := (pageTransactions db userId filters).map transactionResponse
        total := countTransactions db userId filters }), db)
  | .getTransaction transactionId =>
    match getTransaction db transactionId.val userId with
    | none => (.error (.app TransactionNotFoundError), db)
    | some found => (.ok (.transaction (transactionResponse found)), db)
  | .updateTransaction transactionId payload =>
    match getTransaction db transactionId.val userId with
    | none => (.error (.app TransactionNotFoundError), db)
    | some loaded =>
      let current := applyTransactionUpdate loaded payload
      let a : Response := .transaction (transactionResponse current)
      if loaded.transferGroupId.isSome then (.error (.app TransferNotEditableError), db)
      else if loaded = current then (.ok a, db)
      else settle ((Stmt.updateTransaction loaded current).whole db) .database a db
  | .deleteTransaction transactionId =>
    let q := Stmt.deleteTransaction userId transactionId.val
    if (q.plan db).2.isEmpty then (.error (.app TransactionNotFoundError), db)
    else settle (q.whole db) .database .noContent db
  | .createTransfer payload =>
    let accounts := getAccounts db payload.accountIds userId
    if payload.fromAccountId.val = payload.toAccountId.val then
      (.error (.app TransferSameAccountError), db)
    else if accounts.length ≠ payload.accountIds.length then
      (.error (.app AccountNotFoundError), db)
    else if sameUnit accounts payload ∧ payload.amountSent.units ≠ payload.amountReceived.units then
      (.error (.app TransferAmountsDifferError), db)
    else
      let rows := transferRows env n userId payload
      settle ((Stmt.insertTransactions rows).whole db) .database
        (.transactions (rows.map transactionResponse)) db
  | .getSummary period => (.ok (.summary (summary (env.categoriesFound n db) db userId period)), db)

/-! ## Statements alone -/

section Alone

variable {env n userId} {now : Int} {db : Db} {q : Stmt}

/-- With nobody else there, a statement takes every row it picks. -/
theorem takes_plan (q : Stmt) (db : Db) :
    ∀ key ∈ (q.plan db).2, (q.plan db).1.takes key db = true := by
  intro key hkey
  cases q with
  | insertAccount row =>
    obtain rfl := List.mem_singleton.1 hkey
    rfl
  | updateAccount loaded current =>
    rcases List.mem_append.1 hkey with hkey | hkey
    · obtain ⟨row, hrow, rfl⟩ := List.mem_map.1 hkey
      obtain ⟨hmem, -⟩ := Table.find?_eq_some.1 (Option.mem_toList.1 hrow)
      have hfind : db.accounts.find? row.id = some row := Table.find?_eq_some.2 ⟨hmem, rfl⟩
      show (db.accounts.find? row.id).isSome = true
      rw [hfind]
      rfl
    · split at hkey
      · cases hkey
      · rcases List.mem_append.1 hkey with hkey | hkey
        · obtain ⟨row, hrow, rfl⟩ := List.mem_map.1 hkey
          exact takes_oldName current (Option.mem_toList.1 hrow)
        · obtain rfl := List.mem_singleton.1 hkey
          exact takes_newName loaded current db
  | insertTransactions rows => cases hkey
  | updateTransaction loaded current =>
    obtain ⟨row, hrow, rfl⟩ := List.mem_map.1 hkey
    obtain ⟨hmem, -⟩ := Table.find?_eq_some.1 (Option.mem_toList.1 hrow)
    have hfind : db.transactions.find? row.id = some row := Table.find?_eq_some.2 ⟨hmem, rfl⟩
    show (db.transactions.find? row.id).isSome = true
    rw [hfind]
    rfl
  | deleteTransaction userId transactionId =>
    obtain ⟨row, hrow, rfl⟩ := List.mem_map.1 hkey
    obtain ⟨hmem, hmatch⟩ := List.mem_filter.1 hrow
    have hfind : db.transactions.find? row.id = some row := Table.find?_eq_some.2 ⟨hmem, rfl⟩
    show (db.transactions.find? row.id).any _ = true
    rw [hfind]
    exact hmatch
  | deleteMatching userId transactionId targetGroup => cases hkey

theorem take_all {keys hits : List Key} (h : ∀ key ∈ keys, q.takes key db = true) :
    engine.take q keys hits db = (hits ++ keys, db) := by
  induction keys generalizing hits with
  | nil => rw [List.append_nil]; rfl
  | cons key keys ih =>
    have hact : engine.act q key db = some [] := by
      show (if q.takes key db then some [] else none) = _
      rw [if_pos (h key List.mem_cons_self)]
    rw [Engine.take, hact]
    show engine.take q keys (hits ++ [key]) db = _
    rw [ih fun k hk => h k (List.mem_cons_of_mem _ hk), List.append_assoc]
    rfl

theorem exec_eq (q : Stmt) (db : Db) :
    engine.exec q db = engine.finishWith (q.plan db).1 ((q.plan db).2, db) := by
  show engine.finishWith (q.plan db).1 (engine.take (q.plan db).1 (q.plan db).2 [] db) = _
  rw [take_all (takes_plan q db), List.nil_append]

variable {β : Type}

theorem alone_flush_ok {f : Except DbError (List Key) → Program β} {db' : Db} (h : q.whole db = .ok db') :
    (flush q >>= f).alone engine now db db = (f (.ok (q.plan db).2)).alone engine now db db' := by
  unfold Stmt.whole at h
  cases hf : (q.plan db).1.finish (q.plan db).2 db with
  | error d => rw [hf] at h; cases h
  | ok ws =>
    rw [hf] at h
    cases h
    have hexec : engine.exec q db =
        (.ok ((q.plan db).2, engine.applyAll ws db), engine.applyAll ws db) := by
      rw [exec_eq, Engine.finishWith]
      simp only [engine_finish, hf]
    simp only [flush, Prog.exec_bind, Prog.ret_bind, alone_exec, hexec]
    rfl

theorem alone_flush_error {f : Except DbError (List Key) → Program β} {d : DbError}
    (h : q.whole db = .error d) :
    (flush q >>= f).alone engine now db db = (f (.error d)).alone engine now db db := by
  unfold Stmt.whole at h
  cases hf : (q.plan db).1.finish (q.plan db).2 db with
  | ok ws => rw [hf] at h; cases h
  | error d' =>
    rw [hf] at h
    cases h
    have hexec : engine.exec q db = (.error d, db) := by
      rw [exec_eq, Engine.finishWith]
      simp only [engine_finish, hf]
    simp only [flush, Prog.exec_bind, Prog.ret_bind, alone_exec, hexec]
    rfl

/-- The end of a request that sends `q`. -/
theorem alone_flush {f : Except DbError (List Key) → Program Response}
    {failure : DbError → Failure} {a : Response}
    (hok : f (.ok (q.plan db).2) = .ret a) (herror : ∀ d, f (.error d) = .raise (failure d)) :
    (flush q >>= f).alone engine now db db = settle (q.whole db) failure a db := by
  cases h : q.whole db with
  | ok db' => rw [alone_flush_ok h, hok]; rfl
  | error d => rw [alone_flush_error h, herror]; rfl

theorem alone_execute_ok {g : List Key → Program β} {db' : Db} (h : q.whole db = .ok db') :
    (execute q >>= g).alone engine now db db = (g (q.plan db).2).alone engine now db db' := by
  rw [execute, Prog.bind_assoc]
  exact alone_flush_ok h

theorem alone_execute_error {g : List Key → Program β} {d : DbError} (h : q.whole db = .error d) :
    (execute q >>= g).alone engine now db db = (.error (.database d), db) := by
  rw [execute, Prog.bind_assoc]
  exact alone_flush_error h

theorem alone_execute {g : List Key → Program Response} {a : Response}
    (hok : g (q.plan db).2 = .ret a) :
    (execute q >>= g).alone engine now db db = settle (q.whole db) .database a db := by
  rw [execute, Prog.bind_assoc]
  exact alone_flush (f := fun r => _ >>= g) hok fun d => rfl

theorem alone_select {γ : Type} {s : Db → γ} {g : γ → Program β} :
    (Prog.select s >>= g).alone engine now db db = (g (s db)).alone engine now db db := rfl

theorem alone_applyAccountUpdate {account : Account} {changes : AccountUpdate}
    {g : Account → Program Response} :
    (applyAccountUpdate account changes >>= g).alone engine now db db =
      (g (updatedAccount now account changes)).alone engine now db db := by
  unfold applyAccountUpdate updatedAccount
  by_cases hrestored : changes.archived = some false
  · simp only [if_pos hrestored]
    rfl
  · simp only [if_neg hrestored]
    by_cases harchived : changes.archived = some true ∧ account.archivedAt = none
    · simp only [if_pos harchived]
      rfl
    · simp only [if_neg harchived]
      rfl

end Alone

/-! ## Endpoints alone -/

section Endpoints

variable {now : Int} {db : Db}

omit [Collation] in
theorem orNameTaken_error (d : DbError) (g : Unit → Program Response) :
    orNameTaken (.error d) >>= g = .raise (nameFailure d) := by
  simp only [orNameTaken, nameFailure]
  split <;> rfl

theorem alone_createAccount (payload : AccountCreate) :
    (route env n userId (.createAccount payload)).alone engine now db db =
      respond env n userId now db (.createAccount payload) := by
  simp only [route, createAccount, Prog.bind_assoc]
  exact alone_flush (f := fun r => orNameTaken r >>= _) rfl fun d => orNameTaken_error d _

theorem alone_updateAccount (accountId : RowId) (payload : AccountUpdate) :
    (route env n userId (.updateAccount accountId payload)).alone engine now db db =
      respond env n userId now db (.updateAccount accountId payload) := by
  simp only [route, updateAccount, getAccountOrRaise, Prog.bind_assoc, respond]
  rw [alone_select]
  cases getAccountWithBalance db accountId.val userId with
  | none => rfl
  | some found =>
    simp only [Prog.pure_eq, Prog.ret_bind]
    rw [alone_applyAccountUpdate, flushAccount]
    by_cases hsame : found.account = updatedAccount now found.account payload
    · rw [if_pos hsame, if_pos hsame]
      rfl
    · rw [if_neg hsame, if_neg hsame]
      exact alone_flush (f := fun r => orNameTaken r >>= _) rfl fun d => orNameTaken_error d _

theorem alone_createTransaction (payload : TransactionCreate) :
    (route env n userId (.createTransaction payload)).alone engine now db db =
      respond env n userId now db (.createTransaction payload) := by
  simp only [route, createTransaction, Prog.bind_assoc, respond]
  rw [alone_select]
  cases getAccount db payload.accountId.val userId with
  | none => rfl
  | some found =>
    simp only [Prog.discard_eq, Prog.bind_assoc]
    exact alone_execute rfl

theorem alone_updateTransaction (transactionId : RowId) (payload : TransactionUpdate) :
    (route env n userId (.updateTransaction transactionId payload)).alone engine now db db =
      respond env n userId now db (.updateTransaction transactionId payload) := by
  simp only [route, updateTransaction, getTransactionOrRaise, Prog.bind_assoc, respond]
  rw [alone_select]
  cases getTransaction db transactionId.val userId with
  | none => rfl
  | some loaded =>
    simp only [Prog.pure_eq, Prog.ret_bind]
    by_cases hgroup : loaded.transferGroupId.isSome = true
    · rw [if_pos hgroup, if_pos hgroup]
      rfl
    · rw [if_neg hgroup, if_neg hgroup, flushTransaction]
      by_cases hsame : loaded = applyTransactionUpdate loaded payload
      · rw [if_pos hsame, if_pos hsame]
        rfl
      · rw [if_neg hsame, if_neg hsame, Prog.discard_eq, Prog.bind_assoc, Prog.bind_assoc]
        exact alone_execute rfl

theorem alone_deleteTransaction (transactionId : RowId) :
    (route env n userId (.deleteTransaction transactionId)).alone engine now db db =
      respond env n userId now db (.deleteTransaction transactionId) := by
  simp only [route, deleteTransaction, Prog.bind_assoc, respond]
  obtain ⟨q, hq⟩ : ∃ q, Stmt.deleteTransaction userId transactionId.val = q := ⟨_, rfl⟩
  rw [hq]
  by_cases hempty : (q.plan db).2.isEmpty = true
  · rw [if_pos hempty]
    cases hwhole : q.whole db with
    | ok db' =>
      rw [alone_execute_ok hwhole, if_pos hempty]
      rfl
    | error d =>
      -- a DELETE that picks nothing has no constraint to break
      rw [← hq] at hwhole
      cases hwhole
  · rw [if_neg hempty]
    refine alone_execute ?_
    rw [if_neg hempty]
    rfl

theorem alone_createTransfer (payload : TransferCreate) :
    (route env n userId (.createTransfer payload)).alone engine now db db =
      respond env n userId now db (.createTransfer payload) := by
  simp only [route, createTransfer, respond]
  by_cases hdifferent : payload.fromAccountId.val = payload.toAccountId.val
  · rw [if_pos hdifferent, if_pos hdifferent]
    rfl
  · rw [if_neg hdifferent, if_neg hdifferent, Prog.bind_assoc, alone_select]
    by_cases hfound : (getAccounts db payload.accountIds userId).length ≠ payload.accountIds.length
    · rw [if_pos hfound, if_pos hfound]
      rfl
    · rw [if_neg hfound, if_neg hfound]
      by_cases hdiffer : sameUnit (getAccounts db payload.accountIds userId) payload = true ∧
          payload.amountSent.units ≠ payload.amountReceived.units
      · rw [if_pos hdiffer, if_pos hdiffer]
        rfl
      · rw [if_neg hdiffer, if_neg hdiffer, Prog.discard_eq, Prog.bind_assoc, Prog.bind_assoc]
        exact alone_execute rfl

/-- **Alone, every endpoint's program does what `respond` says.** -/
theorem alone_handle (req : Request) :
    (handle env n req).alone engine now db db = respond env n req.userId now db req.endpoint := by
  obtain ⟨userId, endpoint⟩ := req
  unfold handle
  cases endpoint with
  | createAccount payload => exact alone_createAccount env n userId payload
  | listAccounts => rfl
  | getAccount accountId =>
    simp only [route, getAccountOrRaise, Prog.bind_assoc, respond]
    rw [alone_select]
    cases getAccountWithBalance db accountId.val userId with
    | none => rfl
    | some found => rfl
  | updateAccount accountId payload => exact alone_updateAccount env n userId accountId payload
  | createTransaction payload => exact alone_createTransaction env n userId payload
  | listTransactions filters => rfl
  | getTransaction transactionId =>
    simp only [route, getTransactionOrRaise, Prog.bind_assoc, respond]
    rw [alone_select]
    cases getTransaction db transactionId.val userId with
    | none => rfl
    | some found => rfl
  | updateTransaction transactionId payload =>
    exact alone_updateTransaction env n userId transactionId payload
  | deleteTransaction transactionId => exact alone_deleteTransaction env n userId transactionId
  | createTransfer payload => exact alone_createTransfer env n userId payload
  | getSummary period => rfl

/-- A request served alone. -/
theorem serve_eq (w : LedgerWorld) (req : Request) :
    w.serve engine (handle env) req =
      w.start.answer w.started req
        (respond env w.started req.userId w.clock w.db req.endpoint).1
        (respond env w.started req.userId w.clock w.db req.endpoint).2 := by
  unfold World.serve
  rw [alone_handle]

end Endpoints

end Tradinghub.Ledger
