import Tradinghub.Ledger.Effects
import Tradinghub.Lib.RelyGuarantee

/-!
# The ledger endpoints obey their discipline

Every endpoint sends at most one writing statement, so there is one rule for it (`wp_flush`), one
invariant for the rows it takes (`FlushInv`), and one rule for the answer (`wp_ret`).  The result is
`ledger_good`: whatever requests are interleaved, every commit is an `Effect` that leaves the rows
it does not hold as they were, and any `kept` that effects keep holds of every committed state.
-/

namespace Tradinghub.Ledger

open ReadCommitted Store

abbrev LedgerTx := Tx Key Write Stmt

/-- The rows the transaction does not hold are as they were. -/
structure Frame (tx : LedgerTx) (db db' : Db) : Prop where
  transaction : ∀ t ∈ db.transactions, Key.transaction t.id ∉ tx.locks → t ∈ db'.transactions
  account : ∀ a ∈ db.accounts, Key.account a.id ∉ tx.locks → a ∈ db'.accounts

theorem Frame.refl (tx : LedgerTx) (db : Db) : Frame tx db db :=
  ⟨fun _ ht _ => ht, fun _ ha _ => ha⟩

def discipline (env : Env) (g : Setting) :
    Discipline Db Key Write Stmt Failure Response Request where
  inv w := LedgerOk env w ∧ g.kept w.db
  guar n tx db db' := Effect env g n db db' ∧ Frame tx db db'
  read := g.read
  touch _ q key db := ∀ loaded current, q = .updateTransaction loaded current →
    ∀ t ∈ db.transactions, key = .transaction t.id → g.touch loaded current t

/-- What is kept is kept by everything a request can commit. -/
def Keeps (env : Env) (g : Setting) : Prop :=
  ∀ (w : LedgerWorld) (n : Nat) (db' : Db), LedgerOk env w → w.Unanswered n → g.kept w.db →
    Effect env g n w.db db' → g.kept db'

/-! ## What the others leave alone -/

section Stable

variable {env : Env} {g : Setting} {n : Nat} {tx : LedgerTx} {w w' : LedgerWorld}

/-- Nobody takes an answer back. -/
theorem Rely.unanswered_of (h : Rely (discipline env g) n tx w w') {k : Nat}
    (hk : w'.Unanswered k) : w.Unanswered k := fun e he => hk e (h.log_mono e he)

/-- A transaction this request holds stays as it is. -/
theorem Held.transaction (h : Rely (discipline env g) n tx w w') {t : Transaction}
    (ht : t ∈ w.db.transactions) (hheld : Key.transaction t.id ∈ tx.locks) :
    t ∈ w'.db.transactions := by
  refine h.stable_db (P := fun db => t ∈ db.transactions) ?_ ht
  intro u m tx' db _ _ _ _ hdisj hguar hu
  exact hguar.2.transaction t hu fun hid => hdisj hheld hid

theorem Held.account (h : Rely (discipline env g) n tx w w') {a : Account}
    (ha : a ∈ w.db.accounts) (hheld : Key.account a.id ∈ tx.locks) : a ∈ w'.db.accounts := by
  refine h.stable_db (P := fun db => a ∈ db.accounts) ?_ ha
  intro u m tx' db _ _ _ _ hdisj hguar hu
  exact hguar.2.account a hu fun hid => hdisj hheld hid

/-- The account of a transaction, once it is there. -/
theorem accountExists_stable (h : Rely (discipline env g) n tx w w') {t : Transaction}
    (ht : accountExists t w.db = true) : accountExists t w'.db = true := by
  refine h.stable_db (P := fun db => accountExists t db = true) ?_ ht
  intro u m tx' db _ hopen _ hinv _ hguar hu
  rw [accountExists_iff] at hu ⊢
  exact Effect.accountExists hinv.1 hopen hguar.1 hu

/-- A fact about each committed transaction that an UPDATE cannot change and that the rows of an
unanswered request have, is stable. -/
theorem Rely.stable_rows (h : Rely (discipline env g) n tx w w') {P : Transaction → Prop}
    (hsame : ∀ t t', SameRow t t' → P t → P t')
    (hnew : ∀ t m i, w.Unanswered m → t.id = env.transactionId m i →
      (∀ group, t.transferGroupId = some group → group = env.uuid4 m) → P t)
    (hP : ∀ t ∈ w.db.transactions, P t) : ∀ t ∈ w'.db.transactions, P t := by
  have both := h.stable
    (P := fun u => (∀ e ∈ w.log, e ∈ u.log) ∧ ∀ t ∈ u.db.transactions, P t) ?_
    ⟨fun _ he => he, hP⟩
  · exact both.2
  · rintro u u' ho ⟨hlog, hu⟩
    cases ho with
    | commit hne hopen hlt hinv hdisj hguar =>
      refine ⟨hlog, fun t' ht' => ?_⟩
      rcases hguar.1.transaction t' ht' with ⟨t, ht, hsame'⟩ | ⟨⟨i, hid⟩, -, -, hgroup⟩
      · exact hsame t t' hsame' (hu t ht)
      · exact hnew t' _ i (fun e he => hopen e (hlog e he)) hid hgroup
    | answer _ => exact ⟨fun e he => List.mem_cons_of_mem _ (hlog e he), hu⟩
    | start => exact ⟨hlog, hu⟩
    | tick => exact ⟨hlog, hu⟩

/-- The versions of a row that was loaded once. -/
structure Loaded (env : Env) (loaded : Transaction) (w : LedgerWorld) : Prop where
  inUse : ∀ k, w.Unanswered k → ∀ i, loaded.id ≠ env.transactionId k i
  same : ∀ t ∈ w.db.transactions, t.id = loaded.id → SameRow loaded t

theorem LedgerOk.loaded (h : LedgerOk env w) {t : Transaction} (ht : t ∈ w.db.transactions) :
    Loaded env t w where
  inUse := (h.transactionIds t ht).2
  same t' ht' hid := by
    obtain rfl := w.db.transactions.eq_of_key ht' ht hid
    exact .refl t'

theorem Loaded.stable {loaded : Transaction} (h : Loaded env loaded w)
    (hr : Rely (discipline env g) n tx w w') : Loaded env loaded w' := by
  obtain ⟨hinUse, hsame⟩ := h
  refine ⟨fun k hk => hinUse k (Rely.unanswered_of hr hk), ?_⟩
  refine Rely.stable_rows hr (P := fun t => t.id = loaded.id → SameRow loaded t) ?_ ?_ hsame
  · intro t t' htt' ht hid'
    exact (ht (htt'.id.symm.trans hid')).trans htt'
  · intro t m i hm hnew _ hid
    exact absurd (hid.symm.trans hnew) (hinUse m hm i)

/-- What is known of a DELETE once its subquery has found the row: nobody can add a row that
matches, and `keys` are all those that do. -/
structure Deleting (env : Env) (userId transactionId : Nat) (targetGroup : Option Nat)
    (keys : List Key) (w : LedgerWorld) : Prop where
  inUse : ∀ k, w.Unanswered k → ∀ i, transactionId ≠ env.transactionId k i
  group : ∀ k, w.Unanswered k → targetGroup ≠ some (env.uuid4 k)
  target : ∀ t ∈ w.db.transactions, t.id = transactionId → t.userId = userId →
    t.transferGroupId = targetGroup
  covered : ∀ t ∈ w.db.transactions, deleteMatches userId transactionId targetGroup t = true →
    Key.transaction t.id ∈ keys

theorem deleteMatches_iff {userId transactionId : Nat} {targetGroup : Option Nat}
    {t : Transaction} : deleteMatches userId transactionId targetGroup t = true ↔
      t.userId = userId ∧
        (t.id = transactionId ∨ (t.transferGroupId ≠ none ∧ t.transferGroupId = targetGroup)) := by
  simp [deleteMatches]

theorem SameRow.deleteMatches {t t' : Transaction} (h : SameRow t t') (userId transactionId : Nat)
    (targetGroup : Option Nat) : Ledger.deleteMatches userId transactionId targetGroup t' =
      Ledger.deleteMatches userId transactionId targetGroup t := by
  simp only [Ledger.deleteMatches, h.id, h.userId, h.group]

theorem Deleting.stable {userId transactionId : Nat} {targetGroup : Option Nat} {keys : List Key}
    (h : Deleting env userId transactionId targetGroup keys w)
    (hr : Rely (discipline env g) n tx w w') :
    Deleting env userId transactionId targetGroup keys w' := by
  obtain ⟨hinUse, hgroup, htarget, hcovered⟩ := h
  refine ⟨fun k hk => hinUse k (Rely.unanswered_of hr hk),
    fun k hk => hgroup k (Rely.unanswered_of hr hk), ?_, ?_⟩
  · refine Rely.stable_rows hr (P := fun t => t.id = transactionId → t.userId = userId →
      t.transferGroupId = targetGroup) ?_ ?_ htarget
    · intro t t' hsame ht hid' huser
      rw [hsame.group]
      exact ht (hsame.id.symm.trans hid') (hsame.userId.symm.trans huser)
    · intro t m i hm hnew _ hid
      exact absurd (hid.symm.trans hnew) (hinUse m hm i)
  · refine Rely.stable_rows hr (P := fun t =>
      Ledger.deleteMatches userId transactionId targetGroup t = true →
        Key.transaction t.id ∈ keys) ?_ ?_ hcovered
    · intro t t' hsame ht hmatch
      rw [hsame.deleteMatches] at hmatch
      rw [hsame.id]
      exact ht hmatch
    · -- a new row has an id and a group that nobody has seen yet
      intro t m i hm hnew hnewGroup hmatch
      obtain ⟨-, hid | ⟨hsome, htgt⟩⟩ := deleteMatches_iff.1 hmatch
      · exact absurd (hid.symm.trans hnew) (hinUse m hm i)
      · obtain ⟨group, hg⟩ := Option.ne_none_iff_exists'.1 hsome
        rw [hnewGroup group hg] at hg
        exact absurd (htgt.symm.trans hg) (hgroup m hm)

end Stable

/-! ## Rules -/

section Rules

variable [Collation] {env : Env} {g : Setting} {n : Nat} {req : Request} {w : LedgerWorld}

@[simp] theorem engine_plan (q : Stmt) (db : Db) : engine.plan q db = q.plan db := rfl

@[simp] theorem engine_finish (q : Stmt) (hits : List Key) (db : Db) :
    engine.finish q hits db = q.finish hits db := rfl

@[simp] theorem engine_apply (write : Write) (db : Db) :
    engine.apply write db = write.apply db := rfl

/-- `J todo hits w`: what is known while the statement `q` takes its rows. -/
structure FlushInv (env : Env) (g : Setting) (n : Nat) (q : Stmt)
    (J : List Key → List Key → LedgerWorld → Prop) : Prop where
  stable : ∀ todo hits (tx : LedgerTx) w w', tx.locks = hits.reverse →
    Rely (discipline env g) n tx w w' → J todo hits w → J todo hits w'
  skip : ∀ todo hits w key, key ∈ todo → q.takes key w.db = false → J todo hits w →
    J (todo.erase key) hits w
  take : ∀ todo hits w key, key ∈ todo → (discipline env g).touch n q key w.db →
    q.takes key w.db = true → J todo hits w → J (todo.erase key) (hits ++ [key]) w

/-- A statement takes its rows, and its writes stand if the constraints hold.  Its errors end the
request. -/
theorem wp_flush {q : Stmt} {f : Except DbError (List Key) → Program Response}
    (herror : ∀ d tx w, wp (discipline env g) engine n req (f (.error d)) tx w)
    (h : ∀ w', At (discipline env g) n {} w w' → ∃ J,
      FlushInv env g n (q.plan w'.db).1 J ∧ J (q.plan w'.db).2 [] w' ∧
      ∀ hits w ws (tx : LedgerTx), LedgerOk env w → tx.locks = hits.reverse → tx.writes = ws →
        (q.plan w'.db).1.finish hits w.db = .ok ws → J [] hits w →
        wp (discipline env g) engine n req (f (.ok hits)) tx w) :
    wp (discipline env g) engine n req (flush q >>= f) {} w := by
  intro w' hw
  obtain ⟨J, hJ, hinit, hdone⟩ := h w' hw
  show ScanOk _ _ _ _ (q.plan w'.db).1 (q.plan w'.db).2 [] _ _
  refine ScanOk.of_loop
    (fun todo hits tx w => tx.locks = hits.reverse ∧ tx.writes = [] ∧ J todo hits w)
    ?_ ?_ ?_ ?_ ?_ _ _ _ _ _ rfl ⟨rfl, rfl, hinit⟩
  · rintro todo hits tx w w' hw ⟨hlocks, hwrites, h⟩
    exact ⟨hlocks, hwrites, hJ.stable todo hits tx w w' hlocks hw.rely h⟩
  · rintro todo hits tx w key hkey - - hact ⟨hlocks, hwrites, h⟩
    refine ⟨hlocks, hwrites, hJ.skip todo hits w key hkey ?_ h⟩
    have hview : engine.view tx w.db = w.db := by rw [Engine.view, hwrites, Engine.applyAll_nil]
    rw [hview] at hact
    simpa [engine] using hact
  · rintro todo hits tx w key ws hkey - htouch hact ⟨hlocks, hwrites, h⟩
    have hview : engine.view tx w.db = w.db := by rw [Engine.view, hwrites, Engine.applyAll_nil]
    rw [hview] at hact
    have htakes : (q.plan w'.db).1.takes key w.db = true ∧ [] = ws := by
      simpa [engine] using hact
    obtain ⟨htakes, rfl⟩ := htakes
    refine ⟨?_, by simp [hwrites], hJ.take todo hits w key hkey htouch htakes h⟩
    simp [hlocks]
  · rintro hits tx w d - - -
    exact herror d tx w
  · rintro hits tx w ws hinv hfinish ⟨hlocks, hwrites, h⟩
    have hview : engine.view tx w.db = w.db := by rw [Engine.view, hwrites, Engine.applyAll_nil]
    rw [hview] at hfinish
    exact hdone hits w ws (tx.write ws) hinv.1 hlocks (by simp [hwrites]) hfinish h

theorem wp_execute {q : Stmt} {f : List Key → Program Response}
    (h : ∀ w', At (discipline env g) n {} w w' → ∃ J,
      FlushInv env g n (q.plan w'.db).1 J ∧ J (q.plan w'.db).2 [] w' ∧
      ∀ hits w ws (tx : LedgerTx), LedgerOk env w → tx.locks = hits.reverse → tx.writes = ws →
        (q.plan w'.db).1.finish hits w.db = .ok ws → J [] hits w →
        wp (discipline env g) engine n req (f hits) tx w) :
    wp (discipline env g) engine n req (execute q >>= f) {} w := by
  rw [execute, Prog.bind_assoc]
  exact wp_flush (fun _ _ _ => trivial) h

/-- A SELECT of a transaction that has written nothing. -/
theorem wp_select {β : Type} {q : Db → β} {f : β → Program Response}
    (h : ∀ w', At (discipline env g) n {} w w' → g.read n req w'.db →
      wp (discipline env g) engine n req (f (q w'.db)) {} w') :
    wp (discipline env g) engine n req (Prog.select q >>= f) {} w := h

/-- The commit that ends a request. -/
theorem wp_ret (hkeeps : Keeps env g) {tx : LedgerTx} {a : Response}
    (h : ∀ w', Rely (discipline env g) n tx w w' → LedgerOk env w' → w'.Unanswered n →
      Effect env g n w'.db (engine.view tx w'.db) ∧ Frame tx w'.db (engine.view tx w'.db)) :
    wp (discipline env g) engine n req (.ret a) tx w := by
  intro w' hw
  obtain ⟨hbase, hkept⟩ := hw.inv
  obtain ⟨heffect, hframe⟩ := h w' hw.rely hbase hw.unanswered
  exact ⟨⟨heffect, hframe⟩, trivial, hbase.commit hw.unanswered heffect req (.ok a),
    hkeeps w' n _ hbase hw.unanswered hkept heffect⟩

/-- The end of a request that wrote nothing. -/
theorem wp_ret_unchanged (hkeeps : Keeps env g) {a : Response} :
    wp (discipline env g) engine n req (.ret a) {} w :=
  wp_ret hkeeps fun w' _ _ _ => ⟨.nothing w'.db, .refl _ _⟩

end Rules

/-! ## Statements -/

section Statements

variable [Collation] {env : Env} {g : Setting} {n : Nat} {req : Request} {w : LedgerWorld}

theorem applyAll_inserts (rows : List Transaction) (db : Db) :
    engine.applyAll (rows.map .insertTransaction) db = insertAll rows db := by
  induction rows generalizing db with
  | nil => rfl
  | cons t rows ih => rw [List.map_cons, Engine.applyAll_cons, ih]; rfl

theorem insertTransactions_finish {rows : List Transaction} {hits : List Key} {db : Db}
    {ws : List Write} (h : (Stmt.insertTransactions rows).finish hits db = .ok ws) :
    ws = rows.map .insertTransaction ∧ (∀ t ∈ rows, t.id ≤ maxRowId) ∧
      (∀ t ∈ rows, fitsNumeric t.amount = true) ∧ ∀ t ∈ rows, accountExists t db = true := by
  simp only [Stmt.finish, Bool.not_eq_true', List.any_eq_true, decide_eq_true_eq] at h
  split at h
  · cases h
  · next hle =>
    split at h
    · cases h
    · next hfits =>
      split at h
      · cases h
      · split at h
        · cases h
        · next haccounts =>
          refine ⟨(Except.ok.inj h).symm, fun t ht => ?_, fun t ht => ?_, fun t ht => ?_⟩
          · exact Nat.le_of_not_lt fun hlt => hle ⟨t, ht, hlt⟩
          · exact Bool.of_not_eq_false fun hf => hfits ⟨t, ht, hf⟩
          · exact Bool.of_not_eq_false fun hf => haccounts ⟨t, ht, hf⟩

/-- The INSERT of a request's own rows, and the answer. -/
theorem wp_insertTransactions (hkeeps : Keeps env g) {rows : List Transaction} {a : Response}
    (hnodup : (rows.map Transaction.id).Nodup)
    (hids : ∀ t ∈ rows, ∃ i, t.id = env.transactionId n i)
    (heffect : ∀ db, (∀ t ∈ rows, t.id ≤ maxRowId) → (∀ t ∈ rows, accountExists t db = true) →
      Effect env g n db (insertAll rows db)) :
    wp (discipline env g) engine n req
      (discard (execute (.insertTransactions rows)) >>= fun _ => .ret a) {} w := by
  rw [Prog.discard_eq, Prog.bind_assoc]
  refine wp_execute fun w₁ _ => ⟨fun todo _ _ => todo = [], ⟨fun _ _ _ _ _ _ _ h => h, ?_, ?_⟩,
    rfl, ?_⟩
  · rintro todo hits w key hkey - rfl
    cases hkey
  · rintro todo hits w key hkey - - rfl
    cases hkey
  · intro hits w₂ ws tx _ _ hwrites hfinish _
    obtain ⟨rfl, hle, -, haccounts⟩ := insertTransactions_finish hfinish
    refine wp_ret hkeeps fun w₃ hw₃ hbase hn => ?_
    have hview : engine.view tx w₃.db = insertAll rows w₃.db := by
      rw [Engine.view, hwrites, applyAll_inserts]
    rw [hview]
    refine ⟨heffect w₃.db hle fun t ht => accountExists_stable hw₃ (haccounts t ht), ?_,
      fun a ha _ => ha⟩
    intro t ht _
    refine (mem_insertAll hnodup).2 (Or.inr ⟨ht, fun hid => ?_⟩)
    obtain ⟨r, hr, hid⟩ := List.mem_map.1 hid
    obtain ⟨i, hi⟩ := hids r hr
    exact hbase.transaction_ne hn ht i (hid.symm.trans hi)

/-- Where the rows an UPDATE takes are those of its plan. -/
theorem updateTransaction_finish {loaded current : Transaction} {hits : List Key} {db : Db}
    {ws : List Write} (h : (Stmt.updateTransaction loaded current).finish hits db = .ok ws) :
    ws = [.updateTransaction loaded.id (.between loaded current)] ∧
      Key.transaction loaded.id ∈ hits ∧
      (loaded.amount = current.amount ∨ fitsNumeric current.amount = true) := by
  simp only [Stmt.finish] at h
  split at h
  · cases h
  · next hfits =>
    split at h
    · cases h
    · next hmem =>
      refine ⟨(Except.ok.inj h).symm, not_not.1 hmem, or_iff_not_imp_left.2 fun hne => ?_⟩
      simpa [changed, hne] using hfits

theorem updateAccount_finish {loaded current : Account} {hits : List Key} {db : Db}
    {ws : List Write} (h : (Stmt.updateAccount loaded current).finish hits db = .ok ws) :
    ws = [.updateAccount loaded.id (.between loaded current)] ∧
      Key.account loaded.id ∈ hits := by
  simp only [Stmt.finish] at h
  split at h
  · cases h
  · next hmem =>
    split at h
    · cases h
    · exact ⟨(Except.ok.inj h).symm, not_not.1 hmem⟩

theorem insertAccount_finish {row : Account} {hits : List Key} {db : Db} {ws : List Write}
    (h : (Stmt.insertAccount row).finish hits db = .ok ws) :
    ws = [.insertAccount row] ∧ row.id ≤ maxRowId := by
  simp only [Stmt.finish] at h
  split at h
  · cases h
  · next hle =>
    split at h
    · cases h
    · exact ⟨(Except.ok.inj h).symm, Nat.le_of_not_lt hle⟩

omit [Collation] in
theorem apply_updateTransaction {db : Db} {t : Transaction} (ht : t ∈ db.transactions)
    (change : TransactionChange) : Write.apply (.updateTransaction t.id change) db =
      { db with transactions := db.transactions.put (change.apply t) } := by
  have hf : db.transactions.find? t.id = some t := Table.find?_eq_some.2 ⟨ht, rfl⟩
  simp only [Write.apply, hf]

omit [Collation] in
theorem apply_updateAccount {db : Db} {a : Account} (ha : a ∈ db.accounts)
    (change : AccountChange) : Write.apply (.updateAccount a.id change) db =
      { db with accounts := db.accounts.put (change.apply a) } := by
  have hf : db.accounts.find? a.id = some a := Table.find?_eq_some.2 ⟨ha, rfl⟩
  simp only [Write.apply, hf]

/-- The UPDATE of a row loaded before, and the answer. -/
theorem wp_flushTransaction (hkeeps : Keeps env g) {loaded : Transaction} {db₀ : Db}
    (changes : TransactionUpdate) {a : Response} (hkept : g.kept db₀)
    (hread : loaded ∈ db₀.transactions) (hloaded : Loaded env loaded w)
    (hgroup : loaded.transferGroupId = none) :
    wp (discipline env g) engine n req
      (flushTransaction loaded (applyTransactionUpdate loaded changes) >>= fun _ => .ret a)
      {} w := by
  obtain ⟨current, hcurrent⟩ : ∃ current, applyTransactionUpdate loaded changes = current :=
    ⟨_, rfl⟩
  rw [hcurrent, flushTransaction]
  by_cases heq : loaded = current
  · rw [if_pos heq]
    exact wp_ret_unchanged hkeeps
  · rw [if_neg heq, Prog.discard_eq, Prog.bind_assoc]
    refine wp_execute fun w₁ hw₁ => ⟨fun todo hits w => Loaded env loaded w ∧
      (∀ key ∈ todo, key = .transaction loaded.id) ∧
      ∀ key ∈ hits, ∃ t ∈ w.db.transactions, key = .transaction t.id ∧ g.touch loaded current t,
      ⟨?_, ?_, ?_⟩, ⟨hloaded.stable hw₁.rely, ?_, by simp⟩, ?_⟩
    · rintro todo hits tx w w' hlocks hr ⟨hl, htodo, hhits⟩
      refine ⟨hl.stable hr, htodo, fun key hkey => ?_⟩
      obtain ⟨t, ht, rfl, htouch⟩ := hhits key hkey
      exact ⟨t, Held.transaction hr ht (hlocks ▸ List.mem_reverse.2 hkey), rfl, htouch⟩
    · rintro todo hits w key - - ⟨hl, htodo, hhits⟩
      exact ⟨hl, fun key' hkey' => htodo key' (List.mem_of_mem_erase hkey'), hhits⟩
    · rintro todo hits w key hkey htouch htakes ⟨hl, htodo, hhits⟩
      refine ⟨hl, fun key' hkey' => htodo key' (List.mem_of_mem_erase hkey'), fun key' hkey' => ?_⟩
      rcases List.mem_append.1 hkey' with hkey' | hkey'
      · exact hhits key' hkey'
      · rw [List.mem_singleton.1 hkey']
        rw [htodo key hkey] at htakes htouch ⊢
        obtain ⟨t, hfind⟩ := Option.isSome_iff_exists.1 htakes
        obtain ⟨ht, hid⟩ := Table.find?_eq_some.1 hfind
        have hkey : Key.transaction loaded.id = .transaction t.id := by rw [← hid]; rfl
        exact ⟨t, ht, hkey, htouch loaded current rfl t ht hkey⟩
    · intro key hkey
      obtain ⟨t, hfind, rfl⟩ := List.mem_map.1 hkey
      rw [← (Table.find?_eq_some.1 (Option.mem_toList.1 hfind)).2]
      rfl
    · intro hits w₂ ws tx _ hlocks hwrites hfinish ⟨hl, _, hhits⟩
      obtain ⟨rfl, hmem, -⟩ := updateTransaction_finish hfinish
      obtain ⟨t, ht, hkey, htouch⟩ := hhits _ hmem
      have hid : loaded.id = t.id := by simpa using hkey
      refine wp_ret hkeeps fun w₃ hw₃ _ _ => ?_
      have hheld : Key.transaction t.id ∈ tx.locks := by
        rw [hlocks, List.mem_reverse, ← hkey]
        exact hmem
      have ht₃ : t ∈ w₃.db.transactions := Held.transaction hw₃ ht hheld
      have hsame : SameRow loaded t := hl.same t ht hid.symm
      have hview : engine.view tx w₃.db = { w₃.db with
          transactions := w₃.db.transactions.put
            ((TransactionChange.between loaded current).apply t) } := by
        rw [Engine.view, hwrites, hid, ← apply_updateTransaction ht₃]
        rfl
      rw [hview]
      subst hcurrent
      refine ⟨.transactionPatched changes hkept hread ht₃ hsame hgroup htouch, fun r hr hfree => ?_,
        fun a ha _ => ha⟩
      refine Table.mem_put.2 (Or.inr ⟨hr, fun hk => hfree ?_⟩)
      have hrid : r.id = t.id := hk
      rw [hrid]
      exact hheld

/-- The UPDATE of an account loaded before, and the answer. -/
theorem wp_flushAccount (hkeeps : Keeps env g) (loaded current : Account) {a : Response} :
    wp (discipline env g) engine n req
      (flushAccount loaded current >>= fun r => orNameTaken r >>= fun _ => .ret a) {} w := by
  rw [flushAccount]
  by_cases heq : loaded = current
  · rw [if_pos heq]
    exact wp_ret_unchanged hkeeps
  · rw [if_neg heq]
    refine wp_flush (fun d tx w => ?_) fun w₁ _ => ⟨fun _ hits w =>
      ∀ id, Key.account id ∈ hits → ∃ row ∈ w.db.accounts, row.id = id,
      ⟨?_, fun _ _ _ _ _ _ h => h, ?_⟩, by simp, ?_⟩
    · simp only [orNameTaken]
      split <;> trivial
    · rintro todo hits tx w w' hlocks hr h id hid
      obtain ⟨row, hrow, rfl⟩ := h id hid
      exact ⟨row, Held.account hr hrow (hlocks ▸ List.mem_reverse.2 hid), rfl⟩
    · rintro todo hits w key - - htakes h id hid
      rcases List.mem_append.1 hid with hid | hid
      · exact h id hid
      · rw [← List.mem_singleton.1 hid] at htakes
        obtain ⟨row, hfind⟩ := Option.isSome_iff_exists.1 htakes
        exact ⟨row, Table.find?_eq_some.1 hfind⟩
    · intro hits w₂ ws tx _ hlocks hwrites hfinish h
      obtain ⟨rfl, hmem⟩ := updateAccount_finish hfinish
      obtain ⟨row, hrow, hid⟩ := h _ hmem
      refine wp_ret hkeeps fun w₃ hw₃ _ _ => ?_
      have hheld : Key.account row.id ∈ tx.locks := by
        rw [hlocks, List.mem_reverse, hid]
        exact hmem
      have hrow₃ : row ∈ w₃.db.accounts := Held.account hw₃ hrow hheld
      have hview : engine.view tx w₃.db = { w₃.db with
          accounts := w₃.db.accounts.put
            ((AccountChange.between loaded current).apply row) } := by
        rw [Engine.view, hwrites, ← hid, ← apply_updateAccount hrow₃]
        rfl
      rw [hview]
      refine ⟨.accountPatched hrow₃ _, fun t ht _ => ht, fun a ha hfree => ?_⟩
      refine Table.mem_put.2 (Or.inr ⟨ha, fun hk => hfree ?_⟩)
      have haid : a.id = row.id := hk
      rw [haid]
      exact hheld

theorem wp_insertAccount (hkeeps : Keeps env g) {row : Account} {a : Response}
    (hid : row.id = env.accountId n) :
    wp (discipline env g) engine n req
      (flush (.insertAccount row) >>= fun r => orNameTaken r >>= fun _ => .ret a) {} w := by
  refine wp_flush (fun d tx w => ?_) fun w₁ _ => ⟨fun _ _ _ => True,
    ⟨fun _ _ _ _ _ _ _ _ => trivial, fun _ _ _ _ _ _ _ => trivial,
      fun _ _ _ _ _ _ _ _ => trivial⟩, trivial, ?_⟩
  · simp only [orNameTaken]
    split <;> trivial
  · intro hits w₂ ws tx _ _ hwrites hfinish _
    obtain ⟨rfl, hle⟩ := insertAccount_finish hfinish
    refine wp_ret hkeeps fun w₃ _ hbase hn => ?_
    have hview : engine.view tx w₃.db = { w₃.db with accounts := w₃.db.accounts.put row } := by
      rw [Engine.view, hwrites]
      rfl
    rw [hview]
    refine ⟨.accountCreated hid hle, fun t ht _ => ht, fun a ha _ => ?_⟩
    exact Table.mem_put.2 (Or.inr ⟨ha, fun hk => hbase.account_ne hn ha (Eq.trans hk hid)⟩)

theorem applyAll_deletes {userId transactionId : Nat} {targetGroup : Option Nat}
    (hits : List Key) (db₀ db : Db) (ws : List Write)
    (h : (Stmt.deleteMatching userId transactionId targetGroup).finish hits db₀ = .ok ws) :
    engine.applyAll ws db = { db with
      transactions := db.transactions.filter fun t => Key.transaction t.id ∉ hits } := by
  simp only [Stmt.finish, Except.ok.injEq] at h
  subst h
  induction hits generalizing db with
  | nil => exact congrArg (Db.mk db.accounts) (Table.ext_mem fun t => by simp)
  | cons key hits ih =>
    cases key with
    | transaction id =>
      show engine.applyAll (_ :: _) db = _
      rw [Engine.applyAll_cons, ih]
      refine congrArg (Db.mk db.accounts) (Table.ext_mem fun t => ?_)
      have hkey : Keyed.key t = t.id := rfl
      simp [Write.apply, hkey, and_assoc]
    | account id => exact (ih db).trans (by simp)
    | name userId folded => exact (ih db).trans (by simp)

omit [Collation] in
/-- If the DELETE picks a row at all, its subquery has found the row it names. -/
theorem LedgerOk.deleting (h : LedgerOk env w) {userId transactionId : Nat} {t : Transaction}
    {targetGroup : Option Nat}
    (hgroup : (getTransaction w.db transactionId userId).bind Transaction.transferGroupId =
      targetGroup) (ht : t ∈ w.db.transactions)
    (hmatch : deleteMatches userId transactionId targetGroup t = true) :
    Deleting env userId transactionId targetGroup
      ((w.db.transactions.rows.filter (deleteMatches userId transactionId targetGroup)).map
        fun t => .transaction t.id) w := by
  obtain ⟨r, hr, hid, huser⟩ : ∃ r ∈ w.db.transactions, r.id = transactionId ∧
      r.userId = userId := by
    obtain ⟨huser, hid | ⟨hsome, htgt⟩⟩ := deleteMatches_iff.1 hmatch
    · exact ⟨t, ht, hid, huser⟩
    · rw [htgt, ← hgroup] at hsome
      obtain ⟨group, hg⟩ := Option.ne_none_iff_exists'.1 hsome
      obtain ⟨r, hr, -⟩ := Option.bind_eq_some_iff.1 hg
      exact ⟨r, getTransaction_eq_some.1 hr⟩
  have hfound : getTransaction w.db transactionId userId = some r :=
    getTransaction_eq_some.2 ⟨hr, hid, huser⟩
  have hrgroup : r.transferGroupId = targetGroup := by rw [← hgroup, hfound]; rfl
  refine ⟨?_, fun k hk => hrgroup ▸ h.groups r hr k hk, fun t' ht' hid' _ => ?_,
    fun t' ht' hmatch' => ?_⟩
  · rw [← hid]
    exact (h.transactionIds r hr).2
  · rw [w.db.transactions.eq_of_key ht' hr (hid'.trans hid.symm), hrgroup]
  · exact List.mem_map.2 ⟨t', List.mem_filter.2 ⟨ht', hmatch'⟩, rfl⟩

/-- While a DELETE takes its rows: all that match are still to take or taken, and those taken are
there. -/
structure DeletingRows (env : Env) (userId transactionId : Nat) (targetGroup : Option Nat)
    (todo hits : List Key) (w : LedgerWorld) : Prop where
  deleting : Deleting env userId transactionId targetGroup (todo ++ hits) w
  todo : ∀ key ∈ todo, ∃ id, key = .transaction id
  hits : ∀ key ∈ hits, ∃ t ∈ w.db.transactions, key = .transaction t.id ∧
    deleteMatches userId transactionId targetGroup t = true

theorem deletingRows_flushInv (userId transactionId : Nat) (targetGroup : Option Nat) :
    FlushInv env g n (.deleteMatching userId transactionId targetGroup)
      (DeletingRows env userId transactionId targetGroup) where
  stable := by
    rintro todo hits tx w w' hlocks hr ⟨hd, htodo, hhits⟩
    refine ⟨hd.stable hr, htodo, fun key hkey => ?_⟩
    obtain ⟨t, ht, rfl, hmatch⟩ := hhits key hkey
    exact ⟨t, Held.transaction hr ht (hlocks ▸ List.mem_reverse.2 hkey), rfl, hmatch⟩
  skip := by
    rintro todo hits w key - hskip ⟨hd, htodo, hhits⟩
    refine ⟨⟨hd.inUse, hd.group, hd.target, fun t ht hmatch => ?_⟩,
      fun key' hkey' => htodo key' (List.mem_of_mem_erase hkey'), hhits⟩
    have hmem := hd.covered t ht hmatch
    have hne : Key.transaction t.id ≠ key := by
      rintro rfl
      have hfind : w.db.transactions.find? t.id = some t := Table.find?_eq_some.2 ⟨ht, rfl⟩
      simp [Stmt.takes, hfind, hmatch] at hskip
    rw [List.mem_append] at hmem ⊢
    exact hmem.imp (fun h => (List.mem_erase_of_ne hne).2 h) id
  take := by
    rintro todo hits w key hkey - htakes ⟨hd, htodo, hhits⟩
    refine ⟨⟨hd.inUse, hd.group, hd.target, fun t ht hmatch => ?_⟩,
      fun key' hkey' => htodo key' (List.mem_of_mem_erase hkey'), fun key' hkey' => ?_⟩
    · have hmem := hd.covered t ht hmatch
      simp only [List.mem_append, List.mem_singleton] at hmem ⊢
      by_cases heq : Key.transaction t.id = key
      · exact Or.inr (Or.inr heq)
      · exact hmem.imp (fun h => (List.mem_erase_of_ne heq).2 h) Or.inl
    · rcases List.mem_append.1 hkey' with hkey' | hkey'
      · exact hhits key' hkey'
      · obtain ⟨id, rfl⟩ := htodo key hkey
        rw [List.mem_singleton.1 hkey']
        obtain ⟨t, hfind, hmatch⟩ := (Option.any_eq_true _ _).1 htakes
        obtain ⟨ht, hid⟩ := Table.find?_eq_some.1 hfind
        exact ⟨t, ht, by rw [← hid]; rfl, hmatch⟩

omit [Collation] in
/-- The rows a DELETE picks, if it picks any. -/
theorem LedgerOk.deletingRows (h : LedgerOk env w) {userId transactionId : Nat}
    {targetGroup : Option Nat}
    (hgroup : (getTransaction w.db transactionId userId).bind Transaction.transferGroupId =
      targetGroup)
    (hkeys : w.db.transactions.rows.filter (deleteMatches userId transactionId targetGroup) ≠ []) :
    DeletingRows env userId transactionId targetGroup
      ((w.db.transactions.rows.filter (deleteMatches userId transactionId targetGroup)).map
        fun t => .transaction t.id) [] w := by
  obtain ⟨r, hr⟩ := List.exists_mem_of_ne_nil _ hkeys
  obtain ⟨hr, hmatch⟩ := List.mem_filter.1 hr
  refine ⟨by simpa using h.deleting hgroup hr hmatch, fun key hkey => ?_, by simp⟩
  obtain ⟨t, -, rfl⟩ := List.mem_map.1 hkey
  exact ⟨t.id, rfl⟩

omit [Collation] in
/-- What has been taken and is still there is all that matches. -/
theorem DeletingRows.mem_hits {userId transactionId : Nat} {targetGroup : Option Nat}
    {hits : List Key} {w' : LedgerWorld} {tx : LedgerTx}
    (h : DeletingRows env userId transactionId targetGroup [] hits w)
    (hr : Rely (discipline env g) n tx w w') (hlocks : tx.locks = hits.reverse) {t : Transaction}
    (ht : t ∈ w'.db.transactions) :
    Key.transaction t.id ∈ hits ↔ deleteMatches userId transactionId targetGroup t = true := by
  refine ⟨fun hmem => ?_, fun hmatch => by simpa using (h.deleting.stable hr).covered t ht hmatch⟩
  obtain ⟨t', ht', hkey, hmatch⟩ := h.hits _ hmem
  have hlocked : Key.transaction t'.id ∈ tx.locks := by
    rw [hlocks, List.mem_reverse, ← hkey]
    exact hmem
  have ht'' : t' ∈ w'.db.transactions := Held.transaction hr ht' hlocked
  have hid : t.id = t'.id := by simpa using hkey
  rwa [w'.db.transactions.eq_of_key ht ht'' hid]

/-- What a DELETE writes, where its rows are still as it took them. -/
theorem DeletingRows.view {userId transactionId : Nat} {targetGroup : Option Nat}
    {hits : List Key} {w' : LedgerWorld} {tx : LedgerTx} {ws : List Write}
    (h : DeletingRows env userId transactionId targetGroup [] hits w)
    (hr : Rely (discipline env g) n tx w w') (hlocks : tx.locks = hits.reverse)
    (hwrites : tx.writes = ws)
    (hfinish : (Stmt.deleteMatching userId transactionId targetGroup).finish hits w.db = .ok ws) :
    engine.view tx w'.db = { w'.db with
      transactions := w'.db.transactions.filter fun t =>
        !deleteMatches userId transactionId targetGroup t } := by
  rw [Engine.view, hwrites, applyAll_deletes hits w.db w'.db ws hfinish]
  refine congrArg (Db.mk w'.db.accounts) (Table.ext_mem fun t => ?_)
  rw [Table.mem_filter, Table.mem_filter, decide_eq_true_eq]
  refine and_congr_right fun ht => ?_
  rw [h.mem_hits hr hlocks ht, Bool.not_eq_true, Bool.not_eq_true']

theorem wp_deleteTransaction (hkeeps : Keeps env g) (userId transactionId : Nat) {a : Response} :
    wp (discipline env g) engine n req
      (deleteTransaction userId transactionId >>= fun _ => .ret a) {} w := by
  rw [deleteTransaction, Prog.bind_assoc]
  refine wp_execute fun w₁ hw₁ => ?_
  obtain ⟨targetGroup, hgroup⟩ : ∃ targetGroup,
    (getTransaction w₁.db transactionId userId).bind Transaction.transferGroupId = targetGroup :=
    ⟨_, rfl⟩
  simp only [Stmt.plan, hgroup]
  by_cases hkeys : w₁.db.transactions.rows.filter
      (deleteMatches userId transactionId targetGroup) = []
  · -- nothing picked: the request fails
    rw [hkeys]
    refine ⟨fun todo hits _ => todo = [] ∧ hits = [], ⟨fun _ _ _ _ _ _ _ h => h, ?_, ?_⟩,
      ⟨rfl, rfl⟩, ?_⟩
    · rintro todo hits w key hkey - ⟨rfl, -⟩
      cases hkey
    · rintro todo hits w key hkey - - ⟨rfl, -⟩
      cases hkey
    · rintro hits w ws tx - - - - ⟨-, rfl⟩
      trivial
  · refine ⟨_, deletingRows_flushInv userId transactionId targetGroup,
      hw₁.inv.1.deletingRows hgroup hkeys, ?_⟩
    rintro hits w₂ ws tx - hlocks hwrites hfinish hrows
    show wp _ _ _ _ ((if hits.isEmpty = true then _ else _) >>= _) _ _
    by_cases hempty : hits.isEmpty = true
    · rw [if_pos hempty]
      trivial
    · rw [if_neg hempty]
      refine wp_ret hkeeps fun w₃ hw₃ _ _ => ?_
      rw [hrows.view hw₃ hlocks hwrites hfinish]
      refine ⟨.deleted (hrows.deleting.stable hw₃).target, fun t ht hfree => ?_, fun a ha _ => ha⟩
      refine Table.mem_filter.2 ⟨ht, ?_⟩
      rw [Bool.not_eq_true', ← Bool.not_eq_true, ← hrows.mem_hits hw₃ hlocks ht]
      intro hmem
      exact hfree (by rw [hlocks]; exact List.mem_reverse.2 hmem)

end Statements

/-! ## Endpoints -/

section Endpoints

variable [Collation] {env : Env} {g : Setting} {n : Nat} {req : Request} {w : LedgerWorld}

theorem wp_updateAccount (hkeeps : Keeps env g) (userId : Nat) (accountId : RowId)
    (payload : AccountUpdate) :
    wp (discipline env g) engine n req (route env n userId (.updateAccount accountId payload)) {}
      w := by
  simp only [route, updateAccount, getAccountOrRaise, Prog.bind_assoc, Prog.pure_eq]
  refine wp_select fun w₁ _ _ => ?_
  cases getAccountWithBalance w₁.db accountId.val userId with
  | none => trivial
  | some found =>
    simp only [Prog.ret_bind, applyAccountUpdate, Prog.now]
    by_cases hrestored : payload.archived = some false
    · rw [if_pos hrestored]
      exact wp_flushAccount hkeeps _ _
    · rw [if_neg hrestored]
      split
      · intro w₂ _
        exact wp_flushAccount hkeeps _ _
      · exact wp_flushAccount hkeeps _ _

theorem wp_createTransaction (hkeeps : Keeps env g) (userId : Nat) (payload : TransactionCreate) :
    wp (discipline env g) engine n req (route env n userId (.createTransaction payload)) {} w := by
  simp only [route, createTransaction, Prog.bind_assoc, Prog.pure_eq]
  refine wp_select fun w₁ _ _ => ?_
  cases getAccount w₁.db payload.accountId.val userId with
  | none => trivial
  | some found =>
    simp only [Prog.bind_assoc, Prog.ret_bind]
    refine wp_insertTransactions hkeeps (by simp) (fun t ht => ⟨0, ?_⟩) fun db hle haccount => ?_
    · rw [List.mem_singleton.1 ht]
      rfl
    · exact .transactionCreated userId payload (hle _ (List.mem_singleton.2 rfl))
        (haccount _ (List.mem_singleton.2 rfl))

theorem wp_updateTransaction (hkeeps : Keeps env g) (userId : Nat) (transactionId : RowId)
    (payload : TransactionUpdate) :
    wp (discipline env g) engine n req
      (route env n userId (.updateTransaction transactionId payload)) {} w := by
  simp only [route, updateTransaction, getTransactionOrRaise, Prog.bind_assoc, Prog.pure_eq]
  refine wp_select fun w₁ hw₁ _ => ?_
  cases hfound : getTransaction w₁.db transactionId.val userId with
  | none => trivial
  | some loaded =>
    simp only [Prog.ret_bind]
    obtain ⟨hloaded, -, -⟩ := getTransaction_eq_some.1 hfound
    by_cases hgroup : loaded.transferGroupId.isSome = true
    · rw [if_pos hgroup]
      trivial
    · rw [if_neg hgroup, Prog.bind_assoc]
      refine wp_flushTransaction hkeeps payload hw₁.inv.2 hloaded (hw₁.inv.1.loaded hloaded) ?_
      simpa using hgroup

theorem wp_createTransfer (hkeeps : Keeps env g) (userId : Nat) (payload : TransferCreate) :
    wp (discipline env g) engine n ⟨userId, .createTransfer payload⟩
      (route env n userId (.createTransfer payload)) {} w := by
  simp only [route, createTransfer, Prog.pure_eq]
  by_cases hdifferent : payload.fromAccountId.val = payload.toAccountId.val
  · rw [if_pos hdifferent]
    trivial
  · rw [if_neg hdifferent, Prog.bind_assoc]
    refine wp_select fun w₁ _ hread => ?_
    by_cases hfound : (getAccounts w₁.db payload.accountIds userId).length =
        payload.accountIds.length
    · rw [if_neg (not_not.2 hfound)]
      by_cases hdiffer : sameUnit (getAccounts w₁.db payload.accountIds userId) payload = true ∧
          payload.amountSent.units ≠ payload.amountReceived.units
      · rw [if_pos hdiffer]
        trivial
      · rw [if_neg hdiffer, Prog.bind_assoc]
        refine wp_insertTransactions hkeeps (transferRows_nodup env n userId payload)
          (transferRows_ids env n userId payload) fun db hle haccounts => ?_
        refine .transferCreated userId payload hread ⟨hdifferent, hfound, fun hsame => ?_⟩ hle
          haccounts
        exact not_not.1 fun hne => hdiffer ⟨hsame, hne⟩
    · rw [if_pos hfound]
      trivial

/-- One lemma for every endpoint. -/
theorem wp_handle (hkeeps : Keeps env g) (req : Request) :
    wp (discipline env g) engine n req (handle env n req) {} w := by
  obtain ⟨userId, endpoint⟩ := req
  unfold handle
  cases endpoint with
  | createAccount payload =>
    simp only [route, createAccount, Prog.bind_assoc]
    exact wp_insertAccount hkeeps rfl
  | listAccounts => exact wp_select fun w₁ _ _ => wp_ret_unchanged hkeeps
  | getAccount accountId =>
    simp only [route, getAccountOrRaise, Prog.bind_assoc]
    refine wp_select fun w₁ _ _ => ?_
    cases getAccountWithBalance w₁.db accountId.val userId with
    | none => trivial
    | some found => exact wp_ret_unchanged hkeeps
  | updateAccount accountId payload => exact wp_updateAccount hkeeps userId accountId payload
  | createTransaction payload => exact wp_createTransaction hkeeps userId payload
  | listTransactions filters =>
    refine wp_select fun w₁ _ _ => ?_
    exact wp_select fun w₂ _ _ => wp_ret_unchanged hkeeps
  | getTransaction transactionId =>
    simp only [route, getTransactionOrRaise, Prog.bind_assoc]
    refine wp_select fun w₁ _ _ => ?_
    cases getTransaction w₁.db transactionId.val userId with
    | none => trivial
    | some found => exact wp_ret_unchanged hkeeps
  | updateTransaction transactionId payload =>
    exact wp_updateTransaction hkeeps userId transactionId payload
  | deleteTransaction transactionId => exact wp_deleteTransaction hkeeps userId transactionId.val
  | createTransfer payload => exact wp_createTransfer hkeeps userId payload
  | getSummary period => exact wp_select fun w₁ _ _ => wp_ret_unchanged hkeeps

omit [Collation] in
/-- No row has changed, and nobody's answer is gone. -/
theorem LedgerOk.mono (h : LedgerOk env w) {w' : LedgerWorld} (hdb : w'.db = w.db)
    (hlog : ∀ e ∈ w.log, e ∈ w'.log) : LedgerOk env w' := by
  have hun : ∀ k, w'.Unanswered k → w.Unanswered k := fun k hk e he => hk e (hlog e he)
  refine ⟨?_, ?_, ?_, ?_⟩ <;> rw [hdb]
  · exact h.fk
  · intro a ha
    obtain ⟨hpos, hle, hne⟩ := h.accountIds a ha
    exact ⟨hpos, hle, fun k hk => hne k (hun k hk)⟩
  · intro t ht
    obtain ⟨hle, hne⟩ := h.transactionIds t ht
    exact ⟨hle, fun k hk => hne k (hun k hk)⟩
  · exact fun t ht k hk => h.groups t ht k (hun k hk)

theorem ledger_obeys (hkeeps : Keeps env g) :
    Obeys (discipline env g) engine (handle env) where
  start _ h := ⟨h.1.mono rfl fun _ he => he, h.2⟩
  tick _ _ h := ⟨h.1.mono rfl fun _ he => he, h.2⟩
  failed _ _ _ _ h _ _ := ⟨h.1.mono rfl fun _ he => List.mem_cons_of_mem _ he, h.2⟩
  code _ req _ := wp_handle hkeeps req

omit [Collation] in
theorem initial_ledger (env : Env) : LedgerOk env initialWorld where
  fk t ht := absurd ht (Table.not_mem_empty t)
  accountIds a ha := absurd ha (Table.not_mem_empty a)
  transactionIds t ht := absurd ht (Table.not_mem_empty t)
  groups t ht := absurd ht (Table.not_mem_empty t)

/-- **Every commit of every interleaving is an effect**, and what effects keep is kept. -/
theorem ledger_good (hkeeps : Keeps env g)
    {ok : LedgerSystem → Action Key Failure Request → Prop} (hgrants : Grants (discipline env g) ok)
    {w : LedgerWorld} (hw : LedgerOk env w) (hlog : w.log = []) (hkept : g.kept w.db)
    {s : LedgerSystem} (h : Run engine (handle env) ok { world := w } s) :
    Good (discipline env g) engine s :=
  have hinit : Good (discipline env g) engine { world := w } := Good.init ⟨hw, hkept⟩ hlog
  hinit.run (ledger_obeys hkeeps) hgrants h

/-- What the ledger keeps whatever it is asked. -/
theorem ledger_run {w : LedgerWorld} (hw : LedgerOk env w) (hlog : w.log = []) {s : LedgerSystem}
    (h : Run engine (handle env) anyStep { world := w } s) : Good (discipline env {}) engine s :=
  have hgrants : Grants (δ := DbError) (discipline env {})
      (anyStep : LedgerSystem → Action Key Failure Request → Prop) :=
    grants_anyStep (fun _ _ _ => trivial) fun _ _ _ _ _ _ _ _ _ _ => trivial
  ledger_good (fun _ _ _ _ _ _ _ => trivial) hgrants hw hlog trivial h

end Endpoints

end Tradinghub.Ledger
