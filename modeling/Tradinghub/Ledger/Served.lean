import Tradinghub.Ledger.Archiving
import Tradinghub.Ledger.Deleting
import Tradinghub.Lib.Outline

/-!
# How each request ends

`Served` lists every way a request of an interleaved run can end by itself, with the states of the
run it depends on: the one it read in, the one whose constraints were checked, the one it commits
in.  Six endpoints read or refuse, or commit, as `respond` does in one state (`moment`, `commit`);
the others have a constructor each for what may have changed in between.  `served_outline` is the
outline of every endpoint, `run_served` what it says of the log.
-/

namespace Tradinghub.Ledger

open ReadCommitted Store

variable [Collation] (env : Env) (ok : LedgerSystem → Action Key Failure Request → Prop) (n : Nat)

/-- The ledger nobody has called yet. -/
def initial : LedgerSystem := { world := initialWorld }

/-- Request `n`, which is `req`, was open in `m`. -/
abbrev Opened (req : Request) (m t : LedgerSystem) : Prop :=
  During engine (handle env) ok initial n req m t

/-- Request `n` has been about to answer `a` since `m`, with the transaction `tx`. -/
abbrev AboutTo (req : Request) (a : Response) (tx : LedgerTx) (m t : LedgerSystem) : Prop :=
  Later engine (handle env) ok initial n ⟨req, .ret a, tx⟩ m.world m t

inductive Served (req : Request) : Except Failure Response → LedgerTx → LedgerSystem → Prop
  /-- answered, or refused, as of one state -/
  | moment {r tx t m} (hm : Opened env ok n req m t)
      (h : respond env n req.userId m.world.clock m.world.db req.endpoint = (r, m.world.db))
      (hwrites : tx.writes = []) : Served req r tx t
  /-- committed as of the last state -/
  | commit {a tx t}
      (h : respond env n req.userId t.world.clock t.world.db req.endpoint =
        (.ok a, engine.view tx t.world.db))
      (haccounts : (engine.view tx t.world.db).accounts = t.world.db.accounts) :
      Served req (.ok a) tx t
  | page {tx t m₁ m₂ filters} (hreq : req.endpoint = .listTransactions filters)
      (hm₁ : Opened env ok n req m₁ t) (hm₂ : Opened env ok n req m₂ t)
      (hwrites : tx.writes = []) :
      Served req (.ok (.page
        { items := (pageTransactions m₂.world.db req.userId filters).map transactionResponse
          total := countTransactions m₁.world.db req.userId filters })) tx t
  | accountCreated {a tx t m payload hits} (hreq : req.endpoint = .createAccount payload)
      (hm : AboutTo env ok n req a tx m t)
      (ha : a = .account (accountResponse ⟨newAccount env n req.userId payload, 0⟩))
      (hfinish : (Stmt.insertAccount (newAccount env n req.userId payload)).finish hits m.world.db =
        .ok tx.writes)
      (hname : nameKey (newAccount env n req.userId payload) ∈ tx.locks) : Served req (.ok a) tx t
  | accountUpdated {a tx t m₁ m₂ accountId payload found current hits}
      (hreq : req.endpoint = .updateAccount accountId payload) (hm₁ : Opened env ok n req m₁ t)
      (hfound : getAccountWithBalance m₁.world.db accountId.val req.userId = some found)
      (hcurrent : ∃ now, current = updatedAccount now found.account payload)
      (hm₂ : AboutTo env ok n req a tx m₂ t)
      (hfinish : (Stmt.updateAccount found.account current).finish hits m₂.world.db = .ok tx.writes)
      (hname : found.account.name ≠ current.name → nameKey current ∈ tx.locks)
      (hrow : Key.account accountId.val ∈ tx.locks) : Served req (.ok a) tx t
  | accountNameTaken {tx t m₁ m₂ accountId payload found current}
      (hreq : req.endpoint = .updateAccount accountId payload) (hm₁ : Opened env ok n req m₁ t)
      (hfound : getAccountWithBalance m₁.world.db accountId.val req.userId = some found)
      (hcurrent : ∃ now, current = updatedAccount now found.account payload)
      (hm₂ : Opened env ok n req m₂ t) (htaken : nameTaken current m₂.world.db = true)
      (hname : found.account.name ≠ current.name) :
      Served req (.error (.app AccountNameTakenError)) tx t
  | transactionUpdated {tx t m transactionId payload loaded row}
      (hreq : req.endpoint = .updateTransaction transactionId payload)
      (hm : Opened env ok n req m t)
      (hloaded : getTransaction m.world.db transactionId.val req.userId = some loaded)
      (hgroup : loaded.transferGroupId = none) (hrow : row ∈ t.world.db.transactions)
      (hsame : SameRow loaded row)
      (hfits : loaded.amount = (applyTransactionUpdate loaded payload).amount ∨
        fitsNumeric (applyTransactionUpdate loaded payload).amount = true)
      (hview : engine.view tx t.world.db = { t.world.db with
        transactions := t.world.db.transactions.put
          ((TransactionChange.between loaded (applyTransactionUpdate loaded payload)).apply row) }) :
      Served req (.ok (.transaction (transactionResponse (applyTransactionUpdate loaded payload))))
        tx t
  /-- the row went while the PATCH waited for it -/
  | transactionGone {tx t m₁ m₂ transactionId payload loaded}
      (hreq : req.endpoint = .updateTransaction transactionId payload)
      (hm₁ : Opened env ok n req m₁ t)
      (hloaded : getTransaction m₁.world.db transactionId.val req.userId = some loaded)
      (hm₂ : Opened env ok n req m₂ t)
      (hgone : ∀ row ∈ m₂.world.db.transactions, row.id ≠ transactionId.val) :
      Served req (.error (.database .staleData)) tx t
  | transferCreated {tx t m details} (hreq : req.endpoint = .createTransfer details)
      (hm : Opened env ok n req m t) (hallowed : TransferAllowed m.world.db req.userId details)
      (hfits : ∀ row ∈ transferRows env n req.userId details, fitsNumeric row.amount = true)
      (hview : engine.view tx t.world.db =
        insertAll (transferRows env n req.userId details) t.world.db) :
      Served req (.ok (.transactions
        ((transferRows env n req.userId details).map transactionResponse))) tx t
  /-- what the numbers do not fit in -/
  | transferOverflow {tx t details d} (hreq : req.endpoint = .createTransfer details)
      (h : (d = .integerOverflow ∧
          ∃ row ∈ transferRows env n req.userId details, maxRowId < row.id) ∨
        (d = .numericOverflow ∧
          ∃ row ∈ transferRows env n req.userId details, fitsNumeric row.amount = false)) :
      Served req (.error (.database d)) tx t

/-! ## Rules -/

section Rules

variable {env ok n} {req : Request} {w : LedgerWorld} {s : LedgerSystem}
  {Q : Except Failure Response → LedgerTx → LedgerSystem → Prop}

/-- What the others have done to the rows meanwhile. -/
theorem later_rely {c : LedgerConn} {t : LedgerSystem}
    (h : Later engine (handle env) ok initial n c w s t) :
    Rely (discipline env {}) n c.tx w t.world := h.rely fun _ ht => run_good ht

theorem ledgerOk_of_run (h : Run engine (handle env) ok initial s) : LedgerOk env s.world :=
  (run_good h).inv.1

theorem opened_unanswered {m t : LedgerSystem} (h : Opened env ok n req m t) :
    m.world.Unanswered n := by
  obtain ⟨c, hc, -⟩ := h.opened
  exact (run_good h.reached).unanswered n c hc

theorem outline_select {β : Type} {q : Db → β} {f : β → Program Response}
    (h : ∀ s', Later engine (handle env) ok initial n ⟨req, Prog.select q >>= f, {}⟩ w s s' →
      outline engine (handle env) ok initial n Q req (f (q s'.world.db)) {} s'.world s') :
    outline engine (handle env) ok initial n Q req (Prog.select q >>= f) {} w s := h

/-- A statement takes its rows, then its constraints are checked. -/
theorem outline_flush {q : Stmt} {f : Except DbError (List Key) → Program Response}
    (h : ∀ s₁, Later engine (handle env) ok initial n ⟨req, flush q >>= f, {}⟩ w s s₁ → ∃ J,
      FlushInv env {} n (q.plan s₁.world.db).1 J ∧ J (q.plan s₁.world.db).2 [] s₁.world ∧
      (∀ hits s₂ d (tx : LedgerTx), Opened env ok n req s₂ s₂ →
        Run engine (handle env) ok s₁ s₂ → tx.writes = [] →
        (q.plan s₁.world.db).1.finish hits s₂.world.db = .error d → J [] hits s₂.world →
        outline engine (handle env) ok initial n Q req (f (.error d)) tx s₂.world s₂) ∧
      (∀ hits s₂ (tx : LedgerTx), Opened env ok n req s₂ s₂ →
        Run engine (handle env) ok s₁ s₂ → tx.locks = hits.reverse →
        (q.plan s₁.world.db).1.finish hits s₂.world.db = .ok tx.writes → J [] hits s₂.world →
        outline engine (handle env) ok initial n Q req (f (.ok hits)) tx s₂.world s₂)) :
    outline engine (handle env) ok initial n Q req (flush q >>= f) {} w s := by
  intro s₁ hs₁
  obtain ⟨J, hJ, hinit, herror, hdone⟩ := h s₁ hs₁
  have hview : ∀ (tx : LedgerTx) (db : Db), tx.writes = [] → engine.view tx db = db := by
    intro tx db hwrites
    rw [Engine.view, hwrites, Engine.applyAll_nil]
  have opened : ∀ {s₂ : LedgerSystem} {c : LedgerConn}, Run engine (handle env) ok initial s₂ →
      s₂.conns n = some c → c.req = req → Opened env ok n req s₂ s₂ :=
    fun hr hc hreq => ⟨hr, ⟨_, hc, hreq⟩, .refl _⟩
  show Scanning _ _ _ _ _ _ _ (q.plan s₁.world.db).1 _ (q.plan s₁.world.db).2 [] _ _ _
  refine Scanning.of_loop
    (fun todo hits tx s => tx.locks = hits.reverse ∧ tx.writes = [] ∧ J todo hits s.world ∧
      Run engine (handle env) ok s₁ s)
    ?_ ?_ ?_ ?_ ?_ _ _ _ _ _ rfl ⟨rfl, rfl, hinit, .refl _⟩
  · rintro todo hits tx s s' hs ⟨hlocks, hwrites, h, hr⟩
    exact ⟨hlocks, hwrites, hJ.stable todo hits tx _ _ hlocks (later_rely hs) h, hr.trans hs.run⟩
  · rintro todo hits tx s key hkey - - - hact ⟨hlocks, hwrites, h, hr⟩
    refine ⟨hlocks, hwrites, hJ.skip todo hits _ key hkey ?_ h, hr⟩
    rw [hview tx _ hwrites] at hact
    simpa [engine] using hact
  · rintro todo hits tx s key ws hkey - - - hact ⟨hlocks, hwrites, h, hr⟩
    rw [hview tx _ hwrites] at hact
    have htakes : (q.plan s₁.world.db).1.takes key s.world.db = true ∧ [] = ws := by
      simpa [engine] using hact
    obtain ⟨htakes, rfl⟩ := htakes
    refine ⟨by simp [hlocks], by simp [hwrites], ?_, hr⟩
    exact hJ.take todo hits _ key hkey (fun _ _ _ _ _ _ => trivial) htakes h
  · rintro hits tx s₂ d hr hc hfinish ⟨-, hwrites, h, hr₁⟩
    rw [hview tx _ hwrites] at hfinish
    exact herror hits s₂ d tx (opened hr hc rfl) hr₁ hwrites hfinish h
  · rintro hits tx s₂ ws hr hc hfinish ⟨hlocks, hwrites, h, hr₁⟩
    rw [hview tx _ hwrites] at hfinish
    refine hdone hits s₂ (tx.write ws) (opened hr hc rfl) hr₁ hlocks ?_ h
    rw [Tx.write_writes, hwrites, List.nil_append]
    exact hfinish

theorem outline_execute {q : Stmt} {f : List Key → Program Response}
    (h : ∀ s₁, Later engine (handle env) ok initial n ⟨req, execute q >>= f, {}⟩ w s s₁ → ∃ J,
      FlushInv env {} n (q.plan s₁.world.db).1 J ∧ J (q.plan s₁.world.db).2 [] s₁.world ∧
      (∀ hits s₂ d (tx : LedgerTx), Opened env ok n req s₂ s₂ →
        Run engine (handle env) ok s₁ s₂ → tx.writes = [] →
        (q.plan s₁.world.db).1.finish hits s₂.world.db = .error d → J [] hits s₂.world →
        outline engine (handle env) ok initial n Q req (.raise (.database d)) tx s₂.world s₂) ∧
      (∀ hits s₂ (tx : LedgerTx), Opened env ok n req s₂ s₂ →
        Run engine (handle env) ok s₁ s₂ → tx.locks = hits.reverse →
        (q.plan s₁.world.db).1.finish hits s₂.world.db = .ok tx.writes → J [] hits s₂.world →
        outline engine (handle env) ok initial n Q req (f hits) tx s₂.world s₂)) :
    outline engine (handle env) ok initial n Q req (execute q >>= f) {} w s := by
  obtain ⟨g, hg, hok, herror⟩ : ∃ g : Except DbError (List Key) → Program Response,
      execute q >>= f = flush q >>= g ∧ (∀ hits, g (.ok hits) = f hits) ∧
      ∀ d, g (.error d) = .raise (.database d) :=
    ⟨_, by rw [execute, Prog.bind_assoc], fun _ => rfl, fun _ => rfl⟩
  rw [hg] at h ⊢
  refine outline_flush fun s₁ hs₁ => ?_
  obtain ⟨J, hJ, hinit, hrefused, hdone⟩ := h s₁ hs₁
  refine ⟨J, hJ, hinit, fun hits s₂ d tx hs₂ hr hwrites hfinish hlast => ?_,
    fun hits s₂ tx hs₂ hr hlocks hfinish hlast => ?_⟩
  · rw [herror]
    exact hrefused hits s₂ d tx hs₂ hr hwrites hfinish hlast
  · rw [hok]
    exact hdone hits s₂ tx hs₂ hr hlocks hfinish hlast

/-- An answer as of the state last read. -/
theorem outline_moment {a : Response} (hs : Opened env ok n req s s)
    (h : respond env n req.userId s.world.clock s.world.db req.endpoint = (.ok a, s.world.db)) :
    outline engine (handle env) ok initial n (Served env ok n req) req (.ret a) {} w s :=
  fun _ ht => .moment (hs.later ht) h rfl

/-- A refusal as of the state last read. -/
theorem outline_refusal {e : Failure} {tx : LedgerTx} (hs : Opened env ok n req s s)
    (hwrites : tx.writes = [])
    (h : respond env n req.userId s.world.clock s.world.db req.endpoint =
      (.error e, s.world.db)) :
    outline engine (handle env) ok initial n (Served env ok n req) req (.raise e) tx w s :=
  fun _ ht => .moment (hs.later ht) h hwrites

end Rules

/-! ## What is known while a statement takes its rows -/

section Taking

variable {env ok n} {w w' : LedgerWorld} {tx : LedgerTx} {q : Stmt}
  {J J' : List Key → List Key → LedgerWorld → Prop}

theorem FlushInv.and (h : FlushInv env {} n q J) (h' : FlushInv env {} n q J') :
    FlushInv env {} n q fun todo hits w => J todo hits w ∧ J' todo hits w where
  stable todo hits tx w w' hlocks hr hJ :=
    ⟨h.stable todo hits tx w w' hlocks hr hJ.1, h'.stable todo hits tx w w' hlocks hr hJ.2⟩
  skip todo hits w key hkey htakes hJ :=
    ⟨h.skip todo hits w key hkey htakes hJ.1, h'.skip todo hits w key hkey htakes hJ.2⟩
  take todo hits w key hkey htouch htakes hJ :=
    ⟨h.take todo hits w key hkey htouch htakes hJ.1, h'.take todo hits w key hkey htouch htakes hJ.2⟩

theorem FlushInv.imp {p : Prop} (h : p → FlushInv env {} n q J) :
    FlushInv env {} n q fun todo hits w => p → J todo hits w where
  stable todo hits tx w w' hlocks hr hJ hp := (h hp).stable todo hits tx w w' hlocks hr (hJ hp)
  skip todo hits w key hkey htakes hJ hp := (h hp).skip todo hits w key hkey htakes (hJ hp)
  take todo hits w key hkey htouch htakes hJ hp :=
    (h hp).take todo hits w key hkey htouch htakes (hJ hp)

/-- A row the statement cannot pass over is taken in the end. -/
theorem mem_flushInv (key : Key) {P : LedgerWorld → Prop}
    (hP : ∀ (tx : LedgerTx) w w', Rely (discipline env {}) n tx w w' → P w → P w')
    (htakes : ∀ w, P w → q.takes key w.db = true) :
    FlushInv env {} n q fun todo hits w => P w ∧ (key ∈ todo ∨ key ∈ hits) where
  stable := by
    rintro todo hits tx w w' - hr ⟨h, hkey⟩
    exact ⟨hP tx w w' hr h, hkey⟩
  skip := by
    rintro todo hits w key' - hskip ⟨h, hkey⟩
    have hne : key ≠ key' := by
      rintro rfl
      rw [htakes w h] at hskip
      cases hskip
    exact ⟨h, hkey.imp_left (List.mem_erase_of_ne hne).2⟩
  take := by
    rintro todo hits w key' - - - ⟨h, hkey⟩
    refine ⟨h, ?_⟩
    by_cases heq : key = key'
    · exact Or.inr (List.mem_append_right _ (List.mem_singleton.2 heq))
    · exact hkey.imp (List.mem_erase_of_ne heq).2 (List.mem_append_left _)

/-- A statement without rows. -/
theorem none_flushInv : FlushInv env {} n q fun todo _ _ => todo = [] where
  stable _ _ _ _ _ _ _ h := h
  skip := by
    rintro todo hits w key hkey - rfl
    cases hkey
  take := by
    rintro todo hits w key hkey - - rfl
    cases hkey

/-- A fact that no other request can change. -/
theorem fact_flushInv {P : LedgerWorld → Prop}
    (hP : ∀ (tx : LedgerTx) w w', Rely (discipline env {}) n tx w w' → P w → P w') :
    FlushInv env {} n q fun _ _ w => P w where
  stable _ _ tx w w' _ hr h := hP tx w w' hr h
  skip _ _ _ _ _ _ h := h
  take _ _ _ _ _ _ _ h := h

omit [Collation] in
/-- Accounts stay. -/
theorem account_stays (h : Rely (discipline env {}) n tx w w') {id userId : Nat}
    (ha : ∃ a ∈ w.db.accounts, a.id = id ∧ a.userId = userId) :
    ∃ a ∈ w'.db.accounts, a.id = id ∧ a.userId = userId := by
  refine h.stable_db (P := fun db => ∃ a ∈ db.accounts, a.id = id ∧ a.userId = userId) ?_ ha
  rintro u m tx' db - hopen - hinv - hguar ⟨a, ha, hid, huser⟩
  obtain ⟨a', ha', hid', huser'⟩ :=
    hguar.1.account_stays a ha (hinv.1.account_ne hopen ha)
  exact ⟨a', ha', hid'.trans hid, huser'.trans huser⟩

omit [Collation] in
theorem getAccount_isSome {db : Db} {accountId userId : Nat} :
    (getAccount db accountId userId).isSome = true ↔
      ∃ a ∈ db.accounts, a.id = accountId ∧ a.userId = userId := by
  rw [getAccount, List.find?_isSome]
  simp only [decide_eq_true_eq]
  rfl

/-- What is wrong when an INSERT of transactions is refused for their numbers. -/
theorem insertTransactions_error {rows : List Transaction} {hits : List Key} {db : Db}
    {d : DbError} (h : (Stmt.insertTransactions rows).finish hits db = .error d)
    (hnew : ∀ t ∈ rows, ∀ r ∈ db.transactions, r.id ≠ t.id)
    (haccounts : ∀ t ∈ rows, accountExists t db = true) :
    (d = .integerOverflow ∧ ∃ t ∈ rows, maxRowId < t.id) ∨
      (d = .numericOverflow ∧ ∃ t ∈ rows, fitsNumeric t.amount = false) := by
  by_cases hle : ∀ t ∈ rows, t.id ≤ maxRowId
  · by_cases hfits : ∀ t ∈ rows, fitsNumeric t.amount = true
    · have hwhole := insert_whole hle hfits hnew haccounts
      rw [show (Stmt.insertTransactions rows).whole db = .error d from
        congrArg (Except.map fun ws => engine.applyAll ws db) h] at hwhole
      cases hwhole
    · push Not at hfits
      obtain ⟨t, ht, hbig⟩ := hfits
      have hle' : ¬ (rows.any fun t => decide (maxRowId < t.id)) = true := fun hany => by
        obtain ⟨r, hr, hlt⟩ := List.any_eq_true.1 hany
        exact absurd (hle r hr) (Nat.not_le.2 (of_decide_eq_true hlt))
      have hany : (rows.any fun t => !fitsNumeric t.amount) = true :=
        List.any_eq_true.2 ⟨t, ht, by simpa using hbig⟩
      simp only [Stmt.finish] at h
      rw [if_neg hle', if_pos hany] at h
      exact Or.inr ⟨(Except.error.inj h).symm, t, ht, by simpa using hbig⟩
  · push Not at hle
    obtain ⟨t, ht, hlt⟩ := hle
    have hany : (rows.any fun t => decide (maxRowId < t.id)) = true :=
      List.any_eq_true.2 ⟨t, ht, decide_eq_true hlt⟩
    simp only [Stmt.finish] at h
    rw [if_pos hany] at h
    exact Or.inl ⟨(Except.error.inj h).symm, t, ht, hlt⟩

omit [Collation] in
/-- The rows of an unanswered request are not there yet. -/
theorem LedgerOk.new_row (h : LedgerOk env w) (hn : w.Unanswered n) {t : Transaction} {i : Nat}
    (ht : t.id = env.transactionId n i) : ∀ r ∈ w.db.transactions, r.id ≠ t.id :=
  fun _ hr hid => h.transaction_ne hn hr i (hid.trans ht)

end Taking

/-! ## Accounts -/

section Accounts

variable {env ok n} {userId : Nat} {w : LedgerWorld} {s : LedgerSystem}

theorem served_createAccount (payload : AccountCreate) :
    outline engine (handle env) ok initial n (Served env ok n ⟨userId, .createAccount payload⟩)
      ⟨userId, .createAccount payload⟩ (route env n userId (.createAccount payload)) {} w s := by
  simp only [route, createAccount, Prog.bind_assoc]
  refine outline_flush fun s₁ _ => ⟨_,
    mem_flushInv (nameKey (newAccount env n userId payload)) (P := fun _ => True)
      (fun _ _ _ _ h => h) fun w _ => rfl,
    ⟨trivial, Or.inl (List.mem_singleton.2 rfl)⟩, ?_, ?_⟩
  · intro hits s₂ d tx hs₂ _ hwrites hfinish _
    rw [orNameTaken_error]
    refine outline_refusal hs₂ hwrites ?_
    have hwhole : (Stmt.insertAccount (newAccount env n userId payload)).whole s₂.world.db =
        .error d := by
      show Except.map _ ((Stmt.insertAccount (newAccount env n userId payload)).finish hits
        s₂.world.db) = _
      rw [show (Stmt.insertAccount (newAccount env n userId payload)).finish hits s₂.world.db = _
        from hfinish]
      rfl
    simp only [respond, hwhole]
    rfl
  · rintro hits s₂ tx _ _ hlocks hfinish ⟨-, htodo | hhit⟩
    · cases htodo
    · refine fun t ht => .accountCreated rfl ht rfl hfinish ?_
      rw [hlocks]
      exact List.mem_reverse.2 hhit

/-- The clock is read only when an account is archived that was not. -/
theorem outline_applyAccountUpdate {req : Request} {loaded : Account} {payload : AccountUpdate}
    {f : Account → Program Response} {Q : Except Failure Response → LedgerTx → LedgerSystem → Prop}
    (h : ∀ now w' s', Run engine (handle env) ok s s' → Rely (discipline env {}) n {} w w' →
      outline engine (handle env) ok initial n Q req (f (updatedAccount now loaded payload)) {}
        w' s') :
    outline engine (handle env) ok initial n Q req (applyAccountUpdate loaded payload >>= f) {}
      w s := by
  unfold applyAccountUpdate
  by_cases hrestored : payload.archived = some false
  · have h₀ := h 0 w s (.refl _) (Rely.refl _)
    simp only [updatedAccount, if_pos hrestored] at h₀
    simp only [if_pos hrestored]
    exact h₀
  · by_cases hfirst : payload.archived = some true ∧ loaded.archivedAt = none
    · simp only [if_neg hrestored, if_pos hfirst]
      intro s' hs'
      have h₀ := h s'.world.clock s'.world s' hs'.run (later_rely hs')
      simp only [updatedAccount, if_neg hrestored, if_pos hfirst] at h₀
      exact h₀
    · have h₀ := h 0 w s (.refl _) (Rely.refl _)
      simp only [updatedAccount, if_neg hrestored, if_neg hfirst] at h₀
      simp only [if_neg hrestored, if_neg hfirst]
      exact h₀

omit [Collation] in
/-- An update that changes nothing does so at any time. -/
theorem updatedAccount_same {a : Account} {payload : AccountUpdate} {now : Int}
    (h : a = updatedAccount now a payload) (now' : Int) : a = updatedAccount now' a payload := by
  have hdate := congrArg Account.archivedAt h
  have hsame : updatedAccount now' a payload = updatedAccount now a payload := by
    unfold updatedAccount at hdate ⊢
    by_cases hrestored : payload.archived = some false
    · simp only [if_pos hrestored]
    · by_cases hfirst : payload.archived = some true ∧ a.archivedAt = none
      · simp only [if_neg hrestored, if_pos hfirst] at hdate
        rw [hfirst.2] at hdate
        cases hdate
      · simp only [if_neg hrestored, if_neg hfirst]
  rw [hsame]
  exact h

/-- An UPDATE of an account finds its row, so only the name can be in the way. -/
theorem updateAccount_error {loaded current : Account} {hits : List Key} {db : Db} {d : DbError}
    (h : (Stmt.updateAccount loaded current).finish hits db = .error d)
    (hhit : Key.account loaded.id ∈ hits) :
    d = .uniqueViolation ∧ loaded.name ≠ current.name ∧ nameTaken current db = true := by
  simp only [Stmt.finish] at h
  rw [if_neg (not_not.2 hhit)] at h
  split at h
  · next htaken => exact ⟨(Except.error.inj h).symm, htaken⟩
  · cases h

theorem served_updateAccount (accountId : RowId) (payload : AccountUpdate) :
    outline engine (handle env) ok initial n
      (Served env ok n ⟨userId, .updateAccount accountId payload⟩)
      ⟨userId, .updateAccount accountId payload⟩
      (route env n userId (.updateAccount accountId payload)) {} w s := by
  rw [route_updateAccount]
  intro s₁ hs₁
  show outline _ _ _ _ _ _ _ (updateFound payload
    (getAccountWithBalance s₁.world.db accountId.val userId)) _ _ _
  have hm₁ : Opened env ok n ⟨userId, .updateAccount accountId payload⟩ s₁ s₁ := hs₁.during
  cases hfound : getAccountWithBalance s₁.world.db accountId.val userId with
  | none => exact outline_refusal hm₁ rfl (by simp only [respond, hfound])
  | some found =>
    refine outline_applyAccountUpdate fun now w₁ s₁' hr₁ hrely₁ => ?_
    obtain ⟨current, hcurrent⟩ : ∃ current, updatedAccount now found.account payload = current :=
      ⟨_, rfl⟩
    have hid : found.account.id = accountId.val := getAccountWithBalance_id hfound
    have hopened : ∀ {t : LedgerSystem}, Run engine (handle env) ok s₁' t →
        Opened env ok n ⟨userId, .updateAccount accountId payload⟩ s₁ t :=
      fun hr => ⟨hm₁.reached, hm₁.opened, hr₁.trans hr⟩
    rw [hcurrent]
    simp only [flushAccount]
    by_cases heq : found.account = current
    · -- nothing to send: the answer is that of the SELECT
      rw [if_pos heq]
      intro t ht
      have hsame := updatedAccount_same (heq.trans hcurrent.symm) s₁.world.clock
      refine .moment (hopened ht.run) ?_ rfl
      simp only [respond, hfound]
      rw [if_pos hsame, ← hsame, ← heq]
    · rw [if_neg heq]
      obtain ⟨hmem, huser⟩ := mem_of_getAccountWithBalance hfound
      refine outline_flush fun s₂ hs₂ => ⟨_, (mem_flushInv (.account found.account.id)
        (P := fun w => ∃ a ∈ w.db.accounts, a.id = found.account.id ∧ a.userId = userId)
        (fun tx w w' hr h => account_stays hr h) ?_).and
        (FlushInv.imp (p := found.account.name ≠ current.name) fun _ =>
          mem_flushInv (nameKey current) (P := fun _ => True) (fun _ _ _ _ h => h)
            fun w _ => takes_newName _ _ w.db), ⟨⟨?_, ?_⟩, fun hname => ⟨trivial, ?_⟩⟩, ?_, ?_⟩
      · rintro w ⟨a, ha, hid, -⟩
        have hfind : w.db.accounts.find? found.account.id = some a :=
          Table.find?_eq_some.2 ⟨ha, hid⟩
        show (w.db.accounts.find? found.account.id).isSome = true
        rw [hfind]
        rfl
      · exact account_stays (hrely₁.trans (later_rely hs₂)) ⟨_, hmem, rfl, huser⟩
      · obtain ⟨a, ha, hid, -⟩ := account_stays (hrely₁.trans (later_rely hs₂))
          ⟨_, hmem, rfl, huser⟩
        have hfind : s₂.world.db.accounts.find? found.account.id = some a :=
          Table.find?_eq_some.2 ⟨ha, hid⟩
        refine Or.inl (List.mem_append_left _ (List.mem_map.2 ⟨a, ?_, congrArg Key.account hid⟩))
        rw [hfind]
        exact List.mem_singleton.2 rfl
      · refine Or.inl (List.mem_append_right _ ?_)
        rw [if_neg hname]
        exact List.mem_append_right _ (List.mem_singleton.2 rfl)
      · rintro hits s₃ d tx hs₃ hr₃ hwrites hfinish ⟨⟨-, htodo | hhit⟩, -⟩
        · cases htodo
        · obtain ⟨rfl, hname, htaken⟩ := updateAccount_error hfinish hhit
          rw [orNameTaken_error]
          intro t ht
          exact .accountNameTaken rfl (hopened ((hs₂.run.trans hr₃).trans ht.run)) hfound
            ⟨now, hcurrent.symm⟩ (hs₃.later ht) htaken hname
      · rintro hits s₃ tx hs₃ hr₃ hlocks hfinish ⟨⟨-, htodo | hhit⟩, hnames⟩
        · cases htodo
        · intro t ht
          refine .accountUpdated rfl (hopened ((hs₂.run.trans hr₃).trans ht.run)) hfound
            ⟨now, hcurrent.symm⟩ ht hfinish (fun hname => ?_) ?_
          · rw [hlocks]
            exact List.mem_reverse.2 ((hnames hname).2.resolve_left List.not_mem_nil)
          · rw [hlocks, ← hid]
            exact List.mem_reverse.2 hhit

end Accounts

/-! ## Transactions -/

section Transactions

variable {env ok n} {userId : Nat} {w : LedgerWorld} {s : LedgerSystem}

theorem served_createTransaction (payload : TransactionCreate) :
    outline engine (handle env) ok initial n
      (Served env ok n ⟨userId, .createTransaction payload⟩) ⟨userId, .createTransaction payload⟩
      (route env n userId (.createTransaction payload)) {} w s := by
  simp only [route, createTransaction, Prog.bind_assoc, Prog.pure_eq]
  refine outline_select fun s₁ hs₁ => ?_
  cases hfound : getAccount s₁.world.db payload.accountId.val userId with
  | none => exact outline_refusal hs₁.during rfl (by simp only [respond, hfound])
  | some found =>
    simp only [Prog.bind_assoc, Prog.discard_eq]
    obtain ⟨row, hrow⟩ : ∃ row, newTransaction env n userId payload = row := ⟨_, rfl⟩
    have hid : row.id = env.transactionId n 0 := hrow ▸ rfl
    -- the account stays, so the answer depends on the constraints alone
    have hrespond : ∀ {w' : LedgerWorld},
        (∃ a ∈ w'.db.accounts, a.id = payload.accountId.val ∧ a.userId = userId) →
        respond env n userId w'.clock w'.db (.createTransaction payload) =
          settle ((Stmt.insertTransactions [row]).whole w'.db) .database
            (.transaction (transactionResponse row)) w'.db := by
      intro w' hexists
      obtain ⟨a, ha⟩ := Option.isSome_iff_exists.1 (getAccount_isSome.2 hexists)
      simp only [respond, ha, hrow]
    have hfirst := getAccount_isSome.1 (Option.isSome_iff_exists.2 ⟨found, hfound⟩)
    rw [hrow]
    refine outline_execute fun s₂ hs₂ => ⟨_, none_flushInv.and (fact_flushInv
      (P := fun w => ∃ a ∈ w.db.accounts, a.id = payload.accountId.val ∧ a.userId = userId)
      fun _ _ _ hr => account_stays hr), ⟨rfl, account_stays (later_rely hs₂) hfirst⟩, ?_, ?_⟩
    · rintro hits s₃ d tx hs₃ - hwrites hfinish ⟨-, hexists⟩
      refine outline_refusal hs₃ hwrites ((hrespond hexists).trans ?_)
      have hwhole : (Stmt.insertTransactions [row]).whole s₃.world.db = .error d :=
        congrArg (Except.map fun ws => engine.applyAll ws s₃.world.db) hfinish
      rw [hwhole]
      rfl
    · rintro hits s₃ tx hs₃ - - hfinish ⟨-, hexists⟩ t ht
      obtain ⟨hws, hle, hfits, haccounts⟩ := insertTransactions_finish hfinish
      have hrely := later_rely ht
      have hnew : ∀ r ∈ [row], ∀ old ∈ t.world.db.transactions, old.id ≠ r.id := by
        intro r hr
        obtain rfl := List.mem_singleton.1 hr
        exact (ledgerOk_of_run ht.reached).new_row (opened_unanswered ht.during) hid
      have hview : engine.view tx t.world.db = insertAll [row] t.world.db := by
        rw [Engine.view, hws, applyAll_inserts]
      refine .commit ((hrespond (account_stays hrely hexists)).trans ?_) (by rw [hview]; rfl)
      rw [insert_whole hle hfits hnew fun r hr => accountExists_stable hrely (haccounts r hr), hview]
      rfl

/-- What is known while an UPDATE takes the row it loaded. -/
structure UpdatingRow (env : Env) (loaded : Transaction) (todo hits : List Key) (w : LedgerWorld) :
    Prop where
  versions : Loaded env loaded w
  toTake : ∀ key ∈ todo, key = .transaction loaded.id
  taken : ∀ key ∈ hits, key = .transaction loaded.id ∧
    ∃ row ∈ w.db.transactions, row.id = loaded.id
  gone : Key.transaction loaded.id ∉ todo ++ hits → ∀ row ∈ w.db.transactions, row.id ≠ loaded.id

theorem updatingRow_flushInv (loaded current : Transaction) :
    FlushInv env {} n (.updateTransaction loaded current) (UpdatingRow env loaded) where
  stable := by
    rintro todo hits tx w w' hlocks hr ⟨hl, htodo, hhits, hgone⟩
    refine ⟨hl.stable hr, htodo, fun key hkey => ?_, fun hout => ?_⟩
    · obtain ⟨rfl, row, hrow, hid⟩ := hhits key hkey
      refine ⟨rfl, row, Held.transaction hr hrow ?_, hid⟩
      rw [hlocks, hid]
      exact List.mem_reverse.2 hkey
    · -- nobody inserts a row under an id that was in use
      refine Rely.stable_rows hr (P := fun row => row.id ≠ loaded.id) ?_ ?_ (hgone hout)
      · intro row row' hsame hrow
        rw [hsame.id]
        exact hrow
      · intro row m i hm hid _ heq
        exact hl.inUse m hm i (heq.symm.trans hid)
  skip := by
    rintro todo hits w key hkey hskip ⟨hl, htodo, hhits, -⟩
    refine ⟨hl, fun key' hkey' => htodo key' (List.mem_of_mem_erase hkey'), hhits, fun _ => ?_⟩
    obtain rfl := htodo key hkey
    have hnone : w.db.transactions.find? loaded.id = none :=
      Option.not_isSome_iff_eq_none.1 fun hsome => by
        have htakes : (w.db.transactions.find? loaded.id).isSome = false := hskip
        rw [hsome] at htakes
        cases htakes
    exact Table.find?_eq_none.1 hnone
  take := by
    rintro todo hits w key hkey - htakes ⟨hl, htodo, hhits, -⟩
    obtain rfl := htodo key hkey
    have hsome : (w.db.transactions.find? loaded.id).isSome = true := htakes
    obtain ⟨row, hrow⟩ := Option.isSome_iff_exists.1 hsome
    refine ⟨hl, fun key' hkey' => htodo key' (List.mem_of_mem_erase hkey'), fun key' hkey' => ?_,
      fun hout => ?_⟩
    · rcases List.mem_append.1 hkey' with hkey' | hkey'
      · exact hhits key' hkey'
      · exact ⟨List.mem_singleton.1 hkey', row, Table.find?_eq_some.1 hrow⟩
    · exact absurd (List.mem_append_right _ (List.mem_append_right _ (List.mem_singleton.2 rfl)))
        hout

omit [Collation] in
theorem Loaded.updatingRow [Collation] {loaded current : Transaction} (h : Loaded env loaded w) :
    UpdatingRow env loaded ((Stmt.updateTransaction loaded current).plan w.db).2 [] w where
  versions := h
  toTake key hkey := by
    obtain ⟨row, hrow, rfl⟩ := List.mem_map.1 hkey
    exact congrArg Key.transaction (Table.find?_eq_some.1 (Option.mem_toList.1 hrow)).2
  taken := by simp
  gone hout row hrow hid := by
    refine hout (List.mem_append_left _ (List.mem_map.2 ⟨row, ?_, congrArg Key.transaction hid⟩))
    exact Option.mem_toList.2 (Table.find?_eq_some.2 ⟨hrow, hid⟩)

/-- What is written goes onto the newest version of the row, if there still is one. -/
theorem served_updateTransaction (transactionId : RowId) (payload : TransactionUpdate) :
    outline engine (handle env) ok initial n
      (Served env ok n ⟨userId, .updateTransaction transactionId payload⟩)
      ⟨userId, .updateTransaction transactionId payload⟩
      (route env n userId (.updateTransaction transactionId payload)) {} w s := by
  simp only [route, updateTransaction, getTransactionOrRaise, Prog.bind_assoc, Prog.pure_eq]
  refine outline_select fun s₁ hs₁ => ?_
  have hm₁ : Opened env ok n ⟨userId, .updateTransaction transactionId payload⟩ s₁ s₁ := hs₁.during
  cases hfound : getTransaction s₁.world.db transactionId.val userId with
  | none => exact outline_refusal hm₁ rfl (by simp only [respond, hfound])
  | some loaded =>
    simp only [Prog.ret_bind]
    by_cases hgroup : loaded.transferGroupId.isSome = true
    · rw [if_pos hgroup]
      exact outline_refusal hm₁ rfl (by simp only [respond, hfound, if_pos hgroup])
    · obtain ⟨current, hcurrent⟩ : ∃ current, applyTransactionUpdate loaded payload = current :=
        ⟨_, rfl⟩
      rw [if_neg hgroup, Prog.bind_assoc, flushTransaction, hcurrent]
      by_cases heq : loaded = current
      · rw [if_pos heq]
        exact outline_moment hm₁ (by
          simp only [respond, hfound, hcurrent, if_neg hgroup, if_pos heq])
      · rw [if_neg heq, Prog.discard_eq, Prog.bind_assoc]
        obtain ⟨hloaded, hid, -⟩ := getTransaction_eq_some.1 hfound
        have hlast : Loaded env loaded s₁.world := (ledgerOk_of_run hs₁.reached).loaded hloaded
        refine outline_execute fun s₂ hs₂ => ⟨_, updatingRow_flushInv loaded current,
          (hlast.stable (later_rely hs₂)).updatingRow, ?_, ?_⟩
        · rintro hits s₃ d tx hs₃ hr₃ hwrites hfinish hupdating t ht
          have hm : Opened env ok n ⟨userId, .updateTransaction transactionId payload⟩ s₁ t :=
            ⟨hm₁.reached, hm₁.opened, (hs₂.run.trans hr₃).trans ht.run⟩
          have hfinish : (Stmt.updateTransaction loaded current).finish hits s₃.world.db =
              .error d := hfinish
          simp only [Stmt.finish] at hfinish
          split at hfinish
          · next hbig =>
            -- the check of the value does not depend on the rows
            cases hfinish
            refine .moment hm ?_ hwrites
            have hwhole : (Stmt.updateTransaction loaded current).whole s₁.world.db =
                .error .numericOverflow := by
              show Except.map _ ((Stmt.updateTransaction loaded current).finish _ _) = _
              simp only [Stmt.finish, if_pos hbig]
              rfl
            simp only [respond, hfound, hcurrent, if_neg hgroup, if_neg heq, hwhole]
            rfl
          · split at hfinish
            · next hout =>
              cases hfinish
              exact .transactionGone rfl hm hfound (hs₃.later ht) (hid ▸ hupdating.gone hout)
            · cases hfinish
        · rintro hits s₃ tx hs₃ hr₃ hlocks hfinish hupdating t ht
          have hm : Opened env ok n ⟨userId, .updateTransaction transactionId payload⟩ s₁ t :=
            ⟨hm₁.reached, hm₁.opened, (hs₂.run.trans hr₃).trans ht.run⟩
          obtain ⟨hws, hhit, hfits⟩ := updateTransaction_finish hfinish
          obtain ⟨-, row, hrow, hrid⟩ := hupdating.taken _ hhit
          have hrow' : row ∈ t.world.db.transactions :=
            Held.transaction (later_rely ht) hrow (by
              rw [hlocks, hrid]
              exact List.mem_reverse.2 hhit)
          have hview : engine.view tx t.world.db = { t.world.db with
              transactions := t.world.db.transactions.put
                ((TransactionChange.between loaded current).apply row) } := by
            rw [Engine.view, hws, ← hrid, ← apply_updateTransaction hrow']
            rfl
          subst hcurrent
          exact .transactionUpdated rfl hm hfound (by simpa using hgroup) hrow'
            (hupdating.versions.same row hrow hrid) hfits hview

/-- Where a row is that a DELETE matches, there is the row that it names. -/
def NamedIsThere (userId transactionId : Nat) (targetGroup : Option Nat) (db : Db) : Prop :=
  ∀ t ∈ db.transactions, deleteMatches userId transactionId targetGroup t = true →
    ∃ r ∈ db.transactions, r.id = transactionId ∧ r.userId = userId ∧
      r.transferGroupId = targetGroup

omit [Collation] in
/-- Rows that go together are deleted together. -/
theorem Effect.namedIsThere {m : Nat} {g : Setting} {db db' : Db} {transactionId : Nat}
    {targetGroup : Option Nat} (h : Effect env g m db db')
    (hinUse : ∀ i, transactionId ≠ env.transactionId m i) (hgroup : targetGroup ≠ some (env.uuid4 m))
    (hnamed : NamedIsThere userId transactionId targetGroup db)
    (hfresh : ∀ t ∈ db.transactions, ∀ i, t.id ≠ env.transactionId m i) :
    NamedIsThere userId transactionId targetGroup db' := by
  intro t' ht' hmatch'
  -- a new row does not match, so the row was there
  obtain ⟨t, ht, hsame⟩ : ∃ t ∈ db.transactions, SameRow t t' := by
    rcases h.transaction t' ht' with hold | ⟨⟨i, hi⟩, -, -, hnew⟩
    · exact hold
    · obtain ⟨-, hid | ⟨hsome, htarget⟩⟩ := deleteMatches_iff.1 hmatch'
      · exact absurd (hid.symm.trans hi) (hinUse i)
      · obtain ⟨group, hg⟩ := Option.ne_none_iff_exists'.1 hsome
        rw [hnew group hg] at hg
        exact absurd (htarget.symm.trans hg) hgroup
  have hmatch : deleteMatches userId transactionId targetGroup t = true :=
    hsame.deleteMatches userId transactionId targetGroup ▸ hmatch'
  obtain ⟨r, hr, hid, huser, hrgroup⟩ := hnamed t ht hmatch
  cases h with
  | nothing | accountCreated | accountPatched => exact ⟨r, hr, hid, huser, hrgroup⟩
  | transactionCreated userId' details =>
    refine ⟨r, (mem_insertAll (by simp)).2 (Or.inr ⟨hr, fun hmem => ?_⟩), hid, huser, hrgroup⟩
    rw [List.map_singleton, List.mem_singleton] at hmem
    exact hfresh r hr 0 hmem
  | transferCreated userId' details =>
    refine ⟨r, (mem_insertAll (transferRows_nodup _ _ _ _)).2 (Or.inr ⟨hr, fun hmem => ?_⟩), hid,
      huser, hrgroup⟩
    obtain ⟨row, hrow, hrid⟩ := List.mem_map.1 hmem
    obtain ⟨i, hi⟩ := transferRows_ids _ _ _ _ row hrow
    exact hfresh r hr i (hrid.symm.trans hi)
  | @transactionPatched _ _ row changes _ _ hrow =>
    by_cases hrid : r.id = row.id
    · obtain rfl := db.transactions.eq_of_key hr hrow hrid
      exact ⟨_, Table.mem_put.2 (Or.inl rfl), hid, huser, hrgroup⟩
    · exact ⟨r, Table.mem_put.2 (Or.inr ⟨hr, hrid⟩), hid, huser, hrgroup⟩
  | @deleted userId' transactionId' targetGroup' htarget =>
    refine ⟨r, Table.mem_filter.2 ⟨hr, ?_⟩, hid, huser, hrgroup⟩
    -- a DELETE that took `r` would have taken `t'` as well
    obtain ⟨ht'', hstays⟩ := Table.mem_filter.1 ht'
    rw [Bool.not_eq_true'] at hstays ⊢
    by_contra hgoes
    rw [Bool.not_eq_false, deleteMatches_iff] at hgoes
    obtain ⟨huser', hgoes⟩ := hgoes
    obtain ⟨htuser, htid | ⟨hsome, htgroup⟩⟩ := deleteMatches_iff.1 hmatch'
    · obtain rfl := db.transactions.eq_of_key hr ht'' (hid.trans htid.symm)
      rw [deleteMatches_iff.2 ⟨huser', hgoes⟩] at hstays
      cases hstays
    · have hrtarget : r.transferGroupId = targetGroup' := by
        rcases hgoes with hid' | ⟨-, hgroup'⟩
        · exact htarget r hr hid' huser'
        · exact hgroup'
      have htgoes : deleteMatches userId' transactionId' targetGroup' t' = true :=
        deleteMatches_iff.2 ⟨htuser.trans (huser.symm.trans huser'),
          Or.inr ⟨hsome, htgroup.trans (hrgroup.symm.trans hrtarget)⟩⟩
      rw [hstays] at htgoes
      cases htgoes

omit [Collation] in
theorem namedIsThere_stable {transactionId : Nat} {targetGroup : Option Nat} {keys : List Key}
    {w' : LedgerWorld} {tx : LedgerTx} (h : Rely (discipline env {}) n tx w w')
    (hd : Deleting env userId transactionId targetGroup keys w)
    (hnamed : NamedIsThere userId transactionId targetGroup w.db) :
    Deleting env userId transactionId targetGroup keys w' ∧
      NamedIsThere userId transactionId targetGroup w'.db := by
  refine h.stable (P := fun u => Deleting env userId transactionId targetGroup keys u ∧
    NamedIsThere userId transactionId targetGroup u.db) ?_ ⟨hd, hnamed⟩
  rintro u u' ho ⟨hd, hnamed⟩
  refine ⟨hd.stable (.single ho), ?_⟩
  cases ho with
  | commit _ hopen _ hinv _ hguar =>
    exact hguar.1.namedIsThere (hd.inUse _ hopen) (hd.group _ hopen) hnamed
      fun t ht i => hinv.1.transaction_ne hopen ht i
  | answer | start | tick => exact hnamed

theorem respond_delete_none {now : Int} {db : Db} {transactionId : RowId}
    (h : ∀ t ∈ db.transactions, t.id = transactionId.val → t.userId ≠ userId) :
    respond env n userId now db (.deleteTransaction transactionId) =
      (.error (.app TransactionNotFoundError), db) := by
  have hempty : ((Stmt.deleteTransaction userId transactionId.val).plan db).2.isEmpty = true := by
    show (List.map _ (db.transactions.rows.filter (deleteMatches userId transactionId.val
      (targetGroup db userId transactionId.val)))).isEmpty = true
    rw [List.isEmpty_map, List.isEmpty_iff, List.filter_eq_nil_iff, targetGroup_none h]
    rintro t ht hmatch
    obtain ⟨huser, hid | ⟨hsome, hnone⟩⟩ := deleteMatches_iff.1 hmatch
    · exact h t ht hid huser
    · exact hsome hnone
  simp only [respond, hempty, if_true]

theorem respond_delete {now : Int} {db : Db} {transactionId : RowId} {t : Transaction}
    (ht : t ∈ db.transactions) (hid : t.id = transactionId.val) (huser : t.userId = userId) :
    respond env n userId now db (.deleteTransaction transactionId) =
      (.ok .noContent, deleteRows db userId transactionId.val) := by
  have hmatch : t ∈ db.transactions.rows.filter (deleteMatches userId transactionId.val
      (targetGroup db userId transactionId.val)) :=
    List.mem_filter.2 ⟨ht, deleteMatches_iff.2 ⟨huser, Or.inl hid⟩⟩
  have hempty : ¬ ((Stmt.deleteTransaction userId transactionId.val).plan db).2.isEmpty = true := by
    show ¬ (List.map _ _).isEmpty = true
    rw [List.isEmpty_map, List.isEmpty_iff]
    exact List.ne_nil_of_mem hmatch
  simp only [respond, if_neg hempty, whole_deleteRows]
  rfl

/-- A DELETE has no constraint to break. -/
theorem deleteMatching_ne_error {userId transactionId : Nat} {group : Option Nat} {hits : List Key}
    {db : Db} {d : DbError} :
    (Stmt.deleteMatching userId transactionId group).finish hits db ≠ .error d := by
  intro h
  cases h

theorem served_deleteTransaction (transactionId : RowId) :
    outline engine (handle env) ok initial n
      (Served env ok n ⟨userId, .deleteTransaction transactionId⟩)
      ⟨userId, .deleteTransaction transactionId⟩
      (route env n userId (.deleteTransaction transactionId)) {} w s := by
  simp only [route, deleteTransaction, Prog.bind_assoc]
  refine outline_execute fun s₁ hs₁ => ?_
  obtain ⟨group, hgroup⟩ : ∃ group,
    (getTransaction s₁.world.db transactionId.val userId).bind Transaction.transferGroupId = group :=
    ⟨_, rfl⟩
  have hplan : (Stmt.deleteTransaction userId transactionId.val).plan s₁.world.db =
      (.deleteMatching userId transactionId.val group,
        (s₁.world.db.transactions.rows.filter (deleteMatches userId transactionId.val group)).map
          fun t => .transaction t.id) := by
    simp only [Stmt.plan, hgroup]
  rw [hplan]
  by_cases hkeys : s₁.world.db.transactions.rows.filter
      (deleteMatches userId transactionId.val group) = []
  · -- nothing picked: there is no such row
    rw [hkeys]
    refine ⟨fun todo hits _ => todo = [] ∧ hits = [], ⟨fun _ _ _ _ _ _ _ h => h, ?_, ?_⟩,
      ⟨rfl, rfl⟩, fun _ _ _ _ _ _ _ hfinish _ => absurd hfinish deleteMatching_ne_error, ?_⟩
    · rintro todo hits w key hkey - ⟨rfl, -⟩
      cases hkey
    · rintro todo hits w key hkey - - ⟨rfl, -⟩
      cases hkey
    · rintro hits s₂ tx hs₂ hr₂ hlocks hfinish ⟨-, rfl⟩ t ht
      refine .moment ⟨hs₁.reached, ⟨_, hs₁.conn, rfl⟩, hr₂.trans ht.run⟩
        (respond_delete_none fun r hr hid huser => ?_) (Except.ok.inj hfinish).symm
      have hmem : r ∈ s₁.world.db.transactions.rows.filter
          (deleteMatches userId transactionId.val group) :=
        List.mem_filter.2 ⟨hr, deleteMatches_iff.2 ⟨huser, Or.inl hid⟩⟩
      rw [hkeys] at hmem
      cases hmem
  · have hrows := (ledgerOk_of_run hs₁.reached).deletingRows hgroup hkeys
    have hnamed : NamedIsThere userId transactionId.val group s₁.world.db := by
      intro t ht hmatch
      obtain ⟨huser, hid | ⟨hsome, htarget⟩⟩ := deleteMatches_iff.1 hmatch
      · exact ⟨t, ht, hid, huser, hrows.deleting.target t ht hid huser⟩
      · rw [htarget, ← hgroup] at hsome
        obtain ⟨g, hg⟩ := Option.ne_none_iff_exists'.1 hsome
        obtain ⟨r, hr, -⟩ := Option.bind_eq_some_iff.1 hg
        obtain ⟨hr, hid, huser⟩ := getTransaction_eq_some.1 hr
        exact ⟨r, hr, hid, huser, hrows.deleting.target r hr hid huser⟩
    refine ⟨_, (deletingRows_flushInv userId transactionId.val group).and (fact_flushInv
      fun tx w w' hr (h : Deleting env userId transactionId.val group _ w ∧
        NamedIsThere userId transactionId.val group w.db) => namedIsThere_stable hr h.1 h.2),
      ⟨hrows, by simpa using hrows.deleting, hnamed⟩,
      fun _ _ _ _ _ _ _ hfinish _ => absurd hfinish deleteMatching_ne_error, ?_⟩
    rintro hits s₂ tx hs₂ hr₂ hlocks hfinish ⟨hrows₂, hdel₂, hnamed₂⟩
    show outline _ _ _ _ _ _ _ ((if hits.isEmpty = true then _ else _) >>= _) _ _ _
    by_cases hempty : hits.isEmpty = true
    · -- the rows were gone before they could be taken
      rw [if_pos hempty]
      obtain rfl := List.isEmpty_iff.1 hempty
      refine outline_refusal hs₂ (Except.ok.inj hfinish).symm
        (respond_delete_none fun r hr hid huser => ?_)
      have hmem := hrows₂.deleting.covered r hr (deleteMatches_iff.2 ⟨huser, Or.inl hid⟩)
      cases hmem
    · rw [if_neg hempty]
      intro t ht
      have hrely := later_rely ht
      obtain ⟨key, hkey⟩ := List.exists_mem_of_ne_nil hits fun hnil => hempty (by rw [hnil]; rfl)
      obtain ⟨r, hr, rfl, hmatch⟩ := hrows₂.hits key hkey
      have hr' : r ∈ t.world.db.transactions :=
        Held.transaction hrely hr (hlocks ▸ List.mem_reverse.2 hkey)
      obtain ⟨-, hnamed'⟩ := namedIsThere_stable hrely hdel₂ hnamed₂
      obtain ⟨r', hr', hid, huser, hrgroup⟩ := hnamed' r hr' hmatch
      have hview := hrows₂.view hrely hlocks rfl hfinish
      refine .commit ((respond_delete hr' hid huser).trans ?_) (by rw [hview])
      rw [hview, deleteRows, targetGroup_eq hr' hid huser, hrgroup]
      refine congrArg (fun p => (Except.ok Response.noContent, Db.mk t.world.db.accounts
        (t.world.db.transactions.filter p))) (funext fun x => ?_)
      rw [deleteMatches_condition, decide_not]

/-! ## Transfers -/

omit [Collation] in
/-- As many accounts were found as are named, so each was. -/
theorem transferRows_accounts {details : TransferCreate} {db : Db}
    (h : (getAccounts db details.accountIds userId).length = details.accountIds.length) :
    ∀ row ∈ transferRows env n userId details, accountExists row db = true := by
  intro row hrow
  obtain ⟨a, ha, hid, huser⟩ := (getAccounts_length_iff.1 h).find (transferRows_account hrow)
  exact accountExists_iff.2
    ⟨a, ha, hid, huser.trans (transferRows_group env n userId details row hrow).2.symm⟩

theorem served_createTransfer (details : TransferCreate) :
    outline engine (handle env) ok initial n (Served env ok n ⟨userId, .createTransfer details⟩)
      ⟨userId, .createTransfer details⟩ (route env n userId (.createTransfer details)) {} w s := by
  simp only [route, createTransfer, Prog.pure_eq]
  by_cases hdifferent : details.fromAccountId.val = details.toAccountId.val
  · rw [if_pos hdifferent]
    intro t ht
    exact .moment ht.during (by simp only [respond, if_pos hdifferent]) rfl
  · rw [if_neg hdifferent, Prog.bind_assoc]
    refine outline_select fun s₁ hs₁ => ?_
    have hm₁ : Opened env ok n ⟨userId, .createTransfer details⟩ s₁ s₁ := hs₁.during
    by_cases hfound : (getAccounts s₁.world.db details.accountIds userId).length =
        details.accountIds.length
    · rw [if_neg (not_not.2 hfound)]
      by_cases hdiffer : sameUnit (getAccounts s₁.world.db details.accountIds userId) details =
          true ∧ details.amountSent.units ≠ details.amountReceived.units
      · rw [if_pos hdiffer]
        exact outline_refusal hm₁ rfl (by
          simp only [respond, if_neg hdifferent, if_neg (not_not.2 hfound), if_pos hdiffer])
      · rw [if_neg hdiffer, Prog.bind_assoc, Prog.discard_eq, Prog.bind_assoc]
        obtain ⟨rows, hrows⟩ : ∃ rows, transferRows env n userId details = rows := ⟨_, rfl⟩
        -- every account the rows are on was found, and stays
        have hexist : ∀ row ∈ rows, accountExists row s₁.world.db = true :=
          hrows ▸ transferRows_accounts hfound
        rw [hrows]
        refine outline_execute fun s₂ hs₂ => ⟨_, none_flushInv.and (fact_flushInv
          (P := fun w => ∀ row ∈ rows, accountExists row w.db = true)
          fun _ _ _ hr h row hrow => accountExists_stable hr (h row hrow)),
          ⟨rfl, fun row hrow => accountExists_stable (later_rely hs₂) (hexist row hrow)⟩, ?_, ?_⟩
        · rintro hits s₃ d tx hs₃ - - hfinish ⟨-, hexist₃⟩ t ht
          have hnew : ∀ row ∈ rows, ∀ old ∈ s₃.world.db.transactions, old.id ≠ row.id := by
            intro row hrow
            obtain ⟨i, hi⟩ := transferRows_ids env n userId details row (hrows ▸ hrow)
            exact (ledgerOk_of_run hs₃.reached).new_row (opened_unanswered hs₃) hi
          have hwrong := insertTransactions_error hfinish hnew hexist₃
          subst hrows
          exact .transferOverflow rfl hwrong
        · rintro hits s₃ tx hs₃ hr₃ - hfinish - t ht
          obtain ⟨hws, -, hfits, -⟩ := insertTransactions_finish hfinish
          have hview : engine.view tx t.world.db = insertAll rows t.world.db := by
            rw [Engine.view, hws, applyAll_inserts]
          subst hrows
          exact .transferCreated rfl ⟨hm₁.reached, hm₁.opened, (hs₂.run.trans hr₃).trans ht.run⟩
            ⟨hdifferent, hfound, fun hsame => not_not.1 fun hne => hdiffer ⟨hsame, hne⟩⟩ hfits hview
    · rw [if_pos hfound]
      exact outline_refusal hm₁ rfl (by
        simp only [respond, if_neg hdifferent, ne_eq, hfound, not_false_eq_true, if_true])

end Transactions

/-! ## Every endpoint -/

section Endpoints

variable {env ok n} {w : LedgerWorld} {s : LedgerSystem}

theorem served_outline (req : Request) :
    outline engine (handle env) ok initial n (Served env ok n req) req (handle env n req) {} w s := by
  obtain ⟨userId, endpoint⟩ := req
  unfold handle
  cases endpoint with
  | createAccount payload => exact served_createAccount payload
  | listAccounts => exact outline_select fun s₁ hs₁ => outline_moment hs₁.during rfl
  | getAccount accountId =>
    simp only [route, getAccountOrRaise, Prog.bind_assoc]
    refine outline_select fun s₁ hs₁ => ?_
    cases hfound : getAccountWithBalance s₁.world.db accountId.val userId with
    | none => exact outline_refusal hs₁.during rfl (by simp only [respond, hfound])
    | some found => exact outline_moment hs₁.during (by simp only [respond, hfound])
  | updateAccount accountId payload => exact served_updateAccount accountId payload
  | createTransaction payload => exact served_createTransaction payload
  | listTransactions filters =>
    refine outline_select fun s₁ hs₁ => outline_select fun s₂ hs₂ => fun t ht => ?_
    exact .page rfl ⟨hs₁.reached, ⟨_, hs₁.conn, rfl⟩, hs₂.run.trans ht.run⟩
      ⟨hs₂.reached, ⟨_, hs₂.conn, rfl⟩, ht.run⟩ rfl
  | getTransaction transactionId =>
    simp only [route, getTransactionOrRaise, Prog.bind_assoc]
    refine outline_select fun s₁ hs₁ => ?_
    cases hfound : getTransaction s₁.world.db transactionId.val userId with
    | none => exact outline_refusal hs₁.during rfl (by simp only [respond, hfound])
    | some found => exact outline_moment hs₁.during (by simp only [respond, hfound])
  | updateTransaction transactionId payload => exact served_updateTransaction transactionId payload
  | deleteTransaction transactionId => exact served_deleteTransaction transactionId
  | createTransfer details => exact served_createTransfer details
  | getSummary period => exact outline_select fun s₁ hs₁ => outline_moment hs₁.during rfl

/-- What is known of a request that is about to answer. -/
theorem served_of_ret (h : Run engine (handle env) ok initial s) {c : LedgerConn}
    (hc : s.conns n = some c) {a : Response} (hp : c.prog = .ret a) :
    Served env ok n c.req (.ok a) c.tx s := by
  obtain ⟨w, t, hl, ho⟩ := h.outlined (Q := fun n req => Served env ok n req) (fun _ => rfl)
    (fun t req _ => served_outline req) n c hc
  obtain ⟨req, prog, tx⟩ := c
  obtain rfl : prog = .ret a := hp
  exact ho s hl

/-- **Every answer is one of a request served**, unless the request was given up. -/
theorem run_served (h : Run engine (handle env) ok initial s) :
    ∀ n req r, (n, req, r) ∈ s.world.log →
      (∃ e c t, r = .error e ∧ c.req = req ∧ Aborted engine (handle env) ok initial s n c e t) ∨
      ∃ c t u, c.req = req ∧ Ended engine (handle env) ok initial s n c r t u ∧
        Served env ok n req r c.tx t :=
  h.ended (Q := fun n req => Served env ok n req) (fun _ => rfl) rfl fun _ req _ => served_outline req

end Endpoints

end Tradinghub.Ledger
