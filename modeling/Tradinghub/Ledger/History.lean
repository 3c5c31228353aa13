import Tradinghub.Ledger.Names
import Tradinghub.Ledger.Units
import Mathlib.Data.List.Pairwise

/-!
# What the answers say of the rows

`Request.rows` are the rows a request asks for.  Whatever is interleaved, the transactions stored
are those of the requests that were answered, less those that an answered DELETE names
(`transactions_told`): nothing answered is lost, nothing is stored that nobody was told of, and a
transfer goes as a whole.  One step of it is `Happened`: rows recorded, deleted or edited.
-/

namespace Tradinghub.Ledger

open ReadCommitted Store

/-- The rows the request records. -/
def Request.rows (env : Env) (n : Nat) (req : Request) : List Transaction :=
  match req.endpoint with
  | .createTransaction payload => [newTransaction env n req.userId payload]
  | .createTransfer payload => transferRows env n req.userId payload
  | _ => []

/-- The transaction a DELETE names. -/
def Request.deletes (req : Request) : Option Nat :=
  match req.endpoint with
  | .deleteTransaction transactionId => some transactionId.val
  | _ => none

/-- The transaction a PATCH names. -/
def Request.edits (req : Request) : Option Nat :=
  match req.endpoint with
  | .updateTransaction transactionId _ => some transactionId.val
  | _ => none

/-- Request `n`, which was `req`, was answered and not refused. -/
def Done (s : LedgerSystem) (n : Nat) (req : Request) : Prop := ∃ a, (n, req, .ok a) ∈ s.world.log

instance (s : LedgerSystem) (n : Nat) (req : Request) : Decidable (Done s n req) :=
  decidable_of_iff (∃ e ∈ s.world.log, e.1 = n ∧ e.2.1 = req ∧ e.2.2.isOk = true) <| by
    constructor
    · rintro ⟨⟨m, req', r⟩, he, rfl, rfl, hok⟩
      cases r with
      | ok a => exact ⟨a, he⟩
      | error e => cases hok
    · rintro ⟨a, he⟩
      exact ⟨_, he, rfl, rfl, rfl⟩

/-- An answered DELETE names one of the rows of request `n`. -/
def Erased (env : Env) (s : LedgerSystem) (n : Nat) (req : Request) : Prop :=
  ∃ m req', Done s m req' ∧ ∃ row ∈ req.rows env n, req'.deletes = some row.id

/-- An answered PATCH names the transaction. -/
def Edited (s : LedgerSystem) (id : Nat) : Prop := ∃ m req', Done s m req' ∧ req'.edits = some id

/-! ## The rows of a request -/

section Rows

variable {env : Env} {n m : Nat} {req req' : Request} {row row' : Transaction}

theorem row_ids (h : row ∈ req.rows env n) : ∃ i, row.id = env.transactionId n i := by
  obtain ⟨userId, endpoint⟩ := req
  cases endpoint with
  | createTransaction payload =>
    rw [List.mem_singleton.1 h]
    exact ⟨0, rfl⟩
  | createTransfer payload => exact transferRows_ids env n userId payload row h
  | _ => cases h

theorem rows_nodup : ((req.rows env n).map Transaction.id).Nodup := by
  obtain ⟨userId, endpoint⟩ := req
  cases endpoint with
  | createTransaction payload => exact List.nodup_singleton _
  | createTransfer payload => exact transferRows_nodup env n userId payload
  | _ => exact List.nodup_nil

/-- No two requests have a row in common. -/
theorem rows_apart (h : row ∈ req.rows env n) (h' : row' ∈ req'.rows env m)
    (hid : row.id = row'.id) : n = m := by
  obtain ⟨i, hi⟩ := row_ids h
  obtain ⟨j, hj⟩ := row_ids h'
  exact (env.transactionId_fresh n i m j (hi.symm.trans (hid.trans hj))).1

/-- A request has one owner and one group, and without a group it has one row. -/
theorem rows_group (h : row ∈ req.rows env n) : row.userId = req.userId ∧
    (row.transferGroupId = none ∧ req.rows env n = [row] ∨
      ∀ row' ∈ req.rows env n, row'.transferGroupId = some (env.uuid4 n)) := by
  obtain ⟨userId, endpoint⟩ := req
  cases endpoint with
  | createTransaction payload =>
    rw [List.mem_singleton.1 h]
    exact ⟨rfl, Or.inl ⟨rfl, rfl⟩⟩
  | createTransfer payload =>
    have hgroup := transferRows_group env n userId payload
    exact ⟨(hgroup row h).2, Or.inr fun row' h' => (hgroup row' h').1⟩
  | _ => cases h

/-- A DELETE of one row takes every row of its request. -/
theorem rows_together (h : row ∈ req.rows env n) (h' : row' ∈ req.rows env n) :
    deleteMatches req.userId row.id row.transferGroupId row' = true := by
  obtain ⟨-, hgroup⟩ := rows_group h
  refine deleteMatches_iff.2 ⟨(rows_group h').1, ?_⟩
  rcases hgroup with ⟨-, hrows⟩ | hgroup
  · rw [hrows, List.mem_singleton] at h'
    exact Or.inl (by rw [h'])
  · exact Or.inr ⟨by simp [hgroup row' h'], (hgroup row' h').trans (hgroup row h).symm⟩

/-- And no row of another. -/
theorem rows_alone {userId : Nat} (h : row ∈ req.rows env n) (h' : row' ∈ req'.rows env m)
    (hmatch : deleteMatches userId row.id row.transferGroupId row' = true) : n = m := by
  obtain ⟨-, hid | ⟨hsome, hsame⟩⟩ := deleteMatches_iff.1 hmatch
  · exact rows_apart h h' hid.symm
  · obtain ⟨-, ⟨hnone, -⟩ | hgroup'⟩ := rows_group h'
    · exact absurd hnone hsome
    · obtain ⟨-, ⟨hnone, -⟩ | hgroup⟩ := rows_group h
      · exact absurd (hsame.trans hnone) hsome
      · have huuid := (hgroup row h).symm.trans (hsame.symm.trans (hgroup' row' h'))
        exact env.uuid4_fresh n m (Option.some.inj huuid)

end Rows

/-! ## One answer -/

/-- What the answer of request `n` did to the transactions. -/
inductive Happened (env : Env) (n : Nat) (req : Request) (db db' : Db) : Prop
  | recorded (hrows : req.rows env n ≠ []) (hdeletes : req.deletes = none)
      (h : db'.transactions = (insertAll (req.rows env n) db).transactions)
  | deleted {row : Transaction} (hrows : req.rows env n = []) (hrow : row ∈ db.transactions)
      (huser : row.userId = req.userId) (hdeletes : req.deletes = some row.id)
      (h : ∀ t, t ∈ db'.transactions ↔
        t ∈ db.transactions ∧ deleteMatches req.userId row.id row.transferGroupId t = false)
  | edited (hrows : req.rows env n = []) (hdeletes : req.deletes = none)
      (hkept : ∀ t ∈ db.transactions, ∃ t' ∈ db'.transactions, SameRow t t' ∧
        (req.edits ≠ some t.id → t' = t))
      (hold : ∀ t' ∈ db'.transactions, ∃ t ∈ db.transactions, SameRow t t')

section Answers

variable {env : Env} {n userId : Nat} {req : Request} {now : Int} {db db' : Db} {a : Response}

theorem Happened.same (hrows : req.rows env n = []) (hdeletes : req.deletes = none)
    (h : db'.transactions = db.transactions) : Happened env n req db db' := by
  refine .edited hrows hdeletes (fun t ht => ?_) fun t ht => ?_
  · exact ⟨t, h ▸ ht, .refl t, fun _ => rfl⟩
  · exact ⟨t, h ▸ ht, .refl t⟩

/-- One row written anew. -/
theorem Happened.put {loaded row : Transaction} (hrows : req.rows env n = [])
    (hdeletes : req.deletes = none) (hloaded : loaded ∈ db.transactions) (hsame : SameRow loaded row)
    (hedits : req.edits = some loaded.id)
    (h : db'.transactions = db.transactions.put row) : Happened env n req db db' := by
  refine .edited hrows hdeletes (fun t ht => ?_) fun t ht => ?_
  · by_cases hid : t.id = row.id
    · obtain rfl := db.transactions.eq_of_key ht hloaded (hid.trans hsame.id)
      exact ⟨row, h ▸ Table.mem_put.2 (Or.inl rfl), hsame, fun hne => absurd hedits hne⟩
    · exact ⟨t, h ▸ Table.mem_put.2 (Or.inr ⟨ht, hid⟩), .refl t, fun _ => rfl⟩
  · rw [h] at ht
    rcases Table.mem_put.1 ht with rfl | ⟨hold, -⟩
    · exact ⟨loaded, hloaded, hsame⟩
    · exact ⟨t, hold, .refl t⟩

theorem settle_ok {result : Except DbError Db} {failure : DbError → Failure} {b : Response}
    (h : settle result failure b db = (.ok a, db')) : result = .ok db' := by
  cases result with
  | ok db₁ => exact congrArg Except.ok (Prod.mk.inj h).2
  | error d => cases (Prod.mk.inj h).1

variable [Collation]

/-- What an answer does, alone. -/
theorem respond_happened {endpoint : Endpoint}
    (h : respond env n userId now db endpoint = (.ok a, db')) :
    Happened env n ⟨userId, endpoint⟩ db db' := by
  cases endpoint with
  | createAccount payload => exact .same rfl rfl (whole_insertAccount (settle_ok h))
  | listAccounts | listTransactions | getSummary =>
    exact .same rfl rfl (congrArg Db.transactions (Prod.mk.inj h).2.symm)
  | getAccount accountId =>
    simp only [respond] at h
    cases hfound : getAccountWithBalance db accountId.val userId with
    | none => rw [hfound] at h; cases (Prod.mk.inj h).1
    | some found =>
      rw [hfound] at h
      exact .same rfl rfl (congrArg Db.transactions (Prod.mk.inj h).2.symm)
  | updateAccount accountId payload =>
    simp only [respond] at h
    cases hfound : getAccountWithBalance db accountId.val userId with
    | none => rw [hfound] at h; cases (Prod.mk.inj h).1
    | some found =>
      simp only [hfound] at h
      split at h
      · exact .same rfl rfl (congrArg Db.transactions (Prod.mk.inj h).2.symm)
      · obtain ⟨hmem, -⟩ := mem_of_getAccountWithBalance hfound
        exact .same rfl rfl (whole_updateAccount hmem (settle_ok h))
  | createTransaction payload =>
    simp only [respond] at h
    cases hfound : getAccount db payload.accountId.val userId with
    | none => rw [hfound] at h; cases (Prod.mk.inj h).1
    | some found =>
      simp only [hfound] at h
      obtain ⟨rfl, -⟩ := whole_insertTransactions (settle_ok h)
      exact .recorded (List.cons_ne_nil _ _) rfl rfl
  | getTransaction transactionId =>
    simp only [respond] at h
    cases hfound : getTransaction db transactionId.val userId with
    | none => rw [hfound] at h; cases (Prod.mk.inj h).1
    | some found =>
      rw [hfound] at h
      exact .same rfl rfl (congrArg Db.transactions (Prod.mk.inj h).2.symm)
  | updateTransaction transactionId payload =>
    simp only [respond] at h
    cases hfound : getTransaction db transactionId.val userId with
    | none => rw [hfound] at h; cases (Prod.mk.inj h).1
    | some loaded =>
      obtain ⟨hloaded, hid, -⟩ := getTransaction_eq_some.1 hfound
      simp only [hfound] at h
      split at h
      · cases (Prod.mk.inj h).1
      · split at h
        · exact .same rfl rfl (congrArg Db.transactions (Prod.mk.inj h).2.symm)
        · obtain ⟨rfl, -⟩ := whole_updateTransaction hloaded (settle_ok h)
          have hsame : SameRow loaded (applyTransactionUpdate loaded payload) := ⟨rfl, rfl, rfl, rfl⟩
          exact .put rfl rfl hloaded hsame (congrArg some hid.symm) rfl
  | deleteTransaction transactionId =>
    simp only [respond] at h
    split at h
    · cases (Prod.mk.inj h).1
    · next hempty =>
      rw [whole_deleteRows] at h
      obtain rfl := (Prod.mk.inj h).2
      -- something was picked, so the row that is named is there
      obtain ⟨row, hrow, hid, huser⟩ : ∃ row ∈ db.transactions, row.id = transactionId.val ∧
          row.userId = userId := by
        by_contra hnone
        push Not at hnone
        have hgone : respond env n userId now db (.deleteTransaction transactionId) =
            (.error (.app TransactionNotFoundError), db) := respond_delete_none hnone
        simp only [respond, if_neg hempty, whole_deleteRows] at hgone
        cases (Prod.mk.inj hgone).1
      refine .deleted rfl hrow huser (congrArg some hid.symm) fun t => ?_
      rw [deleteRows, targetGroup_eq hrow hid huser, Table.mem_filter, hid]
      refine and_congr_right fun _ => ?_
      rw [deleteMatches_condition]
      simp
  | createTransfer payload =>
    simp only [respond] at h
    split at h
    · cases (Prod.mk.inj h).1
    · split at h
      · cases (Prod.mk.inj h).1
      · split at h
        · cases (Prod.mk.inj h).1
        · obtain ⟨rfl, -⟩ := whole_insertTransactions (settle_ok h)
          exact .recorded (List.cons_ne_nil _ _) rfl rfl

end Answers

section Steps

variable [Collation] {env : Env} {ok : LedgerSystem → Action Key Failure Request → Prop} {n : Nat}
  {req : Request} {s t : LedgerSystem} {tx : LedgerTx} {a : Response}

/-- What an answer does, whatever is interleaved. -/
theorem Served.happened (h : Served env ok n req (.ok a) tx t) :
    Happened env n req t.world.db (engine.view tx t.world.db) := by
  have unwritten : tx.writes = [] → engine.view tx t.world.db = t.world.db := by
    intro hwrites
    rw [Engine.view, hwrites]
    rfl
  obtain ⟨userId, endpoint⟩ := req
  cases h with
  | @moment _ _ _ m hm hrespond hwrites =>
    rw [unwritten hwrites]
    cases respond_happened hrespond with
    | recorded hrows _ hdb =>
      -- a row of its own would have been there before
      obtain ⟨row, hrow⟩ := List.exists_mem_of_ne_nil _ hrows
      have hmem : row ∈ m.world.db.transactions := by
        rw [hdb]
        exact (mem_insertAll rows_nodup).2 (Or.inl hrow)
      obtain ⟨i, hi⟩ := row_ids hrow
      exact absurd hi ((ledgerOk_of_run hm.reached).transaction_ne (opened_unanswered hm) hmem i)
    | @deleted row _ hrow huser _ hdb =>
      have hmatch : deleteMatches userId row.id row.transferGroupId row = true :=
        deleteMatches_iff.2 ⟨huser, Or.inl rfl⟩
      obtain ⟨-, hstays⟩ := (hdb row).1 hrow
      rw [hmatch] at hstays
      cases hstays
    | edited hrows hdeletes => exact .same hrows hdeletes rfl
  | commit hrespond => exact respond_happened hrespond
  | page hreq _ _ hwrites =>
    obtain rfl : endpoint = _ := hreq
    rw [unwritten hwrites]
    exact .same rfl rfl rfl
  | accountCreated hreq _ _ hfinish =>
    obtain rfl : endpoint = _ := hreq
    obtain ⟨hws, -⟩ := insertAccount_finish hfinish
    exact .same rfl rfl (by rw [Engine.view, hws]; rfl)
  | accountUpdated hreq hm₁ hfound _ _ hfinish =>
    obtain rfl : endpoint = _ := hreq
    obtain ⟨row, -, -, -, hview⟩ := updated_view hm₁ hfound hfinish
    exact .same rfl rfl (by rw [hview])
  | @transactionUpdated _ _ m transactionId payload loaded row hreq hm hloaded hgroup hrow hsame hfits
      hview =>
    obtain rfl : endpoint = _ := hreq
    obtain ⟨-, hid, -⟩ := getTransaction_eq_some.1 hloaded
    exact .put rfl rfl hrow (.apply _ row) (congrArg some (hsame.id.trans hid).symm) (by rw [hview])
  | transferCreated hreq _ _ _ hview =>
    obtain rfl : endpoint = _ := hreq
    exact .recorded (List.cons_ne_nil _ _) rfl (by rw [hview]; rfl)

end Steps

/-! ## Whole runs -/

/-- What the answers say of the rows. -/
structure History (env : Env) (s : LedgerSystem) : Prop where
  kept : ∀ n req, Done s n req → ¬ Erased env s n req → ∀ row ∈ req.rows env n,
    ∃ t ∈ s.world.db.transactions, SameRow row t ∧ (¬ Edited s row.id → t = row)
  traced : ∀ t ∈ s.world.db.transactions, ∃ n req, Done s n req ∧ ¬ Erased env s n req ∧
    ∃ row ∈ req.rows env n, SameRow row t
  named : ∀ m del id, Done s m del → del.deletes = some id →
    ∃ n req, Done s n req ∧ req.userId = del.userId ∧ ∃ row ∈ req.rows env n, row.id = id
  once : ∀ n req, Done s n req → ∀ row ∈ req.rows env n, ∀ row' ∈ req.rows env n,
    ∀ m del m' del', Done s m del → Done s m' del' → del.deletes = some row.id →
    del'.deletes = some row'.id → m = m'

section Histories

variable {env : Env} {n m : Nat} {req req' : Request} {s s' : LedgerSystem} {a : Response}

/-- A request is answered once. -/
theorem done_once (honce : s.world.log.Pairwise fun e e' => e.1 ≠ e'.1) (h : Done s n req)
    (h' : Done s n req') : req = req' := by
  obtain ⟨a, ha⟩ := h
  obtain ⟨a', ha'⟩ := h'
  have heq : (n, req, (Except.ok a : Except Failure Response)) = (n, req', Except.ok a') := by
    by_contra hne
    have hsymm : Std.Symm fun e e' : Nat × Request × Except Failure Response => e.1 ≠ e'.1 :=
      ⟨fun _ _ => Ne.symm⟩
    exact honce.forall ha ha' hne rfl
  exact (Prod.mk.inj (Prod.mk.inj heq).2).1

theorem done_cons (hlog : s'.world.log = (n, req, .ok a) :: s.world.log) :
    Done s' m req' ↔ (m = n ∧ req' = req) ∨ Done s m req' := by
  simp only [Done, hlog, List.mem_cons, Prod.mk.injEq, Except.ok.injEq]
  constructor
  · rintro ⟨b, ⟨hm, hreq, -⟩ | hb⟩
    · exact Or.inl ⟨hm, hreq⟩
    · exact Or.inr ⟨b, hb⟩
  · rintro (⟨hm, hreq⟩ | ⟨b, hb⟩)
    · exact ⟨a, Or.inl ⟨hm, hreq, rfl⟩⟩
    · exact ⟨b, Or.inr hb⟩

/-- What was erased before stays erased. -/
theorem Erased.mono (hlog : s'.world.log = (n, req, .ok a) :: s.world.log)
    (h : Erased env s m req') : Erased env s' m req' := by
  obtain ⟨k, del, hdel, hrow⟩ := h
  exact ⟨k, del, (done_cons hlog).2 (Or.inr hdel), hrow⟩

theorem Edited.mono (hlog : s'.world.log = (n, req, .ok a) :: s.world.log) {id : Nat}
    (h : Edited s id) : Edited s' id := by
  obtain ⟨k, patch, hpatch, hid⟩ := h
  exact ⟨k, patch, (done_cons hlog).2 (Or.inr hpatch), hid⟩

/-- What an answer that is no DELETE erases. -/
theorem Erased.of_cons (hlog : s'.world.log = (n, req, .ok a) :: s.world.log)
    (hdeletes : req.deletes = none) (h : Erased env s' m req') : Erased env s m req' := by
  obtain ⟨k, del, hdel, row, hrow, hid⟩ := h
  rcases (done_cons hlog).1 hdel with ⟨-, rfl⟩ | hdel
  · rw [hdeletes] at hid
    cases hid
  · exact ⟨k, del, hdel, row, hrow, hid⟩

/-- The rows of a request that is still open have not been named. -/
theorem History.not_erased (h : History env s) (hn : s.world.Unanswered n) (req : Request) :
    ¬ Erased env s n req := by
  rintro ⟨m, del, hdel, row, hrow, hid⟩
  obtain ⟨k, req', ⟨b, hb⟩, -, row', hrow', hid'⟩ := h.named m del row.id hdel hid
  exact hn _ hb (rows_apart hrow' hrow hid')

theorem History.recorded (h : History env s) (hok : LedgerOk env s.world)
    (hn : s.world.Unanswered n) (hlog : s'.world.log = (n, req, .ok a) :: s.world.log)
    (hdeletes : req.deletes = none)
    (hdb : s'.world.db.transactions = (insertAll (req.rows env n) s.world.db).transactions) :
    History env s' := by
  have hmem : ∀ t, t ∈ s'.world.db.transactions ↔
      t ∈ req.rows env n ∨ t ∈ s.world.db.transactions ∧ t.id ∉ (req.rows env n).map Transaction.id :=
    fun t => by rw [hdb]; exact mem_insertAll rows_nodup
  have hold : ∀ t ∈ s.world.db.transactions, t ∈ s'.world.db.transactions := by
    intro t ht
    refine (hmem t).2 (Or.inr ⟨ht, fun hin => ?_⟩)
    obtain ⟨row, hrow, hid⟩ := List.mem_map.1 hin
    obtain ⟨i, hi⟩ := row_ids hrow
    exact hok.transaction_ne hn ht i (hid.symm.trans hi)
  have hdel : ∀ {k d}, Done s' k d → d.deletes ≠ none → Done s k d := by
    intro k d hd hsome
    rcases (done_cons hlog).1 hd with ⟨-, rfl⟩ | hd
    · exact absurd hdeletes hsome
    · exact hd
  constructor
  · intro k req' hdone herased row hrow
    rcases (done_cons hlog).1 hdone with ⟨rfl, rfl⟩ | hdone
    · exact ⟨row, (hmem row).2 (Or.inl hrow), .refl row, fun _ => rfl⟩
    · obtain ⟨t, ht, hsame, hunedited⟩ := h.kept k req' hdone (fun he => herased (he.mono hlog)) row hrow
      exact ⟨t, hold t ht, hsame, fun he => hunedited fun he' => he (he'.mono hlog)⟩
  · intro t ht
    rcases (hmem t).1 ht with hnew | ⟨ht, -⟩
    · exact ⟨n, req, (done_cons hlog).2 (Or.inl ⟨rfl, rfl⟩),
        fun he => h.not_erased hn req (he.of_cons hlog hdeletes), t, hnew, .refl t⟩
    · obtain ⟨k, req', hdone, herased, hrow⟩ := h.traced t ht
      exact ⟨k, req', (done_cons hlog).2 (Or.inr hdone),
        fun he => herased (he.of_cons hlog hdeletes), hrow⟩
  · intro k del id hdone hid
    obtain ⟨j, req', hdone', hrest⟩ := h.named k del id (hdel hdone (by simp [hid])) hid
    exact ⟨j, req', (done_cons hlog).2 (Or.inr hdone'), hrest⟩
  · intro k req' hdone row hrow row' hrow' i del i' del' hd hd' hid hid'
    replace hd := hdel hd (by simp [hid])
    replace hd' := hdel hd' (by simp [hid'])
    rcases (done_cons hlog).1 hdone with ⟨rfl, rfl⟩ | hdone
    · exact absurd ⟨i, del, hd, row, hrow, hid⟩ (h.not_erased hn _)
    · exact h.once k req' hdone row hrow row' hrow' i del i' del' hd hd' hid hid'

theorem History.deleted (h : History env s)
    (hanswered : s.world.log.Pairwise fun e e' => e.1 ≠ e'.1) (hlog : s'.world.log = (n, req, .ok a) :: s.world.log)
    (hrows : req.rows env n = []) {t₀ : Transaction} (ht₀ : t₀ ∈ s.world.db.transactions)
    (huser : t₀.userId = req.userId) (hdeletes : req.deletes = some t₀.id)
    (hdb : ∀ t, t ∈ s'.world.db.transactions ↔ t ∈ s.world.db.transactions ∧
      deleteMatches req.userId t₀.id t₀.transferGroupId t = false) : History env s' := by
  -- the request whose rows go
  obtain ⟨k₀, req₀, hdone₀, herased₀, row₀, hrow₀, hsame₀⟩ := h.traced t₀ ht₀
  have howner : req₀.userId = req.userId :=
    (rows_group hrow₀).1.symm.trans (hsame₀.userId.symm.trans huser)
  have hid₀ : req.deletes = some row₀.id := hdeletes.trans (congrArg some hsame₀.id)
  -- a row of any request goes if it is one of that one's
  have hgoes : ∀ {k req' row t}, row ∈ Request.rows env k req' → SameRow row t →
      deleteMatches req.userId t₀.id t₀.transferGroupId t =
        deleteMatches req.userId row₀.id row₀.transferGroupId row := by
    intro k req' row t _ hsame
    rw [hsame.deleteMatches, hsame₀.id, hsame₀.group]
  have hdone : ∀ {k d}, Done s' k d → d.rows env k ≠ [] → Done s k d := by
    intro k d hd hne
    rcases (done_cons hlog).1 hd with ⟨rfl, rfl⟩ | hd
    · exact absurd hrows hne
    · exact hd
  constructor
  · intro k req' hd herased row hrow
    replace hd := hdone hd (List.ne_nil_of_mem hrow)
    obtain ⟨t, ht, hsame, hunedited⟩ := h.kept k req' hd (fun he => herased (he.mono hlog)) row hrow
    refine ⟨t, (hdb t).2 ⟨ht, ?_⟩, hsame, fun he => hunedited fun he' => he (he'.mono hlog)⟩
    by_contra hmatch
    rw [Bool.not_eq_false, hgoes hrow hsame] at hmatch
    obtain rfl := rows_alone hrow₀ hrow hmatch
    obtain rfl := done_once hanswered hdone₀ hd
    exact herased ⟨n, req, (done_cons hlog).2 (Or.inl ⟨rfl, rfl⟩), row₀, hrow₀, hid₀⟩
  · intro t ht
    obtain ⟨ht, hstays⟩ := (hdb t).1 ht
    obtain ⟨k, req', hd, herased, row, hrow, hsame⟩ := h.traced t ht
    refine ⟨k, req', (done_cons hlog).2 (Or.inr hd), ?_, row, hrow, hsame⟩
    rintro ⟨m, del, hdel, row', hrow', hid'⟩
    rcases (done_cons hlog).1 hdel with ⟨-, rfl⟩ | hdel
    · have hid : row₀.id = row'.id := Option.some.inj (hid₀.symm.trans hid')
      obtain rfl := rows_apart hrow₀ hrow' hid
      obtain rfl := done_once hanswered hdone₀ hd
      have htogether := rows_together hrow₀ hrow
      rw [howner, ← hgoes hrow hsame, hstays] at htogether
      cases htogether
    · exact herased ⟨m, del, hdel, row', hrow', hid'⟩
  · intro m del id hdel hid
    rcases (done_cons hlog).1 hdel with ⟨-, rfl⟩ | hdel
    · exact ⟨k₀, req₀, (done_cons hlog).2 (Or.inr hdone₀), howner, row₀, hrow₀,
        Option.some.inj (hid₀.symm.trans hid)⟩
    · obtain ⟨k, req', hd, hrest⟩ := h.named m del id hdel hid
      exact ⟨k, req', (done_cons hlog).2 (Or.inr hd), hrest⟩
  · intro k req' hd row hrow row' hrow' i del i' del' hdel hdel' hid hid'
    replace hd := hdone hd (List.ne_nil_of_mem hrow)
    -- the rows of the new one were still there
    have fresh : ∀ {r : Transaction}, r ∈ req'.rows env k → req.deletes = some r.id →
        ∀ {r' j d}, r' ∈ req'.rows env k → Done s j d → d.deletes = some r'.id → False := by
      intro r hr hreq r' j d hr' hj hd'
      obtain rfl := rows_apart hrow₀ hr (Option.some.inj (hid₀.symm.trans hreq))
      obtain rfl := done_once hanswered hdone₀ hd
      exact herased₀ ⟨j, d, hj, r', hr', hd'⟩
    rcases (done_cons hlog).1 hdel with ⟨rfl, rfl⟩ | hold
    · rcases (done_cons hlog).1 hdel' with ⟨rfl, -⟩ | hold'
      · rfl
      · exact (fresh hrow hid hrow' hold' hid').elim
    · rcases (done_cons hlog).1 hdel' with ⟨rfl, rfl⟩ | hold'
      · exact (fresh hrow' hid' hrow hold hid).elim
      · exact h.once k req' hd row hrow row' hrow' i del i' del' hold hold' hid hid'

theorem History.edited (h : History env s)
    (hlog : s'.world.log = (n, req, .ok a) :: s.world.log) (hrows : req.rows env n = [])
    (hdeletes : req.deletes = none)
    (hkept : ∀ t ∈ s.world.db.transactions, ∃ t' ∈ s'.world.db.transactions, SameRow t t' ∧
      (req.edits ≠ some t.id → t' = t))
    (hold : ∀ t' ∈ s'.world.db.transactions, ∃ t ∈ s.world.db.transactions, SameRow t t') :
    History env s' := by
  have hdone : ∀ {k d}, Done s' k d → d.rows env k ≠ [] → Done s k d := by
    intro k d hd hne
    rcases (done_cons hlog).1 hd with ⟨rfl, rfl⟩ | hd
    · exact absurd hrows hne
    · exact hd
  have hdel : ∀ {k d}, Done s' k d → d.deletes ≠ none → Done s k d := by
    intro k d hd hsome
    rcases (done_cons hlog).1 hd with ⟨-, rfl⟩ | hd
    · exact absurd hdeletes hsome
    · exact hd
  constructor
  · intro k req' hd herased row hrow
    replace hd := hdone hd (List.ne_nil_of_mem hrow)
    obtain ⟨t, ht, hsame, hunedited⟩ := h.kept k req' hd (fun he => herased (he.mono hlog)) row hrow
    obtain ⟨t', ht', hsame', hunpatched⟩ := hkept t ht
    refine ⟨t', ht', hsame.trans hsame', fun he => ?_⟩
    have hid : req.edits ≠ some t.id := by
      rw [hsame.id]
      exact fun hid => he ⟨n, req, (done_cons hlog).2 (Or.inl ⟨rfl, rfl⟩), hid⟩
    exact (hunpatched hid).trans (hunedited fun he' => he (he'.mono hlog))
  · intro t' ht'
    obtain ⟨t, ht, hsame'⟩ := hold t' ht'
    obtain ⟨k, req', hd, herased, row, hrow, hsame⟩ := h.traced t ht
    exact ⟨k, req', (done_cons hlog).2 (Or.inr hd), fun he => herased (he.of_cons hlog hdeletes),
      row, hrow, hsame.trans hsame'⟩
  · intro m del id hd hid
    obtain ⟨k, req', hd', hrest⟩ := h.named m del id (hdel hd (by simp [hid])) hid
    exact ⟨k, req', (done_cons hlog).2 (Or.inr hd'), hrest⟩
  · intro k req' hd row hrow row' hrow' i del i' del' hi hi' hid hid'
    exact h.once k req' (hdone hd (List.ne_nil_of_mem hrow)) row hrow row' hrow' i del i' del'
      (hdel hi (by simp [hid])) (hdel hi' (by simp [hid'])) hid hid'

variable [Collation] {ok : LedgerSystem → Action Key Failure Request → Prop}

/-- Requests commit with their answer. -/
theorem answers_commit (hr : Run engine (handle env) ok initial s) :
    ∀ n c k, s.conns n = some c → c.prog ≠ .commit k := by
  intro n c k hc hp
  have hstage := ledger_stages hr n c hc
  rw [hp] at hstage
  exact hstage.not_commit

theorem run_history (h : Run engine (handle env) ok initial s) : History env s := by
  induction h with
  | refl =>
    have hdone : ∀ {n req}, ¬ Done initial n req := fun ⟨a, ha⟩ => absurd ha List.not_mem_nil
    exact ⟨fun n req hd => absurd hd hdone, fun t ht => absurd ht (Table.not_mem_empty t),
      fun m del id hd => absurd hd hdone, fun n req hd => absurd hd hdone⟩
  | @tail s s' act hr hok hs ih =>
    rcases step_told hs (answers_commit hr) with ⟨hdb, hlog⟩ | ⟨n, c, x, hc, hp, hdb, hlog⟩
    · have hdone : Done s' = Done s :=
        funext fun n => funext fun req => propext (exists_congr (hlog n req))
      obtain ⟨hkept, htraced, hnamed, honce⟩ := ih
      constructor <;> simp only [Erased, Edited, hdone, hdb]
      · exact hkept
      · exact htraced
      · exact hnamed
      · exact honce
    · have hgood := run_good hr
      have hn := hgood.unanswered n c hc
      have hdid := (served_of_ret hr hc hp).happened
      rw [← hdb] at hdid
      cases hdid with
      | recorded _ hdeletes htransactions =>
        exact ih.recorded hgood.inv.1 hn hlog hdeletes htransactions
      | deleted hrows hrow huser hdeletes htransactions =>
        exact ih.deleted hgood.once hlog hrows hrow huser hdeletes htransactions
      | edited hrows hdeletes hkept hold => exact ih.edited hlog hrows hdeletes hkept hold

/-- **Rows are deleted once, and by their owner**: whatever is interleaved, an answered DELETE names
a row that its own user had recorded, and no other answered DELETE names a row of the same request. -/
theorem deleted_once (h : Run engine (handle env) ok initial s) {m id : Nat} {del : Request}
    (hdel : Done s m del) (hid : del.deletes = some id) :
    ∃ n req, Done s n req ∧ req.userId = del.userId ∧ (∃ row ∈ req.rows env n, row.id = id) ∧
      ∀ m' del', Done s m' del' → (∃ row ∈ req.rows env n, del'.deletes = some row.id) → m' = m := by
  obtain ⟨n, req, hd, huser, row, hrow, rfl⟩ := (run_history h).named m del id hdel hid
  refine ⟨n, req, hd, huser, ⟨row, hrow, rfl⟩, ?_⟩
  rintro m' del' hdel' ⟨row', hrow', hid'⟩
  exact (run_history h).once n req hd row' hrow' row hrow m' del' m del hdel' hdel hid' hid

end Histories

/-! ## Two DELETEs of one transfer -/

/-- Request 3 records an income, requests 4 and 5 delete the two sides of the transfer of request 2:
both have found it when request 4 takes its rows. -/
def deletedTwice : List (Action Key Failure Request) :=
  exchanged ++
  [.start ⟨1, .createTransaction
      { accountId := .one, amount := ⟨17 * 10 ^ 18, by decide⟩, kind := .income, occurredAt := 0 }⟩,
    .advance 3, .advance 3, .advance 3, .advance 3,
    .start ⟨1, .deleteTransaction ⟨6, by decide, by decide⟩⟩,
    .start ⟨1, .deleteTransaction ⟨7, by decide, by decide⟩⟩, .advance 4, .advance 5,
    .lock 4 (.transaction 6), .lock 4 (.transaction 7), .lock 4 (.transaction 8),
    .advance 4, .advance 4,
    .lock 5 (.transaction 8), .lock 5 (.transaction 7), .lock 5 (.transaction 6),
    .advance 5, .advance 5]

theorem transfer_deleted_once : ∃ (_ : Collation) (s : LedgerSystem) (del : Request),
    runList engine (handle .counting) initial deletedTwice = some s ∧ Done s 4 del ∧
    ∃ n req, Done s n req ∧ req.userId = del.userId ∧
      ∀ m' del', Done s m' del' → (∃ row ∈ req.rows .counting n, del'.deletes = some row.id) →
        m' = 4 := by
  let _ : Collation := Collation.codePoints
  have hrun : (runList engine (handle .counting) initial deletedTwice).any (fun s =>
      decide (Done s 4 ⟨1, .deleteTransaction ⟨6, by decide, by decide⟩⟩)) = true := by
    decide +kernel
  obtain ⟨s, hlist, hs, hp⟩ := exists_run hrun
  have hdone := of_decide_eq_true hp
  obtain ⟨n, req, hd, huser, -, honly⟩ := deleted_once hs hdone rfl
  exact ⟨Collation.codePoints, s, _, hlist, hdone, n, req, hd, huser, honly⟩

end Tradinghub.Ledger
