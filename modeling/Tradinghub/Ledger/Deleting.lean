import Tradinghub.Ledger.Transferring

/-!
# Deleting removes one event

The DELETE matches the row with the id, or the rows whose group equals the subquery's answer, which
is null when the row has no group or there is no such row (`deleteCondition`).  So it takes the row
alone or its whole group, and of nobody else (`DeletesOneEvent`), and deleting a transfer by any of
its rows is the inverse of recording it (`delete_exact`).
-/

namespace Tradinghub.Ledger

open ReadCommitted Store

/-- The WHERE clause as it is sent, in three-valued logic. -/
def deleteCondition (userId transactionId : Nat) (targetGroup : Option Nat) (t : Transaction) :
    Sql.Truth :=
  Sql.and (Sql.eq (some t.userId) (some userId))
    (Sql.or (Sql.eq (some t.id) (some transactionId)) (Sql.eq t.transferGroupId targetGroup))

/-- The scalar subquery: null when it has no row. -/
def targetGroup (db : Db) (userId transactionId : Nat) : Option Nat :=
  (getTransaction db transactionId userId).bind Transaction.transferGroupId

/-- `crud.delete_transaction`: false if there was nothing to delete. -/
def crudDeleteTransaction [Collation] (userId transactionId : Nat) : Program Bool := do
  let deletedIds ← execute (.deleteTransaction userId transactionId)
  return !deletedIds.isEmpty

/-- What the service makes of the answer. -/
theorem deleteTransaction_eq [Collation] (userId transactionId : Nat) :
    deleteTransaction userId transactionId =
      (do
        let deleted ← crudDeleteTransaction userId transactionId
        if deleted then pure () else .raise (.app TransactionNotFoundError)) := by
  unfold deleteTransaction crudDeleteTransaction
  rw [Prog.bind_assoc]
  refine congrArg (execute (.deleteTransaction userId transactionId) >>= ·) (funext fun ids => ?_)
  cases ids <;> rfl

/-- The rows that the condition does not hold of. -/
def deleteRows (db : Db) (userId transactionId : Nat) : Db :=
  { db with
    transactions := db.transactions.filter fun t =>
      deleteCondition userId transactionId (targetGroup db userId transactionId) t ≠ some true }

/-- Which rows go, and what the call answers. -/
structure DeletesOneEvent (db : Db) (userId transactionId : Nat)
    (result : Except Failure Bool × Db) : Prop where
  missing : (∀ t ∈ db.transactions, t.id = transactionId → t.userId ≠ userId) →
    result = (.ok false, db)
  /-- however many other rows have no group either -/
  ungrouped : ∀ t ∈ db.transactions, t.id = transactionId → t.userId = userId →
    t.transferGroupId = none →
    result = (.ok true, { db with transactions := db.transactions.erase transactionId })
  grouped : ∀ t ∈ db.transactions, t.id = transactionId → t.userId = userId →
    ∀ group, t.transferGroupId = some group →
    result = (.ok true, { db with
      transactions := db.transactions.filter fun r => r.transferGroupId ≠ some group })

section Statement

variable {db : Db} {userId transactionId : Nat}

theorem deleteCondition_iff {group : Option Nat} {t : Transaction} :
    deleteCondition userId transactionId group t = some true ↔ t.userId = userId ∧
      (t.id = transactionId ∨ ∃ g, t.transferGroupId = some g ∧ group = some g) := by
  rw [deleteCondition, Sql.and_true, Sql.or_true, Sql.eq_true, Sql.eq_true, Sql.eq_true]
  simp only [Option.some.injEq, exists_eq_left']
  exact and_congr eq_comm (or_congr_left eq_comm)

theorem deleteMatches_condition (group : Option Nat) (t : Transaction) :
    deleteMatches userId transactionId group t =
      decide (deleteCondition userId transactionId group t = some true) := by
  rw [Bool.eq_iff_iff, decide_eq_true_eq, deleteMatches_iff, deleteCondition_iff]
  refine and_congr_right fun _ => or_congr_right ?_
  cases t.transferGroupId with
  | none => simp
  | some g => simp [eq_comm]

theorem targetGroup_none (h : ∀ t ∈ db.transactions, t.id = transactionId → t.userId ≠ userId) :
    targetGroup db userId transactionId = none := by
  cases hfound : getTransaction db transactionId userId with
  | none => rw [targetGroup, hfound]; rfl
  | some t =>
    obtain ⟨ht, hid, huser⟩ := getTransaction_eq_some.1 hfound
    exact absurd huser (h t ht hid)

theorem targetGroup_eq {t : Transaction} (ht : t ∈ db.transactions) (hid : t.id = transactionId)
    (huser : t.userId = userId) : targetGroup db userId transactionId = t.transferGroupId := by
  rw [targetGroup, getTransaction_eq_some.2 ⟨ht, hid, huser⟩]
  rfl

variable [Collation]

theorem whole_deleteRows :
    (Stmt.deleteTransaction userId transactionId).whole db =
      .ok (deleteRows db userId transactionId) := by
  obtain ⟨hits, hhits⟩ : ∃ hits, ((Stmt.deleteTransaction userId transactionId).plan db).2 = hits :=
    ⟨_, rfl⟩
  have hmem : ∀ t ∈ db.transactions, Key.transaction t.id ∈ hits ↔
      deleteCondition userId transactionId (targetGroup db userId transactionId) t = some true := by
    intro t ht
    rw [← hhits]
    show Key.transaction t.id ∈ (db.transactions.rows.filter (deleteMatches userId transactionId
      (targetGroup db userId transactionId))).map _ ↔ _
    rw [List.mem_map]
    constructor
    · rintro ⟨r, hr, heq⟩
      obtain ⟨hr, hmatch⟩ := List.mem_filter.1 hr
      obtain rfl := db.transactions.eq_of_key hr ht (Key.transaction.inj heq)
      rw [deleteMatches_condition] at hmatch
      exact of_decide_eq_true hmatch
    · intro hcond
      refine ⟨t, List.mem_filter.2 ⟨ht, ?_⟩, rfl⟩
      rw [deleteMatches_condition]
      exact decide_eq_true hcond
  unfold Stmt.whole
  show Except.map _ ((Stmt.deleteMatching userId transactionId
    (targetGroup db userId transactionId)).finish
      ((Stmt.deleteTransaction userId transactionId).plan db).2 db) = _
  rw [hhits]
  cases hfinish : (Stmt.deleteMatching userId transactionId
      (targetGroup db userId transactionId)).finish hits db with
  | error d => cases hfinish
  | ok ws =>
    show Except.ok (engine.applyAll ws db) = _
    rw [applyAll_deletes hits db db ws hfinish]
    refine congrArg (fun rows => Except.ok (Db.mk db.accounts rows)) (Table.ext_mem fun t => ?_)
    rw [Table.mem_filter, Table.mem_filter, decide_eq_true_eq, decide_eq_true_eq]
    exact and_congr_right fun ht => (hmem t ht).not

/-- The call, alone with the rows. -/
theorem alone_crudDelete (now : Int) :
    (crudDeleteTransaction userId transactionId).alone engine now db db =
      (.ok (db.transactions.rows.any fun t => deleteCondition userId transactionId
        (targetGroup db userId transactionId) t = some true),
        deleteRows db userId transactionId) := by
  unfold crudDeleteTransaction
  rw [alone_execute_ok whole_deleteRows]
  refine congrArg (fun answer => (Except.ok answer, deleteRows db userId transactionId)) ?_
  show (!((db.transactions.rows.filter (deleteMatches userId transactionId
    (targetGroup db userId transactionId))).map _).isEmpty) = _
  rw [List.isEmpty_map, Bool.eq_iff_iff, Bool.not_eq_true', List.isEmpty_eq_false_iff_exists_mem,
    List.any_eq_true]
  refine exists_congr fun t => ?_
  rw [List.mem_filter, deleteMatches_condition]

theorem crudDelete_deletes {t : Transaction} (ht : t ∈ db.transactions)
    (hid : t.id = transactionId) (huser : t.userId = userId) (now : Int) :
    (crudDeleteTransaction userId transactionId).alone engine now db db =
      (.ok true, deleteRows db userId transactionId) := by
  rw [alone_crudDelete]
  refine congrArg (fun answer => (Except.ok answer, deleteRows db userId transactionId)) ?_
  exact List.any_eq_true.2 ⟨t, ht, decide_eq_true (deleteCondition_iff.2 ⟨huser, Or.inl hid⟩)⟩

theorem Transfers.deletesOneEvent {env : Env} {read : Nat → Request → Db → Prop}
    (h : Transfers env read db) (userId transactionId : Nat) (now : Int) :
    DeletesOneEvent db userId transactionId
      ((crudDeleteTransaction userId transactionId).alone engine now db db) where
  missing hmissing := by
    have hnone : ∀ t ∈ db.transactions, deleteCondition userId transactionId
        (targetGroup db userId transactionId) t ≠ some true := by
      intro t ht hcond
      obtain ⟨huser, hid | ⟨g, -, hg⟩⟩ := deleteCondition_iff.1 hcond
      · exact hmissing t ht hid huser
      · rw [targetGroup_none hmissing] at hg
        cases hg
    rw [alone_crudDelete]
    refine Prod.ext (congrArg Except.ok ?_) (congrArg (Db.mk db.accounts) (Table.ext_mem fun t => ?_))
    · rw [List.any_eq_false]
      exact fun t ht hcond => hnone t ht (of_decide_eq_true hcond)
    · rw [Table.mem_filter, decide_eq_true_eq]
      exact and_iff_left_of_imp (hnone t)
  ungrouped t ht hid huser hgroup := by
    rw [crudDelete_deletes ht hid huser]
    refine Prod.ext rfl (congrArg (Db.mk db.accounts) (Table.ext_mem fun r => ?_))
    rw [Table.mem_filter, Table.mem_erase, decide_eq_true_eq, Ne, deleteCondition_iff,
      targetGroup_eq ht hid huser, hgroup]
    refine and_congr_right fun hr => not_congr ⟨?_, fun hrid => ?_⟩
    · rintro ⟨-, hrid | ⟨g, -, hg⟩⟩
      · exact hrid
      · cases hg
    · obtain rfl := db.transactions.eq_of_key hr ht (Eq.trans hrid hid.symm)
      exact ⟨huser, Or.inl hid⟩
  grouped t ht hid huser group hgroup := by
    obtain ⟨owner, howner⟩ := (h.recorded t ht group hgroup).user
    rw [crudDelete_deletes ht hid huser]
    refine Prod.ext rfl (congrArg (Db.mk db.accounts) (Table.ext_mem fun r => ?_))
    rw [Table.mem_filter, Table.mem_filter, decide_eq_true_eq, decide_eq_true_eq, Ne,
      deleteCondition_iff, targetGroup_eq ht hid huser, hgroup]
    refine and_congr_right fun hr => not_congr ⟨?_, fun hrgroup => ?_⟩
    · rintro ⟨-, hrid | ⟨g, hrg, hg⟩⟩
      · rw [db.transactions.eq_of_key hr ht (Eq.trans hrid hid.symm), hgroup]
      · exact hrg.trans hg.symm
    · exact ⟨(howner r hr hrgroup).trans ((howner t ht hgroup).symm.trans huser),
        Or.inr ⟨group, hrgroup, rfl⟩⟩

/-- A transfer that was just recorded is deleted by any of its rows, and by nothing else. -/
theorem crudDelete_recorded {env : Env} {n : Nat} {details : TransferCreate}
    (hfresh : ∀ t ∈ transferRows env n userId details, ∀ r ∈ db.transactions, r.id ≠ t.id)
    (hgroup : ∀ r ∈ db.transactions, r.transferGroupId ≠ some (env.uuid4 n))
    {t : Transaction} (ht : t ∈ transferRows env n userId details) (now : Int) :
    (crudDeleteTransaction userId t.id).alone engine now
        (insertAll (transferRows env n userId details) db)
        (insertAll (transferRows env n userId details) db) = (.ok true, db) := by
  have hnew := transferRows_group env n userId details
  have hmem := fun r => (insertAll_perm (transferRows_nodup env n userId details) hfresh).mem_iff
    (a := r)
  have hin : t ∈ (insertAll (transferRows env n userId details) db).transactions :=
    (hmem t).2 (List.mem_append_left _ ht)
  rw [crudDelete_deletes hin rfl (hnew t ht).2]
  refine Prod.ext rfl (congrArg (Db.mk db.accounts) (Table.ext_mem fun r => ?_))
  rw [Table.mem_filter, decide_eq_true_eq, Ne, deleteCondition_iff, targetGroup_eq hin rfl
    (hnew t ht).2, (hnew t ht).1]
  constructor
  · rintro ⟨hr, hstays⟩
    rcases List.mem_append.1 ((hmem r).1 hr) with hrow | hold
    · exact absurd ⟨(hnew r hrow).2, Or.inr ⟨_, (hnew r hrow).1, rfl⟩⟩ hstays
    · exact hold
  · intro hold
    refine ⟨(hmem r).2 (List.mem_append_right _ hold), ?_⟩
    rintro ⟨-, hid | ⟨g, hg, hg'⟩⟩
    · exact hfresh t ht r hold hid
    · exact hgroup r hold (hg.trans hg'.symm)

/-- What `create_transfer` has inserted when it returns. -/
theorem createTransfer_ok {env : Env} {n : Nat} {details : TransferCreate} {now : Int}
    {rows : List Transaction} {db' : Db}
    (h : (createTransfer env n userId details).alone engine now db db = (.ok rows, db')) :
    rows = transferRows env n userId details ∧
      db' = insertAll (transferRows env n userId details) db := by
  rw [alone_transfer] at h
  split at h
  · cases h
  · split at h
    · cases h
    · split at h
      · cases h
      · split at h
        · next hwhole =>
          cases h
          exact ⟨rfl, (whole_insertTransactions hwhole).1⟩
        · cases h

end Statement

/-- **Deleting removes one event and nothing else**, in every state of every interleaving, and undoes
a transfer. -/
theorem delete_exact [Collation] {env : Env} {s : LedgerSystem}
    (h : Run engine (handle env) anyStep { world := initialWorld } s) (now : Int) :
    (∀ userId transactionId, DeletesOneEvent s.world.db userId transactionId
      ((crudDeleteTransaction userId transactionId).alone engine now s.world.db s.world.db)) ∧
    ∀ userId details rows db',
      (createTransfer env s.world.started userId details).alone engine now s.world.db s.world.db =
        (.ok rows, db') →
      ∀ t ∈ rows, ∀ later, (crudDeleteTransaction userId t.id).alone engine later db' db' =
        (.ok true, s.world.db) := by
  refine ⟨fun userId transactionId => (transfers_run h).deletesOneEvent userId transactionId now,
    fun userId details rows db' hcreate t ht later => ?_⟩
  obtain ⟨rfl, rfl⟩ := createTransfer_ok hcreate
  have hgood : Good (discipline env {}) engine s := ledger_run (initial_ledger env) rfl h
  have hunanswered : s.world.Unanswered s.world.started :=
    fun e he heq => absurd (hgood.logged e he) (by omega)
  exact crudDelete_recorded (hgood.inv.1.fresh hunanswered userId details)
    (fun r hr => hgood.inv.1.groups r hr _ hunanswered) ht later

theorem exchange_undone : ∃ (_ : Collation) (s : LedgerSystem) (rows : List Transaction) (db' : Db),
    runList engine (handle .counting) { world := initialWorld } twoAccounts = some s ∧
    (createTransfer .counting s.world.started 1 exchange).alone engine 0 s.world.db s.world.db =
      (.ok rows, db') ∧
    rows.length = 3 ∧
    ∀ t ∈ rows, (crudDeleteTransaction 1 t.id).alone engine 0 db' db' = (.ok true, s.world.db) := by
  let _ : Collation := Collation.codePoints
  have hrun : (runList engine (handle .counting) { world := initialWorld } twoAccounts).any
      (fun s => decide
        (((createTransfer .counting s.world.started 1 exchange).alone engine 0 s.world.db
          s.world.db).1.toOption.map List.length = some 3)) = true := by
    decide +kernel
  obtain ⟨s, hlist, hs, hp⟩ := exists_run hrun
  have hrecorded := of_decide_eq_true hp
  cases hcreate : (createTransfer .counting s.world.started 1 exchange).alone engine 0 s.world.db
      s.world.db with
  | mk result db' =>
    rw [hcreate] at hrecorded
    obtain ⟨rows, hresult, hlength⟩ := Option.map_eq_some_iff.1 hrecorded
    cases result with
    | error e => cases hresult
    | ok rows' =>
      cases hresult
      exact ⟨Collation.codePoints, s, rows, db', hlist, hcreate, hlength,
        fun t ht => (delete_exact hs 0).2 1 exchange rows db' hcreate t ht 0⟩

end Tradinghub.Ledger
