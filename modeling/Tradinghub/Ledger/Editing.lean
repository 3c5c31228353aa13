import Tradinghub.Ledger.Amounts
import Tradinghub.Ledger.Transferring

/-!
# What an update sets

A PATCH sets the fields that were sent, null included, and leaves the others.  The amount is signed
anew whenever it or the kind is sent, so in a ledger that keeps the sign convention it is always the
magnitude, sent or stored, negated for an expense (`Updated`).  The service works on decimals and
only flips signs, so no digit is lost.  Once applied, the same update changes nothing
(`update_exact`).
-/

namespace Tradinghub.Ledger

open ReadCommitted Store

/-! ## The row -/

/-- `_signed(changes.amount or transaction.amount.copy_abs(), kind)` -/
def updatedDecimal (sent : Option ValidAmount) (stored : Int) (kind : TransactionKind) : Decimal :=
  signedDecimal ((sent.map ValidAmount.decimal).getD (storedDecimal stored).copyAbs) kind

/-- The magnitude that was sent, or the old one. -/
def TransactionUpdate.magnitude (changes : TransactionUpdate) (old : Transaction) : Int :=
  (changes.amount.map Amount.units).getD old.amount.natAbs

/-- The row after a successful update. -/
structure Updated (changes : TransactionUpdate) (old new : Transaction) : Prop where
  kind : new.kind = (changes.kind.map NonTransferKind.toKind).getD old.kind
  category : new.category = changes.category.getD old.category
  occurredAt : new.occurredAt = changes.occurredAt.getD old.occurredAt
  note : new.note = changes.note.getD old.note
  amount : new.amount =
    if new.kind = .expense then -changes.magnitude old else changes.magnitude old
  /-- every digit of the decimal the service computes -/
  digits : ∀ sent : Option ValidAmount,
    changes.amount.Rel (fun amount a => amount.Of a.decimal) sent →
    (new.amount : ℚ) = (updatedDecimal sent old.amount new.kind).value * 10 ^ 18
  fixed : SameRow old new

section Row

variable {old : Transaction} {changes : TransactionUpdate}

theorem updatedDecimal_value {sent : Option ValidAmount}
    (hsent : changes.amount.Rel (fun amount a => amount.Of a.decimal) sent)
    (kind : TransactionKind) :
    (signed (changes.magnitude old) kind : ℚ) =
      (updatedDecimal sent old.amount kind).value * 10 ^ 18 := by
  refine signedDecimal_value kind ?_
  unfold TransactionUpdate.magnitude
  cases hamount : changes.amount with
  | none =>
    rw [hamount] at hsent
    cases hsent
    exact (Int.cast_natCast _).trans (storedDecimal_value old.amount)
  | some amount =>
    rw [hamount] at hsent
    cases hsent with
    | some hof => exact hof

/-- The amount is signed with the new kind, whether or not it was sent. -/
theorem applyTransactionUpdate_amount (hsign : SignOk old) (hkind : old.kind ≠ .transfer)
    (changes : TransactionUpdate) :
    (applyTransactionUpdate old changes).amount =
      signed (changes.magnitude old) (applyTransactionUpdate old changes).kind := by
  by_cases hsent : (changes.amount.isSome || changes.kind.isSome) = true
  · simp only [applyTransactionUpdate, if_pos hsent]
    rfl
  · -- nothing signed anew: the old amount has the sign of the old kind
    rw [Bool.or_eq_true, not_or, Option.not_isSome_iff_eq_none, Option.not_isSome_iff_eq_none]
      at hsent
    obtain ⟨hamount, hnokind⟩ := hsent
    obtain ⟨hincome, hexpense⟩ := hsign
    simp only [applyTransactionUpdate, TransactionUpdate.magnitude, hamount, hnokind,
      Option.isSome_none, Bool.or_self, Option.map_none, Option.getD_none, signed]
    show old.amount = _
    cases hold : old.kind with
    | income =>
      have := hincome hold
      rw [if_neg (by decide)]
      omega
    | expense =>
      have := hexpense hold
      rw [if_pos rfl]
      omega
    | transfer => exact absurd hold hkind

theorem Updated.of_apply (hsign : SignOk old) (hkind : old.kind ≠ .transfer) :
    Updated changes old (applyTransactionUpdate old changes) where
  kind := rfl
  category := rfl
  occurredAt := rfl
  note := rfl
  amount := applyTransactionUpdate_amount hsign hkind changes
  digits sent hsent := by
    rw [← updatedDecimal_value hsent, applyTransactionUpdate_amount hsign hkind changes]
  fixed := ⟨rfl, rfl, rfl, rfl⟩

theorem signed_natAbs {magnitude : Int} (h : 0 ≤ magnitude) (kind : TransactionKind) :
    ((signed magnitude kind).natAbs : Int) = magnitude := by
  unfold signed
  split <;> omega

theorem magnitude_nonneg (old : Transaction) (changes : TransactionUpdate) :
    0 ≤ changes.magnitude old := by
  unfold TransactionUpdate.magnitude
  cases changes.amount with
  | none => exact Int.natCast_nonneg _
  | some amount => exact Int.le_of_lt amount.pos

theorem magnitude_again (hsign : SignOk old) (hkind : old.kind ≠ .transfer) :
    changes.magnitude (applyTransactionUpdate old changes) = changes.magnitude old := by
  have hnonneg := magnitude_nonneg old changes
  have hamount := applyTransactionUpdate_amount hsign hkind changes
  unfold TransactionUpdate.magnitude at *
  cases hsent : changes.amount with
  | some amount => rfl
  | none =>
    rw [hsent] at hamount hnonneg
    rw [Option.map_none, Option.getD_none, hamount]
    exact signed_natAbs hnonneg _

theorem getD_again {α : Type} (sent : Option α) (old : α) :
    sent.getD (sent.getD old) = sent.getD old := by
  cases sent <;> rfl

/-- Once applied, an update changes nothing. -/
theorem applyTransactionUpdate_again (hsign : SignOk old) (hkind : old.kind ≠ .transfer) :
    applyTransactionUpdate (applyTransactionUpdate old changes) changes =
      applyTransactionUpdate old changes := by
  obtain ⟨hsign', hkind'⟩ := hsign.applyTransactionUpdate hkind changes
  have hsameKind : (applyTransactionUpdate (applyTransactionUpdate old changes) changes).kind =
      (applyTransactionUpdate old changes).kind := getD_again _ _
  have hamount : (applyTransactionUpdate (applyTransactionUpdate old changes) changes).amount =
      (applyTransactionUpdate old changes).amount := by
    rw [applyTransactionUpdate_amount hsign' hkind' changes, magnitude_again hsign hkind, hsameKind,
      applyTransactionUpdate_amount hsign hkind changes]
  exact (Transaction.mk.injEq ..).mpr ⟨rfl, rfl, rfl, hamount, hsameKind, getD_again _ _,
    getD_again _ _, getD_again _ _, rfl⟩

end Row

/-! ## The call -/

/-- How an update ends, and what is left by it. -/
structure UpdateOutcome [Collation] (db : Db) (userId transactionId : Nat)
    (changes : TransactionUpdate) (result : Except Failure Transaction × Db) : Prop where
  notFound : result.1 = .error (.app TransactionNotFoundError) ↔
    ∀ t ∈ db.transactions, t.id = transactionId → t.userId ≠ userId
  notEditable : result.1 = .error (.app TransferNotEditableError) ↔
    ∃ t ∈ db.transactions, t.id = transactionId ∧ t.userId = userId ∧ t.transferGroupId ≠ none
  refused : ∀ e, result.1 = .error e → result.2 = db
  /-- no other row changes -/
  updated : ∀ t ∈ db.transactions, t.id = transactionId → t.userId = userId →
    t.transferGroupId = none → ∃ t', Updated changes t t' ∧
      result = (.ok t', { db with transactions := db.transactions.put t' })
  again : ∀ t', result.1 = .ok t' → ∀ later,
    (updateTransaction userId transactionId changes).alone engine later result.2 result.2 =
      (.ok t', result.2)

section Call

variable [Collation] {db : Db} {userId transactionId : Nat} {changes : TransactionUpdate}

/-- The service, alone with the rows. -/
theorem alone_update (now : Int) :
    (updateTransaction userId transactionId changes).alone engine now db db =
      match getTransaction db transactionId userId with
      | none => (.error (.app TransactionNotFoundError), db)
      | some loaded =>
        if loaded.transferGroupId.isSome then (.error (.app TransferNotEditableError), db)
        else if loaded = applyTransactionUpdate loaded changes then
          (.ok (applyTransactionUpdate loaded changes), db)
        else
          match (Stmt.updateTransaction loaded (applyTransactionUpdate loaded changes)).whole db with
          | .ok db' => (.ok (applyTransactionUpdate loaded changes), db')
          | .error d => (.error (.database d), db) := by
  simp only [updateTransaction, getTransactionOrRaise, Prog.bind_assoc]
  rw [alone_select]
  cases getTransaction db transactionId userId with
  | none => rfl
  | some loaded =>
    simp only [Prog.pure_eq, Prog.ret_bind]
    by_cases hgroup : loaded.transferGroupId.isSome = true
    · rw [if_pos hgroup, if_pos hgroup]
      rfl
    · rw [if_neg hgroup, if_neg hgroup, flushTransaction]
      by_cases hsame : loaded = applyTransactionUpdate loaded changes
      · rw [if_pos hsame, if_pos hsame]
        rfl
      · rw [if_neg hsame, if_neg hsame, Prog.discard_eq, Prog.bind_assoc]
        cases hwhole : (Stmt.updateTransaction loaded
            (applyTransactionUpdate loaded changes)).whole db with
        | ok db' =>
          rw [alone_execute_ok hwhole]
          rfl
        | error d => rw [alone_execute_error hwhole]

/-- An UPDATE of a row that is there, to an amount that fits. -/
theorem update_whole {loaded : Transaction} (hloaded : loaded ∈ db.transactions)
    (hfits : fitsNumeric (applyTransactionUpdate loaded changes).amount = true) :
    (Stmt.updateTransaction loaded (applyTransactionUpdate loaded changes)).whole db =
      .ok { db with transactions :=
        db.transactions.put (applyTransactionUpdate loaded changes) } := by
  have hfind : db.transactions.find? loaded.id = some loaded :=
    Table.find?_eq_some.2 ⟨hloaded, rfl⟩
  cases hwhole : (Stmt.updateTransaction loaded
      (applyTransactionUpdate loaded changes)).whole db with
  | ok db' => rw [(whole_updateTransaction hloaded hwhole).1]
  | error d =>
    have hamount : ¬ ((changed loaded.amount (applyTransactionUpdate loaded changes).amount).any
        fun amount => !fitsNumeric amount) = true := by
      unfold changed
      split <;> simp [hfits]
    simp only [Stmt.whole, Stmt.plan, Stmt.finish, hfind, Option.toList_some, List.map_cons,
      List.map_nil, if_neg hamount] at hwhole
    rw [if_neg (not_not_intro List.mem_cons_self)] at hwhole
    cases hwhole

omit [Collation] in
theorem applyTransactionUpdate_fits {loaded : Transaction}
    (hstored : fitsNumeric loaded.amount = true)
    (hsent : ∀ amount ∈ changes.amount, fitsNumeric amount.units = true) :
    fitsNumeric (applyTransactionUpdate loaded changes).amount = true := by
  have hmagnitude : fitsNumeric (changes.magnitude loaded) = true := by
    unfold TransactionUpdate.magnitude
    cases hamount : changes.amount with
    | none => exact hstored
    | some amount => exact hsent amount hamount
  simp only [applyTransactionUpdate]
  split
  · unfold signed
    split
    · exact (fitsNumeric_neg _).trans hmagnitude
    · exact hmagnitude
  · exact hstored

/-- Whether or not anything changed. -/
theorem alone_update_ok {t : Transaction} (ht : t ∈ db.transactions) (hid : t.id = transactionId)
    (huser : t.userId = userId) (hgroup : t.transferGroupId = none)
    (hfits : fitsNumeric (applyTransactionUpdate t changes).amount = true) (now : Int) :
    (updateTransaction userId transactionId changes).alone engine now db db =
      (.ok (applyTransactionUpdate t changes),
        { db with transactions := db.transactions.put (applyTransactionUpdate t changes) }) := by
  have hnone : ¬ t.transferGroupId.isSome = true := by
    rw [hgroup]
    exact Bool.false_ne_true
  rw [alone_update, getTransaction_eq_some.2 ⟨ht, hid, huser⟩]
  simp only [if_neg hnone]
  by_cases hsame : t = applyTransactionUpdate t changes
  · rw [if_pos hsame, ← hsame, Table.put_self ht]
  · rw [if_neg hsame, update_whole ht hfits]

theorem update_outcome (hsigned : Signed db)
    (hgrouped : ∀ t ∈ db.transactions, t.kind = .transfer → t.transferGroupId ≠ none)
    (hstored : ∀ t ∈ db.transactions, fitsNumeric t.amount = true)
    (hsent : ∀ amount ∈ changes.amount, fitsNumeric amount.units = true) (now : Int) :
    UpdateOutcome db userId transactionId changes
      ((updateTransaction userId transactionId changes).alone engine now db db) := by
  cases hfound : getTransaction db transactionId userId with
  | none =>
    have hmissing : ∀ t ∈ db.transactions, t.id = transactionId → t.userId ≠ userId := by
      intro t ht hid huser
      rw [getTransaction_eq_some.2 ⟨ht, hid, huser⟩] at hfound
      cases hfound
    rw [alone_update, hfound]
    exact
      { notFound := iff_of_true rfl hmissing
        notEditable := iff_of_false
          (by simp [TransactionNotFoundError, TransferNotEditableError])
          fun ⟨t, ht, hid, huser, _⟩ => hmissing t ht hid huser
        refused := fun _ _ => rfl
        updated := fun t ht hid huser => absurd huser (hmissing t ht hid)
        again := fun _ h => by cases h }
  | some t =>
    obtain ⟨ht, hid, huser⟩ := getTransaction_eq_some.1 hfound
    have hnotMissing : ¬ ∀ t ∈ db.transactions, t.id = transactionId → t.userId ≠ userId :=
      fun h => h t ht hid huser
    have hone : ∀ r ∈ db.transactions, r.id = transactionId → r = t :=
      fun r hr hrid => db.transactions.eq_of_key hr ht (Eq.trans hrid hid.symm)
    by_cases hgroup : t.transferGroupId = none
    · have hkind : t.kind ≠ .transfer := fun hkind => hgrouped t ht hkind hgroup
      have hfits := applyTransactionUpdate_fits (hstored t ht) hsent
      rw [alone_update_ok ht hid huser hgroup hfits]
      exact
        { notFound := iff_of_false (by simp) hnotMissing
          notEditable := iff_of_false (by simp) fun ⟨r, hr, hrid, _, hrgroup⟩ =>
            hrgroup (hone r hr hrid ▸ hgroup)
          refused := fun _ h => by cases h
          updated := fun r hr hrid _ _ => by
            obtain rfl := hone r hr hrid
            exact ⟨_, .of_apply (hsigned r hr) hkind, rfl⟩
          again := fun t' h later => by
            obtain rfl := Except.ok.inj h
            have hagain : applyTransactionUpdate (applyTransactionUpdate t changes) changes =
                applyTransactionUpdate t changes := applyTransactionUpdate_again (hsigned t ht) hkind
            obtain ⟨db', hdb'⟩ : ∃ db', Db.mk db.accounts
              (db.transactions.put (applyTransactionUpdate t changes)) = db' := ⟨_, rfl⟩
            have hnew : applyTransactionUpdate t changes ∈ db'.transactions :=
              hdb' ▸ Table.mem_put.2 (Or.inl rfl)
            show (updateTransaction userId transactionId changes).alone engine later
              (Db.mk _ _) (Db.mk _ _) = (_, Db.mk _ _)
            rw [hdb', alone_update_ok hnew hid huser hgroup (by rw [hagain]; exact hfits), hagain,
              Table.put_self hnew] }
    · have hsome : t.transferGroupId.isSome = true :=
        Option.isSome_iff_ne_none.2 hgroup
      rw [alone_update, hfound]
      simp only [if_pos hsome]
      exact
        { notFound := iff_of_false
            (by simp [TransactionNotFoundError, TransferNotEditableError]) hnotMissing
          notEditable := iff_of_true rfl ⟨t, ht, hid, huser, hgroup⟩
          refused := fun _ _ => rfl
          updated := fun r hr hrid _ hrgroup => absurd (hone r hr hrid ▸ hrgroup) hgroup
          again := fun _ h => by cases h }

/-- **An update is exact, partial and idempotent**, in every state that requests served one at a time
leave, if the amount it sends fits the column. -/
theorem update_exact {env : Env} {w : LedgerWorld}
    (h : Serial engine (handle env) initialWorld w) (now : Int) (userId transactionId : Nat)
    (changes : TransactionUpdate)
    (hsent : ∀ amount ∈ changes.amount, fitsNumeric amount.units = true) :
    UpdateOutcome w.db userId transactionId changes
      ((updateTransaction userId transactionId changes).alone engine now w.db w.db) :=
  update_outcome (serial_signed h) (transfers_run (serial_run h)).grouped (serial_fits h) hsent now

end Call

/-- 36 digits, and the income becomes an expense without a category. -/
def thirtySixDigits : TransactionUpdate where
  amount := some ⟨123456789012345678123456789012345678, by decide⟩
  kind := some .expense
  category := some none

theorem thirtySixDigits_exact : ∃ (_ : Collation) (w : LedgerWorld),
    w = session .counting 1 month initialWorld ∧
    ((updateTransaction 1 6 thirtySixDigits).alone engine 0 w.db w.db).1.toOption.map
      Transaction.amount = some (-123456789012345678123456789012345678) ∧
    UpdateOutcome w.db 1 6 thirtySixDigits
      ((updateTransaction 1 6 thirtySixDigits).alone engine 0 w.db w.db) := by
  let _ : Collation := Collation.codePoints
  have hamount : ((updateTransaction 1 6 thirtySixDigits).alone engine 0
      (session .counting 1 month initialWorld).db
      (session .counting 1 month initialWorld).db).1.toOption.map Transaction.amount =
        some (-123456789012345678123456789012345678) := by
    decide +kernel
  refine ⟨Collation.codePoints, session .counting 1 month initialWorld, rfl, hamount,
    update_exact (session_serial month (.refl _)) 0 1 6 thirtySixDigits ?_⟩
  rintro amount ⟨⟩
  decide

end Tradinghub.Ledger
