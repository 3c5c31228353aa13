import Tradinghub.Ledger.Discipline

/-!
# The sign convention under concurrency

An income row is positive, an expense row negative.  Only the service keeps it so: `_signed` takes
the kind that was loaded, and the UPDATE writes the columns that changed, onto the newest version of
the row.  A PATCH of the amount that waits for a PATCH of the kind writes a sign computed from the
old kind (`late_amount_breaks_sign`).  That is the only way to break the convention: it holds in
every state of every run in which an UPDATE of the amount alone finds the kind it has read
(`signs_survive`).
-/

namespace Tradinghub.Ledger

open ReadCommitted Store

/-- Income is positive, expenses are negative. -/
def SignOk (t : Transaction) : Prop :=
  (t.kind = .income → 0 < t.amount) ∧ (t.kind = .expense → t.amount < 0)

instance (t : Transaction) : Decidable (SignOk t) := by unfold SignOk; infer_instance

def Signed (db : Db) : Prop := ∀ t ∈ db.transactions, SignOk t

/-- The update of a loaded income or expense row that writes the amount but not the kind takes a
version that has the kind it loaded. -/
def KindHolds (loaded current newest : Transaction) : Prop :=
  loaded.kind ≠ .transfer ∧
    (loaded.amount ≠ current.amount → loaded.kind = current.kind → newest.kind = loaded.kind)

instance (loaded current newest : Transaction) : Decidable (KindHolds loaded current newest) := by
  unfold KindHolds; infer_instance

/-- The step takes no row for an UPDATE whose kind has changed since. -/
def kindHolds (s : LedgerSystem) : Action Key Failure Request → Bool
  | .lock n key => (s.conns n).all fun c =>
    match c.prog with
    | .scan (.updateTransaction loaded current) _ _ _ =>
      s.world.db.transactions.rows.all fun t =>
        decide (key = .transaction t.id → KindHolds loaded current t)
    | _ => true
  | _ => true

def signSetting : Setting where
  kept := Signed
  touch := KindHolds

/-! ## One update -/

theorem signed_ok {amount : Int} (h : 0 < amount) (kind : NonTransferKind) {t : Transaction}
    (hkind : t.kind = kind.toKind) (hamount : t.amount = signed amount kind.toKind) :
    SignOk t := by
  unfold SignOk
  rw [hkind, hamount]
  cases kind with
  | income => exact ⟨fun _ => h, fun he => by cases he⟩
  | expense => exact ⟨fun he => (by cases he), fun _ => Int.neg_neg_of_pos h⟩

/-- A row that is no transfer has a kind that can be sent. -/
theorem nonTransfer_kind {t : Transaction} (h : t.kind ≠ .transfer) :
    ∃ kind : NonTransferKind, t.kind = kind.toKind := by
  cases hk : t.kind with
  | income => exact ⟨.income, rfl⟩
  | expense => exact ⟨.expense, rfl⟩
  | transfer => exact absurd hk h

theorem SignOk.ne_zero {t : Transaction} (h : SignOk t) (hkind : t.kind ≠ .transfer) :
    t.amount ≠ 0 := by
  obtain ⟨hincome, hexpense⟩ := h
  cases hk : t.kind with
  | income => have := hincome hk; omega
  | expense => have := hexpense hk; omega
  | transfer => exact absurd hk hkind

/-- What the service sets is consistent: it signs with the kind it leaves. -/
theorem SignOk.applyTransactionUpdate {loaded : Transaction} (h : SignOk loaded)
    (hkind : loaded.kind ≠ .transfer) (changes : TransactionUpdate) :
    SignOk (applyTransactionUpdate loaded changes) ∧
      (Ledger.applyTransactionUpdate loaded changes).kind ≠ .transfer := by
  have hmagnitude : 0 < (changes.amount.map Amount.units).getD loaded.amount.natAbs := by
    cases changes.amount with
    | none =>
      have := h.ne_zero hkind
      show 0 < (loaded.amount.natAbs : Int)
      omega
    | some amount => exact amount.pos
  obtain ⟨kind, hsent⟩ : ∃ kind : NonTransferKind,
      (changes.kind.map NonTransferKind.toKind).getD loaded.kind = kind.toKind := by
    cases changes.kind with
    | none => exact nonTransfer_kind hkind
    | some kind => exact ⟨kind, rfl⟩
  refine ⟨?_, fun he => kind.toKind_ne (hsent.symm.trans he)⟩
  by_cases hsends : (changes.amount.isSome || changes.kind.isSome) = true
  · refine signed_ok hmagnitude kind hsent ?_
    simp only [Ledger.applyTransactionUpdate, if_pos hsends, hsent]
  · -- neither sent: amount and kind are the loaded ones
    have hnone : changes.kind = none := by
      simp only [Bool.or_eq_true, not_or, Option.not_isSome_iff_eq_none] at hsends
      exact hsends.2
    have hamount : (Ledger.applyTransactionUpdate loaded changes).amount = loaded.amount := by
      simp only [Ledger.applyTransactionUpdate, if_neg hsends]
    have hkeeps : (Ledger.applyTransactionUpdate loaded changes).kind = loaded.kind := by
      simp only [Ledger.applyTransactionUpdate, hnone, Option.map_none, Option.getD_none]
    unfold SignOk
    rw [hamount, hkeeps]
    exact h

theorem changed_getD {α : Type} [DecidableEq α] (loaded current newest : α) :
    (changed loaded current).getD newest = if loaded = current then newest else current := by
  unfold changed
  split <;> rfl

theorem SignOk.amount_ne {t t' : Transaction} (h : SignOk t) (h' : SignOk t')
    (hkind : t.kind ≠ .transfer) (hkind' : t'.kind ≠ .transfer) (hne : t.kind ≠ t'.kind) :
    t.amount ≠ t'.amount := by
  obtain ⟨hincome, hexpense⟩ := h
  obtain ⟨hincome', hexpense'⟩ := h'
  cases hk : t.kind <;> cases hk' : t'.kind <;> simp_all <;> omega

/-- The new version of a row. -/
theorem SignOk.patched {loaded current t : Transaction} (hloaded : SignOk loaded)
    (hcurrent : SignOk current) (hkind : current.kind ≠ .transfer) (ht : SignOk t)
    (hholds : KindHolds loaded current t) :
    SignOk ((TransactionChange.between loaded current).apply t) := by
  have hamount : ((TransactionChange.between loaded current).apply t).amount =
      if loaded.amount = current.amount then t.amount else current.amount := changed_getD _ _ _
  have hnewKind : ((TransactionChange.between loaded current).apply t).kind =
      if loaded.kind = current.kind then t.kind else current.kind := changed_getD _ _ _
  obtain ⟨hnotTransfer, hnewest⟩ := hholds
  unfold SignOk
  rw [hamount, hnewKind]
  by_cases hk : loaded.kind = current.kind
  · rw [if_pos hk]
    by_cases ha : loaded.amount = current.amount
    · rw [if_pos ha]
      exact ht
    · rw [if_neg ha, hnewest ha hk, hk]
      exact hcurrent
  · rw [if_neg hk, if_neg (hloaded.amount_ne hcurrent hnotTransfer hkind hk)]
    exact hcurrent

/-- The condition cannot be weakened: an amount written alone onto another kind breaks the sign. -/
theorem late_amount_sign {loaded current t : Transaction} (hcurrent : SignOk current)
    (hkind : loaded.kind = current.kind) (hamount : loaded.amount ≠ current.amount)
    (hnotTransfer : loaded.kind ≠ .transfer) (ht : t.kind ≠ .transfer)
    (hlate : t.kind ≠ loaded.kind) :
    ¬ SignOk ((TransactionChange.between loaded current).apply t) := by
  intro h
  have hnewAmount : ((TransactionChange.between loaded current).apply t).amount = current.amount :=
    (changed_getD _ _ _).trans (if_neg hamount)
  have hnewKind : ((TransactionChange.between loaded current).apply t).kind = t.kind :=
    (changed_getD _ _ _).trans (if_pos hkind)
  refine h.amount_ne hcurrent ?_ (hkind ▸ hnotTransfer) ?_ hnewAmount
  · rw [hnewKind]
    exact ht
  · rw [hnewKind, ← hkind]
    exact hlate

/-! ## Whole runs -/

theorem transferRows_sign (env : Env) (n userId : Nat) (details : TransferCreate) :
    ∀ t ∈ transferRows env n userId details, SignOk t := by
  intro t ht
  unfold transferRows at ht
  simp only [List.cons_append, List.nil_append, List.mem_cons] at ht
  rcases ht with rfl | rfl | ht
  · exact ⟨fun he => (by cases he), fun he => (by cases he)⟩
  · exact ⟨fun he => (by cases he), fun he => (by cases he)⟩
  · split at ht
    · next fee _ _ _ =>
      rw [List.mem_singleton.1 ht]
      exact ⟨fun he => (by cases he), fun _ => Int.neg_neg_of_pos fee.pos⟩
    · cases ht

theorem signs_kept (env : Env) : Keeps env signSetting := by
  intro w n db' _ _ hsigned heffect t' ht'
  cases heffect with
  | nothing => exact hsigned t' ht'
  | accountCreated => exact hsigned t' ht'
  | accountPatched => exact hsigned t' ht'
  | transactionCreated userId details =>
    rcases (mem_insertAll (by simp)).1 ht' with hnew | ⟨hold, -⟩
    · rw [List.mem_singleton.1 hnew]
      exact signed_ok details.amount.pos details.kind rfl rfl
    · exact hsigned t' hold
  | @transactionPatched _ loaded t changes hread hloaded ht _ _ htouch =>
    rcases Table.mem_put.1 ht' with rfl | ⟨hold, -⟩
    · have hsign : SignOk loaded := hread loaded hloaded
      obtain ⟨hcurrent, hkind⟩ := hsign.applyTransactionUpdate htouch.1 changes
      exact hsign.patched hcurrent hkind (hsigned t ht) htouch
    · exact hsigned t' hold
  | transferCreated userId details =>
    rcases (mem_insertAll (transferRows_nodup _ _ _ _)).1 ht' with hnew | ⟨hold, -⟩
    · exact transferRows_sign _ _ _ _ t' hnew
    · exact hsigned t' hold
  | deleted => exact hsigned t' (Table.mem_filter.1 ht').1

theorem kindHolds_grants (env : Env) :
    Grants (δ := DbError) (discipline env signSetting) fun s a => kindHolds s a = true where
  read _ _ _ := trivial
  touch := by
    rintro s n c q todo hits k key hok hc hp loaded current rfl t ht hkey
    simp only [kindHolds, hc, Option.all_some, hp, List.all_eq_true, decide_eq_true_eq] at hok
    exact hok t ht hkey

/-- **The sign convention survives** every interleaving in which no UPDATE of the amount alone takes
a row whose kind has changed since it was loaded. -/
theorem signs_survive [Collation] {env : Env} {w : LedgerWorld} {s : LedgerSystem}
    (hw : LedgerOk env w) (hlog : w.log = []) (hsigned : Signed w.db)
    (h : Run engine (handle env) (fun s a => kindHolds s a = true) { world := w } s) :
    Signed s.world.db :=
  (ledger_good (signs_kept env) (kindHolds_grants env) hw hlog hsigned h).inv.2

/-! ## Two runs -/

/-- Request 0 opens an account, request 1 records an expense of 5 there. -/
def expenseRecorded : List (Action Key Failure Request) :=
  [.start ⟨1, .createAccount { name := "cash", unit := "EUR", type := .cash }⟩, .advance 0,
    .lock 0 (.name 1 "cash"), .advance 0, .advance 0,
    .start ⟨1, .createTransaction
      { accountId := .one
        amount := ⟨5 * 10 ^ 18, by decide⟩
        kind := .expense
        occurredAt := 0 }⟩,
    .advance 1, .advance 1, .advance 1, .advance 1]

/-- PATCH .. {"kind": "income"} -/
def toIncome : Request :=
  ⟨1, .updateTransaction .two { kind := some .income }⟩

/-- PATCH .. {"amount": "7"} -/
def toSeven : Request :=
  ⟨1, .updateTransaction .two { amount := some ⟨7 * 10 ^ 18, by decide⟩ }⟩

/-- Request `n` flushes its UPDATE of the expense and commits. -/
def flushes (n : Nat) : List (Action Key Failure Request) :=
  [.advance n, .lock n (.transaction 2), .advance n, .advance n]

/-- Both have read an expense of -5 when the first of them commits. -/
def racingPatches : List (Action Key Failure Request) :=
  expenseRecorded ++ [.start toIncome, .advance 2, .start toSeven, .advance 3] ++ flushes 2 ++
    flushes 3

/-- The same requests, the second one after the first. -/
def patchesInTurn : List (Action Key Failure Request) :=
  expenseRecorded ++ [.start toIncome, .advance 2] ++ flushes 2 ++
    [.start toSeven, .advance 3] ++ flushes 3

theorem patchesInTurn_signed : ∃ (_ : Collation) (s : LedgerSystem),
    runList engine (handle .counting) { world := initialWorld } patchesInTurn = some s ∧
    s.world.db.transactions.rows.map (fun t => (t.kind, t.amount)) = [(.income, 7 * 10 ^ 18)] ∧
    Signed s.world.db := by
  let _ : Collation := Collation.codePoints
  have hok : allowed engine (handle .counting) kindHolds { world := initialWorld } patchesInTurn =
      true := by
    decide +kernel
  have hrun : (runList engine (handle .counting) { world := initialWorld } patchesInTurn).any
      (fun s => s.world.db.transactions.rows.map (fun t => (t.kind, t.amount)) =
        [(.income, 7 * 10 ^ 18)]) = true := by
    decide +kernel
  obtain ⟨s, hlist, hs, hp⟩ := exists_allowed hok hrun
  exact ⟨Collation.codePoints, s, hlist, of_decide_eq_true hp, signs_survive (initial_ledger _) rfl
    (fun t ht => absurd ht (Table.not_mem_empty t)) hs⟩

/-- The amount is written last, with the sign of an expense, onto an income row. -/
theorem late_amount_breaks_sign : ¬ ∀ (_ : Collation) (env : Env) (w : LedgerWorld)
    (s : LedgerSystem), LedgerOk env w → w.log = [] → Signed w.db →
    Run engine (handle env) anyStep { world := w } s → Signed s.world.db := by
  intro hclaim
  let _ : Collation := Collation.codePoints
  have hrun : (runList engine (handle .counting) { world := initialWorld } racingPatches).any
      (fun s => s.world.db.transactions.rows.any fun t => !decide (SignOk t)) = true := by
    decide +kernel
  obtain ⟨s, -, hs, hp⟩ := exists_run hrun
  obtain ⟨t, ht, hsign⟩ := List.any_eq_true.1 hp
  have hsigned := hclaim Collation.codePoints .counting initialWorld s (initial_ledger _) rfl
    (fun t ht => absurd ht (Table.not_mem_empty t)) hs
  simp [hsigned t ht] at hsign

end Tradinghub.Ledger
