import Tradinghub.Ledger.Deadlocks
import Tradinghub.Ledger.Moments
import Tradinghub.Ledger.Racing

/-!
# How requests fail

Every request of an interleaved run that fails does so as the docstring of its endpoint says, for a
number that does not fit, because the transaction it patches went (`Endpoint.MayFail`), because it
was cancelled, or because the database gave it up to end a deadlock, which only the requests of
`Request.MayDeadlock` can be in (`only_declared`).
-/

namespace Tradinghub.Ledger

open ReadCommitted Store

variable [Collation]

/-- What the docstring of the endpoint says it raises. -/
def Endpoint.raises : Endpoint → List AppError
  | .createAccount _ => [AccountNameTakenError]
  | .listAccounts => []
  | .getAccount _ => [AccountNotFoundError]
  | .updateAccount _ _ => [AccountNotFoundError, AccountNameTakenError]
  | .createTransaction _ => [AccountNotFoundError]
  | .listTransactions _ => []
  | .getTransaction _ => [TransactionNotFoundError]
  | .updateTransaction _ _ => [TransactionNotFoundError, TransferNotEditableError]
  | .deleteTransaction _ => [TransactionNotFoundError]
  | .createTransfer _ =>
    [AccountNotFoundError, TransferSameAccountError, TransferAmountsDifferError]
  | .getSummary _ => []

/-- The amounts a payload carries. -/
def Endpoint.amounts : Endpoint → List Amount
  | .createTransaction payload => [payload.amount]
  | .updateTransaction _ payload => payload.amount.toList
  | .createTransfer details => details.amountSent :: details.amountReceived :: details.fee.toList
  | _ => []

/-- The ids the request asks the database for. -/
def Endpoint.newIds (env : Env) (n : Nat) : Endpoint → List Nat
  | .createAccount _ => [env.accountId n]
  | .createTransaction _ => [env.transactionId n 0]
  | .createTransfer _ => [0, 1, 2].map (env.transactionId n)
  | _ => []

/-- How a request may fail, its connection holding. -/
inductive Endpoint.MayFail (env : Env) (n : Nat) (endpoint : Endpoint) : Failure → Prop
  | raised {error : AppError} (h : error ∈ endpoint.raises) : MayFail env n endpoint (.app error)
  | idTooLarge (h : ∃ id ∈ endpoint.newIds env n, maxRowId < id) :
      MayFail env n endpoint (.database .integerOverflow)
  | amountTooLarge (h : ∃ amount ∈ endpoint.amounts, fitsNumeric amount.units = false) :
      MayFail env n endpoint (.database .numericOverflow)
  | gone {transactionId : RowId} {payload : TransactionUpdate}
      (h : endpoint = .updateTransaction transactionId payload) :
      MayFail env n endpoint (.database .staleData)

/-- A PATCH that renames, or a DELETE of a row of a recorded transfer. -/
def Request.MayDeadlock (env : Env) (s : LedgerSystem) (req : Request) : Prop :=
  req.renames = true ∨ ∃ k recorded payload, Done s k recorded ∧
    recorded.endpoint = .createTransfer payload ∧ req.deletesRowOf env k recorded

/-- Requests are given up when they are cancelled, or by the database, as one of a deadlock. -/
def givenUp (s : LedgerSystem) : Action Key Failure Request → Prop
  | .abort n e => e = .cancelled ∨ (e = .database .deadlockDetected ∧ s.Deadlocked n)
  | _ => True

section Failures

variable {env : Env} {n userId : Nat} {w : LedgerWorld}

omit [Collation] in
theorem fitsNumeric_signed (amount : Int) (kind : TransactionKind) :
    fitsNumeric (signed amount kind) = fitsNumeric amount := by
  unfold signed fitsNumeric
  split <;> simp

omit [Collation] in
/-- The rows of a transfer hold what the payload carries, under the ids it is given. -/
theorem transferRows_numbers (details : TransferCreate) :
    ∀ row ∈ transferRows env n userId details,
      row.id ∈ (Endpoint.createTransfer details).newIds env n ∧
      ∃ amount ∈ (Endpoint.createTransfer details).amounts,
        fitsNumeric row.amount = fitsNumeric amount.units := by
  have hneg : ∀ amount : Int, fitsNumeric (-amount) = fitsNumeric amount := fun amount => by
    simp [fitsNumeric]
  intro row hrow
  rcases mem_transferRows.1 hrow with rfl | rfl | ⟨fee, hfee, feeAccountId, -, rfl⟩
  · exact ⟨by simp [Endpoint.newIds, transactionRow], _, List.mem_cons_self, hneg _⟩
  · exact ⟨by simp [Endpoint.newIds, transactionRow], _,
      List.mem_cons_of_mem _ List.mem_cons_self, rfl⟩
  · refine ⟨by simp [Endpoint.newIds, transactionRow], fee, ?_, hneg _⟩
    exact List.mem_cons_of_mem _ (List.mem_cons_of_mem _ (Option.mem_toList.2 hfee))

omit [Collation] in
theorem mayFail_transfer {details : TransferCreate} {d : DbError}
    (h : (d = .integerOverflow ∧
        ∃ row ∈ transferRows env n userId details, maxRowId < row.id) ∨
      (d = .numericOverflow ∧
        ∃ row ∈ transferRows env n userId details, fitsNumeric row.amount = false)) :
    (Endpoint.createTransfer details).MayFail env n (.database d) := by
  rcases h with ⟨rfl, row, hrow, hlt⟩ | ⟨rfl, row, hrow, hbig⟩
  · exact .idTooLarge ⟨row.id, (transferRows_numbers details row hrow).1, hlt⟩
  · obtain ⟨amount, hamount, heq⟩ := (transferRows_numbers details row hrow).2
    exact .amountTooLarge ⟨amount, hamount, heq ▸ hbig⟩

omit [Collation] in
theorem settle_error {result : Except DbError Db} {failure : DbError → Failure} {a : Response}
    {db : Db} {e : Failure} (h : (settle result failure a db).1 = .error e) :
    ∃ d, result = .error d ∧ e = failure d := by
  cases result with
  | ok db' => cases h
  | error d => exact ⟨d, rfl, (Except.error.inj h).symm⟩

theorem whole_error {q : Stmt} {db : Db} {d : DbError} (h : q.whole db = .error d) :
    (q.plan db).1.finish (q.plan db).2 db = .error d := by
  unfold Stmt.whole at h
  cases hfinish : (q.plan db).1.finish (q.plan db).2 db with
  | ok ws => rw [hfinish] at h; cases h
  | error d' => rw [hfinish] at h; exact congrArg Except.error (Except.error.inj h)

/-- What is wrong with an account's row that is refused. -/
theorem insertAccount_error {row : Account} {hits : List Key} {db : Db} {d : DbError}
    (h : (Stmt.insertAccount row).finish hits db = .error d) :
    (d = .integerOverflow ∧ maxRowId < row.id) ∨ d = .uniqueViolation := by
  simp only [Stmt.finish] at h
  split at h
  · next hlt => exact Or.inl ⟨(Except.error.inj h).symm, hlt⟩
  · split at h
    · exact Or.inr (Except.error.inj h).symm
    · cases h

theorem updateTransaction_error {loaded current : Transaction} {hits : List Key} {db : Db}
    {d : DbError} (h : (Stmt.updateTransaction loaded current).finish hits db = .error d) :
    (d = .numericOverflow ∧ fitsNumeric current.amount = false) ∨ d = .staleData := by
  simp only [Stmt.finish] at h
  split at h
  · next hbig =>
    obtain ⟨amount, hamount, hfits⟩ := (Option.any_eq_true _ _).1 hbig
    obtain ⟨-, rfl⟩ := changed_eq_some.1 hamount
    exact Or.inl ⟨(Except.error.inj h).symm, by simpa using hfits⟩
  · split at h
    · exact Or.inr (Except.error.inj h).symm
    · cases h

omit [Collation] in
/-- An amount that a PATCH makes too large came with it. -/
theorem update_amount_sent {loaded : Transaction} {payload : TransactionUpdate}
    (hstored : fitsNumeric loaded.amount = true)
    (hbig : fitsNumeric (applyTransactionUpdate loaded payload).amount = false) :
    ∃ amount ∈ payload.amount.toList, fitsNumeric amount.units = false := by
  by_contra hnone
  push Not at hnone
  have hfits := applyTransactionUpdate_fits hstored fun amount hamount =>
    Bool.of_not_eq_false (hnone amount (Option.mem_toList.2 hamount))
  rw [hfits] at hbig
  cases hbig

/-- What alone may go wrong. -/
theorem respond_mayFail (hok : LedgerOk env w) (hn : w.Unanswered n)
    (hstored : ∀ t ∈ w.db.transactions, fitsNumeric t.amount = true) {now : Int}
    {endpoint : Endpoint} {e : Failure}
    (h : (respond env n userId now w.db endpoint).1 = .error e) : endpoint.MayFail env n e := by
  cases endpoint with
  | createAccount payload =>
    obtain ⟨d, hwhole, rfl⟩ := settle_error h
    rcases insertAccount_error (whole_error hwhole) with ⟨rfl, hlt⟩ | rfl
    · exact .idTooLarge ⟨_, List.mem_singleton.2 rfl, hlt⟩
    · exact .raised List.mem_cons_self
  | listAccounts => cases h
  | getAccount accountId =>
    simp only [respond] at h
    cases hfound : getAccountWithBalance w.db accountId.val userId with
    | none =>
      rw [hfound] at h
      cases h
      exact .raised List.mem_cons_self
    | some found => rw [hfound] at h; cases h
  | updateAccount accountId payload =>
    simp only [respond] at h
    cases hfound : getAccountWithBalance w.db accountId.val userId with
    | none =>
      rw [hfound] at h
      cases h
      exact .raised List.mem_cons_self
    | some found =>
      simp only [hfound] at h
      split at h
      · cases h
      · obtain ⟨d, hwhole, rfl⟩ := settle_error h
        obtain ⟨hmem, -⟩ := mem_of_getAccountWithBalance hfound
        have hfind : w.db.accounts.find? found.account.id = some found.account :=
          Table.find?_eq_some.2 ⟨hmem, rfl⟩
        obtain ⟨rfl, -⟩ := updateAccount_error (whole_error hwhole)
          (List.mem_append_left _ (List.mem_map.2 ⟨_, Option.mem_toList.2 hfind, rfl⟩))
        exact .raised (List.mem_cons_of_mem _ List.mem_cons_self)
  | createTransaction payload =>
    simp only [respond] at h
    cases hfound : getAccount w.db payload.accountId.val userId with
    | none =>
      rw [hfound] at h
      cases h
      exact .raised List.mem_cons_self
    | some found =>
      simp only [hfound] at h
      obtain ⟨d, hwhole, rfl⟩ := settle_error h
      obtain ⟨a, ha, hid, huser⟩ := getAccount_isSome.1 (Option.isSome_iff_exists.2 ⟨_, hfound⟩)
      rcases insertTransactions_error (whole_error hwhole)
        (fun t ht => List.mem_singleton.1 ht ▸ hok.new_row hn rfl)
        (fun t ht => List.mem_singleton.1 ht ▸ accountExists_iff.2 ⟨a, ha, hid, huser⟩) with
        ⟨rfl, t, ht, hlt⟩ | ⟨rfl, t, ht, hbig⟩
      · rw [List.mem_singleton.1 ht] at hlt
        exact .idTooLarge ⟨_, List.mem_singleton.2 rfl, hlt⟩
      · rw [List.mem_singleton.1 ht] at hbig
        exact .amountTooLarge ⟨_, List.mem_singleton.2 rfl, (fitsNumeric_signed _ _).symm.trans hbig⟩
  | listTransactions filters => cases h
  | getTransaction transactionId =>
    simp only [respond] at h
    cases hfound : getTransaction w.db transactionId.val userId with
    | none =>
      rw [hfound] at h
      cases h
      exact .raised List.mem_cons_self
    | some found => rw [hfound] at h; cases h
  | updateTransaction transactionId payload =>
    simp only [respond] at h
    cases hfound : getTransaction w.db transactionId.val userId with
    | none =>
      rw [hfound] at h
      cases h
      exact .raised List.mem_cons_self
    | some loaded =>
      simp only [hfound] at h
      split at h
      · cases h
        exact .raised (List.mem_cons_of_mem _ List.mem_cons_self)
      · split at h
        · cases h
        · obtain ⟨d, hwhole, rfl⟩ := settle_error h
          rcases updateTransaction_error (whole_error hwhole) with ⟨rfl, hbig⟩ | rfl
          · exact .amountTooLarge (update_amount_sent
              (hstored loaded (getTransaction_eq_some.1 hfound).1) hbig)
          · exact .gone rfl
  | deleteTransaction transactionId =>
    simp only [respond] at h
    split at h
    · cases h
      exact .raised List.mem_cons_self
    · rw [whole_deleteRows] at h
      cases h
  | createTransfer details =>
    simp only [respond] at h
    split at h
    · cases h
      exact .raised (List.mem_cons_of_mem _ List.mem_cons_self)
    · split at h
      · cases h
        exact .raised List.mem_cons_self
      · next hfound =>
        split at h
        · cases h
          exact .raised (List.mem_cons_of_mem _ (List.mem_cons_of_mem _ List.mem_cons_self))
        · obtain ⟨d, hwhole, rfl⟩ := settle_error h
          refine mayFail_transfer (insertTransactions_error (whole_error hwhole)
            (fun row hrow => ?_) (transferRows_accounts (not_not.1 hfound)))
          obtain ⟨i, hi⟩ := transferRows_ids env n userId details row hrow
          exact hok.new_row hn hi
  | getSummary period => cases h

/-- A request that is given up was cancelled, or in a deadlock. -/
theorem aborted_fails {s t : LedgerSystem} {c : LedgerConn} {e : Failure}
    (h : Aborted engine (handle env) givenUp initial s n c e t) :
    e = .cancelled ∨ (e = .database .deadlockDetected ∧ c.req.MayDeadlock env s) := by
  rcases h.allowed with hcancelled | ⟨hvictim, hdead⟩
  · exact Or.inl hcancelled
  · refine Or.inr ⟨hvictim, ?_⟩
    have hself : t.Cycle n n := ⟨hdead, hdead⟩
    rcases deadlocks_known h.reached hdead with
      ⟨userId, hall⟩ | ⟨k, recorded, payload, hdone, hpayload, hall⟩
    · obtain ⟨c', hc', -, hrenames⟩ := hall n hself
      obtain rfl := Option.some.inj (h.conn.symm.trans hc')
      exact Or.inl hrenames
    · obtain ⟨c', hc', hdeletes⟩ := hall n hself
      obtain rfl := Option.some.inj (h.conn.symm.trans hc')
      exact Or.inr ⟨k, recorded, payload, hdone.mono h.rest.log_mono, hpayload, hdeletes⟩

/-- What a request that ends by itself fails with. -/
theorem Served.mayFail {ok : LedgerSystem → Action Key Failure Request → Prop} {req : Request}
    {e : Failure} {tx : LedgerTx} {t : LedgerSystem} (h : Served env ok n req (.error e) tx t) :
    req.endpoint.MayFail env n e := by
  generalize hr : (Except.error e : Except Failure Response) = r at h
  cases h with
  | moment hm hrespond =>
    subst hr
    exact respond_mayFail (ledgerOk_of_run hm.reached) (opened_unanswered hm)
      (run_fits hm.reached) (congrArg Prod.fst hrespond)
  | accountNameTaken hep =>
    cases hr
    rw [hep]
    exact .raised (List.mem_cons_of_mem _ List.mem_cons_self)
  | transactionGone hep =>
    cases hr
    exact .gone hep
  | transferOverflow hep hwrong =>
    cases hr
    rw [hep]
    exact mayFail_transfer hwrong
  | _ => cases hr

/-- **A request fails as its docstring says**, for a number that does not fit, because the
transaction it patches went, or given up: no other failure gets through, whatever is interleaved. -/
theorem only_declared {s : LedgerSystem} (h : Run engine (handle env) givenUp initial s) :
    ∀ n req e, (n, req, .error e) ∈ s.world.log → req.endpoint.MayFail env n e ∨
      e = .cancelled ∨ (e = .database .deadlockDetected ∧ req.MayDeadlock env s) := by
  intro n req e he
  rcases run_served h n req _ he with ⟨e', c, t, hr, rfl, habort⟩ | ⟨c, t, u, -, -, hserved⟩
  · cases hr
    exact Or.inr (aborted_fails habort)
  · exact Or.inl hserved.mayFail

end Failures

/-- Requests are given up only as one of two that wait for each other. -/
def breaksPair (s : LedgerSystem) : Action Key Failure Request → Bool
  | .abort n e => decide (e = .database .deadlockDetected) &&
      (List.range s.world.started).any fun m => s.waits n m && s.waits m n
  | _ => true

omit [Collation] in
theorem givenUp_of_breaksPair {s : LedgerSystem} {a : Action Key Failure Request}
    (h : breaksPair s a = true) : givenUp s a := by
  cases a with
  | abort n e =>
    obtain ⟨hvictim, hpair⟩ := Bool.and_eq_true_iff.1 h
    obtain ⟨m, -, hwaits⟩ := List.any_eq_true.1 hpair
    obtain ⟨hnm, hmn⟩ := Bool.and_eq_true_iff.1 hwaits
    exact Or.inr ⟨of_decide_eq_true hvictim, Sys.deadlocked_of_waits hnm hmn⟩
  | _ => trivial

/-- The database gives up the first of the two renames, so the name that the second wants stays
taken. -/
def swapBroken : List (Action Key Failure Request) :=
  swapsNames ++ [.abort 2 (.database .deadlockDetected), .lock 3 (.name 1 "euros"), .advance 3,
    .advance 3]

omit [Collation] in
theorem swap_broken_declared : ∃ (_ : Collation) (s : LedgerSystem) (req req' : Request),
    runList engine (handle .counting) initial swapBroken = some s ∧
    (2, req, .error (.database .deadlockDetected)) ∈ s.world.log ∧ req.MayDeadlock .counting s ∧
    (3, req', .error (.app AccountNameTakenError)) ∈ s.world.log ∧
    req'.endpoint.MayFail .counting 3 (.app AccountNameTakenError) := by
  let _ : Collation := Collation.codePoints
  let req : Request := ⟨1, .updateAccount .one { name := some "dollars" }⟩
  let req' : Request := ⟨1, .updateAccount .two { name := some "euros" }⟩
  have hallowed : allowed engine (handle .counting) breaksPair initial swapBroken = true := by
    decide +kernel
  have hrun : (runList engine (handle .counting) initial swapBroken).any (fun s =>
      decide ((2, req, .error (.database .deadlockDetected)) ∈ s.world.log ∧
        (3, req', .error (.app AccountNameTakenError)) ∈ s.world.log)) = true := by
    decide +kernel
  obtain ⟨s, hlist, hs, hp⟩ := exists_allowed hallowed hrun
  obtain ⟨hvictim, htaken⟩ := of_decide_eq_true hp
  have hrun' := hs.mono fun _ _ h => givenUp_of_breaksPair h
  refine ⟨Collation.codePoints, s, req, req', hlist, hvictim, ?_, htaken, ?_⟩
  · rcases only_declared hrun' 2 req _ hvictim with hmay | hcancelled | ⟨-, hdeadlock⟩
    · cases hmay
    · cases hcancelled
    · exact hdeadlock
  · exact (only_declared hrun' 3 req' _ htaken).resolve_right (by simp)

end Tradinghub.Ledger
