import Tradinghub.Ledger.Editing
import Tradinghub.Lib.Connections

/-!
# A PATCH that races a DELETE

A PATCH reads its row, changes it in memory and flushes an UPDATE; nothing holds the row in between.
If its row is there when the UPDATE looks for it, and when the UPDATE gets to take it, a PATCH with
an amount that the column holds succeeds or is refused as documented (`patch_answers`).  If a DELETE
has committed first, the flush matches no row and the error escapes (`patch_of_deleted_row`).
-/

namespace Tradinghub.Ledger

open ReadCommitted Store

/-! ## Runs -/

def Request.isPatch : Request → Bool
  | ⟨_, .updateTransaction _ _⟩ => true
  | _ => false

/-- The amount that a PATCH sends, if it sends one, is one that the column holds. -/
def Request.amountFits : Request → Bool
  | ⟨_, .updateTransaction _ payload⟩ => payload.amount.all fun amount => fitsNumeric amount.units
  | _ => true

/-- No PATCH comes with an amount that is too large for the column, or is given up from outside. -/
def served (s : LedgerSystem) : Action Key Failure Request → Bool
  | .start req => req.amountFits
  | .abort n _ => (s.conns n).all fun c => !c.req.isPatch
  | _ => true

/-- If request `n` is at the UPDATE of a transaction, the row is there. -/
def rowThere (s : LedgerSystem) (n : Nat) : Bool :=
  (s.conns n).all fun c =>
    match c.prog.statement with
    | some (.updateTransaction loaded _) => (s.world.db.transactions.find? loaded.id).isSome
    | _ => true

/-- Whenever an UPDATE looks for its row, or takes it. -/
def finds (s : LedgerSystem) : Action Key Failure Request → Bool
  | .advance n => rowThere s n
  | .lock n _ => rowThere s n
  | _ => true

/-! ## Stored amounts -/

/-- What a write stores fits the column. -/
def Write.Fits : Write → Prop
  | .insertTransaction row => fitsNumeric row.amount = true
  | .updateTransaction _ change => ∀ amount ∈ change.amount, fitsNumeric amount = true
  | _ => True

theorem Write.Fits.apply {w : Write} {db : Db} (h : w.Fits)
    (hdb : ∀ t ∈ db.transactions, fitsNumeric t.amount = true) :
    ∀ t ∈ (w.apply db).transactions, fitsNumeric t.amount = true := by
  intro t ht
  cases w with
  | insertAccount row => exact hdb t ht
  | updateAccount id change =>
    simp only [Write.apply] at ht
    split at ht <;> exact hdb t ht
  | insertTransaction row =>
    rcases Table.mem_put.1 ht with rfl | ⟨hold, -⟩
    · exact h
    · exact hdb t hold
  | updateTransaction id change =>
    simp only [Write.apply] at ht
    split at ht
    · rename_i row hrow
      rcases Table.mem_put.1 ht with rfl | ⟨hold, -⟩
      · show fitsNumeric (change.amount.getD row.amount) = true
        cases hamount : change.amount with
        | none => exact hdb row (Table.find?_eq_some.1 hrow).1
        | some amount => exact h amount hamount
      · exact hdb t hold
    · exact hdb t ht
  | deleteTransaction id => exact hdb t (Table.mem_erase.1 ht).1

section Engine

variable [Collation]

/-- `finish` lets no amount through that does not fit. -/
theorem finish_fits {q : Stmt} {hits : List Key} {db : Db} {ws : List Write}
    (h : q.finish hits db = .ok ws) : ∀ w ∈ ws, w.Fits := by
  intro w hw
  cases finish_ok h with
  | insertAccount =>
    rw [List.mem_singleton.1 hw]
    trivial
  | updateAccount =>
    rw [List.mem_singleton.1 hw]
    trivial
  | insertTransactions _ hfits =>
    obtain ⟨t, ht, rfl⟩ := List.mem_map.1 hw
    exact hfits t ht
  | updateTransaction hfits =>
    rw [List.mem_singleton.1 hw]
    exact hfits
  | deleteTransaction => cases hw
  | deleteMatching hdeletes =>
    obtain ⟨id, rfl, -⟩ := hdeletes w hw
    trivial

/-- Every stored amount fits, in every interleaving. -/
theorem run_fits {env : Env} {ok : LedgerSystem → Action Key Failure Request → Prop}
    {s : LedgerSystem} (h : Run engine (handle env) ok { world := initialWorld } s) :
    ∀ t ∈ s.world.db.transactions, fitsNumeric t.amount = true := by
  let fits (db : Db) : Prop := ∀ t ∈ db.transactions, fitsNumeric t.amount = true
  have hact : ∀ q key db ws, engine.act q key db = some ws → ∀ w ∈ ws, w.Fits := by
    intro q key db ws hws w hw
    rw [act_nil hws] at hw
    cases hw
  have hempty : fits initialWorld.db := fun t ht => absurd ht (Table.not_mem_empty t)
  exact h.stored (J := fits) (fun w db hw hdb => hw.apply hdb) hact
    (fun q hits db ws hws => finish_fits hws) (fun n c hc => by cases hc) hempty

/-! ## A PATCH, step by step -/

/-- What is left of a PATCH.  Until its UPDATE is done it has written nothing. -/
inductive Patching (p₀ : Program Response) : Program Response → List Write → Prop
  | asked : Patching p₀ p₀ []
  | refused {e : AppError} (he : e = TransactionNotFoundError ∨ e = TransferNotEditableError) :
      Patching p₀ (.raise (.app e)) []
  | ready {loaded current : Transaction} {k}
      (hfits : fitsNumeric current.amount = true) (hk : ∀ r, ∃ a, k (.ok r) = .ret a) :
      Patching p₀ (.exec (.updateTransaction loaded current) k) []
  | waiting {loaded current : Transaction} {k}
      (hfits : fitsNumeric current.amount = true) (hk : ∀ r, ∃ a, k (.ok r) = .ret a) :
      Patching p₀
        (.scan (.updateTransaction loaded current) [.transaction loaded.id] [] k) []
  | taken {loaded current : Transaction} {k}
      (hfits : fitsNumeric current.amount = true) (hk : ∀ r, ∃ a, k (.ok r) = .ret a) :
      Patching p₀
        (.scan (.updateTransaction loaded current) [] [.transaction loaded.id] k) []
  | answered (a : Response) (ws : List Write) : Patching p₀ (.ret a) ws

/-- What the first statement leads to. -/
theorem patching_read (env : Env) (n userId : Nat) (transactionId : RowId)
    {payload : TransactionUpdate}
    (hsent : ∀ amount ∈ payload.amount, fitsNumeric amount.units = true) (p₀ : Program Response) :
    ∃ k, route env n userId (.updateTransaction transactionId payload) = .query k ∧
      ∀ db : Db, (∀ t ∈ db.transactions, fitsNumeric t.amount = true) →
        Patching p₀ (k db) [] := by
  refine ⟨_, rfl, fun db hstored => ?_⟩
  beta_reduce
  cases hfound : getTransaction db transactionId.val userId with
  | none => exact .refused (Or.inl rfl)
  | some loaded =>
    obtain ⟨hloaded, -, -⟩ := getTransaction_eq_some.1 hfound
    have hfits : fitsNumeric (applyTransactionUpdate loaded payload).amount = true :=
      applyTransactionUpdate_fits (hstored loaded hloaded) hsent
    show Patching p₀ ((if loaded.transferGroupId.isSome = true then _ else _) >>= _) []
    by_cases hgroup : loaded.transferGroupId.isSome = true
    · rw [if_pos hgroup]
      exact .refused (Or.inr rfl)
    · rw [if_neg hgroup, flushTransaction]
      by_cases hsame : loaded = applyTransactionUpdate loaded payload
      · rw [if_pos hsame]
        exact .answered _ _
      · rw [if_neg hsame]
        exact .ready hfits fun r => ⟨_, rfl⟩

/-- In a run whose UPDATEs find their rows. -/
theorem patching_follows (env : Env) :
    Follows engine (handle env) (fun s a => (served s a && finds s a) = true)
      { world := initialWorld } fun _ n c => ∀ userId transactionId payload,
        c.req = ⟨userId, .updateTransaction transactionId payload⟩ →
        (∀ amount ∈ payload.amount, fitsNumeric amount.units = true) ∧
        Patching (handle env n c.req) c.prog c.tx.writes where
  start := by
    rintro s s' req - hok - userId transactionId payload rfl
    obtain ⟨hserved, -⟩ := Bool.and_eq_true_iff.1 hok
    exact ⟨(Option.all_eq_true _ _).1 hserved, .asked⟩
  own := by
    rintro s s' a n ⟨req, prog, tx⟩ c' hr hok - hc hown hK userId transactionId payload hreq
    have hreq' : req = ⟨userId, .updateTransaction transactionId payload⟩ :=
      hown.req.symm.trans hreq
    obtain ⟨hsent, hpatching⟩ := hK userId transactionId payload hreq'
    obtain ⟨-, hfinds⟩ := Bool.and_eq_true_iff.1 hok
    refine ⟨hsent, ?_⟩
    rw [hown.req]
    -- the newest version of the loaded row, whenever this step looks for it
    have hthere : ∀ loaded current, rowThere s n = true →
        prog.statement = some (.updateTransaction loaded current) →
        ∃ row, s.world.db.transactions.find? loaded.id = some row := by
      intro loaded current hthere hstatement
      rw [rowThere, hc, Option.all_some] at hthere
      simp only [hstatement] at hthere
      exact Option.isSome_iff_exists.1 hthere
    obtain ⟨p₀, hp₀⟩ : ∃ p, handle env n req = p := ⟨_, rfl⟩
    obtain ⟨ws, hws⟩ : ∃ ws, tx.writes = ws := ⟨_, rfl⟩
    have hview : ws = [] → engine.view tx s.world.db = s.world.db := by
      rintro rfl
      rw [Engine.view, hws, Engine.applyAll_nil]
    show Patching (handle env n req) _ _
    simp only [hp₀, hws] at hpatching ⊢
    cases hpatching with
    | asked =>
      subst hreq'
      obtain ⟨k, hk, hread⟩ := patching_read env n userId transactionId hsent prog
      have hprog : prog = .query k := hp₀.symm.trans hk
      cases hown with
      | query hprog' =>
        obtain rfl : k = _ := Prog.query.inj (hprog.symm.trans hprog')
        rw [hview rfl]
        show Patching prog _ tx.writes
        rw [hws]
        exact hread _ (run_fits hr)
      | _ hprog' => cases hprog.symm.trans hprog'
    | refused => cases hown with | _ hprog' => cases hprog'
    | answered => cases hown with | _ hprog' => cases hprog'
    | @ready loaded current k hfits hk =>
      cases hown with
      | exec hprog' =>
        cases hprog'
        obtain ⟨row, hrow⟩ := hthere loaded current hfinds rfl
        have hid : row.id = loaded.id := (Table.find?_eq_some.1 hrow).2
        rw [hview rfl]
        show Patching p₀ (.scan (.updateTransaction loaded current)
          ((s.world.db.transactions.find? loaded.id).toList.map fun row => .transaction row.id)
          [] k) tx.writes
        rw [hrow, hws, Option.toList_some, List.map_singleton, hid]
        exact .waiting hfits hk
      | _ hprog' => cases hprog'
    | @waiting loaded current k hfits hk =>
      cases hown with
      | skip hprog' hkey hfree hact =>
        cases hprog'
        obtain ⟨row, hrow⟩ := hthere loaded current hfinds rfl
        rw [List.mem_singleton.1 hkey, hview rfl] at hact
        simp [engine, Stmt.takes, hrow] at hact
      | take hprog' hkey hfree hact =>
        cases hprog'
        rw [List.mem_singleton.1 hkey, act_nil hact, List.erase_cons_head, List.nil_append]
        show Patching p₀ _ (tx.writes ++ [])
        rw [hws]
        exact .taken hfits hk
      | _ hprog' => cases hprog'
    | @taken loaded current k hfits hk =>
      have hamount : ¬ ((changed loaded.amount current.amount).any fun amount =>
          !fitsNumeric amount) = true := by
        unfold changed
        split <;> simp [hfits]
      cases hown with
      | refused hprog' hfinish =>
        cases hprog'
        simp only [engine, Stmt.finish, if_neg hamount] at hfinish
        rw [if_neg (not_not_intro List.mem_cons_self)] at hfinish
        cases hfinish
      | done hprog' hfinish =>
        cases hprog'
        obtain ⟨a, ha⟩ := hk ([.transaction loaded.id], engine.view (tx.write _) s.world.db)
        rw [ha]
        exact .answered a _
      | skip hprog' hkey =>
        cases hprog'
        cases hkey
      | take hprog' hkey =>
        cases hprog'
        cases hkey
      | _ hprog' => cases hprog'
  others := by
    rintro s s' a n c - - - - - hK
    exact hK

/-- How a PATCH may end. -/
def Documented (r : Except Failure Response) : Prop :=
  (∃ response, r = .ok response) ∨ r = .error (.app TransactionNotFoundError) ∨
    r = .error (.app TransferNotEditableError)

/-- **A PATCH whose UPDATE finds its row is answered as documented**, in every interleaving. -/
theorem patch_answers {env : Env} {s : LedgerSystem}
    (h : Run engine (handle env) (fun s a => (served s a && finds s a) = true)
      { world := initialWorld } s) {n userId : Nat} {transactionId : RowId}
    {payload : TransactionUpdate} {r : Except Failure Response}
    (hanswer : (n, ⟨userId, .updateTransaction transactionId payload⟩, r) ∈ s.world.log) :
    Documented r := by
  let patch : Request := ⟨userId, .updateTransaction transactionId payload⟩
  refine h.answers (A := fun _ _ req r => req = patch → Documented r) (patching_follows env) (fun n c hc => by cases hc)
    (fun _ _ _ he => by cases he) ?_ (fun _ _ _ hA => hA) n patch r hanswer rfl
  rintro s s' a n ⟨req, prog, tx⟩ r - hok - hc hK ha hreq
  obtain ⟨hsent, hpatching⟩ := hK userId transactionId payload hreq
  cases ha with
  | @ret x hprog => exact Or.inl ⟨x, rfl⟩
  | @raise e hprog =>
    obtain rfl : prog = .raise e := hprog
    obtain rfl : req = ⟨userId, .updateTransaction transactionId payload⟩ := hreq
    obtain ⟨k, hk, -⟩ := patching_read env n userId transactionId hsent (.raise e)
    simp only [handle, hk] at hpatching
    generalize tx.writes = ws at hpatching
    cases hpatching with
    | refused he =>
      rcases he with rfl | rfl
      · exact Or.inr (Or.inl rfl)
      · exact Or.inr (Or.inr rfl)
  | abort e =>
    obtain ⟨hserved, -⟩ := Bool.and_eq_true_iff.1 hok
    simp only [served, hc, Option.all_some] at hserved
    subst hreq
    simp [Request.isPatch] at hserved

end Engine

/-! ## The row is deleted in between -/

/-- Request 0 opens an account, request 1 records an income on it. -/
def recorded : List (Action Key Failure Request) :=
  opensAccount 0 "euros" "EUR" ++
  [.start ⟨1, .createTransaction
      { accountId := .one, amount := ⟨33 * 10 ^ 18, by decide⟩, kind := .income, occurredAt := 0 }⟩,
    .advance 1, .advance 1, .advance 1, .advance 1]

/-- Transaction 2 is noted as late. -/
def notesLate : Request := ⟨1, .updateTransaction .two { note := some (some "late") }⟩

/-- Request 2 patches the transaction with nobody in between. -/
def patched : List (Action Key Failure Request) :=
  recorded ++ [.start notesLate, .advance 2, .advance 2, .lock 2 (.transaction 2), .advance 2,
    .advance 2]

/-- Request 2 reads the transaction, request 3 deletes it, request 2 flushes. -/
def deletedInBetween : List (Action Key Failure Request) :=
  recorded ++ [.start notesLate, .advance 2,
    .start ⟨1, .deleteTransaction .two⟩, .advance 3, .lock 3 (.transaction 2), .advance 3, .advance 3,
    .advance 2, .advance 2, .advance 2]

/-- Request 2 has been given this answer. -/
def answered (s : LedgerSystem) (p : Except Failure Response → Bool) : Bool :=
  s.world.log.any fun e => decide (e.1 = 2 ∧ e.2.1 = notesLate) && p e.2.2

theorem answered_spec {s : LedgerSystem} {p : Except Failure Response → Bool}
    (h : answered s p = true) : ∃ r, (2, notesLate, r) ∈ s.world.log ∧ p r = true := by
  obtain ⟨⟨m, req, r⟩, he, hfound⟩ := List.any_eq_true.1 h
  obtain ⟨hreq, hp⟩ := Bool.and_eq_true_iff.1 hfound
  obtain ⟨rfl, rfl⟩ := of_decide_eq_true hreq
  exact ⟨r, he, hp⟩

theorem patch_of_existing_row : ∃ (_ : Collation) (s : LedgerSystem) (r : Except Failure Response),
    runList engine (handle .counting) { world := initialWorld } patched = some s ∧
      (2, notesLate, r) ∈ s.world.log ∧ Documented r := by
  let _ : Collation := Collation.codePoints
  have hallowed : allowed engine (handle .counting) (fun s a => served s a && finds s a)
      { world := initialWorld } patched = true := by
    decide +kernel
  have hrun : (runList engine (handle .counting) { world := initialWorld } patched).any
      (fun s => answered s fun _ => true) = true := by
    decide +kernel
  obtain ⟨s, hlist, hs, hp⟩ := exists_allowed hallowed hrun
  obtain ⟨r, hanswer, -⟩ := answered_spec hp
  exact ⟨Collation.codePoints, s, r, hlist, hanswer, patch_answers hs hanswer⟩

/-- No row is matched, and the flush's own error escapes. -/
theorem patch_of_deleted_row : ∃ (_ : Collation) (s : LedgerSystem),
    runList engine (handle .counting) { world := initialWorld } deletedInBetween = some s ∧
    Run engine (handle .counting) (fun s a => served s a = true) { world := initialWorld } s ∧
      (2, notesLate, .error (.database .staleData)) ∈ s.world.log := by
  let _ : Collation := Collation.codePoints
  have hallowed : allowed engine (handle .counting) served { world := initialWorld }
      deletedInBetween = true := by
    decide +kernel
  have hrun : (runList engine (handle .counting) { world := initialWorld } deletedInBetween).any
      (fun s => answered s fun r => decide (r = .error (.database .staleData))) = true := by
    decide +kernel
  obtain ⟨s, hlist, hs, hp⟩ := exists_allowed hallowed hrun
  obtain ⟨r, hanswer, hr⟩ := answered_spec hp
  obtain rfl := of_decide_eq_true hr
  exact ⟨Collation.codePoints, s, hlist, hs, hanswer⟩

end Tradinghub.Ledger
