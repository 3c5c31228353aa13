import Tradinghub.Ledger.History
import Tradinghub.Lib.Deadlock

/-!
# Which ledger requests can deadlock

A request waits while it holds a row only if its statement has two rows or names to take, and most
have one at most.  So a deadlock consists of renames of one user's accounts, or of DELETEs of one
transfer (`deadlocks_known`); renames do (`swapped_names_deadlock`).  While no two such requests are
open at once, whatever the requests do, all of them are answered (`ledger_ends`).

The shared locks of an INSERT on the accounts it refers to are left out: only a rename conflicts
with them, and it waits for its own row before it holds anything.
-/

namespace Tradinghub.Ledger

open ReadCommitted Store

/-- A PATCH of an account that carries a name. -/
def Request.renames (req : Request) : Bool :=
  match req.endpoint with
  | .updateAccount _ payload => payload.name.isSome
  | _ => false

/-- A DELETE of one of the rows that request `k` recorded, by its user. -/
def Request.deletesRowOf (env : Env) (k : Nat) (req recorded : Request) : Prop :=
  req.userId = recorded.userId ∧ ∃ row ∈ recorded.rows env k, req.deletes = some row.id

/-- The two may get in each other's way: renames of one user's, or DELETEs of rows of one transfer,
recorded or still to be. -/
def Request.contends (env : Env) (s : LedgerSystem) (req req' : Request) : Prop :=
  (req.renames = true ∧ req'.renames = true ∧ req.userId = req'.userId) ∨
    ∃ k recorded payload, s.Asked k recorded ∧ recorded.endpoint = .createTransfer payload ∧
      req.deletesRowOf env k recorded ∧ req'.deletesRowOf env k recorded

/-- No two open requests do. -/
def Apart (env : Env) (s : LedgerSystem) : Prop :=
  ∀ n m c d, n ≠ m → s.conns n = some c → s.conns m = some d → ¬ c.req.contends env s d.req

/-! ## The statement of a request -/

/-- What an endpoint sends. -/
def Request.sends (req : Request) : Stmt → Prop
  | .insertAccount _ => ∃ payload, req.endpoint = .createAccount payload
  | .updateAccount loaded current => ∃ accountId payload,
      req.endpoint = .updateAccount accountId payload ∧ loaded.id = accountId.val ∧
        loaded.userId = req.userId ∧ current.userId = req.userId ∧
        (payload.name = none → loaded.name = current.name)
  | .insertTransactions _ => True
  | .updateTransaction _ _ => True
  | .deleteTransaction userId transactionId =>
      userId = req.userId ∧ req.deletes = some transactionId
  | .deleteMatching userId transactionId _ =>
      userId = req.userId ∧ req.deletes = some transactionId

def statementContract (_ : Nat) (req : Request) : Contract Stmt Response where
  sends := req.sends

section Programs

variable {C : Contract Stmt Response}

theorem applyAccountUpdate_cases {loaded : Account} {payload : AccountUpdate}
    {f : Account → Program Response}
    (h : ∀ now, (f (updatedAccount now loaded payload)).Meets C) :
    (applyAccountUpdate loaded payload >>= f).Meets C := by
  unfold applyAccountUpdate
  unfold updatedAccount at h
  by_cases hrestored : payload.archived = some false
  · simp only [if_pos hrestored] at h ⊢
    exact h 0
  · by_cases hfirst : payload.archived = some true ∧ loaded.archivedAt = none
    · simp only [if_neg hrestored, if_pos hfirst] at h ⊢
      exact h
    · simp only [if_neg hrestored, if_neg hfirst] at h ⊢
      exact h 0

variable [Collation]

theorem handle_sends (env : Env) (n : Nat) (req : Request) :
    (handle env n req).Meets (statementContract n req) := by
  obtain ⟨userId, endpoint⟩ := req
  cases endpoint with
  | createAccount payload =>
    simp only [handle, route, createAccount, Prog.bind_assoc]
    exact meets_flush ⟨payload, rfl⟩ (fun _ => trivial) fun d => orNameTaken_raises d
  | listAccounts => exact meets_select fun _ => trivial
  | getAccount accountId =>
    simp only [handle, route, getAccountOrRaise, Prog.bind_assoc]
    refine meets_select fun found => ?_
    cases found <;> trivial
  | updateAccount accountId payload =>
    rw [handle, route_updateAccount]
    intro db
    show (updateFound payload (getAccountWithBalance db accountId.val userId)).Meets _
    cases hfound : getAccountWithBalance db accountId.val userId with
    | none => trivial
    | some found =>
      obtain ⟨-, huser⟩ := mem_of_getAccountWithBalance hfound
      refine applyAccountUpdate_cases fun now => ?_
      have hsends : Request.sends ⟨userId, .updateAccount accountId payload⟩
          (.updateAccount found.account (updatedAccount now found.account payload)) := by
        refine ⟨accountId, payload, rfl, getAccountWithBalance_id hfound, huser, huser, ?_⟩
        intro hname
        simp [updatedAccount, hname]
      exact meets_flushAccount (fun _ => trivial) hsends trivial
  | createTransaction payload =>
    simp only [handle, route, createTransaction, Prog.bind_assoc, Prog.pure_eq]
    refine meets_select fun found => ?_
    cases found with
    | none => trivial
    | some found =>
      simp only [Prog.bind_assoc, Prog.discard_eq]
      exact meets_execute trivial fun _ => trivial
  | listTransactions filters => exact meets_select fun _ => meets_select fun _ => trivial
  | getTransaction transactionId =>
    simp only [handle, route, getTransactionOrRaise, Prog.bind_assoc]
    refine meets_select fun found => ?_
    cases found <;> trivial
  | updateTransaction transactionId payload =>
    simp only [handle, route, updateTransaction, getTransactionOrRaise, Prog.bind_assoc,
      Prog.pure_eq]
    refine meets_select fun found => ?_
    cases found with
    | none => trivial
    | some loaded =>
      simp only [Prog.ret_bind]
      by_cases hgroup : loaded.transferGroupId.isSome = true
      · rw [if_pos hgroup]
        trivial
      · rw [if_neg hgroup, flushTransaction]
        split
        · trivial
        · simp only [Prog.bind_assoc, Prog.discard_eq]
          exact meets_execute trivial fun _ => trivial
  | deleteTransaction transactionId =>
    simp only [handle, route, deleteTransaction, Prog.bind_assoc]
    refine meets_execute ⟨rfl, rfl⟩ fun hits => ?_
    split <;> trivial
  | createTransfer payload =>
    simp only [handle, route, createTransfer, Prog.pure_eq]
    split
    · trivial
    · simp only [Prog.bind_assoc]
      refine meets_select fun accounts => ?_
      split
      · trivial
      · split
        · trivial
        · simp only [Prog.bind_assoc, Prog.discard_eq]
          exact meets_execute trivial fun _ => trivial
  | getSummary period => exact meets_select fun _ => trivial

end Programs

/-! ## What a request can hold -/

/-- The rows and names that a request's statement picks: one at most, those of a rename, or rows
that one answered request has recorded. -/
inductive Picks (env : Env) (s : LedgerSystem) (req : Request) (keys : List Key) : Prop
  | few (h : keys.length ≤ 1)
  | rename (accountId : RowId) (payload : AccountUpdate)
      (hreq : req.endpoint = .updateAccount accountId payload) (hname : req.renames = true)
      (h : ∀ key ∈ keys, key = .account accountId.val ∨ ∃ folded, key = .name req.userId folded)
  | delete (k : Nat) (recorded : Request) (hdone : Done s k recorded)
      (hdeletes : req.deletesRowOf env k recorded)
      (h : ∀ key ∈ keys, ∃ row ∈ recorded.rows env k, key = .transaction row.id)

section Picking

variable {env : Env} {s s' : LedgerSystem} {req : Request} {keys keys' : List Key}

theorem Picks.fewer (h : Picks env s req keys) (hsub : keys'.Subperm keys) :
    Picks env s req keys' := by
  cases h with
  | few h => exact .few (Nat.le_trans hsub.length_le h)
  | rename accountId payload hreq hname h =>
    exact .rename accountId payload hreq hname fun key hkey => h key (hsub.subset hkey)
  | delete k recorded hdone hdeletes h =>
    exact .delete k recorded hdone hdeletes fun key hkey => h key (hsub.subset hkey)

theorem Done.mono (hlog : ∀ e ∈ s.world.log, e ∈ s'.world.log) {n : Nat} (h : Done s n req) :
    Done s' n req := by
  obtain ⟨a, ha⟩ := h
  exact ⟨a, hlog _ ha⟩

theorem Picks.later (h : Picks env s req keys) (hlog : ∀ e ∈ s.world.log, e ∈ s'.world.log) :
    Picks env s' req keys := by
  cases h with
  | few h => exact .few h
  | rename accountId payload hreq hname h => exact .rename accountId payload hreq hname h
  | delete k recorded hdone hdeletes h => exact .delete k recorded (hdone.mono hlog) hdeletes h

variable [Collation] {ok : LedgerSystem → Action Key Failure Request → Prop}

/-- The rows a DELETE picks are rows of one answered request of its user. -/
theorem delete_picks (hr : Run engine (handle env) ok initial s) {transactionId : Nat}
    (hdeletes : req.deletes = some transactionId) :
    Picks env s req ((Stmt.deleteTransaction req.userId transactionId).plan s.world.db).2 := by
  have hhistory := run_history hr
  have honce := (run_good hr).once
  cases hfound : getTransaction s.world.db transactionId req.userId with
  | none =>
    refine .few ?_
    have hnone : ∀ t ∈ s.world.db.transactions.rows,
        ¬ deleteMatches req.userId transactionId none t = true := by
      intro t ht hmatch
      obtain ⟨huser, hid | ⟨hsome, hsame⟩⟩ := deleteMatches_iff.1 hmatch
      · exact List.find?_eq_none.1 hfound t ht (by simp [hid, huser])
      · exact hsome hsame
    simp only [Stmt.plan, hfound, Option.bind_none]
    rw [List.filter_eq_nil_iff.2 hnone]
    exact Nat.zero_le 1
  | some t₀ =>
    obtain ⟨ht₀, hid₀, huser₀⟩ : t₀ ∈ s.world.db.transactions ∧ t₀.id = transactionId ∧
        t₀.userId = req.userId := by
      refine ⟨List.mem_of_find?_eq_some hfound, ?_⟩
      simpa using List.find?_some hfound
    obtain ⟨k, recorded, hdone, -, row₀, hrow₀, hsame₀⟩ := hhistory.traced t₀ ht₀
    refine .delete k recorded hdone ⟨?_, row₀, hrow₀, ?_⟩ fun key hkey => ?_
    · rw [← huser₀, hsame₀.userId, (rows_group hrow₀).1]
    · rw [hdeletes, ← hid₀, hsame₀.id]
    · simp only [Stmt.plan, hfound, Option.bind_some] at hkey
      obtain ⟨t, ht, rfl⟩ := List.mem_map.1 hkey
      obtain ⟨ht, hmatch⟩ := List.mem_filter.1 ht
      obtain ⟨k', recorded', hdone', -, row, hrow, hsame⟩ := hhistory.traced t ht
      have hrows : deleteMatches req.userId row₀.id row₀.transferGroupId row = true := by
        rw [← hsame₀.id, ← hsame₀.group, hid₀]
        rwa [hsame.deleteMatches] at hmatch
      obtain rfl := rows_alone hrow₀ hrow hrows
      obtain rfl := done_once honce hdone hdone'
      exact ⟨row, hrow, by rw [hsame.id]⟩

/-- A PATCH that is under way has found its user's own account. -/
theorem patch_owns (h : Run engine (handle env) ok initial s) {n : Nat}
    {c : LedgerConn} (hc : s.conns n = some c) {accountId : RowId} {payload : AccountUpdate}
    (hreq : c.req.endpoint = .updateAccount accountId payload) (hsends : c.prog.statement ≠ none) :
    ∃ a ∈ s.world.db.accounts, a.id = accountId.val ∧ a.userId = c.req.userId := by
  have hfollows : Follows engine (handle env) ok initial fun t n c =>
      c.req.endpoint = .updateAccount accountId payload →
        c.prog = handle env n c.req ∨ (∃ e, c.prog = .raise e) ∨
          ∃ a ∈ t.world.db.accounts, a.id = accountId.val ∧ a.userId = c.req.userId := by
    refine ⟨fun _ _ _ _ => Or.inl rfl, ?_, ?_⟩
    · intro t t' a n c c' hr hok hs hc hown hfound hreq'
      have hstay : (∃ a ∈ t.world.db.accounts, a.id = accountId.val ∧ a.userId = c'.req.userId) →
          ∃ a ∈ t'.world.db.accounts, a.id = accountId.val ∧ a.userId = c'.req.userId :=
        accounts_stay hr (.single hok hs)
      rw [hown.req] at hreq' hstay ⊢
      rcases hfound hreq' with hstart | ⟨e, he⟩ | hfound
      · obtain ⟨⟨userId, endpoint⟩, prog, tx⟩ := c
        obtain rfl : endpoint = .updateAccount accountId payload := hreq'
        rw [handle, route_updateAccount] at hstart
        have hstage := ledger_stages hr n _ hc
        cases hown with
        | query hprog =>
          obtain rfl := Prog.query.inj (hprog.symm.trans hstart)
          have hview : engine.view tx t.world.db = t.world.db := by
            rw [Engine.view, show tx.writes = [] from (hprog ▸ hstage).query.1,
              Engine.applyAll_nil]
          simp only [hview]
          cases hget : getAccountWithBalance t.world.db accountId.val userId with
          | none => exact Or.inr (Or.inl ⟨_, rfl⟩)
          | some found =>
            obtain ⟨hmem, huser⟩ := mem_of_getAccountWithBalance hget
            exact Or.inr (Or.inr
              (hstay ⟨_, hmem, getAccountWithBalance_id hget, huser⟩))
        | _ hprog => exact absurd (hprog.symm.trans hstart) (by simp)
      · cases hown with
        | _ hprog => exact absurd (hprog.symm.trans he) (by simp)
      · exact Or.inr (Or.inr (hstay hfound))
    · intro t t' a n c hr hok hs _ _ hfound hreq'
      exact (hfound hreq').imp_right fun h => h.imp_right fun ha =>
        accounts_stay hr (.single hok hs) ha
  rcases h.conns hfollows (fun _ _ hc => by cases hc) n c hc hreq with hp | ⟨e, hp⟩ | hfound
  · obtain ⟨⟨userId, endpoint⟩, prog, tx⟩ := c
    obtain rfl : endpoint = .updateAccount accountId payload := hreq
    rw [handle, route_updateAccount] at hp
    rw [hp] at hsends
    exact absurd rfl hsends
  · rw [hp] at hsends
    exact absurd rfl hsends
  · exact hfound

/-- What a statement of the request picks. -/
theorem plan_picks (hr : Run engine (handle env) ok initial s) {q : Stmt} (hq : req.sends q)
    (howns : ∀ accountId payload, req.endpoint = .updateAccount accountId payload →
      ∃ a ∈ s.world.db.accounts, a.id = accountId.val ∧ a.userId = req.userId) :
    Picks env s req (q.plan s.world.db).2 := by
  cases q with
  | insertAccount row => exact .few (Nat.le_refl 1)
  | updateAccount loaded current =>
    obtain ⟨accountId, payload, hreq, hid, hloaded, hcurrent, hname⟩ := hq
    by_cases hsame : loaded.name = current.name
    · refine .few ?_
      simp only [Stmt.plan, if_pos hsame, List.append_nil, List.length_map]
      cases s.world.db.accounts.find? loaded.id with
      | none => exact Nat.zero_le 1
      | some row => exact Nat.le_refl 1
    · refine .rename accountId payload hreq ?_ fun key hkey => ?_
      · simp only [Request.renames, hreq]
        exact Option.isSome_iff_ne_none.2 fun hnone => hsame (hname hnone)
      · simp only [Stmt.plan, if_neg hsame, List.mem_append, List.mem_map, Option.mem_toList,
          List.mem_singleton] at hkey
        rcases hkey with ⟨row, hrow, rfl⟩ | ⟨row, hrow, rfl⟩ | rfl
        · have hrowId : row.id = loaded.id := (Table.find?_eq_some.1 hrow).2
          exact Or.inl (by rw [hrowId, hid])
        · -- the row as it is now is the user's too
          obtain ⟨hrow, hrowId⟩ := Table.find?_eq_some.1 hrow
          obtain ⟨a, ha, haId, huser⟩ := howns accountId payload hreq
          obtain rfl := s.world.db.accounts.eq_of_key hrow ha
            (hrowId.trans (hid.trans haId.symm))
          exact Or.inr ⟨_, by rw [nameKey, huser]⟩
        · exact Or.inr ⟨_, by rw [nameKey, hcurrent]⟩
  | insertTransactions rows => exact .few (Nat.zero_le 1)
  | updateTransaction loaded current =>
    refine .few ?_
    simp only [Stmt.plan, List.length_map]
    cases s.world.db.transactions.find? loaded.id with
    | none => exact Nat.zero_le 1
    | some row => exact Nat.le_refl 1
  | deleteTransaction userId transactionId =>
    obtain ⟨rfl, hdeletes⟩ := hq
    exact delete_picks hr hdeletes
  | deleteMatching userId transactionId targetGroup => exact .few (Nat.zero_le 1)

end Picking

/-! ## Who waits for whom -/

section Cycles

variable [Collation] {env : Env} {ok : LedgerSystem → Action Key Failure Request → Prop}
  {s : LedgerSystem} {n : Nat}

theorem run_picks (h : Run engine (handle env) ok initial s) : ∀ n c, s.conns n = some c →
    c.Placed ∧ Picks env s c.req (c.tx.locks ++ c.prog.todo) := by
  have hplan : ∀ (n : Nat) (req : Request) (q : Stmt) (db : Db),
      (statementContract n req).sends q → (statementContract n req).sends (engine.plan q db).1 ∧
        ∀ a, (statementContract n req).replies q a →
          (statementContract n req).replies (engine.plan q db).1 a := by
    intro n req q db hq
    refine ⟨?_, fun _ _ => trivial⟩
    cases q <;> exact hq
  have hfollows : Follows engine (handle env) ok initial fun _ n c =>
      Stage engine (statementContract n c.req) c.prog c.tx.writes := by
    refine ⟨fun _ _ _ => .reading (handle_sends env _ _), ?_, fun _ _ _ _ _ hc => hc⟩
    intro t t' a n c c' _ _ _ _ hown hc
    rw [hown.req]
    exact hown.stage (hplan n c.req) (fun _ _ _ _ => act_nil) hc
  refine Run.footprint (C := statementContract) (F := Picks env) h (fun _ => rfl)
    (fun t ht => ht.conns hfollows fun _ _ hc => by cases hc) (handle_sends env) ?_ ?_ ?_ ?_
  · exact fun t req => .few (Nat.zero_le 1)
  · exact fun t req l l' hsub hpicks => hpicks.fewer hsub
  · exact fun t t' a req l _ _ hs hpicks => hpicks.later (step_log_mono hs)
  · intro t n c q k ht hc hprog hq
    refine plan_picks ht hq fun accountId payload hreq => patch_owns ht hc hreq ?_
    rw [hprog]
    simp [Prog.statement]

/-- What a deadlocked request holds and waits for. -/
theorem deadlocked_picks (h : Run engine (handle env) ok initial s) (hdead : s.Deadlocked n) :
    ∃ c, s.conns n = some c ∧ c.prog.statement ≠ none ∧
      (∃ held ∈ c.tx.locks, ∃ key ∈ c.prog.todo, held ≠ key) ∧
      Picks env s c.req (c.tx.locks ++ c.prog.todo) ∧
      ¬ (c.tx.locks ++ c.prog.todo).length ≤ 1 := by
  obtain ⟨c, hc, held, hheld, key, hkey, hne⟩ := hdead.between (run_good h).disjoint
  refine ⟨c, hc, fun hnone => ?_, ⟨held, hheld, key, hkey, hne⟩, (run_picks h n c hc).2, ?_⟩
  · rw [Prog.todo_of_statement hnone] at hkey
    cases hkey
  have hlocks := List.length_pos_of_mem hheld
  have htodo := List.length_pos_of_mem hkey
  rw [List.length_append]
  omega

omit [Collation] in
theorem renames_not_deletes {req recorded : Request} {k : Nat} (hrenames : req.renames = true)
    (hdeletes : req.deletesRowOf env k recorded) : False := by
  obtain ⟨-, row, -, hid⟩ := hdeletes
  obtain ⟨userId, endpoint⟩ := req
  cases endpoint with
  | updateAccount => cases hid
  | _ => cases hrenames

/-- The next one in a cycle of renames. -/
theorem rename_next (h : Run engine (handle env) ok initial s) {j k : Nat} {userId : Nat}
    (hj : s.Deadlocked j) (hk : s.Deadlocked k) (hwaits : s.waits j k = true)
    (hrenames : ∃ c, s.conns j = some c ∧ c.req.userId = userId ∧ c.req.renames = true) :
    ∃ c, s.conns k = some c ∧ c.req.userId = userId ∧ c.req.renames = true := by
  obtain ⟨c, hc, rfl, hrenames⟩ := hrenames
  obtain ⟨c', hc', hsends, -, hpicks, hmany⟩ := deadlocked_picks h hj
  obtain rfl := Option.some.inj (hc.symm.trans hc')
  obtain ⟨d, hd, hsends', -, hpicks', hmany'⟩ := deadlocked_picks h hk
  obtain ⟨-, c', d', hc', hd', key, hkey, hheld⟩ := Sys.waits_iff.1 hwaits
  obtain rfl := Option.some.inj (hc.symm.trans hc')
  obtain rfl := Option.some.inj (hd.symm.trans hd')
  have hmine := List.mem_append_right c.tx.locks hkey
  have htheirs := List.mem_append_left d.prog.todo hheld
  cases hpicks with
  | few hfew => exact absurd hfew hmany
  | delete i recorded _ hdeletes _ => exact (renames_not_deletes hrenames hdeletes).elim
  | rename accountId payload hreq _ hkeys =>
    cases hpicks' with
    | few hfew => exact absurd hfew hmany'
    | delete i recorded _ _ hkeys' =>
      obtain ⟨row, -, rfl⟩ := hkeys' key htheirs
      rcases hkeys _ hmine with heq | ⟨folded, heq⟩ <;> cases heq
    | rename accountId' payload' hreq' hrenames' hkeys' =>
      refine ⟨d, hd, ?_, hrenames'⟩
      rcases hkeys key hmine with rfl | ⟨folded, rfl⟩
      · -- one account has one owner
        rcases hkeys' _ htheirs with hsame | ⟨folded, heq⟩
        · obtain ⟨a, ha, hid, huser⟩ := patch_owns h hc hreq hsends
          obtain ⟨a', ha', hid', huser'⟩ := patch_owns h hd hreq' hsends'
          obtain rfl := s.world.db.accounts.eq_of_key ha ha'
            (hid.trans ((Key.account.inj hsame).trans hid'.symm))
          exact huser'.symm.trans huser
        · cases heq
      · rcases hkeys' _ htheirs with heq | ⟨folded', heq⟩
        · cases heq
        · exact (Key.name.inj heq).1.symm

/-- The next one in a cycle of DELETEs. -/
theorem delete_next (h : Run engine (handle env) ok initial s) {j k i : Nat} {recorded : Request}
    (hdone : Done s i recorded) (hj : s.Deadlocked j) (hk : s.Deadlocked k)
    (hwaits : s.waits j k = true)
    (hdeletes : ∃ c, s.conns j = some c ∧ c.req.deletesRowOf env i recorded) :
    ∃ c, s.conns k = some c ∧ c.req.deletesRowOf env i recorded := by
  obtain ⟨c, hc, hdeletes⟩ := hdeletes
  obtain ⟨c', hc', -, -, hpicks, hmany⟩ := deadlocked_picks h hj
  obtain rfl := Option.some.inj (hc.symm.trans hc')
  obtain ⟨d, hd, -, -, hpicks', hmany'⟩ := deadlocked_picks h hk
  obtain ⟨-, c', d', hc', hd', key, hkey, hheld⟩ := Sys.waits_iff.1 hwaits
  obtain rfl := Option.some.inj (hc.symm.trans hc')
  obtain rfl := Option.some.inj (hd.symm.trans hd')
  have hmine := List.mem_append_right c.tx.locks hkey
  have htheirs := List.mem_append_left d.prog.todo hheld
  have honce := (run_good h).once
  cases hpicks with
  | few hfew => exact absurd hfew hmany
  | rename _ _ _ hrenames _ => exact (renames_not_deletes hrenames hdeletes).elim
  | delete i₁ recorded₁ hdone₁ hdeletes₁ hkeys =>
    obtain ⟨row, hrow, rfl⟩ := hkeys key hmine
    -- the row it names is one of the rows it picks
    obtain ⟨-, row₀, hrow₀, hid₀⟩ := hdeletes
    obtain ⟨-, row₁, hrow₁, hid₁⟩ := hdeletes₁
    obtain rfl := rows_apart hrow₀ hrow₁ (Option.some.inj (hid₀.symm.trans hid₁))
    obtain rfl := done_once honce hdone hdone₁
    cases hpicks' with
    | few hfew => exact absurd hfew hmany'
    | rename accountId payload hreq' hrenames' hkeys' =>
      rcases hkeys' _ htheirs with heq | ⟨folded, heq⟩ <;> cases heq
    | delete i₂ recorded₂ hdone₂ hdeletes₂ hkeys' =>
      obtain ⟨row₂, hrow₂, hsame⟩ := hkeys' _ htheirs
      obtain rfl := rows_apart hrow hrow₂ (Key.transaction.inj hsame)
      obtain rfl := done_once honce hdone hdone₂
      exact ⟨d, hd, hdeletes₂⟩

/-- **Deadlocks.**  Whatever is interleaved, the requests of a deadlock rename accounts of one user,
or delete rows of one transfer of its user's. -/
theorem deadlocks_known (h : Run engine (handle env) ok initial s) (hdead : s.Deadlocked n) :
    (∃ userId, ∀ m, s.Cycle n m → ∃ c, s.conns m = some c ∧ c.req.userId = userId ∧
      c.req.renames = true) ∨
    ∃ k recorded payload, Done s k recorded ∧ recorded.endpoint = .createTransfer payload ∧
      ∀ m, s.Cycle n m → ∃ c, s.conns m = some c ∧ c.req.deletesRowOf env k recorded := by
  obtain ⟨c, hc, -, ⟨held, hheld, key, hkey, hne⟩, hpicks, hmany⟩ := deadlocked_picks h hdead
  cases hpicks with
  | few hfew => exact absurd hfew hmany
  | rename accountId payload hreq hrenames _ =>
    refine Or.inl ⟨c.req.userId, fun m hm => ?_⟩
    exact hm.rule (P := fun m => ∃ d, s.conns m = some d ∧ d.req.userId = c.req.userId ∧
        d.req.renames = true) ⟨c, hc, rfl, hrenames⟩
      fun j k hj hk hwaits hP => rename_next h hj hk hwaits hP
  | delete k recorded hdone hdeletes hkeys =>
    -- two different rows: a transfer
    obtain ⟨row, hrow, rfl⟩ := hkeys held (List.mem_append_left _ hheld)
    obtain ⟨row', hrow', rfl⟩ := hkeys key (List.mem_append_right _ hkey)
    have htransfer : ∃ payload, recorded.endpoint = .createTransfer payload := by
      obtain ⟨userId, endpoint⟩ := recorded
      cases endpoint with
      | createTransfer payload => exact ⟨payload, rfl⟩
      | createTransaction payload =>
        rw [List.mem_singleton.1 hrow, List.mem_singleton.1 hrow'] at hne
        exact absurd rfl hne
      | _ => cases hrow
    obtain ⟨payload, hpayload⟩ := htransfer
    refine Or.inr ⟨k, recorded, payload, hdone, hpayload, fun m hm => ?_⟩
    exact hm.rule (P := fun m => ∃ d, s.conns m = some d ∧ d.req.deletesRowOf env k recorded)
      ⟨c, hc, hdeletes⟩ fun i j hi hj hwaits hP => delete_next h hdone hi hj hwaits hP

/-- Requests that keep apart do not deadlock. -/
theorem Apart.acyclic (hapart : Apart env s) (h : Run engine (handle env) ok initial s) (n : Nat) :
    ¬ s.Deadlocked n := by
  intro hdead
  obtain ⟨m, hnm, hmn⟩ := Relation.TransGen.head'_iff.1 hdead
  obtain ⟨hne, c, d, hc, hd, -⟩ := Sys.waits_iff.1 hnm
  have hself : s.Cycle n n := ⟨hdead, hdead⟩
  have hcycle : s.Cycle n m := by
    refine ⟨.single hnm, ?_⟩
    rcases Relation.reflTransGen_iff_eq_or_transGen.1 hmn with rfl | hmn
    · exact absurd rfl hne
    · exact hmn
  refine hapart n m c d hne hc hd ?_
  rcases deadlocks_known h hdead with
    ⟨userId, hall⟩ | ⟨k, recorded, payload, ⟨a, ha⟩, hpayload, hall⟩
  · obtain ⟨c', hc', huser, hrenames⟩ := hall n hself
    obtain ⟨d', hd', huser', hrenames'⟩ := hall m hcycle
    obtain rfl := Option.some.inj (hc.symm.trans hc')
    obtain rfl := Option.some.inj (hd.symm.trans hd')
    exact Or.inl ⟨hrenames, hrenames', huser.trans huser'.symm⟩
  · obtain ⟨c', hc', hdeletes⟩ := hall n hself
    obtain ⟨d', hd', hdeletes'⟩ := hall m hcycle
    obtain rfl := Option.some.inj (hc.symm.trans hc')
    obtain rfl := Option.some.inj (hd.symm.trans hd')
    exact Or.inr ⟨k, recorded, payload, Or.inr ⟨_, ha⟩, hpayload, hdeletes, hdeletes'⟩

/-- **Everyone is answered.**  From a state whose open requests keep apart, whatever they do next,
in whatever order, each of them is answered. -/
theorem ledger_ends (h : Run engine (handle env) ok initial s) (hapart : Apart env s) :
    Inevitable engine (handle env) (fun _ a => a.moves = true)
      (fun t => ∀ n c, s.conns n = some c → ∃ r, (n, c.req, r) ∈ t.world.log) s := by
  let I : LedgerSystem → Prop := fun t =>
    Run engine (handle env) (fun _ _ => True) initial t ∧ Apart env t ∧
      ∀ n c, s.conns n = some c →
        (∃ d, t.conns n = some d ∧ d.req = c.req) ∨ ∃ r, (n, c.req, r) ∈ t.world.log
  refine Inevitable.of_progress (I := I) (fun _ _ hok => hok)
    (fun t ht => (run_good ht.1).bound) ?_ ?_ s
    ⟨h.mono fun _ _ _ => trivial, hapart, fun n c hc => Or.inl ⟨c, hc, rfl⟩⟩
  · rintro t a t' ⟨ht, hapart, hall⟩ hmoves hs
    -- nobody comes in
    have hold : ∀ n d', t'.conns n = some d' → ∃ d, t.conns n = some d ∧ d.req = d'.req := by
      intro n d' hd'
      rcases step_conn hs hd' with ⟨hd, -⟩ | ⟨req, rfl, -⟩ | ⟨d, hd, hown⟩
      · exact ⟨d', hd, rfl⟩
      · cases hmoves
      · exact ⟨d, hd, hown.req.symm⟩
    refine ⟨ht.tail trivial hs, fun n m c d hne hc hd => ?_, fun n c hc => ?_⟩
    · obtain ⟨c₀, hc₀, hreq⟩ := hold n c hc
      obtain ⟨d₀, hd₀, hreq'⟩ := hold m d hd
      rw [← hreq, ← hreq']
      -- nor is a transfer asked for that was not
      rintro (hrenames | ⟨k, recorded, payload, hasked, hpayload, hdeletes⟩)
      · exact hapart n m c₀ d₀ hne hc₀ hd₀ (Or.inl hrenames)
      · rcases step_asked hs hasked with hasked | ⟨rfl, -⟩
        · exact hapart n m c₀ d₀ hne hc₀ hd₀
            (Or.inr ⟨k, recorded, payload, hasked, hpayload, hdeletes⟩)
        · cases hmoves
    · rcases hall n c hc with ⟨d, hd, hreq⟩ | ⟨r, hr⟩
      · rcases step_open hs ((run_good ht).bound n d hd) hd with
          ⟨d', hd', hreq'⟩ | ⟨r, hr, -⟩
        · exact Or.inl ⟨d', hd', hreq'.trans hreq⟩
        · exact Or.inr ⟨r, hreq ▸ hr⟩
      · exact Or.inr ⟨r, step_log_mono hs _ hr⟩
  · rintro t ⟨ht, hapart, hall⟩
    by_cases hopen : ∃ n c, t.conns n = some c
    · obtain ⟨n, c, hc⟩ := hopen
      exact Or.inr (exists_move (run_good ht).bound (hapart.acyclic ht) hc)
    · refine Or.inl fun n c hc => (hall n c hc).resolve_left ?_
      rintro ⟨d, hd, -⟩
      exact hopen ⟨n, d, hd⟩

end Cycles

/-! ## Two renames -/

/-- Requests 2 and 3 swap the names of two accounts: each holds its own account and its old name,
and waits for its new one, which is the other's old one. -/
def swapsNames : List (Action Key Failure Request) :=
  twoAccounts ++
  [.start ⟨1, .updateAccount .one { name := some "dollars" }⟩,
    .start ⟨1, .updateAccount .two { name := some "euros" }⟩,
    .advance 2, .advance 3, .advance 2, .advance 3,
    .lock 2 (.account 1), .lock 3 (.account 2),
    .lock 2 (.name 1 "euros"), .lock 3 (.name 1 "dollars")]

theorem swapped_names_deadlock : ∃ (_ : Collation) (s : LedgerSystem),
    runList engine (handle .counting) initial swapsNames = some s ∧ s.Deadlocked 2 ∧
    ((∃ userId, ∀ m, s.Cycle 2 m → ∃ c, s.conns m = some c ∧ c.req.userId = userId ∧
      c.req.renames = true) ∨
    ∃ k recorded payload, Done s k recorded ∧ recorded.endpoint = .createTransfer payload ∧
      ∀ m, s.Cycle 2 m → ∃ c, s.conns m = some c ∧ c.req.deletesRowOf .counting k recorded) := by
  let _ : Collation := Collation.codePoints
  have hrun : (runList engine (handle .counting) initial swapsNames).any
      (fun s => s.waits 2 3 && s.waits 3 2) = true := by
    decide +kernel
  obtain ⟨s, hlist, hs, hp⟩ := exists_run hrun
  obtain ⟨h23, h32⟩ := Bool.and_eq_true_iff.1 hp
  have hdead : s.Deadlocked 2 := Sys.deadlocked_of_waits h23 h32
  exact ⟨Collation.codePoints, s, hlist, hdead, deadlocks_known hs hdead⟩

/-- Two PATCHes of one account, one of which renames it, one of another user's that renames, and two
DELETEs of one income. -/
def keepsApart : List (Action Key Failure Request) :=
  opensAccount 0 "euros" "EUR" ++
  [.start ⟨1, .createTransaction
      { accountId := .one, amount := ⟨77 * 10 ^ 18, by decide⟩, kind := .income, occurredAt := 0 }⟩,
    .advance 1, .advance 1, .advance 1, .advance 1,
    .start ⟨1, .updateAccount .one { name := some "cash" }⟩,
    .start ⟨1, .updateAccount .one { unit := some "USD" }⟩,
    .start ⟨2, .updateAccount .one { name := some "cash" }⟩,
    .start ⟨1, .deleteTransaction .two⟩, .start ⟨1, .deleteTransaction .two⟩,
    .advance 2, .advance 3, .advance 2, .advance 3, .lock 2 (.account 1),
    .advance 5, .advance 6, .lock 5 (.transaction 2)]

/-- A POST of a transfer. -/
def Request.transfers (req : Request) : Bool :=
  match req.endpoint with
  | .createTransfer _ => true
  | _ => false

/-- No two open requests rename accounts of one user, and nobody has asked for a transfer. -/
def noneContend (s : LedgerSystem) : Bool :=
  (s.world.log.all fun e => !e.2.1.transfers) &&
    (List.range s.world.started).all fun n => (s.conns n).all fun c =>
      !c.req.transfers && (List.range s.world.started).all fun m => n == m ||
        (s.conns m).all fun d =>
          !(c.req.renames && d.req.renames && decide (c.req.userId = d.req.userId))

theorem apart_of_noneContend [Collation] {env : Env} {s : LedgerSystem}
    (hs : Run engine (handle env) anyStep initial s) (h : noneContend s = true) : Apart env s := by
  obtain ⟨hlog, hopen⟩ := Bool.and_eq_true_iff.1 h
  have hbound : ∀ {n c}, s.conns n = some c → n ∈ List.range s.world.started := fun {n c} hc =>
    List.mem_range.2 ((run_good hs).bound n c hc)
  have hconn : ∀ {n c}, s.conns n = some c → _ := fun {n c} hc =>
    (Option.all_eq_true _ _).1 (List.all_eq_true.1 hopen n (hbound hc)) c hc
  rintro n m c d hne hc hd (⟨hrenames, hrenames', huser⟩ | ⟨k, recorded, payload, hasked, hpayload, -⟩)
  · obtain ⟨-, hothers⟩ := Bool.and_eq_true_iff.1 (hconn hc)
    have hpair := List.all_eq_true.1 hothers m (hbound hd)
    simp [hd, hne, hrenames, hrenames', huser] at hpair
  · have htransfers : recorded.transfers = true := by
      unfold Request.transfers
      rw [hpayload]
    have hnot : (!recorded.transfers) = true := by
      rcases hasked with ⟨c', hc', rfl⟩ | ⟨r, hr⟩
      · exact (Bool.and_eq_true_iff.1 (hconn hc')).1
      · exact List.all_eq_true.1 hlog _ hr
    rw [htransfers] at hnot
    cases hnot

theorem patches_end : ∃ (_ : Collation) (s : LedgerSystem),
    runList engine (handle .counting) initial keepsApart = some s ∧
    s.waits 3 2 = true ∧ s.waits 6 5 = true ∧
    Inevitable engine (handle .counting) (fun _ a => a.moves = true)
      (fun t => ∀ n c, s.conns n = some c → ∃ r, (n, c.req, r) ∈ t.world.log) s := by
  let _ : Collation := Collation.codePoints
  have hrun : (runList engine (handle .counting) initial keepsApart).any
      (fun s => s.waits 3 2 && s.waits 6 5 && noneContend s) = true := by
    decide +kernel
  obtain ⟨s, hlist, hs, hp⟩ := exists_run hrun
  simp only [Bool.and_eq_true] at hp
  obtain ⟨⟨hwaits, hwaits'⟩, hnone⟩ := hp
  exact ⟨Collation.codePoints, s, hlist, hwaits, hwaits',
    ledger_ends hs (apart_of_noneContend hs hnone)⟩

end Tradinghub.Ledger
