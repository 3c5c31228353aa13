import Tradinghub.App.Endpoints
import Tradinghub.Ledger.Archiving

/-!
# A request that fails

`get_db` commits once the request has succeeded and rolls back when it has not, so a failure leaves
the tables as they were.  Every endpoint is quiet but one (`handle_quiet`): a refresh with a token
that was used already commits the removal of its family before it fails.
-/

namespace Tradinghub.App

open ReadCommitted Store
open Ledger (Collation)

variable [Collation]

/-! ## Who commits before the end -/

/-- The refresh of a token that was presented. -/
def Request.Refreshes (req : Request) : Prop := ∃ tok, req = .auth (.refresh (some tok))

omit [Collation] in
theorem countLoginAttempt_quiet (env : Auth.AccountEnv) (n : Nat) :
    (Auth.countLoginAttempt env n).Quiet := by
  unfold Auth.countLoginAttempt
  split
  · trivial
  · split <;> trivial

omit [Collation] in
theorem countRegistrationAttempt_quiet (env : Auth.AccountEnv) (n : Nat) :
    (Auth.countRegistrationAttempt env n).Quiet := by
  unfold Auth.countRegistrationAttempt
  split
  · trivial
  · split <;> trivial

omit [Collation] in
theorem startSession_quiet (env : Auth.AccountEnv) (n userId : Nat) (user : Auth.User) :
    (do
      let pair ← (Auth.startSession env.toEnv n userId).left
      return (user, pair) : Auth.AuthProgram (Auth.User × Auth.TokenPair)).Quiet :=
  (Auth.issueTokenPair_quiet _ _ _ _ _).left.map _

theorem getUserByEmail_quiet (email : String) : (Auth.getUserByEmail email).Quiet := fun _ => trivial

theorem registerUser_quiet (env : Auth.AccountEnv) (n : Nat) (email rawPassword : String) :
    (Auth.registerUser env n email rawPassword).Quiet := by
  have hcreate : ∀ user, (Auth.createUser user).Quiet := fun _ _ => trivial
  refine (countRegistrationAttempt_quiet env n).bind fun _ => ?_
  refine (getUserByEmail_quiet email).right.bind fun found => ?_
  cases found with
  | some user => trivial
  | none =>
    refine (hcreate _).right.bind fun created => ?_
    cases created with
    | error d =>
      show Prog.Quiet (if Ledger.DbError.isIntegrityError d = true then _ else _)
      split <;> trivial
    | ok user => exact startSession_quiet _ _ _ _

theorem loginUser_quiet (env : Auth.AccountEnv) (n : Nat) (email rawPassword : String) :
    (Auth.loginUser env n email rawPassword).Quiet := by
  refine (countLoginAttempt_quiet env n).bind fun _ => ?_
  refine (getUserByEmail_quiet email).right.bind fun found => ?_
  cases found with
  | none => trivial
  | some user =>
    show Prog.Quiet (if env.verifyPassword rawPassword user.passwordHash = true then _ else _)
    split
    · exact startSession_quiet _ _ _ _
    · trivial

theorem route_quiet (env : Auth.AccountEnv) (n : Nat) {endpoint : Auth.Endpoint}
    (h : ∀ tok, endpoint ≠ .refresh (some tok)) : (Auth.route env n endpoint).Quiet := by
  cases endpoint with
  | register email password => exact (registerUser_quiet env n email password).map _
  | login email password => exact (loginUser_quiet env n email password).map _
  | refresh rawRefreshToken =>
    cases rawRefreshToken with
    | none => trivial
    | some tok => exact absurd rfl (h tok)
  | logout rawRefreshToken =>
    cases rawRefreshToken with
    | none => trivial
    | some tok => exact (Auth.logoutUser_quiet _ _).left.bind fun _ => trivial
  | me claims =>
    cases claims with
    | none => trivial
    | some userId =>
      have hselect : (Auth.getUserById userId).Quiet := fun _ => trivial
      refine hselect.right.bind fun found => ?_
      cases found <;> trivial

theorem handle_quiet (env : Env) (n : Nat) {req : Request} (h : ¬ req.Refreshes) :
    (handle env n req).Quiet := by
  cases req with
  | unprocessable => trivial
  | auth endpoint =>
    exact (route_quiet env.auth n fun tok htok => h ⟨tok, by rw [htok]⟩).left.map _
  | ledger claims endpoint =>
    cases claims with
    | none => trivial
    | some userId => exact (Ledger.handle_meets env.ledger n _).quiet.right.map _

/-! ## What a failure leaves -/

/-- The family of a row found by that token, and used, is gone, and nothing else has changed. -/
def FamilyRevoked (env : Env) (tok : String) (db db' : Database) : Prop :=
  ∃ row, Auth.Reused env.auth.toEnv tok db.1.1 row ∧
    db' = ((Auth.withoutFamily db.1.1 row.familyId, db.1.2), db.2)

omit [Collation] in
/-- The sessions are the only table a refresh touches, and it is answered as there. -/
theorem refresh_ended {env : Env} {tok : String} {aborts : Prop} {db db' : Database}
    {r : Except Failure Auth.TokenPair} {answer : Auth.TokenPair → Response}
    (h : Auth.RefreshEnded env.auth.toEnv tok aborts db.1.1 db'.1.1 r)
    (husers : db'.1.2 = db.1.2) (hledger : db'.2 = db.2) :
    (∃ x, r.map answer = .ok x ∧ ¬ Auth.Spent env.auth.toEnv tok db.1.1) ∨
    ∃ e, r.map answer = .error e ∧
      ((db' = db ∧ (Auth.Spent env.auth.toEnv tok db.1.1 → aborts)) ∨ FamilyRevoked env tok db db') := by
  obtain ⟨⟨sessions', users'⟩, ledger'⟩ := db'
  obtain ⟨⟨sessions, users⟩, ledger⟩ := db
  obtain rfl : users' = users := husers
  obtain rfl : ledger' = ledger := hledger
  rcases h with ⟨pair, rfl, hnot⟩ | ⟨e, rfl, ⟨hdb, hspent⟩ | ⟨row, hrow, hdb⟩⟩
  · exact Or.inl ⟨_, rfl, hnot⟩
  · obtain rfl : sessions' = sessions := hdb
    exact Or.inr ⟨e, rfl, Or.inl ⟨rfl, hspent⟩⟩
  · obtain rfl : sessions' = Auth.withoutFamily sessions row.familyId := hdb
    exact Or.inr ⟨e, rfl, Or.inr ⟨row, hrow, rfl⟩⟩

/-- A refresh on the whole database, stopped anywhere. -/
theorem refresh_run {env : Env} {w : AppWorld} {tok : String} {s : AppSystem}
    {ok : AppSystem → Action Key Failure Request → Prop} {aborts : Prop} {r : Except Failure Response}
    (h : Run engine (handle env) ok (opened (handle env) w (.auth (.refresh (some tok)))) s)
    (hok : ∀ s a, ok s a → a.of w.started = true) (haborts : ∀ s m e, ok s (.abort m e) → aborts)
    (hlog : s.world.log = (w.started, .auth (.refresh (some tok)), r) :: w.log) :
    (∃ x, r = .ok x ∧ ¬ Auth.Spent env.auth.toEnv tok w.db.1.1) ∨
    ∃ e, r = .error e ∧
      ((s.world.db = w.db ∧ (Auth.Spent env.auth.toEnv tok w.db.1.1 → aborts)) ∨
        FamilyRevoked env tok w.db s.world.db) := by
  have hsessions := Auth.refresh_attempt Request env.auth.toEnv w.started w.started tok aborts
    w.db.1.1
  have hwhole := (hsessions.left Auth.usersEngine Auth.Reply.refreshed w.db.1.2).left Ledger.engine
    Response.auth w.db.2
  have hstart := Auth.refreshing_start env.auth.toEnv w.started tok w.db.1.1
  obtain ⟨hledger, r₁, rfl, husers, r₂, rfl, hended⟩ := (h.attempt hok haborts hwhole
    ⟨rfl, _, {}, rfl, rfl, rfl, _, {}, rfl, rfl, Or.inl ⟨rfl, hstart⟩⟩).answer hlog
  have hmap : (r₂.map Auth.Reply.refreshed).map Response.auth =
      r₂.map fun pair => Response.auth (.refreshed pair) := by
    cases r₂ <;> rfl
  rw [hmap]
  exact refresh_ended hended husers hledger

/-- **A failed request leaves the tables as it found them**, wherever it fails or is given up,
except that a refresh with a used token removes the family of that token; and it does so, and
fails, unless it is given up before. -/
theorem failed_request_keeps_tables (env : Env) (w : AppWorld) (req : Request) :
    (∀ s e, Run engine (handle env) (fun _ a => a.of w.started = true)
        (opened (handle env) w req) s →
      s.world.log = (w.started, req, .error e) :: w.log →
      s.world.db = w.db ∨
        ∃ tok, req = .auth (.refresh (some tok)) ∧ FamilyRevoked env tok w.db s.world.db) ∧
    (∀ tok s r, req = .auth (.refresh (some tok)) → Auth.Spent env.auth.toEnv tok w.db.1.1 →
      Run engine (handle env) (fun _ a => (a.of w.started && !a.isAbort) = true)
        (opened (handle env) w req) s →
      s.world.log = (w.started, req, r) :: w.log →
      (∃ e, r = .error e) ∧ FamilyRevoked env tok w.db s.world.db) := by
  constructor
  · intro s e h hlog
    by_cases hreq : req.Refreshes
    · obtain ⟨tok, rfl⟩ := hreq
      have haborts : ∀ (s : AppSystem) (m : Nat) (e : Failure),
          (Action.abort m e : Action Key Failure Request).of w.started = true → True :=
        fun _ _ _ _ => trivial
      rcases refresh_run h (fun _ _ ha => ha) haborts hlog with ⟨x, hr, -⟩ | ⟨-, -, hdb | hrevoked⟩
      · cases hr
      · exact Or.inl hdb.1
      · exact Or.inr ⟨tok, rfl, hrevoked⟩
    · have hquiet : Attempt engine Request True w.started
          (fun db (p : Program Response) _ => db = w.db ∧ p.Quiet) _ :=
        Attempt.quiet engine Request True w.started w.db
      exact Or.inl ((h.attempt (fun _ _ ha => ha) (fun _ _ _ _ => trivial) hquiet
        ⟨rfl, handle_quiet env _ hreq⟩).answer hlog e rfl)
  · rintro tok s r rfl hspent h hlog
    have hof : ∀ (s : AppSystem) (a : Action Key Failure Request),
        (a.of w.started && !a.isAbort) = true → a.of w.started = true :=
      fun _ _ ha => (Bool.and_eq_true_iff.1 ha).1
    have haborts : ∀ (s : AppSystem) (m : Nat) (e : Failure),
        ((Action.abort m e : Action Key Failure Request).of w.started &&
          !(Action.abort m e : Action Key Failure Request).isAbort) = true → False :=
      fun _ _ _ ha => Bool.false_ne_true (Bool.and_eq_true_iff.1 ha).2
    rcases refresh_run h hof haborts hlog with ⟨x, -, hnot⟩ | ⟨e, hr, ⟨-, hno⟩ | hrevoked⟩
    · exact absurd hspent hnot
    · exact (hno hspent).elim
    · exact ⟨⟨e, hr⟩, hrevoked⟩

/-- A family of two tokens, of which the first was used, and two accounts. -/
def reusedWorld : AppWorld where
  db :=
    (((Table.empty.put ⟨0, 1, 7, "first", some 5, 900⟩).put ⟨1, 1, 7, "second", none, 900⟩,
        Table.empty),
      { accounts := (Table.empty.put ⟨1, 1, "Cash", "EUR", .cash, none⟩).put
          ⟨2, 1, "Bank", "EUR", .cash, none⟩
        transactions := Table.empty })

/-- A new unit, and a name that is taken. -/
def renames : Request :=
  .ledger (some 1) (.updateAccount .one { name := some "Bank", unit := some "USD" })

def renameSteps : List (Action Key Failure Request) :=
  [.advance 0, .advance 0, .lock 0 (.inr (.name 1 "Bank")), .lock 0 (.inr (.account 1)),
    .lock 0 (.inr (.name 1 "Cash")), .advance 0, .advance 0]

def reuses : Request := .auth (.refresh (some "first"))

def reuseSteps : List (Action Key Failure Request) :=
  [.advance 0, .lock 0 (.inl (.inl 0)), .advance 0, .advance 0, .lock 0 (.inl (.inl 1)),
    .lock 0 (.inl (.inl 0)), .advance 0, .advance 0, .advance 0]

omit [Collation] in
theorem first_spent : Auth.Spent Env.unary.auth.toEnv "first" reusedWorld.db.1.1 := by
  have hrows : reusedWorld.db.1.1.rows =
      [⟨0, 1, 7, "first", some 5, 900⟩, ⟨1, 1, 7, "second", none, 900⟩] := by
    decide
  have hmem : ∀ s, s ∈ reusedWorld.db.1.1 ↔
      s ∈ [⟨0, 1, 7, "first", some 5, 900⟩, ⟨1, 1, 7, "second", none, 900⟩] := fun s => by
    rw [Table.mem_iff, hrows]
  refine ⟨⟨_, (hmem _).2 List.mem_cons_self, rfl⟩, fun s hs => ?_⟩
  rw [hmem] at hs
  revert s
  decide

omit [Collation] in
/-- A rename that collides after the unit was set, and a token presented again. -/
theorem rename_and_reuse_failed : ∃ (_ : Collation) (s t : AppSystem),
    runList engine (handle .unary) (opened (handle .unary) reusedWorld renames) renameSteps =
      some s ∧
    runList engine (handle .unary) (opened (handle .unary) reusedWorld reuses) reuseSteps =
      some t ∧
    s.world.log = [(0, renames, .error (.app Ledger.AccountNameTakenError))] ∧
    s.world.db = reusedWorld.db ∧ FamilyRevoked Env.unary "first" reusedWorld.db t.world.db := by
  let _ : Collation := Collation.codePoints
  have hrename : allowed engine (handle .unary) (fun _ a => a.of 0)
      (opened (handle .unary) reusedWorld renames) renameSteps = true := by
    decide +kernel
  have hrenamed : (runList engine (handle .unary) (opened (handle .unary) reusedWorld renames)
      renameSteps).any (fun s => decide (s.world.log =
        [(0, renames, .error (.app Ledger.AccountNameTakenError))])) = true := by
    decide +kernel
  have hreuse : allowed engine (handle .unary) (fun _ a => a.of 0 && !a.isAbort)
      (opened (handle .unary) reusedWorld reuses) reuseSteps = true := by
    decide +kernel
  have hreused : (runList engine (handle .unary) (opened (handle .unary) reusedWorld reuses)
      reuseSteps).any (fun t => decide (t.world.log =
        [(0, reuses, .error (.app Auth.InvalidSessionError))])) = true := by
    decide +kernel
  obtain ⟨s, hslist, hs, hslog⟩ := exists_allowed hrename hrenamed
  obtain ⟨t, htlist, ht, htlog⟩ := exists_allowed hreuse hreused
  have hslog' := of_decide_eq_true hslog
  have htlog' := of_decide_eq_true htlog
  refine ⟨Collation.codePoints, s, t, hslist, htlist, hslog', ?_, ?_⟩
  · rcases (failed_request_keeps_tables .unary reusedWorld renames).1 s _ hs hslog' with hdb | ⟨_, h, -⟩
    · exact hdb
    · cases h
  · exact ((failed_request_keeps_tables .unary reusedWorld reuses).2 "first" t _ rfl first_spent ht
      htlog').2

/-- Among any other requests: what changes the tables is a request that succeeds, or a refresh. -/
theorem tables_change_on_success {env : Env} {s₀ s s' : AppSystem} {a : Action Key Failure Request}
    (h : Run engine (handle env) anyStep s₀ s) (h₀ : ∀ n, s₀.conns n = none)
    (hs : step engine (handle env) s a = some s') :
    s'.world.db = s.world.db ∨
    (∃ n c x, s.conns n = some c ∧ s'.world.log = (n, c.req, .ok x) :: s.world.log) ∨
    ∃ n c, a = .advance n ∧ s.conns n = some c ∧ c.req.Refreshes :=
  h.changes h₀ (fun n _ hreq => handle_quiet env n hreq) hs

end Tradinghub.App
