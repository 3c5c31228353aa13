import Tradinghub.Ledger.Names

/-!
# Requests that take effect at once

Seven of the eleven endpoints do what they answer at one point of their life: what they read, what
they answer and what they write is what `respond` does alone with the rows of that point, whatever
is interleaved (`atomic`).  The point lies on the run itself, after the request has begun and no
later than the step that answers it (`TakesEffect`).  So their history is that of one request after
another.
-/

namespace Tradinghub.Ledger

open ReadCommitted Store

variable [Collation]

/-! ## One point -/

/-- The endpoints that read, check and write as of one state. -/
def Endpoint.isAtomic : Endpoint → Bool
  | .updateAccount _ _ => false
  | .listTransactions _ => false
  | .updateTransaction _ _ => false
  | .createTransfer _ => false
  | _ => true

/-- In the run `tr` request `n`, which is `req`, was answered `r` by the step from `t` to `u`, and in
`m`, where it was open, it did what `respond` does there: it commits in that very step, or has nothing
to write. -/
structure EffectAt (env : Env) (tr : LedgerSteps) (n : Nat) (req : Request)
    (r : Except Failure Response) (m t u : LedgerSystem) : Prop where
  opened : ∃ c, m.conns n = some c ∧ c.req = req
  order : ∃ before after, tr = before ++ after ∧ Trace engine (handle env) initial before m ∧
    (t, .advance n) ∈ after
  answers : step engine (handle env) t (.advance n) = some u ∧
    u.world.log = (n, req, r) :: t.world.log
  effect : (m = t ∧ respond env n req.userId m.world.clock m.world.db req.endpoint =
      (r, u.world.db)) ∨
    (respond env n req.userId m.world.clock m.world.db req.endpoint = (r, m.world.db) ∧
      u.world.db = t.world.db)

def TakesEffect (env : Env) (tr : LedgerSteps) (n : Nat) (req : Request)
    (r : Except Failure Response) : Prop :=
  ∃ m t u, EffectAt env tr n req r m t u

section Points

variable {env : Env} {ok : LedgerSystem → Action Key Failure Request → Prop} {n : Nat}
  {req : Request} {s t : LedgerSystem} {tx : LedgerTx}

/-- A row under a name that was found free, committed. -/
theorem respond_createAccount {a : Response} {payload : AccountCreate} {hits : List Key}
    {m : LedgerSystem} (hreq : req.endpoint = .createAccount payload)
    (hm : AboutTo env ok n req a tx m t)
    (ha : a = .account (accountResponse ⟨newAccount env n req.userId payload, 0⟩))
    (hfinish : (Stmt.insertAccount (newAccount env n req.userId payload)).finish hits m.world.db =
      .ok tx.writes)
    (hname : nameKey (newAccount env n req.userId payload) ∈ tx.locks) (now : Int) :
    respond env n req.userId now t.world.db req.endpoint =
      (.ok a, engine.view tx t.world.db) := by
  obtain ⟨row, hrow⟩ : ∃ row, newAccount env n req.userId payload = row := ⟨_, rfl⟩
  have hid : row.id = env.accountId n := hrow ▸ rfl
  rw [hrow] at ha hfinish hname
  obtain ⟨hws, hle⟩ := insertAccount_finish hfinish
  have hfree := name_free_of_aboutTo hm hname (insertAccount_free hfinish)
  have hnone : t.world.db.accounts.find? row.id = none :=
    Table.find?_eq_none.2 fun old hold hkey =>
      (ledgerOk_of_run hm.reached).account_ne (opened_unanswered hm.during) hold
        (Eq.trans hkey hid)
  have hok : (Stmt.insertAccount row).finish [nameKey row] t.world.db = .ok tx.writes := by
    simp only [Stmt.finish]
    rw [if_neg (Nat.not_lt.2 hle), hnone, hfree, hws]
    rfl
  have hwhole : (Stmt.insertAccount row).whole t.world.db = .ok (engine.view tx t.world.db) :=
    congrArg (Except.map fun ws => engine.applyAll ws t.world.db) hok
  rw [hreq, ha]
  simp only [respond, hrow, hwhole]
  rfl

/-- The step that answers a request comes after every state it is open in. -/
theorem order_of_open {tr : LedgerSteps} {m u : LedgerSystem} {c : LedgerConn}
    {r : Except Failure Response} (h : Trace engine (handle env) initial tr s)
    (hm : Run engine (handle env) (fun t a => (t, a) ∈ tr) initial m) (hc : m.conns n = some c)
    (ht : (t, .advance n) ∈ tr) (hs : step engine (handle env) t (.advance n) = some u)
    (hlog : u.world.log = (n, req, r) :: t.world.log) :
    ∃ before after, tr = before ++ after ∧ Trace engine (handle env) initial before m ∧
      (t, .advance n) ∈ after := by
  obtain ⟨before, after, rfl, hbefore, -⟩ := h.at_state hm
  refine ⟨before, after, rfl, hbefore, (List.mem_append.1 ht).resolve_left fun hearly => ?_⟩
  -- answered earlier, it would not be open
  obtain ⟨_, _, v, -, -, hv, hrest⟩ := hbefore.at_step hearly
  obtain rfl : v = u := Option.some.inj (hv.symm.trans hs)
  have hanswered : (n, req, r) ∈ m.world.log :=
    hrest.any.log_mono _ (hlog ▸ List.mem_cons_self)
  have hclosed := (hbefore.closed (fun _ => rfl) rfl n req r hanswered).2
  exact absurd (hc.symm.trans hclosed) (by simp)

/-- Every atomic request takes effect where it ends, or where it read. -/
theorem Served.takesEffect {tr : LedgerSteps} {r : Except Failure Response} {u : LedgerSystem}
    {c : LedgerConn} (htr : Trace engine (handle env) initial tr s)
    (h : Served env (fun t a => (t, a) ∈ tr) n req r c.tx t) (hatomic : req.endpoint.isAtomic = true)
    (hreq : c.req = req)
    (hended : Ended engine (handle env) (fun t a => (t, a) ∈ tr) initial s n c r t u) :
    TakesEffect env tr n req r := by
  have hlog : u.world.log = (n, req, r) :: t.world.log := hreq ▸ hended.log
  have effect : ∀ m : LedgerSystem, Run engine (handle env) (fun t a => (t, a) ∈ tr) initial m →
      (∃ d, m.conns n = some d ∧ d.req = req) →
      ((m = t ∧ respond env n req.userId m.world.clock m.world.db req.endpoint =
        (r, u.world.db)) ∨
      (respond env n req.userId m.world.clock m.world.db req.endpoint = (r, m.world.db) ∧
        u.world.db = t.world.db)) → TakesEffect env tr n req r := by
    rintro m hm ⟨d, hd, hdreq⟩ heffect
    exact ⟨m, t, u, ⟨d, hd, hdreq⟩,
      order_of_open htr hm hd hended.allowed hended.step hlog, ⟨hended.step, hlog⟩, heffect⟩
  -- a commit takes effect in the last step
  have last : ∀ {a : Response}, r = .ok a → respond env n req.userId t.world.clock t.world.db
      req.endpoint = (.ok a, engine.view c.tx t.world.db) → TakesEffect env tr n req r := by
    rintro a rfl hrespond
    refine effect t hended.reached ⟨c, hended.conn, hreq⟩ (Or.inl ⟨rfl, ?_⟩)
    rw [hrespond, (hended.db).1 a rfl]
  cases h with
  | @moment _ _ _ m hm h hwrites =>
    refine effect m hm.reached hm.opened (Or.inr ⟨h, ?_⟩)
    cases r with
    | ok a =>
      rw [(hended.db).1 a rfl, Engine.view, hwrites]
      rfl
    | error e => exact (hended.db).2 e rfl
  | commit h => exact last rfl h
  | accountCreated hep hm ha hfinish hname =>
    exact last rfl (respond_createAccount hep hm ha hfinish hname _)
  | page hep | accountUpdated hep | accountNameTaken hep | transactionUpdated hep
  | transactionGone hep | transferCreated hep | transferOverflow hep =>
    rw [hep] at hatomic
    cases hatomic

/-- **Seven endpoints take effect at once**, whatever is interleaved: each request that is answered
and was not given up. -/
theorem atomic {tr : LedgerSteps} (h : Trace engine (handle env) initial tr s) :
    ∀ n req r, (n, req, r) ∈ s.world.log → (∀ t e, (t, .abort n e) ∉ tr) →
      req.endpoint.isAtomic = true → TakesEffect env tr n req r := by
  intro n req r he hown hatomic
  rcases run_served h.run n req r he with ⟨e, c, t, -, -, habort⟩ | ⟨c, t, u, hreq, hended, hserved⟩
  · exact absurd habort.allowed (hown t e)
  · exact hserved.takesEffect h hatomic hreq hended

/-- The request was refused with that error. -/
def refusedWith (s : LedgerSystem) (n : Nat) (error : AppError) : Bool :=
  s.world.log.any fun e => decide (e.1 = n) &&
    match e.2.2 with
    | .error (.app error') => decide (error' = error)
    | _ => false

omit [Collation] in
theorem refusedWith_spec {error : AppError} (h : refusedWith s n error = true) :
    ∃ req, (n, req, .error (.app error)) ∈ s.world.log := by
  obtain ⟨⟨m, req, r⟩, he, hfound⟩ := List.any_eq_true.1 h
  obtain ⟨hn, hr⟩ := Bool.and_eq_true_iff.1 hfound
  obtain rfl := of_decide_eq_true hn
  refine ⟨req, ?_⟩
  cases r with
  | ok a => cases hr
  | error e =>
    cases e with
    | app error' => exact of_decide_eq_true hr ▸ he
    | _ => cases hr

end Points

omit [Collation] in
/-- The request that lost the race was refused as of one point. -/
theorem lost_race_at_once : ∃ (_ : Collation) (s : LedgerSystem) (req : Request),
    Trace engine (handle .counting) initial
      (stepsOf engine (handle .counting) initial racesForName) s ∧
    (0, req, .error (.app AccountNameTakenError)) ∈ s.world.log ∧
    TakesEffect .counting (stepsOf engine (handle .counting) initial racesForName) 0 req
      (.error (.app AccountNameTakenError)) := by
  let _ : Collation := Collation.ignoringCase
  have hrun : (runList engine (handle .counting) initial racesForName).any (fun s =>
      refusedWith s 0 AccountNameTakenError &&
        s.world.log.all fun e => e.2.1.endpoint.isAtomic) = true := by
    decide +kernel
  obtain ⟨s, hs, hp⟩ := exists_trace hrun
  obtain ⟨hrefused, hall⟩ := Bool.and_eq_true_iff.1 hp
  obtain ⟨req, he⟩ := refusedWith_spec hrefused
  have hatomic := List.all_eq_true.1 hall _ he
  have hown : ∀ t e, (t, .abort 0 e) ∉ stepsOf engine (handle .counting) initial racesForName := by
    intro t e hmem
    simpa [racesForName] using action_of_stepsOf hmem
  exact ⟨Collation.ignoringCase, s, req, hs, he, atomic hs 0 req _ he hown hatomic⟩

end Tradinghub.Ledger
