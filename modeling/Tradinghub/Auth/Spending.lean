import Tradinghub.Auth.Attempts

/-!
# What marks a token used

A row is marked used by a refresh that presented its token, and by nothing else: `Accounts` is where
a request is and what it has written, `accounted` the result for every interleaving.  So the answers
alone say which tokens are used, and a refresh revokes a family only if its token was redeemed
before.
-/

namespace Tradinghub.Auth

open ReadCommitted Store

/-- A refresh that presented the token has been answered with a pair. -/
def Redeemed (env : Env) (log : Log) (tok : String) : Prop :=
  ∃ n tok' pair, (n, Request.refreshSession tok', Except.ok (.tokens pair)) ∈ log ∧
    env.hashRefreshToken tok' = env.hashRefreshToken tok

/-- The row with that id is the token's: both were drawn by one request. -/
def Names (env : Env) (tok : String) (id : Nat) : Prop :=
  ∃ k, id = env.sessionId k ∧
    env.hashRefreshToken tok = env.hashRefreshToken (env.generateRefreshToken k)

/-- The token was handed out in the family. -/
def InFamily (env : Env) (log : Log) (familyId : Nat) (tok : String) : Prop :=
  ∃ k, env.hashRefreshToken tok = env.hashRefreshToken (env.generateRefreshToken k) ∧
    TokenOf env log familyId (env.generateRefreshToken k)

/-- Statements that mark only rows `marks` as used, and delete only families `revokes`. -/
def Stmt.Allowed (marks revokes : Nat → Prop) : Stmt → Prop
  | .lockByTokenHash _ => True
  | .updateUsedAt id _ => marks id
  | .insert row => row.usedAt = none
  | .deleteFamily familyId => revokes familyId

def Write.Allowed (marks : Nat → Prop) : Write → Prop
  | .insert row => row.usedAt = none
  | .setUsedAt id _ => marks id
  | .delete _ => True

/-- A refresh answers with a pair. -/
def Answer (req : Request) (a : Response) : Prop :=
  ∀ tok, req = .refreshSession tok → ∃ pair, a = .tokens pair

/-- What a refresh does with the row it found, to its answer. -/
def answerFound (env : Env) (n : Nat) (found : Option Session) : Program Response :=
  refreshFound env n found >>= fun pair => .ret (.tokens pair)

/-- Where an open request is: a refresh looks for its row, and from then on it is known which rows
may be marked used, and whether a family may go. -/
inductive Accounts (env : Env) (log : Log) (n : Nat) (req : Request) :
    Program Response → Tx Nat Write Stmt → Prop
  | asked {tok k} (hreq : req = .refreshSession tok)
      (hk : ∀ hits v, k (.ok (hits, v)) = answerFound env n (hits.head?.bind v.find?))
      (hd : ∀ d, ∃ e, k (.error d) = .raise e) :
      Accounts env log n req (.exec (.lockByTokenHash (env.hashRefreshToken tok)) k) {}
  | locking {tok todo hits k tx} (hreq : req = .refreshSession tok)
      (hk : ∀ hits v, k (.ok (hits, v)) = answerFound env n (hits.head?.bind v.find?))
      (hd : ∀ d, ∃ e, k (.error d) = .raise e) (hhits : ∀ id ∈ hits, Names env tok id)
      (hws : tx.writes = []) (hbegun : ∀ F keys, (Stmt.deleteFamily F, keys) ∉ tx.begun) :
      Accounts env log n req (.scan (.lockByTokenHash (env.hashRefreshToken tok)) todo hits k) tx
  | moving {p tx} (marks revokes : Nat → Prop)
      (hp : p.Within (Stmt.Allowed marks revokes) (Answer req))
      (hquiet : p.Quiet ∨ ∀ id, ¬ marks id)
      (hmarks : ∀ id, marks id → ∃ tok, req = .refreshSession tok ∧ Names env tok id)
      (hrevokes : ∀ F, revokes F → ∀ tok, req = .refreshSession tok →
        Redeemed env log tok ∧ InFamily env log F tok)
      (hws : ∀ w ∈ tx.writes, w.Allowed marks)
      (hbegun : ∀ F keys, (Stmt.deleteFamily F, keys) ∈ tx.begun → revokes F) :
      Accounts env log n req p tx

/-! ## The services -/

section Services

variable {marks revokes : Nat → Prop} {env : Env} {n : Nat}

theorem handle_refreshSession (tok : String) :
    handle env n (.refreshSession tok) =
      lockSessionByTokenHash (env.hashRefreshToken tok) >>= answerFound env n := by
  rw [handle, refreshSession_eq, Prog.bind_assoc]
  rfl

/-- A request that has just begun. -/
theorem accounts_start (env : Env) (log : Log) (n : Nat) (req : Request) :
    Accounts env log n req (handle env n req) {} := by
  cases req with
  | startSession userId =>
    refine .moving (fun _ => False) (fun _ => True) ?_ (Or.inr fun _ => id) (fun _ h => h.elim)
      (fun _ _ tok h => by cases h) (fun _ h => by cases h) (fun _ _ _ => trivial)
    refine Prog.Within.bind
      (issueTokenPair_sends (fun _ _ h => by cases h) fun _ hrow => hrow).within fun _ _ => ?_
    exact fun tok h => by cases h
  | refreshSession tok =>
    rw [handle_refreshSession]
    exact .asked rfl (fun _ _ => rfl) fun d => ⟨.database d, rfl⟩
  | logoutUser tok =>
    refine .moving (fun _ => False) (fun _ => True) ?_ (Or.inr fun _ => id) (fun _ h => h.elim)
      (fun _ _ tok h => by cases h) (fun _ h => by cases h) (fun _ _ _ => trivial)
    refine Prog.Within.bind
      (logoutUser_sends (fun _ => trivial) fun _ => trivial).within fun _ _ => ?_
    exact fun tok h => by cases h

/-- The row that was found decides: a used one was redeemed, any other may be marked. -/
theorem accounts_found {log : Log} {tok : String} {found : Option Session}
    {tx : Tx Nat Write Stmt}
    (hfound : ∀ s, found = some s → Names env tok s.id ∧
      (s.usedAt ≠ none → Redeemed env log tok ∧ InFamily env log s.familyId tok))
    (hws : tx.writes = []) (hbegun : ∀ F keys, (Stmt.deleteFamily F, keys) ∉ tx.begun) :
    Accounts env log n (.refreshSession tok) (answerFound env n found) tx := by
  have hnone : ∀ marks : Nat → Prop, ∀ w ∈ tx.writes, w.Allowed marks := by
    intro marks w hw
    rw [hws] at hw
    cases hw
  have htokens : ∀ pair : TokenPair, Answer (.refreshSession tok) (.tokens pair) :=
    fun pair _ _ => ⟨pair, rfl⟩
  cases found with
  | none =>
    exact .moving (fun _ => False) (fun _ => False) trivial (Or.inl trivial) (fun _ h => h.elim)
      (fun _ h => h.elim) (hnone _) hbegun
  | some s =>
  obtain ⟨hs, hused⟩ := hfound s rfl
  by_cases hu : s.usedAt = none
  · refine .moving (fun id => id = s.id) (fun _ => False) ?_
      (Or.inl ((refreshFound_quiet hu).map _)) ?_ (fun _ h => h.elim) (hnone _) hbegun
    · refine Prog.Within.bind (Q := fun _ => True) ?_ fun pair _ => htokens pair
      exact (refreshFound_sends hu (fun _ => rfl) fun _ hrow => hrow).within
    · rintro id rfl
      exact ⟨tok, rfl, hs⟩
  · refine .moving (fun _ => False) (fun F => F = s.familyId) ?_ (Or.inr fun _ => id)
      (fun _ h => h.elim) ?_ (hnone _) fun F keys h => absurd h (hbegun F keys)
    · refine Prog.Within.bind (Q := fun _ => True) ?_ fun pair _ => htokens pair
      have hsome : s.usedAt.isSome = true := Option.isSome_iff_ne_none.2 hu
      simp only [refreshFound, hsome, if_true]
      have hdelete : Stmt.Allowed (fun _ => False) (fun F => F = s.familyId)
          (.deleteFamily s.familyId) := rfl
      exact (revokeFamily_sends hdelete).within.bind fun _ _ => trivial
    · rintro F rfl tok' h
      cases h
      exact hused hu

end Services

/-! ## One step -/

section Steps

variable {env : Env} {log : Log} {n : Nat}

theorem Redeemed.mono {log' : Log} {tok : String} (h : Redeemed env log tok)
    (hsub : ∀ e ∈ log, e ∈ log') : Redeemed env log' tok := by
  obtain ⟨m, tok', pair, he, hash⟩ := h
  exact ⟨m, tok', pair, hsub _ he, hash⟩

theorem Accounts.mono {log' : Log} {req : Request} {p : Program Response} {tx : Tx Nat Write Stmt}
    (h : Accounts env log n req p tx) (hsub : ∀ e ∈ log, e ∈ log') :
    Accounts env log' n req p tx := by
  cases h with
  | asked hreq hk hd => exact .asked hreq hk hd
  | locking hreq hk hd hhits hws hbegun => exact .locking hreq hk hd hhits hws hbegun
  | moving marks revokes hp hquiet hmarks hrevokes hws hbegun =>
    refine .moving marks revokes hp hquiet hmarks (fun F hF tok htok => ?_) hws hbegun
    obtain ⟨hredeemed, k, hash, htoken⟩ := hrevokes F hF tok htok
    exact ⟨hredeemed.mono hsub, k, hash, htoken.mono hsub⟩

theorem act_allowed {marks revokes : Nat → Prop} {q : Stmt} {id : Nat} {db : Sessions}
    {ws : List Write} (hq : q.Allowed marks revokes) (h : engine.act q id db = some ws) :
    ∀ w ∈ ws, w.Allowed marks := by
  obtain ⟨s, -, -, hm, rfl⟩ := act_eq_some h
  intro w hw
  cases q with
  | updateUsedAt id' usedAt =>
    obtain rfl := List.mem_singleton.1 hw
    have hid : s.id = id' := by simpa [Stmt.matches] using hm
    exact hid ▸ hq
  | deleteFamily F =>
    obtain rfl := List.mem_singleton.1 hw
    trivial
  | lockByTokenHash h => cases hw
  | insert row => cases hw

theorem finish_allowed {marks revokes : Nat → Prop} {q : Stmt} {hits : List Nat}
    {db : Sessions} {ws : List Write} (hq : q.Allowed marks revokes)
    (h : engine.finish q hits db = .ok ws) : ∀ w ∈ ws, w.Allowed marks := by
  intro w hw
  rw [engine_finish] at h
  unfold Stmt.finish at h
  split at h
  · split at h
    · cases h
    · cases h
      obtain rfl := List.mem_singleton.1 hw
      exact hq
  · cases h
  · cases h
    cases hw

theorem SessionsOk.hash_of_names {w : AuthWorld} (h : SessionsOk env w) {r : Session} {tok : String}
    (hr : r ∈ w.db) (hnames : Names env tok r.id) :
    r.hashedRefreshToken = env.hashRefreshToken tok := by
  obtain ⟨k, hid, hash⟩ := hnames
  obtain ⟨j, hj⟩ := h.issued r hr
  obtain rfl : j = k := env.sessionId_fresh _ _ (hj.id.symm.trans hid)
  exact hj.hash.trans hash.symm

/-- One step of the request's own, over rows whose used ones are accounted for. -/
theorem accounts_own {s : AuthSystem} {c c' : Conn Sessions Nat Write Stmt DbError Failure Response
    Request} {a : Action Nat Failure Request} (h : Own engine s n c a c') (hinv : SessionsOk env s.world)
    (hused : ∀ tok r, Reused env tok s.world.db r → Redeemed env s.world.log tok)
    (hc : Accounts env s.world.log n c.req c.prog c.tx) :
    Accounts env s.world.log n c'.req c'.prog c'.tx := by
  rw [h.req]
  obtain ⟨req, prog, tx⟩ := c
  change Accounts env s.world.log n req prog tx at hc
  cases hc with
  | asked hreq hk hd =>
    cases h with
    | exec hprog =>
      cases hprog
      exact .locking hreq hk hd (fun id hid => absurd hid List.not_mem_nil) rfl (by simp)
    | _ hprog => cases hprog
  | @locking tok todo hits k _ hreq hk hd hhits hws hbegun =>
    cases h with
    | refused hprog hfinish =>
      cases hprog
      cases hfinish
    | done hprog hfinish =>
      cases hprog
      cases hfinish
      rw [hk, view_write_nil hws]
      subst hreq
      refine accounts_found (fun r hr => ?_) (by rw [Tx.write_writes, hws]; rfl) hbegun
      obtain ⟨id, hid, hfind⟩ := Option.bind_eq_some_iff.1 hr
      obtain ⟨hmem, hkey⟩ := Table.find?_eq_some.1 hfind
      have hnames : Names env tok r.id := by
        rw [show r.id = id from hkey]
        exact hhits id (List.mem_of_mem_head? hid)
      have hash := hinv.hash_of_names hmem hnames
      refine ⟨hnames, fun hu => ⟨hused tok r ⟨hmem, hash, hu⟩, ?_⟩⟩
      obtain ⟨j, hj⟩ := hinv.issued r hmem
      exact ⟨j, hash.symm.trans hj.hash, hj.token⟩
    | skip hprog hkey hfree hact =>
      cases hprog
      exact .locking hreq hk hd hhits hws hbegun
    | @take q todo' hits' k' key ws' hprog hkey hfree hact =>
      cases hprog
      rw [view_of_writes hws] at hact
      obtain ⟨r, hr, rfl, hmatch, rfl⟩ := act_eq_some hact
      obtain ⟨j, hj⟩ := hinv.issued r hr
      refine .locking hreq hk hd (fun id hid => ?_) (by rw [Tx.hold_writes, hws]; rfl) hbegun
      rcases List.mem_append.1 hid with hid | hid
      · exact hhits id hid
      · obtain rfl := List.mem_singleton.1 hid
        have hash : r.hashedRefreshToken = env.hashRefreshToken tok := of_decide_eq_true hmatch
        exact ⟨j, hj.id, hash.symm.trans hj.hash⟩
    | _ hprog => cases hprog
  | moving marks revokes hp hquiet hmarks hrevokes hws hbegun =>
    refine .moving marks revokes (h.within (fun _ _ hq => hq) hp) ?_ hmarks hrevokes
      (h.writes hp (fun _ _ _ _ => act_allowed) (fun _ _ _ _ => finish_allowed) hws)
      fun F keys hF => ?_
    · exact hquiet.imp h.quiet id
    · rcases h.begins hp hF with hF | hF
      · exact hbegun F keys hF
      · exact hF

/-! ## Every run -/

/-- A row that is used after some writes was used before them, or one of them marks it. -/
theorem used_of_writes {ws : List Write} {db : Sessions} {r : Session} {marks : Nat → Prop}
    (hws : ∀ w ∈ ws, w.Allowed marks) (hr : r ∈ engine.applyAll ws db) (hu : r.usedAt ≠ none) :
    (∃ r₀ ∈ db, r₀.id = r.id ∧ r₀.usedAt ≠ none) ∨ marks r.id := by
  induction ws generalizing db with
  | nil => exact Or.inl ⟨r, hr, rfl, hu⟩
  | cons w ws ih =>
    have hw : w.Allowed marks := hws w List.mem_cons_self
    rcases ih (fun w' hw' => hws w' (List.mem_cons_of_mem _ hw')) hr with ⟨r₀, hr₀, hid, hu₀⟩ | h
    · cases w with
      | insert row =>
        rcases Table.mem_put.1 hr₀ with rfl | ⟨hr₀, -⟩
        · exact absurd hw hu₀
        · exact Or.inl ⟨r₀, hr₀, hid, hu₀⟩
      | delete id => exact Or.inl ⟨r₀, (Table.mem_erase.1 hr₀).1, hid, hu₀⟩
      | setUsedAt id usedAt =>
        cases hfind : db.find? id with
        | none =>
          have hsame : Write.apply (.setUsedAt id usedAt) db = db := by
            simp only [Write.apply, hfind]
          change r₀ ∈ Write.apply _ db at hr₀
          rw [hsame] at hr₀
          exact Or.inl ⟨r₀, hr₀, hid, hu₀⟩
        | some s =>
          obtain ⟨hs, rfl⟩ := Table.find?_eq_some.1 hfind
          change r₀ ∈ Write.apply (.setUsedAt s.id usedAt) db at hr₀
          rw [apply_setUsedAt hs usedAt] at hr₀
          rcases Table.mem_put.1 hr₀ with rfl | ⟨hr₀, -⟩
          · exact Or.inr (hid ▸ hw)
          · exact Or.inl ⟨r₀, hr₀, hid, hu₀⟩
    · exact Or.inr h

/-- What a commit marks, it marks with the answer to a refresh. -/
theorem Accounts.marked {req : Request} {p : Program Response} {tx : Tx Nat Write Stmt}
    {db : Sessions} {r : Session} (h : Accounts env log n req p tx) (hcommits : p.commits = true)
    (hr : r ∈ engine.view tx db) (hu : r.usedAt ≠ none) :
    (∃ r₀ ∈ db, r₀.id = r.id ∧ r₀.usedAt ≠ none) ∨
    ∃ tok pair, req = .refreshSession tok ∧ Names env tok r.id ∧ p = .ret (.tokens pair) := by
  cases h with
  | asked => cases hcommits
  | locking => cases hcommits
  | moving marks revokes hp hquiet hmarks hrevokes hws hbegun =>
    refine (used_of_writes hws hr hu).imp id fun hmark => ?_
    obtain ⟨tok, hreq, hnames⟩ := hmarks r.id hmark
    have hq : p.Quiet := hquiet.resolve_right fun h => h r.id hmark
    cases p with
    | ret a =>
      obtain ⟨pair, rfl⟩ := hp tok hreq
      exact ⟨tok, pair, hreq, hnames, rfl⟩
    | commit k => exact hq.elim
    | _ => cases hcommits

/-- The used rows are those of redeemed tokens. -/
structure Accounted (env : Env) (s : AuthSystem) : Prop where
  used : ∀ tok r, Reused env tok s.world.db r → Redeemed env s.world.log tok
  conns : ∀ m c, s.conns m = some c → Accounts env s.world.log m c.req c.prog c.tx

theorem Accounted.step {s s' : AuthSystem} {a : Action Nat Failure Request} (h : Accounted env s)
    (hinv : SessionsOk env s.world) (hinv' : SessionsOk env s'.world)
    (hs : ReadCommitted.step engine (handle env) s a = some s') : Accounted env s' := by
  have hlog := step_log_mono hs
  constructor
  · intro tok r hr
    -- a row that was used already
    have old : (∃ r₀ ∈ s.world.db, r₀.id = r.id ∧ r₀.usedAt ≠ none) →
        Redeemed env s'.world.log tok := by
      rintro ⟨r₀, hr₀, hid, hu₀⟩
      obtain ⟨k, hk⟩ := hinv'.issued r hr.mem
      obtain ⟨j, hj⟩ := hinv.issued r₀ hr₀
      obtain rfl : j = k := env.sessionId_fresh _ _ (hj.id.symm.trans (hid.trans hk.id))
      have hash : r₀.hashedRefreshToken = env.hashRefreshToken tok :=
        (hj.hash.trans hk.hash.symm).trans hr.hash
      exact (h.used tok r₀ ⟨hr₀, hash, hu₀⟩).mono hlog
    have same : s'.world.db = s.world.db → Redeemed env s'.world.log tok := fun hdb =>
      old ⟨r, hdb ▸ hr.mem, rfl, hr.used⟩
    cases step_move hs with
    | start req => exact same rfl
    | own => exact same rfl
    | raise => exact same rfl
    | abort => exact same rfl
    | tick => exact same rfl
    | commit hc hprog =>
      have hmarked := (h.conns _ _ hc).marked (by rw [hprog]; rfl) hr.mem hr.used
      refine hmarked.elim old ?_
      rintro ⟨tok', pair, -, -, hret⟩
      rw [hprog] at hret
      cases hret
    | @ret m c a hc hprog =>
      have hmarked := (h.conns _ _ hc).marked (by rw [hprog]; rfl) hr.mem hr.used
      refine hmarked.elim old ?_
      rintro ⟨tok', pair, hreq, hnames, hret⟩
      rw [hprog] at hret
      cases hret
      have hash : r.hashedRefreshToken = env.hashRefreshToken tok' :=
        hinv'.hash_of_names hr.mem hnames
      have hmem : (m, Request.refreshSession tok', Except.ok (Response.tokens pair)) ∈
          (m, c.req, Except.ok (Response.tokens pair)) :: s.world.log := by
        rw [hreq]
        exact List.mem_cons_self
      exact ⟨m, tok', pair, hmem, hash.symm.trans hr.hash⟩
  · intro m c' hc'
    rcases step_conn hs hc' with ⟨hc, -⟩ | ⟨req, -, -, rfl⟩ | ⟨c, hc, hown⟩
    · exact (h.conns m c' hc).mono hlog
    · exact accounts_start env _ m req
    · exact (accounts_own hown hinv h.used (h.conns m c hc)).mono hlog

/-- **Every interleaving of any requests accounts for its used rows.** -/
theorem accounted {s : AuthSystem} (h : Run engine (handle env) anyStep { world := initialWorld } s) :
    Accounted env s := by
  induction h with
  | refl =>
    exact ⟨fun tok r hr => absurd hr.mem (Table.not_mem_empty r), fun m c hc => by cases hc⟩
  | @tail s s' a hr _ hs ih =>
    have hinv : SessionsOk env s.world := (sessions_good hr).inv
    exact ih.step hinv (sessions_good (hr.trans (.single trivial hs))).inv hs

/-- A refresh revokes a family only if its token is one of the family's, and was redeemed before. -/
theorem Accounts.revokes {tok : String} {p : Program Response} {tx : Tx Nat Write Stmt} {F : Nat}
    {keys : List Nat} (h : Accounts env log n (.refreshSession tok) p tx)
    (hF : (Stmt.deleteFamily F, keys) ∈ tx.begun) :
    Redeemed env log tok ∧ InFamily env log F tok := by
  cases h with
  | asked => cases hF
  | locking _ _ _ _ _ hbegun => exact absurd hF (hbegun F keys)
  | moving marks revokes hp hquiet hmarks hrevokes hws hbegun =>
    exact hrevokes F (hbegun F keys hF) tok rfl

end Steps

end Tradinghub.Auth
