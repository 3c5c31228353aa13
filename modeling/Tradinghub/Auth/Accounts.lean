import Tradinghub.Auth.Users
import Tradinghub.Auth.Discipline

/-!
# Who has an account, and who is signed in

Registrations, logins, refreshes and logouts over one database, in any interleaving.  The users are
the answered registrations, one for each address (`users_told`): two registrations can both find an
address free, but the later INSERT waits for the earlier one to end.  And whoever holds tokens has
shown a password (`signed_in_by_password`): every pair goes back, refresh by refresh, to a sign-in
that was a registration or a login with a password that verified.
-/

namespace Tradinghub.Auth

open ReadCommitted Store
open Ledger (Collation)

abbrev AccountWorld := World AuthDb Endpoint Failure Reply

abbrev AccountTx := Tx (Nat ⊕ String) (Write ⊕ UserWrite) (Stmt ⊕ UserStmt)

abbrev AccountSystem :=
  Sys AuthDb (Nat ⊕ String) (Write ⊕ UserWrite) (Stmt ⊕ UserStmt) DbError Failure Reply Endpoint

abbrev AccountLog := List (Nat × Endpoint × Except Failure Reply)

/-- Nobody has registered yet. -/
def noAccounts : AccountSystem := { world := { db := (Table.empty, Table.empty) } }

/-- Request `n`, as `get_db` runs it. -/
def handleAccount [Collation] (env : AccountEnv) (n : Nat) (endpoint : Endpoint) :
    AuthProgram Reply :=
  route env n endpoint

/-- The row of an answered registration. -/
def registered (env : AccountEnv) (n : Nat) (email rawPassword : String) : User where
  id := env.userId n
  email := email
  passwordHash := env.hashPassword n rawPassword

/-- The endpoints that ask for a password. -/
def Endpoint.signsIn : Endpoint → Bool
  | .register _ _ => true
  | .login _ _ => true
  | _ => false

/-- The tokens an answer hands out. -/
def Reply.pair : Reply → Option TokenPair
  | .signedIn _ pair => some pair
  | .refreshed pair => some pair
  | _ => none

/-- Whoever sent request `k` has shown the password of `u`. -/
inductive ShowsPassword [Collation] (env : AccountEnv) (k : Nat) : Endpoint → User → Prop
  | register (email rawPassword : String) :
      ShowsPassword env k (.register email rawPassword) (registered env k email rawPassword)
  | login {email rawPassword : String} {u : User}
      (hemail : Collation.fold u.email = Collation.fold email)
      (hverify : env.verifyPassword rawPassword u.passwordHash = true) :
      ShowsPassword env k (.login email rawPassword) u

/-- An access token that names the user, issued by `now`. -/
def AccessFor (env : Env) (userId : Nat) (now : Int) (accessToken : String) : Prop :=
  ∃ issuedAt ≤ now, accessToken = env.jwtEncode
    { sub := toString userId, iat := issuedAt, exp := issuedAt + ACCESS_TOKEN_LIFETIME }

/-- The pair request `n` has minted for the user by `now`. -/
structure Minted (env : Env) (n userId : Nat) (now : Int) (pair : TokenPair) : Prop where
  refresh : pair.refreshToken = env.generateRefreshToken n
  access : AccessFor env userId now pair.accessToken

/-- The tokens that sign-in `k` has led to, refresh by refresh. -/
inductive TokenFrom (env : Env) (log : AccountLog) (k userId : Nat) : String → Prop
  | signedIn {endpoint : Endpoint} {user : UserResponse} {pair : TokenPair}
      (h : (k, endpoint, .ok (.signedIn user pair)) ∈ log) (hsigns : endpoint.signsIn = true)
      (hid : user.id = userId) : TokenFrom env log k userId pair.refreshToken
  | refreshed {n : Nat} {tok t : String} {pair : TokenPair} (ht : TokenFrom env log k userId t)
      (hash : env.hashRefreshToken tok = env.hashRefreshToken t)
      (h : (n, .refresh (some tok), .ok (.refreshed pair)) ∈ log) :
      TokenFrom env log k userId pair.refreshToken

/-- Row `r` holds the token of request `j`, which goes back to sign-in `k`. -/
structure Traced (env : Env) (log : AccountLog) (r : Session) (j k : Nat) : Prop where
  id : r.id = env.sessionId j
  hash : r.hashedRefreshToken = env.hashRefreshToken (env.generateRefreshToken j)
  family : r.familyId = env.uuid4 k
  token : TokenFrom env log k r.userId (env.generateRefreshToken j)

/-- What holds of the committed tables and the answers given up to then. -/
structure AccountsOk [Collation] (env : AccountEnv) (w : AccountWorld) : Prop where
  users : ∀ u ∈ w.db.2, ∃ n email rawPassword reply,
    (n, .register email rawPassword, .ok reply) ∈ w.log ∧ u = registered env n email rawPassword
  unique : ∀ u ∈ w.db.2, ∀ v ∈ w.db.2, Collation.fold u.email = Collation.fold v.email → u = v
  shown : ∀ k endpoint reply, (k, endpoint, .ok reply) ∈ w.log → endpoint.signsIn = true →
    ∃ u ∈ w.db.2, ShowsPassword env k endpoint u ∧ ∃ pair,
      reply = .signedIn { id := u.id, email := u.email } pair ∧ Minted env.toEnv k u.id w.clock pair
  rotated : ∀ n tok reply, (n, .refresh (some tok), .ok reply) ∈ w.log → ∃ k userId t pair,
    TokenFrom env.toEnv w.log k userId t ∧ env.hashRefreshToken tok = env.hashRefreshToken t ∧
      reply = .refreshed pair ∧ Minted env.toEnv n userId w.clock pair
  /-- nobody else is handed tokens -/
  others : ∀ n endpoint reply pair, (n, endpoint, .ok reply) ∈ w.log → reply.pair = some pair →
    endpoint.signsIn = true ∨ ∃ tok, endpoint = .refresh (some tok)
  sessions : ∀ r ∈ w.db.1, ∃ j k, Traced env.toEnv w.log r j k

/-- What a commit may do to the users: those added are under an address the transaction holds. -/
structure UsersKept [Collation] (tx : AccountTx) (db db' : AuthDb) : Prop where
  kept : ∀ u ∈ db.2, u ∈ db'.2
  held : ∀ u ∈ db'.2, u ∉ db.2 → .inr (Collation.fold u.email) ∈ tx.locks

def accounts [Collation] (env : AccountEnv) :
    Discipline AuthDb (Nat ⊕ String) (Write ⊕ UserWrite) (Stmt ⊕ UserStmt) Failure Reply Endpoint where
  inv := AccountsOk env
  guar _ := UsersKept

/-! ## What a transaction writes -/

section Writes

/-- The columns of a session that no UPDATE writes. -/
structure SameSession (r r' : Session) : Prop where
  id : r'.id = r.id
  userId : r'.userId = r.userId
  familyId : r'.familyId = r.familyId
  hash : r'.hashedRefreshToken = r.hashedRefreshToken

theorem SameSession.refl (r : Session) : SameSession r r := ⟨rfl, rfl, rfl, rfl⟩

theorem SameSession.trans {r r' r'' : Session} (h : SameSession r r') (h' : SameSession r' r'') :
    SameSession r r'' :=
  ⟨h'.id.trans h.id, h'.userId.trans h.userId, h'.familyId.trans h.familyId, h'.hash.trans h.hash⟩

theorem Write.apply_session (x : Write) (db : Sessions) : ∀ r' ∈ x.apply db,
    (∃ r ∈ db, SameSession r r') ∨ x = .insert r' := by
  intro r' hr'
  cases x with
  | insert row =>
    rcases Table.mem_put.1 hr' with rfl | ⟨hold, -⟩
    · exact Or.inr rfl
    · exact Or.inl ⟨r', hold, .refl r'⟩
  | setUsedAt id usedAt =>
    left
    simp only [Write.apply] at hr'
    cases hfind : db.find? id with
    | none => rw [hfind] at hr'; exact ⟨r', hr', .refl r'⟩
    | some s =>
      rw [hfind] at hr'
      obtain ⟨hs, -⟩ := Table.find?_eq_some.1 hfind
      rcases Table.mem_put.1 hr' with rfl | ⟨hold, -⟩
      · exact ⟨s, hs, rfl, rfl, rfl, rfl⟩
      · exact ⟨r', hold, .refl r'⟩
  | delete id => exact Or.inl ⟨r', (Table.mem_erase.1 hr').1, .refl r'⟩

variable [Collation]

/-- A session after a transaction was there before, or has been inserted. -/
theorem view_sessions (ws : List (Write ⊕ UserWrite)) (db : AuthDb) :
    ∀ r' ∈ (authEngine.applyAll ws db).1,
      (∃ r ∈ db.1, SameSession r r') ∨ ∃ row, .inl (.insert row) ∈ ws ∧ SameSession row r' := by
  induction ws generalizing db with
  | nil => exact fun r' hr' => Or.inl ⟨r', hr', .refl r'⟩
  | cons x ws ih =>
    intro r' hr'
    rcases ih _ r' hr' with ⟨r, hr, hsame⟩ | ⟨row, hrow, hsame⟩
    · cases x with
      | inl x =>
        rcases x.apply_session db.1 r hr with ⟨r₀, hr₀, hsame₀⟩ | rfl
        · exact Or.inl ⟨r₀, hr₀, hsame₀.trans hsame⟩
        · exact Or.inr ⟨r, List.mem_cons_self, hsame⟩
      | inr x => exact Or.inl ⟨r, hr, hsame⟩
    · exact Or.inr ⟨row, List.mem_cons_of_mem _ hrow, hsame⟩

/-- Session writes leave the users alone. -/
theorem view_users (ws : List (Write ⊕ UserWrite)) (db : AuthDb)
    (h : ∀ x ∈ ws, ∃ y, x = .inl y) : (authEngine.applyAll ws db).2 = db.2 := by
  induction ws generalizing db with
  | nil => rfl
  | cons x ws ih =>
    obtain ⟨y, rfl⟩ := h x List.mem_cons_self
    exact ih _ fun x' hx' => h x' (List.mem_cons_of_mem _ hx')

end Writes

/-! ## Answers -/

section Answers

variable [Collation] {env : AccountEnv} {n : Nat} {w : AccountWorld} {endpoint : Endpoint}
  {db' : AuthDb}

omit [Collation] in
theorem Minted.later {env : Env} {n userId : Nat} {now now' : Int} {pair : TokenPair}
    (h : Minted env n userId now pair) (hle : now ≤ now') : Minted env n userId now' pair := by
  obtain ⟨issuedAt, hissued, haccess⟩ := h.access
  exact ⟨h.refresh, issuedAt, Int.le_trans hissued hle, haccess⟩

omit [Collation] in
theorem TokenFrom.mono {env : Env} {log log' : AccountLog} {k userId : Nat} {t : String}
    (h : TokenFrom env log k userId t) (hsub : ∀ e ∈ log, e ∈ log') :
    TokenFrom env log' k userId t := by
  induction h with
  | signedIn h hsigns hid => exact .signedIn (hsub _ h) hsigns hid
  | refreshed _ hash h ih => exact .refreshed ih hash (hsub _ h)

omit [Collation] in
theorem Traced.mono {env : Env} {log log' : AccountLog} {r r' : Session} {j k : Nat}
    (h : Traced env log r j k) (hsame : SameSession r r') (hsub : ∀ e ∈ log, e ∈ log') :
    Traced env log' r' j k where
  id := hsame.id.trans h.id
  hash := hsame.hash.trans h.hash
  family := hsame.familyId.trans h.family
  token := hsame.userId ▸ h.token.mono hsub

/-- Time passes. -/
theorem AccountsOk.tick (h : AccountsOk env w) (d : Nat) : AccountsOk env (w.tick d) := by
  have hle : w.clock ≤ (w.tick d).clock := Int.le_add_of_nonneg_right (Int.natCast_nonneg d)
  constructor
  · exact h.users
  · exact h.unique
  · intro k ep reply he hsigns
    obtain ⟨u, hu, hshows, pair, hreply, hminted⟩ := h.shown k ep reply he hsigns
    exact ⟨u, hu, hshows, pair, hreply, hminted.later hle⟩
  · intro n tok reply he
    obtain ⟨k, userId, t, pair, ht, hash, hreply, hminted⟩ := h.rotated n tok reply he
    exact ⟨k, userId, t, pair, ht, hash, hreply, hminted.later hle⟩
  · exact h.others
  · exact h.sessions

/-- Fewer sessions, or used ones. -/
theorem AccountsOk.shrink (h : AccountsOk env w) (husers : db'.2 = w.db.2)
    (hsessions : ∀ r' ∈ db'.1, ∃ r ∈ w.db.1, SameSession r r') :
    AccountsOk env { w with db := db' } where
  users u hu := h.users u (husers ▸ hu)
  unique u hu v hv := h.unique u (husers ▸ hu) v (husers ▸ hv)
  shown k ep reply he hsigns := by
    obtain ⟨u, hu, hrest⟩ := h.shown k ep reply he hsigns
    exact ⟨u, husers.symm ▸ hu, hrest⟩
  rotated := h.rotated
  others := h.others
  sessions r' hr' := by
    obtain ⟨r, hr, hsame⟩ := hsessions r' hr'
    obtain ⟨j, k, ht⟩ := h.sessions r hr
    exact ⟨j, k, ht.mono hsame fun e he => he⟩

/-- An answer that hands out nothing. -/
theorem AccountsOk.plain (h : AccountsOk env w) {r : Except Failure Reply}
    (hr : ∀ reply, r = .ok reply → reply.pair = none ∧ endpoint.signsIn = false ∧
      ∀ tok, endpoint ≠ .refresh (some tok)) : AccountsOk env (w.answer n endpoint r w.db) := by
  have hsub : ∀ e ∈ w.log, e ∈ (w.answer n endpoint r w.db).log :=
    fun e he => List.mem_cons_of_mem _ he
  constructor
  · intro u hu
    obtain ⟨m, email, rawPassword, reply, he, hreg⟩ := h.users u hu
    exact ⟨m, email, rawPassword, reply, hsub _ he, hreg⟩
  · exact h.unique
  · intro k ep reply he hsigns
    rcases List.mem_cons.1 he with heq | he
    · cases heq
      rw [(hr reply rfl).2.1] at hsigns
      cases hsigns
    · exact h.shown k ep reply he hsigns
  · intro m tok reply he
    rcases List.mem_cons.1 he with heq | he
    · cases heq
      exact absurd rfl ((hr reply rfl).2.2 tok)
    · obtain ⟨k, userId, t, pair, ht, hrest⟩ := h.rotated m tok reply he
      exact ⟨k, userId, t, pair, ht.mono hsub, hrest⟩
  · intro m ep reply pair he hpair
    rcases List.mem_cons.1 he with heq | he
    · cases heq
      rw [(hr reply rfl).1] at hpair
      cases hpair
    · exact h.others m ep reply pair he hpair
  · intro r' hr'
    obtain ⟨j, k, ht⟩ := h.sessions r' hr'
    exact ⟨j, k, ht.mono (.refl r') hsub⟩

/-- A sign-in, with a row of its own. -/
theorem AccountsOk.signIn (h : AccountsOk env w) {u : User} {pair : TokenPair} {row : Session}
    (hu : u ∈ db'.2) (hsigns : endpoint.signsIn = true) (hshows : ShowsPassword env n endpoint u)
    (hminted : Minted env.toEnv n u.id w.clock pair)
    (hkept : ∀ v ∈ w.db.2, v ∈ db'.2)
    (hnew : ∀ v ∈ db'.2, v ∈ w.db.2 ∨ v = u ∧ (∃ email rawPassword,
      endpoint = .register email rawPassword) ∧
      ∀ v' ∈ w.db.2, Collation.fold v'.email ≠ Collation.fold u.email)
    (hsessions : ∀ r' ∈ db'.1, (∃ r ∈ w.db.1, SameSession r r') ∨ SameSession row r')
    (hid : row.id = env.sessionId n) (huser : row.userId = u.id)
    (hfamily : row.familyId = env.uuid4 n)
    (hash : row.hashedRefreshToken = env.hashRefreshToken pair.refreshToken) :
    AccountsOk env (w.answer n endpoint
      (.ok (.signedIn { id := u.id, email := u.email } pair)) db') := by
  obtain ⟨reply, hreply⟩ : ∃ reply, Reply.signedIn { id := u.id, email := u.email } pair = reply :=
    ⟨_, rfl⟩
  rw [hreply]
  have hself : (n, endpoint, .ok reply) ∈ (w.answer n endpoint (.ok reply) db').log :=
    List.mem_cons_self
  have hsub : ∀ e ∈ w.log, e ∈ (w.answer n endpoint (.ok reply) db').log :=
    fun e he => List.mem_cons_of_mem _ he
  constructor
  · intro v hv
    rcases hnew v hv with hold | ⟨rfl, ⟨email, rawPassword, rfl⟩, -⟩
    · obtain ⟨m, email, rawPassword, reply, he, hreg⟩ := h.users v hold
      exact ⟨m, email, rawPassword, reply, hsub _ he, hreg⟩
    · cases hshows
      exact ⟨n, email, rawPassword, _, hself, rfl⟩
  · intro v hv v' hv' hfold
    rcases hnew v hv with hold | ⟨rfl, -, hfree⟩
    · rcases hnew v' hv' with hold' | ⟨rfl, -, hfree⟩
      · exact h.unique v hold v' hold' hfold
      · exact absurd hfold (hfree v hold)
    · rcases hnew v' hv' with hold' | ⟨rfl, -, -⟩
      · exact absurd hfold.symm (hfree v' hold')
      · rfl
  · intro k ep reply he hsigns'
    rcases List.mem_cons.1 he with heq | he
    · cases heq
      exact ⟨u, hu, hshows, pair, hreply.symm, hminted⟩
    · obtain ⟨v, hv, hrest⟩ := h.shown k ep reply he hsigns'
      exact ⟨v, hkept v hv, hrest⟩
  · intro m tok reply he
    rcases List.mem_cons.1 he with heq | he
    · cases heq
      cases hsigns
    · obtain ⟨k, userId, t, pair, ht, hrest⟩ := h.rotated m tok reply he
      exact ⟨k, userId, t, pair, ht.mono hsub, hrest⟩
  · intro m ep reply pair' he hpair
    rcases List.mem_cons.1 he with heq | he
    · cases heq
      exact Or.inl hsigns
    · exact h.others m ep reply pair' he hpair
  · intro r' hr'
    rcases hsessions r' hr' with ⟨r, hr, hsame⟩ | hsame
    · obtain ⟨j, k, ht⟩ := h.sessions r hr
      exact ⟨j, k, ht.mono hsame hsub⟩
    · refine ⟨n, n, hsame.id.trans hid, ?_, hsame.familyId.trans hfamily, ?_⟩
      · rw [hsame.hash, hash, hminted.refresh]
      · rw [hsame.userId, huser, ← hminted.refresh]
        rw [← hreply] at hself ⊢
        exact .signedIn hself hsigns rfl

/-- A refresh: a row for the successor of the token that was found. -/
theorem AccountsOk.rotate (h : AccountsOk env w) {tok : String} {s row : Session} {j k : Nat}
    {pair : TokenPair} (ht : Traced env.toEnv w.log s j k)
    (hfound : s.hashedRefreshToken = env.hashRefreshToken tok)
    (hminted : Minted env.toEnv n s.userId w.clock pair) (husers : db'.2 = w.db.2)
    (hsessions : ∀ r' ∈ db'.1, (∃ r ∈ w.db.1, SameSession r r') ∨ SameSession row r')
    (hid : row.id = env.sessionId n) (huser : row.userId = s.userId)
    (hfamily : row.familyId = s.familyId)
    (hash : row.hashedRefreshToken = env.hashRefreshToken pair.refreshToken) :
    AccountsOk env (w.answer n (.refresh (some tok)) (.ok (.refreshed pair)) db') := by
  have hself : (n, .refresh (some tok), .ok (.refreshed pair)) ∈
      (w.answer n (.refresh (some tok)) (.ok (.refreshed pair)) db').log := List.mem_cons_self
  have hsub : ∀ e ∈ w.log, e ∈ (w.answer n (.refresh (some tok)) (.ok (.refreshed pair)) db').log :=
    fun e he => List.mem_cons_of_mem _ he
  have htoken : env.hashRefreshToken tok = env.hashRefreshToken (env.generateRefreshToken j) :=
    hfound.symm.trans ht.hash
  constructor
  · intro u hu
    obtain ⟨m, email, rawPassword, reply, he, hreg⟩ := h.users u (husers ▸ hu)
    exact ⟨m, email, rawPassword, reply, hsub _ he, hreg⟩
  · intro u hu v hv
    exact h.unique u (husers ▸ hu) v (husers ▸ hv)
  · intro k ep reply he hsigns
    rcases List.mem_cons.1 he with heq | he
    · cases heq
      cases hsigns
    · obtain ⟨u, hu, hrest⟩ := h.shown k ep reply he hsigns
      exact ⟨u, husers.symm ▸ hu, hrest⟩
  · intro m tok' reply he
    rcases List.mem_cons.1 he with heq | he
    · cases heq
      exact ⟨k, s.userId, _, pair, ht.token.mono hsub, htoken, rfl, hminted⟩
    · obtain ⟨k, userId, t, pair, ht, hrest⟩ := h.rotated m tok' reply he
      exact ⟨k, userId, t, pair, ht.mono hsub, hrest⟩
  · intro m ep reply pair' he hpair
    rcases List.mem_cons.1 he with heq | he
    · cases heq
      exact Or.inr ⟨tok, rfl⟩
    · exact h.others m ep reply pair' he hpair
  · intro r' hr'
    rcases hsessions r' hr' with ⟨r, hr, hsame⟩ | hsame
    · obtain ⟨j, k, ht⟩ := h.sessions r hr
      exact ⟨j, k, ht.mono hsame hsub⟩
    · refine ⟨n, k, hsame.id.trans hid, ?_, hsame.familyId.trans (hfamily.trans ht.family), ?_⟩
      · rw [hsame.hash, hash, hminted.refresh]
      · rw [hsame.userId, huser, ← hminted.refresh]
        exact .refreshed (ht.token.mono hsub) htoken hself

end Answers

/-! ## Statements -/

section Statements

variable [Collation] {env : AccountEnv} {n : Nat} {endpoint : Endpoint} {w : AccountWorld}
  {tx : AccountTx}

/-- A session statement among the others: it takes its rows in any order, and a refusal ends the
request. -/
theorem wp_left_execute {q : Stmt} {f : List Nat × Sessions → AuthProgram Reply}
    (J : List Nat → AccountTx → AccountWorld → Prop)
    (hstart : ∀ w', At (accounts env) n tx w w' →
      J [] (tx.begin (.inl q) ((q.rows (authEngine.view tx w'.db).1).map .inl)) w')
    (hwait : ∀ hits tx w w', At (accounts env) n tx w w' → J hits tx w → J hits tx w')
    (htake : ∀ hits tx w id ws, AccountsOk env w →
      q.act id (authEngine.view tx w.db).1 = some ws → J hits tx w →
      J (hits ++ [id]) (tx.hold (.inl id) (ws.map .inl)) w)
    (hdone : ∀ hits tx w ws, AccountsOk env w →
      q.finish hits (authEngine.view tx w.db).1 = .ok ws → J hits tx w →
      wp (accounts env) authEngine n endpoint
        (f (hits, (authEngine.view (tx.write (ws.map .inl)) w.db).1)) (tx.write (ws.map .inl)) w) :
    wp (accounts env) authEngine n endpoint ((execute q).left >>= f) tx w := by
  intro w₁ hw₁
  refine ScanOk.of_loop
    (fun todo hits tx w => (∀ key ∈ todo, ∃ id, key = .inl id) ∧
      ∃ ids : List Nat, hits = ids.map .inl ∧ J ids tx w)
    ?_ ?_ ?_ ?_ ?_ _ _ _ _ _ rfl ⟨?_, [], rfl, hstart w₁ hw₁⟩
  · rintro todo hits tx w w' hw ⟨htodo, ids, rfl, hJ⟩
    exact ⟨htodo, ids, rfl, hwait ids tx w w' hw hJ⟩
  · rintro todo hits tx w key hkey - - - ⟨htodo, ids, rfl, hJ⟩
    exact ⟨fun k hk => htodo k (@List.mem_of_mem_erase _ instBEqOfDecidableEq _ _ _ hk), ids, rfl, hJ⟩
  · rintro todo hits tx w key ws hkey hinv - hact ⟨htodo, ids, rfl, hJ⟩
    obtain ⟨id, rfl⟩ := htodo key hkey
    obtain ⟨ws, hact₁, rfl⟩ := Option.map_eq_some_iff.1 hact
    refine ⟨fun k hk => htodo k (@List.mem_of_mem_erase _ instBEqOfDecidableEq _ _ _ hk),
      ids ++ [id], ?_, ?_⟩
    · rw [List.map_append, List.map_singleton]
    · exact htake ids tx w id ws hinv hact₁ hJ
  · rintro hits tx w d - - -
    trivial
  · rintro hits tx w ws hinv hfinish ⟨-, ids, rfl, hJ⟩
    have hprod : authEngine.finish (.inl q) (ids.map .inl) (authEngine.view tx w.db) =
        (q.finish ids (authEngine.view tx w.db).1).map (List.map .inl) := finish_inl engine usersEngine ..
    have hfinish' : (q.finish ids (authEngine.view tx w.db).1).map (List.map .inl) = .ok ws :=
      hprod.symm.trans hfinish
    cases hq : q.finish ids (authEngine.view tx w.db).1 with
    | error d => rw [hq] at hfinish'; cases hfinish'
    | ok ws₁ =>
      rw [hq] at hfinish'
      obtain rfl := Except.ok.inj hfinish'
      have hnext := hdone ids tx w ws₁ hinv hq hJ
      show wp _ _ _ _ (f (List.filterMap Sum.getLeft? (ids.map .inl), _)) _ _
      rw [filterMap_getLeft]
      exact hnext
  · intro key hkey
    obtain ⟨id, -, rfl⟩ := List.mem_map.1 hkey
    exact ⟨id, rfl⟩

omit [Collation] in
theorem stmt_act {q : Stmt} {id : Nat} {db : Sessions} {ws : List Write} (h : q.act id db = some ws) :
    ∃ s ∈ db, s.id = id ∧ q.matches s = true ∧ ws = q.writes s := by
  unfold Stmt.act at h
  cases hfind : db.find? id with
  | none => rw [hfind] at h; cases h
  | some s =>
    obtain ⟨hs, hid⟩ := Table.find?_eq_some.1 hfind
    simp only [hfind] at h
    split at h
    · next hmatch => exact ⟨s, hs, hid, hmatch, (Option.some.inj h).symm⟩
    · cases h

/-- The row found is a session under that hash. -/
theorem wp_left_lock {hash : String} {f : Option Session → AuthProgram Reply} (htx : tx.writes = [])
    (hnone : ∀ w' (tx' : AccountTx), tx'.writes = [] →
      wp (accounts env) authEngine n endpoint (f none) tx' w')
    (hsome : ∀ w' (tx' : AccountTx) s, tx'.writes = [] → AccountsOk env w' → s ∈ w'.db.1 →
      s.hashedRefreshToken = hash → wp (accounts env) authEngine n endpoint (f (some s)) tx' w') :
    wp (accounts env) authEngine n endpoint ((lockSessionByTokenHash hash).left >>= f) tx w := by
  rw [lockSessionByTokenHash, Prog.left_bind, Prog.bind_assoc]
  have hview : ∀ (tx : AccountTx) (db : AuthDb), tx.writes = [] → authEngine.view tx db = db := by
    intro tx db hwrites
    rw [Engine.view, hwrites, Engine.applyAll_nil]
  -- a row keeps its hash, so what is known of the rows taken is about their ids
  refine wp_left_execute (fun hits tx _ => tx.writes = [] ∧ ∀ id ∈ hits, ∃ j,
    id = env.sessionId j ∧ env.hashRefreshToken (env.generateRefreshToken j) = hash) ?_ ?_ ?_ ?_
  · exact fun w' hw => ⟨htx, fun id hid => absurd hid List.not_mem_nil⟩
  · exact fun hits tx w w' hw hJ => hJ
  · rintro hits tx w id ws hinv hact ⟨hwrites, hhits⟩
    rw [hview tx _ hwrites] at hact
    obtain ⟨s, hs, rfl, hmatch, rfl⟩ := stmt_act hact
    refine ⟨by simp [hwrites, Stmt.writes], fun id hid => ?_⟩
    rcases List.mem_append.1 hid with hid | hid
    · exact hhits id hid
    · obtain ⟨j, k, ht⟩ := hinv.sessions s hs
      rw [List.mem_singleton.1 hid]
      exact ⟨j, ht.id, ht.hash.symm.trans (of_decide_eq_true hmatch)⟩
  · rintro hits tx w ws hinv hfinish ⟨hwrites, hhits⟩
    have hws : ws = [] := by
      cases hits <;> exact (Except.ok.inj hfinish).symm
    subst hws
    have hwrites' : (tx.write (List.map Sum.inl ([] : List Write))).writes = [] := by
      simp [hwrites]
    rw [hview _ _ hwrites']
    show wp _ _ _ _ (f (hits.head?.bind w.db.1.find?)) _ _
    cases hfound : hits.head?.bind w.db.1.find? with
    | none => exact hnone w _ hwrites'
    | some s =>
      obtain ⟨id, hid, hfind⟩ := Option.bind_eq_some_iff.1 hfound
      obtain ⟨hs, rfl⟩ := Table.find?_eq_some.1 hfind
      obtain ⟨j, hj, hhash⟩ := hhits _ (List.mem_of_mem_head? hid)
      obtain ⟨j', k, ht⟩ := hinv.sessions s hs
      obtain rfl := env.sessionId_fresh j j' (hj.symm.trans ht.id)
      exact hsome w _ s hwrites' hinv hs (ht.hash.trans hhash)

theorem wp_left_revoke {familyId : Nat} {f : Unit → AuthProgram Reply} (htx : tx.writes = [])
    (h : ∀ w' (tx' : AccountTx), AccountsOk env w' → (∀ x ∈ tx'.writes, ∃ id, x = .inl (.delete id)) →
      wp (accounts env) authEngine n endpoint (f ()) tx' w') :
    wp (accounts env) authEngine n endpoint ((revokeFamily familyId).left >>= f) tx w := by
  rw [revokeFamily, Prog.discard_eq, Prog.left_bind, Prog.bind_assoc]
  refine wp_left_execute (fun _ tx _ => ∀ x ∈ tx.writes, ∃ id, x = .inl (.delete id)) ?_ ?_ ?_ ?_
  · intro w' hw x hx
    rw [Tx.begin_writes, htx] at hx
    cases hx
  · exact fun hits tx w w' hw hJ => hJ
  · rintro hits tx w id ws - hact hJ x hx
    obtain ⟨s, -, -, -, rfl⟩ := stmt_act hact
    rcases List.mem_append.1 hx with hx | hx
    · exact hJ x hx
    · exact ⟨s.id, List.mem_singleton.1 hx⟩
  · rintro hits tx w ws hinv hfinish hJ
    have hws : ws = [] := by
      cases hits <;> exact (Except.ok.inj hfinish).symm
    subst hws
    exact h w _ hinv fun x hx => hJ x (by simpa using hx)

/-- What `_issue_token_pair` adds to a transaction. -/
structure Adds (tx tx' : AccountTx) (row : Session) : Prop where
  locks : ∀ key ∈ tx.locks, key ∈ tx'.locks
  writes : ∃ added, tx'.writes = tx.writes ++ added ∧ (∀ x ∈ added, ∃ y, x = .inl y) ∧
    ∀ r, .inl (.insert r) ∈ added → r = row

section Issuing

variable {P : AccountWorld → Prop} {row : Session}

theorem wp_left_insert {f : Unit → AuthProgram Reply} {tx₀ : AccountTx}
    (hstable : ∀ (tx' : AccountTx) w w', (∀ key ∈ tx₀.locks, key ∈ tx'.locks) →
      At (accounts env) n tx' w w' → P w → P w')
    (hw : P w) {added : List (Write ⊕ UserWrite)} (hlocks : ∀ key ∈ tx₀.locks, key ∈ tx.locks)
    (hwrites : tx.writes = tx₀.writes ++ added) (hsessions : ∀ x ∈ added, ∃ y, x = .inl y)
    (hadded : ∀ r, .inl (.insert r) ∉ added)
    (h : ∀ w' tx', P w' → Adds tx₀ tx' row →
      wp (accounts env) authEngine n endpoint (f ()) tx' w') :
    wp (accounts env) authEngine n endpoint ((discard (execute (.insert row))).left >>= f) tx w := by
  rw [Prog.discard_eq, Prog.left_bind, Prog.bind_assoc]
  refine wp_left_execute (fun _ tx' w => P w ∧ tx'.locks = tx.locks ∧ tx'.writes = tx.writes)
    ?_ ?_ ?_ ?_
  · exact fun w' hw' => ⟨hstable tx w w' hlocks hw' hw, rfl, rfl⟩
  · rintro hits tx' w w' hw' ⟨hP, hlocks', hwrites'⟩
    exact ⟨hstable tx' w w' (fun key hkey => hlocks' ▸ hlocks key hkey) hw' hP, hlocks', hwrites'⟩
  · rintro hits tx' w id ws - hact -
    obtain ⟨s, -, -, hmatch, -⟩ := stmt_act hact
    cases hmatch
  · rintro hits tx' w ws - hfinish ⟨hP, hlocks', hwrites'⟩
    have hws : ws = [.insert row] := by
      simp only [Stmt.finish] at hfinish
      split at hfinish
      · cases hfinish
      · exact (Except.ok.inj hfinish).symm
    subst hws
    refine h w _ hP ⟨fun key hkey => ?_, added ++ [.inl (.insert row)], ?_, ?_, ?_⟩
    · show key ∈ tx'.locks
      rw [hlocks']
      exact hlocks key hkey
    · rw [Tx.write_writes, hwrites', hwrites, List.append_assoc]
      rfl
    · intro x hx
      rcases List.mem_append.1 hx with hx | hx
      · exact hsessions x hx
      · exact ⟨_, List.mem_singleton.1 hx⟩
    · intro r hr
      rcases List.mem_append.1 hr with hr | hr
      · exact absurd hr (hadded r)
      · cases List.mem_singleton.1 hr
        rfl

theorem wp_left_update {f : Unit → AuthProgram Reply} {id : Nat} {usedAt : Int}
    (hstable : ∀ (tx' : AccountTx) w w', (∀ key ∈ tx.locks, key ∈ tx'.locks) →
      At (accounts env) n tx' w w' → P w → P w')
    (hw : P w)
    (h : ∀ w' (tx' : AccountTx) added, P w' → (∀ key ∈ tx.locks, key ∈ tx'.locks) →
      tx'.writes = tx.writes ++ added → (∀ x ∈ added, ∃ id t, x = .inl (.setUsedAt id t)) →
      wp (accounts env) authEngine n endpoint (f ()) tx' w') :
    wp (accounts env) authEngine n endpoint
      ((discard (execute (.updateUsedAt id usedAt))).left >>= f) tx w := by
  rw [Prog.discard_eq, Prog.left_bind, Prog.bind_assoc]
  refine wp_left_execute (fun _ tx' w => P w ∧ (∀ key ∈ tx.locks, key ∈ tx'.locks) ∧
    ∃ added, tx'.writes = tx.writes ++ added ∧ ∀ x ∈ added, ∃ id t, x = .inl (.setUsedAt id t))
    ?_ ?_ ?_ ?_
  · exact fun w' hw' => ⟨hstable tx w w' (fun key hkey => hkey) hw' hw, fun key hkey => hkey, [],
      (List.append_nil _).symm, fun x hx => absurd hx List.not_mem_nil⟩
  · rintro hits tx' w w' hw' ⟨hP, hlocks, hadded⟩
    exact ⟨hstable tx' w w' hlocks hw' hP, hlocks, hadded⟩
  · rintro hits tx' w id' ws - hact ⟨hP, hlocks, added, hwrites, hadded⟩
    obtain ⟨s, -, -, -, rfl⟩ := stmt_act hact
    refine ⟨hP, fun key hkey => List.mem_cons_of_mem _ (hlocks key hkey),
      added ++ [.inl (.setUsedAt s.id usedAt)], ?_, fun x hx => ?_⟩
    · rw [Tx.hold_writes, hwrites, List.append_assoc]
      rfl
    · rcases List.mem_append.1 hx with hx | hx
      · exact hadded x hx
      · exact ⟨s.id, usedAt, List.mem_singleton.1 hx⟩
  · rintro hits tx' w ws - hfinish ⟨hP, hlocks, added, hwrites, hadded⟩
    have hws : ws = [] := by
      cases hits with
      | nil => cases hfinish
      | cons hit hits => exact (Except.ok.inj hfinish).symm
    subst hws
    exact h w _ added hP hlocks (by simpa using hwrites) hadded

theorem wp_left_createSession {pending : Option Session} {f : Unit → AuthProgram Reply}
    (hstable : ∀ (tx' : AccountTx) w w', (∀ key ∈ tx.locks, key ∈ tx'.locks) →
      At (accounts env) n tx' w w' → P w → P w')
    (hw : P w)
    (h : ∀ w' tx', P w' → Adds tx tx' row →
      wp (accounts env) authEngine n endpoint (f ()) tx' w') :
    wp (accounts env) authEngine n endpoint ((createSession pending row).left >>= f) tx w := by
  unfold createSession
  split
  · rw [Prog.left_bind, Prog.bind_assoc]
    refine wp_left_update hstable hw fun w₁ tx₁ added hw₁ hlocks hwrites hadded => ?_
    refine wp_left_insert hstable hw₁ hlocks hwrites (fun x hx => ?_) (fun r hr => ?_) h
    · obtain ⟨id, t, rfl⟩ := hadded x hx
      exact ⟨_, rfl⟩
    · obtain ⟨id, t, heq⟩ := hadded _ hr
      cases heq
  · exact wp_left_insert hstable hw (fun key hkey => hkey) (List.append_nil _).symm
      (fun x hx => absurd hx List.not_mem_nil) (fun r => List.not_mem_nil) h

/-- A pair is minted and its session recorded, while `P` is kept. -/
theorem wp_left_issueTokenPair {pending : Option Session} {userId familyId : Nat}
    {f : TokenPair → AuthProgram Reply}
    (hstable : ∀ (tx' : AccountTx) w w', (∀ key ∈ tx.locks, key ∈ tx'.locks) →
      At (accounts env) n tx' w w' → P w → P w')
    (hw : P w)
    (h : ∀ w' tx' (row : Session) pair, P w' → Adds tx tx' row → row.id = env.sessionId n →
      row.userId = userId → row.familyId = familyId →
      row.hashedRefreshToken = env.hashRefreshToken pair.refreshToken →
      Minted env.toEnv n userId w'.clock pair →
      wp (accounts env) authEngine n endpoint (f pair) tx' w') :
    wp (accounts env) authEngine n endpoint
      ((issueTokenPair env.toEnv n pending userId familyId).left >>= f) tx w := by
  simp only [issueTokenPair, Prog.left_bind, Prog.bind_assoc]
  intro w₁ hw₁
  refine wp_left_createSession hstable (hstable tx w w₁ (fun key hkey => hkey) hw₁ hw)
    fun w₂ tx₂ hw₂ hadds => ?_
  intro w₃ hw₃
  exact h w₃ tx₂ _ _ (hstable tx₂ w₂ w₃ hadds.locks hw₃ hw₂) hadds rfl rfl rfl rfl
    ⟨rfl, w₃.clock, Int.le_refl _, rfl⟩

end Issuing

theorem wp_right_select {β : Type} {q : Users → β} {f : β → AuthProgram Reply}
    (h : ∀ w' x, q w'.db.2 = x → wp (accounts env) authEngine n endpoint (f x) {} w') :
    wp (accounts env) authEngine n endpoint ((Prog.select q).right >>= f) {} w :=
  fun w' _ _ => h w' _ rfl

/-- A row is inserted once nobody else holds its address. -/
theorem wp_right_insert {u : User} {f : Except DbError User → AuthProgram Reply}
    (herror : ∀ d tx w, wp (accounts env) authEngine n endpoint (f (.error d)) tx w)
    (hdone : ∀ w (tx : AccountTx), tx.writes = [.inr (.insert u)] →
      .inr (Collation.fold u.email) ∈ tx.locks →
      (∀ v ∈ w.db.2, Collation.fold v.email ≠ Collation.fold u.email) →
      wp (accounts env) authEngine n endpoint (f (.ok u)) tx w) :
    wp (accounts env) authEngine n endpoint ((createUser u).right >>= f) {} w := by
  intro w₁ hw₁
  refine ScanOk.of_loop
    (fun todo _ tx _ => tx.writes = [] ∧ (∀ key ∈ todo, key = .inr (Collation.fold u.email)) ∧
      (.inr (Collation.fold u.email) ∈ todo ∨ .inr (Collation.fold u.email) ∈ tx.locks))
    ?_ ?_ ?_ ?_ ?_ _ _ _ _ _ rfl ⟨rfl, fun key hkey => ?_, Or.inl List.mem_cons_self⟩
  · exact fun todo hits tx w w' hw hJ => hJ
  · rintro todo hits tx w key hkey - - hact ⟨-, hone, -⟩
    obtain rfl := hone key hkey
    cases hact
  · rintro todo hits tx w key ws hkey - - hact ⟨hwrites, hone, -⟩
    obtain rfl := hone key hkey
    obtain rfl : [] = ws := Option.some.inj hact
    exact ⟨by simp [hwrites], fun k hk =>
      hone k (@List.mem_of_mem_erase _ instBEqOfDecidableEq _ _ _ hk), Or.inr List.mem_cons_self⟩
  · exact fun hits tx w d _ _ _ => herror d tx w
  · rintro hits tx w ws - hfinish ⟨hwrites, -, hlock⟩
    have hview : authEngine.view tx w.db = w.db := by
      rw [Engine.view, hwrites, Engine.applyAll_nil]
    rw [hview] at hfinish
    have hfinish' : (if w.db.2.rows.any fun v =>
          v.id = u.id ∨ Collation.fold v.email = Collation.fold u.email then
        Except.error DbError.uniqueViolation else .ok [UserWrite.insert u]).map (List.map .inr) =
        .ok ws := hfinish
    split at hfinish'
    · cases hfinish'
    · next hfree =>
      obtain rfl := Except.ok.inj hfinish'
      refine hdone w _ (by simp [hwrites]) (hlock.resolve_left List.not_mem_nil) fun v hv hfold => ?_
      exact hfree (List.any_eq_true.2 ⟨v, hv, decide_eq_true (Or.inr hfold)⟩)
  · have hkey' : key ∈ [Sum.inr (Collation.fold u.email)] := hkey
    exact List.mem_singleton.1 hkey'

end Statements

/-! ## Endpoints -/

section Endpoints

variable [Collation] {env : AccountEnv} {n : Nat} {endpoint : Endpoint} {w : AccountWorld}
  {tx : AccountTx}

theorem UsersKept.same {db db' : AuthDb} (h : db'.2 = db.2) : UsersKept tx db db' where
  kept _ hu := h.symm ▸ hu
  held _ hu hnew := absurd (h ▸ hu) hnew

theorem Adds.view {tx' : AccountTx} {row : Session} (h : Adds tx tx' row)
    (hnone : ∀ r, .inl (.insert r) ∉ tx.writes) (db : AuthDb) :
    (authEngine.view tx' db).2 = (authEngine.view tx db).2 ∧
      ∀ r' ∈ (authEngine.view tx' db).1, (∃ r ∈ db.1, SameSession r r') ∨ SameSession row r' := by
  obtain ⟨added, hwrites, hsessions, hrow⟩ := h.writes
  constructor
  · rw [Engine.view, hwrites, Engine.applyAll_append]
    exact view_users added _ hsessions
  · intro r' hr'
    rcases view_sessions _ db r' hr' with hold | ⟨r, hr, hsame⟩
    · exact Or.inl hold
    · rw [hwrites] at hr
      rcases List.mem_append.1 hr with hr | hr
      · exact absurd hr (hnone r)
      · exact Or.inr (hrow r hr ▸ hsame)

theorem view_deleted (h : ∀ x ∈ tx.writes, ∃ id, x = .inl (.delete id)) (db : AuthDb) :
    (authEngine.view tx db).2 = db.2 ∧
      ∀ r' ∈ (authEngine.view tx db).1, ∃ r ∈ db.1, SameSession r r' := by
  constructor
  · refine view_users _ db fun x hx => ?_
    obtain ⟨id, rfl⟩ := h x hx
    exact ⟨_, rfl⟩
  · intro r' hr'
    rcases view_sessions _ db r' hr' with hold | ⟨r, hr, -⟩
    · exact hold
    · obtain ⟨id, heq⟩ := h _ hr
      cases heq

omit [Collation] in
theorem countRegistrationAttempt_cases (env : AccountEnv) (n : Nat) :
    countRegistrationAttempt env n = .ret () ∨ ∃ e, countRegistrationAttempt env n = .raise e := by
  unfold countRegistrationAttempt
  split
  · exact Or.inl rfl
  · split
    · exact Or.inr ⟨_, rfl⟩
    · exact Or.inl rfl

omit [Collation] in
theorem countLoginAttempt_cases (env : AccountEnv) (n : Nat) :
    countLoginAttempt env n = .ret () ∨ ∃ e, countLoginAttempt env n = .raise e := by
  unfold countLoginAttempt
  split
  · exact Or.inl rfl
  · split
    · exact Or.inr ⟨_, rfl⟩
    · exact Or.inl rfl

/-- Nobody else can take an address that a transaction holds. -/
theorem free_stable {email : String} {w' : AccountWorld}
    (hheld : .inr (Collation.fold email) ∈ tx.locks) (hw : At (accounts env) n tx w w')
    (hfree : ∀ v ∈ w.db.2, Collation.fold v.email ≠ Collation.fold email) :
    ∀ v ∈ w'.db.2, Collation.fold v.email ≠ Collation.fold email := by
  refine hw.rely.stable_db (P := fun db => ∀ v ∈ db.2, Collation.fold v.email ≠ Collation.fold email)
    ?_ hfree
  intro u m tx' db _ _ _ _ hlocks hguar hfree v hv hfold
  by_cases hold : v ∈ u.db.2
  · exact hfree v hold hfold
  · have hlock := hguar.held v hv hold
    rw [hfold] at hlock
    exact hlocks hheld hlock

theorem user_stable {u : User} {w' : AccountWorld} (hw : At (accounts env) n tx w w')
    (hu : u ∈ w.db.2) : u ∈ w'.db.2 :=
  hw.rely.stable_db (P := fun db => u ∈ db.2)
    (fun _ _ _ _ _ _ _ _ _ hguar h => hguar.kept u h) hu

/-- A user id that is about to be handed out is not in use. -/
theorem AccountsOk.user_ne (h : AccountsOk env w) (hn : w.Unanswered n) {u : User}
    (hu : u ∈ w.db.2) : u.id ≠ env.userId n := by
  obtain ⟨m, email, rawPassword, reply, he, rfl⟩ := h.users u hu
  intro hid
  exact hn _ he (env.userId_fresh m n hid)

theorem wp_register (email rawPassword : String) :
    wp (accounts env) authEngine n (.register email rawPassword)
      (route env n (.register email rawPassword)) {} w := by
  simp only [route, registerUser, Prog.bind_assoc]
  rcases countRegistrationAttempt_cases env n with hcount | ⟨e, hcount⟩
  · rw [hcount, Prog.ret_bind, getUserByEmail]
    refine wp_right_select fun w₁ found _ => ?_
    cases found with
    | some user => trivial
    | none =>
      simp only [Prog.bind_assoc]
      refine wp_right_insert (fun d tx w => ?_) fun w₂ tx₂ hwrites hheld hfree => ?_
      · show wp _ _ _ _ ((if _ then _ else _) >>= _) _ _
        split <;> trivial
      · simp only [Prog.bind_assoc]
        refine wp_left_issueTokenPair
          (P := fun w => ∀ v ∈ w.db.2, Collation.fold v.email ≠ Collation.fold email)
          (fun tx' w w' hlocks hw hP => free_stable (hlocks _ hheld) hw hP) hfree ?_
        intro w₃ tx₃ row pair hfree₃ hadds hid huser hfamily hash hminted w₄ hw₄
        have hfree₄ := free_stable (hadds.locks _ hheld) hw₄ hfree₃
        obtain ⟨husers, hsessions⟩ := hadds.view (fun r => by rw [hwrites]; simp) w₄.db
        have hput : (authEngine.view tx₃ w₄.db).2 =
            w₄.db.2.put (registered env n email rawPassword) := by
          rw [husers, Engine.view, hwrites]
          rfl
        have hmem : ∀ v, v ∈ (authEngine.view tx₃ w₄.db).2 ↔
            v = registered env n email rawPassword ∨ v ∈ w₄.db.2 := by
          intro v
          rw [hput, Table.mem_put]
          exact or_congr_right (and_iff_left_of_imp (hw₄.inv.user_ne hw₄.unanswered))
        refine ⟨⟨fun v hv => (hmem v).2 (Or.inr hv), fun v hv hnew => ?_⟩, trivial, ?_⟩
        · rw [((hmem v).1 hv).resolve_right hnew]
          exact hadds.locks _ hheld
        · exact hw₄.inv.signIn ((hmem _).2 (Or.inl rfl)) rfl (.register email rawPassword)
            (hminted.later hw₄.rely.clock_le) (fun v hv => (hmem v).2 (Or.inr hv))
            (fun v hv => ((hmem v).1 hv).symm.imp_right fun hv => ⟨hv, ⟨email, rawPassword, rfl⟩, hfree₄⟩)
            hsessions hid huser hfamily hash
  · rw [hcount]
    trivial

theorem wp_login (email rawPassword : String) :
    wp (accounts env) authEngine n (.login email rawPassword)
      (route env n (.login email rawPassword)) {} w := by
  simp only [route, loginUser, Prog.bind_assoc]
  rcases countLoginAttempt_cases env n with hcount | ⟨e, hcount⟩
  · rw [hcount, Prog.ret_bind, getUserByEmail]
    refine wp_right_select fun w₁ found hfound => ?_
    cases found with
    | none => trivial
    | some u =>
      have hu : u ∈ w₁.db.2 := List.mem_of_find?_eq_some hfound
      have hemail : Collation.fold u.email = Collation.fold email :=
        of_decide_eq_true (List.find?_some (p := fun u : User =>
          decide (Collation.fold u.email = Collation.fold email)) hfound)
      show wp _ _ _ _ ((if env.verifyPassword rawPassword u.passwordHash = true then _ else _) >>= _) _ _
      by_cases hverify : env.verifyPassword rawPassword u.passwordHash = true
      · rw [if_pos hverify, Prog.bind_assoc]
        refine wp_left_issueTokenPair (P := fun w => u ∈ w.db.2)
          (fun tx' w w' _ hw hP => user_stable hw hP) hu ?_
        intro w₃ tx₃ row pair hu₃ hadds hid huser hfamily hash hminted w₄ hw₄
        obtain ⟨husers, hsessions⟩ := hadds.view (fun r => List.not_mem_nil) w₄.db
        rw [Engine.view_empty] at husers
        refine ⟨.same husers, trivial, hw₄.inv.signIn ?_ rfl (.login hemail hverify)
          (hminted.later hw₄.rely.clock_le) ?_ ?_ hsessions hid huser hfamily hash⟩
        · rw [husers]
          exact user_stable hw₄ hu₃
        · exact fun v hv => husers.symm ▸ hv
        · exact fun v hv => Or.inl (husers ▸ hv)
      · rw [if_neg hverify]
        trivial
  · rw [hcount]
    trivial

theorem wp_refresh (tok : String) :
    wp (accounts env) authEngine n (.refresh (some tok)) (route env n (.refresh (some tok))) {} w := by
  simp only [route, refreshSession, Prog.left_bind, Prog.bind_assoc]
  refine wp_left_lock rfl (fun w' tx' _ => trivial) fun w₁ tx₁ s hwrites hinv hs hash => ?_
  show wp _ _ _ _ (Prog.left (if _ then _ else _) >>= _) _ _
  by_cases hused : s.usedAt.isSome = true
  · -- a used token takes its family with it, in a commit of its own
    rw [if_pos hused, Prog.left_bind, Prog.bind_assoc]
    refine wp_left_revoke hwrites fun w₂ tx₂ hinv₂ hdeleted w₃ hw₃ => ?_
    obtain ⟨husers, hsessions⟩ := view_deleted hdeleted w₃.db
    exact ⟨.same husers, hw₃.inv.shrink husers hsessions, trivial⟩
  · rw [if_neg hused]
    intro w₂ hw₂
    show wp _ _ _ _ (Prog.left (if _ then _ else _) >>= _) _ _
    split
    · trivial
    · rw [Prog.left_bind, Prog.bind_assoc]
      intro w₃ hw₃
      obtain ⟨j, k, ht⟩ := hinv.sessions s hs
      have traced_stable : ∀ (tx' : AccountTx) (w w' : AccountWorld),
          At (accounts env) n tx' w w' → Traced env.toEnv w.log s j k →
          Traced env.toEnv w'.log s j k :=
        fun tx' w w' hw ht => ht.mono (.refl s) hw.rely.log_mono
      refine wp_left_issueTokenPair (P := fun w => Traced env.toEnv w.log s j k)
        (fun tx' w w' _ hw ht => traced_stable tx' w w' hw ht)
        (traced_stable _ _ _ hw₃ (traced_stable _ _ _ hw₂ ht)) ?_
      intro w₄ tx₄ row pair ht₄ hadds hid huser hfamily hrow hminted w₅ hw₅
      obtain ⟨husers, hsessions⟩ := hadds.view (fun r => by simp [hwrites]) w₅.db
      have hsame : (authEngine.view tx₁ w₅.db).2 = w₅.db.2 := by
        rw [Engine.view, hwrites, Engine.applyAll_nil]
      exact ⟨.same (husers.trans hsame), trivial, hw₅.inv.rotate (traced_stable _ _ _ hw₅ ht₄) hash
        (hminted.later hw₅.rely.clock_le) (husers.trans hsame) hsessions hid huser hfamily hrow⟩

theorem wp_logout (tok : String) :
    wp (accounts env) authEngine n (.logout (some tok)) (route env n (.logout (some tok))) {} w := by
  have hplain : ∀ reply, (Except.ok Reply.loggedOut : Except Failure Reply) = .ok reply →
      reply.pair = none ∧ (Endpoint.logout (some tok)).signsIn = false ∧
        ∀ tok', Endpoint.logout (some tok) ≠ .refresh (some tok') := by
    rintro reply heq
    cases heq
    exact ⟨rfl, rfl, fun tok' => by simp⟩
  simp only [route, logoutUser, Prog.left_bind, Prog.bind_assoc]
  refine wp_left_lock rfl (fun w₁ tx₁ hwrites w₂ hw₂ => ?_)
    fun w₁ tx₁ s hwrites hinv hs hash => ?_
  · have hview : authEngine.view tx₁ w₂.db = w₂.db := by
      rw [Engine.view, hwrites, Engine.applyAll_nil]
    rw [hview]
    exact ⟨.same rfl, trivial, hw₂.inv.plain hplain⟩
  · refine wp_left_revoke hwrites fun w₂ tx₂ hinv₂ hdeleted w₃ hw₃ => ?_
    obtain ⟨husers, hsessions⟩ := view_deleted hdeleted w₃.db
    exact ⟨.same husers, trivial, (hw₃.inv.shrink husers hsessions).plain hplain⟩

theorem wp_me (userId : Nat) :
    wp (accounts env) authEngine n (.me (some userId)) (route env n (.me (some userId))) {} w := by
  simp only [route, getUserById]
  refine wp_right_select fun w₁ found _ => ?_
  cases found with
  | none => trivial
  | some user =>
    intro w₂ hw₂
    refine ⟨.same rfl, trivial, hw₂.inv.plain ?_⟩
    rintro reply heq
    cases heq
    exact ⟨rfl, rfl, fun tok => by simp⟩

theorem accounts_obey (env : AccountEnv) : Obeys (accounts env) authEngine (handleAccount env) where
  start w h := ⟨h.users, h.unique, h.shown, h.rotated, h.others, h.sessions⟩
  tick w d h := h.tick d
  failed w n req e h _ _ := h.plain (by simp)
  code w req _ := by
    cases req with
    | register email rawPassword => exact wp_register email rawPassword
    | login email rawPassword => exact wp_login email rawPassword
    | refresh rawRefreshToken =>
      cases rawRefreshToken with
      | none => trivial
      | some tok => exact wp_refresh tok
    | logout rawRefreshToken =>
      cases rawRefreshToken with
      | none =>
        intro w' hw
        refine ⟨.same rfl, trivial, hw.inv.plain ?_⟩
        rintro reply heq
        cases heq
        exact ⟨rfl, rfl, fun tok => by simp⟩
      | some tok => exact wp_logout tok
    | me claims =>
      cases claims with
      | none => trivial
      | some userId => exact wp_me userId

theorem noAccounts_ok (env : AccountEnv) : AccountsOk env noAccounts.world where
  users u hu := absurd hu (Table.not_mem_empty u)
  unique u hu := absurd hu (Table.not_mem_empty u)
  shown _ _ _ he := absurd he List.not_mem_nil
  rotated _ _ _ he := absurd he List.not_mem_nil
  others _ _ _ _ he := absurd he List.not_mem_nil
  sessions r hr := absurd hr (Table.not_mem_empty r)

variable {ok : AccountSystem → Action (Nat ⊕ String) Failure Endpoint → Prop} {s : AccountSystem}

theorem accounts_good (h : Run authEngine (handleAccount env) ok noAccounts s) :
    Good (accounts env) authEngine s :=
  (Good.init (noAccounts_ok env) rfl).run (accounts_obey env)
    ⟨fun _ _ _ => trivial, fun _ _ _ => trivial⟩ h

/-- **The users are the answered registrations, one for each address**, whatever is interleaved:
of any number of requests to register one address, in whatever case, one at most succeeds. -/
theorem users_told (h : Run authEngine (handleAccount env) ok noAccounts s) :
    (∀ u, u ∈ s.world.db.2 ↔ ∃ n email rawPassword reply,
      (n, .register email rawPassword, .ok reply) ∈ s.world.log ∧
        u = registered env n email rawPassword) ∧
    ∀ n n' email email' rawPassword rawPassword' reply reply',
      (n, .register email rawPassword, .ok reply) ∈ s.world.log →
      (n', .register email' rawPassword', .ok reply') ∈ s.world.log →
      Collation.fold email = Collation.fold email' → n = n' := by
  have hok := (accounts_good h).inv
  have hstored : ∀ n email rawPassword reply,
      (n, .register email rawPassword, .ok reply) ∈ s.world.log →
      registered env n email rawPassword ∈ s.world.db.2 := by
    intro n email rawPassword reply he
    obtain ⟨u, hu, hshows, -⟩ := hok.shown n _ reply he rfl
    cases hshows
    exact hu
  refine ⟨fun u => ⟨hok.users u, ?_⟩, ?_⟩
  · rintro ⟨n, email, rawPassword, reply, he, rfl⟩
    exact hstored n email rawPassword reply he
  · intro n n' email email' rawPassword rawPassword' reply reply' he he' hfold
    have hsame := hok.unique _ (hstored n _ _ _ he) _ (hstored n' _ _ _ he') hfold
    exact env.userId_fresh n n' (congrArg User.id hsame)

/-- A token goes back to a sign-in of its own user. -/
theorem AccountsOk.back {w : AccountWorld} (hok : AccountsOk env w) {k userId : Nat} {t : String}
    (ht : TokenFrom env.toEnv w.log k userId t) : ∃ signIn reply, (k, signIn, .ok reply) ∈ w.log ∧
      ∃ u ∈ w.db.2, ShowsPassword env k signIn u ∧ userId = u.id := by
  induction ht with
  | signedIn he hsigns hid =>
    obtain ⟨u, hu, hshows, pair, hreply, -⟩ := hok.shown _ _ _ he hsigns
    cases hreply
    exact ⟨_, _, he, u, hu, hshows, hid.symm⟩
  | refreshed _ _ _ ih => exact ih

/-- Where the tokens of an answer come from. -/
theorem AccountsOk.handed {w : AccountWorld} (hok : AccountsOk env w) {endpoint : Endpoint}
    {reply : Reply} {pair : TokenPair} (he : (n, endpoint, .ok reply) ∈ w.log)
    (hpair : reply.pair = some pair) : ∃ k signIn reply', (k, signIn, .ok reply') ∈ w.log ∧
      ∃ u ∈ w.db.2, ShowsPassword env k signIn u ∧
        TokenFrom env.toEnv w.log k u.id pair.refreshToken ∧
        AccessFor env.toEnv u.id w.clock pair.accessToken := by
  rcases hok.others n endpoint reply pair he hpair with hsigns | ⟨tok, rfl⟩
  · obtain ⟨u, hu, hshows, pair', rfl, hminted⟩ := hok.shown n endpoint reply he hsigns
    obtain rfl := Option.some.inj hpair
    exact ⟨n, endpoint, _, he, u, hu, hshows, .signedIn he hsigns rfl, hminted.access⟩
  · obtain ⟨k, userId, t, pair', ht, hash, rfl, hminted⟩ := hok.rotated n tok reply he
    obtain rfl := Option.some.inj hpair
    obtain ⟨signIn, reply', he', u, hu, hshows, rfl⟩ := hok.back ht
    exact ⟨k, signIn, reply', he', u, hu, hshows, .refreshed ht hash he, hminted.access⟩

/-- **Tokens are for those who have shown a password**: every pair ever handed out names a user and
goes back, refresh by refresh, to a request that registered the account or logged in to it with a
password that verified, and so does every session stored. -/
theorem signed_in_by_password (h : Run authEngine (handleAccount env) ok noAccounts s) :
    (∀ n endpoint reply pair, (n, endpoint, .ok reply) ∈ s.world.log → reply.pair = some pair →
      ∃ k signIn reply', (k, signIn, .ok reply') ∈ s.world.log ∧
        ∃ u ∈ s.world.db.2, ShowsPassword env k signIn u ∧
          TokenFrom env.toEnv s.world.log k u.id pair.refreshToken ∧
          AccessFor env.toEnv u.id s.world.clock pair.accessToken) ∧
    ∀ r ∈ s.world.db.1, ∃ k signIn reply', (k, signIn, .ok reply') ∈ s.world.log ∧
      ∃ u ∈ s.world.db.2, ShowsPassword env k signIn u ∧ r.userId = u.id ∧
        r.familyId = env.uuid4 k ∧ ∃ t, TokenFrom env.toEnv s.world.log k u.id t ∧
          r.hashedRefreshToken = env.hashRefreshToken t := by
  have hok := (accounts_good h).inv
  refine ⟨fun n endpoint reply pair he hpair => hok.handed he hpair, fun r hr => ?_⟩
  obtain ⟨j, k, ht⟩ := hok.sessions r hr
  obtain ⟨signIn, reply', he', u, hu, hshows, hid⟩ := hok.back ht.token
  exact ⟨k, signIn, reply', he', u, hu, hshows, hid, ht.family, _, hid ▸ ht.token, ht.hash⟩

end Endpoints

/-! ## One address, registered twice -/

/-- Who has been answered, the last first, and who got what they asked for. -/
def accountOutcomes (s : AccountSystem) : List (Nat × Bool) :=
  s.world.log.map fun e => (e.1, e.2.2.isOk)

/-- Both find the address free, and request 1 waits for request 0. -/
def registeredTwice : List (Action (Nat ⊕ String) Failure Endpoint) :=
  [.start (.register "ann@example.org" "secret"), .start (.register "Ann@Example.org" "guess"),
    .advance 0, .advance 1, .advance 0, .advance 1, .lock 0 (.inr "ann@example.org"),
    .advance 0, .advance 0, .advance 0, .advance 0, .advance 0, .advance 0,
    .lock 1 (.inr "ann@example.org"), .advance 1, .advance 1]

/-- Request 2 logs in, request 3 refreshes with the token it was handed. -/
def loggedIn : List (Action (Nat ⊕ String) Failure Endpoint) :=
  registeredTwice ++
  [.start (.login "ANN@example.org" "secret"), .advance 2, .advance 2, .advance 2, .advance 2,
    .advance 2, .advance 2,
    .start (.refresh (some "aa")), .advance 3, .lock 3 (.inl 2), .advance 3, .advance 3, .advance 3,
    .advance 3, .advance 3, .lock 3 (.inl 2), .advance 3, .advance 3, .advance 3, .advance 3,
    .advance 3]

theorem registered_once : ∃ (_ : Collation) (s : AccountSystem),
    runList authEngine (handleAccount .unary) noAccounts registeredTwice = some s ∧
    accountOutcomes s = [(1, false), (0, true)] ∧
    ∀ u, u ∈ s.world.db.2 ↔ ∃ n email rawPassword reply,
      (n, .register email rawPassword, .ok reply) ∈ s.world.log ∧
        u = registered .unary n email rawPassword := by
  let _ : Collation := Collation.ignoringCase
  have hrun : (runList authEngine (handleAccount .unary) noAccounts registeredTwice).any
      (fun s => decide (accountOutcomes s = [(1, false), (0, true)])) = true := by
    decide +kernel
  obtain ⟨s, hlist, hs, hp⟩ := exists_run hrun
  exact ⟨Collation.ignoringCase, s, hlist, of_decide_eq_true hp, (users_told hs).1⟩

theorem refreshed_after_login : ∃ (_ : Collation) (s : AccountSystem),
    runList authEngine (handleAccount .unary) noAccounts loggedIn = some s ∧
    accountOutcomes s = [(3, true), (2, true), (1, false), (0, true)] ∧ ∃ r ∈ s.world.db.1,
      r.id = 3 ∧ ∃ k signIn reply, (k, signIn, .ok reply) ∈ s.world.log ∧
        ∃ u ∈ s.world.db.2, ShowsPassword .unary k signIn u ∧ r.userId = u.id := by
  let _ : Collation := Collation.ignoringCase
  have hrun : (runList authEngine (handleAccount .unary) noAccounts loggedIn).any
      (fun s => decide (accountOutcomes s = [(3, true), (2, true), (1, false), (0, true)]) &&
        s.world.db.1.rows.any fun r => r.id = 3) = true := by
    decide +kernel
  obtain ⟨s, hlist, hs, hp⟩ := exists_run hrun
  obtain ⟨houtcomes, hsession⟩ := Bool.and_eq_true_iff.1 hp
  obtain ⟨r, hr, hid⟩ := List.any_eq_true.1 hsession
  obtain ⟨k, signIn, reply, he, u, hu, hshows, huser, -⟩ := (signed_in_by_password hs).2 r hr
  exact ⟨Collation.ignoringCase, s, hlist, of_decide_eq_true houtcomes, r, hr,
    of_decide_eq_true hid, k, signIn, reply, he, u, hu, hshows, huser⟩

end Tradinghub.Auth
