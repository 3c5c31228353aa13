import Tradinghub.Auth.Sessions
import Tradinghub.Lib.RelyGuarantee

/-!
# Token families

`TokenOf env log F t`: the answers given so far made `t` a token of family `F`, by a login or by
rotating one.  `SessionsOk` is what the committed table and the answers always satisfy, and
`Commit` what one transaction may do to the table; the lemmas here are about tables and answers
only, `Auth.Discipline` shows that the services obey them.
-/

namespace Tradinghub.Auth

open ReadCommitted Store

abbrev Log := List (Nat × Request × Except Failure Response)

/-- Request `k` has answered with a pair. -/
def Answered (log : Log) (k : Nat) : Prop :=
  ∃ req pair, (k, req, Except.ok (.tokens pair)) ∈ log

/-- The tokens of family `F` that have been handed out.  What is presented counts by its hash. -/
inductive TokenOf (env : Env) (log : Log) (F : Nat) : String → Prop
  | login {n userId : Nat} {pair : TokenPair}
      (h : (n, Request.startSession userId, Except.ok (.tokens pair)) ∈ log)
      (hF : env.uuid4 n = F) : TokenOf env log F pair.refreshToken
  | refresh {n : Nat} {tok t : String} {pair : TokenPair} (ht : TokenOf env log F t)
      (hash : env.hashRefreshToken tok = env.hashRefreshToken t)
      (h : (n, Request.refreshSession tok, Except.ok (.tokens pair)) ∈ log) :
      TokenOf env log F pair.refreshToken

/-- Row `r` holds the token that request `k` minted and handed out. -/
structure Issued (env : Env) (log : Log) (r : Session) (k : Nat) : Prop where
  id : r.id = env.sessionId k
  hash : r.hashedRefreshToken = env.hashRefreshToken (env.generateRefreshToken k)
  answered : Answered log k
  token : TokenOf env log r.familyId (env.generateRefreshToken k)

/-- What holds of every committed table and the answers given up to then. -/
structure SessionsOk (env : Env) (w : AuthWorld) : Prop where
  issued : ∀ r ∈ w.db, ∃ k, Issued env w.log r k
  /-- a family has one current token -/
  unspent : ∀ r ∈ w.db, ∀ r' ∈ w.db, r.familyId = r'.familyId → r.usedAt = none →
    r'.usedAt = none → r = r'
  minted : ∀ n req pair, (n, req, Except.ok (.tokens pair)) ∈ w.log →
    pair.refreshToken = env.generateRefreshToken n
  /-- a token that was rotated is a minted one, and its row, if it is still there, is used -/
  spent : ∀ n tok pair, (n, .refreshSession tok, Except.ok (.tokens pair)) ∈ w.log →
    ∃ k, Answered w.log k ∧
      env.hashRefreshToken tok = env.hashRefreshToken (env.generateRefreshToken k) ∧
      ∀ r ∈ w.db, r.hashedRefreshToken = env.hashRefreshToken tok → r.usedAt ≠ none
  /-- no two requests rotated one token -/
  once : ∀ n n' tok tok' pair pair',
    (n, .refreshSession tok, Except.ok (.tokens pair)) ∈ w.log →
    (n', .refreshSession tok', Except.ok (.tokens pair')) ∈ w.log →
    env.hashRefreshToken tok = env.hashRefreshToken tok' → n = n'

/-- What the commit of request `n`'s transaction `tx` does: rows it does not hold stay as they
are, a row it adds has its own id and a family of its own or of a row it holds, and a DELETE is of
a family that is there and takes exactly the rows it picked. -/
structure Commit (env : Env) (n : Nat) (tx : Tx Nat Write Stmt) (db db' : Sessions) : Prop where
  kept : ∀ r ∈ db, r.id ∉ tx.locks → r ∈ db'
  origin : ∀ r' ∈ db', (∃ r ∈ db, ∃ u, r' = { r with usedAt := u }) ∨
    (r'.id = env.sessionId n ∧
      (r'.familyId = env.uuid4 n ∨ ∃ r ∈ db, r.id ∈ tx.locks ∧ r.familyId = r'.familyId))
  known : ∀ F keys, (Stmt.deleteFamily F, keys) ∈ tx.begun → ∃ r ∈ db, r.familyId = F
  revoked : ∀ F keys, (Stmt.deleteFamily F, keys) ∈ tx.begun → ∀ r : Session, r.familyId = F →
    (r ∈ db' ↔ r ∈ db ∧ r.id ∉ keys)

/-! ## Answers -/

section Answers

variable {env : Env} {log log' : Log}

theorem Answered.mono {k : Nat} (h : Answered log k) (hsub : ∀ e ∈ log, e ∈ log') :
    Answered log' k := by
  obtain ⟨req, pair, he⟩ := h
  exact ⟨req, pair, hsub _ he⟩

theorem TokenOf.mono {F : Nat} {t : String} (h : TokenOf env log F t)
    (hsub : ∀ e ∈ log, e ∈ log') : TokenOf env log' F t := by
  induction h with
  | login he hF => exact .login (hsub _ he) hF
  | refresh _ hash he ih => exact .refresh ih hash (hsub _ he)

theorem Issued.mono {r : Session} {k : Nat} (h : Issued env log r k)
    (hsub : ∀ e ∈ log, e ∈ log') : Issued env log' r k :=
  ⟨h.id, h.hash, h.answered.mono hsub, h.token.mono hsub⟩

/-- A use of a row says nothing about its token. -/
theorem Issued.used {r : Session} {k : Nat} (h : Issued env log r k) (u : Option Int) :
    Issued env log { r with usedAt := u } k :=
  ⟨h.id, h.hash, h.answered, h.token⟩

theorem Answered.ne {w : AuthWorld} {k n : Nat} (h : Answered w.log k) (hn : w.Unanswered n) :
    k ≠ n := by
  obtain ⟨req, pair, he⟩ := h
  exact hn _ he

/-- A family id that was handed out is that of a login. -/
theorem TokenOf.family {F : Nat} {t : String} (h : TokenOf env log F t) :
    ∃ k, Answered log k ∧ F = env.uuid4 k := by
  induction h with
  | login he hF => exact ⟨_, ⟨_, _, he⟩, hF.symm⟩
  | refresh _ _ _ ih => exact ih

theorem once_eq (honce : log.Pairwise fun e e' => e.1 ≠ e'.1)
    {e e' : Nat × Request × Except Failure Response} (h : e ∈ log) (h' : e' ∈ log)
    (heq : e.1 = e'.1) : e = e' :=
  List.inj_on_of_nodup_map (f := Prod.fst) (List.pairwise_map.2 honce) h h' heq

/-- A token belongs to one family. -/
theorem TokenOf.unique (honce : log.Pairwise fun e e' => e.1 ≠ e'.1)
    (hminted : ∀ n req pair, (n, req, Except.ok (.tokens pair)) ∈ log →
      pair.refreshToken = env.generateRefreshToken n)
    {F : Nat} {t : String} (h : TokenOf env log F t) :
    ∀ {G : Nat} {t' : String}, TokenOf env log G t' →
      env.hashRefreshToken t = env.hashRefreshToken t' → F = G := by
  have same : ∀ {n m : Nat} {req req' : Request} {pair pair' : TokenPair},
      (n, req, Except.ok (.tokens pair)) ∈ log → (m, req', Except.ok (.tokens pair')) ∈ log →
      env.hashRefreshToken pair.refreshToken = env.hashRefreshToken pair'.refreshToken →
      n = m ∧ req = req' := by
    intro n m req req' pair pair' he he' hash
    rw [hminted _ _ _ he, hminted _ _ _ he'] at hash
    have hnm : n = m := env.hash_fresh _ _ hash
    have heq := once_eq honce he he' hnm
    simp only [Prod.mk.injEq] at heq
    exact ⟨heq.1, heq.2.1⟩
  induction h with
  | login he hF =>
    intro G t' h' hash
    cases h' with
    | login he' hG =>
      obtain ⟨rfl, -⟩ := same he he' hash
      rw [← hF, hG]
    | refresh _ _ he' => cases (same he he' hash).2
  | refresh _ hpres he ih =>
    intro G t' h' hash
    cases h' with
    | login he' _ => cases (same he he' hash).2
    | refresh ht' hpres' he' =>
      obtain ⟨-, hreq⟩ := same he he' hash
      obtain rfl := Request.refreshSession.inj hreq
      exact ih ht' (hpres.symm.trans hpres')

end Answers

/-! ## Tables -/

namespace SessionsOk

variable {env : Env} {w : AuthWorld}

/-- A hash finds one row. -/
theorem eq_of_hash (h : SessionsOk env w) {r r' : Session} (hr : r ∈ w.db) (hr' : r' ∈ w.db)
    (hash : r.hashedRefreshToken = r'.hashedRefreshToken) : r = r' := by
  obtain ⟨k, hk⟩ := h.issued r hr
  obtain ⟨k', hk'⟩ := h.issued r' hr'
  have heq : k = k' := env.hash_fresh k k' (by rw [← hk.hash, hash, hk'.hash])
  refine w.db.eq_of_key hr hr' ?_
  show r.id = r'.id
  rw [hk.id, hk'.id, heq]

/-- No row has the id of a request that has not answered yet. -/
theorem id_ne (h : SessionsOk env w) {n : Nat} (hn : w.Unanswered n) {r : Session}
    (hr : r ∈ w.db) : r.id ≠ env.sessionId n := by
  obtain ⟨k, hk⟩ := h.issued r hr
  rw [hk.id]
  exact fun he => hk.answered.ne hn (env.sessionId_fresh _ _ he)

theorem family_ne (h : SessionsOk env w) {n : Nat} (hn : w.Unanswered n) {r : Session}
    (hr : r ∈ w.db) : r.familyId ≠ env.uuid4 n := by
  obtain ⟨k, hk⟩ := h.issued r hr
  obtain ⟨j, hj, hF⟩ := hk.token.family
  rw [hF]
  exact fun he => hj.ne hn (env.uuid4_fresh _ _ he)

/-- Losing rows keeps the invariant. -/
theorem subset (h : SessionsOk env w) {db : Sessions} (hsub : ∀ r ∈ db, r ∈ w.db) :
    SessionsOk env { w with db := db } where
  issued r hr := h.issued r (hsub r hr)
  unspent r hr r' hr' := h.unspent r (hsub r hr) r' (hsub r' hr')
  minted := h.minted
  spent n tok pair he := by
    obtain ⟨k, hk, hash, hused⟩ := h.spent n tok pair he
    exact ⟨k, hk, hash, fun r hr => hused r (hsub r hr)⟩
  once := h.once

/-- So does an answer without tokens. -/
theorem answer (h : SessionsOk env w) {n : Nat} {req : Request} {r : Except Failure Response}
    (hr : ∀ pair, r ≠ .ok (.tokens pair)) : SessionsOk env (w.answer n req r w.db) := by
  have old : ∀ {m req' pair}, (m, req', Except.ok (Response.tokens pair)) ∈ (n, req, r) :: w.log →
      (m, req', Except.ok (.tokens pair)) ∈ w.log := by
    intro m req' pair he
    rcases List.mem_cons.1 he with he | he
    · cases he
      exact absurd rfl (hr pair)
    · exact he
  have new : ∀ e ∈ w.log, e ∈ (n, req, r) :: w.log := fun e he => List.mem_cons_of_mem _ he
  constructor
  · intro s hs
    obtain ⟨k, hk⟩ := h.issued s hs
    exact ⟨k, hk.mono new⟩
  · exact h.unspent
  · exact fun m req' pair he => h.minted m req' pair (old he)
  · intro m tok pair he
    obtain ⟨k, hk, hash, hused⟩ := h.spent m tok pair (old he)
    exact ⟨k, hk.mono new, hash, hused⟩
  · exact fun m m' tok tok' pair pair' he he' => h.once m m' tok tok' pair pair' (old he) (old he')

end SessionsOk

/-- The row request `n` adds with its answer `pair`, in family `F`. -/
structure NewRow (env : Env) (n F : Nat) (row : Session) (pair : TokenPair) : Prop where
  id : row.id = env.sessionId n
  hash : row.hashedRefreshToken = env.hashRefreshToken (env.generateRefreshToken n)
  family : row.familyId = F
  unused : row.usedAt = none
  token : pair.refreshToken = env.generateRefreshToken n

section Growth

variable {env : Env} {w : AuthWorld} {n F : Nat} {row : Session} {pair : TokenPair}

/-- What a new row leaves of the invariant to show: its family has no other current token, and the
token presented, if any, was minted, had not been rotated, and its row is used now. -/
theorem SessionsOk.grow (h : SessionsOk env w) (hn : w.Unanswered n)
    (hrow : NewRow env n F row pair) {req : Request} {db : Sessions}
    (hold : ∀ r ∈ db, r = row ∨ ∃ r₀ ∈ w.db, ∃ u, r = { r₀ with usedAt := u } ∧
      (r₀.usedAt ≠ none → u ≠ none))
    (htoken : TokenOf env ((n, req, .ok (.tokens pair)) :: w.log) F pair.refreshToken)
    (hcurrent : ∀ r ∈ db, r ≠ row → r.familyId = F → r.usedAt ≠ none)
    (hpresented : ∀ tok, req = .refreshSession tok →
      (∃ k, Answered w.log k ∧
        env.hashRefreshToken tok = env.hashRefreshToken (env.generateRefreshToken k)) ∧
      (∀ m tok' pair', (m, .refreshSession tok', Except.ok (.tokens pair')) ∈ w.log →
        env.hashRefreshToken tok' ≠ env.hashRefreshToken tok) ∧
      ∀ r ∈ db, r.hashedRefreshToken = env.hashRefreshToken tok → r.usedAt ≠ none) :
    SessionsOk env (w.answer n req (.ok (.tokens pair)) db) := by
  have new : ∀ e ∈ w.log, e ∈ (n, req, Except.ok (.tokens pair)) :: w.log :=
    fun e he => List.mem_cons_of_mem _ he
  constructor
  · intro r hr
    rcases hold r hr with rfl | ⟨r₀, hr₀, u, rfl, -⟩
    · refine ⟨n, hrow.id, hrow.hash, ⟨req, pair, List.mem_cons_self⟩, ?_⟩
      rw [hrow.family, ← hrow.token]
      exact htoken
    · obtain ⟨k, hk⟩ := h.issued r₀ hr₀
      exact ⟨k, (hk.used u).mono new⟩
  · intro r hr r' hr' hF hu hu'
    by_cases hrr : r.familyId = F
    · -- the new row is the family's one current token
      have hr1 : r = row := by
        by_contra hne
        exact hcurrent r hr hne hrr hu
      have hr2 : r' = row := by
        by_contra hne
        exact hcurrent r' hr' hne (hF ▸ hrr) hu'
      rw [hr1, hr2]
    · rcases hold r hr with rfl | ⟨r₀, hr₀, u, rfl, hkeep⟩
      · exact absurd hrow.family hrr
      · rcases hold r' hr' with rfl | ⟨r₀', hr₀', u', rfl, hkeep'⟩
        · exact absurd (hF.trans hrow.family) hrr
        · simp only at hu hu' hF
          have h0 : r₀.usedAt = none := by
            by_contra hne
            exact hkeep hne hu
          have h0' : r₀'.usedAt = none := by
            by_contra hne
            exact hkeep' hne hu'
          rw [h.unspent r₀ hr₀ r₀' hr₀' hF h0 h0', hu, hu']
  · intro m req' pair' he
    rcases List.mem_cons.1 he with he | he
    · cases he
      exact hrow.token
    · exact h.minted m req' pair' he
  · intro m tok pair' he
    rcases List.mem_cons.1 he with he | he
    · cases he
      obtain ⟨⟨k, hk, hash⟩, -, hused⟩ := hpresented tok rfl
      exact ⟨k, hk.mono new, hash, hused⟩
    · obtain ⟨k, hk, hash, hused⟩ := h.spent m tok pair' he
      refine ⟨k, hk.mono new, hash, fun r hr hrt => ?_⟩
      rcases hold r hr with rfl | ⟨r₀, hr₀, u, rfl, hkeep⟩
      · -- a fresh token was not presented to anybody before
        rw [hrow.hash, hash] at hrt
        exact absurd (env.hash_fresh _ _ hrt).symm (hk.ne hn)
      · exact hkeep (hused r₀ hr₀ hrt)
  · intro m m' tok tok' pair₁ pair₂ he he' hash
    rcases List.mem_cons.1 he with h₁ | h₁
    · rcases List.mem_cons.1 he' with h₂ | h₂
      · cases h₁
        cases h₂
        rfl
      · cases h₁
        exact absurd hash.symm ((hpresented tok rfl).2.1 m' tok' pair₂ h₂)
    · rcases List.mem_cons.1 he' with h₂ | h₂
      · cases h₂
        exact absurd hash ((hpresented tok' rfl).2.1 m tok pair₁ h₁)
      · exact h.once m m' tok tok' pair₁ pair₂ h₁ h₂ hash

/-- A login adds the first row of its family. -/
theorem SessionsOk.login (h : SessionsOk env w) (hn : w.Unanswered n) (userId : Nat)
    (hrow : NewRow env n (env.uuid4 n) row pair) :
    SessionsOk env (w.answer n (.startSession userId) (.ok (.tokens pair)) (w.db.put row)) := by
  refine h.grow hn hrow (fun r hr => ?_) (.login List.mem_cons_self rfl) (fun r hr hne hF => ?_)
    (fun tok ht => by cases ht)
  · rcases Table.mem_put.1 hr with rfl | ⟨hr, -⟩
    · exact Or.inl rfl
    · exact Or.inr ⟨r, hr, r.usedAt, rfl, id⟩
  · rcases Table.mem_put.1 hr with rfl | ⟨hr, -⟩
    · exact absurd rfl hne
    · exact absurd hF (h.family_ne hn hr)

/-- A rotation uses the current row `s` and adds its successor. -/
theorem SessionsOk.rotate (h : SessionsOk env w) (hn : w.Unanswered n) {s : Session} {tok : String}
    (hs : s ∈ w.db) (hunused : s.usedAt = none)
    (hash : s.hashedRefreshToken = env.hashRefreshToken tok)
    (hrow : NewRow env n s.familyId row pair) (t : Int) :
    SessionsOk env (w.answer n (.refreshSession tok) (.ok (.tokens pair))
      ((w.db.put { s with usedAt := some t }).put row)) := by
  obtain ⟨k, hk⟩ := h.issued s hs
  have htok : env.hashRefreshToken tok = env.hashRefreshToken (env.generateRefreshToken k) := by
    rw [← hash, hk.hash]
  -- the rows after it: the new one, `s` used, and the others
  have rows : ∀ r ∈ (w.db.put { s with usedAt := some t }).put row,
      r = row ∨ r = { s with usedAt := some t } ∨ (r ∈ w.db ∧ r.id ≠ s.id) := by
    intro r hr
    rcases Table.mem_put.1 hr with rfl | ⟨hr, -⟩
    · exact Or.inl rfl
    · rcases Table.mem_put.1 hr with rfl | ⟨hr, hne⟩
      · exact Or.inr (Or.inl rfl)
      · exact Or.inr (Or.inr ⟨hr, hne⟩)
  refine h.grow hn hrow (fun r hr => ?_) ?_ (fun r hr hne hF => ?_) (fun tok' ht => ?_)
  · rcases rows r hr with rfl | rfl | ⟨hr, -⟩
    · exact Or.inl rfl
    · exact Or.inr ⟨s, hs, some t, rfl, fun _ => by simp⟩
    · exact Or.inr ⟨r, hr, r.usedAt, rfl, id⟩
  · exact .refresh (hk.token.mono fun e he => List.mem_cons_of_mem _ he) htok List.mem_cons_self
  · rcases rows r hr with rfl | rfl | ⟨hr, hid⟩
    · exact absurd rfl hne
    · simp
    · intro hu
      exact hid (by rw [h.unspent r hr s hs hF hu hunused])
  · obtain rfl := Request.refreshSession.inj ht
    refine ⟨⟨k, hk.answered, htok⟩, fun m tok' pair' he heq => ?_, fun r hr hrt => ?_⟩
    · obtain ⟨-, -, -, hused⟩ := h.spent m tok' pair' he
      exact hused s hs (by rw [hash, heq]) hunused
    · rcases rows r hr with rfl | rfl | ⟨hr, hid⟩
      · rw [hrow.hash, htok] at hrt
        exact absurd (env.hash_fresh _ _ hrt).symm (hk.answered.ne hn)
      · simp
      · exact absurd (by rw [h.eq_of_hash hr hs (hrt.trans hash.symm)]) hid

end Growth

end Tradinghub.Auth
