import Tradinghub.Auth.Serial
import Tradinghub.Auth.SessionStore

/-!
# The services refine the session store

`Refines env db S`: the table `db` represents the store `S`, each family by a row for its current
token and one for each spent token.  `alone_refines` is the simulation step, one lemma per
operation of the store; `sessions_refine_store` is the result for every sequence of requests and
clock advances from an empty table: the answers are those of a run of the store, the table
represents its state, and rows of families the store leaves alone stay as they are.
-/

namespace Tradinghub.Auth

open ReadCommitted Store

/-- A request with what it draws. -/
def Env.op (env : Env) (n : Nat) : Request → Op Nat Nat String
  | .startSession userId => .start userId (env.uuid4 n) (env.generateRefreshToken n)
  | .refreshSession tok => .refresh tok (env.generateRefreshToken n)
  | .logoutUser tok => .logout tok

/-- How an outcome is answered at time `now`. -/
def Env.result (env : Env) (now : Int) : Outcome Nat String → Except Failure Response
  | .pair userId t => .ok (.tokens (tokenPair env now userId t))
  | .refused => .error (.app InvalidSessionError)
  | .done => .ok .done

/-- Requests served by the store: the time, how many were served, their answers, the store. -/
inductive StoreRun (env : Env) : Int → Nat → Log → SessionStore Nat Nat String → Prop
  | init : StoreRun env 0 0 [] .empty
  | serve {now : Int} {n : Nat} {log : Log} {S S' : SessionStore Nat Nat String} {req : Request}
      {o : Outcome Nat String} (h : StoreRun env now n log S)
      (hstep : Step now REFRESH_TOKEN_LIFETIME S (env.op n req) o S') :
      StoreRun env now (n + 1) ((n, req, env.result now o) :: log) S'
  | tick {now : Int} {n : Nat} {log : Log} {S : SessionStore Nat Nat String} (d : Nat)
      (h : StoreRun env now n log S) : StoreRun env (now + d) n log S

/-- The row `r` stands for a token of the family `a`. -/
structure Represents (env : Env) (r : Session) (a : Family Nat String) (t : String) : Prop where
  hash : r.hashedRefreshToken = env.hashRefreshToken t
  user : r.userId = a.user
  current : r.usedAt = none → t = a.current ∧ r.expiresAt = a.expiresAt
  spent : r.usedAt ≠ none → t ∈ a.spent

structure Refines (env : Env) (db : Sessions) (S : SessionStore Nat Nat String) : Prop where
  rows : ∀ r ∈ db, ∃ a t, S.families r.familyId = some a ∧ Represents env r a t
  tokens : ∀ f a t, S.families f = some a → a.Holds t →
    ∃ r ∈ db, r.familyId = f ∧ r.hashedRefreshToken = env.hashRefreshToken t

/-- The rows of families that `S'` has as `S` had them are the same in `db'` as in `db`. -/
def Untouched (S S' : SessionStore Nat Nat String) (db db' : Sessions) : Prop :=
  ∀ r : Session, S'.families r.familyId = S.families r.familyId → (r ∈ db' ↔ r ∈ db)

section Simulation

variable {env : Env} (hcf : Function.Injective env.hashRefreshToken) {n : Nat} {now : Int}
  {db : Sessions} {S S' : SessionStore Nat Nat String} {f : Nat} {a : Family Nat String}
  {t : String}

/-- A hash finds one row. -/
def OneRow (db : Sessions) : Prop :=
  ∀ r ∈ db, ∀ r' ∈ db, r.hashedRefreshToken = r'.hashedRefreshToken → r = r'

include hcf in
/-- The row of a token that a live family holds. -/
theorem Refines.find (h : Refines env db S) (ha : S.families f = some a) (ht : a.Holds t) :
    ∃ r ∈ db, r.familyId = f ∧ Represents env r a t := by
  obtain ⟨r, hr, hrF, hash⟩ := h.tokens f a t ha ht
  obtain ⟨a', t', ha', hrep⟩ := h.rows r hr
  rw [hrF, ha] at ha'
  cases ha'
  have htt : t' = t := hcf (hrep.hash.symm.trans hash)
  exact ⟨r, hr, hrF, htt ▸ hrep⟩

theorem Represents.unused {r : Session} (h : Represents env r a t) (ht : t = a.current) :
    r.usedAt = none ∧ r.expiresAt = a.expiresAt := by
  by_cases hu : r.usedAt = none
  · exact ⟨hu, (h.current hu).2⟩
  · exact absurd (ht ▸ h.spent hu) a.current_unspent

theorem Represents.used {r : Session} (h : Represents env r a t) (ht : t ∈ a.spent) :
    r.usedAt ≠ none := by
  intro hu
  rw [(h.current hu).1] at ht
  exact a.current_unspent ht

include hcf in
/-- A token no live family holds has no row. -/
theorem Refines.unknown (h : Refines env db S) (ht : ¬ S.Known t) :
    ∀ r ∈ db, r.hashedRefreshToken ≠ env.hashRefreshToken t := by
  intro r hr hash
  obtain ⟨a, t', ha, hrep⟩ := h.rows r hr
  obtain rfl : t' = t := hcf (hrep.hash.symm.trans hash)
  refine ht ⟨r.familyId, a, ha, ?_⟩
  by_cases hu : r.usedAt = none
  · exact Or.inl (hrep.current hu).1
  · exact Or.inr (hrep.spent hu)

theorem Refines.login (h : Refines env db S) (hn : Unused env n db) (hf : S.families f = none)
    (hnew : ¬ S.Known (env.generateRefreshToken n)) (userId : Nat) :
    Refines env (db.put (newSession env n now userId f))
      (S.login f userId (env.generateRefreshToken n) (now + REFRESH_TOKEN_LIFETIME) hnew) ∧
    Untouched S (S.login f userId (env.generateRefreshToken n) (now + REFRESH_TOKEN_LIFETIME) hnew)
      db (db.put (newSession env n now userId f)) := by
  have other : ∀ r ∈ db, r.familyId ≠ f := by
    intro r hr hF
    obtain ⟨a, -, ha, -⟩ := h.rows r hr
    rw [hF, hf] at ha
    cases ha
  have hkeep : ∀ r ∈ db, r ∈ db.put (newSession env n now userId f) := fun r hr =>
    Table.mem_put.2 (Or.inr ⟨hr, (hn r hr).1⟩)
  refine ⟨⟨fun r hr => ?_, fun g b t hb ht => ?_⟩, fun r hr => ?_⟩
  · rcases Table.mem_put.1 hr with rfl | ⟨hr, -⟩
    · exact ⟨_, env.generateRefreshToken n, if_pos rfl,
        ⟨rfl, rfl, fun _ => ⟨rfl, rfl⟩, fun hu => absurd rfl hu⟩⟩
    · obtain ⟨a, t, ha, hrep⟩ := h.rows r hr
      exact ⟨a, t, (if_neg (other r hr)).trans ha, hrep⟩
  · by_cases hg : g = f
    · subst hg
      simp only [SessionStore.login, SessionStore.set, if_true, Option.some.injEq] at hb
      subst hb
      rcases ht with rfl | ht
      · exact ⟨_, Table.mem_put.2 (Or.inl rfl), rfl, rfl⟩
      · exact absurd ht (Set.notMem_empty t)
    · simp only [SessionStore.login, SessionStore.set, if_neg hg] at hb
      obtain ⟨r, hr, hrF, hash⟩ := h.tokens g b t hb ht
      exact ⟨r, hkeep r hr, hrF, hash⟩
  · have hF : r.familyId ≠ f := by
      intro hF
      simp [SessionStore.login, SessionStore.set, hF, hf] at hr
    constructor
    · intro hmem
      rcases Table.mem_put.1 hmem with rfl | ⟨hmem, -⟩
      · exact absurd rfl hF
      · exact hmem
    · exact hkeep r

theorem Refines.revoke (h : Refines env db S) (ha : S.families f = some a) :
    Refines env (db.filter fun r => r.familyId ≠ f) (S.revoke f) ∧
    Untouched S (S.revoke f) db (db.filter fun r => r.familyId ≠ f) := by
  refine ⟨⟨fun r hr => ?_, fun g b t hb ht => ?_⟩, fun r hr => ?_⟩
  · obtain ⟨hr, hF⟩ := Table.mem_filter.1 hr
    obtain ⟨b, t, hb, hrep⟩ := h.rows r hr
    exact ⟨b, t, (if_neg (by simpa using hF)).trans hb, hrep⟩
  · by_cases hg : g = f
    · simp [SessionStore.revoke, hg] at hb
    · simp only [SessionStore.revoke, if_neg hg] at hb
      obtain ⟨r, hr, hrF, hash⟩ := h.tokens g b t hb ht
      exact ⟨r, Table.mem_filter.2 ⟨hr, by simp [hrF, hg]⟩, hrF, hash⟩
  · by_cases hF : r.familyId = f
    · simp [SessionStore.revoke, hF, ha] at hr
    · simp [hF]

include hcf in
theorem Refines.rotate (h : Refines env db S) (hone : OneRow db) (hn : Unused env n db)
    (ha : S.families f = some a) (hnew : ¬ S.Known (env.generateRefreshToken n)) {s : Session}
    (hs : s ∈ db) (hsF : s.familyId = f) (hrep : Represents env s a a.current) :
    Refines env
      ((db.put { s with usedAt := some now }).put (newSession env n now s.userId s.familyId))
      (S.rotate f a (env.generateRefreshToken n) (now + REFRESH_TOKEN_LIFETIME) ha hnew) ∧
    Untouched S (S.rotate f a (env.generateRefreshToken n) (now + REFRESH_TOKEN_LIFETIME) ha hnew)
      db ((db.put { s with usedAt := some now }).put
        (newSession env n now s.userId s.familyId)) := by
  subst hsF
  -- the rows after it: the new one, `s` used, and the others
  have hmem : ∀ r, r ∈ (db.put { s with usedAt := some now }).put
      (newSession env n now s.userId s.familyId) ↔
      r = newSession env n now s.userId s.familyId ∨ r = { s with usedAt := some now } ∨
        (r ∈ db ∧ r ≠ s) := by
    intro r
    rw [Table.mem_put, Table.mem_put]
    constructor
    · rintro (rfl | ⟨rfl | ⟨hr, hid⟩, -⟩)
      · exact Or.inl rfl
      · exact Or.inr (Or.inl rfl)
      · exact Or.inr (Or.inr ⟨hr, fun he => hid (he ▸ rfl)⟩)
    · rintro (rfl | rfl | ⟨hr, hne⟩)
      · exact Or.inl rfl
      · exact Or.inr ⟨Or.inl rfl, (hn s hs).1⟩
      · exact Or.inr ⟨Or.inr ⟨hr, fun hid => hne (db.eq_of_key hr hs hid)⟩, (hn r hr).1⟩
  refine ⟨⟨fun r hr => ?_, fun g b t hb ht => ?_⟩, fun r hr => ?_⟩
  · rcases (hmem r).1 hr with rfl | rfl | ⟨hr, hne⟩
    · exact ⟨_, env.generateRefreshToken n, if_pos rfl,
        ⟨rfl, hrep.user, fun _ => ⟨rfl, rfl⟩, fun hu => absurd rfl hu⟩⟩
    · exact ⟨_, a.current, if_pos rfl,
        ⟨hrep.hash, hrep.user, (fun hu => by cases hu), fun _ => Set.mem_insert _ _⟩⟩
    · obtain ⟨b, t, hb, hrep'⟩ := h.rows r hr
      by_cases hF : r.familyId = s.familyId
      · rw [hF, ha] at hb
        cases hb
        have hused : r.usedAt ≠ none := by
          intro hu
          refine hne (hone r hr s hs ?_)
          rw [hrep'.hash, (hrep'.current hu).1, hrep.hash]
        exact ⟨_, t, if_pos hF, ⟨hrep'.hash, hrep'.user, fun hu => absurd hu hused,
          fun hu => Set.mem_insert_of_mem _ (hrep'.spent hu)⟩⟩
      · exact ⟨b, t, (if_neg hF).trans hb, hrep'⟩
  · by_cases hg : g = s.familyId
    · subst hg
      simp only [SessionStore.rotate, SessionStore.set, if_true, Option.some.injEq] at hb
      subst hb
      rcases ht with rfl | ht
      · exact ⟨_, (hmem _).2 (Or.inl rfl), rfl, rfl⟩
      · rcases Set.mem_insert_iff.1 ht with rfl | hspent
        · exact ⟨_, (hmem _).2 (Or.inr (Or.inl rfl)), rfl, hrep.hash⟩
        · obtain ⟨r, hr, hrF, hrep'⟩ := h.find hcf ha (Or.inr hspent)
          have hne : r ≠ s := by
            rintro rfl
            exact hrep'.used hspent (hrep.unused rfl).1
          exact ⟨r, (hmem r).2 (Or.inr (Or.inr ⟨hr, hne⟩)), hrF, hrep'.hash⟩
    · simp only [SessionStore.rotate, SessionStore.set, if_neg hg] at hb
      obtain ⟨r, hr, hrF, hash⟩ := h.tokens g b t hb ht
      have hne : r ≠ s := by
        rintro rfl
        exact hg hrF.symm
      exact ⟨r, (hmem r).2 (Or.inr (Or.inr ⟨hr, hne⟩)), hrF, hash⟩
  · have hF : r.familyId ≠ s.familyId := by
      intro hF
      simp only [SessionStore.rotate, SessionStore.set, hF, if_true, ha, Option.some.injEq] at hr
      have hcur := congrArg Family.current hr
      exact hnew ⟨s.familyId, a, ha, Or.inl hcur⟩
    rw [hmem]
    constructor
    · rintro (rfl | rfl | ⟨hr, -⟩)
      · exact absurd rfl hF
      · exact absurd rfl hF
      · exact hr
    · intro hr
      refine Or.inr (Or.inr ⟨hr, ?_⟩)
      rintro rfl
      exact hF rfl

include hcf in
/-- **The simulation step.**  Whatever the store may do for a request, the service does. -/
theorem alone_refines (h : Refines env db S) (hone : OneRow db) (hn : Unused env n db)
    {req : Request} {o : Outcome Nat String}
    (hstep : Step now REFRESH_TOKEN_LIFETIME S (env.op n req) o S') :
    ∃ db', (handle env n req).alone engine now db db = (env.result now o, db') ∧
      Refines env db' S' ∧ Untouched S S' db db' := by
  have same : Untouched S S db db := fun r _ => Iff.rfl
  cases req with
  | startSession userId =>
    cases hstep with
    | start hf hnew => exact ⟨_, alone_startSession hn userId, h.login hn hf hnew userId⟩
  | refreshSession tok =>
    cases hstep with
    | rotate ha ht hlive hnew =>
      obtain ⟨s, hs, hsF, hrep⟩ := h.find hcf ha (Or.inl ht)
      obtain ⟨hunused, hexp⟩ := hrep.unused ht
      refine ⟨_, ?_, h.rotate hcf hone hn ha hnew hs hsF (ht ▸ hrep)⟩
      rw [alone_refreshSession_rotate hs hrep.hash (fun r hr => hone r hr s hs) hn hunused
        (by rw [hexp]; exact hlive), hrep.user]
      rfl
    | reuse ha ht =>
      obtain ⟨s, hs, hsF, hrep⟩ := h.find hcf ha (Or.inr ht)
      subst hsF
      exact ⟨_, alone_refreshSession_reuse hs hrep.hash (fun r hr => hone r hr s hs)
        (hrep.used ht), h.revoke ha⟩
    | expired ha ht hexp =>
      obtain ⟨s, hs, -, hrep⟩ := h.find hcf ha (Or.inl ht)
      obtain ⟨hunused, hexp'⟩ := hrep.unused ht
      exact ⟨_, alone_refreshSession_expired hs hrep.hash (fun r hr => hone r hr s hs) hunused
        (by rw [hexp']; exact hexp), h, same⟩
    | unknown ht => exact ⟨_, alone_refreshSession_unknown (h.unknown hcf ht), h, same⟩
  | logoutUser tok =>
    cases hstep with
    | logout ha ht =>
      obtain ⟨s, hs, hsF, hrep⟩ := h.find hcf ha ht
      subst hsF
      exact ⟨_, alone_logoutUser_known hs hrep.hash (fun r hr => hone r hr s hs), h.revoke ha⟩
    | logoutUnknown ht => exact ⟨_, alone_logoutUser_unknown (h.unknown hcf ht), h, same⟩

end Simulation

/-! ## Whole histories -/

/-- What the interleaved system gives a request that finds nobody else there. -/
theorem serial_ready {env : Env} {w : AuthWorld}
    (h : Serial engine (handle env) initialWorld w) :
    SessionsOk env w ∧ OneRow w.db ∧ Unused env w.started w.db ∧ w.Unanswered w.started := by
  have hgood := sessions_good (serial_run h)
  have hinv : SessionsOk env w := hgood.inv
  have hun : w.Unanswered w.started := fun e he => Nat.ne_of_lt (hgood.logged e he)
  refine ⟨hinv, fun r hr r' hr' hash => hinv.eq_of_hash hr hr' hash, fun r hr => ?_, hun⟩
  refine ⟨hinv.id_ne hun hr, fun hash => ?_⟩
  obtain ⟨k, hk⟩ := hinv.issued r hr
  exact hk.answered.ne hun (env.hash_fresh _ _ (hk.hash.symm.trans hash))

theorem Refines.fresh {env : Env} (hcf : Function.Injective env.hashRefreshToken) {w : AuthWorld}
    {S : SessionStore Nat Nat String} (h : Refines env w.db S) (hinv : SessionsOk env w)
    (hun : w.Unanswered w.started) (hn : Unused env w.started w.db) (req : Request) :
    (env.op w.started req).Fresh S := by
  have hnew : ¬ S.Known (env.generateRefreshToken w.started) := by
    rintro ⟨f, a, ha, ht⟩
    obtain ⟨r, hr, -, hrep⟩ := h.find hcf ha ht
    exact (hn r hr).2 hrep.hash
  cases req with
  | startSession userId =>
    refine ⟨?_, hnew⟩
    cases hf : S.families (env.uuid4 w.started) with
    | none => rfl
    | some a =>
      obtain ⟨r, hr, hrF, -⟩ := h.find hcf hf (Or.inl rfl)
      exact absurd hrF (hinv.family_ne hun hr)
  | refreshSession tok => exact hnew
  | logoutUser tok => trivial

/-- **The services refine the session store.**  After any requests and clock advances, one at a
time, the answers are those of a run of the store and the table represents its state; and the next
request, whatever it is, is answered and takes effect as the store says, touching no other
family's rows. -/
theorem sessions_refine_store {env : Env} (hcf : Function.Injective env.hashRefreshToken)
    {w : AuthWorld} (h : Serial engine (handle env) initialWorld w) :
    ∃ S, StoreRun env w.clock w.started w.log S ∧ Refines env w.db S ∧
      ∀ req o S', Step w.clock REFRESH_TOKEN_LIFETIME S (env.op w.started req) o S' →
        (w.serve engine (handle env) req).log =
          (w.started, req, env.result w.clock o) :: w.log ∧
        Refines env (w.serve engine (handle env) req).db S' ∧
        Untouched S S' w.db (w.serve engine (handle env) req).db := by
  -- what the store does next, the service does
  have next : ∀ {w : AuthWorld} {S : SessionStore Nat Nat String},
      Serial engine (handle env) initialWorld w → Refines env w.db S → ∀ req o S',
      Step w.clock REFRESH_TOKEN_LIFETIME S (env.op w.started req) o S' →
        (w.serve engine (handle env) req).log =
          (w.started, req, env.result w.clock o) :: w.log ∧
        Refines env (w.serve engine (handle env) req).db S' ∧
        Untouched S S' w.db (w.serve engine (handle env) req).db := by
    intro w S hw href req o S' hstep
    obtain ⟨-, hone, hn, -⟩ := serial_ready hw
    obtain ⟨db', halone, href', hkeep⟩ := alone_refines hcf href hone hn hstep
    have hserve : w.serve engine (handle env) req =
        w.start.answer w.started req (env.result w.clock o) db' := by
      rw [World.serve, halone]
    rw [hserve]
    exact ⟨rfl, href', hkeep⟩
  have run : ∃ S, StoreRun env w.clock w.started w.log S ∧ Refines env w.db S := by
    induction h with
    | refl =>
      exact ⟨.empty, .init, fun r hr => absurd hr (Table.not_mem_empty r), fun _ _ _ h => by cases h⟩
    | @serve w req hw ih =>
      obtain ⟨S, hS, href⟩ := ih
      obtain ⟨hinv, -, hn, hun⟩ := serial_ready hw
      have htotal : ∃ o S', Step w.clock REFRESH_TOKEN_LIFETIME S (env.op w.started req) o S' :=
        Step.total (href.fresh hcf hinv hun hn req)
      obtain ⟨o, S', hstep⟩ := htotal
      obtain ⟨hlog, href', -⟩ := next hw href req o S' hstep
      refine ⟨S', ?_, href'⟩
      rw [hlog]
      exact hS.serve hstep
    | tick d _ ih =>
      obtain ⟨S, hS, href⟩ := ih
      exact ⟨S, hS.tick d, href⟩
  obtain ⟨S, hS, href⟩ := run
  exact ⟨S, hS, href, next h href⟩

/-- A login, a rotation a minute later, and the login's token again: the family is gone. -/
def replayed : AuthWorld :=
  (((initialWorld.serve engine (handle .unary) (.startSession 7)).tick (60 * 1000000)).serve
    engine (handle .unary) (.refreshSession "")).serve engine (handle .unary) (.refreshSession "")

theorem replayed_refines : replayed.db.rows = [] ∧
    ∃ S, StoreRun .unary replayed.clock replayed.started replayed.log S ∧
      Refines .unary replayed.db S := by
  refine ⟨by decide +kernel, ?_⟩
  have hserial : Serial engine (handle .unary) initialWorld replayed :=
    .serve _ (.serve _ (.tick _ (.serve _ (.refl _))))
  obtain ⟨S, hS, href, -⟩ := sessions_refine_store (fun _ _ h => h) hserial
  exact ⟨S, hS, href⟩

end Tradinghub.Auth
