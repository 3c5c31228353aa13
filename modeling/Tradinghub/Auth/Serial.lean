import Tradinghub.Auth.Discipline
import Tradinghub.Lib.Alone

/-!
# The services, one request at a time

What each query and each service does when no other request is open: an equation per query, and
from them `alone_startSession`, `alone_refreshSession_*` and `alone_logoutUser_*`, one per branch
of the service.
-/

namespace Tradinghub.Auth

open ReadCommitted Store

/-! ## Queries -/

section Queries

variable {now : Int} {db v : Sessions}

theorem alone_execute {q : Stmt} {f : List Nat × Sessions → Program Response}
    {r : List Nat × Sessions} {v' : Sessions} (h : engine.exec q v = (.ok r, v')) :
    (execute q >>= f).alone engine now db v = (f r).alone engine now db v' := by
  rw [execute, Prog.exec_bind, alone_exec, h]
  rfl

theorem alone_lock_none {h : String} {f : Option Session → Program Response}
    (hnone : ∀ r ∈ v, r.hashedRefreshToken ≠ h) :
    (lockSessionByTokenHash h >>= f).alone engine now db v = (f none).alone engine now db v := by
  have hrows : (Stmt.lockByTokenHash h).rows v = [] := by
    rw [List.eq_nil_iff_forall_not_mem]
    intro id hid
    obtain ⟨r, hr, hm, -⟩ := mem_rows.1 hid
    exact hnone r hr (by simpa [Stmt.matches] using hm)
  have hexec : engine.exec (.lockByTokenHash h) v = (.ok ([], v), v) := by
    simp [Engine.exec, hrows, Engine.take, Engine.finishWith, Stmt.finish]
  rw [lockSessionByTokenHash, Prog.bind_assoc, alone_execute hexec]
  rfl

theorem alone_lock_some {s : Session} {f : Option Session → Program Response} (hs : s ∈ v)
    (hunique : ∀ r ∈ v, r.hashedRefreshToken = s.hashedRefreshToken → r = s) :
    (lockSessionByTokenHash s.hashedRefreshToken >>= f).alone engine now db v =
      (f (some s)).alone engine now db v := by
  have hrows : (Stmt.lockByTokenHash s.hashedRefreshToken).rows v = [s.id] :=
    rows_eq_singleton hs (by simp [Stmt.matches])
      fun r hr hm => hunique r hr (by simpa [Stmt.matches] using hm)
  have hfind : v.find? s.id = some s := Table.find?_eq_some.2 ⟨hs, rfl⟩
  have hexec : engine.exec (.lockByTokenHash s.hashedRefreshToken) v = (.ok ([s.id], v), v) := by
    simp [Engine.exec, hrows, Engine.take, Stmt.act, hfind, Stmt.matches, Stmt.writes,
      Engine.finishWith, Stmt.finish]
  rw [lockSessionByTokenHash, Prog.bind_assoc, alone_execute hexec]
  show (f (v.find? s.id)).alone engine now db v = _
  rw [hfind]

/-- Deleting rows of a family one by one. -/
theorem take_deleteFamily (F : Nat) (ids hits : List Nat) (v : Sessions) (r : Session) :
    r ∈ (engine.take (.deleteFamily F) ids hits v).2 ↔ r ∈ v ∧ ¬ (r.id ∈ ids ∧ r.familyId = F) := by
  induction ids generalizing hits v with
  | nil => simp [Engine.take]
  | cons id ids ih =>
    cases hact : Stmt.act (.deleteFamily F) id v with
    | none =>
      have hstep : engine.take (.deleteFamily F) (id :: ids) hits v =
          engine.take (.deleteFamily F) ids hits v := by simp [Engine.take, hact]
      rw [hstep, ih]
      constructor
      · rintro ⟨hr, hnot⟩
        refine ⟨hr, ?_⟩
        rintro ⟨hid, hF⟩
        rcases List.mem_cons.1 hid with hid | hid
        · have := act_eq_none hact r hr hid
          simp [Stmt.matches, hF] at this
        · exact hnot ⟨hid, hF⟩
      · rintro ⟨hr, hnot⟩
        exact ⟨hr, fun h => hnot ⟨List.mem_cons_of_mem _ h.1, h.2⟩⟩
    | some ws =>
      obtain ⟨s, hs, rfl, hm, rfl⟩ := act_eq_some hact
      have hsF : s.familyId = F := by simpa [Stmt.matches] using hm
      have hstep : engine.take (.deleteFamily F) (s.id :: ids) hits v =
          engine.take (.deleteFamily F) ids (hits ++ [s.id]) (v.erase s.id) := by
        simp only [Engine.take, engine_act, hact]
        rfl
      rw [hstep, ih, Table.mem_erase]
      constructor
      · rintro ⟨⟨hr, hne⟩, hnot⟩
        refine ⟨hr, ?_⟩
        rintro ⟨hid, hF⟩
        rcases List.mem_cons.1 hid with hid | hid
        · exact hne hid
        · exact hnot ⟨hid, hF⟩
      · rintro ⟨hr, hnot⟩
        refine ⟨⟨hr, fun hid => hnot ⟨List.mem_cons.2 (Or.inl hid), ?_⟩⟩,
          fun h => hnot ⟨List.mem_cons_of_mem _ h.1, h.2⟩⟩
        rw [v.eq_of_key hr hs hid, hsF]

theorem alone_revokeFamily {F : Nat} {f : Unit → Program Response} :
    (revokeFamily F >>= f).alone engine now db v =
      (f ()).alone engine now db (v.filter fun r => r.familyId ≠ F) := by
  have hview : (engine.take (.deleteFamily F) ((Stmt.deleteFamily F).rows v) [] v).2 =
      v.filter fun r => r.familyId ≠ F := by
    apply Table.ext_mem
    intro r
    rw [take_deleteFamily, Table.mem_filter, mem_rows]
    constructor
    · rintro ⟨hr, hnot⟩
      refine ⟨hr, ?_⟩
      by_cases hF : r.familyId = F
      · exact absurd ⟨⟨r, hr, by simp [Stmt.matches, hF], rfl⟩, hF⟩ hnot
      · simp [hF]
    · rintro ⟨hr, hF⟩
      exact ⟨hr, fun h => by simp [h.2] at hF⟩
  have hexec : engine.exec (.deleteFamily F) v =
      (.ok (engine.take (.deleteFamily F) ((Stmt.deleteFamily F).rows v) [] v),
        (engine.take (.deleteFamily F) ((Stmt.deleteFamily F).rows v) [] v).2) := rfl
  rw [revokeFamily, Prog.discard_eq, Prog.bind_assoc, alone_execute hexec, hview]
  rfl

theorem alone_insert {row : Session} {f : Unit → Program Response}
    (hfresh : ∀ r ∈ v, r.id ≠ row.id ∧ r.hashedRefreshToken ≠ row.hashedRefreshToken) :
    (discard (execute (.insert row)) >>= f).alone engine now db v =
      (f ()).alone engine now db (v.put row) := by
  have hrows : (Stmt.insert row).rows v = [] := by simp [Stmt.rows, Stmt.matches]
  have hany : (v.rows.any fun s =>
      s.id = row.id ∨ s.hashedRefreshToken = row.hashedRefreshToken) = false := by
    rw [List.any_eq_false]
    intro r hr
    have := hfresh r hr
    simp [this.1, this.2]
  have hexec : engine.exec (.insert row) v = (.ok ([], v.put row), v.put row) := by
    simp only [Engine.exec, engine_plan, hrows, Engine.take, Engine.finishWith, engine_finish,
      Stmt.finish, hany]
    rfl
  rw [Prog.discard_eq, Prog.bind_assoc, alone_execute hexec]
  rfl

theorem alone_updateUsedAt {s : Session} {usedAt : Int} {f : Unit → Program Response}
    (hs : s ∈ v) :
    (discard (execute (.updateUsedAt s.id usedAt)) >>= f).alone engine now db v =
      (f ()).alone engine now db (v.put { s with usedAt := some usedAt }) := by
  have hrows : (Stmt.updateUsedAt s.id usedAt).rows v = [s.id] :=
    rows_eq_singleton hs (by simp [Stmt.matches])
      fun r hr hm => v.eq_of_key hr hs (of_decide_eq_true hm)
  have hfind : v.find? s.id = some s := Table.find?_eq_some.2 ⟨hs, rfl⟩
  have hact : Stmt.act (.updateUsedAt s.id usedAt) s.id v = some [.setUsedAt s.id usedAt] := by
    simp [Stmt.act, hfind, Stmt.matches, Stmt.writes]
  have hview : engine.applyAll [.setUsedAt s.id usedAt] v =
      v.put { s with usedAt := some usedAt } := apply_setUsedAt hs usedAt
  have hexec : engine.exec (.updateUsedAt s.id usedAt) v =
      (.ok ([s.id], v.put { s with usedAt := some usedAt }),
        v.put { s with usedAt := some usedAt }) := by
    simp only [Engine.exec, engine_plan, hrows, Engine.take, engine_act, hact, hview]
    rfl
  rw [Prog.discard_eq, Prog.bind_assoc, alone_execute hexec]
  rfl

end Queries

/-! ## Services -/

/-- The row request `n` adds at time `now`. -/
def newSession (env : Env) (n : Nat) (now : Int) (userId familyId : Nat) : Session where
  id := env.sessionId n
  userId := userId
  familyId := familyId
  hashedRefreshToken := env.hashRefreshToken (env.generateRefreshToken n)
  usedAt := none
  expiresAt := now + REFRESH_TOKEN_LIFETIME

/-- The pair of user `userId` with that refresh token, minted at time `now`. -/
def tokenPair (env : Env) (now : Int) (userId : Nat) (refreshToken : String) : TokenPair where
  accessToken := env.jwtEncode
    { sub := toString userId, iat := now, exp := now + ACCESS_TOKEN_LIFETIME }
  refreshToken := refreshToken

section Services

variable {env : Env} {n : Nat} {now : Int} {db : Sessions}

/-- No row has the id or the hash that request `n` would add. -/
def Unused (env : Env) (n : Nat) (db : Sessions) : Prop :=
  ∀ r ∈ db, r.id ≠ env.sessionId n ∧
    r.hashedRefreshToken ≠ env.hashRefreshToken (env.generateRefreshToken n)

theorem alone_startSession (hn : Unused env n db) (userId : Nat) :
    (handle env n (.startSession userId)).alone engine now db db =
      (.ok (.tokens (tokenPair env now userId (env.generateRefreshToken n))),
        db.put (newSession env n now userId (env.uuid4 n))) := by
  simp only [handle, startSession, issueTokenPair, createSession, Prog.bind_assoc, Prog.now,
    Prog.clock_bind, Prog.pure_eq, Prog.ret_bind, alone_clock]
  refine Eq.trans (alone_insert ?_) rfl
  exact hn

theorem alone_refreshSession_unknown {tok : String}
    (htok : ∀ r ∈ db, r.hashedRefreshToken ≠ env.hashRefreshToken tok) :
    (handle env n (.refreshSession tok)).alone engine now db db =
      (.error (.app InvalidSessionError), db) := by
  rw [handle, refreshSession, Prog.bind_assoc, alone_lock_none htok]
  rfl

variable {s : Session} {tok : String} (hs : s ∈ db)
  (hash : s.hashedRefreshToken = env.hashRefreshToken tok)
  (hunique : ∀ r ∈ db, r.hashedRefreshToken = s.hashedRefreshToken → r = s)

include hs hash hunique

theorem alone_refreshSession_reuse (hused : s.usedAt ≠ none) :
    (handle env n (.refreshSession tok)).alone engine now db db =
      (.error (.app InvalidSessionError), db.filter fun r => r.familyId ≠ s.familyId) := by
  have hsome : s.usedAt.isSome = true := Option.isSome_iff_ne_none.2 hused
  rw [handle, refreshSession, Prog.bind_assoc, ← hash, alone_lock_some hs hunique]
  simp only [hsome, if_true, Prog.bind_assoc]
  rw [alone_revokeFamily]
  rfl

theorem alone_refreshSession_expired (hunused : s.usedAt = none) (hexp : s.expiresAt < now) :
    (handle env n (.refreshSession tok)).alone engine now db db =
      (.error (.app InvalidSessionError), db) := by
  rw [handle, refreshSession, Prog.bind_assoc, ← hash, alone_lock_some hs hunique]
  simp only [hunused, Option.isSome_none, Bool.false_eq_true, if_false, Prog.now, Prog.clock_bind,
    Prog.ret_bind, alone_clock]
  show (((if s.expiresAt < now then _ else _) >>= _ : Program Response)).alone engine now db db = _
  rw [if_pos hexp]
  rfl

theorem alone_refreshSession_rotate (hn : Unused env n db) (hunused : s.usedAt = none)
    (hlive : ¬ s.expiresAt < now) :
    (handle env n (.refreshSession tok)).alone engine now db db =
      (.ok (.tokens (tokenPair env now s.userId (env.generateRefreshToken n))),
        (db.put { s with usedAt := some now }).put
          (newSession env n now s.userId s.familyId)) := by
  have hn' : ∀ r ∈ db.put { s with usedAt := some now },
      r.id ≠ env.sessionId n ∧
        r.hashedRefreshToken ≠ env.hashRefreshToken (env.generateRefreshToken n) := by
    intro r hr
    rcases Table.mem_put.1 hr with rfl | ⟨hr, -⟩
    · exact hn s hs
    · exact hn r hr
  rw [handle, refreshSession, Prog.bind_assoc, ← hash, alone_lock_some hs hunique]
  simp only [hunused, Option.isSome_none, Bool.false_eq_true, if_false, Prog.now, Prog.clock_bind,
    Prog.ret_bind, alone_clock]
  show (((if s.expiresAt < now then _ else _) >>= _ : Program Response)).alone engine now db db = _
  rw [if_neg hlive]
  simp only [markSessionUsed, issueTokenPair, createSession, Prog.bind_assoc,
    Prog.now, Prog.clock_bind, Prog.pure_eq, Prog.ret_bind, alone_clock]
  rw [alone_updateUsedAt hs]
  refine Eq.trans (alone_insert ?_) rfl
  exact hn'

theorem alone_logoutUser_known :
    (handle env n (.logoutUser tok)).alone engine now db db =
      (.ok .done, db.filter fun r => r.familyId ≠ s.familyId) := by
  rw [handle, logoutUser, Prog.bind_assoc, ← hash, alone_lock_some hs hunique]
  exact alone_revokeFamily

omit hs hash hunique

theorem alone_logoutUser_unknown
    (htok : ∀ r ∈ db, r.hashedRefreshToken ≠ env.hashRefreshToken tok) :
    (handle env n (.logoutUser tok)).alone engine now db db = (.ok .done, db) := by
  rw [handle, logoutUser, Prog.bind_assoc, alone_lock_none htok]
  rfl

end Services

end Tradinghub.Auth
