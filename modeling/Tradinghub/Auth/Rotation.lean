import Tradinghub.Auth.Discipline

/-!
# A refresh token is spent at most once

`SpentOnce env s` is the promise of rotation in state `s` of the interleaved system: no token is
rotated by two requests, a successor belongs to the family of the token it replaces, and a family
has one current token.  `spent_once` shows it of every state of every interleaving; it rests on
`sessions_good`, where the work is.
-/

namespace Tradinghub.Auth

open ReadCommitted Store

structure SpentOnce (env : Env) (s : AuthSystem) : Prop where
  /-- two refreshes that presented one token and answered with a pair are one request -/
  once : ∀ n n' tok pair pair', (n, .refreshSession tok, .ok (.tokens pair)) ∈ s.world.log →
    (n', .refreshSession tok, .ok (.tokens pair')) ∈ s.world.log → n = n'
  /-- the token a refresh returns is stored in the family of the token presented -/
  family : ∀ a s', step engine (handle env) s a = some s' → ∀ n tok pair,
    s'.world.log = (n, .refreshSession tok, .ok (.tokens pair)) :: s.world.log →
    ∃ r ∈ s.world.db, ∃ r' ∈ s'.world.db,
      r.hashedRefreshToken = env.hashRefreshToken tok ∧
      r'.hashedRefreshToken = env.hashRefreshToken pair.refreshToken ∧ r'.familyId = r.familyId
  /-- no two rows of a family are unused -/
  current : ∀ r ∈ s.world.db, ∀ r' ∈ s.world.db, r.familyId = r'.familyId → r.usedAt = none →
    r'.usedAt = none → r = r'

/-- **A refresh token is spent at most once**, however the requests interleave. -/
theorem spent_once {env : Env} {s : AuthSystem}
    (h : Run engine (handle env) anyStep { world := initialWorld } s) : SpentOnce env s := by
  have hgood := sessions_good h
  have hinv : SessionsOk env s.world := hgood.inv
  constructor
  · intro n n' tok pair pair' he he'
    exact hinv.once n n' tok tok pair pair' he he' rfl
  · intro a s' hs n tok pair hlog
    rcases hgood.step_log hs with hsame | ⟨m, req, r, hnew, hpost⟩
    · rw [hsame] at hlog
      exact absurd hlog.symm (List.cons_ne_self _ _)
    · rw [hnew, List.cons.injEq] at hlog
      cases hlog.1
      obtain ⟨r, hr, r', hr', hash, -, hash', hF⟩ := hpost _ rfl tok pair rfl rfl
      exact ⟨r, hr, r', hr', hash, hash', hF⟩
  · exact hinv.unspent

/-! ## Steps of a request, for runs written out -/

abbrev AuthAction := Action Nat Failure Request

def loginSteps (n userId : Nat) : List AuthAction :=
  .start (.startSession userId) :: List.replicate 5 (.advance n)

/-- SELECT FOR UPDATE of the row `id`. -/
def lockSteps (n id : Nat) : List AuthAction := [.advance n, .lock n id, .advance n]

/-- From the lock of the current row `id` to the answer. -/
def rotateSteps (n id : Nat) : List AuthAction :=
  List.replicate 4 (.advance n) ++ .lock n id :: List.replicate 5 (.advance n)

/-- Two requests race one token: the one that waited finds it used, and revokes the family. -/
def race : List AuthAction :=
  loginSteps 0 7 ++
  [.start (.refreshSession ""), .start (.refreshSession ""), .advance 2] ++ lockSteps 1 0 ++
  rotateSteps 1 0 ++ [.lock 2 0, .advance 2, .advance 2, .lock 2 0, .lock 2 1] ++
  List.replicate 3 (.advance 2)

theorem race_spends_once : ∃ s : AuthSystem,
    runList engine (handle .unary) { world := initialWorld } race = some s ∧
    s.world.log.map Prod.fst = [2, 1, 0] ∧ s.world.db.rows = [] ∧ SpentOnce .unary s := by
  have hrun : (runList engine (handle .unary) { world := initialWorld } race).any
      (fun s => s.world.log.map Prod.fst = [2, 1, 0] ∧ s.world.db.rows = []) = true := by
    decide +kernel
  obtain ⟨s, hlist, hs, hp⟩ := exists_run hrun
  obtain ⟨hlog, hdb⟩ := of_decide_eq_true hp
  exact ⟨s, hlist, hlog, hdb, spent_once hs⟩

end Tradinghub.Auth
