import Tradinghub.Auth.Rotation

/-!
# When a revocation is complete

`revokeFamily` deletes the rows of a family it sees when its DELETE begins.  The row lock that
serializes requests is on the token presented, so a request holding an older token of the family
does not wait for one that is rotating the current token: a successor committed while the DELETE
is under way is not among the rows it picked, and outlives it (`successor_survives`).

`revocation_complete_iff` is the exact condition, for every interleaving: a committed revocation
is for good if and only if every row of the family committed by then was there when its DELETE
began.
-/

namespace Tradinghub.Auth

open ReadCommitted Store

/-- The step `s → s'` commits request `m`'s transaction, which has run `revokeFamily F`: a logout
with a token of `F`, or a refresh that found its token used.  `keys` are the rows its DELETE picked
when it began. -/
def Revokes (s s' : AuthSystem) (m F : Nat) (keys : List Nat) : Prop :=
  ∃ c, s.conns m = some c ∧ c.prog.commits = true ∧ (Stmt.deleteFamily F, keys) ∈ c.tx.begun ∧
    advance engine s m c = some s'

/-- Every transaction open in `s` has finished in `s'`. -/
def Settled (s s' : AuthSystem) : Prop := ∀ n, s.conns n ≠ none → s'.conns n = none

/-- Once everything open has finished, no row of `F` is left, and no later refresh with a token of
`F` answers with a pair. -/
def RevokedForGood (env : Env) (F : Nat) (s : AuthSystem) : Prop :=
  ∀ t, Run engine (handle env) anyStep s t → Settled s t →
    (∀ r ∈ t.world.db, r.familyId ≠ F) ∧
    ∀ u, Run engine (handle env) anyStep t u → ∀ n tok pair,
      (n, .refreshSession tok, .ok (.tokens pair)) ∈ u.world.log →
      (n, .refreshSession tok, .ok (.tokens pair)) ∉ t.world.log →
      ¬ TokenOf env u.world.log F tok

/-- Everything open can be given up, and the rows stay. -/
theorem exists_settled {env : Env} {s : AuthSystem} (hgood : Good (discipline env) engine s) :
    ∃ t, Run engine (handle env) anyStep s t ∧ Settled s t ∧ t.world.db = s.world.db := by
  obtain ⟨t, hst, hdb, hclosed, -⟩ := run_abort_all Failure.cancelled s s.world.started
  refine ⟨t, hst, fun n hn => ?_, hdb⟩
  obtain ⟨c, hc⟩ := Option.ne_none_iff_exists'.1 hn
  exact hclosed n (hgood.bound n c hc)

/-! ## A family that is gone stays gone -/

section Gone

variable {env : Env} {F : Nat} {s s' : AuthSystem}

/-- No row of `F` is left, and `F` is no family a later login could draw. -/
def Gone (env : Env) (F : Nat) (s : AuthSystem) : Prop :=
  (∀ r ∈ s.world.db, r.familyId ≠ F) ∧ ∃ k, Answered s.world.log k ∧ F = env.uuid4 k

theorem Gone.step (hgood : Good (discipline env) engine s) (h : Gone env F s) {a : AuthAction}
    (hs : step engine (handle env) s a = some s') : Gone env F s' := by
  obtain ⟨hnone, k, hk, hF⟩ := h
  refine ⟨?_, k, hk.mono (step_log_mono hs), hF⟩
  rcases hgood.step_db hs with hdb | ⟨m, c, hc, hguar⟩
  · rw [hdb]
    exact hnone
  · intro r hr hrF
    rcases hguar.origin r hr with ⟨r₀, hr₀, u, rfl⟩ | ⟨-, hown | ⟨r₀, hr₀, -, hF₀⟩⟩
    · exact hnone r₀ hr₀ hrF
    · -- the one request that could draw `F` again has answered
      rw [hrF, hF] at hown
      exact hk.ne (hgood.unanswered m c hc) (env.uuid4_fresh _ _ hown)
    · exact hnone r₀ hr₀ (hF₀.trans hrF)

theorem Gone.run (hgood : Good (discipline env) engine s) (h : Gone env F s)
    (hr : Run engine (handle env) anyStep s s') : Gone env F s' := by
  induction hr with
  | refl => exact h
  | tail hr _ hs ih => exact ih.step (good_run hgood hr) hs

/-- A refresh that answers once `F` is gone was given a token of another family. -/
theorem Gone.refresh (hgood : Good (discipline env) engine s) (h : Gone env F s)
    (hr : Run engine (handle env) anyStep s s') {n : Nat} {tok : String} {pair : TokenPair}
    (hnew : (n, .refreshSession tok, .ok (.tokens pair)) ∈ s'.world.log)
    (hold : (n, .refreshSession tok, .ok (.tokens pair)) ∉ s.world.log) :
    ∃ G t, G ≠ F ∧ TokenOf env s'.world.log G t ∧
      env.hashRefreshToken tok = env.hashRefreshToken t := by
  induction hr with
  | refl => exact absurd hnew hold
  | tail hr _ hs ih =>
    have hgood' := good_run hgood hr
    have hgone := h.run hgood hr
    rcases hgood'.step_log hs with hsame | ⟨m, req, r, hlog, hpost⟩
    · rw [hsame] at hnew ⊢
      exact ih hnew
    · rw [hlog] at hnew
      rcases List.mem_cons.1 hnew with hnew | hnew
      · cases hnew
        obtain ⟨row, hrow, -, -, hash, -⟩ := hpost _ rfl tok pair rfl rfl
        obtain ⟨k, hk⟩ := hgood'.inv.issued row hrow
        exact ⟨row.familyId, _, hgone.1 row hrow, hk.token.mono (step_log_mono hs),
          by rw [← hash, hk.hash]⟩
      · obtain ⟨G, t, hG, ht, hash⟩ := ih hnew
        exact ⟨G, t, hG, ht.mono (step_log_mono hs), hash⟩

theorem Gone.forGood (hgood : Good (discipline env) engine s) (h : Gone env F s) :
    RevokedForGood env F s := by
  intro t hst _
  have hgood' := good_run hgood hst
  have hgone := h.run hgood hst
  refine ⟨hgone.1, fun u htu n tok pair hnew hold htok => ?_⟩
  have hgood'' := good_run hgood' htu
  obtain ⟨G, t', hG, ht', hash⟩ := hgone.refresh hgood' htu hnew hold
  exact hG (ht'.unique hgood''.once hgood''.inv.minted htok hash.symm)

/-- What the commit of a revocation leaves of its family. -/
theorem Revokes.spec {m : Nat} {keys : List Nat} (hgood : Good (discipline env) engine s)
    (h : Revokes s s' m F keys) :
    Run engine (handle env) anyStep s s' ∧ (∃ r ∈ s.world.db, r.familyId = F) ∧
    ∀ r : Session, r.familyId = F → (r ∈ s'.world.db ↔ r ∈ s.world.db ∧ r.id ∉ keys) := by
  obtain ⟨c, hc, hcom, hbegun, hadv⟩ := h
  have hs : step engine (handle env) s (.advance m) = some s' := by
    simp only [step, hc, Option.bind_some, hadv]
  have hdb : s'.world.db = engine.view c.tx s.world.db := by
    unfold advance at hadv
    cases hp : c.prog with
    | ret x =>
      simp only [hp, Option.some.injEq] at hadv
      subst hadv
      rfl
    | commit k =>
      simp only [hp, Option.some.injEq] at hadv
      subst hadv
      rfl
    | _ => simp [hp, Prog.commits] at hcom
  have hguar : Commit env m c.tx s.world.db (engine.view c.tx s.world.db) :=
    (hgood.commit hc hcom).1
  refine ⟨.single trivial hs, hguar.known F keys hbegun, ?_⟩
  rw [hdb]
  exact hguar.revoked F keys hbegun

end Gone

/-- **The exact condition.**  In any run of any requests, the revocation of `F` committed by
`s → s'` is for good if and only if every row of `F` committed by then was there when its DELETE
began: no refresh has committed a successor in between. -/
theorem revocation_complete_iff {env : Env} {s s' : AuthSystem} {m F : Nat} {keys : List Nat}
    (h : Run engine (handle env) anyStep { world := initialWorld } s)
    (hrev : Revokes s s' m F keys) :
    RevokedForGood env F s' ↔ ∀ r ∈ s.world.db, r.familyId = F → r.id ∈ keys := by
  have hgood := sessions_good h
  obtain ⟨hstep, ⟨row, hrow, hrowF⟩, hrows⟩ := hrev.spec hgood
  have hgood' := good_run hgood hstep
  constructor
  · -- give up everything open: what is left of `F` is what the DELETE did not pick
    intro hgone r hr hF
    by_contra hid
    obtain ⟨t, hst, hsettled, hdb⟩ := exists_settled hgood'
    refine (hgone t hst hsettled).1 r ?_ hF
    rw [hdb]
    exact (hrows r hF).2 ⟨hr, hid⟩
  · intro hpicked
    obtain ⟨k, hk⟩ := hgood.inv.issued row hrow
    obtain ⟨j, hj, hFj⟩ := hk.token.family
    refine Gone.forGood hgood' ⟨fun r hr hF => ?_, j, hj.mono hstep.log_mono, ?_⟩
    · obtain ⟨hr', hid⟩ := (hrows r hF).1 hr
      exact hid (hpicked r hr' hF)
    · rw [← hFj, hrowF]

/-! ## Two runs -/

/-- A state whose next step commits the revocation of family `F` by request `m`. -/
def revoking (m F : Nat) (keys : List Nat) (p : AuthSystem → AuthSystem → Bool) (s : AuthSystem) :
    Bool :=
  (s.conns m).any fun c => c.prog.commits && decide ((Stmt.deleteFamily F, keys) ∈ c.tx.begun) &&
    (advance engine s m c).any (p s)

theorem revokes_of_revoking {m F : Nat} {keys : List Nat} {p : AuthSystem → AuthSystem → Bool}
    {s : AuthSystem} (h : revoking m F keys p s = true) :
    ∃ s', Revokes s s' m F keys ∧ p s s' = true := by
  obtain ⟨c, hc, h⟩ := (Option.any_eq_true _ _).1 h
  simp only [Bool.and_eq_true, decide_eq_true_eq] at h
  obtain ⟨⟨hcom, hbegun⟩, h⟩ := h
  obtain ⟨s', hs', hp⟩ := (Option.any_eq_true _ _).1 h
  exact ⟨s', ⟨c, hc, hcom, hbegun, hs'⟩, hp⟩

/-- A login rotates once, and logs out with the stale token: nothing else is going on. -/
def staleLogout : List AuthAction :=
  loginSteps 0 7 ++ .start (.refreshSession "") :: lockSteps 1 0 ++ rotateSteps 1 0 ++
  .start (.logoutUser "") :: lockSteps 2 0 ++ [.advance 2, .lock 2 0, .lock 2 1, .advance 2]

theorem staleLogout_is_for_good :
    ∃ s s' : AuthSystem,
      runList engine (handle .unary) { world := initialWorld } staleLogout = some s ∧
      Revokes s s' 2 0 [0, 1] ∧ RevokedForGood .unary 0 s' := by
  have hrun : (runList engine (handle .unary) { world := initialWorld } staleLogout).any
      (fun s => revoking 2 0 [0, 1] (fun s _ => s.world.db.rows.all fun r => r.id ∈ [0, 1]) s) =
      true := by
    decide +kernel
  obtain ⟨s, hlist, hs, h⟩ := exists_run hrun
  obtain ⟨s', hrev, hp⟩ := revokes_of_revoking h
  refine ⟨s, s', hlist, hrev, (revocation_complete_iff hs hrev).2 fun r hr _ => ?_⟩
  simpa using List.all_eq_true.1 hp r hr

/-- The same logout, while request 2 rotates the current token: it holds the row of token 1, the
DELETE picks rows 0 and 1 and waits for it, and its successor is committed in the meantime. -/
def lateSuccessor : List AuthAction :=
  loginSteps 0 7 ++ .start (.refreshSession "") :: lockSteps 1 0 ++ rotateSteps 1 0 ++
  .start (.refreshSession "a") :: lockSteps 2 1 ++
  .start (.logoutUser "") :: lockSteps 3 0 ++ [.advance 3, .lock 3 0] ++
  rotateSteps 2 1 ++ [.lock 3 1, .advance 3]

/-- A logout commits, nothing is open any more, and the family has a current token. -/
theorem successor_survives : ¬ ∀ (env : Env) (s s' : AuthSystem) (m F : Nat) (keys : List Nat),
    Run engine (handle env) anyStep { world := initialWorld } s → Revokes s s' m F keys →
    RevokedForGood env F s' := by
  intro hclaim
  have hrun : (runList engine (handle .unary) { world := initialWorld } lateSuccessor).any
      (fun s => revoking 3 0 [0, 1]
        (fun _ s' => s'.world.db.rows.any fun r => r.familyId = 0 ∧ r.usedAt = none) s) = true := by
    decide +kernel
  obtain ⟨s, -, hs, h⟩ := exists_run hrun
  obtain ⟨s', hrev, hp⟩ := revokes_of_revoking h
  obtain ⟨r, hr, hF⟩ := List.any_eq_true.1 hp
  have hgood := sessions_good hs
  obtain ⟨t, hst, hsettled, hdb⟩ := exists_settled (good_run hgood (hrev.spec hgood).1)
  have hleft : r ∈ t.world.db := by
    rw [hdb]
    exact hr
  exact (hclaim .unary s s' 3 0 [0, 1] hs hrev t hst hsettled).1 r hleft
    (by simpa using (of_decide_eq_true hF).1)

end Tradinghub.Auth
