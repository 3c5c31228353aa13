import Tradinghub.Auth.Discipline
import Tradinghub.Lib.Attempt

/-!
# A session request, stopped anywhere

Logging in and logging out commit once, at the end.  A refresh may commit before it fails: a token
that was used already takes its family with it.  `Refreshing` is where a refresh is and what it has
written, over rows that nobody else changes; `refresh_attempt` is how it ends.
-/

namespace Tradinghub.Auth

open ReadCommitted Store

/-! ## Requests with no commit inside -/

section Services

variable {P : Stmt → Prop}

theorem execute_sends {q : Stmt} (h : P q) : (execute q).Sends P := by
  refine ⟨h, fun r => ?_⟩
  cases r <;> trivial

theorem discard_execute_sends {q : Stmt} (h : P q) : (discard (execute q)).Sends P := by
  rw [Prog.discard_eq]
  exact (execute_sends h).bind fun _ => trivial

theorem createSession_sends {pending : Option Session} {row : Session}
    (hpending : ∀ s t, pending = some s → P (.updateUsedAt s.id t)) (hrow : P (.insert row)) :
    (createSession pending row).Sends P := by
  unfold createSession
  split
  · exact (discard_execute_sends (hpending _ _ rfl)).bind fun _ => discard_execute_sends hrow
  · exact discard_execute_sends hrow

theorem issueTokenPair_sends {env : Env} {n : Nat} {pending : Option Session}
    {userId familyId : Nat} (hpending : ∀ s t, pending = some s → P (.updateUsedAt s.id t))
    (hrow : ∀ row : Session, row.usedAt = none → P (.insert row)) :
    (issueTokenPair env n pending userId familyId).Sends P :=
  fun _ => (createSession_sends hpending (hrow _ rfl)).bind fun _ _ => trivial

theorem issueTokenPair_quiet (env : Env) (n : Nat) (pending : Option Session)
    (userId familyId : Nat) : (issueTokenPair env n pending userId familyId).Quiet :=
  (issueTokenPair_sends (P := fun _ => True) (fun _ _ _ => trivial) fun _ _ => trivial).quiet

theorem revokeFamily_sends {familyId : Nat} (h : P (.deleteFamily familyId)) :
    (revokeFamily familyId).Sends P :=
  discard_execute_sends h

theorem logoutUser_sends {env : Env} {rawRefreshToken : String}
    (hlock : ∀ h, P (.lockByTokenHash h)) (hdelete : ∀ F, P (.deleteFamily F)) :
    (logoutUser env rawRefreshToken).Sends P := by
  have hfind : (lockSessionByTokenHash (env.hashRefreshToken rawRefreshToken)).Sends P :=
    (execute_sends (hlock _)).bind fun _ => trivial
  refine hfind.bind fun found => ?_
  cases found with
  | none => trivial
  | some s => exact revokeFamily_sends (hdelete _)

theorem logoutUser_quiet (env : Env) (rawRefreshToken : String) :
    (logoutUser env rawRefreshToken).Quiet :=
  (logoutUser_sends (P := fun _ => True) (fun _ => trivial) fun _ => trivial).quiet

end Services

/-! ## Refreshing -/

/-- What `refreshSession` does with the row it found. -/
def refreshFound (env : Env) (n : Nat) : Option Session → Program TokenPair
  | none => .raise (.app InvalidSessionError)
  | some currentSession =>
    if currentSession.usedAt.isSome then do
      revokeFamily currentSession.familyId
      .commit (.raise (.app InvalidSessionError))
    else do
      let now ← Prog.now
      if currentSession.expiresAt < now then
        .raise (.app InvalidSessionError)
      else
        let used ← markSessionUsed currentSession
        issueTokenPair env n (some used) currentSession.userId currentSession.familyId

theorem refreshSession_eq (env : Env) (n : Nat) (tok : String) :
    refreshSession env n tok =
      lockSessionByTokenHash (env.hashRefreshToken tok) >>= refreshFound env n := by
  unfold refreshSession
  refine congrArg _ (funext fun found => ?_)
  cases found <;> rfl

/-- A row that is not used is marked used at most, and gets a successor. -/
theorem refreshFound_sends {P : Stmt → Prop} {env : Env} {n : Nat} {s : Session}
    (hs : s.usedAt = none) (hmark : ∀ t, P (.updateUsedAt s.id t))
    (hrow : ∀ row : Session, row.usedAt = none → P (.insert row)) :
    (refreshFound env n (some s)).Sends P := by
  simp only [refreshFound, hs, Option.isSome_none, Bool.false_eq_true, if_false]
  intro now
  show Prog.Sends P (if s.expiresAt < now then _ else _)
  split
  · trivial
  · intro used
    refine issueTokenPair_sends (fun r t hr => ?_) hrow
    cases hr
    exact hmark t

theorem refreshFound_quiet {env : Env} {n : Nat} {s : Session} (hs : s.usedAt = none) :
    (refreshFound env n (some s)).Quiet :=
  (refreshFound_sends (P := fun _ => True) hs (fun _ => trivial) fun _ _ => trivial).quiet

/-- The row was found by the token, and the token had been used. -/
structure Reused (env : Env) (tok : String) (db : Sessions) (s : Session) : Prop where
  mem : s ∈ db
  hash : s.hashedRefreshToken = env.hashRefreshToken tok
  used : s.usedAt ≠ none

/-- The token is known, and was used. -/
def Spent (env : Env) (tok : String) (db : Sessions) : Prop :=
  (∃ s ∈ db, s.hashedRefreshToken = env.hashRefreshToken tok) ∧
    ∀ s ∈ db, s.hashedRefreshToken = env.hashRefreshToken tok → s.usedAt ≠ none

/-- DELETE .. WHERE family_id = .. -/
def withoutFamily (db : Sessions) (familyId : Nat) : Sessions :=
  db.filter fun r => r.familyId ≠ familyId

/-- Where the refresh of `tok` is, and what it has written. -/
inductive Refreshing (env : Env) (n : Nat) (tok : String) (db : Sessions) :
    Program TokenPair → List Write → Prop
  | asked {k} (hk : ∀ hits v, k (.ok (hits, v)) = refreshFound env n (hits.head?.bind v.find?)) :
      Refreshing env n tok db (.exec (.lockByTokenHash (env.hashRefreshToken tok)) k) []
  | locking {todo hits k}
      (hk : ∀ hits v, k (.ok (hits, v)) = refreshFound env n (hits.head?.bind v.find?))
      (hhits : ∀ id ∈ hits, ∃ s ∈ db, s.id = id ∧ s.hashedRefreshToken = env.hashRefreshToken tok)
      (hall : ∀ s ∈ db, s.hashedRefreshToken = env.hashRefreshToken tok → s.id ∈ todo ∨ s.id ∈ hits) :
      Refreshing env n tok db (.scan (.lockByTokenHash (env.hashRefreshToken tok)) todo hits k) []
  | other {p ws} (hp : p.Quiet) (hnot : ¬ Spent env tok db) : Refreshing env n tok db p ws
  | revoking {s k} (hs : Reused env tok db s)
      (hk : ∀ r, k (.ok r) = .commit (.raise (.app InvalidSessionError))) :
      Refreshing env n tok db (.exec (.deleteFamily s.familyId) k) []
  | deleting {s todo hits k} (hs : Reused env tok db s)
      (hk : ∀ r, k (.ok r) = .commit (.raise (.app InvalidSessionError)))
      (hhits : ∀ id ∈ hits, ∃ r ∈ db, r.id = id ∧ r.familyId = s.familyId)
      (hall : ∀ r ∈ db, r.familyId = s.familyId → r.id ∈ todo ∨ r.id ∈ hits) :
      Refreshing env n tok db (.scan (.deleteFamily s.familyId) todo hits k) (hits.map .delete)
  | deleted {s ws} (hs : Reused env tok db s)
      (hws : engine.applyAll ws db = withoutFamily db s.familyId) :
      Refreshing env n tok db (.commit (.raise (.app InvalidSessionError))) ws

theorem refreshing_start (env : Env) (n : Nat) (tok : String) (db : Sessions) :
    Refreshing env n tok db (refreshSession env n tok) [] := by
  rw [refreshSession_eq]
  exact .asked fun _ _ => rfl

/-- The row that was found decides what happens next. -/
theorem refreshing_found {env : Env} {n : Nat} {tok : String} {db : Sessions} {hits : List Nat}
    (hhits : ∀ id ∈ hits, ∃ s ∈ db, s.id = id ∧ s.hashedRefreshToken = env.hashRefreshToken tok)
    (hall : ∀ s ∈ db, s.hashedRefreshToken = env.hashRefreshToken tok → s.id ∈ hits) :
    Refreshing env n tok db (refreshFound env n (hits.head?.bind db.find?)) [] := by
  cases hits with
  | nil =>
    refine .other trivial ?_
    rintro ⟨⟨s, hs, hash⟩, -⟩
    exact absurd (hall s hs hash) List.not_mem_nil
  | cons id rest =>
    obtain ⟨s, hs, rfl, hash⟩ := hhits id List.mem_cons_self
    have hfind : db.find? s.id = some s := Table.find?_eq_some.2 ⟨hs, rfl⟩
    rw [List.head?_cons, Option.bind_some, hfind]
    by_cases hused : s.usedAt = none
    · exact .other (refreshFound_quiet hused) fun hspent => hspent.2 s hs hash hused
    · have hsome : s.usedAt.isSome = true := Option.isSome_iff_ne_none.2 hused
      simp only [refreshFound, hsome, if_true]
      exact .revoking ⟨hs, hash, hused⟩ fun r => rfl

/-- One step of the refresh's own, over rows that stay as they are. -/
theorem refreshing_own {ρ : Type} {env : Env} {n m : Nat} {tok : String} {db : Sessions}
    {s : Sys Sessions Nat Write Stmt DbError Failure TokenPair ρ}
    {c c' : Conn Sessions Nat Write Stmt DbError Failure TokenPair ρ} {a : Action Nat Failure ρ}
    (h : Own engine s m c a c') (hcommit : ∀ k, c.prog ≠ .commit k) (hdb : s.world.db = db)
    (hc : Refreshing env n tok db c.prog c.tx.writes) :
    Refreshing env n tok db c'.prog c'.tx.writes := by
  obtain ⟨req, prog, tx⟩ := c
  subst hdb
  change Refreshing env n tok s.world.db prog tx.writes at hc
  have hview : engine.view tx s.world.db = engine.applyAll tx.writes s.world.db := rfl
  generalize hws : tx.writes = ws at hc hview
  cases hc with
  | asked hk =>
    cases h with
    | exec hprog =>
      cases hprog
      rw [Tx.begin_writes, hws, hview]
      refine .locking hk (fun id hid => absurd hid List.not_mem_nil) fun r hr hash => Or.inl ?_
      exact mem_rows.2 ⟨r, hr, decide_eq_true hash, rfl⟩
    | _ hprog => cases hprog
  | @locking todo hits k hk hhits hall =>
    cases h with
    | refused hprog hfinish =>
      cases hprog
      cases hfinish
    | done hprog hfinish =>
      cases hprog
      cases hfinish
      have hfind : engine.view (tx.write []) s.world.db = s.world.db := by
        rw [Engine.view_write, hview]
        rfl
      rw [Tx.write_writes, hws, hk, hfind]
      exact refreshing_found hhits fun r hr hash => (hall r hr hash).resolve_left List.not_mem_nil
    | @skip q todo' hits' k' key hprog hkey hfree hact =>
      cases hprog
      rw [hview] at hact
      refine hws ▸ .locking hk hhits fun r hr hash => ?_
      rcases hall r hr hash with hid | hid
      · refine Or.inl ((List.mem_erase_of_ne ?_).2 hid)
        -- it would have matched
        rintro rfl
        have hfalse := act_eq_none hact r hr rfl
        simp [Stmt.matches, hash] at hfalse
      · exact Or.inr hid
    | @take q todo' hits' k' key ws' hprog hkey hfree hact =>
      cases hprog
      rw [hview] at hact
      obtain ⟨r, hr, rfl, hmatch, rfl⟩ := act_eq_some hact
      rw [Tx.hold_writes, hws]
      refine .locking hk (fun id hid => ?_) fun r' hr' hash => ?_
      · rcases List.mem_append.1 hid with hid | hid
        · exact hhits id hid
        · exact ⟨r, hr, (List.mem_singleton.1 hid).symm, of_decide_eq_true hmatch⟩
      · by_cases heq : r'.id = r.id
        · exact Or.inr (List.mem_append_right _ (List.mem_singleton.2 heq))
        · exact (hall r' hr' hash).imp (List.mem_erase_of_ne heq).2 (List.mem_append_left _)
    | _ hprog => cases hprog
  | other hp hnot => exact .other (h.quiet hp) hnot
  | revoking hs hk =>
    cases h with
    | exec hprog =>
      cases hprog
      rw [Tx.begin_writes, hws, hview]
      refine .deleting hs hk (fun id hid => absurd hid List.not_mem_nil) fun r hr hF => Or.inl ?_
      exact mem_rows.2 ⟨r, hr, decide_eq_true hF, rfl⟩
    | _ hprog => cases hprog
  | @deleting row todo hits k hs hk hhits hall =>
    cases h with
    | refused hprog hfinish =>
      cases hprog
      cases hfinish
    | done hprog hfinish =>
      cases hprog
      cases hfinish
      rw [Tx.write_writes, hws, hk, List.append_nil]
      refine .deleted hs (Table.ext_mem fun r => ?_)
      rw [mem_deletes, withoutFamily, Table.mem_filter, decide_eq_true_eq]
      refine and_congr_right fun hr => not_congr ⟨fun hid => ?_, fun hF => ?_⟩
      · obtain ⟨r', hr', hid', hF⟩ := hhits r.id hid
        rwa [s.world.db.eq_of_key hr hr' hid'.symm]
      · exact (hall r hr hF).resolve_left List.not_mem_nil
    | @skip q todo' hits' k' key hprog hkey hfree hact =>
      cases hprog
      rw [hview] at hact
      refine hws ▸ .deleting hs hk hhits fun r hr hF => ?_
      by_cases hid : r.id ∈ hits
      · exact Or.inr hid
      · refine Or.inl ((List.mem_erase_of_ne ?_).2 ((hall r hr hF).resolve_right hid))
        rintro rfl
        have hfalse := act_eq_none hact r ((mem_deletes _ _ _).2 ⟨hr, hid⟩) rfl
        simp [Stmt.matches, hF] at hfalse
    | @take q todo' hits' k' key ws' hprog hkey hfree hact =>
      cases hprog
      rw [hview] at hact
      obtain ⟨r, hr, rfl, hmatch, rfl⟩ := act_eq_some hact
      have hwrites : hits.map Write.delete ++ Stmt.writes (.deleteFamily row.familyId) r =
          (hits ++ [r.id]).map .delete := by
        rw [List.map_append]
        rfl
      rw [Tx.hold_writes, hws, hwrites]
      refine .deleting hs hk (fun id hid => ?_) fun r' hr' hF => ?_
      · rcases List.mem_append.1 hid with hid | hid
        · exact hhits id hid
        · exact ⟨r, ((mem_deletes _ _ _).1 hr).1, (List.mem_singleton.1 hid).symm,
            of_decide_eq_true hmatch⟩
      · by_cases heq : r'.id = r.id
        · exact Or.inr (List.mem_append_right _ (List.mem_singleton.2 heq))
        · exact (hall r' hr' hF).imp (List.mem_erase_of_ne heq).2 (List.mem_append_left _)
    | _ hprog => cases hprog
  | deleted hs hws' => exact absurd rfl (hcommit _)

/-- How a refresh ends: with the rows as they were when it fails, or without the family of a token
that was used.  A spent token fails, and if the request is not given up its family is gone. -/
def RefreshEnded (env : Env) (tok : String) (aborts : Prop) (db db' : Sessions)
    (r : Except Failure TokenPair) : Prop :=
  (∃ pair, r = .ok pair ∧ ¬ Spent env tok db) ∨
  ∃ e, r = .error e ∧
    ((db' = db ∧ (Spent env tok db → aborts)) ∨
      ∃ s, Reused env tok db s ∧ db' = withoutFamily db s.familyId)

/-- **A refresh, wherever it is stopped.** -/
theorem refresh_attempt (ρ : Type) (env : Env) (n m : Nat) (tok : String) (aborts : Prop)
    (db₀ : Sessions) :
    Attempt engine ρ aborts m
      (fun db p tx => (db = db₀ ∧ Refreshing env n tok db₀ p tx.writes) ∨
        ∃ s, Reused env tok db₀ s ∧ db = withoutFamily db₀ s.familyId ∧
          p = .raise (.app InvalidSessionError))
      (RefreshEnded env tok aborts db₀) where
  own := by
    rintro s c c' a hown hcommit (⟨hdb, hc⟩ | ⟨-, -, -, hraise⟩)
    · exact Or.inl ⟨hdb, refreshing_own hown hcommit hdb hc⟩
    · cases hown with
      | _ hprog => cases hraise.symm.trans hprog
  commit := by
    rintro db k tx (⟨rfl, hc⟩ | ⟨-, -, -, hraise⟩)
    · generalize hws : tx.writes = ws at hc
      cases hc with
      | deleted hs hview =>
        rw [← hws] at hview
        exact Or.inr ⟨_, hs, hview, rfl⟩
      | other hp => exact hp.elim
    · cases hraise
  ret := by
    rintro db pair tx (⟨rfl, hc⟩ | ⟨-, -, -, hraise⟩)
    · generalize tx.writes = ws at hc
      cases hc with
      | other hp hnot => exact Or.inl ⟨pair, rfl, hnot⟩
    · cases hraise
  raise := by
    rintro db e tx (⟨rfl, hc⟩ | ⟨s, hs, hdb, -⟩)
    · generalize tx.writes = ws at hc
      cases hc with
      | other hp hnot => exact Or.inr ⟨e, rfl, Or.inl ⟨rfl, fun hspent => absurd hspent hnot⟩⟩
    · exact Or.inr ⟨e, rfl, Or.inr ⟨s, hs, hdb⟩⟩
  abort := by
    rintro db p tx e haborts (⟨rfl, -⟩ | ⟨s, hs, hdb, -⟩)
    · exact Or.inr ⟨e, rfl, Or.inl ⟨rfl, fun _ => haborts⟩⟩
    · exact Or.inr ⟨e, rfl, Or.inr ⟨s, hs, hdb⟩⟩

end Tradinghub.Auth
