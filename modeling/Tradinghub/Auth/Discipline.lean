import Tradinghub.Auth.Lineage

/-!
# The auth services obey their discipline

One lemma per query of `crud/session.py` (`wp_lockSessionByTokenHash`, `wp_createSession`,
`wp_revokeFamily`) says what its caller may assume afterwards, whatever other requests commit in
between; the three services are put together from them, and `sessions_good` is the result: every
interleaving of any requests keeps `SessionsOk`, and every commit is a `Commit`.
-/

namespace Tradinghub.Auth

open ReadCommitted Store

/-- What a refresh that answers says: the row presented was current, its successor is there. -/
def Rotated (env : Env) (req : Request) (a : Response) (db db' : Sessions) : Prop :=
  ∀ tok pair, req = .refreshSession tok → a = .tokens pair →
    ∃ s ∈ db, ∃ s' ∈ db', s.hashedRefreshToken = env.hashRefreshToken tok ∧ s.usedAt = none ∧
      s'.hashedRefreshToken = env.hashRefreshToken pair.refreshToken ∧ s'.familyId = s.familyId

def discipline (env : Env) : Discipline Sessions Nat Write Stmt Failure Response Request where
  inv := SessionsOk env
  guar := Commit env
  post _ := Rotated env

/-! ## What a transaction sees -/

@[simp] theorem engine_plan (q : Stmt) (db : Sessions) : engine.plan q db = (q, q.rows db) := rfl

@[simp] theorem engine_act (q : Stmt) (id : Nat) (db : Sessions) :
    engine.act q id db = q.act id db := rfl

@[simp] theorem engine_finish (q : Stmt) (hits : List Nat) (db : Sessions) :
    engine.finish q hits db = q.finish hits db := rfl

theorem view_of_writes {tx : Tx Nat Write Stmt} (hws : tx.writes = []) (db : Sessions) :
    engine.view tx db = db := by
  rw [Engine.view, hws, Engine.applyAll_nil]

theorem view_write_nil {tx : Tx Nat Write Stmt} (hws : tx.writes = []) (db : Sessions) :
    engine.view (tx.write []) db = db := by
  rw [Engine.view_write, view_of_writes hws]
  rfl

theorem apply_setUsedAt {db : Sessions} {s : Session} (hs : s ∈ db) (usedAt : Int) :
    Write.apply (.setUsedAt s.id usedAt) db = db.put { s with usedAt := some usedAt } := by
  have hf : db.find? s.id = some s := Table.find?_eq_some.2 ⟨hs, rfl⟩
  simp only [Write.apply, hf]

/-- Rows deleted one by one. -/
theorem mem_deletes (ids : List Nat) (db : Sessions) (r : Session) :
    r ∈ engine.applyAll (ids.map .delete) db ↔ r ∈ db ∧ r.id ∉ ids := by
  induction ids generalizing db with
  | nil => simp
  | cons id ids ih =>
    have herase : engine.apply (.delete id) db = db.erase id := rfl
    rw [List.map_cons, Engine.applyAll_cons, ih, herase, Table.mem_erase, List.mem_cons, not_or]
    exact and_assoc

theorem mem_rows {q : Stmt} {db : Sessions} {id : Nat} :
    id ∈ q.rows db ↔ ∃ s ∈ db, q.matches s = true ∧ s.id = id := by
  simp only [Stmt.rows, List.mem_map, List.mem_filter, Table.mem_iff, and_assoc]

/-- A statement whose WHERE clause fits one row at most picks that row. -/
theorem rows_of_unique {q : Stmt} {db : Sessions}
    (h : ∀ r ∈ db, ∀ s ∈ db, q.matches r = true → q.matches s = true → r = s) :
    q.rows db = [] ∨ ∃ id, q.rows db = [id] := by
  unfold Stmt.rows
  have hnodup : (db.rows.filter q.matches).Nodup := db.nodup.filter _
  cases hl : db.rows.filter q.matches with
  | nil => exact Or.inl rfl
  | cons r rest =>
    right
    have mem : ∀ s ∈ r :: rest, s ∈ db ∧ q.matches s = true := by
      intro s hs
      rw [← hl] at hs
      exact List.mem_filter.1 hs
    have hrest : rest = [] := by
      rw [List.eq_nil_iff_forall_not_mem]
      intro s hs
      have hr := mem r List.mem_cons_self
      have hs' := mem s (List.mem_cons_of_mem _ hs)
      rw [hl] at hnodup
      exact (List.nodup_cons.1 hnodup).1 (h r hr.1 s hs'.1 hr.2 hs'.2 ▸ hs)
    exact ⟨r.id, by rw [hrest]; rfl⟩

theorem rows_eq_singleton {q : Stmt} {db : Sessions} {s : Session} (hs : s ∈ db)
    (hmatch : q.matches s = true) (h : ∀ r ∈ db, q.matches r = true → r = s) :
    q.rows db = [s.id] := by
  have hmem : s.id ∈ q.rows db := mem_rows.2 ⟨s, hs, hmatch, rfl⟩
  have hunique : ∀ r ∈ db, ∀ r' ∈ db, q.matches r = true → q.matches r' = true → r = r' :=
    fun r hr r' hr' hm hm' => (h r hr hm).trans (h r' hr' hm').symm
  rcases rows_of_unique hunique with hnil | ⟨id, hone⟩
  · simp [hnil] at hmem
  · rw [hone] at hmem ⊢
    rw [List.mem_singleton.1 hmem]

theorem act_eq_some {q : Stmt} {db : Sessions} {id : Nat} {ws : List Write}
    (h : q.act id db = some ws) :
    ∃ s ∈ db, s.id = id ∧ q.matches s = true ∧ ws = q.writes s := by
  unfold Stmt.act at h
  split at h
  · next s hs =>
    obtain ⟨hmem, hid⟩ := Table.find?_eq_some.1 hs
    split at h
    · next hm => exact ⟨s, hmem, hid, hm, (Option.some.inj h).symm⟩
    · cases h
  · cases h

theorem act_eq_none {q : Stmt} {db : Sessions} {id : Nat} (h : q.act id db = none) :
    ∀ s ∈ db, s.id = id → q.matches s = false := by
  intro s hs hid
  have hf : db.find? id = some s := Table.find?_eq_some.2 ⟨hs, hid⟩
  simpa [Stmt.act, hf] using h

/-! ## What the others leave alone -/

section Stable

variable {env : Env} {n : Nat} {tx : Tx Nat Write Stmt} {w w' : AuthWorld}

/-- A row this transaction holds stays as it is. -/
theorem Held.stable (h : Rely (discipline env) n tx w w') {s : Session} (hs : s ∈ w.db)
    (hheld : s.id ∈ tx.locks) : s ∈ w'.db := by
  refine h.stable_db (P := fun db => s ∈ db) ?_ hs
  intro u m tx' db _ _ _ _ hdisj hguar hu
  exact hguar.kept s hu fun hid => hdisj hheld hid

/-- The rows of a family that were there once, by their ids: nobody brings one of them back. -/
def OnlyOf (F : Nat) (keys ids : List Nat) (db : Sessions) : Prop :=
  ∀ r ∈ db, r.familyId = F → r.id ∈ keys → r.id ∈ ids

theorem OnlyOf.stable {F : Nat} {keys ids : List Nat} (h : Rely (discipline env) n tx w w')
    (hkeys : ∀ id ∈ keys, ∃ k, Answered w.log k ∧ id = env.sessionId k)
    (honly : OnlyOf F keys ids w.db) : OnlyOf F keys ids w'.db := by
  have both := h.stable (P := fun u => (∀ e ∈ w.log, e ∈ u.log) ∧ OnlyOf F keys ids u.db) ?_
    ⟨fun _ he => he, honly⟩
  · exact both.2
  · rintro u u' ho ⟨hlog, hu⟩
    cases ho with
    | commit hne hopen hlt hinv hdisj hguar =>
      refine ⟨hlog, fun r hr hF hid => ?_⟩
      rcases hguar.origin r hr with ⟨r₀, hr₀, used, rfl⟩ | ⟨hnew, -⟩
      · exact hu r₀ hr₀ hF hid
      · -- a new row has the id of a request that is not answered yet
        obtain ⟨k, hk, hkid⟩ := hkeys _ hid
        rw [hnew] at hkid
        exact absurd (env.sessionId_fresh _ _ hkid).symm ((hk.mono hlog).ne hopen)
    | answer _ => exact ⟨fun e he => List.mem_cons_of_mem _ (hlog e he), hu⟩
    | start => exact ⟨hlog, hu⟩
    | tick => exact ⟨hlog, hu⟩

end Stable

/-! ## Queries -/

section Queries

variable {env : Env} {n : Nat} {req : Request} {w : AuthWorld}

theorem wp_execute {q : Stmt} {f : List Nat × Sessions → Program Response}
    {tx : Tx Nat Write Stmt}
    (h : ∀ w', At (discipline env) n tx w w' → ScanOk (discipline env) engine n
      (fun r tx w => ∀ x, r = .ok x → wp (discipline env) engine n req (f x) tx w) q
      (q.rows (engine.view tx w'.db)) [] (tx.begin q (q.rows (engine.view tx w'.db))) w') :
    wp (discipline env) engine n req (execute q >>= f) tx w := by
  intro w' hw
  refine ScanOk.mono ?_ (h w' hw)
  intro r tx w hp
  cases r with
  | ok x => exact hp x rfl
  | error d => trivial

/-- The row found is locked, and is the one with that hash. -/
theorem wp_lockSessionByTokenHash {h : String} {f : Option Session → Program Response}
    (hnone : ∀ w ids, wp (discipline env) engine n req (f none)
      { begun := [(.lockByTokenHash h, ids)] } w)
    (hsome : ∀ w ids s, s ∈ w.db → s.hashedRefreshToken = h →
      wp (discipline env) engine n req (f (some s))
        { locks := [s.id], begun := [(.lockByTokenHash h, ids)] } w) :
    wp (discipline env) engine n req (lockSessionByTokenHash h >>= f) {} w := by
  rw [lockSessionByTokenHash, Prog.bind_assoc]
  refine wp_execute fun w' hw => ?_
  have hunique : ∀ r ∈ w'.db, ∀ s ∈ w'.db, (Stmt.lockByTokenHash h).matches r = true →
      (Stmt.lockByTokenHash h).matches s = true → r = s := by
    intro r hr s hs hr' hs'
    simp only [Stmt.matches, decide_eq_true_eq] at hr' hs'
    exact hw.inv.eq_of_hash hr hs (hr'.trans hs'.symm)
  have empty : ∀ w ids, ScanOk (discipline env) engine n
      (fun r tx w => ∀ x, r = .ok x → wp (discipline env) engine n req
        ((fun (x : List Nat × Sessions) => Prog.ret (x.1.head?.bind x.2.find?)) x >>= f) tx w)
      (.lockByTokenHash h) [] [] { begun := [(.lockByTokenHash h, ids)] } w := by
    intro w ids
    refine .mk (fun _ w' _ d hd => ?_) (fun _ w' _ ws hws x hx => ?_) (by simp) (by simp)
    · cases hd
    · cases hws
      cases hx
      exact hnone _ _
  rcases rows_of_unique hunique with hrows | ⟨id, hrows⟩
  · simp only [Engine.view_empty, hrows]
    exact empty _ _
  · simp only [Engine.view_empty, hrows]
    refine .mk (by simp) (by simp) (fun key hkey w₁ hw₁ _ _ => ?_)
      (fun key hkey w₁ hw₁ _ ws hws => ?_)
    · obtain rfl := List.mem_singleton.1 hkey
      rw [List.erase_cons_head]
      exact empty _ _
    · obtain rfl := List.mem_singleton.1 hkey
      obtain ⟨s, hs, rfl, hmatch, rfl⟩ := act_eq_some hws
      rw [List.erase_cons_head]
      refine .mk (fun _ w₂ _ d hd => ?_) (fun _ w₂ hw₂ ws hws x hx => ?_) (by simp) (by simp)
      · cases hd
      · cases hws
        cases hx
        have hs' : s ∈ w₂.db := Held.stable hw₂.rely hs List.mem_cons_self
        have hfind : w₂.db.find? s.id = some s := Table.find?_eq_some.2 ⟨hs', rfl⟩
        show wp _ _ _ _ (f (w₂.db.find? s.id)) _ _
        rw [hfind]
        exact hsome w₂ _ s hs' (by simpa [Stmt.matches] using hmatch)

/-- What is known of a DELETE of the family of the locked row `s`: `keys` are the rows it picked,
`hits` those it has deleted, and no other of the picked rows is left. -/
structure Revoking (env : Env) (s : Session) (keys hits : List Nat) (w : AuthWorld) : Prop where
  row : s ∈ w.db
  picked : s.id ∈ keys
  taken : ∀ id ∈ hits, id ∈ keys
  answered : ∀ id ∈ keys, ∃ k, Answered w.log k ∧ id = env.sessionId k
  only : OnlyOf s.familyId keys hits w.db

def revokingTx (s : Session) (keys hits : List Nat) (begun : List (Stmt × List Nat)) :
    Tx Nat Write Stmt where
  locks := hits.reverse ++ [s.id]
  writes := hits.map .delete
  begun := (.deleteFamily s.familyId, keys) :: begun

theorem Revoking.stable {s : Session} {keys hits : List Nat} {begun : List (Stmt × List Nat)}
    {w w' : AuthWorld} (h : Revoking env s keys hits w)
    (hr : Rely (discipline env) n (revokingTx s keys hits begun) w w') :
    Revoking env s keys hits w' where
  row := Held.stable hr h.row (List.mem_append_right _ (List.mem_singleton.2 rfl))
  picked := h.picked
  taken := h.taken
  answered id hid := by
    obtain ⟨k, hk, hkid⟩ := h.answered id hid
    exact ⟨k, hk.mono hr.log_mono, hkid⟩
  only := OnlyOf.stable hr h.answered h.only

theorem wp_revokeFamily {s : Session} {begun : List (Stmt × List Nat)}
    {f : Unit → Program Response} (hs : s ∈ w.db)
    (hpost : ∀ w keys hits, Revoking env s keys hits w →
      wp (discipline env) engine n req (f ()) (revokingTx s keys hits begun) w) :
    wp (discipline env) engine n req (revokeFamily s.familyId >>= f)
      { locks := [s.id], begun := begun } w := by
  rw [revokeFamily, Prog.discard_eq, Prog.bind_assoc]
  refine wp_execute fun w' hw => ?_
  have hs' : s ∈ w'.db := Held.stable hw.rely hs List.mem_cons_self
  have hview : engine.view { locks := [s.id], begun := begun } w'.db = w'.db := rfl
  rw [hview]
  obtain ⟨keys, hkeys⟩ : ∃ keys, (Stmt.deleteFamily s.familyId).rows w'.db = keys := ⟨_, rfl⟩
  have mem_keys : ∀ id, id ∈ keys ↔ ∃ r ∈ w'.db, r.familyId = s.familyId ∧ r.id = id := by
    intro id
    rw [← hkeys, mem_rows]
    simp [Stmt.matches]
  rw [hkeys]
  -- the rows still to take and those deleted are all that is left of the picked ones
  let J : List Nat → List Nat → Tx Nat Write Stmt → AuthWorld → Prop := fun todo hits tx w =>
    tx = revokingTx s keys hits begun ∧ s ∈ w.db ∧ (∀ id ∈ todo, id ∈ keys) ∧
      (∀ id ∈ hits, id ∈ keys) ∧ (∀ id ∈ keys, ∃ k, Answered w.log k ∧ id = env.sessionId k) ∧
      OnlyOf s.familyId keys (todo ++ hits) w.db
  refine ScanOk.of_loop J ?_ ?_ ?_ ?_ ?_ _ _ _ _ _ rfl ?_
  · rintro todo hits tx w w' hw ⟨rfl, hrow, htodo, hhits, hkeys, honly⟩
    have hheld : s.id ∈ (revokingTx s keys hits begun).locks :=
      List.mem_append_right _ (List.mem_singleton.2 rfl)
    refine ⟨rfl, Held.stable hw.rely hrow hheld, htodo, hhits, fun id hid => ?_,
      OnlyOf.stable hw.rely hkeys honly⟩
    obtain ⟨k, hk, hkid⟩ := hkeys id hid
    exact ⟨k, hk.mono hw.rely.log_mono, hkid⟩
  · rintro todo hits tx w key hkey - - hnone ⟨rfl, hrow, htodo, hhits, hkeys, honly⟩
    refine ⟨rfl, hrow, fun id hid => htodo id (List.mem_of_mem_erase hid), hhits, hkeys, ?_⟩
    intro r hr hF hid
    have hmem := honly r hr hF hid
    by_cases hrk : r.id = key
    · by_cases hrh : r.id ∈ hits
      · exact List.mem_append_right _ hrh
      · -- it would have matched
        have hfalse := act_eq_none hnone r ((mem_deletes hits w.db r).2 ⟨hr, hrh⟩) hrk
        simp [Stmt.matches, hF] at hfalse
    · rw [List.mem_append] at hmem ⊢
      exact hmem.imp (fun h => (List.mem_erase_of_ne hrk).2 h) id
  · rintro todo hits tx w key ws hkey - - hsome ⟨rfl, hrow, htodo, hhits, hkeys, honly⟩
    obtain ⟨r, -, rfl, -, rfl⟩ := act_eq_some hsome
    refine ⟨?_, hrow, fun id hid => htodo id (List.mem_of_mem_erase hid), ?_, hkeys, ?_⟩
    · simp [revokingTx, Tx.hold, Stmt.writes]
    · intro id hid
      rcases List.mem_append.1 hid with hid | hid
      · exact hhits id hid
      · rw [List.mem_singleton.1 hid]
        exact htodo _ hkey
    · intro r' hr' hF hid
      have hmem := honly r' hr' hF hid
      simp only [List.mem_append, List.mem_singleton] at hmem ⊢
      by_cases hrk : r'.id = r.id
      · exact Or.inr (Or.inr hrk)
      · exact hmem.imp (fun h => (List.mem_erase_of_ne hrk).2 h) Or.inl
  · rintro hits tx w d - hd -
    cases hd
  · rintro hits tx w ws - hws ⟨rfl, hrow, -, hhits, hkeys, honly⟩ x hx
    cases hws
    have hwrite : (revokingTx s keys hits begun).write [] = revokingTx s keys hits begun := by
      simp [Tx.write]
    rw [hwrite]
    exact hpost w keys hits
      ⟨hrow, (mem_keys _).2 ⟨s, hs', rfl, rfl⟩, hhits, hkeys, by simpa using honly⟩
  · refine ⟨rfl, hs', fun id hid => hid, by simp, fun id hid => ?_, fun r hr hF hid => by simpa using hid⟩
    obtain ⟨r, hr, -, rfl⟩ := (mem_keys id).1 hid
    obtain ⟨k, hk⟩ := hw.inv.issued r hr
    exact ⟨k, hk.answered, hk.id⟩

theorem wp_insert {row : Session} {f : Unit → Program Response} {tx : Tx Nat Write Stmt}
    (hpost : ∀ w', (∀ s ∈ w.db, s.id ∈ tx.locks → s ∈ w'.db) →
      wp (discipline env) engine n req (f ())
        ((tx.begin (.insert row) []).write [.insert row]) w') :
    wp (discipline env) engine n req (discard (execute (.insert row)) >>= f) tx w := by
  rw [Prog.discard_eq, Prog.bind_assoc]
  refine wp_execute fun w' hw => ?_
  have hrows : (Stmt.insert row).rows (engine.view tx w'.db) = [] := by
    simp [Stmt.rows, Stmt.matches]
  rw [hrows]
  refine .mk (fun _ w₁ _ d _ x hx => by cases hx) (fun _ w₁ hw₁ ws hws x _ => ?_) (by simp)
    (by simp)
  have hws' : ws = [.insert row] := by
    simp only [engine_finish, Stmt.finish] at hws
    split at hws
    · cases hws
    · exact (Except.ok.inj hws).symm
  rw [hws']
  exact hpost w₁ fun s hs hid => Held.stable hw₁.rely (Held.stable hw.rely hs hid) hid

/-- The UPDATE of a row this transaction locked. -/
theorem wp_updateUsedAt {s : Session} {usedAt : Int} {begun : List (Stmt × List Nat)}
    {f : Unit → Program Response} (hs : s ∈ w.db)
    (hpost : ∀ w', s ∈ w'.db → wp (discipline env) engine n req (f ())
      { locks := [s.id, s.id], writes := [.setUsedAt s.id usedAt],
        begun := (.updateUsedAt s.id usedAt, [s.id]) :: begun } w') :
    wp (discipline env) engine n req (discard (execute (.updateUsedAt s.id usedAt)) >>= f)
      { locks := [s.id], begun := begun } w := by
  rw [Prog.discard_eq, Prog.bind_assoc]
  refine wp_execute fun w' hw => ?_
  have hs' : s ∈ w'.db := Held.stable hw.rely hs List.mem_cons_self
  have hview : engine.view { locks := [s.id], begun := begun } w'.db = w'.db := rfl
  have hrows : (Stmt.updateUsedAt s.id usedAt).rows w'.db = [s.id] := by
    refine rows_eq_singleton hs' (by simp [Stmt.matches]) fun r hr hm => ?_
    exact w'.db.eq_of_key hr hs' (of_decide_eq_true hm)
  rw [hview, hrows]
  refine .mk (by simp) (by simp) (fun key hkey w₁ hw₁ _ hnone => ?_)
    (fun key hkey w₁ hw₁ _ ws hws => ?_)
  · -- the row is held, so it is still there
    obtain rfl := List.mem_singleton.1 hkey
    have hs₁ : s ∈ w₁.db := Held.stable hw₁.rely hs' List.mem_cons_self
    have hfalse := act_eq_none hnone s hs₁ rfl
    simp [Stmt.matches] at hfalse
  · obtain rfl := List.mem_singleton.1 hkey
    have hs₁ : s ∈ w₁.db := Held.stable hw₁.rely hs' List.mem_cons_self
    obtain ⟨r, hr, hrid, -, rfl⟩ := act_eq_some hws
    rw [List.erase_cons_head]
    refine .mk (fun _ w₂ _ d hd => by cases hd) (fun _ w₂ hw₂ ws hws x _ => ?_) (by simp) (by simp)
    cases hws
    have hwrites : Stmt.writes (.updateUsedAt s.id usedAt) r = [.setUsedAt s.id usedAt] := by
      rw [← hrid]
      rfl
    rw [hwrites]
    exact hpost w₂ (Held.stable hw₂.rely hs₁ List.mem_cons_self)

end Queries

/-! ## Services -/

section Services

variable {env : Env} {n : Nat} {w : AuthWorld}

/-- The commit of a rotation of the held row `s`. -/
theorem rotate_commit {tx : Tx Nat Write Stmt} {s row : Session} {tok : String} {pair : TokenPair}
    {t : Int} (hinv : SessionsOk env w) (hn : w.Unanswered n) (hs : s ∈ w.db)
    (hunused : s.usedAt = none) (hash : s.hashedRefreshToken = env.hashRefreshToken tok)
    (hwrites : tx.writes = [.setUsedAt s.id t, .insert row])
    (hrow : NewRow env n s.familyId row pair) (hheld : s.id ∈ tx.locks)
    (hbegun : ∀ F keys, (Stmt.deleteFamily F, keys) ∉ tx.begun) :
    Commit env n tx w.db (engine.view tx w.db) ∧
    Rotated env (.refreshSession tok) (.tokens pair) w.db (engine.view tx w.db) ∧
    SessionsOk env
      (w.answer n (.refreshSession tok) (.ok (.tokens pair)) (engine.view tx w.db)) := by
  have hview : engine.view tx w.db = (w.db.put { s with usedAt := some t }).put row := by
    rw [Engine.view, hwrites, ← apply_setUsedAt hs t]
    rfl
  have hid : ∀ r ∈ w.db, r.id ≠ row.id := fun r hr => hrow.id ▸ hinv.id_ne hn hr
  rw [hview]
  refine ⟨⟨fun r hr hfree => ?_, fun r hr => ?_, fun F keys hF => absurd hF (hbegun F keys),
    fun F keys hF => absurd hF (hbegun F keys)⟩, ?_, ?_⟩
  · have hne : r.id ≠ s.id := fun he => hfree (he ▸ hheld)
    exact Table.mem_put.2 (Or.inr ⟨Table.mem_put.2 (Or.inr ⟨hr, hne⟩), hid r hr⟩)
  · rcases Table.mem_put.1 hr with rfl | ⟨hr, -⟩
    · exact Or.inr ⟨hrow.id, Or.inr ⟨s, hs, hheld, hrow.family.symm⟩⟩
    · rcases Table.mem_put.1 hr with rfl | ⟨hr, -⟩
      · exact Or.inl ⟨s, hs, _, rfl⟩
      · exact Or.inl ⟨r, hr, r.usedAt, rfl⟩
  · rintro tok' pair' h hpair
    cases h
    cases hpair
    exact ⟨s, hs, row, Table.mem_put.2 (Or.inl rfl), hash, hunused, by rw [hrow.hash, hrow.token],
      hrow.family⟩
  · exact hinv.rotate hn hs hunused hash hrow t

theorem wp_startSession (userId : Nat) :
    wp (discipline env) engine n (.startSession userId) (handle env n (.startSession userId)) {}
      w := by
  simp only [handle, startSession, issueTokenPair, createSession, Prog.bind_assoc, Prog.now,
    Prog.clock_bind, Prog.pure_eq, Prog.ret_bind]
  intro w₁ hw₁
  refine wp_insert fun w₂ _ => ?_
  intro w₃ hw₃ w₄ hw₄
  have hinv : SessionsOk env w₄ := hw₄.inv
  refine ⟨⟨fun r hr _ => ?_, fun r hr => ?_, by simp, by simp⟩, ?_, ?_⟩
  · exact Table.mem_put.2 (Or.inr ⟨hr, hinv.id_ne hw₄.unanswered hr⟩)
  · rcases Table.mem_put.1 hr with rfl | ⟨hr, -⟩
    · exact Or.inr ⟨rfl, Or.inl rfl⟩
    · exact Or.inl ⟨r, hr, r.usedAt, rfl⟩
  · rintro tok pair h -
    cases h
  · exact hinv.login hw₄.unanswered userId ⟨rfl, rfl, rfl, rfl, rfl⟩

/-- The commit of a transaction that has deleted the family of the row it holds. -/
theorem Revoking.commit {s : Session} {keys hits : List Nat} {begun : List (Stmt × List Nat)}
    (h : Revoking env s keys hits w) (hbegun : ∀ F keys', (Stmt.deleteFamily F, keys') ∉ begun) :
    Commit env n (revokingTx s keys hits begun) w.db
      (engine.view (revokingTx s keys hits begun) w.db) := by
  have hview : ∀ r, r ∈ engine.view (revokingTx s keys hits begun) w.db ↔ r ∈ w.db ∧ r.id ∉ hits :=
    mem_deletes hits w.db
  constructor
  · intro r hr hid
    refine (hview r).2 ⟨hr, fun hin => hid ?_⟩
    exact List.mem_append_left _ (List.mem_reverse.2 hin)
  · intro r hr
    exact Or.inl ⟨r, ((hview r).1 hr).1, r.usedAt, rfl⟩
  · intro F keys' hF
    rcases List.mem_cons.1 hF with hF | hF
    · cases hF
      exact ⟨s, h.row, rfl⟩
    · exact absurd hF (hbegun _ _)
  · intro F keys' hF r hrF
    rcases List.mem_cons.1 hF with hF | hF
    · cases hF
      rw [hview r]
      constructor
      · rintro ⟨hr, hid⟩
        exact ⟨hr, fun hk => hid (h.only r hr hrF hk)⟩
      · rintro ⟨hr, hid⟩
        exact ⟨hr, fun hin => hid (h.taken _ hin)⟩
    · exact absurd hF (hbegun _ _)

theorem Revoking.ok {s : Session} {keys hits : List Nat} {begun : List (Stmt × List Nat)}
    (hinv : SessionsOk env w) :
    SessionsOk env { w with db := engine.view (revokingTx s keys hits begun) w.db } :=
  hinv.subset fun r hr => ((mem_deletes hits w.db r).1 hr).1

theorem wp_refreshSession (tok : String) :
    wp (discipline env) engine n (.refreshSession tok) (handle env n (.refreshSession tok)) {}
      w := by
  rw [handle, refreshSession, Prog.bind_assoc]
  refine wp_lockSessionByTokenHash (fun _ _ => trivial) fun w₁ ids s hs hash => ?_
  by_cases hused : s.usedAt.isSome = true
  · -- reuse: the family goes, and the commit makes it stay gone
    simp only [hused, if_true, Prog.bind_assoc]
    refine wp_revokeFamily hs fun w₂ keys hits hrev => ?_
    intro w₃ hw₃
    have hbegun : ∀ F keys', (Stmt.deleteFamily F, keys') ∉
        [(Stmt.lockByTokenHash (env.hashRefreshToken tok), ids)] := by simp
    exact ⟨(hrev.stable hw₃.rely).commit hbegun, Revoking.ok hw₃.inv, trivial⟩
  · simp only [hused, Bool.false_eq_true, if_false, Prog.now, Prog.clock_bind, Prog.ret_bind]
    intro w₂ hw₂
    show wp _ _ _ _ ((if s.expiresAt < w₂.clock then _ else _) >>= _) _ _
    by_cases hexp : s.expiresAt < w₂.clock
    · rw [if_pos hexp]
      trivial
    · have hunused : s.usedAt = none := by simpa using hused
      simp only [hexp, if_false, markSessionUsed, issueTokenPair, createSession, Prog.bind_assoc,
        Prog.now, Prog.clock_bind, Prog.pure_eq, Prog.ret_bind]
      intro w₃ hw₃ w₄ hw₄
      have hs₄ : s ∈ w₄.db :=
        Held.stable ((hw₂.rely.trans hw₃.rely).trans hw₄.rely) hs List.mem_cons_self
      refine wp_updateUsedAt hs₄ fun w₅ hs₅ => wp_insert fun w₆ hkept => ?_
      have hs₆ : s ∈ w₆.db := hkept s hs₅ List.mem_cons_self
      intro w₇ hw₇ w₈ hw₈
      have hs₈ : s ∈ w₈.db := Held.stable (hw₇.rely.trans hw₈.rely) hs₆ List.mem_cons_self
      exact rotate_commit hw₈.inv hw₈.unanswered hs₈ hunused hash rfl
        ⟨rfl, rfl, rfl, rfl, rfl⟩ List.mem_cons_self (by simp)

theorem wp_logoutUser (tok : String) :
    wp (discipline env) engine n (.logoutUser tok) (handle env n (.logoutUser tok)) {} w := by
  have silent : ∀ a : Response, (∀ pair, a ≠ .tokens pair) → ∀ db db',
      Rotated env (.logoutUser tok) a db db' := by
    rintro a ha db db' tok' pair h
    cases h
  rw [handle, logoutUser, Prog.bind_assoc]
  refine wp_lockSessionByTokenHash (fun w₁ ids => ?_) fun w₁ ids s hs hash => ?_
  · intro w₂ hw₂
    exact ⟨⟨fun r hr _ => hr, fun r hr => Or.inl ⟨r, hr, r.usedAt, rfl⟩, by simp, by simp⟩,
      silent _ (fun _ h => by cases h) _ _, hw₂.inv.answer (by simp)⟩
  · refine wp_revokeFamily hs fun w₂ keys hits hrev => ?_
    intro w₃ hw₃
    refine ⟨(hrev.stable hw₃.rely).commit (by simp), silent _ (fun _ h => by cases h) _ _, ?_⟩
    exact (Revoking.ok hw₃.inv).answer (by simp)

theorem sessions_obey (env : Env) : Obeys (discipline env) engine (handle env) where
  start w h := ⟨h.issued, h.unspent, h.minted, h.spent, h.once⟩
  tick w d h := ⟨h.issued, h.unspent, h.minted, h.spent, h.once⟩
  failed w n req e h _ _ := h.answer (by simp)
  code w req _ := by
    cases req with
    | startSession userId => exact wp_startSession userId
    | refreshSession tok => exact wp_refreshSession tok
    | logoutUser tok => exact wp_logoutUser tok

theorem initial_ok (env : Env) : SessionsOk env initialWorld where
  issued r hr := absurd hr (Table.not_mem_empty r)
  unspent r hr := absurd hr (Table.not_mem_empty r)
  minted _ _ _ h := by cases h
  spent _ _ _ h := by cases h
  once _ _ _ _ _ _ h := by cases h

theorem good_run {env : Env} {s s' : AuthSystem} (hgood : Good (discipline env) engine s)
    (h : Run engine (handle env) anyStep s s') : Good (discipline env) engine s' :=
  hgood.run (sessions_obey env) (grants_anyStep (fun _ _ _ => trivial) (fun _ _ _ _ => trivial)) h

/-- **Every interleaving of any requests obeys the discipline.** -/
theorem sessions_good {env : Env} {s : AuthSystem}
    (h : Run engine (handle env) anyStep { world := initialWorld } s) :
    Good (discipline env) engine s :=
  good_run (Good.init (initial_ok env) rfl) h

end Services

end Tradinghub.Auth
