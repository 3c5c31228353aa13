import Tradinghub.Auth.Waiting

/-!
# Out of turn

`takesTurns` asks for no more than it takes: the first step that breaks it can be continued to a
cycle of waits (`out_of_turn_deadlocks`).  The request that gets its row out of turn comes to its
DELETE, the one that holds another row of the family comes to its own, and unless the first holds
the row the second still has to take, it can get there first.
-/

namespace Tradinghub.Auth

open ReadCommitted Store

section Circle

variable {env : Env} {s s' t : AuthSystem} {n m id F : Nat} {c d : AuthConn} {a : AuthAction}

/-- From `s` to `t` only request `n` has moved, and it has committed nothing. -/
structure MovesOnly (env : Env) (s t : AuthSystem) (n : Nat) : Prop where
  run : Run engine (handle env) databaseStep s t
  world : t.world = s.world
  others : ∀ m, m ≠ n → t.conns m = s.conns m

theorem MovesOnly.trans {u : AuthSystem} (h : MovesOnly env s t n) (h' : MovesOnly env t u n) :
    MovesOnly env s u n :=
  ⟨h.run.trans h'.run, h'.world.trans h.world, fun m hm => (h'.others m hm).trans (h.others m hm)⟩

/-- One statement of request `n`. -/
theorem movesOnly_put (hs : step engine (handle env) s a = some (s.put n c))
    (hok : databaseStep s a) : MovesOnly env s (s.put n c) n :=
  ⟨.single hok hs, rfl, fun _ hm => Function.update_of_ne hm ..⟩

theorem put_conn (s : AuthSystem) (n : Nat) (c : AuthConn) : (s.put n c).conns n = some c :=
  Function.update_self ..

/-- The DELETE of request `n` is under way, and it has all the rows of `F` to take. -/
structure Begins (s t : AuthSystem) (n F : Nat) (locks : List Nat) (c : AuthConn) : Prop where
  conn : t.conns n = some c
  prog : ∃ k, c.prog = .scan (.deleteFamily F) ((Stmt.deleteFamily F).rows s.world.db) [] k
  locks : c.tx.locks = locks
  writes : c.tx.writes = []

/-- The beginning of the DELETE. -/
theorem begins_of_exec (hc : s.conns n = some c) {k : Except DbError (List Nat × Sessions) → Program Response}
    (hprog : c.prog = .exec (.deleteFamily F) k) (hws : c.tx.writes = []) :
    ∃ t c', MovesOnly env s t n ∧ Begins s t n F c.tx.locks c' := by
  have hs : step engine (handle env) s (.advance n) = some (s.put n
      { c with
        prog := .scan (.deleteFamily F) ((Stmt.deleteFamily F).rows s.world.db) [] k
        tx := c.tx.begin (.deleteFamily F) ((Stmt.deleteFamily F).rows s.world.db) }) := by
    simp only [step, hc, Option.bind_some, advance, hprog, engine_plan, view_of_writes hws]
  exact ⟨_, _, movesOnly_put hs trivial, put_conn _ _ _, ⟨k, rfl⟩, rfl, hws⟩

/-- A request that has rows to take comes to its DELETE. -/
theorem begins_of_toDelete (h : Run engine (handle env) anyStep { world := initialWorld } s)
    (hc : s.conns n = some c) (hdel : ToDelete s.world.db c F)
    (hnot : ∀ q todo hits k, c.prog = .scan (.deleteFamily q) todo hits k → False) :
    ∃ t c', MovesOnly env s t n ∧ Begins s t n F c.tx.locks c' := by
  have hplace := (standing h n c hc).place
  cases hdel with
  | deleting hprog => exact (hnot _ _ _ _ hprog).elim
  | revoking hprog =>
    rw [hprog] at hplace
    have hws : c.tx.writes = [] := by
      generalize c.req = req at hplace
      cases hplace with
      | revoking _ _ hws => exact hws
      | rotating _ _ hp => exact hp.1.elim
      | ended hend => cases hend
    exact begins_of_exec hc hprog hws
  | @holding _ todo hits k id row hprog hid hrow hF hrev =>
    rw [hprog] at hplace
    generalize hreq : c.req = req at hplace hrev
    cases hplace with
    | rotating _ _ hp => exact hp.elim
    | updating _ _ hq => exact hq.elim
    | ended hend => cases hend
    | locking hk hone _ _ hws =>
      -- the row it holds is the one it found
      have hpos := List.length_pos_of_mem hid
      obtain rfl : todo = [] := List.length_eq_zero_iff.1 (by omega)
      obtain ⟨i, rfl⟩ : ∃ i, hits = [i] := List.length_eq_one_iff.1 (by omega)
      obtain rfl := List.mem_singleton.1 hid
      have hfound := hk [id] s.world.db
      rw [List.head?_cons, Option.bind_some, hrow] at hfound
      generalize hnext : k (.ok ([id], s.world.db)) = p at hfound
      cases hfound with
      | rotate hno =>
        rw [hno] at hrev
        cases hrev
      | @revoke _ k' _ _ =>
        subst hF
        let c₁ : AuthConn :=
          { c with prog := .exec (.deleteFamily row.familyId) k', tx := c.tx.write [] }
        have hs : step engine (handle env) s (.advance n) = some (s.put n c₁) := by
          simp only [step, hc, Option.bind_some, advance, hprog, engine_finish, Stmt.finish,
            view_write_nil hws, hnext, c₁]
        have hnone : c₁.tx.writes = [] := by
          show (c.tx.write []).writes = []
          rw [Tx.write_writes, hws]
          rfl
        obtain ⟨t, c', hmoves, hbegins⟩ :
            ∃ t c', MovesOnly env (s.put n c₁) t n ∧
              Begins (s.put n c₁) t n row.familyId c₁.tx.locks c' :=
          begins_of_exec (put_conn s n c₁) rfl hnone
        exact ⟨t, c', (movesOnly_put hs trivial).trans hmoves, hbegins.conn, hbegins.prog,
          hbegins.locks, hbegins.writes⟩

/-- A row that somebody else holds can come free: its holder's client goes away. -/
theorem exists_free (h : Run engine (handle env) anyStep { world := initialWorld } s) (n id : Nat) :
    ∃ t, Run engine (handle env) databaseStep s t ∧ t.world.db = s.world.db ∧
      t.free n id = true ∧ ∀ m c, s.conns m = some c → (m = n ∨ id ∉ c.tx.locks) →
        t.conns m = some c := by
  have hgood := sessions_good h
  rcases Sys.free_or_held hgood.bound n id with hfree | ⟨p, e, hpn, he, hheld⟩
  · exact ⟨s, .refl s, rfl, hfree, fun m c hc _ => hc⟩
  · have hs : step engine (handle env) s (.abort p .cancelled) =
        some (s.close p e.req (.error .cancelled) s.world.db) := by
      simp only [step, he, Option.map_some]
    have hkeep : ∀ m, m ≠ p →
        (s.close p e.req (.error .cancelled) s.world.db).conns m = s.conns m :=
      fun m hm => Function.update_of_ne hm ..
    have hclosed : (s.close p e.req (.error .cancelled) s.world.db).conns p = none :=
      Function.update_self ..
    have hok : databaseStep s (.abort p .cancelled) := Or.inl rfl
    refine ⟨_, .single hok hs, rfl, ?_, fun m c hc hor => ?_⟩
    · have hgood' := sessions_good (h.trans (.single trivial hs))
      rcases Sys.free_or_held hgood'.bound n id with hfree | ⟨q, e', -, he', hheld'⟩
      · exact hfree
      · -- nobody else holds it
        have hqp : q ≠ p := by
          rintro rfl
          rw [hclosed] at he'
          cases he'
        rw [hkeep q hqp] at he'
        exact absurd hheld' (hgood.disjoint p q e e' (Ne.symm hqp) he he' hheld)
    · have hmp : m ≠ p := by
        rintro rfl
        obtain rfl := Option.some.inj (hc.symm.trans he)
        rcases hor with rfl | hnot
        · exact hpn rfl
        · exact hnot hheld
      rw [hkeep m hmp]
      exact hc

/-- Two requests delete one family, and each holds a row that the other has to take, or can come
to hold it. -/
theorem circle (h : Run engine (handle env) anyStep { world := initialWorld } s) (hnm : n ≠ m)
    {todo todo' hits' : List Nat} {k k' : Except DbError (List Nat × Sessions) → Program Response}
    {x y : Nat} {row : Session} (hc : s.conns n = some c)
    (hn : c.prog = .scan (.deleteFamily F) todo [] k) (hws : c.tx.writes = [])
    (hd : s.conns m = some d) (hm : d.prog = .scan (.deleteFamily F) todo' hits' k')
    (hx : x ∈ todo') (hxd : x ∉ d.tx.locks) (hxn : x ∈ todo)
    (hrow : s.world.db.find? x = some row) (hF : row.familyId = F)
    (hy : y ∈ d.tx.locks) (hyn : y ∈ todo) :
    ∃ t, Run engine (handle env) databaseStep s t ∧ t.Deadlocked n := by
  by_cases hxc : x ∈ c.tx.locks
  · have hmn : s.waits m n = true :=
      Sys.waits_iff.2 ⟨Ne.symm hnm, d, c, hd, hc, x, by rw [hm]; exact hx, hxc⟩
    have hnmw : s.waits n m = true :=
      Sys.waits_iff.2 ⟨hnm, c, d, hc, hd, y, by rw [hn]; exact hyn, hy⟩
    exact ⟨s, .refl s, Sys.deadlocked_of_waits hnmw hmn⟩
  · obtain ⟨t, hst, hdb, hfree, hkeep⟩ := exists_free h n x
    have hct := hkeep n c hc (Or.inl rfl)
    have hdt := hkeep m d hd (Or.inr hxd)
    -- request `n` takes the row first
    let c₁ : AuthConn :=
      { c with prog := .scan (.deleteFamily F) (todo.erase x) ([] ++ [x]) k
               tx := c.tx.hold x [.delete row.id] }
    have hact : engine.act (.deleteFamily F) x t.world.db = some [.delete row.id] := by
      rw [hdb]
      simp [Stmt.act, hrow, Stmt.matches, hF, Stmt.writes]
    have hcan : x ∈ todo ∧ t.free n x = true := ⟨hxn, hfree⟩
    have hs : step engine (handle env) t (.lock n x) = some (t.put n c₁) := by
      simp only [step, hct, Option.bind_some, lockRow, hn, if_pos hcan, view_of_writes hws, hact, c₁]
    have hyx : y ≠ x := by
      rintro rfl
      exact hxd hy
    have hput : (t.put n c₁).conns m = some d := (Function.update_of_ne (Ne.symm hnm) ..).trans hdt
    have hmn : (t.put n c₁).waits m n = true :=
      Sys.waits_iff.2 ⟨Ne.symm hnm, d, c₁, hput, put_conn t n c₁, x, by rw [hm]; exact hx,
        List.mem_cons_self⟩
    have hnmw : (t.put n c₁).waits n m = true :=
      Sys.waits_iff.2 ⟨hnm, c₁, d, put_conn t n c₁, hput, y, (List.mem_erase_of_ne hyx).2 hyn, hy⟩
    have hok : databaseStep t (.lock n x) := trivial
    exact ⟨_, .tail hst hok hs, Sys.deadlocked_of_waits hnmw hmn⟩

/-- Who has rows of a family to take holds one of it. -/
theorem ToDelete.holds (hdel : ToDelete s.world.db c F) (hc : Standing env s.world c) :
    ∃ row ∈ s.world.db, row.familyId = F ∧ row.id ∈ c.tx.locks := by
  obtain ⟨-, hplace⟩ := hc
  obtain ⟨req, prog, tx⟩ := c
  have hall : AreOf s.world.db F tx.locks → tx.locks ≠ [] →
      ∃ row ∈ s.world.db, row.familyId = F ∧ row.id ∈ tx.locks := by
    intro hall hne
    obtain ⟨i, hi⟩ := List.exists_mem_of_ne_nil _ hne
    obtain ⟨row, hrow, rfl, hF⟩ := hall i hi
    exact ⟨row, hrow, hF, hi⟩
  cases hdel with
  | @holding _ _ _ _ i row hprog hi hrow hF _ =>
    obtain rfl : prog = _ := hprog
    obtain ⟨hmem, hkey⟩ := Table.find?_eq_some.1 hrow
    cases hplace with
    | locking _ _ _ hlocks =>
      refine ⟨row, hmem, hF, ?_⟩
      show row.id ∈ tx.locks
      rw [hlocks, show row.id = i from hkey]
      exact hi
    | rotating _ _ hp => exact hp.elim
    | updating _ _ hq => exact hq.elim
    | ended hend => cases hend
  | revoking hprog =>
    obtain rfl : prog = _ := hprog
    cases hplace with
    | revoking hheld hne => exact hall hheld hne
    | rotating _ _ hp => exact hp.1.elim
    | ended hend => cases hend
  | deleting hprog =>
    obtain rfl : prog = _ := hprog
    cases hplace with
    | deleting hheld hne => exact hall hheld hne
    | rotating _ _ hp => exact hp.elim
    | updating _ _ hq => exact hq.elim
    | ended hend => cases hend

/-- What a step out of turn is. -/
theorem out_of_turn (hb : ∀ m d, s.conns m = some d → m < s.world.started)
    (ha : takesTurns s a = false) : ∃ n id c row m d, a = .lock n id ∧ s.conns n = some c ∧
      looksUp c.prog = true ∧ s.world.db.find? id = some row ∧ c.req.revokes row = true ∧ m ≠ n ∧
      s.conns m = some d ∧ ToDelete s.world.db d row.familyId := by
  cases a with
  | lock n id =>
    by_contra hno
    have htrue : takesTurns s (.lock n id) = true := by
      simp only [takesTurns, Option.all_eq_true, Bool.or_eq_true, Bool.not_eq_true']
      intro c hc
      refine or_iff_not_imp_left.2 fun hlooks row hrow => or_iff_not_imp_left.2 fun hrev => ?_
      refine (othersDone_iff hb).2 fun m d hm hd hdel => hno ?_
      exact ⟨n, id, c, row, m, d, rfl, hc, by simpa using hlooks, hrow, by simpa using hrev, hm, hd,
        hdel⟩
    rw [htrue] at ha
    cases ha
  | _ => cases ha

/-- By a step out of turn a request holds its token's row, and so has the rest of the family to
take. -/
theorem holds_of_lock (h : Run engine (handle env) anyStep { world := initialWorld } s) {row : Session}
    (hc : s.conns n = some c) (hlooks : looksUp c.prog = true)
    (hrow : s.world.db.find? id = some row) (hrev : c.req.revokes row = true)
    (hs : step engine (handle env) s (.lock n id) = some s') :
    s.free n id = true ∧ ∃ c', s' = s.put n c' ∧ ToDelete s.world.db c' row.familyId ∧
      id ∈ c'.tx.locks ∧ looksUp c'.prog = true := by
  obtain ⟨hmem, hkey⟩ := Table.find?_eq_some.1 hrow
  have hplace := (standing h n c hc).place
  cases step_move hs with
  | @own m d _ c' hd hown _ =>
    obtain rfl : m = n := by cases hown <;> rfl
    obtain rfl := Option.some.inj (hc.symm.trans hd)
    obtain ⟨req, prog, tx⟩ := c
    change Place env s.world req prog tx at hplace
    cases hplace with
    | @locking tok todo hits k _ hk hone hnames hlocks hws =>
      cases hown with
      | @skip _ _ _ _ _ hprog hin hfree hact =>
        cases hprog
        -- its hash is the one looked for
        rw [view_of_writes hws] at hact
        have hash := (sessions_good h).inv.hash_of_names hmem (hkey ▸ hnames id hin)
        have hfalse := act_eq_none hact row hmem hkey
        simp [Stmt.matches, hash] at hfalse
      | @take _ _ _ _ _ ws hprog hin hfree hact =>
        cases hprog
        refine ⟨hfree, _, rfl, .holding rfl (List.mem_append_right _ List.mem_cons_self) hrow rfl hrev,
          List.mem_cons_self, rfl⟩
    | asked => cases hlooks
    | revoking => cases hlooks
    | deleting => cases hlooks
    | rotating _ _ hp =>
      cases prog with
      | scan => exact hp.elim
      | _ => cases hlooks
    | @updating q _ _ _ _ _ _ hq =>
      cases q with
      | lockByTokenHash => exact hq.elim
      | _ => cases hlooks
    | ended hend => cases hend with | _ => cases hlooks

/-- **The condition is exact.**  From a run in turn, any step out of turn leads to a cycle of
waits, by steps that the database allows. -/
theorem out_of_turn_deadlocks (h : InTurn env s) (ha : takesTurns s a = false)
    (hs : step engine (handle env) s a = some s') :
    ∃ t n, Run engine (handle env) databaseStep s' t ∧ t.Deadlocked n := by
  obtain ⟨n, id, c, row, m, d, rfl, hc, hlooks, hrow, hrev, hmn, hd, hdel⟩ :=
    out_of_turn (sessions_good h.any).bound ha
  obtain ⟨hfree, c', rfl, hdelc, hid, hlooks'⟩ := holds_of_lock h.any hc hlooks hrow hrev hs
  obtain ⟨hmem, hkey⟩ := Table.find?_eq_some.1 hrow
  have hs' : Run engine (handle env) anyStep { world := initialWorld } (s.put n c') :=
    h.any.trans (.single trivial hs)
  have hd' : (s.put n c').conns m = some d := (Function.update_of_ne hmn ..).trans hd
  have hidd : id ∉ d.tx.locks := (free_iff s (sessions_good h.any).bound n id).1 hfree m d hmn hd
  obtain ⟨y, hy, hyF, hyd⟩ := hdel.holds (standing h.any m d hd)
  -- the one who got the row comes to its DELETE, and has all rows of the family to take
  obtain ⟨t, c₁, hmoves, hbegins⟩ := begins_of_toDelete hs' (put_conn s n c') hdelc
    (fun q todo hits k hprog => by rw [hprog] at hlooks'; cases hlooks')
  have hw : t.world = s.world := hmoves.world
  have hrt := hs'.trans (hmoves.run.mono fun _ _ _ => trivial)
  have hdt : t.conns m = some d := (hmoves.others m hmn).trans hd'
  obtain ⟨k, hprog⟩ := hbegins.prog
  have hrows : ∀ r ∈ s.world.db, r.familyId = row.familyId →
      r.id ∈ (Stmt.deleteFamily row.familyId).rows s.world.db :=
    fun r hr hF => mem_rows.2 ⟨r, hr, decide_eq_true hF, rfl⟩
  by_cases hscan : ∃ q todo hits k, d.prog = .scan (.deleteFamily q) todo hits k
  · -- so is the other, or its DELETE is under way
    cases hdel with
    | holding hp | revoking hp =>
      obtain ⟨_, _, _, _, hscan⟩ := hscan
      rw [hp] at hscan
      cases hscan
    | @deleting todo' hits' k' x rowx hp hx hxd hxrow =>
      obtain ⟨hxmem, hxkey⟩ := Table.find?_eq_some.1 hxrow
      have hin : rowx.id ∈ todo' := by
        rw [show rowx.id = x from hxkey]
        exact hx
      have hxF : rowx.familyId = row.familyId :=
        (standing h.any m d hd).family_of_todo hp hxmem hin
      have hxn : x ∈ (Stmt.deleteFamily row.familyId).rows s.world.db := by
        rw [← show rowx.id = x from hxkey]
        exact hrows rowx hxmem hxF
      obtain ⟨u, htu, hdead⟩ := circle hrt (Ne.symm hmn) hbegins.conn hprog hbegins.writes hdt hp hx
        hxd hxn (by rw [hw]; exact hxrow) hxF hyd (hrows y hy hyF)
      exact ⟨u, n, hmoves.run.trans htu, hdead⟩
  · obtain ⟨u, d₁, hmoves', hbegins'⟩ := begins_of_toDelete hrt hdt (by rw [hw]; exact hdel)
      (fun q todo hits k hp => hscan ⟨q, todo, hits, k, hp⟩)
    have hwu : u.world = s.world := hmoves'.world.trans hw
    have hru := hrt.trans (hmoves'.run.mono fun _ _ _ => trivial)
    have hcu : u.conns n = some c₁ := (hmoves'.others n (Ne.symm hmn)).trans hbegins.conn
    obtain ⟨k', hprog'⟩ := hbegins'.prog
    rw [hw] at hprog'
    have hidn : id ∈ (Stmt.deleteFamily row.familyId).rows s.world.db := by
      rw [← show row.id = id from hkey]
      exact hrows row hmem rfl
    obtain ⟨v, huv, hdead⟩ := circle hru (Ne.symm hmn) hcu hprog hbegins.writes hbegins'.conn hprog'
      hidn (by rw [hbegins'.locks]; exact hidd) hidn (by rw [hwu]; exact hrow) rfl
      (by rw [hbegins'.locks]; exact hyd) (hrows y hy hyF)
    exact ⟨v, n, (hmoves.run.trans hmoves'.run).trans huv, hdead⟩

end Circle

/-- One logout has its own row and all of the family to delete, the other asks for its own. -/
def beforeOvertaking : List AuthAction :=
  rotatedOnce ++ [.start (.logoutUser ""), .start (.logoutUser "a")] ++ lockSteps 2 0 ++ [.advance 3]

theorem overtaking_deadlocks : ∃ s s' t : AuthSystem, ∃ n,
    runList engine (handle .unary) { world := initialWorld } beforeOvertaking = some s ∧
    InTurn .unary s ∧
    step engine (handle .unary) s (.lock 3 1) = some s' ∧
    Run engine (handle .unary) databaseStep s' t ∧ t.Deadlocked n := by
  have hok : allowed engine (handle .unary) (fun t a => !a.isAbort && takesTurns t a)
      { world := initialWorld } beforeOvertaking = true := by
    decide +kernel
  have hrun : (runList engine (handle .unary) { world := initialWorld } beforeOvertaking).any
      (fun s => !takesTurns s (.lock 3 1) &&
        (step engine (handle .unary) s (.lock 3 1)).isSome) = true := by
    decide +kernel
  obtain ⟨s, hlist, hs, hp⟩ := exists_allowed hok hrun
  obtain ⟨hturn, hstep⟩ := Bool.and_eq_true_iff.1 hp
  rw [Bool.not_eq_true'] at hturn
  obtain ⟨s', hs'⟩ := Option.isSome_iff_exists.1 hstep
  have hinturn : InTurn .unary s := by
    refine hs.mono fun t a ha => ?_
    obtain ⟨habort, hturn⟩ := Bool.and_eq_true_iff.1 ha
    refine ⟨?_, hturn⟩
    cases a with
    | abort => cases habort
    | _ => trivial
  obtain ⟨t, n, hrun', hdead⟩ := out_of_turn_deadlocks hinturn hturn hs'
  exact ⟨s, s', t, n, hlist, hinturn, hs', hrun', hdead⟩

end Tradinghub.Auth
