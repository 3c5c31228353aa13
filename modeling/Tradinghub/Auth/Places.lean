import Tradinghub.Auth.Rotation
import Tradinghub.Auth.Spending

/-!
# Where a session request is

A request looks for its token's row and locks it.  Then it takes the rest of the family to delete
it, or rotates the one row it holds: `Place` lists where an open request can be, with the rows it
holds and the rows it has picked, and `standing` is the result for every interleaving.  Every row
that is held is there, and a logout that ends has its answer.
-/

namespace Tradinghub.Auth

open ReadCommitted Store

abbrev AuthConn := Conn Sessions Nat Write Stmt DbError Failure Response Request

/-- The request gives up the family of the row it finds. -/
def Request.revokes : Request → Session → Bool
  | .startSession _, _ => false
  | .refreshSession _, row => row.usedAt.isSome
  | .logoutUser _, _ => true

/-! ## Where a request is -/

/-- The statements of a rotation: they take the request's own row and no other. -/
def Stmt.Rotates (mine : Nat → Prop) : Stmt → Prop
  | .updateUsedAt id _ => mine id
  | .insert _ => True
  | _ => False

/-- All rows are taken, and a logout has its answer. -/
inductive Ended : Request → Program Response → Prop
  | logout (tok : String) : Ended (.logoutUser tok) (.ret .done)
  | raise (tok : String) (e : Failure) : Ended (.refreshSession tok) (.raise e)
  | commit (tok : String) (e : Failure) : Ended (.refreshSession tok) (.commit (.raise e))

/-- What a request does with the row it found. -/
inductive Found (req : Request) : Option Session → Program Response → Prop
  | ended {p} (h : Ended req p) : Found req none p
  | revoke {row k} (h : req.revokes row = true) (hk : ∀ r, Ended req (k (.ok r))) :
      Found req (some row) (.exec (.deleteFamily row.familyId) k)
  | rotate {row p} (h : req.revokes row = false)
      (hp : p.Sends (Stmt.Rotates fun id => id = row.id)) : Found req (some row) p

/-- The rows with these ids are there, and are of the family. -/
def AreOf (db : Sessions) (F : Nat) (ids : List Nat) : Prop :=
  ∀ id ∈ ids, ∃ row ∈ db, row.id = id ∧ row.familyId = F

/-- The ids were drawn, and those of them that are still there are of the family. -/
structure Picked (env : Env) (w : AuthWorld) (F : Nat) (ids : List Nat) : Prop where
  drawn : ∀ id ∈ ids, ∃ k, Answered w.log k ∧ id = env.sessionId k
  family : ∀ G, G ≠ F → OnlyOf G ids [] w.db

/-- Where an open request is, and what it holds. -/
inductive Place (env : Env) (w : AuthWorld) (req : Request) :
    Program Response → Tx Nat Write Stmt → Prop
  | asked {tok k} (hk : ∀ hits v, Found req (hits.head?.bind v.find?) (k (.ok (hits, v)))) :
      Place env w req (.exec (.lockByTokenHash (env.hashRefreshToken tok)) k) {}
  | locking {tok todo hits k tx}
      (hk : ∀ hits v, Found req (hits.head?.bind v.find?) (k (.ok (hits, v))))
      (hone : todo.length + hits.length ≤ 1) (hnames : ∀ id ∈ todo, Names env tok id)
      (hlocks : tx.locks = hits) (hws : tx.writes = []) :
      Place env w req (.scan (.lockByTokenHash (env.hashRefreshToken tok)) todo hits k) tx
  | revoking {F k tx} (hheld : AreOf w.db F tx.locks) (hne : tx.locks ≠ []) (hws : tx.writes = [])
      (hk : ∀ r, Ended req (k (.ok r))) : Place env w req (.exec (.deleteFamily F) k) tx
  | deleting {F todo hits k tx} (hheld : AreOf w.db F tx.locks) (hne : tx.locks ≠ [])
      (hws : tx.writes = hits.map .delete) (htodo : Picked env w F todo)
      (hk : ∀ r, Ended req (k (.ok r))) : Place env w req (.scan (.deleteFamily F) todo hits k) tx
  | rotating {p tx} (mine : Nat → Prop) (hnot : ∀ tok, req ≠ .logoutUser tok)
      (hp : p.Sends (Stmt.Rotates mine)) (hmine : ∀ id, mine id → id ∈ tx.locks) :
      Place env w req p tx
  | updating {q todo hits k tx} (mine : Nat → Prop) (hnot : ∀ tok, req ≠ .logoutUser tok)
      (hq : q.Rotates mine) (hk : ∀ r, (k r).Sends (Stmt.Rotates mine))
      (htodo : ∀ id ∈ todo, mine id) (hmine : ∀ id, mine id → id ∈ tx.locks) :
      Place env w req (.scan q todo hits k) tx
  | ended {p tx} (h : Ended req p) : Place env w req p tx

/-- Every row an open request holds is there. -/
structure Standing (env : Env) (w : AuthWorld) (c : AuthConn) : Prop where
  held : ∀ id ∈ c.tx.locks, ∃ row ∈ w.db, row.id = id
  place : Place env w c.req c.prog c.tx

/-! ## The services -/

section Services

variable {env : Env} {n : Nat}

/-- What a logout does with the row it found. -/
def logoutFound : Option Session → Program Response
  | none => .ret .done
  | some s => revokeFamily s.familyId >>= fun _ => .ret .done

theorem handle_logoutUser (tok : String) :
    handle env n (.logoutUser tok) =
      lockSessionByTokenHash (env.hashRefreshToken tok) >>= logoutFound := by
  rw [handle, logoutUser, Prog.bind_assoc]
  refine congrArg _ (funext fun found => ?_)
  cases found <;> rfl

theorem found_logout (tok : String) (found : Option Session) :
    Found (.logoutUser tok) found (logoutFound found) := by
  cases found with
  | none => exact .ended (.logout tok)
  | some s => exact .revoke rfl fun r => .logout tok

theorem found_refresh (tok : String) (found : Option Session) :
    Found (.refreshSession tok) found (answerFound env n found) := by
  cases found with
  | none => exact .ended (.raise tok _)
  | some s =>
    by_cases hu : s.usedAt = none
    · refine .rotate (by simp [Request.revokes, hu]) ?_
      have hsends : (refreshFound env n (some s)).Sends (Stmt.Rotates fun id => id = s.id) :=
        refreshFound_sends hu (fun _ => rfl) fun _ _ => trivial
      exact hsends.bind fun _ => trivial
    · have hused : s.usedAt.isSome = true := Option.isSome_iff_ne_none.2 hu
      simp only [answerFound, refreshFound, hused, if_true]
      exact .revoke hused fun r => .commit tok _

/-- A request that has just begun holds nothing. -/
theorem standing_start (w : AuthWorld) (req : Request) :
    Standing env w ⟨req, handle env n req, {}⟩ := by
  refine ⟨fun id hid => absurd hid List.not_mem_nil, ?_⟩
  cases req with
  | startSession userId =>
    refine .rotating (fun _ => False) (fun tok h => by cases h) ?_ fun id h => h.elim
    have hsends : (startSession env n userId).Sends (Stmt.Rotates fun _ => False) :=
      issueTokenPair_sends (fun _ _ h => by cases h) fun _ _ => trivial
    exact hsends.bind fun _ => trivial
  | refreshSession tok =>
    show Place env w _ (handle env n (.refreshSession tok)) _
    rw [handle_refreshSession]
    exact .asked fun _ _ => found_refresh tok _
  | logoutUser tok =>
    show Place env w _ (handle env n (.logoutUser tok)) _
    rw [handle_logoutUser]
    exact .asked fun _ _ => found_logout tok _

end Services

/-! ## One step -/

section Steps

variable {env : Env} {w w' : AuthWorld} {s s' : AuthSystem} {n : Nat} {c c' : AuthConn}
  {a : AuthAction} {F : Nat}

theorem Picked.erase {ids : List Nat} (h : Picked env w F ids) (id : Nat) :
    Picked env w F (ids.erase id) where
  drawn i hi := h.drawn i (List.mem_of_mem_erase hi)
  family G hG row hrow hF hi := h.family G hG row hrow hF (List.mem_of_mem_erase hi)

/-- The rows a DELETE picks. -/
theorem picked_rows (hinv : SessionsOk env w) (F : Nat) :
    Picked env w F ((Stmt.deleteFamily F).rows w.db) where
  drawn id hid := by
    obtain ⟨row, hrow, -, rfl⟩ := mem_rows.1 hid
    obtain ⟨k, hk⟩ := hinv.issued row hrow
    exact ⟨k, hk.answered, hk.id⟩
  family G hG row hrow hF hid := by
    obtain ⟨row', hrow', hmatch, hid'⟩ := mem_rows.1 hid
    obtain rfl := w.db.eq_of_key hrow' hrow hid'
    exact absurd (hF.symm.trans (of_decide_eq_true hmatch)) hG

/-- A token's hash finds one row at most. -/
theorem length_lockRows (hinv : SessionsOk env w) (h : String) :
    ((Stmt.lockByTokenHash h).rows w.db).length ≤ 1 := by
  have hunique : ∀ r ∈ w.db, ∀ r' ∈ w.db, (Stmt.lockByTokenHash h).matches r = true →
      (Stmt.lockByTokenHash h).matches r' = true → r = r' := by
    intro r hr r' hr' hm hm'
    exact hinv.eq_of_hash hr hr' ((of_decide_eq_true hm).trans (of_decide_eq_true hm').symm)
  rcases rows_of_unique hunique with hrows | ⟨id, hrows⟩
  · rw [hrows]
    exact Nat.zero_le 1
  · rw [hrows]
    exact Nat.le_refl 1

/-- The rows that a statement of a rotation picks are the request's own. -/
theorem rows_rotates {mine : Nat → Prop} {q : Stmt} (hq : q.Rotates mine) (db : Sessions) :
    ∀ id ∈ q.rows db, mine id := by
  intro id hid
  obtain ⟨row, hrow, hmatch, rfl⟩ := mem_rows.1 hid
  cases q with
  | updateUsedAt id t =>
    have hid' : row.id = id := of_decide_eq_true hmatch
    rw [hid']
    exact hq
  | insert row' => cases hmatch
  | lockByTokenHash h => exact hq.elim
  | deleteFamily F => exact hq.elim

/-- The row that was found decides where the request goes on. -/
theorem place_found {req : Request} {p : Program Response} {hits : List Nat}
    {tx : Tx Nat Write Stmt} (hone : hits.length ≤ 1) (hlocks : tx.locks = hits)
    (hws : tx.writes = []) (h : Found req (hits.head?.bind w.db.find?) p) :
    Place env w req p tx := by
  have hfound : ∀ row, hits.head?.bind w.db.find? = some row → row ∈ w.db ∧ tx.locks = [row.id] := by
    intro row hrow
    obtain ⟨id, hid, hfind⟩ := Option.bind_eq_some_iff.1 hrow
    obtain ⟨hmem, hkey⟩ := Table.find?_eq_some.1 hfind
    refine ⟨hmem, ?_⟩
    cases hits with
    | nil => cases hid
    | cons i rest =>
      obtain rfl : i = id := Option.some.inj hid
      have hrest : rest = [] := by simpa using hone
      rw [hlocks, hrest]
      exact congrArg (fun i => [i]) hkey.symm
  generalize hf : hits.head?.bind w.db.find? = found at h
  cases h with
  | ended h => exact .ended h
  | @revoke row k hrev hk =>
    obtain ⟨hmem, hl⟩ := hfound row hf
    refine .revoking (fun id hid => ?_) (by simp [hl]) hws hk
    rw [hl] at hid
    obtain rfl := List.mem_singleton.1 hid
    exact ⟨row, hmem, rfl, rfl⟩
  | @rotate row p hrev hp =>
    obtain ⟨-, hl⟩ := hfound row hf
    refine .rotating (fun id => id = row.id) (fun tok hreq => ?_) hp fun id hid => ?_
    · rw [hreq] at hrev
      cases hrev
    · rw [hl, hid]
      exact List.mem_singleton.2 rfl

/-- **One step of the request's own.** -/
theorem standing_own (h : Own engine s n c a c') (hinv : SessionsOk env s.world)
    (hc : Standing env s.world c) : Standing env s.world c' := by
  obtain ⟨hheld, hplace⟩ := hc
  obtain ⟨req, prog, tx⟩ := c
  change ∀ id ∈ tx.locks, ∃ row ∈ s.world.db, row.id = id at hheld
  change Place env s.world req prog tx at hplace
  cases hplace with
  | asked hk =>
    cases h with
    | exec hprog =>
      cases hprog
      refine ⟨hheld, .locking hk (length_lockRows hinv _) (fun id hid => ?_) rfl rfl⟩
      obtain ⟨row, hrow, hmatch, rfl⟩ := mem_rows.1 hid
      obtain ⟨j, hj⟩ := hinv.issued row hrow
      exact ⟨j, hj.id, (of_decide_eq_true hmatch).symm.trans hj.hash⟩
    | _ hprog => cases hprog
  | @locking tok todo hits k _ hk hone hnames hlocks hws =>
    have hrest : ∀ key, ∀ id ∈ todo.erase key, Names env tok id :=
      fun key id hid => hnames id (List.mem_of_mem_erase hid)
    cases h with
    | refused hprog hfinish =>
      cases hprog
      cases hfinish
    | done hprog hfinish =>
      cases hprog
      cases hfinish
      have hlen : hits.length ≤ 1 := by simpa using hone
      have hnone : (tx.write []).writes = [] := by rw [Tx.write_writes, hws]; rfl
      rw [view_write_nil hws]
      exact ⟨hheld, place_found hlen hlocks hnone (hk hits s.world.db)⟩
    | @skip q todo' hits' k' key hprog hkey hfree hact =>
      cases hprog
      refine ⟨hheld, .locking hk ?_ (hrest key) hlocks hws⟩
      have hle := (List.erase_sublist (a := key) (l := todo)).length_le
      omega
    | @take q todo' hits' k' key ws' hprog hkey hfree hact =>
      cases hprog
      rw [view_of_writes hws] at hact
      obtain ⟨row, hrow, rfl, -, rfl⟩ := act_eq_some hact
      have hpos := List.length_pos_of_mem hkey
      have hnil : hits = [] := List.length_eq_zero_iff.1 (by omega)
      subst hnil
      refine ⟨fun id hid => ?_, .locking hk ?_ (hrest _) ?_ ?_⟩
      · rcases List.mem_cons.1 hid with rfl | hid
        · exact ⟨row, hrow, rfl⟩
        · exact hheld id hid
      · rw [List.length_erase_of_mem hkey]
        simp at hone ⊢
        omega
      · rw [Tx.hold_locks, hlocks]
        rfl
      · rw [Tx.hold_writes, hws]
        rfl
    | _ hprog => cases hprog
  | @revoking F k _ hall hne hws hk =>
    cases h with
    | exec hprog =>
      cases hprog
      refine ⟨hheld, .deleting hall hne hws ?_ hk⟩
      rw [view_of_writes hws]
      exact picked_rows hinv F
    | _ hprog => cases hprog
  | @deleting F todo hits k _ hall hne hws hpicked hk =>
    cases h with
    | refused hprog hfinish =>
      cases hprog
      cases hfinish
    | done hprog hfinish =>
      cases hprog
      exact ⟨hheld, .ended (hk _)⟩
    | skip hprog =>
      cases hprog
      exact ⟨hheld, .deleting hall hne hws (hpicked.erase _) hk⟩
    | @take q todo' hits' k' key ws' hprog hkey hfree hact =>
      cases hprog
      obtain ⟨row, hrow, rfl, hmatch, rfl⟩ := act_eq_some hact
      have hview : engine.view tx s.world.db = engine.applyAll (hits.map .delete) s.world.db := by
        rw [Engine.view, hws]
      rw [hview, mem_deletes] at hrow
      have hF : row.familyId = F := of_decide_eq_true hmatch
      have hwrites : (tx.hold row.id (Stmt.writes (.deleteFamily F) row)).writes =
          (hits ++ [row.id]).map .delete := by
        rw [Tx.hold_writes, hws, List.map_append]
        rfl
      refine ⟨fun id hid => ?_, .deleting (fun id hid => ?_) (List.cons_ne_nil _ _) hwrites
        (hpicked.erase _) hk⟩
      · rcases List.mem_cons.1 hid with rfl | hid
        · exact ⟨row, hrow.1, rfl⟩
        · exact hheld id hid
      · rcases List.mem_cons.1 hid with rfl | hid
        · exact ⟨row, hrow.1, rfl, hF⟩
        · exact hall id hid
    | _ hprog => cases hprog
  | rotating mine hnot hp hmine =>
    cases h with
    | query hprog | clock hprog =>
      obtain rfl : prog = _ := hprog
      exact ⟨hheld, .rotating mine hnot (hp _) hmine⟩
    | exec hprog =>
      obtain rfl : prog = _ := hprog
      exact ⟨hheld, .updating mine hnot hp.1 hp.2 (rows_rotates hp.1 _) hmine⟩
    | refused hprog | done hprog | commit hprog | skip hprog | take hprog =>
      obtain rfl : prog = _ := hprog
      exact hp.elim
  | updating mine hnot hq hk htodo hmine =>
    cases h with
    | refused hprog | done hprog =>
      cases hprog
      exact ⟨hheld, .rotating mine hnot (hk _) hmine⟩
    | skip hprog =>
      cases hprog
      exact ⟨hheld, .updating mine hnot hq hk
        (fun id hid => htodo id (List.mem_of_mem_erase hid)) hmine⟩
    | @take q todo' hits' k' key ws' hprog hkey hfree hact =>
      cases hprog
      refine ⟨fun id hid => ?_, .updating mine hnot hq hk
        (fun id hid => htodo id (List.mem_of_mem_erase hid))
        fun id hid => List.mem_cons_of_mem _ (hmine id hid)⟩
      -- the row taken is one the request holds
      rcases List.mem_cons.1 hid with rfl | hid
      · exact hheld _ (hmine _ (htodo _ hkey))
      · exact hheld id hid
    | _ hprog => cases hprog
  | ended hend =>
    cases hend with
    | logout tok => cases h with | _ hprog => cases hprog
    | raise tok e => cases h with | _ hprog => cases hprog
    | commit tok e =>
      cases h with
      | commit hprog =>
        cases hprog
        exact ⟨fun id hid => absurd hid List.not_mem_nil, .ended (.raise tok e)⟩
      | _ hprog => cases hprog

theorem Place.commit {req : Request} {k : Program Response} {tx : Tx Nat Write Stmt}
    (h : Place env w req (.commit k) tx) : ∃ tok e, req = .refreshSession tok ∧ k = .raise e := by
  cases h with
  | rotating _ _ hp => exact hp.elim
  | ended h =>
    cases h with
    | commit tok e => exact ⟨tok, e, rfl, rfl⟩

theorem Picked.stable {tx : Tx Nat Write Stmt} {ids : List Nat} (h : Picked env w F ids)
    (hr : Rely (discipline env) n tx w w') : Picked env w' F ids where
  drawn id hid := by
    obtain ⟨k, hk, hkid⟩ := h.drawn id hid
    exact ⟨k, hk.mono hr.log_mono, hkid⟩
  family G hG := OnlyOf.stable hr h.drawn (h.family G hG)

/-- What is known of a request stays so, whatever the others do. -/
theorem Standing.stable (h : Standing env w c) (hr : Rely (discipline env) n c.tx w w') :
    Standing env w' c := by
  obtain ⟨hheld, hplace⟩ := h
  obtain ⟨req, prog, tx⟩ := c
  change Rely (discipline env) n tx w w' at hr
  have keep : ∀ row ∈ w.db, row.id ∈ tx.locks → row ∈ w'.db :=
    fun row hrow hid => Held.stable hr hrow hid
  have keepAll : ∀ {G : Nat}, AreOf w.db G tx.locks → AreOf w'.db G tx.locks := by
    intro G hall id hid
    obtain ⟨row, hrow, rfl, hG⟩ := hall id hid
    exact ⟨row, keep row hrow hid, rfl, hG⟩
  constructor
  · intro id hid
    obtain ⟨row, hrow, rfl⟩ := hheld id hid
    exact ⟨row, keep row hrow hid, rfl⟩
  · change Place env w req prog tx at hplace
    show Place env w' req prog tx
    cases hplace with
    | asked hk => exact .asked hk
    | locking hk hone hnames hlocks hws => exact .locking hk hone hnames hlocks hws
    | revoking hall hne hws hk => exact .revoking (keepAll hall) hne hws hk
    | deleting hall hne hws hpicked hk => exact .deleting (keepAll hall) hne hws (hpicked.stable hr) hk
    | rotating mine hnot hp hmine => exact .rotating mine hnot hp hmine
    | updating mine hnot hq hk htodo hmine => exact .updating mine hnot hq hk htodo hmine
    | ended hend => exact .ended hend

/-- A step of the request's own commits nothing, or leaves only the error to raise. -/
theorem Standing.commits (hst : Standing env s.world c) (h : Own engine s n c a c')
    (hs : step engine (handle env) s a = some s') (hc : s.conns n = some c) :
    s'.world = s.world ∨ ∃ tok e, c' = ⟨.refreshSession tok, .raise e, {}⟩ := by
  by_cases hcommit : ∃ k, c.prog = .commit k
  · obtain ⟨k, hk⟩ := hcommit
    have hplace := hst.place
    rw [hk] at hplace
    obtain ⟨tok, e, hreq, rfl⟩ := hplace.commit
    cases h with
    | commit hprog =>
      obtain rfl := Prog.commit.inj (hk.symm.trans hprog)
      exact Or.inr ⟨tok, e, by rw [hreq]⟩
    | _ hprog => exact absurd (hk.symm.trans hprog) (by simp)
  · exact Or.inl (h.world hs hc fun k hk => hcommit ⟨k, hk⟩)

/-- The rows a DELETE has still to take are of its family. -/
theorem Standing.family_of_todo (h : Standing env w c) {todo hits : List Nat}
    {k : Except DbError (List Nat × Sessions) → Program Response}
    (hprog : c.prog = .scan (.deleteFamily F) todo hits k) {row : Session} (hrow : row ∈ w.db)
    (hid : row.id ∈ todo) : row.familyId = F := by
  obtain ⟨-, hplace⟩ := h
  obtain ⟨req, prog, tx⟩ := c
  obtain rfl : prog = _ := hprog
  cases hplace with
  | deleting _ _ _ hpicked =>
    by_contra hne
    exact absurd (hpicked.family _ hne row hrow rfl hid) List.not_mem_nil
  | rotating _ _ hp => exact hp.elim
  | updating _ _ hq => exact hq.elim
  | ended hend => cases hend

/-- **Every open request of every run.** -/
theorem standing (h : Run engine (handle env) anyStep { world := initialWorld } s) :
    ∀ n c, s.conns n = some c → Standing env s.world c := by
  induction h with
  | refl => exact fun n c hc => by cases hc
  | @tail s s' a hr _ hs ih =>
    have hgood := sessions_good hr
    intro n c' hc'
    rcases step_conn hs hc' with ⟨hc, -⟩ | ⟨req, -, -, rfl⟩ | ⟨c, hc, hown⟩
    · exact (ih n c' hc).stable (hgood.step_rely hs hc hc')
    · exact standing_start s'.world req
    · have hst := ih n c hc
      rcases hst.commits hown hs hc with hw | ⟨tok, e, rfl⟩
      · rw [hw]
        exact standing_own hown hgood.inv hst
      · exact ⟨fun id hid => absurd hid List.not_mem_nil, .ended (.raise tok e)⟩

end Steps

end Tradinghub.Auth
