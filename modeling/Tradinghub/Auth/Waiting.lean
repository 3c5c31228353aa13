import Tradinghub.Auth.Places
import Tradinghub.Lib.Deadlock

/-!
# Who waits for whom

A logout, and a refresh with a used token, first lock the row of the token presented and then
delete the family, row by row: each row that another open request holds has to be waited for.  Two
of them with different tokens of one family hold a row each that the other has to delete, and the
database gives one of them up (`two_logouts_deadlock`).

`logout_never_fails` is what is left of the promise.  As long as no such request locks its token's
row while another one that holds a row of the family has rows of it to take (`takesTurns`), no
cycle of waits comes up, and every logout comes to its answer.
-/

namespace Tradinghub.Auth

open ReadCommitted Store

/-- The request is looking for its token's row. -/
def looksUp : Program Response → Bool
  | .scan (.lockByTokenHash _) _ _ _ => true
  | _ => false

/-- The request holds its token's row to give up the family `F`, and has rows of it to take. -/
def toDelete (db : Sessions) (c : AuthConn) (F : Nat) : Bool :=
  match c.prog with
  | .scan (.lockByTokenHash _) _ hits _ => hits.any fun id =>
      (db.find? id).any fun row => decide (row.familyId = F) && c.req.revokes row
  | .exec (.deleteFamily G) _ => decide (G = F)
  | .scan (.deleteFamily G) todo _ _ => decide (G = F) && todo.any fun id =>
      decide (id ∉ c.tx.locks) && (db.find? id).isSome
  | _ => false

/-- No other open request has rows of the family to take. -/
def othersDone (s : AuthSystem) (n F : Nat) : Bool :=
  (List.range s.world.started).all fun m =>
    m == n || (s.conns m).all fun d => !toDelete s.world.db d F

/-- A request that gets its token's row, to give up the family, gets it when every other one that
holds a row of the family for that has taken the rest of it. -/
def takesTurns (s : AuthSystem) : AuthAction → Bool
  | .lock n id => (s.conns n).all fun c => !looksUp c.prog || (s.world.db.find? id).all fun row =>
      !c.req.revokes row || othersDone s n row.familyId
  | _ => true

/-- A request is given up by its own client, or by the database to break a cycle of waits. -/
def databaseStep (s : AuthSystem) : AuthAction → Prop
  | .abort n e => e = .cancelled ∨ s.Deadlocked n
  | _ => True

/-- What logging out promises, in the state `s`. -/
structure LogoutOk (env : Env) (s : AuthSystem) : Prop where
  /-- nobody is in a cycle of waits -/
  acyclic : ∀ n, ¬ s.Deadlocked n
  /-- a logout that is over was answered, unless its own client went away -/
  answered : ∀ n tok r, (n, .logoutUser tok, r) ∈ s.world.log → r = .ok .done ∨
    r = .error .cancelled
  /-- whatever the open requests do next, every open logout is answered -/
  ends : Inevitable engine (handle env) (fun t a => a.moves = true ∧ takesTurns t a = true)
    (fun t => ∀ n c tok, s.conns n = some c → c.req = .logoutUser tok →
      (n, .logoutUser tok, .ok .done) ∈ t.world.log) s

/-! ## Rows to take -/

section Deleting

variable {env : Env} {w w' : AuthWorld} {s s' : AuthSystem} {n : Nat} {c c' : AuthConn}
  {a : AuthAction} {db : Sessions} {F : Nat}

/-- `toDelete`, by where the request is. -/
inductive ToDelete (db : Sessions) (c : AuthConn) (F : Nat) : Prop
  | holding {h todo hits k id row} (hprog : c.prog = .scan (.lockByTokenHash h) todo hits k)
      (hid : id ∈ hits) (hrow : db.find? id = some row) (hF : row.familyId = F)
      (hrev : c.req.revokes row = true) : ToDelete db c F
  | revoking {k} (hprog : c.prog = .exec (.deleteFamily F) k) : ToDelete db c F
  | deleting {todo hits k id row} (hprog : c.prog = .scan (.deleteFamily F) todo hits k)
      (hid : id ∈ todo) (hfree : id ∉ c.tx.locks) (hrow : db.find? id = some row) : ToDelete db c F

theorem toDelete_iff : toDelete db c F = true ↔ ToDelete db c F := by
  constructor
  · intro h
    unfold toDelete at h
    split at h
    · next hprog =>
      obtain ⟨id, hid, h⟩ := List.any_eq_true.1 h
      obtain ⟨row, hrow, h⟩ := (Option.any_eq_true _ _).1 h
      obtain ⟨hF, hrev⟩ := Bool.and_eq_true_iff.1 h
      exact .holding hprog hid hrow (of_decide_eq_true hF) hrev
    · next hprog =>
      obtain rfl := of_decide_eq_true h
      exact .revoking hprog
    · next hprog =>
      obtain ⟨hG, hany⟩ := Bool.and_eq_true_iff.1 h
      obtain rfl := of_decide_eq_true hG
      obtain ⟨id, hid, hboth⟩ := List.any_eq_true.1 hany
      obtain ⟨hfree, hrow⟩ := Bool.and_eq_true_iff.1 hboth
      obtain ⟨row, hrow⟩ := Option.isSome_iff_exists.1 hrow
      exact .deleting hprog hid (of_decide_eq_true hfree) hrow
    · cases h
  · intro h
    unfold toDelete
    cases h with
    | @holding _ _ _ _ id row hprog hid hrow hF hrev =>
      rw [hprog]
      refine List.any_eq_true.2 ⟨id, hid, (Option.any_eq_true _ _).2 ⟨row, hrow, ?_⟩⟩
      exact Bool.and_eq_true_iff.2 ⟨decide_eq_true hF, hrev⟩
    | revoking hprog =>
      rw [hprog]
      exact decide_eq_true rfl
    | @deleting _ _ _ id row hprog hid hfree hrow =>
      rw [hprog]
      refine Bool.and_eq_true_iff.2 ⟨decide_eq_true rfl, List.any_eq_true.2 ⟨id, hid, ?_⟩⟩
      exact Bool.and_eq_true_iff.2 ⟨decide_eq_true hfree, Option.isSome_iff_exists.2 ⟨row, hrow⟩⟩

/-- A request whose rows are all taken has none to take. -/
theorem Ended.not_toDelete (h : Ended c.req c.prog) : ¬ ToDelete db c F := by
  obtain ⟨req, prog, tx⟩ := c
  intro hdel
  cases hdel with
  | holding hprog | revoking hprog | deleting hprog =>
    obtain rfl : prog = _ := hprog
    cases h

/-- Nor does a rotation take rows of others. -/
theorem not_toDelete_of_sends {mine : Nat → Prop} (h : c.prog.Sends (Stmt.Rotates mine)) :
    ¬ ToDelete db c F := by
  intro hdel
  cases hdel with
  | holding hprog | deleting hprog =>
    rw [hprog] at h
    exact h
  | revoking hprog =>
    rw [hprog] at h
    exact h.1

theorem not_toDelete_start (req : Request) : ¬ ToDelete db ⟨req, handle env n req, {}⟩ F := by
  intro hdel
  cases req with
  | startSession userId => cases hdel with | _ hprog => cases hprog
  | refreshSession tok => cases hdel with | _ hprog => cases hprog
  | logoutUser tok => cases hdel with | _ hprog => cases hprog

/-- By this step the request gets its token's row, and gives up the row's family `F`. -/
def Gets (s : AuthSystem) (a : AuthAction) (n : Nat) (c : AuthConn) (F : Nat) : Prop :=
  ∃ id row, a = .lock n id ∧ looksUp c.prog = true ∧ s.world.db.find? id = some row ∧
    row.familyId = F ∧ c.req.revokes row = true

/-- Only the lock of its token's row gives a request rows to take. -/
theorem ToDelete.own (hdel : ToDelete s.world.db c' F) (h : Own engine s n c a c')
    (hc : Standing env s.world c) : ToDelete s.world.db c F ∨ Gets s a n c F := by
  obtain ⟨-, hplace⟩ := hc
  obtain ⟨req, prog, tx⟩ := c
  change Place env s.world req prog tx at hplace
  cases h with
  | query hprog | clock hprog =>
    obtain rfl : prog = _ := hprog
    cases hplace with
    | rotating mine hnot hp => exact absurd hdel (not_toDelete_of_sends (hp _))
    | ended hend => cases hend
  | @exec q k hprog =>
    obtain rfl : prog = _ := hprog
    cases hdel with
    | holding hp hid =>
      cases hp
      cases hid
    | revoking hp => cases hp
    | deleting hp =>
      cases hp
      exact Or.inl (.revoking rfl)
  | refused hprog hfinish =>
    obtain rfl : prog = _ := hprog
    cases hplace with
    | locking => cases hfinish
    | deleting => cases hfinish
    | rotating mine hnot hp => exact hp.elim
    | updating mine hnot hq hk => exact absurd hdel (not_toDelete_of_sends (hk _))
    | ended hend => cases hend
  | @done q hits k ws hprog hfinish =>
    obtain rfl : prog = _ := hprog
    cases hplace with
    | locking hk hone hnames hlocks hws =>
      cases hfinish
      have hfound := hk hits s.world.db
      rw [view_write_nil hws] at hdel
      generalize k (.ok (hits, s.world.db)) = p at hdel hfound
      generalize hf : hits.head?.bind s.world.db.find? = found at hfound
      cases hfound with
      | ended hend => exact absurd hdel hend.not_toDelete
      | rotate _ hp => exact absurd hdel (not_toDelete_of_sends hp)
      | revoke hrev _ =>
        -- it holds the row it found
        obtain ⟨id, hid, hrow⟩ := Option.bind_eq_some_iff.1 hf
        cases hdel with
        | revoking hp =>
          cases hp
          exact Or.inl (.holding rfl (List.mem_of_mem_head? hid) hrow rfl hrev)
        | _ hp => cases hp
    | deleting hall hne hws hpicked hk => exact absurd hdel (Ended.not_toDelete (hk _))
    | rotating mine hnot hp => exact hp.elim
    | updating mine hnot hq hk => exact absurd hdel (not_toDelete_of_sends (hk _))
    | ended hend => cases hend
  | commit hprog =>
    obtain rfl : prog = _ := hprog
    obtain ⟨tok, e, rfl, rfl⟩ := hplace.commit
    exact absurd hdel (Ended.not_toDelete (.raise tok e))
  | @skip q todo hits k key hprog hkey hfree hact =>
    obtain rfl : prog = _ := hprog
    cases hdel with
    | holding hp hid hrow hF hrev =>
      cases hp
      exact Or.inl (.holding rfl hid hrow hF hrev)
    | revoking hp => cases hp
    | deleting hp hid hnot hrow =>
      cases hp
      exact Or.inl (.deleting rfl (List.mem_of_mem_erase hid) hnot hrow)
  | @take q todo hits k key ws hprog hkey hfree hact =>
    obtain rfl : prog = _ := hprog
    cases hdel with
    | @holding _ _ _ _ id row hp hid hrow hF hrev =>
      cases hp
      rcases List.mem_append.1 hid with hid | hid
      · exact Or.inl (.holding rfl hid hrow hF hrev)
      · obtain rfl := List.mem_singleton.1 hid
        exact Or.inr ⟨id, row, rfl, rfl, hrow, hF, hrev⟩
    | revoking hp => cases hp
    | deleting hp hid hnot hrow =>
      cases hp
      refine Or.inl (.deleting rfl (List.mem_of_mem_erase hid) (fun hin => hnot ?_) hrow)
      exact List.mem_cons_of_mem _ hin

/-- Nothing the others do gives it rows to take. -/
theorem ToDelete.stable (hdel : ToDelete w'.db c F) (hc : Standing env w c)
    (hr : Rely (discipline env) n c.tx w w') : ToDelete w.db c F := by
  obtain ⟨hheld, hplace⟩ := hc
  obtain ⟨req, prog, tx⟩ := c
  cases hdel with
  | @holding _ _ _ _ id row hprog hid hrow hF hrev =>
    obtain rfl : prog = _ := hprog
    have hlock : id ∈ tx.locks := by
      cases hplace with
      | locking _ _ _ hlocks => rwa [hlocks]
      | rotating _ _ hp => exact hp.elim
      | updating _ _ hq => exact hq.elim
      | ended hend => cases hend
    -- a row that is held stays as it is
    obtain ⟨row', hrow', hid'⟩ := hheld id hlock
    obtain ⟨hmem, hkey⟩ := Table.find?_eq_some.1 hrow
    have hstays : row' ∈ w'.db := Held.stable hr hrow' (hid' ▸ hlock)
    obtain rfl := w'.db.eq_of_key hstays hmem (hid'.trans hkey.symm)
    exact .holding rfl hid (Table.find?_eq_some.2 ⟨hrow', hid'⟩) hF hrev
  | revoking hprog => exact .revoking hprog
  | @deleting _ _ _ id row hprog hid hfree hrow =>
    obtain rfl : prog = _ := hprog
    have hdrawn : ∃ k, Answered w.log k ∧ id = env.sessionId k := by
      cases hplace with
      | deleting _ _ _ hpicked => exact hpicked.drawn id hid
      | rotating _ _ hp => exact hp.elim
      | updating _ _ hq => exact hq.elim
      | ended hend => cases hend
    cases hold : w.db.find? id with
    | some row₀ => exact .deleting rfl hid hfree hold
    | none =>
      -- a row that is gone does not come back
      obtain ⟨hmem, hkey⟩ := Table.find?_eq_some.1 hrow
      have hgone : OnlyOf row.familyId [id] [] w'.db := by
        refine OnlyOf.stable hr (fun i hi => ?_) fun r hr' _ hi => ?_
        · obtain rfl := List.mem_singleton.1 hi
          exact hdrawn
        · exact absurd (List.mem_singleton.1 hi) (Table.find?_eq_none.1 hold r hr')
      exact absurd (hgone row hmem rfl (List.mem_singleton.2 hkey)) List.not_mem_nil

/-- One step of the system. -/
theorem ToDelete.step (hr : Run engine (handle env) anyStep { world := initialWorld } s)
    (hs : step engine (handle env) s a = some s') (hc' : s'.conns n = some c')
    (hdel : ToDelete s'.world.db c' F) :
    ∃ c, s.conns n = some c ∧ (ToDelete s.world.db c F ∨ Gets s a n c F) := by
  rcases step_conn hs hc' with ⟨hc, -⟩ | ⟨req, -, -, rfl⟩ | ⟨c, hc, hown⟩
  · exact ⟨c', hc, Or.inl (hdel.stable (standing hr n c' hc)
      ((sessions_good hr).step_rely hs hc hc'))⟩
  · exact absurd hdel (not_toDelete_start req)
  · have hst := standing hr n c hc
    refine ⟨c, hc, ?_⟩
    rcases hst.commits hown hs hc with hw | ⟨tok, e, rfl⟩
    · rw [hw] at hdel
      exact hdel.own hown hst
    · cases hdel with | _ hp => cases hp

/-! ## Taking turns -/

theorem othersDone_iff (hb : ∀ m d, s.conns m = some d → m < s.world.started) :
    othersDone s n F = true ↔
      ∀ m d, m ≠ n → s.conns m = some d → ¬ ToDelete s.world.db d F := by
  simp only [othersDone, List.all_eq_true, List.mem_range, Bool.or_eq_true, beq_iff_eq,
    Option.all_eq_true, Bool.not_eq_true']
  constructor
  · intro h m d hm hd hdel
    have hfalse := (h m (hb m d hd)).resolve_left hm d hd
    rw [toDelete_iff.2 hdel] at hfalse
    cases hfalse
  · intro h m _
    refine or_iff_not_imp_left.2 fun hm d hd => ?_
    exact Bool.eq_false_iff.2 fun htrue => h m d hm hd (toDelete_iff.1 htrue)

/-- What taking turns says of the lock of a token's row. -/
theorem Gets.others (hgets : Gets s a n c F) (hc : s.conns n = some c)
    (hb : ∀ m d, s.conns m = some d → m < s.world.started) (hok : takesTurns s a = true) :
    ∀ m d, m ≠ n → s.conns m = some d → ¬ ToDelete s.world.db d F := by
  obtain ⟨id, row, rfl, hlooks, hrow, rfl, hrev⟩ := hgets
  rw [← othersDone_iff hb]
  simpa [takesTurns, hc, hlooks, hrow, hrev] using hok

/-- Runs in which requests take turns at a family, and are given up as the database does it. -/
abbrev InTurn (env : Env) (s : AuthSystem) : Prop :=
  Run engine (handle env) (fun t a => databaseStep t a ∧ takesTurns t a = true)
    { world := initialWorld } s

theorem InTurn.any (h : InTurn env s) :
    Run engine (handle env) anyStep { world := initialWorld } s :=
  h.mono fun _ _ _ => trivial

/-- **One at a time.**  No two open requests have rows of one family to take. -/
theorem InTurn.one (h : InTurn env s) : ∀ n m c d F, n ≠ m → s.conns n = some c →
    s.conns m = some d → ToDelete s.world.db c F → ToDelete s.world.db d F → False := by
  induction h with
  | refl => exact fun n m c d F _ hc => by cases hc
  | @tail s s' a hr hok hs ih =>
    intro n m c' d' F hnm hc' hd' hdel hdel'
    have hany := InTurn.any hr
    have hb := (sessions_good hany).bound
    obtain ⟨c, hc, hcases⟩ := hdel.step hany hs hc'
    obtain ⟨d, hd, hcases'⟩ := hdel'.step hany hs hd'
    rcases hcases with hold | hgets
    · rcases hcases' with hold' | hgets'
      · exact ih n m c d F hnm hc hd hold hold'
      · exact hgets'.others hd hb hok.2 n c hnm hc hold
    · rcases hcases' with hold' | hgets'
      · exact hgets.others hc hb hok.2 m d (Ne.symm hnm) hd hold'
      · -- one request moves at a time
        obtain ⟨_, _, rfl, -⟩ := hgets
        obtain ⟨_, _, heq, -⟩ := hgets'
        cases heq
        exact hnm rfl

end Deleting

/-! ## Nobody waits in a circle -/

section Turns

variable {env : Env} {w : AuthWorld} {s s' : AuthSystem} {n m p : Nat} {c d : AuthConn}
  {a : AuthAction} {key : Nat}

theorem todo_of_sends {P : Stmt → Prop} {p : Program Response} (h : p.Sends P) : p.todo = [] := by
  cases p with
  | scan => exact h.elim
  | _ => rfl

/-- A request that holds a row and has some to take is past its token's row. -/
theorem Standing.past (hc : Standing env w c) (hkey : key ∈ c.tx.locks) (htodo : c.prog.todo ≠ []) :
    looksUp c.prog = false := by
  obtain ⟨-, hplace⟩ := hc
  obtain ⟨req, prog, tx⟩ := c
  change Place env w req prog tx at hplace
  change prog.todo ≠ [] at htodo
  cases hplace with
  | asked => rfl
  | @locking tok todo hits k _ hk hone hnames hlocks hws =>
    have hpos : 0 < todo.length := List.length_pos_of_ne_nil htodo
    have hnil : hits = [] := List.length_eq_zero_iff.1 (by omega)
    have hheld : key ∈ hits := hlocks ▸ hkey
    rw [hnil] at hheld
    cases hheld
  | revoking => rfl
  | deleting => rfl
  | rotating _ _ hp => exact absurd (todo_of_sends hp) htodo
  | @updating q _ _ _ _ _ _ hq =>
    cases q with
    | lockByTokenHash h => exact hq.elim
    | _ => rfl
  | ended hend =>
    cases hend with
    | _ => rfl

/-- Whoever waits for a row past its own is deleting that row's family. -/
theorem waits_deletes (h : Run engine (handle env) anyStep { world := initialWorld } s)
    (hc : s.conns n = some c) (hpast : looksUp c.prog = false) (hwaits : s.waits n m = true) :
    ∃ row d, s.conns m = some d ∧ row ∈ s.world.db ∧ row.id ∈ d.tx.locks ∧
      ToDelete s.world.db c row.familyId ∧ AreOf s.world.db row.familyId c.tx.locks := by
  obtain ⟨hnm, c₀, d, hc₀, hd, key, hkey, hheld⟩ := Sys.waits_iff.1 hwaits
  obtain rfl := Option.some.inj (hc.symm.trans hc₀)
  obtain ⟨row, hrow, rfl⟩ := (standing h m d hd).held key hheld
  have hfree : row.id ∉ c.tx.locks :=
    fun hin => (sessions_good h).disjoint n m c d hnm hc hd hin hheld
  refine ⟨row, d, hd, hrow, hheld, ?_⟩
  have hst := standing h n c hc
  have hplace := hst.place
  obtain ⟨req, prog, tx⟩ := c
  change Place env s.world req prog tx at hplace
  change row.id ∈ prog.todo at hkey
  change row.id ∉ tx.locks at hfree
  cases hplace with
  | asked => cases hkey
  | locking => cases hpast
  | revoking => cases hkey
  | @deleting F todo hits k _ hall hne hws hpicked hk =>
    obtain rfl : row.familyId = F := hst.family_of_todo rfl hrow hkey
    exact ⟨.deleting rfl hkey hfree (Table.find?_eq_some.2 ⟨hrow, rfl⟩), hall⟩
  | rotating _ _ hp =>
    rw [todo_of_sends hp] at hkey
    cases hkey
  | updating mine _ _ _ htodo hmine => exact absurd (hmine _ (htodo _ hkey)) hfree
  | ended hend => cases hend with | _ => cases hkey

/-- Nobody waits for one who waits past its own row. -/
theorem InTurn.no_two_waits (h : InTurn env s) (hc : s.conns n = some c)
    (hpast : looksUp c.prog = false) (hd : s.conns m = some d) (hpast' : looksUp d.prog = false)
    (hnm : s.waits n m = true) (hmp : s.waits m p = true) : False := by
  obtain ⟨row, d₀, hd₀, hrow, hheld, hdel, -⟩ := waits_deletes h.any hc hpast hnm
  obtain rfl := Option.some.inj (hd.symm.trans hd₀)
  obtain ⟨row', -, -, -, -, hdel', hall⟩ := waits_deletes h.any hd hpast' hmp
  -- the row that is waited for is one of the family that its holder deletes
  obtain ⟨row₀, hrow₀, hid, hF⟩ := hall row.id hheld
  obtain rfl := s.world.db.eq_of_key hrow₀ hrow hid
  rw [hF] at hdel
  exact h.one n m c d row'.familyId (Sys.waits_iff.1 hnm).1 hc hd hdel hdel'

theorem InTurn.acyclic (h : InTurn env s) (n : Nat) : ¬ s.Deadlocked n := by
  intro hdead
  obtain ⟨m, hnm, hdead⟩ := hdead.next
  obtain ⟨p, hmp, hdead⟩ := hdead.next
  obtain ⟨q, hpq, -⟩ := hdead.next
  have past : ∀ {i j k : Nat}, s.waits i j = true → s.waits j k = true →
      ∃ d, s.conns j = some d ∧ looksUp d.prog = false := by
    intro i j k hij hjk
    obtain ⟨-, _, d, -, hd, key, -, hheld⟩ := Sys.waits_iff.1 hij
    obtain ⟨-, d₀, _, hd₀, -, key', hkey', -⟩ := Sys.waits_iff.1 hjk
    obtain rfl := Option.some.inj (hd.symm.trans hd₀)
    exact ⟨d, hd, (standing h.any j d hd).past hheld (List.ne_nil_of_mem hkey')⟩
  obtain ⟨c, hc, hpast⟩ := past hnm hmp
  obtain ⟨d, hd, hpast'⟩ := past hmp hpq
  exact h.no_two_waits hc hpast hd hpast' hmp hpq

/-! ## Somebody can move -/

theorem takesTurns_of_past (hc : s.conns n = some c) (hpast : looksUp c.prog = false) (id : Nat) :
    takesTurns s (.lock n id) = true := by
  simp [takesTurns, hc, hpast]

/-- Those who look for their rows have none to take. -/
theorem Standing.not_toDelete (hc : Standing env w c) (htodo : c.prog.todo ≠ [])
    (hlooks : looksUp c.prog = true) (F : Nat) : ¬ ToDelete w.db c F := by
  intro hdel
  obtain ⟨-, hplace⟩ := hc
  obtain ⟨req, prog, tx⟩ := c
  cases hdel with
  | @holding _ todo hits _ _ _ hprog hid =>
    obtain rfl : prog = _ := hprog
    have hpos : 0 < todo.length := List.length_pos_of_ne_nil htodo
    have hpos' : 0 < hits.length := List.length_pos_of_mem hid
    cases hplace with
    | locking hk hone => omega
    | rotating _ _ hp => exact hp.elim
    | updating _ _ hq => exact hq.elim
    | ended hend => cases hend
  | revoking hprog | deleting hprog =>
    obtain rfl : prog = _ := hprog
    cases hlooks

/-- **Somebody can move**, in turn, as long as anybody is there. -/
theorem InTurn.progress (h : InTurn env s) (hc : s.conns n = some c) :
    ∃ a s', (a.moves = true ∧ takesTurns s a = true) ∧
      step engine (handle env) s a = some s' := by
  have hb := (sessions_good h.any).bound
  have hst := standing h.any
  by_cases hready : ∃ m d, s.conns m = some d ∧ d.prog.todo = []
  · obtain ⟨m, d, hd, htodo⟩ := hready
    obtain ⟨s', hs⟩ := exists_advance hd htodo
    exact ⟨_, s', ⟨rfl, rfl⟩, hs⟩
  have hwait : ∀ m d, s.conns m = some d → d.prog.todo ≠ [] :=
    fun m d hd htodo => hready ⟨m, d, hd, htodo⟩
  have hlock : ∀ {m d id}, s.conns m = some d → id ∈ d.prog.todo → s.free m id = true →
      takesTurns s (.lock m id) = true → ∃ a s', (a.moves = true ∧ takesTurns s a = true) ∧
        step engine (handle env) s a = some s' := by
    intro m d id hd hid hfree hturn
    obtain ⟨s', hs⟩ := exists_lock hd hid hfree
    exact ⟨_, s', ⟨rfl, hturn⟩, hs⟩
  -- whoever is past its row takes the next one, or waits for somebody who is past its row too
  have hpastMoves : ∀ {m d}, s.conns m = some d → looksUp d.prog = false →
      (∃ a s', (a.moves = true ∧ takesTurns s a = true) ∧
        step engine (handle env) s a = some s') ∨
      ∃ p e, s.waits m p = true ∧ s.conns p = some e ∧ looksUp e.prog = false := by
    intro m d hd hpast
    obtain ⟨id, hid⟩ := List.exists_mem_of_ne_nil _ (hwait m d hd)
    rcases Sys.free_or_held hb m id with hfree | ⟨p, e, hpm, he, hheld⟩
    · exact Or.inl (hlock hd hid hfree (takesTurns_of_past hd hpast id))
    · exact Or.inr ⟨p, e, Sys.waits_iff.2 ⟨Ne.symm hpm, d, e, hd, he, id, hid, hheld⟩, he,
        (hst p e he).past hheld (hwait p e he)⟩
  by_cases hpast : ∃ m d, s.conns m = some d ∧ looksUp d.prog = false
  · obtain ⟨m, d, hd, hpast⟩ := hpast
    rcases hpastMoves hd hpast with hmoves | ⟨p, e, hmp, he, hpast'⟩
    · exact hmoves
    · rcases hpastMoves he hpast' with hmoves | ⟨q, _, hpq, -⟩
      · exact hmoves
      · exact (h.no_two_waits hd hpast he hpast' hmp hpq).elim
  · -- everybody looks for a row: nobody holds one, and nobody has rows to take
    have hlooks : ∀ m d, s.conns m = some d → looksUp d.prog = true := by
      intro m d hd
      by_contra hno
      exact hpast ⟨m, d, hd, Bool.eq_false_iff.2 hno⟩
    obtain ⟨id, hid⟩ := List.exists_mem_of_ne_nil _ (hwait n c hc)
    have hdone : ∀ F, othersDone s n F = true := by
      intro F
      refine (othersDone_iff hb).2 fun m d _ hd => ?_
      exact (hst m d hd).not_toDelete (hwait m d hd) (hlooks m d hd) F
    refine hlock hc hid ?_ (by simp [takesTurns, hc, hdone])
    rcases Sys.free_or_held hb n id with hfree | ⟨p, e, -, he, hheld⟩
    · exact hfree
    · have hfalse := (hst p e he).past hheld (hwait p e he)
      rw [hlooks p e he] at hfalse
      cases hfalse

/-! ## Logging out -/

/-- How an open logout is answered. -/
theorem Standing.answers (hc : Standing env w c) {tok : String} (hreq : c.req = .logoutUser tok)
    {r : Except Failure Response} (ha : Answers n c a r) :
    r = .ok .done ∨ ∃ e, a = .abort n e ∧ r = .error e := by
  obtain ⟨-, hplace⟩ := hc
  obtain ⟨req, prog, tx⟩ := c
  obtain rfl : req = _ := hreq
  cases ha with
  | ret hprog =>
    obtain rfl : prog = _ := hprog
    cases hplace with
    | rotating _ hnot => exact absurd rfl (hnot tok)
    | ended hend =>
      cases hend
      exact Or.inl rfl
  | raise hprog =>
    obtain rfl : prog = _ := hprog
    cases hplace with
    | rotating _ hnot => exact absurd rfl (hnot tok)
    | ended hend => cases hend
  | abort e => exact Or.inr ⟨e, rfl, rfl⟩

theorem InTurn.answered (h : InTurn env s) : ∀ n tok r, (n, .logoutUser tok, r) ∈ s.world.log →
    r = .ok .done ∨ r = .error .cancelled := by
  induction h with
  | refl => exact fun n tok r he => by cases he
  | tail hr hok hs ih =>
    intro n tok r he
    rcases step_log hs he with he | ⟨c, hc, hreq, ha⟩
    · exact ih n tok r he
    · rcases (standing (InTurn.any hr) n c hc).answers hreq ha with hdone | ⟨e, rfl, rfl⟩
      · exact Or.inl hdone
      · -- nobody is given up by the database
        rcases hok.1 with rfl | hdead
        · exact Or.inr rfl
        · exact absurd hdead (InTurn.acyclic hr n)

/-- A logout is open until it is answered. -/
theorem InTurn.ends (h : InTurn env s) :
    Inevitable engine (handle env) (fun t a => a.moves = true ∧ takesTurns t a = true)
      (fun t => ∀ n c tok, s.conns n = some c → c.req = .logoutUser tok →
        (n, .logoutUser tok, .ok .done) ∈ t.world.log) s := by
  let I : AuthSystem → Prop := fun t => InTurn env t ∧ ∀ n c tok, s.conns n = some c →
    c.req = .logoutUser tok → (∃ d, t.conns n = some d ∧ d.req = .logoutUser tok) ∨
      (n, .logoutUser tok, .ok .done) ∈ t.world.log
  refine Inevitable.of_progress (I := I) (fun t a hok => hok.1)
    (fun t ht => (sessions_good ht.1.any).bound) ?_ ?_ s
    ⟨h, fun n c tok hc hreq => Or.inl ⟨c, hc, hreq⟩⟩
  · rintro t a t' ⟨ht, hall⟩ ⟨hmoves, hturn⟩ hs
    have hdatabase : databaseStep t a := by
      cases a with
      | abort => cases hmoves
      | _ => trivial
    refine ⟨.tail ht ⟨hdatabase, hturn⟩ hs, fun n c tok hc hreq => ?_⟩
    rcases hall n c tok hc hreq with ⟨d, hd, hdreq⟩ | hlog
    · rcases step_open hs ((sessions_good ht.any).bound n d hd) hd with
        ⟨d', hd', hdreq'⟩ | ⟨r, hlog, ha⟩
      · exact Or.inl ⟨d', hd', hdreq'.trans hdreq⟩
      · rcases (standing ht.any n d hd).answers hdreq ha with rfl | ⟨e, rfl, -⟩
        · exact Or.inr (hdreq ▸ hlog)
        · cases hmoves
    · exact Or.inr (step_log_mono hs _ hlog)
  · rintro t ⟨ht, hall⟩
    by_cases hopen : ∃ n c, t.conns n = some c
    · obtain ⟨n, c, hc⟩ := hopen
      exact Or.inr (ht.progress hc)
    · refine Or.inl fun n c tok hc hreq => (hall n c tok hc hreq).resolve_left ?_
      rintro ⟨d, hd, -⟩
      exact hopen ⟨n, d, hd⟩

end Turns

/-- **Logging out never fails, in turn.**  In every run in which no request that gives up a family
gets its token's row while another one that holds a row of the family for that has rows of it to
take, nobody waits in a circle, no logout is given up by the database, and every logout is
answered. -/
theorem logout_never_fails {env : Env} {s : AuthSystem}
    (h : Run engine (handle env) (fun t a => databaseStep t a ∧ takesTurns t a = true)
      { world := initialWorld } s) : LogoutOk env s :=
  ⟨InTurn.acyclic h, InTurn.answered h, InTurn.ends h⟩

/-- A family with two rows: its first token is used, `a` is the current one. -/
def rotatedOnce : List AuthAction :=
  loginSteps 0 7 ++ .start (.refreshSession "") :: lockSteps 1 0 ++ rotateSteps 1 0

/-- Two logouts with the two tokens: the second has to wait until the first is answered. -/
def oneAfterTheOther : List AuthAction :=
  rotatedOnce ++ [.start (.logoutUser ""), .start (.logoutUser "a")] ++ lockSteps 2 0 ++
  [.advance 2, .lock 2 0, .lock 2 1, .advance 3]

theorem oneAfterTheOther_never_fails : ∃ s : AuthSystem,
    runList engine (handle .unary) { world := initialWorld } oneAfterTheOther = some s ∧
    s.waits 3 2 = true ∧ LogoutOk .unary s := by
  have hok : allowed engine (handle .unary) (fun t a => !a.isAbort && takesTurns t a)
      { world := initialWorld } oneAfterTheOther = true := by
    decide +kernel
  have hrun : (runList engine (handle .unary) { world := initialWorld } oneAfterTheOther).any
      (fun s => s.waits 3 2) = true := by
    decide +kernel
  obtain ⟨s, hlist, hs, hwaits⟩ := exists_allowed hok hrun
  refine ⟨s, hlist, hwaits, logout_never_fails (hs.mono fun t a ha => ?_)⟩
  obtain ⟨habort, hturn⟩ := Bool.and_eq_true_iff.1 ha
  refine ⟨?_, hturn⟩
  cases a with
  | abort => cases habort
  | _ => trivial

/-- The same two logouts, each of which gets its own row before the other deletes the family. -/
def bothAtOnce : List AuthAction :=
  rotatedOnce ++ [.start (.logoutUser ""), .start (.logoutUser "a")] ++ lockSteps 2 0 ++
  lockSteps 3 1 ++ [.advance 2, .advance 3, .lock 2 0, .lock 3 1]

/-- Each has deleted its own row and waits for the other's, and the database gives one up. -/
theorem two_logouts_deadlock : ∃ s : AuthSystem,
    runList engine (handle .unary) { world := initialWorld } bothAtOnce = some s ∧
    Run engine (handle .unary) databaseStep { world := initialWorld } s ∧
    s.Deadlocked 2 ∧ s.Deadlocked 3 ∧ ¬ LogoutOk .unary s ∧
    ∀ e, databaseStep s (.abort 3 e) ∧ ∃ s', step engine (handle .unary) s (.abort 3 e) = some s' ∧
      (3, .logoutUser "a", .error e) ∈ s'.world.log := by
  have hok : allowed engine (handle .unary) (fun _ a => !a.isAbort) { world := initialWorld }
      bothAtOnce = true := by
    decide +kernel
  have hrun : (runList engine (handle .unary) { world := initialWorld } bothAtOnce).any
      (fun s => s.waits 2 3 && s.waits 3 2 &&
        (s.conns 3).any fun c => decide (c.req = .logoutUser "a")) = true := by
    decide +kernel
  obtain ⟨s, hlist, hs, hp⟩ := exists_allowed hok hrun
  simp only [Bool.and_eq_true] at hp
  obtain ⟨⟨h23, h32⟩, hreq⟩ := hp
  obtain ⟨c, hc, hreq⟩ := (Option.any_eq_true _ _).1 hreq
  have hdead : s.Deadlocked 3 := Sys.deadlocked_of_waits h32 h23
  refine ⟨s, hlist, hs.mono fun t a ha => ?_, Sys.deadlocked_of_waits h23 h32, hdead,
    fun hclaim => hclaim.acyclic 3 hdead, fun e => ⟨Or.inr hdead, ?_⟩⟩
  · cases a with
    | abort => cases ha
    | _ => trivial
  · have hstep : step engine (handle .unary) s (.abort 3 e) =
        some (s.close 3 c.req (.error e) s.world.db) := by
      simp only [step, hc, Option.map_some]
    refine ⟨_, hstep, ?_⟩
    rw [of_decide_eq_true hreq]
    exact List.mem_cons_self

end Tradinghub.Auth
