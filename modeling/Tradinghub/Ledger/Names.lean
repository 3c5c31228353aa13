import Tradinghub.Ledger.Served

/-!
# Account names

The index on (user_id, name) is checked when a row is written and not when it is committed, so two
requests could both find a name free.  What prevents it is that each holds the name's entry until it
ends: a name that a request holds gets nobody new (`name_free_stable`), and a name that is written
is held (`Served.names`).  So no user ever has one name twice, in any state of any interleaving.
-/

namespace Tradinghub.Ledger

open ReadCommitted Store

variable [Collation]

/-- No user has one name twice, whatever its case. -/
def UniqueNames (db : Db) : Prop :=
  ∀ a ∈ db.accounts, ∀ b ∈ db.accounts, a.userId = b.userId →
    Collation.fold a.name = Collation.fold b.name → a = b

section Entries

variable {db : Db} {row : Account}

theorem nameKey_eq {a b : Account} :
    nameKey a = nameKey b ↔ a.userId = b.userId ∧ Collation.fold a.name = Collation.fold b.name := by
  simp [nameKey]

theorem nameTaken_iff : nameTaken row db = true ↔
    ∃ a ∈ db.accounts, a.id ≠ row.id ∧ nameKey a = nameKey row := by
  simp only [nameTaken, List.any_eq_true, decide_eq_true_eq, nameKey_eq]
  rfl

theorem nameTaken_false : nameTaken row db = false ↔
    ∀ a ∈ db.accounts, nameKey a = nameKey row → a.id = row.id := by
  rw [← Bool.not_eq_true, nameTaken_iff]
  push Not
  exact forall₂_congr fun a ha => ⟨fun h hkey => by_contra fun hid => h hid hkey,
    fun h hid hkey => hid (h hkey)⟩

/-- A row under a name that is free. -/
theorem UniqueNames.put (h : UniqueNames db) (hfree : nameTaken row db = false) :
    UniqueNames { db with accounts := db.accounts.put row } := by
  rw [nameTaken_false] at hfree
  intro a ha b hb huser hname
  rcases Table.mem_put.1 ha with rfl | ⟨ha', hida⟩
  · rcases Table.mem_put.1 hb with rfl | ⟨hb', hidb⟩
    · rfl
    · exact absurd (hfree b hb' (nameKey_eq.2 ⟨huser.symm, hname.symm⟩)) hidb
  · rcases Table.mem_put.1 hb with rfl | ⟨hb', hidb⟩
    · exact absurd (hfree a ha' (nameKey_eq.2 ⟨huser, hname⟩)) hida
    · exact h a ha' b hb' huser hname

/-- A row keeps its own name. -/
theorem UniqueNames.own (h : UniqueNames db) {a : Account} (ha : a ∈ db.accounts)
    (hid : row.id = a.id) (hkey : nameKey row = nameKey a) : nameTaken row db = false := by
  refine nameTaken_false.2 fun b hb hbkey => ?_
  obtain ⟨huser, hname⟩ := nameKey_eq.1 (hbkey.trans hkey)
  rw [hid, h b hb a ha huser hname]

theorem updateAccount_free {loaded current : Account} {hits : List Key} {ws : List Write}
    (h : (Stmt.updateAccount loaded current).finish hits db = .ok ws)
    (hname : loaded.name ≠ current.name) : nameTaken current db = false := by
  cases finish_ok h with
  | updateAccount _ hfree => exact hfree.resolve_left hname

theorem insertAccount_free {hits : List Key} {ws : List Write}
    (h : (Stmt.insertAccount row).finish hits db = .ok ws) : nameTaken row db = false := by
  cases finish_ok h with
  | insertAccount _ _ hfree => exact hfree

/-- The name of a row that an update is written onto. -/
theorem nameKey_apply (loaded : Account) {current a : Account} (huser : current.userId = a.userId) :
    nameKey ((AccountChange.between loaded current).apply a) =
      if loaded.name = current.name then nameKey a else nameKey current := by
  by_cases hname : loaded.name = current.name
  · rw [if_pos hname]
    simp [nameKey, AccountChange.apply, AccountChange.between, changed, hname]
  · rw [if_neg hname]
    simp [nameKey, AccountChange.apply, AccountChange.between, changed, hname, huser]

end Entries

section Runs

variable {env : Env} {ok : LedgerSystem → Action Key Failure Request → Prop} {n : Nat}
  {req : Request} {s t : LedgerSystem} {tx : LedgerTx} {a : Response}

/-- Accounts stay, under their owner. -/
theorem accounts_stay (hr : Run engine (handle env) ok initial s)
    (h : Run engine (handle env) ok s t) {id userId : Nat}
    (ha : ∃ a ∈ s.world.db.accounts, a.id = id ∧ a.userId = userId) :
    ∃ a ∈ t.world.db.accounts, a.id = id ∧ a.userId = userId := by
  induction h with
  | refl => exact ha
  | @tail u v act h hok hs ih =>
    obtain ⟨a, ha, hid, huser⟩ := ih
    have hgood := run_good (hr.trans h)
    rcases hgood.step_db hs with hdb | ⟨m, c, hc, heffect, -⟩
    · rw [hdb]
      exact ⟨a, ha, hid, huser⟩
    · obtain ⟨a', ha', hid', huser'⟩ :=
        heffect.account_stays a ha (hgood.inv.1.account_ne (hgood.unanswered m c hc) ha)
      exact ⟨a', ha', hid'.trans hid, huser'.trans huser⟩

/-- What an answered PATCH writes onto. -/
theorem updated_view {accountId : RowId} {found : AccountWithBalance} {current : Account}
    {hits : List Key} {m₁ m₂ : LedgerSystem} (hm₁ : Opened env ok n req m₁ t)
    (hfound : getAccountWithBalance m₁.world.db accountId.val req.userId = some found)
    (hfinish : (Stmt.updateAccount found.account current).finish hits m₂.world.db =
      .ok tx.writes) :
    ∃ row ∈ t.world.db.accounts, row.id = found.account.id ∧ row.userId = found.account.userId ∧
      engine.view tx t.world.db = { t.world.db with
        accounts := t.world.db.accounts.put
          ((AccountChange.between found.account current).apply row) } := by
  obtain ⟨hmem, -⟩ := mem_of_getAccountWithBalance hfound
  obtain ⟨row, hrow, hid, huser⟩ := accounts_stay hm₁.reached hm₁.run ⟨_, hmem, rfl, rfl⟩
  obtain ⟨hws, -⟩ := updateAccount_finish hfinish
  refine ⟨row, hrow, hid, huser, ?_⟩
  rw [Engine.view, hws, ← hid, ← apply_updateAccount hrow]
  rfl

/-- The name of every account after a commit is that of the account before, or held. -/
theorem Served.names (h : Served env ok n req (.ok a) tx t) :
    ∀ row ∈ (engine.view tx t.world.db).accounts,
      (∃ old ∈ t.world.db.accounts, old.id = row.id ∧ nameKey old = nameKey row) ∨
        nameKey row ∈ tx.locks := by
  have same : (engine.view tx t.world.db).accounts = t.world.db.accounts →
      ∀ row ∈ (engine.view tx t.world.db).accounts,
        (∃ old ∈ t.world.db.accounts, old.id = row.id ∧ nameKey old = nameKey row) ∨
          nameKey row ∈ tx.locks := by
    intro haccounts row hrow
    rw [haccounts] at hrow
    exact Or.inl ⟨row, hrow, rfl, rfl⟩
  cases h with
  | moment _ _ hwrites => exact same (by rw [Engine.view, hwrites]; rfl)
  | commit _ haccounts => exact same haccounts
  | page _ _ _ hwrites => exact same (by rw [Engine.view, hwrites]; rfl)
  | @accountCreated _ _ _ _ payload hits hreq hm ha hfinish hname =>
    obtain ⟨hws, -⟩ := insertAccount_finish hfinish
    intro row hrow
    rw [Engine.view, hws] at hrow
    rcases Table.mem_put.1 hrow with rfl | ⟨hold, -⟩
    · exact Or.inr hname
    · exact Or.inl ⟨row, hold, rfl, rfl⟩
  | @accountUpdated _ _ _ _ m₂ accountId payload found current hits hreq hm₁ hfound hcurrent hm₂
      hfinish hname hrow =>
    obtain ⟨row, hrow, hid, huser, hview⟩ := updated_view hm₁ hfound hfinish
    obtain ⟨now, rfl⟩ := hcurrent
    rw [hview]
    intro row' hrow'
    rcases Table.mem_put.1 hrow' with rfl | ⟨hold, -⟩
    · have hkey := nameKey_apply found.account
        (show (updatedAccount now found.account payload).userId = row.userId from huser.symm)
      rw [hkey]
      by_cases hsame : found.account.name = (updatedAccount now found.account payload).name
      · rw [if_pos hsame]
        exact Or.inl ⟨row, hrow, rfl, rfl⟩
      · rw [if_neg hsame]
        exact Or.inr (hname hsame)
    · exact Or.inl ⟨row', hold, rfl, rfl⟩
  | transactionUpdated _ _ _ _ _ _ _ hview => exact same (by rw [hview])
  | transferCreated _ _ _ _ hview => exact same (by rw [hview]; rfl)

/-- A name that a waiting request holds gets nobody new. -/
theorem name_free_stable {c : LedgerConn} {m : LedgerSystem}
    (h : Waits engine (handle env) ok initial n c m t) {row : Account}
    (hheld : nameKey row ∈ c.tx.locks) (hfree : nameTaken row m.world.db = false) :
    nameTaken row t.world.db = false := by
  induction h with
  | here => exact hfree
  | @tail u v act hw hok hs hc ih =>
    have hr := hw.reached
    rcases step_stage hs (ledger_stages hr) with hdb | ⟨k, d, x, rfl, hd, hp, hdb, hgone⟩
    · rw [hdb]
      exact ih
    · have hne : n ≠ k := by
        rintro rfl
        rw [hgone] at hc
        cases hc
      rw [nameTaken_false] at ih ⊢
      intro row' hrow' hkey
      rw [hdb] at hrow'
      rcases (served_of_ret hr hd hp).names row' hrow' with ⟨old, hold, hid, hkey'⟩ | hlocked
      · exact hid ▸ ih old hold (hkey'.trans hkey)
      · -- the two requests hold one entry
        rw [hkey] at hlocked
        exact absurd hlocked ((run_good hr).disjoint n k c d hne hw.conn hd hheld)

/-- What was found free when it was written is free when it is committed. -/
theorem name_free_of_aboutTo {m : LedgerSystem} (hm : AboutTo env ok n req a tx m t)
    {row : Account} (hheld : nameKey row ∈ tx.locks) (hfree : nameTaken row m.world.db = false) :
    nameTaken row t.world.db = false := by
  obtain ⟨-, u, hu, hw⟩ := hm
  refine name_free_stable hw hheld ?_
  rw [hu]
  exact hfree

theorem Served.uniqueNames (h : Served env ok n req (.ok a) tx t)
    (hu : UniqueNames t.world.db) : UniqueNames (engine.view tx t.world.db) := by
  have same : (engine.view tx t.world.db).accounts = t.world.db.accounts →
      UniqueNames (engine.view tx t.world.db) := by
    intro haccounts
    unfold UniqueNames
    rw [haccounts]
    exact hu
  cases h with
  | moment _ _ hwrites => exact same (by rw [Engine.view, hwrites]; rfl)
  | commit _ haccounts => exact same haccounts
  | page _ _ _ hwrites => exact same (by rw [Engine.view, hwrites]; rfl)
  | @accountCreated _ _ _ m payload hits hreq hm ha hfinish hname =>
    obtain ⟨hws, -⟩ := insertAccount_finish hfinish
    rw [Engine.view, hws]
    exact hu.put (name_free_of_aboutTo hm hname (insertAccount_free hfinish))
  | @accountUpdated _ _ _ _ m₂ accountId payload found current hits hreq hm₁ hfound hcurrent hm₂
      hfinish hname hrow =>
    obtain ⟨row, hrow, hid, huser, hview⟩ := updated_view hm₁ hfound hfinish
    obtain ⟨now, rfl⟩ := hcurrent
    rw [hview]
    refine hu.put ?_
    have hkey := nameKey_apply found.account
      (show (updatedAccount now found.account payload).userId = row.userId from huser.symm)
    by_cases hsame : found.account.name = (updatedAccount now found.account payload).name
    · rw [if_pos hsame] at hkey
      exact hu.own hrow rfl hkey
    · rw [if_neg hsame] at hkey
      have hfree := name_free_of_aboutTo hm₂ (hname hsame) (updateAccount_free hfinish hsame)
      rw [nameTaken_false] at hfree ⊢
      intro b hb hbkey
      exact (hfree b hb (hbkey.trans hkey)).trans hid.symm
  | transactionUpdated _ _ _ _ _ _ _ hview => exact same (by rw [hview])
  | transferCreated _ _ _ _ hview => exact same (by rw [hview]; rfl)

/-- **No user ever has one name twice**, whatever requests are interleaved. -/
theorem account_names_unique (h : Run engine (handle env) ok initial s) :
    UniqueNames s.world.db := by
  induction h with
  | refl => exact fun a ha => absurd ha (Table.not_mem_empty a)
  | @tail u v act hr hok hs ih =>
    rcases step_stage hs (ledger_stages hr) with hdb | ⟨n, c, x, rfl, hc, hp, hdb, -⟩
    · rw [hdb]
      exact ih
    · rw [hdb]
      exact (served_of_ret hr hc hp).uniqueNames ih

end Runs

/-! ## A race for a name -/

/-- Two requests ask for one name, spelt twice; each is under way before the other has its row. -/
def racesForName : List (Action Key Failure Request) :=
  [.start ⟨1, .createAccount { name := "Cash", unit := "EUR", type := .cash }⟩,
    .start ⟨1, .createAccount { name := "CASH", unit := "USD", type := .cash }⟩,
    .advance 0, .advance 1, .lock 1 (.name 1 "cash"), .advance 1, .advance 1,
    .lock 0 (.name 1 "cash"), .advance 0, .advance 0]

/-- Who has been answered, the last first, and who got what they asked for. -/
def outcomes (s : LedgerSystem) : List (Nat × Bool) := s.world.log.map fun e => (e.1, e.2.2.isOk)

omit [Collation] in
theorem race_won_once : ∃ (_ : Collation) (s : LedgerSystem),
    runList engine (handle .counting) initial racesForName = some s ∧
    outcomes s = [(0, false), (1, true)] ∧ UniqueNames s.world.db := by
  let _ : Collation := Collation.ignoringCase
  have hrun : (runList engine (handle .counting) initial racesForName).any
      (fun s => decide (outcomes s = [(0, false), (1, true)])) = true := by
    decide +kernel
  obtain ⟨s, hlist, hs, hp⟩ := exists_run hrun
  exact ⟨Collation.ignoringCase, s, hlist, of_decide_eq_true hp, account_names_unique hs⟩

end Tradinghub.Ledger
