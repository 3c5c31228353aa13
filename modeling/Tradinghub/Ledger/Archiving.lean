import Tradinghub.Ledger.Discipline
import Tradinghub.Ledger.Transfers
import Tradinghub.Lib.Connections

/-!
# The first archive date

`update_account` sets an archive date only if it read none, but the UPDATE that writes it comes later
and looks at nothing.  As long as every UPDATE that sets a date finds none on the row it takes, a
date that is there stays until a restore commits, and every archive answers with it
(`first_date_kept`).  Two archives that both read a live account break this (`archived_twice`).
-/

namespace Tradinghub.Ledger

open ReadCommitted Store

abbrev LedgerConn := Conn Db Key Write Stmt DbError Failure Response Request

/-! ## Archives and restores -/

/-- When the account was archived, if it is. -/
def archivedAt (db : Db) (accountId : Nat) : Option Int :=
  (db.accounts.find? accountId).bind Account.archivedAt

def Request.setsArchived (accountId : Nat) (archived : Bool) : Request → Bool
  | ⟨_, .updateAccount id payload⟩ => id.val = accountId ∧ payload.archived = some archived
  | _ => false

/-- The change sets a date. -/
def AccountChange.setsDate (change : AccountChange) : Bool := change.archivedAt.join.isSome

/-- An UPDATE that sets an archive date finds none on the row it takes. -/
def findsLive (s : LedgerSystem) : Action Key Failure Request → Bool
  | .lock n key => (s.conns n).all fun c =>
    match c.prog.statement with
    | some (.updateAccount loaded current) =>
      !(decide (key = .account loaded.id) && (AccountChange.between loaded current).setsDate) ||
        (archivedAt s.world.db loaded.id).isNone
    | _ => true
  | _ => true

/-- A request with archived false commits on the account. -/
def restores (accountId : Nat) (s : LedgerSystem) : Action Key Failure Request → Bool
  | .advance n => (s.conns n).any fun c => c.req.setsArchived accountId false && c.prog.commits
  | _ => false

section Rows

variable {db : Db} {accountId : Nat}

theorem archivedAt_eq {a : Account} (ha : a ∈ db.accounts) (hid : a.id = accountId) :
    archivedAt db accountId = a.archivedAt := by
  rw [archivedAt, Table.find?_eq_some.2 ⟨ha, hid⟩]
  rfl

theorem archivedAt_eq_some {date : Int} : archivedAt db accountId = some date ↔
    ∃ a ∈ db.accounts, a.id = accountId ∧ a.archivedAt = some date := by
  constructor
  · intro h
    obtain ⟨a, hfind, hdate⟩ := Option.bind_eq_some_iff.1 h
    obtain ⟨ha, hid⟩ := Table.find?_eq_some.1 hfind
    exact ⟨a, ha, hid, hdate⟩
  · rintro ⟨a, ha, hid, hdate⟩
    rw [archivedAt_eq ha hid, hdate]

/-- An UPDATE of the account's row. -/
theorem archivedAt_update {a : Account} (ha : a ∈ db.accounts) (hid : a.id = accountId)
    (change : AccountChange) :
    archivedAt ((Write.updateAccount accountId change).apply db) accountId =
      change.archivedAt.getD a.archivedAt := by
  have hfind : db.accounts.find? accountId = some a := Table.find?_eq_some.2 ⟨ha, hid⟩
  simp only [Write.apply, hfind]
  exact archivedAt_eq (a := change.apply a) (Table.mem_put.2 (Or.inl rfl)) hid

/-- A row that is not the account's leaves its date alone. -/
theorem archivedAt_put {row : Account} {date : Int} (hid : row.id ≠ accountId)
    (h : archivedAt db accountId = some date) :
    archivedAt { db with accounts := db.accounts.put row } accountId = some date := by
  obtain ⟨a, ha, haid, hdate⟩ := archivedAt_eq_some.1 h
  refine archivedAt_eq_some.2 ⟨a, Table.mem_put.2 (Or.inr ⟨ha, ?_⟩), haid, hdate⟩
  intro hkey
  exact hid (hkey.symm.trans haid)

theorem archivedAt_update_other {id : Nat} {change : AccountChange} {date : Int}
    (hid : id ≠ accountId) (h : archivedAt db accountId = some date) :
    archivedAt ((Write.updateAccount id change).apply db) accountId = some date := by
  simp only [Write.apply]
  split
  · rename_i row hrow
    have hother : (change.apply row).id ≠ accountId := fun hsame =>
      hid ((Table.find?_eq_some.1 hrow).2.symm.trans hsame)
    exact archivedAt_put hother h
  · exact h

end Rows

/-! ## What a request sends -/

section Contracts

variable [Collation]

theorem applyAll_accounts {ws : List Write} (h : ∀ w ∈ ws, ∀ db, (w.apply db).accounts = db.accounts)
    (db : Db) : (engine.applyAll ws db).accounts = db.accounts := by
  induction ws generalizing db with
  | nil => rfl
  | cons w ws ih =>
    rw [Engine.applyAll_cons, ih fun w' hw' => h w' (List.mem_cons_of_mem _ hw')]
    exact h w List.mem_cons_self db

/-- What writes an account. -/
theorem finish_account {q : Stmt} {hits : List Key} {db₀ : Db} {ws : List Write}
    (h : engine.finish q hits db₀ = .ok ws) :
    (∃ row, q = .insertAccount row ∧ ws = [.insertAccount row]) ∨
    (∃ loaded current, q = .updateAccount loaded current ∧ Key.account loaded.id ∈ hits ∧
      ws = [.updateAccount loaded.id (.between loaded current)]) ∨
    ((∀ id change, Write.updateAccount id change ∉ ws) ∧
      ∀ db, (engine.applyAll ws db).accounts = db.accounts) := by
  cases finish_ok h with
  | @insertAccount row => exact Or.inl ⟨row, rfl, rfl⟩
  | @updateAccount loaded current _ hhit =>
    exact Or.inr (Or.inl ⟨loaded, current, rfl, hhit, rfl⟩)
  | @insertTransactions rows =>
    refine Or.inr (Or.inr ⟨fun id change hw => ?_, applyAll_accounts fun w hw db => ?_⟩)
    · obtain ⟨t, -, ht⟩ := List.mem_map.1 hw
      cases ht
    · obtain ⟨t, -, rfl⟩ := List.mem_map.1 hw
      rfl
  | updateTransaction =>
    refine Or.inr (Or.inr ⟨fun id change hw => ?_, applyAll_accounts fun w hw db => ?_⟩)
    · cases List.mem_singleton.1 hw
    · rw [List.mem_singleton.1 hw]
      simp only [Write.apply]
      split <;> rfl
  | deleteTransaction =>
    exact Or.inr (Or.inr ⟨fun id change hw => absurd hw List.not_mem_nil, fun db => rfl⟩)
  | deleteMatching hdeletes =>
    refine Or.inr (Or.inr ⟨fun id change hw => ?_, applyAll_accounts fun w hw db => ?_⟩)
    · obtain ⟨_, heq, _⟩ := hdeletes _ hw
      cases heq
    · obtain ⟨_, rfl, _⟩ := hdeletes w hw
      rfl

theorem finish_updateAccount {loaded current : Account} {hits : List Key} {db₀ : Db}
    {ws : List Write} (h : engine.finish (.updateAccount loaded current) hits db₀ = .ok ws) :
    ws = [.updateAccount loaded.id (.between loaded current)] := by
  have hfinish : (Stmt.updateAccount loaded current).finish hits db₀ = .ok ws := h
  cases finish_ok hfinish with
  | updateAccount => rfl

variable {C : Contract Stmt Response}

omit [Collation] in
theorem meets_select {α : Type} {q : Db → α} {f : α → Program Response}
    (h : ∀ a, (f a).Meets C) : (Prog.select q >>= f).Meets C := fun db => h (q db)

/-- What an update makes of the archive date. -/
inductive Dated (payload : AccountUpdate) (loaded : Account) : Option Int → Prop
  | restored (h : payload.archived = some false) : Dated payload loaded none
  | archived (h : payload.archived = some true) (hlive : loaded.archivedAt = none) (now : Int) :
      Dated payload loaded (some now)
  | kept (h : payload.archived ≠ some false)
      (hdated : payload.archived = some true → loaded.archivedAt ≠ none) :
      Dated payload loaded loaded.archivedAt

omit [Collation] in
theorem meets_flush {q : Stmt} {f : Except DbError (List Key) → Program Response}
    (hq : C.sends q) (hok : ∀ hits, (f (.ok hits)).Ends (C.replies q))
    (herror : ∀ d, ∃ e, f (.error d) = .raise e) : (flush q >>= f).Meets C :=
  ⟨hq, fun r => hok r.1, herror⟩

omit [Collation] in
theorem meets_execute {q : Stmt} {f : List Key → Program Response} (hq : C.sends q)
    (h : ∀ hits, (f hits).Ends (C.replies q)) : (execute q >>= f).Meets C :=
  ⟨hq, fun r => h r.1, fun d => ⟨.database d, rfl⟩⟩

omit [Collation] in
theorem orNameTaken_raises (d : DbError) {f : Unit → Program Response} :
    ∃ e, (orNameTaken (.error d) >>= f) = .raise e := by
  simp only [orNameTaken]
  by_cases hd : DbError.isIntegrityError d = true
  · rw [if_pos hd]
    exact ⟨_, rfl⟩
  · rw [if_neg hd]
    exact ⟨_, rfl⟩

omit [Collation] in
/-- A changed account is flushed, an unchanged one answered as it is. -/
theorem meets_flushAccount {loaded current : Account} {f : Unit → Program Response}
    (hsame : loaded = current → (f ()).Meets C) (hq : C.sends (.updateAccount loaded current))
    (hf : (f ()).Ends (C.replies (.updateAccount loaded current))) :
    (flushAccount loaded current >>= fun r => orNameTaken r >>= f).Meets C := by
  rw [flushAccount]
  by_cases heq : loaded = current
  · rw [if_pos heq]
    exact hsame heq
  · rw [if_neg heq]
    exact meets_flush hq (fun _ => hf) fun d => orNameTaken_raises d

/-- The rows of accounts a request writes: a new one of its own, and an archive date is cleared by
a restore only. -/
def accountContract (env : Env) (n : Nat) (req : Request) : Contract Stmt Response where
  sends
    | .insertAccount row => row.id = env.accountId n
    | .updateAccount loaded current =>
      (AccountChange.between loaded current).archivedAt = some none →
        req.setsArchived loaded.id false = true
    | _ => True

omit [Collation] in
theorem getAccountWithBalance_id {db : Db} {accountId userId : Nat} {found : AccountWithBalance}
    (h : getAccountWithBalance db accountId userId = some found) : found.account.id = accountId := by
  have hmem : found ∈ accountsWithBalancesStatement db fun a =>
      a.userId = userId ∧ a.id = accountId := List.mem_of_head? h
  rw [accountsWithBalances_eq] at hmem
  obtain ⟨a, ha, rfl⟩ := List.mem_map.1 hmem
  exact (of_decide_eq_true (List.mem_filter.1 ha).2).2

omit [Collation] in
theorem changed_eq_some {α : Type} [DecidableEq α] {loaded current new : α} :
    changed loaded current = some new ↔ loaded ≠ current ∧ current = new := by
  unfold changed
  split
  · rename_i heq
    simp [heq]
  · rename_i hne
    simp [hne]

omit [Collation] in
theorem select_bind {α : Type} (q : Db → α) (f : α → Program Response) :
    (Prog.select q >>= f) = .query fun db => f (q db) := rfl

omit [Collation] in
/-- Only a restore clears a date. -/
theorem Dated.cleared {payload : AccountUpdate} {loaded : Account} {date : Option Int}
    (h : Dated payload loaded date) (hnone : date = none) (hdated : loaded.archivedAt ≠ none) :
    payload.archived = some false := by
  cases h with
  | restored h => exact h
  | archived => cases hnone
  | kept => exact absurd hnone hdated

omit [Collation] in
theorem applyAccountUpdate_meets {loaded : Account} {payload : AccountUpdate}
    {f : Account → Program Response}
    (h : ∀ current, current.id = loaded.id → Dated payload loaded current.archivedAt →
      (f current).Meets C) : (applyAccountUpdate loaded payload >>= f).Meets C := by
  rw [applyAccountUpdate]
  by_cases hrestored : payload.archived = some false
  · rw [if_pos hrestored]
    exact h _ rfl (.restored hrestored)
  · rw [if_neg hrestored]
    by_cases hfirst : payload.archived = some true ∧ loaded.archivedAt = none
    · rw [if_pos hfirst]
      exact fun now => h _ rfl (.archived hfirst.1 hfirst.2 now)
    · rw [if_neg hfirst]
      exact h _ rfl (.kept hrestored fun harchived hnone => hfirst ⟨harchived, hnone⟩)

/-- `update_account`, once the account has been looked for. -/
def updateFound (payload : AccountUpdate) : Option AccountWithBalance → Program Response
  | none => .raise (.app AccountNotFoundError)
  | some found => do
    let account ← applyAccountUpdate found.account payload
    orNameTaken (← flushAccount found.account account)
    return .account (accountResponse { found with account := account })

theorem route_updateAccount (env : Env) (n userId : Nat) (accountId : RowId)
    (payload : AccountUpdate) : route env n userId (.updateAccount accountId payload) =
      .query fun db => updateFound payload (getAccountWithBalance db accountId.val userId) := by
  simp only [route, updateAccount, getAccountOrRaise, Prog.bind_assoc, Prog.pure_eq]
  rw [select_bind]
  refine congrArg Prog.query (funext fun db => ?_)
  cases getAccountWithBalance db accountId.val userId <;> rfl

omit [Collation] in
/-- What it sends and answers. -/
theorem updateFound_meets {payload : AccountUpdate} {r : Option AccountWithBalance}
    (h : ∀ found current : AccountWithBalance, r = some found →
      current.account.id = found.account.id →
      Dated payload found.account current.account.archivedAt →
      (found.account = current.account → C.answers (.account (accountResponse current))) ∧
      C.sends (.updateAccount found.account current.account) ∧
      C.replies (.updateAccount found.account current.account)
        (.account (accountResponse current))) :
    (updateFound payload r).Meets C := by
  cases r with
  | none => trivial
  | some found =>
    refine applyAccountUpdate_meets fun current hid hdated => ?_
    obtain ⟨hanswer, hsend, hreply⟩ := h found { found with account := current } rfl hid hdated
    exact meets_flushAccount hanswer hsend hreply

theorem handle_meets (env : Env) (n : Nat) (req : Request) :
    (handle env n req).Meets (accountContract env n req) := by
  obtain ⟨userId, endpoint⟩ := req
  unfold handle
  cases endpoint with
  | createAccount payload =>
    simp only [route, createAccount, Prog.bind_assoc]
    exact meets_flush rfl (fun _ => trivial) fun d => orNameTaken_raises d
  | listAccounts => exact meets_select fun _ => trivial
  | getAccount accountId =>
    simp only [route, getAccountOrRaise, Prog.bind_assoc]
    refine meets_select fun found => ?_
    cases found <;> trivial
  | updateAccount accountId payload =>
    rw [route_updateAccount]
    refine fun db => updateFound_meets fun found current hfound hid hdated =>
      ⟨fun _ => trivial, fun hcleared => ?_, trivial⟩
    obtain ⟨hne, hnone⟩ := changed_eq_some.1 hcleared
    have hrestored := hdated.cleared hnone fun hold => hne (hold.trans hnone.symm)
    exact decide_eq_true ⟨(getAccountWithBalance_id hfound).symm, hrestored⟩
  | createTransaction payload =>
    simp only [route, createTransaction, Prog.bind_assoc, Prog.pure_eq]
    refine meets_select fun found => ?_
    cases found with
    | none => trivial
    | some found =>
      simp only [Prog.bind_assoc, Prog.discard_eq]
      exact meets_execute trivial fun _ => trivial
  | listTransactions filters => exact meets_select fun _ => meets_select fun _ => trivial
  | getTransaction transactionId =>
    simp only [route, getTransactionOrRaise, Prog.bind_assoc]
    refine meets_select fun found => ?_
    cases found <;> trivial
  | updateTransaction transactionId payload =>
    simp only [route, updateTransaction, getTransactionOrRaise, Prog.bind_assoc, Prog.pure_eq]
    refine meets_select fun found => ?_
    cases found with
    | none => trivial
    | some loaded =>
      simp only [Prog.ret_bind]
      by_cases hgroup : loaded.transferGroupId.isSome = true
      · rw [if_pos hgroup]
        trivial
      · rw [if_neg hgroup, flushTransaction]
        split
        · trivial
        · simp only [Prog.bind_assoc, Prog.discard_eq]
          exact meets_execute trivial fun _ => trivial
  | deleteTransaction transactionId =>
    simp only [route, deleteTransaction, Prog.bind_assoc]
    refine meets_execute trivial fun hits => ?_
    split <;> trivial
  | createTransfer payload =>
    simp only [route, createTransfer, Prog.pure_eq]
    split
    · trivial
    · simp only [Prog.bind_assoc]
      refine meets_select fun accounts => ?_
      split
      · trivial
      · split
        · trivial
        · simp only [Prog.bind_assoc, Prog.discard_eq]
          exact meets_execute trivial fun _ => trivial
  | getSummary period => exact meets_select fun _ => trivial

end Contracts

/-! ## The account's row, from the UPDATE that takes it to the commit -/

section Runs

variable [Collation] {env : Env} {accountId : Nat} {s s' : LedgerSystem} {n : Nat}

/-- The request holds the account, which has no archive date if one is to be set on it. -/
structure Holding (s : LedgerSystem) (locks : List Key) (id : Nat) (change : AccountChange) :
    Prop where
  held : Key.account id ∈ locks
  live : ∃ a ∈ s.world.db.accounts, a.id = id ∧ (change.setsDate = true → a.archivedAt = none)

structure Tracked (s : LedgerSystem) (c : LedgerConn) : Prop where
  taken : ∀ loaded current todo hits k, c.prog = .scan (.updateAccount loaded current) todo hits k →
    Key.account loaded.id ∈ hits → Holding s c.tx.locks loaded.id (.between loaded current)
  written : ∀ id change, Write.updateAccount id change ∈ c.tx.writes →
    Holding s c.tx.locks id change

omit [Collation] in
theorem Holding.mono {locks locks' : List Key} {id : Nat} {change : AccountChange}
    (h : Holding s locks id change) (hlocks : ∀ key ∈ locks, key ∈ locks')
    (hrow : ∀ a ∈ s.world.db.accounts, Key.account a.id ∈ locks → a ∈ s'.world.db.accounts) :
    Holding s' locks' id change := by
  obtain ⟨hheld, a, ha, hid, hlive⟩ := h
  exact ⟨hlocks _ hheld, a, hrow a ha (hid ▸ hheld), hid, hlive⟩

theorem plan_account (env : Env) (n : Nat) (req : Request) (q : Stmt) (db : Db)
    (h : (accountContract env n req).sends q) :
    (accountContract env n req).sends (engine.plan q db).1 ∧
      ∀ a, (accountContract env n req).replies q a →
        (accountContract env n req).replies (engine.plan q db).1 a := by
  refine ⟨?_, fun _ _ => trivial⟩
  cases q <;> exact h

theorem stages_follow (env : Env) (ok : LedgerSystem → Action Key Failure Request → Prop) :
    Follows engine (handle env) ok { world := initialWorld } fun _ n c =>
      Stage engine (accountContract env n c.req) c.prog c.tx.writes where
  start _ _ _ := .reading (handle_meets env _ _)
  own := by
    rintro s s' a n c c' - - - - hown hc
    rw [hown.req]
    exact hown.stage (plan_account env n c.req) (fun _ _ _ _ => act_nil) hc
  others _ _ _ _ _ hc := hc

variable {ok : LedgerSystem → Action Key Failure Request → Prop}

theorem ledger_stages (h : Run engine (handle env) ok { world := initialWorld } s) :
    ∀ n c, s.conns n = some c → Stage engine (accountContract env n c.req) c.prog c.tx.writes :=
  h.conns (stages_follow env ok) fun _ _ hc => by cases hc

theorem run_good (h : Run engine (handle env) ok { world := initialWorld } s) :
    Good (discipline env {}) engine s :=
  ledger_run (initial_ledger env) rfl (h.mono fun _ _ _ => trivial)

/-- A step of another request keeps the rows this one holds. -/
theorem others_keep (h : Run engine (handle env) ok { world := initialWorld } s)
    {a : Action Key Failure Request} (hs : step engine (handle env) s a = some s')
    {c : LedgerConn} (hc : s.conns n = some c) (hc' : s'.conns n = some c) :
    ∀ r ∈ s.world.db.accounts, Key.account r.id ∈ c.tx.locks → r ∈ s'.world.db.accounts := by
  intro r hr hheld
  rcases step_stage hs (ledger_stages h) with hdb | ⟨m, d, x, rfl, hd, hp, hdb, hgone⟩
  · rwa [hdb]
  · have hmn : m ≠ n := by
      rintro rfl
      rw [hgone] at hc'
      cases hc'
    have hgood := run_good h
    have hwp := hgood.wp m d hd
    rw [hp] at hwp
    obtain ⟨⟨-, hframe⟩, -, -⟩ := hwp _ (hgood.here hd)
    rw [hdb]
    exact hframe.account r hr fun hid => hgood.disjoint n m c d (Ne.symm hmn) hc hd hheld hid

/-- A row that is taken while it has no date, or by an UPDATE that sets none. -/
theorem holding_of_taken {loaded current : Account} {c : LedgerConn} {locks : List Key}
    (hfinds : findsLive s (.lock n (.account loaded.id)) = true) (hc : s.conns n = some c)
    (hstatement : c.prog.statement = some (.updateAccount loaded current))
    (hlocks : Key.account loaded.id ∈ locks)
    (htakes : (engine.act (.updateAccount loaded current) (.account loaded.id)
      s.world.db).isSome = true) : Holding s locks loaded.id (.between loaded current) := by
  have hrow : (s.world.db.accounts.find? loaded.id).isSome = true := by
    by_contra hnone
    simp [engine, Stmt.takes, hnone] at htakes
  obtain ⟨a, ha⟩ := Option.isSome_iff_exists.1 hrow
  obtain ⟨hmem, hid⟩ := Table.find?_eq_some.1 ha
  refine ⟨hlocks, a, hmem, hid, fun hsets => ?_⟩
  simp only [findsLive, hc, Option.all_some, hstatement, hsets, decide_true, Bool.and_self,
    Bool.not_true, Bool.false_or, Option.isNone_iff_eq_none] at hfinds
  rwa [archivedAt_eq hmem hid] at hfinds

theorem tracked_follows (env : Env) :
    Follows engine (handle env) (fun s a => findsLive s a = true) { world := initialWorld }
      fun s _ c => Tracked s c where
  start := by
    rintro s s' req - - -
    refine ⟨fun loaded current todo hits k hscan => ?_, fun id change hw => by cases hw⟩
    have hmeets := handle_meets env s.world.started req
    rw [show handle env s.world.started req = _ from hscan] at hmeets
    exact hmeets.elim
  own := by
    rintro s s' a n c c' hr hfinds hs hc hown htracked
    have hstage := ledger_stages hr n c hc
    have hdb := hown.keeps_db hs hc (ledger_stages hr)
    have hkeep : ∀ {id : Nat} {change : AccountChange}, Holding s c.tx.locks id change →
        Holding s' c'.tx.locks id change := by
      intro id change hholding
      exact hholding.mono (fun key => hown.locks hstage) fun r hr _ => hdb ▸ hr
    refine ⟨fun loaded current todo hits k hscan hhit => ?_, fun id change hw => ?_⟩
    · rcases hown.taken hstage hscan hhit with ⟨todo', hits', hp, hhit'⟩ | ⟨rfl, hp, hlock, htakes⟩
      · exact hkeep (htracked.taken loaded current todo' hits' k hp hhit')
      · rw [hstage.view (by simp [hp]) s.world.db] at htakes
        exact (holding_of_taken hfinds hc hp hlock htakes).mono (fun _ hkey => hkey)
          fun r hr _ => hdb ▸ hr
    · rcases hown.wrote (fun _ _ _ _ => act_nil) hw with hw | ⟨q, hits, k, db, ws, hp, hfinish, hw⟩
      · exact hkeep (htracked.written id change hw)
      · rcases finish_account hfinish with ⟨row, -, rfl⟩ | ⟨loaded, current, rfl, hhit, rfl⟩ |
          ⟨hnone, -⟩
        · cases List.mem_singleton.1 hw
        · cases List.mem_singleton.1 hw
          exact hkeep (htracked.taken loaded current [] hits k hp hhit)
        · exact absurd hw (hnone id change)
  others := by
    rintro s s' a n c hr - hs hc hc' htracked
    have hkeep : ∀ {id : Nat} {change : AccountChange}, Holding s c.tx.locks id change →
        Holding s' c.tx.locks id change :=
      fun hholding => hholding.mono (fun _ hkey => hkey) (others_keep hr hs hc hc')
    exact ⟨fun loaded current todo hits k hp hhit =>
      hkeep (htracked.taken loaded current todo hits k hp hhit),
      fun id change hw => hkeep (htracked.written id change hw)⟩

/-- **One step**: a date stays if the UPDATEs that set one find none and no restore commits. -/
theorem date_stays (h : Run engine (handle env) (fun s a => findsLive s a = true)
      { world := initialWorld } s) {a : Action Key Failure Request}
    (hs : step engine (handle env) s a = some s') (hrestores : restores accountId s a = false)
    {date : Int} (hdate : archivedAt s.world.db accountId = some date) :
    archivedAt s'.world.db accountId = some date := by
  rcases step_stage hs (ledger_stages h) with hdb | ⟨n, c, x, rfl, hc, hp, hdb, -⟩
  · rwa [hdb]
  · have hstage := ledger_stages h n c hc
    have htracked : Tracked s c :=
      h.conns (tracked_follows env) (fun _ _ hc => by cases hc) n c hc
    rw [hdb, Engine.view]
    by_cases hwrites : c.tx.writes = []
    · rwa [hwrites]
    · obtain ⟨q, hits, db₀, hsends, hfinish, -⟩ := hstage.cases_of_ne hwrites
      rcases finish_account hfinish with ⟨row, rfl, hws⟩ | ⟨loaded, current, rfl, -, hws⟩ | ⟨-, hkept⟩
      · -- a new account is not this one
        obtain ⟨r, hr, hid, -⟩ := archivedAt_eq_some.1 hdate
        have hgood := run_good h
        have hne := hgood.inv.1.account_ne (hgood.unanswered n c hc) hr
        rw [hws]
        refine archivedAt_put (fun hsame => hne ?_) hdate
        rw [hid, ← hsame]
        exact hsends
      · have hwritten := htracked.written loaded.id (.between loaded current)
          (hws ▸ List.mem_singleton_self _)
        rw [hws]
        show archivedAt ((Write.updateAccount loaded.id _).apply s.world.db) accountId = some date
        by_cases hid : loaded.id = accountId
        · -- this account: the change neither sets a date nor clears it
          obtain ⟨-, r, hr, hrid, hlive⟩ := hwritten
          have hrdate : r.archivedAt = some date := by
            rw [← hdate, ← hid]
            exact (archivedAt_eq hr hrid).symm
          rw [← hid, archivedAt_update hr hrid]
          cases hchange : (AccountChange.between loaded current).archivedAt with
          | none => exact hrdate
          | some new =>
            cases new with
            | none =>
              have hrestored := hsends hchange
              rw [hid] at hrestored
              simp only [restores, hc, Option.any_some, hrestored, hp, Prog.commits,
                Bool.and_self] at hrestores
              cases hrestores
            | some later =>
              have hsets : (AccountChange.between loaded current).setsDate = true := by
                rw [AccountChange.setsDate, hchange]
                rfl
              rw [hlive hsets] at hrdate
              cases hrdate
        · exact archivedAt_update_other hid hdate
      · rw [archivedAt, hkept]
        exact hdate

/-! ## What an archive answers -/

/-- An archive that has read `date`: it answers this date, or the one its UPDATE sets. -/
def archiveContract (accountId : Nat) (date : Option Int) : Contract Stmt Response where
  answers r := ∃ account, r = .account account ∧ account.archivedAt ≠ none ∧
    account.archivedAt = date
  replies q r := ∃ account, r = .account account ∧ account.archivedAt ≠ none ∧
    (account.archivedAt = date ∨ ∃ loaded current, q = .updateAccount loaded current ∧
      loaded.id = accountId ∧
      (AccountChange.between loaded current).archivedAt = some account.archivedAt)

omit [Collation] in
theorem archive_meets {db : Db} {userId : Nat} {payload : AccountUpdate}
    (harchived : payload.archived = some true) :
    (updateFound payload (getAccountWithBalance db accountId userId)).Meets
      (archiveContract accountId (archivedAt db accountId)) := by
  refine updateFound_meets fun found current hfound hid hdated => ?_
  have hloaded := getAccountWithBalance_id hfound
  rw [archivedAt_eq (mem_of_getAccountWithBalance hfound).1 hloaded]
  generalize hdate : current.account.archivedAt = date at hdated
  cases hdated with
  | restored hrestored =>
    rw [harchived] at hrestored
    cases hrestored
  | archived _ hlive now =>
    refine ⟨fun hsame => ?_, trivial, _, rfl, ?_, Or.inr ⟨_, _, rfl, hloaded, ?_⟩⟩
    · rw [← hsame, hlive] at hdate
      cases hdate
    · show current.account.archivedAt ≠ none
      rw [hdate]
      exact Option.some_ne_none now
    · refine changed_eq_some.2 ⟨?_, rfl⟩
      rw [hlive, hdate]
      exact (Option.some_ne_none now).symm
  | kept _ hold =>
    have hne : current.account.archivedAt ≠ none := hdate ▸ hold harchived
    exact ⟨fun _ => ⟨_, rfl, hne, hdate⟩, trivial, _, rfl, hne, Or.inl hdate⟩

/-- An archive of the account, from its start on, while no restore commits. -/
def Archiving (env : Env) (accountId : Nat) (s : LedgerSystem) (n : Nat) (c : LedgerConn) : Prop :=
  c.req.setsArchived accountId true = true →
    (c.prog = handle env n c.req ∧ c.tx.writes = []) ∨
    ∃ date, (date ≠ none → archivedAt s.world.db accountId = date) ∧
      Stage engine (archiveContract accountId date) c.prog c.tx.writes

omit [Collation] in
theorem setsArchived_iff {req : Request} {archived : Bool} :
    req.setsArchived accountId archived = true ↔ ∃ userId id payload,
      req = ⟨userId, .updateAccount id payload⟩ ∧ id.val = accountId ∧
        payload.archived = some archived := by
  constructor
  · intro h
    obtain ⟨userId, endpoint⟩ := req
    cases endpoint with
    | updateAccount id payload =>
      obtain ⟨hid, harchived⟩ := of_decide_eq_true h
      exact ⟨userId, id, payload, rfl, hid, harchived⟩
    | _ => cases h
  · rintro ⟨userId, id, payload, rfl, hid, harchived⟩
    exact decide_eq_true ⟨hid, harchived⟩

theorem plan_archive (date : Option Int) (q : Stmt) (db : Db)
    (_ : (archiveContract accountId date).sends q) :
    (archiveContract accountId date).sends (engine.plan q db).1 ∧
      ∀ a, (archiveContract accountId date).replies q a →
        (archiveContract accountId date).replies (engine.plan q db).1 a := by
  refine ⟨trivial, fun a h => ?_⟩
  cases q with
  | deleteTransaction userId transactionId =>
    obtain ⟨account, rfl, hne, hdate | ⟨loaded, current, heq, -⟩⟩ := h
    · exact ⟨account, rfl, hne, Or.inl hdate⟩
    · cases heq
  | _ => exact h

section Since

variable {s₁ : LedgerSystem}

/-- Steps at which no restore commits. -/
def keepsDate (accountId : Nat) (s : LedgerSystem) (a : Action Key Failure Request) : Bool :=
  findsLive s a && !restores accountId s a

theorem run_since (h : Run engine (handle env) (fun s a => findsLive s a = true)
      { world := initialWorld } s₁)
    (hr : Run engine (handle env) (fun s a => keepsDate accountId s a = true) s₁ s) :
    Run engine (handle env) (fun s a => findsLive s a = true) { world := initialWorld } s :=
  h.trans (hr.mono fun _ _ hok => (Bool.and_eq_true_iff.1 hok).1)

theorem date_stays_since (h : Run engine (handle env) (fun s a => findsLive s a = true)
      { world := initialWorld } s₁)
    (hr : Run engine (handle env) (fun s a => keepsDate accountId s a = true) s₁ s)
    {a : Action Key Failure Request} (hok : keepsDate accountId s a = true)
    (hs : step engine (handle env) s a = some s') {date : Int}
    (hdate : archivedAt s.world.db accountId = some date) :
    archivedAt s'.world.db accountId = some date :=
  date_stays (run_since h hr) hs (by simpa using (Bool.and_eq_true_iff.1 hok).2) hdate

theorem archiving_follows (h : Run engine (handle env) (fun s a => findsLive s a = true)
      { world := initialWorld } s₁) :
    Follows engine (handle env) (fun s a => keepsDate accountId s a = true) s₁
      fun s n c => s₁.world.started ≤ n → Archiving env accountId s n c where
  start _ _ _ _ _ := Or.inl ⟨rfl, rfl⟩
  own := by
    rintro s s' a n c c' hr hok hs hc hown harchiving hn hsets
    have hdb := hown.keeps_db hs hc (ledger_stages (run_since h hr))
    right
    rw [hdb]
    rcases harchiving hn (hown.req ▸ hsets) with ⟨hprog, hwrites⟩ | ⟨date, hdate, hstage⟩
    · obtain ⟨userId, id, payload, hreq, hid, harchived⟩ := setsArchived_iff.1 (hown.req ▸ hsets)
      rw [hreq, handle, route_updateAccount] at hprog
      cases hown with
      | query hprog' =>
        obtain rfl := Prog.query.inj (hprog.symm.trans hprog')
        refine ⟨archivedAt s.world.db accountId, fun _ => rfl, ?_⟩
        show Stage engine _ (updateFound payload
          (getAccountWithBalance (engine.view c.tx s.world.db) id.val userId)) c.tx.writes
        rw [Engine.view, hwrites, Engine.applyAll_nil, hid]
        exact .reading (archive_meets harchived)
      | _ hprog' => cases hprog.symm.trans hprog'
    · exact ⟨date, hdate, hown.stage (plan_archive date) (fun _ _ _ _ => act_nil) hstage⟩
  others := by
    rintro s s' a n c hr hok hs hc hc' harchiving hn hsets
    rcases harchiving hn hsets with hasked | ⟨date, hdate, hstage⟩
    · exact Or.inl hasked
    · refine Or.inr ⟨date, fun hne => ?_, hstage⟩
      obtain ⟨day, rfl⟩ := Option.ne_none_iff_exists'.1 hne
      exact date_stays_since h hr hok hs (hdate hne)

/-- What an archive that commits has answered is what the account then has. -/
theorem archive_commits (h : Run engine (handle env) (fun s a => findsLive s a = true)
      { world := initialWorld } s₁)
    (hr : Run engine (handle env) (fun s a => keepsDate accountId s a = true) s₁ s)
    (hok : keepsDate accountId s (.advance n) = true)
    (hs : step engine (handle env) s (.advance n) = some s') {c : LedgerConn}
    (hc : s.conns n = some c) {response : Response} (hp : c.prog = .ret response)
    (hsets : c.req.setsArchived accountId true = true)
    (harchiving : Archiving env accountId s n c) :
    ∃ account, response = .account account ∧ account.archivedAt ≠ none ∧
      archivedAt s'.world.db accountId = account.archivedAt := by
  obtain ⟨req, prog, tx⟩ := c
  obtain rfl : prog = .ret response := hp
  rcases harchiving hsets with ⟨hprog, -⟩ | ⟨date, hdate, hstage⟩
  · obtain ⟨userId, id, payload, hreq, -⟩ := setsArchived_iff.1 hsets
    rw [hreq, handle, route_updateAccount] at hprog
    cases hprog
  · -- a date that was read has stayed, and stays
    have hread : ∀ account : AccountResponse, account.archivedAt ≠ none →
        account.archivedAt = date → archivedAt s'.world.db accountId = account.archivedAt := by
      rintro account hne rfl
      obtain ⟨day, hday⟩ := Option.ne_none_iff_exists'.1 hne
      rw [hday]
      exact date_stays_since h hr hok hs ((hdate hne).trans hday)
    generalize hws : tx.writes = ws at hstage
    cases hstage with
    | reading hanswers =>
      obtain ⟨account, rfl, hne, hsame⟩ := hanswers
      exact ⟨account, rfl, hne, hread account hne hsame⟩
    | written _ hfinish hreplies =>
      obtain ⟨account, rfl, hne, hsame | ⟨loaded, current, rfl, hid, hchange⟩⟩ := hreplies
      · exact ⟨account, rfl, hne, hread account hne hsame⟩
      · refine ⟨account, rfl, hne, ?_⟩
        have hupdate := hws.trans (finish_updateAccount hfinish)
        have htracked : Tracked s ⟨req, .ret (.account account), tx⟩ :=
          (run_since h hr).conns (tracked_follows env) (fun _ _ hc => by cases hc) n _ hc
        obtain ⟨-, r, hmem, hrid, -⟩ := htracked.written loaded.id (.between loaded current)
          (hupdate ▸ List.mem_singleton_self _)
        have hdb : s'.world.db = (Write.updateAccount loaded.id (.between loaded current)).apply
            s.world.db := by
          simp only [step, hc, Option.bind_some, advance, Option.some.injEq] at hs
          subst hs
          show engine.applyAll tx.writes s.world.db = _
          rw [hupdate]
          rfl
        rw [hdb, ← hid, archivedAt_update hmem hrid, hchange]
        rfl

end Since

/-- **The first archive date is kept**, in every interleaving: while the UPDATEs that set a date find
none, and until a restore of the account commits, a date that is there stays, and every archive that
begins and succeeds answers with the date that stays. -/
theorem first_date_kept {s₁ : LedgerSystem}
    (h : Run engine (handle env) (fun s a => findsLive s a = true) { world := initialWorld } s₁)
    (hr : Run engine (handle env) (fun s a => keepsDate accountId s a = true) s₁ s) :
    (∀ date, archivedAt s₁.world.db accountId = some date →
      archivedAt s.world.db accountId = some date) ∧
    ∀ n req response, s₁.world.started ≤ n → req.setsArchived accountId true = true →
      (n, req, .ok response) ∈ s.world.log → ∃ account, response = .account account ∧
        account.archivedAt ≠ none ∧ archivedAt s.world.db accountId = account.archivedAt := by
  constructor
  · intro date hdate
    induction hr with
    | refl => exact hdate
    | tail hr hok hs ih => exact date_stays_since h hr hok hs ih
  · have hgood := run_good h
    intro n req response hn hsets hanswer
    refine hr.answers (A := fun s n req r => s₁.world.started ≤ n →
      req.setsArchived accountId true = true → ∀ response, r = .ok response →
      ∃ account, response = .account account ∧ account.archivedAt ≠ none ∧
        archivedAt s.world.db accountId = account.archivedAt) (archiving_follows h)
      (fun n c hc hn => absurd (hgood.bound n c hc) (Nat.not_lt.2 hn))
      (fun n req r he hn => absurd (hgood.logged _ he) (Nat.not_lt.2 hn)) ?_ ?_ n req _ hanswer hn
      hsets response rfl
    · rintro s s' a n c r hr hok hs hc harchiving ha hn hsets response rfl
      cases ha with
      | ret hp => exact archive_commits h hr hok hs hc hp hsets (harchiving hn)
    · rintro s s' a n req r hr hok hs hA hn hsets response rfl
      obtain ⟨account, rfl, hne, hsame⟩ := hA hn hsets response rfl
      obtain ⟨day, hday⟩ := Option.ne_none_iff_exists'.1 hne
      refine ⟨account, rfl, hne, ?_⟩
      rw [hday] at hsame ⊢
      exact date_stays_since h hr hok hs hsame

end Runs

/-! ## Two archives -/

def archive : Request := ⟨1, .updateAccount .one { archived := some true }⟩

/-- Request 1 archives the account. -/
def archivedOnce : List (Action Key Failure Request) :=
  opensAccount 0 "euros" "EUR" ++ [.start archive, .advance 1, .advance 1, .advance 1,
    .lock 1 (.account 1), .advance 1, .advance 1]

/-- Later request 2 does. -/
def archivedAgain : List (Action Key Failure Request) :=
  [.tick 5, .start archive, .advance 2, .advance 2]

/-- Requests 1 and 2 both read a live account, at different times, and request 1 commits. -/
def bothRead : List (Action Key Failure Request) :=
  opensAccount 0 "euros" "EUR" ++ [.start archive, .start archive, .advance 1, .advance 2,
    .advance 1, .tick 5, .advance 2, .advance 1, .lock 1 (.account 1), .advance 1, .advance 1]

/-- Then request 2 does. -/
def secondCommits : List (Action Key Failure Request) :=
  [.advance 2, .lock 2 (.account 1), .advance 2, .advance 2]

/-- Request `n` archived the account and was answered with this date. -/
def archiveAnswered (s : LedgerSystem) (n : Nat) (date : Int) : Bool :=
  s.world.log.any fun e => decide (e.1 = n ∧ e.2.1 = archive) &&
    match e.2.2 with
    | .ok (.account account) => account.archivedAt = some date
    | _ => false

theorem archiveAnswered_spec {s : LedgerSystem} {n : Nat} {date : Int}
    (h : archiveAnswered s n date = true) : ∃ account,
      (n, archive, .ok (.account account)) ∈ s.world.log ∧ account.archivedAt = some date := by
  obtain ⟨⟨m, req, r⟩, he, hfound⟩ := List.any_eq_true.1 h
  obtain ⟨hreq, hdate⟩ := Bool.and_eq_true_iff.1 hfound
  obtain ⟨rfl, rfl⟩ := of_decide_eq_true hreq
  cases r with
  | error e => cases hdate
  | ok response =>
    cases response with
    | account account => exact ⟨account, he, of_decide_eq_true hdate⟩
    | _ => cases hdate

theorem archived_again : ∃ (_ : Collation) (s₁ s : LedgerSystem) (account : AccountResponse),
    runList engine (handle .counting) { world := initialWorld } archivedOnce = some s₁ ∧
      runList engine (handle .counting) s₁ archivedAgain = some s ∧
      archivedAt s₁.world.db 1 = some 0 ∧ archivedAt s.world.db 1 = some 0 ∧
      (2, archive, .ok (.account account)) ∈ s.world.log ∧
      archivedAt s.world.db 1 = account.archivedAt := by
  let _ : Collation := Collation.codePoints
  have hallowed : allowed engine (handle .counting) findsLive { world := initialWorld }
      archivedOnce = true := by
    decide +kernel
  have hrun : (runList engine (handle .counting) { world := initialWorld } archivedOnce).any
      (fun s₁ => allowed engine (handle .counting) (keepsDate 1) s₁ archivedAgain &&
        (runList engine (handle .counting) s₁ archivedAgain).any fun s =>
          decide (archivedAt s₁.world.db 1 = some 0 ∧ s₁.world.started ≤ 2) &&
            archiveAnswered s 2 0) = true := by
    decide +kernel
  obtain ⟨s₁, s, hlist₁, h, hlist, hr, hp⟩ := exists_allowed_then hallowed hrun
  obtain ⟨hfirst, hanswered⟩ := Bool.and_eq_true_iff.1 hp
  obtain ⟨hdate, hbegun⟩ := of_decide_eq_true hfirst
  obtain ⟨account, hanswer, -⟩ := archiveAnswered_spec hanswered
  obtain ⟨hkept, hanswers⟩ := first_date_kept h hr
  obtain ⟨found, heq, -, hsame⟩ := hanswers 2 archive _ hbegun rfl hanswer
  obtain rfl := Response.account.inj heq
  exact ⟨Collation.codePoints, s₁, s, account, hlist₁, hlist, hdate, hkept 0 hdate, hanswer, hsame⟩

/-- The second date overwrites the first, which request 1 has answered. -/
theorem archived_twice : ∃ (_ : Collation) (s₁ s : LedgerSystem) (account : AccountResponse),
    runList engine (handle .counting) { world := initialWorld } bothRead = some s₁ ∧
      runList engine (handle .counting) s₁ secondCommits = some s ∧
      Run engine (handle .counting) anyStep { world := initialWorld } s₁ ∧
      Run engine (handle .counting) (fun s a => (!restores 1 s a) = true) s₁ s ∧
      (1, archive, .ok (.account account)) ∈ s₁.world.log ∧ account.archivedAt = some 0 ∧
      archivedAt s₁.world.db 1 = some 0 ∧ archivedAt s.world.db 1 = some 5 := by
  let _ : Collation := Collation.codePoints
  have hallowed : allowed engine (handle .counting) (fun _ _ => true) { world := initialWorld }
      bothRead = true := by
    decide +kernel
  have hrun : (runList engine (handle .counting) { world := initialWorld } bothRead).any
      (fun s₁ => allowed engine (handle .counting) (fun s a => !restores 1 s a) s₁ secondCommits &&
        (runList engine (handle .counting) s₁ secondCommits).any fun s =>
          archiveAnswered s₁ 1 0 &&
            decide (archivedAt s₁.world.db 1 = some 0 ∧ archivedAt s.world.db 1 = some 5)) =
      true := by
    decide +kernel
  obtain ⟨s₁, s, hlist₁, h, hlist, hr, hp⟩ := exists_allowed_then hallowed hrun
  obtain ⟨hanswered, hdates⟩ := Bool.and_eq_true_iff.1 hp
  obtain ⟨hdate₁, hdate⟩ := of_decide_eq_true hdates
  obtain ⟨account, hanswer, hday⟩ := archiveAnswered_spec hanswered
  exact ⟨Collation.codePoints, s₁, s, account, hlist₁, hlist, h.mono fun _ _ _ => trivial, hr,
    hanswer, hday, hdate₁, hdate⟩

end Tradinghub.Ledger
