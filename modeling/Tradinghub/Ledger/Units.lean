import Tradinghub.Ledger.Transfers
import Tradinghub.Lib.Trace

/-!
# Transfers between accounts of one unit

`create_transfer` checks the amounts against the units it reads, and a PATCH of an account's unit
converts nothing.  So two accounts of one unit may well have a transfer with a gap between them
(`relabelled_gap`); what holds in every state is the law about the units that were read
(`same_unit_when_read`): the two amounts of a transfer are equal and opposite if its accounts had
one unit in the state its request sent its SELECT in.  That state is told by the trace of the run,
in which a create_transfer sends one SELECT at most (`createTransfer_atMost`).
-/

namespace Tradinghub.Ledger

open ReadCommitted Store

variable [Collation]

/-- A run of the ledger, written out. -/
abbrev LedgerSteps := Steps Db Key Write Stmt DbError Failure Response Request

/-- The two transfer rows of one group. -/
structure Pair (db : Db) (sent received : Transaction) : Prop where
  sent_mem : sent ∈ db.transactions
  received_mem : received ∈ db.transactions
  transfers : sent.kind = .transfer ∧ received.kind = .transfer
  group : sent.transferGroupId = received.transferGroupId
  two : sent.id ≠ received.id

/-- The law about the units the accounts have in the same state. -/
def SameUnitLaw (db : Db) : Prop :=
  ∀ sent received, Pair db sent received →
    unitOf db.accounts.rows sent.accountId = unitOf db.accounts.rows received.accountId →
    sent.amount = -received.amount

section Found

variable {db : Db} {accounts : List Account}

omit [Collation] in
theorem unitOf_eq (hsub : ∀ a ∈ accounts, a ∈ db.accounts) {a : Account} (ha : a ∈ accounts) :
    unitOf accounts a.id = some a.unit := by
  unfold unitOf
  cases h : accounts.find? fun b => b.id = a.id with
  | none => simpa using List.find?_eq_none.1 h a ha
  | some b =>
    have hb : b ∈ accounts := List.mem_of_find?_eq_some h
    have hid : b.id = a.id := by simpa using List.find?_some h
    rw [db.accounts.eq_of_key (hsub b hb) (hsub a ha) hid]
    rfl

omit [Collation] in
/-- As many accounts as ids: every id was found. -/
theorem getAccounts_all {ids : List Nat} {userId : Nat}
    (hlength : (getAccounts db ids userId).length = ids.length) {id : Nat} (hid : id ∈ ids) :
    ∃ a ∈ getAccounts db ids userId, a.id = id := by
  have hnodup : ((getAccounts db ids userId).map Account.id).Nodup :=
    db.accounts.nodup_keys.sublist (List.filter_sublist.map _)
  have hsub : (getAccounts db ids userId).map Account.id ⊆ ids := by
    intro i hi
    obtain ⟨a, ha, rfl⟩ := List.mem_map.1 hi
    exact (of_decide_eq_true (List.mem_filter.1 ha).2).1
  have hperm : ((getAccounts db ids userId).map Account.id).Perm ids :=
    (List.subperm_of_subset hnodup hsub).perm_of_length_le (by rw [List.length_map, hlength])
  exact List.mem_map.1 (hperm.mem_iff.2 hid)

omit [Collation] in
/-- The unit of an account that was found is its unit in the table. -/
theorem unitOf_getAccounts {ids : List Nat} {userId : Nat}
    (hlength : (getAccounts db ids userId).length = ids.length) {id : Nat} (hid : id ∈ ids) :
    unitOf (getAccounts db ids userId) id = unitOf db.accounts.rows id := by
  obtain ⟨a, ha, rfl⟩ := getAccounts_all hlength hid
  have hmem : ∀ b ∈ getAccounts db ids userId, b ∈ db.accounts :=
    fun b hb => (List.mem_filter.1 hb).1
  rw [unitOf_eq hmem ha, unitOf_eq (fun _ hb => hb) (hmem a ha)]

end Found

omit [Collation] in
/-- What the service checked of the two amounts, in terms of the rows it inserted. -/
theorem TransferAllowed.opposite {env : Env} {n userId : Nat} {details : TransferCreate} {db : Db}
    (h : TransferAllowed db userId details) {sent received : Transaction}
    (hsent : sent ∈ transferRows env n userId details)
    (hreceived : received ∈ transferRows env n userId details)
    (htransfers : sent.kind = .transfer ∧ received.kind = .transfer)
    (htwo : sent.id ≠ received.id)
    (hunits : unitOf db.accounts.rows sent.accountId = unitOf db.accounts.rows received.accountId) :
    sent.amount = -received.amount := by
  obtain ⟨-, hfound, hequal⟩ := h
  have hfrom : details.fromAccountId.val ∈ details.accountIds := by
    simp [TransferCreate.accountIds]
  have hto : details.toAccountId.val ∈ details.accountIds := by
    simp [TransferCreate.accountIds]
  have hunits' : unitOf db.accounts.rows details.fromAccountId.val =
      unitOf db.accounts.rows details.toAccountId.val →
      details.amountSent.units = details.amountReceived.units := by
    intro heq
    refine hequal (decide_eq_true ?_)
    rw [unitOf_getAccounts hfound hfrom, unitOf_getAccounts hfound hto]
    exact heq
  -- a fee is no transfer
  have hrow : ∀ t ∈ transferRows env n userId details, t.kind = .transfer →
      t = transactionRow env n userId 0 details details.fromAccountId.val
        (-details.amountSent.units) .transfer none ∨
      t = transactionRow env n userId 1 details details.toAccountId.val
        details.amountReceived.units .transfer none := by
    intro t ht hkind
    unfold transferRows at ht
    simp only [List.cons_append, List.nil_append, List.mem_cons] at ht
    rcases ht with rfl | rfl | ht
    · exact Or.inl rfl
    · exact Or.inr rfl
    · split at ht
      · rw [List.mem_singleton.1 ht] at hkind
        cases hkind
      · cases ht
  rcases hrow sent hsent htransfers.1 with rfl | rfl <;>
    rcases hrow received hreceived htransfers.2 with rfl | rfl
  · exact absurd rfl htwo
  · show -details.amountSent.units = -details.amountReceived.units
    rw [hunits' hunits]
  · show details.amountReceived.units = - -details.amountSent.units
    rw [Int.neg_neg, hunits' hunits.symm]
  · exact absurd rfl htwo

omit [Collation] in
theorem execute_atMost (q : Stmt) : (execute q).AtMost 0 := by
  rintro (d | r) <;> trivial

/-- `create_transfer` sends one SELECT, if any. -/
theorem createTransfer_atMost (env : Env) (n userId : Nat) (details : TransferCreate) :
    (handle env n ⟨userId, .createTransfer details⟩).AtMost 1 := by
  have hret : ∀ {β : Type} (b : β), (Prog.ret b : Program β).AtMost 0 := fun _ => trivial
  have hservice : (createTransfer env n userId details).AtMost (1 + 0) := by
    unfold createTransfer
    split
    · trivial
    · have hselect : (Prog.select fun db => getAccounts db details.accountIds userId :
          Program (List Account)).AtMost 1 := fun db => trivial
      refine hselect.bind fun accounts => ?_
      split
      · trivial
      · split
        · trivial
        · have hdiscard : (discard (execute (.insertTransactions
              (transferRows env n userId details))) : Program Unit).AtMost (0 + 0) :=
            (execute_atMost _).bind fun _ => hret ()
          exact hdiscard.bind fun _ => hret _
  exact hservice.bind fun _ => hret _

/-- **The same-unit law of every state**: about the units in the one state of the run in which the
transfer's request sent its SELECT. -/
theorem same_unit_when_read {env : Env} {tr : LedgerSteps} {s : LedgerSystem}
    (h : Trace engine (handle env) { world := initialWorld } tr s) {sent received : Transaction}
    (hpair : Pair s.world.db sent received) :
    ∃ n userId details s₁, sent.transferGroupId = some (env.uuid4 n) ∧
      (∃ c, s₁.conns n = some c ∧ c.req = ⟨userId, .createTransfer details⟩) ∧
      selects n tr = [s₁] ∧
      (unitOf s₁.world.db.accounts.rows sent.accountId =
        unitOf s₁.world.db.accounts.rows received.accountId → sent.amount = -received.amount) := by
  let read : Nat → Request → Db → Prop := fun n req db =>
    ∃ s₁ ∈ selects n tr, (∃ c, s₁.conns n = some c ∧ c.req = req) ∧ s₁.world.db = db
  have hgrants : Grants (δ := DbError) (discipline env (transferSetting env read))
      (fun t a => (t, a) ∈ tr) := by
    refine ⟨?_, fun _ _ _ _ _ _ _ _ _ => trivial⟩
    rintro s₁ n c k hstep hc hp
    exact ⟨s₁, mem_selects.2 ⟨hstep, c, k, hc, hp⟩, ⟨c, hc, rfl⟩, rfl⟩
  have hgood : Good (discipline env (transferSetting env read)) engine s :=
    ledger_good (transfers_kept env read) hgrants (initial_ledger env) rfl
      (transfers_initial env read) h.run
  obtain ⟨hgrouped, hrecorded⟩ : Transfers env read s.world.db := hgood.inv.2
  obtain ⟨group, hgroup⟩ := Option.ne_none_iff_exists'.1
    (hgrouped sent hpair.sent_mem hpair.transfers.1)
  obtain ⟨n, userId, details, db₀, rfl, ⟨s₁, hselect, ⟨c, hc, hreq⟩, rfl⟩, hallowed, hperm⟩ :=
    hrecorded sent hpair.sent_mem group hgroup
  have hone : selects n tr = [s₁] := by
    have hasked := h.asked (fun _ => rfl) (mem_selects.1 hselect).1 hc
    rw [hreq] at hasked
    have hle := h.selects_le (fun _ => rfl) rfl
      (fun n => createTransfer_atMost env n userId details) hasked
    obtain ⟨s₂, hs₂⟩ := List.length_eq_one_iff.1
      (Nat.le_antisymm hle (List.length_pos_of_mem hselect))
    rw [hs₂] at hselect ⊢
    rw [List.mem_singleton.1 hselect]
  have hsent : sent ∈ transferRows env n userId details :=
    hperm.mem_iff.1 (mem_groupRows.2 ⟨hpair.sent_mem, hgroup⟩)
  have hreceived : received ∈ transferRows env n userId details :=
    hperm.mem_iff.1 (mem_groupRows.2 ⟨hpair.received_mem, hpair.group.symm.trans hgroup⟩)
  exact ⟨n, userId, details, s₁, hgroup, ⟨c, hc, hreq⟩, hone,
    hallowed.opposite hsent hreceived hpair.transfers hpair.two⟩

/-! ## Two runs -/

omit [Collation] in
/-- A group with both its rows, found in a list of rows. -/
theorem pair_of_any {db : Db} {p : Transaction → Transaction → Bool}
    (h : (db.transactions.rows.any fun sent => db.transactions.rows.any fun received =>
      decide ((sent.kind = .transfer ∧ received.kind = .transfer) ∧
        sent.transferGroupId = received.transferGroupId ∧ sent.id ≠ received.id) &&
      p sent received) = true) : ∃ sent received, Pair db sent received ∧ p sent received = true := by
  obtain ⟨sent, hsent, h⟩ := List.any_eq_true.1 h
  obtain ⟨received, hreceived, h⟩ := List.any_eq_true.1 h
  obtain ⟨hpair, hp⟩ := Bool.and_eq_true_iff.1 h
  obtain ⟨hkinds, hgroup, htwo⟩ := of_decide_eq_true hpair
  exact ⟨sent, received, ⟨hsent, hreceived, hkinds, hgroup, htwo⟩, hp⟩

/-- Then the dollars are said to be euros. -/
def relabelled : List (Action Key Failure Request) :=
  exchanged ++ [.start ⟨1, .updateAccount .two { unit := some "EUR" }⟩,
    .advance 3, .advance 3, .lock 3 (.account 2), .advance 3, .advance 3]

omit [Collation] in
theorem exchange_read : ∃ (_ : Collation) (s : LedgerSystem) (sent received : Transaction),
    Trace engine (handle .counting) { world := initialWorld }
      (stepsOf engine (handle .counting) { world := initialWorld } exchanged) s ∧
    Pair s.world.db sent received ∧ sent.amount ≠ -received.amount ∧
    ∃ n s₁, sent.transferGroupId = some (Env.counting.uuid4 n) ∧
      selects n (stepsOf engine (handle .counting) { world := initialWorld } exchanged) = [s₁] ∧
      unitOf s₁.world.db.accounts.rows sent.accountId ≠
        unitOf s₁.world.db.accounts.rows received.accountId := by
  let _ : Collation := Collation.codePoints
  have hrun : (runList engine (handle .counting) { world := initialWorld } exchanged).any
      (fun s => s.world.db.transactions.rows.any fun sent =>
        s.world.db.transactions.rows.any fun received =>
          decide ((sent.kind = .transfer ∧ received.kind = .transfer) ∧
            sent.transferGroupId = received.transferGroupId ∧ sent.id ≠ received.id) &&
          decide (sent.amount ≠ -received.amount)) = true := by
    decide +kernel
  obtain ⟨s, htr, hp⟩ := exists_trace hrun
  obtain ⟨sent, received, hpair, hne⟩ := pair_of_any hp
  obtain ⟨n, userId, details, s₁, hgroup, -, hselect, hlaw⟩ := same_unit_when_read htr hpair
  exact ⟨Collation.codePoints, s, sent, received, htr, hpair, of_decide_eq_true hne,
    n, s₁, hgroup, hselect, fun heq => of_decide_eq_true hne (hlaw heq)⟩

omit [Collation] in
/-- Two accounts of one unit, and a transfer between them with a gap of 10. -/
theorem relabelled_gap : ¬ ∀ (_ : Collation) (env : Env) (s : LedgerSystem),
    Run engine (handle env) anyStep { world := initialWorld } s → SameUnitLaw s.world.db := by
  intro hclaim
  let _ : Collation := Collation.codePoints
  have hrun : (runList engine (handle .counting) { world := initialWorld } relabelled).any
      (fun s => s.world.db.transactions.rows.any fun sent =>
        s.world.db.transactions.rows.any fun received =>
          decide ((sent.kind = .transfer ∧ received.kind = .transfer) ∧
            sent.transferGroupId = received.transferGroupId ∧ sent.id ≠ received.id) &&
          decide (unitOf s.world.db.accounts.rows sent.accountId =
              unitOf s.world.db.accounts.rows received.accountId ∧
            sent.amount ≠ -received.amount)) = true := by
    decide +kernel
  obtain ⟨s, -, hs, hp⟩ := exists_run hrun
  obtain ⟨sent, received, hpair, hgap⟩ := pair_of_any hp
  obtain ⟨hunits, hne⟩ := of_decide_eq_true hgap
  exact hne (hclaim Collation.codePoints .counting s hs sent received hpair hunits)

end Tradinghub.Ledger
