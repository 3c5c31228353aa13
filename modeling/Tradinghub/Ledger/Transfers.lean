import Tradinghub.Ledger.Discipline

/-!
# Transfer groups

Nothing updates a row of a group, and a group is deleted as a whole, so the rows that carry a group
id are, in every committed state, exactly the rows its request inserted (`Recorded`).  Hence a group
is always one transfer out, one transfer in on another account, and at most one fee (`groups_whole`).
-/

namespace Tradinghub.Ledger

open ReadCommitted Store

/-- The rows that carry the group id. -/
def groupRows (db : Db) (group : Nat) : List Transaction :=
  db.transactions.rows.filter fun t => t.transferGroupId = some group

/-- One movement of money between two accounts, and what it cost. -/
structure Whole (sent received : Transaction) (fee : Option Transaction) : Prop where
  goesOut : sent.kind = .transfer ∧ sent.amount < 0
  comesIn : received.kind = .transfer ∧ 0 < received.amount
  twoAccounts : sent.accountId ≠ received.accountId
  cost : ∀ t ∈ fee, t.kind = .expense ∧ t.amount < 0
  oneEvent : ∀ t ∈ received :: fee.toList,
    t.userId = sent.userId ∧ t.occurredAt = sent.occurredAt ∧ t.note = sent.note

def WholeGroup (rows : List Transaction) : Prop :=
  ∃ (sent received : Transaction) (fee : Option Transaction),
    rows.Perm (sent :: received :: fee.toList) ∧ Whole sent received fee

/-- The group is what a create_transfer, allowed by what it read, has inserted. -/
def Recorded (env : Env) (read : Nat → Request → Db → Prop) (db : Db) (group : Nat) : Prop :=
  ∃ n userId details db₀, group = env.uuid4 n ∧
    read n ⟨userId, .createTransfer details⟩ db₀ ∧ TransferAllowed db₀ userId details ∧
    (groupRows db group).Perm (transferRows env n userId details)

/-- No transfer without a group, and every group as it was recorded. -/
structure Transfers (env : Env) (read : Nat → Request → Db → Prop) (db : Db) : Prop where
  grouped : ∀ t ∈ db.transactions, t.kind = .transfer → t.transferGroupId ≠ none
  recorded : ∀ t ∈ db.transactions, ∀ group, t.transferGroupId = some group →
    Recorded env read db group

def transferSetting (env : Env) (read : Nat → Request → Db → Prop) : Setting where
  kept := Transfers env read
  read := read

/-! ## Groups before and after -/

section Groups

variable {env : Env} {read : Nat → Request → Db → Prop} {n : Nat} {db db' : Db}

theorem mem_groupRows {group : Nat} {t : Transaction} :
    t ∈ groupRows db group ↔ t ∈ db.transactions ∧ t.transferGroupId = some group := by
  simp only [groupRows, List.mem_filter, decide_eq_true_eq]
  rfl

theorem nodup_groupRows (db : Db) (group : Nat) : (groupRows db group).Nodup :=
  db.transactions.nodup.filter _

theorem groupRows_perm {group : Nat} {rows : List Transaction} (hnodup : rows.Nodup)
    (h : ∀ t, t ∈ groupRows db group ↔ t ∈ rows) : (groupRows db group).Perm rows :=
  (List.perm_ext_iff_of_nodup (nodup_groupRows db group) hnodup).2 h

theorem Recorded.of_same {group : Nat} (h : Recorded env read db group)
    (hsame : ∀ t, t.transferGroupId = some group →
      (t ∈ db'.transactions ↔ t ∈ db.transactions)) : Recorded env read db' group := by
  obtain ⟨k, userId, details, db₀, hgroup, hread, hallowed, hperm⟩ := h
  refine ⟨k, userId, details, db₀, hgroup, hread, hallowed, List.Perm.trans ?_ hperm⟩
  refine groupRows_perm (nodup_groupRows db group) fun t => ?_
  rw [mem_groupRows, mem_groupRows]
  exact and_congr_left fun ht => hsame t ht

theorem Recorded.user {group : Nat} (h : Recorded env read db group) :
    ∃ userId, ∀ t ∈ db.transactions, t.transferGroupId = some group → t.userId = userId := by
  obtain ⟨k, userId, details, db₀, -, -, -, hperm⟩ := h
  refine ⟨userId, fun t ht hg => ?_⟩
  exact (transferRows_group env k userId details t
    (hperm.mem_iff.1 (mem_groupRows.2 ⟨ht, hg⟩))).2

/-- A DELETE takes a whole group or nothing of it. -/
theorem deleteMatches_group {userId owner transactionId group : Nat} {targetGroup : Option Nat}
    (htarget : ∀ t ∈ db.transactions, t.id = transactionId → t.userId = userId →
      t.transferGroupId = targetGroup)
    (howner : ∀ t ∈ db.transactions, t.transferGroupId = some group → t.userId = owner)
    {t : Transaction} (ht : t ∈ db.transactions) (hgroup : t.transferGroupId = some group) :
    deleteMatches userId transactionId targetGroup t = true ↔
      owner = userId ∧ targetGroup = some group := by
  rw [deleteMatches_iff, howner t ht hgroup, hgroup]
  constructor
  · rintro ⟨huser, hid | ⟨-, htgt⟩⟩
    · exact ⟨huser, (htarget t ht hid ((howner t ht hgroup).trans huser)).symm.trans hgroup⟩
    · exact ⟨huser, htgt.symm⟩
  · rintro ⟨huser, htgt⟩
    exact ⟨huser, Or.inr ⟨by simp, htgt.symm⟩⟩

theorem applyTransactionUpdate_kind {loaded : Transaction} (h : loaded.kind ≠ .transfer)
    (changes : TransactionUpdate) : (applyTransactionUpdate loaded changes).kind ≠ .transfer := by
  show (changes.kind.map NonTransferKind.toKind).getD loaded.kind ≠ .transfer
  cases changes.kind with
  | none => exact h
  | some kind => exact kind.toKind_ne

/-- An UPDATE neither makes nor unmakes a transfer. -/
theorem between_kind {loaded current t : Transaction} (hcurrent : current.kind ≠ .transfer)
    (ht : t.kind ≠ .transfer) :
    ((TransactionChange.between loaded current).apply t).kind ≠ .transfer := by
  show (changed loaded.kind current.kind).getD t.kind ≠ .transfer
  unfold changed
  split
  · exact ht
  · exact hcurrent

end Groups

/-! ## Every commit keeps the groups -/

section Kept

variable {env : Env} {read : Nat → Request → Db → Prop}

theorem transferRows_nodup' (env : Env) (n userId : Nat) (details : TransferCreate) :
    (transferRows env n userId details).Nodup :=
  (transferRows_nodup env n userId details).of_map

/-- The rows of a transfer, the fee last. -/
theorem transferRows_whole (env : Env) (n userId : Nat) (details : TransferCreate)
    (hdifferent : details.fromAccountId.val ≠ details.toAccountId.val) :
    ∃ sent received fee, transferRows env n userId details = sent :: received :: fee.toList ∧
      Whole sent received fee := by
  unfold transferRows
  split
  · next fee feeAccountId _ _ =>
    refine ⟨_, _, some _, rfl, ⟨rfl, Int.neg_neg_of_pos details.amountSent.pos⟩,
      ⟨rfl, details.amountReceived.pos⟩, hdifferent, ?_, ?_⟩
    · rintro t ⟨⟩
      exact ⟨rfl, Int.neg_neg_of_pos fee.pos⟩
    · intro t ht
      simp only [Option.toList_some, List.mem_cons, List.not_mem_nil, or_false] at ht
      rcases ht with rfl | rfl <;> exact ⟨rfl, rfl, rfl⟩
  · refine ⟨_, _, none, rfl, ⟨rfl, Int.neg_neg_of_pos details.amountSent.pos⟩,
      ⟨rfl, details.amountReceived.pos⟩, hdifferent, ?_, ?_⟩
    · rintro t ⟨⟩
    · intro t ht
      simp only [Option.toList_none, List.mem_singleton] at ht
      rw [ht]
      exact ⟨rfl, rfl, rfl⟩

theorem Transfers.created {n : Nat} {w : LedgerWorld} (hw : LedgerOk env w)
    (hn : w.Unanswered n) (h : Transfers env read w.db) (userId : Nat)
    (details : TransactionCreate) :
    Transfers env read (insertAll [newTransaction env n userId details] w.db) := by
  have hmem : ∀ t, t ∈ (insertAll [newTransaction env n userId details] w.db).transactions ↔
      t = newTransaction env n userId details ∨ t ∈ w.db.transactions := by
    intro t
    rw [mem_insertAll (by simp)]
    constructor
    · rintro (hnew | ⟨hold, -⟩)
      · exact Or.inl (List.mem_singleton.1 hnew)
      · exact Or.inr hold
    · rintro (hnew | hold)
      · exact Or.inl (List.mem_singleton.2 hnew)
      · refine Or.inr ⟨hold, fun hid => ?_⟩
        exact hw.transaction_ne hn hold 0 (List.mem_singleton.1 hid)
  constructor
  · intro t ht htransfer
    rcases (hmem t).1 ht with rfl | hold
    · exact absurd htransfer details.kind.toKind_ne
    · exact h.grouped t hold htransfer
  · intro t ht group hgroup
    rcases (hmem t).1 ht with rfl | hold
    · cases hgroup
    · refine (h.recorded t hold group hgroup).of_same fun t' hgroup' => ?_
      rw [hmem t']
      constructor
      · rintro (rfl | hold')
        · cases hgroup'
        · exact hold'
      · exact Or.inr

theorem Transfers.patched {db db₀ : Db} (h : Transfers env read db) (h₀ : Transfers env read db₀)
    {loaded t : Transaction} (changes : TransactionUpdate) (hread : loaded ∈ db₀.transactions)
    (ht : t ∈ db.transactions) (hsame : SameRow loaded t)
    (hgroup : loaded.transferGroupId = none) :
    Transfers env read { db with
      transactions := db.transactions.put
        ((TransactionChange.between loaded (applyTransactionUpdate loaded changes)).apply t) } := by
  have htgroup : t.transferGroupId = none := hsame.group.trans hgroup
  constructor
  · intro t' ht' htransfer
    rcases Table.mem_put.1 ht' with rfl | ⟨hold, -⟩
    · refine absurd htransfer (between_kind (applyTransactionUpdate_kind ?_ changes) ?_)
      · exact fun hk => h₀.grouped loaded hread hk hgroup
      · exact fun hk => h.grouped t ht hk htgroup
    · exact h.grouped t' hold htransfer
  · intro t' ht' group hg
    rcases Table.mem_put.1 ht' with rfl | ⟨hold, -⟩
    · cases htgroup.symm.trans hg
    · -- the group has neither the old version nor the new one
      refine (h.recorded t' hold group hg).of_same fun r hr => ?_
      show r ∈ db.transactions.put _ ↔ _
      rw [Table.mem_put]
      constructor
      · rintro (rfl | ⟨hrold, -⟩)
        · cases htgroup.symm.trans hr
        · exact hrold
      · intro hrold
        refine Or.inr ⟨hrold, fun hid => ?_⟩
        have hrt : r = t := db.transactions.eq_of_key hrold ht hid
        rw [hrt, htgroup] at hr
        cases hr

theorem Transfers.transferred {n : Nat} {w : LedgerWorld} (hw : LedgerOk env w)
    (hn : w.Unanswered n) (h : Transfers env read w.db) {userId : Nat} {details : TransferCreate}
    {db₀ : Db} (hread : read n ⟨userId, .createTransfer details⟩ db₀)
    (hallowed : TransferAllowed db₀ userId details) :
    Transfers env read (insertAll (transferRows env n userId details) w.db) := by
  have hmem : ∀ t, t ∈ (insertAll (transferRows env n userId details) w.db).transactions ↔
      t ∈ transferRows env n userId details ∨ t ∈ w.db.transactions := by
    intro t
    rw [mem_insertAll (transferRows_nodup _ _ _ _)]
    refine or_congr_right ⟨fun ht => ht.1, fun ht => ⟨ht, fun hid => ?_⟩⟩
    obtain ⟨r, hr, hid⟩ := List.mem_map.1 hid
    obtain ⟨i, hi⟩ := transferRows_ids env n userId details r hr
    exact hw.transaction_ne hn ht i (hid.symm.trans hi)
  have hnew := transferRows_group env n userId details
  constructor
  · intro t ht htransfer
    rcases (hmem t).1 ht with hrow | hold
    · rw [(hnew t hrow).1]
      simp
    · exact h.grouped t hold htransfer
  · intro t ht group hgroup
    rcases (hmem t).1 ht with hrow | hold
    · -- the new group: no older row carries its id
      have hg : group = env.uuid4 n :=
        Option.some.inj (hgroup.symm.trans (hnew t hrow).1)
      refine ⟨n, userId, details, db₀, hg, hread, hallowed,
        groupRows_perm (transferRows_nodup' _ _ _ _) fun r => ?_⟩
      rw [mem_groupRows, hmem r, hg]
      constructor
      · rintro ⟨hrow' | hold', hgroup'⟩
        · exact hrow'
        · exact absurd hgroup' (hw.groups r hold' n hn)
      · exact fun hrow' => ⟨Or.inl hrow', (hnew r hrow').1⟩
    · refine (h.recorded t hold group hgroup).of_same fun r hr => ?_
      rw [hmem r]
      constructor
      · rintro (hrow | hold')
        · rw [(hnew r hrow).1] at hr
          exact absurd (hgroup.trans hr.symm) (hw.groups t hold n hn)
        · exact hold'
      · exact Or.inr

theorem Transfers.deleted {db : Db} (h : Transfers env read db) {userId transactionId : Nat}
    {targetGroup : Option Nat}
    (htarget : ∀ t ∈ db.transactions, t.id = transactionId → t.userId = userId →
      t.transferGroupId = targetGroup) :
    Transfers env read { db with
      transactions := db.transactions.filter fun t =>
        !deleteMatches userId transactionId targetGroup t } := by
  constructor
  · exact fun t ht => h.grouped t (Table.mem_filter.1 ht).1
  · intro t ht group hgroup
    obtain ⟨hold, hstays⟩ := Table.mem_filter.1 ht
    have hrec := h.recorded t hold group hgroup
    obtain ⟨owner, howner⟩ := hrec.user
    refine hrec.of_same fun r hr => ?_
    show r ∈ db.transactions.filter _ ↔ _
    rw [Table.mem_filter]
    refine and_iff_left_of_imp fun hr' => ?_
    -- one row of the group stays, so none of them matches
    rw [Bool.not_eq_true', ← Bool.not_eq_true] at hstays ⊢
    rw [deleteMatches_group htarget howner hold hgroup] at hstays
    rwa [deleteMatches_group htarget howner hr' hr]

theorem transfers_kept (env : Env) (read : Nat → Request → Db → Prop) :
    Keeps env (transferSetting env read) := by
  intro w n db' hw hn h heffect
  cases heffect with
  | nothing => exact h
  | accountCreated =>
    exact ⟨h.grouped, h.recorded⟩
  | accountPatched => exact ⟨h.grouped, h.recorded⟩
  | transactionCreated userId details => exact h.created hw hn userId details
  | transactionPatched changes hkept hread ht hsame hgroup _ =>
    exact h.patched hkept changes hread ht hsame hgroup
  | transferCreated userId details hread hallowed => exact h.transferred hw hn hread hallowed
  | deleted htarget => exact h.deleted htarget

theorem transfers_initial (env : Env) (read : Nat → Request → Db → Prop) : Transfers env read Db.empty where
  grouped t ht := absurd ht (Table.not_mem_empty t)
  recorded t ht := absurd ht (Table.not_mem_empty t)

theorem transfers_run [Collation] {env : Env} {s : LedgerSystem}
    (h : Run engine (handle env) anyStep { world := initialWorld } s) :
    Transfers env (fun _ _ _ => True) s.world.db :=
  have hgood : Good (discipline env (transferSetting env fun _ _ _ => True)) engine s :=
    ledger_good (transfers_kept env _)
      (grants_anyStep (fun _ _ _ => trivial) fun _ _ _ _ _ _ _ _ _ _ => trivial)
      (initial_ledger env) rfl (transfers_initial env _) h
  hgood.inv.2

end Kept

/-- **Transfer groups stay whole**, in every interleaving of any requests. -/
theorem groups_whole [Collation] {env : Env} {s : LedgerSystem}
    (h : Run engine (handle env) anyStep { world := initialWorld } s) :
    (∀ t ∈ s.world.db.transactions, t.kind = .transfer → t.transferGroupId ≠ none) ∧
    ∀ group, groupRows s.world.db group ≠ [] → WholeGroup (groupRows s.world.db group) := by
  obtain ⟨hgrouped, hrecorded⟩ := transfers_run h
  refine ⟨hgrouped, fun group hne => ?_⟩
  obtain ⟨t, ht⟩ := List.exists_mem_of_ne_nil _ hne
  obtain ⟨ht, hgroup⟩ := mem_groupRows.1 ht
  obtain ⟨n, userId, details, _, -, -, hallowed, hperm⟩ := hrecorded t ht group hgroup
  obtain ⟨sent, received, fee, hrows, hwhole⟩ :=
    transferRows_whole env n userId details hallowed.1
  exact ⟨sent, received, fee, hrows ▸ hperm, hwhole⟩

/-- Request `n` opens an account of user 1. -/
def opensAccount (n : Nat) (name unit : String) : List (Action Key Failure Request) :=
  [.start ⟨1, .createAccount { name := name, unit := unit, type := .cash }⟩, .advance n,
    .lock n (.name 1 name), .advance n, .advance n]

/-- Request `n` moves 100 from account 1 to account 2, where 110 arrive, for a fee of 1. -/
def transfers (n : Nat) : List (Action Key Failure Request) :=
  [.start ⟨1, .createTransfer
      { fromAccountId := .one
        toAccountId := .two
        amountSent := ⟨100 * 10 ^ 18, by decide⟩
        amountReceived := ⟨110 * 10 ^ 18, by decide⟩
        fee := some ⟨10 ^ 18, by decide⟩
        feeAccountId := some .one
        occurredAt := 0
        fee_and_account := rfl
        category_needs_fee := fun h => by cases h }⟩,
    .advance n, .advance n, .advance n, .advance n]

/-- Euros and dollars. -/
def twoAccounts : List (Action Key Failure Request) :=
  opensAccount 0 "euros" "EUR" ++ opensAccount 1 "dollars" "USD"

/-- And 100 of the one sent for 110 of the other. -/
def exchanged : List (Action Key Failure Request) := twoAccounts ++ transfers 2

theorem transfer_recorded_whole : ∃ (_ : Collation) (s : LedgerSystem), ∃ group,
    runList engine (handle .counting) { world := initialWorld } exchanged = some s ∧
    (groupRows s.world.db group).length = 3 ∧ WholeGroup (groupRows s.world.db group) := by
  let _ : Collation := Collation.codePoints
  have hrun : (runList engine (handle .counting) { world := initialWorld } exchanged).any
      (fun s => decide ((groupRows s.world.db 2).length = 3)) = true := by
    decide +kernel
  obtain ⟨s, hlist, hs, hp⟩ := exists_run hrun
  have hlength : (groupRows s.world.db 2).length = 3 := of_decide_eq_true hp
  refine ⟨Collation.codePoints, s, 2, hlist, hlength, (groups_whole hs).2 2 fun hnil => ?_⟩
  rw [hnil] at hlength
  cases hlength

end Tradinghub.Ledger
