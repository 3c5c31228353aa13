import Tradinghub.Core.Schemas
import Tradinghub.Ledger.Amounts
import Tradinghub.Ledger.Signs
import Tradinghub.Ledger.Racing

/-!
# What is shown can be sent back

A response writes an amount with its sign (`exactString`), a request sends it without
(`validateAmount`).  No stored amount is ever zero, whatever is interleaved, and every one fits its
column.  So the text of every amount, its minus aside, is an amount that can be sent, and the one
that is stored (`shown_amounts_sent_back`).
-/

namespace Tradinghub.Ledger

open ReadCommitted Store

/-! ## No amount is zero -/

def nonZeroSetting : Setting where
  kept db := ∀ t ∈ db.transactions, t.amount ≠ 0

theorem signed_ne_zero {amount : Int} (h : amount ≠ 0) (kind : TransactionKind) :
    signed amount kind ≠ 0 := by
  unfold signed
  split
  · exact Int.neg_ne_zero.2 h
  · exact h

theorem applyTransactionUpdate_ne_zero {loaded : Transaction} (h : loaded.amount ≠ 0)
    (changes : TransactionUpdate) : (applyTransactionUpdate loaded changes).amount ≠ 0 := by
  have hmagnitude : (changes.amount.map Amount.units).getD loaded.amount.natAbs ≠ 0 := by
    cases changes.amount with
    | none =>
      show (loaded.amount.natAbs : Int) ≠ 0
      omega
    | some amount => exact Int.ne_of_gt amount.pos
  unfold applyTransactionUpdate
  dsimp only
  split
  · exact signed_ne_zero hmagnitude _
  · exact h

theorem transferRows_ne_zero (env : Env) (n userId : Nat) (details : TransferCreate) :
    ∀ t ∈ transferRows env n userId details, t.amount ≠ 0 := by
  intro t ht
  unfold transferRows at ht
  simp only [List.cons_append, List.nil_append, List.mem_cons] at ht
  rcases ht with rfl | rfl | ht
  · exact Int.neg_ne_zero.2 (Int.ne_of_gt details.amountSent.pos)
  · exact Int.ne_of_gt details.amountReceived.pos
  · split at ht
    · next fee _ _ _ =>
      rw [List.mem_singleton.1 ht]
      exact Int.neg_ne_zero.2 (Int.ne_of_gt fee.pos)
    · cases ht

theorem nonZero_kept (env : Env) : Keeps env nonZeroSetting := by
  intro w n db' _ _ hkept heffect t' ht'
  cases heffect with
  | nothing => exact hkept t' ht'
  | accountCreated => exact hkept t' ht'
  | accountPatched => exact hkept t' ht'
  | transactionCreated userId details =>
    rcases (mem_insertAll (by simp)).1 ht' with hnew | ⟨hold, -⟩
    · rw [List.mem_singleton.1 hnew]
      exact signed_ne_zero (Int.ne_of_gt details.amount.pos) _
    · exact hkept t' hold
  | @transactionPatched _ loaded t changes hread hloaded ht _ _ _ =>
    rcases Table.mem_put.1 ht' with rfl | ⟨hold, -⟩
    · have hamount : ((TransactionChange.between loaded
          (applyTransactionUpdate loaded changes)).apply t).amount =
          if loaded.amount = (applyTransactionUpdate loaded changes).amount then t.amount
          else (applyTransactionUpdate loaded changes).amount := changed_getD _ _ _
      rw [hamount]
      split
      · exact hkept t ht
      · exact applyTransactionUpdate_ne_zero (hread loaded hloaded) changes
    · exact hkept t' hold
  | transferCreated userId details =>
    rcases (mem_insertAll (transferRows_nodup _ _ _ _)).1 ht' with hnew | ⟨hold, -⟩
    · exact transferRows_ne_zero _ _ _ _ t' hnew
    · exact hkept t' hold
  | deleted => exact hkept t' (Table.mem_filter.1 ht').1

section Runs

variable [Collation] {env : Env}

theorem run_nonZero {s : LedgerSystem}
    (h : Run engine (handle env) anyStep { world := initialWorld } s) :
    ∀ t ∈ s.world.db.transactions, t.amount ≠ 0 := by
  have hgrants : Grants (δ := DbError) (discipline env nonZeroSetting)
      (anyStep : LedgerSystem → Action Key Failure Request → Prop) :=
    grants_anyStep (fun _ _ _ => trivial) fun _ _ _ _ _ _ _ _ _ _ => trivial
  have hempty : nonZeroSetting.kept initialWorld.db :=
    fun t ht => absurd ht (Table.not_mem_empty t)
  exact (ledger_good (nonZero_kept env) hgrants (initial_ledger env) rfl hempty h).inv.2

end Runs

/-! ## The text of an amount -/

/-- The amount of a row as a response writes it. -/
def shownAmount (t : Transaction) : Except Decimal.Signal String :=
  Core.exactString ⟨t.amount < 0, t.amount.natAbs, -18⟩

/-- Some of what the row `t` shows, its amount without the minus: `a`. -/
structure Echo (t : Transaction) (a : Amount) (changes : TransactionUpdate) : Prop where
  amount : ∀ amount, changes.amount = some amount → amount = a
  kind : ∀ kind, changes.kind = some kind → kind.toKind = t.kind
  category : ∀ category, changes.category = some category → category = t.category
  occurredAt : ∀ occurredAt, changes.occurredAt = some occurredAt → occurredAt = t.occurredAt
  note : ∀ note, changes.note = some note → note = t.note

/-- A PATCH of what was shown finds nothing to write. -/
theorem Echo.unchanged {t : Transaction} {a : Amount} {changes : TransactionUpdate}
    (h : Echo t a changes) (hunits : a.units = t.amount.natAbs) (hsign : SignOk t)
    (hkind : t.kind ≠ .transfer) : applyTransactionUpdate t changes = t := by
  have hgetD {α : Type} {o : Option α} {x : α} (ho : ∀ y, o = some y → y = x) : o.getD x = x := by
    cases o with
    | none => rfl
    | some y => exact ho y rfl
  have hkindD : (applyTransactionUpdate t changes).kind = t.kind := by
    refine hgetD fun kind hk => ?_
    obtain ⟨kind', hkind', rfl⟩ := Option.map_eq_some_iff.1 hk
    exact h.kind kind' hkind'
  have hmagnitude : changes.magnitude t = t.amount.natAbs := by
    refine hgetD fun units hu => ?_
    obtain ⟨amount, hamount, rfl⟩ := Option.map_eq_some_iff.1 hu
    rw [h.amount amount hamount, hunits]
  have hamount : (applyTransactionUpdate t changes).amount = t.amount := by
    have hshown : t.amount = signed t.amount.natAbs t.kind :=
      applyTransactionUpdate_amount hsign hkind {}
    rw [applyTransactionUpdate_amount hsign hkind changes, hmagnitude, hkindD, ← hshown]
  exact (Transaction.mk.injEq ..).mpr ⟨rfl, rfl, rfl, hamount, hkindD, hgetD h.category,
    hgetD h.occurredAt, hgetD h.note, rfl⟩

section Texts

variable [Unicode]

/-- The text without the minus is read as the amount, the text with it is refused. -/
theorem shownAmount_sent_back (hminus : Unicode.isSpace '-' = false) {t : Transaction}
    (hne : t.amount ≠ 0) (hfits : fitsNumeric t.amount = true) :
    ∃ text a amount, shownAmount t = .ok (if t.amount < 0 then "-" ++ text else text) ∧
      validateAmount (.string text) = .ok a ∧ Amount.Of amount a.decimal ∧
      amount.units = t.amount.natAbs ∧
      validateAmount (.string ("-" ++ text)) = .error .greaterThan := by
  obtain ⟨d, hd⟩ : ∃ d, (storedDecimal t.amount).copyAbs = d := ⟨_, rfl⟩
  obtain ⟨amount, hunits⟩ : ∃ amount : Amount, amount.units = t.amount.natAbs :=
    ⟨⟨t.amount.natAbs, by omega⟩, rfl⟩
  have hdne : d.coefficient ≠ 0 := by
    rw [← hd]
    exact Int.natAbs_ne_zero.2 hne
  have hnormal := d.normal_normalize
  have hunsigned : ({ d.normalize with negative := false } : Decimal) = d.normalize := by
    rw [← Decimal.normalize_withSign, ← hd]
    rfl
  have htext : ("-" ++ d.normalize.formatF) =
      ({ d.normalize with negative := true } : Decimal).formatF := by
    rw [Decimal.formatF_negative, hunsigned]
  have hvalue : (amount.units : ℚ) = d.value * 10 ^ 18 := by
    rw [hunits, Int.cast_natCast, ← hd]
    exact storedDecimal_value t.amount
  have hlt : |d.value| < 10 ^ 18 := by
    refine (fitsNumeric_iff hvalue).1 ?_
    rw [hunits]
    exact hfits
  -- at most 18 places are written
  have hplaces : d.normalize.decimalPlaces ≤ 18 := by
    refine (Decimal.decimalPlaces_normalize_le hdne).2 (Decimal.multiple_of_decimalPlaces ?_)
    rw [← hd]
    exact Nat.le_refl 18
  refine ⟨d.normalize.formatF, ?_⟩
  obtain ⟨r, hread, hrvalue, hrplaces⟩ := Decimal.read_formatF hminus d.normalize hnormal
  rw [d.normalize_value] at hrvalue
  have hpos : 0 < r.value := by
    rw [hrvalue, Decimal.value_pos]
    exact ⟨by rw [← hd]; rfl, hdne⟩
  have hrlt : |r.value| < 10 ^ 18 := hrvalue ▸ hlt
  obtain ⟨a, ha, rfl⟩ := checkConstraints_fits hpos (hrplaces ▸ hplaces) hrlt
  have hrepresentable := representable_fits (Decimal.value_pos.1 hpos).2 (hrplaces ▸ hplaces) hrlt
  refine ⟨a, amount, ?_, ?_, ?_, hunits, ?_⟩
  · have hbound : t.amount.natAbs < 10 ^ 36 := of_decide_eq_true hfits
    show Core.exactString ⟨t.amount < 0, t.amount.natAbs, -18⟩ = _
    rw [Core.exactString_eq (Core.clear_stored hbound).1]
    have hsigned : (Decimal.mk (t.amount < 0) t.amount.natAbs (-18)).normalize =
        { d.normalize with negative := decide (t.amount < 0) } := by
      rw [← Decimal.normalize_withSign, ← hd]
      rfl
    rw [hsigned]
    by_cases hneg : t.amount < 0
    · rw [if_pos hneg, decide_eq_true hneg, htext]
    · rw [if_neg hneg, decide_eq_false hneg, hunsigned]
  · rw [validateAmount_read hread hrepresentable, ha]
  · rw [Amount.Of, hrvalue, hvalue]
  · obtain ⟨r', hread', hrvalue', hrplaces'⟩ :=
      Decimal.read_formatF hminus { d.normalize with negative := true } hnormal
    have hneg : r'.value = -d.value := by
      rw [hrvalue', ← d.normalize_value, ← Decimal.value_copyNegate, Decimal.copyNegate,
        ← hunsigned]
      rfl
    have hdpos : 0 < d.value := hrvalue ▸ hpos
    have hne' : r'.coefficient ≠ 0 := by
      intro hzero
      rw [← Decimal.value_eq_zero, hneg, neg_eq_zero] at hzero
      exact ne_of_gt hdpos hzero
    have hnot : ¬ (r'.negative = false ∧ r'.coefficient ≠ 0) := by
      rw [← Decimal.value_pos, hneg]
      exact not_lt.2 (neg_nonpos.2 (le_of_lt hdpos))
    have hrepresentable' : r'.Representable := by
      refine representable_fits hne' (hrplaces'.trans_le hplaces) ?_
      rw [hneg, abs_neg]
      exact hlt
    rw [htext, validateAmount_read hread' hrepresentable', checkConstraints, dif_neg hnot]

variable [Collation] {env : Env}

/-- **Every amount shown can be sent back**, without its minus, and changes nothing. -/
theorem shown_amounts_sent_back (hminus : Unicode.isSpace '-' = false) {s : LedgerSystem}
    (h : Run engine (handle env) anyStep { world := initialWorld } s) {t : Transaction}
    (ht : t ∈ s.world.db.transactions) :
    ∃ text a amount, shownAmount t = .ok (if t.amount < 0 then "-" ++ text else text) ∧
      validateAmount (.string text) = .ok a ∧ Amount.Of amount a.decimal ∧
      amount.units = t.amount.natAbs ∧
      validateAmount (.string ("-" ++ text)) = .error .greaterThan ∧
      (SignOk t → t.kind ≠ .transfer → ∀ changes, Echo t amount changes →
        applyTransactionUpdate t changes = t) := by
  obtain ⟨text, a, amount, hshown, hvalid, hof, hunits, hrefused⟩ :=
    shownAmount_sent_back hminus (run_nonZero h t ht) (run_fits h t ht)
  exact ⟨text, a, amount, hshown, hvalid, hof, hunits, hrefused,
    fun hsign hkind changes hecho => hecho.unchanged hunits hsign hkind⟩

end Texts

/-- An expense of 5 is shown as "-5", and PATCHed with the "5" of it stays as it is. -/
theorem five_sent_back : ∃ (_ : Unicode) (_ : Collation) (s : LedgerSystem) (text : String)
    (a : ValidAmount) (amount : Amount),
    runList engine (handle .counting) { world := initialWorld } expenseRecorded = some s ∧
    ∃ t ∈ s.world.db.transactions, shownAmount t = .ok ("-" ++ text) ∧
      validateAmount (.string text) = .ok a ∧ Amount.Of amount a.decimal ∧
      applyTransactionUpdate t { amount := some amount } = t := by
  let _ : Unicode := Unicode.ascii
  let _ : Collation := Collation.codePoints
  have hrun : (runList engine (handle .counting) { world := initialWorld } expenseRecorded).any
      (fun s => s.world.db.transactions.rows.any fun t => t.kind = .expense ∧ t.amount < 0) =
      true := by
    decide +kernel
  obtain ⟨s, hlist, hs, hp⟩ := exists_run hrun
  obtain ⟨t, ht, hexpense⟩ := List.any_eq_true.1 hp
  obtain ⟨hkind, hneg⟩ := of_decide_eq_true hexpense
  obtain ⟨text, a, amount, hshown, hvalid, hof, -, -, hsame⟩ :=
    shown_amounts_sent_back rfl hs ht
  rw [if_pos hneg] at hshown
  have hsign : SignOk t :=
    ⟨fun h => absurd (hkind.symm.trans h) (by decide), fun _ => hneg⟩
  have hecho : Echo t amount { amount := some amount } :=
    { amount := fun _ h => (Option.some.inj h).symm
      kind := fun _ h => by cases h
      category := fun _ h => by cases h
      occurredAt := fun _ h => by cases h
      note := fun _ h => by cases h }
  exact ⟨Unicode.ascii, Collation.codePoints, s, text, a, amount, hlist, t, ht, hshown, hvalid, hof,
    hsame hsign (hkind ▸ by decide) _ hecho⟩

end Tradinghub.Ledger
