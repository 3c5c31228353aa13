import Mathlib.Data.List.Dedup
import Mathlib.Data.List.Sort
import Mathlib.Algebra.Ring.Int.Defs
import Mathlib.Algebra.BigOperators.Group.List.Basic

/-!
# Queries over lists of rows

The SELECT clauses a query is put together from: `join` and `leftJoin` with an ON condition,
`groupBy`, the nullable `sum`, `coalesce`, `orderBy` and `page` (LIMIT .. OFFSET ..), and the
three-valued conditions.  A null is `none`.  The lemmas say which rows a clause yields and what the sums over them come to.
-/

namespace Sql

variable {α β κ : Type}

/-! ## Clauses -/

/-- FROM as JOIN bs ON .. -/
def join (on : α → β → Bool) (as : List α) (bs : List β) : List (α × β) :=
  as.flatMap fun a => (bs.filter (on a)).map fun b => (a, b)

/-- The rows a left join has for `a`: one with a null when nothing fits. -/
def matched (on : α → β → Bool) (bs : List β) (a : α) : List (α × Option β) :=
  if (bs.filter (on a)).isEmpty then [(a, none)] else (bs.filter (on a)).map fun b => (a, some b)

/-- FROM as LEFT OUTER JOIN bs ON .. -/
def leftJoin (on : α → β → Bool) (as : List α) (bs : List β) : List (α × Option β) :=
  as.flatMap (matched on bs)

/-- GROUP BY: each key once, with its rows. -/
def groupBy [DecidableEq κ] (key : α → κ) (rows : List α) : List (κ × List α) :=
  (rows.map key).dedup.map fun k => (k, rows.filter fun r => key r = k)

/-- SUM: nulls are skipped, and no value at all sums to null. -/
def sum (values : List (Option Int)) : Option Int :=
  if (values.filterMap id).isEmpty then none else some (values.filterMap id).sum

def coalesce (value : Option Int) (default : Int) : Int := value.getD default

/-- ORDER BY, one insertion after another so that it evaluates. -/
def orderBy (le : α → α → Bool) (rows : List α) : List α :=
  rows.insertionSort fun a b => le a b = true

/-- In what order a query comes upon the rows it sorts.  Nothing says, so nothing says in what order
it leaves rows that tie. -/
structure Found (α : Type) where
  order : List α → List α
  perm : ∀ rows, (order rows).Perm rows

def Found.asStored : Found α := ⟨id, fun rows => .refl rows⟩

def Found.backwards : Found α := ⟨List.reverse, List.reverse_perm⟩

/-- The same rows, and at each place one with the same key: only rows that tie may be swapped. -/
structure UpToTies (key : α → κ) (rows rows' : List α) : Prop where
  perm : rows.Perm rows'
  keys : rows.map key = rows'.map key

namespace UpToTies

variable {key : α → κ} {rows rows' rows'' : List α}

theorem symm (h : UpToTies key rows rows') : UpToTies key rows' rows := ⟨h.perm.symm, h.keys.symm⟩

theorem trans (h : UpToTies key rows rows') (h' : UpToTies key rows' rows'') :
    UpToTies key rows rows'' := ⟨h.perm.trans h'.perm, h.keys.trans h'.keys⟩

end UpToTies

/-- LIMIT limit OFFSET offset -/
def page (limit offset : Nat) (rows : List α) : List α := (rows.drop offset).take limit

/-! ## Conditions

A comparison with a null is neither true nor false, and WHERE keeps the rows for which its condition
is true. -/

abbrev Truth := Option Bool

def eq [DecidableEq α] : Option α → Option α → Truth
  | some a, some b => some (a = b)
  | _, _ => none

def and : Truth → Truth → Truth
  | some false, _ => some false
  | _, some false => some false
  | some true, some true => some true
  | _, _ => none

def or : Truth → Truth → Truth
  | some true, _ => some true
  | _, some true => some true
  | some false, some false => some false
  | _, _ => none

theorem eq_true [DecidableEq α] {a b : Option α} :
    eq a b = some true ↔ ∃ x, a = some x ∧ b = some x := by
  cases a <;> cases b <;> simp [eq, eq_comm]

theorem and_true {p q : Truth} : and p q = some true ↔ p = some true ∧ q = some true := by
  rcases p with - | - | - <;> rcases q with - | - | - <;> simp [and]

theorem or_true {p q : Truth} : or p q = some true ↔ p = some true ∨ q = some true := by
  rcases p with - | - | - <;> rcases q with - | - | - <;> simp [or]

/-! ## What they yield -/

theorem mem_join {on : α → β → Bool} {as : List α} {bs : List β} {r : α × β} :
    r ∈ join on as bs ↔ r.1 ∈ as ∧ r.2 ∈ bs ∧ on r.1 r.2 = true := by
  obtain ⟨a, b⟩ := r
  simp only [join, List.mem_flatMap, List.mem_map, List.mem_filter, Prod.mk.injEq]
  constructor
  · rintro ⟨a', ha', b', ⟨hb', hon⟩, rfl, rfl⟩
    exact ⟨ha', hb', hon⟩
  · rintro ⟨ha, hb, hon⟩
    exact ⟨a, ha, b, ⟨hb, hon⟩, rfl, rfl⟩

theorem mem_groupBy [DecidableEq κ] {key : α → κ} {rows : List α} {g : κ × List α} :
    g ∈ groupBy key rows ↔ (∃ r ∈ rows, key r = g.1) ∧ g.2 = rows.filter fun r => key r = g.1 := by
  obtain ⟨k, rs⟩ := g
  simp only [groupBy, List.mem_map, List.mem_dedup, Prod.mk.injEq]
  constructor
  · rintro ⟨k', ⟨r, hr, rfl⟩, rfl, rfl⟩
    exact ⟨⟨r, hr, rfl⟩, rfl⟩
  · rintro ⟨⟨r, hr, hk⟩, hrs⟩
    exact ⟨k, ⟨r, hr, hk⟩, rfl, hrs.symm⟩

theorem group_mem [DecidableEq κ] {key : α → κ} {rows : List α} {k : κ}
    (h : ∃ r ∈ rows, key r = k) : (k, rows.filter fun r => key r = k) ∈ groupBy key rows :=
  mem_groupBy.2 ⟨h, rfl⟩

theorem groupBy_keys [DecidableEq κ] (key : α → κ) (rows : List α) :
    (groupBy key rows).map Prod.fst = (rows.map key).dedup := by
  rw [groupBy, List.map_map]
  exact List.map_id _

theorem nodup_groupBy_keys [DecidableEq κ] (key : α → κ) (rows : List α) :
    ((groupBy key rows).map Prod.fst).Nodup := by
  rw [groupBy_keys]
  exact List.nodup_dedup _

theorem coalesce_sum (values : List (Option Int)) :
    coalesce (sum values) 0 = (values.filterMap id).sum := by
  unfold coalesce sum
  split
  · next h => rw [List.isEmpty_iff.1 h]; rfl
  · rfl

theorem sum_eq_some {values : List (Option Int)} {x : Int} :
    sum values = some x ↔ values.filterMap id ≠ [] ∧ (values.filterMap id).sum = x := by
  unfold sum
  generalize values.filterMap id = known
  cases known with
  | nil => simp
  | cons v vs => simp

theorem sum_of_values {f : α → Int} {rows : List α} {x : Int} :
    sum (rows.map fun r => some (f r)) = some x ↔ rows ≠ [] ∧ (rows.map f).sum = x := by
  rw [sum_eq_some, List.filterMap_map]
  have hid : (id ∘ fun r => some (f r)) = some ∘ f := rfl
  rw [hid, List.filterMap_eq_map, Ne, List.map_eq_nil_iff]

theorem orderBy_perm (le : α → α → Bool) (rows : List α) : (orderBy le rows).Perm rows :=
  List.perm_insertionSort _ rows

theorem mem_orderBy {le : α → α → Bool} {rows : List α} {r : α} :
    r ∈ orderBy le rows ↔ r ∈ rows := (orderBy_perm le rows).mem_iff

theorem orderBy_sorted {le : α → α → Bool} (htrans : ∀ a b c, le a b = true → le b c = true →
    le a c = true) (htotal : ∀ a b, (le a b || le b a) = true) (rows : List α) :
    (orderBy le rows).Pairwise fun a b => le a b = true := by
  have : IsTrans α fun a b => le a b = true := ⟨htrans⟩
  have : Std.Total fun a b => le a b = true := ⟨fun a b => by
    rw [← Bool.or_eq_true]
    exact htotal a b⟩
  exact List.pairwise_insertionSort _ rows

/-- What does not change the order may be done before the sorting or after it. -/
theorem orderBy_map {r : α → α → Bool} {s : β → β → Bool} {f : α → β} {rows : List α}
    (h : ∀ a b, r a b = s (f a) (f b)) : (orderBy r rows).map f = orderBy s (rows.map f) :=
  List.map_insertionSort _ _ f rows fun a _ b _ => iff_of_eq (congrArg (· = true) (h a b))

/-- Ordered by a key that no two rows share: strictly ascending. -/
theorem orderBy_ascending {le : α → α → Bool} (htrans : ∀ a b c, le a b = true → le b c = true →
    le a c = true) (htotal : ∀ a b, (le a b || le b a) = true) {rows : List α} {key : α → κ}
    (hnodup : (rows.map key).Nodup) :
    (orderBy le rows).Pairwise fun a b => le a b = true ∧ key a ≠ key b := by
  refine (orderBy_sorted htrans htotal rows).and (List.pairwise_map.1 ?_)
  exact ((orderBy_perm le rows).map key).nodup_iff.2 hnodup

/-- **Sorting leaves only the ties open**: given rows, found in whatever order, are listed with the
same keys at the same places. -/
theorem orderBy_upToTies (key : α → κ) {le : κ → κ → Bool}
    (htrans : ∀ a b c, le a b = true → le b c = true → le a c = true)
    (htotal : ∀ a b, (le a b || le b a) = true)
    (hanti : ∀ a b, le a b = true → le b a = true → a = b) {rows rows' : List α}
    (h : rows.Perm rows') :
    UpToTies key (orderBy (fun a b => le (key a) (key b)) rows)
      (orderBy (fun a b => le (key a) (key b)) rows') := by
  have hperm : (orderBy (fun a b => le (key a) (key b)) rows).Perm
      (orderBy (fun a b => le (key a) (key b)) rows') :=
    (orderBy_perm _ rows).trans (h.trans (orderBy_perm _ rows').symm)
  have hsorted : ∀ rows : List α, ((orderBy (fun a b => le (key a) (key b)) rows).map
      key).Pairwise fun a b => le a b = true := by
    intro rows
    exact List.pairwise_map.2 (orderBy_sorted (fun a b c => htrans (key a) (key b) (key c))
      (fun a b => htotal (key a) (key b)) rows)
  refine ⟨hperm, (hperm.map key).eq_of_pairwise ?_ (hsorted rows) (hsorted rows')⟩
  intro a b _ _ hab hba
  exact hanti a b hab hba

/-- A strict order leaves one way to list given rows. -/
theorem eq_of_ascending {R : α → α → Prop} (hasymm : ∀ a b, R a b → ¬ R b a) {rows rows' : List α}
    (h : rows.Pairwise R) (h' : rows'.Pairwise R) (hmem : ∀ a, a ∈ rows ↔ a ∈ rows') :
    rows = rows' := by
  have hne : ∀ {a b}, R a b → a ≠ b := by
    rintro a b hab rfl
    exact hasymm a a hab hab
  have hperm : rows.Perm rows' :=
    (List.perm_ext_iff_of_nodup (h.imp hne) (h'.imp hne)).2 hmem
  exact hperm.eq_of_pairwise (fun a b _ _ hab hba => absurd hba (hasymm a b hab)) h h'

/-! ## Joins -/

theorem join_filter_left (on : α → β → Bool) (p : α → Bool) (as : List α) (bs : List β) :
    (join on as bs).filter (fun r => p r.1) = join on (as.filter p) bs := by
  induction as with
  | nil => rfl
  | cons a as ih =>
    have hstep : join on (a :: as) bs = (bs.filter (on a)).map (fun b => (a, b)) ++ join on as bs :=
      rfl
    rw [hstep, List.filter_append, ih, List.filter_map]
    by_cases ha : p a = true
    · rw [List.filter_cons_of_pos ha]
      have hall : ((fun r : α × β => p r.1) ∘ fun b => (a, b)) = fun _ => true := by
        funext b
        exact ha
      rw [hall, List.filter_true]
      rfl
    · rw [List.filter_cons_of_neg ha]
      have hnone : ((fun r : α × β => p r.1) ∘ fun b => (a, b)) = fun _ => false := by
        funext b
        exact Bool.eq_false_iff.2 ha
      rw [hnone, List.filter_false]
      rfl

theorem matched_fst {on : α → β → Bool} {bs : List β} {a : α} {r : α × Option β}
    (h : r ∈ matched on bs a) : r.1 = a := by
  unfold matched at h
  split at h
  · rw [List.mem_singleton.1 h]
  · obtain ⟨b, -, rfl⟩ := List.mem_map.1 h
    rfl

theorem matched_ne_nil (on : α → β → Bool) (bs : List β) (a : α) : matched on bs a ≠ [] := by
  unfold matched
  split
  · simp
  · next h =>
    rw [Ne, List.map_eq_nil_iff]
    intro hnil
    simp [hnil] at h

/-- The values a left join has for `a`. -/
theorem matched_values (on : α → β → Bool) (bs : List β) (a : α) (f : β → Int) :
    (matched on bs a).filterMap (fun r => r.2.map f) = (bs.filter (on a)).map f := by
  unfold matched
  split
  · next h => rw [List.isEmpty_iff.1 h]; rfl
  · rw [List.filterMap_map]
    exact congrFun List.filterMap_eq_map _

theorem leftJoin_filter_left (on : α → β → Bool) (p : α → Bool) (as : List α) (bs : List β) :
    (leftJoin on as bs).filter (fun r => p r.1) = leftJoin on (as.filter p) bs := by
  induction as with
  | nil => rfl
  | cons a as ih =>
    have hstep : leftJoin on (a :: as) bs = matched on bs a ++ leftJoin on as bs := rfl
    rw [hstep, List.filter_append, ih]
    by_cases ha : p a = true
    · rw [List.filter_cons_of_pos ha, List.filter_eq_self.2]
      · rfl
      · intro r hr
        rw [matched_fst hr]
        exact ha
    · rw [List.filter_cons_of_neg ha, List.filter_eq_nil_iff.2]
      · rfl
      · intro r hr
        rw [matched_fst hr]
        exact ha

/-- A left join depends on the rows that fit one on its left. -/
theorem leftJoin_congr {on : α → β → Bool} {as : List α} {bs bs' : List β}
    (h : ∀ a ∈ as, bs.filter (on a) = bs'.filter (on a)) :
    leftJoin on as bs = leftJoin on as bs' := by
  unfold leftJoin matched
  rw [List.flatMap_def, List.flatMap_def]
  refine congrArg List.flatten (List.map_congr_left fun a ha => ?_)
  rw [h a ha]

theorem join_congr {on : α → β → Bool} {as : List α} {bs bs' : List β}
    (h : ∀ a ∈ as, bs.filter (on a) = bs'.filter (on a)) : join on as bs = join on as bs' := by
  unfold join
  rw [List.flatMap_def, List.flatMap_def]
  refine congrArg List.flatten (List.map_congr_left fun a ha => ?_)
  rw [h a ha]

/-- Where at most one row fits each on the left, a join never repeats one. -/
theorem join_at_most_one {on : α → β → Bool} {as : List α} {bs : List β}
    (hone : ∀ a ∈ as, (bs.filter (on a)).length ≤ 1) (p : α × β → Bool) :
    ((join on as bs).filter p).map Prod.fst =
      as.filter fun a => bs.any fun b => on a b && p (a, b) := by
  induction as with
  | nil => rfl
  | cons a as ih =>
    have hstep : join on (a :: as) bs = (bs.filter (on a)).map (fun b => (a, b)) ++ join on as bs :=
      rfl
    rw [hstep, List.filter_append, List.map_append, ih fun a ha => hone a (List.mem_cons_of_mem _ ha),
      List.filter_map, List.map_map, List.filter_filter, List.filter_cons]
    have hfits : (bs.filter fun b => (p ∘ fun b => (a, b)) b && on a b).length ≤ 1 := by
      rw [← List.filter_filter]
      exact le_trans (List.length_filter_le _ _) (hone a List.mem_cons_self)
    cases hrows : bs.filter fun b => (p ∘ fun b => (a, b)) b && on a b with
    | nil =>
      rw [if_neg]
      · rfl
      · rw [List.any_eq_true]
        rintro ⟨b, hb, hfit⟩
        refine List.filter_eq_nil_iff.1 hrows b hb ?_
        rwa [Bool.and_comm]
    | cons b rest =>
      rw [hrows, List.length_cons] at hfits
      obtain rfl : rest = [] := List.length_eq_zero_iff.1 (by omega)
      rw [if_pos]
      · rfl
      · obtain ⟨hb, hfit⟩ := List.mem_filter.1 (hrows ▸ List.mem_cons_self : b ∈ _)
        rw [List.any_eq_true]
        exact ⟨b, hb, by rwa [Bool.and_comm] at hfit⟩

theorem filter_of_imp {p q : α → Bool} {rows : List α} (h : ∀ a ∈ rows, q a = true → p a = true) :
    (rows.filter p).filter q = rows.filter q := by
  rw [List.filter_filter]
  refine List.filter_congr fun a ha => ?_
  rw [Bool.and_eq_left_iff_imp]
  exact h a ha

theorem any_congr {p q : α → Bool} {rows : List α} (h : ∀ a ∈ rows, p a = q a) :
    rows.any p = rows.any q := by
  rw [Bool.eq_iff_iff, List.any_eq_true, List.any_eq_true]
  exact exists_congr fun a => and_congr_right fun ha => by rw [h a ha]

theorem find?_of_imp {p q : α → Bool} {rows : List α} (h : ∀ a, q a = true → p a = true) :
    (rows.filter p).find? q = rows.find? q := by
  rw [List.find?_filter]
  refine congrArg (fun f => rows.find? f) (funext fun a => ?_)
  rw [Bool.eq_iff_iff, decide_eq_true_eq]
  exact and_iff_right_of_imp (h a)

theorem leftJoin_keys (on : α → β → Bool) (as : List α) (bs : List β) (a : α) :
    (∃ r ∈ leftJoin on as bs, r.1 = a) ↔ a ∈ as := by
  simp only [leftJoin, List.mem_flatMap]
  constructor
  · rintro ⟨r, ⟨a', ha', hr⟩, rfl⟩
    rw [matched_fst hr]
    exact ha'
  · intro ha
    obtain ⟨r, hr⟩ := List.exists_mem_of_ne_nil _ (matched_ne_nil on bs a)
    exact ⟨r, ⟨a, ha, hr⟩, matched_fst hr⟩

/-- A block of one key in front of other keys. -/
theorem dedup_block [DecidableEq κ] {k : κ} {block rest : List κ} (hne : block ≠ [])
    (hblock : ∀ x ∈ block, x = k) (hrest : k ∉ rest) :
    (block ++ rest).dedup = k :: rest.dedup := by
  induction block with
  | nil => exact absurd rfl hne
  | cons x block ih =>
    obtain rfl := hblock x List.mem_cons_self
    have hblock' : ∀ y ∈ block, y = x := fun y hy => hblock y (List.mem_cons_of_mem _ hy)
    rw [List.cons_append]
    by_cases hnil : block = []
    · rw [hnil, List.nil_append, List.dedup_cons_of_notMem hrest]
    · obtain ⟨y, hy⟩ := List.exists_mem_of_ne_nil _ hnil
      have hmem : x ∈ block ++ rest := List.mem_append_left _ (hblock' y hy ▸ hy)
      rw [List.dedup_cons_of_mem hmem, ih hnil hblock']

theorem leftJoin_key_dedup [DecidableEq κ] {on : α → β → Bool} {key : α → κ} {as : List α}
    {bs : List β} (hnodup : (as.map key).Nodup) :
    ((leftJoin on as bs).map fun r => key r.1).dedup = as.map key := by
  induction as with
  | nil => rfl
  | cons a as ih =>
    obtain ⟨hnot, hnodup⟩ := List.nodup_cons.1 hnodup
    have hstep : leftJoin on (a :: as) bs = matched on bs a ++ leftJoin on as bs := rfl
    rw [hstep, List.map_append, dedup_block (k := key a), ih hnodup, List.map_cons]
    · rw [Ne, List.map_eq_nil_iff]
      exact matched_ne_nil on bs a
    · intro x hx
      obtain ⟨r, hr, rfl⟩ := List.mem_map.1 hx
      rw [matched_fst hr]
    · intro hmem
      obtain ⟨r, hr, hk⟩ := List.mem_map.1 hmem
      exact hnot (List.mem_map.2 ⟨r.1, (leftJoin_keys on as bs r.1).1 ⟨r, hr, rfl⟩, hk⟩)

/-- A key that no two rows share: the row it is the key of. -/
theorem filter_key [DecidableEq κ] {key : α → κ} {as : List α} (hnodup : (as.map key).Nodup)
    {a : α} (ha : a ∈ as) : (as.filter fun b => key b = key a) = [a] := by
  refine List.perm_singleton.1 ((List.perm_ext_iff_of_nodup ?_ (List.nodup_singleton a)).2 ?_)
  · exact (List.Nodup.of_map _ hnodup).filter _
  · intro b
    rw [List.mem_filter, List.mem_singleton, decide_eq_true_eq]
    constructor
    · rintro ⟨hb, hk⟩
      exact List.inj_on_of_nodup_map hnodup hb ha hk
    · rintro rfl
      exact ⟨ha, rfl⟩

theorem filter_key_length [DecidableEq κ] {key : α → κ} {as : List α}
    (hnodup : (as.map key).Nodup) (k : κ) : (as.filter fun b => key b = k).length ≤ 1 := by
  by_cases hk : ∃ a ∈ as, key a = k
  · obtain ⟨a, ha, rfl⟩ := hk
    rw [filter_key hnodup ha]
    exact Nat.le_refl 1
  · have hnil : (as.filter fun b => key b = k) = [] :=
      List.filter_eq_nil_iff.2 fun a ha heq => hk ⟨a, ha, of_decide_eq_true heq⟩
    rw [hnil]
    exact Nat.zero_le 1

/-- A left join grouped by a key of its left rows: each of them, with what fits it. -/
theorem groupBy_leftJoin [DecidableEq κ] {on : α → β → Bool} {key : α → κ} {as : List α}
    {bs : List β} (hnodup : (as.map key).Nodup) :
    groupBy (fun r => key r.1) (leftJoin on as bs) =
      as.map fun a => (key a, matched on bs a) := by
  rw [groupBy, leftJoin_key_dedup hnodup, List.map_map]
  refine List.map_congr_left fun a ha => congrArg (Prod.mk (key a)) ?_
  have hfilter : (leftJoin on as bs).filter (fun r => key r.1 = key a) =
      leftJoin on (as.filter fun b => key b = key a) bs :=
    leftJoin_filter_left on (fun b => decide (key b = key a)) as bs
  rw [hfilter, filter_key hnodup ha, leftJoin, List.flatMap_cons, List.flatMap_nil, List.append_nil]

/-- The sum over a left join is the sum, over its left rows, of what fits each. -/
theorem leftJoin_sum (on : α → β → Bool) (as : List α) (bs : List β) (f : β → Int) :
    ((leftJoin on as bs).filterMap fun r => r.2.map f).sum =
      (as.map fun a => ((bs.filter (on a)).map f).sum).sum := by
  induction as with
  | nil => rfl
  | cons a as ih =>
    have hstep : leftJoin on (a :: as) bs = matched on bs a ++ leftJoin on as bs := rfl
    rw [hstep, List.filterMap_append, List.sum_append, matched_values, ih, List.map_cons,
      List.sum_cons]

/-! ## Sums and pages -/

/-- Rows summed key by key. -/
theorem sum_by_key [DecidableEq κ] (key : α → κ) (f : α → Int) {keys : List κ}
    (hnodup : keys.Nodup) (rows : List α) (hkeys : ∀ r ∈ rows, key r ∈ keys) :
    (keys.map fun k => ((rows.filter fun r => key r = k).map f).sum).sum = (rows.map f).sum := by
  induction rows with
  | nil => simp
  | cons r rows ih =>
    have hrest := ih fun r' hr' => hkeys r' (List.mem_cons_of_mem _ hr')
    have hstep : (keys.map fun k => (((r :: rows).filter fun r => key r = k).map f).sum) =
        keys.map fun k =>
          if k = key r then f r + ((rows.filter fun r => key r = k).map f).sum
          else ((rows.filter fun r => key r = k).map f).sum := by
      refine List.map_congr_left fun k _ => ?_
      by_cases hk : k = key r
      · subst hk
        simp
      · simp [hk, Ne.symm hk]
    have hcount : keys.count (key r) = 1 :=
      List.count_eq_one_of_mem hnodup (hkeys r List.mem_cons_self)
    rw [hstep, List.sum_map_ite_eq, hcount, hrest, List.map_cons, List.sum_cons, one_nsmul]
    omega

/-- What one of the rows adds to a sum over them. -/
theorem sum_at [DecidableEq κ] {key : α → κ} {rows : List α} (hnodup : (rows.map key).Nodup)
    (k : κ) (x : Int) :
    (rows.map fun r => if key r = k then x else 0).sum = if k ∈ rows.map key then x else 0 := by
  have hmap : (rows.map fun r => if key r = k then x else 0) =
      (rows.map key).map fun j => if j = k then x else 0 := by
    rw [List.map_map]
    rfl
  rw [hmap, List.sum_map_ite_eq _ (fun _ => x) fun _ => 0, List.map_const', List.sum_replicate,
    nsmul_zero, add_zero]
  split
  · next hk => simp [List.count_eq_one_of_mem hnodup hk]
  · next hk => simp [List.count_eq_zero_of_not_mem hk]

/-- Enough pages, one after another, are all the rows. -/
theorem pages_eq (limit : Nat) (rows : List α) (n : Nat) :
    (List.range n).flatMap (fun k => page limit (k * limit) rows) = rows.take (n * limit) := by
  induction n with
  | zero => simp
  | succ n ih =>
    rw [List.range_succ, List.flatMap_append, ih, Nat.succ_mul]
    simp only [List.flatMap_cons, List.flatMap_nil, List.append_nil, page]
    exact List.take_add.symm

theorem pages_all {limit : Nat} {rows : List α} {n : Nat} (h : rows.length ≤ n * limit) :
    (List.range n).flatMap (fun k => page limit (k * limit) rows) = rows := by
  rw [pages_eq, List.take_of_length_le h]

end Sql
