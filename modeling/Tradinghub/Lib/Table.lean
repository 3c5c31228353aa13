import Mathlib.Data.List.Nodup
import Mathlib.Data.List.Perm.Basic
import Mathlib.Algebra.BigOperators.Group.List.Basic

/-!
# Tables with a primary key

A `Table` holds rows in the order of their keys, so no key occurs twice and a table is decided by
its members (`Table.ext_mem`).  `put` inserts a row or replaces the one with its key, `erase`
deletes by key.
-/

namespace Store

/-- Rows with a primary key. -/
class Keyed (ρ : Type) where
  key : ρ → Nat

structure Table (ρ : Type) [Keyed ρ] where
  rows : List ρ
  sorted : rows.Pairwise fun r s => Keyed.key r < Keyed.key s

namespace Table

open Keyed

variable {ρ : Type} [Keyed ρ]

instance : Membership ρ (Table ρ) := ⟨fun t r => r ∈ t.rows⟩

theorem mem_iff {t : Table ρ} {r : ρ} : r ∈ t ↔ r ∈ t.rows := Iff.rfl

theorem nodup (t : Table ρ) : t.rows.Nodup :=
  t.sorted.imp fun h e => by subst e; omega

theorem nodup_keys (t : Table ρ) : (t.rows.map key).Nodup :=
  List.pairwise_map.2 (t.sorted.imp fun h => Nat.ne_of_lt h)

/-- Two rows of a table with one key are one row. -/
theorem eq_of_key (t : Table ρ) {r s : ρ} (hr : r ∈ t) (hs : s ∈ t) (h : key r = key s) : r = s :=
  List.inj_on_of_nodup_map t.nodup_keys hr hs h

theorem ext_mem {t t' : Table ρ} (h : ∀ r, r ∈ t ↔ r ∈ t') : t = t' := by
  obtain ⟨l, hl⟩ := t
  obtain ⟨l', hl'⟩ := t'
  have hp : l.Perm l' :=
    (List.perm_ext_iff_of_nodup (nodup ⟨l, hl⟩) (nodup ⟨l', hl'⟩)).2 h
  have : l = l' := hp.eq_of_pairwise (fun a b _ _ hab hba => by omega) hl hl'
  subst this
  rfl

def empty : Table ρ := ⟨[], .nil⟩

@[simp] theorem not_mem_empty (r : ρ) : r ∉ (empty : Table ρ) := List.not_mem_nil

def find? (t : Table ρ) (k : Nat) : Option ρ := t.rows.find? fun r => key r = k

theorem find?_eq_some {t : Table ρ} {k : Nat} {r : ρ} :
    t.find? k = some r ↔ r ∈ t ∧ key r = k := by
  constructor
  · intro h
    exact ⟨List.mem_of_find?_eq_some h, by simpa using List.find?_some h⟩
  · rintro ⟨hr, hk⟩
    cases h : t.find? k with
    | none => exact absurd hk (by simpa using List.find?_eq_none.1 h r hr)
    | some s =>
      have hs : s ∈ t := List.mem_of_find?_eq_some h
      have hsk : key s = k := by simpa using List.find?_some h
      rw [t.eq_of_key hr hs (by omega)]

theorem find?_eq_none {t : Table ρ} {k : Nat} : t.find? k = none ↔ ∀ r ∈ t, key r ≠ k := by
  simp [find?, List.find?_eq_none, mem_iff]

def filter (t : Table ρ) (p : ρ → Bool) : Table ρ := ⟨t.rows.filter p, t.sorted.filter p⟩

@[simp] theorem mem_filter {t : Table ρ} {p : ρ → Bool} {r : ρ} :
    r ∈ t.filter p ↔ r ∈ t ∧ p r = true := List.mem_filter

@[simp] theorem rows_filter (t : Table ρ) (p : ρ → Bool) : (t.filter p).rows = t.rows.filter p := rfl

/-- DELETE by key. -/
def erase (t : Table ρ) (k : Nat) : Table ρ := t.filter fun r => key r ≠ k

@[simp] theorem mem_erase {t : Table ρ} {k : Nat} {r : ρ} : r ∈ t.erase k ↔ r ∈ t ∧ key r ≠ k := by
  simp [erase]

/-- INSERT, or the new version of the row with that key. -/
def put (t : Table ρ) (r : ρ) : Table ρ where
  rows := t.rows.filter (fun s => key s < key r) ++ r :: t.rows.filter (fun s => key r < key s)
  sorted := by
    rw [List.pairwise_append, List.pairwise_cons]
    refine ⟨t.sorted.filter _, ⟨fun s hs => ?_, t.sorted.filter _⟩, fun a ha b hb => ?_⟩
    · simpa using (List.mem_filter.1 hs).2
    · have ha' : key a < key r := by simpa using (List.mem_filter.1 ha).2
      rcases List.mem_cons.1 hb with rfl | hb
      · exact ha'
      · have : key r < key b := by simpa using (List.mem_filter.1 hb).2
        omega

@[simp] theorem mem_put {t : Table ρ} {r s : ρ} :
    s ∈ t.put r ↔ s = r ∨ (s ∈ t ∧ key s ≠ key r) := by
  simp only [put, mem_iff, List.mem_append, List.mem_cons, List.mem_filter, decide_eq_true_eq]
  constructor
  · rintro (⟨h, h'⟩ | rfl | ⟨h, h'⟩)
    · exact Or.inr ⟨h, by omega⟩
    · exact Or.inl rfl
    · exact Or.inr ⟨h, by omega⟩
  · rintro (rfl | ⟨h, h'⟩)
    · exact Or.inr (Or.inl rfl)
    · rcases Nat.lt_or_gt_of_ne h' with h'' | h''
      · exact Or.inl ⟨h, h''⟩
      · exact Or.inr (Or.inr ⟨h, h''⟩)

theorem put_self {t : Table ρ} {r : ρ} (hr : r ∈ t) : t.put r = t := by
  apply ext_mem
  intro s
  rw [mem_put]
  constructor
  · rintro (rfl | ⟨hs, -⟩)
    · exact hr
    · exact hs
  · intro hs
    by_cases h : key s = key r
    · exact Or.inl (t.eq_of_key hs hr h)
    · exact Or.inr ⟨hs, h⟩

theorem filter_put_of_neg {t : Table ρ} {p : ρ → Bool} {r : ρ} (hr : p r = false)
    (ht : ∀ s ∈ t, key s = key r → p s = false) : (t.put r).filter p = t.filter p := by
  apply ext_mem
  intro s
  rw [mem_filter, mem_filter, mem_put]
  constructor
  · rintro ⟨rfl | ⟨h, -⟩, hp⟩
    · rw [hr] at hp; cases hp
    · exact ⟨h, hp⟩
  · rintro ⟨h, hp⟩
    refine ⟨Or.inr ⟨h, fun e => ?_⟩, hp⟩
    rw [ht s h e] at hp
    cases hp

theorem filter_put_of_pos {t : Table ρ} {p : ρ → Bool} {r : ρ} (hr : p r = true) :
    (t.put r).filter p = (t.filter p).put r := by
  apply ext_mem
  intro s
  rw [mem_filter, mem_put, mem_put, mem_filter]
  constructor
  · rintro ⟨rfl | ⟨h, hne⟩, hp⟩
    · exact Or.inl rfl
    · exact Or.inr ⟨⟨h, hp⟩, hne⟩
  · rintro (rfl | ⟨⟨h, hp⟩, hne⟩)
    · exact ⟨Or.inl rfl, hr⟩
    · exact ⟨Or.inr ⟨h, hne⟩, hp⟩

theorem filter_comm (t : Table ρ) (p q : ρ → Bool) : (t.filter p).filter q = (t.filter q).filter p := by
  apply ext_mem
  intro s
  rw [mem_filter, mem_filter, mem_filter, mem_filter]
  exact and_right_comm

/-- Looked up among some of the rows, when the row looked for is one of them. -/
theorem find?_filter {t : Table ρ} {p : ρ → Bool} {r : ρ} (hr : r ∈ t) (hp : p r = true) :
    (t.filter p).find? (key r) = some r := find?_eq_some.2 ⟨mem_filter.2 ⟨hr, hp⟩, rfl⟩

end Table

end Store
