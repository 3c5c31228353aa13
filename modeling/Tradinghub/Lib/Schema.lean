import Mathlib.Logic.Function.Basic
import Mathlib.Data.List.Basic

/-!
# Tables, and the statements that change their columns

A `Relation` is a list of rows under named columns.  A row has no value outside the columns and a
value under every column that must have one; the structure carries both.  `Op` is a statement of a
migration, `apply` what a database does for it (or why it refuses), and a `Revision` is a list of
them with a pointer to the revision it follows.

Dropping a column forgets its values and adding one fills it, so a column that is dropped and added
again keeps every other value and nothing of its own (`dropAdd_rows`).
-/

namespace Schema

variable {T V : Type}

structure Column (T V : Type) where
  name : String
  type : T
  nullable : Bool
  /-- what the column holds in the rows that are there when it is added -/
  default : Option V := none
  deriving DecidableEq

/-- A value under each column's name; `none` is NULL. -/
abbrev Row (V : Type) := String → Option V

/-- The columns have that name among them. -/
def named (columns : List (Column T V)) (name : String) : Bool :=
  columns.any fun col => col.name = name

theorem named_iff {columns : List (Column T V)} {name : String} :
    named columns name = true ↔ ∃ col ∈ columns, col.name = name := by
  simp [named]

structure Relation (T V : Type) where
  columns : List (Column T V)
  rows : List (Row V)
  blank : ∀ r ∈ rows, ∀ name, named columns name = false → r name = none
  notNull : ∀ r ∈ rows, ∀ col ∈ columns, col.nullable = false → r col.name ≠ none

namespace Relation

def create (columns : List (Column T V)) : Relation T V where
  columns := columns
  rows := []
  blank _ h := by cases h
  notNull _ h := by cases h

/-- The rows lose their values under that name. -/
def dropColumn (t : Relation T V) (name : String) : Relation T V where
  columns := t.columns.filter fun col => col.name ≠ name
  rows := t.rows.map fun r => Function.update r name none
  blank := by
    intro r hr c hc
    obtain ⟨old, hold, rfl⟩ := List.mem_map.1 hr
    by_cases hname : c = name
    · rw [hname, Function.update_self]
    · rw [Function.update_of_ne hname]
      refine t.blank old hold c ?_
      rw [Bool.eq_false_iff, Ne, named_iff] at hc ⊢
      rintro ⟨col, hcol, rfl⟩
      exact hc ⟨col, List.mem_filter.2 ⟨hcol, by simpa using hname⟩, rfl⟩
  notNull := by
    intro r hr col hcol hnull
    obtain ⟨old, hold, rfl⟩ := List.mem_map.1 hr
    obtain ⟨hcol, hname⟩ := List.mem_filter.1 hcol
    rw [Function.update_of_ne (by simpa using hname)]
    exact t.notNull old hold col hcol hnull

/-- The rows there are take the column's default. -/
def addColumn (t : Relation T V) (col : Column T V) (hnew : named t.columns col.name = false)
    (hfill : col.nullable = true ∨ col.default ≠ none ∨ t.rows = []) : Relation T V where
  columns := t.columns ++ [col]
  rows := t.rows.map fun r => Function.update r col.name col.default
  blank := by
    intro r hr c hc
    obtain ⟨old, hold, rfl⟩ := List.mem_map.1 hr
    simp only [named, List.any_append, List.any_cons, List.any_nil, Bool.or_false,
      Bool.or_eq_false_iff, decide_eq_false_iff_not] at hc
    rw [Function.update_of_ne (Ne.symm hc.2)]
    exact t.blank old hold c hc.1
  notNull := by
    intro r hr c hc hnull
    obtain ⟨old, hold, rfl⟩ := List.mem_map.1 hr
    rcases List.mem_append.1 hc with hc | hc
    · have hne : c.name ≠ col.name := fun h => by
        rw [Bool.eq_false_iff, Ne, named_iff] at hnew
        exact hnew ⟨c, hc, h⟩
      rw [Function.update_of_ne hne]
      exact t.notNull old hold c hc hnull
    · obtain rfl := List.mem_singleton.1 hc
      rw [Function.update_self]
      rcases hfill with h | h | h
      · exact absurd (hnull.symm.trans h) Bool.false_ne_true
      · exact h
      · rw [h] at hold
        cases hold

end Relation

structure Index where
  name : String
  table : String
  columns : List String
  unique : Bool
  deriving DecidableEq

structure Database (T V : Type) where
  tables : String → Option (Relation T V) := fun _ => none
  indexes : List Index := []

namespace Database

def empty : Database T V := {}

/-- The rows of a table; a table that is not there has none. -/
def rows (db : Database T V) (table : String) : List (Row V) :=
  ((db.tables table).map Relation.rows).getD []

def put (db : Database T V) (table : String) (t : Relation T V) : Database T V :=
  { db with tables := Function.update db.tables table (some t) }

@[simp] theorem put_self (db : Database T V) (table : String) (t : Relation T V) :
    (db.put table t).tables table = some t := Function.update_self ..

theorem put_of_ne (db : Database T V) {table other : String} (t : Relation T V)
    (h : other ≠ table) : (db.put table t).tables other = db.tables other :=
  Function.update_of_ne h ..

/-- The same tables with the same columns, and the same indexes, whatever the rows. -/
def SameSchema (db db' : Database T V) : Prop :=
  (∀ table, (db.tables table).map Relation.columns = (db'.tables table).map Relation.columns) ∧
    db.indexes = db'.indexes

/-- Other rows under the same columns. -/
theorem sameSchema_put {db db' : Database T V} {table : String} {t t' : Relation T V}
    (h : db.SameSchema db') (ht : db'.tables table = some t') (hcolumns : t.columns = t'.columns) :
    (db.put table t).SameSchema db' := by
  refine ⟨fun other => ?_, h.2⟩
  by_cases hother : other = table
  · subst hother
    rw [put_self, ht, Option.map_some, Option.map_some, hcolumns]
  · rw [put_of_ne db t hother]
    exact h.1 other

end Database

/-- The row with those values. -/
def rowOf (values : List (String × Option V)) : Row V := fun name => (values.lookup name).join

theorem rowOf_blank {columns : List (Column T V)} {values : List (String × Option V)}
    (hkeys : values.map Prod.fst = columns.map Column.name) {name : String}
    (hname : named columns name = false) : rowOf values name = none := by
  have hnot : name ∉ values.map Prod.fst := by
    rw [hkeys]
    intro hmem
    obtain ⟨col, hcol, rfl⟩ := List.mem_map.1 hmem
    exact Bool.eq_false_iff.1 hname (named_iff.2 ⟨col, hcol, rfl⟩)
  have hlookup : values.lookup name = none := by
    rw [List.lookup_eq_none_iff]
    intro p hp
    rw [bne_iff_ne]
    rintro rfl
    exact hnot (List.mem_map_of_mem hp)
  rw [rowOf, hlookup]
  rfl

/-! ## Statements -/

inductive Op (T V : Type) where
  | createExtension (name : String)
  | createTable (table : String) (columns : List (Column T V))
  | dropColumn (table column : String)
  | addColumn (table : String) (column : Column T V)
  | createIndex (index : Index)

inductive DdlError where
  | duplicateTable
  | undefinedTable
  | duplicateColumn
  | undefinedColumn
  | notNullViolation
  | duplicateIndex
  | uniqueViolation
  deriving DecidableEq, Repr

variable [DecidableEq V]

/-- The rows agree on every column of the index; NULL agrees with nothing. -/
def agree (columns : List String) (r s : Row V) : Bool :=
  columns.all fun c => (r c).isSome && decide (r c = s c)

def Op.apply (db : Database T V) : Op T V → Except DdlError (Database T V)
  | .createExtension _ => .ok db
  | .createTable table columns =>
    if (db.tables table).isSome then .error .duplicateTable
    else .ok (db.put table (.create columns))
  | .dropColumn table column =>
    match db.tables table with
    | none => .error .undefinedTable
    | some t =>
      if named t.columns column then
        -- an index goes with any of its columns
        .ok { db.put table (t.dropColumn column) with
          indexes := db.indexes.filter fun i => ¬ (i.table = table ∧ column ∈ i.columns) }
      else .error .undefinedColumn
  | .addColumn table column =>
    match db.tables table with
    | none => .error .undefinedTable
    | some t =>
      if hnew : named t.columns column.name = false then
        if hfill : column.nullable = true ∨ column.default ≠ none ∨ t.rows = [] then
          .ok (db.put table (t.addColumn column hnew hfill))
        else .error .notNullViolation
      else .error .duplicateColumn
  | .createIndex index =>
    match db.tables index.table with
    | none => .error .undefinedTable
    | some t =>
      if db.indexes.any fun i => i.name = index.name then .error .duplicateIndex
      else if index.columns.any fun c => !named t.columns c then .error .undefinedColumn
      else if index.unique ∧ ¬ t.rows.Pairwise fun r s => agree index.columns r s = false then
        .error .uniqueViolation
      else .ok { db with indexes := db.indexes ++ [index] }

/-- The statements in order, up to the first that is refused. -/
def applyOps (db : Database T V) (ops : List (Op T V)) : Except DdlError (Database T V) :=
  ops.foldlM Op.apply db

/-! ## A column dropped and added again -/

theorem apply_dropColumn {db : Database T V} {t : Relation T V} {table column : String}
    (ht : db.tables table = some t) (hcolumn : named t.columns column = true) :
    (Op.dropColumn table column).apply db = .ok
      { db.put table (t.dropColumn column) with
        indexes := db.indexes.filter fun i => ¬ (i.table = table ∧ column ∈ i.columns) } := by
  simp only [Op.apply, ht, hcolumn, if_true]

theorem apply_addColumn {db : Database T V} {t : Relation T V} {table : String}
    {column : Column T V} (ht : db.tables table = some t)
    (hnew : named t.columns column.name = false)
    (hfill : column.nullable = true ∨ column.default ≠ none ∨ t.rows = []) :
    (Op.addColumn table column).apply db = .ok (db.put table (t.addColumn column hnew hfill)) := by
  simp only [Op.apply, ht, dif_pos hnew, dif_pos hfill]

omit [DecidableEq V] in
theorem named_dropColumn (t : Relation T V) (name : String) :
    named (t.dropColumn name).columns name = false := by
  rw [Bool.eq_false_iff, Ne, named_iff]
  rintro ⟨col, hcol, hname⟩
  obtain ⟨-, hne⟩ := List.mem_filter.1 hcol
  simp [hname] at hne

/-- Everything else is kept, and what the column held is gone. -/
theorem dropAdd {db : Database T V} {t : Relation T V} {table : String} {column : Column T V}
    (ht : db.tables table = some t) (hcolumn : named t.columns column.name = true)
    (hnull : column.nullable = true) :
    ∃ db', ((Op.dropColumn table column.name).apply db >>= (Op.addColumn table column).apply) =
        .ok db' ∧
      db'.rows table = t.rows.map (fun r => Function.update r column.name column.default) ∧
      ∀ other, other ≠ table → db'.tables other = db.tables other := by
  have hdrop := apply_dropColumn ht hcolumn
  generalize hdropped : ({ db.put table (t.dropColumn column.name) with
    indexes := db.indexes.filter fun i => ¬ (i.table = table ∧ column.name ∈ i.columns) } :
    Database T V) = dropped at hdrop
  have htable : dropped.tables table = some (t.dropColumn column.name) := by
    rw [← hdropped]
    exact db.put_self table _
  have hadd := apply_addColumn htable (named_dropColumn t column.name) (Or.inl hnull)
  refine ⟨_, by rw [hdrop]; exact hadd, ?_, fun other hother => ?_⟩
  · simp only [Database.rows, Database.put_self, Option.map_some, Option.getD_some,
      Relation.addColumn, Relation.dropColumn, List.map_map]
    exact List.map_congr_left fun r _ => Function.update_idem ..
  · rw [Database.put_of_ne _ _ hother, ← hdropped]
    exact db.put_of_ne _ hother

omit [DecidableEq V] in
theorem map_forget_eq_iff (rows : List (Row V)) (name : String) :
    (rows.map fun r => Function.update r name none) = rows ↔ ∀ r ∈ rows, r name = none := by
  constructor
  · intro h r hr
    rw [← h] at hr
    obtain ⟨old, -, rfl⟩ := List.mem_map.1 hr
    exact Function.update_self ..
  · intro h
    refine (List.map_congr_left fun r hr => ?_).trans (List.map_id _)
    rw [← h r hr]
    exact Function.update_eq_self ..

/-! ## Revisions -/

structure Revision (T V : Type) where
  revision : String
  downRevision : Option String
  upgrade : List (Op T V)

/-- The revisions from `current` (`none` is the base) to the head, each after the one it follows. -/
def toHead (revisions : List (Revision T V)) : Nat → Option String → List (Revision T V)
  | 0, _ => []
  | fuel + 1, current =>
    match revisions.find? fun r => r.downRevision = current with
    | none => []
    | some r => r :: toHead revisions fuel (some r.revision)

/-- A list of revisions up to and including that one. -/
def upTo (revision : String) : List (Revision T V) → List (Revision T V)
  | [] => []
  | r :: rs => if r.revision = revision then [r] else r :: upTo revision rs

def runAll (db : Database T V) (revisions : List (Revision T V)) :
    Except DdlError (Database T V) :=
  revisions.foldlM (fun db r => applyOps db r.upgrade) db

/-- `alembic upgrade head`, on a database at revision `current`. -/
def upgradeHead (revisions : List (Revision T V)) (current : Option String) (db : Database T V) :
    Except DdlError (Database T V) :=
  runAll db (toHead revisions revisions.length current)

/-- A database at that revision: the schema is the one the revisions up to there build, the rows
are any. -/
def AtRevision (revisions : List (Revision T V)) (revision : String) (db : Database T V) : Prop :=
  ∃ built, runAll Database.empty (upTo revision (toHead revisions revisions.length none)) =
    .ok built ∧ db.SameSchema built

end Schema
