import Mathlib.Data.List.TakeWhile
import Mathlib.Data.Int.Notation
import Mathlib.Data.List.Nodup

/-!
# A relational engine's schema statements

Tables, indexes and views under one set of names, the sequence of the autoincrement marks, and what the
statements that change them do.

* `Database`, `Statement`, `exec`: the state and its steps;
* `find_add`, `find_put`, `find_remove`: what a name stands for afterwards;
* `insertRows_spec`: rows in key order are filed behind the rows there, and the mark follows them.

A table's rows are kept in the order of its integer key, where it has one.
-/

namespace InfraStore.Lib.Sql

/-! ### Values and rows -/

/-- A stored value, by its storage class. -/
inductive Value where
  | null
  | integer (v : ℤ)
  | real (bits : UInt64)
  | text (s : String)
  | blob (bytes : List UInt8)
  deriving DecidableEq

/-- A row: the value of each column. -/
abbrev Record : Type := List (String × Value)

def Record.get (r : Record) (column : String) : Value := (List.lookup column r).getD .null

/-- A column constraint. -/
inductive Check where
  | among (values : List Value)
  | natural
  deriving DecidableEq

/-- Whether a value passes: `IN` passes NULL, a test of the storage class does not. -/
def Check.holds : Check → Value → Bool
  | .among values, v => v = .null ∨ v ∈ values
  | .natural, .integer n => 0 ≤ n
  | .natural, _ => false

structure Column where
  name : String
  notNull : Bool
  default : Value
  check : Option Check
  deriving DecidableEq

def Column.admits (c : Column) (v : Value) : Bool :=
  !(c.notNull && v = .null) && c.check.all fun check => check.holds v

/-! ### Schema objects -/

/-- A table; `rowid` names its `INTEGER PRIMARY KEY`. -/
structure Table where
  columns : List Column
  rowid : Option String
  autoincrement : Bool
  rows : List Record
  deriving DecidableEq

def Table.columnNames (t : Table) : List String := t.columns.map Column.name

/-- The integer key of a row. -/
def Table.keyOf (t : Table) (r : Record) : Option ℤ :=
  match t.rowid.map r.get with
  | some (.integer key) => some key
  | _ => none

/-- What an index orders by: a column, or a column with a value for NULL. -/
inductive Term where
  | column (name : String)
  | coalesce (name : String) (value : Value)
  deriving DecidableEq

def Term.name : Term → String
  | column name => name
  | coalesce name _ => name

def Term.eval : Term → Record → Value
  | column name, r => r.get name
  | coalesce name value, r => if r.get name = .null then value else r.get name

/-- An index, over every row or over the rows that set one column. -/
structure Index where
  table : String
  unique : Bool
  terms : List Term
  partialOn : Option String
  deriving DecidableEq

/-- Whether an index covers a row. -/
def Index.covers (ix : Index) (r : Record) : Bool := ix.partialOn.all fun column => r.get column ≠ .null

/-- Whether two rows are one to a unique index: equal in every term, none of them NULL. -/
def Index.clash (ix : Index) (r s : Record) : Bool :=
  ix.unique && ix.covers r && ix.covers s &&
    ix.terms.all fun term => term.eval r = term.eval s ∧ term.eval r ≠ .null

/-- A view over one table. -/
structure View where
  table : String
  definition : String
  deriving DecidableEq

inductive Object where
  | table (t : Table)
  | index (ix : Index)
  | view (v : View)
  deriving DecidableEq

/-- A database: its objects by name, and `sqlite_sequence`, once a table of it autoincrements. -/
structure Database where
  schema : List (String × Object)
  sequence : Option (List (String × ℤ))
  deriving DecidableEq

namespace Database

variable (db : Database)

def find (name : String) : Option Object := db.schema.lookup name

def table (name : String) : Option Table :=
  match db.find name with
  | some (.table t) => some t
  | _ => none

def add (name : String) (o : Object) : Database := { db with schema := db.schema ++ [(name, o)] }

def put (name : String) (o : Object) : Database :=
  { db with schema := db.schema.map fun e => if e.1 = name then (name, o) else e }

def remove (name : String) : Database := { db with schema := db.schema.filter fun e => e.1 ≠ name }

/-- A table's autoincrement mark, if it has one. -/
def mark (name : String) : Option ℤ := db.sequence.bind fun seqs => seqs.lookup name

/-- The unique indexes of a table. -/
def uniques (name : String) : List Index :=
  db.schema.filterMap fun
    | (_, .index ix) => if ix.table = name ∧ ix.unique then some ix else none
    | _ => none

end Database

/-! ### Statements -/

/-- Why a statement fails. -/
inductive SqlError where
  | noSuchTable (name : String)
  | nameTaken (name : String)
  | noSuchColumn (name : String)
  | constraint (name : String)
  | brokenView (name : String)
  deriving DecidableEq

/-- A statement.  Indexes are created `IF NOT EXISTS`; indexes and views are dropped `IF EXISTS`. -/
inductive Statement where
  | createTable (ifNotExists : Bool) (name : String) (columns : List Column) (rowid : Option String)
      (autoincrement : Bool)
  | dropTable (name : String)
  | renameTable (name newName : String)
  | createIndex (name : String) (ix : Index)
  | dropIndex (name : String)
  | createView (name : String) (v : View)
  | dropView (name : String)
  | insert (table : String) (row : Record)
  | copy (target source : String) (columns : List String)
  | deleteAll (table : String)
  | seedSequence (table : String) (seq : ℤ)
  | raiseSequence (table : String) (seq : ℤ)
  deriving DecidableEq

/-- Set a table's entry in the sequence. -/
def setMark (seqs : List (String × ℤ)) (name : String) (seq : ℤ) : List (String × ℤ) :=
  if (seqs.lookup name).isSome then seqs.map fun e => if e.1 = name then (name, seq) else e
  else seqs ++ [(name, seq)]

/-- The row as a table files it: every column of the table, the columns not named by their default. -/
def Table.complete (t : Table) (r : Record) : Record :=
  t.columns.map fun c => (c.name, (List.lookup c.name r).getD c.default)

/-- File one row among a table's rows. -/
def Table.insertRow (t : Table) (name : String) (uniques : List Index) (rows : List Record)
    (r : Record) : Except SqlError (List Record) :=
  let full := t.complete r
  match r.find? fun e => e.1 ∉ t.columnNames with
  | some e => .error (.noSuchColumn e.1)
  | none =>
    if !t.columns.all (fun c => c.admits (full.get c.name)) then .error (.constraint name)
    else if uniques.any fun ix => rows.any fun other => ix.clash full other then
      .error (.constraint name)
    else
      match t.rowid with
      | none => .ok (rows ++ [full])
      | some _ =>
        match t.keyOf full with
        | none => .error (.constraint name)
        | some key =>
          if rows.any fun other => t.keyOf other = some key then .error (.constraint name)
          else .ok (rows.takeWhile (fun other => (t.keyOf other).any (· < key)) ++
            full :: rows.dropWhile (fun other => (t.keyOf other).any (· < key)))

/-- The mark after rows were filed: no lower than any key among them. -/
def Table.raisedMark (t : Table) (before : Option ℤ) (rs : List Record) : ℤ :=
  rs.foldl (fun m r => max m ((t.keyOf (t.complete r)).getD 0)) (before.getD 0)

/-- File rows in a table. -/
def insertRows (name : String) (rs : List Record) (db : Database) : Except SqlError Database :=
  match db.table name with
  | none => .error (.noSuchTable name)
  | some t => do
    let rows ← rs.foldlM (t.insertRow name (db.uniques name)) t.rows
    let filed := db.put name (.table { t with rows })
    let raised := t.raisedMark (db.mark name) rs
    -- the entry is written only where it grows
    if t.autoincrement ∧ (db.mark name).getD 0 < raised then
      .ok { filed with sequence := db.sequence.map fun seqs => setMark seqs name raised }
    else .ok filed

/-- Whether an object outlives a table: neither the table nor an index of it. -/
def standsWithout (name : String) : String × Object → Bool
  | (_, .index ix) => ix.table ≠ name
  | (n, _) => n ≠ name

/-- Whether an object is a view of a table that is not there. -/
def dangling (db : Database) : String × Object → Bool
  | (_, .view v) => (db.table v.table).isNone
  | _ => false

/-- Rename a table wherever its name stands. -/
def renamed (name newName : String) (e : String × Object) : String × Object :=
  match e with
  | (n, .table t) => (if n = name then newName else n, .table t)
  | (n, .index ix) => (n, .index { ix with table := if ix.table = name then newName else ix.table })
  | (n, .view v) => (n, .view { v with table := if v.table = name then newName else v.table })

/-- Execute one statement. -/
def exec : Statement → Database → Except SqlError Database
  | .createTable ifNotExists name columns rowid autoincrement, db =>
    match db.find name with
    | none =>
      .ok { db.add name (.table ⟨columns, rowid, autoincrement, []⟩) with
        sequence := if autoincrement then some (db.sequence.getD []) else db.sequence }
    | some (.index _) => .error (.nameTaken name)
    | some _ => if ifNotExists then .ok db else .error (.nameTaken name)
  | .dropTable name, db =>
    match db.table name with
    | none => .error (.noSuchTable name)
    | some t =>
      .ok { schema := db.schema.filter (standsWithout name)
            sequence := if t.autoincrement then db.sequence.map fun seqs => seqs.filter (·.1 ≠ name)
              else db.sequence }
  | .renameTable name newName, db =>
    match db.table name with
    | none => .error (.noSuchTable name)
    | some _ =>
      if (db.find newName).isSome then .error (.nameTaken newName)
      else
        -- every view is resolved again, and must find its table
        match db.schema.find? (dangling db) with
        | some e => .error (.brokenView e.1)
        | none =>
          .ok { schema := db.schema.map (renamed name newName)
                sequence := db.sequence.map fun seqs =>
                  seqs.map fun e => (if e.1 = name then newName else e.1, e.2) }
  | .createIndex name ix, db =>
    match db.find name with
    | some (.index _) => .ok db
    | some _ => .error (.nameTaken name)
    | none =>
      match db.table ix.table with
      | none => .error (.noSuchTable ix.table)
      | some t =>
        match (ix.terms.map Term.name ++ ix.partialOn.toList).find? (· ∉ t.columnNames) with
        | some column => .error (.noSuchColumn column)
        | none =>
          if t.rows.Pairwise fun r s => ix.clash r s = false then .ok (db.add name (.index ix))
          else .error (.constraint name)
  | .dropIndex name, db =>
    match db.find name with
    | some (.index _) => .ok (db.remove name)
    | _ => .ok db
  | .createView name v, db =>
    match db.find name with
    | none => .ok (db.add name (.view v))
    | some _ => .error (.nameTaken name)
  | .dropView name, db =>
    match db.find name with
    | some (.view _) => .ok (db.remove name)
    | some (.table _) => .error (.nameTaken name)
    | _ => .ok db
  | .insert name row, db => insertRows name [row] db
  | .copy target source columns, db =>
    match db.table source with
    | none => .error (.noSuchTable source)
    | some s =>
      match columns.find? (· ∉ s.columnNames) with
      | some column => .error (.noSuchColumn column)
      | none => insertRows target (s.rows.map fun r => columns.map fun c => (c, r.get c)) db
  | .deleteAll name, db =>
    match db.table name with
    | none => .error (.noSuchTable name)
    | some t => .ok (db.put name (.table { t with rows := [] }))
  | .seedSequence name seq, db =>
    match db.sequence with
    | none => .error (.noSuchTable "sqlite_sequence")
    | some seqs =>
      .ok { db with sequence := if (seqs.lookup name).isSome then some seqs else some (seqs ++ [(name, seq)]) }
  | .raiseSequence name seq, db =>
    match db.sequence with
    | none => .error (.noSuchTable "sqlite_sequence")
    | some seqs =>
      .ok { db with sequence := some (seqs.map fun e => if e.1 = name ∧ e.2 < seq then (name, seq) else e) }

/-- Execute statements in order, to the first that fails. -/
def execAll (statements : List Statement) (db : Database) : Except SqlError Database :=
  statements.foldlM (fun db s => exec s db) db

/-! ### What a name stands for -/

section Lookup

variable {α β : Type} [DecidableEq α]

theorem lookup_cons_ite (e : α × β) (l : List (α × β)) (m : α) :
    (e :: l).lookup m = if m = e.1 then some e.2 else l.lookup m := by
  rw [List.lookup_cons]
  by_cases h : m = e.1
  · rw [beq_iff_eq.mpr h, if_pos h]
  · rw [beq_eq_false_iff_ne.mpr h, if_neg h]

theorem lookup_append_singleton (l : List (α × β)) (n m : α) (v : β) :
    (l ++ [(n, v)]).lookup m = (l.lookup m).or (if m = n then some v else none) := by
  induction l with
  | nil => rw [List.nil_append, lookup_cons_ite, List.lookup_nil, Option.none_or]
  | cons e l ih =>
    rw [List.cons_append, lookup_cons_ite, lookup_cons_ite, ih]
    by_cases h : m = e.1
    · rw [if_pos h, if_pos h, Option.some_or]
    · rw [if_neg h, if_neg h]

theorem lookup_map_put (l : List (α × β)) (n m : α) (v : β) :
    (l.map fun e => if e.1 = n then (n, v) else e).lookup m =
      if m = n then (l.lookup n).map fun _ => v else l.lookup m := by
  induction l with
  | nil => simp
  | cons e l ih =>
    rw [List.map_cons, lookup_cons_ite, ih, lookup_cons_ite, lookup_cons_ite]
    by_cases hm : m = n
    · subst hm
      by_cases he : e.1 = m
      · simp [he]
      · simp [he, Ne.symm he]
    · by_cases he : e.1 = n
      · simp [he, hm]
      · simp [he, hm]

theorem lookup_filter_ne (l : List (α × β)) (n m : α) :
    (l.filter fun e => e.1 ≠ n).lookup m = if m = n then none else l.lookup m := by
  induction l with
  | nil => simp
  | cons e l ih =>
    rw [List.filter_cons]
    by_cases he : e.1 = n
    · rw [if_neg (by simpa using he), ih, lookup_cons_ite]
      by_cases hm : m = n
      · rw [if_pos hm, if_pos hm]
      · rw [if_neg hm, if_neg hm, if_neg (fun h => hm (h.trans he))]
    · rw [if_pos (by simpa using he), lookup_cons_ite, ih, lookup_cons_ite]
      by_cases hm : m = n
      · subst hm
        rw [if_pos rfl, if_pos rfl, if_neg (Ne.symm he)]
      · rw [if_neg hm, if_neg hm]

theorem lookup_eq_some_iff {l : List (α × β)} (h : (l.map Prod.fst).Nodup) {n : α} {v : β} :
    l.lookup n = some v ↔ (n, v) ∈ l := by
  induction l with
  | nil => simp
  | cons e l ih =>
    rw [List.map_cons, List.nodup_cons] at h
    rw [List.lookup_cons, List.mem_cons]
    by_cases he : n = e.1
    · subst he
      have hnone : (e.1, v) ∉ l := fun hmem => h.1 (List.mem_map.mpr ⟨_, hmem, rfl⟩)
      simp [hnone, Prod.ext_iff, eq_comm]
    · have hne : (n == e.1) = false := by simpa using he
      simp [hne, ih h.2, Prod.ext_iff, he]

end Lookup

namespace Database

variable {db : Database} {n m : String} {o : Object}

theorem find_add (h : db.find n = none) (m : String) :
    (db.add n o).find m = if m = n then some o else db.find m := by
  unfold find add at *
  rw [lookup_append_singleton]
  by_cases hm : m = n
  · subst hm
    simp [h]
  · simp [hm]

theorem find_put (h : (db.find n).isSome = true) (m : String) :
    (db.put n o).find m = if m = n then some o else db.find m := by
  unfold find put at *
  rw [lookup_map_put]
  by_cases hm : m = n
  · subst hm
    obtain ⟨v, hv⟩ := Option.isSome_iff_exists.mp h
    simp [hv]
  · simp [hm]

theorem find_remove (m : String) :
    (db.remove n).find m = if m = n then none else db.find m := lookup_filter_ne _ _ _

theorem table_eq_some {t : Table} : db.table n = some t ↔ db.find n = some (.table t) := by
  unfold table
  cases h : db.find n with
  | none => simp
  | some o => cases o <;> simp

theorem table_congr {db' : Database} (h : db'.find n = db.find n) : db'.table n = db.table n := by
  unfold table
  rw [h]

/-- Every name stands for one object. -/
def Distinct (db : Database) : Prop := (db.schema.map Prod.fst).Nodup

theorem Distinct.find_iff (h : db.Distinct) : db.find n = some o ↔ (n, o) ∈ db.schema :=
  lookup_eq_some_iff h

theorem notMem_of_find (h : db.find n = none) : n ∉ db.schema.map Prod.fst := by
  intro hmem
  obtain ⟨e, he, rfl⟩ := List.mem_map.mp hmem
  have := List.lookup_eq_none_iff.mp h e he
  simp at this

theorem Distinct.add (h : db.Distinct) (hn : db.find n = none) : (db.add n o).Distinct := by
  unfold Distinct Database.add at *
  rw [List.map_append, List.nodup_append]
  refine ⟨h, List.nodup_singleton _, ?_⟩
  intro a ha b hb
  rw [List.map_singleton, List.mem_singleton] at hb
  intro hab
  have han : a = n := hab.trans hb
  exact notMem_of_find hn (han ▸ ha)

theorem Distinct.put (h : db.Distinct) : (db.put n o).Distinct := by
  unfold Distinct Database.put at *
  rw [List.map_map]
  have hfst : (db.schema.map (Prod.fst ∘ fun e => if e.1 = n then (n, o) else e)) =
      db.schema.map Prod.fst := by
    apply List.map_congr_left
    intro e _
    by_cases he : e.1 = n
    · simp [he]
    · simp [he]
  rw [hfst]
  exact h

theorem Distinct.filter (h : db.Distinct) (p : String × Object → Bool) (seq) :
    (Database.mk (db.schema.filter p) seq).Distinct :=
  h.sublist ((List.filter_sublist).map Prod.fst)

theorem put_put (o o' : Object) : (db.put n o).put n o' = db.put n o' := by
  unfold put
  simp only [List.map_map]
  congr 1
  apply List.map_congr_left
  intro e _
  by_cases he : e.1 = n
  · simp [he]
  · simp [he]

/-- An object dropped from the end and created again is where it was. -/
theorem remove_add_last {schema : List (String × Object)} {seq} (h : ∀ e ∈ schema, e.1 ≠ n) :
    ((Database.mk (schema ++ [(n, o)]) seq).remove n).add n o = ⟨schema ++ [(n, o)], seq⟩ := by
  have hkeep : schema.filter (fun e => e.1 ≠ n) = schema :=
    List.filter_eq_self.mpr fun e he => by simpa using h e he
  show Database.mk ((schema ++ [(n, o)]).filter (fun e => e.1 ≠ n) ++ [(n, o)]) seq = _
  rw [List.filter_append, hkeep]
  simp

end Database

/-! ### Filing rows -/

/-- Whether one row's key is below another's. -/
def Table.KeyLt (t : Table) (r s : Record) : Prop :=
  ∃ i j, t.keyOf r = some i ∧ t.keyOf s = some j ∧ i < j

/-- Rows that fit a table, their keys going up from those filed, are filed behind them. -/
theorem foldlM_insertRow {t : Table} {name : String} {rs rows : List Record}
    (hrowid : t.rowid.isSome = true) (hnames : ∀ r ∈ rs, ∀ e ∈ r, e.1 ∈ t.columnNames)
    (hadmits : ∀ r ∈ rs, ∀ c ∈ t.columns, c.admits ((t.complete r).get c.name) = true)
    (hkeyed : ∀ r ∈ rs, (t.keyOf (t.complete r)).isSome = true)
    (hsorted : (rows ++ rs.map t.complete).Pairwise t.KeyLt) :
    rs.foldlM (t.insertRow name []) rows = .ok (rows ++ rs.map t.complete) := by
  induction rs generalizing rows with
  | nil => simp; rfl
  | cons r rs ih =>
    obtain ⟨key, hkey⟩ := Option.isSome_iff_exists.mp (hkeyed r List.mem_cons_self)
    have hbelow : ∀ other ∈ rows, ∃ i, t.keyOf other = some i ∧ i < key := by
      intro other hother
      have h := (List.pairwise_append.mp hsorted).2.2 other hother (t.complete r)
        (List.mem_map_of_mem List.mem_cons_self)
      obtain ⟨i, j, hi, hj, hlt⟩ := h
      rw [hkey] at hj
      cases hj
      exact ⟨i, hi, hlt⟩
    have hfind : (r.find? fun e => e.1 ∉ t.columnNames) = none := by
      rw [List.find?_eq_none]
      intro e he
      simpa using hnames r List.mem_cons_self e he
    have hall : t.columns.all (fun c => c.admits ((t.complete r).get c.name)) = true :=
      List.all_eq_true.mpr (hadmits r List.mem_cons_self)
    have hnew : (rows.any fun other => t.keyOf other = some key) = false := by
      rw [List.any_eq_false]
      intro other hother
      obtain ⟨i, hi, hlt⟩ := hbelow other hother
      rw [hi]
      simp only [decide_eq_true_eq, Option.some.injEq]
      exact Int.ne_of_lt hlt
    have hpass : ∀ other ∈ rows, ((t.keyOf other).any (· < key)) = true := by
      intro other hother
      obtain ⟨i, hi, hlt⟩ := hbelow other hother
      rw [hi]
      exact decide_eq_true hlt
    have hstep : t.insertRow name [] rows r = .ok (rows ++ [t.complete r]) := by
      obtain ⟨column, hcolumn⟩ := Option.isSome_iff_exists.mp hrowid
      unfold Table.insertRow
      simp only [hfind, hall, hcolumn, hkey, hnew, List.any_nil, Bool.not_true, if_false,
        Bool.false_eq_true, List.takeWhile_eq_self_iff.mpr hpass, List.dropWhile_eq_nil_iff.mpr hpass]
    rw [List.foldlM_cons, hstep]
    show List.foldlM (t.insertRow name []) (rows ++ [t.complete r]) rs = _
    rw [ih (fun r' hr => hnames r' (List.mem_cons_of_mem _ hr))
      (fun r' hr => hadmits r' (List.mem_cons_of_mem _ hr))
      (fun r' hr => hkeyed r' (List.mem_cons_of_mem _ hr))
      (by rw [List.append_assoc]; exact hsorted), List.append_assoc]
    rfl

/-! ### The sequence -/

theorem lookup_setMark (seqs : List (String × ℤ)) (name m : String) (seq : ℤ) :
    (setMark seqs name seq).lookup m = if m = name then some seq else seqs.lookup m := by
  unfold setMark
  by_cases h : (seqs.lookup name).isSome = true
  · rw [if_pos h, lookup_map_put]
    obtain ⟨v, hv⟩ := Option.isSome_iff_exists.mp h
    rw [hv]
    rfl
  · rw [if_neg h, lookup_append_singleton]
    by_cases hm : m = name
    · subst hm
      rw [Option.not_isSome_iff_eq_none.mp h, Option.none_or, if_pos rfl]
    · rw [if_neg hm, if_neg hm, Option.or_none]

/-- A fresh name takes over another's entry. -/
theorem lookup_map_rename (seqs : List (String × ℤ)) {name newName : String}
    (hfresh : seqs.lookup newName = none) (m : String) :
    (seqs.map fun e => (if e.1 = name then newName else e.1, e.2)).lookup m =
      if m = newName then seqs.lookup name else if m = name then none else seqs.lookup m := by
  induction seqs with
  | nil => simp
  | cons e seqs ih =>
    rw [lookup_cons_ite] at hfresh
    have hne : newName ≠ e.1 := by
      intro h
      rw [if_pos h] at hfresh
      cases hfresh
    rw [if_neg hne] at hfresh
    rw [List.map_cons, lookup_cons_ite, ih hfresh, lookup_cons_ite, lookup_cons_ite]
    by_cases he : e.1 = name
    · rw [if_pos he, if_pos (Eq.symm he)]
      by_cases hm : m = newName
      · rw [if_pos hm, if_pos hm]
      · rw [if_neg hm, if_neg hm, if_neg hm]
        by_cases hmn : m = name
        · rw [if_pos hmn, if_pos hmn]
        · rw [if_neg hmn, if_neg hmn, if_neg (fun h => hmn (h.trans he))]
    · rw [if_neg he, if_neg (Ne.symm he)]
      by_cases hm : m = newName
      · rw [if_pos hm, if_pos hm, if_neg (fun h => hne (hm.symm.trans h))]
      · rw [if_neg hm, if_neg hm]
        by_cases hmn : m = name
        · rw [if_pos hmn, if_pos hmn, if_neg (fun h => he (h.symm.trans hmn))]
        · rw [if_neg hmn, if_neg hmn]

theorem le_raisedMark (t : Table) (before : Option ℤ) (rs : List Record) :
    before.getD 0 ≤ t.raisedMark before rs := by
  unfold Table.raisedMark
  generalize before.getD 0 = m
  induction rs generalizing m with
  | nil => exact Int.le_refl m
  | cons r rs ih => exact Int.le_trans (Int.le_max_left _ _) (ih _)

end InfraStore.Lib.Sql
