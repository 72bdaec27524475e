import InfraStore.Migration

/-!
# An interrupted migration resumes

What every step of a writable open keeps, whatever it finds: the catalog stays one that some build could
have written, and its rows stay the same rows.

* `Written`: a catalog as a build leaves it, at revision 1, at revision 2 or unstamped;
* `Kept`: what a later state keeps of an earlier one;
* `objects_step`, `rung_step`, `finish_prefix`: the steps of an open, each from any kept state;
* `migration_lossless`: the run.
-/

namespace InfraStore.Migration

open Lib.Sql

/-! ### Catalogs a build has written -/

/-- An object that a build creates under this name. -/
def Conforms : String × Object → Prop
  | (n, .table t) => n = associations ∨
      .createTable true n t.columns t.rowid t.autoincrement ∈ ddlObjects
  | (n, .index ix) => .createIndex n ix ∈ ddlObjects ∨ (n ∈ formerIndexes ∧ ix.table = associations)
  | (n, .view v) => n = readable ∧ v.table = associations

/-- An association table, with `AUTOINCREMENT` or without: its columns in any order, its rows legal and
in the order of their ids. -/
structure Filed (t : Table) : Prop where
  rowid : t.rowid = some "id"
  columns : ∀ c ∈ revision2AssociationsColumns, c ∈ t.columnNames
  keyed : ∀ r ∈ t.rows, (t.keyOf r).isSome = true
  sorted : t.rows.Pairwise t.KeyLt
  legal : ∀ r ∈ t.rows, ∀ c ∈ revision2Associations, c.admits (r.get c.name) = true

/-- A catalog that holds associations, as a build leaves it or a crash between two statements does. -/
structure Written (emptyFeaturesHash : Value) (db : Database) : Prop where
  distinct : db.Distinct
  conforms : ∀ entry ∈ db.schema, Conforms entry
  filed : ∃ t, db.table associations = some t ∧ Filed t
  marked : ∀ t, db.table associations = some t → t.autoincrement = false → db.mark associations = none
  unmarked : db.mark associationsNew = none
  unique : ∀ n ix t, .createIndex n ix ∈ ddlObjects → db.table ix.table = some t →
    t.rows.Pairwise fun r s => ix.clash r s = false
  stamped : ∀ t, db.table schemaVersion = some t →
    t.rows = [] ∨ ∃ v : ℤ, (v = 1 ∨ v = 2) ∧ t.rows = [[("version", .integer v)]]
  features : ∀ t, db.table associations = some t →
    (∃ r ∈ t.rows, r.get "features_hash" ≠ emptyFeaturesHash) → (db.table "feature_sets").isSome = true

/-- The association rows. -/
def rowsOf (db : Database) : List Record := ((db.table associations).map Table.rows).getD []

/-- Two rows that say the same in every column. -/
def SameRow (r r' : Record) : Prop := ∀ c ∈ revision2AssociationsColumns, r'.get c = r.get c

/-- What a later state keeps of an earlier one. -/
structure Kept (emptyFeaturesHash : Value) (db db' : Database) : Prop where
  written : Written emptyFeaturesHash db'
  rows : List.Forall₂ SameRow (rowsOf db) (rowsOf db')
  mark : (db.mark associations).getD 0 ≤ (db'.mark associations).getD 0
  others : ∀ n t, n ≠ associations → n ≠ schemaVersion → db.table n = some t → db'.table n = some t

variable {e : Value} {db db' start : Database}

theorem Kept.refl (h : Written e db) : Kept e db db :=
  ⟨h, List.forall₂_same.mpr fun _ _ _ _ => rfl, le_refl _, fun _ _ _ _ ht => ht⟩

/-- A step that leaves the association table and its mark alone. -/
theorem Kept.frame (h : Kept e start db) (hw : Written e db')
    (htable : db'.table associations = db.table associations)
    (hmark : db'.mark associations = db.mark associations)
    (hothers : ∀ n t, n ≠ associations → n ≠ schemaVersion → db.table n = some t →
      db'.table n = some t) : Kept e start db' := by
  refine ⟨hw, ?_, ?_, fun n t h₁ h₂ ht => hothers n t h₁ h₂ (h.others n t h₁ h₂ ht)⟩
  · unfold rowsOf
    rw [htable]
    exact h.rows
  · rw [hmark]
    exact h.mark

/-- A catalog whose tables are those of a written one, or new and empty. -/
theorem Written.extend (h : Written e db) (hdistinct : db'.Distinct)
    (hconforms : ∀ entry ∈ db'.schema, Conforms entry)
    (hmark : ∀ n, db'.mark n = db.mark n)
    (hold : ∀ n t, db.table n = some t → db'.table n = some t)
    (hnew : ∀ n t, db'.table n = some t → db.table n = some t ∨ t.rows = []) : Written e db' := by
  obtain ⟨t, ht, hfiled⟩ := h.filed
  have hassoc : db'.table associations = some t := hold _ _ ht
  refine ⟨hdistinct, hconforms, ⟨t, hassoc, hfiled⟩, ?_, ?_, ?_, ?_, ?_⟩
  · intro t' ht' hauto
    rw [hassoc] at ht'
    cases ht'
    rw [hmark]
    exact h.marked t ht hauto
  · rw [hmark]
    exact h.unmarked
  · intro n ix t' hix ht'
    cases hnew _ _ ht' with
    | inl hin => exact h.unique n ix t' hix hin
    | inr hempty =>
      rw [hempty]
      exact List.Pairwise.nil
  · intro t' ht'
    cases hnew _ _ ht' with
    | inl hin => exact h.stamped t' hin
    | inr hempty => exact Or.inl hempty
  · intro t' ht' hr
    rw [hassoc] at ht'
    cases ht'
    obtain ⟨sets, hsets⟩ := Option.isSome_iff_exists.mp (h.features t ht hr)
    rw [hold _ _ hsets]
    rfl

/-! ### Names of the schema -/

theorem table_names {b auto : Bool} {n : String} {columns : List Column} {rowid : Option String}
    (h : .createTable b n columns rowid auto ∈ ddlObjects) :
    b = true ∧ n ∉ formerIndexes ∧ n ≠ readable ∧ n ≠ associationsNew ∧
      ∀ m ix, .createIndex m ix ∈ ddlObjects → m ≠ n := by
  have hall : (ddlObjects.all fun
      | .createTable b n _ _ _ => b && n ∉ formerIndexes && n ≠ readable && n ≠ associationsNew &&
          ddlObjects.all fun
            | .createIndex m _ => m ≠ n
            | _ => true
      | _ => true) = true := by
    decide +kernel
  have hn := List.all_eq_true.mp hall _ h
  simp only [Bool.and_eq_true, decide_eq_true_eq] at hn
  refine ⟨hn.1.1.1.1, hn.1.1.1.2, hn.1.1.2, hn.1.2, fun m ix hix => ?_⟩
  simpa using List.all_eq_true.mp hn.2 _ hix

theorem index_names {n : String} {ix : Index} (h : .createIndex n ix ∈ ddlObjects) :
    n ∉ formerIndexes ∧ n ≠ readable ∧ n ≠ associationsNew ∧ n ≠ associations ∧
      n ≠ schemaVersion ∧ ix.table ≠ associationsNew ∧ ix.table ≠ schemaVersion := by
  have hall : (ddlObjects.all fun
      | .createIndex n ix => n ∉ formerIndexes && n ≠ readable && n ≠ associationsNew &&
          n ≠ associations && n ≠ schemaVersion && ix.table ≠ associationsNew &&
          ix.table ≠ schemaVersion
      | _ => true) = true := by
    decide +kernel
  have hn := List.all_eq_true.mp hall _ h
  simpa [and_assoc] using hn

/-- An index names columns of its table. -/
theorem index_columns {n : String} {ix : Index} (h : .createIndex n ix ∈ ddlObjects) :
    (ix.table = associations → ∀ c ∈ ix.terms.map Term.name ++ ix.partialOn.toList,
      c ∈ revision2AssociationsColumns) ∧
    ∀ columns rowid auto, .createTable true ix.table columns rowid auto ∈ ddlObjects →
      ∀ c ∈ ix.terms.map Term.name ++ ix.partialOn.toList, c ∈ columns.map Column.name := by
  have hall : (ddlObjects.all fun
      | .createIndex _ ix =>
          (ix.table ≠ associations || (ix.terms.map Term.name ++ ix.partialOn.toList).all fun c =>
            c ∈ revision2AssociationsColumns) &&
          ddlObjects.all fun
            | .createTable _ m columns _ _ => m ≠ ix.table ||
                (ix.terms.map Term.name ++ ix.partialOn.toList).all fun c =>
                  c ∈ columns.map Column.name
            | _ => true
      | _ => true) = true := by
    decide +kernel
  have hn := List.all_eq_true.mp hall _ h
  simp only [Bool.and_eq_true, Bool.or_eq_true, decide_eq_true_eq] at hn
  refine ⟨fun htable c hc => ?_, fun columns rowid auto hcreate c hc => ?_⟩
  · cases hn.1 with
    | inl hne => exact absurd htable hne
    | inr hcols => exact of_decide_eq_true (List.all_eq_true.mp hcols c hc)
  · have hcols := List.all_eq_true.mp hn.2 _ hcreate
    simp only [Bool.or_eq_true, decide_eq_true_eq] at hcols
    cases hcols with
    | inl hne => exact absurd rfl hne
    | inr hcols => exact of_decide_eq_true (List.all_eq_true.mp hcols c hc)

theorem index_unique {n : String} {ix ix' : Index} (h : .createIndex n ix ∈ ddlObjects)
    (h' : .createIndex n ix' ∈ ddlObjects) : ix = ix' := by
  have hall : (ddlObjects.all fun
      | .createIndex n ix => ddlObjects.all fun
          | .createIndex m ix' => m ≠ n || ix = ix'
          | _ => true
      | _ => true) = true := by
    decide +kernel
  have hn := List.all_eq_true.mp (List.all_eq_true.mp hall _ h) _ h'
  simpa using hn

theorem objects_kinds {s : Statement} (h : s ∈ ddlObjects) :
    (∃ n columns rowid auto, s = .createTable true n columns rowid auto) ∨
      (∃ n ix, s = .createIndex n ix) ∨ ∃ n ∈ formerIndexes, s = .dropIndex n := by
  have hall : (ddlObjects.all fun
      | .createTable b _ _ _ _ => b
      | .createIndex _ _ => true
      | .dropIndex n => n ∈ formerIndexes
      | _ => false) = true := by
    decide +kernel
  have hs := List.all_eq_true.mp hall s h
  cases s with
  | createTable b n columns rowid auto =>
    simp only at hs
    exact Or.inl ⟨n, columns, rowid, auto, by rw [hs]⟩
  | createIndex n ix => exact Or.inr (Or.inl ⟨n, ix, rfl⟩)
  | dropIndex n => exact Or.inr (Or.inr ⟨n, of_decide_eq_true hs, rfl⟩)
  | _ => simp at hs

theorem Written.object (h : Written e db) {n : String} {o : Object} (ho : db.find n = some o) :
    Conforms (n, o) :=
  h.conforms _ (h.distinct.find_iff.mp ho)

theorem Written.table_name (h : Written e db) {n : String} {t : Table} (ht : db.table n = some t) :
    n ∉ formerIndexes ∧ n ≠ readable ∧ n ≠ associationsNew := by
  cases h.object (Database.table_eq_some.mp ht) with
  | inl hn =>
    subst hn
    decide
  | inr hcreate =>
    obtain ⟨-, h₁, h₂, h₃, -⟩ := table_names hcreate
    exact ⟨h₁, h₂, h₃⟩

/-- The schema's tables are filed under the columns it declares. -/
theorem Written.table_columns (h : Written e db) {n : String} {t : Table} (ht : db.table n = some t)
    (hn : n ≠ associations) : .createTable true n t.columns t.rowid t.autoincrement ∈ ddlObjects :=
  (h.object (Database.table_eq_some.mp ht)).resolve_left hn

/-! ### The schema's objects -/

/-- What the schema's tables and indexes leave as it was. -/
structure Stays (db db' : Database) : Prop where
  objects : ∀ n o, n ∉ formerIndexes → n ≠ readable → db.find n = some o → db'.find n = some o
  former : ∀ n, n ∈ formerIndexes → db.find n = none → db'.find n = none
  mark : ∀ n, db'.mark n = db.mark n

theorem Stays.refl (db : Database) : Stays db db := ⟨fun _ _ _ _ h => h, fun _ _ h => h, fun _ => rfl⟩

theorem Stays.trans {db'' : Database} (h : Stays db db') (h' : Stays db' db'') : Stays db db'' :=
  ⟨fun n o hn hv ho => h'.objects n o hn hv (h.objects n o hn hv ho),
    fun n hn ho => h'.former n hn (h.former n hn ho), fun n => (h'.mark n).trans (h.mark n)⟩

theorem Stays.table (h : Stays db db') (hw : Written e db) {n : String} {t : Table}
    (ht : db.table n = some t) : db'.table n = some t :=
  Database.table_eq_some.mpr
    (h.objects n _ (hw.table_name ht).1 (hw.table_name ht).2.1 (Database.table_eq_some.mp ht))

theorem Stays.kept (h : Stays db db') (hk : Kept e start db) (hw : Written e db') : Kept e start db' := by
  obtain ⟨t, ht, -⟩ := hk.written.filed
  refine hk.frame hw ?_ (h.mark _) fun n t _ _ ht => h.table hk.written ht
  rw [ht, h.table hk.written ht]

/-- What a statement of the schema is for. -/
def Done (db : Database) : Statement → Prop
  | .createTable _ n _ _ _ => (db.table n).isSome = true
  | .createIndex n ix => db.find n = some (.index ix)
  | .dropIndex n => db.find n = none
  | _ => True

theorem Stays.done (h : Stays db db') (hw : Written e db) {s : Statement} (hs : s ∈ ddlObjects)
    (hd : Done db s) : Done db' s := by
  rcases objects_kinds hs with ⟨n, columns, rowid, auto, rfl⟩ | ⟨n, ix, rfl⟩ | ⟨n, hn, rfl⟩
  · obtain ⟨t, ht⟩ := Option.isSome_iff_exists.mp hd
    show (db'.table n).isSome = true
    rw [h.table hw ht]
    rfl
  · exact h.objects n _ (index_names hs).1 (index_names hs).2.1 hd
  · exact h.former n hn hd

/-- A statement whose purpose is met does nothing. -/
theorem exec_done {s : Statement} (hs : s ∈ ddlObjects) (hd : Done db s) : exec s db = .ok db := by
  rcases objects_kinds hs with ⟨n, columns, rowid, auto, rfl⟩ | ⟨n, ix, rfl⟩ | ⟨n, hn, rfl⟩
  · obtain ⟨t, ht⟩ := Option.isSome_iff_exists.mp hd
    simp only [exec, Database.table_eq_some.mp ht, if_true]
  · unfold Done at hd
    simp only [exec, hd]
  · unfold Done at hd
    simp only [exec, hd]

/-- A new object, under a name of its own, keeps the catalog a written one. -/
theorem Written.added (h : Written e db) {n : String} {o : Object} (hnone : db.find n = none)
    (hc : Conforms (n, o)) (hempty : ∀ t, o = .table t → t.rows = [])
    {sequence : Option (List (String × ℤ))} (hmark : ∀ m, (sequence.bind fun s => s.lookup m) = db.mark m) :
    Written e { db.add n o with sequence } := by
  have hfind : ∀ m, Database.find { db.add n o with sequence } m =
      if m = n then some o else db.find m := Database.find_add hnone
  refine h.extend (h.distinct.add hnone) ?_ hmark ?_ ?_
  · intro entry hentry
    cases List.mem_append.mp hentry with
    | inl hold => exact h.conforms entry hold
    | inr hnew => exact List.mem_singleton.mp hnew ▸ hc
  · intro m t ht
    have hm : m ≠ n := by
      rintro rfl
      rw [Database.table_eq_some, hnone] at ht
      cases ht
    rw [Database.table_eq_some, hfind, if_neg hm]
    exact Database.table_eq_some.mp ht
  · intro m t ht
    rw [Database.table_eq_some, hfind] at ht
    split at ht
    · exact Or.inr (hempty t (Option.some.inj ht))
    · exact Or.inl (Database.table_eq_some.mpr ht)

/-- An index or a view dropped keeps the catalog a written one. -/
theorem Written.removed (h : Written e db) {n : String} {o : Object} (ho : db.find n = some o)
    (hno : ∀ t, o ≠ .table t) : Written e (db.remove n) := by
  refine h.extend (h.distinct.filter _ _) ?_ (fun _ => rfl) ?_ ?_
  · intro entry hentry
    exact h.conforms entry (List.mem_filter.mp hentry).1
  · intro m t ht
    rw [Database.table_eq_some, Database.find_remove, if_neg]
    · exact Database.table_eq_some.mp ht
    · rintro rfl
      rw [Database.table_eq_some, ho] at ht
      exact hno t (Option.some.inj ht)
  · intro m t ht
    rw [Database.table_eq_some, Database.find_remove] at ht
    split at ht
    · cases ht
    · exact Or.inl (Database.table_eq_some.mpr ht)

theorem stays_added {n : String} {o : Object} (hnone : db.find n = none) (hn : n ∉ formerIndexes)
    {sequence : Option (List (String × ℤ))} (hmark : ∀ m, (sequence.bind fun s => s.lookup m) = db.mark m) :
    Stays db { db.add n o with sequence } := by
  have hfind : ∀ m, Database.find { db.add n o with sequence } m =
      if m = n then some o else db.find m := Database.find_add hnone
  refine ⟨fun m o' _ _ ho => ?_, fun m hm ho => ?_, hmark⟩
  · rw [hfind, if_neg]
    · exact ho
    · rintro rfl
      rw [hnone] at ho
      cases ho
  · rw [hfind, if_neg]
    · exact ho
    · rintro rfl
      exact hn hm

/-- **A statement of the schema** succeeds on a written catalog, and does what it is for. -/
theorem objects_step {s : Statement} (hs : s ∈ ddlObjects) (hw : Written e db)
    (hready : ∀ n ix, s = .createIndex n ix → (db.table ix.table).isSome = true) :
    ∃ db', exec s db = .ok db' ∧ Written e db' ∧ Stays db db' ∧ Done db' s := by
  rcases objects_kinds hs with ⟨n, columns, rowid, auto, rfl⟩ | ⟨n, ix, rfl⟩ | ⟨n, hn, rfl⟩
  · obtain ⟨-, hformer, hview, -, hindex⟩ := table_names hs
    cases hfind : db.find n with
    | none =>
      have hmark : ∀ m, ((if auto = true then some (db.sequence.getD []) else db.sequence).bind
          fun s => s.lookup m) = db.mark m := by
        intro m
        unfold Database.mark
        split
        · cases db.sequence with
          | none => rfl
          | some seqs => rfl
        · rfl
      refine ⟨_, by simp only [exec, hfind],
        hw.added (o := .table ⟨columns, rowid, auto, []⟩) hfind (Or.inr hs) (fun t ht => by cases ht; rfl) hmark,
        stays_added hfind hformer hmark, ?_⟩
      show (Database.table _ n).isSome = true
      rw [Database.table_eq_some.mpr]
      · rfl
      · exact (Database.find_add hfind n).trans (if_pos rfl)
    | some o =>
      cases o with
      | table t =>
        refine ⟨db, by simp only [exec, hfind, if_true], hw, .refl db, ?_⟩
        show (db.table n).isSome = true
        rw [Database.table_eq_some.mpr hfind]
        rfl
      | index ix =>
        cases hw.object hfind with
        | inl hcreate => exact absurd rfl (hindex n ix hcreate)
        | inr h => exact absurd h.1 hformer
      | view v => exact absurd (hw.object hfind).1 hview
  · obtain ⟨hformer, hview, -, hassoc, -, -, -⟩ := index_names hs
    cases hfind : db.find n with
    | none =>
      obtain ⟨t, ht⟩ := Option.isSome_iff_exists.mp (hready n ix rfl)
      have hcolumns : (ix.terms.map Term.name ++ ix.partialOn.toList).find? (· ∉ t.columnNames) = none := by
        rw [List.find?_eq_none]
        intro c hc
        rw [decide_eq_true_eq, not_not]
        by_cases htable : ix.table = associations
        · obtain ⟨t', ht', hfiled⟩ := hw.filed
          rw [htable, ht'] at ht
          cases ht
          exact hfiled.columns c ((index_columns hs).1 htable c hc)
        · exact (index_columns hs).2 _ _ _ (hw.table_columns ht htable) c hc
      have hmark : ∀ m, (db.sequence.bind fun s => s.lookup m) = db.mark m := fun _ => rfl
      refine ⟨db.add n (.index ix), ?_, hw.added (o := .index ix) hfind (Or.inl hs) (fun t ht => by cases ht) hmark,
        stays_added hfind hformer hmark, (Database.find_add hfind n).trans (if_pos rfl)⟩
      simp only [exec, hfind, ht, hcolumns, if_pos (hw.unique n ix t hs ht)]
    | some o =>
      cases o with
      | table t =>
        cases hw.object hfind with
        | inl h => exact absurd h hassoc
        | inr hcreate => exact absurd rfl ((table_names hcreate).2.2.2.2 n ix hs)
      | index ix' =>
        cases hw.object hfind with
        | inl hcreate =>
          cases index_unique hs hcreate
          exact ⟨db, by simp only [exec, hfind], hw, .refl db, hfind⟩
        | inr h => exact absurd h.1 hformer
      | view v => exact absurd (hw.object hfind).1 hview
  · cases hfind : db.find n with
    | none => exact ⟨db, by simp only [exec, hfind], hw, .refl db, hfind⟩
    | some o =>
      cases o with
      | table t => exact absurd hn (hw.table_name (Database.table_eq_some.mpr hfind)).1
      | view v =>
        have hview := (hw.object hfind).1
        subst hview
        exact absurd hn (by decide)
      | index ix =>
        have hmark : ∀ m, (db.remove n).mark m = db.mark m := fun _ => rfl
        refine ⟨db.remove n, by simp only [exec, hfind], ?_, ⟨fun m o' hm _ ho => ?_, fun m hm ho => ?_,
          hmark⟩, (Database.find_remove n).trans (if_pos rfl)⟩
        · refine hw.removed hfind fun t ht => by cases ht
        · rw [Database.find_remove, if_neg]
          · exact ho
          · rintro rfl
            exact hm hn
        · rw [Database.find_remove]
          split
          · rfl
          · exact ho

theorem execAll_append (a b : List Statement) (db : Database) :
    execAll (a ++ b) db = execAll a db >>= execAll b := List.foldlM_append

@[simp] theorem execAll_singleton (s : Statement) (db : Database) : execAll [s] db = exec s db := by
  show (exec s db >>= fun db => .ok db) = exec s db
  cases exec s db with
  | error e => rfl
  | ok db => rfl

/-- An index's table is created before it. -/
theorem all_tables_first : ((List.range ddlObjects.length).all fun k =>
    match ddlObjects[k]? with
    | some (.createIndex _ ix) => (ddlObjects.take k).any fun
        | .createTable _ m _ _ _ => m = ix.table
        | _ => false
    | _ => true) = true := by
  decide +kernel

theorem tables_first {k : ℕ} {n : String} {ix : Index} (h : ddlObjects[k]? = some (.createIndex n ix)) :
    ∃ b columns rowid auto, .createTable b ix.table columns rowid auto ∈ ddlObjects.take k := by
  have hk := List.all_eq_true.mp all_tables_first k
    (List.mem_range.mpr (List.getElem?_eq_some_iff.mp h).1)
  simp only [h] at hk
  obtain ⟨s, hs, htable⟩ := List.any_eq_true.mp hk
  cases s with
  | createTable b m columns rowid auto =>
    simp only [decide_eq_true_eq] at htable
    subst htable
    exact ⟨b, columns, rowid, auto, hs⟩
  | _ => simp at htable

/-- **The schema's objects, to any point.**  Every statement so far has done what it is for. -/
theorem objects_prefix (hk : Kept e start db) (k : ℕ) :
    ∃ db', execAll (ddlObjects.take k) db = .ok db' ∧ Kept e start db' ∧ Stays db db' ∧
      ∀ s ∈ ddlObjects.take k, Done db' s := by
  induction k with
  | zero => exact ⟨db, rfl, hk, .refl db, fun s hs => by simp at hs⟩
  | succ k ih =>
    obtain ⟨db₁, hrun, hkept, hstays, hdone⟩ := ih
    rw [List.take_add_one, execAll_append, hrun]
    cases hs : ddlObjects[k]? with
    | none =>
      refine ⟨db₁, rfl, hkept, hstays, fun s hmem => hdone s ?_⟩
      simpa using hmem
    | some s =>
      have hmem : s ∈ ddlObjects := List.mem_of_getElem? hs
      have hready : ∀ n ix, s = .createIndex n ix → (db₁.table ix.table).isSome = true := by
        rintro n ix rfl
        obtain ⟨b, columns, rowid, auto, hcreate⟩ := tables_first hs
        exact hdone _ hcreate
      obtain ⟨db₂, hexec, hw, hstays', hd⟩ := objects_step hmem hkept.written hready
      refine ⟨db₂, ?_, hstays'.kept hkept hw, hstays.trans hstays', fun s' hs' => ?_⟩
      · show execAll [s] db₁ = _
        rw [execAll_singleton, hexec]
      · cases List.mem_append.mp hs' with
        | inl hold =>
          exact hstays'.done hkept.written (List.mem_of_mem_take hold) (hdone s' hold)
        | inr hnew =>
          have hs' : s' = s := by simpa using hnew
          exact hs' ▸ hd

/-! ### The stamp -/

theorem version_table {b auto : Bool} {columns : List Column} {rowid : Option String}
    (h : .createTable b schemaVersion columns rowid auto ∈ ddlObjects) :
    columns = [required "version"] ∧ rowid = none ∧ auto = false := by
  have hall : (ddlObjects.all fun
      | .createTable _ n columns rowid auto =>
          n ≠ schemaVersion || (columns = [required "version"] && rowid = none && !auto)
      | _ => true) = true := by
    decide +kernel
  have hn := List.all_eq_true.mp hall _ h
  simpa [and_assoc] using hn

/-- What the stamp's table holds. -/
def stamp (v : ℤ) : List Record := [[("version", .integer v)]]

theorem Written.restamped (h : Written e db) {t : Table} (ht : db.table schemaVersion = some t)
    {rows : List Record} (hrows : rows = [] ∨ ∃ v : ℤ, (v = 1 ∨ v = 2) ∧ rows = stamp v) :
    Written e (db.put schemaVersion (.table { t with rows })) := by
  have hsome : (db.find schemaVersion).isSome = true := by
    rw [Database.table_eq_some.mp ht]
    rfl
  have hfind := fun m => Database.find_put (o := .table { t with rows }) hsome m
  have hother : ∀ m, m ≠ schemaVersion →
      (db.put schemaVersion (.table { t with rows })).table m = db.table m := by
    intro m hm
    exact Database.table_congr ((hfind m).trans (if_neg hm))
  have hassoc := hother associations (by decide)
  refine ⟨h.distinct.put, ?_, ?_, ?_, h.unmarked, ?_, ?_, ?_⟩
  · intro entry hentry
    obtain ⟨old, hold, rfl⟩ := List.mem_map.mp hentry
    split
    · have hcreate := h.table_columns ht (by decide)
      exact Or.inr hcreate
    · exact h.conforms old hold
  · rw [hassoc]
    exact h.filed
  · rw [hassoc]
    exact h.marked
  · intro n ix t' hix ht'
    rw [hother _ (index_names hix).2.2.2.2.2.2] at ht'
    exact h.unique n ix t' hix ht'
  · intro t' ht'
    rw [Database.table_eq_some, hfind, if_pos rfl] at ht'
    cases ht'
    exact hrows
  · rw [hassoc, hother "feature_sets" (by decide)]
    exact h.features

/-- Clearing the stamp, and writing one. -/
theorem restamp_exec (h : Written e db) {t : Table} (ht : db.table schemaVersion = some t) (v : ℤ) :
    exec (.deleteAll schemaVersion) db =
        .ok (db.put schemaVersion (.table { t with rows := [] })) ∧
      exec (.insert schemaVersion [("version", .integer v)])
          (db.put schemaVersion (.table { t with rows := [] })) =
        .ok (db.put schemaVersion (.table { t with rows := stamp v })) := by
  have hsome : (db.find schemaVersion).isSome = true := by
    rw [Database.table_eq_some.mp ht]
    rfl
  obtain ⟨hcolumns, hrowid, hauto⟩ := version_table (h.table_columns ht (by decide))
  refine ⟨by simp only [exec, ht], ?_⟩
  have ht' : (db.put schemaVersion (.table { t with rows := [] })).table schemaVersion =
      some { t with rows := [] } :=
    Database.table_eq_some.mpr ((Database.find_put hsome _).trans (if_pos rfl))
  have hinsert : ∀ uniques, Table.insertRow { t with rows := [] } schemaVersion uniques []
      [("version", .integer v)] = .ok (stamp v) := by
    intro uniques
    simp [Table.insertRow, Table.complete, Table.columnNames, hcolumns, hrowid, required,
      Column.admits, Record.get, List.lookup_cons, stamp]
  simp only [exec, insertRows, ht', List.foldlM_cons, List.foldlM_nil]
  rw [hinsert]
  simp only [hauto, Bool.false_eq_true, false_and, if_false, Database.put_put]
  rfl

/-- Only the stamp's table changes. -/
theorem Kept.restamped (hk : Kept e start db) {t : Table} (ht : db.table schemaVersion = some t)
    {rows : List Record} (hrows : rows = [] ∨ ∃ v : ℤ, (v = 1 ∨ v = 2) ∧ rows = stamp v) :
    Kept e start (db.put schemaVersion (.table { t with rows })) ∧
      ∀ n, n ≠ schemaVersion →
        (db.put schemaVersion (.table { t with rows })).find n = db.find n := by
  have hsome : (db.find schemaVersion).isSome = true := by
    rw [Database.table_eq_some.mp ht]
    rfl
  have hother : ∀ n, n ≠ schemaVersion →
      (db.put schemaVersion (.table { t with rows })).find n = db.find n :=
    fun n hn => (Database.find_put hsome n).trans (if_neg hn)
  refine ⟨hk.frame (hk.written.restamped ht hrows) ?_ rfl ?_, hother⟩
  · exact Database.table_congr (hother associations (by decide))
  · intro n t' _ hn ht'
    rw [Database.table_congr (hother n hn)]
    exact ht'

/-- **The stamp, to any point.**  Interrupted, it leaves the old revision, none, or the new one. -/
theorem writeRevision_prefix (hk : Kept e start db) {v : ℤ} (hv : v = 1 ∨ v = 2) (k : ℕ) :
    ∃ db', execAll ((writeRevision v).take k) db = .ok db' ∧ Kept e start db' ∧
      (∀ n, n ≠ schemaVersion → db'.find n = db.find n) ∧
      (3 ≤ k → ∃ t, db'.table schemaVersion = some t ∧ t.rows = stamp v) := by
  have hcreate : .createTable true schemaVersion [required "version"] none false ∈ ddlObjects := by
    decide +kernel
  obtain ⟨db₁, h₁, hw₁, hstays, hdone⟩ := objects_step hcreate hk.written (fun n ix h => by cases h)
  obtain ⟨t, ht⟩ := Option.isSome_iff_exists.mp hdone
  have hk₁ := hstays.kept hk hw₁
  have hfind₁ : ∀ n, n ≠ schemaVersion → db₁.find n = db.find n := by
    intro n hn
    cases hf : db.find schemaVersion with
    | none =>
      simp only [exec, hf] at h₁
      cases h₁
      exact (Database.find_add hf n).trans (if_neg hn)
    | some o =>
      have hdone' : exec (.createTable true schemaVersion [required "version"] none false) db = .ok db := by
        cases o with
        | table t => simp only [exec, hf, if_true]
        | index ix =>
          simp only [exec, hf] at h₁
          cases h₁
        | view v => simp only [exec, hf, if_true]
      rw [hdone'] at h₁
      cases h₁
      rfl
  obtain ⟨hdelete, hinsert⟩ := restamp_exec hw₁ ht v
  obtain ⟨hk₂, hfind₂⟩ := hk₁.restamped ht (Or.inl rfl)
  obtain ⟨hk₃, hfind₃⟩ := hk₁.restamped ht (Or.inr ⟨v, hv, rfl⟩)
  have hrun : ∀ s rest db db', exec s db = .ok db' → execAll (s :: rest) db = execAll rest db' := by
    intro s rest db db' h
    unfold execAll
    rw [List.foldlM_cons, h]
    rfl
  match k with
  | 0 => exact ⟨db, rfl, hk, fun _ _ => rfl, fun h => by omega⟩
  | 1 =>
    refine ⟨db₁, ?_, hk₁, hfind₁, fun h => by omega⟩
    exact (execAll_singleton _ _).trans h₁
  | 2 =>
    refine ⟨_, ?_, hk₂, fun n hn => (hfind₂ n hn).trans (hfind₁ n hn), fun h => by omega⟩
    exact (hrun _ _ _ _ h₁).trans ((execAll_singleton _ _).trans hdelete)
  | k + 3 =>
    refine ⟨_, ?_, hk₃, fun n hn => (hfind₃ n hn).trans (hfind₁ n hn),
      fun _ => ⟨{ t with rows := stamp v }, ?_, rfl⟩⟩
    · exact (hrun _ _ _ _ h₁).trans ((hrun _ _ _ _ hdelete).trans (by
        rw [List.take_succ_cons, List.take_nil]
        exact (execAll_singleton _ _).trans hinsert))
    · rw [Database.table_eq_some]
      refine (Database.find_put ?_ _).trans (if_pos rfl)
      rw [Database.table_eq_some.mp ht]
      rfl

/-! ### The view, and the end of an open -/

theorem Written.no_view (h : Written e db) : db.find readable = none ∨
    ∃ v, db.find readable = some (.view v) := by
  cases hf : db.find readable with
  | none => exact Or.inl rfl
  | some o =>
    cases o with
    | table t => exact absurd rfl (h.table_name (Database.table_eq_some.mpr hf)).2.1
    | index ix =>
      cases h.object hf with
      | inl hcreate => exact absurd rfl (index_names hcreate).2.1
      | inr hformer => exact absurd hformer.1 (by decide)
    | view v => exact Or.inr ⟨v, rfl⟩

/-- Dropping the view, if it is there. -/
theorem dropView_step (h : Written e db) : ∃ db', exec (.dropView readable) db = .ok db' ∧
    Written e db' ∧ Stays db db' ∧ db'.find readable = none := by
  cases h.no_view with
  | inl hnone => exact ⟨db, by simp only [exec, hnone], h, .refl db, hnone⟩
  | inr hsome =>
    obtain ⟨v, hv⟩ := hsome
    refine ⟨db.remove readable, by simp only [exec, hv], h.removed hv (fun t ht => by cases ht),
      ⟨fun n o _ hn ho => ?_, fun n _ ho => ?_, fun _ => rfl⟩,
      (Database.find_remove _).trans (if_pos rfl)⟩
    · rw [Database.find_remove, if_neg hn]
      exact ho
    · rw [Database.find_remove]
      split
      · rfl
      · exact ho

theorem createView_step (h : Written e db) (hnone : db.find readable = none) :
    exec (.createView readable readableView) db = .ok (db.add readable (.view readableView)) ∧
      Written e (db.add readable (.view readableView)) ∧
      Stays db (db.add readable (.view readableView)) := by
  have hconforms : Conforms (readable, .view readableView) := ⟨rfl, rfl⟩
  have hmark : ∀ m, (db.sequence.bind fun s => s.lookup m) = db.mark m := fun _ => rfl
  exact ⟨by simp only [exec, hnone], h.added hnone hconforms (fun t ht => by cases ht) hmark,
    stays_added hnone (by decide) hmark⟩

/-- The statements after the ladder. -/
def finish : List Statement := ddl ++ writeRevision catalogSchemaRevision

/-- A catalog at the end of a completed open. -/
structure Finished (db : Database) : Prop where
  done : ∀ s ∈ ddlObjects, Done db s
  view : ∃ schema, db.schema = schema ++ [(readable, .view readableView)] ∧
    ∀ entry ∈ schema, entry.1 ≠ readable
  stamped : ∃ t, db.table schemaVersion = some t ∧ t.rows = stamp catalogSchemaRevision

theorem execAll_cons {s : Statement} {db db' : Database} (h : exec s db = .ok db')
    (rest : List Statement) : execAll (s :: rest) db = execAll rest db' := by
  unfold execAll
  rw [List.foldlM_cons, h]
  rfl

theorem finish_eq : finish = ddlObjects ++ (.dropView readable :: .createView readable readableView ::
    writeRevision catalogSchemaRevision) := by
  unfold finish ddl
  rw [List.append_assoc]
  rfl

/-- **The end of an open, to any point.** -/
theorem finish_prefix (hk : Kept e start db) (k : ℕ) :
    ∃ db', execAll (finish.take k) db = .ok db' ∧ Kept e start db' := by
  rw [finish_eq, List.take_append]
  obtain ⟨db₁, h₁, hk₁, -, -⟩ := objects_prefix hk k
  rw [execAll_append, h₁]
  obtain ⟨db₂, h₂, hw₂, hstays₂, hnone⟩ := dropView_step hk₁.written
  have hk₂ := hstays₂.kept hk₁ hw₂
  obtain ⟨h₃, hw₃, hstays₃⟩ := createView_step hw₂ hnone
  have hk₃ := hstays₃.kept hk₂ hw₃
  show ∃ db', execAll _ db₁ = .ok db' ∧ _
  match k - ddlObjects.length with
  | 0 => exact ⟨db₁, rfl, hk₁⟩
  | 1 => exact ⟨db₂, (execAll_singleton _ _).trans h₂, hk₂⟩
  | j + 2 =>
    obtain ⟨db₄, h₄, hk₄, -, -⟩ := writeRevision_prefix hk₃ (Or.inr rfl) j
    refine ⟨db₄, ?_, hk₄⟩
    rw [List.take_succ_cons, List.take_succ_cons, execAll_cons h₂, execAll_cons h₃]
    exact h₄

theorem put_self {n : String} {o : Object} (h : db.Distinct) (ho : db.find n = some o) :
    db.put n o = db := by
  have hmap : (db.schema.map fun entry => if entry.1 = n then (n, o) else entry) = db.schema := by
    refine (List.map_congr_left fun entry hentry => ?_).trans (List.map_id _)
    by_cases hn : entry.1 = n
    · have := h.find_iff.mpr (show (entry.1, entry.2) ∈ db.schema from hentry)
      rw [hn, ho] at this
      rw [if_pos hn, Option.some.inj this, ← hn]
      rfl
    · rw [if_neg hn]
      rfl
  unfold Database.put
  rw [hmap]

/-- A completed open leaves everything in place. -/
theorem finish_complete (hk : Kept e start db) :
    ∃ db', execAll finish db = .ok db' ∧ Kept e start db' ∧ Finished db' := by
  obtain ⟨db₁, h₁, hk₁, -, hdone₁⟩ := objects_prefix hk ddlObjects.length
  rw [List.take_length] at h₁ hdone₁
  obtain ⟨db₂, h₂, hw₂, hstays₂, hnone⟩ := dropView_step hk₁.written
  have hk₂ := hstays₂.kept hk₁ hw₂
  obtain ⟨h₃, hw₃, hstays₃⟩ := createView_step hw₂ hnone
  have hk₃ := hstays₃.kept hk₂ hw₃
  have hdone₃ : ∀ s ∈ ddlObjects, Done (db₂.add readable (.view readableView)) s := fun s hs =>
    hstays₃.done hw₂ hs (hstays₂.done hk₁.written hs (hdone₁ s hs))
  have hcreate : .createTable true schemaVersion [required "version"] none false ∈ ddlObjects := by
    decide +kernel
  obtain ⟨t, ht⟩ := Option.isSome_iff_exists.mp (hdone₃ _ hcreate)
  obtain ⟨hdelete, hinsert⟩ := restamp_exec hw₃ ht catalogSchemaRevision
  obtain ⟨hk₄, hfind₄⟩ := hk₃.restamped ht (Or.inr ⟨catalogSchemaRevision, Or.inr rfl, rfl⟩)
  have htable₄ : ((db₂.add readable (.view readableView)).put schemaVersion
      (.table { t with rows := stamp catalogSchemaRevision })).table schemaVersion =
        some { t with rows := stamp catalogSchemaRevision } := by
    rw [Database.table_eq_some]
    refine (Database.find_put ?_ _).trans (if_pos rfl)
    rw [Database.table_eq_some.mp ht]
    rfl
  refine ⟨_, ?_, hk₄, ⟨fun s hs => ?_, ?_, ⟨{ t with rows := stamp catalogSchemaRevision }, ?_, rfl⟩⟩⟩
  · rw [finish_eq, execAll_append, h₁]
    show execAll _ db₁ = _
    rw [execAll_cons h₂, execAll_cons h₃]
    unfold writeRevision
    rw [execAll_cons (exec_done hcreate (hdone₃ _ hcreate)), execAll_cons hdelete, execAll_singleton]
    exact hinsert
  · rcases objects_kinds hs with ⟨n, columns, rowid, auto, rfl⟩ | ⟨n, ix, rfl⟩ | ⟨n, hn, rfl⟩
    · show (Database.table _ n).isSome = true
      by_cases hn : n = schemaVersion
      · subst hn
        rw [htable₄]
        rfl
      · rw [Database.table_congr (hfind₄ n hn)]
        exact hdone₃ _ hs
    · exact (hfind₄ n (index_names hs).2.2.2.2.1).trans (hdone₃ _ hs)
    · refine (hfind₄ n ?_).trans (hdone₃ _ hs)
      rintro rfl
      exact absurd hn (by decide)
  · refine ⟨db₂.schema.map fun entry => if entry.1 = schemaVersion then
      (schemaVersion, .table { t with rows := stamp catalogSchemaRevision }) else entry, ?_, ?_⟩
    · show List.map _ (db₂.schema ++ [(readable, Object.view readableView)]) = _
      rw [List.map_append, List.map_singleton, if_neg (by decide)]
    · intro entry hentry
      obtain ⟨old, hold, rfl⟩ := List.mem_map.mp hentry
      split
      · show schemaVersion ≠ readable
        decide
      · intro hname
        exact Database.notMem_of_find hnone (List.mem_map.mpr ⟨old, hold, hname⟩)
  · exact htable₄

/-- Statements that are done already leave the catalog as it is. -/
theorem execAll_done {statements : List Statement} (hsub : ∀ s ∈ statements, s ∈ ddlObjects)
    (hdone : ∀ s ∈ statements, Done db s) : execAll statements db = .ok db := by
  induction statements with
  | nil => rfl
  | cons s statements ih =>
    rw [execAll_cons (exec_done (hsub s List.mem_cons_self) (hdone s List.mem_cons_self))]
    exact ih (fun s' hs => hsub s' (List.mem_cons_of_mem _ hs))
      fun s' hs => hdone s' (List.mem_cons_of_mem _ hs)

/-- **Opening again** changes nothing. -/
theorem Finished.again (h : Finished db) (hw : Written e db) : execAll finish db = .ok db := by
  obtain ⟨schema, hschema, hnames⟩ := h.view
  obtain ⟨t, ht, hrows⟩ := h.stamped
  have hcreate : .createTable true schemaVersion [required "version"] none false ∈ ddlObjects := by
    decide +kernel
  have hview : db.find readable = some (.view readableView) := by
    rw [hw.distinct.find_iff, hschema]
    exact List.mem_append_right _ (List.mem_singleton_self _)
  have hdrop : exec (.dropView readable) db = .ok (db.remove readable) := by
    simp only [exec, hview]
  have hnone : (db.remove readable).find readable = none :=
    (Database.find_remove readable).trans (if_pos rfl)
  have hback : (db.remove readable).add readable (.view readableView) = db := by
    have hdb : db = ⟨schema ++ [(readable, .view readableView)], db.sequence⟩ := by
      rw [← hschema]
    rw [hdb]
    exact Database.remove_add_last hnames
  have hmake : exec (.createView readable readableView) (db.remove readable) = .ok db := by
    simp only [exec, hnone, hback]
  obtain ⟨hdelete, hinsert⟩ := restamp_exec hw ht catalogSchemaRevision
  have hself : db.put schemaVersion (.table { t with rows := stamp catalogSchemaRevision }) = db := by
    refine put_self hw.distinct ?_
    rw [← hrows]
    exact Database.table_eq_some.mp ht
  rw [finish_eq, execAll_append, execAll_done (fun _ hs => hs) h.done]
  show execAll _ db = _
  rw [execAll_cons hdrop, execAll_cons hmake]
  unfold writeRevision
  rw [execAll_cons (exec_done hcreate (h.done _ hcreate)), execAll_cons hdelete, execAll_singleton,
    hinsert, hself]

/-! ### The rebuild -/

/-- A row as the copy spells it out. -/
def copyOf (r : Record) : Record := revision2AssociationsColumns.map fun c => (c, r.get c)

theorem get_copyOf (r : Record) {c : String} (hc : c ∈ revision2AssociationsColumns) :
    (copyOf r).get c = r.get c := by
  have hlookup : ∀ cols : List String, c ∈ cols →
      (cols.map fun c => (c, r.get c)).lookup c = some (r.get c) := by
    intro cols hmem
    induction cols with
    | nil => simp at hmem
    | cons d cols ih =>
      rw [List.map_cons, lookup_cons_ite]
      by_cases hd : c = d
      · rw [if_pos hd, hd]
      · rw [if_neg hd]
        exact ih ((List.mem_cons.mp hmem).resolve_left hd)
  unfold Record.get copyOf
  rw [hlookup _ hc]
  rfl

theorem columns_named : revision2Associations.map Column.name = revision2AssociationsColumns := by
  decide +kernel

/-- The table of revision 2, with rows. -/
def revision2Table (rows : List Record) : Table := ⟨revision2Associations, some "id", true, rows⟩

theorem complete_copyOf (rows : List Record) (r : Record) :
    (revision2Table rows).complete (copyOf r) = copyOf r := by
  show (revision2Associations.map fun c => (c.name, (List.lookup c.name (copyOf r)).getD c.default)) = _
  have hsome : ∀ c ∈ revision2Associations, List.lookup c.name (copyOf r) = some (r.get c.name) := by
    intro c hc
    have hmem : c.name ∈ revision2AssociationsColumns := columns_named ▸ List.mem_map_of_mem hc
    have hget := get_copyOf r hmem
    unfold Record.get at hget ⊢
    cases hl : List.lookup c.name (copyOf r) with
    | none =>
      have hne := List.lookup_eq_none_iff.mp hl (c.name, r.get c.name)
        (List.mem_map.mpr ⟨c.name, hmem, rfl⟩)
      simp at hne
    | some v =>
      rw [hl] at hget
      exact congrArg some hget
  unfold copyOf at hsome ⊢
  rw [← columns_named, List.map_map]
  rw [← columns_named, List.map_map] at hsome
  refine List.map_congr_left fun c hc => ?_
  rw [hsome c hc]
  rfl

theorem keyOf_copyOf {t : Table} (ht : Filed t) (rows : List Record) (r : Record) :
    (revision2Table rows).keyOf (copyOf r) = t.keyOf r := by
  unfold Table.keyOf revision2Table
  rw [ht.rowid]
  simp only [Option.map_some]
  rw [get_copyOf r (by decide)]

theorem clash_copyOf {ix : Index} (hcols : ∀ c ∈ ix.terms.map Term.name ++ ix.partialOn.toList,
    c ∈ revision2AssociationsColumns) (r s : Record) :
    ix.clash (copyOf r) (copyOf s) = ix.clash r s := by
  have hcovers : ∀ r, ix.covers (copyOf r) = ix.covers r := by
    intro r
    unfold Index.covers
    cases hp : ix.partialOn with
    | none => rfl
    | some c =>
      have hc := hcols c (List.mem_append_right _ (by rw [hp]; exact List.mem_singleton_self c))
      simp only [Option.all_some, get_copyOf r hc]
  have heval : ∀ term ∈ ix.terms, ∀ r, term.eval (copyOf r) = term.eval r := by
    intro term hterm r
    have hc := hcols term.name (List.mem_append_left _ (List.mem_map_of_mem hterm))
    cases term with
    | column name => exact get_copyOf r hc
    | coalesce name value =>
      have hget : (copyOf r).get name = r.get name := get_copyOf r hc
      simp only [Term.eval, hget]
  unfold Index.clash
  rw [hcovers, hcovers]
  congr 1
  rw [Bool.eq_iff_iff, List.all_eq_true, List.all_eq_true]
  refine forall₂_congr fun term hterm => ?_
  rw [heval term hterm, heval term hterm]

/-- What the rebuild leaves standing: neither the view nor the old table and its indexes. -/
def survives : String × Object → Bool
  | (_, .index ix) => ix.table ≠ associations
  | (_, .view _) => false
  | (n, .table _) => n ≠ associations

/-- A catalog whose association table has been rebuilt. -/
def rebuilt (db : Database) (rows : List Record) (sequence : Option (List (String × ℤ))) : Database :=
  ⟨db.schema.filter survives ++ [(associations, .table (revision2Table (rows.map copyOf)))], sequence⟩

theorem Written.survivor (h : Written e db) {entry : String × Object} (hentry : entry ∈ db.schema)
    (hs : survives entry = true) : entry.1 ≠ associations := by
  obtain ⟨t, ht, -⟩ := h.filed
  rintro hname
  obtain ⟨n, o⟩ := entry
  simp only at hname
  subst hname
  have hfind := h.distinct.find_iff.mpr hentry
  rw [Database.table_eq_some.mp ht] at hfind
  cases hfind
  simp [survives] at hs

theorem Written.rebuilt_distinct (h : Written e db) (rows : List Record)
    (sequence : Option (List (String × ℤ))) : (rebuilt db rows sequence).Distinct := by
  unfold Database.Distinct rebuilt
  rw [List.map_append, List.nodup_append]
  refine ⟨h.distinct.sublist ((List.filter_sublist).map Prod.fst), List.nodup_singleton _, ?_⟩
  intro a ha b hb hab
  obtain ⟨entry, hentry, rfl⟩ := List.mem_map.mp ha
  obtain ⟨hmem, hs⟩ := List.mem_filter.mp hentry
  have hb' : b = associations := by simpa using hb
  exact h.survivor hmem hs (hab.trans hb')

/-- The tables of a rebuilt catalog. -/
theorem Written.rebuilt_table (h : Written e db) (rows : List Record)
    (sequence : Option (List (String × ℤ))) :
    (rebuilt db rows sequence).table associations = some (revision2Table (rows.map copyOf)) ∧
      ∀ n, n ≠ associations → (rebuilt db rows sequence).table n = db.table n := by
  have hdistinct := h.rebuilt_distinct rows sequence
  constructor
  · rw [Database.table_eq_some, hdistinct.find_iff]
    exact List.mem_append_right _ (List.mem_singleton_self _)
  · intro n hn
    apply Option.ext
    intro t
    rw [Database.table_eq_some, Database.table_eq_some, hdistinct.find_iff, h.distinct.find_iff]
    constructor
    · intro hmem
      cases List.mem_append.mp hmem with
      | inl hold => exact (List.mem_filter.mp hold).1
      | inr hnew =>
        have := List.mem_singleton.mp hnew
        exact absurd (congrArg Prod.fst this) hn
    · intro hmem
      refine List.mem_append_left _ (List.mem_filter.mpr ⟨hmem, ?_⟩)
      simpa [survives] using hn

theorem Filed.rebuilt {t : Table} (h : Filed t) : Filed (revision2Table (t.rows.map copyOf)) := by
  refine ⟨rfl, fun c hc => ?_, ?_, ?_, ?_⟩
  · show c ∈ revision2Associations.map Column.name
    rw [columns_named]
    exact hc
  · intro r hr
    obtain ⟨s, hs, rfl⟩ := List.mem_map.mp hr
    rw [keyOf_copyOf h]
    exact h.keyed s hs
  · show (t.rows.map copyOf).Pairwise _
    rw [List.pairwise_map]
    refine h.sorted.imp fun {r s} hlt => ?_
    unfold Table.KeyLt
    rw [keyOf_copyOf h, keyOf_copyOf h]
    exact hlt
  · intro r hr c hc
    obtain ⟨s, hs, rfl⟩ := List.mem_map.mp hr
    rw [get_copyOf s (columns_named ▸ List.mem_map_of_mem hc)]
    exact h.legal s hs c hc

/-- A rebuilt catalog is one a build could have written. -/
theorem Written.rebuilt (h : Written e db) {t : Table} (ht : db.table associations = some t)
    {sequence : Option (List (String × ℤ))}
    (hmark : (sequence.bind fun seqs => seqs.lookup associationsNew) = none) :
    Written e (rebuilt db t.rows sequence) := by
  obtain ⟨t', ht', hfiled⟩ := h.filed
  rw [ht] at ht'
  cases ht'
  obtain ⟨hassoc, hother⟩ := h.rebuilt_table t.rows sequence
  refine ⟨h.rebuilt_distinct _ _, ?_, ⟨_, hassoc, hfiled.rebuilt⟩, ?_, hmark, ?_, ?_, ?_⟩
  · intro entry hentry
    cases List.mem_append.mp hentry with
    | inl hold => exact h.conforms entry (List.mem_filter.mp hold).1
    | inr hnew =>
      rw [List.mem_singleton.mp hnew]
      exact Or.inl rfl
  · intro t' ht' hauto
    rw [hassoc] at ht'
    cases ht'
    cases hauto
  · intro n ix t' hix ht'
    by_cases htable : ix.table = associations
    · rw [htable, hassoc] at ht'
      cases ht'
      show (t.rows.map copyOf).Pairwise _
      rw [List.pairwise_map]
      refine (h.unique n ix t hix (htable ▸ ht)).imp fun {r s} hclash => ?_
      rw [clash_copyOf ((index_columns hix).1 htable)]
      exact hclash
    · rw [hother _ htable] at ht'
      exact h.unique n ix t' hix ht'
  · rw [hother schemaVersion (by decide)]
    exact h.stamped
  · intro t' ht' hr
    rw [hassoc] at ht'
    cases ht'
    rw [hother "feature_sets" (by decide)]
    refine h.features t ht ?_
    obtain ⟨r, hr, hne⟩ := hr
    obtain ⟨s, hs, rfl⟩ := List.mem_map.mp hr
    rw [get_copyOf s (by decide)] at hne
    exact ⟨s, hs, hne⟩

theorem Written.no_new (h : Written e db) : db.find associationsNew = none ∧
    ∀ entry ∈ db.schema, entry.1 ≠ associationsNew ∧ (∀ ix, entry.2 = .index ix → ix.table ≠ associationsNew) := by
  have hentry : ∀ entry ∈ db.schema, entry.1 ≠ associationsNew ∧
      (∀ ix, entry.2 = .index ix → ix.table ≠ associationsNew) := by
    intro entry hmem
    obtain ⟨n, o⟩ := entry
    have hfind := h.distinct.find_iff.mpr hmem
    cases o with
    | table t =>
      exact ⟨(h.table_name (Database.table_eq_some.mpr hfind)).2.2, fun ix hix => by cases hix⟩
    | index ix =>
      cases h.object hfind with
      | inl hcreate =>
        obtain ⟨-, -, hname, -, -, htable, -⟩ := index_names hcreate
        exact ⟨hname, fun ix' hix => by cases hix; exact htable⟩
      | inr hformer =>
        refine ⟨?_, fun ix' hix => ?_⟩
        · rintro rfl
          exact absurd hformer.1 (by decide)
        · cases hix
          rw [hformer.2]
          decide
    | view v =>
      have hname : n = readable := (h.object hfind).1
      subst hname
      refine ⟨?_, fun ix hix => by cases hix⟩
      show readable ≠ associationsNew
      decide
  refine ⟨?_, hentry⟩
  rw [Database.find, List.lookup_eq_none_iff]
  intro entry hmem
  simpa using (hentry entry hmem).1.symm

/-- The objects of a catalog whose view is gone, and one more table. -/
def unviewed (db : Database) (o : Object) : List (String × Object) :=
  db.schema.filter (fun entry => entry.1 ≠ readable) ++ [(associationsNew, o)]

theorem Written.lookup_unviewed (h : Written e db) (o : Object) (n : String) :
    (unviewed db o).lookup n =
      if n = associationsNew then some o else if n = readable then none else db.find n := by
  unfold unviewed
  rw [lookup_append_singleton, lookup_filter_ne]
  by_cases hn : n = associationsNew
  · subst hn
    rw [if_neg (by decide), if_pos rfl, if_pos rfl]
    show (db.find associationsNew).or _ = _
    rw [h.no_new.1, Option.none_or]
  · rw [if_neg hn, if_neg hn, Option.or_none]
    rfl

/-- Creating the new table, with the view out of the way. -/
theorem rebuild_create (h : Written e db) :
    execAll [.createTable false associationsNew revision2Associations (some "id") true,
      .dropView readable] db =
      .ok ⟨unviewed db (.table (revision2Table [])), some (db.sequence.getD [])⟩ := by
  have hcreate : exec (.createTable false associationsNew revision2Associations (some "id") true) db =
      .ok { db.add associationsNew (.table (revision2Table [])) with
        sequence := some (db.sequence.getD []) } := by
    simp only [exec, h.no_new.1]
    rfl
  rw [execAll_cons hcreate, execAll_singleton]
  have hfind : Database.find { db.add associationsNew (.table (revision2Table [])) with
      sequence := some (db.sequence.getD []) } readable = db.find readable :=
    (Database.find_add h.no_new.1 readable).trans (if_neg (by decide))
  cases h.no_view with
  | inl hnone =>
    rw [hnone] at hfind
    simp only [exec, hfind]
    have hall : db.schema.filter (fun entry => entry.1 ≠ readable) = db.schema :=
      List.filter_eq_self.mpr fun entry hentry => by
        have := Database.notMem_of_find hnone
        simp only [decide_eq_true_eq]
        exact fun hn => this (List.mem_map.mpr ⟨entry, hentry, hn⟩)
    unfold unviewed
    rw [hall]
    rfl
  | inr hsome =>
    obtain ⟨v, hv⟩ := hsome
    rw [hv] at hfind
    simp only [exec, hfind]
    unfold Database.remove Database.add unviewed
    simp only [List.filter_append]
    rfl

theorem mark_getD (db : Database) (n : String) : (db.sequence.getD []).lookup n = db.mark n := by
  unfold Database.mark
  cases db.sequence with
  | none => rfl
  | some seqs => rfl

/-- The copied rows are filed as they are. -/
theorem copy_rows {t : Table} (h : Filed t) :
    (t.rows.map copyOf).foldlM ((revision2Table []).insertRow associationsNew []) [] =
      .ok (t.rows.map copyOf) := by
  have hcomplete : (t.rows.map copyOf).map (revision2Table []).complete = t.rows.map copyOf := by
    rw [List.map_map]
    exact List.map_congr_left fun r _ => complete_copyOf [] r
  have hinsert := @foldlM_insertRow (revision2Table []) associationsNew (t.rows.map copyOf) [] rfl
    ?_ ?_ ?_ ?_
  · rw [hcomplete] at hinsert
    exact hinsert
  · intro r hr entry hentry
    obtain ⟨s, -, rfl⟩ := List.mem_map.mp hr
    obtain ⟨c, hc, rfl⟩ := List.mem_map.mp hentry
    show c ∈ revision2Associations.map Column.name
    rw [columns_named]
    exact hc
  · intro r hr c hc
    obtain ⟨s, hs, rfl⟩ := List.mem_map.mp hr
    rw [complete_copyOf, get_copyOf s (columns_named ▸ List.mem_map_of_mem hc)]
    exact h.legal s hs c hc
  · intro r hr
    obtain ⟨s, hs, rfl⟩ := List.mem_map.mp hr
    rw [complete_copyOf, keyOf_copyOf h]
    exact h.keyed s hs
  · rw [hcomplete, List.nil_append]
    exact h.rebuilt.sorted

theorem Written.uniques_new (h : Written e db) (t : Table) (seqs) :
    Database.uniques ⟨unviewed db (.table t), seqs⟩ associationsNew = [] := by
  unfold Database.uniques
  rw [List.filterMap_eq_nil_iff]
  rintro ⟨n, o⟩ hentry
  cases o with
  | table t => rfl
  | view v => rfl
  | index ix =>
    cases List.mem_append.mp hentry with
    | inl hold =>
      have hne := (h.no_new.2 _ (List.mem_filter.mp hold).1).2 ix rfl
      simp [hne]
    | inr hnew => simp at hnew

theorem Written.put_unviewed (h : Written e db) (o o' : Object) (seqs) :
    Database.put ⟨unviewed db o, seqs⟩ associationsNew o' = ⟨unviewed db o', seqs⟩ := by
  have hkeep : (db.schema.filter fun entry => entry.1 ≠ readable).map (fun entry =>
      if entry.1 = associationsNew then (associationsNew, o') else entry) =
        db.schema.filter fun entry => entry.1 ≠ readable := by
    refine (List.map_congr_left fun entry hentry => ?_).trans (List.map_id _)
    rw [if_neg (h.no_new.2 entry (List.mem_filter.mp hentry).1).1]
    rfl
  unfold Database.put unviewed
  rw [List.map_append, hkeep, List.map_singleton, if_pos rfl]

/-- Copying the rows. -/
theorem rebuild_copy (h : Written e db) {t : Table} (ht : db.table associations = some t)
    (hfiled : Filed t) : ∃ sequence : List (String × ℤ),
      exec (.copy associationsNew associations revision2AssociationsColumns)
        ⟨unviewed db (.table (revision2Table [])), some (db.sequence.getD [])⟩ =
        .ok ⟨unviewed db (.table (revision2Table (t.rows.map copyOf))), some sequence⟩ ∧
      (∀ n, n ≠ associationsNew → sequence.lookup n = db.mark n) ∧
      0 ≤ (sequence.lookup associationsNew).getD 0 := by
  have hold : Database.table ⟨unviewed db (.table (revision2Table [])), some (db.sequence.getD [])⟩
      associations = some t := by
    rw [Database.table_eq_some]
    refine (h.lookup_unviewed _ _).trans ?_
    rw [if_neg (by decide), if_neg (by decide)]
    exact Database.table_eq_some.mp ht
  have hnew : Database.table ⟨unviewed db (.table (revision2Table [])), some (db.sequence.getD [])⟩
      associationsNew = some (revision2Table []) := by
    rw [Database.table_eq_some]
    exact (h.lookup_unviewed _ _).trans (if_pos rfl)
  have hcolumns : revision2AssociationsColumns.find? (· ∉ t.columnNames) = none := by
    rw [List.find?_eq_none]
    intro c hc
    simpa using hfiled.columns c hc
  have hmark : Database.mark ⟨unviewed db (.table (revision2Table [])), some (db.sequence.getD [])⟩
      associationsNew = none := (mark_getD db associationsNew).trans h.unmarked
  have hcopied : exec (.copy associationsNew associations revision2AssociationsColumns)
      ⟨unviewed db (.table (revision2Table [])), some (db.sequence.getD [])⟩ =
      insertRows associationsNew (t.rows.map copyOf)
        ⟨unviewed db (.table (revision2Table [])), some (db.sequence.getD [])⟩ := by
    simp only [exec, hold, hcolumns]
    rfl
  rw [hcopied]
  unfold insertRows
  simp only [hnew, h.uniques_new, hmark]
  have hrows : (t.rows.map copyOf).foldlM ((revision2Table []).insertRow associationsNew [])
      (revision2Table []).rows = .ok (t.rows.map copyOf) := copy_rows hfiled
  rw [hrows]
  show ∃ sequence : List (String × ℤ), (if _ ∧ _ then _ else _) = _ ∧ _
  rw [h.put_unviewed]
  by_cases hraised : (revision2Table []).autoincrement = true ∧
      (none : Option ℤ).getD 0 < (revision2Table []).raisedMark none (t.rows.map copyOf)
  · rw [if_pos hraised]
    refine ⟨setMark (db.sequence.getD []) associationsNew
      ((revision2Table []).raisedMark none (t.rows.map copyOf)), rfl, fun n hn => ?_, ?_⟩
    · rw [lookup_setMark, if_neg hn, mark_getD]
    · rw [lookup_setMark, if_pos rfl]
      exact hraised.2.le
  · rw [if_neg hraised]
    refine ⟨db.sequence.getD [], rfl, fun n _ => mark_getD db n, ?_⟩
    rw [mark_getD, h.unmarked]
    exact le_refl 0

/-- What is left when the old table is dropped. -/
theorem Written.filter_unviewed (h : Written e db) (t : Table) :
    (unviewed db (.table t)).filter (standsWithout associations) =
      db.schema.filter survives ++ [(associationsNew, .table t)] := by
  unfold unviewed
  rw [List.filter_append, List.filter_filter]
  congr 1
  refine List.filter_congr fun entry hentry => ?_
  obtain ⟨n, o⟩ := entry
  have hfind := h.distinct.find_iff.mpr hentry
  cases o with
  | table t' =>
    have hview := (h.table_name (Database.table_eq_some.mpr hfind)).2.1
    simp [standsWithout, survives, hview]
  | index ix =>
    have hview : n ≠ readable := by
      cases h.object hfind with
      | inl hcreate => exact (index_names hcreate).2.1
      | inr hformer =>
        rintro rfl
        exact absurd hformer.1 (by decide)
    simp [standsWithout, survives, hview]
  | view v =>
    have hview : n = readable := (h.object hfind).1
    simp [standsWithout, survives, hview]

theorem Written.survivors_renamed (h : Written e db) :
    (db.schema.filter survives).map (renamed associationsNew associations) =
      db.schema.filter survives := by
  refine (List.map_congr_left fun entry hentry => ?_).trans (List.map_id _)
  obtain ⟨hmem, hs⟩ := List.mem_filter.mp hentry
  obtain ⟨hname, htable⟩ := h.no_new.2 entry hmem
  obtain ⟨n, o⟩ := entry
  cases o with
  | table t =>
    show (if n = associationsNew then associations else n, Object.table t) = (n, .table t)
    rw [if_neg hname]
  | index ix =>
    show (n, Object.index { ix with
      table := if ix.table = associationsNew then associations else ix.table }) = (n, .index ix)
    rw [if_neg (htable ix rfl)]
  | view v => simp [survives] at hs

/-- Putting the new table in the old one's place. -/
theorem rebuild_swap (h : Written e db) {t : Table} (ht : db.table associations = some t)
    {rows : List Record} {sequence : List (String × ℤ)}
    (hmark : sequence.lookup associations = db.mark associations) :
    ∃ sequence' : List (String × ℤ),
      execAll [.dropTable associations, .renameTable associationsNew associations]
        ⟨unviewed db (.table (revision2Table (rows.map copyOf))), some sequence⟩ =
        .ok (rebuilt db rows (some sequence')) ∧
      sequence'.lookup associations = sequence.lookup associationsNew ∧
      sequence'.lookup associationsNew = none := by
  have hold : Database.table ⟨unviewed db (.table (revision2Table (rows.map copyOf))), some sequence⟩
      associations = some t := by
    rw [Database.table_eq_some]
    refine (h.lookup_unviewed _ _).trans ?_
    rw [if_neg (by decide), if_neg (by decide)]
    exact Database.table_eq_some.mp ht
  -- the old table's mark goes with it
  obtain ⟨kept, hkept, hgone, hnew⟩ : ∃ kept : List (String × ℤ),
      (if t.autoincrement = true then (some sequence).map fun seqs =>
        seqs.filter fun entry => entry.1 ≠ associations else some sequence) = some kept ∧
      kept.lookup associations = none ∧
      kept.lookup associationsNew = sequence.lookup associationsNew := by
    by_cases hauto : t.autoincrement = true
    · rw [if_pos hauto]
      refine ⟨_, rfl, ?_, ?_⟩
      · rw [lookup_filter_ne, if_pos rfl]
      · rw [lookup_filter_ne, if_neg (by decide)]
    · rw [if_neg hauto]
      refine ⟨_, rfl, ?_, rfl⟩
      rw [hmark]
      exact h.marked t ht (Bool.not_eq_true _ ▸ hauto)
  have hdrop : exec (.dropTable associations)
      ⟨unviewed db (.table (revision2Table (rows.map copyOf))), some sequence⟩ =
      .ok ⟨db.schema.filter survives ++
        [(associationsNew, .table (revision2Table (rows.map copyOf)))], some kept⟩ := by
    simp only [exec, hold]
    rw [h.filter_unviewed, hkept]
  have hlookup : ∀ n, (db.schema.filter survives ++
      [(associationsNew, Object.table (revision2Table (rows.map copyOf)))]).lookup n =
        ((db.schema.filter survives).lookup n).or
          (if n = associationsNew then some (.table (revision2Table (rows.map copyOf))) else none) :=
    fun n => lookup_append_singleton _ _ _ _
  have habsent : ∀ n, (∀ entry ∈ db.schema, survives entry = true → entry.1 ≠ n) →
      (db.schema.filter survives).lookup n = none := by
    intro n hn
    rw [List.lookup_eq_none_iff]
    intro entry hentry
    obtain ⟨hmem, hs⟩ := List.mem_filter.mp hentry
    simpa using (hn entry hmem hs).symm
  have htable : Database.table ⟨db.schema.filter survives ++
      [(associationsNew, .table (revision2Table (rows.map copyOf)))], some kept⟩ associationsNew =
        some (revision2Table (rows.map copyOf)) := by
    rw [Database.table_eq_some]
    refine (hlookup _).trans ?_
    rw [habsent _ fun entry hmem _ => (h.no_new.2 entry hmem).1, if_pos rfl, Option.none_or]
  have hfree : Database.find ⟨db.schema.filter survives ++
      [(associationsNew, .table (revision2Table (rows.map copyOf)))], some kept⟩ associations =
        none := by
    refine (hlookup _).trans ?_
    rw [habsent _ fun entry hmem hs => h.survivor hmem hs, if_neg (by decide), Option.none_or]
  have hviews : (db.schema.filter survives ++
      [(associationsNew, Object.table (revision2Table (rows.map copyOf)))]).find?
        (dangling ⟨db.schema.filter survives ++
          [(associationsNew, .table (revision2Table (rows.map copyOf)))], some kept⟩) = none := by
    rw [List.find?_eq_none]
    rintro ⟨n, o⟩ hentry
    cases o with
    | table t => simp [dangling]
    | index ix => simp [dangling]
    | view v =>
      cases List.mem_append.mp hentry with
      | inl hold => simp [survives] at hold
      | inr hnew => simp at hnew
  refine ⟨kept.map fun entry =>
    (if entry.1 = associationsNew then associations else entry.1, entry.2), ?_, ?_, ?_⟩
  · rw [execAll_cons hdrop, execAll_singleton]
    simp only [exec, htable, hfree, hviews, Option.isSome_none, Bool.false_eq_true, if_false]
    rw [List.map_append, h.survivors_renamed]
    rfl
  · rw [lookup_map_rename kept hgone, if_pos rfl, hnew]
  · rw [lookup_map_rename kept hgone, if_neg (by decide), if_pos rfl]

theorem lookup_map_raise (seqs : List (String × ℤ)) (n m : String) (seq : ℤ) :
    (seqs.map fun entry => if entry.1 = n ∧ entry.2 < seq then (n, seq) else entry).lookup m =
      if m = n then (seqs.lookup n).map (max seq) else seqs.lookup m := by
  induction seqs with
  | nil => simp
  | cons entry seqs ih =>
    have hname : (if entry.1 = n ∧ entry.2 < seq then (n, seq) else entry).1 = entry.1 := by
      split
      · rename_i h
        exact h.1.symm
      · rfl
    have hvalue : entry.1 = n →
        (if entry.1 = n ∧ entry.2 < seq then (n, seq) else entry).2 = max seq entry.2 := by
      intro hn
      by_cases hlt : entry.2 < seq
      · rw [if_pos ⟨hn, hlt⟩, max_eq_left hlt.le]
      · rw [if_neg (fun h => hlt h.2), max_eq_right (not_lt.mp hlt)]
    rw [List.map_cons, lookup_cons_ite, ih, lookup_cons_ite, lookup_cons_ite, hname]
    by_cases hm : m = n
    · subst hm
      by_cases hn : m = entry.1
      · rw [if_pos hn, if_pos rfl, if_pos hn, hvalue hn.symm, Option.map_some]
      · rw [if_neg hn, if_pos rfl, if_pos rfl, if_neg hn]
    · rw [if_neg hm, if_neg hm]
      by_cases hn : m = entry.1
      · rw [if_pos hn, if_pos hn, if_neg (fun h => hm (hn.trans h.1))]
      · rw [if_neg hn, if_neg hn]

/-- Carrying the mark over: it is there again, and no lower. -/
theorem carry_mark (schema : List (String × Object)) (seqs : List (String × ℤ)) (seq : ℤ) :
    ∃ seqs', execAll [.seedSequence associations seq, .raiseSequence associations seq]
        ⟨schema, some seqs⟩ = .ok ⟨schema, some seqs'⟩ ∧
      seq ≤ (seqs'.lookup associations).getD 0 ∧
      ∀ n, n ≠ associations → seqs'.lookup n = seqs.lookup n := by
  obtain ⟨seeded, hexec, hsome, hother⟩ : ∃ seeded : List (String × ℤ),
      exec (.seedSequence associations seq) ⟨schema, some seqs⟩ = .ok ⟨schema, some seeded⟩ ∧
      (∃ v, seeded.lookup associations = some v) ∧
      ∀ n, n ≠ associations → seeded.lookup n = seqs.lookup n := by
    cases hl : seqs.lookup associations with
    | some v =>
      refine ⟨seqs, ?_, ⟨v, hl⟩, fun _ _ => rfl⟩
      simp only [exec, hl, Option.isSome_some, if_true]
    | none =>
      refine ⟨seqs ++ [(associations, seq)], ?_, ⟨seq, ?_⟩, fun n hn => ?_⟩
      · simp only [exec, hl, Option.isSome_none, Bool.false_eq_true, if_false]
      · rw [lookup_append_singleton, hl, if_pos rfl, Option.none_or]
      · rw [lookup_append_singleton, if_neg hn, Option.or_none]
  obtain ⟨v, hv⟩ := hsome
  refine ⟨_, (execAll_cons hexec _).trans (execAll_singleton _ _), ?_, fun n hn => ?_⟩
  · rw [lookup_map_raise, if_pos rfl, hv]
    exact le_max_left seq v
  · rw [lookup_map_raise, if_neg hn]
    exact hother n hn

/-- **The rebuild** keeps the rows and the mark. -/
theorem relax_step (hk : Kept e start db) : ∃ db', relaxTimeSeriesTypeCheck db = .ok db' ∧
    Kept e start db' := by
  have h := hk.written
  obtain ⟨t, ht, hfiled⟩ := h.filed
  obtain ⟨sequence, hcopy, hmarks, hpos⟩ := rebuild_copy h ht hfiled
  obtain ⟨swapped, hswap, hassoc, hnew⟩ := @rebuild_swap e db h t ht t.rows sequence
    (hmarks associations (by decide))
  have hrun : execAll
      [.createTable false associationsNew revision2Associations (some "id") true,
       .dropView readable,
       .copy associationsNew associations revision2AssociationsColumns,
       .dropTable associations,
       .renameTable associationsNew associations] db = .ok (rebuilt db t.rows (some swapped)) := by
    show execAll ([.createTable false associationsNew revision2Associations (some "id") true,
      .dropView readable] ++ [.copy associationsNew associations revision2AssociationsColumns,
       .dropTable associations, .renameTable associationsNew associations]) db = _
    rw [execAll_append, rebuild_create h]
    exact (execAll_cons hcopy _).trans hswap
  -- whatever the sequence comes to, the rows are the same and the new table's name is free
  have hkept : ∀ seqs : List (String × ℤ), seqs.lookup associationsNew = none →
      (db.mark associations).getD 0 ≤ (seqs.lookup associations).getD 0 →
      Kept e start (rebuilt db t.rows (some seqs)) := by
    intro seqs hfree hmark
    obtain ⟨hrebuilt, hother⟩ := h.rebuilt_table t.rows (some seqs)
    refine ⟨h.rebuilt ht hfree, ?_, hk.mark.trans hmark, fun n t' h₁ h₂ ht' => ?_⟩
    · have hrows := hk.rows
      unfold rowsOf at hrows ⊢
      rw [ht] at hrows
      rw [hrebuilt]
      show List.Forall₂ SameRow _ (t.rows.map copyOf)
      rw [List.forall₂_map_right_iff]
      refine hrows.imp fun r s hsame c hc => ?_
      rw [get_copyOf s hc]
      exact hsame c hc
    · rw [hother n h₁]
      exact hk.others n t' h₁ h₂ ht'
  unfold relaxTimeSeriesTypeCheck
  simp only [hrun, bind, Except.bind]
  cases hmark : db.mark associations with
  | none =>
    refine ⟨_, rfl, hkept swapped hnew ?_⟩
    rw [hmark, hassoc]
    exact hpos
  | some seq =>
    obtain ⟨carried, hcarry, hle, hother⟩ := carry_mark
      (rebuilt db t.rows (some swapped)).schema swapped seq
    refine ⟨rebuilt db t.rows (some carried), hcarry, hkept carried ?_ ?_⟩
    · rw [hother _ (by decide)]
      exact hnew
    · rw [hmark]
      exact hle

/-! ### An open -/

theorem readRevision_written (h : Written e db) :
    ∃ v : ℤ, (v = 1 ∨ v = 2) ∧ readRevision db = .ok v := by
  unfold readRevision
  cases ht : db.table schemaVersion with
  | none => exact ⟨1, Or.inl rfl, rfl⟩
  | some t =>
    cases h.stamped t ht with
    | inl hempty => exact ⟨1, Or.inl rfl, by simp only [hempty]; rfl⟩
    | inr hrow =>
      obtain ⟨v, hv, hrows⟩ := hrow
      exact ⟨v, hv, by simp only [hrows]; rfl⟩

/-- The rungs above a revision. -/
def ladderFrom (v : ℤ) : List Rung := if v < catalogSchemaRevision then rungs else []

theorem plan_written (h : Written e db) {v : ℤ} (hv : v = 1 ∨ v = 2) (hread : readRevision db = .ok v) :
    plan db = .ok ((ladderFrom v).map Step.rung ++ finish.map Step.statement,
      (ladderFrom v).length) := by
  obtain ⟨t, ht, -⟩ := h.filed
  unfold plan
  rw [hread]
  simp only [ht, Option.isNone_some, Bool.false_eq_true, if_false]
  cases hv with
  | inl h => subst h; rfl
  | inr h => subst h; rfl

theorem runSteps_append (a b : List Step) (db : Database) :
    runSteps (a ++ b) db = runSteps a db >>= runSteps b := List.foldlM_append

theorem runSteps_statements (statements : List Statement) (db : Database) :
    runSteps (statements.map Step.statement) db = execAll statements db := by
  unfold runSteps execAll
  rw [List.foldlM_map]
  rfl

/-- **A rung**, with its stamp. -/
theorem rung_step (hk : Kept e start db) :
    ∃ db', runSteps (rungs.map Step.rung) db = .ok db' ∧ Kept e start db' := by
  obtain ⟨db₁, h₁, hk₁⟩ := relax_step hk
  obtain ⟨db₂, h₂, hk₂, -, -⟩ := writeRevision_prefix hk₁ (Or.inr rfl) 3
  refine ⟨db₂, ?_, hk₂⟩
  show (Step.run (.rung ⟨2, relaxTimeSeriesTypeCheck⟩) db >>= fun db => .ok db) = _
  have hrun : Step.run (.rung ⟨2, relaxTimeSeriesTypeCheck⟩) db = .ok db₂ := by
    unfold Step.run
    simp only [h₁]
    exact h₂
  rw [hrun]
  rfl

/-- An open stopped anywhere keeps the catalog. -/
theorem crashed_step (hk : Kept e start db) (k : ℕ) :
    ∃ db', crashed db k = .ok db' ∧ Kept e start db' := by
  obtain ⟨v, hv, hread⟩ := readRevision_written hk.written
  unfold crashed
  rw [plan_written hk.written hv hread]
  show ∃ db', mapErr reported (runSteps (List.take k _) db) = .ok db' ∧ _
  rw [List.take_append, List.length_map, ← List.map_take, ← List.map_take, runSteps_append]
  have hladder : ∃ db₁, runSteps (((ladderFrom v).take k).map Step.rung) db = .ok db₁ ∧
      Kept e start db₁ := by
    cases hv with
    | inl h =>
      subst h
      cases k with
      | zero => exact ⟨db, rfl, hk⟩
      | succ k =>
        have htake : (ladderFrom 1).take (k + 1) = rungs := by
          cases k <;> rfl
        rw [htake]
        exact rung_step hk
    | inr h =>
      subst h
      refine ⟨db, ?_, hk⟩
      have htake : (ladderFrom 2).take k = [] := by
        cases k <;> rfl
      rw [htake]
      rfl
  obtain ⟨db₁, h₁, hk₁⟩ := hladder
  obtain ⟨db₂, h₂, hk₂⟩ := finish_prefix hk₁ (k - (ladderFrom v).length)
  refine ⟨db₂, ?_, hk₂⟩
  rw [h₁]
  show mapErr reported (runSteps _ db₁) = _
  rw [runSteps_statements, h₂]
  rfl

/-- **Any number of interrupted opens** keeps the catalog. -/
theorem crashed_run (hk : Kept e start db) (crashes : List ℕ) :
    ∃ db', crashes.foldlM crashed db = .ok db' ∧ Kept e start db' := by
  induction crashes generalizing db with
  | nil => exact ⟨db, rfl, hk⟩
  | cons k crashes ih =>
    obtain ⟨db₁, h₁, hk₁⟩ := crashed_step hk k
    obtain ⟨db₂, h₂, hk₂⟩ := ih hk₁
    refine ⟨db₂, ?_, hk₂⟩
    rw [List.foldlM_cons, h₁]
    exact h₂

/-- An open that completes. -/
theorem apply_completes (hk : Kept e start db) :
    ∃ done ran, apply db = .ok (done, ran) ∧ Kept e start done ∧ Finished done := by
  obtain ⟨v, hv, hread⟩ := readRevision_written hk.written
  have hladder : ∃ db₁, runSteps ((ladderFrom v).map Step.rung) db = .ok db₁ ∧ Kept e start db₁ := by
    cases hv with
    | inl h =>
      subst h
      exact rung_step hk
    | inr h =>
      subst h
      exact ⟨db, rfl, hk⟩
  obtain ⟨db₁, h₁, hk₁⟩ := hladder
  obtain ⟨done, h₂, hk₂, hfinished⟩ := finish_complete hk₁
  refine ⟨done, (ladderFrom v).length, ?_, hk₂, hfinished⟩
  have hrun : runSteps ((ladderFrom v).map Step.rung ++ finish.map Step.statement) db = .ok done := by
    rw [runSteps_append, h₁]
    exact (runSteps_statements _ _).trans h₂
  unfold apply
  rw [plan_written hk.written hv hread]
  show (mapErr reported (runSteps _ db) >>= fun db => .ok (db, _)) = _
  rw [hrun]
  rfl

theorem Finished.readRevision (h : Finished db) : readRevision db = .ok catalogSchemaRevision := by
  obtain ⟨t, ht, hrows⟩ := h.stamped
  unfold Migration.readRevision
  simp only [ht, hrows]
  rfl

theorem Finished.apply_again (h : Finished db) (hw : Written e db) : apply db = .ok (db, 0) := by
  unfold apply
  rw [plan_written hw (Or.inr rfl) h.readRevision]
  show (mapErr reported (runSteps (finish.map Step.statement) db) >>= fun db => .ok (db, 0)) = _
  rw [runSteps_statements, h.again hw]
  rfl

/-! ### Reading at any point -/

theorem list_congr {t t' : List Record} {f f' : Record → Result (Record × List Record)}
    (h : List.Forall₂ (fun r r' => f' r' = f r) t t') : t'.mapM f' = t.mapM f := by
  induction h with
  | nil => rfl
  | cons hr _ ih => rw [List.mapM_cons, List.mapM_cons, hr, ih]

theorem forall₂_mem_left {α β : Type} {R : α → β → Prop} {as : List α} {bs : List β}
    (h : List.Forall₂ R as bs) : List.Forall₂ (fun a b => a ∈ as ∧ R a b) as bs := by
  induction h with
  | nil => exact .nil
  | cons hr _ ih =>
    exact .cons ⟨List.mem_cons_self, hr⟩ (ih.imp fun a b h => ⟨List.mem_cons_of_mem _ h.1, h.2⟩)

/-- A written catalog can be listed. -/
theorem Written.listed (hw : Written e db) : ∃ rows, list e db = .ok rows := by
  obtain ⟨t, ht, -⟩ := hw.filed
  unfold list
  simp only [ht]
  refine exists_mapM_eq_ok.mpr fun r hr => ?_
  by_cases hempty : r.get "features_hash" = e
  · exact ⟨_, if_pos hempty⟩
  · obtain ⟨sets, hsets⟩ := Option.isSome_iff_exists.mp (hw.features t ht ⟨r, hr, hempty⟩)
    rw [if_neg hempty, hsets]
    exact ⟨_, rfl⟩

/-- A kept catalog lists the rows it was kept from. -/
theorem Kept.list_eq (hk : Kept e start db) (hw : Written e start) : list e db = list e start := by
  obtain ⟨t, ht, -⟩ := hw.filed
  obtain ⟨t', ht', -⟩ := hk.written.filed
  have hrows := hk.rows
  unfold rowsOf at hrows
  rw [ht, ht'] at hrows
  unfold list
  simp only [ht, ht']
  refine list_congr ((forall₂_mem_left hrows).imp fun r r' h => ?_)
  obtain ⟨hr, hsame⟩ := h
  have hrow : (revision2AssociationsColumns.map fun c => (c, r'.get c)) =
      revision2AssociationsColumns.map fun c => (c, r.get c) :=
    List.map_congr_left fun c hc => by rw [hsame c hc]
  simp only [hrow, hsame "features_hash" (by decide)]
  by_cases hempty : r.get "features_hash" = e
  · rw [if_pos hempty, if_pos hempty]
  · rw [if_neg hempty, if_neg hempty]
    obtain ⟨sets, hsets⟩ := Option.isSome_iff_exists.mp (hw.features t ht ⟨r, hr, hempty⟩)
    rw [hsets, hk.others "feature_sets" sets (by decide) (by decide) hsets]

/-- A read-only open asks for the migration, or the rows are there. -/
theorem Kept.readOnly (hk : Kept e start db) (hw : Written e start) :
    checkReadOnly db = .error (.catalogMigrationRequired baseRevision catalogSchemaRevision) ∨
      checkReadOnly db = .ok () ∧ ∃ rows, list e start = .ok rows ∧ list e db = .ok rows := by
  obtain ⟨v, hv, hread⟩ := readRevision_written hk.written
  obtain ⟨t, ht, -⟩ := hk.written.filed
  unfold checkReadOnly
  rw [hread]
  simp only [ht, Option.isNone_some, Bool.false_eq_true, if_false]
  cases hv with
  | inl h =>
    subst h
    exact Or.inl rfl
  | inr h =>
    subst h
    obtain ⟨rows, hrows⟩ := hw.listed
    exact Or.inr ⟨rfl, rows, hrows, (hk.list_eq hw).trans hrows⟩

theorem foldl_max_mono {α β : Type} {f : α → ℤ} {g : β → ℤ} {as : List α} {bs : List β}
    (h : List.Forall₂ (fun a b => f a = g b) as bs) {m m' : ℤ} (hm : m ≤ m') :
    as.foldl (fun m a => max m (f a)) m ≤ bs.foldl (fun m b => max m (g b)) m' := by
  induction h generalizing m m' with
  | nil => exact hm
  | cons hab _ ih => exact ih (max_le_max hm hab.le)

theorem Kept.highWater_le (hk : Kept e start db) (hw : Written e start) :
    highWater start ≤ highWater db := by
  obtain ⟨t, ht, hfiled⟩ := hw.filed
  obtain ⟨t', ht', hfiled'⟩ := hk.written.filed
  have hrows := hk.rows
  unfold rowsOf at hrows
  rw [ht, ht'] at hrows
  unfold highWater
  simp only [ht, ht']
  refine foldl_max_mono (hrows.imp fun r r' hsame => ?_) hk.mark
  unfold Table.keyOf
  rw [hfiled.rowid, hfiled'.rowid]
  simp only [Option.map_some]
  rw [hsame "id" (by decide)]

/-! ### Migration -/

/-- A catalog brought to this build's revision with nothing lost. -/
structure Migrated (start done : Database) : Prop where
  rows : List.Forall₂ SameRow (rowsOf start) (rowsOf done)
  highWater : highWater start ≤ highWater done
  index : done.find "uq_ts_assoc_coalesced" = some (.index identityIndex)
  view : done.find readable = some (.view readableView)
  stamped : ∃ t, done.table schemaVersion = some t ∧ t.rows = stamp catalogSchemaRevision

/-- **Migration is lossless and resumes.**  From any catalog a build has written, after any opens that
crashes stopped between any two steps, the first open that completes has migrated it, with every row as
it was; the next changes nothing; and a read-only open in between asks for the migration or lists the
same rows.  A catalog of a newer revision is refused with no step taken. -/
theorem migration_lossless (h : Written e start) (crashes : List ℕ) :
    (∃ db, crashes.foldlM crashed start = .ok db ∧
      (∃ done ran, apply db = .ok (done, ran) ∧ Migrated start done ∧ apply done = .ok (done, 0)) ∧
      (checkReadOnly db = .error (.catalogMigrationRequired baseRevision catalogSchemaRevision) ∨
        checkReadOnly db = .ok () ∧ ∃ rows, list e start = .ok rows ∧ list e db = .ok rows)) ∧
    ∀ (newer : Database) (v : ℤ), readRevision newer = .ok v → catalogSchemaRevision < v →
      plan newer = .error (.catalogTooNew v catalogSchemaRevision) ∧
        apply newer = .error (.catalogTooNew v catalogSchemaRevision) := by
  constructor
  · obtain ⟨db, hrun, hk⟩ := crashed_run (.refl h) crashes
    obtain ⟨done, ran, happly, hdone, hfinished⟩ := apply_completes hk
    refine ⟨db, hrun, ⟨done, ran, happly, ⟨hdone.rows, hdone.highWater_le h, ?_, ?_,
      hfinished.stamped⟩, hfinished.apply_again hdone.written⟩, hk.readOnly h⟩
    · exact hfinished.done (.createIndex "uq_ts_assoc_coalesced" identityIndex) (by decide +kernel)
    · obtain ⟨schema, hschema, -⟩ := hfinished.view
      rw [hdone.written.distinct.find_iff, hschema]
      exact List.mem_append_right _ (List.mem_singleton_self _)
  · intro newer v hread hnewer
    have hplan : plan newer = .error (.catalogTooNew v catalogSchemaRevision) := by
      unfold plan
      rw [hread]
      exact if_pos hnewer
    refine ⟨hplan, ?_⟩
    unfold apply
    rw [hplan]
    rfl

/-! ### A catalog of revision 1 -/

namespace Sample

/-- A row of one owner, with no features. -/
def row : Record :=
  revision2AssociationsColumns.map fun c => (c,
    if c ∈ ["id", "owner_id"] then .integer 3
    else if c ∈ ["owner_category", "time_series_type"] then .integer 0
    else if c ∈ ["data_hash", "features_hash"] then .blob [7]
    else if c ∈ ["owner_type", "name", "element_type"] then .text "f64"
    else .null)

/-- The association table before revision 2: no bound on the type, the ids numbered for good. -/
def legacyTable : Table := ⟨revision2Associations, some "id", true, [row]⟩

/-- A catalog stamped 1 that has deleted its fifth row. -/
def legacy : Database :=
  ⟨[(associations, .table legacyTable),
    ("uq_assoc_coalesced", .index identityIndex),
    (schemaVersion, .table ⟨[required "version"], none, false, stamp 1⟩),
    (readable, .view ⟨associations, "SELECT id FROM time_series_associations"⟩)],
   some [(associations, 5)]⟩

theorem legacy_filed : Filed legacyTable := by
  refine ⟨rfl, by decide +kernel, ?_, ?_, ?_⟩
  · intro r hr
    cases List.mem_singleton.mp hr
    decide +kernel
  · exact List.pairwise_singleton _ _
  · intro r hr c hc
    cases List.mem_singleton.mp hr
    have hall : (revision2Associations.all fun c => c.admits (row.get c.name)) = true := by
      decide +kernel
    exact List.all_eq_true.mp hall c hc

theorem legacy_indexed : (ddlObjects.all fun
    | .createIndex _ ix => ((legacy.table ix.table).map Table.rows).getD [] = [] ||
        ((legacy.table ix.table).map Table.rows).getD [] = [row]
    | _ => true) = true := by
  decide +kernel

theorem legacy_written : Written (.blob [7]) legacy := by
  have htable : legacy.table associations = some legacyTable := by decide +kernel
  have hstamped : ∀ t, legacy.table schemaVersion = some t → t.rows = stamp 1 := by
    intro t ht
    have h : legacy.table schemaVersion =
        some ⟨[required "version"], none, false, stamp 1⟩ := by decide +kernel
    rw [h] at ht
    cases ht
    rfl
  refine ⟨by unfold Database.Distinct; decide +kernel, ?_, ⟨_, htable, legacy_filed⟩, ?_,
    by decide +kernel, ?_, fun t ht => Or.inr ⟨1, Or.inl rfl, hstamped t ht⟩, ?_⟩
  · intro entry hentry
    simp only [legacy, List.mem_cons, List.not_mem_nil, or_false] at hentry
    rcases hentry with rfl | rfl | rfl | rfl
    · exact Or.inl rfl
    · exact Or.inr ⟨by decide, rfl⟩
    · exact Or.inr (by decide +kernel)
    · exact ⟨rfl, rfl⟩
  · intro t ht hauto
    rw [htable] at ht
    cases ht
    cases hauto
  · intro n ix t hix ht
    have hrows := List.all_eq_true.mp legacy_indexed _ hix
    simp only [ht, Option.map_some, Option.getD_some, Bool.or_eq_true, decide_eq_true_eq] at hrows
    cases hrows with
    | inl h =>
      rw [h]
      exact List.Pairwise.nil
    | inr h =>
      rw [h]
      exact List.pairwise_singleton _ _
  · intro t ht hr
    rw [htable] at ht
    cases ht
    obtain ⟨r, hr, hne⟩ := hr
    cases List.mem_singleton.mp hr
    exact absurd (by decide +kernel) hne

theorem migration_lossless_legacy : ∃ db, [1, 4].foldlM crashed legacy = .ok db ∧
    ∃ done ran, apply db = .ok (done, ran) ∧ Migrated legacy done ∧ apply done = .ok (done, 0) := by
  obtain ⟨db, hrun, happly, -⟩ := (migration_lossless legacy_written [1, 4]).1
  exact ⟨db, hrun, happly⟩

end Sample

end InfraStore.Migration
