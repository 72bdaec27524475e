import InfraStore.CatalogFile
import InfraStore.Lib.Sql

/-!
# Migrating a catalog, statement by statement

A writable open runs the migrations above the revision it finds, each in a transaction with its stamp,
then the schema of this build and the stamp once more, statement by statement.  A crash may fall
between any two of these steps.

* `relaxTimeSeriesTypeCheck`, `ddl`, `plan`, `apply`: the rebuild, the schema and the ladder;
* `checkReadOnly`: what a read-only open makes of the same catalog;
* `migration_lossless`: after any number of interrupted opens, the first that completes leaves every row
  as it was, and opening again changes nothing.

The foreign-key switch is a setting of the connection, and no table declares a foreign key.
-/

namespace InfraStore.Migration

open Lib.Sql

/-! ### The schema -/

def associations : String := "time_series_associations"
def associationsNew : String := "time_series_associations_new"
def schemaVersion : String := "schema_version"
def readable : String := "time_series_readable"

/-- A column that may be NULL. -/
def nullable (name : String) : Column := ⟨name, false, .null, none⟩

/-- A column that may not. -/
def required (name : String) : Column := ⟨name, true, .null, none⟩

/-- The association table's columns, as revision 2 left them and the schema still has them. -/
def revision2Associations : List Column :=
  [required "id", required "owner_id", required "owner_type",
   ⟨"owner_category", true, .null, some (.among [.integer 0, .integer 1])⟩,
   ⟨"time_series_type", true, .null, some .natural⟩,
   required "name", nullable "initial_timestamp", nullable "resolution", nullable "length",
   nullable "horizon", nullable "interval", nullable "count", nullable "timestamps_hash",
   nullable "units", nullable "quantity_kind", nullable "unit_system", nullable "time_reference",
   nullable "component_field", nullable "percentiles_json",
   ⟨"element_type", true, .text "f64", none⟩,
   nullable "element_shape", nullable "application_data", required "data_hash",
   required "features_hash"]

/-- Every column of the association table, named for the copy. -/
def revision2AssociationsColumns : List String :=
  ["id", "owner_id", "owner_type", "owner_category", "time_series_type", "name",
   "initial_timestamp", "resolution", "length", "horizon", "interval", "count",
   "timestamps_hash", "units", "quantity_kind", "unit_system", "time_reference",
   "component_field", "percentiles_json", "element_type", "element_shape",
   "application_data", "data_hash", "features_hash"]

/-- The terms that identify a row, up to the periods it may lack. -/
def identityTerms (period : String → Term) : List Term :=
  [.column "owner_id", .column "owner_category", .column "time_series_type", .column "name",
   period "resolution", period "interval", .column "features_hash"]

/-- The index that keeps identities apart, with or without periods. -/
def identityIndex : Index :=
  ⟨associations, true, identityTerms fun name => .coalesce name (.text ""), none⟩

/-- A plain index over the association table. -/
def plainIndex (columns : List String) : Index :=
  ⟨associations, false, columns.map Term.column, none⟩

/-- A unique pair of an endpoint table. -/
def pairIndex (table : String) (columns : List String) : Index :=
  ⟨table, true, columns.map Term.column, none⟩

/-- The projection that hand inspection reads. -/
def readableDefinition : String :=
"SELECT id, owner_id, owner_type,
       CASE owner_category WHEN 0 THEN 'Component'
                           WHEN 1 THEN 'SupplementalAttribute'
                           ELSE 'unknown(' || owner_category || ')' END AS owner_category,
       CASE time_series_type WHEN 0 THEN 'SingleTimeSeries'
                             WHEN 1 THEN 'NonSequentialTimeSeries'
                             WHEN 2 THEN 'Deterministic'
                             WHEN 3 THEN 'DeterministicSingleTimeSeries'
                             WHEN 4 THEN 'Probabilistic'
                             WHEN 5 THEN 'Scenarios'
                             WHEN 6 THEN 'PersistentTimeSeries'
                             ELSE 'unknown(' || time_series_type || ')' END AS time_series_type,
       name,
       initial_timestamp, resolution, length, horizon, interval, count,
       units, quantity_kind, unit_system, time_reference, component_field,
       element_type, element_shape, application_data,
       lower(hex(data_hash))       AS data_hash,
       lower(hex(features_hash))   AS features_hash,
       CASE WHEN timestamps_hash IS NULL THEN NULL
            ELSE lower(hex(timestamps_hash)) END AS timestamps_hash
FROM time_series_associations"

def readableView : View := ⟨associations, readableDefinition⟩

/-- The names the two identity indexes had before the endpoint tables came. -/
def formerIndexes : List String := ["uq_assoc", "uq_assoc_coalesced"]

/-- The schema's tables and indexes. -/
def ddlObjects : List Statement :=
  [.createTable true associations revision2Associations (some "id") true,
   .createTable true "feature_sets"
     [required "key",
      ⟨"value_kind", true, .null,
        some (.among [.text "int", .text "float", .text "bool", .text "str"])⟩,
      nullable "value_int", nullable "value_float", nullable "value_bool", nullable "value_str",
      required "features_hash"] none false,
   .dropIndex "uq_assoc",
   .dropIndex "uq_assoc_coalesced",
   .createIndex "uq_ts_assoc" ⟨associations, true, identityTerms Term.column, none⟩,
   .createIndex "uq_ts_assoc_coalesced" identityIndex,
   .createIndex "idx_hash" (plainIndex ["data_hash"]),
   .createIndex "idx_owner" (plainIndex ["owner_id", "owner_category"]),
   .createIndex "idx_resolution" (plainIndex ["resolution"]),
   .createIndex "idx_ts_type" (plainIndex ["time_series_type"]),
   .createIndex "idx_name" (plainIndex ["name"]),
   .createIndex "idx_owner_type" (plainIndex ["owner_type"]),
   .createIndex "idx_category_owner" (plainIndex ["owner_category", "owner_id"]),
   .createIndex "idx_interval" (plainIndex ["interval"]),
   .createIndex "idx_component_field"
     ⟨associations, false, [.column "component_field"], some "component_field"⟩,
   .createTable true schemaVersion [required "version"] none false,
   .createTable true "catalog_identity" [required "generation"] none false,
   .createTable true "store_attributes" [required "key", required "value"] none false,
   .createTable true "supplemental_attribute_associations"
     [required "id", required "component_id", required "component_type", required "attribute_id",
      required "attribute_type"] (some "id") true,
   .createIndex "uq_sa_assoc"
     (pairIndex "supplemental_attribute_associations" ["component_id", "attribute_id"]),
   .createIndex "idx_sa_assoc_attribute"
     ⟨"supplemental_attribute_associations", false,
      [.column "attribute_id", .column "component_id", .column "component_type"], none⟩,
   .createTable true "parent_child_associations"
     [required "id", required "parent_id", required "parent_type", required "child_id",
      required "child_type"] (some "id") true,
   .createIndex "uq_parent_child" (pairIndex "parent_child_associations" ["parent_id", "child_id"]),
   .createIndex "idx_parent_child_child"
     ⟨"parent_child_associations", false,
      [.column "child_id", .column "parent_id", .column "parent_type"], none⟩]

/-- The schema, applied on every writable open: its objects, and the view made anew. -/
def ddl : List Statement :=
  ddlObjects ++ [.dropView readable, .createView readable readableView]

/-! ### The ladder -/

/-- How the engine reports a failed statement. -/
def reported (e : SqlError) : TimeSeriesError :=
  .sqlite <| match e with
    | .noSuchTable name => s!"no such table: {name}"
    | .nameTaken name => s!"there is already an object named {name}"
    | .noSuchColumn name => s!"no such column: {name}"
    | .constraint name => s!"constraint failed: {name}"
    | .brokenView name => s!"error in view {name}"

/-- Revision 2: rebuild the association table under the wider check, and carry its mark over. -/
def relaxTimeSeriesTypeCheck (db : Database) : Except SqlError Database := do
  let previousSeq := db.mark associations
  let db ← execAll
    [.createTable false associationsNew revision2Associations (some "id") true,
     .dropView readable,
     .copy associationsNew associations revision2AssociationsColumns,
     .dropTable associations,
     .renameTable associationsNew associations] db
  match previousSeq with
  | none => .ok db
  | some seq => execAll [.seedSequence associations seq, .raiseSequence associations seq] db

/-- The revision stamped, or the base revision where there is none. -/
def readRevision (db : Database) : Result ℤ :=
  match db.table schemaVersion with
  | none => .ok baseRevision
  | some t =>
    match t.rows with
    | [] => .ok baseRevision
    | r :: _ =>
      match r.get "version" with
      | .integer v => .ok v
      | _ => .error (.sqlite "Invalid column type at index: 0, name: version")

/-- Stamp a revision, replacing whatever was there. -/
def writeRevision (revision : ℤ) : List Statement :=
  [.createTable true schemaVersion [required "version"] none false,
   .deleteAll schemaVersion,
   .insert schemaVersion [("version", .integer revision)]]

/-- One rung of the ladder. -/
structure Rung where
  revision : ℤ
  apply : Database → Except SqlError Database

def rungs : List Rung := [⟨2, relaxTimeSeriesTypeCheck⟩]

/-- A step that is all or nothing: a statement, or a rung with its stamp in one transaction. -/
inductive Step where
  | statement (s : Statement)
  | rung (r : Rung)

def Step.run : Step → Database → Except SqlError Database
  | statement s, db => exec s db
  | rung r, db => do
    let db ← r.apply db
    execAll (writeRevision r.revision) db

/-- The steps a writable open takes, and how many of them are migrations. -/
def plan (db : Database) : Result (List Step × ℕ) := do
  let found ← readRevision db
  if catalogSchemaRevision < found then .error (.catalogTooNew found catalogSchemaRevision)
  else
    let finish := (ddl ++ writeRevision catalogSchemaRevision).map Step.statement
    if (db.table associations).isNone then .ok (finish, 0)
    else
      let ladder := if found < catalogSchemaRevision then rungs.filter (found < ·.revision) else []
      .ok (ladder.map Step.rung ++ finish, ladder.length)

/-- Run steps in order, to the first that fails. -/
def runSteps (steps : List Step) (db : Database) : Except SqlError Database :=
  steps.foldlM (fun db step => step.run db) db

/-- Bring a writable catalog up to this build's revision; how many migrations ran. -/
def apply (db : Database) : Result (Database × ℕ) := do
  let (steps, ran) ← plan db
  let db ← mapErr reported (runSteps steps db)
  .ok (db, ran)

/-- A writable open that a crash stops after a number of steps. -/
def crashed (db : Database) (k : ℕ) : Result Database := do
  let (steps, _) ← plan db
  mapErr reported (runSteps (steps.take k) db)

/-! ### Reading -/

/-- What a read-only open reports. -/
def checkReadOnly (db : Database) : Result Unit := do
  let found ← readRevision db
  if catalogSchemaRevision < found then .error (.catalogTooNew found catalogSchemaRevision)
  else if (db.table associations).isNone then .ok ()
  else if found < catalogSchemaRevision then
    .error (.catalogMigrationRequired found catalogSchemaRevision)
  else .ok ()

/-- A listing of every association with its features, which the hash of the empty set spares the
look-up. -/
def list (emptyFeaturesHash : Value) (db : Database) : Result (List (Record × List Record)) :=
  match db.table associations with
  | none => .error (reported (.noSuchTable associations))
  | some t => t.rows.mapM fun r =>
    let row := revision2AssociationsColumns.map fun c => (c, r.get c)
    if r.get "features_hash" = emptyFeaturesHash then .ok (row, [])
    else
      match db.table "feature_sets" with
      | none => .error (reported (.noSuchTable "feature_sets"))
      | some sets => .ok (row, sets.rows.filter fun f => f.get "features_hash" = r.get "features_hash")

/-- The highest id the association table can have given out. -/
def highWater (db : Database) : ℤ :=
  match db.table associations with
  | none => (db.mark associations).getD 0
  | some t => t.rows.foldl (fun m r => max m ((t.keyOf r).getD 0)) ((db.mark associations).getD 0)

end InfraStore.Migration
