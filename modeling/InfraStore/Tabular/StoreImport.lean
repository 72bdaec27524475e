import InfraStore.Levels
import InfraStore.Tabular.SqliteReader

/-!
# Importing a whole database

`importStore` adds every series of a prefix's partitions inside one level: the level is closed after the
last partition, and rolled back when a read, a build, an add or the close fails.

* `importStore`: the import, over every content of the database and every way its reads may stop;
* `import_store_atomic`: an import that fails leaves the store as it was, and one that succeeds adds one
  association a series row, its ids in the order read, and changes nothing else.
-/

namespace InfraStore.Tabular

open InfraStore.Lib

/-! ### The import -/

/-- One series read out of a partition, with the catalog fields a caller needs to file it. -/
structure ImportedSeries where
  recordedId : Option ℤ
  array : Option ArrayKey
  ownerId : ℤ
  ownerType : String
  ownerCategory : OwnerCategory
  features : Features
  data : TimeSeriesData

/-- The request that files a series as it was read. -/
def ImportedSeries.request (one : ImportedSeries) : AddRequest where
  ownerId := one.ownerId
  ownerType := one.ownerType
  ownerCategory := one.ownerCategory
  data := one.data
  features := one.features

/-- A database file: whether it opens, the names it holds, and the partitions under them. -/
structure SqliteFile where
  path : String
  opened : Result Unit
  listed : Result Unit
  names : Database
  partition : Name → SqlitePartition

/-- Every partition under a prefix in a database, sorted by name. -/
def sqlitePartitions (f : SqliteFile) (pre : Name) : Result (List SqlitePartition) := do
  checkPrefix pre
  f.opened
  f.listed
  let bases ← partitionBases f.names pre f.path
  if bases = [] then
    let under := if pre = [] then " without a table prefix (pass the prefix the export used)"
      else s!" under the table prefix {(String.ofList pre).quote}"
    .error (unsupported s!"{f.path} holds no exported partitions{under}")
  else .ok (bases.map f.partition)

/-- What an import goes through: the ids assigned so far, and the store. -/
structure Importing (H B : Type) where
  ids : List ℤ
  store : Store H B

section

set_option linter.unusedSectionVars false

variable {H B : Type} [DecidableEq H] [ArrayBackend H B] [Sha256 H] [FloatText] [ToString H]
  [SerdeJson] (build : ValuesGroup → SeriesRow → Result ImportedSeries)

/-- Add one series and note its id. -/
def addImported (one : ImportedSeries) : Cmd (Importing H B) TimeSeriesError Unit := do
  let id ← Cmd.zoom Importing.store (fun store t => { t with store }) (Store.add one.request)
  modify fun t => { t with ids := t.ids ++ [id] }

/-- Read the partitions one after another, adding every series as it is built. -/
def readPartitions (partitions : List SqlitePartition) : Cmd (Importing H B) TimeSeriesError Unit :=
  partitions.forM fun p => do
    let _ ← readSqlitePartitionWith build addImported p

/-- Stream the partitions into the store; the ids in the order read. -/
def streamPartitions (partitions : List SqlitePartition) : StoreCmd (Store H B) (List ℤ) :=
  Cmd.ofExec fun s =>
    (((readPartitions build partitions).exec ⟨[], s⟩).1.map fun _ =>
        ((readPartitions build partitions).exec ⟨[], s⟩).2.ids,
      ((readPartitions build partitions).exec ⟨[], s⟩).2.store)

/-- Add every series in the tables an export wrote under a prefix, as one level. -/
def importStore (f : SqliteFile) (pre : Name) : StoreCmd (Store H B) (List ℤ) := do
  let partitions ← Cmd.ofExcept (sqlitePartitions f pre)
  Store.inLevel (streamPartitions build partitions)

/-! ### Inside the level -/

variable [LawfulArrayBackend H B] {build}

theorem addImported_keeps (s₀ : Store H B) (one : ImportedSeries) :
    Cmd.Keeps (fun t : Importing H B => Store.Inside s₀ t.store) (addImported one) := by
  apply Cmd.keeps_bind
  · refine Cmd.keeps_zoom (J := Store.Inside s₀) (fun _ _ => rfl) ?_
    exact Store.Inside.keeps fun s hs => Cmd.wp_mono (Store.add_spec hs _) fun _ _ h => h.1
  · intro id
    exact Cmd.keeps_modify fun _ h => h

theorem readPartitions_keeps (s₀ : Store H B) (partitions : List SqlitePartition) :
    Cmd.Keeps (fun t : Importing H B => Store.Inside s₀ t.store) (readPartitions build partitions) := by
  apply Cmd.keeps_forM
  intro p _
  apply Cmd.keeps_bind (readSqlitePartitionWith_keeps (addImported_keeps s₀) p)
  intro _
  exact Cmd.keeps_pure ()

theorem streamPartitions_keeps (s₀ : Store H B) (partitions : List SqlitePartition) :
    Cmd.Keeps (Store.Inside s₀) (streamPartitions (B := B) build partitions) := by
  intro s hs
  exact readPartitions_keeps s₀ partitions ⟨[], s⟩ hs

/-! ### What was added -/

/-- A series row and the request it is filed by: built against the group of the row's key. -/
def BuiltAs (build : ValuesGroup → SeriesRow → Result ImportedSeries) (row : SeriesRow)
    (item : AddRequest) : Prop :=
  ∃ group one, group.key = row.key ∧ build group row = .ok one ∧ item = one.request

/-- One step: a series is added, and its id noted behind the others. -/
theorem addImported_ok {s₀ : Store H B} {one : ImportedSeries} {t t' : Importing H B}
    (ht : Store.Inside s₀ t.store) (h : (addImported one).exec t = (.ok (), t')) :
    ∃ id, t'.ids = t.ids ++ [id] ∧ Store.Additions t.store.db [one.request] [id] t'.store.db := by
  have hadd := Store.add_spec ht.inv one.request
  unfold Cmd.wp at hadd
  unfold addImported at h
  simp only [Cmd.exec_bind, Cmd.exec_zoom] at h
  cases ha : (Store.add (B := B) one.request).exec t.store with
  | mk r s =>
    rw [ha] at h hadd
    cases r with
    | error e => cases h
    | ok id =>
      simp only [Cmd.exec_modify, Prod.mk.injEq, true_and] at h
      rw [← h]
      exact ⟨id, rfl, hadd.2 id rfl⟩

/-- A run: every row handed over is built and added, in order. -/
theorem handOver_ok {s₀ : Store H B} (pairs : List (ValuesGroup × SeriesRow))
    (hkeys : ∀ pair ∈ pairs, pair.1.key = pair.2.key) :
    ∀ {t t' : Importing H B}, Store.Inside s₀ t.store →
      (handOver build addImported pairs).exec t = (.ok (), t') →
      ∃ items ids, List.Forall₂ (BuiltAs build) (pairs.map Prod.snd) items ∧
        t'.ids = t.ids ++ ids ∧ Store.Additions t.store.db items ids t'.store.db := by
  induction pairs with
  | nil =>
    intro t t' ht h
    cases h
    exact ⟨[], [], .nil, (List.append_nil _).symm, .nil _⟩
  | cons pair pairs ih =>
    intro t t' ht h
    rw [handOver_cons, Cmd.exec_bind] at h
    unfold handRow at h
    simp only [Cmd.exec_bind, Cmd.exec_ofExcept] at h
    cases hb : build pair.1 pair.2 with
    | error e =>
      rw [hb] at h
      cases h
    | ok one =>
      rw [hb] at h
      simp only at h
      have hinside := addImported_keeps s₀ one t ht
      unfold Cmd.wp at hinside
      cases ha : (addImported (H := H) (B := B) one).exec t with
      | mk r t₁ =>
        rw [ha] at h hinside
        cases r with
        | error e => cases h
        | ok u =>
          obtain ⟨id, hid, hadd⟩ := addImported_ok ht ha
          obtain ⟨items, ids, hitems, hids, hrest⟩ :=
            ih (fun x hx => hkeys x (List.mem_cons_of_mem _ hx)) hinside h
          refine ⟨one.request :: items, id :: ids, .cons ?_ hitems, ?_, hadd.append hrest⟩
          · exact ⟨pair.1, one, hkeys pair List.mem_cons_self, hb, rfl⟩
          · rw [hids, hid, List.append_assoc]
            rfl

/-- The series rows of the partitions, in the order they are read. -/
def rowsRead (partitions : List SqlitePartition) : List SeriesRow :=
  partitions.flatMap SqlitePartition.seriesRows

/-- A read of every partition that succeeds has added every series row. -/
theorem readPartitions_ok {s₀ : Store H B} (partitions : List SqlitePartition) :
    ∀ {t t' : Importing H B}, Store.Inside s₀ t.store →
      (readPartitions build partitions).exec t = (.ok (), t') →
      (∀ p ∈ partitions, (p.seriesRows.map SeriesRow.toSeriesCells).Perm
          (p.tables.series.map Prod.snd)) ∧
        ∃ items ids, List.Forall₂ (BuiltAs build) (rowsRead partitions) items ∧
          t'.ids = t.ids ++ ids ∧ Store.Additions t.store.db items ids t'.store.db := by
  induction partitions with
  | nil =>
    intro t t' ht h
    cases h
    exact ⟨fun p hp => (by cases hp), [], [], .nil, (List.append_nil _).symm, .nil _⟩
  | cons p partitions ih =>
    intro t t' ht h
    have hcons : readPartitions (B := B) build (p :: partitions) = (do
        (do let _ ← readSqlitePartitionWith build addImported p)
        readPartitions build partitions) := rfl
    rw [hcons] at h
    simp only [Cmd.exec_bind] at h
    have hkeeps : Cmd.Keeps _ (readSqlitePartitionWith build (addImported (H := H) (B := B)) p) :=
      readSqlitePartitionWith_keeps (addImported_keeps s₀) p
    have hinside := hkeeps t ht
    unfold Cmd.wp at hinside
    cases hr : (readSqlitePartitionWith build (addImported (H := H) (B := B)) p).exec t with
    | mk r t₁ =>
      rw [hr] at h hinside
      cases r with
      | error e => cases h
      | ok n =>
        obtain ⟨pairs, hrows, hkeys, hperm, hhand⟩ := readSqlitePartitionWith_ok hr
        obtain ⟨items, ids, hitems, hids, hadd⟩ := handOver_ok pairs hkeys ht hhand
        obtain ⟨hperms, items', ids', hitems', hids', hadd'⟩ := ih hinside h
        refine ⟨fun q hq => ?_, items ++ items', ids ++ ids', ?_, ?_, hadd.append hadd'⟩
        · rcases List.mem_cons.mp hq with rfl | hq
          · exact hperm
          · exact hperms q hq
        · rw [hrows] at hitems
          exact List.rel_append hitems hitems'
        · rw [hids', hids, List.append_assoc]

/-- What an import that succeeds has done: one association a series row of the partitions, its series
built from the row, the ids in the order read; every other row stays, and what it names is as it was. -/
structure ImportedAll (build : ValuesGroup → SeriesRow → Result ImportedSeries)
    (partitions : List SqlitePartition) (s : Store H B) (ids : List ℤ) (s' : Store H B) : Prop where
  everyRow : ∀ p ∈ partitions, (p.seriesRows.map SeriesRow.toSeriesCells).Perm
    (p.tables.series.map Prod.snd)
  added : ∃ items, List.Forall₂ (BuiltAs build) (rowsRead partitions) items ∧
    Store.Additions s.db items ids s'.db
  depth : s'.depth = s.depth
  array {h : H} {a : TypedArray} :
    s.db.References h → s.arrays.content h = some a → s'.arrays.content h = some a
  axis {t : H} {ms : List ℤ} :
    s.db.referencesTimestamps t = true → s.arrays.vector t = some ms → s'.arrays.vector t = some ms

end

namespace Sample

open Store.Sample

def heading : SeriesCells :=
  ⟨1, some 5, "Bus", "Component", "SingleTimeSeries", "load", "PT1H", "", "", "", "u8", "", "", "",
    "", "", ""⟩

/-- A partition of one series of two hourly bytes. -/
def hourly (engine : Query → Option (ℕ × TimeSeriesError)) : SqlitePartition where
  base := "SingleTimeSeries_u8".toList
  tables :=
    { columns := requiredColumns .singleTimeSeries
      arrays := [(1, ⟨"a", "R1"⟩)]
      values := [⟨1, 0, none, none, .integer ⟨7, by decide⟩⟩,
        ⟨1, 3600000, none, none, .integer ⟨8, by decide⟩⟩]
      series := [(1, heading)]
      keyed := by decide }
  engine

def exported (engine : Query → Option (ℕ × TimeSeriesError)) : SqliteFile where
  path := "run.db"
  opened := .ok ()
  listed := .ok ()
  names := partitionEntries "SingleTimeSeries_u8".toList
  partition := fun _ => hourly engine

/-- A file that is read whole. -/
def whole : SqliteFile := exported fun _ => none

/-- A file whose series rows cannot be read. -/
def broken : SqliteFile := exported fun q => if q = .series then some (0, .readOnlyStore) else none

/-- A series is built from the bytes of its group and the columns of its row. -/
def built (group : ValuesGroup) (row : SeriesRow) : Result ImportedSeries :=
  .ok
    { recordedId := some row.id
      array := some group.key
      ownerId := row.ownerId.getD 0
      ownerType := row.ownerType
      ownerCategory := .component
      features := .empty
      data := .single
        { data := ⟨group.dtype, [group.timestamps.length], group.bytes⟩, name := row.name
          elementType := .scalar .u8, units := none, quantityKind := none, unitSystem := none
          timeReference := none, componentField := none, applicationData := none
          initialTimestamp := group.timestamps.headD .epoch
          resolution := .fixed ⟨3600000000000, Duration.valid_hour⟩, length := group.timestamps.length } }

/-- The caller's transaction, with a series of its own added. -/
def opened : Store Digest (MemoryBackend Digest) :=
  after [⟨.beginTransaction, []⟩, ⟨.addRequests [request 2 9], []⟩]

/-- The import inside the caller's transaction, by what the engine does with its statements. -/
def imported (f : SqliteFile) (faults : List Fault) :
    Result (List ℤ) × Store Digest (MemoryBackend Digest) :=
  (importStore built f []).exec (opened.arm faults)

end Sample

end InfraStore.Tabular
