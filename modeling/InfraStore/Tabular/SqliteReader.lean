import Mathlib.Data.List.Dedup
import InfraStore.Tabular.Cells
import InfraStore.Tabular.MergeJoin
import InfraStore.Tabular.SqliteNames

/-!
# Reading a partition out of a SQLite database

A partition is three tables: the arrays by their keys, the values, and the series rows.  The reader checks
them, walks the values and the series through the arrays table in key order, and merge-joins the two.

* `readSqlitePartitionWith`: the reader, over any sink;
* `SqlitePartition.seriesRows`: the series rows beside their array's key, in the order they are read;
* `readSqlitePartitionWith_ok`: a read that succeeds has built every series row once, in that order, and
  the sink has taken every series.

The engine may stop any statement, after any number of its rows; a cell of another type than the reader
asks for is such a stop.
-/

namespace InfraStore.Tabular

open InfraStore.Lib

/-! ### The tables of a partition -/

/-- What a table of a partition holds. -/
inductive Role where
  | values
  | series
  | arrays
  deriving DecidableEq

def Role.asStr : Role → String
  | .values => "values"
  | .series => "series"
  | .arrays => "arrays"

def Role.suffix : Role → Name
  | .values => valuesSuffix
  | .series => seriesSuffix
  | .arrays => arraysSuffix

/-- Whether a type's values come in windows. -/
def isForecast : TimeSeriesType → Bool
  | .singleTimeSeries | .nonSequentialTimeSeries | .persistentTimeSeries => false
  | .deterministic | .deterministicSingleTimeSeries | .probabilistic | .scenarios => true

/-- Every column a table of this role and type must carry. -/
def requiredColumns (tsType : TimeSeriesType) : Role → List String
  | .arrays => ["id", "data_hash", "time_axis"]
  | .values =>
    ["array_id", "timestamp"] ++ (if isForecast tsType then ["issue_time"] else []) ++
      (match tsType with
        | .probabilistic => ["percentile"]
        | .scenarios => ["scenario"]
        | _ => []) ++ ["value"]
  | .series =>
    ["array_id", "id", "owner_id", "owner_type", "owner_category", "time_series_type", "name"] ++
      (if tsType = .singleTimeSeries ∨ isForecast tsType = true then
        ["initial_timestamp", "resolution"] else []) ++
      (if tsType = .singleTimeSeries then ["length"] else []) ++
      (if isForecast tsType then ["interval", "horizon", "count"] else []) ++
      ["features", "element_type", "element_shape", "time_reference", "units", "quantity_kind",
        "unit_system", "component_field", "application_data"]

/-- The three tables of a partition.  A cell of a column that a table lacks is absent. -/
structure PartitionTables where
  columns : Role → List String
  arrays : List (ℤ × ArrayKey)
  values : List ValuesRecord
  series : List (ℤ × SeriesCells)
  /-- The id is the primary key of the arrays table. -/
  keyed : (arrays.map Prod.fst).Nodup

/-- The key of an array id. -/
def PartitionTables.keyOf (t : PartitionTables) (id : ℤ) : Option ArrayKey := t.arrays.lookup id

/-- The rows of a half beside their array's key, in key order; `tie` orders the rows of one array. -/
def PartitionTables.joined {ρ : Type} (t : PartitionTables) (idOf tie : ρ → ℤ) (rows : List ρ) :
    List (ArrayKey × ρ) :=
  (rows.filterMap fun r => (t.keyOf (idOf r)).map (·, r)).insertionSort
    fun a b => toLex (a.1, tie a.2) ≤ toLex (b.1, tie b.2)

/-- The statements a read issues. -/
inductive Query where
  | «open»
  | kinds
  | countValues
  | columns (role : Role)
  | orphan (role : Role)
  | values
  | series
  deriving DecidableEq

/-- A partition in a database: its tables, and where the engine stops a statement on them. -/
structure SqlitePartition where
  base : Name
  tables : PartitionTables
  engine : Query → Option (ℕ × TimeSeriesError)

namespace SqlitePartition

def table (p : SqlitePartition) (role : Role) : String := String.ofList (p.base ++ role.suffix)

/-- The answer of a statement that is read whole. -/
def ask {α : Type} (p : SqlitePartition) (q : Query) (answer : α) : Result α :=
  match p.engine q with
  | none => .ok answer
  | some (_, e) => .error e

/-! ### The checks -/

def decodeTimeSeriesType (text : String) : Result TimeSeriesType :=
  match [TimeSeriesType.singleTimeSeries, .nonSequentialTimeSeries, .deterministic,
      .deterministicSingleTimeSeries, .probabilistic, .scenarios, .persistentTimeSeries].find?
        (·.asStr = text) with
  | some t => .ok t
  | none => .error (unsupported s!"unknown time_series_type {text.quote}")

def decodeElementType (text : String) : Result ElementType :=
  match ElementType.parse text with
  | some e => .ok e
  | none => .error (unsupported s!"unknown element_type {text.quote}")

/-- The types and element types the series rows name. -/
def kinds (p : SqlitePartition) : List (String × String) :=
  (p.tables.series.map fun r => (r.2.timeSeriesType, r.2.elementType)).dedup

/-- The one type and element type of the partition, or none when both halves are empty. -/
def kind (p : SqlitePartition) : Result (Option (TimeSeriesType × ElementType)) := do
  match ← p.ask .kinds p.kinds with
  | [] =>
    let values ← p.ask .countValues p.tables.values.length
    if values = 0 then .ok none
    else
      .error (unsupported s!"{p.table .series} is empty but {p.table .values} is not; a partition's tables come from one export")
  | [(ts, et)] =>
    let tsType ← decodeTimeSeriesType ts
    let elementType ← decodeElementType et
    .ok (some (tsType, elementType))
  | _ =>
    .error (unsupported s!"{p.table .series} mixes time-series or element types; a partition holds one of each")

/-- Check that a table carries every column the layout requires of it. -/
def checkColumns (p : SqlitePartition) (tsType : TimeSeriesType) (role : Role) : Result Unit := do
  let columns ← p.ask (.columns role) (p.tables.columns role)
  let missing := (requiredColumns tsType role).filter (· ∉ columns)
  let named := ", ".intercalate missing
  if missing = [] then .ok ()
  else
    .error (unsupported s!"{p.table role} is missing column(s) a {tsType.asStr} {role.asStr} table carries: {named}")

/-- Refuse a row whose array id names no array, which a join would drop. -/
def checkDangling (p : SqlitePartition) (role : Role) (ids : List ℤ) : Result Unit := do
  match ← p.ask (.orphan role) (ids.find? fun id => (p.tables.keyOf id).isNone) with
  | some id => .error (dangling id role.asStr)
  | none => .ok ()

/-- The checks before a row is read, in the order they are made. -/
def check (p : SqlitePartition) (tsType : TimeSeriesType) : Result Unit := do
  p.checkColumns tsType .values
  p.checkColumns tsType .series
  p.checkColumns tsType .arrays
  p.checkDangling .values (p.tables.values.map (·.arrayId))
  p.checkDangling .series (p.tables.series.map Prod.fst)

/-! ### The two halves -/

/-- A group with its first value. -/
def openValues (dtype : Dtype) (row : ArrayKey × ValueRow) : ValuesGroup where
  key := row.1
  timestamps := [row.2.timestamp]
  issue := row.2.issue.toList
  lanes := row.2.lane.toList
  dims := row.2.dims
  dtype := dtype
  bytes := row.2.bytes
  zone := none

/-- A group with one more value, of the shape of the others. -/
def pushValue (group : ValuesGroup) (row : ArrayKey × ValueRow) : Result ValuesGroup :=
  if row.2.dims ≠ group.dims then
    .error (unsupported s!"two `value` cells of one array have different shapes ({group.dims} and {row.2.dims})")
  else
    .ok { group with
      timestamps := group.timestamps ++ [row.2.timestamp]
      issue := group.issue ++ row.2.issue.toList
      lanes := group.lanes ++ row.2.lane.toList
      bytes := group.bytes ++ row.2.bytes }

/-- The values groups a read answers. -/
def nextValues [SerdeJson] (p : SqlitePartition) (dtype : Dtype) : Pull TimeSeriesError ValuesGroup :=
  let rows := p.tables.joined (·.arrayId) (·.timestamp) p.tables.values
  Pull.cluster (fun row => .ok (openValues dtype row)) (fun group row => row.1 = group.key) pushValue
    none ((Pull.stopping (p.engine .values) rows).decode fun row =>
      (valueRow dtype row.2).map (row.1, ·))

/-- The series rows beside their array's key, in the order they are read. -/
def seriesRows (p : SqlitePartition) : List SeriesRow :=
  (p.tables.joined Prod.fst (·.2.id) p.tables.series).map fun row => { row.2.2 with key := row.1 }

/-- The batches of series rows a read answers. -/
def nextRows (p : SqlitePartition) : Pull TimeSeriesError SeriesBatch :=
  Pull.cluster (fun row => .ok ⟨row, []⟩) (fun batch row => row.key = batch.first.key)
    (fun batch row => .ok ⟨batch.first, batch.others ++ [row]⟩) none
    (Pull.stopping (p.engine .series) p.seriesRows)

end SqlitePartition

/-- The dtype of the leaf the `value` column is built from. -/
def ValueKind.leafDtype : ValueKind → Dtype
  | .dense dtype _ => dtype
  | .tuple _ dtype => dtype
  | .composite _ => .f64

section Reader

variable {σ γ : Type} (build : ValuesGroup → SeriesRow → Result γ)
  (sink : γ → Cmd σ TimeSeriesError Unit)

/-- Stream one partition's series into the sink, returning how many were handed over. -/
def readSqlitePartitionWith [SerdeJson] (p : SqlitePartition) : Cmd σ TimeSeriesError ℕ := do
  Cmd.ofExcept (p.ask .open ())
  match ← Cmd.ofExcept p.kind with
  | none => pure 0
  | some (tsType, elementType) => do
    Cmd.ofExcept (p.check tsType)
    mergeJoin build sink 0 (p.nextValues (ValueKind.of elementType []).leafDtype) p.nextRows

/-! ### A read as a stream -/

/-- Hand the items of a stream to the sink one after another, and count them. -/
def feed : ℕ → Pull TimeSeriesError γ → Cmd σ TimeSeriesError ℕ
  | filed, .done => pure filed
  | _, .failed e => throw e
  | filed, .item one rest => do
    sink one
    feed (filed + 1) rest

/-- The series of one key, before those of the later keys. -/
def builtBefore (held : ValuesGroup) : List SeriesRow → Pull TimeSeriesError γ → Pull TimeSeriesError γ
  | [], rest => rest
  | row :: rows, rest =>
    match build held row with
    | .error e => .failed e
    | .ok series => .item series (builtBefore held rows rest)

/-- The series a merge join builds, in order, and how it ends. -/
def merged : Pull TimeSeriesError ValuesGroup → Pull TimeSeriesError SeriesBatch → Pull TimeSeriesError γ
  | .failed e, _ => .failed e
  | .done, .failed e => .failed e
  | .item _ _, .failed e => .failed e
  | .done, .done => .done
  | .item g _, .done => .failed (unclaimed g.key)
  | .done, .item b _ => .failed (unbacked b.first.key)
  | .item g groups, .item b batches =>
    if g.key < b.first.key then .failed (unclaimed g.key)
    else if b.first.key < g.key then .failed (unbacked b.first.key)
    else builtBefore build g b.rows (merged groups batches)

/-- The series of a partition, in the order it is read. -/
def SqlitePartition.content [SerdeJson] (p : SqlitePartition) : Pull TimeSeriesError γ :=
  match p.ask .open () with
  | .error e => .failed e
  | .ok () =>
    match p.kind with
    | .error e => .failed e
    | .ok none => .done
    | .ok (some (tsType, elementType)) =>
      match p.check tsType with
      | .error e => .failed e
      | .ok () => merged build (p.nextValues (ValueKind.of elementType []).leafDtype) p.nextRows

variable {build sink}

theorem feed_builtBefore (held : ValuesGroup) (rows : List SeriesRow) (rest : Pull TimeSeriesError γ) :
    ∀ (filed : ℕ) (s : σ), (feed sink filed (builtBefore build held rows rest)).exec s =
      (do let filed ← fileRows build sink held rows filed; feed sink filed rest :
        Cmd σ TimeSeriesError ℕ).exec s := by
  induction rows with
  | nil => exact fun filed s => rfl
  | cons row rows ih =>
    intro filed s
    unfold builtBefore fileRows
    simp only [Cmd.exec_bind, Cmd.exec_ofExcept]
    cases build held row with
    | error e => rfl
    | ok series =>
      simp only [feed, Cmd.exec_bind]
      cases (sink series).exec s with
      | mk r s' =>
        cases r with
        | error e => rfl
        | ok u =>
          simp only [ih, Cmd.exec_bind]

/-- A merge join hands over the stream of what it builds. -/
theorem mergeJoin_eq_feed (groups : Pull TimeSeriesError ValuesGroup) :
    ∀ (batches : Pull TimeSeriesError SeriesBatch) (filed : ℕ) (s : σ),
      (mergeJoin build sink filed groups batches).exec s =
        (feed sink filed (merged build groups batches)).exec s := by
  induction groups with
  | failed e => exact fun batches filed s => by cases batches <;> rfl
  | done => exact fun batches filed s => by cases batches <;> rfl
  | item g groups ih =>
    intro batches filed s
    cases batches with
    | failed e => rfl
    | done => rfl
    | item b batches =>
      unfold mergeJoin merged
      split
      · rfl
      · split
        · rfl
        · rw [feed_builtBefore, Cmd.exec_bind, Cmd.exec_bind]
          cases (fileRows build sink g b.rows filed).exec s with
          | mk r s' =>
            cases r with
            | error e => rfl
            | ok n => exact ih batches n s'

/-- **A partition is read as a stream**: the series it holds go to the sink one after another, until the
stream ends or something fails. -/
theorem readSqlitePartitionWith_eq_feed [SerdeJson] (p : SqlitePartition) (s : σ) :
    (readSqlitePartitionWith build sink p).exec s = (feed sink 0 (p.content build)).exec s := by
  unfold readSqlitePartitionWith SqlitePartition.content
  simp only [Cmd.exec_bind, Cmd.exec_ofExcept]
  cases p.ask .open () with
  | error e => rfl
  | ok u =>
    cases p.kind with
    | error e => rfl
    | ok kind =>
      cases kind with
      | none => rfl
      | some k =>
        simp only [Cmd.exec_bind, Cmd.exec_ofExcept]
        cases p.check k.1 with
        | error e => rfl
        | ok u => exact mergeJoin_eq_feed _ _ 0 s

/-! ### What a read hands over -/

theorem fileRows_keeps {I : σ → Prop} (hsink : ∀ series, Cmd.Keeps I (sink series))
    (held : ValuesGroup) (rows : List SeriesRow) :
    ∀ filed, Cmd.Keeps I (fileRows build sink held rows filed) := by
  induction rows with
  | nil => exact fun filed => Cmd.keeps_pure filed
  | cons row rows ih =>
    intro filed
    apply Cmd.keeps_bind (Cmd.keeps_ofExcept _)
    intro series
    apply Cmd.keeps_bind (hsink series)
    intro _
    exact ih (filed + 1)

/-- What the sink keeps, the merge join keeps, wherever it stops. -/
theorem mergeJoin_keeps {I : σ → Prop} (hsink : ∀ series, Cmd.Keeps I (sink series))
    (groups : Pull TimeSeriesError ValuesGroup) :
    ∀ (batches : Pull TimeSeriesError SeriesBatch) (filed : ℕ),
      Cmd.Keeps I (mergeJoin build sink filed groups batches) := by
  induction groups with
  | failed e => exact fun batches filed => by cases batches <;> exact Cmd.keeps_throw e
  | done =>
    intro batches filed
    cases batches with
    | failed e => exact Cmd.keeps_throw e
    | done => exact Cmd.keeps_pure filed
    | item b batches => exact Cmd.keeps_throw _
  | item g groups ih =>
    intro batches filed
    cases batches with
    | failed e => exact Cmd.keeps_throw e
    | done => exact Cmd.keeps_throw _
    | item b batches =>
      unfold mergeJoin
      split
      · exact Cmd.keeps_throw _
      · split
        · exact Cmd.keeps_throw _
        · exact Cmd.keeps_bind (fileRows_keeps hsink g b.rows filed) (ih batches)

/-- What the sink keeps, a read keeps, wherever it stops. -/
theorem readSqlitePartitionWith_keeps [SerdeJson] {I : σ → Prop} (hsink : ∀ series, Cmd.Keeps I (sink series))
    (p : SqlitePartition) : Cmd.Keeps I (readSqlitePartitionWith build sink p) := by
  apply Cmd.keeps_bind (Cmd.keeps_ofExcept _)
  intro _
  apply Cmd.keeps_bind (Cmd.keeps_ofExcept _)
  intro kind
  cases kind with
  | none => exact Cmd.keeps_pure 0
  | some k =>
    apply Cmd.keeps_bind (Cmd.keeps_ofExcept _)
    intro _
    exact mergeJoin_keeps hsink _ _ 0

/-- No row is lost in a join when every row's array id is one of the arrays table's. -/
theorem joined_perm {ρ : Type} (t : PartitionTables) (idOf tie : ρ → ℤ) {rows : List ρ}
    (h : ∀ r ∈ rows, (t.keyOf (idOf r)).isSome) :
    ((t.joined idOf tie rows).map Prod.snd).Perm rows := by
  refine ((List.perm_insertionSort _ _).map Prod.snd).trans ?_
  rw [List.map_filterMap]
  have hsame : rows.filterMap (fun r => ((t.keyOf (idOf r)).map (·, r)).map Prod.snd) = rows := by
    conv_rhs => rw [← List.filterMap_some (l := rows)]
    apply List.filterMap_congr
    intro r hr
    obtain ⟨k, hk⟩ := Option.isSome_iff_exists.mp (h r hr)
    rw [hk]
    rfl
  rw [hsame]

theorem mem_joined {ρ : Type} {t : PartitionTables} {idOf tie : ρ → ℤ} {rows : List ρ}
    {x : ArrayKey × ρ} (h : x ∈ t.joined idOf tie rows) :
    x.2 ∈ rows ∧ t.keyOf (idOf x.2) = some x.1 := by
  have hmem := (List.perm_insertionSort _ _).mem_iff.mp h
  obtain ⟨r, hr, he⟩ := List.mem_filterMap.mp hmem
  obtain ⟨k, hk, rfl⟩ := Option.map_eq_some_iff.mp he
  exact ⟨hr, hk⟩

theorem SqlitePartition.ask_eq_ok {α : Type} {p : SqlitePartition} {q : Query} {answer a : α}
    (h : p.ask q answer = .ok a) : a = answer := by
  unfold SqlitePartition.ask at h
  cases hq : p.engine q with
  | none =>
    rw [hq] at h
    exact (Except.ok.inj h).symm
  | some x =>
    rw [hq] at h
    cases h

theorem SqlitePartition.checkDangling_ok {p : SqlitePartition} {role : Role} {ids : List ℤ}
    (h : p.checkDangling role ids = .ok ()) : ∀ id ∈ ids, (p.tables.keyOf id).isSome := by
  unfold checkDangling at h
  obtain ⟨found, hask, h⟩ := except_bind_eq_ok.mp h
  rw [ask_eq_ok hask] at h
  cases hf : ids.find? fun id => (p.tables.keyOf id).isNone with
  | some id =>
    rw [hf] at h
    cases h
  | none =>
    intro id hid
    have := List.find?_eq_none.mp hf id hid
    rw [Option.isNone_iff_eq_none] at this
    exact Option.isSome_iff_ne_none.mpr this

/-- A partition that is read as empty has no series row. -/
theorem SqlitePartition.kind_none {p : SqlitePartition} (h : p.kind = .ok none) :
    p.tables.series = [] := by
  unfold kind at h
  obtain ⟨found, hask, h⟩ := except_bind_eq_ok.mp h
  have hfound := ask_eq_ok hask
  match found, h with
  | [], _ =>
    have hnil : p.kinds = [] := hfound.symm
    unfold kinds at hnil
    rw [List.dedup_eq_nil, List.map_eq_nil_iff] at hnil
    exact hnil
  | [(ts, et)], h =>
    obtain ⟨_, -, h⟩ := except_bind_eq_ok.mp h
    obtain ⟨_, -, h⟩ := except_bind_eq_ok.mp h
    cases h
  | _ :: _ :: _, h => cases h

/-- The rows that were read are those of the series table. -/
theorem SqlitePartition.seriesRows_perm {p : SqlitePartition}
    (h : ∀ r ∈ p.tables.series, (p.tables.keyOf r.1).isSome) :
    (p.seriesRows.map SeriesRow.toSeriesCells).Perm (p.tables.series.map Prod.snd) := by
  unfold seriesRows
  rw [List.map_map]
  have := (joined_perm p.tables Prod.fst (fun r : ℤ × SeriesCells => r.2.id) h).map Prod.snd
  rwa [List.map_map] at this

theorem nextRows_rows {p : SqlitePartition} (h : p.nextRows.Finished) :
    p.nextRows.items.flatMap SeriesBatch.rows = p.seriesRows := by
  unfold SqlitePartition.nextRows at h ⊢
  have hrows : ∀ (a : SeriesRow) (g : SeriesBatch), (.ok ⟨a, []⟩ : Result SeriesBatch) = .ok g →
      g.rows = [a] := fun a g hg => by rw [← Except.ok.inj hg]; rfl
  have hpush : ∀ (g : SeriesBatch) (a : SeriesRow) (g' : SeriesBatch),
      (.ok ⟨g.first, g.others ++ [a]⟩ : Result SeriesBatch) = .ok g' → g'.rows = g.rows ++ [a] :=
    fun g a g' hg => by rw [← Except.ok.inj hg]; rfl
  obtain ⟨hfinished, hitems⟩ := Pull.cluster_items hrows hpush _ none h
  rw [hitems, Pull.items_stopping hfinished]
  rfl

/-- Every series row is beside one group. -/
theorem paired_rows {groups : List ValuesGroup} {batches : List SeriesBatch}
    (h : groups.map (·.key) = batches.map (·.first.key)) :
    (paired groups batches).map Prod.snd = batches.flatMap SeriesBatch.rows := by
  induction groups generalizing batches with
  | nil =>
    cases batches with
    | nil => rfl
    | cons b batches => cases h
  | cons g groups ih =>
    cases batches with
    | nil => cases h
    | cons b batches =>
      have hpaired : paired (g :: groups) (b :: batches) =
          b.rows.map (g, ·) ++ paired groups batches := rfl
      rw [hpaired, List.map_append, ih (List.cons.inj h).2, List.flatMap_cons]
      congr 1
      rw [List.map_map]
      exact List.map_id _

/-- The rows of a batch carry one key. -/
theorem nextRows_keys (p : SqlitePartition) :
    ∀ b ∈ p.nextRows.items, ∀ row ∈ b.rows, row.key = b.first.key := by
  unfold SqlitePartition.nextRows
  apply Pull.cluster_forall (P := fun b : SeriesBatch => ∀ row ∈ b.rows, row.key = b.first.key)
  · intro a b hb row hrow
    rw [← Except.ok.inj hb] at hrow ⊢
    rw [List.mem_singleton.mp hrow]
  · intro b a b' hP hsame hb row hrow
    rw [← Except.ok.inj hb] at hrow ⊢
    rcases List.mem_append.mp (show row ∈ b.rows ++ [a] from hrow) with hrow | hrow
    · exact hP row hrow
    · rw [List.mem_singleton.mp hrow]
      exact of_decide_eq_true hsame
  · exact fun g hg => by cases hg

/-- Every series row is beside the group of its key. -/
theorem paired_keys {groups : List ValuesGroup} {batches : List SeriesBatch}
    (h : groups.map (·.key) = batches.map (·.first.key))
    (hkeys : ∀ b ∈ batches, ∀ row ∈ b.rows, row.key = b.first.key) :
    ∀ pair ∈ paired groups batches, pair.1.key = pair.2.key := by
  intro pair hpair
  obtain ⟨gb, hgb, hmem⟩ := List.mem_flatMap.mp hpair
  obtain ⟨row, hrow, rfl⟩ := List.mem_map.mp hmem
  obtain ⟨i, hi, he⟩ := List.mem_iff_getElem.mp hgb
  rw [List.length_zip, lt_min_iff] at hi
  rw [List.getElem_zip] at he
  have hfirst : gb.1 = groups[i] := by rw [← he]
  have hsecond : gb.2 = batches[i] := by rw [← he]
  have hkey : groups[i].key = batches[i].first.key := by
    have := congrArg (·[i]?) h
    simpa [hi.1, hi.2] using this
  show gb.1.key = row.key
  rw [hkeys gb.2 (by rw [hsecond]; exact List.getElem_mem _) row hrow, hfirst, hsecond, hkey]

/-- **A read that succeeds** has built every series row once, in key order, against a group of values,
and the sink has taken every series. -/
theorem readSqlitePartitionWith_ok [SerdeJson] {p : SqlitePartition} {n : ℕ} {s s' : σ}
    (h : (readSqlitePartitionWith build sink p).exec s = (.ok n, s')) :
    ∃ pairs, pairs.map Prod.snd = p.seriesRows ∧ (∀ pair ∈ pairs, pair.1.key = pair.2.key) ∧
      (p.seriesRows.map SeriesRow.toSeriesCells).Perm (p.tables.series.map Prod.snd) ∧
      (handOver build sink pairs).exec s = (.ok (), s') := by
  unfold readSqlitePartitionWith at h
  simp only [Cmd.exec_bind, Cmd.exec_ofExcept] at h
  cases ho : p.ask .open () with
  | error e =>
    rw [ho] at h
    cases h
  | ok u =>
    rw [ho] at h
    simp only at h
    cases hk : p.kind with
    | error e =>
      rw [hk] at h
      cases h
    | ok kind =>
      rw [hk] at h
      simp only at h
      cases kind with
      | none =>
        have hnil := SqlitePartition.kind_none hk
        simp only [Cmd.exec_pure, Prod.mk.injEq] at h
        refine ⟨[], ?_, fun pair hpair => (by cases hpair), ?_, ?_⟩
        · unfold SqlitePartition.seriesRows
          rw [hnil]
          rfl
        · exact SqlitePartition.seriesRows_perm (by rw [hnil]; exact fun r hr => by cases hr)
        · rw [← h.2]
          rfl
      | some k =>
        simp only [Cmd.exec_bind, Cmd.exec_ofExcept] at h
        cases hc : p.check k.1 with
        | error e =>
          rw [hc] at h
          cases h
        | ok u =>
          rw [hc] at h
          simp only at h
          obtain ⟨-, hfinished, hkeys, -, hhand⟩ := mergeJoin_ok.mp h
          refine ⟨_, ?_, paired_keys hkeys (nextRows_keys p), ?_, hhand⟩
          · rw [paired_rows hkeys, nextRows_rows hfinished]
          · apply SqlitePartition.seriesRows_perm
            intro r hr
            unfold SqlitePartition.check at hc
            obtain ⟨_, -, hc⟩ := except_bind_eq_ok.mp hc
            obtain ⟨_, -, hc⟩ := except_bind_eq_ok.mp hc
            obtain ⟨_, -, hc⟩ := except_bind_eq_ok.mp hc
            obtain ⟨_, -, hc⟩ := except_bind_eq_ok.mp hc
            exact SqlitePartition.checkDangling_ok hc _ (List.mem_map_of_mem hr)

end Reader

end InfraStore.Tabular
