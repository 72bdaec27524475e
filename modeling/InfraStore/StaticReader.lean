import InfraStore.Lib.Sorted
import InfraStore.BulkReads
import InfraStore.Grid
import InfraStore.MetadataFilter

/-!
# The static reader

A reader over many static series at once: it is built over one time axis, and each read fills one
buffer a group of columns with the value of every column at one instant.

* `Timeline`: the axis, a grid or explicit instants, or the union of several breakpoint vectors;
* `StaticGroup`, `StaticReader`: the columns of one element type and shape, and the reader;
* `StaticReader.readAt`, `StaticReader.read`: the reads, over any backend;
* `regularTimeline`, `windowTimeline`, `buildGroups`: how a listing becomes a reader;
* `Store.buildStaticReaderOver`, `ArrayStore.staticRead`: the store's own.
-/

namespace InfraStore

open Lib

/-! ### Instants on a grid -/

/-- A calendar year as RFC 3339 writes it: four digits, and a sign where they do not hold it. -/
def rfc3339Year (y : ℤ) : String :=
  let digits := toString y.natAbs
  let padded := String.ofList (List.replicate (4 - digits.length) '0') ++ digits
  if y < 0 then "-" ++ padded else if 9999 < y then "+" ++ padded else padded

/-- `to_rfc3339_opts` in whole seconds. -/
def DateTime.toRfc3339 (t : DateTime) : String :=
  let c := t.date
  let tod := (t.secs % 86400).toNat
  let leap := if 1000000000 ≤ t.nanos then 1 else 0
  rfc3339Year c.year ++ "-" ++ pad2 c.month.toNat ++ "-" ++ pad2 c.day.toNat ++ "T" ++
    pad2 (tod / 3600) ++ ":" ++ pad2 (tod / 60 % 60) ++ ":" ++ pad2 (tod % 60 + leap) ++ "Z"

/-- The place of an instant on a grid of `len` points, which it must be one of. -/
def indexOnGrid (initial : DateTime) (step : Period) (len : ℕ) (at_ : DateTime) (what : String) :
    Result ℕ :=
  if step.isZero ∧ len = 1 then
    -- A forecast of one window may have no interval; its grid is that window's start.
    if at_ = initial then .ok 0
    else .error (.invalidParameter
      s!"timestamp {at_} is off the single-point {what} grid at {initial}")
  else do
    let idx ← step.stepsBetween initial at_
    if len ≤ idx then
      .error (.invalidParameter s!"timestamp {at_} (index {idx}) is past the {what} extent ({len})")
    else pure idx

theorem indexOnGrid_lt {initial : DateTime} {step : Period} {len idx : ℕ} {at_ : DateTime} {what : String}
    (h : indexOnGrid initial step len at_ what = .ok idx) : idx < len := by
  unfold indexOnGrid at h
  split at h
  · rename_i hone
    split at h
    · cases h
      omega
    · cases h
  · obtain ⟨i, -, h⟩ := except_bind_eq_ok.mp h
    split at h
    · cases h
    · rename_i hlt
      cases h
      omega

/-- The instant at a place of a grid of `len` points. -/
def timestampOnGrid (initial : DateTime) (step : Period) (len index : ℕ) (what : String) :
    Result DateTime :=
  if len ≤ index then
    .error (.invalidParameter s!"index {index} is past the {what} extent ({len})")
  else
    match step.addTo initial index with
    | some t => .ok t
    | none => .error (.invalidParameter
      s!"timestamp at index {index} on the {what} grid is out of range")

/-! ### Time axes -/

/-- The time axis of a reader. -/
inductive Timeline where
  | regular (initial : DateTime) (resolution : Period) (length : ℕ)
  | irregular (timestamps : List DateTime)
  /-- The distinct breakpoint vectors of the columns, and the instants of all of them. -/
  | persistent (vectors : List (List DateTime)) (union : List DateTime)
  deriving DecidableEq

namespace Timeline

def length : Timeline → ℕ
  | regular _ _ length => length
  | irregular timestamps => timestamps.length
  | persistent _ union => union.length

/-- The kind of series an axis is that of. -/
def timeSeriesType : Timeline → TimeSeriesType
  | regular .. => .singleTimeSeries
  | irregular _ => .nonSequentialTimeSeries
  | persistent .. => .persistentTimeSeries

/-- The place of an instant on an axis every column shares. -/
def indexOn (t : Timeline) (at_ : DateTime) : Result ℕ :=
  match t with
  | regular initial resolution length => indexOnGrid initial resolution length at_ "grid"
  | irregular timestamps =>
    match timestamps.idxOf? at_ with
    | some k => .ok k
    | none => .error (.invalidParameter
      s!"timestamp {at_} is not on the reader's timeline (an irregular timeline has no value between its timestamps, so only the {timestamps.length} stored instants are readable)")
  | persistent .. => .error (.integrityError
      "a persistent timeline resolves a row per column, not one for the reader")

/-- The place of an instant on the reader's axis: on a persistent one, of the last instant not after
it. -/
def indexAt (t : Timeline) (at_ : DateTime) : Result ℕ :=
  match t with
  | persistent _ union =>
    match InfraStore.indexAt union at_ with
    | some k => .ok k
    | none =>
      let first := match union.head? with
        | some t => toString t
        | none => "<none>"
      .error (.invalidParameter
        s!"timestamp {at_} is before the reader's first breakpoint ({first}), where a step function is undefined")
  | t => t.indexOn at_

/-- The instant at a place of the axis. -/
def timestampAt (t : Timeline) (index : ℕ) : Result DateTime :=
  let listed (timestamps : List DateTime) : Result DateTime :=
    match timestamps[index]? with
    | some t => .ok t
    | none => .error (.invalidParameter
      s!"index {index} is past the timeline extent ({timestamps.length})")
  match t with
  | regular initial resolution length => timestampOnGrid initial resolution length index "grid"
  | irregular timestamps => listed timestamps
  | persistent _ union => listed union

end Timeline

/-- The sorted union of breakpoint vectors, each instant once. -/
def mergeBreakpoints (vectors : List (List DateTime)) : List DateTime :=
  (sortBy id vectors.flatten).destutter (· ≠ ·)

/-! ### Readers -/

/-- The columns of one element type and shape: their ids and arrays, in buffer order, and the bytes of
the last read.  The breakpoint vectors and the offsets are there for the readers that use them. -/
structure StaticGroup (H : Type) where
  elementType : ElementType
  elementShape : List ℕ
  ids : List ℤ
  hashes : List H
  vectorIds : List ℕ
  rowOffsets : List ℕ
  buf : List UInt8
  filled : Bool
  deriving DecidableEq

/-- A prepared reader of many static series. -/
structure StaticReader (H : Type) where
  timeline : Timeline
  timeReference : Option TimeReference
  groups : List (StaticGroup H)
  deriving DecidableEq

/-- A read of one row of each of a batch of arrays into a buffer. -/
abbrev RowReader (H : Type) : Type := List H → Dtype → Rows → StoreCmd (List UInt8) Unit

namespace StaticGroup

variable {H : Type}

def dtype (g : StaticGroup H) : Dtype := g.elementType.physicalDtype

/-- The bytes of the last read; none before one. -/
def values (g : StaticGroup H) : List UInt8 := if g.filled then g.buf else []

/-- Run a read on a group's buffer. -/
def intoBuf (read : StoreCmd (List UInt8) Unit) : StoreCmd (StaticGroup H) Unit :=
  Cmd.zoom buf (fun b g => { g with buf := b }) read

def setFilled (filled : Bool) : StoreCmd (StaticGroup H) Unit := modify fun g => { g with filled }

/-- Fill a group with one row of every column. -/
def fill (index : ℕ) (read : RowReader H) : StoreCmd (StaticGroup H) Unit := do
  setFilled false
  let g ← get
  intoBuf (read g.hashes g.dtype (.uniform index))
  setFilled true

/-- The row of each column of a persistent group. -/
def vectorRows (perVector : List ℕ) (vectorIds : List ℕ) : Result (List ℕ) :=
  vectorIds.mapM fun v =>
    match perVector[v]? with
    | some row => .ok row
    | none => .error (.integrityError
      s!"reader column references breakpoint vector {v}, but the timeline interned only {perVector.length}")

/-- Fill a group whose columns each lie on a breakpoint vector, given the row of each vector. -/
def fillPerVector (perVector : List ℕ) (read : RowReader H) : StoreCmd (StaticGroup H) Unit := do
  let g ← get
  let rows ← Cmd.ofExcept (vectorRows perVector g.vectorIds)
  intoBuf (read g.hashes g.dtype (.perColumn rows))
  setFilled true

/-- Fill a group whose columns each start somewhere else before the reader's anchor. -/
def fillAtOffsets (index : ℕ) (read : RowReader H) : StoreCmd (StaticGroup H) Unit := do
  let g ← get
  intoBuf (read g.hashes g.dtype (.perColumn (g.rowOffsets.map fun off => index + off)))
  setFilled true

/-- Fill a group of a reader whose columns share its axis. -/
def fillShared (index : ℕ) (read : RowReader H) : StoreCmd (StaticGroup H) Unit := do
  let g ← get
  if g.rowOffsets = [] then fill index read else fillAtOffsets index read

end StaticGroup

/-- The error of a read before a vector's first breakpoint, which names a column on the vector. -/
def beforeFirstBreakpoint {H : Type} (groups : List (StaticGroup H)) (v : ℕ)
    (breakpoints : List DateTime) (at_ : DateTime) : TimeSeriesError :=
  let first := match breakpoints.head? with
    | some t => toString t
    | none => "<none>"
  let named := groups.findSome? fun g => (g.vectorIds.idxOf? v).bind fun column => g.ids[column]?
  match named with
  | some id => .invalidParameter
    s!"timestamp {at_} is before the first breakpoint ({first}) of PersistentTimeSeries association {id}, where a step function is undefined. Start the sweep at or after that instant, or narrow the reader so it excludes that series."
  | none => .invalidParameter
    s!"timestamp {at_} is before the first breakpoint ({first}) of one of the reader's breakpoint vectors, where a step function is undefined"

namespace StaticReader

variable {H : Type}

/-- Empty every group. -/
def invalidate (r : StaticReader H) : StaticReader H :=
  { r with groups := r.groups.map fun g => { g with filled := false } }

/-- The row in force at an instant on each of a reader's breakpoint vectors. -/
def vectorIndices (groups : List (StaticGroup H)) (vectors : List (List DateTime))
    (at_ : DateTime) : Result (List ℕ) :=
  vectors.zipIdx.mapM fun x =>
    match indexAt x.1 at_ with
    | some row => .ok row
    | none => .error (beforeFirstBreakpoint groups x.2 x.1 at_)

/-- Run a command on every group in turn. -/
def onGroups (c : StoreCmd (StaticGroup H) Unit) : StoreCmd (StaticReader H) Unit :=
  Cmd.zoom groups (fun gs r => { r with groups := gs }) (Cmd.each c)

/-- Run a command of its own place on every group in turn. -/
def onGroupsBy (c : ℕ → StoreCmd (StaticGroup H) Unit) : StoreCmd (StaticReader H) Unit :=
  Cmd.zoom groups (fun gs r => { r with groups := gs }) (Cmd.eachBy c)

/-- Fill every group with the value of each of its columns at an instant. -/
def readAt (at_ : DateTime) (read : RowReader H) : StoreCmd (StaticReader H) Unit := do
  let r ← get
  match r.timeline with
  | .persistent vectors _ => do
    let perVector ← Cmd.ofExcept (vectorIndices r.groups vectors at_)
    onGroups (StaticGroup.fillPerVector perVector read)
  | timeline => do
    let index ← Cmd.ofExcept (timeline.indexOn at_)
    onGroups (StaticGroup.fillShared index read)

/-- One read: every group holds the instant, or none holds anything. -/
def read (at_ : DateTime) (rows : RowReader H) : StoreCmd (StaticReader H) Unit := do
  match ← Cmd.attempt (readAt at_ rows) with
  | .ok _ => pure ()
  | .error e => do
    modify invalidate
    throw e

/-! A backend need not answer every read of one call alike: the read of the group at place `i` may be
answered by `rows i`. -/

def readAtBy (at_ : DateTime) (rows : ℕ → RowReader H) : StoreCmd (StaticReader H) Unit := do
  let r ← get
  match r.timeline with
  | .persistent vectors _ => do
    let perVector ← Cmd.ofExcept (vectorIndices r.groups vectors at_)
    onGroupsBy fun i => StaticGroup.fillPerVector perVector (rows i)
  | timeline => do
    let index ← Cmd.ofExcept (timeline.indexOn at_)
    onGroupsBy fun i => StaticGroup.fillShared index (rows i)

def readBy (at_ : DateTime) (rows : ℕ → RowReader H) : StoreCmd (StaticReader H) Unit := do
  match ← Cmd.attempt (readAtBy at_ rows) with
  | .ok _ => pure ()
  | .error e => do
    modify invalidate
    throw e

theorem readAtBy_const (at_ : DateTime) (rows : RowReader H) :
    readAtBy at_ (fun _ => rows) = readAt at_ rows := by
  unfold readAtBy readAt onGroupsBy onGroups
  simp only [Cmd.eachBy_const]

/-- A backend that answers alike every time. -/
theorem readBy_const (at_ : DateTime) (rows : RowReader H) :
    readBy at_ (fun _ => rows) = read at_ rows := by
  unfold readBy read
  rw [readAtBy_const]

end StaticReader

/-- A read whose outcome is known, into a buffer. -/
def overwrite (r : Result (List UInt8)) : StoreCmd (List UInt8) Unit := do
  set ([] : List UInt8)
  let bytes ← Cmd.ofExcept r
  set bytes

/-- Read the value of every series of a reader at an instant. -/
def ArrayStore.staticRead {H B : Type} [DecidableEq H] [ToString H] [ArrayBackend H B]
    (s : ArrayStore H B) (at_ : DateTime) : StoreCmd (StaticReader H) Unit :=
  StaticReader.read at_ fun hashes d rows => overwrite (s.readRows hashes d rows)

/-! ### Building a reader -/

/-- What the number beside each row of a listing means to the reader built over it. -/
inductive ColumnRole where
  /-- Nothing: every column is read at the reader's own index. -/
  | shared
  /-- The breakpoint vector the column lies on. -/
  | vector
  /-- How many of the column's steps lie before the reader's anchor. -/
  | offset
  deriving DecidableEq

def debugOption : Option ℕ → String
  | none => "None"
  | some n => s!"Some({n})"

/-- A grid as it reads in an error message. -/
def describeGrid (g : DateTime × Period × ℕ) : String :=
  s!"({g.1.toRfc3339}, {g.2.1.toIso8601}, {g.2.2})"

/-- The start of a row's grid as it reads in an error message. -/
def describeGridStart : Option DateTime → String
  | some t => t.toRfc3339
  | none => "?"

section

variable {H : Type}

/-- The grid of a `SingleTimeSeries` row. -/
def gridOf (m : TimeSeriesMetadata H) : Result (DateTime × Period × ℕ) := do
  if m.timeSeriesType ≠ .singleTimeSeries then
    throw (.invalidParameter
      s!"StaticReader handles SingleTimeSeries only; got {m.timeSeriesType.asStr}")
  let initial ← required m.initialTimestamp "SingleTimeSeries" "initial_timestamp"
  let resolution ← required m.resolution "SingleTimeSeries" "resolution"
  let length ← required m.length "SingleTimeSeries" "length"
  pure (initial, resolution, length)

/-- The grid every row of a listing has. -/
def regularTimeline (rows : List (TimeSeriesMetadata H)) : Result Timeline :=
  match rows with
  | [] => .error (.invalidParameter "build_static_reader: no SingleTimeSeries match the filter")
  | first :: _ => do
    let grid ← gridOf first
    rows.forM fun r => do
      let g ← gridOf r
      if g ≠ grid then
        throw (.invalidParameter
          s!"StaticReader requires a uniform grid; series '{r.name}' (owner {r.ownerId}) has grid {describeGrid g} but the reader grid is {describeGrid grid}. Either build the reader over a window (a start, plus a length if you want one) to sweep a span they share, or filter to one grid with initial_timestamp + length.")
    pure (.regular grid.1 grid.2.1 grid.2.2)

/-- The place of a window's anchor on the grid of one row. -/
def placeAnchor (resolution : Period) (anchor : DateTime) (zonelessBound : Bool)
    (r : TimeSeriesMetadata H) : Result (TimeSeriesMetadata H × ℕ) := do
  let what := s!"series '{r.name}' (owner {r.ownerId})"
  (TimeRange.mk anchor anchor zonelessBound).checkAgainst r.timeReference what
  let initial ← match r.initialTimestamp with
    | some t => .ok t
    | none => .error (.integrityError s!"{what} is a SingleTimeSeries with no start")
  match resolution.stepsBetween initial anchor with
  | .ok offset => pure (r, offset)
  | .error _ => throw (.invalidParameter
    s!"the reader window starts at {anchor.toRfc3339}, which is not on the grid of {what} ({describeGridStart r.initialTimestamp}, {resolution.toIso8601}, {r.length.getD 0}). An anchor must fall at or after a series' start, on one of its own step boundaries.")

/-- The axis of a window over the rows of a listing, and the offset of each of them on it. -/
def windowTimeline (rows : List (TimeSeriesMetadata H)) (resolution : Period) (anchor : DateTime)
    (zonelessBound : Bool) (len : Option ℕ) :
    Result (Timeline × List (TimeSeriesMetadata H × ℕ)) := do
  if rows.isEmpty then
    throw (.invalidParameter "build_static_reader: no SingleTimeSeries match the filter")
  let placed ← rows.mapM (placeAnchor resolution anchor zonelessBound)
  let length := len.getD ((placed.map fun c => c.1.length.getD 0 - c.2).min?.getD 0)
  if length = 0 then
    let why := match len with
      | some _ => "a length of 0 reads nothing"
      | none => "at least one matched series ends there, so there is no step every column can serve"
    throw (.invalidParameter s!"the reader window at {anchor.toRfc3339} is empty: {why}")
  placed.forM fun c =>
    match c.1.initialTimestamp with
    | none => .error (.integrityError "checked above")
    | some initial =>
      if resolution.subGridIsAnchorable initial c.2 length then .ok ()
      else .error (.invalidParameter
        s!"a reader window over a {resolution.toIso8601} grid cannot be re-anchored at {anchor.toRfc3339}: series '{c.1.name}' (owner {c.1.ownerId}) starts at {initial.toRfc3339}, and stepping from the window's own anchor lands on different dates than stepping from that start. Read the series whole and slice the materialized timestamps.")
  pure (.regular anchor resolution length, placed)

/-- The spelling of an axis shared by a cohort of rows. -/
def cohortTimeReference (what : String) (rows : List (TimeSeriesMetadata H)) :
    Result (Option TimeReference) :=
  match rows.find? fun r => r.timeReference = some .zoneless,
      rows.find? fun r => r.timeReference ≠ some .zoneless with
  | some a, some b => .error (.invalidParameter
    s!"{what} requires one spelling for its timestamp axis, and the matched series disagree: '{a.name}' (owner {a.ownerId}) is zoneless while '{b.name}' (owner {b.ownerId}) records instants. Narrow the filter with ListFilter::zoneless.")
  | _, _ =>
    let first := (rows.head?.bind (·.timeReference))
    if rows.all fun r => r.timeReference = first then .ok first else .ok (some .utc)

/-- Whether a column spans the whole of the axis it is read on. -/
def checkColumn (timeline : Timeline) (role : ColumnRole) (c : TimeSeriesMetadata H × ℕ) :
    Result Unit := do
  let r := c.1
  if r.timeSeriesType ≠ timeline.timeSeriesType then
    throw (.invalidParameter
      s!"StaticReader for {timeline.timeSeriesType.asStr} cannot hold {r.timeSeriesType.asStr} '{r.name}'")
  if role = .offset then
    match timeline with
    | .regular initial resolution length =>
      let have_ := r.length.getD 0
      let step := (r.resolution.map Period.toIso8601).getD "?"
      if have_ < c.2 + length ∨ usizeBound ≤ c.2 + length then
        throw (.invalidParameter
          s!"series '{r.name}' (owner {r.ownerId}) spans ({describeGridStart r.initialTimestamp}, {step}, {have_}) and does not cover the reader window ({initial.toRfc3339}, {resolution.toIso8601}, {length}). Narrow the filter, or shorten the window.")
    | _ => throw (.integrityError "a reader window applies to a regular grid only")
  else
    let expected ← match timeline with
      | .persistent vectors _ =>
        match vectors[c.2]? with
        | some v => .ok v.length
        | none => .error (.integrityError
          s!"series '{r.name}' (owner {r.ownerId}) references breakpoint vector {c.2}, but the timeline interned only {vectors.length}")
      | t => .ok t.length
    if r.length ≠ some expected then
      let axis := match timeline with
        | .persistent .. => "its breakpoint vector has"
        | _ => "the reader timeline has"
      throw (.invalidParameter
        s!"StaticReader requires a uniform timeline; series '{r.name}' (owner {r.ownerId}) has length {debugOption r.length} but {axis} {expected}. Either build the reader over a window (a start, plus a length if you want one) to sweep a span the series share, or filter to one grid with initial_timestamp + length.")

/-! ### The order of the columns -/

/-- The place of an element type in the declaration order, its fields after it. -/
def ElementType.rank : ElementType → List ℕ
  | .scalar d => [0, d.code]
  | .tuple arity d => [1, arity, d.code]
  | .linearFunction => [2]
  | .quadraticFunction => [3]
  | .piecewiseLinear => [4]
  | .piecewiseStep => [5]

/-- `total_cmp` of doubles, every NaN taken for the same one. -/
def F64.totalRank (v : F64) : ℤ :=
  let bits := v.canonicalBits.toNat
  if 2 ^ 63 ≤ bits then -((bits - 2 ^ 63 : ℕ) : ℤ) - 1 else bits

/-- The order of feature values: by kind, then by value. -/
def FeatureValue.cmp : FeatureValue → FeatureValue → Ordering
  | .int a, .int b => compare a b
  | .float a, .float b => compare a.totalRank b.totalRank
  | .bool a, .bool b => compare a b
  | .str a, .str b => compare a b
  | a, b => compare (tag a) (tag b)
where
  tag : FeatureValue → ℕ
    | .int _ => 0
    | .float _ => 1
    | .bool _ => 2
    | .str _ => 3

/-- The lexicographic order of feature maps. -/
def compareEntries : List (String × FeatureValue) → List (String × FeatureValue) → Ordering
  | [], [] => .eq
  | [], _ :: _ => .lt
  | _ :: _, [] => .gt
  | a :: as, b :: bs => (compare a.1 b.1).then ((a.2.cmp b.2).then (compareEntries as bs))

/-- The order of rows by owner, name and features. -/
def compareIdentity (a b : TimeSeriesMetadata H) : Ordering :=
  (compare a.ownerId b.ownerId).then <|
    (compare a.ownerCategory.asStr b.ownerCategory.asStr).then <|
      (compare a.name b.name).then (compareEntries a.features.entries b.features.entries)

/-- The order of a reader's columns: by element type and shape, then by identity. -/
def compareColumns (a b : TimeSeriesMetadata H × ℕ) : Ordering :=
  (compare a.1.elementType.rank b.1.elementType.rank).then <|
    (compare a.1.elementShape b.1.elementShape).then (compareIdentity a.1 b.1)

/-! ### Groups -/

/-- Whether two columns lie in one group. -/
def sameGroup (a b : TimeSeriesMetadata H × ℕ) : Bool :=
  a.1.elementType = b.1.elementType && a.1.elementShape = b.1.elementShape

/-- The group of a run of columns of one element type and shape. -/
def groupOf (role : ColumnRole) (run : List (TimeSeriesMetadata H × ℕ)) : Result (StaticGroup H) :=
  match run with
  | [] => .error (.integrityError "group present")
  | first :: _ => do
    let ids ← run.mapM fun c =>
      match c.1.id with
      | some id => .ok id
      | none => .error (.integrityError "a reader column carries no catalog id")
    let companions := run.map Prod.snd
    pure
      { elementType := first.1.elementType
        elementShape := first.1.elementShape
        ids
        hashes := run.map fun c => c.1.dataHash
        vectorIds := if role = .vector then companions else []
        rowOffsets :=
          -- Columns that all start at the anchor are read unshifted.
          if role = .offset ∧ companions.any (· ≠ 0) then companions else []
        buf := []
        filled := false }

/-- The rows of a listing, each with its companion, as a reader over an axis. -/
def buildGroupsInner (timeline : Timeline) (rows : List (TimeSeriesMetadata H × ℕ))
    (role : ColumnRole) : Result (StaticReader H) := do
  if rows.isEmpty then
    throw (.invalidParameter
      s!"build_static_reader: no {timeline.timeSeriesType.asStr} match the filter")
  if timeline.length = 0 then
    throw (.invalidParameter
      "build_static_reader: the matched series have no timestamps to read")
  rows.forM (checkColumn timeline role)
  let timeReference ← cohortTimeReference "StaticReader" (rows.map Prod.fst)
  let sorted := rows.insertionSort fun a b => (compareColumns a b).isLE = true
  let groups ← (sorted.splitBy sameGroup).mapM (groupOf role)
  pure { timeline, timeReference, groups }

def buildGroups (timeline : Timeline) (rows : List (TimeSeriesMetadata H)) :
    Result (StaticReader H) :=
  buildGroupsInner timeline (rows.map fun r => (r, 0)) .shared

def buildGroupsPersistent (timeline : Timeline) (rows : List (TimeSeriesMetadata H × ℕ)) :
    Result (StaticReader H) := buildGroupsInner timeline rows .vector

def buildGroupsWindowed (timeline : Timeline) (rows : List (TimeSeriesMetadata H × ℕ)) :
    Result (StaticReader H) := buildGroupsInner timeline rows .offset

end

/-! ### Listings by time axis -/

namespace Catalog

variable {H : Type} [DecidableEq H] [Sha256 H] [FloatText] [ToString H]

/-- The rows of an unhydrated listing, each with the vector it names. -/
def listAxes (c : Catalog H) (required : Option Features) (wher : AssociationRow H → Bool) :
    Result (List (TimeSeriesMetadata H × Option H)) := do
  let rows := c.rows.filter wher
  let parsed ← rows.mapM AssociationRow.parse
  let features ← rows.mapM c.rowFeatures
  let out ← (rows.zip (parsed.zip ((rows.map fun _ => none).zip features))).mapM
    (hydrate required false)
  pure ((out.zip rows).filterMap fun x => x.1.map fun m => (m, x.2.timestampsHash))

/-- The distinct vectors of listed rows, in the order they are first met. -/
def cohorts (rows : List (TimeSeriesMetadata H × Option H)) : List H :=
  (rows.filterMap Prod.snd).eraseDups

variable [Glob]

/-- `list_timeline_cohorts`. -/
def listTimelineCohorts (c : Catalog H) (f : MetadataFilter H) :
    Result (List (TimeSeriesMetadata H) × List H) := do
  let rows ← c.listAxes f.features f.holds
  pure (rows.map Prod.fst, cohorts rows)

/-- The rows of a listing, each with the place of its vector among the distinct ones, and those. -/
def listTimelineRows (c : Catalog H) (vectors : H → Result (List DateTime)) (f : MetadataFilter H) :
    Result (List (TimeSeriesMetadata H × ℕ) × List (List DateTime)) := do
  let rows ← c.listAxes f.features f.holds
  let interned := cohorts rows
  let out ← rows.mapM fun x =>
    match x.2.bind (interned.idxOf? ·) with
    | some id => .ok (x.1, id)
    | none => .error (.integrityError
      s!"association '{x.1.name}' (owner {x.1.ownerId}) is a {x.1.timeSeriesType.asStr} but references no timestamp vector")
  let decoded ← interned.mapM vectors
  pure (out, decoded)

end Catalog

/-! ### The store's readers -/

namespace Store

variable {H B : Type} [DecidableEq H] [Sha256 H] [FloatText] [ToString H] [Glob] [ArrayBackend H B]

/-- Refuse the windows a static reader does not take. -/
def checkReaderWindow (tsType : TimeSeriesType) (window : ReadWindow) : Result Unit := do
  if window.count.isSome then
    throw (.invalidParameter
      "build_static_reader_over: `count` counts forecast windows; a static reader's extent is `len`, a number of timesteps")
  if window.start.isNone && window.len.isSome then
    throw (.invalidParameter
      "build_static_reader_over: a reader window needs a start. A length alone does not say where to begin, and on series that disagree about their grid there is no start to infer")
  if window.start.isSome ∧ tsType ≠ .singleTimeSeries then
    throw (.invalidParameter
      s!"build_static_reader_over takes no window for {tsType.asStr}: its timeline is the timestamp vector the series carry, not a grid to re-anchor. Build the reader and start the sweep where you mean to.")

/-- The reader over a listing of `SingleTimeSeries`, or over a window of it. -/
def buildRegularReader (db : Catalog H) (vectors : H → Result (List DateTime)) (filter : ListFilter)
    (window : ReadWindow) : Result (StaticReader H) :=
  match filter.resolution with
  | none => .error (.invalidParameter
    "build_static_reader requires a resolution filter for SingleTimeSeries (one resolution per reader)")
  | some resolution => do
    let rows ← db.listFilter (some vectors) filter.toFilter
    match window.start with
    | none => do
      let timeline ← regularTimeline rows
      buildGroups timeline rows
    | some anchor => do
      let placed ← windowTimeline rows resolution anchor window.zoneless window.len
      buildGroupsWindowed placed.1 placed.2

/-- The reader over a listing of `NonSequentialTimeSeries`, which must lie on one vector. -/
def buildIrregularReader (db : Catalog H) (vectors : H → Result (List DateTime))
    (filter : ListFilter) : Result (StaticReader H) := do
  if filter.resolution.isSome then
    throw (.invalidParameter
      "build_static_reader takes no resolution filter for NonSequentialTimeSeries: an irregular series has none, so the filter would match nothing. Its timeline is the timestamp vector its cohort shares.")
  let listed ← db.listTimelineCohorts filter.toFilter
  match listed.2 with
  | [hash] => do
    let timestamps ← vectors hash
    buildGroups (.irregular timestamps) listed.1
  | [] => throw (.invalidParameter
    "build_static_reader: no NonSequentialTimeSeries match the filter")
  | many => throw (.invalidParameter
    s!"StaticReader requires a uniform timeline; the {listed.1.length} matched NonSequentialTimeSeries lie on {many.length} different timestamp vectors. Narrow the filter (by name, owner, or features) to one of them.")

/-- The reader over a listing of `PersistentTimeSeries`, on the instants of all their vectors. -/
def buildPersistentReader (db : Catalog H) (vectors : H → Result (List DateTime))
    (filter : ListFilter) : Result (StaticReader H) := do
  if filter.resolution.isSome then
    throw (.invalidParameter
      "build_static_reader takes no resolution filter for PersistentTimeSeries: a step function has none, so the filter would match nothing. Its timeline is the union of its columns' breakpoints.")
  let listed ← db.listTimelineRows vectors filter.toFilter
  if listed.1.isEmpty then
    throw (.invalidParameter "build_static_reader: no PersistentTimeSeries match the filter")
  buildGroupsPersistent (.persistent listed.2 (mergeBreakpoints listed.2)) listed.1

/-- The reader over the series a filter names, or over a window of them. -/
def staticReaderOver (db : Catalog H) (vectors : H → Result (List DateTime)) (filter : ListFilter)
    (window : ReadWindow) : Result (StaticReader H) := do
  let tsType := filter.timeSeriesType.getD .singleTimeSeries
  let filter := { filter with timeSeriesType := some tsType }
  checkReaderWindow tsType window
  match tsType with
  | .singleTimeSeries => buildRegularReader db vectors filter window
  | .nonSequentialTimeSeries => buildIrregularReader db vectors filter
  | .persistentTimeSeries => buildPersistentReader db vectors filter
  | other => throw (.invalidParameter
    s!"build_static_reader handles the static types (SingleTimeSeries / NonSequentialTimeSeries / PersistentTimeSeries); got {other.asStr}")

/-- `build_static_reader_over`, and with the full window `build_static_reader`. -/
def buildStaticReaderOver (filter : ListFilter) (window : ReadWindow) :
    StoreCmd (Store H B) (StaticReader H) := do
  let s ← get
  onConn (Connection.query fun db =>
    staticReaderOver db (ArrayBackend.getTimestamps s.arrays.backend) filter window)

end Store

/-! ### Built readers -/

theorem buildGroupsInner_timeline {H : Type} {timeline : Timeline}
    {rows : List (TimeSeriesMetadata H × ℕ)} {role : ColumnRole} {r : StaticReader H}
    (h : buildGroupsInner timeline rows role = .ok r) : r.timeline = timeline ∧ timeline.length ≠ 0 := by
  unfold buildGroupsInner at h
  simp only at h
  split at h
  · cases h
  · split at h
    · cases h
    · rename_i hlen
      simp only [except_bind_eq_ok] at h
      obtain ⟨_, -, _, -, _, -, h⟩ := h
      cases h
      exact ⟨rfl, hlen⟩

theorem regularTimeline_ok {H : Type} {rows : List (TimeSeriesMetadata H)} {t : Timeline}
    (h : regularTimeline rows = .ok t) :
    ∃ initial resolution length, t = .regular initial resolution length := by
  unfold regularTimeline at h
  split at h
  · cases h
  · obtain ⟨grid, -, h⟩ := except_bind_eq_ok.mp h
    obtain ⟨_, -, h⟩ := except_bind_eq_ok.mp h
    cases h
    exact ⟨_, _, _, rfl⟩

theorem windowTimeline_ok {H : Type} {rows : List (TimeSeriesMetadata H)} {resolution : Period}
    {anchor : DateTime} {zoneless : Bool} {len : Option ℕ}
    {x : Timeline × List (TimeSeriesMetadata H × ℕ)}
    (h : windowTimeline rows resolution anchor zoneless len = .ok x) :
    ∃ length, x.1 = .regular anchor resolution length := by
  unfold windowTimeline at h
  simp only at h
  split at h
  · cases h
  · obtain ⟨placed, -, h⟩ := except_bind_eq_ok.mp h
    split at h
    · cases h
    · obtain ⟨_, -, h⟩ := except_bind_eq_ok.mp h
      cases h
      exact ⟨_, rfl⟩

section

variable {H : Type} [DecidableEq H] [Sha256 H] [FloatText] [ToString H] [Glob]
variable {db : Catalog H} {read : H → Result (List DateTime)} {filter : ListFilter}
  {window : ReadWindow} {r : StaticReader H}

theorem buildRegularReader_timeline (h : Store.buildRegularReader db read filter window = .ok r) :
    ∃ initial resolution length, r.timeline = .regular initial resolution length := by
  unfold Store.buildRegularReader at h
  split at h
  · cases h
  · obtain ⟨rows, -, h⟩ := except_bind_eq_ok.mp h
    split at h
    · obtain ⟨timeline, ht, h⟩ := except_bind_eq_ok.mp h
      obtain ⟨initial, resolution, length, rfl⟩ := regularTimeline_ok ht
      exact ⟨_, _, _, (buildGroupsInner_timeline h).1⟩
    · obtain ⟨placed, ht, h⟩ := except_bind_eq_ok.mp h
      obtain ⟨length, hp⟩ := windowTimeline_ok ht
      exact ⟨_, _, _, (buildGroupsInner_timeline h).1.trans hp⟩

theorem buildIrregularReader_timeline (h : Store.buildIrregularReader db read filter = .ok r) :
    ∃ timestamps, r.timeline = .irregular timestamps := by
  unfold Store.buildIrregularReader at h
  simp only at h
  split at h
  · cases h
  · obtain ⟨listed, -, h⟩ := except_bind_eq_ok.mp h
    split at h
    · obtain ⟨timestamps, -, h⟩ := except_bind_eq_ok.mp h
      exact ⟨_, (buildGroupsInner_timeline h).1⟩
    · cases h
    · cases h

theorem buildPersistentReader_timeline (h : Store.buildPersistentReader db read filter = .ok r) :
    ∃ vectors, r.timeline = .persistent vectors (mergeBreakpoints vectors) ∧
      mergeBreakpoints vectors ≠ [] := by
  unfold Store.buildPersistentReader at h
  simp only at h
  split at h
  · cases h
  · obtain ⟨listed, -, h⟩ := except_bind_eq_ok.mp h
    split at h
    · cases h
    · obtain ⟨ht, hne⟩ := buildGroupsInner_timeline h
      refine ⟨listed.2, ht, fun hnil => hne ?_⟩
      show (mergeBreakpoints listed.2).length = 0
      rw [hnil, List.length_nil]

/-- The axis of a reader of step functions is the merged one, and is not empty. -/
theorem staticReaderOver_persistent
    (h : Store.staticReaderOver db read filter window = .ok r) {vectors : List (List DateTime)}
    {union : List DateTime} (ht : r.timeline = .persistent vectors union) :
    union = mergeBreakpoints vectors ∧ union ≠ [] := by
  unfold Store.staticReaderOver at h
  obtain ⟨_, -, h⟩ := except_bind_eq_ok.mp h
  split at h
  · obtain ⟨initial, resolution, length, hr⟩ := buildRegularReader_timeline h
    rw [hr] at ht
    cases ht
  · obtain ⟨timestamps, hr⟩ := buildIrregularReader_timeline h
    rw [hr] at ht
    cases ht
  · obtain ⟨vs, hr, hne⟩ := buildPersistentReader_timeline h
    rw [hr] at ht
    cases ht
    exact ⟨rfl, hne⟩
  · cases h

end

end InfraStore
