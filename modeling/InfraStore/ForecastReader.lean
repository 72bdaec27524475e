import InfraStore.StaticReader
import InfraStore.WriteBuffer

/-!
# The forecast reader

A reader of one window of many forecasts.  Forecasts that share an array and the way it is read share a
slot; a dense forecast is read a block of windows at a time and later reads inside the block are
answered from it, while the windows of derived views are read together, one run of rows each.

* `WindowRead`, `WindowSlot`: how a window is read, and one deduplicated read with its cached block;
* `gatherWindow`: one window out of a block;
* `ForecastReader.readInto`, `ForecastReader.read`: the reads, over any backend;
* `entryLayout`, `buildForecastEntries`: how a listing becomes a reader;
* `Store.buildForecastReader`, `ArrayStore.forecastRead`: the store's own.
-/

namespace InfraStore

open Lib

/-! ### Slots -/

/-- How a window is read from storage: out of a dense array along the axis of its windows, or as a run
of rows of the series a view was derived from. -/
inductive WindowRead where
  | dense (countAxis : ℕ)
  | derived (intervalSteps horizonSteps : ℕ)
  deriving DecidableEq

/-- One read of a window, with the block of windows it is served from and the bytes of the last one. -/
structure WindowSlot (H : Type) where
  hash : H
  elementType : ElementType
  windowShape : List ℕ
  read : WindowRead
  count : ℕ
  blockCols : ℕ
  /-- The windows the block holds, the last excluded. -/
  cached : Option (ℕ × ℕ)
  block : List UInt8
  buf : List UInt8
  filled : Bool
  deriving DecidableEq

/-- One window out of a block of `blockLen`, the axis of the windows inside it. -/
def gatherWindow (block : List UInt8) (windowShape : List ℕ) (countAxis blockLen lw elemSize : ℕ) :
    List UInt8 :=
  let outer := (windowShape.take countAxis).prod
  let inner := (windowShape.drop countAxis).prod * elemSize
  (List.range outer).flatMap fun o => (block.drop ((o * blockLen + lw) * inner)).take inner

/-- What a forecast reader asks of the place its arrays live in. -/
structure WindowReads (H : Type) where
  holds : H → Result Bool
  readBlock : H → Dtype → ℕ → ℕ → ℕ → StoreCmd (List UInt8) Unit
  readRanges : List (H × Dtype × ℕ × ℕ) → Result (List UInt8)

namespace WindowSlot

variable {H : Type}

def dtype (s : WindowSlot H) : Dtype := s.elementType.physicalDtype

/-- The bytes of the last window read; none before one. -/
def window (s : WindowSlot H) : List UInt8 := if s.filled then s.buf else []

/-- The windows of the block one of them lies in. -/
def blockSpan (s : WindowSlot H) (window : ℕ) : ℕ × ℕ :=
  let cols := max s.blockCols 1
  let start := window / cols * cols
  (start, min (start + cols) s.count)

/-- Whether a window would be read without asking the backend. -/
def servesFromCache (s : WindowSlot H) (window : ℕ) : Bool :=
  match s.read with
  | .dense _ => s.cached = some (s.blockSpan window)
  | .derived .. => false

/-- Drop the block and the window. -/
def forget (s : WindowSlot H) : WindowSlot H := { s with cached := none, filled := false }

/-- The rows of the series a view was derived from that make up a window. -/
def derivedSpan (s : WindowSlot H) (window : ℕ) : Option (ℕ × ℕ) :=
  match s.read with
  | .dense _ => none
  | .derived intervalSteps horizonSteps =>
    some (window * intervalSteps, window * intervalSteps + horizonSteps)

/-- The bytes of one window. -/
def windowBytes (s : WindowSlot H) : ℕ := s.windowShape.prod * s.dtype.size

def setWindow (window : List UInt8) (s : WindowSlot H) : WindowSlot H :=
  { s with buf := window, filled := true }

/-- Fill a dense slot with a window, reading its block unless that is the one held. -/
def readWindow (reads : WindowReads H) (window : ℕ) : StoreCmd (WindowSlot H) Unit := do
  let s ← get
  match s.read with
  | .derived .. => throw (.integrityError
      "read_window on a derived slot; derived windows are read in a batch")
  | .dense countAxis => do
    modify fun s => { s with filled := false }
    let span := s.blockSpan window
    if s.cached ≠ some span then
      -- A read that fails may have emptied the block, so it is given up first.
      modify fun s => { s with cached := none }
      Cmd.zoom block (fun b s => { s with block := b })
        (reads.readBlock s.hash s.dtype countAxis span.1 (span.2 - span.1))
      modify fun s => { s with cached := some span }
    modify fun s => s.setWindow
      (gatherWindow s.block s.windowShape countAxis (span.2 - span.1) (window - span.1) s.dtype.size)

/-- One slot's turn of a read: a derived slot waits for the batch, and an array whose block is held is
probed for, since the read would not notice that it is gone. -/
def turn (reads : WindowReads H) (window : ℕ) : StoreCmd (WindowSlot H) Unit := do
  let s ← get
  if (s.derivedSpan window).isNone then do
    if s.servesFromCache window then
      if !(← Cmd.ofExcept (reads.holds s.hash)) then
        modify forget
        throw .notFound
    readWindow reads window

/-- The run of rows a derived slot needs for a window, as the batch asks for it. -/
def request (s : WindowSlot H) (window : ℕ) : Option (H × Dtype × ℕ × ℕ) :=
  (s.derivedSpan window).map fun rows => (s.hash, s.dtype, rows.1, rows.2)

/-- Hand every derived slot its run of the bytes of the batch; the bytes left over, or where they ran
out. -/
def install (window : ℕ) : List (WindowSlot H) → List UInt8 → Result (List UInt8) × List (WindowSlot H)
  | [], rest => (.ok rest, [])
  | s :: slots, rest =>
    if (s.derivedSpan window).isNone then
      let r := install window slots rest
      (r.1, s :: r.2)
    else if rest.length < s.windowBytes then
      (.error (.integrityError
        "read_ranges_into returned fewer bytes than the derived windows need"), s :: slots)
    else
      let r := install window slots (rest.drop s.windowBytes)
      (r.1, s.setWindow (rest.take s.windowBytes) :: r.2)

end WindowSlot

/-! ### Readers -/

/-- The row of a forecast, and the slot its windows come from. -/
structure ForecastEntry where
  id : ℤ
  slot : ℕ
  deriving DecidableEq

/-- A prepared reader of many forecasts of one type, whose windows start at the same instants. -/
structure ForecastReader (H : Type) where
  timeSeriesType : TimeSeriesType
  timeReference : Option TimeReference
  initialTimestamp : DateTime
  resolution : Period
  interval : Period
  count : ℕ
  slots : List (WindowSlot H)
  entries : List ForecastEntry
  deriving DecidableEq

namespace ForecastReader

variable {H : Type}

/-- The window an entry exposes. -/
def entrySlot (r : ForecastReader H) (i : ℕ) : Option (WindowSlot H) :=
  (r.entries[i]?).bind fun e => r.slots[e.slot]?

/-- Empty every slot; the blocks are kept. -/
def invalidate (r : ForecastReader H) : ForecastReader H :=
  { r with slots := r.slots.map fun s => { s with filled := false } }

/-- The window that starts at an instant. -/
def windowIndex (r : ForecastReader H) (at_ : DateTime) : Result ℕ :=
  indexOnGrid r.initialTimestamp r.interval r.count at_ "forecast window"

/-- The instant a window starts at. -/
def timestampAt (r : ForecastReader H) (index : ℕ) : Result DateTime :=
  timestampOnGrid r.initialTimestamp r.interval r.count index "forecast window"

def onSlots {α : Type} (c : StoreCmd (List (WindowSlot H)) α) : StoreCmd (ForecastReader H) α :=
  Cmd.zoom slots (fun ss r => { r with slots := ss }) c

/-- Read the windows of the derived slots in one batch. -/
def readDerived (reads : WindowReads H) (window : ℕ) : StoreCmd (List (WindowSlot H)) Unit := do
  let slots ← get
  let requests := slots.filterMap fun s => s.request window
  if requests ≠ [] then do
    let bytes ← Cmd.ofExcept (reads.readRanges requests)
    let rest ← Cmd.ofExec fun slots => WindowSlot.install window slots bytes
    if rest ≠ [] then
      throw (.integrityError "read_ranges_into returned more bytes than the derived windows need")

/-- Fill every slot with the window that starts at an instant. -/
def readInto (at_ : DateTime) (reads : WindowReads H) : StoreCmd (ForecastReader H) Unit := do
  let r ← get
  let window ← Cmd.ofExcept (r.windowIndex at_)
  onSlots (Cmd.each (WindowSlot.turn reads window))
  onSlots (readDerived reads window)

/-- One read: every slot holds the window, or none holds anything. -/
def read (at_ : DateTime) (reads : WindowReads H) : StoreCmd (ForecastReader H) Unit := do
  match ← Cmd.attempt (readInto at_ reads) with
  | .ok _ => pure ()
  | .error e => do
    modify invalidate
    throw e

/-! A backend need not answer every read of one call alike: that of the slot at place `i` may be answered
by `reads i`, and the batch by those after the last slot's. -/

def readIntoBy (at_ : DateTime) (reads : ℕ → WindowReads H) : StoreCmd (ForecastReader H) Unit := do
  let r ← get
  let window ← Cmd.ofExcept (r.windowIndex at_)
  onSlots (Cmd.eachBy fun i => WindowSlot.turn (reads i) window)
  onSlots (readDerived (reads r.slots.length) window)

def readBy (at_ : DateTime) (reads : ℕ → WindowReads H) : StoreCmd (ForecastReader H) Unit := do
  match ← Cmd.attempt (readIntoBy at_ reads) with
  | .ok _ => pure ()
  | .error e => do
    modify invalidate
    throw e

theorem readIntoBy_const (at_ : DateTime) (reads : WindowReads H) :
    readIntoBy at_ (fun _ => reads) = readInto at_ reads := by
  unfold readIntoBy readInto
  simp only [Cmd.eachBy_const]

/-- A backend that answers alike every time. -/
theorem readBy_const (at_ : DateTime) (reads : WindowReads H) :
    readBy at_ (fun _ => reads) = read at_ reads := by
  unfold readBy read
  rw [readIntoBy_const]

end ForecastReader

/-- The reads of a forecast reader, as the array store answers them. -/
def ArrayStore.windowReads {H B : Type} [DecidableEq H] [ToString H] [ArrayBackend H B]
    (s : ArrayStore H B) : WindowReads H where
  holds h := .ok (s.holdsArray h)
  readBlock h d axis start len := overwrite (s.readWindowBlock h d axis start len)
  readRanges := s.readRanges

/-- Read the window at an instant of every forecast of a reader. -/
def ArrayStore.forecastRead {H B : Type} [DecidableEq H] [ToString H] [ArrayBackend H B]
    (s : ArrayStore H B) (at_ : DateTime) : StoreCmd (ForecastReader H) Unit :=
  ForecastReader.read at_ s.windowReads

/-! ### Building a reader -/

/-- The windows of one chunk of a forecast's array. -/
def windowBlockCols (dtype : Dtype) (shape : List ℕ) (countAxis : ℕ) : ℕ :=
  let axisLen := shape.getD countAxis 0
  if axisLen = 0 then 1
  else
    let windowBlock := max (saturatingMul (shape.eraseIdx countAxis).prod dtype.size) 1
    min (max (maxChunkBytes / windowBlock) 1) axisLen

/-- `Debug` of an instant. -/
def DateTime.debug (t : DateTime) : String :=
  let c := t.date
  let tod := (t.secs % 86400).toNat
  let leap := if 1000000000 ≤ t.nanos then 1 else 0
  rfc3339Year c.year ++ "-" ++ pad2 c.month.toNat ++ "-" ++ pad2 c.day.toNat ++ "T" ++
    pad2 (tod / 3600) ++ ":" ++ pad2 (tod / 60 % 60) ++ ":" ++ pad2 (tod % 60 + leap) ++
    displayNanos (t.nanos % 1000000000) ++ "Z"

/-- `Debug` of a period. -/
def Period.debug : Period → String
  | .fixed d => "Fixed(TimeDelta \x7b secs: " ++ toString (d.nanos / 1000000000) ++ ", nanos: " ++
    toString (d.nanos % 1000000000) ++ " \x7d)"
  | .months m => "Months(" ++ toString m.1 ++ ")"

section

variable {H : Type}

/-- The shape of a window and how it is read, of a forecast stored along an axis of its windows. -/
def denseLayout (m : TimeSeriesMetadata H) (shape : List ℕ) (count countAxis : ℕ) :
    Result (List ℕ × WindowRead) :=
  match shape[countAxis]? with
  | none => .error (.integrityError
    s!"forecast '{m.name}' stored shape {shape} has no count axis {countAxis}")
  | some axisLen =>
    if axisLen ≠ count then
      .error (.integrityError
        s!"forecast '{m.name}' window count {count} disagrees with stored axis length {axisLen}")
    else .ok (shape.eraseIdx countAxis, .dense countAxis)

/-- The rows between the windows of a view; a single-window view may carry a zero interval. -/
def derivedSteps (m : TimeSeriesMetadata H) (count : ℕ) (interval resolution : Period) : Result ℕ :=
  if count = 1 ∧ interval.isZero then .ok 0
  else mapErr (fun _ => .integrityError
    s!"DeterministicSingleTimeSeries '{m.name}' interval ({interval.toIso8601}) is not a multiple of resolution ({resolution.toIso8601})")
    (resolution.divideInto interval)

/-- The shape of a window and how it is read, of a view of a series of the given shape. -/
def derivedLayout (m : TimeSeriesMetadata H) (shape : List ℕ) (count : ℕ) :
    Result (List ℕ × WindowRead) := do
  let label := s!"DeterministicSingleTimeSeries '{m.name}'"
  let resolution ← required m.resolution label "resolution"
  let horizon ← required m.horizon label "horizon"
  let interval ← required m.interval label "interval"
  let h ← mapErr .integrityError (computeH horizon resolution)
  let intervalSteps ← derivedSteps m count interval resolution
  let totalLen := shape.headD 0
  let needed := (count - 1) * intervalSteps + h
  if totalLen < needed then
    .error (.integrityError
      s!"DeterministicSingleTimeSeries '{m.name}' needs {needed} underlying steps ((count-1)·interval_steps + H) but the array has {totalLen}")
  else pure (h :: shape.drop 1, .derived intervalSteps h)

/-- The shape of an entry's window and how it is read. -/
def entryLayout (m : TimeSeriesMetadata H) (shape : List ℕ) (count : ℕ) :
    Result (List ℕ × WindowRead) :=
  match m.timeSeriesType with
  | .deterministic => denseLayout m shape count 1
  | .probabilistic | .scenarios => denseLayout m shape count 2
  | .deterministicSingleTimeSeries => derivedLayout m shape count
  | other => .error (.invalidParameter
    s!"ForecastReader handles dense forecast types and DeterministicSingleTimeSeries; got {other.asStr}")

/-- The window timeline of a forecast row. -/
def forecastTimeline (m : TimeSeriesMetadata H) : Result (DateTime × Period × Period × ℕ) := do
  let label := m.timeSeriesType.asStr
  let initial ← required m.initialTimestamp label "initial_timestamp"
  let resolution ← required m.resolution label "resolution"
  let interval ← required m.interval label "interval"
  let count ← required m.count label "count"
  pure (initial, resolution, interval, count)

/-- A timeline as it reads in an error message. -/
def describeTimeline (t : DateTime × Period × Period × ℕ) : String :=
  s!"({t.1.debug}, {t.2.1.debug}, {t.2.2.1.debug}, {t.2.2.2})"

variable [DecidableEq H]

/-- Whether a slot is the one for an array read a certain way. -/
def WindowSlot.isFor (s : WindowSlot H) (hash : H) (read : WindowRead) (e : ElementType) : Bool :=
  s.hash = hash && s.read = read && s.elementType = e

/-- A fresh slot. -/
def newSlot (m : TimeSeriesMetadata H) (shape windowShape : List ℕ) (read : WindowRead) (count : ℕ) :
    WindowSlot H where
  hash := m.dataHash
  elementType := m.elementType
  windowShape := windowShape
  read := read
  count := count
  blockCols := match read with
    | .dense countAxis => windowBlockCols m.elementType.physicalDtype shape countAxis
    | .derived .. => 1
  cached := none
  block := []
  buf := []
  filled := false

/-- One forecast of a listing: its slot, shared with an earlier one or new, and its entry. -/
def addEntry (reported : TimeSeriesType) (timeline : DateTime × Period × Period × ℕ)
    (acc : List (WindowSlot H) × List ForecastEntry) (item : TimeSeriesMetadata H × List ℕ) :
    Result (List (WindowSlot H) × List ForecastEntry) := do
  let m := item.1
  if !(TypeMatch.requested reported).holds m.timeSeriesType then
    throw (.integrityError
      s!"ForecastReader for {reported.asStr} cannot hold {m.timeSeriesType.asStr} '{m.name}'")
  let tl ← forecastTimeline m
  if tl ≠ timeline then
    throw (.invalidParameter
      s!"ForecastReader requires a uniform window timeline; forecast '{m.name}' (owner {m.ownerId}) has timeline {describeTimeline tl} but the reader timeline is {describeTimeline timeline}")
  let layout ← entryLayout m item.2 timeline.2.2.2
  let id ← match m.id with
    | some id => .ok id
    | none => .error (.integrityError "a reader entry carries no catalog id")
  match acc.1.findIdx? (·.isFor m.dataHash layout.2 m.elementType) with
  | some slot => pure (acc.1, acc.2 ++ [⟨id, slot⟩])
  | none => pure (acc.1 ++ [newSlot m item.2 layout.1 layout.2 timeline.2.2.2],
      acc.2 ++ [⟨id, acc.1.length⟩])

/-- The rows of a listing, each with the shape of its array, as a reader. -/
def buildForecastEntries (reported : TimeSeriesType) (items : List (TimeSeriesMetadata H × List ℕ)) :
    Result (ForecastReader H) := do
  let sorted := items.insertionSort fun a b => (compareIdentity a.1 b.1).isLE = true
  match sorted with
  | [] => throw (.invalidParameter "build_forecast_reader: no forecasts match the filter")
  | first :: _ => do
    let timeReference ← cohortTimeReference "ForecastReader" (sorted.map Prod.fst)
    let timeline ← forecastTimeline first.1
    let built ← sorted.foldlM (addEntry reported timeline) ([], [])
    pure
      { timeSeriesType := reported
        timeReference
        initialTimestamp := timeline.1
        resolution := timeline.2.1
        interval := timeline.2.2.1
        count := timeline.2.2.2
        slots := built.1
        entries := built.2 }

end

namespace Store

variable {H B : Type} [DecidableEq H] [Sha256 H] [FloatText] [ToString H] [Glob] [ArrayBackend H B]

/-- The forecast type a reader is asked for. -/
def reportedType (filter : ListFilter) : Result TimeSeriesType :=
  match filter.timeSeriesType with
  | some t =>
    match t with
    | .deterministic | .deterministicSingleTimeSeries | .probabilistic | .scenarios => .ok t
    | other => .error (.invalidParameter
      s!"build_forecast_reader handles forecast types (Deterministic/DeterministicSingleTimeSeries/Probabilistic/Scenarios); got {other.asStr}")
  | none => .error (.invalidParameter
      "build_forecast_reader requires a forecast time_series_type in the filter")

/-- The reader over the forecasts a filter names. -/
def forecastReaderOver (db : Catalog H) (arrays : ArrayStore H B) (filter : ListFilter) :
    Result (ForecastReader H) := do
  let reported ← reportedType filter
  if filter.resolution.isNone then
    throw (.invalidParameter
      "build_forecast_reader requires a resolution filter (one resolution per reader)")
  let rows ← db.listFilter (some (ArrayBackend.getTimestamps arrays.backend))
    { filter with timeSeriesType := some reported }.toFilter
  let items ← rows.mapM fun m => (Store.arrayShape arrays m.dataHash).map fun shape => (m, shape)
  buildForecastEntries reported items

/-- `build_forecast_reader`. -/
def buildForecastReader (filter : ListFilter) : StoreCmd (Store H B) (ForecastReader H) := do
  let s ← get
  onConn (Connection.query fun db => forecastReaderOver db s.arrays filter)

end Store

end InfraStore
