import InfraStore.Lib.Search
import InfraStore.Store

/-!
# Reading a series

How a catalog row and the array it names become a series again, whole or cut to a selection.

* `TimeRange`, `ReadWindow`: the two ways a caller names a selection, and `ReadWindow.resolve`, which
  turns the second into the first;
* `resolveWindows`: the forecast windows a range selects;
* `materializeArray`: the reconstruction of each stored kind, `materializeTimeSeries` with its
  descriptors;
* `readWindow`, `Store.readById`: a windowed read of a row, and of the row an id names.
-/

namespace InfraStore

open Lib

/-! ### Arrays, buffered or stored -/

namespace ArrayStore

variable {H B : Type} [DecidableEq H] [ToString H] [ArrayBackend H B]

def getArray (s : ArrayStore H B) (h : H) (d : Dtype) : Result TypedArray :=
  match s.buffer.get h with
  | some a => (checkDtype h a.dtype d).map fun _ => a
  | none => ArrayBackend.getArray s.backend h d

def getSlice (s : ArrayStore H B) (h : H) (d : Dtype) (start stop : ℕ) : Result TypedArray :=
  match s.buffer.get h with
  | some a => do
    checkDtype h a.dtype d
    sliceAxis a 0 start stop
  | none => ArrayBackend.getSlice s.backend h d start stop

def readWindowBlock (s : ArrayStore H B) (h : H) (d : Dtype) (countAxis windowStart len : ℕ) :
    Result (List UInt8) :=
  match s.buffer.get h with
  | some a => do
    checkDtype h a.dtype d
    writeWindowBlock a countAxis windowStart len
  | none => ArrayBackend.readWindowBlock s.backend h d countAxis windowStart len

/-- The windows `w0..w1` of a dense forecast's array: the whole array where they are all of them, and
a block of it otherwise. -/
def readForecastWindows (s : ArrayStore H B) (h : H) (d : Dtype) (shape : List ℕ)
    (countAxis w0 w1 : ℕ) : Result TypedArray :=
  if w0 = 0 ∧ w1 = shape.getD countAxis 0 then s.getArray h d
  else do
    let bytes ← s.readWindowBlock h d countAxis w0 (w1 - w0)
    mapErr .integrityError (TypedArray.new d (shape.set countAxis (w1 - w0)) bytes)

end ArrayStore

/-! ### Selections -/

/-- Whether a series answers a bound that names an instant, rather than a wall clock. -/
def TimeReference.acceptsZonedBound (reference : Option TimeReference) : Bool :=
  reference ≠ some .zoneless

/-- How an optional reference reads in an error message. -/
def TimeReference.describe : Option TimeReference → String
  | some r => r.asStorageString.quote
  | none => "unspecified"

/-- A range of instants, its end exclusive, and whether its bounds were written as wall clocks. -/
structure TimeRange where
  start : DateTime
  stop : DateTime
  zoneless : Bool
  deriving DecidableEq

/-- Refuse a bound whose spelling the series cannot answer. -/
def TimeRange.checkAgainst (r : TimeRange) (reference : Option TimeReference) (what : String) :
    Result Unit :=
  match r.zoneless, TimeReference.acceptsZonedBound reference with
  | false, true | true, false => .ok ()
  | true, true => .error (.invalidParameter
      s!"the query bounds carry no zone, but {what} records instants (time_reference {TimeReference.describe reference}); a wall clock does not name one, and the store will not guess a zone for it")
  | false, false => .error (.invalidParameter
      s!"the query bounds name an instant, but {what} is zoneless (time_reference \"zoneless\"); its timestamps are wall clocks, so there is no defined mapping from an instant onto them")

/-- The breakpoint in force at an instant: the greatest at or before it. -/
def indexAt (breakpoints : List DateTime) (at_ : DateTime) : Option ℕ :=
  match partitionPoint (fun b => decide (b ≤ at_)) breakpoints with
  | 0 => none
  | k + 1 => some k

/-- A column a kind of row cannot do without. -/
def required {α : Type} (value : Option α) (label field : String) : Result α :=
  match value with
  | some a => .ok a
  | none => .error (.integrityError s!"{label} missing {field}")

/-- Refuse a slice whose instants a re-anchored grid would not reproduce. -/
def requireAnchorableSlice (period : Period) (initial : DateTime) (offset len : ℕ)
    (name unit : String) : Result Unit :=
  if period.subGridIsAnchorable initial offset len then .ok ()
  else
    let anchor := period.addTo initial offset
    let divergence := (List.range' 1 (len - 1)).findSome? fun j => do
      let stored ← period.addTo initial ((offset + j : ℕ) : ℤ)
      let drifted ← anchor.bind fun a => period.addTo a j
      if stored ≠ drifted then some (stored, drifted) else none
    let detail := match anchor, divergence with
      | some anchor, some (stored, drifted) =>
        s!" Re-anchored at {anchor} it would report {drifted} where the series stores {stored}."
      | _, _ => ""
    .error (.invalidParameter
      s!"series {name.quote}: a {period.toIso8601} slice starting at {unit} {offset} cannot be expressed as a grid of its own. The stored grid steps from {initial}, whose day of month is clamped by shorter months, so the slice does not begin on a day that regenerates it.{detail} Read the series whole and slice the materialized timestamps, or store an explicit instant per value with NonSequentialTimeSeries.")

def endBeforeStart : TimeSeriesError := .invalidParameter "end < start"

def notWindowBoundary : TimeSeriesError :=
  .invalidParameter
    "forecast start_time must align to a window boundary (initial_timestamp + k·interval)"

/-- The instant a window starts at. -/
def windowStart (initial : DateTime) (interval : Period) (k : ℕ) : Result DateTime :=
  match interval.addTo initial k with
  | some t => .ok t
  | none => .error (.integrityError "window timestamp overflow")

/-- Whether a window starts before an instant. -/
def startsBefore (initial : DateTime) (interval : Period) (stop : DateTime) (k : ℕ) : Result Bool :=
  (windowStart initial interval k).map fun t => decide (t < stop)

/-- The window a range starts at: the first one, or the one its start is the instant of. -/
def startsAt (initial : DateTime) (interval : Period) (start : DateTime) : Result ℕ :=
  if start ≤ initial then .ok 0
  else mapErr (fun _ => notWindowBoundary) (interval.stepsBetween initial start)

/-- The window range `[w0, w1)` a time range selects, and the instant of its first window.  A start
inside the forecast must be a window boundary; one before it is clipped to the first window. -/
def resolveWindows (initial : DateTime) (interval : Period) (count : ℕ)
    (range : Option (DateTime × DateTime)) (name : String) : Result (ℕ × ℕ × DateTime) :=
  match range with
  | none => .ok (0, count, initial)
  | some (start, stop) =>
    if stop < start then .error endBeforeStart
    else if !interval.isPositive then
      if count = 1 ∧ interval.isZero then
        if initial < start then .error notWindowBoundary
        else if initial < stop then .ok (0, 1, initial)
        else .ok (0, 0, initial)
      else .error (.invalidParameter "forecast interval must be positive")
    else do
      let startK ← startsAt initial interval start
      if count ≤ startK then
        .error (.invalidParameter
          s!"forecast start_time is past the last window (resolves to window index {startK}, but only {count} window(s) are stored)")
      else do
        -- Window starts increase, so the windows before `stop` are a prefix of those from `startK`.
        let w1 ← lowerBound (startsBefore initial interval stop) count startK count
        if w1 ≤ startK then (windowStart initial interval startK).map fun t => (0, 0, t)
        else do
          requireAnchorableSlice interval initial startK (w1 - startK) name "window"
          (windowStart initial interval startK).map fun t => (startK, w1, t)

/-! ### Windows -/

/-- The slice of one row a read asks for: where to start and how much to take, in timesteps for the
static kinds and in windows for the forecasts. -/
structure ReadWindow where
  start : Option DateTime
  zoneless : Bool
  len : Option ℕ
  count : Option ℕ
  deriving DecidableEq

namespace ReadWindow

/-- The whole series. -/
def full : ReadWindow := ⟨none, false, none, none⟩

def isFull (w : ReadWindow) : Bool := w.start.isNone && w.len.isNone && w.count.isNone

/-- A forecast's extent is not a static series'. -/
def rejectCount (w : ReadWindow) (label : String) : Result Unit :=
  match w.count with
  | none => .ok ()
  | some _ => .error (.invalidParameter
      s!"count selects forecast windows and does not apply to {label}; use len")

/-- A static series' extent is not a forecast's. -/
def rejectLen (w : ReadWindow) (label : String) : Result Unit :=
  match w.len with
  | none => .ok ()
  | some _ => .error (.invalidParameter
      s!"len selects timesteps and does not apply to {label}, whose windows are selected by count")

/-- The extent to take from `startIdx`, the rest of `total` unless asked for; never zero. -/
def extent (requested : Option ℕ) (startIdx total : ℕ) (unit : String) : Result ℕ :=
  let remaining := total - startIdx
  let n := requested.getD remaining
  if n = 0 then
    .error (.invalidParameter s!"requested 0 {unit}; a read selects at least one")
  else if remaining < n then
    .error (.invalidParameter
      s!"requested {n} {unit} from index {startIdx}, past the end of the {total} stored")
  else .ok n

def windowEndOverflow : TimeSeriesError := .integrityError "window end timestamp overflow"

/-- An instant, or the overflow it stands for. -/
def windowEnd : Option DateTime → Result DateTime
  | some t => .ok t
  | none => .error windowEndOverflow

/-- One millisecond, the catalog's own resolution. -/
def oneMilli : Duration := ⟨1000000, by decide⟩

variable {H : Type}

/-- The resolved bounds, spelled as the caller spelled them, or as the series is where the caller
named no start. -/
def range (w : ReadWindow) (m : TimeSeriesMetadata H) (start stop : DateTime) : TimeRange :=
  { start
    stop
    zoneless := match w.start with
      | some _ => w.zoneless
      | none => !TimeReference.acceptsZonedBound m.timeReference }

def resolveSingle (w : ReadWindow) (m : TimeSeriesMetadata H) : Result TimeRange := do
  w.rejectCount "a SingleTimeSeries"
  let initial ← required m.initialTimestamp "SingleTimeSeries" "initial_timestamp"
  let resolution ← required m.resolution "SingleTimeSeries" "resolution"
  let length ← required m.length "SingleTimeSeries" "length"
  let start := w.start.getD initial
  let startIdx ← resolution.stepsBetween initial start
  if length ≤ startIdx then
    .error (.invalidParameter
      s!"start_time is past the last timestep (resolves to index {startIdx}, but only {length} step(s) are stored)")
  else do
    let n ← extent w.len startIdx length "timesteps"
    let stop ← windowEnd (resolution.addTo start n)
    pure (w.range m start stop)

/-- Both irregular kinds: a run of stored rows, which starts on a stored instant. -/
def resolveNonSequential (w : ReadWindow) (m : TimeSeriesMetadata H) : Result TimeRange := do
  let persistent := decide (m.timeSeriesType = .persistentTimeSeries)
  let label := m.timeSeriesType.asStr
  let vector := if persistent then "breakpoints" else "timestamps"
  w.rejectCount s!"a {label}"
  let timestamps ← required m.timestamps label vector
  let total := timestamps.length
  match timestamps[0]? with
  | none => .error (.invalidParameter s!"cannot select a window of an empty {label}")
  | some first => do
    let start := w.start.getD first
    let startIdx := partitionPoint (fun t => decide (t < start)) timestamps
    if timestamps[startIdx]? ≠ some start then
      let remedy := if persistent then
        ". Read it by time range to begin at the breakpoint in force at an arbitrary instant"
        else ""
      .error (.invalidParameter
        s!"start_time {start} is not one of this {label}' {vector}{remedy}")
    else do
      let n ← extent w.len startIdx total vector
      -- Past the last row any later bound selects the same; the catalog's resolution is used.
      let stop ← windowEnd (if startIdx + n < total then timestamps[startIdx + n]?
        else timestamps[total - 1]?.bind fun t => t.addSigned oneMilli)
      pure (w.range m start stop)

def resolveForecast (w : ReadWindow) (m : TimeSeriesMetadata H) : Result TimeRange := do
  let label := s!"a {m.timeSeriesType.asStr}"
  w.rejectLen label
  let initial ← required m.initialTimestamp label "initial_timestamp"
  let interval ← required m.interval label "interval"
  let stored ← required m.count label "count"
  let start := w.start.getD initial
  let startIdx ← if interval.isZero then
      (if start ≠ initial then .error notWindowBoundary else .ok 0)
    else interval.stepsBetween initial start
  if stored ≤ startIdx then
    .error (.invalidParameter
      s!"start_time is past the last window (resolves to window index {startIdx}, but only {stored} window(s) are stored)")
  else do
    let n ← extent w.count startIdx stored "windows"
    let stop ← windowEnd (if interval.isZero then start.addSigned oneMilli
      else interval.addTo start n)
    pure (w.range m start stop)

/-- Name the row in an error. -/
def contextualize (m : TimeSeriesMetadata H) : TimeSeriesError → TimeSeriesError
  | .invalidParameter message => .invalidParameter (context m ++ ": " ++ message)
  | .integrityError message => .integrityError (context m ++ ": " ++ message)
  | e => e
where
  context (m : TimeSeriesMetadata H) : String :=
    let association := match m.id with
      | some id => s!"association {id}"
      | none => "association with unknown id"
    s!"{association} ({m.name.quote}, owner {m.ownerId})"

/-- The time range a window names on a row's grid, none for the whole series. -/
def resolve (w : ReadWindow) (m : TimeSeriesMetadata H) : Result (Option TimeRange) :=
  if w.isFull then .ok none
  else
    let range := match m.timeSeriesType with
      | .singleTimeSeries => w.resolveSingle m
      | .nonSequentialTimeSeries | .persistentTimeSeries => w.resolveNonSequential m
      | .deterministic | .deterministicSingleTimeSeries | .probabilistic | .scenarios =>
        w.resolveForecast m
    match range with
    | .ok r => .ok (some r)
    | .error e => .error (contextualize m e)

end ReadWindow

/-! ### Series from arrays -/

/-- The fields of a series before its descriptors are filled in. -/
def bareFields (data : TypedArray) (name : String) (elementType : ElementType) : SeriesFields :=
  { data, name, elementType, units := none, quantityKind := none, unitSystem := none,
    timeReference := none, componentField := none, applicationData := none }

/-- The count and the order of an explicit axis, as the constructors of the irregular kinds check
them. -/
def checkAxis (timestamps : List DateTime) (data : TypedArray) : Except String Unit :=
  if timestamps.length ≠ data.length then
    .error s!"timestamp count {timestamps.length} does not match data length {data.length}"
  else if !strictlyIncreasing timestamps then .error "timestamps must be strictly increasing"
  else .ok ()

def NonSequentialTimeSeries.new (timestamps : List DateTime) (data : TypedArray) (name : String) :
    Except String NonSequentialTimeSeries := do
  checkAxis timestamps data
  pure { toSeriesFields := bareFields data name (.scalar data.dtype), timestamps,
         length := data.length }

def PersistentTimeSeries.new (timestamps : List DateTime) (data : TypedArray) (name : String) :
    Except String PersistentTimeSeries := do
  checkAxis timestamps data
  pure { toSeriesFields := bareFields data name (.scalar data.dtype), timestamps,
         length := data.length }

/-- The fields a dense forecast is constructed from. -/
def forecastFields (initialTimestamp : DateTime) (resolution horizon interval : Period) (count : ℕ)
    (data : TypedArray) (name : String) : ForecastFields :=
  { toSeriesFields := bareFields data name (.scalar data.dtype), initialTimestamp, resolution,
    horizon, interval, count }

def Deterministic.new (f : ForecastFields) : Except String Deterministic := do
  let out : Deterministic := { toForecastFields := f }
  out.validate
  pure out

def Probabilistic.new (f : ForecastFields) (percentiles : List F64) :
    Except String Probabilistic := do
  let out : Probabilistic := { toForecastFields := f, percentiles }
  out.validate
  pure out

def Scenarios.new (f : ForecastFields) (scenarioCount : ℕ) : Except String Scenarios := do
  let out : Scenarios := { toForecastFields := f, scenarioCount }
  out.validate
  pure out

/-- Change the fields every kind carries. -/
def TimeSeriesData.mapFields (f : SeriesFields → SeriesFields) : TimeSeriesData → TimeSeriesData
  | .single s => .single { s with toSeriesFields := f s.toSeriesFields }
  | .nonSequential s => .nonSequential { s with toSeriesFields := f s.toSeriesFields }
  | .persistent s => .persistent { s with toSeriesFields := f s.toSeriesFields }
  | .deterministic s => .deterministic { s with toSeriesFields := f s.toSeriesFields }
  | .probabilistic s => .probabilistic { s with toSeriesFields := f s.toSeriesFields }
  | .scenarios s => .scenarios { s with toSeriesFields := f s.toSeriesFields }

/-- The descriptors of a row, filled in to a series. -/
def TimeSeriesMetadata.describe {H : Type} (m : TimeSeriesMetadata H) (f : SeriesFields) :
    SeriesFields :=
  { f with
    elementType := m.elementType
    units := m.units
    quantityKind := m.quantityKind
    unitSystem := m.unitSystem
    timeReference := m.timeReference
    componentField := m.componentField
    applicationData := m.applicationData }

/-- The windows of a derived view, gathered from the source's rows `lo..`: the element of step `s` of
window `w0 + j` comes from the row `(w0 + j) * intervalSteps + s`. -/
def gatherWindows (source : List UInt8) (elemFactor h selected w0 intervalSteps lo : ℕ) :
    List UInt8 :=
  (List.range h).flatMap fun s =>
    (List.range selected).flatMap fun j =>
      let srcOff := ((w0 + j) * intervalSteps + s - lo) * elemFactor
      (source.drop srcOff).take elemFactor

section

variable {H B : Type} [DecidableEq H] [ToString H] [ArrayBackend H B]

/-- The columns of a forecast row, for the kinds that store one. -/
structure ForecastColumns where
  initial : DateTime
  resolution : Period
  horizon : Period
  interval : Period
  count : ℕ
  deriving DecidableEq

def forecastColumns (m : TimeSeriesMetadata H) (label : String) : Result ForecastColumns := do
  let initial ← required m.initialTimestamp label "initial_timestamp"
  let resolution ← required m.resolution label "resolution"
  let horizon ← required m.horizon label "horizon"
  let interval ← required m.interval label "interval"
  let count ← required m.count label "count"
  pure ⟨initial, resolution, horizon, interval, count⟩

/-- A `SingleTimeSeries`: each bound rounded outward onto the grid. -/
def materializeSingle (s : ArrayStore H B) (m : TimeSeriesMetadata H)
    (range : Option (DateTime × DateTime)) : Result TimeSeriesData := do
  let initial ← required m.initialTimestamp "SingleTimeSeries" "initial_timestamp"
  let resolution ← required m.resolution "SingleTimeSeries" "resolution"
  let length ← required m.length "SingleTimeSeries" "length"
  let series (data : TypedArray) (initial : DateTime) (length : ℕ) : TimeSeriesData :=
    .single
      { toSeriesFields := bareFields data m.name m.elementType, initialTimestamp := initial,
        resolution, length }
  match range with
  | none => do
    let data ← s.getArray m.dataHash m.elementType.physicalDtype
    pure (series data initial length)
  | some (start, stop) =>
    if stop < start then .error endBeforeStart
    else if !resolution.isPositive then .error (.invalidParameter "resolution must be positive")
    else do
      let startIdx := min (resolution.floorSteps initial start) length
      let endIdx := max (min (resolution.ceilSteps initial stop) length) startIdx
      requireAnchorableSlice resolution initial startIdx (endIdx - startIdx) m.name "timestep"
      let data ← s.getSlice m.dataHash m.elementType.physicalDtype startIdx endIdx
      match resolution.addTo initial startIdx with
      | some newInitial => pure (series data newInitial (endIdx - startIdx))
      | none => .error (.integrityError "sliced initial overflow")

/-- An irregular kind: the stored rows `select` picks, on the part of the axis they lie on. -/
def materializeIrregular (s : ArrayStore H B) (m : TimeSeriesMetadata H)
    (range : Option (DateTime × DateTime)) (prefetched : Option TypedArray) (vector : String)
    (select : List DateTime → DateTime → DateTime → Result (ℕ × ℕ))
    (new : List DateTime → TypedArray → String → Except String TimeSeriesData) :
    Result TimeSeriesData := do
  let label := m.timeSeriesType.asStr
  let timestamps ← required m.timestamps label vector
  let length ← required m.length label "length"
  if timestamps.length ≠ length then
    .error (.integrityError
      s!"{label} has {timestamps.length} {vector} but length {length}")
  else
    match range with
    | none => do
      let data ← match prefetched with
        | some data => .ok data
        | none => s.getArray m.dataHash m.elementType.physicalDtype
      mapErr .integrityError (new timestamps data m.name)
    | some (start, stop) =>
      if stop < start then .error endBeforeStart
      else do
        let rows ← select timestamps start stop
        let data ← s.getSlice m.dataHash m.elementType.physicalDtype rows.1 rows.2
        mapErr .integrityError (new ((timestamps.drop rows.1).take (rows.2 - rows.1)) data m.name)

/-- The rows whose instants lie in a range. -/
def selectInstants (timestamps : List DateTime) (start stop : DateTime) : Result (ℕ × ℕ) :=
  .ok (partitionPoint (fun t => decide (t < start)) timestamps,
    partitionPoint (fun t => decide (t < stop)) timestamps)

/-- The rows of a step function over a range: from the breakpoint in force at its start. -/
def selectBreakpoints (m : TimeSeriesMetadata H) (timestamps : List DateTime)
    (start stop : DateTime) : Result (ℕ × ℕ) :=
  if stop = start then
    -- A range of no width holds no instant to carry a value to.
    let at_ := partitionPoint (fun t => decide (t < start)) timestamps
    .ok (at_, at_)
  else
    match indexAt timestamps start with
    | some k => .ok (k, partitionPoint (fun t => decide (t < stop)) timestamps)
    | none =>
      let first := match timestamps.head? with
        | some t => toString t
        | none => "<none>"
      .error (.invalidParameter
        s!"PersistentTimeSeries {m.name.quote} on owner {m.ownerId} has no value at the range start {start}: it is before the first breakpoint {first}, where a step function is undefined")

/-- A dense forecast whose leading axes are `axes h`, the last of them its windows. -/
def materializeForecast (s : ArrayStore H B) (m : TimeSeriesMetadata H)
    (range : Option (DateTime × DateTime)) (label : String) (countAxis : ℕ) (shape : List ℕ)
    (c : ForecastColumns) (axes : ℕ → List ℕ)
    (new : ForecastFields → Except String TimeSeriesData) : Result TimeSeriesData := do
  let h ← mapErr .integrityError (computeH c.horizon c.resolution)
  validateForecastShape shape (axes h) label
  let windows ← resolveWindows c.initial c.interval c.count range m.name
  let data ← s.readForecastWindows m.dataHash m.elementType.physicalDtype shape countAxis windows.1
    windows.2.1
  mapErr .integrityError (new (forecastFields windows.2.2 c.resolution c.horizon c.interval
    (windows.2.1 - windows.1) data m.name))

def materializeDeterministic (s : ArrayStore H B) (m : TimeSeriesMetadata H)
    (range : Option (DateTime × DateTime)) : Result TimeSeriesData := do
  let shape ← Store.arrayShape s m.dataHash
  let c ← forecastColumns m "Deterministic"
  materializeForecast s m range "Deterministic" 1 shape c (fun h => [h, c.count])
    fun f => (Deterministic.new f).map .deterministic

def materializeProbabilistic (s : ArrayStore H B) (m : TimeSeriesMetadata H)
    (range : Option (DateTime × DateTime)) : Result TimeSeriesData := do
  let shape ← Store.arrayShape s m.dataHash
  let c ← forecastColumns m "Probabilistic"
  let percentiles ← required m.percentiles "Probabilistic" "percentiles"
  materializeForecast s m range "Probabilistic" 2 shape c
    (fun h => [percentiles.length, h, c.count])
    fun f => (Probabilistic.new f percentiles).map .probabilistic

def materializeScenarios (s : ArrayStore H B) (m : TimeSeriesMetadata H)
    (range : Option (DateTime × DateTime)) : Result TimeSeriesData := do
  let shape ← Store.arrayShape s m.dataHash
  let c ← forecastColumns m "Scenarios"
  let _ ← mapErr .integrityError (computeH c.horizon c.resolution)
  if shape.length < 3 then
    .error (.integrityError s!"Scenarios: stored shape {shape} must have at least 3 dims")
  else
    materializeForecast s m range "Scenarios" 2 shape c
      (fun h => [shape.headD 0, h, c.count])
      fun f => (Scenarios.new f (shape.headD 0)).map .scenarios

/-- The rows between the windows of a derived view; a single-window view may carry a zero interval. -/
def intervalStepsOf (c : ForecastColumns) : Result ℕ :=
  if c.count = 1 ∧ c.interval.isZero then .ok 0
  else mapErr (fun _ => .integrityError
    s!"DeterministicSingleTimeSeries: interval ({c.interval.toIso8601}) is not an integer multiple of resolution ({c.resolution.toIso8601})")
    (c.resolution.divideInto c.interval)

/-- A derived view: the windows are resolved first and only the rows they cover are read. -/
def materializeDerived (s : ArrayStore H B) (m : TimeSeriesMetadata H)
    (range : Option (DateTime × DateTime)) : Result TimeSeriesData := do
  let dtype := m.elementType.physicalDtype
  let fullShape ← Store.arrayShape s m.dataHash
  let c ← forecastColumns m "DeterministicSingleTimeSeries"
  let h ← mapErr .integrityError (computeH c.horizon c.resolution)
  let intervalSteps ← intervalStepsOf c
  let totalLen := fullShape.headD 0
  let needed := (c.count - 1) * intervalSteps + h
  if totalLen < needed then
    .error (.integrityError
      s!"DeterministicSingleTimeSeries: (count-1)*interval_steps+H = {needed} exceeds total_len = {totalLen}")
  else do
    let elemShape := fullShape.drop 1
    let elemFactor := elemShape.prod * dtype.size
    let windows ← resolveWindows c.initial c.interval c.count range m.name
    let selected := windows.2.1 - windows.1
    let lo := windows.1 * intervalSteps
    let hi := if selected = 0 then lo else (windows.2.1 - 1) * intervalSteps + h
    let arr ← s.getSlice m.dataHash dtype lo hi
    let bytes := gatherWindows arr.bytes elemFactor h selected windows.1 intervalSteps lo
    let out ← mapErr .integrityError (TypedArray.new dtype (h :: selected :: elemShape) bytes)
    mapErr .integrityError ((Deterministic.new (forecastFields windows.2.2 c.resolution c.horizon
      c.interval selected out m.name)).map .deterministic)

/-- The bounds of a range spelled the way a row is; a mismatch is refused before any arithmetic. -/
def checkedBounds (m : TimeSeriesMetadata H) : Option TimeRange →
    Result (Option (DateTime × DateTime))
  | none => .ok none
  | some r =>
    match r.checkAgainst m.timeReference s!"{m.name.quote} on owner {m.ownerId}" with
    | .ok _ => .ok (some (r.start, r.stop))
    | .error e => .error e

/-- Rebuild the series of a row, its descriptors unset, from its array or the part of it a range
selects.  `prefetched` is the whole array of an irregular kind, where a bulk read has it already. -/
def materializeArray (s : ArrayStore H B) (m : TimeSeriesMetadata H) (range : Option TimeRange)
    (prefetched : Option TypedArray) : Result TimeSeriesData := do
  let bounds ← checkedBounds m range
  match m.timeSeriesType with
  | .singleTimeSeries => materializeSingle s m bounds
  | .nonSequentialTimeSeries =>
    materializeIrregular s m bounds prefetched "timestamps" selectInstants
      fun timestamps data name => (NonSequentialTimeSeries.new timestamps data name).map .nonSequential
  | .persistentTimeSeries =>
    materializeIrregular s m bounds prefetched "breakpoints" (selectBreakpoints m)
      fun timestamps data name => (PersistentTimeSeries.new timestamps data name).map .persistent
  | .deterministic => materializeDeterministic s m bounds
  | .probabilistic => materializeProbabilistic s m bounds
  | .scenarios => materializeScenarios s m bounds
  | .deterministicSingleTimeSeries => materializeDerived s m bounds

/-- The series of a row, as its write declared it. -/
def materializeTimeSeries (s : ArrayStore H B) (m : TimeSeriesMetadata H)
    (range : Option TimeRange) : Result TimeSeriesData :=
  (materializeArray s m range none).map fun d => d.mapFields m.describe

/-- The part of a row's series a window names. -/
def readWindow (s : ArrayStore H B) (m : TimeSeriesMetadata H) (w : ReadWindow) :
    Result TimeSeriesData := do
  let range ← w.resolve m
  materializeTimeSeries s m range

end

namespace Store

variable {H B : Type} [DecidableEq H] [Sha256 H] [ToString H] [FloatText] [ArrayBackend H B]

/-- Read the series an id names, of the expected owner if one is given, or the part of it a window
names. -/
def readById (id : ℤ) (expectedOwner : Option (ℤ × OwnerCategory)) (w : ReadWindow) :
    StoreCmd (Store H B) TimeSeriesData := do
  let s ← get
  let found ← onConn (Connection.query fun db =>
    db.getById (ArrayBackend.getTimestamps s.arrays.backend) id)
  match found with
  | none => throw .notFound
  | some m => do
    match expectedOwner with
    | some (owner, category) =>
      if m.ownerId ≠ owner ∨ m.ownerCategory ≠ category then
        throw (.ownerMismatch id owner category.asStr m.ownerId m.ownerCategory.asStr)
    | none => pure ()
    Cmd.ofExcept (readWindow s.arrays m w)

end Store

end InfraStore
