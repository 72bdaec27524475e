import InfraStore.ArrayReads
import InfraStore.Provenance
import InfraStore.ReadBack
import InfraStore.Windows

/-!
# Stored series and their parts

What it is for a row and an array store to hold a series, what a whole read of it returns, and the
part of a series a selection of rows or windows cuts out of it.

* `ArrayStore.Stores`: the row is that of an accepted write of the series, and its array is held;
* `materialize_full`: a whole read returns the series as it was written;
* `TimeSeriesData.cut`, `TimeSeriesData.IsPart`: the rows or windows from one place on, with their
  instants and their values.
-/

namespace InfraStore

open Lib

/-! ### Parts of a series -/

/-- A dense forecast's fields, cut to `n` windows that start at `first`. -/
def ForecastFields.cut (f : ForecastFields) (axis i n : ℕ) (first : DateTime) :
    ForecastFields :=
  { f with data := f.data.slice axis i n, initialTimestamp := first, count := n }

namespace TimeSeriesData

/-- How many rows a static series has, or windows a forecast. -/
def extent : TimeSeriesData → ℕ
  | single s => s.length
  | nonSequential s => s.length
  | persistent s => s.length
  | deterministic s => s.count
  | probabilistic s => s.count
  | scenarios s => s.count

/-- The axis of the array that the rows or the windows lie along. -/
def rowAxis : TimeSeriesData → ℕ
  | single _ | nonSequential _ | persistent _ => 0
  | deterministic _ => 1
  | probabilistic _ | scenarios _ => 2

/-- The instant of a row, or of a window. -/
def instant (d : TimeSeriesData) (k : ℕ) : Option DateTime :=
  match d with
  | single s => s.resolution.addTo s.initialTimestamp k
  | nonSequential s => s.timestamps[k]?
  | persistent s => s.timestamps[k]?
  | deterministic s => s.interval.addTo s.initialTimestamp k
  | probabilistic s => s.interval.addTo s.initialTimestamp k
  | scenarios s => s.interval.addTo s.initialTimestamp k

/-- The `n` rows or windows from place `i` on, a grid of them re-anchored at `first`. -/
def cut (i n : ℕ) (first : DateTime) : TimeSeriesData → TimeSeriesData
  | single s =>
    single { s with data := s.data.slice 0 i n, initialTimestamp := first, length := n }
  | nonSequential s =>
    nonSequential
      { s with data := s.data.slice 0 i n, timestamps := (s.timestamps.drop i).take n, length := n }
  | persistent s =>
    persistent
      { s with data := s.data.slice 0 i n, timestamps := (s.timestamps.drop i).take n, length := n }
  | deterministic s => deterministic { s with toForecastFields := s.toForecastFields.cut 1 i n first }
  | probabilistic s => probabilistic { s with toForecastFields := s.toForecastFields.cut 2 i n first }
  | scenarios s => scenarios { s with toForecastFields := s.toForecastFields.cut 2 i n first }

/-- A series is the part of another that holds exactly its `n` rows or windows from place `i` on, each
with its values and its instant. -/
structure IsPart (d : TimeSeriesData) (i n : ℕ) (d' : TimeSeriesData) : Prop where
  within : i + n ≤ d.extent
  cut : ∃ first, d' = d.cut i n first
  instants : ∀ j < n, d'.instant j = d.instant (i + j)

end TimeSeriesData

/-! ### Stored series -/

/-- The resolution of a series on a grid. -/
def TimeSeriesData.resolution : TimeSeriesData → Option Period
  | .single s => some s.resolution
  | .deterministic s => some s.resolution
  | .probabilistic s => some s.resolution
  | .scenarios s => some s.resolution
  | _ => none

/-- The geometry of a dense forecast. -/
def TimeSeriesData.forecast : TimeSeriesData → Option ForecastFields
  | .deterministic s => some s.toForecastFields
  | .probabilistic s => some s.toForecastFields
  | .scenarios s => some s.toForecastFields
  | _ => none

section

variable {H : Type} [Sha256 H]

/-- A row is that of a series: each of its columns is the series' own. -/
structure TimeSeriesMetadata.RowOf (m : TimeSeriesMetadata H) (d : TimeSeriesData) : Prop where
  kind : m.timeSeriesType = d.timeSeriesType
  hash : m.dataHash = arrayHash d.fields.data
  length : m.length = some d.fields.data.length
  start : m.initialTimestamp = d.start
  resolution : m.resolution = d.resolution
  horizon : m.horizon = d.forecast.map ForecastFields.horizon
  interval : m.interval = d.forecast.map ForecastFields.interval
  count : m.count = d.forecast.map ForecastFields.count
  axis : m.timestamps = d.axis
  levels : m.percentiles = d.levels
  described (y : TypedArray) (e : ElementType) :
    m.describe (bareFields y m.name e) = { d.fields with data := y }

theorem fileSeries_grid {base : TimeSeriesMetadata H} {d : TimeSeriesData} {g : PackGroup H}
    {m : TimeSeriesMetadata H} (h : fileSeries base d = .ok (g, m))
    (hbase : base.resolution = none ∧ base.horizon = none ∧ base.interval = none ∧
      base.count = none) :
    m.resolution = d.resolution ∧ m.horizon = d.forecast.map ForecastFields.horizon ∧
      m.interval = d.forecast.map ForecastFields.interval ∧
      m.count = d.forecast.map ForecastFields.count := by
  obtain ⟨h1, h2, h3, h4⟩ := hbase
  cases d with
  | single s => cases h; exact ⟨rfl, h2, h3, h4⟩
  | nonSequential s => cases h; exact ⟨h1, h2, h3, h4⟩
  | persistent s => cases h; exact ⟨h1, h2, h3, h4⟩
  | deterministic s =>
    obtain ⟨_, -, h⟩ := except_bind_eq_ok.mp h
    cases h; exact ⟨rfl, rfl, rfl, rfl⟩
  | probabilistic s =>
    obtain ⟨_, -, h⟩ := except_bind_eq_ok.mp h
    cases h; exact ⟨rfl, rfl, rfl, rfl⟩
  | scenarios s =>
    obtain ⟨_, -, h⟩ := except_bind_eq_ok.mp h
    cases h; exact ⟨rfl, rfl, rfl, rfl⟩

/-- An accepted request is filed under the row of its series. -/
theorem buildRequestParts_rowOf [DecidableEq H] [FloatText] {item : AddRequest} {p : RequestParts H}
    (h : buildRequestParts item = .ok p) : p.metadata.RowOf item.data := by
  obtain ⟨-, -, -, -, hf, -, -⟩ := buildRequestParts_ok h
  have heq := fileSeries_eq hf
  obtain ⟨-, -, hstart, hlevels⟩ := fileSeries_columns hf rfl rfl
  obtain ⟨hres, hhor, hint, hcount⟩ := fileSeries_grid hf ⟨rfl, rfl, rfl, rfl⟩
  exact
    { kind := buildRequestParts_type h
      hash := by rw [heq]; rfl
      length := by rw [heq]; rfl
      start := hstart
      resolution := hres
      horizon := hhor
      interval := hint
      count := hcount
      axis := fileSeries_axis_eq hf rfl
      levels := hlevels
      described := fun y e => by rw [heq]; rfl }

end

/-- A series passes the checks every write makes. -/
structure TimeSeriesData.Accepted [FloatText] (d : TimeSeriesData) : Prop where
  data : validateData d = .ok ()
  element : d.fields.elementType.validateArray d.fields.data d.timeSeriesType.leadingDims = .ok ()

theorem buildRequestParts_accepted {H : Type} [Sha256 H] [FloatText] {item : AddRequest}
    {p : RequestParts H} (h : buildRequestParts item = .ok p) : item.data.Accepted := by
  obtain ⟨-, he, -, hd, -⟩ := buildRequestParts_ok h
  exact ⟨hd, he⟩

namespace TimeSeriesData.Accepted

variable [FloatText] {d : TimeSeriesData} (h : d.Accepted)
include h

theorem dtype : d.fields.elementType.physicalDtype = d.fields.data.dtype :=
  (ElementType.validateArray_dtype h.element).symm

theorem checked : d.fields.data.Checked := by
  have hd := h.data
  unfold validateData validateArrayGeometry at hd
  simp only [except_bind_eq_ok, mapErr_eq_ok] at hd
  obtain ⟨_, ⟨_, hbytes, -⟩, -⟩ := hd
  exact hbytes

theorem rank : d.timeSeriesType.leadingDims ≤ d.fields.data.shape.length :=
  ElementType.validateArray_rank h.element

theorem shape_ne_nil : d.fields.data.shape ≠ [] := by
  intro hn
  have hrank := h.rank
  have hdims : 1 ≤ d.timeSeriesType.leadingDims := by
    generalize d.timeSeriesType = t
    cases t <;> decide
  rw [hn, List.length_nil] at hrank
  omega

end TimeSeriesData.Accepted

/-- The checks of one kind's data. -/
theorem TimeSeriesData.Accepted.single [FloatText] {ss : SingleTimeSeries}
    (h : (TimeSeriesData.single ss).Accepted) :
    ss.initialTimestamp.IsMillis ∧ ss.length = ss.data.length ∧ ss.resolution.isPositive = true := by
  have hd := h.data
  unfold validateData at hd
  obtain ⟨_, -, hd⟩ := except_bind_eq_ok.mp hd
  unfold validateSingle requireMs at hd
  simp only [except_bind_eq_ok, mapErr_eq_ok] at hd
  obtain ⟨_, ⟨_, hms, -⟩, hd⟩ := hd
  split at hd
  · cases hd
  · rename_i hlen
    split at hd
    · cases hd
    · rename_i hpos
      exact ⟨requireMillisecondPrecision_ok hms, not_not.mp hlen, by simpa using hpos⟩

theorem strictlyIncreasing_iff (ts : List DateTime) :
    strictlyIncreasing ts = true ↔ ts.Pairwise (· < ·) := by
  rw [← List.isChain_iff_pairwise]
  induction ts with
  | nil => simp [strictlyIncreasing]
  | cons a ts ih =>
    cases ts with
    | nil => simp [strictlyIncreasing]
    | cons b ts =>
      rw [strictlyIncreasing, Bool.and_eq_true, decide_eq_true_iff, ih, List.isChain_cons_cons]

/-- An explicit axis that passed: in step with the rows, increasing, in whole milliseconds. -/
structure AxisOf (ts : List DateTime) (length : ℕ) (data : TypedArray) : Prop where
  rows : ts.length = data.length
  length : length = data.length
  increasing : ts.Pairwise (· < ·)
  millis : ∀ t ∈ ts, t.IsMillis

theorem validateAxis_axisOf {mismatch order label : String} {ts : List DateTime} {length : ℕ}
    {data : TypedArray} (h : validateAxis mismatch order label ts length data = .ok ()) :
    AxisOf ts length data := by
  obtain ⟨h1, h2, h3, h4⟩ := validateAxis_ok h
  exact ⟨h1, h2, (strictlyIncreasing_iff ts).mp h3, h4⟩

theorem TimeSeriesData.Accepted.nonSequential [FloatText] {s : NonSequentialTimeSeries}
    (h : (TimeSeriesData.nonSequential s).Accepted) : AxisOf s.timestamps s.length s.data := by
  have hd := h.data
  unfold validateData at hd
  obtain ⟨_, -, hd⟩ := except_bind_eq_ok.mp hd
  exact validateAxis_axisOf hd

theorem TimeSeriesData.Accepted.persistent [FloatText] {s : PersistentTimeSeries}
    (h : (TimeSeriesData.persistent s).Accepted) : AxisOf s.timestamps s.length s.data := by
  have hd := h.data
  unfold validateData at hd
  obtain ⟨_, -, hd⟩ := except_bind_eq_ok.mp hd
  exact validateAxis_axisOf hd

/-- A dense forecast that passed is anchored at a whole millisecond. -/
theorem TimeSeriesData.Accepted.forecast_millis [FloatText] {d : TimeSeriesData} {f : ForecastFields}
    (h : d.Accepted) (hf : d.forecast = some f) : f.initialTimestamp.IsMillis := by
  have hd := h.data
  unfold validateData at hd
  obtain ⟨_, -, hd⟩ := except_bind_eq_ok.mp hd
  cases d with
  | single s => cases hf
  | nonSequential s => cases hf
  | persistent s => cases hf
  | _ =>
    cases hf
    obtain ⟨_, hms, -⟩ := except_bind_eq_ok.mp hd
    unfold requireMs at hms
    obtain ⟨_, hms, -⟩ := except_bind_eq_ok.mp hms
    exact requireMillisecondPrecision_ok (mapErr_eq_ok.mp hms)

theorem TimeSeriesData.Accepted.deterministic [FloatText] {s : Deterministic}
    (h : (TimeSeriesData.deterministic s).Accepted) : s.validate = .ok () := by
  have hd := h.data
  unfold validateData at hd
  obtain ⟨_, -, hd⟩ := except_bind_eq_ok.mp hd
  obtain ⟨_, -, hd⟩ := except_bind_eq_ok.mp hd
  exact mapErr_eq_ok.mp hd

theorem TimeSeriesData.Accepted.probabilistic [FloatText] {s : Probabilistic}
    (h : (TimeSeriesData.probabilistic s).Accepted) : s.validate = .ok () := by
  have hd := h.data
  unfold validateData at hd
  obtain ⟨_, -, hd⟩ := except_bind_eq_ok.mp hd
  obtain ⟨_, -, hd⟩ := except_bind_eq_ok.mp hd
  exact mapErr_eq_ok.mp hd

theorem TimeSeriesData.Accepted.scenarios [FloatText] {s : Scenarios}
    (h : (TimeSeriesData.scenarios s).Accepted) : s.validate = .ok () := by
  have hd := h.data
  unfold validateData at hd
  obtain ⟨_, -, hd⟩ := except_bind_eq_ok.mp hd
  obtain ⟨_, -, hd⟩ := except_bind_eq_ok.mp hd
  exact mapErr_eq_ok.mp hd

/-- A row and an array store hold a series: the row is that of the series, the series passes the
checks of a write, and its array is the one held. -/
structure ArrayStore.Stores {H B : Type} [DecidableEq H] [Sha256 H] [FloatText] [ArrayBackend H B]
    [LawfulArrayBackend H B] (s : ArrayStore H B) (m : TimeSeriesMetadata H) (d : TimeSeriesData) :
    Prop where
  valid : s.Valid
  row : m.RowOf d
  accepted : d.Accepted
  held : s.content m.dataHash = some d.fields.data

/-- An accepted request whose array is held is stored, under the row it is filed with. -/
theorem ArrayStore.stores_of_parts {H B : Type} [DecidableEq H] [Sha256 H] [FloatText]
    [ArrayBackend H B] [LawfulArrayBackend H B] {s : ArrayStore H B} (hs : s.Valid) {item : AddRequest}
    {p : RequestParts H} (h : buildRequestParts item = .ok p)
    (hheld : s.content (arrayHash item.data.fields.data) = some item.data.fields.data) :
    s.Stores p.metadata item.data :=
  have hrow := buildRequestParts_rowOf h
  ⟨hs, hrow, buildRequestParts_accepted h, by rw [hrow.hash]; exact hheld⟩

namespace Store.Sample

/-- The arrays of a store that was given the series of a request. -/
def holding (item : AddRequest) : ArrayStore Digest (MemoryBackend Digest) :=
  (after [⟨.addRequests [item], []⟩]).arrays

theorem holding_stores (item : AddRequest)
    (h : (buildRequestParts (H := Digest) item).isOk = true)
    (hheld : (holding item).content (arrayHash item.data.fields.data) = some item.data.fields.data) :
    ∃ m, (holding item).Stores m item.data := by
  cases hp : buildRequestParts (H := Digest) item with
  | error e =>
    rw [hp] at h
    cases h
  | ok p => exact ⟨_, ArrayStore.stores_of_parts (after_reachable _).inv.valid hp hheld⟩

end Store.Sample

end InfraStore
