import InfraStore.Series
import Mathlib.Data.List.Forall2

/-!
# Validating a write and filing it

What `build_request_parts` does to one `AddRequest`: every invariant a write must hold, checked at the
one boundary each write passes, and the catalog row, hash, pool and layout the series is filed under.

* `validateData`: the array's geometry and the per-kind rules;
* `buildRequestParts`: the request's `RequestParts`, or the first rule it breaks;
* `buildRequestParts_ok`: what an accepted request has satisfied.
-/

namespace InfraStore

/-! ### Validation -/

/-- The initial timestamp of a grid: whole milliseconds, within the four-digit years. -/
def requireMs (t : DateTime) (label : String) : Result Unit := do
  mapErr .invalidParameter (requireMillisecondPrecision t s!"{label} initial_timestamp")
  if 0 ≤ t.date.year ∧ t.date.year ≤ 9999 then .ok ()
  else .error (.invalidParameter
    s!"{label} initial_timestamp {t} is outside years 0000-9999, which the catalog cannot record")

/-- The buffer and the shape describe the same array, and no element dimension is empty. -/
def validateArrayGeometry (a : TypedArray) (tsType : TimeSeriesType) : Result Unit := do
  mapErr (fun e => .invalidParameter s!"{tsType.asStr}: {e}") a.checkBytes
  if 0 ∈ a.shape.drop tsType.leadingDims then
    .error (.invalidParameter
      s!"{tsType.asStr}: array shape {a.shape} has a zero-width element dimension; every dimension after the {tsType.leadingDims} layout axes must be at least 1")
  else .ok ()

/-- A `SingleTimeSeries` describes its own array, on a grid the store can represent. -/
def validateSingle (s : SingleTimeSeries) : Result Unit := do
  requireMs s.initialTimestamp "SingleTimeSeries"
  if s.length ≠ s.data.length then
    .error (.invalidParameter
      s!"SingleTimeSeries declares length {s.length} but its array holds {s.data.length} time steps")
  else if !s.resolution.isPositive then
    .error (.invalidParameter
      s!"SingleTimeSeries resolution {s.resolution.toIso8601} is not a positive whole number of milliseconds; the store cannot represent it")
  else .ok ()

/-- Strictly increasing, as a check on neighbours. -/
def strictlyIncreasing : List DateTime → Bool
  | [] => true
  | [_] => true
  | a :: b :: rest => a < b && strictlyIncreasing (b :: rest)

/-- The millisecond rule on every timestamp, each named by its index. -/
def requireMsAll (label : String) : ℕ → List DateTime → Result Unit
  | _, [] => .ok ()
  | i, t :: ts => do
    mapErr .invalidParameter (requireMillisecondPrecision t s!"{label} {i}")
    requireMsAll label (i + 1) ts

/-- The rules of an explicit time axis: it agrees with the array, increases strictly and is in whole
milliseconds.  The two irregular kinds differ in their messages alone. -/
def validateAxis (mismatch order label : String) (timestamps : List DateTime) (length : ℕ)
    (data : TypedArray) : Result Unit :=
  if timestamps.length ≠ data.length ∨ length ≠ data.length then
    .error (.invalidParameter mismatch)
  else if !strictlyIncreasing timestamps then .error (.invalidParameter order)
  else requireMsAll label 0 timestamps

def validateNonSequential (s : NonSequentialTimeSeries) : Result Unit :=
  validateAxis "timestamp count, length, and data length must match"
    "timestamps must be strictly increasing" "NonSequentialTimeSeries timestamp" s.timestamps
    s.length s.data

def validatePersistent (s : PersistentTimeSeries) : Result Unit :=
  validateAxis "PersistentTimeSeries breakpoint count, length, and data length must match"
    "PersistentTimeSeries breakpoints must be strictly increasing" "PersistentTimeSeries breakpoint"
    s.timestamps s.length s.data

/-- The error's text, as `to_string` spells it. -/
def TimeSeriesError.text : TimeSeriesError → String
  | .notFound => "time series not found"
  | .ownerMismatch id eid ecat aid acat =>
    s!"association {id} belongs to owner {aid} ({acat}), not to the expected owner {eid} ({ecat})"
  | .duplicateTimeSeries => "a time series with the same key already exists"
  | .duplicateAssociationId id =>
    s!"association id {id} is already in use; explicit ids can only be supplied above the catalog's high-water mark, so a document's own ids fit a fresh store but not one that has already assigned ids of its own"
  | .duplicateAssociation msg => s!"duplicate association: {msg}"
  | .invalidParameter msg => s!"invalid parameter: {msg}"
  | .integrityError msg => s!"integrity check failed: {msg}"
  | .readOnlyStore => "store is read-only"
  | .connectionError msg => s!"connection error: {msg}"
  | .sqlite msg => s!"sqlite error: {msg}"
  | .serialization msg => s!"serialization error: {msg}"
  | .catalogMigrationRequired found expected =>
    s!"the store's catalog is at revision {found}, but this build writes revision {expected}; open the store once for writing (for example with the `infrastore` CLI) to upgrade it in place, then retry this read-only open"
  | .catalogTooNew found expected =>
    s!"the store's catalog is at revision {found}, which is newer than the revision {expected} this build understands; it was written by a newer infrastore and must not be opened by this one"
  | .mismatchedArtifact h5 other =>
    s!"the HDF5 file and its catalog do not carry the same generation stamp (HDF5: {h5}, catalog: {other}); they are halves of two different saves, most likely because a save was interrupted between writing the two files or because one of them was copied, replaced, or created without the other"
  | .io msg => s!"io error: {msg}"

/-- The window length `H` of a forecast. -/
def computeH (horizon resolution : Period) : Except String ℕ :=
  match resolution.divideInto horizon with
  | .ok h => .ok h
  | .error e => .error e.text

/-- The periods of a dense forecast: positive, but for the interval of at most one window. -/
def validateForecastPeriods (f : ForecastFields) : Except String Unit :=
  if !f.resolution.isPositive then .error "resolution must be strictly positive"
  else if !f.horizon.isPositive then .error "horizon must be strictly positive"
  else if !(f.interval.isPositive || (f.count ≤ 1 && f.interval.isZero)) then
    .error "interval must be strictly positive (zero is allowed only for a forecast with at most one window)"
  else .ok ()

def Deterministic.validate (d : Deterministic) : Except String Unit := do
  validateForecastPeriods d.toForecastFields
  let h ← computeH d.horizon d.resolution
  if d.data.shape.length < 2 then
    .error s!"Deterministic: shape {d.data.shape} must have at least 2 dims [H, count]"
  else
    let expected := [h, d.count] ++ d.data.shape.drop 2
    if d.data.shape ≠ expected then
      .error s!"Deterministic: expected shape {expected}, got {d.data.shape}"
    else .ok ()

def Probabilistic.validate (p : Probabilistic) : Except String Unit := do
  validateForecastPeriods p.toForecastFields
  if p.percentiles = [] then .error "Probabilistic: percentiles must be non-empty"
  else if !p.percentiles.all F64.isFinite then .error "Probabilistic: percentiles must be finite"
  else if (p.percentiles.zip p.percentiles.tail).any (fun pair => pair.1.ge pair.2) then
    .error "Probabilistic: percentiles must be strictly increasing"
  else
    let h ← computeH p.horizon p.resolution
    if p.data.shape.length < 3 then
      .error s!"Probabilistic: shape {p.data.shape} must have at least 3 dims [P, H, count]"
    else
      let expected := [p.percentiles.length, h, p.count] ++ p.data.shape.drop 3
      if p.data.shape ≠ expected then
        .error s!"Probabilistic: expected shape {expected} (percentiles={p.percentiles.length}, H={h}, count={p.count}), got {p.data.shape}"
      else .ok ()

def Scenarios.validate (s : Scenarios) : Except String Unit := do
  validateForecastPeriods s.toForecastFields
  let h ← computeH s.horizon s.resolution
  let expected := [s.scenarioCount, h, s.count] ++ s.data.shape.drop 3
  if s.data.shape ≠ expected then
    .error s!"Scenarios: expected shape {expected} (scenario_count={s.scenarioCount}, H={h}, count={s.count}), got {s.data.shape}"
  else .ok ()

/-- Every invariant a write must hold, for every addable kind. -/
def validateData (d : TimeSeriesData) : Result Unit := do
  validateArrayGeometry d.fields.data d.timeSeriesType
  match d with
  | .single s => validateSingle s
  | .nonSequential s => validateNonSequential s
  | .persistent s => validatePersistent s
  | .deterministic s => do
    requireMs s.initialTimestamp "Deterministic"
    mapErr .invalidParameter s.validate
  | .probabilistic s => do
    requireMs s.initialTimestamp "Probabilistic"
    mapErr .invalidParameter s.validate
  | .scenarios s => do
    requireMs s.initialTimestamp "Scenarios"
    mapErr .invalidParameter s.validate

/-- Whether a period spans a day or more. -/
def isCalendarScale : Period → Bool
  | .months m => m.1 ≠ 0
  | .fixed d => 86400000 ≤ d.numMilliseconds.natAbs

/-- The grid steps of a series, each with the field it comes from. -/
def calendarPeriods : TimeSeriesData → List (String × Period)
  | .single s => [("resolution", s.resolution)]
  | .nonSequential _ | .persistent _ => []
  | .deterministic s => [("resolution", s.resolution), ("interval", s.interval)]
  | .probabilistic s => [("resolution", s.resolution), ("interval", s.interval)]
  | .scenarios s => [("resolution", s.resolution), ("interval", s.interval)]

/-- A declared time reference is well formed, and a named zone spells no grid of a day or more. -/
def validateTimeReference (d : TimeSeriesData) : Result Unit :=
  match d.fields.timeReference with
  | none => .ok ()
  | some reference => do
    reference.validate
    match reference with
    | .zone _ =>
      match (calendarPeriods d).find? fun p => isCalendarScale p.2 with
      | none => .ok ()
      | some (field, period) =>
        .error (.invalidParameter
          s!"series {d.fields.name.quote}: a {period.toIso8601} {field} cannot be combined with the time reference {reference}. A period of a day or more is a span of instants, so on a zone that observes daylight saving it drifts away from the local clock it looks like -- a daily grid from local midnight lands an hour earlier after each transition, and a monthly one steps the UTC calendar. Either build it from the timeline you have (SingleTimeSeries::from_timestamps, which infers the period and proves the instants lie on it), or store an explicit instant per value with NonSequentialTimeSeries. Sub-daily periods are unaffected: an hourly grid in a DST zone is exactly the local clock.")
    | _ => .ok ()

/-- A stored shape begins with the expected dims. -/
def validateForecastShape (shape expectedPrefix : List ℕ) (label : String) : Result Unit :=
  if shape.length < expectedPrefix.length then
    .error (.integrityError
      s!"{label}: stored shape {shape} has fewer dims than expected prefix {expectedPrefix}")
  else
    match (shape.zip expectedPrefix).findIdx? fun d => d.1 ≠ d.2 with
    | none => .ok ()
    | some i =>
      let exp := expectedPrefix.getD i 0
      let got := shape.getD i 0
      .error (.integrityError
        s!"{label}: stored shape {shape} mismatch at dim {i}: expected {exp}, got {got}")

/-- At the add boundary a shape mismatch is the caller's. -/
def asInvalidParameter {α : Type} : Result α → Result α
  | .error (.integrityError msg) => .error (.invalidParameter msg)
  | r => r

/-- A forecast's shape begins with its leading axes, `H` computed from its periods. -/
def validateForecastLayout (f : ForecastFields) (axes : ℕ → List ℕ) (label : String) :
    Result Unit := do
  let h ← mapErr .invalidParameter (computeH f.horizon f.resolution)
  asInvalidParameter (validateForecastShape f.data.shape (axes h) label)

def validateDeterministic (d : Deterministic) : Result Unit :=
  validateForecastLayout d.toForecastFields (fun h => [h, d.count]) "Deterministic"

def validateProbabilistic (p : Probabilistic) : Result Unit :=
  validateForecastLayout p.toForecastFields (fun h => [p.percentiles.length, h, p.count])
    "Probabilistic"

def validateScenarios (s : Scenarios) : Result Unit :=
  validateForecastLayout s.toForecastFields (fun h => [s.scenarioCount, h, s.count]) "Scenarios"

/-- The element type a request writes, validated against its array. -/
def resolveElementType [FloatText] (item : AddRequest) : Result ElementType := do
  let declared := item.data.fields.elementType
  declared.validateArray item.data.fields.data item.data.timeSeriesType.leadingDims
  pure declared

/-! ### Filing a request -/

/-- The physical layout a kind of series is stored in. -/
def arrayLayoutFor : TimeSeriesType → ArrayLayout
  | .singleTimeSeries | .deterministicSingleTimeSeries => .packed
  | .nonSequentialTimeSeries | .persistentTimeSeries => .packed
  | .deterministic => .standaloneWindowed 1
  | .probabilistic | .scenarios => .standaloneWindowed 2

/-- One request, ready to be written: the array's hash, its pool and layout, and the catalog row. -/
structure RequestParts (H : Type) where
  hash : H
  group : PackGroup H
  layout : ArrayLayout
  metadata : TimeSeriesMetadata H
  deriving DecidableEq

section

variable {H : Type} [Sha256 H]

/-- The row fields every kind fills the same way. -/
def baseMetadata (item : AddRequest) (elementType : ElementType) : TimeSeriesMetadata H :=
  let f := item.data.fields
  { ownerId := item.ownerId
    ownerType := item.ownerType
    ownerCategory := item.ownerCategory
    timeSeriesType := item.data.timeSeriesType
    name := f.name
    dataHash := arrayHash f.data
    initialTimestamp := none
    resolution := none
    length := some f.data.length
    horizon := none
    interval := none
    count := none
    timestamps := none
    features := item.features
    units := f.units
    quantityKind := f.quantityKind
    unitSystem := f.unitSystem
    timeReference := f.timeReference
    componentField := f.componentField
    percentiles := none
    elementType := elementType
    elementShape := f.data.elementShape
    applicationData := f.applicationData
    id := none }

/-- A row with a dense forecast's geometry. -/
def TimeSeriesMetadata.withForecast (base : TimeSeriesMetadata H) (f : ForecastFields) :
    TimeSeriesMetadata H :=
  { base with
    initialTimestamp := some f.initialTimestamp
    resolution := some f.resolution
    horizon := some f.horizon
    interval := some f.interval
    count := some f.count }

/-- The pool and the row of a series, whose kind's last checks may still fail. -/
def fileSeries (base : TimeSeriesMetadata H) :
    TimeSeriesData → Result (PackGroup H × TimeSeriesMetadata H)
  | .single s => .ok (.regular s.resolution,
      { base with initialTimestamp := some s.initialTimestamp, resolution := some s.resolution })
  | .nonSequential s =>
    .ok (.irregular (timestampsHash s.timestamps), { base with timestamps := some s.timestamps })
  | .persistent s =>
    .ok (.irregular (timestampsHash s.timestamps), { base with timestamps := some s.timestamps })
  | .deterministic s => do
    validateDeterministic s
    pure (.regular s.resolution, base.withForecast s.toForecastFields)
  | .probabilistic s => do
    validateProbabilistic s
    pure (.regular s.resolution,
      { base.withForecast s.toForecastFields with percentiles := some s.percentiles })
  | .scenarios s => do
    validateScenarios s
    pure (.regular s.resolution, base.withForecast s.toForecastFields)

/-- Validate one request and file it. -/
def buildRequestParts [FloatText] (item : AddRequest) : Result (RequestParts H) := do
  validateFeatures item.features
  let elementType ← resolveElementType item
  validateTimeReference item.data
  validateData item.data
  let filed ← fileSeries (baseMetadata item elementType) item.data
  pure
    { hash := arrayHash item.data.fields.data
      group := filed.1
      layout := arrayLayoutFor item.data.timeSeriesType
      metadata := filed.2 }

end

/-! ### What an accepted request has satisfied -/

theorem except_bind_eq_ok {ε α β : Type} {c : Except ε α} {f : α → Except ε β} {b : β} :
    (c >>= f) = .ok b ↔ ∃ a, c = .ok a ∧ f a = .ok b := by
  cases c with
  | error e =>
    constructor
    · intro h
      cases h
    · rintro ⟨a, h, -⟩
      cases h
  | ok a =>
    constructor
    · intro h
      exact ⟨a, rfl, h⟩
    · rintro ⟨a', h, h'⟩
      cases h
      exact h'

/-- A traversal that succeeds has succeeded at every element. -/
theorem mapM_ok {ε α β : Type} {f : α → Except ε β} {as : List α} {bs : List β}
    (h : as.mapM f = .ok bs) : as.length = bs.length ∧ ∀ p ∈ as.zip bs, f p.1 = .ok p.2 := by
  induction as generalizing bs with
  | nil =>
    cases h
    exact ⟨rfl, fun _ h => (List.not_mem_nil h).elim⟩
  | cons a as ih =>
    rw [List.mapM_cons] at h
    obtain ⟨b, hb, h⟩ := except_bind_eq_ok.mp h
    obtain ⟨bs', hbs, h⟩ := except_bind_eq_ok.mp h
    cases h
    obtain ⟨hl, hz⟩ := ih hbs
    refine ⟨by rw [List.length_cons, List.length_cons, hl], fun p hp => ?_⟩
    rw [List.zip_cons_cons] at hp
    rcases List.mem_cons.mp hp with rfl | hp
    · exact hb
    · exact hz p hp

/-- Every result of a traversal is an element's. -/
theorem mapM_origin {ε α β : Type} {f : α → Except ε β} {as : List α} {bs : List β}
    (h : as.mapM f = .ok bs) {b : β} (hb : b ∈ bs) : ∃ a ∈ as, f a = .ok b := by
  obtain ⟨hlen, hz⟩ := mapM_ok h
  obtain ⟨i, hi⟩ := List.getElem?_of_mem hb
  have hlt : i < as.length := by
    rw [hlen]
    exact (List.getElem?_eq_some_iff.mp hi).1
  exact ⟨as[i], List.getElem_mem hlt, hz (as[i], b) (List.mem_of_getElem? (i := i)
    (List.getElem?_zip_eq_some.mpr ⟨List.getElem?_eq_getElem hlt, hi⟩))⟩

/-- Every element of a traversal has a result. -/
theorem mapM_covers {ε α β : Type} {f : α → Except ε β} {as : List α} {bs : List β}
    (h : as.mapM f = .ok bs) {a : α} (ha : a ∈ as) : ∃ b ∈ bs, f a = .ok b := by
  obtain ⟨hlen, hz⟩ := mapM_ok h
  obtain ⟨i, hi⟩ := List.getElem?_of_mem ha
  have hlt : i < bs.length := by
    rw [← hlen]
    exact (List.getElem?_eq_some_iff.mp hi).1
  exact ⟨bs[i], List.getElem_mem hlt, hz (a, bs[i]) (List.mem_of_getElem? (i := i)
    (List.getElem?_zip_eq_some.mpr ⟨hi, List.getElem?_eq_getElem hlt⟩))⟩

/-- A traversal succeeds with the results of its elements. -/
theorem mapM_eq_ok {ε α β : Type} {f : α → Except ε β} {as : List α} {bs : List β} :
    as.mapM f = .ok bs ↔ List.Forall₂ (fun a b => f a = .ok b) as bs := by
  induction as generalizing bs with
  | nil =>
    rw [List.mapM_nil, List.forall₂_nil_left_iff]
    constructor
    · intro h
      cases h
      rfl
    · rintro rfl
      rfl
  | cons a as ih =>
    rw [List.mapM_cons]
    constructor
    · intro h
      obtain ⟨b, hb, h⟩ := except_bind_eq_ok.mp h
      obtain ⟨bs', hbs, h⟩ := except_bind_eq_ok.mp h
      cases h
      exact .cons hb (ih.mp hbs)
    · intro h
      cases h with
      | cons hb hbs => exact except_bind_eq_ok.mpr ⟨_, hb, except_bind_eq_ok.mpr ⟨_, ih.mpr hbs, rfl⟩⟩

/-- A traversal succeeds when every element does. -/
theorem exists_mapM_eq_ok {ε α β : Type} {f : α → Except ε β} {as : List α} :
    (∃ bs, as.mapM f = .ok bs) ↔ ∀ a ∈ as, ∃ b, f a = .ok b := by
  constructor
  · rintro ⟨bs, h⟩ a ha
    obtain ⟨b, -, hb⟩ := mapM_covers h ha
    exact ⟨b, hb⟩
  · intro h
    induction as with
    | nil => exact ⟨[], rfl⟩
    | cons a as ih =>
      obtain ⟨b, hb⟩ := h a List.mem_cons_self
      obtain ⟨bs, hbs⟩ := ih fun x hx => h x (List.mem_cons_of_mem _ hx)
      exact ⟨b :: bs, mapM_eq_ok.mpr (.cons hb (mapM_eq_ok.mp hbs))⟩

/-- The periods of a dense forecast that pass. -/
theorem validateForecastPeriods_ok {f : ForecastFields} (h : validateForecastPeriods f = .ok ()) :
    f.resolution.isPositive = true ∧ f.horizon.isPositive = true ∧
      (f.interval.isPositive = true ∨ (f.count ≤ 1 ∧ f.interval.isZero = true)) := by
  unfold validateForecastPeriods at h
  split at h
  · cases h
  · rename_i hres
    split at h
    · cases h
    · rename_i hhor
      split at h
      · cases h
      · rename_i hint
        simp only [Bool.not_eq_true', Bool.not_eq_false] at hres hhor hint
        rw [Bool.or_eq_true, Bool.and_eq_true, decide_eq_true_iff] at hint
        exact ⟨hres, hhor, hint⟩

variable {H : Type} [Sha256 H]

/-- A series is filed as its base, but for the fields its kind fills. -/
theorem fileSeries_eq {base : TimeSeriesMetadata H} {d : TimeSeriesData} {g : PackGroup H}
    {m : TimeSeriesMetadata H} (h : fileSeries base d = .ok (g, m)) :
    m = { base with
      initialTimestamp := m.initialTimestamp
      resolution := m.resolution
      horizon := m.horizon
      interval := m.interval
      count := m.count
      timestamps := m.timestamps
      percentiles := m.percentiles } := by
  cases d with
  | single s => cases h; rfl
  | nonSequential s => cases h; rfl
  | persistent s => cases h; rfl
  | deterministic s =>
    obtain ⟨_, -, h⟩ := except_bind_eq_ok.mp h
    cases h; rfl
  | probabilistic s =>
    obtain ⟨_, -, h⟩ := except_bind_eq_ok.mp h
    cases h; rfl
  | scenarios s =>
    obtain ⟨_, -, h⟩ := except_bind_eq_ok.mp h
    cases h; rfl

/-- The row a series is filed under keeps the hash and the kind of its base. -/
theorem fileSeries_base {base : TimeSeriesMetadata H} {d : TimeSeriesData} {g : PackGroup H}
    {m : TimeSeriesMetadata H} (h : fileSeries base d = .ok (g, m)) :
    m.dataHash = base.dataHash ∧ m.timeSeriesType = base.timeSeriesType ∧ m.id = base.id ∧
      m.features = base.features := by
  rw [fileSeries_eq h]
  exact ⟨rfl, rfl, rfl, rfl⟩

/-- A row's explicit axis is the one its pool is named by; a row of a regular pool has none. -/
def PackGroup.NamesAxis (g : PackGroup H) (m : TimeSeriesMetadata H) : Prop :=
  match g with
  | .irregular t => ∃ ts, m.timestamps = some ts ∧ t = timestampsHash ts
  | .regular _ => m.timestamps = none

theorem fileSeries_axis {base : TimeSeriesMetadata H} {d : TimeSeriesData} {g : PackGroup H}
    {m : TimeSeriesMetadata H} (hbase : base.timestamps = none)
    (h : fileSeries base d = .ok (g, m)) : g.NamesAxis m := by
  cases d with
  | single s => cases h; exact hbase
  | nonSequential s => cases h; exact ⟨_, rfl, rfl⟩
  | persistent s => cases h; exact ⟨_, rfl, rfl⟩
  | deterministic s =>
    obtain ⟨_, -, h⟩ := except_bind_eq_ok.mp h
    cases h; exact hbase
  | probabilistic s =>
    obtain ⟨_, -, h⟩ := except_bind_eq_ok.mp h
    cases h; exact hbase
  | scenarios s =>
    obtain ⟨_, -, h⟩ := except_bind_eq_ok.mp h
    cases h; exact hbase

variable [FloatText]

/-- **Accepted requests.**  A request that is filed has passed every check, and its parts are the
ones its series is filed under. -/
theorem buildRequestParts_ok {item : AddRequest} {p : RequestParts H}
    (h : buildRequestParts item = .ok p) :
    validateFeatures item.features = .ok () ∧
    item.data.fields.elementType.validateArray item.data.fields.data
      item.data.timeSeriesType.leadingDims = .ok () ∧
    validateTimeReference item.data = .ok () ∧
    validateData item.data = .ok () ∧
    fileSeries (baseMetadata item item.data.fields.elementType) item.data
      = .ok (p.group, p.metadata) ∧
    p.hash = arrayHash item.data.fields.data ∧
    p.layout = arrayLayoutFor item.data.timeSeriesType := by
  unfold buildRequestParts resolveElementType at h
  simp only [except_bind_eq_ok] at h
  obtain ⟨_, h1, et, ⟨_, h2, he⟩, _, h3, _, h4, filed, h5, h⟩ := h
  cases he
  cases h
  exact ⟨h1, h2, h3, h4, h5, rfl, rfl⟩

/-- An accepted request's row names the array's hash. -/
theorem buildRequestParts_hash {item : AddRequest} {p : RequestParts H}
    (h : buildRequestParts item = .ok p) : p.metadata.dataHash = p.hash := by
  obtain ⟨-, -, -, -, hf, hh, -⟩ := buildRequestParts_ok h
  rw [(fileSeries_base hf).1, hh]
  rfl

/-- An accepted request's row is of the request's kind, which is never a derived view. -/
theorem buildRequestParts_type {item : AddRequest} {p : RequestParts H}
    (h : buildRequestParts item = .ok p) :
    p.metadata.timeSeriesType = item.data.timeSeriesType := by
  obtain ⟨-, -, -, -, hf, -, -⟩ := buildRequestParts_ok h
  rw [(fileSeries_base hf).2.1]
  rfl

/-- An accepted request's row carries the axis its pool is named by. -/
theorem buildRequestParts_axis {item : AddRequest} {p : RequestParts H}
    (h : buildRequestParts item = .ok p) : p.group.NamesAxis p.metadata := by
  obtain ⟨-, -, -, -, hf, -, -⟩ := buildRequestParts_ok h
  exact fileSeries_axis rfl hf

omit [FloatText] in
theorem fileSeries_irregular {base : TimeSeriesMetadata H} {d : TimeSeriesData} {g : PackGroup H}
    {m : TimeSeriesMetadata H} (h : fileSeries base d = .ok (g, m)) {t : H} (hg : g = .irregular t) :
    d.timeSeriesType.isIrregular = true := by
  cases d with
  | single s => cases h; cases hg
  | nonSequential s => rfl
  | persistent s => rfl
  | deterministic s =>
    obtain ⟨_, -, h⟩ := except_bind_eq_ok.mp h
    cases h; cases hg
  | probabilistic s =>
    obtain ⟨_, -, h⟩ := except_bind_eq_ok.mp h
    cases h; cases hg
  | scenarios s =>
    obtain ⟨_, -, h⟩ := except_bind_eq_ok.mp h
    cases h; cases hg

/-- Only an irregular series is pooled by an explicit axis. -/
theorem buildRequestParts_irregular {item : AddRequest} {p : RequestParts H}
    (h : buildRequestParts item = .ok p) {t : H} (hg : p.group = .irregular t) :
    p.metadata.timeSeriesType.isIrregular = true := by
  obtain ⟨-, -, -, -, hf, -, -⟩ := buildRequestParts_ok h
  rw [buildRequestParts_type h]
  exact fileSeries_irregular hf hg

omit [FloatText] in
theorem fileSeries_timestamps {base : TimeSeriesMetadata H} {d : TimeSeriesData} {g : PackGroup H}
    {m : TimeSeriesMetadata H} (h : fileSeries base d = .ok (g, m))
    (hirr : d.timeSeriesType.isIrregular = true) : m.timestamps.isSome := by
  cases d with
  | single s => cases hirr
  | nonSequential s => cases h; rfl
  | persistent s => cases h; rfl
  | deterministic s => cases hirr
  | probabilistic s => cases hirr
  | scenarios s => cases hirr

/-- An irregular series is filed with its time axis. -/
theorem buildRequestParts_timestamps {item : AddRequest} {p : RequestParts H}
    (h : buildRequestParts item = .ok p) (hirr : p.metadata.timeSeriesType.isIrregular = true) :
    p.metadata.timestamps.isSome := by
  obtain ⟨-, -, -, -, hf, -, -⟩ := buildRequestParts_ok h
  rw [buildRequestParts_type h] at hirr
  exact fileSeries_timestamps hf hirr

/-- An accepted request's array is well formed and has a time axis. -/
theorem buildRequestParts_geometry {item : AddRequest} {p : RequestParts H}
    (h : buildRequestParts item = .ok p) :
    item.data.fields.data.WellFormed ∧ item.data.fields.data.shape ≠ [] := by
  obtain ⟨-, he, -, hd, -⟩ := buildRequestParts_ok h
  have hrank := ElementType.validateArray_rank he
  have hdims : 1 ≤ item.data.timeSeriesType.leadingDims := by
    generalize item.data.timeSeriesType = t
    cases t <;> decide
  unfold validateData validateArrayGeometry at hd
  simp only [except_bind_eq_ok, mapErr_eq_ok] at hd
  obtain ⟨_, ⟨_, hbytes, -⟩, -⟩ := hd
  refine ⟨TypedArray.wellFormed_of_checkBytes hbytes, fun hn => ?_⟩
  rw [hn, List.length_nil] at hrank
  omega

omit [FloatText] in
/-- Every timestamp of a checked axis is a whole number of milliseconds. -/
theorem requireMsAll_ok {label : String} {ts : List DateTime} :
    ∀ {i : ℕ}, requireMsAll label i ts = .ok () → ∀ t ∈ ts, t.IsMillis := by
  induction ts with
  | nil => exact fun _ t h => (List.not_mem_nil h).elim
  | cons t ts ih =>
    intro i h
    unfold requireMsAll at h
    simp only [except_bind_eq_ok, mapErr_eq_ok] at h
    obtain ⟨_, h1, h2⟩ := h
    intro t' ht'
    rcases List.mem_cons.mp ht' with rfl | ht'
    · exact requireMillisecondPrecision_ok h1
    · exact ih h2 t' ht'

omit [FloatText] in
/-- What a checked axis satisfies. -/
theorem validateAxis_ok {mismatch order label : String} {ts : List DateTime} {length : ℕ}
    {data : TypedArray} (h : validateAxis mismatch order label ts length data = .ok ()) :
    ts.length = data.length ∧ length = data.length ∧ strictlyIncreasing ts = true ∧
      ∀ t ∈ ts, t.IsMillis := by
  unfold validateAxis at h
  split at h
  · cases h
  · rename_i h1
    split at h
    · cases h
    · rename_i h2
      simp only [ne_eq, not_or, not_not] at h1
      exact ⟨h1.1, h1.2, by simpa using h2, requireMsAll_ok h⟩

/-- An accepted request's explicit axis is in whole milliseconds. -/
theorem buildRequestParts_millis {item : AddRequest} {p : RequestParts H}
    (h : buildRequestParts item = .ok p) {ts : List DateTime} (hts : p.metadata.timestamps = some ts) :
    ∀ t ∈ ts, t.IsMillis := by
  obtain ⟨-, -, -, hd, hf, -⟩ := buildRequestParts_ok h
  unfold validateData at hd
  obtain ⟨_, -, hd⟩ := except_bind_eq_ok.mp hd
  have hnone : ∀ {m : TimeSeriesMetadata H}, m = p.metadata → m.timestamps = none → False := by
    rintro m rfl hm
    rw [hm] at hts
    cases hts
  rcases hdata : item.data with s | s | s | s | s | s <;> rw [hdata] at hd hf
  · exact (hnone (Prod.mk.inj (Except.ok.inj hf)).2 rfl).elim
  · rw [← (Prod.mk.inj (Except.ok.inj hf)).2] at hts
    cases hts
    exact (validateAxis_ok hd).2.2.2
  · rw [← (Prod.mk.inj (Except.ok.inj hf)).2] at hts
    cases hts
    exact (validateAxis_ok hd).2.2.2
  · obtain ⟨_, -, hf⟩ := except_bind_eq_ok.mp hf
    exact (hnone (Prod.mk.inj (Except.ok.inj hf)).2 rfl).elim
  · obtain ⟨_, -, hf⟩ := except_bind_eq_ok.mp hf
    exact (hnone (Prod.mk.inj (Except.ok.inj hf)).2 rfl).elim
  · obtain ⟨_, -, hf⟩ := except_bind_eq_ok.mp hf
    exact (hnone (Prod.mk.inj (Except.ok.inj hf)).2 rfl).elim

end InfraStore
