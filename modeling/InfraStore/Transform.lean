import InfraStore.Store

/-!
# Deriving forecast views

`transform_single_time_series`: every `SingleTimeSeries` in scope is filed a second time as a
`DeterministicSingleTimeSeries` over the same array.

* `TransformPlan.derive`: the window parameters, once a resolution, from the distinct static grids;
* `newViews`: the rows to file, past the families that hold a dense forecast and the views that
  exist;
* `Store.transformSingleTimeSeries`: the whole, under a policy.
-/

namespace InfraStore

open Lib

/-- The caller's choices. -/
structure TransformPolicy where
  dryRun : Bool
  normalizeSingleWindow : Bool
  requireUniformForecastGrid : Bool
  deriving DecidableEq

/-- What a transform reports. -/
structure TransformOutcome where
  transformed : ℕ
  sources : ℕ
  interval : Period
  intervalNormalized : Bool
  written : List ℤ
  deriving DecidableEq

/-- The one static grid of a resolution. -/
structure StaticConsistency where
  resolution : Period
  initialTimestamp : DateTime
  length : ℕ
  deriving DecidableEq

/-- One resolution's derived window parameters. -/
structure GridPlan where
  interval : Period
  count : ℕ
  deriving DecidableEq

/-- What to write for each resolution in scope, and the first one's parameters. -/
structure TransformPlan where
  byResolution : FMap Period GridPlan
  interval : Period
  count : ℕ
  intervalNormalized : Bool
  horizon : Period
  initialTimestamp : DateTime

/-- The parameters of a stored forecast. -/
structure ForecastParameters where
  horizon : Option Period
  interval : Option Period
  count : Option ℕ
  resolution : Option Period
  initialTimestamp : Option DateTime
  deriving DecidableEq

/-- The magnitude of a period among those of its kind. -/
def periodMs : Period → ℤ
  | .fixed d => d.numMilliseconds
  | .months m => m.1

/-! ### Planning -/

namespace TransformPlan

/-- The interval a resolution stores, and whether it stands for a single window. -/
def storedInterval (grid : StaticConsistency) (h : ℕ) (horizon requested : Period)
    (policy : TransformPolicy) : Result (Period × Bool) :=
  if grid.length = h ∧ requested = horizon then
    .ok (if policy.normalizeSingleWindow then Period.zero else requested, true)
  else if requested.sameKind horizon ∧ periodMs horizon < periodMs requested then
    .error (.invalidParameter
      s!"interval {requested.toIso8601} is longer than the horizon {horizon.toIso8601}, which would leave gaps between windows")
  else .ok (requested, false)

/-- The number of windows of a resolution, and the steps between two of them. -/
def windows (grid : StaticConsistency) (h : ℕ) (horizon interval : Period) : Result (ℕ × ℕ) :=
  if interval.isZero then
    if h ≠ grid.length then
      .error (.invalidParameter
        s!"a zero interval derives a single window covering the whole series, but horizon {horizon.toIso8601} ({h} steps) does not span the SingleTimeSeries length ({grid.length}) at resolution {grid.resolution.toIso8601}")
    else .ok (1, 1)
  else
    match grid.resolution.divideInto interval with
    | .error _ => .error (.invalidParameter
        s!"interval {interval.toIso8601} must be zero or a positive integer multiple of resolution {grid.resolution.toIso8601}")
    | .ok steps => .ok ((grid.length - h) / steps + 1, steps)

/-- Every window of a calendar grid must describe the source's own timestamps. -/
def checkAnchorable (grid : StaticConsistency) (h count steps : ℕ) : Result Unit :=
  if !grid.resolution.isIrregular then .ok ()
  else
    match (List.range count).find? fun k =>
        !grid.resolution.subGridIsAnchorable grid.initialTimestamp (k * steps) h with
    | none => .ok ()
    | some k => .error (.invalidParameter
        s!"cannot derive DeterministicSingleTimeSeries at resolution {grid.resolution.toIso8601}: the source grid steps from {grid.initialTimestamp}, whose day of month is clamped by shorter months, so window {k} could not describe the source's own timestamps -- it would carry their values under different dates. Anchor the series on a day every month has, or store its instants explicitly with NonSequentialTimeSeries.")

/-- One resolution's parameters. -/
def deriveGrid (grid : StaticConsistency) (horizon requested : Period) (policy : TransformPolicy) :
    Result (GridPlan × Bool) := do
  let h ← match computeH horizon grid.resolution with
    | .ok h => .ok h
    | .error _ => .error (.invalidParameter
        s!"horizon {horizon.toIso8601} is not evenly divisible by resolution {grid.resolution.toIso8601}")
  if grid.length < h then
    .error (.invalidParameter
      s!"horizon {horizon.toIso8601} ({h} steps) exceeds the SingleTimeSeries length ({grid.length}) at resolution {grid.resolution.toIso8601}")
  else do
    let stored ← storedInterval grid h horizon requested policy
    let derived ← windows grid h horizon stored.1
    checkAnchorable grid h derived.1 derived.2
    pure (⟨stored.1, derived.1⟩, stored.2)

/-- Under the uniform policy every resolution agrees with the first. -/
def checkAgreed (first grid : StaticConsistency) (agreed : GridPlan) (plan : GridPlan) :
    Result Unit :=
  if agreed.interval ≠ plan.interval ∨ agreed.count ≠ plan.count then
    .error (.invalidParameter
      s!"transform would produce forecasts with different window parameters per resolution: {first.resolution.toIso8601} gives count {agreed.count} at interval {agreed.interval.toIso8601}, {grid.resolution.toIso8601} gives count {plan.count} at interval {plan.interval.toIso8601}")
  else if grid.initialTimestamp ≠ first.initialTimestamp then
    .error (.invalidParameter
      s!"transform is not supported when SingleTimeSeries have different initial timestamps: {first.initialTimestamp} at resolution {first.resolution.toIso8601} vs {grid.initialTimestamp} at resolution {grid.resolution.toIso8601}")
  else .ok ()

/-- The parameters of the resolutions after the first. -/
def deriveRest (first : StaticConsistency) (agreed : GridPlan) (horizon requested : Period)
    (policy : TransformPolicy) :
    List StaticConsistency → FMap Period GridPlan → Bool → Result (FMap Period GridPlan × Bool)
  | [], plans, normalized => .ok (plans, normalized)
  | grid :: grids, plans, normalized => do
    let derived ← deriveGrid grid horizon requested policy
    if policy.requireUniformForecastGrid then checkAgreed first grid agreed derived.1
    deriveRest first agreed horizon requested policy grids
      (plans.insert grid.resolution derived.1) (normalized || derived.2)

/-- Derive the plan, or `none` when no `SingleTimeSeries` is in scope. -/
def derive (grids : List StaticConsistency) (horizon requested : Period)
    (policy : TransformPolicy) : Result (Option TransformPlan) :=
  match grids with
  | [] => .ok none
  | first :: rest => do
    let derived ← deriveGrid first horizon requested policy
    let all ← deriveRest first derived.1 horizon requested policy rest
      ((∅ : FMap Period GridPlan).insert first.resolution derived.1) derived.2
    pure (some
      { byResolution := all.1
        interval := derived.1.interval
        count := derived.1.count
        intervalNormalized := all.2
        horizon
        initialTimestamp := first.initialTimestamp })

/-- The derived parameters for a source's resolution. -/
def forResolution (p : TransformPlan) (resolution : Period) : Result GridPlan :=
  match FMap.get p.byResolution resolution with
  | some plan => .ok plan
  | none => .error (.integrityError
      s!"no static grid was derived for resolution {resolution.toIso8601}")

/-- Reject a plan that disagrees with a forecast already stored. -/
def checkCompatibleWith (p : TransformPlan) (existing : ForecastParameters) : Result Unit :=
  match existing.count with
  | none => .ok ()
  | some count =>
    if count ≠ p.count then
      .error (.invalidParameter
        s!"derived forecast count {p.count} does not match the stored forecast count {count}")
    else
      match existing.initialTimestamp.filter (· ≠ p.initialTimestamp) with
      | some ts => .error (.invalidParameter
          s!"derived forecast initial_timestamp {p.initialTimestamp} does not match the stored forecast initial_timestamp {ts}")
      | none =>
        match existing.horizon.filter (· ≠ p.horizon) with
        | some h => .error (.invalidParameter
            s!"derived forecast horizon {p.horizon.toIso8601} does not match the stored forecast horizon {h.toIso8601}")
        | none => .ok ()

end TransformPlan

/-! ### What the catalog holds already -/

/-- The identity columns of a row but for its type. -/
structure AssociationIdentity (H : Type) where
  ownerId : ℤ
  ownerCategory : OwnerCategory
  name : String
  resolution : Option String
  interval : Option String
  featuresHash : H
  deriving DecidableEq

/-- The family of an identity: its interval projected away. -/
def AssociationIdentity.family {H : Type} (i : AssociationIdentity H) : SeriesFamily H :=
  { ownerId := i.ownerId, ownerCategory := i.ownerCategory, name := i.name,
    resolution := i.resolution, featuresHash := i.featuresHash }

namespace Catalog

variable {H : Type}

/-- The rows whose column has a value, or every row when none is asked for. -/
def columnIs {α β : Type} [DecidableEq β] (column : β) (asked : Option α) (spell : α → β) : Bool :=
  match asked with
  | none => true
  | some a => column = spell a

/-- The `SingleTimeSeries` rows of a resolution and an owner category. -/
def singleInScope (resolution : Option Period) (category : Option OwnerCategory)
    (r : AssociationRow H) : Bool :=
  r.timeSeriesType = .singleTimeSeries &&
    columnIs r.resolution resolution (fun p => some p.toIso8601) && columnIs r.ownerCategory category id

/-- A typed read of a column that holds NULL. -/
def nullColumn (index : ℕ) (name : String) : TimeSeriesError :=
  .sqlite s!"Invalid column type Null at index: {index}, name: {name}"

/-- A column that must hold a value. -/
def presentColumn {α : Type} (index : ℕ) (name : String) : Option α → Result α
  | some a => .ok a
  | none => .error (nullColumn index name)

/-- One row of the distinct static grids. -/
def parseGrid (x : Option String × Option DateTime × Option ℕ) : Result StaticConsistency := do
  let resolution ← presentColumn 0 "resolution" x.1
  let initial ← presentColumn 1 "initial_timestamp" x.2.1
  let length ← presentColumn 2 "length" x.2.2
  let p ← isoToPeriod resolution
  if 0 ≤ initial.date.year ∧ initial.date.year ≤ 9999 then
    .ok ⟨p, initial, length⟩
  else .error (.integrityError "bad initial_timestamp: input contains invalid characters")

/-- The distinct `(resolution, initial_timestamp, length)` of the rows in scope, ordered by the text
of the resolution, the missing ones first. -/
def distinctSingleGrids (resolution : Option Period) (category : Option OwnerCategory)
    (c : Catalog H) : Result (List StaticConsistency) :=
  let keys := ((c.rows.filter (singleInScope resolution category)).map fun r =>
    (r.resolution, r.initialTimestamp, r.length)).dedup
  (keys.mergeSort fun a b => decide (a.1.getD "" ≤ b.1.getD "")).mapM parseGrid

/-- Refuse two grids at one resolution. -/
def uniqueGrids : List StaticConsistency → Result Unit
  | a :: b :: grids =>
    if a.resolution = b.resolution then
      .error (.integrityError
        s!"SingleTimeSeries at resolution {b.resolution.toIso8601} have more than one (initial_timestamp, length) pair: ({a.initialTimestamp}, {a.length}) vs ({b.initialTimestamp}, {b.length})")
    else uniqueGrids (b :: grids)
  | _ => .ok ()

/-- The one static grid of each resolution in scope. -/
def staticGrids (resolution : Option Period) (category : Option OwnerCategory) (c : Catalog H) :
    Result (List StaticConsistency) := do
  let grids ← c.distinctSingleGrids resolution category
  uniqueGrids grids
  pure grids

/-- Every row of a type: its identity and its horizon. -/
def listIdentities (t : TimeSeriesType) (c : Catalog H) :
    Result (List (AssociationIdentity H × Option Period)) :=
  (c.rows.filter (·.timeSeriesType = t)).mapM fun r => do
    let horizon ← AssociationRow.parseColumn isoToPeriod r.horizon
    pure
      ({ ownerId := r.ownerId, ownerCategory := r.ownerCategory, name := r.name,
         resolution := r.resolution, interval := r.interval, featuresHash := r.featuresHash },
        horizon)

end Catalog

/-! ### The rows to file -/

section

variable {H : Type} [DecidableEq H] [Sha256 H]

/-- A source's row described as a view of its windows. -/
def derivedViewRow (src : TimeSeriesMetadata H) (horizon interval : Period) (count : ℕ) :
    TimeSeriesMetadata H :=
  { src with
    timeSeriesType := .deterministicSingleTimeSeries
    horizon := some horizon
    interval := some interval
    count := some count
    id := none }

/-- The view of one source; `none` if it exists already. -/
def newView (plan : TransformPlan) (horizon : Period)
    (existingDst : List (AssociationIdentity H × Option Period)) (existingDet : List (SeriesFamily H))
    (src : TimeSeriesMetadata H) : Result (Option (TimeSeriesMetadata H)) :=
  if src.family ∈ existingDet then
    .error (.invalidParameter
      s!"cannot derive DeterministicSingleTimeSeries for '{src.name}': a Deterministic forecast of the same series already exists; they are mutually exclusive")
  else
    match src.resolution with
    | none => .error (.integrityError "transform_single_time_series missing resolution")
    | some resolution => do
      let grid ← plan.forResolution resolution
      let key : AssociationIdentity H :=
        { ownerId := src.ownerId, ownerCategory := src.ownerCategory, name := src.name,
          resolution := src.resolution.map Period.toIso8601,
          interval := some grid.interval.toIso8601, featuresHash := featuresHash src.features }
      match existingDst.lookup key with
      | none => pure (some (derivedViewRow src horizon grid.interval grid.count))
      | some existing =>
        if existing = some horizon then pure none
        else
          let had := (existing.map Period.toIso8601).getD "-"
          .error (.invalidParameter
            s!"cannot derive DeterministicSingleTimeSeries for '{src.name}' at interval {grid.interval.toIso8601}: a view with horizon {had} already exists (requested {horizon.toIso8601}); remove it first or transform at a different interval")

/-- The views of the sources that lack one. -/
def newViews (plan : TransformPlan) (horizon : Period)
    (existingDst : List (AssociationIdentity H × Option Period)) (existingDet : List (SeriesFamily H))
    (sources : List (TimeSeriesMetadata H)) : Result (List (TimeSeriesMetadata H)) :=
  (sources.mapM (newView plan horizon existingDst existingDet)).map (·.filterMap id)

namespace Store

variable {B : Type} [ArrayBackend H B] [FloatText] [ToString H]

open Connection

/-- The parameters of the first forecast, by kind, that a catalog query finds. -/
def firstForecast (vectors : H → Result (List DateTime)) (resolution interval : Option Period) :
    List TimeSeriesType → StoreCmd (Connection H) ForecastParameters
  | [] => pure ⟨none, none, none, none, none⟩
  | t :: ts => do
    let rows ← query fun db => db.list (some vectors) none fun r =>
      r.timeSeriesType = t &&
        Catalog.columnIs r.resolution resolution (fun p => some p.toIso8601) &&
        Catalog.columnIs r.interval interval (fun p => some p.toIso8601)
    match rows with
    | m :: _ => pure ⟨m.horizon, m.interval, m.count, m.resolution, m.initialTimestamp⟩
    | [] => firstForecast vectors resolution interval ts

/-- The parameters of a forecast stored at a resolution and an interval, none if there is none. -/
def getForecastParameters (resolution interval : Option Period) :
    StoreCmd (Store H B) ForecastParameters := do
  let s ← get
  onConn (firstForecast (ArrayBackend.getTimestamps s.arrays.backend) resolution interval
    [.deterministic, .deterministicSingleTimeSeries, .probabilistic, .scenarios])

/-- Under the uniform policy the plan must match the forecasts stored at its grids. -/
def checkPlanCompatible (plan : TransformPlan) : List (Period × GridPlan) →
    StoreCmd (Store H B) Unit
  | [] => pure ()
  | (resolution, grid) :: rest => do
    let existing ← getForecastParameters (some resolution) (some grid.interval)
    Cmd.ofExcept (plan.checkCompatibleWith existing)
    checkPlanCompatible plan rest

/-- What a transform does under a plan. -/
def transformUnder (plan : TransformPlan) (horizon : Period) (category : Option OwnerCategory)
    (resolution : Option Period) (policy : TransformPolicy) :
    StoreCmd (Store H B) TransformOutcome := do
  let s ← get
  let sources ← onConn (query fun db =>
    db.list (some (ArrayBackend.getTimestamps s.arrays.backend)) none
      (Catalog.singleInScope resolution category))
  let existingDst ← onConn (query (Catalog.listIdentities .deterministicSingleTimeSeries))
  let existingDet ← onConn (query (Catalog.listIdentities .deterministic))
  let views ← Cmd.ofExcept (newViews plan horizon existingDst (existingDet.map (·.1.family)) sources)
  let written ←
    if policy.dryRun then pure []
    else writeCatalog (do
      let filed ← insertAll insertBatched views .empty
      pure filed.1)
  pure
    { transformed := views.length
      sources := sources.length
      interval := plan.interval
      intervalNormalized := plan.intervalNormalized
      written }

/-- Derive the forecast views of the stored `SingleTimeSeries`. -/
def transformSingleTimeSeries (horizon requested : Period) (category : Option OwnerCategory)
    (resolution : Option Period) (policy : TransformPolicy) :
    StoreCmd (Store H B) TransformOutcome := do
  let s ← get
  if s.conn.readOnly && !policy.dryRun then throw .readOnlyStore
  let grids ← onConn (query (Catalog.staticGrids resolution category))
  let derived ← Cmd.ofExcept (TransformPlan.derive grids horizon requested policy)
  match derived with
  | none => pure ⟨0, 0, requested, false, []⟩
  | some plan => do
    if policy.requireUniformForecastGrid then
      checkPlanCompatible plan (plan.byResolution.entries.map fun e => (e.1, e.2))
    transformUnder plan horizon category resolution policy

end Store

end

end InfraStore
