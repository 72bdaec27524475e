import InfraStore.Requests
import InfraStore.Tabular.Layout

/-!
# The rows of a series

What an export writes of one series: each value's place on the grids and in the stored array.  A
forecast's rows are window-major, then step, then lane, and its cube is lane-major, so a row names
the element of the cube it draws from.
-/

namespace InfraStore.Tabular

/-! ### Rows -/

/-- One value row before it is columns: where it sits on the grids, and the step of the array it
draws from. -/
structure RowAt where
  issue : Option ℤ
  target : ℤ
  lane : Option LaneValue
  offset : ℕ

/-- An array's value rows, in emission order.  The array's shape is its leading dimensions and then
the shape of one step. -/
structure SeriesRows where
  rows : List RowAt
  array : TypedArray
  leading : List ℕ
  shape : List ℕ
  array_shape : array.shape = leading ++ shape
  wellFormed : array.WellFormed

/-- Elements per row. -/
def perStep (shape : List ℕ) : ℕ := max 1 shape.prod

/-- The `per` items of the step at an offset. -/
def stepOf {α : Type} (per offset : ℕ) (items : List α) : List α := (items.drop (offset * per)).take per

theorem length_stepOf {α : Type} {per offset : ℕ} {items : List α}
    (h : (offset + 1) * per ≤ items.length) : (stepOf per offset items).length = per := by
  rw [Nat.succ_mul] at h
  unfold stepOf
  rw [List.length_take, List.length_drop]
  omega

/-- The steps of a list, one after the other, are the list. -/
theorem flatMap_stepOf {α : Type} (per n : ℕ) (items : List α) :
    (List.range n).flatMap (fun k => stepOf per k items) = items.take (n * per) := by
  induction n with
  | zero => simp
  | succ n ih =>
    rw [List.range_succ, List.flatMap_append, ih, List.flatMap_singleton, Nat.succ_mul,
      List.take_add]
    rfl

theorem length_flatMap_eq {α β : Type} {per : ℕ} {f : β → List α} {items : List β}
    (h : ∀ b ∈ items, (f b).length = per) : (items.flatMap f).length = items.length * per := by
  induction items with
  | nil => simp
  | cons a items ih =>
    rw [List.flatMap_cons, List.length_append, h a List.mem_cons_self,
      ih fun b hb => h b (List.mem_cons_of_mem _ hb), List.length_cons, Nat.succ_mul, Nat.add_comm]

/-- A step of a concatenation of steps. -/
theorem stepOf_flatMap {α β : Type} {per : ℕ} {f : β → List α} {items : List β}
    (h : ∀ b ∈ items, (f b).length = per) {k : ℕ} {b : β} (hk : items[k]? = some b) :
    stepOf per k (items.flatMap f) = f b := by
  induction items generalizing k with
  | nil => simp at hk
  | cons a items ih =>
    have ha := h a List.mem_cons_self
    rw [List.flatMap_cons]
    cases k with
    | zero =>
      rw [List.getElem?_cons_zero, Option.some.injEq] at hk
      subst hk
      unfold stepOf
      rw [Nat.zero_mul, List.drop_zero, List.take_left' ha]
    | succ k =>
      rw [List.getElem?_cons_succ] at hk
      have hdrop : (k + 1) * per = (f a).length + k * per := by
        rw [Nat.succ_mul, ha, Nat.add_comm]
      unfold stepOf
      rw [hdrop, ← List.drop_drop, List.drop_left]
      exact ih (fun b hb => h b (List.mem_cons_of_mem _ hb)) hk

/-! ### Forecasts -/

/-- The two grids a forecast value sits on: windows step by the interval, and the steps inside one
window by the resolution. -/
structure ForecastGrid where
  initialTimestamp : DateTime
  resolution : Period
  interval : Period
  count : ℕ

namespace ForecastGrid

def issueTime (grid : ForecastGrid) (window : ℕ) : Result DateTime :=
  match grid.interval.addTo grid.initialTimestamp window with
  | some t => .ok t
  | none => .error (unsupported s!"forecast window {window} overflows the calendar")

def targetTime (grid : ForecastGrid) (issue : DateTime) (step : ℕ) : Result DateTime :=
  match grid.resolution.addTo issue step with
  | some t => .ok t
  | none => .error (unsupported s!"forecast step {step} overflows the calendar")

end ForecastGrid

/-- The third axis of a forecast's cube: none, one slot a percentile, or numbered scenarios. -/
inductive LaneLabels where
  | none
  | percentiles (labels : List F64)
  | scenarios (count : ℕ)
  deriving DecidableEq

namespace LaneLabels

/-- How wide the lane axis is. -/
def count : LaneLabels → ℕ
  | none => 1
  | percentiles labels => labels.length
  | scenarios n => n

/-- The lane column of a row in a slot of the lane axis. -/
def valueAt : LaneLabels → ℕ → Option LaneValue
  | none, _ => Option.none
  | percentiles labels, lane => (labels[lane]?).map .percentile
  | scenarios _, lane => some (.scenario lane)

end LaneLabels

/-- A forecast's cube, its lane axis and its two grids. -/
structure ForecastParts where
  array : TypedArray
  lanes : LaneLabels
  grid : ForecastGrid

/-- The grids of a dense forecast. -/
def gridOf (f : ForecastFields) : ForecastGrid :=
  { initialTimestamp := f.initialTimestamp
    resolution := f.resolution
    interval := f.interval
    count := f.count }

def forecastParts : TimeSeriesData → Result ForecastParts
  | .deterministic f => .ok ⟨f.data, .none, gridOf f.toForecastFields⟩
  | .probabilistic f => .ok ⟨f.data, .percentiles f.percentiles, gridOf f.toForecastFields⟩
  | .scenarios f => .ok ⟨f.data, .scenarios f.scenarioCount, gridOf f.toForecastFields⟩
  | other => .error (unsupported s!"{other.timeSeriesType.asStr} is not a dense forecast")

/-- The rows of one window's step, one a lane. -/
def laneRows (lanes : LaneLabels) (horizonSteps count window step : ℕ) (issued at_ : DateTime) :
    List RowAt :=
  (List.range lanes.count).map fun lane =>
    { issue := some issued.timestampMillis
      target := at_.timestampMillis
      lane := lanes.valueAt lane
      offset := (lane * horizonSteps + step) * count + window }

/-- The rows of one window, step by step. -/
def windowRows (parts : ForecastParts) (horizonSteps window : ℕ) : Result (List RowAt) := do
  let issued ← parts.grid.issueTime window
  let steps ← (List.range horizonSteps).mapM fun step => do
    let at_ ← parts.grid.targetTime issued step
    .ok (laneRows parts.lanes horizonSteps parts.grid.count window step issued at_)
  .ok steps.flatten

/-- The rows a forecast contributes, in the order the file emits them. -/
def forecastRows (d : TimeSeriesData) : Result (List RowAt) := do
  let parts ← forecastParts d
  let horizonSteps := parts.array.shape.getD (d.timeSeriesType.leadingDims - 2) 0
  let windows ← (List.range parts.grid.count).mapM (windowRows parts horizonSteps)
  .ok windows.flatten

end InfraStore.Tabular
