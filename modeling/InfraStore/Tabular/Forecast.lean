import InfraStore.Calendar
import InfraStore.Lib.Scatter
import InfraStore.Lib.Sorted
import InfraStore.PeriodText
import InfraStore.Tabular.Cells

/-!
# Rebuilding a forecast's cube

The import places the rows of a values group by their coordinates: the issue time names the window,
the target the step inside it, the lane column the slot of the third axis.

* `forecast`: the rebuild, with `usize` arithmetic checked or wrapping, and a panic where the source
  indexes past a buffer;
* `stepsIn_eq`, `stepOfTarget_eq_ok`, `distinctSorted_eq`: what the grids of the rows say;
* `laneLabels_percentiles`, `laneLabels_scenarios`: the lane axis of the rows.
-/

namespace InfraStore.Tabular

open Lib

/-! ### Outcomes -/

/-- How a rebuild stops without a forecast: an error, or a panic. -/
inductive Halt where
  | error (e : TimeSeriesError)
  | panic
  deriving DecidableEq

/-- The outcome of code that may panic. -/
abbrev Panics (α : Type) : Type := Except Halt α

/-- A result, where nothing panicked. -/
def checkedResult {α : Type} : Result α → Panics α
  | .ok a => .ok a
  | .error e => .error (.error e)

/-- `a * b` of `usize`s: a panic past the largest one where overflow is checked, else wrapped. -/
def mulUsize (checks : Bool) (a b : ℕ) : Panics ℕ :=
  if a * b < usizeBound then .ok (a * b)
  else if checks then .error .panic else .ok (a * b % usizeBound)

/-- `a + b` of `usize`s. -/
def addUsize (checks : Bool) (a b : ℕ) : Panics ℕ :=
  if a + b < usizeBound then .ok (a + b)
  else if checks then .error .panic else .ok ((a + b) % usizeBound)

/-! ### The lane axis -/

/-- The `Debug` text of a double. -/
class F64Debug where
  debug : F64 → String

/-- A group's rows, as the key columns describe them. -/
structure Rows where
  timestamps : List DateTime
  issue : List DateTime
  lanes : List LaneValue

/-- The labels of a lane column of percentiles. -/
def percentileLabels (name : String) : List LaneValue → Result (List F64)
  | [] => .ok []
  | .percentile p :: lanes => do
    let labels ← percentileLabels name lanes
    .ok (p :: labels)
  | .scenario _ :: _ => .error (unsupported
      s!"series '{name}' is a Probabilistic but its lane column is not `percentile`")

/-- The highest number of a lane column of scenarios. -/
def highestScenario (name : String) : ℤ → List LaneValue → Result ℤ
  | highest, [] => .ok highest
  | highest, .scenario s :: lanes => highestScenario name (max highest s) lanes
  | _, .percentile _ :: _ => .error (unsupported
      s!"series '{name}' is a Scenarios but its lane column is not `scenario`")

/-- The lane axis a group's rows describe; percentiles are sorted and each is kept once. -/
def laneLabels (lanes : List LaneValue) (tsType : TimeSeriesType) (name : String) :
    Result LaneLabels :=
  match tsType with
  | .probabilistic => do
    let labels ← percentileLabels name lanes
    .ok (.percentiles ((sortBy F64.key labels).destutter fun a b => a.eq b = false))
  | .scenarios => do
    let highest ← highestScenario name 0 lanes
    .ok (.scenarios (highest.toNat + 1))
  | _ => .ok .none

/-- Which slot on the lane axis a row's label names. -/
def LaneLabels.indexOf [FloatText] [F64Debug] (labels : LaneLabels) (lane : Option LaneValue) :
    Result ℕ :=
  match labels, lane with
  | .none, _ => .ok 0
  | .percentiles labels, some (.percentile p) =>
    match labels.findIdx? (·.eq p) with
    | Option.some i => .ok i
    | Option.none => .error (unsupported
        s!"percentile {FloatText.display p} is not one of {labels.map F64Debug.debug}")
  | .scenarios n, some (.scenario s) =>
    if 0 ≤ s ∧ s.toNat < n then .ok s.toNat
    else .error (unsupported s!"scenario {s} is outside 0..{n}")
  | _, _ => .error (unsupported "a row's lane column does not match its partition")

/-! ### The grids -/

/-- The place of an instant in the order: its second, then its nanosecond. -/
def instantKey (t : DateTime) : ℤ ×ₗ ℕ := toLex (t.secs, t.nanos)

/-- The distinct values of a column, ascending. -/
def distinctSorted (values : List DateTime) : List DateTime :=
  (sortBy instantKey values).destutter (· ≠ ·)

def missingGrid (column name : String) : TimeSeriesError :=
  unsupported s!"series '{name}' is a forecast and needs a `{column}`: the rows say where each value belongs, not what the grid it belongs to is"

/-- A period column, which a forecast needs. -/
def requiredPeriod (text column name : String) : Result Period :=
  if text = "" then .error (missingGrid column name)
  else
    match Period.fromIso8601 text with
    | .ok p => .ok p
    | .error e => .error (unsupported s!"{column}: {e.text}")

/-- Check that the issue times from the given window on are the windows of the grid. -/
def checkWindows (interval : Period) (initial : DateTime) (name : String) :
    ℕ → List DateTime → Result Unit
  | _, [] => .ok ()
  | window, issued :: rest =>
    match interval.addTo initial window with
    | none => .error (unsupported "a forecast window overflows the calendar")
    | some expected =>
      if expected ≠ issued then
        .error (unsupported s!"series '{name}' has an issue time of {issued}, which is not window {window} of a {interval.toIso8601} grid anchored at {initial}")
      else checkWindows interval initial name (window + 1) rest

/-- Walk the grid from a step on until the end of the horizon, for at most so many steps. -/
def stepsFrom (anchor stop : DateTime) (resolution : Period) (name : String) :
    ℕ → ℕ → Result ℕ
  | 0, _ => .error (unsupported
      s!"series '{name}' claims a horizon of more than a million steps; its `resolution` and `horizon` columns are probably not the ones that wrote it")
  | fuel + 1, steps =>
    match resolution.addTo anchor steps with
    | none => .error (unsupported "the forecast horizon overflows the calendar")
    | some at_ =>
      if stop ≤ at_ then .ok steps else stepsFrom anchor stop resolution name fuel (steps + 1)

/-- How many steps of the resolution fit in the horizon, counted by walking the grid. -/
def stepsIn (anchor : DateTime) (resolution horizon : Period) (name : String) : Result ℕ :=
  match horizon.addTo anchor 1 with
  | none => .error (unsupported "the forecast horizon overflows the calendar")
  | some stop => stepsFrom anchor stop resolution name 1000001 0

/-- The step among the given ones that a target time is on. -/
def stepAmong (issue target : DateTime) (resolution : Period) (horizonSteps : ℕ) (name : String) :
    List ℕ → Result ℕ
  | [] => .error (unsupported s!"series '{name}' has a target time of {target}, which is not on the {horizonSteps}-step grid starting at {issue}")
  | step :: rest =>
    match resolution.addTo issue step with
    | none => .error (unsupported "a forecast step overflows the calendar")
    | some at_ =>
      if at_ = target then .ok step
      else stepAmong issue target resolution horizonSteps name rest

def stepOfTarget (issue target : DateTime) (resolution : Period) (horizonSteps : ℕ)
    (name : String) : Result ℕ :=
  stepAmong issue target resolution horizonSteps name (List.range horizonSteps)

/-! ### Construction -/

/-- The fields a constructor fills in: no descriptors, and the element type of the dtype. -/
def bareFields (data : TypedArray) (name : String) : SeriesFields :=
  { data
    name
    elementType := .scalar data.dtype
    units := none
    quantityKind := none
    unitSystem := none
    timeReference := none
    componentField := none
    applicationData := none }

def bareForecast (initialTimestamp : DateTime) (resolution horizon interval : Period) (count : ℕ)
    (data : TypedArray) (name : String) : ForecastFields :=
  { toSeriesFields := bareFields data name, initialTimestamp, resolution, horizon, interval, count }

/-- `Deterministic::new`, `Probabilistic::new` or `Scenarios::new` of a lane axis. -/
def LaneLabels.construct (f : ForecastFields) : LaneLabels → Except String TimeSeriesData
  | .none => do
    let d : Deterministic := { toForecastFields := f }
    d.validate
    .ok (.deterministic d)
  | .percentiles labels => do
    let p : Probabilistic := { toForecastFields := f, percentiles := labels }
    p.validate
    .ok (.probabilistic p)
  | .scenarios scenarioCount => do
    let s : Scenarios := { toForecastFields := f, scenarioCount }
    s.validate
    .ok (.scenarios s)

/-! ### Placing the rows -/

/-- What a rebuild knows of its cube before it places a row. -/
structure CubePlan where
  issues : List DateTime
  resolution : Period
  horizonSteps : ℕ
  labels : LaneLabels
  name : String
  width : ℕ

/-- A slot of the cube. -/
structure Coordinates where
  window : ℕ
  step : ℕ
  lane : ℕ

/-- Where a row belongs, by its issue time, its target and its lane column. -/
def coordinatesOf [FloatText] [F64Debug] (plan : CubePlan) (rows : Rows) (row : ℕ) :
    Result Coordinates := do
  let issue := rows.issue.getD row default
  let step ← stepOfTarget issue (rows.timestamps.getD row default) plan.resolution
    plan.horizonSteps plan.name
  let lane ← plan.labels.indexOf rows.lanes[row]?
  .ok { window := plan.issues.idxOf issue, step, lane }

/-- The flat index of a slot. -/
def slotIndex (checks : Bool) (horizonSteps count : ℕ) (c : Coordinates) : Panics ℕ := do
  let row ← mulUsize checks c.lane horizonSteps
  let row ← addUsize checks row c.step
  let slot ← mulUsize checks row count
  addUsize checks slot c.window

/-- Place one row by its coordinates; a filled slot holds its row's bytes. -/
def placeRow [FloatText] [F64Debug] (checks : Bool) (plan : CubePlan) (rows : Rows)
    (array : TypedArray) (slots : List (Option (List UInt8))) (row : ℕ) :
    Panics (List (Option (List UInt8))) := do
  let c ← checkedResult (coordinatesOf plan rows row)
  let slot ← slotIndex checks plan.horizonSteps plan.issues.length c
  match slots[slot]? with
  | none => .error .panic
  | some (some _) => .error (.error (unsupported
      s!"series '{plan.name}' has two rows for window {c.window}, step {c.step}, lane {c.lane}"))
  | some none =>
    if (row + 1) * plan.width ≤ array.bytes.length then
      .ok (slots.set slot (some (stepOf plan.width row array.bytes)))
    else .error .panic

/-- The leading axes of a cube. -/
def LaneLabels.leading (labels : LaneLabels) (horizonSteps count : ℕ) : List ℕ :=
  match labels with
  | .none => [horizonSteps, count]
  | _ => [labels.count, horizonSteps, count]

/-- Rebuild a forecast's cube from its values group. -/
def forecast [FloatText] [F64Debug] (checks : Bool) (tsType : TimeSeriesType) (row : SeriesCells)
    (resolution : Option Period) (rows : Rows) (array : TypedArray) (name : String) :
    Panics TimeSeriesData := do
  let resolution ← checkedResult (match resolution with
    | some p => .ok p
    | none => .error (missingGrid "resolution" name))
  let interval ← checkedResult (requiredPeriod row.interval "interval" name)
  let horizon ← checkedResult (requiredPeriod row.horizon "horizon" name)
  if rows.issue.length ≠ rows.timestamps.length then
    .error (.error (unsupported s!"series '{name}' is a forecast but has no `issue_time` column"))
  else
    let issues := distinctSorted rows.issue
    match issues with
    | [] => .error (.error (unsupported s!"series '{name}' is a forecast with no rows"))
    | initialTimestamp :: _ =>
      let count := issues.length
      checkedResult (checkWindows interval initialTimestamp name 0 issues)
      let horizonSteps ← checkedResult (stepsIn initialTimestamp resolution horizon name)
      let labels ← checkedResult (laneLabels rows.lanes tsType name)
      let expected ← mulUsize checks labels.count horizonSteps
      let expected ← mulUsize checks expected count
      if rows.timestamps.length ≠ expected then
        .error (.error (unsupported s!"series '{name}' has {rows.timestamps.length} rows, but its grid holds {expected} values ({labels.count} lanes x {horizonSteps} steps x {count} windows)"))
      else
        let width := array.dtype.size * perStep array.elementShape
        let plan : CubePlan := { issues, resolution, horizonSteps, labels, name, width }
        let slots ← (List.range rows.timestamps.length).foldlM (placeRow checks plan rows array)
          (List.replicate expected none)
        match slots.findIdx? Option.isNone with
        | some slot => .error (.error (unsupported s!"series '{name}' has no row for window {slot % count}, step {slot / count % horizonSteps}; a forecast cube has no hole to put one in"))
        | none =>
          let cube ← checkedResult (mapErr unsupported (TypedArray.new array.dtype
            (labels.leading horizonSteps count ++ array.elementShape) (slots.filterMap id).flatten))
          checkedResult (mapErr unsupported (labels.construct
            (bareForecast initialTimestamp resolution horizon interval count cube name)))

/-! ### `usize` arithmetic -/

theorem mulUsize_eq {checks : Bool} {a b : ℕ} (h : a * b < usizeBound) :
    mulUsize checks a b = .ok (a * b) := if_pos h

theorem addUsize_eq {checks : Bool} {a b : ℕ} (h : a + b < usizeBound) :
    addUsize checks a b = .ok (a + b) := if_pos h

theorem checkedResult_eq_ok {α : Type} {r : Result α} {a : α} :
    checkedResult r = .ok a ↔ r = .ok a := by
  cases r with
  | error e => simp [checkedResult]
  | ok b => simp [checkedResult]

theorem checkedResult_ne_panic {α : Type} {r : Result α} : checkedResult r ≠ .error .panic := by
  cases r with
  | error e => simp [checkedResult]
  | ok b => simp [checkedResult]

/-- A slot of a cube whose slots a `usize` counts. -/
theorem slotIndex_eq {checks : Bool} {horizonSteps count lanes : ℕ} {c : Coordinates}
    (hl : c.lane < lanes) (hs : c.step < horizonSteps) (hw : c.window < count)
    (hfits : lanes * horizonSteps * count < usizeBound) :
    slotIndex checks horizonSteps count c = .ok (flatIndex horizonSteps count c.lane c.step c.window) := by
  have hlt := flatIndex_lt hl hs hw
  have hrow : c.lane * horizonSteps + c.step ≤ (c.lane * horizonSteps + c.step) * count :=
    Nat.le_mul_of_pos_right _ (by omega)
  unfold flatIndex at *
  unfold slotIndex
  simp only [bind, Except.bind]
  rw [mulUsize_eq (by omega)]
  simp only
  rw [addUsize_eq (by omega)]
  simp only
  rw [mulUsize_eq (by omega)]
  exact addUsize_eq (by omega)

/-! ### Instants in order -/

theorem instantKey_injective {a b : DateTime} (h : instantKey a = instantKey b) : a = b := by
  have h' : (a.secs, a.nanos) = (b.secs, b.nanos) := h
  rw [Prod.mk.injEq] at h'
  exact DateTime.ext h'.1 h'.2

theorem instantKey_lt {a b : DateTime} (h : a < b) : instantKey a < instantKey b := by
  rw [Prod.Lex.lt_iff]
  exact h

/-- The distinct values of any arrangement of increasing instants are those instants. -/
theorem distinctSorted_eq {values target : List DateTime} (ht : target.Pairwise (· < ·))
    (h : ∀ t, t ∈ values ↔ t ∈ target) : distinctSorted values = target := by
  apply destutter_sortBy_eq (ht.imp instantKey_lt) (fun t => (h t).mp) (fun t => (h t).mpr)
  intro a _ b _
  constructor
  · intro hne he
    exact hne (instantKey_injective he)
  · intro hne he
    exact hne (congrArg instantKey he)

theorem mem_distinctSorted {values : List DateTime} {t : DateTime} :
    t ∈ distinctSorted values ↔ t ∈ values := by
  constructor
  · intro h
    exact mem_sortBy.mp ((List.destutter_sublist _ _).subset h)
  · intro h
    have hR : ∀ a ∈ sortBy instantKey values, ∀ b ∈ sortBy instantKey values,
        a ≠ b ↔ instantKey a ≠ instantKey b := fun a _ b _ =>
      ⟨fun hne he => hne (instantKey_injective he), fun hne he => hne (he ▸ rfl)⟩
    obtain ⟨-, hcov⟩ := destutter_spec (pairwise_sortBy values) hR
    obtain ⟨b, hb, hk⟩ := hcov t (mem_sortBy.mpr h)
    rw [← instantKey_injective hk]
    exact hb

/-! ### The grids of the rows -/

theorem requiredPeriod_toIso8601 {p : Period} {column name : String} (h : p.wholeMillis = p) :
    requiredPeriod p.toIso8601 column name = .ok p := by
  have hne : p.toIso8601 ≠ "" := by
    intro he
    have hp := Period.fromIso8601_toIso8601 p
    rw [he] at hp
    cases hp
  unfold requiredPeriod
  rw [if_neg hne, Period.fromIso8601_toIso8601, h]

theorem checkWindows_eq_ok {interval : Period} {initial : DateTime} {name : String} {window : ℕ}
    {issues : List DateTime} :
    checkWindows interval initial name window issues = .ok () ↔
      ∀ k t, issues[k]? = some t → interval.addTo initial ((window + k : ℕ) : ℤ) = some t := by
  induction issues generalizing window with
  | nil => simp [checkWindows]
  | cons issued rest ih =>
    rw [checkWindows]
    constructor
    · intro h k t hk
      split at h
      · cases h
      · rename_i expected he
        split at h
        · cases h
        · rename_i heq
          cases k with
          | zero =>
            rw [List.getElem?_cons_zero, Option.some.injEq] at hk
            rw [Nat.add_zero, he, ← hk, not_not.mp heq]
          | succ k =>
            have := ih.mp h k t hk
            rwa [Nat.add_right_comm] at this
    · intro h
      have h0 := h 0 issued rfl
      rw [Nat.add_zero] at h0
      rw [h0]
      simp only [ne_eq, not_true_eq_false, if_false]
      apply ih.mpr
      intro k t hk
      have := h (k + 1) t hk
      rw [Nat.add_right_comm]
      exact this

/-- The walk stops at the first step at or past the end of the horizon. -/
theorem stepsFrom_eq {anchor stop : DateTime} {resolution : Period} {name : String}
    {horizonSteps : ℕ} (hend : resolution.addTo anchor horizonSteps = some stop)
    (hbefore : ∀ step < horizonSteps, ∃ t, resolution.addTo anchor step = some t ∧ t < stop)
    (fuel step : ℕ) (hle : step ≤ horizonSteps) (hfuel : horizonSteps < step + fuel) :
    stepsFrom anchor stop resolution name fuel step = .ok horizonSteps := by
  induction fuel generalizing step with
  | zero => omega
  | succ fuel ih =>
    rw [stepsFrom]
    by_cases hlast : step = horizonSteps
    · rw [hlast, hend]
      have hself : stop ≤ stop := fun h => (lt_irrefl _ (instantKey_lt h)).elim
      simp only [hself, if_true]
    · obtain ⟨t, ht, hlt⟩ := hbefore step (by omega)
      rw [ht]
      have hnot : ¬ stop ≤ t := fun h => h hlt
      simp only [hnot, if_false]
      exact ih (step + 1) (by omega) (by omega)

theorem stepsIn_eq {anchor stop : DateTime} {resolution horizon : Period} {name : String}
    {horizonSteps : ℕ} (hstop : horizon.addTo anchor 1 = some stop)
    (hend : resolution.addTo anchor horizonSteps = some stop)
    (hbefore : ∀ step < horizonSteps, ∃ t, resolution.addTo anchor step = some t ∧ t < stop)
    (hmillion : horizonSteps ≤ 1000000) :
    stepsIn anchor resolution horizon name = .ok horizonSteps := by
  unfold stepsIn
  rw [hstop]
  exact stepsFrom_eq hend hbefore 1000001 0 (Nat.zero_le _) (by omega)

theorem stepAmong_ok {issue target : DateTime} {resolution : Period} {horizonSteps step : ℕ}
    {name : String} {steps : List ℕ}
    (h : stepAmong issue target resolution horizonSteps name steps = .ok step) :
    step ∈ steps ∧ resolution.addTo issue step = some target := by
  induction steps with
  | nil => cases h
  | cons s rest ih =>
    rw [stepAmong] at h
    split at h
    · cases h
    · rename_i t ht
      split at h
      · rename_i heq
        cases h
        exact ⟨List.mem_cons_self, heq ▸ ht⟩
      · obtain ⟨hmem, hadd⟩ := ih h
        exact ⟨List.mem_cons_of_mem _ hmem, hadd⟩

/-- Where every step has an instant and only one has the target, it is found. -/
theorem stepAmong_eq {issue target : DateTime} {resolution : Period} {horizonSteps step : ℕ}
    {name : String} {steps : List ℕ} (hmem : step ∈ steps)
    (hall : ∀ s ∈ steps, ∃ t, resolution.addTo issue s = some t ∧ (t = target ↔ s = step)) :
    stepAmong issue target resolution horizonSteps name steps = .ok step := by
  induction steps with
  | nil => cases hmem
  | cons s rest ih =>
    obtain ⟨t, ht, hiff⟩ := hall s List.mem_cons_self
    rw [stepAmong, ht]
    by_cases hs : s = step
    · simp only [hiff.mpr hs, if_true, hs]
    · simp only [mt hiff.mp hs, if_false]
      apply ih
      · cases hmem with
        | head => exact absurd rfl hs
        | tail _ h => exact h
      · exact fun s' hs' => hall s' (List.mem_cons_of_mem _ hs')

theorem stepOfTarget_ok {issue target : DateTime} {resolution : Period} {horizonSteps step : ℕ}
    {name : String} (h : stepOfTarget issue target resolution horizonSteps name = .ok step) :
    step < horizonSteps ∧ resolution.addTo issue step = some target := by
  obtain ⟨hmem, hadd⟩ := stepAmong_ok h
  exact ⟨List.mem_range.mp hmem, hadd⟩

/-! ### The lanes of the rows -/

theorem F64.not_isNan_of_isFinite {v : F64} (h : v.isFinite = true) : v.isNan = false := by
  unfold F64.isFinite at h
  unfold F64.isNan
  rw [decide_eq_true_iff] at h
  rw [decide_eq_false h, Bool.false_and]

theorem F64.eq_iff {a b : F64} (ha : a.isFinite = true) (hb : b.isFinite = true) :
    a.eq b = true ↔ a.key = b.key := by
  unfold F64.eq
  rw [F64.not_isNan_of_isFinite ha, F64.not_isNan_of_isFinite hb]
  simp

/-- Percentiles a constructor accepts: finite and strictly increasing. -/
def Increasing (labels : List F64) : Prop :=
  (∀ p ∈ labels, p.isFinite = true) ∧ labels.Pairwise fun a b => a.key < b.key

/-- Neighbours in order are in order throughout. -/
theorem pairwise_of_neighbours {labels : List F64} (hf : ∀ p ∈ labels, p.isFinite = true)
    (h : (labels.zip labels.tail).any (fun pair => pair.1.ge pair.2) = false) :
    labels.Pairwise fun a b => a.key < b.key := by
  have : IsTrans F64 fun a b => a.key < b.key := ⟨fun _ _ _ => lt_trans⟩
  apply List.isChain_iff_pairwise.mp
  induction labels with
  | nil => exact List.isChain_nil
  | cons a labels ih =>
    cases labels with
    | nil => exact List.isChain_singleton a
    | cons b labels =>
      rw [List.tail_cons, List.zip_cons_cons, List.any_cons, Bool.or_eq_false_iff] at h
      have ha := F64.not_isNan_of_isFinite (hf a List.mem_cons_self)
      have hb := F64.not_isNan_of_isFinite (hf b (by simp))
      have hlt : a.key < b.key := by
        have hge := h.1
        unfold F64.ge at hge
        rw [ha, hb] at hge
        simpa using hge
      exact List.isChain_cons_cons.mpr
        ⟨hlt, ih (fun p hp => hf p (List.mem_cons_of_mem _ hp)) h.2⟩

theorem percentileLabels_map (name : String) (labels : List F64) :
    percentileLabels name (labels.map .percentile) = .ok labels := by
  induction labels with
  | nil => rfl
  | cons p labels ih =>
    rw [List.map_cons, percentileLabels, ih]
    rfl

theorem laneLabels_percentiles {name : String} {labels column : List F64} (h : Increasing labels)
    (hmem : ∀ p, p ∈ column ↔ p ∈ labels) :
    laneLabels (column.map .percentile) .probabilistic name = .ok (.percentiles labels) := by
  have hdistinct : (sortBy F64.key column).destutter (fun a b => a.eq b = false) = labels := by
    apply destutter_sortBy_eq h.2 (fun p => (hmem p).mp) (fun p => (hmem p).mpr)
    intro a ha b hb
    rw [← Bool.not_eq_true, F64.eq_iff (h.1 a ha) (h.1 b hb)]
  unfold laneLabels
  simp only [percentileLabels_map, bind, Except.bind, hdistinct]

theorem highestScenario_map (name : String) (highest : ℤ) (scenarios : List ℤ) :
    highestScenario name highest (scenarios.map .scenario) = .ok (scenarios.foldl max highest) := by
  induction scenarios generalizing highest with
  | nil => rfl
  | cons s scenarios ih =>
    rw [List.map_cons, highestScenario, ih]
    rfl

theorem foldl_max_eq {scenarios : List ℤ} {highest bound : ℤ} (hle : highest ≤ bound)
    (hall : ∀ s ∈ scenarios, s ≤ bound) (hmem : bound ∈ scenarios ∨ highest = bound) :
    scenarios.foldl max highest = bound := by
  induction scenarios generalizing highest with
  | nil =>
    cases hmem with
    | inl h => cases h
    | inr h => exact h
  | cons s scenarios ih =>
    have hs := hall s List.mem_cons_self
    rw [List.foldl_cons]
    apply ih (max_le hle hs) fun t ht => hall t (List.mem_cons_of_mem _ ht)
    cases hmem with
    | inl h =>
      cases h with
      | head => exact .inr (max_eq_right hle)
      | tail _ h => exact .inl h
    | inr h => exact .inr (by rw [h, max_eq_left hs])

theorem laneLabels_scenarios {name : String} {n : ℕ} {column : List ℤ} (hn : 0 < n)
    (hall : ∀ s ∈ column, 0 ≤ s ∧ s < n) (hmem : ((n - 1 : ℕ) : ℤ) ∈ column) :
    laneLabels (column.map .scenario) .scenarios name = .ok (.scenarios n) := by
  have hmax : column.foldl max 0 = ((n - 1 : ℕ) : ℤ) := by
    apply foldl_max_eq (by omega)
    · intro s hs
      have := hall s hs
      omega
    · exact .inl hmem
  unfold laneLabels
  simp only [highestScenario_map, bind, Except.bind, hmax]
  congr 2
  omega

/-- Whether a lane column's value is the label of a lane. -/
def LaneLabels.Names : LaneLabels → Option LaneValue → ℕ → Prop
  | .none, _, lane => lane = 0
  | .percentiles labels, value, lane =>
    ∃ p q, value = some (.percentile p) ∧ labels[lane]? = some q ∧ q.eq p = true
  | .scenarios _, value, lane => value = some (.scenario lane)

section

variable [FloatText] [F64Debug]

/-- A label is of one lane of the axis. -/
theorem LaneLabels.indexOf_ok {labels : LaneLabels} {value : Option LaneValue} {lane : ℕ}
    (h : labels.indexOf value = .ok lane) : lane < labels.count ∧ labels.Names value lane := by
  cases labels with
  | none =>
    cases h
    exact ⟨Nat.zero_lt_one, rfl⟩
  | percentiles labels =>
    cases value with
    | none => cases h
    | some value =>
      cases value with
      | scenario s => cases h
      | percentile p =>
        rw [indexOf] at h
        split at h
        · rename_i i hi
          cases h
          obtain ⟨hlt, heq, -⟩ := List.findIdx?_eq_some_iff_getElem.mp hi
          exact ⟨hlt, p, _, rfl, List.getElem?_eq_getElem hlt, heq⟩
        · cases h
  | scenarios n =>
    cases value with
    | none => cases h
    | some value =>
      cases value with
      | percentile p => cases h
      | scenario s =>
        rw [indexOf] at h
        split at h
        · rename_i hs
          cases h
          exact ⟨hs.2, by rw [Names, Int.toNat_of_nonneg hs.1]⟩
        · cases h

/-- The lane axes a constructor accepts. -/
def LaneLabels.WellFormed : LaneLabels → Prop
  | .percentiles labels => Increasing labels
  | _ => True

theorem LaneLabels.indexOf_valueAt {labels : LaneLabels} (h : labels.WellFormed) {lane : ℕ}
    (hlane : lane < labels.count) : labels.indexOf (labels.valueAt lane) = .ok lane := by
  cases labels with
  | none =>
    rw [Nat.lt_one_iff.mp hlane]
    rfl
  | percentiles labels =>
    change lane < labels.length at hlane
    have hfind : labels.findIdx? (·.eq labels[lane]) = some lane := by
      apply List.findIdx?_eq_some_iff_getElem.mpr
      refine ⟨hlane, ?_, ?_⟩
      · have hf := h.1 _ (List.getElem_mem hlane)
        exact (F64.eq_iff hf hf).mpr rfl
      · intro j hj he
        have hlt := List.pairwise_iff_getElem.mp h.2 j lane (by omega) hlane hj
        have hkey := (F64.eq_iff (h.1 _ (List.getElem_mem _)) (h.1 _ (List.getElem_mem _))).mp he
        omega
    rw [valueAt, List.getElem?_eq_getElem hlane, Option.map_some, indexOf, hfind]
  | scenarios n =>
    rw [valueAt, indexOf, Int.toNat_natCast]
    exact if_pos ⟨Int.natCast_nonneg _, hlane⟩

end

end InfraStore.Tabular
