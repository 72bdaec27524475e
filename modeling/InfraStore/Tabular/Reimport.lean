import InfraStore.Tabular.Rebuild

/-!
# A forecast comes back from its rows

The rows an export emits for a forecast, in any order, and what a rebuild makes of them.

* `forecastRows_eq`: the rows are one a slot, each at its window, step and lane;
* `forecast_forecastRows`: they rebuild the forecast in any order;
* `forecast_exact`: this, its converse and the absence of panics.
-/

namespace InfraStore.Tabular

open Lib

/-! ### A forecast's grids -/

/-- The horizon is so many steps of the resolution, from any instant. -/
theorem addTo_computeH {horizon resolution : Period} {horizonSteps : ℕ}
    (h : computeH horizon resolution = .ok horizonSteps) :
    0 < horizonSteps ∧ ∀ t, resolution.addTo t horizonSteps = horizon.addTo t 1 := by
  have hratio : ∀ {num den : ℤ} {steps : ℕ}, 0 < den → 0 < num → num % den = 0 →
      (num / den).toNat = steps → 0 < steps ∧ den * steps = num * 1 := by
    intro num den steps hden hnum hmod hsteps
    have hmul := Int.mul_ediv_cancel' (Int.dvd_of_emod_eq_zero hmod)
    have hpos : 0 < num / den := by
      by_contra hle
      have := Int.mul_le_mul_of_nonneg_left (not_lt.mp hle) hden.le
      omega
    constructor
    · omega
    · rw [← hsteps, Int.toNat_of_nonneg hpos.le, hmul, mul_one]
  unfold computeH at h
  split at h
  · rename_i steps hsteps
    cases h
    unfold Period.divideInto at hsteps
    cases resolution with
    | fixed d =>
      cases horizon with
      | fixed d' =>
        simp only at hsteps
        split at hsteps
        · cases hsteps
        · rename_i hden
          split at hsteps
          · cases hsteps
          · rename_i hnum
            obtain ⟨hpos, hmul⟩ := hratio (by omega) (by omega) (by omega)
              (Except.ok.inj hsteps)
            refine ⟨hpos, fun t => ?_⟩
            rw [Period.addTo, Period.addTo, hmul]
      | months m => cases hsteps
    | months m =>
      cases horizon with
      | fixed d' => cases hsteps
      | months m' =>
        simp only at hsteps
        split at hsteps
        · cases hsteps
        · rename_i hden
          split at hsteps
          · cases hsteps
          · rename_i hnum
            obtain ⟨hpos, hmul⟩ := hratio (by omega) (by omega) (by omega)
              (Except.ok.inj hsteps)
            refine ⟨hpos, fun t => ?_⟩
            rw [Period.addTo, Period.addTo, hmul]
  · cases h

/-- What a constructor has checked of a dense forecast. -/
structure Dense (f : ForecastFields) (labels : LaneLabels) (horizonSteps : ℕ) (shape : List ℕ) :
    Prop where
  resolution : f.resolution.isPositive = true
  horizon : f.horizon.isPositive = true
  interval : f.interval.isPositive = true ∨ (f.count ≤ 1 ∧ f.interval.isZero = true)
  steps : computeH f.horizon f.resolution = .ok horizonSteps
  shape : f.data.shape = labels.leading horizonSteps f.count ++ shape
  labels : labels.WellFormed

/-- The type of the forecasts with a lane axis. -/
def LaneLabels.tsType : LaneLabels → TimeSeriesType
  | none => .deterministic
  | percentiles _ => .probabilistic
  | scenarios _ => .scenarios

/-- A constructor's checks, its cube and its type. -/
theorem LaneLabels.construct_ok {f : ForecastFields} {labels : LaneLabels} {d : TimeSeriesData}
    (h : labels.construct f = .ok d) :
    (∃ horizonSteps shape, Dense f labels horizonSteps shape ∧
      d.timeSeriesType.leadingDims = (labels.leading horizonSteps f.count).length) ∧
      forecastParts d = .ok ⟨f.data, labels, gridOf f⟩ ∧ d.timeSeriesType = labels.tsType := by
  cases labels with
  | none =>
    obtain ⟨_, hv, h⟩ := except_bind_eq_ok.mp h
    cases h
    refine ⟨?_, rfl, rfl⟩
    obtain ⟨_, hperiods, hv⟩ := except_bind_eq_ok.mp hv
    obtain ⟨horizonSteps, hsteps, hv⟩ := except_bind_eq_ok.mp hv
    split at hv
    · cases hv
    · simp only at hv
      split at hv
      · cases hv
      · rename_i hshape
        obtain ⟨hres, hhor, hint⟩ := validateForecastPeriods_ok hperiods
        exact ⟨horizonSteps, f.data.shape.drop 2,
          ⟨hres, hhor, hint, hsteps, not_not.mp hshape, trivial⟩, rfl⟩
  | percentiles labels =>
    obtain ⟨_, hv, h⟩ := except_bind_eq_ok.mp h
    cases h
    refine ⟨?_, rfl, rfl⟩
    obtain ⟨_, hperiods, hv⟩ := except_bind_eq_ok.mp hv
    split at hv
    · cases hv
    · split at hv
      · cases hv
      · rename_i hfinite
        split at hv
        · cases hv
        · rename_i hordered
          obtain ⟨horizonSteps, hsteps, hv⟩ := except_bind_eq_ok.mp hv
          split at hv
          · cases hv
          · simp only at hv
            split at hv
            · cases hv
            · rename_i hshape
              obtain ⟨hres, hhor, hint⟩ := validateForecastPeriods_ok hperiods
              simp only [Bool.not_eq_true', Bool.not_eq_false] at hfinite
              have hall := List.all_eq_true.mp hfinite
              rw [Bool.not_eq_true] at hordered
              exact ⟨horizonSteps, f.data.shape.drop 3,
                ⟨hres, hhor, hint, hsteps, not_not.mp hshape,
                  hall, pairwise_of_neighbours hall hordered⟩, rfl⟩
  | scenarios n =>
    obtain ⟨_, hv, h⟩ := except_bind_eq_ok.mp h
    cases h
    refine ⟨?_, rfl, rfl⟩
    obtain ⟨_, hperiods, hv⟩ := except_bind_eq_ok.mp hv
    obtain ⟨horizonSteps, hsteps, hv⟩ := except_bind_eq_ok.mp hv
    simp only at hv
    split at hv
    · cases hv
    · rename_i hshape
      obtain ⟨hres, hhor, hint⟩ := validateForecastPeriods_ok hperiods
      exact ⟨horizonSteps, f.data.shape.drop 3,
        ⟨hres, hhor, hint, hsteps, not_not.mp hshape, trivial⟩, rfl⟩

/-- A constructor looks at the geometry alone. -/
theorem LaneLabels.construct_bare {f : ForecastFields} {labels : LaneLabels} {d : TimeSeriesData}
    (name : String) (h : labels.construct f = .ok d) :
    ∃ bare, labels.construct (bareForecast f.initialTimestamp f.resolution f.horizon f.interval
      f.count f.data name) = .ok bare := by
  cases labels with
  | none =>
    obtain ⟨_, hv, -⟩ := except_bind_eq_ok.mp h
    exact ⟨_, except_bind_eq_ok.mpr ⟨_, hv, rfl⟩⟩
  | percentiles labels =>
    obtain ⟨_, hv, -⟩ := except_bind_eq_ok.mp h
    exact ⟨_, except_bind_eq_ok.mpr ⟨_, hv, rfl⟩⟩
  | scenarios n =>
    obtain ⟨_, hv, -⟩ := except_bind_eq_ok.mp h
    exact ⟨_, except_bind_eq_ok.mpr ⟨_, hv, rfl⟩⟩

/-! ### The rows of an export -/

namespace ForecastGrid

/-- The issue time of a window, where it has one. -/
def issueAt (grid : ForecastGrid) (window : ℕ) : DateTime :=
  (grid.interval.addTo grid.initialTimestamp window).getD default

/-- The target time of a window's step, where it has one. -/
def targetAt (grid : ForecastGrid) (window step : ℕ) : DateTime :=
  (grid.resolution.addTo (grid.issueAt window) step).getD default

/-- Every window and step has an instant. -/
structure Representable (grid : ForecastGrid) (horizonSteps : ℕ) : Prop where
  issue : ∀ window < grid.count,
    grid.interval.addTo grid.initialTimestamp window = some (grid.issueAt window)
  target : ∀ window < grid.count, ∀ step < horizonSteps,
    grid.resolution.addTo (grid.issueAt window) step = some (grid.targetAt window step)

theorem issueTime_ok {grid : ForecastGrid} {window : ℕ} {t : DateTime}
    (h : grid.issueTime window = .ok t) :
    grid.interval.addTo grid.initialTimestamp window = some t ∧ t = grid.issueAt window := by
  unfold issueTime at h
  split at h
  · rename_i t' ht
    cases h
    exact ⟨ht, by rw [issueAt, ht, Option.getD_some]⟩
  · cases h

theorem targetTime_ok {grid : ForecastGrid} {window step : ℕ} {t : DateTime}
    (h : grid.targetTime (grid.issueAt window) step = .ok t) :
    grid.resolution.addTo (grid.issueAt window) step = some t ∧ t = grid.targetAt window step := by
  unfold targetTime at h
  split at h
  · rename_i t' ht
    cases h
    exact ⟨ht, by rw [targetAt, ht, Option.getD_some]⟩
  · cases h

end ForecastGrid

/-- The row of a slot of a cube. -/
def rowOf (parts : ForecastParts) (horizonSteps : ℕ) (c : Coordinates) : RowAt :=
  { issue := some (parts.grid.issueAt c.window).timestampMillis
    target := (parts.grid.targetAt c.window c.step).timestampMillis
    lane := parts.lanes.valueAt c.lane
    offset := flatIndex horizonSteps parts.grid.count c.lane c.step c.window }

/-- The slots of a cube, window by window, then step by step. -/
def slotsOf (count horizonSteps lanes : ℕ) : List Coordinates :=
  (List.range count).flatMap fun window =>
    (List.range horizonSteps).flatMap fun step =>
      (List.range lanes).map fun lane => ⟨window, step, lane⟩

theorem mem_slotsOf {count horizonSteps lanes : ℕ} {c : Coordinates} :
    c ∈ slotsOf count horizonSteps lanes ↔
      c.window < count ∧ c.step < horizonSteps ∧ c.lane < lanes := by
  unfold slotsOf
  simp only [List.mem_flatMap, List.mem_map, List.mem_range]
  constructor
  · rintro ⟨window, hw, step, hs, lane, hl, rfl⟩
    exact ⟨hw, hs, hl⟩
  · rintro ⟨hw, hs, hl⟩
    exact ⟨c.window, hw, c.step, hs, c.lane, hl, rfl⟩

theorem length_slotsOf (count horizonSteps lanes : ℕ) :
    (slotsOf count horizonSteps lanes).length = lanes * horizonSteps * count := by
  unfold slotsOf
  simp only [List.length_flatMap, List.length_map, List.length_range, List.map_const',
    List.sum_replicate, Nat.nsmul_eq_mul]
  ring

theorem nodup_slotsOf (count horizonSteps lanes : ℕ) : (slotsOf count horizonSteps lanes).Nodup := by
  unfold slotsOf
  rw [List.nodup_flatMap]
  constructor
  · intro window _
    rw [List.nodup_flatMap]
    constructor
    · intro step _
      exact List.nodup_range.map fun a b he => by
        cases he
        rfl
    · apply List.nodup_range.imp
      intro step step' hne c hc hc'
      obtain ⟨_, -, rfl⟩ := List.mem_map.mp hc
      obtain ⟨_, -, he⟩ := List.mem_map.mp hc'
      cases he
      exact hne rfl
  · apply List.nodup_range.imp
    intro window window' hne c hc hc'
    obtain ⟨_, -, hc⟩ := List.mem_flatMap.mp hc
    obtain ⟨_, -, hc'⟩ := List.mem_flatMap.mp hc'
    obtain ⟨_, -, rfl⟩ := List.mem_map.mp hc
    obtain ⟨_, -, he⟩ := List.mem_map.mp hc'
    cases he
    exact hne rfl

/-- A traversal whose results are those of a function is a map of it. -/
theorem mapM_eq_map {ε α β : Type} {f : α → Except ε β} {g : α → β} {as : List α} {bs : List β}
    (hg : ∀ a ∈ as, ∀ b, f a = .ok b → b = g a) (h : as.mapM f = .ok bs) : bs = as.map g := by
  induction as generalizing bs with
  | nil =>
    cases h
    rfl
  | cons a as ih =>
    rw [List.mapM_cons] at h
    obtain ⟨b, hb, h⟩ := except_bind_eq_ok.mp h
    obtain ⟨bs', hbs, h⟩ := except_bind_eq_ok.mp h
    cases h
    rw [List.map_cons, ← hg a List.mem_cons_self b hb,
      ← ih (fun x hx => hg x (List.mem_cons_of_mem _ hx)) hbs]

/-- The rows of one window. -/
theorem windowRows_ok {parts : ForecastParts} {horizonSteps window : ℕ} {rows : List RowAt}
    (h : windowRows parts horizonSteps window = .ok rows) :
    parts.grid.interval.addTo parts.grid.initialTimestamp window =
        some (parts.grid.issueAt window) ∧
      (∀ step < horizonSteps, parts.grid.resolution.addTo (parts.grid.issueAt window) step =
        some (parts.grid.targetAt window step)) ∧
      rows = (List.range horizonSteps).flatMap fun step =>
        (List.range parts.lanes.count).map fun lane => rowOf parts horizonSteps ⟨window, step, lane⟩ := by
  obtain ⟨issued, hissued, h⟩ := except_bind_eq_ok.mp h
  obtain ⟨steps, hsteps, hrows⟩ := except_bind_eq_ok.mp h
  cases hrows
  obtain ⟨hadd, rfl⟩ := ForecastGrid.issueTime_ok hissued
  refine ⟨hadd, ?_, ?_⟩
  · intro step hstep
    obtain ⟨rows, -, hrows⟩ := mapM_covers hsteps (List.mem_range.mpr hstep)
    obtain ⟨t, ht, -⟩ := except_bind_eq_ok.mp hrows
    obtain ⟨hadd, rfl⟩ := ForecastGrid.targetTime_ok ht
    exact hadd
  · rw [List.flatMap_def]
    congr 1
    apply mapM_eq_map _ hsteps
    intro step _ rows hrows
    obtain ⟨t, ht, hrows⟩ := except_bind_eq_ok.mp hrows
    obtain ⟨-, rfl⟩ := ForecastGrid.targetTime_ok ht
    cases hrows
    rfl

/-- **The rows of an export**: one a slot, window-major. -/
theorem forecastRows_eq {d : TimeSeriesData} {parts : ForecastParts} {rows : List RowAt}
    {horizonSteps : ℕ} (hparts : forecastParts d = .ok parts)
    (hsteps : parts.array.shape.getD (d.timeSeriesType.leadingDims - 2) 0 = horizonSteps)
    (h : forecastRows d = .ok rows) :
    parts.grid.Representable horizonSteps ∧
      rows = (slotsOf parts.grid.count horizonSteps parts.lanes.count).map
        (rowOf parts horizonSteps) := by
  obtain ⟨parts', hparts', h⟩ := except_bind_eq_ok.mp h
  rw [hparts] at hparts'
  cases hparts'
  obtain ⟨windows, hwindows, h⟩ := except_bind_eq_ok.mp h
  rw [hsteps] at hwindows
  cases h
  have hspec : ∀ window < parts.grid.count, ∃ rows, windowRows parts horizonSteps window = .ok rows := by
    intro window hw
    obtain ⟨rows, -, hrows⟩ := mapM_covers hwindows (List.mem_range.mpr hw)
    exact ⟨rows, hrows⟩
  refine ⟨⟨?_, ?_⟩, ?_⟩
  · intro window hw
    obtain ⟨rows, hrows⟩ := hspec window hw
    exact (windowRows_ok hrows).1
  · intro window hw
    obtain ⟨rows, hrows⟩ := hspec window hw
    exact (windowRows_ok hrows).2.1
  · unfold slotsOf
    rw [List.map_flatMap, List.flatMap_def]
    congr 1
    apply mapM_eq_map _ hwindows
    intro window _ rows hrows
    rw [(windowRows_ok hrows).2.2, List.map_flatMap]
    congr 1
    funext step
    rw [List.map_map]
    rfl

/-! ### The group an import reads -/

/-- The key columns of the rows as an import reads them. -/
def importRows (emitted : List RowAt) : Rows :=
  { timestamps := emitted.filterMap fun row => DateTime.fromTimestampMillis row.target
    issue := emitted.filterMap fun row => row.issue.bind DateTime.fromTimestampMillis
    lanes := emitted.filterMap RowAt.lane }

/-- The value columns of the rows as an import reads them: each row's step of the source. -/
def importArray (source : TypedArray) (shape : List ℕ) (emitted : List RowAt) : TypedArray :=
  { dtype := source.dtype
    shape := emitted.length :: shape
    bytes := emitted.flatMap fun row =>
      stepOf (source.dtype.size * perStep shape) row.offset source.bytes }

/-- An arrangement of mapped items is the map of an arrangement. -/
theorem exists_map_of_perm {α β : Type} {f : α → β} {items : List β} {as : List α}
    (h : items.Perm (as.map f)) : ∃ bs : List α, bs.Perm as ∧ items = bs.map f := by
  have hall : List.Forall₂ (fun b a => b = f a) (as.map f) as := by
    rw [List.forall₂_map_left_iff]
    exact List.forall₂_same.mpr fun _ _ => rfl
  have hcomp : Relation.Comp List.Perm (List.Forall₂ fun b a => b = f a) items as :=
    ⟨_, h, hall⟩
  rw [← List.forall₂_comp_perm_eq_perm_comp_forall₂] at hcomp
  obtain ⟨bs, hbs, hperm⟩ := hcomp
  refine ⟨bs, hperm, ?_⟩
  clear h hall hperm
  induction hbs with
  | nil => rfl
  | cons hb _ ih => rw [hb, ih, List.map_cons]

/-- A lane column has a value for every row, or for none. -/
theorem getElem?_lanes {labels : LaneLabels} {slots : List Coordinates}
    (h : ∀ c ∈ slots, c.lane < labels.count) {i : ℕ} {c : Coordinates} (hi : slots[i]? = some c) :
    (slots.filterMap fun c => labels.valueAt c.lane)[i]? = labels.valueAt c.lane := by
  cases labels with
  | none =>
    have hnil : (slots.filterMap fun c => LaneLabels.none.valueAt c.lane) = [] :=
      List.filterMap_eq_nil_iff.mpr fun _ _ => rfl
    rw [hnil]
    rfl
  | percentiles labels =>
    have hmap : (slots.filterMap fun c => (LaneLabels.percentiles labels).valueAt c.lane) =
        slots.map fun c => .percentile (labels.getD c.lane default) := by
      rw [← List.filterMap_eq_map]
      apply List.filterMap_congr
      intro c hc
      rw [LaneLabels.valueAt, getElem?_of_lt (h c hc)]
      rfl
    have hc := h c (List.mem_of_getElem? hi)
    rw [hmap, List.getElem?_map, hi, LaneLabels.valueAt, getElem?_of_lt hc]
    rfl
  | scenarios n =>
    have hmap : (slots.filterMap fun c => (LaneLabels.scenarios n).valueAt c.lane) =
        slots.map fun c => .scenario c.lane := by
      rw [← List.filterMap_eq_map]
      rfl
    rw [hmap, List.getElem?_map, hi]
    rfl

/-- The lane column names the lane axis. -/
theorem laneLabels_valueAt {labels : LaneLabels} (hl : labels.WellFormed) {slots : List Coordinates}
    (h : ∀ c ∈ slots, c.lane < labels.count) (hcov : ∀ lane < labels.count, ∃ c ∈ slots, c.lane = lane)
    (hpos : 0 < labels.count) (name : String) :
    laneLabels (slots.filterMap fun c => labels.valueAt c.lane) labels.tsType name = .ok labels := by
  cases labels with
  | none => rfl
  | percentiles labels =>
    have hmap : (slots.filterMap fun c => (LaneLabels.percentiles labels).valueAt c.lane) =
        (slots.map fun c => labels.getD c.lane default).map .percentile := by
      rw [List.map_map, ← List.filterMap_eq_map]
      apply List.filterMap_congr
      intro c hc
      rw [LaneLabels.valueAt, getElem?_of_lt (h c hc)]
      rfl
    rw [hmap]
    apply laneLabels_percentiles hl
    intro p
    rw [List.mem_map]
    constructor
    · rintro ⟨c, hc, rfl⟩
      exact List.mem_of_getElem? (getElem?_of_lt (h c hc))
    · intro hp
      obtain ⟨lane, hlane, rfl⟩ := List.mem_iff_getElem.mp hp
      obtain ⟨c, hc, rfl⟩ := hcov lane hlane
      exact ⟨c, hc, by rw [List.getD_eq_getElem _ _ hlane]⟩
  | scenarios n =>
    have hmap : (slots.filterMap fun c => (LaneLabels.scenarios n).valueAt c.lane) =
        (slots.map fun c => (c.lane : ℤ)).map .scenario := by
      rw [List.map_map, ← List.filterMap_eq_map]
      rfl
    rw [hmap]
    change 0 < n at hpos
    apply laneLabels_scenarios hpos
    · intro s hs
      obtain ⟨c, hc, rfl⟩ := List.mem_map.mp hs
      have := h c hc
      change c.lane < n at this
      omega
    · obtain ⟨c, hc, hlane⟩ := hcov (n - 1) (Nat.sub_lt hpos Nat.one_pos)
      exact List.mem_map.mpr ⟨c, hc, congrArg Nat.cast hlane⟩

/-- The columns of an arrangement of a forecast's rows. -/
theorem importRows_map {parts : ForecastParts} {horizonSteps : ℕ} {slots : List Coordinates}
    (hms : ∀ c ∈ slots, (parts.grid.issueAt c.window).IsMillis ∧
      (parts.grid.targetAt c.window c.step).IsMillis) :
    importRows (slots.map (rowOf parts horizonSteps)) =
      { timestamps := slots.map fun c => parts.grid.targetAt c.window c.step
        issue := slots.map fun c => parts.grid.issueAt c.window
        lanes := slots.filterMap fun c => parts.lanes.valueAt c.lane } := by
  unfold importRows
  rw [Rows.mk.injEq]
  refine ⟨?_, ?_, ?_⟩
  · rw [List.filterMap_map, ← List.filterMap_eq_map]
    apply List.filterMap_congr
    intro c hc
    exact DateTime.fromTimestampMillis_timestampMillis (hms c hc).2
  · rw [List.filterMap_map, ← List.filterMap_eq_map]
    apply List.filterMap_congr
    intro c hc
    exact DateTime.fromTimestampMillis_timestampMillis (hms c hc).1
  · rw [List.filterMap_map]
    rfl

/-! ### The rebuild -/

/-- What an export and an import of a dense forecast both rely on: the array is what the constructor
checked, no dimension is empty, and the grid is in whole milliseconds and within the calendar. -/
structure Emitted (f : ForecastFields) (labels : LaneLabels) (horizonSteps : ℕ) (shape : List ℕ) :
    Prop extends Dense f labels horizonSteps shape where
  checked : f.data.checkBytes = .ok ()
  nonempty : 0 ∉ f.data.shape
  millis : f.initialTimestamp.IsMillis
  stops : (f.horizon.addTo f.initialTimestamp 1).isSome = true
  million : horizonSteps ≤ 1000000
  representable : (gridOf f).Representable horizonSteps

namespace Emitted

variable {f : ForecastFields} {labels : LaneLabels} {horizonSteps : ℕ} {shape : List ℕ}
  (h : Emitted f labels horizonSteps shape)

include h

theorem prod_pos : 0 < labels.count * horizonSteps * f.count := by
  rw [← LaneLabels.prod_leading]
  apply Nat.pos_of_ne_zero
  intro hz
  apply h.nonempty
  rw [h.shape]
  exact List.mem_append_left _ (List.prod_eq_zero_iff.mp hz)

theorem count_pos : 0 < f.count := Nat.pos_of_mul_pos_left h.prod_pos

theorem steps_pos : 0 < horizonSteps :=
  Nat.pos_of_mul_pos_left (Nat.pos_of_mul_pos_right h.prod_pos)

theorem lanes_pos : 0 < labels.count :=
  Nat.pos_of_mul_pos_right (Nat.pos_of_mul_pos_right h.prod_pos)

theorem fits : labels.count * horizonSteps * f.count < usizeBound := by
  rw [← LaneLabels.prod_leading]
  exact leading_lt h.shape h.checked

theorem issueAt_isMillis {window : ℕ} (hw : window < f.count) :
    ((gridOf f).issueAt window).IsMillis :=
  Period.addTo_isMillis h.millis (h.representable.issue window hw)

theorem targetAt_isMillis {window step : ℕ} (hw : window < f.count) (hs : step < horizonSteps) :
    ((gridOf f).targetAt window step).IsMillis :=
  Period.addTo_isMillis (h.issueAt_isMillis hw) (h.representable.target window hw step hs)

theorem issueAt_zero : (gridOf f).issueAt 0 = f.initialTimestamp := by
  unfold ForecastGrid.issueAt
  change (f.interval.addTo f.initialTimestamp (0 : ℕ)).getD default = _
  rw [Nat.cast_zero, Period.addTo_zero h.millis.1, Option.getD_some]

/-- Later windows are issued later. -/
theorem issueAt_lt {w w' : ℕ} (hw : w < w') (hw' : w' < f.count) :
    (gridOf f).issueAt w < (gridOf f).issueAt w' := by
  cases h.interval with
  | inl hpos =>
    exact Period.addTo_lt hpos h.millis.1 (Int.ofNat_lt.mpr hw)
      (h.representable.issue w (hw.trans hw')) (h.representable.issue w' hw')
  | inr hone =>
    have := hone.1
    omega

/-- Later steps of a window are at later targets. -/
theorem targetAt_lt {w s s' : ℕ} (hw : w < f.count) (hs : s < s') (hs' : s' < horizonSteps) :
    (gridOf f).targetAt w s < (gridOf f).targetAt w s' :=
  Period.addTo_lt h.resolution (h.issueAt_isMillis hw).1 (Int.ofNat_lt.mpr hs)
    (h.representable.target w hw s (hs.trans hs')) (h.representable.target w hw s' hs')

theorem targetAt_inj {w s s' : ℕ} (hw : w < f.count) (hs : s < horizonSteps)
    (hs' : s' < horizonSteps) : (gridOf f).targetAt w s = (gridOf f).targetAt w s' ↔ s = s' := by
  constructor
  · intro he
    have hself : ∀ t : DateTime, ¬ t < t := fun t ht => lt_irrefl _ (instantKey_lt ht)
    by_contra hne
    cases Nat.lt_or_gt_of_ne hne with
    | inl hlt =>
      have := h.targetAt_lt hw hlt hs'
      rw [he] at this
      exact hself _ this
    | inr hgt =>
      have := h.targetAt_lt hw hgt hs
      rw [he] at this
      exact hself _ this
  · intro he
    rw [he]

/-- The issue times, in order. -/
theorem pairwise_issues : ((List.range f.count).map (gridOf f).issueAt).Pairwise (· < ·) := by
  rw [List.pairwise_map]
  apply List.pairwise_lt_range.imp_of_mem
  intro w w' _ hw' hlt
  exact h.issueAt_lt hlt (List.mem_range.mp hw')

/-- The rows' issue times are the windows'. -/
theorem issues {slots : List Coordinates} (hslots : slots.Perm (slotsOf f.count horizonSteps labels.count)) :
    distinctSorted (slots.map fun c => (gridOf f).issueAt c.window) =
      (List.range f.count).map (gridOf f).issueAt := by
  apply distinctSorted_eq h.pairwise_issues
  intro t
  rw [List.mem_map, List.mem_map]
  constructor
  · rintro ⟨c, hc, rfl⟩
    exact ⟨c.window, List.mem_range.mpr (mem_slotsOf.mp (hslots.mem_iff.mp hc)).1, rfl⟩
  · rintro ⟨w, hw, rfl⟩
    have hmem : (⟨w, 0, 0⟩ : Coordinates) ∈ slotsOf f.count horizonSteps labels.count :=
      mem_slotsOf.mpr ⟨List.mem_range.mp hw, h.steps_pos, h.lanes_pos⟩
    exact ⟨_, hslots.mem_iff.mpr hmem, rfl⟩

theorem windows (name : String) : checkWindows f.interval f.initialTimestamp name 0
    ((List.range f.count).map (gridOf f).issueAt) = .ok () := by
  apply checkWindows_eq_ok.mpr
  intro k t hk
  rw [List.getElem?_map] at hk
  obtain ⟨w, hw, rfl⟩ := Option.map_eq_some_iff.mp hk
  obtain ⟨hlt, rfl⟩ := List.getElem?_eq_some_iff.mp hw
  rw [List.length_range] at hlt
  rw [Nat.zero_add, List.getElem_range]
  exact h.representable.issue k hlt

/-- The walk over the first window counts the steps of the horizon. -/
theorem stepsIn (name : String) :
    stepsIn f.initialTimestamp f.resolution f.horizon name = .ok horizonSteps := by
  obtain ⟨stop, hstop⟩ := Option.isSome_iff_exists.mp h.stops
  have hend : f.resolution.addTo f.initialTimestamp horizonSteps = some stop := by
    rw [(addTo_computeH h.steps).2, hstop]
  apply stepsIn_eq hstop hend _ h.million
  intro step hstep
  have htarget := h.representable.target 0 h.count_pos step hstep
  rw [h.issueAt_zero] at htarget
  exact ⟨_, htarget, Period.addTo_lt h.resolution h.millis.1 (Int.ofNat_lt.mpr hstep) htarget hend⟩

theorem length_bytes : f.data.bytes.length =
    labels.count * horizonSteps * f.count * (f.data.dtype.size * perStep shape) := by
  have hwf : f.data.bytes.length = f.data.shape.prod * f.data.dtype.size :=
    TypedArray.wellFormed_of_checkBytes h.checked
  have h0 : 0 ∉ shape := fun hz => h.nonempty (h.shape ▸ List.mem_append_right _ hz)
  have hper : perStep shape = shape.prod :=
    max_eq_right (Nat.pos_of_ne_zero fun hz => h0 (List.prod_eq_zero_iff.mp hz))
  rw [hwf, h.shape, List.prod_append, LaneLabels.prod_leading, hper]
  ring

end Emitted

/-! ### The rebuild of emitted rows -/

section

variable [FloatText] [F64Debug] {f : ForecastFields} {labels : LaneLabels} {horizonSteps : ℕ}
  {shape : List ℕ}

/-- A row's coordinates are those of the slot it was emitted for. -/
theorem Emitted.coordinatesOf_eq (h : Emitted f labels horizonSteps shape) {plan : CubePlan}
    {rows : Rows} {i : ℕ} {c : Coordinates} (hc : c ∈ slotsOf f.count horizonSteps labels.count)
    (hissues : plan.issues = (List.range f.count).map (gridOf f).issueAt)
    (hresolution : plan.resolution = f.resolution) (hsteps : plan.horizonSteps = horizonSteps)
    (hlabels : plan.labels = labels)
    (hissue : rows.issue.getD i default = (gridOf f).issueAt c.window)
    (htarget : rows.timestamps.getD i default = (gridOf f).targetAt c.window c.step)
    (hlane : rows.lanes[i]? = labels.valueAt c.lane) :
    coordinatesOf plan rows i = .ok c := by
  obtain ⟨hw, hs, hl⟩ := mem_slotsOf.mp hc
  have hwindow : plan.issues.idxOf ((gridOf f).issueAt c.window) = c.window := by
    rw [hissues]
    have hnodup : ((List.range f.count).map (gridOf f).issueAt).Nodup := by
      apply h.pairwise_issues.imp
      intro a b hlt he
      rw [he] at hlt
      exact lt_irrefl _ (instantKey_lt hlt)
    have hlen : c.window < ((List.range f.count).map (gridOf f).issueAt).length := by
      simpa using hw
    have hget : ((List.range f.count).map (gridOf f).issueAt)[c.window] =
        (gridOf f).issueAt c.window := by simp
    rw [← hget]
    exact hnodup.idxOf_getElem c.window hlen
  have hstep : stepOfTarget ((gridOf f).issueAt c.window) ((gridOf f).targetAt c.window c.step)
      f.resolution horizonSteps plan.name = .ok c.step := by
    apply stepAmong_eq (List.mem_range.mpr hs)
    intro s hs'
    have hs' := List.mem_range.mp hs'
    exact ⟨_, h.representable.target c.window hw s hs', h.targetAt_inj hw hs' hs⟩
  have hindex := LaneLabels.indexOf_valueAt h.labels hl
  unfold coordinatesOf
  simp only [hissue, htarget, hresolution, hsteps, hlabels, hlane, hwindow]
  exact except_bind_eq_ok.mpr ⟨_, hstep, except_bind_eq_ok.mpr ⟨_, hindex, rfl⟩⟩

/-- The plan of a forecast's own cube. -/
def Emitted.plan (_ : Emitted f labels horizonSteps shape) (name : String) : CubePlan :=
  { issues := (List.range f.count).map (gridOf f).issueAt
    resolution := f.resolution
    horizonSteps, labels, name
    width := f.data.dtype.size * perStep shape }

/-- The rows of the given slots. -/
def emittedRows (f : ForecastFields) (labels : LaneLabels) (horizonSteps : ℕ)
    (slots : List Coordinates) : List RowAt :=
  slots.map (rowOf ⟨f.data, labels, gridOf f⟩ horizonSteps)

section

variable (h : Emitted f labels horizonSteps shape) {slots : List Coordinates}
  (hslots : slots.Perm (slotsOf f.count horizonSteps labels.count))

include hslots

omit [FloatText] [F64Debug] in
theorem mem_slots {c : Coordinates} (hc : c ∈ slots) :
    c.window < f.count ∧ c.step < horizonSteps ∧ c.lane < labels.count :=
  mem_slotsOf.mp (hslots.mem_iff.mp hc)

omit [FloatText] [F64Debug] in
theorem length_slots : slots.length = labels.count * horizonSteps * f.count := by
  rw [hslots.length_eq, length_slotsOf]

include h

omit [FloatText] [F64Debug] in
/-- The columns an import reads. -/
theorem Emitted.importRows_eq : importRows (emittedRows f labels horizonSteps slots) =
    { timestamps := slots.map fun c => (gridOf f).targetAt c.window c.step
      issue := slots.map fun c => (gridOf f).issueAt c.window
      lanes := slots.filterMap fun c => labels.valueAt c.lane } :=
  importRows_map fun _ hc => ⟨h.issueAt_isMillis (mem_slots hslots hc).1,
    h.targetAt_isMillis (mem_slots hslots hc).1 (mem_slots hslots hc).2.1⟩

omit [FloatText] [F64Debug] in
theorem Emitted.covers (name : String) :
    (h.plan name).Covers (importRows (emittedRows f labels horizonSteps slots)) := by
  have hlen : (h.plan name).issues.length = f.count := by
    unfold Emitted.plan
    rw [List.length_map, List.length_range]
  constructor
  · rw [hlen]
    exact h.fits
  · rw [h.importRows_eq hslots]
    intro i hi
    change _ ∈ (List.range f.count).map (gridOf f).issueAt
    rw [← h.issues hslots]
    apply mem_distinctSorted.mpr
    exact List.mem_of_getElem? (getElem?_of_lt (by simpa using hi))

/-- Each row is at the slot it was emitted for. -/
theorem Emitted.rowSlot_eq (name : String) {i : ℕ} {c : Coordinates} (hi : slots[i]? = some c) :
    let rows := importRows (emittedRows f labels horizonSteps slots)
    coordinatesOf (h.plan name) rows i = .ok c ∧
      rowSlot (h.plan name) rows i = flatIndex horizonSteps f.count c.lane c.step c.window := by
  intro rows
  have hrows : rows = _ := h.importRows_eq hslots
  have hc : coordinatesOf (h.plan name) rows i = .ok c := by
    apply h.coordinatesOf_eq (hslots.mem_iff.mp (List.mem_of_getElem? hi)) rfl rfl rfl rfl
    · rw [hrows, List.getD_eq_getElem?_getD, List.getElem?_map, hi]
      rfl
    · rw [hrows, List.getD_eq_getElem?_getD, List.getElem?_map, hi]
      rfl
    · rw [hrows]
      exact getElem?_lanes (fun c hc => (mem_slots hslots hc).2.2) hi
  refine ⟨hc, ?_⟩
  unfold rowSlot
  rw [hc]
  change flatIndex horizonSteps ((List.range f.count).map (gridOf f).issueAt).length _ _ _ = _
  rw [List.length_map, List.length_range]

omit [FloatText] [F64Debug] in
/-- The bytes an import reads: one step a row, each that of the row's slot. -/
theorem Emitted.importArray_bytes (name : String) :
    let array := importArray f.data shape (emittedRows f labels horizonSteps slots)
    array.bytes.length = slots.length * (h.plan name).width ∧
      ∀ i c, slots[i]? = some c → stepOf (h.plan name).width i array.bytes =
        stepOf (h.plan name).width (flatIndex horizonSteps f.count c.lane c.step c.window)
          f.data.bytes := by
  intro array
  have hbytes : array.bytes = slots.flatMap fun c => stepOf (h.plan name).width
      (flatIndex horizonSteps f.count c.lane c.step c.window) f.data.bytes := by
    change (slots.map _).flatMap _ = _
    rw [List.flatMap_map]
    rfl
  have hlen : ∀ c ∈ slots, (stepOf (h.plan name).width
      (flatIndex horizonSteps f.count c.lane c.step c.window) f.data.bytes).length =
      (h.plan name).width := by
    intro c hc
    obtain ⟨hw, hs, hl⟩ := mem_slots hslots hc
    apply length_stepOf
    rw [h.length_bytes]
    exact Nat.mul_le_mul_right _ (flatIndex_lt hl hs hw)
  constructor
  · rw [hbytes, length_flatMap_eq hlen]
  · intro i c hi
    rw [hbytes, stepOf_flatMap hlen hi]

/-- Placing the rows fills the cube with the forecast's own bytes. -/
theorem Emitted.placed (checks : Bool) (name : String) :
    ∃ filled, (List.range slots.length).foldlM
        (placeRow checks (h.plan name) (importRows (emittedRows f labels horizonSteps slots))
          (importArray f.data shape (emittedRows f labels horizonSteps slots)))
        (List.replicate slots.length none) = .ok filled ∧
      filled.findIdx? Option.isNone = none ∧ (filled.filterMap id).flatten = f.data.bytes := by
  have hcovers := h.covers hslots name
  have hle : slots.length ≤
      (importRows (emittedRows f labels horizonSteps slots)).timestamps.length := by
    rw [h.importRows_eq hslots, List.length_map]
  have hget : ∀ i < slots.length, ∃ c, slots[i]? = some c := fun i hi =>
    ⟨_, List.getElem?_eq_getElem hi⟩
  obtain ⟨hlen, hstep⟩ := h.importArray_bytes hslots name
  have hrows : ∀ i < slots.length,
      (∃ c, coordinatesOf (h.plan name) (importRows (emittedRows f labels horizonSteps slots)) i =
        .ok c) ∧ (i + 1) * (h.plan name).width ≤
        (importArray f.data shape (emittedRows f labels horizonSteps slots)).bytes.length := by
    intro i hi
    obtain ⟨c, hc⟩ := hget i hi
    refine ⟨⟨c, (h.rowSlot_eq hslots name hc).1⟩, ?_⟩
    rw [hlen]
    exact Nat.mul_le_mul_right _ hi
  have hinj : ∀ i < slots.length, ∀ j < slots.length,
      rowSlot (h.plan name) (importRows (emittedRows f labels horizonSteps slots)) i =
        rowSlot (h.plan name) (importRows (emittedRows f labels horizonSteps slots)) j → i = j := by
    intro i hi j hj he
    obtain ⟨c, hc⟩ := hget i hi
    obtain ⟨c', hc'⟩ := hget j hj
    rw [(h.rowSlot_eq hslots name hc).2, (h.rowSlot_eq hslots name hc').2] at he
    obtain ⟨hw, hs, -⟩ := mem_slots hslots (List.mem_of_getElem? hc)
    obtain ⟨hw', hs', -⟩ := mem_slots hslots (List.mem_of_getElem? hc')
    obtain ⟨hl, hs, hw⟩ := flatIndex_inj hs hs' hw hw' he
    have heq : c = c' := by
      cases c
      cases c'
      rw [Coordinates.mk.injEq]
      exact ⟨hw, hs, hl⟩
    apply (List.getElem?_inj hi (hslots.nodup_iff.mpr (nodup_slotsOf _ _ _))).mp
    rw [hc, hc', heq]
  have hn : slots.length = (h.plan name).labels.count * (h.plan name).horizonSteps *
      (h.plan name).issues.length := by
    unfold Emitted.plan
    rw [length_slots hslots, List.length_map, List.length_range]
  obtain ⟨filled, hfilled⟩ := exists_foldlM_placeRow hcovers hle hn hrows hinj
  obtain ⟨hfilledLen, hscattered, -⟩ := foldlM_placeRow hcovers hle hfilled
  refine ⟨filled, hfilled, hscattered.isSome_of_full hfilledLen, ?_⟩
  rw [hscattered.values_of_full (fun k => stepOf (h.plan name).width k f.data.bytes) hfilledLen]
  · change (List.range slots.length).flatMap
      (fun k => stepOf (h.plan name).width k f.data.bytes) = _
    rw [flatMap_stepOf, length_slots hslots]
    unfold Emitted.plan
    rw [← h.length_bytes, List.take_length]
  · intro i hi
    obtain ⟨c, hc⟩ := hget i hi
    rw [hstep i c hc, (h.rowSlot_eq hslots name hc).2]

/-- The rows of a forecast, in any order, go through every step of a rebuild. -/
theorem Emitted.rebuilds (checks : Bool) {row : SeriesCells}
    (hinterval : row.interval = f.interval.toIso8601) (hhorizon : row.horizon = f.horizon.toIso8601)
    (name : String) {bare : TimeSeriesData}
    (hbare : labels.construct (bareForecast f.initialTimestamp f.resolution f.horizon f.interval
      f.count f.data name) = .ok bare) :
    ∃ r : Rebuild, r.Succeeds checks labels.tsType row (some f.resolution)
      (importRows (emittedRows f labels horizonSteps slots))
      (importArray f.data shape (emittedRows f labels horizonSteps slots)) name bare := by
  obtain ⟨filled, hfilled, hfull, hcube⟩ := h.placed hslots checks name
  have hrows := h.importRows_eq hslots
  have hlen : ((List.range f.count).map (gridOf f).issueAt).length = f.count := by
    rw [List.length_map, List.length_range]
  have htimes :
      (importRows (emittedRows f labels horizonSteps slots)).timestamps.length = slots.length := by
    rw [hrows, List.length_map]
  refine ⟨{ resolution := f.resolution, interval := f.interval, horizon := f.horizon,
            initialTimestamp := f.initialTimestamp,
            issues := (List.range f.count).map (gridOf f).issueAt, horizonSteps, labels,
            slots := filled, cube := f.data }, ?_⟩
  constructor
  · rfl
  · rw [hinterval]
    apply requiredPeriod_toIso8601
    cases h.interval with
    | inl hpos => exact Period.wholeMillis_of_isPositive hpos
    | inr hzero => exact Period.wholeMillis_of_isZero hzero.2
  · rw [hhorizon]
    exact requiredPeriod_toIso8601 (Period.wholeMillis_of_isPositive h.horizon)
  · rw [htimes, hrows, List.length_map]
  · rw [hrows]
    exact h.issues hslots
  · obtain ⟨n, hn⟩ := Nat.exists_eq_succ_of_ne_zero h.count_pos.ne'
    change ((List.range f.count).map (gridOf f).issueAt).head? = _
    rw [hn, List.range_succ_eq_map, List.map_cons, List.head?_cons, h.issueAt_zero]
  · exact h.windows name
  · exact h.stepsIn name
  · rw [hrows]
    apply laneLabels_valueAt h.labels (fun c hc => (mem_slots hslots hc).2.2) _ h.lanes_pos
    intro lane hlane
    exact ⟨⟨0, 0, lane⟩,
      hslots.mem_iff.mpr (mem_slotsOf.mpr ⟨h.count_pos, h.steps_pos, hlane⟩), rfl⟩
  · rw [htimes, length_slots hslots]
    simp only [hlen]
    exact mul_mulUsize_eq h.count_pos h.fits
  · rw [htimes]
    exact hfilled
  · exact hfull
  · simp only [hlen, hcube]
    apply new_eq_ok.mpr
    refine ⟨?_, h.checked⟩
    change f.data = ⟨f.data.dtype, labels.leading horizonSteps f.count ++ shape, f.data.bytes⟩
    rw [← h.shape]
  · unfold Rebuild.fields
    simp only [hlen]
    exact hbare

end

end

section

variable [FloatText] [F64Debug]

/-- **The rows of an export rebuild the forecast**, in any order. -/
theorem forecast_forecastRows {checks : Bool} {f : ForecastFields} {labels : LaneLabels}
    {d : TimeSeriesData} {rows emitted : List RowAt} {row : SeriesCells} {name : String}
    (hd : labels.construct f = .ok d) (hchecked : f.data.checkBytes = .ok ())
    (hne : 0 ∉ f.data.shape) (hms : f.initialTimestamp.IsMillis)
    (hstops : (f.horizon.addTo f.initialTimestamp 1).isSome = true)
    (hmillion : ∀ horizonSteps, computeH f.horizon f.resolution = .ok horizonSteps →
      horizonSteps ≤ 1000000)
    (hrows : forecastRows d = .ok rows) (hperm : emitted.Perm rows)
    (hinterval : row.interval = f.interval.toIso8601)
    (hhorizon : row.horizon = f.horizon.toIso8601) :
    ∃ bare, labels.construct (bareForecast f.initialTimestamp f.resolution f.horizon f.interval
        f.count f.data name) = .ok bare ∧
      forecast checks d.timeSeriesType row (some f.resolution) (importRows emitted)
        (importArray f.data (f.data.shape.drop d.timeSeriesType.leadingDims) emitted) name =
          .ok bare := by
  obtain ⟨bare, hbare⟩ := LaneLabels.construct_bare name hd
  refine ⟨bare, hbare, ?_⟩
  obtain ⟨⟨horizonSteps, shape, hdense, hdims⟩, hparts, htype⟩ := LaneLabels.construct_ok hd
  have hdrop : f.data.shape.drop d.timeSeriesType.leadingDims = shape := by
    rw [hdense.shape, hdims, List.drop_left]
  have hsteps : f.data.shape.getD (d.timeSeriesType.leadingDims - 2) 0 = horizonSteps := by
    rw [hdense.shape, hdims]
    cases labels <;> rfl
  obtain ⟨hrepresentable, rfl⟩ := forecastRows_eq hparts hsteps hrows
  obtain ⟨slots, hslots, rfl⟩ := exists_map_of_perm hperm
  have h : Emitted f labels horizonSteps shape :=
    { toDense := hdense
      checked := hchecked
      nonempty := hne
      millis := hms
      stops := hstops
      million := hmillion horizonSteps hdense.steps
      representable := hrepresentable }
  rw [hdrop, htype]
  exact forecast_eq_ok.mpr (h.rebuilds hslots checks hinterval hhorizon name hbare)

/-- **The rebuild is exact.** The rows an export emits, in any order, rebuild the forecast; a forecast
comes only of exactly one row a slot of its cube; and nothing panics while a `usize` counts the
slots. -/
theorem forecast_exact (checks : Bool) :
    (∀ (f : ForecastFields) (labels : LaneLabels) (d : TimeSeriesData) (rows emitted : List RowAt)
      (row : SeriesCells) (name : String), labels.construct f = .ok d →
      f.data.checkBytes = .ok () → 0 ∉ f.data.shape → f.initialTimestamp.IsMillis →
      (f.horizon.addTo f.initialTimestamp 1).isSome = true →
      (∀ horizonSteps, computeH f.horizon f.resolution = .ok horizonSteps →
        horizonSteps ≤ 1000000) →
      forecastRows d = .ok rows → emitted.Perm rows → row.interval = f.interval.toIso8601 →
      row.horizon = f.horizon.toIso8601 →
      ∃ bare, labels.construct (bareForecast f.initialTimestamp f.resolution f.horizon f.interval
          f.count f.data name) = .ok bare ∧
        forecast checks d.timeSeriesType row (some f.resolution) (importRows emitted)
          (importArray f.data (f.data.shape.drop d.timeSeriesType.leadingDims) emitted) name =
            .ok bare) ∧
    (∀ (tsType : TimeSeriesType) (row : SeriesCells) (resolution : Option Period) (rows : Rows)
      (array : TypedArray) (name : String) (data : TimeSeriesData),
      forecast checks tsType row resolution rows array name = .ok data →
      ∃ f labels horizonSteps, LaneLabels.construct f labels = .ok data ∧
        resolution = some f.resolution ∧
        requiredPeriod row.interval "interval" name = .ok f.interval ∧
        requiredPeriod row.horizon "horizon" name = .ok f.horizon ∧
        Placed f horizonSteps labels rows array) ∧
    ∀ (tsType : TimeSeriesType) (row : SeriesCells) (resolution : Option Period) (rows : Rows)
      (array : TypedArray) (name : String), Sized tsType row resolution rows array name →
      forecast checks tsType row resolution rows array name ≠ .error .panic := by
  refine ⟨?_, ?_, ?_⟩
  · intro f labels d rows emitted row name hd hchecked hne hms hstops hmillion hrows hperm
    exact forecast_forecastRows hd hchecked hne hms hstops hmillion hrows hperm
  · intro tsType row resolution rows array name data h
    exact forecast_placed h
  · intro tsType row resolution rows array name h
    exact forecast_ne_panic h

end

namespace Sample

scoped instance : FloatText := ⟨fun v => toString v.bits, fun _ => "[]", fun _ => .ok []⟩

scoped instance : F64Debug := ⟨fun v => toString v.bits⟩

def hour : Period := .fixed ⟨3600000000000, Duration.valid_hour⟩

def twoHours : Period := .fixed ⟨7200000000000, by decide⟩

/-- Two windows of two hourly steps, a byte each. -/
def load : ForecastFields :=
  bareForecast .epoch hour twoHours hour 2 ⟨.u8, [2, 2], [1, 2, 3, 4]⟩ "load"

/-- The grid columns of a two-hour forecast. -/
def grid : SeriesCells :=
  ⟨0, none, "", "", "", "", "PT1H", "PT1H", "PT2H", "", "", "", "", "", "", "", ""⟩

/-- The rows of the forecast, window by window. -/
def loadRows : List RowAt :=
  [⟨some 0, 0, none, 0⟩, ⟨some 0, 3600000, none, 2⟩, ⟨some 3600000, 3600000, none, 1⟩,
    ⟨some 3600000, 7200000, none, 3⟩]

theorem forecast_exact_reversed :
    ∃ bare, LaneLabels.none.construct load = .ok bare ∧
      forecast true .deterministic grid (some hour) (importRows loadRows.reverse)
        (importArray load.data [] loadRows.reverse) "load" = .ok bare ∧
      (∃ f labels horizonSteps, LaneLabels.construct f labels = .ok bare ∧
        some hour = some f.resolution ∧
        requiredPeriod grid.interval "interval" "load" = .ok f.interval ∧
        requiredPeriod grid.horizon "horizon" "load" = .ok f.horizon ∧
        Placed f horizonSteps labels (importRows loadRows.reverse)
          (importArray load.data [] loadRows.reverse)) ∧
      forecast true .deterministic grid (some hour) (importRows loadRows.reverse)
        (importArray load.data [] loadRows.reverse) "load" ≠ .error .panic := by
  obtain ⟨hexport, himport, hpanic⟩ := forecast_exact true
  obtain ⟨bare, hbare, hok⟩ := hexport load .none _ loadRows loadRows.reverse grid "load" rfl
    (by decide) (by decide) (by decide) (by decide +kernel) (by
      intro horizonSteps hsteps
      have htwo : computeH load.horizon load.resolution = .ok 2 := by decide
      rw [htwo] at hsteps
      cases hsteps
      decide) rfl (List.reverse_perm _) (by decide +kernel) (by decide +kernel)
  refine ⟨bare, hbare, hok, himport _ _ _ _ _ _ _ hok, hpanic _ _ _ _ _ _ ⟨?_, ?_, ?_⟩⟩
  · intro initial rest p horizon horizonSteps labels hissues hp hhorizon hsteps hlabels
    have hsorted : distinctSorted (importRows loadRows.reverse).issue =
        [.epoch, ⟨3600, 0, by decide⟩] := by decide +kernel
    have htwo : requiredPeriod grid.horizon "horizon" "load" = .ok twoHours := by decide +kernel
    have hwalk : stepsIn .epoch hour twoHours "load" = .ok 2 := by decide +kernel
    rw [hsorted] at hissues
    cases hissues
    cases hp
    rw [htwo] at hhorizon
    cases hhorizon
    rw [hwalk] at hsteps
    cases hsteps
    cases hlabels
    decide
  · decide
  · intro p hp
    cases hp

/-- A forecast of no windows is constructed, has no rows, and is not rebuilt; and a scenario number
near a third of the largest `usize` leads an index past its buffer. -/
theorem forecast_not_exact :
    (∃ d, LaneLabels.none.construct
        (bareForecast .epoch hour twoHours hour 0 ⟨.u8, [2, 0], []⟩ "load") = .ok d ∧
      forecastRows d = .ok [] ∧
      forecast false .deterministic grid (some hour) (importRows [])
        (importArray ⟨.u8, [2, 0], []⟩ [] []) "load" =
          .error (.error (unsupported "series 'load' is a forecast with no rows"))) ∧
    forecast false .scenarios { grid with horizon := "PT3H" } (some hour)
      ⟨[.epoch, .epoch], [.epoch, .epoch], [.scenario 6148914691236517205, .scenario 0]⟩
      ⟨.u8, [2], [1, 2]⟩ "load" = .error .panic := by
  refine ⟨⟨_, rfl, rfl, ?_⟩, ?_⟩
  · decide +kernel
  · decide +kernel

end Sample

end InfraStore.Tabular
