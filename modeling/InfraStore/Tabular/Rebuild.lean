import InfraStore.Tabular.Forecast

/-!
# One row a slot

What a rebuilt forecast says of the rows it came from, and when a rebuild stays within its buffers.

* `forecast_eq_ok`: the steps of a rebuild that goes through;
* `foldlM_placeRow`: after the first rows, each is in the slot of its coordinates;
* `forecast_placed`: a cube comes of exactly one row a slot;
* `forecast_ne_panic`: nothing panics while a `usize` counts the slots.
-/

namespace InfraStore.Tabular

open Lib

theorem mapErr_eq_ok {ε α : Type} {f : ε → TimeSeriesError} {r : Except ε α} {a : α} :
    mapErr f r = .ok a ↔ r = .ok a := by
  cases r with
  | error e => simp [mapErr]
  | ok b => simp [mapErr]

/-! ### Sizes and buffers -/

theorem foldlM_checkedMul_lt {shape : List ℕ} {acc n : ℕ} (hacc : acc < usizeBound)
    (h : shape.foldlM checkedMul acc = some n) : n < usizeBound := by
  induction shape generalizing acc with
  | nil =>
    cases h
    exact hacc
  | cons d shape ih =>
    rw [List.foldlM_cons] at h
    obtain ⟨m, hm, h⟩ := Option.bind_eq_some_iff.mp h
    apply ih _ h
    unfold checkedMul at hm
    split at hm
    · cases hm
      assumption
    · cases hm

/-- The leading axes of an array that could be built have few enough elements. -/
theorem leading_lt {a : TypedArray} {leading shape : List ℕ} (hs : a.shape = leading ++ shape)
    (h : a.checkBytes = .ok ()) : leading.prod < usizeBound := by
  unfold TypedArray.checkBytes at h
  obtain ⟨bytes, hbytes, -⟩ := except_bind_eq_ok.mp h
  unfold expectedBytes at hbytes
  obtain ⟨n, hn, -⟩ := except_bind_eq_ok.mp hbytes
  unfold elementCount at hn
  split at hn
  · rename_i m hm
    rw [hs, List.foldlM_append] at hm
    obtain ⟨k, hk, -⟩ := Option.bind_eq_some_iff.mp hm
    have hlt := foldlM_checkedMul_lt (by decide) hk
    rw [foldlM_checkedMul hk, Nat.one_mul] at hlt
    exact hlt
  · cases hn

theorem LaneLabels.prod_leading (labels : LaneLabels) (horizonSteps count : ℕ) :
    (labels.leading horizonSteps count).prod = labels.count * horizonSteps * count := by
  cases labels with
  | none => simp [leading, LaneLabels.count]
  | percentiles labels => simp [leading, Nat.mul_assoc]
  | scenarios n => simp [leading, Nat.mul_assoc]

theorem new_eq_ok {dtype : Dtype} {shape : List ℕ} {bytes : List UInt8} {a : TypedArray} :
    TypedArray.new dtype shape bytes = .ok a ↔ a = ⟨dtype, shape, bytes⟩ ∧ a.checkBytes = .ok () := by
  unfold TypedArray.new
  constructor
  · intro h
    obtain ⟨_, hc, h⟩ := except_bind_eq_ok.mp h
    cases h
    exact ⟨rfl, hc⟩
  · rintro ⟨rfl, hc⟩
    exact except_bind_eq_ok.mpr ⟨(), hc, rfl⟩

/-- The number of rows is the number of slots, where a `usize` counts them. -/
theorem mul_mulUsize_eq {checks : Bool} {lanes horizonSteps count : ℕ} (hcount : 0 < count)
    (hfits : lanes * horizonSteps * count < usizeBound) :
    (do
      let expected ← mulUsize checks lanes horizonSteps
      mulUsize checks expected count) = .ok (lanes * horizonSteps * count) := by
  have hle : lanes * horizonSteps ≤ lanes * horizonSteps * count :=
    Nat.le_mul_of_pos_right _ hcount
  exact except_bind_eq_ok.mpr ⟨_, mulUsize_eq (by omega), mulUsize_eq hfits⟩

theorem getElem?_of_lt {α : Type} [Inhabited α] {items : List α} {i : ℕ} (h : i < items.length) :
    items[i]? = some (items.getD i default) := by
  rw [List.getD_eq_getElem?_getD, List.getElem?_eq_getElem h]
  rfl

/-- The cube of filled slots holds each row's bytes in the row's slot. -/
theorem stepOf_slots {n width : ℕ} {slots : List (Option (List UInt8))} {slot : ℕ → ℕ}
    {val : ℕ → List UInt8} (hscattered : Scattered slot val n slots) (hlen : slots.length = n)
    (hval : ∀ row < n, (val row).length = width) {row : ℕ} (hrow : row < n) :
    stepOf width (slot row) (slots.filterMap id).flatten = val row := by
  have hread : ∀ i < n, val i = (slots[slot i]?.join).getD [] := by
    intro i hi
    rw [(hscattered.filled (slot i) (val i)).mpr ⟨i, hi, rfl, rfl⟩]
    rfl
  rw [hscattered.values_of_full (fun k => (slots[k]?.join).getD []) hlen hread]
  change stepOf width (slot row) ((List.range n).flatMap fun k => (slots[k]?.join).getD []) = _
  rw [stepOf_flatMap _ (List.getElem?_range (hlen ▸ hscattered.within row hrow)), hread row hrow]
  intro k hk
  obtain ⟨i, hi, rfl⟩ := hscattered.full hlen k (List.mem_range.mp hk)
  rw [← hread i hi]
  exact hval i hi

section

variable [FloatText] [F64Debug] {checks : Bool}

/-! ### The steps of a rebuild -/

/-- What a rebuild computes on its way to a forecast. -/
structure Rebuild where
  resolution : Period
  interval : Period
  horizon : Period
  initialTimestamp : DateTime
  issues : List DateTime
  horizonSteps : ℕ
  labels : LaneLabels
  slots : List (Option (List UInt8))
  cube : TypedArray

namespace Rebuild

variable (r : Rebuild)

/-- The plan the rows are placed by. -/
def plan (array : TypedArray) (name : String) : CubePlan :=
  { issues := r.issues
    resolution := r.resolution
    horizonSteps := r.horizonSteps
    labels := r.labels
    name := name
    width := array.dtype.size * perStep array.elementShape }

/-- The forecast a constructor is given. -/
def fields (name : String) : ForecastFields :=
  bareForecast r.initialTimestamp r.resolution r.horizon r.interval r.issues.length r.cube name

/-- Every step of the rebuild goes through. -/
structure Succeeds (checks : Bool) (tsType : TimeSeriesType) (row : SeriesCells)
    (resolution : Option Period) (rows : Rows) (array : TypedArray) (name : String)
    (data : TimeSeriesData) : Prop where
  resolution : resolution = some r.resolution
  interval : requiredPeriod row.interval "interval" name = .ok r.interval
  horizon : requiredPeriod row.horizon "horizon" name = .ok r.horizon
  issued : rows.issue.length = rows.timestamps.length
  issues : distinctSorted rows.issue = r.issues
  first : r.issues.head? = some r.initialTimestamp
  windows : checkWindows r.interval r.initialTimestamp name 0 r.issues = .ok ()
  steps : stepsIn r.initialTimestamp r.resolution r.horizon name = .ok r.horizonSteps
  lanes : laneLabels rows.lanes tsType name = .ok r.labels
  count : (do
    let expected ← mulUsize checks r.labels.count r.horizonSteps
    mulUsize checks expected r.issues.length) = .ok rows.timestamps.length
  placed : (List.range rows.timestamps.length).foldlM (placeRow checks (r.plan array name) rows array)
    (List.replicate rows.timestamps.length none) = .ok r.slots
  full : r.slots.findIdx? Option.isNone = none
  built : TypedArray.new array.dtype
    (r.labels.leading r.horizonSteps r.issues.length ++ array.elementShape)
    (r.slots.filterMap id).flatten = .ok r.cube
  constructed : r.labels.construct (r.fields name) = .ok data

end Rebuild

/-- A rebuild answers a forecast exactly when all its steps go through. -/
theorem forecast_eq_ok {tsType : TimeSeriesType} {row : SeriesCells} {resolution : Option Period}
    {rows : Rows} {array : TypedArray} {name : String} {data : TimeSeriesData} :
    forecast checks tsType row resolution rows array name = .ok data ↔
      ∃ r : Rebuild, r.Succeeds checks tsType row resolution rows array name data := by
  unfold forecast
  constructor
  · intro h
    obtain ⟨p, hp, h⟩ := except_bind_eq_ok.mp h
    obtain ⟨interval, hinterval, h⟩ := except_bind_eq_ok.mp h
    obtain ⟨horizon, hhorizon, h⟩ := except_bind_eq_ok.mp h
    split at h
    · cases h
    · rename_i hissued
      simp only at h
      split at h
      · cases h
      · rename_i initial rest hissues
        obtain ⟨_, hwindows, h⟩ := except_bind_eq_ok.mp h
        obtain ⟨horizonSteps, hsteps, h⟩ := except_bind_eq_ok.mp h
        obtain ⟨labels, hlanes, h⟩ := except_bind_eq_ok.mp h
        obtain ⟨inner, hinner, h⟩ := except_bind_eq_ok.mp h
        obtain ⟨expected, hexpected, h⟩ := except_bind_eq_ok.mp h
        split at h
        · cases h
        · rename_i hcount
          obtain ⟨slots, hslots, h⟩ := except_bind_eq_ok.mp h
          split at h
          · cases h
          · rename_i hfull
            obtain ⟨cube, hcube, h⟩ := except_bind_eq_ok.mp h
            have hcount := not_not.mp hcount
            refine ⟨{ resolution := p, interval, horizon, initialTimestamp := initial,
                      issues := distinctSorted rows.issue, horizonSteps, labels, slots, cube }, ?_⟩
            constructor
            · cases resolution with
              | none => cases hp
              | some q =>
                cases hp
                rfl
            · exact checkedResult_eq_ok.mp hinterval
            · exact checkedResult_eq_ok.mp hhorizon
            · exact not_not.mp hissued
            · rfl
            · simp only [hissues, List.head?_cons]
            · exact checkedResult_eq_ok.mp hwindows
            · exact checkedResult_eq_ok.mp hsteps
            · exact checkedResult_eq_ok.mp hlanes
            · exact except_bind_eq_ok.mpr ⟨inner, hinner, hcount ▸ hexpected⟩
            · rw [← hcount] at hslots
              exact hslots
            · exact hfull
            · exact mapErr_eq_ok.mp (checkedResult_eq_ok.mp hcube)
            · exact mapErr_eq_ok.mp (checkedResult_eq_ok.mp h)
  · rintro ⟨r, h⟩
    obtain ⟨inner, hinner, hexpected⟩ := except_bind_eq_ok.mp h.count
    have hhead := h.first
    rw [← h.issues] at hhead
    simp only [h.resolution, checkedResult, h.interval, h.horizon, h.issued, ne_eq,
      not_true_eq_false, if_false, bind, Except.bind]
    split
    · rename_i hnil
      rw [hnil] at hhead
      cases hhead
    · rename_i initial rest hissues
      rw [hissues, List.head?_cons, Option.some.injEq] at hhead
      rw [hhead, h.issues, h.windows]
      simp only [h.steps, h.lanes, hinner, hexpected, not_true_eq_false, if_false]
      have hplaced := h.placed
      unfold Rebuild.plan at hplaced
      rw [hplaced]
      simp only [h.full, h.built, mapErr]
      have hdata := h.constructed
      unfold Rebuild.fields at hdata
      rw [hdata]

/-! ### Where the rows go -/

theorem coordinatesOf_ok {plan : CubePlan} {rows : Rows} {row : ℕ} {c : Coordinates}
    (h : coordinatesOf plan rows row = .ok c) :
    c.window = plan.issues.idxOf (rows.issue.getD row default) ∧
      (c.step < plan.horizonSteps ∧ plan.resolution.addTo (rows.issue.getD row default) c.step =
        some (rows.timestamps.getD row default)) ∧
      c.lane < plan.labels.count ∧ plan.labels.Names rows.lanes[row]? c.lane := by
  obtain ⟨step, hstep, h⟩ := except_bind_eq_ok.mp h
  obtain ⟨lane, hlane, h⟩ := except_bind_eq_ok.mp h
  cases h
  exact ⟨rfl, stepOfTarget_ok hstep, LaneLabels.indexOf_ok hlane⟩

/-- The slot a row belongs in. -/
def rowSlot (plan : CubePlan) (rows : Rows) (row : ℕ) : ℕ :=
  match coordinatesOf plan rows row with
  | .ok c => flatIndex plan.horizonSteps plan.issues.length c.lane c.step c.window
  | .error _ => 0

/-- A plan whose slots a `usize` counts, and whose windows are those of the rows. -/
structure CubePlan.Covers (plan : CubePlan) (rows : Rows) : Prop where
  fits : plan.labels.count * plan.horizonSteps * plan.issues.length < usizeBound
  issued : ∀ row < rows.timestamps.length, rows.issue.getD row default ∈ plan.issues

variable {plan : CubePlan} {rows : Rows} {array : TypedArray}

theorem CubePlan.Covers.slotIndex (checks : Bool) (h : plan.Covers rows) {row : ℕ}
    (hrow : row < rows.timestamps.length) {c : Coordinates}
    (hc : coordinatesOf plan rows row = .ok c) :
    c.window < plan.issues.length ∧
      slotIndex checks plan.horizonSteps plan.issues.length c = .ok (rowSlot plan rows row) ∧
      rowSlot plan rows row < plan.labels.count * plan.horizonSteps * plan.issues.length := by
  obtain ⟨hw, ⟨hs, -⟩, hl, -⟩ := coordinatesOf_ok hc
  have hwin : c.window < plan.issues.length := hw ▸ List.idxOf_lt_length_of_mem (h.issued row hrow)
  have hslot : rowSlot plan rows row =
      flatIndex plan.horizonSteps plan.issues.length c.lane c.step c.window := by
    unfold rowSlot
    rw [hc]
  rw [hslot]
  exact ⟨hwin, slotIndex_eq hl hs hwin h.fits, flatIndex_lt hl hs hwin⟩

/-- What placing a row does: it fills the slot of its coordinates, which was empty. -/
theorem placeRow_eq_ok (h : plan.Covers rows) {row : ℕ} (hrow : row < rows.timestamps.length)
    {slots slots' : List (Option (List UInt8))} :
    placeRow checks plan rows array slots row = .ok slots' ↔
      (∃ c, coordinatesOf plan rows row = .ok c) ∧
        (row + 1) * plan.width ≤ array.bytes.length ∧ slots[rowSlot plan rows row]? = some none ∧
        slots' = slots.set (rowSlot plan rows row) (some (stepOf plan.width row array.bytes)) := by
  unfold placeRow
  constructor
  · intro hok
    obtain ⟨c, hc, hok⟩ := except_bind_eq_ok.mp hok
    have hc := checkedResult_eq_ok.mp hc
    obtain ⟨slot, hslot, hok⟩ := except_bind_eq_ok.mp hok
    rw [(h.slotIndex checks hrow hc).2.1] at hslot
    cases hslot
    split at hok
    · cases hok
    · cases hok
    · rename_i hfree
      split at hok
      · rename_i hwidth
        cases hok
        exact ⟨⟨c, hc⟩, hwidth, hfree, rfl⟩
      · cases hok
  · rintro ⟨⟨c, hc⟩, hwidth, hfree, rfl⟩
    refine except_bind_eq_ok.mpr ⟨c, checkedResult_eq_ok.mpr hc, ?_⟩
    refine except_bind_eq_ok.mpr ⟨_, (h.slotIndex checks hrow hc).2.1, ?_⟩
    simp only [hfree, hwidth, if_true]

/-- After the first rows, each is in the slot of its coordinates. -/
theorem foldlM_placeRow (h : plan.Covers rows) {n m : ℕ} (hm : m ≤ rows.timestamps.length)
    {slots : List (Option (List UInt8))}
    (hok : (List.range m).foldlM (placeRow checks plan rows array) (List.replicate n none) =
      .ok slots) :
    slots.length = n ∧
      Scattered (rowSlot plan rows) (fun row => stepOf plan.width row array.bytes) m slots ∧
      ∀ row < m, (∃ c, coordinatesOf plan rows row = .ok c) ∧
        (row + 1) * plan.width ≤ array.bytes.length := by
  induction m generalizing slots with
  | zero =>
    cases hok
    exact ⟨List.length_replicate, .empty _ _ n, fun row hr => absurd hr (Nat.not_lt_zero row)⟩
  | succ m ih =>
    rw [List.range_succ, List.foldlM_append] at hok
    obtain ⟨before, hbefore, hok⟩ := except_bind_eq_ok.mp hok
    obtain ⟨after, hafter, hok⟩ := except_bind_eq_ok.mp hok
    cases hok
    obtain ⟨hlen, hscattered, hrows⟩ := ih (by omega) hbefore
    obtain ⟨hc, hwidth, hfree, rfl⟩ := (placeRow_eq_ok h (by omega)).mp hafter
    refine ⟨by rw [List.length_set, hlen], hscattered.place hfree, ?_⟩
    intro row hrow
    by_cases hlast : row = m
    · rw [hlast]
      exact ⟨hc, hwidth⟩
    · exact hrows row (by omega)

/-- Rows whose coordinates differ are all placed. -/
theorem exists_foldlM_placeRow (h : plan.Covers rows) {n m : ℕ} (hm : m ≤ rows.timestamps.length)
    (hn : n = plan.labels.count * plan.horizonSteps * plan.issues.length)
    (hrows : ∀ row < m, (∃ c, coordinatesOf plan rows row = .ok c) ∧
      (row + 1) * plan.width ≤ array.bytes.length)
    (hinj : ∀ i < m, ∀ j < m, rowSlot plan rows i = rowSlot plan rows j → i = j) :
    ∃ slots, (List.range m).foldlM (placeRow checks plan rows array) (List.replicate n none) =
      .ok slots := by
  induction m with
  | zero => exact ⟨_, rfl⟩
  | succ m ih =>
    obtain ⟨before, hbefore⟩ := ih (by omega) (fun row hr => hrows row (by omega))
      fun i hi j hj => hinj i (by omega) j (by omega)
    obtain ⟨hlen, hscattered, -⟩ := foldlM_placeRow h (by omega) hbefore
    obtain ⟨⟨c, hc⟩, hwidth⟩ := hrows m (Nat.lt_succ_self m)
    have hlt : rowSlot plan rows m < before.length := by
      rw [hlen, hn]
      exact (h.slotIndex true (by omega) hc).2.2
    have hfree := hscattered.free hlt fun i hi he => by
      have := hinj i (by omega) m (by omega) he
      omega
    obtain ⟨after, hafter⟩ : ∃ after, placeRow checks plan rows array before m = .ok after :=
      ⟨_, (placeRow_eq_ok h (by omega)).mpr ⟨⟨c, hc⟩, hwidth, hfree, rfl⟩⟩
    refine ⟨after, ?_⟩
    rw [List.range_succ, List.foldlM_append]
    exact except_bind_eq_ok.mpr ⟨before, hbefore, except_bind_eq_ok.mpr ⟨after, hafter, rfl⟩⟩

/-- Placing a row leaves as many slots, and stays within the buffers. -/
theorem placeRow_ends (h : plan.Covers rows) {row : ℕ} (hrow : row < rows.timestamps.length)
    (hwidth : (row + 1) * plan.width ≤ array.bytes.length) {slots : List (Option (List UInt8))}
    (hlen : slots.length = plan.labels.count * plan.horizonSteps * plan.issues.length) :
    (∃ slots', placeRow checks plan rows array slots row = .ok slots' ∧
      slots'.length = slots.length) ∨
    ∃ e, placeRow checks plan rows array slots row = .error (.error e) := by
  unfold placeRow
  simp only [bind, Except.bind]
  cases hc : coordinatesOf plan rows row with
  | error e => exact .inr ⟨e, rfl⟩
  | ok c =>
    obtain ⟨-, hslot, hlt⟩ := h.slotIndex checks hrow hc
    have hin : rowSlot plan rows row < slots.length := hlen ▸ hlt
    have hget := List.getElem?_eq_getElem hin
    simp only [checkedResult, hslot, hget]
    cases hfree : slots[rowSlot plan rows row] with
    | some bytes => exact .inr ⟨_, rfl⟩
    | none =>
      simp only [hwidth, if_true]
      exact .inl ⟨_, rfl, List.length_set⟩

theorem foldlM_placeRow_ne_panic (h : plan.Covers rows) (items : List ℕ)
    (hitems : ∀ row ∈ items, row < rows.timestamps.length ∧
      (row + 1) * plan.width ≤ array.bytes.length) (slots : List (Option (List UInt8)))
    (hlen : slots.length = plan.labels.count * plan.horizonSteps * plan.issues.length) :
    items.foldlM (placeRow checks plan rows array) slots ≠ .error .panic := by
  induction items generalizing slots with
  | nil =>
    intro he
    cases he
  | cons row items ih =>
    rw [List.foldlM_cons]
    obtain ⟨hrow, hwidth⟩ := hitems row List.mem_cons_self
    have hends : (∃ slots', placeRow checks plan rows array slots row = .ok slots' ∧
        slots'.length = slots.length) ∨ _ := placeRow_ends h hrow hwidth hlen
    cases hends with
    | inl hok =>
      obtain ⟨slots', hslots', hlen'⟩ := hok
      rw [hslots']
      exact ih (fun i hi => hitems i (List.mem_cons_of_mem _ hi)) slots' (hlen' ▸ hlen)
    | inr herr =>
      obtain ⟨e, he⟩ := herr
      rw [he]
      intro hp
      cases hp

/-! ### What a forecast says of its rows -/

/-- The rows of a values group are exactly one a slot of a forecast's cube: each has the issue time
and the target of its slot, the label of its lane, and the bytes of its step. -/
structure Placed (f : ForecastFields) (horizonSteps : ℕ) (labels : LaneLabels) (rows : Rows)
    (array : TypedArray) : Prop where
  dtype : f.data.dtype = array.dtype
  shape : f.data.shape = labels.leading horizonSteps f.count ++ array.elementShape
  issued : rows.issue.length = rows.timestamps.length
  placed : ∃ place : Fin rows.timestamps.length ≃ Fin f.count × Fin horizonSteps × Fin labels.count,
    ∀ row, ∃ issue target, rows.issue[row.1]? = some issue ∧ rows.timestamps[row.1]? = some target ∧
      (gridOf f).issueTime (place row).1 = .ok issue ∧
      (gridOf f).targetTime issue (place row).2.1 = .ok target ∧
      labels.Names rows.lanes[row.1]? (place row).2.2 ∧
      stepOf (array.dtype.size * perStep array.elementShape)
          (flatIndex horizonSteps f.count (place row).2.2 (place row).2.1 (place row).1)
          f.data.bytes =
        stepOf (array.dtype.size * perStep array.elementShape) row array.bytes

variable {tsType : TimeSeriesType} {row : SeriesCells} {resolution : Option Period} {name : String}
  {data : TimeSeriesData}

/-- **One row a slot.** A forecast comes only of rows that are exactly one a slot of its cube. -/
theorem forecast_placed (h : forecast checks tsType row resolution rows array name = .ok data) :
    ∃ f labels horizonSteps, LaneLabels.construct f labels = .ok data ∧
      resolution = some f.resolution ∧
      requiredPeriod row.interval "interval" name = .ok f.interval ∧
      requiredPeriod row.horizon "horizon" name = .ok f.horizon ∧
      Placed f horizonSteps labels rows array := by
  obtain ⟨r, h⟩ := forecast_eq_ok.mp h
  obtain ⟨hcube, hchecked⟩ := new_eq_ok.mp h.built
  have hfits := leading_lt (congrArg TypedArray.shape hcube) hchecked
  rw [LaneLabels.prod_leading] at hfits
  have hissues : 0 < r.issues.length := by
    have hfirst := h.first
    cases hi : r.issues with
    | nil => simp [hi] at hfirst
    | cons a l => exact Nat.succ_pos _
  have hn : rows.timestamps.length = r.labels.count * r.horizonSteps * r.issues.length := by
    have hcount := h.count
    rw [mul_mulUsize_eq hissues hfits] at hcount
    exact (Except.ok.inj hcount).symm
  have hcovers : (r.plan array name).Covers rows := by
    constructor
    · exact hfits
    · intro i hi
      change _ ∈ r.issues
      rw [← h.issues]
      apply mem_distinctSorted.mpr
      exact List.mem_of_getElem? (getElem?_of_lt (h.issued ▸ hi))
  obtain ⟨hlen, hscattered, hrows⟩ := foldlM_placeRow hcovers le_rfl h.placed
  have hco : ∀ i : Fin rows.timestamps.length,
      ∃ c, coordinatesOf (r.plan array name) rows i = .ok c := fun i => (hrows i i.isLt).1
  choose c hc using hco
  have hspec := fun i => coordinatesOf_ok (hc i)
  have hslot : ∀ i : Fin rows.timestamps.length, rowSlot (r.plan array name) rows i =
      flatIndex r.horizonSteps r.issues.length (c i).lane (c i).step (c i).window := by
    intro i
    unfold rowSlot
    rw [hc i]
    rfl
  have hlane : ∀ i, (c i).lane < r.labels.count := fun i => (hspec i).2.2.1
  obtain ⟨place, hplace⟩ : ∃ place : Fin rows.timestamps.length ≃
      Fin (r.fields name).count × Fin r.horizonSteps × Fin r.labels.count,
      ∀ i, (place i).1.1 = (c i).window ∧ (place i).2.1.1 = (c i).step ∧
        (place i).2.2.1 = (c i).lane := exists_place (fun i => (hcovers.slotIndex true i.isLt (hc i)).1)
    (fun i => (hspec i).2.1.1) hlane (fun i j hw hs hl => by
      apply Fin.ext
      apply hscattered.injective i i.isLt j j.isLt
      rw [hslot i, hslot j, hw, hs, hl]) (by
    rw [hn]
    change _ = r.issues.length * r.horizonSteps * r.labels.count
    ring)
  refine ⟨r.fields name, r.labels, r.horizonSteps, h.constructed, h.resolution, h.interval,
    h.horizon, ?_⟩
  constructor
  · exact (congrArg TypedArray.dtype hcube : r.cube.dtype = _)
  · exact (congrArg TypedArray.shape hcube : r.cube.shape = _)
  · exact h.issued
  · refine ⟨place, fun i => ?_⟩
    obtain ⟨hwindow, hstep, hlane'⟩ := hplace i
    obtain ⟨hw, ⟨-, htarget⟩, -, hnames⟩ := hspec i
    have hissue : rows.issue[i.1]? = some (rows.issue.getD i default) :=
      getElem?_of_lt (by rw [h.issued]; exact i.isLt)
    rw [hwindow, hstep, hlane']
    refine ⟨_, _, hissue, getElem?_of_lt i.isLt, ?_, ?_, hnames, ?_⟩
    · have hat := checkWindows_eq_ok.mp h.windows (c i).window (rows.issue.getD i default) (by
        rw [hw]
        exact List.getElem?_idxOf (hcovers.issued i i.isLt))
      rw [Nat.zero_add] at hat
      have hwindow' : (gridOf (r.fields name)).interval.addTo
          (gridOf (r.fields name)).initialTimestamp (c i).window =
          some (rows.issue.getD i default) := hat
      unfold ForecastGrid.issueTime
      rw [hwindow']
    · unfold ForecastGrid.targetTime
      rw [show (gridOf (r.fields name)).resolution.addTo _ _ = _ from htarget]
    · have hbytes : r.cube.bytes = (r.slots.filterMap id).flatten := congrArg TypedArray.bytes hcube
      change stepOf _ (flatIndex r.horizonSteps r.issues.length (c i).lane (c i).step (c i).window)
        r.cube.bytes = _
      rw [hbytes, ← hslot i]
      exact stepOf_slots hscattered hlen (fun j hj => length_stepOf (hrows j hj).2) i.isLt

/-! ### Panics -/

/-- A group whose slots a `usize` counts, whose bytes cover its rows, and whose percentiles have an
order. -/
structure Sized (tsType : TimeSeriesType) (row : SeriesCells) (resolution : Option Period)
    (rows : Rows) (array : TypedArray) (name : String) : Prop where
  fits : ∀ initial rest p horizon horizonSteps labels, distinctSorted rows.issue = initial :: rest →
    resolution = some p → requiredPeriod row.horizon "horizon" name = .ok horizon →
    stepsIn initial p horizon name = .ok horizonSteps →
    laneLabels rows.lanes tsType name = .ok labels →
    labels.count * horizonSteps * (initial :: rest).length < usizeBound
  covers : rows.timestamps.length * (array.dtype.size * perStep array.elementShape) ≤
    array.bytes.length
  ordered : ∀ p, .percentile p ∈ rows.lanes → p.isNan = false

omit [FloatText] [F64Debug] in
theorem bind_ne_panic {α β : Type} {c : Panics α} {f : α → Panics β} (hc : c ≠ .error .panic)
    (hf : ∀ a, c = .ok a → f a ≠ .error .panic) : (c >>= f) ≠ .error .panic := by
  cases c with
  | error e => exact fun h => hc (by cases h; rfl)
  | ok a => exact hf a rfl

omit [FloatText] [F64Debug] in
theorem error_ne_panic {α : Type} (e : TimeSeriesError) :
    (Except.error (Halt.error e) : Panics α) ≠ .error .panic := by
  intro h
  cases h

theorem forecast_ne_panic (h : Sized tsType row resolution rows array name) :
    forecast checks tsType row resolution rows array name ≠ .error .panic := by
  unfold forecast
  refine bind_ne_panic checkedResult_ne_panic fun p hp => ?_
  refine bind_ne_panic checkedResult_ne_panic fun interval _ => ?_
  refine bind_ne_panic checkedResult_ne_panic fun horizon hhorizon => ?_
  split
  · exact error_ne_panic _
  · rename_i hissued
    simp only
    split
    · exact error_ne_panic _
    · rename_i initial rest hissues
      refine bind_ne_panic checkedResult_ne_panic fun _ _ => ?_
      refine bind_ne_panic checkedResult_ne_panic fun horizonSteps hsteps => ?_
      refine bind_ne_panic checkedResult_ne_panic fun labels hlabels => ?_
      have hresolution : resolution = some p := by
        cases resolution with
        | none => cases hp
        | some q =>
          cases hp
          rfl
      have hfits := h.fits initial rest p horizon horizonSteps labels hissues hresolution
        (checkedResult_eq_ok.mp hhorizon) (checkedResult_eq_ok.mp hsteps)
        (checkedResult_eq_ok.mp hlabels)
      have hinner : labels.count * horizonSteps ≤
          labels.count * horizonSteps * (initial :: rest).length :=
        Nat.le_mul_of_pos_right _ (Nat.succ_pos _)
      rw [mulUsize_eq (by omega)]
      change (mulUsize checks _ (distinctSorted rows.issue).length >>= _) ≠ _
      rw [hissues, mulUsize_eq hfits]
      change (if _ then _ else _) ≠ _
      split
      · exact error_ne_panic _
      · rename_i hcount
        have hcount := not_not.mp hcount
        refine bind_ne_panic ?_ fun slots _ => ?_
        · apply foldlM_placeRow_ne_panic
          · constructor
            · exact hfits
            · intro i hi
              rw [← hissues]
              apply mem_distinctSorted.mpr
              exact List.mem_of_getElem? (getElem?_of_lt (by rw [not_not.mp hissued]; exact hi))
          · intro i hi
            have hlt := List.mem_range.mp hi
            exact ⟨hlt, (Nat.mul_le_mul_right _ (Nat.succ_le_of_lt hlt)).trans h.covers⟩
          · exact List.length_replicate
        · split
          · exact error_ne_panic _
          · exact bind_ne_panic checkedResult_ne_panic fun _ _ => checkedResult_ne_panic

end

end InfraStore.Tabular
