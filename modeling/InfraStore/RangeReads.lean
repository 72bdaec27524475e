import InfraStore.StoredSeries

/-!
# Range reads

What a read of a stored series returns, whole or over a range of instants: the series as it was
written, or the part of it the range's arithmetic selects.

* `materialize_full`: a whole read returns the series as written, for every kind that is written;
* `materialize_single`, `materialize_nonSequential`, `materialize_persistent`, `materialize_forecast`:
  a range read is refused or is a cut of the series.
-/

namespace InfraStore

open Lib

/-- The bounds of a range are spelled as a series answers them. -/
def TimeRange.SpelledFor (r : TimeRange) (reference : Option TimeReference) : Prop :=
  r.zoneless = !TimeReference.acceptsZonedBound reference

instance (r : TimeRange) (reference : Option TimeReference) : Decidable (r.SpelledFor reference) :=
  inferInstanceAs (Decidable (_ = _))

theorem TimeRange.checkAgainst_ok {r : TimeRange} {reference : Option TimeReference} {what : String} :
    r.checkAgainst reference what = .ok () ↔ r.SpelledFor reference := by
  unfold TimeRange.checkAgainst TimeRange.SpelledFor
  cases r.zoneless <;> cases TimeReference.acceptsZonedBound reference <;> simp

theorem checkedBounds_eq {H : Type} {m : TimeSeriesMetadata H} {r : TimeRange}
    (h : r.SpelledFor m.timeReference) : checkedBounds m (some r) = .ok (some (r.start, r.stop)) := by
  rw [checkedBounds, TimeRange.checkAgainst_ok.mpr h]

/-- A range spelled otherwise is refused. -/
theorem checkedBounds_ok {H : Type} {m : TimeSeriesMetadata H} {r : TimeRange}
    {b : Option (DateTime × DateTime)} (h : checkedBounds m (some r) = .ok b) :
    r.SpelledFor m.timeReference ∧ b = some (r.start, r.stop) := by
  rw [checkedBounds] at h
  split at h
  · rename_i hc
    cases h
    exact ⟨TimeRange.checkAgainst_ok.mp hc, rfl⟩
  · cases h

theorem required_some {α : Type} {a : α} {label field : String} :
    required (some a) label field = .ok a := rfl

theorem required_ok {α : Type} {v : Option α} {a : α} {label field : String}
    (h : required v label field = .ok a) : v = some a := by
  cases v with
  | none => cases h
  | some x =>
    cases h
    rfl

theorem TypedArray.slice_length {a : TypedArray} (h : a.shape ≠ []) (start len : ℕ) :
    (a.slice 0 start len).length = len := by
  obtain ⟨n, rest, hs⟩ := List.exists_cons_of_ne_nil h
  rw [TypedArray.length, TypedArray.slice_shape, hs]
  rfl

namespace ArrayStore.Stores

variable {H B : Type} [DecidableEq H] [Sha256 H] [FloatText] [ToString H] [ArrayBackend H B]
  [LawfulArrayBackend H B]
variable {s : ArrayStore H B} {m : TimeSeriesMetadata H}

omit [ToString H] in
theorem name {d : TimeSeriesData} (h : s.Stores m d) : m.name = d.fields.name :=
  congrArg SeriesFields.name (h.row.described d.fields.data d.fields.elementType)

omit [ToString H] in
theorem elementType {d : TimeSeriesData} (h : s.Stores m d) : m.elementType = d.fields.elementType :=
  congrArg SeriesFields.elementType (h.row.described d.fields.data d.fields.elementType)

omit [ToString H] in
theorem timeReference {d : TimeSeriesData} (h : s.Stores m d) :
    m.timeReference = d.fields.timeReference :=
  congrArg SeriesFields.timeReference (h.row.described d.fields.data d.fields.elementType)

omit [ToString H] in
/-- The descriptors of the row make a bare series the stored one, but for its data. -/
theorem described {d : TimeSeriesData} (h : s.Stores m d) (y : TypedArray) (e : ElementType) :
    m.describe (bareFields y d.fields.name e) = { d.fields with data := y } := by
  rw [← h.name]
  exact h.row.described y e

omit [ToString H] in
/-- The dtype a read asks for is the one the array is stored in. -/
theorem dtype {d : TimeSeriesData} (h : s.Stores m d) :
    m.elementType.physicalDtype = d.fields.data.dtype := by
  rw [h.elementType, h.accepted.dtype]

variable [LawfulReads H B]

theorem getArray {d : TimeSeriesData} (h : s.Stores m d) :
    s.getArray m.dataHash m.elementType.physicalDtype = .ok d.fields.data := by
  rw [h.dtype]
  exact ArrayStore.getArray_eq h.valid h.held

theorem getSlice {d : TimeSeriesData} (h : s.Stores m d) {i j : ℕ} (hij : i ≤ j)
    (hj : j ≤ d.fields.data.length) :
    s.getSlice m.dataHash m.elementType.physicalDtype i j = .ok (d.fields.data.slice 0 i (j - i)) := by
  rw [h.dtype]
  exact ArrayStore.getSlice_eq h.valid h.held h.accepted.shape_ne_nil hij hj

/-! ### Series on a grid -/

/-- A range of a `SingleTimeSeries` is read from the step its start is rounded down to, up to the one
its end is rounded up to. -/
theorem materialize_single {ss : SingleTimeSeries} (h : s.Stores m (.single ss)) {r : TimeRange}
    (hr : r.SpelledFor m.timeReference) (hle : r.start ≤ r.stop) {lo hi : ℕ}
    (hlo : min (ss.resolution.floorSteps ss.initialTimestamp r.start) ss.length = lo)
    (hhi : max (min (ss.resolution.ceilSteps ss.initialTimestamp r.stop) ss.length) lo = hi) :
    materializeTimeSeries s m (some r) =
      (requireAnchorableSlice ss.resolution ss.initialTimestamp lo (hi - lo) ss.name "timestep" >>=
        fun _ => match ss.resolution.addTo ss.initialTimestamp lo with
          | some first => .ok ((TimeSeriesData.single ss).cut lo (hi - lo) first)
          | none => .error (.integrityError "sliced initial overflow")) := by
  obtain ⟨hms, hlen, hpos⟩ := h.accepted.single
  have hdesc := h.described (ss.data.slice 0 lo (hi - lo)) m.elementType
  have hlength : m.length = some ss.length := h.row.length.trans (congrArg some hlen.symm)
  have hslice := h.getSlice (i := lo) (j := hi) (by omega) (by
    change hi ≤ ss.data.length
    omega)
  have hname : m.name = ss.name := h.name
  unfold materializeTimeSeries materializeArray
  rw [checkedBounds_eq hr, h.row.kind]
  simp only [bind, Except.bind, TimeSeriesData.timeSeriesType]
  unfold materializeSingle
  rw [h.row.start, h.row.resolution, hlength, hname]
  simp only [TimeSeriesData.start, TimeSeriesData.resolution, required_some, bind, Except.bind,
    if_neg (not_lt.mpr hle), hpos, Bool.not_true, Bool.false_eq_true, if_false, hlo, hhi]
  cases requireAnchorableSlice ss.resolution ss.initialTimestamp lo (hi - lo) ss.name "timestep" with
  | error e => rfl
  | ok u =>
    simp only
    rw [hslice]
    cases ss.resolution.addTo ss.initialTimestamp (lo : ℕ) with
    | none => rfl
    | some first =>
      simp only [Except.map, pure, Except.pure, TimeSeriesData.mapFields, TimeSeriesData.cut]
      exact congrArg (fun f => Except.ok (TimeSeriesData.single
        { toSeriesFields := f, initialTimestamp := first, resolution := ss.resolution,
          length := hi - lo })) hdesc

theorem materialize_single_full {ss : SingleTimeSeries} (h : s.Stores m (.single ss)) :
    materializeTimeSeries s m none = .ok (.single ss) := by
  obtain ⟨hms, hlen, hpos⟩ := h.accepted.single
  have hdesc := h.described ss.data m.elementType
  have hlength : m.length = some ss.length := h.row.length.trans (congrArg some hlen.symm)
  unfold materializeTimeSeries materializeArray
  rw [checkedBounds, h.row.kind]
  simp only [bind, Except.bind, TimeSeriesData.timeSeriesType]
  unfold materializeSingle
  rw [h.row.start, h.row.resolution, hlength, h.name]
  simp only [TimeSeriesData.start, TimeSeriesData.resolution, required_some, bind, Except.bind]
  rw [h.getArray]
  exact congrArg (fun f => Except.ok (TimeSeriesData.single
    { toSeriesFields := f, initialTimestamp := ss.initialTimestamp, resolution := ss.resolution,
      length := ss.length })) hdesc

/-! ### Series on explicit instants -/

omit [Sha256 H] [FloatText] [ArrayBackend H B] [LawfulArrayBackend H B] [ToString H] [DecidableEq H]
  [LawfulReads H B] in
/-- A run of an axis and of its rows is an axis of those rows. -/
theorem checkAxis_run {ts : List DateTime} {length : ℕ} {data : TypedArray}
    (hax : AxisOf ts length data) (hne : data.shape ≠ []) {i j : ℕ} (hij : i ≤ j) (hj : j ≤ length) :
    checkAxis ((ts.drop i).take (j - i)) (data.slice 0 i (j - i)) = .ok () := by
  have hlen : ((ts.drop i).take (j - i)).length = j - i := by
    have h1 := hax.rows
    have h2 := hax.length
    rw [List.length_take, List.length_drop]
    omega
  have hinc : strictlyIncreasing ((ts.drop i).take (j - i)) = true :=
    (strictlyIncreasing_iff _).mpr
      (hax.increasing.sublist ((List.take_sublist _ _).trans (List.drop_sublist _ _)))
  unfold checkAxis
  rw [hlen, TypedArray.slice_length hne, if_neg (not_not.mpr rfl), hinc]
  rfl

/-- A read of rows picked out of an explicit axis. -/
theorem materializeIrregular_range {d : TimeSeriesData} (h : s.Stores m d) {ts : List DateTime}
    {length : ℕ} (hts : d.axis = some ts) (hax : AxisOf ts length d.fields.data)
    {start stop : DateTime} (hle : start ≤ stop) {vector : String}
    {select : List DateTime → DateTime → DateTime → Result (ℕ × ℕ)}
    (hselect : ∀ i j, select ts start stop = .ok (i, j) → i ≤ j ∧ j ≤ length)
    (new : List DateTime → TypedArray → String → Except String TimeSeriesData) :
    materializeIrregular s m (some (start, stop)) none vector select new =
      (select ts start stop >>= fun rows =>
        mapErr .integrityError (new ((ts.drop rows.1).take (rows.2 - rows.1))
          (d.fields.data.slice 0 rows.1 (rows.2 - rows.1)) d.fields.name)) := by
  unfold materializeIrregular
  rw [h.row.axis, hts, h.row.length, h.name]
  simp only [required_some, bind, Except.bind, hax.rows, not_true_eq_false, if_false, ne_eq,
    if_neg (not_lt.mpr hle)]
  cases hsel : select ts start stop with
  | error e => rfl
  | ok rows =>
    obtain ⟨hij, hj⟩ := hselect rows.1 rows.2 hsel
    simp only
    rw [h.getSlice hij (by rw [← hax.length]; exact hj)]

theorem materializeIrregular_full {d : TimeSeriesData} (h : s.Stores m d) {ts : List DateTime}
    {length : ℕ} (hts : d.axis = some ts) (hax : AxisOf ts length d.fields.data) {vector : String}
    (select : List DateTime → DateTime → DateTime → Result (ℕ × ℕ))
    (new : List DateTime → TypedArray → String → Except String TimeSeriesData) :
    materializeIrregular s m none none vector select new =
      mapErr .integrityError (new ts d.fields.data d.fields.name) := by
  unfold materializeIrregular
  rw [h.row.axis, hts, h.row.length, h.name]
  simp only [required_some, bind, Except.bind, hax.rows, not_true_eq_false, if_false, ne_eq]
  rw [h.getArray]

omit [Sha256 H] [FloatText] [ArrayBackend H B] [LawfulArrayBackend H B] [ToString H] [DecidableEq H]
  [LawfulReads H B] in
theorem selectInstants_le {ts : List DateTime} {start stop : DateTime} (hle : start ≤ stop) {i j : ℕ}
    (h : selectInstants ts start stop = .ok (i, j)) : i ≤ j ∧ j ≤ ts.length := by
  cases h
  refine ⟨partitionPoint_mono ts fun a ha => ?_, partitionPoint_le _ _⟩
  exact decide_eq_true ((of_decide_eq_true ha).trans_le hle)

omit [Sha256 H] [FloatText] [ArrayBackend H B] [LawfulArrayBackend H B] [ToString H] [DecidableEq H]
  [LawfulReads H B] in
theorem nonSequential_new {ts : List DateTime} {data : TypedArray} (name : String)
    (h : checkAxis ts data = .ok ()) :
    (NonSequentialTimeSeries.new ts data name).map TimeSeriesData.nonSequential =
      .ok (.nonSequential
        { toSeriesFields := bareFields data name (.scalar data.dtype), timestamps := ts,
          length := data.length }) := by
  unfold NonSequentialTimeSeries.new
  rw [h]
  rfl

omit [Sha256 H] [FloatText] [ArrayBackend H B] [LawfulArrayBackend H B] [ToString H] [DecidableEq H]
  [LawfulReads H B] in
theorem persistent_new {ts : List DateTime} {data : TypedArray} (name : String)
    (h : checkAxis ts data = .ok ()) :
    (PersistentTimeSeries.new ts data name).map TimeSeriesData.persistent =
      .ok (.persistent
        { toSeriesFields := bareFields data name (.scalar data.dtype), timestamps := ts,
          length := data.length }) := by
  unfold PersistentTimeSeries.new
  rw [h]
  rfl

omit [Sha256 H] [FloatText] [ArrayBackend H B] [LawfulArrayBackend H B] [ToString H] [DecidableEq H]
  [LawfulReads H B] in
theorem checkAxis_whole {ts : List DateTime} {length : ℕ} {data : TypedArray}
    (hax : AxisOf ts length data) : checkAxis ts data = .ok () := by
  unfold checkAxis
  rw [hax.rows, if_neg (not_not.mpr rfl), (strictlyIncreasing_iff _).mpr hax.increasing]
  rfl

/-- A range of a `NonSequentialTimeSeries` is the rows whose instants lie in it. -/
theorem materialize_nonSequential {ns : NonSequentialTimeSeries}
    (h : s.Stores m (.nonSequential ns)) {r : TimeRange} (hr : r.SpelledFor m.timeReference)
    (hle : r.start ≤ r.stop) {i j : ℕ}
    (hrows : selectInstants ns.timestamps r.start r.stop = .ok (i, j)) (first : DateTime) :
    materializeTimeSeries s m (some r) =
      .ok ((TimeSeriesData.nonSequential ns).cut i (j - i) first) := by
  have hax := h.accepted.nonSequential
  have hne : ns.data.shape ≠ [] := h.accepted.shape_ne_nil
  have hlen : ns.timestamps.length = ns.length := hax.rows.trans hax.length.symm
  obtain ⟨hij, hj⟩ := selectInstants_le hle hrows
  have hnew := nonSequential_new ns.name (checkAxis_run hax hne hij (by omega))
  have hdesc := h.described (ns.data.slice 0 i (j - i)) (.scalar ns.data.dtype)
  rw [TypedArray.slice_length hne] at hnew
  unfold materializeTimeSeries materializeArray
  rw [checkedBounds_eq hr, h.row.kind]
  simp only [bind, Except.bind, TimeSeriesData.timeSeriesType]
  rw [materializeIrregular_range h rfl hax hle fun i' j' h' => ?_, hrows]
  · change Except.map _ (mapErr _ ((NonSequentialTimeSeries.new ((ns.timestamps.drop i).take (j - i))
      (ns.data.slice 0 i (j - i)) ns.name).map TimeSeriesData.nonSequential)) = _
    rw [hnew]
    exact congrArg (fun f => Except.ok (TimeSeriesData.nonSequential
      { toSeriesFields := f, timestamps := (ns.timestamps.drop i).take (j - i),
        length := j - i })) hdesc
  · have := selectInstants_le hle h'
    omega

theorem materialize_nonSequential_full {ns : NonSequentialTimeSeries}
    (h : s.Stores m (.nonSequential ns)) :
    materializeTimeSeries s m none = .ok (.nonSequential ns) := by
  have hax := h.accepted.nonSequential
  have hdesc := h.described ns.data (.scalar ns.data.dtype)
  have hnew := nonSequential_new ns.name (checkAxis_whole hax)
  rw [← hax.length] at hnew
  unfold materializeTimeSeries materializeArray
  rw [checkedBounds, h.row.kind]
  simp only [bind, Except.bind, TimeSeriesData.timeSeriesType]
  rw [materializeIrregular_full h rfl hax]
  change Except.map _ (mapErr _ ((NonSequentialTimeSeries.new ns.timestamps ns.data ns.name).map
    TimeSeriesData.nonSequential)) = _
  rw [hnew]
  exact congrArg (fun f => Except.ok (TimeSeriesData.nonSequential
    { toSeriesFields := f, timestamps := ns.timestamps, length := ns.length })) hdesc

/-- A range of a `PersistentTimeSeries` is refused, or is the breakpoints selected for it. -/
theorem materialize_persistent {ps : PersistentTimeSeries} (h : s.Stores m (.persistent ps))
    {r : TimeRange} (hr : r.SpelledFor m.timeReference) (hle : r.start ≤ r.stop)
    (hselect : ∀ i j, selectBreakpoints m ps.timestamps r.start r.stop = .ok (i, j) →
      i ≤ j ∧ j ≤ ps.length) (first : DateTime) :
    materializeTimeSeries s m (some r) =
      (selectBreakpoints m ps.timestamps r.start r.stop).map fun rows =>
        (TimeSeriesData.persistent ps).cut rows.1 (rows.2 - rows.1) first := by
  have hax := h.accepted.persistent
  have hne : ps.data.shape ≠ [] := h.accepted.shape_ne_nil
  unfold materializeTimeSeries materializeArray
  rw [checkedBounds_eq hr, h.row.kind]
  simp only [bind, Except.bind, TimeSeriesData.timeSeriesType]
  rw [materializeIrregular_range h rfl hax hle hselect]
  cases hrows : selectBreakpoints m ps.timestamps r.start r.stop with
  | error e => rfl
  | ok rows =>
    obtain ⟨i, j⟩ := rows
    obtain ⟨hij, hj⟩ := hselect i j hrows
    have hnew := persistent_new ps.name (checkAxis_run hax hne hij hj)
    have hdesc := h.described (ps.data.slice 0 i (j - i)) (.scalar ps.data.dtype)
    rw [TypedArray.slice_length hne] at hnew
    change Except.map _ (mapErr _ ((PersistentTimeSeries.new ((ps.timestamps.drop i).take (j - i))
      (ps.data.slice 0 i (j - i)) ps.name).map TimeSeriesData.persistent)) = _
    rw [hnew]
    exact congrArg (fun f => Except.ok (TimeSeriesData.persistent
      { toSeriesFields := f, timestamps := (ps.timestamps.drop i).take (j - i),
        length := j - i })) hdesc

theorem materialize_persistent_full {ps : PersistentTimeSeries} (h : s.Stores m (.persistent ps)) :
    materializeTimeSeries s m none = .ok (.persistent ps) := by
  have hax := h.accepted.persistent
  have hdesc := h.described ps.data (.scalar ps.data.dtype)
  have hnew := persistent_new ps.name (checkAxis_whole hax)
  rw [← hax.length] at hnew
  unfold materializeTimeSeries materializeArray
  rw [checkedBounds, h.row.kind]
  simp only [bind, Except.bind, TimeSeriesData.timeSeriesType]
  rw [materializeIrregular_full h rfl hax]
  change Except.map _ (mapErr _ ((PersistentTimeSeries.new ps.timestamps ps.data ps.name).map
    TimeSeriesData.persistent)) = _
  rw [hnew]
  exact congrArg (fun f => Except.ok (TimeSeriesData.persistent
    { toSeriesFields := f, timestamps := ps.timestamps, length := ps.length })) hdesc

end ArrayStore.Stores

/-! ### Dense forecasts -/

/-- A stored shape that begins with the expected dims passes. -/
theorem validateForecastShape_eq {dims rest : List ℕ} {label : String} :
    validateForecastShape (dims ++ rest) dims label = .ok () := by
  have hsame : ∀ dims : List ℕ,
      ((dims ++ rest).zip dims).findIdx? (fun d => decide (d.1 ≠ d.2)) = none := by
    intro dims
    induction dims with
    | nil => simp
    | cons d dims ih =>
      rw [List.cons_append, List.zip_cons_cons, List.findIdx?_cons]
      simp only [ne_eq, not_true_eq_false, decide_false, Bool.false_eq_true, if_false]
      rw [show List.findIdx? (fun d => decide ¬d.1 = d.2) ((dims ++ rest).zip dims) = none from ih]
      rfl
  unfold validateForecastShape
  rw [if_neg (by rw [List.length_append]; omega)]
  rw [show ((dims ++ rest).zip dims).findIdx? (fun d => decide (d.1 ≠ d.2)) = none from hsame dims]

/-- Fewer windows need no more of a forecast's periods. -/
theorem validateForecastPeriods_of_le {f f' : ForecastFields} (h : validateForecastPeriods f = .ok ())
    (hres : f'.resolution = f.resolution) (hhor : f'.horizon = f.horizon)
    (hint : f'.interval = f.interval) (hcount : f'.count ≤ f.count) :
    validateForecastPeriods f' = .ok () := by
  obtain ⟨hr, hh, hi⟩ := validateForecastPeriods_ok h
  have hok : (f'.interval.isPositive || (decide (f'.count ≤ 1) && f'.interval.isZero)) = true := by
    rw [Bool.or_eq_true, Bool.and_eq_true, decide_eq_true_iff, hint]
    exact hi.imp id fun hz => ⟨by omega, hz.2⟩
  unfold validateForecastPeriods
  rw [hres, hhor, hr, hh, hok]
  rfl

/-- What a `Deterministic` that passes satisfies. -/
theorem Deterministic.validate_ok {d : Deterministic} : d.validate = .ok () ↔
    validateForecastPeriods d.toForecastFields = .ok () ∧ ∃ h, computeH d.horizon d.resolution = .ok h ∧
      d.data.shape = h :: d.count :: d.data.shape.drop 2 := by
  unfold Deterministic.validate
  simp only [except_bind_eq_ok]
  constructor
  · rintro ⟨_, hp, hh, hcomp, h⟩
    refine ⟨hp, hh, hcomp, ?_⟩
    split at h
    · cases h
    · split at h
      · cases h
      · rename_i hs
        exact not_not.mp hs
  · rintro ⟨hp, hh, hcomp, hs⟩
    refine ⟨(), hp, hh, hcomp, ?_⟩
    rw [if_neg (by rw [hs]; simp)]
    exact if_neg (not_not.mpr hs)

/-- What a `Probabilistic` that passes satisfies. -/
theorem Probabilistic.validate_ok {p : Probabilistic} : p.validate = .ok () ↔
    validateForecastPeriods p.toForecastFields = .ok () ∧
      (p.percentiles ≠ [] ∧ p.percentiles.all F64.isFinite = true ∧
        (p.percentiles.zip p.percentiles.tail).any (fun pair => pair.1.ge pair.2) = false) ∧
      ∃ h, computeH p.horizon p.resolution = .ok h ∧
        p.data.shape = p.percentiles.length :: h :: p.count :: p.data.shape.drop 3 := by
  unfold Probabilistic.validate
  simp only [except_bind_eq_ok]
  constructor
  · rintro ⟨_, hp, h⟩
    split at h
    · cases h
    · rename_i hne
      split at h
      · cases h
      · rename_i hfin
        split at h
        · cases h
        · rename_i hinc
          obtain ⟨hh, hcomp, h⟩ := except_bind_eq_ok.mp h
          refine ⟨hp, ⟨hne, by simpa using hfin, Bool.not_eq_true _ ▸ hinc⟩, hh, hcomp, ?_⟩
          split at h
          · cases h
          · split at h
            · cases h
            · rename_i hs
              exact not_not.mp hs
  · rintro ⟨hp, ⟨hne, hfin, hinc⟩, hh, hcomp, hs⟩
    refine ⟨(), hp, ?_⟩
    rw [if_neg hne, hfin, hinc]
    simp only [Bool.not_true, Bool.false_eq_true, if_false]
    rw [hcomp]
    simp only [bind, Except.bind]
    rw [if_neg (by rw [hs]; simp)]
    exact if_neg (not_not.mpr hs)

/-- What a `Scenarios` that passes satisfies. -/
theorem Scenarios.validate_ok {sc : Scenarios} : sc.validate = .ok () ↔
    validateForecastPeriods sc.toForecastFields = .ok () ∧
      ∃ h, computeH sc.horizon sc.resolution = .ok h ∧
        sc.data.shape = sc.scenarioCount :: h :: sc.count :: sc.data.shape.drop 3 := by
  unfold Scenarios.validate
  simp only [except_bind_eq_ok]
  constructor
  · rintro ⟨_, hp, hh, hcomp, h⟩
    refine ⟨hp, hh, hcomp, ?_⟩
    split at h
    · cases h
    · rename_i hs
      exact not_not.mp hs
  · rintro ⟨hp, hh, hcomp, hs⟩
    exact ⟨(), hp, hh, hcomp, if_neg (not_not.mpr hs)⟩

/-- The windows of an accepted forecast are those a read resolves. -/
theorem TimeSeriesData.Accepted.windowGrid [FloatText] {d : TimeSeriesData} {f : ForecastFields}
    (h : d.Accepted) (hf : d.forecast = some f) :
    WindowGrid f.initialTimestamp f.interval f.count := by
  have hp : validateForecastPeriods f = .ok () := by
    cases d with
    | single s => cases hf
    | nonSequential s => cases hf
    | persistent s => cases hf
    | deterministic s => cases hf; exact (Deterministic.validate_ok.mp h.deterministic).1
    | probabilistic s => cases hf; exact (Probabilistic.validate_ok.mp h.probabilistic).1
    | scenarios s => cases hf; exact (Scenarios.validate_ok.mp h.scenarios).1
  exact ⟨h.forecast_millis hf, (validateForecastPeriods_ok hp).2.2⟩

/-- The windows of an accepted forecast lie along one axis of its array. -/
theorem TimeSeriesData.Accepted.windowAxis [FloatText] {d : TimeSeriesData} {f : ForecastFields}
    (h : d.Accepted) (hf : d.forecast = some f) : d.fields.data.shape[d.rowAxis]? = some f.count := by
  cases d with
  | single s => cases hf
  | nonSequential s => cases hf
  | persistent s => cases hf
  | deterministic s =>
    cases hf
    obtain ⟨-, _, -, hs⟩ := Deterministic.validate_ok.mp h.deterministic
    show s.data.shape[1]? = _
    rw [hs]
    rfl
  | probabilistic s =>
    cases hf
    obtain ⟨-, -, _, -, hs⟩ := Probabilistic.validate_ok.mp h.probabilistic
    show s.data.shape[2]? = _
    rw [hs]
    rfl
  | scenarios s =>
    cases hf
    obtain ⟨-, _, -, hs⟩ := Scenarios.validate_ok.mp h.scenarios
    show s.data.shape[2]? = _
    rw [hs]
    rfl

/-- All the windows of a forecast are the forecast. -/
theorem TimeSeriesData.Accepted.cut_all [FloatText] {d : TimeSeriesData} {f : ForecastFields}
    (h : d.Accepted) (hf : d.forecast = some f) : d.cut 0 f.count f.initialTimestamp = d := by
  have hall := TypedArray.slice_all h.checked.wellFormed (h.windowAxis hf)
  cases d with
  | single s => cases hf
  | nonSequential s => cases hf
  | persistent s => cases hf
  | deterministic s =>
    cases hf
    exact congrArg (fun x => TimeSeriesData.deterministic { s with data := x }) hall
  | probabilistic s =>
    cases hf
    exact congrArg (fun x => TimeSeriesData.probabilistic { s with data := x }) hall
  | scenarios s =>
    cases hf
    exact congrArg (fun x => TimeSeriesData.scenarios { s with data := x }) hall

namespace ArrayStore.Stores

variable {H B : Type} [DecidableEq H] [Sha256 H] [FloatText] [ToString H] [ArrayBackend H B]
  [LawfulArrayBackend H B] [LawfulReads H B]
variable {s : ArrayStore H B} {m : TimeSeriesMetadata H}

/-- The columns of a stored dense forecast. -/
def columnsOf (f : ForecastFields) : ForecastColumns :=
  ⟨f.initialTimestamp, f.resolution, f.horizon, f.interval, f.count⟩

omit [ToString H] [LawfulReads H B] in
theorem forecastColumns_eq {d : TimeSeriesData} {f : ForecastFields} (h : s.Stores m d)
    (hf : d.forecast = some f) (label : String) : forecastColumns m label = .ok (columnsOf f) := by
  have hstart : d.start = some f.initialTimestamp ∧ d.resolution = some f.resolution := by
    cases d <;> cases hf <;> exact ⟨rfl, rfl⟩
  unfold forecastColumns
  rw [h.row.start, h.row.resolution, h.row.horizon, h.row.interval, h.row.count, hf, hstart.1, hstart.2]
  rfl

/-- The windows of a dense forecast are read as a slice of its array. -/
theorem materializeForecast_eq {d : TimeSeriesData} {f : ForecastFields} (h : s.Stores m d)
    {label : String} {axis hh : ℕ} {axes : ℕ → List ℕ}
    (hcomp : computeH f.horizon f.resolution = .ok hh)
    (haxes : validateForecastShape d.fields.data.shape (axes hh) label = .ok ())
    (haxis : d.fields.data.shape[axis]? = some f.count)
    (range : Option (DateTime × DateTime)) (new : ForecastFields → Except String TimeSeriesData) :
    materializeForecast s m range label axis d.fields.data.shape (columnsOf f) axes new =
      (resolveWindows f.initialTimestamp f.interval f.count range d.fields.name >>= fun w =>
        mapErr .integrityError (new (forecastFields w.2.2 f.resolution f.horizon f.interval
          (w.2.1 - w.1) (d.fields.data.slice axis w.1 (w.2.1 - w.1)) d.fields.name))) := by
  unfold materializeForecast columnsOf
  simp only
  rw [hcomp, h.name, h.dtype]
  simp only [mapErr, bind, Except.bind]
  rw [haxes]
  simp only
  cases hw : resolveWindows f.initialTimestamp f.interval f.count range d.fields.name with
  | error e => rfl
  | ok w =>
    obtain ⟨h01, h1, -⟩ := resolveWindows_bounds hw
    simp only
    rw [ArrayStore.readForecastWindows_eq h.valid h.held h.accepted.checked haxis h01 h1]

/-- A dense forecast is read as its cut to the windows selected, where its kind builds every cut. -/
theorem materializeForecast_cut {d : TimeSeriesData} {f : ForecastFields} (h : s.Stores m d)
    (rest : List ℕ) (built : ForecastFields → TimeSeriesData)
    {label : String} {hh : ℕ} {axes : ℕ → List ℕ}
    (hcomp : computeH f.horizon f.resolution = .ok hh)
    (hshape : d.fields.data.shape = axes hh ++ rest)
    (haxis : (axes hh ++ rest)[d.rowAxis]? = some f.count)
    {range : Option (DateTime × DateTime)} {new : ForecastFields → Except String TimeSeriesData}
    (hnew : ∀ i n first, n ≤ f.count →
      new (forecastFields first f.resolution f.horizon f.interval n
        (d.fields.data.slice d.rowAxis i n) d.fields.name) =
      .ok (built (forecastFields first f.resolution f.horizon f.interval n
        (d.fields.data.slice d.rowAxis i n) d.fields.name)))
    (hcut : ∀ i n first, (built (forecastFields first f.resolution f.horizon f.interval n
      (d.fields.data.slice d.rowAxis i n) d.fields.name)).mapFields m.describe = d.cut i n first) :
    (materializeForecast s m range label d.rowAxis d.fields.data.shape (columnsOf f) axes new).map
        (fun d' => d'.mapFields m.describe) =
      (resolveWindows f.initialTimestamp f.interval f.count range d.fields.name).map
        fun w => d.cut w.1 (w.2.1 - w.1) w.2.2 := by
  rw [h.materializeForecast_eq hcomp (by rw [hshape]; exact validateForecastShape_eq)
    (by rw [hshape]; exact haxis)]
  cases hw : resolveWindows f.initialTimestamp f.interval f.count range d.fields.name with
  | error e => rfl
  | ok w =>
    obtain ⟨w0, w1, first⟩ := w
    obtain ⟨h01, h1, -⟩ := resolveWindows_bounds hw
    simp only [bind, Except.bind, Except.map]
    rw [hnew w0 (w1 - w0) first (by omega)]
    exact congrArg Except.ok (hcut w0 (w1 - w0) first)

/-- **Dense forecasts.**  A read of a stored dense forecast is refused where its windows are, and is
otherwise the cut of the forecast to the windows selected. -/
theorem materialize_forecast {d : TimeSeriesData} {f : ForecastFields} (h : s.Stores m d)
    (hf : d.forecast = some f) {range : Option TimeRange}
    (hr : ∀ r ∈ range, r.SpelledFor m.timeReference) :
    materializeTimeSeries s m range =
      (resolveWindows f.initialTimestamp f.interval f.count (range.map fun r => (r.start, r.stop))
        d.fields.name).map fun w => d.cut w.1 (w.2.1 - w.1) w.2.2 := by
  have hbounds : checkedBounds m range = .ok (range.map fun r => (r.start, r.stop)) := by
    cases range with
    | none => rfl
    | some r => exact checkedBounds_eq (hr r rfl)
  have hshape := ArrayStore.arrayShape_eq h.valid h.held
  have hgrid := h.accepted.windowGrid hf
  have hcols := h.forecastColumns_eq hf
  unfold materializeTimeSeries materializeArray
  rw [hbounds, h.row.kind]
  cases d with
  | single s => cases hf
  | nonSequential s => cases hf
  | persistent s => cases hf
  | deterministic s' =>
    cases hf
    obtain ⟨hp, hh, hcomp, hs⟩ := Deterministic.validate_ok.mp h.accepted.deterministic
    simp only [bind, Except.bind, TimeSeriesData.timeSeriesType]
    unfold materializeDeterministic
    rw [hshape, hcols]
    simp only [bind, Except.bind]
    refine h.materializeForecast_cut (s'.data.shape.drop 2)
      (fun f => .deterministic { toForecastFields := f }) hcomp ?_ rfl (fun i n first hn => ?_)
      fun i n first => ?_
    · exact hs
    · unfold Deterministic.new
      have hok : Deterministic.validate ⟨forecastFields first s'.resolution s'.horizon s'.interval n
          (s'.data.slice 1 i n) s'.name⟩ = .ok () := Deterministic.validate_ok.mpr
        ⟨validateForecastPeriods_of_le hp rfl rfl rfl hn, hh, hcomp, by
          show (s'.data.slice 1 i n).shape = hh :: n :: (s'.data.slice 1 i n).shape.drop 2
          rw [TypedArray.slice_shape, hs]
          rfl⟩
      exact congrArg (fun r => (r >>= fun _ => pure _ : Except String Deterministic).map
        TimeSeriesData.deterministic) hok
    · have hdesc := h.described (s'.data.slice 1 i n) (.scalar s'.data.dtype)
      exact congrArg (fun g => TimeSeriesData.deterministic
        { toSeriesFields := g, initialTimestamp := first, resolution := s'.resolution,
          horizon := s'.horizon, interval := s'.interval, count := n }) hdesc
  | probabilistic s' =>
    cases hf
    obtain ⟨hp, hlevels, hh, hcomp, hs⟩ := Probabilistic.validate_ok.mp h.accepted.probabilistic
    simp only [bind, Except.bind, TimeSeriesData.timeSeriesType]
    unfold materializeProbabilistic
    rw [hshape, hcols, h.row.levels]
    simp only [bind, Except.bind, TimeSeriesData.levels, required_some]
    refine h.materializeForecast_cut (s'.data.shape.drop 3)
      (fun f => .probabilistic { toForecastFields := f, percentiles := s'.percentiles }) hcomp ?_ rfl
      (fun i n first hn => ?_) fun i n first => ?_
    · exact hs
    · unfold Probabilistic.new
      have hok : Probabilistic.validate ⟨forecastFields first s'.resolution s'.horizon s'.interval n
          (s'.data.slice 2 i n) s'.name, s'.percentiles⟩ = .ok () := Probabilistic.validate_ok.mpr
        ⟨validateForecastPeriods_of_le hp rfl rfl rfl hn, hlevels, hh, hcomp, by
          show (s'.data.slice 2 i n).shape =
            s'.percentiles.length :: hh :: n :: (s'.data.slice 2 i n).shape.drop 3
          rw [TypedArray.slice_shape, hs]
          rfl⟩
      exact congrArg (fun r => (r >>= fun _ => pure _ : Except String Probabilistic).map
        TimeSeriesData.probabilistic) hok
    · have hdesc := h.described (s'.data.slice 2 i n) (.scalar s'.data.dtype)
      exact congrArg (fun g => TimeSeriesData.probabilistic
        { toSeriesFields := g, initialTimestamp := first, resolution := s'.resolution,
          horizon := s'.horizon, interval := s'.interval, count := n,
          percentiles := s'.percentiles }) hdesc
  | scenarios s' =>
    cases hf
    obtain ⟨hp, hh, hcomp, hs⟩ := Scenarios.validate_ok.mp h.accepted.scenarios
    have hhead : s'.data.shape.headD 0 = s'.scenarioCount := by
      rw [hs]
      rfl
    have hrank : ¬ (TimeSeriesData.scenarios s').fields.data.shape.length < 3 := by
      show ¬ s'.data.shape.length < 3
      rw [hs]
      simp
    simp only [bind, Except.bind, TimeSeriesData.timeSeriesType]
    unfold materializeScenarios
    rw [hshape, hcols]
    simp only [bind, Except.bind, columnsOf, hcomp, mapErr, if_neg hrank]
    refine h.materializeForecast_cut (s'.data.shape.drop 3)
      (fun f => .scenarios { toForecastFields := f, scenarioCount := s'.data.shape.headD 0 }) hcomp ?_
      rfl (fun i n first hn => ?_) fun i n first => ?_
    · show s'.data.shape = s'.data.shape.headD 0 :: hh :: s'.count :: s'.data.shape.drop 3
      rw [hhead]
      exact hs
    · unfold Scenarios.new
      have hok : Scenarios.validate ⟨forecastFields first s'.resolution s'.horizon s'.interval n
          (s'.data.slice 2 i n) s'.name, s'.data.shape.headD 0⟩ = .ok () := Scenarios.validate_ok.mpr
        ⟨validateForecastPeriods_of_le hp rfl rfl rfl hn, hh, hcomp, by
          show (s'.data.slice 2 i n).shape =
            s'.data.shape.headD 0 :: hh :: n :: (s'.data.slice 2 i n).shape.drop 3
          rw [hhead, TypedArray.slice_shape, hs]
          rfl⟩
      exact congrArg (fun r => (r >>= fun _ => pure _ : Except String Scenarios).map
        TimeSeriesData.scenarios) hok
    · have hdesc := h.described (s'.data.slice 2 i n) (.scalar s'.data.dtype)
      rw [hhead]
      exact congrArg (fun g => TimeSeriesData.scenarios
        { toSeriesFields := g, initialTimestamp := first, resolution := s'.resolution,
          horizon := s'.horizon, interval := s'.interval, count := n,
          scenarioCount := s'.scenarioCount }) hdesc

theorem materialize_forecast_full {d : TimeSeriesData} {f : ForecastFields} (h : s.Stores m d)
    (hf : d.forecast = some f) : materializeTimeSeries s m none = .ok d := by
  rw [h.materialize_forecast hf (fun _ h => by cases h), Option.map_none, resolveWindows_none]
  exact congrArg Except.ok (h.accepted.cut_all hf)

/-- **Whole reads** return the series as it was written. -/
theorem materialize_full {d : TimeSeriesData} (h : s.Stores m d) :
    materializeTimeSeries s m none = .ok d := by
  cases d with
  | single ss => exact h.materialize_single_full
  | nonSequential ns => exact h.materialize_nonSequential_full
  | persistent ps => exact h.materialize_persistent_full
  | deterministic s' => exact h.materialize_forecast_full rfl
  | probabilistic s' => exact h.materialize_forecast_full rfl
  | scenarios s' => exact h.materialize_forecast_full rfl

end ArrayStore.Stores

end InfraStore
