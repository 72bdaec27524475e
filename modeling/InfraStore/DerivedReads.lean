import InfraStore.RangeReads

/-!
# Reads of derived views

A `DeterministicSingleTimeSeries` row stores no forecast of its own: a read gathers its windows out of
the rows of the series it was derived from.

* `ArrayStore.HoldsView`: a row is a view whose windows lie inside the array it names;
* `stacked`: the windows of a view, stacked into the array of a forecast, and `stacked_element`, which
  says which step of the source each element is;
* `materialize_derived`: a read of a view is refused where its windows are, and is otherwise the
  forecast of the windows selected;
* `stacked_slice`: the windows selected, stacked, are the windows of the whole view cut to them.
-/

namespace InfraStore

open Lib

/-! ### Stacked windows -/

namespace TypedArray

/-- The rows `w0 * k + s`, `(w0 + 1) * k + s`, … of an array, the `n` windows of `h` steps from window
`w0` on, stacked into the array of a forecast. -/
def stacked (a : TypedArray) (h k w0 n : ℕ) : TypedArray :=
  { dtype := a.dtype
    shape := h :: n :: a.elementShape
    bytes := gatherWindows a.bytes a.stepBytes h n w0 k 0 }

variable {a : TypedArray} {h k w0 n : ℕ}

@[simp] theorem stacked_dtype : (a.stacked h k w0 n).dtype = a.dtype := rfl

@[simp] theorem stacked_shape : (a.stacked h k w0 n).shape = h :: n :: a.elementShape := rfl

/-- The step of the source that a step of a window is lies in it, where the last window ends in it. -/
theorem source_lt {w0 n j s x : ℕ} (hin : (w0 + n - 1) * k + h ≤ x) (hs : s < h) (hj : j < n) :
    (w0 + j) * k + s < x := by
  have : (w0 + j) * k ≤ (w0 + n - 1) * k := Nat.mul_le_mul_right k (by omega)
  omega

theorem stacked_bytes : (a.stacked h k w0 n).bytes =
    (List.range h).flatMap fun s => (List.range n).flatMap fun j => a.row ((w0 + j) * k + s) := rfl

variable (hw : a.WellFormed) (hne : a.shape ≠ []) (hin : (w0 + n - 1) * k + h ≤ a.length)

include hw hne hin

theorem stacked_step {s : ℕ} (hs : s < h) :
    ((List.range n).flatMap fun j => a.row ((w0 + j) * k + s)).length = n * a.stepBytes :=
  length_flatMap_range fun _ hj => row_length hw hne (source_lt hin hs hj)

theorem stacked_wellFormed : (a.stacked h k w0 n).WellFormed := by
  unfold WellFormed
  rw [stacked_bytes, length_flatMap_range fun s hs => stacked_step hw hne hin hs]
  simp only [stacked_shape, stacked_dtype, List.prod_cons, stepBytes]
  ring

/-- **Stacked windows.**  Step `s` of window `w0 + j` is the source's step `(w0 + j) * k + s`, element
for element. -/
theorem stacked_element {s j : ℕ} {e : List ℕ} (hs : s < h) (hj : j < n)
    (he : List.Forall₂ (· < ·) e a.elementShape) :
    (a.stacked h k w0 n).element (s :: j :: e) = a.element (((w0 + j) * k + s) :: e) := by
  obtain ⟨d, rest, hshape⟩ := List.exists_cons_of_ne_nil hne
  have hoff : offset a.elementShape e * a.dtype.size + a.dtype.size ≤ a.stepBytes := by
    rw [← Nat.succ_mul]
    exact Nat.mul_le_mul_right _ (offset_lt he)
  have hrest : a.elementShape = rest := by rw [elementShape, hshape, List.tail_cons]
  have hplace : offset (h :: n :: a.elementShape) (s :: j :: e) * a.dtype.size =
      s * (n * a.stepBytes) + (j * a.stepBytes + offset a.elementShape e * a.dtype.size) := by
    simp only [offset, List.prod_cons, stepBytes]
    ring
  have hsource : offset a.shape (((w0 + j) * k + s) :: e) * a.dtype.size =
      ((w0 + j) * k + s) * a.stepBytes + offset a.elementShape e * a.dtype.size := by
    rw [hshape, offset, hrest, stepBytes, hrest]
    ring
  have hfit : j * a.stepBytes + offset a.elementShape e * a.dtype.size + a.dtype.size ≤
      n * a.stepBytes := by
    have : (j + 1) * a.stepBytes ≤ n * a.stepBytes := Nat.mul_le_mul_right _ hj
    rw [Nat.succ_mul] at this
    omega
  unfold element
  rw [stacked_shape, stacked_dtype, hplace, hsource, stacked_bytes,
    take_drop_flatMap_range (fun s hs => stacked_step hw hne hin hs) hs hfit,
    take_drop_flatMap_range (fun j hj => row_length hw hne (source_lt hin hs hj)) hj hoff, row,
    List.drop_take, List.drop_drop, List.take_take, Nat.min_eq_left (by omega)]

/-- **Slices of stacked windows.**  Some of the windows stacked are a slice of them all along the axis
of the windows. -/
theorem stacked_slice {w0' n' : ℕ} (hle : w0' + n' ≤ n) :
    (a.stacked h k w0 n).slice 1 w0' n' = a.stacked h k (w0 + w0') n' := by
  have hbytes : ((a.stacked h k w0 n).slice 1 w0' n').bytes = (a.stacked h k (w0 + w0') n').bytes := by
    rw [slice_bytes (show (a.stacked h k w0 n).shape[1]? = some n from rfl), stacked_bytes,
      stacked_bytes]
    simp only [stacked_shape, stacked_dtype, List.take_succ_cons, List.take_zero, List.prod_cons,
      List.prod_nil, Nat.mul_one, List.drop_succ_cons, List.drop_zero]
    refine List.flatMap_congr fun s hs => ?_
    have hs := List.mem_range.mp hs
    have hrow : ∀ j < n, (a.row ((w0 + j) * k + s)).length = a.stepBytes :=
      fun j hj => row_length hw hne (source_lt hin hs hj)
    have hfit : w0' * a.stepBytes + n' * a.stepBytes ≤ n * a.stepBytes := by
      rw [← Nat.add_mul]
      exact Nat.mul_le_mul_right _ hle
    rw [List.drop_drop, Nat.add_comm, show a.elementShape.prod * a.dtype.size = a.stepBytes from rfl,
      take_drop_flatMap_range (fun s hs => stacked_step hw hne hin hs) hs hfit,
      take_drop_blocks hrow hle]
    exact List.flatMap_congr fun j _ => by rw [Nat.add_assoc]
  rw [show (a.stacked h k w0 n).slice 1 w0' n' =
    ⟨a.dtype, h :: n' :: a.elementShape, ((a.stacked h k w0 n).slice 1 w0' n').bytes⟩ from rfl, hbytes]
  rfl

omit hw hne hin in
/-- **The gather.**  Reading the windows out of the rows they cover reads them out of the array, and
reads no row outside those. -/
theorem gather_slice (hne : a.shape ≠ []) :
    (∀ s < h, ∀ j < n, w0 * k ≤ (w0 + j) * k + s ∧
        (w0 + j) * k + s < w0 * k + ((w0 + n - 1) * k + h - w0 * k)) ∧
      gatherWindows (a.slice 0 (w0 * k) ((w0 + n - 1) * k + h - w0 * k)).bytes a.stepBytes h n w0 k
        (w0 * k) = (a.stacked h k w0 n).bytes := by
  have hidx : ∀ s < h, ∀ j < n, w0 * k ≤ (w0 + j) * k + s ∧
      (w0 + j) * k + s < w0 * k + ((w0 + n - 1) * k + h - w0 * k) := by
    intro s hs j hj
    have h1 : w0 * k ≤ (w0 + j) * k := Nat.mul_le_mul_right k (by omega)
    have h2 : (w0 + j) * k ≤ (w0 + n - 1) * k := Nat.mul_le_mul_right k (by omega)
    omega
  refine ⟨hidx, ?_⟩
  rw [slice_rows hne, stacked_bytes]
  unfold gatherWindows
  refine List.flatMap_congr fun s hs => List.flatMap_congr fun j hj => ?_
  obtain ⟨h1, h2⟩ := hidx s (List.mem_range.mp hs) j (List.mem_range.mp hj)
  exact take_drop_run h1 h2

omit hw hne hin in
theorem new_ok {d : Dtype} {shape : List ℕ} {bytes : List UInt8} {out : TypedArray}
    (h : new d shape bytes = .ok out) : out = ⟨d, shape, bytes⟩ ∧ out.Checked := by
  unfold new at h
  obtain ⟨_, hcheck, h⟩ := except_bind_eq_ok.mp h
  cases h
  exact ⟨rfl, hcheck⟩

end TypedArray

/-! ### Views -/

/-- The forecast a view describes over the windows given. -/
def viewOf {H : Type} (m : TimeSeriesMetadata H) (c : ForecastColumns) (data : TypedArray)
    (first : DateTime) (n : ℕ) : TimeSeriesData :=
  .deterministic
    { toSeriesFields := m.describe (bareFields data m.name (.scalar data.dtype)),
      initialTimestamp := first, resolution := c.resolution, horizon := c.horizon,
      interval := c.interval, count := n }

/-- Whether a view's windows can be built into a forecast. -/
def buildView {H : Type} (m : TimeSeriesMetadata H) (c : ForecastColumns)
    (data : TypedArray) (first : DateTime) (n : ℕ) : Result TimeSeriesData := do
  let out ← mapErr .integrityError (TypedArray.new data.dtype data.shape data.bytes)
  let d ← mapErr .integrityError (Deterministic.new (forecastFields first c.resolution c.horizon
    c.interval n out m.name))
  pure (.deterministic { d with toSeriesFields := m.describe d.toSeriesFields })

theorem buildView_eq {H : Type} {m : TimeSeriesMetadata H} {c : ForecastColumns} {data : TypedArray}
    {first : DateTime} {n : ℕ} {d : TimeSeriesData} :
    buildView m c data first n = .ok d ↔ data.Checked ∧
      Deterministic.validate ⟨forecastFields first c.resolution c.horizon c.interval n data m.name⟩ =
        .ok () ∧ d = viewOf m c data first n := by
  unfold buildView Deterministic.new
  simp only [except_bind_eq_ok, mapErr_eq_ok]
  constructor
  · rintro ⟨out, hout, f, ⟨_, hval, hf⟩, hd⟩
    obtain ⟨rfl, hc⟩ := TypedArray.new_ok hout
    cases hf
    cases hd
    exact ⟨hc, hval, rfl⟩
  · rintro ⟨hc, hval, rfl⟩
    exact ⟨data, TypedArray.new_eq hc, _, ⟨_, hval, rfl⟩, rfl⟩

section

variable {H B : Type} [DecidableEq H] [Sha256 H] [ToString H] [ArrayBackend H B]
  [LawfulArrayBackend H B]

/-- A row is a view, of `h` steps a window and `k` steps between them, whose windows lie inside the
array it names. -/
structure ArrayStore.HoldsView (s : ArrayStore H B) (m : TimeSeriesMetadata H) (c : ForecastColumns)
    (h k : ℕ) (a : TypedArray) : Prop where
  valid : s.Valid
  kind : m.timeSeriesType = .deterministicSingleTimeSeries
  columns : forecastColumns m "DeterministicSingleTimeSeries" = .ok c
  held : s.content m.dataHash = some a
  dtype : m.elementType.physicalDtype = a.dtype
  checked : a.Checked
  rank : a.shape ≠ []
  horizon : computeH c.horizon c.resolution = .ok h
  interval : intervalStepsOf c = .ok k
  within : (c.count - 1) * k + h ≤ a.length

namespace ArrayStore.HoldsView

variable {s : ArrayStore H B} {m : TimeSeriesMetadata H} {c : ForecastColumns}
  {hh k : ℕ} {a : TypedArray} (h : s.HoldsView m c hh k a)
include h

omit [ToString H] in
/-- The rows a run of windows covers lie in the array. -/
theorem within_run {w0 w1 : ℕ} (h01 : w0 ≤ w1) (h1 : w1 ≤ c.count) :
    (w0 + (w1 - w0) - 1) * k + hh ≤ a.length := by
  have := h.within
  have hle : (w0 + (w1 - w0) - 1) * k ≤ (c.count - 1) * k := Nat.mul_le_mul_right k (by omega)
  omega

variable [LawfulReads H B]

/-- The rows fetched for a run of windows, gathered. -/
theorem gathered {w0 w1 : ℕ} (h01 : w0 ≤ w1) (h1 : w1 ≤ c.count) (hnone : w0 = w1 → w0 = 0) :
    ∃ arr, s.getSlice m.dataHash m.elementType.physicalDtype (w0 * k)
        (if w1 - w0 = 0 then w0 * k else (w1 - 1) * k + hh) = .ok arr ∧
      gatherWindows arr.bytes a.stepBytes hh (w1 - w0) w0 k (w0 * k) =
        (a.stacked hh k w0 (w1 - w0)).bytes := by
  have hrun := h.within_run h01 h1
  rw [h.dtype]
  by_cases hn : w1 - w0 = 0
  · have hw0 : w0 = 0 := hnone (by omega)
    refine ⟨_, ArrayStore.getSlice_eq h.valid h.held h.rank (by rw [if_pos hn]) ?_, ?_⟩
    · rw [if_pos hn, hw0, Nat.zero_mul]
      exact Nat.zero_le _
    · rw [hn]
      unfold gatherWindows TypedArray.stacked
      simp [gatherWindows]
  · have hlast : w0 + (w1 - w0) - 1 = w1 - 1 := by omega
    have hle : w0 * k ≤ (w1 - 1) * k := Nat.mul_le_mul_right k (by omega)
    rw [hlast] at hrun
    rw [if_neg hn, ArrayStore.getSlice_eq h.valid h.held h.rank (by omega) hrun]
    refine ⟨_, rfl, ?_⟩
    rw [← hlast]
    exact (TypedArray.gather_slice h.rank).2

/-- **Derived views.**  A read of a view is refused where its windows are, and otherwise stacks the
windows selected. -/
theorem materialize_derived (range : Option TimeRange) :
    materializeTimeSeries s m range = (do
      let bounds ← checkedBounds m range
      let w ← resolveWindows c.initial c.interval c.count bounds m.name
      buildView m c (a.stacked hh k w.1 (w.2.1 - w.1)) w.2.2 (w.2.1 - w.1)) := by
  have hshape := ArrayStore.arrayShape_eq h.valid h.held
  unfold materializeTimeSeries materializeArray
  cases checkedBounds m range with
  | error e => rfl
  | ok bounds =>
    simp only [bind, Except.bind]
    rw [h.kind]
    simp only
    unfold materializeDerived
    rw [hshape, h.columns]
    simp only [bind, Except.bind]
    rw [h.horizon, h.interval]
    have hwithin := h.within
    have hlen : a.shape.headD 0 = a.length := rfl
    simp only [mapErr, hlen, if_neg (not_lt.mpr hwithin)]
    cases hw : resolveWindows c.initial c.interval c.count bounds m.name with
    | error e => rfl
    | ok w =>
      obtain ⟨w0, w1, first⟩ := w
      obtain ⟨h01, h1, hnone⟩ := resolveWindows_bounds hw
      obtain ⟨arr, harr, hbytes⟩ := h.gathered h01 h1 hnone
      simp only
      rw [harr]
      simp only
      rw [h.dtype, List.drop_one, show a.shape.tail.prod * a.dtype.size = a.stepBytes from rfl, hbytes]
      unfold buildView
      simp only [bind, Except.bind]
      cases hnew : TypedArray.new a.dtype (hh :: (w1 - w0) :: a.shape.tail)
          (a.stacked hh k w0 (w1 - w0)).bytes with
      | error e =>
        rw [show TypedArray.new (a.stacked hh k w0 (w1 - w0)).dtype
          (a.stacked hh k w0 (w1 - w0)).shape (a.stacked hh k w0 (w1 - w0)).bytes = _ from hnew]
        rfl
      | ok out =>
        rw [show TypedArray.new (a.stacked hh k w0 (w1 - w0)).dtype
          (a.stacked hh k w0 (w1 - w0)).shape (a.stacked hh k w0 (w1 - w0)).bytes = _ from hnew]
        simp only [mapErr]
        cases Deterministic.new (forecastFields first c.resolution c.horizon c.interval (w1 - w0) out
            m.name) with
        | error e => rfl
        | ok d => rfl

/-- A whole read of a view is its windows, all of them stacked. -/
theorem full_eq {full : TimeSeriesData} (hfull : materializeTimeSeries s m none = .ok full) :
    (a.stacked hh k 0 c.count).Checked ∧
      Deterministic.validate ⟨forecastFields c.initial c.resolution c.horizon c.interval c.count
        (a.stacked hh k 0 c.count) m.name⟩ = .ok () ∧
      full = viewOf m c (a.stacked hh k 0 c.count) c.initial c.count := by
  rw [h.materialize_derived] at hfull
  simp only [checkedBounds, resolveWindows_none, bind, Except.bind, Nat.sub_zero] at hfull
  exact buildView_eq.mp hfull

/-- **Ranges of views.**  Where a view can be read whole, a read of a range of it is refused where its
windows are, and is otherwise the whole cut to the windows selected. -/
theorem materialize_range {full : TimeSeriesData} (hfull : materializeTimeSeries s m none = .ok full)
    {range : Option TimeRange} (hr : ∀ r ∈ range, r.SpelledFor m.timeReference) :
    materializeTimeSeries s m range =
      (resolveWindows c.initial c.interval c.count (range.map fun r => (r.start, r.stop))
        m.name).map fun w => full.cut w.1 (w.2.1 - w.1) w.2.2 := by
  obtain ⟨hc, hval, rfl⟩ := h.full_eq hfull
  have hin := h.within_run (Nat.zero_le _) (le_refl c.count)
  rw [Nat.sub_zero] at hin
  have hbounds : checkedBounds m range = .ok (range.map fun r => (r.start, r.stop)) := by
    cases range with
    | none => rfl
    | some r => exact checkedBounds_eq (hr r rfl)
  rw [h.materialize_derived, hbounds]
  simp only [bind, Except.bind]
  cases hw : resolveWindows c.initial c.interval c.count (range.map fun r => (r.start, r.stop))
      m.name with
  | error e => rfl
  | ok w =>
    obtain ⟨w0, w1, first⟩ := w
    obtain ⟨h01, h1, -⟩ := resolveWindows_bounds hw
    have hslice : (a.stacked hh k 0 c.count).slice 1 w0 (w1 - w0) = a.stacked hh k w0 (w1 - w0) := by
      rw [TypedArray.stacked_slice h.checked.wellFormed h.rank hin (by omega), Nat.zero_add]
    obtain ⟨hp, _, hcomp, -⟩ := Deterministic.validate_ok.mp hval
    refine buildView_eq.mpr ⟨?_, ?_, ?_⟩
    · rw [← hslice]
      exact TypedArray.slice_checked hc (d := c.count) rfl (by omega)
    · refine Deterministic.validate_ok.mpr
        ⟨validateForecastPeriods_of_le hp rfl rfl rfl (by show w1 - w0 ≤ c.count; omega), hh, h.horizon, rfl⟩
    · show (viewOf m c _ _ _).cut w0 (w1 - w0) first = _
      rw [← hslice]
      rfl

end ArrayStore.HoldsView

end

end InfraStore
