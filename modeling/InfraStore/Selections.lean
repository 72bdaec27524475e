import InfraStore.DerivedReads

/-!
# What a range selects

Ranges of instants against what a stored series holds at them.

* `range_reads_covered`: a range of a series on a grid reads the steps it meets, if it is not empty or
  does not start inside a step;
* `windows_selected_exactly`: a range of a forecast selects the windows that start in it, and what is
  read of any forecast is the whole cut to them.
-/

namespace InfraStore

open Lib

/-! ### Steps -/

/-- A step of a grid holds from its point up to the next, and meets a range where the range holds an
instant of it. -/
def StepMeets (p : Period) (initial start stop : DateTime) (k : ℕ) : Prop :=
  ∃ x, (∃ t, p.addTo initial k = some t ∧ t ≤ x) ∧
    (∀ t, p.addTo initial ((k + 1 : ℕ) : ℤ) = some t → x < t) ∧ start ≤ x ∧ x < stop

/-- An instant lies inside a step of a grid, after its point and before the next. -/
def InsideStep (p : Period) (initial at_ : DateTime) (k : ℕ) : Prop :=
  (∃ t, p.addTo initial k = some t ∧ t < at_) ∧
    ∀ t, p.addTo initial ((k + 1 : ℕ) : ℤ) = some t → at_ < t

theorem stepMeets_iff {p : Period} {initial start stop : DateTime} (hp : p.isPositive = true)
    (ht : initial.nanos < 1000000000) (k : ℕ) : StepMeets p initial start stop k ↔
      start < stop ∧ (∃ t, p.addTo initial k = some t ∧ t < stop) ∧
        ∀ t, p.addTo initial ((k + 1 : ℕ) : ℤ) = some t → start < t := by
  constructor
  · rintro ⟨x, ⟨t, hadd, htx⟩, hnext, hsx, hxs⟩
    exact ⟨hsx.trans_lt hxs, ⟨t, hadd, htx.trans_lt hxs⟩, fun t h => hsx.trans_lt (hnext t h)⟩
  · rintro ⟨hlt, ⟨t, hadd, hts⟩, hnext⟩
    -- the later of the range's start and the step's point
    refine ⟨max start t, ⟨t, hadd, le_max_right _ _⟩, fun u hu => max_lt (hnext u hu) ?_,
      le_max_left _ _, max_lt hlt hts⟩
    exact Period.addTo_lt hp ht (by omega) hadd hu

namespace ArrayStore.Stores

variable {H B : Type} [DecidableEq H] [Sha256 H] [FloatText] [ToString H] [ArrayBackend H B]
  [LawfulArrayBackend H B] [LawfulReads H B]
variable {s : ArrayStore H B} {m : TimeSeriesMetadata H} {ss : SingleTimeSeries}

/-- What a read of a range does with the steps from `lo` on, `n` of them: it returns that part of the
series, or says that they cannot be re-anchored. -/
def ReadsSteps (s : ArrayStore H B) (m : TimeSeriesMetadata H) (ss : SingleTimeSeries) (r : TimeRange)
    (lo n : ℕ) : Prop :=
  (∃ e, requireAnchorableSlice ss.resolution ss.initialTimestamp lo n ss.name "timestep" = .error e ∧
      materializeTimeSeries s m (some r) = .error e) ∨
    ∃ d, materializeTimeSeries s m (some r) = .ok d ∧ (TimeSeriesData.single ss).IsPart lo n d

/-- A read of a range reads the steps the range meets. -/
def ReadsCovered (s : ArrayStore H B) (m : TimeSeriesMetadata H) (ss : SingleTimeSeries)
    (r : TimeRange) : Prop :=
  ∃ lo n, (∀ k, lo ≤ k ∧ k < lo + n ↔
      k < ss.length ∧ StepMeets ss.resolution ss.initialTimestamp r.start r.stop k) ∧
    ReadsSteps s m ss r lo n

/-- The steps a range of a stored series reads: those that start before the range ends and end after
it starts. -/
theorem readsSteps (h : s.Stores m (.single ss)) {r : TimeRange}
    (hr : r.SpelledFor m.timeReference) (hle : r.start ≤ r.stop)
    (hstart : ss.resolution.Places ss.initialTimestamp r.start ss.length)
    (hstop : ss.resolution.Places ss.initialTimestamp r.stop ss.length) :
    ∃ lo n, (∀ k, lo ≤ k ∧ k < lo + n ↔ k < ss.length ∧
        (∃ t, ss.resolution.addTo ss.initialTimestamp k = some t ∧ t < r.stop) ∧
        ∀ t, ss.resolution.addTo ss.initialTimestamp ((k + 1 : ℕ) : ℤ) = some t → r.start < t) ∧
      ReadsSteps s m ss r lo n := by
  obtain ⟨hms, -, hp⟩ := h.accepted.single
  obtain ⟨lo, hlo⟩ : ∃ lo,
      min (ss.resolution.floorSteps ss.initialTimestamp r.start) ss.length = lo := ⟨_, rfl⟩
  obtain ⟨hi, hhi⟩ : ∃ hi,
      max (min (ss.resolution.ceilSteps ss.initialTimestamp r.stop) ss.length) lo = hi := ⟨_, rfl⟩
  have hread := h.materialize_single hr hle hlo hhi
  refine ⟨lo, hi - lo, fun k => ?_, ?_⟩
  · constructor
    · rintro ⟨h1, h2⟩
      have hk : k < ss.length := by omega
      refine ⟨hk, (Period.lt_ceilSteps_iff hp hms.1 hstop hk).mp (by omega), fun t ht => ?_⟩
      by_contra hlt
      have := (Period.lt_floorSteps_iff hp hms.1 hstart hk).mpr ⟨t, ht, not_lt.mp hlt⟩
      omega
    · rintro ⟨hk, hbefore, hafter⟩
      have h1 := (Period.lt_ceilSteps_iff hp hms.1 hstop hk).mpr hbefore
      have h2 : ¬ k < ss.resolution.floorSteps ss.initialTimestamp r.start := by
        intro hlt
        obtain ⟨t, ht, hts⟩ := (Period.lt_floorSteps_iff hp hms.1 hstart hk).mp hlt
        exact absurd (hafter t ht) (not_lt.mpr hts)
      omega
  · -- the first step read is on the grid
    have hfirst : ∃ first, ss.resolution.addTo ss.initialTimestamp lo = some first := by
      cases lo with
      | zero => exact ⟨_, Period.addTo_zero hms.1⟩
      | succ j =>
        obtain ⟨t, ht, -⟩ := (Period.lt_floorSteps_iff hp hms.1 hstart
          (show j < ss.length by omega)).mp (by omega)
        exact ⟨t, ht⟩
    obtain ⟨first, hadd⟩ := hfirst
    rw [hadd] at hread
    cases ha : requireAnchorableSlice ss.resolution ss.initialTimestamp lo (hi - lo) ss.name
        "timestep" with
    | error e =>
      rw [ha] at hread
      exact .inl ⟨e, ha, hread⟩
    | ok u =>
      rw [ha] at hread
      refine .inr ⟨_, hread, ?_, ⟨first, rfl⟩, fun j hj => ?_⟩
      · show lo + (hi - lo) ≤ ss.length
        omega
      · exact (Period.anchorable_iff hp hms.1).mp (requireAnchorableSlice_ok.mp ha) first hadd j hj

omit [LawfulArrayBackend H B] [Sha256 H] [FloatText] [LawfulReads H B] in
/-- A read of no step is one of no row. -/
theorem ReadsSteps.empty {r : TimeRange} {lo : ℕ} (h : ReadsSteps s m ss r lo 0) :
    ∃ d, materializeTimeSeries s m (some r) = .ok d ∧ d.extent = 0 := by
  rcases h with ⟨e, ha, -⟩ | ⟨d, hd, hpart⟩
  · have hok : requireAnchorableSlice ss.resolution ss.initialTimestamp lo 0 ss.name "timestep" =
        .ok () := requireAnchorableSlice_ok.mpr (by
      unfold Period.subGridIsAnchorable
      cases ss.resolution with
      | fixed d => rfl
      | months n => exact if_pos (Or.inr (by omega)))
    rw [hok] at ha
    cases ha
  · obtain ⟨first, rfl⟩ := hpart.cut
    exact ⟨_, hd, rfl⟩

/-- An empty range that starts inside a stored step reads a step, though it meets none. -/
theorem not_readsCovered (h : s.Stores m (.single ss)) {r : TimeRange}
    (hr : r.SpelledFor m.timeReference) (heq : r.start = r.stop)
    (hstart : ss.resolution.Places ss.initialTimestamp r.start ss.length) {k : ℕ} (hk : k < ss.length)
    (hin : InsideStep ss.resolution ss.initialTimestamp r.start k) : ¬ ReadsCovered s m ss r := by
  obtain ⟨lo, n, hmem, hread⟩ := h.readsSteps hr heq.le hstart (heq ▸ hstart)
  rintro ⟨lo', n', hmem', hread'⟩
  have hn' : n' = 0 := by
    by_contra hne
    obtain ⟨-, x, -, -, hsx, hxs⟩ := (hmem' lo').mp (by omega)
    exact absurd (hsx.trans_lt hxs) (by rw [heq]; exact lt_irrefl _)
  rw [hn'] at hread'
  obtain ⟨d, hd, hzero⟩ := hread'.empty
  have hkn := (hmem k).mpr ⟨hk, by rw [← heq]; exact hin⟩
  rcases hread with ⟨e, -, he⟩ | ⟨d', hd', hpart⟩
  · rw [hd] at he
    cases he
  · rw [hd] at hd'
    cases hd'
    obtain ⟨first, rfl⟩ := hpart.cut
    have : n = 0 := hzero
    omega

/-- **Ranges of a series on a grid.**  A range reads exactly the steps it meets, each with its value
and its instant, when it is not empty or when its start lies inside no stored step: an empty range
that starts inside one reads that step, although it meets none. -/
theorem range_reads_covered (h : s.Stores m (.single ss)) {r : TimeRange}
    (hr : r.SpelledFor m.timeReference) (hle : r.start ≤ r.stop)
    (hstart : ss.resolution.Places ss.initialTimestamp r.start ss.length)
    (hstop : ss.resolution.Places ss.initialTimestamp r.stop ss.length) :
    ReadsCovered s m ss r ↔
      (r.start < r.stop ∨
        ∀ k < ss.length, ¬ InsideStep ss.resolution ss.initialTimestamp r.start k) := by
  obtain ⟨hms, -, hp⟩ := h.accepted.single
  obtain ⟨lo, n, hmem, hread⟩ := h.readsSteps hr hle hstart hstop
  rcases hle.lt_or_eq with hlt | heq
  · refine iff_of_true ⟨lo, n, fun k => ?_, hread⟩ (.inl hlt)
    rw [hmem, stepMeets_iff hp hms.1]
    exact ⟨fun h => ⟨h.1, hlt, h.2⟩, fun h => ⟨h.1, h.2.2⟩⟩
  · constructor
    · intro hc
      exact .inr fun k hk hin => h.not_readsCovered hr heq hstart hk hin hc
    · intro h'
      have hin := h'.resolve_left (by rw [heq]; exact lt_irrefl _)
      have hn : n = 0 := by
        by_contra hne
        obtain ⟨hk, hin'⟩ := (hmem lo).mp (by omega)
        exact hin lo hk (by rw [← heq] at hin'; exact hin')
      subst hn
      refine ⟨lo, 0, fun k => ⟨fun hk => by omega, ?_⟩, hread⟩
      rintro ⟨-, x, -, -, hsx, hxs⟩
      exact absurd (hsx.trans_lt hxs) (by rw [heq]; exact lt_irrefl _)

end ArrayStore.Stores

/-! ### Windows -/

/-- A row holds a forecast of the given columns: one that was written, or a view of a series. -/
inductive ArrayStore.HoldsForecast {H B : Type} [DecidableEq H] [Sha256 H] [FloatText] [ToString H]
    [ArrayBackend H B] [LawfulArrayBackend H B] (s : ArrayStore H B) (m : TimeSeriesMetadata H) :
    ForecastColumns → Prop
  | dense {d : TimeSeriesData} {f : ForecastFields} : s.Stores m d → d.forecast = some f →
      s.HoldsForecast m (Stores.columnsOf f)
  | view {c : ForecastColumns} {h k : ℕ} {a : TypedArray} : s.HoldsView m c h k a →
      s.HoldsForecast m c

section

variable {H B : Type} [DecidableEq H] [Sha256 H] [FloatText] [ToString H] [ArrayBackend H B]
  [LawfulArrayBackend H B] [LawfulReads H B]

/-- A read of a range of a forecast is the whole of it, cut to the windows selected. -/
theorem ArrayStore.HoldsForecast.materialize_range {s : ArrayStore H B} {m : TimeSeriesMetadata H}
    {c : ForecastColumns} (h : s.HoldsForecast m c) {full : TimeSeriesData}
    (hfull : materializeTimeSeries s m none = .ok full) {r : TimeRange}
    (hr : r.SpelledFor m.timeReference) :
    materializeTimeSeries s m (some r) =
      (resolveWindows c.initial c.interval c.count (some (r.start, r.stop)) m.name).map
        fun w => full.cut w.1 (w.2.1 - w.1) w.2.2 := by
  have hspelled : ∀ r' ∈ some r, r'.SpelledFor m.timeReference := fun r' h => by cases h; exact hr
  cases h with
  | dense hs hf =>
    rw [hs.materialize_full] at hfull
    cases hfull
    rw [hs.materialize_forecast hf hspelled, hs.name]
    rfl
  | view hv => exact hv.materialize_range hfull hspelled

/-- **Ranges of a forecast.**  A selection that is answered holds the windows that start in the range,
and the instant of the first; it is answered exactly for a start at or before the first window or at
one of the windows, where the windows selected can be re-anchored; and what is read of a forecast held
is the whole of it cut to them. -/
theorem windows_selected_exactly {c : ForecastColumns}
    (hg : WindowGrid c.initial c.interval c.count) (hone : 1 ≤ c.count)
    (hrep : ∀ k < c.count, ∃ t, c.interval.addTo c.initial (k : ℕ) = some t) {start stop : DateTime}
    (hle : start ≤ stop) (name : String) :
    (∀ w0 w1 first,
      resolveWindows c.initial c.interval c.count (some (start, stop)) name = .ok (w0, w1, first) →
        (∀ k, w0 ≤ k ∧ k < w1 ↔ k < c.count ∧ StartsIn c.interval c.initial start stop k) ∧
          (w0 < w1 → c.interval.addTo c.initial w0 = some first)) ∧
      ((∃ r, resolveWindows c.initial c.interval c.count (some (start, stop)) name = .ok r) ↔
        (start ≤ c.initial ∨ ∃ k < c.count, c.interval.addTo c.initial (k : ℕ) = some start) ∧
          ∀ i n, (∀ k, i ≤ k ∧ k < i + n ↔
              k < c.count ∧ StartsIn c.interval c.initial start stop k) →
            Reanchors c.interval c.initial i n) ∧
      ∀ (s : ArrayStore H B) (m : TimeSeriesMetadata H) (full : TimeSeriesData) (zoneless : Bool),
        s.HoldsForecast m c → materializeTimeSeries s m none = .ok full →
        TimeRange.SpelledFor ⟨start, stop, zoneless⟩ m.timeReference →
        materializeTimeSeries s m (some ⟨start, stop, zoneless⟩) =
          (resolveWindows c.initial c.interval c.count (some (start, stop)) m.name).map
            fun w => full.cut w.1 (w.2.1 - w.1) w.2.2 := by
  refine ⟨fun w0 w1 first h => ?_, resolveWindows_iff hg hone hrep hle,
    fun s m full zoneless hs hfull hr => hs.materialize_range hfull hr⟩
  obtain ⟨hmem, hfirst, -⟩ := resolveWindows_ok hg hle h
  exact ⟨hmem, hfirst⟩

end

/-! ### Two hours -/

namespace Store.Sample

open ArrayStore.Stores

/-- The series of two hourly steps a request carries. -/
def load : SingleTimeSeries :=
  { data := ⟨.u8, [2], [7, 7]⟩, name := "load", elementType := .scalar .u8, units := none
    quantityKind := none, unitSystem := none, timeReference := none, componentField := none
    applicationData := none, initialTimestamp := .epoch
    resolution := .fixed ⟨3600000000000, Duration.valid_hour⟩, length := 2 }

theorem load_stored : ∃ m, (holding (request 1 7)).Stores m (.single load) :=
  holding_stores (request 1 7) (by decide +kernel) (by decide +kernel)

def halfPast : DateTime := ⟨1800, 0, by decide⟩

def oneThirty : DateTime := ⟨5400, 0, by decide⟩

/-- A leap second at the end of the first hour. -/
def leap : DateTime := ⟨3599, 1500000000, by decide⟩

/-- A range from inside the first step to inside the second reads both. -/
theorem range_reads_covered_load : ∃ m, (holding (request 1 7)).Stores m (.single load) ∧
    ReadsCovered (holding (request 1 7)) m load ⟨halfPast, oneThirty, false⟩ := by
  obtain ⟨m, hm⟩ := load_stored
  have hr : TimeRange.SpelledFor ⟨halfPast, oneThirty, false⟩ m.timeReference := by
    rw [hm.timeReference]
    decide
  exact ⟨m, hm, (range_reads_covered hm hr (by decide) (by decide) (by decide)).mpr
    (.inl (by decide))⟩

/-- An empty range inside the first step reads it. -/
theorem empty_range_reads_load : ∃ m, (holding (request 1 7)).Stores m (.single load) ∧
    TimeRange.SpelledFor ⟨halfPast, halfPast, false⟩ m.timeReference ∧
    ¬ ReadsCovered (holding (request 1 7)) m load ⟨halfPast, halfPast, false⟩ := by
  obtain ⟨m, hm⟩ := load_stored
  have hr : TimeRange.SpelledFor ⟨halfPast, halfPast, false⟩ m.timeReference := by
    rw [hm.timeReference]
    decide
  refine ⟨m, hm, hr, hm.not_readsCovered hr rfl (by decide) (k := 0) (by decide) ?_⟩
  exact ⟨⟨.epoch, rfl, by decide⟩, fun t ht => by
    cases ht
    decide⟩

/-- Two hourly windows, a range that takes in the first. -/
theorem windows_selected_exactly_hourly :
    (∃ r, resolveWindows .epoch load.resolution 2 (some (.epoch, halfPast)) "load" = .ok r) ∧
      ∀ k, 0 ≤ k ∧ k < 1 ↔ k < 2 ∧ StartsIn load.resolution .epoch .epoch halfPast k := by
  have hrep : ∀ k < 2, (load.resolution.addTo .epoch (k : ℕ)).isSome = true := by decide
  have h := windows_selected_exactly (H := Digest) (B := MemoryBackend Digest)
    (c := ⟨.epoch, load.resolution, load.resolution, load.resolution, 2⟩)
    ⟨by decide, .inl (by decide)⟩ (by decide) (fun k hk => Option.isSome_iff_exists.mp (hrep k hk))
    (show DateTime.epoch ≤ halfPast by decide) "load"
  have hval : resolveWindows .epoch load.resolution 2 (some (.epoch, halfPast)) "load" =
      .ok (0, 1, .epoch) := by decide +kernel
  exact ⟨⟨_, hval⟩, (h.1 0 1 .epoch hval).1⟩

-- the elapsed time places a leap second past the hour it precedes
example : ¬ load.resolution.Places load.initialTimestamp leap load.length := by decide

end Store.Sample

end InfraStore
