import InfraStore.ForecastReads
import InfraStore.Selections
import InfraStore.StepFunctions
import InfraStore.WholeReads

/-!
# Windows of rows

A read of a window names a run of rows, or of a forecast's windows, by its first instant and its extent.
It is resolved to a range of instants, and the range back to places.

* `addTo_resumed`: a grid taken up again at one of its points does not overrun the original;
* `ReadWindow.Names`, `TimeSeriesData.endOf`: the run a window names, and the instant it is resolved to
  end at;
* `HoldsSeries.resolve_iff`: a window resolves exactly where it names a run whose end is representable;
* `Store.window_reads_exact`: a window is read as exactly the run it names, wherever that run can be
  described on its own.
-/

namespace InfraStore

open Lib

/-! ### Grids taken up again -/

namespace Period

variable {p : Period} {initial start stop : DateTime} {i n : ℕ}

/-- **A grid taken up again** at its point `i` and followed for `n` steps has passed the original's
points before `i + n`, and not the next. -/
theorem addTo_resumed (hp : p.isPositive = true) (ht : initial.nanos < 1000000000)
    (hstart : p.addTo initial i = some start) (hstop : p.addTo start n = some stop) :
    (∀ k < i + n, ∃ t, p.addTo initial (k : ℕ) = some t ∧ t < stop) ∧
      ∀ t, p.addTo initial ((i + n : ℕ) : ℤ) = some t → stop ≤ t := by
  cases p with
  | fixed d =>
    rw [addTo_fixed_add ht hstart, ← Nat.cast_add] at hstop
    refine ⟨fun k hk => ?_, fun t hadd => ?_⟩
    · obtain ⟨t, hadd⟩ := addTo_of_le hp ht (j := (k : ℤ)) (by omega) (by omega) hstop
      exact ⟨t, hadd, (addTo_lt_iff hp ht hadd hstop).mpr (by omega)⟩
    · rw [hstop] at hadd
      cases hadd
      exact le_rfl
  | months m =>
    have hm := isPositive_months hp
    obtain ⟨hsecs, hnanos⟩ := addTo_months hstart
    obtain ⟨hsecs', hnanos'⟩ := addTo_months hstop
    have hindex := monthIndex_addTo hstart
    -- the day taken up is not after the anchor's
    have hday : start.date.day ≤ initial.date.day := by
      have h := start.day_eq
      have hdays : start.secs / 86400 = initial.dayAfter (m.1 * i) := by omega
      unfold DateTime.dayAfter at hdays
      rw [h, hdays, hindex]
      omega
    have hsum : m.1 * ((i + n : ℕ) : ℤ) = m.1 * i + m.1 * n := by
      rw [Nat.cast_add, mul_add]
    have hafter : start.dayAfter (m.1 * n) ≤ initial.dayAfter (m.1 * ((i + n : ℕ) : ℤ)) := by
      unfold DateTime.dayAfter
      rw [hindex, hsum, ← add_assoc]
      omega
    refine ⟨fun k hk => ?_, fun t hadd => ?_⟩
    · have h0 : 0 ≤ m.1 * (k : ℤ) := Int.mul_nonneg hm.le (by omega)
      have hlow := dayAfter_ge initial h0
      have hlt : m.1 * (k : ℤ) + 1 ≤ m.1 * ((i + n : ℕ) : ℤ) := by
        have := Int.mul_lt_mul_of_pos_left (show (k : ℤ) < ((i + n : ℕ) : ℤ) by omega) hm
        omega
      have hhigh : initial.dayAfter (m.1 * k) < start.dayAfter (m.1 * n) := by
        have hmono : monthStart (initial.monthIndex + m.1 * k + 1) ≤
            monthStart (initial.monthIndex + m.1 * i + m.1 * n) := monthStart_le (by omega)
        have hnext := monthStart_succ (initial.monthIndex + m.1 * k)
        have hd1 : 1 ≤ start.date.day := (daysOfCivil_civilOfDays (start.secs / 86400)).2.2.2.1
        have hpos := daysInMonth_pos ((start.monthIndex + m.1 * n) / 12)
          ((start.monthIndex + m.1 * n) % 12 + 1)
        unfold DateTime.dayAfter
        rw [hindex] at hpos ⊢
        omega
      have htv := initial.valid
      have hsv := stop.valid
      refine ⟨⟨initial.dayAfter (m.1 * k) * 86400 + initial.secs % 86400, initial.nanos, by omega⟩,
        (addTo_months_iff h0).mpr ⟨rfl, rfl⟩, ?_⟩
      rw [DateTime.lt_iff_rank]
      unfold DateTime.rank
      simp only
      omega
    · obtain ⟨hs, hn⟩ := addTo_months hadd
      rw [DateTime.le_iff_rank]
      unfold DateTime.rank
      omega

end Period

/-! ### The run a window names -/

namespace TimeSeriesData

/-- The instant a run of `n` rows or windows from place `i` on, the first at `start`, has passed at. -/
def endOf (d : TimeSeriesData) (i n : ℕ) (start : DateTime) : Option DateTime :=
  match d with
  | single s => s.resolution.addTo start n
  | nonSequential s => irregular s.timestamps
  | persistent s => irregular s.timestamps
  | deterministic s => windows s.interval
  | probabilistic s => windows s.interval
  | scenarios s => windows s.interval
where
  irregular (ts : List DateTime) : Option DateTime :=
    if i + n < ts.length then ts[i + n]?
    else ts[ts.length - 1]?.bind fun t => t.addSigned ReadWindow.oneMilli
  windows (interval : Period) : Option DateTime :=
    if interval.isZero then start.addSigned ReadWindow.oneMilli else interval.addTo start n

/-- The run can be described by a grid that starts at its first instant. -/
def Reanchored (d : TimeSeriesData) (i n : ℕ) (start : DateTime) : Prop :=
  ∀ j < n, (d.cut i n start).instant j = d.instant (i + j)

end TimeSeriesData

namespace ReadWindow

/-- The extent a window asks of a series: of windows for a forecast, of rows for any other. -/
def asked (w : ReadWindow) (d : TimeSeriesData) : Option ℕ :=
  if d.forecast.isSome then w.count else w.len

/-- The extent that does not apply to a series. -/
def misplaced (w : ReadWindow) (d : TimeSeriesData) : Option ℕ :=
  if d.forecast.isSome then w.len else w.count

/-- A window names the `n` rows or windows of a series from place `i` on: it starts at the instant of
the first, or at the first of all where it gives no start, and goes on as far as it asks, or to the
end. -/
structure Names (w : ReadWindow) (d : TimeSeriesData) (i n : ℕ) (start : DateTime) : Prop where
  place : d.instant i = some start
  start : w.start = some start ∨ w.start = none ∧ i = 0
  misplaced : w.misplaced d = none
  extent : (w.asked d).getD (d.extent - i) = n
  one : 1 ≤ n
  within : i + n ≤ d.extent

/-- A window is spelled as a series is, if it gives a start. -/
def SpelledFor (w : ReadWindow) (reference : Option TimeReference) : Prop :=
  w.start.isSome = true → w.zoneless = !TimeReference.acceptsZonedBound reference

theorem extent_ok {requested : Option ℕ} {i total n : ℕ} {unit : String} :
    extent requested i total unit = .ok n ↔
      requested.getD (total - i) = n ∧ 1 ≤ n ∧ n ≤ total - i := by
  unfold extent
  simp only
  split
  · rename_i hzero
    constructor
    · intro h
      cases h
    · intro h
      omega
  · rename_i hne
    split
    · rename_i hlt
      constructor
      · intro h
        cases h
      · intro h
        omega
    · rename_i hle
      rw [Except.ok.injEq]
      constructor
      · intro h
        omega
      · intro h
        exact h.1

theorem windowEnd_ok {t : Option DateTime} {stop : DateTime} :
    windowEnd t = .ok stop ↔ t = some stop := by
  cases t with
  | none =>
    constructor
    · intro h
      cases h
    · intro h
      cases h
  | some t => rw [windowEnd, Except.ok.injEq, Option.some.injEq]

theorem rejectCount_ok {w : ReadWindow} {label : String} :
    w.rejectCount label = .ok () ↔ w.count = none := by
  unfold rejectCount
  cases w.count with
  | none => exact iff_of_true rfl rfl
  | some n => exact iff_of_false (fun h => by cases h) fun h => by cases h

theorem rejectLen_ok {w : ReadWindow} {label : String} :
    w.rejectLen label = .ok () ↔ w.len = none := by
  unfold rejectLen
  cases w.len with
  | none => exact iff_of_true rfl rfl
  | some n => exact iff_of_false (fun h => by cases h) fun h => by cases h

theorem spelledFor_range {H : Type} {m : TimeSeriesMetadata H} {w : ReadWindow}
    {start stop : DateTime} :
    (w.range m start stop).SpelledFor m.timeReference ↔ w.SpelledFor m.timeReference := by
  unfold range TimeRange.SpelledFor SpelledFor
  cases w.start with
  | none => exact iff_of_true rfl fun h => by cases h
  | some t => exact ⟨fun h _ => h, fun h => h rfl⟩

end ReadWindow

/-! ### Series on a grid -/

namespace ArrayStore.Stores

variable {H B : Type} [DecidableEq H] [Sha256 H] [FloatText] [ToString H] [ArrayBackend H B]
  [LawfulArrayBackend H B]
variable {s : ArrayStore H B} {m : TimeSeriesMetadata H} {w : ReadWindow} {start stop : DateTime}
  {i n : ℕ} {r : TimeRange}

omit [ToString H] in
/-- A window of a series on a grid resolves where it names a run that ends. -/
theorem resolveSingle_iff {ss : SingleTimeSeries} (h : s.Stores m (.single ss)) :
    w.resolveSingle m = .ok r ↔ ∃ i n start stop, w.Names (.single ss) i n start ∧
      (TimeSeriesData.single ss).endOf i n start = some stop ∧ r = w.range m start stop := by
  obtain ⟨hms, hlen, hp⟩ := h.accepted.single
  have hlength : m.length = some ss.length := h.row.length.trans (congrArg some hlen.symm)
  unfold ReadWindow.resolveSingle
  rw [h.row.start, h.row.resolution, hlength]
  simp only [TimeSeriesData.start, TimeSeriesData.resolution, required_some, bind, Except.bind]
  constructor
  · intro hr
    obtain ⟨_, hcount, hr⟩ := except_bind_eq_ok.mp hr
    obtain ⟨i, hi, hr⟩ := except_bind_eq_ok.mp hr
    split at hr
    · cases hr
    · obtain ⟨n, hn, hr⟩ := except_bind_eq_ok.mp hr
      obtain ⟨stop, hstop, hr⟩ := except_bind_eq_ok.mp hr
      obtain ⟨hask, hone, hwithin⟩ := ReadWindow.extent_ok.mp hn
      have hplace := Period.stepsBetween_ok hi
      cases hr
      refine ⟨i, n, _, stop, ⟨hplace, ?_, ReadWindow.rejectCount_ok.mp hcount, hask, hone, ?_⟩,
        ReadWindow.windowEnd_ok.mp hstop, rfl⟩
      · cases hs : w.start with
        | some t => exact .inl rfl
        | none =>
          rw [hs] at hplace
          exact .inr ⟨rfl, by
            exact_mod_cast Period.addTo_injective hp hms.1 hplace (Period.addTo_zero hms.1)⟩
      · show i + n ≤ ss.length
        omega
  · intro hr
    obtain ⟨i, n, start, stop, hnames, hstop, rfl⟩ := hr
    have hwithin : i + n ≤ ss.length := hnames.within
    have hone := hnames.one
    have hget : w.start.getD ss.initialTimestamp = start := by
      rcases hnames.start with hs | ⟨hs, hi⟩
      · rw [hs]
        rfl
      · have hplace := hnames.place
        rw [hi] at hplace
        rw [hs]
        exact Option.some.inj ((Period.addTo_zero hms.1).symm.trans hplace)
    rw [hget]
    refine except_bind_eq_ok.mpr ⟨(), ReadWindow.rejectCount_ok.mpr hnames.misplaced, ?_⟩
    refine except_bind_eq_ok.mpr ⟨i, Period.stepsBetween_eq hp hms.1 hnames.place, ?_⟩
    rw [if_neg (by omega)]
    refine except_bind_eq_ok.mpr ⟨n, ReadWindow.extent_ok.mpr ⟨hnames.extent, hone, by omega⟩, ?_⟩
    exact except_bind_eq_ok.mpr ⟨stop, ReadWindow.windowEnd_ok.mpr hstop, rfl⟩

variable [LawfulReads H B]

/-- The range a window of a series on a grid resolves to is read as the run it names, where that can be
re-anchored. -/
theorem materialize_single_run {ss : SingleTimeSeries} (h : s.Stores m (.single ss))
    (hn : w.Names (.single ss) i n start)
    (hend : (TimeSeriesData.single ss).endOf i n start = some stop)
    (hr : w.SpelledFor m.timeReference) (d' : TimeSeriesData) :
    materializeTimeSeries s m (some (w.range m start stop)) = .ok d' ↔
      (TimeSeriesData.single ss).Reanchored i n start ∧
        d' = (TimeSeriesData.single ss).cut i n start := by
  obtain ⟨hms, -, hp⟩ := h.accepted.single
  have hplace : ss.resolution.addTo ss.initialTimestamp i = some start := hn.place
  have hstop : ss.resolution.addTo start n = some stop := hend
  have hwithin : i + n ≤ ss.length := hn.within
  have hone := hn.one
  have hnanos := Period.addTo_nanos hms.1 hplace
  have hat : ∀ {at_ : DateTime}, at_.nanos < 1000000000 →
      ss.resolution.Places ss.initialTimestamp at_ ss.length := fun h =>
    Period.places_of_clocked hp hms.1 (Or.inl h) _
  have hstart := hat hnanos
  have hstopat := hat (Period.addTo_nanos hnanos hstop)
  obtain ⟨hbefore, hafter⟩ := Period.addTo_resumed hp hms.1 hplace hstop
  have hlo : min (ss.resolution.floorSteps ss.initialTimestamp start) ss.length = i := by
    have hup : ¬ i < ss.resolution.floorSteps ss.initialTimestamp start := by
      rw [Period.lt_floorSteps_iff hp hms.1 hstart (by omega)]
      rintro ⟨t, ht, hle⟩
      have := (Period.addTo_le_iff hp hms.1 ht hplace).mp hle
      omega
    have hdown : ∀ k, k + 1 = i → k < ss.resolution.floorSteps ss.initialTimestamp start := by
      intro k hk
      refine (Period.lt_floorSteps_iff hp hms.1 hstart (by omega)).mpr ⟨start, ?_, le_rfl⟩
      rw [hk, hplace]
    have := hdown (i - 1)
    omega
  have hhi : max (min (ss.resolution.ceilSteps ss.initialTimestamp stop) ss.length) i = i + n := by
    have hlast : i + n - 1 < ss.resolution.ceilSteps ss.initialTimestamp stop :=
      (Period.lt_ceilSteps_iff hp hms.1 hstopat (by omega)).mpr (hbefore _ (by omega))
    have hnext : i + n < ss.length → ¬ i + n < ss.resolution.ceilSteps ss.initialTimestamp stop := by
      intro hlt
      rw [Period.lt_ceilSteps_iff hp hms.1 hstopat hlt]
      rintro ⟨t, ht, hlt'⟩
      exact absurd (hafter t ht) (not_le.mpr hlt')
    omega
  have hle : start ≤ stop := Period.le_addTo hp hnanos (by omega) hstop
  rw [h.materialize_single (ReadWindow.spelledFor_range.mpr hr) hle hlo hhi, hplace,
    Nat.add_sub_cancel_left, except_bind_eq_ok]
  have hanchor : requireAnchorableSlice ss.resolution ss.initialTimestamp i n ss.name "timestep" =
      .ok () ↔ (TimeSeriesData.single ss).Reanchored i n start := by
    rw [requireAnchorableSlice_ok, Period.anchorable_iff hp hms.1]
    constructor
    · intro ha
      exact ha start hplace
    · intro ha first hfirst
      rw [hplace] at hfirst
      cases hfirst
      exact ha
  rw [← hanchor]
  constructor
  · rintro ⟨_, ha, hd⟩
    cases hd
    exact ⟨ha, rfl⟩
  · rintro ⟨ha, rfl⟩
    exact ⟨(), ha, rfl⟩

end ArrayStore.Stores

/-! ### Series on explicit instants -/

section

variable {ts : List DateTime} {start stop : DateTime} {i n : ℕ}

/-- The rows before a stored instant are those before its place. -/
theorem partitionPoint_at (hs : ts.Pairwise (· < ·)) (hi : ts[i]? = some start) :
    partitionPoint (fun t => decide (t < start)) ts = i := by
  have hat : ∀ {k : ℕ} {t : DateTime}, ts[k]? = some t →
      (k < partitionPoint (fun t => decide (t < start)) ts ↔ t < start) := fun hk => by
    rw [lt_partitionPoint_iff (before_cut hs start) hk, decide_eq_true_iff]
  have hup : ¬ i < partitionPoint (fun t => decide (t < start)) ts := by
    rw [hat hi]
    exact lt_irrefl _
  have hlen := (List.getElem?_eq_some_iff.mp hi).1
  have hdown : ∀ k, k + 1 = i → k < partitionPoint (fun t => decide (t < start)) ts := by
    intro k hk
    have hlt : k < ts.length := by omega
    refine (hat (List.getElem?_eq_getElem hlt)).mpr ?_
    obtain ⟨_, rfl⟩ := List.getElem?_eq_some_iff.mp hi
    exact List.pairwise_iff_getElem.mp hs k i hlt hlen (by omega)
  have := hdown (i - 1)
  omega

/-- The end of a run of instants comes after its start, and the rows before it are those before the end
of the run. -/
theorem endOf_irregular (hs : ts.Pairwise (· < ·)) (hms : ∀ t ∈ ts, t.IsMillis)
    (hi : ts[i]? = some start) (hone : 1 ≤ n) (hwithin : i + n ≤ ts.length)
    (hend : TimeSeriesData.endOf.irregular i n ts = some stop) :
    start < stop ∧ partitionPoint (fun t => decide (t < stop)) ts = i + n := by
  unfold TimeSeriesData.endOf.irregular at hend
  split at hend
  · have hlt : i < i + n := by omega
    obtain ⟨h1, rfl⟩ := List.getElem?_eq_some_iff.mp hi
    refine ⟨?_, partitionPoint_at hs hend⟩
    obtain ⟨h2, rfl⟩ := List.getElem?_eq_some_iff.mp hend
    exact List.pairwise_iff_getElem.mp hs i (i + n) h1 h2 hlt
  · -- the run goes to the last row, which ends a millisecond on
    obtain ⟨last, hlast, hadd⟩ := Option.bind_eq_some_iff.mp hend
    have hmem := List.mem_of_getElem? hlast
    obtain ⟨htotal, hnanos⟩ := DateTime.addSigned_spec (hms last hmem).1 hadd
    have hpast : last < stop := by
      rw [DateTime.lt_iff_total (hms last hmem).1 hnanos, htotal]
      have : ReadWindow.oneMilli.nanos = 1000000 := rfl
      omega
    have hall : ts.length - 1 < partitionPoint (fun t => decide (t < stop)) ts :=
      (lt_partitionPoint_iff (before_cut hs stop) hlast).mpr (decide_eq_true hpast)
    have hle := partitionPoint_le (fun t => decide (t < stop)) ts
    refine ⟨lt_of_le_of_lt ?_ hpast, by omega⟩
    obtain ⟨h1, rfl⟩ := List.getElem?_eq_some_iff.mp hi
    obtain ⟨h2, rfl⟩ := List.getElem?_eq_some_iff.mp hlast
    rcases Nat.lt_or_ge i (ts.length - 1) with hlt | hge
    · exact (List.pairwise_iff_getElem.mp hs i (ts.length - 1) h1 h2 hlt).le
    · have heq : ts.length - 1 = i := by omega
      simp [heq]

end

/-- A series of explicit instants, which increase and are whole milliseconds. -/
structure TimeSeriesData.OnInstants (d : TimeSeriesData) (ts : List DateTime) : Prop where
  axis : d.axis = some ts
  increasing : ts.Pairwise (· < ·)
  millis : ∀ t ∈ ts, t.IsMillis
  extent : d.extent = ts.length
  static : d.forecast = none
  instant (k : ℕ) : d.instant k = ts[k]?
  endOf (i n : ℕ) (start : DateTime) : d.endOf i n start = TimeSeriesData.endOf.irregular i n ts

theorem TimeSeriesData.Accepted.onInstants_nonSequential [FloatText] {ns : NonSequentialTimeSeries}
    (h : (TimeSeriesData.nonSequential ns).Accepted) :
    (TimeSeriesData.nonSequential ns).OnInstants ns.timestamps :=
  have hax := h.nonSequential
  { axis := rfl, increasing := hax.increasing, millis := hax.millis
    extent := hax.length.trans hax.rows.symm, static := rfl, instant := fun _ => rfl
    endOf := fun _ _ _ => rfl }

theorem TimeSeriesData.Accepted.onInstants_persistent [FloatText] {ps : PersistentTimeSeries}
    (h : (TimeSeriesData.persistent ps).Accepted) :
    (TimeSeriesData.persistent ps).OnInstants ps.timestamps :=
  have hax := h.persistent
  { axis := rfl, increasing := hax.increasing, millis := hax.millis
    extent := hax.length.trans hax.rows.symm, static := rfl, instant := fun _ => rfl
    endOf := fun _ _ _ => rfl }

/-- The rows of a run named are those at and after its start and before its end. -/
theorem TimeSeriesData.OnInstants.names {d : TimeSeriesData} {ts : List DateTime} (ho : d.OnInstants ts)
    {w : ReadWindow} {i n : ℕ} {start stop : DateTime} (hn : w.Names d i n start)
    (hend : d.endOf i n start = some stop) :
    ts[i]? = some start ∧ start < stop ∧ partitionPoint (fun t => decide (t < stop)) ts = i + n := by
  have hplace := hn.place
  have hwithin := hn.within
  rw [ho.instant] at hplace
  rw [ho.extent] at hwithin
  rw [ho.endOf] at hend
  exact ⟨hplace, endOf_irregular ho.increasing ho.millis hplace hn.one hwithin hend⟩

namespace ArrayStore.Stores

variable {H B : Type} [DecidableEq H] [Sha256 H] [FloatText] [ToString H] [ArrayBackend H B]
  [LawfulArrayBackend H B]
variable {s : ArrayStore H B} {m : TimeSeriesMetadata H} {w : ReadWindow} {start stop : DateTime}
  {i n : ℕ} {r : TimeRange}

omit [ToString H] in
/-- A window of a series on explicit instants resolves where it names a run that ends. -/
theorem resolveNonSequential_iff {d : TimeSeriesData} {ts : List DateTime} (h : s.Stores m d)
    (ho : d.OnInstants ts) :
    w.resolveNonSequential m = .ok r ↔ ∃ i n start stop, w.Names d i n start ∧
      d.endOf i n start = some stop ∧ r = w.range m start stop := by
  have hasked : w.asked d = w.len ∧ w.misplaced d = w.count := by
    unfold ReadWindow.asked ReadWindow.misplaced
    rw [ho.static]
    exact ⟨rfl, rfl⟩
  unfold ReadWindow.resolveNonSequential
  rw [h.row.axis, ho.axis]
  simp only [required_some, bind, Except.bind]
  constructor
  · intro hr
    obtain ⟨_, hcount, hr⟩ := except_bind_eq_ok.mp hr
    cases hfirst : ts[0]? with
    | none =>
      rw [hfirst] at hr
      cases hr
    | some first =>
      rw [hfirst] at hr
      dsimp only at hr
      split at hr
      · cases hr
      · rename_i hstored
        obtain ⟨n, hn, hr⟩ := except_bind_eq_ok.mp hr
        obtain ⟨stop, hstop, hr⟩ := except_bind_eq_ok.mp hr
        obtain ⟨hask, hone, hwithin⟩ := ReadWindow.extent_ok.mp hn
        have hplace := not_not.mp hstored
        cases hr
        refine ⟨_, n, _, stop, ⟨(ho.instant _).trans hplace, ?_, ?_, ?_, hone, ?_⟩, ?_, rfl⟩
        · cases hs : w.start with
          | some t => exact .inl rfl
          | none => exact .inr ⟨rfl, partitionPoint_at ho.increasing hfirst⟩
        · exact hasked.2.trans (ReadWindow.rejectCount_ok.mp hcount)
        · rw [hasked.1, ho.extent]
          exact hask
        · rw [ho.extent]
          omega
        · rw [ho.endOf]
          exact ReadWindow.windowEnd_ok.mp hstop
  · intro hr
    obtain ⟨i, n, start, stop, hnames, hstop, rfl⟩ := hr
    have hwithin := hnames.within
    have hone := hnames.one
    have hplace := hnames.place
    have hextent := hnames.extent
    rw [ho.extent] at hwithin hextent
    rw [ho.instant] at hplace
    rw [hasked.1] at hextent
    obtain ⟨first, hfirst⟩ : ∃ first, ts[0]? = some first := ⟨_, List.getElem?_eq_getElem (by omega)⟩
    refine except_bind_eq_ok.mpr
      ⟨(), ReadWindow.rejectCount_ok.mpr (hasked.2.symm.trans hnames.misplaced), ?_⟩
    rw [hfirst]
    have hget : w.start.getD first = start := by
      rcases hnames.start with hs | ⟨hs, hi⟩
      · rw [hs]
        rfl
      · rw [hi, hfirst] at hplace
        rw [hs]
        exact Option.some.inj hplace
    dsimp only
    rw [hget, partitionPoint_at ho.increasing hplace, if_neg (not_not.mpr hplace)]
    refine except_bind_eq_ok.mpr ⟨n, ReadWindow.extent_ok.mpr ⟨hextent, hone, by omega⟩, ?_⟩
    refine except_bind_eq_ok.mpr ⟨stop, ReadWindow.windowEnd_ok.mpr ?_, rfl⟩
    rw [ho.endOf] at hstop
    exact hstop

variable [LawfulReads H B]

theorem materialize_nonSequential_run {ns : NonSequentialTimeSeries}
    (h : s.Stores m (.nonSequential ns)) (hn : w.Names (.nonSequential ns) i n start)
    (hend : (TimeSeriesData.nonSequential ns).endOf i n start = some stop)
    (hr : w.SpelledFor m.timeReference) :
    materializeTimeSeries s m (some (w.range m start stop)) =
      .ok ((TimeSeriesData.nonSequential ns).cut i n start) := by
  have ho := h.accepted.onInstants_nonSequential
  obtain ⟨hplace, hlt, hstop⟩ := ho.names hn hend
  have hrows : selectInstants ns.timestamps (w.range m start stop).start
      (w.range m start stop).stop = .ok (i, i + n) := by
    show Except.ok (partitionPoint (fun t => decide (t < start)) ns.timestamps,
      partitionPoint (fun t => decide (t < stop)) ns.timestamps) = _
    rw [partitionPoint_at ho.increasing hplace, hstop]
  rw [h.materialize_nonSequential (ReadWindow.spelledFor_range.mpr hr) hlt.le hrows start,
    Nat.add_sub_cancel_left]

theorem materialize_persistent_run {ps : PersistentTimeSeries} (h : s.Stores m (.persistent ps))
    (hn : w.Names (.persistent ps) i n start)
    (hend : (TimeSeriesData.persistent ps).endOf i n start = some stop)
    (hr : w.SpelledFor m.timeReference) :
    materializeTimeSeries s m (some (w.range m start stop)) =
      .ok ((TimeSeriesData.persistent ps).cut i n start) := by
  have ho := h.accepted.onInstants_persistent
  obtain ⟨hplace, hlt, hstop⟩ := ho.names hn hend
  have hforce : indexAt ps.timestamps start = some i := by
    refine (indexAt_iff ho.increasing).mpr ⟨⟨start, hplace, le_rfl⟩, fun t ht => ?_⟩
    obtain ⟨h1, rfl⟩ := List.getElem?_eq_some_iff.mp hplace
    obtain ⟨h2, rfl⟩ := List.getElem?_eq_some_iff.mp ht
    exact List.pairwise_iff_getElem.mp ho.increasing i (i + 1) h1 h2 (by omega)
  have hselect := selectBreakpoints_inForce (m := m) hforce hlt
  rw [hstop] at hselect
  have hlen : ps.timestamps.length = ps.length := ho.extent.symm
  rw [h.materialize_persistent (ReadWindow.spelledFor_range.mpr hr) hlt.le (fun a b hab =>
    hlen ▸ selectBreakpoints_le hlt.le hab) start]
  show (selectBreakpoints m ps.timestamps start stop).map _ = _
  rw [hselect, Except.map, Nat.add_sub_cancel_left]

end ArrayStore.Stores

/-! ### Forecasts -/

section

variable {initial start stop first : DateTime} {interval : Period} {count i n w0 w1 : ℕ} {name : String}

/-- The windows of a run named are those that start in the range it resolves to. -/
theorem startsIn_run (hg : WindowGrid initial interval count)
    (hplace : interval.addTo initial i = some start) (hone : 1 ≤ n) (hwithin : i + n ≤ count)
    (hend : TimeSeriesData.endOf.windows n start interval = some stop) :
    start < stop ∧
      ∀ k, i ≤ k ∧ k < i + n ↔ k < count ∧ StartsIn interval initial start stop k := by
  have ht := hg.millis.1
  unfold TimeSeriesData.endOf.windows at hend
  rcases hg.interval with hp | ⟨hcount, hzero⟩
  · have hnz : interval.isZero = false := by
      cases hz : interval.isZero with
      | false => rfl
      | true =>
        rw [Period.not_isPositive_of_isZero hz] at hp
        cases hp
    rw [hnz, if_neg Bool.false_ne_true] at hend
    have hnanos := Period.addTo_nanos ht hplace
    obtain ⟨hbefore, hafter⟩ := Period.addTo_resumed hp ht hplace hend
    refine ⟨(Period.addTo_lt_iff hp hnanos (Period.addTo_zero hnanos) hend).mpr (by omega),
      fun k => ?_⟩
    constructor
    · rintro ⟨hik, hk⟩
      obtain ⟨t, hadd, hlt⟩ := hbefore k hk
      exact ⟨by omega, t, hadd, (Period.addTo_le_iff hp ht hplace hadd).mpr (by omega), hlt⟩
    · rintro ⟨-, t, hadd, hle, hlt⟩
      have hik := (Period.addTo_le_iff hp ht hplace hadd).mp hle
      refine ⟨by omega, ?_⟩
      by_contra hge
      obtain ⟨u, hu⟩ := Period.addTo_of_le hp ht (j := ((i + n : ℕ) : ℤ)) (by omega)
        (show ((i + n : ℕ) : ℤ) ≤ (k : ℤ) by omega) hadd
      have huk := (Period.addTo_le_iff hp ht hu hadd).mpr (by omega)
      exact absurd ((hafter u hu).trans huk) (not_le.mpr hlt)
  · rw [hzero, if_pos rfl] at hend
    have hadd := Period.addTo_of_isZero hzero ht
    rw [hadd] at hplace
    cases hplace
    obtain ⟨htotal, hnanos⟩ := DateTime.addSigned_spec ht hend
    have hlt : initial < stop := by
      rw [DateTime.lt_iff_total ht hnanos, htotal]
      have : ReadWindow.oneMilli.nanos = 1000000 := rfl
      omega
    refine ⟨hlt, fun k => ⟨fun hk => ⟨by omega, initial, hadd k, le_rfl, hlt⟩, fun hk => ?_⟩⟩
    omega

/-- The windows a range selects, where it is that of a run named. -/
theorem resolveWindows_run (hg : WindowGrid initial interval count)
    (hplace : interval.addTo initial i = some start) (hone : 1 ≤ n) (hwithin : i + n ≤ count)
    (hend : TimeSeriesData.endOf.windows n start interval = some stop)
    (h : resolveWindows initial interval count (some (start, stop)) name = .ok (w0, w1, first)) :
    w0 = i ∧ w1 = i + n ∧ first = start ∧ Reanchors interval initial i n := by
  obtain ⟨hlt, hrun⟩ := startsIn_run hg hplace hone hwithin hend
  obtain ⟨hmem, hfirst, h01, -, hre⟩ := resolveWindows_ok hg hlt.le h
  -- two runs of the same windows are the same run
  have hi := (hmem i).mpr ((hrun i).mp (by omega))
  have hlast := (hmem (i + n - 1)).mpr ((hrun (i + n - 1)).mp (by omega))
  have hw0 := (hrun w0).mpr ((hmem w0).mp (by omega))
  have hw1 := (hrun (w1 - 1)).mpr ((hmem (w1 - 1)).mp (by omega))
  obtain rfl : w0 = i := by omega
  obtain rfl : w1 = w0 + n := by omega
  rw [Nat.add_sub_cancel_left] at hre
  refine ⟨rfl, rfl, ?_, hre⟩
  have := hfirst (by omega)
  rw [hplace] at this
  exact (Option.some.inj this).symm

end

theorem TimeSeriesData.forecast_eqs {d : TimeSeriesData} {f : ForecastFields}
    (hf : d.forecast = some f) :
    d.extent = f.count ∧ (∀ k : ℕ, d.instant k = f.interval.addTo f.initialTimestamp k) ∧
      (∀ i n start, d.endOf i n start = TimeSeriesData.endOf.windows n start f.interval) ∧
      ∀ i n start (j : ℕ), (d.cut i n start).instant j = f.interval.addTo start j := by
  cases d with
  | single s => cases hf
  | nonSequential s => cases hf
  | persistent s => cases hf
  | deterministic s =>
    cases hf
    exact ⟨rfl, fun _ => rfl, fun _ _ _ => rfl, fun _ _ _ _ => rfl⟩
  | probabilistic s =>
    cases hf
    exact ⟨rfl, fun _ => rfl, fun _ _ _ => rfl, fun _ _ _ _ => rfl⟩
  | scenarios s =>
    cases hf
    exact ⟨rfl, fun _ => rfl, fun _ _ _ => rfl, fun _ _ _ _ => rfl⟩

/-- A row whose columns are those of a forecast's windows. -/
structure TimeSeriesMetadata.WindowsOf {H : Type} (m : TimeSeriesMetadata H) (f : ForecastFields) :
    Prop where
  initial : m.initialTimestamp = some f.initialTimestamp
  interval : m.interval = some f.interval
  count : m.count = some f.count

/-- The row of a forecast carries its windows. -/
theorem TimeSeriesMetadata.RowOf.windowsOf {H : Type} [Sha256 H] {m : TimeSeriesMetadata H}
    {d : TimeSeriesData} {f : ForecastFields} (row : m.RowOf d) (hf : d.forecast = some f) :
    m.WindowsOf f := by
  constructor
  · rw [row.start]
    cases d <;> cases hf <;> rfl
  · rw [row.interval, hf]
    rfl
  · rw [row.count, hf]
    rfl

/-- Where a forecast's window read starts. -/
def TimeSeriesData.placeOf (f : ForecastFields) (start : DateTime) : Result ℕ :=
  if f.interval.isZero then
    (if start ≠ f.initialTimestamp then .error notWindowBoundary else .ok 0)
  else f.interval.stepsBetween f.initialTimestamp start

theorem TimeSeriesData.placeOf_iff {f : ForecastFields}
    (hg : WindowGrid f.initialTimestamp f.interval f.count) {start : DateTime} {i : ℕ}
    (hi : i < f.count) :
    placeOf f start = .ok i ↔ f.interval.addTo f.initialTimestamp i = some start := by
  have ht := hg.millis.1
  unfold placeOf
  cases hz : f.interval.isZero with
  | true =>
    have hp := Period.not_isPositive_of_isZero hz
    have hcount := hg.interval.resolve_left (by rw [hp]; exact Bool.false_ne_true)
    rw [if_pos rfl, Period.addTo_of_isZero hz ht]
    by_cases hstart : start = f.initialTimestamp
    · rw [if_neg (not_not.mpr hstart), hstart]
      exact iff_of_true (congrArg Except.ok (by omega)) rfl
    · rw [if_pos hstart]
      exact iff_of_false (fun h => by cases h) fun h => hstart (Option.some.inj h).symm
  | false =>
    have hp := hg.interval.resolve_right fun h => by
      rw [hz] at h
      cases h.2
    rw [if_neg Bool.false_ne_true]
    exact Period.stepsBetween_iff hp ht

theorem TimeSeriesMetadata.WindowsOf.resolveForecast_ok {H : Type} {m : TimeSeriesMetadata H}
    {f : ForecastFields} (hm : m.WindowsOf f) {w : ReadWindow} {r : TimeRange} {start : DateTime}
    (hstart : w.start.getD f.initialTimestamp = start) :
    w.resolveForecast m = .ok r ↔ w.len = none ∧ ∃ i, TimeSeriesData.placeOf f start = .ok i ∧
      i < f.count ∧ ∃ n, ReadWindow.extent w.count i f.count "windows" = .ok n ∧ ∃ stop,
        TimeSeriesData.endOf.windows n start f.interval = some stop ∧ r = w.range m start stop := by
  have hrest : ∀ (i : ℕ) (e : TimeSeriesError),
      (if f.count ≤ i then .error e else
        ReadWindow.extent w.count i f.count "windows" >>= fun n =>
          ReadWindow.windowEnd (if f.interval.isZero then start.addSigned ReadWindow.oneMilli
            else f.interval.addTo start n) >>= fun stop => pure (w.range m start stop)) = .ok r ↔
        i < f.count ∧ ∃ n, ReadWindow.extent w.count i f.count "windows" = .ok n ∧ ∃ stop,
          TimeSeriesData.endOf.windows n start f.interval = some stop ∧ r = w.range m start stop := by
    intro i e
    by_cases hi : f.count ≤ i
    · rw [if_pos hi]
      exact iff_of_false (fun h => by cases h) fun h => by omega
    · rw [if_neg hi]
      simp only [except_bind_eq_ok, ReadWindow.windowEnd_ok, not_le.mp hi, true_and]
      constructor
      · rintro ⟨n, hn, stop, hstop, hr⟩
        cases hr
        exact ⟨n, hn, stop, hstop, rfl⟩
      · rintro ⟨n, hn, stop, hstop, rfl⟩
        exact ⟨n, hn, stop, hstop, rfl⟩
  unfold ReadWindow.resolveForecast
  rw [hm.initial, hm.interval, hm.count]
  simp only [required_some, bind, Except.bind, hstart]
  refine except_bind_eq_ok.trans (Unique.exists_iff.trans (and_congr ReadWindow.rejectLen_ok ?_))
  unfold TimeSeriesData.placeOf
  cases hz : f.interval.isZero with
  | true =>
    simp only [hz, if_true] at hrest ⊢
    exact except_bind_eq_ok.trans (exists_congr fun i => and_congr Iff.rfl (hrest i _))
  | false =>
    simp only [hz, Bool.false_eq_true, if_false] at hrest ⊢
    exact except_bind_eq_ok.trans (exists_congr fun i => and_congr Iff.rfl (hrest i _))

/-- A window of a forecast resolves where it names a run that ends. -/
theorem TimeSeriesMetadata.WindowsOf.resolveForecast_iff {H : Type} {m : TimeSeriesMetadata H}
    {f : ForecastFields} (hm : m.WindowsOf f) (hg : WindowGrid f.initialTimestamp f.interval f.count)
    {d : TimeSeriesData} (hf : d.forecast = some f) {w : ReadWindow} {r : TimeRange} :
    w.resolveForecast m = .ok r ↔ ∃ i n start stop, w.Names d i n start ∧
      d.endOf i n start = some stop ∧ r = w.range m start stop := by
  obtain ⟨hextent, hinstant, hends, -⟩ := TimeSeriesData.forecast_eqs hf
  have ht := hg.millis.1
  have hasked : w.asked d = w.count ∧ w.misplaced d = w.len := by
    unfold ReadWindow.asked ReadWindow.misplaced
    rw [hf]
    exact ⟨rfl, rfl⟩
  constructor
  · intro hr
    obtain ⟨hlen, i, hi, hlt, n, hn, stop, hstop, hr⟩ := (hm.resolveForecast_ok rfl).mp hr
    obtain ⟨hask, hone, hwithin⟩ := ReadWindow.extent_ok.mp hn
    have hplace := (TimeSeriesData.placeOf_iff hg hlt).mp hi
    refine ⟨i, n, _, stop, ⟨(hinstant i).trans hplace, ?_, hasked.2.trans hlen, ?_, hone, ?_⟩, ?_, hr⟩
    · cases hs : w.start with
      | some t => exact .inl rfl
      | none =>
        rw [hs] at hplace
        refine .inr ⟨rfl, ?_⟩
        rcases hg.interval with hp | ⟨hone, -⟩
        · exact_mod_cast Period.addTo_injective hp ht hplace (Period.addTo_zero ht)
        · omega
    · rw [hasked.1, hextent]
      exact hask
    · rw [hextent]
      omega
    · rw [hends]
      exact hstop
  · rintro ⟨i, n, start, stop, hnames, hstop, hr⟩
    have hwithin := hnames.within
    have hone := hnames.one
    have hplace := hnames.place
    have hask := hnames.extent
    rw [hextent] at hwithin hask
    rw [hinstant] at hplace
    rw [hasked.1] at hask
    rw [hends] at hstop
    have hget : w.start.getD f.initialTimestamp = start := by
      rcases hnames.start with hs | ⟨hs, hi⟩
      · rw [hs]
        rfl
      · rw [hi] at hplace
        rw [hs]
        exact Option.some.inj ((Period.addTo_zero ht).symm.trans hplace)
    have hlt : i < f.count := by omega
    exact (hm.resolveForecast_ok hget).mpr ⟨hasked.2.symm.trans hnames.misplaced, i,
      (TimeSeriesData.placeOf_iff hg hlt).mpr hplace, hlt, n,
      ReadWindow.extent_ok.mpr ⟨hask, hone, by omega⟩, stop, hstop, hr⟩

/-! ### Windows of rows -/

section

set_option linter.unusedSectionVars false

variable {H B : Type} [DecidableEq H] [Sha256 H] [FloatText] [ToString H] [ArrayBackend H B]
  [LawfulArrayBackend H B]

/-- A row holds a series: one that was written, or the windows of a view that can be read whole. -/
inductive ArrayStore.HoldsSeries (s : ArrayStore H B) (m : TimeSeriesMetadata H) : TimeSeriesData → Prop
  | written {d : TimeSeriesData} : s.Stores m d → s.HoldsSeries m d
  | derived {c : ForecastColumns} {h k : ℕ} {a : TypedArray} {d : TimeSeriesData} :
      s.HoldsView m c h k a → c.initial.IsMillis → materializeTimeSeries s m none = .ok d →
      s.HoldsSeries m d

/-- A range of a row reads the `n` rows or windows of its series from place `i` on, exactly where these
can be described by a grid that starts at `start`; for a forecast, if each of its windows has an
instant. -/
structure ArrayStore.ReadsRun (s : ArrayStore H B) (m : TimeSeriesMetadata H) (d : TimeSeriesData)
    (range : TimeRange) (i n : ℕ) (start : DateTime) : Prop where
  only (d' : TimeSeriesData) : materializeTimeSeries s m (some range) = .ok d' →
    d.Reanchored i n start ∧ d' = d.cut i n start
  reads : d.Reanchored i n start →
    (d.forecast.isSome = true → ∀ k < d.extent, (d.instant k).isSome = true) →
    materializeTimeSeries s m (some range) = .ok (d.cut i n start)

/-- What names the row in a refusal answers nothing more. -/
theorem ReadWindow.named_iff {m : TimeSeriesMetadata H} {range : Result TimeRange}
    {r : Option TimeRange} :
    (match range with
      | .ok r => .ok (some r)
      | .error e => .error (contextualize m e) : Result (Option TimeRange)) = .ok r ↔
      ∃ r', range = .ok r' ∧ r = some r' := by
  cases range with
  | error e =>
    constructor
    · intro h
      cases h
    · rintro ⟨r', h, -⟩
      cases h
  | ok r₀ =>
    constructor
    · intro h
      cases h
      exact ⟨r₀, rfl, rfl⟩
    · rintro ⟨r', h, rfl⟩
      cases h
      rfl

namespace ArrayStore.HoldsSeries

variable [LawfulReads H B] {s : ArrayStore H B} {m : TimeSeriesMetadata H} {d d' : TimeSeriesData}
  {w : ReadWindow} {start stop : DateTime} {i n : ℕ}

theorem full (h : s.HoldsSeries m d) : materializeTimeSeries s m none = .ok d := by
  cases h with
  | written hs => exact hs.materialize_full
  | derived hv hms hfull => exact hfull

/-- The whole of a view is a forecast of its windows. -/
theorem view_eq {c : ForecastColumns} {hh k : ℕ} {a : TypedArray} (h : s.HoldsView m c hh k a)
    (hfull : materializeTimeSeries s m none = .ok d) : ∃ sc : Deterministic, d = .deterministic sc ∧
      sc.validate = .ok () ∧ sc.timeReference = m.timeReference ∧
      ArrayStore.Stores.columnsOf sc.toForecastFields = c := by
  obtain ⟨-, hval, rfl⟩ := h.full_eq hfull
  refine ⟨_, rfl, ?_, rfl, rfl⟩
  obtain ⟨hp, h', hcomp, hshape⟩ := Deterministic.validate_ok.mp hval
  exact Deterministic.validate_ok.mpr ⟨hp, h', hcomp, hshape⟩

theorem timeReference (h : s.HoldsSeries m d) : m.timeReference = d.fields.timeReference := by
  cases h with
  | written hs => exact hs.timeReference
  | derived hv hms hfull =>
    obtain ⟨sc, rfl, -, href, -⟩ := view_eq hv hfull
    exact href.symm

/-- The windows of a forecast held: its columns, the grid they start on, and what is read of them. -/
theorem windows {f : ForecastFields} (h : s.HoldsSeries m d) (hf : d.forecast = some f) :
    m.WindowsOf f ∧ WindowGrid f.initialTimestamp f.interval f.count ∧
      s.HoldsForecast m (ArrayStore.Stores.columnsOf f) := by
  cases h with
  | written hs => exact ⟨hs.row.windowsOf hf, hs.accepted.windowGrid hf, .dense hs hf⟩
  | derived hv hms hfull =>
    obtain ⟨sc, rfl, hval, -, hcols⟩ := view_eq hv hfull
    cases hf
    obtain ⟨h1, -, -, h2, h3⟩ := forecastColumns_ok hv.columns
    rw [← hcols] at h1 h2 h3 hms hv
    obtain ⟨hp, -⟩ := Deterministic.validate_ok.mp hval
    exact ⟨⟨h1, h2, h3⟩, ⟨hms, (validateForecastPeriods_ok hp).2.2⟩, .view hv⟩

/-- **Resolution.**  A window of a row resolves exactly where it names a run of the row's series whose
end is representable. -/
theorem resolve_iff (h : s.HoldsSeries m d) (hw : w.isFull = false) {r : Option TimeRange} :
    w.resolve m = .ok r ↔ ∃ r', (∃ i n start stop, w.Names d i n start ∧
      d.endOf i n start = some stop ∧ r' = w.range m start stop) ∧ r = some r' := by
  have hwindows : ∀ {f : ForecastFields}, d.forecast = some f → ∀ r, w.resolveForecast m = .ok r ↔ _ :=
    fun hf r => (h.windows hf).1.resolveForecast_iff (h.windows hf).2.1 hf
  unfold ReadWindow.resolve
  rw [hw, if_neg Bool.false_ne_true]
  refine ReadWindow.named_iff.trans (exists_congr fun r' => and_congr ?_ Iff.rfl)
  cases h with
  | written hs =>
    rw [hs.row.kind]
    cases d with
    | single ss => exact hs.resolveSingle_iff
    | nonSequential ns => exact hs.resolveNonSequential_iff hs.accepted.onInstants_nonSequential
    | persistent ps => exact hs.resolveNonSequential_iff hs.accepted.onInstants_persistent
    | deterministic sc => exact hwindows rfl r'
    | probabilistic sc => exact hwindows rfl r'
    | scenarios sc => exact hwindows rfl r'
  | derived hv hms hfull =>
    rw [hv.kind]
    obtain ⟨sc, rfl, -⟩ := view_eq hv hfull
    exact hwindows rfl r'

/-- A range that is answered is spelled as the series is. -/
theorem spelled_of_ok {r : TimeRange} (h : materializeTimeSeries s m (some r) = .ok d') :
    r.SpelledFor m.timeReference := by
  unfold materializeTimeSeries materializeArray at h
  cases hb : checkedBounds m (some r) with
  | error e =>
    rw [hb] at h
    cases h
  | ok b => exact (checkedBounds_ok hb).1

/-- The range a window of a forecast resolves to is read as the windows it names. -/
theorem forecast_run {f : ForecastFields} (h : s.HoldsSeries m d) (hf : d.forecast = some f)
    (hn : w.Names d i n start) (hend : d.endOf i n start = some stop)
    (hr : w.SpelledFor m.timeReference) : s.ReadsRun m d (w.range m start stop) i n start := by
  obtain ⟨-, hg, hheld⟩ := h.windows hf
  obtain ⟨hextent, hinstant, hends, hcut⟩ := TimeSeriesData.forecast_eqs hf
  have hplace := hn.place
  have hwithin := hn.within
  rw [hinstant] at hplace
  rw [hextent] at hwithin
  rw [hends] at hend
  have hanchor : d.Reanchored i n start ↔ Reanchors f.interval f.initialTimestamp i n := by
    unfold TimeSeriesData.Reanchored Reanchors
    simp only [hcut, hinstant, hplace, Option.some.injEq, forall_eq']
  have hread : materializeTimeSeries s m (some (w.range m start stop)) =
      (resolveWindows f.initialTimestamp f.interval f.count (some (start, stop)) m.name).map
        fun w => d.cut w.1 (w.2.1 - w.1) w.2.2 :=
    hheld.materialize_range h.full (ReadWindow.spelledFor_range.mpr hr)
  have hrun : ∀ {w0 w1 first}, resolveWindows f.initialTimestamp f.interval f.count
      (some (start, stop)) m.name = .ok (w0, w1, first) → _ :=
    resolveWindows_run hg hplace hn.one hwithin hend
  constructor
  · intro d' hd'
    rw [hread] at hd'
    cases hw : resolveWindows f.initialTimestamp f.interval f.count (some (start, stop)) m.name with
    | error e =>
      rw [hw] at hd'
      cases hd'
    | ok p =>
      obtain ⟨w0, w1, first⟩ := p
      obtain ⟨rfl, rfl, rfl, hre⟩ := hrun hw
      rw [hw] at hd'
      cases hd'
      refine ⟨hanchor.mpr hre, ?_⟩
      show d.cut w0 (w0 + n - w0) first = _
      rw [Nat.add_sub_cancel_left]
  · intro hre hrep
    obtain ⟨hlt, hmem⟩ := startsIn_run hg hplace hn.one hwithin hend
    have hall : ∀ k < f.count, ∃ t, f.interval.addTo f.initialTimestamp (k : ℕ) = some t := by
      intro k hk
      rw [← hinstant]
      exact Option.isSome_iff_exists.mp (hrep (by rw [hf]; rfl) k (hextent ▸ hk))
    have hone := hn.one
    have hresolves : ∃ p, resolveWindows f.initialTimestamp f.interval f.count (some (start, stop))
        m.name = .ok p := by
      apply (resolveWindows_iff hg (by omega) hall hlt.le).mpr
      refine ⟨Or.inr ⟨i, by omega, hplace⟩, ?_⟩
      intro i' n' hrun'
      have hi := (hrun' i).mpr ((hmem i).mp (by omega))
      have hlast := (hrun' (i + n - 1)).mpr ((hmem (i + n - 1)).mp (by omega))
      have hi' := (hmem i').mpr ((hrun' i').mp (by omega))
      have hlast' := (hmem (i' + n' - 1)).mpr ((hrun' (i' + n' - 1)).mp (by omega))
      obtain rfl : i' = i := by omega
      obtain rfl : n' = n := by omega
      exact hanchor.mp hre
    obtain ⟨⟨w0, w1, first⟩, hw⟩ := hresolves
    obtain ⟨rfl, rfl, rfl, -⟩ := hrun hw
    rw [hread, hw]
    show Except.ok (d.cut w0 (w0 + n - w0) first) = _
    rw [Nat.add_sub_cancel_left]

/-- The range a window resolves to is read as the run the window names. -/
theorem read_run (h : s.HoldsSeries m d) (hn : w.Names d i n start)
    (hend : d.endOf i n start = some stop) (hr : w.SpelledFor m.timeReference) :
    s.ReadsRun m d (w.range m start stop) i n start := by
  have hforecast : ∀ {f : ForecastFields}, d.forecast = some f → _ :=
    fun hf => h.forecast_run hf hn hend hr
  cases h with
  | written hs =>
    cases d with
    | single ss =>
      have hread := hs.materialize_single_run hn hend hr
      exact ⟨fun d' => (hread d').mp, fun hre _ => (hread _).mpr ⟨hre, rfl⟩⟩
    | nonSequential ns =>
      have hread := hs.materialize_nonSequential_run hn hend hr
      refine ⟨fun d' hd' => ⟨fun j hj => ?_, ?_⟩, fun _ _ => hread⟩
      · show ((ns.timestamps.drop i).take n)[j]? = ns.timestamps[i + j]?
        rw [getElem?_selected, if_pos hj]
      · rw [hread] at hd'
        exact (Except.ok.inj hd').symm
    | persistent ps =>
      have hread := hs.materialize_persistent_run hn hend hr
      refine ⟨fun d' hd' => ⟨fun j hj => ?_, ?_⟩, fun _ _ => hread⟩
      · show ((ps.timestamps.drop i).take n)[j]? = ps.timestamps[i + j]?
        rw [getElem?_selected, if_pos hj]
      · rw [hread] at hd'
        exact (Except.ok.inj hd').symm
    | deterministic sc => exact hforecast rfl
    | probabilistic sc => exact hforecast rfl
    | scenarios sc => exact hforecast rfl
  | derived hv hms hfull =>
    obtain ⟨sc, rfl, -⟩ := view_eq hv hfull
    exact hforecast rfl

/-- **Windows are exact.**  What a window that names part of a series reads is exactly the run it names,
each row with its values and its instant; and wherever it names a run whose end is representable and
which a grid of its own describes, it is read, if every window of a forecast has an instant. -/
theorem readWindow_exact (h : s.HoldsSeries m d) (hw : w.isFull = false) :
    (∀ d', readWindow s m w = .ok d' → w.SpelledFor d.fields.timeReference ∧
      ∃ i n start, w.Names d i n start ∧ (d.endOf i n start).isSome = true ∧
        d' = d.cut i n start ∧ d.IsPart i n d') ∧
    ∀ i n start, w.SpelledFor d.fields.timeReference → w.Names d i n start →
      (d.endOf i n start).isSome = true → d.Reanchored i n start →
      (d.forecast.isSome = true → ∀ k < d.extent, (d.instant k).isSome = true) →
      readWindow s m w = .ok (d.cut i n start) := by
  rw [← h.timeReference]
  unfold readWindow
  constructor
  · intro d' hd'
    obtain ⟨r, hr, hd'⟩ := except_bind_eq_ok.mp hd'
    obtain ⟨r', ⟨i, n, start, stop, hn, hend, rfl⟩, rfl⟩ := (h.resolve_iff hw).mp hr
    have hspelled := ReadWindow.spelledFor_range.mp (spelled_of_ok hd')
    obtain ⟨hre, rfl⟩ := (h.read_run hn hend hspelled).only d' hd'
    exact ⟨hspelled, i, n, start, hn, by rw [hend]; rfl, rfl, hn.within, ⟨start, rfl⟩, hre⟩
  · intro i n start hspelled hn hend hre hrep
    obtain ⟨stop, hstop⟩ := Option.isSome_iff_exists.mp hend
    exact except_bind_eq_ok.mpr ⟨_,
      (h.resolve_iff hw).mpr ⟨_, ⟨i, n, start, stop, hn, hstop, rfl⟩, rfl⟩,
      (h.read_run hn hstop hspelled).reads hre hrep⟩

end ArrayStore.HoldsSeries

namespace Store

/-- Every row of a run's store holds the series its whole read answers. -/
theorem rows_hold [LawfulReads H B] {U : Set Features} {T : Set (List DateTime)}
    {A : Set TypedArray} (hU : Set.InjOn (featuresHash (H := H)) U) (hempty : Features.empty ∈ U)
    (hs : ∀ f ∈ U, f.Storable) (hT : Set.InjOn (timestampsHash (H := H)) T)
    (hmillis : ∀ ts ∈ T, ∀ t ∈ ts, t.IsMillis) (hA : Set.InjOn (arrayHash (H := H)) A)
    {s : Store H B} (h : s.ReachableBy (SourcedTurn U T A)) {r : AssociationRow H}
    (hr : r ∈ s.db.rows) : ∃ m, s.ReadsAs r m ∧ ∀ full,
      ((readById r.id none .full).exec (s.arm [])).1 = .ok full → s.arrays.HoldsSeries m full := by
  have hrestoring := (h.mono fun _ _ h => h.restorable).restoring hU hempty hs
  have hrow := h.sourced hU hempty hs hT hmillis _ List.mem_cons_self r hr
  have hi := h.reachable.inv
  obtain ⟨m, hread⟩ := hrestoring.readsRow hU hempty hs hr
  refine ⟨m, hread, fun full hfull => ?_⟩
  rw [readById_full hread] at hfull
  cases hread.sourced hU hempty hs hT hmillis hrestoring hrow with
  | written d row accepted shape data =>
    have hstores : s.arrays.Stores m d :=
      ⟨hi.valid, row, accepted, content_of_hash hA hi h.arrays_given hread data row.hash⟩
    rw [hstores.materialize_full] at hfull
    cases hfull
    exact .written hstores
  | derived ss horizon plan hh k view data =>
    have hheld := content_of_hash hA hi h.arrays_given hread data view.hash
    exact .derived (view.holdsView hi.valid hheld) view.source.single.1 hfull

/-- **Windows are read exactly.**  In a run on arrays and time axes whose hashes do not collide, on sets
the catalog can give back, whose records are spelt without loss, for every row that can be read whole
and every window that names a start or an extent: what the window reads is exactly the run of rows or
windows it names, with their values and their instants, from the instant it starts at on and no more or
fewer than it asks; and it is read wherever its start is a stored instant, spelled as the series is, its
extent lies between one and what is left, its end is representable, and the calendar lets the run be described
on its own, if each window of a forecast has an instant. -/
theorem window_reads_exact [LawfulReads H B] {U : Set Features} {T : Set (List DateTime)}
    {A : Set TypedArray} (hU : Set.InjOn (featuresHash (H := H)) U) (hempty : Features.empty ∈ U)
    (hs : ∀ f ∈ U, f.Storable) (hT : Set.InjOn (timestampsHash (H := H)) T)
    (hmillis : ∀ ts ∈ T, ∀ t ∈ ts, t.IsMillis) (hA : Set.InjOn (arrayHash (H := H)) A)
    {s : Store H B} (h : s.ReachableBy (SourcedTurn U T A)) {r : AssociationRow H}
    (hr : r ∈ s.db.rows) {full : TimeSeriesData}
    (hfull : ((readById r.id none .full).exec (s.arm [])).1 = .ok full) {w : ReadWindow}
    (hw : w.isFull = false) :
    (∀ d', ((readById r.id none w).exec (s.arm [])).1 = .ok d' →
      w.SpelledFor full.fields.timeReference ∧ ∃ i n start, w.Names full i n start ∧
        (full.endOf i n start).isSome = true ∧ d' = full.cut i n start ∧ full.IsPart i n d') ∧
    ∀ i n start, w.SpelledFor full.fields.timeReference → w.Names full i n start →
      (full.endOf i n start).isSome = true → full.Reanchored i n start →
      (full.forecast.isSome = true → ∀ k < full.extent, (full.instant k).isSome = true) →
      ((readById r.id none w).exec (s.arm [])).1 = .ok (full.cut i n start) := by
  obtain ⟨m, hread, hholds⟩ := rows_hold hU hempty hs hT hmillis hA h hr
  rw [readById_eq hread.getById]
  exact (hholds full hfull).readWindow_exact hw

end Store

end

namespace Store.Sample

/-- The first step and the first window of what the rows hold. -/
def firstStep : ReadWindow := ⟨none, false, some 1, none⟩

def firstWindow : ReadWindow := ⟨none, false, none, some 1⟩

/-- Which reads of a row are answered: whole, of a step, of a window. -/
def answered (r : AssociationRow Digest) : List Bool :=
  [.full, firstStep, firstWindow].map fun w => ((readById r.id none w).exec (viewed.arm [])).1.isOk

theorem viewed_answered :
    viewed.db.rows.map answered = [[true, true, false], [true, false, true]] := by decide +kernel

/-- The first step of the series and the first window of its view are read on their own. -/
theorem window_reads_exact_viewed :
    viewed.db.rows.map answered = [[true, true, false], [true, false, true]] ∧
      ∀ r ∈ viewed.db.rows, ∃ full, ((readById r.id none .full).exec (viewed.arm [])).1 = .ok full ∧
        ∀ w ∈ [firstStep, firstWindow], ∀ d,
          ((readById r.id none w).exec (viewed.arm [])).1 = .ok d → full.IsPart 0 1 d := by
  refine ⟨viewed_answered, fun r hr => ?_⟩
  have hok : (answered r).head? = some true := by
    have hmem := List.mem_map_of_mem (f := answered) hr
    rw [viewed_answered] at hmem
    simp only [List.mem_cons, List.not_mem_nil, or_false] at hmem
    rcases hmem with h | h
    · rw [h]
      rfl
    · rw [h]
      rfl
  cases hfull : ((readById r.id none .full).exec (viewed.arm [])).1 with
  | error e =>
    have : some ((readById r.id none .full).exec (viewed.arm [])).1.isOk = some true := hok
    rw [hfull] at this
    cases this
  | ok full =>
    refine ⟨full, rfl, fun w hmem d hd => ?_⟩
    have hw : w.isFull = false ∧ w.start = none := by
      simp only [List.mem_cons, List.not_mem_nil, or_false] at hmem
      rcases hmem with rfl | rfl
      · exact ⟨rfl, rfl⟩
      · exact ⟨rfl, rfl⟩
    obtain ⟨-, i, n, start, hnames, -, -, hpart⟩ := (window_reads_exact tags_injOn (Or.inl rfl)
      tags_storable (fun _ h => (Set.notMem_empty _ h).elim)
      (fun _ h => (Set.notMem_empty _ h).elim) (Set.injOn_singleton _ _) viewed_reachable hr hfull
      hw.1).1 d hd
    obtain ⟨-, rfl⟩ : w.start = none ∧ i = 0 := by
      rcases hnames.start with h | h
      · rw [hw.2] at h
        cases h
      · exact h
    obtain rfl : n = 1 := by
      have hextent := hnames.extent
      have hmisplaced := hnames.misplaced
      unfold ReadWindow.asked at hextent
      unfold ReadWindow.misplaced at hmisplaced
      simp only [List.mem_cons, List.not_mem_nil, or_false] at hmem
      cases hf : full.forecast.isSome with
      | true =>
        rw [hf, if_pos rfl] at hextent hmisplaced
        rcases hmem with rfl | rfl
        · cases hmisplaced
        · exact hextent.symm
      | false =>
        rw [hf, if_neg Bool.false_ne_true] at hextent hmisplaced
        rcases hmem with rfl | rfl
        · exact hextent.symm
        · cases hmisplaced
    exact hpart

end Store.Sample

end InfraStore
