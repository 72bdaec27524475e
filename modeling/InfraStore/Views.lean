import InfraStore.DerivedReads
import InfraStore.RowRoundTrip

/-!
# The views of a series

A transform files, for each series in scope, the view of its windows that the plan of its resolution
gives.

* `GridPlan.Windows`: the parameters of a plan cut a grid into as many windows as fit;
* `TimeSeriesMetadata.ViewOf`: a record is the view of a series under such parameters;
* `deriveGrid_windows`, `staticGrids_unique`: what a plan derives, and from which grid;
* `ViewOf.holdsView`, `ViewOf.reads`: a view of a series that is held can be read whole, unless its
  windows stack to a size that cannot be counted.
-/

namespace InfraStore

open Lib

/-! ### Windows of a grid -/

theorem Period.isPositive_of_pos {p : Period} (h : p.wholeMillis = p)
    (hp : match p with | .fixed d => 0 < d.numMilliseconds | .months m => 0 < m.1) :
    p.isPositive = true := by
  cases p with
  | fixed d =>
    have hd : d.numMilliseconds * 1000000 = d.nanos := by
      injection h with hfixed
      exact congrArg Duration.nanos hfixed
    unfold isPositive
    rw [Bool.and_eq_true, decide_eq_true_iff, decide_eq_true_iff, ← hd]
    exact ⟨hp, Int.mul_emod_left _ _⟩
  | months m => exact decide_eq_true hp

/-- What divides a period by another: the other is positive, and so is the quotient. -/
theorem Period.divideInto_ok {p other : Period} {n : ℕ} (h : p.divideInto other = .ok n) :
    0 < n ∧ (other.wholeMillis = other → other.isPositive = true) := by
  cases p with
  | fixed den =>
    cases other with
    | months num => cases h
    | fixed num =>
      unfold divideInto at h
      dsimp only at h
      split at h
      · cases h
      · split at h
        · cases h
        · rename_i hden hnum
          cases h
          rw [not_or, not_le, not_not] at hnum
          rw [not_le] at hden
          refine ⟨?_, fun hw => isPositive_of_pos hw hnum.1⟩
          have := Int.ediv_pos_of_pos_of_dvd hnum.1 hden.le (Int.dvd_of_emod_eq_zero hnum.2)
          omega
  | months den =>
    cases other with
    | fixed num => cases h
    | months num =>
      unfold divideInto at h
      dsimp only at h
      split at h
      · cases h
      · split at h
        · cases h
        · rename_i hden hnum
          cases h
          rw [not_or, not_le, not_not] at hnum
          rw [not_le] at hden
          refine ⟨?_, fun hw => isPositive_of_pos hw hnum.1⟩
          have := Int.ediv_pos_of_pos_of_dvd hnum.1 hden.le (Int.dvd_of_emod_eq_zero hnum.2)
          omega

theorem computeH_ok {horizon resolution : Period} {h : ℕ} (hh : computeH horizon resolution = .ok h) :
    resolution.divideInto horizon = .ok h := by
  unfold computeH at hh
  split at hh
  · rename_i hok
    cases hh
    exact hok
  · cases hh

/-- The parameters of a plan on a grid: windows of `h` steps each and `k` steps apart, as many as fit,
each on the instants of the grid. -/
structure GridPlan.Windows (plan : GridPlan) (grid : StaticConsistency) (horizon : Period) (h k : ℕ) :
    Prop where
  divides : computeH horizon grid.resolution = .ok h
  steps : intervalStepsOf
    ⟨grid.initialTimestamp, grid.resolution, horizon, plan.interval, plan.count⟩ = .ok k
  positive : 1 ≤ plan.count
  fits : (plan.count - 1) * k + h ≤ grid.length
  most : plan.interval.isZero = false → grid.length < plan.count * k + h
  whole : plan.interval.isZero = true → plan.count = 1 ∧ h = grid.length
  anchored : ∀ w < plan.count,
    grid.resolution.subGridIsAnchorable grid.initialTimestamp (w * k) h = true

theorem Period.subGridIsAnchorable_zero (p : Period) (initial : DateTime) (len : ℕ) :
    p.subGridIsAnchorable initial 0 len = true := by
  cases p with
  | fixed d => rfl
  | months m =>
    unfold subGridIsAnchorable
    exact if_pos (Or.inl rfl)

/-- The windows that a check passed are on the instants of their grid. -/
theorem TransformPlan.checkAnchorable_ok {grid : StaticConsistency} {h count steps : ℕ}
    (hc : checkAnchorable grid h count steps = .ok ()) :
    ∀ w < count, grid.resolution.subGridIsAnchorable grid.initialTimestamp (w * steps) h = true := by
  intro w hw
  unfold checkAnchorable at hc
  split at hc
  · rename_i hregular
    cases hres : grid.resolution with
    | fixed d => rfl
    | months m =>
      rw [hres] at hregular
      cases hregular
  · split at hc
    · rename_i hnone
      have := List.find?_eq_none.mp hnone w (List.mem_range.mpr hw)
      simpa using this
    · cases hc

/-- **What a plan derives** for a grid is the parameters of as many windows as fit. -/
theorem TransformPlan.deriveGrid_windows {grid : StaticConsistency} {horizon requested : Period}
    {policy : TransformPolicy} {plan : GridPlan} {normalized : Bool}
    (h : deriveGrid grid horizon requested policy = .ok (plan, normalized)) :
    ∃ steps k, plan.Windows grid horizon steps k := by
  obtain ⟨steps, window, hsteps, hfits, -, hwindows, hanchor⟩ := deriveGrid_ok h
  have hanchored := checkAnchorable_ok hanchor
  unfold windows at hwindows
  cases hzero : plan.interval.isZero with
  | true =>
    rw [hzero, if_pos rfl] at hwindows
    split at hwindows
    · cases hwindows
    · rename_i hwhole
      have hone : plan.count = 1 := (congrArg Prod.fst (Except.ok.inj hwindows)).symm
      refine ⟨steps, 0, hsteps, if_pos ⟨hone, hzero⟩, hone.ge, ?_, fun hno => ?_,
        fun _ => ⟨hone, not_not.mp hwhole⟩, fun w _ => ?_⟩
      · rw [Nat.mul_zero, Nat.zero_add]
        exact hfits
      · rw [hzero] at hno
        cases hno
      · rw [Nat.mul_zero]
        exact Period.subGridIsAnchorable_zero _ _ _
  | false =>
    rw [hzero, if_neg Bool.false_ne_true] at hwindows
    split at hwindows
    · cases hwindows
    · rename_i k hk
      have hpos := (Period.divideInto_ok hk).1
      have hcount : (grid.length - steps) / k + 1 = plan.count :=
        congrArg Prod.fst (Except.ok.inj hwindows)
      have hsame : k = window := congrArg Prod.snd (Except.ok.inj hwindows)
      subst hsame
      have hdiv := Nat.div_mul_le_self (grid.length - steps) k
      have hlt := Nat.lt_div_mul_add (a := grid.length - steps) hpos
      refine ⟨steps, k, hsteps, ?_, hcount ▸ Nat.succ_pos _, ?_, fun _ => ?_, fun hyes => ?_,
        hanchored⟩
      · unfold intervalStepsOf
        rw [if_neg (fun hboth => by rw [hzero] at hboth; cases hboth.2), hk]
        rfl
      · rw [← hcount, Nat.add_sub_cancel]
        omega
      · rw [← hcount, Nat.add_mul, Nat.one_mul]
        omega
      · rw [hzero] at hyes
        cases hyes

/-! ### The grid of a resolution -/

/-- No two neighbours of the grids a transform works from are of one resolution. -/
theorem Catalog.uniqueGrids_chain {grids : List StaticConsistency} (h : uniqueGrids grids = .ok ()) :
    grids.IsChain fun a b => a.resolution ≠ b.resolution := by
  induction grids with
  | nil => exact .nil
  | cons a grids ih =>
    cases grids with
    | nil => exact .singleton a
    | cons b grids =>
      unfold uniqueGrids at h
      split at h
      · cases h
      · rename_i hne
        exact List.isChain_cons_cons.mpr ⟨hne, ih h⟩

section

set_option linter.unusedSectionVars false

variable {H : Type} [DecidableEq H] [Sha256 H] [FloatText]

/-- A row of the distinct grids, parsed. -/
theorem Catalog.parseGrid_ok {x : Option String × Option DateTime × Option ℕ} {g : StaticConsistency}
    (h : parseGrid x = .ok g) : (∃ text, x.1 = some text ∧ Period.fromIso8601 text = .ok g.resolution) ∧
      x.2.1 = some g.initialTimestamp ∧ x.2.2 = some g.length := by
  obtain ⟨text, initial, length⟩ := x
  unfold parseGrid at h
  simp only [except_bind_eq_ok] at h
  obtain ⟨text', htext, initial', hinitial, length', hlength, p, hp, h⟩ := h
  split at h
  · cases h
    cases text with
    | none => cases htext
    | some t =>
    cases initial with
    | none => cases hinitial
    | some i =>
    cases length with
    | none => cases hlength
    | some l =>
      cases htext
      cases hinitial
      cases hlength
      refine ⟨⟨text', rfl, ?_⟩, rfl, rfl⟩
      unfold isoToPeriod at hp
      split at hp
      · rename_i q hq
        cases hp
        exact hq
      · cases hp
      · cases hp
  · cases h

/-- **One grid a resolution.**  Where the rows' periods are printed ones, the grid that a transform works
from at a resolution is that of every row in scope at it. -/
theorem Catalog.staticGrids_unique {db : Catalog H} {category : Option OwnerCategory}
    {resolution : Option Period} {grids : List StaticConsistency}
    (h : db.staticGrids resolution category = .ok grids) (hspelt : ∀ r ∈ db.rows, r.Spelt)
    {r : AssociationRow H} (hr : r ∈ db.rows) (hscope : singleInScope resolution category r = true)
    {p : Period} (hres : r.resolution = some p.toIso8601)
    {grid : StaticConsistency} (hgrid : grid ∈ grids) (hsame : grid.resolution = p) :
    r.initialTimestamp = some grid.initialTimestamp ∧ r.length = some grid.length := by
  unfold staticGrids distinctSingleGrids at h
  simp only at h
  generalize hkeys : (((db.rows.filter (singleInScope resolution category)).map fun r =>
    (r.resolution, r.initialTimestamp, r.length)).dedup.mergeSort fun a b =>
      decide (a.1.getD "" ≤ b.1.getD "")) = keys at h
  obtain ⟨grids', hm, h⟩ := except_bind_eq_ok.mp h
  obtain ⟨_, hunique, h⟩ := except_bind_eq_ok.mp h
  cases h
  have hmem : ∀ x, x ∈ keys ↔ ∃ r ∈ db.rows, singleInScope resolution category r = true ∧
      (r.resolution, r.initialTimestamp, r.length) = x := by
    intro x
    rw [← hkeys, List.mem_mergeSort, List.mem_dedup, List.mem_map]
    simp only [List.mem_filter, and_assoc]
  -- a key is spelt as its grid's resolution is printed
  have htext : ∀ x ∈ keys, ∀ g, parseGrid x = .ok g → x.1 = some g.resolution.toIso8601 := by
    intro x hx g hg
    obtain ⟨r', hr', -, rfl⟩ := (hmem x).mp hx
    obtain ⟨⟨text, htext, hparse⟩, -⟩ := parseGrid_ok hg
    obtain ⟨q, hq⟩ := (hspelt r' hr').resolution
    rw [show r'.resolution = some text from htext] at hq
    obtain ⟨q, rfl, rfl⟩ := Option.map_eq_some_iff.mp hq.symm
    rw [Period.fromIso8601_toIso8601] at hparse
    rw [← Except.ok.inj hparse, Period.toIso8601_wholeMillis]
    exact htext
  have hsorted : keys.Pairwise fun a b => a.1.getD "" ≤ b.1.getD "" := by
    rw [← hkeys]
    refine (List.pairwise_mergeSort (fun a b c hab hbc => ?_) (fun a b => ?_) _).imp fun hab =>
      of_decide_eq_true hab
    · exact decide_eq_true ((of_decide_eq_true hab).trans (of_decide_eq_true hbc))
    · rw [Bool.or_eq_true, decide_eq_true_iff, decide_eq_true_iff]
      exact le_total _ _
  have hall := mapM_eq_ok.mp hm
  have htexts : keys.map (fun x => x.1.getD "") = grids.map fun g => g.resolution.toIso8601 := by
    rw [← List.forall₂_eq_eq_eq, List.forall₂_map_left_iff, List.forall₂_map_right_iff]
    refine ((List.forall₂_and_left _ _).mpr ⟨fun x hx => hx, hall⟩).imp fun x g hxg => ?_
    rw [htext x hxg.1 g hxg.2]
    rfl
  -- the texts increase, and no two neighbours are the same
  have hstrict : (grids.map fun g => g.resolution.toIso8601).Pairwise (· < ·) := by
    have hle : (grids.map fun g => g.resolution.toIso8601).Pairwise (· ≤ ·) := by
      rw [← htexts]
      exact List.pairwise_map.mpr hsorted
    have hwhole : ∀ g ∈ grids, g.resolution.wholeMillis = g.resolution := by
      intro g hg
      obtain ⟨x, hx, hparse⟩ := mapM_origin hm hg
      obtain ⟨⟨text, hspell, hback⟩, -⟩ := parseGrid_ok hparse
      rw [htext x hx g hparse, Option.some.injEq] at hspell
      rw [← hspell, Period.fromIso8601_toIso8601] at hback
      exact Except.ok.inj hback
    have hne := List.isChain_iff_getElem.mp (uniqueGrids_chain hunique)
    rw [← List.isChain_iff_pairwise, List.isChain_iff_getElem]
    intro i hi
    rw [List.length_map] at hi
    rw [List.getElem_map, List.getElem_map]
    refine lt_of_le_of_ne ?_ fun htexts => hne i hi ?_
    · exact List.pairwise_iff_getElem.mp (List.pairwise_map.mp hle) i (i + 1) (by omega) hi (by omega)
    · have hback := congrArg Period.fromIso8601 htexts
      rw [Period.fromIso8601_toIso8601, Period.fromIso8601_toIso8601, Except.ok.injEq,
        hwhole _ (List.getElem_mem _), hwhole _ (List.getElem_mem _)] at hback
      exact hback
  have hinj := List.inj_on_of_nodup_map (hstrict.imp fun hlt => ne_of_lt hlt)
  obtain ⟨g, hg, hparse⟩ := mapM_covers hm ((hmem _).mpr ⟨r, hr, hscope, rfl⟩)
  obtain ⟨-, hinitial, hlength⟩ := parseGrid_ok hparse
  have heq : g = grid := by
    refine hinj hg hgrid ?_
    have hspell := htext _ ((hmem _).mpr ⟨r, hr, hscope, rfl⟩) g hparse
    rw [show (r.resolution, r.initialTimestamp, r.length).1 = some p.toIso8601 from hres,
      Option.some.injEq] at hspell
    rw [hsame, hspell]
  rw [← heq]
  exact ⟨hinitial, hlength⟩

/-! ### Views -/

/-- The grid of a series. -/
def SingleTimeSeries.grid (ss : SingleTimeSeries) : StaticConsistency :=
  ⟨ss.resolution, ss.initialTimestamp, ss.length⟩

/-- The windows of a series, stacked into a forecast. -/
def SingleTimeSeries.windowed (ss : SingleTimeSeries) (name : String) (horizon : Period)
    (plan : GridPlan) (h k : ℕ) : Deterministic :=
  { toSeriesFields := { ss.toSeriesFields with data := ss.data.stacked h k 0 plan.count, name }
    initialTimestamp := ss.initialTimestamp
    resolution := ss.resolution
    horizon
    interval := plan.interval
    count := plan.count }

/-- A record is the view of a series: its windows are `h` steps each and `k` steps apart. -/
structure TimeSeriesMetadata.ViewOf (m : TimeSeriesMetadata H) (ss : SingleTimeSeries)
    (horizon : Period) (plan : GridPlan) (h k : ℕ) : Prop where
  kind : m.timeSeriesType = .deterministicSingleTimeSeries
  source : (TimeSeriesData.single ss).Accepted
  hash : m.dataHash = arrayHash ss.data
  shape : m.elementShape = ss.data.elementShape
  columns : forecastColumns m "DeterministicSingleTimeSeries" =
    .ok ⟨ss.initialTimestamp, ss.resolution, horizon, plan.interval, plan.count⟩
  described (y : TypedArray) (e : ElementType) :
    m.describe (bareFields y m.name e) = { ss.toSeriesFields with data := y, name := m.name }
  windows : plan.Windows ss.grid horizon h k
  horizonWhole : horizon.wholeMillis = horizon
  intervalWhole : plan.interval.wholeMillis = plan.interval

namespace TimeSeriesMetadata.ViewOf

variable {m : TimeSeriesMetadata H} {ss : SingleTimeSeries} {horizon : Period} {plan : GridPlan}
  {h k : ℕ} (hv : m.ViewOf ss horizon plan h k)
include hv

theorem length_eq : ss.grid.length = ss.data.length := hv.source.single.2.1

/-- Its windows lie in the array. -/
theorem fits : (0 + plan.count - 1) * k + h ≤ ss.data.length := by
  rw [Nat.zero_add, ← hv.length_eq]
  exact hv.windows.fits

/-- The forecast of its windows passes the checks of one. -/
theorem validate : (ss.windowed m.name horizon plan h k).validate = .ok () := by
  have hres := hv.source.single.2.2
  have hhorizon := (Period.divideInto_ok (computeH_ok hv.windows.divides)).2 hv.horizonWhole
  have hinterval : (plan.interval.isPositive ||
      (decide (plan.count ≤ 1) && plan.interval.isZero)) = true := by
    rw [Bool.or_eq_true, Bool.and_eq_true, decide_eq_true_iff]
    cases hzero : plan.interval.isZero with
    | true => exact Or.inr ⟨(hv.windows.whole hzero).1.le, rfl⟩
    | false =>
      have hsteps := hv.windows.steps
      unfold intervalStepsOf at hsteps
      rw [if_neg (fun hboth => by rw [hzero] at hboth; cases hboth.2)] at hsteps
      exact Or.inl ((Period.divideInto_ok (mapErr_eq_ok.mp hsteps)).2 hv.intervalWhole)
  refine Deterministic.validate_ok.mpr ⟨?_, h, hv.windows.divides, rfl⟩
  show validateForecastPeriods (ss.windowed m.name horizon plan h k).toForecastFields = .ok ()
  unfold validateForecastPeriods SingleTimeSeries.windowed
  simp only
  rw [hres, hhorizon, hinterval]
  rfl

theorem renamed (owner : ℤ) (ownerType name : String) (id : Option ℤ) :
    TimeSeriesMetadata.ViewOf { m with ownerId := owner, ownerType, name, id } ss horizon plan h k :=
  { hv with
    described := fun y e => by
      have hy := hv.described y e
      have hname := congrArg (fun f : SeriesFields => { f with name }) hy
      exact hname }

variable {B : Type} [ToString H] [ArrayBackend H B] [LawfulArrayBackend H B] {s : ArrayStore H B}

/-- A view whose array is held. -/
theorem holdsView (hs : s.Valid) (hheld : s.content m.dataHash = some ss.data) :
    s.HoldsView m ⟨ss.initialTimestamp, ss.resolution, horizon, plan.interval, plan.count⟩ h k
      ss.data where
  valid := hs
  kind := hv.kind
  columns := hv.columns
  held := hheld
  dtype := by
    have helement := congrArg SeriesFields.elementType (hv.described ss.data (.scalar .u8))
    rw [show m.elementType = ss.elementType from helement]
    exact hv.source.dtype
  checked := hv.source.checked
  rank := hv.source.shape_ne_nil
  horizon := hv.windows.divides
  interval := hv.windows.steps
  within := by
    rw [← hv.length_eq]
    exact hv.windows.fits

/-- **A view reads whole** as the windows of its series stacked, and is refused where their bytes
cannot be counted. -/
theorem reads [LawfulReads H B] (hs : s.Valid) (hheld : s.content m.dataHash = some ss.data) :
    ((ss.data.stacked h k 0 plan.count).Checked → materializeTimeSeries s m none =
      .ok (.deterministic (ss.windowed m.name horizon plan h k))) ∧
    (¬ (ss.data.stacked h k 0 plan.count).Checked →
      ∃ e, materializeTimeSeries s m none = .error e) := by
  have hread : materializeTimeSeries s m none = buildView m
      ⟨ss.initialTimestamp, ss.resolution, horizon, plan.interval, plan.count⟩
      (ss.data.stacked h k 0 plan.count) ss.initialTimestamp plan.count := by
    rw [(hv.holdsView hs hheld).materialize_derived none]
    simp only [checkedBounds, resolveWindows_none, bind, Except.bind, Nat.sub_zero]
  rw [hread]
  refine ⟨fun hc => buildView_eq.mpr ⟨hc, hv.validate, ?_⟩, fun hc => ?_⟩
  · unfold viewOf SingleTimeSeries.windowed
    rw [hv.described]
  · cases hb : buildView m ⟨ss.initialTimestamp, ss.resolution, horizon, plan.interval, plan.count⟩
        (ss.data.stacked h k 0 plan.count) ss.initialTimestamp plan.count with
    | error e => exact ⟨e, rfl⟩
    | ok d => exact absurd (buildView_eq.mp hb).1 hc

end TimeSeriesMetadata.ViewOf

end

end InfraStore
