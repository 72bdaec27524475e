import InfraStore.Lineage
import InfraStore.PeriodText
import InfraStore.Plans
import InfraStore.Provenance
import InfraStore.ReadBack

/-!
# Rows come back as they were filed

A record is filed as a row of text and numbers, and a listing makes a record of the row again.

* `TimeSeriesMetadata.Restorable`: the records whose rows spell them without loss;
* `Restorable.parse`: what the row of such a record parses to;
* `buildRequestParts_restorable`, `derivedViews_restorable`: what adds and transforms file;
* `rows_round_trip`: over runs whose records are such, every listing succeeds, and holds each record as
  it was filed, under its id.
-/

namespace InfraStore

open Lib Connection

section

set_option linter.unusedSectionVars false

variable {H : Type} [DecidableEq H] [Sha256 H] [FloatText]

/-! ### Columns -/

theorem parseColumn_restores {α β : Type} {write : β → α} {parse : α → Result β} {a : Option β}
    (h : ∀ x, a = some x → parse (write x) = .ok x) :
    AssociationRow.parseColumn parse (a.map write) = .ok a := by
  cases a with
  | none => rfl
  | some x => exact congrArg (Except.map some) (h x rfl)

theorem parsePeriod_restores (column : ℕ) {p : Period} (h : p.wholeMillis = p) :
    AssociationRow.parsePeriod column p.toIso8601 = .ok p := by
  unfold AssociationRow.parsePeriod
  rw [Period.fromIso8601_toIso8601, h]

/-- A record that its row spells without loss: each column parses, and parses to what it was written
from; and it has a time axis, one of `T`, only if it is irregular. -/
structure TimeSeriesMetadata.Restorable (T : Set (List DateTime)) (m : TimeSeriesMetadata H) : Prop where
  timeReference : ∀ r, m.timeReference = some r → r.validate = .ok ()
  initialTimestamp : ∀ t, m.initialTimestamp = some t → 0 ≤ t.date.year ∧ t.date.year ≤ 9999
  percentiles : ∀ vs, m.percentiles = some vs → FloatText.fromJson (FloatText.toJson vs) = .ok vs
  elementType : m.elementType.Printable
  resolution : ∀ p, m.resolution = some p → p.wholeMillis = p
  horizon : ∀ p, m.horizon = some p → p.wholeMillis = p
  interval : ∀ p, m.interval = some p → p.wholeMillis = p
  axis : ∀ ts, m.timestamps = some ts → ts ∈ T ∧ m.timeSeriesType.isIrregular = true

/-- **Its row parses to the record**, but for what the listing adds. -/
theorem TimeSeriesMetadata.Restorable.parse {T : Set (List DateTime)} {m : TimeSeriesMetadata H}
    (h : m.Restorable T) (id : ℤ) : (m.toRow id).parse =
      .ok { m with features := Features.empty, timestamps := none, id := some id } := by
  have hunits : AssociationRow.parseColumn AssociationRow.parseUnitSystem
      (m.unitSystem.map UnitSystem.asStr) = .ok m.unitSystem :=
    parseColumn_restores fun x _ => by cases x <;> rfl
  have hreference : AssociationRow.parseColumn AssociationRow.parseTimeReference
      (m.timeReference.map TimeReference.asStorageString) = .ok m.timeReference :=
    parseColumn_restores fun x hx => by
      unfold AssociationRow.parseTimeReference
      rw [TimeReference.parse_asStorageString (h.timeReference x hx)]
  have hinitial : AssociationRow.parseColumn AssociationRow.parseInstant m.initialTimestamp =
      .ok m.initialTimestamp := by
    cases hx : m.initialTimestamp with
    | none => rfl
    | some t => exact congrArg (Except.map some) (if_pos (h.initialTimestamp t hx))
  have hlevels : AssociationRow.parseColumn AssociationRow.parsePercentiles
      (m.percentiles.map FloatText.toJson) = .ok m.percentiles :=
    parseColumn_restores fun vs hvs => by
      unfold AssociationRow.parsePercentiles
      rw [h.percentiles vs hvs]
      rfl
  have helement : AssociationRow.parseElementType m.elementType.display = .ok m.elementType := by
    unfold AssociationRow.parseElementType
    rw [ElementType.parse_display h.elementType]
  have hresolution : AssociationRow.parseColumn (AssociationRow.parsePeriod 8)
      (m.resolution.map Period.toIso8601) = .ok m.resolution :=
    parseColumn_restores fun p hp => parsePeriod_restores 8 (h.resolution p hp)
  have hhorizon : AssociationRow.parseColumn (AssociationRow.parsePeriod 10)
      (m.horizon.map Period.toIso8601) = .ok m.horizon :=
    parseColumn_restores fun p hp => parsePeriod_restores 10 (h.horizon p hp)
  have hinterval : AssociationRow.parseColumn (AssociationRow.parsePeriod 11)
      (m.interval.map Period.toIso8601) = .ok m.interval :=
    parseColumn_restores fun p hp => parsePeriod_restores 11 (h.interval p hp)
  unfold AssociationRow.parse
  simp only [TimeSeriesMetadata.toRow, hunits, hreference, hinitial, hlevels, helement, hresolution,
    hhorizon, hinterval]
  rfl

/-- A row that spells some record without loss. -/
def AssociationRow.Restored (T : Set (List DateTime)) (r : AssociationRow H) : Prop :=
  ∃ m id, r = TimeSeriesMetadata.toRow m id ∧ m.Restorable T

theorem AssociationRow.Restored.owner {T : Set (List DateTime)} {r : AssociationRow H}
    (h : r.Restored T) (owner : ℤ) : AssociationRow.Restored T { r with ownerId := owner } := by
  obtain ⟨m, id, rfl, hm⟩ := h
  exact ⟨{ m with ownerId := owner }, id, rfl, hm.timeReference, hm.initialTimestamp, hm.percentiles,
    hm.elementType, hm.resolution, hm.horizon, hm.interval, hm.axis⟩

theorem AssociationRow.Restored.readable {T : Set (List DateTime)} {r : AssociationRow H}
    (h : r.Restored T) : r.Readable := by
  obtain ⟨m, id, rfl, hm⟩ := h
  refine ⟨⟨_, hm.parse id⟩, fun hsome => ?_⟩
  have hpresent : (m.timestamps.map (InfraStore.timestampsHash (H := H))).isSome := hsome
  rw [Option.isSome_map] at hpresent
  obtain ⟨ts, hts⟩ := Option.isSome_iff_exists.mp hpresent
  exact (hm.axis ts hts).2

/-! ### Adds -/

/-- The periods of a series that a write accepts are whole milliseconds. -/
theorem fileSeries_periods {base : TimeSeriesMetadata H} {d : TimeSeriesData} {g : PackGroup H}
    {m : TimeSeriesMetadata H} (h : fileSeries base d = .ok (g, m)) (hd : validateData d = .ok ())
    (hbase : base.resolution = none ∧ base.horizon = none ∧ base.interval = none) {p : Period}
    (hp : m.resolution = some p ∨ m.horizon = some p ∨ m.interval = some p) : p.wholeMillis = p := by
  have hnone : ¬ (base.resolution = some p ∨ base.horizon = some p ∨ base.interval = some p) := by
    rw [hbase.1, hbase.2.1, hbase.2.2]
    simp
  have hforecast : ∀ f : ForecastFields, validateForecastPeriods f = .ok () →
      (some f.resolution = some p ∨ some f.horizon = some p ∨ some f.interval = some p) →
      p.wholeMillis = p := by
    intro f hf hp
    obtain ⟨hres, hhor, hint⟩ := validateForecastPeriods_ok hf
    rcases hp with hp | hp | hp <;> cases hp
    · exact Period.wholeMillis_of_isPositive hres
    · exact Period.wholeMillis_of_isPositive hhor
    · cases hint with
      | inl hpos => exact Period.wholeMillis_of_isPositive hpos
      | inr hzero => exact Period.wholeMillis_of_isZero hzero.2
  unfold validateData at hd
  obtain ⟨_, -, hd⟩ := except_bind_eq_ok.mp hd
  cases d with
  | single s =>
    cases h
    obtain ⟨_, -, hd⟩ := except_bind_eq_ok.mp hd
    split at hd
    · cases hd
    split at hd
    · cases hd
    · rename_i hpos
      rw [Bool.not_eq_true, Bool.not_eq_false'] at hpos
      rcases hp with hp | hp | hp
      · cases hp
        exact Period.wholeMillis_of_isPositive hpos
      · exact absurd (Or.inr (Or.inl hp)) hnone
      · exact absurd (Or.inr (Or.inr hp)) hnone
  | nonSequential s =>
    cases h
    exact absurd hp hnone
  | persistent s =>
    cases h
    exact absurd hp hnone
  | deterministic s =>
    obtain ⟨_, -, h⟩ := except_bind_eq_ok.mp h
    cases h
    obtain ⟨_, -, hd⟩ := except_bind_eq_ok.mp hd
    obtain ⟨_, hv, -⟩ := except_bind_eq_ok.mp (mapErr_eq_ok.mp hd)
    exact hforecast _ hv hp
  | probabilistic s =>
    obtain ⟨_, -, h⟩ := except_bind_eq_ok.mp h
    cases h
    obtain ⟨_, -, hd⟩ := except_bind_eq_ok.mp hd
    obtain ⟨_, hv, -⟩ := except_bind_eq_ok.mp (mapErr_eq_ok.mp hd)
    exact hforecast _ hv hp
  | scenarios s =>
    obtain ⟨_, -, h⟩ := except_bind_eq_ok.mp h
    cases h
    obtain ⟨_, -, hd⟩ := except_bind_eq_ok.mp hd
    obtain ⟨_, hv, -⟩ := except_bind_eq_ok.mp (mapErr_eq_ok.mp hd)
    exact hforecast _ hv hp

/-- A request whose finite percentiles have an exact text, and whose axis is one of `T`. -/
structure AddRequest.Restorable (T : Set (List DateTime)) (i : AddRequest) : Prop where
  sized : i.data.fields.elementType.Sized
  percentiles : ∀ vs, i.data.levels = some vs → (∀ v ∈ vs, v.isFinite = true) →
    FloatText.fromJson (FloatText.toJson vs) = .ok vs
  axis : ∀ ts, i.data.axis = some ts → (∀ t ∈ ts, t.IsMillis) → ts ∈ T

/-- **An accepted request** files a record that its row spells without loss. -/
theorem buildRequestParts_restorable {T : Set (List DateTime)} {item : AddRequest} {p : RequestParts H}
    (h : buildRequestParts item = .ok p) (hi : item.Restorable T) : p.metadata.Restorable T := by
  obtain ⟨hlegible, hirregular⟩ := buildRequestParts_legible h hi.sized
  obtain ⟨-, -, -, hd, hf, -⟩ := buildRequestParts_ok h
  obtain ⟨-, -, -, hlevels⟩ := fileSeries_columns hf rfl rfl
  have hperiods := fun q => fileSeries_periods (p := q) hf hd ⟨rfl, rfl, rfl⟩
  have haxis := fileSeries_axis_eq hf rfl
  refine ⟨hlegible.timeReference, hlegible.initialTimestamp, fun vs hvs => ?_, hlegible.elementType,
    fun q hq => hperiods q (Or.inl hq), fun q hq => hperiods q (Or.inr (Or.inl hq)),
    fun q hq => hperiods q (Or.inr (Or.inr hq)), fun ts hts => ⟨?_, ?_⟩⟩
  · exact hi.percentiles vs (hlevels.symm.trans hvs) (hlegible.percentiles vs hvs)
  · exact hi.axis ts (haxis.symm.trans hts) (buildRequestParts_millis h hts)
  · exact hirregular (by rw [hts]; rfl)

end

/-- What a run needs for its rows to come back: requests and imported records are restorable, and the
periods of a transform are whole milliseconds. -/
def Op.Restorable {H : Type} [FloatText] (T : Set (List DateTime)) : Op H → Prop
  | .addRequests items => ∀ i ∈ items, i.Restorable T
  | .importAssociationRows rows => ∀ m ∈ rows, m.Restorable T
  | .transformSingleTimeSeries horizon interval _ _ _ =>
    horizon.wholeMillis = horizon ∧ interval.wholeMillis = interval
  | _ => True

namespace Store

section

set_option linter.unusedSectionVars false

variable {H B : Type} [DecidableEq H] [ArrayBackend H B] [Sha256 H] [FloatText] [ToString H]
  [LawfulArrayBackend H B]

/-! ### Axes -/

/-- A stored axis is one of `T`, under its own hash. -/
def AxisOf (T : Set (List DateTime)) (t : H) (ms : List ℤ) : Prop :=
  ∃ ts ∈ T, timestampsHash ts = t ∧ toMillis ts = ms

/-- The turns of a run, on sets of `U` and axes of `T`, whose rows come back. -/
def RestorableTurn (U : Set Features) (T : Set (List DateTime)) (s : Store H B) (t : Turn H) : Prop :=
  SetTurn U s t ∧ t.op.Restorable T

/-- Every axis a run stores is one of `T`. -/
theorem ReachableBy.axes {U : Set Features} {T : Set (List DateTime)} {s : Store H B}
    (h : s.ReachableBy (RestorableTurn U T)) : Admits (fun _ _ => True) (AxisOf T) s.arrays := by
  induction h with
  | @create b valid noArray noVector =>
    refine ⟨(inv_create (H := H) valid noArray noVector).valid, fun _ => trivial, fun {t ms} ht => ?_⟩
    rw [show (Store.create b : Store H B).arrays.vector t = none from noVector t] at ht
    cases ht
  | turn t hs ht ih =>
    refine turn_admits hs.reachable.inv ih t (fun _ _ => trivial) fun ts hts hmillis => ?_
    have hop := ht.2
    unfold Op.axes at hts
    split at hts
    · rename_i items hitems
      rw [hitems] at hop
      obtain ⟨item, hitem, haxis⟩ := List.mem_filterMap.mp hts
      exact ⟨ts, (hop item hitem).axis ts haxis hmillis, rfl, rfl⟩
    · exact (List.not_mem_nil hts).elim

/-- An axis of `T` that is held is read back as it was written. -/
theorem getTimestamps_axis {T : Set (List DateTime)} (hT : Set.InjOn (timestampsHash (H := H)) T)
    (hmillis : ∀ ts ∈ T, ∀ t ∈ ts, t.IsMillis) {s : Store H B} (hs : s.Sound)
    (haxes : Admits (fun _ _ => True) (AxisOf T) s.arrays) {ts : List DateTime} (hts : ts ∈ T)
    (hheld : (s.arrays.vector (timestampsHash ts)).isSome) :
    ArrayBackend.getTimestamps s.arrays.backend (timestampsHash (H := H) ts) = .ok ts := by
  obtain ⟨ms, hms⟩ := Option.isSome_iff_exists.mp hheld
  obtain ⟨ts', hts', hash, rfl⟩ := haxes.allowedAxis hms
  rw [hT hts' hts hash] at hms
  rw [LawfulArrayBackend.getTimestamps_eq hs.valid.backend,
    show LawfulArrayBackend.vector s.arrays.backend (timestampsHash ts) = some (toMillis ts) from hms]
  simp only [fromMillis_toMillis (hmillis ts hts)]
  rfl

/-! ### Rows -/

/-- A record read back from a row that spells another is that other one, but for what the listing
adds. -/
theorem ReadsAs.eq_restored {T : Set (List DateTime)} {s : Store H B} {m₀ src : TimeSeriesMetadata H}
    {id : ℤ} (h : s.ReadsAs (m₀.toRow id) src) (hm : m₀.Restorable T) :
    src = { m₀ with features := src.features, timestamps := src.timestamps, id := some id } := by
  have hparse := h.2.parse
  rw [hm.parse id] at hparse
  exact (congrArg (fun x : TimeSeriesMetadata H =>
    { x with features := src.features, timestamps := src.timestamps }) (Except.ok.inj hparse)).symm

theorem toRow_wholeMillis (m : TimeSeriesMetadata H) (horizon interval : Option Period) (id : ℤ) :
    { m with horizon, interval }.toRow id =
      { m with horizon := horizon.map Period.wholeMillis,
               interval := interval.map Period.wholeMillis }.toRow id := by
  have hspell : ∀ p : Option Period, (p.map Period.wholeMillis).map Period.toIso8601 =
      p.map Period.toIso8601 := fun p => by
    cases p with
    | none => rfl
    | some p => exact congrArg some (Period.toIso8601_wholeMillis p)
  unfold TimeSeriesMetadata.toRow
  simp only [hspell]

/-- What an operation files is filed as a row that spells some record without loss. -/
theorem Files.restored {T : Set (List DateTime)} {s : Store H B} (hs : s.Sound) {op : Op H}
    {m : TimeSeriesMetadata H} (h : s.Files op m) (hop : op.Restorable T)
    (hrows : ∀ r ∈ s.db.rows, r.Restored T) (id : ℤ) : (m.toRow id).Restored T := by
  cases op with
  | addRequests items =>
    obtain ⟨parts, hbuilt, hm⟩ := h
    obtain ⟨p, hp, rfl⟩ := List.mem_map.mp hm
    obtain ⟨item, hitem, hb⟩ := Staging.parts_origin hbuilt hp
    exact ⟨_, id, rfl, buildRequestParts_restorable hb (hop item (List.of_mem_zip hitem).1)⟩
  | copyTimeSeries src dst ty name =>
    obtain ⟨r, src, hsrc, rfl⟩ := h
    obtain ⟨m₀, id₀, rfl, hm₀⟩ := hrows r hsrc.1
    have haxis : src.timestamps.map timestampsHash = m₀.timestamps.map timestampsHash :=
      (hydrated_names hs hsrc.2).1
    have heq := hsrc.eq_restored hm₀
    generalize src.features = f, src.timestamps = ts at heq haxis
    subst heq
    refine ⟨{ copiedRow { m₀ with features := f, timestamps := ts, id := some id₀ } dst ty name with
        timestamps := m₀.timestamps }, id, ?_,
      hm₀.timeReference, hm₀.initialTimestamp, hm₀.percentiles, hm₀.elementType, hm₀.resolution,
      hm₀.horizon, hm₀.interval, hm₀.axis⟩
    unfold TimeSeriesMetadata.toRow copiedRow
    simp only [haxis]
  | importAssociationRows rows => exact ⟨m, id, rfl, hop m h⟩
  | transformSingleTimeSeries horizon interval category resolution policy =>
    obtain ⟨r, src, hsrc, hscope, horizon, interval, count, rfl⟩ := h
    obtain ⟨m₀, id₀, rfl, hm₀⟩ := hrows r hsrc.1
    -- the source is on a regular grid, and has no axis
    have hregular : m₀.timestamps = none := by
      unfold Catalog.singleInScope at hscope
      simp only [Bool.and_eq_true, decide_eq_true_eq] at hscope
      cases hts : m₀.timestamps with
      | none => rfl
      | some ts =>
        have hirregular := (hm₀.axis ts hts).2
        rw [show m₀.timeSeriesType = .singleTimeSeries from hscope.1.1] at hirregular
        cases hirregular
    have haxis : src.timestamps = none := by
      have hhash : src.timestamps.map timestampsHash = m₀.timestamps.map timestampsHash :=
        (hydrated_names hs hsrc.2).1
      rw [hregular] at hhash
      exact Option.map_eq_none_iff.mp hhash
    have heq := hsrc.eq_restored hm₀
    rw [haxis] at heq
    generalize src.features = f at heq
    subst heq
    refine ⟨_, id, toRow_wholeMillis { m₀ with
        features := f, timestamps := none, id := none,
        timeSeriesType := .deterministicSingleTimeSeries, count := some count }
      (some horizon) (some interval) id,
      hm₀.timeReference, hm₀.initialTimestamp, hm₀.percentiles, hm₀.elementType, hm₀.resolution,
      fun p hp => ?_, fun p hp => ?_, fun ts hts => by cases hts⟩
    · cases hp
      exact horizon.wholeMillis_idem
    · cases hp
      exact interval.wholeMillis_idem
  | _ => cases h

theorem ReachableBy.restored {U : Set Features} {T : Set (List DateTime)} {s : Store H B}
    (h : s.ReachableBy (RestorableTurn U T)) : ∀ r ∈ s.db.rows, r.Restored T :=
  h.rows (P := AssociationRow.Restored T) (fun _ owner hr => hr.owner owner)
    (fun _ _ _ id hs ht hrows hm => hm.restored (hs.inv.arm _).toSound ht.2 hrows id) s.db
    List.mem_cons_self

/-! ### Records -/

/-- What the stores of such a run keep. -/
structure Restoring (U : Set Features) (T : Set (List DateTime)) (s : Store H B) : Prop where
  inv : s.Inv
  interned : s.db.Interned U
  axes : Admits (fun _ _ => True) (AxisOf T) s.arrays
  rows : ∀ r ∈ s.db.rows, r.Restored T

theorem ReachableBy.restoring {U : Set Features} {T : Set (List DateTime)}
    (hU : Set.InjOn (featuresHash (H := H)) U) (hempty : Features.empty ∈ U)
    (hs : ∀ f ∈ U, f.Storable) {s : Store H B} (h : s.ReachableBy (RestorableTurn U T)) :
    Restoring U T s :=
  ⟨h.reachable.inv, ((h.mono fun _ _ h => h.1).steady hU hempty hs).interned _ List.mem_cons_self,
    h.axes, h.restored⟩

/-- A record read back is one that its row spells without loss, on a set of `U`. -/
theorem ReadsAs.restorable {U : Set Features} {T : Set (List DateTime)}
    (hU : Set.InjOn (featuresHash (H := H)) U) (hempty : Features.empty ∈ U)
    (hs : ∀ f ∈ U, f.Storable) (hT : Set.InjOn (timestampsHash (H := H)) T)
    (hmillis : ∀ ts ∈ T, ∀ t ∈ ts, t.IsMillis) {s : Store H B} (hi : Restoring U T s)
    {r : AssociationRow H} {src : TimeSeriesMetadata H} (h : s.ReadsAs r src) :
    src.Restorable T ∧ src.features ∈ U := by
  obtain ⟨m₀, id₀, rfl, hm₀⟩ := hi.rows r h.1
  have hfeatures : src.features ∈ U := by
    obtain ⟨f, hf, hread, -⟩ := hi.interned.rowFeatures hU hempty hs h.1
    rw [h.2.features, Except.ok.injEq] at hread
    rw [hread]
    exact hf
  have haxis : ∀ ts, src.timestamps = some ts →
      ts ∈ T ∧ m₀.timeSeriesType.isIrregular = true := by
    intro ts hts
    rcases h.2.axis with ⟨-, hnone⟩ | ⟨t, ts', ht, hget, hsome⟩
    · rw [hnone] at hts
      cases hts
    · rw [hsome] at hts
      cases hts
      obtain ⟨ts₀, h₀, rfl⟩ := Option.map_eq_some_iff.mp
        (show m₀.timestamps.map timestampsHash = some t from ht)
      obtain ⟨hmem, hirregular⟩ := hm₀.axis ts₀ h₀
      rw [getTimestamps_axis hT hmillis hi.inv.toSound hi.axes hmem
        (getTimestamps_faithful hi.inv.toSound hget).1] at hget
      cases hget
      exact ⟨hmem, hirregular⟩
  refine ⟨?_, hfeatures⟩
  have heq := h.eq_restored hm₀
  clear hfeatures h
  generalize src.features = f, src.timestamps = ts at heq haxis
  subst heq
  exact ⟨hm₀.timeReference, hm₀.initialTimestamp, hm₀.percentiles, hm₀.elementType, hm₀.resolution,
    hm₀.horizon, hm₀.interval, haxis⟩

/-- **A record that is filed reads back** as it is, under its id. -/
theorem Restoring.reads {U : Set Features} {T : Set (List DateTime)}
    (hU : Set.InjOn (featuresHash (H := H)) U) (hempty : Features.empty ∈ U)
    (hs : ∀ f ∈ U, f.Storable) (hT : Set.InjOn (timestampsHash (H := H)) T)
    (hmillis : ∀ ts ∈ T, ∀ t ∈ ts, t.IsMillis) {s : Store H B} (hi : Restoring U T s)
    {m : TimeSeriesMetadata H} (hm : m.Restorable T) (hf : m.features ∈ U) {id : ℤ}
    (hrow : m.toRow id ∈ s.db.rows) : s.ReadsAs (m.toRow id) { m with id := some id } := by
  refine ⟨hrow, ⟨_, hm.parse id, rfl⟩, ?_, ?_⟩
  · obtain ⟨f, hmem, hread, hash⟩ := hi.interned.rowFeatures hU hempty hs hrow
    rw [hread, hU hmem hf hash]
  · cases hts : m.timestamps with
    | none => exact Or.inl ⟨congrArg (Option.map timestampsHash) hts, rfl⟩
    | some ts =>
      obtain ⟨hmem, hirregular⟩ := hm.axis ts hts
      have hnames : (m.toRow id).timestampsHash = some (timestampsHash ts) :=
        congrArg (Option.map timestampsHash) hts
      exact Or.inr ⟨timestampsHash ts, ts, hnames,
        getTimestamps_axis hT hmillis hi.inv.toSound hi.axes hmem
          (hi.inv.holds.axis ⟨_, hrow, hirregular, hnames⟩), rfl⟩

/-- The records that an operation files if it succeeds. -/
def Writes (s : Store H B) : Op H → TimeSeriesMetadata H → Prop
  | .addRequests items, m => ∃ parts, items.mapM buildRequestParts = .ok parts ∧
      m ∈ parts.map (·.metadata)
  | .copyTimeSeries src dst ty name, m => ∃ found,
      s.db.getById (ArrayBackend.getTimestamps s.arrays.backend) src = .ok (some found) ∧
        m = copiedRow found dst ty name
  | .importAssociationRows rows, m => m ∈ rows
  | .transformSingleTimeSeries horizon requested category resolution policy, m =>
      policy.dryRun = false ∧ ∃ views,
        s.derivedViews horizon requested category resolution policy = .ok views ∧ m ∈ views
  | _, _ => False

/-- The views a transform over whole milliseconds derives are spelt without loss. -/
theorem derivedViews_restorable {U : Set Features} {T : Set (List DateTime)}
    (hU : Set.InjOn (featuresHash (H := H)) U) (hempty : Features.empty ∈ U)
    (hs : ∀ f ∈ U, f.Storable) (hT : Set.InjOn (timestampsHash (H := H)) T)
    (hmillis : ∀ ts ∈ T, ∀ t ∈ ts, t.IsMillis) {s : Store H B} (hi : Restoring U T s)
    {horizon requested : Period} (hhorizon : horizon.wholeMillis = horizon)
    (hrequested : requested.wholeMillis = requested) {category : Option OwnerCategory}
    {resolution : Option Period} {policy : TransformPolicy} {views : List (TimeSeriesMetadata H)}
    (h : s.derivedViews horizon requested category resolution policy = .ok views)
    {v : TimeSeriesMetadata H} (hv : v ∈ views) : v.Restorable T ∧ v.features ∈ U := by
  unfold derivedViews at h
  simp only [except_bind_eq_ok] at h
  obtain ⟨grids, -, derived, hplan, h⟩ := h
  cases derived with
  | none =>
    cases h
    exact (List.not_mem_nil hv).elim
  | some plan =>
    unfold plannedViews at h
    simp only [except_bind_eq_ok] at h
    obtain ⟨sources, hsources, dst, -, det, -, hviews⟩ := h
    obtain ⟨src, hsrc, res, grid, -, hgrid, rfl⟩ := (newViews_ok hviews).2 v hv
    obtain ⟨r, hr, hscope, hy⟩ := Catalog.mem_list hsources hsrc
    have hread : s.ReadsAs r src := ⟨hr, hy⟩
    obtain ⟨hsrc, hfeatures⟩ := hread.restorable hU hempty hs hT hmillis hi
    have hinterval : grid.interval.wholeMillis = grid.interval := by
      obtain ⟨g, -, -, b, hg⟩ :=
        TransformPlan.derive_get hplan (TransformPlan.forResolution_ok hgrid)
      obtain ⟨_, _, -, -, hstored, -⟩ := TransformPlan.deriveGrid_ok hg
      cases TransformPlan.storedInterval_ok hstored with
      | inl hsame => rw [hsame, hrequested]
      | inr hzero => exact Period.wholeMillis_of_isZero (by rw [hzero]; rfl)
    refine ⟨⟨hsrc.timeReference, hsrc.initialTimestamp, hsrc.percentiles, hsrc.elementType,
      hsrc.resolution, fun p hp => ?_, fun p hp => ?_, fun ts hts => ?_⟩, hfeatures⟩
    · cases hp
      exact hhorizon
    · cases hp
      exact hinterval
    · -- a source is on a regular grid
      have hirregular := (hsrc.axis ts hts).2
      unfold Catalog.singleInScope at hscope
      simp only [Bool.and_eq_true, decide_eq_true_eq] at hscope
      rw [hy.series.2.1, hscope.1.1] at hirregular
      cases hirregular

theorem Writes.restorable {U : Set Features} {T : Set (List DateTime)}
    (hU : Set.InjOn (featuresHash (H := H)) U) (hempty : Features.empty ∈ U)
    (hs : ∀ f ∈ U, f.Storable) (hT : Set.InjOn (timestampsHash (H := H)) T)
    (hmillis : ∀ ts ∈ T, ∀ t ∈ ts, t.IsMillis) {s : Store H B} (hi : Restoring U T s) {t : Turn H}
    (ht : RestorableTurn U T s t) {m : TimeSeriesMetadata H} (h : s.Writes t.op m) :
    m.Restorable T ∧ m.features ∈ U := by
  obtain ⟨op, faults⟩ := t
  obtain ⟨⟨hwithin, -⟩, hop⟩ := ht
  cases op with
  | addRequests items =>
    obtain ⟨parts, hbuilt, hm⟩ := h
    obtain ⟨p, hp, rfl⟩ := List.mem_map.mp hm
    obtain ⟨item, hitem, hb⟩ := Staging.parts_origin hbuilt hp
    obtain ⟨hsame, hstorable⟩ := buildRequestParts_features hb
    refine ⟨buildRequestParts_restorable hb (hop item (List.of_mem_zip hitem).1), ?_⟩
    rw [hsame]
    exact hwithin item (List.of_mem_zip hitem).1 hstorable
  | copyTimeSeries src dst ty name =>
    obtain ⟨found, hfound, rfl⟩ := h
    obtain ⟨r, hr, -, hy⟩ := Catalog.getById_eq_some hfound
    have hread : s.ReadsAs r found := ⟨hr, hy⟩
    obtain ⟨hm, hfeatures⟩ := hread.restorable hU hempty hs hT hmillis hi
    exact ⟨⟨hm.timeReference, hm.initialTimestamp, hm.percentiles, hm.elementType, hm.resolution,
      hm.horizon, hm.interval, hm.axis⟩, hfeatures⟩
  | importAssociationRows rows => exact ⟨hop m h, hwithin m h⟩
  | transformSingleTimeSeries horizon requested category resolution policy =>
    obtain ⟨-, views, hviews, hv⟩ := h
    exact derivedViews_restorable hU hempty hs hT hmillis hi hop.1 hop.2 hviews hv
  | _ => cases h

/-- A transform that succeeds has filed the views it derives, unless it is a dry run. -/
theorem succeeds_filedViews {s : Store H B} {horizon requested : Period}
    {category : Option OwnerCategory} {resolution : Option Period} {policy : TransformPolicy}
    {faults : List Fault} (hok : s.succeeds
      ⟨.transformSingleTimeSeries horizon requested category resolution policy, faults⟩ = true) :
    ∃ views, s.derivedViews horizon requested category resolution policy = .ok views ∧
      s.FiledViews policy views (s.turned
        ⟨.transformSingleTimeSeries horizon requested category resolution policy, faults⟩).db := by
  have hspec : (step (.transformSingleTimeSeries horizon requested category resolution policy)).wp
      (fun r s' => Outcome (s.arm faults).conn (fun _ db => ∃ views,
        s.derivedViews horizon requested category resolution policy = .ok views ∧
          s.FiledViews policy views db) (· = s.db) r s'.conn) (s.arm faults) :=
    (Cmd.wp_map _ _ _ _).mpr (Cmd.wp_mono
      (transformSingleTimeSeries_views (s := s.arm faults) horizon requested category resolution policy)
      fun _ _ h => h.2.2.map _ (fun _ _ h => h.2) fun _ h => h)
  unfold succeeds at hok
  unfold turned
  rw [turn_exec] at hok ⊢
  unfold Cmd.wp at hspec
  dsimp only at hok hspec
  cases hr : ((step (.transformSingleTimeSeries horizon requested category resolution policy)).exec
      (s.arm faults)).1 with
  | error e =>
    rw [hr] at hok
    cases hok
  | ok u =>
    rw [hr] at hspec
    exact hspec.2.2

/-- **A turn that succeeds** has filed what it writes, under the ids given. -/
theorem Writes.filed {s : Store H B} (hi : s.Inv) {t : Turn H} (hok : s.succeeds t = true)
    {m : TimeSeriesMetadata H} (h : s.Writes t.op m) :
    ∃ id, (∀ i, m.id = some i → id = i) ∧ m.toRow id ∈ (s.turned t).db.rows := by
  obtain ⟨op, faults⟩ := t
  cases op with
  | addRequests items =>
    obtain ⟨parts, hbuilt, hm⟩ := h
    obtain ⟨parts', cache, y, hbuilt', -, hchain⟩ := succeeds_changed hi rfl hok
    rw [hbuilt, Except.ok.injEq] at hbuilt'
    rw [← hbuilt'] at hchain
    exact (hchain.mono fun _ _ _ _ _ h => h.2).filed m hm
  | copyTimeSeries src dst ty name =>
    obtain ⟨found, hfound, rfl⟩ := h
    obtain ⟨id, src', hcopy⟩ := succeeds_changed hi rfl hok
    obtain ⟨cache, -, hone⟩ := hcopy.filed
    have hsource : s.db.getById (ArrayBackend.getTimestamps s.arrays.backend) src = .ok (some src') :=
      hcopy.source
    rw [hfound] at hsource
    cases hsource
    exact ⟨id, fun i hid => (by cases hid), (hone.spec.1 _).mpr (Or.inl rfl)⟩
  | importAssociationRows rows =>
    obtain ⟨y, hchain⟩ := (show Imported _ rows _ from succeeds_changed hi rfl hok).chain
    refine (hchain.mono fun _ _ _ _ _ h => h.2).filed m ?_
    have hsplit := List.filter_append_perm isView rows
    exact (List.perm_append_comm.trans hsplit).mem_iff.mpr h
  | transformSingleTimeSeries horizon requested category resolution policy =>
    obtain ⟨hdry, views, hviews, hv⟩ := h
    obtain ⟨views', hviews', hfiled⟩ := succeeds_filedViews hok
    rw [hviews, Except.ok.injEq] at hviews'
    cases hfiled with
    | inl hrun =>
      rw [hdry] at hrun
      cases hrun.1
    | inr hchain =>
      obtain ⟨y, hchain⟩ := hchain
      rw [← hviews'] at hchain
      exact hchain.filed m hv
  | _ => cases h

/-- **Rows come back.**  In a run on axes of whole milliseconds, no two of which collide, and on sets
that the catalog can give back, whose records are spelt without loss: every listing succeeds, with the
time axes or without, and holds each row that matches, read back; what is read back from a row is filed
as that row; and each record that a turn files is read back as it was filed, under the id it was given or
is assigned. -/
theorem rows_round_trip {U : Set Features} {T : Set (List DateTime)}
    (hU : Set.InjOn (featuresHash (H := H)) U) (hempty : Features.empty ∈ U)
    (hs : ∀ f ∈ U, f.Storable) (hT : Set.InjOn (timestampsHash (H := H)) T)
    (hmillis : ∀ ts ∈ T, ∀ t ∈ ts, t.IsMillis) {s : Store H B}
    (h : s.ReachableBy (RestorableTurn U T)) :
    (∀ required wher, ∃ ms, List.Forall₂ s.ReadsAs (s.db.rows.filter wher) ms ∧
      s.db.list (some (ArrayBackend.getTimestamps s.arrays.backend)) required wher =
        .ok (ms.filter fun m => required.all (isSubset · m.features)) ∧
      s.db.list none required wher =
        .ok ((ms.filter fun m => required.all (isSubset · m.features)).map
          fun m => { m with timestamps := none })) ∧
    (∀ r m, s.ReadsAs r m → m.toRow r.id = r) ∧
    ∀ t, RestorableTurn U T s t → s.succeeds t = true → ∀ m, s.Writes t.op m →
      ∃ id, (∀ i, m.id = some i → id = i) ∧
        (s.turned t).ReadsAs (m.toRow id) { m with id := some id } := by
  have hi := h.restoring hU hempty hs
  refine ⟨fun required wher => ?_, fun r m hread => ?_, fun t ht hok m hm => ?_⟩
  · obtain ⟨ms, hms⟩ : ∃ ms, List.Forall₂ s.ReadsAs (s.db.rows.filter wher) ms :=
      Catalog.forall₂_of_exists fun r hr => reads_of_readable hU hempty hs hi.inv hi.interned
        (List.mem_of_mem_filter hr) (hi.rows r (List.mem_of_mem_filter hr)).readable
    have hhydrated := hms.imp fun _ _ h => h.2
    exact ⟨ms, hms, Catalog.list_hydrated hhydrated required, Catalog.list_unhydrated hhydrated required⟩
  · obtain ⟨m₀, id₀, rfl, hm₀⟩ := hi.rows r hread.1
    obtain ⟨f, -, hfeatures, hash⟩ := hi.interned.rowFeatures hU hempty hs hread.1
    rw [hread.2.features, Except.ok.injEq] at hfeatures
    have hset : featuresHash (H := H) m.features = featuresHash m₀.features := by
      rw [hfeatures]
      exact hash
    have haxis : m.timestamps.map (timestampsHash (H := H)) = m₀.timestamps.map timestampsHash :=
      (hydrated_names hi.inv.toSound hread.2).1
    have heq := hread.eq_restored hm₀
    clear hfeatures hread
    generalize m.features = g, m.timestamps = ts at heq hset haxis
    subst heq
    unfold TimeSeriesMetadata.toRow
    simp only [hset, haxis]
  · have hnext : (s.turned t).ReachableBy (RestorableTurn U T) := h.turn t ht
    obtain ⟨hrestorable, hfeatures⟩ := hm.restorable hU hempty hs hT hmillis hi ht
    obtain ⟨id, hid, hrow⟩ := hm.filed hi.inv hok
    exact ⟨id, hid, (hnext.restoring hU hempty hs).reads hU hempty hs hT hmillis hrestorable hfeatures hrow⟩

end

namespace Sample

theorem tagged_restorable (ownerId : ℤ) : (tagged ownerId).Restorable ∅ :=
  ⟨trivial, fun _ h _ => (by cases h), fun _ h _ => (by cases h)⟩

/-- A tagged series is listed as it was added. -/
theorem rows_round_trip_tagged :
    (empty.turned ⟨.addRequests [tagged 1], []⟩).db.rows.map (·.id) = [1] ∧
    ∀ m, empty.Writes (.addRequests [tagged 1]) m → ∃ id, (∀ i, m.id = some i → id = i) ∧
      (empty.turned ⟨.addRequests [tagged 1], []⟩).ReadsAs (m.toRow id) { m with id := some id } := by
  have hempty : empty.ReachableBy (RestorableTurn tags ∅) :=
    .create trivial (fun _ => FMap.get_empty _) fun _ => FMap.get_empty _
  have hturn : RestorableTurn tags ∅ empty ⟨.addRequests [tagged 1], []⟩ := by
    refine ⟨⟨fun i hi _ => ?_, fun h => by cases h.1⟩, fun i hi => ?_⟩
    · rw [List.mem_singleton.mp hi]
      exact Or.inr rfl
    · rw [List.mem_singleton.mp hi]
      exact tagged_restorable 1
  exact ⟨by decide +kernel, (rows_round_trip tags_injOn (Or.inl rfl) tags_storable
    (fun _ h => (Set.notMem_empty _ h).elim) (fun _ h => (Set.notMem_empty _ h).elim) hempty).2.2
      ⟨.addRequests [tagged 1], []⟩ hturn (by decide +kernel)⟩

/-- A record of another owner over the array of a series, on a grid that starts in the year 10000. -/
def distantRows : List (TimeSeriesMetadata Digest) :=
  match buildRequestParts (request 1 7) with
  | .ok p => [{ p.metadata with
      ownerId := 2
      initialTimestamp := some ⟨253402300800, 0, by decide⟩ }]
  | .error _ => []

/-- A store with a series, and one that such a record was imported into. -/
def nearStore : Store Digest (MemoryBackend Digest) := after [⟨.addRequests [request 1 7], []⟩]

def distantStore : Store Digest (MemoryBackend Digest) :=
  nearStore.turned ⟨.importAssociationRows distantRows, []⟩

/-- An imported row that no listing gives back, and that makes every listing fail. -/
theorem not_round_trip_distant :
    nearStore.Reachable ∧ nearStore.succeeds ⟨.importAssociationRows distantRows, []⟩ = true ∧
      distantStore.db.rows.length = 2 ∧
      (nearStore.db.list (some (ArrayBackend.getTimestamps nearStore.arrays.backend)) none
        fun _ => true).isOk = true ∧
      (distantStore.db.list (some (ArrayBackend.getTimestamps distantStore.arrays.backend)) none
        fun _ => true).isOk = false :=
  ⟨after_reachable _, by decide +kernel⟩

end Sample

end Store

end InfraStore
