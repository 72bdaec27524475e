import InfraStore.DescriptorText
import InfraStore.Identity

/-!
# Rows that read back

Whether a listing succeeds depends on every column of text: what an add writes always parses, and what
an import is given parses where it is legible.

* `TimeSeriesMetadata.Legible`: the records whose columns parse;
* `buildRequestParts_legible`: an accepted request files one;
* `AssociationRow.Readable`: what every row keeps, over runs that import legible records;
* `ReachableBy.reads`: every row reads back, time axis and features included.
-/

namespace InfraStore

open Lib

/-! ### Columns -/

/-- A record whose columns parse. -/
structure TimeSeriesMetadata.Legible {H : Type} (m : TimeSeriesMetadata H) : Prop where
  timeReference : ∀ r, m.timeReference = some r → r.validate = .ok ()
  initialTimestamp : ∀ t, m.initialTimestamp = some t → 0 ≤ t.date.year ∧ t.date.year ≤ 9999
  percentiles : ∀ vs, m.percentiles = some vs → ∀ v ∈ vs, v.isFinite = true
  elementType : m.elementType.Printable

/-- A row that parses, and names a time axis only if it is irregular. -/
structure AssociationRow.Readable [FloatText] {H : Type} (r : AssociationRow H) : Prop where
  parses : ∃ m, r.parse = .ok m
  axis : r.timestampsHash.isSome → r.timeSeriesType.isIrregular = true

section

set_option linter.unusedSectionVars false

variable {H : Type} [DecidableEq H] [Sha256 H] [FloatText]

theorem parseColumn_map {α β γ : Type} {parse : β → Result γ} {write : α → β} {a : Option α}
    (h : ∀ x, a = some x → ∃ y, parse (write x) = .ok y) :
    ∃ y, AssociationRow.parseColumn parse (a.map write) = .ok y := by
  cases a with
  | none => exact ⟨none, rfl⟩
  | some x =>
    obtain ⟨y, hy⟩ := h x rfl
    exact ⟨some y, congrArg (Except.map some) hy⟩

theorem parsePeriod_toIso8601 (column : ℕ) (p : Period) :
    ∃ q, AssociationRow.parsePeriod column p.toIso8601 = .ok q := by
  refine ⟨p.wholeMillis, ?_⟩
  unfold AssociationRow.parsePeriod
  rw [Period.fromIso8601_toIso8601]

/-- **Legible records** are filed as rows that parse. -/
theorem TimeSeriesMetadata.Legible.parse [LawfulFloatText] {m : TimeSeriesMetadata H}
    (h : m.Legible) (id : ℤ) : ∃ n, (m.toRow id).parse = .ok n := by
  obtain ⟨u, hu⟩ : ∃ u, AssociationRow.parseColumn AssociationRow.parseUnitSystem
      (m.unitSystem.map UnitSystem.asStr) = .ok u :=
    parseColumn_map fun x _ => ⟨x, by cases x <;> rfl⟩
  obtain ⟨tr, htr⟩ : ∃ tr, AssociationRow.parseColumn AssociationRow.parseTimeReference
      (m.timeReference.map TimeReference.asStorageString) = .ok tr :=
    parseColumn_map fun x hx => ⟨x, by
      unfold AssociationRow.parseTimeReference
      rw [TimeReference.parse_asStorageString (h.timeReference x hx)]⟩
  obtain ⟨it, hit⟩ : ∃ it, AssociationRow.parseColumn AssociationRow.parseInstant
      m.initialTimestamp = .ok it := by
    rcases hx : m.initialTimestamp with _ | t
    · exact ⟨none, rfl⟩
    · exact ⟨some t, congrArg (Except.map some) (if_pos (h.initialTimestamp t hx))⟩
  obtain ⟨ps, hps⟩ : ∃ ps, AssociationRow.parseColumn AssociationRow.parsePercentiles
      (m.percentiles.map FloatText.toJson) = .ok ps :=
    parseColumn_map fun vs hvs => by
      obtain ⟨ws, hws⟩ := LawfulFloatText.reads vs (h.percentiles vs hvs)
      refine ⟨ws, ?_⟩
      unfold AssociationRow.parsePercentiles
      rw [hws]
      rfl
  have het : AssociationRow.parseElementType m.elementType.display = .ok m.elementType := by
    unfold AssociationRow.parseElementType
    rw [ElementType.parse_display h.elementType]
  have hperiod : ∀ (column : ℕ) (p : Option Period), ∃ q,
      AssociationRow.parseColumn (AssociationRow.parsePeriod column) (p.map Period.toIso8601) = .ok q :=
    fun column p => parseColumn_map fun x _ => parsePeriod_toIso8601 column x
  obtain ⟨resolution, hres⟩ := hperiod 8 m.resolution
  obtain ⟨horizon, hhor⟩ := hperiod 10 m.horizon
  obtain ⟨interval, hint⟩ := hperiod 11 m.interval
  unfold AssociationRow.parse
  simp only [TimeSeriesMetadata.toRow, hu, htr, hit, hps, het, hres, hhor, hint]
  exact ⟨_, rfl⟩

theorem parseColumn_some {α β : Type} {parse : α → Result β} {a : Option α} {y : β}
    (h : AssociationRow.parseColumn parse a = .ok (some y)) : ∃ x, a = some x ∧ parse x = .ok y := by
  cases a with
  | none => cases h
  | some x =>
    rcases hp : parse x with e | z
    · rw [show AssociationRow.parseColumn parse (some x) = (parse x).map some from rfl, hp] at h
      cases h
    · rw [show AssociationRow.parseColumn parse (some x) = (parse x).map some from rfl, hp] at h
      cases h
      exact ⟨x, rfl, hp⟩

/-- A record that was read is legible, and may be filed again. -/
theorem AssociationRow.legible_of_parse [LawfulFloatText] {r : AssociationRow H}
    {m : TimeSeriesMetadata H} (h : r.parse = .ok m) : m.Legible := by
  unfold AssociationRow.parse at h
  simp only [except_bind_eq_ok] at h
  obtain ⟨_, -, tr, htr, it, hit, ps, hps, et, het, _, -, _, -, _, -, h⟩ := h
  cases h
  refine ⟨?_, ?_, ?_, ?_⟩
  · rintro x rfl
    obtain ⟨s, -, hs⟩ := parseColumn_some htr
    unfold parseTimeReference at hs
    split at hs
    · rename_i hp
      cases hs
      exact TimeReference.validate_of_parse hp
    · cases hs
    · cases hs
  · rintro t rfl
    obtain ⟨x, -, hx⟩ := parseColumn_some hit
    unfold parseInstant at hx
    split at hx
    · rename_i hyear
      cases hx
      exact hyear
    · cases hx
  · rintro vs rfl
    obtain ⟨s, -, hs⟩ := parseColumn_some hps
    unfold parsePercentiles at hs
    rw [mapErr_eq_ok] at hs
    exact LawfulFloatText.finite s vs hs
  · unfold parseElementType at het
    split at het
    · rename_i hp
      cases het
      exact ElementType.printable_of_parse hp
    · cases het

/-- Whose row it is does not matter to the parser. -/
theorem AssociationRow.Readable.owner {r : AssociationRow H} (h : r.Readable) (owner : ℤ) :
    AssociationRow.Readable { r with ownerId := owner } := by
  obtain ⟨m, hm⟩ := h.parses
  refine ⟨⟨{ m with ownerId := owner }, ?_⟩, h.axis⟩
  unfold AssociationRow.parse at hm ⊢
  simp only [except_bind_eq_ok] at hm ⊢
  obtain ⟨u, h1, tr, h2, it, h3, ps, h4, et, h5, resolution, h6, horizon, h7, interval, h8, hm⟩ := hm
  cases hm
  exact ⟨u, h1, tr, h2, it, h3, ps, h4, et, h5, resolution, h6, horizon, h7, interval, h8, rfl⟩

/-! ### Adds -/

theorem requireMs_year {t : DateTime} {label : String} (h : requireMs t label = .ok ()) :
    0 ≤ t.date.year ∧ t.date.year ≤ 9999 := by
  unfold requireMs at h
  obtain ⟨_, -, h⟩ := except_bind_eq_ok.mp h
  split at h
  · assumption
  · cases h

theorem validateTimeReference_ok {d : TimeSeriesData} (h : validateTimeReference d = .ok ())
    {r : TimeReference} (hr : d.fields.timeReference = some r) : r.validate = .ok () := by
  unfold validateTimeReference at h
  rw [hr] at h
  obtain ⟨_, hv, -⟩ := except_bind_eq_ok.mp h
  exact hv

/-- No accepted array has an empty tuple for its elements. -/
theorem validateArray_printable {e : ElementType} {a : TypedArray} {t : TimeSeriesType}
    (h : e.validateArray a t.leadingDims = .ok ()) (hg : validateArrayGeometry a t = .ok ())
    (hsize : e.Sized) : e.Printable := by
  cases e with
  | tuple arity d =>
    refine ⟨?_, hsize⟩
    rintro rfl
    have hdims : a.shape.drop t.leadingDims = [0] := by
      unfold ElementType.validateArray at h
      split at h
      · cases h
      split at h
      · cases h
      obtain ⟨_, hd, -⟩ := except_bind_eq_ok.mp h
      unfold ElementType.validateElementDims ElementType.fixedElementDims at hd
      simp only at hd
      split at hd
      · cases hd
      · rename_i hne
        exact not_not.mp hne
    unfold validateArrayGeometry at hg
    obtain ⟨_, -, hg⟩ := except_bind_eq_ok.mp hg
    rw [hdims, if_pos List.mem_cons_self] at hg
    cases hg
  | _ => trivial

theorem probabilistic_finite {p : Probabilistic} (h : p.validate = .ok ()) :
    ∀ v ∈ p.percentiles, v.isFinite = true := by
  unfold Probabilistic.validate at h
  obtain ⟨_, -, h⟩ := except_bind_eq_ok.mp h
  split at h
  · cases h
  split at h
  · cases h
  · rename_i hf
    rw [Bool.not_eq_true, Bool.not_eq_false'] at hf
    exact List.all_eq_true.mp hf

/-- The start of a series' grid, if it has one. -/
def TimeSeriesData.start : TimeSeriesData → Option DateTime
  | .single s => some s.initialTimestamp
  | .deterministic s => some s.initialTimestamp
  | .probabilistic s => some s.initialTimestamp
  | .scenarios s => some s.initialTimestamp
  | _ => none

/-- The percentiles of a series, if it has some. -/
def TimeSeriesData.levels : TimeSeriesData → Option (List F64)
  | .probabilistic s => some s.percentiles
  | _ => none

/-- What a series is filed with, beside the fields of its base. -/
theorem fileSeries_columns {base : TimeSeriesMetadata H} {d : TimeSeriesData} {g : PackGroup H}
    {m : TimeSeriesMetadata H} (h : fileSeries base d = .ok (g, m))
    (hstart : base.initialTimestamp = none) (hlevels : base.percentiles = none) :
    m.timeReference = base.timeReference ∧ m.elementType = base.elementType ∧
      m.initialTimestamp = d.start ∧ m.percentiles = d.levels := by
  cases d with
  | single s => cases h; exact ⟨rfl, rfl, rfl, hlevels⟩
  | nonSequential s => cases h; exact ⟨rfl, rfl, hstart, hlevels⟩
  | persistent s => cases h; exact ⟨rfl, rfl, hstart, hlevels⟩
  | deterministic s =>
    obtain ⟨_, -, h⟩ := except_bind_eq_ok.mp h
    cases h; exact ⟨rfl, rfl, rfl, hlevels⟩
  | probabilistic s =>
    obtain ⟨_, -, h⟩ := except_bind_eq_ok.mp h
    cases h; exact ⟨rfl, rfl, rfl, rfl⟩
  | scenarios s =>
    obtain ⟨_, -, h⟩ := except_bind_eq_ok.mp h
    cases h; exact ⟨rfl, rfl, rfl, hlevels⟩

theorem validateData_start {d : TimeSeriesData} (h : validateData d = .ok ()) {t : DateTime}
    (ht : d.start = some t) : 0 ≤ t.date.year ∧ t.date.year ≤ 9999 := by
  unfold validateData at h
  obtain ⟨_, -, h⟩ := except_bind_eq_ok.mp h
  cases d with
  | nonSequential s => cases ht
  | persistent s => cases ht
  | _ =>
    cases ht
    obtain ⟨_, hms, -⟩ := except_bind_eq_ok.mp h
    exact requireMs_year hms

theorem validateData_levels {d : TimeSeriesData} (h : validateData d = .ok ()) {vs : List F64}
    (hvs : d.levels = some vs) : ∀ v ∈ vs, v.isFinite = true := by
  unfold validateData at h
  obtain ⟨_, -, h⟩ := except_bind_eq_ok.mp h
  cases d with
  | probabilistic s =>
    cases hvs
    obtain ⟨_, -, h⟩ := except_bind_eq_ok.mp h
    exact probabilistic_finite (mapErr_eq_ok.mp h)
  | _ => cases hvs

/-- **An accepted request** files a legible record, with a time axis only if it is irregular. -/
theorem buildRequestParts_legible {item : AddRequest} {p : RequestParts H}
    (h : buildRequestParts item = .ok p) (hsize : item.data.fields.elementType.Sized) :
    p.metadata.Legible ∧
      (p.metadata.timestamps.isSome → p.metadata.timeSeriesType.isIrregular = true) := by
  have haxis := buildRequestParts_axis h
  have hirr := fun t => buildRequestParts_irregular (t := t) h
  obtain ⟨-, he, htr, hd, hf, -⟩ := buildRequestParts_ok h
  obtain ⟨h1, h2, h3, h4⟩ := fileSeries_columns hf rfl rfl
  have hg : validateArrayGeometry item.data.fields.data item.data.timeSeriesType = .ok () := by
    unfold validateData at hd
    obtain ⟨_, hg, -⟩ := except_bind_eq_ok.mp hd
    exact hg
  refine ⟨⟨fun r hr => ?_, fun t ht => ?_, fun vs hvs => ?_, ?_⟩, fun hsome => ?_⟩
  · rw [h1] at hr
    exact validateTimeReference_ok htr hr
  · rw [h3] at ht
    exact validateData_start hd ht
  · rw [h4] at hvs
    exact validateData_levels hd hvs
  · rw [h2]
    exact validateArray_printable he hg hsize
  · unfold PackGroup.NamesAxis at haxis
    split at haxis
    · rename_i t hp
      exact hirr t hp
    · rw [haxis] at hsome
      cases hsome

end

/-- What a run needs for its rows to read back: the records an import is given are legible, and name a
time axis only if they are irregular; tuples have arities that are machine integers. -/
def Op.Legible {H : Type} : Op H → Prop
  | .addRequests items => ∀ i ∈ items, i.data.fields.elementType.Sized
  | .importAssociationRows rows => ∀ m ∈ rows, m.Legible ∧
      (m.timestamps.isSome → m.timeSeriesType.isIrregular = true)
  | _ => True

namespace Store

section

set_option linter.unusedSectionVars false

variable {H B : Type} [DecidableEq H] [ArrayBackend H B] [Sha256 H] [FloatText] [ToString H]
  [LawfulArrayBackend H B] [LawfulFloatText]

/-! ### Every row -/

/-- A record read back is legible, and has a time axis only if it is irregular. -/
theorem ReadsAs.legible {s : Store H B} {r : AssociationRow H} {m : TimeSeriesMetadata H}
    (h : s.ReadsAs r m) (hr : r.Readable) : m.Legible ∧
      (m.timestamps.isSome → r.timeSeriesType.isIrregular = true) := by
  have hlegible := AssociationRow.legible_of_parse h.2.parse
  refine ⟨⟨hlegible.timeReference, hlegible.initialTimestamp, hlegible.percentiles,
    hlegible.elementType⟩, fun hsome => hr.axis ?_⟩
  rcases h.2.axis with ⟨-, h2⟩ | ⟨t, ts, h1, -, -⟩
  · rw [h2] at hsome
    cases hsome
  · rw [h1]
    rfl

/-- What an operation files reads back. -/
theorem Files.readable {s : Store H B} {op : Op H} {m : TimeSeriesMetadata H} (h : s.Files op m)
    (hop : op.Legible) (hrows : ∀ r ∈ s.db.rows, r.Readable) (id : ℤ) : (m.toRow id).Readable := by
  have hof : m.Legible ∧ (m.timestamps.isSome → m.timeSeriesType.isIrregular = true) →
      (m.toRow id).Readable := fun h =>
    ⟨h.1.parse id, fun hsome => h.2 (by rw [← Option.isSome_map]; exact hsome)⟩
  cases op with
  | addRequests items =>
    obtain ⟨parts, hbuilt, hm⟩ := h
    obtain ⟨p, hp, rfl⟩ := List.mem_map.mp hm
    obtain ⟨item, hitem, hb⟩ := Staging.parts_origin hbuilt hp
    exact hof (buildRequestParts_legible hb (hop item (List.of_mem_zip hitem).1))
  | copyTimeSeries src dst ty name =>
    obtain ⟨r, src, hsrc, rfl⟩ := h
    obtain ⟨hl, haxis⟩ := hsrc.legible (hrows r hsrc.1)
    refine hof ⟨⟨hl.timeReference, hl.initialTimestamp, hl.percentiles, hl.elementType⟩, fun hsome => ?_⟩
    show src.timeSeriesType.isIrregular = true
    rw [hsrc.2.series.2.1]
    exact haxis hsome
  | importAssociationRows rows => exact hof (hop m h)
  | transformSingleTimeSeries horizon interval category resolution policy =>
    obtain ⟨r, src, hsrc, hscope, horizon, interval, count, rfl⟩ := h
    obtain ⟨hl, haxis⟩ := hsrc.legible (hrows r hsrc.1)
    refine hof ⟨⟨hl.timeReference, hl.initialTimestamp, hl.percentiles, hl.elementType⟩, fun hsome => ?_⟩
    -- the source is on a regular grid
    have hregular := haxis hsome
    unfold Catalog.singleInScope at hscope
    simp only [Bool.and_eq_true, decide_eq_true_eq] at hscope
    rw [hscope.1.1] at hregular
    cases hregular
  | _ => cases h

/-- The turns of a run on sets of `U` whose rows read back. -/
def LegibleTurn (U : Set Features) (s : Store H B) (t : Turn H) : Prop :=
  SetTurn U s t ∧ t.op.Legible

theorem ReachableBy.readable {U : Set Features} {s : Store H B}
    (h : s.ReachableBy (LegibleTurn U)) : ∀ r ∈ s.db.rows, r.Readable :=
  h.rows (P := AssociationRow.Readable) (fun _ owner hr => hr.owner owner)
    (fun _ _ _ id _ ht hrows hm => hm.readable ht.2 hrows id) s.db List.mem_cons_self

omit [LawfulFloatText] in
/-- A row that parses, whose features and axis are held, reads back. -/
theorem reads_of_readable {U : Set Features} (hU : Set.InjOn (featuresHash (H := H)) U)
    (hempty : Features.empty ∈ U) (hs : ∀ f ∈ U, f.Storable) {s : Store H B} (hi : s.Inv)
    (hinterned : s.db.Interned U) {r : AssociationRow H} (hr : r ∈ s.db.rows) (hread : r.Readable) :
    ∃ m, s.ReadsAs r m := by
  obtain ⟨f, -, hfeatures, -⟩ := hinterned.rowFeatures hU hempty hs hr
  obtain ⟨⟨m, hm⟩, haxis⟩ := hread
  rcases ht : r.timestampsHash with _ | t
  · exact ⟨{ m with features := f, timestamps := none }, hr, ⟨m, hm, rfl⟩, hfeatures, Or.inl ⟨ht, rfl⟩⟩
  · have hheld : (s.arrays.vector t).isSome :=
      hi.holds.axis ⟨r, hr, haxis (by rw [ht]; rfl), ht⟩
    obtain ⟨ms, hms⟩ := Option.isSome_iff_exists.mp hheld
    obtain ⟨ts, hmillis, -, rfl⟩ := hi.faithfulAxis hms
    have hget : ArrayBackend.getTimestamps s.arrays.backend t = .ok ts := by
      rw [LawfulArrayBackend.getTimestamps_eq hi.valid.backend,
        show LawfulArrayBackend.vector s.arrays.backend t = some (toMillis ts) from hms]
      simp only [fromMillis_toMillis hmillis]
      rfl
    exact ⟨{ m with features := f, timestamps := some ts }, hr, ⟨m, hm, rfl⟩, hfeatures,
      Or.inr ⟨t, ts, ht, hget, rfl⟩⟩

/-- **Every row reads back**, its time axis and its features included. -/
theorem ReachableBy.reads {U : Set Features} (hU : Set.InjOn (featuresHash (H := H)) U)
    (hempty : Features.empty ∈ U) (hs : ∀ f ∈ U, f.Storable) {s : Store H B}
    (h : s.ReachableBy (LegibleTurn U)) : ∀ r ∈ s.db.rows, ∃ m, s.ReadsAs r m := fun r hr =>
  reads_of_readable hU hempty hs h.reachable.inv
    (((h.mono fun _ _ h => h.1).steady hU hempty hs).interned _ List.mem_cons_self) hr
    (h.readable r hr)

end

end Store

end InfraStore
