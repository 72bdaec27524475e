import InfraStore.Levels
import InfraStore.Removal
import InfraStore.StoredSeries

/-!
# Replacing on a load

`--replace` removes, before an add, the rows the store holds under the identity the request will be filed
under.  The rows are found by a filter, and the filter of a request asks for a type that may stand for two.

* `requestIdentity`, `removeExisting`: the filter of a request, and the removal of what filters find;
* `replaces_iff`: the rows a request's filter finds, column by column;
* `replaces_filed_iff`: among the rows that requests are filed as, those of its own identity;
* `removeExisting_spec`: the removal takes exactly the rows some filter finds;
* `Holding`, `Carried`: an id names the series of a request, and a series is there as it was.
-/

namespace InfraStore.Cli

open InfraStore.Lib Connection

/-- The identity a request will be stored under, for `--replace`. -/
def requestIdentity (req : AddRequest) : ListFilter :=
  let periods : Option Period × Option Period := match req.data with
    | .single s => (some s.resolution, none)
    | .nonSequential _ | .persistent _ => (none, none)
    | .deterministic d => (some d.resolution, some d.interval)
    | .probabilistic p => (some p.resolution, some p.interval)
    | .scenarios s => (some s.resolution, some s.interval)
  { ownerId := some req.ownerId
    ownerCategory := some req.ownerCategory
    timeSeriesType := some req.data.timeSeriesType
    name := some req.data.fields.name
    resolution := periods.1
    interval := periods.2
    features := some req.features
    featuresExact := true }

section

set_option linter.unusedSectionVars false

variable {H B : Type} [DecidableEq H] [ArrayBackend H B] [Sha256 H] [FloatText] [ToString H] [Glob]

/-- The ids of the rows each filter finds, one filter after another. -/
def presentIds : List ListFilter → List ℤ → StoreCmd (Store H B) (List ℤ)
  | [], present => pure present
  | filter :: filters, present => do
    let found ← Store.onConn (Connection.query fun db => db.listFilter none filter.toFilter)
    presentIds filters (present ++ found.filterMap (·.id))

/-- Remove the rows that the filters find, ignoring the filters that find none. -/
def removeExisting (filters : List ListFilter) : StoreCmd (Store H B) ℕ := do
  let present ← presentIds filters []
  if present = [] then pure 0
  else Store.removeByIdsInner present none

/-- The filter of a request finds a row. -/
def Replaces (req : AddRequest) (r : AssociationRow H) : Prop :=
  ((requestIdentity req).toFilter : MetadataFilter H).holds r = true

instance (req : AddRequest) (r : AssociationRow H) : Decidable (Replaces req r) :=
  inferInstanceAs (Decidable (_ = true))

/-! ### What a filter finds -/

/-- The identity a request is filed under. -/
def requestKey (req : AddRequest) : IdentityKey H where
  ownerId := req.ownerId
  ownerCategory := req.ownerCategory
  timeSeriesType := req.data.timeSeriesType
  name := req.data.fields.name
  resolution := ((requestIdentity req).resolution.map Period.toIso8601).getD ""
  interval := ((requestIdentity req).interval.map Period.toIso8601).getD ""
  featuresHash := featuresHash req.features

theorem requestIdentity_periods (req : AddRequest) :
    (requestIdentity req).resolution = req.data.resolution ∧
      (requestIdentity req).interval = req.data.forecast.map ForecastFields.interval := by
  unfold requestIdentity
  cases req.data <;> exact ⟨rfl, rfl⟩

/-- **The filter of a request**: its owner, name and features, a type it asks for, and the periods its
kind has. -/
theorem replaces_iff (req : AddRequest) (r : AssociationRow H) :
    Replaces req r ↔ r.ownerId = req.ownerId ∧ r.ownerCategory = req.ownerCategory ∧
      (TypeMatch.requested req.data.timeSeriesType).holds r.timeSeriesType = true ∧
      r.name = req.data.fields.name ∧
      (∀ p, req.data.resolution = some p → r.resolution = some p.toIso8601) ∧
      (∀ p, req.data.forecast.map ForecastFields.interval = some p → r.interval = some p.toIso8601) ∧
      r.featuresHash = featuresHash req.features := by
  obtain ⟨hres, hint⟩ := requestIdentity_periods req
  unfold Replaces MetadataFilter.holds ListFilter.toFilter
  rw [hres, hint]
  have hcolumn : ∀ (column : Option String) (period : Option Period),
      periodHolds column none period = true ↔
        ∀ p, period = some p → column = some p.toIso8601 := by
    intro column period
    cases period with
    | none => simp [periodHolds, Catalog.columnIs]
    | some p => simp [periodHolds, Catalog.columnIs]
  simp only [requestIdentity, Option.all_none, Option.all_some, Option.map_some, Catalog.columnIs,
    zonelessHolds, Bool.and_eq_true, decide_eq_true_eq, Bool.true_and, Bool.and_true, hcolumn, id_eq,
    if_true, Option.getD_some]
  constructor
  · rintro ⟨⟨⟨⟨⟨⟨h1, h2⟩, h3⟩, h4⟩, h5⟩, h6⟩, h7⟩
    exact ⟨h1, h2, h3, h4, h5, h6, h7⟩
  · rintro ⟨h1, h2, h3, h4, h5, h6, h7⟩
    exact ⟨⟨⟨⟨⟨⟨h1, h2⟩, h3⟩, h4⟩, h5⟩, h6⟩, h7⟩

/-- A request for a type a request can have finds that type alone, where no view is stored. -/
theorem requested_holds_iff {t t' : TimeSeriesType} (h : t' ≠ .deterministicSingleTimeSeries) :
    (TypeMatch.requested t).holds t' = true ↔ t' = t := by
  cases t <;> cases t' <;> first | exact absurd rfl h | decide

/-- No request is of a view. -/
theorem request_not_view (d : TimeSeriesData) :
    d.timeSeriesType ≠ .deterministicSingleTimeSeries := by
  cases d <;> exact fun h => (by cases h)

/-- The columns of a filed row that a filter asks for. -/
theorem filed_columns {a : AddRequest} {r : AssociationRow H} (h : Store.FiledAs a r) :
    r.ownerId = a.ownerId ∧ r.ownerCategory = a.ownerCategory ∧
      r.timeSeriesType = a.data.timeSeriesType ∧ r.name = a.data.fields.name ∧
      r.resolution = a.data.resolution.map Period.toIso8601 ∧
      r.interval = (a.data.forecast.map ForecastFields.interval).map Period.toIso8601 ∧
      r.featuresHash = featuresHash a.features := by
  obtain ⟨p, hp, hr⟩ := h
  have hrow := buildRequestParts_rowOf hp
  obtain ⟨-, -, -, -, hf, -, -⟩ := buildRequestParts_ok hp
  have heq := fileSeries_eq hf
  rw [hr]
  refine ⟨?_, ?_, hrow.kind, ?_, ?_, ?_, ?_⟩
  · rw [heq]; rfl
  · rw [heq]; rfl
  · rw [heq]; rfl
  · exact congrArg (Option.map Period.toIso8601) hrow.resolution
  · exact congrArg (Option.map Period.toIso8601) hrow.interval
  · rw [heq]; rfl

/-- A row is filed under the identity of its request. -/
theorem filed_identity {a : AddRequest} {r : AssociationRow H} (h : Store.FiledAs a r) :
    r.identity = requestKey a := by
  obtain ⟨h1, h2, h3, h4, h5, h6, h7⟩ := filed_columns h
  obtain ⟨hres, hint⟩ := requestIdentity_periods a
  unfold AssociationRow.identity requestKey
  rw [h1, h2, h3, h4, h5, h6, h7, hres, hint]

/-- The kinds with a resolution, and those with an interval. -/
theorem periods_of_type {a b : TimeSeriesData} (h : a.timeSeriesType = b.timeSeriesType) :
    a.resolution.isSome = b.resolution.isSome ∧ a.forecast.isSome = b.forecast.isSome := by
  cases a <;> cases b <;> first | exact ⟨rfl, rfl⟩ | cases h

/-- Two spelt periods, of kinds that both have one or both have none. -/
theorem period_column_iff {p q : Option Period} (h : p.isSome = q.isSome) :
    (∀ x, q = some x → p.map Period.toIso8601 = some x.toIso8601) ↔
      (p.map Period.toIso8601).getD "" = (q.map Period.toIso8601).getD "" := by
  cases p with
  | none =>
    cases q with
    | none => simp
    | some y => cases h
  | some x =>
    cases q with
    | none => cases h
    | some y => simp

/-- **Among filed rows** the filter of a request finds those of the request's own identity. -/
theorem replaces_filed_iff {a b : AddRequest} {r : AssociationRow H} (h : Store.FiledAs a r) :
    Replaces b r ↔ (requestKey a : IdentityKey H) = requestKey b := by
  obtain ⟨h1, h2, h3, h4, h5, h6, h7⟩ := filed_columns h
  obtain ⟨hres, hint⟩ := requestIdentity_periods a
  obtain ⟨hres', hint'⟩ := requestIdentity_periods b
  rw [replaces_iff, h1, h2, h3, h4, h5, h6, h7, requested_holds_iff (request_not_view _)]
  unfold requestKey
  rw [IdentityKey.mk.injEq, hres, hint, hres', hint']
  constructor
  · rintro ⟨k1, k2, k3, k4, k5, k6, k7⟩
    obtain ⟨hr, hf⟩ := periods_of_type k3
    refine ⟨k1, k2, k3, k4, (period_column_iff hr).mp k5, (period_column_iff ?_).mp k6, k7⟩
    rw [Option.isSome_map, Option.isSome_map, hf]
  · rintro ⟨k1, k2, k3, k4, k5, k6, k7⟩
    obtain ⟨hr, hf⟩ := periods_of_type k3
    refine ⟨k1, k2, k3, k4, (period_column_iff hr).mpr k5, (period_column_iff ?_).mpr k6, k7⟩
    rw [Option.isSome_map, Option.isSome_map, hf]

/-! ### What is removed -/

variable [LawfulArrayBackend H B]

/-- The filters name whole feature sets. -/
def Exact (filters : List ListFilter) : Prop := ∀ f ∈ filters, f.featuresExact = true

/-- A filter finds a row, by its columns. -/
def FoundBy (filters : List ListFilter) (r : AssociationRow H) : Prop :=
  ∃ f ∈ filters, (f.toFilter : MetadataFilter H).holds r = true

/-- A listing of the rows alone has read the features of every row that matches. -/
theorem list_features {c : Catalog H} {required : Option Features} {wher : AssociationRow H → Bool}
    {ms : List (TimeSeriesMetadata H)} (h : c.list none required wher = .ok ms)
    {r : AssociationRow H} (hr : r ∈ c.rows) (hw : wher r = true) : ∃ g, c.rowFeatures r = .ok g := by
  unfold Catalog.list at h
  simp only [except_bind_eq_ok] at h
  obtain ⟨parsed, -, fetched, -, features, hfe, -⟩ := h
  obtain ⟨g, -, hg⟩ := mapM_covers hfe (List.mem_filter.mpr ⟨hr, hw⟩)
  exact ⟨g, hg⟩

theorem presentIds_spec (filters : List ListFilter) (hexact : Exact filters) :
    ∀ (present : List ℤ) (s : Store H B), (presentIds filters present).wp
      (Store.CatalogOnly s fun out db => db = s.db ∧
        ∀ i, i ∈ out ↔ i ∈ present ∨ ∃ r ∈ s.db.rows, r.id = i ∧ FoundBy filters r) s := by
  induction filters with
  | nil =>
    intro present s
    refine Store.catalogOnly_pure ⟨rfl, fun i => ?_⟩
    simp [FoundBy]
  | cons f filters ih =>
    intro present s
    unfold presentIds
    refine Store.catalogOnly_bind Store.catalogOnly_query fun found s₁ _ _ hdb _ hfound => ?_
    have hrest := ih (fun g hg => hexact g (List.mem_cons_of_mem _ hg))
      (present ++ found.filterMap (·.id)) s₁
    refine Cmd.wp_mono hrest fun r s₂ h => ⟨h.1, h.2.1, h.2.2.mono ?_ fun _ h => h⟩
    rintro out db ⟨hdb', hout⟩
    refine ⟨hdb'.trans hdb, fun i => ?_⟩
    have hids : i ∈ found.filterMap (·.id) ↔
        ∃ r ∈ s.db.rows, r.id = i ∧ (f.toFilter : MetadataFilter H).holds r = true := by
      have hnone : (f.toFilter : MetadataFilter H).features = none := by
        unfold ListFilter.toFilter
        rw [hexact f List.mem_cons_self]
        rfl
      unfold Catalog.listFilter at hfound
      rw [hnone] at hfound
      rw [List.mem_filterMap, Catalog.list_rows_only hfound]
      constructor
      · rintro ⟨r, hr, hid, hw, -⟩
        exact ⟨r, hr, hid, hw⟩
      · rintro ⟨r, hr, hid, hw⟩
        obtain ⟨g, hg⟩ := list_features hfound hr hw
        exact ⟨r, hr, hid, hw, g, hg, rfl⟩
    rw [hout, hdb, List.mem_append, hids]
    unfold FoundBy
    simp only [List.exists_mem_cons_iff, and_or_left, exists_or, or_assoc]

/-- What a removal of what filters find leaves: the rows none of them finds. -/
structure Swept (filters : List ListFilter) (c c' : Catalog H) : Prop where
  rows : ∀ r, r ∈ c'.rows ↔ r ∈ c.rows ∧ ¬ FoundBy filters r
  sets : c'.featureSets = c.featureSets
  seq : c'.seq = c.seq

theorem Swept.refl_of {filters : List ListFilter} {c : Catalog H}
    (h : ∀ r ∈ c.rows, ¬ FoundBy filters r) : Swept filters c c :=
  ⟨fun r => ⟨fun hr => ⟨hr, h r hr⟩, And.left⟩, rfl, rfl⟩

/-- **Removing what filters find.**  It writes; when it succeeds, exactly the rows found are gone. -/
theorem removeExisting_spec {s : Store H B} (hs : s.Inv) {filters : List ListFilter}
    (hexact : Exact filters) :
    (removeExisting filters).wp (fun r s' =>
      (∃ s₁, (∃ w g, Store.Wrote s s₁ w g) ∧ (s' = s₁ ∨ ∃ w g, Store.Wrote s₁ s' w g)) ∧
        (∀ e, r = .error e → Store.Unchanged s s') ∧
        ∀ n, r = .ok n → Swept filters s.db s'.db) s := by
  unfold removeExisting
  rw [Cmd.wp_bind]
  refine Cmd.wp_mono (presentIds_spec filters hexact [] s) fun r s₁ h => ?_
  have hwrote : Store.Wrote s s₁ .empty .empty := h.wrote hs.toSound fun a db hP => by
    rw [hP.1]
    exact ⟨fun _ => rfl, .of_rows rfl fun _ h => h⟩
  cases r with
  | error e =>
    refine ⟨⟨s₁, ⟨_, _, hwrote⟩, Or.inl rfl⟩, fun _ _ => Store.Outcome.unchanged h.2.2, ?_⟩
    intro n hn
    cases hn
  | ok present =>
    obtain ⟨harrays, htxn, hl, hsp, hdb, hpresent⟩ := h
    have hfound : ∀ i, i ∈ present ↔ ∃ r ∈ s.db.rows, r.id = i ∧ FoundBy filters r := by
      intro i
      rw [hpresent i]
      simp
    simp only
    split
    · rename_i hnil
      refine ⟨⟨s₁, ⟨_, _, hwrote⟩, Or.inl rfl⟩, fun e he => (by cases he), fun n _ => ?_⟩
      rw [show (Cmd.exec (pure 0 : StoreCmd (Store H B) ℕ) s₁).2.db = s.db from hdb]
      apply Swept.refl_of
      intro r hr hf
      have := (hfound r.id).mpr ⟨r, hr, rfl, hf⟩
      rw [hnil] at this
      cases this
    · have hs₁ := hs.effect (.wrote _ _ hwrote)
      refine Cmd.wp_mono (Store.removeByIdsInner_spec hs₁.toSound present none) fun r s' hr => ?_
      obtain ⟨⟨g, hw⟩, hout⟩ := hr
      refine ⟨⟨s₁, ⟨_, _, hwrote⟩, Or.inr ⟨_, g, hw⟩⟩, fun e he => ?_, fun n hn => ?_⟩
      · rw [he] at hout
        have hout' := hout.rebase hl hsp
        exact Store.Outcome.unchanged (hout'.mono (fun _ _ h => h) fun db hd => hd.trans hdb)
      · rw [hn] at hout
        obtain ⟨-, -, -, hids⟩ := hout
        rw [show s'.db = _ from hids.rest, show s₁.db = s.db from hdb]
        refine ⟨fun r => ?_, rfl, rfl⟩
        unfold Catalog.deleteWhere
        rw [List.mem_filter, Bool.not_eq_true', decide_eq_false_iff_not]
        refine and_congr_right fun hr => not_congr ?_
        rw [hfound]
        constructor
        · rintro ⟨r', hr', hid, hf⟩
          have hsame := (rowById_eq_some.mpr ⟨hr', hid⟩).symm.trans (rowById_eq_some.mpr ⟨hr, rfl⟩)
          rw [Option.some.injEq] at hsame
          rw [← hsame]
          exact hf
        · exact fun hf => ⟨r, hr, rfl, hf⟩

/-! ### What a store holds of a request -/

/-- An id names a live association holding the series of a request. -/
def Holding (s : Store H B) (item : AddRequest) (id : ℤ) : Prop :=
  ∃ r ∈ s.db.rows, r.id = id ∧ Store.FiledAs item r ∧
    (∃ a, s.arrays.content r.dataHash = some a ∧
      (arrayHash a : H) = arrayHash item.data.fields.data) ∧
    ∀ x, r.timeSeriesType.isIrregular = true → r.timestampsHash = some x →
      ∃ ms, s.arrays.vector x = some ms ∧ FaithfulAxis x ms

/-- A row filed for a request holds the request's series. -/
theorem holding_of_filed {s : Store H B} (hs : s.Inv) {item : AddRequest} {r : AssociationRow H}
    (hr : r ∈ s.db.rows) (hfiled : Store.FiledAs item r) : Holding s item r.id := by
  have hhash : r.dataHash = arrayHash item.data.fields.data := by
    obtain ⟨p, hp, hr⟩ := hfiled
    obtain ⟨-, -, -, -, -, hh, -⟩ := buildRequestParts_ok hp
    rw [hr, ← hh, ← buildRequestParts_hash hp]
    rfl
  refine ⟨r, hr, rfl, hfiled, ?_, fun x hirr hx => ?_⟩
  · obtain ⟨a, ha⟩ := Option.isSome_iff_exists.mp (hs.holds.array ⟨r, hr, rfl⟩)
    exact ⟨a, ha, (hs.faithful ha).1.trans hhash⟩
  · obtain ⟨ms, hms⟩ := Option.isSome_iff_exists.mp (hs.holds.axis ⟨r, hr, hirr, hx⟩)
    exact ⟨ms, hms, hs.faithfulAxis hms⟩

/-- A series is present as it was before: its row, and the objects it names. -/
structure Carried (s s' : Store H B) (r : AssociationRow H) : Prop where
  row : r ∈ s'.db.rows
  array {a : TypedArray} : s.arrays.content r.dataHash = some a → s'.arrays.content r.dataHash = some a
  axis {x : H} {ms : List ℤ} :
    r.timestampsHash = some x → s.arrays.vector x = some ms → s'.arrays.vector x = some ms

end

end InfraStore.Cli
