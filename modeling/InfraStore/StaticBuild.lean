import InfraStore.StaticReads

/-!
# Static readers over a store

A static reader is built over the rows a filter selects, on a grid they share, a window of their grids,
a vector they share, or the breakpoints of all of them.

* `Catalog.selection`: what a listing selects, with and without the time axes;
* `staticReaderOver_built`: each column of a reader is a selected row, and lies on the reader's axis;
* `Store.static_reads_agree`: whatever reads came before, a read that succeeds shows for each column the
  row its series has at the instant, and one that fails shows nothing.
-/

namespace InfraStore

open Lib

/-! ### Selections -/

namespace Catalog

variable {H : Type} [DecidableEq H] [Sha256 H] [FloatText] [ToString H]

/-- A row of the catalog is one a listing asks for, and reads back as a record. -/
structure Selects (c : Catalog H) (vectors : H → Result (List DateTime)) (required : Option Features)
    (wher : AssociationRow H → Bool) (x : AssociationRow H × TimeSeriesMetadata H) : Prop where
  row : x.1 ∈ c.rows
  asked : wher x.1 = true
  hydrated : c.Hydrated vectors x.1 x.2
  features : required.all (isSubset · x.2.features) = true

omit [ToString H] in
theorem Hydrated.unique {c : Catalog H} {vectors : H → Result (List DateTime)} {r : AssociationRow H}
    {m m' : TimeSeriesMetadata H} (h : c.Hydrated vectors r m) (h' : c.Hydrated vectors r m') :
    m = m' := by
  have hparse := h.parse
  have hfetched := h.fetched
  have hfeatures := h.features
  rw [h'.parse, Except.ok.injEq] at hparse
  rw [h'.fetched, Except.ok.injEq] at hfetched
  rw [h'.features, Except.ok.injEq] at hfeatures
  have hfull : { m' with features := m.features, timestamps := m.timestamps } = m :=
    congrArg (fun x : TimeSeriesMetadata H =>
      { x with features := m.features, timestamps := m.timestamps }) hparse
  rw [← hfeatures, ← hfetched] at hfull
  exact hfull.symm

/-- **What a listing selects.**  Where every row reads back, a listing is of the rows asked for that have
the features required, each once, whether their time axes are read or only named. -/
theorem selection {c : Catalog H} {vectors : H → Result (List DateTime)}
    (hread : ∀ r ∈ c.rows, ∃ m, c.Hydrated vectors r m) (required : Option Features)
    (wher : AssociationRow H → Bool) :
    ∃ sel : List (AssociationRow H × TimeSeriesMetadata H),
      (∀ x, x ∈ sel ↔ c.Selects vectors required wher x) ∧ (sel.map fun x => x.1.id).Nodup ∧
        c.list (some vectors) required wher = .ok (sel.map Prod.snd) ∧
        c.listAxes required wher =
          .ok (sel.map fun x => ({ x.2 with timestamps := none }, x.1.timestampsHash)) := by
  obtain ⟨ms, hms⟩ := forall₂_of_exists fun r (hr : r ∈ c.rows.filter wher) =>
    hread r (List.mem_filter.mp hr).1
  let keep := fun x : AssociationRow H × TimeSeriesMetadata H => required.all (isSubset · x.2.features)
  have hfst : ((c.rows.filter wher).zip ms).map Prod.fst = c.rows.filter wher :=
    List.map_fst_zip hms.length_eq.le
  have hmem : ∀ x ∈ (c.rows.filter wher).zip ms, c.Hydrated vectors x.1 x.2 := fun x hx =>
    (List.forall₂_iff_zip.mp hms).2 hx
  refine ⟨((c.rows.filter wher).zip ms).filter keep, fun x => ⟨fun hx => ?_, fun hx => ?_⟩, ?_, ?_, ?_⟩
  · obtain ⟨hin, hkeep⟩ := List.mem_filter.mp hx
    obtain ⟨hrow, hasked⟩ := List.mem_filter.mp (List.of_mem_zip hin).1
    exact ⟨hrow, hasked, hmem x hin, hkeep⟩
  · have hrow : x.1 ∈ ((c.rows.filter wher).zip ms).map Prod.fst := by
      rw [hfst]
      exact List.mem_filter.mpr ⟨hx.row, hx.asked⟩
    obtain ⟨y, hy, hyx⟩ := List.mem_map.mp hrow
    have heq : y = x := Prod.ext hyx ((hyx ▸ hmem y hy).unique hx.hydrated)
    exact List.mem_filter.mpr ⟨heq ▸ hy, hx.features⟩
  · have hids : ((c.rows.filter wher).zip ms).map (fun x => x.1.id) =
        (c.rows.filter wher).map (·.id) := by
      have hmap := congrArg (List.map fun r : AssociationRow H => r.id) hfst
      rw [List.map_map] at hmap
      exact hmap
    have hnodup : ((c.rows.filter wher).map (·.id)).Nodup :=
      ((List.filter_sublist).map _).nodup (List.pairwise_map.mpr (c.ordered.imp fun h => ne_of_lt h))
    rw [← hids] at hnodup
    exact ((List.filter_sublist).map _).nodup hnodup
  · rw [list_hydrated hms]
    refine congrArg Except.ok ?_
    have hsnd : ((c.rows.filter wher).zip ms).map Prod.snd = ms := List.map_snd_zip hms.length_eq.ge
    conv_lhs => rw [← hsnd]
    rw [List.filter_map]
    rfl
  · unfold listAxes
    generalize c.rows.filter wher = rows at hms
    show (rows.mapM AssociationRow.parse >>= fun parsed => rows.mapM c.rowFeatures >>= fun features =>
      (rows.zip (parsed.zip ((rows.map fun _ => none).zip features))).mapM
        (Catalog.hydrate required false) >>= fun out => _) = _
    rw [mapM_forall₂ (fun r m hy => hy.parse) hms, mapM_forall₂ (fun r m hy => hy.features) hms]
    show (List.mapM (Catalog.hydrate required false) (rows.zip _) >>= fun out => _) = _
    rw [mapM_hydrate_rows_only hms required]
    refine congrArg Except.ok ?_
    clear hread hmem hfst
    induction hms with
    | nil => rfl
    | @cons r m rows ms _ _ ih =>
      rw [List.map_cons, List.zip_cons_cons, List.zip_cons_cons, List.filter_cons,
        List.filterMap_cons]
      cases required with
      | none => exact congrArg (List.cons _) ih
      | some f =>
        cases hsub : isSubset f m.features with
        | true =>
          simp only [keep, Option.any_some, Option.all_some, hsub] at ih ⊢
          exact congrArg (List.cons _) ih
        | false =>
          simp only [keep, Option.any_some, Option.all_some, hsub] at ih ⊢
          exact ih

end Catalog

/-! ### Columns on an axis -/

section

variable {H : Type} [Sha256 H]

theorem TimeSeriesMetadata.RowOf.single {m : TimeSeriesMetadata H} {d : TimeSeriesData}
    (h : m.RowOf d) (hk : m.timeSeriesType = .singleTimeSeries) : ∃ ss, d = .single ss ∧
      m.initialTimestamp = some ss.initialTimestamp ∧ m.resolution = some ss.resolution ∧
      m.length = some ss.data.length := by
  have hkind := h.kind
  rw [hk] at hkind
  cases d with
  | single ss => exact ⟨ss, rfl, h.start, h.resolution, h.length⟩
  | _ => cases hkind

theorem TimeSeriesMetadata.RowOf.nonSequential {m : TimeSeriesMetadata H} {d : TimeSeriesData}
    (h : m.RowOf d) (hk : m.timeSeriesType = .nonSequentialTimeSeries) :
    ∃ s, d = .nonSequential s ∧ m.timestamps = some s.timestamps := by
  have hkind := h.kind
  rw [hk] at hkind
  cases d with
  | nonSequential s => exact ⟨s, rfl, h.axis⟩
  | _ => cases hkind

theorem TimeSeriesMetadata.RowOf.persistent {m : TimeSeriesMetadata H} {d : TimeSeriesData}
    (h : m.RowOf d) (hk : m.timeSeriesType = .persistentTimeSeries) :
    ∃ ps, d = .persistent ps ∧ m.timestamps = some ps.timestamps := by
  have hkind := h.kind
  rw [hk] at hkind
  cases d with
  | persistent ps => exact ⟨ps, rfl, h.axis⟩
  | _ => cases hkind

omit [Sha256 H] in
theorem gridOf_ok {m : TimeSeriesMetadata H} {g : DateTime × Period × ℕ} (h : gridOf m = .ok g) :
    m.timeSeriesType = .singleTimeSeries ∧ m.initialTimestamp = some g.1 ∧
      m.resolution = some g.2.1 ∧ m.length = some g.2.2 := by
  unfold gridOf at h
  simp only at h
  split at h
  · cases h
  · rename_i hkind
    simp only [except_bind_eq_ok] at h
    obtain ⟨initial, hinitial, resolution, hresolution, length, hlength, h⟩ := h
    cases h
    exact ⟨not_not.mp hkind, required_ok hinitial, required_ok hresolution, required_ok hlength⟩

/-- A listing of one grid: each of its series has the grid of the axis. -/
theorem regularTimeline_carries {rows : List (TimeSeriesMetadata H)} {t : Timeline}
    (h : regularTimeline rows = .ok t) {m : TimeSeriesMetadata H} (hm : m ∈ rows)
    {d : TimeSeriesData} (hrow : m.RowOf d) [FloatText] (hd : d.Accepted) (companion : ℕ) :
    t.Carries .shared companion d := by
  unfold regularTimeline at h
  split at h
  · cases hm
  · obtain ⟨grid, -, h⟩ := except_bind_eq_ok.mp h
    obtain ⟨_, hall, h⟩ := except_bind_eq_ok.mp h
    cases h
    have hgrid := forM_ok hall m hm
    obtain ⟨g, hg, hsame⟩ := except_bind_eq_ok.mp hgrid
    split at hsame
    · cases hsame
    · rename_i heq
      obtain ⟨hkind, h1, h2, h3⟩ := gridOf_ok hg
      obtain ⟨ss, rfl, i1, i2, i3⟩ := hrow.single hkind
      rw [h1, Option.some.injEq] at i1
      rw [h2, Option.some.injEq] at i2
      rw [h3, Option.some.injEq, ← hd.single.2.1] at i3
      rw [← not_not.mp heq, i1, i2, i3]
      exact .grid ss companion

omit [Sha256 H] in
theorem placeAnchor_ok {resolution : Period} {anchor : DateTime} {zoneless : Bool}
    {m : TimeSeriesMetadata H} {c : TimeSeriesMetadata H × ℕ}
    (h : placeAnchor resolution anchor zoneless m = .ok c) : c.1 = m ∧
      ∃ initial, m.initialTimestamp = some initial ∧ resolution.addTo initial c.2 = some anchor := by
  unfold placeAnchor at h
  obtain ⟨_, -, h⟩ := except_bind_eq_ok.mp h
  cases ht : m.initialTimestamp with
  | none =>
    rw [ht] at h
    cases h
  | some initial =>
    rw [ht] at h
    obtain ⟨_, hinitial, h⟩ := except_bind_eq_ok.mp h
    cases hinitial
    dsimp only at h
    split at h
    · rename_i offset hsteps
      cases h
      exact ⟨rfl, initial, rfl, Period.stepsBetween_ok hsteps⟩
    · cases h

/-- A window of a listing: each of its series covers it from the anchor on, on its own instants. -/
theorem windowTimeline_carries {rows : List (TimeSeriesMetadata H)} {resolution : Period}
    {anchor : DateTime} {zoneless : Bool} {len : Option ℕ}
    {x : Timeline × List (TimeSeriesMetadata H × ℕ)}
    (h : windowTimeline rows resolution anchor zoneless len = .ok x) :
    x.2.map Prod.fst = rows ∧ ∀ c ∈ x.2, checkColumn x.1 .offset c = .ok () →
      c.1.resolution = some resolution → ∀ (d : TimeSeriesData), c.1.RowOf d → ∀ [FloatText],
        d.Accepted → x.1.Carries .offset c.2 d := by
  unfold windowTimeline at h
  simp only at h
  split at h
  · cases h
  · obtain ⟨placed, hplaced, h⟩ := except_bind_eq_ok.mp h
    split at h
    · cases h
    · obtain ⟨_, hanchored, h⟩ := except_bind_eq_ok.mp h
      cases h
      constructor
      · rw [← List.forall₂_eq_eq_eq, List.forall₂_map_left_iff]
        exact (mapM_eq_ok.mp hplaced).flip.imp fun c m hc => (placeAnchor_ok hc).1
      · intro c hc hcheck hres d hrow _ hd
        obtain ⟨m, -, hm⟩ := mapM_origin hplaced hc
        obtain ⟨rfl, initial, hinitial, hoffset⟩ := placeAnchor_ok hm
        have hanchor := forM_ok hanchored c hc
        simp only [hinitial] at hanchor
        unfold checkColumn at hcheck
        simp only at hcheck
        split at hcheck
        · cases hcheck
        · rename_i hkind
          rw [if_pos trivial] at hcheck
          split at hcheck
          · cases hcheck
          · rename_i hcover
            obtain ⟨ss, rfl, i1, i2, i3⟩ := hrow.single (not_not.mp hkind)
            rw [hres, Option.some.injEq] at i2
            rw [hinitial, Option.some.injEq] at i1
            rw [i3] at hcover
            subst i1 i2
            refine .window ss anchor _ _ hoffset ?_ ?_
            · rw [hd.single.2.1]
              have hlen : c.2 + _ ≤ ss.data.length := not_lt.mp (not_or.mp hcover).1
              exact hlen
            · by_contra hno
              rw [if_neg hno] at hanchor
              cases hanchor

omit [Sha256 H] in
theorem checkColumn_kind {t : Timeline} {role : ColumnRole} {c : TimeSeriesMetadata H × ℕ}
    (h : checkColumn t role c = .ok ()) : c.1.timeSeriesType = t.timeSeriesType := by
  unfold checkColumn at h
  simp only at h
  split at h
  · cases h
  · rename_i hkind
    exact not_not.mp hkind

end

section

variable {H : Type} [DecidableEq H] [Sha256 H] [FloatText] [ToString H]
  {db : Catalog H} {vectors : H → Result (List DateTime)} {required : Option Features}
  {wher : AssociationRow H → Bool} {sel : List (AssociationRow H × TimeSeriesMetadata H)}

omit [ToString H] in
/-- The vector a selected row of an irregular series names is the series' own. -/
theorem Catalog.Selects.axis {x : AssociationRow H × TimeSeriesMetadata H}
    (hx : db.Selects vectors required wher x) {ts : List DateTime} (h : x.2.timestamps = some ts) :
    ∃ hash, x.1.timestampsHash = some hash ∧ vectors hash = .ok ts := by
  rcases hx.hydrated.axis with ⟨-, hnone⟩ | ⟨hash, ts', hnames, hread, hts⟩
  · rw [hnone] at h
    cases h
  · rw [hts, Option.some.injEq] at h
    exact ⟨hash, hnames, h ▸ hread⟩

/-- A reader was built over a selection: each column is a selected row, whose series lies on the axis. -/
def StaticReader.BuiltOver (sel : List (AssociationRow H × TimeSeriesMetadata H))
    (r : StaticReader H) : Prop :=
  ∃ role columns, buildGroupsInner r.timeline columns role = .ok r ∧
    ((∃ vectors union, r.timeline = .persistent vectors union) → role = .vector) ∧
      List.Forall₂ (fun x c => c.1 = { x.2 with timestamps := c.1.timestamps } ∧
        ∀ d, x.2.RowOf d → d.Accepted → r.timeline.Carries role c.2 d) sel columns

omit [DecidableEq H] [ToString H] in
/-- What holds of every selected row with its column, once the checks of the build have passed. -/
theorem StaticReader.BuiltOver.of_columns {r : StaticReader H} {t : Timeline}
    {columns : List (TimeSeriesMetadata H × ℕ)} {role : ColumnRole}
    (h : buildGroupsInner t columns role = .ok r)
    (hrole : (∃ vectors union, t = .persistent vectors union) → role = .vector)
    (hall : List.Forall₂ (fun x c => c.1 = { x.2 with timestamps := c.1.timestamps } ∧
      (checkColumn t role c = .ok () → ∀ d, x.2.RowOf d → d.Accepted → t.Carries role c.2 d))
      sel columns) : r.BuiltOver sel := by
  have ht := (buildGroupsInner_timeline h).1
  have hchecked := (buildGroupsInner_ok h).1
  refine ⟨role, columns, ht ▸ h, ht ▸ hrole, ?_⟩
  rw [ht]
  have hmem := (List.forall₂_and_left _ _).mpr ⟨fun c hc => hc, hall.flip⟩
  exact hmem.flip.imp fun x c hxc => ⟨hxc.2.1, hxc.2.2 (hchecked c hxc.1)⟩

variable [Glob] {f : MetadataFilter H} {filter : ListFilter} {window : ReadWindow} {r : StaticReader H}

omit [ToString H] in
/-- The rows asked for at a resolution read back with it. -/
theorem Catalog.Selects.resolution {x : AssociationRow H × TimeSeriesMetadata H}
    (hx : db.Selects vectors (filter.toFilter (H := H)).features
      filter.toFilter.holds x) {p : Period}
    (hp : filter.resolution = some p) (hwhole : p.wholeMillis = p) : x.2.resolution = some p := by
  have hasked := hx.asked
  unfold MetadataFilter.holds at hasked
  simp only [Bool.and_eq_true] at hasked
  have hres : periodHolds x.1.resolution none filter.resolution = true := hasked.1.1.1.1.2
  rw [hp] at hres
  have htext : x.1.resolution = some p.toIso8601 := of_decide_eq_true hres
  have hparse := hx.hydrated.parse
  unfold AssociationRow.parse at hparse
  simp only [except_bind_eq_ok] at hparse
  obtain ⟨_, -, _, -, _, -, _, -, _, -, q, hq, _, -, _, -, hparse⟩ := hparse
  rw [htext] at hq
  have hmeta : x.2.resolution = q :=
    (congrArg TimeSeriesMetadata.resolution (Except.ok.inj hparse)).symm
  rw [hmeta]
  show q = some p
  have hparsed : AssociationRow.parsePeriod 8 p.toIso8601 = .ok p := by
    unfold AssociationRow.parsePeriod
    rw [Period.fromIso8601_toIso8601, hwhole]
  have hq' : (AssociationRow.parsePeriod 8 p.toIso8601).map some = .ok q := hq
  rw [hparsed] at hq'
  exact (Except.ok.inj hq').symm

theorem buildRegularReader_built (hwhole : ∀ p, filter.resolution = some p → p.wholeMillis = p)
    (hlist : db.listFilter (some vectors) filter.toFilter = .ok (sel.map Prod.snd))
    (hsel : ∀ x ∈ sel, db.Selects vectors (filter.toFilter (H := H)).features
      filter.toFilter.holds x)
    (h : Store.buildRegularReader db vectors filter window = .ok r) : r.BuiltOver sel := by
  unfold Store.buildRegularReader at h
  split at h
  · cases h
  · rename_i resolution hres
    obtain ⟨rows, hrows, h⟩ := except_bind_eq_ok.mp h
    rw [hlist, Except.ok.injEq] at hrows
    subst hrows
    split at h
    · obtain ⟨t, ht, h⟩ := except_bind_eq_ok.mp h
      refine .of_columns h ?_ ?_
      · rintro ⟨_, _, rfl⟩
        obtain ⟨_, _, _, hregular⟩ := regularTimeline_ok ht
        cases hregular
      · rw [List.map_map, List.forall₂_map_right_iff, List.forall₂_same]
        intro x hx
        exact ⟨rfl, fun _ d hrow hd =>
          regularTimeline_carries ht (List.mem_map_of_mem hx) hrow hd 0⟩
    · obtain ⟨placed, hplaced, h⟩ := except_bind_eq_ok.mp h
      obtain ⟨hfst, hcarries⟩ := windowTimeline_carries hplaced
      refine .of_columns h ?_ ?_
      · rintro ⟨_, _, hp⟩
        obtain ⟨_, hregular⟩ := windowTimeline_ok hplaced
        rw [hregular] at hp
        cases hp
      · rw [← List.forall₂_eq_eq_eq, List.forall₂_map_left_iff, List.forall₂_map_right_iff] at hfst
        have hmem := (List.forall₂_and_left _ _).mpr ⟨fun c hc => hc, hfst⟩
        have hmem' := (List.forall₂_and_left _ _).mpr ⟨hsel, hmem.flip⟩
        refine hmem'.imp fun x c hxc => ?_
        obtain ⟨hx, hc, hcx⟩ := hxc
        refine ⟨by rw [hcx], fun hcheck d hrow hd => ?_⟩
        rw [← hcx] at hrow
        refine hcarries c hc hcheck ?_ d hrow hd
        rw [hcx]
        exact hx.resolution hres (hwhole _ hres)

theorem buildIrregularReader_built
    (hlist : db.listAxes (filter.toFilter (H := H)).features filter.toFilter.holds =
      .ok (sel.map fun x => ({ x.2 with timestamps := none }, x.1.timestampsHash)))
    (hsel : ∀ x ∈ sel, db.Selects vectors required wher x)
    (h : Store.buildIrregularReader db vectors filter = .ok r) : r.BuiltOver sel := by
  unfold Store.buildIrregularReader Catalog.listTimelineCohorts at h
  simp only at h
  split at h
  · cases h
  · rw [hlist] at h
    obtain ⟨listed, hlisted, h⟩ := except_bind_eq_ok.mp h
    cases hlisted
    split at h
    · rename_i hash hone
      obtain ⟨ts, hts, h⟩ := except_bind_eq_ok.mp h
      refine .of_columns h ?_ ?_
      · rintro ⟨_, _, hp⟩
        cases hp
      · rw [List.map_map, List.map_map, List.forall₂_map_right_iff, List.forall₂_same]
        intro x hx
        refine ⟨rfl, fun hcheck d hrow _ => ?_⟩
        obtain ⟨s, rfl, hs⟩ := hrow.nonSequential (checkColumn_kind hcheck)
        obtain ⟨hash', hnames, hread⟩ := (hsel x hx).axis hs
        have hin : hash' ∈ Catalog.cohorts
            (sel.map fun x => ({ x.2 with timestamps := none }, x.1.timestampsHash)) := by
          unfold Catalog.cohorts
          rw [List.mem_eraseDups, List.mem_filterMap]
          exact ⟨_, List.mem_map_of_mem hx, hnames⟩
        rw [show Catalog.cohorts _ = [hash] from hone, List.mem_singleton] at hin
        rw [hin, hts, Except.ok.injEq] at hread
        rw [hread]
        exact .cohort s 0
    · cases h
    · cases h

theorem buildPersistentReader_built
    (hlist : db.listAxes (filter.toFilter (H := H)).features filter.toFilter.holds =
      .ok (sel.map fun x => ({ x.2 with timestamps := none }, x.1.timestampsHash)))
    (hsel : ∀ x ∈ sel, db.Selects vectors required wher x)
    (h : Store.buildPersistentReader db vectors filter = .ok r) : r.BuiltOver sel := by
  unfold Store.buildPersistentReader Catalog.listTimelineRows at h
  simp only at h
  split at h
  · cases h
  · rw [hlist] at h
    obtain ⟨listed, hlisted, h⟩ := except_bind_eq_ok.mp h
    simp only [except_bind_eq_ok] at hlisted
    obtain ⟨rows, hrows, out, hout, decoded, hdecoded, hlisted⟩ := hlisted
    cases hrows
    cases hlisted
    split at h
    · cases h
    · refine .of_columns h (fun _ => rfl) ?_
      have hall := mapM_eq_ok.mp hout
      rw [List.forall₂_map_left_iff] at hall
      refine ((List.forall₂_and_left _ _).mpr ⟨hsel, hall⟩).imp fun x c hxc => ?_
      obtain ⟨hx, hc⟩ := hxc
      split at hc
      · rename_i v hv
        cases hc
        refine ⟨rfl, fun hcheck d hrow _ => ?_⟩
        obtain ⟨ps, rfl, hps⟩ := hrow.persistent (checkColumn_kind hcheck)
        obtain ⟨hash, hnames, hread⟩ := hx.axis hps
        rw [hnames, Option.bind_some] at hv
        obtain ⟨hlt, hget, -⟩ := List.idxOf?_eq_some_iff.mp hv
        refine .steps ps _ _ v ?_
        obtain ⟨hlen, hvec⟩ := List.forall₂_iff_get.mp (mapM_eq_ok.mp hdecoded)
        have hdec := hvec v hlt (hlen ▸ hlt)
        simp only [List.get_eq_getElem] at hdec
        rw [hget, hread, Except.ok.injEq] at hdec
        exact List.getElem?_eq_some_iff.mpr ⟨hlen ▸ hlt, hdec.symm⟩
      · cases hc

/-- What a caller's filter asks of a static reader's listing. -/
def ListFilter.forStatic (filter : ListFilter) : ListFilter :=
  { filter with timeSeriesType := some (filter.timeSeriesType.getD .singleTimeSeries) }

/-- **A static reader** is built over the rows its filter selects. -/
theorem staticReaderOver_built (hread : ∀ r ∈ db.rows, ∃ m, db.Hydrated vectors r m)
    (hwhole : ∀ p, filter.resolution = some p → p.wholeMillis = p)
    (h : Store.staticReaderOver db vectors filter window = .ok r) :
    ∃ sel, (∀ x, x ∈ sel ↔ db.Selects vectors (filter.forStatic.toFilter (H := H)).features
        filter.forStatic.toFilter.holds x) ∧
      (sel.map fun x => x.1.id).Nodup ∧ r.BuiltOver sel := by
  obtain ⟨sel, hsel, hnodup, hlist, haxes⟩ := Catalog.selection hread
    (filter.forStatic.toFilter (H := H)).features filter.forStatic.toFilter.holds
  refine ⟨sel, hsel, hnodup, ?_⟩
  have hselects := fun x (hx : x ∈ sel) => (hsel x).mp hx
  unfold Store.staticReaderOver at h
  simp only at h
  obtain ⟨_, -, h⟩ := except_bind_eq_ok.mp h
  split at h
  · refine buildRegularReader_built ?_ hlist hselects h
    exact hwhole
  · refine buildIrregularReader_built ?_ hselects h
    exact haxes
  · refine buildPersistentReader_built ?_ hselects h
    exact haxes
  · cases h

end

/-! ### Reads of a store's readers -/

/-- One read of a reader: the instant, and the reads of the store, each group's its own. -/
structure ReaderCall (H : Type) where
  at_ : DateTime
  reads : ℕ → RowReader H

/-- A reader after some reads. -/
def StaticReader.after {H : Type} (r : StaticReader H) (calls : List (ReaderCall H)) :
    StaticReader H := Cmd.runs (fun c => StaticReader.readBy c.at_ c.reads) calls r

theorem StaticReader.after_bare {H : Type} (r : StaticReader H) (calls : List (ReaderCall H)) :
    (r.after calls).bare = r.bare := by
  induction calls generalizing r with
  | nil => rfl
  | cons c calls ih => exact (ih _).trans (StaticReader.frame_readBy c.at_ c.reads r)

theorem Timeline.timeSeriesType_static (t : Timeline) :
    t.timeSeriesType ≠ .deterministicSingleTimeSeries := by
  cases t with
  | _ => exact fun h => by cases h

theorem buildGroupsInner_ne_nil {H : Type} {t : Timeline} {rows : List (TimeSeriesMetadata H × ℕ)}
    {role : ColumnRole} {r : StaticReader H} (h : buildGroupsInner t rows role = .ok r) : rows ≠ [] := by
  rintro rfl
  cases h

/-- The ids of a reader's groups are those of its columns, in another order. -/
theorem StaticReader.ids_perm {H : Type} {role : ColumnRole}
    {runs : List (List (TimeSeriesMetadata H × ℕ))} {groups : List (StaticGroup H)}
    (h : List.Forall₂ (StaticGroup.Of role) runs groups) :
    runs.flatten.map (fun c => c.1.id) = (groups.flatMap (·.ids)).map some := by
  induction h with
  | nil => rfl
  | cons hg _ ih => rw [List.flatten_cons, List.map_append, hg.ids, ih, List.flatMap_cons, List.map_append]

/-- A reader exposes, for each of its columns, what its series has at an instant. -/
def StaticReader.Shows {H : Type} (r : StaticReader H) (series : List (List TimeSeriesData))
    (x : DateTime) : Prop :=
  List.Forall₂ (fun ds (g : StaticGroup H) =>
    ∃ rows, List.Forall₂ (fun (d : TimeSeriesData) k => d.ShownAt x k) ds rows ∧
      g.values = (ds.zip rows).flatMap fun y => y.1.fields.data.row y.2) series r.groups

namespace Store

section

variable {H B : Type} [DecidableEq H] [Sha256 H] [FloatText] [ToString H] [Glob] [ArrayBackend H B]
  [LawfulArrayBackend H B] [LawfulReads H B] [LawfulBulkReads H B]

/-- **Static readers agree with reads by id.**  A reader built over a store has a column for each row its
filter selects, and no other.  Whatever reads came before it, a read that succeeds shows for every column
the row that the series a read by id gives has at the instant, or of a step function the row in force,
and one that fails leaves nothing to see.  A read of the store itself succeeds at the instants of the
reader's axis, and only there. -/
theorem static_reads_agree {U : Set Features} {T : Set (List DateTime)} {A : Set TypedArray}
    (hU : Set.InjOn (featuresHash (H := H)) U) (hempty : Features.empty ∈ U)
    (hs : ∀ f ∈ U, f.Storable) (hT : Set.InjOn (timestampsHash (H := H)) T)
    (hmillis : ∀ ts ∈ T, ∀ t ∈ ts, t.IsMillis) (hA : Set.InjOn (arrayHash (H := H)) A)
    {s : Store H B} (h : s.ReachableBy (SourcedTurn U T A)) {filter : ListFilter}
    {window : ReadWindow} (hwhole : ∀ p, filter.resolution = some p → p.wholeMillis = p)
    {r : StaticReader H} (hr : staticReaderOver s.db (ArrayBackend.getTimestamps s.arrays.backend)
      filter window = .ok r) :
    ((r.groups.flatMap (·.ids)).Nodup ∧ ∀ id, id ∈ r.groups.flatMap (·.ids) ↔
      ∃ x, s.db.Selects (ArrayBackend.getTimestamps s.arrays.backend)
        (filter.forStatic.toFilter (H := H)).features filter.forStatic.toFilter.holds x ∧
          x.1.id = id) ∧
    ∃ series : List (List TimeSeriesData),
      List.Forall₂ (fun (g : StaticGroup H) ds => List.Forall₂ (fun id d =>
        ((readById id none .full).exec (s.arm [])).1 = .ok d) g.ids ds) r.groups series ∧
      ∀ calls : List (ReaderCall H),
        (∀ call : ReaderCall H, (∀ i, FairRows B A (call.reads i)) →
          (∀ r', (StaticReader.readBy call.at_ call.reads).exec (r.after calls) = (.ok (), r') →
            r'.Shows series call.at_) ∧
          ∀ e r', (StaticReader.readBy call.at_ call.reads).exec (r.after calls) = (.error e, r') →
            ∀ g ∈ r'.groups, g.values = []) ∧
        ∀ x, (∃ r', (s.arrays.staticRead x).exec (r.after calls) = (.ok (), r')) ↔
          r.timeline.Covers x := by
  have hrestoring := (h.mono fun _ _ h => h.restorable).restoring hU hempty hs
  have hinv := h.reachable.inv
  have hread : ∀ r ∈ s.db.rows, ∃ m, s.db.Hydrated
      (ArrayBackend.getTimestamps s.arrays.backend) r m := by
    intro r hr
    obtain ⟨m, hm⟩ := hrestoring.readsRow hU hempty hs hr
    exact ⟨m, hm.2⟩
  obtain ⟨sel, hsel, hnodup, role, columns, hbuilt, hvector, hcolumns⟩ :=
    staticReaderOver_built hread hwhole hr
  obtain ⟨hchecked, -, runs, hperm, hgroups⟩ := buildGroupsInner_ok hbuilt
  have hof : r.Of role runs := ⟨hgroups, hvector⟩
  -- each column is one of a series that is held, and read by its id
  have hcol : ∀ c ∈ columns, ∃ d : TimeSeriesData, (c.1.ColumnOf A d ∧
      r.timeline.Carries role c.2 d) ∧ ∀ id, c.1.id = some id →
        ((readById id none .full).exec (s.arm [])).1 = .ok d := by
    intro c hc
    obtain ⟨x, hx, hrec, hcarries⟩ := Catalog.forall₂_mem_right hcolumns hc
    have hselects := (hsel x).mp hx
    have hreads : s.ReadsAs x.1 x.2 := ⟨hselects.row, hselects.hydrated⟩
    have hrow := h.sourced hU hempty hs hT hmillis _ List.mem_cons_self x.1 hselects.row
    have hkind : x.2.timeSeriesType = r.timeline.timeSeriesType := by
      rw [← checkColumn_kind (hchecked c hc), hrec]
    cases hreads.sourced hU hempty hs hT hmillis hrestoring hrow with
    | written d row accepted shape data =>
      have hstores : s.arrays.Stores x.2 d :=
        ⟨hinv.valid, row, accepted, content_of_hash hA hinv h.arrays_given hreads data row.hash⟩
      refine ⟨d, ⟨?_, hcarries d row accepted⟩, fun id hid => ?_⟩
      · rw [hrec]
        refine ⟨row.hash, ?_, shape, accepted, data⟩
        exact congrArg SeriesFields.elementType (row.described d.fields.data d.fields.elementType)
      · rw [hrec, hselects.hydrated.id, Option.some.injEq] at hid
        rw [← hid]
        exact (readById_full hreads).trans hstores.materialize_full
    | derived ss horizon plan hh k view data =>
      rw [view.kind] at hkind
      exact absurd hkind.symm (Timeline.timeSeriesType_static _)
  have hrun : ∀ run ∈ runs, ∀ c ∈ run, c ∈ columns := fun run hrun c hc =>
    hperm.mem_iff.mp (List.mem_flatten.mpr ⟨run, hrun, hc⟩)
  obtain ⟨series, hseries⟩ := Catalog.forall₂_of_exists fun run (hr : run ∈ runs) =>
    Catalog.forall₂_of_exists fun c (hc : c ∈ run) => hcol c (hrun run hr c hc)
  have hcarried := hseries.imp fun run ds hrd => hrd.imp fun c d hcd => hcd.1
  have hheld : ∀ run ∈ runs, ∀ c ∈ run, ∀ d, c.1.ColumnOf A d →
      s.arrays.content c.1.dataHash = some d.fields.data := by
    intro run hr c hc d hd
    obtain ⟨x, hx, hrec, -⟩ := Catalog.forall₂_mem_right hcolumns (hrun run hr c hc)
    have hselects := (hsel x).mp hx
    rw [hrec] at hd ⊢
    exact content_of_hash hA hinv h.arrays_given ⟨hselects.row, hselects.hydrated⟩ hd.data hd.hash
  constructor
  · have hids : (r.groups.flatMap (·.ids)).Perm (sel.map fun x => x.1.id) := by
      have hcols : columns.map (fun c => c.1.id) = (sel.map fun x => x.1.id).map some := by
        rw [← List.forall₂_eq_eq_eq, List.forall₂_map_left_iff, List.map_map,
          List.forall₂_map_right_iff]
        exact ((List.forall₂_and_left _ _).mpr ⟨fun x hx => (hsel x).mp hx, hcolumns⟩).flip.imp
          fun c x hxc => by rw [hxc.2.1]; exact hxc.1.hydrated.id
      have hp := hperm.map fun c => c.1.id
      rw [StaticReader.ids_perm hgroups, hcols] at hp
      have := hp.filterMap id
      rwa [List.filterMap_map, List.filterMap_map, Function.id_comp, List.filterMap_some,
        List.filterMap_some] at this
    refine ⟨hids.nodup_iff.mpr hnodup, fun id => ?_⟩
    rw [hids.mem_iff, List.mem_map]
    exact exists_congr fun x => and_congr_left fun _ => hsel x
  · refine ⟨series, ?_, fun calls => ?_⟩
    · refine Catalog.forall₂_comp (fun g run ds hg hrd => ?_) hgroups.flip hseries
      have hids : List.Forall₂ (fun id c => c.1.id = some id) g.ids run := by
        have := hg.ids
        rw [← List.forall₂_eq_eq_eq, List.forall₂_map_left_iff, List.forall₂_map_right_iff] at this
        exact this.flip
      exact Catalog.forall₂_comp (fun id c d hid hcd => hcd.2 id hid) hids hrd
    · have hafter := hof.of_bare (r.after_bare calls)
      have ht : (r.after calls).timeline = r.timeline := by
        have := congrArg StaticReader.timeline (r.after_bare calls)
        exact this
      have hruns : runs ≠ [] := by
        rintro rfl
        exact buildGroupsInner_ne_nil hbuilt hperm.nil_eq.symm
      refine ⟨fun call hfair => ⟨fun r' hr' => ?_, fun e r' hr' => StaticReader.readBy_error hr'⟩,
        fun x => ⟨fun hok => ?_, fun hx => ?_⟩⟩
      · obtain ⟨hholds, -⟩ := StaticReader.readBy_holds hafter hr'
        refine Catalog.forall₂_comp (fun ds run g hrd hg => ?_) hcarried.flip hholds
        exact hg.exposes hA hfair (ht ▸ hrd)
      · obtain ⟨r', hr'⟩ := hok
        have hr' : (StaticReader.readBy x fun _ => s.arrays.rowReader).exec (r.after calls) =
            (.ok (), r') := by
          rw [StaticReader.readBy_const]
          exact hr'
        obtain ⟨hholds, hall⟩ := StaticReader.readBy_holds hafter hr'
        obtain ⟨run, hrun⟩ := List.exists_mem_of_ne_nil _ hruns
        obtain ⟨g, -, hg⟩ := Catalog.forall₂_mem_right hholds.flip hrun
        obtain ⟨ds, -, hrd⟩ := Catalog.forall₂_mem_right hcarried.flip hrun
        obtain ⟨c, hc⟩ := List.exists_mem_of_ne_nil _ hg.built.nonempty
        obtain ⟨d, -, hcd⟩ := Catalog.forall₂_mem_right hrd.flip hc
        obtain ⟨_, _, _, row, -, -, hrow⟩ := hg.answered
        rw [ht] at hrow hall
        exact hcd.2.covers hcd.1.accepted (hrow c hc) hall
      · obtain ⟨r', hr'⟩ := hafter.read_total hruns hinv.valid (x := x)
          (fun run hr => by
            obtain ⟨ds, -, hrd⟩ := Catalog.forall₂_mem_right hcarried.flip hr
            exact ⟨ds, ht ▸ hrd⟩) hheld (ht ▸ hx)
        exact ⟨r', StaticReader.read_total hr'⟩

end

/-! ### A reader of one series -/

namespace Sample

/-- What a reader over the series of two steps is built to. -/
def sevensReader : Result (StaticReader Digest) :=
  staticReaderOver viewed.db (ArrayBackend.getTimestamps viewed.arrays.backend)
    { resolution := some hour } .full

theorem sevensReader_built : (sevensReader.map fun r => (r.timeline, r.groups.map (·.ids))) =
    .ok (.regular .epoch hour 2, [[1]]) := by decide +kernel

/-- The series is read at its two instants and at no other, whatever was read before. -/
theorem static_reads_agree_sevens : ∃ r, sevensReader = .ok r ∧ ∀ (calls : List (ReaderCall Digest)) x,
    (∃ r', (viewed.arrays.staticRead x).exec (r.after calls) = (.ok (), r')) ↔
      ∃ k < 2, hour.addTo .epoch (k : ℕ) = some x := by
  have hb := sevensReader_built
  cases hr : sevensReader with
  | error e =>
    rw [hr] at hb
    cases hb
  | ok r =>
    rw [hr] at hb
    have ht : r.timeline = .regular .epoch hour 2 := congrArg Prod.fst (Except.ok.inj hb)
    obtain ⟨-, _, -, hreads⟩ := static_reads_agree tags_injOn (Or.inl rfl) tags_storable
      (fun _ h => (Set.notMem_empty _ h).elim) (fun _ h => (Set.notMem_empty _ h).elim)
      (Set.injOn_singleton _ _) viewed_reachable (fun p hp => by cases hp; rfl) hr
    refine ⟨r, rfl, fun calls x => ?_⟩
    have hcovers := (hreads calls).2 x
    rw [ht] at hcovers
    exact hcovers

end Sample

end Store

end InfraStore
