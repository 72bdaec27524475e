import InfraStore.Exclusivity
import InfraStore.Views

/-!
# Every row reads back

A row was filed for a series that was written, or for the windows of one; and the array it names is the
one that series was written with.  So every row of a store can be read whole, and gives its series back.

* `TimeSeriesMetadata.Sourced`: the series a record stands for, among arrays given;
* `Store.FilesExactly`: the records an operation may file, a transform the views it derives;
* `ReachableBy.rows_exactly`: a property of rows that every such filing establishes is one of all rows;
* `every_row_reads`: the theorem.
-/

namespace InfraStore

open Lib Connection

section

set_option linter.unusedSectionVars false

variable {H : Type} [DecidableEq H] [Sha256 H] [FloatText]

/-! ### The series of a record -/

/-- A record is that of a series whose array is one of `A`, or the view of such a series. -/
inductive TimeSeriesMetadata.Sourced (A : Set TypedArray) (m : TimeSeriesMetadata H) : Prop
  | written (d : TimeSeriesData) (row : m.RowOf d) (accepted : d.Accepted)
      (shape : m.elementShape = d.fields.data.elementShape) (data : d.fields.data ∈ A)
  | derived (ss : SingleTimeSeries) (horizon : Period) (plan : GridPlan) (h k : ℕ)
      (view : m.ViewOf ss horizon plan h k) (data : ss.data ∈ A)

/-- A series under another name. -/
def TimeSeriesData.renamed (d : TimeSeriesData) (name : String) : TimeSeriesData :=
  d.mapFields fun f => { f with name }

theorem TimeSeriesData.Accepted.renamed {d : TimeSeriesData} (h : d.Accepted) (name : String) :
    (d.renamed name).Accepted := by
  obtain ⟨hdata, helement⟩ := h
  cases d <;> exact ⟨hdata, helement⟩

theorem TimeSeriesMetadata.RowOf.renamed {m : TimeSeriesMetadata H} {d : TimeSeriesData}
    (h : m.RowOf d) (owner : ℤ) (ownerType name : String) (id : Option ℤ) :
    TimeSeriesMetadata.RowOf { m with ownerId := owner, ownerType, name, id } (d.renamed name) := by
  have hdescribed : ∀ (y : TypedArray) (e : ElementType),
      TimeSeriesMetadata.describe { m with ownerId := owner, ownerType, name, id }
        (bareFields y name e) = { (d.renamed name).fields with data := y } := by
    intro y e
    have hname := congrArg (fun f : SeriesFields => { f with name }) (h.described y e)
    cases d <;> exact hname
  cases d <;> exact
    { kind := h.kind, hash := h.hash, length := h.length, start := h.start
      resolution := h.resolution, horizon := h.horizon, interval := h.interval, count := h.count
      axis := h.axis, levels := h.levels, described := hdescribed }

theorem TimeSeriesMetadata.Sourced.renamed {A : Set TypedArray} {m : TimeSeriesMetadata H}
    (h : m.Sourced A) (owner : ℤ) (ownerType name : String) (id : Option ℤ) :
    TimeSeriesMetadata.Sourced A { m with ownerId := owner, ownerType, name, id } := by
  cases h with
  | written d row accepted shape data =>
    refine .written (d.renamed name) (row.renamed owner ownerType name id) (accepted.renamed name) ?_ ?_
    · cases d <;> exact shape
    · cases d <;> exact data
  | derived ss horizon plan h k view data =>
    exact .derived ss horizon plan h k (view.renamed owner ownerType name id) data

/-- The features of a record are none of what it says of its series. -/
theorem TimeSeriesMetadata.Sourced.featured {A : Set TypedArray} {m : TimeSeriesMetadata H}
    (h : m.Sourced A) (features : Features) (id : Option ℤ) :
    TimeSeriesMetadata.Sourced A { m with features, id } := by
  cases h with
  | written d row accepted shape data =>
    exact .written d { row with } accepted shape data
  | derived ss horizon plan h k view data =>
    exact .derived ss horizon plan h k { view with } data

end

/-- The arrays an operation is given are among `A`, and the records it imports are of series whose
arrays are. -/
def Op.Sourced {H : Type} [DecidableEq H] [Sha256 H] [FloatText] (A : Set TypedArray) : Op H → Prop
  | .addRequests items => ∀ i ∈ items, i.data.fields.data ∈ A
  | .importAssociationRows rows => ∀ m ∈ rows, m.Sourced A
  | _ => True

namespace Store

section

set_option linter.unusedSectionVars false

variable {H B : Type} [DecidableEq H] [ArrayBackend H B] [Sha256 H] [FloatText] [ToString H]
  [LawfulArrayBackend H B]

/-! ### What is filed -/

/-- The records an operation may file, those of a transform the views it derives. -/
def FilesExactly (s : Store H B) : Op H → TimeSeriesMetadata H → Prop
  | .transformSingleTimeSeries horizon requested category resolution policy, m => ∃ views,
      s.derivedViews horizon requested category resolution policy = .ok views ∧ m ∈ views
  | op, m => s.Files op m

/-- A property of catalogs that what a command may leave has is one of all catalogs after it. -/
theorem catalogs_of_outcome {α : Type} {Q : Catalog H → Prop} {s s' : Store H B}
    {P : α → Catalog H → Prop} {E : Catalog H → Prop} {r : Result α}
    (h : Outcome s.conn P E r s'.conn) (hs : ∀ c ∈ s.catalogs, Q c) (hP : ∀ a db, P a db → Q db)
    (hE : ∀ db, E db → Q db) : ∀ c ∈ s'.catalogs, Q c := by
  have hkept : s'.conn.savepoints = s.conn.savepoints → Q s'.db → ∀ c ∈ s'.catalogs, Q c := by
    intro hsp hdb c hc
    rcases List.mem_cons.mp hc with rfl | hc
    · exact hdb
    · rw [hsp] at hc
      exact hs c (List.mem_cons_of_mem _ hc)
  cases r with
  | ok a => exact hkept h.2.1 (hP a _ h.2.2)
  | error e =>
    cases h.2 with
    | inl hleft => exact hkept hleft.1 (hE _ hleft.2)
    | inr hback =>
      intro c hc
      unfold catalogs at hc
      rw [hback.savepoints, List.mem_singleton] at hc
      rw [hc]
      exact hs _ (List.mem_cons_of_mem _ (List.mem_of_getLast? hback.saved))

/-- **A property of rows** that every filing establishes, and no move of an owner breaks, is one of the
rows of all catalogs after a turn. -/
theorem turn_rows {P : AssociationRow H → Prop} {s : Store H B} (hi : s.Inv) (t : Turn H)
    (hmove : ∀ r owner, P r → P { r with ownerId := owner })
    (hrows : ∀ c ∈ s.catalogs, ∀ r ∈ c.rows, P r)
    (hfile : ∀ m id, s.FilesExactly t.op m → P (m.toRow id)) :
    ∀ c ∈ (s.turned t).catalogs, ∀ r ∈ c.rows, P r := by
  have hother : (∀ m, (s.arm t.faults).Files t.op m → s.FilesExactly t.op m) →
      ∀ c ∈ (s.turned t).catalogs, ∀ r ∈ c.rows, P r := by
    intro hsub
    refine turn_catalogs hi t hrows fun db hleft r hr => ?_
    rcases hleft.origin hr with ⟨r₀, h₀, owner, rfl⟩ | ⟨m, hm, id, rfl⟩
    · exact hmove r₀ owner (hrows _ List.mem_cons_self r₀ h₀)
    · exact hfile m id (hsub m hm)
  obtain ⟨op, faults⟩ := t
  cases op with
  | transformSingleTimeSeries horizon requested category resolution policy =>
    have hspec : (step (.transformSingleTimeSeries horizon requested category resolution policy)).wp
        (fun _ s' => ∀ c ∈ s'.catalogs, ∀ r ∈ c.rows, P r) (s.arm faults) := by
      refine (Cmd.wp_map _ _ _ _).mpr (Cmd.wp_mono
        (transformSingleTimeSeries_views (s := s.arm faults) horizon requested category resolution policy)
        fun r s' h => catalogs_of_outcome h.2.2 hrows ?_ ?_)
      · intro out db hdb r hr
        obtain ⟨-, views, hviews, hfiled⟩ := hdb
        cases hfiled with
        | inl hdry =>
          rw [hdry.2] at hr
          exact hrows _ List.mem_cons_self r hr
        | inr hchain =>
          obtain ⟨y, hchain⟩ := hchain
          rcases hchain.references.2.1 r hr with hr | ⟨m, hm, id, -, rfl⟩
          · exact hrows _ List.mem_cons_self r hr
          · exact hfile m id ⟨views, hviews, hm⟩
      · intro db hdb r hr
        rw [hdb] at hr
        exact hrows _ List.mem_cons_self r hr
    exact hspec
  | _ => exact hother fun m hm => hm

/-- **The rows of every store that runs under a condition reach.** -/
theorem ReachableBy.rows_exactly {C : Store H B → Turn H → Prop} {P : AssociationRow H → Prop}
    (hmove : ∀ r owner, P r → P { r with ownerId := owner })
    (hfile : ∀ (s : Store H B) (t : Turn H) m id, s.ReachableBy C → C s t → (∀ r ∈ s.db.rows, P r) →
      s.FilesExactly t.op m → P (m.toRow id)) {s : Store H B} (h : s.ReachableBy C) :
    ∀ c ∈ s.catalogs, ∀ r ∈ c.rows, P r := by
  induction h with
  | create valid noArray noVector =>
    intro c hc r hr
    rw [List.mem_singleton.mp hc] at hr
    exact (List.not_mem_nil hr).elim
  | turn t hs ht ih =>
    exact turn_rows hs.reachable.inv t hmove ih fun m id =>
      hfile _ t m id hs ht (ih _ List.mem_cons_self)

/-! ### Runs over given arrays -/

/-- The turns of a run whose rows come back, over arrays of `A`. -/
structure SourcedTurn (U : Set Features) (T : Set (List DateTime)) (A : Set TypedArray)
    (s : Store H B) (t : Turn H) : Prop where
  restorable : RestorableTurn U T s t
  sourced : t.op.Sourced A

/-- A row that spells without loss a record of a series whose array is one of `A`. -/
def SourcedRow (T : Set (List DateTime)) (A : Set TypedArray) (r : AssociationRow H) : Prop :=
  ∃ m id, r = TimeSeriesMetadata.toRow m id ∧ m.Restorable T ∧ m.Sourced A

theorem SourcedRow.owner {T : Set (List DateTime)} {A : Set TypedArray} {r : AssociationRow H}
    (h : SourcedRow T A r) (owner : ℤ) : SourcedRow T A { r with ownerId := owner } := by
  obtain ⟨m, id, rfl, hm, hsourced⟩ := h
  exact ⟨{ m with ownerId := owner }, id, rfl,
    ⟨hm.timeReference, hm.initialTimestamp, hm.percentiles, hm.elementType, hm.resolution,
      hm.horizon, hm.interval, hm.axis⟩, hsourced.renamed owner m.ownerType m.name m.id⟩

/-- The arrays of such a run are those it was given, each under its own hash. -/
theorem ReachableBy.arrays_given {U : Set Features} {T : Set (List DateTime)} {A : Set TypedArray}
    {s : Store H B} (h : s.ReachableBy (SourcedTurn U T A)) :
    Admits (fun x y => y ∈ A ∧ arrayHash y = x) (fun _ _ => True) s.arrays := by
  induction h with
  | @create b valid noArray noVector =>
    refine ⟨(inv_create (H := H) valid noArray noVector).valid, fun {x y} hx => ?_, fun _ => trivial⟩
    have hnone : (Store.create b : Store H B).arrays.content x = none := noArray x
    rw [hnone] at hx
    cases hx
  | turn t hs ht ih =>
    refine turn_admits hs.reachable.inv ih t (fun a ha => ⟨?_, rfl⟩) fun _ _ _ => trivial
    have hsourced := ht.sourced
    unfold Op.arrays at ha
    split at ha
    · rename_i items hitems
      rw [hitems] at hsourced
      obtain ⟨item, hitem, rfl⟩ := List.mem_map.mp ha
      exact hsourced item hitem
    · exact (List.not_mem_nil ha).elim

section

variable {U : Set Features} {T : Set (List DateTime)} {A : Set TypedArray}
  (hU : Set.InjOn (featuresHash (H := H)) U) (hempty : Features.empty ∈ U)
  (hs : ∀ f ∈ U, f.Storable) (hT : Set.InjOn (timestampsHash (H := H)) T)
  (hmillis : ∀ ts ∈ T, ∀ t ∈ ts, t.IsMillis)
include hU hempty hs hT hmillis

/-- **A record read back** from a row filed for a series is a record of that series. -/
theorem ReadsAs.sourced {s : Store H B} (hi : Restoring U T s) {r : AssociationRow H}
    (hr : SourcedRow T A r) {src : TimeSeriesMetadata H} (h : s.ReadsAs r src) : src.Sourced A := by
  obtain ⟨m₀, id, rfl, hm₀, hsourced⟩ := hr
  obtain ⟨hrestorable, -⟩ := h.restorable hU hempty hs hT hmillis hi
  have hash : src.timestamps.map (timestampsHash (H := H)) = m₀.timestamps.map timestampsHash :=
    (hydrated_names hi.inv.toSound h.2).1
  have haxis : src.timestamps = m₀.timestamps := by
    cases hts : src.timestamps with
    | none =>
      rw [hts] at hash
      exact (Option.map_eq_none_iff.mp hash.symm).symm
    | some ts =>
      rw [hts] at hash
      obtain ⟨ts₀, h₀, heq⟩ := Option.map_eq_some_iff.mp hash.symm
      rw [h₀, hT (hm₀.axis ts₀ h₀).1 (hrestorable.axis ts hts).1 heq]
  have heq := h.eq_restored hm₀
  rw [haxis] at heq
  rw [heq]
  exact hsourced.featured src.features (some id)

/-- **Views.**  What a transform derives is, for each record, the view of a series in scope. -/
theorem derivedViews_sourced {s : Store H B} (hi : Restoring U T s)
    (hrows : ∀ r ∈ s.db.rows, SourcedRow T A r) {horizon requested : Period}
    (hhorizon : horizon.wholeMillis = horizon) (hrequested : requested.wholeMillis = requested)
    {category : Option OwnerCategory} {resolution : Option Period} {policy : TransformPolicy}
    {views : List (TimeSeriesMetadata H)}
    (h : s.derivedViews horizon requested category resolution policy = .ok views)
    {v : TimeSeriesMetadata H} (hv : v ∈ views) : v.Sourced A := by
  obtain ⟨hrestorable, -⟩ :=
    derivedViews_restorable hU hempty hs hT hmillis hi hhorizon hrequested h hv
  unfold derivedViews at h
  simp only [except_bind_eq_ok] at h
  obtain ⟨grids, hgrids, derived, hplan, h⟩ := h
  cases derived with
  | none =>
    cases h
    exact (List.not_mem_nil hv).elim
  | some plan =>
    unfold plannedViews at h
    simp only [except_bind_eq_ok] at h
    obtain ⟨sources, hsources, dst, -, det, -, hviews⟩ := h
    obtain ⟨src, hsrc, res, params, hres, hparams, rfl⟩ := (newViews_ok hviews).2 v hv
    obtain ⟨r, hr, hscope, hy⟩ := Catalog.mem_list hsources hsrc
    have hread : s.ReadsAs r src := ⟨hr, hy⟩
    have hkind : src.timeSeriesType = .singleTimeSeries := by
      unfold Catalog.singleInScope at hscope
      simp only [Bool.and_eq_true, decide_eq_true_eq] at hscope
      exact hy.series.2.1.trans hscope.1.1
    cases ReadsAs.sourced hU hempty hs hT hmillis hi (hrows r hr) hread with
    | derived ss horizon plan h k view data =>
      rw [view.kind] at hkind
      cases hkind
    | written d row accepted shape data =>
      have hdkind := row.kind.symm.trans hkind
      cases d with
      | single ss =>
        have hsame : res = ss.resolution := Option.some.inj (hres.symm.trans row.resolution)
        subst hsame
        obtain ⟨g, hg, hgres, b, hderive⟩ :=
          TransformPlan.derive_get hplan (TransformPlan.forResolution_ok hparams)
        obtain ⟨steps, k, hwindows⟩ := TransformPlan.deriveGrid_windows hderive
        -- the grid the plan was made from is that of the source
        have hspelt : ∀ r ∈ s.db.rows, r.Spelt := fun r hr => by
          obtain ⟨m₀, id₀, rfl, -⟩ := hrows r hr
          exact m₀.toRow_spelt id₀
        have hcolumns : r.resolution = some ss.resolution.toIso8601 ∧
            r.initialTimestamp = some ss.initialTimestamp ∧ r.length = some ss.length := by
          obtain ⟨m₀, id₀, rfl, hm₀, -⟩ := hrows r hr
          have heq := hread.eq_restored hm₀
          have hlen : m₀.length = some ss.length := by
            rw [accepted.single.2.1, ← show src.length = m₀.length by rw [heq]]
            exact row.length
          have hinit : m₀.initialTimestamp = some ss.initialTimestamp := by
            rw [← show src.initialTimestamp = m₀.initialTimestamp by rw [heq]]
            exact row.start
          have hresolution : m₀.resolution = some ss.resolution := by
            rw [← show src.resolution = m₀.resolution by rw [heq]]
            exact row.resolution
          exact ⟨congrArg (Option.map Period.toIso8601) hresolution, hinit, hlen⟩
        obtain ⟨hinitial, hlength⟩ :=
          Catalog.staticGrids_unique hgrids hspelt hr hscope hcolumns.1 hg hgres
        rw [hcolumns.2.1, Option.some.injEq] at hinitial
        rw [hcolumns.2.2, Option.some.injEq] at hlength
        have hgrid : g = ss.grid := by
          unfold SingleTimeSeries.grid
          rw [← hgres, hinitial, hlength]
        rw [hgrid] at hwindows
        refine .derived ss horizon params steps k ?_ data
        exact
          { kind := rfl
            source := accepted
            hash := row.hash
            shape := shape
            columns := by
              unfold forecastColumns derivedViewRow
              rw [show src.initialTimestamp = _ from row.start,
                show src.resolution = _ from row.resolution]
              rfl
            described := fun y e => by
              have hname : src.name = ss.name := congrArg SeriesFields.name (row.described y e)
              have hd : src.describe (bareFields y src.name e) = { ss.toSeriesFields with data := y } :=
                row.described y e
              show src.describe (bareFields y src.name e) =
                { ss.toSeriesFields with data := y, name := src.name }
              rw [hd, hname]
            windows := hwindows
            horizonWhole := hhorizon
            intervalWhole := hrestorable.interval _ rfl }
      | _ => cases hdkind

/-- What an operation files is of a series whose array is one of `A`. -/
theorem FilesExactly.sourced {s : Store H B} (hi : Restoring U T s)
    (hrows : ∀ r ∈ s.db.rows, SourcedRow T A r) {t : Turn H} (ht : SourcedTurn U T A s t)
    {m : TimeSeriesMetadata H} (h : s.FilesExactly t.op m) (id : ℤ) :
    SourcedRow T A (m.toRow id) := by
  obtain ⟨op, faults⟩ := t
  obtain ⟨⟨hset, hop⟩, hsourced⟩ := ht
  cases op with
  | addRequests items =>
    obtain ⟨parts, hbuilt, hm⟩ := h
    obtain ⟨p, hp, rfl⟩ := List.mem_map.mp hm
    obtain ⟨item, hitem, hb⟩ := Staging.parts_origin hbuilt hp
    have hmem := (List.of_mem_zip hitem).1
    have hshape : p.metadata.elementShape = item.data.fields.data.elementShape := by
      rw [fileSeries_eq (buildRequestParts_ok hb).2.2.2.2.1]
      rfl
    exact ⟨p.metadata, id, rfl, buildRequestParts_restorable hb (hop item hmem),
      .written item.data (buildRequestParts_rowOf hb) (buildRequestParts_accepted hb) hshape
        (hsourced item hmem)⟩
  | copyTimeSeries src dst ty name =>
    obtain ⟨r, found, hfound, rfl⟩ := h
    obtain ⟨hm, -⟩ := hfound.restorable hU hempty hs hT hmillis hi
    have hsrc := ReadsAs.sourced hU hempty hs hT hmillis hi (hrows r hfound.1) hfound
    exact ⟨_, id, rfl, ⟨hm.timeReference, hm.initialTimestamp, hm.percentiles, hm.elementType,
      hm.resolution, hm.horizon, hm.interval, hm.axis⟩,
      hsrc.renamed dst ty (name.getD found.name) none⟩
  | importAssociationRows rows => exact ⟨m, id, rfl, hop m h, hsourced m h⟩
  | transformSingleTimeSeries horizon requested category resolution policy =>
    obtain ⟨views, hviews, hm⟩ := h
    exact ⟨m, id, rfl,
      (derivedViews_restorable hU hempty hs hT hmillis hi hop.1 hop.2 hviews hm).1,
      derivedViews_sourced hU hempty hs hT hmillis hi hrows hop.1 hop.2 hviews hm⟩
  | _ => cases h

/-- **Every row** of every store of such a run is of a series it was given. -/
theorem ReachableBy.sourced {s : Store H B} (h : s.ReachableBy (SourcedTurn U T A)) :
    ∀ c ∈ s.catalogs, ∀ r ∈ c.rows, SourcedRow T A r :=
  h.rows_exactly (fun _ owner hr => hr.owner owner) fun _ _ _ id hreach ht hrows hm =>
    hm.sourced hU hempty hs hT hmillis
      ((hreach.mono fun _ _ h => h.restorable).restoring hU hempty hs) hrows ht id

end

/-! ### Reads by id -/

/-- Every row of a store that restores its records can be read back. -/
theorem Restoring.readsRow {U : Set Features} {T : Set (List DateTime)}
    (hU : Set.InjOn (featuresHash (H := H)) U) (hempty : Features.empty ∈ U)
    (hs : ∀ f ∈ U, f.Storable) {s : Store H B} (h : Restoring U T s) {r : AssociationRow H}
    (hr : r ∈ s.db.rows) : ∃ m, s.ReadsAs r m :=
  reads_of_readable hU hempty hs h.inv h.interned hr (h.rows _ hr).readable

/-- The row of an id, read back, is found by it. -/
theorem ReadsAs.getById {s : Store H B} {r : AssociationRow H} {m : TimeSeriesMetadata H}
    (h : s.ReadsAs r m) :
    s.db.getById (ArrayBackend.getTimestamps s.arrays.backend) r.id = .ok (some m) := by
  have hone : s.db.rows.filter (·.id = r.id) = [r] := by
    obtain ⟨before, after, hsplit⟩ := List.append_of_mem h.1
    have hordered := s.db.ordered
    rw [hsplit, List.pairwise_append, List.pairwise_cons] at hordered
    obtain ⟨-, ⟨hafter, -⟩, hbefore⟩ := hordered
    have hno : before.filter (fun x => decide (x.id = r.id)) = [] ∧
        after.filter (fun x => decide (x.id = r.id)) = [] := by
      refine ⟨List.filter_eq_nil_iff.mpr fun x hx hid => ?_,
        List.filter_eq_nil_iff.mpr fun x hx hid => ?_⟩
      · exact absurd (of_decide_eq_true hid) (ne_of_lt (hbefore x hx r List.mem_cons_self))
      · exact absurd (of_decide_eq_true hid) (ne_of_gt (hafter x hx))
    simp [hsplit, List.filter_append, hno.1, hno.2]
  unfold Catalog.getById
  rw [Catalog.list_hydrated (by rw [hone]; exact .cons h.2 .nil)]
  rfl

theorem exec_query {α : Type} {c : Connection H} (hc : c.faults = []) (f : Catalog H → Result α) :
    (Connection.query f).exec c = (f c.db, c.next) := by
  unfold Connection.query Connection.statement Connection.execute
  rw [Cmd.exec_ofExec, hc]
  simp only [List.headD_nil]
  rw [show c.next.db = c.db from rfl]
  cases f c.db with
  | error e => rfl
  | ok a => rfl

/-- A read by id, where no statement fails, is a read of the row found. -/
theorem readById_exec (s : Store H B) (id : ℤ) (w : ReadWindow) :
    ((readById id none w).exec (s.arm [])).1 =
      (s.db.getById (ArrayBackend.getTimestamps s.arrays.backend) id).bind fun found =>
        found.elim (.error .notFound) fun m => readWindow s.arrays m w := by
  unfold readById
  rw [Cmd.exec_bind, Cmd.exec_get]
  dsimp only
  rw [Cmd.exec_bind]
  unfold onConn
  rw [Cmd.exec_zoom, show (s.arm []).arrays = s.arrays from rfl,
    exec_query (c := (s.arm []).conn) rfl,
    show (s.arm []).conn.db = s.db from rfl]
  cases s.db.getById (ArrayBackend.getTimestamps s.arrays.backend) id with
  | error e => rfl
  | ok found =>
    cases found with
    | none => rfl
    | some m => rfl

theorem readById_eq {s : Store H B} {id : ℤ} {m : TimeSeriesMetadata H}
    (h : s.db.getById (ArrayBackend.getTimestamps s.arrays.backend) id = .ok (some m))
    (w : ReadWindow) : ((readById id none w).exec (s.arm [])).1 = readWindow s.arrays m w := by
  rw [readById_exec, h]
  rfl

/-! ### Whole reads -/

/-- The array a row names is the one of `A` that has its hash. -/
theorem content_of_hash {A : Set TypedArray} (hA : Set.InjOn (arrayHash (H := H)) A) {s : Store H B}
    (hi : s.Inv) (ha : Admits (fun x y => y ∈ A ∧ arrayHash y = x) (fun _ _ => True) s.arrays)
    {r : AssociationRow H} {m : TimeSeriesMetadata H} (h : s.ReadsAs r m) {a : TypedArray}
    (hmem : a ∈ A) (hash : m.dataHash = arrayHash a) : s.arrays.content m.dataHash = some a := by
  obtain ⟨y, hy⟩ := Option.isSome_iff_exists.mp (hi.holds.array ⟨r, h.1, rfl⟩)
  rw [← h.2.series.1] at hy
  obtain ⟨hyA, hyhash⟩ := ha.allowed hy
  rw [hy, hA hyA hmem (hyhash.trans hash)]

theorem readById_full {s : Store H B} {r : AssociationRow H} {m : TimeSeriesMetadata H}
    (h : s.ReadsAs r m) : ((readById r.id none .full).exec (s.arm [])).1 =
      materializeTimeSeries s.arrays m none := by
  rw [readById_eq h.getById]
  rfl

end

namespace Sample

/-- The array of two steps. -/
def sevens : TypedArray := ⟨.u8, [2], [7, 7]⟩

theorem viewed_reachable : viewed.ReachableBy (SourcedTurn tags ∅ {sevens}) := by
  have hempty : empty.ReachableBy (SourcedTurn tags ∅ {sevens}) :=
    .create trivial (fun _ => FMap.get_empty _) fun _ => FMap.get_empty _
  have hadd : SourcedTurn tags ∅ {sevens} empty ⟨.addRequests [request 1 7], []⟩ := by
    refine ⟨⟨⟨fun i hi _ => ?_, fun h => by cases h.1⟩, fun i hi => ?_⟩, fun i hi => ?_⟩
    · rw [List.mem_singleton.mp hi]
      exact Or.inl rfl
    · rw [List.mem_singleton.mp hi]
      exact ⟨trivial, fun _ h => (by cases h), fun _ h => (by cases h)⟩
    · rw [List.mem_singleton.mp hi]
      rfl
  have hderive : ∀ s : Store Digest (MemoryBackend Digest), SourcedTurn tags ∅ {sevens} s derive := by
    intro s
    refine ⟨⟨⟨trivial, fun h => by cases h.1⟩, ?_, ?_⟩, trivial⟩
    · rfl
    · rfl
  exact (hempty.turn _ hadd).turn _ (hderive _)

end Sample

end Store

end InfraStore
