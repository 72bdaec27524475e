import Mathlib.Data.List.Dedup
import InfraStore.StoreEffects

/-!
# What copying, importing and deriving rows does to the store

The operations that file rows over arrays the store already holds.

* `copyTimeSeries_spec`: a row filed a second time, on another owner;
* `importAssociationRows_spec`: rows filed verbatim;
* `transformSingleTimeSeries_spec`: the views of the sources in scope.
-/

namespace InfraStore

open Lib Connection

/-- Every turn of a loop that succeeds has succeeded. -/
theorem forM_ok {α : Type} {f : α → Result Unit} {as : List α} (h : as.forM f = .ok ()) :
    ∀ a ∈ as, f a = .ok () := by
  induction as with
  | nil => exact fun _ h => (List.not_mem_nil h).elim
  | cons a as ih =>
    intro b hb
    obtain ⟨u, h1, h2⟩ := except_bind_eq_ok.mp (show (f a >>= fun _ => as.forM f) = .ok () from h)
    rcases List.mem_cons.mp hb with rfl | hb
    · exact h1
    · exact ih h2 b hb

section

set_option linter.unusedSectionVars false

variable {H : Type} [DecidableEq H] [Sha256 H] [FloatText]

/-- Filing rows and then more rows is filing them all. -/
theorem Chain.append {R : TimeSeriesMetadata H → SharedSetCache H → Catalog H →
      ℤ × SharedSetCache H → Catalog H → Prop} {ms ms' : List (TimeSeriesMetadata H)}
    {cache : SharedSetCache H} {db db' db'' : Catalog H} {x y : List ℤ × SharedSetCache H}
    (h : Chain R ms cache db x db') (h' : Chain R ms' x.2 db' y db'') :
    Chain R (ms ++ ms') cache db (x.1 ++ y.1, y.2) db'' := by
  induction h with
  | nil => exact h'
  | cons head _ ih => exact .cons head (ih h')

namespace Store

variable {B : Type} [ArrayBackend H B] [LawfulArrayBackend H B] [ToString H]

/-- A stored axis reads back as the instants that were hashed. -/
theorem getTimestamps_faithful {s : Store H B} (hs : s.Sound) {t : H} {ts : List DateTime}
    (h : ArrayBackend.getTimestamps s.arrays.backend t = .ok ts) :
    (s.arrays.vector t).isSome ∧ timestampsHash ts = t ∧ ∀ x ∈ ts, x.IsMillis := by
  rw [LawfulArrayBackend.getTimestamps_eq hs.valid.backend] at h
  rcases hv : s.arrays.vector t with _ | ms
  · rw [show LawfulArrayBackend.vector s.arrays.backend t = none from hv] at h
    cases h
  · rw [show LawfulArrayBackend.vector s.arrays.backend t = some ms from hv] at h
    obtain ⟨ts', hm, hh, rfl⟩ := hs.faithfulAxis hv
    simp only [fromMillis_toMillis hm] at h
    cases h
    exact ⟨rfl, hh, hm⟩

/-- A record read back from a row names what the row names, and a held axis if it names one. -/
theorem hydrated_names {s : Store H B} (hs : s.Sound) {r : AssociationRow H}
    {m : TimeSeriesMetadata H}
    (h : s.db.Hydrated (ArrayBackend.getTimestamps s.arrays.backend) r m) :
    m.timestamps.map timestampsHash = r.timestampsHash ∧
      ∀ ts, m.timestamps = some ts → (s.arrays.vector (timestampsHash ts)).isSome := by
  rcases h.axis with ⟨h1, h2⟩ | ⟨t, ts, h1, h2, h3⟩
  · rw [h1, h2]
    exact ⟨rfl, fun ts h => by cases h⟩
  · obtain ⟨hv, rfl, -⟩ := getTimestamps_faithful hs h2
    rw [h1, h3]
    refine ⟨rfl, fun ts' e => ?_⟩
    cases e
    exact hv

/-! ### Copying -/

/-- What a copy does: the source is found, the identity and the family are free, and the row is filed
under the new owner. -/
structure Copied (s : Store H B) (src dstOwnerId : ℤ) (dstOwnerType : String)
    (newName : Option String) (id : ℤ) (db : Catalog H) (m : TimeSeriesMetadata H) : Prop where
  source : s.db.getById (ArrayBackend.getTimestamps s.arrays.backend) src = .ok (some m)
  filed : ∃ cache, InsertedFree (copiedRow m dstOwnerId dstOwnerType newName) .empty s.db
    (id, cache) db

/-- **Copying.** -/
theorem copyTimeSeries_spec {s : Store H B} (hs : s.Sound) (hheld : Holds s.arrays s.db)
    (src dstOwnerId : ℤ) (dstOwnerType : String) (newName : Option String) :
    (copyTimeSeries (B := B) src dstOwnerId dstOwnerType newName).wp
      (RowsOutcome s fun id db => ∃ m, Copied s src dstOwnerId dstOwnerType newName id db m) s := by
  have hspec : (copyTimeSeries (B := B) src dstOwnerId dstOwnerType newName).wp
      (CatalogOnly s fun id db => (s.transactionWasForcedBack = true → db = s.db) ∧
        ∃ m, Copied s src dstOwnerId dstOwnerType newName id db m) s := by
    unfold copyTimeSeries
    rw [Cmd.wp_bind, Cmd.wp_get]
    simp only
    split
    · exact catalogOnly_throw _
    refine catalogOnly_bind catalogOnly_query fun found s₁ ha₁ ht₁ hdb₁ hsp₁ hfound => ?_
    rcases found with _ | m
    · exact catalogOnly_throw _
    simp only
    refine catalogOnly_bind catalogOnly_query fun taken s₂ ha₂ ht₂ hdb₂ hsp₂ _ => ?_
    split
    · exact catalogOnly_throw _
    have hforced : s₂.transactionWasForcedBack = s.transactionWasForcedBack := by
      unfold transactionWasForcedBack inTransaction inAutocommit
      rw [ht₂, ht₁, hsp₂, hsp₁]
    refine Cmd.wp_mono (writeCatalog_spec (E := fun _ => True)
      (P := fun id db => ∃ m, Copied s src dstOwnerId dstOwnerType newName id db m)
      fun c₁ _ hdb => ?_) fun r s' h => ⟨h.1, h.2.1, h.2.2.mono (fun id db hp =>
        ⟨fun hb => (by rw [hforced, hb] at hp; cases hp.1), hp.2⟩) fun _ h => h⟩
    have hdb' : c₁.db = s.db := hdb.trans (hdb₂.trans hdb₁)
    refine outcome_bind (Cmd.wp_mono (checkForecastFamilyFree_outcome _ "copy" c₁)
      fun _ _ h => h.mono (fun _ _ h => h) fun _ _ => trivial) fun _ c₂ _ h₂ => ?_
    refine outcome_bind (Cmd.wp_mono (insertBatched_outcome _ _ c₂)
      fun _ _ h => h.mono (fun _ _ h => h) fun _ _ => trivial) fun out c₃ _ h₃ => outcome_pure ?_
    rw [h₂.1, hdb'] at h₃
    rw [hdb'] at h₂
    exact ⟨m, hfound, out.2, h₂.2, h₃⟩
  refine Cmd.wp_mono hspec fun r s' h => h.rows hs ?_
  rintro id db ⟨m, hc⟩
  obtain ⟨r, hr, -, hy⟩ := Catalog.getById_eq_some hc.source
  obtain ⟨cache, -, hfiled⟩ := hc.filed
  obtain ⟨hmem, -⟩ := hfiled.spec
  obtain ⟨hhash, htype, -⟩ := hy.series
  obtain ⟨haxis, hvec⟩ := hydrated_names hs hy
  have hsets : db.featureSets = _ := hfiled.spec.2.2.2.2.2
  refine .of_filed (l := [copiedRow m dstOwnerId dstOwnerType newName])
    (fun r hr => (hmem r).mpr (Or.inr hr)) (fun r hr => ?_) (fun m' hm' => ?_)
    (fun m' hm' _ ts hts => ?_) (fun haxed m' hm' hirr => ?_)
    (by rw [hsets]; exact Catalog.withFeatures_sets _ _ _)
  · rcases (hmem r).mp hr with rfl | hr
    · exact Or.inr ⟨_, List.mem_cons_self, id, rfl⟩
    · exact Or.inl hr
  · rw [List.mem_singleton.mp hm']
    show (s.arrays.content m.dataHash).isSome
    rw [hhash]
    exact hheld.array ⟨r, hr, rfl⟩
  · rw [List.mem_singleton.mp hm'] at hts
    exact hvec ts hts
  · rw [List.mem_singleton.mp hm'] at hirr ⊢
    show m.timestamps.isSome
    rw [← Option.isSome_map (f := timestampsHash (H := H)), haxis]
    exact haxed r hr (by rw [← htype]; exact hirr)

/-! ### Importing -/

/-- A row that passes the checks of an import names a held array, and a stored axis if it is
irregular. -/
theorem checkImportRow_ok {s : Store H B} (hs : s.Sound) {m : TimeSeriesMetadata H}
    (h : checkImportRow s.arrays m = .ok ()) : (s.arrays.content m.dataHash).isSome ∧
      (m.timeSeriesType.isIrregular = true → ∃ ts, m.timestamps = some ts ∧
        (s.arrays.vector (timestampsHash ts)).isSome) := by
  unfold checkImportRow at h
  by_cases hheld : s.arrays.holdsArray m.dataHash = true
  · rw [← ArrayStore.holdsArray_eq hs.valid]
    refine ⟨hheld, fun hirr => ?_⟩
    simp only [hirr, if_true] at h
    obtain ⟨u, haxis, -⟩ := except_bind_eq_ok.mp h
    unfold checkImportAxis at haxis
    rcases hts : m.timestamps with _ | ts
    · simp only [hts] at haxis
      cases haxis
    simp only [hts] at haxis
    split at haxis
    · cases haxis
    · split at haxis
      · cases haxis
      · rename_i hmem
        exact ⟨ts, rfl, (LawfulArrayBackend.mem_timestampHashes hs.valid.backend _).mp (not_not.mp hmem)⟩
  · exfalso
    rw [Bool.not_eq_true] at hheld
    simp only [hheld, Bool.not_false, if_true] at h
    split at h
    · obtain ⟨u, -, h⟩ := except_bind_eq_ok.mp h
      cases h
    · cases h

/-- What an import does: every row passes the checks, the ids are all given or none, new and positive,
and the rows are filed, the plain ones first and each view after its source. -/
structure Imported (s : Store H B) (rows : List (TimeSeriesMetadata H)) (db : Catalog H) : Prop where
  checked : ∀ m ∈ rows, checkImportRow s.arrays m = .ok ()
  explicit : (rows.filter (·.id.isSome)).length = 0 ∨
    (rows.filter (·.id.isSome)).length = rows.length
  ids : s.db.checkExplicitTimeSeriesIds
    (((rows.filter fun m => !isView m) ++ rows.filter isView).filterMap (·.id)) = .ok ()
  filed : ∃ y z mid, Chain InsertedFree (rows.filter fun m => !isView m) .empty s.db y mid ∧
    Chain InsertedView (rows.filter isView) y.2 mid z db

theorem Imported.chain {s : Store H B} {rows : List (TimeSeriesMetadata H)} {db : Catalog H}
    (h : Imported s rows db) :
    ∃ y, Chain InsertedFree ((rows.filter fun m => !isView m) ++ rows.filter isView) .empty s.db y db := by
  obtain ⟨y, z, mid, h1, h2⟩ := h.filed
  exact ⟨_, h1.append (h2.mono fun _ _ _ _ _ h => h.2)⟩

/-- **Importing.**  The plain rows first, then the views. -/
theorem importAssociationRows_spec {s : Store H B} (hs : s.Sound) (rows : List (TimeSeriesMetadata H)) :
    (importAssociationRows (B := B) rows).wp (RowsOutcome s fun _ db => Imported s rows db) s := by
  have hspec : (importAssociationRows (B := B) rows).wp
      (CatalogOnly s fun _ db => (s.transactionWasForcedBack = true → db = s.db) ∧
        Imported s rows db) s := by
    unfold importAssociationRows
    rw [Cmd.wp_bind, Cmd.wp_get]
    simp only
    split
    · exact catalogOnly_throw _
    rcases hcheck : rows.forM (checkImportRow s.arrays) with e | u
    · simp only [Cmd.wp_bind, Cmd.wp_ofExcept]
      exact catalogOnly_throw e
    simp only [Cmd.wp_bind, Cmd.wp_ofExcept]
    split
    · exact catalogOnly_throw _
    rename_i hexplicit
    refine Cmd.wp_mono (writeCatalog_spec (E := fun _ => True) (P := fun _ db => Imported s rows db)
      fun c₁ _ hdb => ?_) fun r s' h => ⟨h.1, h.2.1, h.2.2.mono (fun _ db hp =>
        ⟨fun hb => (by rw [hb] at hp; cases hp.1), hp.2⟩) fun _ h => h⟩
    refine outcome_bind (P := fun _ db => db = s.db ∧ s.db.checkExplicitTimeSeriesIds
        (((rows.filter fun m => !isView m) ++ rows.filter isView).filterMap (·.id)) = .ok ())
      (outcome_query (fun _ h => ⟨hdb, by rw [← hdb]; exact h⟩) trivial) fun _ c₂ _ h₂ => ?_
    refine outcome_bind (insertAll_outcome (R := InsertedFree) insertAssociation_outcome _ _ c₂)
      fun filed c₃ _ h₃ => ?_
    refine outcome_bind (insertAll_outcome (R := InsertedView) insertView_outcome _ _ c₃)
      fun y c₄ _ h₄ => outcome_pure ?_
    rw [h₂.1] at h₃
    refine ⟨forM_ok hcheck, ?_, h₂.2, filed, y, c₃.db, h₃, h₄⟩
    by_contra hn
    rw [not_or] at hn
    exact hexplicit hn
  refine Cmd.wp_mono hspec fun r s' h => h.rows hs ?_
  rintro n db himp
  have hcheck := himp.checked
  obtain ⟨y, hchain⟩ := himp.chain
  have hone := hchain.mono fun _ _ _ _ _ h => h.2
  obtain ⟨h1, h2, -⟩ := hone.references
  have hmem : ∀ m ∈ (rows.filter fun m => !isView m) ++ rows.filter isView, m ∈ rows := by
    intro m hm
    rcases List.mem_append.mp hm with hm | hm <;> exact List.mem_of_mem_filter hm
  refine .of_filed h1 (fun r hr => (h2 r hr).imp_right ?_)
    (fun m hm => (checkImportRow_ok hs (hcheck m (hmem m hm))).1) (fun m hm hirr ts hts => ?_)
    (fun _ m hm hirr => ?_) hone.sets
  · rintro ⟨m, hm, id, -, rfl⟩
    exact ⟨m, hm, id, rfl⟩
  · obtain ⟨ts', hts', hheld⟩ := (checkImportRow_ok hs (hcheck m (hmem m hm))).2 hirr
    rw [hts] at hts'
    rw [Option.some.inj hts']
    exact hheld
  · obtain ⟨ts, hts, -⟩ := (checkImportRow_ok hs (hcheck m (hmem m hm))).2 hirr
    rw [hts]
    rfl

/-! ### Deriving views -/

theorem firstForecast_outcome (vectors : H → Result (List DateTime)) (resolution interval : Option Period)
    (kinds : List TimeSeriesType) :
    ∀ c : Connection H, (firstForecast vectors resolution interval kinds).wp
      (Outcome c (fun _ db => db = c.db) (· = c.db)) c := by
  induction kinds with
  | nil => exact fun c => outcome_pure rfl
  | cons t ts ih =>
    intro c
    unfold firstForecast
    refine outcome_bind (P := fun _ db => db = c.db) (outcome_query (fun _ _ => rfl) rfl)
      fun rows c₁ _ h₁ => ?_
    rcases rows with _ | ⟨m, ms⟩
    · exact Cmd.wp_mono (ih c₁) fun _ _ h =>
        h.mono (fun _ _ h => h.trans h₁) fun _ h => h.trans h₁
    · exact outcome_pure h₁

theorem checkPlanCompatible_spec (plan : TransformPlan) (grids : List (Period × GridPlan)) :
    ∀ s : Store H B, (checkPlanCompatible plan grids).wp
      (CatalogOnly s fun _ db => db = s.db ∧ True) s := by
  induction grids with
  | nil => exact fun s => catalogOnly_pure ⟨rfl, trivial⟩
  | cons g grids ih =>
    intro s
    obtain ⟨resolution, grid⟩ := g
    unfold checkPlanCompatible
    refine catalogOnly_bind (R := fun _ => True) ?_ fun existing s₁ _ _ hdb₁ _ _ => ?_
    · unfold getForecastParameters
      rw [Cmd.wp_bind, Cmd.wp_get]
      exact catalogOnly_onConn (Cmd.wp_mono (firstForecast_outcome _ _ _ _ s.conn) fun _ _ h =>
        h.mono (fun _ _ h => ⟨h, trivial⟩) fun _ h => h)
    refine catalogOnly_bind (R := fun _ => True)
      (catalogOnly_ofExcept fun _ _ => ⟨rfl, trivial⟩) fun _ s₂ _ _ hdb₂ _ _ => ?_
    refine Cmd.wp_mono (ih s₂) fun r s' h => ⟨h.1, h.2.1, h.2.2.mono (fun _ db hp => ?_) fun _ h => h⟩
    exact ⟨hp.1.trans (hdb₂.trans hdb₁), trivial⟩

/-- What a transform files, when it files anything: a view for some of the sources in scope, none of
whose families holds a dense forecast. -/
structure Derived (s : Store H B) (category : Option OwnerCategory) (resolution : Option Period)
    (sources : List (TimeSeriesMetadata H)) (views : List (TimeSeriesMetadata H)) : Prop where
  listed : s.db.list (some (ArrayBackend.getTimestamps s.arrays.backend)) none
    (Catalog.singleInScope resolution category) = .ok sources
  free : ∀ src ∈ sources, ∀ r ∈ s.db.rows, r.timeSeriesType = .deterministic → r.family ≠ src.family
  view : ∀ v ∈ views, ∃ src ∈ sources, ∃ horizon interval count,
    v = derivedViewRow src horizon interval count

/-- Every source passes the check against the dense forecasts. -/
theorem newViews_ok {plan : TransformPlan} {horizon : Period}
    {existingDst : List (AssociationIdentity H × Option Period)} {existingDet : List (SeriesFamily H)}
    {sources views : List (TimeSeriesMetadata H)}
    (h : newViews plan horizon existingDst existingDet sources = .ok views) :
    (∀ src ∈ sources, src.family ∉ existingDet) ∧
      ∀ v ∈ views, ∃ src ∈ sources, ∃ resolution grid, src.resolution = some resolution ∧
        plan.forResolution resolution = .ok grid ∧
        v = derivedViewRow src horizon grid.interval grid.count := by
  unfold newViews at h
  rcases hm : sources.mapM (newView plan horizon existingDst existingDet) with e | vs
  · rw [hm] at h
    cases h
  rw [hm] at h
  cases h
  refine ⟨fun src hsrc hmem => ?_, fun v hv => ?_⟩
  · obtain ⟨v, -, he⟩ := mapM_covers hm hsrc
    unfold newView at he
    rw [if_pos hmem] at he
    cases he
  · obtain ⟨x, hx, hxv⟩ := List.mem_filterMap.mp hv
    obtain ⟨src, hsrc, he⟩ := mapM_origin hm hx
    rw [show x = some v from hxv] at he
    unfold newView at he
    split at he
    · cases he
    · split at he
      · cases he
      · rename_i resolution hres
        obtain ⟨grid, hgrid, he⟩ := except_bind_eq_ok.mp he
        simp only at he
        split at he
        · cases he
          exact ⟨src, hsrc, resolution, grid, hres, hgrid, rfl⟩
        · split at he <;> cases he

/-- Every row of a type is in the listing of identities, under its own family. -/
theorem listIdentities_family {db : Catalog H} {t : TimeSeriesType}
    {found : List (AssociationIdentity H × Option Period)}
    (h : db.listIdentities t = .ok found) {r : AssociationRow H} (hr : r ∈ db.rows)
    (ht : r.timeSeriesType = t) : r.family ∈ found.map (·.1.family) := by
  unfold Catalog.listIdentities at h
  obtain ⟨x, hx, he⟩ := mapM_covers h (List.mem_filter.mpr ⟨hr, decide_eq_true ht⟩)
  obtain ⟨horizon, -, he⟩ := except_bind_eq_ok.mp he
  cases he
  exact List.mem_map.mpr ⟨_, hx, rfl⟩

/-- Without a plan there is nothing in scope. -/
theorem no_plan {db : Catalog H} {category : Option OwnerCategory} {resolution : Option Period}
    {grids : List StaticConsistency} {horizon requested : Period} {policy : TransformPolicy}
    (hg : db.staticGrids resolution category = .ok grids)
    (hp : TransformPlan.derive grids horizon requested policy = .ok none) :
    ∀ r ∈ db.rows, Catalog.singleInScope resolution category r = false := by
  have hnil : grids = [] := by
    rcases grids with _ | ⟨first, rest⟩
    · rfl
    · unfold TransformPlan.derive at hp
      simp only [except_bind_eq_ok] at hp
      obtain ⟨_, -, _, -, hp⟩ := hp
      cases hp
  unfold Catalog.staticGrids Catalog.distinctSingleGrids at hg
  obtain ⟨grids', hm, hg⟩ := except_bind_eq_ok.mp hg
  obtain ⟨u, -, hg⟩ := except_bind_eq_ok.mp hg
  cases hg
  rw [hnil] at hm
  intro r hr
  rw [← Bool.not_eq_true]
  intro hscope
  have hmem : (r.resolution, r.initialTimestamp, r.length) ∈
      ((db.rows.filter (Catalog.singleInScope resolution category)).map fun r =>
        (r.resolution, r.initialTimestamp, r.length)).dedup.mergeSort
          fun a b => decide (a.1.getD "" ≤ b.1.getD "") := by
    rw [List.mem_mergeSort, List.mem_dedup]
    exact List.mem_map.mpr ⟨r, List.mem_filter.mpr ⟨hr, hscope⟩, rfl⟩
  obtain ⟨g, hg, -⟩ := mapM_covers hm hmem
  exact (List.not_mem_nil hg).elim

/-- The views a plan gives the sources in scope. -/
def plannedViews (s : Store H B) (plan : TransformPlan) (horizon : Period)
    (category : Option OwnerCategory) (resolution : Option Period) :
    Result (List (TimeSeriesMetadata H)) := do
  let sources ← s.db.list (some (ArrayBackend.getTimestamps s.arrays.backend)) none
    (Catalog.singleInScope resolution category)
  let existingDst ← s.db.listIdentities .deterministicSingleTimeSeries
  let existingDet ← s.db.listIdentities .deterministic
  newViews plan horizon existingDst (existingDet.map (·.1.family)) sources

/-- The views a transform derives from what the catalog holds. -/
def derivedViews (s : Store H B) (horizon requested : Period) (category : Option OwnerCategory)
    (resolution : Option Period) (policy : TransformPolicy) :
    Result (List (TimeSeriesMetadata H)) := do
  let grids ← s.db.staticGrids resolution category
  let derived ← TransformPlan.derive grids horizon requested policy
  match derived with
  | none => pure []
  | some plan => s.plannedViews plan horizon category resolution

theorem plannedViews_derived {s : Store H B} {plan : TransformPlan} {horizon : Period}
    {category : Option OwnerCategory} {resolution : Option Period} {views : List (TimeSeriesMetadata H)}
    (h : s.plannedViews plan horizon category resolution = .ok views) :
    ∃ sources, Derived s category resolution sources views := by
  unfold plannedViews at h
  simp only [except_bind_eq_ok] at h
  obtain ⟨sources, hsources, dst, -, det, hdet, hviews⟩ := h
  obtain ⟨hfree, hview⟩ := newViews_ok hviews
  refine ⟨sources, hsources, fun src hsrc r hr ht hf => hfree src hsrc ?_, fun v hv => ?_⟩
  · rw [← hf]
    exact listIdentities_family hdet hr ht
  · obtain ⟨src, hsrc, resolution, grid, -, -, hv⟩ := hview v hv
    exact ⟨src, hsrc, horizon, grid.interval, grid.count, hv⟩

/-- What a transform derives: nothing is in scope, or it is views of what is. -/
theorem derivedViews_derived {s : Store H B} {horizon requested : Period}
    {category : Option OwnerCategory} {resolution : Option Period} {policy : TransformPolicy}
    {views : List (TimeSeriesMetadata H)}
    (h : s.derivedViews horizon requested category resolution policy = .ok views) :
    (views = [] ∧ ∀ r ∈ s.db.rows, Catalog.singleInScope resolution category r = false) ∨
      ∃ sources, Derived s category resolution sources views := by
  unfold derivedViews at h
  simp only [except_bind_eq_ok] at h
  obtain ⟨grids, hgrids, derived, hplan, h⟩ := h
  cases derived with
  | none =>
    cases h
    exact Or.inl ⟨rfl, no_plan hgrids hplan⟩
  | some plan => exact Or.inr (plannedViews_derived h)

/-- A transform files the views it derives, or is a dry run. -/
def FiledViews (s : Store H B) (policy : TransformPolicy) (views : List (TimeSeriesMetadata H))
    (db : Catalog H) : Prop :=
  (policy.dryRun = true ∧ db = s.db) ∨ ∃ y, Chain InsertedOne views .empty s.db y db

theorem transformUnder_spec {s : Store H B} (plan : TransformPlan) (horizon : Period)
    (category : Option OwnerCategory) (resolution : Option Period) (policy : TransformPolicy) :
    (transformUnder (B := B) plan horizon category resolution policy).wp
      (CatalogOnly s fun _ db => (s.transactionWasForcedBack = true → db = s.db) ∧
        ∃ views, s.plannedViews plan horizon category resolution = .ok views ∧
          s.FiledViews policy views db) s := by
  unfold transformUnder
  rw [Cmd.wp_bind, Cmd.wp_get]
  simp only
  refine catalogOnly_bind catalogOnly_query fun sources s₁ ha₁ ht₁ hdb₁ hsp₁ hsources => ?_
  refine catalogOnly_bind catalogOnly_query fun dst s₂ ha₂ ht₂ hdb₂ hsp₂ hdst => ?_
  refine catalogOnly_bind catalogOnly_query fun det s₃ ha₃ ht₃ hdb₃ hsp₃ hdet => ?_
  refine catalogOnly_bind (R := fun views =>
      newViews plan horizon dst (det.map (·.1.family)) sources = .ok views)
    (catalogOnly_ofExcept fun views h => ⟨rfl, h⟩) fun views s₄ ha₄ ht₄ hdb₄ hsp₄ hviews => ?_
  have hplanned : s.plannedViews plan horizon category resolution = .ok views := by
    unfold plannedViews
    simp only [except_bind_eq_ok]
    rw [show s₁.db = s.db from hdb₁] at hdst
    rw [show s₂.db = s.db from hdb₂.trans hdb₁] at hdet
    exact ⟨sources, hsources, dst, hdst, det, hdet, hviews⟩
  have hdb : s₄.db = s.db := hdb₄.trans (hdb₃.trans (hdb₂.trans hdb₁))
  have hforced : s₄.transactionWasForcedBack = s.transactionWasForcedBack := by
    unfold transactionWasForcedBack inTransaction inAutocommit
    rw [ht₄, ht₃, ht₂, ht₁, hsp₄, hsp₃, hsp₂, hsp₁]
  split
  · rename_i hdry
    exact catalogOnly_pure ⟨fun _ => hdb, views, hplanned, Or.inl ⟨hdry, hdb⟩⟩
  · refine Cmd.wp_mono (Q := CatalogOnly s₄ fun _ db => s₄.transactionWasForcedBack = false ∧
      ∃ y, Chain InsertedOne views .empty s.db y db) ?_ fun r s' h =>
        ⟨h.1, h.2.1, h.2.2.mono (fun _ db hp => ⟨fun hb => ?_, views, hplanned, Or.inr hp.2⟩)
          fun _ h => h⟩
    · rw [Cmd.wp_bind]
      refine Cmd.wp_mono (writeCatalog_spec (E := fun _ => True) (P := fun _ db =>
        ∃ y, Chain InsertedOne views .empty s.db y db) fun c₁ _ hc₁ => ?_) fun r s' h => ?_
      · refine outcome_bind (insertAll_outcome (R := InsertedOne) insertBatched_outcome _ _ c₁)
          fun filed c₂ _ h₂ => outcome_pure ?_
        rw [hc₁, hdb] at h₂
        exact ⟨_, h₂⟩
      · rcases r with e | ids
        · exact h
        · exact h
    · rw [hforced, hb] at hp
      cases hp.1

/-- **Transforms** file the views they derive. -/
theorem transformSingleTimeSeries_views {s : Store H B} (horizon requested : Period)
    (category : Option OwnerCategory) (resolution : Option Period) (policy : TransformPolicy) :
    (transformSingleTimeSeries (B := B) horizon requested category resolution policy).wp
      (CatalogOnly s fun _ db => (s.transactionWasForcedBack = true → db = s.db) ∧
        ∃ views, s.derivedViews horizon requested category resolution policy = .ok views ∧
          s.FiledViews policy views db) s := by
  unfold transformSingleTimeSeries
  rw [Cmd.wp_bind, Cmd.wp_get]
  simp only
  split
  · exact catalogOnly_throw _
  refine catalogOnly_bind catalogOnly_query fun grids s₁ ha₁ ht₁ hdb₁ hsp₁ hgrids => ?_
  refine catalogOnly_bind
    (R := fun derived => TransformPlan.derive grids horizon requested policy = .ok derived)
    (catalogOnly_ofExcept fun _ h => ⟨rfl, h⟩) fun derived s₂ ha₂ ht₂ hdb₂ hsp₂ hplan => ?_
  have hdb : s₂.db = s.db := hdb₂.trans hdb₁
  have hderives : ∀ {views : List (TimeSeriesMetadata H)}, (match derived with
      | none => (pure [] : Result (List (TimeSeriesMetadata H)))
      | some plan => s.plannedViews plan horizon category resolution) = .ok views →
      s.derivedViews horizon requested category resolution policy = .ok views := by
    intro views h
    unfold derivedViews
    simp only [except_bind_eq_ok]
    exact ⟨grids, hgrids, derived, hplan, h⟩
  rcases derived with _ | plan
  · exact catalogOnly_pure ⟨fun _ => hdb, [], hderives rfl, Or.inr ⟨([], .empty), by
      rw [hdb]
      exact .nil _ _⟩⟩
  simp only
  have hunder : ∀ s₃ : Store H B, s₃.arrays = s₂.arrays → s₃.txn = s₂.txn → s₃.db = s₂.db →
      s₃.conn.savepoints = s₂.conn.savepoints →
      (transformUnder (B := B) plan horizon category resolution policy).wp
        (CatalogOnly s₃ fun _ db => (s.transactionWasForcedBack = true → db = s.db) ∧
          ∃ views, s.derivedViews horizon requested category resolution policy = .ok views ∧
            s.FiledViews policy views db) s₃ := by
    intro s₃ ha₃ ht₃ hdb₃ hsp₃
    have harr : s₃.arrays = s.arrays := ha₃.trans (ha₂.trans ha₁)
    have hdb' : s₃.db = s.db := hdb₃.trans hdb
    have hforced : s₃.transactionWasForcedBack = s.transactionWasForcedBack := by
      unfold transactionWasForcedBack inTransaction inAutocommit
      rw [ht₃, ht₂, ht₁, hsp₃, hsp₂, hsp₁]
    refine Cmd.wp_mono (transformUnder_spec plan horizon category resolution policy)
      fun r s' h => ⟨h.1, h.2.1, h.2.2.mono (fun _ db hp => ?_) fun _ h => h⟩
    unfold FiledViews plannedViews at hp
    rw [hforced, hdb', harr] at hp
    obtain ⟨h1, views, h2, h3⟩ := hp
    exact ⟨h1, views, hderives h2, h3⟩
  split
  · exact catalogOnly_bind (checkPlanCompatible_spec plan _ s₂)
      fun _ s₃ ha₃ ht₃ hdb₃ hsp₃ _ => hunder s₃ ha₃ ht₃ hdb₃ hsp₃
  · exact hunder s₂ rfl rfl rfl rfl

/-- What a transform does to the catalog: nothing is in scope, or views of what is are filed, or would
be. -/
theorem FiledViews.derived {s : Store H B} {horizon requested : Period}
    {category : Option OwnerCategory} {resolution : Option Period} {policy : TransformPolicy}
    {views : List (TimeSeriesMetadata H)} {db : Catalog H} (h : s.FiledViews policy views db)
    (hviews : s.derivedViews horizon requested category resolution policy = .ok views) :
    (db = s.db ∧ ∀ r ∈ s.db.rows, Catalog.singleInScope resolution category r = false) ∨
      ∃ sources views, Derived s category resolution sources views ∧
        (db = s.db ∨ ∃ y, Chain InsertedOne views .empty s.db y db) := by
  cases derivedViews_derived hviews with
  | inl hnone =>
    obtain ⟨rfl, hscope⟩ := hnone
    refine Or.inl ⟨?_, hscope⟩
    cases h with
    | inl hdry => exact hdry.2
    | inr hchain =>
      obtain ⟨y, hchain⟩ := hchain
      cases hchain
      rfl
  | inr hsome =>
    obtain ⟨sources, hd⟩ := hsome
    exact Or.inr ⟨sources, views, hd, h.imp (fun h => h.2) id⟩

/-- **Deriving views.** -/
theorem transformSingleTimeSeries_spec {s : Store H B} (hs : s.Sound) (hheld : Holds s.arrays s.db)
    (horizon requested : Period) (category : Option OwnerCategory) (resolution : Option Period)
    (policy : TransformPolicy) :
    (transformSingleTimeSeries (B := B) horizon requested category resolution policy).wp
      (RowsOutcome s fun _ db =>
        (db = s.db ∧ ∀ r ∈ s.db.rows, Catalog.singleInScope resolution category r = false) ∨
        ∃ sources views, Derived s category resolution sources views ∧
          (db = s.db ∨ ∃ y, Chain InsertedOne views .empty s.db y db)) s := by
  have hspec : (transformSingleTimeSeries (B := B) horizon requested category resolution policy).wp
      (CatalogOnly s fun _ db => (s.transactionWasForcedBack = true → db = s.db) ∧
        ((db = s.db ∧ ∀ r ∈ s.db.rows, Catalog.singleInScope resolution category r = false) ∨
        ∃ sources views, Derived s category resolution sources views ∧
          (db = s.db ∨ ∃ y, Chain InsertedOne views .empty s.db y db))) s :=
    Cmd.wp_mono (transformSingleTimeSeries_views horizon requested category resolution policy)
      fun r s' h => ⟨h.1, h.2.1, h.2.2.mono (fun _ db hp =>
        ⟨hp.1, hp.2.elim fun views hv => hv.2.derived hv.1⟩) fun _ h => h⟩
  refine Cmd.wp_mono hspec fun r s' h => h.rows hs ?_
  rintro out db (⟨hdb, -⟩ | ⟨sources, views, hd, hdb | ⟨y, hchain⟩⟩)
  · rw [hdb]
    exact .of_rows rfl fun f hf => hf
  · rw [hdb]
    exact .of_rows rfl fun f hf => hf
  obtain ⟨h1, h2, -⟩ := hchain.references
  refine .of_filed (l := views) h1 (fun r hr => (h2 r hr).imp_right ?_) (fun v hv => ?_)
    (fun v hv hirr => ?_) (fun _ v hv hirr => ?_) hchain.sets
  · rintro ⟨m, hm, id, -, rfl⟩
    exact ⟨m, hm, id, rfl⟩
  · obtain ⟨src, hsrc, hor, int, cnt, rfl⟩ := hd.view v hv
    obtain ⟨r, hr, -, hy⟩ := Catalog.mem_list hd.listed hsrc
    show (s.arrays.content src.dataHash).isSome
    rw [hy.series.1]
    exact hheld.array ⟨r, hr, rfl⟩
  · obtain ⟨src, -, hor, int, cnt, rfl⟩ := hd.view v hv
    cases hirr
  · obtain ⟨src, -, hor, int, cnt, rfl⟩ := hd.view v hv
    cases hirr

end Store

end

end InfraStore
