import InfraStore.CatalogEffects
import InfraStore.Rollback

/-!
# Dense forecasts and derived views exclude each other

No family of any catalog a store may see holds a `Deterministic` row and a
`DeterministicSingleTimeSeries` row.

* `Catalog.Exclusive.inserted`, `.moved`, `.derived`: the checked insert, the owner move and the
  transform keep it;
* `Left.exclusive`: so does every operation;
* `Store.filing`, `Store.Clashes`: the operations that would bring the two together;
* `exclusivity`: the theorem, with the refusal of those operations.
-/

namespace InfraStore

open Lib Connection

theorem exclusiveCounterpart_symm {a b : TimeSeriesType} (h : exclusiveCounterpart a = some b) :
    exclusiveCounterpart b = some a := by
  cases a <;> cases h <;> rfl

theorem exclusiveCounterpart_ne {a b : TimeSeriesType} (h : exclusiveCounterpart a = some b) :
    a ≠ b := by
  rintro rfl
  cases a <;> cases h

namespace Catalog

section

set_option linter.unusedSectionVars false

variable {H : Type} [DecidableEq H] [Sha256 H] [FloatText]

theorem Exclusive.of_subset {c c' : Catalog H} (h : c.Exclusive) (hsub : ∀ r ∈ c'.rows, r ∈ c.rows) :
    c'.Exclusive := fun a ha b hb => h a (hsub a ha) b (hsub b hb)

theorem Exclusive.empty : (Catalog.empty : Catalog H).Exclusive :=
  fun _ ha => (List.not_mem_nil ha).elim

/-- Rows filed where no row of the catalog or of the batch excludes them. -/
theorem Exclusive.filed {c c' : Catalog H} (h : c.Exclusive) (ms : List (TimeSeriesMetadata H))
    (hrows : ∀ r ∈ c'.rows, r ∈ c.rows ∨ ∃ m ∈ ms, ∃ id, r = m.toRow id)
    (hold : ∀ m ∈ ms, ∀ r ∈ c.rows,
      exclusiveCounterpart m.timeSeriesType = some r.timeSeriesType → r.family ≠ m.family)
    (hnew : ∀ m ∈ ms, ∀ m' ∈ ms,
      exclusiveCounterpart m.timeSeriesType ≠ some m'.timeSeriesType) : c'.Exclusive := by
  intro a ha b hb he hf
  rcases hrows a ha with ha | ⟨m, hm, id, rfl⟩ <;> rcases hrows b hb with hb | ⟨m', hm', id', rfl⟩
  · exact h a ha b hb he hf
  · exact hold m' hm' a ha (exclusiveCounterpart_symm he) hf
  · exact hold m hm b hb he hf.symm
  · exact hnew m hm m' hm' he

theorem FamilyFree.ne {c : Catalog H} {m : TimeSeriesMetadata H} (h : c.FamilyFree m)
    {r : AssociationRow H} (hr : r ∈ c.rows)
    (he : exclusiveCounterpart m.timeSeriesType = some r.timeSeriesType) : r.family ≠ m.family :=
  fun hf => h _ he (forecastFamilyConflict_iff.mpr ⟨r, hr, rfl, hf⟩)

/-- A checked insert keeps the types apart. -/
theorem Exclusive.inserted {c c' : Catalog H} {m : TimeSeriesMetadata H} {cache : SharedSetCache H}
    {x : ℤ × SharedSetCache H} (h : c.Exclusive) (hi : InsertedFree m cache c x c') :
    c'.Exclusive := by
  obtain ⟨hmem, -⟩ := hi.2.spec
  refine h.filed [m] (fun r hr => ?_) (fun m' hm' r hr he => ?_) fun m₁ h₁ m₂ h₂ he => ?_
  · rcases (hmem r).mp hr with rfl | hr
    · exact Or.inr ⟨m, List.mem_cons_self, _, rfl⟩
    · exact Or.inl hr
  · rw [List.mem_singleton] at hm'
    subst hm'
    exact hi.1.ne hr he
  · rw [List.mem_singleton.mp h₁, List.mem_singleton.mp h₂] at he
    exact exclusiveCounterpart_ne he rfl

/-- So do several in turn. -/
theorem Exclusive.chain {c c' : Catalog H} {ms : List (TimeSeriesMetadata H)}
    {cache : SharedSetCache H} {y : List ℤ × SharedSetCache H} (h : c.Exclusive)
    (hc : Chain InsertedFree ms cache c y c') : c'.Exclusive := by
  induction hc with
  | nil => exact h
  | cons head _ ih => exact ih (h.inserted head)

/-- Views are filed where no family holds a dense forecast. -/
theorem Exclusive.derived {c c' : Catalog H} {views : List (TimeSeriesMetadata H)}
    {y : List ℤ × SharedSetCache H} (h : c.Exclusive) (hc : Chain InsertedOne views .empty c y c')
    (hviews : ∀ v ∈ views, v.timeSeriesType = .deterministicSingleTimeSeries ∧
      ∀ r ∈ c.rows, r.timeSeriesType = .deterministic → r.family ≠ v.family) : c'.Exclusive := by
  refine h.filed views (fun r hr => ?_) (fun v hv r hr he => ?_) fun v hv v' hv' he => ?_
  · exact (hc.references.2.1 r hr).imp_right fun ⟨m, hm, id, _, e⟩ => ⟨m, hm, id, e⟩
  · obtain ⟨ht, hfree⟩ := hviews v hv
    rw [ht] at he
    exact hfree r hr (Option.some.inj he).symm
  · rw [(hviews v hv).1, (hviews v' hv').1] at he
    cases he

theorem movedRow_family {oldOwner newOwner : ℤ} {category : OwnerCategory} {r : AssociationRow H}
    (h : ownedBy oldOwner category r = true) :
    (movedRow oldOwner newOwner category r).family = { r.family with ownerId := newOwner } := by
  unfold movedRow
  rw [h]
  rfl

/-- A row that moves meets none of the other type at the new owner. -/
theorem ownerMove_free {c : Catalog H} {oldOwner newOwner : ℤ} {category : OwnerCategory}
    (h : c.forecastFamilyConflictOnOwnerMove oldOwner newOwner category = none)
    {a b : AssociationRow H} (ha : a ∈ c.rows) (hb : b ∈ c.rows)
    (ho : ownedBy oldOwner category a = true)
    (he : exclusiveCounterpart a.timeSeriesType = some b.timeSeriesType) :
    (movedRow oldOwner newOwner category a).family ≠ b.family := by
  intro hf
  rw [movedRow_family ho] at hf
  unfold forecastFamilyConflictOnOwnerMove at h
  have hnone := List.findSome?_eq_none_iff.mp h a (List.mem_filter.mpr ⟨ha, ho⟩)
  have hfind := List.find?_eq_none.mp (Option.map_eq_none_iff.mp hnone) b hb
  refine hfind ?_
  have hown : b.ownerId = newOwner := (congrArg SeriesFamily.ownerId hf).symm
  simp [hown, hf, he]

/-- The owner move keeps the types apart. -/
theorem Exclusive.moved {c c' : Catalog H} {oldOwner newOwner : ℤ} {category : OwnerCategory} {n : ℕ}
    (h : c.Exclusive) (hfree : c.forecastFamilyConflictOnOwnerMove oldOwner newOwner category = none)
    (hm : c.moveOwner oldOwner newOwner category = .ok (n, c')) : c'.Exclusive := by
  intro a' ha' b' hb' he hf
  rw [moveOwner_rows hm] at ha' hb'
  obtain ⟨a, ha, rfl⟩ := List.mem_map.mp ha'
  obtain ⟨b, hb, rfl⟩ := List.mem_map.mp hb'
  rw [(movedRow_series oldOwner newOwner category a).2.1,
    (movedRow_series oldOwner newOwner category b).2.1] at he
  rcases hoa : ownedBy oldOwner category a <;> rcases hob : ownedBy oldOwner category b
  · rw [movedRow_of_not_owned hoa, movedRow_of_not_owned hob] at hf
    exact h a ha b hb he hf
  · rw [movedRow_of_not_owned hoa] at hf
    exact ownerMove_free hfree hb ha hob (exclusiveCounterpart_symm he) hf.symm
  · rw [movedRow_of_not_owned hob] at hf
    exact ownerMove_free hfree ha hb hoa he hf
  · -- both leave the old owner, so their families were equal before
    rw [movedRow_family hoa, movedRow_family hob] at hf
    refine h a ha b hb he ?_
    unfold ownedBy at hoa hob
    simp only [Bool.and_eq_true, decide_eq_true_eq] at hoa hob
    unfold AssociationRow.family at hf ⊢
    simp only [SeriesFamily.mk.injEq, true_and] at hf
    rw [SeriesFamily.mk.injEq]
    exact ⟨hoa.1.trans hob.1.symm, hf⟩

end

end Catalog

namespace Store

section

set_option linter.unusedSectionVars false

variable {H B : Type} [DecidableEq H] [ArrayBackend H B] [Sha256 H] [FloatText] [ToString H]
  [LawfulArrayBackend H B]

/-! ### Every operation -/

/-- Views are of families that hold no dense forecast. -/
theorem Derived.views {s : Store H B} {category : Option OwnerCategory} {resolution : Option Period}
    {sources views : List (TimeSeriesMetadata H)} (h : Derived s category resolution sources views) :
    ∀ v ∈ views, v.timeSeriesType = .deterministicSingleTimeSeries ∧
      ∀ r ∈ s.db.rows, r.timeSeriesType = .deterministic → r.family ≠ v.family := by
  intro v hv
  obtain ⟨src, hsrc, horizon, interval, count, rfl⟩ := h.view v hv
  exact ⟨rfl, h.free src hsrc⟩

/-- What an operation that succeeds leaves keeps the types apart. -/
theorem Changed.exclusive {s : Store H B} {op : Op H} {db : Catalog H} (h : Changed s op db)
    (hx : s.db.Exclusive) : db.Exclusive := by
  cases op with
  | addRequests items =>
    obtain ⟨parts, cache, y, -, -, hchain⟩ := h
    exact hx.chain hchain
  | removeByIds ids owner =>
    rw [h.rest]
    exact hx.of_subset fun r hr => List.mem_of_mem_filter hr
  | clearTimeSeries owner =>
    rw [show db = clearedOf owner s.db from h]
    rcases owner with _ | ⟨id, category⟩
    · exact hx.of_subset fun r hr => List.mem_of_mem_filter hr
    · exact hx.of_subset fun r hr => List.mem_of_mem_filter hr
  | replaceOwner oldOwner newOwner category =>
    obtain ⟨hfree, n, hmove⟩ := h
    exact hx.moved hfree hmove
  | copyTimeSeries src dst ty name =>
    obtain ⟨id, m, hcopy⟩ := h
    obtain ⟨cache, hone⟩ := hcopy.filed
    exact hx.inserted hone
  | importAssociationRows rows =>
    obtain ⟨y, hchain⟩ := h.chain
    exact hx.chain hchain
  | transformSingleTimeSeries horizon interval category resolution policy =>
    rcases h with ⟨h, -⟩ | ⟨sources, views, hd, h | ⟨y, hchain⟩⟩
    · rw [h]
      exact hx
    · rw [h]
      exact hx
    · exact hx.derived hchain hd.views
  | compact =>
    rw [show db = _ from h]
    exact hx
  | _ =>
    rw [show db = s.db from h]
    exact hx

theorem Left.exclusive {s : Store H B} {op : Op H} {db : Catalog H} (h : Left s op db)
    (hx : s.db.Exclusive) : db.Exclusive := by
  rcases h with h | h
  · exact h.exclusive hx
  · exact hx.of_subset fun r hr => by rw [← h.rows.1]; exact hr

/-! ### Refusals -/

/-- The type and the family of each row an operation would file. -/
def filing (s : Store H B) : Op H → Result (List (TimeSeriesType × SeriesFamily H))
  | .addRequests items => do
    let parts : List (RequestParts H) ← items.mapM buildRequestParts
    pure (parts.map fun p => (p.metadata.timeSeriesType, p.metadata.family))
  | .replaceOwner oldOwner newOwner category =>
    .ok ((s.db.rows.filter (Catalog.ownedBy oldOwner category)).map fun r =>
      (r.timeSeriesType, { r.family with ownerId := newOwner }))
  | .copyTimeSeries src dst ty name => do
    let found ← s.db.getById (ArrayBackend.getTimestamps s.arrays.backend) src
    pure (found.toList.map fun m =>
      (m.timeSeriesType, TimeSeriesMetadata.family (copiedRow m dst ty name)))
  | .importAssociationRows rows => .ok (rows.map fun m => (m.timeSeriesType, m.family))
  | .transformSingleTimeSeries _ _ category resolution _ => do
    let sources ← s.db.list (some (ArrayBackend.getTimestamps s.arrays.backend)) none
      (Catalog.singleInScope resolution category)
    pure (sources.map fun src => (.deterministicSingleTimeSeries, src.family))
  | _ => .ok []

/-- The rows that stay as they are while an operation files its own. -/
def staying (s : Store H B) : Op H → List (AssociationRow H)
  | .replaceOwner oldOwner _ category =>
    s.db.rows.filter fun r => !Catalog.ownedBy oldOwner category r
  | _ => s.db.rows

/-- An operation would bring a dense forecast and a view together in one family, one of them at least
a row it files. -/
def Clashes (s : Store H B) (op : Op H) : Prop :=
  ∃ files, s.filing op = .ok files ∧ ∃ x ∈ files,
    ∃ y ∈ files ++ (s.staying op).map fun r => (r.timeSeriesType, r.family),
      exclusiveCounterpart x.1 = some y.1 ∧ x.2 = y.2

/-- The rows a chain files are there, by type and by family. -/
theorem Chain.present {ms : List (TimeSeriesMetadata H)} {cache : SharedSetCache H}
    {db db' : Catalog H} {y : List ℤ × SharedSetCache H} (h : Chain InsertedFree ms cache db y db') :
    (∀ m ∈ ms, ∃ r ∈ db'.rows, (r.timeSeriesType, r.family) = (m.timeSeriesType, m.family)) ∧
      ∀ r ∈ db.rows, r ∈ db'.rows := by
  obtain ⟨h1, -, h3⟩ := (h.mono fun _ _ _ _ _ h => h.2).references
  refine ⟨fun m hm => ?_, h1⟩
  obtain ⟨id, -, hr⟩ := h3 m hm
  exact ⟨_, hr, rfl⟩

/-- Unless it is a transform, an operation that succeeds has filed its rows beside those that stay. -/
theorem Changed.present {s : Store H B} {op : Op H} {db : Catalog H} (h : Changed s op db)
    (hop : op.edits = true)
    (hnot : ∀ horizon interval category resolution policy,
      op ≠ .transformSingleTimeSeries horizon interval category resolution policy)
    {files : List (TimeSeriesType × SeriesFamily H)} (hf : s.filing op = .ok files)
    (hne : files ≠ []) :
    ∀ x ∈ files ++ (s.staying op).map fun r => (r.timeSeriesType, r.family),
      ∃ r ∈ db.rows, (r.timeSeriesType, r.family) = x := by
  intro x hx
  rw [List.mem_append] at hx
  cases op with
  | addRequests items =>
    obtain ⟨parts, cache, y, hbuilt, -, hchain⟩ := h
    obtain ⟨parts', hbuilt', hf⟩ := except_bind_eq_ok.mp hf
    rw [hbuilt, Except.ok.injEq] at hbuilt'
    subst hbuilt'
    cases hf
    obtain ⟨h1, h2⟩ := Chain.present hchain
    rcases hx with hx | hx
    · obtain ⟨p, hp, rfl⟩ := List.mem_map.mp hx
      exact h1 _ (List.mem_map_of_mem hp)
    · obtain ⟨r, hr, rfl⟩ := List.mem_map.mp hx
      exact ⟨r, h2 r hr, rfl⟩
  | replaceOwner oldOwner newOwner category =>
    obtain ⟨-, n, hmove⟩ := h
    rw [Catalog.moveOwner_rows hmove]
    rcases hx with hx | hx
    · cases hf
      obtain ⟨r, hr, rfl⟩ := List.mem_map.mp hx
      obtain ⟨hr, ho⟩ := List.mem_filter.mp hr
      refine ⟨_, List.mem_map_of_mem hr, ?_⟩
      rw [Catalog.movedRow_family ho, (Catalog.movedRow_series oldOwner newOwner category r).2.1]
    · obtain ⟨r, hr, rfl⟩ := List.mem_map.mp hx
      obtain ⟨hr, ho⟩ := List.mem_filter.mp hr
      rw [Bool.not_eq_true'] at ho
      exact ⟨_, List.mem_map_of_mem hr, by rw [Catalog.movedRow_of_not_owned ho]⟩
  | copyTimeSeries src dst ty name =>
    obtain ⟨id, m, hcopy⟩ := h
    obtain ⟨found, hfound, hf⟩ := except_bind_eq_ok.mp hf
    rw [hcopy.source, Except.ok.injEq] at hfound
    subst hfound
    cases hf
    obtain ⟨cache, -, hone⟩ := hcopy.filed
    obtain ⟨hmem, -⟩ := hone.spec
    rcases hx with hx | hx
    · rw [Option.toList_some, List.map_singleton, List.mem_singleton] at hx
      exact ⟨_, (hmem _).mpr (Or.inl rfl), hx.symm⟩
    · obtain ⟨r, hr, rfl⟩ := List.mem_map.mp hx
      exact ⟨r, (hmem r).mpr (Or.inr hr), rfl⟩
  | importAssociationRows rows =>
    cases hf
    obtain ⟨y, hchain⟩ := h.chain
    obtain ⟨h1, h2⟩ := Chain.present hchain
    rcases hx with hx | hx
    · obtain ⟨m, hm, rfl⟩ := List.mem_map.mp hx
      refine h1 m (List.mem_append.mpr ?_)
      rcases hv : isView m with _ | _
      · exact Or.inl (List.mem_filter.mpr ⟨hm, by rw [hv]; rfl⟩)
      · exact Or.inr (List.mem_filter.mpr ⟨hm, hv⟩)
    · obtain ⟨r, hr, rfl⟩ := List.mem_map.mp hx
      exact ⟨r, h2 r hr, rfl⟩
  | transformSingleTimeSeries horizon interval category resolution policy =>
    exact absurd rfl (hnot horizon interval category resolution policy)
  | removeByIds ids owner =>
    cases hf
    exact absurd rfl hne
  | clearTimeSeries owner =>
    cases hf
    exact absurd rfl hne
  | _ => cases hop

/-- An operation that succeeds brings no two types together. -/
theorem Changed.not_clashes {s : Store H B} {op : Op H} {db : Catalog H} (h : Changed s op db)
    (hop : op.edits = true) (hx : s.db.Exclusive) : ¬ s.Clashes op := by
  rintro ⟨files, hf, x, hxf, y, hy, he, hfam⟩
  by_cases ht : ∃ horizon interval category resolution policy,
      op = .transformSingleTimeSeries horizon interval category resolution policy
  · obtain ⟨horizon, interval, category, resolution, policy, rfl⟩ := ht
    obtain ⟨sources, hlist, hf⟩ := except_bind_eq_ok.mp hf
    cases hf
    obtain ⟨src, hsrc, rfl⟩ := List.mem_map.mp hxf
    rw [List.mem_append] at hy
    rcases hy with hy | hy
    · obtain ⟨src', -, rfl⟩ := List.mem_map.mp hy
      cases he
    · obtain ⟨r, hr, rfl⟩ := List.mem_map.mp hy
      rcases h with ⟨-, hnone⟩ | ⟨sources', views, hd, -⟩
      · obtain ⟨r', hr', hscope, -⟩ := Catalog.mem_list hlist hsrc
        rw [hnone r' hr'] at hscope
        cases hscope
      · have hsame := hd.listed
        rw [hlist, Except.ok.injEq] at hsame
        exact hd.free src (by rw [← hsame]; exact hsrc) r hr (Option.some.inj he).symm hfam.symm
  · have hpresent := h.present hop
      (fun horizon interval category resolution policy e =>
        ht ⟨horizon, interval, category, resolution, policy, e⟩) hf (List.ne_nil_of_mem hxf)
    obtain ⟨a, ha, rfl⟩ := hpresent x (List.mem_append_left _ hxf)
    obtain ⟨b, hb, rfl⟩ := hpresent y hy
    exact h.exclusive hx a ha b hb he hfam

/-- Where an operation that clashes fails, it leaves the catalog exactly as it was. -/
theorem Failed.of_clash {s : Store H B} {op : Op H} {db : Catalog H} (h : Failed s op db)
    (hc : s.Clashes op) : db = s.db := by
  cases op with
  | addRequests items =>
    obtain ⟨files, hf, x, hxf, y, hy, he, hfam⟩ := hc
    obtain ⟨parts, hbuilt, hf⟩ := except_bind_eq_ok.mp hf
    cases hf
    obtain hdb | ⟨parts', hbuilt', hdb | ⟨-, m, hm, hdb | ⟨hfree, -⟩⟩⟩ := h
    · exact hdb
    · exact hdb
    · exact hdb
    · -- the one row to file was found free
      exfalso
      have hone : ∀ z ∈ parts.map fun p => (p.metadata.timeSeriesType, p.metadata.family),
          z = (m.timeSeriesType, m.family) := by
        intro z hz
        obtain ⟨p, hp, rfl⟩ := List.mem_map.mp hz
        have hmem : p.metadata ∈ parts.map (·.metadata) := List.mem_map_of_mem hp
        rw [Except.ok.inj (hbuilt.symm.trans hbuilt'), hm, List.mem_singleton] at hmem
        rw [hmem]
      rw [hone x hxf] at he hfam
      rcases List.mem_append.mp hy with hy | hy
      · rw [hone y hy] at he
        exact exclusiveCounterpart_ne he rfl
      · obtain ⟨r, hr, rfl⟩ := List.mem_map.mp hy
        exact hfree.ne hr he hfam.symm
  | _ => exact h

theorem Clashes.edits {s : Store H B} {op : Op H} (h : s.Clashes op) : op.edits = true := by
  obtain ⟨files, hf, x, hx, -⟩ := h
  cases op with
  | beginTransaction | commitTransaction | rollbackTransaction | flush | setWriteBufferBytes |
    compact =>
    cases hf
    exact (List.not_mem_nil hx).elim
  | _ => rfl

/-- **Dense forecasts and derived views exclude each other.**  In every reachable store no owner holds
both in one family, in the present catalog or in one that a rollback may bring back; and an operation
that would bring two together, one of them at least a row it files, returns an error and leaves the
catalog as it was, unless the engine takes the open transaction back. -/
theorem exclusivity {s : Store H B} (h : s.Reachable) :
    (∀ c ∈ s.catalogs, c.Exclusive) ∧
      ∀ t : Turn H, s.Clashes t.op → s.succeeds t = false ∧
        (((s.turned t).conn.savepoints = s.conn.savepoints ∧ (s.turned t).db = s.db) ∨
          RolledBack (s.arm t.faults).conn (s.turned t).conn) := by
  have hall : ∀ c ∈ s.catalogs, c.Exclusive :=
    h.catalogs Catalog.Exclusive.empty fun _ _ _ _ hx hleft => hleft.exclusive hx
  refine ⟨hall, fun t hc => ?_⟩
  have hclash : (s.arm t.faults).Clashes t.op := hc
  have hout : Outcome (s.arm t.faults).conn (fun (_ : Unit) db => Changed (s.arm t.faults) t.op db)
      (Failed (s.arm t.faults) t.op) ((turn t).exec s).1 (s.turned t).conn :=
    step_edits (h.inv.arm t.faults) hclash.edits
  unfold succeeds
  rcases hr : ((turn t).exec s).1 with e | u
  · rw [hr] at hout
    exact ⟨rfl, hout.2.imp_left fun hf => ⟨hf.1, hf.2.of_clash hclash⟩⟩
  · rw [hr] at hout
    exact absurd hclash (Changed.not_clashes hout.2.2 hclash.edits (hall _ List.mem_cons_self))

end

namespace Sample

/-- An hour. -/
def hour : Period := .fixed ⟨3600000000000, Duration.valid_hour⟩

/-- Derive views of one-hour windows. -/
def derive : Turn Digest := ⟨.transformSingleTimeSeries hour hour none none ⟨false, false, false⟩, []⟩

/-- Two one-hour windows of one owner. -/
def forecast (ownerId : ℤ) : AddRequest :=
  { ownerId, ownerType := "Bus", ownerCategory := .component
    data := .deterministic
      { data := ⟨.u8, [1, 2], [7, 7]⟩, name := "load", elementType := .scalar .u8
        units := none, quantityKind := none, unitSystem := none, timeReference := none
        componentField := none, applicationData := none, initialTimestamp := .epoch
        resolution := hour, horizon := hour, interval := hour, count := 2 }
    features := .empty }

/-- A series and the view derived from it. -/
def viewed : Store Digest (MemoryBackend Digest) :=
  after [⟨.addRequests [request 1 7], []⟩, derive]

/-- The family of the series of an owner. -/
def family (ownerId : ℤ) : SeriesFamily Digest :=
  ⟨ownerId, .component, "load", some hour.toIso8601, featuresHash .empty⟩

theorem forecast_clashes : viewed.Clashes (.addRequests [forecast 1]) := by
  refine ⟨[(.deterministic, family 1)], rfl, _, List.mem_cons_self,
    (.deterministicSingleTimeSeries, family 1), ?_, rfl, rfl⟩
  decide +kernel

/-- A dense forecast of the same family is refused. -/
theorem exclusivity_viewed :
    viewed.succeeds ⟨.addRequests [forecast 1], []⟩ = false ∧
      viewed.succeeds ⟨.addRequests [forecast 2], []⟩ = true :=
  ⟨((exclusivity (after_reachable [⟨.addRequests [request 1 7], []⟩, derive])).2
    ⟨.addRequests [forecast 1], []⟩ forecast_clashes).1, by decide +kernel⟩

end Sample

end Store

end InfraStore
