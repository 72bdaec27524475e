import InfraStore.Filing
import InfraStore.MetadataFilter
import InfraStore.SharedSets

/-!
# Identities

A row is filed under its owner, type, name, periods and features, and is found again by the identity a
listing reads back.

* `AssociationRow.Spelt`: the periods of a row are columns a period prints to;
* `Hydrated.identity`: a record read back has the identity of its row;
* `identity_filed`: the theorem.
-/

namespace InfraStore

open Lib

/-! ### Period columns -/

/-- The period columns are printed periods. -/
structure AssociationRow.Spelt {H : Type} (r : AssociationRow H) : Prop where
  resolution : ∃ p : Option Period, r.resolution = p.map Period.toIso8601
  horizon : ∃ p : Option Period, r.horizon = p.map Period.toIso8601
  interval : ∃ p : Option Period, r.interval = p.map Period.toIso8601

theorem TimeSeriesMetadata.toRow_spelt {H : Type} [Sha256 H] [FloatText] (m : TimeSeriesMetadata H)
    (id : ℤ) : (m.toRow id).Spelt := ⟨⟨_, rfl⟩, ⟨_, rfl⟩, ⟨_, rfl⟩⟩

/-- A printed period that parses prints as it did. -/
theorem parsePeriod_spelt {column : ℕ} {p : Option Period} {q : Option Period}
    (h : AssociationRow.parseColumn (AssociationRow.parsePeriod column) (p.map Period.toIso8601) = .ok q) :
    q.map Period.toIso8601 = p.map Period.toIso8601 := by
  cases p with
  | none =>
    cases h
    rfl
  | some p =>
    have hparse : AssociationRow.parsePeriod column p.toIso8601 = .ok p.wholeMillis := by
      unfold AssociationRow.parsePeriod
      rw [Period.fromIso8601_toIso8601]
    change (AssociationRow.parsePeriod column p.toIso8601).map some = .ok q at h
    rw [hparse] at h
    cases h
    exact congrArg some (Period.toIso8601_wholeMillis p)

section

set_option linter.unusedSectionVars false

variable {H : Type} [DecidableEq H] [Sha256 H] [FloatText]

/-- A row that parses gives its periods back. -/
theorem AssociationRow.Spelt.parse {r : AssociationRow H} (hs : r.Spelt) {m : TimeSeriesMetadata H}
    (h : r.parse = .ok m) : m.resolution.map Period.toIso8601 = r.resolution ∧
      m.horizon.map Period.toIso8601 = r.horizon ∧
      m.interval.map Period.toIso8601 = r.interval := by
  obtain ⟨⟨p, hp⟩, ⟨q, hq⟩, ⟨i, hi⟩⟩ := hs
  unfold AssociationRow.parse at h
  simp only [except_bind_eq_ok] at h
  obtain ⟨_, -, _, -, _, -, _, -, _, -, _, h1, _, h2, _, h3, h⟩ := h
  cases h
  rw [hp] at h1 ⊢
  rw [hq] at h2 ⊢
  rw [hi] at h3 ⊢
  exact ⟨parsePeriod_spelt h1, parsePeriod_spelt h2, parsePeriod_spelt h3⟩

namespace Catalog

/-- **A record read back** has the identity of its row. -/
theorem Hydrated.identity {c : Catalog H} {vectors : H → Result (List DateTime)}
    {r : AssociationRow H} {m : TimeSeriesMetadata H} (h : c.Hydrated vectors r m) (hs : r.Spelt)
    (hf : featuresHash m.features = r.featuresHash) (id : ℤ) : (m.toRow id).identity = r.identity := by
  obtain ⟨-, htype, howner, hcategory, hname⟩ := h.series
  obtain ⟨hres, -, hint⟩ := hs.parse h.parse
  unfold AssociationRow.identity TimeSeriesMetadata.toRow
  rw [IdentityKey.mk.injEq]
  exact ⟨howner, hcategory, htype, hname, congrArg (·.getD "") hres, congrArg (·.getD "") hint, hf⟩

/-- The filter of a record's identity matches the rows with the identity of the row it was read from. -/
theorem Interned.identity_holds [Glob] {U : Set Features} {c : Catalog H} (hc : c.Interned U)
    (hU : Set.InjOn (featuresHash (H := H)) U) (hempty : Features.empty ∈ U)
    (hs : ∀ f ∈ U, f.Storable) {vectors : H → Result (List DateTime)} {r : AssociationRow H}
    {m : TimeSeriesMetadata H} (hr : r ∈ c.rows) (hspelt : r.Spelt) (hm : c.Hydrated vectors r m)
    (x : AssociationRow H) :
    (identityFilter m.keyIdentity : MetadataFilter H).holds x = true ↔ x.identity = r.identity := by
  obtain ⟨f, -, hread, hash⟩ := hc.rowFeatures hU hempty hs hr
  rw [hm.features, Except.ok.injEq] at hread
  rw [identityFilter_holds m 0 x, hm.identity hspelt (by rw [hread]; exact hash)]

/-- Two rows of one identity are the same row. -/
theorem eq_of_identity {c : Catalog H} {a b : AssociationRow H} (ha : a ∈ c.rows) (hb : b ∈ c.rows)
    (h : a.identity = b.identity) : a = b :=
  List.inj_on_of_nodup_map (List.pairwise_map.mpr c.unique) ha hb h

/-- Two rows whose records read back to one identity are the same row. -/
theorem Interned.eq_of_keyIdentity [Glob] {U : Set Features} {c : Catalog H} (hc : c.Interned U)
    (hU : Set.InjOn (featuresHash (H := H)) U) (hempty : Features.empty ∈ U)
    (hs : ∀ f ∈ U, f.Storable) {vectors : H → Result (List DateTime)} {a b : AssociationRow H}
    {m n : TimeSeriesMetadata H} (ha : a ∈ c.rows) (hb : b ∈ c.rows) (hspelt : a.Spelt ∧ b.Spelt)
    (hm : c.Hydrated vectors a m) (hn : c.Hydrated vectors b n) (h : m.keyIdentity = n.keyIdentity) :
    a = b := by
  have hmatch := (hc.identity_holds hU hempty hs ha hspelt.1 hm a).mpr rfl
  rw [h] at hmatch
  exact eq_of_identity ha hb ((hc.identity_holds hU hempty hs hb hspelt.2 hn a).mp hmatch)

/-- The rows with a row's identity are that row. -/
theorem filter_identity {c : Catalog H} {r : AssociationRow H} (hr : r ∈ c.rows)
    {p : AssociationRow H → Bool} (hp : ∀ x, p x = true ↔ x.identity = r.identity) :
    c.rows.filter p = [r] := by
  have hnodup : (c.rows.filter p).Nodup :=
    (c.ordered.imp fun h => fun e => (ne_of_lt h) (congrArg AssociationRow.id e)).filter _
  refine List.perm_singleton.mp ((List.perm_ext_iff_of_nodup hnodup (List.nodup_singleton r)).mpr
    fun x => ?_)
  rw [List.mem_filter, List.mem_singleton, hp]
  exact ⟨fun h => eq_of_identity h.1 hr h.2, fun h => by rw [h]; exact ⟨hr, rfl⟩⟩

end Catalog

end

namespace Store

section

set_option linter.unusedSectionVars false

variable {H B : Type} [DecidableEq H] [ArrayBackend H B] [Sha256 H] [FloatText] [ToString H]
  [LawfulArrayBackend H B]

/-- Every row ever filed has printed periods. -/
theorem Reachable.spelt {s : Store H B} (h : s.Reachable) : ∀ r ∈ s.db.rows, r.Spelt :=
  h.by_true.rows (P := AssociationRow.Spelt) (fun _ _ hr => ⟨hr.resolution, hr.horizon, hr.interval⟩)
    (fun _ _ m id _ _ _ _ => m.toRow_spelt id) s.db List.mem_cons_self

/-- **Identities.**  Every row's features read back to a map with the row's hash; no two rows share an
identity, as they are stored or as they are read; and the record of a listed row names that row alone,
which looking its identity up finds again. -/
theorem identity_filed [Glob] {U : Set Features} (hU : Set.InjOn (featuresHash (H := H)) U)
    (hempty : Features.empty ∈ U) (hs : ∀ f ∈ U, f.Storable) {s : Store H B}
    (h : s.ReachableBy (SetTurn U)) :
    (∀ r ∈ s.db.rows, ∃ f, s.db.rowFeatures r = .ok f ∧ featuresHash f = r.featuresHash) ∧
    (∀ a ∈ s.db.rows, ∀ b ∈ s.db.rows, a.identity = b.identity → a = b) ∧
    (∀ a b m n, s.ReadsAs a m → s.ReadsAs b n → m.keyIdentity = n.keyIdentity → a = b) ∧
    ∀ (f : MetadataFilter H) ms, s.db.listFilter
        (some (ArrayBackend.getTimestamps s.arrays.backend)) f = .ok ms → ∀ m ∈ ms,
      ∃ r ∈ s.db.rows, m.id = some r.id ∧
        (∀ x ∈ s.db.rows, (identityFilter m.keyIdentity).holds x = true ↔ x = r) ∧
        s.db.listFilter (some (ArrayBackend.getTimestamps s.arrays.backend))
          (identityFilter m.keyIdentity) = .ok [m] := by
  have hinterned : s.db.Interned U := (h.steady hU hempty hs).interned _ List.mem_cons_self
  have hspelt := h.reachable.spelt
  refine ⟨fun r hr => ?_, fun a ha b hb => Catalog.eq_of_identity ha hb, fun a b m n ha hb he => ?_,
    fun f ms hlist m hm => ?_⟩
  · obtain ⟨f, -, hread, hash⟩ := hinterned.rowFeatures hU hempty hs hr
    exact ⟨f, hread, hash⟩
  · exact hinterned.eq_of_keyIdentity hU hempty hs ha.1 hb.1 ⟨hspelt a ha.1, hspelt b hb.1⟩ ha.2 hb.2 he
  · obtain ⟨r, hr, -, hy⟩ := Catalog.mem_list hlist hm
    have hkey := hinterned.identity_holds hU hempty hs hr (hspelt r hr) hy
    have hsame : ∀ x ∈ s.db.rows, x.identity = r.identity ↔ x = r := fun x hx =>
      ⟨Catalog.eq_of_identity hx hr, fun e => by rw [e]⟩
    refine ⟨r, hr, hy.id, fun x hx => (hkey x).trans (hsame x hx), ?_⟩
    unfold Catalog.listFilter
    have honly : List.Forall₂ (s.db.Hydrated (ArrayBackend.getTimestamps s.arrays.backend))
        (s.db.rows.filter (identityFilter m.keyIdentity).holds) [m] := by
      rw [Catalog.filter_identity hr hkey]
      exact .cons hy .nil
    rw [Catalog.list_hydrated honly]
    rfl

end

namespace Sample

scoped instance : Glob := ⟨fun pattern s => pattern = s⟩

/-- The tagged series is found by the identity it is listed with. -/
theorem identity_filed_tagged :
    remembering.db.rows ≠ [] ∧ ∀ r ∈ remembering.db.rows, ∃ f,
      remembering.db.rowFeatures r = .ok f ∧ featuresHash f = r.featuresHash :=
  ⟨by decide +kernel, (identity_filed tags_injOn (Or.inl rfl) tags_storable
    remembering_reachable).1⟩

/-- One feature, as it is given and as it is stored. -/
def signed : Features := Features.empty.insert "angle" (.float ⟨0x8000000000000000⟩)

def unsigned : Features := Features.empty.insert "angle" (.float ⟨0⟩)

/-- A record of another owner over the array of a series, with a feature. -/
def signedRows : List (TimeSeriesMetadata Digest) :=
  match buildRequestParts (request 1 7) with
  | .ok p => [{ p.metadata with ownerId := 2, features := signed }]
  | .error _ => []

/-- A store that such a record was imported into. -/
def signedStore : Store Digest (MemoryBackend Digest) :=
  after [⟨.addRequests [request 1 7], []⟩, ⟨.importAssociationRows signedRows, []⟩]

/-- An imported row whose features read back under another hash, so that the identity it is listed with
finds nothing. -/
theorem identity_negative_zero :
    signedStore.Reachable ∧
    (∃ r ∈ signedStore.db.rows, signedStore.db.rowFeatures r = .ok unsigned ∧
      featuresHash unsigned ≠ r.featuresHash) ∧
    (∃ ms, signedStore.db.listFilter (some (ArrayBackend.getTimestamps signedStore.arrays.backend))
        { ownerId := some 2 } = .ok ms ∧ ∃ m ∈ ms,
      signedStore.db.listFilter (some (ArrayBackend.getTimestamps signedStore.arrays.backend))
        (identityFilter m.keyIdentity) = .ok []) :=
  ⟨after_reachable _, by decide +kernel, by
    refine ⟨signedRows.map fun m => { m with features := unsigned, id := some 2 }, ?_⟩
    decide +kernel⟩

end Sample

end Store

end InfraStore
