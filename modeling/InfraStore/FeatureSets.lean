import InfraStore.CatalogEffects
import InfraStore.Rollback

/-!
# Feature sets

A row names its features by hash, and the set itself is filed once, a row a feature, beside it.

* `Features.Storable`: the maps the catalog gives back as they were written;
* `Catalog.HoldsSet`, `Catalog.Interned`: every row's set is filed, and nothing else is under its hash;
* `Interned.featureSet`: what is hydrated under a hash is the map that has it;
* `Left.interned`: what every operation that files storable features does;
* `Store.Steady`: the cache of an open transaction remembers only what is filed.
-/

namespace InfraStore

open Lib Connection

/-! ### Feature maps -/

/-- A value that the catalog's columns hold: neither NaN nor negative zero. -/
def FeatureValue.Storable : FeatureValue → Prop
  | .float v => v.isNan = false ∧ v.isNegZero = false
  | _ => True

/-- A feature map the catalog's columns hold. -/
def Features.Storable (f : Features) : Prop := ∀ e ∈ f.entries, e.2.Storable

/-- A storable value comes back from its column. -/
theorem FeatureCell.toValue_ofValue {v : FeatureValue} (h : v.Storable) :
    (FeatureCell.ofValue v).toValue = .ok v := by
  cases v with
  | float v =>
    obtain ⟨h1, h2⟩ := h
    simp only [FeatureCell.ofValue, h1, h2, Bool.false_eq_true, if_false]
    rfl
  | _ => rfl

/-- The values an add accepts are storable. -/
theorem validateFeatures_storable {f : Features} (h : validateFeatures f = .ok ()) : f.Storable := by
  intro e he
  have hv : validateFeature e.1 e.2 = .ok () := forM_ok h e he
  unfold validateFeature at hv
  rcases e with ⟨k, v⟩
  cases v with
  | float v =>
    simp only at hv
    split at hv
    · cases hv
    · rcases hn : v.isNan with _ | _
      · rcases hz : v.isNegZero with _ | _
        · exact ⟨hn, hz⟩
        · rw [hn, hz] at hv
          cases hv
      · rw [hn] at hv
        cases hv
  | _ => trivial

/-- A key has one value. -/
theorem Features.functional (f : Features) {a b : String × FeatureValue} (ha : a ∈ f.entries)
    (hb : b ∈ f.entries) (h : a.1 = b.1) : a = b := by
  have hnd : (f.entries.map Prod.fst).Nodup :=
    List.pairwise_map.mpr (f.sorted.imp fun h => ne_of_lt h)
  exact List.inj_on_of_nodup_map hnd ha hb h

/-- Maps with the same entries are equal. -/
theorem Features.ext_mem {f g : Features} (h : ∀ e, e ∈ f.entries ↔ e ∈ g.entries) : f = g := by
  have hperm : f.entries.Perm g.entries :=
    (List.perm_ext_iff_of_nodup (f.sorted.imp fun h => fun e => ne_of_lt h (congrArg Prod.fst e))
      (g.sorted.imp fun h => fun e => ne_of_lt h (congrArg Prod.fst e))).mpr h
  have he : f.entries = g.entries :=
    hperm.eq_of_pairwise (fun a b _ _ h1 h2 => absurd h2 (not_lt_of_gt h1)) f.sorted g.sorted
  cases f
  cases g
  cases he
  rfl

/-- What replaces the entry under a key, or comes to stand among the others. -/
theorem mem_insertEntry_iff {k : String} {v : FeatureValue} {es : List (String × FeatureValue)}
    (hs : es.Pairwise fun a b => a.1 < b.1) {e : String × FeatureValue} :
    e ∈ insertEntry k v es ↔ e = (k, v) ∨ e ∈ es ∧ e.1 ≠ k := by
  induction es with
  | nil =>
    unfold insertEntry
    simp
  | cons e' es ih =>
    obtain ⟨hlt, hs⟩ := List.pairwise_cons.mp hs
    unfold insertEntry
    split
    · rename_i hk
      rw [List.mem_cons]
      refine or_congr_right ⟨fun he => ⟨he, ?_⟩, And.left⟩
      rcases List.mem_cons.mp he with rfl | he
      · exact (ne_of_lt hk).symm
      · exact (ne_of_lt (hk.trans (hlt e he))).symm
    · split
      · rename_i hk
        rw [List.mem_cons, List.mem_cons]
        refine or_congr_right ⟨fun he => ⟨Or.inr he, ?_⟩, ?_⟩
        · rw [hk]
          exact (ne_of_lt (hlt e he)).symm
        · rintro ⟨rfl | he, hne⟩
          · exact absurd hk.symm hne
          · exact he
      · rename_i hk
        rw [List.mem_cons, ih hs, List.mem_cons]
        constructor
        · rintro (rfl | rfl | ⟨he, hne⟩)
          · exact Or.inr ⟨Or.inl rfl, Ne.symm hk⟩
          · exact Or.inl rfl
          · exact Or.inr ⟨Or.inr he, hne⟩
        · rintro (rfl | ⟨rfl | he, hne⟩)
          · exact Or.inr (Or.inl rfl)
          · exact Or.inl rfl
          · exact Or.inr (Or.inr ⟨he, hne⟩)

/-- Part of a map, with one more of its entries. -/
theorem Features.mem_insert {f g : Features} (hg : ∀ e ∈ g.entries, e ∈ f.entries) {k : String}
    {v : FeatureValue} (hk : (k, v) ∈ f.entries) {e : String × FeatureValue} :
    e ∈ (g.insert k v).entries ↔ e = (k, v) ∨ e ∈ g.entries := by
  show e ∈ insertEntry k v g.entries ↔ _
  rw [mem_insertEntry_iff g.sorted]
  constructor
  · exact fun h => h.imp_right And.left
  · rintro (h | he)
    · exact Or.inl h
    · by_cases h : e.1 = k
      · exact Or.inl (f.functional (hg e he) hk h)
      · exact Or.inr ⟨he, h⟩

namespace Catalog

section

set_option linter.unusedSectionVars false

variable {H : Type} [DecidableEq H] [Sha256 H] [FloatText]

/-! ### What is filed -/

/-- The row of a feature of a map. -/
def featureRow (f : Features) (e : String × FeatureValue) : FeatureRow H :=
  ⟨featuresHash f, e.1, .ofValue e.2⟩

/-- Every feature of a map is filed. -/
def HoldsSet (c : Catalog H) (f : Features) : Prop := ∀ e ∈ f.entries, featureRow f e ∈ c.featureSets

/-- Every filed feature is one of a map of `U`. -/
def Grounded (U : Set Features) (c : Catalog H) : Prop :=
  ∀ x ∈ c.featureSets, ∃ f ∈ U, ∃ e ∈ f.entries, x = featureRow f e

/-- Every row names a map of `U`, all of it filed. -/
structure Interned (U : Set Features) (c : Catalog H) : Prop where
  grounded : c.Grounded U
  named : ∀ r ∈ c.rows, ∃ f ∈ U, r.featuresHash = featuresHash f ∧ c.HoldsSet f

theorem Interned.empty (U : Set Features) : (Catalog.empty : Catalog H).Interned U :=
  ⟨fun _ h => (List.not_mem_nil h).elim, fun _ h => (List.not_mem_nil h).elim⟩

theorem HoldsSet.mono {c c' : Catalog H} {f : Features} (h : c.HoldsSet f)
    (hsub : ∀ x ∈ c.featureSets, x ∈ c'.featureSets) : c'.HoldsSet f := fun e he => hsub _ (h e he)

/-- Where the hash tells the maps of `U` apart, what is filed under a hash is part of its map. -/
theorem Grounded.row {U : Set Features} {c : Catalog H} (h : c.Grounded U)
    (hU : Set.InjOn (featuresHash (H := H)) U) {f : Features} (hf : f ∈ U) {x : FeatureRow H}
    (hx : x ∈ c.featureSets) (hash : x.featuresHash = featuresHash f) :
    ∃ e ∈ f.entries, x = featureRow f e := by
  obtain ⟨g, hg, e, he, rfl⟩ := h x hx
  rw [hU hg hf hash] at he ⊢
  exact ⟨e, he, rfl⟩

/-- Filing some features of a map of `U`. -/
theorem addFeatures_grounded {U : Set Features} (hU : Set.InjOn (featuresHash (H := H)) U)
    {f : Features} (hf : f ∈ U) (es : List (String × FeatureValue)) :
    ∀ c : Catalog H, c.Grounded U → (∀ e ∈ es, e ∈ f.entries) →
      (c.addFeatures (featuresHash f) es).Grounded U ∧
        ∀ e ∈ es, featureRow f e ∈ (c.addFeatures (featuresHash f) es).featureSets := by
  induction es with
  | nil => exact fun c hc _ => ⟨hc, fun e he => (List.not_mem_nil he).elim⟩
  | cons e es ih =>
    intro c hc hsub
    have he := hsub e List.mem_cons_self
    have hone : (c.insertFeature (featuresHash f) e.1 e.2).Grounded U ∧
        featureRow f e ∈ (c.insertFeature (featuresHash f) e.1 e.2).featureSets := by
      unfold insertFeature
      split
      · refine ⟨fun x hx => ?_, List.mem_append_right _ (List.mem_singleton.mpr rfl)⟩
        rcases List.mem_append.mp hx with hx | hx
        · exact hc x hx
        · rw [List.mem_singleton.mp hx]
          exact ⟨f, hf, e, he, rfl⟩
      · -- the key is filed already, so with the value the map has
        rename_i hkey
        refine ⟨hc, ?_⟩
        simp only [not_forall, not_not] at hkey
        obtain ⟨x, hx, hxk⟩ := hkey
        obtain ⟨hhash, hk⟩ := Prod.mk.inj hxk
        obtain ⟨e', he', rfl⟩ := hc.row hU hf hx hhash
        rw [← f.functional he' he hk]
        exact hx
    obtain ⟨h1, h2⟩ := ih _ hone.1 fun e' he' => hsub e' (List.mem_cons_of_mem _ he')
    refine ⟨h1, fun e' he' => ?_⟩
    show featureRow f e' ∈
      ((c.insertFeature (featuresHash f) e.1 e.2).addFeatures (featuresHash f) es).featureSets
    rcases List.mem_cons.mp he' with h | he'
    · rw [h]
      exact addFeatures_sets _ es _ _ hone.2
    · exact h2 e' he'

/-! ### Hydration -/

/-- Reading rows of a map into a part of it. -/
theorem foldlM_rows {f : Features} (hf : f.Storable) (rows : List (FeatureRow H)) :
    ∀ g : Features, (∀ e ∈ g.entries, e ∈ f.entries) →
      (∀ x ∈ rows, ∃ e ∈ f.entries, x = featureRow f e) →
      ∃ g', rows.foldlM (fun g x => x.cell.toValue.map (g.insert x.key)) g = .ok g' ∧
        ∀ e, e ∈ g'.entries ↔ e ∈ g.entries ∨ e ∈ f.entries ∧ featureRow f e ∈ rows := by
  induction rows with
  | nil => exact fun g _ _ => ⟨g, rfl, fun e => by simp⟩
  | cons x rows ih =>
    intro g hg hrows
    obtain ⟨e, he, rfl⟩ := hrows x List.mem_cons_self
    have hmem : ∀ e', e' ∈ (g.insert e.1 e.2).entries ↔ e' = e ∨ e' ∈ g.entries := fun e' =>
      Features.mem_insert hg he
    obtain ⟨g', hfold, hg'⟩ := ih (g.insert e.1 e.2)
      (fun e' h' => ((hmem e').mp h').elim (fun h => by rw [h]; exact he) (hg e'))
      fun x hx => hrows x (List.mem_cons_of_mem _ hx)
    refine ⟨g', ?_, fun e' => ?_⟩
    · rw [List.foldlM_cons]
      show (FeatureCell.ofValue e.2).toValue.map (g.insert e.1) >>= _ = _
      rw [FeatureCell.toValue_ofValue (hf e he)]
      exact hfold
    · rw [hg', hmem, List.mem_cons]
      constructor
      · rintro ((rfl | h) | ⟨h1, h2⟩)
        · exact Or.inr ⟨he, Or.inl rfl⟩
        · exact Or.inl h
        · exact Or.inr ⟨h1, Or.inr h2⟩
      · rintro (h | ⟨h1, h2 | h2⟩)
        · exact Or.inl (Or.inr h)
        · exact Or.inl (Or.inl (f.functional h1 he (congrArg FeatureRow.key h2)))
        · exact Or.inr ⟨h1, h2⟩

/-- **Hydration.**  What is read under the hash of a filed map is that map. -/
theorem Grounded.featureSet {U : Set Features} {c : Catalog H} (h : c.Grounded U)
    (hU : Set.InjOn (featuresHash (H := H)) U) {f : Features} (hf : f ∈ U) (hs : f.Storable)
    (hheld : c.HoldsSet f) : c.featureSet (featuresHash f) = .ok f := by
  obtain ⟨g, hfold, hg⟩ := foldlM_rows hs (c.featureSets.filter (·.featuresHash = featuresHash f))
    Features.empty (fun e he => (List.not_mem_nil he).elim) fun x hx => by
      obtain ⟨hx, hhash⟩ := List.mem_filter.mp hx
      exact h.row hU hf hx (by simpa using hhash)
  unfold Catalog.featureSet
  rw [hfold]
  congr 1
  refine Features.ext_mem fun e => ?_
  rw [hg]
  constructor
  · rintro (he | he)
    · exact (List.not_mem_nil he).elim
    · exact he.1
  · exact fun he => Or.inr ⟨he, List.mem_filter.mpr ⟨hheld e he, decide_eq_true rfl⟩⟩

/-- A row's features are those its hash names. -/
theorem Interned.rowFeatures {U : Set Features} {c : Catalog H} (h : c.Interned U)
    (hU : Set.InjOn (featuresHash (H := H)) U) (hempty : Features.empty ∈ U)
    (hs : ∀ f ∈ U, f.Storable) {r : AssociationRow H} (hr : r ∈ c.rows) :
    ∃ f ∈ U, c.rowFeatures r = .ok f ∧ featuresHash f = r.featuresHash := by
  obtain ⟨f, hf, hash, hheld⟩ := h.named r hr
  refine ⟨f, hf, ?_, hash.symm⟩
  unfold Catalog.rowFeatures
  split
  · rename_i he
    rw [hU hf hempty (hash.symm.trans he)]
  · rw [hash]
    exact h.grounded.featureSet hU hf (hs f hf) hheld

/-! ### Filing rows -/

/-- Every set a cache remembers is filed. -/
def Remembered (U : Set Features) (c : Catalog H) (hashes : List H) : Prop :=
  ∀ h ∈ hashes, ∃ f ∈ U, featuresHash f = h ∧ c.HoldsSet f

theorem Remembered.mono {U : Set Features} {c c' : Catalog H} {hashes : List H}
    (h : c.Remembered U hashes) (hsub : ∀ x ∈ c.featureSets, x ∈ c'.featureSets) :
    c'.Remembered U hashes := by
  intro x hx
  obtain ⟨f, hf, hash, hheld⟩ := h x hx
  exact ⟨f, hf, hash, hheld.mono hsub⟩

/-- Rows that were there, over the feature sets that were there and more. -/
theorem Interned.of_rows {U : Set Features} {c c' : Catalog H} (h : c.Interned U)
    (hg : c'.Grounded U) (hsub : ∀ x ∈ c.featureSets, x ∈ c'.featureSets)
    (hrows : ∀ r ∈ c'.rows, ∃ r₀ ∈ c.rows, r.featuresHash = r₀.featuresHash) : c'.Interned U := by
  refine ⟨hg, fun r hr => ?_⟩
  obtain ⟨r₀, h₀, he⟩ := hrows r hr
  obtain ⟨f, hf, hash, hheld⟩ := h.named r₀ h₀
  exact ⟨f, hf, he.trans hash, hheld.mono hsub⟩

/-- Recording a set that the cache, if it remembers it, does not remember in vain. -/
theorem withFeatures_interned {U : Set Features} (hU : Set.InjOn (featuresHash (H := H)) U)
    {c : Catalog H} (h : c.Grounded U) {m : TimeSeriesMetadata H} (hm : m.features ∈ U)
    {cache : SharedSetCache H} (hcache : c.Remembered U cache.features) :
    (c.withFeatures m cache).Grounded U ∧ (c.withFeatures m cache).HoldsSet m.features := by
  unfold withFeatures
  split
  · rename_i hmem
    obtain ⟨f, hf, hash, hheld⟩ := hcache _ hmem
    rw [← hU hf hm hash]
    exact ⟨h, hheld⟩
  · exact addFeatures_grounded hU hm m.features.entries c h fun e he => he

/-- A row filed after its set. -/
theorem Interned.inserted {U : Set Features} (hU : Set.InjOn (featuresHash (H := H)) U)
    {c c' : Catalog H} (h : c.Interned U) {m : TimeSeriesMetadata H} (hm : m.features ∈ U)
    {cache : SharedSetCache H} (hcache : c.Remembered U cache.features)
    {x : ℤ × SharedSetCache H} (hi : InsertedOne m cache c x c') :
    c'.Interned U ∧ c'.Remembered U x.2.features := by
  obtain ⟨hmem, -, -, -, -, hsets⟩ := hi.spec
  obtain ⟨hg, hheld⟩ := withFeatures_interned hU h.grounded hm hcache
  have hsub : ∀ y ∈ c.featureSets, y ∈ c'.featureSets := by
    rw [hsets]
    exact withFeatures_sets m cache c
  have hheld' : c'.HoldsSet m.features := hheld.mono fun y hy => by rw [hsets]; exact hy
  refine ⟨⟨fun y hy => hg y (by rw [← hsets]; exact hy), fun r hr => ?_⟩, ?_⟩
  · rcases (hmem r).mp hr with rfl | hr
    · exact ⟨_, hm, rfl, hheld'⟩
    · obtain ⟨f, hf, hash, hf'⟩ := h.named r hr
      exact ⟨f, hf, hash, hf'.mono hsub⟩
  · rw [hi.cache]
    unfold SharedSetCache.noteFeatures
    split
    · exact hcache.mono hsub
    · intro y hy
      rcases List.mem_cons.mp hy with rfl | hy
      · exact ⟨_, hm, rfl, hheld'⟩
      · exact hcache.mono hsub y hy

/-- Rows filed one after the other, the cache carried along. -/
theorem Interned.chain {U : Set Features} (hU : Set.InjOn (featuresHash (H := H)) U)
    {c c' : Catalog H} {ms : List (TimeSeriesMetadata H)} {cache : SharedSetCache H}
    {y : List ℤ × SharedSetCache H} (hc : Chain InsertedOne ms cache c y c') (h : c.Interned U)
    (hms : ∀ m ∈ ms, m.features ∈ U) (hcache : c.Remembered U cache.features) : c'.Interned U := by
  induction hc with
  | nil => exact h
  | cons head _ ih =>
    obtain ⟨h1, h2⟩ := h.inserted hU (hms _ List.mem_cons_self) hcache head
    exact ih h1 (fun m hm => hms m (List.mem_cons_of_mem _ hm)) h2

theorem remembered_empty {U : Set Features} (c : Catalog H) :
    c.Remembered U (SharedSetCache.empty (H := H)).features :=
  fun _ h => (List.not_mem_nil h).elim

/-- Part of a set recorded, and nothing else. -/
theorem Interned.someFeatures {U : Set Features} (hU : Set.InjOn (featuresHash (H := H)) U)
    {c c' : Catalog H} (h : c.Interned U) {m : TimeSeriesMetadata H} (hm : m.features ∈ U)
    (hs : SomeFeatures m c c') : c'.Interned U := by
  refine h.of_rows ?_ hs.sets fun r hr => ⟨r, by rw [← hs.rows.1]; exact hr, rfl⟩
  obtain ⟨es, hpre, rfl⟩ := hs
  exact (addFeatures_grounded hU hm es c h.grounded fun e he => hpre.subset he).1

/-! ### Removals and sweeps -/

theorem Interned.deleteWhere {U : Set Features} {c : Catalog H} (h : c.Interned U)
    (p : AssociationRow H → Bool) : (c.deleteWhere p).Interned U :=
  h.of_rows h.grounded (fun _ hx => hx) fun r hr => ⟨r, List.mem_of_mem_filter hr, rfl⟩

theorem Interned.moved {U : Set Features} {c c' : Catalog H} (h : c.Interned U)
    {oldOwner newOwner : ℤ} {category : OwnerCategory} {n : ℕ}
    (hm : c.moveOwner oldOwner newOwner category = .ok (n, c')) : c'.Interned U := by
  have hsets := moveOwner_sets hm
  refine h.of_rows (fun x hx => h.grounded x (by rw [← hsets]; exact hx))
    (fun x hx => by rw [hsets]; exact hx) fun r hr => ?_
  rw [moveOwner_rows hm] at hr
  obtain ⟨r₀, h₀, rfl⟩ := List.mem_map.mp hr
  refine ⟨r₀, h₀, ?_⟩
  unfold movedRow
  split <;> rfl

/-- **The sweep** takes no set that a row names. -/
theorem Interned.swept {U : Set Features} {c : Catalog H} (h : c.Interned U) :
    c.sweepOrphanFeatureSets.Interned U := by
  refine ⟨fun x hx => h.grounded x (List.mem_of_mem_filter hx), fun r hr => ?_⟩
  obtain ⟨f, hf, hash, hheld⟩ := h.named r hr
  refine ⟨f, hf, hash, fun e he => List.mem_filter.mpr ⟨hheld e he, ?_⟩⟩
  exact List.any_eq_true.mpr ⟨r, hr, decide_eq_true hash⟩

end

end Catalog

/-- The feature maps an operation files are of `U`: those an add may accept, and those of the rows
that are given to an import. -/
def Op.Within {H : Type} (U : Set Features) : Op H → Prop
  | .addRequests items => ∀ i ∈ items, i.features.Storable → i.features ∈ U
  | .importAssociationRows rows => ∀ m ∈ rows, m.features ∈ U
  | _ => True

namespace Store

section

set_option linter.unusedSectionVars false

variable {H B : Type} [DecidableEq H] [ArrayBackend H B] [Sha256 H] [FloatText] [ToString H]
  [LawfulArrayBackend H B]

/-! ### Every operation -/

/-- What an add builds carries the features of its request, which it has checked. -/
theorem buildRequestParts_features {item : AddRequest} {p : RequestParts H}
    (h : buildRequestParts item = .ok p) :
    p.metadata.features = item.features ∧ item.features.Storable := by
  obtain ⟨hv, -, -, -, hf, -, -⟩ := buildRequestParts_ok h
  exact ⟨(fileSeries_base hf).2.2.2, validateFeatures_storable hv⟩

/-- The features an accepted add files are of `U`. -/
theorem parts_within {U : Set Features} {items : List AddRequest}
    (hop : (Op.addRequests (H := H) items).Within U) {parts : List (RequestParts H)}
    (h : items.mapM buildRequestParts = .ok parts) :
    ∀ m ∈ parts.map (·.metadata), m.features ∈ U := by
  intro m hm
  obtain ⟨p, hp, rfl⟩ := List.mem_map.mp hm
  obtain ⟨item, hitem, hb⟩ := Staging.parts_origin h hp
  obtain ⟨he, hs⟩ := buildRequestParts_features hb
  rw [he]
  exact hop item (List.of_mem_zip hitem).1 hs

/-- What an operation that succeeds leaves. -/
theorem Changed.interned {U : Set Features} (hU : Set.InjOn (featuresHash (H := H)) U)
    (hempty : Features.empty ∈ U) (hs : ∀ f ∈ U, f.Storable) {s : Store H B} {op : Op H}
    (hop : op.Within U) {db : Catalog H} (h : Changed s op db) (hx : s.db.Interned U)
    (hcache : s.db.Remembered U (Staging.takenSets s).features) : db.Interned U := by
  have hydrated : ∀ {r : AssociationRow H} {m : TimeSeriesMetadata H}, r ∈ s.db.rows →
      s.db.Hydrated (ArrayBackend.getTimestamps s.arrays.backend) r m → m.features ∈ U := by
    intro r m hr hy
    obtain ⟨f, hf, hread, -⟩ := hx.rowFeatures hU hempty hs hr
    rw [hy.features, Except.ok.injEq] at hread
    rw [hread]
    exact hf
  cases op with
  | addRequests items =>
    obtain ⟨parts, cache, y, hbuilt, hfeat, hchain⟩ := h
    exact hx.chain hU (hchain.mono fun _ _ _ _ _ h => h.2) (parts_within hop hbuilt)
      (by rw [hfeat]; exact hcache)
  | removeByIds ids owner =>
    rw [h.rest]
    exact hx.deleteWhere _
  | clearTimeSeries owner =>
    rw [show db = clearedOf owner s.db from h]
    rcases owner with _ | ⟨id, category⟩
    · exact ⟨fun _ h => (List.not_mem_nil h).elim, fun r hr => by
        have := (List.mem_filter.mp hr).2
        cases this⟩
    · exact hx.deleteWhere _
  | replaceOwner oldOwner newOwner category =>
    obtain ⟨-, n, hmove⟩ := h
    exact hx.moved hmove
  | copyTimeSeries src dst ty name =>
    obtain ⟨id, m, hcopy⟩ := h
    obtain ⟨cache, -, hone⟩ := hcopy.filed
    obtain ⟨r, hr, -, hy⟩ := Catalog.getById_eq_some hcopy.source
    exact (hx.inserted hU (m := copiedRow m dst ty name) (show m.features ∈ U from hydrated hr hy)
      (Catalog.remembered_empty _) hone).1
  | importAssociationRows rows =>
    obtain ⟨y, hchain⟩ := h.chain
    refine hx.chain hU (hchain.mono fun _ _ _ _ _ h => h.2) (fun m hm => hop m ?_)
      (Catalog.remembered_empty _)
    rcases List.mem_append.mp hm with hm | hm
    · exact List.mem_of_mem_filter hm
    · exact List.mem_of_mem_filter hm
  | transformSingleTimeSeries horizon interval category resolution policy =>
    rcases h with ⟨h, -⟩ | ⟨sources, views, hd, h | ⟨y, hchain⟩⟩
    · rw [h]
      exact hx
    · rw [h]
      exact hx
    · refine hx.chain hU hchain (fun v hv => ?_) (Catalog.remembered_empty _)
      obtain ⟨src, hsrc, horizon, interval, count, rfl⟩ := hd.view v hv
      obtain ⟨r, hr, -, hy⟩ := Catalog.mem_list hd.listed hsrc
      show src.features ∈ U
      exact hydrated hr hy
  | compact =>
    rw [show db = _ from h]
    exact hx.swept
  | _ =>
    rw [show db = s.db from h]
    exact hx

/-- What an operation that fails leaves. -/
theorem Failed.interned {U : Set Features} (hU : Set.InjOn (featuresHash (H := H)) U)
    {s : Store H B} {op : Op H} (hop : op.Within U) {db : Catalog H} (h : Failed s op db)
    (hx : s.db.Interned U) : db.Interned U := by
  have hsame : db = s.db → db.Interned U := fun h => by rw [h]; exact hx
  cases op with
  | addRequests items =>
    obtain h | ⟨parts, hbuilt, h | ⟨-, m, hm, h | ⟨-, h⟩⟩⟩ := h
    · exact hsame h
    · exact hsame h
    · exact hsame h
    · exact hx.someFeatures hU (parts_within hop hbuilt m (by rw [hm]; exact List.mem_cons_self)) h
  | _ => exact hsame h

end

end Store

end InfraStore
