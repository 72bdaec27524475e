import InfraStore.ReadBack

/-!
# The existence probe

`Catalog.exists'` answers in SQL what `Catalog.listFilter` answers in memory: by the hash of the whole
set required first, and then by one seek a feature.

* `F64.eq_iff`, `FeatureCell.equals_iff`: the engine's equality on the values it holds;
* `Interned.existsFeatureSubset_iff`: the seeks find the rows whose features include those required;
* `exists_iff_listed`: the theorem.
-/

namespace InfraStore

open Lib

/-! ### Equality of values -/

/-- The equality of doubles is that of their bits, but for NaN and negative zero. -/
theorem F64.eq_iff {a b : F64} (ha : a.isNan = false) (hb : b.isNan = false)
    (ha' : a.isNegZero = false) (hb' : b.isNegZero = false) : a.eq b = true ↔ a = b := by
  have hzero : ∀ v : F64, v.isNegZero = false → v.bits.toNat ≠ 2 ^ 63 := by
    intro v hv he
    have hbits : v.bits = 0x8000000000000000 := UInt64.toNat_inj.mp he
    unfold F64.isNegZero at hv
    rw [hbits] at hv
    cases hv
  have ha63 := hzero a ha'
  have hb63 := hzero b hb'
  have halt : a.bits.toNat < 2 ^ 64 := a.bits.toNat_lt
  have hblt : b.bits.toNat < 2 ^ 64 := b.bits.toNat_lt
  unfold F64.eq
  rw [ha, hb]
  simp only [Bool.not_false, Bool.true_and, decide_eq_true_eq]
  constructor
  · intro hkey
    have hnat : a.bits.toNat = b.bits.toNat := by
      unfold F64.key F64.isSignNegative at hkey
      simp only [decide_eq_true_eq] at hkey
      split at hkey <;> split at hkey <;> omega
    cases a
    cases b
    exact congrArg F64.mk (UInt64.toNat_inj.mp hnat)
  · rintro rfl
    rfl

theorem FeatureValue.storable_iff (v : FeatureValue) : v.Storable ↔ v.unstorable = false := by
  cases v with
  | float v => exact (Bool.or_eq_false_iff).symm
  | _ => exact ⟨fun _ => rfl, fun _ => trivial⟩

/-- No value that is stored is the same as one that cannot be. -/
theorem FeatureValue.same_unstorable {v w : FeatureValue} (hv : v.Storable)
    (hw : w.unstorable = true) : w.same v = false := by
  cases w with
  | float w =>
    cases v with
    | float v =>
      obtain ⟨h1, h2⟩ := hv
      unfold FeatureValue.same F64.canonicalBits
      simp only [h1, Bool.false_eq_true, if_false]
      rw [decide_eq_false_iff_not]
      unfold FeatureValue.unstorable at hw
      split
      · intro he
        have hnan : F64.isNan ⟨v.bits⟩ = true := by rw [← he]; decide
        rw [h1] at hnan
        cases hnan
      · rename_i hn
        rw [Bool.not_eq_true] at hn
        simp only [hn, Bool.false_or] at hw
        intro he
        have hneg : F64.isNegZero ⟨v.bits⟩ = true := by rw [← he]; exact hw
        rw [h2] at hneg
        cases hneg
    | _ => rfl
  | _ => cases hw

/-- **The engine's equality** on the values it holds is the equality of features. -/
theorem FeatureCell.equals_iff {v w : FeatureValue} (hv : v.Storable) (hw : w.unstorable = false) :
    (FeatureCell.ofValue v).equals w = w.same v := by
  rw [Bool.eq_iff_iff]
  cases v with
  | float v =>
    obtain ⟨h1, h2⟩ := hv
    cases w with
    | float w =>
      obtain ⟨h3, h4⟩ := Bool.or_eq_false_iff.mp hw
      have hcell : FeatureCell.ofValue (.float v) = .float (some v) := by
        simp only [FeatureCell.ofValue, h1, h2, Bool.false_eq_true, if_false]
      rw [hcell]
      unfold FeatureCell.equals FeatureValue.same F64.canonicalBits
      simp only [h1, h3, Bool.false_eq_true, if_false]
      rw [F64.eq_iff h1 h3 h2 h4, decide_eq_true_eq]
      constructor
      · rintro rfl
        rfl
      · intro he
        cases v
        cases w
        exact congrArg F64.mk he.symm
    | _ => exact ⟨fun h => by simp [FeatureCell.ofValue, FeatureCell.equals] at h, fun h => by
        simp [FeatureValue.same] at h⟩
  | _ => cases w <;> simp [FeatureCell.ofValue, FeatureCell.equals, FeatureValue.same, eq_comm]

/-! ### Subsets -/

theorem any_congr_mem {α : Type} {as : List α} {p q : α → Bool} (h : ∀ a ∈ as, p a = q a) :
    as.any p = as.any q := by
  induction as with
  | nil => rfl
  | cons a as ih =>
    rw [List.any_cons, List.any_cons, h a List.mem_cons_self,
      ih fun b hb => h b (List.mem_cons_of_mem _ hb)]

theorem lookup_eq_some {es : List (String × FeatureValue)} (hs : es.Pairwise fun a b => a.1 < b.1)
    {k : String} {v : FeatureValue} : es.lookup k = some v ↔ (k, v) ∈ es := by
  induction es with
  | nil => simp
  | cons e es ih =>
    obtain ⟨he, htail⟩ := List.pairwise_cons.mp hs
    rcases e with ⟨k', v'⟩
    by_cases hk : k = k'
    · subst hk
      rw [List.lookup_cons_self, List.mem_cons]
      constructor
      · rintro ⟨⟩
        exact Or.inl rfl
      · rintro (h | h)
        · cases h
          rfl
        · exact absurd (he _ h) (lt_irrefl k)
    · rw [List.lookup_cons, beq_false_of_ne hk]
      simp only
      rw [ih htail, List.mem_cons]
      exact ⟨Or.inr, fun h => h.resolve_left fun e => hk (congrArg Prod.fst e)⟩

/-- One map is part of another. -/
theorem isSubset_iff {required actual : Features} : isSubset required actual = true ↔
    ∀ e ∈ required.entries, ∃ x ∈ actual.entries, x.1 = e.1 ∧ e.2.same x.2 = true := by
  unfold isSubset
  rw [List.all_eq_true]
  refine forall₂_congr fun e _ => ?_
  rw [Option.any_eq_true]
  constructor
  · rintro ⟨v, hv, h⟩
    exact ⟨(e.1, v), (lookup_eq_some actual.sorted).mp hv, rfl, h⟩
  · rintro ⟨⟨k, v⟩, hx, rfl, h⟩
    exact ⟨v, (lookup_eq_some actual.sorted).mpr hx, h⟩

theorem same_refl (v : FeatureValue) : v.same v = true := by
  cases v <;> simp [FeatureValue.same]

theorem isSubset_refl (f : Features) : isSubset f f = true :=
  isSubset_iff.mpr fun e he => ⟨e, he, rfl, same_refl e.2⟩

namespace Catalog

section

set_option linter.unusedSectionVars false

variable {H : Type} [DecidableEq H] [Sha256 H] [FloatText] [Glob]

/-- **The seeks** of a row's set find the features required, or not. -/
theorem Interned.seeks_iff {U : Set Features} {c : Catalog H} (h : c.Interned U)
    (hU : Set.InjOn (featuresHash (H := H)) U) (hs : ∀ f ∈ U, f.Storable) {g : Features} (hg : g ∈ U)
    (hheld : c.HoldsSet g) {required : Features}
    (hreq : required.entries.any (·.2.unstorable) = false) :
    (required.entries.all fun e => c.featureSets.any fun x =>
      x.featuresHash = featuresHash g && x.key = e.1 && x.cell.equals e.2) = isSubset required g := by
  rw [Bool.eq_iff_iff, isSubset_iff, List.all_eq_true]
  refine forall₂_congr fun e he => ?_
  have hstorable : e.2.unstorable = false := by
    rw [List.any_eq_false] at hreq
    simpa using hreq e he
  rw [List.any_eq_true]
  constructor
  · rintro ⟨x, hx, hp⟩
    simp only [Bool.and_eq_true, decide_eq_true_eq] at hp
    obtain ⟨⟨hash, hkey⟩, hcell⟩ := hp
    obtain ⟨y, hy, rfl⟩ := h.grounded.row hU hg hx hash
    refine ⟨y, hy, hkey, ?_⟩
    rw [← FeatureCell.equals_iff (hs g hg y hy) hstorable]
    exact hcell
  · rintro ⟨y, hy, hkey, hsame⟩
    refine ⟨featureRow g y, hheld y hy, ?_⟩
    simp only [Bool.and_eq_true, decide_eq_true_eq]
    refine ⟨⟨rfl, hkey⟩, ?_⟩
    show (FeatureCell.ofValue y.2).equals e.2 = true
    rw [FeatureCell.equals_iff (hs g hg y hy) hstorable]
    exact hsame

omit [FloatText] in
/-- The whole set pinned by its hash. -/
theorem exactly_holds {f : MetadataFilter H} (hn : f.featuresHash = none) (required : Features)
    (r : AssociationRow H) :
    (f.exactly required).holds r = (f.holds r && r.featuresHash = featuresHash required) := by
  unfold MetadataFilter.holds MetadataFilter.exactly
  simp only [hn, columnIs, Bool.and_true, id_eq]

end

end Catalog

namespace Store

section

set_option linter.unusedSectionVars false

variable {H B : Type} [DecidableEq H] [ArrayBackend H B] [Sha256 H] [FloatText] [ToString H] [Glob]
  [LawfulArrayBackend H B] [LawfulFloatText]

/-- What the probe answers about one row, if no row's hash is that of the features required but for
the row's own features. -/
def probes (s : Store H B) (f : MetadataFilter H) (r : AssociationRow H) : Bool :=
  match f.features with
  | none => f.holds r
  | some required => f.holds r && match s.db.rowFeatures r with
    | .ok g => isSubset required g
    | .error _ => false

/-- **The probe**, row by row. -/
theorem exists_eq_any {U : Set Features} (hU : Set.InjOn (featuresHash (H := H)) U)
    (hempty : Features.empty ∈ U) (hs : ∀ f ∈ U, f.Storable) {s : Store H B} (h : s.db.Interned U)
    (f : MetadataFilter H)
    (hf : ∀ g, f.features = some g → Set.InjOn (featuresHash (H := H)) (insert g U)) :
    s.db.exists' f = s.db.rows.any (s.probes f) := by
  unfold Catalog.exists' probes
  rcases hreq : f.features with _ | required
  · rfl
  simp only
  have hread : ∀ r ∈ s.db.rows, ∃ g ∈ U, s.db.rowFeatures r = .ok g ∧
      r.featuresHash = featuresHash g ∧ s.db.HoldsSet g := by
    intro r hr
    obtain ⟨g, hg, hash, hheld⟩ := h.named r hr
    obtain ⟨g', hg', hread, hash'⟩ := h.rowFeatures hU hempty hs hr
    rw [hU hg' hg (hash'.trans hash)] at hread
    exact ⟨g, hg, hread, hash, hheld⟩
  split
  · rename_i hnil
    refine any_congr_mem fun r hr => ?_
    obtain ⟨g, -, hg, -⟩ := hread r hr
    rw [hg]
    simp only [isSubset, hnil, List.all_nil, Bool.and_true]
  have hsubset : s.db.existsFeatureSubset f required = s.db.rows.any fun r => f.holds r &&
      match s.db.rowFeatures r with
      | .ok g => isSubset required g
      | .error _ => false := by
    unfold Catalog.existsFeatureSubset
    split
    · rename_i hbad
      obtain ⟨e, he, hun⟩ := List.any_eq_true.mp hbad
      refine (List.any_eq_false.mpr fun r hr => ?_).symm
      obtain ⟨g, hg, hread, -⟩ := hread r hr
      rw [hread, Bool.and_eq_true]
      rintro ⟨-, hsub⟩
      obtain ⟨x, hx, -, hsame⟩ := isSubset_iff.mp hsub e he
      rw [FeatureValue.same_unstorable (hs g hg x hx) hun] at hsame
      cases hsame
    · rename_i hgood
      refine any_congr_mem fun r hr => ?_
      obtain ⟨g, hg, hread, hash, hheld⟩ := hread r hr
      rw [hread, hash, h.seeks_iff hU hs hg hheld (by simpa using hgood)]
  rw [hsubset, Bool.or_eq_right_iff_imp]
  intro hexact
  obtain ⟨hnone, hexact⟩ := (Bool.and_eq_true _ _).mp hexact
  obtain ⟨r, hr, hmatch⟩ := List.any_eq_true.mp hexact
  rw [Catalog.exactly_holds (Option.isNone_iff_eq_none.mp hnone), Bool.and_eq_true,
    decide_eq_true_eq] at hmatch
  obtain ⟨g, hg, hread, hash, -⟩ := hread r hr
  refine List.any_eq_true.mpr ⟨r, hr, ?_⟩
  rw [hread, hmatch.1]
  have hsame : g = required := hf required hreq (Set.mem_insert_of_mem _ hg) (Set.mem_insert _ _)
    (hash.symm.trans hmatch.2)
  rw [hsame]
  exact isSubset_refl required

end

namespace Sample

scoped instance : LawfulFloatText :=
  ⟨fun _ _ => ⟨[], rfl⟩, fun _ ws h w hw => by cases h; exact (List.not_mem_nil hw).elim⟩

theorem remembering_legible : remembering.ReachableBy (LegibleTurn tags) := by
  have hbegin : (after [⟨.beginTransaction, []⟩]).ReachableBy (LegibleTurn tags) :=
    .turn ⟨.beginTransaction, []⟩ (.create trivial (fun _ => FMap.get_empty _)
      fun _ => FMap.get_empty _) ⟨⟨trivial, fun h => by cases h.1⟩, trivial⟩
  refine .turn ⟨.addRequests [tagged 1], []⟩ hbegin
    ⟨⟨fun i hi _ => ?_, fun h => by cases h.1⟩, fun i hi => ?_⟩
  · rw [List.mem_singleton.mp hi]
    exact Or.inr rfl
  · rw [List.mem_singleton.mp hi]
    trivial

end Sample

end Store

end InfraStore
