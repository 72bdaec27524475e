import InfraStore.Connection

/-!
# The catalog operations

What the store's operations do to the catalog, statement by statement, and what each one may leave.

* `insertBatched`, `insertAssociation`, `insertAll`: filing rows, each after the feature set it names;
* `deleteById`, `deleteByOwner`, `deleteAll`, `replaceOwner`: removals and the owner move;
* `unreferencedIn`, `unreferenced`: which hashes no row references any more;
* `InsertedOne`, `Chain`: what filing one row, or several in turn, does to the catalog.
-/

namespace InfraStore

open Lib

set_option linter.unusedSectionVars false

/-- The shared sets a batch, or an open transaction, has already written. -/
structure SharedSetCache (H : Type) where
  features : List H
  timestamps : List H
  deriving DecidableEq

/-- The empty cache. -/
def SharedSetCache.empty {H : Type} : SharedSetCache H := ⟨[], []⟩

/-- Record a feature set. -/
def SharedSetCache.noteFeatures {H : Type} [DecidableEq H] (s : SharedSetCache H) (h : H) :
    SharedSetCache H :=
  if h ∈ s.features then s else { s with features := h :: s.features }

/-- Record a timestamp vector. -/
def SharedSetCache.noteTimestamps {H : Type} [DecidableEq H] (s : SharedSetCache H) (h : H) :
    SharedSetCache H :=
  if h ∈ s.timestamps then s else { s with timestamps := h :: s.timestamps }

/-- Arrays and explicit time axes of the array file, by content hash. -/
structure FileObjects (H : Type) where
  arrays : List H
  timestamps : List H
  deriving DecidableEq

namespace FileObjects

variable {H : Type}

def empty : FileObjects H := ⟨[], []⟩

def isEmpty (o : FileObjects H) : Bool := o.arrays.isEmpty && o.timestamps.isEmpty

def append (o other : FileObjects H) : FileObjects H :=
  ⟨o.arrays ++ other.arrays, o.timestamps ++ other.timestamps⟩

end FileObjects

/-- What a removal knew about the row it removed. -/
structure DeletedRow (H : Type) where
  dataHash : H
  timeSeriesType : TimeSeriesType
  ownerId : ℤ
  ownerCategory : OwnerCategory
  name : String
  resolution : Option Period
  featuresHash : H
  deriving DecidableEq

/-- The family a removed row belonged to. -/
def DeletedRow.family {H : Type} (r : DeletedRow H) : SeriesFamily H :=
  { ownerId := r.ownerId, ownerCategory := r.ownerCategory, name := r.name,
    resolution := r.resolution.map Period.toIso8601, featuresHash := r.featuresHash }

section

variable {H : Type} [DecidableEq H] [Sha256 H] [FloatText]

open Connection

/-! ### Filing rows -/

/-- Record a feature set under its content hash, a row a feature. -/
def insertFeatureSet (h : H) : List (String × FeatureValue) → StoreCmd (Connection H) Unit
  | [] => pure ()
  | e :: es => do
    statement fun db => .ok ((), db.insertFeature h e.1 e.2)
    insertFeatureSet h es

/-- Insert a row, its feature set before it unless the batch has already written that. -/
def insertBatched (m : TimeSeriesMetadata H) (cache : SharedSetCache H) :
    StoreCmd (Connection H) (ℤ × SharedSetCache H) := do
  let h : H := featuresHash m.features
  if h ∉ cache.features then insertFeatureSet h m.features.entries
  let id ← statement (Catalog.insertRow m)
  pure (id, cache.noteFeatures h)

/-- Reject a row that would put both exclusive types in one family. -/
def checkForecastFamilyFree (m : TimeSeriesMetadata H) (verb : String) :
    StoreCmd (Connection H) Unit := do
  match exclusiveCounterpart m.timeSeriesType with
  | none => pure ()
  | some counterpart => do
    let conflict ← query fun db => .ok (db.forecastFamilyConflict m.family counterpart)
    if conflict then
      throw (.invalidParameter
        s!"cannot {verb} {m.timeSeriesType.asStr} '{m.name}': a {counterpart.asStr} of the same series already exists; they are mutually exclusive")

/-- Insert one association, its family checked. -/
def insertAssociation (m : TimeSeriesMetadata H) (cache : SharedSetCache H) :
    StoreCmd (Connection H) (ℤ × SharedSetCache H) := do
  checkForecastFamilyFree m "add"
  insertBatched m cache

/-- Insert rows one after the other, the cache carried along. -/
def insertAll
    (insert : TimeSeriesMetadata H → SharedSetCache H →
      StoreCmd (Connection H) (ℤ × SharedSetCache H)) :
    List (TimeSeriesMetadata H) → SharedSetCache H →
      StoreCmd (Connection H) (List ℤ × SharedSetCache H)
  | [], cache => pure ([], cache)
  | m :: ms, cache => do
    let one ← insert m cache
    let rest ← insertAll insert ms one.2
    pure (one.1 :: rest.1, rest.2)

/-- Insert a view, whose source must be filed already. -/
def insertView (m : TimeSeriesMetadata H) (cache : SharedSetCache H) :
    StoreCmd (Connection H) (ℤ × SharedSetCache H) := do
  let hasSource ← query fun db => .ok (db.forecastFamilyConflict m.family .singleTimeSeries)
  if !hasSource then
    throw (.invalidParameter
      s!"cannot import DeterministicSingleTimeSeries '{m.name}' (owner {m.ownerId}): it is a view of a SingleTimeSeries that is neither in this document nor already stored")
  insertAssociation m cache

/-! ### Removals and moves -/

/-- A period read off a removed row. -/
def isoToPeriod (s : String) : Result Period :=
  match Period.fromIso8601 s with
  | .ok p => .ok p
  | .error (.invalidParameter e) =>
    .error (.integrityError s!"bad period '{s}' in catalog: invalid parameter: {e}")
  | .error _ => .error (.integrityError s!"bad period '{s}' in catalog")

/-- Delete the row filed under an id, guarded by its owner if one is given. -/
def deleteById (id : ℤ) (expectedOwner : Option (ℤ × OwnerCategory)) :
    StoreCmd (Connection H) (Option (DeletedRow H)) := do
  let found ← query fun db => .ok (db.rowById id)
  match found with
  | none => pure none
  | some r => do
    match expectedOwner with
    | some (expectedId, expectedCategory) =>
      if r.ownerId ≠ expectedId ∨ r.ownerCategory ≠ expectedCategory then
        throw (.ownerMismatch id expectedId expectedCategory.asStr r.ownerId r.ownerCategory.asStr)
    | none => pure ()
    statement fun db => .ok ((), db.deleteWhere (·.id = id))
    let resolution ← Cmd.ofExcept (AssociationRow.parseColumn isoToPeriod r.resolution)
    pure (some
      { dataHash := r.dataHash, timeSeriesType := r.timeSeriesType, ownerId := r.ownerId,
        ownerCategory := r.ownerCategory, name := r.name, resolution,
        featuresHash := r.featuresHash })

/-- Delete the rows named by ids, each once; the removed rows in turn. -/
def deleteIds (expectedOwner : Option (ℤ × OwnerCategory)) :
    List ℤ → List ℤ → StoreCmd (Connection H) (List (DeletedRow H))
  | [], _ => pure []
  | id :: ids, seen =>
    if id ∈ seen then deleteIds expectedOwner ids seen
    else do
      match ← deleteById id expectedOwner with
      | none => throw .notFound
      | some row => do
        let rows ← deleteIds expectedOwner ids (id :: seen)
        pure (row :: rows)

/-- Refuse a removal that leaves a view whose array no `SingleTimeSeries` of its family backs. -/
def checkNoOrphanedDst :
    List (DeletedRow H) → List (SeriesFamily H × Option Period × H) → StoreCmd (Connection H) Unit
  | [], _ => pure ()
  | row :: rows, seen =>
    let family := (row.family, row.resolution, row.dataHash)
    if family ∈ seen then checkNoOrphanedDst rows seen
    else do
      let probe (t : TimeSeriesType) : StoreCmd (Connection H) Bool :=
        query fun db => .ok (db.forecastFamilyConflictOnArray row.family row.dataHash t)
      if ← probe .deterministicSingleTimeSeries then
        if !(← probe .singleTimeSeries) then
          throw (.invalidParameter
            s!"cannot remove SingleTimeSeries '{row.name}' (owner {row.ownerId}): it backs a DeterministicSingleTimeSeries; remove the derived forecast first")
      checkNoOrphanedDst rows (family :: seen)

/-- Delete an owner's rows; the hashes they named. -/
def deleteByOwner (ownerId : ℤ) (category : OwnerCategory) : StoreCmd (Connection H) (List H) := do
  let hashes ← query fun db =>
    .ok ((db.rows.filter (Catalog.ownedBy ownerId category)).map AssociationRow.dataHash)
  statement fun db => .ok ((), db.deleteWhere (Catalog.ownedBy ownerId category))
  pure hashes

/-- Delete every row and every feature set; the hashes the rows named. -/
def deleteAll : StoreCmd (Connection H) (List H) := do
  let hashes ← query fun db => .ok (db.rows.map AssociationRow.dataHash)
  statement fun db => .ok ((), db.deleteWhere fun _ => true)
  statement fun db => .ok ((), db.deleteFeatureSets)
  pure hashes

/-- Move an owner's rows to another, unless that brings two exclusive types together. -/
def replaceOwnerRows (oldOwner newOwner : ℤ) (category : OwnerCategory) :
    StoreCmd (Connection H) ℕ := do
  let conflict ← query fun db =>
    .ok (db.forecastFamilyConflictOnOwnerMove oldOwner newOwner category)
  match conflict with
  | some (name, moving, existing) =>
    throw (.invalidParameter
      s!"cannot move owner {oldOwner} to {newOwner}: '{name}' would put a {moving.asStr} and a {existing.asStr} in the same series family; they are mutually exclusive")
  | none => statement (Catalog.moveOwner oldOwner newOwner category)

/-- The distinct candidates no row references. -/
def unreferencedIn (referenced : Catalog H → H → Bool) :
    List H → List H → StoreCmd (Connection H) (List H)
  | [], _ => pure []
  | h :: hs, seen =>
    if h ∈ seen then unreferencedIn referenced hs seen
    else do
      let used ← query fun db => .ok (referenced db h)
      let rest ← unreferencedIn referenced hs (h :: seen)
      pure (if used then rest else h :: rest)

/-- The part of the candidates the catalog no longer references, counted in one savepoint. -/
def unreferenced (candidates : FileObjects H) : StoreCmd (Connection H) (FileObjects H) :=
  if candidates.isEmpty then pure FileObjects.empty
  else withSavepoint do
    let arrays ← unreferencedIn Catalog.referencesArray candidates.arrays []
    let timestamps ← unreferencedIn Catalog.referencesTimestamps candidates.timestamps []
    pure ⟨arrays, timestamps⟩

/-! ### What filing a row does -/

/-- A catalog with a run of features recorded under one hash. -/
def Catalog.addFeatures (h : H) (es : List (String × FeatureValue)) (c : Catalog H) : Catalog H :=
  es.foldl (fun c e => c.insertFeature h e.1 e.2) c

theorem Catalog.insertFeature_rows (h : H) (k : String) (v : FeatureValue) (c : Catalog H) :
    (c.insertFeature h k v).rows = c.rows ∧ (c.insertFeature h k v).seq = c.seq := by
  unfold Catalog.insertFeature
  split <;> exact ⟨rfl, rfl⟩

theorem Catalog.insertFeature_sets (h : H) (k : String) (v : FeatureValue) (c : Catalog H) :
    ∀ f ∈ c.featureSets, f ∈ (c.insertFeature h k v).featureSets := by
  intro f hf
  unfold Catalog.insertFeature
  split
  · exact List.mem_append_left _ hf
  · exact hf

theorem Catalog.addFeatures_sets (h : H) (es : List (String × FeatureValue)) :
    ∀ c : Catalog H, ∀ f ∈ c.featureSets, f ∈ (c.addFeatures h es).featureSets := by
  induction es with
  | nil => exact fun c f hf => hf
  | cons e es ih => exact fun c f hf => ih _ f (Catalog.insertFeature_sets h e.1 e.2 c f hf)

theorem Catalog.addFeatures_rows (h : H) (es : List (String × FeatureValue)) :
    ∀ c : Catalog H, (c.addFeatures h es).rows = c.rows ∧ (c.addFeatures h es).seq = c.seq := by
  induction es with
  | nil => exact fun c => ⟨rfl, rfl⟩
  | cons e es ih =>
    intro c
    obtain ⟨h1, h2⟩ := ih (c.insertFeature h e.1 e.2)
    obtain ⟨h3, h4⟩ := Catalog.insertFeature_rows h e.1 e.2 c
    exact ⟨h1.trans h3, h2.trans h4⟩

/-- The catalog a row is inserted into: its feature set recorded, unless the batch has done so. -/
def Catalog.withFeatures (m : TimeSeriesMetadata H) (cache : SharedSetCache H) (c : Catalog H) :
    Catalog H :=
  if featuresHash m.features ∈ cache.features then c
  else c.addFeatures (featuresHash m.features) m.features.entries

theorem Catalog.withFeatures_rows (m : TimeSeriesMetadata H) (cache : SharedSetCache H)
    (c : Catalog H) :
    (c.withFeatures m cache).rows = c.rows ∧ (c.withFeatures m cache).seq = c.seq := by
  unfold Catalog.withFeatures
  split
  · exact ⟨rfl, rfl⟩
  · exact Catalog.addFeatures_rows _ _ _

theorem Catalog.withFeatures_sets (m : TimeSeriesMetadata H) (cache : SharedSetCache H)
    (c : Catalog H) : ∀ f ∈ c.featureSets, f ∈ (c.withFeatures m cache).featureSets := by
  unfold Catalog.withFeatures
  split
  · exact fun f hf => hf
  · exact Catalog.addFeatures_sets _ _ _

/-- One row is filed: what the catalog was, the id and the cache that come back, what it is. -/
structure InsertedOne (m : TimeSeriesMetadata H) (cache : SharedSetCache H) (db : Catalog H)
    (x : ℤ × SharedSetCache H) (db' : Catalog H) : Prop where
  row : (db.withFeatures m cache).insertRow m = .ok (x.1, db')
  cache : x.2 = cache.noteFeatures (featuresHash m.features)

/-- A row's family holds no type that excludes it. -/
def Catalog.FamilyFree (c : Catalog H) (m : TimeSeriesMetadata H) : Prop :=
  ∀ t, exclusiveCounterpart m.timeSeriesType = some t → ¬ c.forecastFamilyConflict m.family t = true

/-- Rows are filed one after the other. -/
inductive Chain (R : TimeSeriesMetadata H → SharedSetCache H → Catalog H →
      ℤ × SharedSetCache H → Catalog H → Prop) :
    List (TimeSeriesMetadata H) → SharedSetCache H → Catalog H →
      List ℤ × SharedSetCache H → Catalog H → Prop
  | nil (cache : SharedSetCache H) (db : Catalog H) : Chain R [] cache db ([], cache) db
  | cons {m : TimeSeriesMetadata H} {ms : List (TimeSeriesMetadata H)}
      {cache : SharedSetCache H} {db db₁ db₂ : Catalog H} {x : ℤ × SharedSetCache H}
      {y : List ℤ × SharedSetCache H} (head : R m cache db x db₁) (tail : Chain R ms x.2 db₁ y db₂) :
      Chain R (m :: ms) cache db (x.1 :: y.1, y.2) db₂

omit [FloatText] [Sha256 H] in
theorem Chain.mono {R R' : TimeSeriesMetadata H → SharedSetCache H → Catalog H →
      ℤ × SharedSetCache H → Catalog H → Prop} {ms : List (TimeSeriesMetadata H)}
    {cache : SharedSetCache H} {db db' : Catalog H} {y : List ℤ × SharedSetCache H}
    (h : Chain R ms cache db y db') (hR : ∀ m cache db x db', R m cache db x db' → R' m cache db x db') :
    Chain R' ms cache db y db' := by
  induction h with
  | nil cache db => exact .nil cache db
  | cons head _ ih => exact .cons (hR _ _ _ _ _ head) ih

/-- **Filing a row.**  The rows after an insert are the row and the ones before, its id and its
identity new. -/
theorem InsertedOne.spec {m : TimeSeriesMetadata H} {cache : SharedSetCache H} {db db' : Catalog H}
    {x : ℤ × SharedSetCache H} (h : InsertedOne m cache db x db') :
    (∀ r, r ∈ db'.rows ↔ r = m.toRow x.1 ∨ r ∈ db.rows) ∧
      (∀ r ∈ db.rows, r.id ≠ x.1) ∧ (∀ r ∈ db.rows, r.identity ≠ (m.toRow x.1).identity) ∧
      (m.id = none → x.1 = db.seq + 1) ∧ (∀ id, m.id = some id → x.1 = id) ∧
      db'.featureSets = (db.withFeatures m cache).featureSets := by
  obtain ⟨hrows, hseq⟩ := Catalog.withFeatures_rows m cache db
  have hrow := h.row
  unfold Catalog.insertRow at hrow
  obtain ⟨id, hid, hrow⟩ := except_bind_eq_ok.mp hrow
  split at hrow
  · rename_i h1
    split at hrow
    · rename_i h2
      obtain ⟨rfl, rfl⟩ := Prod.mk.inj (Except.ok.inj hrow)
      rw [hrows] at h1 h2
      refine ⟨fun r => ?_, h1, h2, fun hm => ?_, fun id' hm => ?_, rfl⟩
      · show r ∈ Catalog.insertSorted _ _ ↔ _
        rw [Catalog.mem_insertSorted, hrows]
      · unfold Catalog.nextId at hid
        rw [hm] at hid
        simp only at hid
        split at hid
        · cases hid
        · rw [← Except.ok.inj hid, hseq]
      · unfold Catalog.nextId at hid
        rw [hm] at hid
        exact (Except.ok.inj hid).symm
    · cases hrow
  · cases hrow

/-- What a catalog references once rows are filed. -/
theorem Chain.references {ms : List (TimeSeriesMetadata H)} {cache : SharedSetCache H}
    {db db' : Catalog H} {y : List ℤ × SharedSetCache H}
    (h : Chain InsertedOne ms cache db y db') :
    (∀ r ∈ db.rows, r ∈ db'.rows) ∧
      (∀ r ∈ db'.rows, r ∈ db.rows ∨ ∃ m ∈ ms, ∃ id ∈ y.1, r = m.toRow id) ∧
      (∀ m ∈ ms, ∃ id ∈ y.1, m.toRow id ∈ db'.rows) := by
  induction h with
  | nil cache db => exact ⟨fun r hr => hr, fun r hr => Or.inl hr, fun _ h => by cases h⟩
  | @cons m ms cache db db₁ db₂ x y head _ ih =>
    obtain ⟨hmem, -⟩ := head.spec
    obtain ⟨h1, h2, h3⟩ := ih
    refine ⟨fun r hr => h1 r ((hmem r).mpr (Or.inr hr)), fun r hr => ?_, fun m' hm' => ?_⟩
    · rcases h2 r hr with h | ⟨m', hm', id, hid, rfl⟩
      · rcases (hmem r).mp h with rfl | h
        · exact Or.inr ⟨m, List.mem_cons_self, x.1, List.mem_cons_self, rfl⟩
        · exact Or.inl h
      · exact Or.inr ⟨m', List.mem_cons_of_mem _ hm', id, List.mem_cons_of_mem _ hid, rfl⟩
    · rcases List.mem_cons.mp hm' with rfl | hm'
      · exact ⟨x.1, List.mem_cons_self, h1 _ ((hmem _).mpr (Or.inl rfl))⟩
      · obtain ⟨id, hid, h⟩ := h3 m' hm'
        exact ⟨id, List.mem_cons_of_mem _ hid, h⟩

/-- Each record of a chain is filed, under the id it was given. -/
theorem Chain.filed {ms : List (TimeSeriesMetadata H)} {cache : SharedSetCache H} {db db' : Catalog H}
    {y : List ℤ × SharedSetCache H} (h : Chain InsertedOne ms cache db y db') :
    ∀ m ∈ ms, ∃ id, (∀ i, m.id = some i → id = i) ∧ m.toRow id ∈ db'.rows := by
  induction h with
  | nil cache db => exact fun m hm => (List.not_mem_nil hm).elim
  | @cons m ms cache db db₁ db₂ x y head tail ih =>
    obtain ⟨hmem, -, -, -, hgiven, -⟩ := head.spec
    intro m' hm'
    cases List.mem_cons.mp hm' with
    | inl hfirst =>
      rw [hfirst]
      exact ⟨x.1, hgiven, tail.references.1 _ ((hmem _).mpr (Or.inl rfl))⟩
    | inr hrest => exact ih m' hrest

/-- Filing rows loses no feature set. -/
theorem Chain.sets {ms : List (TimeSeriesMetadata H)} {cache : SharedSetCache H}
    {db db' : Catalog H} {y : List ℤ × SharedSetCache H}
    (h : Chain InsertedOne ms cache db y db') : ∀ f ∈ db.featureSets, f ∈ db'.featureSets := by
  induction h with
  | nil => exact fun f hf => hf
  | cons head _ ih =>
    intro f hf
    obtain ⟨-, -, -, -, -, hsets⟩ := head.spec
    refine ih f ?_
    rw [hsets]
    exact Catalog.withFeatures_sets _ _ _ f hf

/-- Filing rows leaves the timestamp vectors of the cache alone. -/
theorem Chain.cache_timestamps {ms : List (TimeSeriesMetadata H)} {cache : SharedSetCache H}
    {db db' : Catalog H} {y : List ℤ × SharedSetCache H}
    (h : Chain InsertedOne ms cache db y db') : y.2.timestamps = cache.timestamps := by
  induction h with
  | nil => rfl
  | cons head _ ih =>
    rw [ih, head.cache]
    unfold SharedSetCache.noteFeatures
    split <;> rfl

/-- What a chain remembers is what the cache did and the sets of the rows it filed. -/
theorem Chain.cache_features {ms : List (TimeSeriesMetadata H)} {cache : SharedSetCache H}
    {db db' : Catalog H} {y : List ℤ × SharedSetCache H} (h : Chain InsertedOne ms cache db y db')
    {x : H} (hx : x ∈ y.2.features) :
    x ∈ cache.features ∨ ∃ m ∈ ms, x = featuresHash m.features := by
  induction h with
  | nil => exact Or.inl hx
  | @cons m ms cache db db₁ db₂ x' y head _ ih =>
    rcases ih hx with h | ⟨m', hm', h⟩
    · rw [head.cache] at h
      unfold SharedSetCache.noteFeatures at h
      split at h
      · exact Or.inl h
      · rcases List.mem_cons.mp h with h | h
        · exact Or.inr ⟨m, List.mem_cons_self, h⟩
        · exact Or.inl h
    · exact Or.inr ⟨m', List.mem_cons_of_mem _ hm', h⟩

/-! ### Specifications -/

theorem insertFeatureSet_outcome (h : H) (es : List (String × FeatureValue)) :
    ∀ c : Connection H, (insertFeatureSet h es).wp
      (Outcome c (fun _ db => db = c.db.addFeatures h es)
        (fun db => ∃ es', es' <+: es ∧ db = c.db.addFeatures h es')) c := by
  induction es with
  | nil => exact fun c => outcome_pure rfl
  | cons e es ih =>
    intro c
    unfold insertFeatureSet
    refine outcome_bind (P := fun _ db => db = c.db.insertFeature h e.1 e.2)
      (outcome_statement (fun _ db h => ?_) ⟨[], List.nil_prefix, rfl⟩) fun _ c₁ _ h₁ => ?_
    · cases h
      rfl
    · refine Cmd.wp_mono (ih c₁) fun r c₂ h₂ => h₂.mono (fun _ db hdb => ?_) fun db hdb => ?_
      · rw [hdb, h₁]
        rfl
      · obtain ⟨es', hp, rfl⟩ := hdb
        exact ⟨e :: es', (List.cons_prefix_cons).mpr ⟨rfl, hp⟩, by rw [h₁]; rfl⟩

/-- Some of a row's features recorded, and nothing else: what a failed insert may leave. -/
def Catalog.SomeFeatures (m : TimeSeriesMetadata H) (db db' : Catalog H) : Prop :=
  ∃ es, es <+: m.features.entries ∧ db' = db.addFeatures (featuresHash m.features) es

theorem Catalog.SomeFeatures.refl (m : TimeSeriesMetadata H) (db : Catalog H) :
    Catalog.SomeFeatures m db db := ⟨[], List.nil_prefix, rfl⟩

theorem Catalog.SomeFeatures.rows {m : TimeSeriesMetadata H} {db db' : Catalog H}
    (h : Catalog.SomeFeatures m db db') : db'.rows = db.rows ∧ db'.seq = db.seq := by
  obtain ⟨es, -, rfl⟩ := h
  exact Catalog.addFeatures_rows _ _ _

theorem Catalog.SomeFeatures.sets {m : TimeSeriesMetadata H} {db db' : Catalog H}
    (h : Catalog.SomeFeatures m db db') : ∀ f ∈ db.featureSets, f ∈ db'.featureSets := by
  obtain ⟨es, -, rfl⟩ := h
  exact Catalog.addFeatures_sets _ _ _

/-- What a failed insert of a row may leave: the catalog as it was or, when the row's family is free,
with part of its feature set recorded. -/
def Catalog.Attempted (m : TimeSeriesMetadata H) (db db' : Catalog H) : Prop :=
  db' = db ∨ db.FamilyFree m ∧ Catalog.SomeFeatures m db db'

/-- What a write that fails may leave: the catalog as it was or, inside a transaction, with part of the
feature set recorded of the one row it was to file. -/
def Catalog.Unfinished (inTxn : Bool) (ms : List (TimeSeriesMetadata H)) (db db' : Catalog H) : Prop :=
  db' = db ∨ inTxn = true ∧ ∃ m, ms = [m] ∧ Catalog.Attempted m db db'

theorem Catalog.Attempted.rows {m : TimeSeriesMetadata H} {db db' : Catalog H}
    (h : Catalog.Attempted m db db') :
    db'.rows = db.rows ∧ db'.seq = db.seq ∧ ∀ f ∈ db.featureSets, f ∈ db'.featureSets := by
  rcases h with rfl | ⟨-, h⟩
  · exact ⟨rfl, rfl, fun f hf => hf⟩
  · exact ⟨h.rows.1, h.rows.2, h.sets⟩

theorem Catalog.Unfinished.rows {inTxn : Bool} {ms : List (TimeSeriesMetadata H)} {db db' : Catalog H}
    (h : Unfinished inTxn ms db db') :
    db'.rows = db.rows ∧ db'.seq = db.seq ∧ ∀ f ∈ db.featureSets, f ∈ db'.featureSets := by
  rcases h with rfl | ⟨-, m, -, h⟩
  · exact ⟨rfl, rfl, fun f hf => hf⟩
  · exact h.rows

theorem insertBatched_outcome (m : TimeSeriesMetadata H) (cache : SharedSetCache H)
    (c : Connection H) : (insertBatched m cache).wp
      (Outcome c (fun x db => InsertedOne m cache c.db x db) (Catalog.SomeFeatures m c.db)) c := by
  have hrow : ∀ c₁ : Connection H, c₁.db = c.db.withFeatures m cache →
      Catalog.SomeFeatures m c.db c₁.db →
      (do let id ← statement (Catalog.insertRow m)
          pure (id, cache.noteFeatures (featuresHash m.features)) :
        StoreCmd (Connection H) (ℤ × SharedSetCache H)).wp
        (Outcome c₁ (fun x db => InsertedOne m cache c.db x db) (Catalog.SomeFeatures m c.db)) c₁ := by
    intro c₁ h₁ he
    refine outcome_bind (P := fun id db => c₁.db.insertRow m = .ok (id, db))
      (outcome_statement (fun _ _ h => h) he) fun id c₂ _ h₂ => outcome_pure ⟨?_, rfl⟩
    rw [← h₁]
    exact h₂
  unfold insertBatched
  by_cases hc : featuresHash m.features ∈ cache.features
  · simp only [hc, not_true_eq_false, if_false]
    exact hrow c (by unfold Catalog.withFeatures; rw [if_pos hc]) (Catalog.SomeFeatures.refl m _)
  · simp only [hc, not_false_eq_true, if_true]
    refine outcome_bind (insertFeatureSet_outcome _ _ c) fun _ c₁ _ h₁ => ?_
    exact hrow c₁ (by unfold Catalog.withFeatures; rw [if_neg hc]; exact h₁)
      ⟨_, List.prefix_rfl, h₁⟩

theorem checkForecastFamilyFree_outcome (m : TimeSeriesMetadata H) (verb : String)
    (c : Connection H) : (checkForecastFamilyFree m verb).wp
      (Outcome c (fun _ db => db = c.db ∧ c.db.FamilyFree m) (· = c.db)) c := by
  unfold checkForecastFamilyFree
  split
  · rename_i hn
    refine outcome_pure ⟨rfl, fun t ht => ?_⟩
    rw [hn] at ht
    cases ht
  · rename_i t ht
    refine outcome_bind (P := fun b db => db = c.db ∧ c.db.forecastFamilyConflict m.family t = b)
      (outcome_query (fun b h => ⟨rfl, Except.ok.inj h⟩) rfl) fun b c₁ _ h₁ => ?_
    split
    · exact outcome_throw h₁.1
    · rename_i hb
      refine outcome_pure ⟨h₁.1, fun t' ht' => ?_⟩
      rw [ht] at ht'
      cases ht'
      rw [h₁.2]
      exact hb

/-- What a checked insert does: the family was free, and the row is filed. -/
def InsertedFree (m : TimeSeriesMetadata H) (cache : SharedSetCache H) (db : Catalog H)
    (x : ℤ × SharedSetCache H) (db' : Catalog H) : Prop :=
  db.FamilyFree m ∧ InsertedOne m cache db x db'

theorem insertAssociation_outcome (m : TimeSeriesMetadata H) (cache : SharedSetCache H)
    (c : Connection H) : (insertAssociation m cache).wp
      (Outcome c (fun x db => InsertedFree m cache c.db x db) (Catalog.Attempted m c.db)) c := by
  unfold insertAssociation
  refine outcome_bind (P := fun _ db => db = c.db ∧ c.db.FamilyFree m)
    (Cmd.wp_mono (checkForecastFamilyFree_outcome m "add" c) fun _ _ h =>
      h.mono (fun _ _ h => h) fun db h => Or.inl h) fun _ c₁ _ h₁ => ?_
  have hfree : c₁.db.FamilyFree m := by rw [h₁.1]; exact h₁.2
  rw [← h₁.1]
  exact Cmd.wp_mono (insertBatched_outcome m cache c₁) fun _ _ h =>
    h.mono (fun _ _ hi => ⟨hfree, hi⟩) fun _ h => Or.inr ⟨hfree, h⟩

/-- What inserting a view does: its source is filed, and the view is inserted as any row is. -/
def InsertedView (m : TimeSeriesMetadata H) (cache : SharedSetCache H) (db : Catalog H)
    (x : ℤ × SharedSetCache H) (db' : Catalog H) : Prop :=
  db.forecastFamilyConflict m.family .singleTimeSeries = true ∧ InsertedFree m cache db x db'

theorem insertView_outcome (m : TimeSeriesMetadata H) (cache : SharedSetCache H)
    (c : Connection H) : (insertView m cache).wp
      (Outcome c (fun x db => InsertedView m cache c.db x db) (Catalog.Attempted m c.db)) c := by
  unfold insertView
  refine outcome_bind (P := fun b db => db = c.db ∧
      c.db.forecastFamilyConflict m.family .singleTimeSeries = b)
    (outcome_query (fun _ h => ⟨rfl, Except.ok.inj h⟩) (Or.inl rfl))
    fun b c₁ _ h₁ => ?_
  rw [← h₁.1]
  split
  · exact outcome_throw (Or.inl rfl)
  · rename_i hb
    refine Cmd.wp_mono (insertAssociation_outcome m cache c₁) fun _ _ h =>
      h.mono (fun _ _ hi => ⟨?_, hi⟩) fun _ h => h
    rw [h₁.1, h₁.2]
    simpa using hb

/-- Filing several rows, from what filing one does. -/
theorem insertAll_outcome
    {insert : TimeSeriesMetadata H → SharedSetCache H →
      StoreCmd (Connection H) (ℤ × SharedSetCache H)}
    {R : TimeSeriesMetadata H → SharedSetCache H → Catalog H →
      ℤ × SharedSetCache H → Catalog H → Prop}
    {E : TimeSeriesMetadata H → Catalog H → Catalog H → Prop}
    (hR : ∀ m cache c, (insert m cache).wp
      (Outcome c (fun x db => R m cache c.db x db) (E m c.db)) c)
    (ms : List (TimeSeriesMetadata H)) :
    ∀ cache (c : Connection H), (insertAll insert ms cache).wp
      (Outcome c (fun y db => Chain R ms cache c.db y db) (fun _ => True)) c := by
  induction ms with
  | nil => exact fun cache c => outcome_pure (.nil cache c.db)
  | cons m ms ih =>
    intro cache c
    unfold insertAll
    refine outcome_bind (Cmd.wp_mono (hR m cache c) fun _ _ h => h.mono (fun _ _ h => h)
      fun _ _ => trivial) fun x c₁ _ hx => ?_
    refine outcome_bind (ih x.2 c₁) fun y c₂ _ hy => outcome_pure ?_
    exact .cons hx hy

/-- Filing one row needs no savepoint: a failure leaves the rows alone. -/
theorem insertAll_single_outcome
    {insert : TimeSeriesMetadata H → SharedSetCache H →
      StoreCmd (Connection H) (ℤ × SharedSetCache H)}
    {R : TimeSeriesMetadata H → SharedSetCache H → Catalog H →
      ℤ × SharedSetCache H → Catalog H → Prop}
    {E : TimeSeriesMetadata H → Catalog H → Catalog H → Prop}
    (hR : ∀ m cache c, (insert m cache).wp
      (Outcome c (fun x db => R m cache c.db x db) (E m c.db)) c)
    (m : TimeSeriesMetadata H) (cache : SharedSetCache H) (c : Connection H) :
    (insertAll insert [m] cache).wp
      (Outcome c (fun y db => Chain R [m] cache c.db y db) (E m c.db)) c := by
  unfold insertAll insertAll
  refine outcome_bind (hR m cache c) fun x c₁ _ hx => ?_
  rw [pure_bind]
  exact outcome_pure (.cons hx (.nil _ _))

/-! ### What a removal does -/

/-- The rows a predicate picks are gone, and every array they named is reported. -/
structure Removed (p : AssociationRow H → Bool) (db : Catalog H) (hashes : List H)
    (db' : Catalog H) : Prop where
  rows : db'.rows = db.rows.filter fun r => !p r
  hashes : ∀ r ∈ db.rows, p r = true → r.dataHash ∈ hashes

theorem Removed.mem {p : AssociationRow H → Bool} {db db' : Catalog H} {hashes : List H}
    (h : Removed p db hashes db') {r : AssociationRow H} :
    r ∈ db'.rows ↔ r ∈ db.rows ∧ p r = false := by
  rw [h.rows, List.mem_filter, Bool.not_eq_true']

/-- An array that is no longer referenced was named by a removed row. -/
theorem Removed.unreferenced {p : AssociationRow H → Bool} {db db' : Catalog H} {hashes : List H}
    (h : Removed p db hashes db') {x : H} (hx : db.References x) (hx' : ¬ db'.References x) :
    x ∈ hashes := by
  obtain ⟨r, hr, rfl⟩ := hx
  rcases hp : p r with _ | _
  · exact absurd ⟨r, h.mem.mpr ⟨hr, hp⟩, rfl⟩ hx'
  · exact h.hashes r hr hp

/-- A row is named by its id alone. -/
theorem rowById_eq_some {c : Catalog H} {id : ℤ} {r : AssociationRow H} :
    c.rowById id = some r ↔ r ∈ c.rows ∧ r.id = id := by
  unfold Catalog.rowById
  constructor
  · intro h
    exact ⟨List.mem_of_find?_eq_some h, by simpa using List.find?_some h⟩
  · rintro ⟨hr, rfl⟩
    rcases hf : c.rows.find? (·.id = r.id) with _ | r'
    · have := List.find?_eq_none.mp hf r hr
      simp at this
    · have hnd : (c.rows.map AssociationRow.id).Nodup :=
        List.pairwise_map.mpr (c.ordered.imp fun h => ne_of_lt h)
      have he : r'.id = r.id := by simpa using List.find?_some hf
      rw [hf, List.inj_on_of_nodup_map hnd (List.mem_of_find?_eq_some hf) hr he]

/-- A removal knows a row by the columns it had, and the row belongs to the expected owner. -/
structure Records (owner : Option (ℤ × OwnerCategory)) (r : AssociationRow H) (d : DeletedRow H) :
    Prop where
  dataHash : d.dataHash = r.dataHash
  timeSeriesType : d.timeSeriesType = r.timeSeriesType
  resolution : AssociationRow.parseColumn isoToPeriod r.resolution = .ok d.resolution
  name : d.name = r.name
  featuresHash : d.featuresHash = r.featuresHash
  owned : d.ownerId = r.ownerId ∧ d.ownerCategory = r.ownerCategory
  guarded : ∀ o, owner = some o → (r.ownerId, r.ownerCategory) = o

/-- A removal by id took a row away. -/
structure DeletedById (owner : Option (ℤ × OwnerCategory)) (id : ℤ) (db : Catalog H)
    (r : AssociationRow H) (d : DeletedRow H) (db' : Catalog H) : Prop extends Records owner r d where
  rest : db' = db.deleteWhere (·.id = id)
  found : db.rowById id = some r

theorem deleteById_outcome (id : ℤ) (owner : Option (ℤ × OwnerCategory)) (c : Connection H) :
    (deleteById id owner).wp
      (Outcome c (fun found db => match found with
        | none => db = c.db ∧ c.db.rowById id = none
        | some d => ∃ r, DeletedById owner id c.db r d db) (fun _ => True)) c := by
  unfold deleteById
  refine outcome_bind (P := fun found db => db = c.db ∧ c.db.rowById id = found)
    (outcome_query (fun _ h => ⟨rfl, Except.ok.inj h⟩) trivial) fun found c₁ _ h₁ => ?_
  rcases found with _ | r
  · exact outcome_pure h₁
  · have hrest : (∀ o, owner = some o → (r.ownerId, r.ownerCategory) = o) →
        (do statement fun db => .ok ((), db.deleteWhere (·.id = id))
            let resolution ← Cmd.ofExcept (AssociationRow.parseColumn isoToPeriod r.resolution)
            pure (some
              { dataHash := r.dataHash, timeSeriesType := r.timeSeriesType, ownerId := r.ownerId,
                ownerCategory := r.ownerCategory, name := r.name, resolution,
                featuresHash := r.featuresHash }) :
          StoreCmd (Connection H) (Option (DeletedRow H))).wp
          (Outcome c₁ (fun found db => match found with
            | none => db = c.db ∧ c.db.rowById id = none
            | some d => ∃ r, DeletedById owner id c.db r d db) (fun _ => True)) c₁ := by
      intro howner
      refine outcome_bind (P := fun _ db => db = c.db.deleteWhere (·.id = id))
        (outcome_statement (fun _ db h => ?_) trivial) fun _ c₂ _ h₂ => ?_
      · cases h
        rw [h₁.1]
      · rcases hp : AssociationRow.parseColumn isoToPeriod r.resolution with e | res
        · exact ⟨Later.refl _, Or.inl ⟨rfl, trivial⟩⟩
        · exact ⟨Later.refl _, rfl, r, ⟨rfl, rfl, hp, rfl, rfl, ⟨rfl, rfl⟩, howner⟩, h₂, h₁.2⟩
    rcases owner with _ | ⟨oid, ocat⟩
    · exact hrest fun o h => by cases h
    · simp only
      split
      · exact outcome_throw trivial
      · rename_i hne
        refine hrest fun o h => ?_
        cases h
        simp only [ne_eq, not_or, not_not] at hne
        rw [hne.1, hne.2]

omit [Sha256 H] [FloatText] in
theorem Catalog.deleteWhere_congr {p q : AssociationRow H → Bool} {c : Catalog H}
    (h : ∀ r ∈ c.rows, p r = q r) : c.deleteWhere p = c.deleteWhere q := by
  have hrows : (c.rows.filter fun r => !p r) = c.rows.filter fun r => !q r :=
    List.filter_congr fun r hr => by rw [h r hr]
  unfold Catalog.deleteWhere
  congr 1

omit [Sha256 H] [FloatText] in
theorem Catalog.deleteWhere_deleteWhere (p q : AssociationRow H → Bool) (c : Catalog H) :
    (c.deleteWhere p).deleteWhere q = c.deleteWhere fun r => p r || q r := by
  have hrows : ((c.rows.filter fun r => !p r).filter fun r => !q r) =
      c.rows.filter fun r => !(p r || q r) := by
    rw [List.filter_filter]
    exact List.filter_congr fun r _ => by rw [Bool.not_or, Bool.and_comm]
  unfold Catalog.deleteWhere
  congr 1

/-- The rows a list of ids names are gone, each recorded once. -/
structure DeletedIds (owner : Option (ℤ × OwnerCategory)) (ids seen : List ℤ) (db : Catalog H)
    (rows : List (DeletedRow H)) (db' : Catalog H) : Prop where
  rest : db' = db.deleteWhere fun r => decide (r.id ∈ ids ∧ r.id ∉ seen)
  found : ∀ id ∈ ids, id ∉ seen → ∃ r ∈ db.rows, r.id = id
  recorded : ∀ r ∈ db.rows, r.id ∈ ids → r.id ∉ seen → ∃ d ∈ rows, Records owner r d
  origin : ∀ d ∈ rows, ∃ r ∈ db.rows, r.id ∈ ids ∧ r.id ∉ seen ∧ Records owner r d

theorem DeletedIds.removed {owner : Option (ℤ × OwnerCategory)} {ids seen : List ℤ} {db db' : Catalog H}
    {rows : List (DeletedRow H)} (h : DeletedIds owner ids seen db rows db') :
    Removed (fun r => decide (r.id ∈ ids ∧ r.id ∉ seen)) db (rows.map DeletedRow.dataHash) db' := by
  refine ⟨by rw [h.rest]; rfl, fun r hr hp => ?_⟩
  rw [decide_eq_true_eq] at hp
  obtain ⟨d, hd, hrec⟩ := h.recorded r hr hp.1 hp.2
  rw [← hrec.dataHash]
  exact List.mem_map_of_mem hd

/-- An id that comes up again is passed over. -/
theorem DeletedIds.skip {owner : Option (ℤ × OwnerCategory)} {id : ℤ} {ids seen : List ℤ}
    {db db' : Catalog H} {rows : List (DeletedRow H)} (hs : id ∈ seen)
    (h : DeletedIds owner ids seen db rows db') : DeletedIds owner (id :: ids) seen db rows db' := by
  have hiff : ∀ {i : ℤ}, i ∉ seen → (i ∈ id :: ids ↔ i ∈ ids) := by
    intro i hi
    rw [List.mem_cons]
    exact ⟨fun c => c.resolve_left fun e => hi (e ▸ hs), Or.inr⟩
  refine ⟨?_, fun i hi hn => h.found i ((hiff hn).mp hi) hn,
    fun r hr hi hn => h.recorded r hr ((hiff hn).mp hi) hn, fun d hd => ?_⟩
  · rw [h.rest]
    refine Catalog.deleteWhere_congr fun r _ => ?_
    rw [decide_eq_decide]
    exact and_congr_left fun hn => (hiff hn).symm
  · obtain ⟨r, hr, hi, hn, hrec⟩ := h.origin d hd
    exact ⟨r, hr, (hiff hn).mpr hi, hn, hrec⟩

/-- One id, then the rest. -/
theorem DeletedIds.next {owner : Option (ℤ × OwnerCategory)} {id : ℤ} {ids seen : List ℤ}
    {db db₁ db' : Catalog H} {r₀ : AssociationRow H} {d₀ : DeletedRow H} {rows : List (DeletedRow H)}
    (hs : id ∉ seen) (h₀ : DeletedById owner id db r₀ d₀ db₁)
    (h : DeletedIds owner ids (id :: seen) db₁ rows db') :
    DeletedIds owner (id :: ids) seen db (d₀ :: rows) db' := by
  obtain ⟨hr₀, hid₀⟩ := rowById_eq_some.mp h₀.found
  have hmem : ∀ {r : AssociationRow H}, r ∈ db₁.rows ↔ r ∈ db.rows ∧ r.id ≠ id := by
    intro r
    rw [h₀.rest]
    unfold Catalog.deleteWhere
    rw [List.mem_filter, Bool.not_eq_true', decide_eq_false_iff_not]
  refine ⟨?_, fun i hi hn => ?_, fun r hr hi hn => ?_, fun d hd => ?_⟩
  · rw [h.rest, h₀.rest, Catalog.deleteWhere_deleteWhere]
    refine Catalog.deleteWhere_congr fun r _ => ?_
    rw [← Bool.decide_or, decide_eq_decide, List.mem_cons, List.mem_cons]
    by_cases he : r.id = id
    · rw [he]
      simp [hs]
    · simp [he]
  · by_cases he : i = id
    · exact ⟨r₀, hr₀, hid₀.trans he.symm⟩
    · obtain ⟨r, hr, hri⟩ := h.found i ((List.mem_cons.mp hi).resolve_left he)
        (List.not_mem_cons_of_ne_of_not_mem he hn)
      exact ⟨r, (hmem.mp hr).1, hri⟩
  · by_cases he : r.id = id
    · have := rowById_eq_some.mpr ⟨hr, he⟩
      rw [h₀.found] at this
      exact ⟨d₀, List.mem_cons_self, Option.some.inj this ▸ h₀.toRecords⟩
    · obtain ⟨d, hd, hrec⟩ := h.recorded r (hmem.mpr ⟨hr, he⟩)
        ((List.mem_cons.mp hi).resolve_left he) (List.not_mem_cons_of_ne_of_not_mem he hn)
      exact ⟨d, List.mem_cons_of_mem _ hd, hrec⟩
  · rcases List.mem_cons.mp hd with rfl | hd
    · exact ⟨r₀, hr₀, by rw [hid₀]; exact List.mem_cons_self, by rw [hid₀]; exact hs, h₀.toRecords⟩
    · obtain ⟨r, hr, hi, hn, hrec⟩ := h.origin d hd
      exact ⟨r, (hmem.mp hr).1, List.mem_cons_of_mem _ hi, List.not_mem_of_not_mem_cons hn, hrec⟩

theorem deleteIds_outcome (owner : Option (ℤ × OwnerCategory)) (ids : List ℤ) :
    ∀ (seen : List ℤ) (c : Connection H), (deleteIds owner ids seen).wp
      (Outcome c (fun rows db => DeletedIds owner ids seen c.db rows db) (fun _ => True)) c := by
  induction ids with
  | nil =>
    intro seen c
    refine outcome_pure ⟨?_, fun _ h => (List.not_mem_nil h).elim,
      fun _ _ h => (List.not_mem_nil h).elim, fun _ h => (List.not_mem_nil h).elim⟩
    have hrows : c.db.rows = c.db.rows.filter fun r => !decide (r.id ∈ ([] : List ℤ) ∧ r.id ∉ seen) := by
      rw [List.filter_eq_self.mpr]
      intro r _
      simp
    unfold Catalog.deleteWhere
    rcases h : c.db with ⟨rows, sets, seq, h1, h2, h3, h4⟩
    rw [h] at hrows
    congr 1
  | cons id ids ih =>
    intro seen c
    unfold deleteIds
    split
    · rename_i hs
      exact Cmd.wp_mono (ih seen c) fun r c' h => h.mono (fun rows db hp => hp.skip hs) fun _ h => h
    · rename_i hs
      refine outcome_bind (deleteById_outcome id owner c) fun found c₁ _ h₁ => ?_
      rcases found with _ | d
      · exact outcome_throw trivial
      · obtain ⟨r₀, hd⟩ := h₁
        exact outcome_bind (ih (id :: seen) c₁) fun rows c₂ _ h₂ => outcome_pure (.next hs hd h₂)

/-- A removed series leaves no view of its family on its array without a source. -/
def Backed (db : Catalog H) (row : DeletedRow H) : Prop :=
  db.forecastFamilyConflictOnArray row.family row.dataHash .deterministicSingleTimeSeries = true →
    db.forecastFamilyConflictOnArray row.family row.dataHash .singleTimeSeries = true

theorem checkNoOrphanedDst_outcome (rows : List (DeletedRow H)) :
    ∀ (seen : List (SeriesFamily H × Option Period × H)) (c : Connection H),
      (checkNoOrphanedDst rows seen).wp (Outcome c (fun _ db => db = c.db ∧
        ∀ row ∈ rows, (row.family, row.resolution, row.dataHash) ∈ seen ∨ Backed c.db row)
        (fun _ => True)) c := by
  induction rows with
  | nil => exact fun seen c => outcome_pure ⟨rfl, fun _ h => (List.not_mem_nil h).elim⟩
  | cons row rows ih =>
    intro seen c
    unfold checkNoOrphanedDst
    dsimp only
    split
    · rename_i hs
      refine Cmd.wp_mono (ih seen c) fun _ _ h => h.mono (fun _ db hp => ⟨hp.1, fun r hr => ?_⟩)
        fun _ h => h
      rcases List.mem_cons.mp hr with rfl | hr
      · exact Or.inl hs
      · exact hp.2 r hr
    · have hrest : ∀ c₁ : Connection H, c₁.db = c.db → Backed c.db row →
          (checkNoOrphanedDst rows ((row.family, row.resolution, row.dataHash) :: seen)).wp
            (Outcome c₁ (fun _ db => db = c.db ∧
              ∀ r ∈ row :: rows, (r.family, r.resolution, r.dataHash) ∈ seen ∨ Backed c.db r)
              (fun _ => True)) c₁ := by
        intro c₁ h₁ hb
        refine Cmd.wp_mono (ih _ c₁) fun _ _ h => h.mono (fun _ db hp => ⟨hp.1.trans h₁, fun r hr => ?_⟩)
          fun _ h => h
        rcases List.mem_cons.mp hr with rfl | hr
        · exact Or.inr hb
        · rcases hp.2 r hr with hm | hm
          · rcases List.mem_cons.mp hm with he | hm
            · -- a row of a family already checked
              simp only [Prod.mk.injEq] at he
              obtain ⟨hf, -, hd⟩ := he
              refine Or.inr ?_
              unfold Backed at hb ⊢
              rw [hf, hd]
              exact hb
            · exact Or.inl hm
          · rw [h₁] at hm
            exact Or.inr hm
      refine outcome_bind (P := fun b db => db = c.db ∧
          c.db.forecastFamilyConflictOnArray row.family row.dataHash .deterministicSingleTimeSeries = b)
        (outcome_query (fun _ h => ⟨rfl, Except.ok.inj h⟩) trivial) fun view c₁ _ h₁ => ?_
      split
      · refine outcome_bind (P := fun b db => db = c.db ∧
            c.db.forecastFamilyConflictOnArray row.family row.dataHash .singleTimeSeries = b)
          (outcome_query (fun _ h => ⟨h₁.1, by rw [← h₁.1]; exact Except.ok.inj h⟩) trivial)
          fun source c₂ _ h₂ => ?_
        split
        · exact outcome_throw trivial
        · rename_i hs
          refine hrest c₂ h₂.1 fun _ => ?_
          rw [h₂.2]
          simpa using hs
      · rename_i hv
        refine hrest c₁ h₁.1 fun hc => absurd hc ?_
        rw [h₁.2]
        exact hv

theorem deleteByOwner_outcome (ownerId : ℤ) (category : OwnerCategory) (c : Connection H) :
    (deleteByOwner ownerId category).wp
      (Outcome c (fun hashes db => Removed (Catalog.ownedBy ownerId category) c.db hashes db ∧
          db = c.db.deleteWhere (Catalog.ownedBy ownerId category))
        (fun _ => True)) c := by
  unfold deleteByOwner
  refine outcome_bind (P := fun hashes db => db = c.db ∧
      hashes = (c.db.rows.filter (Catalog.ownedBy ownerId category)).map AssociationRow.dataHash)
    (outcome_query (fun _ h => ⟨rfl, (Except.ok.inj h).symm⟩) trivial) fun hashes c₁ _ h₁ => ?_
  refine outcome_bind (P := fun _ db => db = c.db.deleteWhere (Catalog.ownedBy ownerId category))
    (outcome_statement (fun _ db h => by cases h; rw [h₁.1]) trivial) fun _ c₂ _ h₂ =>
    outcome_pure ⟨⟨by rw [h₂]; rfl, fun r hr hp => ?_⟩, h₂⟩
  rw [h₁.2]
  exact List.mem_map_of_mem (List.mem_filter.mpr ⟨hr, hp⟩)

theorem deleteAll_outcome (c : Connection H) :
    (deleteAll (H := H)).wp
      (Outcome c (fun hashes db => Removed (fun _ => true) c.db hashes db ∧
        db = (c.db.deleteWhere fun _ => true).deleteFeatureSets) (fun _ => True)) c := by
  unfold deleteAll
  refine outcome_bind (P := fun hashes db => db = c.db ∧
      hashes = c.db.rows.map AssociationRow.dataHash)
    (outcome_query (fun _ h => ⟨rfl, (Except.ok.inj h).symm⟩) trivial) fun hashes c₁ _ h₁ => ?_
  refine outcome_bind (P := fun _ db => db = c.db.deleteWhere fun _ => true)
    (outcome_statement (fun _ db h => by cases h; rw [h₁.1]) trivial) fun _ c₂ _ h₂ => ?_
  refine outcome_bind (P := fun _ db => db = (c.db.deleteWhere fun _ => true).deleteFeatureSets)
    (outcome_statement (fun _ db h => by cases h; rw [h₂]) trivial) fun _ c₃ _ h₃ =>
    outcome_pure ⟨⟨by rw [h₃]; rfl, fun r hr _ => ?_⟩, h₃⟩
  rw [h₁.2]
  exact List.mem_map_of_mem hr

/-- Moving an owner's rows: nothing that moves meets its exclusive counterpart. -/
theorem replaceOwnerRows_outcome (oldOwner newOwner : ℤ) (category : OwnerCategory)
    (c : Connection H) :
    (replaceOwnerRows oldOwner newOwner category).wp
      (Outcome c (fun n db =>
          c.db.forecastFamilyConflictOnOwnerMove oldOwner newOwner category = none ∧
            c.db.moveOwner oldOwner newOwner category = .ok (n, db))
        (· = c.db)) c := by
  unfold replaceOwnerRows
  refine outcome_bind (P := fun x db => db = c.db ∧
      c.db.forecastFamilyConflictOnOwnerMove oldOwner newOwner category = x)
    (outcome_query (fun _ h => ⟨rfl, Except.ok.inj h⟩) rfl) fun conflict c₁ _ h₁ => ?_
  rcases conflict with _ | ⟨name, moving, existing⟩
  · refine outcome_statement (fun n db h => ?_) h₁.1
    rw [h₁.1] at h
    exact ⟨h₁.2, h⟩
  · exact outcome_throw h₁.1

/-! ### Counting references -/

theorem unreferencedIn_outcome (referenced : Catalog H → H → Bool) (hs : List H) :
    ∀ (seen : List H) (c : Connection H), (unreferencedIn referenced hs seen).wp
      (Outcome c (fun out db => db = c.db ∧
          ∀ h, h ∈ out ↔ h ∈ hs ∧ h ∉ seen ∧ referenced c.db h = false)
        (fun _ => True)) c := by
  induction hs with
  | nil => exact fun seen c => outcome_pure ⟨rfl, fun h => by simp⟩
  | cons x hs ih =>
    intro seen c
    unfold unreferencedIn
    split
    · rename_i hx
      refine Cmd.wp_mono (ih seen c) fun r c' h => h.mono (fun out db hp => ⟨hp.1, fun h => ?_⟩)
        fun _ h => h
      rw [hp.2, List.mem_cons]
      constructor
      · exact fun ⟨h1, h2⟩ => ⟨Or.inr h1, h2⟩
      · rintro ⟨rfl | h1, h2⟩
        · exact absurd hx h2.1
        · exact ⟨h1, h2⟩
    · rename_i hx
      refine outcome_bind (P := fun used db => db = c.db ∧ used = referenced c.db x)
        (outcome_query (fun _ h => ⟨rfl, (Except.ok.inj h).symm⟩) trivial) fun used c₁ _ h₁ => ?_
      refine outcome_bind (ih (x :: seen) c₁) fun rest c₂ _ h₂ => outcome_pure ⟨?_, fun h => ?_⟩
      · rw [h₂.1, h₁.1]
      · have hrest := h₂.2 h
        rw [h₁.1] at hrest
        rw [h₁.2]
        rcases hr : referenced c.db x with _ | _
        · simp only [Bool.false_eq_true, if_false, List.mem_cons, hrest, not_or]
          constructor
          · rintro (rfl | ⟨h1, h2, h3⟩)
            · exact ⟨Or.inl rfl, hx, hr⟩
            · exact ⟨Or.inr h1, h2.2, h3⟩
          · rintro ⟨h1, h2, h3⟩
            by_cases he : h = x
            · exact Or.inl he
            · exact Or.inr ⟨h1.resolve_left he, ⟨he, h2⟩, h3⟩
        · simp only [if_true, List.mem_cons, hrest, not_or]
          constructor
          · rintro ⟨h1, h2, h3⟩
            exact ⟨Or.inr h1, h2.2, h3⟩
          · rintro ⟨h1, h2, h3⟩
            have he : h ≠ x := fun e => by rw [e, hr] at h3; cases h3
            exact ⟨h1.resolve_left he, ⟨he, h2⟩, h3⟩

/-- What counting reports: the candidates no row names. -/
structure Garbage (db : Catalog H) (candidates out : FileObjects H) : Prop where
  arrays (h : H) : h ∈ out.arrays ↔ h ∈ candidates.arrays ∧ ¬ db.References h
  timestamps (h : H) :
    h ∈ out.timestamps ↔ h ∈ candidates.timestamps ∧ db.referencesTimestamps h = false

theorem unreferenced_outcome (candidates : FileObjects H) (c : Connection H) :
    (unreferenced candidates).wp
      (Outcome c (fun out db => db = c.db ∧ Garbage c.db candidates out) (· = c.db)) c := by
  unfold unreferenced
  split
  · rename_i he
    unfold FileObjects.isEmpty at he
    rw [Bool.and_eq_true, List.isEmpty_iff, List.isEmpty_iff] at he
    refine outcome_pure ⟨rfl, fun h => ?_, fun h => ?_⟩
    · rw [he.1]
      simp [FileObjects.empty]
    · rw [he.2]
      simp [FileObjects.empty]
  · refine Cmd.wp_mono (withSavepoint_outcome (E := fun _ => True)
      (P := fun out db => db = c.db ∧ Garbage c.db candidates out) fun c₁ _ hdb => ?_) fun _ _ h => h
    refine outcome_bind (unreferencedIn_outcome _ candidates.arrays [] c₁) fun arrays c₂ _ h₂ => ?_
    refine outcome_bind (unreferencedIn_outcome _ candidates.timestamps [] c₂) fun ts c₃ _ h₃ =>
      outcome_pure ?_
    have h2db := h₂.1.trans hdb
    refine ⟨h₃.1.trans h2db, fun h => ?_, fun h => ?_⟩
    · rw [h₂.2 h, hdb, ← Catalog.referencesArray_iff]
      simp
    · rw [h₃.2 h, h2db]
      simp

theorem unreferencedIn_calm (referenced : Catalog H → H → Bool) (hs : List H) {c : Connection H}
    (hc : c.Calm) : ∀ seen : List H,
      (unreferencedIn referenced hs seen).wp (fun r c' => r.isOk = true ∧ c' = c) c := by
  induction hs with
  | nil => exact fun seen => ⟨rfl, rfl⟩
  | cons x hs ih =>
    intro seen
    unfold unreferencedIn
    split
    · exact ih seen
    · simp only [Cmd.wp_bind]
      refine wp_query_calm hc rfl ?_
      refine Cmd.wp_mono (ih (x :: seen)) ?_
      rintro r c' ⟨hr, rfl⟩
      rcases r with e | rest
      · cases hr
      · exact ⟨rfl, rfl⟩

/-- Counting succeeds when the engine runs its statements. -/
theorem unreferenced_calm (candidates : FileObjects H) {c : Connection H} (hc : c.Calm)
    (hw : c.readOnly = false) : (unreferenced candidates).wp (fun r _ => r.isOk = true) c := by
  unfold unreferenced
  split
  · rfl
  · refine Cmd.wp_mono (withSavepoint_calm hc hw ?_) fun _ _ h => h.1
    have hc' : Calm { c with savepoints := c.db :: c.savepoints } := hc
    rw [Cmd.wp_bind]
    refine Cmd.wp_mono (unreferencedIn_calm _ _ hc' []) ?_
    rintro r c' ⟨hr, rfl⟩
    rcases r with e | arrays
    · cases hr
    · simp only [Cmd.wp_bind]
      refine Cmd.wp_mono (unreferencedIn_calm _ _ hc' []) ?_
      rintro r c' ⟨hr, rfl⟩
      rcases r with e | ts
      · cases hr
      · exact ⟨rfl, rfl⟩

end

end InfraStore
