import Mathlib.Data.String.Basic
import InfraStore.Storage

/-!
# The catalog

The two tables the store's operations read and write, `time_series_associations` and `feature_sets`,
and what each SQL statement the code issues does to them.

* `AssociationRow`, `FeatureRow`, `Catalog`: the tables, columns in their stored spelling;
* `Catalog.insertRow`, `insertFeature`, `deleteWhere`, `moveOwner`: the writes;
* `Catalog.forecastFamilyConflict` and its two variants: the family probes;
* `Catalog.list`: a listing, each row parsed back and its features and time axis hydrated;
* which rows a write leaves, as membership lemmas.
-/

namespace InfraStore

open Lib

/-! ### The rows -/

/-- A row of `time_series_associations`.  Periods, the unit system, the time reference, the
percentiles and the element type are kept as the text the column holds. -/
structure AssociationRow (H : Type) where
  id : ℤ
  ownerId : ℤ
  ownerType : String
  ownerCategory : OwnerCategory
  timeSeriesType : TimeSeriesType
  name : String
  dataHash : H
  initialTimestamp : Option DateTime
  resolution : Option String
  length : Option ℕ
  horizon : Option String
  interval : Option String
  count : Option ℕ
  timestampsHash : Option H
  units : Option String
  quantityKind : Option String
  unitSystem : Option String
  timeReference : Option String
  componentField : Option String
  percentilesJson : Option String
  elementType : String
  elementShape : List ℕ
  applicationData : Option String
  featuresHash : H
  deriving DecidableEq

/-- The value columns of a `feature_sets` row; a `REAL` column holds no NaN. -/
inductive FeatureCell where
  | int (v : ℤ)
  | float (v : Option F64)
  | bool (v : Bool)
  | str (v : String)
  deriving DecidableEq

/-- What binding a feature value stores: SQLite turns NaN into NULL and negative zero into zero. -/
def FeatureCell.ofValue : FeatureValue → FeatureCell
  | .int v => .int v
  | .float v => .float (if v.isNan then none else some (if v.isNegZero then ⟨0⟩ else v))
  | .bool v => .bool v
  | .str v => .str v

/-- A failed conversion of a column, as the catalog engine reports it. -/
def conversionError (kind : String) (column : ℕ) (msg : String) : TimeSeriesError :=
  .sqlite s!"Conversion error from type {kind} at index: {column}, {msg}"

def FeatureCell.toValue : FeatureCell → Result FeatureValue
  | .int v => .ok (.int v)
  | .float (some v) => .ok (.float v)
  | .float none => .error (.sqlite "Invalid column type Null at index: 4, name: value_float")
  | .bool v => .ok (.bool v)
  | .str v => .ok (.str v)

/-- A row of `feature_sets`: one feature of a content-addressed set. -/
structure FeatureRow (H : Type) where
  featuresHash : H
  key : String
  cell : FeatureCell
  deriving DecidableEq

/-! ### Identity, families and the tables -/

/-- The columns of the uniqueness invariant, NULL periods coalesced. -/
structure IdentityKey (H : Type) where
  ownerId : ℤ
  ownerCategory : OwnerCategory
  timeSeriesType : TimeSeriesType
  name : String
  resolution : String
  interval : String
  featuresHash : H
  deriving DecidableEq

/-- The series that describe one variable of one owner at one resolution. -/
structure SeriesFamily (H : Type) where
  ownerId : ℤ
  ownerCategory : OwnerCategory
  name : String
  resolution : Option String
  featuresHash : H
  deriving DecidableEq

namespace AssociationRow

variable {H : Type}

def identity (r : AssociationRow H) : IdentityKey H :=
  { ownerId := r.ownerId, ownerCategory := r.ownerCategory, timeSeriesType := r.timeSeriesType,
    name := r.name, resolution := r.resolution.getD "", interval := r.interval.getD "",
    featuresHash := r.featuresHash }

def family (r : AssociationRow H) : SeriesFamily H :=
  { ownerId := r.ownerId, ownerCategory := r.ownerCategory, name := r.name,
    resolution := r.resolution, featuresHash := r.featuresHash }

end AssociationRow

/-- The catalog: its rows in id order, its feature sets and the highest id it ever assigned.  The
constraints of the schema hold by construction: the primary keys, the identity index over the
coalesced periods, and the autoincrement mark. -/
structure Catalog (H : Type) where
  rows : List (AssociationRow H)
  featureSets : List (FeatureRow H)
  seq : ℤ
  ordered : rows.Pairwise fun a b => a.id < b.id
  unique : rows.Pairwise fun a b => a.identity ≠ b.identity
  bounded : ∀ r ∈ rows, r.id ≤ seq
  setKeys : featureSets.Pairwise fun a b => (a.featuresHash, a.key) ≠ (b.featuresHash, b.key)

/-- The empty catalog. -/
def Catalog.empty {H : Type} : Catalog H :=
  ⟨[], [], 0, .nil, .nil, fun _ h => (List.not_mem_nil h).elim, .nil⟩

/-- The type that may not share a family with a type, if there is one. -/
def exclusiveCounterpart : TimeSeriesType → Option TimeSeriesType
  | .deterministic => some .deterministicSingleTimeSeries
  | .deterministicSingleTimeSeries => some .deterministic
  | _ => none

namespace TimeSeriesMetadata

variable {H : Type} [Sha256 H]

/-- The family a row is filed in. -/
def family (m : TimeSeriesMetadata H) : SeriesFamily H :=
  { ownerId := m.ownerId, ownerCategory := m.ownerCategory, name := m.name,
    resolution := m.resolution.map Period.toIso8601, featuresHash := featuresHash m.features }

/-- The row an insert binds, under the id it is filed by. -/
def toRow [FloatText] (m : TimeSeriesMetadata H) (id : ℤ) : AssociationRow H :=
  { id
    ownerId := m.ownerId
    ownerType := m.ownerType
    ownerCategory := m.ownerCategory
    timeSeriesType := m.timeSeriesType
    name := m.name
    dataHash := m.dataHash
    initialTimestamp := m.initialTimestamp
    resolution := m.resolution.map Period.toIso8601
    length := m.length
    horizon := m.horizon.map Period.toIso8601
    interval := m.interval.map Period.toIso8601
    count := m.count
    timestampsHash := m.timestamps.map timestampsHash
    units := m.units
    quantityKind := m.quantityKind
    unitSystem := m.unitSystem.map UnitSystem.asStr
    timeReference := m.timeReference.map TimeReference.asStorageString
    componentField := m.componentField
    percentilesJson := m.percentiles.map FloatText.toJson
    elementType := m.elementType.display
    elementShape := m.elementShape
    applicationData := m.applicationData
    featuresHash := featuresHash m.features }

end TimeSeriesMetadata

namespace Catalog

variable {H : Type} [DecidableEq H]

/-! ### Writes -/

/-- Put a row at its place in the primary key's order. -/
def insertSorted (r : AssociationRow H) : List (AssociationRow H) → List (AssociationRow H)
  | [] => [r]
  | r' :: rows => if r.id < r'.id then r :: r' :: rows else r' :: insertSorted r rows

omit [DecidableEq H] in
theorem insertSorted_perm (r : AssociationRow H) (rows : List (AssociationRow H)) :
    (insertSorted r rows).Perm (r :: rows) := by
  induction rows with
  | nil => exact List.Perm.refl _
  | cons r' rows ih =>
    unfold insertSorted
    split
    · exact List.Perm.refl _
    · exact (ih.cons r').trans (List.Perm.swap r r' rows)

omit [DecidableEq H] in
theorem mem_insertSorted {r x : AssociationRow H} {rows : List (AssociationRow H)} :
    x ∈ insertSorted r rows ↔ x = r ∨ x ∈ rows := by
  rw [(insertSorted_perm r rows).mem_iff, List.mem_cons]

omit [DecidableEq H] in
theorem insertSorted_ordered {r : AssociationRow H} {rows : List (AssociationRow H)}
    (hs : rows.Pairwise fun a b => a.id < b.id) (hr : ∀ x ∈ rows, x.id ≠ r.id) :
    (insertSorted r rows).Pairwise fun a b => a.id < b.id := by
  induction rows with
  | nil => exact List.pairwise_singleton _ _
  | cons r' rows ih =>
    obtain ⟨h', hs'⟩ := List.pairwise_cons.mp hs
    unfold insertSorted
    split
    · rename_i hlt
      refine List.pairwise_cons.mpr ⟨fun x hx => ?_, hs⟩
      rcases List.mem_cons.mp hx with rfl | hx
      · exact hlt
      · exact hlt.trans (h' x hx)
    · rename_i hlt
      refine List.pairwise_cons.mpr ⟨fun x hx => ?_,
        ih hs' fun x hx => hr x (List.mem_cons_of_mem _ hx)⟩
      rcases mem_insertSorted.mp hx with rfl | hx
      · exact lt_of_le_of_ne (not_lt.mp hlt) (hr r' List.mem_cons_self)
      · exact h' x hx

/-- The largest `i64`. -/
def maxRowId : ℤ := 2 ^ 63 - 1

/-- A catalog with one more row, its id and its identity new. -/
def withRow (r : AssociationRow H) (c : Catalog H) (hid : ∀ x ∈ c.rows, x.id ≠ r.id)
    (hkey : ∀ x ∈ c.rows, x.identity ≠ r.identity) : Catalog H :=
  { c with
    rows := insertSorted r c.rows
    seq := max c.seq r.id
    ordered := insertSorted_ordered c.ordered hid
    unique := ((insertSorted_perm r c.rows).pairwise_iff fun h => Ne.symm h).mpr
      (List.pairwise_cons.mpr ⟨fun x hx => (hkey x hx).symm, c.unique⟩)
    bounded := fun x hx => by
      rcases mem_insertSorted.mp hx with rfl | hx
      · exact le_max_right _ _
      · exact (c.bounded x hx).trans (le_max_left _ _) }

/-- The id a row is inserted under: the given one, or the next one never used. -/
def nextId (given : Option ℤ) (c : Catalog H) : Result ℤ :=
  match given with
  | some id => .ok id
  | none => if maxRowId ≤ c.seq then .error (.sqlite "database or disk is full") else .ok (c.seq + 1)

/-- `INSERT INTO time_series_associations`: a taken id is refused before a taken identity. -/
def insertRow [Sha256 H] [FloatText] (m : TimeSeriesMetadata H) (c : Catalog H) :
    Result (ℤ × Catalog H) := do
  let id ← nextId m.id c
  if hid : ∀ x ∈ c.rows, x.id ≠ (m.toRow id).id then
    if hkey : ∀ x ∈ c.rows, x.identity ≠ (m.toRow id).identity then
      .ok (id, c.withRow (m.toRow id) hid hkey)
    else .error .duplicateTimeSeries
  else .error (.duplicateAssociationId id)

/-- `INSERT OR IGNORE INTO feature_sets`. -/
def insertFeature (h : H) (key : String) (value : FeatureValue) (c : Catalog H) : Catalog H :=
  if hnew : ∀ f ∈ c.featureSets, (f.featuresHash, f.key) ≠ (h, key) then
    { c with
      featureSets := c.featureSets ++ [⟨h, key, .ofValue value⟩]
      setKeys := List.pairwise_append.mpr ⟨c.setKeys, List.pairwise_singleton _ _,
        fun f hf g hg => by
          rw [List.mem_singleton.mp hg]
          exact hnew f hf⟩ }
  else c

/-- The row filed under an id. -/
def rowById (c : Catalog H) (id : ℤ) : Option (AssociationRow H) := c.rows.find? (·.id = id)

/-- `DELETE … WHERE` a predicate holds. -/
def deleteWhere (p : AssociationRow H → Bool) (c : Catalog H) : Catalog H :=
  { c with
    rows := c.rows.filter fun r => !p r
    ordered := c.ordered.filter _
    unique := c.unique.filter _
    bounded := fun r hr => c.bounded r (List.mem_of_mem_filter hr) }

/-- `DELETE FROM feature_sets`. -/
def deleteFeatureSets (c : Catalog H) : Catalog H := { c with featureSets := [], setKeys := .nil }

/-- `DELETE FROM feature_sets` where no row names the set. -/
def sweepOrphanFeatureSets (c : Catalog H) : Catalog H :=
  { c with
    featureSets := c.featureSets.filter fun f => c.rows.any (·.featuresHash = f.featuresHash)
    setKeys := c.setKeys.filter _ }

/-- Whether a row belongs to an owner. -/
def ownedBy (ownerId : ℤ) (category : OwnerCategory) (r : AssociationRow H) : Bool :=
  r.ownerId = ownerId && r.ownerCategory = category

/-- A row with its owner replaced, if it belongs to the old one. -/
def movedRow (oldOwner newOwner : ℤ) (category : OwnerCategory) (r : AssociationRow H) :
    AssociationRow H :=
  if ownedBy oldOwner category r then { r with ownerId := newOwner } else r

omit [DecidableEq H] in
theorem movedRow_id (oldOwner newOwner : ℤ) (category : OwnerCategory) (r : AssociationRow H) :
    (movedRow oldOwner newOwner category r).id = r.id := by
  unfold movedRow
  split <;> rfl

omit [DecidableEq H] in
/-- Two rows that both move, or both stay, keep distinct identities. -/
theorem movedRow_identity {oldOwner newOwner : ℤ} {category : OwnerCategory}
    {a b : AssociationRow H}
    (h : ownedBy oldOwner category a = ownedBy oldOwner category b)
    (he : (movedRow oldOwner newOwner category a).identity =
      (movedRow oldOwner newOwner category b).identity) : a.identity = b.identity := by
  unfold movedRow at he
  rw [h] at he
  split at he
  · rename_i hb
    rw [hb] at h
    unfold ownedBy at h hb
    simp only [Bool.and_eq_true, decide_eq_true_eq] at h hb
    unfold AssociationRow.identity at he ⊢
    simp only [IdentityKey.mk.injEq, true_and] at he
    rw [IdentityKey.mk.injEq]
    exact ⟨h.1.trans hb.1.symm, he⟩
  · exact he

omit [DecidableEq H] in
theorem movedRow_of_not_owned {oldOwner newOwner : ℤ} {category : OwnerCategory}
    {r : AssociationRow H} (h : ownedBy oldOwner category r = false) :
    movedRow oldOwner newOwner category r = r := by
  unfold movedRow
  rw [h]
  rfl

omit [DecidableEq H] in
/-- The identities stay distinct when no moved row takes that of one that stays. -/
theorem movedRows_unique {oldOwner newOwner : ℤ} {category : OwnerCategory}
    {rows : List (AssociationRow H)} (hu : rows.Pairwise fun a b => a.identity ≠ b.identity)
    (hkey : ∀ a ∈ rows, ∀ b ∈ rows, ownedBy oldOwner category a = true →
      ownedBy oldOwner category b = false →
      (movedRow oldOwner newOwner category a).identity ≠ b.identity) :
    (rows.map (movedRow oldOwner newOwner category)).Pairwise
      fun a b => a.identity ≠ b.identity := by
  refine List.pairwise_map.mpr (hu.imp_of_mem fun {a b} ha hb h he => ?_)
  rcases hoa : ownedBy oldOwner category a <;> rcases hob : ownedBy oldOwner category b
  · exact h (movedRow_identity (hoa.trans hob.symm) he)
  · rw [movedRow_of_not_owned hoa] at he
    exact hkey b hb a ha hob hoa he.symm
  · rw [movedRow_of_not_owned hob] at he
    exact hkey a ha b hb hoa hob he
  · exact h (movedRow_identity (hoa.trans hob.symm) he)

/-- `UPDATE … SET owner_id`: the number of rows moved, refused when one would repeat an identity. -/
def moveOwner (oldOwner newOwner : ℤ) (category : OwnerCategory) (c : Catalog H) :
    Result (ℕ × Catalog H) :=
  if hkey : ∀ a ∈ c.rows, ∀ b ∈ c.rows, ownedBy oldOwner category a = true →
      ownedBy oldOwner category b = false →
      (movedRow oldOwner newOwner category a).identity ≠ b.identity then
    .ok ((c.rows.filter (ownedBy oldOwner category)).length,
      { c with
        rows := c.rows.map (movedRow oldOwner newOwner category)
        ordered := List.pairwise_map.mpr (c.ordered.imp fun h => by
          rw [movedRow_id, movedRow_id]; exact h)
        unique := movedRows_unique c.unique hkey
        bounded := fun r hr => by
          obtain ⟨x, hx, rfl⟩ := List.mem_map.mp hr
          rw [movedRow_id]
          exact c.bounded x hx })
  else .error .duplicateTimeSeries

/-- A move of an owner leaves the feature sets and the id mark alone. -/
theorem moveOwner_sets {oldOwner newOwner : ℤ} {category : OwnerCategory} {c c' : Catalog H} {n : ℕ}
    (h : c.moveOwner oldOwner newOwner category = .ok (n, c')) :
    c'.featureSets = c.featureSets := by
  unfold moveOwner at h
  split at h
  · cases h
    rfl
  · cases h

theorem moveOwner_seq {oldOwner newOwner : ℤ} {category : OwnerCategory} {c c' : Catalog H} {n : ℕ}
    (h : c.moveOwner oldOwner newOwner category = .ok (n, c')) : c'.seq = c.seq := by
  unfold moveOwner at h
  split at h
  · cases h
    rfl
  · cases h

/-- The rows a move of an owner leaves. -/
theorem moveOwner_rows {oldOwner newOwner : ℤ} {category : OwnerCategory} {c c' : Catalog H} {n : ℕ}
    (h : c.moveOwner oldOwner newOwner category = .ok (n, c')) :
    c'.rows = c.rows.map (movedRow oldOwner newOwner category) := by
  unfold moveOwner at h
  split at h
  · cases h
    rfl
  · cases h

omit [DecidableEq H] in
/-- A moved row is the same series. -/
theorem movedRow_series (oldOwner newOwner : ℤ) (category : OwnerCategory) (r : AssociationRow H) :
    (movedRow oldOwner newOwner category r).dataHash = r.dataHash ∧
      (movedRow oldOwner newOwner category r).timeSeriesType = r.timeSeriesType ∧
      (movedRow oldOwner newOwner category r).timestampsHash = r.timestampsHash := by
  unfold movedRow
  split <;> exact ⟨rfl, rfl, rfl⟩

/-! ### Probes -/

/-- Whether a row references a hash through `data_hash`. -/
def referencesArray (c : Catalog H) (h : H) : Bool := c.rows.any (·.dataHash = h)

/-- Whether a row references a hash through `timestamps_hash`. -/
def referencesTimestamps (c : Catalog H) (h : H) : Bool := c.rows.any (·.timestampsHash = some h)

/-- Whether a family holds a row of a type. -/
def forecastFamilyConflict (f : SeriesFamily H) (conflicting : TimeSeriesType) (c : Catalog H) :
    Bool :=
  c.rows.any fun r => r.timeSeriesType = conflicting && r.family = f

/-- Whether a family holds a row of a type over an array. -/
def forecastFamilyConflictOnArray (f : SeriesFamily H) (array : H) (conflicting : TimeSeriesType)
    (c : Catalog H) : Bool :=
  c.rows.any fun r => r.timeSeriesType = conflicting && r.family = f && r.dataHash = array

/-- Some row names an array. -/
def References (c : Catalog H) (h : H) : Prop := ∃ r ∈ c.rows, r.dataHash = h

/-- Some irregular row names an explicit time axis. -/
def NamesAxis (c : Catalog H) (t : H) : Prop :=
  ∃ r ∈ c.rows, r.timeSeriesType.isIrregular = true ∧ r.timestampsHash = some t

/-- Every irregular row names a time axis. -/
def Axed (c : Catalog H) : Prop :=
  ∀ r ∈ c.rows, r.timeSeriesType.isIrregular = true → r.timestampsHash.isSome

/-- No family holds two types that exclude each other. -/
def Exclusive (c : Catalog H) : Prop :=
  ∀ a ∈ c.rows, ∀ b ∈ c.rows,
    exclusiveCounterpart a.timeSeriesType = some b.timeSeriesType → a.family ≠ b.family

theorem referencesArray_iff {c : Catalog H} {h : H} :
    c.referencesArray h = true ↔ c.References h := by
  unfold referencesArray References
  rw [List.any_eq_true]
  simp only [decide_eq_true_eq]

/-- An axis an irregular row names is one the axis probe finds. -/
theorem NamesAxis.referencesTimestamps {c : Catalog H} {t : H} (h : c.NamesAxis t) :
    c.referencesTimestamps t = true := by
  obtain ⟨r, hr, -, ht⟩ := h
  unfold Catalog.referencesTimestamps
  rw [List.any_eq_true]
  exact ⟨r, hr, decide_eq_true ht⟩

theorem forecastFamilyConflict_iff {c : Catalog H} {f : SeriesFamily H} {t : TimeSeriesType} :
    c.forecastFamilyConflict f t = true ↔ ∃ r ∈ c.rows, r.timeSeriesType = t ∧ r.family = f := by
  unfold forecastFamilyConflict
  rw [List.any_eq_true]
  simp only [Bool.and_eq_true, decide_eq_true_eq]

/-- The first moving row whose family at the new owner already holds its exclusive counterpart. -/
def forecastFamilyConflictOnOwnerMove (oldOwner newOwner : ℤ) (category : OwnerCategory)
    (c : Catalog H) : Option (String × TimeSeriesType × TimeSeriesType) :=
  (c.rows.filter (ownedBy oldOwner category)).findSome? fun moving =>
    (c.rows.find? fun existing =>
        existing.ownerId = newOwner && existing.family = { moving.family with ownerId := newOwner } &&
          exclusiveCounterpart moving.timeSeriesType = some existing.timeSeriesType).map
      fun existing => (moving.name, moving.timeSeriesType, existing.timeSeriesType)

/-- Refuse explicit ids the catalog could ever have issued. -/
def checkExplicitTimeSeriesIds (ids : List ℤ) (c : Catalog H) : Result Unit :=
  match ids.find? (· ≤ 0) with
  | some bad => .error (.invalidParameter
      s!"association id {bad} is not a valid explicit id; ids are positive integers")
  | none =>
    match ids.find? (· ≤ c.seq) with
    | some id => .error (.duplicateAssociationId id)
    | none => .ok ()

end Catalog

/-! ### Reading rows back -/

/-- Put an entry into a sorted map, replacing the one under its key. -/
def insertEntry (k : String) (v : FeatureValue) :
    List (String × FeatureValue) → List (String × FeatureValue)
  | [] => [(k, v)]
  | e :: es =>
    if k < e.1 then (k, v) :: e :: es
    else if k = e.1 then (k, v) :: es
    else e :: insertEntry k v es

theorem mem_insertEntry {k : String} {v : FeatureValue} {es : List (String × FeatureValue)}
    {e : String × FeatureValue} (h : e ∈ insertEntry k v es) : e = (k, v) ∨ e ∈ es := by
  induction es with
  | nil => exact Or.inl (List.mem_singleton.mp h)
  | cons e' es ih =>
    unfold insertEntry at h
    split at h
    · exact List.mem_cons.mp h
    · split at h
      · exact (List.mem_cons.mp h).imp_right (List.mem_cons_of_mem _)
      · rcases List.mem_cons.mp h with rfl | h
        · exact Or.inr List.mem_cons_self
        · exact (ih h).imp_right (List.mem_cons_of_mem _)

theorem insertEntry_sorted {k : String} {v : FeatureValue} {es : List (String × FeatureValue)}
    (hs : es.Pairwise fun a b => a.1 < b.1) :
    (insertEntry k v es).Pairwise fun a b => a.1 < b.1 := by
  induction es with
  | nil => exact List.pairwise_singleton _ _
  | cons e es ih =>
    obtain ⟨he, hs⟩ := List.pairwise_cons.mp hs
    unfold insertEntry
    split
    · rename_i hk
      refine List.pairwise_cons.mpr ⟨fun e' h' => ?_, List.pairwise_cons.mpr ⟨he, hs⟩⟩
      rcases List.mem_cons.mp h' with rfl | h'
      · exact hk
      · exact hk.trans (he e' h')
    · split
      · rename_i hk
        exact List.pairwise_cons.mpr ⟨fun e' h' => by rw [hk]; exact he e' h', hs⟩
      · rename_i h1 h2
        refine List.pairwise_cons.mpr ⟨fun e' h' => ?_, ih hs⟩
        rcases mem_insertEntry h' with rfl | h'
        · exact lt_of_le_of_ne (not_lt.mp h1) (Ne.symm h2)
        · exact he e' h'

/-- A feature map with one more entry. -/
def Features.insert (f : Features) (k : String) (v : FeatureValue) : Features :=
  ⟨insertEntry k v f.entries, insertEntry_sorted f.sorted⟩

/-- Whether every required feature is there with its value. -/
def isSubset (required actual : Features) : Bool :=
  required.entries.all fun e => (actual.entries.lookup e.1).any e.2.same

namespace AssociationRow

variable {H : Type}

/-- A text column through its parser. -/
def parseColumn {α β : Type} (parse : α → Result β) : Option α → Result (Option β)
  | none => .ok none
  | some a => (parse a).map some

/-- The instants a stored RFC 3339 text parses back to: those of the four-digit years. -/
def parseInstant (t : DateTime) : Result DateTime :=
  if 0 ≤ t.date.year ∧ t.date.year ≤ 9999 then .ok t
  else .error (conversionError "Text" 7 "input contains invalid characters")

def parseUnitSystem (s : String) : Result UnitSystem :=
  match UnitSystem.parse s with
  | some u => .ok u
  | none => .error (conversionError "Text" 16 s!"invalid unit_system: {s.quote}")

/-- A time reference column, whose parser's own message is carried along. -/
def parseTimeReference (s : String) : Result TimeReference :=
  match TimeReference.parse s with
  | .ok r => .ok r
  | .error (.invalidParameter e) =>
    .error (conversionError "Text" 17 s!"invalid time_reference: {s.quote} (invalid parameter: {e})")
  | .error _ => .error (conversionError "Text" 17 s!"invalid time_reference: {s.quote}")

def parsePercentiles [FloatText] (s : String) : Result (List F64) :=
  mapErr (conversionError "Text" 18) (FloatText.fromJson s)

def parseElementType (s : String) : Result ElementType :=
  match ElementType.parse s with
  | some e => .ok e
  | none => .error (conversionError "Text" 19 s!"invalid element_type: {s}")

/-- A period column. -/
def parsePeriod (column : ℕ) (s : String) : Result Period :=
  match Period.fromIso8601 s with
  | .ok p => .ok p
  | .error (.invalidParameter e) =>
    .error (conversionError "Text" column s!"invalid parameter: {e}")
  | .error _ => .error (conversionError "Text" column s)

/-- Parse one association row; its features and its time axis are hydrated by the listing. -/
def parse [FloatText] (r : AssociationRow H) : Result (TimeSeriesMetadata H) := do
  let unitSystem ← parseColumn parseUnitSystem r.unitSystem
  let timeReference ← parseColumn parseTimeReference r.timeReference
  let initialTimestamp ← parseColumn parseInstant r.initialTimestamp
  let percentiles ← parseColumn parsePercentiles r.percentilesJson
  let elementType ← parseElementType r.elementType
  let resolution ← parseColumn (parsePeriod 8) r.resolution
  let horizon ← parseColumn (parsePeriod 10) r.horizon
  let interval ← parseColumn (parsePeriod 11) r.interval
  pure
    { ownerId := r.ownerId
      ownerType := r.ownerType
      ownerCategory := r.ownerCategory
      timeSeriesType := r.timeSeriesType
      name := r.name
      dataHash := r.dataHash
      initialTimestamp := initialTimestamp
      resolution := resolution
      length := r.length
      horizon := horizon
      interval := interval
      count := r.count
      timestamps := none
      features := Features.empty
      units := r.units
      quantityKind := r.quantityKind
      unitSystem := unitSystem
      timeReference := timeReference
      componentField := r.componentField
      percentiles := percentiles
      elementType := elementType
      elementShape := r.elementShape
      applicationData := r.applicationData
      id := some r.id }

end AssociationRow

namespace Catalog

variable {H : Type} [DecidableEq H]

/-- The feature set stored under a hash. -/
def featureSet (c : Catalog H) (h : H) : Result Features :=
  (c.featureSets.filter (·.featuresHash = h)).foldlM
    (fun f row => row.cell.toValue.map (f.insert row.key)) Features.empty

/-- A row's features; the empty set writes no rows and is not looked up. -/
def rowFeatures [Sha256 H] (c : Catalog H) (r : AssociationRow H) : Result Features :=
  if r.featuresHash = featuresHash Features.empty then .ok Features.empty
  else c.featureSet r.featuresHash

/-- Read the vector a row names; one the store does not hold is left for the row that names it. -/
def fetchAxis (vectors : H → Result (List DateTime)) (r : AssociationRow H) :
    Result (Option (List DateTime)) :=
  match r.timestampsHash with
  | none => .ok none
  | some t =>
    match vectors t with
    | .ok ts => .ok (some ts)
    | .error .notFound => .ok none
    | .error e => .error e

/-- The time axis of a listed row, which must be held if the row names one. -/
def rowAxis [ToString H] (r : AssociationRow H) (fetched : Option (List DateTime)) :
    Result (Option (List DateTime)) :=
  match r.timestampsHash, fetched with
  | none, _ => .ok none
  | some _, some ts => .ok (some ts)
  | some t, none => .error (.integrityError
      s!"association '{r.name}' (owner {r.ownerId}) references timestamp vector {t}, which the store does not hold")

/-- A listed row, hydrated; `none` if it lacks a required feature. -/
def hydrate [ToString H] (required : Option Features) (hydrated : Bool)
    (x : AssociationRow H × TimeSeriesMetadata H × Option (List DateTime) × Features) :
    Result (Option (TimeSeriesMetadata H)) :=
  let (r, m, fetched, features) := x
  if required.any fun f => !isSubset f features then .ok none
  else do
    let timestamps ← if hydrated then rowAxis r fetched else .ok none
    pure (some { m with features, timestamps })

/-- The rows matching a predicate and, in memory, a feature subset: each parsed, and its time axis
read from `vectors` unless the caller asks for the rows alone. -/
def list [Sha256 H] [FloatText] [ToString H] (c : Catalog H)
    (vectors : Option (H → Result (List DateTime))) (required : Option Features)
    (wher : AssociationRow H → Bool) : Result (List (TimeSeriesMetadata H)) := do
  let rows := c.rows.filter wher
  let parsed ← rows.mapM AssociationRow.parse
  let fetched ← match vectors with
    | none => .ok (rows.map fun _ => none)
    | some read => rows.mapM (fetchAxis read)
  let features ← rows.mapM c.rowFeatures
  let out ← (rows.zip (parsed.zip (fetched.zip features))).mapM (hydrate required vectors.isSome)
  pure (out.filterMap id)

/-- A metadata record is a row read back, its time axis and features included. -/
structure Hydrated [Sha256 H] [FloatText] (c : Catalog H) (vectors : H → Result (List DateTime))
    (r : AssociationRow H) (m : TimeSeriesMetadata H) : Prop where
  columns : ∃ m₀, r.parse = .ok m₀ ∧ m = { m₀ with features := m.features, timestamps := m.timestamps }
  features : c.rowFeatures r = .ok m.features
  axis : (r.timestampsHash = none ∧ m.timestamps = none) ∨
    ∃ t ts, r.timestampsHash = some t ∧ vectors t = .ok ts ∧ m.timestamps = some ts

/-- **Listings.**  Every record of a hydrated listing is a matching row, read back. -/
theorem mem_list [Sha256 H] [FloatText] [ToString H] {c : Catalog H}
    {vectors : H → Result (List DateTime)} {required : Option Features} {wher : AssociationRow H → Bool}
    {ms : List (TimeSeriesMetadata H)} (h : c.list (some vectors) required wher = .ok ms)
    {m : TimeSeriesMetadata H} (hm : m ∈ ms) :
    ∃ r ∈ c.rows, wher r = true ∧ c.Hydrated vectors r m := by
  unfold list at h
  simp only [except_bind_eq_ok] at h
  obtain ⟨parsed, hp, fetched, hf, features, hfe, out, ho, h⟩ := h
  cases h
  obtain ⟨x, hx, hxm⟩ := List.mem_filterMap.mp hm
  obtain ⟨⟨r, m₀, ax, fs⟩, hmem, hy⟩ := mapM_origin ho hx
  obtain ⟨i, hi⟩ := List.getElem?_of_mem hmem
  simp only [List.getElem?_zip_eq_some] at hi
  obtain ⟨h1, h2, h3, h4⟩ := hi
  have hr := List.mem_filter.mp (List.mem_of_getElem? h1)
  have hat : ∀ {β : Type} {f : AssociationRow H → Result β} {bs : List β} {b : β},
      (c.rows.filter wher).mapM f = .ok bs → bs[i]? = some b → f r = .ok b := by
    intro β f bs b hb hi
    exact (mapM_ok hb).2 (r, b) (List.mem_of_getElem? (i := i)
      (List.getElem?_zip_eq_some.mpr ⟨h1, hi⟩))
  refine ⟨r, hr.1, hr.2, ?_⟩
  have hparse := hat hp h2
  have haxis := hat hf h3
  have hfeat := hat hfe h4
  rw [show x = some m from hxm] at hy
  unfold hydrate at hy
  simp only at hy
  split at hy
  · cases hy
  · obtain ⟨ts, hts, hy⟩ := except_bind_eq_ok.mp hy
    cases hy
    refine ⟨⟨m₀, hparse, rfl⟩, hfeat, ?_⟩
    unfold fetchAxis at haxis
    rcases ht : r.timestampsHash with _ | t
    · rw [ht] at haxis
      cases haxis
      unfold rowAxis at hts
      rw [ht] at hts
      cases hts
      exact Or.inl ⟨rfl, rfl⟩
    · rw [ht] at haxis
      simp only at haxis
      unfold rowAxis at hts
      rw [ht] at hts
      rcases hv : vectors t with e | v
      · rw [hv] at haxis
        cases e <;> cases haxis
        cases hts
      · rw [hv] at haxis
        cases haxis
        cases hts
        exact Or.inr ⟨t, v, rfl, hv, rfl⟩

/-- A traversal whose results are read off a second list. -/
theorem mapM_forall₂ {α β γ : Type} {R : α → γ → Prop} {f : α → Result β} {g : γ → β}
    (hf : ∀ a c, R a c → f a = .ok (g c)) {as : List α} {cs : List γ} (h : List.Forall₂ R as cs) :
    as.mapM f = .ok (cs.map g) := by
  induction h with
  | nil => rfl
  | cons hac _ ih =>
    rw [List.mapM_cons, hf _ _ hac, ih]
    rfl

theorem forall₂_of_exists {α β : Type} {R : α → β → Prop} {as : List α}
    (h : ∀ a ∈ as, ∃ b, R a b) : ∃ bs, List.Forall₂ R as bs := by
  induction as with
  | nil => exact ⟨[], .nil⟩
  | cons a as ih =>
    obtain ⟨b, hb⟩ := h a List.mem_cons_self
    obtain ⟨bs, hbs⟩ := ih fun x hx => h x (List.mem_cons_of_mem _ hx)
    exact ⟨b :: bs, .cons hb hbs⟩

theorem forall₂_mem_right {α β : Type} {R : α → β → Prop} {as : List α} {bs : List β}
    (h : List.Forall₂ R as bs) {b : β} (hb : b ∈ bs) : ∃ a ∈ as, R a b := by
  induction h with
  | nil => cases hb
  | @cons x y as bs hxy _ ih =>
    cases hb with
    | head => exact ⟨x, List.mem_cons_self, hxy⟩
    | tail _ hb =>
      obtain ⟨a, ha, hab⟩ := ih hb
      exact ⟨a, List.mem_cons_of_mem x ha, hab⟩

theorem forall₂_getElem? {α β : Type} {R : α → β → Prop} {as : List α} {bs : List β}
    (h : List.Forall₂ R as bs) {i : ℕ} {a : α} (ha : as[i]? = some a) : ∃ b, bs[i]? = some b ∧ R a b := by
  induction h generalizing i with
  | nil => cases ha
  | @cons x y as bs hxy _ ih =>
    cases i with
    | zero =>
      cases ha
      exact ⟨y, rfl, hxy⟩
    | succ i => exact ih ha

/-- Two lists related element by element to a third are so to each other. -/
theorem forall₂_comp {α β γ : Type} {R : α → β → Prop} {S : β → γ → Prop} {T : α → γ → Prop}
    (hT : ∀ a b c, R a b → S b c → T a c) {as : List α} {bs : List β} {cs : List γ}
    (hR : List.Forall₂ R as bs) (hS : List.Forall₂ S bs cs) : List.Forall₂ T as cs := by
  induction hR generalizing cs with
  | nil =>
    cases hS
    exact .nil
  | cons hab _ ih =>
    cases hS with
    | cons hbc hS => exact .cons (hT _ _ _ hab hbc) (ih hS)

theorem forall₂_any {α β : Type} {R : α → β → Prop} {p : α → Bool} {q : β → Bool}
    (hpq : ∀ a b, R a b → p a = q b) {as : List α} {bs : List β} (h : List.Forall₂ R as bs) :
    as.any p = bs.any q := by
  induction h with
  | nil => rfl
  | cons hab _ ih => rw [List.any_cons, List.any_cons, hpq _ _ hab, ih]

/-- A row is parsed without its features and its time axis. -/
theorem Hydrated.parse [Sha256 H] [FloatText] {c : Catalog H} {vectors : H → Result (List DateTime)}
    {r : AssociationRow H} {m : TimeSeriesMetadata H} (h : c.Hydrated vectors r m) :
    r.parse = .ok { m with features := Features.empty, timestamps := none } := by
  obtain ⟨m₀, hp, hm⟩ := h.columns
  have hblank : m₀ = { m₀ with features := Features.empty, timestamps := none } := by
    have h := hp
    unfold AssociationRow.parse at h
    simp only [except_bind_eq_ok] at h
    obtain ⟨_, -, _, -, _, -, _, -, _, -, _, -, _, -, _, -, h⟩ := h
    cases h
    rfl
  rw [hp, hblank, hm]

theorem Hydrated.fetched [Sha256 H] [FloatText] {c : Catalog H} {vectors : H → Result (List DateTime)}
    {r : AssociationRow H} {m : TimeSeriesMetadata H} (h : c.Hydrated vectors r m) :
    fetchAxis vectors r = .ok m.timestamps := by
  unfold fetchAxis
  rcases h.axis with ⟨h1, h2⟩ | ⟨t, ts, h1, h2, h3⟩
  · rw [h1, h2]
  · rw [h1, h3]
    simp only [h2]

/-- A hydrated row survives the feature filter, or not. -/
theorem Hydrated.hydrate [Sha256 H] [FloatText] [ToString H] {c : Catalog H}
    {vectors : H → Result (List DateTime)} {r : AssociationRow H} {m : TimeSeriesMetadata H}
    (h : c.Hydrated vectors r m) (required : Option Features) :
    Catalog.hydrate required true (r, { m with features := Features.empty, timestamps := none },
      m.timestamps, m.features) =
        .ok (if required.any fun f => !isSubset f m.features then none else some m) := by
  unfold Catalog.hydrate
  simp only
  split
  · rfl
  · have haxis : rowAxis r m.timestamps = .ok m.timestamps := by
      unfold rowAxis
      rcases h.axis with ⟨h1, h2⟩ | ⟨t, ts, h1, -, h3⟩
      · rw [h1, h2]
      · rw [h1, h3]
    rw [haxis]
    rfl

theorem mapM_hydrate [Sha256 H] [FloatText] [ToString H] {c : Catalog H}
    {vectors : H → Result (List DateTime)} {rows : List (AssociationRow H)}
    {ms : List (TimeSeriesMetadata H)} (h : List.Forall₂ (c.Hydrated vectors) rows ms)
    (required : Option Features) :
    (rows.zip ((ms.map fun m => { m with features := Features.empty, timestamps := none }).zip
      ((ms.map (·.timestamps)).zip (ms.map (·.features))))).mapM (Catalog.hydrate required true) =
        .ok (ms.map fun m => if required.any fun f => !isSubset f m.features then none else some m) := by
  induction h with
  | nil => rfl
  | cons hrm _ ih =>
    simp only [List.map_cons, List.zip_cons_cons]
    rw [List.mapM_cons, hrm.hydrate required, ih]
    rfl

/-- **A listing whose rows all read back** holds each of them that has the features required. -/
theorem list_hydrated [Sha256 H] [FloatText] [ToString H] {c : Catalog H}
    {vectors : H → Result (List DateTime)} {wher : AssociationRow H → Bool}
    {ms : List (TimeSeriesMetadata H)}
    (h : List.Forall₂ (c.Hydrated vectors) (c.rows.filter wher) ms) (required : Option Features) :
    c.list (some vectors) required wher =
      .ok (ms.filter fun m => required.all (isSubset · m.features)) := by
  unfold list
  generalize c.rows.filter wher = rows at h ⊢
  show (rows.mapM AssociationRow.parse >>= fun parsed => rows.mapM (fetchAxis vectors) >>=
    fun fetched => rows.mapM c.rowFeatures >>= fun features =>
    (rows.zip (parsed.zip (fetched.zip features))).mapM (Catalog.hydrate required true) >>=
    fun out => pure (out.filterMap id)) = _
  rw [mapM_forall₂ (fun r m hy => hy.parse) h, mapM_forall₂ (fun r m hy => hy.fetched) h,
    mapM_forall₂ (fun r m hy => hy.features) h]
  show (List.mapM (Catalog.hydrate required true) (rows.zip _) >>= fun out => _) = _
  rw [mapM_hydrate h required]
  refine congrArg Except.ok ?_
  rw [List.filterMap_map, ← List.filterMap_eq_filter]
  refine congrFun (congrArg _ (funext fun m => ?_)) _
  cases required with
  | none => rfl
  | some f => cases hsub : isSubset f m.features <;> simp [hsub, Option.guard]

theorem mapM_hydrate_rows_only [Sha256 H] [FloatText] [ToString H] {c : Catalog H}
    {vectors : H → Result (List DateTime)} {rows : List (AssociationRow H)}
    {ms : List (TimeSeriesMetadata H)} (h : List.Forall₂ (c.Hydrated vectors) rows ms)
    (required : Option Features) :
    (rows.zip ((ms.map fun m => { m with features := Features.empty, timestamps := none }).zip
      ((rows.map fun _ => none).zip (ms.map (·.features))))).mapM (Catalog.hydrate required false) =
        .ok (ms.map fun m => if required.any fun f => !isSubset f m.features then none
          else some { m with timestamps := none }) := by
  induction h with
  | nil => rfl
  | @cons r m _ _ _ _ ih =>
    simp only [List.map_cons, List.zip_cons_cons]
    have hhead : Catalog.hydrate required false
        (r, { m with features := Features.empty, timestamps := none }, none, m.features) =
          .ok (if required.any fun f => !isSubset f m.features then none
            else some { m with timestamps := none }) := by
      unfold Catalog.hydrate
      simp only
      split <;> rfl
    rw [List.mapM_cons, hhead, ih]
    rfl

/-- Without the time axes it holds the same rows, each without its own. -/
theorem list_unhydrated [Sha256 H] [FloatText] [ToString H] {c : Catalog H}
    {vectors : H → Result (List DateTime)} {wher : AssociationRow H → Bool}
    {ms : List (TimeSeriesMetadata H)}
    (h : List.Forall₂ (c.Hydrated vectors) (c.rows.filter wher) ms) (required : Option Features) :
    c.list none required wher = .ok ((ms.filter fun m => required.all (isSubset · m.features)).map
      fun m => { m with timestamps := none }) := by
  unfold list
  generalize c.rows.filter wher = rows at h ⊢
  show (rows.mapM AssociationRow.parse >>= fun parsed => (.ok (rows.map fun _ => none) : Result _) >>=
    fun fetched => rows.mapM c.rowFeatures >>= fun features =>
    (rows.zip (parsed.zip (fetched.zip features))).mapM (Catalog.hydrate required false) >>=
    fun out => pure (out.filterMap id)) = _
  rw [mapM_forall₂ (fun r m hy => hy.parse) h, mapM_forall₂ (fun r m hy => hy.features) h]
  show (List.mapM (Catalog.hydrate required false) (rows.zip _) >>= fun out => _) = _
  rw [mapM_hydrate_rows_only h required]
  refine congrArg Except.ok ?_
  clear h
  induction ms with
  | nil => rfl
  | cons m ms ih =>
    rw [List.map_cons, List.filterMap_cons, List.filter_cons]
    cases required with
    | none => exact congrArg (List.cons _) ih
    | some f =>
      cases hsub : isSubset f m.features with
      | true =>
        simp only [Option.any_some, Option.all_some, hsub]
        exact congrArg (List.cons _) ih
      | false =>
        simp only [Option.any_some, Option.all_some, hsub]
        exact ih

/-- A listing of the rows alone reads back every matching row, but for its time axis. -/
theorem list_unhydrated_ok [Sha256 H] [FloatText] [ToString H] {c : Catalog H}
    {required : Option Features} {wher : AssociationRow H → Bool} {ms : List (TimeSeriesMetadata H)}
    (h : c.list none required wher = .ok ms) :
    ∃ ms₀, List.Forall₂ (c.Hydrated fun _ => .ok []) (c.rows.filter wher) ms₀ ∧
      ms = (ms₀.filter fun m => required.all (isSubset · m.features)).map
        fun m => { m with timestamps := none } := by
  have hread : ∀ r ∈ c.rows.filter wher, ∃ m, c.Hydrated (fun _ => .ok []) r m := by
    have hlist := h
    unfold list at hlist
    simp only [except_bind_eq_ok] at hlist
    obtain ⟨parsed, hp, _, -, features, hfe, -⟩ := hlist
    intro r hr
    obtain ⟨m, -, hm⟩ := mapM_covers hp hr
    obtain ⟨f, -, hf⟩ := mapM_covers hfe hr
    refine ⟨{ m with features := f, timestamps := r.timestampsHash.map fun _ => [] }, ⟨m, hm, rfl⟩,
      hf, ?_⟩
    cases ht : r.timestampsHash with
    | none => exact .inl ⟨rfl, rfl⟩
    | some t => exact .inr ⟨t, [], rfl, rfl, rfl⟩
  obtain ⟨ms₀, hms₀⟩ := forall₂_of_exists hread
  rw [list_unhydrated hms₀ required] at h
  exact ⟨ms₀, hms₀, (Except.ok.inj h).symm⟩

omit [DecidableEq H] in
theorem parse_id [FloatText] {r : AssociationRow H} {m : TimeSeriesMetadata H}
    (h : r.parse = .ok m) : m.id = some r.id := by
  unfold AssociationRow.parse at h
  simp only [except_bind_eq_ok] at h
  obtain ⟨_, -, _, -, _, -, _, -, _, -, _, -, _, -, _, -, h⟩ := h
  cases h
  rfl

omit [DecidableEq H] in
/-- What a listing of the rows alone makes of a row. -/
theorem hydrate_rows_only [ToString H] {required : Option Features}
    {x : AssociationRow H × TimeSeriesMetadata H × Option (List DateTime) × Features}
    {out : Option (TimeSeriesMetadata H)} (h : Catalog.hydrate required false x = .ok out) {i : ℤ} :
    (∃ m, out = some m ∧ m.id = some i) ↔
      x.2.1.id = some i ∧ required.all (isSubset · x.2.2.2) = true := by
  obtain ⟨r, m, fetched, features⟩ := x
  unfold Catalog.hydrate at h
  simp only at h
  split at h
  · rename_i hmiss
    cases h
    constructor
    · rintro ⟨_, h, -⟩
      cases h
    · rintro ⟨-, hall⟩
      cases required with
      | none => cases hmiss
      | some f =>
        rw [Option.all_some] at hall
        rw [Option.any_some, hall] at hmiss
        cases hmiss
  · rename_i hmiss
    cases h
    constructor
    · rintro ⟨_, ⟨⟩, hid⟩
      refine ⟨hid, ?_⟩
      cases required with
      | none => rfl
      | some f => simpa using hmiss
    · exact fun h => ⟨_, rfl, h.1⟩

/-- **A listing of the rows alone** names the rows that match and have the features required. -/
theorem list_rows_only [Sha256 H] [FloatText] [ToString H] {c : Catalog H} {required : Option Features}
    {wher : AssociationRow H → Bool} {ms : List (TimeSeriesMetadata H)}
    (h : c.list none required wher = .ok ms) (i : ℤ) :
    (∃ m ∈ ms, m.id = some i) ↔ ∃ r ∈ c.rows, r.id = i ∧ wher r = true ∧
      ∃ g, c.rowFeatures r = .ok g ∧ required.all (isSubset · g) = true := by
  unfold list at h
  simp only [except_bind_eq_ok] at h
  obtain ⟨parsed, hp, fetched, hf, features, hfe, out, ho, h⟩ := h
  cases h
  cases hf
  have hmem : (∃ r ∈ c.rows, r.id = i ∧ wher r = true ∧
      ∃ g, c.rowFeatures r = .ok g ∧ required.all (isSubset · g) = true) ↔
      ∃ r ∈ c.rows.filter wher, r.id = i ∧
        ∃ g, c.rowFeatures r = .ok g ∧ required.all (isSubset · g) = true := by
    constructor
    · rintro ⟨r, hr, hid, hw, hg⟩
      exact ⟨r, List.mem_filter.mpr ⟨hr, hw⟩, hid, hg⟩
    · rintro ⟨r, hr, hid, hg⟩
      exact ⟨r, (List.mem_filter.mp hr).1, hid, (List.mem_filter.mp hr).2, hg⟩
  rw [hmem]
  clear hmem
  generalize c.rows.filter wher = rows at hp hfe ho ⊢
  induction rows generalizing parsed features out with
  | nil =>
    cases hp
    cases ho
    simp
  | cons r rows ih =>
    rw [List.mapM_cons] at hp hfe
    obtain ⟨m, hm, ps, hps, hp⟩ := by simpa only [except_bind_eq_ok] using hp
    obtain ⟨g, hg, gs, hgs, hfe⟩ := by simpa only [except_bind_eq_ok] using hfe
    cases hp
    cases hfe
    simp only [List.map_cons, List.zip_cons_cons] at ho
    rw [List.mapM_cons] at ho
    obtain ⟨x, hx, xs, hxs, ho⟩ := by simpa only [except_bind_eq_ok] using ho
    cases ho
    have hhead := hydrate_rows_only hx (i := i)
    rw [show (m.id = some i) = (r.id = i) by rw [parse_id hm, Option.some.injEq]] at hhead
    have htail := ih ps gs xs hps hgs hxs
    have hsplit : (∃ n ∈ (x :: xs).filterMap id, n.id = some i) ↔
        (∃ n, x = some n ∧ n.id = some i) ∨ ∃ n ∈ xs.filterMap id, n.id = some i := by
      cases x <;> simp
    have hset : (∃ g', c.rowFeatures r = .ok g' ∧ required.all (isSubset · g') = true) ↔
        required.all (isSubset · g) = true := by
      rw [hg]
      simp
    rw [hsplit, hhead]
    refine (or_congr_right htail).trans ?_
    simp only [List.mem_cons, or_and_right, exists_or, exists_eq_left, hset]

/-- The columns of a record that come straight from its row. -/
theorem Hydrated.series [Sha256 H] [FloatText] {c : Catalog H} {vectors : H → Result (List DateTime)}
    {r : AssociationRow H} {m : TimeSeriesMetadata H} (h : c.Hydrated vectors r m) :
    m.dataHash = r.dataHash ∧ m.timeSeriesType = r.timeSeriesType ∧ m.ownerId = r.ownerId ∧
      m.ownerCategory = r.ownerCategory ∧ m.name = r.name := by
  obtain ⟨m₀, hp, hm⟩ := h.columns
  unfold AssociationRow.parse at hp
  simp only [except_bind_eq_ok] at hp
  obtain ⟨_, -, _, -, _, -, _, -, _, -, _, -, _, -, _, -, hp⟩ := hp
  cases hp
  rw [hm]
  exact ⟨rfl, rfl, rfl, rfl, rfl⟩

theorem Hydrated.id [Sha256 H] [FloatText] {c : Catalog H} {vectors : H → Result (List DateTime)}
    {r : AssociationRow H} {m : TimeSeriesMetadata H} (h : c.Hydrated vectors r m) :
    m.id = some r.id := by
  obtain ⟨m₀, hp, hm⟩ := h.columns
  unfold AssociationRow.parse at hp
  simp only [except_bind_eq_ok] at hp
  obtain ⟨_, -, _, -, _, -, _, -, _, -, _, -, _, -, _, -, hp⟩ := hp
  cases hp
  rw [hm]

/-- The row filed under an id, hydrated. -/
def getById [Sha256 H] [FloatText] [ToString H] (c : Catalog H)
    (vectors : H → Result (List DateTime)) (id : ℤ) : Result (Option (TimeSeriesMetadata H)) :=
  (c.list (some vectors) none (·.id = id)).map List.getLast?

theorem getById_eq_some [Sha256 H] [FloatText] [ToString H] {c : Catalog H}
    {vectors : H → Result (List DateTime)} {id : ℤ} {m : TimeSeriesMetadata H}
    (h : c.getById vectors id = .ok (some m)) : ∃ r ∈ c.rows, r.id = id ∧ c.Hydrated vectors r m := by
  unfold getById at h
  rcases hl : c.list (some vectors) none (·.id = id) with e | ms
  · rw [hl] at h
    cases h
  · rw [hl] at h
    obtain ⟨r, hr, hw, hy⟩ := mem_list hl (List.mem_of_getLast? (Except.ok.inj h))
    exact ⟨r, hr, by simpa using hw, hy⟩

/-- Whether a row has the identity of a metadata record. -/
def existsIdentity [Sha256 H] [FloatText] (c : Catalog H) (m : TimeSeriesMetadata H) : Bool :=
  c.rows.any fun r => r.identity = (m.toRow 0).identity

end Catalog

end InfraStore
