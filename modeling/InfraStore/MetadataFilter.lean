import InfraStore.PeriodText
import InfraStore.Transform

/-!
# Filters over the catalog

A `MetadataFilter` picks rows of the catalog: by their columns, in SQL, and by the features they
carry, which a listing compares in memory and an existence probe in SQL.

* `MetadataFilter.holds`: the `WHERE` clause, as a predicate on a row;
* `Catalog.listFilter`, `Catalog.exists`: the listing and the probe;
* `identityFilter`: the filter that names one row.
-/

namespace InfraStore

/-! ### Types -/

/-- The storage code. -/
def TimeSeriesType.code : TimeSeriesType → ℤ
  | .singleTimeSeries => 0
  | .nonSequentialTimeSeries => 1
  | .deterministic => 2
  | .deterministicSingleTimeSeries => 3
  | .probabilistic => 4
  | .scenarios => 5
  | .persistentTimeSeries => 6

theorem TimeSeriesType.code_injective : Function.Injective TimeSeriesType.code := by
  intro a b h
  cases a <;> cases b <;> first | rfl | exact absurd h (by decide)

/-- The first and the last code a request for a type matches: one for a dense forecast also matches
the views. -/
def TimeSeriesType.codeSpan : TimeSeriesType → ℤ × ℤ
  | .deterministic =>
    (TimeSeriesType.deterministic.code, TimeSeriesType.deterministicSingleTimeSeries.code)
  | other => (other.code, other.code)

/-- How a predicate on the type matches stored rows. -/
inductive TypeMatch where
  | requested (t : TimeSeriesType)
  | exact (t : TimeSeriesType)
  deriving DecidableEq

/-- The first and the last code a predicate matches. -/
def TypeMatch.codeSpan : TypeMatch → ℤ × ℤ
  | .requested t => t.codeSpan
  | .exact t => (t.code, t.code)

/-- A type predicate, whose codes are a range. -/
def TypeMatch.holds (m : TypeMatch) (t : TimeSeriesType) : Bool :=
  m.codeSpan.1 ≤ t.code && t.code ≤ m.codeSpan.2

theorem TypeMatch.holds_exact {t t' : TimeSeriesType} :
    (TypeMatch.exact t).holds t' = true ↔ t' = t := by
  unfold TypeMatch.holds TypeMatch.codeSpan
  rw [Bool.and_eq_true, decide_eq_true_eq, decide_eq_true_eq]
  constructor
  · exact fun h => TimeSeriesType.code_injective (le_antisymm h.2 h.1)
  · rintro rfl
    exact ⟨le_rfl, le_rfl⟩

/-! ### Filters -/

/-- An exact predicate on a column that may be NULL. -/
inductive NullablePeriodIdentity where
  | null
  | value (p : Period)
  deriving DecidableEq

/-- What a listing asks for; a field left out asks for nothing. -/
structure MetadataFilter (H : Type) where
  ownerId : Option ℤ := none
  ownerCategory : Option OwnerCategory := none
  ownerType : Option String := none
  timeSeriesType : Option TypeMatch := none
  name : Option String := none
  nameGlob : Option String := none
  componentField : Option String := none
  zoneless : Option Bool := none
  resolution : Option Period := none
  resolutionIdentity : Option NullablePeriodIdentity := none
  initialTimestamp : Option DateTime := none
  length : Option ℕ := none
  interval : Option Period := none
  intervalIdentity : Option NullablePeriodIdentity := none
  features : Option Features := none
  featuresHash : Option H := none
  ids : Option (List ℤ) := none

/-- A period column against its exact predicate, if there is one, and otherwise the plain one. -/
def periodHolds (column : Option String) (identity : Option NullablePeriodIdentity)
    (period : Option Period) : Bool :=
  match identity with
  | some .null => column.getD "" = ""
  | some (.value p) => column.getD "" = p.toIso8601
  | none => Catalog.columnIs column period fun p => some p.toIso8601

/-- The rows whose time reference is zoneless, or every other row. -/
def zonelessHolds (timeReference : Option String) : Option Bool → Bool
  | none => true
  | some true => timeReference = some "zoneless"
  | some false => timeReference ≠ some "zoneless"

namespace MetadataFilter

variable {H : Type} [DecidableEq H]

open Catalog (columnIs)

/-- The `WHERE` clause; the features are not in it. -/
def holds [Glob] (f : MetadataFilter H) (r : AssociationRow H) : Bool :=
  f.ids.all (r.id ∈ ·) &&
  columnIs r.ownerId f.ownerId id &&
  columnIs r.ownerCategory f.ownerCategory id &&
  columnIs r.ownerType f.ownerType id &&
  f.timeSeriesType.all (·.holds r.timeSeriesType) &&
  columnIs r.name f.name id &&
  f.nameGlob.all (Glob.glob · r.name) &&
  columnIs r.componentField f.componentField some &&
  zonelessHolds r.timeReference f.zoneless &&
  periodHolds r.resolution f.resolutionIdentity f.resolution &&
  columnIs r.initialTimestamp f.initialTimestamp some &&
  columnIs r.length f.length some &&
  periodHolds r.interval f.intervalIdentity f.interval &&
  columnIs r.featuresHash f.featuresHash id

end MetadataFilter

/-- A filter with the whole feature set pinned by its hash. -/
def MetadataFilter.exactly {H : Type} [Sha256 H] (f : MetadataFilter H) (required : Features) :
    MetadataFilter H :=
  { f with features := none, featuresHash := some (InfraStore.featuresHash required) }

/-! ### Filters of a caller -/

/-- What a caller's listing asks for. -/
structure ListFilter where
  ownerId : Option ℤ := none
  ownerCategory : Option OwnerCategory := none
  ownerType : Option String := none
  timeSeriesType : Option TimeSeriesType := none
  name : Option String := none
  nameGlob : Option String := none
  componentField : Option String := none
  zoneless : Option Bool := none
  resolution : Option Period := none
  initialTimestamp : Option DateTime := none
  length : Option ℕ := none
  interval : Option Period := none
  features : Option Features := none
  featuresExact : Bool := false

/-- The catalog's filter for it: a type is widened, and a whole feature set goes by its hash. -/
def ListFilter.toFilter {H : Type} [Sha256 H] (f : ListFilter) : MetadataFilter H :=
  { ownerId := f.ownerId
    ownerCategory := f.ownerCategory
    ownerType := f.ownerType
    timeSeriesType := f.timeSeriesType.map .requested
    name := f.name
    nameGlob := f.nameGlob
    componentField := f.componentField
    zoneless := f.zoneless
    resolution := f.resolution
    initialTimestamp := f.initialTimestamp
    length := f.length
    interval := f.interval
    features := if f.featuresExact then none else f.features
    featuresHash := if f.featuresExact then
        some (InfraStore.featuresHash (f.features.getD Features.empty)) else none }

/-! ### Listing and probing -/

/-- SQL equality of a value column and a bound value of the same kind. -/
def FeatureCell.equals : FeatureCell → FeatureValue → Bool
  | .int a, .int b => a = b
  | .float (some a), .float b => a.eq b
  | .bool a, .bool b => a = b
  | .str a, .str b => a = b
  | _, _ => false

/-- A value no column holds: NaN or negative zero. -/
def FeatureValue.unstorable : FeatureValue → Bool
  | .float v => v.isNan || v.isNegZero
  | _ => false

namespace Catalog

variable {H : Type} [DecidableEq H] [Sha256 H] [Glob]

/-- `MetadataStore::list`. -/
def listFilter [FloatText] [ToString H] (c : Catalog H)
    (vectors : Option (H → Result (List DateTime))) (f : MetadataFilter H) :
    Result (List (TimeSeriesMetadata H)) := c.list vectors f.features f.holds

/-- Some matching row's filed set has each of the required features. -/
def existsFeatureSubset (c : Catalog H) (f : MetadataFilter H) (required : Features) : Bool :=
  if required.entries.any (·.2.unstorable) then false
  else c.rows.any fun r => f.holds r && required.entries.all fun e =>
    c.featureSets.any fun x => x.featuresHash = r.featuresHash && x.key = e.1 && x.cell.equals e.2

/-- `MetadataStore::exists`: a required feature map is probed as a whole set first, unless the filter
pins one, and then as a subset. -/
def exists' (c : Catalog H) (f : MetadataFilter H) : Bool :=
  match f.features with
  | some required =>
    if required.entries = [] then c.rows.any f.holds
    else f.featuresHash.isNone && c.rows.any (f.exactly required).holds ||
      c.existsFeatureSubset f required
  | none => c.rows.any f.holds

end Catalog

/-! ### Identities -/

/-- What a row is filed by. -/
structure KeyIdentity where
  ownerId : ℤ
  ownerCategory : OwnerCategory
  timeSeriesType : TimeSeriesType
  name : String
  resolution : Option Period
  interval : Option Period
  features : Features
  deriving DecidableEq

/-- The exact predicate of a period that may be absent. -/
def periodIdentity : Option Period → NullablePeriodIdentity
  | some p => .value p
  | none => .null

/-- The filter that names the row of an identity. -/
def identityFilter {H : Type} [Sha256 H] (key : KeyIdentity) : MetadataFilter H :=
  { ownerId := some key.ownerId
    ownerCategory := some key.ownerCategory
    timeSeriesType := some (.exact key.timeSeriesType)
    name := some key.name
    resolutionIdentity := some (periodIdentity key.resolution)
    intervalIdentity := some (periodIdentity key.interval)
    featuresHash := some (featuresHash key.features) }

/-- The identity a record has. -/
def TimeSeriesMetadata.keyIdentity {H : Type} (m : TimeSeriesMetadata H) : KeyIdentity :=
  { ownerId := m.ownerId, ownerCategory := m.ownerCategory, timeSeriesType := m.timeSeriesType,
    name := m.name, resolution := m.resolution, interval := m.interval, features := m.features }

section

set_option linter.unusedSectionVars false

variable {H : Type} [DecidableEq H] [Sha256 H] [Glob]

theorem periodHolds_identity (column : Option String) (period : Option Period) :
    periodHolds column (some (periodIdentity period)) none = true ↔
      column.getD "" = (period.map Period.toIso8601).getD "" := by
  cases period with
  | none => exact decide_eq_true_iff
  | some p => exact decide_eq_true_iff

/-- The identity filter matches the rows with that identity. -/
theorem identityFilter_holds [FloatText] (m : TimeSeriesMetadata H) (id : ℤ) (r : AssociationRow H) :
    (identityFilter m.keyIdentity : MetadataFilter H).holds r = true ↔
      r.identity = (m.toRow id).identity := by
  unfold MetadataFilter.holds
  simp only [identityFilter, Option.all_none, Option.all_some, Catalog.columnIs, zonelessHolds,
    Bool.and_eq_true, decide_eq_true_eq, Bool.true_and, Bool.and_true, periodHolds_identity,
    TypeMatch.holds_exact, TimeSeriesMetadata.keyIdentity, id_eq]
  unfold AssociationRow.identity
  rw [IdentityKey.mk.injEq]
  constructor
  · rintro ⟨⟨⟨⟨⟨⟨h1, h2⟩, h3⟩, h4⟩, h5⟩, h6⟩, h7⟩
    exact ⟨h1, h2, h3, h4, h5, h6, h7⟩
  · rintro ⟨h1, h2, h3, h4, h5, h6, h7⟩
    exact ⟨⟨⟨⟨⟨⟨h1, h2⟩, h3⟩, h4⟩, h5⟩, h6⟩, h7⟩

/-- The check a copy makes is the existence probe of the copy's identity. -/
theorem existsIdentity_eq [FloatText] (c : Catalog H) (m : TimeSeriesMetadata H) :
    c.existsIdentity m = c.exists' (identityFilter m.keyIdentity) := by
  unfold Catalog.existsIdentity Catalog.exists'
  show c.rows.any _ = c.rows.any _
  rw [Bool.eq_iff_iff, List.any_eq_true, List.any_eq_true]
  simp only [identityFilter_holds m 0, decide_eq_true_eq]

/-- The rows a transform starts from are those of its filter. -/
theorem singleInScope_eq (resolution : Option Period) (category : Option OwnerCategory)
    (r : AssociationRow H) : Catalog.singleInScope resolution category r =
      ({ timeSeriesType := some (.exact .singleTimeSeries), ownerCategory := category,
         resolution := resolution } : MetadataFilter H).holds r := by
  unfold Catalog.singleInScope MetadataFilter.holds
  rw [Bool.eq_iff_iff]
  simp only [Option.all_none, Option.all_some, Catalog.columnIs, zonelessHolds, periodHolds,
    Bool.and_eq_true, decide_eq_true_eq, Bool.true_and, Bool.and_true, TypeMatch.holds_exact]
  tauto

end

end InfraStore
