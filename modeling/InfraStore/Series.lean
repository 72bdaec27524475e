import InfraStore.Period

/-!
# Time series, their descriptors and their catalog metadata

The values callers hand the store and get back (`TimeSeriesData`, one structure a kind), the
descriptors they carry (`TimeReference`, `UnitSystem`, `Features`), and the row-shaped
`TimeSeriesMetadata` the catalog files a series under, with the hashes of its shared parts.
-/

namespace InfraStore

/-! ### Kinds and descriptors -/

/-- Every kind of series; the order is the order of the storage codes. -/
inductive TimeSeriesType where
  | singleTimeSeries
  | nonSequentialTimeSeries
  | deterministic
  | deterministicSingleTimeSeries
  | probabilistic
  | scenarios
  | persistentTimeSeries
  deriving DecidableEq, Repr

namespace TimeSeriesType

def asStr : TimeSeriesType → String
  | singleTimeSeries => "SingleTimeSeries"
  | nonSequentialTimeSeries => "NonSequentialTimeSeries"
  | deterministic => "Deterministic"
  | deterministicSingleTimeSeries => "DeterministicSingleTimeSeries"
  | probabilistic => "Probabilistic"
  | scenarios => "Scenarios"
  | persistentTimeSeries => "PersistentTimeSeries"

/-- How many leading array dims come before the per-step element shape. -/
def leadingDims : TimeSeriesType → ℕ
  | singleTimeSeries | nonSequentialTimeSeries | persistentTimeSeries => 1
  | deterministic | deterministicSingleTimeSeries => 2
  | probabilistic | scenarios => 3

/-- Whether a series carries its time axis as an explicit vector. -/
def isIrregular : TimeSeriesType → Bool
  | nonSequentialTimeSeries | persistentTimeSeries => true
  | _ => false

end TimeSeriesType

/-- The two owner id streams. -/
inductive OwnerCategory where
  | component
  | supplementalAttribute
  deriving DecidableEq, Repr

def OwnerCategory.asStr : OwnerCategory → String
  | .component => "Component"
  | .supplementalAttribute => "SupplementalAttribute"

/-- Which unit basis the values are expressed in. -/
inductive UnitSystem where
  | naturalUnits
  | componentBase
  deriving DecidableEq, Repr

def UnitSystem.asStr : UnitSystem → String
  | .naturalUnits => "natural_units"
  | .componentBase => "component_base"

def UnitSystem.parse (s : String) : Option UnitSystem :=
  if s = "natural_units" then some .naturalUnits
  else if s = "component_base" then some .componentBase
  else none

/-- How a series' timestamps were spelled. -/
inductive TimeReference where
  | utc
  | fixedOffset (minutes : I32)
  | zone (name : String)
  | zoneless
  deriving DecidableEq

namespace TimeReference

/-- The offset `±HH:MM`, as characters. -/
def formatOffset (minutes : ℤ) : List Char :=
  let two (n : ℕ) := (if n < 10 then ['0'] else []) ++ Nat.toDigits 10 n
  (if minutes < 0 then '-' else '+') :: two (minutes.natAbs / 60) ++ [':'] ++
    two (minutes.natAbs % 60)

def asStorageString : TimeReference → String
  | utc => "utc"
  | zoneless => "zoneless"
  | fixedOffset m => String.ofList (formatOffset m.1)
  | zone name => name

instance : ToString TimeReference := ⟨asStorageString⟩

/-- A run of decimal digits as a number. -/
def digitsValue (cs : List Char) : ℕ := cs.foldl (fun n c => 10 * n + (c.toNat - '0'.toNat)) 0

/-- The hour and minute digits of an offset, without its sign. -/
def offsetParts (rest : List Char) : Option (List Char × List Char) :=
  if rest.length = 5 ∧ rest[2]? = some ':' then some (rest.take 2, rest.drop 3)
  else if rest.length = 4 then some (rest.take 2, rest.drop 2)
  else if rest.length = 2 then some (rest, ['0'])
  else none

/-- Parse an offset `±HH:MM`, `±HHMM` or `±HH` into minutes. -/
def parseOffset (s : List Char) : Option ℤ :=
  match s with
  | sign :: rest =>
    if (sign = '+' ∨ sign = '-') ∧ rest.all (fun c => c.isDigit || c = ':') then
      (offsetParts rest).bind fun (hours, minutes) =>
        if hours ≠ [] ∧ minutes ≠ [] ∧ hours.all Char.isDigit ∧ minutes.all Char.isDigit ∧
            digitsValue hours ≤ 23 ∧ digitsValue minutes ≤ 59 then
          some ((if sign = '-' then -1 else 1) * (digitsValue hours * 60 + digitsValue minutes : ℕ))
        else none
    else none
  | [] => none

/-- One component of an IANA-shaped name: a letter, then letters, digits, `_`, `+` or `-`. -/
def ianaComponent : List Char → Bool
  | c :: cs => c.isAlpha && cs.all fun c => c.isAlphanum || c = '_' || c = '+' || c = '-'
  | [] => false

/-- Split characters at every slash. -/
def splitSlash : List Char → List Char → List (List Char)
  | cur, [] => [cur]
  | cur, c :: cs => if c = '/' then cur :: splitSlash [] cs else splitSlash (cur ++ [c]) cs

/-- At most three slash-separated components, each shaped like one of an IANA name. -/
def isIanaShaped (name : List Char) : Bool :=
  let parts := splitSlash [] name
  parts.length ≤ 3 && parts.all ianaComponent

def validate : TimeReference → Result Unit
  | utc | zoneless => .ok ()
  | fixedOffset m =>
    if 24 * 60 ≤ m.1.natAbs then
      .error (.invalidParameter
        s!"time reference offset {m.1} minutes is not a real UTC offset; it must be strictly within a day of UTC")
    else .ok ()
  | zone name =>
    if name = "" then .error (.invalidParameter "time reference zone name is empty")
    else if 64 < name.utf8ByteSize then
      .error (.invalidParameter
        s!"time reference zone name is {name.utf8ByteSize} bytes, over the 64-byte limit; no IANA name is anywhere near that long")
    else if name = "utc" ∨ name = "zoneless" then
      .error (.invalidParameter
        s!"{name.quote} is the storage spelling of a non-zone time reference, so it cannot also be a zone name; the IANA zone is spelled \"UTC\"")
    else if (parseOffset name.toList).isSome then
      .error (.invalidParameter
        s!"time reference zone name {name.quote} reads as a fixed UTC offset; declare it as one instead")
    else if !isIanaShaped name.toList then
      .error (.invalidParameter
        s!"time reference zone name {name.quote} is not shaped like an IANA name (slash-separated components of letters, digits, '_', '+' or '-', each starting with a letter), e.g. \"America/Denver\"")
    else .ok ()

def parse (s : String) : Result TimeReference :=
  if s = "utc" then .ok utc
  else if s = "zoneless" then .ok zoneless
  else
    match parseOffset s.toList with
    | some minutes =>
      if h : -2 ^ 31 ≤ minutes ∧ minutes < 2 ^ 31 then .ok (fixedOffset ⟨minutes, h⟩)
      else .error (.invalidParameter s)
    | none => (zone s).validate.map fun _ => zone s

end TimeReference

/-! ### Features -/

/-- A feature value. -/
inductive FeatureValue where
  | int (v : ℤ)
  | float (v : F64)
  | bool (v : Bool)
  | str (v : String)
  deriving DecidableEq

/-- `==` on feature values: every NaN is one value. -/
def FeatureValue.same : FeatureValue → FeatureValue → Bool
  | .float a, .float b => a.canonicalBits = b.canonicalBits
  | a, b => a = b

/-- A feature map, sorted by key. -/
structure Features where
  entries : List (String × FeatureValue)
  sorted : entries.Pairwise fun a b => a.1 < b.1
  deriving DecidableEq

/-- The empty feature map. -/
def Features.empty : Features := ⟨[], List.Pairwise.nil⟩

/-- Feature names that name a field of a series or of its key, sorted. -/
def reservedFeatureNames : List String :=
  ["application_data", "array_shape", "association_id", "component_field", "count", "data",
   "data_hash", "dtype", "element_shape", "element_type", "ext", "features", "horizon", "id",
   "initial_timestamp", "interval", "interval_alignment", "length", "name", "owner_category",
   "owner_id", "owner_type", "percentiles", "quantity_kind", "resolution", "scenario_count",
   "time_reference", "time_series_type", "timestamps", "timestamps_uri", "unit_system", "units",
   "uri"]

/-- The first reason a feature cannot be stored. -/
def validateFeature (key : String) (value : FeatureValue) : Result Unit :=
  if key ∈ reservedFeatureNames then
    let reserved := ", ".intercalate reservedFeatureNames
    .error (.invalidParameter
      s!"feature name {key.quote} is reserved: it names a field of a time series or of the key that addresses one; reserved names are {reserved}")
  else
    let unstorable : Option String := match value with
      | .float f => if f.isNan then some "NaN" else if f.isNegZero then some "negative zero" else none
      | _ => none
    match unstorable with
    | some what => .error (.invalidParameter
        s!"feature {key.quote} is {what}, which the catalog cannot store faithfully; it would read back as a different value")
    | none => .ok ()

/-- Reject a feature map that uses a reserved name or a value the catalog cannot hold. -/
def validateFeatures (f : Features) : Result Unit :=
  f.entries.forM fun e => validateFeature e.1 e.2

/-- One feature's part of the hashed stream. -/
def featureStream (e : String × FeatureValue) : List UInt8 :=
  u64Bytes (strBytes e.1).length ++ strBytes e.1 ++
    match e.2 with
    | .int v => strBytes "i" ++ i64Bytes v
    | .float v => strBytes "f" ++ u64Bytes v.canonicalBits.toNat
    | .bool v => strBytes "b" ++ [if v then 1 else 0]
    | .str v => strBytes "s" ++ u64Bytes (strBytes v).length ++ strBytes v

/-- The canonical content hash of a feature map. -/
def featuresHash {H : Type} [Sha256 H] (f : Features) : H :=
  Sha256.digest (strBytes "features\x00" ++ u64Bytes f.entries.length ++
    f.entries.flatMap featureStream)

/-- The canonical content hash of an explicit timestamp vector. -/
def timestampsHash {H : Type} [Sha256 H] (ts : List DateTime) : H :=
  Sha256.digest (strBytes "timestamps\x00" ++ u64Bytes ts.length ++ (toMillis ts).flatMap i64Bytes)

/-! ### Series -/

/-- What every series carries beside its time axis. -/
structure SeriesFields where
  data : TypedArray
  name : String
  elementType : ElementType
  units : Option String
  quantityKind : Option String
  unitSystem : Option UnitSystem
  timeReference : Option TimeReference
  componentField : Option String
  applicationData : Option String
  deriving DecidableEq

/-- A series on a regular grid. -/
structure SingleTimeSeries extends SeriesFields where
  initialTimestamp : DateTime
  resolution : Period
  length : ℕ
  deriving DecidableEq

/-- A series on an explicit vector of timestamps. -/
structure NonSequentialTimeSeries extends SeriesFields where
  timestamps : List DateTime
  length : ℕ
  deriving DecidableEq

/-- A step function: breakpoints and one value each. -/
structure PersistentTimeSeries extends SeriesFields where
  timestamps : List DateTime
  length : ℕ
  deriving DecidableEq

/-- The geometry the dense forecasts share. -/
structure ForecastFields extends SeriesFields where
  initialTimestamp : DateTime
  resolution : Period
  horizon : Period
  interval : Period
  count : ℕ
  deriving DecidableEq

/-- Overlapping windows of a single forecast. -/
structure Deterministic extends ForecastFields where
  deriving DecidableEq

/-- Windows with one value a percentile. -/
structure Probabilistic extends ForecastFields where
  percentiles : List F64
  deriving DecidableEq

/-- Windows with one value a scenario. -/
structure Scenarios extends ForecastFields where
  scenarioCount : ℕ
  deriving DecidableEq

/-- A series of any kind, as a caller hands it over or a read returns it. -/
inductive TimeSeriesData where
  | single (s : SingleTimeSeries)
  | nonSequential (s : NonSequentialTimeSeries)
  | persistent (s : PersistentTimeSeries)
  | deterministic (s : Deterministic)
  | probabilistic (s : Probabilistic)
  | scenarios (s : Scenarios)
  deriving DecidableEq

namespace TimeSeriesData

def timeSeriesType : TimeSeriesData → TimeSeriesType
  | single _ => .singleTimeSeries
  | nonSequential _ => .nonSequentialTimeSeries
  | persistent _ => .persistentTimeSeries
  | deterministic _ => .deterministic
  | probabilistic _ => .probabilistic
  | scenarios _ => .scenarios

/-- The fields every kind carries. -/
def fields : TimeSeriesData → SeriesFields
  | single s => s.toSeriesFields
  | nonSequential s => s.toSeriesFields
  | persistent s => s.toSeriesFields
  | deterministic s => s.toSeriesFields
  | probabilistic s => s.toSeriesFields
  | scenarios s => s.toSeriesFields

end TimeSeriesData

/-! ### Catalog metadata -/

/-- A catalog row as the store's operations exchange it. -/
structure TimeSeriesMetadata (H : Type) where
  ownerId : ℤ
  ownerType : String
  ownerCategory : OwnerCategory
  timeSeriesType : TimeSeriesType
  name : String
  dataHash : H
  initialTimestamp : Option DateTime
  resolution : Option Period
  length : Option ℕ
  horizon : Option Period
  interval : Option Period
  count : Option ℕ
  timestamps : Option (List DateTime)
  features : Features
  units : Option String
  quantityKind : Option String
  unitSystem : Option UnitSystem
  timeReference : Option TimeReference
  componentField : Option String
  percentiles : Option (List F64)
  elementType : ElementType
  elementShape : List ℕ
  applicationData : Option String
  id : Option ℤ
  deriving DecidableEq

/-- One write: the owner, the series and its features. -/
structure AddRequest where
  ownerId : ℤ
  ownerType : String
  ownerCategory : OwnerCategory
  data : TimeSeriesData
  features : Features
  deriving DecidableEq

/-- The time axis a packed array lies on: a resolution, or the hash of an explicit vector. -/
inductive PackGroup (H : Type) where
  | regular (resolution : Period)
  | irregular (timestampsHash : H)
  deriving DecidableEq

/-- How an array is physically laid out. -/
inductive ArrayLayout where
  | packed
  | standalone
  | standaloneWindowed (countAxis : ℕ)
  deriving DecidableEq

/-- Whether a layout column-packs the array. -/
def ArrayLayout.isPacked : ArrayLayout → Bool
  | packed => true
  | _ => false

end InfraStore
