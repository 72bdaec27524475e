import InfraStore.Series
import Mathlib.Data.Prod.Lex
import Mathlib.Data.String.Basic

/-!
# The normalized layout: array keys, values groups and series rows

A partition is three tables: every distinct array's value rows once, one catalog row a series, and one
row an array that spells its `ArrayKey`.  The readers hand the merge join `ValuesGroup`s and
`SeriesRow`s in key order.
-/

namespace InfraStore.Tabular

/-- Something about the data the layout cannot represent. -/
def unsupported (message : String) : TimeSeriesError := .invalidParameter message

/-! ### Array keys -/

/-- The identity of one stored array within a partition: its content hash and its time axis. -/
structure ArrayKey where
  dataHash : String
  timeAxis : String
  deriving DecidableEq, Repr

namespace ArrayKey

/-- A key as a pair, which the derived order of the source compares half by half. -/
def toPair (k : ArrayKey) : String ×ₗ String := toLex (k.dataHash, k.timeAxis)

theorem toPair_injective : Function.Injective toPair := by
  intro a b h
  have h' : (a.dataHash, a.timeAxis) = (b.dataHash, b.timeAxis) := h
  rw [Prod.mk.injEq] at h'
  cases a
  cases b
  rw [ArrayKey.mk.injEq]
  exact h'

instance : LinearOrder ArrayKey := LinearOrder.lift' toPair toPair_injective

/-- A key, shortened for a message. -/
def short (key : ArrayKey) : String :=
  s!"{String.ofList (key.dataHash.toList.take 12)}, {key.timeAxis}"

end ArrayKey

/-! ### Values groups -/

/-- A forecast's third axis, whichever column carries it. -/
inductive LaneValue where
  | percentile (p : F64)
  | scenario (s : ℤ)
  deriving DecidableEq

/-- One array's rows, as the values table holds them. -/
structure ValuesGroup where
  key : ArrayKey
  timestamps : List DateTime
  issue : List DateTime
  lanes : List LaneValue
  dims : List ℕ
  dtype : Dtype
  bytes : List UInt8
  zone : Option String
  deriving DecidableEq

/-! ### Series rows -/

/-- The text columns of one series row; the empty string spells an absent one. -/
structure SeriesCells where
  id : ℤ
  ownerId : Option ℤ
  ownerType : String
  ownerCategory : String
  timeSeriesType : String
  name : String
  resolution : String
  interval : String
  horizon : String
  features : String
  elementType : String
  timeReference : String
  units : String
  quantityKind : String
  unitSystem : String
  componentField : String
  applicationData : String
  deriving DecidableEq

/-- One catalog row out of a series table. -/
structure SeriesRow extends SeriesCells where
  key : ArrayKey
  deriving DecidableEq

/-- The series rows of one array key; a reader answers no empty batch. -/
structure SeriesBatch where
  first : SeriesRow
  others : List SeriesRow
  deriving DecidableEq

def SeriesBatch.rows (b : SeriesBatch) : List SeriesRow := b.first :: b.others

/-! ### Errors of the join -/

/-- A values group no series row claims. -/
def unclaimed (key : ArrayKey) : TimeSeriesError :=
  unsupported s!"the values file holds an array ({key.short}) that no series row names; a partition's values and series come from one export and must describe the same arrays"

/-- A series row whose key names no values group. -/
def unbacked (key : ArrayKey) : TimeSeriesError :=
  unsupported s!"a series row names an array ({key.short}) the values file does not hold; a partition's values and series come from one export and must describe the same arrays"

/-- A key that comes back after another key's rows. -/
def reappeared (key : ArrayKey) (half : String) : TimeSeriesError :=
  unsupported s!"the {half} file returns to array ({key.short}) after another array's rows; both halves must be sorted by `array_id`"

/-- An `array_id` no row of the arrays table carries. -/
def dangling (id : ℤ) (half : String) : TimeSeriesError :=
  unsupported s!"a {half} row names `array_id` {id}, which the arrays table does not hold; a partition's tables come from one export"

end InfraStore.Tabular
