import Mathlib.Data.Int.Order.Basic
import Mathlib.Data.List.Basic
import Mathlib.Tactic.Ring

/-!
# Instants, spans and the civil calendar

The part of the calendar library the store's grids are computed with.

* `DateTime`: a UTC instant, a Unix second and the nanoseconds within it.  A nanosecond count of one
  second or more spells a leap second, which `requireMillisecondPrecision` refuses.
* `Duration`: a signed span, bounded as an `i64` count of milliseconds.
* `DateTime.addSigned`, `DateTime.addMonths`: the two ways a grid advances.
* `toMillis`, `fromMillis`: the stored form of a timestamp vector.
-/

namespace InfraStore

/-! ### The civil calendar -/

/-- Whether a proleptic Gregorian year has a February 29th. -/
def isLeapYear (y : ℤ) : Bool := y % 4 = 0 && (y % 100 ≠ 0 || y % 400 = 0)

/-- Days in a month of the civil calendar. -/
def daysInMonth (y m : ℤ) : ℤ :=
  if m = 2 then (if isLeapYear y then 29 else 28)
  else if m = 4 ∨ m = 6 ∨ m = 9 ∨ m = 11 then 30 else 31

/-- A date of the civil calendar. -/
structure Civil where
  year : ℤ
  month : ℤ
  day : ℤ
  deriving DecidableEq

/-- The date that is `days` days after 1970-01-01. -/
def civilOfDays (days : ℤ) : Civil :=
  let z := days + 719468
  let era := z / 146097
  let doe := z % 146097
  let yoe := (doe - doe / 1460 + doe / 36524 - doe / 146096) / 365
  let doy := doe - (365 * yoe + yoe / 4 - yoe / 100)
  let mp := (5 * doy + 2) / 153
  let m := if mp < 10 then mp + 3 else mp - 9
  { year := yoe + era * 400 + (if m ≤ 2 then 1 else 0)
    month := m
    day := doy - (153 * mp + 2) / 5 + 1 }

/-- Days from 1970-01-01 to a date. -/
def daysOfCivil (c : Civil) : ℤ :=
  let y := if c.month ≤ 2 then c.year - 1 else c.year
  let era := y / 400
  let yoe := y % 400
  let mp := if c.month > 2 then c.month - 3 else c.month + 9
  let doy := (153 * mp + 2) / 5 + c.day - 1
  let doe := yoe * 365 + yoe / 4 - yoe / 100 + doy
  era * 146097 + doe - 719468

/-! ### Instants -/

/-- The first second of year -262143. -/
def minSecs : ℤ := -8334601228800

/-- The last second of year 262142. -/
def maxSecs : ℤ := 8210266876799

/-- A UTC instant: the Unix second and the nanoseconds within it.  A count at or above one second is
a leap second. -/
@[ext] structure DateTime where
  secs : ℤ
  nanos : ℕ
  valid : minSecs ≤ secs ∧ secs ≤ maxSecs ∧ nanos < 2000000000

namespace DateTime

instance : DecidableEq DateTime := fun a b =>
  decidable_of_iff (a.secs = b.secs ∧ a.nanos = b.nanos)
    ⟨fun h => DateTime.ext h.1 h.2, fun h => by subst h; exact ⟨rfl, rfl⟩⟩

/-- 1970-01-01T00:00:00Z. -/
def epoch : DateTime := ⟨0, 0, by decide⟩

instance : Inhabited DateTime := ⟨epoch⟩

/-- The instant with the given second and nanosecond, if it is representable. -/
def mk? (secs : ℤ) (nanos : ℕ) : Option DateTime :=
  if h : minSecs ≤ secs ∧ secs ≤ maxSecs ∧ nanos < 2000000000 then some ⟨secs, nanos, h⟩ else none

/-- Chronological order: a leap second lies after its second and before the next. -/
def lt (a b : DateTime) : Prop := a.secs < b.secs ∨ (a.secs = b.secs ∧ a.nanos < b.nanos)

instance : LT DateTime := ⟨DateTime.lt⟩

instance : LE DateTime := ⟨fun a b => ¬ b < a⟩

instance (a b : DateTime) : Decidable (a < b) :=
  inferInstanceAs (Decidable (a.secs < b.secs ∨ (a.secs = b.secs ∧ a.nanos < b.nanos)))

instance (a b : DateTime) : Decidable (a ≤ b) := inferInstanceAs (Decidable (¬ b < a))

/-- The civil date of an instant. -/
def date (t : DateTime) : Civil := civilOfDays (t.secs / 86400)

/-- `timestamp_millis`: a leap second is folded onto the following second. -/
def timestampMillis (t : DateTime) : ℤ := t.secs * 1000 + t.nanos / 1000000

/-- `from_timestamp_millis`. -/
def fromTimestampMillis (ms : ℤ) : Option DateTime :=
  mk? (ms / 1000) ((ms % 1000).toNat * 1000000)

/-- Whether an instant is a whole number of milliseconds and no leap second. -/
def IsMillis (t : DateTime) : Prop := t.nanos < 1000000000 ∧ t.nanos % 1000000 = 0

instance (t : DateTime) : Decidable t.IsMillis :=
  inferInstanceAs (Decidable (t.nanos < 1000000000 ∧ t.nanos % 1000000 = 0))

/-- Two decimal digits. -/
def pad2 (n : ℕ) : String := (if n < 10 then "0" else "") ++ toString n

/-- The fractional seconds as `Display` writes them: in milliseconds, microseconds or nanoseconds,
whichever is exact. -/
def displayNanos (n : ℕ) : String :=
  let pad (w v : ℕ) := String.ofList (List.replicate (w - (toString v).length) '0') ++ toString v
  if n = 0 then "" else if n % 1000000 = 0 then "." ++ pad 3 (n / 1000000)
  else if n % 1000 = 0 then "." ++ pad 6 (n / 1000) else "." ++ pad 9 n

/-- How an instant is written in an error message. -/
def display (t : DateTime) : String :=
  let c := t.date
  let tod := (t.secs % 86400).toNat
  let leap := if 1000000000 ≤ t.nanos then 1 else 0
  toString c.year ++ "-" ++ pad2 c.month.toNat ++ "-" ++ pad2 c.day.toNat ++ " " ++
    pad2 (tod / 3600) ++ ":" ++ pad2 (tod / 60 % 60) ++ ":" ++ pad2 (tod % 60 + leap) ++
    displayNanos (t.nanos % 1000000000) ++ " UTC"

instance : ToString DateTime := ⟨display⟩

end DateTime

/-! ### Spans -/

/-- The largest span in milliseconds, `i64::MAX`. -/
def maxDurationMillis : ℕ := 2 ^ 63 - 1

/-- A signed span of time in nanoseconds. -/
@[ext] structure Duration where
  nanos : ℤ
  valid : nanos.natAbs ≤ maxDurationMillis * 1000000

namespace Duration

instance : DecidableEq Duration := fun a b =>
  decidable_of_iff (a.nanos = b.nanos) ⟨Duration.ext, fun h => h ▸ rfl⟩

/-- `num_milliseconds`: whole milliseconds, toward zero. -/
def numMilliseconds (d : Duration) : ℤ := d.nanos.tdiv 1000000

/-- `try_milliseconds`. -/
def tryMilliseconds (ms : ℤ) : Option Duration :=
  if h : (ms * 1000000).natAbs ≤ maxDurationMillis * 1000000 then some ⟨ms * 1000000, h⟩ else none

theorem valid_hour : (3600000000000 : ℤ).natAbs ≤ maxDurationMillis * 1000000 := by decide

/-- The empty span. -/
def zero : Duration := ⟨0, by decide⟩

end Duration

namespace DateTime

/-- `checked_add_signed`.  A leap second is left toward the neighbour the span points at, and kept
while the span stays inside it. -/
def addSigned (t : DateTime) (d : Duration) : Option DateTime :=
  let s := d.nanos.tdiv 1000000000
  let f := d.nanos.tmod 1000000000
  let leap := 1000000000 ≤ t.nanos
  if leap ∧ ¬ (s > 0 ∨ (f > 0 ∧ (t.nanos : ℤ) ≥ 2000000000 - f)) ∧ ¬ s < 0 then
    mk? t.secs (t.nanos + f).toNat
  else
    let base : ℤ × ℤ :=
      if leap then
        if s > 0 ∨ (f > 0 ∧ (t.nanos : ℤ) ≥ 2000000000 - f) then (t.secs, t.nanos - 1000000000)
        else (t.secs + 1, t.nanos - 1000000000)
      else (t.secs, t.nanos)
    let total := (base.1 + s) * 1000000000 + (base.2 + f)
    mk? (total / 1000000000) (total % 1000000000).toNat

/-- `signed_duration_since`, in nanoseconds.  Between two times of day a leap second counts where
one of them is inside it. -/
def nanosSince (a b : DateTime) : ℤ :=
  let adjust : ℤ :=
    if a.secs % 86400 > b.secs % 86400 then (if 1000000000 ≤ b.nanos then 1 else 0)
    else if a.secs % 86400 < b.secs % 86400 then (if 1000000000 ≤ a.nanos then -1 else 0)
    else 0
  (a.secs - b.secs + adjust) * 1000000000 + ((a.nanos : ℤ) - b.nanos)

/-- `(a - b).num_milliseconds()`. -/
def millisSince (a b : DateTime) : ℤ := (nanosSince a b).tdiv 1000000

/-- `checked_add_months` and `checked_sub_months`: the day is clamped to the target month. -/
def addMonths (t : DateTime) (n : ℤ) : Option DateTime :=
  let c := t.date
  let total := c.year * 12 + (c.month - 1) + n
  let y := total / 12
  let m := total % 12 + 1
  let days := daysOfCivil ⟨y, m, min c.day (daysInMonth y m)⟩
  if n = 0 then some t else mk? (days * 86400 + t.secs % 86400) t.nanos

/-- Calendar months from `start` to `at`, by year and month alone. -/
def monthsBetween (start at_ : DateTime) : ℤ :=
  (at_.date.year - start.date.year) * 12 + (at_.date.month - start.date.month)

end DateTime

/-! ### Timestamps in milliseconds -/

/-- The store's timestamp precision contract: a whole number of milliseconds and no leap second. -/
def requireMillisecondPrecision (t : DateTime) (label : String) : Except String Unit :=
  if 1000000000 ≤ t.nanos then
    .error s!"{label} {t} is a leap second; the store records instants as unix milliseconds, which cannot express one — it would be stored as the following second, and two series a leap second apart would share one stored timestamp. Use the second before or after it."
  else if t.nanos % 1000000 ≠ 0 then
    .error s!"{label} {t} is finer than a millisecond; the store records instants to the millisecond, as it does periods. Truncate to a whole millisecond, or scale the unit and record it in `units`."
  else .ok ()

/-- The stored form of a timestamp vector. -/
def toMillis (timestamps : List DateTime) : List ℤ := timestamps.map DateTime.timestampMillis

/-- Rebuild a timestamp vector from its stored milliseconds; the message of the first one no instant
represents otherwise. -/
def fromMillis : List ℤ → Except String (List DateTime)
  | [] => .ok []
  | ms :: rest =>
    match DateTime.fromTimestampMillis ms with
    | none => .error s!"stored timestamp {ms} ms is outside the representable range"
    | some t => (fromMillis rest).map (t :: ·)

theorem requireMillisecondPrecision_ok {t : DateTime} {label : String}
    (h : requireMillisecondPrecision t label = .ok ()) : t.IsMillis := by
  unfold requireMillisecondPrecision at h
  split at h
  · cases h
  · rename_i h1
    split at h
    · cases h
    · rename_i h2
      exact ⟨by omega, by omega⟩

/-- A millisecond instant is the one its millisecond count names. -/
theorem DateTime.fromTimestampMillis_timestampMillis {t : DateTime} (h : t.IsMillis) :
    DateTime.fromTimestampMillis t.timestampMillis = some t := by
  obtain ⟨h1, h2⟩ := h
  obtain ⟨hlo, hhi, -⟩ := t.valid
  have hsec : t.timestampMillis / 1000 = t.secs := by
    unfold DateTime.timestampMillis; omega
  have hrem : (t.timestampMillis % 1000).toNat * 1000000 = t.nanos := by
    unfold DateTime.timestampMillis; omega
  unfold DateTime.fromTimestampMillis DateTime.mk?
  rw [hsec, hrem, dif_pos ⟨hlo, hhi, by omega⟩]

/-- **Stored vectors read back.**  A vector of millisecond instants survives its stored form. -/
theorem fromMillis_toMillis {ts : List DateTime} (h : ∀ t ∈ ts, t.IsMillis) :
    fromMillis (toMillis ts) = .ok ts := by
  induction ts with
  | nil => rfl
  | cons t ts ih =>
    have ht := DateTime.fromTimestampMillis_timestampMillis (h t List.mem_cons_self)
    have hts := ih fun u hu => h u (List.mem_cons_of_mem t hu)
    show fromMillis (t.timestampMillis :: toMillis ts) = _
    simp only [fromMillis, ht, hts]
    rfl

end InfraStore
