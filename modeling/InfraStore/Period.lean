import InfraStore.ElementType
import InfraStore.Time

/-!
# Calendar-aware periods

A `Period` is a resolution, a horizon or an interval: a fixed span counted in whole milliseconds, or
a count of calendar months.  The module holds the grid arithmetic (`addTo`, `stepsBetween`,
`floorSteps`, `ceilSteps`, `subGridIsAnchorable`, `divideInto`) and the ISO-8601 text the catalog
files a period under (`toIso8601`, `fromIso8601`).
-/

namespace InfraStore

/-- A 32-bit signed count. -/
abbrev I32 : Type := { m : ℤ // -2 ^ 31 ≤ m ∧ m < 2 ^ 31 }

/-- Whether an `i64` holds the value. -/
def fitsI64 (v : ℤ) : Prop := -2 ^ 63 ≤ v ∧ v < 2 ^ 63

instance (v : ℤ) : Decidable (fitsI64 v) := inferInstanceAs (Decidable (_ ∧ _))

/-- A value, if an `i64` holds it: the outcome of a checked operation. -/
def checkedI64 (v : ℤ) : Option ℤ := if fitsI64 v then some v else none

/-- A calendar-aware time period. -/
inductive Period where
  /-- A fixed span, counted in whole milliseconds. -/
  | fixed (d : Duration)
  /-- A count of calendar months. -/
  | months (m : I32)
  deriving DecidableEq

/-- The store's millisecond constants. -/
def msPerSec : ℤ := 1000
def msPerMin : ℤ := 60000
def msPerHour : ℤ := 3600000
def msPerDay : ℤ := 86400000
def msPerWeek : ℤ := 604800000

namespace Period

/-- Whether this is a calendar period. -/
def isIrregular : Period → Bool
  | fixed _ => false
  | months _ => true

/-- Whether the period is a positive whole number of milliseconds, or of months. -/
def isPositive : Period → Bool
  | fixed d => 0 < d.numMilliseconds && d.nanos % 1000000 = 0
  | months m => 0 < m.1

/-- Whether two periods are both fixed spans or both counts of months. -/
def sameKind : Period → Period → Bool
  | fixed _, fixed _ | months _, months _ => true
  | _, _ => false

/-- Whether the period is exactly zero. -/
def isZero : Period → Bool
  | fixed d => d.nanos = 0
  | months m => m.1 = 0

/-- The zero period: the interval of a forecast of one window. -/
def zero : Period := fixed Duration.zero

/-! ### The ISO-8601 text -/

/-- The fractional part of a second, without its trailing zeros. -/
def fracChars (millis : ℕ) : List Char :=
  let digits := (Nat.toDigits 10 (1000 + millis)).tail
  (digits.reverse.dropWhile (· = '0')).reverse

/-- A count and its unit, left out when the count is zero. -/
def unitChars (n : ℕ) (unit : Char) : List Char :=
  if 0 < n then Nat.toDigits 10 n ++ [unit] else []

/-- The text of a fixed span of `ms` milliseconds, without its sign. -/
def fixedChars (ms : ℕ) : List Char :=
  let days := ms / 86400000
  let hours := ms % 86400000 / 3600000
  let mins := ms % 3600000 / 60000
  let secs := ms % 60000 / 1000
  let millis := ms % 1000
  let date := unitChars days 'D'
  let seconds :=
    if 0 < millis then Nat.toDigits 10 secs ++ ['.'] ++ fracChars millis ++ ['S']
    else unitChars secs 'S'
  let time := unitChars hours 'H' ++ unitChars mins 'M' ++ seconds
  ['P'] ++ date ++ (if time ≠ [] then 'T' :: time else if date = [] then ['T', '0', 'S'] else [])

/-- The text of a count of months, without its sign: whole years as years. -/
def monthChars (a : ℕ) : List Char :=
  if a ≠ 0 ∧ a % 12 = 0 then ['P'] ++ Nat.toDigits 10 (a / 12) ++ ['Y']
  else ['P'] ++ Nat.toDigits 10 a ++ ['M']

/-- The canonical ISO-8601 duration, as characters. -/
def isoChars : Period → List Char
  | months m => (if m.1 < 0 then ['-'] else []) ++ monthChars m.1.natAbs
  | fixed d => (if d.numMilliseconds < 0 then ['-'] else []) ++ fixedChars d.numMilliseconds.natAbs

/-- Render to the canonical ISO-8601 duration string. -/
def toIso8601 (p : Period) : String := String.ofList p.isoChars

/-- `str::parse::<i64>` on a run of digits and points: no point is accepted. -/
def parseI64 (num : List Char) : Option ℤ :=
  if num ≠ [] ∧ num.all Char.isDigit then
    checkedI64 ((num.foldl (fun n c => 10 * n + (c.toNat - '0'.toNat)) 0 : ℕ) : ℤ)
  else none

/-- Split a run of components into numbers and units. -/
def parseComponents : List Char → List Char → Option (List (List Char × Char))
  | num, [] => if num = [] then some [] else none
  | num, ch :: rest =>
    if ch.isDigit ∨ ch = '.' then parseComponents (num ++ [ch]) rest
    else if ch.isAlpha then
      if num = [] then none
      else (parseComponents [] rest).map ((num, ch.toUpper) :: ·)
    else none

/-- A checked product added to a running total. -/
def addComponent (total : ℤ) (component : Option ℤ) : Option ℤ :=
  component.bind fun c => checkedI64 (total + c)

/-- `checked_mul` by a unit's size. -/
def scaled (v : Option ℤ) (unit : ℤ) : Option ℤ := v.bind fun n => checkedI64 (n * unit)

/-- A seconds field as milliseconds; at most three fractional digits. -/
def secondsToMs (s : List Char) : Option ℤ :=
  match s.span (· ≠ '.') with
  | (_, []) => scaled (parseI64 s) msPerSec
  | (whole, _ :: frac) =>
    if 3 < frac.length ∨ frac = [] then none
    else
      (scaled (parseI64 whole) msPerSec).bind fun w =>
        (parseI64 (frac ++ List.replicate (3 - frac.length) '0')).bind fun f => checkedI64 (w + f)

/-- What a parse has accumulated: the calendar months and the fixed milliseconds, each once any unit
of its kind has been read. -/
structure IsoTotals where
  months : Option ℤ
  fixedMs : Option ℤ

/-- Add to the calendar total. -/
def IsoTotals.addMonths (t : IsoTotals) (c : Option ℤ) : Option IsoTotals :=
  (addComponent (t.months.getD 0) c).map fun m => { t with months := some m }

/-- Add to the fixed total. -/
def IsoTotals.addFixed (t : IsoTotals) (c : Option ℤ) : Option IsoTotals :=
  (addComponent (t.fixedMs.getD 0) c).map fun m => { t with fixedMs := some m }

/-- One component of the date part. -/
def IsoTotals.date (t : IsoTotals) (num : List Char) (unit : Char) : Option IsoTotals :=
  (parseI64 num).bind fun v =>
    if unit = 'Y' then t.addMonths (checkedI64 (v * 12))
    else if unit = 'M' then t.addMonths (some v)
    else if unit = 'W' then t.addFixed (checkedI64 (v * msPerWeek))
    else if unit = 'D' then t.addFixed (checkedI64 (v * msPerDay))
    else none

/-- One component of the time part. -/
def IsoTotals.time (t : IsoTotals) (num : List Char) (unit : Char) : Option IsoTotals :=
  if unit = 'H' then (parseI64 num).bind fun v => t.addFixed (checkedI64 (v * msPerHour))
  else if unit = 'M' then (parseI64 num).bind fun v => t.addFixed (checkedI64 (v * msPerMin))
  else if unit = 'S' then t.addFixed (secondsToMs num)
  else none

/-- Fold components into the totals. -/
def IsoTotals.fold (add : IsoTotals → List Char → Char → Option IsoTotals) :
    IsoTotals → List (List Char × Char) → Option IsoTotals
  | t, [] => some t
  | t, (num, unit) :: rest => (add t num unit).bind fun t' => IsoTotals.fold add t' rest

/-- The totals of a duration's body, the text after its `P`. -/
def isoTotals (body : List Char) : Option IsoTotals :=
  match body.span (· ≠ 'T') with
  | (datePart, timePart) =>
    (parseComponents [] datePart).bind fun dc =>
      (IsoTotals.fold IsoTotals.date ⟨none, none⟩ dc).bind fun t =>
        match timePart with
        | [] => some t
        | _ :: tp => (parseComponents [] tp).bind fun tc => IsoTotals.fold IsoTotals.time t tc

/-- Parse the characters of a duration that has been trimmed. -/
def ofIsoChars (trimmed : List Char) : Except String Period :=
  let invalid := s!"invalid ISO-8601 period '{String.ofList trimmed}'"
  let negative := trimmed.head? = some '-'
  let unsigned := if negative then trimmed.tail else trimmed
  match unsigned with
  | 'P' :: body =>
    match isoTotals body with
    | none => .error invalid
    | some ⟨some _, some _⟩ =>
      .error s!"ISO-8601 period '{String.ofList trimmed}' mixes calendar (Y/M) and fixed (D/H/M/S) units"
    | some ⟨some m, none⟩ =>
      let signed := if negative then -m else m
      if h : -2 ^ 31 ≤ signed ∧ signed < 2 ^ 31 then .ok (.months ⟨signed, h⟩) else .error invalid
    | some ⟨none, some ms⟩ =>
      match Duration.tryMilliseconds (if negative then -ms else ms) with
      | some d => .ok (.fixed d)
      | none => .error invalid
    | some ⟨none, none⟩ => .error invalid
  | _ => .error invalid

/-- Parse a canonical ISO-8601 duration string. -/
def fromIso8601 (s : String) : Result Period :=
  mapErr .invalidParameter (ofIsoChars (trimChars s.toList))

/-! ### Grid arithmetic -/

/-- Advance an instant by `k` of this period; `none` outside the representable dates. -/
def addTo (p : Period) (dt : DateTime) (k : ℤ) : Option DateTime :=
  match p with
  | fixed d =>
    (checkedI64 (d.numMilliseconds * k)).bind fun total =>
      (Duration.tryMilliseconds total).bind fun span => dt.addSigned span
  | months m => (checkedI64 (m.1 * k)).bind fun total => dt.addMonths total

/-- The error for an instant that is not a point of a grid. -/
def offGrid (p : Period) (start at_ : DateTime) (what : String) : TimeSeriesError :=
  .invalidParameter s!"timestamp {at_} is {what} the {p.toIso8601} grid starting at {start}"

/-- The error for a period no grid steps by. -/
def notPositive : TimeSeriesError := .invalidParameter "period must be strictly positive"

/-- The number of whole periods from `start` to `at_`, which must be a point of the grid. -/
def stepsBetween (p : Period) (start at_ : DateTime) : Result ℕ :=
  if at_ < start then .error (p.offGrid start at_ "before")
  else
    let (step, delta) : ℤ × ℤ :=
      match p with
      | fixed d => (d.numMilliseconds, at_.millisSince start)
      | months m => (m.1, DateTime.monthsBetween start at_)
    if step ≤ 0 then .error notPositive
    else if delta < 0 ∨ delta % step ≠ 0 then .error (p.offGrid start at_ "not aligned to")
    else if p.addTo start (delta / step) ≠ some at_ then
      .error (p.offGrid start at_ "not aligned to")
    else .ok (delta / step).toNat

/-- Step down while the grid point of a step is past the instant, or is not representable. -/
def stepDown (p : Period) (start at_ : DateTime) : ℕ → ℕ
  | 0 => 0
  | k + 1 =>
    if (p.addTo start ((k + 1 : ℕ) : ℤ)).all fun t => at_ < t then stepDown p start at_ k else k + 1

/-- Step up while the next grid point is not past the instant; `fuel` bounds the turns. -/
def stepUp (p : Period) (start at_ : DateTime) : ℕ → ℕ → ℕ
  | 0, k => k
  | fuel + 1, k =>
    if (p.addTo start ((k + 1 : ℕ) : ℤ)).any fun t => t ≤ at_ then stepUp p start at_ fuel (k + 1)
    else k

/-- The largest step whose grid point is not past an instant, which need not be on the grid; zero up
to the grid's start. -/
def floorSteps (p : Period) (start at_ : DateTime) : ℕ :=
  if at_ ≤ start then 0
  else
    match p with
    | fixed d =>
      if d.numMilliseconds ≤ 0 then 0
      else ((at_.millisSince start).tdiv d.numMilliseconds).toNat
    | months m =>
      if m.1 ≤ 0 then 0
      else
        -- The count of calendar months is off by at most one step either way.
        let months := DateTime.monthsBetween start at_
        let estimate := stepDown p start at_ (max (months.tdiv m.1) 0).toNat
        stepUp p start at_ (months.toNat + 1) estimate

/-- The smallest step whose grid point is at or past an instant; zero up to the grid's start. -/
def ceilSteps (p : Period) (start at_ : DateTime) : ℕ :=
  let f := p.floorSteps start at_
  if (p.addTo start (f : ℤ)).any fun t => at_ ≤ t then f else f + 1

/-- Whether the grid of `len` points from step `offset` on can be described from its own first
point. -/
def subGridIsAnchorable (p : Period) (initial : DateTime) (offset len : ℕ) : Bool :=
  match p with
  | fixed _ => true
  | months _ =>
    if offset = 0 ∨ len < 2 then true
    else
      match p.addTo initial offset with
      | none => true
      | some anchor =>
        if anchor.date.day = initial.date.day then true
        else
          (List.range' 1 (len - 1)).all fun j =>
            p.addTo anchor j = p.addTo initial ((offset + j : ℕ) : ℤ)

/-- How many of this period fit in `other`, as an exact positive integer. -/
def divideInto (p other : Period) : Result ℕ :=
  let ratio (num den : ℤ) : Result ℕ :=
    if den ≤ 0 then .error notPositive
    else if num ≤ 0 ∨ num % den ≠ 0 then
      .error (.invalidParameter
        s!"{other.toIso8601} is not a positive integer multiple of {p.toIso8601}")
    else .ok (num / den).toNat
  match p, other with
  | fixed den, fixed num => ratio num.numMilliseconds den.numMilliseconds
  | months den, months num => ratio num.1 den.1
  | _, _ => .error (.invalidParameter
      s!"cannot combine periods of different kinds: {p.toIso8601} and {other.toIso8601}")

end Period

end InfraStore
