import InfraStore.GridLaws

/-!
# Inferring a period

The period a vector of instants is a grid of, read off its first two entries.  An operation that may
panic answers `none` where it would.

* `Period.infer`: the fixed span between the first two entries if the vector is its grid, otherwise
  the months between them if it is theirs;
* `Period.infer_isSome`: no vector of any order, repetition or span makes it panic;
* `Period.infer_exact`: an inferred period is positive and reproduces the vector, and a vector some
  positive period reproduces has one inferred, unless its first step leaves a leap second uncounted.
-/

namespace InfraStore

/-- How a span is written in an error message. -/
def Duration.display (d : Duration) : String :=
  let secs := d.nanos.natAbs / 1000000000
  let nanos := d.nanos.natAbs % 1000000000
  let digits := (Nat.toDigits 10 (1000000000 + nanos)).tail
  let fraction := if nanos = 0 then "" else
    "." ++ String.ofList (digits.reverse.dropWhile (· = '0')).reverse
  (if d.nanos < 0 then "-" else "") ++ "P" ++
    if d.nanos = 0 then "0D" else "T" ++ toString secs ++ fraction ++ "S"

instance : ToString Duration := ⟨Duration.display⟩

namespace DateTime

/-- `a - b`, which panics where no span holds the difference. -/
def checkedSince (a b : DateTime) : Option Duration :=
  if h : (a.nanosSince b).natAbs ≤ maxDurationMillis * 1000000 then some ⟨a.nanosSince b, h⟩ else none

end DateTime

/-- `i32::try_from`. -/
def toI32 (v : ℤ) : Option I32 := if h : -2 ^ 31 ≤ v ∧ v < 2 ^ 31 then some ⟨v, h⟩ else none

/-- `m - 1`, which overflows at the least count. -/
def I32.pred (m : I32) : Option I32 := toI32 (m.1 - 1)

namespace Period

open DateTime

/-- The index of the first timestamp the period does not land on, walking from the first. -/
def firstDivergence (p : Period) (timestamps : List DateTime) : Option (Option ℕ) := do
  let start ← timestamps[0]?
  some (((timestamps.zipIdx.drop 1).find? fun e => p.addTo start e.2 ≠ some e.1).map Prod.snd)

/-- Whole calendar months from `a` to `b`: the count of the calendar fields or the one below it,
whichever lands on `b`. -/
def confirmedMonthsBetween (a b : DateTime) : Option (Option I32) :=
  if b ≤ a then some none
  else
    match toI32 (monthsBetween a b) with
    | none => some none
    | some count => do
      let less ← I32.pred count
      some ([count, less].find? fun m => 0 < m.1 ∧ (months m).addTo a 1 = some b)

/-- The error for a vector that is not on any grid, naming the entry that broke the pattern. -/
def divergenceMessage (timestamps : List DateTime) (index : ℕ) : Option String := do
  let broken ← timestamps[index]?
  let start ← timestamps[0]?
  let next ← timestamps[1]?
  let span ← next.checkedSince start
  let landing := match (fixed span).addTo start index with
    | some t => toString t
    | none => "an unrepresentable date"
  some s!"timestamps are not on a regular grid: index {index} is {broken}, but a grid stepping from index 0 ({start}) by {span} lands on {landing}. These instants need an explicit timeline -- store them as a NonSequentialTimeSeries (or, if each value holds until the next, a PersistentTimeSeries)."

/-- The period that reproduces `timestamps` exactly, or an error naming the first entry that breaks
the pattern. -/
def infer (timestamps : List DateTime) : Option (Except String Period) :=
  if timestamps.length < 2 then
    some (.error s!"cannot infer a resolution from {timestamps.length} timestamp(s): a grid needs at least two to have a step. Construct with an explicit resolution instead.")
  else do
    let start ← timestamps[0]?
    let next ← timestamps[1]?
    let span ← next.checkedSince start
    if span.nanos ≤ 0 then
      some (.error s!"timestamps must be strictly increasing, but index 1 ({next}) is not after index 0 ({start})")
    else
      match ← (fixed span).firstDivergence timestamps with
      | none => some (.ok (fixed span))
      | some bad =>
        match ← confirmedMonthsBetween start next with
        | none => (divergenceMessage timestamps bad).map .error
        | some count =>
          match ← (months count).firstDivergence timestamps with
          | none => some (.ok (months count))
          | some calendarBad => (divergenceMessage timestamps (max calendarBad bad)).map .error

/-- A period reproduces a vector: its steps from the first entry are the entries. -/
def Reproduces (p : Period) (timestamps : List DateTime) : Prop :=
  ∀ start, timestamps[0]? = some start → ∀ (k : ℕ) (t : DateTime), timestamps[k]? = some t →
    p.addTo start k = some t

/-! ### Differences -/

/-- No two instants are too far apart to subtract. -/
theorem checkedSince_eq (a b : DateTime) :
    ∃ span : Duration, a.checkedSince b = some span ∧ span.nanos = a.nanosSince b := by
  have ha := a.valid
  have hb := b.valid
  have hmin : minSecs = -8334601228800 := rfl
  have hmax : maxSecs = 8210266876799 := rfl
  have hlong : maxDurationMillis = 9223372036854775807 := rfl
  have hvalid : (a.nanosSince b).natAbs ≤ maxDurationMillis * 1000000 := by
    unfold nanosSince
    simp only
    split <;> split <;> omega
  exact ⟨⟨_, hvalid⟩, dif_pos hvalid, rfl⟩

/-- Whether the clock counts the whole of a vector's first step: not when it leaves a leap second for
a time of day at or before it. -/
def Counted (start next : DateTime) : Prop :=
  start.nanos < 1000000000 ∨ next.secs = start.secs ∨ start.secs % 86400 < next.secs % 86400

instance (start next : DateTime) : Decidable (Counted start next) :=
  inferInstanceAs (Decidable (_ ∨ _ ∨ _))

/-- A fixed step is the difference it makes, exactly when it is counted. -/
theorem nanosSince_fixed_iff {d : Duration} {start next : DateTime} (hd : 0 < d.numMilliseconds)
    (h : (fixed d).addTo start 1 = some next) :
    next.nanosSince start = d.numMilliseconds * 1000000 ↔ Counted start next := by
  unfold Counted nanosSince
  simp only
  by_cases ht : start.nanos < 1000000000
  · obtain ⟨htotal, hnanos⟩ := addTo_fixed ht h
    unfold total at htotal
    rw [if_neg (show ¬ 1000000000 ≤ start.nanos by omega),
      if_neg (show ¬ 1000000000 ≤ next.nanos by omega)]
    have hsame : (next.secs - start.secs) * 1000000000 + ((next.nanos : ℤ) - start.nanos) =
        d.numMilliseconds * 1000000 := by omega
    split
    · simp [ht, hsame]
    · split <;> simp [ht, hsame]
  · have hstep := (addTo_fixed_leap_iff (by omega) (show 0 ≤ d.numMilliseconds * 1 by omega)).mp h
    unfold total at hstep
    rw [if_pos (show 1000000000 ≤ start.nanos by omega)]
    rcases hstep with ⟨-, hsecs, hnanos⟩ | ⟨hout, htotal, hnanos⟩
    · rw [hsecs, if_neg (lt_irrefl _), if_neg (lt_irrefl _)]
      omega
    · rw [if_neg (show ¬ 1000000000 ≤ next.nanos by omega)]
      split
      · omega
      · split <;> omega

/-- A fixed step moves by whole milliseconds. -/
theorem addTo_fixed_nanos {d : Duration} {start next : DateTime} (hd : 0 ≤ d.numMilliseconds)
    (h : (fixed d).addTo start 1 = some next) : next.nanos % 1000000 = start.nanos % 1000000 := by
  by_cases ht : start.nanos < 1000000000
  · have hstep := addTo_fixed ht h
    unfold total at hstep
    omega
  · have hstep := (addTo_fixed_leap_iff (by omega) (show 0 ≤ d.numMilliseconds * 1 by omega)).mp h
    unfold total at hstep
    omega

/-- Where the difference of the first two entries is a step between them, it is a positive period. -/
theorem isPositive_span {span : Duration} {start next : DateTime}
    (hspan : span.nanos = next.nanosSince start) (hpos : 0 < span.nanos)
    (h : (fixed span).addTo start 1 = some next) : (fixed span).isPositive = true := by
  have hmillis : span.numMilliseconds = span.nanos / 1000000 :=
    Int.tdiv_eq_ediv_of_nonneg hpos.le
  have hsame := addTo_fixed_nanos (by omega) h
  have hwhole : span.nanos % 1000000 = 0 := by
    rw [hspan]
    unfold nanosSince
    simp only
    generalize (if next.secs % 86400 > start.secs % 86400 then _ else _ : ℤ) = adjust
    omega
  unfold isPositive
  rw [Bool.and_eq_true, decide_eq_true_iff, decide_eq_true_iff]
  omega

/-- What a calendar step makes of the clock: the same time of day, on a later day of a later month. -/
theorem months_step {m : I32} {start next : DateTime} (hm : 0 < m.1)
    (h : (months m).addTo start 1 = some next) :
    start < next ∧ 0 < next.nanosSince start ∧ monthsBetween start next = m.1 ∧
      next.nanos = start.nanos ∧ start.secs < next.secs := by
  obtain ⟨hsecs, hnanos⟩ := addTo_months h
  have hlater := start.dayAfter_lt (show (0 : ℤ) < m.1 * 1 by omega)
  rw [dayAfter_zero] at hlater
  have hlt : start.secs < next.secs := by omega
  refine ⟨Or.inl hlt, ?_, ?_, hnanos, hlt⟩
  · have hday : next.secs % 86400 = start.secs % 86400 := by omega
    unfold nanosSince
    simp only
    rw [hday, if_neg (lt_irrefl _), if_neg (lt_irrefl _), hnanos]
    omega
  · rw [monthsBetween_eq, monthIndex_addTo h]
    omega

/-! ### The two readings of a first step -/

theorem toI32_of_bounds {v : ℤ} (h : -2 ^ 31 ≤ v ∧ v < 2 ^ 31) : toI32 v = some ⟨v, h⟩ := dif_pos h

/-- The months between two instants, if a step of any count of months leads from one to the other. -/
theorem confirmedMonthsBetween_spec (a b : DateTime) :
    ∃ found, confirmedMonthsBetween a b = some found ∧
      (∀ m, found = some m → 0 < m.1 ∧ (months m).addTo a 1 = some b) ∧
      (∀ m : I32, 0 < m.1 → (months m).addTo a 1 = some b → found = some m) := by
  unfold confirmedMonthsBetween
  split
  · rename_i hle
    refine ⟨none, rfl, by simp, ?_⟩
    intro m hm h
    exact absurd (months_step hm h).1 (not_lt.mpr hle)
  · rename_i hle
    have hcount : 0 ≤ monthsBetween a b := by
      have := monthIndex_mono (not_le.mp hle).le
      rw [monthsBetween_eq]
      omega
    cases hfits : toI32 (monthsBetween a b) with
    | none =>
      refine ⟨none, rfl, by simp, ?_⟩
      intro m hm h
      rw [(months_step hm h).2.2.1, toI32_of_bounds m.2] at hfits
      cases hfits
    | some count =>
      have hvalue : count.1 = monthsBetween a b := by
        unfold toI32 at hfits
        split at hfits
        · cases hfits
          rfl
        · cases hfits
      have hless : I32.pred count = some ⟨count.1 - 1, by have := count.2; omega⟩ :=
        toI32_of_bounds (by have := count.2; omega)
      simp only [hless, Option.bind_eq_bind, Option.bind_some]
      refine ⟨_, rfl, ?_, ?_⟩
      · intro m h
        have := List.find?_some h
        simpa using this
      · intro m hm h
        have hsame : count = m := Subtype.ext (hvalue.trans (months_step hm h).2.2.1)
        subst hsame
        rw [List.find?_cons_of_pos (by simpa using ⟨hm, h⟩)]

/-- Walking a vector tells whether a period reproduces it, and an entry where it does not. -/
theorem firstDivergence_spec (p : Period) (start : DateTime) (rest : List DateTime) :
    ∃ found, p.firstDivergence (start :: rest) = some found ∧
      (found = none ↔ p.Reproduces (start :: rest)) ∧
      (∀ i, found = some i → i < (start :: rest).length) := by
  refine ⟨_, rfl, ?_, ?_⟩
  · rw [Option.map_eq_none_iff, List.find?_eq_none]
    rw [List.zipIdx_cons, List.drop_one, List.tail_cons]
    constructor
    · intro h start' hstart k t hk
      cases hstart
      cases k with
      | zero =>
        cases hk
        exact addTo_none
      | succ k =>
        have hmem : (t, k + 1) ∈ rest.zipIdx (0 + 1) := by
          rw [List.mk_mem_zipIdx_iff_le_and_getElem?_sub]
          exact ⟨by omega, by simpa using hk⟩
        simpa using h _ hmem
    · rintro h ⟨t, k⟩ hmem
      rw [List.mk_mem_zipIdx_iff_le_and_getElem?_sub] at hmem
      obtain ⟨hk, ht⟩ := hmem
      have := h start rfl k t (by
        rw [show k = (k - 1) + 1 by omega, List.getElem?_cons_succ]
        simpa using ht)
      simp [this]
  · intro i hi
    obtain ⟨⟨t, k⟩, hfind, rfl⟩ := Option.map_eq_some_iff.mp hi
    have hmem := List.mem_of_mem_drop (List.mem_of_find?_eq_some hfind)
    rw [List.mk_mem_zipIdx_iff_getElem?] at hmem
    exact (List.getElem?_eq_some_iff.mp hmem).1

/-- The message can be written for any entry of the vector. -/
theorem divergenceMessage_isSome {start next : DateTime} {rest : List DateTime} {index : ℕ}
    (h : index < (start :: next :: rest).length) :
    ∃ message, divergenceMessage (start :: next :: rest) index = some message := by
  obtain ⟨span, hspan, -⟩ := checkedSince_eq next start
  unfold divergenceMessage
  simp only [List.getElem?_eq_getElem h, List.getElem?_cons_zero, List.getElem?_cons_succ, hspan,
    Option.bind_eq_bind, Option.bind_some]
  exact ⟨_, rfl⟩

/-! ### Inference -/

/-- The four ways an inference goes. -/
theorem infer_cases (start next : DateTime) (rest : List DateTime) :
    ∃ span : Duration, span.nanos = next.nanosSince start ∧
      ((span.nanos ≤ 0 ∧ ∃ e, infer (start :: next :: rest) = some (.error e)) ∨
        (0 < span.nanos ∧ (fixed span).Reproduces (start :: next :: rest) ∧
          infer (start :: next :: rest) = some (.ok (fixed span))) ∨
        (0 < span.nanos ∧ ¬ (fixed span).Reproduces (start :: next :: rest) ∧
          ∃ m : I32, 0 < m.1 ∧ (months m).Reproduces (start :: next :: rest) ∧
            infer (start :: next :: rest) = some (.ok (months m))) ∨
        (0 < span.nanos ∧ ¬ (fixed span).Reproduces (start :: next :: rest) ∧
          (∀ m : I32, 0 < m.1 → ¬ (months m).Reproduces (start :: next :: rest)) ∧
            ∃ e, infer (start :: next :: rest) = some (.error e))) := by
  obtain ⟨span, hspan, hnanos⟩ := checkedSince_eq next start
  obtain ⟨fixedBad, hfixed, hfixedIff, hfixedLt⟩ :=
    firstDivergence_spec (fixed span) start (next :: rest)
  obtain ⟨found, hfound, hsound, hcomplete⟩ := confirmedMonthsBetween_spec start next
  have hlength : ¬ (start :: next :: rest).length < 2 := by simp
  have hunfold : ∀ r, (if span.nanos ≤ 0 then
      some (.error s!"timestamps must be strictly increasing, but index 1 ({next}) is not after index 0 ({start})")
      else match fixedBad with
        | none => some (.ok (fixed span))
        | some bad => match found with
          | none => (divergenceMessage (start :: next :: rest) bad).map .error
          | some count => ((months count).firstDivergence (start :: next :: rest)).bind fun
            | none => some (.ok (months count))
            | some calendarBad =>
              (divergenceMessage (start :: next :: rest) (max calendarBad bad)).map .error :
        Option (Except String Period)) = some r → infer (start :: next :: rest) = some r := by
    intro r h
    unfold infer
    rw [if_neg hlength]
    simp only [List.getElem?_cons_zero, List.getElem?_cons_succ, Option.bind_eq_bind,
      Option.bind_some, hspan, hfixed, hfound]
    exact h
  refine ⟨span, hnanos, ?_⟩
  by_cases hpos : span.nanos ≤ 0
  · exact Or.inl ⟨hpos, _, hunfold _ (if_pos hpos)⟩
  rw [if_neg hpos] at hunfold
  have hpos' : 0 < span.nanos := by omega
  cases fixedBad with
  | none => exact Or.inr (Or.inl ⟨hpos', hfixedIff.mp rfl, hunfold _ rfl⟩)
  | some bad =>
    have hnot : ¬ (fixed span).Reproduces (start :: next :: rest) := by
      intro h
      cases hfixedIff.mpr h
    have hbad : bad < (start :: next :: rest).length := hfixedLt bad rfl
    cases found with
    | none =>
      obtain ⟨message, hmessage⟩ := divergenceMessage_isSome hbad
      refine Or.inr (Or.inr (Or.inr ⟨hpos', hnot, ?_, message, hunfold _ ?_⟩))
      · intro m hm h
        cases hcomplete m hm (h start rfl 1 next rfl)
      · simp only [hmessage, Option.map_some]
    | some count =>
      obtain ⟨hcount, hlands⟩ := hsound count rfl
      obtain ⟨calendarBad, hcalendar, hcalendarIff, hcalendarLt⟩ :=
        firstDivergence_spec (months count) start (next :: rest)
      simp only [hcalendar, Option.bind_some] at hunfold
      cases calendarBad with
      | none =>
        exact Or.inr (Or.inr (Or.inl ⟨hpos', hnot, count, hcount, hcalendarIff.mp rfl, hunfold _ rfl⟩))
      | some other =>
        have hother : other < (start :: next :: rest).length := hcalendarLt other rfl
        obtain ⟨message, hmessage⟩ := divergenceMessage_isSome (max_lt hother hbad)
        refine Or.inr (Or.inr (Or.inr ⟨hpos', hnot, ?_, message, hunfold _ ?_⟩))
        · intro m hm h
          have hsame := hcomplete m hm (h start rfl 1 next rfl)
          cases hsame
          cases hcalendarIff.mpr h
        · simp only [hmessage, Option.map_some]

/-- No vector makes the inference panic. -/
theorem infer_isSome (timestamps : List DateTime) : (infer timestamps).isSome = true := by
  match timestamps with
  | [] => rfl
  | [_] => rfl
  | start :: next :: rest =>
    obtain ⟨span, -, ⟨-, e, h⟩ | ⟨-, -, h⟩ | ⟨-, -, m, -, -, h⟩ | ⟨-, -, -, e, h⟩⟩ :=
      infer_cases start next rest <;> rw [h] <;> rfl

/-- A vector a fixed grid and a calendar grid both reproduce does not start in a leap second. -/
theorem counted_of_both {d : Duration} {m : I32} {start next : DateTime}
    (hd : 0 < d.numMilliseconds) (hm : 0 < m.1) (h : (fixed d).addTo start 1 = some next)
    (h' : (months m).addTo start 1 = some next) : Counted start next := by
  obtain ⟨-, -, -, hnanos, hsecs⟩ := months_step hm h'
  by_cases ht : start.nanos < 1000000000
  · exact Or.inl ht
  · have hstep := (addTo_fixed_leap_iff (by omega) (show 0 ≤ d.numMilliseconds * 1 by omega)).mp h
    omega

/-- **Inference is sound and complete.**  It never panics.  A period it gives is positive and reproduces
the vector; the fixed period that reproduces it is given exactly when its first step is counted, and
before any calendar period; and a calendar period that reproduces it has one given. -/
theorem infer_exact (start next : DateTime) (rest : List DateTime) :
    ∃ outcome, infer (start :: next :: rest) = some outcome ∧
      (∀ p, outcome = .ok p → p.isPositive = true ∧ p.Reproduces (start :: next :: rest)) ∧
      (∀ d, (fixed d).isPositive = true → (fixed d).Reproduces (start :: next :: rest) →
        (outcome = .ok (fixed d) ↔ Counted start next) ∧ ∀ m, outcome ≠ .ok (months m)) ∧
      (∀ m, (months m).isPositive = true → (months m).Reproduces (start :: next :: rest) →
        ∃ p, outcome = .ok p) := by
  obtain ⟨span, hspan, hcases⟩ := infer_cases start next rest
  have hstep : ∀ {p : Period}, p.Reproduces (start :: next :: rest) → p.addTo start 1 = some next :=
    fun h => h start rfl 1 next rfl
  -- a counted fixed period that reproduces the vector is the difference of its first entries
  have hfixed : ∀ d, (fixed d).isPositive = true → (fixed d).Reproduces (start :: next :: rest) →
      (Counted start next ↔ span = d) := by
    intro d hp hr
    obtain ⟨hd, hwhole⟩ := isPositive_fixed hp
    rw [← nanosSince_fixed_iff hd (hstep hr), ← hspan, ← hwhole]
    exact ⟨fun h => Duration.ext h, fun h => by rw [h]⟩
  have hmonths : ∀ m : I32, (months m).isPositive = true →
      (months m).Reproduces (start :: next :: rest) → 0 < span.nanos := by
    intro m hp hr
    rw [hspan]
    exact (months_step (isPositive_months hp) (hstep hr)).2.1
  have hnone : ∀ d, (fixed d).isPositive = true → (fixed d).Reproduces (start :: next :: rest) →
      span ≠ d → ¬ Counted start next := fun d hp hr hne hc => hne ((hfixed d hp hr).mp hc)
  rcases hcases with ⟨hpos, e, h⟩ | ⟨hpos, hr, h⟩ | ⟨hpos, hr, m, hm, hrm, h⟩ | ⟨hpos, hr, hall, e, h⟩
  · refine ⟨_, h, by simp, ?_, ?_⟩
    · intro d hp hrd
      have hne : span ≠ d := by
        rintro rfl
        have := isPositive_fixed hp
        omega
      simp [hnone d hp hrd hne]
    · intro m hp hrm
      have := hmonths m hp hrm
      omega
  · refine ⟨_, h, ?_, ?_, fun m _ _ => ⟨_, rfl⟩⟩
    · intro p hp
      cases hp
      exact ⟨isPositive_span hspan hpos (hstep hr), hr⟩
    · intro d hp hrd
      rw [hfixed d hp hrd]
      simp
  · refine ⟨_, h, ?_, ?_, fun m _ _ => ⟨_, rfl⟩⟩
    · intro p hp
      cases hp
      exact ⟨decide_eq_true hm, hrm⟩
    · intro d hp hrd
      have hcounted := counted_of_both (isPositive_fixed hp).1 hm (hstep hrd) (hstep hrm)
      cases (hfixed d hp hrd).mp hcounted
      exact absurd hrd hr
  · refine ⟨_, h, by simp, ?_, ?_⟩
    · intro d hp hrd
      have hne : span ≠ d := by
        rintro rfl
        exact hr hrd
      simp [hnone d hp hrd hne]
    · intro m hp hrm
      exact absurd hrm (hall m (isPositive_months hp))

namespace Sample

/-- Half way through the leap second at the end of 2016. -/
def leapSecond : DateTime := ⟨1483228799, 1500000000, by decide⟩

/-- Half a second into 2017. -/
def newYear : DateTime := ⟨1483228800, 500000000, by decide⟩

def secondly : Period := fixed ⟨1000000000, by decide⟩

/-- A second after half way through a leap second no time has passed, by the clock, so no period is
inferred although one second reproduces the two instants. -/
theorem infer_uncounted : (∃ e, infer [leapSecond, newYear] = some (.error e)) ∧
    secondly.isPositive = true ∧ secondly.Reproduces [leapSecond, newYear] := by
  refine ⟨⟨_, rfl⟩, by decide, ?_⟩
  intro start hstart k t hk
  cases hstart
  match k, hk with
  | 0, hk =>
    cases hk
    decide
  | 1, hk =>
    cases hk
    decide
  | k + 2, hk => cases hk

end Sample

end Period

end InfraStore
