import InfraStore.Period
import Mathlib.Tactic.IntervalCases
import Mathlib.Tactic.NormNum
import Mathlib.Tactic.Ring

/-!
# Grids advance

The civil calendar's round trip and what follows for grids: a positive period's grid points are
strictly increasing in the step, month-end clamping included, and keep whole milliseconds.

* `daysOfCivil_civilOfDays`: the two directions of the calendar agree, and give a valid day;
* `Period.addTo_lt`: a later step is a later instant;
* `Period.addTo_isMillis`: a grid anchored at a whole millisecond stays on whole milliseconds.
-/

namespace InfraStore

/-! ### The civil calendar -/

theorem isLeapYear_iff (y : ℤ) :
    isLeapYear y = true ↔ y % 4 = 0 ∧ (y % 100 ≠ 0 ∨ y % 400 = 0) := by
  unfold isLeapYear
  rw [Bool.and_eq_true, Bool.or_eq_true, decide_eq_true_iff, decide_eq_true_iff,
    decide_eq_true_iff]

/-- The year of an era and the day of the year that a day of the era falls on. -/
theorem yearOfEra_spec {doe yoe doy : ℤ} (h0 : 0 ≤ doe) (h1 : doe ≤ 146096)
    (hy : yoe = (doe - doe / 1460 + doe / 36524 - doe / 146096) / 365)
    (hd : doy = doe - (365 * yoe + yoe / 4 - yoe / 100)) :
    0 ≤ yoe ∧ yoe ≤ 399 ∧ 0 ≤ doy ∧ doy ≤ 365 ∧
      (doy = 365 → (yoe + 1) % 4 = 0 ∧ ((yoe + 1) % 100 ≠ 0 ∨ (yoe + 1) % 400 = 0)) := by
  obtain ⟨e, he⟩ : ∃ e, doe / 1460 = e := ⟨_, rfl⟩
  obtain ⟨k, hk⟩ : ∃ k, doe / 36524 - doe / 146096 = k := ⟨_, rfl⟩
  -- `k` is the century of the era and `e` counts the days of whole quadrennia.
  have hcentury : 0 ≤ k ∧ k ≤ 3 ∧ 36524 * k ≤ doe ∧ doe ≤ 36524 * k + 36524 ∧
      (k < 3 → doe < 36524 * k + 36524) := by omega
  have hquad : 1460 * e ≤ doe ∧ doe ≤ 1460 * e + 1459 := by omega
  have hlow : 36500 * k ≤ doe - e + k := by
    by_cases h : e ≤ 25 * k <;> omega
  have hhigh : doe - e + k < 36500 * (k + 1) := by
    by_cases h : e ≤ 25 * k + 24 <;> omega
  have hn : yoe = (doe - e + k) / 365 := by
    rw [hy]
    congr 1
    omega
  have hyear : 365 * yoe ≤ doe - e + k ∧ doe - e + k ≤ 365 * yoe + 364 := by omega
  have hcent : yoe / 100 = k := by omega
  have hle : yoe ≤ 4 * e + 3 := by omega
  have hfour : yoe / 4 = e ∨ yoe / 4 + 1 = e := by omega
  refine ⟨by omega, by omega, by omega, by omega, fun h365 => ?_⟩
  have hlast : yoe = 4 * e - 1 ∧ doe - e + k = 365 * yoe + 364 := by omega
  refine ⟨by omega, ?_⟩
  by_cases h : (yoe + 1) % 100 = 0
  · right
    have : yoe = 100 * k + 99 := by omega
    by_cases hk3 : k = 3 <;> omega
  · exact .inl h

/-- The length of a month is at most what the day of the year leaves of it. -/
theorem le_daysInMonth {y m mp doy : ℤ} (hmp : mp = (5 * doy + 2) / 153)
    (hm : m = if mp < 10 then mp + 3 else mp - 9) (h0 : 0 ≤ doy) (h1 : doy ≤ 365)
    (hleap : doy = 365 → isLeapYear y = true) :
    doy - (153 * mp + 2) / 5 + 1 ≤ daysInMonth y m := by
  unfold daysInMonth
  by_cases h2 : m = 2
  · rw [if_pos h2]
    by_cases h365 : doy = 365
    · rw [hleap h365]
      split at hm <;> simp only [if_true] <;> omega
    · split at hm <;> split <;> omega
  · rw [if_neg h2]
    split at hm <;> split <;> omega

/-- The date of a day is a day of its month, and names that day. -/
theorem daysOfCivil_civilOfDays (d : ℤ) :
    daysOfCivil (civilOfDays d) = d ∧ 1 ≤ (civilOfDays d).month ∧ (civilOfDays d).month ≤ 12 ∧
      1 ≤ (civilOfDays d).day ∧
      (civilOfDays d).day ≤ daysInMonth (civilOfDays d).year (civilOfDays d).month := by
  unfold civilOfDays
  simp only
  obtain ⟨doe, hdoe⟩ : ∃ doe, (d + 719468) % 146097 = doe := ⟨_, rfl⟩
  obtain ⟨era, hera⟩ : ∃ era, (d + 719468) / 146097 = era := ⟨_, rfl⟩
  obtain ⟨yoe, hyoe⟩ :
      ∃ yoe, (doe - doe / 1460 + doe / 36524 - doe / 146096) / 365 = yoe := ⟨_, rfl⟩
  obtain ⟨doy, hdoy⟩ : ∃ doy, doe - (365 * yoe + yoe / 4 - yoe / 100) = doy := ⟨_, rfl⟩
  rw [hdoe, hera, hyoe, hdoy]
  obtain ⟨hy0, hy1, hd0, hd1, hleap⟩ :=
    yearOfEra_spec (by omega) (by omega) hyoe.symm hdoy.symm
  obtain ⟨mp, hmp⟩ : ∃ mp, (5 * doy + 2) / 153 = mp := ⟨_, rfl⟩
  obtain ⟨m, hm⟩ : ∃ m, (if mp < 10 then mp + 3 else mp - 9) = m := ⟨_, rfl⟩
  rw [hmp, hm]
  have hmonth : 1 ≤ m ∧ m ≤ 12 ∧ (m ≤ 2 ↔ 10 ≤ mp) := by
    split at hm <;> omega
  refine ⟨?_, hmonth.1, hmonth.2.1, by omega, ?_⟩
  · have hyear : (if m ≤ 2 then yoe + era * 400 + (if m ≤ 2 then 1 else 0) - 1
        else yoe + era * 400 + if m ≤ 2 then 1 else 0) = yoe + era * 400 := by
      split <;> omega
    have hmp' : (if m > 2 then m - 3 else m + 9) = mp := by
      split at hm <;> split <;> omega
    have hquot : (yoe + era * 400) / 400 = era := by omega
    have hrem : (yoe + era * 400) % 400 = yoe := by omega
    unfold daysOfCivil
    simp only
    rw [hyear, hmp', hquot, hrem]
    omega
  · apply le_daysInMonth hmp.symm hm.symm hd0 hd1
    intro h365
    obtain ⟨h4, h100⟩ := hleap h365
    have hfeb : m ≤ 2 := by omega
    rw [if_pos hfeb, isLeapYear_iff]
    omega

/-! ### Months -/

/-- The first day of the month a number of months from year zero. -/
def monthStart (t : ℤ) : ℤ := daysOfCivil ⟨t / 12, t % 12 + 1, 1⟩

theorem daysOfCivil_day (y m d : ℤ) : daysOfCivil ⟨y, m, d⟩ = daysOfCivil ⟨y, m, 1⟩ + (d - 1) := by
  unfold daysOfCivil
  simp only
  omega

theorem daysInMonth_pos (y m : ℤ) : 28 ≤ daysInMonth y m := by
  unfold daysInMonth
  split
  · split <;> omega
  · split <;> omega

/-- The days up to the first of a month, in years that begin in March. -/
theorem daysOfCivil_march (y m : ℤ) :
    daysOfCivil ⟨y, m, 1⟩ =
      365 * (if m ≤ 2 then y - 1 else y) + (if m ≤ 2 then y - 1 else y) / 4 -
        (if m ≤ 2 then y - 1 else y) / 100 + (if m ≤ 2 then y - 1 else y) / 400 +
        (153 * (if m > 2 then m - 3 else m + 9) + 2) / 5 - 719468 := by
  unfold daysOfCivil
  simp only
  generalize (if m ≤ 2 then y - 1 else y) = z
  omega

theorem daysInMonth_february (y : ℤ) :
    daysInMonth y 2 = 28 + (y / 4 - (y - 1) / 4) - (y / 100 - (y - 1) / 100) +
      (y / 400 - (y - 1) / 400) := by
  unfold daysInMonth
  rw [if_pos rfl]
  by_cases h : isLeapYear y = true
  · rw [if_pos h]
    rw [isLeapYear_iff] at h
    omega
  · rw [if_neg h]
    rw [isLeapYear_iff] at h
    omega

/-- A month's days lie between its first and the first of the next. -/
theorem monthStart_succ (t : ℤ) :
    monthStart (t + 1) = monthStart t + daysInMonth (t / 12) (t % 12 + 1) := by
  obtain ⟨y, m, hm0, hm11, rfl⟩ : ∃ y m, 0 ≤ m ∧ m ≤ 11 ∧ t = 12 * y + m :=
    ⟨t / 12, t % 12, by omega, by omega, by omega⟩
  have hy : (12 * y + m) / 12 = y := by omega
  have hr : (12 * y + m) % 12 = m := by omega
  unfold monthStart
  rw [daysOfCivil_march, daysOfCivil_march, hy, hr]
  by_cases hdec : m = 11
  · have hy' : (12 * y + m + 1) / 12 = y + 1 := by omega
    have hr' : (12 * y + m + 1) % 12 = 0 := by omega
    rw [hy', hr', hdec]
    unfold daysInMonth
    norm_num
    omega
  · have hy' : (12 * y + m + 1) / 12 = y := by omega
    have hr' : (12 * y + m + 1) % 12 = m + 1 := by omega
    rw [hy', hr']
    by_cases hfeb : m = 1
    · rw [hfeb, show (1 : ℤ) + 1 = 2 from rfl, daysInMonth_february]
      norm_num
      omega
    · clear hy hr hy' hr'
      unfold daysInMonth
      rw [if_neg (show ¬ m + 1 = 2 by omega)]
      interval_cases m <;> first | contradiction | (norm_num; try omega)

theorem monthStart_le {t t' : ℤ} (h : t ≤ t') : monthStart t ≤ monthStart t' := by
  obtain ⟨n, rfl⟩ : ∃ n : ℕ, t' = t + n := ⟨(t' - t).toNat, by omega⟩
  induction n with
  | zero => simp
  | succ n ih =>
    have hs := monthStart_succ (t + n)
    have hpos := daysInMonth_pos ((t + n) / 12) ((t + n) % 12 + 1)
    have := ih (by omega)
    rw [Nat.cast_succ, ← add_assoc, hs]
    omega

/-! ### Instants -/

namespace DateTime

theorem mk?_eq_some {secs : ℤ} {nanos : ℕ} {t : DateTime} (h : mk? secs nanos = some t) :
    t.secs = secs ∧ t.nanos = nanos := by
  unfold mk? at h
  split at h
  · cases h
    exact ⟨rfl, rfl⟩
  · cases h

/-- Months from year zero to an instant's month. -/
def monthIndex (t : DateTime) : ℤ := t.date.year * 12 + (t.date.month - 1)

/-- The day of an instant's date after a number of months, clamped to its month. -/
def dayAfter (t : DateTime) (n : ℤ) : ℤ :=
  monthStart (t.monthIndex + n) +
    (min t.date.day (daysInMonth ((t.monthIndex + n) / 12) ((t.monthIndex + n) % 12 + 1)) - 1)

/-- The day of the date an instant is on. -/
theorem dayAfter_zero (t : DateTime) : t.dayAfter 0 = t.secs / 86400 := by
  obtain ⟨hround, hm1, hm12, -, hday⟩ := daysOfCivil_civilOfDays (t.secs / 86400)
  change t.date.day ≤ daysInMonth t.date.year t.date.month at hday
  have hyear : t.monthIndex / 12 = t.date.year := by
    unfold monthIndex date
    omega
  have hmonth : t.monthIndex % 12 + 1 = t.date.month := by
    unfold monthIndex date
    omega
  unfold dayAfter monthStart
  rw [add_zero, hyear, hmonth, min_eq_left hday, ← daysOfCivil_day]
  exact hround

theorem addMonths_spec {t t' : DateTime} {n : ℤ} (h : t.addMonths n = some t') :
    t'.secs = t.dayAfter n * 86400 + t.secs % 86400 ∧ t'.nanos = t.nanos := by
  unfold addMonths at h
  simp only at h
  split at h
  · rename_i hn
    cases h
    rw [hn, dayAfter_zero]
    exact ⟨by omega, rfl⟩
  · rw [daysOfCivil_day] at h
    exact mk?_eq_some h

/-- More months lead to a later day. -/
theorem dayAfter_lt (t : DateTime) {n n' : ℤ} (h : n < n') : t.dayAfter n < t.dayAfter n' := by
  have hday : 1 ≤ t.date.day := (daysOfCivil_civilOfDays (t.secs / 86400)).2.2.2.1
  have hnext := monthStart_succ (t.monthIndex + n)
  have hmono : monthStart (t.monthIndex + n + 1) ≤ monthStart (t.monthIndex + n') :=
    monthStart_le (by omega)
  have hpos := daysInMonth_pos ((t.monthIndex + n') / 12) ((t.monthIndex + n') % 12 + 1)
  unfold dayAfter
  omega

/-- An instant that is no leap second, in nanoseconds. -/
def total (t : DateTime) : ℤ := t.secs * 1000000000 + t.nanos

theorem lt_of_total_lt {a b : DateTime} (ha : a.nanos < 1000000000) (hb : b.nanos < 1000000000)
    (h : a.total < b.total) : a < b := by
  unfold total at h
  show a.secs < b.secs ∨ (a.secs = b.secs ∧ a.nanos < b.nanos)
  omega

/-- Away from leap seconds an instant advances by the nanoseconds of the span. -/
theorem addSigned_eq {t : DateTime} (ht : t.nanos < 1000000000) (d : Duration) :
    t.addSigned d = mk? ((t.total + d.nanos) / 1000000000)
      ((t.total + d.nanos) % 1000000000).toNat := by
  have hsum : (t.secs + d.nanos.tdiv 1000000000) * 1000000000 +
      ((t.nanos : ℤ) + d.nanos.tmod 1000000000) = t.total + d.nanos := by
    have hd := Int.mul_tdiv_add_tmod d.nanos 1000000000
    unfold total
    omega
  unfold addSigned
  simp only
  rw [if_neg (by omega), if_neg (by omega), hsum]

theorem addSigned_spec {t t' : DateTime} {d : Duration} (ht : t.nanos < 1000000000)
    (h : t.addSigned d = some t') : t'.total = t.total + d.nanos ∧ t'.nanos < 1000000000 := by
  rw [addSigned_eq ht] at h
  obtain ⟨hs, hn⟩ := mk?_eq_some h
  unfold total at *
  omega

theorem addSigned_zero {t : DateTime} (ht : t.nanos < 1000000000) :
    t.addSigned Duration.zero = some t := by
  obtain ⟨hlo, hhi, hn⟩ := t.valid
  have hnone : Duration.zero.nanos = 0 := rfl
  have hs : t.total / 1000000000 = t.secs := by
    unfold total
    omega
  have hr : (t.total % 1000000000).toNat = t.nanos := by
    unfold total
    omega
  rw [addSigned_eq ht, hnone, add_zero, hs, hr]
  exact dif_pos ⟨hlo, hhi, hn⟩

end DateTime

/-! ### Grids -/

namespace Period

theorem addTo_fixed {d : Duration} {t a : DateTime} {k : ℤ} (ht : t.nanos < 1000000000)
    (h : (fixed d).addTo t k = some a) :
    a.total = t.total + d.numMilliseconds * k * 1000000 ∧ a.nanos < 1000000000 := by
  rw [addTo] at h
  obtain ⟨total, htotal, h⟩ := Option.bind_eq_some_iff.mp h
  obtain ⟨span, hspan, h⟩ := Option.bind_eq_some_iff.mp h
  obtain ⟨hsum, hnanos⟩ := DateTime.addSigned_spec ht h
  unfold checkedI64 at htotal
  unfold Duration.tryMilliseconds at hspan
  split at htotal
  · cases htotal
    split at hspan
    · cases hspan
      exact ⟨hsum, hnanos⟩
    · cases hspan
  · cases htotal

theorem addTo_months {m : I32} {t a : DateTime} {k : ℤ} (h : (months m).addTo t k = some a) :
    a.secs = t.dayAfter (m.1 * k) * 86400 + t.secs % 86400 ∧ a.nanos = t.nanos := by
  rw [addTo] at h
  obtain ⟨total, htotal, h⟩ := Option.bind_eq_some_iff.mp h
  unfold checkedI64 at htotal
  split at htotal
  · cases htotal
    exact DateTime.addMonths_spec h
  · cases htotal

theorem isPositive_fixed {d : Duration} (h : (fixed d).isPositive = true) :
    0 < d.numMilliseconds ∧ d.nanos = d.numMilliseconds * 1000000 := by
  unfold isPositive at h
  rw [Bool.and_eq_true, decide_eq_true_iff, decide_eq_true_iff] at h
  have hd := Int.mul_tdiv_add_tmod d.nanos 1000000
  have hm : d.nanos.tmod 1000000 = 0 := Int.tmod_eq_zero_of_dvd (Int.dvd_of_emod_eq_zero h.2)
  refine ⟨h.1, ?_⟩
  unfold Duration.numMilliseconds
  omega

theorem isPositive_months {m : I32} (h : (months m).isPositive = true) : 0 < m.1 :=
  of_decide_eq_true h

/-- A later step of a positive period is a later instant. -/
theorem addTo_lt {p : Period} {t a b : DateTime} {k k' : ℤ} (hp : p.isPositive = true)
    (ht : t.nanos < 1000000000) (hk : k < k') (ha : p.addTo t k = some a)
    (hb : p.addTo t k' = some b) : a < b := by
  cases p with
  | fixed d =>
    obtain ⟨hd, -⟩ := isPositive_fixed hp
    obtain ⟨ha, han⟩ := addTo_fixed ht ha
    obtain ⟨hb, hbn⟩ := addTo_fixed ht hb
    have hlt : d.numMilliseconds * k < d.numMilliseconds * k' := Int.mul_lt_mul_of_pos_left hk hd
    exact DateTime.lt_of_total_lt han hbn (by omega)
  | months m =>
    obtain ⟨ha, -⟩ := addTo_months ha
    obtain ⟨hb, -⟩ := addTo_months hb
    have hlt := t.dayAfter_lt (Int.mul_lt_mul_of_pos_left hk (isPositive_months hp))
    left
    omega

/-- A grid anchored at a whole millisecond stays on whole milliseconds. -/
theorem addTo_isMillis {p : Period} {t a : DateTime} {k : ℤ} (ht : t.IsMillis)
    (ha : p.addTo t k = some a) : a.IsMillis := by
  obtain ⟨hlt, hms⟩ := ht
  cases p with
  | fixed d =>
    obtain ⟨ha, han⟩ := addTo_fixed hlt ha
    unfold DateTime.total at ha
    exact ⟨han, by omega⟩
  | months m =>
    obtain ⟨-, ha⟩ := addTo_months ha
    exact ⟨ha ▸ hlt, ha ▸ hms⟩

/-- The step of no periods is the anchor itself. -/
theorem addTo_zero {p : Period} {t : DateTime} (ht : t.nanos < 1000000000) :
    p.addTo t 0 = some t := by
  have hzero : checkedI64 0 = some 0 := if_pos (by decide)
  cases p with
  | fixed d =>
    have hspan : Duration.tryMilliseconds 0 = some Duration.zero := rfl
    rw [addTo, mul_zero, hzero, Option.bind_some, hspan, Option.bind_some]
    exact DateTime.addSigned_zero ht
  | months m =>
    rw [addTo, mul_zero, hzero, Option.bind_some]
    rfl

end Period

end InfraStore
