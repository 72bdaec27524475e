import InfraStore.Calendar
import Mathlib.Order.Basic

/-!
# Steps of a grid

What the grid arithmetic of a positive period computes, fixed or calendar, in terms of the grid points
`p.addTo start k` alone.

* `DateTime` is a linear order, and the steps of a grid up to a representable one are representable
  (`Period.addTo_of_le`);
* `Period.stepsBetween_eq`: a grid point's index is found exactly;
* `Period.lt_floorSteps_iff`, `Period.lt_ceilSteps_iff`: what the two roundings separate, for a bound
  the elapsed time places (`Period.Places`);
* `Period.anchorable_iff`: a run can be re-anchored when the grid of its first point runs through it.
-/

namespace InfraStore

/-! ### Instants in order -/

namespace DateTime

/-- The place of an instant in chronological order. -/
def rank (t : DateTime) : ℤ := t.secs * 2000000000 + t.nanos

theorem lt_iff_rank {a b : DateTime} : a < b ↔ a.rank < b.rank := by
  have ha := a.valid
  have hb := b.valid
  show (a.secs < b.secs ∨ (a.secs = b.secs ∧ a.nanos < b.nanos)) ↔ _
  unfold rank
  omega

theorem le_iff_rank {a b : DateTime} : a ≤ b ↔ a.rank ≤ b.rank := by
  show ¬ b < a ↔ _
  rw [lt_iff_rank]
  omega

theorem rank_injective {a b : DateTime} (h : a.rank = b.rank) : a = b := by
  have ha := a.valid
  have hb := b.valid
  unfold rank at h
  apply DateTime.ext <;> omega

instance : LinearOrder DateTime :=
  { (inferInstance : LE DateTime), (inferInstance : LT DateTime) with
    le_refl := fun a => le_iff_rank.mpr le_rfl
    le_trans := fun a b c h h' => le_iff_rank.mpr (le_trans (le_iff_rank.mp h) (le_iff_rank.mp h'))
    lt_iff_le_not_ge := fun a b => by
      rw [lt_iff_rank, le_iff_rank, le_iff_rank]
      omega
    le_antisymm := fun a b h h' =>
      rank_injective (le_antisymm (le_iff_rank.mp h) (le_iff_rank.mp h'))
    le_total := fun a b => by
      rw [le_iff_rank, le_iff_rank]
      omega
    toDecidableLE := inferInstance
    toDecidableEq := inferInstance
    toDecidableLT := inferInstance }

/-- Away from leap seconds the order is the order of the nanosecond counts. -/
theorem lt_iff_total {a b : DateTime} (ha : a.nanos < 1000000000) (hb : b.nanos < 1000000000) :
    a < b ↔ a.total < b.total := by
  rw [lt_iff_rank]
  unfold rank total
  omega

theorem le_iff_total {a b : DateTime} (ha : a.nanos < 1000000000) (hb : b.nanos < 1000000000) :
    a ≤ b ↔ a.total ≤ b.total := by
  rw [← not_lt, lt_iff_total hb ha, not_lt]

theorem total_injective {a b : DateTime} (ha : a.nanos < 1000000000) (hb : b.nanos < 1000000000)
    (h : a.total = b.total) : a = b := by
  unfold total at h
  apply DateTime.ext <;> omega

/-- The instant at a nanosecond count between two others. -/
theorem exists_total {a b : DateTime} (hb : b.nanos < 1000000000) {v : ℤ} (h1 : a.total ≤ v)
    (h2 : v ≤ b.total) : ∃ t : DateTime, t.total = v ∧ t.nanos < 1000000000 := by
  have ha := a.valid
  have hb' := b.valid
  unfold total at h1 h2
  refine ⟨⟨v / 1000000000, (v % 1000000000).toNat, by omega, by omega, by omega⟩, ?_, ?_⟩
  · unfold total
    simp only
    omega
  · simp only
    omega

/-- Away from leap seconds a difference counts the nanoseconds between. -/
theorem millisSince_eq {a b : DateTime} (ha : a.nanos < 1000000000) (hb : b.nanos < 1000000000) :
    a.millisSince b = (a.total - b.total).tdiv 1000000 := by
  unfold millisSince nanosSince
  rw [if_neg (show ¬ 1000000000 ≤ b.nanos by omega), if_neg (show ¬ 1000000000 ≤ a.nanos by omega)]
  congr 1
  unfold total
  split
  · simp only
    omega
  · split <;> simp only <;> omega

/-! ### Months of a date -/

/-- The day of an instant is a day of its month. -/
theorem monthIndex_bounds (t : DateTime) :
    monthStart t.monthIndex ≤ t.secs / 86400 ∧ t.secs / 86400 < monthStart (t.monthIndex + 1) := by
  obtain ⟨-, hm1, hm12, hd1, hday⟩ := daysOfCivil_civilOfDays (t.secs / 86400)
  change t.date.day ≤ daysInMonth t.date.year t.date.month at hday
  change 1 ≤ t.date.day at hd1
  have hzero := t.dayAfter_zero
  have hnext := monthStart_succ t.monthIndex
  unfold dayAfter at hzero
  rw [add_zero] at hzero
  have hpos := daysInMonth_pos (t.monthIndex / 12) (t.monthIndex % 12 + 1)
  omega

theorem monthStart_lt {a b : ℤ} (h : a < b) : monthStart a < monthStart b := by
  have hs := monthStart_succ a
  have hpos := daysInMonth_pos (a / 12) (a % 12 + 1)
  have hle : monthStart (a + 1) ≤ monthStart b := monthStart_le h
  omega

/-- A day lies in one month. -/
theorem monthIndex_eq {t : DateTime} {i : ℤ} (h1 : monthStart i ≤ t.secs / 86400)
    (h2 : t.secs / 86400 < monthStart (i + 1)) : t.monthIndex = i := by
  obtain ⟨h3, h4⟩ := t.monthIndex_bounds
  rcases lt_trichotomy t.monthIndex i with h | h | h
  · have : monthStart (t.monthIndex + 1) ≤ monthStart i := monthStart_le h
    omega
  · exact h
  · have : monthStart (i + 1) ≤ monthStart t.monthIndex := monthStart_le h
    omega

theorem monthsBetween_eq (start at_ : DateTime) :
    monthsBetween start at_ = at_.monthIndex - start.monthIndex := by
  unfold monthsBetween monthIndex
  omega

/-- A later instant is not in an earlier month. -/
theorem monthIndex_mono {a b : DateTime} (h : a ≤ b) : a.monthIndex ≤ b.monthIndex := by
  obtain ⟨h1, -⟩ := a.monthIndex_bounds
  obtain ⟨-, h2⟩ := b.monthIndex_bounds
  have hsecs : a.secs ≤ b.secs := by
    have ha := a.valid
    have hb := b.valid
    rw [le_iff_rank] at h
    unfold rank at h
    omega
  by_contra hlt
  have : monthStart (b.monthIndex + 1) ≤ monthStart a.monthIndex := monthStart_le (by omega)
  omega

/-- The day of the month, by where the month starts. -/
theorem day_eq (t : DateTime) : t.date.day = t.secs / 86400 - monthStart t.monthIndex + 1 := by
  obtain ⟨-, -, -, -, hday⟩ := daysOfCivil_civilOfDays (t.secs / 86400)
  change t.date.day ≤ daysInMonth t.date.year t.date.month at hday
  obtain ⟨-, hm1, hm12, -, -⟩ := daysOfCivil_civilOfDays (t.secs / 86400)
  have hyear : t.monthIndex / 12 = t.date.year := by
    unfold monthIndex date
    omega
  have hmonth : t.monthIndex % 12 + 1 = t.date.month := by
    unfold monthIndex date
    omega
  have hzero := t.dayAfter_zero
  unfold dayAfter at hzero
  rw [add_zero, hyear, hmonth, min_eq_left hday] at hzero
  omega

end DateTime

/-! ### Grid points -/

namespace Period

open DateTime

/-- The points of a fixed grid are the instants so many whole milliseconds on. -/
theorem addTo_fixed_iff {d : Duration} {t a : DateTime} {k : ℤ} (ht : t.nanos < 1000000000) :
    (fixed d).addTo t k = some a ↔
      a.total = t.total + d.numMilliseconds * k * 1000000 ∧ a.nanos < 1000000000 := by
  constructor
  · exact addTo_fixed ht
  · rintro ⟨htotal, hnanos⟩
    have hav := a.valid
    have htv := t.valid
    have hmin : minSecs = -8334601228800 := rfl
    have hmax : maxSecs = 8210266876799 := rfl
    unfold total at htotal
    obtain ⟨v, hv⟩ : ∃ v, d.numMilliseconds * k = v := ⟨_, rfl⟩
    rw [hv] at htotal
    have hfits : fitsI64 v := by
      unfold fitsI64
      omega
    have hspan : (v * 1000000).natAbs ≤ maxDurationMillis * 1000000 := by
      have : maxDurationMillis = 9223372036854775807 := rfl
      omega
    rw [addTo, hv, checkedI64, if_pos hfits, Option.bind_some, Duration.tryMilliseconds,
      dif_pos hspan, Option.bind_some, DateTime.addSigned_eq ht]
    have hs : (t.total + v * 1000000) / 1000000000 = a.secs := by
      unfold total
      omega
    have hn : ((t.total + v * 1000000) % 1000000000).toNat = a.nanos := by
      unfold total
      omega
    simp only [hs, hn]
    exact dif_pos hav

/-- A month has at least 28 days, so the day a number of months on is at least so many days on. -/
theorem dayAfter_ge (t : DateTime) {n : ℤ} (h : 0 ≤ n) :
    t.secs / 86400 + n ≤ t.dayAfter n := by
  obtain ⟨k, rfl⟩ : ∃ k : ℕ, n = k := ⟨n.toNat, by omega⟩
  induction k with
  | zero =>
    rw [Nat.cast_zero, dayAfter_zero]
    omega
  | succ k ih =>
    have := t.dayAfter_lt (show (k : ℤ) < ((k + 1 : ℕ) : ℤ) by omega)
    have := ih (by omega)
    omega

/-- The points of a calendar grid are the clamped days at the anchor's time of day. -/
theorem addTo_months_iff {m : I32} {t a : DateTime} {k : ℤ} (hk : 0 ≤ m.1 * k) :
    (months m).addTo t k = some a ↔
      a.secs = t.dayAfter (m.1 * k) * 86400 + t.secs % 86400 ∧ a.nanos = t.nanos := by
  constructor
  · exact addTo_months
  · rintro ⟨hsecs, hnanos⟩
    have hav := a.valid
    have htv := t.valid
    have hge := dayAfter_ge t hk
    have hmin : minSecs = -8334601228800 := rfl
    have hmax : maxSecs = 8210266876799 := rfl
    have hfits : fitsI64 (m.1 * k) := by
      unfold fitsI64
      omega
    rw [addTo, checkedI64, if_pos hfits, Option.bind_some]
    unfold addMonths
    simp only
    split
    · rename_i hzero
      rw [hzero, dayAfter_zero] at hsecs
      congr 1
      exact DateTime.ext (by omega) hnanos.symm
    · rw [daysOfCivil_day]
      change mk? (t.dayAfter (m.1 * k) * 86400 + t.secs % 86400) t.nanos = some a
      rw [← hsecs, ← hnanos]
      exact dif_pos hav

/-- The steps before a representable one are representable. -/
theorem addTo_of_le {p : Period} {t b : DateTime} {j k : ℤ} (hp : p.isPositive = true)
    (ht : t.nanos < 1000000000) (hj : 0 ≤ j) (hjk : j ≤ k) (hb : p.addTo t k = some b) :
    ∃ a, p.addTo t j = some a := by
  cases p with
  | fixed d =>
    obtain ⟨hd, -⟩ := isPositive_fixed hp
    obtain ⟨htotal, hnanos⟩ := addTo_fixed ht hb
    have h0 : 0 ≤ d.numMilliseconds * j := Int.mul_nonneg hd.le hj
    have h1 : d.numMilliseconds * j ≤ d.numMilliseconds * k := Int.mul_le_mul_of_nonneg_left hjk hd.le
    obtain ⟨a, ha⟩ := exists_total (a := t) hnanos
      (v := t.total + d.numMilliseconds * j * 1000000) (by omega) (by omega)
    exact ⟨a, (addTo_fixed_iff ht).mpr ha⟩
  | months m =>
    have hm := isPositive_months hp
    obtain ⟨hsecs, -⟩ := addTo_months hb
    have h0 : 0 ≤ m.1 * j := Int.mul_nonneg hm.le hj
    have h1 : m.1 * j ≤ m.1 * k := Int.mul_le_mul_of_nonneg_left hjk hm.le
    have hlow := dayAfter_ge t h0
    have hhigh : t.dayAfter (m.1 * j) ≤ t.dayAfter (m.1 * k) := by
      rcases h1.lt_or_eq with h | h
      · exact (t.dayAfter_lt h).le
      · rw [h]
    have htv := t.valid
    have hbv := b.valid
    exact ⟨⟨t.dayAfter (m.1 * j) * 86400 + t.secs % 86400, t.nanos, by omega, by omega, htv.2.2⟩,
      (addTo_months_iff h0).mpr ⟨rfl, rfl⟩⟩

/-- The points of a grid carry no leap second. -/
theorem addTo_nanos {p : Period} {t a : DateTime} {k : ℤ} (ht : t.nanos < 1000000000)
    (ha : p.addTo t k = some a) : a.nanos < 1000000000 := by
  cases p with
  | fixed d => exact (addTo_fixed ht ha).2
  | months m => exact (addTo_months ha).2 ▸ ht

/-- Grid points are ordered as their steps. -/
theorem addTo_lt_iff {p : Period} {t a b : DateTime} {j k : ℤ} (hp : p.isPositive = true)
    (ht : t.nanos < 1000000000) (ha : p.addTo t j = some a) (hb : p.addTo t k = some b) :
    a < b ↔ j < k := by
  rcases lt_trichotomy j k with h | h | h
  · exact ⟨fun _ => h, fun _ => addTo_lt hp ht h ha hb⟩
  · rw [h, hb] at ha
    cases ha
    exact ⟨fun hlt => absurd hlt (lt_irrefl _), fun hlt => by omega⟩
  · have := addTo_lt hp ht h hb ha
    exact ⟨fun hlt => absurd hlt this.asymm, fun hlt => by omega⟩

theorem addTo_le_iff {p : Period} {t a b : DateTime} {j k : ℤ} (hp : p.isPositive = true)
    (ht : t.nanos < 1000000000) (ha : p.addTo t j = some a) (hb : p.addTo t k = some b) :
    a ≤ b ↔ j ≤ k := by
  rw [← not_lt, addTo_lt_iff hp ht hb ha, not_lt]

/-- The steps of a grid are where they are: two steps at one instant are one step. -/
theorem addTo_injective {p : Period} {t a : DateTime} {j k : ℤ} (hp : p.isPositive = true)
    (ht : t.nanos < 1000000000) (ha : p.addTo t j = some a) (hb : p.addTo t k = some a) : j = k := by
  have h1 := (addTo_le_iff hp ht ha hb).mp le_rfl
  have h2 := (addTo_le_iff hp ht hb ha).mp le_rfl
  omega

/-- A grid starts at its anchor. -/
theorem le_addTo {p : Period} {t a : DateTime} {k : ℤ} (hp : p.isPositive = true)
    (ht : t.nanos < 1000000000) (hk : 0 ≤ k) (ha : p.addTo t k = some a) : t ≤ a :=
  (addTo_le_iff hp ht (addTo_zero ht) ha).mpr hk

/-- The month of a calendar grid's step. -/
theorem monthIndex_addTo {m : I32} {t a : DateTime} {k : ℤ} (ha : (months m).addTo t k = some a) :
    a.monthIndex = t.monthIndex + m.1 * k := by
  obtain ⟨hsecs, -⟩ := addTo_months ha
  have hd1 : 1 ≤ t.date.day := (daysOfCivil_civilOfDays (t.secs / 86400)).2.2.2.1
  have hpos := daysInMonth_pos ((t.monthIndex + m.1 * k) / 12) ((t.monthIndex + m.1 * k) % 12 + 1)
  have hnext := monthStart_succ (t.monthIndex + m.1 * k)
  have hday : a.secs / 86400 = t.dayAfter (m.1 * k) := by omega
  unfold dayAfter at hday
  apply monthIndex_eq <;> omega

/-! ### The index of a grid point -/

/-- An index found is that of the instant. -/
theorem stepsBetween_ok {p : Period} {start at_ : DateTime} {k : ℕ}
    (h : p.stepsBetween start at_ = .ok k) : p.addTo start k = some at_ := by
  have key : ∀ step delta : ℤ,
      (if step ≤ 0 then Except.error notPositive
        else if delta < 0 ∨ delta % step ≠ 0 then .error (p.offGrid start at_ "not aligned to")
        else if p.addTo start (delta / step) ≠ some at_ then
          .error (p.offGrid start at_ "not aligned to")
        else .ok (delta / step).toNat : Result ℕ) = .ok k → p.addTo start k = some at_ := by
    intro step delta h
    split at h
    · cases h
    · split at h
      · cases h
      · split at h
        · cases h
        · rename_i hstep hdelta hland
          cases h
          rw [not_not] at hland
          have : 0 ≤ delta / step := Int.ediv_nonneg (by omega) (by omega)
          rw [Int.toNat_of_nonneg this]
          exact hland
  unfold stepsBetween at h
  split at h
  · cases h
  · cases p with
    | fixed d => exact key _ _ h
    | months m => exact key _ _ h

/-- **The index of a grid point.**  On the grid of a positive period the index of a point is found,
although calendar steps are clamped. -/
theorem stepsBetween_eq {p : Period} {start at_ : DateTime} {k : ℕ} (hp : p.isPositive = true)
    (ht : start.nanos < 1000000000) (h : p.addTo start k = some at_) :
    p.stepsBetween start at_ = .ok k := by
  have hle : ¬ at_ < start := not_lt.mpr (le_addTo hp ht (by omega) h)
  have key : ∀ step delta : ℤ, 0 < step → delta = step * k →
      (if step ≤ 0 then Except.error notPositive
        else if delta < 0 ∨ delta % step ≠ 0 then .error (p.offGrid start at_ "not aligned to")
        else if p.addTo start (delta / step) ≠ some at_ then
          .error (p.offGrid start at_ "not aligned to")
        else .ok (delta / step).toNat : Result ℕ) = .ok k := by
    intro step delta hstep hdelta
    have hquot : delta / step = k := by
      rw [hdelta]
      exact Int.mul_ediv_cancel_left _ hstep.ne'
    have hrem : delta % step = 0 := by
      rw [hdelta]
      exact Int.mul_emod_right _ _
    have hnonneg : 0 ≤ delta := by
      rw [hdelta]
      exact Int.mul_nonneg hstep.le (by omega)
    rw [if_neg (by omega), if_neg (by omega), hquot, if_neg (by rw [not_not]; exact h)]
    rfl
  unfold stepsBetween
  rw [if_neg hle]
  cases p with
  | fixed d =>
    obtain ⟨hd, -⟩ := isPositive_fixed hp
    obtain ⟨htotal, hnanos⟩ := addTo_fixed ht h
    apply key _ _ hd
    rw [millisSince_eq hnanos ht, htotal, add_sub_cancel_left]
    exact Int.mul_tdiv_cancel _ (by omega)
  | months m =>
    apply key _ _ (isPositive_months hp)
    rw [monthsBetween_eq, monthIndex_addTo h]
    omega

/-- An instant has an index exactly when it is a point of the grid. -/
theorem stepsBetween_iff {p : Period} {start at_ : DateTime} {k : ℕ} (hp : p.isPositive = true)
    (ht : start.nanos < 1000000000) :
    p.stepsBetween start at_ = .ok k ↔ p.addTo start k = some at_ :=
  ⟨stepsBetween_ok, stepsBetween_eq hp ht⟩

/-! ### Rounding an instant onto a grid -/

theorem stepDown_le (p : Period) (start at_ : DateTime) (k : ℕ) : p.stepDown start at_ k ≤ k := by
  induction k with
  | zero => exact le_rfl
  | succ k ih =>
    rw [stepDown]
    split
    · omega
    · exact le_rfl

/-- Stepping down from anywhere ends at a point that is not past the instant. -/
theorem stepDown_spec {p : Period} {start at_ : DateTime} (ht : start.nanos < 1000000000)
    (hle : start ≤ at_) (k : ℕ) : ∃ t, p.addTo start (p.stepDown start at_ k) = some t ∧ t ≤ at_ := by
  induction k with
  | zero => exact ⟨start, addTo_zero ht, hle⟩
  | succ k ih =>
    rw [stepDown]
    cases hadd : p.addTo start ((k + 1 : ℕ) : ℤ) with
    | none => exact ih
    | some t =>
      rw [Option.all_some]
      split
      · exact ih
      · rename_i hlt
        exact ⟨t, hadd, by simpa using hlt⟩

/-- Stepping up ends at a point whose next is past the instant, once the turns outnumber the months
between. -/
theorem stepUp_spec {m : I32} {start at_ : DateTime} (hm : 0 < m.1) (fuel : ℕ) {k : ℕ}
    (hfuel : DateTime.monthsBetween start at_ < k + fuel)
    (hk : ∃ t, (months m).addTo start k = some t ∧ t ≤ at_) :
    (∃ t, (months m).addTo start ((months m).stepUp start at_ fuel k : ℕ) = some t ∧ t ≤ at_) ∧
      ∀ t, (months m).addTo start (((months m).stepUp start at_ fuel k + 1 : ℕ) : ℤ) = some t →
        at_ < t := by
  have hmonths : ∀ {j : ℕ} {t : DateTime}, (months m).addTo start j = some t → t ≤ at_ →
      (j : ℤ) ≤ DateTime.monthsBetween start at_ := by
    intro j t hj hle
    have h1 := monthIndex_mono hle
    have h2 : (j : ℤ) ≤ m.1 * j := le_mul_of_one_le_left (by omega) (by omega)
    rw [monthIndex_addTo hj] at h1
    rw [monthsBetween_eq]
    omega
  induction fuel generalizing k with
  | zero =>
    obtain ⟨t, hadd, hle⟩ := hk
    have := hmonths hadd hle
    omega
  | succ fuel ih =>
    rw [stepUp]
    cases hadd : (months m).addTo start ((k + 1 : ℕ) : ℤ) with
    | none =>
      rw [Option.any_none, if_neg Bool.false_ne_true, hadd]
      exact ⟨hk, fun t h => by cases h⟩
    | some t =>
      rw [Option.any_some]
      split
      · rename_i hle
        exact ih (by omega) ⟨t, hadd, of_decide_eq_true hle⟩
      · rename_i hlt
        rw [hadd]
        refine ⟨hk, fun t' h => ?_⟩
        cases h
        simpa using hlt

/-- Whether a bound is one the difference of a period's grid orders as the clock does: any for a
calendar period, and any but a leap second for a fixed one. -/
def Clocked (p : Period) (at_ : DateTime) : Prop := at_.nanos < 1000000000 ∨ p.isIrregular = true

instance (p : Period) (at_ : DateTime) : Decidable (p.Clocked at_) :=
  inferInstanceAs (Decidable (_ ∨ _))

/-- The floor of an instant on a grid is a point at or before it, and the next point is after it. -/
theorem floorSteps_spec {p : Period} {start at_ : DateTime} (hp : p.isPositive = true)
    (ht : start.nanos < 1000000000) (hat : p.Clocked at_) :
    (∃ t, p.addTo start (p.floorSteps start at_) = some t ∧ (start ≤ at_ → t ≤ at_)) ∧
      ∀ t, p.addTo start ((p.floorSteps start at_ + 1 : ℕ) : ℤ) = some t → at_ < t := by
  by_cases hle : at_ ≤ start
  · have hzero : p.floorSteps start at_ = 0 := by
      unfold floorSteps
      rw [if_pos hle]
    rw [hzero]
    refine ⟨⟨start, addTo_zero ht, id⟩, fun t h => ?_⟩
    exact lt_of_le_of_lt hle (addTo_lt hp ht (by omega) (addTo_zero ht) h)
  · have hlt : start < at_ := not_le.mp hle
    cases p with
    | fixed d =>
      obtain ⟨hd, -⟩ := isPositive_fixed hp
      have hnanos : at_.nanos < 1000000000 := hat.resolve_right (by simp [isIrregular])
      have hfloor : (fixed d).floorSteps start at_ =
          ((at_.total - start.total) / 1000000 / d.numMilliseconds).toNat := by
        have htotal := (lt_iff_total ht hnanos).mp hlt
        unfold floorSteps
        rw [if_neg hle]
        simp only
        have hmillis : (at_.total - start.total).tdiv 1000000 = (at_.total - start.total) / 1000000 :=
          Int.tdiv_eq_ediv_of_nonneg (by omega)
        rw [if_neg (by omega), millisSince_eq hnanos ht, hmillis,
          Int.tdiv_eq_ediv_of_nonneg (by omega)]
      obtain ⟨q, hq⟩ : ∃ q, (at_.total - start.total) / 1000000 / d.numMilliseconds = q := ⟨_, rfl⟩
      have htotal := (lt_iff_total ht hnanos).mp hlt
      have hq0 : 0 ≤ q := by
        rw [← hq]
        exact Int.ediv_nonneg (by omega) hd.le
      have hlow : d.numMilliseconds * q ≤ (at_.total - start.total) / 1000000 := by
        rw [← hq]
        exact Int.mul_ediv_self_le hd.ne'
      have hhigh : (at_.total - start.total) / 1000000 < d.numMilliseconds * (q + 1) := by
        rw [← hq, mul_add, mul_one]
        exact Int.lt_mul_ediv_self_add hd
      rw [hfloor, hq]
      constructor
      · have h0 : 0 ≤ d.numMilliseconds * q := Int.mul_nonneg hd.le hq0
        obtain ⟨t, htt, htn⟩ := exists_total (a := start) hnanos
          (v := start.total + d.numMilliseconds * q * 1000000) (by omega) (by omega)
        refine ⟨t, (addTo_fixed_iff ht).mpr ⟨?_, htn⟩, fun _ => (le_iff_total htn hnanos).mpr ?_⟩
        · rw [htt, Int.toNat_of_nonneg hq0]
        · omega
      · intro t h
        obtain ⟨htt, htn⟩ := addTo_fixed ht h
        rw [Nat.cast_add, Int.toNat_of_nonneg hq0, Nat.cast_one] at htt
        exact (lt_iff_total hnanos htn).mpr (by omega)
    | months m =>
      have hm := isPositive_months hp
      have hfloor : (months m).floorSteps start at_ =
          (months m).stepUp start at_ ((DateTime.monthsBetween start at_).toNat + 1)
            ((months m).stepDown start at_
              (max ((DateTime.monthsBetween start at_).tdiv m.1) 0).toNat) := by
        unfold floorSteps
        rw [if_neg hle]
        simp only
        rw [if_neg (by omega)]
      rw [hfloor]
      obtain ⟨h1, h2⟩ := stepUp_spec hm ((DateTime.monthsBetween start at_).toNat + 1)
        (by omega) (stepDown_spec (p := months m) ht hlt.le
          (max ((DateTime.monthsBetween start at_).tdiv m.1) 0).toNat)
      obtain ⟨t, hadd, hta⟩ := h1
      exact ⟨⟨t, hadd, fun _ => hta⟩, h2⟩

/-- The floor of an instant is at most a step exactly when the step's next point,
if there is one, is after the instant. -/
theorem floorSteps_le_iff {p : Period} {start at_ : DateTime} (hp : p.isPositive = true)
    (ht : start.nanos < 1000000000) (hat : p.Clocked at_) (k : ℕ) :
    p.floorSteps start at_ ≤ k ↔ ∀ t, p.addTo start ((k + 1 : ℕ) : ℤ) = some t → at_ < t := by
  obtain ⟨⟨f, hf, hfle⟩, hnext⟩ := floorSteps_spec hp ht hat
  constructor
  · intro hk t h
    obtain ⟨u, hu⟩ := addTo_of_le hp ht (j := ((p.floorSteps start at_ + 1 : ℕ) : ℤ)) (by omega)
      (by omega) h
    exact lt_of_lt_of_le (hnext u hu) ((addTo_le_iff hp ht hu h).mpr (by omega))
  · intro h
    by_contra hlt
    by_cases hle : start ≤ at_
    · obtain ⟨u, hu⟩ := addTo_of_le hp ht (j := ((k + 1 : ℕ) : ℤ)) (by omega) (by omega) hf
      have h1 : u ≤ f := (addTo_le_iff hp ht hu hf).mpr (by omega)
      exact absurd (h u hu) (not_lt.mpr (h1.trans (hfle hle)))
    · have hzero : p.floorSteps start at_ = 0 := by
        unfold floorSteps
        rw [if_pos (not_le.mp hle).le]
      omega

/-- Whether the time elapsed since its anchor places a bound among the first `length` steps of a grid
as the clock does.  Only a leap second's may not, and only for a fixed period, which divides it. -/
def Places (p : Period) (start at_ : DateTime) (length : ℕ) : Prop :=
  match p with
  | fixed d => start < at_ → ∀ k < length,
      ((k + 1 : ℕ) * d.numMilliseconds ≤ at_.millisSince start ↔
        (((fixed d).addTo start ((k + 1 : ℕ) : ℤ)).any fun t => t ≤ at_) = true)
  | months _ => True

instance (p : Period) (start at_ : DateTime) (length : ℕ) : Decidable (p.Places start at_ length) :=
  match p with
  | fixed _ => inferInstanceAs (Decidable (_ → ∀ _ < _, (_ ↔ _)))
  | months _ => inferInstanceAs (Decidable True)

theorem addTo_any_iff {p : Period} {start at_ : DateTime} {k : ℤ} :
    ((p.addTo start k).any fun t => t ≤ at_) = true ↔ ∃ t, p.addTo start k = some t ∧ t ≤ at_ := by
  rw [Option.any_eq_true]
  simp only [decide_eq_true_eq]

/-- The count of whole steps in a span, for a fixed period. -/
theorem lt_floorSteps_fixed {d : Duration} {start at_ : DateTime} (hd : 0 < d.numMilliseconds)
    (hlt : start < at_) (k : ℕ) : k < (fixed d).floorSteps start at_ ↔
      (k + 1 : ℕ) * d.numMilliseconds ≤ at_.millisSince start := by
  have hfloor : (fixed d).floorSteps start at_ =
      ((at_.millisSince start).tdiv d.numMilliseconds).toNat := by
    unfold floorSteps
    rw [if_neg (not_le.mpr hlt)]
    simp only
    rw [if_neg (by omega)]
  rw [hfloor]
  rcases lt_or_ge (at_.millisSince start) 0 with hneg | hnn
  · have h1 : 0 ≤ (-at_.millisSince start).tdiv d.numMilliseconds :=
      Int.tdiv_nonneg (by omega) hd.le
    rw [Int.neg_tdiv] at h1
    have h2 : 0 ≤ ((k + 1 : ℕ) : ℤ) * d.numMilliseconds := Int.mul_nonneg (by omega) hd.le
    omega
  · rw [Int.tdiv_eq_ediv_of_nonneg hnn, ← Int.le_ediv_iff_mul_le hd]
    omega

/-- **Rounding down.**  A step is below the floor of a bound that is placed exactly when the next
point is at or before the bound. -/
theorem lt_floorSteps_iff {p : Period} {start at_ : DateTime} {length : ℕ}
    (hp : p.isPositive = true) (ht : start.nanos < 1000000000) (hat : p.Places start at_ length)
    {k : ℕ} (hk : k < length) : k < p.floorSteps start at_ ↔
      ∃ t, p.addTo start ((k + 1 : ℕ) : ℤ) = some t ∧ t ≤ at_ := by
  by_cases hle : at_ ≤ start
  · have hzero : p.floorSteps start at_ = 0 := by
      unfold floorSteps
      rw [if_pos hle]
    rw [hzero]
    refine ⟨fun h => by omega, ?_⟩
    rintro ⟨t, hadd, hta⟩
    have := addTo_lt hp ht (show (0 : ℤ) < ((k + 1 : ℕ) : ℤ) by omega) (addTo_zero ht) hadd
    exact absurd (this.trans_le (hta.trans hle)) (lt_irrefl _)
  · cases p with
    | fixed d =>
      rw [lt_floorSteps_fixed (isPositive_fixed hp).1 (not_le.mp hle),
        hat (not_le.mp hle) k hk, addTo_any_iff]
    | months m =>
      have h := @floorSteps_le_iff _ start at_ hp ht (Or.inr rfl) k
      rw [← not_le, h]
      push Not
      rfl

/-- Any bound is placed but a leap second's on a fixed grid. -/
theorem places_of_clocked {p : Period} {start at_ : DateTime} (hp : p.isPositive = true)
    (ht : start.nanos < 1000000000) (hat : p.Clocked at_) (length : ℕ) :
    p.Places start at_ length := by
  cases p with
  | months m => trivial
  | fixed d =>
    intro hlt k _
    rw [← lt_floorSteps_fixed (isPositive_fixed hp).1 hlt, addTo_any_iff, ← not_le,
      floorSteps_le_iff hp ht hat k]
    push Not
    rfl

/-- **Rounding up.**  A step is below the ceiling of a bound that is placed exactly when its point is
before the bound. -/
theorem lt_ceilSteps_iff {p : Period} {start at_ : DateTime} {length : ℕ} (hp : p.isPositive = true)
    (ht : start.nanos < 1000000000) (hat : p.Places start at_ length) {k : ℕ} (hk : k < length) :
    k < p.ceilSteps start at_ ↔ ∃ t, p.addTo start k = some t ∧ t < at_ := by
  have hfloor : ∀ {j : ℕ}, j < length → (j < p.floorSteps start at_ ↔
      ∃ t, p.addTo start ((j + 1 : ℕ) : ℤ) = some t ∧ t ≤ at_) := lt_floorSteps_iff hp ht hat
  have hbelow : k < p.floorSteps start at_ → ∃ t, p.addTo start k = some t ∧ t < at_ := by
    intro h
    obtain ⟨u, hu, hle⟩ := (hfloor hk).mp h
    obtain ⟨t, hadd⟩ := addTo_of_le hp ht (j := (k : ℤ)) (by omega) (by omega) hu
    exact ⟨t, hadd, lt_of_lt_of_le ((addTo_lt_iff hp ht hadd hu).mpr (by omega)) hle⟩
  unfold ceilSteps
  simp only
  split
  · rename_i hany
    obtain ⟨f, hf, hle⟩ := (Option.any_eq_true _ _).mp hany
    refine ⟨hbelow, ?_⟩
    rintro ⟨t, hadd, hlt⟩
    have : t < f := hlt.trans_le (of_decide_eq_true hle)
    exact_mod_cast (addTo_lt_iff hp ht hadd hf).mp this
  · rename_i hany
    constructor
    · intro h
      rcases Nat.lt_succ_iff_lt_or_eq.mp h with h | h
      · exact hbelow h
      · -- the floor itself, whose point is not at or past the bound
        have hpoint : ∃ t, p.addTo start k = some t := by
          cases k with
          | zero => exact ⟨start, addTo_zero ht⟩
          | succ j =>
            obtain ⟨t, hadd, -⟩ := (hfloor (show j < length by omega)).mp (by omega)
            exact ⟨t, hadd⟩
        obtain ⟨t, hadd⟩ := hpoint
        refine ⟨t, hadd, not_le.mp fun hle => hany ?_⟩
        rw [← h, hadd]
        exact decide_eq_true hle
    · rintro ⟨t, hadd, hlt⟩
      by_contra hk'
      obtain ⟨j, rfl⟩ : ∃ j, k = j + 1 := ⟨k - 1, by omega⟩
      have := (hfloor (show j < length by omega)).mpr ⟨t, hadd, hlt.le⟩
      omega

/-! ### Re-anchoring a run -/

/-- The steps of a fixed grid from one of its own points. -/
theorem addTo_fixed_add {d : Duration} {t a : DateTime} {i j : ℤ} (ht : t.nanos < 1000000000)
    (ha : (fixed d).addTo t i = some a) : (fixed d).addTo a j = (fixed d).addTo t (i + j) := by
  obtain ⟨htotal, hnanos⟩ := addTo_fixed ht ha
  apply Option.ext
  intro b
  rw [addTo_fixed_iff ht, addTo_fixed_iff hnanos, htotal, mul_add, add_mul, add_assoc]

/-- The steps of a calendar grid from one of its own points that keeps the anchor's day. -/
theorem addTo_months_add {m : I32} {t a : DateTime} {i j : ℕ} (hm : 0 ≤ m.1)
    (ha : (months m).addTo t i = some a) (hday : a.date.day = t.date.day) :
    (months m).addTo a j = (months m).addTo t ((i + j : ℕ) : ℤ) := by
  obtain ⟨hsecs, hnanos⟩ := addTo_months ha
  have hindex := monthIndex_addTo ha
  have hi : 0 ≤ m.1 * (i : ℤ) := Int.mul_nonneg hm (by omega)
  have hj : 0 ≤ m.1 * (j : ℤ) := Int.mul_nonneg hm (by omega)
  have hsum : m.1 * ((i + j : ℕ) : ℤ) = m.1 * i + m.1 * j := by
    rw [Nat.cast_add, mul_add]
  have hafter : a.dayAfter (m.1 * j) = t.dayAfter (m.1 * ((i + j : ℕ) : ℤ)) := by
    unfold dayAfter
    rw [hindex, hday, hsum, add_assoc]
  apply Option.ext
  intro b
  rw [addTo_months_iff hj, addTo_months_iff (by omega), hafter, hnanos]
  have : a.secs % 86400 = t.secs % 86400 := by omega
  rw [this]

/-- **Re-anchoring.**  A run is reported anchorable exactly when the grid of its own first point runs
through its points, or that point is not representable. -/
theorem anchorable_iff {p : Period} {initial : DateTime} {offset len : ℕ} (hp : p.isPositive = true)
    (ht : initial.nanos < 1000000000) :
    p.subGridIsAnchorable initial offset len = true ↔
      ∀ anchor, p.addTo initial offset = some anchor →
        ∀ j < len, p.addTo anchor j = p.addTo initial ((offset + j : ℕ) : ℤ) := by
  cases p with
  | fixed d =>
    refine ⟨fun _ anchor ha j _ => ?_, fun _ => rfl⟩
    rw [addTo_fixed_add ht ha, Nat.cast_add]
  | months m =>
    have hm := isPositive_months hp
    have hself : ∀ {anchor : DateTime}, (months m).addTo initial offset = some anchor →
        (months m).addTo anchor (0 : ℕ) = (months m).addTo initial ((offset + 0 : ℕ) : ℤ) := by
      intro anchor ha
      have hn : anchor.nanos < 1000000000 := addTo_nanos ht ha
      rw [Nat.cast_zero, addTo_zero hn, add_zero, ha]
    unfold subGridIsAnchorable
    simp only
    split
    · rename_i hsmall
      refine ⟨fun _ anchor ha j hj => ?_, fun _ => rfl⟩
      rcases hsmall with hzero | hlen
      · rw [hzero, Nat.cast_zero, addTo_zero ht] at ha
        cases ha
        rw [hzero, Nat.zero_add]
      · have hj0 : j = 0 := by omega
        rw [hj0]
        exact hself ha
    · cases ha : (months m).addTo initial offset with
      | none =>
        simp only
        exact ⟨fun _ anchor h => (by cases h), fun _ => trivial⟩
      | some anchor =>
        simp only
        split
        · rename_i hday
          refine ⟨fun _ anchor' h j _ => ?_, fun _ => rfl⟩
          cases h
          exact addTo_months_add hm.le ha hday
        · rw [List.all_eq_true]
          simp only [List.mem_range'_1, decide_eq_true_iff]
          constructor
          · intro h anchor' h' j hj
            cases h'
            cases j with
            | zero => exact hself ha
            | succ j => exact h (j + 1) (by omega)
          · intro h j hj
            exact h anchor rfl j (by omega)

end Period

end InfraStore
