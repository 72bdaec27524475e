import InfraStore.Grid
import Mathlib.Order.Bounds.Basic
import Mathlib.Tactic.IntervalCases

/-!
# The laws of grid arithmetic

What the four functions on a grid compute, on the grid of any positive period.

* `Period.stepUp_ends`, `Period.stepUp_stable`: both correction loops of the floor end;
* `Period.grid_galois`: steps are ordered as their instants, the index of a point is found, and the
  two roundings are the two sides of a Galois connection with the steps;
* `Period.anchorable_exactly`: a run is reported anchorable exactly when the grid of its own first
  point runs through it, from any instant.
-/

namespace InfraStore

namespace DateTime

/-- Going forward from inside a leap second: still inside it, or as many nanoseconds past the second
before it. -/
theorem addSigned_leap_iff {t a : DateTime} {d : Duration} (ht : 1000000000 ≤ t.nanos)
    (hd : 0 ≤ d.nanos) : t.addSigned d = some a ↔
      (t.nanos + d.nanos < 2000000000 ∧ a.secs = t.secs ∧ (a.nanos : ℤ) = t.nanos + d.nanos) ∨
        (2000000000 ≤ t.nanos + d.nanos ∧ a.total = t.total - 1000000000 + d.nanos ∧
          a.nanos < 1000000000) := by
  have hdiv := Int.mul_tdiv_add_tmod d.nanos 1000000000
  have hs : 0 ≤ d.nanos.tdiv 1000000000 := Int.tdiv_nonneg hd (by omega)
  have hf : 0 ≤ d.nanos.tmod 1000000000 := Int.tmod_nonneg _ hd
  have hf' : d.nanos.tmod 1000000000 < 1000000000 := Int.tmod_lt_of_pos _ (by omega)
  have hav := a.valid
  have htv := t.valid
  unfold addSigned
  simp only
  generalize d.nanos.tdiv 1000000000 = s at hdiv hs ⊢
  generalize d.nanos.tmod 1000000000 = f at hdiv hf hf' ⊢
  by_cases hinside : t.nanos + d.nanos < 2000000000
  · have hzero : s = 0 := by omega
    rw [if_pos ⟨ht, by omega, by omega⟩]
    constructor
    · intro h
      obtain ⟨h1, h2⟩ := mk?_eq_some h
      exact Or.inl ⟨hinside, h1, by omega⟩
    · rintro (⟨-, h1, h2⟩ | ⟨h, -⟩)
      · rw [← h1, show (t.nanos + f).toNat = a.nanos by omega]
        exact dif_pos hav
      · omega
  · have hescape : s > 0 ∨ (f > 0 ∧ (t.nanos : ℤ) ≥ 2000000000 - f) := by omega
    rw [if_neg (fun h => h.2.1 hescape), if_pos ht, if_pos hescape]
    simp only
    constructor
    · intro h
      obtain ⟨h1, h2⟩ := mk?_eq_some h
      refine Or.inr ⟨by omega, ?_, by omega⟩
      unfold total
      omega
    · rintro (⟨h, -⟩ | ⟨-, h1, h2⟩)
      · omega
      · unfold total at h1
        rw [show ((t.secs + s) * 1000000000 + ((t.nanos : ℤ) - 1000000000 + f)) / 1000000000 = a.secs
          by omega, show (((t.secs + s) * 1000000000 + ((t.nanos : ℤ) - 1000000000 + f)) %
            1000000000).toNat = a.nanos by omega]
        exact dif_pos hav

end DateTime

namespace Period

open DateTime

/-! ### Steps from a leap second -/

/-- A whole number of milliseconds forward, if the span and the instant are representable. -/
theorem addTo_fixed_eq {d : Duration} {t a : DateTime} {k : ℤ} (h0 : 0 ≤ d.numMilliseconds * k) :
    (fixed d).addTo t k = some a ↔
      ∃ span : Duration, span.nanos = d.numMilliseconds * k * 1000000 ∧ t.addSigned span = some a := by
  rw [addTo]
  constructor
  · intro h
    obtain ⟨total, htotal, h⟩ := Option.bind_eq_some_iff.mp h
    obtain ⟨span, hspan, h⟩ := Option.bind_eq_some_iff.mp h
    unfold checkedI64 at htotal
    unfold Duration.tryMilliseconds at hspan
    split at htotal
    · cases htotal
      split at hspan
      · cases hspan
        exact ⟨_, rfl, h⟩
      · cases hspan
    · cases htotal
  · rintro ⟨span, hspan, h⟩
    have hvalid := span.valid
    have hmax : maxDurationMillis = 9223372036854775807 := rfl
    rw [hspan] at hvalid
    have hfits : fitsI64 (d.numMilliseconds * k) := by
      unfold fitsI64
      omega
    rw [checkedI64, if_pos hfits, Option.bind_some, Duration.tryMilliseconds, dif_pos hvalid,
      Option.bind_some, ← h]
    congr 1
    exact Duration.ext hspan.symm

/-- A grid point stays where it is when no step is taken, leap seconds included. -/
theorem addTo_none {p : Period} {t : DateTime} : p.addTo t 0 = some t := by
  by_cases ht : t.nanos < 1000000000
  · exact addTo_zero ht
  · cases p with
    | fixed d =>
      apply (addTo_fixed_eq (by omega)).mpr
      refine ⟨Duration.zero, by rw [mul_zero]; rfl, ?_⟩
      have hzero : Duration.zero.nanos = 0 := rfl
      have htv := t.valid
      exact (addSigned_leap_iff (by omega) (by omega)).mpr (Or.inl ⟨by omega, rfl, by omega⟩)
    | months m =>
      have hzero : checkedI64 0 = some 0 := if_pos (by decide)
      rw [addTo, mul_zero, hzero]
      rfl

/-- The steps of a fixed grid anchored inside a leap second. -/
theorem addTo_fixed_leap_iff {d : Duration} {t a : DateTime} {k : ℤ} (ht : 1000000000 ≤ t.nanos)
    (h0 : 0 ≤ d.numMilliseconds * k) : (fixed d).addTo t k = some a ↔
      (t.nanos + d.numMilliseconds * k * 1000000 < 2000000000 ∧ a.secs = t.secs ∧
          (a.nanos : ℤ) = t.nanos + d.numMilliseconds * k * 1000000) ∨
        (2000000000 ≤ t.nanos + d.numMilliseconds * k * 1000000 ∧
          a.total = t.total - 1000000000 + d.numMilliseconds * k * 1000000 ∧
            a.nanos < 1000000000) := by
  rw [addTo_fixed_eq h0]
  constructor
  · rintro ⟨span, hspan, h⟩
    rw [← hspan]
    exact (addSigned_leap_iff ht (by omega)).mp h
  · intro h
    have hav := a.valid
    have htv := t.valid
    have hmin : minSecs = -8334601228800 := rfl
    have hmax : maxSecs = 8210266876799 := rfl
    have hlong : maxDurationMillis = 9223372036854775807 := rfl
    have hvalid : (d.numMilliseconds * k * 1000000).natAbs ≤ maxDurationMillis * 1000000 := by
      unfold total at h
      omega
    exact ⟨⟨_, hvalid⟩, rfl, (addSigned_leap_iff ht (by simp only; omega)).mpr h⟩

/-- The steps of a fixed grid from one of its own later points, whatever instant it is anchored at. -/
theorem addTo_fixed_forward {d : Duration} {t a : DateTime} {i j : ℕ} (hd : 0 ≤ d.numMilliseconds)
    (ha : (fixed d).addTo t i = some a) :
    (fixed d).addTo a j = (fixed d).addTo t ((i + j : ℕ) : ℤ) := by
  by_cases ht : t.nanos < 1000000000
  · rw [addTo_fixed_add ht ha, Nat.cast_add]
  · have hi : 0 ≤ d.numMilliseconds * (i : ℤ) := Int.mul_nonneg hd (by omega)
    have hj : 0 ≤ d.numMilliseconds * (j : ℤ) := Int.mul_nonneg hd (by omega)
    have hsum : d.numMilliseconds * ((i + j : ℕ) : ℤ) =
        d.numMilliseconds * i + d.numMilliseconds * j := by
      rw [Nat.cast_add, mul_add]
    apply Option.ext
    intro b
    rw [addTo_fixed_leap_iff (t := t) (k := ((i + j : ℕ) : ℤ)) (by omega) (by omega), hsum]
    rcases (addTo_fixed_leap_iff (by omega) hi).mp ha with ⟨hin, hsecs, hnanos⟩ | ⟨hout, htotal, hnanos⟩
    · -- the first run stays inside the leap second
      rw [addTo_fixed_leap_iff (by omega) hj]
      unfold total
      omega
    · rw [addTo_fixed_iff hnanos]
      unfold total at htotal ⊢
      omega

/-! ### Re-anchoring a run -/

/-- **The shortcut.**  From a point that kept the anchor's day of the month, every later point of a
grid is the anchor's, for month steps of any size and runs of any length. -/
theorem addTo_of_same_day {p : Period} {t a : DateTime} {i : ℕ} (hp : p.isPositive = true)
    (ha : p.addTo t i = some a) (hday : a.date.day = t.date.day) (j : ℕ) :
    p.addTo a j = p.addTo t ((i + j : ℕ) : ℤ) := by
  cases p with
  | fixed d => exact addTo_fixed_forward (isPositive_fixed hp).1.le ha
  | months m => exact addTo_months_add (isPositive_months hp).le ha hday

/-- A run is reported anchorable exactly when the grid of its own first point runs through its points,
or that point is not representable. -/
theorem subGridIsAnchorable_iff {p : Period} {initial : DateTime} {offset len : ℕ}
    (hp : p.isPositive = true) : p.subGridIsAnchorable initial offset len = true ↔
      ∀ anchor, p.addTo initial offset = some anchor →
        ∀ j < len, p.addTo anchor j = p.addTo initial ((offset + j : ℕ) : ℤ) := by
  have hself : ∀ {anchor : DateTime}, p.addTo initial offset = some anchor →
      p.addTo anchor (0 : ℕ) = p.addTo initial ((offset + 0 : ℕ) : ℤ) := by
    intro anchor ha
    rw [Nat.cast_zero, addTo_none, add_zero, ha]
  cases p with
  | fixed d =>
    constructor
    · intro _ anchor ha j _
      exact addTo_fixed_forward (isPositive_fixed hp).1.le ha
    · intro _
      rfl
  | months m =>
    unfold subGridIsAnchorable
    simp only
    split
    · rename_i hsmall
      constructor
      · intro _ anchor ha j hj
        cases hsmall with
        | inl hzero =>
          rw [hzero, Nat.cast_zero, addTo_none] at ha
          cases ha
          rw [hzero, Nat.zero_add]
        | inr hlen =>
          rw [show j = 0 by omega]
          exact hself ha
      · intro _
        rfl
    · cases ha : (months m).addTo initial offset with
      | none => simp
      | some anchor =>
        simp only
        split
        · rename_i hday
          constructor
          · intro _ anchor' h j _
            cases h
            exact addTo_of_same_day hp ha hday j
          · intro _
            rfl
        · rw [List.all_eq_true]
          simp only [List.mem_range'_1, decide_eq_true_iff]
          constructor
          · intro h anchor' h' j hj
            cases h'
            cases j with
            | zero => exact hself ha
            | succ j => exact h (j + 1) (by omega)
          · intro h j hj
            exact h anchor rfl j (by omega)

/-- **Anchorability is exact.**  Where the points of a run are representable, the run is reported
anchorable exactly when advancing its first point reaches each of them; an unchanged day of the month
settles it for good. -/
theorem anchorable_exactly {p : Period} {initial : DateTime} {offset len : ℕ}
    (hp : p.isPositive = true)
    (hrun : ∀ j < len, ∃ t, p.addTo initial ((offset + j : ℕ) : ℤ) = some t) :
    (p.subGridIsAnchorable initial offset len = true ↔
      ∀ j < len, ((p.addTo initial offset).bind fun anchor => p.addTo anchor j) =
        p.addTo initial ((offset + j : ℕ) : ℤ)) ∧
    (∀ anchor, p.addTo initial offset = some anchor → anchor.date.day = initial.date.day →
      ∀ j : ℕ, p.addTo anchor j = p.addTo initial ((offset + j : ℕ) : ℤ)) := by
  constructor
  · rw [subGridIsAnchorable_iff hp]
    constructor
    · intro h j hj
      obtain ⟨anchor, ha⟩ := hrun 0 (by omega)
      rw [add_zero] at ha
      rw [ha, Option.bind_some]
      exact h anchor ha j hj
    · intro h anchor ha j hj
      have := h j hj
      rwa [ha, Option.bind_some] at this
  · intro anchor ha hday j
    exact addTo_of_same_day hp ha hday j

/-! ### The correction loops -/

/-- Stepping down stops at the anchor, or at a point that is representable and not past the instant. -/
theorem stepDown_ends (p : Period) (start at_ : DateTime) (k : ℕ) :
    p.stepDown start at_ k = 0 ∨
      ((p.addTo start (p.stepDown start at_ k)).all fun t => at_ < t) = false := by
  induction k with
  | zero => exact Or.inl rfl
  | succ k ih =>
    rw [stepDown]
    split
    · exact ih
    · rename_i hstay
      exact Or.inr (Bool.not_eq_true _ ▸ hstay)

/-- A step of a calendar grid that is not past an instant is no more than the months between. -/
theorem step_le_monthsBetween {m : I32} {start at_ : DateTime} (hm : 0 < m.1) {k : ℕ}
    (h : (((months m).addTo start k).any fun t => t ≤ at_) = true) :
    (k : ℤ) ≤ monthsBetween start at_ := by
  obtain ⟨t, hadd, hle⟩ := addTo_any_iff.mp h
  have hmonth := monthIndex_mono hle
  have hk : (k : ℤ) ≤ m.1 * k := le_mul_of_one_le_left (by omega) (by omega)
  rw [monthIndex_addTo hadd] at hmonth
  rw [monthsBetween_eq]
  omega

/-- Stepping up stops before a point that is past the instant or not representable, once the turns
outnumber the months between. -/
theorem stepUp_ends {m : I32} {start at_ : DateTime} (hm : 0 < m.1) (fuel : ℕ) {k : ℕ}
    (hfuel : monthsBetween start at_ < k + fuel) :
    (((months m).addTo start (((months m).stepUp start at_ fuel k + 1 : ℕ) : ℤ)).any
      fun t => t ≤ at_) = false := by
  induction fuel generalizing k with
  | zero =>
    rw [stepUp, ← Bool.not_eq_true]
    intro h
    have := step_le_monthsBetween hm h
    omega
  | succ fuel ih =>
    rw [stepUp]
    split
    · exact ih (by omega)
    · rename_i hstay
      exact Bool.not_eq_true _ ▸ hstay

/-- A loop that has stopped is not changed by more turns. -/
theorem stepUp_stable {p : Period} {start at_ : DateTime} (fuel more : ℕ) {k : ℕ}
    (h : ((p.addTo start ((p.stepUp start at_ fuel k + 1 : ℕ) : ℤ)).any fun t => t ≤ at_) = false) :
    p.stepUp start at_ (fuel + more) k = p.stepUp start at_ fuel k := by
  induction fuel generalizing k with
  | zero =>
    rw [stepUp] at h
    cases more with
    | zero => rfl
    | succ more => rw [zero_add, stepUp, stepUp, h, if_neg Bool.false_ne_true]
  | succ fuel ih =>
    rw [Nat.add_right_comm, stepUp, stepUp]
    rw [stepUp] at h
    split
    · rename_i hgo
      rw [if_pos hgo] at h
      exact ih h
    · rfl

/-! ### The steps of a grid and its instants -/

/-- How the steps of a grid and the instants correspond. -/
structure Galois (p : Period) (start at_ : DateTime) : Prop where
  /-- Later steps are later instants. -/
  increasing : ∀ (j k : ℤ) (a b : DateTime), p.addTo start j = some a → p.addTo start k = some b →
    (a < b ↔ j < k)
  /-- The index found is that of the instant, and is found. -/
  index : ∀ k : ℕ, p.stepsBetween start at_ = .ok k ↔ start ≤ at_ ∧ p.addTo start k = some at_
  /-- The floor is the greatest step whose point is not past the instant. -/
  floor : start ≤ at_ →
    IsGreatest {k : ℕ | ∃ t, p.addTo start k = some t ∧ t ≤ at_} (p.floorSteps start at_)
  /-- The ceiling is the least step whose point is not before the instant, if one is representable. -/
  ceil : start ≤ at_ → (∃ (k : ℕ) (t : DateTime), p.addTo start k = some t ∧ at_ ≤ t) →
    IsLeast {k : ℕ | ∃ t, p.addTo start k = some t ∧ at_ ≤ t} (p.ceilSteps start at_)
  /-- A step is at or past the ceiling exactly when its point is not before the instant. -/
  separates : ∀ k : ℕ, p.ceilSteps start at_ ≤ k ↔ ∀ t, p.addTo start k = some t → at_ ≤ t
  /-- Up to the anchor both are the anchor's. -/
  before : at_ ≤ start → p.floorSteps start at_ = 0 ∧ p.ceilSteps start at_ = 0

theorem ceilSteps_le_iff {p : Period} {start at_ : DateTime} (hp : p.isPositive = true)
    (ht : start.nanos < 1000000000) (hat : p.Clocked at_) (k : ℕ) :
    p.ceilSteps start at_ ≤ k ↔ ∀ t, p.addTo start k = some t → at_ ≤ t := by
  have h := lt_ceilSteps_iff hp ht (places_of_clocked hp ht hat (k + 1)) (Nat.lt_succ_self k)
  rw [← not_lt, h]
  push Not
  rfl

/-- Where a step's point is at or past an instant, so is the ceiling's. -/
theorem ceilSteps_point {p : Period} {start at_ : DateTime} (hp : p.isPositive = true)
    (ht : start.nanos < 1000000000) (hat : p.Clocked at_) {k : ℕ} {t : DateTime}
    (h : p.addTo start k = some t) (hle : at_ ≤ t) :
    ∃ u, p.addTo start (p.ceilSteps start at_) = some u ∧ at_ ≤ u := by
  have hk : p.ceilSteps start at_ ≤ k := by
    apply (ceilSteps_le_iff hp ht hat k).mpr
    intro t' h'
    rw [h] at h'
    cases h'
    exact hle
  obtain ⟨u, hu⟩ := addTo_of_le hp ht (j := (p.ceilSteps start at_ : ℤ)) (by omega) (by omega) h
  exact ⟨u, hu, (ceilSteps_le_iff hp ht hat _).mp le_rfl u hu⟩

theorem floorSteps_ceilSteps_before {p : Period} {start at_ : DateTime} (h : at_ ≤ start) :
    p.floorSteps start at_ = 0 ∧ p.ceilSteps start at_ = 0 := by
  have hfloor : p.floorSteps start at_ = 0 := by
    unfold floorSteps
    rw [if_pos h]
  constructor
  · exact hfloor
  · unfold ceilSteps
    simp only
    rw [hfloor, Nat.cast_zero, addTo_none, Option.any_some, decide_eq_true h, if_pos rfl]

/-- **The steps of a grid and its instants correspond**, on the grid of every positive period, month
ends, leap days and sub-millisecond phases included; and both correction loops of the floor end. -/
theorem grid_galois {p : Period} (hp : p.isPositive = true) :
    (∀ start at_ : DateTime, start.nanos < 1000000000 → at_.nanos < 1000000000 →
      p.Galois start at_) ∧
    (∀ (start at_ : DateTime) (k : ℕ), p.stepDown start at_ k = 0 ∨
      ((p.addTo start (p.stepDown start at_ k)).all fun t => at_ < t) = false) ∧
    (∀ (m : I32) (start at_ : DateTime) (k : ℕ), p = months m →
      ∃ turns, ∀ fuel, turns ≤ fuel →
        p.stepUp start at_ fuel k = p.stepUp start at_ ((monthsBetween start at_).toNat + 1) k ∧
        ((p.addTo start ((p.stepUp start at_ fuel k + 1 : ℕ) : ℤ)).any fun t => t ≤ at_) = false) := by
  refine ⟨?_, stepDown_ends p, ?_⟩
  · intro start at_ ht hnanos
    have hat : p.Clocked at_ := Or.inl hnanos
    refine
      { increasing := fun j k a b ha hb => addTo_lt_iff hp ht ha hb
        index := ?_
        floor := ?_
        ceil := ?_
        separates := ceilSteps_le_iff hp ht hat
        before := floorSteps_ceilSteps_before }
    · intro k
      rw [stepsBetween_iff hp ht]
      constructor
      · intro h
        exact ⟨le_addTo hp ht (by omega) h, h⟩
      · intro h
        exact h.2
    · intro hle
      obtain ⟨⟨f, hf, hfle⟩, hnext⟩ := floorSteps_spec hp ht hat
      constructor
      · exact ⟨f, hf, hfle hle⟩
      · rintro k ⟨t, hk, htk⟩
        by_contra hlt
        obtain ⟨u, hu⟩ := addTo_of_le hp ht (j := ((p.floorSteps start at_ + 1 : ℕ) : ℤ)) (by omega)
          (by omega) hk
        have hle' : u ≤ t := (addTo_le_iff hp ht hu hk).mpr (by omega)
        exact absurd (hnext u hu) (not_lt.mpr (hle'.trans htk))
    · rintro - ⟨k, t, hk, hle⟩
      constructor
      · exact ceilSteps_point hp ht hat hk hle
      · rintro j ⟨u, hj, hju⟩
        apply (ceilSteps_le_iff hp ht hat j).mpr
        intro t' h'
        rw [hj] at h'
        cases h'
        exact hju
  · rintro m start at_ k rfl
    have hm := isPositive_months hp
    refine ⟨(monthsBetween start at_).toNat + 1, ?_⟩
    intro fuel hfuel
    have hstop := stepUp_ends hm ((monthsBetween start at_).toNat + 1) (k := k)
      (show monthsBetween start at_ < _ by omega)
    have hsame := stepUp_stable _ (fuel - ((monthsBetween start at_).toNat + 1)) hstop
    rw [Nat.add_sub_cancel' hfuel] at hsame
    rw [hsame]
    exact ⟨rfl, hstop⟩

namespace Sample

/-- 2024-01-31T00:00:00Z. -/
def january31 : DateTime := ⟨1706659200, 0, by decide⟩

/-- 2024-02-29T00:00:00Z. -/
def february29 : DateTime := ⟨1709164800, 0, by decide⟩

def monthly : Period := months ⟨1, by decide⟩

theorem grid_galois_monthly : monthly.Galois january31 february29 :=
  (grid_galois (by decide)).1 _ _ (by decide) (by decide)

/-- Monthly from January 31st, the run from February 29th on cannot be described from it. -/
theorem anchorable_exactly_february :
    (monthly.subGridIsAnchorable january31 1 2 = true ↔
      ∀ j < 2, ((monthly.addTo january31 (1 : ℕ)).bind fun anchor => monthly.addTo anchor (j : ℕ)) =
        monthly.addTo january31 ((1 + j : ℕ) : ℤ)) ∧
    (∀ anchor, monthly.addTo january31 (1 : ℕ) = some anchor →
      anchor.date.day = january31.date.day →
        ∀ j : ℕ, monthly.addTo anchor j = monthly.addTo january31 ((1 + j : ℕ) : ℤ)) := by
  apply anchorable_exactly (by decide)
  intro j hj
  apply Option.isSome_iff_exists.mp
  interval_cases j <;> decide +kernel

example : monthly.subGridIsAnchorable january31 1 2 = false := by decide +kernel

end Sample

end Period

end InfraStore
