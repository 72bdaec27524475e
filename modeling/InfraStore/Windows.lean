import InfraStore.Grid
import InfraStore.ReadPath

/-!
# The windows a range selects

`resolveWindows` against the instants of the windows: what it returns is the run of windows that
start in the range, and it answers exactly for a start that is a window's or precedes them all, where
the run can be described by a grid of its own.

* `StartsIn`: a window starts in a range;
* `resolveWindows_ok`: what a selection holds, which needs no window to be representable;
* `resolveWindows_iff`: when there is one.
-/

namespace InfraStore

open Lib

/-- A window starts in a range of instants. -/
def StartsIn (interval : Period) (initial start stop : DateTime) (k : ℕ) : Prop :=
  ∃ t, interval.addTo initial k = some t ∧ start ≤ t ∧ t < stop

/-- What a write checks of a forecast's windows: an anchor in whole milliseconds, and an interval that
steps, but for at most one window. -/
structure WindowGrid (initial : DateTime) (interval : Period) (count : ℕ) : Prop where
  millis : initial.IsMillis
  interval : interval.isPositive = true ∨ (count ≤ 1 ∧ interval.isZero = true)

/-- The run of `n` windows from `i` on can be described by a grid that starts at its first. -/
def Reanchors (interval : Period) (initial : DateTime) (i n : ℕ) : Prop :=
  ∀ first, interval.addTo initial i = some first →
    ∀ j < n, interval.addTo first j = interval.addTo initial ((i + j : ℕ) : ℤ)

theorem requireAnchorableSlice_ok {period : Period} {initial : DateTime} {offset len : ℕ}
    {name unit : String} :
    requireAnchorableSlice period initial offset len name unit = .ok () ↔
      period.subGridIsAnchorable initial offset len = true := by
  unfold requireAnchorableSlice
  split
  · rename_i h
    exact ⟨fun _ => h, fun _ => rfl⟩
  · rename_i h
    exact ⟨fun h' => (by cases h'), fun h' => absurd h' h⟩

/-- A zero interval steps nowhere. -/
theorem Period.addTo_of_isZero {p : Period} (hp : p.isZero = true) {t : DateTime}
    (ht : t.nanos < 1000000000) (k : ℤ) : p.addTo t k = some t := by
  have hzero : p.addTo t k = p.addTo t 0 := by
    cases p with
    | fixed d =>
      have hd : d.nanos = 0 := of_decide_eq_true hp
      have hms : d.numMilliseconds = 0 := by
        unfold Duration.numMilliseconds
        rw [hd]
        rfl
      rw [addTo, addTo, hms, Int.zero_mul, Int.zero_mul]
    | months m =>
      have hm : m.1 = 0 := of_decide_eq_true hp
      rw [addTo, addTo, hm, Int.zero_mul, Int.zero_mul]
  rw [hzero, addTo_zero ht]

theorem Period.not_isPositive_of_isZero {p : Period} (hp : p.isZero = true) :
    p.isPositive = false := by
  rw [← Bool.not_eq_true]
  intro h
  cases p with
  | fixed d =>
    have hd : d.nanos = 0 := of_decide_eq_true hp
    obtain ⟨h1, h2⟩ := isPositive_fixed h
    omega
  | months m =>
    have hm : m.1 = 0 := of_decide_eq_true hp
    have := isPositive_months h
    omega

section

variable {initial start stop first : DateTime} {interval : Period} {count w0 w1 : ℕ} {name : String}

theorem startsBefore_eq_ok {k : ℕ} {b : Bool} : startsBefore initial interval stop k = .ok b ↔
    ∃ t, interval.addTo initial k = some t ∧ decide (t < stop) = b := by
  unfold startsBefore windowStart
  cases interval.addTo initial k with
  | none =>
    constructor
    · intro h
      cases h
    · rintro ⟨_, h, -⟩
      cases h
  | some t =>
    constructor
    · intro h
      exact ⟨t, rfl, Except.ok.inj h⟩
    · rintro ⟨_, h, h'⟩
      cases h
      exact congrArg Except.ok h'

/-- Window starts increase, so the windows before an instant are the first ones. -/
theorem startsBefore_mono (hp : interval.isPositive = true) (ht : initial.nanos < 1000000000)
    (i j : ℕ) (hij : i ≤ j) (h : startsBefore initial interval stop j = .ok true) :
    startsBefore initial interval stop i = .ok true := by
  obtain ⟨b, hb, hlt⟩ := startsBefore_eq_ok.mp h
  obtain ⟨a, ha⟩ := Period.addTo_of_le hp ht (j := (i : ℤ)) (by omega) (by omega) hb
  have hle : a ≤ b := (Period.addTo_le_iff hp ht ha hb).mpr (by omega)
  exact startsBefore_eq_ok.mpr ⟨a, ha, decide_eq_true (hle.trans_lt (of_decide_eq_true hlt))⟩

/-- Where a selection of a stepping forecast comes from: the window it starts at, and the first from
there on that the range ends before. -/
theorem resolveWindows_stepping (hp : interval.isPositive = true) (hle : start ≤ stop)
    (h : resolveWindows initial interval count (some (start, stop)) name = .ok (w0, w1, first)) :
    ∃ k w, startsAt initial interval start = .ok k ∧ k < count ∧
      lowerBound (startsBefore initial interval stop) count k count = .ok w ∧
      interval.addTo initial k = some first ∧
      (w ≤ k ∧ w0 = 0 ∧ w1 = 0 ∨
        k < w ∧ w0 = k ∧ w1 = w ∧ interval.subGridIsAnchorable initial k (w - k) = true) := by
  unfold resolveWindows at h
  simp only at h
  rw [if_neg (not_lt.mpr hle), hp] at h
  simp only [Bool.not_true, Bool.false_eq_true, if_false] at h
  obtain ⟨k, hk, h⟩ := except_bind_eq_ok.mp h
  split at h
  · cases h
  · rename_i hcount
    obtain ⟨w, hw, h⟩ := except_bind_eq_ok.mp h
    refine ⟨k, w, hk, by omega, hw, ?_⟩
    unfold windowStart at h
    cases hadd : interval.addTo initial k with
    | none =>
      rw [hadd] at h
      split at h
      · cases h
      · obtain ⟨_, -, h⟩ := except_bind_eq_ok.mp h
        cases h
    | some t =>
      rw [hadd] at h
      split at h
      · rename_i hle'
        cases h
        exact ⟨rfl, .inl ⟨hle', rfl, rfl⟩⟩
      · rename_i hlt
        obtain ⟨_, ha, h⟩ := except_bind_eq_ok.mp h
        cases h
        exact ⟨rfl, .inr ⟨by omega, rfl, rfl, requireAnchorableSlice_ok.mp ha⟩⟩

/-- A selection of the one window a forecast without an interval has. -/
theorem resolveWindows_single (hp : interval.isPositive = false) (hle : start ≤ stop)
    (h : resolveWindows initial interval count (some (start, stop)) name = .ok (w0, w1, first)) :
    count = 1 ∧ interval.isZero = true ∧ start ≤ initial ∧ first = initial ∧ w0 = 0 ∧
      w1 = if initial < stop then 1 else 0 := by
  unfold resolveWindows at h
  simp only at h
  rw [if_neg (not_lt.mpr hle), hp] at h
  simp only [Bool.not_false, if_true] at h
  split at h
  · rename_i hone
    split at h
    · cases h
    · rename_i hstart
      split at h
      · rename_i hlt
        cases h
        exact ⟨hone.1, hone.2, not_lt.mp hstart, rfl, rfl, by rw [if_pos hlt]⟩
      · rename_i hlt
        cases h
        exact ⟨hone.1, hone.2, not_lt.mp hstart, rfl, rfl, by rw [if_neg hlt]⟩
  · cases h

/-- The windows from where a range starts on are those that do not start before it. -/
theorem startsAt_le_iff (hp : interval.isPositive = true) (ht : initial.nanos < 1000000000) {k j : ℕ}
    (hk : startsAt initial interval start = .ok k) {t : DateTime}
    (hj : interval.addTo initial j = some t) : k ≤ j ↔ start ≤ t := by
  unfold startsAt at hk
  split at hk
  · rename_i hle
    cases hk
    exact ⟨fun _ => hle.trans (Period.le_addTo hp ht (by omega) hj), fun _ => Nat.zero_le _⟩
  · have hstart := Period.stepsBetween_ok (mapErr_eq_ok.mp hk)
    rw [Period.addTo_le_iff hp ht hstart hj]
    omega

/-- What the search finds: the windows from where the range starts up to it are those that start in
the range. -/
theorem searched_iff (hp : interval.isPositive = true) (ht : initial.nanos < 1000000000) {k w : ℕ}
    (hk : startsAt initial interval start = .ok k) (hcount : k < count)
    (hw : lowerBound (startsBefore initial interval stop) count k count = .ok w) :
    k ≤ w ∧ w ≤ count ∧
      ∀ j, k ≤ j ∧ j < w ↔ j < count ∧ StartsIn interval initial start stop j := by
  obtain ⟨h1, h2, h3, h4⟩ := lowerBound_spec (startsBefore_mono hp ht) (by omega) hcount.le hw
  refine ⟨h1, h2, fun j => ?_⟩
  constructor
  · rintro ⟨hkj, hjw⟩
    obtain ⟨t, hadd, hlt⟩ := startsBefore_eq_ok.mp (h3 j hkj hjw)
    exact ⟨by omega, t, hadd, (startsAt_le_iff hp ht hk hadd).mp hkj, of_decide_eq_true hlt⟩
  · rintro ⟨hj, t, hadd, hstart, hstop⟩
    refine ⟨(startsAt_le_iff hp ht hk hadd).mpr hstart, ?_⟩
    by_contra hwj
    have hyes := startsBefore_mono hp ht w j (by omega)
      (startsBefore_eq_ok.mpr ⟨t, hadd, decide_eq_true hstop⟩)
    rw [h4 (by omega)] at hyes
    cases hyes

/-- **Selections are exact.**  A selection that is answered holds the windows that start in the range
and no others, and its instant is that of the first of them. -/
theorem resolveWindows_ok (hg : WindowGrid initial interval count) (hle : start ≤ stop)
    (h : resolveWindows initial interval count (some (start, stop)) name = .ok (w0, w1, first)) :
    (∀ k, w0 ≤ k ∧ k < w1 ↔ k < count ∧ StartsIn interval initial start stop k) ∧
      (w0 < w1 → interval.addTo initial w0 = some first) ∧ w0 ≤ w1 ∧ w1 ≤ count ∧
      Reanchors interval initial w0 (w1 - w0) := by
  have ht := hg.millis.1
  cases hp : interval.isPositive with
  | true =>
    obtain ⟨k, w, hk, hcount, hw, hfirst, hrun⟩ := resolveWindows_stepping hp hle h
    obtain ⟨h1, h2, hmem⟩ := searched_iff hp ht hk hcount hw
    rcases hrun with ⟨hwk, rfl, rfl⟩ | ⟨hkw, rfl, rfl, hanchor⟩
    · refine ⟨fun j => ⟨fun hj => by omega, fun hj => ?_⟩, fun h => by omega, le_rfl,
        Nat.zero_le _, fun _ _ j hj => by omega⟩
      have := (hmem j).mpr hj
      omega
    · exact ⟨hmem, fun _ => hfirst, h1, h2, (Period.anchorable_iff hp ht).mp hanchor⟩
  | false =>
    obtain ⟨rfl, hzero, hstart, rfl, rfl, rfl⟩ := resolveWindows_single hp hle h
    have hadd := Period.addTo_of_isZero hzero ht
    refine ⟨fun k => ?_, fun _ => hadd _, Nat.zero_le _, by split <;> omega, ?_⟩
    · constructor
      · rintro ⟨-, hk⟩
        split at hk
        · rename_i hlt
          exact ⟨hk, first, hadd k, hstart, hlt⟩
        · omega
      · rintro ⟨hk, t, hadd', -, hlt⟩
        rw [hadd] at hadd'
        cases hadd'
        rw [if_pos hlt]
        exact ⟨Nat.zero_le _, hk⟩
    · intro t hfirst j _
      rw [hadd] at hfirst
      cases hfirst
      rw [hadd, hadd]

/-- A start that is a window's is found. -/
theorem startsAt_iff (hp : interval.isPositive = true) (ht : initial.nanos < 1000000000) :
    (∃ k, startsAt initial interval start = .ok k ∧ k < count) ↔
      0 < count ∧ (start ≤ initial ∨ ∃ k < count, interval.addTo initial (k : ℕ) = some start) := by
  constructor
  · rintro ⟨k, hk, hcount⟩
    refine ⟨by omega, ?_⟩
    unfold startsAt at hk
    split at hk
    · rename_i hle
      exact .inl hle
    · exact .inr ⟨k, hcount, Period.stepsBetween_ok (mapErr_eq_ok.mp hk)⟩
  · rintro ⟨hcount, hstart⟩
    by_cases hle : start ≤ initial
    · exact ⟨0, if_pos hle, hcount⟩
    · obtain ⟨k, hk, hadd⟩ := hstart.resolve_left hle
      refine ⟨k, ?_, hk⟩
      unfold startsAt
      rw [if_neg hle, Period.stepsBetween_eq hp ht hadd]
      rfl

/-- **When a selection is answered.**  Where every window's instant is representable, a range is
answered exactly when it starts at a window or before them all, and the windows that start in it can
be described by a grid of their own. -/
theorem resolveWindows_iff (hg : WindowGrid initial interval count) (hone : 1 ≤ count)
    (hrep : ∀ k < count, ∃ t, interval.addTo initial (k : ℕ) = some t) (hle : start ≤ stop) :
    (∃ r, resolveWindows initial interval count (some (start, stop)) name = .ok r) ↔
      (start ≤ initial ∨ ∃ k < count, interval.addTo initial (k : ℕ) = some start) ∧
        ∀ i n, (∀ k, i ≤ k ∧ k < i + n ↔ k < count ∧ StartsIn interval initial start stop k) →
          Reanchors interval initial i n := by
  have ht := hg.millis.1
  constructor
  · rintro ⟨⟨w0, w1, first⟩, h⟩
    obtain ⟨hmem, -, h01, -, hre⟩ := resolveWindows_ok hg hle h
    constructor
    · cases hp : interval.isPositive with
      | true =>
        obtain ⟨k, w, hk, hcount, -⟩ := resolveWindows_stepping hp hle h
        exact ((startsAt_iff hp ht).mp ⟨k, hk, hcount⟩).2
      | false => exact .inl (resolveWindows_single hp hle h).2.2.1
    · intro i n hrun
      cases n with
      | zero => exact fun _ _ j hj => by omega
      | succ n =>
        -- Two runs with the same windows are the same run.
        have hi := (hmem i).mpr ((hrun i).mp (by omega))
        have hlast := (hmem (i + n)).mpr ((hrun (i + n)).mp (by omega))
        have hw0 := (hrun w0).mpr ((hmem w0).mp (by omega))
        have hw1 := (hrun (w1 - 1)).mpr ((hmem (w1 - 1)).mp (by omega))
        have hii : w0 = i := by omega
        have hnn : w1 - w0 = n + 1 := by omega
        rw [← hii, ← hnn]
        exact hre
  · rintro ⟨hstart, hre⟩
    cases hp : interval.isPositive with
    | true =>
      obtain ⟨k, hk, hcount⟩ := (startsAt_iff hp ht).mpr ⟨by omega, hstart⟩
      obtain ⟨w, hw⟩ : ∃ w, lowerBound (startsBefore initial interval stop) count k count = .ok w :=
        lowerBound_ok fun i _ hi => by
          obtain ⟨t, hadd⟩ := hrep i hi
          exact ⟨_, startsBefore_eq_ok.mpr ⟨t, hadd, rfl⟩⟩
      obtain ⟨t, hadd⟩ := hrep k hcount
      have hresolve : resolveWindows initial interval count (some (start, stop)) name =
          if w ≤ k then .ok (0, 0, t)
          else (requireAnchorableSlice interval initial k (w - k) name "window").bind
            fun _ => .ok (k, w, t) := by
        unfold resolveWindows
        simp only
        rw [if_neg (not_lt.mpr hle), hp]
        simp only [Bool.not_true, Bool.false_eq_true, if_false]
        rw [hk]
        simp only [bind, Except.bind]
        rw [if_neg (by omega), hw]
        unfold windowStart
        rw [hadd]
        rfl
      rw [hresolve]
      split
      · exact ⟨_, rfl⟩
      · rename_i hwk
        obtain ⟨h1, h2, hmem⟩ := searched_iff hp ht hk hcount hw
        have hanchor : interval.subGridIsAnchorable initial k (w - k) = true := by
          refine (Period.anchorable_iff hp ht).mpr (hre k (w - k) fun j => ?_)
          rw [Nat.add_sub_cancel' h1]
          exact hmem j
        rw [requireAnchorableSlice_ok.mpr hanchor]
        exact ⟨_, rfl⟩
    | false =>
      obtain ⟨hcount, hzero⟩ := hg.interval.resolve_left (by rw [hp]; exact Bool.false_ne_true)
      have hstart' : start ≤ initial := by
        rcases hstart with h | ⟨k, -, h⟩
        · exact h
        · rw [Period.addTo_of_isZero hzero ht] at h
          cases h
          exact le_rfl
      unfold resolveWindows
      simp only
      rw [if_neg (not_lt.mpr hle), hp]
      simp only [Bool.not_false, if_true]
      rw [if_pos ⟨by omega, hzero⟩, if_neg (not_lt.mpr hstart')]
      split
      · exact ⟨_, rfl⟩
      · exact ⟨_, rfl⟩

/-- The windows a selection names are windows, and a selection of none is of none from the first on. -/
theorem resolveWindows_bounds {range : Option (DateTime × DateTime)}
    (h : resolveWindows initial interval count range name = .ok (w0, w1, first)) :
    w0 ≤ w1 ∧ w1 ≤ count ∧ (w0 = w1 → w0 = 0) := by
  cases range with
  | none =>
    cases h
    exact ⟨Nat.zero_le _, le_rfl, fun _ => rfl⟩
  | some r =>
    by_cases hle : r.1 ≤ r.2
    · cases hp : interval.isPositive with
      | true =>
        obtain ⟨k, w, -, hcount, hw, -, hrun⟩ := resolveWindows_stepping hp hle h
        have := lowerBound_mem hcount.le hw
        rcases hrun with ⟨-, rfl, rfl⟩ | ⟨hkw, rfl, rfl, -⟩
        · omega
        · omega
      | false =>
        obtain ⟨rfl, -, -, -, rfl, rfl⟩ := resolveWindows_single hp hle h
        split <;> omega
    · rw [resolveWindows, if_pos (not_le.mp hle)] at h
      cases h

/-- A whole read selects every window. -/
theorem resolveWindows_none : resolveWindows initial interval count none name = .ok (0, count, initial) :=
  rfl

end

end InfraStore
