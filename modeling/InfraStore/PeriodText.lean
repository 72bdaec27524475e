import Mathlib.Data.List.TakeWhile
import InfraStore.Calendar

/-!
# Reading periods back

What `Period.fromIso8601` makes of the text `Period.toIso8601` writes.

* `parseI64_toDigits`, `parseComponents_text`: numbers, and runs of components;
* `isoTotals_fixedChars`, `isoTotals_monthChars`: the two kinds of body;
* `Period.fromIso8601_toIso8601`: the period comes back, to the millisecond.
-/

namespace InfraStore

namespace Period

/-! ### Numbers -/

theorem isDigit_toDigits {n : ℕ} {c : Char} (h : c ∈ Nat.toDigits 10 n) : c.isDigit = true :=
  Nat.isDigit_of_mem_toDigits (by decide) (by decide) h

theorem checkedI64_of_lt {v : ℤ} (h0 : 0 ≤ v) (h : v < 2 ^ 63) : checkedI64 v = some v := by
  unfold checkedI64
  rw [if_pos]
  exact ⟨by omega, h⟩

/-- A number comes back from its digits. -/
theorem parseI64_toDigits {n : ℕ} (h : n < 2 ^ 63) : parseI64 (Nat.toDigits 10 n) = some (n : ℤ) := by
  unfold parseI64
  rw [if_pos ⟨Nat.toDigits_ne_nil, List.all_eq_true.mpr fun c => isDigit_toDigits⟩]
  rw [show (Nat.toDigits 10 n).foldl (fun n c => 10 * n + (c.toNat - '0'.toNat)) 0 = n from
    Nat.ofDigitChars_ten_toDigits]
  exact checkedI64_of_lt (by omega) (by exact_mod_cast h)

/-- The digits after the point come back as milliseconds. -/
theorem fracChars_spec : ∀ millis < 1000, 0 < millis →
    fracChars millis ≠ [] ∧ (fracChars millis).length ≤ 3 ∧
      (fracChars millis).all Char.isDigit = true ∧
      parseI64 (fracChars millis ++ List.replicate (3 - (fracChars millis).length) '0') =
        some (millis : ℤ) := by
  decide +kernel

/-! ### Components -/

/-- A component as it is written. -/
def partText (p : List Char × Char) : List Char := p.1 ++ [p.2]

/-- An upper-case letter, other than the one that opens the time part. -/
def IsUnit (u : Char) : Prop :=
  u.isAlpha = true ∧ u.isDigit = false ∧ u ≠ '.' ∧ u ≠ 'T' ∧ u.toUpper = u

instance (u : Char) : Decidable (IsUnit u) := inferInstanceAs (Decidable (_ ∧ _))

theorem isUnit_of_mem {u : Char} (h : u ∈ ['Y', 'M', 'D', 'H', 'S']) : IsUnit u := by
  have hall : (['Y', 'M', 'D', 'H', 'S'].all fun u => decide (IsUnit u)) = true := by decide
  exact of_decide_eq_true (List.all_eq_true.mp hall u h)

/-- A component that reads as one: a number and a unit. -/
structure IsPart (p : List Char × Char) : Prop where
  nonempty : p.1 ≠ []
  digits : ∀ c ∈ p.1, c.isDigit = true ∨ c = '.'
  unit : IsUnit p.2

/-- The digits of a component are collected up to its unit. -/
theorem parseComponents_digits {ds : List Char} (hds : ∀ c ∈ ds, c.isDigit = true ∨ c = '.') :
    ∀ num rest, parseComponents num (ds ++ rest) = parseComponents (num ++ ds) rest := by
  induction ds with
  | nil =>
    intro num rest
    rw [List.nil_append, List.append_nil]
  | cons c ds ih =>
    intro num rest
    rw [List.cons_append]
    unfold parseComponents
    rw [if_pos (hds c List.mem_cons_self), ih (fun c' h => hds c' (List.mem_cons_of_mem _ h)),
      List.append_assoc, List.singleton_append]
    cases rest <;> rfl

theorem parseComponents_unit {num rest : List Char} {u : Char} (hnum : num ≠ [])
    (hp : u.isDigit = false ∧ u ≠ '.') (ha : u.isAlpha = true) :
    parseComponents num (u :: rest) = (parseComponents [] rest).map ((num, u.toUpper) :: ·) := by
  rw [parseComponents, if_neg (by simp [hp]), if_pos ha, if_neg hnum]

/-- **A run of components** comes back as it was written. -/
theorem parseComponents_text (ps : List (List Char × Char)) (h : ∀ p ∈ ps, IsPart p) :
    parseComponents [] (ps.flatMap partText) = some ps := by
  induction ps with
  | nil => rfl
  | cons p ps ih =>
    have hp := h p List.mem_cons_self
    obtain ⟨ha, hd, hpt, -, hup⟩ := hp.unit
    rw [List.flatMap_cons, partText, List.append_assoc, parseComponents_digits hp.digits,
      List.nil_append, List.singleton_append, parseComponents_unit hp.nonempty ⟨hd, hpt⟩ ha,
      ih fun q hq => h q (List.mem_cons_of_mem _ hq), hup]
    rfl

/-- A component of fixed length, and the milliseconds it stands for. -/
def Reads (add : IsoTotals → List Char → Char → Option IsoTotals) (p : List Char × Char) (v : ℕ) :
    Prop := ∀ t : IsoTotals, add t p.1 p.2 = t.addFixed (some (v : ℤ))

/-- The fixed total of a run of components is the sum of what they stand for. -/
theorem fold_fixed {add : IsoTotals → List Char → Char → Option IsoTotals}
    {ps : List (List Char × Char)} {vs : List ℕ} (h : List.Forall₂ (Reads add) ps vs) :
    ∀ acc : Option ℤ, 0 ≤ acc.getD 0 → acc.getD 0 + (vs.sum : ℕ) < 2 ^ 63 →
      ∃ acc' : Option ℤ, IsoTotals.fold add ⟨none, acc⟩ ps = some ⟨none, acc'⟩ ∧
        acc'.getD 0 = acc.getD 0 + (vs.sum : ℕ) ∧ (acc'.isSome = true ↔ acc.isSome = true ∨ ps ≠ []) := by
  induction h with
  | nil =>
    intro acc _ _
    exact ⟨acc, rfl, by simp, by simp⟩
  | @cons p v ps vs hp _ ih =>
    intro acc h0 hlt
    rw [List.sum_cons, Nat.cast_add] at hlt
    have hstep : add ⟨none, acc⟩ p.1 p.2 = some ⟨none, some (acc.getD 0 + v)⟩ := by
      rw [hp ⟨none, acc⟩]
      show (checkedI64 (acc.getD 0 + v)).map _ = _
      rw [checkedI64_of_lt (by omega) (by omega)]
      rfl
    obtain ⟨acc', hfold, hsum, hsome⟩ := ih (some (acc.getD 0 + v)) (by simp; omega)
      (by rw [Option.getD_some]; omega)
    refine ⟨acc', ?_, ?_, ?_⟩
    · rw [IsoTotals.fold, hstep]
      exact hfold
    · rw [hsum, Option.getD_some, List.sum_cons, Nat.cast_add]
      omega
    · rw [hsome]
      simp

/-! ### Fixed spans -/

/-- A count and its unit, left out when the count is zero. -/
def unitParts (n : ℕ) (unit : Char) : List (List Char × Char) :=
  if 0 < n then [(Nat.toDigits 10 n, unit)] else []

theorem unitChars_eq (n : ℕ) (unit : Char) : unitChars n unit = (unitParts n unit).flatMap partText := by
  unfold unitChars unitParts
  split <;> simp [partText]

theorem isPart_digits (n : ℕ) {u : Char} (h : u ∈ ['Y', 'M', 'D', 'H', 'S']) :
    IsPart (Nat.toDigits 10 n, u) :=
  ⟨Nat.toDigits_ne_nil, fun _ hc => Or.inl (isDigit_toDigits hc), isUnit_of_mem h⟩

theorem isPart_unitParts {n : ℕ} {u : Char} (h : u ∈ ['Y', 'M', 'D', 'H', 'S']) :
    ∀ p ∈ unitParts n u, IsPart p := by
  intro p hp
  unfold unitParts at hp
  split at hp
  · rw [List.mem_singleton.mp hp]
    exact isPart_digits n h
  · exact (List.not_mem_nil hp).elim

/-- What a count and its unit stand for. -/
def unitValues (n unit : ℕ) : List ℕ := if 0 < n then [n * unit] else []

theorem unitValues_sum (n unit : ℕ) : (unitValues n unit).sum = n * unit := by
  unfold unitValues
  split
  · simp
  · rw [show n = 0 by omega]
    simp

theorem reads_unitParts {add : IsoTotals → List Char → Char → Option IsoTotals} {n unit : ℕ} {u : Char}
    (h : 0 < n → Reads add (Nat.toDigits 10 n, u) (n * unit)) :
    List.Forall₂ (Reads add) (unitParts n u) (unitValues n unit) := by
  unfold unitParts unitValues
  split
  · rename_i hn
    exact .cons (h hn) .nil
  · exact .nil

/-- The seconds, with the milliseconds after the point. -/
def secondParts (secs millis : ℕ) : List (List Char × Char) :=
  if 0 < millis then [(Nat.toDigits 10 secs ++ ['.'] ++ fracChars millis, 'S')]
  else unitParts secs 'S'

/-- What the seconds stand for. -/
def secondValues (secs millis : ℕ) : List ℕ :=
  if 0 < millis then [secs * 1000 + millis] else unitValues secs 1000

theorem secondValues_sum (secs millis : ℕ) :
    (secondValues secs millis).sum = secs * 1000 + millis := by
  unfold secondValues
  split
  · simp
  · rw [unitValues_sum]
    omega

theorem isPart_secondParts (secs : ℕ) {millis : ℕ} (h : millis < 1000) :
    ∀ p ∈ secondParts secs millis, IsPart p := by
  unfold secondParts
  split
  · rename_i hpos
    obtain ⟨-, -, hfrac, -⟩ := fracChars_spec millis h hpos
    intro p hp
    rw [List.mem_singleton.mp hp]
    refine ⟨by simp, fun c hc => ?_, isUnit_of_mem (by simp)⟩
    simp only [List.mem_append, List.mem_singleton] at hc
    rcases hc with (hc | rfl) | hc
    · exact Or.inl (isDigit_toDigits hc)
    · exact Or.inr rfl
    · exact Or.inl (List.all_eq_true.mp hfrac c hc)
  · exact isPart_unitParts (by decide)

theorem scaled_toDigits (n unit : ℕ) (hu : 0 < unit) (h : n * unit < 2 ^ 63) :
    scaled (parseI64 (Nat.toDigits 10 n)) unit = some ((n * unit : ℕ) : ℤ) := by
  have hn : n < 2 ^ 63 := lt_of_le_of_lt (Nat.le_mul_of_pos_right n hu) h
  unfold scaled
  rw [parseI64_toDigits hn, Option.bind_some, ← Nat.cast_mul,
    checkedI64_of_lt (Int.natCast_nonneg _) (by exact_mod_cast h)]

theorem span_digits {n : ℕ} {x : Char} {rest : List Char} (hx : x.isDigit = false) :
    (Nat.toDigits 10 n ++ x :: rest).span (· ≠ x) = (Nat.toDigits 10 n, x :: rest) := by
  have hall : ∀ c ∈ Nat.toDigits 10 n, decide (c ≠ x) = true := by
    intro c hc
    rw [decide_eq_true_eq]
    rintro rfl
    rw [isDigit_toDigits hc] at hx
    cases hx
  rw [List.span_eq_takeWhile_dropWhile, List.takeWhile_append_of_pos hall,
    List.dropWhile_append_of_pos hall]
  simp

theorem secondsToMs_digits {n : ℕ} (h : n * 1000 < 2 ^ 63) :
    secondsToMs (Nat.toDigits 10 n) = some ((n * 1000 : ℕ) : ℤ) := by
  have hall : ∀ c ∈ Nat.toDigits 10 n, decide (c ≠ '.') = true := by
    intro c hc
    rw [decide_eq_true_eq]
    rintro rfl
    exact absurd (isDigit_toDigits hc) (by decide)
  unfold secondsToMs
  rw [List.span_eq_takeWhile_dropWhile, List.takeWhile_eq_self_iff.mpr hall,
    List.dropWhile_eq_nil_iff.mpr hall]
  exact scaled_toDigits n 1000 (by decide) h

theorem secondsToMs_frac {secs millis : ℕ} (h : secs * 1000 + millis < 2 ^ 63)
    (hm : millis < 1000) (hpos : 0 < millis) :
    secondsToMs (Nat.toDigits 10 secs ++ ['.'] ++ fracChars millis) =
      some ((secs * 1000 + millis : ℕ) : ℤ) := by
  obtain ⟨hne, hlen, -, hparse⟩ := fracChars_spec millis hm hpos
  unfold secondsToMs
  rw [List.append_assoc, List.singleton_append, span_digits (by decide)]
  simp only
  have hno : ¬ (3 < (fracChars millis).length ∨ fracChars millis = []) := by
    rintro (h | h)
    · omega
    · exact hne h
  have hwhole : scaled (parseI64 (Nat.toDigits 10 secs)) msPerSec = some ((secs * 1000 : ℕ) : ℤ) :=
    scaled_toDigits secs 1000 (by decide) (lt_of_le_of_lt (Nat.le_add_right _ _) h)
  rw [if_neg hno, hwhole,
    Option.bind_some, hparse, Option.bind_some, ← Nat.cast_add,
    checkedI64_of_lt (Int.natCast_nonneg _) (by exact_mod_cast h)]

theorem reads_secondParts {secs millis : ℕ} (h : secs * 1000 + millis < 2 ^ 63) (hm : millis < 1000) :
    List.Forall₂ (Reads IsoTotals.time) (secondParts secs millis) (secondValues secs millis) := by
  unfold secondParts secondValues
  split
  · rename_i hpos
    refine .cons (fun t => ?_) .nil
    show IsoTotals.time t _ 'S' = _
    rw [IsoTotals.time, if_neg (by decide), if_neg (by decide), if_pos rfl, secondsToMs_frac h hm hpos]
  · refine reads_unitParts fun _ t => ?_
    have hlt : secs * 1000 < 2 ^ 63 := lt_of_le_of_lt (Nat.le_add_right _ _) h
    show IsoTotals.time t _ 'S' = _
    rw [IsoTotals.time, if_neg (by decide), if_neg (by decide), if_pos rfl, secondsToMs_digits hlt]

/-- A whole unit of the time part. -/
theorem reads_time {n unit : ℕ} {u : Char} (h : (u, unit) ∈ [('H', 3600000), ('M', 60000)])
    (hlt : n * unit < 2 ^ 63) : Reads IsoTotals.time (Nat.toDigits 10 n, u) (n * unit) := by
  intro t
  simp only [List.mem_cons, Prod.mk.injEq, List.not_mem_nil, or_false] at h
  rcases h with ⟨rfl, rfl⟩ | ⟨rfl, rfl⟩
  · rw [IsoTotals.time, if_pos rfl, parseI64_toDigits (by omega), Option.bind_some,
      show (n : ℤ) * msPerHour = ((n * 3600000 : ℕ) : ℤ) by push_cast; rfl,
      checkedI64_of_lt (Int.natCast_nonneg _) (by exact_mod_cast hlt)]
  · show IsoTotals.time t _ 'M' = _
    rw [IsoTotals.time, if_neg (by decide), if_pos rfl, parseI64_toDigits (by omega),
      Option.bind_some, show (n : ℤ) * msPerMin = ((n * 60000 : ℕ) : ℤ) by push_cast; rfl,
      checkedI64_of_lt (Int.natCast_nonneg _) (by exact_mod_cast hlt)]

theorem reads_days {n : ℕ} (hlt : n * 86400000 < 2 ^ 63) :
    Reads IsoTotals.date (Nat.toDigits 10 n, 'D') (n * 86400000) := by
  intro t
  show IsoTotals.date t _ 'D' = _
  rw [IsoTotals.date, parseI64_toDigits (by omega), Option.bind_some, if_neg (by decide),
    if_neg (by decide), if_neg (by decide), if_pos rfl,
    show (n : ℤ) * msPerDay = ((n * 86400000 : ℕ) : ℤ) by push_cast; rfl,
    checkedI64_of_lt (Int.natCast_nonneg _) (by exact_mod_cast hlt)]

/-- The components of the time part. -/
def timeParts (ms : ℕ) : List (List Char × Char) :=
  unitParts (ms % 86400000 / 3600000) 'H' ++ unitParts (ms % 3600000 / 60000) 'M' ++
    secondParts (ms % 60000 / 1000) (ms % 1000)

theorem flatMap_partText_eq_nil {ps : List (List Char × Char)} :
    ps.flatMap partText = [] ↔ ps = [] := by
  cases ps with
  | nil => simp
  | cons p ps => simp [partText]

theorem unitParts_eq_nil {n : ℕ} {u : Char} (h : unitParts n u = []) : n = 0 := by
  unfold unitParts at h
  split at h
  · cases h
  · omega

/-- With no time part, the span is whole days. -/
theorem timeParts_eq_nil {ms : ℕ} (h : timeParts ms = []) : ms % 86400000 = 0 := by
  unfold timeParts secondParts at h
  rw [List.append_eq_nil_iff, List.append_eq_nil_iff] at h
  obtain ⟨⟨h1, h2⟩, h3⟩ := h
  split at h3
  · cases h3
  · have hh := unitParts_eq_nil h1
    have hm := unitParts_eq_nil h2
    have hs := unitParts_eq_nil h3
    omega

theorem timeParts_text (ms : ℕ) : (timeParts ms).flatMap partText =
    unitChars (ms % 86400000 / 3600000) 'H' ++ unitChars (ms % 3600000 / 60000) 'M' ++
      (if 0 < ms % 1000 then
        Nat.toDigits 10 (ms % 60000 / 1000) ++ ['.'] ++ fracChars (ms % 1000) ++ ['S']
      else unitChars (ms % 60000 / 1000) 'S') := by
  unfold timeParts secondParts
  rw [List.flatMap_append, List.flatMap_append, ← unitChars_eq, ← unitChars_eq]
  split
  · simp [partText]
  · rw [← unitChars_eq]

/-- The body of a fixed span: its days, and its time part after a `T`. -/
theorem fixedChars_eq (ms : ℕ) : fixedChars ms = ['P'] ++
    (unitParts (ms / 86400000) 'D').flatMap partText ++
      (if timeParts ms ≠ [] then 'T' :: (timeParts ms).flatMap partText
        else if unitParts (ms / 86400000) 'D' = [] then ['T', '0', 'S'] else []) := by
  unfold fixedChars
  simp only
  rw [← timeParts_text, unitChars_eq]
  simp only [ne_eq, flatMap_partText_eq_nil]

theorem reads_timeParts {ms : ℕ} (h : ms < 2 ^ 63) : List.Forall₂ (Reads IsoTotals.time) (timeParts ms)
    (unitValues (ms % 86400000 / 3600000) 3600000 ++ unitValues (ms % 3600000 / 60000) 60000 ++
      secondValues (ms % 60000 / 1000) (ms % 1000)) := by
  have hh : ms % 86400000 / 3600000 * 3600000 < 2 ^ 63 :=
    lt_of_le_of_lt ((Nat.div_mul_le_self _ _).trans (Nat.mod_le _ _)) h
  have hm : ms % 3600000 / 60000 * 60000 < 2 ^ 63 :=
    lt_of_le_of_lt ((Nat.div_mul_le_self _ _).trans (Nat.mod_le _ _)) h
  have hs : ms % 60000 / 1000 * 1000 + ms % 1000 < 2 ^ 63 := lt_of_le_of_lt (by omega) h
  refine List.rel_append (List.rel_append ?_ ?_) ?_
  · exact reads_unitParts fun _ => reads_time (by simp) hh
  · exact reads_unitParts fun _ => reads_time (by simp) hm
  · exact reads_secondParts hs (by omega)

theorem isPart_timeParts (ms : ℕ) : ∀ p ∈ timeParts ms, IsPart p := by
  intro p hp
  unfold timeParts at hp
  rw [List.mem_append, List.mem_append] at hp
  rcases hp with (hp | hp) | hp
  · exact isPart_unitParts (by decide) p hp
  · exact isPart_unitParts (by decide) p hp
  · exact isPart_secondParts _ (Nat.mod_lt _ (by decide)) p hp

/-- The date part ends at the `T`. -/
theorem span_T {date rest : List Char} (h : ∀ c ∈ date, c ≠ 'T') :
    (date ++ 'T' :: rest).span (· ≠ 'T') = (date, 'T' :: rest) := by
  have hall : ∀ c ∈ date, decide (c ≠ 'T') = true := fun c hc => decide_eq_true (h c hc)
  rw [List.span_eq_takeWhile_dropWhile, List.takeWhile_append_of_pos hall,
    List.dropWhile_append_of_pos hall]
  simp

theorem span_no_T {date : List Char} (h : ∀ c ∈ date, c ≠ 'T') :
    date.span (· ≠ 'T') = (date, []) := by
  have hall : ∀ c ∈ date, decide (c ≠ 'T') = true := fun c hc => decide_eq_true (h c hc)
  rw [List.span_eq_takeWhile_dropWhile, List.takeWhile_eq_self_iff.mpr hall,
    List.dropWhile_eq_nil_iff.mpr hall]

theorem partText_no_T {ps : List (List Char × Char)} (h : ∀ p ∈ ps, IsPart p) :
    ∀ c ∈ ps.flatMap partText, c ≠ 'T' := by
  intro c hc
  obtain ⟨p, hp, hc⟩ := List.mem_flatMap.mp hc
  rcases List.mem_append.mp hc with hc | hc
  · rintro rfl
    rcases (h p hp).digits _ hc with h | h
    · exact absurd h (by decide)
    · exact absurd h (by decide)
  · rw [List.mem_singleton.mp hc]
    exact (h p hp).unit.2.2.2.1

/-- **A fixed span** comes back from its body. -/
theorem isoTotals_fixedChars {ms : ℕ} (h : ms < 2 ^ 63) :
    isoTotals (fixedChars ms).tail = some ⟨none, some (ms : ℤ)⟩ := by
  have hdate : ∀ p ∈ unitParts (ms / 86400000) 'D', IsPart p := isPart_unitParts (by decide)
  have hdays : ms / 86400000 * 86400000 < 2 ^ 63 := lt_of_le_of_lt (Nat.div_mul_le_self _ _) h
  have hnoT := partText_no_T hdate
  obtain ⟨acc, hfold, hsum, hsome⟩ := fold_fixed
    (reads_unitParts (u := 'D') fun _ => reads_days hdays) none le_rfl
    (by rw [unitValues_sum, Option.getD_none, Int.zero_add]; exact_mod_cast hdays)
  rw [unitValues_sum, Option.getD_none, Int.zero_add] at hsum
  rw [fixedChars_eq, List.append_assoc, List.singleton_append, List.tail_cons]
  by_cases hne : timeParts ms = []
  · have htotal : ms = ms / 86400000 * 86400000 := by
      have := timeParts_eq_nil hne
      omega
    rw [if_neg (not_not.mpr hne)]
    by_cases hzero : unitParts (ms / 86400000) 'D' = []
    · have hms : ms = 0 := by
        have := unitParts_eq_nil hzero
        omega
      rw [if_pos hzero, hzero, hms]
      rfl
    · obtain ⟨v, hv⟩ := Option.isSome_iff_exists.mp (hsome.mpr (Or.inr hzero))
      rw [hv, Option.getD_some, ← htotal] at hsum
      rw [if_neg hzero, List.append_nil, isoTotals, span_no_T hnoT]
      simp only
      rw [parseComponents_text _ hdate, Option.bind_some, hfold, hv, hsum]
      rfl
  · -- a time part follows
    have htotal : ms / 86400000 * 86400000 + (ms % 86400000 / 3600000 * 3600000 +
        ms % 3600000 / 60000 * 60000 + (ms % 60000 / 1000 * 1000 + ms % 1000)) = ms := by omega
    obtain ⟨acc', hfold', hsum', hsome'⟩ := fold_fixed (reads_timeParts h) acc
      (by rw [hsum]; exact Int.natCast_nonneg _) (by
        rw [hsum, List.sum_append, List.sum_append, unitValues_sum, unitValues_sum,
          secondValues_sum, ← Nat.cast_add, htotal]
        exact_mod_cast h)
    rw [hsum, List.sum_append, List.sum_append, unitValues_sum, unitValues_sum, secondValues_sum,
      ← Nat.cast_add, htotal] at hsum'
    obtain ⟨v, hv⟩ := Option.isSome_iff_exists.mp (hsome'.mpr (Or.inr hne))
    rw [hv, Option.getD_some] at hsum'
    rw [if_pos hne, isoTotals, span_T hnoT]
    simp only
    rw [parseComponents_text _ hdate, Option.bind_some, hfold, Option.bind_some,
      parseComponents_text _ (isPart_timeParts ms), Option.bind_some, hfold', hv, hsum']

/-! ### Counts of months -/

/-- A body of one date component. -/
theorem isoTotals_single {n : ℕ} {u : Char} (hu : u ∈ ['Y', 'M', 'D', 'H', 'S']) {t : IsoTotals}
    (hdate : IsoTotals.date ⟨none, none⟩ (Nat.toDigits 10 n) u = some t) :
    isoTotals (Nat.toDigits 10 n ++ [u]) = some t := by
  have hpart : ∀ p ∈ [(Nat.toDigits 10 n, u)], IsPart p := by
    intro p hp
    rw [List.mem_singleton.mp hp]
    exact isPart_digits n hu
  have htext : Nat.toDigits 10 n ++ [u] = [(Nat.toDigits 10 n, u)].flatMap partText := by
    simp [partText]
  rw [isoTotals, htext, span_no_T (partText_no_T hpart)]
  simp only
  rw [parseComponents_text _ hpart, Option.bind_some, IsoTotals.fold, hdate]
  rfl

theorem addMonths_fits {v : ℤ} (h : checkedI64 v = some v) :
    IsoTotals.addMonths ⟨none, none⟩ (some v) = some ⟨some v, none⟩ := by
  unfold IsoTotals.addMonths addComponent
  simp only [Option.bind_some, Option.getD_none, Int.zero_add]
  rw [h, Option.map_some]

/-- **A count of months** comes back from its body. -/
theorem isoTotals_monthChars {a : ℕ} (h : a < 2 ^ 63) :
    isoTotals (monthChars a).tail = some ⟨some (a : ℤ), none⟩ := by
  have hfits : checkedI64 (a : ℤ) = some (a : ℤ) :=
    checkedI64_of_lt (Int.natCast_nonneg _) (by exact_mod_cast h)
  unfold monthChars
  split
  · rename_i hyears
    have hlt : a / 12 < 2 ^ 63 := lt_of_le_of_lt (Nat.div_le_self _ _) h
    have hmul : ((a / 12 : ℕ) : ℤ) * 12 = a := by
      exact_mod_cast Nat.div_mul_cancel (Nat.dvd_of_mod_eq_zero hyears.2)
    refine isoTotals_single (u := 'Y') (by decide) ?_
    rw [IsoTotals.date, parseI64_toDigits hlt, Option.bind_some, if_pos rfl, hmul, hfits,
      addMonths_fits hfits]
  · refine isoTotals_single (u := 'M') (by decide) ?_
    rw [IsoTotals.date, parseI64_toDigits h, Option.bind_some, if_neg (by decide), if_pos rfl,
      addMonths_fits hfits]

/-! ### The whole text -/

theorem trimChars_of_no_space {cs : List Char} (h : ∀ c ∈ cs, isWhiteSpace c = false) :
    trimChars cs = cs := by
  have hdrop : ∀ l : List Char, (∀ c ∈ l, isWhiteSpace c = false) →
      l.dropWhile isWhiteSpace = l := by
    intro l hl
    cases l with
    | nil => rfl
    | cons c l => rw [List.dropWhile_cons, if_neg (by rw [hl c List.mem_cons_self]; decide)]
  unfold trimChars
  rw [hdrop cs h, hdrop cs.reverse fun c hc => h c (List.mem_reverse.mp hc), List.reverse_reverse]

theorem isWhiteSpace_of_isDigit {c : Char} (h : c.isDigit = true) : isWhiteSpace c = false := by
  have hlow : 48 ≤ c.toNat ∧ c.toNat ≤ 57 := by
    rw [Char.isDigit, Bool.and_eq_true, decide_eq_true_iff, decide_eq_true_iff] at h
    exact ⟨h.1, h.2⟩
  simp [isWhiteSpace]
  omega

theorem isWhiteSpace_of_isUnit {u : Char} (h : IsUnit u) : isWhiteSpace u = false := by
  have hlow : 65 ≤ u.toNat ∧ u.toNat ≤ 122 := by
    have halpha : (u.isUpper || u.isLower) = true := h.1
    rcases (Bool.or_eq_true _ _).mp halpha with hupper | hlower
    · have hin : 65 ≤ u.val ∧ u.val ≤ 90 := of_decide_eq_true hupper
      exact ⟨hin.1, le_trans hin.2 (by decide)⟩
    · have hin := (Bool.and_eq_true _ _).mp hlower
      have hlo : 97 ≤ u.val := of_decide_eq_true hin.1
      have hhi : u.val ≤ 122 := of_decide_eq_true hin.2
      exact ⟨le_trans (by decide) hlo, hhi⟩
  simp [isWhiteSpace]
  omega

theorem partText_no_space {ps : List (List Char × Char)} (h : ∀ p ∈ ps, IsPart p) :
    ∀ c ∈ ps.flatMap partText, isWhiteSpace c = false := by
  intro c hc
  obtain ⟨p, hp, hc⟩ := List.mem_flatMap.mp hc
  rcases List.mem_append.mp hc with hc | hc
  · rcases (h p hp).digits _ hc with hd | rfl
    · exact isWhiteSpace_of_isDigit hd
    · decide
  · rw [List.mem_singleton.mp hc]
    exact isWhiteSpace_of_isUnit (h p hp).unit

theorem fixedChars_no_space (ms : ℕ) : ∀ c ∈ fixedChars ms, isWhiteSpace c = false := by
  intro c hc
  rw [fixedChars_eq, List.mem_append, List.mem_append] at hc
  rcases hc with (hc | hc) | hc
  · rw [List.mem_singleton.mp hc]
    decide
  · exact partText_no_space (isPart_unitParts (by decide)) c hc
  · split at hc
    · rcases List.mem_cons.mp hc with rfl | hc
      · decide
      · exact partText_no_space (isPart_timeParts ms) c hc
    · split at hc
      · have hall : (['T', '0', 'S'].all fun c => !isWhiteSpace c) = true := by decide
        simpa using List.all_eq_true.mp hall c hc
      · exact (List.not_mem_nil hc).elim

theorem monthChars_no_space (a : ℕ) : ∀ c ∈ monthChars a, isWhiteSpace c = false := by
  have hall : ∀ (n : ℕ) (u : Char), isWhiteSpace u = false →
      ∀ c ∈ ['P'] ++ Nat.toDigits 10 n ++ [u], isWhiteSpace c = false := by
    intro n u hu c hc
    rw [List.mem_append, List.mem_append, List.mem_singleton, List.mem_singleton] at hc
    rcases hc with (rfl | hc) | rfl
    · decide
    · exact isWhiteSpace_of_isDigit (isDigit_toDigits hc)
    · exact hu
  unfold monthChars
  split
  · exact hall _ 'Y' (by decide)
  · exact hall _ 'M' (by decide)

theorem isoChars_no_space (p : Period) : ∀ c ∈ p.isoChars, isWhiteSpace c = false := by
  have hsign : ∀ (b : Prop) [Decidable b] (cs : List Char), (∀ c ∈ cs, isWhiteSpace c = false) →
      ∀ c ∈ (if b then ['-'] else []) ++ cs, isWhiteSpace c = false := by
    intro b _ cs hcs c hc
    rcases List.mem_append.mp hc with hc | hc
    · split at hc
      · rw [List.mem_singleton.mp hc]
        decide
      · exact (List.not_mem_nil hc).elim
    · exact hcs c hc
  cases p with
  | fixed d => exact hsign _ _ (fixedChars_no_space _)
  | months m => exact hsign _ _ (monthChars_no_space _)

theorem numMilliseconds_valid (d : Duration) :
    (d.numMilliseconds * 1000000).natAbs ≤ maxDurationMillis * 1000000 := by
  unfold Duration.numMilliseconds
  rw [Int.natAbs_mul, Int.natAbs_tdiv]
  exact (Nat.div_mul_le_self _ _).trans d.valid

/-- The period that a text holds: a fixed span is written in whole milliseconds. -/
def wholeMillis : Period → Period
  | fixed d => fixed ⟨d.numMilliseconds * 1000000, numMilliseconds_valid d⟩
  | months m => months m

theorem fixedChars_cons (ms : ℕ) : fixedChars ms = 'P' :: (fixedChars ms).tail := by
  unfold fixedChars
  rfl

theorem monthChars_cons (a : ℕ) : monthChars a = 'P' :: (monthChars a).tail := by
  unfold monthChars
  split <;> rfl

/-- The sign is read off the front, and the body after it. -/
theorem ofIsoChars_months {v : ℤ} {rest : List Char} (h : isoTotals rest = some ⟨some (v.natAbs : ℤ), none⟩)
    (hv : -2 ^ 31 ≤ v ∧ v < 2 ^ 31) :
    ofIsoChars ((if v < 0 then ['-'] else []) ++ 'P' :: rest) = .ok (.months ⟨v, hv⟩) := by
  by_cases hneg : v < 0
  · have habs : -(v.natAbs : ℤ) = v := by omega
    unfold ofIsoChars
    simp only [hneg, if_true, List.singleton_append, List.head?_cons, List.tail_cons, h, habs]
    exact dif_pos hv
  · have habs : (v.natAbs : ℤ) = v := by omega
    unfold ofIsoChars
    have hP : (some 'P' = some '-') = False := by decide
    simp only [hneg, hP, if_false, List.nil_append, List.head?_cons, h, habs]
    exact dif_pos hv

theorem ofIsoChars_fixed {v : ℤ} {rest : List Char} (h : isoTotals rest = some ⟨none, some (v.natAbs : ℤ)⟩)
    {d : Duration} (hd : Duration.tryMilliseconds v = some d) :
    ofIsoChars ((if v < 0 then ['-'] else []) ++ 'P' :: rest) = .ok (.fixed d) := by
  by_cases hneg : v < 0
  · have habs : -(v.natAbs : ℤ) = v := by omega
    unfold ofIsoChars
    simp only [hneg, if_true, List.singleton_append, List.head?_cons, List.tail_cons, h, habs, hd]
  · have habs : (v.natAbs : ℤ) = v := by omega
    unfold ofIsoChars
    have hP : (some 'P' = some '-') = False := by decide
    simp only [hneg, hP, if_false, List.nil_append, List.head?_cons, h, habs, hd]

/-- **A period comes back from its text**, to the millisecond. -/
theorem fromIso8601_toIso8601 (p : Period) : fromIso8601 p.toIso8601 = .ok p.wholeMillis := by
  unfold fromIso8601 toIso8601
  rw [String.toList_ofList, trimChars_of_no_space p.isoChars_no_space]
  cases p with
  | fixed d =>
    have hvalid := numMilliseconds_valid d
    have hlt : d.numMilliseconds.natAbs < 2 ^ 63 := by
      rw [Int.natAbs_mul] at hvalid
      have := Nat.le_of_mul_le_mul_right hvalid (by decide)
      exact lt_of_le_of_lt this (by decide)
    have hd : Duration.tryMilliseconds d.numMilliseconds =
        some ⟨d.numMilliseconds * 1000000, hvalid⟩ := by
      unfold Duration.tryMilliseconds
      rw [dif_pos hvalid]
    unfold isoChars
    simp only
    rw [fixedChars_cons, ofIsoChars_fixed (isoTotals_fixedChars hlt) hd]
    rfl
  | months m =>
    have hlt : m.1.natAbs < 2 ^ 63 := by
      have := m.2
      exact lt_of_le_of_lt (show m.1.natAbs ≤ 2 ^ 31 by omega) (by decide)
    unfold isoChars
    simp only
    rw [monthChars_cons, ofIsoChars_months (isoTotals_monthChars hlt) m.2]
    rfl

/-- The text of what comes back is the text it came from. -/
theorem toIso8601_wholeMillis (p : Period) : p.wholeMillis.toIso8601 = p.toIso8601 := by
  cases p with
  | fixed d =>
    have h : (d.numMilliseconds * 1000000).tdiv 1000000 = d.numMilliseconds :=
      Int.mul_tdiv_cancel _ (by decide)
    exact congrArg (fun v : ℤ =>
      String.ofList ((if v < 0 then ['-'] else []) ++ fixedChars v.natAbs)) h
  | months m => rfl

/-- What a text holds it holds again. -/
theorem wholeMillis_idem (p : Period) : p.wholeMillis.wholeMillis = p.wholeMillis := by
  have h := fromIso8601_toIso8601 p.wholeMillis
  rw [toIso8601_wholeMillis, fromIso8601_toIso8601] at h
  exact (Except.ok.inj h).symm

theorem wholeMillis_of_isPositive {p : Period} (h : p.isPositive = true) : p.wholeMillis = p := by
  cases p with
  | fixed d =>
    obtain ⟨-, hd⟩ := isPositive_fixed h
    have hback : (⟨d.numMilliseconds * 1000000, numMilliseconds_valid d⟩ : Duration) = d :=
      Duration.ext hd.symm
    exact congrArg fixed hback
  | months m => rfl

theorem wholeMillis_of_isZero {p : Period} (h : p.isZero = true) : p.wholeMillis = p := by
  cases p with
  | fixed d =>
    have hd : d.nanos = 0 := of_decide_eq_true h
    have hzero : d.numMilliseconds * 1000000 = d.nanos := by
      unfold Duration.numMilliseconds
      rw [hd]
      rfl
    have hback : (⟨d.numMilliseconds * 1000000, numMilliseconds_valid d⟩ : Duration) = d :=
      Duration.ext hzero
    exact congrArg fixed hback
  | months m => rfl

end Period

end InfraStore
