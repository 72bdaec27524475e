import Mathlib.Tactic.Ring
import Mathlib.Algebra.Order.Ring.Nat

/-!
# Binary floating-point formats as bit patterns

Interchange formats of any width, their values as natural multiples of the smallest subnormal, and
the conversion between two formats by rounding to the nearest, ties to even.

* `Format.value` and `Format.nearest`: a magnitude's value, and the magnitude nearest to a value;
* `Format.convert`: a bit pattern of one format as one of another;
* `Format.convert_convert`: widening and narrowing back changes no pattern but a NaN's.
-/

namespace InfraStore.Lib

/-- A binary interchange format: how wide its fraction and its exponent are. -/
structure Format where
  fraction : ℕ
  exponent : ℕ
  two_le : 2 ≤ exponent

namespace Format

/-- Single precision. -/
def binary32 : Format := ⟨23, 8, by decide⟩

/-- Double precision. -/
def binary64 : Format := ⟨52, 11, by decide⟩

/-- The weight of the sign bit: a pattern is a sign and a magnitude below it. -/
def signBit (f : Format) : ℕ := 2 ^ (f.exponent + f.fraction)

/-- The magnitude of infinity; the magnitudes above it are the NaNs. -/
def inf (f : Format) : ℕ := (2 ^ f.exponent - 1) * 2 ^ f.fraction

/-- The smallest subnormal is `2 ^ (-unit)`. -/
def unit (f : Format) : ℕ := 2 ^ (f.exponent - 1) - 2 + f.fraction

/-- The quiet NaN with no payload. -/
def nan (f : Format) : ℕ := f.inf + 2 ^ (f.fraction - 1)

def isNan (f : Format) (b : ℕ) : Bool := f.inf < b % f.signBit

def isInf (f : Format) (b : ℕ) : Bool := b % f.signBit = f.inf

/-- How far a magnitude's significand is shifted. -/
def shift (f : Format) (m : ℕ) : ℕ := m / 2 ^ f.fraction - 1

/-- The value of a finite magnitude, in multiples of the smallest subnormal. -/
def value (f : Format) (m : ℕ) : ℕ := (m - f.shift m * 2 ^ f.fraction) * 2 ^ f.shift m

/-- `x / 2 ^ k`, rounded to the nearest integer and to the even one of two. -/
def roundShift (x k : ℕ) : ℕ :=
  if 2 ^ k < 2 * (x % 2 ^ k) ∨ 2 ^ k = 2 * (x % 2 ^ k) ∧ x / 2 ^ k % 2 = 1 then x / 2 ^ k + 1
  else x / 2 ^ k

/-- The magnitude nearest to `x / 2 ^ s` multiples of the smallest subnormal. -/
def nearest (f : Format) (x s : ℕ) : ℕ :=
  let k := Nat.log2 x - (f.fraction + s)
  min f.inf (k * 2 ^ f.fraction + roundShift x (s + k))

/-- A magnitude of one format as a magnitude of another. -/
def convertMagnitude (f g : Format) (m : ℕ) : ℕ :=
  if f.inf < m then g.nan
  else if m = f.inf then g.inf
  else g.nearest (f.value m * 2 ^ (g.unit - f.unit)) (f.unit - g.unit)

/-- A pattern of one format as a pattern of another. -/
def convert (f g : Format) (b : ℕ) : ℕ :=
  b / f.signBit * g.signBit + f.convertMagnitude g (b % f.signBit)

/-- The pattern nearest to an integer. -/
def ofInt (f : Format) (i : ℤ) : ℕ :=
  (if i < 0 then f.signBit else 0) + f.nearest (i.natAbs * 2 ^ f.unit) 0

variable {f g : Format}

/-! ### Values -/

theorem two_pow_fraction_pos (f : Format) : 0 < 2 ^ f.fraction := Nat.two_pow_pos _

theorem inf_lt_signBit (f : Format) : f.inf < f.signBit := by
  have he := Nat.two_pow_pos f.exponent
  unfold inf signBit
  rw [pow_add]
  exact Nat.mul_lt_mul_of_pos_right (by omega) f.two_pow_fraction_pos

theorem roundShift_mul (m k : ℕ) : roundShift (m * 2 ^ k) k = m := by
  have hk := Nat.two_pow_pos k
  have hr : m * 2 ^ k % 2 ^ k = 0 := Nat.mul_mod_left _ _
  have hq : m * 2 ^ k / 2 ^ k = m := Nat.mul_div_cancel _ hk
  unfold roundShift
  rw [hr, hq, if_neg (by omega)]

/-- A normalised significand `m` shifted by `k`: the leading bit is set unless nothing is shifted. -/
structure Normal (f : Format) (m k : ℕ) : Prop where
  lt : m < 2 ^ (f.fraction + 1)
  lead : k = 0 ∨ 2 ^ f.fraction ≤ m

theorem Normal.shift_eq {m k : ℕ} (h : f.Normal m k) : f.shift (k * 2 ^ f.fraction + m) = k := by
  have hp := f.two_pow_fraction_pos
  have hlt := h.lt
  rw [pow_succ] at hlt
  have hdiv : (k * 2 ^ f.fraction + m) / 2 ^ f.fraction = k + m / 2 ^ f.fraction := by
    rw [Nat.add_comm, Nat.add_mul_div_right _ _ hp, Nat.add_comm]
  unfold shift
  rw [hdiv]
  cases h.lead with
  | inl hk =>
    have : m / 2 ^ f.fraction < 2 := (Nat.div_lt_iff_lt_mul hp).mpr (by omega)
    omega
  | inr hm =>
    have : m / 2 ^ f.fraction = 1 := Nat.div_eq_of_lt_le (by omega) (by omega)
    omega

/-- The magnitude `k * 2 ^ fraction + m` is worth `m * 2 ^ k`. -/
theorem Normal.value_eq {m k : ℕ} (h : f.Normal m k) :
    f.value (k * 2 ^ f.fraction + m) = m * 2 ^ k := by
  unfold value
  rw [h.shift_eq, Nat.add_sub_cancel_left]

/-- Every magnitude has a normalised significand. -/
theorem exists_normal_magnitude (f : Format) (b : ℕ) :
    ∃ m k, f.Normal m k ∧ b = k * 2 ^ f.fraction + m := by
  have hp := f.two_pow_fraction_pos
  have hmod := Nat.div_add_mod' b (2 ^ f.fraction)
  have hlt := Nat.mod_lt b hp
  cases hq : b / 2 ^ f.fraction with
  | zero =>
    rw [hq, Nat.zero_mul, Nat.zero_add] at hmod
    refine ⟨b, 0, ⟨?_, .inl rfl⟩, by omega⟩
    rw [pow_succ]
    omega
  | succ k =>
    rw [hq, Nat.succ_mul] at hmod
    refine ⟨b % 2 ^ f.fraction + 2 ^ f.fraction, k, ⟨?_, .inr (by omega)⟩, by omega⟩
    rw [pow_succ]
    omega

/-- Every value of few enough significant bits has a normalised significand. -/
theorem exists_normal_value {m : ℕ} (e : ℕ) (h : m < 2 ^ (f.fraction + 1)) :
    ∃ m' k, f.Normal m' k ∧ m * 2 ^ e = m' * 2 ^ k := by
  induction e generalizing m with
  | zero => exact ⟨m, 0, ⟨h, .inl rfl⟩, rfl⟩
  | succ e ih =>
    by_cases hm : 2 ^ f.fraction ≤ m
    · exact ⟨m, e + 1, ⟨h, .inr hm⟩, rfl⟩
    · obtain ⟨m', k, hn, he⟩ := @ih (2 * m) (by rw [pow_succ]; omega)
      refine ⟨m', k, hn, ?_⟩
      calc m * 2 ^ (e + 1) = 2 * m * 2 ^ e := by ring
        _ = m' * 2 ^ k := he

theorem log2_mul_two_pow {m p e : ℕ} (hle : 2 ^ p ≤ m) (hlt : m < 2 ^ (p + 1)) :
    Nat.log2 (m * 2 ^ e) = p + e := by
  have hm : 0 < m := lt_of_lt_of_le (Nat.two_pow_pos p) hle
  have hne : m * 2 ^ e ≠ 0 := Nat.mul_ne_zero (by omega) (Nat.two_pow_pos e).ne'
  apply (Nat.log2_eq_iff hne).mpr
  constructor
  · rw [pow_add]
    exact Nat.mul_le_mul_right _ hle
  · rw [Nat.add_right_comm, pow_add]
    exact Nat.mul_lt_mul_of_pos_right hlt (Nat.two_pow_pos e)

/-- A representable value is its own nearest magnitude. -/
theorem Normal.nearest_eq {m k : ℕ} (h : f.Normal m k) (s : ℕ) :
    f.nearest (m * 2 ^ k * 2 ^ s) s = min f.inf (k * 2 ^ f.fraction + m) := by
  have hx : m * 2 ^ k * 2 ^ s = m * 2 ^ (s + k) := by ring
  have hk : Nat.log2 (m * 2 ^ (s + k)) - (f.fraction + s) = k := by
    by_cases hm : 2 ^ f.fraction ≤ m
    · rw [log2_mul_two_pow hm h.lt]
      omega
    · have hk0 : k = 0 := h.lead.resolve_right hm
      rw [hk0]
      by_cases hm0 : m = 0
      · rw [hm0, Nat.zero_mul]
        exact Nat.zero_sub _
      · have hlt : m * 2 ^ (s + 0) < 2 ^ (f.fraction + s) := by
          rw [Nat.add_zero, pow_add]
          exact Nat.mul_lt_mul_of_pos_right (by omega) (Nat.two_pow_pos s)
        have hne : m * 2 ^ (s + 0) ≠ 0 := Nat.mul_ne_zero hm0 (Nat.two_pow_pos _).ne'
        have := (Nat.log2_lt hne).mpr hlt
        omega
  unfold nearest
  rw [hx]
  simp only [hk, roundShift_mul]

theorem nearest_value (f : Format) (b s : ℕ) : f.nearest (f.value b * 2 ^ s) s = min f.inf b := by
  obtain ⟨m, k, hn, rfl⟩ := f.exists_normal_magnitude b
  rw [hn.value_eq, hn.nearest_eq]

/-! ### Conversions -/

theorem two_pow_exponent (f : Format) : 2 ^ f.exponent = 2 * 2 ^ (f.exponent - 1) ∧
    2 ≤ 2 ^ (f.exponent - 1) := by
  obtain ⟨n, hn⟩ : ∃ n, f.exponent = n + 2 := ⟨f.exponent - 2, by have := f.two_le; omega⟩
  have := Nat.two_pow_pos n
  rw [hn, show n + 2 - 1 = n + 1 from rfl, pow_succ, pow_succ]
  omega

/-- The shift of a finite magnitude is below the largest exponent. -/
theorem Normal.shift_lt {m k : ℕ} (h : f.Normal m k) (hb : k * 2 ^ f.fraction + m < f.inf) :
    k + 3 ≤ 2 ^ f.exponent := by
  obtain ⟨htwo, hle⟩ := f.two_pow_exponent
  cases h.lead with
  | inl hk => omega
  | inr hm =>
    have : (k + 1) * 2 ^ f.fraction < (2 ^ f.exponent - 1) * 2 ^ f.fraction := by
      rw [Nat.succ_mul]
      exact lt_of_le_of_lt (by omega) hb
    have := Nat.lt_of_mul_lt_mul_right this
    omega

theorem Normal.lt_inf {m k : ℕ} (h : f.Normal m k) (hk : k + 3 ≤ 2 ^ f.exponent) :
    k * 2 ^ f.fraction + m < f.inf := by
  have hlt := h.lt
  rw [pow_succ] at hlt
  calc k * 2 ^ f.fraction + m < (k + 2) * 2 ^ f.fraction := by rw [Nat.add_mul]; omega
    _ ≤ (2 ^ f.exponent - 1) * 2 ^ f.fraction := Nat.mul_le_mul_right _ (by omega)

/-- Widening is exact: the wider format has a finite magnitude for every finite value. -/
theorem value_nearest_wider (hp : f.fraction ≤ g.fraction) (he : f.exponent ≤ g.exponent) {b : ℕ}
    (hb : b < f.inf) :
    g.nearest (f.value b * 2 ^ (g.unit - f.unit)) 0 < g.inf ∧
      g.value (g.nearest (f.value b * 2 ^ (g.unit - f.unit)) 0) =
        f.value b * 2 ^ (g.unit - f.unit) := by
  obtain ⟨m, k, hn, rfl⟩ := f.exists_normal_magnitude b
  have hlt : m < 2 ^ (g.fraction + 1) :=
    lt_of_lt_of_le hn.lt (Nat.pow_le_pow_right (by omega) (by omega))
  obtain ⟨m', k', hn', hx⟩ := exists_normal_value (k + (g.unit - f.unit)) hlt
  have hval : f.value (k * 2 ^ f.fraction + m) * 2 ^ (g.unit - f.unit) = m' * 2 ^ k' := by
    rw [hn.value_eq, Nat.mul_assoc, ← pow_add, hx]
  have hk' : k' + 3 ≤ 2 ^ g.exponent := by
    have hk := hn.shift_lt hb
    obtain ⟨hf, hf2⟩ := f.two_pow_exponent
    obtain ⟨hg, hg2⟩ := g.two_pow_exponent
    have hmono : 2 ^ (f.exponent - 1) ≤ 2 ^ (g.exponent - 1) :=
      Nat.pow_le_pow_right (by omega) (by omega)
    cases hn'.lead with
    | inl h0 => omega
    | inr hlead =>
      have hpow : 2 ^ (g.fraction + k') < 2 ^ (f.fraction + 1 + (k + (g.unit - f.unit))) := by
        calc 2 ^ (g.fraction + k') = 2 ^ g.fraction * 2 ^ k' := pow_add _ _ _
          _ ≤ m' * 2 ^ k' := Nat.mul_le_mul_right _ hlead
          _ = m * 2 ^ (k + (g.unit - f.unit)) := hx.symm
          _ < 2 ^ (f.fraction + 1) * 2 ^ (k + (g.unit - f.unit)) :=
            Nat.mul_lt_mul_of_pos_right hn.lt (Nat.two_pow_pos _)
          _ = 2 ^ (f.fraction + 1 + (k + (g.unit - f.unit))) := (pow_add _ _ _).symm
      have := (Nat.pow_lt_pow_iff_right (by omega)).mp hpow
      unfold unit at this
      omega
  have hnear : g.nearest (m' * 2 ^ k') 0 = k' * 2 ^ g.fraction + m' := by
    have := hn'.nearest_eq 0
    rw [pow_zero, Nat.mul_one] at this
    rw [this, min_eq_right (hn'.lt_inf hk').le]
  rw [hval, hnear]
  exact ⟨hn'.lt_inf hk', hn'.value_eq⟩

theorem signBit_pos (f : Format) : 0 < f.signBit := Nat.two_pow_pos _

@[simp] theorem sign_mod {s m : ℕ} (hm : m < f.signBit) : (s * f.signBit + m) % f.signBit = m := by
  rw [Nat.mul_comm, Nat.mul_add_mod, Nat.mod_eq_of_lt hm]

@[simp] theorem sign_div {s m : ℕ} (hm : m < f.signBit) : (s * f.signBit + m) / f.signBit = s := by
  rw [Nat.mul_comm, Nat.mul_add_div f.signBit_pos, Nat.div_eq_of_lt hm, Nat.add_zero]

theorem isNan_eq_false {b : ℕ} : f.isNan b = false ↔ b % f.signBit ≤ f.inf := by
  unfold isNan
  rw [decide_eq_false_iff_not, Nat.not_lt]

theorem unit_le (hp : f.fraction ≤ g.fraction) (he : f.exponent ≤ g.exponent) :
    f.unit ≤ g.unit := by
  have : 2 ^ (f.exponent - 1) ≤ 2 ^ (g.exponent - 1) :=
    Nat.pow_le_pow_right (by omega) (by omega)
  unfold unit
  omega

theorem convertMagnitude_inf (f g : Format) : f.convertMagnitude g f.inf = g.inf := by
  unfold convertMagnitude
  rw [if_neg (Nat.lt_irrefl _), if_pos rfl]

theorem convertMagnitude_finite {m : ℕ} (h : m < f.inf) :
    f.convertMagnitude g m = g.nearest (f.value m * 2 ^ (g.unit - f.unit)) (f.unit - g.unit) := by
  unfold convertMagnitude
  rw [if_neg (Nat.not_lt.mpr h.le), if_neg h.ne]

/-- A widened magnitude is infinite exactly when the narrow one is, and has its value otherwise. -/
theorem convertMagnitude_wider (hp : f.fraction ≤ g.fraction) (he : f.exponent ≤ g.exponent) {m : ℕ}
    (hm : m ≤ f.inf) :
    f.convertMagnitude g m ≤ g.inf ∧ (f.convertMagnitude g m = g.inf ↔ m = f.inf) ∧
      (m < f.inf → g.value (f.convertMagnitude g m) = f.value m * 2 ^ (g.unit - f.unit)) := by
  have hu : f.unit - g.unit = 0 := Nat.sub_eq_zero_of_le (unit_le hp he)
  by_cases hinf : m = f.inf
  · rw [hinf, convertMagnitude_inf]
    exact ⟨le_rfl, by simp, by omega⟩
  · have hfin := lt_of_le_of_ne hm hinf
    obtain ⟨hlt, hval⟩ := value_nearest_wider hp he hfin
    rw [convertMagnitude_finite hfin, hu]
    exact ⟨hlt.le, by omega, fun _ => hval⟩

/-- Narrowing a widened magnitude gives it back. -/
theorem convertMagnitude_convertMagnitude (hp : f.fraction ≤ g.fraction)
    (he : f.exponent ≤ g.exponent) {m : ℕ} (hm : m ≤ f.inf) :
    g.convertMagnitude f (f.convertMagnitude g m) = m := by
  obtain ⟨hle, hinf, hval⟩ := convertMagnitude_wider hp he hm
  have hu : f.unit - g.unit = 0 := Nat.sub_eq_zero_of_le (unit_le hp he)
  by_cases hfin : m = f.inf
  · rw [hfin, convertMagnitude_inf, convertMagnitude_inf]
  · rw [convertMagnitude_finite (lt_of_le_of_ne hle (mt hinf.mp hfin)),
      hval (lt_of_le_of_ne hm hfin), hu, pow_zero, Nat.mul_one, nearest_value, min_eq_right hm]

/-- Widening makes no NaN. -/
theorem isNan_convert_wider (hp : f.fraction ≤ g.fraction) (he : f.exponent ≤ g.exponent) {b : ℕ}
    (hb : f.isNan b = false) : g.isNan (f.convert g b) = false := by
  have hle := (convertMagnitude_wider hp he (isNan_eq_false.mp hb)).1
  apply isNan_eq_false.mpr
  unfold convert
  rw [sign_mod (lt_of_le_of_lt hle g.inf_lt_signBit)]
  exact hle

theorem nan_lt_signBit (hf : 1 ≤ f.fraction) : f.nan < f.signBit := by
  have hsum : f.inf + 2 ^ f.fraction = f.signBit := by
    have := Nat.two_pow_pos f.exponent
    unfold inf signBit
    rw [pow_add, ← Nat.succ_mul]
    congr 1
    omega
  have hhalf : 2 ^ (f.fraction - 1) < 2 ^ f.fraction := Nat.pow_lt_pow_right (by omega) (by omega)
  unfold nan
  omega

theorem convertMagnitude_lt (f : Format) (hg : 1 ≤ g.fraction) (m : ℕ) :
    f.convertMagnitude g m < g.signBit := by
  unfold convertMagnitude
  split
  · exact nan_lt_signBit hg
  · split
    · exact g.inf_lt_signBit
    · exact lt_of_le_of_lt (min_le_left _ _) g.inf_lt_signBit

theorem convert_lt (hg : 1 ≤ g.fraction) {b : ℕ} (hb : b < 2 * f.signBit) :
    f.convert g b < 2 * g.signBit := by
  have hm := convertMagnitude_lt f hg (b % f.signBit)
  have hs : b / f.signBit * g.signBit ≤ 1 * g.signBit := by
    apply Nat.mul_le_mul_right
    have := (Nat.div_lt_iff_lt_mul f.signBit_pos).mpr hb
    omega
  unfold convert
  omega

/-- A NaN stays one. -/
theorem isNan_convert_nan {b : ℕ} (hb : f.isNan b = true) (hg : 1 ≤ g.fraction) :
    g.isNan (f.convert g b) = true := by
  have hlt : f.inf < b % f.signBit := of_decide_eq_true hb
  have hpos := Nat.two_pow_pos (g.fraction - 1)
  unfold isNan convert convertMagnitude
  rw [if_pos hlt, sign_mod (nan_lt_signBit hg)]
  exact decide_eq_true (by unfold nan; omega)

/-- **Round trip through a wider format.** Widening a pattern that is no NaN and narrowing it back
changes nothing. -/
theorem convert_convert (hp : f.fraction ≤ g.fraction) (he : f.exponent ≤ g.exponent) {b : ℕ}
    (hb : f.isNan b = false) : g.convert f (f.convert g b) = b := by
  have hm := isNan_eq_false.mp hb
  have hlt := lt_of_le_of_lt (convertMagnitude_wider hp he hm).1 g.inf_lt_signBit
  calc g.convert f (f.convert g b)
      = b / f.signBit * f.signBit +
          g.convertMagnitude f (f.convertMagnitude g (b % f.signBit)) := by
        unfold convert
        rw [sign_mod hlt, sign_div hlt]
    _ = b / f.signBit * f.signBit + b % f.signBit := by
        rw [convertMagnitude_convertMagnitude hp he hm]
    _ = b := Nat.div_add_mod' _ _

end Format

end InfraStore.Lib
