import InfraStore.Codec

/-!
# Rows and their counts

A time step of an array of functions is a row of doubles, a ragged one with its count of points in front.
The count is stored as a double, so a count that no double is cannot be told from its neighbours.  A count
that validation accepts is one a double is, and its points lie within their row.

* `CountExact`: the counts that a double is, all those up to `2 ^ 53` among them;
* `validateRaggedRows_rows`: validation accepts exactly the arrays whose rows all fit;
* `pointsOfRow_rowOfPoints`, `stepOfRow_rowOfStep`: what a row decodes to.
-/

namespace InfraStore

open Lib Tabular

/-! ### Counts -/

/-- The double nearest to a count is the count. -/
def CountExact (n : ℕ) : Prop := (F64.ofUsize n).natValue? = some n

instance (n : ℕ) : Decidable (CountExact n) :=
  inferInstanceAs (Decidable ((F64.ofUsize n).natValue? = some n))

namespace F64

/-- The bits of a double without its sign. -/
def magnitude (v : F64) : ℕ := v.bits.toNat % 2 ^ 63

theorem magnitude_eq (v : F64) : v.magnitude = v.exponent * 2 ^ 52 + v.mantissa := by
  unfold magnitude exponent mantissa
  omega

/-- A double that is a natural number: its magnitude is worth that many ones. -/
theorem natValue_magnitude {v : F64} {n : ℕ} (h : v.natValue? = some n) :
    v.magnitude < Format.binary64.inf ∧
      Format.binary64.value v.magnitude = n * 2 ^ Format.binary64.unit ∧
      (v.isSignNegative = true → n = 0) ∧ v.isNan = false ∧ v.isFinite = true := by
  have hmant : v.mantissa < 2 ^ 52 := Nat.mod_lt _ (Nat.two_pow_pos 52)
  have hinf : Format.binary64.inf = 2047 * 2 ^ 52 := by decide
  have hunit : Format.binary64.unit = 1074 := by decide
  have hexp : v.exponent < 2048 := Nat.mod_lt _ (by decide)
  unfold natValue? at h
  split at h
  · rename_i h0
    cases h
    have hmag : v.magnitude = 0 := h0
    have hparts := v.magnitude_eq
    have he : v.exponent = 0 := by omega
    refine ⟨by rw [hmag]; decide, ?_, fun _ => rfl, ?_, ?_⟩
    · rw [hmag, Nat.zero_mul]
      decide
    · rw [isNan, he]
      rfl
    · rw [isFinite, he]
      rfl
  · split at h
    · cases h
    · rename_i hcond
      simp only [Bool.or_eq_true, Bool.not_eq_true', decide_eq_true_eq, not_or, Bool.not_eq_true,
        Bool.not_eq_false, Nat.not_lt] at hcond
      obtain ⟨⟨hsign, hfin⟩, hlow⟩ := hcond
      have hne : v.exponent ≠ 2047 := of_decide_eq_true hfin
      have hnan : v.isNan = false := by
        rw [isNan, decide_eq_false hne]
        rfl
      have hmag : v.magnitude = v.exponent * 2 ^ 52 + v.mantissa := v.magnitude_eq
      have hshift : v.magnitude / 2 ^ 52 = v.exponent := by omega
      have hvalue : Format.binary64.value v.magnitude =
          (2 ^ 52 + v.mantissa) * 2 ^ (v.exponent - 1) := by
        have hs : Format.binary64.shift v.magnitude = v.exponent - 1 := by
          show v.magnitude / 2 ^ 52 - 1 = _
          rw [hshift]
        have hm : v.magnitude - (v.exponent - 1) * 2 ^ 52 = 2 ^ 52 + v.mantissa := by omega
        unfold Format.value
        rw [hs, ← hm]
        rfl
      refine ⟨by rw [hinf, hmag]; omega, ?_, fun hneg => absurd (hneg.symm.trans hsign) (by decide),
        hnan, hfin⟩
      rw [hvalue]
      generalize Format.binary64.unit = unit at hunit ⊢
      simp only at h
      split at h
      · rename_i hbig
        rw [← Option.some.inj h]
        have hpow : v.exponent - 1023 - 52 + unit = v.exponent - 1 := by omega
        rw [Nat.mul_assoc, ← pow_add, hpow]
      · rename_i hsmall
        split at h
        · rename_i hdiv
          rw [← Option.some.inj h]
          have hexact := Nat.div_mul_cancel (Nat.dvd_of_mod_eq_zero hdiv)
          calc (2 ^ 52 + v.mantissa) * 2 ^ (v.exponent - 1)
              = (2 ^ 52 + v.mantissa) / 2 ^ (52 - (v.exponent - 1023)) *
                  2 ^ (52 - (v.exponent - 1023)) * 2 ^ (v.exponent - 1) := by rw [hexact]
            _ = (2 ^ 52 + v.mantissa) / 2 ^ (52 - (v.exponent - 1023)) * 2 ^ unit := by
                have hpow : 52 - (v.exponent - 1023) + (v.exponent - 1) = unit := by omega
                rw [Nat.mul_assoc, ← pow_add, hpow]
        · cases h

/-- The cast back gives the number a double is. -/
theorem asUsize_of_natValue {v : F64} {n : ℕ} (h : v.natValue? = some n) :
    v.asUsize = min n (usizeBound - 1) := by
  obtain ⟨-, hvalue, hneg, hnan, hfin⟩ := natValue_magnitude h
  unfold asUsize
  rw [hnan, hfin, Bool.false_or]
  by_cases hs : v.isSignNegative = true
  · rw [if_pos hs, hneg hs]
    rfl
  · rw [if_neg hs, if_neg (by decide)]
    show min (Format.binary64.value v.magnitude / _) _ = _
    rw [hvalue, Nat.mul_div_cancel _ (Nat.two_pow_pos _)]

/-- The double of the number that a double is: that double, without its sign. -/
theorem ofUsize_of_natValue {v : F64} {n : ℕ} (h : v.natValue? = some n) :
    F64.ofUsize n = ⟨UInt64.ofNat v.magnitude⟩ := by
  obtain ⟨hlt, hvalue, -⟩ := natValue_magnitude h
  have hnear := Format.nearest_value Format.binary64 v.magnitude 0
  rw [pow_zero, Nat.mul_one, hvalue, Nat.min_eq_right hlt.le] at hnear
  unfold ofUsize F64.ofInt Format.ofInt
  rw [if_neg (by omega), Int.natAbs_natCast, Nat.zero_add, hnear]

/-- A natural number is read off a double's magnitude alone. -/
theorem natValue_of_magnitude {v : F64} {n : ℕ} (h : v.natValue? = some n) :
    (⟨UInt64.ofNat v.magnitude⟩ : F64).natValue? = some n := by
  have hmag : v.magnitude < 2 ^ 63 := Nat.mod_lt _ (Nat.two_pow_pos 63)
  have hbits : (UInt64.ofNat v.magnitude).toNat = v.magnitude := toNat_ofNat_of_lt (by omega)
  by_cases h0 : v.bits.toNat % 2 ^ 63 = 0
  · have hn : n = 0 := by
      unfold natValue? at h
      rw [if_pos h0] at h
      exact (Option.some.inj h).symm
    have hzero : v.magnitude = 0 := h0
    rw [hzero, hn]
    decide
  · have hneg : v.isSignNegative = false := by
      unfold natValue? at h
      rw [if_neg h0] at h
      by_contra hs
      rw [Bool.not_eq_false] at hs
      rw [hs] at h
      cases h
    have hsame : v = ⟨UInt64.ofNat v.magnitude⟩ := by
      have hlt : v.bits.toNat < 2 ^ 63 := Nat.lt_of_not_le (of_decide_eq_false hneg)
      have hb : v.bits = UInt64.ofNat v.magnitude := by
        apply UInt64.toNat_inj.mp
        rw [hbits, magnitude, Nat.mod_eq_of_lt hlt]
      exact congrArg F64.mk hb
    rw [← hsame]
    exact h

end F64

/-- A number that some double is. -/
theorem countExact_of_natValue {v : F64} {n : ℕ} (h : v.natValue? = some n) : CountExact n := by
  unfold CountExact
  rw [F64.ofUsize_of_natValue h]
  exact F64.natValue_of_magnitude h

/-- Every count up to `2 ^ 53` is a double. -/
theorem countExact_of_le {n : ℕ} (h : n ≤ 2 ^ 53) : CountExact n := by
  by_cases h0 : n = 0
  · rw [h0]
    decide +kernel
  -- the leading bit is the exponent, and the bits below it the fraction
  obtain ⟨p, hp⟩ : ∃ p, Nat.log2 n = p := ⟨_, rfl⟩
  obtain ⟨hle, hlt⟩ := (Nat.log2_eq_iff h0).mp hp
  have hp53 : p ≤ 53 := by
    by_contra hgt
    have := Nat.pow_le_pow_right (show 0 < 2 by decide) (show 54 ≤ p by omega)
    omega
  by_cases htop : p ≤ 52
  · have hm : 2 ^ 52 ≤ n * 2 ^ (52 - p) ∧ n * 2 ^ (52 - p) < 2 ^ 53 := by
      have h1 : 2 ^ p * 2 ^ (52 - p) = 2 ^ 52 := by rw [← pow_add]; congr 1; omega
      have h2 : 2 ^ (p + 1) * 2 ^ (52 - p) = 2 ^ 53 := by rw [← pow_add]; congr 1; omega
      rw [← h1, ← h2]
      exact ⟨Nat.mul_le_mul_right _ hle, Nat.mul_lt_mul_of_pos_right hlt (Nat.two_pow_pos _)⟩
    obtain ⟨m, hmeq⟩ : ∃ m, n * 2 ^ (52 - p) = 2 ^ 52 + m := ⟨_, (Nat.add_sub_cancel' hm.1).symm⟩
    have hb : (UInt64.ofNat ((1023 + p) * 2 ^ 52 + m)).toNat = (1023 + p) * 2 ^ 52 + m :=
      toNat_ofNat_of_lt (by omega)
    apply countExact_of_natValue (v := ⟨UInt64.ofNat ((1023 + p) * 2 ^ 52 + m)⟩)
    have hexp : (⟨UInt64.ofNat ((1023 + p) * 2 ^ 52 + m)⟩ : F64).exponent = 1023 + p := by
      unfold F64.exponent
      rw [hb]
      omega
    have hmant : (⟨UInt64.ofNat ((1023 + p) * 2 ^ 52 + m)⟩ : F64).mantissa = m := by
      unfold F64.mantissa
      rw [hb]
      omega
    have hsign : (⟨UInt64.ofNat ((1023 + p) * 2 ^ 52 + m)⟩ : F64).isSignNegative = false := by
      unfold F64.isSignNegative
      rw [hb]
      exact decide_eq_false (by omega)
    have hfin : (⟨UInt64.ofNat ((1023 + p) * 2 ^ 52 + m)⟩ : F64).isFinite = true := by
      unfold F64.isFinite
      rw [hexp]
      exact decide_eq_true (by omega)
    unfold F64.natValue?
    rw [hexp, hmant, hsign, hfin, hb, if_neg (by omega), if_neg (by simp), Nat.add_sub_cancel_left]
    simp only
    rw [← hmeq]
    by_cases hp2 : 52 ≤ p
    · have : p = 52 := by omega
      rw [if_pos hp2, this]
      simp
    · rw [if_neg hp2, if_pos (Nat.mul_mod_left _ _), Nat.mul_div_cancel _ (Nat.two_pow_pos _)]
  · have hn : n = 2 ^ 53 := by
      have : p = 53 := by omega
      rw [this] at hle
      omega
    rw [hn]
    decide +kernel

/-- The cast there and back keeps a count that a machine integer is. -/
theorem CountExact.asUsize {n : ℕ} (h : CountExact n) (hn : n < usizeBound) :
    (F64.ofUsize n).asUsize = n := by
  rw [F64.asUsize_of_natValue h]
  omega

/-! ### Pieces of one size -/

section Pieces

variable {α : Type}

/-- Rows of one width are the pieces of what they make up. -/
theorem chunksExact_flatten {n : ℕ} (hn : 0 < n) {rows : List (List α)}
    (h : ∀ r ∈ rows, r.length = n) : chunksExact n rows.flatten = rows := by
  have hlen : rows.flatten.length = rows.length * n := by
    rw [List.length_flatten, List.map_congr_left h, List.map_const', List.sum_replicate_nat]
  rw [chunksExact, hlen, Nat.mul_div_cancel _ hn]
  clear hlen
  induction rows with
  | nil => rfl
  | cons r rows ih =>
    have hr := h r List.mem_cons_self
    rw [List.length_cons, pieces, List.flatten_cons, List.take_left' hr, List.drop_left' hr,
      ih fun x hx => h x (List.mem_cons_of_mem r hx)]

theorem getElem?_chunksExact {n i : ℕ} {items : List α} (hi : i < items.length / n) :
    (chunksExact n items)[i]? = some ((items.drop (i * n)).take n) :=
  getElem?_pieces items hi

theorem length_chunksExact (n : ℕ) (items : List α) :
    (chunksExact n items).length = items.length / n :=
  length_pieces _ _ _

end Pieces

/-! ### The doubles of an array -/

theorem F64.fromLeBytes_toLeBytes (v : F64) : F64.fromLeBytes v.toLeBytes = v := by
  have hnat : leNat v.toLeBytes = v.bits.toNat := by
    rw [F64.toLeBytes, u64Bytes, leNat_leBytes]
    exact Nat.mod_eq_of_lt v.bits.toNat_lt
  have hbits : UInt64.ofNat v.bits.toNat = v.bits := UInt64.ofNat_toNat
  rw [F64.fromLeBytes, hnat, hbits]

/-- The doubles that bytes spell. -/
def doublesOf (bytes : List UInt8) : List F64 := (chunksExact 8 bytes).map F64.fromLeBytes

theorem length_doublesOf (bytes : List UInt8) : (doublesOf bytes).length = bytes.length / 8 := by
  rw [doublesOf, List.length_map, length_chunksExact]

/-- Doubles come back from their bytes. -/
theorem doublesOf_flatMap (values : List F64) : doublesOf (values.flatMap F64.toLeBytes) = values := by
  have hlen : ∀ c ∈ values.map F64.toLeBytes, c.length = 8 := by
    intro c hc
    obtain ⟨v, -, rfl⟩ := List.mem_map.mp hc
    exact length_leBytes 8 _
  rw [doublesOf, List.flatMap_def, chunksExact_flatten (by decide) hlen, List.map_map]
  exact (List.map_congr_left fun v _ => F64.fromLeBytes_toLeBytes v).trans (List.map_id values)

/-! ### Validated rows -/

/-- The slots a row of so many points takes. -/
def slotsNeeded (e : ElementType) (n : ℕ) : ℕ :=
  if e = .piecewiseLinear then 2 * n + 1 else if n = 0 then 1 else 2 * n

/-- The count in front of a row is a natural number, and its points lie within the row. -/
def RowFits (e : ElementType) (width : ℕ) (r : List F64) : Prop :=
  ∃ v n, r[0]? = some v ∧ v.natValue? = some n ∧ slotsNeeded e n ≤ width ∧ slotsNeeded e n < usizeBound

/-- The slots a count is held to need, where a machine integer counts them. -/
def declaredSlots (e : ElementType) (n : ℕ) : Option ℕ :=
  if e = .piecewiseLinear then
    (checkedMul (min n (usizeBound - 1)) 2).bind fun k => if k + 1 < usizeBound then some (k + 1) else none
  else if min n (usizeBound - 1) = 0 then some 1
  else checkedMul (min n (usizeBound - 1)) 2

/-- What the check of one row's count accepts. -/
theorem declaredSlots_iff {e : ElementType} {width n : ℕ} :
    (declaredSlots e n).all (· > width) = false ↔
      slotsNeeded e n ≤ width ∧ slotsNeeded e n < usizeBound := by
  have hbound : usizeBound = 2 ^ 64 := rfl
  unfold declaredSlots checkedMul slotsNeeded
  by_cases he : e = .piecewiseLinear
  · simp only [if_pos he]
    by_cases h1 : min n (usizeBound - 1) * 2 < usizeBound
    · by_cases h2 : min n (usizeBound - 1) * 2 + 1 < usizeBound
      · simp only [if_pos h1, Option.bind_some, if_pos h2, Option.all_some, decide_eq_false_iff_not]
        omega
      · simp only [if_pos h1, Option.bind_some, if_neg h2, Option.all_none, reduceCtorEq, false_iff]
        omega
    · simp only [if_neg h1, Option.bind_none, Option.all_none, reduceCtorEq, false_iff]
      omega
  · simp only [if_neg he]
    by_cases h0 : n = 0
    · have hmin : min n (usizeBound - 1) = 0 := by omega
      simp only [if_pos h0, if_pos hmin, Option.all_some, decide_eq_false_iff_not]
      omega
    · have hmin : min n (usizeBound - 1) ≠ 0 := by omega
      simp only [if_neg h0, if_neg hmin]
      by_cases h1 : min n (usizeBound - 1) * 2 < usizeBound
      · simp only [if_pos h1, Option.all_some, decide_eq_false_iff_not]
        omega
      · simp only [if_neg h1, Option.all_none, reduceCtorEq, false_iff]
        omega

section Rows

variable [FloatText] {e : ElementType} {width : ℕ}

/-- One row of the check. -/
theorem validateRaggedRows_succ {row rows : ℕ} {bytes : List UInt8} :
    e.validateRaggedRows width row (rows + 1) bytes = .ok () ↔
      (∃ n, (ElementType.f64At bytes).natValue? = some n ∧
        slotsNeeded e n ≤ width ∧ slotsNeeded e n < usizeBound) ∧
      e.validateRaggedRows width (row + 1) rows (bytes.drop (width * 8)) = .ok () := by
  cases hv : (ElementType.f64At bytes).natValue? with
  | none =>
    simp only [ElementType.validateRaggedRows, hv]
    constructor
    · intro h
      cases h
    · rintro ⟨⟨n, hn, -⟩, -⟩
      cases hn
  | some n =>
    have hstep : ∃ err, e.validateRaggedRows width row (rows + 1) bytes =
        if (declaredSlots e n).all (· > width) then .error err
        else e.validateRaggedRows width (row + 1) rows (bytes.drop (width * 8)) := by
      simp only [ElementType.validateRaggedRows, hv]
      exact ⟨_, rfl⟩
    obtain ⟨err, herr⟩ := hstep
    rw [herr]
    cases hall : (declaredSlots e n).all (· > width) with
    | true =>
      rw [if_pos rfl]
      constructor
      · intro h
        cases h
      · rintro ⟨⟨m, hm, hfit⟩, -⟩
        cases hm
        rw [declaredSlots_iff.mpr hfit] at hall
        cases hall
    | false =>
      rw [if_neg Bool.false_ne_true]
      exact ⟨fun h => ⟨⟨n, rfl, declaredSlots_iff.mp hall⟩, h⟩, fun h => h.2⟩

/-- The check accepts exactly the bytes whose rows' counts all fit. -/
theorem validateRaggedRows_iff (row rows : ℕ) (bytes : List UInt8) :
    e.validateRaggedRows width row rows bytes = .ok () ↔ ∀ i < rows, ∃ n,
      (ElementType.f64At (bytes.drop (i * (width * 8)))).natValue? = some n ∧
        slotsNeeded e n ≤ width ∧ slotsNeeded e n < usizeBound := by
  induction rows generalizing row bytes with
  | zero => exact ⟨fun _ i hi => absurd hi (Nat.not_lt_zero i), fun _ => rfl⟩
  | succ rows ih =>
    have hshift : ∀ i, (bytes.drop (width * 8)).drop (i * (width * 8)) =
        bytes.drop ((i + 1) * (width * 8)) := by
      intro i
      rw [List.drop_drop, Nat.succ_mul, Nat.add_comm (width * 8)]
    rw [validateRaggedRows_succ, ih]
    constructor
    · intro h i hi
      cases i with
      | zero =>
        rw [Nat.zero_mul, List.drop_zero]
        exact h.1
      | succ i =>
        rw [← hshift]
        exact h.2 i (Nat.lt_of_succ_lt_succ hi)
    · intro h
      constructor
      · have h0 := h 0 (Nat.succ_pos rows)
        rwa [Nat.zero_mul, List.drop_zero] at h0
      · intro i hi
        rw [hshift]
        exact h (i + 1) (Nat.succ_lt_succ hi)

omit [FloatText] in
/-- The count in front of a row is its first double. -/
theorem rowCount_eq {bytes : List UInt8} {i : ℕ} (hw : 0 < width) (hi : i < bytes.length / (width * 8)) :
    ((doublesOf bytes).drop (i * width))[0]? = some (ElementType.f64At (bytes.drop (i * (width * 8)))) := by
  have hle : (i + 1) * (width * 8) ≤ bytes.length :=
    le_trans (Nat.mul_le_mul_right _ hi) (Nat.div_mul_le_self _ _)
  have hlt : i * width < bytes.length / 8 := by
    apply (Nat.le_div_iff_mul_le (by decide)).mpr
    rw [Nat.succ_mul] at hle
    have hassoc : i * width * 8 = i * (width * 8) := Nat.mul_assoc _ _ _
    rw [Nat.succ_mul, hassoc]
    omega
  rw [List.getElem?_drop, Nat.add_zero, doublesOf, List.getElem?_map, getElem?_chunksExact hlt,
    Option.map_some, Nat.mul_assoc]
  rfl

/-- **Validated rows.**  The check accepts exactly the arrays whose rows all fit. -/
theorem validateRaggedRows_rows (hw : 0 < width) (bytes : List UInt8) :
    e.validateRaggedRows width 0 (bytes.length / (width * 8)) bytes = .ok () ↔
      ∀ r ∈ chunksExact width (doublesOf bytes), RowFits e width r := by
  have hcount : (doublesOf bytes).length / width = bytes.length / (width * 8) := by
    rw [length_doublesOf, Nat.div_div_eq_div_mul, Nat.mul_comm 8]
  have hrow : ∀ i < bytes.length / (width * 8), ∀ r,
      (chunksExact width (doublesOf bytes))[i]? = some r →
        r[0]? = some (ElementType.f64At (bytes.drop (i * (width * 8)))) := by
    intro i hi r hr
    rw [getElem?_chunksExact (hcount ▸ hi)] at hr
    rw [← Option.some.inj hr, List.getElem?_take, if_pos hw, rowCount_eq hw hi]
  rw [validateRaggedRows_iff]
  constructor
  · intro h r hr
    obtain ⟨i, hi⟩ := List.mem_iff_getElem?.mp hr
    have hlt : i < bytes.length / (width * 8) := by
      have := (List.getElem?_eq_some_iff.mp hi).1
      rwa [length_chunksExact, hcount] at this
    obtain ⟨n, hn, hfit⟩ := h i hlt
    exact ⟨_, n, hrow i hlt r hi, hn, hfit⟩
  · intro h i hi
    have hget := @getElem?_chunksExact _ width i (doublesOf bytes) (hcount ▸ hi)
    obtain ⟨v, n, hv, hn, hfit⟩ := h _ (List.mem_of_getElem? hget)
    rw [hrow i hi _ hget] at hv
    exact ⟨n, Option.some.inj hv ▸ hn, hfit⟩

end Rows

/-! ### The rows of ragged kinds -/

theorem slot_eq_ok {r : List F64} {i : ℕ} {v : F64} : slot r i = .ok v ↔ r[i]? = some v := by
  unfold slot
  cases r[i]? with
  | none => simp
  | some w => simp

theorem slots_eq {r : List F64} {start stop : ℕ} (h : start ≤ stop ∧ stop ≤ r.length) :
    slots r start stop = .ok ((r.take stop).drop start) :=
  if_pos h

/-- The point at a place of a row. -/
def pointAt (r : List F64) (k : ℕ) : Except Halt XyPoint := do
  .ok { x := ← slot r (1 + 2 * k), y := ← slot r (2 + 2 * k) }

theorem pointsOfRow_eq {r : List F64} {v : F64} (h0 : r[0]? = some v) :
    pointsOfRow r = (List.range v.asUsize).mapM (pointAt r) := by
  unfold pointsOfRow
  rw [slot_eq_ok.mpr h0]
  rfl

theorem stepOfRow_eq {r : List F64} {v : F64} (h0 : r[0]? = some v) :
    stepOfRow r = (do
      .ok { x := ← slots r 1 (1 + v.asUsize),
            y := ← slots r (1 + v.asUsize) (if v.asUsize = 0 then 1 else 2 * v.asUsize) }) := by
  unfold stepOfRow
  rw [slot_eq_ok.mpr h0]
  rfl

/-- A row with a count decodes to that many points. -/
theorem pointsOfRow_ok {r : List F64} {v : F64} {n : ℕ} (h0 : r[0]? = some v) (hn : v.asUsize = n)
    (hfit : 2 * n + 1 ≤ r.length) : ∃ points, pointsOfRow r = .ok points ∧ points.length = n := by
  have hall : ∀ k ∈ List.range n, ∃ p, pointAt r k = .ok p := by
    intro k hk
    have hk := List.mem_range.mp hk
    have hx : slot r (1 + 2 * k) = .ok r[1 + 2 * k] := slot_eq_ok.mpr (List.getElem?_eq_getElem (by omega))
    have hy : slot r (2 + 2 * k) = .ok r[2 + 2 * k] := slot_eq_ok.mpr (List.getElem?_eq_getElem (by omega))
    unfold pointAt
    rw [hx, hy]
    exact ⟨_, rfl⟩
  obtain ⟨points, hpoints⟩ := exists_mapM_eq_ok.mpr hall
  refine ⟨points, ?_, ?_⟩
  · rw [pointsOfRow_eq h0, hn, hpoints]
  · rw [← (mapM_eq_ok.mp hpoints).length_eq, List.length_range]

/-- A row with a count decodes to a step function of that many steps. -/
theorem stepOfRow_ok {r : List F64} {v : F64} {n : ℕ} (h0 : r[0]? = some v) (hn : v.asUsize = n)
    (hfit : (if n = 0 then 1 else 2 * n) ≤ r.length) :
    ∃ step, stepOfRow r = .ok step ∧ step.x.length = n ∧ step.y.length = n - 1 ∧
      step.x = (r.take (1 + n)).drop 1 ∧ step.y = (r.take (if n = 0 then 1 else 2 * n)).drop (1 + n) := by
  have hlen : 0 < r.length := (List.getElem?_eq_some_iff.mp h0).1
  have hx : slots r 1 (1 + n) = .ok ((r.take (1 + n)).drop 1) := slots_eq ⟨by omega, by split at hfit <;> omega⟩
  have hy : slots r (1 + n) (if n = 0 then 1 else 2 * n) =
      .ok ((r.take (if n = 0 then 1 else 2 * n)).drop (1 + n)) :=
    slots_eq ⟨by split <;> omega, hfit⟩
  refine ⟨⟨(r.take (1 + n)).drop 1, (r.take (if n = 0 then 1 else 2 * n)).drop (1 + n)⟩, ?_, ?_, ?_, rfl, rfl⟩
  · rw [stepOfRow_eq h0, hn, hx, hy]
    rfl
  · rw [List.length_drop, List.length_take]
    split at hfit <;> omega
  · rw [List.length_drop, List.length_take]
    split at hfit <;> split <;> omega

theorem getElem?_points (points : List XyPoint) (k : ℕ) :
    (points.flatMap fun p => [p.x, p.y])[2 * k]? = points[k]?.map XyPoint.x ∧
      (points.flatMap fun p => [p.x, p.y])[2 * k + 1]? = points[k]?.map XyPoint.y := by
  induction points generalizing k with
  | nil => exact ⟨rfl, rfl⟩
  | cons p points ih =>
    cases k with
    | zero => exact ⟨rfl, rfl⟩
    | succ k => exact ih k

theorem length_points (points : List XyPoint) :
    (points.flatMap fun p => [p.x, p.y]).length = 2 * points.length := by
  induction points with
  | nil => rfl
  | cons p points ih =>
    have htwo : [p.x, p.y].length = 2 := rfl
    rw [List.flatMap_cons, List.length_append, ih, htwo, List.length_cons]
    omega

section Padded

variable {width : ℕ}

theorem length_rowOfPoints {points : List XyPoint} (h : 2 * points.length + 1 ≤ width) :
    (rowOfPoints width points).length = width := by
  unfold rowOfPoints
  simp only [List.length_append, List.length_replicate, List.length_cons, length_points]
  omega

theorem length_rowOfStep {step : StepFunction} (h : step.x.length + step.y.length + 1 ≤ width) :
    (rowOfStep width step).length = width := by
  unfold rowOfStep
  simp only [List.length_append, List.length_replicate, List.length_cons]
  omega

theorem rowOfPoints_count (width : ℕ) (points : List XyPoint) :
    (rowOfPoints width points)[0]? = some (F64.ofUsize points.length) := by
  unfold rowOfPoints
  rw [List.cons_append, List.getElem?_cons_zero]

theorem rowOfStep_count (width : ℕ) (step : StepFunction) :
    (rowOfStep width step)[0]? = some (F64.ofUsize step.x.length) := by
  unfold rowOfStep
  rw [List.cons_append, List.getElem?_cons_zero]

/-- **Curves.**  A curve's row decodes to the curve exactly where its count comes back from a double. -/
theorem pointsOfRow_rowOfPoints {points : List XyPoint} :
    pointsOfRow (rowOfPoints width points) = .ok points ↔
      (F64.ofUsize points.length).asUsize = points.length := by
  have h0 := rowOfPoints_count width points
  constructor
  · intro hok
    rw [pointsOfRow_eq h0] at hok
    have hlen := (mapM_eq_ok.mp hok).length_eq
    rwa [List.length_range] at hlen
  · intro hcount
    have hslot : ∀ i < 2 * points.length, (rowOfPoints width points)[i + 1]? =
        (points.flatMap fun p => [p.x, p.y])[i]? := by
      intro i hi
      unfold rowOfPoints
      rw [List.cons_append, List.getElem?_cons_succ, List.getElem?_append_left]
      rw [length_points]
      exact hi
    rw [pointsOfRow_eq h0, hcount]
    apply mapM_eq_ok.mpr
    apply List.forall₂_iff_get.mpr
    refine ⟨List.length_range, fun k hk hk' => ?_⟩
    have hx : slot (rowOfPoints width points) (1 + 2 * k) = .ok points[k].x := by
      apply slot_eq_ok.mpr
      rw [Nat.add_comm, hslot _ (by omega), (getElem?_points points k).1, List.getElem?_eq_getElem hk']
      rfl
    have hy : slot (rowOfPoints width points) (2 + 2 * k) = .ok points[k].y := by
      apply slot_eq_ok.mpr
      rw [show 2 + 2 * k = 2 * k + 1 + 1 by omega, hslot _ (by omega), (getElem?_points points k).2,
        List.getElem?_eq_getElem hk']
      rfl
    rw [List.get_eq_getElem, List.getElem_range, pointAt, hx, hy]
    rfl

/-- **Step functions.**  A step function's row decodes to it exactly where its count comes back from a
double. -/
theorem stepOfRow_rowOfStep {step : StepFunction} (hy : step.y.length = step.x.length - 1)
    (h : (if step.x.length = 0 then 1 else 2 * step.x.length) ≤ width) :
    stepOfRow (rowOfStep width step) = .ok step ↔
      (F64.ofUsize step.x.length).asUsize = step.x.length := by
  have h0 := rowOfStep_count width step
  have hlen : (rowOfStep width step).length = width := length_rowOfStep (by split at h <;> omega)
  constructor
  · intro hok
    rw [stepOfRow_eq h0] at hok
    obtain ⟨xs, hxs, hok⟩ := except_bind_eq_ok.mp hok
    obtain ⟨ys, -, hok⟩ := except_bind_eq_ok.mp hok
    have hx : xs = step.x := congrArg StepFunction.x (Except.ok.inj hok)
    unfold slots at hxs
    split at hxs
    · have hlenx := congrArg List.length (Except.ok.inj hxs)
      rw [List.length_drop, List.length_take, hx] at hlenx
      omega
    · cases hxs
  · intro hcount
    obtain ⟨s, hs, -, -, hx, hys⟩ := stepOfRow_ok h0 hcount (by rw [hlen]; exact h)
    have hrow : rowOfStep width step = F64.ofUsize step.x.length :: (step.x ++ (step.y ++
        List.replicate (width - (step.x.length + step.y.length + 1)) ⟨0⟩)) := by
      unfold rowOfStep
      simp [List.append_assoc]
    have hxeq : s.x = step.x := by
      rw [hx, hrow, Nat.add_comm, List.take_succ_cons, List.drop_succ_cons, List.drop_zero,
        List.take_left' rfl]
    have hyeq : s.y = step.y := by
      rw [hys]
      by_cases hz : step.x.length = 0
      · rw [if_pos hz, hz, List.drop_eq_nil_of_le (by simp)]
        exact (List.length_eq_zero_iff.mp (by omega)).symm
      · have hused : 2 * step.x.length = step.x.length + step.y.length + 1 := by omega
        rw [if_neg hz, hused, hrow, List.take_succ_cons, Nat.add_comm 1, List.drop_succ_cons,
          ← List.append_assoc, List.take_left' (List.length_append ..), List.drop_left' rfl]
    rw [hs]
    cases s
    cases step
    cases hxeq
    cases hyeq
    rfl

end Padded

end InfraStore
