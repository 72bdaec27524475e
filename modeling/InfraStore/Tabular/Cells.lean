import InfraStore.Tabular.Json
import InfraStore.Tabular.Partition
import InfraStore.Tabular.SeriesRows
import Mathlib.Tactic.NormNum

/-!
# Value cells

How a SQLite export spells each step of an array as one table cell, and how an import decodes one:
a plain cell for a scalar, nested JSON text for a shaped step.

* `elements`, `insertValues`: the export's rows, or the refusal of a value SQLite cannot keep;
* `valueCell`, `pushNumber`: the import's decoding, by the dtype of the partition;
* `valueCells_exact`: an exported cell reads back as its step, what the export refuses, which texts
  the import accepts, and which of them nest back to themselves.
-/

namespace InfraStore.Tabular

open Lib

/-! ### Elements -/

theorem I64.bmod_range (i : ℤ) :
    -2 ^ 63 ≤ Int.bmod i (2 ^ 64) ∧ Int.bmod i (2 ^ 64) < 2 ^ 63 := by
  have hlo := @Int.le_bmod i (2 ^ 64) (by decide)
  have hhi := @Int.bmod_lt i (2 ^ 64) (by decide)
  exact ⟨by omega, by omega⟩

/-- The `i64` an integer is, if it is one; an integer out of range wraps. -/
def I64.wrap (i : ℤ) : I64 := ⟨Int.bmod i (2 ^ 64), I64.bmod_range i⟩

theorem I64.wrap_val {i : ℤ} (h : -2 ^ 63 ≤ i ∧ i < 2 ^ 63) : (I64.wrap i).1 = i := by
  change Int.bmod i (2 ^ 64) = i
  apply Int.bmod_eq_of_le <;> omega

/-- A signed integer of `n` little-endian bytes. -/
def signedLe (n : ℕ) (c : List UInt8) : ℤ := Int.bmod (leNat c) (2 ^ (8 * n))

/-- The cell of a double: SQLite has no NaN. -/
def real (v : F64) : Value := if v.isNan then .null else .real v

/-- `f64::from(f32)`. -/
def F64.ofF32 (bits : ℕ) : F64 := ⟨UInt64.ofNat (Format.binary32.convert .binary64 bits)⟩

/-- One element of an array as a SQLite value. -/
def element : Dtype → List UInt8 → Result Value
  | .f64, c => .ok (real ⟨UInt64.ofNat (leNat c)⟩)
  | .f32, c => .ok (real (F64.ofF32 (leNat c)))
  | .i64, c => .ok (.integer (.wrap (signedLe 8 c)))
  | .i32, c => .ok (.integer (.wrap (signedLe 4 c)))
  | .i16, c => .ok (.integer (.wrap (signedLe 2 c)))
  | .i8, c => .ok (.integer (.wrap (signedLe 1 c)))
  | .u32, c => .ok (.integer (.wrap (leNat c)))
  | .u16, c => .ok (.integer (.wrap (leNat c)))
  | .u8, c => .ok (.integer (.wrap (leNat c)))
  | .bool, c => .ok (.integer (.wrap (if c.headD 0 ≠ 0 then 1 else 0)))
  | .u64, c =>
    if leNat c < 2 ^ 63 then .ok (.integer (.wrap (leNat c)))
    else .error (unsupported s!"u64 value {leNat c} does not fit a SQLite INTEGER")

/-- The whole elements of an array, as their bytes. -/
def elementBytes (a : TypedArray) : List (List UInt8) := chunksExact a.dtype.size a.bytes

/-- Every element of an array as a SQLite value, in row-major order. -/
def elements (a : TypedArray) : Result (List Value) := (elementBytes a).mapM (element a.dtype)

/-! ### The rows of an export -/

/-- One row of a values table. -/
structure ValuesRecord where
  arrayId : ℤ
  timestamp : ℤ
  issue : Option ℤ
  lane : Option LaneValue
  value : Value
  deriving DecidableEq

/-- Whether a kind's cells are plain numbers. -/
def ValueKind.scalar : ValueKind → Bool
  | .dense _ [] => true
  | _ => false

def negativeZero : F64 := ⟨0x8000000000000000⟩

/-- The record of one row: the cells of its step as a plain cell or as nested text. -/
def recordOf [SerdeJson] (arrayId : ℤ) (rows : SeriesRows) (kind : ValueKind)
    (elements : List Value) (row : RowAt) : ValuesRecord :=
  let cells := stepOf (perStep rows.shape) row.offset elements
  { arrayId
    timestamp := row.target
    issue := row.issue
    lane := row.lane
    value :=
      if kind.scalar then cells.headD .null
      else .text (SerdeJson.toText (nest rows.shape cells)) }

/-- The value rows of one array, or none when it holds a scalar `-0.0`, which a SQLite `REAL` reads
back as `+0.0`. -/
def insertValues [SerdeJson] (arrayId : ℤ) (name : String) (rows : SeriesRows) (kind : ValueKind) :
    Result (Option (List ValuesRecord)) := do
  let elements ← elements rows.array
  if kind.scalar && elements.contains (.real negativeZero) then
    .ok none
  else
    let records ← rows.rows.mapM fun row =>
      if elements.length < row.offset * perStep rows.shape + perStep rows.shape then
        .error (unsupported s!"series '{name}' is shorter than its shape")
      else
        .ok (recordOf arrayId rows kind elements row)
    .ok (some records)

/-- What SQLite answers for a cell it was given: a `REAL` has no `-0.0` and no `NaN`. -/
def Value.stored : Value → Value
  | .real v => if v.isNan then .null else if v = negativeZero then .real ⟨0⟩ else .real v
  | v => v

/-! ### Decoding -/

/-- A number as a double; `NULL` is `NaN`. -/
def Num.toF64 : Num → F64
  | .int i => F64.ofInt i.1
  | .real v => v
  | .null => F64.canonicalNan

/-- One leaf as an integer dtype from `lo` up to below `hi`; it is never rounded into place. -/
def pushInt (dtype : Dtype) (lo hi : ℤ) : Num → Result (List UInt8)
  | .int i =>
    if lo ≤ i.1 ∧ i.1 < hi then .ok (leBytes dtype.size (i.1 % 2 ^ (8 * dtype.size)).toNat)
    else .error (unsupported s!"{i.1} does not fit a {dtype.asStr}")
  | _ => .error (unsupported s!"a {dtype.asStr} array holds a value that is not an integer")

/-- Encode one leaf as a dtype, little-endian. -/
def pushNumber : Dtype → Num → Result (List UInt8)
  | .f64, n => .ok (leBytes 8 n.toF64.bits.toNat)
  | .f32, n => .ok (leBytes 4 (Format.binary64.convert .binary32 n.toF64.bits.toNat))
  | .i64, n => pushInt .i64 (-2 ^ 63) (2 ^ 63) n
  | .i32, n => pushInt .i32 (-2 ^ 31) (2 ^ 31) n
  | .i16, n => pushInt .i16 (-2 ^ 15) (2 ^ 15) n
  | .i8, n => pushInt .i8 (-2 ^ 7) (2 ^ 7) n
  | .u64, n => pushInt .u64 0 (2 ^ 64) n
  | .u32, n => pushInt .u32 0 (2 ^ 32) n
  | .u16, n => pushInt .u16 0 (2 ^ 16) n
  | .u8, n => pushInt .u8 0 (2 ^ 8) n
  | .bool, .int i =>
    if i.1 = 0 then .ok [0]
    else if i.1 = 1 then .ok [1]
    else .error (unsupported "a bool array holds a value other than 0 or 1")
  | .bool, _ => .error (unsupported "a bool array holds a value other than 0 or 1")

/-- The shape of a cell and its leaves. -/
def cellNumbers [SerdeJson] : Value → Result (List ℕ × List Num)
  | .text text =>
    match SerdeJson.fromText text with
    | .error e => .error (unsupported s!"a `value` cell is not JSON: {e}")
    | .ok json => do
      let s ← flatten json 0 ⟨[], none, []⟩
      .ok (s.dims, s.out)
  | .integer n => .ok ([], [.int n])
  | .real v => .ok ([], [.real v])
  | .null => .ok ([], [.null])
  | .blob _ =>
    .error (unsupported "a `value` cell is a blob; the layout writes numbers or JSON text")

/-- Decode a `value` cell: its shape and its element bytes. -/
def valueCell [SerdeJson] (dtype : Dtype) (cell : Value) : Result (List ℕ × List UInt8) := do
  let (dims, numbers) ← cellNumbers cell
  let bytes ← numbers.mapM (pushNumber dtype)
  .ok (dims, bytes.flatten)

/-- One values-table row, decoded. -/
structure ValueRow where
  timestamp : DateTime
  issue : Option DateTime
  lane : Option LaneValue
  dims : List ℕ
  bytes : List UInt8

/-- An instant out of a column of milliseconds. -/
def instant (ms : ℤ) : Result DateTime :=
  match DateTime.fromTimestampMillis ms with
  | some t => .ok t
  | none => .error (unsupported s!"timestamp {ms} ms is not representable")

/-- Decode one row of a values table. -/
def valueRow [SerdeJson] (dtype : Dtype) (row : ValuesRecord) : Result ValueRow := do
  let timestamp ← instant row.timestamp
  let issue ← row.issue.mapM instant
  let (dims, bytes) ← valueCell dtype row.value
  .ok { timestamp, issue, lane := row.lane, dims, bytes }

/-! ### One element -/

theorem leNat_lt (c : List UInt8) : leNat c < 256 ^ c.length := by
  induction c with
  | nil => exact Nat.one_pos
  | cons b c ih =>
    have hb := b.toNat_lt
    rw [leNat, List.length_cons, pow_succ]
    omega

theorem leBytes_leNat (c : List UInt8) : leBytes c.length (leNat c) = c := by
  induction c with
  | nil => rfl
  | cons b c ih =>
    have hb := b.toNat_lt
    have hdiv : (b.toNat + 256 * leNat c) / 256 = leNat c := by omega
    have hmod : UInt8.ofNat (b.toNat + 256 * leNat c) = b := by
      apply UInt8.toNat_inj.mp
      rw [UInt8.toNat_ofNat']
      omega
    rw [List.length_cons, leNat, leBytes, hdiv, ih, hmod]

/-- The element bytes an import writes for an element: one NaN for all of them, and one byte for
every true boolean. -/
def normalElement : Dtype → List UInt8 → List UInt8
  | .f64, c => if isNan64 c then canonicalNan64 else c
  | .f32, c => if isNan32 c then canonicalNan32 else c
  | .bool, c => if c.headD 0 ≠ 0 then [1] else [0]
  | _, c => c

theorem isElement_real (v : F64) : (real v).IsElement := by
  unfold real
  cases h : v.isNan with
  | false => exact h
  | true => trivial

theorem num_real (v : F64) : (real v).num = if v.isNan then .null else .real v := by
  unfold real
  cases v.isNan <;> rfl

theorem toNat_ofNat_of_lt {n : ℕ} (h : n < 2 ^ 64) : (UInt64.ofNat n).toNat = n := by
  rw [UInt64.toNat_ofNat', Nat.mod_eq_of_lt h]

/-- An integer leaf in range is the bytes it was read from. -/
theorem pushInt_wrap {dtype : Dtype} {lo hi i : ℤ} {c : List UInt8} (hc : c.length = dtype.size)
    (hrange : lo ≤ i ∧ i < hi) (h64 : -2 ^ 63 ≤ i ∧ i < 2 ^ 63)
    (hbits : i % 2 ^ (8 * dtype.size) = leNat c) :
    pushInt dtype lo hi (.int (.wrap i)) = .ok c := by
  rw [pushInt, I64.wrap_val h64, if_pos hrange, hbits, Int.toNat_natCast, ← hc, leBytes_leNat]

theorem leNat_lt_two_pow {dtype : Dtype} {c : List UInt8} (hc : c.length = dtype.size) :
    leNat c < 2 ^ (8 * dtype.size) := by
  rw [← hc, pow_mul]
  exact leNat_lt c

theorem pushInt_signed {dtype : Dtype} {lo hi : ℤ} {c : List UInt8} (hc : c.length = dtype.size)
    (hlo : 2 * lo = -2 ^ (8 * dtype.size)) (hhi : 2 * hi = 2 ^ (8 * dtype.size))
    (h64 : hi ≤ 2 ^ 63) :
    pushInt dtype lo hi (.int (.wrap (signedLe dtype.size c))) = .ok c := by
  have hpos : 0 < 2 ^ (8 * dtype.size) := Nat.two_pow_pos _
  have hcast : ((2 ^ (8 * dtype.size) : ℕ) : ℤ) = 2 ^ (8 * dtype.size) := by push_cast; rfl
  have hle := @Int.le_bmod (leNat c) _ hpos
  have hlt := @Int.bmod_lt (leNat c) _ hpos
  rw [hcast] at hle hlt
  have hrange : lo ≤ signedLe dtype.size c ∧ signedLe dtype.size c < hi := by
    unfold signedLe
    omega
  apply pushInt_wrap hc hrange ⟨by omega, by omega⟩
  have hmod : signedLe dtype.size c % (2 ^ (8 * dtype.size) : ℕ) =
      (leNat c : ℤ) % (2 ^ (8 * dtype.size) : ℕ) := Int.bmod_emod
  rw [hcast] at hmod
  rw [hmod]
  have := leNat_lt_two_pow hc
  exact Int.emod_eq_of_lt (by omega) (by rw [← hcast]; omega)

theorem pushInt_unsigned {dtype : Dtype} {hi : ℤ} {c : List UInt8} (hc : c.length = dtype.size)
    (hhi : hi = 2 ^ (8 * dtype.size)) (h64 : leNat c < 2 ^ 63) :
    pushInt dtype 0 hi (.int (.wrap (leNat c))) = .ok c := by
  have hlt : (leNat c : ℤ) < 2 ^ (8 * dtype.size) := by
    exact_mod_cast leNat_lt_two_pow hc
  apply pushInt_wrap hc ⟨by omega, by omega⟩ ⟨by omega, by omega⟩
  exact Int.emod_eq_of_lt (by omega) hlt

theorem isNan_ofNat {n : ℕ} (h : n < 2 ^ 64) :
    (⟨UInt64.ofNat n⟩ : F64).isNan = Format.binary64.isNan n := by
  have hb : (⟨UInt64.ofNat n⟩ : F64).bits.toNat = n := toNat_ofNat_of_lt h
  have hinf : Format.binary64.inf = 0x7ff0000000000000 := by decide
  have hsign : Format.binary64.signBit = 2 ^ 63 := by decide
  unfold F64.isNan F64.exponent F64.mantissa Format.isNan
  rw [hb, hinf, hsign]
  apply Bool.eq_iff_iff.mpr
  rw [Bool.and_eq_true, decide_eq_true_iff, decide_eq_true_iff, decide_eq_true_iff]
  omega

theorem isNan64_eq {c : List UInt8} (h : c.length = 8) :
    isNan64 c = (⟨UInt64.ofNat (leNat c)⟩ : F64).isNan := by
  have hlt : leNat c < 2 ^ 64 := lt_of_lt_of_eq (leNat_lt c) (by rw [h]; rfl)
  unfold isNan64 F64.isNan F64.exponent F64.mantissa
  rw [toNat_ofNat_of_lt hlt]

theorem isNan32_eq (c : List UInt8) : isNan32 c = Format.binary32.isNan (leNat c) := by
  have hinf : Format.binary32.inf = 0x7f800000 := by decide
  have hsign : Format.binary32.signBit = 2 ^ 31 := by decide
  unfold isNan32 Format.isNan
  rw [hinf, hsign]
  apply Bool.eq_iff_iff.mpr
  rw [Bool.and_eq_true, decide_eq_true_iff, decide_eq_true_iff, decide_eq_true_iff]
  omega

theorem pushNumber_real (dtype : Dtype) (v : F64) :
    pushNumber dtype (real v).num =
      if v.isNan then pushNumber dtype .null else pushNumber dtype (.real v) := by
  rw [num_real]
  split <;> rfl

theorem push_f64 {c : List UInt8} (hc : c.length = 8) :
    pushNumber .f64 (real ⟨UInt64.ofNat (leNat c)⟩).num = .ok (normalElement .f64 c) := by
  have hlt : leNat c < 2 ^ 64 := lt_of_lt_of_eq (leNat_lt c) (by rw [hc]; rfl)
  rw [pushNumber_real, ← isNan64_eq hc, normalElement]
  split
  · rfl
  · rw [pushNumber, Num.toF64, toNat_ofNat_of_lt hlt, ← hc, leBytes_leNat]

theorem push_f32 {c : List UInt8} (hc : c.length = 4) :
    pushNumber .f32 (real (F64.ofF32 (leNat c))).num = .ok (normalElement .f32 c) := by
  have hlt := leNat_lt c
  rw [hc] at hlt
  have hwide : Format.binary32.convert .binary64 (leNat c) < 2 ^ 64 :=
    Format.convert_lt (by decide) (lt_of_lt_of_le hlt (by decide))
  have hnan : (F64.ofF32 (leNat c)).isNan = isNan32 c := by
    rw [F64.ofF32, isNan_ofNat hwide, isNan32_eq c]
    cases hn : Format.binary32.isNan (leNat c) with
    | false => exact Format.isNan_convert_wider (by decide) (by decide) hn
    | true => exact Format.isNan_convert_nan hn (by decide)
  rw [pushNumber_real, hnan, normalElement]
  split
  · decide +kernel
  · rename_i hn
    have hn' : Format.binary32.isNan (leNat c) = false := by
      rw [← isNan32_eq c]
      simpa using hn
    rw [pushNumber, Num.toF64, F64.ofF32, toNat_ofNat_of_lt hwide,
      Format.convert_convert (by decide) (by decide) hn', ← hc, leBytes_leNat]

/-- **One element.** What the export makes of an element's bytes, the import makes those bytes of
again; the export refuses only a `u64` past `i64`. -/
theorem push_element {dtype : Dtype} {c : List UInt8} {v : Value} (hc : c.length = dtype.size)
    (h : element dtype c = .ok v) :
    v.IsElement ∧ pushNumber dtype v.num = .ok (normalElement dtype c) := by
  have hlt := leNat_lt_two_pow hc
  cases dtype with
  | f64 =>
    cases h
    exact ⟨isElement_real _, push_f64 hc⟩
  | f32 =>
    cases h
    exact ⟨isElement_real _, push_f32 hc⟩
  | i64 =>
    cases h
    refine ⟨trivial, ?_⟩
    rw [pushNumber]
    exact pushInt_signed hc (by norm_num [Dtype.size]) (by norm_num [Dtype.size]) (by norm_num)
  | i32 =>
    cases h
    refine ⟨trivial, ?_⟩
    rw [pushNumber]
    exact pushInt_signed hc (by norm_num [Dtype.size]) (by norm_num [Dtype.size]) (by norm_num)
  | i16 =>
    cases h
    refine ⟨trivial, ?_⟩
    rw [pushNumber]
    exact pushInt_signed hc (by norm_num [Dtype.size]) (by norm_num [Dtype.size]) (by norm_num)
  | i8 =>
    cases h
    refine ⟨trivial, ?_⟩
    rw [pushNumber]
    exact pushInt_signed hc (by norm_num [Dtype.size]) (by norm_num [Dtype.size]) (by norm_num)
  | u64 =>
    rw [element] at h
    split at h
    · cases h
      refine ⟨trivial, ?_⟩
      rw [pushNumber]
      exact pushInt_unsigned hc (by norm_num [Dtype.size]) ‹_›
    · cases h
  | u32 =>
    cases h
    refine ⟨trivial, ?_⟩
    rw [pushNumber]
    exact pushInt_unsigned hc (by norm_num [Dtype.size]) (lt_trans hlt (by decide))
  | u16 =>
    cases h
    refine ⟨trivial, ?_⟩
    rw [pushNumber]
    exact pushInt_unsigned hc (by norm_num [Dtype.size]) (lt_trans hlt (by decide))
  | u8 =>
    cases h
    refine ⟨trivial, ?_⟩
    rw [pushNumber]
    exact pushInt_unsigned hc (by norm_num [Dtype.size]) (lt_trans hlt (by decide))
  | bool =>
    cases h
    refine ⟨trivial, ?_⟩
    rw [normalElement]
    split <;> rfl

/-! ### One cell -/

/-- A traversal that refuses some elements and maps the others. -/
theorem mapM_guard_eq_ok {ε α β : Type} {p : α → Prop} [DecidablePred p] {e : α → ε} {g : α → β}
    {as : List α} {bs : List β} :
    as.mapM (fun a => if p a then Except.error (e a) else Except.ok (g a)) = Except.ok bs ↔
      (∀ a ∈ as, ¬ p a) ∧ bs = as.map g := by
  rw [mapM_eq_ok]
  constructor
  · intro h
    induction h with
    | nil => exact ⟨fun _ ha => (List.not_mem_nil ha).elim, rfl⟩
    | cons hab _ ih =>
      split at hab
      · cases hab
      · rename_i hp
        cases hab
        obtain ⟨hall, rfl⟩ := ih
        exact ⟨List.forall_mem_cons.mpr ⟨hp, hall⟩, rfl⟩
  · rintro ⟨h, rfl⟩
    apply List.forall₂_map_right_iff.mpr
    apply List.forall₂_same.mpr
    intro a ha
    exact if_neg (h a ha)

/-- An element's bytes and its cell. -/
def ReadsBack (dtype : Dtype) (c : List UInt8) (v : Value) : Prop :=
  v.IsElement ∧ pushNumber dtype v.num = .ok (normalElement dtype c)

/-- The cells of an array are its elements, one by one. -/
theorem elements_push {a : TypedArray} {els : List Value} (h : elements a = .ok els) :
    List.Forall₂ (ReadsBack a.dtype) (elementBytes a) els := by
  have hlen : ∀ c ∈ elementBytes a, c.length = a.dtype.size := length_of_mem_chunksExact
  have hall := (List.forall₂_and_left _ _).mpr ⟨hlen, mapM_eq_ok.mp h⟩
  exact hall.imp fun _ _ h => push_element h.1 h.2

theorem mapM_pushNumber {dtype : Dtype} {cs : List (List UInt8)} {cells : List Value}
    (h : List.Forall₂ (ReadsBack dtype) cs cells) :
    (cells.map Value.num).mapM (pushNumber dtype) = .ok (cs.map (normalElement dtype)) := by
  apply mapM_eq_ok.mpr
  rw [List.forall₂_map_left_iff, List.forall₂_map_right_iff]
  exact h.flip.imp fun _ _ h => h.2

theorem isElement_of_forall₂ {dtype : Dtype} {cs : List (List UInt8)} {cells : List Value}
    (h : List.Forall₂ (ReadsBack dtype) cs cells) : ∀ v ∈ cells, v.IsElement := by
  induction h with
  | nil => exact fun _ hv => (List.not_mem_nil hv).elim
  | cons h _ ih =>
    intro v hv
    cases hv with
    | head => exact h.1
    | tail _ hv => exact ih v hv

section Cell

variable [SerdeJson] {dtype : Dtype} {cs : List (List UInt8)} {cells : List Value}

/-- A shaped step reads back from its JSON text. -/
theorem valueCell_text {shape : List ℕ} (hne : shape ≠ []) (h0 : 0 ∉ shape)
    (hlen : cells.length = shape.prod) (h : List.Forall₂ (ReadsBack dtype) cs cells)
    (hexact : (nest shape cells).Exact) :
    valueCell dtype (.text (SerdeJson.toText (nest shape cells))) =
      .ok (shape, (cs.map (normalElement dtype)).flatten) := by
  have hflat := (flatten_eq_ok (nest shape cells) ⟨shape, leafOf 0 shape, cells.map Value.num⟩).mpr
    ⟨nests_nest hne h0 hlen (isElement_of_forall₂ h), rfl⟩
  have hnum : cellNumbers (.text (SerdeJson.toText (nest shape cells))) =
      .ok (shape, cells.map Value.num) := by
    rw [cellNumbers, hexact]
    simp only [hflat, bind, Except.bind]
  unfold valueCell
  rw [hnum]
  simp only [bind, Except.bind, mapM_pushNumber h]

/-- A scalar step reads back from its plain cell, unless it is negative zero. -/
theorem valueCell_scalar {v : Value} {c : List UInt8} (h : ReadsBack dtype c v)
    (hz : v ≠ .real negativeZero) : valueCell dtype v.stored = .ok ([], normalElement dtype c) := by
  have hstored : v.stored = v := by
    cases v with
    | real v =>
      rw [Value.stored, if_neg (by rw [h.1]; decide), if_neg fun he => hz (by rw [he])]
    | _ => rfl
  have hnum : cellNumbers v = .ok ([], [v.num]) := by
    cases v with
    | text s => exact h.1.elim
    | blob b => exact h.1.elim
    | _ => rfl
  unfold valueCell
  rw [hstored, hnum]
  simp only [bind, Except.bind, List.mapM_cons, List.mapM_nil, h.2, pure, Except.pure,
    List.flatten_cons, List.flatten_nil, List.append_nil]

end Cell

/-! ### Exported cells read back -/

theorem scalar_of {elementType : ElementType} {shape : List ℕ}
    (h : shape = [] → ∃ d, elementType = .scalar d) :
    (ValueKind.of elementType shape).scalar = true ↔ shape = [] := by
  cases elementType with
  | scalar d =>
    rw [ValueKind.of]
    cases shape <;> simp [ValueKind.scalar]
  | _ =>
    have hne : shape ≠ [] := by
      intro he
      obtain ⟨d, hd⟩ := h he
      cases hd
    simp [ValueKind.of, ValueKind.scalar, hne]

/-- The element bytes an import makes of one step. -/
def stepBytes (rows : SeriesRows) (row : RowAt) : List UInt8 :=
  ((stepOf (perStep rows.shape) row.offset (elementBytes rows.array)).map
    (normalElement rows.array.dtype)).flatten

/-- What an export can write: no `u64` past `i64`, no scalar `-0.0`, and every row within the
array. -/
structure Exportable (rows : SeriesRows) : Prop where
  fits : rows.array.dtype = .u64 → ∀ c ∈ elementBytes rows.array, leNat c < 2 ^ 63
  signed : rows.shape = [] →
    ∀ c ∈ elementBytes rows.array, element rows.array.dtype c ≠ .ok (.real negativeZero)
  within : ∀ row ∈ rows.rows,
    row.offset * perStep rows.shape + perStep rows.shape ≤ (elementBytes rows.array).length

theorem exists_elements {a : TypedArray} :
    (∃ els, elements a = .ok els) ↔
      (a.dtype = .u64 → ∀ c ∈ elementBytes a, leNat c < 2 ^ 63) := by
  have hone : ∀ c, (∃ v, element a.dtype c = .ok v) ↔ (a.dtype = .u64 → leNat c < 2 ^ 63) := by
    intro c
    cases a.dtype with
    | u64 =>
      rw [element]
      by_cases h : leNat c < 2 ^ 63
      · rw [if_pos h]
        exact ⟨fun _ _ => h, fun _ => ⟨_, rfl⟩⟩
      · rw [if_neg h]
        constructor
        · rintro ⟨v, hv⟩
          cases hv
        · intro h'
          exact (h (h' rfl)).elim
    | _ => simp [element]
  unfold elements
  rw [exists_mapM_eq_ok]
  constructor
  · intro h hd c hc
    exact (hone c).mp (h c hc) hd
  · intro h c hc
    exact (hone c).mpr fun hd => h hd c hc

/-- Whether some element is a negative zero, by its bytes. -/
theorem mem_elements {a : TypedArray} {els : List Value} (h : elements a = .ok els) (v : Value) :
    v ∈ els ↔ ∃ c ∈ elementBytes a, element a.dtype c = .ok v := by
  constructor
  · intro hv
    exact mapM_origin h hv
  · rintro ⟨c, hc, he⟩
    obtain ⟨w, hw, he'⟩ := mapM_covers h hc
    rw [he] at he'
    cases he'
    exact hw

theorem stepOf_forall₂ {dtype : Dtype} {cs : List (List UInt8)} {els : List Value} (per offset : ℕ)
    (h : List.Forall₂ (ReadsBack dtype) cs els) :
    List.Forall₂ (ReadsBack dtype) (stepOf per offset cs) (stepOf per offset els) :=
  List.forall₂_take _ (List.forall₂_drop _ h)

theorem length_elementBytes (rows : SeriesRows) :
    (elementBytes rows.array).length = rows.leading.prod * rows.shape.prod := by
  unfold elementBytes chunksExact
  have hwf : rows.array.bytes.length = rows.array.shape.prod * rows.array.dtype.size :=
    rows.wellFormed
  rw [length_pieces, hwf, Nat.mul_div_cancel _ (Dtype.size_pos _), rows.array_shape,
    List.prod_append]

section Export

variable [SerdeJson]

/-- What an export wrote: the elements, and one record a row. -/
theorem insertValues_eq_ok {arrayId : ℤ} {name : String} {rows : SeriesRows} {kind : ValueKind}
    {records : List ValuesRecord} :
    insertValues arrayId name rows kind = .ok (some records) ↔
      ∃ els, elements rows.array = .ok els ∧
        (kind.scalar = true → Value.real negativeZero ∉ els) ∧
        (∀ row ∈ rows.rows,
          row.offset * perStep rows.shape + perStep rows.shape ≤ els.length) ∧
        records = rows.rows.map (recordOf arrayId rows kind els) := by
  unfold insertValues
  constructor
  · intro h
    obtain ⟨els, hels, h⟩ := except_bind_eq_ok.mp h
    split at h
    · cases h
    · rename_i hz
      obtain ⟨records', hrecords, h⟩ := except_bind_eq_ok.mp h
      cases h
      obtain ⟨hwithin, rfl⟩ := mapM_guard_eq_ok.mp hrecords
      refine ⟨els, hels, fun hs hmem => hz ?_, fun row hr => Nat.not_lt.mp (hwithin row hr), rfl⟩
      rw [hs, Bool.true_and]
      exact List.contains_iff_mem.mpr hmem
  · rintro ⟨els, hels, hz, hwithin, hrecords⟩
    have hz' : ¬ (kind.scalar && els.contains (.real negativeZero)) = true := by
      intro h
      rw [Bool.and_eq_true] at h
      exact hz h.1 (List.contains_iff_mem.mp h.2)
    refine except_bind_eq_ok.mpr ⟨els, hels, ?_⟩
    rw [if_neg hz']
    exact except_bind_eq_ok.mpr ⟨records, mapM_guard_eq_ok.mpr
      ⟨fun row hr => Nat.not_lt.mpr (hwithin row hr), hrecords⟩, rfl⟩

/-- **Exported cells.** Where the export writes its rows, each one's cell is stored and read back as
the shape and the element bytes of its step. -/
theorem valueCell_recordOf {arrayId : ℤ} {rows : SeriesRows} {kind : ValueKind} {els : List Value}
    (hels : elements rows.array = .ok els) (hkind : kind.scalar = true ↔ rows.shape = [])
    (hz : kind.scalar = true → Value.real negativeZero ∉ els) {row : RowAt}
    (hwithin : row.offset * perStep rows.shape + perStep rows.shape ≤ els.length)
    (hexact : rows.shape ≠ [] →
      (nest rows.shape (stepOf (perStep rows.shape) row.offset els)).Exact) :
    valueCell rows.array.dtype (recordOf arrayId rows kind els row).value.stored =
      .ok (rows.shape, stepBytes rows row) := by
  have hall := elements_push hels
  have hlen : els.length = rows.leading.prod * rows.shape.prod := by
    rw [← hall.length_eq, length_elementBytes]
  have h0 : 0 ∉ rows.shape := by
    intro h
    rw [List.prod_eq_zero h, Nat.mul_zero] at hlen
    unfold perStep at hwithin
    omega
  have hper : perStep rows.shape = rows.shape.prod :=
    max_eq_right (Nat.pos_of_ne_zero fun h => h0 (List.prod_eq_zero_iff.mp h))
  have hstep := stepOf_forall₂ (perStep rows.shape) row.offset hall
  have hcells : (stepOf (perStep rows.shape) row.offset els).length = rows.shape.prod := by
    unfold stepOf
    rw [List.length_take, List.length_drop, ← hper]
    omega
  by_cases hs : rows.shape = []
  · have hone : (stepOf (perStep rows.shape) row.offset els).length = 1 := by
      rw [hcells, hs]
      rfl
    obtain ⟨v, hv⟩ := List.length_eq_one_iff.mp hone
    rw [hv] at hstep
    have hmem : v ∈ els := by
      apply List.mem_of_mem_drop
      apply List.mem_of_mem_take
      change v ∈ stepOf (perStep rows.shape) row.offset els
      rw [hv]
      exact List.mem_singleton_self v
    unfold recordOf stepBytes
    simp only [hkind.mpr hs, if_true, hv, List.headD_cons]
    cases hc : stepOf (perStep rows.shape) row.offset (elementBytes rows.array) with
    | nil =>
      rw [hc] at hstep
      cases hstep
    | cons c cs =>
      rw [hc] at hstep
      cases hstep with
      | cons h hnil =>
        cases hnil
        rw [valueCell_scalar h fun he => hz (hkind.mpr hs) (he ▸ hmem), hs]
        simp
  · have hk : kind.scalar = false := by
      rw [← Bool.not_eq_true]
      exact fun h => hs (hkind.mp h)
    unfold recordOf
    simp only [hk, Bool.false_eq_true, if_false]
    exact valueCell_text hs h0 hcells hstep (hexact hs)

theorem exists_insertValues {arrayId : ℤ} {name : String} {rows : SeriesRows} {kind : ValueKind}
    (hkind : kind.scalar = true ↔ rows.shape = []) :
    (∃ records, insertValues arrayId name rows kind = .ok (some records)) ↔ Exportable rows := by
  constructor
  · rintro ⟨records, h⟩
    obtain ⟨els, hels, hz, hwithin, -⟩ := insertValues_eq_ok.mp h
    refine ⟨exists_elements.mp ⟨els, hels⟩, fun hs c hc he => ?_, fun row hr => ?_⟩
    · exact hz (hkind.mpr hs) ((mem_elements hels _).mpr ⟨c, hc, he⟩)
    · rw [(elements_push hels).length_eq]
      exact hwithin row hr
  · intro h
    obtain ⟨els, hels⟩ := exists_elements.mpr h.fits
    refine ⟨_, insertValues_eq_ok.mpr ⟨els, hels, fun hk hmem => ?_, fun row hr => ?_, rfl⟩⟩
    · obtain ⟨c, hc, he⟩ := (mem_elements hels _).mp hmem
      exact h.signed (hkind.mp hk) c hc he
    · rw [← (elements_push hels).length_eq]
      exact h.within row hr

/-- A text is decoded exactly when it is JSON, a rectangular nesting, and every leaf fits the
dtype. -/
theorem valueCell_text_eq_ok {dtype : Dtype} {text : String} {dims : List ℕ} {bytes : List UInt8} :
    valueCell dtype (.text text) = .ok (dims, bytes) ↔
      ∃ json nums parts, SerdeJson.fromText text = .ok json ∧ Nests dims nums json ∧
        nums.mapM (pushNumber dtype) = .ok parts ∧ bytes = parts.flatten := by
  unfold valueCell
  constructor
  · intro h
    obtain ⟨⟨dims', nums⟩, hnum, h⟩ := except_bind_eq_ok.mp h
    obtain ⟨parts, hparts, h⟩ := except_bind_eq_ok.mp h
    cases h
    rw [cellNumbers] at hnum
    split at hnum
    · cases hnum
    · rename_i json hjson
      obtain ⟨s, hs, hnum⟩ := except_bind_eq_ok.mp hnum
      cases hnum
      exact ⟨json, _, parts, hjson, ((flatten_eq_ok json s).mp hs).1, hparts, rfl⟩
  · rintro ⟨json, nums, parts, hjson, hn, hparts, rfl⟩
    have hflat := (flatten_eq_ok json ⟨dims, leafOf 0 dims, nums⟩).mpr ⟨hn, rfl⟩
    refine except_bind_eq_ok.mpr ⟨(dims, nums), ?_, except_bind_eq_ok.mpr ⟨parts, hparts, rfl⟩⟩
    rw [cellNumbers, hjson]
    exact except_bind_eq_ok.mpr ⟨_, hflat, rfl⟩

/-- **Value cells are exact.** The export writes an array's rows unless a `u64` is past `i64`, a
scalar is `-0.0` or a row is past the array; every cell it writes reads back as the shape and the
elements of its step; a text is accepted exactly when it is a rectangular nesting whose leaves fit
the dtype; and what was read off an array nests back to it exactly when it could have been
written. -/
theorem valueCells_exact (arrayId : ℤ) (name : String) (rows : SeriesRows)
    (elementType : ElementType) (hscalar : rows.shape = [] → ∃ d, elementType = .scalar d) :
    ((∃ records, insertValues arrayId name rows (.of elementType rows.shape) = .ok (some records)) ↔
      Exportable rows) ∧
    (∀ records, insertValues arrayId name rows (.of elementType rows.shape) = .ok (some records) →
      (∀ els, elements rows.array = .ok els → rows.shape ≠ [] → ∀ row ∈ rows.rows,
        (nest rows.shape (stepOf (perStep rows.shape) row.offset els)).Exact) →
      List.Forall₂ (fun row record => record.timestamp = row.target ∧ record.issue = row.issue ∧
        record.lane = row.lane ∧
        valueCell rows.array.dtype record.value.stored = .ok (rows.shape, stepBytes rows row))
        rows.rows records) ∧
    (∀ dtype text dims bytes, valueCell dtype (.text text) = .ok (dims, bytes) ↔
      ∃ json nums parts, SerdeJson.fromText text = .ok json ∧ Nests dims nums json ∧
        nums.mapM (pushNumber dtype) = .ok parts ∧ bytes = parts.flatten) ∧
    (∀ dims nums items, Nests dims nums (.array items) →
      (nest dims (nums.map Num.value) = .array items ↔
        0 ∉ dims.tail ∧ (Json.array items).Plain)) := by
  have hkind := scalar_of hscalar
  refine ⟨exists_insertValues hkind, ?_, fun _ _ _ _ => valueCell_text_eq_ok,
    fun _ _ _ h => nest_nests h⟩
  intro records h hexact
  obtain ⟨els, hels, hz, hwithin, rfl⟩ := insertValues_eq_ok.mp h
  apply List.forall₂_map_right_iff.mpr
  apply List.forall₂_same.mpr
  intro row hr
  exact ⟨rfl, rfl, rfl, valueCell_recordOf hels hkind hz (hwithin row hr)
    fun hs => hexact els hels hs row hr⟩

end Export

namespace Sample

/-- Two steps of two bytes each. -/
def pairs : SeriesRows where
  rows := [⟨none, 0, none, 0⟩, ⟨none, 3600000, none, 1⟩]
  array := { dtype := .u8, shape := [2, 2], bytes := [3, 4, 3, 4] }
  leading := [2]
  shape := [2]
  array_shape := rfl
  wellFormed := by decide

/-- The one JSON value the steps are written as. -/
def threeFour : Json := .array [.number (.int ⟨3, by decide⟩), .number (.int ⟨4, by decide⟩)]

instance serdeJson : SerdeJson where
  toText
    | .array [.number (.int i), .number (.int j)] => s!"[{i.1},{j.1}]"
    | _ => "null"
  fromText text :=
    if text = "[3,4]" then .ok threeFour else .error "expected value at line 1 column 1"

theorem threeFour_exact : threeFour.Exact := by
  change (if _ then _ else _) = _
  exact if_pos (by decide)

theorem valueCells_exact_pairs :
    ∃ records, insertValues 1 "load" pairs (.of (.scalar .u8) [2]) = .ok (some records) ∧
      List.Forall₂ (fun row record => record.timestamp = row.target ∧ record.issue = row.issue ∧
        record.lane = row.lane ∧
        valueCell .u8 record.value.stored = .ok ([2], stepBytes pairs row)) pairs.rows records := by
  have hall := valueCells_exact 1 "load" pairs (.scalar .u8) fun h => by cases h
  obtain ⟨records, h⟩ := hall.1.mpr
    { fits := by intro h; cases h
      signed := by intro h; cases h
      within := by decide }
  refine ⟨records, h, hall.2.1 records h ?_⟩
  intro els hels _ row hr
  have hcells : elements pairs.array = .ok ([3, 4, 3, 4].map fun n => .integer (.wrap n)) := rfl
  rw [hcells] at hels
  cases hels
  have hstep : nest pairs.shape (stepOf (perStep pairs.shape) row.offset
      ([3, 4, 3, 4].map fun n => Value.integer (.wrap n))) = threeFour := by
    cases hr with
    | head => rfl
    | tail _ hr =>
      cases hr with
      | head => rfl
      | tail _ hr => cases hr
  rw [hstep]
  exact threeFour_exact

/-- A nesting without leaves and a boolean do not nest back, and a true boolean is written as `1`
whatever its byte. -/
theorem cells_not_kept :
    (flatten (.array [.array [], .array []]) 0 ⟨[], none, []⟩ = .ok ⟨[2, 0], none, []⟩ ∧
      nest [2, 0] [] ≠ .array [.array [], .array []]) ∧
    (flatten (.array [.bool true]) 0 ⟨[], none, []⟩ = .ok ⟨[1], some 1, [.int ⟨1, by decide⟩]⟩ ∧
      nest [1] [.integer ⟨1, by decide⟩] ≠ .array [.bool true]) ∧
    element .bool [2] = .ok (.integer (.wrap 1)) ∧
      pushNumber .bool (Value.integer (.wrap 1)).num = .ok [1] := by
  refine ⟨⟨rfl, ?_⟩, ⟨rfl, ?_⟩, rfl, rfl⟩
  · intro h
    cases h
  · intro h
    cases h

end Sample

end InfraStore.Tabular
