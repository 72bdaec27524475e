import InfraStore.Platform
import Mathlib.Algebra.BigOperators.Group.List.Basic

/-!
# Typed arrays and their content hashes

The physical layer of the store's values: an element `Dtype`, a runtime-typed N-dimensional
`TypedArray` held as row-major little-endian bytes, and the canonical byte stream its content hash is
taken over.

* `TypedArray.checkBytes` is the one validation every consumer relies on;
* `arrayHash` hashes dtype, rank, dimensions and bytes, every NaN replaced by one canonical NaN.
-/

namespace InfraStore

/-! ### Element types -/

/-- Supported physical element types, in code order. -/
inductive Dtype where
  | f64 | f32 | i64 | i32 | u64 | bool | i16 | i8 | u32 | u16 | u8
  deriving DecidableEq, Repr, Inhabited

namespace Dtype

/-- The canonical spelling of a dtype. -/
def asStr : Dtype → String
  | f64 => "f64"
  | f32 => "f32"
  | i64 => "i64"
  | i32 => "i32"
  | u64 => "u64"
  | bool => "bool"
  | i16 => "i16"
  | i8 => "i8"
  | u32 => "u32"
  | u16 => "u16"
  | u8 => "u8"

/-- Byte width of one element. -/
def size : Dtype → ℕ
  | f64 | i64 | u64 => 8
  | f32 | i32 | u32 => 4
  | i16 | u16 => 2
  | bool | i8 | u8 => 1

/-- The code of a dtype, which is its place in the order. -/
def code : Dtype → ℕ
  | f64 => 0
  | f32 => 1
  | i64 => 2
  | i32 => 3
  | u64 => 4
  | bool => 5
  | i16 => 6
  | i8 => 7
  | u32 => 8
  | u16 => 9
  | u8 => 10

theorem size_pos (d : Dtype) : 0 < d.size := by cases d <;> decide

theorem size_le (d : Dtype) : d.size ≤ 8 := by cases d <;> decide

end Dtype

/-! ### Arrays -/

/-- A runtime-typed array: its dtype, its shape `[length, k1, k2, …]` and its row-major bytes. -/
structure TypedArray where
  dtype : Dtype
  shape : List ℕ
  bytes : List UInt8
  deriving DecidableEq, Inhabited

/-- The number of elements a shape describes, if a `usize` can hold it. -/
def elementCount (shape : List ℕ) : Except String ℕ :=
  match shape.foldlM checkedMul 1 with
  | some n => .ok n
  | none => .error s!"TypedArray: shape {shape} has more elements than usize can hold"

/-- The byte length a dtype and a shape describe, if a `usize` can hold it. -/
def expectedBytes (dtype : Dtype) (shape : List ℕ) : Except String ℕ := do
  let n ← elementCount shape
  match checkedMul n dtype.size with
  | some b => .ok b
  | none =>
    .error s!"TypedArray: shape {shape} of {dtype.asStr} needs more bytes than usize can hold"

namespace TypedArray

/-- Check that the bytes hold exactly the elements the shape and the dtype describe. -/
def checkBytes (a : TypedArray) : Except String Unit := do
  let expected ← expectedBytes a.dtype a.shape
  if a.bytes.length ≠ expected then
    .error s!"TypedArray: {a.bytes.length} bytes does not match shape {a.shape} dtype {a.dtype.asStr} ({expected} expected)"
  else
    .ok ()

/-- Construct an array, validating that the bytes match the dtype and the shape. -/
def new (dtype : Dtype) (shape : List ℕ) (bytes : List UInt8) : Except String TypedArray := do
  let a : TypedArray := { dtype, shape, bytes }
  a.checkBytes
  pure a

/-- Number of time steps. -/
def length (a : TypedArray) : ℕ := a.shape.headD 0

/-- Per-step element shape: the trailing dims after time. -/
def elementShape (a : TypedArray) : List ℕ := a.shape.tail

/-- Byte width of one time step. -/
def stepBytes (a : TypedArray) : ℕ := a.elementShape.prod * a.dtype.size

/-- The bytes are exactly as many as the dtype and the shape describe. -/
def WellFormed (a : TypedArray) : Prop := a.bytes.length = a.shape.prod * a.dtype.size

instance (a : TypedArray) : Decidable a.WellFormed :=
  inferInstanceAs (Decidable (a.bytes.length = a.shape.prod * a.dtype.size))

end TypedArray

theorem checkedMul_eq_some {a b n : ℕ} (h : checkedMul a b = some n) : n = a * b := by
  unfold checkedMul at h
  split at h
  · exact (Option.some.inj h).symm
  · cases h

theorem foldlM_checkedMul {shape : List ℕ} {acc n : ℕ}
    (h : shape.foldlM checkedMul acc = some n) : n = acc * shape.prod := by
  induction shape generalizing acc with
  | nil =>
    simp only [List.foldlM_nil, Option.pure_def, Option.some.injEq] at h
    simp [h]
  | cons d ds ih =>
    rw [List.foldlM_cons] at h
    cases hm : checkedMul acc d with
    | none => rw [hm] at h; cases h
    | some m =>
      rw [hm] at h
      rw [ih h, checkedMul_eq_some hm, List.prod_cons, Nat.mul_assoc]

theorem elementCount_eq {shape : List ℕ} {n : ℕ} (h : elementCount shape = .ok n) :
    n = shape.prod := by
  unfold elementCount at h
  cases hf : shape.foldlM checkedMul 1 with
  | none => rw [hf] at h; cases h
  | some m =>
    rw [hf] at h
    cases h
    rw [foldlM_checkedMul hf, Nat.one_mul]

theorem expectedBytes_eq {dtype : Dtype} {shape : List ℕ} {n : ℕ}
    (h : expectedBytes dtype shape = .ok n) : n = shape.prod * dtype.size := by
  unfold expectedBytes at h
  cases hc : elementCount shape with
  | error e => rw [hc] at h; cases h
  | ok m =>
    rw [hc] at h
    change (match checkedMul m dtype.size with
      | some b => Except.ok b
      | none => Except.error _) = _ at h
    cases hm : checkedMul m dtype.size with
    | none => rw [hm] at h; cases h
    | some b =>
      rw [hm] at h
      cases h
      rw [checkedMul_eq_some hm, elementCount_eq hc]

/-- A checked array is well formed. -/
theorem TypedArray.wellFormed_of_checkBytes {a : TypedArray} (h : a.checkBytes = .ok ()) :
    a.WellFormed := by
  unfold TypedArray.checkBytes at h
  cases hb : expectedBytes a.dtype a.shape with
  | error e => rw [hb] at h; cases h
  | ok n =>
    rw [hb] at h
    change (if a.bytes.length ≠ n then Except.error _ else Except.ok ()) = _ at h
    split at h
    · cases h
    · rename_i hn
      rw [TypedArray.WellFormed, ← expectedBytes_eq hb]
      exact not_not.mp hn

/-! ### Content hashes -/

/-- A string's UTF-8 bytes. -/
def strBytes (s : String) : List UInt8 := s.toUTF8.toList

/-- `n` little-endian bytes of a natural number. -/
def leBytes : ℕ → ℕ → List UInt8
  | 0, _ => []
  | n + 1, v => UInt8.ofNat v :: leBytes n (v / 256)

/-- The natural number a little-endian byte string spells. -/
def leNat : List UInt8 → ℕ
  | [] => 0
  | b :: bs => b.toNat + 256 * leNat bs

/-- `u64::to_le_bytes`. -/
def u64Bytes (v : ℕ) : List UInt8 := leBytes 8 v

/-- `i64::to_le_bytes`, two's complement. -/
def i64Bytes (v : ℤ) : List UInt8 := leBytes 8 (v % 2 ^ 64).toNat

/-- Whether eight little-endian bytes are an `f64` NaN. -/
def isNan64 (c : List UInt8) : Bool :=
  leNat c / 2 ^ 52 % 2 ^ 11 = 2047 && leNat c % 2 ^ 52 ≠ 0

/-- Whether four little-endian bytes are an `f32` NaN. -/
def isNan32 (c : List UInt8) : Bool :=
  leNat c / 2 ^ 23 % 2 ^ 8 = 255 && leNat c % 2 ^ 23 ≠ 0

/-- `f64::NAN.to_le_bytes()`. -/
def canonicalNan64 : List UInt8 := [0, 0, 0, 0, 0, 0, 0xf8, 0x7f]

/-- `f32::NAN.to_le_bytes()`. -/
def canonicalNan32 : List UInt8 := [0, 0, 0xc0, 0x7f]

/-- The first `k` elements of `n` bytes each, every NaN replaced by the canonical one. -/
def canonicalElements (n : ℕ) (isNan : List UInt8 → Bool) (nan : List UInt8) :
    ℕ → List UInt8 → List UInt8
  | 0, _ => []
  | k + 1, bs =>
    (if isNan (bs.take n) then nan else bs.take n) ++
      canonicalElements n isNan nan k (bs.drop n)

/-- The bytes `update_canonical_nans` feeds the hasher: whole `n`-byte elements only, every NaN
replaced by the canonical one. -/
def updateCanonicalNans (n : ℕ) (isNan : List UInt8 → Bool) (nan bytes : List UInt8) :
    List UInt8 :=
  canonicalElements n isNan nan (bytes.length / n) bytes

/-- The element bytes as `array_hash` reads them. -/
def canonicalBytes (a : TypedArray) : List UInt8 :=
  match a.dtype with
  | .f64 => updateCanonicalNans 8 isNan64 canonicalNan64 a.bytes
  | .f32 => updateCanonicalNans 4 isNan32 canonicalNan32 a.bytes
  | _ => a.bytes

/-- The byte stream `array_hash` digests: dtype tag, rank, dimensions, canonical element bytes. -/
def arrayStream (a : TypedArray) : List UInt8 :=
  strBytes a.dtype.asStr ++ [0] ++ u64Bytes a.shape.length ++ a.shape.flatMap u64Bytes ++
    canonicalBytes a

/-- The canonical content hash of an array. -/
def arrayHash {H : Type} [Sha256 H] (a : TypedArray) : H := Sha256.digest (arrayStream a)

end InfraStore
