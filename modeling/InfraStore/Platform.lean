import Mathlib.Algebra.Order.Ring.Nat
import Mathlib.Data.List.AList

/-!
# What the store links against

The values and the third-party code the modelled functions use and the repository does not contain:
IEEE doubles as bit patterns, the SHA-256 digest, the catalog engine's `GLOB` and the decimal text of
doubles.  The last three are classes, so that a result states what it needs of them.
-/

namespace InfraStore

/-- Finite maps, keyed and looked up by decidable equality. -/
abbrev FMap (K V : Type) : Type := AList (fun _ : K => V)

namespace FMap

variable {K V : Type} [DecidableEq K]

/-- The value a map gives a key. -/
def get (m : FMap K V) (k : K) : Option V := m.lookup k

theorem get_empty (k : K) : get (∅ : FMap K V) k = none := AList.lookup_empty k

/-- A map after an insertion. -/
theorem get_insert (m : FMap K V) (k : K) (v : V) :
    get (m.insert k v) = Function.update (get m) k (some v) := by
  funext k'
  by_cases h : k' = k
  · subst h
    rw [Function.update_self]
    exact AList.lookup_insert m
  · rw [Function.update_of_ne h]
    exact AList.lookup_insert_ne h

/-- A map after a removal. -/
theorem get_erase (m : FMap K V) (k : K) :
    get (m.erase k) = Function.update (get m) k none := by
  funext k'
  by_cases h : k' = k
  · subst h
    rw [Function.update_self]
    exact AList.lookup_erase k' m
  · rw [Function.update_of_ne h]
    exact AList.lookup_erase_ne h

theorem mem_iff_isSome (m : FMap K V) (k : K) : k ∈ m ↔ (get m k).isSome :=
  AList.lookup_isSome.symm

theorem get_eq_none {m : FMap K V} {k : K} (h : k ∉ m) : get m k = none := AList.lookup_eq_none.mpr h

end FMap

/-- One more than the largest `usize` of the 64-bit targets the store is built for. -/
def usizeBound : ℕ := 2 ^ 64

/-- `usize::checked_mul`. -/
def checkedMul (a b : ℕ) : Option ℕ := if a * b < usizeBound then some (a * b) else none

/-! ### Doubles -/

/-- An IEEE double, as its bits. -/
structure F64 where
  bits : UInt64
  deriving DecidableEq, Inhabited

namespace F64

/-- The biased exponent. -/
def exponent (v : F64) : ℕ := v.bits.toNat / 2 ^ 52 % 2 ^ 11

/-- The fraction bits. -/
def mantissa (v : F64) : ℕ := v.bits.toNat % 2 ^ 52

/-- The sign bit. -/
def isSignNegative (v : F64) : Bool := 2 ^ 63 ≤ v.bits.toNat

def isFinite (v : F64) : Bool := v.exponent ≠ 2047

def isNan (v : F64) : Bool := v.exponent = 2047 && v.mantissa ≠ 0

/-- The value's place in the order of doubles; the two zeros share theirs. -/
def key (v : F64) : ℤ :=
  if v.isSignNegative then -((v.bits.toNat % 2 ^ 63 : ℕ) : ℤ) else (v.bits.toNat % 2 ^ 63 : ℕ)

/-- `==`: NaN equals nothing, and the two zeros are equal. -/
def eq (a b : F64) : Bool := !a.isNan && !b.isNan && a.key = b.key

/-- `>=`, false of NaN. -/
def ge (a b : F64) : Bool := !a.isNan && !b.isNan && b.key ≤ a.key

/-- Whether a double is negative zero. -/
def isNegZero (v : F64) : Bool := v.bits = 0x8000000000000000

/-- `f64::NAN`. -/
def canonicalNan : F64 := ⟨0x7ff8000000000000⟩

/-- One bit pattern per logical value: every NaN is the same one. -/
def canonicalBits (v : F64) : UInt64 := if v.isNan then canonicalNan.bits else v.bits

/-- The natural number a double is, if it is finite, whole and not negative. -/
def natValue? (v : F64) : Option ℕ :=
  if v.bits.toNat % 2 ^ 63 = 0 then some 0
  else if v.isSignNegative || !v.isFinite || v.exponent < 1023 then none
  else
    let m := 2 ^ 52 + v.mantissa
    let e := v.exponent - 1023
    if 52 ≤ e then some (m * 2 ^ (e - 52))
    else if m % 2 ^ (52 - e) = 0 then some (m / 2 ^ (52 - e)) else none

end F64

/-! ### Linked code -/

/-- A SHA-256 implementation: a digest of a byte stream. -/
class Sha256 (H : Type) where
  digest : List UInt8 → H

/-- The catalog engine's `GLOB`: whether a text matches a pattern. -/
class Glob where
  glob : String → String → Bool

/-- Decimal text of doubles: the `Display` form and the JSON array the catalog stores. -/
class FloatText where
  display : F64 → String
  toJson : List F64 → String
  fromJson : String → Except String (List F64)

/-- JSON has no text for a value that is not finite, and reads back any list of finite ones. -/
class LawfulFloatText [FloatText] : Prop where
  reads : ∀ vs : List F64, (∀ v ∈ vs, v.isFinite = true) →
    ∃ ws, FloatText.fromJson (FloatText.toJson vs) = .ok ws
  finite : ∀ s ws, FloatText.fromJson s = .ok ws → ∀ w ∈ ws, w.isFinite = true

end InfraStore
