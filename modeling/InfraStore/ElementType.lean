import InfraStore.Array
import InfraStore.Error

/-!
# Logical element types

What the elements of a stored array mean and how one time step's values are laid out across the
trailing dims.  `ElementType.validateArray` is the check every write makes, so that no row
misdescribes its own bytes; `ElementType.display` and `ElementType.parse` are the catalog's text.
-/

namespace InfraStore

/-- What the elements of a stored array mean. -/
inductive ElementType where
  | scalar (dtype : Dtype)
  | tuple (arity : ℕ) (dtype : Dtype)
  | linearFunction
  | quadraticFunction
  | piecewiseLinear
  | piecewiseStep
  deriving DecidableEq, Repr, Inhabited

namespace ElementType

/-- The physical dtype the stored bytes are encoded in. -/
def physicalDtype : ElementType → Dtype
  | scalar d | tuple _ d => d
  | _ => .f64

/-- Whether a time step uses a variable number of its row's slots. -/
def isRagged : ElementType → Bool
  | piecewiseLinear | piecewiseStep => true
  | _ => false

/-- The exact trailing dims of the kinds whose width is fixed. -/
def fixedElementDims : ElementType → Option (List ℕ)
  | tuple arity _ => some [arity]
  | linearFunction => some [2]
  | quadraticFunction => some [3]
  | _ => none

/-- The canonical spelling, as characters. -/
def displayChars : ElementType → List Char
  | scalar d => d.asStr.toList
  | tuple arity d => "tuple(".toList ++ Nat.toDigits 10 arity ++ [','] ++ d.asStr.toList ++ [')']
  | linearFunction => "linear_function".toList
  | quadraticFunction => "quadratic_function".toList
  | piecewiseLinear => "piecewise_linear".toList
  | piecewiseStep => "piecewise_step".toList

/-- The canonical spelling. -/
def display (e : ElementType) : String := String.ofList e.displayChars

instance : ToString ElementType := ⟨display⟩

end ElementType

/-- Every supported dtype, in code order. -/
def Dtype.all : List Dtype := [.f64, .f32, .i64, .i32, .u64, .bool, .i16, .i8, .u32, .u16, .u8]

/-- The dtype with the given spelling. -/
def Dtype.parse (s : List Char) : Option Dtype := Dtype.all.find? fun d => d.asStr.toList = s

/-- `str::parse::<usize>` on digits. -/
def parseUsize (s : List Char) : Option ℕ :=
  let digits := if s.head? = some '+' then s.tail else s
  if digits ≠ [] ∧ digits.all Char.isDigit then
    let n := digits.foldl (fun n c => 10 * n + (c.toNat - '0'.toNat)) 0
    if n < usizeBound then some n else none
  else none

/-- Whether a character has the Unicode property `White_Space`. -/
def isWhiteSpace (c : Char) : Bool :=
  (0x9 ≤ c.toNat && c.toNat ≤ 0xd) || (0x2000 ≤ c.toNat && c.toNat ≤ 0x200a) ||
    [0x20, 0x85, 0xa0, 0x1680, 0x2028, 0x2029, 0x202f, 0x205f, 0x3000].contains c.toNat

/-- `str::trim`: a text without the white space at either end of it. -/
def trimChars (cs : List Char) : List Char :=
  ((cs.dropWhile isWhiteSpace).reverse.dropWhile isWhiteSpace).reverse

/-- `tuple(N,dtype)`. -/
def parseTuple (s : List Char) : Option ElementType :=
  if "tuple(".toList.isPrefixOf s ∧ s.getLast? = some ')' then
    match ((s.drop 6).dropLast).span (· ≠ ',') with
    | (_, []) => none
    | (arity, _ :: dtype) =>
      (parseUsize (trimChars arity)).bind fun n =>
        if n = 0 then none else (Dtype.parse (trimChars dtype)).map (.tuple n)
  else none

/-- Parse the canonical spelling. -/
def ElementType.parse (s : String) : Option ElementType :=
  match Dtype.parse s.toList with
  | some d => some (.scalar d)
  | none =>
    if s = "linear_function" then some .linearFunction
    else if s = "quadratic_function" then some .quadraticFunction
    else if s = "piecewise_linear" then some .piecewiseLinear
    else if s = "piecewise_step" then some .piecewiseStep
    else parseTuple s.toList

/-! ### Validation -/

namespace ElementType

/-- Validate one time step's trailing dims against this element type. -/
def validateElementDims (e : ElementType) (elementDims : List ℕ) : Result Unit :=
  match e.fixedElementDims with
  | some expected =>
    if elementDims ≠ expected then
      .error (.invalidParameter
        s!"element_type {e} requires per-step element dims {expected}, got {elementDims}")
    else .ok ()
  | none =>
    if !e.isRagged then .ok ()
    else
      match elementDims with
      | [width] =>
        if width < 1 then
          .error (.invalidParameter
            s!"element_type {e} requires a row width of at least 1 (the leading count), got {width}")
        else
          let ok := if e = piecewiseLinear then width % 2 = 1 else width = 1 ∨ width % 2 = 0
          let why := if e = piecewiseLinear then
              "a row holds 1 + 2*points values, so the width is odd"
            else "a row holds 2*points values, or 1 when every timestep is empty"
          if ok then .ok ()
          else .error (.invalidParameter s!"element_type {e} cannot have row width {width}: {why}")
      | _ =>
        .error (.invalidParameter
          s!"element_type {e} requires exactly one per-step element dim (the row width), got {elementDims}")

/-- The double eight little-endian bytes spell. -/
def f64At (bytes : List UInt8) : F64 := ⟨UInt64.ofNat (leNat (bytes.take 8))⟩

/-- Check the leading count of each of the next `rows` ragged rows against the row width. -/
def validateRaggedRows [FloatText] (e : ElementType) (width : ℕ) :
    ℕ → ℕ → List UInt8 → Result Unit
  | _, 0, _ => .ok ()
  | row, rows + 1, bytes =>
    let raw := f64At bytes
    match raw.natValue? with
    | none =>
      .error (.invalidParameter
        s!"element_type {e}: row {row} leading count is {FloatText.display raw}, which is not a non-negative whole number")
    | some value =>
      let n := min value (usizeBound - 1)
      let needed : Option ℕ :=
        if e = piecewiseLinear then
          (checkedMul n 2).bind fun k => if k + 1 < usizeBound then some (k + 1) else none
        else if n = 0 then some 1 else checkedMul n 2
      let slots := match needed with
        | some k => toString k
        | none => "more than usize::MAX"
      if needed.all (· > width) then
        .error (.invalidParameter
          s!"element_type {e}: row {row} declares {n} points, which needs {slots} slots but the row width is {width}")
      else validateRaggedRows e width (row + 1) rows (bytes.drop (width * 8))

/-- Validate a whole array against this element type: the physical dtype, the per-step dims and, for
the ragged kinds, that every row's leading count fits the row. -/
def validateArray [FloatText] (e : ElementType) (a : TypedArray) (leadingDims : ℕ) :
    Result Unit := do
  if a.dtype ≠ e.physicalDtype then
    .error (.invalidParameter
      s!"element_type {e} stores {e.physicalDtype.asStr} values, but the array's dtype is {a.dtype.asStr}")
  else if a.shape.length < leadingDims then
    .error (.invalidParameter
      s!"shape {a.shape} has fewer than the {leadingDims} leading dims its time-series type requires")
  else
    let elementDims := a.shape.drop leadingDims
    e.validateElementDims elementDims
    if e.isRagged then
      let width := elementDims.headD 0
      e.validateRaggedRows width 0 (a.bytes.length / (width * 8)) a.bytes
    else .ok ()

theorem validateArray_dtype [FloatText] {e : ElementType} {a : TypedArray} {k : ℕ}
    (h : e.validateArray a k = .ok ()) : a.dtype = e.physicalDtype := by
  unfold validateArray at h
  split at h
  · cases h
  · rename_i hd
    exact not_not.mp hd

theorem validateArray_rank [FloatText] {e : ElementType} {a : TypedArray} {k : ℕ}
    (h : e.validateArray a k = .ok ()) : k ≤ a.shape.length := by
  unfold validateArray at h
  split at h
  · cases h
  · split at h
    · cases h
    · omega

end ElementType

end InfraStore
