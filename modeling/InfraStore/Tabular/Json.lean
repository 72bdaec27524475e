import InfraStore.Requests
import InfraStore.Tabular.Layout
import InfraStore.Lib.Binary
import Mathlib.Algebra.BigOperators.Ring.List

/-!
# Nested value cells

A shaped step is one cell of JSON text, its elements nested over the element shape.  `nest` writes
the nesting and `flatten` reads one back: it finds the shape from the nesting of the text itself and
refuses a ragged one.

* `Nests dims nums json`: `json` is a rectangular nesting of shape `dims` over the leaves `nums`;
* `flatten_eq_ok`: `flatten` accepts exactly the rectangular nestings;
* `nests_nest`: what `nest` writes of a shape without a zero dimension is a nesting of that shape;
* `nest_nests`: what `flatten` read nests back to the same JSON value, exactly when it is a value
  `nest` could have written.
-/

namespace InfraStore.Tabular

open Lib

/-! ### JSON values -/

/-- The integers an `i64` holds. -/
abbrev I64 := { i : ℤ // -2 ^ 63 ≤ i ∧ i < 2 ^ 63 }

/-- A JSON number: an integer of `i64` or `u64`, or a finite double. -/
inductive JsonNumber where
  | int (i : { i : ℤ // -2 ^ 63 ≤ i ∧ i < 2 ^ 64 })
  | float (v : { v : F64 // v.isFinite = true })

/-- A JSON value. -/
inductive Json where
  | null
  | bool (b : Bool)
  | number (n : JsonNumber)
  | string (s : String)
  | array (items : List Json)
  | object (members : List (String × Json))

/-- The JSON library: a value's text, and the value a text spells. -/
class SerdeJson where
  toText : Json → String
  fromText : String → Except String Json

/-- The library reads the text of a value back as the value. -/
def Json.Exact [SerdeJson] (json : Json) : Prop :=
  SerdeJson.fromText (SerdeJson.toText json) = .ok json

/-- One cell of a SQLite row. -/
inductive Value where
  | null
  | integer (i : I64)
  | real (v : F64)
  | text (s : String)
  | blob (bytes : List UInt8)
  deriving DecidableEq

/-- One leaf of a `value` cell. -/
inductive Num where
  | int (i : I64)
  | real (v : F64)
  | null
  deriving DecidableEq

/-! ### Doubles -/

def posInfinity : F64 := ⟨0x7ff0000000000000⟩

def negInfinity : F64 := ⟨0xfff0000000000000⟩

/-- `f64::is_infinite`. -/
def isInfinite (v : F64) : Bool := v.exponent = 2047 && v.mantissa = 0

/-- `i as f64`. -/
def F64.ofInt (i : ℤ) : F64 := ⟨UInt64.ofNat (Format.binary64.ofInt i)⟩

/-- An infinity is one of two bit patterns. -/
theorem eq_of_isInfinite {v : F64} (h : isInfinite v = true) :
    v = if v.isSignNegative then negInfinity else posInfinity := by
  unfold isInfinite F64.exponent F64.mantissa at h
  rw [Bool.and_eq_true, decide_eq_true_iff, decide_eq_true_iff] at h
  cases v with
  | mk bits =>
    change bits.toNat / 2 ^ 52 % 2 ^ 11 = 2047 ∧ bits.toNat % 2 ^ 52 = 0 at h
    have hlt := bits.toNat_lt
    unfold F64.isSignNegative negInfinity posInfinity
    by_cases hs : 2 ^ 63 ≤ bits.toNat
    · rw [if_pos (by simpa using hs), F64.mk.injEq]
      apply UInt64.toNat_inj.mp
      change bits.toNat = 0xfff0000000000000
      omega
    · rw [if_neg (by simpa using hs), F64.mk.injEq]
      apply UInt64.toNat_inj.mp
      change bits.toNat = 0x7ff0000000000000
      omega

/-- A double is finite, an infinity or a NaN. -/
theorem isFinite_of {v : F64} (hi : isInfinite v = false) (hn : v.isNan = false) :
    v.isFinite = true := by
  unfold isInfinite at hi
  unfold F64.isNan at hn
  unfold F64.isFinite
  by_cases he : v.exponent = 2047 <;> by_cases hm : v.mantissa = 0 <;> simp_all

/-! ### Writing -/

section Pieces

variable {α : Type}

/-- The first `k` pieces of `n` items each. -/
def pieces (n : ℕ) : ℕ → List α → List (List α)
  | 0, _ => []
  | k + 1, items => items.take n :: pieces n k (items.drop n)

/-- `slice::chunks`: pieces of `n` items, the last one of what is left. -/
def chunks (n : ℕ) (items : List α) : List (List α) := pieces n ((items.length + n - 1) / n) items

/-- `slice::chunks_exact`: the whole pieces only. -/
def chunksExact (n : ℕ) (items : List α) : List (List α) := pieces n (items.length / n) items

@[simp] theorem length_pieces (n k : ℕ) (items : List α) : (pieces n k items).length = k := by
  induction k generalizing items with
  | zero => rfl
  | succ k ih => simp [pieces, ih]

theorem getElem?_pieces {n k i : ℕ} (items : List α) (hi : i < k) :
    (pieces n k items)[i]? = some ((items.drop (i * n)).take n) := by
  induction k generalizing items i with
  | zero => omega
  | succ k ih =>
    cases i with
    | zero => simp [pieces]
    | succ i =>
      rw [pieces, List.getElem?_cons_succ, ih _ (by omega), List.drop_drop, Nat.succ_mul,
        Nat.add_comm n]

theorem length_of_mem_pieces {n k : ℕ} {items : List α} (h : k * n ≤ items.length) :
    ∀ piece ∈ pieces n k items, piece.length = n := by
  induction k generalizing items with
  | zero => exact fun _ hp => (List.not_mem_nil hp).elim
  | succ k ih =>
    rw [Nat.succ_mul] at h
    intro piece hp
    cases hp with
    | head => rw [List.length_take]; omega
    | tail _ hp => exact ih (by rw [List.length_drop]; omega) piece hp

theorem length_of_mem_chunksExact {n : ℕ} {items : List α} :
    ∀ piece ∈ chunksExact n items, piece.length = n :=
  length_of_mem_pieces (Nat.div_mul_le_self _ _)

theorem chunks_eq {n k : ℕ} (hn : 0 < n) {items : List α} (h : items.length = k * n) :
    chunks n items = pieces n k items := by
  have : (items.length + n - 1) / n = k := by
    rw [h]
    apply Nat.div_eq_of_lt_le
    · omega
    · rw [Nat.succ_mul]
      omega
  rw [chunks, this]

@[simp] theorem chunks_nil (n : ℕ) (hn : 0 < n) : chunks n ([] : List α) = [] := by
  rw [chunks_eq hn (k := 0) (by simp)]
  rfl

end Pieces

/-- How a JSON cell spells the infinities, which JSON numbers cannot. -/
def infinityText : String := "Infinity"

def negInfinityText : String := "-Infinity"

/-- `Json::from(f64)`: JSON has no number for a double that is not finite. -/
def Json.ofF64 (v : F64) : Json := if h : v.isFinite = true then .number (.float ⟨v, h⟩) else .null

/-- `Json::from(i64)`. -/
def Json.ofI64 (i : I64) : Json :=
  .number (.int ⟨i.1, i.2.1, lt_trans i.2.2 (by decide)⟩)

/-- One element as a JSON leaf; a `NaN` arrives here already `NULL`. -/
def jsonOf : Value → Json
  | .integer i => .ofI64 i
  | .real v =>
    if isInfinite v then .string (if v.isSignNegative then negInfinityText else infinityText)
    else .ofF64 v
  | _ => .null

/-- One row's elements as a JSON array nested over a shape, outermost first. -/
def nest : List ℕ → List Value → Json
  | [], cells => .array (cells.map jsonOf)
  | [_], cells => .array (cells.map jsonOf)
  | _ :: d :: inner, cells =>
    .array ((chunks (max 1 (d :: inner).prod) cells).map (nest (d :: inner)))

/-! ### Reading -/

/-- A cell whose arrays are not all of one length and depth. -/
def ragged : TimeSeriesError := unsupported "a `value` cell is a ragged JSON array"

/-- The number a leaf spells. -/
def leafNum [SerdeJson] : Json → Result Num
  | .null => .ok .null
  | .bool b => .ok (.int ⟨if b then 1 else 0, by cases b <;> decide⟩)
  | .number (.int i) =>
    .ok (if h : i.1 < 2 ^ 63 then .int ⟨i.1, i.2.1, h⟩ else .real (F64.ofInt i.1))
  | .number (.float v) => .ok (.real v.1)
  | .string s =>
    if s = infinityText then .ok (.real posInfinity)
    else if s = negInfinityText then .ok (.real negInfinity)
    else .error (unsupported s!"a `value` cell holds {SerdeJson.toText (.string s)}, not a number")
  | leaf => .error (unsupported s!"a `value` cell holds {SerdeJson.toText leaf}, not a number")

/-- What a walk has found so far: the shape, the depth of the leaves and the leaves. -/
structure Flat where
  dims : List ℕ
  leafDepth : Option ℕ
  out : List Num
  deriving DecidableEq

/-- A leaf met at a depth. -/
def flattenLeaf [SerdeJson] (leaf : Json) (depth : ℕ) (s : Flat) : Result Flat :=
  if s.leafDepth.getD depth ≠ depth ∨ s.dims.length ≠ depth then .error ragged
  else do
    let n ← leafNum leaf
    .ok { s with leafDepth := some depth, out := s.out ++ [n] }

mutual

/-- Walk a JSON cell, recording the shape from its nesting and refusing a ragged one: every leaf at
one depth, every array at a depth as long as the first one seen there. -/
def flatten [SerdeJson] : Json → ℕ → Flat → Result Flat
  | .array items, depth, s =>
    if s.leafDepth.any (· ≤ depth) then .error ragged
    else
      match s.dims[depth]? with
      | none => flattenAll items (depth + 1) { s with dims := s.dims ++ [items.length] }
      | some n => if n = items.length then flattenAll items (depth + 1) s else .error ragged
  | leaf, depth, s => flattenLeaf leaf depth s

def flattenAll [SerdeJson] : List Json → ℕ → Flat → Result Flat
  | [], _, s => .ok s
  | item :: items, depth, s => do
    let s ← flatten item depth s
    flattenAll items depth s

end

/-! ### Rectangular nestings -/

/-- A value that is no array. -/
def Json.IsLeaf (json : Json) : Prop := ∀ items, json ≠ .array items

/-- Induction over the arrays of a value. -/
theorem Json.nesting {P : Json → Prop} (leaf : ∀ json, json.IsLeaf → P json)
    (array : ∀ items, (∀ json ∈ items, P json) → P (.array items)) : ∀ json, P json
  | .array items => array items fun json _ => Json.nesting leaf array json
  | .null => leaf _ (by intro _ h; cases h)
  | .bool _ => leaf _ (by intro _ h; cases h)
  | .number _ => leaf _ (by intro _ h; cases h)
  | .string _ => leaf _ (by intro _ h; cases h)
  | .object _ => leaf _ (by intro _ h; cases h)

mutual

/-- `Nests dims nums json`: the value is a rectangular nesting of shape `dims` over the leaves
`nums`, in row-major order. -/
inductive Nests [SerdeJson] : List ℕ → List Num → Json → Prop
  | leaf {json : Json} {n : Num} : leafNum json = .ok n → Nests [] [n] json
  | empty : Nests [0] [] (.array [])
  | array {dims : List ℕ} {nums : List Num} {items : List Json} :
    items ≠ [] → NestsAll dims nums items → Nests (items.length :: dims) nums (.array items)

/-- Several nestings of one shape, one after the other. -/
inductive NestsAll [SerdeJson] : List ℕ → List Num → List Json → Prop
  | nil {dims : List ℕ} : NestsAll dims [] []
  | cons {dims : List ℕ} {nums more : List Num} {json : Json} {items : List Json} :
    Nests dims nums json → NestsAll dims more items → NestsAll dims (nums ++ more) (json :: items)

end

/-- The depth a walk expects its leaves at, below a prefix of the shape. -/
def leafOf (depth : ℕ) (inner : List ℕ) : Option ℕ :=
  if inner.getLast? = some 0 then none else some (depth + inner.length)

theorem leafOf_cons (depth d : ℕ) {inner : List ℕ} (h : inner ≠ [] ∨ d ≠ 0) :
    leafOf depth (d :: inner) = leafOf (depth + 1) inner := by
  unfold leafOf
  cases inner with
  | nil => simp [h.resolve_left (· rfl)]
  | cons e inner =>
    rw [List.getLast?_cons_cons, List.length_cons]
    congr 2
    omega

/-- A walk that has seen the shape below depth `outer.length` already. -/
structure Flat.Seen (outer inner : List ℕ) (s : Flat) : Prop where
  dims : s.dims = outer ++ inner
  leaf : s.leafDepth = leafOf outer.length inner
  proper : 0 ∉ inner.dropLast

/-- The leaves of one more value of the shape already seen. -/
def Flat.more (s : Flat) (nums : List Num) : Flat := { s with out := s.out ++ nums }

theorem Flat.Seen.more {outer inner : List ℕ} {s : Flat} (h : s.Seen outer inner)
    (nums : List Num) : (s.more nums).Seen outer inner := ⟨h.dims, h.leaf, h.proper⟩

theorem Flat.more_more (s : Flat) (nums more : List Num) :
    (s.more nums).more more = s.more (nums ++ more) := by
  unfold Flat.more
  rw [List.append_assoc]

theorem Flat.Seen.inner {outer inner : List ℕ} {d : ℕ} {s : Flat} (h : s.Seen outer (d :: inner))
    (hd : d ≠ 0) : s.Seen (outer ++ [d]) inner := by
  refine ⟨by rw [h.dims, List.append_assoc, List.singleton_append], ?_, ?_⟩
  · rw [h.leaf, leafOf_cons _ _ (.inr hd), List.length_append, List.length_singleton]
  · intro hm
    apply h.proper
    cases inner with
    | nil => cases hm
    | cons e inner =>
      rw [List.dropLast_cons_cons]
      exact List.mem_cons_of_mem _ hm

/-! ### Elements and plain values -/

/-- The number an element is read back as. -/
def Value.num : Value → Num
  | .integer i => .int i
  | .real v => .real v
  | _ => .null

/-- The cell a leaf is written as. -/
def Num.value : Num → Value
  | .int i => .integer i
  | .real v => .real v
  | .null => .null

/-- What `elements` makes of an array's elements: no text, no blob, and no `NaN`. -/
def Value.IsElement : Value → Prop
  | .null | .integer _ => True
  | .real v => v.isNan = false
  | .text _ | .blob _ => False

/-- A JSON value whose leaves `jsonOf` could have written: no boolean, no integer past `i64`, no
object. -/
inductive Json.Plain : Json → Prop
  | null : Plain .null
  | int {i : { i : ℤ // -2 ^ 63 ≤ i ∧ i < 2 ^ 64 }} : i.1 < 2 ^ 63 → Plain (.number (.int i))
  | float (v : { v : F64 // v.isFinite = true }) : Plain (.number (.float v))
  | string (s : String) : Plain (.string s)
  | array {items : List Json} : (∀ json ∈ items, Plain json) → Plain (.array items)

theorem plain_jsonOf (v : Value) : (jsonOf v).Plain := by
  cases v with
  | integer i => exact .int i.2.2
  | real v =>
    rw [jsonOf]
    split
    · exact .string _
    · unfold Json.ofF64
      split
      · exact .float _
      · exact .null
  | _ => exact .null

/-- Whatever `nest` writes is plain. -/
theorem plain_nest (dims : List ℕ) (cells : List Value) : (nest dims cells).Plain := by
  have hrow : ∀ cells : List Value, (Json.array (cells.map jsonOf)).Plain := by
    intro cells
    apply Json.Plain.array
    intro json hj
    obtain ⟨v, -, rfl⟩ := List.mem_map.mp hj
    exact plain_jsonOf v
  induction dims generalizing cells with
  | nil => exact hrow cells
  | cons d dims ih =>
    cases dims with
    | nil => exact hrow cells
    | cons e inner =>
      apply Json.Plain.array
      intro json hj
      obtain ⟨piece, -, rfl⟩ := List.mem_map.mp hj
      exact ih piece

section Spec

variable [SerdeJson]

theorem leafNum_array (items : List Json) (n : Num) : leafNum (.array items) ≠ .ok n := by
  intro h
  cases h

theorem flatten_leaf {json : Json} (h : json.IsLeaf) (depth : ℕ) (s : Flat) :
    flatten json depth s = flattenLeaf json depth s := by
  cases json with
  | array items => exact (h items rfl).elim
  | _ => rfl

theorem Nests.of_leaf {json : Json} (h : json.IsLeaf) {dims : List ℕ} {nums : List Num}
    (hn : Nests dims nums json) : dims = [] ∧ ∃ n, leafNum json = .ok n ∧ nums = [n] := by
  cases hn with
  | leaf hl => exact ⟨rfl, _, hl, rfl⟩
  | empty => exact (h _ rfl).elim
  | array _ _ => exact (h _ rfl).elim

theorem Nests.of_array {items : List Json} {dims : List ℕ} {nums : List Num}
    (hn : Nests dims nums (.array items)) :
    (items = [] ∧ dims = [0] ∧ nums = []) ∨
      items ≠ [] ∧ ∃ inner, dims = items.length :: inner ∧ NestsAll inner nums items := by
  cases hn with
  | leaf hl => exact (leafNum_array _ _ hl).elim
  | empty => exact .inl ⟨rfl, rfl, rfl⟩
  | array hne hall => exact .inr ⟨hne, _, rfl, hall⟩

/-- Only the innermost dimension of a nesting can be zero. -/
theorem Nests.proper {json : Json} {dims : List ℕ} {nums : List Num} (h : Nests dims nums json) :
    0 ∉ dims.dropLast := by
  induction json using Json.nesting generalizing dims nums with
  | leaf json hl =>
    rw [(h.of_leaf hl).1]
    exact List.not_mem_nil
  | array items ih =>
    obtain ⟨-, rfl, -⟩ | ⟨hne, inner, rfl, hall⟩ := h.of_array
    · exact List.not_mem_nil
    · cases hall with
      | nil => exact (hne rfl).elim
      | cons hj _ =>
        have := ih _ List.mem_cons_self hj
        cases inner with
        | nil => exact List.not_mem_nil
        | cons d inner =>
          rw [List.dropLast_cons_cons, List.mem_cons]
          rintro (h0 | hm)
          · cases h0
          · exact this hm

/-! ### The walk -/

theorem flattenLeaf_eq_ok {leaf : Json} {depth : ℕ} {s s' : Flat} :
    flattenLeaf leaf depth s = .ok s' ↔
      s.leafDepth.getD depth = depth ∧ s.dims.length = depth ∧
        ∃ n, leafNum leaf = .ok n ∧
          s' = { s with leafDepth := some depth, out := s.out ++ [n] } := by
  unfold flattenLeaf
  by_cases h : s.leafDepth.getD depth ≠ depth ∨ s.dims.length ≠ depth
  · rw [if_pos h]
    constructor
    · intro he
      cases he
    · rintro ⟨h1, h2, -⟩
      exact (h.elim (fun h => h h1) (fun h => h h2)).elim
  · rw [if_neg h]
    rw [not_or, not_not, not_not] at h
    cases hn : leafNum leaf with
    | error e => simp [bind, Except.bind]
    | ok n => simp [bind, Except.bind, h.1, h.2, eq_comm]

theorem flatten_seen_leaf {json : Json} (hj : json.IsLeaf) {outer inner : List ℕ} {s s' : Flat}
    (h : s.Seen outer inner) :
    flatten json outer.length s = .ok s' ↔ ∃ nums, Nests inner nums json ∧ s' = s.more nums := by
  rw [flatten_leaf hj, flattenLeaf_eq_ok]
  have hlen : s.dims.length = outer.length + inner.length := by rw [h.dims, List.length_append]
  constructor
  · rintro ⟨hd, hl, n, hn, rfl⟩
    obtain rfl : inner = [] := List.length_eq_zero_iff.mp (by omega)
    refine ⟨[n], .leaf hn, ?_⟩
    rw [Flat.more, h.leaf]
    rfl
  · rintro ⟨nums, hn, rfl⟩
    obtain ⟨rfl, n, hl, rfl⟩ := hn.of_leaf hj
    have hleaf : s.leafDepth = some outer.length := h.leaf
    refine ⟨by rw [hleaf]; rfl, hlen, n, hl, ?_⟩
    rw [Flat.more, hleaf]

/-- Values of one shape already seen, one after the other. -/
theorem flattenAll_seen {items : List Json} {outer inner : List ℕ}
    (ih : ∀ json ∈ items, ∀ s s' : Flat, s.Seen outer inner →
      (flatten json outer.length s = .ok s' ↔
        ∃ nums, Nests inner nums json ∧ s' = s.more nums))
    (s s' : Flat) (h : s.Seen outer inner) :
    flattenAll items outer.length s = .ok s' ↔
      ∃ nums, NestsAll inner nums items ∧ s' = s.more nums := by
  induction items generalizing s with
  | nil =>
    rw [flattenAll, Except.ok.injEq]
    constructor
    · rintro rfl
      exact ⟨[], .nil, by rw [Flat.more, List.append_nil]⟩
    · rintro ⟨nums, hn, rfl⟩
      cases hn
      rw [Flat.more, List.append_nil]
  | cons json items ihs =>
    have hj := ih json List.mem_cons_self s
    have hs := ihs fun j hj => ih j (List.mem_cons_of_mem _ hj)
    rw [flattenAll]
    constructor
    · intro he
      obtain ⟨t, ht, he⟩ := except_bind_eq_ok.mp he
      obtain ⟨nums, hn, rfl⟩ := (hj t h).mp ht
      obtain ⟨more, hm, rfl⟩ := (hs _ (h.more nums)).mp he
      exact ⟨nums ++ more, .cons hn hm, Flat.more_more _ _ _⟩
    · rintro ⟨_, hall, rfl⟩
      cases hall with
      | @cons _ nums more _ _ hn hm =>
        rw [(hj _ h).mpr ⟨nums, hn, rfl⟩]
        exact (hs _ (h.more nums)).mpr ⟨more, hm, (Flat.more_more _ _ _).symm⟩

/-- Below a shape already seen, a walk accepts the nestings of that shape and adds their leaves. -/
theorem flatten_seen (json : Json) (outer inner : List ℕ) (s s' : Flat) (h : s.Seen outer inner) :
    flatten json outer.length s = .ok s' ↔ ∃ nums, Nests inner nums json ∧ s' = s.more nums := by
  induction json using Json.nesting generalizing outer inner s s' with
  | leaf json hj => exact flatten_seen_leaf hj h
  | array items ih =>
    rw [flatten]
    cases inner with
    | nil =>
      have hleaf : s.leafDepth = some outer.length := h.leaf
      rw [hleaf, if_pos (by simp)]
      constructor
      · intro he
        cases he
      · rintro ⟨nums, hn, -⟩
        obtain ⟨-, hd, -⟩ | ⟨-, _, hd, -⟩ := hn.of_array <;> cases hd
    | cons d inner =>
      have hfree : ¬ (s.leafDepth.any (· ≤ outer.length)) = true := by
        rw [h.leaf, leafOf]
        split <;> simp
      have hget : s.dims[outer.length]? = some d := by
        rw [h.dims]
        simp
      rw [if_neg hfree]
      simp only [hget]
      by_cases hd : d = items.length
      · subst hd
        rw [if_pos rfl]
        cases items with
        | nil =>
          obtain rfl : inner = [] := by
            cases inner with
            | nil => rfl
            | cons e inner => exact (h.proper (by simp)).elim
          rw [flattenAll, Except.ok.injEq]
          constructor
          · rintro rfl
            exact ⟨[], .empty, by rw [Flat.more, List.append_nil]⟩
          · rintro ⟨nums, hn, rfl⟩
            obtain ⟨-, -, rfl⟩ | ⟨hne, -⟩ := hn.of_array
            · rw [Flat.more, List.append_nil]
            · exact (hne rfl).elim
        | cons json items =>
          have hs := h.inner (Nat.succ_ne_zero _)
          have hall := flattenAll_seen (fun j hj s s' hs => ih j hj _ inner s s' hs) s s' hs
          rw [List.length_append, List.length_singleton] at hall
          rw [hall]
          constructor
          · rintro ⟨nums, hn, rfl⟩
            exact ⟨nums, .array (List.cons_ne_nil _ _) hn, rfl⟩
          · rintro ⟨nums, hn, rfl⟩
            obtain ⟨hnil, -⟩ | ⟨-, inner', hi, hn⟩ := hn.of_array
            · cases hnil
            · cases hi
              exact ⟨nums, hn, rfl⟩
      · rw [if_neg hd]
        constructor
        · intro he
          cases he
        · rintro ⟨nums, hn, -⟩
          obtain ⟨rfl, hd', -⟩ | ⟨-, _, hd', -⟩ := hn.of_array <;>
            exact (hd (List.cons.inj hd').1).elim

/-- A walk that has seen nothing below its depth accepts the nestings of any shape. -/
theorem flatten_fresh (json : Json) (outer : List ℕ) (out : List Num) (s' : Flat) :
    flatten json outer.length ⟨outer, none, out⟩ = .ok s' ↔
      ∃ inner nums, Nests inner nums json ∧
        s' = ⟨outer ++ inner, leafOf outer.length inner, out ++ nums⟩ := by
  induction json using Json.nesting generalizing outer out s' with
  | leaf json hj =>
    rw [flatten_leaf hj, flattenLeaf_eq_ok]
    constructor
    · rintro ⟨-, -, n, hn, rfl⟩
      exact ⟨[], [n], .leaf hn, by simp [leafOf]⟩
    · rintro ⟨inner, nums, hn, rfl⟩
      obtain ⟨rfl, n, hl, rfl⟩ := hn.of_leaf hj
      exact ⟨rfl, rfl, n, hl, by simp [leafOf]⟩
  | array items ih =>
    have hget : outer[outer.length]? = none := by simp
    rw [flatten, if_neg (by simp)]
    simp only [hget]
    cases items with
    | nil =>
      rw [flattenAll, Except.ok.injEq]
      constructor
      · rintro rfl
        exact ⟨[0], [], .empty, by simp [leafOf]⟩
      · rintro ⟨inner, nums, hn, rfl⟩
        obtain ⟨-, rfl, rfl⟩ | ⟨hne, -⟩ := hn.of_array
        · simp [leafOf]
        · exact (hne rfl).elim
    | cons json items =>
      have hlen : outer.length + 1 = (outer ++ [(json :: items).length]).length := by
        rw [List.length_append, List.length_singleton]
      have hcat : ∀ inner : List ℕ, outer ++ [(json :: items).length] ++ inner =
          outer ++ (json :: items).length :: inner := by simp
      have hleaf : ∀ inner : List ℕ, leafOf (outer ++ [(json :: items).length]).length inner =
          leafOf outer.length ((json :: items).length :: inner) := by
        intro inner
        rw [leafOf_cons _ _ (.inr (by simp)), hlen]
      have hfirst := ih json List.mem_cons_self (outer ++ [(json :: items).length]) out
      have hrest := fun inner => @flattenAll_seen _ items _ inner
        fun j _ => flatten_seen j (outer ++ [(json :: items).length]) inner
      rw [flattenAll, hlen]
      constructor
      · intro he
        obtain ⟨t, ht, he⟩ := except_bind_eq_ok.mp he
        obtain ⟨inner, nums, hn, rfl⟩ := (hfirst t).mp ht
        obtain ⟨more, hm, rfl⟩ := (hrest inner _ s' ⟨rfl, rfl, hn.proper⟩).mp he
        refine ⟨_, _, .array (List.cons_ne_nil _ _) (.cons hn hm), ?_⟩
        rw [Flat.more, hcat, hleaf, List.append_assoc]
      · rintro ⟨_, nums, hn, rfl⟩
        obtain ⟨hnil, -⟩ | ⟨-, inner, rfl, hall⟩ := hn.of_array
        · cases hnil
        · cases hall with
          | @cons _ nums more _ _ hj hm =>
            rw [(hfirst _).mpr ⟨inner, nums, hj, rfl⟩]
            refine (hrest inner _ _ ⟨rfl, rfl, hj.proper⟩).mpr ⟨more, hm, ?_⟩
            rw [Flat.more, hcat, hleaf, List.append_assoc]

/-- **What the reader accepts.** A walk from the top accepts exactly the rectangular nestings, and
finds their shape and their leaves in order. -/
theorem flatten_eq_ok (json : Json) (s : Flat) :
    flatten json 0 ⟨[], none, []⟩ = .ok s ↔
      Nests s.dims s.out json ∧ s.leafDepth = leafOf 0 s.dims := by
  rw [show (0 : ℕ) = ([] : List ℕ).length from rfl, flatten_fresh]
  constructor
  · rintro ⟨inner, nums, hn, rfl⟩
    exact ⟨hn, rfl⟩
  · rintro ⟨hn, hl⟩
    exact ⟨s.dims, s.out, hn, by rw [← hl]; rfl⟩

/-! ### Nesting the leaves again -/

theorem leafNum_jsonOf {v : Value} (h : v.IsElement) : leafNum (jsonOf v) = .ok v.num := by
  cases v with
  | null => rfl
  | integer i =>
    rw [jsonOf, Json.ofI64, leafNum, dif_pos i.2.2]
    rfl
  | real v =>
    rw [jsonOf]
    split
    · rename_i hi
      have hv := eq_of_isInfinite hi
      cases hs : v.isSignNegative with
      | false =>
        rw [hs] at hv
        rw [if_neg (by decide), leafNum, if_pos rfl, hv]
        rfl
      | true =>
        rw [hs] at hv
        rw [if_pos rfl, leafNum, if_neg (by decide), if_pos rfl, hv]
        rfl
    · rename_i hi
      rw [Json.ofF64, dif_pos (isFinite_of (by simpa using hi) h), leafNum]
      rfl
  | text s => exact h.elim
  | blob bytes => exact h.elim

theorem jsonOf_leafNum {json : Json} {n : Num} (h : leafNum json = .ok n) (hp : json.Plain) :
    jsonOf n.value = json := by
  cases hp with
  | null =>
    cases h
    rfl
  | @int i hi =>
    rw [leafNum, dif_pos hi] at h
    cases h
    rfl
  | float v =>
    cases h
    have hi : isInfinite v.1 = false := by
      have := v.2
      unfold F64.isFinite at this
      unfold isInfinite
      simp_all
    rw [Num.value, jsonOf, hi, if_neg (by decide), Json.ofF64, dif_pos v.2]
  | string s =>
    rw [leafNum] at h
    split at h
    · rename_i hs
      cases h
      rw [hs]
      rfl
    · split at h
      · rename_i hs
        cases h
        rw [hs]
        rfl
      · cases h
  | array _ => exact (leafNum_array _ _ h).elim

/-- A nesting has as many leaves as its shape says. -/
theorem NestsAll.length_eq {dims : List ℕ} {nums : List Num} {items : List Json}
    (ih : ∀ json ∈ items, ∀ nums, Nests dims nums json → nums.length = dims.prod)
    (h : NestsAll dims nums items) : nums.length = items.length * dims.prod := by
  induction items generalizing nums with
  | nil =>
    cases h
    rw [List.length_nil, List.length_nil, Nat.zero_mul]
  | cons json items ihs =>
    cases h with
    | @cons _ nums more _ _ hj hm =>
      rw [List.length_append, List.length_cons, Nat.succ_mul,
        ih json List.mem_cons_self nums hj,
        ihs (fun j hj => ih j (List.mem_cons_of_mem _ hj)) hm, Nat.add_comm]

theorem Nests.length_eq {json : Json} {dims : List ℕ} {nums : List Num}
    (h : Nests dims nums json) : nums.length = dims.prod := by
  induction json using Json.nesting generalizing dims nums with
  | leaf json hj =>
    obtain ⟨rfl, n, -, rfl⟩ := h.of_leaf hj
    rfl
  | array items ih =>
    obtain ⟨-, rfl, rfl⟩ | ⟨-, inner, rfl, hall⟩ := h.of_array
    · rfl
    · rw [hall.length_eq fun j hj nums hn => ih j hj hn, List.prod_cons]

/-- The pieces of a row of nestings are the leaves of its items. -/
theorem NestsAll.pieces {dims : List ℕ} {nums : List Num} {items : List Json}
    (h : NestsAll dims nums items) {P : List Value → Json}
    (hP : ∀ json ∈ items, ∀ nums, Nests dims nums json → P (nums.map Num.value) = json) :
    (pieces dims.prod items.length (nums.map Num.value)).map P = items := by
  induction items generalizing nums with
  | nil => rfl
  | cons json items ih =>
    cases h with
    | @cons _ nums more _ _ hj hm =>
      have hlen : (nums.map Num.value).length = dims.prod := by rw [List.length_map, hj.length_eq]
      rw [List.length_cons, Tabular.pieces, List.map_cons, List.map_append, ← hlen,
        List.take_left, List.drop_left, hP json List.mem_cons_self nums hj, hlen,
        ih hm fun j hj => hP j (List.mem_cons_of_mem _ hj)]

/-- The leaves of a row of leaves, written again. -/
theorem NestsAll.leaves {nums : List Num} {items : List Json} (h : NestsAll [] nums items)
    (hp : ∀ json ∈ items, json.Plain) : (nums.map Num.value).map jsonOf = items := by
  induction items generalizing nums with
  | nil =>
    cases h
    rfl
  | cons json items ih =>
    cases h with
    | @cons _ nums more _ _ hj hm =>
      cases hj with
      | leaf hl =>
        rw [List.map_append, List.map_append, ih hm fun j hj => hp j (List.mem_cons_of_mem _ hj)]
        exact congrArg (· :: items) (jsonOf_leafNum hl (hp json List.mem_cons_self))

theorem nest_of_nests {json : Json} {dims : List ℕ} {nums : List Num} (h : Nests dims nums json)
    (hne : dims ≠ []) (h0 : 0 ∉ dims.tail) (hp : json.Plain) :
    nest dims (nums.map Num.value) = json := by
  induction json using Json.nesting generalizing dims nums with
  | leaf json hj => exact (hne (h.of_leaf hj).1).elim
  | array items ih =>
    have hitems : ∀ json ∈ items, json.Plain := by
      cases hp with
      | array hitems => exact hitems
    obtain ⟨rfl, rfl, rfl⟩ | ⟨-, inner, rfl, hall⟩ := h.of_array
    · rfl
    · cases inner with
      | nil => rw [nest, hall.leaves hitems]
      | cons e inner =>
        rw [List.tail_cons] at h0
        have hpos : 0 < (e :: inner).prod :=
          Nat.pos_of_ne_zero fun hz => h0 (List.prod_eq_zero_iff.mp hz)
        have hlen : (nums.map Num.value).length = items.length * (e :: inner).prod := by
          rw [List.length_map, h.length_eq, List.prod_cons]
        rw [nest, max_eq_right hpos, chunks_eq hpos hlen, hall.pieces]
        intro json hj nums hn
        exact ih json hj hn (List.cons_ne_nil _ _) (fun hm => h0 (List.mem_cons_of_mem _ hm))
          (hitems json hj)

/-- **What nests back.** The leaves read off an array nest to the same value again exactly when no
dimension below the outermost is zero and no leaf is a boolean or an integer past `i64`. -/
theorem nest_nests {items : List Json} {dims : List ℕ} {nums : List Num}
    (h : Nests dims nums (.array items)) :
    nest dims (nums.map Num.value) = .array items ↔
      0 ∉ dims.tail ∧ (Json.array items).Plain := by
  constructor
  · intro he
    refine ⟨?_, he ▸ plain_nest _ _⟩
    obtain ⟨-, rfl, -⟩ | ⟨hne, inner, rfl, hall⟩ := h.of_array
    · exact List.not_mem_nil
    · intro hz
      rw [List.tail_cons] at hz
      have hnil : nums = [] := by
        apply List.length_eq_zero_iff.mp
        rw [h.length_eq, List.prod_cons, List.prod_eq_zero hz, Nat.mul_zero]
      cases inner with
      | nil => exact List.not_mem_nil hz
      | cons e inner =>
        rw [hnil, List.map_nil, nest, chunks_nil _ (by omega), List.map_nil] at he
        exact hne (Json.array.inj he).symm
  · rintro ⟨h0, hp⟩
    refine nest_of_nests h ?_ h0 hp
    rintro rfl
    obtain ⟨-, hd, -⟩ | ⟨-, _, hd, -⟩ := h.of_array <;> cases hd

/-! ### What is written is a nesting -/

theorem nestsAll_leaves {cells : List Value} (h : ∀ v ∈ cells, v.IsElement) :
    NestsAll [] (cells.map Value.num) (cells.map jsonOf) := by
  induction cells with
  | nil => exact .nil
  | cons v cells ih =>
    have hv : Nests [] [v.num] (jsonOf v) := .leaf (leafNum_jsonOf (h v List.mem_cons_self))
    exact .cons hv (ih fun w hw => h w (List.mem_cons_of_mem _ hw))

theorem nestsAll_pieces {dims : List ℕ} {P : List Value → Json}
    (hP : ∀ cells : List Value, cells.length = dims.prod → (∀ v ∈ cells, v.IsElement) →
      Nests dims (cells.map Value.num) (P cells))
    {k : ℕ} {cells : List Value} (hlen : cells.length = k * dims.prod)
    (h : ∀ v ∈ cells, v.IsElement) :
    NestsAll dims (cells.map Value.num) ((pieces dims.prod k cells).map P) := by
  induction k generalizing cells with
  | zero =>
    rw [Nat.zero_mul, List.length_eq_zero_iff] at hlen
    subst hlen
    exact .nil
  | succ k ih =>
    rw [Nat.succ_mul] at hlen
    have htake : (cells.take dims.prod).length = dims.prod := by
      rw [List.length_take]
      omega
    have hdrop : (cells.drop dims.prod).length = k * dims.prod := by
      rw [List.length_drop]
      omega
    rw [← List.take_append_drop dims.prod (cells.map Value.num), ← List.map_take, ← List.map_drop]
    exact .cons (hP _ htake fun v hv => h v (List.mem_of_mem_take hv))
      (ih hdrop fun v hv => h v (List.mem_of_mem_drop hv))

/-- What `nest` writes of a shape without a zero dimension is a nesting of that shape. -/
theorem nests_nest {dims : List ℕ} {cells : List Value} (hne : dims ≠ []) (h0 : 0 ∉ dims)
    (hlen : cells.length = dims.prod) (h : ∀ v ∈ cells, v.IsElement) :
    Nests dims (cells.map Value.num) (nest dims cells) := by
  induction dims generalizing cells with
  | nil => exact (hne rfl).elim
  | cons d dims ih =>
    rw [List.mem_cons, not_or] at h0
    cases dims with
    | nil =>
      have hd : d = (cells.map jsonOf).length := by
        rw [List.length_map, hlen, List.prod_singleton]
      rw [hd]
      refine .array ?_ (nestsAll_leaves h)
      rw [← List.length_pos_iff]
      omega
    | cons e inner =>
      have hpos : 0 < (e :: inner).prod :=
        Nat.pos_of_ne_zero fun hz => h0.2 (List.prod_eq_zero_iff.mp hz)
      rw [List.prod_cons] at hlen
      rw [nest, max_eq_right hpos, chunks_eq hpos hlen]
      have hall : NestsAll (e :: inner) (cells.map Value.num)
          ((pieces (e :: inner).prod d cells).map (nest (e :: inner))) :=
        nestsAll_pieces (fun cells hl hv => ih (List.cons_ne_nil _ _) h0.2 hl hv) hlen h
      have hd : d = ((pieces (e :: inner).prod d cells).map (nest (e :: inner))).length := by
        rw [List.length_map, length_pieces]
      have hmk := Nests.array (by rw [← List.length_pos_iff, ← hd]; omega) hall
      rw [← hd] at hmk
      exact hmk

end Spec

end InfraStore.Tabular
