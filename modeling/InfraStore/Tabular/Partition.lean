import InfraStore.Lib.Names
import InfraStore.MetadataFilter
import InfraStore.Tabular.Layout
import Mathlib.Data.List.Dedup
import Mathlib.Data.List.Sort
import Mathlib.Order.WithBot

/-!
# Partitions and what they are called

A selection is partitioned by the triple `(time_series_type, value kind, time_reference)`.  A
partition's stem is sanitised text, so two partitions can want one stem; `disambiguate` hands out
distinct ones.

* `PartitionKey` is linearly ordered by an exact rendering of the key;
* `sanitize_legal`: a fragment of a stem is a legal path component;
* `disambiguate_spec`: the stems handed out are distinct ignoring case, and depend only on which keys
  there are.

Names are modelled as their characters.
-/

namespace InfraStore.Tabular

open InfraStore.Lib

/-- A file or table name, as its characters. -/
abbrev Name : Type := List Char

instance : LawfulBEq Name := inferInstance

/-- A name in lower case; the names of the layout are ASCII. -/
def lower (name : Name) : Name := name.map Char.toLower

/-! ### Partition keys -/

/-- The `value` column's identity: what decides its column type. -/
inductive ValueKind where
  | dense (dtype : Dtype) (shape : List ℕ)
  | tuple (arity : ℕ) (dtype : Dtype)
  | composite (kind : ElementType)
  deriving DecidableEq

namespace ValueKind

/-- The kind a stored row belongs to. -/
def «of» (elementType : ElementType) (elementShape : List ℕ) : ValueKind :=
  match elementType with
  | .scalar dtype => dense dtype elementShape
  | .tuple arity dtype => tuple arity dtype
  | kind => composite kind

/-- The filename fragment for a kind. -/
def slug : ValueKind → Name
  | dense dtype [] => dtype.asStr.toList
  | dense dtype shape =>
    dtype.asStr.toList ++ ['_'] ++ ['x'].intercalate (shape.map (Nat.toDigits 10))
  | tuple arity dtype => "tuple".toList ++ Nat.toDigits 10 arity ++ ['_'] ++ dtype.asStr.toList
  | composite kind => kind.displayChars

/-- An element type's place in the derived order, as a list compared lexicographically. -/
def elementKey : ElementType → List ℕ
  | .scalar dtype => [0, dtype.code]
  | .tuple arity dtype => [1, arity, dtype.code]
  | .linearFunction => [2]
  | .quadraticFunction => [3]
  | .piecewiseLinear => [4]
  | .piecewiseStep => [5]

/-- A kind's place in the derived order. -/
def sortKey : ValueKind → List ℕ
  | dense dtype shape => 0 :: dtype.code :: shape
  | tuple arity dtype => [1, arity, dtype.code]
  | composite kind => 2 :: elementKey kind

end ValueKind

theorem code_injective : Function.Injective Dtype.code := by
  intro a b h
  cases a <;> cases b <;> first | rfl | exact absurd h (by decide)

theorem ValueKind.elementKey_injective : Function.Injective elementKey := by
  intro a b h
  cases a <;> cases b <;> simp_all [elementKey, code_injective.eq_iff]

theorem ValueKind.sortKey_injective : Function.Injective sortKey := by
  intro a b h
  cases a <;> cases b <;>
    simp_all [sortKey, code_injective.eq_iff, elementKey_injective.eq_iff]

/-- One partition: everything that must be constant within a table. -/
structure PartitionKey where
  timeSeriesType : TimeSeriesType
  valueKind : ValueKind
  timeReference : Option TimeReference
  deriving DecidableEq

/-- A reference's place in the order: its variant, then its storage string. -/
def referenceKey : TimeReference → ℕ ×ₗ String
  | .utc => toLex (0, "utc")
  | .fixedOffset m => toLex (1, (TimeReference.fixedOffset m).asStorageString)
  | .zone name => toLex (2, name)
  | .zoneless => toLex (3, "zoneless")

/-- Two digits at least. -/
def twoDigits (n : ℕ) : List Char := (if n < 10 then ['0'] else []) ++ Nat.toDigits 10 n

theorem isDigit_of_mem_twoDigits {n : ℕ} {c : Char} (h : c ∈ twoDigits n) : c.isDigit = true := by
  rcases List.mem_append.mp h with h | h
  · split at h
    · rw [List.mem_singleton.mp h]
      decide
    · exact (List.not_mem_nil h).elim
  · exact Period.isDigit_toDigits h

theorem twoDigits_injective {m n : ℕ} (h : twoDigits m = twoDigits n) : m = n := by
  have hvalue : ∀ k, Nat.ofDigitChars 10 (twoDigits k) 0 = k := by
    intro k
    unfold twoDigits
    split
    · rw [List.singleton_append, Nat.ofDigitChars_cons]
      exact Nat.ofDigitChars_ten_toDigits
    · exact Nat.ofDigitChars_ten_toDigits
  rw [← hvalue m, h, hvalue n]

/-- A text up to the first of a character it does not hold is determined by the whole. -/
theorem append_cons_inj {c : Char} {a b a' b' : List Char} (ha : c ∉ a) (hb : c ∉ b)
    (h : a ++ c :: a' = b ++ c :: b') : a = b ∧ a' = b' := by
  induction a generalizing b with
  | nil =>
    cases b with
    | nil => exact ⟨rfl, (List.cons.inj h).2⟩
    | cons x b => exact absurd ((List.cons.inj h).1 ▸ List.mem_cons_self) hb
  | cons x a ih =>
    cases b with
    | nil => exact absurd ((List.cons.inj h).1 ▸ List.mem_cons_self) ha
    | cons y b =>
      rw [List.mem_cons, not_or] at ha hb
      obtain ⟨e, e'⟩ := List.cons.inj h
      obtain ⟨h₁, h₂⟩ := ih ha.2 hb.2 e'
      exact ⟨by rw [e, h₁], h₂⟩

/-- The storage strings of different offsets differ. -/
theorem formatOffset_injective {m n : ℤ}
    (h : TimeReference.formatOffset m = TimeReference.formatOffset n) : m = n := by
  have hform : ∀ k : ℤ, TimeReference.formatOffset k =
      (if k < 0 then '-' else '+') :: (twoDigits (k.natAbs / 60) ++
        ':' :: twoDigits (k.natAbs % 60)) := by
    intro k
    simp [TimeReference.formatOffset, twoDigits]
  have hcolon : ∀ k, ':' ∉ twoDigits k := fun k hk =>
    absurd (isDigit_of_mem_twoDigits hk) (by decide)
  rw [hform, hform] at h
  obtain ⟨hsign, hrest⟩ := List.cons.inj h
  obtain ⟨hh, hm⟩ := append_cons_inj (hcolon _) (hcolon _) hrest
  have hq := twoDigits_injective hh
  have hr := twoDigits_injective hm
  have habs : m.natAbs = n.natAbs := by
    rw [← Nat.div_add_mod m.natAbs 60, ← Nat.div_add_mod n.natAbs 60, hq, hr]
  have hneg : m < 0 ↔ n < 0 := by
    constructor
    · intro h₁
      by_contra h₂
      rw [if_pos h₁, if_neg h₂] at hsign
      exact absurd hsign (by decide)
    · intro h₂
      by_contra h₁
      rw [if_neg h₁, if_pos h₂] at hsign
      exact absurd hsign (by decide)
  omega

theorem referenceKey_injective : Function.Injective referenceKey := by
  intro a b h
  cases a <;> cases b <;> simp_all [referenceKey, TimeReference.asStorageString]
  exact Subtype.ext (formatOffset_injective (String.ofList_injective h))

namespace PartitionKey

/-- What keys are compared by. -/
def sortKey (key : PartitionKey) : ℤ ×ₗ List ℕ ×ₗ WithBot (ℕ ×ₗ String) :=
  toLex (key.timeSeriesType.code, toLex (key.valueKind.sortKey, key.timeReference.map referenceKey))

theorem sortKey_injective : Function.Injective sortKey := by
  intro a b h
  have h₁ : (a.timeSeriesType.code, (a.valueKind.sortKey, a.timeReference.map referenceKey)) =
      (b.timeSeriesType.code, (b.valueKind.sortKey, b.timeReference.map referenceKey)) := h
  simp only [Prod.mk.injEq] at h₁
  obtain ⟨ht, hk, hr⟩ := h₁
  cases a
  cases b
  rw [PartitionKey.mk.injEq]
  exact ⟨TimeSeriesType.code_injective ht, ValueKind.sortKey_injective hk,
    Option.map_injective referenceKey_injective hr⟩

instance : LinearOrder PartitionKey := LinearOrder.lift' sortKey sortKey_injective

end PartitionKey

/-! ### Stems -/

/-- The filename fragment for a time reference. -/
def referenceSlug : Option TimeReference → Name
  | none => "unspecified".toList
  | some .utc => "utc".toList
  | some .zoneless => "zoneless".toList
  | some (.zone name) => name.toList
  | some (.fixedOffset m) =>
    "offset_".toList ++ (if m.1 < 0 then "minus" else "plus").toList ++
      twoDigits (m.1.natAbs / 60) ++ ['_'] ++ twoDigits (m.1.natAbs % 60)

/-- The characters a fragment keeps. -/
def isSafe (c : Char) : Bool := c.isAlphanum || c = '_' || c = '-' || c = '.'

/-- Names Windows treats as devices whatever the extension. -/
def reservedDeviceNames : List Name :=
  ["CON", "PRN", "AUX", "NUL", "COM1", "COM2", "COM3", "COM4", "COM5", "COM6", "COM7", "COM8", "COM9",
    "LPT1", "LPT2", "LPT3", "LPT4", "LPT5", "LPT6", "LPT7", "LPT8", "LPT9"].map String.toList

/-- A name without its leading and trailing dots. -/
def trimDots (name : Name) : Name :=
  ((name.dropWhile (· = '.')).reverse.dropWhile (· = '.')).reverse

/-- Map one fragment onto the filename-safe alphabet. -/
def sanitize (fragment : Name) : Name :=
  let mapped := fragment.map fun c => if isSafe c then c else '_'
  let bare := trimDots mapped
  if bare = [] ∨ reservedDeviceNames.any (fun d => lower bare = lower d) then
    "x_".toList ++ bare
  else bare

/-- `<type>.<value-slug>.<reference-slug>`, the stem a partition's files share. -/
def PartitionKey.stem (key : PartitionKey) : Name :=
  sanitize key.timeSeriesType.asStr.toList ++ ['.'] ++ sanitize key.valueKind.slug ++ ['.'] ++
    sanitize (referenceSlug key.timeReference)

/-- The `n`-th name tried for a base: the base itself, then the base with a numeric suffix. -/
def candidate (base : Name) (n : ℕ) : Name :=
  if n = 1 then base else base ++ '_' :: Nat.toDigits 10 n

/-- The distinct keys of a selection, in order. -/
def sortedKeys (keys : List PartitionKey) : List PartitionKey :=
  (keys.insertionSort (· ≤ ·)).dedup

/-- Assign every partition a distinct stem; `fuel` bounds the candidates tried for one key. -/
def disambiguate (fuel : ℕ) (keys : List PartitionKey) : Option (List (PartitionKey × Name)) :=
  Names.assign lower (fun key => candidate key.stem) fuel (sortedKeys keys) []

/-! ### Fragments are legal -/

/-- A path component every platform takes: safe characters, at least one, no dot at either end, and not
a device name in any case. -/
structure Legal (name : Name) : Prop where
  safe : ∀ c ∈ name, isSafe c = true
  nonempty : name ≠ []
  head : name.head? ≠ some '.'
  last : name.getLast? ≠ some '.'
  device : ∀ d ∈ reservedDeviceNames, lower name ≠ lower d

theorem head?_dropWhile_dot (name : Name) : (name.dropWhile (· = '.')).head? ≠ some '.' := by
  induction name with
  | nil => simp
  | cons c name ih =>
    rw [List.dropWhile_cons]
    split
    · exact ih
    · rename_i hc
      simpa using hc

theorem mem_of_mem_trimDots {name : Name} {c : Char} (h : c ∈ trimDots name) : c ∈ name := by
  unfold trimDots at h
  rw [List.mem_reverse] at h
  have := (List.dropWhile_sublist _).subset h
  rw [List.mem_reverse] at this
  exact (List.dropWhile_sublist _).subset this

theorem getLast?_trimDots (name : Name) : (trimDots name).getLast? ≠ some '.' := by
  unfold trimDots
  rw [List.getLast?_reverse]
  exact head?_dropWhile_dot _

theorem head?_trimDots (name : Name) : (trimDots name).head? ≠ some '.' := by
  have hpre : trimDots name <+: name.dropWhile (· = '.') := by
    unfold trimDots
    have := List.dropWhile_suffix (fun c : Char => decide (c = '.'))
      (l := (name.dropWhile (· = '.')).reverse)
    rw [← List.reverse_prefix] at this
    simpa using this
  intro h
  obtain ⟨rest, hrest⟩ := hpre
  refine head?_dropWhile_dot name ?_
  rw [← hrest, List.head?_append, h]
  rfl

/-- Every fragment of a stem is a legal path component. -/
theorem sanitize_legal (fragment : Name) : Legal (sanitize fragment) := by
  have hsafe : ∀ c ∈ trimDots (fragment.map fun c => if isSafe c then c else '_'),
      isSafe c = true := by
    intro c hc
    obtain ⟨c', -, rfl⟩ := List.mem_map.mp (mem_of_mem_trimDots hc)
    split
    · assumption
    · decide
  unfold sanitize
  simp only
  generalize hbare : trimDots (fragment.map fun c => if isSafe c then c else '_') = bare at hsafe ⊢
  have hhead : bare.head? ≠ some '.' := hbare ▸ head?_trimDots _
  have hlast : bare.getLast? ≠ some '.' := hbare ▸ getLast?_trimDots _
  split
  · have hx : "x_".toList = ['x', '_'] := by decide
    rw [hx]
    refine ⟨fun c hc => ?_, by simp, by simp, ?_, fun d hd h => ?_⟩
    · rcases List.mem_append.mp hc with hc | hc
      · rcases List.mem_cons.mp hc with rfl | hc
        · decide
        · rw [List.mem_singleton.mp hc]
          decide
      · exact hsafe c hc
    · cases bare with
      | nil => decide
      | cons c bare =>
        rw [List.getLast?_append_of_ne_nil _ (List.cons_ne_nil _ _)]
        exact hlast
    · have hfirst := congrArg List.head? h
      rw [show (lower (['x', '_'] ++ bare)).head? = some 'x' from rfl] at hfirst
      have hall : reservedDeviceNames.all (fun d => (lower d).head? ≠ some 'x') = true := by decide
      have := List.all_eq_true.mp hall d hd
      rw [← hfirst] at this
      exact absurd this (by decide)
  · rename_i hok
    rw [not_or, List.any_eq_true] at hok
    refine ⟨hsafe, hok.1, hhead, hlast, fun d hd h => hok.2 ⟨d, hd, by simpa using h⟩⟩

/-! ### The stems are distinct -/

theorem lower_append (a b : Name) : lower (a ++ b) = lower a ++ lower b := List.map_append

theorem toLower_of_isDigit {c : Char} (h : c.isDigit = true) : c.toLower = c := by
  unfold Char.toLower
  rw [dif_neg]
  simp only [Char.isDigit, Bool.and_eq_true, decide_eq_true_eq] at h
  rintro ⟨h₁, -⟩
  have h₂ := h.2
  rw [ge_iff_le, UInt32.le_iff_toNat_le] at h₁
  rw [UInt32.le_iff_toNat_le] at h₂
  have : (65 : ℕ) ≤ 57 := le_trans h₁ h₂
  omega

theorem lower_digits (n : ℕ) : lower (Nat.toDigits 10 n) = Nat.toDigits 10 n :=
  (List.map_congr_left fun _ hc => toLower_of_isDigit (Period.isDigit_toDigits hc)).trans
    (List.map_id _)

theorem toDigits_injective : Function.Injective (Nat.toDigits 10) := by
  intro m n h
  rw [← Nat.ofDigitChars_ten_toDigits (n := m), h, Nat.ofDigitChars_ten_toDigits]

theorem lower_suffix (n : ℕ) : lower ('_' :: Nat.toDigits 10 n) = '_' :: Nat.toDigits 10 n := by
  have h := lower_digits n
  unfold lower at h ⊢
  rw [List.map_cons, h]
  rfl

/-- No two candidates of one base fold alike. -/
theorem candidate_injective (base : Name) :
    Function.Injective fun n => lower (candidate base n) := by
  have hlen : ∀ n : ℕ, lower (base ++ '_' :: Nat.toDigits 10 n) ≠ lower base := by
    intro n h
    have := congrArg List.length h
    simp [lower] at this
  intro m n h
  simp only [candidate] at h
  split at h
  · split at h
    · omega
    · exact absurd h.symm (hlen n)
  · split at h
    · exact absurd h (hlen m)
    · rw [lower_append, lower_append, lower_suffix, lower_suffix] at h
      exact toDigits_injective (List.cons.inj (List.append_cancel_left h)).2

theorem mem_sortedKeys {keys : List PartitionKey} {key : PartitionKey} :
    key ∈ sortedKeys keys ↔ key ∈ keys := by
  unfold sortedKeys
  rw [List.mem_dedup, List.mem_insertionSort]

theorem sortedKeys_pairwise (keys : List PartitionKey) : (sortedKeys keys).Pairwise (· < ·) := by
  unfold sortedKeys
  have hle : ((keys.insertionSort (· ≤ ·)).dedup).Pairwise (· ≤ ·) :=
    (List.pairwise_insertionSort (· ≤ ·) keys).sublist (List.dedup_sublist _)
  have hne : ((keys.insertionSort (· ≤ ·)).dedup).Pairwise (· ≠ ·) := List.nodup_dedup _
  exact (hle.and hne).imp fun h => lt_of_le_of_ne h.1 h.2

/-- The keys in order depend only on which keys there are. -/
theorem sortedKeys_congr {keys keys' : List PartitionKey} (h : ∀ key, key ∈ keys ↔ key ∈ keys') :
    sortedKeys keys = sortedKeys keys' := by
  refine List.Pairwise.eq_of_mem_iff (sortedKeys_pairwise keys) (sortedKeys_pairwise keys') ?_
  intro key
  rw [mem_sortedKeys, mem_sortedKeys, h]

theorem length_sortedKeys_le (keys : List PartitionKey) : (sortedKeys keys).length ≤ keys.length := by
  unfold sortedKeys
  exact (List.dedup_sublist _).length_le.trans (List.length_insertionSort (· ≤ ·) keys).le

/-- **Stems.**  With a candidate a key the assignment ends, gives every key a stem, no two of which are
equal ignoring case, and gives the same stems for the same keys in any order. -/
theorem disambiguate_spec (keys : List PartitionKey) {fuel : ℕ} (hfuel : keys.length ≤ fuel) :
    ∃ stems, disambiguate fuel keys = some stems ∧ stems.map Prod.fst = sortedKeys keys ∧
      (stems.map fun p => lower p.2).Nodup ∧
      ∀ keys' more, (∀ key, key ∈ keys' ↔ key ∈ keys) → keys.length ≤ more →
        disambiguate more keys' = some stems := by
  have hlen := length_sortedKeys_le keys
  obtain ⟨stems, hstems, hkeys, hnodup, -, -, hmore⟩ :=
    Names.assign_spec (sortedKeys keys) [] (fun key => candidate_injective key.stem)
      (by simpa using hlen.trans hfuel)
  refine ⟨stems, hstems, hkeys, hnodup, fun keys' more hsame hle => ?_⟩
  unfold disambiguate
  rw [sortedKeys_congr hsame]
  exact hmore more (by simpa using hlen.trans hle)

end InfraStore.Tabular
