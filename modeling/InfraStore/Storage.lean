import InfraStore.Lib.Cmd
import InfraStore.Requests

/-!
# The array backend

`ArrayBackend` is the seam between the store and where its arrays live: content-addressed arrays and
timestamp vectors behind commands that may fail.  `LawfulArrayBackend` states what an implementation
owes the store, against an abstract view of it as two finite maps from hashes; `MemoryBackend` is the
map itself.

* `checkDtype`, `sliceAxis`, `writeWindowBlock`: the in-memory reads every backend shares;
* `LawfulArrayBackend`: the map view and how each command changes it, failures included;
* the laws of `MemoryBackend`.
-/

namespace InfraStore

open Lib

/-- A command of a component of the store. -/
abbrev StoreCmd (σ α : Type) : Type := Cmd σ TimeSeriesError α

/-! ### Reads of an array held in memory -/

section

variable {H : Type} [ToString H]

/-- Reject a read whose dtype disagrees with the one the array is known to have. -/
def checkDtype (hash : H) (stored requested : Dtype) : Result Unit :=
  if stored ≠ requested then
    .error (.integrityError
      s!"array {hash} is stored as {stored.asStr} but the catalog says {requested.asStr}")
  else .ok ()

/-- The runs of `run` bytes that start `stride` bytes apart, `n` of them. -/
def strided (run stride : ℕ) : ℕ → List UInt8 → List UInt8
  | 0, _ => []
  | n + 1, bytes => bytes.take run ++ strided run stride n (bytes.drop stride)

/-- Copy the block of `len` windows from `start` on along an axis, keeping the axis. -/
def writeWindowBlock (a : TypedArray) (countAxis start len : ℕ) : Result (List UInt8) :=
  match a.shape[countAxis]? with
  | none => .error (.integrityError s!"count axis {countAxis} out of bounds for shape {a.shape}")
  | some axisLen =>
    if axisLen < start + len then
      .error (.invalidParameter
        s!"window block {start}..{start + len} out of bounds for axis length {axisLen}")
    else
      let outer := (a.shape.take countAxis).prod
      let inner := (a.shape.drop (countAxis + 1)).prod * a.dtype.size
      .ok (strided (len * inner) (axisLen * inner) outer (a.bytes.drop (start * inner)))

/-- The slice `start..stop` along an axis, keeping every other dimension. -/
def sliceAxis (a : TypedArray) (axis start stop : ℕ) : Result TypedArray :=
  let len := a.shape.getD axis 0
  if stop < start ∨ len < stop then
    .error (.invalidParameter s!"slice {start}..{stop} out of bounds for length {len}")
  else
    (writeWindowBlock a axis start (stop - start)).map fun bytes =>
      { dtype := a.dtype, shape := a.shape.set axis (stop - start), bytes }

end

/-! ### The interface -/

/-- What the store asks of the place its arrays live in. -/
class ArrayBackend (H : outParam Type) (B : Type) where
  /-- Insert an array; `false` if the hash is already stored. -/
  putArray : H → TypedArray → PackGroup H → ArrayLayout → StoreCmd B Bool
  /-- Whether a packed pool exists for a group at a physical shape. -/
  hasPackGroup : B → Dtype → List ℕ → ℕ → PackGroup H → Bool
  /-- Insert a block of same-shaped packed arrays; which of them this call wrote. -/
  putPackedBlock : List (H × TypedArray) → PackGroup H → StoreCmd B (List Bool)
  getArray : B → H → Dtype → Result TypedArray
  getSlice : B → H → Dtype → ℕ → ℕ → Result TypedArray
  arrayShape : B → H → Result (List ℕ)
  readArrays : B → List (H × Dtype) → Result (List TypedArray)
  /-- One row of each array, its index given per array. -/
  readIndices : B → Dtype → List (H × ℕ) → Result (List UInt8)
  /-- A range of rows of each array. -/
  readRanges : B → List (H × Dtype × ℕ × ℕ) → Result (List UInt8)
  readWindowBlock : B → H → Dtype → ℕ → ℕ → ℕ → Result (List UInt8)
  /-- Remove an array; absent hashes are left alone. -/
  removeArray : H → StoreCmd B Unit
  contains : B → H → Bool
  putTimestamps : H → List DateTime → StoreCmd B Bool
  getTimestamps : B → H → Result (List DateTime)
  removeTimestamps : H → StoreCmd B Unit
  timestampHashes : B → List H
  flush : StoreCmd B Unit

/-- The arrays the store hands a backend: well formed, with a time axis. -/
def TypedArray.Storable (a : TypedArray) : Prop := a.WellFormed ∧ a.shape ≠ []

/-- The value `m` gives a key, or else the first one a list of insertions gives it. -/
def orInserted {K V : Type} [DecidableEq K] (m : K → Option V) (items : List (K × V)) (k : K) :
    Option V :=
  (m k).or (items.lookup k)

/-- A finite-map view of a backend and how each command changes it.  A command that fails may have
stopped anywhere, so each law also bounds what a failure leaves behind; `Quiet` says that removals
do not fail from this state on. -/
class LawfulArrayBackend (H : outParam Type) [DecidableEq H] [Sha256 H] (B : Type)
    [ArrayBackend H B] where
  /-- The representation invariant. -/
  Valid : B → Prop
  /-- The stored arrays. -/
  array : B → H → Option TypedArray
  /-- The stored timestamp vectors, in milliseconds. -/
  vector : B → H → Option (List ℤ)
  /-- No removal fails from here on. -/
  Quiet : B → Prop
  contains_iff {b : B} : Valid b → ∀ h, ArrayBackend.contains b h = (array b h).isSome
  putArray_spec {b : B} {a : TypedArray} (h : H) (g : PackGroup H) (l : ArrayLayout) :
    Valid b → a.Storable →
      (ArrayBackend.putArray (B := B) h a g l).wp
        (fun r b' => Valid b' ∧ (Quiet b → Quiet b') ∧ vector b' = vector b ∧
          match r with
          | .ok true => array b h = none ∧ array b' = Function.update (array b) h (some a)
          | .ok false => (array b h).isSome ∧ array b' = array b
          | .error _ => array b' = array b) b
  putPackedBlock_spec {b : B} {items : List (H × TypedArray)} (g : PackGroup H) :
    Valid b → (∀ i ∈ items, i.2.Storable) →
      (∀ i ∈ items, ∀ j ∈ items, i.2.dtype = j.2.dtype ∧ i.2.shape = j.2.shape) →
      (ArrayBackend.putPackedBlock (B := B) items g).wp
        (fun r b' => Valid b' ∧ (Quiet b → Quiet b') ∧ vector b' = vector b ∧
          match r with
          | .ok written => array b' = orInserted (array b) items ∧
              written.length = items.length ∧
              ∀ h, (∃ p ∈ items.zip written, p.1.1 = h ∧ p.2 = true) ↔
                array b h = none ∧ ∃ i ∈ items, i.1 = h
          | .error _ => (∀ h, array b' h = array b h ∨ array b' h = orInserted (array b) items h) ∧
              (Quiet b → array b' = array b)) b
  removeArray_spec {b : B} (h : H) : Valid b →
      (ArrayBackend.removeArray (B := B) h).wp
        (fun r b' => Valid b' ∧ (Quiet b → Quiet b' ∧ r = .ok ()) ∧ vector b' = vector b ∧
          match r with
          | .ok _ => array b' = Function.update (array b) h none
          | .error _ => array b' = array b) b
  putTimestamps_spec {b : B} (h : H) (ts : List DateTime) : Valid b →
      (ArrayBackend.putTimestamps (B := B) h ts).wp
        (fun r b' => Valid b' ∧ (Quiet b → Quiet b') ∧ array b' = array b ∧
          match r with
          | .ok true => vector b h = none ∧
              vector b' = Function.update (vector b) h (some (toMillis ts))
          | .ok false => (vector b h).isSome ∧ vector b' = vector b
          | .error _ => vector b' = vector b) b
  getTimestamps_eq {b : B} : Valid b → ∀ h, ArrayBackend.getTimestamps b h =
    match vector b h with
    | none => .error .notFound
    | some ms => mapErr .integrityError (fromMillis ms)
  removeTimestamps_spec {b : B} (h : H) : Valid b →
      (ArrayBackend.removeTimestamps (B := B) h).wp
        (fun r b' => Valid b' ∧ (Quiet b → Quiet b' ∧ r = .ok ()) ∧ array b' = array b ∧
          match r with
          | .ok _ => vector b' = Function.update (vector b) h none
          | .error _ => vector b' = vector b ∨ vector b' = Function.update (vector b) h none) b
  mem_timestampHashes {b : B} : Valid b →
    ∀ h, h ∈ ArrayBackend.timestampHashes b ↔ (vector b h).isSome
  flush_spec {b : B} : Valid b →
      (ArrayBackend.flush (B := B)).wp
        (fun _ b' => Valid b' ∧ (Quiet b → Quiet b') ∧ array b' = array b ∧ vector b' = vector b) b

/-! ### The in-memory backend -/

/-- The pure in-memory backend: whole arrays and stored vectors by hash. -/
structure MemoryBackend (H : Type) where
  arrays : FMap H TypedArray
  timestamps : FMap H (List ℤ)

namespace MemoryBackend

variable {H : Type} [DecidableEq H]

/-- The empty backend. -/
def empty : MemoryBackend H := ⟨∅, ∅⟩

def putArray (h : H) (a : TypedArray) (_ : PackGroup H) (_ : ArrayLayout) :
    StoreCmd (MemoryBackend H) Bool :=
  Cmd.ofExec fun b =>
    if h ∈ b.arrays then (.ok false, b)
    else (.ok true, { b with arrays := b.arrays.insert h a })

/-- The default block writer: one put an array, in order. -/
def putPackedBlock (items : List (H × TypedArray)) (g : PackGroup H) :
    StoreCmd (MemoryBackend H) (List Bool) :=
  items.mapM fun i => putArray i.1 i.2 g .packed

def getArray [ToString H] (b : MemoryBackend H) (h : H) (d : Dtype) : Result TypedArray :=
  match FMap.get b.arrays h with
  | none => .error .notFound
  | some a => (checkDtype h a.dtype d).map fun _ => a

def getSlice [ToString H] (b : MemoryBackend H) (h : H) (d : Dtype) (start stop : ℕ) :
    Result TypedArray :=
  match FMap.get b.arrays h with
  | none => .error .notFound
  | some a => do
    checkDtype h a.dtype d
    sliceAxis a 0 start stop

def arrayShape (b : MemoryBackend H) (h : H) : Result (List ℕ) :=
  match FMap.get b.arrays h with
  | none => .error .notFound
  | some a => .ok a.shape

/-- The bytes of reads made one after the other. -/
def concatReads {α : Type} (read : α → Result TypedArray) (as : List α) : Result (List UInt8) :=
  (as.mapM read).map fun parts => parts.flatMap TypedArray.bytes

def readWindowBlock [ToString H] (b : MemoryBackend H) (h : H) (d : Dtype)
    (countAxis start len : ℕ) : Result (List UInt8) := do
  let a ← b.getArray h d
  writeWindowBlock a countAxis start len

def removeArray (h : H) : StoreCmd (MemoryBackend H) Unit :=
  Cmd.ofExec fun b => (.ok (), { b with arrays := b.arrays.erase h })

def putTimestamps (h : H) (ts : List DateTime) : StoreCmd (MemoryBackend H) Bool :=
  Cmd.ofExec fun b =>
    if h ∈ b.timestamps then (.ok false, b)
    else (.ok true, { b with timestamps := b.timestamps.insert h (toMillis ts) })

def getTimestamps (b : MemoryBackend H) (h : H) : Result (List DateTime) :=
  match FMap.get b.timestamps h with
  | none => .error .notFound
  | some ms => mapErr .integrityError (fromMillis ms)

def removeTimestamps (h : H) : StoreCmd (MemoryBackend H) Unit :=
  Cmd.ofExec fun b => (.ok (), { b with timestamps := b.timestamps.erase h })

instance [ToString H] : ArrayBackend H (MemoryBackend H) where
  putArray := putArray
  hasPackGroup _ _ _ _ _ := false
  putPackedBlock := putPackedBlock
  getArray := getArray
  getSlice := getSlice
  arrayShape := arrayShape
  readArrays b hs := hs.mapM fun h => b.getArray h.1 h.2
  readIndices b d hs := concatReads (fun h => b.getSlice h.1 d h.2 (h.2 + 1)) hs
  readRanges b hs := concatReads (fun h => b.getSlice h.1 h.2.1 h.2.2.1 h.2.2.2) hs
  readWindowBlock := readWindowBlock
  removeArray := removeArray
  contains b h := decide (h ∈ b.arrays)
  putTimestamps := putTimestamps
  getTimestamps := getTimestamps
  removeTimestamps := removeTimestamps
  timestampHashes b := b.timestamps.keys
  flush := pure ()

/-! ### The laws of the in-memory backend -/

/-- One more insertion on top of a list of them. -/
theorem orInserted_cons {K V : Type} [DecidableEq K] (m : K → Option V) (k : K) (v : V)
    (items : List (K × V)) (h : m k = none) :
    orInserted m ((k, v) :: items) = orInserted (Function.update m k (some v)) items := by
  funext k'
  unfold orInserted
  by_cases hk : k' = k
  · subst hk
    rw [h, Function.update_self, List.lookup_cons_self]
    rfl
  · rw [Function.update_of_ne hk, List.lookup_cons, beq_eq_false_iff_ne.mpr hk]

theorem orInserted_cons_held {K V : Type} [DecidableEq K] (m : K → Option V) (k : K) (v : V)
    (items : List (K × V)) (h : (m k).isSome) :
    orInserted m ((k, v) :: items) = orInserted m items := by
  funext k'
  unfold orInserted
  by_cases hk : k' = k
  · subst hk
    obtain ⟨w, hw⟩ := Option.isSome_iff_exists.mp h
    rw [hw]
    rfl
  · rw [List.lookup_cons, beq_eq_false_iff_ne.mpr hk]

/-- What one put does to the map. -/
theorem putArray_exec (b : MemoryBackend H) (h : H) (a : TypedArray) (g : PackGroup H)
    (l : ArrayLayout) :
    (putArray h a g l).exec b =
      if h ∈ b.arrays then (.ok false, b)
      else (.ok true, { b with arrays := b.arrays.insert h a }) := rfl

/-- **Block puts.**  A block of puts inserts, in order, what the map does not hold. -/
theorem putPackedBlock_wp (g : PackGroup H) (items : List (H × TypedArray)) :
    ∀ b : MemoryBackend H, (putPackedBlock items g).wp
      (fun r b' => b'.timestamps = b.timestamps ∧ ∃ written, r = .ok written ∧
        FMap.get b'.arrays = orInserted (FMap.get b.arrays) items ∧
        written.length = items.length ∧
        ∀ h, (∃ p ∈ items.zip written, p.1.1 = h ∧ p.2 = true) ↔
          FMap.get b.arrays h = none ∧ ∃ i ∈ items, i.1 = h) b := by
  induction items with
  | nil =>
    intro b
    refine ⟨rfl, [], rfl, ?_, rfl, by simp⟩
    funext h
    simp [orInserted]
    rfl
  | cons i items ih =>
    intro b
    obtain ⟨k, v⟩ := i
    unfold putPackedBlock
    rw [List.mapM_cons, Cmd.wp_bind]
    by_cases hk : k ∈ b.arrays
    · rw [Cmd.wp_of_exec ((putArray_exec b k v g .packed).trans (if_pos hk))]
      have hs : (FMap.get b.arrays k).isSome := (FMap.mem_iff_isSome _ _).mp hk
      simp only [Cmd.wp_bind]
      refine Cmd.wp_mono (ih b) ?_
      rintro r b' ⟨ht, written, rfl, hl, hlen, hw⟩
      refine ⟨ht, false :: written, rfl, ?_, by simp [hlen], fun h => ?_⟩
      · exact hl.trans (orInserted_cons_held _ _ _ _ hs).symm
      · simp only [List.zip_cons_cons, List.mem_cons, exists_eq_or_imp, Bool.false_eq_true,
          and_false, false_or, hw h]
        refine and_congr_right fun hn => ⟨Or.inr, Or.rec (fun he => ?_) id⟩
        rw [he, hn] at hs
        cases hs
    · rw [Cmd.wp_of_exec ((putArray_exec b k v g .packed).trans (if_neg hk))]
      have hn : FMap.get b.arrays k = none := FMap.get_eq_none hk
      simp only [Cmd.wp_bind]
      refine Cmd.wp_mono (ih _) ?_
      rintro r b' ⟨ht, written, rfl, hl, hlen, hw⟩
      refine ⟨ht, true :: written, rfl, ?_, by simp [hlen], fun h => ?_⟩
      · refine hl.trans ?_
        rw [FMap.get_insert, orInserted_cons _ _ _ _ hn]
      · simp only [List.zip_cons_cons, List.mem_cons, exists_eq_or_imp, and_true, hw h]
        by_cases he : h = k
        · subst he
          simp [hn]
        · simp only [FMap.get_insert, Function.update_of_ne he, Ne.symm he, false_or]

instance [ToString H] [Sha256 H] : LawfulArrayBackend H (MemoryBackend H) where
  Valid _ := True
  array b := FMap.get b.arrays
  vector b := FMap.get b.timestamps
  Quiet _ := True
  contains_iff := by
    intro b _ h
    show decide (h ∈ b.arrays) = _
    rw [Bool.eq_iff_iff, decide_eq_true_iff, FMap.mem_iff_isSome]
  putArray_spec := by
    intro b a h g l _ _
    show _ ∧ _
    rw [show ArrayBackend.putArray (B := MemoryBackend H) h a g l = putArray h a g l from rfl,
      putArray_exec]
    split
    · rename_i hk
      exact ⟨trivial, id, rfl, (FMap.mem_iff_isSome _ _).mp hk, rfl⟩
    · rename_i hk
      exact ⟨trivial, id, rfl, FMap.get_eq_none hk, FMap.get_insert _ _ _⟩
  putPackedBlock_spec := by
    intro b items g _ _ _
    refine Cmd.wp_mono (putPackedBlock_wp g items b) ?_
    rintro r b' ⟨ht, written, rfl, hl, hlen, hw⟩
    exact ⟨trivial, id, by rw [ht], hl, hlen, hw⟩
  removeArray_spec := fun h _ => ⟨trivial, fun _ => ⟨trivial, rfl⟩, rfl, FMap.get_erase _ _⟩
  putTimestamps_spec := by
    intro b h ts _
    show _ ∧ _
    rw [show (ArrayBackend.putTimestamps (B := MemoryBackend H) h ts).exec b
      = if h ∈ b.timestamps then (.ok false, b)
        else (.ok true, { b with timestamps := b.timestamps.insert h (toMillis ts) }) from rfl]
    split
    · rename_i hk
      exact ⟨trivial, id, rfl, (FMap.mem_iff_isSome _ _).mp hk, rfl⟩
    · rename_i hk
      exact ⟨trivial, id, rfl, FMap.get_eq_none hk, FMap.get_insert _ _ _⟩
  getTimestamps_eq := fun _ _ => rfl
  removeTimestamps_spec := fun h _ =>
    ⟨trivial, fun _ => ⟨trivial, rfl⟩, rfl, FMap.get_erase _ _⟩
  mem_timestampHashes := fun _ _ => FMap.mem_iff_isSome _ _
  flush_spec := fun _ => ⟨trivial, id, rfl, rfl⟩

end MemoryBackend

end InfraStore
