import InfraStore.ReadPath
import InfraStore.Slices

/-!
# Reads of a held array

What a backend owes the reads made with the dtype an array is stored in, and what the array store
answers from its buffer and its backend together.

* `LawfulReads`: whole reads, slices and window blocks of a held array are its slices, and anything
  outside it is refused;
* the laws of `MemoryBackend`;
* `ArrayStore.getSlice_eq` and its siblings: the same of a valid array store.
-/

namespace InfraStore

open Lib

/-- The reads of a held array, made with its dtype, are its slices. -/
class LawfulReads (H : outParam Type) [DecidableEq H] [Sha256 H] (B : Type) [ArrayBackend H B]
    [LawfulArrayBackend H B] : Prop where
  getArray_eq {b : B} {h : H} {a : TypedArray} : LawfulArrayBackend.Valid b →
    LawfulArrayBackend.array b h = some a → ArrayBackend.getArray b h a.dtype = .ok a
  getSlice_eq {b : B} {h : H} {a : TypedArray} {start stop : ℕ} : LawfulArrayBackend.Valid b →
    LawfulArrayBackend.array b h = some a → a.shape ≠ [] → start ≤ stop → stop ≤ a.length →
      ArrayBackend.getSlice b h a.dtype start stop = .ok (a.slice 0 start (stop - start))
  getSlice_ok {b : B} {h : H} {a r : TypedArray} {start stop : ℕ} : LawfulArrayBackend.Valid b →
    LawfulArrayBackend.array b h = some a →
      ArrayBackend.getSlice b h a.dtype start stop = .ok r → start ≤ stop ∧ stop ≤ a.length
  /-- A slice is read of an array that is held, of elements as wide as it was asked for. -/
  getSlice_held {b : B} {h : H} {d : Dtype} {r : TypedArray} {start stop : ℕ} :
    LawfulArrayBackend.Valid b → ArrayBackend.getSlice b h d start stop = .ok r →
      ∃ a, LawfulArrayBackend.array b h = some a ∧ a.dtype.size = d.size ∧ start ≤ stop ∧
        stop ≤ a.length ∧ r.bytes = (a.slice 0 start (stop - start)).bytes
  arrayShape_eq {b : B} {h : H} {a : TypedArray} : LawfulArrayBackend.Valid b →
    LawfulArrayBackend.array b h = some a → ArrayBackend.arrayShape b h = .ok a.shape
  arrayShape_held {b : B} {h : H} {shape : List ℕ} : LawfulArrayBackend.Valid b →
    ArrayBackend.arrayShape b h = .ok shape → (LawfulArrayBackend.array b h).isSome
  readWindowBlock_eq {b : B} {h : H} {a : TypedArray} {axis start len d : ℕ} :
    LawfulArrayBackend.Valid b → LawfulArrayBackend.array b h = some a → a.shape[axis]? = some d →
      start + len ≤ d →
      ArrayBackend.readWindowBlock b h a.dtype axis start len = .ok (a.slice axis start len).bytes
  readWindowBlock_ok {b : B} {h : H} {a : TypedArray} {axis start len : ℕ} {bytes : List UInt8} :
    LawfulArrayBackend.Valid b → LawfulArrayBackend.array b h = some a →
      ArrayBackend.readWindowBlock b h a.dtype axis start len = .ok bytes →
      ∃ d, a.shape[axis]? = some d ∧ start + len ≤ d

theorem checkDtype_self {H : Type} [ToString H] (h : H) (d : Dtype) : checkDtype h d d = .ok () :=
  if_neg (not_not.mpr rfl)

/-- An array's length is its first dimension. -/
theorem TypedArray.shape_zero {a : TypedArray} (h : a.shape ≠ []) : a.shape[0]? = some a.length := by
  obtain ⟨n, rest, hs⟩ := List.exists_cons_of_ne_nil h
  rw [TypedArray.length, hs]
  rfl

theorem TypedArray.length_of_shape_zero {a : TypedArray} {d : ℕ} (h : a.shape[0]? = some d) :
    a.length = d := by
  unfold TypedArray.length
  cases hs : a.shape with
  | nil =>
    rw [hs] at h
    cases h
  | cons n rest =>
    rw [hs] at h
    exact Option.some.inj h

theorem checkDtype_ok {H : Type} [ToString H] {h : H} {d d' : Dtype} (hc : checkDtype h d d' = .ok ()) :
    d = d' := by
  unfold checkDtype at hc
  split at hc
  · cases hc
  · rename_i heq
    exact not_not.mp heq

/-- A slice of rows that was read lies in the array. -/
theorem sliceAxis_zero {a r : TypedArray} {start stop : ℕ} (h : sliceAxis a 0 start stop = .ok r) :
    start ≤ stop ∧ stop ≤ a.length ∧ r.bytes = (a.slice 0 start (stop - start)).bytes := by
  obtain ⟨n, hn, hle, hstop⟩ := sliceAxis_ok h
  rw [sliceAxis_eq hn hle hstop] at h
  cases h
  exact ⟨hle, a.length_of_shape_zero hn ▸ hstop, rfl⟩

/-! ### The in-memory backend -/

namespace MemoryBackend

variable {H : Type} [DecidableEq H] [ToString H] [Sha256 H]

instance : LawfulReads H (MemoryBackend H) where
  getArray_eq := by
    intro b h a _ ha
    show getArray b h a.dtype = _
    unfold getArray
    rw [show FMap.get b.arrays h = some a from ha]
    simp only
    rw [checkDtype_self]
    rfl
  getSlice_eq := by
    intro b h a start stop _ ha hne hle hstop
    show getSlice b h a.dtype start stop = _
    unfold getSlice
    rw [show FMap.get b.arrays h = some a from ha]
    simp only
    rw [checkDtype_self]
    exact sliceAxis_eq (a.shape_zero hne) hle hstop
  getSlice_ok := by
    intro b h a r start stop _ ha hr
    change getSlice b h a.dtype start stop = .ok r at hr
    unfold getSlice at hr
    rw [show FMap.get b.arrays h = some a from ha] at hr
    simp only at hr
    rw [checkDtype_self] at hr
    obtain ⟨d, hd, hle, hstop⟩ := sliceAxis_ok hr
    rw [a.length_of_shape_zero hd]
    exact ⟨hle, hstop⟩
  getSlice_held := by
    intro b h d r start stop _ hr
    change getSlice b h d start stop = .ok r at hr
    unfold getSlice at hr
    cases ha : FMap.get b.arrays h with
    | none =>
      rw [ha] at hr
      cases hr
    | some a =>
      rw [ha] at hr
      obtain ⟨_, hd, hr⟩ := except_bind_eq_ok.mp hr
      exact ⟨a, ha, checkDtype_ok hd ▸ rfl, sliceAxis_zero hr⟩
  arrayShape_eq := by
    intro b h a _ ha
    show arrayShape b h = _
    unfold arrayShape
    rw [show FMap.get b.arrays h = some a from ha]
  arrayShape_held := by
    intro b h shape _ hr
    change arrayShape b h = .ok shape at hr
    unfold arrayShape at hr
    show (FMap.get b.arrays h).isSome
    cases ha : FMap.get b.arrays h with
    | none =>
      rw [ha] at hr
      cases hr
    | some a => rfl
  readWindowBlock_eq := by
    intro b h a axis start len d _ ha hd hle
    show readWindowBlock b h a.dtype axis start len = _
    unfold readWindowBlock getArray
    rw [show FMap.get b.arrays h = some a from ha]
    simp only
    rw [checkDtype_self]
    exact writeWindowBlock_eq hd hle
  readWindowBlock_ok := by
    intro b h a axis start len bytes _ ha hr
    change readWindowBlock b h a.dtype axis start len = .ok bytes at hr
    unfold readWindowBlock getArray at hr
    rw [show FMap.get b.arrays h = some a from ha] at hr
    simp only at hr
    rw [checkDtype_self] at hr
    exact writeWindowBlock_ok hr

end MemoryBackend

/-! ### The array store -/

namespace ArrayStore

variable {H B : Type} [DecidableEq H] [ToString H] [Sha256 H] [ArrayBackend H B]
  [LawfulArrayBackend H B] [LawfulReads H B]
variable {s : ArrayStore H B} {h : H} {a : TypedArray}

omit [ToString H] [LawfulReads H B] in
/-- Where a held array is: in the buffer, or in the backend alone. -/
theorem content_cases (ha : s.content h = some a) :
    s.buffer.get h = some a ∨
      (s.buffer.get h = none ∧ LawfulArrayBackend.array s.backend h = some a) := by
  unfold content at ha
  cases hb : s.buffer.get h with
  | some x =>
    rw [hb, Option.some_or] at ha
    exact .inl ha
  | none =>
    rw [hb, Option.none_or] at ha
    exact .inr ⟨rfl, ha⟩

theorem getArray_eq (hs : s.Valid) (ha : s.content h = some a) :
    s.getArray h a.dtype = .ok a := by
  unfold getArray
  rcases content_cases ha with hb | ⟨hb, hx⟩
  · rw [hb]
    simp only
    rw [checkDtype_self]
    rfl
  · rw [hb]
    exact LawfulReads.getArray_eq hs.backend hx

theorem getSlice_eq (hs : s.Valid) (ha : s.content h = some a) (hne : a.shape ≠ []) {start stop : ℕ}
    (hle : start ≤ stop) (hstop : stop ≤ a.length) :
    s.getSlice h a.dtype start stop = .ok (a.slice 0 start (stop - start)) := by
  unfold getSlice
  rcases content_cases ha with hb | ⟨hb, hx⟩
  · rw [hb]
    simp only
    rw [checkDtype_self]
    exact sliceAxis_eq (a.shape_zero hne) hle hstop
  · rw [hb]
    exact LawfulReads.getSlice_eq hs.backend hx hne hle hstop

/-- A slice is read of an array that is held, of elements as wide as it was asked for. -/
theorem getSlice_held (hs : s.Valid) {d : Dtype} {start stop : ℕ} {r : TypedArray}
    (hr : s.getSlice h d start stop = .ok r) :
    ∃ a, s.content h = some a ∧ a.dtype.size = d.size ∧ start ≤ stop ∧ stop ≤ a.length ∧
      r.bytes = (a.slice 0 start (stop - start)).bytes := by
  unfold getSlice at hr
  unfold content
  cases hb : s.buffer.get h with
  | none =>
    rw [hb] at hr
    rw [Option.none_or]
    exact LawfulReads.getSlice_held hs.backend hr
  | some a =>
    rw [hb] at hr
    obtain ⟨_, hd, hr⟩ := except_bind_eq_ok.mp hr
    exact ⟨a, rfl, checkDtype_ok hd ▸ rfl, sliceAxis_zero hr⟩

omit [ToString H] in
theorem arrayShape_held (hs : s.Valid) {shape : List ℕ} (hr : Store.arrayShape s h = .ok shape) :
    ∃ a, s.content h = some a ∧ a.shape = shape := by
  unfold Store.arrayShape at hr
  unfold content
  cases hb : s.buffer.get h with
  | some a =>
    rw [hb] at hr
    cases hr
    exact ⟨a, rfl, rfl⟩
  | none =>
    rw [hb] at hr
    obtain ⟨a, ha⟩ := Option.isSome_iff_exists.mp (LawfulReads.arrayShape_held hs.backend hr)
    rw [LawfulReads.arrayShape_eq hs.backend ha] at hr
    cases hr
    exact ⟨a, ha, rfl⟩

omit [ToString H] in
theorem arrayShape_eq (hs : s.Valid) (ha : s.content h = some a) :
    Store.arrayShape s h = .ok a.shape := by
  unfold Store.arrayShape
  rcases content_cases ha with hb | ⟨hb, hx⟩
  · rw [hb]
  · rw [hb]
    exact LawfulReads.arrayShape_eq hs.backend hx

theorem readWindowBlock_eq (hs : s.Valid) (ha : s.content h = some a) {axis start len d : ℕ}
    (hd : a.shape[axis]? = some d) (hle : start + len ≤ d) :
    s.readWindowBlock h a.dtype axis start len = .ok (a.slice axis start len).bytes := by
  unfold readWindowBlock
  rcases content_cases ha with hb | ⟨hb, hx⟩
  · rw [hb]
    simp only
    rw [checkDtype_self]
    exact writeWindowBlock_eq hd hle
  · rw [hb]
    exact LawfulReads.readWindowBlock_eq hs.backend hx hd hle

/-- **Window reads.**  The windows of a dense forecast are the slice of its array along the count
axis. -/
theorem readForecastWindows_eq (hs : s.Valid) (ha : s.content h = some a) (hc : a.Checked)
    {axis d w0 w1 : ℕ} (hd : a.shape[axis]? = some d) (h01 : w0 ≤ w1) (h1 : w1 ≤ d) :
    s.readForecastWindows h a.dtype a.shape axis w0 w1 = .ok (a.slice axis w0 (w1 - w0)) := by
  have hget : a.shape.getD axis 0 = d := by
    rw [List.getD_eq_getElem?_getD, hd, Option.getD_some]
  unfold readForecastWindows
  rw [hget]
  split
  · rename_i hall
    rw [hall.1, hall.2, Nat.sub_zero, TypedArray.slice_all hc.wellFormed hd]
    exact getArray_eq hs ha
  · rw [readWindowBlock_eq hs ha hd (by omega)]
    have hnew : (a.slice axis w0 (w1 - w0)).Checked := TypedArray.slice_checked hc hd (by omega)
    exact congrArg (mapErr TimeSeriesError.integrityError) (TypedArray.new_eq hnew)

end ArrayStore

end InfraStore
