import InfraStore.ArrayReads
import InfraStore.ForecastReader
import InfraStore.Hdf5
import InfraStore.Invariant

/-!
# Window blocks

The block of windows a forecast reader reads, over each of the layouts an array can have, and the
window gathered out of it.

* `Hdf5Backend.Holds`: the array a hash stands for in the file, packed or on its own;
* `ReadsBlocks`: a read answers with the slices of an array, and refuses what lies outside it;
* `TypedArray.fixAxis`: an array with one axis fixed at an index;
* `window_blocks_are_slices`: every path reads the slice, and a window gathered out of any block that
  holds it is the array fixed at it.
-/

namespace InfraStore

open Lib

/-! ### Arrays of the file -/

/-- A packed dataset is laid out as its index entry says, and its element blocks have elements. -/
structure DatasetState.Describes {H D : Type} [H5Dataset D] (st : DatasetState H) (d : D) : Prop where
  shape : H5Dataset.shape d = st.slabShape st.columns.length
  elementType : H5Dataset.elementType d = some st.dtype.written
  elements : st.elementShape.prod ≠ 0
  sized : ∃ n, expectedBytes st.dtype st.columnShape = .ok n

section

variable {H D : Type} [DecidableEq H] [ToString H] [H5Dataset D] [LawfulH5Dataset D]

/-- The array in a column of a packed dataset. -/
def DatasetState.column (st : DatasetState H) (d : D) (col : ℕ) : TypedArray :=
  { dtype := st.dtype
    shape := st.columnShape
    bytes := columnOf (LawfulH5Dataset.content d) st.length st.columns.length col
      (st.elementShape.prod * st.dtype.size) }

/-- The array a hash stands for: a column of a packed dataset, or a dataset of its own. -/
inductive Hdf5Backend.Holds (f : Hdf5Backend H D) (h : H) : TypedArray → Prop
  | packed {name : String} {col : ℕ} {st : DatasetState H} {d : D}
      (location : FMap.get f.byHash h = some (.packed name col))
      (state : FMap.get f.datasets name = some st) (dataset : FMap.get f.single name = some d)
      (described : st.Describes d) (column : col < st.columns.length) : Holds f h (st.column d col)
  | standalone {var : String} {d : D} {t : Dtype}
      (location : FMap.get f.byHash h = some (.standalone var))
      (dataset : FMap.get f.single var = some d)
      (elementType : H5Dataset.elementType d = some t.written) :
      Holds f h ⟨t, H5Dataset.shape d, LawfulH5Dataset.content d⟩

theorem Dtype.written_size (t : Dtype) : t.written.size = t.size := by
  cases t <;> rfl

namespace DatasetState.Describes

variable {st : DatasetState H} {d : D} (h : st.Describes d)
include h

omit [DecidableEq H] [ToString H] in
theorem content_length : (LawfulH5Dataset.content d).length =
    st.length * st.columns.length * (st.elementShape.prod * st.dtype.size) := by
  rw [LawfulH5Dataset.content_length h.elementType, h.shape, Dtype.written_size, slabShape]
  simp only [List.prod_cons]
  ring

omit [DecidableEq H] [ToString H] in
theorem column_wellFormed {col : ℕ} (hcol : col < st.columns.length) :
    (st.column d col).WellFormed := by
  show (columnOf _ _ _ _ _).length = (st.length :: st.elementShape).prod * st.dtype.size
  rw [columnOf_length h.content_length hcol, List.prod_cons]
  ring

end DatasetState.Describes

omit [DecidableEq H] [LawfulH5Dataset D] in
theorem checkStandaloneDtype_written {d : D} {t : Dtype}
    (h : H5Dataset.elementType d = some t.written) (hash : H) :
    Hdf5Backend.checkStandaloneDtype d hash t = .ok () := by
  unfold Hdf5Backend.checkStandaloneDtype
  rw [h]
  simp only
  by_cases hb : t = .bool
  · subst hb
    exact if_pos ⟨rfl, rfl⟩
  · have hw : t.written = t := by
      cases t <;> first | rfl | exact absurd rfl hb
    rw [if_neg fun hc => hb hc.1, hw]
    exact checkDtype_self hash t

/-! ### The box of a block -/

/-- A list mapped by its indices alike is mapped. -/
theorem mapIdx_eq_map_of {α β : Type} {l : List α} {g : ℕ → α → β} {k : α → β}
    (h : ∀ i < l.length, ∀ x, g i x = k x) : l.mapIdx g = l.map k := by
  rw [List.mapIdx_eq_iff]
  intro i
  rw [List.getElem?_map]
  cases hx : l[i]? with
  | none => rfl
  | some x => rw [Option.map_some, Option.map_some, h i (List.getElem?_eq_some_iff.mp hx).1]

omit [DecidableEq H] [ToString H] [H5Dataset D] [LawfulH5Dataset D] in
theorem axisRanges_split {dims : List ℕ} {axis d : ℕ} (hd : dims[axis]? = some d) (start len : ℕ) :
    Hdf5Backend.axisRanges dims axis start len =
      wholeRanges (dims.take axis) ++ (start, start + len) :: wholeRanges (dims.drop (axis + 1)) := by
  obtain ⟨hlt, -⟩ := List.getElem?_eq_some_iff.mp hd
  have hlen : (dims.take axis).length = axis := by
    rw [List.length_take]
    omega
  have houter : (dims.take axis).mapIdx (fun i n => if i = axis then (start, start + len) else (0, n)) =
      wholeRanges (dims.take axis) :=
    mapIdx_eq_map_of fun i hi n => if_neg (by omega)
  have hinner : (dims.drop (axis + 1)).mapIdx
      (fun i n => if i + 1 + axis = axis then (start, start + len) else (0, n)) =
      wholeRanges (dims.drop (axis + 1)) :=
    mapIdx_eq_map_of fun i _ n => if_neg (by omega)
  unfold Hdf5Backend.axisRanges
  conv_lhs => rw [shape_split hd]
  rw [List.mapIdx_append, List.mapIdx_cons, hlen, Nat.zero_add, if_pos rfl, houter, hinner]

omit [DecidableEq H] [ToString H] [H5Dataset D] [LawfulH5Dataset D] in
theorem inBounds_axisRanges {dims : List ℕ} {axis d start len : ℕ} (hd : dims[axis]? = some d)
    (hle : start + len ≤ d) : InBounds (Hdf5Backend.axisRanges dims axis start len) dims := by
  rw [axisRanges_split hd]
  conv_rhs => rw [shape_split hd]
  exact List.rel_append (inBounds_whole _) (.cons ⟨Nat.le_add_right _ _, hle⟩ (inBounds_whole _))

omit [DecidableEq H] [ToString H] [H5Dataset D] [LawfulH5Dataset D] in
/-- The box of a block is the slice. -/
theorem hyperslab_slice {a : TypedArray} {axis d : ℕ} (hd : a.shape[axis]? = some d) (start len : ℕ) :
    hyperslab a.dtype.size a.shape (Hdf5Backend.axisRanges a.shape axis start len) a.bytes =
      (a.slice axis start len).bytes := by
  rw [axisRanges_split hd, TypedArray.slice_bytes hd]
  conv_lhs =>
    arg 2
    rw [shape_split hd]
  rw [hyperslab_axis, Nat.add_sub_cancel_left]

/-- A read of window blocks answers with the slices of an array, and refuses what lies outside it. -/
def ReadsBlocks (read : ℕ → ℕ → ℕ → Result (List UInt8)) (a : TypedArray) : Prop :=
  ∀ axis start len,
    (∀ d, a.shape[axis]? = some d → start + len ≤ d →
      read axis start len = .ok (a.slice axis start len).bytes) ∧
    ∀ bytes, read axis start len = .ok bytes → ∃ d, a.shape[axis]? = some d ∧ start + len ≤ d

omit [DecidableEq H] [ToString H] [H5Dataset D] [LawfulH5Dataset D] in
theorem checkBounds_ok {dims : List ℕ} {axis start len : ℕ} :
    Hdf5Backend.checkBounds dims axis start len = .ok () ↔
      ∃ d, dims[axis]? = some d ∧ start + len ≤ d := by
  unfold Hdf5Backend.checkBounds
  cases hd : dims[axis]? with
  | none => exact ⟨fun h => (by cases h), fun ⟨d, h, _⟩ => (by cases h)⟩
  | some d =>
    simp only
    split
    · rename_i hlt
      refine ⟨fun h => (by cases h), ?_⟩
      rintro ⟨_, h, hle⟩
      cases h
      omega
    · rename_i hle
      exact ⟨fun _ => ⟨d, rfl, by omega⟩, fun _ => rfl⟩

/-- **Blocks of the file.**  Whichever layout an array has, its window blocks are its slices. -/
theorem Hdf5Backend.Holds.readsBlocks {f : Hdf5Backend H D} {h : H} {a : TypedArray}
    (ha : f.Holds h a) : ReadsBlocks (f.readWindowBlockLocked h a.dtype) a := by
  intro axis start len
  cases ha with
  | @standalone var d t hloc hds htype =>
    have hread : f.readWindowBlockLocked h t axis start len = (do
        checkBounds (H5Dataset.shape d) axis start len
        H5Dataset.readSlice d t (axisRanges (H5Dataset.shape d) axis start len)) := by
      unfold readWindowBlockLocked location dataset
      rw [hloc]
      simp only [bind, Except.bind]
      rw [hds]
      simp only
      rw [checkStandaloneDtype_written htype]
    constructor
    · intro n hn hle
      rw [hread, checkBounds_ok.mpr ⟨n, hn, hle⟩]
      show H5Dataset.readSlice d t _ = _
      rw [LawfulH5Dataset.readSlice_eq htype (inBounds_axisRanges hn hle)]
      exact congrArg Except.ok (hyperslab_slice
        (a := ⟨t, H5Dataset.shape d, LawfulH5Dataset.content d⟩) hn start len)
    · intro bytes hb
      rw [hread] at hb
      obtain ⟨_, hc, -⟩ := except_bind_eq_ok.mp hb
      exact checkBounds_ok.mp hc
  | @packed name col st d hloc hst hds hdesc hcol =>
    have hread : f.readWindowBlockLocked h st.dtype axis start len = (do
        checkBounds st.columnShape axis start len
        H5Dataset.readSlice d st.dtype ((axisRanges st.columnShape axis start len).take 1 ++
          (col, col + 1) :: (axisRanges st.columnShape axis start len).drop 1)) := by
      unfold readWindowBlockLocked location datasetState dataset
      rw [hloc]
      simp only [bind, Except.bind]
      rw [hst]
      simp only
      rw [checkDtype_self, hds]
    constructor
    · intro n hn hle
      have hin : InBounds (axisRanges st.columnShape axis start len) st.columnShape :=
        inBounds_axisRanges hn hle
      have hc : checkBounds st.columnShape axis start len = .ok () := checkBounds_ok.mpr ⟨n, hn, hle⟩
      rw [show (st.column d col).dtype = st.dtype from rfl, hread, hc]
      show H5Dataset.readSlice d st.dtype _ = _
      rw [← hyperslab_slice hn start len]
      show _ = Except.ok (hyperslab st.dtype.size st.columnShape
        (axisRanges st.columnShape axis start len) _)
      generalize axisRanges st.columnShape axis start len = ranges at hin
      cases hin with
      | @cons r _ ranges _ hr hrest =>
        show H5Dataset.readSlice d st.dtype (r :: (col, col + 1) :: ranges) = _
        rw [LawfulH5Dataset.readSlice_eq hdesc.elementType (by
          rw [hdesc.shape]
          exact .cons hr (.cons ⟨Nat.le_succ col, hcol⟩ hrest)), hdesc.shape]
        exact congrArg Except.ok
          (hyperslab_column hr.2 hrest hdesc.content_length hcol)
    · intro bytes hb
      rw [show (st.column d col).dtype = st.dtype from rfl, hread] at hb
      obtain ⟨_, hc, -⟩ := except_bind_eq_ok.mp hb
      exact checkBounds_ok.mp hc

omit [DecidableEq H] [ToString H] in
theorem DatasetState.Describes.checked {st : DatasetState H} {d : D} (h : st.Describes d) {col : ℕ}
    (hcol : col < st.columns.length) : (st.column d col).Checked :=
  TypedArray.checked_iff.mpr ⟨h.sized, h.column_wellFormed hcol⟩

omit [DecidableEq H] [ToString H] in
/-- The rows of a column, read out of its dataset. -/
theorem DatasetState.Describes.readSlice_eq {st : DatasetState H} {d : D} (h : st.Describes d)
    {col a b : ℕ} (hcol : col < st.columns.length) (hab : a ≤ b) (hb : b ≤ st.length) :
    H5Dataset.readSlice d st.dtype (packedRanges (a, b) col st.elementShape) =
      .ok ((st.column d col).slice 0 a (b - a)).bytes := by
  have hrest := inBounds_whole st.elementShape
  have hbox := @hyperslab_slice (st.column d col) 0 st.length rfl a (b - a)
  have hranges : Hdf5Backend.axisRanges (st.column d col).shape 0 a (b - a) =
      (a, b) :: wholeRanges st.elementShape := by
    rw [axisRanges_split (show (st.column d col).shape[0]? = some st.length from rfl),
      Nat.add_sub_of_le hab]
    rfl
  rw [hranges] at hbox
  rw [LawfulH5Dataset.readSlice_eq h.elementType (by
    rw [h.shape]
    exact .cons ⟨hab, hb⟩ (.cons ⟨Nat.le_succ col, hcol⟩ hrest)), h.shape, ← hbox]
  exact congrArg Except.ok (hyperslab_column hb hrest h.content_length hcol)

omit [DecidableEq H] [ToString H] [H5Dataset D] [LawfulH5Dataset D] in
theorem checkSlice_ok {a b n : ℕ} {u : Unit} : checkSlice a b n = .ok u ↔ a ≤ b ∧ b ≤ n := by
  unfold checkSlice
  split
  · exact ⟨fun h => (by cases h), fun h => by omega⟩
  · exact ⟨fun _ => by omega, fun _ => rfl⟩

/-- A range of a packed array. -/
theorem Hdf5Backend.readLocked_packed {f : Hdf5Backend H D} {h : H} {name : String} {col : ℕ}
    {st : DatasetState H} {d : D} (hloc : FMap.get f.byHash h = some (.packed name col))
    (hst : FMap.get f.datasets name = some st) (hds : FMap.get f.single name = some d)
    (hdesc : st.Describes d) (hcol : col < st.columns.length) (range : Option (ℕ × ℕ)) :
    f.readLocked h st.dtype range = (do
      checkSlice (range.getD (0, st.length)).1 (range.getD (0, st.length)).2 st.length
      pure ((st.column d col).slice 0 (range.getD (0, st.length)).1
        ((range.getD (0, st.length)).2 - (range.getD (0, st.length)).1))) := by
  unfold readLocked location datasetState dataset
  rw [hloc]
  simp only [bind, Except.bind]
  rw [hst, hds]
  simp only
  rw [checkDtype_self]
  obtain ⟨a, b⟩ := range.getD (0, st.length)
  simp only
  cases hc : checkSlice a b st.length with
  | error e => rfl
  | ok u =>
    obtain ⟨hab, hb⟩ := checkSlice_ok.mp hc
    have hslice : ((st.column d col).slice 0 a (b - a)).Checked :=
      TypedArray.slice_checked (hdesc.checked hcol) rfl (show a + (b - a) ≤ st.length by omega)
    simp only
    rw [hdesc.readSlice_eq hcol hab hb]
    exact congrArg (mapErr TimeSeriesError.integrityError) (TypedArray.new_eq hslice)

/-- A held array is what a whole read of it returns. -/
theorem Hdf5Backend.Holds.getArray_eq {f : Hdf5Backend H D} {h : H} {a : TypedArray}
    (ha : f.Holds h a) (hc : a.Checked) : f.getArray h a.dtype = .ok a := by
  unfold getArray
  cases ha with
  | @standalone var d t hloc hds htype =>
    unfold readLocked location dataset
    rw [hloc]
    simp only [bind, Except.bind]
    rw [hds]
    simp only
    rw [checkStandaloneDtype_written htype, LawfulH5Dataset.readRaw_eq htype]
    exact congrArg (mapErr TimeSeriesError.integrityError) (TypedArray.new_eq hc)
  | @packed name col st d hloc hst hds hdesc hcol =>
    have hcheck : checkSlice 0 st.length st.length = .ok () := if_neg (by omega)
    rw [show (st.column d col).dtype = st.dtype from rfl,
      readLocked_packed hloc hst hds hdesc hcol, Option.getD_none, hcheck]
    exact congrArg Except.ok (TypedArray.slice_all (hdesc.column_wellFormed hcol) rfl)

end

/-! ### Windows out of blocks -/

namespace TypedArray

/-- An array with one axis fixed at an index, in row-major order. -/
def fixAxis (a : TypedArray) (axis k : ℕ) : TypedArray :=
  { dtype := a.dtype, shape := a.shape.eraseIdx axis, bytes := (a.slice axis k 1).bytes }

variable {a : TypedArray} {axis start len d k : ℕ}

theorem take_eraseIdx_shape {shape : List ℕ} (hd : shape[axis]? = some d) :
    (shape.eraseIdx axis).take axis = shape.take axis ∧
      (shape.eraseIdx axis).drop axis = shape.drop (axis + 1) := by
  obtain ⟨hlt, -⟩ := List.getElem?_eq_some_iff.mp hd
  have hlen : (shape.take axis).length = axis := by
    rw [List.length_take]
    omega
  rw [List.eraseIdx_eq_take_drop_succ]
  exact ⟨List.take_left' hlen, List.drop_left' hlen⟩

/-- The elements of an array with an axis fixed. -/
theorem fixAxis_element (hw : a.WellFormed) (hd : a.shape[axis]? = some d) (hk : k < d)
    {pre post : List ℕ} (hpre : List.Forall₂ (· < ·) pre (a.shape.take axis))
    (hpost : List.Forall₂ (· < ·) post (a.shape.drop (axis + 1))) :
    (a.fixAxis axis k).element (pre ++ post) = a.element (pre ++ k :: post) := by
  have hset : (a.slice axis k 1).shape = a.shape.take axis ++ 1 :: a.shape.drop (axis + 1) := by
    rw [slice_shape, set_split hd]
  have hindex : List.Forall₂ (· < ·) (pre ++ 0 :: post) (a.slice axis k 1).shape := by
    rw [hset]
    exact List.rel_append hpre (.cons Nat.one_pos hpost)
  have hslice := slice_element hw hd hk hindex
  obtain ⟨hlt, -⟩ := List.getElem?_eq_some_iff.mp hd
  have hplen : pre.length = axis := by
    rw [hpre.length_eq, List.length_take]
    omega
  have hmod : (pre ++ 0 :: post).modify axis (k + ·) = pre ++ k :: post := by
    rw [← hplen]
    exact modify_length_append pre post 0 _
  rw [hmod] at hslice
  rw [← hslice]
  unfold element
  rw [hset, offset_axis hpre.length_eq]
  show List.take _ (List.drop (offset (a.shape.eraseIdx axis) _ * _) _) = _
  rw [List.eraseIdx_eq_take_drop_succ, offset_append hpre.length_eq]
  simp only [Nat.mul_one, Nat.add_zero, slice_dtype]
  rfl

/-- **Gathering.**  A window gathered out of a block that holds it is the array with the axis of the
windows fixed at it. -/
theorem gatherWindow_slice (hw : a.WellFormed) (hd : a.shape[axis]? = some d) (hle : start + len ≤ d)
    (h1 : start ≤ k) (h2 : k < start + len) :
    gatherWindow (a.slice axis start len).bytes (a.shape.eraseIdx axis) axis len (k - start)
      a.dtype.size = (a.fixAxis axis k).bytes := by
  obtain ⟨htake, hdrop⟩ := take_eraseIdx_shape hd
  obtain ⟨j, rfl⟩ := Nat.exists_eq_add_of_le h1
  obtain ⟨p, hp⟩ : ∃ p, (a.shape.drop (axis + 1)).prod * a.dtype.size = p := ⟨_, rfl⟩
  have hj : j + 1 ≤ len := by omega
  have hchunk := slice_chunk hw hd hle
  have hfit : j * p + p ≤ len * p := by
    rw [← Nat.succ_mul]
    exact Nat.mul_le_mul_right p hj
  unfold gatherWindow fixAxis
  rw [htake, hdrop, slice_bytes hd, slice_bytes hd, Nat.add_sub_cancel_left, hp]
  rw [hp] at hchunk
  simp only
  refine List.flatMap_congr fun o ho => ?_
  have hplace : (o * len + j) * p = o * (len * p) + j * p := by ring
  rw [hplace, take_drop_flatMap_range hchunk (List.mem_range.mp ho) hfit, List.drop_take,
    List.take_take, List.drop_drop, List.drop_drop, List.drop_drop, Nat.one_mul,
    Nat.min_eq_left (by omega)]
  congr 2
  ring

end TypedArray

/-! ### Every path -/

section

variable {H B D : Type} [DecidableEq H] [Sha256 H] [ToString H] [ArrayBackend H B] [H5Dataset D]

omit [DecidableEq H] [ToString H] [H5Dataset D] [Sha256 H] [ArrayBackend H B] in
theorem writeWindowBlock_readsBlocks (a : TypedArray) : ReadsBlocks (writeWindowBlock a) a :=
  fun _ _ _ => ⟨fun _ hd hle => writeWindowBlock_eq hd hle, fun _ h => writeWindowBlock_ok h⟩

omit [H5Dataset D] [Sha256 H] in
/-- A buffered array is sliced in memory. -/
theorem ArrayStore.readsBlocks_of_buffered {s : ArrayStore H B} {h : H} {a : TypedArray}
    (ha : s.buffer.get h = some a) : ReadsBlocks (s.readWindowBlock h a.dtype) a := by
  have hread : s.readWindowBlock h a.dtype = writeWindowBlock a := by
    funext axis start len
    unfold readWindowBlock
    rw [ha]
    simp only
    rw [checkDtype_self]
    rfl
  rw [hread]
  exact writeWindowBlock_readsBlocks a

variable [LawfulArrayBackend H B] [LawfulReads H B] [LawfulH5Dataset D]

omit [H5Dataset D] [LawfulH5Dataset D] in
theorem ArrayStore.readsBlocks {s : ArrayStore H B} {h : H} {a : TypedArray} (hs : s.Valid)
    (ha : s.content h = some a) : ReadsBlocks (s.readWindowBlock h a.dtype) a := by
  rcases ArrayStore.content_cases ha with hb | ⟨hb, hx⟩
  · exact readsBlocks_of_buffered hb
  · have hread : s.readWindowBlock h a.dtype =
        ArrayBackend.readWindowBlock s.backend h a.dtype := by
      funext axis start len
      unfold readWindowBlock
      rw [hb]
    rw [hread]
    exact fun _ _ _ => ⟨fun _ hd hle => LawfulReads.readWindowBlock_eq hs.backend hx hd hle,
      fun _ h => LawfulReads.readWindowBlock_ok hs.backend hx h⟩

/-- **Window blocks are slices.**  The block read of an array, buffered, held by a store over a lawful
backend, in memory, or in a file packed or on its own, is its slice along the axis asked for, and
what lies outside the axis is refused; a slice keeps the other dimensions and the elements; and a
window gathered out of any block that holds it is the array with the axis fixed at it. -/
theorem window_blocks_are_slices :
    (∀ (s : ArrayStore H B) h a, s.buffer.get h = some a →
      ReadsBlocks (s.readWindowBlock h a.dtype) a) ∧
    (∀ (s : ArrayStore H B) h a, s.Valid → s.content h = some a →
      ReadsBlocks (s.readWindowBlock h a.dtype) a) ∧
    (∀ (b : MemoryBackend H) h a, FMap.get b.arrays h = some a →
      ReadsBlocks (b.readWindowBlock h a.dtype) a) ∧
    (∀ (f : Hdf5Backend H D) h a, f.Holds h a →
      ReadsBlocks (f.readWindowBlockLocked h a.dtype) a ∧ (a.Checked → f.getArray h a.dtype = .ok a)) ∧
    (∀ (a : TypedArray) axis start stop,
      (∀ d, a.shape[axis]? = some d → start ≤ stop → stop ≤ d →
        sliceAxis a axis start stop = .ok (a.slice axis start (stop - start))) ∧
      ∀ b, sliceAxis a axis start stop = .ok b →
        ∃ d, a.shape[axis]? = some d ∧ start ≤ stop ∧ stop ≤ d) ∧
    ∀ a : TypedArray, a.WellFormed → ∀ axis d, a.shape[axis]? = some d →
      (∀ start len, start + len ≤ d →
        (a.slice axis start len).shape = a.shape.set axis len ∧ (a.slice axis start len).WellFormed ∧
        (∀ index, List.Forall₂ (· < ·) index (a.shape.set axis len) →
          (a.slice axis start len).element index = a.element (index.modify axis (start + ·))) ∧
        ∀ k, start ≤ k → k < start + len →
          gatherWindow (a.slice axis start len).bytes (a.shape.eraseIdx axis) axis len (k - start)
            a.dtype.size = (a.fixAxis axis k).bytes) ∧
      ∀ k < d, ∀ pre post, List.Forall₂ (· < ·) pre (a.shape.take axis) →
        List.Forall₂ (· < ·) post (a.shape.drop (axis + 1)) →
        (a.fixAxis axis k).element (pre ++ post) = a.element (pre ++ k :: post) := by
  refine ⟨fun s h a ha => ArrayStore.readsBlocks_of_buffered ha,
    fun s h a hs ha => ArrayStore.readsBlocks hs ha, fun b h a ha => ?_,
    fun f h a ha => ⟨ha.readsBlocks, ha.getArray_eq⟩,
    fun a axis start stop => ⟨fun d hd h1 h2 => sliceAxis_eq hd h1 h2, fun b hb => sliceAxis_ok hb⟩,
    fun a hw axis d hd => ⟨fun start len hle => ⟨rfl, TypedArray.slice_wellFormed hw hd hle,
      fun index hi => TypedArray.slice_element hw hd hle hi,
      fun k h1 h2 => TypedArray.gatherWindow_slice hw hd hle h1 h2⟩,
      fun k hk pre post hpre hpost => TypedArray.fixAxis_element hw hd hk hpre hpost⟩⟩
  have hread : b.readWindowBlock h a.dtype = writeWindowBlock a := by
    funext axis start len
    unfold MemoryBackend.readWindowBlock MemoryBackend.getArray
    rw [ha]
    simp only
    rw [checkDtype_self]
    rfl
  rw [hread]
  exact writeWindowBlock_readsBlocks a

end

/-! ### A file in memory -/

namespace Hdf5Backend.Sample

open Store.Sample

/-- A dataset whose elements are at hand. -/
structure Plain where
  type : Dtype
  shape : List ℕ
  bytes : List UInt8
  sized : bytes.length = shape.prod * type.size

instance : H5Dataset Plain where
  shape d := d.shape
  elementType d := some d.type
  chunk _ := none
  readSlice d t ranges :=
    if List.Forall₂ (fun r n => r.1 ≤ r.2 ∧ r.2 ≤ n) ranges d.shape then
      .ok (hyperslab t.size d.shape ranges d.bytes)
    else .error (.integrityError "hdf5: the selection is out of bounds")
  readRaw d _ := .ok d.bytes

instance : LawfulH5Dataset Plain where
  content d := d.bytes
  content_length {d t} h := by
    cases h
    exact d.sized
  readSlice_eq _ h := if_pos h
  readRaw_eq _ := rfl

/-- Three columns of two steps of two elements, the second of them the array `[[2, 3], [8, 9]]`. -/
def pool : Plain := ⟨.u8, [2, 3, 2], [0, 1, 2, 3, 4, 5, 6, 7, 8, 9, 10, 11], rfl⟩

def poolState : DatasetState Digest := ⟨"pool_hashes", .u8, [2], 2, [none, some [1], none]⟩

def file : Hdf5Backend Digest Plain where
  single := AList.insert "pool" pool ∅
  datasets := AList.insert "pool" poolState ∅
  byHash := AList.insert [1] (.packed "pool" 1) ∅

theorem pool_described : poolState.Describes pool := ⟨rfl, rfl, by decide, ⟨4, by decide⟩⟩

theorem file_holds : file.Holds [1] (poolState.column pool 1) :=
  .packed rfl rfl rfl pool_described (by decide)

/-- The second element of each step of the packed column, read as a block along its last axis. -/
theorem window_blocks_are_slices_pool :
    file.readWindowBlockLocked [1] .u8 1 1 1 = .ok [3, 9] ∧
      gatherWindow [3, 9] [2] 1 1 0 1 = ((poolState.column pool 1).fixAxis 1 1).bytes := by
  have h := window_blocks_are_slices (H := Digest) (B := MemoryBackend Digest) (D := Plain)
  have hblock := ((h.2.2.2.1 file [1] _ file_holds).1 1 1 1).1 2 rfl (by decide)
  have hwindow := ((h.2.2.2.2.2 (poolState.column pool 1)
    (pool_described.column_wellFormed (by decide)) 1 2 rfl).1 1 1 (by decide)).2.2.2 1 le_rfl (by decide)
  exact ⟨hblock, hwindow⟩

end Hdf5Backend.Sample

end InfraStore
