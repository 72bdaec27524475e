import InfraStore.Lib.RowMajor
import InfraStore.Storage

/-!
# Slices of an array

What the reads of part of an array are, in terms of the elements at row-major indices.

* `TypedArray.element`: the bytes of the element at an index;
* `TypedArray.slice`: the part of an array between two places of one axis, and `slice_element`: its
  elements are the array's, with that axis of the index moved;
* `writeWindowBlock_eq`, `sliceAxis_eq`: the code's block copy and slice are that part.
-/

namespace InfraStore

open Lib

/-! ### Sizes -/

/-- Smaller dimensions have their element count wherever larger ones have. -/
theorem foldlM_checkedMul_of_le {shape shape' : List ℕ} (h : List.Forall₂ (· ≤ ·) shape' shape) :
    ∀ {acc acc' n : ℕ}, acc' ≤ acc → shape.foldlM checkedMul acc = some n →
      ∃ n', shape'.foldlM checkedMul acc' = some n' ∧ n' ≤ n := by
  induction h with
  | nil =>
    intro acc acc' n hle hn
    cases hn
    exact ⟨acc', rfl, hle⟩
  | @cons d' d shape' shape hd _ ih =>
    intro acc acc' n hle hn
    rw [List.foldlM_cons] at hn ⊢
    cases hm : checkedMul acc d with
    | none =>
      rw [hm] at hn
      cases hn
    | some m =>
      rw [hm] at hn
      have hmul : acc' * d' ≤ acc * d := Nat.mul_le_mul hle hd
      have hm' : checkedMul acc' d' = some (acc' * d') := by
        unfold checkedMul at hm ⊢
        split at hm
        · rw [if_pos (by omega)]
        · cases hm
      rw [hm']
      rw [checkedMul_eq_some hm] at hn
      exact ih hmul hn

theorem expectedBytes_of_le {d : Dtype} {shape shape' : List ℕ} {n : ℕ}
    (h : List.Forall₂ (· ≤ ·) shape' shape) (hn : expectedBytes d shape = .ok n) :
    expectedBytes d shape' = .ok (shape'.prod * d.size) := by
  unfold expectedBytes elementCount at hn
  cases hf : shape.foldlM checkedMul 1 with
  | none =>
    rw [hf] at hn
    cases hn
  | some m =>
    rw [hf] at hn
    obtain ⟨_, hcount, hn⟩ := except_bind_eq_ok.mp hn
    cases hcount
    obtain ⟨m', hf', hle⟩ := foldlM_checkedMul_of_le h le_rfl hf
    have hprod : m' = shape'.prod := by rw [foldlM_checkedMul hf', Nat.one_mul]
    have hmul : checkedMul m' d.size = some (m' * d.size) := by
      have hsz : m' * d.size ≤ m * d.size := Nat.mul_le_mul_right _ hle
      cases hm : checkedMul m d.size with
      | none =>
        rw [hm] at hn
        cases hn
      | some b =>
        unfold checkedMul at hm ⊢
        split at hm
        · rw [if_pos (by omega)]
        · cases hm
    unfold expectedBytes elementCount
    rw [hf']
    apply except_bind_eq_ok.mpr
    refine ⟨m', rfl, ?_⟩
    rw [hmul, hprod]

namespace TypedArray

/-- An array that passed the check every write makes. -/
def Checked (a : TypedArray) : Prop := a.checkBytes = .ok ()

instance (a : TypedArray) : Decidable a.Checked :=
  match h : a.checkBytes with
  | .ok () => .isTrue h
  | .error _ => .isFalse fun h' => by rw [TypedArray.Checked, h] at h'; cases h'

theorem Checked.wellFormed {a : TypedArray} (h : a.Checked) : a.WellFormed :=
  wellFormed_of_checkBytes h

theorem checked_iff {a : TypedArray} :
    a.Checked ↔ (∃ n, expectedBytes a.dtype a.shape = .ok n) ∧ a.WellFormed := by
  constructor
  · intro h
    refine ⟨?_, h.wellFormed⟩
    unfold Checked checkBytes at h
    obtain ⟨n, hn, -⟩ := except_bind_eq_ok.mp h
    exact ⟨n, hn⟩
  · rintro ⟨⟨n, hn⟩, hw⟩
    have hlen : a.bytes.length = n := by
      rw [expectedBytes_eq hn]
      exact hw
    unfold Checked checkBytes
    rw [hn]
    change (if a.bytes.length ≠ n then Except.error _ else Except.ok ()) = _
    rw [if_neg (not_not.mpr hlen)]

/-- A checked array is what its constructor makes of its parts. -/
theorem new_eq {d : Dtype} {shape : List ℕ} {bytes : List UInt8}
    (h : (⟨d, shape, bytes⟩ : TypedArray).Checked) : new d shape bytes = .ok ⟨d, shape, bytes⟩ := by
  unfold new
  simp only
  rw [h]
  rfl

/-! ### Elements -/

/-- The bytes of the element at an index. -/
def element (a : TypedArray) (index : List ℕ) : List UInt8 :=
  (a.bytes.drop (offset a.shape index * a.dtype.size)).take a.dtype.size

/-- The part of an array from `start` on along an axis, `len` places of it. -/
def slice (a : TypedArray) (axis start len : ℕ) : TypedArray :=
  let inner := (a.shape.drop (axis + 1)).prod * a.dtype.size
  { dtype := a.dtype
    shape := a.shape.set axis len
    bytes := strided (len * inner) (a.shape.getD axis 0 * inner) (a.shape.take axis).prod
      (a.bytes.drop (start * inner)) }

@[simp] theorem slice_dtype (a : TypedArray) (axis start len : ℕ) :
    (a.slice axis start len).dtype = a.dtype := rfl

@[simp] theorem slice_shape (a : TypedArray) (axis start len : ℕ) :
    (a.slice axis start len).shape = a.shape.set axis len := rfl

end TypedArray

/-! ### Blocks that start a stride apart -/

theorem strided_eq (run stride n : ℕ) (bytes : List UInt8) :
    strided run stride n bytes =
      (List.range n).flatMap fun i => (bytes.drop (i * stride)).take run := by
  induction n generalizing bytes with
  | zero => rfl
  | succ n ih =>
    rw [strided, ih, List.range_succ_eq_map, List.flatMap_cons, Nat.zero_mul, List.drop_zero,
      List.flatMap_map]
    congr 1
    apply List.flatMap_congr
    intro i _
    rw [List.drop_drop, Nat.succ_mul, Nat.add_comm]

theorem strided_run (run n : ℕ) (bytes : List UInt8) :
    strided run run n bytes = bytes.take (n * run) := by
  induction n generalizing bytes with
  | zero => simp [strided]
  | succ n ih =>
    rw [strided, ih, Nat.succ_mul, Nat.add_comm, List.take_add]

theorem modify_length_append {α : Type} (pre post : List α) (j : α) (f : α → α) :
    (pre ++ j :: post).modify pre.length f = pre ++ f j :: post := by
  induction pre with
  | nil => rfl
  | cons i pre ih =>
    rw [List.cons_append, List.length_cons, List.modify_succ_cons, ih]
    rfl

/-- Reading one block out of a run of rows reads it out of all the rows. -/
theorem take_drop_run {α : Type} {l : List α} {w lo n x : ℕ} (h1 : lo ≤ x) (h2 : x < lo + n) :
    ((((l.drop (lo * w)).take (n * w)).drop ((x - lo) * w)).take w) = (l.drop (x * w)).take w := by
  obtain ⟨y, rfl⟩ := Nat.exists_eq_add_of_le h1
  have hfit : y * w + w ≤ n * w := by
    rw [← Nat.succ_mul]
    exact Nat.mul_le_mul_right w (by omega)
  rw [Nat.add_sub_cancel_left, List.drop_take, List.drop_drop, ← Nat.add_mul, List.take_take,
    Nat.min_eq_left (by omega)]

/-- A shape, split at an axis. -/
theorem shape_split {shape : List ℕ} {axis d : ℕ} (h : shape[axis]? = some d) :
    shape = shape.take axis ++ d :: shape.drop (axis + 1) := by
  obtain ⟨hlt, hd⟩ := List.getElem?_eq_some_iff.mp h
  rw [← hd, List.getElem_cons_drop, List.take_append_drop]

theorem shape_prod {shape : List ℕ} {axis d : ℕ} (h : shape[axis]? = some d) :
    shape.prod = (shape.take axis).prod * (d * (shape.drop (axis + 1)).prod) := by
  conv_lhs => rw [shape_split h]
  rw [List.prod_append, List.prod_cons]

theorem set_split {shape : List ℕ} {axis d len : ℕ} (h : shape[axis]? = some d) :
    shape.set axis len = shape.take axis ++ len :: shape.drop (axis + 1) := by
  obtain ⟨hlt, -⟩ := List.getElem?_eq_some_iff.mp h
  rw [List.set_eq_take_append_cons_drop, if_pos hlt]

namespace TypedArray

variable {a : TypedArray} {axis start len d : ℕ}

/-- The chunks a slice is put together from. -/
theorem slice_chunk (hw : a.WellFormed) (hd : a.shape[axis]? = some d) (hle : start + len ≤ d) :
    ∀ i < (a.shape.take axis).prod,
      (((a.bytes.drop (start * ((a.shape.drop (axis + 1)).prod * a.dtype.size))).drop
        (i * (d * ((a.shape.drop (axis + 1)).prod * a.dtype.size)))).take
          (len * ((a.shape.drop (axis + 1)).prod * a.dtype.size))).length =
        len * ((a.shape.drop (axis + 1)).prod * a.dtype.size) := by
  intro i hi
  obtain ⟨inner, hinner⟩ : ∃ v, (a.shape.drop (axis + 1)).prod * a.dtype.size = v := ⟨_, rfl⟩
  have hbytes : a.bytes.length = (a.shape.take axis).prod * (d * inner) := by
    rw [hw, shape_prod hd, ← hinner]
    ring
  have h1 : (i + 1) * (d * inner) ≤ (a.shape.take axis).prod * (d * inner) :=
    Nat.mul_le_mul_right _ hi
  have h2 : (start + len) * inner ≤ d * inner := Nat.mul_le_mul_right _ hle
  rw [hinner, List.length_take, List.length_drop, List.length_drop, hbytes]
  rw [Nat.succ_mul] at h1
  rw [Nat.add_mul] at h2
  omega

theorem slice_bytes (hd : a.shape[axis]? = some d) :
    (a.slice axis start len).bytes =
      (List.range (a.shape.take axis).prod).flatMap fun i =>
        (((a.bytes.drop (start * ((a.shape.drop (axis + 1)).prod * a.dtype.size))).drop
          (i * (d * ((a.shape.drop (axis + 1)).prod * a.dtype.size)))).take
            (len * ((a.shape.drop (axis + 1)).prod * a.dtype.size))) := by
  unfold slice
  simp only
  rw [List.getD_eq_getElem?_getD, hd, Option.getD_some, strided_eq]

/-- A slice within an array is an array. -/
theorem slice_wellFormed (hw : a.WellFormed) (hd : a.shape[axis]? = some d) (hle : start + len ≤ d) :
    (a.slice axis start len).WellFormed := by
  unfold WellFormed
  rw [slice_bytes hd, length_flatMap_range (slice_chunk hw hd hle), slice_shape, slice_dtype,
    set_split hd, List.prod_append, List.prod_cons]
  ring

theorem slice_checked (hc : a.Checked) (hd : a.shape[axis]? = some d) (hle : start + len ≤ d) :
    (a.slice axis start len).Checked := by
  obtain ⟨⟨n, hn⟩, hw⟩ := checked_iff.mp hc
  have hrefl : ∀ l : List ℕ, List.Forall₂ (· ≤ ·) l l := fun l => List.forall₂_refl l
  have hshape : List.Forall₂ (· ≤ ·) (a.slice axis start len).shape a.shape := by
    rw [slice_shape, set_split hd]
    nth_rewrite 3 [shape_split hd]
    exact List.rel_append (hrefl _) (List.Forall₂.cons (by omega) (hrefl _))
  exact checked_iff.mpr ⟨⟨_, expectedBytes_of_le hshape hn⟩, slice_wellFormed hw hd hle⟩

/-- **Slices.**  The elements of a slice are those of the array, the sliced axis of their index moved
to where the slice starts. -/
theorem slice_element (hw : a.WellFormed) (hd : a.shape[axis]? = some d) (hle : start + len ≤ d)
    {index : List ℕ} (hi : List.Forall₂ (· < ·) index (a.slice axis start len).shape) :
    (a.slice axis start len).element index = a.element (index.modify axis (start + ·)) := by
  rw [slice_shape, set_split hd] at hi
  obtain ⟨hlt, -⟩ := List.getElem?_eq_some_iff.mp hd
  obtain ⟨pre, rest, hpre, hrest, rfl⟩ :
      ∃ pre rest, List.Forall₂ (· < ·) pre (a.shape.take axis) ∧
        List.Forall₂ (· < ·) rest (len :: a.shape.drop (axis + 1)) ∧ index = pre ++ rest :=
    ⟨_, _, List.forall₂_take_append _ _ _ hi, List.forall₂_drop_append _ _ _ hi,
      (List.take_append_drop _ _).symm⟩
  cases hrest with
  | @cons j _ post _ hj hpost =>
    have hplen : pre.length = (a.shape.take axis).length := hpre.length_eq
    have haxis : pre.length = axis := by
      rw [hplen, List.length_take]
      omega
    have hmod : (pre ++ j :: post).modify axis (start + ·) = pre ++ (start + j) :: post := by
      rw [← haxis]
      exact modify_length_append pre post j _
    have hshape : a.shape = a.shape.take axis ++ d :: a.shape.drop (axis + 1) := shape_split hd
    have ho := offset_lt hpre
    have hin := offset_lt hpost
    obtain ⟨w, hwd⟩ : ∃ w, a.dtype.size = w := ⟨_, rfl⟩
    obtain ⟨o, hoe⟩ : ∃ o, offset (a.shape.take axis) pre = o := ⟨_, rfl⟩
    obtain ⟨r, hre⟩ : ∃ r, offset (a.shape.drop (axis + 1)) post = r := ⟨_, rfl⟩
    obtain ⟨p, hp⟩ : ∃ p, (a.shape.drop (axis + 1)).prod = p := ⟨_, rfl⟩
    have hplace : offset (a.slice axis start len).shape (pre ++ j :: post) = (o * len + j) * p + r := by
      rw [slice_shape, set_split hd, offset_axis hplen, hoe, hre, hp]
    have hsource : offset a.shape (pre ++ (start + j) :: post) = (o * d + (start + j)) * p + r := by
      conv_lhs => rw [hshape]
      rw [offset_axis hplen, hoe, hre, hp]
    have hin' : r + 1 ≤ p := by omega
    have hfit : (j * p + r) * w + w ≤ len * (p * w) := by
      have h1 : (j + 1) * p ≤ len * p := Nat.mul_le_mul_right p hj
      have h2 : (j * p + r + 1) * w ≤ len * p * w := by
        apply Nat.mul_le_mul_right
        rw [Nat.succ_mul] at h1
        omega
      calc (j * p + r) * w + w = (j * p + r + 1) * w := by ring
        _ ≤ len * p * w := h2
        _ = len * (p * w) := by ring
    unfold element
    rw [hmod, hplace, hsource, slice_dtype, slice_bytes hd, hwd, hp]
    have hsplit : ((o * len + j) * p + r) * w = o * (len * (p * w)) + (j * p + r) * w := by ring
    have hchunk := slice_chunk hw hd hle
    rw [hp, hwd] at hchunk
    rw [hsplit, take_drop_flatMap_range hchunk (by rw [← hoe]; exact ho) hfit, List.drop_take,
      List.take_take, List.drop_drop, List.drop_drop, min_eq_left (by omega)]
    congr 2
    ring

/-- The slice that takes a whole axis is the array. -/
theorem slice_all (hw : a.WellFormed) (hd : a.shape[axis]? = some d) : a.slice axis 0 d = a := by
  obtain ⟨hlt, hget⟩ := List.getElem?_eq_some_iff.mp hd
  have hlen : a.bytes.length =
      (a.shape.take axis).prod * (d * ((a.shape.drop (axis + 1)).prod * a.dtype.size)) := by
    rw [hw, shape_prod hd]
    ring
  have hset : a.shape.set axis d = a.shape := by
    rw [← hget]
    exact List.set_getElem_self hlt
  unfold slice
  simp only
  rw [List.getD_eq_getElem?_getD, hd, Option.getD_some, strided_run, Nat.zero_mul, List.drop_zero,
    ← hlen, List.take_length, hset]

/-! ### Rows -/

/-- One row of an array. -/
def row (a : TypedArray) (x : ℕ) : List UInt8 := (a.bytes.drop (x * a.stepBytes)).take a.stepBytes

theorem bytes_length (hw : a.WellFormed) (hne : a.shape ≠ []) :
    a.bytes.length = a.length * a.stepBytes := by
  obtain ⟨d, rest, hs⟩ := List.exists_cons_of_ne_nil hne
  rw [hw, length, stepBytes, elementShape, hs]
  simp only [List.prod_cons, List.headD_cons, List.tail_cons]
  ring

theorem row_length (hw : a.WellFormed) (hne : a.shape ≠ []) {x : ℕ} (hx : x < a.length) :
    (a.row x).length = a.stepBytes := by
  have hfit : (x + 1) * a.stepBytes ≤ a.bytes.length := by
    rw [bytes_length hw hne]
    exact Nat.mul_le_mul_right _ hx
  rw [Nat.succ_mul] at hfit
  unfold row
  rw [List.length_take, List.length_drop]
  omega

/-- The slice of a run of rows. -/
theorem slice_rows (hne : a.shape ≠ []) (i n : ℕ) :
    (a.slice 0 i n).bytes = (a.bytes.drop (i * a.stepBytes)).take (n * a.stepBytes) := by
  obtain ⟨d, rest, hs⟩ := List.exists_cons_of_ne_nil hne
  rw [slice_bytes (show a.shape[0]? = some d by rw [hs]; rfl), stepBytes, elementShape, hs]
  simp

theorem slice_row (hne : a.shape ≠ []) (x : ℕ) : (a.slice 0 x 1).bytes = a.row x := by
  rw [slice_rows hne, Nat.one_mul]
  rfl

/-- The rows of a run of rows. -/
theorem row_slice (hne : a.shape ≠ []) {i n j : ℕ} (hj : j < n) :
    (a.slice 0 i n).row j = a.row (i + j) := by
  have hstep : (a.slice 0 i n).stepBytes = a.stepBytes := by
    unfold stepBytes elementShape
    rw [slice_shape, slice_dtype]
    obtain ⟨d, rest, hs⟩ := List.exists_cons_of_ne_nil hne
    rw [hs]
    rfl
  have hrun := take_drop_run (l := a.bytes) (w := a.stepBytes) (Nat.le_add_right i j)
    (Nat.add_lt_add_left hj i)
  rw [Nat.add_sub_cancel_left] at hrun
  unfold row
  rw [hstep, slice_rows hne, hrun]

end TypedArray

/-! ### The code's reads -/

/-- The block copy copies the slice. -/
theorem writeWindowBlock_eq {a : TypedArray} {axis start len d : ℕ} (hd : a.shape[axis]? = some d)
    (hle : start + len ≤ d) :
    writeWindowBlock a axis start len = .ok (a.slice axis start len).bytes := by
  unfold writeWindowBlock
  rw [hd]
  simp only
  rw [if_neg (by omega)]
  unfold TypedArray.slice
  simp only
  rw [List.getD_eq_getElem?_getD, hd, Option.getD_some]

/-- It refuses what the axis does not hold. -/
theorem writeWindowBlock_ok {a : TypedArray} {axis start len : ℕ} {bytes : List UInt8}
    (h : writeWindowBlock a axis start len = .ok bytes) :
    ∃ d, a.shape[axis]? = some d ∧ start + len ≤ d := by
  unfold writeWindowBlock at h
  cases hd : a.shape[axis]? with
  | none =>
    rw [hd] at h
    cases h
  | some d =>
    rw [hd] at h
    simp only at h
    split at h
    · cases h
    · exact ⟨d, rfl, by omega⟩

theorem sliceAxis_eq {a : TypedArray} {axis start stop d : ℕ} (hd : a.shape[axis]? = some d)
    (h : start ≤ stop) (hle : stop ≤ d) :
    sliceAxis a axis start stop = .ok (a.slice axis start (stop - start)) := by
  have hget : a.shape.getD axis 0 = d := by
    rw [List.getD_eq_getElem?_getD, hd, Option.getD_some]
  unfold sliceAxis
  simp only
  rw [hget, if_neg (by omega), writeWindowBlock_eq hd (by omega)]
  rfl

theorem sliceAxis_ok {a b : TypedArray} {axis start stop : ℕ} (h : sliceAxis a axis start stop = .ok b) :
    ∃ d, a.shape[axis]? = some d ∧ start ≤ stop ∧ stop ≤ d := by
  unfold sliceAxis at h
  simp only at h
  split at h
  · cases h
  · rename_i hin
    cases hb : writeWindowBlock a axis start (stop - start) with
    | error e =>
      rw [hb] at h
      cases h
    | ok bytes =>
      obtain ⟨d, hd, -⟩ := writeWindowBlock_ok hb
      refine ⟨d, hd, ?_⟩
      rw [List.getD_eq_getElem?_getD, hd, Option.getD_some] at hin
      omega

end InfraStore
