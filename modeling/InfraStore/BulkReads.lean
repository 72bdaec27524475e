import InfraStore.ArrayReads

/-!
# Bulk reads

The reads of many arrays at once: one row of each, a run of rows of each, or each of them whole.  A
backend owes them what the reads of one array at a time return; the array store splits a batch into
the arrays it buffers and those its backend holds, and owes the same.

* `Rows`: the row each column of a batch is read at;
* `ArrayStore.readRows`, `readRanges`, `readArrays`: the batches of the readers and of bulk reads;
* `LawfulBulkReads`: a backend's bulk reads are its reads of one array after the other;
* `ArrayStore.readRanges_eq`, `readArrays_eq`, `readRows_eq`: the same of the array store.
-/

namespace InfraStore

open Lib

/-- The row of each column of a batch: the same for all, or one of its own for each. -/
inductive Rows where
  | uniform (index : ℕ)
  | perColumn (indices : List ℕ)
  deriving DecidableEq

/-- The columns of a batch, each with its row. -/
def Rows.of {H : Type} (rows : Rows) (hashes : List H) : List (H × ℕ) :=
  match rows with
  | uniform index => hashes.map fun h => (h, index)
  | perColumn indices => hashes.zip indices

namespace ArrayStore

variable {H B : Type} [DecidableEq H] [ToString H] [ArrayBackend H B]

/-- Whether the buffer holds some of the arrays of a batch. -/
def buffersAny (s : ArrayStore H B) (hashes : List H) : Bool := hashes.any s.buffer.contains

/-- The runs of rows of a batch, one after the other. -/
def readRanges (s : ArrayStore H B) (columns : List (H × Dtype × ℕ × ℕ)) : Result (List UInt8) :=
  if s.buffersAny (columns.map Prod.fst) then
    MemoryBackend.concatReads (fun c => s.getSlice c.1 c.2.1 c.2.2.1 c.2.2.2) columns
  else ArrayBackend.readRanges s.backend columns

/-- The arrays of a batch, the buffered ones beside those the backend returned for the others. -/
def placeArrays (s : ArrayStore H B) :
    List (H × Dtype) → List TypedArray → Result (List TypedArray)
  | [], _ => .ok []
  | c :: columns, fromFile =>
    match s.buffer.get c.1 with
    | some a => do
      checkDtype c.1 a.dtype c.2
      let rest ← s.placeArrays columns fromFile
      pure (a :: rest)
    | none =>
      match fromFile with
      | [] => .error (.integrityError "read_arrays: fewer arrays returned than hashes asked for")
      | a :: fromFile => do
        let rest ← s.placeArrays columns fromFile
        pure (a :: rest)

/-- The arrays of a batch, whole. -/
def readArrays (s : ArrayStore H B) (columns : List (H × Dtype)) : Result (List TypedArray) :=
  if s.buffersAny (columns.map Prod.fst) then do
    let fromFile ← ArrayBackend.readArrays s.backend
      (columns.filter fun c => !s.buffer.contains c.1)
    s.placeArrays columns fromFile
  else ArrayBackend.readArrays s.backend columns

/-- The bytes of one row of a batch's arrays, read off the first of them that is buffered; the dtype
of every buffered one is checked. -/
def rowBlock (s : ArrayStore H B) (d : Dtype) : List H → Option ℕ → Result (Option ℕ)
  | [], block => .ok block
  | h :: hashes, block =>
    match s.buffer.get h with
    | some a => do
      checkDtype h a.dtype d
      s.rowBlock d hashes (block.or (some (max a.elementShape.prod 1 * d.size)))
    | none => s.rowBlock d hashes block

/-- One row of each array of a batch, the buffered ones beside the rows the backend returned for the
others. -/
def placeRows (s : ArrayStore H B) (block : ℕ) : List (H × ℕ) → List UInt8 → Result (List UInt8)
  | [], _ => .ok []
  | c :: columns, fromFile =>
    match s.buffer.get c.1 with
    | some a =>
      if a.length ≤ c.2 then
        .error (.invalidParameter s!"index {c.2} out of bounds for length {a.length}")
      else do
        let rest ← s.placeRows block columns fromFile
        pure ((a.bytes.drop (c.2 * block)).take block ++ rest)
    | none => do
      let rest ← s.placeRows block columns (fromFile.drop block)
      pure (fromFile.take block ++ rest)

/-- One row of each array of a batch. -/
def readRows (s : ArrayStore H B) (hashes : List H) (d : Dtype) (rows : Rows) :
    Result (List UInt8) :=
  if s.buffersAny hashes then do
    let block ← s.rowBlock d hashes none
    let columns := rows.of hashes
    let file := columns.filter fun c => !s.buffer.contains c.1
    let fromFile ← ArrayBackend.readIndices s.backend d file
    if fromFile.length ≠ file.length * block.getD 0 then
      .error (.integrityError
        s!"read_rows: the backend returned {fromFile.length} bytes for {file.length} columns of {block.getD 0} bytes")
    else s.placeRows (block.getD 0) columns fromFile
  else ArrayBackend.readIndices s.backend d (rows.of hashes)

end ArrayStore

/-- A backend's bulk reads are its reads of one array after the other. -/
class LawfulBulkReads (H : outParam Type) [DecidableEq H] [Sha256 H] (B : Type) [ArrayBackend H B]
    [LawfulArrayBackend H B] : Prop where
  readIndices_eq {b : B} {d : Dtype} (columns : List (H × ℕ)) : LawfulArrayBackend.Valid b →
    (ArrayBackend.readIndices b d columns).toOption =
      (MemoryBackend.concatReads (fun c => ArrayBackend.getSlice b c.1 d c.2 (c.2 + 1))
        columns).toOption
  readRanges_eq {b : B} (columns : List (H × Dtype × ℕ × ℕ)) : LawfulArrayBackend.Valid b →
    (ArrayBackend.readRanges b columns).toOption =
      (MemoryBackend.concatReads
        (fun c => ArrayBackend.getSlice b c.1 c.2.1 c.2.2.1 c.2.2.2) columns).toOption
  readArrays_eq {b : B} (columns : List (H × Dtype)) : LawfulArrayBackend.Valid b →
    (ArrayBackend.readArrays b columns).toOption =
      (columns.mapM fun c => ArrayBackend.getArray b c.1 c.2).toOption

instance {H : Type} [DecidableEq H] [ToString H] [Sha256 H] : LawfulBulkReads H (MemoryBackend H) where
  readIndices_eq _ _ := rfl
  readRanges_eq _ _ := rfl
  readArrays_eq _ _ := rfl

/-! ### The array store's batches -/

theorem mapM_congr {ε α β : Type} {f g : α → Except ε β} {as : List α} (h : ∀ a ∈ as, f a = g a) :
    as.mapM f = as.mapM g := by
  induction as with
  | nil => rfl
  | cons a as ih =>
    rw [List.mapM_cons, List.mapM_cons, h a List.mem_cons_self,
      ih fun x hx => h x (List.mem_cons_of_mem _ hx)]

namespace ArrayStore

variable {H B : Type} [DecidableEq H] [ToString H] [Sha256 H] [ArrayBackend H B]
  [LawfulArrayBackend H B] [LawfulBulkReads H B]
variable {s : ArrayStore H B}

omit [ToString H] [LawfulBulkReads H B] in
theorem get_of_buffersAny (hs : s.Valid) {hashes : List H} (h : s.buffersAny hashes = false) :
    ∀ x ∈ hashes, s.buffer.get x = none := by
  intro x hx
  have hc : ¬ s.buffer.contains x = true := List.any_eq_false.mp h x hx
  rw [hs.indexed.contains_eq] at hc
  exact Option.not_isSome_iff_eq_none.mp hc

omit [LawfulArrayBackend H B] [LawfulBulkReads H B] [Sha256 H] in
theorem getSlice_of_not_buffered {h : H} (hh : s.buffer.get h = none) (d : Dtype) (i j : ℕ) :
    s.getSlice h d i j = ArrayBackend.getSlice s.backend h d i j := by
  rw [getSlice, hh]

omit [LawfulArrayBackend H B] [LawfulBulkReads H B] [Sha256 H] in
theorem getArray_of_not_buffered {h : H} (hh : s.buffer.get h = none) (d : Dtype) :
    s.getArray h d = ArrayBackend.getArray s.backend h d := by
  rw [getArray, hh]

/-- **Runs of rows.**  A batch of runs is answered as the runs one after the other are. -/
theorem readRanges_eq (hs : s.Valid) (columns : List (H × Dtype × ℕ × ℕ)) :
    (s.readRanges columns).toOption =
      (MemoryBackend.concatReads (fun c => s.getSlice c.1 c.2.1 c.2.2.1 c.2.2.2)
        columns).toOption := by
  unfold readRanges
  cases hb : s.buffersAny (columns.map Prod.fst) with
  | true => rfl
  | false =>
    have hnone := get_of_buffersAny hs hb
    rw [if_neg Bool.false_ne_true, LawfulBulkReads.readRanges_eq columns hs.backend]
    unfold MemoryBackend.concatReads
    rw [mapM_congr fun c hc =>
      (getSlice_of_not_buffered (hnone c.1 (List.mem_map_of_mem hc)) c.2.1 c.2.2.1 c.2.2.2).symm]

theorem toOption_mapM_cons {ε α β : Type} (f : α → Except ε β) (a : α) (as : List α) :
    ((a :: as).mapM f).toOption =
      (f a).toOption.bind fun b => (as.mapM f).toOption.map fun bs => b :: bs := by
  rw [List.mapM_cons]
  cases f a with
  | error e => rfl
  | ok b =>
    cases as.mapM f with
    | error e => rfl
    | ok bs => rfl

omit [ArrayBackend H B] [LawfulArrayBackend H B] [LawfulBulkReads H B] [Sha256 H] in
theorem placeArrays_buffered {c : H × Dtype} {a : TypedArray} (hb : s.buffer.get c.1 = some a)
    (columns : List (H × Dtype)) (fromFile : List TypedArray) :
    s.placeArrays (c :: columns) fromFile =
      (checkDtype c.1 a.dtype c.2).bind fun _ =>
        (s.placeArrays columns fromFile).map fun rest => a :: rest := by
  rw [placeArrays.eq_def]
  simp only [hb]
  rfl

omit [ArrayBackend H B] [LawfulArrayBackend H B] [LawfulBulkReads H B] [Sha256 H] in
theorem placeArrays_stored {c : H × Dtype} (hb : s.buffer.get c.1 = none)
    (columns : List (H × Dtype)) (a : TypedArray) (fromFile : List TypedArray) :
    s.placeArrays (c :: columns) (a :: fromFile) =
      (s.placeArrays columns fromFile).map fun rest => a :: rest := by
  rw [placeArrays.eq_def]
  simp only [hb]
  rfl

omit [LawfulArrayBackend H B] [LawfulBulkReads H B] [Sha256 H] in
/-- Beside what the backend returned for the rest, the buffered arrays of a batch are in place. -/
theorem placeArrays_eq (columns : List (H × Dtype))
    (hc : ∀ c ∈ columns, s.buffer.contains c.1 = (s.buffer.get c.1).isSome) :
    ((columns.filter fun c => !s.buffer.contains c.1).mapM
        fun c => ArrayBackend.getArray s.backend c.1 c.2).toOption.bind
      (fun fromFile => (s.placeArrays columns fromFile).toOption) =
    (columns.mapM fun c => s.getArray c.1 c.2).toOption := by
  induction columns with
  | nil => rfl
  | cons c columns ih =>
    have ih := ih fun x hx => hc x (List.mem_cons_of_mem _ hx)
    have hmem := hc c List.mem_cons_self
    rw [toOption_mapM_cons, ← ih]
    cases hb : s.buffer.get c.1 with
    | some a =>
      rw [hb] at hmem
      rw [List.filter_cons_of_neg (by rw [hmem]; exact Bool.false_ne_true)]
      have hget : s.getArray c.1 c.2 = (checkDtype c.1 a.dtype c.2).map fun _ => a := by
        rw [getArray, hb]
      rw [hget]
      cases hr : ((columns.filter fun c => !s.buffer.contains c.1).mapM
          fun c => ArrayBackend.getArray s.backend c.1 c.2).toOption with
      | none =>
        cases checkDtype c.1 a.dtype c.2 with
        | error e => rfl
        | ok u => rfl
      | some fromFile =>
        simp only [Option.bind_some]
        rw [placeArrays_buffered hb]
        cases checkDtype c.1 a.dtype c.2 with
        | error e => rfl
        | ok u =>
          cases s.placeArrays columns fromFile with
          | error e => rfl
          | ok rest => rfl
    | none =>
      rw [hb] at hmem
      rw [List.filter_cons_of_pos (by rw [hmem]; rfl), toOption_mapM_cons,
        getArray_of_not_buffered hb]
      cases hx : ArrayBackend.getArray s.backend c.1 c.2 with
      | error e => rfl
      | ok a =>
        cases hr : ((columns.filter fun c => !s.buffer.contains c.1).mapM
            fun c => ArrayBackend.getArray s.backend c.1 c.2).toOption with
        | none => rfl
        | some fromFile =>
          simp only [Except.toOption, Option.bind_some, Option.map_some]
          rw [placeArrays_stored hb]
          cases s.placeArrays columns fromFile with
          | error e => rfl
          | ok rest => rfl

/-- **Whole arrays.**  A batch of arrays is answered as the arrays one after the other are. -/
theorem readArrays_eq (hs : s.Valid) (columns : List (H × Dtype)) :
    (s.readArrays columns).toOption = (columns.mapM fun c => s.getArray c.1 c.2).toOption := by
  unfold readArrays
  cases hb : s.buffersAny (columns.map Prod.fst) with
  | true =>
    rw [if_pos rfl, ← placeArrays_eq columns fun c _ => hs.indexed.contains_eq c.1,
      ← LawfulBulkReads.readArrays_eq _ hs.backend]
    cases ArrayBackend.readArrays s.backend (columns.filter fun c => !s.buffer.contains c.1) with
    | error e => rfl
    | ok fromFile => rfl
  | false =>
    have hnone := get_of_buffersAny hs hb
    rw [if_neg Bool.false_ne_true, LawfulBulkReads.readArrays_eq columns hs.backend,
      mapM_congr fun c hc =>
        (getArray_of_not_buffered (hnone c.1 (List.mem_map_of_mem hc)) c.2).symm]

/-! ### One row of each -/

/-- The columns of a batch hold arrays of one dtype and one element shape, which has elements. -/
structure Uniform (s : ArrayStore H B) (d : Dtype) (shape : List ℕ) (hashes : List H) : Prop where
  elements : shape.prod ≠ 0
  held : ∀ h ∈ hashes, ∃ a, s.content h = some a ∧ a.dtype = d ∧ a.elementShape = shape ∧ a.Storable

omit [LawfulBulkReads H B] [ToString H] in
theorem Uniform.of_sublist {d : Dtype} {shape : List ℕ} {hashes hashes' : List H}
    (h : s.Uniform d shape hashes) (hsub : ∀ x ∈ hashes', x ∈ hashes) : s.Uniform d shape hashes' :=
  ⟨h.elements, fun x hx => h.held x (hsub x hx)⟩

omit [LawfulBulkReads H B] [ToString H] in
/-- Every dtype check of the buffered columns passes, and the first of them gives the width of a row. -/
theorem rowBlock_eq [ToString H] {d : Dtype} {shape : List ℕ} {hashes : List H}
    (h : s.Uniform d shape hashes) (hs : s.Valid) (block : Option ℕ) :
    s.rowBlock d hashes block =
      .ok (block.or (if s.buffersAny hashes then some (shape.prod * d.size) else none)) := by
  induction hashes generalizing block with
  | nil =>
    rw [rowBlock, buffersAny, List.any_nil, if_neg Bool.false_ne_true, Option.or_none]
  | cons x hashes ih =>
    have ih := ih (h.of_sublist fun y hy => List.mem_cons_of_mem _ hy)
    obtain ⟨a, ha, hd, hshape, -⟩ := h.held x List.mem_cons_self
    have hany : s.buffersAny (x :: hashes) = (s.buffer.contains x || s.buffersAny hashes) :=
      List.any_cons
    rw [rowBlock, hany, hs.indexed.contains_eq]
    cases hb : s.buffer.get x with
    | none =>
      simp only [Option.isSome_none, Bool.false_or]
      exact ih block
    | some a' =>
      have haa : a' = a := by
        rw [content, hb] at ha
        exact Option.some.inj ha
      subst haa
      have hpos : max shape.prod 1 = shape.prod := by
        have := h.elements
        omega
      simp only [Option.isSome_some, Bool.true_or, if_true]
      rw [hd, checkDtype_self, hshape, hpos]
      show s.rowBlock d hashes _ = _
      rw [ih]
      cases block with
      | none => rfl
      | some n => rfl

variable [LawfulReads H B]

omit [LawfulBulkReads H B] in
/-- What one column's row is read as. -/
theorem getSlice_row (hs : s.Valid) {x : H} {a : TypedArray} (ha : s.content x = some a)
    (hne : a.shape ≠ []) (row : ℕ) :
    (s.getSlice x a.dtype row (row + 1)).toOption =
      if row < a.length then some (a.slice 0 row 1) else none := by
  split
  · rename_i hlt
    rw [getSlice_eq hs ha hne (by omega) (by omega), Nat.add_sub_cancel_left]
    rfl
  · rename_i hge
    cases hr : s.getSlice x a.dtype row (row + 1) with
    | error e => rfl
    | ok r =>
      exfalso
      apply hge
      unfold getSlice at hr
      rcases content_cases ha with hb | ⟨hb, hx⟩
      · rw [hb] at hr
        simp only at hr
        rw [checkDtype_self] at hr
        obtain ⟨n, hn, -, hstop⟩ := sliceAxis_ok hr
        rw [a.length_of_shape_zero hn]
        omega
      · rw [hb] at hr
        have := (LawfulReads.getSlice_ok hs.backend hx hr).2
        omega

theorem toOption_concatReads_cons {α : Type} (f : α → Result TypedArray) (a : α) (as : List α) :
    (MemoryBackend.concatReads f (a :: as)).toOption =
      (f a).toOption.bind fun x =>
        (MemoryBackend.concatReads f as).toOption.map fun bytes => x.bytes ++ bytes := by
  unfold MemoryBackend.concatReads
  rw [List.mapM_cons]
  cases f a with
  | error e => rfl
  | ok b =>
    cases as.mapM f with
    | error e => rfl
    | ok bs => rfl

omit [LawfulBulkReads H B] in
/-- The row one column of a uniform batch is read at, if it is one of its array's. -/
theorem Uniform.getSlice_row {d : Dtype} {shape : List ℕ} {hashes : List H}
    (h : s.Uniform d shape hashes) (hs : s.Valid) {x : H} (hx : x ∈ hashes) (row : ℕ) :
    ∃ a, s.content x = some a ∧
      ((s.getSlice x d row (row + 1)).toOption = none ∧ a.length ≤ row ∨
        ∃ r, s.getSlice x d row (row + 1) = .ok r ∧ row < a.length ∧ r.bytes = a.row row ∧
          r.bytes.length = shape.prod * d.size) := by
  obtain ⟨a, ha, rfl, rfl, hw, hne⟩ := h.held x hx
  refine ⟨a, ha, ?_⟩
  have hread := ArrayStore.getSlice_row hs ha hne row
  split at hread
  · rename_i hlt
    refine .inr ⟨a.slice 0 row 1, ?_, hlt, TypedArray.slice_row hne row, ?_⟩
    · cases hr : s.getSlice x a.dtype row (row + 1) with
      | error e =>
        rw [hr] at hread
        cases hread
      | ok r =>
        rw [hr] at hread
        exact congrArg Except.ok (Option.some.inj hread)
    · rw [TypedArray.slice_row hne, TypedArray.row_length hw hne hlt]
      rfl
  · rename_i hge
    exact .inl ⟨hread, by omega⟩

omit [LawfulBulkReads H B] in
/-- The rows of a uniform batch are as many bytes as its columns take. -/
theorem Uniform.length_rows {d : Dtype} {shape : List ℕ} {columns : List (H × ℕ)}
    (h : s.Uniform d shape (columns.map Prod.fst)) (hs : s.Valid) {bytes : List UInt8}
    (hb : (MemoryBackend.concatReads (fun c => s.getSlice c.1 d c.2 (c.2 + 1)) columns).toOption =
      some bytes) : bytes.length = columns.length * (shape.prod * d.size) := by
  induction columns generalizing bytes with
  | nil =>
    cases hb
    simp
  | cons c columns ih =>
    have h' : s.Uniform d shape (columns.map Prod.fst) :=
      h.of_sublist fun y hy => List.mem_cons_of_mem _ hy
    rw [toOption_concatReads_cons] at hb
    obtain ⟨a, -, hrow⟩ := h.getSlice_row hs List.mem_cons_self c.2
    rcases hrow with ⟨hnone, -⟩ | ⟨r, hr, -, -, hlen⟩
    · rw [hnone] at hb
      cases hb
    · rw [hr] at hb
      obtain ⟨rest, hrest, rfl⟩ := Option.map_eq_some_iff.mp hb
      rw [List.length_append, hlen, ih h' hrest, List.length_cons, Nat.succ_mul, Nat.add_comm]

omit [LawfulBulkReads H B] in
/-- Beside what the backend returned for the rest, the buffered rows of a batch are in place. -/
theorem Uniform.placeRows_eq {d : Dtype} {shape : List ℕ} {columns : List (H × ℕ)}
    (h : s.Uniform d shape (columns.map Prod.fst)) (hs : s.Valid) :
    (MemoryBackend.concatReads (fun c => s.getSlice c.1 d c.2 (c.2 + 1))
        (columns.filter fun c => !s.buffer.contains c.1)).toOption.bind
      (fun fromFile => (s.placeRows (shape.prod * d.size) columns fromFile).toOption) =
    (MemoryBackend.concatReads (fun c => s.getSlice c.1 d c.2 (c.2 + 1)) columns).toOption := by
  induction columns with
  | nil => rfl
  | cons c columns ih =>
    have h' : s.Uniform d shape (columns.map Prod.fst) :=
      h.of_sublist fun y hy => List.mem_cons_of_mem _ hy
    have ih := ih h'
    obtain ⟨a, ha, hrow⟩ := h.getSlice_row hs List.mem_cons_self c.2
    rw [toOption_concatReads_cons, ← ih]
    have hmem := hs.indexed.contains_eq c.1
    cases hb : s.buffer.get c.1 with
    | some x =>
      have hxa : x = a := by
        rw [content, hb] at ha
        exact Option.some.inj ha
      subst hxa
      rw [hb] at hmem
      rw [List.filter_cons_of_neg (by rw [hmem]; exact Bool.false_ne_true)]
      obtain ⟨x', hx', rfl, rfl, -⟩ := h.held c.1 List.mem_cons_self
      rw [ha] at hx'
      cases hx'
      cases (MemoryBackend.concatReads (fun c => s.getSlice c.1 x.dtype c.2 (c.2 + 1))
          (columns.filter fun c => !s.buffer.contains c.1)).toOption with
      | none =>
        rcases hrow with ⟨hnone, -⟩ | ⟨r, hr, -⟩
        · rw [hnone]
          rfl
        · rw [hr]
          rfl
      | some fromFile =>
        simp only [Option.bind_some]
        rw [placeRows.eq_def]
        simp only [hb]
        rcases hrow with ⟨hnone, hge⟩ | ⟨r, hr, hlt, hbytes, -⟩
        · rw [hnone, if_pos hge]
          rfl
        · rw [hr, if_neg (by omega)]
          simp only [Except.toOption, Option.bind_some, hbytes]
          cases s.placeRows (x.elementShape.prod * x.dtype.size) columns fromFile with
          | error e => rfl
          | ok rest => rfl
    | none =>
      rw [hb] at hmem
      rw [List.filter_cons_of_pos (by rw [hmem]; rfl), toOption_concatReads_cons]
      rcases hrow with ⟨hnone, -⟩ | ⟨r, hr, -, -, hlen⟩
      · rw [hnone]
        rfl
      · rw [hr]
        cases (MemoryBackend.concatReads (fun c => s.getSlice c.1 d c.2 (c.2 + 1))
            (columns.filter fun c => !s.buffer.contains c.1)).toOption with
        | none => rfl
        | some fromFile =>
          simp only [Except.toOption, Option.bind_some, Option.map_some]
          rw [placeRows.eq_def]
          simp only [hb]
          rw [← hlen, List.take_left' rfl, List.drop_left' rfl]
          cases s.placeRows r.bytes.length columns fromFile with
          | error e => rfl
          | ok rest => rfl

omit [LawfulBulkReads H B] [LawfulReads H B] [LawfulArrayBackend H B] [Sha256 H] in
theorem concatReads_stored {d : Dtype} {columns : List (H × ℕ)}
    (h : ∀ c ∈ columns, s.buffer.get c.1 = none) :
    MemoryBackend.concatReads (fun c => ArrayBackend.getSlice s.backend c.1 d c.2 (c.2 + 1)) columns =
      MemoryBackend.concatReads (fun c => s.getSlice c.1 d c.2 (c.2 + 1)) columns := by
  unfold MemoryBackend.concatReads
  rw [mapM_congr fun c hc => (getSlice_of_not_buffered (h c hc) d c.2 (c.2 + 1)).symm]

/-- **One row of each.**  A uniform batch is answered as the rows one after the other are. -/
theorem readRows_eq (hs : s.Valid) {d : Dtype} {shape : List ℕ} {hashes : List H} {rows : Rows}
    (h : s.Uniform d shape hashes) (hrows : (rows.of hashes).map Prod.fst = hashes) :
    (s.readRows hashes d rows).toOption =
      (MemoryBackend.concatReads (fun c => s.getSlice c.1 d c.2 (c.2 + 1))
        (rows.of hashes)).toOption := by
  unfold readRows
  cases hb : s.buffersAny hashes with
  | false =>
    have hnone := get_of_buffersAny hs hb
    rw [if_neg Bool.false_ne_true, LawfulBulkReads.readIndices_eq _ hs.backend,
      concatReads_stored fun c hc => hnone c.1 (by rw [← hrows]; exact List.mem_map_of_mem hc)]
  | true =>
    have hfile : ∀ c ∈ (rows.of hashes).filter fun c => !s.buffer.contains c.1,
        s.buffer.get c.1 = none := by
      intro c hc
      have hnot := (List.mem_filter.mp hc).2
      rw [hs.indexed.contains_eq] at hnot
      exact Option.not_isSome_iff_eq_none.mp (by simpa using hnot)
    rw [← hrows] at h
    rw [if_pos rfl, ← h.placeRows_eq hs, ← concatReads_stored hfile,
      ← LawfulBulkReads.readIndices_eq _ hs.backend]
    have hblock := rowBlock_eq h hs none
    rw [hrows, hb, if_pos rfl, Option.none_or] at hblock
    rw [hblock]
    simp only [bind, Except.bind, Option.getD_some]
    cases hr : ArrayBackend.readIndices s.backend d
        ((rows.of hashes).filter fun c => !s.buffer.contains c.1) with
    | error e => rfl
    | ok bytes =>
      have hbytes := congrArg Except.toOption hr
      rw [LawfulBulkReads.readIndices_eq _ hs.backend, concatReads_stored hfile] at hbytes
      have hsub : s.Uniform d shape
          (((rows.of hashes).filter fun c => !s.buffer.contains c.1).map Prod.fst) :=
        h.of_sublist fun x hx => by
          obtain ⟨c, hc, rfl⟩ := List.mem_map.mp hx
          exact List.mem_map_of_mem (List.mem_filter.mp hc).1
      have hlen := hsub.length_rows hs hbytes
      simp only
      rw [if_neg (not_not.mpr hlen)]
      rfl

end ArrayStore

end InfraStore
