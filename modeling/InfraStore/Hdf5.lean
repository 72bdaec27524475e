import InfraStore.Lib.Fill
import InfraStore.Lib.RowMajor
import InfraStore.WriteBuffer

/-!
# The HDF5 backend

How the backend that keeps its arrays in an HDF5 file finds and reads them.  Arrays on one time axis
share packed datasets, one column each; the others have datasets of their own.

* `H5Dataset`: what the HDF5 library offers of an open dataset, and `LawfulH5Dataset`, what it promises;
* `Hdf5Backend`: the file and the index over it;
* `readLocked`, `readWindowBlockLocked`: the reads of one array;
* `readRowsLocked`, `readArraysLocked`: the reads of many, a packed dataset at a time.
-/

namespace InfraStore

open Lib

/-! ### The library -/

/-- What the HDF5 library offers of an open dataset. -/
class H5Dataset (D : Type) where
  shape : D → List ℕ
  /-- The type of the elements, where it is one the store writes; a `bool` is written as a `u8`. -/
  elementType : D → Option Dtype
  /-- The shape of a chunk of a chunked dataset. -/
  chunk : D → Option (List ℕ)
  /-- The elements of a hyperslab, decoded as a dtype. -/
  readSlice : D → Dtype → List (ℕ × ℕ) → Result (List UInt8)
  /-- All the elements. -/
  readRaw : D → Dtype → Result (List UInt8)

/-- The type the elements of a dtype are written as. -/
def Dtype.written : Dtype → Dtype
  | .bool => .u8
  | d => d

/-- A hyperslab that lies in a dataset is read, as is the whole of it; no promise is made of a dtype the
dataset does not store. -/
class LawfulH5Dataset (D : Type) [H5Dataset D] where
  content : D → List UInt8
  content_length {d : D} {t : Dtype} : H5Dataset.elementType d = some t →
    (content d).length = (H5Dataset.shape d).prod * t.size
  readSlice_eq {d : D} {t : Dtype} {ranges : List (ℕ × ℕ)} :
    H5Dataset.elementType d = some t.written → InBounds ranges (H5Dataset.shape d) →
      H5Dataset.readSlice d t ranges = .ok (hyperslab t.size (H5Dataset.shape d) ranges (content d))
  readRaw_eq {d : D} {t : Dtype} : H5Dataset.elementType d = some t.written →
    H5Dataset.readRaw d t = .ok (content d)

/-! ### The index -/

/-- Where an array lies in the file. -/
inductive Location where
  | packed (dataset : String) (col : ℕ)
  | standalone (var : String)
  deriving DecidableEq

/-- Where a column is read from. -/
inductive Placement (H : Type) where
  | packed (dataset : String) (col : ℕ)
  | individual (hash : H)
  deriving DecidableEq

/-- A packed dataset, and the arrays in its columns. -/
structure DatasetState (H : Type) where
  hashName : String
  dtype : Dtype
  elementShape : List ℕ
  length : ℕ
  columns : List (Option H)

namespace DatasetState

variable {H : Type}

/-- Bytes of one column's element block at a single step. -/
def elemBytes (s : DatasetState H) : ℕ := max s.elementShape.prod 1 * s.dtype.size

/-- The shape of the array in a column. -/
def columnShape (s : DatasetState H) : List ℕ := s.length :: s.elementShape

/-- The shape of so many columns of the dataset. -/
def slabShape (s : DatasetState H) (width : ℕ) : List ℕ := s.length :: width :: s.elementShape

end DatasetState

/-- The file, by the names of its datasets, and the index over it. -/
structure Hdf5Backend (H D : Type) where
  single : FMap String D
  datasets : FMap String (DatasetState H)
  byHash : FMap H Location

/-- Refuse a time slice that does not lie within `0..total`. -/
def checkSlice (start stop total : ℕ) : Result Unit :=
  if stop < start ∨ total < stop then
    .error (.invalidParameter s!"slice {start}..{stop} out of bounds for length {total}")
  else .ok ()

def packedBlockRanges (time cols : ℕ × ℕ) (elementShape : List ℕ) : List (ℕ × ℕ) :=
  time :: cols :: wholeRanges elementShape

def packedRanges (time : ℕ × ℕ) (col : ℕ) (elementShape : List ℕ) : List (ℕ × ℕ) :=
  time :: (col, col + 1) :: wholeRanges elementShape

def standaloneRanges (time : ℕ × ℕ) (elementShape : List ℕ) : List (ℕ × ℕ) :=
  time :: wholeRanges elementShape

/-- Bytes of the raw-data chunk cache. -/
def chunkCacheNbytes : ℕ := 4 * maxChunkBytes

namespace Hdf5Backend

variable {H D : Type} [DecidableEq H] [ToString H] [H5Dataset D]

section

variable (f : Hdf5Backend H D)

/-- Open a dataset. -/
def dataset (name : String) : Result D :=
  match FMap.get f.single name with
  | some d => .ok d
  | none => .error (.integrityError s!"missing dataset {name}")

/-- The index entry of a packed dataset. -/
def datasetState (name : String) : Result (DatasetState H) :=
  match FMap.get f.datasets name with
  | some st => .ok st
  | none => .error (.integrityError s!"dataset {name} missing")

/-- Where an array lies. -/
def location (hash : H) : Result Location :=
  match FMap.get f.byHash hash with
  | some l => .ok l
  | none => .error .notFound

/-- A standalone dataset holds what the catalog claims; `bool` and `u8` are the same bytes on disk. -/
def checkStandaloneDtype (d : D) (hash : H) (requested : Dtype) : Result Unit :=
  match H5Dataset.elementType d with
  | none => .ok ()
  | some stored =>
    if requested = .bool ∧ stored = .u8 then .ok () else checkDtype hash stored requested

/-! ### One array -/

/-- One array, whole or the rows of a range. -/
def readLocked (hash : H) (dtype : Dtype) (range : Option (ℕ × ℕ)) : Result TypedArray := do
  match ← f.location hash with
  | .packed dataset col => do
    let st ← f.datasetState dataset
    checkDtype hash st.dtype dtype
    let range := range.getD (0, st.length)
    checkSlice range.1 range.2 st.length
    let ds ← f.dataset dataset
    let bytes ← H5Dataset.readSlice ds st.dtype (packedRanges range col st.elementShape)
    mapErr .integrityError
      (TypedArray.new st.dtype ((range.2 - range.1) :: st.elementShape) bytes)
  | .standalone var => do
    let ds ← f.dataset var
    checkStandaloneDtype ds hash dtype
    let fullShape := H5Dataset.shape ds
    match range with
    | none => do
      let bytes ← H5Dataset.readRaw ds dtype
      mapErr .integrityError (TypedArray.new dtype fullShape bytes)
    | some range => do
      checkSlice range.1 range.2 (fullShape.headD 0)
      let elementShape := fullShape.tail
      let bytes ← H5Dataset.readSlice ds dtype (standaloneRanges range elementShape)
      mapErr .integrityError (TypedArray.new dtype ((range.2 - range.1) :: elementShape) bytes)

def arrayShapeLocked (hash : H) : Result (List ℕ) := do
  match ← f.location hash with
  | .standalone var => (f.dataset var).map H5Dataset.shape
  | .packed dataset _ => (f.datasetState dataset).map DatasetState.columnShape

/-- A window block lies in the array. -/
def checkBounds (dims : List ℕ) (countAxis start len : ℕ) : Result Unit :=
  match dims[countAxis]? with
  | none => .error (.integrityError s!"count axis {countAxis} out of bounds for shape {dims}")
  | some axisLen =>
    if axisLen < start + len then
      .error (.invalidParameter
        s!"window block {start}..{start + len} out of bounds for axis length {axisLen}")
    else .ok ()

/-- The range each axis selects: the block on the count axis, the others whole. -/
def axisRanges (dims : List ℕ) (countAxis start len : ℕ) : List (ℕ × ℕ) :=
  dims.mapIdx fun axis axisLen => if axis = countAxis then (start, start + len) else (0, axisLen)

/-- A block of windows of an array, along the axis of its windows. -/
def readWindowBlockLocked (hash : H) (dtype : Dtype) (countAxis start len : ℕ) :
    Result (List UInt8) := do
  match ← f.location hash with
  | .standalone var => do
    let ds ← f.dataset var
    checkStandaloneDtype ds hash dtype
    let dims := H5Dataset.shape ds
    checkBounds dims countAxis start len
    H5Dataset.readSlice ds dtype (axisRanges dims countAxis start len)
  | .packed dataset col => do
    let st ← f.datasetState dataset
    checkDtype hash st.dtype dtype
    let logical := st.columnShape
    checkBounds logical countAxis start len
    let ranges := axisRanges logical countAxis start len
    let ds ← f.dataset dataset
    -- the column is pinned, so logical axis `j` is axis `j + 1` of the dataset from the second on
    H5Dataset.readSlice ds st.dtype (ranges.take 1 ++ (col, col + 1) :: ranges.drop 1)

/-! ### Many arrays -/

/-- Where a column is read from, its dtype checked where its dataset knows it. -/
def placeOne (hash : H) (dtype : Dtype) : Result (Placement H) := do
  match ← f.location hash with
  | .packed dataset col => do
    let st ← f.datasetState dataset
    checkDtype hash st.dtype dtype
    pure (.packed dataset col)
  | .standalone _ => pure (.individual hash)

def place (columns : List (H × Dtype)) : Result (List (Placement H)) :=
  columns.mapM fun c => f.placeOne c.1 c.2

end

/-- The columns a batch wants from one run of rows of one dataset, over the span from the first of them
to the last; each member is a place in the batch and its column. -/
structure Strip where
  dataset : String
  rows : ℕ × ℕ
  first : ℕ
  last : ℕ
  elemBytes : ℕ
  members : List (ℕ × ℕ)

/-- A batch resolved to its strips: where the bytes of each column start, and the columns that were read
on their own. -/
structure Gather where
  strips : List Strip
  lone : List (ℕ × List UInt8)
  offsets : List ℕ
  total : ℕ

/-- One more member of a strip. -/
def Strip.add (s : Strip) (i col : ℕ) : Strip :=
  { s with first := min s.first col, last := max s.last col, members := s.members ++ [(i, col)] }

/-- One column of a batch: a member of the strip of its dataset and rows, or read on its own. -/
def addColumn (f : Hdf5Backend H D) (g : Gather) (column : (H × Dtype × ℕ × ℕ) × Placement H) :
    Result Gather :=
  let i := g.offsets.length
  let rows := column.1.2.2
  match column.2 with
  | .individual hash => do
    let arr ← f.readLocked hash column.1.2.1 (some rows)
    pure { g with lone := g.lone ++ [(i, arr.bytes)], offsets := g.offsets ++ [g.total],
                  total := g.total + arr.bytes.length }
  | .packed dataset col =>
    match g.strips.findIdx? fun s => s.dataset = dataset && s.rows = rows with
    | some k =>
      let elemBytes := ((g.strips[k]?).map Strip.elemBytes).getD 0
      pure { g with strips := g.strips.modify k fun s => s.add i col,
                    offsets := g.offsets ++ [g.total],
                    total := g.total + (rows.2 - rows.1) * elemBytes }
    | none => do
      let st ← f.datasetState dataset
      checkSlice rows.1 rows.2 st.length
      pure { g with strips := g.strips ++ [⟨dataset, rows, col, col, st.elemBytes, [(i, col)]⟩],
                    offsets := g.offsets ++ [g.total],
                    total := g.total + (rows.2 - rows.1) * st.elemBytes }

/-- Copy a block to its place in the output; a place outside it is a panic. -/
def copyBlock (out : List UInt8) (dst : ℕ) (block : List UInt8) : Except Halt (List UInt8) :=
  match copyAt out dst block with
  | some out => .ok out
  | none => .error .panicked

/-- Copy one row of a member's column out of the bytes of a strip of rows. -/
def scatterRow (s : Strip) (bytes : List UInt8) (col base : ℕ) (out : List UInt8) (r : ℕ) :
    Except Halt (List UInt8) :=
  let width := s.last - s.first + 1
  let src := (r * width + col - s.first) * s.elemBytes
  if bytes.length < src + s.elemBytes then
    .error (.error (.integrityError s!"column {col} out of row bounds for dataset {s.dataset}"))
  else copyBlock out (base + r * s.elemBytes) ((bytes.drop src).take s.elemBytes)

/-- Copy a member's column out of the bytes of a strip of rows. -/
def scatterMember (s : Strip) (offsets : List ℕ) (sub : ℕ × ℕ) (bytes out : List UInt8)
    (member : ℕ × ℕ) : Except Halt (List UInt8) :=
  match offsets[member.1]? with
  | none => .error .panicked
  | some offset =>
    let base := offset + (sub.1 - s.rows.1) * s.elemBytes
    (List.range (sub.2 - sub.1)).foldlM (scatterRow s bytes member.2 base) out

/-- Read a strip, some rows at a time, and scatter its columns. -/
def readStrip (f : Hdf5Backend H D) (cacheBytes : ℕ) (offsets : List ℕ) (out : List UInt8)
    (s : Strip) : Except Halt (List UInt8) := do
  let st ← Except.orHalt (f.datasetState s.dataset)
  let ds ← Except.orHalt (f.dataset s.dataset)
  let width := s.last - s.first + 1
  if width * s.elemBytes = 0 then throw .panicked
  (rowStrips s.rows.1 s.rows.2 (max (cacheBytes / (width * s.elemBytes)) 1)).foldlM (fun out sub => do
    let bytes ← Except.orHalt (H5Dataset.readSlice ds st.dtype
      (packedBlockRanges sub (s.first, s.last + 1) st.elementShape))
    s.members.foldlM (scatterMember s offsets sub bytes) out) out

/-- The bytes of a column that was read on its own, in their place. -/
def placeLone (offsets : List ℕ) (out : List UInt8) (l : ℕ × List UInt8) :
    Except Halt (List UInt8) :=
  match offsets[l.1]? with
  | none => .error .panicked
  | some offset => copyBlock out offset l.2

/-- A run of rows of each array, one after the other; a strip takes at most `cacheBytes`. -/
def readRowsLocked (f : Hdf5Backend H D) (cacheBytes : ℕ) (columns : List (H × Dtype × ℕ × ℕ)) :
    Except Halt (List UInt8) := do
  let placements ← Except.orHalt (f.place (columns.map fun c => (c.1, c.2.1)))
  let g ← Except.orHalt ((columns.zip placements).foldlM f.addColumn ⟨[], [], [], 0⟩)
  let out ← g.lone.foldlM (placeLone g.offsets) (List.replicate g.total 0)
  g.strips.foldlM (f.readStrip cacheBytes g.offsets) out

/-- `slice::chunks_exact`. -/
def chunksExact {α : Type} (n : ℕ) (l : List α) : List (List α) :=
  (List.range (l.length / n)).map fun i => (l.drop (i * n)).take n

/-- `Iterator::step_by`. -/
def stepBy {α : Type} (n : ℕ) (l : List α) : List α :=
  (List.range ((l.length + n - 1) / n)).filterMap fun i => l[i * n]?

/-- The columns of one packed dataset that a batch asks for, each whole: read over the span they cover,
a strip of chunk rows at a time. -/
def readColumns (f : Hdf5Backend H D) (dataset : String) (cols : List ℕ) :
    Except Halt (DatasetState H × List (ℕ × List UInt8)) := do
  let st ← Except.orHalt (f.datasetState dataset)
  let elemBytes := st.elemBytes
  let ds ← Except.orHalt (f.dataset dataset)
  let first := cols.min?.getD 0
  let last := cols.max?.getD 0
  let span := last - first + 1
  if elemBytes = 0 then throw .panicked
  let strip := (((H5Dataset.chunk ds).bind List.head?).getD st.length)
  let columns ← (rowStrips 0 st.length (max strip 1)).foldlM (fun columns rows => do
    let bytes ← Except.orHalt (H5Dataset.readSlice ds st.dtype
      (packedBlockRanges rows (first, last + 1) st.elementShape))
    pure (columns.map fun c =>
      (c.1, c.2 ++ (stepBy span ((chunksExact elemBytes bytes).drop (c.1 - first))).flatten)))
    (cols.map fun col => (col, []))
  pure (st, columns)

/-- The columns a batch wants of a dataset. -/
def wantedCols (placements : List (Placement H)) (dataset : String) : List ℕ :=
  placements.filterMap fun
    | .packed d col => if d = dataset then some col else none
    | .individual _ => none

/-- The packed datasets of a batch. -/
def wantedDatasets (placements : List (Placement H)) : List String :=
  (placements.filterMap fun
    | .packed d _ => some d
    | .individual _ => none).dedup

/-- One array of a batch, out of the columns read. -/
def takeArray (f : Hdf5Backend H D)
    (reads : List (String × DatasetState H × List (ℕ × List UInt8)))
    (column : (H × Dtype) × Placement H) : Except Halt TypedArray :=
  match column.2 with
  | .packed dataset col =>
    match (reads.lookup dataset).bind fun r => (r.2.lookup col).map fun bytes => (r.1, bytes) with
    | none => .error .panicked
    | some (st, bytes) =>
      Except.orHalt (mapErr .integrityError (TypedArray.new st.dtype st.columnShape bytes))
  | .individual hash => Except.orHalt (f.readLocked hash column.1.2 none)

/-- Each array whole. -/
def readArraysLocked (f : Hdf5Backend H D) (columns : List (H × Dtype)) :
    Except Halt (List TypedArray) := do
  let placements ← Except.orHalt (f.place columns)
  let reads ← (wantedDatasets placements).mapM fun d =>
    (f.readColumns d (wantedCols placements d).dedup).map fun r => (d, r)
  (columns.zip placements).mapM (f.takeArray reads)

/-! ### The trait -/

variable (f : Hdf5Backend H D)

def getArray (hash : H) (dtype : Dtype) : Result TypedArray := f.readLocked hash dtype none

def getSlice (hash : H) (dtype : Dtype) (start stop : ℕ) : Result TypedArray :=
  f.readLocked hash dtype (some (start, stop))

def readIndexInto (hashes : List H) (dtype : Dtype) (index : ℕ) : Except Halt (List UInt8) :=
  f.readRowsLocked chunkCacheNbytes (hashes.map fun h => (h, dtype, index, index + 1))

def readIndicesInto (columns : List (H × ℕ)) (dtype : Dtype) : Except Halt (List UInt8) :=
  f.readRowsLocked chunkCacheNbytes (columns.map fun c => (c.1, dtype, c.2, c.2 + 1))

def readRangesInto (columns : List (H × Dtype × ℕ × ℕ)) : Except Halt (List UInt8) :=
  f.readRowsLocked chunkCacheNbytes columns

def readArrays (columns : List (H × Dtype)) : Except Halt (List TypedArray) :=
  f.readArraysLocked columns

end Hdf5Backend

end InfraStore
