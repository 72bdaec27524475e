import InfraStore.ForecastReader
import InfraStore.Hdf5
import InfraStore.Lib.Slab
import InfraStore.PoolNames

/-!
# Writes of the HDF5 backend

How the backend that keeps its arrays in an HDF5 file writes and removes them, and how its index is
rebuilt when the file is opened again.  Every creation, write and unlink of a dataset may fail.

* `H5Library`: what the HDF5 library offers to a writer, and `LawfulH5Library`, what it promises;
* `Hdf5File`: the file, the index over it and the failures to come;
* `putPacked`, `putPackedBlock`, `putStandalone`, `removeArrayLocked`: the arrays;
* `putTimestamps`, `removeTimestamps`: the explicit time axes;
* `rebuildIndex`: the index of a file, from the names of its members and the hashes beside its columns.
-/

namespace InfraStore

open Lib

/-! ### The library -/

/-- What the HDF5 library offers to a writer. -/
class H5Library (D : Type) extends H5Dataset D where
  /-- A new dataset of a type and shape, chunked or not. -/
  create : Dtype → List ℕ → Option (List ℕ) → Result D
  /-- The elements of a hyperslab replaced. -/
  writeSlice : D → Dtype → List (ℕ × ℕ) → List UInt8 → Result D
  /-- All the elements replaced. -/
  writeRaw : D → Dtype → List UInt8 → Result D

/-- A new dataset is filled with zeros, has a size the machine can count, and no chunk edge of zero; a
write replaces the elements of its selection, and is refused for no reason but a failure where the
selection has elements. -/
class LawfulH5Library (D : Type) [H5Library D] extends LawfulH5Dataset D where
  create_ok {t : Dtype} {shape : List ℕ} {chunk : Option (List ℕ)} {d : D} :
    H5Library.create t shape chunk = .ok d →
      H5Dataset.elementType d = some t.written ∧ H5Dataset.shape d = shape ∧
        content d = List.replicate (shape.prod * t.size) 0 ∧ (∃ n, expectedBytes t shape = .ok n) ∧
        ∀ edges, chunk = some edges → 0 ∉ edges
  writeSlice_ok {d d' : D} {t : Dtype} {ranges : List (ℕ × ℕ)} {bytes : List UInt8} :
    H5Dataset.elementType d = some t.written → InBounds ranges (H5Dataset.shape d) →
      bytes.length = boxSize ranges * t.size → H5Library.writeSlice d t ranges bytes = .ok d' →
        H5Dataset.elementType d' = H5Dataset.elementType d ∧
          H5Dataset.shape d' = H5Dataset.shape d ∧
          content d' = fillSlab t.size (H5Dataset.shape d) ranges bytes (content d)
  writeSlice_total {d : D} {t : Dtype} {ranges : List (ℕ × ℕ)} {bytes : List UInt8} :
    H5Dataset.elementType d = some t.written → InBounds ranges (H5Dataset.shape d) →
      bytes.length = boxSize ranges * t.size → boxSize ranges ≠ 0 →
        ∃ d', H5Library.writeSlice d t ranges bytes = .ok d'
  writeRaw_ok {d d' : D} {t : Dtype} {bytes : List UInt8} :
    H5Dataset.elementType d = some t.written →
      bytes.length = (H5Dataset.shape d).prod * t.size → H5Library.writeRaw d t bytes = .ok d' →
        H5Dataset.elementType d' = H5Dataset.elementType d ∧
          H5Dataset.shape d' = H5Dataset.shape d ∧ content d' = bytes

/-- A step the library takes on the file. -/
inductive H5Step where
  | create
  | write
  /-- An unlink, or a write that takes an array away. -/
  | remove
  deriving DecidableEq

/-- Which of the steps to come fail, kind by kind; those past the end of a list do not. -/
structure H5Faults where
  creates : List Bool
  writes : List Bool
  removals : List Bool
  deriving DecidableEq

/-- Whether the next step of a kind fails, and what is to come after it. -/
def H5Faults.next (f : H5Faults) : H5Step → Bool × H5Faults
  | .create => (f.creates.headD false, { f with creates := f.creates.tail })
  | .write => (f.writes.headD false, { f with writes := f.writes.tail })
  | .remove => (f.removals.headD false, { f with removals := f.removals.tail })

/-! ### The file -/

namespace DatasetState

variable {H : Type}

/-- The first column no array has. -/
def firstFree (s : DatasetState H) : Option ℕ := s.columns.findIdx? Option.isNone

def full (s : DatasetState H) : Bool := !s.columns.any Option.isNone

end DatasetState

/-- A file and the index over it.  What each standalone array was written as, `bool` or `u8`, is not in
the file: no operation reads `writtenAs`. -/
structure Hdf5File (D : Type) extends Hdf5Backend Hash32 D where
  readOnly : Bool
  datasetGroups : FMap (PoolKey Hash32) (List String)
  standaloneVars : List String
  /-- The members of the group of explicit time axes. -/
  timestamps : FMap String (List ℤ)
  timestampHashes : List Hash32
  faults : H5Faults
  writtenAs : FMap Hash32 Dtype

/-- Rows of a chunk of a packed dataset. -/
def packedChunkRows (dtype : Dtype) (elementShape : List ℕ) (cols length : ℕ) : ℕ :=
  let minChunkBytes := 32 * 1024
  let row := max (saturatingMul cols (elementBlockBytes dtype elementShape)) 1
  if minChunkBytes ≤ row then 1
  else min (max ((minChunkBytes + row - 1) / row) 1) (max length 1)

/-- The chunk of an array stored on its own. -/
def standaloneChunks (a : TypedArray) (windowAxis : Option ℕ) : List ℕ :=
  match windowAxis with
  | some axis =>
    if axis < a.shape.length ∧ 0 ∉ a.shape then
      a.shape.set axis (windowBlockCols a.dtype a.shape axis)
    else a.shape
  | none => a.shape

/-- Arrays of this many bytes and fewer are stored in the header of their dataset. -/
def compactMaxBytes : ℕ := 56 * 1024

/-- The dataset of the hashes beside the columns of a packed one. -/
def companionName (name : String) : String := name ++ String.ofList hashSuffix

/-- The dataset of an array stored on its own. -/
def standaloneName (hash : Hash32) : String := String.ofList (standalonePrefix ++ hashHex hash)

/-- The dataset of an explicit time axis. -/
def timestampsPrefix : List Char := "tsv_".toList

def timestampsDatasetName (hash : Hash32) : String :=
  String.ofList (timestampsPrefix ++ hashHex hash)

/-- The row of a companion that names an array, or none. -/
def hashRow : Option Hash32 → List UInt8
  | some hash => utf8 (hashHex hash)
  | none => List.replicate 64 0

namespace Hdf5File

variable {D : Type} [H5Library D]

/-- The library takes a step, or fails at it. -/
def step (kind : H5Step) : StoreCmd (Hdf5File D) Unit := do
  let s ← get
  let next := s.faults.next kind
  set { s with faults := next.2 }
  if next.1 then throw (.integrityError "hdf5: the operation failed")

def ensureWritable : StoreCmd (Hdf5File D) Unit := do
  let s ← get
  if s.readOnly then throw .readOnlyStore

/-- Create a dataset in the group of arrays. -/
def createDs (name : String) (dtype : Dtype) (shape : List ℕ) (chunks : Option (List ℕ)) :
    StoreCmd (Hdf5File D) Unit := do
  step .create
  let s ← get
  if (FMap.get s.single name).isSome then
    throw (.integrityError "hdf5: unable to create dataset (name already exists)")
  let d ← Cmd.ofExcept (H5Library.create dtype shape chunks)
  modify fun s => { s with single := s.single.insert name d }

/-- Write the elements of a hyperslab of a dataset. -/
def writeSel (kind : H5Step) (name : String) (dtype : Dtype) (bytes : List UInt8)
    (shape : List ℕ) (ranges : List (ℕ × ℕ)) : StoreCmd (Hdf5File D) Unit := do
  let s ← get
  let d ← Cmd.ofExcept (s.dataset name)
  if bytes.length ≠ shape.prod * dtype.size then
    throw (.integrityError "shape error: incompatible shapes")
  step kind
  let d ← Cmd.ofExcept (H5Library.writeSlice d dtype ranges bytes)
  modify fun s => { s with single := s.single.insert name d }

/-- Drop a dataset from the group of arrays. -/
def unlink (name : String) : StoreCmd (Hdf5File D) Unit := do
  step .remove
  let s ← get
  if (FMap.get s.single name).isNone then
    throw (.integrityError "hdf5: unable to delete link (name does not exist)")
  modify fun s => { s with single := s.single.erase name }

def writeHashRow (kind : H5Step) (hashName : String) (col : ℕ) (hash : Option Hash32) :
    StoreCmd (Hdf5File D) Unit :=
  writeSel kind hashName .bool (hashRow hash) [1, 64] [(col, col + 1), (0, 64)]

/-! ### Packed arrays -/

/-- Create a packed dataset and the companion that names the arrays in its columns. -/
def createPackedDataset (name : String) (k : PoolKey Hash32) (requestedCols : Option ℕ) :
    StoreCmd (Hdf5File D) Unit := do
  let cols := resolveDatasetCols requestedCols k.dtype k.elementShape
  let rows := packedChunkRows k.dtype k.elementShape cols k.length
  createDs name k.dtype (k.length :: cols :: k.elementShape) (some (rows :: cols :: k.elementShape))
  match ← Cmd.attempt (createDs (companionName name) .bool [cols, 64] none) with
  | .error e => do
    -- A dataset without its companion would make the file impossible to open.
    let _ ← Cmd.attempt (unlink name)
    throw e
  | .ok _ => modify fun s =>
    { s with
      datasets := s.datasets.insert name
        { hashName := companionName name, dtype := k.dtype, elementShape := k.elementShape,
          length := k.length, columns := List.replicate cols none }
      datasetGroups := s.datasetGroups.insert k
        (((FMap.get s.datasetGroups k).getD []).orderedInsert (· ≤ ·) name) }

/-- The dataset of a pool that has a free column, or a new one. -/
def ensureWritableDataset (k : PoolKey Hash32) : StoreCmd (Hdf5File D) String := do
  let s ← get
  let names := (FMap.get s.datasetGroups k).getD []
  match names.find? fun name => (FMap.get s.datasets name).any fun st => !st.full with
  | some name => pure name
  | none => do
    let newName := String.ofList (spillName (datasetBaseName k) names.length)
    createPackedDataset newName k none
    pure newName

/-- One array into the first free column of its pool. -/
def putPacked (hash : Hash32) (data : TypedArray) (group : PackGroup Hash32) :
    StoreCmd (Hdf5File D) Unit := do
  let k := poolKey data group
  let name ← ensureWritableDataset k
  let s ← get
  let st ← Cmd.ofExcept (s.datasetState name)
  match st.firstFree with
  | none => throw (.integrityError "no free slot in newly-ensured dataset")
  | some col => do
    writeSel .write name data.dtype data.bytes (st.slabShape 1)
      (packedRanges (0, data.length) col data.elementShape)
    writeHashRow .write st.hashName col (some hash)
    -- The two writes leave the index as it was.
    modify fun s =>
      { s with
        datasets := s.datasets.insert name { st with columns := st.columns.set col (some hash) }
        byHash := s.byHash.insert hash (.packed name col) }

/-- The arrays of a segment, one step of each after the other, step by step; each must hold the bytes its
shape asks for. -/
def interleave (k : PoolKey Hash32) (seg : List (Hash32 × TypedArray)) : Result (List UInt8) := do
  let block := elementBlockBytes k.dtype k.elementShape
  let needed := k.length * block
  seg.forM fun i =>
    if i.2.bytes.length < needed then
      throw (.integrityError
        s!"array holds {i.2.bytes.length} bytes but its shape {i.2.shape} describes {needed} bytes")
    else pure ()
  pure ((List.range k.length).flatMap fun t =>
    seg.flatMap fun i => (i.2.bytes.drop (t * block)).take block)

/-- A segment of a block: a dataset of its own, as wide as the segment. -/
def putPackedSegment (seg : List (Hash32 × TypedArray)) (k : PoolKey Hash32) :
    StoreCmd (Hdf5File D) Unit := do
  let width := seg.length
  let s ← get
  let count := ((FMap.get s.datasetGroups k).getD []).length
  let name := String.ofList (spillName (datasetBaseName k) count)
  createPackedDataset name k (some width)
  let buf ← Cmd.ofExcept (interleave k seg)
  writeSel .write name k.dtype buf (k.length :: width :: k.elementShape)
    (packedBlockRanges (0, k.length) (0, width) k.elementShape)
  writeSel .write (companionName name) .bool (seg.flatMap fun i => hashRow (some i.1)) [width, 64]
    [(0, width), (0, 64)]
  let s ← get
  let st ← Cmd.ofExcept (s.datasetState name)
  modify fun s =>
    { s with
      datasets := s.datasets.insert name
        { st with columns := (seg.map fun i => some i.1) ++ st.columns.drop width }
      byHash := seg.zipIdx.foldl (fun m i => m.insert i.1.1 (.packed name i.2)) s.byHash }

/-- Which items of a block are new: neither stored nor earlier in it. -/
def selectNew (stored : Hash32 → Bool) : List Hash32 → List (Hash32 × TypedArray) → List Bool
  | _, [] => []
  | seen, i :: items =>
    if stored i.1 || seen.contains i.1 then false :: selectNew stored seen items
    else true :: selectNew stored (i.1 :: seen) items

/-- The segments of a block, each as wide as a dataset may be. -/
def segmentsOf {α : Type} (dtype : Dtype) (elementShape : List ℕ) : ℕ → List α → List (List α)
  | 0, _ => []
  | _, [] => []
  | fuel + 1, items =>
    let width := resolveDatasetCols (some items.length) dtype elementShape
    items.take width :: segmentsOf dtype elementShape fuel (items.drop width)

/-! ### Removal -/

/-- Drop an array from the index and make its bytes unreachable. -/
def removeArrayLocked (hash : Hash32) : StoreCmd (Hdf5File D) Unit := do
  let s ← get
  match FMap.get s.byHash hash with
  | none => pure ()
  | some (.standalone var) => do
    unlink var
    modify fun s =>
      { s with standaloneVars := s.standaloneVars.filter (· ≠ var), byHash := s.byHash.erase hash }
  | some (.packed name col) => do
    let st ← Cmd.ofExcept (s.datasetState name)
    writeHashRow .remove st.hashName col none
    if 0 < st.length then
      writeSel .remove name st.dtype (List.replicate ((st.slabShape 1).prod * st.dtype.size) 0)
        (st.slabShape 1) (packedRanges (0, st.length) col st.elementShape)
    modify fun s =>
      { s with
        datasets := s.datasets.insert name { st with columns := st.columns.set col none }
        byHash := s.byHash.erase hash }

/-- Remove arrays, whatever becomes of each removal. -/
def unwindSegments : List (Hash32 × TypedArray) → StoreCmd (Hdf5File D) Unit
  | [] => pure ()
  | i :: items => do
    let _ ← Cmd.attempt (removeArrayLocked i.1)
    unwindSegments items

/-- The segments of a block one after the other; where one fails, those before it are taken back. -/
def putSegments (k : PoolKey Hash32) :
    List (Hash32 × TypedArray) → List (List (Hash32 × TypedArray)) → StoreCmd (Hdf5File D) Unit
  | _, [] => pure ()
  | done, seg :: rest => do
    match ← Cmd.attempt (putPackedSegment seg k) with
    | .error e => do
      unwindSegments done
      throw e
    | .ok _ => putSegments k (done ++ seg) rest

/-- A block of arrays of one shape into datasets of their own; which of them were written. -/
def putPackedBlock (items : List (Hash32 × TypedArray)) (group : PackGroup Hash32) :
    StoreCmd (Hdf5File D) (List Bool) := do
  ensureWritable
  let s ← get
  let written := selectNew (fun h => (FMap.get s.byHash h).isSome) [] items
  let new := ((items.zip written).filter Prod.snd).map Prod.fst
  match new with
  | [] => pure written
  | first :: _ => do
    let k := poolKey first.2 group
    putSegments k [] (segmentsOf k.dtype k.elementShape new.length new)
    pure written

/-! ### Arrays on their own -/

def putStandalone (hash : Hash32) (data : TypedArray) (windowAxis : Option ℕ) :
    StoreCmd (Hdf5File D) Unit := do
  let var := standaloneName hash
  let s ← get
  if s.standaloneVars.contains var then
    set { s with byHash := s.byHash.insert hash (.standalone var) }
  else do
    createDs var data.dtype data.shape
      (if data.bytes.length ≤ compactMaxBytes ∨ 0 ∈ data.shape then none
      else some (standaloneChunks data windowAxis))
    if data.bytes ≠ [] then
      match ← Cmd.attempt (writeAll var data.dtype data.bytes) with
      | .error e => do
        -- A dataset that was not written would be taken for the array when the file is opened.
        let _ ← Cmd.attempt (unlink var)
        throw e
      | .ok _ => pure ()
    modify fun s =>
      { s with
        standaloneVars := s.standaloneVars ++ [var]
        byHash := s.byHash.insert hash (.standalone var)
        writtenAs := s.writtenAs.insert hash data.dtype }
where
  writeAll (var : String) (dtype : Dtype) (bytes : List UInt8) : StoreCmd (Hdf5File D) Unit := do
    step .write
    let s ← get
    let d ← Cmd.ofExcept (s.dataset var)
    let d ← Cmd.ofExcept (H5Library.writeRaw d dtype bytes)
    modify fun s => { s with single := s.single.insert var d }

def putArray (hash : Hash32) (data : TypedArray) (group : PackGroup Hash32) (layout : ArrayLayout) :
    StoreCmd (Hdf5File D) Bool := do
  ensureWritable
  let s ← get
  if (FMap.get s.byHash hash).isSome then pure false
  else do
    match layout with
    | .packed => putPacked hash data group
    | .standalone => putStandalone hash data none
    | .standaloneWindowed countAxis => putStandalone hash data (some countAxis)
    pure true

def removeArray (hash : Hash32) : StoreCmd (Hdf5File D) Unit := do
  ensureWritable
  removeArrayLocked hash

/-! ### Time axes -/

/-- Store an explicit time axis; `false` if it is stored already. -/
def putTimestamps (hash : Hash32) (instants : List DateTime) : StoreCmd (Hdf5File D) Bool := do
  ensureWritable
  let s ← get
  if s.timestampHashes.contains hash then pure false
  else do
    let name := timestampsDatasetName hash
    let millis := toMillis instants
    step .create
    let s ← get
    if (FMap.get s.timestamps name).isSome then
      throw (.integrityError "hdf5: unable to create dataset (name already exists)")
    modify fun s =>
      { s with timestamps := s.timestamps.insert name (List.replicate millis.length 0) }
    if millis ≠ [] then
      match ← Cmd.attempt (step .write) with
      | .error e => do
        let _ ← Cmd.attempt (unlinkTimestamps name)
        throw e
      | .ok _ => modify fun s => { s with timestamps := s.timestamps.insert name millis }
    modify fun s => { s with timestampHashes := s.timestampHashes ++ [hash] }
    pure true
where
  unlinkTimestamps (name : String) : StoreCmd (Hdf5File D) Unit := do
    step .remove
    let s ← get
    if (FMap.get s.timestamps name).isNone then
      throw (.integrityError "hdf5: unable to delete link (name does not exist)")
    modify fun s => { s with timestamps := s.timestamps.erase name }

def getTimestamps (s : Hdf5File D) (hash : Hash32) : Result (List DateTime) :=
  if !s.timestampHashes.contains hash then .error .notFound
  else
    match FMap.get s.timestamps (timestampsDatasetName hash) with
    | none => .error .notFound
    | some millis => mapErr .integrityError (fromMillis millis)

/-- Drop an explicit time axis; the index gives it up before the file does. -/
def removeTimestamps (hash : Hash32) : StoreCmd (Hdf5File D) Unit := do
  ensureWritable
  let s ← get
  if s.timestampHashes.contains hash then do
    modify fun s => { s with timestampHashes := s.timestampHashes.filter (· ≠ hash) }
    putTimestamps.unlinkTimestamps (timestampsDatasetName hash)

def flush : StoreCmd (Hdf5File D) Unit := do
  let s ← get
  if !s.readOnly then step .write

/-! ### Opening a file -/

/-- The hash in one row of a companion; a row that starts with a zero byte is of a free column. -/
def columnHash (hashName : String) (i : ℕ) (row : List UInt8) : Result (Option Hash32) :=
  if row.headD 0 = 0 then .ok none
  else
    match String.fromUTF8? ⟨row.toArray⟩ with
    | none => .error (.integrityError s!"bad hash row {i} in {hashName}")
    | some hex => (hexToHash hex.toList).map some

/-- The index with the arrays of one packed dataset. -/
def indexPacked (s : Hdf5File D) (name : String) (k : PoolKey Hash32) : Result (Hdf5File D) := do
  let hashName := companionName name
  match FMap.get s.single hashName with
  | none => .error (.integrityError s!"missing hash dataset {hashName}")
  | some hashes => do
    let raw ← H5Dataset.readRaw hashes .u8
    let columns ← ((List.range (raw.length / 64)).map fun i => ((raw.drop (i * 64)).take 64, i)).mapM
      fun row => columnHash hashName row.2 row.1
    pure
      { s with
        byHash := columns.zipIdx.foldl (fun m c => match c.1 with
          | some hash => m.insert hash (.packed name c.2)
          | none => m) s.byHash
        datasetGroups := s.datasetGroups.insert k (((FMap.get s.datasetGroups k).getD []) ++ [name])
        datasets := s.datasets.insert name
          { hashName, dtype := k.dtype, elementShape := k.elementShape, length := k.length, columns } }

/-- The index with one member of the group of arrays. -/
def indexMember (s : Hdf5File D) (name : String) : Result (Hdf5File D) := do
  match ← classify name.toList with
  | .companion => pure s
  | .standalone hash =>
    pure { s with standaloneVars := s.standaloneVars ++ [name]
                  byHash := s.byHash.insert hash (.standalone name) }
  | .packed k => indexPacked s name k

/-- The index with one member of the group of time axes. -/
def indexTimestamps (s : Hdf5File D) (name : String) : Result (Hdf5File D) :=
  if timestampsPrefix.isPrefixOf name.toList then do
    let hash ← hexToHash (name.toList.drop timestampsPrefix.length)
    pure { s with timestampHashes := s.timestampHashes ++ [hash] }
  else .error (.integrityError s!"unexpected object {name} in the timestamps group")

/-- The file as it is before its index is built. -/
def unindexed (s : Hdf5File D) (readOnly : Bool) : Hdf5File D :=
  { s with readOnly, datasets := ∅, byHash := ∅, datasetGroups := ∅, standaloneVars := [],
           timestampHashes := [] }

/-- Sort the datasets of every pool. -/
def sortGroups (s : Hdf5File D) : Hdf5File D :=
  { s with datasetGroups := s.datasetGroups.keys.foldl (fun m k =>
      m.insert k (((FMap.get s.datasetGroups k).getD []).insertionSort (· ≤ ·))) s.datasetGroups }

/-- Open a file: its index is rebuilt from the names of its members and the companions. -/
def rebuildIndex (s : Hdf5File D) (readOnly : Bool) : Result (Hdf5File D) := do
  let arrays ← s.single.keys.foldlM indexMember (unindexed s readOnly)
  s.timestamps.keys.foldlM indexTimestamps (sortGroups arrays)

/-- A file just created. -/
def fresh (faults : H5Faults) : Hdf5File D :=
  { single := ∅, datasets := ∅, byHash := ∅, readOnly := false, datasetGroups := ∅,
    standaloneVars := [], timestamps := ∅, timestampHashes := [], faults, writtenAs := ∅ }

end Hdf5File

end InfraStore
