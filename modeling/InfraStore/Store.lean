import InfraStore.ArrayStore
import InfraStore.Associations

/-!
# The store

A catalog connection over an array store, and the transactions that span both.

* `OpenTxn`: what an open transaction remembers, one `Mark` a nesting level;
* `beginTransaction`, `commitTransaction`, `rollbackTransaction`: the levels;
* `addRequests`, `removeByIdsInner`, `clearTimeSeries`, `replaceOwner`, `copyTimeSeries`,
  `importAssociationRows`: the writes, each atomic on its own;
* `flush`, `setWriteBufferBytes`, `compact`: moving arrays to the file, and reclaiming shared sets.
-/

namespace InfraStore

open Lib

/-! ### State -/

/-- How much of each list of objects belonged to the enclosing nesting level. -/
structure Mark where
  arrays : ℕ
  timestamps : ℕ
  deriving DecidableEq

namespace FileObjects

variable {H : Type}

def mark (o : FileObjects H) : Mark := ⟨o.arrays.length, o.timestamps.length⟩

/-- What was recorded up to a mark. -/
def upTo (o : FileObjects H) (m : Mark) : FileObjects H :=
  ⟨o.arrays.take m.arrays, o.timestamps.take m.timestamps⟩

/-- What was recorded since a mark. -/
def since (o : FileObjects H) (m : Mark) : FileObjects H :=
  ⟨o.arrays.drop m.arrays, o.timestamps.drop m.timestamps⟩

end FileObjects

/-- The bookkeeping of an open transaction, its marks innermost first; empty when none is open. -/
structure OpenTxn (H : Type) where
  marks : List Mark
  written : FileObjects H
  pendingFree : FileObjects H
  sharedSets : SharedSetCache H

/-- No transaction. -/
def OpenTxn.empty {H : Type} : OpenTxn H := ⟨[], .empty, .empty, .empty⟩

/-- What the innermost level wrote, and the bookkeeping without that level. -/
def OpenTxn.unwind {H : Type} (t : OpenTxn H) : FileObjects H × OpenTxn H :=
  match t.marks with
  | [] => (.empty, t)
  | m :: outer =>
    (t.written.since m,
      if outer = [] then .empty else { t with marks := outer, written := t.written.upTo m })

/-- A store: the catalog connection, the arrays and the open transaction. -/
structure Store (H B : Type) where
  conn : Connection H
  arrays : ArrayStore H B
  txn : OpenTxn H

namespace Store

variable {H B : Type}

/-- The catalog as the connection sees it. -/
def db (s : Store H B) : Catalog H := s.conn.db

def inTransaction (s : Store H B) : Bool := !s.txn.marks.isEmpty

/-- Marks stand while the connection is back in autocommit. -/
def transactionWasForcedBack (s : Store H B) : Bool := s.inTransaction && s.conn.inAutocommit

/-- Run catalog statements. -/
def onConn {α : Type} (c : StoreCmd (Connection H) α) : StoreCmd (Store H B) α :=
  Cmd.zoom Store.conn (fun conn s => { s with conn }) c

/-- Run a command of the array store. -/
def onArrays {α : Type} (c : StoreCmd (ArrayStore H B) α) : StoreCmd (Store H B) α :=
  Cmd.zoom Store.arrays (fun arrays s => { s with arrays }) c

/-- Change the transaction's bookkeeping. -/
def modifyTxn (f : OpenTxn H → OpenTxn H) : StoreCmd (Store H B) Unit :=
  modify fun s => { s with txn := f s.txn }

/-- Refuse to open a transaction or write once the engine has rolled the open one back. -/
def checkTransactionAlive : StoreCmd (Store H B) Unit := do
  let s ← get
  if s.transactionWasForcedBack then
    throw (.invalidParameter
      "the open transaction was rolled back by SQLite after a failed statement, so nothing it did remains; call rollback_transaction to discard it before writing again")

/-- The innermost open nesting level, 0 for the outermost. -/
def innermostLevel : StoreCmd (Store H B) ℕ := do
  let s ← get
  if s.txn.marks.length = 0 then
    throw (.invalidParameter "no transaction is open on this store")
  pure (s.txn.marks.length - 1)

/-- Forget every shared set the transaction has interned. -/
def invalidateSharedSets : StoreCmd (Store H B) Unit :=
  modifyTxn fun t => { t with sharedSets := .empty }

/-- Take the shared sets of an open transaction out for the length of a call. -/
def takeSharedSets : StoreCmd (Store H B) (SharedSetCache H) := do
  let s ← get
  if s.inTransaction then do
    invalidateSharedSets
    pure s.txn.sharedSets
  else pure .empty

/-- Put the shared sets of an open transaction back. -/
def returnSharedSets (cache : SharedSetCache H) : StoreCmd (Store H B) Unit := do
  let s ← get
  if s.inTransaction then modifyTxn fun t => { t with sharedSets := cache }

/-- Run catalog work inside a savepoint of its own, unless the transaction is gone. -/
def writeCatalog {α : Type} (work : StoreCmd (Connection H) α) : StoreCmd (Store H B) α := do
  checkTransactionAlive
  onConn (Connection.withSavepoint work)

/-- Refuse an action on the files while a transaction is open. -/
def refuseInTransaction (action : String) : StoreCmd (Store H B) Unit := do
  let s ← get
  if s.inTransaction then
    throw (.invalidParameter s!"cannot {action} while a transaction is open; commit or roll back first")

/-- Run one of the statements that drive a transaction. -/
def executeTxnStmt (work : StoreCmd (Connection H) Unit) : StoreCmd (Store H B) Unit := do
  let s ← get
  if s.conn.readOnly then throw .readOnlyStore
  onConn work

section

variable [DecidableEq H] [ArrayBackend H B]

/-! ### Removing what is unreachable -/

/-- Remove objects from wherever they are; a removal that fails leaves an orphan. -/
def removeWrites (writes : FileObjects H) : StoreCmd (ArrayStore H B) Unit := do
  writes.arrays.forM fun h => do
    let _ ← (ArrayStore.removeArray h).attempt
  writes.timestamps.forM fun t => do
    let _ ← (ArrayStore.onBackend (ArrayBackend.removeTimestamps t)).attempt

/-- Take hashes out of the buffer; those that were not in it. -/
def retainStored : List H → WriteBuffer H → List H × WriteBuffer H
  | [], buffer => ([], buffer)
  | h :: hs, buffer =>
    let (dropped, buffer) := buffer.remove h
    let (stored, buffer) := retainStored hs buffer
    (if dropped then stored else h :: stored, buffer)

/-- Remove what a rolled-back level wrote: the buffered arrays at once, the stored ones if the catalog
can be counted and names them no more. -/
def unwindWritten (written : FileObjects H) : StoreCmd (Store H B) Unit := do
  let s ← get
  let (stored, buffer) := retainStored written.arrays s.arrays.buffer
  set { s with arrays := { s.arrays with buffer } }
  match ← (onConn (unreferenced ⟨stored, written.timestamps⟩)).attempt with
  | .ok garbage => onArrays (removeWrites garbage)
  | .error _ => pure ()

/-- Free what a removal left unreferenced, or defer it to the outermost commit. -/
def freeOrDefer (garbage : FileObjects H) : StoreCmd (Store H B) Unit := do
  let s ← get
  if s.inTransaction then
    modifyTxn fun t => { t with pendingFree := t.pendingFree.append garbage }
  else onArrays (removeWrites garbage)

/-- Close out a write call: hand what it wrote to the transaction, or undo it. -/
def settle {α : Type} (staged : FileObjects H) (result : Result α) : StoreCmd (Store H B) α := do
  match result with
  | .ok a => do
    let s ← get
    if s.inTransaction then modifyTxn fun t => { t with written := t.written.append staged }
    pure a
  | .error e => do
    onArrays (removeWrites staged)
    throw e

/-! ### Transactions -/

/-- Open a nesting level. -/
def beginTransaction : StoreCmd (Store H B) Unit := do
  checkTransactionAlive
  onConn Connection.savepoint
  modifyTxn fun t => { t with marks := t.written.mark :: t.marks }

/-- Write the transaction's arrays to the file, but for those the commit will remove. -/
def flushWritten (garbage : FileObjects H) : StoreCmd (Store H B) Unit := do
  let s ← get
  if s.txn.written.isEmpty then pure ()
  else do
    onArrays (ArrayStore.writeAllExcept garbage.arrays)
    onArrays (ArrayStore.onBackend ArrayBackend.flush)

/-- Commit the innermost level; the outermost one also applies the deferred frees. -/
def commitTransaction : StoreCmd (Store H B) Unit := do
  let level ← innermostLevel
  checkTransactionAlive
  if 0 < level then do
    executeTxnStmt Connection.release
    modifyTxn fun t => { t with marks := t.marks.tail }
  else do
    let s ← get
    let garbage ← onConn (unreferenced s.txn.pendingFree)
    flushWritten garbage
    executeTxnStmt Connection.release
    modifyTxn fun _ => .empty
    onArrays (removeWrites garbage)

/-- Roll the innermost level back, or discard every level of a transaction the engine has rolled back
on its own. -/
def rollbackTransaction : StoreCmd (Store H B) Unit := do
  let _ ← innermostLevel
  let s ← get
  if s.transactionWasForcedBack then do
    modifyTxn fun _ => .empty
    unwindWritten s.txn.written
  else do
    executeTxnStmt (do
      Connection.rollbackTo
      Connection.release)
    invalidateSharedSets
    let s ← get
    modifyTxn fun t => t.unwind.2
    unwindWritten s.txn.unwind.1
    checkTransactionAlive

/-! ### Writing the buffer out -/

/-- Write the buffer out, then flush the file. -/
def flushArrays : StoreCmd (ArrayStore H B) Unit := do
  ArrayStore.writeAllExcept []
  ArrayStore.onBackend ArrayBackend.flush

/-- Checkpoint the catalog, which changes nothing in it, and flush the arrays. -/
def flush : StoreCmd (Store H B) Unit := do
  onConn (Connection.query fun _ => .ok ())
  onArrays flushArrays

/-- Set the buffer's budget, writing blocks out until it is met. -/
def setWriteBufferBytes (bytes : ℕ) : StoreCmd (Store H B) Unit := do
  if bytes = 0 then throw (.invalidParameter "write_buffer_bytes must be greater than zero")
  onArrays (do
    ArrayStore.modifyBuffer fun w => { w with maxBytes := bytes }
    ArrayStore.evictOverBudget)

/-! ### Adding -/

/-- A write call in progress: the store and what the call has physically written. -/
structure Staging (H B : Type) where
  store : Store H B
  staged : FileObjects H

namespace Staging

/-- Run a command of the store. -/
def onStore {α : Type} (c : StoreCmd (Store H B) α) : StoreCmd (Staging H B) α :=
  Cmd.zoom Staging.store (fun store t => { t with store }) c

/-- Record an array this call wrote. -/
def stageArray (h : H) : StoreCmd (Staging H B) Unit :=
  modify fun t => { t with staged := { t.staged with arrays := t.staged.arrays ++ [h] } }

/-- Write an explicit time axis, unless the batch or the store holds it. -/
def stageTimestampVector (group : PackGroup H) (timestamps : Option (List DateTime))
    (seen : SharedSetCache H) : StoreCmd (Staging H B) (SharedSetCache H) := do
  match group, timestamps with
  | .irregular h, some ts =>
    if h ∈ seen.timestamps then pure seen
    else do
      let stored ← onStore (onArrays (ArrayStore.onBackend (ArrayBackend.putTimestamps h ts)))
      if stored then
        modify fun t =>
          { t with staged := { t.staged with timestamps := t.staged.timestamps ++ [h] } }
      pure (seen.noteTimestamps h)
  | _, _ => pure seen

/-- Write the time axes of a batch. -/
def stageTimestampVectors : List (RequestParts H) → SharedSetCache H →
    StoreCmd (Staging H B) (SharedSetCache H)
  | [], seen => pure seen
  | p :: ps, seen => do
    let seen ← stageTimestampVector p.group p.metadata.timestamps seen
    stageTimestampVectors ps seen

/-- Store one array on its own, staged if this call stored it. -/
def stagePut (array : TypedArray) (p : RequestParts H) : StoreCmd (Staging H B) Unit := do
  let t ← get
  let stored ← onStore (onArrays
    (ArrayStore.putArray t.store.inTransaction p.hash array p.group p.layout))
  if stored then stageArray p.hash

/-- The first request of each hash. -/
def firstOfHash : List (TypedArray × RequestParts H) → List H → List (TypedArray × RequestParts H)
  | [], _ => []
  | x :: xs, seen =>
    if x.2.hash ∈ seen then firstOfHash xs seen else x :: firstOfHash xs (x.2.hash :: seen)

/-- Put an array into its pool's block, pools in the order they first appear. -/
def insertPool (key : PoolKey H) (item : H × TypedArray) :
    List (PoolKey H × List (H × TypedArray)) → List (PoolKey H × List (H × TypedArray))
  | [] => [(key, [item])]
  | (k, items) :: pools =>
    if k = key then (k, items ++ [item]) :: pools else (k, items) :: insertPool key item pools

/-- The packed arrays of a batch, a block a pool. -/
def groupPools (xs : List (TypedArray × RequestParts H)) :
    List (PoolKey H × List (H × TypedArray)) :=
  xs.foldl (fun pools x => insertPool (poolKey x.1 x.2.group) (x.2.hash, x.1) pools) []

/-- Write one pool's block, staging what this call stored. -/
def stageBlock (pool : PoolKey H × List (H × TypedArray)) : StoreCmd (Staging H B) Unit := do
  let written ← onStore (onArrays (ArrayStore.onBackend (putBlock pool.2 pool.1.group)))
  let new := ((pool.2.zip written).filter (·.2)).map (·.1.1)
  modify fun t => { t with staged := { t.staged with arrays := t.staged.arrays ++ new } }

/-- Write the arrays of a batch: each into the buffer while a transaction is open, otherwise the
packed ones a block a pool and the rest one by one. -/
def stageArrays (xs : List (TypedArray × RequestParts H)) : StoreCmd (Staging H B) Unit := do
  let t ← get
  if t.store.inTransaction then xs.forM fun x => stagePut x.1 x.2
  else do
    let first := firstOfHash xs []
    (first.filter fun x => !x.2.layout.isPacked).forM fun x => stagePut x.1 x.2
    (groupPools (first.filter fun x => x.2.layout.isPacked)).forM stageBlock

/-- Flush the file before the rows that name its objects commit, if the call wrote any. -/
def flushBeforeCommit : StoreCmd (Staging H B) Unit := do
  let t ← get
  if t.staged.isEmpty then pure ()
  else onStore (onArrays (ArrayStore.onBackend ArrayBackend.flush))

end Staging

end

section

variable [DecidableEq H] [ArrayBackend H B] [Sha256 H] [FloatText]

open Staging in
/-- File the rows of a batch: in a savepoint of its own, which the flush comes before, but for one
row inside an open transaction. -/
def fileRows (inTxn : Bool) (ms : List (TimeSeriesMetadata H)) (cache : SharedSetCache H) :
    StoreCmd (Staging H B) (List ℤ × SharedSetCache H) :=
  if !inTxn || 1 < ms.length then do
    onStore (onConn Connection.savepoint)
    let r ← (do
      let out ← onStore (onConn (insertAll insertAssociation ms cache))
      if !inTxn then flushBeforeCommit
      pure out : StoreCmd (Staging H B) (List ℤ × SharedSetCache H)).attempt
    onStore (onConn (Connection.closeSavepoint r))
  else onStore (onConn (insertAll insertAssociation ms cache))

open Staging in
/-- The body of an add, recording what it physically wrote.  The shared sets of an open transaction
are taken out for the call and put back when it succeeds. -/
def addRequestsStaged (items : List AddRequest) : StoreCmd (Staging H B) (List ℤ) := do
  let t ← get
  if t.store.conn.readOnly then throw .readOnlyStore
  onStore checkTransactionAlive
  if items = [] then pure []
  else do
    let parts ← Cmd.ofExcept (items.mapM buildRequestParts)
    let inTxn := t.store.inTransaction
    let taken ← onStore takeSharedSets
    let cache ← stageTimestampVectors parts taken
    stageArrays ((items.map (·.data.fields.data)).zip parts)
    let out ← fileRows inTxn (parts.map (·.metadata)) cache
    onStore (returnSharedSets out.2)
    pure out.1

/-- The one write path every add takes: all of the requests, or none. -/
def addRequests (items : List AddRequest) : StoreCmd (Store H B) (List ℤ) := do
  let s ← get
  let (result, t) := (addRequestsStaged items).exec ⟨s, .empty⟩
  set t.store
  settle t.staged result

/-! ### Removing and moving -/

/-- Remove the rows named by ids, all or none, and the arrays no row names any more. -/
def removeByIdsInner (ids : List ℤ) (expectedOwner : Option (ℤ × OwnerCategory)) :
    StoreCmd (Store H B) ℕ := do
  let out ← writeCatalog (do
    let removed ← deleteIds expectedOwner ids []
    checkNoOrphanedDst (removed.filter (·.timeSeriesType = .singleTimeSeries)) []
    let arrays ← unreferencedIn Catalog.referencesArray (removed.map (·.dataHash)) []
    pure (removed.length, arrays))
  freeOrDefer ⟨out.2, []⟩
  pure out.1

/-- The stored time axes no row names. -/
def orphanedTimestampVectors : StoreCmd (Store H B) (List H) := do
  let referenced ← onConn (Connection.query fun db => .ok (db.rows.filterMap (·.timestampsHash)))
  let s ← get
  pure ((ArrayBackend.timestampHashes s.arrays.backend).filter (· ∉ referenced))

/-- Remove an owner's series, or every series, and the time axes that leaves unnamed. -/
def clearTimeSeries (owner : Option (ℤ × OwnerCategory)) : StoreCmd (Store H B) ℕ := do
  invalidateSharedSets
  let out ← writeCatalog (do
    let removed ← match owner with
      | some (id, category) => deleteByOwner id category
      | none => deleteAll
    let arrays ← unreferencedIn Catalog.referencesArray removed []
    pure (removed.length, arrays))
  let swept ← orphanedTimestampVectors.attempt
  checkTransactionAlive
  freeOrDefer ⟨out.2, match swept with | .ok timestamps => timestamps | .error _ => []⟩
  pure out.1

/-- Delete every time axis no row names; the number that went. -/
def sweepOrphanTimestampVectors : StoreCmd (Store H B) ℕ := do
  let orphans ← orphanedTimestampVectors
  onArrays (orphans.forM fun t => ArrayStore.onBackend (ArrayBackend.removeTimestamps t))
  pure orphans.length

/-- Reclaim the shared sets no row names: the feature sets, then the time axes.  The number of time
axes reclaimed. -/
def compact : StoreCmd (Store H B) ℕ := do
  let s ← get
  if s.conn.readOnly then throw .readOnlyStore
  refuseInTransaction "compact"
  flush
  invalidateSharedSets
  writeCatalog (Connection.statement fun db => .ok ((), db.sweepOrphanFeatureSets))
  sweepOrphanTimestampVectors

/-- Reassign an owner's series; only rows change. -/
def replaceOwner (oldOwner newOwner : ℤ) (category : OwnerCategory) : StoreCmd (Store H B) ℕ :=
  writeCatalog (replaceOwnerRows oldOwner newOwner category)

/-! ### Copying and importing rows -/

/-- The row a copy files: the source's, on another owner and under a new name if one is given. -/
def copiedRow (m : TimeSeriesMetadata H) (dstOwnerId : ℤ) (dstOwnerType : String)
    (newName : Option String) : TimeSeriesMetadata H :=
  { m with ownerId := dstOwnerId, ownerType := dstOwnerType, name := newName.getD m.name, id := none }

/-- Copy an association onto another owner; the array is shared. -/
def copyTimeSeries [ToString H] (src dstOwnerId : ℤ) (dstOwnerType : String)
    (newName : Option String) : StoreCmd (Store H B) ℤ := do
  let s ← get
  if s.conn.readOnly then throw .readOnlyStore
  let found ← onConn (Connection.query fun db =>
    db.getById (ArrayBackend.getTimestamps s.arrays.backend) src)
  match found with
  | none => throw .notFound
  | some source => do
    let m := copiedRow source dstOwnerId dstOwnerType newName
    let taken ← onConn (Connection.query fun db => .ok (db.existsIdentity m))
    if taken then throw .duplicateTimeSeries
    writeCatalog (do
      checkForecastFamilyFree m "copy"
      let out ← insertBatched m .empty
      pure out.1)

/-- The shape of a held array. -/
def arrayShape (s : ArrayStore H B) (h : H) : Result (List ℕ) :=
  match s.buffer.get h with
  | some a => .ok a.shape
  | none => ArrayBackend.arrayShape s.backend h

/-- An irregular row to import names a stored axis, of the length it declares. -/
def checkImportAxis [ToString H] (s : ArrayStore H B) (m : TimeSeriesMetadata H) : Result Unit :=
  let kind := m.timeSeriesType.asStr
  match m.timestamps with
  | none => .error (.invalidParameter
      s!"cannot import {kind} '{m.name}' (owner {m.ownerId}): the row names no time axis, and one cannot be inferred from the values — two irregular series with identical values on different axes share one content-addressed array. A document supplies the axis as `timestamps_uri`")
  | some timestamps =>
    match m.length.filter (· ≠ timestamps.length) with
    | some length => .error (.invalidParameter
        s!"cannot import {kind} '{m.name}' (owner {m.ownerId}): it declares length {length} but names a time axis of {timestamps.length} timestamps")
    | none =>
      let axisHash : H := timestampsHash timestamps
      if axisHash ∉ ArrayBackend.timestampHashes s.backend then .error (.invalidParameter
        s!"cannot import {kind} '{m.name}' (owner {m.ownerId}): it names time axis {axisHash}, which this store does not hold — the axis arrives with the artifact, like the arrays")
      else .ok ()

/-- A row to import names a stored axis and a held array of the shape it declares. -/
def checkImportRow [ToString H] (s : ArrayStore H B) (m : TimeSeriesMetadata H) : Result Unit := do
  if m.timeSeriesType.isIrregular then checkImportAxis s m
  if !s.holdsArray m.dataHash then
    .error (.invalidParameter
      s!"cannot import '{m.name}' (owner {m.ownerId}): it names array {m.dataHash}, which this store does not hold. An import writes rows only — the arrays arrive with the artifact — so the row would be a dangling reference")
  match m.length with
  | none => .ok ()
  | some length => do
    let declared := length :: m.elementShape
    let stored ← arrayShape s m.dataHash
    if declared ≠ stored then
      .error (.invalidParameter
        s!"cannot import '{m.name}' (owner {m.ownerId}): it declares shape {declared} for array {m.dataHash}, which this store holds with shape {stored}")

/-- Whether a row is a derived view. -/
def isView (m : TimeSeriesMetadata H) : Bool := m.timeSeriesType = .deterministicSingleTimeSeries

/-- Insert rows verbatim, each under the id it carries; the views last. -/
def importAssociationRows [ToString H] (rows : List (TimeSeriesMetadata H)) :
    StoreCmd (Store H B) ℕ := do
  let s ← get
  if s.conn.readOnly then throw .readOnlyStore
  Cmd.ofExcept (rows.forM (checkImportRow s.arrays))
  let explicit := (rows.filter (·.id.isSome)).length
  if explicit ≠ 0 ∧ explicit ≠ rows.length then
    throw (.invalidParameter
      s!"{explicit} of {rows.length} rows carry an association_id and the rest do not; a document either supplies one for every row or for none")
  let views := rows.filter isView
  let plain := rows.filter fun m => !isView m
  writeCatalog (do
    Connection.query fun db => db.checkExplicitTimeSeriesIds ((plain ++ views).filterMap (·.id))
    let filed ← insertAll insertAssociation plain .empty
    let _ ← insertAll insertView views filed.2
    pure (plain.length + views.length))

end

end Store

end InfraStore
