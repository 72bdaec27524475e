import InfraStore.Accounts
import InfraStore.CachedFile
import InfraStore.TxnEffects

/-!
# What a write does to the durable file

Over a file behind a cache, which commands flush it and what the durable part is afterwards.

* `frame_…`: the commands that leave the durable part alone;
* `Saved`: where the durable part changed, it is what the session saw at a flush;
* `flush_saved`, `compact_saved`, `commitTransaction_saved`, `addRequests_saved`: the operations that
  flush.
-/

namespace InfraStore

open Lib

/-- What a crash leaves of the array file. -/
def Store.durable {H B : Type} (s : Store H (CachedFile B)) : B := s.arrays.backend.durable

/-- A command that leaves the arrays alone leaves the durable file alone. -/
theorem Lib.Cmd.Frame.durable {H B α : Type} {c : StoreCmd (Store H (CachedFile B)) α}
    (h : Cmd.Frame Store.arrays c) : Cmd.Frame Store.durable c :=
  h.of (g := fun a => a.backend.durable)

namespace Store

section

set_option linter.unusedSectionVars false

variable {H B α : Type} [DecidableEq H] [ArrayBackend H B] [Sha256 H] [LawfulArrayBackend H B]

/-! ### Commands that do not flush -/

/-- The durable part of the file under an array store. -/
def onFile (a : ArrayStore H (CachedFile B)) : B := a.backend.durable

theorem frame_onConn (c : StoreCmd (Connection H) α) :
    Cmd.Frame Store.arrays (onConn c : StoreCmd (Store H B) α) := fun _ => rfl

theorem frame_onArrays {c : StoreCmd (ArrayStore H (CachedFile B)) α} (h : Cmd.Frame onFile c) :
    Cmd.Frame durable (onArrays c) := fun s => h s.arrays

theorem frame_onBackend {c : StoreCmd (CachedFile B) α} (h : Cmd.Frame CachedFile.durable c) :
    Cmd.Frame onFile (ArrayStore.onBackend c : StoreCmd (ArrayStore H (CachedFile B)) α) :=
  fun a => h a.backend

theorem frame_modifyTxn (f : OpenTxn H → OpenTxn H) :
    Cmd.Frame Store.arrays (modifyTxn f : StoreCmd (Store H B) Unit) := fun _ => rfl

theorem frame_modifyBuffer (f : WriteBuffer H → WriteBuffer H) :
    Cmd.Frame onFile (ArrayStore.modifyBuffer f : StoreCmd (ArrayStore H (CachedFile B)) Unit) :=
  fun _ => rfl

theorem frame_putBlock (items : List (H × TypedArray)) (g : PackGroup H) :
    Cmd.Frame CachedFile.durable (putBlock (B := CachedFile B) items g) := by
  unfold putBlock
  refine Cmd.frame_bind Cmd.frame_get fun b => ?_
  split
  · exact Cmd.frame_pure _
  · split
    · exact Cmd.frame_pure _
    · exact Cmd.frame_bind (CachedFile.frame_run _) fun _ => Cmd.frame_pure _
  · exact CachedFile.frame_run _

theorem frame_writeBlockExcept (key : PoolKey H) (skip : List H) :
    Cmd.Frame onFile (ArrayStore.writeBlockExcept (B := CachedFile B) key skip) := by
  unfold ArrayStore.writeBlockExcept
  refine Cmd.frame_bind Cmd.frame_get fun a => ?_
  split
  · exact Cmd.frame_pure _
  · rename_i block hblock
    have hrest : ∀ outcome : Result (List Bool), Cmd.Frame onFile (match outcome with
        | .error e => do
          ArrayStore.modifyBuffer (·.putBack key block)
          throw e
        | .ok _ => ArrayStore.modifyBuffer (·.written key block skip) :
          StoreCmd (ArrayStore H (CachedFile B)) Unit) := by
      intro outcome
      cases outcome with
      | error e => exact Cmd.frame_bind (frame_modifyBuffer _) fun _ => Cmd.frame_throw _
      | ok written => exact frame_modifyBuffer _
    simp only
    split
    · exact Cmd.frame_bind (Cmd.frame_pure _) hrest
    · exact Cmd.frame_bind (Cmd.frame_attempt (frame_onBackend (frame_putBlock _ _))) hrest

theorem frame_writeAllExcept (skip : List H) :
    Cmd.Frame onFile (ArrayStore.writeAllExcept (B := CachedFile B) skip) := by
  unfold ArrayStore.writeAllExcept
  refine Cmd.frame_bind Cmd.frame_get fun a => ?_
  exact Cmd.frame_forM _ fun key _ => frame_writeBlockExcept key skip

theorem frame_evictBlocks (n : ℕ) :
    Cmd.Frame onFile (ArrayStore.evictBlocks n : StoreCmd (ArrayStore H (CachedFile B)) Unit) := by
  induction n with
  | zero => exact Cmd.frame_pure _
  | succ n ih =>
    unfold ArrayStore.evictBlocks
    refine Cmd.frame_bind Cmd.frame_get fun a => ?_
    split
    · exact Cmd.frame_pure _
    · split
      · exact Cmd.frame_pure _
      · exact Cmd.frame_bind (frame_writeBlockExcept _ _) fun _ => ih

theorem frame_evictOverBudget :
    Cmd.Frame onFile (ArrayStore.evictOverBudget : StoreCmd (ArrayStore H (CachedFile B)) Unit) := by
  unfold ArrayStore.evictOverBudget
  exact Cmd.frame_bind Cmd.frame_get fun a => frame_evictBlocks _

theorem frame_removeArray (h : H) :
    Cmd.Frame onFile (ArrayStore.removeArray (B := CachedFile B) h) := by
  unfold ArrayStore.removeArray
  intro a
  simp only [Cmd.exec_bind, Cmd.exec_get, Cmd.exec_set]
  split
  · rfl
  · exact frame_onBackend (CachedFile.frame_run _) _

theorem frame_push (h : H) (a : TypedArray) (g : PackGroup H) :
    Cmd.Frame onFile (ArrayStore.push (B := CachedFile B) h a g) := by
  unfold ArrayStore.push
  refine Cmd.frame_of_wp fun s => ?_
  simp only [Cmd.wp_bind, Cmd.wp_get, Cmd.wp_set, Cmd.wp_attempt]
  have hwrites : Cmd.Frame onFile (do
      if s.buffer.widthCap (poolKey a g).dtype (poolKey a g).elementShape (poolKey a g).length ≤
          ((FMap.get (s.buffer.accept h a g).blocks (poolKey a g)).map
            fun b => b.items.length).getD 0 then ArrayStore.writeBlock (poolKey a g)
      ArrayStore.evictOverBudget : StoreCmd (ArrayStore H (CachedFile B)) Unit) := by
    split
    · exact Cmd.frame_bind (frame_writeBlockExcept _ _) fun _ => frame_evictOverBudget
    · exact frame_evictOverBudget
  refine Cmd.wp_mono (hwrites.wp _) fun r t ht => ?_
  cases r with
  | ok u => exact ht
  | error e =>
    simp only [Cmd.wp_bind, Cmd.wp_attempt, Cmd.wp_throw]
    exact Cmd.wp_mono ((frame_removeArray h).wp t) fun _ _ h' => h'.trans ht

theorem frame_putArray (inTxn : Bool) (h : H) (a : TypedArray) (g : PackGroup H) (l : ArrayLayout) :
    Cmd.Frame onFile (ArrayStore.putArray (B := CachedFile B) inTxn h a g l) := by
  unfold ArrayStore.putArray
  refine Cmd.frame_bind Cmd.frame_get fun s => ?_
  split
  · exact Cmd.frame_pure _
  · split
    · exact Cmd.frame_bind (frame_push h a g) fun _ => Cmd.frame_pure _
    · exact frame_onBackend (CachedFile.frame_run _)

theorem frame_removeWrites (w : FileObjects H) :
    Cmd.Frame onFile (removeWrites (B := CachedFile B) w) := by
  unfold removeWrites
  refine Cmd.frame_bind (Cmd.frame_forM _ fun h _ => ?_) fun _ => Cmd.frame_forM _ fun t _ => ?_
  · exact Cmd.frame_bind (Cmd.frame_attempt (frame_removeArray h)) fun _ => Cmd.frame_pure _
  · refine Cmd.frame_bind (Cmd.frame_attempt ?_) fun _ => Cmd.frame_pure _
    exact frame_onBackend (CachedFile.frame_run _)

/-! ### Operations that do not flush -/

theorem frame_checkTransactionAlive :
    Cmd.Frame Store.arrays (checkTransactionAlive (H := H) (B := B)) := by
  unfold checkTransactionAlive
  refine Cmd.frame_bind Cmd.frame_get fun s => ?_
  split
  · exact Cmd.frame_throw _
  · exact Cmd.frame_pure _

theorem frame_writeCatalog (work : StoreCmd (Connection H) α) :
    Cmd.Frame Store.arrays (writeCatalog (B := B) work) :=
  Cmd.frame_bind frame_checkTransactionAlive fun _ => frame_onConn _

theorem frame_executeTxnStmt (work : StoreCmd (Connection H) Unit) :
    Cmd.Frame Store.arrays (executeTxnStmt (B := B) work) := by
  unfold executeTxnStmt
  refine Cmd.frame_bind Cmd.frame_get fun s => ?_
  split
  · exact Cmd.frame_throw _
  · exact frame_onConn _

theorem frame_innermostLevel : Cmd.Frame Store.arrays (innermostLevel (H := H) (B := B)) := by
  unfold innermostLevel
  refine Cmd.frame_bind Cmd.frame_get fun s => ?_
  split
  · exact Cmd.frame_throw _
  · exact Cmd.frame_pure _

theorem frame_freeOrDefer (garbage : FileObjects H) :
    Cmd.Frame durable (freeOrDefer (B := CachedFile B) garbage) := by
  unfold freeOrDefer
  refine Cmd.frame_bind Cmd.frame_get fun s => ?_
  split
  · exact (frame_modifyTxn _).durable
  · exact frame_onArrays (frame_removeWrites garbage)

theorem frame_settle (staged : FileObjects H) (r : Result α) :
    Cmd.Frame durable (settle (B := CachedFile B) staged r) := by
  unfold settle
  cases r with
  | error e => exact Cmd.frame_bind (frame_onArrays (frame_removeWrites staged)) fun _ => Cmd.frame_throw e
  | ok a =>
    refine Cmd.frame_bind Cmd.frame_get fun s => ?_
    split
    · exact Cmd.frame_bind (frame_modifyTxn _).durable fun _ => Cmd.frame_pure a
    · exact Cmd.frame_pure a

theorem frame_unwindWritten (w : FileObjects H) :
    Cmd.Frame durable (unwindWritten (B := CachedFile B) w) := by
  unfold unwindWritten
  refine Cmd.frame_of_wp fun s => ?_
  simp only [Cmd.wp_bind, Cmd.wp_get, Cmd.wp_set, Cmd.wp_attempt]
  refine Cmd.wp_mono ((frame_onConn _).durable.wp _) fun r t ht => ?_
  cases r with
  | error e => exact ht
  | ok garbage => exact Cmd.wp_mono ((frame_onArrays (frame_removeWrites _)).wp t) fun _ _ h => h.trans ht

theorem frame_beginTransaction :
    Cmd.Frame durable (beginTransaction (H := H) (B := CachedFile B)) :=
  Cmd.frame_bind frame_checkTransactionAlive.durable fun _ =>
    Cmd.frame_bind (frame_onConn _).durable fun _ => (frame_modifyTxn _).durable

theorem frame_rollbackTransaction :
    Cmd.Frame durable (rollbackTransaction (H := H) (B := CachedFile B)) := by
  unfold rollbackTransaction
  refine Cmd.frame_bind frame_innermostLevel.durable fun _ => Cmd.frame_bind Cmd.frame_get fun s => ?_
  split
  · exact Cmd.frame_bind (frame_modifyTxn _).durable fun _ => frame_unwindWritten _
  · refine Cmd.frame_bind (frame_executeTxnStmt _).durable fun _ => Cmd.frame_bind (frame_modifyTxn _).durable fun _ => ?_
    refine Cmd.frame_bind Cmd.frame_get fun s => Cmd.frame_bind (frame_modifyTxn _).durable fun _ => ?_
    exact Cmd.frame_bind (frame_unwindWritten _) fun _ => frame_checkTransactionAlive.durable

theorem frame_setWriteBufferBytes (bytes : ℕ) :
    Cmd.Frame durable (setWriteBufferBytes (H := H) (B := CachedFile B) bytes) := by
  have hset : Cmd.Frame durable (onArrays (do
      ArrayStore.modifyBuffer fun w => { w with maxBytes := bytes }
      ArrayStore.evictOverBudget) : StoreCmd (Store H (CachedFile B)) Unit) :=
    frame_onArrays (Cmd.frame_bind (frame_modifyBuffer _) fun _ => frame_evictOverBudget)
  unfold setWriteBufferBytes
  split
  · exact Cmd.frame_throw_bind _ _
  · exact hset

theorem frame_removeByIdsInner (ids : List ℤ) (owner : Option (ℤ × OwnerCategory)) :
    Cmd.Frame durable (removeByIdsInner (H := H) (B := CachedFile B) ids owner) :=
  Cmd.frame_bind (frame_writeCatalog _).durable fun _ =>
    Cmd.frame_bind (frame_freeOrDefer _) fun _ => Cmd.frame_pure _

theorem frame_orphanedTimestampVectors :
    Cmd.Frame Store.arrays (orphanedTimestampVectors (H := H) (B := B)) :=
  Cmd.frame_bind (frame_onConn _) fun _ => Cmd.frame_bind Cmd.frame_get fun _ => Cmd.frame_pure _

theorem frame_clearTimeSeries (owner : Option (ℤ × OwnerCategory)) :
    Cmd.Frame durable (clearTimeSeries (H := H) (B := CachedFile B) owner) :=
  Cmd.frame_bind (frame_modifyTxn _).durable fun _ => Cmd.frame_bind (frame_writeCatalog _).durable fun _ =>
    Cmd.frame_bind (Cmd.frame_attempt frame_orphanedTimestampVectors.durable) fun _ =>
      Cmd.frame_bind frame_checkTransactionAlive.durable fun _ =>
        Cmd.frame_bind (frame_freeOrDefer _) fun _ => Cmd.frame_pure _

theorem frame_sweepOrphanTimestampVectors :
    Cmd.Frame durable (sweepOrphanTimestampVectors (H := H) (B := CachedFile B)) := by
  refine Cmd.frame_bind frame_orphanedTimestampVectors.durable fun orphans => ?_
  refine Cmd.frame_bind (frame_onArrays (Cmd.frame_forM _ fun t _ => ?_)) fun _ => Cmd.frame_pure _
  exact frame_onBackend (CachedFile.frame_run _)

section

variable [FloatText] [ToString H]

theorem frame_replaceOwner (oldOwner newOwner : ℤ) (category : OwnerCategory) :
    Cmd.Frame Store.arrays (replaceOwner (H := H) (B := B) oldOwner newOwner category) :=
  frame_writeCatalog _

theorem frame_copyTimeSeries (src dst : ℤ) (ty : String) (name : Option String) :
    Cmd.Frame Store.arrays (copyTimeSeries (H := H) (B := B) src dst ty name) := by
  unfold copyTimeSeries
  refine Cmd.frame_bind Cmd.frame_get fun s => ?_
  split
  · exact Cmd.frame_throw_bind _ _
  · refine Cmd.frame_bind (frame_onConn _) fun found => ?_
    split
    · exact Cmd.frame_throw _
    · refine Cmd.frame_bind (frame_onConn _) fun taken => ?_
      split
      · exact Cmd.frame_throw_bind _ _
      · exact frame_writeCatalog _

theorem frame_importAssociationRows (rows : List (TimeSeriesMetadata H)) :
    Cmd.Frame Store.arrays (importAssociationRows (H := H) (B := B) rows) := by
  unfold importAssociationRows
  refine Cmd.frame_bind Cmd.frame_get fun s => ?_
  split
  · exact Cmd.frame_throw_bind _ _
  · refine Cmd.frame_bind (Cmd.frame_ofExcept _) fun _ => ?_
    simp only
    split
    · exact Cmd.frame_throw_bind _ _
    · exact frame_writeCatalog _

theorem frame_checkPlanCompatible (plan : TransformPlan) (grids : List (Period × GridPlan)) :
    Cmd.Frame Store.arrays (checkPlanCompatible (H := H) (B := B) plan grids) := by
  induction grids with
  | nil => exact Cmd.frame_pure _
  | cons g grids ih =>
    refine Cmd.frame_bind ?_ fun _ => Cmd.frame_bind (Cmd.frame_ofExcept _) fun _ => ih
    exact Cmd.frame_bind Cmd.frame_get fun _ => frame_onConn _

theorem frame_transformUnder (plan : TransformPlan) (horizon : Period)
    (category : Option OwnerCategory) (resolution : Option Period) (policy : TransformPolicy) :
    Cmd.Frame Store.arrays
      (transformUnder (H := H) (B := B) plan horizon category resolution policy) := by
  unfold transformUnder
  refine Cmd.frame_bind Cmd.frame_get fun s => Cmd.frame_bind (frame_onConn _) fun sources => ?_
  refine Cmd.frame_bind (frame_onConn _) fun _ => Cmd.frame_bind (frame_onConn _) fun _ => ?_
  refine Cmd.frame_bind (Cmd.frame_ofExcept _) fun views => ?_
  split
  · exact Cmd.frame_bind (Cmd.frame_pure _) fun _ => Cmd.frame_pure _
  · exact Cmd.frame_bind (frame_writeCatalog _) fun _ => Cmd.frame_pure _

theorem frame_transformSingleTimeSeries (horizon requested : Period)
    (category : Option OwnerCategory) (resolution : Option Period) (policy : TransformPolicy) :
    Cmd.Frame Store.arrays (transformSingleTimeSeries (H := H) (B := B) horizon requested
      category resolution policy) := by
  unfold transformSingleTimeSeries
  refine Cmd.frame_bind Cmd.frame_get fun s => ?_
  simp only
  split
  · exact Cmd.frame_throw_bind _ _
  · refine Cmd.frame_bind (frame_onConn _) fun grids => Cmd.frame_bind (Cmd.frame_ofExcept _) fun plan => ?_
    split
    · exact Cmd.frame_pure _
    · split
      · exact Cmd.frame_bind (frame_checkPlanCompatible _ _) fun _ => frame_transformUnder _ _ _ _ _
      · exact frame_transformUnder _ _ _ _ _

end

/-! ### Commands that flush -/

/-- The durable file is the one the session sees. -/
def Synced (a : ArrayStore H (CachedFile B)) : Prop := onFile a = a.backend.live

/-- Where the durable file changed, it is what the session saw after some writes, none of which left
more in the buffer. -/
def Saved (a a' : ArrayStore H (CachedFile B)) : Prop :=
  onFile a' = onFile a ∨ ∃ b w, a.Grew b w ∧
    (∀ x, (b.buffer.get x).isSome → (a.buffer.get x).isSome) ∧ onFile a' = b.backend.live

theorem Saved.refl (a : ArrayStore H (CachedFile B)) : Saved a a := Or.inl rfl

theorem Saved.of_synced {a a' : ArrayStore H (CachedFile B)} (ha : a.Valid) (h : a.Written a')
    (h' : onFile a' = onFile a ∨ Synced a') : Saved a a' :=
  h'.imp_right fun hsync => ⟨a', .empty, .of_written ha h, fun _ hx => h.buffered ha hx, hsync⟩

theorem Saved.kept {a a' a'' : ArrayStore H (CachedFile B)} (h : Saved a a')
    (h' : onFile a'' = onFile a') : Saved a a'' := by
  unfold Saved
  rw [h']
  exact h

/-- A flush of the file under the buffer. -/
theorem flushFile_synced {a : ArrayStore H (CachedFile B)} (ha : a.Valid) :
    (ArrayStore.onBackend ArrayBackend.flush : StoreCmd (ArrayStore H (CachedFile B)) Unit).wp
      (fun r a' => a'.buffer = a.buffer ∧ (r.isOk = true → Synced a') ∧
        (onFile a' = onFile a ∨ Synced a')) a := by
  simp only [ArrayStore.onBackend, Cmd.wp_zoom]
  refine Cmd.wp_mono (CachedFile.flush_durable ha.backend) fun r b hb => ?_
  cases r with
  | error e => exact ⟨trivial, fun h => (by cases h), Or.inl hb⟩
  | ok u => exact ⟨trivial, fun _ => hb, Or.inr hb⟩

theorem flushArrays_saved {a : ArrayStore H (CachedFile B)} (ha : a.Valid) :
    (flushArrays (H := H) (B := CachedFile B)).wp (fun _ a' => Saved a a') a := by
  unfold flushArrays
  rw [Cmd.wp_bind]
  refine Cmd.wp_mono (Cmd.wp_and (ArrayStore.writeAllExcept_spec ha []) ((frame_writeAllExcept []).wp a)) ?_
  rintro r a₁ ⟨⟨hw, -⟩, hsame⟩
  cases r with
  | error e => exact Or.inl hsame
  | ok u =>
    refine Cmd.wp_mono (Cmd.wp_and (Staging.flush_written hw.valid) (flushFile_synced hw.valid)) ?_
    rintro r a₂ ⟨hw₂, -, -, hsync⟩
    exact .of_synced ha (hw.trans hw₂) (hsync.imp_left fun h => h.trans hsame)

theorem flush_saved {s : Store H (CachedFile B)} (hs : s.arrays.Valid) :
    (flush (H := H) (B := CachedFile B)).wp (fun _ s' => Saved s.arrays s'.arrays) s := by
  unfold flush
  rw [Cmd.wp_bind]
  simp only [onConn, onArrays, Cmd.wp_zoom]
  refine Cmd.wp_mono (Q := fun _ _ => True) trivial fun r c _ => ?_
  cases r with
  | error e => exact .refl _
  | ok u => exact flushArrays_saved hs

theorem compact_saved {s : Store H (CachedFile B)} (hs : s.arrays.Valid) :
    (compact (H := H) (B := CachedFile B)).wp (fun _ s' => Saved s.arrays s'.arrays) s := by
  have hsweep : Cmd.Frame durable (do
      invalidateSharedSets
      writeCatalog (Connection.statement fun db => .ok ((), db.sweepOrphanFeatureSets))
      sweepOrphanTimestampVectors : StoreCmd (Store H (CachedFile B)) ℕ) :=
    Cmd.frame_bind (frame_modifyTxn _).durable fun _ => Cmd.frame_bind (frame_writeCatalog _).durable fun _ =>
      frame_sweepOrphanTimestampVectors
  have hrefuse : Cmd.Frame id (refuseInTransaction (H := H) (B := CachedFile B) "compact") := by
    unfold refuseInTransaction
    refine Cmd.frame_bind Cmd.frame_get fun s => ?_
    split
    · exact Cmd.frame_throw _
    · exact Cmd.frame_pure _
  unfold compact
  rw [Cmd.wp_bind, Cmd.wp_get]
  simp only
  split
  · exact .refl _
  · rw [Cmd.wp_bind]
    refine Cmd.wp_mono (hrefuse.wp s) ?_
    rintro r s₁ rfl
    cases r with
    | error e => exact .refl _
    | ok u =>
      simp only [id]
      rw [Cmd.wp_bind]
      refine Cmd.wp_mono (flush_saved hs) fun r s₁ h₁ => ?_
      cases r with
      | error e => exact h₁
      | ok u => exact Cmd.wp_mono (hsweep.wp s₁) fun _ _ h => h₁.kept h

/-- The file an outermost commit flushed: everything the catalog names is in it. -/
theorem flushWritten_synced {s : Store H (CachedFile B)} (hs : s.arrays.Valid)
    (garbage : FileObjects H) :
    (flushWritten (B := CachedFile B) garbage).wp (fun r s' =>
      (durable s' = durable s ∨ Synced s'.arrays) ∧
      (r.isOk = true → s.txn.written.isEmpty = false → Synced s'.arrays)) s := by
  unfold flushWritten
  rw [Cmd.wp_bind, Cmd.wp_get]
  simp only
  split
  · rename_i he
    exact ⟨Or.inl rfl, fun _ h => by rw [he] at h; cases h⟩
  · simp only [Cmd.wp_bind, onArrays, Cmd.wp_zoom]
    refine Cmd.wp_mono (Cmd.wp_and (ArrayStore.writeAllExcept_spec hs garbage.arrays)
      ((frame_writeAllExcept garbage.arrays).wp s.arrays)) ?_
    rintro r a ⟨⟨hw, -⟩, hsame⟩
    cases r with
    | error e => exact ⟨Or.inl hsame, fun h => by cases h⟩
    | ok u =>
      refine Cmd.wp_mono (flushFile_synced hw.valid) ?_
      rintro r a' ⟨-, hok, hsync⟩
      exact ⟨hsync.imp_left fun h => h.trans hsame, fun h _ => hok h⟩

/-- What closing a level does to the file: an outermost commit that wrote something has flushed all of
it but what it then freed. -/
structure CommitSaved (s s' : Store H (CachedFile B)) (r : Result Unit) : Prop where
  saved : Saved s.arrays s'.arrays
  flushed : r.isOk = true → s.txn.marks.length = 1 → s.txn.written.isEmpty = false →
    ∃ a, s.arrays.Written a ∧ (∀ h, (a.buffer.get h).isSome → ¬ s.db.References h) ∧
      durable s' = a.backend.live

theorem commitTransaction_saved [FloatText] {s : Store H (CachedFile B)} (hs : s.arrays.Valid) :
    (commitTransaction (H := H) (B := CachedFile B)).wp (fun r s' => CommitSaved s s' r) s := by
  unfold commitTransaction
  rw [Cmd.wp_bind]
  refine Cmd.wp_mono innermostLevel_spec ?_
  rintro r s₁ ⟨rfl, hlevel⟩
  rcases r with e | level
  · exact ⟨.refl _, fun h => by cases h⟩
  simp only
  rw [Cmd.wp_bind]
  refine Cmd.wp_mono checkTransactionAlive_spec ?_
  rintro r s₂ ⟨rfl, hr⟩
  rcases r with e | u
  · exact ⟨.refl _, fun h => by cases h⟩
  simp only
  split
  · rename_i hpos
    have hframe : Cmd.Frame durable (do
        executeTxnStmt Connection.release
        modifyTxn fun t => { t with marks := t.marks.tail } : StoreCmd (Store H (CachedFile B)) Unit) :=
      Cmd.frame_bind (frame_executeTxnStmt _).durable fun _ => (frame_modifyTxn _).durable
    exact Cmd.wp_mono (hframe.wp s₂) fun r s' h => ⟨Or.inl h, fun _ h1 => by omega⟩
  · rw [Cmd.wp_bind, Cmd.wp_get]
    simp only
    rw [Cmd.wp_bind]
    refine Cmd.wp_mono (catalogOnly_onConn (unreferenced_outcome s₂.txn.pendingFree s₂.conn)) ?_
    rintro r s₃ ⟨ha₃, ht₃, hl₃, ho₃⟩
    rcases r with e | garbage
    · exact ⟨Or.inl (congrArg onFile ha₃), fun h => by cases h⟩
    obtain ⟨-, -, hgarbage⟩ := ho₃
    have hs₃ : s₃.arrays.Valid := by rw [ha₃]; exact hs
    simp only
    rw [Cmd.wp_bind]
    refine Cmd.wp_mono (Cmd.wp_and (flushWritten_spec hs₃ garbage) (flushWritten_synced hs₃ garbage)) ?_
    rintro r s₄ ⟨⟨-, -, hw₄, hrest⟩, hsync, hok⟩
    have hfile₃ : durable s₃ = durable s₂ := congrArg onFile ha₃
    rw [ha₃] at hw₄
    have hsaved : Saved s₂.arrays s₄.arrays :=
      .of_synced hs hw₄ (hsync.imp_left fun h => h.trans hfile₃)
    rcases r with e | u
    · exact ⟨hsaved, fun h => by cases h⟩
    have hframe : Cmd.Frame durable (do
        executeTxnStmt Connection.release
        modifyTxn fun _ => .empty
        onArrays (removeWrites garbage) : StoreCmd (Store H (CachedFile B)) Unit) :=
      Cmd.frame_bind (frame_executeTxnStmt _).durable fun _ => Cmd.frame_bind (frame_modifyTxn _).durable fun _ =>
        frame_onArrays (frame_removeWrites garbage)
    refine Cmd.wp_mono (hframe.wp s₄) fun r s₅ h₅ => ⟨hsaved.kept h₅, fun _ _ hwritten => ?_⟩
    have hwritten₃ : s₃.txn.written.isEmpty = false := by rw [ht₃]; exact hwritten
    refine ⟨s₄.arrays, hw₄, fun h hh href => ?_, h₅.trans (hok rfl hwritten₃)⟩
    exact ((hgarbage.arrays h).mp (hrest rfl hwritten₃ h hh)).2 href

namespace Staging

/-! ### Adds -/

/-- The durable file under a write call. -/
def under (t : Staging H (CachedFile B)) : B := durable t.store

theorem frame_onStore {c : StoreCmd (Store H (CachedFile B)) α} (h : Cmd.Frame durable c) :
    Cmd.Frame under (onStore c) := fun t => h t.store

theorem frame_stageTimestampVectors (ps : List (RequestParts H)) : ∀ seen,
    Cmd.Frame under (stageTimestampVectors (B := CachedFile B) ps seen) := by
  induction ps with
  | nil => exact fun _ => Cmd.frame_pure _
  | cons p ps ih =>
    intro seen
    refine Cmd.frame_bind ?_ ih
    unfold stageTimestampVector
    split
    · split
      · exact Cmd.frame_pure _
      · refine Cmd.frame_bind (frame_onStore (frame_onArrays (frame_onBackend (CachedFile.frame_run _))))
          fun stored => ?_
        simp only
        split
        · exact Cmd.frame_bind (Cmd.frame_modify fun _ => rfl) fun _ => Cmd.frame_pure _
        · exact Cmd.frame_pure _
    · exact Cmd.frame_pure _

theorem frame_stagePut (x : TypedArray) (p : RequestParts H) :
    Cmd.Frame under (stagePut (B := CachedFile B) x p) := by
  unfold stagePut
  refine Cmd.frame_bind Cmd.frame_get fun t => ?_
  refine Cmd.frame_bind (frame_onStore (frame_onArrays (frame_putArray _ _ _ _ _))) fun stored => ?_
  split
  · exact Cmd.frame_modify fun _ => rfl
  · exact Cmd.frame_pure _

theorem frame_stageArrays (xs : List (TypedArray × RequestParts H)) :
    Cmd.Frame under (stageArrays (B := CachedFile B) xs) := by
  unfold stageArrays
  refine Cmd.frame_bind Cmd.frame_get fun t => ?_
  split
  · exact Cmd.frame_forM _ fun x _ => frame_stagePut x.1 x.2
  · refine Cmd.frame_bind (Cmd.frame_forM _ fun x _ => frame_stagePut x.1 x.2) fun _ => ?_
    refine Cmd.frame_forM _ fun pool _ => ?_
    refine Cmd.frame_bind (frame_onStore (frame_onArrays (frame_onBackend (frame_putBlock _ _))))
      fun _ => Cmd.frame_modify fun _ => rfl

/-- What filing the rows of a batch does to the file: it flushes it before it commits them, if the call
has written anything. -/
structure FiledSaved (inTxn : Bool) (t t' : Staging H (CachedFile B)) (ok : Bool) : Prop where
  file : under t' = under t ∨ inTxn = false ∧ Synced t'.store.arrays
  flushed : ok = true → inTxn = false → t.staged.isEmpty = false → Synced t'.store.arrays

theorem flushBeforeCommit_saved {t : Staging H (CachedFile B)} (ht : t.store.arrays.Valid) :
    (flushBeforeCommit (B := CachedFile B)).wp (fun r t' => FiledSaved false t t' r.isOk) t := by
  unfold flushBeforeCommit
  rw [Cmd.wp_bind, Cmd.wp_get]
  simp only
  split
  · rename_i he
    exact ⟨Or.inl rfl, fun _ _ h => by rw [he] at h; cases h⟩
  · simp only [onStore, onArrays, Cmd.wp_zoom]
    refine Cmd.wp_mono (flushFile_synced ht) ?_
    rintro r a ⟨-, hok, hsync⟩
    exact ⟨hsync.imp_right fun h => ⟨rfl, h⟩, fun h _ _ => hok h⟩

theorem fileRows_saved [FloatText] {t : Staging H (CachedFile B)} (ht : t.store.arrays.Valid)
    (inTxn : Bool) (ms : List (TimeSeriesMetadata H)) (cache : SharedSetCache H) :
    (fileRows (B := CachedFile B) inTxn ms cache).wp (fun r t' => FiledSaved inTxn t t' r.isOk) t := by
  -- a step of the catalog's leaves the file alone
  have hconn : ∀ {β : Type} (c : StoreCmd (Connection H) β) (t₁ : Staging H (CachedFile B)),
      (onStore (onConn c)).wp (fun _ t₂ => t₂.store.arrays = t₁.store.arrays ∧ t₂.staged = t₁.staged) t₁ :=
    fun _ _ => ⟨rfl, rfl⟩
  unfold fileRows
  split
  · rw [Cmd.wp_bind]
    refine Cmd.wp_mono (hconn _ t) ?_
    rintro r t₁ ⟨ha₁, hs₁⟩
    have hsame : under t₁ = under t := congrArg onFile ha₁
    cases r with
    | error e => exact ⟨Or.inl hsame, fun h => by cases h⟩
    | ok u =>
      simp only
      rw [Cmd.wp_bind, Cmd.wp_attempt, Cmd.wp_bind]
      refine Cmd.wp_mono (hconn _ t₁) ?_
      rintro r t₂ ⟨ha₂, hs₂⟩
      have hsame₂ : under t₂ = under t := (congrArg onFile ha₂).trans hsame
      have hclose : ∀ {β : Type} (r : Result β) (t₃ : Staging H (CachedFile B)),
          FiledSaved inTxn t t₃ r.isOk → (onStore (onConn (Connection.closeSavepoint r))).wp
            (fun r' t' => FiledSaved inTxn t t' r'.isOk) t₃ := by
        intro β r t₃ h₃
        refine ⟨h₃.file, fun hok => h₃.flushed ?_⟩
        cases r with
        | ok b => rfl
        | error e => exact hok
      cases r with
      | error e => exact hclose _ t₂ ⟨Or.inl hsame₂, fun h => by cases h⟩
      | ok out =>
        simp only
        split
        · rename_i hin
          rw [Cmd.wp_bind]
          have ht₂ : t₂.store.arrays.Valid := by rw [ha₂, ha₁]; exact ht
          refine Cmd.wp_mono (flushBeforeCommit_saved ht₂) fun r t₃ h₃ => ?_
          have hfile : under t₃ = under t ∨ inTxn = false ∧ Synced t₃.store.arrays :=
            h₃.file.imp (fun h => h.trans hsame₂) fun h => ⟨by simpa using hin, h.2⟩
          cases r with
          | error e => exact hclose _ t₃ ⟨hfile, fun h => by cases h⟩
          | ok u =>
            refine hclose _ t₃ ⟨hfile, fun _ _ hst => h₃.flushed rfl rfl ?_⟩
            rw [hs₂, hs₁]
            exact hst
        · rename_i hin
          refine hclose _ t₂ ⟨Or.inl hsame₂, fun _ hf => absurd ?_ hin⟩
          rw [hf]
          rfl
  · rename_i hone
    refine Cmd.wp_mono (hconn _ t) ?_
    rintro r t₁ ⟨ha₁, -⟩
    refine ⟨Or.inl (congrArg onFile ha₁), fun _ hf => absurd ?_ hone⟩
    rw [hf]
    rfl

/-- What an add does to the file before it is settled. -/
structure AddSaved (s : Store H (CachedFile B)) (t : Staging H (CachedFile B)) (ok : Bool) : Prop where
  file : under t = durable s ∨ s.inTransaction = false ∧ Synced t.store.arrays
  flushed : ok = true → s.inTransaction = false → t.staged.isEmpty = false → Synced t.store.arrays
  accounts : ok = true → Accounts s.arrays t

theorem addRequestsStaged_saved [FloatText] {s : Store H (CachedFile B)} (hs : s.arrays.Valid)
    (hidle : s.inTransaction = false → ∀ x, s.arrays.buffer.get x = none)
    (hcached : ∀ x ∈ s.txn.sharedSets.timestamps, (s.arrays.vector x).isSome)
    (items : List AddRequest) :
    (addRequestsStaged (B := CachedFile B) items).wp (fun r t => AddSaved s t r.isOk) ⟨s, .empty⟩ := by
  have hstopped : ∀ {t : Staging H (CachedFile B)}, under t = durable s → AddSaved s t false :=
    fun h => ⟨Or.inl h, fun h => (by cases h), fun h => by cases h⟩
  unfold addRequestsStaged
  rw [Cmd.wp_bind, Cmd.wp_get]
  simp only
  split
  · exact hstopped rfl
  rw [Cmd.wp_bind, onStore, Cmd.wp_zoom]
  refine Cmd.wp_mono checkTransactionAlive_spec ?_
  rintro r s₁ ⟨hsame, -⟩
  rw [hsame]
  cases r with
  | error e => exact hstopped rfl
  | ok u =>
  simp only
  split
  · exact ⟨Or.inl rfl, fun _ _ h => (by cases h), fun _ => ⟨Or.inl, Or.inl⟩⟩
  rw [Cmd.wp_bind, Cmd.wp_ofExcept]
  rcases hparts : items.mapM buildRequestParts with e | parts
  · exact hstopped rfl
  obtain ⟨hax, hfaith, -⟩ := parts_ready hparts
  simp only
  rw [Cmd.wp_bind, onStore, Cmd.wp_zoom, Cmd.wp_of_exec (takeSharedSets_exec s)]
  simp only
  -- the store the call works on
  obtain ⟨t₀, ht₀⟩ : ∃ t₀ : Staging H (CachedFile B), t₀ = ⟨{ s with txn := takenTxn s }, .empty⟩ :=
    ⟨_, rfl⟩
  have hin₀ : t₀.store.inTransaction = s.inTransaction := by
    rw [ht₀]
    unfold inTransaction
    rw [show ({ s with txn := takenTxn s } : Store H (CachedFile B)).txn.marks = _ from
      (takenTxn_fields s).1]
  have harr₀ : t₀.store.arrays = s.arrays := by rw [ht₀]
  have hfile₀ : under t₀ = durable s := congrArg onFile harr₀
  have hacc₀ : Accounts s.arrays t₀ := ⟨by rw [harr₀]; exact Or.inl, by rw [harr₀]; exact Or.inl⟩
  have hseen₀ : HeldAxes t₀ (takenSets s) := by
    intro x hx
    unfold takenSets at hx
    rw [harr₀]
    split at hx
    · exact hcached x hx
    · exact (List.not_mem_nil hx).elim
  have hv₀ : t₀.store.arrays.Valid := by rw [harr₀]; exact hs
  rw [← ht₀, Cmd.wp_bind]
  have hparts : ∀ p ∈ parts, p ∈ parts := fun _ h => h
  refine Cmd.wp_mono (Cmd.wp_and (stageTimestampVectors_spec parts hv₀ hparts hax hseen₀)
    (Cmd.wp_and (stageTimestampVectors_accounts parts hv₀ hacc₀ hparts hax hseen₀)
      ((frame_stageTimestampVectors parts _).wp t₀))) ?_
  rintro r t₁ ⟨⟨h₁, -⟩, hacc₁, hfile₁⟩
  cases r with
  | error e => exact hstopped (hfile₁.trans hfile₀)
  | ok cache =>
  simp only
  have hidle₁ : t₁.store.inTransaction = false → ∀ x, t₁.store.arrays.buffer.get x = none := by
    intro hi x
    have hi₀ : t₀.store.inTransaction = false := by
      unfold inTransaction at hi ⊢
      rw [← h₁.txn]
      exact hi
    have := mt (h₁.idle hi₀ x)
    rw [harr₀, hidle (hin₀.symm.trans hi₀)] at this
    simpa using this
  rw [Cmd.wp_bind]
  refine Cmd.wp_mono (Cmd.wp_and (stageArrays_spec h₁.valid hidle₁ hfaith)
    (Cmd.wp_and (stageArrays_accounts h₁.valid (hacc₁ rfl) hidle₁ hfaith)
      ((frame_stageArrays _).wp t₁))) ?_
  rintro r t₂ ⟨⟨h₂, -⟩, hacc₂, hfile₂⟩
  have hfile : under t₂ = durable s := hfile₂.trans (hfile₁.trans hfile₀)
  cases r with
  | error e => exact hstopped hfile
  | ok u =>
  simp only
  rw [Cmd.wp_bind]
  refine Cmd.wp_mono (Cmd.wp_and (fileRows_spec h₂.valid (parts.map (·.metadata)) cache)
    (fileRows_saved h₂.valid _ (parts.map (·.metadata)) cache)) ?_
  rintro r t₃ ⟨h₃, hsaved⟩
  have hend : ∀ {ok : Bool} {t' : Staging H (CachedFile B)}, t'.store.arrays = t₃.store.arrays →
      t'.staged = t₃.staged → (ok = true → r.isOk = true) → AddSaved s t' ok := by
    intro ok t' harr hst hok
    refine ⟨?_, fun h hi hne => ?_, fun h => ?_⟩
    · unfold under durable Synced at *
      rw [harr, ← hfile]
      exact hsaved.file
    · unfold Synced
      rw [harr]
      exact hsaved.flushed (hok h) hi (by rw [← h₃.staged, ← hst]; exact hne)
    · refine (hacc₂ rfl).same (hst.trans h₃.staged) ?_ ?_
      · rw [harr, h₃.written.content]
      · rw [harr, h₃.written.vector]
  cases r with
  | error e => exact hend rfl rfl id
  | ok out =>
    simp only
    rw [Cmd.wp_bind, onStore, Cmd.wp_zoom]
    have hback : (returnSharedSets (H := H) (B := CachedFile B) out.2).wp
        (fun _ s' => s'.arrays = t₃.store.arrays) t₃.store := by
      unfold returnSharedSets
      rw [Cmd.wp_bind, Cmd.wp_get]
      simp only
      split <;> rfl
    refine Cmd.wp_mono hback fun r s' hs' => ?_
    cases r with
    | error e => exact hend hs' rfl fun h => by cases h
    | ok u => exact hend hs' rfl fun _ => rfl

end Staging

/-- **Adding.**  Outside a transaction an add that succeeds has flushed the file, or has written nothing
at all. -/
theorem addRequests_saved [FloatText] {s : Store H (CachedFile B)} (hs : s.Sound)
    (items : List AddRequest) :
    (addRequests (B := CachedFile B) items).wp (fun r s' => Saved s.arrays s'.arrays ∧
      (r.isOk = true → s.inTransaction = false → Synced s'.arrays ∨
        durable s' = durable s ∧ (∀ h, (s'.arrays.content h).isSome → (s.arrays.content h).isSome) ∧
          ∀ x, (s'.arrays.vector x).isSome → (s.arrays.vector x).isSome)) s := by
  unfold addRequests
  rw [Cmd.wp_bind, Cmd.wp_get]
  simp only
  have hspec := Cmd.wp_and
    (Staging.addRequestsStaged_spec hs.valid (fun hi => (hs.idle hi).2.2) hs.cached items)
    (Staging.addRequestsStaged_saved hs.valid (fun hi => (hs.idle hi).2.2) hs.cached items)
  unfold Cmd.wp at hspec
  rcases hx : (addRequestsStaged (B := CachedFile B) items).exec ⟨s, .empty⟩ with ⟨r, t⟩
  rw [hx] at hspec
  obtain ⟨hadd, hfile⟩ := hspec
  have hsaved : Saved s.arrays t.store.arrays :=
    hfile.file.imp_right fun h => ⟨_, _, hadd.grew, hadd.idle h.1, h.2⟩
  rw [Cmd.wp_bind, Cmd.wp_set]
  refine Cmd.wp_mono (Cmd.wp_and ((frame_settle t.staged r).wp t.store)
    (Q := _) (R := fun r' s' => r'.isOk = true → r.isOk = true ∧ s'.arrays = t.store.arrays) ?_) ?_
  · unfold settle
    cases r with
    | error e =>
      rw [Cmd.wp_bind]
      refine Cmd.wp_mono (Q := fun _ _ => True) trivial fun r' s' _ => ?_
      cases r' with
      | error e' => exact fun h => by cases h
      | ok u => exact fun h => by cases h
    | ok ids =>
      rw [Cmd.wp_bind, Cmd.wp_get]
      simp only
      split <;> exact fun _ => ⟨rfl, rfl⟩
  · rintro r' s' ⟨hkept, hok⟩
    refine ⟨hsaved.kept hkept, fun hr hi => ?_⟩
    obtain ⟨hr, harr⟩ := hok hr
    cases hst : t.staged.isEmpty with
    | false =>
      left
      unfold Synced
      rw [harr]
      exact hfile.flushed hr hi hst
    | true =>
      obtain ⟨h1, h2⟩ := FileObjects.isEmpty_iff.mp hst
      have hacc := hfile.accounts hr
      rcases hfile.file with hsame | ⟨-, hsync⟩
      · refine Or.inr ⟨hkept.trans hsame, fun h hh => ?_, fun x hx => ?_⟩
        · rw [harr] at hh
          exact (hacc.array hh).resolve_right (by rw [h1]; exact List.not_mem_nil)
        · rw [harr] at hx
          exact (hacc.axis hx).resolve_right (by rw [h2]; exact List.not_mem_nil)
      · left
        unfold Synced
        rw [harr]
        exact hsync

end

end Store

end InfraStore
