import InfraStore.Cli.TableImport
import InfraStore.Lib.Script

/-!
# Replacing by batches

`flush` and `merge` replace a whole batch: they remove what the store holds under its identities, which
commits on its own, and then add the batch.  Nothing brings back what was removed when the add fails.

* `flush`, `merge`: the two loads;
* `removeExisting_steady`: the removal consumes a number of statements, so that a failure may come right
  after it;
* `OldOrNew`: the store holds what it held, or the whole batch and every series of another identity;
* `replace_old_or_new_iff`: a load leaves one or the other under every failure exactly when it has
  nothing to replace.
-/

namespace InfraStore.Cli

open InfraStore.Lib Connection

/-- The exact-identity filter for one row. -/
def exactFilter {H : Type} (m : TimeSeriesMetadata H) : ListFilter :=
  { ownerId := some m.ownerId
    ownerCategory := some m.ownerCategory
    timeSeriesType := some m.timeSeriesType
    name := some m.name
    resolution := m.resolution
    interval := m.interval
    features := some m.features
    featuresExact := true }

/-- The request that re-adds a row of another store. -/
def mergeRequest {H : Type} (m : TimeSeriesMetadata H) (data : TimeSeriesData) : AddRequest where
  ownerId := m.ownerId
  ownerType := m.ownerType
  ownerCategory := m.ownerCategory
  data := data
  features := m.features

/-- Reject the keys a store attribute may not have. -/
def validateStoreAttributeKey (key : String) : Result Unit :=
  if key = "" then .error (.invalidParameter "store attribute key must not be empty")
  else if key.startsWith "infrastore." then
    .error (.invalidParameter
      s!"store attribute key '{key}' uses the reserved 'infrastore.' prefix")
  else .ok ()

section

set_option linter.unusedSectionVars false

variable {H B : Type} [DecidableEq H] [ArrayBackend H B] [Sha256 H] [FloatText] [ToString H] [Glob]

/-- Set a store attribute, which is kept in a table of its own. -/
def setStoreAttribute (key : String) : StoreCmd (Store H B) Unit := do
  Cmd.ofExcept (validateStoreAttributeKey key)
  Store.writeCatalog (Connection.statement fun db => .ok ((), db))

/-- Add a batch, after removing what the filters find. -/
def replaceThenAdd (replace : Bool) (filters : List ListFilter) (requests : List AddRequest) :
    StoreCmd (Store H B) (List ℤ) := do
  if replace then
    let _ ← removeExisting filters
  Store.addRequests requests

/-- Write one batch; the lines of its report. -/
def flush (pending : List AddRequest) (replace : Bool) : StoreCmd (Store H B) (List AddedRow) :=
  if pending = [] then pure []
  else do
    let keys ← replaceThenAdd replace (pending.map requestIdentity) pending
    pure (List.zipWith AddedRow.of pending keys)

/-- Copy the rows selected in another store, as read there, into this one, and then the attributes that
this one lacks; the number of rows. -/
def merge (metas : List (TimeSeriesMetadata H)) (datas : List TimeSeriesData)
    (newAttributes : List String) (replace : Bool) : StoreCmd (Store H B) ℕ := do
  let ids ← replaceThenAdd replace (metas.map exactFilter) (List.zipWith mergeRequest metas datas)
  newAttributes.forM setStoreAttribute
  Store.flush
  pure ids.length

/-! ### A failure may come right after the removal -/

/-- A connection with other answers to come. -/
def armed (faults : List Fault) (c : Connection H) : Connection H := { c with faults }

/-- A catalog command is indifferent to the answers it does not consume. -/
abbrev SteadyConn {α : Type} (c : StoreCmd (Connection H) α) : Prop := Cmd.Steady armed Fault.none c

/-- Likewise a command of the store. -/
abbrev SteadyStore {α : Type} (c : StoreCmd (Store H B) α) : Prop :=
  Cmd.Steady Store.arm Fault.none c

theorem armed_armed (a b : List Fault) (c : Connection H) : armed a (armed b c) = armed a c := rfl

theorem arm_arm (a b : List Fault) (s : Store H B) : Store.arm a (Store.arm b s) = Store.arm a s := rfl

variable {α β : Type}

theorem execute_armed (f : Connection H → Result (α × Connection H)) (a : List Fault)
    (c : Connection H) : (Connection.execute f).exec (armed (.none :: a) c) =
      match f (armed a c) with
      | .ok (x, c') => (.ok x, c')
      | .error e => (.error e, armed a c) := rfl

theorem execute_unarmed (f : Connection H → Result (α × Connection H)) (c : Connection H) :
    (Connection.execute f).exec (armed [] c) =
      match f (armed [] c) with
      | .ok (x, c') => (.ok x, c')
      | .error e => (.error e, armed [] c) := rfl

/-- One statement consumes one answer. -/
theorem execute_steady {f : Connection H → Result (α × Connection H)}
    (hf : ∀ a c, f (armed a c) = (f c).map fun x => (x.1, armed a x.2)) :
    SteadyConn (Connection.execute f) := by
  constructor
  · intro c
    rw [execute_unarmed, hf]
    cases f c <;> rfl
  · intro c
    refine ⟨1, fun script => ?_⟩
    rw [List.replicate_one, List.singleton_append, execute_unarmed, execute_armed, hf, hf]
    cases f c <;> rfl

theorem statement_steady (f : Catalog H → Result (α × Catalog H)) :
    SteadyConn (Connection.statement f) := by
  refine execute_steady fun a c => ?_
  show (f c.db).map _ = ((f c.db).map _).map _
  cases f c.db <;> rfl

theorem query_steady (f : Catalog H → Result α) : SteadyConn (Connection.query f) := statement_steady _

theorem pure_steady (a : α) : SteadyConn (pure a : StoreCmd (Connection H) α) :=
  Cmd.steady_pure armed_armed a

theorem throw_steady (e : TimeSeriesError) : SteadyConn (throw e : StoreCmd (Connection H) α) :=
  Cmd.steady_throw armed_armed e

theorem closeSavepoint_steady (r : Result α) :
    SteadyConn (Connection.closeSavepoint r : StoreCmd (Connection H) α) := by
  have hdrop : SteadyConn (Connection.dropSavepoint : StoreCmd (Connection H) Unit) := by
    refine Cmd.steady_modify armed_armed fun a c => ?_
    rcases c with ⟨db, savepoints, faults, readOnly⟩
    cases savepoints <;> rfl
  unfold Connection.closeSavepoint
  cases r with
  | error e => exact Cmd.steady_bind hdrop fun _ => throw_steady e
  | ok x =>
    refine Cmd.steady_bind (Cmd.steady_attempt (execute_steady fun a c => ?_)) fun r => ?_
    · rcases c with ⟨db, savepoints, faults, readOnly⟩
      cases savepoints <;> rfl
    · cases r with
      | ok u => exact pure_steady x
      | error e => exact Cmd.steady_bind hdrop fun _ => throw_steady e

theorem withSavepoint_steady {body : StoreCmd (Connection H) α} (h : SteadyConn body) :
    SteadyConn (Connection.withSavepoint body) := by
  unfold Connection.withSavepoint
  refine Cmd.steady_bind ?_ fun _ => Cmd.steady_bind (Cmd.steady_attempt h) closeSavepoint_steady
  unfold Connection.savepoint
  refine Cmd.steady_get (fun _ _ => rfl) fun c => ?_
  simp only
  split
  · exact Cmd.steady_bind (throw_steady _) fun _ => execute_steady fun _ _ => rfl
  · exact execute_steady fun _ _ => rfl

theorem deleteById_steady (id : ℤ) (owner : Option (ℤ × OwnerCategory)) :
    SteadyConn (deleteById id owner : StoreCmd (Connection H) _) := by
  unfold deleteById
  refine Cmd.steady_bind (query_steady _) fun found => ?_
  cases found with
  | none => exact pure_steady none
  | some r =>
    have hrest : SteadyConn (do
        Connection.statement fun db => .ok ((), db.deleteWhere (·.id = id))
        let resolution ← Cmd.ofExcept (AssociationRow.parseColumn isoToPeriod r.resolution)
        pure (some
          { dataHash := r.dataHash, timeSeriesType := r.timeSeriesType, ownerId := r.ownerId,
            ownerCategory := r.ownerCategory, name := r.name, resolution,
            featuresHash := r.featuresHash }) : StoreCmd (Connection H) (Option (DeletedRow H))) :=
      Cmd.steady_bind (statement_steady _) fun _ =>
        Cmd.steady_bind (Cmd.steady_ofExcept armed_armed _) fun _ => pure_steady _
    cases owner with
    | none => exact hrest
    | some o =>
      simp only
      split
      · exact Cmd.steady_bind (throw_steady _) fun _ => hrest
      · exact hrest

theorem deleteIds_steady (owner : Option (ℤ × OwnerCategory)) (ids : List ℤ) :
    ∀ seen, SteadyConn (deleteIds owner ids seen : StoreCmd (Connection H) _) := by
  induction ids with
  | nil => exact fun seen => pure_steady []
  | cons id ids ih =>
    intro seen
    unfold deleteIds
    split
    · exact ih seen
    · refine Cmd.steady_bind (deleteById_steady id owner) fun found => ?_
      cases found with
      | none => exact throw_steady _
      | some row => exact Cmd.steady_bind (ih _) fun _ => pure_steady _

theorem checkNoOrphanedDst_steady (rows : List (DeletedRow H)) :
    ∀ seen, SteadyConn (checkNoOrphanedDst rows seen) := by
  induction rows with
  | nil => exact fun seen => pure_steady ()
  | cons row rows ih =>
    intro seen
    unfold checkNoOrphanedDst
    dsimp only
    split
    · exact ih seen
    · refine Cmd.steady_bind (query_steady _) fun found => ?_
      cases found with
      | false => exact ih _
      | true =>
        refine Cmd.steady_bind (query_steady _) fun backed => ?_
        cases backed with
        | true => exact ih _
        | false => exact Cmd.steady_bind (throw_steady _) fun _ => ih _

theorem unreferencedIn_steady (referenced : Catalog H → H → Bool) (hs : List H) :
    ∀ seen, SteadyConn (unreferencedIn referenced hs seen) := by
  induction hs with
  | nil => exact fun seen => pure_steady []
  | cons h hs ih =>
    intro seen
    unfold unreferencedIn
    split
    · exact ih seen
    · exact Cmd.steady_bind (query_steady _) fun used => Cmd.steady_bind (ih _) fun _ => pure_steady _

theorem onConn_steady {c : StoreCmd (Connection H) α} (h : SteadyConn c) :
    SteadyStore (Store.onConn c : StoreCmd (Store H B) α) :=
  Cmd.steady_zoom (fun _ _ => rfl) (fun _ _ _ => rfl) (fun _ _ _ => rfl) h

theorem onArrays_steady (c : StoreCmd (ArrayStore H B) α) : SteadyStore (Store.onArrays c) :=
  Cmd.steady_beside arm_arm (fun _ _ => rfl) fun _ _ _ => rfl

theorem removeByIdsInner_steady (ids : List ℤ) (owner : Option (ℤ × OwnerCategory)) :
    SteadyStore (Store.removeByIdsInner ids owner : StoreCmd (Store H B) ℕ) := by
  unfold Store.removeByIdsInner
  refine Cmd.steady_bind ?_ fun out => Cmd.steady_bind ?_ fun _ => Cmd.steady_pure arm_arm _
  · unfold Store.writeCatalog Store.checkTransactionAlive
    refine Cmd.steady_bind (Cmd.steady_get (fun _ _ => rfl) fun s => ?_) fun _ =>
      onConn_steady (withSavepoint_steady ?_)
    · split
      · exact Cmd.steady_throw arm_arm _
      · exact Cmd.steady_pure arm_arm _
    · exact Cmd.steady_bind (deleteIds_steady _ _ _) fun _ =>
        Cmd.steady_bind (checkNoOrphanedDst_steady _ _) fun _ =>
        Cmd.steady_bind (unreferencedIn_steady _ _ _) fun _ => pure_steady _
  · unfold Store.freeOrDefer
    refine Cmd.steady_get (fun _ _ => rfl) fun s => ?_
    split
    · exact Cmd.steady_modify arm_arm fun _ _ => rfl
    · exact onArrays_steady _

theorem presentIds_steady (filters : List ListFilter) :
    ∀ present, SteadyStore (presentIds filters present : StoreCmd (Store H B) (List ℤ)) := by
  induction filters with
  | nil => exact fun present => Cmd.steady_pure arm_arm present
  | cons f filters ih =>
    intro present
    exact Cmd.steady_bind (onConn_steady (query_steady _)) fun _ => ih _

/-- The removal consumes a number of answers, whatever comes after them. -/
theorem removeExisting_steady (filters : List ListFilter) :
    SteadyStore (removeExisting filters : StoreCmd (Store H B) ℕ) := by
  unfold removeExisting
  refine Cmd.steady_bind (presentIds_steady _ _) fun present => ?_
  split
  · exact Cmd.steady_pure arm_arm 0
  · exact removeByIdsInner_steady _ _

/-! ### What a batch would replace -/

/-- The ids of the rows each filter finds in a catalog. -/
def foundIds : List ListFilter → List ℤ → Catalog H → Result (List ℤ)
  | [], present, _ => .ok present
  | f :: filters, present, db => do
    let found ← db.listFilter none f.toFilter
    foundIds filters (present ++ found.filterMap (·.id)) db

/-- A batch has something to replace: its filters find rows, and the rows may be removed. -/
def Replaceable (filters : List ListFilter) (db : Catalog H) : Prop :=
  ∃ ids, foundIds filters [] db = .ok ids ∧ ids ≠ [] ∧ Removable none ids db

/-- A query that the engine does not disturb. -/
theorem query_calm (f : Catalog H → Result α) (s : Store H B) :
    (Store.onConn (Connection.query f)).exec (s.arm []) = (f s.db, s.arm []) := by
  have hrun : (Connection.query f).exec (s.arm []).conn = (f s.db, (s.arm []).conn) := by
    unfold Connection.query Connection.statement Connection.execute
    rw [Cmd.exec_ofExec]
    simp only [Store.arm, List.headD_nil, Connection.next, List.tail_nil, Store.db]
    cases f s.conn.db <;> rfl
  unfold Store.onConn
  rw [Cmd.exec_zoom, hrun]

theorem presentIds_calm (filters : List ListFilter) :
    ∀ (present : List ℤ) (s : Store H B),
      (presentIds filters present).exec (s.arm []) = (foundIds filters present s.db, s.arm []) := by
  induction filters with
  | nil => exact fun present s => rfl
  | cons f filters ih =>
    intro present s
    unfold presentIds foundIds
    rw [Cmd.exec_bind, query_calm]
    cases s.db.listFilter none f.toFilter with
    | error e => rfl
    | ok found => exact ih _ s

variable [LawfulArrayBackend H B]

theorem presentIds_found (filters : List ListFilter) :
    ∀ (present : List ℤ) (s : Store H B), (presentIds filters present).wp
      (Store.CatalogOnly s fun out db => db = s.db ∧ foundIds filters present s.db = .ok out) s := by
  induction filters with
  | nil => exact fun present s => Store.catalogOnly_pure ⟨rfl, rfl⟩
  | cons f filters ih =>
    intro present s
    unfold presentIds
    refine Store.catalogOnly_bind Store.catalogOnly_query fun found s₁ _ _ hdb _ hfound => ?_
    refine Cmd.wp_mono (ih (present ++ found.filterMap (·.id)) s₁) fun r s₂ h =>
      ⟨h.1, h.2.1, h.2.2.mono ?_ fun _ h => h⟩
    rintro out db ⟨hdb', hout⟩
    refine ⟨hdb'.trans hdb, ?_⟩
    unfold foundIds
    rw [hfound]
    rw [hdb] at hout
    exact hout

/-! ### What a load keeps -/

theorem Carried.refl {s : Store H B} {r : AssociationRow H} (hr : r ∈ s.db.rows) : Carried s s r :=
  ⟨hr, fun e => e, fun _ e => e⟩

theorem Carried.trans {s s₁ s₂ : Store H B} {r : AssociationRow H} (h : Carried s s₁ r)
    (h' : Carried s₁ s₂ r) : Carried s s₂ r :=
  ⟨h'.row, fun e => h'.array (h.array e), fun hx e => h'.axis hx (h.axis hx e)⟩

/-- A write that leaves a row leaves what it names. -/
theorem carried_of_wrote {s s' : Store H B} {w g : FileObjects H} (h : Store.Wrote s s' w g)
    {r : AssociationRow H} (hr : r ∈ s'.db.rows) : Carried s s' r := by
  refine ⟨hr, fun e => ?_, fun hx e => ?_⟩
  · rcases h.kept e with e | ⟨-, -, hn⟩
    · exact e
    · exact absurd ⟨r, hr, rfl⟩ hn
  · rcases h.keptAxis e with e | ⟨-, -, hn⟩
    · exact e
    · have hnamed := hn
      rw [Catalog.referencesTimestamps, List.any_eq_false] at hnamed
      exact absurd (decide_eq_true hx) (hnamed r hr)

/-- A store with no transaction open that carries every series of an earlier one. -/
structure Keeping (s t : Store H B) : Prop where
  inv : t.Inv
  idle : t.inTransaction = false
  carried : ∀ r ∈ s.db.rows, Carried s t r

theorem Keeping.refl {s : Store H B} (hs : s.Inv) (hidle : s.inTransaction = false) : Keeping s s :=
  ⟨hs, hidle, fun _ hr => .refl hr⟩

theorem Keeping.wrote {s t t' : Store H B} {w g : FileObjects H} (h : Keeping s t)
    (hw : Store.Wrote t t' w g) (hrows : ∀ r ∈ t.db.rows, r ∈ t'.db.rows) : Keeping s t' := by
  refine ⟨h.inv.effect (.wrote w g hw), ?_, fun r hr => ?_⟩
  · have := h.idle
    unfold Store.inTransaction at this ⊢
    rw [hw.marks]
    exact this
  · exact (h.carried r hr).trans (carried_of_wrote hw (hrows r (h.carried r hr).row))

theorem Keeping.noSavepoint {s t : Store H B} (h : Keeping s t) : t.conn.savepoints = [] :=
  (h.inv.toSound.idle h.idle).2.1

/-- Outside a transaction there is nothing the engine could roll back. -/
theorem not_rolledBack {c c' : Connection H} (h : c.savepoints = []) : ¬ RolledBack c c' := by
  intro hback
  have := hback.saved
  rw [h] at this
  cases this

/-- A batch that is added, added in part or refused leaves the rows there were. -/
theorem addRequests_keeping {s t : Store H B} (h : Keeping s t) (items : List AddRequest) :
    (Store.addRequests (B := B) items).wp (fun r t' => Keeping s t' ∧
      (r.isOk = true → ∀ item ∈ items, ∃ id, Holding t' item id) ∧
      (r.isOk = false → t'.db.rows = t.db.rows)) t := by
  refine Cmd.wp_mono (Store.addRequests_spec h.inv.toSound items) fun r t' hr => ?_
  obtain ⟨⟨w, hw⟩, hout⟩ := hr
  cases r with
  | error e =>
    have hrows : t'.db.rows = t.db.rows := by
      rcases hout.2 with hu | hback
      · exact hu.2.rows.1
      · exact absurd hback (not_rolledBack h.noSavepoint)
    refine ⟨h.wrote hw fun r hr => by rw [hrows]; exact hr, fun hok => (by cases hok), fun _ => hrows⟩
  | ok ids =>
    obtain ⟨-, -, parts, hfiled⟩ := hout
    obtain ⟨hkept, -, hnew⟩ := hfiled.references
    have hkeeping := h.wrote hw hkept
    refine ⟨hkeeping, fun _ item hitem => ?_, fun hok => (by cases hok)⟩
    obtain ⟨p, hp, hbuild⟩ := mapM_covers hfiled.built hitem
    obtain ⟨id, hmem⟩ := hnew p hp
    exact ⟨_, holding_of_filed hkeeping.inv hmem ⟨p, hbuild, rfl⟩⟩

theorem setStoreAttribute_keeping (s : Store H B) (key : String) :
    Cmd.Keeps (Keeping s) (setStoreAttribute (B := B) key) := by
  apply Cmd.keeps_bind (Cmd.keeps_ofExcept _)
  intro _ t ht
  have hspec := @Store.writeCatalog_spec _ _ _ _ _ _ _ t
    (Connection.statement fun db => .ok ((), db)) (P := fun (_ : Unit) db => db = t.db)
    (E := (· = t.db)) fun c₁ _ hdb => Connection.outcome_statement (fun _ _ h => ?_) hdb
  · refine Cmd.wp_mono hspec fun r t' hr => ?_
    have hdb : t'.db = t.db := by
      cases r with
      | error e =>
        rcases hr.2.2.2 with hu | hback
        · exact hu.2
        · exact absurd hback (not_rolledBack ht.noSavepoint)
      | ok u => exact hr.2.2.2.2.2
    refine ht.wrote (hr.wrote ht.inv.toSound fun a db hP => ?_) fun r hr => by rw [hdb]; exact hr
    rw [hP.2]
    exact ⟨fun _ => rfl, .of_rows rfl fun _ h => h⟩
  · rw [← hdb]
    exact (congrArg Prod.snd (Except.ok.inj h)).symm

theorem flush_keeping (s : Store H B) : Cmd.Keeps (Keeping s) (Store.flush (B := B)) := by
  intro t ht
  refine Cmd.wp_mono (Store.flush_spec ht.inv.toSound) fun r t' hr => ?_
  refine ht.wrote hr.wrote fun r hmem => ?_
  rcases hr.catalog with ⟨-, hdb⟩ | hback
  · rw [hdb]
    exact hmem
  · exact absurd hback (not_rolledBack ht.noSavepoint)

/-! ### An add whose first statement is refused -/

theorem stageTimestampVectors_conn (parts : List (RequestParts H)) :
    ∀ seen, Cmd.Frame (fun t : Store.Staging H B => t.store.conn)
      (Store.Staging.stageTimestampVectors parts seen) := by
  induction parts with
  | nil => exact fun seen => Cmd.frame_pure seen
  | cons p parts ih =>
    intro seen
    apply Cmd.frame_bind _ ih
    unfold Store.Staging.stageTimestampVector
    split
    · split
      · exact Cmd.frame_pure seen
      · apply Cmd.frame_bind (Cmd.frame_zoom fun _ => rfl)
        intro stored
        cases stored with
        | false => exact Cmd.frame_pure _
        | true => exact Cmd.frame_bind (Cmd.frame_modify fun _ => rfl) fun _ => Cmd.frame_pure _
    · exact Cmd.frame_pure seen

theorem stagePut_conn (array : TypedArray) (p : RequestParts H) :
    Cmd.Frame (fun t : Store.Staging H B => t.store.conn) (Store.Staging.stagePut array p) := by
  unfold Store.Staging.stagePut
  apply Cmd.frame_bind Cmd.frame_get
  intro t
  apply Cmd.frame_bind (Cmd.frame_zoom fun _ => rfl)
  intro stored
  cases stored with
  | false => exact Cmd.frame_pure ()
  | true => exact Cmd.frame_modify fun _ => rfl

theorem stageArrays_conn (xs : List (TypedArray × RequestParts H)) :
    Cmd.Frame (fun t : Store.Staging H B => t.store.conn) (Store.Staging.stageArrays xs) := by
  unfold Store.Staging.stageArrays
  apply Cmd.frame_bind Cmd.frame_get
  intro t
  split
  · exact Cmd.frame_forM _ fun x _ => stagePut_conn x.1 x.2
  · apply Cmd.frame_bind (Cmd.frame_forM _ fun x _ => stagePut_conn x.1 x.2)
    intro _
    apply Cmd.frame_forM
    intro pool _
    exact Cmd.frame_bind (Cmd.frame_zoom fun _ => rfl) fun _ => Cmd.frame_modify fun _ => rfl

/-- The engine refuses the next statement. -/
def Refuses (c : Connection H) : Prop := c.faults.headD .none ≠ .none

theorem savepoint_refused {c : Connection H} (h : Refuses c) :
    (Connection.savepoint : StoreCmd (Connection H) Unit).wp (fun r _ => r.isOk = false) c := by
  unfold Connection.savepoint
  rw [Cmd.wp_bind, Cmd.wp_get]
  simp only
  split
  · rfl
  · unfold Connection.execute Cmd.wp
    rw [Cmd.exec_ofExec]
    unfold Refuses at h
    split
    · rename_i hf
      exact absurd hf h
    · rfl
    · rfl

/-- An add outside a transaction files nothing when the engine refuses its first statement. -/
theorem addRequests_refused {s : Store H B} (hidle : s.inTransaction = false) {items : List AddRequest}
    (hitems : items ≠ []) (h : Refuses s.conn) :
    (Store.addRequests (B := B) items).wp (fun r _ => r.isOk = false) s := by
  have hstaged : (Store.addRequestsStaged (B := B) items).wp (fun r _ => r.isOk = false)
      ⟨s, .empty⟩ := by
    unfold Store.addRequestsStaged
    rw [Cmd.wp_bind, Cmd.wp_get]
    simp only
    split
    · rfl
    have halive : (Store.checkTransactionAlive (B := B)).exec s = (.ok (), s) := by
      unfold Store.checkTransactionAlive
      rw [Cmd.exec_bind, Cmd.exec_get]
      simp only [Store.transactionWasForcedBack, hidle, Bool.false_and, Bool.false_eq_true, if_false]
      rfl
    have htake : (Store.takeSharedSets (B := B)).exec s = (.ok .empty, s) := by
      unfold Store.takeSharedSets
      rw [Cmd.exec_bind, Cmd.exec_get]
      simp only [hidle, Bool.false_eq_true, if_false]
      rfl
    simp only [Store.Staging.onStore, Cmd.wp_bind, Cmd.wp_zoom]
    rw [Cmd.wp_of_exec halive]
    simp only [Cmd.wp_ofExcept]
    cases items.mapM (buildRequestParts (H := H)) with
    | error e => rfl
    | ok parts =>
      simp only
      rw [Cmd.wp_of_exec htake]
      refine Cmd.wp_mono ((stageTimestampVectors_conn parts .empty).wp _) fun r t₁ h₁ => ?_
      cases r with
      | error e => rfl
      | ok cache =>
        refine Cmd.wp_mono ((stageArrays_conn _).wp t₁) fun r t₂ h₂ => ?_
        cases r with
        | error e => rfl
        | ok u =>
          have hconn : t₂.store.conn = s.conn := h₂.trans h₁
          simp only [Store.fileRows, hidle, Bool.not_false, Bool.true_or, if_true, Cmd.wp_bind,
            Store.Staging.onStore, Store.onConn, Cmd.wp_zoom]
          rw [hconn]
          refine Cmd.wp_mono (savepoint_refused h) fun r t₃ h₃ => ?_
          cases r with
          | error e => rfl
          | ok u => cases h₃
  unfold Store.addRequests
  rw [Cmd.wp_bind, Cmd.wp_get]
  simp only
  unfold Cmd.wp at hstaged
  cases hx : (Store.addRequestsStaged (B := B) items).exec ⟨s, .empty⟩ with
  | mk r t =>
    rw [hx] at hstaged
    cases r with
    | ok ids => cases hstaged
    | error e =>
      simp only [Cmd.wp_bind, Cmd.wp_set, Store.settle]
      unfold Cmd.wp
      cases ((Store.onArrays (Store.removeWrites t.staged)).exec t.store).1 <;> rfl

/-! ### The old or the new -/

/-- A store holds every series it held, or all of a batch and every series of another identity. -/
def OldOrNew (s s' : Store H B) (items : List AddRequest) : Prop :=
  (∀ r ∈ s.db.rows, Carried s s' r) ∨
    ((∀ item ∈ items, ∃ id, Holding s' item id) ∧
      ∀ r ∈ s.db.rows, Carried s s' r ∨ ∃ item ∈ items, r.identity = requestKey item)

/-- A removal with nothing to replace leaves every series, whatever it ends with. -/
theorem removeExisting_keeping {s : Store H B} (hs : s.Inv) (hidle : s.inTransaction = false)
    (hspelt : ∀ r ∈ s.db.rows, r.Spelt) {filters : List ListFilter}
    (hnone : ¬ Replaceable filters s.db) :
    (removeExisting filters).wp (fun _ s' => Keeping s s') s := by
  have hkeep := Keeping.refl hs hidle
  unfold removeExisting
  rw [Cmd.wp_bind]
  refine Cmd.wp_mono (presentIds_found filters [] s) fun r s₁ h => ?_
  have hdb₁ : s₁.db = s.db := by
    cases r with
    | error e =>
      rcases h.2.2.2 with hu | hback
      · exact hu.2
      · exact absurd hback (not_rolledBack hkeep.noSavepoint)
    | ok present => exact h.2.2.2.2.1
  have hkeep₁ : Keeping s s₁ := by
    refine hkeep.wrote (h.wrote hs.toSound fun a db hP => ?_) fun r hr => by rw [hdb₁]; exact hr
    rw [hP.1]
    exact ⟨fun _ => rfl, .of_rows rfl fun _ h => h⟩
  cases r with
  | error e => exact hkeep₁
  | ok present =>
    have hfound : foundIds filters [] s.db = .ok present := h.2.2.2.2.2
    simp only
    split
    · exact hkeep₁
    · rename_i hne
      refine Cmd.wp_mono (Store.removeByIdsInner_spec hkeep₁.inv.toSound present none) fun r s' hr => ?_
      obtain ⟨⟨g, hw⟩, hout⟩ := hr
      cases r with
      | error e =>
        refine hkeep₁.wrote hw fun r hr => ?_
        rcases hout.2 with hu | hback
        · rw [show s'.db = s₁.db from hu.2]
          exact hr
        · exact absurd hback (not_rolledBack hkeep₁.noSavepoint)
      | ok n =>
        obtain ⟨-, -, -, hids⟩ := hout
        rw [hdb₁] at hids
        exact absurd ⟨present, hfound, hne, hids.removable hspelt⟩ hnone

/-- A removal with something to replace, that the engine does not disturb, takes a series. -/
theorem removeExisting_calm {s : Store H B} (hs : s.Inv) (hidle : s.inTransaction = false)
    (hro : s.conn.readOnly = false) (hspelt : ∀ r ∈ s.db.rows, r.Spelt) {filters : List ListFilter}
    (hsome : Replaceable filters s.db) : ∃ n s₁, (removeExisting filters).exec (s.arm []) = (.ok n, s₁) ∧
      s₁.Inv ∧ s₁.inTransaction = false ∧ (∀ r ∈ s₁.db.rows, r ∈ s.db.rows) ∧
      ∃ r ∈ s.db.rows, r ∉ s₁.db.rows := by
  obtain ⟨ids, hfound, hne, hrem⟩ := hsome
  have hinv := hs.arm []
  have halive : (s.arm []).transactionWasForcedBack = false := by
    unfold Store.transactionWasForcedBack
    rw [show (s.arm []).inTransaction = false from hidle]
    rfl
  have hdone := Store.removeByIds_succeeds (B := B) hinv.toSound rfl hro halive hspelt hrem
  have hspec := Store.removeByIdsInner_spec (B := B) hinv.toSound ids none
  have hexec : (removeExisting filters).exec (s.arm []) =
      (Store.removeByIdsInner (B := B) ids none).exec (s.arm []) := by
    unfold removeExisting
    rw [Cmd.exec_bind, presentIds_calm, hfound]
    simp only
    rw [if_neg hne]
  unfold Cmd.wp at hdone hspec
  rw [hexec]
  cases hx : (Store.removeByIdsInner (H := H) (B := B) ids none).exec (s.arm []) with
  | mk r s₁ =>
    rw [hx] at hdone hspec
    cases r with
    | error e => cases hdone
    | ok n =>
      obtain ⟨⟨g, hw⟩, -, -, -, hids⟩ := hspec
      have hrows : ∀ r, r ∈ s₁.db.rows ↔ r ∈ s.db.rows ∧ r.id ∉ ids := by
        intro r
        rw [show s₁.db = _ from hids.rest]
        unfold Catalog.deleteWhere
        rw [List.mem_filter, Bool.not_eq_true', decide_eq_false_iff_not]
        rfl
      refine ⟨n, s₁, rfl, hinv.effect (.wrote _ g hw), ?_, fun r hr => ((hrows r).mp hr).1, ?_⟩
      · unfold Store.inTransaction at hidle ⊢
        rw [hw.marks]
        exact hidle
      · obtain ⟨id, hid⟩ := List.exists_mem_of_ne_nil ids hne
        obtain ⟨r, hr, rfl⟩ := hids.found id hid
        exact ⟨r, hr, fun hmem => ((hrows r).mp hmem).2 hid⟩

/-- A series that is gone was neither kept nor replaced, when no series of the batch was added. -/
theorem not_oldOrNew {s s' : Store H B} {items : List AddRequest}
    (hsub : ∀ r ∈ s'.db.rows, r ∈ s.db.rows) {r : AssociationRow H} (hr : r ∈ s.db.rows)
    (hgone : r ∉ s'.db.rows) : ¬ OldOrNew s s' items := by
  rintro (h | ⟨hnew, hold⟩)
  · exact hgone (h r hr).row
  · rcases hold r hr with hc | ⟨item, hitem, hkey⟩
    · exact hgone hc.row
    · obtain ⟨id, r', hr', -, hfiled, -⟩ := hnew item hitem
      have hsame : r' = r := by
        apply Catalog.eq_of_identity (hsub r' hr') hr
        rw [filed_identity hfiled, hkey]
      exact hgone (hsame ▸ hr')

theorem replaceThenAdd_keeping {s : Store H B} (hs : s.Inv) (hidle : s.inTransaction = false)
    (hspelt : ∀ r ∈ s.db.rows, r.Spelt) {filters : List ListFilter}
    (hnone : ¬ Replaceable filters s.db) (requests : List AddRequest) :
    (replaceThenAdd true filters requests).wp (fun _ s' => Keeping s s') s := by
  unfold replaceThenAdd
  simp only [if_true, Cmd.wp_bind]
  refine Cmd.wp_mono (removeExisting_keeping hs hidle hspelt hnone) fun r s₁ h₁ => ?_
  cases r with
  | error e => exact h₁
  | ok n => exact Cmd.wp_mono (addRequests_keeping h₁ requests) fun _ _ h => h.1

/-- Answers under which a load with something to replace takes a series and adds none. -/
theorem replaceThenAdd_breaks {s : Store H B} (hs : s.Inv) (hidle : s.inTransaction = false)
    (hro : s.conn.readOnly = false) (hspelt : ∀ r ∈ s.db.rows, r.Spelt) {filters : List ListFilter}
    (hsome : Replaceable filters s.db) {requests : List AddRequest} (hrequests : requests ≠ []) :
    ∃ faults, (replaceThenAdd true filters requests).wp
      (fun r s' => r.isOk = false ∧ ¬ OldOrNew s s' requests) (s.arm faults) := by
  obtain ⟨n, s₁, hexec, hinv₁, hidle₁, hsub, r, hr, hgone⟩ :=
    removeExisting_calm hs hidle hro hspelt hsome
  obtain ⟨before, hbefore⟩ := (removeExisting_steady filters).interrupt s [.fails]
  rw [hexec] at hbefore
  refine ⟨before, ?_⟩
  unfold replaceThenAdd
  simp only [if_true, Cmd.wp_bind]
  rw [Cmd.wp_of_exec hbefore]
  show (Store.addRequests (B := B) requests).wp _ (s₁.arm [.fails])
  have hkeep : Keeping (s₁.arm [.fails]) (s₁.arm [.fails]) := .refl (hinv₁.arm _) hidle₁
  have hrefused := addRequests_refused (s := s₁.arm [.fails]) hidle₁ hrequests
    (show Refuses (s₁.arm [.fails]).conn from fun h => (by cases h))
  refine Cmd.wp_mono (Cmd.wp_and hrefused (addRequests_keeping hkeep requests)) fun r' s' h => ?_
  have hrows := h.2.2.2 h.1
  have hsame : s'.db.rows = s₁.db.rows := hrows
  exact ⟨h.1, not_oldOrNew (fun x hx => hsub x (hsame ▸ hx)) hr fun hx => hgone (hsame ▸ hx)⟩

/-- **The old or the new.**  A batch written with `--replace`, and a merge with it, leave one or the other
whatever the engine answers, exactly when they have nothing to replace. -/
theorem replace_old_or_new_iff {s : Store H B} (h : s.Reachable) (hdepth : s.depth = 0) :
    (∀ pending, (∀ faults, OldOrNew s ((flush pending true).exec (s.arm faults)).2 pending) ↔
      ¬ Replaceable (pending.map requestIdentity) s.db) ∧
    ∀ (metas : List (TimeSeriesMetadata H)) (datas : List TimeSeriesData) (newAttributes : List String),
      metas.length = datas.length →
      ((∀ faults, OldOrNew s ((merge metas datas newAttributes true).exec (s.arm faults)).2
          (List.zipWith mergeRequest metas datas)) ↔ ¬ Replaceable (metas.map exactFilter) s.db) := by
  have hidle : s.inTransaction = false := by
    unfold Store.inTransaction
    rw [List.eq_nil_of_length_eq_zero hdepth]
    rfl
  have hcarried : ∀ {faults : List Fault} {s' : Store H B} {items : List AddRequest},
      Keeping (s.arm faults) s' → OldOrNew s s' items := fun hk =>
    Or.inl fun r hr => ⟨(hk.carried r hr).row, (hk.carried r hr).array, (hk.carried r hr).axis⟩
  have hempty : ¬ Replaceable [] s.db := by
    rintro ⟨ids, hids, hne, -⟩
    exact hne (Except.ok.inj hids).symm
  constructor
  · intro pending
    constructor
    · intro hall hsome
      by_cases hnil : pending = []
      · rw [hnil] at hsome
        exact hempty hsome
      · obtain ⟨faults, hbreaks⟩ :=
          replaceThenAdd_breaks h.inv hidle h.writable h.spelt hsome hnil
        have hbroken : (flush pending true).wp (fun _ s' => ¬ OldOrNew s s' pending) (s.arm faults) := by
          unfold flush
          rw [if_neg hnil, Cmd.wp_bind]
          refine Cmd.wp_mono hbreaks fun r s' hr => ?_
          cases r with
          | error e => exact hr.2
          | ok ids => cases hr.1
        exact hbroken (hall faults)
    · intro hnone faults
      have hkeep : (flush pending true).wp (fun _ s' => Keeping (s.arm faults) s') (s.arm faults) := by
        unfold flush
        split
        · exact .refl (h.inv.arm faults) hidle
        · rw [Cmd.wp_bind]
          refine Cmd.wp_mono (replaceThenAdd_keeping (h.inv.arm faults) hidle h.spelt hnone pending)
            fun r s' hr => ?_
          cases r with
          | error e => exact hr
          | ok ids => exact hr
      exact hcarried hkeep
  · intro metas datas newAttributes hlength
    constructor
    · intro hall hsome
      have hne : List.zipWith mergeRequest metas datas ≠ [] := by
        intro hnil
        have hzero := congrArg List.length hnil
        rw [List.length_zipWith, ← hlength, min_self, List.length_nil] at hzero
        rw [List.eq_nil_of_length_eq_zero hzero] at hsome
        exact hempty hsome
      obtain ⟨faults, hbreaks⟩ := replaceThenAdd_breaks h.inv hidle h.writable h.spelt hsome hne
      have hbroken : (merge metas datas newAttributes true).wp
          (fun _ s' => ¬ OldOrNew s s' (List.zipWith mergeRequest metas datas)) (s.arm faults) := by
        unfold merge
        rw [Cmd.wp_bind]
        refine Cmd.wp_mono hbreaks fun r s' hr => ?_
        cases r with
        | error e => exact hr.2
        | ok ids => cases hr.1
      exact hbroken (hall faults)
    · intro hnone faults
      have hkeep : (merge metas datas newAttributes true).wp
          (fun _ s' => Keeping (s.arm faults) s') (s.arm faults) := by
        unfold merge
        rw [Cmd.wp_bind]
        refine Cmd.wp_mono (replaceThenAdd_keeping (h.inv.arm faults) hidle h.spelt hnone _)
          fun r s' hr => ?_
        cases r with
        | error e => exact hr
        | ok ids =>
          refine Cmd.keeps_bind (Cmd.keeps_forM newAttributes fun key _ =>
            setStoreAttribute_keeping (s.arm faults) key) (fun _ => ?_) s' hr
          exact Cmd.keeps_bind (flush_keeping (s.arm faults)) fun _ => Cmd.keeps_pure _
      exact hcarried hkeep

end

namespace Sample

open Store.Sample

/-- A store with one series. -/
def held : Store Digest (MemoryBackend Digest) := after [⟨.addRequests [request 1 7], []⟩]

/-- A batch that names one identity twice: what it would replace is removed, and then its add is
refused. -/
theorem flush_neither :
    ((flush [request 1 8, request 1 9] true).exec held).1.isOk = false ∧
      ((flush [request 1 8, request 1 9] true).exec held).2.db.rows = [] ∧
      held.db.rows.map (·.id) = [1] := by
  decide +kernel

theorem replace_old_or_new_iff_held :
    (∀ pending, (∀ faults, OldOrNew held ((flush pending true).exec (held.arm faults)).2 pending) ↔
      ¬ Replaceable (pending.map requestIdentity) held.db) ∧
    ((∀ faults, OldOrNew held ((merge [] [] ["creator"] true).exec (held.arm faults)).2 []) ↔
      ¬ Replaceable [] held.db) := by
  have hiff := replace_old_or_new_iff (after_reachable [⟨.addRequests [request 1 7], []⟩])
    (by decide +kernel)
  exact ⟨hiff.1, hiff.2 [] [] ["creator"] rfl⟩

end Sample

end InfraStore.Cli
