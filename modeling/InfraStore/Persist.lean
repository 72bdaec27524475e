import InfraStore.CatalogFile
import InfraStore.Invariant

/-!
# Saving a store to a destination

A save stages both halves of an artifact beside the destination and then renames them into place, one
after the other.  Any file operation may fail, and the process may stop before any of them.

* `Destination`: the two files, the sidecars of the catalog and the staged temporaries;
* `persistTo`: the save, one step a file operation;
* `openWithCatalog`: what an open makes of the destination, the generation check included;
* `persistTo_crash`: wherever the save ended, an open sees the old pair or the new one, or is refused.
-/

namespace InfraStore

open Lib

/-! ### The files -/

/-- Where a store keeps its catalog. -/
inductive CatalogMode where
  | attached
  | inMemory
  deriving DecidableEq, Repr

/-- An array file: what it holds, and its generation stamp. -/
structure ArrayHalf (A : Type) where
  content : A
  generation : Option String

/-- A catalog file: its tables, and its generation stamp. -/
structure CatalogHalf (H : Type) where
  file : CatalogFile H
  generation : Option String

/-- The files at a destination: the two halves, the catalog's sidecars, and a save's temporaries. -/
structure Destination (A H W : Type) where
  arrays : Option (ArrayHalf A)
  catalog : Option (CatalogHalf H)
  wal : Option W
  shm : Bool
  tmpArrays : Option (ArrayHalf A)
  tmpCatalog : Option (CatalogHalf H)

/-- How a file operation ends: as it should, with an error and no effect, or never, the process having
stopped before it. -/
inductive Answer where
  | done
  | fails (msg : String)
  | stops

/-- The files, the answers to the operations to come, and whether the process is still running. -/
structure Volume (A H W : Type) where
  files : Destination A H W
  answers : List Answer
  running : Bool

/-- What a step ends with once the process has stopped. -/
def stopped : TimeSeriesError := .io "the process has stopped"

/-- One file operation. -/
def fileStep {A H W : Type} (act : Destination A H W → Result (Destination A H W)) :
    StoreCmd (Volume A H W) Unit :=
  Cmd.ofExec fun v =>
    if v.running then
      match v.answers with
      | .stops :: rest => (.error stopped, { v with answers := rest, running := false })
      | .fails msg :: rest => (.error (.io msg), { v with answers := rest })
      | answers =>
        match act v.files with
        | .error e => (.error e, { v with answers := answers.tail })
        | .ok files => (.ok (), { v with files, answers := answers.tail })
    else (.error stopped, v)

namespace CatalogFile

variable {H : Type}

theorem setKeys_nil : ([] : List (FeatureRow H)).Pairwise
    fun a b => (a.featuresHash, a.key) ≠ (b.featuresHash, b.key) := .nil

theorem blank_marked : true = true → ∀ r ∈ (none : Option (List (AssociationRow H))).getD [],
    r.id ≤ (none : Option (Option ℤ)).join.getD 0 := fun _ _ hr => (List.not_mem_nil hr).elim

/-- A file SQLite has just created. -/
def blank : CatalogFile H :=
  { version := none, associations := none, featureSets := [], sequence := none, autoincrement := true
    ordered := ordered_nil, unique := unique_nil, setKeys := setKeys_nil, marked := blank_marked }

/-- What a read-only open, which migrates nothing, reports. -/
def checkReadOnly (f : CatalogFile H) : Result Unit :=
  let found := f.readRevision
  if catalogSchemaRevision < found then .error (.catalogTooNew found catalogSchemaRevision)
  else if f.associations.isNone then .ok ()
  else if found < catalogSchemaRevision then
    .error (.catalogMigrationRequired found catalogSchemaRevision)
  else .ok ()

end CatalogFile

/-! ### Opening -/

/-- The placeholder for a missing stamp. -/
def unstamped : String := "none"

/-- Refuse a pair of halves whose stamps disagree. -/
def checkGenerationPair (h5 sqlite : Option String) : Result Unit :=
  if h5 ≠ sqlite then
    .error (.mismatchedArtifact (h5.getD unstamped) (sqlite.getD unstamped))
  else .ok ()

/-- The error of a connection that may not create the file it finds missing. -/
def missingCatalog : TimeSeriesError := .sqlite "unable to open database file"

section

variable {A H W : Type}

namespace Destination

/-- The catalog as a connection reads it: a leftover log is recovered over the file. -/
def seen (recover : W → CatalogHalf H → CatalogHalf H) (d : Destination A H W) :
    Option (CatalogHalf H) :=
  match d.catalog, d.wal with
  | some c, some w => some (recover w c)
  | some c, none => some c
  | none, _ => none

end Destination

variable (recover : W → CatalogHalf H → CatalogHalf H)

/-- Open the catalog: an attached writable open creates a missing file and migrates in place, a
read-only one migrates nothing, and one into memory migrates its copy. -/
def openCatalog (d : Destination A H W) (readOnly : Bool) (mode : CatalogMode) :
    Result (CatalogHalf H × Destination A H W) :=
  match mode, readOnly with
  | .attached, false =>
    let found := (d.seen recover).getD ⟨.blank, none⟩
    found.file.apply.map fun out =>
      let c : CatalogHalf H := ⟨out.2, found.generation⟩
      (c, { d with catalog := some c, wal := none, shm := false })
  | .attached, true =>
    match d.seen recover with
    | none => .error missingCatalog
    | some c => c.file.checkReadOnly.map fun _ => (c, d)
  | .inMemory, _ =>
    match d.seen recover with
    | none => .error missingCatalog
    | some c => c.file.apply.map fun out => (⟨out.2, c.generation⟩, d)

/-- Open an artifact: the array file, the stamps before anything is written, the catalog, and the stamps
again.  What the handle reads, and the files afterwards. -/
def openWithCatalog (d : Destination A H W) (readOnly : Bool) (mode : CatalogMode) :
    Result (A × CatalogFile H) × Destination A H W :=
  match d.arrays with
  | none => (.error (.io "cannot open store: No such file or directory"), d)
  | some half =>
    let preflight : Result Unit :=
      match d.seen recover with
      | some c => checkGenerationPair half.generation c.generation
      | none => .ok ()
    match preflight with
    | .error e => (.error e, d)
    | .ok _ =>
      match openCatalog recover d readOnly mode with
      | .error e => (.error e, d)
      | .ok (c, d') =>
        match checkGenerationPair half.generation c.generation with
        | .error e => (.error e, d')
        | .ok _ => (.ok (half.content, c.file), d')

/-- The files after a number of opens. -/
def afterOpens (opens : List (Bool × CatalogMode)) (d : Destination A H W) : Destination A H W :=
  opens.foldl (fun d o => (openWithCatalog recover d o.1 o.2).2) d

end

/-! ### Saving -/

/-- What a save knows of its store beside the rows: where the catalog is, whether the destination is the
store's own path, and the stamp of the live catalog. -/
structure Handle where
  mode : CatalogMode
  own : Bool
  generation : Option String

section

variable {A H B W : Type}

/-- Remove the staged array file, if it is there. -/
def removeTmpArrays : StoreCmd (Volume A H W) Unit := fileStep fun d => .ok { d with tmpArrays := none }

/-- Remove the staged catalog, if it is there. -/
def removeTmpCatalog : StoreCmd (Volume A H W) Unit :=
  fileStep fun d => .ok { d with tmpCatalog := none }

/-- An operation that changes no file: a sync, a flush, taking or dropping a handle. -/
def touch : StoreCmd (Volume A H W) Unit := fileStep fun d => .ok d

/-- The files with the staged array file changed, which must be there. -/
def Destination.mapTmpArrays (f : ArrayHalf A → ArrayHalf A) (d : Destination A H W) :
    Result (Destination A H W) :=
  match d.tmpArrays with
  | none => .error (.io "No such file or directory")
  | some half => .ok { d with tmpArrays := some (f half) }

/-- The files with the staged catalog changed, which must be there. -/
def Destination.mapTmpCatalog (f : CatalogHalf H → Result (CatalogHalf H)) (d : Destination A H W) :
    Result (Destination A H W) :=
  match d.tmpCatalog with
  | none => .error (.io "No such file or directory")
  | some c => (f c).map fun c' => { d with tmpCatalog := some c' }

variable (recover : W → CatalogHalf H → CatalogHalf H) (created : A)
  (materializeInto : Store H B → Result A)

/-- Stamp the staged array file, write the catalog beside it, stamp that too, and sync both. -/
def stagePersistCatalog (s : Store H B) (live : Option String) (generation : String) :
    StoreCmd (Volume A H W) Unit := do
  fileStep (Destination.mapTmpArrays fun half => { half with generation := some generation })
  touch
  fileStep fun d =>
    match d.tmpCatalog with
    | some _ => .error (.sqlite "output file already exists")
    | none => .ok { d with tmpCatalog := some ⟨s.db.backupTo, live⟩ }
  fileStep (Destination.mapTmpCatalog fun c => c.file.apply.map fun out => { c with file := out.2 })
  fileStep (Destination.mapTmpCatalog fun c => .ok { c with generation := none })
  fileStep (Destination.mapTmpCatalog fun c => .ok { c with generation := some generation })
  touch
  touch

/-- Write both halves of a save: the live arrays into a fresh file, then the catalog beside it. -/
def stagePersistPair (s : Store H B) (live : Option String) (generation : String) :
    StoreCmd (Volume A H W) Unit := do
  fileStep fun d => .ok { d with tmpArrays := some ⟨created, none⟩ }
  let content ← Cmd.ofExcept (materializeInto s)
  fileStep (Destination.mapTmpArrays fun half => { half with content })
  touch
  stagePersistCatalog s live generation

/-- Rename both staged halves into place. -/
def swapIntoPlace : StoreCmd (Volume A H W) Unit := do
  touch
  fileStep fun d =>
    match d.tmpArrays with
    | none => .error (.io "No such file or directory")
    | some half => .ok { d with arrays := some half, tmpArrays := none }
  fileStep fun d => .ok { d with wal := none }
  fileStep fun d => .ok { d with shm := false }
  fileStep fun d =>
    match d.tmpCatalog with
    | none => .error (.io "No such file or directory")
    | some c => .ok { d with catalog := some c, tmpCatalog := none }
  touch

/-- Remove both temporaries, whatever comes of it. -/
def clearTemps : StoreCmd (Volume A H W) Unit := do
  let _ ← removeTmpArrays.attempt
  let _ ← removeTmpCatalog.attempt

/-- Flush the store: an attached catalog of the destination itself is checkpointed there. -/
def flushBefore (handle : Handle) : StoreCmd (Volume A H W) Unit := do
  if handle.own && handle.mode = .attached then
    fileStep fun d => .ok { d with catalog := d.seen recover, wal := none }
  else touch
  touch

/-- Open the store's own array file again. -/
def reopenBackend : StoreCmd (Volume A H W) Unit :=
  fileStep fun d =>
    match d.arrays with
    | none => .error (.io "cannot open store: No such file or directory")
    | some _ => .ok d

/-- End a save: the handle on the store's own file, dropped for the renames, is opened again, and the
temporaries of a save that failed are removed. -/
def endSave (handle : Handle) (swapped : Result Unit) : StoreCmd (Volume A H W) Unit := do
  if handle.own then reopenBackend
  match swapped with
  | .ok _ => pure ()
  | .error e => do
    clearTemps
    throw e

/-- Stage both halves and rename them into place. -/
def replaceFiles (s : Store H B) (handle : Handle) (generation : String) :
    StoreCmd (Volume A H W) Unit := do
  removeTmpArrays
  removeTmpCatalog
  let staged ← (stagePersistPair created materializeInto s handle.generation generation).attempt
  let swapped ← match staged with
    | .error e => pure (.error e)
    | .ok _ => swapIntoPlace.attempt
  endSave handle swapped

/-- Save a store to a destination.  An attached store is its own destination already, once flushed. -/
def persistTo (s : Store H B) (handle : Handle) (generation : String) :
    StoreCmd (Volume A H W) Unit := do
  if s.inTransaction then
    throw (.invalidParameter "cannot persist while a transaction is open; commit or roll back first")
  if !handle.own then touch
  flushBefore recover handle
  if handle.mode = .attached && handle.own then pure ()
  else replaceFiles created materializeInto s handle generation

end

/-! ### What a save leaves -/

section

variable {A H B W : Type}

/-- One step: on an error the files are as they were. -/
theorem fileStep_wp {act : Destination A H W → Result (Destination A H W)}
    {Q : Result Unit → Volume A H W → Prop} {v : Volume A H W}
    (hok : ∀ d answers running, act v.files = .ok d → Q (.ok ()) ⟨d, answers, running⟩)
    (herr : ∀ e answers running, Q (.error e) ⟨v.files, answers, running⟩) : (fileStep act).wp Q v := by
  unfold fileStep
  rw [Cmd.wp_ofExec]
  split
  · split
    · exact herr _ _ _
    · exact herr _ _ _
    · split
      · exact herr _ _ _
      · rename_i h
        exact hok _ _ _ h
  · exact herr _ _ _

/-- A step and what follows it. -/
theorem fileStep_bind {α : Type} {act : Destination A H W → Result (Destination A H W)}
    {k : Unit → StoreCmd (Volume A H W) α} {Q : Result α → Volume A H W → Prop} {v : Volume A H W}
    (hok : ∀ d answers running, act v.files = .ok d → (k ()).wp Q ⟨d, answers, running⟩)
    (herr : ∀ e answers running, Q (.error e) ⟨v.files, answers, running⟩) :
    (fileStep act >>= k).wp Q v := by
  rw [Cmd.wp_bind]
  exact fileStep_wp hok herr

/-- Only temporaries differ. -/
structure Destination.Placed (d d' : Destination A H W) : Prop where
  arrays : d'.arrays = d.arrays
  catalog : d'.catalog = d.catalog
  wal : d'.wal = d.wal

theorem Destination.Placed.refl (d : Destination A H W) : d.Placed d := ⟨rfl, rfl, rfl⟩

theorem Destination.Placed.trans {d d' d'' : Destination A H W} (h : d.Placed d') (h' : d'.Placed d'') :
    d.Placed d'' :=
  ⟨h'.arrays.trans h.arrays, h'.catalog.trans h.catalog, h'.wal.trans h.wal⟩

/-- The staged array file is there before a step that changes it. -/
theorem Destination.mapTmpArrays_ok {f : ArrayHalf A → ArrayHalf A} {d d' : Destination A H W}
    (h : d.mapTmpArrays f = .ok d') :
    ∃ half, d.tmpArrays = some half ∧ d' = { d with tmpArrays := some (f half) } := by
  unfold mapTmpArrays at h
  split at h
  · cases h
  · rename_i half hd
    cases h
    exact ⟨half, hd, rfl⟩

theorem Destination.mapTmpCatalog_ok {f : CatalogHalf H → Result (CatalogHalf H)}
    {d d' : Destination A H W} (h : d.mapTmpCatalog f = .ok d') :
    ∃ c c', d.tmpCatalog = some c ∧ f c = .ok c' ∧ d' = { d with tmpCatalog := some c' } := by
  unfold mapTmpCatalog at h
  split at h
  · cases h
  · rename_i c hd
    cases hf : f c with
    | error e =>
      rw [hf] at h
      cases h
    | ok c' =>
      rw [hf] at h
      cases h
      exact ⟨c, c', hd, hf, rfl⟩

variable {created : A} {materializeInto : Store H B → Result A}

/-- What staging leaves: the destination as it was, and both halves beside it if it succeeds. -/
def Staged (a : Result A) (s : Store H B) (generation : String) (d : Destination A H W)
    (r : Result Unit) (v' : Volume A H W) : Prop :=
  d.Placed v'.files ∧ (r.isOk → ∃ content, a = .ok content ∧
    v'.files.tmpArrays = some ⟨content, some generation⟩ ∧
    v'.files.tmpCatalog = some ⟨s.db.backupTo, some generation⟩)

theorem stagePersistCatalog_spec (s : Store H B) (live : Option String) (generation : String)
    {content : A} {stamp : Option String} {d : Destination A H W} {v : Volume A H W}
    (hd : d.Placed v.files) (hv : v.files.tmpArrays = some ⟨content, stamp⟩) :
    (stagePersistCatalog (A := A) (W := W) s live generation).wp
      (Staged (.ok content) s generation d) v := by
  have hfail : ∀ {d' : Destination A H W}, d.Placed d' →
      ∀ (e : TimeSeriesError) (answers : List Answer) (running : Bool),
        Staged (.ok content) s generation d (.error e) ⟨d', answers, running⟩ :=
    fun hd' _ _ _ => ⟨hd', fun h => by cases h⟩
  unfold stagePersistCatalog touch
  refine fileStep_bind (fun d₁ _ _ h₁ => ?_) (hfail hd)
  obtain ⟨half, hh, rfl⟩ := Destination.mapTmpArrays_ok h₁
  cases hv.symm.trans hh
  refine fileStep_bind (fun d₂ _ _ h₂ => ?_) (hfail ⟨hd.arrays, hd.catalog, hd.wal⟩)
  cases h₂
  refine fileStep_bind (fun d₃ _ _ h₃ => ?_) (hfail ⟨hd.arrays, hd.catalog, hd.wal⟩)
  split at h₃
  · cases h₃
  cases h₃
  refine fileStep_bind (fun d₄ _ _ h₄ => ?_) (hfail ⟨hd.arrays, hd.catalog, hd.wal⟩)
  obtain ⟨c₄, c₄', hc₄, hf₄, rfl⟩ := Destination.mapTmpCatalog_ok h₄
  cases hc₄
  -- the copy is at this build's revision already
  rw [s.db.backupTo_apply.1] at hf₄
  cases hf₄
  refine fileStep_bind (fun d₅ _ _ h₅ => ?_) (hfail ⟨hd.arrays, hd.catalog, hd.wal⟩)
  obtain ⟨c₅, c₅', hc₅, hf₅, rfl⟩ := Destination.mapTmpCatalog_ok h₅
  cases hc₅
  cases hf₅
  refine fileStep_bind (fun d₆ _ _ h₆ => ?_) (hfail ⟨hd.arrays, hd.catalog, hd.wal⟩)
  obtain ⟨c₆, c₆', hc₆, hf₆, rfl⟩ := Destination.mapTmpCatalog_ok h₆
  cases hc₆
  cases hf₆
  refine fileStep_bind (fun d₇ _ _ h₇ => ?_) (hfail ⟨hd.arrays, hd.catalog, hd.wal⟩)
  cases h₇
  refine fileStep_wp (fun d₈ _ _ h₈ => ?_) (hfail ⟨hd.arrays, hd.catalog, hd.wal⟩)
  cases h₈
  exact ⟨⟨hd.arrays, hd.catalog, hd.wal⟩, fun _ => ⟨content, rfl, rfl, rfl⟩⟩

theorem stagePersistPair_spec (s : Store H B) (live : Option String) (generation : String)
    {d : Destination A H W} {v : Volume A H W} (hd : d.Placed v.files) :
    (stagePersistPair (W := W) created materializeInto s live generation).wp
      (Staged (materializeInto s) s generation d) v := by
  have hfail : ∀ {d' : Destination A H W}, d.Placed d' →
      ∀ (e : TimeSeriesError) (answers : List Answer) (running : Bool),
        Staged (materializeInto s) s generation d (.error e) ⟨d', answers, running⟩ :=
    fun hd' _ _ _ => ⟨hd', fun h => by cases h⟩
  unfold stagePersistPair
  refine fileStep_bind (fun d₁ _ _ h₁ => ?_) (hfail hd)
  cases h₁
  rw [Cmd.wp_bind, Cmd.wp_ofExcept]
  cases hm : materializeInto s with
  | error e =>
    exact ⟨⟨hd.arrays, hd.catalog, hd.wal⟩, fun h => by cases h⟩
  | ok content =>
    rw [hm] at hfail
    simp only
    unfold touch
    refine fileStep_bind (fun d₂ _ _ h₂ => ?_) (hfail ⟨hd.arrays, hd.catalog, hd.wal⟩)
    obtain ⟨half, hh, rfl⟩ := Destination.mapTmpArrays_ok h₂
    cases hh
    refine fileStep_bind (fun d₃ _ _ h₃ => ?_) (hfail ⟨hd.arrays, hd.catalog, hd.wal⟩)
    cases h₃
    exact stagePersistCatalog_spec s live generation ⟨hd.arrays, hd.catalog, hd.wal⟩ rfl

variable {recover : W → CatalogHalf H → CatalogHalf H}

/-- The old pair as an open reads it. -/
structure Destination.Alike (recover : W → CatalogHalf H → CatalogHalf H) (d d' : Destination A H W) :
    Prop where
  arrays : d'.arrays = d.arrays
  seen : d'.seen recover = d.seen recover

/-- The new pair. -/
structure Destination.Holds (recover : W → CatalogHalf H → CatalogHalf H) (content : A)
    (s : Store H B) (generation : String) (d : Destination A H W) : Prop where
  arrays : d.arrays = some ⟨content, some generation⟩
  seen : d.seen recover = some ⟨s.db.backupTo, some generation⟩

/-- The new array file beside a catalog that is not its partner, if there is a catalog at all. -/
structure Destination.Torn (recover : W → CatalogHalf H → CatalogHalf H) (generation : String)
    (d₀ d : Destination A H W) : Prop where
  arrays : ∃ content, d.arrays = some ⟨content, some generation⟩
  other (c : CatalogHalf H) : d.seen recover = some c → c.generation ≠ some generation
  absent : d.seen recover = none → d₀.catalog = none

/-- Where a save can end. -/
def Destination.Ended (recover : W → CatalogHalf H → CatalogHalf H) (a : Result A) (s : Store H B)
    (generation : String) (d₀ d : Destination A H W) : Prop :=
  d₀.Alike recover d ∨ (∃ content, a = .ok content ∧ d.Holds recover content s generation) ∨
    d₀.Torn recover generation d

/-- A stamp no half of the destination carries, its log recovered or not. -/
structure Destination.Fresh (recover : W → CatalogHalf H → CatalogHalf H) (generation : String)
    (d : Destination A H W) : Prop where
  file {c : CatalogHalf H} : d.catalog = some c → c.generation ≠ some generation
  seen {c : CatalogHalf H} : d.seen recover = some c → c.generation ≠ some generation

theorem Destination.seen_none {d : Destination A H W} :
    d.seen recover = none ↔ d.catalog = none := by
  unfold seen
  split <;> simp_all

theorem Destination.Placed.alike {d d' : Destination A H W} (h : d.Placed d') : d.Alike recover d' := by
  refine ⟨h.arrays, ?_⟩
  unfold seen
  rw [h.catalog, h.wal]

theorem Destination.Ended.placed {a : Result A} {s : Store H B} {generation : String}
    {d₀ d d' : Destination A H W} (h : d₀.Ended recover a s generation d) (hp : d.Placed d') :
    d₀.Ended recover a s generation d' := by
  have hs : d'.seen recover = d.seen recover := hp.alike.seen
  rcases h with h | ⟨content, ha, h⟩ | h
  · exact Or.inl ⟨hp.arrays.trans h.arrays, hs.trans h.seen⟩
  · exact Or.inr (Or.inl ⟨content, ha, hp.arrays.trans h.arrays, hs.trans h.seen⟩)
  · refine Or.inr (Or.inr ⟨?_, fun c hc => h.other c (hs ▸ hc), fun hn => h.absent (hs ▸ hn)⟩)
    obtain ⟨content, hc⟩ := h.arrays
    exact ⟨content, hp.arrays.trans hc⟩

/-- **The renames.**  Both staged, they leave the old pair, the new one, or the new array file beside a
catalog that is not its partner. -/
theorem swapIntoPlace_spec {content : A} {a : Result A} {s : Store H B} {generation : String}
    {d₀ : Destination A H W} {v : Volume A H W} (ha : a = .ok content)
    (hfresh : d₀.Fresh recover generation) (hd : d₀.Placed v.files)
    (hta : v.files.tmpArrays = some ⟨content, some generation⟩)
    (htc : v.files.tmpCatalog = some ⟨s.db.backupTo, some generation⟩) :
    (swapIntoPlace (A := A) (H := H) (W := W)).wp
      (fun _ v' => d₀.Ended recover a s generation v'.files) v := by
  have hseen : v.files.seen recover = d₀.seen recover := hd.alike.seen
  unfold swapIntoPlace touch
  refine fileStep_bind (fun d₁ _ _ h₁ => ?_) fun _ _ _ => Or.inl hd.alike
  cases h₁
  refine fileStep_bind (fun d₂ _ _ h₂ => ?_) fun _ _ _ => Or.inl hd.alike
  simp only [hta] at h₂
  cases h₂
  -- from here on the array file is the new one
  have htorn : ∀ (wal : Option W) (shm : Bool), wal = v.files.wal ∨ wal = none →
      d₀.Torn recover generation { v.files with
        arrays := some ⟨content, some generation⟩, tmpArrays := none, wal, shm } := by
    intro wal shm hwal
    refine ⟨⟨content, rfl⟩, fun c hc => ?_, fun hn => ?_⟩
    · rcases hwal with rfl | rfl
      · exact hfresh.seen (hseen ▸ hc)
      · unfold Destination.seen at hc
        cases hcat : v.files.catalog with
        | none =>
          rw [hcat] at hc
          cases hc
        | some c' =>
          rw [hcat] at hc
          cases hc
          exact hfresh.file (hd.catalog ▸ hcat)
    · have hcat := Destination.seen_none.mp hn
      rw [← hd.catalog]
      exact hcat
  refine fileStep_bind (fun d₃ _ _ h₃ => ?_) fun _ _ _ => Or.inr (Or.inr (htorn _ _ (Or.inl rfl)))
  cases h₃
  refine fileStep_bind (fun d₄ _ _ h₄ => ?_) fun _ _ _ => Or.inr (Or.inr (htorn _ _ (Or.inr rfl)))
  cases h₄
  refine fileStep_bind (fun d₅ _ _ h₅ => ?_) fun _ _ _ => Or.inr (Or.inr (htorn _ _ (Or.inr rfl)))
  simp only [htc] at h₅
  cases h₅
  have hnew : d₀.Ended recover a s generation { v.files with
      arrays := some ⟨content, some generation⟩, tmpArrays := none, wal := none, shm := false,
      catalog := some ⟨s.db.backupTo, some generation⟩, tmpCatalog := none } :=
    Or.inr (Or.inl ⟨content, ha, rfl, rfl⟩)
  refine fileStep_wp (fun d₆ _ _ h₆ => ?_) fun _ _ _ => hnew
  cases h₆
  exact hnew

theorem clearTemps_placed (v : Volume A H W) :
    (clearTemps (A := A) (H := H) (W := W)).wp (fun _ v' => v.files.Placed v'.files) v := by
  unfold clearTemps removeTmpArrays removeTmpCatalog
  rw [Cmd.wp_bind, Cmd.wp_attempt]
  have hlast : ∀ v' : Volume A H W, v.files.Placed v'.files →
      (do let _ ← (fileStep (A := A) fun d => .ok { d with tmpCatalog := none }).attempt :
        StoreCmd (Volume A H W) Unit).wp (fun _ v'' => v.files.Placed v''.files) v' := by
    intro v' hv'
    rw [Cmd.wp_bind, Cmd.wp_attempt]
    refine fileStep_wp (fun d _ _ h => ?_) fun _ _ _ => hv'
    cases h
    exact ⟨hv'.arrays, hv'.catalog, hv'.wal⟩
  refine fileStep_wp (fun d _ _ h => ?_) fun _ _ _ => hlast _ (.refl _)
  cases h
  exact hlast _ ⟨rfl, rfl, rfl⟩

/-- Once the renames are over, only temporaries change. -/
theorem endSave_placed (handle : Handle) (swapped : Result Unit) (v : Volume A H W) :
    (endSave handle swapped).wp (fun _ v' => v.files.Placed v'.files) v := by
  have hclear : ∀ v' : Volume A H W, v.files.Placed v'.files →
      (match swapped with
      | .ok _ => pure ()
      | .error e => do
        clearTemps
        throw e : StoreCmd (Volume A H W) Unit).wp (fun _ v'' => v.files.Placed v''.files) v' := by
    intro v' hv'
    cases swapped with
    | ok u => exact hv'
    | error e =>
      rw [Cmd.wp_bind]
      refine Cmd.wp_mono (clearTemps_placed v') fun r v'' h => ?_
      cases r with
      | ok u => exact hv'.trans h
      | error e' => exact hv'.trans h
  unfold endSave reopenBackend
  cases hown : handle.own with
  | true =>
    simp only [if_true]
    refine fileStep_bind (fun d _ _ h => ?_) fun _ _ _ => Destination.Placed.refl _
    split at h
    · cases h
    · cases h
      exact hclear _ (Destination.Placed.refl _)
  | false =>
    simp only [Bool.false_eq_true, if_false]
    exact hclear v (Destination.Placed.refl _)

theorem replaceFiles_spec (s : Store H B) (handle : Handle) (generation : String)
    {d₀ : Destination A H W} {v : Volume A H W} (hfresh : d₀.Fresh recover generation)
    (hd : d₀.Placed v.files) :
    (replaceFiles created materializeInto s handle generation).wp
      (fun _ v' => d₀.Ended recover (materializeInto s) s generation v'.files) v := by
  have hend : ∀ (swapped : Result Unit) (v' : Volume A H W),
      d₀.Ended recover (materializeInto s) s generation v'.files →
      (endSave handle swapped).wp
        (fun _ v'' => d₀.Ended recover (materializeInto s) s generation v''.files) v' :=
    fun swapped v' h => Cmd.wp_mono (endSave_placed handle swapped v') fun _ _ hp => h.placed hp
  have hd' : d₀.Placed { v.files with tmpArrays := none } := ⟨hd.arrays, hd.catalog, hd.wal⟩
  unfold replaceFiles removeTmpArrays removeTmpCatalog
  refine fileStep_bind (fun d₁ _ _ h₁ => ?_) fun _ _ _ => Or.inl hd.alike
  cases h₁
  refine fileStep_bind (fun d₂ _ _ h₂ => ?_) fun _ _ _ => Or.inl hd'.alike
  cases h₂
  rw [Cmd.wp_bind, Cmd.wp_attempt]
  refine Cmd.wp_mono (stagePersistPair_spec s handle.generation generation
    ⟨hd.arrays, hd.catalog, hd.wal⟩) ?_
  rintro r v₃ ⟨hp, hok⟩
  cases r with
  | error e => exact hend (.error e) v₃ (Or.inl hp.alike)
  | ok u =>
    obtain ⟨content, ha, hta, htc⟩ := hok rfl
    simp only [Cmd.wp_bind, Cmd.wp_attempt]
    exact Cmd.wp_mono (swapIntoPlace_spec ha hfresh hp hta htc) fun r v₄ h₄ => hend r v₄ h₄

/-- **A save, wherever it ends.** -/
theorem persistTo_ended (s : Store H B) (handle : Handle) (generation : String) (v : Volume A H W)
    (hfresh : v.files.Fresh recover generation) :
    (persistTo recover created materializeInto s handle generation).wp
      (fun _ v' => v.files.Ended recover (materializeInto s) s generation v'.files) v := by
  have hsame : v.files.Ended recover (materializeInto s) s generation v.files :=
    Or.inl (Destination.Placed.refl _).alike
  -- the flush of an attached store on its own path reads the log into the file
  have hchecked : v.files.Ended recover (materializeInto s) s generation
      { v.files with catalog := v.files.seen recover, wal := none } := by
    refine Or.inl ⟨rfl, ?_⟩
    unfold Destination.seen
    rcases v.files.catalog with _ | c <;> rcases v.files.wal with _ | w <;> rfl
  have hreplace : ∀ (answers : List Answer) (running : Bool),
      (replaceFiles created materializeInto s handle generation).wp
        (fun _ v' => v.files.Ended recover (materializeInto s) s generation v'.files)
        ⟨v.files, answers, running⟩ := fun _ _ =>
    replaceFiles_spec s handle generation hfresh (Destination.Placed.refl _)
  unfold persistTo flushBefore touch
  cases s.inTransaction with
  | true => exact hsame
  | false =>
    cases hown : handle.own with
    | true =>
      cases hmode : handle.mode with
      | attached =>
        simp only [Bool.not_true, Bool.false_eq_true, if_false, decide_true, Bool.and_true, if_true,
          bind_assoc]
        refine fileStep_bind (fun d₁ _ _ h₁ => ?_) fun _ _ _ => hsame
        cases h₁
        refine fileStep_bind (fun d₂ _ _ h₂ => ?_) fun _ _ _ => hchecked
        cases h₂
        exact hchecked
      | inMemory =>
        simp only [Bool.not_true, Bool.false_eq_true, if_false, reduceCtorEq, decide_false,
          Bool.and_false, Bool.false_and, bind_assoc]
        refine fileStep_bind (fun d₁ _ _ h₁ => ?_) fun _ _ _ => hsame
        cases h₁
        refine fileStep_bind (fun d₂ _ _ h₂ => ?_) fun _ _ _ => hsame
        cases h₂
        exact hreplace _ _
    | false =>
      simp only [Bool.not_false, if_true, Bool.false_eq_true, if_false, Bool.false_and, Bool.and_false,
        bind_assoc]
      refine fileStep_bind (fun d₁ _ _ h₁ => ?_) fun _ _ _ => hsame
      cases h₁
      refine fileStep_bind (fun d₂ _ _ h₂ => ?_) fun _ _ _ => hsame
      cases h₂
      refine fileStep_bind (fun d₃ _ _ h₃ => ?_) fun _ _ _ => hsame
      cases h₃
      exact hreplace _ _

/-! ### What an open makes of it -/

/-- An open reads the array file and the catalog, and nothing else of the destination. -/
theorem Destination.Alike.open_eq {d d' : Destination A H W} (h : d.Alike recover d') (readOnly : Bool)
    (mode : CatalogMode) :
    (openWithCatalog recover d' readOnly mode).1 = (openWithCatalog recover d readOnly mode).1 := by
  have hcatalog : (openCatalog recover d' readOnly mode).map Prod.fst =
      (openCatalog recover d readOnly mode).map Prod.fst := by
    unfold openCatalog
    rw [h.seen]
    cases mode with
    | attached =>
      cases readOnly with
      | false =>
        simp only
        cases ((d.seen recover).getD ⟨.blank, none⟩).file.apply <;> rfl
      | true =>
        cases d.seen recover with
        | none => rfl
        | some c =>
          simp only
          cases c.file.checkReadOnly <;> rfl
    | inMemory =>
      cases d.seen recover with
      | none => rfl
      | some c =>
        simp only
        cases c.file.apply <;> rfl
  unfold openWithCatalog
  rw [h.arrays, h.seen]
  cases d.arrays with
  | none => rfl
  | some half =>
    simp only
    split
    · rfl
    · cases h₁ : openCatalog recover d' readOnly mode with
      | error e =>
        rw [h₁] at hcatalog
        cases h₂ : openCatalog recover d readOnly mode with
        | error e' =>
          rw [h₂] at hcatalog
          cases hcatalog
          rfl
        | ok out =>
          rw [h₂] at hcatalog
          cases hcatalog
      | ok out =>
        rw [h₁] at hcatalog
        cases h₂ : openCatalog recover d readOnly mode with
        | error e =>
          rw [h₂] at hcatalog
          cases hcatalog
        | ok out' =>
          rw [h₂] at hcatalog
          have hc : out.1 = out'.1 := Except.ok.inj hcatalog
          simp only [hc]
          split <;> rfl

/-- **The new pair opens**, and shows the arrays that were written out and the rows of the store. -/
theorem Destination.Holds.open_eq {content : A} {s : Store H B} {generation : String}
    {d : Destination A H W} (h : d.Holds recover content s generation) (readOnly : Bool)
    (mode : CatalogMode) :
    (openWithCatalog recover d readOnly mode).1 = .ok (content, s.db.backupTo) := by
  have hread : (s.db.backupTo).checkReadOnly = .ok () := rfl
  have hpair : checkGenerationPair (some generation) (some generation) = .ok () := if_neg (by simp)
  unfold openWithCatalog openCatalog
  rw [h.arrays, h.seen]
  simp only [hpair]
  cases mode with
  | attached =>
    cases readOnly with
    | false =>
      simp only [Option.getD_some, s.db.backupTo_apply.1, Except.map, hpair]
    | true => simp only [hread, Except.map, hpair]
  | inMemory => simp only [s.db.backupTo_apply.1, Except.map, hpair]

/-- Whether an open was refused: the stamps disagree, or the catalog is missing and may not be
created. -/
def Refused (d₀ : Destination A H W) (readOnly : Bool) (mode : CatalogMode)
    (r : Result (A × CatalogFile H)) : Prop :=
  (∃ h5 sqlite, r = .error (.mismatchedArtifact h5 sqlite)) ∨
    d₀.catalog = none ∧ (readOnly = true ∨ mode = .inMemory) ∧ r = .error missingCatalog

/-- **A torn pair is refused**, and stays torn. -/
theorem Destination.Torn.open_refused {generation : String} {d₀ d : Destination A H W}
    (h : d₀.Torn recover generation d) (readOnly : Bool) (mode : CatalogMode) :
    Refused d₀ readOnly mode (openWithCatalog recover d readOnly mode).1 ∧
      d₀.Torn recover generation (openWithCatalog recover d readOnly mode).2 := by
  obtain ⟨content, ha⟩ := h.arrays
  have hmismatch : ∀ stamp : Option String, stamp ≠ some generation →
      checkGenerationPair (some generation) stamp =
        .error (.mismatchedArtifact generation (stamp.getD unstamped)) := fun _ hne =>
    if_pos (Ne.symm hne)
  cases hs : d.seen recover with
  | some c =>
    have hopen : openWithCatalog recover d readOnly mode =
        (.error (.mismatchedArtifact generation (c.generation.getD unstamped)), d) := by
      unfold openWithCatalog
      rw [ha, hs]
      simp only [hmismatch _ (h.other c hs)]
    rw [hopen]
    exact ⟨Or.inl ⟨_, _, rfl⟩, h⟩
  | none =>
    have hmissing : (readOnly = true ∨ mode = .inMemory) →
        openWithCatalog recover d readOnly mode = (.error missingCatalog, d) := by
      intro hmode
      unfold openWithCatalog openCatalog
      rw [ha, hs]
      cases mode with
      | attached =>
        cases readOnly with
        | false =>
          rcases hmode with hmode | hmode <;> cases hmode
        | true => rfl
      | inMemory => rfl
    by_cases hmode : readOnly = true ∨ mode = .inMemory
    · rw [hmissing hmode]
      exact ⟨Or.inr ⟨h.absent hs, hmode, rfl⟩, h⟩
    · -- a writable open creates an unstamped catalog before it compares
      have hcreates : readOnly = false ∧ mode = .attached := by
        constructor
        · cases readOnly with
          | false => rfl
          | true => exact absurd (Or.inl rfl) hmode
        · cases mode with
          | attached => rfl
          | inMemory => exact absurd (Or.inr rfl) hmode
      obtain ⟨rfl, rfl⟩ := hcreates
      obtain ⟨f, hf⟩ : ∃ f : CatalogFile H, CatalogFile.blank.apply = .ok (0, f) := ⟨_, rfl⟩
      have hopen : openWithCatalog recover d false .attached =
          (.error (.mismatchedArtifact generation unstamped),
            { d with catalog := some ⟨f, none⟩, wal := none, shm := false }) := by
        unfold openWithCatalog openCatalog
        rw [ha, hs]
        simp only [Option.getD_none, hf, Except.map, hmismatch none (by simp)]
      rw [hopen]
      refine ⟨Or.inl ⟨_, _, rfl⟩, ⟨content, ha⟩, fun c hc => ?_, fun hn => ?_⟩
      · cases hc
        simp
      · cases hn

theorem Destination.Torn.afterOpens {generation : String} {d₀ : Destination A H W}
    (opens : List (Bool × CatalogMode)) : ∀ {d : Destination A H W}, d₀.Torn recover generation d →
      d₀.Torn recover generation (afterOpens recover opens d) := by
  induction opens with
  | nil => exact fun h => h
  | cons o opens ih =>
    intro d h
    exact ih (h.open_refused o.1 o.2).2

/-- **A save is crash consistent.**  Whatever the destination held, whichever operations failed and
wherever the process stopped: a later open reads what it read before the save, or the whole of what was
saved, or it is refused, now and ever after, because the stamps disagree or, where the destination had
no catalog, because it may not create the one that is missing.  A save that did not get to publish its
array file has changed nothing an open reads. -/
theorem persistTo_crash (s : Store H B) (handle : Handle) (generation : String) (v : Volume A H W)
    (hfresh : v.files.Fresh recover generation) :
    (persistTo recover created materializeInto s handle generation).wp (fun _ v' =>
      ((∀ readOnly mode, (openWithCatalog recover v'.files readOnly mode).1 =
          (openWithCatalog recover v.files readOnly mode).1) ∨
        (∃ content, materializeInto s = .ok content ∧ s.db.backupTo.catalog rfl = s.db ∧
          ∀ readOnly mode, (openWithCatalog recover v'.files readOnly mode).1 =
            .ok (content, s.db.backupTo)) ∨
        ∀ opens readOnly mode, Refused v.files readOnly mode
          (openWithCatalog recover (afterOpens recover opens v'.files) readOnly mode).1) ∧
      ((¬ ∃ content, v'.files.arrays = some ⟨content, some generation⟩) →
        v'.files.arrays = v.files.arrays ∧ v'.files.seen recover = v.files.seen recover)) v := by
  refine Cmd.wp_mono (persistTo_ended s handle generation v hfresh) fun _ v' h => ?_
  rcases h with h | ⟨content, hm, h⟩ | h
  · exact ⟨Or.inl fun readOnly mode => h.open_eq readOnly mode, fun _ => ⟨h.arrays, h.seen⟩⟩
  · exact ⟨Or.inr (Or.inl ⟨content, hm, s.db.backupTo_apply.2, fun readOnly mode =>
      h.open_eq readOnly mode⟩), fun hn => absurd ⟨content, h.arrays⟩ hn⟩
  · exact ⟨Or.inr (Or.inr fun opens readOnly mode =>
        ((h.afterOpens opens).open_refused readOnly mode).1), fun hn => absurd h.arrays hn⟩

end

namespace Store.Sample

/-- A destination with nothing in it. -/
def nowhere : Destination (MemoryBackend Digest) Digest Unit := ⟨none, none, none, false, none, none⟩

/-- A log with nothing in it. -/
def keepFile (_ : Unit) (c : CatalogHalf Digest) : CatalogHalf Digest := c

/-- The arrays of a store that holds no dead ones. -/
def copyArrays (s : Store Digest (MemoryBackend Digest)) : Result (MemoryBackend Digest) :=
  .ok s.arrays.backend

/-- A volume on which the process stops after a number of file operations. -/
def haltsAfter (n : ℕ) : Volume (MemoryBackend Digest) Digest Unit :=
  ⟨nowhere, List.replicate n .done ++ [.stops], true⟩

/-- A first save to a destination. -/
def firstSave : StoreCmd (Volume (MemoryBackend Digest) Digest Unit) Unit :=
  persistTo keepFile .empty copyArrays empty ⟨.attached, false, none⟩ "new"

/-- What is there when the process has stopped. -/
def haltedAfter (n : ℕ) : Volume (MemoryBackend Digest) Digest Unit :=
  (firstSave.exec (haltsAfter n)).2

/-- A first save that stops between its renames leaves an array file without a catalog.  A read-only
open refuses it, but not because of the stamps. -/
theorem persistTo_half_published :
    (openWithCatalog keepFile (haltedAfter 18).files true .attached).1 = .error missingCatalog ∧
      (openWithCatalog keepFile nowhere true .attached).1 ≠ .error missingCatalog ∧
      ∀ h5 sqlite, missingCatalog ≠ .mismatchedArtifact h5 sqlite := by
  refine ⟨rfl, fun h => ?_, fun h5 sqlite h => ?_⟩
  · cases h
  · cases h

theorem nowhere_fresh : nowhere.Fresh keepFile "new" where
  file h := by cases h
  seen h := by cases h

/-- A first save that stops before its renames leaves nothing behind. -/
theorem persistTo_crash_before :
    (haltedAfter 17).files.arrays = none ∧ (haltedAfter 17).files.seen keepFile = none := by
  have hnone : ¬ ∃ content, (haltedAfter 17).files.arrays = some ⟨content, some "new"⟩ := by
    rintro ⟨content, h⟩
    cases h
  have h : firstSave.wp _ (haltsAfter 17) :=
    persistTo_crash empty ⟨.attached, false, none⟩ "new" (haltsAfter 17) nowhere_fresh
  exact h.2 hnone

end Store.Sample

end InfraStore
