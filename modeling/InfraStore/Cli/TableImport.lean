import InfraStore.Cli.Replace
import InfraStore.Tabular.StoreImport

/-!
# Loading a table partition

`importPartition` streams one partition into the store as one transaction, opened on the first series and
closed after the last.  With `--replace` it removes, before each add, what the store holds under the
identity of the series, and that may be a series the same partition has just added.

* `importPartition`: the load, over every content of a partition and every way its read may stop;
* `Loads`: what a stream of series does to the catalog, one after another;
* `import_partition_delivers_iff`: when a load that succeeds has delivered every series it reports, and
  when one that fails has left the store as it was.
-/

namespace InfraStore.Cli

open InfraStore.Lib InfraStore.Tabular

/-! ### The load -/

/-- What every partition is filed with: the inline flags, resolved once. -/
structure TableImport where
  features : Option Features
  ownerCategory : Option OwnerCategory

/-- One read series as the request that files it. -/
def TableImport.request (setup : TableImport) (one : ImportedSeries) : AddRequest where
  ownerId := one.ownerId
  ownerType := one.ownerType
  ownerCategory := setup.ownerCategory.getD one.ownerCategory
  data := one.data
  features := setup.features.getD one.features

/-- One partition to load, whichever container holds it: its label, and the series a read hands over. -/
structure Partition where
  label : String
  content : Pull TimeSeriesError ImportedSeries

/-- The requests of the series a partition holds. -/
def Partition.requests (file : Partition) (setup : TableImport) : List AddRequest :=
  file.content.items.map setup.request

/-- One line of the report of what was added. -/
structure AddedRow where
  id : ℤ
  timeSeriesType : String
  name : String
  ownerId : ℤ
  deriving DecidableEq

/-- The line of a request filed under an id. -/
def AddedRow.of (item : AddRequest) (id : ℤ) : AddedRow :=
  ⟨id, item.data.timeSeriesType.asStr, item.data.fields.name, item.ownerId⟩

/-- What a load goes through. -/
structure Loading (H B : Type) where
  store : Store H B
  opened : Bool
  inTransaction : Bool
  sideError : Option String
  count : ℕ
  added : List AddedRow

section

set_option linter.unusedSectionVars false

variable {H B : Type} [DecidableEq H] [ArrayBackend H B] [Sha256 H] [FloatText] [ToString H] [Glob]
  [ToString TimeSeriesError]

/-- Run a command of the store. -/
def onStore {α : Type} (c : StoreCmd (Store H B) α) : Cmd (Loading H B) TimeSeriesError α :=
  Cmd.zoom Loading.store (fun store t => { t with store }) c

/-- Open the store on the first series; a failure is parked beside the placeholder it returns. -/
def openFirst (opens : Except String Unit) : Cmd (Loading H B) TimeSeriesError Unit := do
  let t ← get
  if t.opened then pure ()
  else
    match opens with
    | .ok () => modify fun t => { t with opened := true }
    | .error message => do
      modify fun t => { t with sideError := some message }
      throw (.invalidParameter "store could not be opened")

/-- Begin the partition's transaction on the first series. -/
def beginFirst : Cmd (Loading H B) TimeSeriesError Unit := do
  let t ← get
  if t.inTransaction then pure ()
  else do
    onStore Store.beginTransaction
    modify fun t => { t with inTransaction := true }

/-- Remove what the store holds under the identity of a request. -/
def replaceFirst (replace : Bool) (request : AddRequest) : Cmd (Loading H B) TimeSeriesError Unit :=
  if replace then do
    match ← (onStore (removeExisting [requestIdentity request])).attempt with
    | .ok _ => pure ()
    | .error e => do
      modify fun t => { t with sideError := some (toString e) }
      throw (.invalidParameter "replacement failed")
  else pure ()

/-- Add one series and report it. -/
def fileSeries (request : AddRequest) : Cmd (Loading H B) TimeSeriesError Unit := do
  let id ← onStore (Store.add request)
  modify fun t => { t with added := t.added ++ [.of request id], count := t.count + 1 }

/-- What the load does with every series it reads. -/
def loadSeries (setup : TableImport) (opens : Except String Unit) (replace : Bool)
    (one : ImportedSeries) : Cmd (Loading H B) TimeSeriesError Unit := do
  openFirst opens
  beginFirst
  replaceFirst replace (setup.request one)
  fileSeries (setup.request one)

/-- The state a partition starts in. -/
def Loading.start (t : Loading H B) : Loading H B :=
  { t with inTransaction := false, sideError := none, count := 0 }

/-- Read a partition, loading every series. -/
def streamPartition (file : Partition) (setup : TableImport) (opens : Except String Unit)
    (replace : Bool) : Cmd (Loading H B) TimeSeriesError ℕ :=
  feed (loadSeries setup opens replace) 0 file.content

/-- The outcome of a read: the count, or the error parked, or the read's own. -/
def Loading.outcome (label : String) (t : Loading H B) : Result ℕ → Except String ℕ
  | .ok _ => .ok t.count
  | .error e => .error (t.sideError.getD s!"reading {label}: {e}")

/-- Close the partition's transaction, if one is open: commit what was read whole, and roll back what was
not, whatever the rollback answers. -/
def endPartition (outcome : Except String ℕ) (t : Loading H B) : Except String ℕ × Loading H B :=
  if t.inTransaction then
    match outcome with
    | .ok n =>
      let closed := (Store.commitTransaction (B := B)).exec t.store
      (closed.1.mapError toString |>.map fun _ => n, { t with store := closed.2 })
    | .error message =>
      let closed := (Store.rollbackTransaction (B := B)).exec t.store
      (.error message, { t with store := closed.2 })
  else (outcome, t)

/-- Stream one partition into the store as one transaction. -/
def importPartition (file : Partition) (setup : TableImport) (opens : Except String Unit)
    (replace : Bool) (t : Loading H B) : Except String ℕ × Loading H B :=
  let streamed := (streamPartition file setup opens replace).exec t.start
  endPartition (streamed.2.outcome file.label streamed.1) streamed.2

/-- The partition of the tables of one database. -/
def Partition.sqlite [SerdeJson] (label : String)
    (build : ValuesGroup → SeriesRow → Result ImportedSeries) (p : SqlitePartition) : Partition :=
  ⟨label, p.content build⟩

/-- A partition's tables are read as its content. -/
theorem read_sqlite [SerdeJson] (label : String)
    (build : ValuesGroup → SeriesRow → Result ImportedSeries) (p : SqlitePartition)
    (setup : TableImport) (opens : Except String Unit) (replace : Bool) (t : Loading H B) :
    (readSqlitePartitionWith build (loadSeries setup opens replace) p).exec t =
      (streamPartition (.sqlite label build p) setup opens replace).exec t :=
  readSqlitePartitionWith_eq_feed p t

/-! ### What a stream of series does to the catalog -/

/-- The filters that run before an add. -/
def sweeps (replace : Bool) (item : AddRequest) : List ListFilter :=
  if replace then [requestIdentity item] else []

theorem sweeps_exact (replace : Bool) (item : AddRequest) : Exact (sweeps replace item) := by
  intro f hf
  unfold sweeps at hf
  split at hf
  · rw [List.mem_singleton.mp hf]
    rfl
  · cases hf

/-- A row no request of a load removes. -/
def Spared (replace : Bool) (items : List AddRequest) (r : AssociationRow H) : Prop :=
  replace = true → ∀ item ∈ items, ¬ Replaces item r

theorem not_foundBy_sweeps {replace : Bool} {item : AddRequest} {r : AssociationRow H} :
    ¬ FoundBy (sweeps replace item) r ↔ Spared replace [item] r := by
  unfold FoundBy Spared sweeps Replaces
  cases replace <;> simp

theorem spared_cons {replace : Bool} {item : AddRequest} {items : List AddRequest}
    {r : AssociationRow H} :
    Spared replace (item :: items) r ↔ Spared replace [item] r ∧ Spared replace items r := by
  unfold Spared
  simp only [List.forall_mem_cons, List.not_mem_nil, false_implies, implies_true, and_true]
  exact ⟨fun h => ⟨fun e => (h e).1, fun e => (h e).2⟩, fun h e => ⟨h.1 e, h.2 e⟩⟩

/-- Series loaded one after another: what a series replaces goes, and the series is filed. -/
inductive Loads (replace : Bool) : Catalog H → List AddRequest → List ℤ → Catalog H → Prop
  | nil (c : Catalog H) : Loads replace c [] [] c
  | cons {c c₁ c₂ c' : Catalog H} {item : AddRequest} {items : List AddRequest} {id : ℤ}
      {ids : List ℤ} (swept : Swept (sweeps replace item) c c₁)
      (filed : Store.Additions c₁ [item] [id] c₂) (rest : Loads replace c₂ items ids c') :
      Loads replace c (item :: items) (id :: ids) c'

/-- The rows filed that no later request has removed. -/
def Survives (replace : Bool) : List AddRequest → List (AssociationRow H) → AssociationRow H → Prop
  | _ :: items, a :: added, r => (r = a ∧ Spared replace items r) ∨ Survives replace items added r
  | _, _, _ => False

theorem Survives.mem {replace : Bool} {items : List AddRequest} :
    ∀ {added : List (AssociationRow H)} {r : AssociationRow H}, Survives replace items added r →
      r ∈ added := by
  induction items with
  | nil => exact fun h => h.elim
  | cons item items ih =>
    intro added r h
    cases added with
    | nil => exact h.elim
    | cons a added =>
      cases h with
      | inl h => exact List.mem_cons.mpr (Or.inl h.1)
      | inr h => exact List.mem_cons_of_mem _ (ih h)

/-- The rows that were filed, under the ids assigned. -/
structure Additional (items : List AddRequest) (ids : List ℤ) (c : Catalog H)
    (added : List (AssociationRow H)) : Prop where
  numbered : added.map (·.id) = ids
  filed : List.Forall₂ Store.FiledAs items added
  increasing : ids.Pairwise (· < ·)
  fresh : ∀ id ∈ ids, c.seq < id

theorem Additional.nodup {items : List AddRequest} {ids : List ℤ} {c : Catalog H}
    {added : List (AssociationRow H)} (h : Additional items ids c added) : added.Nodup := by
  have := h.increasing
  rw [← h.numbered, List.pairwise_map] at this
  exact this.imp fun hlt he => by rw [he] at hlt; exact lt_irrefl _ hlt

theorem Additional.not_mem {items : List AddRequest} {ids : List ℤ} {c : Catalog H}
    {added : List (AssociationRow H)} (h : Additional items ids c added) {r : AssociationRow H}
    (hr : r ∈ added) : r ∉ c.rows := by
  intro hc
  have hid : r.id ∈ ids := by
    rw [← h.numbered]
    exact List.mem_map_of_mem hr
  exact absurd (h.fresh _ hid) (not_lt.mpr (c.bounded r hc))

/-- **What a load leaves**: the rows before it that no request removes, and the rows it filed that no
later request removes. -/
theorem Loads.rows {replace : Bool} {c c' : Catalog H} {items : List AddRequest} {ids : List ℤ}
    (h : Loads replace c items ids c') : c.seq ≤ c'.seq ∧ (∀ id ∈ ids, id ≤ c'.seq) ∧
      ∃ added, Additional items ids c added ∧
        ∀ r, r ∈ c'.rows ↔ (r ∈ c.rows ∧ Spared replace items r) ∨ Survives replace items added r := by
  induction h with
  | nil c =>
    refine ⟨le_refl _, fun _ h => (by cases h), [], ⟨rfl, .nil, .nil, fun _ h => by cases h⟩, fun r => ?_⟩
    unfold Survives Spared
    simp
  | @cons c c₁ c₂ c' item items id ids swept filed rest ih =>
    obtain ⟨hseq, hissued, added, hadded, hrows⟩ := ih
    obtain ⟨one, hone, hfiled, hmem⟩ := filed.rows
    obtain ⟨r₀, rfl⟩ : ∃ r₀, one = [r₀] := by
      cases hfiled with
      | cons h hnil =>
        cases hnil
        exact ⟨_, rfl⟩
    have hid : r₀.id = id := List.head_eq_of_cons_eq hone
    have hstep := filed.issued.2 id List.mem_cons_self
    rw [swept.seq] at hstep
    have hgrow : c.seq ≤ c₂.seq := by
      rw [← swept.seq]
      exact filed.issued.1
    refine ⟨hgrow.trans hseq, ?_, r₀ :: added, ⟨?_, ?_, ?_, ?_⟩, fun r => ?_⟩
    · intro i hi
      rcases List.mem_cons.mp hi with rfl | hi
      · exact hstep.2.trans hseq
      · exact hissued i hi
    · rw [List.map_cons, hid, hadded.numbered]
    · cases hfiled with
      | cons h _ => exact .cons h hadded.filed
    · refine List.pairwise_cons.mpr ⟨fun i hi => ?_, hadded.increasing⟩
      exact lt_of_le_of_lt hstep.2 (hadded.fresh i hi)
    · intro i hi
      rcases List.mem_cons.mp hi with rfl | hi
      · exact hstep.1
      · exact lt_of_le_of_lt hgrow (hadded.fresh i hi)
    · have hcut : Survives replace (item :: items) (r₀ :: added) r ↔
          (r = r₀ ∧ Spared replace items r) ∨ Survives replace items added r := Iff.rfl
      have hcons : Spared replace (item :: items) r ↔
          Spared replace [item] r ∧ Spared replace items r := spared_cons
      rw [hrows, hmem, swept.rows, not_foundBy_sweeps, List.mem_singleton, hcut, hcons]
      tauto

/-- Every row filed survives exactly when no request names the identity of an earlier one. -/
theorem survives_iff {replace : Bool} {items : List AddRequest} {added : List (AssociationRow H)}
    (h : List.Forall₂ Store.FiledAs items added) (hnodup : added.Nodup) :
    (∀ r ∈ added, Survives replace items added r) ↔
      (replace = true → items.Pairwise fun a b => (requestKey a : IdentityKey H) ≠ requestKey b) := by
  induction h with
  | nil => simp
  | @cons item a items added hfiled htail ih =>
    obtain ⟨hnot, hnodup⟩ := List.nodup_cons.mp hnodup
    have hhead : Spared replace items a ↔
        (replace = true → ∀ b ∈ items, (requestKey item : IdentityKey H) ≠ requestKey b) := by
      unfold Spared
      exact forall_congr' fun _ => forall₂_congr fun b _ => not_congr (replaces_filed_iff hfiled)
    have hcut : ∀ r, Survives replace (item :: items) (a :: added) r ↔
        (r = a ∧ Spared replace items r) ∨ Survives replace items added r := fun _ => Iff.rfl
    rw [List.forall_mem_cons, List.pairwise_cons, hcut]
    have hfirst : (a = a ∧ Spared replace items a) ∨ Survives replace items added a ↔
        Spared replace items a := by
      constructor
      · rintro (h | h)
        · exact h.2
        · exact absurd h.mem hnot
      · exact fun h => Or.inl ⟨rfl, h⟩
    have hrest : (∀ r ∈ added, Survives replace (item :: items) (a :: added) r) ↔
        ∀ r ∈ added, Survives replace items added r := by
      refine forall₂_congr fun r hr => ?_
      rw [hcut]
      constructor
      · rintro (h | h)
        · exact absurd (h.1 ▸ hr) hnot
        · exact h
      · exact Or.inr
    rw [hfirst, hrest, hhead, ih hnodup]
    exact ⟨fun h e => ⟨h.1 e, h.2 e⟩, fun h => ⟨fun e => (h e).1, fun e => (h e).2⟩⟩

/-! ### A load, series by series -/

variable [LawfulArrayBackend H B]

/-- Between two series: nothing has been written yet, or the partition's transaction is open. -/
def Between (s₀ : Store H B) (t : Loading H B) : Prop :=
  (t.inTransaction = false ∧ t.store = s₀) ∨ (t.inTransaction = true ∧ Store.Inside s₀ t.store)

/-- After a series that failed: the store is as it was, or the partition's transaction is open. -/
def Broken (s₀ : Store H B) (t : Loading H B) : Prop :=
  (t.inTransaction = false ∧ Store.Restored s₀ t.store) ∨
    (t.inTransaction = true ∧ Store.Inside s₀ t.store)

theorem Between.broken {s₀ : Store H B} {t : Loading H B} (hs : s₀.Inv) (h : Between s₀ t) :
    Broken s₀ t := by
  cases h with
  | inl h =>
    left
    rw [h.2]
    exact ⟨h.1, .refl hs⟩
  | inr h => exact Or.inr h

/-- What a stretch of series that are all loaded has done. -/
structure Loaded (s₀ : Store H B) (replace : Bool) (items : List AddRequest) (ids : List ℤ)
    (t t' : Loading H B) : Prop where
  between : Between s₀ t'
  added : t'.added = t.added ++ List.zipWith AddedRow.of items ids
  count : t'.count = t.count + items.length
  loads : Loads replace t.store.db items ids t'.store.db

theorem openFirst_spec {s₀ : Store H B} (hs : s₀.Inv) (opens : Except String Unit)
    {t : Loading H B} (h : Between s₀ t) : (openFirst opens).wp (fun r t' => match r with
      | .ok _ => Between s₀ t' ∧ t'.store = t.store ∧ t'.added = t.added ∧ t'.count = t.count
      | .error _ => Broken s₀ t') t := by
  unfold openFirst
  rw [Cmd.wp_bind, Cmd.wp_get]
  simp only
  split
  · exact ⟨h, rfl, rfl, rfl⟩
  · cases opens with
    | ok u => exact ⟨h, rfl, rfl, rfl⟩
    | error message => exact h.broken hs

theorem beginFirst_spec {s₀ : Store H B} (hs : s₀.Inv) (hdepth : s₀.depth = 0) {t : Loading H B}
    (h : Between s₀ t) : (beginFirst (B := B)).wp (fun r t' => match r with
      | .ok _ => (t'.inTransaction = true ∧ Store.Inside s₀ t'.store) ∧ t'.store.db = t.store.db ∧
          t'.added = t.added ∧ t'.count = t.count
      | .error _ => Broken s₀ t') t := by
  unfold beginFirst
  rw [Cmd.wp_bind, Cmd.wp_get]
  simp only
  cases h with
  | inr h =>
    rw [if_pos h.1]
    exact ⟨h, rfl, rfl, rfl⟩
  | inl h =>
    rw [if_neg (by rw [h.1]; exact Bool.false_ne_true)]
    simp only [onStore, Cmd.wp_bind, Cmd.wp_zoom]
    rw [h.2]
    refine Cmd.wp_mono (Store.beginTransaction_spec hs.toSound) fun r s' hr => ?_
    cases r with
    | error e =>
      rcases Store.Stalled.restored hs hr with hr | hr
      · exact Or.inl ⟨h.1, hr⟩
      · have := hr.within
        omega
    | ok u => exact ⟨⟨rfl, .of_begun hs hr⟩, hr.db, rfl, rfl⟩

theorem removeExisting_inside {s₀ s : Store H B} (h : Store.Inside s₀ s) {filters : List ListFilter}
    (hexact : Exact filters) : (removeExisting filters).wp (fun r s' => Store.Inside s₀ s' ∧
      ∀ n, r = .ok n → Swept filters s.db s'.db) s := by
  refine Cmd.wp_mono (removeExisting_spec h.inv hexact) fun r s' hr => ?_
  obtain ⟨⟨s₁, ⟨w, g, hw⟩, hrest⟩, -, hswept⟩ := hr
  refine ⟨?_, hswept⟩
  rcases hrest with rfl | ⟨w', g', hw'⟩
  · exact h.wrote hw
  · exact (h.wrote hw).wrote hw'

theorem replaceFirst_spec {s₀ : Store H B} (replace : Bool) (request : AddRequest) {t : Loading H B}
    (h : t.inTransaction = true ∧ Store.Inside s₀ t.store) :
    (replaceFirst replace request).wp (fun r t' => match r with
      | .ok _ => (t'.inTransaction = true ∧ Store.Inside s₀ t'.store) ∧
          Swept (sweeps replace request) t.store.db t'.store.db ∧ t'.added = t.added ∧ t'.count = t.count
      | .error _ => Broken s₀ t') t := by
  unfold replaceFirst sweeps
  cases replace with
  | false => exact ⟨h, .refl_of fun r _ ⟨f, hf, _⟩ => (by cases hf), rfl, rfl⟩
  | true =>
    simp only [if_true, onStore, Cmd.wp_bind, Cmd.wp_attempt, Cmd.wp_zoom]
    refine Cmd.wp_mono (removeExisting_inside h.2 (sweeps_exact true request)) fun r s' hr => ?_
    cases r with
    | error e => exact Or.inr ⟨h.1, hr.1⟩
    | ok n => exact ⟨⟨h.1, hr.1⟩, hr.2 n rfl, rfl, rfl⟩

theorem fileSeries_spec {s₀ : Store H B} (request : AddRequest) {t : Loading H B}
    (h : t.inTransaction = true ∧ Store.Inside s₀ t.store) :
    (fileSeries request).wp (fun r t' => match r with
      | .ok _ => (t'.inTransaction = true ∧ Store.Inside s₀ t'.store) ∧ ∃ id,
          Store.Additions t.store.db [request] [id] t'.store.db ∧
          t'.added = t.added ++ [.of request id] ∧ t'.count = t.count + 1
      | .error _ => Broken s₀ t') t := by
  unfold fileSeries
  simp only [onStore, Cmd.wp_bind, Cmd.wp_zoom]
  refine Cmd.wp_mono (Store.add_spec h.2.inv request) fun r s' hr => ?_
  obtain ⟨⟨w, g, hw⟩, hadd⟩ := hr
  cases r with
  | error e => exact Or.inr ⟨h.1, h.2.wrote hw⟩
  | ok id => exact ⟨⟨h.1, h.2.wrote hw⟩, id, hadd id rfl, rfl, rfl⟩

/-- One step: a series is loaded, or the load is broken off. -/
theorem loadSeries_spec {s₀ : Store H B} (hs : s₀.Inv) (hdepth : s₀.depth = 0) (setup : TableImport)
    (opens : Except String Unit) (replace : Bool) (one : ImportedSeries) {t : Loading H B}
    (h : Between s₀ t) : (loadSeries setup opens replace one).wp (fun r t' => match r with
      | .ok _ => ∃ id, Loaded s₀ replace [setup.request one] [id] t t'
      | .error _ => Broken s₀ t') t := by
  unfold loadSeries
  rw [Cmd.wp_bind]
  refine Cmd.wp_mono (openFirst_spec hs opens h) fun r t₁ h₁ => ?_
  cases r with
  | error e => exact h₁
  | ok u =>
    obtain ⟨hb₁, hs₁, ha₁, hc₁⟩ := h₁
    simp only [Cmd.wp_bind]
    refine Cmd.wp_mono (beginFirst_spec hs hdepth hb₁) fun r t₂ h₂ => ?_
    cases r with
    | error e => exact h₂
    | ok u =>
      obtain ⟨hi₂, hs₂, ha₂, hc₂⟩ := h₂
      refine Cmd.wp_mono (replaceFirst_spec replace (setup.request one) hi₂) fun r t₃ h₃ => ?_
      cases r with
      | error e => exact h₃
      | ok u =>
        obtain ⟨hi₃, hs₃, ha₃, hc₃⟩ := h₃
        refine Cmd.wp_mono (fileSeries_spec (setup.request one) hi₃) fun r t₄ h₄ => ?_
        cases r with
        | error e => exact h₄
        | ok u =>
          obtain ⟨hi₄, id, hadd, ha₄, hc₄⟩ := h₄
          rw [hs₂, hs₁] at hs₃
          refine ⟨id, Or.inr hi₄, ?_, ?_, .cons hs₃ hadd (.nil _)⟩
          · rw [ha₄, ha₃, ha₂, ha₁]
            rfl
          · rw [hc₄, hc₃, hc₂, hc₁]
            rfl

theorem Loads.append {replace : Bool} {c c' c'' : Catalog H} {items items' : List AddRequest}
    {ids ids' : List ℤ} (h : Loads replace c items ids c') (h' : Loads replace c' items' ids' c'') :
    Loads replace c (items ++ items') (ids ++ ids') c'' := by
  induction h with
  | nil c => exact h'
  | cons swept filed _ ih => exact .cons swept filed (ih h')

theorem Loads.length_eq {replace : Bool} {c c' : Catalog H} {items : List AddRequest} {ids : List ℤ}
    (h : Loads replace c items ids c') : items.length = ids.length := by
  induction h with
  | nil c => rfl
  | cons _ _ _ ih => rw [List.length_cons, List.length_cons, ih]

theorem Loaded.append {s₀ : Store H B} {replace : Bool} {items items' : List AddRequest}
    {ids ids' : List ℤ} {t t' t'' : Loading H B} (h : Loaded s₀ replace items ids t t')
    (h' : Loaded s₀ replace items' ids' t' t'') :
    Loaded s₀ replace (items ++ items') (ids ++ ids') t t'' where
  between := h'.between
  added := by
    rw [h'.added, h.added, List.append_assoc, List.zipWith_append h.loads.length_eq]
  count := by
    rw [h'.count, h.count, List.length_append, Nat.add_assoc]
  loads := h.loads.append h'.loads

/-- A run: a stream that ends has loaded every series it holds, and one that does not is broken off. -/
theorem stream_spec {s₀ : Store H B} (hs : s₀.Inv) (hdepth : s₀.depth = 0) (setup : TableImport)
    (opens : Except String Unit) (replace : Bool) (content : Pull TimeSeriesError ImportedSeries) :
    ∀ (filed : ℕ) {t : Loading H B}, Between s₀ t →
      (feed (loadSeries setup opens replace) filed content).wp (fun r t' => match r with
        | .ok _ => ∃ ids, Loaded s₀ replace (content.items.map setup.request) ids t t'
        | .error _ => Broken s₀ t') t := by
  induction content with
  | done => exact fun filed t h => ⟨[], h, (List.append_nil _).symm, rfl, .nil _⟩
  | failed e => exact fun filed t h => h.broken hs
  | item one rest ih =>
    intro filed t h
    unfold feed
    rw [Cmd.wp_bind]
    refine Cmd.wp_mono (loadSeries_spec hs hdepth setup opens replace one h) fun r t₁ h₁ => ?_
    cases r with
    | error e => exact h₁
    | ok u =>
      obtain ⟨id, h₁⟩ := h₁
      refine Cmd.wp_mono (ih (filed + 1) h₁.between) fun r t₂ h₂ => ?_
      cases r with
      | error e => exact h₂
      | ok n =>
        obtain ⟨ids, h₂⟩ := h₂
        exact ⟨id :: ids, h₁.append h₂⟩

/-! ### The end of the transaction -/

/-- A rollback at the outermost level restores the begin, or it is refused and the level stays open. -/
theorem rollback_inside {s₀ s : Store H B} (hdepth : s₀.depth = 0) (h : Store.Inside s₀ s) :
    (Store.rollbackTransaction (B := B)).wp (fun r s' => match r with
      | .ok _ => Store.Restored s₀ s'
      | .error _ => s'.depth ≠ 0) s := by
  have heffect := Store.step_effect (B := B) h.inv .rollbackTransaction
  have hstep : (Store.step (B := B) .rollbackTransaction).exec s =
      (Store.rollbackTransaction (B := B)).exec s := rfl
  unfold Cmd.wp at heffect
  rw [hstep] at heffect
  have hnext := h.inv.effect heffect
  have hout := Store.rollbackTransaction_spec (B := B) h.inv.toSound
  unfold Cmd.wp at hout ⊢
  cases hr : (Store.rollbackTransaction (H := H) (B := B)).exec s with
  | mk r s' =>
    rw [hr] at hout hnext
    simp only at hout hnext ⊢
    cases r with
    | ok u =>
      rcases h.rolledBack hnext hout with hback | hlost
      · exact hback
      · have := hlost.within
        omega
    | error e =>
      have hmarks : s₀.txn.marks = [] := List.eq_nil_of_length_eq_zero hdepth
      have hopen : s.depth ≠ 0 := by
        rw [h.depth]
        exact Nat.succ_ne_zero _
      rcases hout with ⟨_, hok, -⟩ | ⟨mark, outer, saved, rest, removed, hu, hok⟩ | ⟨-, hrewound | hstalled⟩
      · cases hok
      · have hm := hu.marks
        rw [h.marks, List.cons.injEq, hmarks] at hm
        have htxn := hu.txn
        rw [if_pos hm.2.symm] at htxn
        have hfree : s'.transactionWasForcedBack = false := by
          unfold Store.transactionWasForcedBack Store.inTransaction
          rw [htxn]
          rfl
        cases hok.mpr hfree
      · unfold Store.depth at hopen ⊢
        rw [hrewound.txn]
        exact hopen
      · unfold Store.depth at hopen ⊢
        rw [hstalled.wrote.marks]
        exact hopen

/-- The engine refuses the statement that closes the partition's transaction. -/
def ClosingRefused (file : Partition) (setup : TableImport) (opens : Except String Unit)
    (replace : Bool) (t : Loading H B) : Prop :=
  let streamed := (streamPartition file setup opens replace).exec t.start
  streamed.2.inTransaction = true ∧
    match streamed.1 with
    | .ok _ => ((Store.commitTransaction (B := B)).exec streamed.2.store).1.isOk = false
    | .error _ => ((Store.rollbackTransaction (B := B)).exec streamed.2.store).1.isOk = false

/-- **A load that fails** has left the store as it was, exactly when its transaction could be closed. -/
theorem import_error {file : Partition} {setup : TableImport} {opens : Except String Unit}
    {replace : Bool} {t t' : Loading H B} {e : String} (hs : t.store.Inv) (hdepth : t.store.depth = 0)
    (h : importPartition file setup opens replace t = (.error e, t')) :
    Store.Restored t.store t'.store ↔ ¬ ClosingRefused file setup opens replace t := by
  have hstream := stream_spec hs hdepth setup opens replace file.content 0 (t := t.start)
    (Or.inl ⟨rfl, rfl⟩)
  unfold ClosingRefused
  unfold importPartition at h
  unfold Cmd.wp at hstream
  unfold streamPartition at h ⊢
  cases hx : (feed (loadSeries setup opens replace) 0 file.content).exec t.start with
  | mk r t₁ =>
    rw [hx] at h hstream
    simp only at h ⊢
    cases r with
    | ok n =>
      obtain ⟨ids, hloaded⟩ := hstream
      rcases hloaded.between with ⟨hno, -⟩ | ⟨hin, hinside⟩
      · unfold endPartition at h
        rw [hno, if_neg Bool.false_ne_true] at h
        cases h
      · have hcommit := hinside.commit (B := B)
        unfold Cmd.wp at hcommit
        unfold endPartition Loading.outcome at h
        rw [hin, if_pos rfl] at h
        simp only at h
        cases hc : (Store.commitTransaction (H := H) (B := B)).exec t₁.store with
        | mk r s₂ =>
          rw [hc] at h hcommit
          cases r with
          | ok u => cases h
          | error e' =>
            have hstore : t'.store = s₂ := by
              rw [← (Prod.mk.inj h).2]
            rw [hstore]
            constructor
            · intro hback
              have := hback.depth
              rw [Store.Inside.depth hcommit] at this
              omega
            · exact fun hopen => absurd ⟨hin, rfl⟩ hopen
    | error e' =>
      rcases hstream with ⟨hno, hback⟩ | ⟨hin, hinside⟩
      · unfold endPartition at h
        rw [hno, if_neg Bool.false_ne_true] at h
        rw [← (Prod.mk.inj h).2, hno]
        exact ⟨fun _ hopen => Bool.false_ne_true hopen.1, fun _ => hback⟩
      · have hroll := rollback_inside hdepth hinside
        unfold Cmd.wp at hroll
        unfold endPartition Loading.outcome at h
        rw [hin, if_pos rfl] at h
        simp only at h
        cases hc : (Store.rollbackTransaction (H := H) (B := B)).exec t₁.store with
        | mk r s₂ =>
          rw [hc] at h hroll
          have hstore : t'.store = s₂ := by
            rw [← (Prod.mk.inj h).2]
          rw [hstore]
          cases r with
          | ok u => exact ⟨fun _ hopen => (by cases hopen.2), fun _ => hroll⟩
          | error e'' =>
            constructor
            · intro hback
              exact absurd (hback.depth.trans hdepth) hroll
            · exact fun hopen => absurd ⟨hin, rfl⟩ hopen

/-! ### What a load that succeeds has delivered -/

/-- A load has delivered what it reports: every id it appended names a live association holding the
series, the count is that of the series contributed, and of the series present before only those whose
identity an imported series has are gone. -/
structure Delivered (s : Store H B) (items : List AddRequest) (before : List AddedRow) (n : ℕ)
    (t' : Loading H B) : Prop where
  live : ∃ ids, t'.added = before ++ List.zipWith AddedRow.of items ids ∧
    List.Forall₂ (Holding t'.store) items ids
  counted : ∃ contributed : List (AssociationRow H), contributed.Nodup ∧ contributed.length = n ∧
    ∀ r, r ∈ contributed ↔ r ∈ t'.store.db.rows ∧ r ∉ s.db.rows
  kept : ∀ r ∈ s.db.rows, Carried s t'.store r ∨
    ∃ item ∈ items, r.identity = requestKey item

/-- Requests that replace only what they name: no two of them have one identity, and the rows their
filters find have the identity of one of them. -/
structure ReplacesOwn (items : List AddRequest) (db : Catalog H) : Prop where
  distinct : items.Pairwise fun a b => (requestKey a : IdentityKey H) ≠ requestKey b
  own : ∀ r ∈ db.rows, (∃ item ∈ items, Replaces item r) →
    ∃ item ∈ items, r.identity = requestKey item

/-- A load that succeeds has loaded every series, and what the rows left name is as it was. -/
structure Ended (s : Store H B) (replace : Bool) (items : List AddRequest) (ids : List ℤ)
    (before : List AddedRow) (n : ℕ) (t' : Loading H B) : Prop where
  inv : t'.store.Inv
  added : t'.added = before ++ List.zipWith AddedRow.of items ids
  count : n = items.length
  loads : Loads replace s.db items ids t'.store.db
  array {x : H} {a : TypedArray} : t'.store.db.References x → s.arrays.content x = some a →
    t'.store.arrays.content x = some a
  axis {x : H} {ms : List ℤ} : t'.store.db.referencesTimestamps x = true →
    s.arrays.vector x = some ms → t'.store.arrays.vector x = some ms

theorem import_ok {file : Partition} {setup : TableImport} {opens : Except String Unit}
    {replace : Bool} {t t' : Loading H B} {n : ℕ} (hs : t.store.Inv) (hdepth : t.store.depth = 0)
    (h : importPartition file setup opens replace t = (.ok n, t')) :
    ∃ ids, Ended t.store replace (file.requests setup) ids t.added n t' := by
  have hstream := stream_spec hs hdepth setup opens replace file.content 0 (t := t.start)
    (Or.inl ⟨rfl, rfl⟩)
  unfold importPartition at h
  unfold Cmd.wp at hstream
  unfold streamPartition at h
  cases hx : (feed (loadSeries setup opens replace) 0 file.content).exec t.start with
  | mk r t₁ =>
    rw [hx] at h hstream
    simp only at h
    cases r with
    | error e =>
      exfalso
      unfold endPartition Loading.outcome at h
      simp only at h
      split at h
      · cases h
      · cases h
    | ok m =>
      obtain ⟨ids, hloaded⟩ := hstream
      have hcount : t₁.count = (file.requests setup).length := by
        rw [hloaded.count]
        exact Nat.zero_add _
      refine ⟨ids, ?_⟩
      unfold endPartition Loading.outcome at h
      simp only at h
      rcases hloaded.between with ⟨hno, hstore⟩ | ⟨hin, hinside⟩
      · rw [hno, if_neg Bool.false_ne_true, Prod.mk.injEq, Except.ok.injEq] at h
        obtain ⟨rfl, rfl⟩ := h
        have hsame : t₁.store = t.store := hstore
        exact ⟨by rw [hsame]; exact hs, hloaded.added, hcount, hloaded.loads,
          fun _ e => by rw [hsame]; exact e, fun _ e => by rw [hsame]; exact e⟩
      · have hcommit := hinside.commit (B := B)
        unfold Cmd.wp at hcommit
        rw [hin, if_pos rfl] at h
        cases hc : (Store.commitTransaction (H := H) (B := B)).exec t₁.store with
        | mk r s₂ =>
          rw [hc] at h hcommit
          cases r with
          | error e => cases h
          | ok u =>
            obtain ⟨hn, rfl⟩ := Prod.mk.inj h
            have hk : Store.Kept t.store t₁.store s₂ := hcommit
            refine ⟨hk.inv, hloaded.added, (Except.ok.inj hn).symm.trans hcount, ?_, ?_, ?_⟩
            · rw [show s₂.db = t₁.store.db from hk.db]
              exact hloaded.loads
            · intro x a hx e
              exact hk.since hinside (by rw [← hk.db]; exact hx) e
            · intro x ms hx e
              exact hk.sinceAxis hinside (by rw [← hk.db]; exact hx) e

theorem forall₂_and_right {α β : Type} {R : α → β → Prop} {P : β → Prop} {as : List α} {bs : List β}
    (h : List.Forall₂ R as bs) (hP : ∀ b ∈ bs, P b) : List.Forall₂ (fun a b => R a b ∧ P b) as bs := by
  induction h with
  | nil => exact .nil
  | cons hab _ ih =>
    exact .cons ⟨hab, hP _ List.mem_cons_self⟩ (ih fun b hb => hP b (List.mem_cons_of_mem _ hb))

theorem added_ids {items : List AddRequest} {ids : List ℤ} (h : items.length = ids.length) :
    (List.zipWith AddedRow.of items ids).map AddedRow.id = ids := by
  induction items generalizing ids with
  | nil =>
    cases ids with
    | nil => rfl
    | cons id ids => cases h
  | cons item items ih =>
    cases ids with
    | nil => cases h
    | cons id ids =>
      rw [List.zipWith_cons_cons, List.map_cons, ih (Nat.succ.inj h)]
      rfl

/-- **When a load that succeeds has delivered**: without replacing always, and with it when the requests
replace only what they name. -/
theorem Ended.delivered_iff {s : Store H B} {replace : Bool} {items : List AddRequest} {ids : List ℤ}
    {before : List AddedRow} {n : ℕ} {t' : Loading H B} (h : Ended s replace items ids before n t') :
    Delivered s items before n t' ↔ (replace = true → ReplacesOwn items s.db) := by
  obtain ⟨-, -, added, hadd, hrows⟩ := h.loads.rows
  have hgone : ∀ r ∈ s.db.rows, (r ∈ t'.store.db.rows ↔ Spared replace items r) := by
    intro r hr
    rw [hrows]
    constructor
    · rintro (hx | hx)
      · exact hx.2
      · exact absurd hr (hadd.not_mem hx.mem)
    · exact fun hx => Or.inl ⟨hr, hx⟩
  have hnew : ∀ r ∈ added, (r ∈ t'.store.db.rows ↔ Survives replace items added r) := by
    intro r hr
    rw [hrows]
    constructor
    · rintro (hx | hx)
      · exact absurd hx.1 (hadd.not_mem hr)
      · exact hx
    · exact Or.inr
  have hkey : (∀ r ∈ added, Survives replace items added r) ↔ _ :=
    survives_iff hadd.filed hadd.nodup
  constructor
  · intro hd hreplace
    constructor
    · refine hkey.mp (fun r hr => ?_) hreplace
      obtain ⟨ids', hrep, hlive⟩ := hd.live
      rw [h.added] at hrep
      have hids : ids = ids' := by
        rw [← added_ids h.loads.length_eq, ← added_ids hlive.length_eq, List.append_cancel_left hrep]
      rw [← hids, ← hadd.numbered, List.forall₂_map_right_iff] at hlive
      obtain ⟨item, -, r', hr', hid, -⟩ := Catalog.forall₂_mem_right hlive hr
      have hsame : r' = r := by
        rcases (hrows r').mp hr' with hx | hx
        · have hfresh := hadd.fresh r.id (by rw [← hadd.numbered]; exact List.mem_map_of_mem hr)
          have hbound := s.db.bounded r' hx.1
          rw [hid] at hbound
          exact absurd hfresh (not_lt.mpr hbound)
        · have hnodup : (added.map (·.id)).Nodup := by
            rw [hadd.numbered]
            exact hadd.increasing.imp fun hlt => ne_of_lt hlt
          exact List.inj_on_of_nodup_map hnodup hx.mem hr hid
      rw [← hnew r hr, ← hsame]
      exact hr'
    · rintro r hr ⟨item, hitem, hx⟩
      rcases hd.kept r hr with hc | hc
      · exact absurd hx ((hgone r hr).mp hc.row hreplace item hitem)
      · exact hc
  · intro hcond
    have hlive : ∀ r ∈ added, r ∈ t'.store.db.rows := by
      intro r hr
      rw [hnew r hr]
      exact hkey.mpr (fun e => (hcond e).distinct) r hr
    constructor
    · refine ⟨ids, h.added, ?_⟩
      rw [← hadd.numbered, List.forall₂_map_right_iff]
      exact (forall₂_and_right hadd.filed hlive).imp fun item r hr => holding_of_filed h.inv hr.2 hr.1
    · refine ⟨added, hadd.nodup, ?_, fun r => ?_⟩
      · rw [h.count]
        exact hadd.filed.length_eq.symm
      · constructor
        · exact fun hr => ⟨hlive r hr, hadd.not_mem hr⟩
        · rintro ⟨hr, hno⟩
          rcases (hrows r).mp hr with hx | hx
          · exact absurd hx.1 hno
          · exact hx.mem
    · intro r hr
      by_cases hspared : Spared replace items r
      · left
        have hmem := (hgone r hr).mpr hspared
        refine ⟨hmem, fun e => h.array ⟨r, hmem, rfl⟩ e, fun hx e => h.axis ?_ e⟩
        unfold Catalog.referencesTimestamps
        rw [List.any_eq_true]
        exact ⟨r, hmem, decide_eq_true hx⟩
      · right
        unfold Spared at hspared
        push Not at hspared
        obtain ⟨hreplace, item, hitem, hx⟩ := hspared
        exact (hcond hreplace).own r hr ⟨item, hitem, hx⟩

end

namespace Sample

open Store.Sample

scoped instance : ToString TimeSeriesError := ⟨fun _ => "failed"⟩

/-- A series as it is read out of a partition. -/
def read (item : AddRequest) : ImportedSeries :=
  ⟨none, none, item.ownerId, item.ownerType, item.ownerCategory, item.features, item.data⟩

/-- A partition of some series. -/
def partition (items : List AddRequest) : Partition := ⟨"load", .ofList (items.map read)⟩

/-- A load about to begin on an empty store. -/
def idle : Loading Digest (MemoryBackend Digest) := ⟨empty, true, false, none, 0, []⟩

/-- The load of some series into an empty store. -/
def load (items : List AddRequest) (replace : Bool) :
    Except String ℕ × Loading Digest (MemoryBackend Digest) :=
  importPartition (partition items) ⟨none, none⟩ (.ok ()) replace idle

end Sample

end InfraStore.Cli
