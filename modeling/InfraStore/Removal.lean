import InfraStore.Identity

/-!
# Removing by id and by filter

A removal by id takes all the rows it names, or none, whatever order it names them in; and it takes no
source from under the views that are left.

* `Connection.Succeeds`: what a command does where the engine fails no statement;
* `Removable`: when the rows a list of ids names may be removed;
* `removeByIds_succeeds_iff`: such a removal succeeds, and no other does;
* `removeByFilter`: the removal that resolves a filter to ids;
* `removal_exact`: the theorem.
-/

namespace InfraStore

open Lib Connection

/-! ### Commands whose statements all run -/

namespace Connection

variable {H α β : Type}

/-- The engine has no fault ahead, and the command succeeds over the same savepoints. -/
def Succeeds (c : Connection H) (P : α → Catalog H → Prop) (r : Result α) (c' : Connection H) : Prop :=
  (c'.faults = [] ∧ c'.savepoints = c.savepoints ∧ c'.readOnly = c.readOnly) ∧
    ∃ a, r = .ok a ∧ P a c'.db

theorem succeeds_pure {c : Connection H} (hc : c.faults = []) {P : α → Catalog H → Prop} {a : α}
    (h : P a c.db) : (pure a : StoreCmd (Connection H) α).wp (Succeeds c P) c :=
  ⟨⟨hc, rfl, rfl⟩, a, rfl, h⟩

theorem exec_execute {c : Connection H} (hc : c.faults = [])
    {f : Connection H → Result (α × Connection H)} {a : α} {c' : Connection H}
    (h : f c.next = .ok (a, c')) : (execute f).exec c = (.ok a, c') := by
  unfold execute
  rw [Cmd.exec_ofExec, hc]
  simp only [List.headD_nil, h]

theorem succeeds_statement {c : Connection H} (hc : c.faults = [])
    {f : Catalog H → Result (α × Catalog H)} {P : α → Catalog H → Prop} {a : α} {db : Catalog H}
    (h : f c.db = .ok (a, db)) (hP : P a db) : (statement f).wp (Succeeds c P) c := by
  have hrun : (f c.next.db).map (fun x => (x.1, { c.next with db := x.2 })) =
      .ok (a, { c.next with db := db }) := by
    rw [show f c.next.db = _ from h]
    rfl
  unfold statement
  rw [Cmd.wp_of_exec (exec_execute hc hrun)]
  exact ⟨⟨by show c.faults.tail = []; rw [hc]; rfl, rfl, rfl⟩, a, rfl, hP⟩

theorem succeeds_query {c : Connection H} (hc : c.faults = []) {f : Catalog H → Result α}
    {P : α → Catalog H → Prop} {a : α} (h : f c.db = .ok a) (hP : P a c.db) :
    (query f).wp (Succeeds c P) c := by
  unfold query
  exact succeeds_statement hc (by rw [h]; rfl) hP

theorem succeeds_bind {c : Connection H} {cmd : StoreCmd (Connection H) α}
    {f : α → StoreCmd (Connection H) β} {P : α → Catalog H → Prop} {Q : β → Catalog H → Prop}
    (h : cmd.wp (Succeeds c P) c)
    (hf : ∀ a c₁, c₁.faults = [] → P a c₁.db → (f a).wp (Succeeds c₁ Q) c₁) :
    (cmd >>= f).wp (Succeeds c Q) c := by
  rw [Cmd.wp_bind]
  refine Cmd.wp_mono h ?_
  rintro r c₁ ⟨⟨hc₁, hsp, hro⟩, a, rfl, hP⟩
  refine Cmd.wp_mono (hf a c₁ hc₁ hP) ?_
  rintro r' c₂ ⟨⟨h1, h2, h3⟩, hex⟩
  exact ⟨⟨h1, h2.trans hsp, h3.trans hro⟩, hex⟩

theorem succeeds_withSavepoint {c : Connection H} (hc : c.faults = []) (hro : c.readOnly = false)
    {body : StoreCmd (Connection H) α} {P : α → Catalog H → Prop}
    (h : ∀ c₁ : Connection H, c₁.faults = [] → c₁.db = c.db → body.wp (Succeeds c₁ P) c₁) :
    (withSavepoint body).wp (Succeeds c P) c := by
  have hopen : (savepoint : StoreCmd (Connection H) Unit).exec c =
      (.ok (), { c.next with savepoints := c.db :: c.savepoints }) := by
    unfold savepoint
    rw [Cmd.exec_bind, Cmd.exec_get]
    simp only [hro, Bool.false_eq_true, if_false]
    exact exec_execute hc rfl
  unfold withSavepoint
  rw [Cmd.wp_bind, Cmd.wp_of_exec hopen]
  simp only [Cmd.wp_bind, Cmd.wp_attempt]
  refine Cmd.wp_mono (h _ (by show c.faults.tail = []; rw [hc]; rfl) rfl) ?_
  rintro r c₂ ⟨⟨hc₂, hsp, hro₂⟩, a, rfl, hP⟩
  have hclose : (release : StoreCmd (Connection H) Unit).exec c₂ =
      (.ok (), { c₂.next with savepoints := c.savepoints }) := by
    refine exec_execute hc₂ ?_
    simp only [show c₂.next.savepoints = c.db :: c.savepoints from hsp]
  unfold closeSavepoint
  simp only [Cmd.wp_bind, Cmd.wp_attempt]
  rw [Cmd.wp_of_exec hclose]
  exact ⟨⟨by show c₂.faults.tail = []; rw [hc₂]; rfl, rfl, hro₂⟩, a, rfl, hP⟩

end Connection

section

set_option linter.unusedSectionVars false

variable {H : Type} [DecidableEq H] [Sha256 H] [FloatText]

/-! ### Which rows may be removed -/

/-- A row of the owner expected, if one is. -/
def OfOwner (owner : Option (ℤ × OwnerCategory)) (r : AssociationRow H) : Prop :=
  ∀ o, owner = some o → (r.ownerId, r.ownerCategory) = o

/-- A view of a catalog over the array of a series of its family has such a series there. -/
def Catalog.Sourced (c : Catalog H) (r : AssociationRow H) : Prop :=
  (∃ v ∈ c.rows, v.timeSeriesType = .deterministicSingleTimeSeries ∧ v.family = r.family ∧
      v.dataHash = r.dataHash) →
    ∃ src ∈ c.rows, src.timeSeriesType = .singleTimeSeries ∧ src.family = r.family ∧
      src.dataHash = r.dataHash

/-- The rows some ids name may all be removed: each id names one, of the owner expected, and no view is
left without the source it had. -/
structure Removable (owner : Option (ℤ × OwnerCategory)) (ids : List ℤ) (db : Catalog H) : Prop where
  found : ∀ id ∈ ids, ∃ r ∈ db.rows, r.id = id
  owned : ∀ r ∈ db.rows, r.id ∈ ids → OfOwner owner r
  sourced : ∀ r ∈ db.rows, r.id ∈ ids → r.timeSeriesType = .singleTimeSeries →
    (db.deleteWhere fun r => decide (r.id ∈ ids)).Sourced r

/-- It is a matter of which ids they are, not of their order or of how often they come. -/
theorem Removable.congr {owner : Option (ℤ × OwnerCategory)} {ids ids' : List ℤ} {db : Catalog H}
    (h : Removable owner ids db) (hids : ∀ id, id ∈ ids ↔ id ∈ ids') : Removable owner ids' db := by
  have hdelete : (db.deleteWhere fun r => decide (r.id ∈ ids)) =
      db.deleteWhere fun r => decide (r.id ∈ ids') :=
    Catalog.deleteWhere_congr fun r _ => by rw [decide_eq_decide]; exact hids r.id
  refine ⟨fun id hid => h.found id ((hids id).mpr hid), fun r hr hid => h.owned r hr ((hids _).mpr hid),
    fun r hr hid ht => ?_⟩
  rw [← hdelete]
  exact h.sourced r hr ((hids _).mpr hid) ht

/-! ### What the guard probes -/

theorem isoToPeriod_toIso8601 (p : Period) : isoToPeriod p.toIso8601 = .ok p.wholeMillis := by
  unfold isoToPeriod
  rw [Period.fromIso8601_toIso8601]

/-- The resolution of a row that was filed reads back, and prints as it did. -/
theorem AssociationRow.Spelt.isoToPeriod {r : AssociationRow H} (h : r.Spelt) :
    ∃ q, AssociationRow.parseColumn InfraStore.isoToPeriod r.resolution = .ok q ∧
      q.map Period.toIso8601 = r.resolution := by
  obtain ⟨p, hp⟩ := h.resolution
  rw [hp]
  cases p with
  | none => exact ⟨none, rfl, rfl⟩
  | some p =>
    refine ⟨some p.wholeMillis, ?_, congrArg some (Period.toIso8601_wholeMillis p)⟩
    exact congrArg (Except.map some) (isoToPeriod_toIso8601 p)

theorem Records.family {owner : Option (ℤ × OwnerCategory)} {r : AssociationRow H} {d : DeletedRow H}
    (h : Records owner r d) (hr : r.Spelt) : d.family = r.family := by
  obtain ⟨q, hq, hprint⟩ := hr.isoToPeriod
  rw [h.resolution, Except.ok.injEq] at hq
  unfold DeletedRow.family AssociationRow.family
  rw [SeriesFamily.mk.injEq]
  exact ⟨h.owned.1, h.owned.2, h.name, by rw [hq]; exact hprint, h.featuresHash⟩

theorem forecastFamilyConflictOnArray_iff {c : Catalog H} {f : SeriesFamily H} {array : H}
    {t : TimeSeriesType} : c.forecastFamilyConflictOnArray f array t = true ↔
      ∃ r ∈ c.rows, r.timeSeriesType = t ∧ r.family = f ∧ r.dataHash = array := by
  unfold Catalog.forecastFamilyConflictOnArray
  rw [List.any_eq_true]
  simp only [Bool.and_eq_true, decide_eq_true_eq, and_assoc]

/-- What the guard asks of a removed row. -/
theorem Records.backed_iff {owner : Option (ℤ × OwnerCategory)} {r : AssociationRow H}
    {d : DeletedRow H} (h : Records owner r d) (hr : r.Spelt) (db : Catalog H) :
    Backed db d ↔ db.Sourced r := by
  unfold Backed Catalog.Sourced
  rw [forecastFamilyConflictOnArray_iff, forecastFamilyConflictOnArray_iff, h.family hr, h.dataHash]

/-! ### A removal that may be done is done -/

theorem deleteById_succeeds {c : Connection H} (hc : c.faults = []) {id : ℤ}
    {owner : Option (ℤ × OwnerCategory)} {r : AssociationRow H} (hr : c.db.rowById id = some r)
    (howner : OfOwner owner r) (hspelt : r.Spelt) : (deleteById id owner).wp
      (Succeeds c fun found db => ∃ d, found = some d ∧ DeletedById owner id c.db r d db) c := by
  obtain ⟨q, hq, -⟩ := hspelt.isoToPeriod
  unfold deleteById
  refine succeeds_bind (P := fun found db => found = some r ∧ db = c.db)
    (succeeds_query hc rfl ⟨hr, rfl⟩) ?_
  rintro _ c₁ hc₁ ⟨rfl, hdb₁⟩
  simp only
  have hrest : (do
      statement fun db => .ok ((), db.deleteWhere (·.id = id))
      let resolution ← Cmd.ofExcept (AssociationRow.parseColumn isoToPeriod r.resolution)
      pure (some
        { dataHash := r.dataHash, timeSeriesType := r.timeSeriesType, ownerId := r.ownerId,
          ownerCategory := r.ownerCategory, name := r.name, resolution,
          featuresHash := r.featuresHash }) :
        StoreCmd (Connection H) (Option (DeletedRow H))).wp
      (Succeeds c₁ fun found db => ∃ d, found = some d ∧ DeletedById owner id c.db r d db) c₁ := by
    refine succeeds_bind (P := fun _ db => db = c.db.deleteWhere (·.id = id))
      (succeeds_statement hc₁ rfl (by rw [hdb₁])) fun _ c₂ hc₂ hdb₂ => ?_
    rw [hq]
    exact succeeds_pure hc₂ ⟨_, rfl, ⟨⟨rfl, rfl, hq, rfl, rfl, ⟨rfl, rfl⟩, howner⟩, hdb₂, hr⟩⟩
  rcases owner with _ | ⟨oid, ocat⟩
  · exact hrest
  · obtain ⟨h1, h2⟩ := Prod.mk.inj (howner _ rfl)
    simp only
    rw [if_neg (by rw [not_or]; exact ⟨not_not.mpr h1, not_not.mpr h2⟩)]
    exact hrest

theorem deleteIds_succeeds {owner : Option (ℤ × OwnerCategory)} (ids : List ℤ) :
    ∀ (seen : List ℤ) (c : Connection H), c.faults = [] →
      (∀ id ∈ ids, id ∉ seen → ∃ r ∈ c.db.rows, r.id = id ∧ OfOwner owner r ∧ r.Spelt) →
      (deleteIds owner ids seen).wp
        (Succeeds c fun rows db => DeletedIds owner ids seen c.db rows db) c := by
  induction ids with
  | nil =>
    exact fun seen c hc _ => succeeds_pure hc (deleteIds_outcome owner [] seen c).2.2
  | cons id ids ih =>
    intro seen c hc hrows
    unfold deleteIds
    split
    · rename_i hs
      refine Cmd.wp_mono (ih seen c hc fun i hi hn => hrows i (List.mem_cons_of_mem _ hi) hn) ?_
      rintro r c' ⟨h1, rows, rfl, h⟩
      exact ⟨h1, rows, rfl, h.skip hs⟩
    · rename_i hs
      obtain ⟨r, hr, hid, howner, hspelt⟩ := hrows id List.mem_cons_self hs
      refine succeeds_bind (deleteById_succeeds hc (rowById_eq_some.mpr ⟨hr, hid⟩) howner hspelt) ?_
      rintro _ c₁ hc₁ ⟨d, rfl, hd⟩
      refine succeeds_bind (ih (id :: seen) c₁ hc₁ fun i hi hn => ?_) fun rows c₂ hc₂ h₂ =>
        succeeds_pure hc₂ (.next hs hd h₂)
      obtain ⟨x, hx, hxi, hxo, hxs⟩ := hrows i (List.mem_cons_of_mem _ hi)
        (List.not_mem_of_not_mem_cons hn)
      refine ⟨x, ?_, hxi, hxo, hxs⟩
      rw [hd.rest]
      refine List.mem_filter.mpr ⟨hx, ?_⟩
      rw [Bool.not_eq_true', decide_eq_false_iff_not, hxi]
      exact List.ne_of_not_mem_cons hn

theorem checkNoOrphanedDst_succeeds (rows : List (DeletedRow H)) :
    ∀ (seen : List (SeriesFamily H × Option Period × H)) (c : Connection H), c.faults = [] →
      (∀ row ∈ rows, Backed c.db row) →
      (checkNoOrphanedDst rows seen).wp (Succeeds c fun _ db => db = c.db) c := by
  induction rows with
  | nil => exact fun seen c hc _ => succeeds_pure hc rfl
  | cons row rows ih =>
    intro seen c hc hb
    have htail : ∀ r ∈ rows, Backed c.db r := fun r hr => hb r (List.mem_cons_of_mem _ hr)
    unfold checkNoOrphanedDst
    dsimp only
    split
    · exact ih seen c hc htail
    · refine succeeds_bind (P := fun found db => db = c.db ∧
        found = c.db.forecastFamilyConflictOnArray row.family row.dataHash .deterministicSingleTimeSeries)
        (succeeds_query hc rfl ⟨rfl, rfl⟩) fun found c₁ hc₁ h₁ => ?_
      obtain ⟨hdb₁, hfound⟩ := h₁
      have hnext : ∀ c₂ : Connection H, c₂.faults = [] → c₂.db = c.db →
          (checkNoOrphanedDst rows ((row.family, row.resolution, row.dataHash) :: seen)).wp
            (Succeeds c₂ fun _ db => db = c.db) c₂ := by
        intro c₂ hc₂ hdb₂
        rw [← hdb₂]
        exact ih _ c₂ hc₂ (by rw [hdb₂]; exact htail)
      rcases found with _ | _
      · exact hnext c₁ hc₁ hdb₁
      · refine succeeds_bind (P := fun found db => db = c.db ∧ found = true)
          (succeeds_query hc₁ rfl ⟨hdb₁, ?_⟩) ?_
        · rw [hdb₁]
          exact hb row List.mem_cons_self hfound.symm
        · rintro _ c₂ hc₂ ⟨hdb₂, rfl⟩
          exact hnext c₂ hc₂ hdb₂

theorem unreferencedIn_succeeds (referenced : Catalog H → H → Bool) (hs : List H) :
    ∀ (seen : List H) (c : Connection H), c.faults = [] →
      (unreferencedIn referenced hs seen).wp (Succeeds c fun _ db => db = c.db) c := by
  induction hs with
  | nil => exact fun seen c hc => succeeds_pure hc rfl
  | cons h hs ih =>
    intro seen c hc
    unfold unreferencedIn
    split
    · exact ih seen c hc
    · refine succeeds_bind (P := fun _ db => db = c.db) (succeeds_query hc rfl rfl)
        fun used c₁ hc₁ h₁ => ?_
      refine succeeds_bind (ih (h :: seen) c₁ hc₁) fun rest c₂ hc₂ h₂ => succeeds_pure hc₂ (h₂.trans h₁)

end

namespace Store

section

set_option linter.unusedSectionVars false

variable {H B : Type} [DecidableEq H] [ArrayBackend H B] [Sha256 H] [FloatText] [ToString H]

/-- Remove every series a filter matches, by its ids. -/
def removeByFilter [Glob] (filter : ListFilter) : StoreCmd (Store H B) ℕ := do
  let s ← get
  if s.conn.readOnly then throw .readOnlyStore
  let found ← onConn (Connection.query fun db => db.listFilter none filter.toFilter)
  let ids := found.filterMap (·.id)
  if ids = [] then pure 0
  else removeByIdsInner ids none

variable [LawfulArrayBackend H B]

/-- A removal that was done could be. -/
theorem RemovedByIds.removable {owner : Option (ℤ × OwnerCategory)} {ids : List ℤ} {db db' : Catalog H}
    (h : RemovedByIds owner ids db db') (hspelt : ∀ r ∈ db.rows, r.Spelt) : Removable owner ids db := by
  refine ⟨h.found, fun r hr hid => ?_, fun r hr hid ht => ?_⟩
  · obtain ⟨d, hd, -⟩ := h.recorded r hr hid
    exact hd.guarded
  · obtain ⟨d, hd, hb⟩ := h.recorded r hr hid
    have := (hd.backed_iff (hspelt r hr) db').mp (hb ht)
    rw [h.rest] at this
    exact this

theorem freeOrDefer_ok {s : Store H B} (hs : s.arrays.Valid) (g : FileObjects H) :
    (freeOrDefer (B := B) g).wp (fun r _ => r.isOk = true) s := by
  unfold freeOrDefer
  rw [Cmd.wp_bind, Cmd.wp_get]
  simp only
  split
  · exact (Cmd.wp_modify _ _ _).mpr rfl
  · simp only [onArrays, Cmd.wp_zoom]
    exact Cmd.wp_mono (removeWrites_spec hs g) fun _ _ h => h.1

/-- **A removal that may be done is done**, where the engine fails no statement. -/
theorem removeByIds_succeeds {s : Store H B} (hs : s.Sound) (hf : s.conn.faults = [])
    (hro : s.conn.readOnly = false) (halive : s.transactionWasForcedBack = false)
    (hspelt : ∀ r ∈ s.db.rows, r.Spelt) {ids : List ℤ} {owner : Option (ℤ × OwnerCategory)}
    (h : Removable owner ids s.db) :
    (removeByIdsInner (B := B) ids owner).wp (fun r _ => r.isOk = true) s := by
  have hwork : ∀ c₁ : Connection H, c₁.faults = [] → c₁.db = s.db → (do
      let removed ← deleteIds owner ids []
      checkNoOrphanedDst (removed.filter (·.timeSeriesType = .singleTimeSeries)) []
      let arrays ← unreferencedIn Catalog.referencesArray (removed.map (·.dataHash)) []
      pure (removed.length, arrays) : StoreCmd (Connection H) (ℕ × List H)).wp
        (Succeeds c₁ fun _ _ => True) c₁ := by
    intro c₁ hc₁ hdb
    refine succeeds_bind (deleteIds_succeeds ids [] c₁ hc₁ fun id hid _ => ?_) fun rows c₂ hc₂ h₂ => ?_
    · obtain ⟨r, hr, hri⟩ := h.found id hid
      rw [hdb]
      exact ⟨r, hr, hri, h.owned r hr (by rw [hri]; exact hid), hspelt r hr⟩
    · refine succeeds_bind (checkNoOrphanedDst_succeeds _ [] c₂ hc₂ fun d hd => ?_)
        fun _ c₃ hc₃ _ => succeeds_bind (unreferencedIn_succeeds _ _ [] c₃ hc₃)
          fun _ c₄ hc₄ _ => succeeds_pure hc₄ trivial
      obtain ⟨hd, ht⟩ := List.mem_filter.mp hd
      obtain ⟨r, hr, hid, -, hrec⟩ := h₂.origin d hd
      rw [hdb] at hr
      rw [hrec.backed_iff (hspelt r hr), h₂.rest, hdb]
      have hsourced := h.sourced r hr hid (by
        rw [← hrec.timeSeriesType]
        exact of_decide_eq_true ht)
      rw [Catalog.deleteWhere_congr (q := fun r => decide (r.id ∈ ids)) fun r _ => by simp]
      exact hsourced
  unfold removeByIdsInner
  rw [Cmd.wp_bind]
  unfold writeCatalog checkTransactionAlive
  simp only [Cmd.wp_bind, Cmd.wp_get, halive, Bool.false_eq_true, if_false, Cmd.wp_pure]
  unfold onConn
  rw [Cmd.wp_zoom]
  refine Cmd.wp_mono (succeeds_withSavepoint hf hro hwork) ?_
  rintro r c' ⟨-, out, rfl, -⟩
  have hfree := freeOrDefer_ok (s := { s with conn := c' }) hs.valid ⟨out.2, []⟩
  refine Cmd.wp_mono hfree fun r s' hr => ?_
  rcases r with e | u
  · cases hr
  · rfl

/-! ### Every reachable store -/

theorem Effect.readOnly {s s' : Store H B} (h : Effect s s') : s'.conn.readOnly = s.conn.readOnly := by
  cases h with
  | wrote w g h => exact h.later.readOnly
  | begun h => exact h.later.readOnly
  | released h => exact h.later.readOnly
  | committed garbage h => exact h.later.readOnly
  | rewound h => exact h.later.readOnly
  | unwound mark outer saved rest removed h => exact h.later.readOnly
  | discarded removed h => exact h.later.readOnly

/-- A store that was created may be written. -/
theorem Reachable.writable {s : Store H B} (h : s.Reachable) : s.conn.readOnly = false := by
  induction h with
  | create valid noArray noVector => rfl
  | turn t hr ih => exact (turn_effect hr.inv t).readOnly.trans ih

/-- What a removal of some rows leaves: they are gone, and every view that had a source of its family
on its array has one still. -/
structure RemovedExactly (owner : Option (ℤ × OwnerCategory)) (p : AssociationRow H → Prop)
    (db db' : Catalog H) : Prop where
  rows : ∀ r, r ∈ db'.rows ↔ r ∈ db.rows ∧ ¬ p r
  rest : db'.featureSets = db.featureSets ∧ db'.seq = db.seq
  owned : ∀ r ∈ db.rows, p r → OfOwner owner r
  sourced : ∀ v ∈ db'.rows, v.timeSeriesType = .deterministicSingleTimeSeries →
    (∃ src ∈ db.rows, src.timeSeriesType = .singleTimeSeries ∧ src.family = v.family ∧
      src.dataHash = v.dataHash) →
    ∃ src ∈ db'.rows, src.timeSeriesType = .singleTimeSeries ∧ src.family = v.family ∧
      src.dataHash = v.dataHash

theorem RemovedByIds.exactly {owner : Option (ℤ × OwnerCategory)} {ids : List ℤ} {db db' : Catalog H}
    (h : RemovedByIds owner ids db db') (hspelt : ∀ r ∈ db.rows, r.Spelt) :
    RemovedExactly owner (fun r => r.id ∈ ids) db db' := by
  have hrem := h.removable hspelt
  have hmem : ∀ r, r ∈ db'.rows ↔ r ∈ db.rows ∧ r.id ∉ ids := by
    intro r
    rw [h.rest]
    unfold Catalog.deleteWhere
    rw [List.mem_filter, Bool.not_eq_true', decide_eq_false_iff_not]
  refine ⟨hmem, by rw [h.rest]; exact ⟨rfl, rfl⟩, hrem.owned, ?_⟩
  rintro v hv hview ⟨src, hsrc, ht, hfam, harr⟩
  by_cases hid : src.id ∈ ids
  · -- the source went, so the guard has probed its family
    have hprobe := hrem.sourced src hsrc hid ht
    rw [← h.rest] at hprobe
    obtain ⟨src', hsrc', ht', hfam', harr'⟩ := hprobe ⟨v, hv, hview, hfam.symm, harr.symm⟩
    exact ⟨src', hsrc', ht', hfam'.trans hfam, harr'.trans harr⟩
  · exact ⟨src, (hmem src).mpr ⟨hsrc, hid⟩, ht, hfam, harr⟩

/-- A failure leaves the catalog as it was, unless the engine has taken the whole open transaction
back. -/
def Unchanged (s s' : Store H B) : Prop :=
  s'.db = s.db ∨ Fault.rollsBack ∈ s.conn.faults ∧ s.conn.savepoints.getLast? = some s'.db

theorem Outcome.unchanged {α : Type} {s s' : Store H B} {P : α → Catalog H → Prop}
    {e : TimeSeriesError} (h : Outcome s.conn P (· = s.db) (.error e) s'.conn) : Unchanged s s' :=
  h.2.imp And.right fun h => ⟨h.fault, h.saved⟩

/-- **Removing by id**, under any faults. -/
theorem removeByIds_exact {s : Store H B} (h : s.Inv) (hspelt : ∀ r ∈ s.db.rows, r.Spelt)
    (ids : List ℤ) (owner : Option (ℤ × OwnerCategory)) :
    (removeByIdsInner (B := B) ids owner).wp (fun r s' => match r with
      | .error _ => Unchanged s s'
      | .ok _ => (∀ id ∈ ids, ∃ r ∈ s.db.rows, r.id = id) ∧
          RemovedExactly owner (fun r => r.id ∈ ids) s.db s'.db) s := by
  refine Cmd.wp_mono (removeByIdsInner_spec h.toSound ids owner) fun r s' hr => ?_
  rcases r with e | n
  · exact Outcome.unchanged hr.2
  · obtain ⟨-, hids⟩ := hr.2.2.2
    exact ⟨hids.found, hids.exactly hspelt⟩

/-- The rows a filter asks for: those its columns match, with the features it requires. -/
def Picks [Glob] (s : Store H B) (filter : ListFilter) (r : AssociationRow H) : Prop :=
  (filter.toFilter : MetadataFilter H).holds r = true ∧ ∃ g, s.db.rowFeatures r = .ok g ∧
    (filter.toFilter : MetadataFilter H).features.all (isSubset · g) = true

/-- **Removing by filter**, under any faults. -/
theorem removeByFilter_exact [Glob] {s : Store H B} (h : s.Inv) (hspelt : ∀ r ∈ s.db.rows, r.Spelt)
    (filter : ListFilter) :
    (removeByFilter (B := B) filter).wp (fun r s' => match r with
      | .error _ => Unchanged s s'
      | .ok _ => RemovedExactly none (s.Picks filter) s.db s'.db) s := by
  unfold removeByFilter
  rw [Cmd.wp_bind, Cmd.wp_get]
  simp only
  split
  · exact (Cmd.wp_throw _ _ _).mpr (Or.inl rfl)
  unfold onConn
  rw [Cmd.wp_bind, Cmd.wp_zoom]
  refine Cmd.wp_mono (outcome_query (P := fun ms db => db = s.db ∧
    s.db.listFilter none filter.toFilter = .ok ms) (E := (· = s.db)) (fun ms hms => ⟨rfl, hms⟩) rfl) ?_
  rintro (e | ms) c₁ ho
  · have hend : Unchanged s { s with conn := c₁ } := Outcome.unchanged ho
    exact hend
  obtain ⟨hl, hsp, hdb, hms⟩ := ho
  have hs₁ : ({ s with conn := c₁ } : Store H B) = s.arm c₁.faults := by
    rcases c₁ with ⟨db, savepoints, faults, readOnly⟩
    cases hdb
    cases hsp
    cases hl.readOnly
    rfl
  have hpicks : ∀ i, i ∈ ms.filterMap (·.id) ↔ ∃ r ∈ s.db.rows, r.id = i ∧ s.Picks filter r := by
    intro i
    rw [List.mem_filterMap]
    exact Catalog.list_rows_only hms i
  have hrows : ∀ r ∈ s.db.rows, (r.id ∈ ms.filterMap (·.id) ↔ s.Picks filter r) := by
    intro r hr
    rw [hpicks]
    constructor
    · rintro ⟨r', hr', hid, hp⟩
      have hsame := (rowById_eq_some.mpr ⟨hr', hid⟩).symm.trans (rowById_eq_some.mpr ⟨hr, rfl⟩)
      rw [Option.some.injEq] at hsame
      rw [← hsame]
      exact hp
    · exact fun hp => ⟨r, hr, rfl, hp⟩
  simp only
  split
  · rename_i hnil
    rw [hnil] at hrows
    refine ⟨fun r => ?_, ?_, fun _ _ _ o ho => (by cases ho), ?_⟩
    · show r ∈ c₁.db.rows ↔ _
      rw [hdb]
      exact ⟨fun hr => ⟨hr, fun hp => List.not_mem_nil ((hrows r hr).mpr hp)⟩, And.left⟩
    · show c₁.db.featureSets = _ ∧ c₁.db.seq = _
      rw [hdb]
      exact ⟨rfl, rfl⟩
    · intro v _ _ hsrc
      show ∃ src ∈ c₁.db.rows, _
      rw [hdb]
      exact hsrc
  · rw [hs₁]
    refine Cmd.wp_mono (removeByIds_exact (h.arm c₁.faults) hspelt _ none) fun r s' hr => ?_
    rcases r with e | n
    · exact hr.imp_right fun hf => ⟨hl.faults.mem hf.1, hf.2⟩
    · obtain ⟨-, h1, h2, h3, h4⟩ := hr
      refine ⟨fun r => ?_, h2, fun r hr hp => h3 r hr ((hrows r hr).mpr hp), h4⟩
      rw [h1]
      exact and_congr_right fun hr => not_congr (hrows r hr)

theorem removeByIds_exec (ids : List ℤ) (owner : Option (ℤ × OwnerCategory)) (faults : List Fault)
    (s : Store H B) :
    (turn (B := B) ⟨.removeByIds ids owner, faults⟩).exec s =
      (((removeByIdsInner ids owner).exec (s.arm faults)).1.map fun _ => (),
        ((removeByIdsInner ids owner).exec (s.arm faults)).2) := by
  rw [turn_exec]
  exact Cmd.exec_map (removeByIdsInner ids owner) (fun _ => ()) (s.arm faults)

theorem removeByIds_alive {s : Store H B} {ids : List ℤ} {owner : Option (ℤ × OwnerCategory)}
    (h : ((removeByIdsInner (B := B) ids owner).exec s).1.isOk = true) :
    s.transactionWasForcedBack = false := by
  by_contra hdead
  rw [Bool.not_eq_false] at hdead
  have hfails : (removeByIdsInner (B := B) ids owner).wp (fun r _ => r.isOk = false) s := by
    unfold removeByIdsInner writeCatalog checkTransactionAlive
    simp only [Cmd.wp_bind, Cmd.wp_get, hdead, if_true, Cmd.wp_throw]
    rfl
  rw [Cmd.wp, h] at hfails
  cases hfails

/-- A removal by id that the engine does not disturb succeeds where the rows it names may go, and then
only. -/
theorem removeByIds_succeeds_iff {s : Store H B} (h : s.Reachable)
    (ids : List ℤ) (owner : Option (ℤ × OwnerCategory)) :
    s.succeeds ⟨.removeByIds ids owner, []⟩ = true ↔
      s.transactionWasForcedBack = false ∧ Removable owner ids s.db := by
  have hinv := h.inv.arm []
  have hdone := removeByIdsInner_spec (s := s.arm []) hinv.toSound ids owner
  unfold succeeds
  rw [removeByIds_exec]
  dsimp only
  have hmap : ∀ r : Result ℕ, (r.map fun _ => ()).isOk = r.isOk := fun r => by cases r <;> rfl
  rw [hmap]
  constructor
  · intro hok
    refine ⟨removeByIds_alive (s := s.arm []) hok, ?_⟩
    unfold Cmd.wp at hdone
    rcases hr : ((removeByIdsInner (B := B) ids owner).exec (s.arm [])).1 with e | n
    · rw [hr] at hok
      cases hok
    · rw [hr] at hdone
      exact hdone.2.2.2.2.removable h.spelt
  · rintro ⟨halive, hrem⟩
    exact removeByIds_succeeds hinv.toSound rfl h.writable halive h.spelt hrem

/-- The catalog such a removal leaves. -/
theorem removeByIds_leaves {s : Store H B} (h : s.Reachable) (ids : List ℤ)
    (owner : Option (ℤ × OwnerCategory)) :
    (s.turned ⟨.removeByIds ids owner, []⟩).db =
      if s.succeeds ⟨.removeByIds ids owner, []⟩ = true then
        s.db.deleteWhere fun r => decide (r.id ∈ ids)
      else s.db := by
  have hdone := removeByIdsInner_spec (s := s.arm []) (h.inv.arm []).toSound ids owner
  unfold turned succeeds
  rw [removeByIds_exec]
  dsimp only
  unfold Cmd.wp at hdone
  rcases hr : ((removeByIdsInner (B := B) ids owner).exec (s.arm [])).1 with e | n
  · rw [hr] at hdone
    rcases Outcome.unchanged hdone.2 with hdb | ⟨hfault, -⟩
    · exact hdb
    · cases hfault
  · rw [hr] at hdone
    exact hdone.2.2.2.2.rest

/-- **Removals are exact.**  A removal by id, of one owner or not, takes exactly the rows it names and
no view's last source, or leaves the catalog as it was; which of the two, and the catalog it leaves,
are the same for any list of the same ids; and a removal by filter takes exactly the rows the filter
asks for, likewise. -/
theorem removal_exact [Glob] {s : Store H B} (h : s.Reachable) :
    (∀ ids owner faults,
      (s.succeeds ⟨.removeByIds ids owner, faults⟩ = false →
        Unchanged (s.arm faults) (s.turned ⟨.removeByIds ids owner, faults⟩)) ∧
      (s.succeeds ⟨.removeByIds ids owner, faults⟩ = true →
        (∀ id ∈ ids, ∃ r ∈ s.db.rows, r.id = id) ∧
        RemovedExactly owner (fun r => r.id ∈ ids) s.db
          (s.turned ⟨.removeByIds ids owner, faults⟩).db)) ∧
    (∀ ids ids' owner, (∀ id, id ∈ ids ↔ id ∈ ids') →
      s.succeeds ⟨.removeByIds ids owner, []⟩ = s.succeeds ⟨.removeByIds ids' owner, []⟩ ∧
        (s.turned ⟨.removeByIds ids owner, []⟩).db = (s.turned ⟨.removeByIds ids' owner, []⟩).db) ∧
    ∀ filter faults, (removeByFilter (B := B) filter).wp (fun r s' => match r with
      | .error _ => Unchanged (s.arm faults) s'
      | .ok _ => RemovedExactly none (s.Picks filter) s.db s'.db) (s.arm faults) := by
  refine ⟨fun ids owner faults => ?_, fun ids ids' owner hids => ?_, fun filter faults =>
    removeByFilter_exact (h.inv.arm faults) h.spelt filter⟩
  · have hexact := removeByIds_exact (s := s.arm faults) (h.inv.arm faults) h.spelt ids owner
    unfold turned succeeds
    rw [removeByIds_exec]
    dsimp only
    unfold Cmd.wp at hexact
    rcases hr : ((removeByIdsInner (B := B) ids owner).exec (s.arm faults)).1 with e | n
    · rw [hr] at hexact
      exact ⟨fun _ => hexact, fun hok => (by cases hok)⟩
    · rw [hr] at hexact
      exact ⟨fun hok => (by cases hok), fun _ => hexact⟩
  · have hsame : s.succeeds ⟨.removeByIds ids owner, []⟩ = s.succeeds ⟨.removeByIds ids' owner, []⟩ := by
      rw [Bool.eq_iff_iff, removeByIds_succeeds_iff h, removeByIds_succeeds_iff h]
      exact and_congr_right fun _ => ⟨fun hrem => hrem.congr hids,
        fun hrem => hrem.congr fun id => (hids id).symm⟩
    refine ⟨hsame, ?_⟩
    rw [removeByIds_leaves h, removeByIds_leaves h, hsame,
      Catalog.deleteWhere_congr (q := fun r => decide (r.id ∈ ids')) fun r _ =>
        decide_eq_decide.mpr (hids r.id)]

end

namespace Sample

/-- A series, and a second one of another owner. -/
def pair : List (Turn Digest) :=
  [⟨.addRequests [request 1 7], []⟩, ⟨.addRequests [request 2 9], []⟩]

/-- Two rows go by id in whichever order they are named. -/
theorem removal_exact_pair :
    (after pair).succeeds ⟨.removeByIds [1, 2] none, []⟩ = true ∧
    RemovedExactly none (fun r => r.id ∈ [1, 2]) (after pair).db
      ((after pair).turned ⟨.removeByIds [1, 2] none, []⟩).db ∧
    ((after pair).turned ⟨.removeByIds [1, 2] none, []⟩).db =
      ((after pair).turned ⟨.removeByIds [2, 1, 2] none, []⟩).db :=
  have hok : (after pair).succeeds ⟨.removeByIds [1, 2] none, []⟩ = true := by decide +kernel
  ⟨hok, (((removal_exact (after_reachable pair)).1 [1, 2] none []).2 hok).2,
    ((removal_exact (after_reachable pair)).2.1 [1, 2] [2, 1, 2] none (by simp)).2⟩

end Sample

end Store

end InfraStore
