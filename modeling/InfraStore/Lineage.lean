import InfraStore.CatalogFile
import InfraStore.Filing
import InfraStore.Rollback

/-!
# The life of an id

A store is opened over a catalog file, takes its turns, is saved and opened again.  Across all of it an
id that a committed row once held is never another row's.

* `IdsKept`: what a later catalog may hold of the ids up to a mark;
* `Left.keeps`: no operation issues an id up to the mark it finds;
* `Follows`: the runs of a store across saves and opens;
* `ids_permanent`: the theorem.
-/

namespace InfraStore

open Lib Connection

section

variable {H : Type}

/-- One row and another are the same one, under whatever owner. -/
def AssociationRow.SameSeries (r r' : AssociationRow H) : Prop :=
  ∃ owner, r' = { r with ownerId := owner }

theorem AssociationRow.SameSeries.refl (r : AssociationRow H) : r.SameSeries r := ⟨r.ownerId, rfl⟩

theorem AssociationRow.SameSeries.trans {r r' r'' : AssociationRow H} (h : r.SameSeries r')
    (h' : r'.SameSeries r'') : r.SameSeries r'' := by
  obtain ⟨owner, rfl⟩ := h
  obtain ⟨owner', rfl⟩ := h'
  exact ⟨owner', rfl⟩

theorem AssociationRow.SameSeries.id_eq {r r' : AssociationRow H} (h : r.SameSeries r') :
    r'.id = r.id := by
  obtain ⟨owner, rfl⟩ := h
  rfl

/-- Of the ids up to a mark a catalog holds only those some rows held, each for the same series. -/
structure IdsKept (rows : List (AssociationRow H)) (mark : ℤ) (db : Catalog H) : Prop where
  mark_le : mark ≤ db.seq
  same : ∀ r' ∈ db.rows, r'.id ≤ mark → ∃ r ∈ rows, r.SameSeries r'

/-- A catalog that may come after another. -/
def Catalog.Keeps (c db : Catalog H) : Prop := IdsKept c.rows c.seq db

theorem Catalog.Keeps.refl (c : Catalog H) : c.Keeps c :=
  ⟨le_refl _, fun r hr _ => ⟨r, hr, .refl r⟩⟩

theorem IdsKept.trans {rows : List (AssociationRow H)} {mark : ℤ} {c db : Catalog H}
    (h : IdsKept rows mark c) (h' : c.Keeps db) : IdsKept rows mark db := by
  refine ⟨h.mark_le.trans h'.mark_le, fun r hr hle => ?_⟩
  obtain ⟨r', hr', hsame⟩ := h'.same r hr (hle.trans h.mark_le)
  obtain ⟨r₀, hr₀, hsame₀⟩ := h.same r' hr' (by rw [← hsame.id_eq]; exact hle)
  exact ⟨r₀, hr₀, hsame₀.trans hsame⟩

/-- A catalog that lost rows and gained none keeps the ids. -/
theorem Catalog.Keeps.of_subset {c db : Catalog H} (hseq : db.seq = c.seq)
    (hrows : ∀ r ∈ db.rows, r ∈ c.rows) : c.Keeps db :=
  ⟨hseq.ge, fun r hr _ => ⟨r, hrows r hr, .refl r⟩⟩

/-- An id that a row held names the same row ever after, or none. -/
theorem Catalog.Keeps.same_id {c db : Catalog H} (h : c.Keeps db) {r r' : AssociationRow H}
    (hr : r ∈ c.rows) (hr' : r' ∈ db.rows) (hid : r'.id = r.id) : r.SameSeries r' := by
  obtain ⟨r₀, hr₀, hsame⟩ := h.same r' hr' (by rw [hid]; exact c.bounded r hr)
  have hrow : r₀ = r := by
    have hone : (c.rows.map (·.id)).Nodup := List.pairwise_map.mpr (c.ordered.imp fun hlt => ne_of_lt hlt)
    exact List.inj_on_of_nodup_map hone hr₀ hr (hsame.id_eq.symm.trans hid)
  rw [← hrow]
  exact hsame

end

section

set_option linter.unusedSectionVars false

variable {H : Type} [DecidableEq H] [Sha256 H] [FloatText]

/-! ### Filing and the mark -/

theorem InsertedOne.seq {m : TimeSeriesMetadata H} {cache : SharedSetCache H} {db db' : Catalog H}
    {x : ℤ × SharedSetCache H} (h : InsertedOne m cache db x db') : db'.seq = max db.seq x.1 := by
  have hrow := h.row
  unfold Catalog.insertRow at hrow
  obtain ⟨id, -, hrow⟩ := except_bind_eq_ok.mp hrow
  split at hrow
  · split at hrow
    · cases hrow
      show max (db.withFeatures m cache).seq _ = _
      rw [(Catalog.withFeatures_rows m cache db).2]
      rfl
    · cases hrow
  · cases hrow

/-- Rows filed under ids above a mark leave the rows up to it as they were. -/
theorem Chain.above {ms : List (TimeSeriesMetadata H)} {cache : SharedSetCache H} {db db' : Catalog H}
    {y : List ℤ × SharedSetCache H} (h : Chain InsertedOne ms cache db y db') {mark : ℤ}
    (hmark : mark ≤ db.seq) (hids : ∀ m ∈ ms, ∀ id, m.id = some id → mark < id) :
    mark ≤ db'.seq ∧ ∀ r ∈ db'.rows, r.id ≤ mark → r ∈ db.rows := by
  induction h with
  | nil cache db => exact ⟨hmark, fun r hr _ => hr⟩
  | @cons m ms cache db db₁ db₂ x y head _ ih =>
    obtain ⟨hmem, -, -, hassigned, hgiven, -⟩ := head.spec
    have hid : mark < x.1 := by
      cases hm : m.id with
      | none =>
        rw [hassigned hm]
        omega
      | some id =>
        rw [hgiven id hm]
        exact hids m List.mem_cons_self id hm
    obtain ⟨h1, h2⟩ := ih (by rw [head.seq]; exact hmark.trans (le_max_left _ _))
      fun m' hm' => hids m' (List.mem_cons_of_mem _ hm')
    refine ⟨h1, fun r hr hle => ?_⟩
    rcases (hmem r).mp (h2 r hr hle) with rfl | hr
    · exact (not_lt.mpr hle hid).elim
    · exact hr

theorem Chain.keeps {ms : List (TimeSeriesMetadata H)} {cache : SharedSetCache H} {db db' : Catalog H}
    {y : List ℤ × SharedSetCache H} (h : Chain InsertedOne ms cache db y db')
    (hids : ∀ m ∈ ms, ∀ id, m.id = some id → db.seq < id) : db.Keeps db' := by
  obtain ⟨h1, h2⟩ := h.above (le_refl _) hids
  exact ⟨h1, fun r hr hle => ⟨r, h2 r hr hle, .refl r⟩⟩

/-- The ids rows are filed under by name are pairwise distinct, and no row held one. -/
theorem Chain.explicit_nodup {ms : List (TimeSeriesMetadata H)} {cache : SharedSetCache H}
    {db db' : Catalog H} {y : List ℤ × SharedSetCache H} (h : Chain InsertedOne ms cache db y db') :
    (ms.filterMap (·.id)).Nodup ∧ ∀ id ∈ ms.filterMap (·.id), ∀ r ∈ db.rows, r.id ≠ id := by
  induction h with
  | nil cache db => exact ⟨.nil, fun _ h => (List.not_mem_nil h).elim⟩
  | @cons m ms cache db db₁ db₂ x y head _ ih =>
    obtain ⟨hmem, hnew, -, -, hgiven, -⟩ := head.spec
    obtain ⟨hnodup, hfree⟩ := ih
    have hold : ∀ id ∈ ms.filterMap (·.id), ∀ r ∈ db.rows, r.id ≠ id := fun id hid r hr =>
      hfree id hid r ((hmem r).mpr (Or.inr hr))
    cases hm : m.id with
    | none =>
      rw [List.filterMap_cons_none hm]
      exact ⟨hnodup, hold⟩
    | some id =>
      have hx := hgiven id hm
      rw [List.filterMap_cons_some hm]
      refine ⟨List.nodup_cons.mpr ⟨fun hin => ?_, hnodup⟩, fun id' hid' => ?_⟩
      · exact hfree id hin (m.toRow x.1) ((hmem _).mpr (Or.inl rfl)) hx
      · rcases List.mem_cons.mp hid' with rfl | hid'
        · rw [← hx]
          exact hnew
        · exact hold id' hid'

theorem checkExplicitTimeSeriesIds_ok {c : Catalog H} {ids : List ℤ}
    (h : c.checkExplicitTimeSeriesIds ids = .ok ()) : ∀ id ∈ ids, 0 < id ∧ c.seq < id := by
  unfold Catalog.checkExplicitTimeSeriesIds at h
  split at h
  · cases h
  · rename_i hpos
    split at h
    · cases h
    · rename_i hmark
      intro id hid
      have h1 := List.find?_eq_none.mp hpos id hid
      have h2 := List.find?_eq_none.mp hmark id hid
      rw [decide_eq_true_eq, not_le] at h1 h2
      exact ⟨h1, h2⟩

theorem buildRequestParts_id {item : AddRequest} {p : RequestParts H}
    (h : buildRequestParts item = .ok p) : p.metadata.id = none := by
  obtain ⟨-, -, -, -, hf, -, -⟩ := buildRequestParts_ok h
  rw [(fileSeries_base hf).2.2.1]
  rfl

end

namespace Store

section

set_option linter.unusedSectionVars false

variable {H B : Type} [DecidableEq H] [ArrayBackend H B] [Sha256 H] [FloatText] [ToString H]
  [LawfulArrayBackend H B]

/-- The ids an import was given are pairwise distinct, positive, and above the mark it found. -/
theorem Imported.ids_above {s : Store H B} {rows : List (TimeSeriesMetadata H)} {db : Catalog H}
    (h : Imported s rows db) : (rows.filterMap (·.id)).Nodup ∧
      ∀ id ∈ rows.filterMap (·.id), 0 < id ∧ s.db.seq < id := by
  have hperm : ((rows.filter fun m => !isView m) ++ rows.filter isView).Perm rows :=
    List.perm_append_comm.trans (List.filter_append_perm _ rows)
  have hids := hperm.filterMap (·.id)
  obtain ⟨y, hchain⟩ := h.chain
  have hone : Chain InsertedOne _ _ _ _ _ := hchain.mono fun _ _ _ _ _ h => h.2
  exact ⟨hids.nodup_iff.mp hone.explicit_nodup.1, fun id hid =>
    checkExplicitTimeSeriesIds_ok h.ids id (hids.mem_iff.mpr hid)⟩

/-- **No operation issues an id up to the mark it finds.** -/
theorem Left.keeps {s : Store H B} {op : Op H} {db : Catalog H} (h : Left s op db) : s.db.Keeps db := by
  have hnone : ∀ {ms : List (TimeSeriesMetadata H)}, (∀ m ∈ ms, m.id = none) →
      ∀ m ∈ ms, ∀ id, m.id = some id → s.db.seq < id := fun h m hm id hid => by
    rw [h m hm] at hid
    cases hid
  rcases h with h | h
  swap
  · exact .of_subset h.rows.2.1 fun r hr => by rw [h.rows.1] at hr; exact hr
  cases op with
  | addRequests items =>
    obtain ⟨parts, cache, y, hbuilt, -, hchain⟩ := h
    refine (hchain.mono fun _ _ _ _ _ h => h.2).keeps (hnone fun m hm => ?_)
    obtain ⟨p, hp, rfl⟩ := List.mem_map.mp hm
    obtain ⟨item, -, hb⟩ := Staging.parts_origin hbuilt hp
    exact buildRequestParts_id hb
  | removeByIds ids owner =>
    rw [h.rest]
    exact .of_subset rfl fun r hr => List.mem_of_mem_filter hr
  | clearTimeSeries owner =>
    rw [show db = clearedOf owner s.db from h]
    cases owner with
    | none => exact .of_subset rfl fun r hr => List.mem_of_mem_filter hr
    | some owner => exact .of_subset rfl fun r hr => List.mem_of_mem_filter hr
  | replaceOwner oldOwner newOwner category =>
    obtain ⟨-, n, hmove⟩ := h
    refine ⟨(Catalog.moveOwner_seq hmove).ge, fun r hr _ => ?_⟩
    rw [Catalog.moveOwner_rows hmove] at hr
    obtain ⟨r₀, h₀, rfl⟩ := List.mem_map.mp hr
    refine ⟨r₀, h₀, ?_⟩
    unfold Catalog.movedRow
    split
    · exact ⟨newOwner, rfl⟩
    · exact .refl r₀
  | copyTimeSeries src dst ty name =>
    obtain ⟨id, m, hcopy⟩ := h
    obtain ⟨cache, -, hone⟩ := hcopy.filed
    refine (Chain.cons hone (.nil _ _)).keeps (hnone fun m' hm' => ?_)
    rw [List.mem_singleton.mp hm']
    rfl
  | importAssociationRows rows =>
    obtain ⟨y, hchain⟩ := h.chain
    refine (hchain.mono fun _ _ _ _ _ h => h.2).keeps fun m hm id hid => ?_
    refine (h.ids_above.2 id (List.mem_filterMap.mpr ⟨m, ?_, hid⟩)).2
    rcases List.mem_append.mp hm with hm | hm <;> exact List.mem_of_mem_filter hm
  | transformSingleTimeSeries horizon interval category resolution policy =>
    rcases h with ⟨h, -⟩ | ⟨sources, views, hd, h | ⟨y, hchain⟩⟩
    · rw [h]
      exact .refl _
    · rw [h]
      exact .refl _
    · refine hchain.keeps (hnone fun v hv => ?_)
      obtain ⟨src, -, horizon, interval, count, rfl⟩ := hd.view v hv
      rfl
  | compact =>
    rw [show db = s.db.sweepOrphanFeatureSets from h]
    exact .of_subset rfl fun r hr => hr
  | _ =>
    rw [show db = s.db from h]
    exact .refl _

/-- An edit that succeeds has changed the catalog in its own way. -/
theorem succeeds_changed {s : Store H B} (hs : s.Inv) {op : Op H} {faults : List Fault}
    (hop : op.edits = true) (hok : s.succeeds ⟨op, faults⟩ = true) :
    Changed (s.arm faults) op (s.turned ⟨op, faults⟩).db := by
  have hedit := step_edits (hs.arm faults) hop
  unfold succeeds at hok
  unfold turned
  rw [turn_exec] at hok ⊢
  unfold Cmd.wp at hedit
  dsimp only at hok hedit
  cases hr : ((step op).exec (s.arm faults)).1 with
  | error e =>
    rw [hr] at hok
    cases hok
  | ok u =>
    rw [hr] at hedit
    exact hedit.2.2

/-! ### What is committed -/

/-- The catalog as it is committed: the one the outermost open savepoint saved. -/
def committedCatalog (s : Store H B) : Catalog H := s.conn.savepoints.getLast?.getD s.db

theorem committedCatalog_mem (s : Store H B) : s.committedCatalog ∈ s.catalogs := by
  unfold committedCatalog catalogs
  cases h : s.conn.savepoints.getLast? with
  | none => exact List.mem_cons_self
  | some c => exact List.mem_cons_of_mem _ (List.mem_of_getLast? h)

/-- A turn commits where it closes the transaction, and otherwise leaves what is committed alone. -/
theorem Effect.commits {s s' : Store H B} (h : Effect s s') :
    s'.conn.savepoints = [] ∨ s'.committedCatalog = s.committedCatalog := by
  have hsame : s'.conn.savepoints = s.conn.savepoints →
      s'.conn.savepoints = [] ∨ s'.committedCatalog = s.committedCatalog := by
    intro hsp
    cases hl : s.conn.savepoints with
    | nil => exact Or.inl (hsp.trans hl)
    | cons c cs =>
      right
      unfold committedCatalog
      rw [hsp, hl, List.getLast?_cons]
      rfl
  have htail : ∀ saved, s.conn.savepoints = saved :: s'.conn.savepoints →
      s'.conn.savepoints = [] ∨ s'.committedCatalog = s.committedCatalog := by
    intro saved hsp
    cases hl : s'.conn.savepoints with
    | nil => exact Or.inl rfl
    | cons c cs =>
      right
      unfold committedCatalog
      rw [hsp, hl, List.getLast?_cons_cons, List.getLast?_cons]
      rfl
  cases h with
  | wrote w g h => exact h.saved.elim hsame fun h => Or.inl h.savepoints
  | begun h =>
    right
    unfold committedCatalog
    rw [h.savepoints, List.getLast?_cons]
    rfl
  | released h => exact h.savepoints.elim htail
  | committed garbage h => exact h.savepoints.elim htail
  | rewound h => exact hsame h.savepoints
  | unwound mark outer saved rest removed h =>
    rcases h.restored with ⟨h1, -⟩ | ⟨-, h1, -⟩
    · exact htail saved (by rw [h.savepoints, h1])
    · exact Or.inl h1
  | discarded removed h => exact Or.inl h.savepoints

/-! ### Saves and opens -/

/-- A store opened for writing over a catalog file: the catalog is the migrated one, no transaction is
open, and the arrays its rows name are there. -/
structure Opened (f : CatalogFile H) (s : Store H B) : Prop where
  migrated : ∃ n f', f.apply = .ok (n, f') ∧ ∃ h : f'.autoincrement = true, s.db = f'.catalog h
  idle : s.conn.savepoints = [] ∧ s.txn = .empty
  writable : s.conn.readOnly = false
  inv : s.Inv

/-- The stores that come after one: it takes turns, and what it has committed is saved and opened
again. -/
inductive Follows (s : Store H B) : Store H B → Prop
  | refl : Follows s s
  | turn {s₁ : Store H B} (t : Turn H) (h : Follows s s₁) : Follows s ((turn t).exec s₁).2
  | reopened {s₁ s₂ : Store H B} (h : Follows s s₁) (ho : Opened s₁.committedCatalog.backupTo s₂) :
      Follows s s₂

theorem Follows.trans {s s' s'' : Store H B} (h : Follows s s') (h' : Follows s' s'') :
    Follows s s'' := by
  induction h' with
  | refl => exact h
  | turn t _ ih => exact .turn t ih
  | reopened _ ho ih => exact .reopened ih ho

theorem Opened.keeps {f : CatalogFile H} {s : Store H B} (h : Opened f s) :
    IdsKept f.rows f.highest s.db := by
  obtain ⟨n, f', happly, hauto, hdb⟩ := h.migrated
  obtain ⟨hkept, -, -⟩ := CatalogFile.apply_keeps happly
  have hrows : s.db.rows = f.rows := by
    rw [hdb]
    exact hkept.rows
  refine ⟨CatalogFile.highest_le ?_ fun r hr => s.db.bounded r (by rw [hrows]; exact hr),
    fun r hr _ => ⟨r, by rw [← hrows]; exact hr, .refl r⟩⟩
  rw [hdb]
  exact hkept.mark

theorem Opened.same {c : Catalog H} {s : Store H B} (h : Opened c.backupTo s) : s.db = c := by
  obtain ⟨n, f', happly, hauto, hdb⟩ := h.migrated
  rw [c.backupTo_apply.1] at happly
  cases happly
  rw [hdb]
  exact c.backupTo_apply.2

theorem Opened.catalogs {f : CatalogFile H} {s : Store H B} (h : Opened f s) : s.catalogs = [s.db] := by
  unfold Store.catalogs
  rw [h.idle.1]

theorem Follows.inv {s s' : Store H B} (h : Follows s s') (hs : s.Inv) : s'.Inv := by
  induction h with
  | refl => exact hs
  | turn t _ ih => exact turn_inv t _ ih
  | reopened _ ho _ => exact ho.inv

/-- **Whatever all the catalogs of a store keep, all those of a store after it do.** -/
theorem Follows.keeps {s s' : Store H B} (h : Follows s s') (hs : s.Inv)
    {rows : List (AssociationRow H)} {mark : ℤ} (hkept : ∀ c ∈ s.catalogs, IdsKept rows mark c) :
    ∀ c ∈ s'.catalogs, IdsKept rows mark c := by
  induction h with
  | refl => exact hkept
  | turn t h ih =>
    refine turn_catalogs (h.inv hs) t ih fun db hleft => ?_
    exact (ih _ List.mem_cons_self).trans hleft.keeps
  | @reopened s₁ s₂ h ho ih =>
    intro c hc
    rw [ho.catalogs, List.mem_singleton] at hc
    rw [hc, ho.same]
    exact ih _ s₁.committedCatalog_mem

/-- The catalogs of a store all come after the one it has committed. -/
theorem Follows.from_committed {s s' : Store H B} (h : Follows s s') (hs : s.Inv)
    (hkept : ∀ c ∈ s.catalogs, s.committedCatalog.Keeps c) :
    ∀ c ∈ s'.catalogs, s'.committedCatalog.Keeps c := by
  have hlone : ∀ s : Store H B, s.conn.savepoints = [] → ∀ c ∈ s.catalogs, s.committedCatalog.Keeps c := by
    intro s hsp c hc
    unfold catalogs at hc
    rw [hsp, List.mem_singleton] at hc
    unfold committedCatalog
    rw [hsp, hc]
    exact .refl _
  induction h with
  | refl => exact hkept
  | @turn s₁ t h ih =>
    have hinv := h.inv hs
    rcases (turn_effect hinv t).commits with hsp | hsame
    · exact hlone _ hsp
    · rw [hsame]
      exact turn_catalogs hinv t ih fun db hleft => (ih _ List.mem_cons_self).trans hleft.keeps
  | reopened _ ho _ => exact hlone _ ho.idle.1

/-- **Ids are permanent.**  From a file a store was opened over, whatever revision it was at, through
any run of turns, saves and opens: the store holds an id the file knows of only for the series that the
file holds under it; an id that a committed row holds names the same row in every catalog committed
later, or no row; the mark never falls, and an id up to it that no committed row holds is held by none
later; and an import is accepted only if the ids it gives are pairwise distinct, positive, and above the
mark it found. -/
theorem ids_permanent {f : CatalogFile H} {s₀ s s' : Store H B} (h₀ : Opened f s₀) (h : Follows s₀ s)
    (h' : Follows s s') :
    (∀ r' ∈ s'.committedCatalog.rows, r'.id ≤ f.highest → ∃ r ∈ f.rows, r.SameSeries r') ∧
    (∀ r ∈ s.committedCatalog.rows, ∀ r' ∈ s'.committedCatalog.rows, r'.id = r.id → r.SameSeries r') ∧
    (s.committedCatalog.seq ≤ s'.committedCatalog.seq ∧
      ∀ r' ∈ s'.committedCatalog.rows, r'.id ≤ s.committedCatalog.seq →
        ∃ r ∈ s.committedCatalog.rows, r.id = r'.id) ∧
    ∀ rows faults, s'.succeeds ⟨.importAssociationRows rows, faults⟩ = true →
      (rows.filterMap (·.id)).Nodup ∧ ∀ id ∈ rows.filterMap (·.id), 0 < id ∧ s'.db.seq < id := by
  have hinv := h.inv h₀.inv
  have hlone : ∀ c ∈ s₀.catalogs, c = s₀.db := fun c hc => by
    rw [h₀.catalogs] at hc
    exact List.mem_singleton.mp hc
  have hstart : s₀.committedCatalog = s₀.db := hlone _ s₀.committedCatalog_mem
  have hstarts : ∀ c ∈ s₀.catalogs, IdsKept f.rows f.highest c := fun c hc => by
    rw [hlone c hc]
    exact h₀.keeps
  have hfile := (h.trans h').keeps h₀.inv hstarts
  have hnow := h.from_committed h₀.inv fun c hc => by
    rw [hstart, hlone c hc]
    exact .refl _
  have hlater : s.committedCatalog.Keeps s'.committedCatalog :=
    h'.keeps hinv hnow _ s'.committedCatalog_mem
  refine ⟨(hfile _ s'.committedCatalog_mem).same, fun r hr r' hr' hid => hlater.same_id hr hr' hid,
    ⟨hlater.mark_le, fun r' hr' hle => ?_⟩, fun rows faults hok => ?_⟩
  · obtain ⟨r, hr, hsame⟩ := hlater.same r' hr' hle
    exact ⟨r, hr, hsame.id_eq.symm⟩
  · have himp : Imported (s'.arm faults) rows _ := succeeds_changed (h'.inv hinv) rfl hok
    exact himp.ids_above

end

namespace Sample

/-- Two series, the second removed again. -/
def trimmed : Store Digest (MemoryBackend Digest) :=
  after [⟨.addRequests [request 1 7], []⟩, ⟨.addRequests [request 2 9], []⟩,
    ⟨.removeByIds [2] none, []⟩]

/-- Its catalog, as a build of revision 1 would have left it. -/
def trimmedFile : CatalogFile Digest := trimmed.db.backupTo.writeRevision baseRevision

theorem trimmedFile_opened : Opened trimmedFile trimmed := by
  obtain ⟨f', happly, hauto, hdb⟩ := trimmed.db.backupTo_migrates (by decide +kernel)
  have hinv : trimmed.Inv := (after_reachable _).inv
  obtain ⟨htxn, hsavepoints, -⟩ := hinv.idle (by decide +kernel)
  exact ⟨⟨1, f', happly, hauto, hdb⟩, ⟨hsavepoints, htxn⟩, by decide +kernel, hinv⟩

/-- The id of the removed row is issued no more, though the table that held it was rebuilt. -/
theorem ids_permanent_trimmed :
    ((trimmed.turned ⟨.addRequests [request 3 5], []⟩).committedCatalog.rows.map (·.id)) = [1, 3] ∧
    ∀ r' ∈ (trimmed.turned ⟨.addRequests [request 3 5], []⟩).committedCatalog.rows, r'.id ≤ 2 →
      ∃ r ∈ trimmed.committedCatalog.rows, r.id = r'.id :=
  ⟨by decide +kernel, fun r' hr' hle =>
    (ids_permanent trimmedFile_opened .refl (.turn ⟨.addRequests [request 3 5], []⟩ .refl)).2.2.1.2 r' hr'
      (hle.trans (by decide +kernel))⟩

end Sample

end Store

end InfraStore
