import InfraStore.Invariant

/-!
# What each operation does to the catalog

The catalogs of a store are the present one and those its open savepoints saved, one of which an end
may bring back.  An operation either changes the present one, or moves between them.

* `Store.Changed`: what an operation that succeeds does to the present catalog;
* `Store.Left`: what any operation may leave it as;
* `turn_catalogs`: a property of catalogs that every change keeps is one of all the catalogs of every
  store reached.
-/

namespace InfraStore

open Lib Connection

/-- Whether an operation edits rows. -/
def Op.edits {H : Type} : Op H → Bool
  | .addRequests _ | .removeByIds _ _ | .clearTimeSeries _ | .replaceOwner _ _ _
  | .copyTimeSeries _ _ _ _ | .importAssociationRows _ | .transformSingleTimeSeries _ _ _ _ _ => true
  | _ => false

namespace Store

section

set_option linter.unusedSectionVars false

variable {H B : Type} [DecidableEq H] [ArrayBackend H B] [Sha256 H] [FloatText] [ToString H]

/-- What an operation does to the catalog when it succeeds.  The transaction operations change none of
the catalogs. -/
def Changed (s : Store H B) : Op H → Catalog H → Prop
  | .addRequests items, db => ∃ parts cache y, items.mapM buildRequestParts = .ok parts ∧
      cache.features = (Staging.takenSets s).features ∧
      Chain InsertedFree (parts.map (·.metadata)) cache s.db y db
  | .removeByIds ids owner, db => RemovedByIds owner ids s.db db
  | .clearTimeSeries owner, db => db = clearedOf owner s.db
  | .replaceOwner oldOwner newOwner category, db =>
      s.db.forecastFamilyConflictOnOwnerMove oldOwner newOwner category = none ∧
        ∃ n, s.db.moveOwner oldOwner newOwner category = .ok (n, db)
  | .copyTimeSeries src dst ty name, db => ∃ id m, Copied s src dst ty name id db m
  | .importAssociationRows rows, db => Imported s rows db
  | .transformSingleTimeSeries _ _ category resolution _, db =>
      (db = s.db ∧ ∀ r ∈ s.db.rows, Catalog.singleInScope resolution category r = false) ∨
      ∃ sources views, Derived s category resolution sources views ∧
        (db = s.db ∨ ∃ y, Chain InsertedOne views .empty s.db y db)
  | .compact, db => db = s.db.sweepOrphanFeatureSets
  | _, db => db = s.db

variable [LawfulArrayBackend H B]

/-- What an operation that fails leaves the catalog as, when the engine does not take it back: an add
of one row inside a transaction may have recorded features, and nothing else changes anything. -/
def Failed (s : Store H B) : Op H → Catalog H → Prop
  | .addRequests items, db => Staging.UnfinishedAdd items s db
  | _, db => db = s.db

theorem Failed.same (s : Store H B) (op : Op H) : Failed s op s.db := by
  cases op with
  | addRequests items => exact Staging.UnfinishedAdd.same items s
  | _ => exact rfl

theorem Failed.rows {s : Store H B} {op : Op H} {db : Catalog H} (h : Failed s op db) :
    db.rows = s.db.rows ∧ db.seq = s.db.seq ∧ ∀ f ∈ s.db.featureSets, f ∈ db.featureSets := by
  have hsame : db = s.db → db.rows = s.db.rows ∧ db.seq = s.db.seq ∧
      ∀ f ∈ s.db.featureSets, f ∈ db.featureSets := by
    rintro rfl
    exact ⟨rfl, rfl, fun f hf => hf⟩
  cases op with
  | addRequests items => exact Staging.UnfinishedAdd.rows h
  | _ => exact hsame h

/-- What an operation may leave the catalog as, when the engine does not take it back. -/
def Left (s : Store H B) (op : Op H) (db : Catalog H) : Prop := Changed s op db ∨ Failed s op db

theorem Left.same (s : Store H B) (op : Op H) : Left s op s.db := Or.inr (.same s op)

/-- The catalogs a store may yet see: the present one, and those its savepoints saved. -/
def catalogs (s : Store H B) : List (Catalog H) := s.db :: s.conn.savepoints

/-- The store a turn leaves: the catalog changed under the same savepoints, or the catalogs are some of
those there were. -/
def Moved (s : Store H B) (op : Op H) (s' : Store H B) : Prop :=
  (s'.conn.savepoints = s.conn.savepoints ∧ Left s op s'.db) ∨ ∀ c ∈ s'.catalogs, c ∈ s.catalogs

theorem Moved.of_back {s s' : Store H B} {op : Op H} (h : RolledBack s.conn s'.conn) :
    Moved s op s' := by
  refine Or.inr fun c hc => ?_
  unfold catalogs at hc
  rw [h.savepoints, List.mem_singleton] at hc
  rw [hc]
  exact List.mem_cons_of_mem _ (List.mem_of_getLast? h.saved)

theorem Moved.of_outcome {α : Type} {s s' : Store H B} {op : Op H} {P : α → Catalog H → Prop}
    {E : Catalog H → Prop} {r : Result α} (h : Outcome s.conn P E r s'.conn)
    (hP : ∀ a db, P a db → Left s op db) (hE : ∀ db, E db → Left s op db) : Moved s op s' := by
  rcases r with e | a
  · exact h.2.elim (fun h => Or.inl ⟨h.1, hE _ h.2⟩) .of_back
  · exact Or.inl ⟨h.2.1, hP a _ h.2.2⟩

theorem Moved.of_stalled {s s' : Store H B} {op : Op H} (h : Stalled s s') : Moved s op s' := by
  rcases h.catalog with ⟨h1, h2⟩ | hr
  · exact Or.inl ⟨h1, by rw [h2]; exact .same s op⟩
  · exact .of_back hr

/-- A transaction operation moves between the catalogs. -/
theorem Moved.of_db {s s' : Store H B} {op : Op H} (hdb : s'.db ∈ s.catalogs)
    (hsp : ∀ c ∈ s'.conn.savepoints, c ∈ s.catalogs) : Moved s op s' := by
  refine Or.inr fun c hc => ?_
  rcases List.mem_cons.mp hc with rfl | hc
  · exact hdb
  · exact hsp c hc

theorem Moved.begun {s s' : Store H B} {op : Op H} (h : Begun s s') : Moved s op s' := by
  refine .of_db (by rw [h.db]; exact List.mem_cons_self) fun c hc => ?_
  rw [h.savepoints] at hc
  exact hc

/-- A level closed: its savepoint is gone. -/
theorem Moved.closed {s s' : Store H B} {op : Op H} (hdb : s'.db = s.db)
    (hsp : ∃ saved, s.conn.savepoints = saved :: s'.conn.savepoints) : Moved s op s' := by
  obtain ⟨saved, hsp⟩ := hsp
  refine .of_db (by rw [hdb]; exact List.mem_cons_self) fun c hc => ?_
  unfold catalogs
  rw [hsp]
  exact List.mem_cons_of_mem _ (List.mem_cons_of_mem _ hc)

theorem Moved.rewound {s s' : Store H B} {op : Op H} (h : Rewound s s') : Moved s op s' := by
  refine .of_db (List.mem_cons_of_mem _ (List.mem_of_head? h.db)) fun c hc => ?_
  rw [h.savepoints] at hc
  exact List.mem_cons_of_mem _ hc

theorem Moved.unwound {s s' : Store H B} {op : Op H} {mark : Mark} {outer : List Mark}
    {saved : Catalog H} {rest : List (Catalog H)} {removed : FileObjects H}
    (h : Unwound s s' mark outer saved rest removed) : Moved s op s' := by
  have hsub : ∀ c ∈ saved :: rest, c ∈ s.catalogs := by
    intro c hc
    unfold catalogs
    rw [h.savepoints]
    exact List.mem_cons_of_mem _ hc
  rcases h.restored with ⟨h1, h2⟩ | ⟨-, h1, h2⟩
  · refine .of_db (hsub _ (by rw [h2]; exact List.mem_cons_self)) fun c hc => ?_
    rw [h1] at hc
    exact hsub c (List.mem_cons_of_mem _ hc)
  · refine .of_db (hsub _ (List.mem_cons_of_mem _ (List.mem_of_getLast? h2))) fun c hc => ?_
    rw [h1] at hc
    exact (List.not_mem_nil hc).elim

theorem Moved.discarded {s s' : Store H B} {op : Op H} {removed : FileObjects H}
    (h : Discarded s s' removed) : Moved s op s' := by
  refine .of_db (by rw [h.db]; exact List.mem_cons_self) fun c hc => ?_
  rw [h.savepoints] at hc
  exact (List.not_mem_nil hc).elim

/-- **Every edit changes the catalog in its own way, or fails.** -/
theorem step_edits {s : Store H B} (h : s.Inv) {op : Op H} (hop : op.edits = true) :
    (step op).wp (fun r s' => Outcome s.conn (fun _ db => Changed s op db) (Failed s op) r s'.conn)
      s := by
  have hs := h.toSound
  cases op with
  | addRequests items =>
    refine (Cmd.wp_map _ _ _ s).mpr (Cmd.wp_mono (addRequests_spec hs items) fun r s' hr => ?_)
    refine hr.2.map _ ?_ fun _ h => h
    rintro ids db ⟨parts, hf⟩
    obtain ⟨cache, cache', hfeat, hchain⟩ := hf.chain
    exact ⟨parts, cache, _, hf.built, hfeat, hchain⟩
  | removeByIds ids owner =>
    exact (Cmd.wp_map _ _ _ s).mpr (Cmd.wp_mono (removeByIdsInner_spec hs ids owner) fun r s' hr =>
      hr.2.map _ (fun _ _ hdb => hdb.2) fun _ h => h)
  | clearTimeSeries owner =>
    exact (Cmd.wp_map _ _ _ s).mpr (Cmd.wp_mono (clearTimeSeries_spec hs owner) fun r s' hr =>
      hr.2.map _ (fun _ _ hdb => hdb.2) fun _ h => h)
  | replaceOwner oldOwner newOwner category =>
    exact (Cmd.wp_map _ _ _ s).mpr (Cmd.wp_mono (replaceOwner_spec hs oldOwner newOwner category)
      fun r s' hr => hr.2.map _ (fun n _ hdb => ⟨hdb.1, n, hdb.2⟩) fun _ h => h)
  | copyTimeSeries src dst ty name =>
    exact (Cmd.wp_map _ _ _ s).mpr (Cmd.wp_mono (copyTimeSeries_spec hs h.holds src dst ty name)
      fun r s' hr => hr.2.map _ (fun id _ hdb => ⟨id, hdb⟩) fun _ h => h)
  | importAssociationRows rows =>
    exact (Cmd.wp_map _ _ _ s).mpr (Cmd.wp_mono (importAssociationRows_spec hs rows)
      fun r s' hr => hr.2.map _ (fun _ _ hdb => hdb) fun _ h => h)
  | transformSingleTimeSeries horizon interval category resolution policy =>
    exact (Cmd.wp_map _ _ _ s).mpr (Cmd.wp_mono
      (transformSingleTimeSeries_spec hs h.holds horizon interval category resolution policy)
      fun r s' hr => hr.2.map _ (fun _ _ h => h) fun _ h => h)
  | _ => cases hop

theorem Moved.of_edit {s : Store H B} (h : s.Inv) {op : Op H} (hop : op.edits = true) :
    (step op).wp (fun _ s' => Moved s op s') s :=
  Cmd.wp_mono (step_edits h hop) fun _ _ hr => .of_outcome hr (fun _ _ => Or.inl) fun _ => Or.inr

/-- **Every operation changes the catalog in its own way, or moves between the catalogs.** -/
theorem step_moved {s : Store H B} (h : s.Inv) (op : Op H) :
    (step op).wp (fun _ s' => Moved s op s') s := by
  have hs := h.toSound
  cases op with
  | compact =>
    refine (Cmd.wp_map _ _ _ s).mpr (Cmd.wp_mono (compact_spec hs) fun r s' hr => ?_)
    obtain ⟨hw, -, hdb⟩ := hr
    rcases hw.saved with e | e
    · refine Or.inl ⟨e, ?_⟩
      rcases hdb with hdb | ⟨-, hdb⟩
      · exact Or.inr hdb
      · exact Or.inl hdb
    · exact .of_back e
  | flush => exact Cmd.wp_mono (flush_spec hs) fun r s' hr => .of_stalled hr
  | setWriteBufferBytes bytes =>
    exact Cmd.wp_mono (setWriteBufferBytes_spec hs bytes) fun r s' hr => .of_stalled hr
  | beginTransaction => exact Cmd.wp_mono (step_ends h _) fun r s' hr => hr.elim .of_stalled .begun
  | commitTransaction =>
    refine Cmd.wp_mono (step_ends h _) ?_
    rintro r s' (hr | hr | ⟨garbage, hr⟩)
    · exact .of_stalled hr
    · exact .closed hr.db hr.savepoints
    · exact .closed hr.db hr.savepoints
  | rollbackTransaction =>
    refine Cmd.wp_mono (step_ends h _) ?_
    rintro r s' (hr | hr | ⟨mark, outer, saved, rest, removed, hr⟩ | ⟨removed, hr⟩)
    · exact .of_stalled hr
    · exact .rewound hr
    · exact .unwound hr
    · exact .discarded hr
  | _ => exact .of_edit h rfl

/-- **A property of catalogs that every change keeps** is one of all the catalogs of the store a turn
leaves. -/
theorem turn_catalogs {P : Catalog H → Prop} {s : Store H B} (h : s.Inv) (t : Turn H)
    (hP : ∀ c ∈ s.catalogs, P c) (hchange : ∀ db, Left (s.arm t.faults) t.op db → P db) :
    ∀ c ∈ ((turn t).exec s).2.catalogs, P c := by
  have hmoved : Moved (s.arm t.faults) t.op ((turn t).exec s).2 :=
    step_moved (h.arm t.faults) t.op
  rcases hmoved with ⟨hsp, hleft⟩ | hsub
  · intro c hc
    rcases List.mem_cons.mp hc with rfl | hc
    · exact hchange _ hleft
    · rw [hsp] at hc
      exact hP c (List.mem_cons_of_mem _ hc)
  · exact fun c hc => hP c (hsub c hc)

/-- **Every reachable store**, for a property whose preservation needs no more than the invariant. -/
theorem Reachable.catalogs {P : Catalog H → Prop} (hempty : P .empty)
    (hchange : ∀ (s : Store H B) op db, s.Inv → P s.db → Left s op db → P db) {s : Store H B}
    (h : s.Reachable) : ∀ c ∈ s.catalogs, P c := by
  induction h with
  | create valid noArray noVector =>
    intro c hc
    rw [List.mem_singleton.mp hc]
    exact hempty
  | turn t hr ih =>
    exact turn_catalogs hr.inv t ih fun db hdb =>
      hchange _ t.op db (hr.inv.arm t.faults) (ih _ List.mem_cons_self) hdb

/-- The stores that the runs reach whose turns all meet a condition, on the turn and on the store it
is taken from. -/
inductive ReachableBy (P : Store H B → Turn H → Prop) : Store H B → Prop
  | create {b : B} (valid : LawfulArrayBackend.Valid b)
      (noArray : ∀ h, LawfulArrayBackend.array b h = none)
      (noVector : ∀ t, LawfulArrayBackend.vector b t = none) : ReachableBy P (create b)
  | turn {s : Store H B} (t : Turn H) (h : ReachableBy P s) (ht : P s t) :
      ReachableBy P ((turn t).exec s).2

theorem ReachableBy.reachable {P : Store H B → Turn H → Prop} {s : Store H B}
    (h : s.ReachableBy P) : s.Reachable := by
  induction h with
  | create valid noArray noVector => exact .create valid noArray noVector
  | turn t _ _ ih => exact .turn t ih

theorem ReachableBy.mono {P Q : Store H B → Turn H → Prop} (hPQ : ∀ s t, P s t → Q s t)
    {s : Store H B} (h : s.ReachableBy P) : s.ReachableBy Q := by
  induction h with
  | create valid noArray noVector => exact .create valid noArray noVector
  | turn t _ ht ih => exact .turn t ih (hPQ _ _ ht)

end

end Store

end InfraStore
