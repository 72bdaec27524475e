import InfraStore.Staging
import InfraStore.Transform

/-!
# What each operation does to the store

One specification an operation, whatever the catalog engine does with its statements.

* `Store.Sound`: what every operation relies on;
* `Store.Wrote`: what any write, or any operation that fails, does to the two halves of the store;
* `Begun`, `Committed`, `Unwound`, …: what the transaction operations do;
* `addRequests_spec`, `removeByIdsInner_spec`, …: the specifications.
-/

namespace InfraStore

open Lib Connection

namespace Store

section

set_option linter.unusedSectionVars false

variable {H B : Type} [DecidableEq H] [ArrayBackend H B] [Sha256 H] [LawfulArrayBackend H B]

/-- What every operation relies on: the arrays are in order and each object is stored under its own
content hash, every axis the transaction remembers is held, and outside a transaction there is
nothing to remember. -/
structure Sound (s : Store H B) : Prop where
  valid : s.arrays.Valid
  faithful {h : H} {a : TypedArray} : s.arrays.content h = some a → Faithful h a
  faithfulAxis {t : H} {ms : List ℤ} : s.arrays.vector t = some ms → FaithfulAxis t ms
  cached : ∀ x ∈ s.txn.sharedSets.timestamps, (s.arrays.vector x).isSome
  idle : s.inTransaction = false →
    s.txn = .empty ∧ s.conn.savepoints = [] ∧ ∀ x, s.arrays.buffer.get x = none

/-- The array file holds what a catalog names. -/
structure Holds (a : ArrayStore H B) (db : Catalog H) : Prop where
  array {h : H} : db.References h → (a.content h).isSome
  axis {t : H} : db.NamesAxis t → (a.vector t).isSome

/-- What a write does to the shared sets an open transaction remembers: it keeps them, and every
feature set with them; it forgets them; or it adds those of the rows it files. -/
def Remembers [FloatText] (s s' : Store H B) : Prop :=
  (s'.txn.sharedSets = s.txn.sharedSets ∧ (s'.conn.savepoints = s.conn.savepoints →
    ∀ f ∈ s.db.featureSets, f ∈ s'.db.featureSets)) ∨
  s'.txn.sharedSets = .empty ∨
  s'.conn.savepoints = s.conn.savepoints ∧ ∃ ms ids cache,
    cache.features = (Staging.takenSets s).features ∧
    Chain InsertedOne ms cache s.db (ids, s'.txn.sharedSets) s'.db

/-- What a write does, or an operation that fails: `w` is what it has written for the transaction
and `g` what it has left for the commit to free. -/
structure Wrote [FloatText] (s s' : Store H B) (w g : FileObjects H) : Prop where
  later : Later s.conn s'.conn
  saved : s'.conn.savepoints = s.conn.savepoints ∨ RolledBack s.conn s'.conn
  blocked : s.transactionWasForcedBack = true → s'.db = s.db
  marks : s'.txn.marks = s.txn.marks
  written : s'.txn.written = s.txn.written.append w
  pendingFree : s'.txn.pendingFree = s.txn.pendingFree.append g
  idle : s.inTransaction = false → s'.txn = .empty
  valid : s'.arrays.Valid
  quiet : s.arrays.Quiet → s'.arrays.Quiet
  kept {h : H} {a : TypedArray} : s.arrays.content h = some a → s'.arrays.content h = some a ∨
    s.inTransaction = false ∧ s'.arrays.content h = none ∧ ¬ s'.db.References h
  fresh {h : H} : h ∈ w.arrays → s.arrays.content h = none
  origin {h : H} {a : TypedArray} :
    s'.arrays.content h = some a → s.arrays.content h = some a ∨ Faithful h a
  buffered {h : H} :
    (s'.arrays.buffer.get h).isSome → (s.arrays.buffer.get h).isSome ∨ h ∈ w.arrays
  keptAxis {t : H} {ms : List ℤ} : s.arrays.vector t = some ms → s'.arrays.vector t = some ms ∨
    s.inTransaction = false ∧ s'.arrays.vector t = none ∧ s'.db.referencesTimestamps t = false
  freshAxis {t : H} : t ∈ w.timestamps → s.arrays.vector t = none
  originAxis {t : H} {ms : List ℤ} :
    s'.arrays.vector t = some ms → s.arrays.vector t = some ms ∨ FaithfulAxis t ms
  cached : ∀ x ∈ s'.txn.sharedSets.timestamps, (s'.arrays.vector x).isSome
  holds {h : H} : s'.conn.savepoints = s.conn.savepoints → s'.db.References h →
    s.db.References h ∨ (s'.arrays.content h).isSome
  holdsAxis {t : H} : s'.conn.savepoints = s.conn.savepoints → s'.db.NamesAxis t →
    s.db.NamesAxis t ∨ (s'.arrays.vector t).isSome
  axed : s'.conn.savepoints = s.conn.savepoints → s.db.Axed → s'.db.Axed
  grown {h : H} : s.arrays.Quiet → (s'.arrays.content h).isSome →
    (s.arrays.content h).isSome ∨ h ∈ w.arrays ∨ s.inTransaction = false ∧ s'.db.References h
  used {h : H} : h ∈ w.arrays → s'.db.References h
  dropped {h : H} : s'.conn.savepoints = s.conn.savepoints → s.db.References h →
    s'.db.References h ∨ h ∈ g.arrays ∨
      s.inTransaction = false ∧ (s.arrays.Quiet → s'.arrays.content h = none)
  grownAxis {t : H} : s.arrays.Quiet → (s'.arrays.vector t).isSome →
    (s.arrays.vector t).isSome ∨ t ∈ w.timestamps ∨ s.inTransaction = false ∧ s'.db.NamesAxis t
  usedAxis {t : H} : t ∈ w.timestamps → s'.db.NamesAxis t
  sets : Remembers s s'

/-- A transaction the engine has taken back cannot be taken back again. -/
theorem not_forced_of_rolledBack {s s' : Store H B}
    (h : RolledBack s.conn s'.conn) (hb : s.transactionWasForcedBack = true) : False := by
  have hsp := h.saved
  unfold transactionWasForcedBack inAutocommit at hb
  rw [Bool.and_eq_true, List.isEmpty_iff] at hb
  rw [hb.2] at hsp
  cases hsp

/-- A catalog with the same rows names the same objects. -/
theorem references_congr {c c' : Catalog H} (h : c'.rows = c.rows) :
    (∀ x, c'.References x ↔ c.References x) ∧ (∀ t, c'.NamesAxis t ↔ c.NamesAxis t) := by
  unfold Catalog.References Catalog.NamesAxis
  rw [h]
  exact ⟨fun _ => Iff.rfl, fun _ => Iff.rfl⟩

/-- What a catalog gains may only be what the array file holds, and it loses nothing. -/
structure GrewWithin (a : ArrayStore H B) (db db' : Catalog H) : Prop where
  array {h : H} : db'.References h → db.References h ∨ (a.content h).isSome
  axis {t : H} : db'.NamesAxis t → db.NamesAxis t ∨ (a.vector t).isSome
  axed : db.Axed → db'.Axed
  kept {h : H} : db.References h → db'.References h
  sets : ∀ f ∈ db.featureSets, f ∈ db'.featureSets

theorem GrewWithin.of_rows {a : ArrayStore H B} {db db' : Catalog H} (h : db'.rows = db.rows)
    (hsets : ∀ f ∈ db.featureSets, f ∈ db'.featureSets) : GrewWithin a db db' := by
  obtain ⟨h1, h2⟩ := references_congr h
  exact ⟨fun e => Or.inl ((h1 _).mp e), fun e => Or.inl ((h2 _).mp e),
    fun e => by unfold Catalog.Axed; rw [h]; exact e, fun e => (h1 _).mpr e, hsets⟩

/-- Filing rows over held objects. -/
theorem GrewWithin.of_filed [FloatText] {a : ArrayStore H B} {db db' : Catalog H}
    {l : List (TimeSeriesMetadata H)} (h1 : ∀ r ∈ db.rows, r ∈ db'.rows)
    (h2 : ∀ r ∈ db'.rows, r ∈ db.rows ∨ ∃ m ∈ l, ∃ id, r = m.toRow id)
    (harray : ∀ m ∈ l, (a.content m.dataHash).isSome)
    (haxis : ∀ m ∈ l, m.timeSeriesType.isIrregular = true → ∀ ts, m.timestamps = some ts →
      (a.vector (timestampsHash ts)).isSome)
    (haxed : db.Axed → ∀ m ∈ l, m.timeSeriesType.isIrregular = true → m.timestamps.isSome)
    (hsets : ∀ f ∈ db.featureSets, f ∈ db'.featureSets) : GrewWithin a db db' := by
  refine ⟨?_, ?_, fun hdb => ?_, ?_, hsets⟩
  · rintro x ⟨r, hr, rfl⟩
    rcases h2 r hr with hr | ⟨m, hm, id, rfl⟩
    · exact Or.inl ⟨r, hr, rfl⟩
    · exact Or.inr (harray m hm)
  · rintro t ⟨r, hr, hirr, ht⟩
    rcases h2 r hr with hr | ⟨m, hm, id, rfl⟩
    · exact Or.inl ⟨r, hr, hirr, ht⟩
    · obtain ⟨ts, hts, rfl⟩ := Option.map_eq_some_iff.mp
        (show m.timestamps.map timestampsHash = some t from ht)
      exact Or.inr (haxis m hm hirr ts hts)
  · intro r hr hirr
    rcases h2 r hr with hr | ⟨m, hm, id, rfl⟩
    · exact hdb r hr hirr
    · show (m.timestamps.map timestampsHash).isSome
      rw [Option.isSome_map]
      exact haxed hdb m hm hirr
  · rintro x ⟨r, hr, rfl⟩
    exact ⟨r, h1 r hr, rfl⟩

/-- **A write that leaves the transaction's records alone**: the arrays at most grew by nothing it
keeps, and the catalog within what they hold. -/
theorem Wrote.of_catalog [FloatText] {α : Type} {s s' : Store H B} (hs : s.Sound)
    (hgrew : s.arrays.Grew s'.arrays .empty)
    (htxn : s'.txn = s.txn ∨ s'.txn = { s.txn with sharedSets := .empty })
    {P : α → Catalog H → Prop} {E : Catalog H → Prop} {r : Result α}
    (hout : Outcome s.conn P E r s'.conn)
    (hblocked : s.transactionWasForcedBack = true → s'.db = s.db)
    (hP : ∀ a db, P a db → GrewWithin s'.arrays s.db db)
    (hE : ∀ db, E db → db.rows = s.db.rows ∧ ∀ f ∈ s.db.featureSets, f ∈ db.featureSets) :
    Wrote s s' .empty .empty := by
  have hwithin : s'.conn.savepoints = s.conn.savepoints → s.conn.savepoints ≠ [] ∨
      ¬ RolledBack s.conn s'.conn → GrewWithin s'.arrays s.db s'.db := by
    intro hsp hne
    rcases r with e | a
    · rcases hout.2 with ⟨-, h⟩ | h
      · exact .of_rows (hE _ h).1 (hE _ h).2
      · rcases hne with hne | hne
        · exact absurd (hsp.symm.trans h.savepoints) hne
        · exact absurd h hne
    · exact hP a _ hout.2.2
  have hin : s'.conn.savepoints = s.conn.savepoints → GrewWithin s'.arrays s.db s'.db := by
    intro hsp
    by_cases h : s.conn.savepoints = []
    · refine hwithin hsp (Or.inr fun hr => ?_)
      have := hr.saved
      rw [h] at this
      cases this
    · exact hwithin hsp (Or.inl h)
  refine ⟨hout.1, ?_, hblocked, ?_, ?_, ?_, fun hi => ?_, hgrew.valid, hgrew.quiet,
    fun e => Or.inl (hgrew.kept e), fun e => (List.not_mem_nil e).elim, hgrew.origin, hgrew.buffered,
    fun e => Or.inl (hgrew.keptAxis e), fun e => (List.not_mem_nil e).elim, hgrew.originAxis,
    fun x hx => ?_, fun hsp e => (hin hsp).array e, fun hsp e => (hin hsp).axis e,
    fun hsp e => (hin hsp).axed e, fun hQ e => (hgrew.exact hQ e).imp_right Or.inl, fun e => (List.not_mem_nil e).elim,
    fun hsp e => Or.inl ((hin hsp).kept e), fun hQ e => (hgrew.exactAxis hQ e).imp_right Or.inl,
    fun e => (List.not_mem_nil e).elim, ?_⟩
  · rcases r with e | a
    · exact hout.2.imp_left And.left
    · exact Or.inl hout.2.1
  · rcases htxn with h | h <;> rw [h]
  · rw [FileObjects.append_empty]
    rcases htxn with h | h <;> rw [h]
  · rw [FileObjects.append_empty]
    rcases htxn with h | h <;> rw [h]
  · rcases htxn with h | h <;> rw [h, (hs.idle hi).1]
    rfl
  · rcases htxn with h | h <;> rw [h] at hx
    · exact hgrew.heldAxis (hs.cached x hx)
    · exact (List.not_mem_nil hx).elim
  · rcases htxn with h | h
    · exact Or.inl ⟨by rw [h], fun hsp => (hin hsp).sets⟩
    · exact Or.inr (Or.inl (by rw [h]))

/-! ### Commands that only touch the catalog -/

/-- How a command that leaves the arrays and the records alone may end. -/
def CatalogOnly {α : Type} (s : Store H B) (P : α → Catalog H → Prop) (r : Result α)
    (s' : Store H B) : Prop :=
  s'.arrays = s.arrays ∧ s'.txn = s.txn ∧ Outcome s.conn P (· = s.db) r s'.conn

variable {α β : Type}

theorem catalogOnly_pure {s : Store H B} {P : α → Catalog H → Prop} {a : α} (h : P a s.db) :
    (pure a : StoreCmd (Store H B) α).wp (CatalogOnly s P) s := ⟨rfl, rfl, outcome_pure h⟩

theorem catalogOnly_throw {s : Store H B} {P : α → Catalog H → Prop} (e : TimeSeriesError) :
    (throw e : StoreCmd (Store H B) α).wp (CatalogOnly s P) s := ⟨rfl, rfl, outcome_throw rfl⟩

theorem catalogOnly_ofExcept {s : Store H B} {P : α → Catalog H → Prop} {r : Result α}
    (h : ∀ a, r = .ok a → P a s.db) : (Cmd.ofExcept r : StoreCmd (Store H B) α).wp (CatalogOnly s P) s := by
  rcases r with e | a
  · exact catalogOnly_throw e
  · exact catalogOnly_pure (h a rfl)

theorem catalogOnly_onConn {s : Store H B} {c : StoreCmd (Connection H) α}
    {P : α → Catalog H → Prop} (h : c.wp (Outcome s.conn P (· = s.db)) s.conn) :
    (onConn c : StoreCmd (Store H B) α).wp (CatalogOnly s P) s := by
  unfold onConn
  rw [Cmd.wp_zoom]
  exact Cmd.wp_mono h fun _ _ h => ⟨rfl, rfl, h⟩

/-- After a read. -/
theorem catalogOnly_bind {s : Store H B} {c : StoreCmd (Store H B) α}
    {f : α → StoreCmd (Store H B) β} {R : α → Prop} {Q : β → Catalog H → Prop}
    (h : c.wp (CatalogOnly s fun a db => db = s.db ∧ R a) s)
    (hf : ∀ a s₁, s₁.arrays = s.arrays → s₁.txn = s.txn → s₁.db = s.db →
      s₁.conn.savepoints = s.conn.savepoints → R a → (f a).wp (CatalogOnly s₁ Q) s₁) :
    (c >>= f).wp (CatalogOnly s Q) s := by
  rw [Cmd.wp_bind]
  refine Cmd.wp_mono h fun r s₁ h₁ => ?_
  obtain ⟨ha, ht, ho⟩ := h₁
  rcases r with e | a
  · exact ⟨ha, ht, ho⟩
  · refine Cmd.wp_mono (hf a s₁ ha ht ho.2.2.1 ho.2.1 ho.2.2.2) fun r s₂ h₂ => ?_
    obtain ⟨ha₂, ht₂, ho₂⟩ := h₂
    refine ⟨ha₂.trans ha, ht₂.trans ht, (ho₂.rebase ho.1 ho.2.1).mono (fun _ _ h => h) fun db hdb => ?_⟩
    rw [hdb]
    exact ho.2.2.1

theorem catalogOnly_query {s : Store H B} {f : Catalog H → Result α} :
    (onConn (query f) : StoreCmd (Store H B) α).wp
      (CatalogOnly s fun a db => db = s.db ∧ f s.db = .ok a) s :=
  catalogOnly_onConn (outcome_query (fun _ h => ⟨rfl, h⟩) rfl)

/-- **A unit of catalog work.**  It is refused once the transaction is gone. -/
theorem writeCatalog_spec {s : Store H B} {work : StoreCmd (Connection H) α}
    {P : α → Catalog H → Prop} {E : Catalog H → Prop}
    (h : ∀ c₁, Later s.conn c₁ → c₁.db = s.db → work.wp (Outcome c₁ P E) c₁) :
    (writeCatalog (B := B) work).wp
      (CatalogOnly s fun a db => s.transactionWasForcedBack = false ∧ P a db) s := by
  unfold writeCatalog checkTransactionAlive
  simp only [Cmd.wp_bind, Cmd.wp_get]
  split
  · exact catalogOnly_throw _
  · rename_i halive
    refine catalogOnly_onConn (Cmd.wp_mono (withSavepoint_outcome h) fun _ _ h => ?_)
    exact h.mono (fun _ _ h => ⟨by simpa using halive, h⟩) fun _ h => h

theorem CatalogOnly.failed {s s' : Store H B} {P : α → Catalog H → Prop} {e : TimeSeriesError}
    (h : CatalogOnly s P (.error e) s') :
    CatalogOnly s (fun (_ : α) _ => False) (.error e) s' := ⟨h.1, h.2.1, h.2.2.1, h.2.2.2⟩

/-- A command that only touches the catalog is a write that leaves the records alone. -/
theorem CatalogOnly.wrote [FloatText] {s s' : Store H B} {P : α → Catalog H → Prop} {r : Result α} (hs : s.Sound)
    (h : CatalogOnly s P r s')
    (hP : ∀ a db, P a db → (s.transactionWasForcedBack = true → db = s.db) ∧
      GrewWithin s.arrays s.db db) : Wrote s s' .empty .empty := by
  obtain ⟨ha, ht, ho⟩ := h
  refine .of_catalog hs (by rw [ha]; exact .refl hs.valid) (Or.inl ht) ho (fun hb => ?_) ?_
    fun db hdb => by rw [hdb]; exact ⟨rfl, fun f hf => hf⟩
  · rcases r with e | a
    · exact ho.2.elim And.right fun h => (not_forced_of_rolledBack h hb).elim
    · exact (hP a _ ho.2.2).1 hb
  · intro a db hp
    rw [ha]
    exact (hP a db hp).2

/-! ### Adding -/

variable [FloatText]

/-- The rows of an accepted batch are filed over objects that are held. -/
structure Filed (items : List AddRequest) (s : Store H B) (a : ArrayStore H B) (ids : List ℤ)
    (db : Catalog H) (parts : List (RequestParts H)) : Prop where
  built : items.mapM buildRequestParts = .ok parts
  chain : ∃ cache cache', cache.features = (Staging.takenSets s).features ∧
    Chain InsertedFree (parts.map (·.metadata)) cache s.db (ids, cache') db
  array : ∀ p ∈ parts, (a.content p.hash).isSome
  axis : ∀ p ∈ parts, ∀ h ts, p.group = .irregular h → p.metadata.timestamps = some ts →
    (a.vector h).isSome

theorem Filed.references {items : List AddRequest} {s : Store H B} {a : ArrayStore H B}
    {ids : List ℤ} {db : Catalog H} {parts : List (RequestParts H)}
    (h : Filed items s a ids db parts) :
    (∀ r ∈ s.db.rows, r ∈ db.rows) ∧
      (∀ r ∈ db.rows, r ∈ s.db.rows ∨ ∃ p ∈ parts, ∃ id, r = p.metadata.toRow id) ∧
      (∀ p ∈ parts, ∃ id, p.metadata.toRow id ∈ db.rows) := by
  obtain ⟨cache, cache', -, hc⟩ := h.chain
  obtain ⟨h1, h2, h3⟩ := (hc.mono fun _ _ _ _ _ h => h.2).references
  refine ⟨h1, fun r hr => (h2 r hr).imp_right ?_, fun p hp => ?_⟩
  · rintro ⟨m, hm, id, -, rfl⟩
    obtain ⟨p, hp, rfl⟩ := List.mem_map.mp hm
    exact ⟨p, hp, id, rfl⟩
  · obtain ⟨id, -, h⟩ := h3 p.metadata (List.mem_map_of_mem hp)
    exact ⟨id, h⟩

theorem Filed.within {items : List AddRequest} {s : Store H B} {a : ArrayStore H B}
    {ids : List ℤ} {db : Catalog H} {parts : List (RequestParts H)}
    (h : Filed items s a ids db parts) : GrewWithin a s.db db := by
  obtain ⟨h1, h2, -⟩ := h.references
  obtain ⟨cache, cache', -, hchain⟩ := h.chain
  refine .of_filed (l := parts.map (·.metadata)) h1 (fun r hr => ?_) ?_ ?_ (fun _ m hm hirr => ?_)
    (hchain.mono fun _ _ _ _ _ h => h.2).sets
  · rcases h2 r hr with hr | ⟨p, hp, id, rfl⟩
    · exact Or.inl hr
    · exact Or.inr ⟨_, List.mem_map_of_mem hp, id, rfl⟩
  · intro m hm
    obtain ⟨p, hp, rfl⟩ := List.mem_map.mp hm
    obtain ⟨item, -, hb⟩ := Staging.parts_origin h.built hp
    rw [buildRequestParts_hash hb]
    exact h.array p hp
  · intro m hm _ ts hts
    obtain ⟨p, hp, rfl⟩ := List.mem_map.mp hm
    obtain ⟨item, -, hb⟩ := Staging.parts_origin h.built hp
    refine h.axis p hp _ ts ?_ hts
    have hax := buildRequestParts_axis hb
    rcases hg : p.group with res | t'
    · rw [hg] at hax
      rw [show p.metadata.timestamps = none from hax] at hts
      cases hts
    · rw [hg] at hax
      obtain ⟨ts', e, rfl⟩ := hax
      rw [hts] at e
      rw [Option.some.inj e]
  · obtain ⟨p, hp, rfl⟩ := List.mem_map.mp hm
    obtain ⟨item, -, hb⟩ := Staging.parts_origin h.built hp
    exact buildRequestParts_timestamps hb hirr

/-- Every array and every axis of an accepted batch is named by a row that was filed. -/
theorem Filed.names {items : List AddRequest} {s : Store H B} {a : ArrayStore H B}
    {ids : List ℤ} {db : Catalog H} {parts : List (RequestParts H)}
    (h : Filed items s a ids db parts) {p : RequestParts H} (hp : p ∈ parts) :
    db.References p.hash ∧ ∀ t, p.group = .irregular t → db.NamesAxis t := by
  obtain ⟨-, -, h3⟩ := h.references
  obtain ⟨item, -, hb⟩ := Staging.parts_origin h.built hp
  obtain ⟨id, hr⟩ := h3 p hp
  refine ⟨⟨_, hr, buildRequestParts_hash hb⟩, fun t hg => ⟨_, hr, ?_, ?_⟩⟩
  · exact buildRequestParts_irregular hb hg
  · have hax := buildRequestParts_axis hb
    rw [hg] at hax
    obtain ⟨ts, e, rfl⟩ := hax
    show p.metadata.timestamps.map timestampsHash = _
    rw [e]
    rfl

/-- What an add may do. -/
def AddOutcome (items : List AddRequest) (s : Store H B) (r : Result (List ℤ)) (s' : Store H B) :
    Prop :=
  (∃ w, Wrote s s' w .empty) ∧
    Outcome s.conn (fun ids db => ∃ parts, Filed items s s'.arrays ids db parts)
      (Staging.UnfinishedAdd items s) r s'.conn

/-- **Adding.**  All of the requests, or none of them. -/
theorem addRequests_spec {s : Store H B} (hs : s.Sound) (items : List AddRequest) :
    (addRequests (B := B) items).wp (AddOutcome items s) s := by
  unfold addRequests
  rw [Cmd.wp_bind, Cmd.wp_get]
  simp only
  have hspec := Staging.addRequestsStaged_spec hs.valid (fun hi => (hs.idle hi).2.2) hs.cached items
  unfold Cmd.wp at hspec
  rcases hx : (addRequestsStaged (B := B) items).exec ⟨s, .empty⟩ with ⟨r, t⟩
  rw [hx] at hspec
  simp only [Cmd.wp_bind, Cmd.wp_set]
  have hidle : s.inTransaction = false → t.store.txn = .empty := fun hi =>
    (hspec.idleSets hi).trans (hs.idle hi).1
  rcases r with e | ids
  · -- what was written is removed again
    simp only [settle, Cmd.wp_bind, onArrays, Cmd.wp_zoom]
    refine Cmd.wp_mono (removeWrites_spec hspec.grew.valid t.staged) ?_
    rintro r a ⟨hr, hshed⟩
    rcases r with e' | u
    · cases hr
    simp only [Cmd.wp_throw]
    have hundo := hspec.grew.undo hshed
    have hfail : Outcome s.conn (fun (_ : List ℤ) _ => False)
        (Staging.UnfinishedAdd items s) (.error e) t.store.conn := ⟨hspec.conn.1, hspec.conn.2⟩
    exact ⟨⟨.empty, .of_catalog hs hundo (hspec.failed rfl) hfail (fun hb => (hspec.blocked hb).1)
      (fun _ _ h => h.elim) fun _ h => ⟨h.rows.1, h.rows.2.2⟩⟩, hspec.conn.1, hspec.conn.2⟩
  · obtain ⟨hl, hsp, parts, cache, cache', hbuilt, hfeat, hchain, hheld, hsa, hst, hsets⟩ := hspec.conn
    have hfiled : Filed items s t.store.arrays ids t.store.db parts :=
      ⟨hbuilt, ⟨cache, cache', hfeat, hchain⟩, fun p hp => (hheld p hp).1, fun p hp => (hheld p hp).2⟩
    have hwithin := hfiled.within
    have hnames : ∀ h ∈ t.staged.arrays, t.store.db.References h := fun h hh => by
      obtain ⟨p, hp, rfl⟩ := hsa h hh
      exact (hfiled.names hp).1
    have hnamesAxis : ∀ x ∈ t.staged.timestamps, t.store.db.NamesAxis x := fun x hx => by
      obtain ⟨p, hp, hg⟩ := hst x hx
      exact (hfiled.names hp).2 x hg
    have hg := hspec.grew
    have hin : t.store.inTransaction = s.inTransaction := by
      unfold inTransaction
      rw [hspec.marks]
    have hend : ∀ (txn : OpenTxn H) (w : FileObjects H), txn.marks = s.txn.marks →
        txn.written = s.txn.written.append w → txn.pendingFree = s.txn.pendingFree →
        (∀ x ∈ txn.sharedSets.timestamps, (t.store.arrays.vector x).isSome) →
        (s.inTransaction = false → txn = .empty) →
        (w = t.staged ∨ w = .empty ∧ s.inTransaction = false) →
        (s.inTransaction = true → txn.sharedSets = cache') →
        AddOutcome items s (.ok ids) { t.store with txn } := by
      intro txn w h1 h2 h3 h4 h5 hw h6
      have hsub : (∀ h ∈ w.arrays, h ∈ t.staged.arrays) ∧
          ∀ x ∈ w.timestamps, x ∈ t.staged.timestamps := by
        rcases hw with rfl | ⟨rfl, -⟩
        · exact ⟨fun _ h => h, fun _ h => h⟩
        · exact ⟨fun _ h => (List.not_mem_nil h).elim, fun _ h => (List.not_mem_nil h).elim⟩
      refine ⟨⟨w, hl, Or.inl hsp, fun hb => (hspec.blocked hb).1, h1, h2, ?_, h5, hg.valid, hg.quiet,
        fun e => Or.inl (hg.kept e), fun e => hg.fresh (hsub.1 _ e), hg.origin, fun e => ?_,
        fun e => Or.inl (hg.keptAxis e), fun e => hg.freshAxis (hsub.2 _ e), hg.originAxis, h4,
        fun _ e => hwithin.array e, fun _ e => hwithin.axis e, fun _ e => hwithin.axed e, fun hQ e => ?_,
        fun e => hnames _ (hsub.1 _ e), fun _ e => Or.inl (hwithin.kept e), fun hQ e => ?_,
        fun e => hnamesAxis _ (hsub.2 _ e), ?_⟩, hl, hsp, parts, hfiled⟩
      · rw [FileObjects.append_empty]
        exact h3
      · rcases hw with rfl | ⟨rfl, hi⟩
        · exact hg.buffered e
        · exact Or.inl (hspec.idle hi _ e)
      · refine (hg.exact hQ e).imp_right fun c => ?_
        rcases hw with rfl | ⟨rfl, hi⟩
        · exact Or.inl c
        · exact Or.inr ⟨hi, hnames _ c⟩
      · refine (hg.exactAxis hQ e).imp_right fun c => ?_
        rcases hw with rfl | ⟨rfl, hi⟩
        · exact Or.inl c
        · exact Or.inr ⟨hi, hnamesAxis _ c⟩
      · rcases hi : s.inTransaction with _ | _
        · exact Or.inr (Or.inl (by rw [h5 hi]; rfl))
        · refine Or.inr (Or.inr ⟨hsp, parts.map (·.metadata), ids, cache, hfeat, ?_⟩)
          rw [h6 hi]
          exact hchain.mono fun _ _ _ _ _ h => h.2
    simp only [settle, Cmd.wp_bind, Cmd.wp_get]
    split
    · rename_i hi
      simp only [modifyTxn]
      refine hend _ t.staged hspec.marks ?_ hspec.pendingFree hspec.cached (fun hf => ?_) (Or.inl rfl)
        hsets
      · rw [hspec.written]
      · rw [hin, hf] at hi
        cases hi
    · rename_i hi
      have hi' : s.inTransaction = false := by
        rw [← hin]
        simpa using hi
      rw [Cmd.wp_pure]
      refine hend t.store.txn .empty hspec.marks ?_ hspec.pendingFree hspec.cached hidle
        (Or.inr ⟨rfl, hi'⟩) hsets
      rw [FileObjects.append_empty]
      exact hspec.written

/-! ### Removing -/

/-- Rows were taken out of a catalog, and no other. -/
def RemovedSome (db db' : Catalog H) : Prop := ∃ p hashes, Removed p db hashes db'

theorem RemovedSome.subset {db db' : Catalog H} (h : RemovedSome db db') {r : AssociationRow H}
    (hr : r ∈ db'.rows) : r ∈ db.rows := by
  obtain ⟨p, hashes, h⟩ := h
  exact (h.mem.mp hr).1

theorem RemovedSome.references {db db' : Catalog H} (h : RemovedSome db db') :
    (∀ x, db'.References x → db.References x) ∧ ∀ t, db'.NamesAxis t → db.NamesAxis t := by
  refine ⟨?_, ?_⟩
  · rintro x ⟨r, hr, rfl⟩
    exact ⟨r, h.subset hr, rfl⟩
  · rintro t ⟨r, hr, h1, h2⟩
    exact ⟨r, h.subset hr, h1, h2⟩

theorem RemovedSome.axed {db db' : Catalog H} (h : RemovedSome db db') (hdb : db.Axed) : db'.Axed :=
  fun r hr => hdb r (h.subset hr)

/-- What a removal may free: every array it left unnamed, and no object that is still named. -/
structure Freed (db db' : Catalog H) (g : FileObjects H) : Prop where
  removed : RemovedSome db db'
  unnamed {h : H} : h ∈ g.arrays → ¬ db'.References h
  unnamedAxis {t : H} : t ∈ g.timestamps → db'.referencesTimestamps t = false
  all {h : H} : db.References h → ¬ db'.References h → h ∈ g.arrays

/-- **Freeing, or deferring, what a removal left unnamed.** -/
theorem freeOrDefer_spec {s s₁ : Store H B} (hs : s.Sound) (harr : s₁.arrays = s.arrays)
    (htxn : s₁.txn = s.txn ∨ s₁.txn = { s.txn with sharedSets := .empty })
    (hl : Later s.conn s₁.conn) (hsp : s₁.conn.savepoints = s.conn.savepoints)
    (halive : s.transactionWasForcedBack = false)
    (hkept : s₁.txn.sharedSets = .empty ∨ ∀ f ∈ s.db.featureSets, f ∈ s₁.db.featureSets)
    {g : FileObjects H} (hg : Freed s.db s₁.db g) : (freeOrDefer (B := B) g).wp (fun r s' => r.isOk = true ∧ s'.conn = s₁.conn ∧
      ∃ g', Wrote s s' .empty g') s₁ := by
  have hm : s₁.txn.marks = s.txn.marks := by rcases htxn with h | h <;> rw [h]
  have hw : s₁.txn.written = s.txn.written := by rcases htxn with h | h <;> rw [h]
  have hp : s₁.txn.pendingFree = s.txn.pendingFree := by rcases htxn with h | h <;> rw [h]
  have hin : s₁.inTransaction = s.inTransaction := by
    unfold inTransaction
    rw [hm]
  have hsets : ∀ x ∈ s₁.txn.sharedSets.timestamps, (s.arrays.vector x).isSome := by
    intro x hx
    rcases htxn with h | h <;> rw [h] at hx
    · exact hs.cached x hx
    · exact (List.not_mem_nil hx).elim
  have hblocked : ∀ {p : Prop}, s.transactionWasForcedBack = true → p := fun h => by
    rw [halive] at h
    cases h
  have hremember : ∀ {s' : Store H B}, s'.txn.sharedSets = s₁.txn.sharedSets ∧ s'.db = s₁.db →
      Remembers s s' := by
    rintro s' ⟨h1, h2⟩
    rcases hkept with hk | hk
    · exact Or.inr (Or.inl (h1.trans hk))
    · rcases htxn with h | h
      · exact Or.inl ⟨h1.trans (by rw [h]), fun _ => by rw [h2]; exact hk⟩
      · exact Or.inr (Or.inl (h1.trans (by rw [h])))
  obtain ⟨hrefs, haxes⟩ := hg.removed.references
  unfold freeOrDefer
  rw [Cmd.wp_bind, Cmd.wp_get]
  simp only
  split
  · rename_i hi
    rw [hin] at hi
    simp only [modifyTxn, Cmd.wp_modify]
    refine ⟨rfl, trivial, g, hl, Or.inl hsp, hblocked, hm, ?_, ?_, fun hf => ?_,
      by rw [harr]; exact hs.valid, by rw [harr]; exact id, fun e => Or.inl (by rw [harr]; exact e),
      fun e => (List.not_mem_nil e).elim, fun e => Or.inl (by rw [← harr]; exact e),
      fun e => Or.inl (by rw [← harr]; exact e), fun e => Or.inl (by rw [harr]; exact e),
      fun e => (List.not_mem_nil e).elim, fun e => Or.inl (by rw [← harr]; exact e), fun x hx => ?_,
      fun _ e => Or.inl (hrefs _ e), fun _ e => Or.inl (haxes _ e), fun _ e => hg.removed.axed e,
      fun _ e => Or.inl (by rw [← harr]; exact e), fun e => (List.not_mem_nil e).elim,
      fun {h} _ e => ?_, fun _ e => Or.inl (by rw [← harr]; exact e),
      fun e => (List.not_mem_nil e).elim, ?_⟩
    · rw [FileObjects.append_empty]
      exact hw
    · show s₁.txn.pendingFree.append g = _
      rw [hp]
    · rw [hf] at hi
      cases hi
    · rw [harr]
      exact hsets x hx
    · by_cases hr : s₁.db.References h
      · exact Or.inl hr
      · exact Or.inr (Or.inl (hg.all e hr))
    · exact hremember ⟨rfl, rfl⟩
  · rename_i hi
    have hi' : s.inTransaction = false := by
      rw [← hin]
      simpa using hi
    simp only [onArrays, Cmd.wp_zoom]
    refine Cmd.wp_mono (removeWrites_spec (by rw [harr]; exact hs.valid) g) ?_
    rintro r a ⟨hr, hshed⟩
    rw [harr] at hshed
    have hidle : s₁.txn = .empty := by
      rcases htxn with h | h <;> rw [h, (hs.idle hi').1]
      rfl
    refine ⟨hr, trivial, .empty, hl, Or.inl hsp, hblocked, hm, ?_, ?_, fun _ => hidle, hshed.valid,
      hshed.quiet, fun {h a'} e => ?_, fun e => (List.not_mem_nil e).elim,
      fun e => Or.inl (hshed.origin e), fun e => Or.inl (hshed.unbuffered e).1, fun {t ms} e => ?_,
      fun e => (List.not_mem_nil e).elim, fun e => Or.inl (hshed.originAxis e), fun x hx => ?_,
      fun _ e => Or.inl (hrefs _ e), fun _ e => Or.inl (haxes _ e), fun _ e => hg.removed.axed e, fun {h} _ e => Or.inl ?_,
      fun e => (List.not_mem_nil e).elim, fun {h} _ e => ?_, fun {t} _ e => Or.inl ?_,
      fun e => (List.not_mem_nil e).elim,
      hremember ⟨rfl, rfl⟩⟩
    · rw [FileObjects.append_empty]
      exact hw
    · rw [FileObjects.append_empty]
      exact hp
    · rcases hshed.less h with c | c
      · exact Or.inl (c.trans e)
      · by_cases hmem : h ∈ g.arrays
        · exact Or.inr ⟨hi', c, hg.unnamed hmem⟩
        · exact Or.inl ((hshed.kept hmem).trans e)
    · rcases hshed.lessAxis t with c | c
      · exact Or.inl (c.trans e)
      · by_cases hmem : t ∈ g.timestamps
        · exact Or.inr ⟨hi', c, hg.unnamedAxis hmem⟩
        · exact Or.inl ((hshed.keptAxis hmem).trans e)
    · rw [show ({ s₁ with arrays := a } : Store H B).txn = .empty from hidle] at hx
      exact (List.not_mem_nil hx).elim
    · obtain ⟨a', ha'⟩ := Option.isSome_iff_exists.mp e
      rw [hshed.origin ha']
      rfl
    · by_cases hr : s₁.db.References h
      · exact Or.inl hr
      · exact Or.inr (Or.inr ⟨hi', fun hQ => hshed.gone hQ (hg.all e hr)⟩)
    · obtain ⟨ms, hms⟩ := Option.isSome_iff_exists.mp e
      rw [hshed.originAxis hms]
      rfl

/-- A removal's hashes are counted against what is left. -/
theorem freed_of_removed {db db' : Catalog H} {p : AssociationRow H → Bool} {hashes arrays : List H}
    {timestamps : List H} (h : Removed p db hashes db')
    (hc : ∀ x, x ∈ arrays ↔ x ∈ hashes ∧ db'.referencesArray x = false)
    (ht : ∀ t ∈ timestamps, db'.referencesTimestamps t = false) :
    Freed db db' ⟨arrays, timestamps⟩ := by
  have hno : ∀ {x}, db'.referencesArray x = false ↔ ¬ db'.References x := by
    intro x
    rw [← Catalog.referencesArray_iff, Bool.not_eq_true]
  exact ⟨⟨p, hashes, h⟩, fun e => hno.mp ((hc _).mp e).2, fun e => ht _ e,
    fun e e' => (hc _).mpr ⟨h.unreferenced e e', hno.mpr e'⟩⟩

/-- What a removal may do. -/
def RemoveOutcome (s : Store H B) (P : Catalog H → Prop) (r : Result ℕ) (s' : Store H B) : Prop :=
  (∃ g, Wrote s s' .empty g) ∧
    Outcome s.conn (fun _ db => RemovedSome s.db db ∧ P db) (· = s.db) r s'.conn

/-- The rows ids name are gone, each of them found and of the expected owner, and no view of a family
they belonged to is left without a source. -/
structure RemovedByIds (owner : Option (ℤ × OwnerCategory)) (ids : List ℤ) (db db' : Catalog H) :
    Prop where
  rest : db' = db.deleteWhere fun r => decide (r.id ∈ ids)
  found : ∀ id ∈ ids, ∃ r ∈ db.rows, r.id = id
  recorded : ∀ r ∈ db.rows, r.id ∈ ids → ∃ d, Records owner r d ∧
    (r.timeSeriesType = .singleTimeSeries → Backed db' d)

/-- **Removing by id.** -/
theorem removeByIdsInner_spec {s : Store H B} (hs : s.Sound) (ids : List ℤ)
    (owner : Option (ℤ × OwnerCategory)) :
    (removeByIdsInner (B := B) ids owner).wp (RemoveOutcome s (RemovedByIds owner ids s.db)) s := by
  unfold removeByIdsInner
  rw [Cmd.wp_bind]
  refine Cmd.wp_mono (writeCatalog_spec (E := fun _ => True)
    (P := fun out db => RemovedByIds owner ids s.db db ∧ ∃ p hashes, Removed p s.db hashes db ∧
      ∀ x, x ∈ out.2 ↔ x ∈ hashes ∧ db.referencesArray x = false) fun c₁ _ hdb => ?_) ?_
  · refine outcome_bind (deleteIds_outcome owner ids [] c₁) fun rows c₂ _ h₂ => ?_
    refine outcome_bind (checkNoOrphanedDst_outcome _ [] c₂) fun _ c₃ _ h₃ => ?_
    refine outcome_bind (unreferencedIn_outcome _ _ [] c₃) fun arrays c₄ _ h₄ => outcome_pure ?_
    obtain ⟨h₃, hbacked⟩ := h₃
    rw [hdb, ← h₃, ← h₄.1] at h₂
    rw [← h₃, ← h₄.1] at hbacked
    refine ⟨⟨?_, fun id hid => h₂.found id hid List.not_mem_nil, fun r hr hi => ?_⟩,
      _, _, h₂.removed, fun x => ?_⟩
    · rw [h₂.rest]
      exact Catalog.deleteWhere_congr fun r _ => by simp
    · obtain ⟨d, hd, hrec⟩ := h₂.recorded r hr hi List.not_mem_nil
      refine ⟨d, hrec, fun ht => ?_⟩
      refine (hbacked d (List.mem_filter.mpr ⟨hd, ?_⟩)).resolve_left List.not_mem_nil
      rw [decide_eq_true_eq, hrec.timeSeriesType]
      exact ht
    · rw [h₄.1, h₄.2 x]
      simp only [List.not_mem_nil, not_false_eq_true, true_and]
  · intro r s₁ h₁
    rcases r with e | out
    · exact ⟨⟨.empty, h₁.failed.wrote hs fun _ _ h => h.elim⟩, h₁.2.2.1, h₁.2.2.2⟩
    · obtain ⟨ha, ht, hl, hsp, halive, hids, p, hashes, hrem, hc⟩ := h₁
      simp only [Cmd.wp_bind]
      refine Cmd.wp_mono (freeOrDefer_spec hs ha (Or.inl ht) hl hsp halive
        (Or.inr fun f hf => (by rw [show s₁.db = _ from hids.rest]; exact hf))
        (freed_of_removed hrem hc fun _ h => (List.not_mem_nil h).elim)) ?_
      rintro r s' ⟨hr, hconn, hw⟩
      rcases r with e | u
      · cases hr
      · refine ⟨hw, ?_, ?_, ⟨p, hashes, ?_⟩, ?_⟩ <;>
          rw [show (Cmd.exec (pure out.1) s').2.conn = s₁.conn from hconn]
        · exact hl
        · exact hsp
        · exact hrem
        · exact hids

/-- The sweep for unnamed axes reads only, and what it finds no row names. -/
theorem orphanedTimestampVectors_spec (s : Store H B) :
    (orphanedTimestampVectors (B := B)).wp (CatalogOnly s fun ts db => db = s.db ∧
      ∀ t ∈ ts, s.db.referencesTimestamps t = false) s := by
  unfold orphanedTimestampVectors
  refine catalogOnly_bind catalogOnly_query fun referenced s₁ ha _ hdb _ hr => ?_
  rw [Cmd.wp_bind, Cmd.wp_get]
  refine catalogOnly_pure ⟨hdb, fun t ht => ?_⟩
  have hnot := (List.mem_filter.mp ht).2
  rw [decide_eq_true_eq, ← Except.ok.inj hr] at hnot
  unfold Catalog.referencesTimestamps
  rw [List.any_eq_false]
  intro r hr' c
  exact hnot (List.mem_filterMap.mpr ⟨r, hr', by simpa using c⟩)

/-- What a clear leaves. -/
def clearedOf (owner : Option (ℤ × OwnerCategory)) (db : Catalog H) : Catalog H :=
  match owner with
  | some (id, category) => db.deleteWhere (Catalog.ownedBy id category)
  | none => (db.deleteWhere fun _ => true).deleteFeatureSets

/-- The vectors a sweep found, none where it failed. -/
def sweptVectors : Result (List H) → List H
  | .ok timestamps => timestamps
  | .error _ => []

/-- **Clearing.** -/
theorem clearTimeSeries_spec {s : Store H B} (hs : s.Sound) (owner : Option (ℤ × OwnerCategory)) :
    (clearTimeSeries (B := B) owner).wp (RemoveOutcome s (· = clearedOf owner s.db)) s := by
  unfold clearTimeSeries
  simp only [Cmd.wp_bind, invalidateSharedSets, modifyTxn, Cmd.wp_modify]
  -- a failure, from whatever the statements so far have left
  have hfail : ∀ {e : TimeSeriesError} {s' : Store H B}, s'.arrays = s.arrays →
      s'.txn = { s.txn with sharedSets := .empty } →
      Outcome s.conn (fun (_ : ℕ) _ => False) (· = s.db) (.error e) s'.conn →
      RemoveOutcome s (· = clearedOf owner s.db) (.error e) s' := by
    intro e s' ha ht ho
    refine ⟨⟨.empty, .of_catalog hs (by rw [ha]; exact .refl hs.valid) (Or.inr ht) ho
      (fun hb => ?_) (fun _ _ h => h.elim) fun db hdb => by rw [hdb]; exact ⟨rfl, fun f hf => hf⟩⟩,
      ho.1, ho.2⟩
    exact ho.2.elim And.right fun h => (not_forced_of_rolledBack h hb).elim
  refine Cmd.wp_mono (writeCatalog_spec (E := fun _ => True)
    (P := fun out db => db = clearedOf owner s.db ∧ ∃ p hashes, Removed p s.db hashes db ∧
      ∀ x, x ∈ out.2 ↔ x ∈ hashes ∧ db.referencesArray x = false) fun c₁ _ hdb => ?_) ?_
  · have hdb' : c₁.db = s.db := hdb
    have hrest : ∀ (hashes : List H) c₂, c₂.db = clearedOf owner c₁.db →
        (∃ p, Removed p c₁.db hashes c₂.db) →
        (do let arrays ← unreferencedIn Catalog.referencesArray hashes []
            pure (hashes.length, arrays) : StoreCmd (Connection H) (ℕ × List H)).wp
          (Outcome c₂ (fun out db => db = clearedOf owner s.db ∧ ∃ p hashes, Removed p s.db hashes db ∧
            ∀ x, x ∈ out.2 ↔ x ∈ hashes ∧ db.referencesArray x = false) (fun _ => True)) c₂ := by
      rintro hashes c₂ hc₂ ⟨p, hrem⟩
      refine outcome_bind (unreferencedIn_outcome _ _ [] c₂) fun arrays c₃ _ h₃ => outcome_pure ?_
      rw [hdb'] at hc₂
      rw [hdb', ← h₃.1] at hrem
      refine ⟨h₃.1.trans hc₂, p, hashes, hrem, fun x => ?_⟩
      rw [h₃.1, h₃.2 x]
      simp only [List.not_mem_nil, not_false_eq_true, true_and]
    rcases owner with _ | ⟨id, category⟩
    · exact outcome_bind (deleteAll_outcome c₁) fun hashes c₂ _ h₂ => hrest hashes c₂ h₂.2 ⟨_, h₂.1⟩
    · exact outcome_bind (deleteByOwner_outcome id category c₁) fun hashes c₂ _ h₂ =>
        hrest hashes c₂ h₂.2 ⟨_, h₂.1⟩
  · intro r s₁ h₁
    rcases r with e | out
    · exact hfail h₁.1 h₁.2.1 h₁.failed.2.2
    obtain ⟨ha, ht, hl, hsp, halive, hclear, p, hashes, hrem, hc⟩ := h₁
    simp only [Cmd.wp_attempt]
    refine Cmd.wp_mono (orphanedTimestampVectors_spec s₁) ?_
    rintro swept s₂ ⟨ha₂, ht₂, ho₂⟩
    simp only [checkTransactionAlive, Cmd.wp_bind, Cmd.wp_get]
    -- the sweep left the catalog as it was, or the engine has taken the transaction back
    have hcases : (s₂.conn.savepoints = s.conn.savepoints ∧ s₂.db = s₁.db) ∨
        RolledBack s.conn s₂.conn := by
      rcases swept with e | ts
      · rcases ho₂.2 with h | h
        · exact Or.inl ⟨h.1.trans hsp, h.2⟩
        · exact Or.inr ⟨hl.faults.mem h.fault, (congrArg List.getLast? hsp).symm.trans h.saved,
            h.savepoints⟩
      · exact Or.inl ⟨ho₂.2.1.trans hsp, ho₂.2.2.1⟩
    have hl₂ : Later s.conn s₂.conn := Later.trans hl ho₂.1
    have hin₂ : s₂.inTransaction = s.inTransaction := by
      unfold inTransaction
      rw [ht₂, ht]
    have hdead : s₂.transactionWasForcedBack = true → RolledBack s.conn s₂.conn := by
      intro hb
      rcases hcases with ⟨h, -⟩ | h
      · exfalso
        unfold transactionWasForcedBack inAutocommit at hb
        rw [hin₂, h] at hb
        have := halive
        rw [show (Store.transactionWasForcedBack { s with txn := { s.txn with sharedSets := .empty } }) =
          (s.inTransaction && s.conn.savepoints.isEmpty) from rfl, hb] at this
        cases this
      · exact h
    split
    · rename_i hb
      rw [Cmd.wp_throw]
      exact hfail (ha₂.trans ha) (ht₂.trans ht) ⟨hl₂, Or.inr (hdead hb)⟩
    · rename_i hb
      obtain ⟨hsp₂, hdb₂⟩ : s₂.conn.savepoints = s.conn.savepoints ∧ s₂.db = s₁.db := by
        rcases hcases with h | h
        · exact h
        · -- a transaction the engine has taken back is one that was open
          exfalso
          refine hb ?_
          unfold transactionWasForcedBack inAutocommit
          rw [Bool.and_eq_true, List.isEmpty_iff]
          refine ⟨?_, h.savepoints⟩
          rcases hi : s.inTransaction with _ | _
          · have := h.saved
            rw [(hs.idle hi).2.1] at this
            cases this
          · exact hin₂.trans hi
      simp only [Cmd.wp_pure]
      have hswept : ∀ t ∈ sweptVectors swept, s₂.db.referencesTimestamps t = false := by
        intro t htm
        rcases swept with e | ts
        · exact (List.not_mem_nil htm).elim
        · rw [hdb₂]
          exact ho₂.2.2.2 t htm
      have htxn₂ : s₂.txn = { s.txn with sharedSets := .empty } := ht₂.trans ht
      refine Cmd.wp_mono (freeOrDefer_spec hs (ha₂.trans ha) (Or.inr htxn₂) hl₂ hsp₂ halive
        (Or.inl (by rw [htxn₂]))
        (g := ⟨out.2, sweptVectors swept⟩) ?_) ?_
      · rw [show s₂.db = s₁.db from hdb₂]
        rw [show s₂.db = s₁.db from hdb₂] at hswept
        exact freed_of_removed hrem hc hswept
      · rintro r s' ⟨hr, hconn, hw⟩
        rcases r with e | u
        · cases hr
        · refine ⟨hw, ?_, ?_, ⟨p, hashes, ?_⟩, ?_⟩ <;>
            rw [hconn]
          · exact hl₂
          · exact hsp₂
          · rw [show s₂.conn.db = s₁.db from hdb₂]
            exact hrem
          · exact hdb₂.trans hclear

/-! ### Moving, copying, importing and deriving rows -/

/-- What an operation on rows alone may do. -/
def RowsOutcome {α : Type} (s : Store H B) (P : α → Catalog H → Prop) (r : Result α)
    (s' : Store H B) : Prop :=
  Wrote s s' .empty .empty ∧ Outcome s.conn P (· = s.db) r s'.conn

theorem CatalogOnly.rows {s s' : Store H B} {P : α → Catalog H → Prop} {r : Result α} (hs : s.Sound)
    (h : CatalogOnly s (fun a db => (s.transactionWasForcedBack = true → db = s.db) ∧ P a db) r s')
    (hP : ∀ a db, P a db → GrewWithin s.arrays s.db db) : RowsOutcome s P r s' :=
  ⟨h.wrote hs fun a db hp => ⟨hp.1, hP a db hp.2⟩, h.2.2.mono (fun _ _ h => h.2) fun _ h => h⟩

/-- **Replacing an owner.** -/
theorem replaceOwner_spec {s : Store H B} (hs : s.Sound) (oldOwner newOwner : ℤ)
    (category : OwnerCategory) :
    (replaceOwner (B := B) oldOwner newOwner category).wp
      (RowsOutcome s fun n db =>
        s.db.forecastFamilyConflictOnOwnerMove oldOwner newOwner category = none ∧
          s.db.moveOwner oldOwner newOwner category = .ok (n, db)) s := by
  unfold replaceOwner
  refine Cmd.wp_mono (writeCatalog_spec (E := (· = s.db)) (P := fun n db =>
    s.db.forecastFamilyConflictOnOwnerMove oldOwner newOwner category = none ∧
      s.db.moveOwner oldOwner newOwner category = .ok (n, db)) fun c₁ _ hdb => ?_) fun r s' h => ?_
  · rw [← hdb]
    exact replaceOwnerRows_outcome oldOwner newOwner category c₁
  · refine CatalogOnly.rows hs ⟨h.1, h.2.1, h.2.2.mono (fun _ _ hp => ⟨fun hb => ?_, hp.2⟩)
      fun _ h => h⟩ fun n db hp => ?_
    · rw [hp.1] at hb
      cases hb
    have hrows := Catalog.moveOwner_rows hp.2
    have hseries := Catalog.movedRow_series (H := H) oldOwner newOwner category
    refine ⟨?_, ?_, fun haxed r hr hirr => ?_, ?_, fun f hf => ?_⟩
    · rintro x ⟨r, hr, rfl⟩
      rw [hrows] at hr
      obtain ⟨r', hr', rfl⟩ := List.mem_map.mp hr
      exact Or.inl ⟨r', hr', (hseries r').1.symm⟩
    · rintro t ⟨r, hr, h1, h2⟩
      rw [hrows] at hr
      obtain ⟨r', hr', rfl⟩ := List.mem_map.mp hr
      obtain ⟨-, h3, h4⟩ := hseries r'
      exact Or.inl ⟨r', hr', by rw [← h3]; exact h1, by rw [← h4]; exact h2⟩
    · rw [hrows] at hr
      obtain ⟨r', hr', rfl⟩ := List.mem_map.mp hr
      obtain ⟨-, h3, h4⟩ := hseries r'
      rw [h4]
      exact haxed r' hr' (by rw [← h3]; exact hirr)
    · rintro x ⟨r, hr, rfl⟩
      exact ⟨_, by rw [hrows]; exact List.mem_map_of_mem hr, (hseries r).1⟩
    · rw [Catalog.moveOwner_sets hp.2]
      exact hf

end

end Store

end InfraStore
