import InfraStore.FileEffects
import InfraStore.Lineage

/-!
# What a crash leaves

A store over an array file behind a cache.  A crash leaves the catalog as it was last committed and the
array file as it was last flushed.  A crash inside an operation is the run in which the engine and the
file library fail everything after that point: neither half changes any more, so the stores that runs
under any failures reach show every crash point.

* `FileHolds`: a file holds what a catalog names;
* `FlushesFirst`: the condition on a step, that what it commits was flushed;
* `committed_durable`: in a run whose steps meet it, every row that is committed finds its objects after
  a crash.
-/

namespace InfraStore

open Lib Connection

/-- Whether an operation files rows over objects that no row named before. -/
def Op.brings {H : Type} : Op H → Bool
  | .addRequests _ | .importAssociationRows _ => true
  | _ => false

namespace Store

section

set_option linter.unusedSectionVars false

variable {H B : Type} [DecidableEq H] [ArrayBackend H B] [Sha256 H] [FloatText] [ToString H]
  [LawfulArrayBackend H B]

/-- An array file holds what a catalog names. -/
structure FileHolds (b : B) (c : Catalog H) : Prop where
  array {h : H} : c.References h → (LawfulArrayBackend.array b h).isSome
  axis {t : H} : c.NamesAxis t → (LawfulArrayBackend.vector b t).isSome

theorem FileHolds.of_names {b : B} {c c' : Catalog H} (h : FileHolds b c)
    (harray : ∀ x, c'.References x → c.References x) (haxis : ∀ t, c'.NamesAxis t → c.NamesAxis t) :
    FileHolds b c' := ⟨fun hx => h.array (harray _ hx), fun ht => h.axis (haxis _ ht)⟩

theorem FileHolds.of_rows {b : B} {c c' : Catalog H} (h : FileHolds b c) (hrows : c'.rows = c.rows) :
    FileHolds b c' := by
  obtain ⟨h1, h2⟩ := references_congr hrows
  exact h.of_names (fun x => (h1 x).mp) fun t => (h2 t).mp

/-! ### Where committed objects are -/

/-- An array store whose file holds what a catalog names, none of it in the buffer. -/
structure Stored (a : ArrayStore H B) (c : Catalog H) : Prop extends Holds a c where
  unbuffered {h : H} : c.References h → a.buffer.get h = none

theorem Stored.file {a : ArrayStore H B} {c : Catalog H} (h : Stored a c) : FileHolds a.backend c := by
  refine ⟨fun {x} hx => ?_, h.axis⟩
  have := h.array hx
  unfold ArrayStore.content at this
  rw [h.unbuffered hx, Option.none_or] at this
  exact this

/-- **A flush** makes durable what a catalog names. -/
theorem Saved.fileHolds {a a' : ArrayStore H (CachedFile B)} {c : Catalog H} (h : Saved a a')
    (hc : Stored a c) (hfile : FileHolds (onFile a) c) : FileHolds (onFile a') c := by
  rcases h with h | ⟨b, w, hgrew, hbuf, h⟩
  · rw [h]
    exact hfile
  · have hb : Stored b c := by
      refine ⟨⟨fun hx => hgrew.held (hc.array hx), fun ht => hgrew.heldAxis (hc.axis ht)⟩, fun hx => ?_⟩
      rcases hget : b.buffer.get _ with _ | y
      · rfl
      · have := hbuf _ (by rw [hget]; rfl)
        rw [hc.unbuffered hx] at this
        cases this
    rw [h]
    exact ⟨hb.file.array, hb.file.axis⟩

/-- The last elements of related lists are related. -/
theorem forall₂_getLast {α β : Type} {R : α → β → Prop} {as : List α} {bs : List β}
    (h : List.Forall₂ R as bs) (hne : as ≠ []) :
    ∃ a b, as.getLast? = some a ∧ bs.getLast? = some b ∧ R a b := by
  induction h with
  | nil => exact absurd rfl hne
  | @cons a b as bs hab hrest ih =>
    cases hrest with
    | nil => exact ⟨a, b, rfl, rfl, hab⟩
    | cons _ _ =>
      rw [List.getLast?_cons_cons, List.getLast?_cons_cons]
      exact ih (List.cons_ne_nil _ _)

/-- Outside a transaction everything a catalog names is in the file. -/
theorem Inv.stored_idle {s : Store H B} (hs : s.Inv) (hi : s.inTransaction = false) :
    Stored s.arrays s.db := ⟨hs.holds, fun _ => (hs.idle hi).2.2 _⟩

/-- What is committed is in the file: the buffer holds only what the open transaction wrote. -/
theorem Inv.stored {s : Store H B} (hs : s.Inv) : Stored s.arrays s.committedCatalog := by
  have hholds : Holds s.arrays s.committedCatalog := by
    rcases List.mem_cons.mp s.committedCatalog_mem with h | h
    · rw [h]
      exact hs.holds
    · exact (hs.saved _ h).1
  refine ⟨hholds, fun {h} hx => ?_⟩
  have happart : s.txn.marks ≠ [] → Apart s.committedCatalog s.txn.written := by
    intro hne
    rcases hs.levels with hl | ⟨hsp, -, hl⟩
    · obtain ⟨m, c, hm, hc, hmc⟩ := forall₂_getLast hl hne
      rw [hs.outermost hm] at hmc
      unfold committedCatalog
      rw [hc]
      exact hmc
    · unfold committedCatalog
      rw [hsp]
      exact hl
  cases hi : s.inTransaction with
  | false => exact (hs.idle hi).2.2 h
  | true =>
    rcases hb : s.arrays.buffer.get h with _ | a
    · rfl
    · exact absurd hx ((happart (inTransaction_iff.mp hi)).array (hs.buffered (by rw [hb]; rfl)))

/-! ### What each operation leaves of the file -/

/-- **Every operation** leaves in the file what the session saw at some flush, or leaves it alone. -/
theorem step_saved {s : Store H (CachedFile B)} (h : s.Inv) (op : Op H) :
    (step op).wp (fun _ s' => Saved s.arrays s'.arrays) s := by
  have hs := h.toSound
  have hkept : ∀ {α : Type} {c : StoreCmd (Store H (CachedFile B)) α}, Cmd.Frame durable c →
      c.wp (fun _ s' => Saved s.arrays s'.arrays) s := fun hc => Cmd.wp_mono (hc.wp s) fun _ _ => Or.inl
  have hdrop : ∀ {α : Type} {c : StoreCmd (Store H (CachedFile B)) α},
      c.wp (fun _ s' => Saved s.arrays s'.arrays) s →
        (do let _ ← c : StoreCmd (Store H (CachedFile B)) Unit).wp
          (fun _ s' => Saved s.arrays s'.arrays) s := fun hc => (Cmd.wp_map _ _ _ s).mpr hc
  cases op with
  | beginTransaction => exact hkept frame_beginTransaction
  | commitTransaction => exact Cmd.wp_mono (commitTransaction_saved hs.valid) fun _ _ h => h.saved
  | rollbackTransaction => exact hkept frame_rollbackTransaction
  | addRequests items => exact hdrop (Cmd.wp_mono (addRequests_saved hs items) fun _ _ h => h.1)
  | removeByIds ids owner => exact hdrop (hkept (frame_removeByIdsInner ids owner))
  | clearTimeSeries owner => exact hdrop (hkept (frame_clearTimeSeries owner))
  | replaceOwner old new category => exact hdrop (hkept (frame_replaceOwner old new category).durable)
  | copyTimeSeries src dst ty name => exact hdrop (hkept (frame_copyTimeSeries src dst ty name).durable)
  | importAssociationRows rows => exact hdrop (hkept (frame_importAssociationRows rows).durable)
  | transformSingleTimeSeries horizon interval category resolution policy =>
    exact hdrop (hkept (frame_transformSingleTimeSeries horizon interval category resolution policy).durable)
  | flush => exact flush_saved hs.valid
  | setWriteBufferBytes bytes => exact hkept (frame_setWriteBufferBytes bytes)
  | compact => exact hdrop (compact_saved hs.valid)

/-- An operation that brings no objects of its own leaves a catalog that names no others. -/
theorem Left.names {s : Store H B} (hs : s.Sound) {op : Op H} (hop : op.brings = false)
    {db : Catalog H} (h : Left s op db) :
    (∀ x, db.References x → s.db.References x) ∧ ∀ t, db.NamesAxis t → s.db.NamesAxis t := by
  have hrow : ∀ r ∈ db.rows, ∃ r₀ ∈ s.db.rows, r.dataHash = r₀.dataHash ∧
      (r.timeSeriesType.isIrregular = true →
        r₀.timeSeriesType.isIrregular = true ∧ r.timestampsHash = r₀.timestampsHash) := by
    intro r hr
    rcases h.origin hr with ⟨r₀, h₀, owner, rfl⟩ | ⟨m, hm, id, rfl⟩
    · exact ⟨r₀, h₀, rfl, fun hirr => ⟨hirr, rfl⟩⟩
    cases op with
    | copyTimeSeries src dst ty name =>
      obtain ⟨r₀, m₀, ⟨h₀, hy⟩, rfl⟩ := hm
      obtain ⟨hhash, htype, -⟩ := hy.series
      refine ⟨r₀, h₀, hhash, fun hirr => ⟨by rw [← htype]; exact hirr, ?_⟩⟩
      exact (hydrated_names hs hy).1
    | transformSingleTimeSeries horizon interval category resolution policy =>
      obtain ⟨r₀, m₀, ⟨h₀, hy⟩, -, horizon, interval, count, rfl⟩ := hm
      exact ⟨r₀, h₀, hy.series.1, fun hirr => by cases hirr⟩
    | addRequests items => cases hop
    | importAssociationRows rows => cases hop
    | _ => exact hm.elim
  refine ⟨?_, ?_⟩
  · rintro x ⟨r, hr, rfl⟩
    obtain ⟨r₀, h₀, hhash, -⟩ := hrow r hr
    exact ⟨r₀, h₀, hhash.symm⟩
  · rintro t ⟨r, hr, hirr, ht⟩
    obtain ⟨r₀, h₀, -, hax⟩ := hrow r hr
    obtain ⟨hirr₀, hax⟩ := hax hirr
    exact ⟨r₀, h₀, hirr₀, hax.symm.trans ht⟩

/-! ### What each operation commits -/

theorem committedCatalog_idle {s : Store H B} (h : s.conn.savepoints = []) :
    s.committedCatalog = s.db := by
  unfold committedCatalog
  rw [h]
  rfl

theorem committedCatalog_cons {s : Store H B} {saved : Catalog H} {rest : List (Catalog H)}
    (h : s.conn.savepoints = saved :: rest) : s.committedCatalog = rest.getLast?.getD saved := by
  unfold committedCatalog
  rw [h, List.getLast?_cons]
  rfl

/-- The engine taking a transaction back commits nothing. -/
theorem committedCatalog_back {s s' : Store H B} (h : RolledBack s.conn s'.conn) :
    s'.committedCatalog = s.committedCatalog := by
  rw [committedCatalog_idle h.savepoints]
  unfold committedCatalog
  rw [h.saved]
  rfl

theorem committedCatalog_congr {s s' : Store H B} (hsp : s'.conn.savepoints = s.conn.savepoints)
    (hdb : s'.db = s.db) : s'.committedCatalog = s.committedCatalog := by
  unfold committedCatalog
  rw [hsp, hdb]

theorem Stalled.commits {s s' : Store H B} (h : Stalled s s') :
    s'.committedCatalog = s.committedCatalog :=
  h.catalog.elim (fun h => committedCatalog_congr h.1 h.2) committedCatalog_back

/-- A write commits what it leaves where no transaction is open, and nothing otherwise. -/
theorem Wrote.commits {s s' : Store H B} {w g : FileObjects H} {op : Op H} (h : Wrote s s' w g)
    (hm : Moved s op s') : s'.committedCatalog = s.committedCatalog ∨
      s.conn.savepoints = [] ∧ s'.committedCatalog = s'.db ∧ Left s op s'.db := by
  rcases h.saved with hsp | hback
  · rcases hl : s.conn.savepoints with _ | ⟨saved, rest⟩
    · refine Or.inr ⟨rfl, committedCatalog_idle (hsp.trans hl), ?_⟩
      rcases hm with ⟨-, hleft⟩ | hsub
      · exact hleft
      · have hdb := hsub s'.db List.mem_cons_self
        unfold catalogs at hdb
        rw [hl, List.mem_singleton] at hdb
        rw [hdb]
        exact .same s op
    · left
      rw [committedCatalog_cons (hsp.trans hl), committedCatalog_cons hl]
  · exact Or.inl (committedCatalog_back hback)

theorem Begun.commits {s s' : Store H B} (h : Begun s s') :
    s'.committedCatalog = s.committedCatalog := committedCatalog_cons h.savepoints

theorem Released.commits {s s' : Store H B} (hs : s.Inv) (h : Released s s') :
    s'.committedCatalog = s.committedCatalog := by
  obtain ⟨saved, hsp⟩ := h.savepoints
  have hlen := (hs.alive_of_savepoint hsp).length_eq
  have htwo := h.inner
  rw [hsp, List.length_cons] at hlen
  rcases hl : s'.conn.savepoints with _ | ⟨saved', rest⟩
  · rw [hl, List.length_nil] at hlen
    omega
  · rw [committedCatalog_cons hl, committedCatalog_cons hsp, hl, List.getLast?_cons]
    rfl

theorem Committed.commits {s s' : Store H B} {garbage : FileObjects H} (hs : s.Inv)
    (h : Committed s s' garbage) : s'.committedCatalog = s.db := by
  obtain ⟨saved, hsp⟩ := h.savepoints
  have hlen := (hs.alive_of_savepoint hsp).length_eq
  rw [h.outermost, hsp, List.length_cons] at hlen
  have hnil : s'.conn.savepoints = [] := List.length_eq_zero_iff.mp (by omega)
  rw [committedCatalog_idle hnil, h.db]

theorem Rewound.commits {s s' : Store H B} (h : Rewound s s') :
    s'.committedCatalog = s.committedCatalog := by
  rcases hl : s.conn.savepoints with _ | ⟨saved, rest⟩
  · have := h.db
    rw [hl] at this
    cases this
  · rw [committedCatalog_cons (h.savepoints.trans hl), committedCatalog_cons hl]

theorem Unwound.commits {s s' : Store H B} {mark : Mark} {outer : List Mark} {saved : Catalog H}
    {rest : List (Catalog H)} {removed : FileObjects H} (h : Unwound s s' mark outer saved rest removed) :
    s'.committedCatalog = s.committedCatalog := by
  rw [committedCatalog_cons h.savepoints]
  rcases h.restored with ⟨hsp, hdb⟩ | ⟨-, hsp, hlast⟩
  · unfold committedCatalog
    rw [hsp, hdb]
  · rw [committedCatalog_idle hsp, hlast]
    rfl

theorem Discarded.commits {s s' : Store H B} {removed : FileObjects H} (h : Discarded s s' removed) :
    s'.committedCatalog = s.committedCatalog := by
  have hforced := h.forced
  unfold transactionWasForcedBack inAutocommit at hforced
  rw [Bool.and_eq_true, List.isEmpty_iff] at hforced
  rw [committedCatalog_idle h.savepoints, committedCatalog_idle hforced.2, h.db]

/-! ### The condition -/

/-- An array, if it is held, has been flushed. -/
def Flushed (s : Store H (CachedFile B)) (h : H) : Prop :=
  (s.arrays.content h).isSome → (LawfulArrayBackend.array s.durable h).isSome

/-- A time axis, if it is held, has been flushed. -/
def FlushedAxis (s : Store H (CachedFile B)) (t : H) : Prop :=
  (s.arrays.vector t).isSome → (LawfulArrayBackend.vector s.durable t).isSome

/-- What a step commits was flushed.  Outside a transaction an add writes something new, and so flushes,
or names only what was flushed; an import, which never flushes, names only what was flushed; and an
outermost commit closes a transaction that wrote something, or whose catalog names only what was
flushed. -/
def FlushesFirst (s : Store H (CachedFile B)) (t : Turn H) : Prop :=
  match t.op with
  | .addRequests items => s.inTransaction = false → ∀ parts : List (RequestParts H),
      items.mapM buildRequestParts = .ok parts →
        (∃ p ∈ parts, s.arrays.content p.hash = none ∨
          ∃ x, p.group = .irregular x ∧ s.arrays.vector x = none) ∨
        ∀ p ∈ parts, s.Flushed p.hash ∧ ∀ x, p.group = .irregular x → s.FlushedAxis x
  | .importAssociationRows rows => s.inTransaction = false → ∀ m ∈ rows, s.Flushed m.dataHash ∧
      (m.timeSeriesType.isIrregular = true →
        ∀ ts, m.timestamps = some ts → s.FlushedAxis (timestampsHash ts))
  | .commitTransaction => s.txn.marks.length = 1 → s.txn.written.isEmpty = false ∨
      (∀ h, s.db.References h → s.Flushed h) ∧ ∀ t, s.db.NamesAxis t → s.FlushedAxis t
  | _ => True

/-- A catalog whose every row was there, or names objects the file holds. -/
theorem FileHolds.of_rows_or {b : B} {c c' : Catalog H} (h : FileHolds b c)
    (hrow : ∀ r ∈ c'.rows, (∃ r₀ ∈ c.rows, ∃ owner, r = { r₀ with ownerId := owner }) ∨
      (LawfulArrayBackend.array b r.dataHash).isSome ∧ (r.timeSeriesType.isIrregular = true →
        ∀ t, r.timestampsHash = some t → (LawfulArrayBackend.vector b t).isSome)) :
    FileHolds b c' := by
  refine ⟨?_, ?_⟩
  · rintro x ⟨r, hr, rfl⟩
    rcases hrow r hr with ⟨r₀, h₀, owner, rfl⟩ | ⟨harray, -⟩
    · exact h.array ⟨r₀, h₀, rfl⟩
    · exact harray
  · rintro t ⟨r, hr, hirr, ht⟩
    rcases hrow r hr with ⟨r₀, h₀, owner, rfl⟩ | ⟨-, haxis⟩
    · exact h.axis ⟨r₀, h₀, hirr, ht⟩
    · exact haxis hirr t ht

/-- What an accepted request's row names: its array, and the axis of its group. -/
theorem part_names {items : List AddRequest} {parts : List (RequestParts H)}
    (hbuilt : items.mapM buildRequestParts = .ok parts) {p : RequestParts H} (hp : p ∈ parts) :
    p.metadata.dataHash = p.hash ∧ ∀ t, p.metadata.timestamps.map timestampsHash = some t →
      p.group = .irregular t := by
  obtain ⟨item, -, hb⟩ := Staging.parts_origin hbuilt hp
  refine ⟨buildRequestParts_hash hb, fun t ht => ?_⟩
  have hax := buildRequestParts_axis hb
  rcases hg : p.group with res | t'
  · rw [hg] at hax
    rw [show p.metadata.timestamps = none from hax] at ht
    cases ht
  · rw [hg] at hax
    obtain ⟨ts, hts, rfl⟩ := hax
    rw [hts] at ht
    rw [← Option.some.inj ht]

/-- **An add.** -/
theorem addRequests_durable {s : Store H (CachedFile B)} (hs : s.Inv) {items : List AddRequest}
    {faults : List Fault} (hc : s.FlushesFirst ⟨.addRequests items, faults⟩) :
    (addRequests (B := CachedFile B) items).wp (fun _ s' => s'.Inv →
      FileHolds s'.durable s.committedCatalog → FileHolds s'.durable s'.committedCatalog) s := by
  refine Cmd.wp_mono (Cmd.wp_and (addRequests_spec hs.toSound items)
    (addRequests_saved hs.toSound items)) ?_
  rintro r s' ⟨⟨⟨w, hw⟩, ho⟩, -, hflush⟩ hs' hold
  have hmoved : Moved s (.addRequests items) s' := by
    refine .of_outcome ho ?_ fun _ => Or.inr
    rintro ids db ⟨parts, hf⟩
    obtain ⟨cache, cache', hfeat, hchain⟩ := hf.chain
    exact Or.inl ⟨parts, cache, _, hf.built, hfeat, hchain⟩
  rcases hw.commits hmoved with h | ⟨hsp, h, hleft⟩
  · rw [h]
    exact hold
  rw [committedCatalog_idle hsp] at hold
  rw [h]
  rcases hi : s.inTransaction with _ | _
  swap
  · -- the engine has taken the transaction back, and nothing is written
    have hforced : s.transactionWasForcedBack = true := by
      unfold transactionWasForcedBack inAutocommit
      rw [hi, hsp]
      rfl
    rw [hw.blocked hforced]
    exact hold
  rcases r with e | ids
  · rcases ho.2 with ⟨-, hrows⟩ | hback
    · exact hold.of_rows hrows.rows.1
    · have := hback.saved
      rw [hsp] at this
      cases this
  have hi' : s'.inTransaction = false := by
    unfold inTransaction
    rw [hw.marks]
    exact hi
  obtain ⟨-, -, parts, hfiled⟩ := ho
  rcases hflush rfl hi with hsync | ⟨hsame, hcontent, hvector⟩
  · have hfile := (hs'.stored_idle hi').file
    rw [show s'.durable = s'.arrays.backend.live from hsync]
    exact ⟨hfile.array, hfile.axis⟩
  · -- nothing was written, so everything the batch names was held, and flushed
    rcases hc hi parts hfiled.built with ⟨p, hp, hnew⟩ | hall
    · exfalso
      rcases hnew with hn | ⟨x, hg, hn⟩
      · have := hcontent _ (hfiled.array p hp)
        rw [hn] at this
        cases this
      · have := hvector _ (hs'.holds.axis ((hfiled.names hp).2 x hg))
        rw [hn] at this
        cases this
    · rw [hsame] at hold ⊢
      refine hold.of_rows_or fun r hr => ?_
      rcases hleft.origin hr with hold | ⟨m, ⟨parts', hbuilt, hm⟩, id, rfl⟩
      · exact Or.inl hold
      · rw [hfiled.built] at hbuilt
        cases hbuilt
        obtain ⟨p, hp, rfl⟩ := List.mem_map.mp hm
        obtain ⟨hhash, haxis⟩ := part_names hfiled.built hp
        obtain ⟨hflushed, hflushedAxis⟩ := hall p hp
        refine Or.inr ⟨?_, fun _ t ht => ?_⟩
        · show (LawfulArrayBackend.array s.durable p.metadata.dataHash).isSome
          rw [hhash]
          exact hflushed (hcontent _ (hfiled.array p hp))
        · have hg := haxis t ht
          exact hflushedAxis t hg (hvector _ (hs'.holds.axis ((hfiled.names hp).2 t hg)))

/-- **An import.** -/
theorem importAssociationRows_durable {s : Store H (CachedFile B)} (hs : s.Inv)
    {rows : List (TimeSeriesMetadata H)} {faults : List Fault}
    (hc : s.FlushesFirst ⟨.importAssociationRows rows, faults⟩) :
    (importAssociationRows (B := CachedFile B) rows).wp (fun _ s' => s'.Inv →
      FileHolds s'.durable s.committedCatalog → FileHolds s'.durable s'.committedCatalog) s := by
  refine Cmd.wp_mono (Cmd.wp_and (importAssociationRows_spec hs.toSound rows)
    ((frame_importAssociationRows rows).wp s)) ?_
  rintro r s' ⟨⟨hw, ho⟩, harrays⟩ hs' hold
  have hmoved : Moved s (.importAssociationRows rows) s' :=
    .of_outcome ho (fun _ _ h => Or.inl h) fun _ => Or.inr
  rcases hw.commits hmoved with h | ⟨hsp, h, hleft⟩
  · rw [h]
    exact hold
  rw [committedCatalog_idle hsp] at hold
  rw [h]
  rcases hi : s.inTransaction with _ | _
  swap
  · have hforced : s.transactionWasForcedBack = true := by
      unfold transactionWasForcedBack inAutocommit
      rw [hi, hsp]
      rfl
    rw [hw.blocked hforced]
    exact hold
  have hfile : s'.durable = s.durable := congrArg onFile harrays
  rw [hfile] at hold ⊢
  refine hold.of_rows_or fun r hr => ?_
  rcases hleft.origin hr with hold | ⟨m, hm, id, rfl⟩
  · exact Or.inl hold
  · obtain ⟨hflushed, hflushedAxis⟩ := hc hi m hm
    refine Or.inr ⟨hflushed ?_, fun hirr t ht => ?_⟩
    · rw [← harrays]
      exact hs'.holds.array ⟨_, hr, rfl⟩
    · obtain ⟨ts, hts, rfl⟩ := Option.map_eq_some_iff.mp
        (show m.timestamps.map timestampsHash = some t from ht)
      refine hflushedAxis hirr ts hts ?_
      rw [← harrays]
      exact hs'.holds.axis ⟨_, hr, hirr, ht⟩

/-- **A commit.** -/
theorem commitTransaction_durable {s : Store H (CachedFile B)} (hs : s.Inv) {faults : List Fault}
    (hc : s.FlushesFirst ⟨.commitTransaction, faults⟩) :
    (commitTransaction (H := H) (B := CachedFile B)).wp (fun _ s' =>
      FileHolds s'.durable s.committedCatalog → FileHolds s'.durable s'.committedCatalog) s := by
  refine Cmd.wp_mono (Cmd.wp_and (commitTransaction_spec hs.toSound)
    (commitTransaction_saved hs.valid)) ?_
  rintro r s' ⟨hend, hsaved⟩ hold
  rcases r with e | u
  · rw [hend.commits]
    exact hold
  rcases hend with hend | ⟨garbage, hend⟩
  · rw [hend.commits hs]
    exact hold
  rw [hend.commits hs]
  rcases hw : s.txn.written.isEmpty with _ | _
  · obtain ⟨a, hwritten, hgone, hfile⟩ := hsaved.flushed rfl hend.outermost hw
    have hstored : Stored a s.db := by
      refine ⟨⟨fun hx => ?_, fun ht => ?_⟩, fun {x} hx => ?_⟩
      · rw [hwritten.content]
        exact hs.holds.array hx
      · rw [hwritten.vector]
        exact hs.holds.axis ht
      · rcases hget : a.buffer.get x with _ | y
        · rfl
        · exact absurd hx (hgone x (by rw [hget]; rfl))
    rw [hfile]
    exact ⟨hstored.file.array, hstored.file.axis⟩
  · rcases hc hend.outermost with hne | ⟨harray, haxis⟩
    · rw [hw] at hne
      cases hne
    · have hempty := (FileObjects.isEmpty_iff.mp hw).1
      have hstored : Stored s.arrays s.db := by
        refine ⟨hs.holds, fun {x} hx => ?_⟩
        rcases hget : s.arrays.buffer.get x with _ | y
        · rfl
        · have := hs.buffered (h := x) (by rw [hget]; rfl)
          rw [hempty] at this
          cases this
      exact hsaved.saved.fileHolds hstored
        ⟨fun hx => harray _ hx (hs.holds.array hx), fun ht => haxis _ ht (hs.holds.axis ht)⟩

/-- **Every step that meets the condition** commits only what was flushed. -/
theorem step_durable {s : Store H (CachedFile B)} (hs : s.Inv) (op : Op H) {faults : List Fault}
    (hc : s.FlushesFirst ⟨op, faults⟩) :
    (step op).wp (fun _ s' => s'.Inv →
      FileHolds s'.durable s.committedCatalog → FileHolds s'.durable s'.committedCatalog) s := by
  -- an operation that is a write, and brings no objects of its own
  have hwrites : op.brings = false → (∀ s' : Store H (CachedFile B), Ends op s s' → ∃ w g, Wrote s s' w g) →
      (step op).wp (fun _ s' => s'.Inv →
        FileHolds s'.durable s.committedCatalog → FileHolds s'.durable s'.committedCatalog) s := by
    intro hop hends
    refine Cmd.wp_mono (Cmd.wp_and (step_ends hs op) (step_moved hs op)) ?_
    rintro r s' ⟨hend, hmoved⟩ - hold
    obtain ⟨w, g, hw⟩ := hends s' hend
    rcases hw.commits hmoved with h | ⟨hsp, h, hleft⟩
    · rw [h]
      exact hold
    · rw [committedCatalog_idle hsp] at hold
      rw [h]
      obtain ⟨harray, haxis⟩ := hleft.names hs.toSound hop
      exact hold.of_names harray haxis
  cases op with
  | beginTransaction =>
    refine Cmd.wp_mono (step_ends hs .beginTransaction) ?_
    rintro r s' (h | h) - hold
    · rw [h.commits]
      exact hold
    · rw [h.commits]
      exact hold
  | commitTransaction => exact Cmd.wp_mono (commitTransaction_durable hs hc) fun _ _ h _ => h
  | rollbackTransaction =>
    refine Cmd.wp_mono (step_ends hs .rollbackTransaction) ?_
    rintro r s' (h | h | ⟨mark, outer, saved, rest, removed, h⟩ | ⟨removed, h⟩) - hold
    · rw [h.commits]
      exact hold
    · rw [h.commits]
      exact hold
    · rw [h.commits]
      exact hold
    · rw [h.commits]
      exact hold
  | addRequests items => exact (Cmd.wp_map _ _ _ s).mpr (addRequests_durable hs hc)
  | importAssociationRows rows => exact (Cmd.wp_map _ _ _ s).mpr (importAssociationRows_durable hs hc)
  | _ => exact hwrites rfl fun s' h => h

end

namespace Sample

/-- An empty file behind a cache, and which of its next commands fail. -/
def behind (faults : List Bool) : Store Digest (CachedFile (MemoryBackend Digest)) :=
  create ⟨.empty, .empty, faults⟩

theorem behind_run (C : Store Digest (CachedFile (MemoryBackend Digest)) → Turn Digest → Prop)
    (faults : List Bool) : (behind faults).ReachableBy C :=
  .create trivial (fun _ => FMap.get_empty _) fun _ => FMap.get_empty _

/-- An add whose flush fails, and whose array then cannot be removed. -/
def stranded : Store Digest (CachedFile (MemoryBackend Digest)) :=
  turned ⟨.addRequests [request 1 7], []⟩ (behind [false, true, true])

/-- The same add again. -/
def readded : Store Digest (CachedFile (MemoryBackend Digest)) :=
  turned ⟨.addRequests [request 1 7], []⟩ stranded

end Sample

end Store

end InfraStore
