import Mathlib.Data.List.Forall2
import InfraStore.TxnEffects

/-!
# The store's invariant over every run

* `Op`, `Store.step`, `Store.turn`: the operations, each with the faults the catalog engine has in
  store for its statements;
* `Store.Reachable`: every store some run reaches;
* `Store.Effect`: the ways a turn can end;
* `Store.Inv`: what holds in between, and its preservation by every effect;
* `Reachable.inv`: every reachable store satisfies it.
-/

namespace InfraStore

open Lib Connection

/-! ### Marks and what was written since -/

/-- A mark lies within another. -/
def Mark.Within (m n : Mark) : Prop := m.arrays ≤ n.arrays ∧ m.timestamps ≤ n.timestamps

namespace FileObjects

variable {H : Type}

theorem since_mark (o : FileObjects H) : o.since o.mark = .empty := by
  unfold since mark empty
  rw [List.drop_length, List.drop_length]

theorem since_zero (o : FileObjects H) : o.since ⟨0, 0⟩ = o := rfl

/-- What is recorded since a mark grows by what is appended. -/
theorem since_append {o w : FileObjects H} {m : Mark} (h : m.Within o.mark) :
    (o.append w).since m = (o.since m).append w := by
  unfold since append
  rw [List.drop_append_of_le_length h.1, List.drop_append_of_le_length h.2]

/-- What was recorded is recorded up to a mark or since it. -/
theorem mem_arrays_iff {o : FileObjects H} (m : Mark) {h : H} :
    h ∈ o.arrays ↔ h ∈ (o.upTo m).arrays ∨ h ∈ (o.since m).arrays := by
  conv_lhs => rw [← List.take_append_drop m.arrays o.arrays]
  exact List.mem_append

theorem mem_timestamps_iff {o : FileObjects H} (m : Mark) {t : H} :
    t ∈ o.timestamps ↔ t ∈ (o.upTo m).timestamps ∨ t ∈ (o.since m).timestamps := by
  conv_lhs => rw [← List.take_append_drop m.timestamps o.timestamps]
  exact List.mem_append

/-- Since an outer mark there is what an inner level's end leaves, and what that level recorded. -/
theorem since_split {o : FileObjects H} {m n : Mark} (h : n.Within m) (hm : m.Within o.mark) :
    o.since n = ((o.upTo m).since n).append (o.since m) := by
  have hsplit : o = (o.upTo m).append (o.since m) := by
    unfold upTo since append
    rw [List.take_append_drop, List.take_append_drop]
  have hn : n.Within (o.upTo m).mark := by
    unfold upTo mark
    rw [List.length_take, List.length_take]
    exact ⟨le_min h.1 (h.1.trans hm.1), le_min h.2 (h.2.trans hm.2)⟩
  conv_lhs => rw [hsplit]
  rw [since_append hn]

end FileObjects

/-! ### Operations -/

/-- The operations of a store. -/
inductive Op (H : Type) where
  | beginTransaction
  | commitTransaction
  | rollbackTransaction
  | addRequests (items : List AddRequest)
  | removeByIds (ids : List ℤ) (expectedOwner : Option (ℤ × OwnerCategory))
  | clearTimeSeries (owner : Option (ℤ × OwnerCategory))
  | replaceOwner (oldOwner newOwner : ℤ) (category : OwnerCategory)
  | copyTimeSeries (src dstOwnerId : ℤ) (dstOwnerType : String) (newName : Option String)
  | importAssociationRows (rows : List (TimeSeriesMetadata H))
  | transformSingleTimeSeries (horizon interval : Period) (category : Option OwnerCategory)
      (resolution : Option Period) (policy : TransformPolicy)
  | flush
  | setWriteBufferBytes (bytes : ℕ)
  | compact

/-- An operation, and what the catalog engine does with the statements it issues. -/
structure Turn (H : Type) where
  op : Op H
  faults : List Fault

namespace Store

section

set_option linter.unusedSectionVars false

variable {H B : Type} [DecidableEq H] [ArrayBackend H B] [Sha256 H] [FloatText] [ToString H]

/-- Run an operation, its value dropped. -/
def step : Op H → StoreCmd (Store H B) Unit
  | .beginTransaction => beginTransaction
  | .commitTransaction => commitTransaction
  | .rollbackTransaction => rollbackTransaction
  | .addRequests items => do let _ ← addRequests items
  | .removeByIds ids owner => do let _ ← removeByIdsInner ids owner
  | .clearTimeSeries owner => do let _ ← clearTimeSeries owner
  | .replaceOwner oldOwner newOwner category => do let _ ← replaceOwner oldOwner newOwner category
  | .copyTimeSeries src dst ty name => do let _ ← copyTimeSeries src dst ty name
  | .importAssociationRows rows => do let _ ← importAssociationRows rows
  | .transformSingleTimeSeries horizon interval category resolution policy => do
    let _ ← transformSingleTimeSeries horizon interval category resolution policy
  | .flush => flush
  | .setWriteBufferBytes bytes => setWriteBufferBytes bytes
  | .compact => do let _ ← compact

/-- The store with the faults of the statements to come. -/
def arm (faults : List Fault) (s : Store H B) : Store H B :=
  { s with conn := { s.conn with faults } }

/-- Run an operation under its faults. -/
def turn (t : Turn H) : StoreCmd (Store H B) Unit := do
  modify (arm t.faults)
  step t.op

theorem turn_exec (t : Turn H) (s : Store H B) :
    (turn t).exec s = (step t.op).exec (arm t.faults s) := rfl

/-- A store just created over an empty backend. -/
def create (b : B) : Store H B :=
  { conn := { db := .empty, savepoints := [], faults := [], readOnly := false }
    arrays := ⟨.new, b⟩
    txn := .empty }

variable [LawfulArrayBackend H B]

/-- The stores that some run of operations reaches, whatever each of them ends with. -/
inductive Reachable : Store H B → Prop
  | create {b : B} (valid : LawfulArrayBackend.Valid b)
      (noArray : ∀ h, LawfulArrayBackend.array b h = none)
      (noVector : ∀ t, LawfulArrayBackend.vector b t = none) : Reachable (create b)
  | turn {s : Store H B} (t : Turn H) (h : Reachable s) : Reachable ((turn t).exec s).2

/-! ### The invariant -/

/-- A catalog names none of the objects. -/
structure Apart (c : Catalog H) (o : FileObjects H) : Prop where
  array {h : H} : h ∈ o.arrays → ¬ c.References h
  axis {t : H} : t ∈ o.timestamps → ¬ c.NamesAxis t

/-- What holds between operations.  Every catalog that is or may come back, the present one and those
the open savepoints saved, finds what it names; and what a level has written is named by none of the
catalogs its end may bring back. -/
structure Inv (s : Store H B) : Prop extends Sound s where
  holds : Holds s.arrays s.db
  axed : s.db.Axed
  saved : ∀ c ∈ s.conn.savepoints, Holds s.arrays c ∧ c.Axed
  buffered {h : H} : (s.arrays.buffer.get h).isSome → h ∈ s.txn.written.arrays
  outermost {m : Mark} : s.txn.marks.getLast? = some m → m = ⟨0, 0⟩
  nested : (s.txn.written.mark :: s.txn.marks).Pairwise fun inner outer => outer.Within inner
  levels : List.Forall₂ (fun m c => Apart c (s.txn.written.since m)) s.txn.marks s.conn.savepoints ∨
    s.conn.savepoints = [] ∧ s.txn.marks ≠ [] ∧ Apart s.db s.txn.written
  writable : s.txn.marks ≠ [] → s.conn.readOnly = false

/-- The ways a turn can end. -/
inductive Effect (s s' : Store H B) : Prop
  | wrote (w g : FileObjects H) (h : Wrote s s' w g)
  | begun (h : Begun s s')
  | released (h : Released s s')
  | committed (garbage : FileObjects H) (h : Committed s s' garbage)
  | rewound (h : Rewound s s')
  | unwound (mark : Mark) (outer : List Mark) (saved : Catalog H) (rest : List (Catalog H))
      (removed : FileObjects H) (h : Unwound s s' mark outer saved rest removed)
  | discarded (removed : FileObjects H) (h : Discarded s s' removed)

theorem Inv.arm {s : Store H B} (h : s.Inv) (faults : List Fault) : (s.arm faults).Inv :=
  ⟨⟨h.valid, h.faithful, h.faithfulAxis, h.cached, h.idle⟩, h.holds, h.axed, h.saved, h.buffered,
    h.outermost, h.nested, h.levels, h.writable⟩

/-- How each operation ends: the transaction operations in their own ways, every other one as a
write. -/
def Ends : Op H → Store H B → Store H B → Prop
  | .beginTransaction, s, s' => Stalled s s' ∨ Begun s s'
  | .commitTransaction, s, s' => Stalled s s' ∨ Released s s' ∨ ∃ garbage, Committed s s' garbage
  | .rollbackTransaction, s, s' => Stalled s s' ∨ Rewound s s' ∨
      (∃ mark outer saved rest removed, Unwound s s' mark outer saved rest removed) ∨
      ∃ removed, Discarded s s' removed
  | _, s, s' => ∃ w g, Wrote s s' w g

/-- **Every operation ends in one of its ways.** -/
theorem step_ends {s : Store H B} (h : s.Inv) (op : Op H) :
    (step op).wp (fun _ s' => Ends op s s') s := by
  have hs := h.toSound
  cases op with
  | beginTransaction =>
    refine Cmd.wp_mono (beginTransaction_spec hs) fun r s' hr => ?_
    rcases r with e | u
    · exact Or.inl hr
    · exact Or.inr hr
  | commitTransaction =>
    refine Cmd.wp_mono (commitTransaction_spec hs) fun r s' hr => ?_
    rcases r with e | u
    · exact Or.inl hr
    · exact Or.inr hr
  | rollbackTransaction =>
    refine Cmd.wp_mono (rollbackTransaction_spec hs) fun r s' hr => ?_
    rcases hr with ⟨removed, -, hr⟩ | ⟨mark, outer, saved, rest, removed, hr, -⟩ | ⟨-, hr | hr⟩
    · exact Or.inr (Or.inr (Or.inr ⟨removed, hr⟩))
    · exact Or.inr (Or.inr (Or.inl ⟨mark, outer, saved, rest, removed, hr⟩))
    · exact Or.inr (Or.inl hr)
    · exact Or.inl hr
  | addRequests items =>
    exact (Cmd.wp_map _ _ _ s).mpr (Cmd.wp_mono (addRequests_spec hs items) fun r s' hr =>
      hr.1.elim fun w hw => ⟨_, _, hw⟩)
  | removeByIds ids owner =>
    exact (Cmd.wp_map _ _ _ s).mpr (Cmd.wp_mono (removeByIdsInner_spec hs ids owner) fun r s' hr =>
      hr.1.elim fun g hg => ⟨_, _, hg⟩)
  | clearTimeSeries owner =>
    exact (Cmd.wp_map _ _ _ s).mpr (Cmd.wp_mono (clearTimeSeries_spec hs owner) fun r s' hr =>
      hr.1.elim fun g hg => ⟨_, _, hg⟩)
  | replaceOwner oldOwner newOwner category =>
    exact (Cmd.wp_map _ _ _ s).mpr (Cmd.wp_mono (replaceOwner_spec hs oldOwner newOwner category)
      fun r s' hr => ⟨_, _, hr.1⟩)
  | copyTimeSeries src dst ty name =>
    exact (Cmd.wp_map _ _ _ s).mpr (Cmd.wp_mono (copyTimeSeries_spec hs h.holds src dst ty name)
      fun r s' hr => ⟨_, _, hr.1⟩)
  | importAssociationRows rows =>
    exact (Cmd.wp_map _ _ _ s).mpr (Cmd.wp_mono (importAssociationRows_spec hs rows)
      fun r s' hr => ⟨_, _, hr.1⟩)
  | transformSingleTimeSeries horizon interval category resolution policy =>
    exact (Cmd.wp_map _ _ _ s).mpr (Cmd.wp_mono
      (transformSingleTimeSeries_spec hs h.holds horizon interval category resolution policy)
      fun r s' hr => ⟨_, _, hr.1⟩)
  | flush => exact Cmd.wp_mono (flush_spec hs) fun r s' hr => ⟨_, _, hr.wrote⟩
  | setWriteBufferBytes bytes =>
    exact Cmd.wp_mono (setWriteBufferBytes_spec hs bytes) fun r s' hr => ⟨_, _, hr.wrote⟩
  | compact =>
    exact (Cmd.wp_map _ _ _ s).mpr (Cmd.wp_mono (compact_spec hs) fun r s' hr => ⟨_, _, hr.1⟩)

/-- Whichever way an operation ends is one of the effects. -/
theorem Ends.effect {op : Op H} {s s' : Store H B} (h : Ends op s s') : Effect s s' := by
  have hwrote : (∃ w g, Wrote s s' w g) → Effect s s' := fun ⟨w, g, h⟩ => .wrote w g h
  have hstalled : Stalled s s' → Effect s s' := fun h => .wrote _ _ h.wrote
  cases op with
  | beginTransaction => exact h.elim hstalled .begun
  | commitTransaction =>
    rcases h with h | h | ⟨garbage, h⟩
    · exact hstalled h
    · exact .released h
    · exact .committed garbage h
  | rollbackTransaction =>
    rcases h with h | h | ⟨mark, outer, saved, rest, removed, h⟩ | ⟨removed, h⟩
    · exact hstalled h
    · exact .rewound h
    · exact .unwound mark outer saved rest removed h
    · exact .discarded removed h
  | _ => exact hwrote h

/-- **Every turn has an effect.** -/
theorem step_effect {s : Store H B} (h : s.Inv) (op : Op H) :
    (step op).wp (fun _ s' => Effect s s') s :=
  Cmd.wp_mono (step_ends h op) fun _ _ h => h.effect

/-! ### Preservation -/

/-- A catalog that finds what it names still does when nothing it names is lost. -/
theorem Holds.mono {a a' : ArrayStore H B} {c : Catalog H} (h : Holds a c)
    (harray : ∀ x, c.References x → (a.content x).isSome → (a'.content x).isSome)
    (haxis : ∀ t, c.NamesAxis t → (a.vector t).isSome → (a'.vector t).isSome) : Holds a' c :=
  ⟨fun e => harray _ e (h.array e), fun e => haxis _ e (h.axis e)⟩

theorem Apart.append {c : Catalog H} {o w : FileObjects H} (h : Apart c o) (hw : Apart c w) :
    Apart c (o.append w) where
  array e := (FileObjects.mem_append_arrays.mp e).elim h.array hw.array
  axis e := (FileObjects.mem_append_timestamps.mp e).elim h.axis hw.axis

/-- A catalog that finds what it names does not name what a write found missing. -/
theorem Wrote.apart {s s' : Store H B} {w g : FileObjects H} (h : Wrote s s' w g) {c : Catalog H}
    (hc : Holds s.arrays c) : Apart c w where
  array e e' := by
    have := hc.array e'
    rw [h.fresh e] at this
    cases this
  axis e e' := by
    have := hc.axis e'
    rw [h.freshAxis e] at this
    cases this

/-- Inside a transaction a write loses nothing. -/
theorem Wrote.keeps {s s' : Store H B} {w g : FileObjects H} (h : Wrote s s' w g)
    (hin : s.inTransaction = true) {c : Catalog H} (hc : Holds s.arrays c) : Holds s'.arrays c := by
  have hno : ¬ s.inTransaction = false := by rw [hin]; decide
  refine hc.mono (fun x _ e => ?_) fun t _ e => ?_
  · obtain ⟨a, ha⟩ := Option.isSome_iff_exists.mp e
    rcases h.kept ha with e | ⟨e, -⟩
    · rw [e]
      rfl
    · exact absurd e hno
  · obtain ⟨ms, hms⟩ := Option.isSome_iff_exists.mp e
    rcases h.keptAxis hms with e | ⟨e, -⟩
    · rw [e]
      rfl
    · exact absurd e hno

theorem inTransaction_iff {s : Store H B} : s.inTransaction = true ↔ s.txn.marks ≠ [] := by
  unfold inTransaction
  rw [Bool.not_eq_true', List.isEmpty_eq_false_iff]

/-- The catalog a write leaves finds what it names. -/
theorem Inv.wrote_holds {s s' : Store H B} {w g : FileObjects H} (hs : s.Inv)
    (h : Wrote s s' w g) : Holds s'.arrays s'.db ∧ s'.db.Axed := by
  rcases h.saved with hsp | hr
  · refine ⟨⟨fun {x} e => ?_, fun {t} e => ?_⟩, h.axed hsp hs.axed⟩
    · rcases h.holds hsp e with e' | e'
      · obtain ⟨a, ha⟩ := Option.isSome_iff_exists.mp (hs.holds.array e')
        rcases h.kept ha with k | ⟨-, -, k⟩
        · rw [k]
          rfl
        · exact absurd e k
      · exact e'
    · rcases h.holdsAxis hsp e with e' | e'
      · obtain ⟨ms, hms⟩ := Option.isSome_iff_exists.mp (hs.holds.axis e')
        rcases h.keptAxis hms with k | ⟨-, -, k⟩
        · rw [k]
          rfl
        · rw [e.referencesTimestamps] at k
          cases k
      · exact e'
  · have hin : s.inTransaction = true := by
      rw [← Bool.not_eq_false]
      intro hi
      have := hr.saved
      rw [(hs.idle hi).2.1] at this
      cases this
    obtain ⟨h1, h2⟩ := hs.saved _ (List.mem_of_getLast? hr.saved)
    exact ⟨h.keeps hin h1, h2⟩

/-- **A write keeps the invariant.** -/
theorem Inv.wrote {s s' : Store H B} {w g : FileObjects H} (hs : s.Inv) (h : Wrote s s' w g) :
    s'.Inv := by
  obtain ⟨hholds, haxed⟩ := hs.wrote_holds h
  have hnomarks : s.inTransaction = false → s.txn.marks = [] := fun hi => by
    rw [(hs.idle hi).1]
    rfl
  have hin' : s'.inTransaction = s.inTransaction := by
    unfold inTransaction
    rw [h.marks]
  have hidleW : s.inTransaction = false → s'.txn.written = .empty := fun hi => by
    rw [h.idle hi]
    rfl
  refine ⟨⟨h.valid, fun e => ?_, fun e => ?_, h.cached, fun hi => ?_⟩, hholds, haxed, fun c hc => ?_,
    fun {x} e => ?_, ?_, ?_, ?_, ?_⟩
  · exact (h.origin e).elim hs.faithful id
  · exact (h.originAxis e).elim hs.faithfulAxis id
  · rw [hin'] at hi
    refine ⟨h.idle hi, ?_, fun x => ?_⟩
    · rcases h.saved with e | e
      · rw [e]
        exact (hs.idle hi).2.1
      · exact e.savepoints
    · rw [← Option.not_isSome_iff_eq_none]
      intro e
      rcases h.buffered e with e | e
      · rw [(hs.idle hi).2.2] at e
        cases e
      · have := h.written
        rw [hidleW hi] at this
        have hmem := FileObjects.mem_append_arrays (a := s.txn.written).mpr (Or.inr e)
        rw [← this] at hmem
        exact List.not_mem_nil hmem
  · rcases h.saved with e | e
    · rw [e] at hc
      have hin : s.inTransaction = true := by
        rw [← Bool.not_eq_false]
        intro hi
        rw [(hs.idle hi).2.1] at hc
        exact List.not_mem_nil hc
      exact ⟨h.keeps hin (hs.saved c hc).1, (hs.saved c hc).2⟩
    · rw [e.savepoints] at hc
      exact (List.not_mem_nil hc).elim
  · rw [h.written]
    exact FileObjects.mem_append_arrays.mpr ((h.buffered e).imp_left hs.buffered)
  · rw [h.marks]
    exact hs.outermost
  · rw [h.marks]
    obtain ⟨h1, h2⟩ := List.pairwise_cons.mp hs.nested
    refine List.pairwise_cons.mpr ⟨fun m hm => ?_, h2⟩
    obtain ⟨h3, h4⟩ := h1 m hm
    rw [h.written]
    unfold FileObjects.mark FileObjects.append at *
    exact ⟨h3.trans (by simp), h4.trans (by simp)⟩
  · rw [h.marks]
    have hwithin := (List.pairwise_cons.mp hs.nested).1
    -- a catalog an end may bring back names nothing that is new
    have happ : ∀ {m c}, m ∈ s.txn.marks → c ∈ s.conn.savepoints →
        Apart c (s.txn.written.since m) → Apart c (s'.txn.written.since m) := by
      intro m c hm hc ha
      rw [h.written, FileObjects.since_append (hwithin m hm)]
      exact ha.append (h.apart (hs.saved c hc).1)
    rcases hs.levels with hl | ⟨h1, h2, h3⟩
    · rcases h.saved with e | e
      · rw [e]
        refine Or.inl (List.forall₂_iff_zip.mpr ⟨hl.length_eq, fun {m c} hz => ?_⟩)
        obtain ⟨hm, hc⟩ := List.of_mem_zip hz
        exact happ hm hc ((List.forall₂_iff_zip.mp hl).2 hz)
      · -- the engine has gone back to the outermost savepoint
        have hlast := e.saved
        have hne : s.conn.savepoints ≠ [] := fun hn => by
          rw [hn] at hlast
          cases hlast
        have hmne : s.txn.marks ≠ [] := fun hn => hne (by
          have := hl.length_eq
          rw [hn] at this
          exact List.eq_nil_of_length_eq_zero this.symm)
        refine Or.inr ⟨e.savepoints, hmne, ?_⟩
        have hlastMark : ∃ m, s.txn.marks.getLast? = some m := by
          rcases hg : s.txn.marks.getLast? with _ | m
          · exact absurd (List.getLast?_eq_none_iff.mp hg) hmne
          · exact ⟨m, rfl⟩
        obtain ⟨m, hm⟩ := hlastMark
        have hz : (m, s'.conn.db) ∈ s.txn.marks.zip s.conn.savepoints := by
          refine List.mem_of_getElem? (i := s.txn.marks.length - 1)
            (List.getElem?_zip_eq_some.mpr ⟨?_, ?_⟩)
          · rw [← List.getLast?_eq_getElem?]
            exact hm
          · rw [hl.length_eq, ← List.getLast?_eq_getElem?]
            exact hlast
        have ha := happ (List.mem_of_getLast? hm) (List.mem_of_getLast? hlast)
          ((List.forall₂_iff_zip.mp hl).2 hz)
        rw [hs.outermost hm] at ha
        exact ha
    · have hsp : s'.conn.savepoints = [] := by
        rcases h.saved with e | e
        · rw [e]
          exact h1
        · exact e.savepoints
      refine Or.inr ⟨hsp, h2, ?_⟩
      have hforced : s.transactionWasForcedBack = true := by
        unfold transactionWasForcedBack inAutocommit
        rw [Bool.and_eq_true, List.isEmpty_iff]
        exact ⟨inTransaction_iff.mpr h2, h1⟩
      rw [h.blocked hforced, h.written]
      exact h3.append (h.apart hs.holds)
  · intro hm
    rw [h.marks] at hm
    rw [h.later.readOnly]
    exact hs.writable hm

/-- A transaction the engine has not taken back has a savepoint a level. -/
theorem Inv.alive {s : Store H B} (hs : s.Inv) (h : s.transactionWasForcedBack = false) :
    List.Forall₂ (fun m c => Apart c (s.txn.written.since m)) s.txn.marks s.conn.savepoints := by
  rcases hs.levels with hl | ⟨h1, h2, -⟩
  · exact hl
  · exfalso
    have : s.transactionWasForcedBack = true := by
      unfold transactionWasForcedBack inAutocommit
      rw [Bool.and_eq_true, List.isEmpty_iff]
      exact ⟨inTransaction_iff.mpr h2, h1⟩
    rw [h] at this
    cases this

theorem Inv.alive_of_savepoint {s : Store H B} (hs : s.Inv) {c : Catalog H} {cs : List (Catalog H)}
    (h : s.conn.savepoints = c :: cs) :
    List.Forall₂ (fun m c => Apart c (s.txn.written.since m)) s.txn.marks s.conn.savepoints := by
  refine hs.alive ?_
  unfold transactionWasForcedBack inAutocommit
  rw [h]
  exact Bool.and_false _

/-- **Opening a level keeps the invariant.** -/
theorem Inv.begun {s s' : Store H B} (hs : s.Inv) (h : Begun s s') : s'.Inv := by
  have hin : s'.inTransaction = true := by
    rw [inTransaction_iff, h.txn]
    exact List.cons_ne_nil _ _
  refine ⟨⟨?_, ?_, ?_, ?_, fun hi => ?_⟩, ?_, ?_, fun c hc => ?_, ?_, fun {m} hm => ?_, ?_, Or.inl ?_,
    fun _ => h.writable⟩
  · rw [h.arrays]
    exact hs.valid
  · rw [h.arrays]
    exact hs.faithful
  · rw [h.arrays]
    exact hs.faithfulAxis
  · rw [h.arrays, h.txn]
    exact hs.cached
  · rw [hin] at hi
    cases hi
  · rw [h.arrays, h.db]
    exact hs.holds
  · rw [h.db]
    exact hs.axed
  · rw [h.savepoints] at hc
    rw [h.arrays]
    rcases List.mem_cons.mp hc with rfl | hc
    · exact ⟨hs.holds, hs.axed⟩
    · exact hs.saved c hc
  · rw [h.arrays, h.txn]
    exact hs.buffered
  · rw [h.txn] at hm
    rcases hmarks : s.txn.marks with _ | ⟨m', ms⟩
    · simp only [hmarks, List.getLast?_singleton, Option.some.injEq] at hm
      have hidle := (hs.idle (by unfold inTransaction; rw [hmarks]; rfl)).1
      rw [hidle] at hm
      exact hm.symm
    · simp only [hmarks, List.getLast?_cons_cons] at hm
      exact hs.outermost (by rw [hmarks]; exact hm)
  · rw [h.txn]
    refine List.pairwise_cons.mpr ⟨fun m hm => ?_, hs.nested⟩
    rcases List.mem_cons.mp hm with rfl | hm
    · exact ⟨le_refl _, le_refl _⟩
    · exact (List.pairwise_cons.mp hs.nested).1 m hm
  · rw [h.txn, h.savepoints]
    refine .cons ?_ (hs.alive h.alive)
    rw [FileObjects.since_mark]
    exact ⟨fun e => (List.not_mem_nil e).elim, fun e => (List.not_mem_nil e).elim⟩

/-- **Closing an inner level keeps the invariant.** -/
theorem Inv.released {s s' : Store H B} (hs : s.Inv) (h : Released s s') : s'.Inv := by
  obtain ⟨saved, hsp⟩ := h.savepoints
  have hl := hs.alive_of_savepoint hsp
  have hinner := h.inner
  rcases hm : s.txn.marks with _ | ⟨m, _ | ⟨m', ms⟩⟩
  · rw [hm] at hinner
    simp at hinner
  · rw [hm] at hinner
    simp at hinner
  have hmarks : s'.txn.marks = m' :: ms := by
    rw [h.txn, hm]
    rfl
  have hwritten : s'.txn.written = s.txn.written := by rw [h.txn]
  have hin : s'.inTransaction = true := by
    rw [inTransaction_iff, hmarks]
    exact List.cons_ne_nil _ _
  refine ⟨⟨?_, ?_, ?_, ?_, fun hi => ?_⟩, ?_, ?_, fun c hc => ?_, ?_, fun {x} hx => ?_, ?_, Or.inl ?_,
    fun _ => ?_⟩
  · rw [h.arrays]
    exact hs.valid
  · rw [h.arrays]
    exact hs.faithful
  · rw [h.arrays]
    exact hs.faithfulAxis
  · rw [h.arrays, h.txn]
    exact hs.cached
  · rw [hin] at hi
    cases hi
  · rw [h.arrays, h.db]
    exact hs.holds
  · rw [h.db]
    exact hs.axed
  · rw [h.arrays]
    exact hs.saved c (by rw [hsp]; exact List.mem_cons_of_mem _ hc)
  · rw [h.arrays, h.txn]
    exact hs.buffered
  · rw [hmarks] at hx
    refine hs.outermost ?_
    rw [hm, List.getLast?_cons_cons]
    exact hx
  · rw [hwritten, hmarks]
    have hn := hs.nested
    rw [hm] at hn
    exact hn.sublist ((List.sublist_cons_self _ _).cons_cons _)
  · rw [hm, hsp] at hl
    rw [hwritten, hmarks]
    exact (List.forall₂_cons.mp hl).2
  · rw [h.later.readOnly]
    exact hs.writable (by rw [hm]; exact List.cons_ne_nil _ _)

/-- **Closing the outermost level keeps the invariant.** -/
theorem Inv.committed {s s' : Store H B} {garbage : FileObjects H} (hs : s.Inv)
    (h : Committed s s' garbage) : s'.Inv := by
  obtain ⟨saved, hsp⟩ := h.savepoints
  obtain ⟨a, hwritten, hshed, hrest⟩ := h.arrays
  have hl := hs.alive_of_savepoint hsp
  have hsp' : s'.conn.savepoints = [] := by
    have := hl.length_eq
    rw [h.outermost, hsp, List.length_cons] at this
    exact List.eq_nil_of_length_eq_zero (by omega)
  have hin : s'.inTransaction = false := by
    unfold inTransaction
    rw [h.txn]
    rfl
  have hbuf : ∀ x, s'.arrays.buffer.get x = none := by
    intro x
    rw [← Option.not_isSome_iff_eq_none]
    intro e
    obtain ⟨e, hg⟩ := hshed.unbuffered e
    rcases hw : s.txn.written.isEmpty with _ | _
    · exact hg (hrest hw x e)
    · have := hs.buffered (hwritten.buffered hs.valid e)
      rw [(FileObjects.isEmpty_iff.mp hw).1] at this
      exact List.not_mem_nil this
  refine ⟨⟨hshed.valid, fun e => ?_, fun e => ?_, ?_, fun _ => ⟨h.txn, hsp', hbuf⟩⟩, ?_, ?_,
    fun c hc => ?_, fun {x} e => ?_, fun {m} hm => ?_, ?_, Or.inl ?_, fun hm => ?_⟩
  · have := hshed.origin e
    rw [hwritten.content] at this
    exact hs.faithful this
  · have := hshed.originAxis e
    rw [hwritten.vector] at this
    exact hs.faithfulAxis this
  · rw [h.txn]
    exact fun x hx => (List.not_mem_nil hx).elim
  · rw [h.db]
    refine hs.holds.mono (fun x hx e => ?_) fun t ht e => ?_
    · rw [hshed.kept fun c => ((h.counted.arrays x).mp c).2 hx, hwritten.content]
      exact e
    · rw [hshed.keptAxis fun c => ?_, hwritten.vector]
      · exact e
      · have := ((h.counted.timestamps t).mp c).2
        rw [ht.referencesTimestamps] at this
        cases this
  · rw [h.db]
    exact hs.axed
  · rw [hsp'] at hc
    exact (List.not_mem_nil hc).elim
  · rw [hbuf] at e
    cases e
  · rw [h.txn] at hm
    cases hm
  · rw [h.txn]
    exact List.pairwise_singleton _ _
  · rw [hsp', h.txn]
    exact .nil
  · rw [h.txn] at hm
    exact absurd rfl hm

/-- **Taking a level's rows back keeps the invariant.** -/
theorem Inv.rewound {s s' : Store H B} (hs : s.Inv) (h : Rewound s s') : s'.Inv := by
  obtain ⟨cs, hsp⟩ : ∃ cs, s.conn.savepoints = s'.db :: cs := by
    rcases hsp : s.conn.savepoints with _ | ⟨c, cs⟩
    · have := h.db
      rw [hsp] at this
      cases this
    · have := h.db
      rw [hsp] at this
      exact ⟨cs, by rw [Option.some.inj this]⟩
  have hl := hs.alive_of_savepoint hsp
  have hin : s'.inTransaction = s.inTransaction := by
    unfold inTransaction
    rw [h.txn]
  obtain ⟨hholds, haxed⟩ := hs.saved s'.db (by rw [hsp]; exact List.mem_cons_self)
  refine ⟨⟨?_, ?_, ?_, ?_, fun hi => ?_⟩, ?_, haxed, ?_, ?_, ?_, ?_, Or.inl ?_, ?_⟩
  · rw [h.arrays]
    exact hs.valid
  · rw [h.arrays]
    exact hs.faithful
  · rw [h.arrays]
    exact hs.faithfulAxis
  · rw [h.arrays, h.txn]
    exact hs.cached
  · rw [h.arrays, h.txn, h.savepoints]
    exact hs.idle (hin ▸ hi)
  · rw [h.arrays]
    exact hholds
  · rw [h.arrays, h.savepoints]
    exact hs.saved
  · rw [h.arrays, h.txn]
    exact hs.buffered
  · rw [h.txn]
    exact hs.outermost
  · rw [h.txn]
    exact hs.nested
  · rw [h.txn, h.savepoints]
    exact hl
  · rw [h.txn, h.later.readOnly]
    exact hs.writable

/-- A catalog apart from what a level wrote finds, once that is reclaimed, what it found before. -/
theorem Reclaimed.holds {s s' : Store H B} {db c : Catalog H} {w removed : FileObjects H}
    (h : Reclaimed s s' db w removed) (hc : Holds s.arrays c) (ha : Apart c w) : Holds s'.arrays c := by
  refine hc.mono (fun x hx e => ?_) fun t ht e => ?_
  · rw [h.shed.kept fun m => ha.array (h.subset m) hx]
    exact e
  · rw [h.shed.keptAxis fun m => ha.axis (h.subsetAxis m) ht]
    exact e

/-- What remains buffered was written outside what is reclaimed. -/
theorem Reclaimed.buffered {s s' : Store H B} {db : Catalog H} {w removed : FileObjects H}
    (h : Reclaimed s s' db w removed) {x : H} (hx : (s'.arrays.buffer.get x).isSome) :
    (s.arrays.buffer.get x).isSome ∧ x ∉ w.arrays := by
  refine ⟨(h.shed.unbuffered hx).1, fun hw => ?_⟩
  rw [h.unbuffered hw] at hx
  cases hx

/-- The marks and the savepoints below the innermost level, and what each saved catalog is apart
from. -/
structure Enclosing (s : Store H B) (mark : Mark) (outer : List Mark) (saved : Catalog H)
    (rest : List (Catalog H)) : Prop where
  innermost : Apart saved (s.txn.written.since mark)
  since : ∀ c ∈ rest, Apart c (s.txn.written.since mark)
  levels : List.Forall₂ (fun m c => Apart c ((s.txn.written.upTo mark).since m)) outer rest
  nested : ((s.txn.written.upTo mark).mark :: outer).Pairwise fun inner outer => outer.Within inner

theorem Inv.enclosing {s : Store H B} (hs : s.Inv) {mark : Mark} {outer : List Mark}
    {saved : Catalog H} {rest : List (Catalog H)} (hm : s.txn.marks = mark :: outer)
    (hsp : s.conn.savepoints = saved :: rest) : Enclosing s mark outer saved rest := by
  have hl := hs.alive_of_savepoint hsp
  rw [hm, hsp] at hl
  obtain ⟨h1, h2⟩ := List.forall₂_cons.mp hl
  have hn := hs.nested
  rw [hm] at hn
  obtain ⟨hn1, hn2⟩ := List.pairwise_cons.mp hn
  obtain ⟨hn3, hn4⟩ := List.pairwise_cons.mp hn2
  have hmark := hn1 mark List.mem_cons_self
  have hsplit : ∀ {m c}, (m, c) ∈ outer.zip rest →
      Apart c (((s.txn.written.upTo mark).since m).append (s.txn.written.since mark)) := by
    intro m c hz
    rw [← FileObjects.since_split (hn3 m (List.of_mem_zip hz).1) hmark]
    exact (List.forall₂_iff_zip.mp h2).2 hz
  refine ⟨h1, fun c hc => ?_, List.forall₂_iff_zip.mpr ⟨h2.length_eq, fun {m c} hz => ?_⟩, ?_⟩
  · obtain ⟨i, hi⟩ := List.getElem?_of_mem hc
    obtain ⟨hlt, -⟩ := List.getElem?_eq_some_iff.mp hi
    have hlt' : i < outer.length := by rw [h2.length_eq]; exact hlt
    have ha := hsplit (List.mem_of_getElem? (i := i)
      (List.getElem?_zip_eq_some.mpr ⟨List.getElem?_eq_getElem hlt', hi⟩))
    exact ⟨fun e => ha.array (FileObjects.mem_append_arrays.mpr (Or.inr e)),
      fun e => ha.axis (FileObjects.mem_append_timestamps.mpr (Or.inr e))⟩
  · have ha := hsplit hz
    exact ⟨fun e => ha.array (FileObjects.mem_append_arrays.mpr (Or.inl e)),
      fun e => ha.axis (FileObjects.mem_append_timestamps.mpr (Or.inl e))⟩
  · refine List.pairwise_cons.mpr ⟨fun m hm => ?_, hn4⟩
    obtain ⟨h3, h4⟩ := hn3 m hm
    unfold FileObjects.upTo FileObjects.mark
    rw [List.length_take, List.length_take]
    exact ⟨le_min h3 (h3.trans hmark.1), le_min h4 (h4.trans hmark.2)⟩

/-- **Rolling a level back keeps the invariant.** -/
theorem Inv.unwound {s s' : Store H B} {mark : Mark} {outer : List Mark} {saved : Catalog H}
    {rest : List (Catalog H)} {removed : FileObjects H} (hs : s.Inv)
    (h : Unwound s s' mark outer saved rest removed) : s'.Inv := by
  have henc := hs.enclosing h.marks h.savepoints
  have hrec := h.reclaimed
  have hsaved : ∀ c ∈ saved :: rest, Holds s'.arrays c ∧ c.Axed := by
    intro c hc
    obtain ⟨h1, h2⟩ := hs.saved c (by rw [h.savepoints]; exact hc)
    refine ⟨hrec.holds h1 ?_, h2⟩
    rcases List.mem_cons.mp hc with rfl | hc
    · exact henc.innermost
    · exact henc.since c hc
  have hdb : s'.db ∈ saved :: rest := by
    rcases h.restored with ⟨-, e⟩ | ⟨-, -, e⟩
    · rw [e]
      exact List.mem_cons_self
    · exact List.mem_cons_of_mem _ (List.mem_of_getLast? e)
  have hbuffered : ∀ {x}, (s'.arrays.buffer.get x).isSome → x ∈ (s.txn.written.upTo mark).arrays := by
    intro x e
    obtain ⟨e1, e2⟩ := hrec.buffered e
    exact ((FileObjects.mem_arrays_iff mark).mp (hs.buffered e1)).resolve_right e2
  have hsp' : ∀ c ∈ s'.conn.savepoints, Holds s'.arrays c ∧ c.Axed := by
    intro c hc
    rcases h.restored with ⟨e, -⟩ | ⟨-, e, -⟩
    · rw [e] at hc
      exact hsaved c (List.mem_cons_of_mem _ hc)
    · rw [e] at hc
      exact (List.not_mem_nil hc).elim
  by_cases hout : outer = []
  · -- the outermost level: nothing of the transaction is left
    have htxn : s'.txn = .empty := by rw [h.txn, if_pos hout]
    have hnil : rest = [] := by
      have := henc.levels
      rw [hout] at this
      cases this
      rfl
    have hsp : s'.conn.savepoints = [] := by
      rcases h.restored with ⟨e, -⟩ | ⟨-, e, -⟩
      · rw [e, hnil]
      · exact e
    have hzero : mark = ⟨0, 0⟩ := hs.outermost (by rw [h.marks, hout]; rfl)
    have hbuf : ∀ x, s'.arrays.buffer.get x = none := by
      intro x
      rw [← Option.not_isSome_iff_eq_none]
      intro e
      have := hbuffered e
      rw [hzero] at this
      exact List.not_mem_nil this
    refine ⟨⟨hrec.shed.valid, fun e => hs.faithful (hrec.shed.origin e),
      fun e => hs.faithfulAxis (hrec.shed.originAxis e), ?_, fun _ => ⟨htxn, hsp, hbuf⟩⟩,
      (hsaved _ hdb).1, (hsaved _ hdb).2, hsp', fun {x} e => ?_, fun {m} hm => ?_, ?_, Or.inl ?_,
      fun hm => ?_⟩
    · rw [htxn]
      exact fun x hx => (List.not_mem_nil hx).elim
    · rw [hbuf] at e
      cases e
    · rw [htxn] at hm
      cases hm
    · rw [htxn]
      exact List.pairwise_singleton _ _
    · rw [htxn, hsp]
      exact .nil
    · rw [htxn] at hm
      exact absurd rfl hm
  · have htxn := h.txn
    rw [if_neg hout] at htxn
    have hin : s'.inTransaction = true := by
      rw [inTransaction_iff, htxn]
      exact hout
    have hlast : ∀ {m : Mark}, outer.getLast? = some m → m = ⟨0, 0⟩ := by
      intro m hm
      refine hs.outermost ?_
      rw [h.marks]
      rcases outer with _ | ⟨m', ms⟩
      · cases hm
      · rw [List.getLast?_cons_cons]
        exact hm
    refine ⟨⟨hrec.shed.valid, fun e => hs.faithful (hrec.shed.origin e),
      fun e => hs.faithfulAxis (hrec.shed.originAxis e), ?_, fun hi => ?_⟩,
      (hsaved _ hdb).1, (hsaved _ hdb).2, hsp', fun {x} e => ?_, ?_, ?_, ?_, fun _ => ?_⟩
    · rw [htxn]
      exact fun x hx => (List.not_mem_nil hx).elim
    · rw [hin] at hi
      cases hi
    · rw [htxn]
      exact hbuffered e
    · rw [htxn]
      exact hlast
    · rw [htxn]
      exact henc.nested
    · rw [htxn]
      rcases h.restored with ⟨e, -⟩ | ⟨-, e, hdb'⟩
      · rw [e]
        exact Or.inl henc.levels
      · refine Or.inr ⟨e, hout, ?_⟩
        have hmarkLast : ∃ m, outer.getLast? = some m := by
          rcases hg : outer.getLast? with _ | m
          · exact absurd (List.getLast?_eq_none_iff.mp hg) hout
          · exact ⟨m, rfl⟩
        obtain ⟨m, hm⟩ := hmarkLast
        have hz : (m, s'.db) ∈ outer.zip rest := by
          refine List.mem_of_getElem? (i := outer.length - 1)
            (List.getElem?_zip_eq_some.mpr ⟨?_, ?_⟩)
          · rw [← List.getLast?_eq_getElem?]
            exact hm
          · rw [henc.levels.length_eq, ← List.getLast?_eq_getElem?]
            exact hdb'
        have ha := (List.forall₂_iff_zip.mp henc.levels).2 hz
        rw [hlast hm] at ha
        exact ha
    · rw [h.later.readOnly]
      exact hs.writable (by rw [h.marks]; exact List.cons_ne_nil _ _)

/-- **Dropping a transaction the engine has rolled back keeps the invariant.** -/
theorem Inv.discarded {s s' : Store H B} {removed : FileObjects H} (hs : s.Inv)
    (h : Discarded s s' removed) : s'.Inv := by
  have hrec := h.reclaimed
  have hforced := h.forced
  unfold transactionWasForcedBack inAutocommit at hforced
  rw [Bool.and_eq_true, List.isEmpty_iff, inTransaction_iff] at hforced
  have hapart : Apart s.db s.txn.written := by
    rcases hs.levels with hl | ⟨-, -, h3⟩
    · rw [hforced.2] at hl
      exact absurd (List.forall₂_nil_right_iff.mp hl) hforced.1
    · exact h3
  have hbuf : ∀ x, s'.arrays.buffer.get x = none := by
    intro x
    rw [← Option.not_isSome_iff_eq_none]
    intro e
    obtain ⟨e1, e2⟩ := hrec.buffered e
    exact e2 (hs.buffered e1)
  refine ⟨⟨hrec.shed.valid, fun e => hs.faithful (hrec.shed.origin e),
    fun e => hs.faithfulAxis (hrec.shed.originAxis e), ?_, fun _ => ⟨h.txn, h.savepoints, hbuf⟩⟩,
    ?_, ?_, fun c hc => ?_, fun {x} e => ?_, fun {m} hm => ?_, ?_, Or.inl ?_, fun hm => ?_⟩
  · rw [h.txn]
    exact fun x hx => (List.not_mem_nil hx).elim
  · rw [h.db]
    exact hrec.holds hs.holds hapart
  · rw [h.db]
    exact hs.axed
  · rw [h.savepoints] at hc
    exact (List.not_mem_nil hc).elim
  · rw [hbuf] at e
    cases e
  · rw [h.txn] at hm
    cases hm
  · rw [h.txn]
    exact List.pairwise_singleton _ _
  · rw [h.txn, h.savepoints]
    exact .nil
  · rw [h.txn] at hm
    exact absurd rfl hm

/-! ### Runs -/

theorem Inv.effect {s s' : Store H B} (hs : s.Inv) (h : Effect s s') : s'.Inv := by
  cases h with
  | wrote w g h => exact hs.wrote h
  | begun h => exact hs.begun h
  | released h => exact hs.released h
  | committed garbage h => exact hs.committed h
  | rewound h => exact hs.rewound h
  | unwound mark outer saved rest removed h => exact hs.unwound h
  | discarded removed h => exact hs.discarded h

theorem turn_effect {s : Store H B} (hs : s.Inv) (t : Turn H) :
    (turn t).wp (fun _ s' => Effect (s.arm t.faults) s') s :=
  step_effect (hs.arm t.faults) t.op

/-- **Every turn keeps the invariant.** -/
theorem turn_inv (t : Turn H) (s : Store H B) (hs : s.Inv) : (turn t).wp (fun _ s' => s'.Inv) s :=
  Cmd.wp_mono (turn_effect hs t) fun _ _ h => (hs.arm t.faults).effect h

/-- A store just created holds no array. -/
theorem content_create {b : B} (noArray : ∀ h, LawfulArrayBackend.array b h = none) (h : H) :
    (create b : Store H B).arrays.content h = none := by
  show (WriteBuffer.new.get h).or (LawfulArrayBackend.array b h) = none
  rw [(WriteBuffer.new_indexed (H := H)).2, noArray]
  rfl

/-- A store just created satisfies the invariant. -/
theorem inv_create {b : B} (valid : LawfulArrayBackend.Valid b)
    (noArray : ∀ h, LawfulArrayBackend.array b h = none)
    (noVector : ∀ t, LawfulArrayBackend.vector b t = none) : (create b : Store H B).Inv := by
  obtain ⟨hi, hget⟩ := WriteBuffer.new_indexed (H := H)
  have hcontent : ∀ h, (create b : Store H B).arrays.content h = none := content_create noArray
  refine ⟨⟨⟨valid, hi, fun {h a a'} e => ?_⟩, fun {h a} e => ?_, fun {t ms} e => ?_,
    fun x hx => (List.not_mem_nil hx).elim, fun _ => ⟨rfl, rfl, hget⟩⟩, ⟨?_, ?_⟩,
    fun r hr => (List.not_mem_nil hr).elim, fun c hc => (List.not_mem_nil hc).elim, fun {h} e => ?_,
    fun {m} hm => (by cases hm), List.pairwise_singleton _ _, Or.inl .nil, fun hm => absurd rfl hm⟩
  · rw [show (create b : Store H B).arrays.buffer.get h = none from hget h] at e
    cases e
  · rw [hcontent] at e
    cases e
  · rw [show (create b : Store H B).arrays.vector t = none from noVector t] at e
    cases e
  · rintro h ⟨r, hr, -⟩
    exact (List.not_mem_nil hr).elim
  · rintro t ⟨r, hr, -⟩
    exact (List.not_mem_nil hr).elim
  · rw [show (create b : Store H B).arrays.buffer.get h = none from hget h] at e
    cases e

/-- **Every reachable store satisfies the invariant.** -/
theorem Reachable.inv {s : Store H B} (h : s.Reachable) : s.Inv := by
  induction h with
  | create valid noArray noVector => exact inv_create valid noArray noVector
  | turn t _ ih => exact turn_inv t _ ih

theorem Reachable.run {s : Store H B} (h : s.Reachable) (turns : List (Turn H)) :
    (Cmd.runs Store.turn turns s).Reachable := by
  induction turns generalizing s with
  | nil => exact h
  | cons t turns ih => exact ih (.turn t h)

/-! ### Referential integrity -/

/-- **Every row finds what it names.**  Its array is held by the buffer or the backend, and by the
backend alone when no transaction is open; an irregular row's time axis is stored. -/
theorem referential_integrity {s : Store H B} (h : s.Reachable) :
    (∀ r ∈ s.db.rows, s.arrays.holdsArray r.dataHash = true) ∧
      (∀ r ∈ s.db.rows, r.timeSeriesType.isIrregular = true →
        ∃ t, r.timestampsHash = some t ∧ t ∈ ArrayBackend.timestampHashes s.arrays.backend) ∧
      (s.inTransaction = false → s.arrays.buffer.isEmpty = true ∧
        ∀ r ∈ s.db.rows, ArrayBackend.contains s.arrays.backend r.dataHash = true) := by
  have hs := h.inv
  have hheld : ∀ r ∈ s.db.rows, s.arrays.holdsArray r.dataHash = true := by
    intro r hr
    rw [ArrayStore.holdsArray_eq hs.valid]
    exact hs.holds.array ⟨r, hr, rfl⟩
  refine ⟨hheld, fun r hr hirr => ?_, fun hi => ?_⟩
  · obtain ⟨t, ht⟩ := Option.isSome_iff_exists.mp (hs.axed r hr hirr)
    refine ⟨t, ht, (LawfulArrayBackend.mem_timestampHashes hs.valid.backend t).mpr ?_⟩
    exact hs.holds.axis ⟨r, hr, hirr, ht⟩
  · have hbuf := (hs.idle hi).2.2
    refine ⟨hs.valid.indexed.isEmpty hbuf, fun r hr => ?_⟩
    have := hheld r hr
    unfold ArrayStore.holdsArray at this
    rw [hs.valid.indexed.contains_eq, hbuf] at this
    exact this

end

/-! ### A store in memory -/

namespace Sample

/-- A digest no two byte streams share. -/
abbrev Digest : Type := List UInt8

scoped instance : Sha256 Digest := ⟨id⟩

scoped instance : FloatText :=
  ⟨fun v => toString v.bits, fun vs => toString (vs.map (·.bits)), fun _ => .ok []⟩

/-- Two hourly steps of one owner. -/
def request (ownerId : ℤ) (value : UInt8) : AddRequest :=
  { ownerId, ownerType := "Bus", ownerCategory := .component
    data := .single
      { data := ⟨.u8, [2], [value, value]⟩, name := "load", elementType := .scalar .u8
        units := none, quantityKind := none, unitSystem := none, timeReference := none
        componentField := none, applicationData := none, initialTimestamp := .epoch
        resolution := .fixed ⟨3600000000000, Duration.valid_hour⟩, length := 2 }
    features := .empty }

/-- An empty store in memory. -/
def empty : Store Digest (MemoryBackend Digest) := create .empty

theorem empty_reachable : empty.Reachable :=
  .create trivial (fun _ => FMap.get_empty _) fun _ => FMap.get_empty _

/-- An empty store after a run. -/
def after (turns : List (Turn Digest)) : Store Digest (MemoryBackend Digest) :=
  Cmd.runs turn turns empty

theorem after_reachable (turns : List (Turn Digest)) : (after turns).Reachable :=
  empty_reachable.run turns

/-- A row that was filed finds its array. -/
theorem referential_integrity_added :
    (∀ r ∈ (after [⟨.addRequests [request 1 7], []⟩]).db.rows,
      (after [⟨.addRequests [request 1 7], []⟩]).arrays.holdsArray r.dataHash = true) ∧
    (after [⟨.addRequests [request 1 7], []⟩]).db.rows ≠ [] :=
  ⟨(referential_integrity (after_reachable [⟨.addRequests [request 1 7], []⟩])).1, by decide +kernel⟩

end Sample

end Store

end InfraStore
