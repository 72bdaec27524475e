import InfraStore.RowEffects

/-!
# What the transaction operations do to the store

* `Begun`, `Released`, `Committed`: a level opened, an inner level closed, the outermost one closed;
* `Rewound`, `Unwound`, `Discarded`: a level's rows taken back but the level still open, a level rolled
  back, and a transaction dropped after the engine has rolled it back on its own;
* `beginTransaction_spec`, `commitTransaction_spec`, `rollbackTransaction_spec`: each operation ends in
  one of these, or fails as any write does;
* `flush_spec`, `setWriteBufferBytes_spec`: the operations that only move arrays to the file;
* `compact_spec`: reclaiming the shared sets no row names.
-/

namespace InfraStore

open Lib Connection

namespace Store

section

set_option linter.unusedSectionVars false

variable {H B : Type} [DecidableEq H] [ArrayBackend H B] [Sha256 H] [LawfulArrayBackend H B]

/-! ### Outcomes -/

/-- A nesting level was opened. -/
structure Begun (s s' : Store H B) : Prop where
  later : Later s.conn s'.conn
  alive : s.transactionWasForcedBack = false
  db : s'.db = s.db
  savepoints : s'.conn.savepoints = s.db :: s.conn.savepoints
  arrays : s'.arrays = s.arrays
  txn : s'.txn = { s.txn with marks := s.txn.written.mark :: s.txn.marks }
  writable : s'.conn.readOnly = false

/-- An inner level was closed: what it did is its enclosing level's. -/
structure Released (s s' : Store H B) : Prop where
  later : Later s.conn s'.conn
  db : s'.db = s.db
  savepoints : ∃ saved, s.conn.savepoints = saved :: s'.conn.savepoints
  arrays : s'.arrays = s.arrays
  inner : 2 ≤ s.txn.marks.length
  txn : s'.txn = { s.txn with marks := s.txn.marks.tail }

/-- The outermost level was closed: the buffer was written out, and then the deferred frees were
applied, each counted against the rows that stay. -/
structure Committed (s s' : Store H B) (garbage : FileObjects H) : Prop where
  later : Later s.conn s'.conn
  db : s'.db = s.db
  savepoints : ∃ saved, s.conn.savepoints = saved :: s'.conn.savepoints
  outermost : s.txn.marks.length = 1
  txn : s'.txn = .empty
  counted : Garbage s.db s.txn.pendingFree garbage
  arrays : ∃ a, s.arrays.Written a ∧ a.Shed s'.arrays garbage ∧
    (s.txn.written.isEmpty = false → ∀ h, (a.buffer.get h).isSome → h ∈ garbage.arrays)

/-- The innermost level's rows were taken back, and the level is still open: the statement that was to
close it failed. -/
structure Rewound (s s' : Store H B) : Prop where
  failed : s.conn.faults.headD .none = .none ∧ s.conn.faults.tail.headD .none = .fails
  later : Later s.conn s'.conn
  savepoints : s'.conn.savepoints = s.conn.savepoints
  db : s.conn.savepoints.head? = some s'.db
  arrays : s'.arrays = s.arrays
  txn : s'.txn = s.txn

/-- Of the objects `w`, written by rows that are gone, some were removed: none is buffered any more,
and unless a statement of the count fails only those that `db` names are left to remove. -/
structure Reclaimed (s s' : Store H B) (db : Catalog H) (w : FileObjects H) (removed : FileObjects H) :
    Prop where
  shed : s.arrays.Shed s'.arrays removed
  subset {h : H} : h ∈ removed.arrays → h ∈ w.arrays
  subsetAxis {t : H} : t ∈ removed.timestamps → t ∈ w.timestamps
  unbuffered {h : H} : h ∈ w.arrays → s'.arrays.buffer.get h = none
  complete {h : H} : s.conn.Calm → s.conn.readOnly = false → h ∈ w.arrays → ¬ db.References h →
    h ∈ removed.arrays
  completeAxis {t : H} : s.conn.Calm → s.conn.readOnly = false → t ∈ w.timestamps →
    db.referencesTimestamps t = false → t ∈ removed.timestamps

theorem Rewound.not_calm {s s' : Store H B} (h : Rewound s s') : ¬ s.conn.Calm := by
  intro hc
  have := h.failed.2
  rw [show s.conn.faults = [] from hc] at this
  cases this

/-- The innermost level was rolled back: its rows are gone, and what it wrote was reclaimed.  The
engine may since have rolled back the levels around it. -/
structure Unwound (s s' : Store H B) (mark : Mark) (outer : List Mark) (saved : Catalog H)
    (rest : List (Catalog H)) (removed : FileObjects H) : Prop where
  later : Later s.conn s'.conn
  marks : s.txn.marks = mark :: outer
  savepoints : s.conn.savepoints = saved :: rest
  restored : (s'.conn.savepoints = rest ∧ s'.db = saved) ∨
    (Fault.rollsBack ∈ s.conn.faults ∧ s'.conn.savepoints = [] ∧ rest.getLast? = some s'.db)
  txn : s'.txn = if outer = [] then .empty else
    { s.txn with marks := outer, written := s.txn.written.upTo mark, sharedSets := .empty }
  reclaimed : Reclaimed s s' saved (s.txn.written.since mark) removed

/-- Every level of a transaction the engine had rolled back was dropped, and what they wrote was
reclaimed. -/
structure Discarded (s s' : Store H B) (removed : FileObjects H) : Prop where
  later : Later s.conn s'.conn
  forced : s.transactionWasForcedBack = true
  db : s'.db = s.db
  savepoints : s'.conn.savepoints = []
  txn : s'.txn = .empty
  reclaimed : Reclaimed s s' s.db s.txn.written removed

/-! ### Specifications -/

variable {α : Type} [FloatText]

/-- Nothing was written but for arrays moved to the file, and no row changed, unless the engine rolled
the transaction back. -/
structure Stalled (s s' : Store H B) : Prop where
  wrote : Wrote s s' .empty .empty
  catalog : (s'.conn.savepoints = s.conn.savepoints ∧ s'.db = s.db) ∨ RolledBack s.conn s'.conn

/-- A failure that only touched the catalog. -/
theorem CatalogOnly.stalled {s s' : Store H B} {P : α → Catalog H → Prop} {e : TimeSeriesError}
    (hs : s.Sound) (h : CatalogOnly s P (.error e) s') : Stalled s s' :=
  ⟨h.failed.wrote hs fun _ _ h => h.elim, h.2.2.2⟩

/-- An open transaction, when the engine has not taken it back. -/
theorem checkTransactionAlive_spec {s : Store H B} :
    (checkTransactionAlive (B := B)).wp
      (fun r s' => s' = s ∧ (r.isOk = true ↔ s.transactionWasForcedBack = false)) s := by
  unfold checkTransactionAlive
  rw [Cmd.wp_bind, Cmd.wp_get]
  simp only
  split
  · rename_i h
    rw [Cmd.wp_throw]
    simp [h, Except.isOk, Except.toBool]
  · rename_i h
    rw [Cmd.wp_pure]
    simp [h, Except.isOk, Except.toBool]

/-- **Opening a level.** -/
theorem beginTransaction_spec {s : Store H B} (hs : s.Sound) :
    (beginTransaction (B := B)).wp
      (fun r s' => match r with
        | .ok _ => Begun s s'
        | .error _ => Stalled s s') s := by
  unfold beginTransaction
  rw [Cmd.wp_bind]
  refine Cmd.wp_mono checkTransactionAlive_spec ?_
  rintro r s₁ ⟨rfl, hr⟩
  rcases r with e | u
  · exact CatalogOnly.stalled (α := Unit) (P := fun _ _ => False) hs (catalogOnly_throw e)
  have halive := hr.mp rfl
  simp only [Cmd.wp_bind, onConn, Cmd.wp_zoom]
  refine Cmd.wp_mono (savepoint_outcome s₁.conn) ?_
  rintro r c ⟨hl, hc⟩
  rcases r with e | u
  · exact CatalogOnly.stalled (e := e) (P := fun (_ : Unit) _ => False) hs ⟨rfl, rfl, hl, hc⟩
  · obtain ⟨hsp, hdb, hro⟩ := hc
    exact ⟨hl, halive, hdb, hsp, rfl, rfl, hro⟩

/-- A statement that drives a transaction, unless the store is read-only. -/
theorem executeTxnStmt_spec {s : Store H B} {work : StoreCmd (Connection H) Unit}
    {Q : Result Unit → Connection H → Prop} (h : s.conn.readOnly = false → work.wp Q s.conn)
    (hro : ∀ e, Q (.error e) s.conn) :
    (executeTxnStmt (B := B) work).wp
      (fun r s' => s'.arrays = s.arrays ∧ s'.txn = s.txn ∧ Q r s'.conn ∧
        (r.isOk = true → s.conn.readOnly = false)) s := by
  unfold executeTxnStmt
  rw [Cmd.wp_bind, Cmd.wp_get]
  simp only
  split
  · exact ⟨rfl, rfl, hro _, fun h => by cases h⟩
  · rename_i hn
    have hf := Bool.eq_false_iff.mpr hn
    simp only [onConn, Cmd.wp_zoom]
    exact Cmd.wp_mono (h hf) fun _ _ h => ⟨trivial, trivial, h, fun _ => hf⟩

theorem innermostLevel_spec {s : Store H B} :
    (innermostLevel (B := B)).wp (fun r s' => s' = s ∧ match r with
      | .ok level => s.txn.marks.length = level + 1
      | .error _ => True) s := by
  unfold innermostLevel
  rw [Cmd.wp_bind, Cmd.wp_get]
  simp only
  split
  · exact ⟨rfl, trivial⟩
  · rename_i h
    refine ⟨rfl, ?_⟩
    show s.txn.marks.length = s.txn.marks.length - 1 + 1
    omega

/-- Writing the transaction's arrays to the file. -/
theorem flushWritten_spec {s : Store H B} (hs : s.arrays.Valid) (garbage : FileObjects H) :
    (flushWritten (B := B) garbage).wp
      (fun r s' => s'.conn = s.conn ∧ s'.txn = s.txn ∧ s.arrays.Written s'.arrays ∧
        (r.isOk = true → s.txn.written.isEmpty = false →
          ∀ h, (s'.arrays.buffer.get h).isSome → h ∈ garbage.arrays)) s := by
  unfold flushWritten
  rw [Cmd.wp_bind, Cmd.wp_get]
  simp only
  split
  · rename_i he
    exact ⟨rfl, rfl, .refl hs, fun _ h => by rw [he] at h; cases h⟩
  · simp only [Cmd.wp_bind, onArrays, Cmd.wp_zoom]
    refine Cmd.wp_mono (ArrayStore.writeAllExcept_spec hs garbage.arrays) ?_
    rintro r a ⟨hw, hrest⟩
    rcases r with e | u
    · exact ⟨trivial, trivial, hw, fun h => by cases h⟩
    · refine Cmd.wp_mono (Staging.flush_written hw.valid) fun r a' hw' =>
        ⟨trivial, trivial, hw.trans hw', fun _ _ h hh => hrest u rfl h (hw'.buffered hw.valid hh)⟩

/-- Arrays that were only written out, and a catalog that failed or stayed as it was. -/
theorem wrote_of_written {s s' : Store H B} (hs : s.Sound) (ha : s.arrays.Written s'.arrays)
    (ht : s'.txn = s.txn) {r : Result Unit}
    (ho : Outcome s.conn (fun _ db => db = s.db) (· = s.db) r s'.conn) :
    Wrote s s' .empty .empty := by
  refine .of_catalog hs (.of_written hs.valid ha) (Or.inl ht) ho (fun hb => ?_)
    (fun _ db h => by rw [h]; exact .of_rows rfl fun f hf => hf)
    fun db hdb => by rw [hdb]; exact ⟨rfl, fun f hf => hf⟩
  rcases r with e | u
  · exact ho.2.elim And.right fun h => (not_forced_of_rolledBack h hb).elim
  · exact ho.2.2

theorem stalled_of_written {s s' : Store H B} (hs : s.Sound) (ha : s.arrays.Written s'.arrays)
    (ht : s'.txn = s.txn) {r : Result Unit}
    (ho : Outcome s.conn (fun _ db => db = s.db) (· = s.db) r s'.conn) : Stalled s s' := by
  refine ⟨wrote_of_written hs ha ht ho, ?_⟩
  rcases r with e | u
  · exact ho.2
  · exact Or.inl ho.2

/-- **Closing a level.** -/
theorem commitTransaction_spec {s : Store H B} (hs : s.Sound) :
    (commitTransaction (B := B)).wp
      (fun r s' => match r with
        | .ok _ => Released s s' ∨ ∃ garbage, Committed s s' garbage
        | .error _ => Stalled s s') s := by
  have hfail : ∀ {s' : Store H B}, s.arrays.Written s'.arrays → s'.txn = s.txn →
      Outcome s.conn (fun (_ : Unit) db => db = s.db) (· = s.db)
        (.error .readOnlyStore) s'.conn → Stalled s s' :=
    fun ha ht ho => stalled_of_written hs ha ht ho
  unfold commitTransaction
  rw [Cmd.wp_bind]
  refine Cmd.wp_mono innermostLevel_spec ?_
  rintro r s₁ ⟨rfl, hlevel⟩
  rcases r with e | level
  · exact hfail (.refl hs.valid) rfl ⟨Later.refl _, Or.inl ⟨rfl, rfl⟩⟩
  simp only [Cmd.wp_bind]
  refine Cmd.wp_mono checkTransactionAlive_spec ?_
  rintro r s₂ ⟨rfl, hr⟩
  rcases r with e | u
  · exact hfail (.refl hs.valid) rfl ⟨Later.refl _, Or.inl ⟨rfl, rfl⟩⟩
  simp only
  split
  · -- an inner level
    rename_i hpos
    rw [Cmd.wp_bind]
    refine Cmd.wp_mono (executeTxnStmt_spec (fun _ => release_outcome s₂.conn)
      fun e => ⟨Later.refl _, Or.inl ⟨rfl, rfl⟩⟩) ?_
    rintro r s₃ ⟨ha, ht, ⟨hl, hc⟩, -⟩
    rcases r with e | u
    · exact hfail (by rw [ha]; exact .refl hs.valid) ht ⟨hl, hc⟩
    · refine Or.inl ⟨hl, hc.1, hc.2, ha, by omega, ?_⟩
      show ({ s₃.txn with marks := s₃.txn.marks.tail } : OpenTxn H) = _
      rw [ht]
  · -- the outermost one
    rename_i hpos
    rw [Cmd.wp_bind, Cmd.wp_get]
    simp only [Cmd.wp_bind]
    refine Cmd.wp_mono (catalogOnly_onConn (unreferenced_outcome s₂.txn.pendingFree s₂.conn)) ?_
    rintro r s₃ ⟨ha₃, ht₃, hl₃, ho₃⟩
    rcases r with e | garbage
    · exact hfail (by rw [ha₃]; exact .refl hs.valid) ht₃ ⟨hl₃, ho₃⟩
    obtain ⟨hsp₃, hdb₃, hgarbage⟩ := ho₃
    refine Cmd.wp_mono (flushWritten_spec (by rw [ha₃]; exact hs.valid) garbage) ?_
    rintro r s₄ ⟨hc₄, ht₄, hw₄, hrest⟩
    rw [ha₃] at hw₄
    rcases r with e | u
    · exact hfail hw₄ (ht₄.trans ht₃) (by rw [hc₄]; exact ⟨hl₃, Or.inl ⟨hsp₃, hdb₃⟩⟩)
    refine Cmd.wp_mono (executeTxnStmt_spec (fun _ => release_outcome s₄.conn)
      fun e => ⟨Later.refl _, Or.inl ⟨rfl, rfl⟩⟩) ?_
    rintro r s₅ ⟨ha₅, ht₅, ⟨hl₅, hc₅⟩, -⟩
    rw [hc₄] at hl₅ hc₅
    rcases r with e | u
    · refine hfail (by rw [ha₅]; exact hw₄) (ht₅.trans (ht₄.trans ht₃)) ⟨hl₃.trans hl₅, ?_⟩
      rcases hc₅ with h | h
      · exact Or.inl ⟨h.1.trans hsp₃, h.2.trans hdb₃⟩
      · exact Or.inr ⟨hl₃.faults.mem h.fault, by rw [← hsp₃]; exact h.saved, h.savepoints⟩
    · simp only [modifyTxn, onArrays, Cmd.wp_modify, Cmd.wp_zoom]
      refine Cmd.wp_mono (removeWrites_spec (by rw [ha₅]; exact hw₄.valid) garbage) ?_
      rintro r a ⟨hr, hshed⟩
      rcases r with e | u
      · cases hr
      rw [ha₅] at hshed
      refine Or.inr ⟨garbage, hl₃.trans hl₅, hc₅.1.trans hdb₃, ?_, by omega, rfl, hgarbage,
        s₄.arrays, hw₄, hshed, fun hw => hrest rfl (by rw [ht₃]; exact hw)⟩
      rw [← hsp₃]
      exact hc₅.2

/-- **Reclaiming what a level wrote**, counted against the catalog as it now stands. -/
theorem unwindWritten_spec {s : Store H B} (hs : s.arrays.Valid) (w : FileObjects H) :
    (unwindWritten (B := B) w).wp
      (fun r s' => r.isOk = true ∧ s'.txn = s.txn ∧ Later s.conn s'.conn ∧
        ((s'.conn.savepoints = s.conn.savepoints ∧ s'.db = s.db) ∨ RolledBack s.conn s'.conn) ∧
        ∃ removed, Reclaimed s s' s.db w removed) s := by
  obtain ⟨dropped, hshed, hd, hstored, hcover, hunbuf⟩ := retainStored_spec w.arrays hs
  unfold unwindWritten
  simp only [Cmd.wp_bind, Cmd.wp_get, Cmd.wp_set, Cmd.wp_attempt, onConn, Cmd.wp_zoom]
  have hcount := Cmd.wp_and (unreferenced_outcome
      ⟨(retainStored w.arrays s.arrays.buffer).1, w.timestamps⟩ s.conn)
    (show ((unreferenced ⟨(retainStored w.arrays s.arrays.buffer).1, w.timestamps⟩).wp
      (fun r _ => s.conn.Calm → s.conn.readOnly = false → r.isOk = true) s.conn) from
      fun hc hw => unreferenced_calm _ hc hw)
  refine Cmd.wp_mono hcount ?_
  rintro r c ⟨⟨hl, ho⟩, hcalm⟩
  rcases r with e | garbage
  · refine ⟨rfl, rfl, hl, ho, ⟨dropped, []⟩, hshed, fun h => hd _ h,
      fun h => (List.not_mem_nil h).elim, fun h => hunbuf _ h, fun h1 h2 => ?_, fun h1 h2 => ?_⟩ <;>
    · have := hcalm h1 h2
      cases this
  · obtain ⟨hsp, hdb, hg⟩ := ho
    simp only [onArrays, Cmd.wp_zoom]
    refine Cmd.wp_mono (removeWrites_spec hshed.valid garbage) ?_
    rintro r a ⟨hr, hshed'⟩
    refine ⟨hr, trivial, hl, Or.inl ⟨hsp, hdb⟩, _, hshed.trans hshed', fun {h} hh => ?_, fun {t} ht => ?_,
      fun {h} hh => ?_, fun {h} _ _ hh hn => ?_, fun {t} _ _ ht hn => ?_⟩
    · rcases FileObjects.mem_append_arrays.mp hh with hh | hh
      · exact hd h hh
      · exact hstored h ((hg.arrays h).mp hh).1
    · rcases FileObjects.mem_append_timestamps.mp ht with ht | ht
      · exact (List.not_mem_nil ht).elim
      · exact ((hg.timestamps t).mp ht).1
    · show a.buffer.get h = none
      rw [hshed'.buffered]
      split
      · rfl
      · exact hunbuf h hh
    · rw [FileObjects.mem_append_arrays]
      rcases hcover h hh with c | c
      · exact Or.inl c
      · exact Or.inr ((hg.arrays h).mpr ⟨c, hn⟩)
    · rw [FileObjects.mem_append_timestamps]
      exact Or.inr ((hg.timestamps t).mpr ⟨ht, hn⟩)

/-- How a rollback may end. -/
def RollbackOutcome (s : Store H B) (r : Result Unit) (s' : Store H B) : Prop :=
  (∃ removed, r.isOk = true ∧ Discarded s s' removed) ∨
  (∃ mark outer saved rest removed, Unwound s s' mark outer saved rest removed ∧
    (r.isOk = true ↔ s'.transactionWasForcedBack = false)) ∨
  (r.isOk = false ∧ (Rewound s s' ∨ Stalled s s'))

/-- How the two statements of a rollback leave a connection: at what the innermost savepoint saved, or,
where one of them failed, at what it was, at what the savepoint saved, or taken back by the engine. -/
def RollbackStatements (start : Connection H) : Result Unit → Connection H → Prop
  | .ok _, c => ∃ saved, start.savepoints = saved :: c.savepoints ∧ c.db = saved
  | .error _, c =>
    (c.savepoints = start.savepoints ∧
      (c.db = start.db ∨ (start.faults.headD .none = .none ∧ start.faults.tail.headD .none = .fails) ∧
        start.savepoints.head? = some c.db)) ∨
      RolledBack start c

/-- **Rolling a level back.** -/
theorem rollbackTransaction_spec {s : Store H B} (hs : s.Sound) :
    (rollbackTransaction (B := B)).wp (RollbackOutcome s) s := by
  have hfail : ∀ {e : TimeSeriesError} {s' : Store H B}, s'.arrays = s.arrays → s'.txn = s.txn →
      Outcome s.conn (fun (_ : Unit) db => db = s.db) (· = s.db)
        (.error .readOnlyStore) s'.conn → RollbackOutcome s (.error e) s' := fun ha ht ho =>
    Or.inr (Or.inr ⟨rfl, Or.inr (stalled_of_written hs (by rw [ha]; exact .refl hs.valid) ht ho)⟩)
  unfold rollbackTransaction
  rw [Cmd.wp_bind]
  refine Cmd.wp_mono innermostLevel_spec ?_
  rintro r s₁ ⟨rfl, hlevel⟩
  rcases r with e | level
  · exact hfail rfl rfl ⟨Later.refl _, Or.inl ⟨rfl, rfl⟩⟩
  simp only [Cmd.wp_bind, Cmd.wp_get]
  split
  · -- the engine has rolled the transaction back already
    rename_i hforced
    simp only [modifyTxn, Cmd.wp_bind, Cmd.wp_modify]
    refine Cmd.wp_mono (unwindWritten_spec (s := { s₁ with txn := .empty }) hs.valid s₁.txn.written) ?_
    rintro r s' ⟨hr, ht, hl, hc, removed, hrec⟩
    have hauto : s₁.conn.savepoints = [] := by
      have := hforced
      unfold transactionWasForcedBack inAutocommit at this
      rw [Bool.and_eq_true, List.isEmpty_iff] at this
      exact this.2
    have hsame : s'.conn.savepoints = s₁.conn.savepoints ∧ s'.db = s₁.db := by
      rcases hc with h | h
      · exact h
      · have := h.saved
        rw [show ({ s₁ with txn := OpenTxn.empty } : Store H B).conn.savepoints = [] from hauto] at this
        cases this
    exact Or.inl ⟨removed, hr, hl, hforced, hsame.2, hsame.1.trans hauto, ht, hrec.shed, hrec.subset,
      hrec.subsetAxis, hrec.unbuffered, hrec.complete, hrec.completeAxis⟩
  · rename_i hforced
    rw [Cmd.wp_bind]
    refine Cmd.wp_mono (executeTxnStmt_spec
      (Q := fun r c => Later s₁.conn c ∧ RollbackStatements s₁.conn r c)
      (fun _ => ?_) fun e => ⟨Later.refl _, Or.inl ⟨rfl, Or.inl rfl⟩⟩) ?_
    · rw [Cmd.wp_bind]
      refine Cmd.wp_mono (Cmd.wp_and (rollbackTo_outcome s₁.conn) (rollbackTo_ran s₁.conn)) ?_
      rintro r c ⟨⟨hl, hc⟩, hran⟩
      rcases r with e | u
      · exact ⟨hl, hc.imp_left fun h => ⟨h.1, Or.inl h.2⟩⟩
      obtain ⟨hfirst, hrest⟩ := hran rfl
      refine Cmd.wp_mono (Cmd.wp_and (release_outcome c) (release_failed c)) ?_
      rintro r c' ⟨⟨hl', hc'⟩, hfailed⟩
      rcases r with e | u
      · refine ⟨hl.trans hl', ?_⟩
        rcases hc' with ⟨h1, h2⟩ | h
        · have hsecond := hfailed rfl h1 fun hn => by rw [← hc.1, hn] at hc; cases hc.2
          rw [hrest] at hsecond
          exact Or.inl ⟨h1.trans hc.1, Or.inr ⟨⟨hfirst, hsecond⟩, by rw [h2]; exact hc.2⟩⟩
        · exact Or.inr ⟨hl.faults.mem h.fault, by rw [← hc.1]; exact h.saved, h.savepoints⟩
      · obtain ⟨hdb, saved, hsp⟩ := hc'
        rw [hc.1] at hsp
        have hhead := hc.2
        rw [hsp] at hhead
        exact ⟨hl.trans hl', saved, hsp, hdb.trans (Option.some.inj hhead).symm⟩
    · rintro r s₂ ⟨ha, ht, ⟨hl, hc⟩, hro⟩
      rcases r with e | u
      · rcases hc with ⟨hsp, hdb | hdb⟩ | h
        · exact hfail ha ht ⟨hl, Or.inl ⟨hsp, hdb⟩⟩
        · exact Or.inr (Or.inr ⟨rfl, Or.inl ⟨hdb.1, hl, hsp, hdb.2, ha, ht⟩⟩)
        · exact hfail ha ht ⟨hl, Or.inr h⟩
      obtain ⟨saved, hsp, hdb⟩ := hc
      rcases hm : s₁.txn.marks with _ | ⟨mark, outer⟩
      · rw [hm] at hlevel
        cases hlevel
      simp only [invalidateSharedSets, modifyTxn, Cmd.wp_modify, Cmd.wp_bind, Cmd.wp_get]
      have hunwind : ({ s₂.txn with sharedSets := .empty } : OpenTxn H).unwind =
          (s₁.txn.written.since mark, if outer = [] then .empty else
            { s₁.txn with marks := outer, written := s₁.txn.written.upTo mark, sharedSets := .empty }) := by
        unfold OpenTxn.unwind
        rw [ht, hm]
      rw [hunwind]
      refine Cmd.wp_mono (unwindWritten_spec (by rw [ha]; exact hs.valid) _) ?_
      rintro r s₃ ⟨hr, ht₃, hl₃, hc₃, removed, hrec⟩
      rcases r with e | u
      · cases hr
      refine Cmd.wp_mono checkTransactionAlive_spec ?_
      rintro r s' ⟨rfl, hr'⟩
      have hsaved : s₂.db = saved := hdb
      refine Or.inr (Or.inl ⟨mark, outer, saved, s₂.conn.savepoints, removed,
        ⟨Later.trans hl hl₃, hm, hsp, ?_, ht₃, ?_⟩, hr'⟩)
      · rcases hc₃ with ⟨h1, h2⟩ | h
        · exact Or.inl ⟨h1, h2.trans hdb⟩
        · exact Or.inr ⟨hl.faults.mem h.fault, h.savepoints, h.saved⟩
      · have hfaults : s₁.conn.Calm → s₂.conn.Calm := fun h => Later.calm hl h
        refine ⟨?_, hrec.subset, hrec.subsetAxis, hrec.unbuffered, fun h1 h2 h3 h4 => ?_,
          fun h1 h2 h3 h4 => ?_⟩
        · rw [← ha]
          exact hrec.shed
        · exact hrec.complete (hfaults h1) (hl.readOnly.trans h2) h3 (by
            show ¬ s₂.db.References _
            rw [hsaved]
            exact h4)
        · exact hrec.completeAxis (hfaults h1) (hl.readOnly.trans h2) h3 (by
            show s₂.db.referencesTimestamps _ = false
            rw [hsaved]
            exact h4)

/-! ### Moving arrays to the file -/

/-- A flush moves arrays and reads the catalog. -/
theorem flush_moves {s : Store H B} (hs : s.arrays.Valid) :
    (flush (B := B)).wp (fun _ s' => s'.txn = s.txn ∧ s.arrays.Written s'.arrays ∧
      ∃ r : Result Unit, Outcome s.conn (fun _ db => db = s.db) (· = s.db) r s'.conn) s := by
  unfold flush
  rw [Cmd.wp_bind]
  refine Cmd.wp_mono (catalogOnly_onConn (outcome_query (E := (· = s.db))
    (P := fun (_ : Unit) db => db = s.db) (fun _ _ => rfl) rfl)) ?_
  rintro r s₁ ⟨ha, ht, ho⟩
  rcases r with e | u
  · exact ⟨ht, by rw [ha]; exact .refl hs, .error e, ho⟩
  · simp only [flushArrays, onArrays, Cmd.wp_zoom, Cmd.wp_bind]
    refine Cmd.wp_mono (ArrayStore.writeAllExcept_spec (by rw [ha]; exact hs) []) ?_
    rintro r a ⟨hw, -⟩
    rw [ha] at hw
    rcases r with e | u
    · exact ⟨ht, hw, .ok (), ho⟩
    · exact Cmd.wp_mono (Staging.flush_written hw.valid) fun r a' hw' =>
        ⟨ht, hw.trans hw', .ok (), ho⟩

theorem flush_spec {s : Store H B} (hs : s.Sound) :
    (flush (B := B)).wp (fun _ s' => Stalled s s') s :=
  Cmd.wp_mono (flush_moves hs.valid) fun _ _ ⟨ht, ha, _, ho⟩ => stalled_of_written hs ha ht ho

omit [FloatText] in
/-- Another budget changes nothing that is held. -/
theorem setBudget_written {a : ArrayStore H B} (ha : a.Valid) (bytes : ℕ) :
    a.Written ⟨{ a.buffer with maxBytes := bytes }, a.backend⟩ := by
  obtain ⟨hi, hget⟩ : ({ a.buffer with maxBytes := bytes } : WriteBuffer H).Indexed ∧ _ :=
    ha.indexed.congr rfl rfl
  refine ⟨⟨ha.backend, hi, fun e e' => ha.agree (by rw [← hget]; exact e) e'⟩,
    fun hQ => ⟨hQ.backend, fun e => hQ.disjoint (by rw [← hget]; exact e)⟩, rfl, ?_, fun e => ⟨_, e⟩⟩
  funext h
  unfold ArrayStore.content
  rw [hget]

theorem setWriteBufferBytes_spec {s : Store H B} (hs : s.Sound) (bytes : ℕ) :
    (setWriteBufferBytes (B := B) bytes).wp (fun _ s' => Stalled s s') s := by
  have hrefl : Outcome s.conn (fun (_ : Unit) db => db = s.db) (· = s.db) (.ok ()) s.conn :=
    ⟨Later.refl _, rfl, rfl⟩
  unfold setWriteBufferBytes
  split
  · exact stalled_of_written hs (.refl hs.valid) rfl hrefl
  · simp only [onArrays, Cmd.wp_zoom, Cmd.wp_bind, ArrayStore.modifyBuffer, Cmd.wp_modify]
    have hw := setBudget_written hs.valid bytes
    exact Cmd.wp_mono (ArrayStore.evictOverBudget_spec hw.valid) fun _ a hw' =>
      stalled_of_written hs (hw.trans hw') rfl hrefl

/-! ### Compacting -/

/-- **Reclaiming what no row names**, outside a transaction: time axes go, and the rows stay. -/
theorem Wrote.of_sweep {s s' : Store H B} (hs : s.Sound) (hi : s.inTransaction = false)
    (hl : Later s.conn s'.conn) (hsp : s'.conn.savepoints = s.conn.savepoints)
    (htxn : s'.txn = .empty) {a : ArrayStore H B} (ha : s.arrays.Written a)
    {removed : FileObjects H} (hshed : a.Shed s'.arrays removed) (hnone : removed.arrays = [])
    (hunnamed : ∀ t ∈ removed.timestamps, s'.db.referencesTimestamps t = false)
    (hrows : s'.db.rows = s.db.rows) : Wrote s s' .empty .empty := by
  have hidle := hs.idle hi
  obtain ⟨hrefs, haxes⟩ := references_congr hrows
  have hcontent : ∀ x, s'.arrays.content x = s.arrays.content x := fun x => by
    rw [hshed.kept (by rw [hnone]; exact List.not_mem_nil), ha.content]
  have hlost : ∀ {p : Prop}, s.transactionWasForcedBack = true → p := fun h => by
    unfold transactionWasForcedBack at h
    rw [hi] at h
    cases h
  refine ⟨hl, Or.inl hsp, hlost, ?_, ?_, ?_, fun _ => htxn, hshed.valid,
    fun hq => hshed.quiet (ha.quiet hq), fun e => Or.inl ((hcontent _).trans e),
    fun e => (List.not_mem_nil e).elim, fun e => Or.inl (by rw [← hcontent]; exact e), fun e => ?_,
    fun {t ms} e => ?_, fun e => (List.not_mem_nil e).elim, fun e => Or.inl ?_, fun x hx => ?_,
    fun _ e => Or.inl ((hrefs _).mp e), fun _ e => Or.inl ((haxes _).mp e), fun _ e => ?_,
    fun _ e => Or.inl (by rw [← hcontent]; exact e), fun e => (List.not_mem_nil e).elim,
    fun _ e => Or.inl ((hrefs _).mpr e), fun {t} _ e => Or.inl ?_, fun e => (List.not_mem_nil e).elim,
    Or.inr (Or.inl (by rw [htxn]; rfl))⟩
  · rw [htxn, hidle.1]
  · rw [htxn, hidle.1]
    rfl
  · rw [htxn, hidle.1]
    rfl
  · exact Or.inl (ha.buffered hs.valid (hshed.unbuffered e).1)
  · rw [← ha.vector] at e
    rcases hshed.lessAxis t with c | c
    · exact Or.inl (c.trans e)
    · by_cases hm : t ∈ removed.timestamps
      · exact Or.inr ⟨hi, c, hunnamed t hm⟩
      · exact Or.inl ((hshed.keptAxis hm).trans e)
  · rw [← ha.vector]
    exact hshed.originAxis e
  · rw [htxn] at hx
    exact (List.not_mem_nil hx).elim
  · unfold Catalog.Axed
    rw [hrows]
    exact e
  · obtain ⟨ms, hms⟩ := Option.isSome_iff_exists.mp e
    rw [← ha.vector, hshed.originAxis hms]
    rfl

/-- Removing time axes in turn, until one fails. -/
theorem removeVectors_shed (ts : List H) : ∀ {s : ArrayStore H B}, s.Valid →
    (ts.forM fun t => ArrayStore.onBackend (ArrayBackend.removeTimestamps t) :
      StoreCmd (ArrayStore H B) Unit).wp
      (fun _ s' => ∃ removed, s.Shed s' removed ∧ removed.arrays = [] ∧
        ∀ t ∈ removed.timestamps, t ∈ ts) s := by
  induction ts with
  | nil => exact fun hs => ⟨.empty, .refl hs, rfl, fun _ h => (List.not_mem_nil h).elim⟩
  | cons t ts ih =>
    intro s hs
    rw [Cmd.wp_forM_cons]
    refine Cmd.wp_mono ((Cmd.wp_attempt _ _ _).mp (ArrayStore.removeTimestamps_shed hs t)) ?_
    rintro r s₁ ⟨-, h₁⟩
    rcases r with e | u
    · exact ⟨_, h₁, rfl, fun t' h => by rw [List.mem_singleton.mp h]; exact List.mem_cons_self⟩
    · refine Cmd.wp_mono (ih h₁.valid) ?_
      rintro r s₂ ⟨removed, h₂, hnone, hsub⟩
      refine ⟨_, h₁.trans h₂, by unfold FileObjects.append; rw [hnone]; rfl, fun t' h => ?_⟩
      rcases FileObjects.mem_append_timestamps.mp h with h | h
      · rw [List.mem_singleton.mp h]
        exact List.mem_cons_self
      · exact List.mem_cons_of_mem _ (hsub t' h)

/-- **Compacting.** -/
theorem compact_spec {s : Store H B} (hs : s.Sound) :
    (compact (B := B)).wp (fun _ s' => Wrote s s' .empty .empty ∧ Later s.conn s'.conn ∧
      (s'.db = s.db ∨ s.inTransaction = false ∧ s'.db = s.db.sweepOrphanFeatureSets)) s := by
  have hrefl : Outcome s.conn (fun (_ : Unit) db => db = s.db) (· = s.db) (.ok ()) s.conn :=
    ⟨Later.refl _, rfl, rfl⟩
  have hself : Wrote s s .empty .empty := wrote_of_written hs (.refl hs.valid) rfl hrefl
  unfold compact refuseInTransaction
  simp only [Cmd.wp_bind, Cmd.wp_get]
  split
  · exact ⟨hself, Later.refl _, Or.inl rfl⟩
  simp only [Cmd.wp_bind, Cmd.wp_get]
  split
  · exact ⟨hself, Later.refl _, Or.inl rfl⟩
  rename_i hnot
  have hi : s.inTransaction = false := by simpa using hnot
  obtain ⟨htxn, hsp, -⟩ := hs.idle hi
  simp only [Cmd.wp_pure]
  -- with no savepoint open there is nothing for the engine to take back
  have hstay : ∀ {c : Connection H}, ¬ RolledBack s.conn c := fun h => by
    have := h.saved
    rw [hsp] at this
    cases this
  refine Cmd.wp_mono (flush_moves hs.valid) ?_
  rintro r s₁ ⟨ht₁, ha₁, r₁, ho₁⟩
  have hc₁ : Later s.conn s₁.conn ∧ s₁.conn.savepoints = s.conn.savepoints ∧ s₁.db = s.db := by
    refine ⟨ho₁.1, ?_⟩
    rcases r₁ with e | u
    · exact ho₁.2.resolve_right hstay
    · exact ho₁.2
  obtain ⟨hl₁, hsp₁, hdb₁⟩ := hc₁
  rcases r with e | u
  · exact ⟨wrote_of_written hs ha₁ ht₁ ho₁, hl₁, Or.inl hdb₁⟩
  simp only [invalidateSharedSets, modifyTxn, Cmd.wp_modify]
  have htxn₂ : ({ s₁.txn with sharedSets := .empty } : OpenTxn H) = .empty := by
    rw [ht₁, htxn]
    rfl
  refine Cmd.wp_mono (writeCatalog_spec (E := fun _ => True)
    (P := fun _ db => db = s.db.sweepOrphanFeatureSets) fun c _ hc => ?_) ?_
  · exact outcome_statement (fun _ db h => by
      cases h
      rw [hc]
      exact congrArg _ hdb₁) trivial
  rintro r s₂ ⟨ha₂, ht₂, ho₂⟩
  rw [htxn₂] at ht₂
  have hl₂ : Later s.conn s₂.conn := Later.trans hl₁ ho₂.1
  have hw₂ : s.arrays.Written s₂.arrays := by
    rw [ha₂]
    exact ha₁
  have hnil₁ : s₁.conn.savepoints = [] := hsp₁.trans hsp
  rcases r with e | u
  · obtain ⟨hsp₂, hdb₂⟩ := ho₂.2.resolve_right fun h => by
      have := h.saved
      rw [show ({ s₁ with txn := _ } : Store H B).conn.savepoints = [] from hnil₁] at this
      cases this
    have hdb : s₂.db = s.db := hdb₂.trans hdb₁
    exact ⟨.of_sweep hs hi hl₂ (hsp₂.trans hsp₁) ht₂ hw₂ (.refl hw₂.valid) rfl
      (fun _ h => (List.not_mem_nil h).elim) (congrArg _ hdb), hl₂, Or.inl hdb⟩
  · obtain ⟨hsp₂, -, hdb₂⟩ := ho₂.2
    have hdone : ∀ (a : ArrayStore H B) (removed : FileObjects H) (c : Connection H),
        s₂.arrays.Shed a removed → removed.arrays = [] →
        (∀ t ∈ removed.timestamps, c.db.referencesTimestamps t = false) → Later s₂.conn c →
        c.savepoints = s₂.conn.savepoints → c.db = s₂.db →
        Wrote s { s₂ with arrays := a, conn := c } .empty .empty ∧ Later s.conn c ∧
          (c.db = s.db ∨ s.inTransaction = false ∧ c.db = s.db.sweepOrphanFeatureSets) := by
      intro a removed c hshed hnone hun hl hc hdb
      have hdb' : c.db = s.db.sweepOrphanFeatureSets := hdb.trans hdb₂
      exact ⟨.of_sweep hs hi (hl₂.trans hl) (hc.trans (hsp₂.trans hsp₁)) ht₂ hw₂ hshed hnone hun
        (show c.db.rows = _ by rw [hdb']; rfl), hl₂.trans hl, Or.inr ⟨hi, hdb'⟩⟩
    unfold sweepOrphanTimestampVectors
    simp only [Cmd.wp_bind]
    refine Cmd.wp_mono (orphanedTimestampVectors_spec s₂) ?_
    rintro r s₃ ⟨ha₃, ht₃, ho₃⟩
    have hnil₂ : s₂.conn.savepoints = [] := hsp₂.trans hnil₁
    have hback : ∀ {c : Connection H}, ¬ RolledBack s₂.conn c := fun h => by
      have := h.saved
      rw [hnil₂] at this
      cases this
    have heq : ∀ (s' : Store H B) {a : ArrayStore H B}, s'.txn = s₂.txn → s'.arrays = a →
        ({ s₂ with arrays := a, conn := s'.conn } : Store H B) = s' := by
      rintro ⟨c', a', t'⟩ a ht rfl
      simp only at ht
      rw [ht]
    rcases r with e | orphans
    · obtain ⟨h1, h2⟩ := ho₃.2.resolve_right hback
      have := hdone s₂.arrays .empty s₃.conn (.refl hw₂.valid) rfl
        (fun _ h => (List.not_mem_nil h).elim) ho₃.1 h1 h2
      rw [heq s₃ ht₃ ha₃] at this
      exact this
    · obtain ⟨h1, h2, hun⟩ := ho₃.2
      simp only [onArrays, Cmd.wp_zoom]
      refine Cmd.wp_mono (removeVectors_shed orphans (by rw [ha₃]; exact hw₂.valid)) ?_
      rintro r a ⟨removed, hshed, hnone, hsub⟩
      rw [ha₃] at hshed
      have := hdone a removed s₃.conn hshed hnone (fun t ht => by
        rw [show s₃.conn.db = s₂.db from h2]
        exact hun t (hsub t ht)) ho₃.1 h1 h2
      rw [heq { s₃ with arrays := a } ht₃ rfl] at this
      rcases r with e | u
      · exact this
      · exact this

end

end Store

end InfraStore
