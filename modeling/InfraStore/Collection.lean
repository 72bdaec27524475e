import InfraStore.CatalogEffects
import InfraStore.Rollback

/-!
# Garbage collection is exact

Where removals do not fail, a run that ends outside a transaction leaves the arrays its rows name and
no others, but for those nothing named when it began.

* `Store.Tidy`: which arrays may be held, now and after any of the ends that may come;
* `Trail`: the time axes the catalog has named at each open level;
* `Store.Traced`: which time axes may be held;
* `collection_exact`: the theorem, for runs whose rollbacks the catalog engine does not fail.
-/

namespace InfraStore

open Lib Connection

/-- The time axes a catalog's rows name. -/
def Catalog.axes {H : Type} (c : Catalog H) : List H := c.rows.filterMap (·.timestampsHash)

section

variable {H : Type}

theorem Catalog.mem_axes [DecidableEq H] {c : Catalog H} {t : H} :
    t ∈ c.axes ↔ c.referencesTimestamps t = true := by
  unfold Catalog.axes Catalog.referencesTimestamps
  rw [List.mem_filterMap, List.any_eq_true]
  simp only [decide_eq_true_eq]

theorem Catalog.NamesAxis.mem_axes {c : Catalog H} {t : H} (h : c.NamesAxis t) : t ∈ c.axes := by
  obtain ⟨r, hr, -, ht⟩ := h
  exact List.mem_filterMap.mpr ⟨r, hr, ht⟩

end

namespace Store

section

set_option linter.unusedSectionVars false

variable {H B : Type} [DecidableEq H] [ArrayBackend H B] [Sha256 H] [FloatText] [ToString H]
  [LawfulArrayBackend H B]

/-! ### Arrays -/

/-- Every array the store holds is one of `U`, or is named by the catalog, or is due to be freed by
the commit; and after each end that may come it will be one of `U`, or named, or reclaimed, or freed. -/
structure Tidy (U : H → Prop) (s : Store H B) : Prop where
  quiet : s.arrays.Quiet
  now {h : H} : s.transactionWasForcedBack = false → (s.arrays.content h).isSome →
    U h ∨ s.db.References h ∨ h ∈ s.txn.pendingFree.arrays
  forced {h : H} : s.transactionWasForcedBack = true → (s.arrays.content h).isSome →
    U h ∨ s.db.References h ∨ h ∈ s.txn.written.arrays
  outermost {c : Catalog H} {h : H} : s.conn.savepoints.getLast? = some c →
    (s.arrays.content h).isSome → U h ∨ c.References h ∨ h ∈ s.txn.written.arrays
  inner {m : Mark} {c : Catalog H} {h : H} : (m, c) ∈ s.txn.marks.zip s.conn.savepoints →
    (s.arrays.content h).isSome →
    U h ∨ c.References h ∨ h ∈ (s.txn.written.since m).arrays ∨ h ∈ s.txn.pendingFree.arrays

theorem forcedBack_iff {s : Store H B} :
    s.transactionWasForcedBack = true ↔ s.txn.marks ≠ [] ∧ s.conn.savepoints = [] := by
  unfold transactionWasForcedBack inAutocommit
  rw [Bool.and_eq_true, List.isEmpty_iff, inTransaction_iff]

theorem not_forcedBack_of_savepoint {s : Store H B} {c : Catalog H} {cs : List (Catalog H)}
    (h : s.conn.savepoints = c :: cs) : s.transactionWasForcedBack = false := by
  rw [← Bool.not_eq_true, forcedBack_iff]
  rintro ⟨-, e⟩
  rw [h] at e
  cases e

theorem not_forcedBack_of_idle {s : Store H B} (h : s.txn = .empty) :
    s.transactionWasForcedBack = false := by
  rw [← Bool.not_eq_true, forcedBack_iff, h]
  exact fun c => c.1 rfl

theorem Tidy.arm {U : H → Prop} {s : Store H B} (h : Tidy U s) (faults : List Fault) :
    Tidy U (s.arm faults) := ⟨h.quiet, h.now, h.forced, h.outermost, h.inner⟩

/-- A write keeps the arrays tidy. -/
theorem Tidy.wrote {U : H → Prop} {s s' : Store H B} {w g : FileObjects H} (ht : Tidy U s)
    (hs : s.Inv) (h : Wrote s s' w g) : Tidy U s' := by
  have hpending : ∀ {x}, x ∈ s.txn.pendingFree.arrays ∨ x ∈ g.arrays → x ∈ s'.txn.pendingFree.arrays := by
    intro x e
    rw [h.pendingFree]
    exact FileObjects.mem_append_arrays.mpr e
  have hwritten : ∀ {x}, x ∈ s.txn.written.arrays ∨ x ∈ w.arrays → x ∈ s'.txn.written.arrays := by
    intro x e
    rw [h.written]
    exact FileObjects.mem_append_arrays.mpr e
  have hidle : ∀ {c : Catalog H}, s.inTransaction = false → s.conn.savepoints.getLast? = some c → False := by
    intro c hi e
    rw [(hs.idle hi).2.1] at e
    cases e
  -- what held arrays are, after an end that brings `c` back
  have hgrown : ∀ {x}, (s'.arrays.content x).isSome → s.inTransaction = true →
      (s.arrays.content x).isSome ∨ x ∈ w.arrays := by
    intro x e hin
    rcases h.grown ht.quiet e with c | c | ⟨c, -⟩
    · exact Or.inl c
    · exact Or.inr c
    · rw [hin] at c
      cases c
  have hlast : ∀ {c x}, s.conn.savepoints.getLast? = some c → (s'.arrays.content x).isSome →
      U x ∨ c.References x ∨ x ∈ s'.txn.written.arrays := by
    intro c x hc e
    have hin : s.inTransaction = true := by
      rw [← Bool.not_eq_false]
      exact fun hi => hidle hi hc
    rcases hgrown e hin with e | e
    · exact (ht.outermost hc e).imp_right (Or.imp_right fun e => hwritten (Or.inl e))
    · exact Or.inr (Or.inr (hwritten (Or.inr e)))
  refine ⟨h.quiet ht.quiet, fun {x} hf e => ?_, fun {x} hf e => ?_, fun {c x} hc e => ?_,
    fun {m c x} hz e => ?_⟩
  · have hsp : s'.conn.savepoints = s.conn.savepoints := by
      rcases h.saved with c | c
      · exact c
      · exfalso
        rw [← Bool.not_eq_true, forcedBack_iff] at hf
        refine hf ⟨?_, c.savepoints⟩
        rw [h.marks]
        rw [← inTransaction_iff, ← Bool.not_eq_false]
        exact fun hi => hidle hi c.saved
    have hf' : s.transactionWasForcedBack = false := by
      rw [← hf]
      unfold transactionWasForcedBack inTransaction inAutocommit
      rw [h.marks, hsp]
    rcases h.grown ht.quiet e with c | c | ⟨-, c⟩
    · rcases ht.now hf' c with c | c | c
      · exact Or.inl c
      · rcases h.dropped hsp c with c | c | ⟨-, c⟩
        · exact Or.inr (Or.inl c)
        · exact Or.inr (Or.inr (hpending (Or.inr c)))
        · rw [c ht.quiet] at e
          cases e
      · exact Or.inr (Or.inr (hpending (Or.inl c)))
    · exact Or.inr (Or.inl (h.used c))
    · exact Or.inr (Or.inl c)
  · rw [forcedBack_iff, h.marks] at hf
    rcases h.saved with c | c
    · have hf' : s.transactionWasForcedBack = true := forcedBack_iff.mpr ⟨hf.1, c.symm.trans hf.2⟩
      rw [h.blocked hf']
      rcases hgrown e (inTransaction_iff.mpr hf.1) with e | e
      · exact (ht.forced hf' e).imp_right (Or.imp_right fun e => hwritten (Or.inl e))
      · exact Or.inr (Or.inr (hwritten (Or.inr e)))
    · exact hlast c.saved e
  · rcases h.saved with c' | c'
    · rw [c'] at hc
      exact hlast hc e
    · rw [c'.savepoints] at hc
      cases hc
  · rcases h.saved with c' | c'
    · rw [c', h.marks] at hz
      obtain ⟨hm, hc⟩ := List.of_mem_zip hz
      have hin : s.inTransaction = true := inTransaction_iff.mpr (List.ne_nil_of_mem hm)
      rw [h.written, FileObjects.since_append ((List.pairwise_cons.mp hs.nested).1 m hm)]
      rcases hgrown e hin with e | e
      · rcases ht.inner hz e with c | c | c | c
        · exact Or.inl c
        · exact Or.inr (Or.inl c)
        · exact Or.inr (Or.inr (Or.inl (FileObjects.mem_append_arrays.mpr (Or.inl c))))
        · exact Or.inr (Or.inr (Or.inr (hpending (Or.inl c))))
      · exact Or.inr (Or.inr (Or.inl (FileObjects.mem_append_arrays.mpr (Or.inr e))))
    · rw [c'.savepoints, List.zip_nil_right] at hz
      exact (List.not_mem_nil hz).elim

/-- Opening a level keeps the arrays tidy. -/
theorem Tidy.begun {U : H → Prop} {s s' : Store H B} (ht : Tidy U s) (hs : s.Inv) (h : Begun s s') :
    Tidy U s' := by
  have hpending : s'.txn.pendingFree = s.txn.pendingFree := by rw [h.txn]
  have hwritten : s'.txn.written = s.txn.written := by rw [h.txn]
  refine ⟨by rw [h.arrays]; exact ht.quiet, fun {x} _ e => ?_, fun {x} hf => ?_, fun {c x} hc e => ?_,
    fun {m c x} hz e => ?_⟩
  · rw [h.arrays] at e
    rw [h.db, hpending]
    exact ht.now h.alive e
  · rw [not_forcedBack_of_savepoint h.savepoints] at hf
    cases hf
  · rw [h.arrays] at e
    rw [hwritten]
    rcases hsp : s.conn.savepoints with _ | ⟨c', cs⟩
    · rw [h.savepoints, hsp, List.getLast?_singleton] at hc
      have hidle : s.inTransaction = false := by
        rw [← Bool.not_eq_true, inTransaction_iff]
        intro hm
        have := forcedBack_iff.mpr ⟨hm, hsp⟩
        rw [h.alive] at this
        cases this
      rcases ht.now h.alive e with e | e | e
      · exact Or.inl e
      · rw [Option.some.inj hc] at e
        exact Or.inr (Or.inl e)
      · rw [(hs.idle hidle).1] at e
        exact (List.not_mem_nil e).elim
    · rw [h.savepoints, hsp, List.getLast?_cons_cons, ← hsp] at hc
      exact ht.outermost hc e
  · rw [h.arrays] at e
    rw [h.txn, h.savepoints, List.zip_cons_cons] at hz
    rw [hwritten, hpending]
    rcases List.mem_cons.mp hz with hz | hz
    · obtain ⟨rfl, rfl⟩ := Prod.mk.inj hz
      exact (ht.now h.alive e).imp_right (Or.imp_right Or.inr)
    · exact ht.inner hz e

/-- Closing an inner level keeps the arrays tidy. -/
theorem Tidy.released {U : H → Prop} {s s' : Store H B} (ht : Tidy U s) (hs : s.Inv)
    (h : Released s s') : Tidy U s' := by
  obtain ⟨saved, hsp⟩ := h.savepoints
  have hlen := (hs.alive_of_savepoint hsp).length_eq
  have hinner := h.inner
  have hpending : s'.txn.pendingFree = s.txn.pendingFree := by rw [h.txn]
  have hwritten : s'.txn.written = s.txn.written := by rw [h.txn]
  have hmarks : s'.txn.marks = s.txn.marks.tail := by rw [h.txn]
  refine ⟨by rw [h.arrays]; exact ht.quiet, fun {x} _ e => ?_, fun {x} hf e => ?_, fun {c x} hc e => ?_,
    fun {m c x} hz e => ?_⟩
  · rw [h.arrays] at e
    rw [h.db, hpending]
    exact ht.now (not_forcedBack_of_savepoint hsp) e
  · rw [forcedBack_iff] at hf
    rw [hsp, hf.2, List.length_singleton] at hlen
    omega
  · rw [h.arrays] at e
    rw [hwritten]
    refine ht.outermost ?_ e
    rw [hsp]
    rcases hs' : s'.conn.savepoints with _ | ⟨c', cs⟩
    · rw [hs'] at hc
      cases hc
    · rw [List.getLast?_cons_cons, ← hs']
      exact hc
  · rw [h.arrays] at e
    rw [hwritten, hpending]
    refine ht.inner ?_ e
    rw [hmarks] at hz
    rcases hm : s.txn.marks with _ | ⟨m', ms⟩
    · rw [hm] at hinner
      simp at hinner
    · rw [hm] at hz
      rw [hsp, List.zip_cons_cons]
      exact List.mem_cons_of_mem _ hz

/-- Closing the outermost level frees what is due, and leaves what is named. -/
theorem Tidy.committed {U : H → Prop} {s s' : Store H B} {garbage : FileObjects H} (ht : Tidy U s)
    (hs : s.Inv) (h : Committed s s' garbage) : Tidy U s' := by
  obtain ⟨saved, hsp⟩ := h.savepoints
  obtain ⟨a, hw, hshed, -⟩ := h.arrays
  have hs' := hs.committed h
  have hsp' : s'.conn.savepoints = [] := (hs'.idle (by
    unfold inTransaction
    rw [h.txn]
    rfl)).2.1
  refine ⟨hshed.quiet (hw.quiet ht.quiet), fun {x} _ e => ?_, fun {x} hf => ?_, fun {c x} hc => ?_,
    fun {m c x} hz => ?_⟩
  · obtain ⟨b, hb⟩ := Option.isSome_iff_exists.mp e
    have hheld := hshed.origin hb
    rw [hw.content] at hheld
    rw [h.db]
    rcases ht.now (not_forcedBack_of_savepoint hsp) (by rw [hheld]; rfl) with c | c | c
    · exact Or.inl c
    · exact Or.inr (Or.inl c)
    · by_cases hr : s.db.References x
      · exact Or.inr (Or.inl hr)
      · rw [hshed.gone (hw.quiet ht.quiet) ((h.counted.arrays x).mpr ⟨c, hr⟩)] at hb
        cases hb
  · rw [not_forcedBack_of_idle h.txn] at hf
    cases hf
  · rw [hsp'] at hc
    cases hc
  · rw [h.txn] at hz
    exact (List.not_mem_nil hz).elim

/-- What is held once a level's writes are reclaimed was held, and is not one of those writes. -/
theorem Reclaimed.remains {s s' : Store H B} {db : Catalog H} {w removed : FileObjects H}
    (h : Reclaimed s s' db w removed) (hq : s.arrays.Quiet) (hc : s.conn.Calm)
    (hro : s.conn.readOnly = false) (ha : Apart db w) {x : H} (e : (s'.arrays.content x).isSome) :
    (s.arrays.content x).isSome ∧ x ∉ w.arrays := by
  obtain ⟨b, hb⟩ := Option.isSome_iff_exists.mp e
  refine ⟨by rw [h.shed.origin hb]; rfl, fun hx => ?_⟩
  rw [h.shed.gone hq (h.complete hc hro hx (ha.array hx))] at hb
  cases hb

/-- Rolling a level back keeps the arrays tidy, when the engine runs its statements. -/
theorem Tidy.unwound {U : H → Prop} {s s' : Store H B} {mark : Mark} {outer : List Mark}
    {saved : Catalog H} {rest : List (Catalog H)} {removed : FileObjects H} (ht : Tidy U s)
    (hs : s.Inv) (hcalm : s.conn.Calm) (h : Unwound s s' mark outer saved rest removed) :
    Tidy U s' := by
  have henc := hs.enclosing h.marks h.savepoints
  have hro : s.conn.readOnly = false := hs.writable (by rw [h.marks]; exact List.cons_ne_nil _ _)
  obtain ⟨hsp', hdb⟩ : s'.conn.savepoints = rest ∧ s'.db = saved := by
    rcases h.restored with e | ⟨e, -⟩
    · exact e
    · rw [show s.conn.faults = [] from hcalm] at e
      exact (List.not_mem_nil e).elim
  have hremains : ∀ {x}, (s'.arrays.content x).isSome →
      (s.arrays.content x).isSome ∧ x ∉ (s.txn.written.since mark).arrays := fun e =>
    h.reclaimed.remains ht.quiet hcalm hro henc.innermost e
  have hzip : s.txn.marks.zip s.conn.savepoints = (mark, saved) :: outer.zip rest := by
    rw [h.marks, h.savepoints]
    rfl
  have hquiet := h.reclaimed.shed.quiet ht.quiet
  by_cases hout : outer = []
  · have htxn : s'.txn = .empty := by rw [h.txn, if_pos hout]
    have hnil : rest = [] := by
      have := henc.levels
      rw [hout] at this
      cases this
      rfl
    have hzero : mark = ⟨0, 0⟩ := hs.outermost (by rw [h.marks, hout]; rfl)
    refine ⟨hquiet, fun {x} _ e => ?_, fun {x} hf => ?_, fun {c x} hc => ?_, fun {m c x} hz => ?_⟩
    · obtain ⟨e1, e2⟩ := hremains e
      rw [hdb]
      rcases ht.outermost (c := saved) (by rw [h.savepoints, hnil]; rfl) e1 with c | c | c
      · exact Or.inl c
      · exact Or.inr (Or.inl c)
      · rw [hzero] at e2
        exact absurd c e2
    · rw [not_forcedBack_of_idle htxn] at hf
      cases hf
    · rw [hsp', hnil] at hc
      cases hc
    · rw [htxn] at hz
      exact (List.not_mem_nil hz).elim
  · have htxn := h.txn
    rw [if_neg hout] at htxn
    have hpending : s'.txn.pendingFree = s.txn.pendingFree := by rw [htxn]
    have hwritten : s'.txn.written = s.txn.written.upTo mark := by rw [htxn]
    have hrest : rest ≠ [] := fun hn => hout (by
      have := henc.levels.length_eq
      rw [hn] at this
      exact List.eq_nil_of_length_eq_zero this)
    refine ⟨hquiet, fun {x} _ e => ?_, fun {x} hf => ?_, fun {c x} hc e => ?_, fun {m c x} hz e => ?_⟩
    · obtain ⟨e1, e2⟩ := hremains e
      rw [hdb, hpending]
      rcases ht.inner (by rw [hzip]; exact List.mem_cons_self) e1 with c | c | c | c
      · exact Or.inl c
      · exact Or.inr (Or.inl c)
      · exact absurd c e2
      · exact Or.inr (Or.inr c)
    · rw [forcedBack_iff, hsp'] at hf
      exact absurd hf.2 hrest
    · obtain ⟨e1, e2⟩ := hremains e
      rw [hsp'] at hc
      rw [hwritten]
      have hlast : s.conn.savepoints.getLast? = some c := by
        rw [h.savepoints]
        rcases hr : rest with _ | ⟨c', cs⟩
        · exact absurd hr hrest
        · rw [List.getLast?_cons_cons, ← hr]
          exact hc
      rcases ht.outermost hlast e1 with c | c | c
      · exact Or.inl c
      · exact Or.inr (Or.inl c)
      · exact Or.inr (Or.inr (((FileObjects.mem_arrays_iff mark).mp c).resolve_right e2))
    · obtain ⟨e1, e2⟩ := hremains e
      rw [hsp', htxn] at hz
      rw [hwritten, hpending]
      have hn := hs.nested
      rw [h.marks] at hn
      obtain ⟨hn1, hn2⟩ := List.pairwise_cons.mp hn
      have hmem := (List.of_mem_zip hz).1
      have hsplit := FileObjects.since_split ((List.pairwise_cons.mp hn2).1 m hmem)
        (hn1 mark List.mem_cons_self)
      rcases ht.inner (by rw [hzip]; exact List.mem_cons_of_mem _ hz) e1 with c | c | c | c
      · exact Or.inl c
      · exact Or.inr (Or.inl c)
      · rw [hsplit] at c
        exact Or.inr (Or.inr (Or.inl ((FileObjects.mem_append_arrays.mp c).resolve_right e2)))
      · exact Or.inr (Or.inr (Or.inr c))

/-- Dropping a transaction the engine has rolled back keeps the arrays tidy. -/
theorem Tidy.discarded {U : H → Prop} {s s' : Store H B} {removed : FileObjects H} (ht : Tidy U s)
    (hs : s.Inv) (hcalm : s.conn.Calm) (h : Discarded s s' removed) : Tidy U s' := by
  have hf := forcedBack_iff.mp h.forced
  have hapart : Apart s.db s.txn.written := by
    rcases hs.levels with hl | ⟨-, -, h3⟩
    · rw [hf.2] at hl
      exact absurd (List.forall₂_nil_right_iff.mp hl) hf.1
    · exact h3
  refine ⟨h.reclaimed.shed.quiet ht.quiet, fun {x} _ e => ?_, fun {x} hf => ?_, fun {c x} hc => ?_,
    fun {m c x} hz => ?_⟩
  · obtain ⟨e1, e2⟩ := h.reclaimed.remains ht.quiet hcalm (hs.writable hf.1) hapart e
    rw [h.db]
    rcases ht.forced h.forced e1 with c | c | c
    · exact Or.inl c
    · exact Or.inr (Or.inl c)
    · exact absurd c e2
  · rw [not_forcedBack_of_idle h.txn] at hf
    cases hf
  · rw [h.savepoints] at hc
    cases hc
  · rw [h.txn] at hz
    exact (List.not_mem_nil hz).elim

/-! ### Time axes named by rows of other kinds -/

/-- Only irregular rows name a time axis, but for the axes of `N`. -/
def StrayWithin (N : H → Prop) (c : Catalog H) : Prop :=
  ∀ r ∈ c.rows, ∀ t, r.timestampsHash = some t → r.timeSeriesType.isIrregular = true ∨ N t

theorem StrayWithin.of_subset {N : H → Prop} {c c' : Catalog H} (hc : StrayWithin N c)
    (h : ∀ r ∈ c'.rows, r ∈ c.rows) : StrayWithin N c' := fun r hr => hc r (h r hr)

theorem StrayWithin.of_chain {N : H → Prop} {c c' : Catalog H} {ms : List (TimeSeriesMetadata H)}
    {cache : SharedSetCache H} {y : List ℤ × SharedSetCache H} (hc : StrayWithin N c)
    (h : Chain InsertedOne ms cache c y c')
    (hms : ∀ m ∈ ms, ∀ t, m.timestamps.map timestampsHash = some t →
      m.timeSeriesType.isIrregular = true ∨ N t) : StrayWithin N c' := by
  intro r hr t ht
  rcases h.references.2.1 r hr with hr | ⟨m, hm, id, -, rfl⟩
  · exact hc r hr t ht
  · exact hms m hm t ht

/-- An import apart, no operation files a row of another kind that names a new axis. -/
theorem Left.strayWithin {N : H → Prop} {s : Store H B} (hs : s.Inv) {op : Op H} {db : Catalog H}
    (h : Left s op db) (hop : ∀ rows, op ≠ .importAssociationRows rows) (hc : StrayWithin N s.db) :
    StrayWithin N db := by
  rcases h with h | h
  · cases op with
    | addRequests items =>
      obtain ⟨parts, cache, y, hbuilt, -, hchain⟩ := h
      refine hc.of_chain (hchain.mono fun _ _ _ _ _ h => h.2) fun m hm t ht => ?_
      obtain ⟨p, hp, rfl⟩ := List.mem_map.mp hm
      obtain ⟨item, -, hb⟩ := Staging.parts_origin hbuilt hp
      have hax := buildRequestParts_axis hb
      rcases hg : p.group with res | t'
      · rw [hg] at hax
        rw [show p.metadata.timestamps = none from hax] at ht
        cases ht
      · exact Or.inl (buildRequestParts_irregular hb hg)
    | removeByIds ids owner =>
      rw [h.rest]
      exact hc.of_subset fun r hr => List.mem_of_mem_filter hr
    | clearTimeSeries owner =>
      rw [show db = clearedOf owner s.db from h]
      rcases owner with _ | ⟨id, category⟩
      · exact hc.of_subset fun r hr => List.mem_of_mem_filter hr
      · exact hc.of_subset fun r hr => List.mem_of_mem_filter hr
    | replaceOwner oldOwner newOwner category =>
      obtain ⟨-, n, hmove⟩ := h
      intro r hr t ht
      rw [Catalog.moveOwner_rows hmove] at hr
      obtain ⟨r', hr', rfl⟩ := List.mem_map.mp hr
      obtain ⟨-, h2, h3⟩ := Catalog.movedRow_series oldOwner newOwner category r'
      rw [h2]
      exact hc r' hr' t (by rw [← h3]; exact ht)
    | copyTimeSeries src dst ty name =>
      obtain ⟨id, m, hcopy⟩ := h
      obtain ⟨cache, -, hone⟩ := hcopy.filed
      obtain ⟨r, hr, -, hy⟩ := Catalog.getById_eq_some hcopy.source
      intro r' hr' t ht
      rcases (hone.spec.1 r').mp hr' with rfl | hr'
      · have hax := (hydrated_names hs.toSound hy).1
        rw [show (m.timestamps.map timestampsHash : Option H) = some t from ht] at hax
        have := hc r hr t hax.symm
        rw [← hy.series.2.1] at this
        exact this
      · exact hc r' hr' t ht
    | importAssociationRows rows => exact absurd rfl (hop rows)
    | transformSingleTimeSeries horizon interval category resolution policy =>
      rcases h with ⟨h, -⟩ | ⟨sources, views, hd, h | ⟨y, hchain⟩⟩
      · rw [h]
        exact hc
      · rw [h]
        exact hc
      · refine hc.of_chain hchain fun v hv t ht => ?_
        obtain ⟨src, hsrc, hor, int, cnt, rfl⟩ := hd.view v hv
        obtain ⟨r, hr, hscope, hy⟩ := Catalog.mem_list hd.listed hsrc
        have hax := (hydrated_names hs.toSound hy).1
        rw [show (src.timestamps.map timestampsHash : Option H) = some t from ht] at hax
        refine Or.inr ((hc r hr t hax.symm).resolve_left fun hirr => ?_)
        unfold Catalog.singleInScope at hscope
        simp only [Bool.and_eq_true, decide_eq_true_eq] at hscope
        rw [hscope.1.1] at hirr
        cases hirr
    | compact =>
      rw [show db = _ from h]
      exact hc
    | _ =>
      rw [show db = s.db from h]
      exact hc
  · exact hc.of_subset fun r hr => by rw [← h.rows.1]; exact hr

/-- The rows of other kinds name no new axis over a turn that is no import. -/
theorem turn_strayWithin {N : H → Prop} {s : Store H B} (hs : s.Inv) (t : Turn H)
    (hop : ∀ rows, t.op ≠ .importAssociationRows rows) (h : ∀ c ∈ s.catalogs, StrayWithin N c) :
    ∀ c ∈ (s.turned t).catalogs, StrayWithin N c :=
  turn_catalogs hs t h fun _ hdb => hdb.strayWithin (hs.arm t.faults) hop (h _ List.mem_cons_self)

/-! ### Time axes -/

/-- The time axes named at each open level, innermost first, and last outside every level. -/
abbrev Trail (H : Type) : Type := List (List H)

/-- Record axes at the innermost level. -/
def Trail.record (axes : List H) : Trail H → Trail H
  | [] => []
  | l :: ls => (axes ++ l) :: ls

/-- Close the innermost level: what it named is its enclosing level's. -/
def Trail.merge : Trail H → Trail H
  | a :: b :: ls => (a ++ b) :: ls
  | ls => ls

/-- The levels after a turn: one more, or the innermost closed, or some rolled back. -/
def Trail.levels (op : Op H) (depth depth' : ℕ) (trail : Trail H) : Trail H :=
  if depth < depth' then [] :: trail
  else match op with
    | .commitTransaction => if depth' < depth then trail.merge else trail
    | _ => trail.drop (depth - depth')

/-- The trail after a run: every turn records what the catalog it leaves names, at the level then
open, and a level that is rolled back takes its record with it. -/
def trailAfter : List (Turn H) → Store H B → Trail H → Trail H
  | [], _, trail => trail
  | t :: turns, s, trail =>
    trailAfter turns (s.turned t)
      ((trail.levels t.op s.depth (s.turned t).depth).record (s.turned t).db.axes)

/-- Every time axis the store holds is one of `V`, or was named outside every level that is rolled
back, now and after any of the ends that may come. -/
structure Traced (V : H → Prop) (trail : Trail H) (s : Store H B) : Prop where
  length : trail.length = s.depth + 1
  named {t : H} : t ∈ s.db.axes → t ∈ trail.flatten
  now {t : H} : s.transactionWasForcedBack = false → (s.arrays.vector t).isSome →
    V t ∨ t ∈ trail.flatten
  forced {t : H} : s.transactionWasForcedBack = true →
    (t ∈ s.db.axes → t ∈ (trail.drop s.depth).flatten) ∧ ((s.arrays.vector t).isSome →
      V t ∨ t ∈ (trail.drop s.depth).flatten ∨ t ∈ s.txn.written.timestamps)
  level {i : ℕ} {m : Mark} {c : Catalog H} {t : H} : s.txn.marks[i]? = some m →
    s.conn.savepoints[i]? = some c →
    (t ∈ c.axes → t ∈ (trail.drop (i + 1)).flatten) ∧ ((s.arrays.vector t).isSome →
      V t ∨ t ∈ (trail.drop (i + 1)).flatten ∨ t ∈ (s.txn.written.since m).timestamps)

namespace Trail

theorem mem_record {axes : List H} {trail : Trail H} (h : 0 < trail.length) {t : H} :
    t ∈ (trail.record axes).flatten ↔ t ∈ axes ∨ t ∈ trail.flatten := by
  rcases trail with _ | ⟨l, ls⟩
  · cases h
  · unfold record
    rw [List.flatten_cons, List.flatten_cons, List.mem_append, List.mem_append, List.mem_append, or_assoc]

theorem length_record (axes : List H) (trail : Trail H) : (trail.record axes).length = trail.length := by
  cases trail <;> rfl

theorem drop_record (axes : List H) (trail : Trail H) (n : ℕ) :
    (trail.record axes).drop (n + 1) = trail.drop (n + 1) := by
  cases trail <;> rfl

theorem flatten_merge (trail : Trail H) : trail.merge.flatten = trail.flatten := by
  rcases trail with _ | ⟨a, _ | ⟨b, ls⟩⟩
  · rfl
  · rfl
  · unfold merge
    rw [List.flatten_cons, List.flatten_cons, List.flatten_cons, List.append_assoc]

theorem length_merge {trail : Trail H} {n : ℕ} (h : trail.length = n + 2) :
    trail.merge.length = n + 1 := by
  rcases trail with _ | ⟨a, _ | ⟨b, ls⟩⟩
  · cases h
  · rw [List.length_singleton] at h
    omega
  · unfold merge
    rw [List.length_cons, List.length_cons] at h
    rw [List.length_cons]
    omega

theorem drop_merge {trail : Trail H} (h : 2 ≤ trail.length) (n : ℕ) :
    trail.merge.drop (n + 1) = trail.drop (n + 2) := by
  rcases trail with _ | ⟨a, _ | ⟨b, ls⟩⟩
  · rfl
  · rw [List.length_singleton] at h
    omega
  · rfl

/-- Every level lies over one that named the axes of `N`. -/
def Based (N : H → Prop) (trail : Trail H) : Prop :=
  ∀ n < trail.length, ∀ t, N t → t ∈ (trail.drop n).flatten

theorem Based.push {N : H → Prop} {trail : Trail H} (h : Based N trail) (hpos : 0 < trail.length) :
    Based N ([] :: trail) := by
  intro n hn t ht
  rcases n with _ | n
  · exact h 0 hpos t ht
  · rw [List.length_cons] at hn
    exact h n (by omega) t ht

theorem Based.merge {N : H → Prop} {trail : Trail H} (h : Based N trail) (hlen : 2 ≤ trail.length) :
    Based N trail.merge := by
  intro n hn t ht
  rw [length_merge (n := trail.length - 2) (by omega)] at hn
  rcases n with _ | n
  · rw [List.drop_zero, flatten_merge]
    exact h 0 (by omega) t ht
  · rw [drop_merge hlen]
    exact h (n + 2) (by omega) t ht

theorem Based.drop {N : H → Prop} {trail : Trail H} (h : Based N trail) (k : ℕ) :
    Based N (trail.drop k) := by
  intro n hn t ht
  rw [List.length_drop] at hn
  rw [List.drop_drop]
  exact h (k + n) (by omega) t ht

theorem Based.record {N : H → Prop} {trail : Trail H} (h : Based N trail) (axes : List H) :
    Based N (trail.record axes) := by
  intro n hn t ht
  rw [length_record] at hn
  rcases n with _ | n
  · exact (mem_record hn).mpr (Or.inr (h 0 hn t ht))
  · rw [drop_record]
    exact h (n + 1) hn t ht

end Trail

theorem Traced.arm {V : H → Prop} {trail : Trail H} {s : Store H B} (h : Traced V trail s)
    (faults : List Fault) : Traced V trail (s.arm faults) :=
  ⟨h.length, h.named, h.now, h.forced, h.level⟩

/-- A write keeps the axes traced. -/
theorem Traced.wrote {V : H → Prop} {trail : Trail H} {s s' : Store H B} {w g : FileObjects H}
    (ht : Traced V trail s) (hs : s.Inv) (hq : s.arrays.Quiet) (h : Wrote s s' w g) :
    Traced V (trail.record s'.db.axes) s' := by
  have hdepth : s'.depth = s.depth := congrArg List.length h.marks
  have hpos : 0 < trail.length := by
    rw [ht.length]
    omega
  have hwritten : ∀ {t}, t ∈ s.txn.written.timestamps ∨ t ∈ w.timestamps →
      t ∈ s'.txn.written.timestamps := by
    intro t e
    rw [h.written]
    exact FileObjects.mem_append_timestamps.mpr e
  -- what held axes are, inside a transaction
  have hgrown : ∀ {t}, (s'.arrays.vector t).isSome → s.txn.marks ≠ [] →
      (s.arrays.vector t).isSome ∨ t ∈ w.timestamps := by
    intro t e hm
    rcases h.grownAxis hq e with c | c | ⟨c, -⟩
    · exact Or.inl c
    · exact Or.inr c
    · rw [inTransaction_iff.mpr hm] at c
      cases c
  have hbase : s.txn.marks ≠ [] → (trail.record s'.db.axes).drop s.depth = trail.drop s.depth := by
    intro hm
    obtain ⟨n, hn⟩ := Nat.exists_eq_succ_of_ne_zero
      (fun c : s.depth = 0 => hm (List.eq_nil_of_length_eq_zero c))
    rw [hn]
    exact Trail.drop_record _ _ _
  refine ⟨by rw [Trail.length_record, hdepth]; exact ht.length,
    fun e => (Trail.mem_record hpos).mpr (Or.inl e), fun {t} hf e => ?_, fun {t} hf => ?_,
    fun {i m c t} hm hc => ?_⟩
  · rw [Trail.mem_record hpos]
    have hsp : s'.conn.savepoints = s.conn.savepoints := by
      rcases h.saved with c | c
      · exact c
      · exfalso
        rw [← Bool.not_eq_true, forcedBack_iff, h.marks] at hf
        refine hf ⟨fun hm => ?_, c.savepoints⟩
        have hsaved := c.saved
        rw [(hs.idle (by unfold inTransaction; rw [hm]; rfl)).2.1] at hsaved
        cases hsaved
    have hf' : s.transactionWasForcedBack = false := by
      rw [← hf]
      unfold transactionWasForcedBack inTransaction inAutocommit
      rw [h.marks, hsp]
    rcases h.grownAxis hq e with c | c | ⟨-, c⟩
    · exact (ht.now hf' c).imp_right Or.inr
    · exact Or.inr (Or.inl (h.usedAxis c).mem_axes)
    · exact Or.inr (Or.inl c.mem_axes)
  · rw [forcedBack_iff, h.marks] at hf
    rw [hdepth, hbase hf.1]
    rcases h.saved with c | c
    · have hf' : s.transactionWasForcedBack = true := forcedBack_iff.mpr ⟨hf.1, c.symm.trans hf.2⟩
      obtain ⟨h1, h2⟩ := ht.forced (t := t) hf'
      refine ⟨fun e => h1 (by rw [← h.blocked hf']; exact e), fun e => ?_⟩
      rcases hgrown e hf.1 with e | e
      · exact (h2 e).imp_right (Or.imp_right fun e => hwritten (Or.inl e))
      · exact Or.inr (Or.inr (hwritten (Or.inr e)))
    · -- the engine has gone back to the outermost savepoint
      have hne : s.conn.savepoints ≠ [] := fun hn => by
        have := c.saved
        rw [hn] at this
        cases this
      obtain ⟨c₀, cs, hcs⟩ := List.exists_cons_of_ne_nil hne
      have hlen := (hs.alive_of_savepoint hcs).length_eq
      have hlast : s.txn.marks[s.depth - 1]? = some ⟨0, 0⟩ := by
        unfold depth
        rw [← List.getLast?_eq_getElem?]
        obtain ⟨m, hm⟩ := List.getLast?_isSome.mpr hf.1 |> Option.isSome_iff_exists.mp
        rw [hm, hs.outermost hm]
      have hsaved : s.conn.savepoints[s.depth - 1]? = some s'.db := by
        unfold depth
        rw [hlen, ← List.getLast?_eq_getElem?]
        exact c.saved
      obtain ⟨h1, h2⟩ := ht.level (t := t) hlast hsaved
      have hd : s.depth - 1 + 1 = s.depth := by
        have : 0 < s.depth := List.length_pos_of_ne_nil hf.1
        omega
      rw [hd] at h1 h2
      refine ⟨h1, fun e => ?_⟩
      rcases hgrown e hf.1 with e | e
      · exact (h2 e).imp_right (Or.imp_right fun e => hwritten (Or.inl e))
      · exact Or.inr (Or.inr (hwritten (Or.inr e)))
  · rw [Trail.drop_record]
    rcases h.saved with c' | c'
    · rw [h.marks] at hm
      rw [c'] at hc
      obtain ⟨h1, h2⟩ := ht.level (t := t) hm hc
      have hmem := List.mem_of_getElem? hm
      refine ⟨h1, fun e => ?_⟩
      rw [h.written, FileObjects.since_append ((List.pairwise_cons.mp hs.nested).1 m hmem)]
      rcases hgrown e (List.ne_nil_of_mem hmem) with e | e
      · exact (h2 e).imp_right
          (Or.imp_right fun e => FileObjects.mem_append_timestamps.mpr (Or.inl e))
      · exact Or.inr (Or.inr (FileObjects.mem_append_timestamps.mpr (Or.inr e)))
    · rw [c'.savepoints] at hc
      cases hc

/-- Opening a level keeps the axes traced. -/
theorem Traced.begun {V : H → Prop} {trail : Trail H} {s s' : Store H B} (ht : Traced V trail s)
    (h : Begun s s') : Traced V (Trail.record s'.db.axes ([] :: trail)) s' := by
  have hwritten : s'.txn.written = s.txn.written := by rw [h.txn]
  have hdepth : s'.depth = s.depth + 1 := by
    unfold depth
    rw [h.txn, List.length_cons]
  have hmem : ∀ {t}, t ∈ (Trail.record s'.db.axes ([] :: trail)).flatten ↔
      t ∈ s'.db.axes ∨ t ∈ trail.flatten := by
    intro t
    rw [Trail.mem_record (by rw [List.length_cons]; omega), List.flatten_cons, List.nil_append]
  refine ⟨by rw [Trail.length_record, List.length_cons, ht.length, hdepth],
    fun e => hmem.mpr (Or.inl e), fun {t} _ e => ?_, fun {t} hf => ?_, fun {i m c t} hm hc => ?_⟩
  · rw [h.arrays] at e
    exact (ht.now h.alive e).imp_right fun e => hmem.mpr (Or.inr e)
  · rw [not_forcedBack_of_savepoint h.savepoints] at hf
    cases hf
  · rw [Trail.drop_record, List.drop_succ_cons, h.arrays, hwritten]
    rw [h.txn] at hm
    rw [h.savepoints] at hc
    rcases i with _ | i
    · rw [List.getElem?_cons_zero, Option.some.injEq] at hc
      rw [← hc, List.drop_zero]
      exact ⟨ht.named, fun e => (ht.now h.alive e).imp_right Or.inl⟩
    · rw [List.getElem?_cons_succ] at hm hc
      exact ht.level hm hc

/-- Closing an inner level keeps the axes traced. -/
theorem Traced.released {V : H → Prop} {trail : Trail H} {s s' : Store H B} (ht : Traced V trail s)
    (hs : s.Inv) (h : Released s s') : Traced V (trail.merge.record s'.db.axes) s' := by
  obtain ⟨saved, hsp⟩ := h.savepoints
  have hmarks : s'.txn.marks = s.txn.marks.tail := by rw [h.txn]
  have hwritten : s'.txn.written = s.txn.written := by rw [h.txn]
  have hdepth : s.depth = s'.depth + 1 := by
    have := h.inner
    unfold depth
    rw [hmarks, List.length_tail]
    omega
  have hlen : trail.length = s'.depth + 2 := by
    rw [ht.length, hdepth]
  have hpos : 0 < (Trail.merge trail).length := by
    rw [Trail.length_merge hlen]
    omega
  refine ⟨by rw [Trail.length_record, Trail.length_merge hlen],
    fun e => (Trail.mem_record hpos).mpr (Or.inl e), fun {t} _ e => ?_, fun {t} hf => ?_,
    fun {i m c t} hm hc => ?_⟩
  · rw [h.arrays] at e
    rw [Trail.mem_record hpos, Trail.flatten_merge]
    exact (ht.now (not_forcedBack_of_savepoint hsp) e).imp_right Or.inr
  · have hlevels := (hs.alive_of_savepoint hsp).length_eq
    have hinner := h.inner
    rw [forcedBack_iff] at hf
    rw [hsp, hf.2, List.length_singleton] at hlevels
    omega
  · rw [Trail.drop_record, Trail.drop_merge (by omega), h.arrays, hwritten]
    refine ht.level (i := i + 1) ?_ ?_
    · rw [← hm, hmarks, List.getElem?_tail]
    · rw [hsp, List.getElem?_cons_succ]
      exact hc

/-- Closing the outermost level keeps the axes traced. -/
theorem Traced.committed {V : H → Prop} {trail : Trail H} {s s' : Store H B} {garbage : FileObjects H}
    (ht : Traced V trail s) (hs : s.Inv) (h : Committed s s' garbage) :
    Traced V (trail.merge.record s'.db.axes) s' := by
  obtain ⟨saved, hsp⟩ := h.savepoints
  obtain ⟨a, hw, hshed, -⟩ := h.arrays
  have hdepth : s'.depth = 0 := by
    unfold depth
    rw [h.txn]
    rfl
  have hlen : trail.length = s'.depth + 2 := by
    rw [ht.length, hdepth, show s.depth = 1 from h.outermost]
  have hpos : 0 < (Trail.merge trail).length := by
    rw [Trail.length_merge hlen]
    omega
  have hidle := (hs.committed h).idle (by unfold inTransaction; rw [h.txn]; rfl)
  refine ⟨by rw [Trail.length_record, Trail.length_merge hlen],
    fun e => (Trail.mem_record hpos).mpr (Or.inl e), fun {t} _ e => ?_, fun {t} hf => ?_,
    fun {i m c t} hm hc => ?_⟩
  · obtain ⟨ms, hms⟩ := Option.isSome_iff_exists.mp e
    have hheld := hshed.originAxis hms
    rw [hw.vector] at hheld
    rw [Trail.mem_record hpos, Trail.flatten_merge]
    exact (ht.now (not_forcedBack_of_savepoint hsp) (by rw [hheld]; rfl)).imp_right Or.inr
  · rw [not_forcedBack_of_idle h.txn] at hf
    cases hf
  · rw [hidle.2.1] at hc
    cases hc

/-- What is held once a level's writes are reclaimed was held, and is one of those writes only where
the catalog names it. -/
theorem Reclaimed.remainsAxis {s s' : Store H B} {db : Catalog H} {w removed : FileObjects H}
    (h : Reclaimed s s' db w removed) (hq : s.arrays.Quiet) (hc : s.conn.Calm)
    (hro : s.conn.readOnly = false) {t : H} (e : (s'.arrays.vector t).isSome) :
    (s.arrays.vector t).isSome ∧ (t ∈ w.timestamps → t ∈ db.axes) := by
  obtain ⟨ms, hms⟩ := Option.isSome_iff_exists.mp e
  refine ⟨by rw [h.shed.originAxis hms]; rfl, fun hx => ?_⟩
  rw [Catalog.mem_axes, ← Bool.not_eq_false]
  intro hn
  rw [h.shed.goneAxis hq (h.completeAxis hc hro hx hn)] at hms
  cases hms

/-- Rolling a level back keeps the axes traced, when the engine runs its statements. -/
theorem Traced.unwound {V : H → Prop} {trail : Trail H} {s s' : Store H B} {mark : Mark}
    {outer : List Mark} {saved : Catalog H} {rest : List (Catalog H)} {removed : FileObjects H}
    {N : H → Prop} (ht : Traced V trail s) (hs : s.Inv) (hq : s.arrays.Quiet) (hcalm : s.conn.Calm)
    (hbase : Trail.Based N trail) (hstray : StrayWithin N saved)
    (h : Unwound s s' mark outer saved rest removed) :
    s.depth = s'.depth + 1 ∧ Traced V (Trail.record s'.db.axes (trail.drop 1)) s' := by
  have henc := hs.enclosing h.marks h.savepoints
  have hro : s.conn.readOnly = false := hs.writable (by rw [h.marks]; exact List.cons_ne_nil _ _)
  obtain ⟨hsp', hdb⟩ : s'.conn.savepoints = rest ∧ s'.db = saved := by
    rcases h.restored with e | ⟨e, -⟩
    · exact e
    · rw [show s.conn.faults = [] from hcalm] at e
      exact (List.not_mem_nil e).elim
  have hmarks' : s'.txn.marks = outer := by
    rw [h.txn]
    split
    · rename_i ho
      rw [ho]
      rfl
    · rfl
  have hdepth : s.depth = s'.depth + 1 := by
    unfold depth
    rw [h.marks, hmarks', List.length_cons]
  have hpos : 0 < (trail.drop 1).length := by
    rw [List.length_drop, ht.length]
    omega
  have hremains : ∀ {t}, (s'.arrays.vector t).isSome → (s.arrays.vector t).isSome ∧
      (t ∈ (s.txn.written.since mark).timestamps → t ∈ saved.axes) := fun e =>
    h.reclaimed.remainsAxis hq hcalm hro e
  have hinner : ∀ {t}, (t ∈ saved.axes → t ∈ (trail.drop 1).flatten) ∧
      ((s.arrays.vector t).isSome → V t ∨ t ∈ (trail.drop 1).flatten ∨
        t ∈ (s.txn.written.since mark).timestamps) := fun {t} =>
    ht.level (i := 0) (t := t) (by rw [h.marks]; rfl) (by rw [h.savepoints]; rfl)
  refine ⟨hdepth, by rw [Trail.length_record, List.length_drop, ht.length, hdepth]; rfl,
    fun e => (Trail.mem_record hpos).mpr (Or.inl e), fun {t} _ e => ?_, fun {t} hf => ?_,
    fun {i m c t} hm hc => ?_⟩
  · obtain ⟨e1, e2⟩ := hremains e
    rw [Trail.mem_record hpos]
    rcases hinner.2 e1 with c | c | c
    · exact Or.inl c
    · exact Or.inr (Or.inr c)
    · exact Or.inr (Or.inr (hinner.1 (e2 c)))
  · rw [forcedBack_iff, hmarks', hsp'] at hf
    refine absurd ?_ hf.1
    have := henc.levels
    rw [hf.2] at this
    exact List.forall₂_nil_right_iff.mp this
  · rw [Trail.drop_record, List.drop_drop, Nat.add_comm 1]
    rw [hmarks'] at hm
    rw [hsp'] at hc
    have hlevel : (t ∈ c.axes → t ∈ (trail.drop (i + 1 + 1)).flatten) ∧
        ((s.arrays.vector t).isSome → V t ∨ t ∈ (trail.drop (i + 1 + 1)).flatten ∨
          t ∈ (s.txn.written.since m).timestamps) :=
      ht.level (by rw [h.marks, List.getElem?_cons_succ]; exact hm)
        (by rw [h.savepoints, List.getElem?_cons_succ]; exact hc)
    refine ⟨hlevel.1, fun e => ?_⟩
    obtain ⟨e1, e2⟩ := hremains e
    have hne : outer ≠ [] := List.ne_nil_of_mem (List.mem_of_getElem? hm)
    have hwritten : s'.txn.written = s.txn.written.upTo mark := by rw [h.txn, if_neg hne]
    have hn := hs.nested
    rw [h.marks] at hn
    obtain ⟨hn1, hn2⟩ := List.pairwise_cons.mp hn
    have hsplit := FileObjects.since_split ((List.pairwise_cons.mp hn2).1 m (List.mem_of_getElem? hm))
      (hn1 mark List.mem_cons_self)
    rw [hwritten]
    rcases hlevel.2 e1 with c' | c' | c'
    · exact Or.inl c'
    · exact Or.inr (Or.inl c')
    · rw [hsplit] at c'
      rcases FileObjects.mem_append_timestamps.mp c' with c' | c'
      · exact Or.inr (Or.inr c')
      · -- kept because a row restored names it, which is then none the level could have written
        obtain ⟨r, hr, hax⟩ := List.mem_filterMap.mp (e2 c')
        rcases hstray r hr t hax with hirr | hn
        · exact absurd ⟨r, hr, hirr, hax⟩ (henc.innermost.axis c')
        · refine Or.inr (Or.inl (hbase (i + 1 + 1) ?_ t hn))
          have hlt := (List.getElem?_eq_some_iff.mp hm).1
          rw [ht.length, hdepth]
          unfold depth
          rw [hmarks']
          omega

/-- Dropping a transaction the engine has rolled back keeps the axes traced. -/
theorem Traced.discarded {V : H → Prop} {trail : Trail H} {s s' : Store H B} {removed : FileObjects H}
    (ht : Traced V trail s) (hs : s.Inv) (hq : s.arrays.Quiet) (hcalm : s.conn.Calm)
    (h : Discarded s s' removed) :
    s'.depth = 0 ∧ Traced V (Trail.record s'.db.axes (trail.drop s.depth)) s' := by
  have hf := forcedBack_iff.mp h.forced
  have hdepth : s'.depth = 0 := by
    unfold depth
    rw [h.txn]
    rfl
  have hpos : 0 < (trail.drop s.depth).length := by
    rw [List.length_drop, ht.length]
    omega
  refine ⟨hdepth, by rw [Trail.length_record, List.length_drop, ht.length, hdepth]; omega,
    fun e => (Trail.mem_record hpos).mpr (Or.inl e), fun {t} _ e => ?_, fun {t} hf => ?_,
    fun {i m c t} hm hc => ?_⟩
  · obtain ⟨e1, e2⟩ := h.reclaimed.remainsAxis hq hcalm (hs.writable hf.1) e
    rw [Trail.mem_record hpos, h.db]
    rcases (ht.forced h.forced).2 e1 with c | c | c
    · exact Or.inl c
    · exact Or.inr (Or.inr c)
    · exact Or.inr (Or.inl (e2 c))
  · rw [not_forcedBack_of_idle h.txn] at hf
    cases hf
  · rw [h.savepoints] at hc
    cases hc

/-! ### Runs -/

/-- What a run keeps, from a store that holds the arrays `U` and the axes `V` without a row to name
them, and whose rows name the axes of `N`. -/
structure Tracked (U V N : H → Prop) (trail : Trail H) (s : Store H B) : Prop where
  inv : s.Inv
  tidy : Tidy U s
  traced : Traced V trail s
  based : Trail.Based N trail
  stray : ∀ c ∈ s.catalogs, StrayWithin N c

/-- A turn that is no import, and whose statements the engine runs if it is a rollback. -/
structure Ordinary (t : Turn H) : Prop where
  noImport : ∀ rows, t.op ≠ .importAssociationRows rows
  calm : t.op = .rollbackTransaction → t.faults = []

theorem Trail.levels_same (op : Op H) (depth : ℕ) (trail : Trail H) :
    trail.levels op depth depth = trail := by
  unfold levels
  rw [if_neg (Nat.lt_irrefl _)]
  split
  · rw [if_neg (Nat.lt_irrefl _)]
  · rw [Nat.sub_self, List.drop_zero]

theorem Trail.levels_commit {depth depth' : ℕ} (trail : Trail H) (h : depth' < depth) :
    trail.levels .commitTransaction depth depth' = trail.merge := by
  unfold levels
  rw [if_neg (Nat.lt_asymm h)]
  exact if_pos h

theorem Trail.levels_rollback {depth depth' : ℕ} (trail : Trail H) (h : depth' ≤ depth) :
    trail.levels .rollbackTransaction depth depth' = trail.drop (depth - depth') := by
  unfold levels
  rw [if_neg (Nat.not_lt.mpr h)]

/-- Whatever way a turn ends, what is held stays accounted for. -/
theorem Tracked.ends {U V N : H → Prop} {trail : Trail H} {s s' : Store H B} {op : Op H}
    (hk : Tracked U V N trail s) (hcalm : op = .rollbackTransaction → s.conn.Calm) (h : Ends op s s') :
    Tidy U s' ∧ Traced V ((trail.levels op s.depth s'.depth).record s'.db.axes) s' ∧
      Trail.Based N (trail.levels op s.depth s'.depth) := by
  have hq := hk.tidy.quiet
  have hlen := hk.traced.length
  have hwrote : (∃ w g, Wrote s s' w g) → Tidy U s' ∧
      Traced V ((trail.levels op s.depth s'.depth).record s'.db.axes) s' ∧
      Trail.Based N (trail.levels op s.depth s'.depth) := by
    rintro ⟨w, g, hw⟩
    have hdepth : s'.depth = s.depth := congrArg List.length hw.marks
    rw [hdepth, Trail.levels_same]
    exact ⟨hk.tidy.wrote hk.inv hw, hk.traced.wrote hk.inv hq hw, hk.based⟩
  cases op with
  | beginTransaction =>
    rcases h with h | h
    · exact hwrote ⟨_, _, h.wrote⟩
    · have hdepth : s'.depth = s.depth + 1 := by
        unfold depth
        rw [h.txn, List.length_cons]
      have hlevels : trail.levels .beginTransaction s.depth s'.depth = [] :: trail := by
        unfold Trail.levels
        rw [hdepth, if_pos (Nat.lt_succ_self _)]
      rw [hlevels]
      exact ⟨hk.tidy.begun hk.inv h, hk.traced.begun h, hk.based.push (by omega)⟩
  | commitTransaction =>
    rcases h with h | h | ⟨garbage, h⟩
    · exact hwrote ⟨_, _, h.wrote⟩
    · have hdepth : s.depth = s'.depth + 1 := by
        have := h.inner
        unfold depth
        rw [h.txn, List.length_tail]
        omega
      rw [Trail.levels_commit trail (by omega)]
      exact ⟨hk.tidy.released hk.inv h, hk.traced.released hk.inv h, hk.based.merge (by omega)⟩
    · have hdepth' : s'.depth = 0 := by
        unfold depth
        rw [h.txn]
        rfl
      have hdepth : s.depth = 1 := h.outermost
      rw [Trail.levels_commit trail (by omega)]
      exact ⟨hk.tidy.committed hk.inv h, hk.traced.committed hk.inv h, hk.based.merge (by omega)⟩
  | rollbackTransaction =>
    have hc := hcalm rfl
    rcases h with h | h | ⟨mark, outer, saved, rest, removed, h⟩ | ⟨removed, h⟩
    · exact hwrote ⟨_, _, h.wrote⟩
    · exact absurd hc h.not_calm
    · obtain ⟨hdepth, htraced⟩ := hk.traced.unwound hk.inv hq hc hk.based (hk.stray saved (by
        unfold catalogs
        rw [h.savepoints]
        exact List.mem_cons_of_mem _ List.mem_cons_self)) h
      rw [Trail.levels_rollback trail (by omega), hdepth, Nat.add_sub_cancel_left]
      exact ⟨hk.tidy.unwound hk.inv hc h, htraced, hk.based.drop 1⟩
    · obtain ⟨hdepth, htraced⟩ := hk.traced.discarded hk.inv hq hc h
      rw [Trail.levels_rollback trail (by omega), hdepth, Nat.sub_zero]
      exact ⟨hk.tidy.discarded hk.inv hc h, htraced, hk.based.drop _⟩
  | _ => exact hwrote h

/-- **An ordinary turn keeps what is held accounted for.** -/
theorem Tracked.turned {U V N : H → Prop} {trail : Trail H} {s : Store H B} (hk : Tracked U V N trail s)
    {t : Turn H} (ht : Ordinary t) :
    Tracked U V N ((trail.levels t.op s.depth (s.turned t).depth).record (s.turned t).db.axes)
      (s.turned t) := by
  have hinv := hk.inv.arm t.faults
  have harm : Tracked U V N trail (s.arm t.faults) :=
    ⟨hinv, hk.tidy.arm t.faults, hk.traced.arm t.faults, hk.based, hk.stray⟩
  have hends : Ends t.op (s.arm t.faults) (s.turned t) := step_ends hinv t.op
  obtain ⟨htidy, htraced, hbased⟩ := harm.ends ht.calm hends
  exact ⟨turn_inv t s hk.inv, htidy, htraced, hbased.record _,
    turn_strayWithin hk.inv t ht.noImport hk.stray⟩

/-- **So does a run of them.** -/
theorem Tracked.ran {U V N : H → Prop} {trail : Trail H} {s : Store H B} (hk : Tracked U V N trail s)
    {turns : List (Turn H)} (ht : ∀ t ∈ turns, Ordinary t) :
    Tracked U V N (trailAfter turns s trail) (s.ran turns) := by
  induction turns generalizing s trail with
  | nil => exact hk
  | cons t turns ih =>
    exact ih (hk.turned (ht t List.mem_cons_self)) fun t' h' => ht t' (List.mem_cons_of_mem _ h')

/-- What is held when no transaction is open, unnamed, is what a run may leave unnamed. -/
theorem Tracked.start {s : Store H B} (hs : s.Inv) (hq : LawfulArrayBackend.Quiet s.arrays.backend)
    (hidle : s.inTransaction = false) :
    Tracked (fun h => (s.arrays.content h).isSome ∧ ¬ s.db.References h)
      (fun t => (s.arrays.vector t).isSome) (· ∈ s.db.axes) [s.db.axes] s := by
  obtain ⟨htxn, hsp, hbuf⟩ := hs.idle hidle
  have hnot := not_forcedBack_of_idle htxn
  have hq' : s.arrays.Quiet := ⟨hq, fun {h a} e => by rw [hbuf] at e; cases e⟩
  refine ⟨hs, ⟨hq', fun {h} _ e => ?_, fun {h} hf => ?_, fun {c h} hc => ?_, fun {m c h} hz => ?_⟩,
    ⟨?_, fun {t} e => ?_, fun {t} _ e => Or.inl e, fun {t} hf => ?_, fun {i m c t} _ hc => ?_⟩,
    fun n hn t ht => ?_, fun c hc r hr t ht => ?_⟩
  · by_cases hr : s.db.References h
    · exact Or.inr (Or.inl hr)
    · exact Or.inl ⟨e, hr⟩
  · rw [hnot] at hf
    cases hf
  · rw [hsp] at hc
    cases hc
  · rw [hsp, List.zip_nil_right] at hz
    exact (List.not_mem_nil hz).elim
  · unfold depth
    rw [htxn]
    rfl
  · rw [List.flatten_singleton]
    exact e
  · rw [hnot] at hf
    cases hf
  · rw [hsp] at hc
    cases hc
  · rw [List.length_singleton] at hn
    rw [Nat.lt_one_iff.mp hn, List.drop_zero, List.flatten_singleton]
    exact ht
  · unfold catalogs at hc
    rw [hsp, List.mem_singleton] at hc
    rw [hc] at hr
    exact Or.inr (List.mem_filterMap.mpr ⟨r, hr, ht⟩)

/-- **Garbage collection is exact.**  Removals do not fail, and the run starts and ends outside a
transaction; it is any run of operations but imports, under any faults of the catalog engine but
during rollbacks.  The arrays held at the end are those the rows name and some of those no row named
at the start, and a time axis held at the end and not at the start was named, after some turn, by the
catalog of a level that was not rolled back. -/
theorem collection_exact {s₀ : Store H B} (h : s₀.Reachable)
    (hq : LawfulArrayBackend.Quiet s₀.arrays.backend) (turns : List (Turn H))
    (hidle : s₀.inTransaction = false) (hturns : ∀ t ∈ turns, Ordinary t) (hend : (s₀.ran turns).inTransaction = false) :
    (∃ K : Set H, (∀ x ∈ K, ArrayBackend.contains s₀.arrays.backend x = true ∧ ¬ s₀.db.References x) ∧
      ∀ x, ArrayBackend.contains (s₀.ran turns).arrays.backend x = true ↔
        (s₀.ran turns).db.References x ∨ x ∈ K) ∧
    ∀ t ∈ ArrayBackend.timestampHashes (s₀.ran turns).arrays.backend,
      t ∉ ArrayBackend.timestampHashes s₀.arrays.backend →
      t ∈ (trailAfter turns s₀ [s₀.db.axes]).flatten := by
  have hk := (Tracked.start h.inv hq hidle).ran hturns
  have hstored : ∀ {s : Store H B}, s.Inv → s.inTransaction = false → ∀ x,
      ArrayBackend.contains s.arrays.backend x = (s.arrays.content x).isSome := by
    intro s hs hi x
    rw [← ArrayStore.holdsArray_eq hs.valid]
    unfold ArrayStore.holdsArray
    rw [hs.valid.indexed.contains_eq, (hs.idle hi).2.2]
    rfl
  refine ⟨⟨{x | ((s₀.ran turns).arrays.content x).isSome ∧ (s₀.arrays.content x).isSome ∧
    ¬ s₀.db.References x}, fun x hx => ?_, fun x => ?_⟩, fun t ht hn => ?_⟩
  · rw [hstored h.inv hidle]
    exact hx.2
  · rw [hstored hk.inv hend]
    constructor
    · intro e
      rcases hk.tidy.now (not_forcedBack_of_idle (hk.inv.idle hend).1) e with hu | hr | hp
      · exact Or.inr ⟨e, hu⟩
      · exact Or.inl hr
      · rw [(hk.inv.idle hend).1] at hp
        exact (List.not_mem_nil hp).elim
    · rintro (hr | hx)
      · exact hk.inv.holds.array hr
      · exact hx.1
  · rw [LawfulArrayBackend.mem_timestampHashes hk.inv.valid.backend] at ht
    rw [LawfulArrayBackend.mem_timestampHashes h.inv.valid.backend] at hn
    exact (hk.traced.now (not_forcedBack_of_idle (hk.inv.idle hend).1) ht).resolve_left hn

end

namespace Sample

/-- Two adds at two levels, the inner one rolled back. -/
def nested : List (Turn Digest) :=
  [⟨.beginTransaction, []⟩, ⟨.addRequests [request 1 7], []⟩, ⟨.beginTransaction, []⟩,
    ⟨.addRequests [request 2 9], []⟩, ⟨.flush, []⟩, ⟨.rollbackTransaction, []⟩,
    ⟨.commitTransaction, []⟩]

theorem nested_ordinary : ∀ t ∈ nested, Ordinary t := by
  intro t ht
  unfold nested at ht
  simp only [List.mem_cons, List.not_mem_nil, or_false] at ht
  rcases ht with rfl | rfl | rfl | rfl | rfl | rfl | rfl <;> exact ⟨by simp, fun _ => rfl⟩

/-- What the inner level wrote is gone. -/
theorem collection_exact_nested :
    (∃ K : Set Digest, (∀ x ∈ K, ArrayBackend.contains empty.arrays.backend x = true ∧
        ¬ empty.db.References x) ∧
      ∀ x, ArrayBackend.contains (empty.ran nested).arrays.backend x = true ↔
        (empty.ran nested).db.References x ∨ x ∈ K) ∧
    ((empty.ran nested).db.rows.map (·.ownerId)) = [1] :=
  ⟨(collection_exact empty_reachable trivial nested (by decide +kernel) nested_ordinary
    (by decide +kernel)).1, by decide +kernel⟩

/-- A rollback whose count of references fails leaves what its level wrote. -/
theorem collection_inexact :
    ¬ ∀ turns : List (Turn Digest), (∀ t ∈ turns, ∀ rows, t.op ≠ .importAssociationRows rows) →
      (empty.ran turns).inTransaction = false →
      ∀ x, ArrayBackend.contains (empty.ran turns).arrays.backend x = true →
        (empty.ran turns).db.References x ∨ ArrayBackend.contains empty.arrays.backend x = true := by
  intro h
  have hkept := h [⟨.beginTransaction, []⟩, ⟨.addRequests [request 1 7], []⟩, ⟨.flush, []⟩,
      ⟨.rollbackTransaction, [.none, .none, .fails]⟩] (by simp) (by decide +kernel)
    (arrayHash ⟨.u8, [2], [7, 7]⟩) (by decide +kernel)
  rw [← Catalog.referencesArray_iff] at hkept
  revert hkept
  decide +kernel

end Sample

end Store

end InfraStore
