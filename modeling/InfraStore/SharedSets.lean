import InfraStore.FeatureSets

/-!
# The shared sets of a transaction

An open transaction remembers the feature sets and the time axes its adds have written, and does not
write them again.

* `Effect.forced`: nothing changes in a transaction the engine has taken back;
* `Store.ReleaseFails`: the rollback that takes a level's rows back and leaves the level open;
* `Store.Steady`: every row's set is filed, and so is every set the cache remembers;
* `Steady.turn`: what every turn but such a rollback keeps;
* `sharedSets_present`: the theorem.
-/

namespace InfraStore

open Lib Connection

namespace Store

section

set_option linter.unusedSectionVars false

variable {H B : Type} [DecidableEq H] [ArrayBackend H B] [Sha256 H] [FloatText] [ToString H]
  [LawfulArrayBackend H B]

/-! ### A transaction the engine has taken back -/

theorem savepoints_of_forced {s : Store H B} (hb : s.transactionWasForcedBack = true) :
    s.conn.savepoints = [] := by
  unfold transactionWasForcedBack inAutocommit at hb
  rw [Bool.and_eq_true, List.isEmpty_iff] at hb
  exact hb.2

/-- The catalog stays as it is, and there is none to go back to. -/
theorem Effect.forced {s s' : Store H B} (h : Effect s s')
    (hb : s.transactionWasForcedBack = true) : s'.db = s.db ∧ s'.conn.savepoints = [] := by
  have hsp := savepoints_of_forced hb
  have hno : ∀ {saved : Catalog H} {rest : List (Catalog H)}, s.conn.savepoints ≠ saved :: rest := by
    intro saved rest he
    rw [hsp] at he
    cases he
  cases h with
  | wrote w g h =>
    refine ⟨h.blocked hb, ?_⟩
    rcases h.saved with e | e
    · exact e.trans hsp
    · exact (not_forced_of_rolledBack e hb).elim
  | begun h =>
    rw [h.alive] at hb
    cases hb
  | released h =>
    obtain ⟨saved, he⟩ := h.savepoints
    exact absurd he hno
  | committed garbage h =>
    obtain ⟨saved, he⟩ := h.savepoints
    exact absurd he hno
  | rewound h =>
    have := h.db
    rw [hsp] at this
    cases this
  | unwound mark outer saved rest removed h => exact absurd h.savepoints hno
  | discarded removed h => exact ⟨h.db, h.savepoints⟩

/-! ### The invariant -/

/-- A rollback takes the innermost level's rows back, and the statement that closes the level then
fails: the level stays open. -/
def ReleaseFails (s : Store H B) (t : Turn H) : Prop :=
  t.op = .rollbackTransaction ∧ s.inTransaction = true ∧ s.transactionWasForcedBack = false ∧
    t.faults.headD .none = .none ∧ t.faults.tail.headD .none = .fails

/-- Every row of every catalog names a set of `U` that is filed, and so does the cache, unless the
engine has taken the transaction back. -/
structure Steady (U : Set Features) (s : Store H B) : Prop where
  interned : ∀ c ∈ s.catalogs, c.Interned U
  cached : s.transactionWasForcedBack = false → s.db.Remembered U s.txn.sharedSets.features

theorem forced_iff {s : Store H B} : s.transactionWasForcedBack = false ↔
    s.txn.marks = [] ∨ s.conn.savepoints ≠ [] := by
  unfold transactionWasForcedBack inTransaction inAutocommit
  rw [Bool.and_eq_false_iff, Bool.not_eq_false', List.isEmpty_iff, List.isEmpty_eq_false_iff]

/-- What a write leaves in the cache is filed. -/
theorem Steady.wrote {U : Set Features} {s s' : Store H B} {w g : FileObjects H} (h : Steady U s)
    (hw : Wrote s s' w g) (hdb : s'.db.Interned U) (halive : s'.transactionWasForcedBack = false) :
    s'.db.Remembered U s'.txn.sharedSets.features := by
  rcases hin : s.inTransaction with _ | _
  · rw [hw.idle hin]
    exact fun x hx => (List.not_mem_nil hx).elim
  -- the savepoints stand, so this is the transaction there was
  have hmarks : s.txn.marks ≠ [] := by
    unfold inTransaction at hin
    rw [Bool.not_eq_true', List.isEmpty_eq_false_iff] at hin
    exact hin
  have hsp' : s'.conn.savepoints ≠ [] := by
    refine (forced_iff.mp halive).resolve_left ?_
    rw [hw.marks]
    exact hmarks
  have hsp : s'.conn.savepoints = s.conn.savepoints :=
    hw.saved.resolve_right fun e => hsp' e.savepoints
  have hcached := h.cached (forced_iff.mpr (Or.inr (by rw [← hsp]; exact hsp')))
  rcases hw.sets with ⟨he, hsub⟩ | he | ⟨-, ms, ids, cache, hfeat, hchain⟩
  · rw [he]
    exact hcached.mono (hsub hsp)
  · rw [he]
    exact Catalog.remembered_empty _
  · intro x hx
    rcases hchain.cache_features hx with hx | ⟨m, hm, rfl⟩
    · rw [hfeat, show Staging.takenSets s = s.txn.sharedSets from if_pos hin] at hx
      exact hcached.mono hchain.sets x hx
    · obtain ⟨id, -, hr⟩ := hchain.references.2.2 m hm
      obtain ⟨f, hf, hash, hheld⟩ := hdb.named _ hr
      exact ⟨f, hf, hash.symm, hheld⟩

theorem Steady.arm {U : Set Features} {s : Store H B} (h : Steady U s) (faults : List Fault) :
    Steady U (s.arm faults) := ⟨h.interned, h.cached⟩

theorem Rewound.releaseFails {s s' : Store H B} {t : Turn H} (h : Rewound (s.arm t.faults) s')
    (hi : s.Inv) (hb : s.transactionWasForcedBack = false) (ht : t.op = .rollbackTransaction) :
    s.ReleaseFails t := by
  refine ⟨ht, ?_, hb, h.failed⟩
  rw [← Bool.not_eq_false]
  intro hin
  have := h.db
  rw [show (s.arm t.faults).conn.savepoints = [] from (hi.idle hin).2.1] at this
  cases this

/-- **What a turn keeps.** -/
theorem Steady.turn {U : Set Features} (hU : Set.InjOn (featuresHash (H := H)) U)
    (hempty : Features.empty ∈ U) (hs : ∀ f ∈ U, f.Storable) {s : Store H B} (hi : s.Inv)
    (h : Steady U s) {t : Turn H} (hop : t.op.Within U) (hr : ¬ s.ReleaseFails t) :
    Steady U (s.turned t) := by
  have hends : Ends t.op (s.arm t.faults) (s.turned t) := step_ends (hi.arm t.faults) t.op
  rcases hb : s.transactionWasForcedBack with _ | _
  · have hinterned : ∀ c ∈ (s.turned t).catalogs, c.Interned U := by
      refine turn_catalogs hi t h.interned fun db hleft => ?_
      have hx : (s.arm t.faults).db.Interned U := h.interned _ List.mem_cons_self
      rcases hleft with hc | hf
      · refine hc.interned hU hempty hs hop hx ?_
        unfold Staging.takenSets
        split
        · exact h.cached hb
        · exact Catalog.remembered_empty _
      · exact hf.interned hU hop hx
    refine ⟨hinterned, fun halive => ?_⟩
    have hwrote : ∀ {w g : FileObjects H}, Wrote (s.arm t.faults) (s.turned t) w g →
        (s.turned t).db.Remembered U (s.turned t).txn.sharedSets.features := fun hw =>
      (h.arm t.faults).wrote hw (hinterned _ List.mem_cons_self) halive
    rcases ht : t.op <;> rw [ht] at hends
    case beginTransaction =>
      rcases hends with he | he
      · exact hwrote he.wrote
      · rw [he.db, he.txn]
        exact h.cached hb
    case commitTransaction =>
      rcases hends with he | he | ⟨garbage, he⟩
      · exact hwrote he.wrote
      · rw [he.db, he.txn]
        exact h.cached hb
      · rw [he.txn]
        exact Catalog.remembered_empty _
    case rollbackTransaction =>
      rcases hends with he | he | ⟨mark, outer, saved, rest, removed, he⟩ | ⟨removed, he⟩
      · exact hwrote he.wrote
      · exact absurd (he.releaseFails hi hb ht) hr
      · rw [he.txn]
        split <;> exact Catalog.remembered_empty _
      · rw [he.txn]
        exact Catalog.remembered_empty _
    all_goals
      obtain ⟨w, g, hw⟩ := hends
      exact hwrote hw
  · obtain ⟨hdb, hsp⟩ := hends.effect.forced hb
    refine ⟨fun c hc => ?_, fun halive => ?_⟩
    · unfold catalogs at hc
      rw [hdb, hsp, List.mem_singleton] at hc
      rw [hc]
      exact h.interned _ List.mem_cons_self
    · have hmarks := (forced_iff.mp halive).resolve_right fun hne => hne hsp
      have hinv : (s.turned t).Inv := turn_inv t s hi
      have hin : (s.turned t).inTransaction = false := by
        unfold inTransaction
        rw [hmarks]
        rfl
      rw [(hinv.idle hin).1]
      exact Catalog.remembered_empty _

theorem steady_create (U : Set Features) {b : B} : Steady U (create b : Store H B) :=
  ⟨fun c hc => by rw [List.mem_singleton.mp hc]; exact .empty U,
    fun _ => Catalog.remembered_empty _⟩

/-- The turns of a run on sets of `U`: no rollback leaves its level open. -/
def SetTurn (U : Set Features) (s : Store H B) (t : Turn H) : Prop :=
  t.op.Within U ∧ ¬ s.ReleaseFails t

theorem ReachableBy.steady {U : Set Features} (hU : Set.InjOn (featuresHash (H := H)) U)
    (hempty : Features.empty ∈ U) (hs : ∀ f ∈ U, f.Storable) {s : Store H B}
    (h : s.ReachableBy (SetTurn U)) : Steady U s := by
  induction h with
  | create valid noArray noVector => exact steady_create U
  | turn t hr ht ih => exact ih.turn hU hempty hs hr.reachable.inv ht.1 ht.2

/-- **What the open transaction remembers is there.**  Every time axis in the cache is stored; unless
the engine has taken the transaction back, every feature set in it is filed, whole; and whatever an add
does next, no row it leaves names a set or an axis that is missing. -/
theorem sharedSets_present {U : Set Features} (hU : Set.InjOn (featuresHash (H := H)) U)
    (hempty : Features.empty ∈ U) (hs : ∀ f ∈ U, f.Storable) {s : Store H B}
    (h : s.ReachableBy (SetTurn U)) :
    (∀ x ∈ s.txn.sharedSets.timestamps, x ∈ ArrayBackend.timestampHashes s.arrays.backend) ∧
    (s.transactionWasForcedBack = false → s.db.Remembered U s.txn.sharedSets.features) ∧
    ∀ (items : List AddRequest) (faults : List Fault) (s' : Store H B),
      (Op.addRequests (H := H) items).Within U → s' = s.turned ⟨.addRequests items, faults⟩ →
      ∀ r ∈ s'.db.rows, (∃ f ∈ U, r.featuresHash = featuresHash f ∧ s'.db.HoldsSet f) ∧
        (r.timeSeriesType.isIrregular = true → ∃ t, r.timestampsHash = some t ∧
          t ∈ ArrayBackend.timestampHashes s'.arrays.backend) := by
  have hi := h.reachable.inv
  have hsteady := h.steady hU hempty hs
  refine ⟨fun x hx => ?_, hsteady.cached, ?_⟩
  · exact (LawfulArrayBackend.mem_timestampHashes hi.valid.backend x).mpr (hi.cached x hx)
  · rintro items faults s' hop rfl r hr
    have hnext := hsteady.turn hU hempty hs hi (t := ⟨.addRequests items, faults⟩) hop
      fun hc => (by cases hc.1)
    refine ⟨(hnext.interned _ List.mem_cons_self).named r hr, fun hirr => ?_⟩
    exact (referential_integrity (h.reachable.turn ⟨.addRequests items, faults⟩)).2.1 r hr hirr

end

namespace Sample

/-- One feature. -/
def tag : Features := Features.empty.insert "scenario" (.int 1)

/-- The series of an owner, tagged. -/
def tagged (ownerId : ℤ) : AddRequest := { request ownerId 7 with features := tag }

/-- The sets of a run. -/
def tags : Set Features := {.empty, tag}

theorem tags_injOn : Set.InjOn (featuresHash (H := Digest)) tags := by
  have hne : (featuresHash Features.empty : Digest) ≠ featuresHash tag := by decide +kernel
  rintro f (rfl | rfl) g (rfl | rfl) h
  · rfl
  · exact absurd h hne
  · exact absurd h.symm hne
  · rfl

theorem tags_storable : ∀ f ∈ tags, f.Storable := by
  rintro f (rfl | rfl) e he
  · exact (List.not_mem_nil he).elim
  · rw [show tag.entries = [("scenario", .int 1)] from rfl, List.mem_singleton] at he
    rw [he]
    trivial

/-- A tagged series, added in a transaction that stays open. -/
def remembering : Store Digest (MemoryBackend Digest) :=
  after [⟨.beginTransaction, []⟩, ⟨.addRequests [tagged 1], []⟩]

theorem remembering_reachable : remembering.ReachableBy (SetTurn tags) := by
  have hbegin : (after [⟨.beginTransaction, []⟩]).ReachableBy (SetTurn tags) :=
    .turn ⟨.beginTransaction, []⟩ (.create trivial (fun _ => FMap.get_empty _)
      fun _ => FMap.get_empty _) ⟨trivial, fun h => by cases h.1⟩
  refine .turn ⟨.addRequests [tagged 1], []⟩ hbegin ⟨fun i hi _ => ?_, fun h => by cases h.1⟩
  rw [List.mem_singleton.mp hi]
  exact Or.inr rfl

/-- The cache remembers the tag, and the tag is filed. -/
theorem sharedSets_present_tagged :
    featuresHash tag ∈ remembering.txn.sharedSets.features ∧
      remembering.db.Remembered tags remembering.txn.sharedSets.features :=
  ⟨by decide +kernel, (sharedSets_present tags_injOn (Or.inl rfl) tags_storable
    remembering_reachable).2.1 (by decide +kernel)⟩

/-- The level's rows are taken back, and the level stays open. -/
def stale : Store Digest (MemoryBackend Digest) :=
  remembering.turned ⟨.rollbackTransaction, [.none, .fails]⟩

/-- A cache that outlives what it remembers: the transaction is open, the set is gone, and the next
add files a row that names it. -/
theorem sharedSets_stale :
    stale.Reachable ∧ stale.inTransaction = true ∧ stale.transactionWasForcedBack = false ∧
      featuresHash tag ∈ stale.txn.sharedSets.features ∧ stale.db.featureSets = [] ∧
      stale.succeeds ⟨.addRequests [tagged 1], []⟩ = true ∧
      (stale.turned ⟨.addRequests [tagged 1], []⟩).db.rows.map (·.featuresHash) =
        [featuresHash tag] ∧
      (stale.turned ⟨.addRequests [tagged 1], []⟩).db.featureSets = [] :=
  ⟨.turn ⟨.rollbackTransaction, [.none, .fails]⟩ remembering_reachable.reachable, by decide +kernel⟩

end Sample

end Store

end InfraStore
