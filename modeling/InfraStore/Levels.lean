import InfraStore.Lineage

/-!
# Work done inside one nesting level

A caller that opens a level, writes, and then closes or rolls back the level.  The module says what such
work leaves, whatever the writes are.

* `Inside`: a store between the begin and the end of a level, with no level open within it;
* `Inside.rolledBack`: rolling the level back restores the begin, unless the engine had taken back a
  transaction that was open before it;
* `Inside.commit`: closing the level keeps what its rows name;
* `add`, `Additions`: series filed one after another, and `add_spec`: what one add does inside a level.
-/

namespace InfraStore.Store

open Lib Connection

section

set_option linter.unusedSectionVars false

variable {H B : Type} [DecidableEq H] [ArrayBackend H B] [Sha256 H] [FloatText] [ToString H]
  [LawfulArrayBackend H B]

/-- A store that has come back: the levels, the catalog, and every object a row names as they were. -/
structure Restored (s₀ s : Store H B) : Prop where
  inv : s.Inv
  depth : s.depth = s₀.depth
  db : s.db = s₀.db
  array {h : H} {a : TypedArray} :
    s₀.db.References h → s₀.arrays.content h = some a → s.arrays.content h = some a
  axis {t : H} {ms : List ℤ} :
    s₀.db.referencesTimestamps t = true → s₀.arrays.vector t = some ms → s.arrays.vector t = some ms

theorem Restored.refl {s : Store H B} (hs : s.Inv) : Restored s s :=
  ⟨hs, rfl, rfl, fun _ e => e, fun _ e => e⟩

/-- The engine has rolled back a transaction that was open before: the catalog is the committed one. -/
structure Lost (s₀ s : Store H B) : Prop where
  inv : s.Inv
  within : 0 < s₀.depth
  db : s.db = s₀.committedCatalog
  gone : s.conn.savepoints = []

/-- A store inside a level begun at `s₀`, with no level open within it. -/
structure Inside (s₀ s : Store H B) : Prop where
  inv : s.Inv
  frame : Frame s₀ s []
  begun : s₀.Inv
  levels : s₀.txn.marks.length = s₀.conn.savepoints.length

variable {s₀ s s' : Store H B}

theorem Inside.of_begun (hs : s₀.Inv) (h : Begun s₀ s) : Inside s₀ s :=
  ⟨hs.begun h, .begun h, hs, (hs.alive h.alive).length_eq⟩

theorem Inside.marks (h : Inside s₀ s) : s.txn.marks = s₀.txn.written.mark :: s₀.txn.marks :=
  h.frame.marks

theorem Inside.depth (h : Inside s₀ s) : s.depth = s₀.depth + 1 := by
  unfold Store.depth
  rw [h.marks, List.length_cons]

theorem Inside.inTransaction (h : Inside s₀ s) : s.inTransaction = true := by
  rw [inTransaction_iff, h.marks]
  exact List.cons_ne_nil _ _

/-- A write stays inside the level. -/
theorem Inside.wrote {w g : FileObjects H} (h : Inside s₀ s) (hw : Wrote s s' w g) : Inside s₀ s' :=
  ⟨h.inv.effect (.wrote w g hw), h.frame.wrote hw, h.begun, h.levels⟩

/-- Every command that only writes stays inside the level. -/
theorem Inside.keeps {α : Type} {c : StoreCmd (Store H B) α}
    (hc : ∀ s : Store H B, s.Inv → c.wp (fun _ s' => ∃ w g, Wrote s s' w g) s) :
    Cmd.Keeps (Inside s₀) c := by
  intro s hs
  refine Cmd.wp_mono (hc s hs.inv) fun r s' h => ?_
  obtain ⟨w, g, h⟩ := h
  exact hs.wrote h

/-- The catalog the engine goes back to is the one committed at the begin. -/
theorem committedCatalog_of_last {c : Catalog H}
    (h : (s₀.db :: s₀.conn.savepoints).getLast? = some c) : c = s₀.committedCatalog := by
  unfold committedCatalog
  rw [List.getLast?_cons] at h
  exact (Option.some.inj h).symm

/-- **Rolling the level back restores its begin**, unless the engine had rolled back a transaction that
was open before it. -/
theorem Inside.rolledBack (h : Inside s₀ s) (hs' : s'.Inv) (hout : RollbackOutcome s (.ok ()) s') :
    Restored s₀ s' ∨ Lost s₀ s' := by
  have hrestored : s'.depth = s₀.depth → Restored s₀ s' := by
    intro hd
    obtain ⟨hdb, harray, haxis⟩ := h.frame.rolledBack h.begun h.levels h.inv hout hd
    exact ⟨hs', hd, hdb, fun _ => harray _ _, fun _ => haxis _ _⟩
  rcases hout with ⟨removed, -, hd⟩ | ⟨mark, outer, saved, rest, removed, hu, -⟩ | ⟨hf, -⟩
  · rcases Nat.eq_zero_or_pos s₀.depth with h0 | hpos
    · left
      apply hrestored
      unfold Store.depth at h0 ⊢
      rw [hd.txn, h0]
      rfl
    · right
      refine ⟨hs', hpos, ?_, hd.savepoints⟩
      have hnil : s.conn.savepoints = [] := by
        have hforced := hd.forced
        unfold transactionWasForcedBack inAutocommit at hforced
        rw [Bool.and_eq_true] at hforced
        exact List.isEmpty_iff.mp hforced.2
      rcases h.frame.savepoints with ⟨later, e⟩ | ⟨-, e⟩
      · rw [hnil] at e
        simp at e
      · rw [hd.db]
        exact committedCatalog_of_last e
  · left
    apply hrestored
    have hm := hu.marks
    rw [h.marks, List.cons.injEq] at hm
    unfold Store.depth
    rw [hu.txn, hm.2]
    split
    · rename_i e
      rw [e]
      rfl
    · rfl
  · cases hf

/-- What closing the level leaves: the levels around it, the catalog as the writes left it, and every
object that the rows name. -/
structure Kept (s₀ s s' : Store H B) : Prop where
  inv : s'.Inv
  depth : s'.depth = s₀.depth
  db : s'.db = s.db
  array {h : H} {a : TypedArray} :
    s.db.References h → s.arrays.content h = some a → s'.arrays.content h = some a
  axis {t : H} {ms : List ℤ} :
    s.db.referencesTimestamps t = true → s.arrays.vector t = some ms → s'.arrays.vector t = some ms

/-- **Closing the level.**  It keeps what the rows name; a close that fails stays inside. -/
theorem Inside.commit (h : Inside s₀ s) :
    (commitTransaction (B := B)).wp
      (fun r s' => match r with
        | .ok _ => Kept s₀ s s'
        | .error _ => Inside s₀ s') s := by
  refine Cmd.wp_mono (commitTransaction_spec h.inv.toSound) fun r s' hr => ?_
  cases r with
  | error e => exact h.wrote (Stalled.wrote hr)
  | ok u =>
    rcases hr with hr | ⟨garbage, hr⟩
    · refine ⟨h.inv.effect (.released hr), ?_, hr.db, fun _ e => ?_, fun _ e => ?_⟩
      · unfold Store.depth
        rw [hr.txn, h.marks]
        rfl
      · rw [hr.arrays]
        exact e
      · rw [hr.arrays]
        exact e
    · obtain ⟨a, hwritten, hshed, -⟩ := hr.arrays
      refine ⟨h.inv.effect (.committed garbage hr), ?_, hr.db, fun hx e => ?_, fun ht e => ?_⟩
      · have hone := hr.outermost
        rw [h.marks, List.length_cons] at hone
        unfold Store.depth
        rw [hr.txn]
        exact (Nat.succ_injective hone).symm
      · rw [hshed.kept fun c => ((hr.counted.arrays _).mp c).2 hx, hwritten.content]
        exact e
      · rw [hshed.keptAxis fun c => ?_, hwritten.vector]
        · exact e
        · have := ((hr.counted.timestamps _).mp c).2
          rw [ht] at this
          cases this

/-- An object held at the begin that a row still names is held when the level is closed. -/
theorem Kept.since {s₁ : Store H B} (hk : Kept s₀ s₁ s') (h : Inside s₀ s₁) {x : H}
    {a : TypedArray} (hx : s₁.db.References x) (ha : s₀.arrays.content x = some a) :
    s'.arrays.content x = some a := hk.array hx (h.frame.array ha).1

theorem Kept.sinceAxis {s₁ : Store H B} (hk : Kept s₀ s₁ s') (h : Inside s₀ s₁) {t : H}
    {ms : List ℤ} (ht : s₁.db.referencesTimestamps t = true) (hms : s₀.arrays.vector t = some ms) :
    s'.arrays.vector t = some ms := hk.axis ht (h.frame.axis hms).1

/-! ### A level around a body -/

variable {α : Type}

/-- Open a level, run a body in it, and close it. -/
def levelled (body : StoreCmd (Store H B) α) : StoreCmd (Store H B) α := do
  beginTransaction
  let a ← body
  commitTransaction
  pure a

/-- Run a body in a level of its own: when it or the close fails, the level is rolled back and the first
error is the one reported. -/
def inLevel (body : StoreCmd (Store H B) α) : StoreCmd (Store H B) α := do
  beginTransaction
  let outcome ← (do let a ← body; commitTransaction; pure a : StoreCmd (Store H B) α).attempt
  match outcome with
  | .ok a => pure a
  | .error e => do
    let _ ← rollbackTransaction.attempt
    throw e

/-- The rollback that ends a level whose body or close has failed is not refused itself. -/
def RollsBack (body : StoreCmd (Store H B) α) (s : Store H B) : Prop :=
  ((beginTransaction (H := H) (B := B)).exec s).1.isOk = true →
    ((rollbackTransaction (H := H) (B := B)).exec ((levelled body).exec s).2).1.isOk = true

/-- A begin that fails changes nothing, unless the engine rolls a transaction back. -/
theorem Stalled.restored (hs : s.Inv) (h : Stalled s s') : Restored s s' ∨ Lost s s' := by
  have hs' := hs.effect (.wrote _ _ h.wrote)
  have hdepth : s'.depth = s.depth := by
    unfold Store.depth
    rw [h.wrote.marks]
  rcases h.catalog with ⟨-, hdb⟩ | hback
  · left
    refine ⟨hs', hdepth, hdb, fun hx e => ?_, fun ht e => ?_⟩
    · rcases h.wrote.kept e with e | ⟨-, -, hn⟩
      · exact e
      · rw [hdb] at hn
        exact absurd hx hn
    · rcases h.wrote.keptAxis e with e | ⟨-, -, hn⟩
      · exact e
      · rw [hdb, ht] at hn
        cases hn
  · right
    refine ⟨hs', ?_, ?_, hback.savepoints⟩
    · cases hsp : s.conn.savepoints with
      | nil =>
        have := hback.saved
        rw [hsp] at this
        cases this
      | cons c cs =>
        have := (hs.alive_of_savepoint hsp).length_eq
        unfold Store.depth
        rw [this, hsp]
        exact Nat.succ_pos _
    · unfold committedCatalog
      rw [hback.saved]
      rfl

theorem levelled_exec (body : StoreCmd (Store H B) α) {s s₁ : Store H B}
    (h : (beginTransaction (B := B)).exec s = (.ok (), s₁)) :
    (levelled body).exec s = (do let a ← body; commitTransaction; pure a : StoreCmd (Store H B) α).exec s₁ := by
  unfold levelled
  rw [Cmd.exec_bind, h]

/-- **A level around a body that fails.**  Whatever fails, the store comes back as it was before the
level, unless the engine rolled back a transaction that was open before. -/
theorem inLevel_error {body : StoreCmd (Store H B) α} {e : TimeSeriesError} (hs : s.Inv)
    (hbody : Cmd.Keeps (Inside s) body) (hroll : RollsBack body s)
    (h : (inLevel body).exec s = (.error e, s')) : Restored s s' ∨ Lost s s' := by
  have hbegin := beginTransaction_spec hs.toSound
  unfold Cmd.wp at hbegin
  unfold inLevel at h
  rw [Cmd.exec_bind] at h
  unfold RollsBack at hroll
  cases hb : (beginTransaction (B := B)).exec s with
  | mk r s₁ =>
    rw [hb] at hbegin h hroll
    cases r with
    | error e =>
      rw [Prod.mk.injEq] at h
      rw [← h.2]
      exact Stalled.restored hs hbegin
    | ok u =>
      have hinside := Inside.of_begun hs hbegin
      have hsecond := hroll rfl
      rw [levelled_exec body hb] at hsecond
      have hkeeps : (do let a ← body; commitTransaction; pure a : StoreCmd (Store H B) α).wp
          (fun r t => match r with | .ok _ => True | .error _ => Inside s t) s₁ := by
        rw [Cmd.wp_bind]
        refine Cmd.wp_mono (hbody s₁ hinside) fun r t ht => ?_
        cases r with
        | error e => exact ht
        | ok a =>
          show Cmd.wp _ _ t
          rw [Cmd.wp_bind]
          refine Cmd.wp_mono ht.commit fun r t' ht' => ?_
          cases r with
          | error e => exact ht'
          | ok u => exact trivial
      unfold Cmd.wp at hkeeps
      simp only [Cmd.exec_bind (Cmd.attempt _), Cmd.exec_attempt] at h
      cases hrest : (do let a ← body; commitTransaction; pure a : StoreCmd (Store H B) α).exec s₁ with
      | mk r t =>
        rw [hrest] at hkeeps h hsecond
        cases r with
        | ok a => cases h
        | error e' =>
          simp only [Cmd.exec_bind, Cmd.exec_attempt, Cmd.exec_throw, Prod.mk.injEq] at h
          have hout := rollbackTransaction_spec (B := B) (Inside.inv hkeeps).toSound
          have heffect := step_effect (B := B) (Inside.inv hkeeps) .rollbackTransaction
          unfold Cmd.wp at hout heffect
          simp only at hsecond hout
          cases hrb : (rollbackTransaction (H := H) (B := B)).exec t with
          | mk r t' =>
            rw [hrb] at hout h hsecond
            cases r with
            | error e => cases hsecond
            | ok u =>
              rw [← h.2]
              refine Inside.rolledBack hkeeps ?_ hout
              have : ((step (B := B) .rollbackTransaction).exec t).2 = t' := congrArg Prod.snd hrb
              rw [this] at heffect
              exact (Inside.inv hkeeps).effect heffect

/-- **A level around a body that succeeds.**  The level was begun, the body succeeded inside it, and the
close kept what the body left. -/
theorem inLevel_ok {body : StoreCmd (Store H B) α} {a : α} (hs : s.Inv)
    (hbody : Cmd.Keeps (Inside s) body) (h : (inLevel body).exec s = (.ok a, s')) :
    ∃ s₁ s₂, Begun s s₁ ∧ body.exec s₁ = (.ok a, s₂) ∧ Inside s s₂ ∧ Kept s s₂ s' := by
  have hbegin := beginTransaction_spec hs.toSound
  unfold Cmd.wp at hbegin
  unfold inLevel at h
  rw [Cmd.exec_bind] at h
  cases hb : (beginTransaction (B := B)).exec s with
  | mk r s₁ =>
    rw [hb] at hbegin h
    cases r with
    | error e => cases h
    | ok u =>
      have hinside := hbody s₁ (Inside.of_begun hs hbegin)
      unfold Cmd.wp at hinside
      simp only [Cmd.exec_bind, Cmd.exec_attempt] at h
      cases hrun : body.exec s₁ with
      | mk r s₂ =>
        rw [hrun] at h hinside
        cases r with
        | error e => cases h
        | ok a' =>
          have hcommit := Inside.commit (B := B) hinside
          unfold Cmd.wp at hcommit
          simp only at h
          cases hc : (commitTransaction (H := H) (B := B)).exec s₂ with
          | mk r s₃ =>
            rw [hc] at h hcommit
            cases r with
            | error e => cases h
            | ok u =>
              simp only [Cmd.exec_pure, Prod.mk.injEq, Except.ok.injEq] at h
              refine ⟨s₁, s₂, hbegin, ?_, hinside, ?_⟩
              · rw [← h.1]
                exact hrun
              · rw [← h.2]
                exact hcommit

/-! ### Adding one by one -/

/-- Add one series; a batch of one is answered one id. -/
def add (item : AddRequest) : StoreCmd (Store H B) ℤ := do
  let ids ← addRequests [item]
  pure (ids.headD 0)

/-- A row is the one a series is filed as. -/
def FiledAs (item : AddRequest) (r : AssociationRow H) : Prop :=
  ∃ p : RequestParts H, buildRequestParts item = .ok p ∧ r = p.metadata.toRow r.id

/-- Series filed one after another: every one has its row under an id of its own, the ids increase from
what the catalog had issued, and no other row changes. -/
structure Additions (c : Catalog H) (items : List AddRequest) (ids : List ℤ) (c' : Catalog H) :
    Prop where
  rows : ∃ added : List (AssociationRow H), added.map (·.id) = ids ∧
    List.Forall₂ FiledAs items added ∧ ∀ r, r ∈ c'.rows ↔ r ∈ c.rows ∨ r ∈ added
  increasing : ids.Pairwise (· < ·)
  issued : c.seq ≤ c'.seq ∧ ∀ id ∈ ids, c.seq < id ∧ id ≤ c'.seq
  sets : ∀ f ∈ c.featureSets, f ∈ c'.featureSets

theorem Additions.nil (c : Catalog H) : Additions c [] [] c :=
  ⟨⟨[], rfl, .nil, fun r => by simp⟩, .nil, ⟨le_refl _, fun _ h => by cases h⟩, fun _ h => h⟩

theorem Additions.append {c c₁ c₂ : Catalog H} {items items' : List AddRequest} {ids ids' : List ℤ}
    (h : Additions c items ids c₁) (h' : Additions c₁ items' ids' c₂) :
    Additions c (items ++ items') (ids ++ ids') c₂ := by
  obtain ⟨added, hids, hfiled, hmem⟩ := h.rows
  obtain ⟨added', hids', hfiled', hmem'⟩ := h'.rows
  refine ⟨⟨added ++ added', ?_, List.rel_append hfiled hfiled', fun r => ?_⟩, ?_, ⟨?_, ?_⟩, ?_⟩
  · rw [List.map_append, hids, hids']
  · rw [hmem', hmem, List.mem_append, or_assoc]
  · rw [List.pairwise_append]
    refine ⟨h.increasing, h'.increasing, fun a ha b hb => ?_⟩
    exact lt_of_le_of_lt (h.issued.2 a ha).2 (h'.issued.2 b hb).1
  · exact h.issued.1.trans h'.issued.1
  · intro id hid
    rcases List.mem_append.mp hid with hid | hid
    · exact ⟨(h.issued.2 id hid).1, (h.issued.2 id hid).2.trans h'.issued.1⟩
    · exact ⟨lt_of_le_of_lt h.issued.1 (h'.issued.2 id hid).1, (h'.issued.2 id hid).2⟩
  · exact fun f hf => h'.sets f (h.sets f hf)

/-- An accepted batch of one is one addition, and its id is the one answered. -/
theorem Filed.addition {item : AddRequest} {s : Store H B} {a : ArrayStore H B} {ids : List ℤ}
    {db : Catalog H} {parts : List (RequestParts H)} (h : Filed [item] s a ids db parts) :
    ∃ id, ids = [id] ∧ Additions s.db [item] [id] db := by
  have hbuilt := mapM_eq_ok.mp h.built
  cases hbuilt with
  | @cons _ p _ _ hbuild hrest =>
  cases hrest
  obtain ⟨cache, cache', -, hchain⟩ := h.chain
  generalize hy : (ids, cache') = y at hchain
  cases hchain with
  | @cons _ _ _ _ db₁ _ x y' head tail =>
    cases tail
    have hids : ids = [x.1] := congrArg Prod.fst hy
    obtain ⟨hmem, -, -, hassigned, -, hsets⟩ := head.2.spec
    have hid : x.1 = s.db.seq + 1 := hassigned (buildRequestParts_id hbuild)
    refine ⟨x.1, hids, ⟨⟨[p.metadata.toRow x.1], rfl, .cons ⟨p, hbuild, rfl⟩ .nil, fun r => ?_⟩,
      List.pairwise_singleton _ _, ⟨?_, fun id hi => ?_⟩, fun f hf => ?_⟩⟩
    · rw [hmem, List.mem_singleton, or_comm]
    · rw [head.2.seq]
      exact le_max_left _ _
    · rw [List.mem_singleton.mp hi, head.2.seq]
      exact ⟨by omega, le_max_right _ _⟩
    · rw [hsets]
      exact Catalog.withFeatures_sets _ _ _ f hf

/-- **One add.**  It writes; when it succeeds the series is filed under the id it answers. -/
theorem add_spec {s : Store H B} (hs : s.Inv) (item : AddRequest) :
    (add (B := B) item).wp (fun r s' => (∃ w g, Wrote s s' w g) ∧
      ∀ id, r = .ok id → Additions s.db [item] [id] s'.db) s := by
  unfold add
  rw [Cmd.wp_bind]
  refine Cmd.wp_mono (addRequests_spec hs.toSound [item]) fun r s' h => ?_
  obtain ⟨⟨w, hw⟩, hout⟩ := h
  cases r with
  | error e => exact ⟨⟨w, _, hw⟩, fun id hid => by cases hid⟩
  | ok ids =>
    refine ⟨⟨w, _, hw⟩, fun id hid => ?_⟩
    obtain ⟨-, -, parts, hfiled⟩ := hout
    obtain ⟨id', rfl, hadd⟩ := hfiled.addition
    rw [← Except.ok.inj hid]
    exact hadd

end

end InfraStore.Store
