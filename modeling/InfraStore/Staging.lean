import InfraStore.ArrayEffects

/-!
# Adding series

The one write path every add takes, step by step: the time axes, then the arrays, then the rows.

* `Stages`: what a step of the call does to the store and to what the call has written;
* `stageTimestampVectors_spec`, `stageArrays_spec`: afterwards every axis and array of the batch is
  held;
* `fileRows_spec`: the rows are filed, all or none;
* `addRequestsStaged_spec`: the call as a whole.
-/

namespace InfraStore

open Lib

namespace Store

section

set_option linter.unusedSectionVars false

variable {H B : Type} [DecidableEq H] [ArrayBackend H B] [Sha256 H] [LawfulArrayBackend H B]

/-! ### Removing objects -/

theorem foldr_arrays (hs : List H) :
    hs.foldr (fun h o => (⟨[h], []⟩ : FileObjects H).append o) .empty = ⟨hs, []⟩ := by
  induction hs with
  | nil => rfl
  | cons h hs ih => rw [List.foldr_cons, ih]; rfl

theorem foldr_timestamps (ts : List H) :
    ts.foldr (fun t o => (⟨[], [t]⟩ : FileObjects H).append o) .empty = ⟨[], ts⟩ := by
  induction ts with
  | nil => rfl
  | cons t ts ih => rw [List.foldr_cons, ih]; rfl

/-- **Removing what is unreachable.**  It always succeeds. -/
theorem removeWrites_spec {s : ArrayStore H B} (hs : s.Valid) (w : FileObjects H) :
    (removeWrites (B := B) w).wp (fun r s' => r.isOk = true ∧ s.Shed s' w) s := by
  unfold removeWrites
  rw [Cmd.wp_bind]
  refine Cmd.wp_mono (ArrayStore.shed_forM _ (fun h => ⟨[h], []⟩) (fun {s} hs h => ?_) w.arrays hs) ?_
  · rw [Cmd.wp_bind]
    refine Cmd.wp_mono (ArrayStore.removeArray_shed hs h) ?_
    rintro r s' ⟨hr, hshed⟩
    rcases r with e | u
    · cases hr
    · exact ⟨rfl, hshed⟩
  · rintro r s₁ ⟨hr, h₁⟩
    rcases r with e | u
    · cases hr
    · refine Cmd.wp_mono (ArrayStore.shed_forM _ (fun t => ⟨[], [t]⟩) (fun {s} hs t => ?_)
        w.timestamps h₁.valid) ?_
      · rw [Cmd.wp_bind]
        refine Cmd.wp_mono (ArrayStore.removeTimestamps_shed hs t) ?_
        rintro r s' ⟨hr, hshed⟩
        rcases r with e | u
        · cases hr
        · exact ⟨rfl, hshed⟩
      · rintro r s₂ ⟨hr₂, h₂⟩
        refine ⟨hr₂, ?_⟩
        have := h₁.trans h₂
        rw [foldr_arrays, foldr_timestamps] at this
        rw [show w = (⟨w.arrays, []⟩ : FileObjects H).append ⟨[], w.timestamps⟩ from by
          unfold FileObjects.append
          rw [List.append_nil, List.nil_append]]
        exact this

/-- Taking a buffered array out of the buffer removes it; another hash changes nothing. -/
theorem buffer_remove_shed {s : ArrayStore H B} (hs : s.Valid) (h : H) :
    s.Shed ⟨(s.buffer.remove h).2, s.backend⟩
      ⟨if (s.buffer.remove h).1 = true then [h] else [], []⟩ := by
  obtain ⟨hflag, hix, hget⟩ := hs.indexed.remove h
  split
  · rename_i hd
    have hspec := ArrayStore.removeArray_shed hs h
    unfold ArrayStore.removeArray at hspec
    simp only [Cmd.wp_attempt, Cmd.wp_bind, Cmd.wp_get, Cmd.wp_set, hd, if_true, Cmd.wp_pure] at hspec
    exact hspec.2
  · rename_i hd
    have hn : s.buffer.get h = none := by
      rw [hflag, Bool.not_eq_true] at hd
      simpa using hd
    have hsame : (s.buffer.remove h).2.get = s.buffer.get := by
      rw [hget, ← hn, Function.update_eq_self]
    have hcontent : ∀ x, (⟨(s.buffer.remove h).2, s.backend⟩ : ArrayStore H B).content x =
        s.content x := fun x => by
      show ((s.buffer.remove h).2.get x).or _ = _
      rw [hsame]
      rfl
    have hg : ∀ {x a}, (⟨(s.buffer.remove h).2, s.backend⟩ : ArrayStore H B).buffer.get x = some a →
        s.buffer.get x = some a := fun e => (congrFun hsame _).symm.trans e
    refine ⟨⟨hs.backend, hix, fun e e' => hs.agree (hg e) e'⟩,
      fun hQ => ⟨hQ.backend, fun e => hQ.disjoint (hg e)⟩, fun _ => hcontent _,
      fun x => Or.inl (hcontent x), fun _ e => (List.not_mem_nil e).elim, fun x => ?_,
      fun _ => rfl, fun _ => Or.inl rfl, fun _ e => (List.not_mem_nil e).elim⟩
    rw [if_neg List.not_mem_nil]
    exact congrFun hsame x

/-- **Dropping what is buffered.**  The hashes that were not buffered come back, and nothing of the
list is buffered any more. -/
theorem retainStored_spec (hs : List H) : ∀ {s : ArrayStore H B}, s.Valid →
    ∃ dropped : List H, s.Shed ⟨(retainStored hs s.buffer).2, s.backend⟩ ⟨dropped, []⟩ ∧
      (∀ h ∈ dropped, h ∈ hs) ∧ (∀ h ∈ (retainStored hs s.buffer).1, h ∈ hs) ∧
      (∀ h ∈ hs, h ∈ dropped ∨ h ∈ (retainStored hs s.buffer).1) ∧
      ∀ h ∈ hs, (retainStored hs s.buffer).2.get h = none := by
  induction hs with
  | nil =>
    intro s hv
    refine ⟨[], ArrayStore.Shed.refl hv, ?_, ?_, ?_, ?_⟩ <;>
      exact fun _ h => (List.not_mem_nil h).elim
  | cons h hs ih =>
    intro s hv
    have hfirst := buffer_remove_shed hv h
    obtain ⟨dropped, hrest, h1, h2, h3, h4⟩ := ih hfirst.valid
    refine ⟨(if (s.buffer.remove h).1 = true then [h] else []) ++ dropped, hfirst.trans hrest, ?_, ?_,
      ?_, fun x hx => ?_⟩
    · intro x hx
      rcases List.mem_append.mp hx with hx | hx
      · split at hx
        · rw [List.mem_singleton.mp hx]
          exact List.mem_cons_self
        · cases hx
      · exact List.mem_cons_of_mem _ (h1 x hx)
    · intro x hx
      unfold retainStored at hx
      dsimp only at hx
      split at hx
      · exact List.mem_cons_of_mem _ (h2 x hx)
      · rcases List.mem_cons.mp hx with rfl | hx
        · exact List.mem_cons_self
        · exact List.mem_cons_of_mem _ (h2 x hx)
    · intro x hx
      unfold retainStored
      dsimp only
      rcases hd : (s.buffer.remove h).1 with _ | _
      · simp only [Bool.false_eq_true, if_false, List.nil_append, List.mem_cons]
        rcases List.mem_cons.mp hx with rfl | hx
        · exact Or.inr (Or.inl rfl)
        · exact (h3 x hx).imp_right Or.inr
      · simp only [if_true, List.mem_append, List.mem_singleton]
        rcases List.mem_cons.mp hx with rfl | hx
        · exact Or.inl (Or.inl rfl)
        · exact (h3 x hx).imp_left Or.inr
    · show (retainStored hs (s.buffer.remove h).2).2.get x = none
      by_cases hxs : x ∈ hs
      · exact h4 x hxs
      · rcases List.mem_cons.mp hx with rfl | hx
        · have := hrest.buffered x
          rw [show (ArrayStore.mk (retainStored hs (s.buffer.remove x).2).2 s.backend).buffer.get x =
            (retainStored hs (s.buffer.remove x).2).2.get x from rfl] at this
          rw [this, if_neg fun c => hxs (h1 x c)]
          exact (congrFun (hv.indexed.remove x).2.2 x).trans (Function.update_self _ _ _)
        · exact absurd hx hxs

/-! ### Writing a batch's objects -/

namespace Staging

/-- A step of a write call: objects are added, each recorded and each a part's. -/
structure Stages (parts : List (RequestParts H)) (t t' : Staging H B) : Prop where
  conn : t'.store.conn = t.store.conn
  txn : t'.store.txn = t.store.txn
  written : ∃ w, t'.staged = t.staged.append w ∧ t.store.arrays.Grew t'.store.arrays w ∧
    (∀ h ∈ w.arrays, ∃ p ∈ parts, p.hash = h) ∧ ∀ h ∈ w.timestamps, ∃ p ∈ parts, p.group = .irregular h
  idle : t.store.inTransaction = false → ∀ x,
    (t'.store.arrays.buffer.get x).isSome → (t.store.arrays.buffer.get x).isSome

theorem Stages.refl {parts : List (RequestParts H)} {t : Staging H B} (ht : t.store.arrays.Valid) :
    Stages parts t t :=
  ⟨rfl, rfl, ⟨.empty, (FileObjects.append_empty _).symm, .refl ht, fun _ h => (List.not_mem_nil h).elim,
    fun _ h => (List.not_mem_nil h).elim⟩, fun _ _ h => h⟩

theorem Stages.trans {parts : List (RequestParts H)} {t t' t'' : Staging H B}
    (h : Stages parts t t') (h' : Stages parts t' t'') : Stages parts t t'' := by
  obtain ⟨w, hw, hg, ha, hx⟩ := h.written
  obtain ⟨w', hw', hg', ha', hx'⟩ := h'.written
  have htx : t'.store.inTransaction = t.store.inTransaction := by
    unfold inTransaction
    rw [h.txn]
  refine ⟨h'.conn.trans h.conn, h'.txn.trans h.txn, ⟨w.append w', ?_, hg.trans hg', ?_, ?_⟩,
    fun hi x e => h.idle hi x (h'.idle (htx.trans hi) x e)⟩
  · rw [hw', hw, FileObjects.append_assoc]
  · exact fun x e => (FileObjects.mem_append_arrays.mp e).elim (ha x) (ha' x)
  · exact fun x e => (FileObjects.mem_append_timestamps.mp e).elim (hx x) (hx' x)

theorem Stages.valid {parts : List (RequestParts H)} {t t' : Staging H B} (h : Stages parts t t') :
    t'.store.arrays.Valid := by
  obtain ⟨w, -, hg, -⟩ := h.written
  exact hg.valid

theorem Stages.held {parts : List (RequestParts H)} {t t' : Staging H B} (h : Stages parts t t')
    {x : H} (hx : (t.store.arrays.content x).isSome) : (t'.store.arrays.content x).isSome := by
  obtain ⟨w, -, hg, -⟩ := h.written
  exact hg.held hx

theorem Stages.heldAxis {parts : List (RequestParts H)} {t t' : Staging H B} (h : Stages parts t t')
    {x : H} (hx : (t.store.arrays.vector x).isSome) : (t'.store.arrays.vector x).isSome := by
  obtain ⟨w, -, hg, -⟩ := h.written
  exact hg.heldAxis hx

/-- A part's explicit axis is in whole milliseconds and named by its hash. -/
def Axed (p : RequestParts H) : Prop :=
  ∀ h ts, p.group = .irregular h → p.metadata.timestamps = some ts →
    (∀ x ∈ ts, x.IsMillis) ∧ timestampsHash ts = h

/-- Every axis a cache remembers is held. -/
def HeldAxes (t : Staging H B) (seen : SharedSetCache H) : Prop :=
  ∀ x ∈ seen.timestamps, (t.store.arrays.vector x).isSome

/-- The axis a part names, if it names one, is held. -/
def HeldAxis (t : Staging H B) (p : RequestParts H) : Prop :=
  ∀ h ts, p.group = .irregular h → p.metadata.timestamps = some ts →
    (t.store.arrays.vector h).isSome

theorem noteTimestamps_held {t : Staging H B} {seen : SharedSetCache H} {h : H}
    (hs : HeldAxes t seen) (hh : (t.store.arrays.vector h).isSome) :
    HeldAxes t (seen.noteTimestamps h) := by
  unfold SharedSetCache.noteTimestamps
  split
  · exact hs
  · intro x hx
    rcases List.mem_cons.mp hx with rfl | hx
    · exact hh
    · exact hs x hx

theorem noteTimestamps_features (seen : SharedSetCache H) (h : H) :
    (seen.noteTimestamps h).features = seen.features := by
  unfold SharedSetCache.noteTimestamps
  split <;> rfl

theorem stageTimestampVector_spec {parts : List (RequestParts H)} {t : Staging H B}
    (ht : t.store.arrays.Valid) {p : RequestParts H} (hp : p ∈ parts) (hax : Axed p)
    {seen : SharedSetCache H} (hseen : HeldAxes t seen) :
    (stageTimestampVector (B := B) p.group p.metadata.timestamps seen).wp
      (fun r t' => Stages parts t t' ∧ ∀ seen', r = .ok seen' →
        seen'.features = seen.features ∧ HeldAxes t' seen' ∧ HeldAxis t' p) t := by
  unfold stageTimestampVector
  rcases hg : p.group with res | h
  · simp only [Cmd.wp_pure]
    refine ⟨.refl ht, fun seen' e => ?_⟩
    cases e
    exact ⟨rfl, hseen, fun h ts e => by rw [hg] at e; cases e⟩
  rcases hts : p.metadata.timestamps with _ | ts
  · simp only [Cmd.wp_pure]
    refine ⟨.refl ht, fun seen' e => ?_⟩
    cases e
    exact ⟨rfl, hseen, fun h ts _ e => by rw [hts] at e; cases e⟩
  simp only
  have hself : ∀ t' : Staging H B, (t'.store.arrays.vector h).isSome → HeldAxis t' p := by
    intro t' hh h' ts' e _
    rw [hg] at e
    cases e
    exact hh
  split
  · rename_i hmem
    rw [Cmd.wp_pure]
    refine ⟨.refl ht, fun seen' e => ?_⟩
    cases e
    exact ⟨rfl, hseen, hself t (hseen h hmem)⟩
  · simp only [Cmd.wp_bind, onStore, onArrays, Cmd.wp_zoom]
    refine Cmd.wp_mono (ArrayStore.putTimestamps_grew ht h (hax h ts hg hts)) ?_
    rintro r s' ⟨hgrew, hheld, hbuf⟩
    have hidle : ∀ x, (s'.buffer.get x).isSome → (t.store.arrays.buffer.get x).isSome := by
      intro x e
      rw [← hbuf]
      exact e
    rcases r with e | stored
    · exact ⟨⟨rfl, rfl, ⟨.empty, (FileObjects.append_empty _).symm, hgrew,
        fun _ h => (List.not_mem_nil h).elim, fun _ h => (List.not_mem_nil h).elim⟩,
        fun _ => hidle⟩, fun _ h => by cases h⟩
    · have hh : (s'.vector h).isSome := hheld rfl
      have hout : ∀ t' : Staging H B, t'.store.arrays = s' →
          HeldAxes t' (seen.noteTimestamps h) ∧ HeldAxis t' p := by
        intro t' e
        refine ⟨noteTimestamps_held (fun x hx => ?_) (by rw [e]; exact hh),
          hself t' (by rw [e]; exact hh)⟩
        rw [e]
        exact hgrew.heldAxis (hseen x hx)
      rcases stored with _ | _
      · simp only [Bool.false_eq_true, if_false, Cmd.wp_pure]
        refine ⟨⟨rfl, rfl, ⟨.empty, (FileObjects.append_empty _).symm, hgrew,
          fun _ h => (List.not_mem_nil h).elim, fun _ h => (List.not_mem_nil h).elim⟩,
          fun _ => hidle⟩, fun seen' e => ?_⟩
        cases e
        exact ⟨noteTimestamps_features _ _, hout _ rfl⟩
      · simp only [if_true, Cmd.wp_bind, Cmd.wp_modify, Cmd.wp_pure]
        refine ⟨⟨rfl, rfl, ⟨⟨[], [h]⟩, ?_, hgrew, fun _ h => (List.not_mem_nil h).elim,
          fun x hx => ⟨p, hp, ?_⟩⟩, fun _ => hidle⟩, fun seen' e => ?_⟩
        · unfold FileObjects.append
          rw [List.append_nil]
        · rw [hg, List.mem_singleton.mp hx]
        · cases e
          exact ⟨noteTimestamps_features _ _, hout _ rfl⟩

/-- **The time axes of a batch.**  Afterwards every one of them is held. -/
theorem stageTimestampVectors_spec {parts : List (RequestParts H)} (ps : List (RequestParts H)) :
    ∀ {t : Staging H B}, t.store.arrays.Valid → (∀ p ∈ ps, p ∈ parts) → (∀ p ∈ ps, Axed p) →
      ∀ {seen : SharedSetCache H}, HeldAxes t seen →
      (stageTimestampVectors (B := B) ps seen).wp
        (fun r t' => Stages parts t t' ∧ ∀ seen', r = .ok seen' →
          seen'.features = seen.features ∧ HeldAxes t' seen' ∧ ∀ p ∈ ps, HeldAxis t' p) t := by
  induction ps with
  | nil =>
    intro t ht _ _ seen hseen
    refine ⟨.refl ht, fun seen' e => ?_⟩
    cases e
    exact ⟨rfl, hseen, fun _ h => (List.not_mem_nil h).elim⟩
  | cons p ps ih =>
    intro t ht hparts hax seen hseen
    unfold stageTimestampVectors
    rw [Cmd.wp_bind]
    refine Cmd.wp_mono (stageTimestampVector_spec ht (hparts p List.mem_cons_self)
      (hax p List.mem_cons_self) hseen) ?_
    rintro r t₁ ⟨h₁, hok₁⟩
    rcases r with e | seen₁
    · exact ⟨h₁, fun _ h => by cases h⟩
    · obtain ⟨hf₁, hs₁, hp₁⟩ := hok₁ seen₁ rfl
      refine Cmd.wp_mono (ih h₁.valid (fun p h => hparts p (List.mem_cons_of_mem _ h))
        (fun p h => hax p (List.mem_cons_of_mem _ h)) hs₁) ?_
      rintro r t₂ ⟨h₂, hok₂⟩
      refine ⟨h₁.trans h₂, fun seen₂ e => ?_⟩
      obtain ⟨hf₂, hs₂, hp₂⟩ := hok₂ seen₂ e
      refine ⟨hf₂.trans hf₁, hs₂, fun q hq => ?_⟩
      rcases List.mem_cons.mp hq with rfl | hq
      · exact fun h ts e e' => h₂.heldAxis (hp₁ h ts e e')
      · exact hp₂ q hq

/-- One array, put on its own. -/
theorem stagePut_spec {parts : List (RequestParts H)} {t : Staging H B} (ht : t.store.arrays.Valid)
    {a : TypedArray} {p : RequestParts H} (hp : p ∈ parts) (ha : Faithful p.hash a) :
    (stagePut (B := B) a p).wp (fun r t' => Stages parts t t' ∧
      (r.isOk = true → (t'.store.arrays.content p.hash).isSome)) t := by
  unfold stagePut
  rw [Cmd.wp_bind, Cmd.wp_get]
  simp only [Cmd.wp_bind, onStore, onArrays, Cmd.wp_zoom]
  refine Cmd.wp_mono (ArrayStore.putArray_grew ht _ p.hash p.group p.layout ha) ?_
  rintro r s' ⟨hgrew, hheld, hbuf⟩
  rcases r with e | _ | _
  · exact ⟨⟨rfl, rfl, ⟨.empty, (FileObjects.append_empty _).symm, hgrew,
      fun _ h => (List.not_mem_nil h).elim, fun _ h => (List.not_mem_nil h).elim⟩, hbuf⟩,
      fun h => by cases h⟩
  · exact ⟨⟨rfl, rfl, ⟨.empty, (FileObjects.append_empty _).symm, hgrew,
      fun _ h => (List.not_mem_nil h).elim, fun _ h => (List.not_mem_nil h).elim⟩, hbuf⟩,
      fun _ => hheld rfl⟩
  · refine ⟨⟨rfl, rfl, ⟨⟨[p.hash], []⟩, ?_, hgrew, fun x hx => ⟨p, hp, ?_⟩,
      fun _ h => (List.not_mem_nil h).elim⟩, hbuf⟩, fun _ => hheld rfl⟩
    · show FileObjects.mk _ _ = _
      unfold FileObjects.append
      rw [List.append_nil]
    · rw [List.mem_singleton.mp hx]

/-! ### The pools of a batch -/

theorem firstOfHash_mem {xs : List (TypedArray × RequestParts H)} :
    ∀ {seen : List H} {x}, x ∈ firstOfHash xs seen → x ∈ xs ∧ x.2.hash ∉ seen := by
  induction xs with
  | nil => exact fun h => (List.not_mem_nil h).elim
  | cons y xs ih =>
    intro seen x hx
    unfold firstOfHash at hx
    split at hx
    · exact ⟨List.mem_cons_of_mem _ (ih hx).1, (ih hx).2⟩
    · rename_i hn
      rcases List.mem_cons.mp hx with rfl | hx
      · exact ⟨List.mem_cons_self, hn⟩
      · obtain ⟨h1, h2⟩ := ih hx
        exact ⟨List.mem_cons_of_mem _ h1, fun c => h2 (List.mem_cons_of_mem _ c)⟩

theorem firstOfHash_nodup (xs : List (TypedArray × RequestParts H)) :
    ∀ seen : List H, ((firstOfHash xs seen).map (·.2.hash)).Nodup := by
  induction xs with
  | nil => exact fun _ => List.nodup_nil
  | cons y xs ih =>
    intro seen
    unfold firstOfHash
    split
    · exact ih seen
    · refine List.nodup_cons.mpr ⟨fun c => ?_, ih _⟩
      obtain ⟨x, hx, he⟩ := List.mem_map.mp c
      exact (firstOfHash_mem hx).2 (by rw [he]; exact List.mem_cons_self)

/-- Every hash of a batch is the hash of one of its first requests. -/
theorem firstOfHash_covers {xs : List (TypedArray × RequestParts H)} :
    ∀ (seen : List H) {x}, x ∈ xs → x.2.hash ∉ seen →
      ∃ y ∈ firstOfHash xs seen, y.2.hash = x.2.hash := by
  induction xs with
  | nil => exact fun _ _ h => (List.not_mem_nil h).elim
  | cons y xs ih =>
    intro seen x hx hn
    unfold firstOfHash
    split
    · rename_i hy
      rcases List.mem_cons.mp hx with rfl | hx
      · exact absurd hy hn
      · exact ih seen hx hn
    · by_cases he : y.2.hash = x.2.hash
      · exact ⟨y, List.mem_cons_self, he⟩
      · rcases List.mem_cons.mp hx with rfl | hx
        · exact absurd rfl he
        · obtain ⟨z, hz, hzx⟩ := ih (y.2.hash :: seen) hx fun c => by
            rcases List.mem_cons.mp c with c | c
            · exact he c.symm
            · exact hn c
          exact ⟨z, List.mem_cons_of_mem _ hz, hzx⟩

/-- The pools of some arrays: each block distinct arrays of its pool, each array in a block. -/
structure Pooled (xs : List (TypedArray × RequestParts H))
    (pools : List (PoolKey H × List (H × TypedArray))) : Prop where
  nodup : ∀ pool ∈ pools, (pool.2.map Prod.fst).Nodup
  origin : ∀ pool ∈ pools, ∀ it ∈ pool.2,
    ∃ x ∈ xs, x.2.hash = it.1 ∧ x.1 = it.2 ∧ poolKey x.1 x.2.group = pool.1
  covers : ∀ x ∈ xs, ∃ pool ∈ pools, (x.2.hash, x.1) ∈ pool.2

theorem mem_insertPool {key : PoolKey H} {item : H × TypedArray}
    {pools : List (PoolKey H × List (H × TypedArray))} {pool : PoolKey H × List (H × TypedArray)}
    (h : pool ∈ insertPool key item pools) :
    pool ∈ pools ∨ pool = (key, [item]) ∨ ∃ items, (key, items) ∈ pools ∧ pool = (key, items ++ [item]) := by
  induction pools with
  | nil => exact Or.inr (Or.inl (List.mem_singleton.mp h))
  | cons q pools ih =>
    obtain ⟨k, items⟩ := q
    unfold insertPool at h
    split at h
    · rename_i hk
      rcases List.mem_cons.mp h with rfl | h
      · exact Or.inr (Or.inr ⟨items, by rw [← hk]; exact List.mem_cons_self, by rw [hk]⟩)
      · exact Or.inl (List.mem_cons_of_mem _ h)
    · rcases List.mem_cons.mp h with rfl | h
      · exact Or.inl List.mem_cons_self
      · rcases ih h with h | h | ⟨items', h, e⟩
        · exact Or.inl (List.mem_cons_of_mem _ h)
        · exact Or.inr (Or.inl h)
        · exact Or.inr (Or.inr ⟨items', List.mem_cons_of_mem _ h, e⟩)

theorem insertPool_covers (key : PoolKey H) (item : H × TypedArray)
    (pools : List (PoolKey H × List (H × TypedArray))) :
    (∃ pool ∈ insertPool key item pools, item ∈ pool.2) ∧
      ∀ pool ∈ pools, ∀ it ∈ pool.2, ∃ pool' ∈ insertPool key item pools, it ∈ pool'.2 := by
  induction pools with
  | nil => exact ⟨⟨_, List.mem_cons_self, List.mem_cons_self⟩, fun _ h => (List.not_mem_nil h).elim⟩
  | cons q pools ih =>
    obtain ⟨k, items⟩ := q
    unfold insertPool
    split
    · refine ⟨⟨_, List.mem_cons_self, List.mem_append_right _ List.mem_cons_self⟩, ?_⟩
      intro pool hpool it hit
      rcases List.mem_cons.mp hpool with rfl | hpool
      · exact ⟨_, List.mem_cons_self, List.mem_append_left _ hit⟩
      · exact ⟨pool, List.mem_cons_of_mem _ hpool, hit⟩
    · obtain ⟨⟨p, hp, hi⟩, hrest⟩ := ih
      refine ⟨⟨p, List.mem_cons_of_mem _ hp, hi⟩, ?_⟩
      intro pool hpool it hit
      rcases List.mem_cons.mp hpool with rfl | hpool
      · exact ⟨_, List.mem_cons_self, hit⟩
      · obtain ⟨p', hp', hi'⟩ := hrest pool hpool it hit
        exact ⟨p', List.mem_cons_of_mem _ hp', hi'⟩

/-- One more array, of a new hash. -/
theorem Pooled.insert {xs : List (TypedArray × RequestParts H)}
    {pools : List (PoolKey H × List (H × TypedArray))} (hp : Pooled xs pools)
    {x : TypedArray × RequestParts H} (hx : x.2.hash ∉ xs.map (·.2.hash)) :
    Pooled (xs ++ [x]) (insertPool (poolKey x.1 x.2.group) (x.2.hash, x.1) pools) := by
  have hold : ∀ pool ∈ pools, ∀ it ∈ pool.2,
      ∃ y ∈ xs ++ [x], y.2.hash = it.1 ∧ y.1 = it.2 ∧ poolKey y.1 y.2.group = pool.1 := by
    intro pool hpool it hit
    obtain ⟨y, hy, he⟩ := hp.origin pool hpool it hit
    exact ⟨y, List.mem_append_left _ hy, he⟩
  have hself : x ∈ xs ++ [x] := List.mem_append_right _ List.mem_cons_self
  obtain ⟨hhas, hkeep⟩ := insertPool_covers (poolKey x.1 x.2.group) (x.2.hash, x.1) pools
  refine ⟨fun pool hpool => ?_, fun pool hpool it hit => ?_, fun y hy => ?_⟩
  · rcases mem_insertPool hpool with h | rfl | ⟨items, h, rfl⟩
    · exact hp.nodup pool h
    · exact List.nodup_singleton _
    · rw [List.map_append, List.nodup_append]
      refine ⟨hp.nodup _ h, List.nodup_singleton _, fun a ha b hb => ?_⟩
      rw [List.map_singleton, List.mem_singleton] at hb
      obtain ⟨it, hit, rfl⟩ := List.mem_map.mp ha
      obtain ⟨y, hy, he, -⟩ := hp.origin _ h it hit
      rintro rfl
      exact hx (List.mem_map.mpr ⟨y, hy, he.trans hb⟩)
  · rcases mem_insertPool hpool with h | rfl | ⟨items, h, rfl⟩
    · exact hold pool h it hit
    · rw [List.mem_singleton.mp hit]
      exact ⟨x, hself, rfl, rfl, rfl⟩
    · rcases List.mem_append.mp hit with hit | hit
      · exact hold _ h it hit
      · rw [List.mem_singleton.mp hit]
        exact ⟨x, hself, rfl, rfl, rfl⟩
  · rcases List.mem_append.mp hy with hy | hy
    · obtain ⟨pool, hpool, hit⟩ := hp.covers y hy
      exact hkeep pool hpool _ hit
    · rw [List.mem_singleton.mp hy]
      exact hhas

theorem groupPools_pooled {xs : List (TypedArray × RequestParts H)}
    (hnd : (xs.map (·.2.hash)).Nodup) : Pooled xs (groupPools xs) := by
  unfold groupPools
  have hall : ∀ (done rest : List (TypedArray × RequestParts H)) pools,
      ((done ++ rest).map (·.2.hash)).Nodup → Pooled done pools →
      Pooled (done ++ rest) (rest.foldl
        (fun pools x => insertPool (poolKey x.1 x.2.group) (x.2.hash, x.1) pools) pools) := by
    intro done rest
    induction rest generalizing done with
    | nil =>
      intro pools _ hp
      rw [List.append_nil]
      exact hp
    | cons x rest ih =>
      intro pools hnd hp
      rw [List.foldl_cons, List.append_cons]
      refine ih (done ++ [x]) _ (by rw [← List.append_cons]; exact hnd) (hp.insert ?_)
      rw [List.map_append, List.nodup_append] at hnd
      intro c
      exact hnd.2.2 _ c _ (by rw [List.map_cons]; exact List.mem_cons_self) rfl
  refine hall [] xs [] hnd ⟨?_, ?_, ?_⟩ <;> exact fun _ h => (List.not_mem_nil h).elim

/-! ### Writing the arrays of a batch -/

/-- One pool's block. -/
theorem stageBlock_spec {parts : List (RequestParts H)} {t : Staging H B}
    (ht : t.store.arrays.Valid) (hidle : ∀ x, t.store.arrays.buffer.get x = none)
    {pool : PoolKey H × List (H × TypedArray)} (hnd : (pool.2.map Prod.fst).Nodup)
    (hit : ∀ it ∈ pool.2, Faithful it.1 it.2 ∧ (∃ p ∈ parts, p.hash = it.1) ∧
      poolKey it.2 pool.1.group = pool.1) :
    (stageBlock (B := B) pool).wp (fun r t' => Stages parts t t' ∧
      (∀ x, t'.store.arrays.buffer.get x = none) ∧
      (r.isOk = true → ∀ it ∈ pool.2, (t'.store.arrays.content it.1).isSome)) t := by
  unfold stageBlock
  simp only [Cmd.wp_bind, onStore, onArrays, ArrayStore.onBackend, Cmd.wp_zoom]
  refine Cmd.wp_mono (putBlock_spec pool.1.group ht.backend hnd (fun it h => (hit it h).1.2)
    fun i hi j hj => ?_) ?_
  · obtain ⟨⟨-, h1⟩, -, h2⟩ := hit i hi
    obtain ⟨⟨-, h3⟩, -, h4⟩ := hit j hj
    exact poolKey_shape h1 h3 (h2.trans h4.symm)
  rintro r b' ⟨hv, hq, hvec, hr⟩
  have hfaith : ∀ it ∈ pool.2, Faithful it.1 it.2 := fun it h => (hit it h).1
  have hcontent : ∀ x, (⟨t.store.arrays.buffer, b'⟩ : ArrayStore H B).content x =
      LawfulArrayBackend.array b' x := by
    intro x
    show (t.store.arrays.buffer.get x).or _ = _
    rw [hidle, Option.none_or]
  rcases r with e | written
  · obtain ⟨harr, hsame⟩ := hr
    refine ⟨⟨rfl, rfl, ⟨.empty, (FileObjects.append_empty _).symm,
      ArrayStore.backend_grew ht hidle hv hq hvec harr hfaith (fun _ h => (List.not_mem_nil h).elim)
        fun hQ x hx => Or.inl (by rw [← hsame hQ]; exact hx),
      fun _ h => (List.not_mem_nil h).elim, fun _ h => (List.not_mem_nil h).elim⟩, fun _ _ h => h⟩,
      hidle, fun h => by cases h⟩
  · obtain ⟨harr, hflags⟩ := hr
    have hnew : ∀ h, h ∈ ((pool.2.zip written).filter (·.2)).map (·.1.1) ↔
        LawfulArrayBackend.array t.store.arrays.backend h = none ∧ ∃ i ∈ pool.2, i.1 = h := by
      intro h
      rw [← hflags h, List.mem_map]
      constructor
      · rintro ⟨p, hp, rfl⟩
        exact ⟨p, (List.mem_filter.mp hp).1, rfl, (List.mem_filter.mp hp).2⟩
      · rintro ⟨p, hp, rfl, hf⟩
        exact ⟨p, List.mem_filter.mpr ⟨hp, hf⟩, rfl⟩
    simp only [Cmd.wp_modify]
    refine ⟨⟨rfl, rfl, ⟨⟨((pool.2.zip written).filter (·.2)).map (·.1.1), []⟩, ?_,
      ArrayStore.backend_grew ht hidle hv hq hvec (fun h => Or.inr (congrFun harr h)) hfaith
        (fun h hh => ((hnew h).mp hh).1) (fun _ x hx => ?_),
      fun h hh => ?_, fun _ h => (List.not_mem_nil h).elim⟩, fun _ _ h => h⟩, hidle,
      fun _ it h => ?_⟩
    · unfold FileObjects.append
      rw [List.append_nil]
    · rcases ha : LawfulArrayBackend.array t.store.arrays.backend x with _ | a
      · refine Or.inr ((hnew x).mpr ⟨ha, ?_⟩)
        rw [harr] at hx
        unfold orInserted at hx
        rw [ha, Option.none_or] at hx
        obtain ⟨a, hl⟩ := Option.isSome_iff_exists.mp hx
        obtain ⟨l₁, l₂, hl, -⟩ := List.lookup_eq_some_iff.mp hl
        exact ⟨(x, a), by rw [hl]; simp, rfl⟩
      · exact Or.inl rfl
    · obtain ⟨-, it, hmem, rfl⟩ := (hnew h).mp hh
      exact (hit it hmem).2.1
    · show ((⟨t.store.arrays.buffer, b'⟩ : ArrayStore H B).content it.1).isSome = true
      rw [hcontent, harr]
      exact orInserted_isSome h

/-- The puts of a batch, one after the other. -/
theorem stagePuts_spec {parts : List (RequestParts H)} (xs : List (TypedArray × RequestParts H)) :
    ∀ {t : Staging H B}, t.store.arrays.Valid →
      (∀ x ∈ xs, x.2 ∈ parts ∧ Faithful x.2.hash x.1) →
      (xs.forM fun x => stagePut (B := B) x.1 x.2).wp (fun r t' => Stages parts t t' ∧
        (r.isOk = true → ∀ x ∈ xs, (t'.store.arrays.content x.2.hash).isSome)) t := by
  induction xs with
  | nil => exact fun ht _ => ⟨.refl ht, fun _ _ h => (List.not_mem_nil h).elim⟩
  | cons x xs ih =>
    intro t ht hx
    rw [Cmd.wp_forM_cons]
    obtain ⟨hp, ha⟩ := hx x List.mem_cons_self
    refine Cmd.wp_mono (stagePut_spec ht hp ha) ?_
    rintro r t₁ ⟨h₁, hok₁⟩
    rcases r with e | u
    · exact ⟨h₁, fun h => by cases h⟩
    · refine Cmd.wp_mono (ih h₁.valid fun y hy => hx y (List.mem_cons_of_mem _ hy)) ?_
      rintro r t₂ ⟨h₂, hok₂⟩
      refine ⟨h₁.trans h₂, fun hr y hy => ?_⟩
      rcases List.mem_cons.mp hy with rfl | hy
      · exact h₂.held (hok₁ rfl)
      · exact hok₂ hr y hy

/-- The blocks of a batch, one after the other. -/
theorem stageBlocks_spec (parts : List (RequestParts H))
    (pools : List (PoolKey H × List (H × TypedArray))) :
    ∀ {t : Staging H B}, t.store.arrays.Valid → (∀ x, t.store.arrays.buffer.get x = none) →
      (∀ pool ∈ pools, (pool.2.map Prod.fst).Nodup ∧ ∀ it ∈ pool.2, Faithful it.1 it.2 ∧
        (∃ p ∈ parts, p.hash = it.1) ∧ poolKey it.2 pool.1.group = pool.1) →
      (pools.forM (stageBlock (B := B))).wp (fun r t' => Stages parts t t' ∧
        (r.isOk = true → ∀ pool ∈ pools, ∀ it ∈ pool.2,
          (t'.store.arrays.content it.1).isSome)) t := by
  induction pools with
  | nil => exact fun ht _ _ => ⟨.refl ht, fun _ _ h => (List.not_mem_nil h).elim⟩
  | cons pool pools ih =>
    intro t ht hidle hpool
    rw [Cmd.wp_forM_cons]
    obtain ⟨hnd, hit⟩ := hpool pool List.mem_cons_self
    refine Cmd.wp_mono (stageBlock_spec ht hidle hnd hit) ?_
    rintro r t₁ ⟨h₁, hidle₁, hok₁⟩
    rcases r with e | u
    · exact ⟨h₁, fun h => by cases h⟩
    · refine Cmd.wp_mono (ih h₁.valid hidle₁ fun p hp => hpool p (List.mem_cons_of_mem _ hp)) ?_
      rintro r t₂ ⟨h₂, hok₂⟩
      refine ⟨h₁.trans h₂, fun hr q hq it hq' => ?_⟩
      rcases List.mem_cons.mp hq with rfl | hq
      · exact h₂.held (hok₁ rfl it hq')
      · exact hok₂ hr q hq it hq'

/-- **The arrays of a batch.**  Afterwards every one of them is held. -/
theorem stageArrays_spec {parts : List (RequestParts H)} {t : Staging H B}
    (ht : t.store.arrays.Valid)
    (hidle : t.store.inTransaction = false → ∀ x, t.store.arrays.buffer.get x = none)
    {xs : List (TypedArray × RequestParts H)}
    (hxs : ∀ x ∈ xs, x.2 ∈ parts ∧ Faithful x.2.hash x.1) :
    (stageArrays (B := B) xs).wp (fun r t' => Stages parts t t' ∧
      (r.isOk = true → ∀ x ∈ xs, (t'.store.arrays.content x.2.hash).isSome)) t := by
  unfold stageArrays
  rw [Cmd.wp_bind, Cmd.wp_get]
  simp only
  split
  · exact stagePuts_spec xs ht hxs
  rename_i htx
  have hempty := hidle (by simpa using htx)
  have hfirst : ∀ {q : TypedArray × RequestParts H → Bool}, ∀ x ∈ (firstOfHash xs []).filter q,
      x.2 ∈ parts ∧ Faithful x.2.hash x.1 :=
    fun x hx => hxs x (firstOfHash_mem (List.mem_of_mem_filter hx)).1
  rw [Cmd.wp_bind]
  refine Cmd.wp_mono (stagePuts_spec _ ht hfirst) ?_
  rintro r t₁ ⟨h₁, hok₁⟩
  rcases r with e | u
  · exact ⟨h₁, fun h => by cases h⟩
  have hempty₁ : ∀ x, t₁.store.arrays.buffer.get x = none := by
    intro x
    rcases e : t₁.store.arrays.buffer.get x with _ | a
    · rfl
    · have := h₁.idle (by simpa using htx) x (by rw [e]; rfl)
      rw [hempty x] at this
      cases this
  have hpooled : Pooled _ (groupPools ((firstOfHash xs []).filter fun x => x.2.layout.isPacked)) :=
    groupPools_pooled ((firstOfHash_nodup xs []).sublist (List.filter_sublist.map _))
  refine Cmd.wp_mono (stageBlocks_spec parts _ h₁.valid hempty₁ fun pool hpool =>
    ⟨hpooled.nodup pool hpool, fun it hit => ?_⟩) ?_
  · obtain ⟨x, hx, h1, h2, h3⟩ := hpooled.origin pool hpool it hit
    obtain ⟨hp, hf⟩ := hfirst x hx
    rw [h1, h2] at hf
    refine ⟨hf, ⟨x.2, hp, h1⟩, ?_⟩
    rw [← h3, ← h2]
    rfl
  · rintro r t₂ ⟨h₂, hok₂⟩
    refine ⟨h₁.trans h₂, fun hr x hx => ?_⟩
    obtain ⟨y, hy, he⟩ := firstOfHash_covers [] hx List.not_mem_nil
    rw [← he]
    rcases hl : y.2.layout.isPacked with _ | _
    · exact h₂.held (hok₁ rfl y (List.mem_filter.mpr ⟨hy, by rw [hl]; rfl⟩))
    · obtain ⟨pool, hpool, hit⟩ := hpooled.covers y (List.mem_filter.mpr ⟨hy, hl⟩)
      exact hok₂ hr pool hpool _ hit

/-! ### Filing the rows -/

/-- A flush changes nothing that is held. -/
theorem flush_written {s : ArrayStore H B} (hs : s.Valid) :
    (ArrayStore.onBackend ArrayBackend.flush : StoreCmd (ArrayStore H B) Unit).wp
      (fun _ s' => s.Written s') s := by
  simp only [ArrayStore.onBackend, Cmd.wp_zoom]
  refine Cmd.wp_mono (LawfulArrayBackend.flush_spec hs.backend) ?_
  rintro r b' ⟨hv, hq, harr, hvec⟩
  refine ⟨⟨hv, hs.indexed, fun e e' => hs.agree e (by rw [← harr]; exact e')⟩,
    fun hQ => ⟨hq hQ.backend, fun e => (congrFun harr _).trans (hQ.disjoint e)⟩, hvec, ?_,
    fun e => ⟨_, e⟩⟩
  funext h
  show (s.buffer.get h).or (LawfulArrayBackend.array b' h) = _
  rw [harr]
  rfl

theorem flushBeforeCommit_spec {t : Staging H B} (ht : t.store.arrays.Valid) :
    (flushBeforeCommit (B := B)).wp (fun _ t' => t'.staged = t.staged ∧ t'.store.conn = t.store.conn ∧
      t'.store.txn = t.store.txn ∧ t.store.arrays.Written t'.store.arrays) t := by
  unfold flushBeforeCommit
  rw [Cmd.wp_bind, Cmd.wp_get]
  simp only
  split
  · exact ⟨rfl, rfl, rfl, .refl ht⟩
  · simp only [onStore, onArrays, Cmd.wp_zoom]
    exact Cmd.wp_mono (flush_written ht) fun _ _ h => ⟨trivial, trivial, trivial, h⟩

/-- A command on the catalog of a write call. -/
theorem wp_onConn {α : Type} (c : StoreCmd (Connection H) α) {Q : Result α → Staging H B → Prop}
    {t : Staging H B}
    (h : c.wp (fun r conn => Q r { t with store := { t.store with conn } }) t.store.conn) :
    (onStore (onConn c)).wp Q t := h

/-- What filing the rows of a batch may do. -/
structure FiledRows [FloatText] (inTxn : Bool) (ms : List (TimeSeriesMetadata H))
    (cache : SharedSetCache H) (t : Staging H B) (r : Result (List ℤ × SharedSetCache H)) (t' : Staging H B) : Prop where
  staged : t'.staged = t.staged
  txn : t'.store.txn = t.store.txn
  written : t.store.arrays.Written t'.store.arrays
  conn : Connection.Outcome t.store.conn (fun y db => Chain InsertedFree ms cache t.store.db y db)
    (Catalog.Unfinished inTxn ms t.store.db) r t'.store.conn

/-- **The rows of a batch.**  All of them are filed, or none. -/
theorem fileRows_spec [FloatText] {t : Staging H B} (ht : t.store.arrays.Valid) {inTxn : Bool}
    (ms : List (TimeSeriesMetadata H)) (cache : SharedSetCache H) :
    (fileRows (B := B) inTxn ms cache).wp (FiledRows inTxn ms cache t) t := by
  unfold fileRows
  split
  · rw [Cmd.wp_bind]
    refine wp_onConn _ (Cmd.wp_mono (Connection.savepoint_outcome t.store.conn) ?_)
    rintro r c₁ ⟨hl, hsp⟩
    rcases r with e | u
    · refine ⟨rfl, rfl, .refl ht, hl, ?_⟩
      exact hsp.imp_left fun h => ⟨h.1, Or.inl h.2⟩
    obtain ⟨hsp, hdb, -⟩ := hsp
    simp only [Cmd.wp_bind, Cmd.wp_attempt]
    refine wp_onConn _ (Cmd.wp_mono (insertAll_outcome insertAssociation_outcome ms cache c₁) ?_)
    intro r c₂ h₂
    rw [hdb] at h₂
    -- closing the savepoint, whatever the flush has done
    have hclose : ∀ (r : Result (List ℤ × SharedSetCache H)) (t₃ : Staging H B),
        t₃.staged = t.staged → t₃.store.txn = t.store.txn → t.store.arrays.Written t₃.store.arrays →
        Connection.Outcome c₁ (fun y db => Chain InsertedFree ms cache t.store.db y db)
          (fun _ => True) r t₃.store.conn →
        (onStore (onConn (Connection.closeSavepoint r))).wp (FiledRows inTxn ms cache t) t₃ := by
      intro r t₃ h3 h4 h5 h6
      refine wp_onConn _ (Cmd.wp_mono (Connection.closeSavepoint_outcome hl hsp h6) ?_)
      intro r c₄ h₄
      exact ⟨h3, h4, h5, h₄.mono (fun _ _ h => h) fun db h => Or.inl h⟩
    rcases r with e | out
    · exact hclose _ _ rfl rfl (.refl ht) h₂
    · simp only
      split
      · rw [Cmd.wp_bind]
        refine Cmd.wp_mono (flushBeforeCommit_spec ht) ?_
        rintro r t₃ ⟨h3, h4, h5, h6⟩
        rcases r with e | u
        · refine hclose _ _ h3 h5 h6 ⟨by rw [h4]; exact h₂.1, Or.inl ⟨?_, trivial⟩⟩
          rw [h4]
          exact h₂.2.1
        · refine hclose _ _ h3 h5 h6 ?_
          simp only [Cmd.exec_pure]
          rw [h4]
          exact h₂
      · exact hclose _ _ rfl rfl (.refl ht) h₂
  · rename_i hone
    refine wp_onConn _ ?_
    have hfile : (insertAll insertAssociation ms cache).wp (Connection.Outcome t.store.conn
        (fun y db => Chain InsertedFree ms cache t.store.db y db)
        (Catalog.Unfinished inTxn ms t.store.db)) t.store.conn := by
      have hin : inTxn = true := by
        rw [← Bool.not_eq_false]
        intro hn
        rw [hn] at hone
        exact hone rfl
      rcases ms with _ | ⟨m, _ | ⟨m', ms⟩⟩
      · exact Connection.outcome_pure (.nil cache _)
      · exact Cmd.wp_mono (insertAll_single_outcome insertAssociation_outcome m cache _)
          fun _ _ h => h.mono (fun _ _ h => h) fun db h => Or.inr ⟨hin, m, rfl, h⟩
      · simp at hone
    exact Cmd.wp_mono hfile fun _ _ h => ⟨rfl, rfl, .refl ht, h⟩

/-! ### The whole call -/

/-- The shared sets a write call starts from. -/
def takenSets (s : Store H B) : SharedSetCache H :=
  if s.inTransaction then s.txn.sharedSets else .empty

/-- What an add that fails may leave the catalog as. -/
def UnfinishedAdd [FloatText] (items : List AddRequest) (s : Store H B) (db : Catalog H) : Prop :=
  db = s.db ∨ ∃ parts : List (RequestParts H), items.mapM buildRequestParts = .ok parts ∧
    Catalog.Unfinished s.inTransaction (parts.map (·.metadata)) s.db db

theorem UnfinishedAdd.same [FloatText] (items : List AddRequest) (s : Store H B) :
    UnfinishedAdd items s s.db := Or.inl rfl

theorem UnfinishedAdd.rows [FloatText] {items : List AddRequest} {s : Store H B} {db : Catalog H}
    (h : UnfinishedAdd items s db) :
    db.rows = s.db.rows ∧ db.seq = s.db.seq ∧ ∀ f ∈ s.db.featureSets, f ∈ db.featureSets := by
  rcases h with rfl | ⟨parts, -, h⟩
  · exact ⟨rfl, rfl, fun f hf => hf⟩
  · exact h.rows

/-- What an add does to the store and to what it has written, before it is settled. -/
structure AddedStaged [FloatText] (items : List AddRequest) (s : Store H B) (r : Result (List ℤ))
    (t : Staging H B) : Prop where
  marks : t.store.txn.marks = s.txn.marks
  written : t.store.txn.written = s.txn.written
  pendingFree : t.store.txn.pendingFree = s.txn.pendingFree
  cached : ∀ x ∈ t.store.txn.sharedSets.timestamps, (t.store.arrays.vector x).isSome
  idleSets : s.inTransaction = false → t.store.txn = s.txn
  failed : r.isOk = false →
    t.store.txn = s.txn ∨ t.store.txn = { s.txn with sharedSets := .empty }
  grew : s.arrays.Grew t.store.arrays t.staged
  idle : s.inTransaction = false → ∀ x,
    (t.store.arrays.buffer.get x).isSome → (s.arrays.buffer.get x).isSome
  blocked : s.transactionWasForcedBack = true → t.store.db = s.db ∧ r.isOk = false
  conn : Connection.Outcome s.conn (fun ids db => ∃ parts cache cache',
      items.mapM buildRequestParts = .ok parts ∧ cache.features = (takenSets s).features ∧
      Chain InsertedFree (parts.map (·.metadata)) cache s.db (ids, cache') db ∧
      (∀ p ∈ parts, (t.store.arrays.content p.hash).isSome ∧ HeldAxis t p) ∧
      (∀ h ∈ t.staged.arrays, ∃ p ∈ parts, p.hash = h) ∧
      (∀ h ∈ t.staged.timestamps, ∃ p ∈ parts, p.group = .irregular h) ∧
      (s.inTransaction = true → t.store.txn.sharedSets = cache'))
    (UnfinishedAdd items s) r t.store.conn

/-- The bookkeeping of a call that has taken the shared sets out. -/
def takenTxn (s : Store H B) : OpenTxn H :=
  if s.inTransaction then { s.txn with sharedSets := .empty } else s.txn

theorem takeSharedSets_exec (s : Store H B) :
    (takeSharedSets (B := B)).exec s = (.ok (takenSets s), { s with txn := takenTxn s }) := by
  unfold takeSharedSets
  rw [Cmd.exec_bind, Cmd.exec_get]
  simp only
  unfold takenSets takenTxn
  split
  · rfl
  · rfl

theorem takenTxn_fields (s : Store H B) : (takenTxn s).marks = s.txn.marks ∧
    (takenTxn s).written = s.txn.written ∧ (takenTxn s).pendingFree = s.txn.pendingFree := by
  unfold takenTxn
  split <;> exact ⟨rfl, rfl, rfl⟩

/-- A call that stops before it files any row. -/
theorem AddedStaged.stopped [FloatText] {items : List AddRequest} {s : Store H B} {t : Staging H B}
    (e : TimeSeriesError) (hconn : t.store.conn = s.conn)
    (htxn : t.store.txn = s.txn ∨ t.store.txn = takenTxn s)
    (hcached : ∀ x ∈ s.txn.sharedSets.timestamps, (s.arrays.vector x).isSome)
    (hgrew : s.arrays.Grew t.store.arrays t.staged)
    (hidle : s.inTransaction = false → ∀ x,
      (t.store.arrays.buffer.get x).isSome → (s.arrays.buffer.get x).isSome) :
    AddedStaged items s (.error e) t := by
  obtain ⟨h1, h2, h3⟩ := takenTxn_fields s
  have hsets : t.store.txn.sharedSets = s.txn.sharedSets ∨ t.store.txn.sharedSets = .empty := by
    rcases htxn with c | c <;> rw [c]
    · exact Or.inl rfl
    · unfold takenTxn
      split
      · exact Or.inr rfl
      · exact Or.inl rfl
  refine ⟨?_, ?_, ?_, fun x hx => ?_, fun hi => ?_, fun _ => ?_, hgrew, hidle, fun _ => ⟨?_, rfl⟩,
    ?_⟩
  · rcases htxn with c | c <;> rw [c]
    exact h1
  · rcases htxn with c | c <;> rw [c]
    exact h2
  · rcases htxn with c | c <;> rw [c]
    exact h3
  · rcases hsets with c | c
    · rw [c] at hx
      exact hgrew.heldAxis (hcached x hx)
    · rw [c] at hx
      exact (List.not_mem_nil hx).elim
  · rcases htxn with c | c
    · exact c
    · rw [c]
      unfold takenTxn
      rw [if_neg (by rw [hi]; simp)]
  · rcases htxn with c | c
    · exact Or.inl c
    · rw [c]
      unfold takenTxn
      split
      · exact Or.inr rfl
      · exact Or.inl rfl
  · show t.store.conn.db = _
    rw [hconn]
    rfl
  · rw [hconn]
    exact ⟨Connection.Later.refl _, Or.inl ⟨rfl, .same items s⟩⟩

/-- Every part of a batch is a request's. -/
theorem parts_origin [FloatText] {items : List AddRequest} {parts : List (RequestParts H)}
    (h : items.mapM buildRequestParts = .ok parts) {p : RequestParts H} (hp : p ∈ parts) :
    ∃ item, (item, p) ∈ items.zip parts ∧ buildRequestParts item = .ok p := by
  obtain ⟨hlen, hz⟩ := mapM_ok h
  obtain ⟨i, hi⟩ := List.getElem?_of_mem hp
  have hlt : i < items.length := by
    rw [hlen]
    exact (List.getElem?_eq_some_iff.mp hi).1
  have hmem : (items[i], p) ∈ items.zip parts :=
    List.mem_of_getElem? (i := i) (List.getElem?_zip_eq_some.mpr ⟨List.getElem?_eq_getElem hlt, hi⟩)
  exact ⟨items[i], hmem, hz _ hmem⟩

/-- What the arrays and the parts of an accepted batch satisfy. -/
theorem parts_ready [FloatText] {items : List AddRequest} {parts : List (RequestParts H)}
    (h : items.mapM buildRequestParts = .ok parts) :
    (∀ p ∈ parts, Axed p) ∧
      (∀ x ∈ (items.map (·.data.fields.data)).zip parts, x.2 ∈ parts ∧ Faithful x.2.hash x.1) ∧
      ∀ p ∈ parts, ∃ x ∈ (items.map (·.data.fields.data)).zip parts, x.2 = p := by
  have hz := (mapM_ok h).2
  have hzip : ∀ x, x ∈ (items.map (·.data.fields.data)).zip parts ↔
      ∃ p ∈ items.zip parts, x = (p.1.data.fields.data, p.2) := by
    intro x
    rw [List.zip_map_left, List.mem_map]
    constructor
    · rintro ⟨p, hp, rfl⟩
      exact ⟨p, hp, rfl⟩
    · rintro ⟨p, hp, rfl⟩
      exact ⟨p, hp, rfl⟩
  refine ⟨fun p hp h' ts hg hts => ?_, fun x hx => ?_, fun p hp => ?_⟩
  · obtain ⟨item, -, hb⟩ := parts_origin h hp
    refine ⟨buildRequestParts_millis hb hts, ?_⟩
    have hax := buildRequestParts_axis hb
    rw [hg] at hax
    obtain ⟨ts', e, rfl⟩ := hax
    rw [hts] at e
    rw [Option.some.inj e]
  · obtain ⟨p, hp, rfl⟩ := (hzip x).mp hx
    have hb := hz p hp
    refine ⟨(List.of_mem_zip (a := p.1) (b := p.2) hp).2, ?_, buildRequestParts_geometry hb⟩
    exact (buildRequestParts_ok hb).2.2.2.2.2.1.symm
  · obtain ⟨item, hmem, -⟩ := parts_origin h hp
    exact ⟨_, (hzip _).mpr ⟨_, hmem, rfl⟩, rfl⟩

/-- **An add.**  Everything its rows name is held before they are filed, and all of them are filed or
none. -/
theorem addRequestsStaged_spec [FloatText] {s : Store H B} (hs : s.arrays.Valid)
    (hidle : s.inTransaction = false → ∀ x, s.arrays.buffer.get x = none)
    (hcached : ∀ x ∈ s.txn.sharedSets.timestamps, (s.arrays.vector x).isSome)
    (items : List AddRequest) :
    (addRequestsStaged (B := B) items).wp (AddedStaged items s) ⟨s, .empty⟩ := by
  have hgrew₀ : s.arrays.Grew s.arrays .empty := .refl hs
  unfold addRequestsStaged
  rw [Cmd.wp_bind, Cmd.wp_get]
  simp only
  split
  · exact .stopped _ rfl (Or.inl rfl) hcached hgrew₀ fun _ _ h => h
  simp only [Cmd.wp_bind, onStore, Cmd.wp_zoom, checkTransactionAlive, Cmd.wp_get]
  split
  · exact .stopped _ rfl (Or.inl rfl) hcached hgrew₀ fun _ _ h => h
  rename_i halive
  have hblocked : ∀ {r : Result (List ℤ)} {t : Staging H B}, s.transactionWasForcedBack = true →
      t.store.db = s.db ∧ r.isOk = false := fun h => absurd h halive
  simp only [Cmd.wp_pure]
  split
  · rename_i hnil
    subst hnil
    refine ⟨rfl, rfl, rfl, hcached, fun _ => rfl, fun _ => Or.inl rfl, hgrew₀, fun _ _ h => h, hblocked,
      Connection.Later.refl _, rfl, [], takenSets s, takenSets s, rfl, rfl, .nil _ _,
      fun _ h => (List.not_mem_nil h).elim, fun _ h => (List.not_mem_nil h).elim,
      fun _ h => (List.not_mem_nil h).elim, fun hi => ?_⟩
    unfold takenSets
    rw [if_pos hi]
    rfl
  rw [Cmd.wp_bind, Cmd.wp_ofExcept]
  rcases hparts : items.mapM buildRequestParts with e | parts
  · exact .stopped _ rfl (Or.inl rfl) hcached hgrew₀ fun _ _ h => h
  obtain ⟨hax, hfaith, hcover⟩ := parts_ready hparts
  simp only [Cmd.wp_bind, Cmd.wp_zoom]
  rw [Cmd.wp_of_exec (takeSharedSets_exec s)]
  simp only
  -- the store the call works on
  obtain ⟨t₀, ht₀⟩ : ∃ t₀ : Staging H B, t₀ = ⟨{ s with txn := takenTxn s }, .empty⟩ := ⟨_, rfl⟩
  have hin₀ : t₀.store.inTransaction = s.inTransaction := by
    rw [ht₀]
    unfold inTransaction
    rw [show ({ s with txn := takenTxn s } : Store H B).txn.marks = _ from (takenTxn_fields s).1]
  have harr₀ : t₀.store.arrays = s.arrays := by rw [ht₀]
  have hseen₀ : HeldAxes t₀ (takenSets s) := by
    intro x hx
    unfold takenSets at hx
    rw [harr₀]
    split at hx
    · exact hcached x hx
    · exact (List.not_mem_nil hx).elim
  rw [← ht₀]
  -- a failure before the rows are filed
  have hstop : ∀ (e : TimeSeriesError) (t : Staging H B), Stages parts t₀ t →
      AddedStaged items s (.error e) t := by
    intro e t h
    obtain ⟨w, hw, hg, -⟩ := h.written
    rw [ht₀] at hw
    rw [harr₀, ← show t.staged = w from hw] at hg
    refine .stopped e (by rw [h.conn, ht₀]) (Or.inr (by rw [h.txn, ht₀])) hcached hg fun hi x hx => ?_
    rw [← harr₀]
    exact h.idle (hin₀.trans hi) x hx
  refine Cmd.wp_mono (stageTimestampVectors_spec parts (by rw [harr₀]; exact hs)
    (fun _ h => h) hax hseen₀) ?_
  rintro r t₁ ⟨h₁, hok₁⟩
  rcases r with e | cache
  · exact hstop e t₁ h₁
  obtain ⟨hfeat, hseen₁, haxis₁⟩ := hok₁ cache rfl
  simp only
  have hidle₁ : t₁.store.inTransaction = false → ∀ x, t₁.store.arrays.buffer.get x = none := by
    intro hi x
    have hi₀ : t₀.store.inTransaction = false := by
      unfold inTransaction at hi ⊢
      rw [← h₁.txn]
      exact hi
    rcases e : t₁.store.arrays.buffer.get x with _ | a
    · rfl
    · have hx := h₁.idle hi₀ x (by rw [e]; rfl)
      rw [harr₀, hidle (hin₀.symm.trans hi₀)] at hx
      cases hx
  refine Cmd.wp_mono (stageArrays_spec h₁.valid hidle₁ hfaith) ?_
  rintro r t₂ ⟨h₂, hok₂⟩
  have h₀₂ := h₁.trans h₂
  rcases r with e | u
  · exact hstop e t₂ h₀₂
  simp only
  refine Cmd.wp_mono (fileRows_spec h₂.valid (parts.map (·.metadata)) cache) ?_
  rintro r t₃ h₃
  -- what the call has written and holds
  obtain ⟨w, hw, hg, hwa, hwt⟩ := h₀₂.written
  rw [ht₀] at hw
  rw [harr₀, ← show t₂.staged = w from hw] at hg
  rw [← show t₂.staged = w from hw] at hwa hwt
  have hconn₂ : t₂.store.conn = s.conn := by rw [h₀₂.conn, ht₀]
  have htxn₂ : t₂.store.txn = takenTxn s := by rw [h₀₂.txn, ht₀]
  have hgrew₃ : s.arrays.Grew t₃.store.arrays t₃.staged := by
    rw [h₃.staged, ← FileObjects.append_empty t₂.staged]
    exact hg.trans (.of_written h₂.valid h₃.written)
  have hidle₃ : s.inTransaction = false → ∀ x,
      (t₃.store.arrays.buffer.get x).isSome → (s.arrays.buffer.get x).isSome := by
    intro hi x hx
    rw [← harr₀]
    exact h₀₂.idle (hin₀.trans hi) x (h₃.written.buffered h₂.valid hx)
  have hdb₂ : t₂.store.db = s.db := congrArg Connection.db hconn₂
  rcases r with e | out
  · obtain ⟨hm, hwr, hpf⟩ := takenTxn_fields s
    have hstopped : AddedStaged items s (.error e) { t₃ with store :=
        { t₃.store with conn := s.conn } } :=
      .stopped e rfl (Or.inr (h₃.txn.trans htxn₂)) hcached hgrew₃ hidle₃
    refine ⟨hstopped.marks, hstopped.written, hstopped.pendingFree, hstopped.cached,
      hstopped.idleSets, hstopped.failed, hgrew₃, hidle₃, hblocked, ?_⟩
    have := h₃.conn
    rw [hconn₂, hdb₂] at this
    exact ⟨this.1, this.2.imp_left fun h => ⟨h.1, Or.inr ⟨parts, hparts, h.2⟩⟩⟩
  · obtain ⟨ids, cache'⟩ := out
    have hrow := h₃.conn
    rw [hconn₂, hdb₂] at hrow
    have hin₃ : t₃.store.inTransaction = s.inTransaction := by
      unfold inTransaction
      rw [h₃.txn, htxn₂, (takenTxn_fields s).1]
    have hheld : ∀ p ∈ parts, (t₃.store.arrays.content p.hash).isSome ∧
        ∀ h ts, p.group = .irregular h → p.metadata.timestamps = some ts →
          (t₃.store.arrays.vector h).isSome := by
      intro p hp
      obtain ⟨x, hx, rfl⟩ := hcover p hp
      refine ⟨?_, fun h ts hg hts => ?_⟩
      · rw [h₃.written.content]
        exact hok₂ rfl x hx
      · rw [h₃.written.vector]
        exact h₂.heldAxis (haxis₁ x.2 hp h ts hg hts)
    have hcache : ∀ x ∈ cache'.timestamps, (t₃.store.arrays.vector x).isSome := by
      intro x hx
      rw [show cache'.timestamps = cache.timestamps from
        (hrow.2.2.mono fun _ _ _ _ _ h => h.2).cache_timestamps] at hx
      rw [h₃.written.vector]
      exact h₂.heldAxis (hseen₁ x hx)
    have hdone : ∀ txn : OpenTxn H, txn.marks = s.txn.marks → txn.written = s.txn.written →
        txn.pendingFree = s.txn.pendingFree →
        (∀ x ∈ txn.sharedSets.timestamps, (t₃.store.arrays.vector x).isSome) →
        (s.inTransaction = false → txn = s.txn) → (s.inTransaction = true → txn.sharedSets = cache') →
        AddedStaged items s (.ok ids) { t₃ with store := { t₃.store with txn } } := by
      intro txn h1 h2 h3 h4 h5 h6
      refine ⟨h1, h2, h3, h4, h5, fun h => (by cases h), hgrew₃, hidle₃, hblocked, hrow.1, hrow.2.1, parts, cache, cache',
        hparts, hfeat, hrow.2.2, hheld, fun h hh => ?_, fun h hh => ?_, h6⟩
      · exact hwa h (by rw [← h₃.staged]; exact hh)
      · exact hwt h (by rw [← h₃.staged]; exact hh)
    simp only [Cmd.wp_bind, returnSharedSets, Cmd.wp_get]
    obtain ⟨hm, hwr, hpf⟩ := takenTxn_fields s
    have htxn₃ := h₃.txn.trans htxn₂
    split
    · rename_i hi
      simp only [modifyTxn, Cmd.wp_modify, Cmd.wp_pure]
      refine hdone _ ?_ ?_ ?_ hcache (fun hf => ?_) fun _ => rfl
      · rw [← hm, ← htxn₃]
      · rw [← hwr, ← htxn₃]
      · rw [← hpf, ← htxn₃]
      · rw [hin₃, hf] at hi
        cases hi
    · rename_i hi
      have hi' : s.inTransaction = false := by
        rw [← hin₃]
        simpa using hi
      have hsame : t₃.store.txn = s.txn := by
        rw [htxn₃]
        unfold takenTxn
        rw [if_neg (by rw [hi']; simp)]
      simp only [Cmd.wp_pure]
      have := hdone t₃.store.txn (by rw [hsame]) (by rw [hsame]) (by rw [hsame])
        (fun x hx => hgrew₃.heldAxis (hcached x (by rw [← hsame]; exact hx))) (fun _ => hsame)
        fun hf => by rw [hi'] at hf; cases hf
      exact this

end Staging

end

end Store

end InfraStore
