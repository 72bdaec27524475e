import InfraStore.FileEffects
import InfraStore.CatalogEffects

/-!
# Where the arrays come from

Only an add brings arrays and time axes into a store, and those it brings are the ones its requests
carry: every other operation moves them between the buffer and the file, or removes them.

* `Admits`: every object held under a hash is one that a relation allows there;
* `addRequests_admits`: an add keeps it if the relations allow the objects of its requests;
* `turn_admits`: every turn keeps it, an add under that condition.
-/

namespace InfraStore

open Lib

/-- The explicit time axis of a series, if it has one. -/
def TimeSeriesData.axis : TimeSeriesData → Option (List DateTime)
  | .nonSequential s => some s.timestamps
  | .persistent s => some s.timestamps
  | _ => none

/-- The arrays an operation is given. -/
def Op.arrays {H : Type} : Op H → List TypedArray
  | .addRequests items => items.map (·.data.fields.data)
  | _ => []

/-- The time axes an operation is given. -/
def Op.axes {H : Type} : Op H → List (List DateTime)
  | .addRequests items => items.filterMap (·.data.axis)
  | _ => []

/-- A series is filed with its axis. -/
theorem fileSeries_axis_eq {H : Type} [Sha256 H] {base : TimeSeriesMetadata H} {d : TimeSeriesData}
    {g : PackGroup H} {m : TimeSeriesMetadata H} (h : fileSeries base d = .ok (g, m))
    (hbase : base.timestamps = none) : m.timestamps = d.axis := by
  cases d with
  | single s => cases h; exact hbase
  | nonSequential s => cases h; rfl
  | persistent s => cases h; rfl
  | deterministic s =>
    obtain ⟨_, -, h⟩ := except_bind_eq_ok.mp h
    cases h; exact hbase
  | probabilistic s =>
    obtain ⟨_, -, h⟩ := except_bind_eq_ok.mp h
    cases h; exact hbase
  | scenarios s =>
    obtain ⟨_, -, h⟩ := except_bind_eq_ok.mp h
    cases h; exact hbase

namespace Store

section

set_option linter.unusedSectionVars false

variable {H B α : Type} [DecidableEq H] [ArrayBackend H B] [Sha256 H] [LawfulArrayBackend H B]
  [FloatText] {P : H → TypedArray → Prop} {Q : H → List ℤ → Prop}

/-- An array store whose arrays and time axes are each allowed under the hash they are held under. -/
structure Admits (P : H → TypedArray → Prop) (Q : H → List ℤ → Prop) (a : ArrayStore H B) : Prop where
  valid : a.Valid
  allowed {x : H} {y : TypedArray} : a.content x = some y → P x y
  allowedAxis {t : H} {ms : List ℤ} : a.vector t = some ms → Q t ms

theorem Admits.written {a a' : ArrayStore H B} (h : Admits P Q a) (hw : a.Written a') :
    Admits P Q a' := by
  refine ⟨hw.valid, fun {x y} hx => h.allowed ?_, fun {t ms} ht => h.allowedAxis ?_⟩
  · rw [← hw.content]
    exact hx
  · rw [← hw.vector]
    exact ht

theorem Admits.shed {a a' : ArrayStore H B} {w : FileObjects H} (h : Admits P Q a)
    (hw : a.Shed a' w) : Admits P Q a' :=
  ⟨hw.valid, fun hx => h.allowed (hw.origin hx), fun ht => h.allowedAxis (hw.originAxis ht)⟩

/-! ### Commands of the array store -/

/-- A command of the file that leaves its arrays alone, and brings only time axes that are allowed. -/
theorem keeps_onBackend {c : StoreCmd B α}
    (h : ∀ b : B, LawfulArrayBackend.Valid b → c.wp (fun _ b' => LawfulArrayBackend.Valid b' ∧
      LawfulArrayBackend.array b' = LawfulArrayBackend.array b ∧
      ∀ t ms, LawfulArrayBackend.vector b' t = some ms →
        LawfulArrayBackend.vector b t = some ms ∨ Q t ms) b) :
    Cmd.Keeps (Admits P Q) (ArrayStore.onBackend c) := by
  intro a ha
  simp only [ArrayStore.onBackend, Cmd.wp_zoom]
  refine Cmd.wp_mono (h a.backend ha.valid.backend) ?_
  rintro r b ⟨hvalid, harray, hvector⟩
  refine ⟨⟨hvalid, ha.valid.indexed, fun e e' => ha.valid.agree e ?_⟩, fun {x y} hx => ha.allowed ?_,
    fun {t ms} ht => (hvector t ms ht).elim (fun h => ha.allowedAxis h) id⟩
  · rw [← harray]
    exact e'
  · show (a.buffer.get x).or (LawfulArrayBackend.array a.backend x) = some y
    rw [← harray]
    exact hx

theorem keeps_flushFile :
    Cmd.Keeps (Admits P Q) (ArrayStore.onBackend (B := B) ArrayBackend.flush) := by
  apply keeps_onBackend
  intro b hb
  refine Cmd.wp_mono (LawfulArrayBackend.flush_spec hb) ?_
  rintro r b' ⟨hvalid, -, harray, hvector⟩
  refine ⟨hvalid, harray, fun t ms ht => Or.inl ?_⟩
  rw [← hvector]
  exact ht

theorem keeps_removeTimestamps (t : H) :
    Cmd.Keeps (Admits P Q) (ArrayStore.onBackend (B := B) (ArrayBackend.removeTimestamps t)) := by
  apply keeps_onBackend
  intro b hb
  refine Cmd.wp_mono (LawfulArrayBackend.removeTimestamps_spec t hb) ?_
  rintro r b' ⟨hvalid, -, harray, hr⟩
  have hless : ∀ x ms, Function.update (LawfulArrayBackend.vector b) t none x = some ms →
      LawfulArrayBackend.vector b x = some ms := by
    intro x ms hx
    by_cases hxt : x = t
    · rw [hxt, Function.update_self] at hx
      cases hx
    · rw [Function.update_of_ne hxt] at hx
      exact hx
  refine ⟨hvalid, harray, fun x ms hx => Or.inl ?_⟩
  cases r with
  | ok u =>
    rw [show LawfulArrayBackend.vector b' = _ from hr] at hx
    exact hless x ms hx
  | error e =>
    rcases hr with hr | hr
    · rw [hr] at hx
      exact hx
    · rw [hr] at hx
      exact hless x ms hx

theorem keeps_putTimestamps (t : H) {ts : List DateTime} (hQ : Q t (toMillis ts)) :
    Cmd.Keeps (Admits P Q) (ArrayStore.onBackend (B := B) (ArrayBackend.putTimestamps t ts)) := by
  apply keeps_onBackend
  intro b hb
  refine Cmd.wp_mono (LawfulArrayBackend.putTimestamps_spec t ts hb) ?_
  rintro r b' ⟨hvalid, -, harray, hr⟩
  refine ⟨hvalid, harray, fun x ms hx => ?_⟩
  rcases r with e | _ | _
  · rw [show LawfulArrayBackend.vector b' = _ from hr] at hx
    exact Or.inl hx
  · rw [hr.2] at hx
    exact Or.inl hx
  · rw [hr.2] at hx
    by_cases hxt : x = t
    · rw [hxt, Function.update_self] at hx
      rw [hxt, ← Option.some.inj hx]
      exact Or.inr hQ
    · rw [Function.update_of_ne hxt] at hx
      exact Or.inl hx

theorem keeps_writeAllExcept (skip : List H) :
    Cmd.Keeps (Admits P Q) (ArrayStore.writeAllExcept (B := B) skip) := fun _ ha =>
  Cmd.wp_mono (ArrayStore.writeAllExcept_spec ha.valid skip) fun _ _ h => ha.written h.1

theorem keeps_removeWrites (w : FileObjects H) :
    Cmd.Keeps (Admits P Q) (removeWrites (B := B) w) := fun _ ha =>
  Cmd.wp_mono (removeWrites_spec ha.valid w) fun _ _ h => ha.shed h.2

theorem keeps_flushArrays : Cmd.Keeps (Admits P Q) (flushArrays (H := H) (B := B)) :=
  Cmd.keeps_bind (keeps_writeAllExcept []) fun _ => keeps_flushFile

/-! ### Operations that bring no arrays -/

/-- A store whose arrays are each allowed. -/
def AdmitsArrays (P : H → TypedArray → Prop) (Q : H → List ℤ → Prop) (s : Store H B) : Prop :=
  Admits P Q s.arrays

theorem keeps_of_frame {c : StoreCmd (Store H B) α} (h : Cmd.Frame Store.arrays c) :
    Cmd.Keeps (AdmitsArrays P Q) c := h.keeps _

theorem keeps_onArrays {c : StoreCmd (ArrayStore H B) α} (h : Cmd.Keeps (Admits P Q) c) :
    Cmd.Keeps (AdmitsArrays P Q) (onArrays c) := Cmd.keeps_zoom (fun _ _ => rfl) h

theorem keeps_unwindWritten (w : FileObjects H) :
    Cmd.Keeps (AdmitsArrays P Q) (unwindWritten (B := B) w) := by
  intro s hs
  refine Cmd.wp_mono (unwindWritten_spec hs.valid w) ?_
  rintro r s' ⟨-, -, -, -, removed, h⟩
  exact hs.shed h.shed

theorem keeps_freeOrDefer (garbage : FileObjects H) :
    Cmd.Keeps (AdmitsArrays P Q) (freeOrDefer (B := B) garbage) := by
  unfold freeOrDefer
  apply Cmd.keeps_bind Cmd.keeps_get
  intro s
  split
  · exact keeps_of_frame (frame_modifyTxn _)
  · exact keeps_onArrays (keeps_removeWrites garbage)

theorem keeps_flush : Cmd.Keeps (AdmitsArrays P Q) (flush (H := H) (B := B)) :=
  Cmd.keeps_bind (keeps_of_frame (frame_onConn _)) fun _ => keeps_onArrays keeps_flushArrays

theorem keeps_setWriteBufferBytes (bytes : ℕ) :
    Cmd.Keeps (AdmitsArrays P Q) (setWriteBufferBytes (H := H) (B := B) bytes) := by
  unfold setWriteBufferBytes
  split
  · exact Cmd.keeps_throw_bind _ _
  · apply keeps_onArrays
    apply Cmd.keeps_bind (Cmd.keeps_modify ?_)
    · intro _ a ha
      exact Cmd.wp_mono (ArrayStore.evictOverBudget_spec ha.valid) fun _ _ h => ha.written h
    · intro a ha
      exact ha.written (setBudget_written ha.valid bytes)

theorem keeps_flushWritten (garbage : FileObjects H) :
    Cmd.Keeps (AdmitsArrays P Q) (flushWritten (B := B) garbage) := by
  unfold flushWritten
  apply Cmd.keeps_bind Cmd.keeps_get
  intro s
  split
  · exact Cmd.keeps_pure _
  · apply Cmd.keeps_bind (keeps_onArrays (keeps_writeAllExcept _))
    exact fun _ => keeps_onArrays keeps_flushFile

theorem keeps_commitTransaction :
    Cmd.Keeps (AdmitsArrays P Q) (commitTransaction (H := H) (B := B)) := by
  have hrelease : ∀ f : OpenTxn H → OpenTxn H, Cmd.Keeps (AdmitsArrays P Q) (do
      executeTxnStmt Connection.release
      modifyTxn f : StoreCmd (Store H B) Unit) := fun f =>
    keeps_of_frame (Cmd.frame_bind (frame_executeTxnStmt _) fun _ => frame_modifyTxn f)
  unfold commitTransaction
  apply Cmd.keeps_bind (keeps_of_frame frame_innermostLevel)
  intro level
  apply Cmd.keeps_bind (keeps_of_frame frame_checkTransactionAlive)
  intro _
  split
  · exact hrelease _
  · apply Cmd.keeps_bind Cmd.keeps_get
    intro s
    apply Cmd.keeps_bind (keeps_of_frame (frame_onConn _))
    intro garbage
    apply Cmd.keeps_bind (keeps_flushWritten garbage)
    intro _
    apply Cmd.keeps_bind (keeps_of_frame (frame_executeTxnStmt _))
    intro _
    exact Cmd.keeps_bind (keeps_of_frame (frame_modifyTxn _)) fun _ =>
      keeps_onArrays (keeps_removeWrites garbage)

theorem keeps_rollbackTransaction :
    Cmd.Keeps (AdmitsArrays P Q) (rollbackTransaction (H := H) (B := B)) := by
  unfold rollbackTransaction
  apply Cmd.keeps_bind (keeps_of_frame frame_innermostLevel)
  intro level
  apply Cmd.keeps_bind Cmd.keeps_get
  intro s
  split
  · exact Cmd.keeps_bind (keeps_of_frame (frame_modifyTxn _)) fun _ => keeps_unwindWritten _
  · apply Cmd.keeps_bind (keeps_of_frame (frame_executeTxnStmt _))
    intro _
    apply Cmd.keeps_bind (keeps_of_frame (frame_modifyTxn _))
    intro _
    apply Cmd.keeps_bind Cmd.keeps_get
    intro s
    apply Cmd.keeps_bind (keeps_of_frame (frame_modifyTxn _))
    intro _
    exact Cmd.keeps_bind (keeps_unwindWritten _) fun _ => keeps_of_frame frame_checkTransactionAlive

theorem keeps_clearTimeSeries (owner : Option (ℤ × OwnerCategory)) :
    Cmd.Keeps (AdmitsArrays P Q) (clearTimeSeries (H := H) (B := B) owner) := by
  unfold clearTimeSeries
  apply Cmd.keeps_bind (keeps_of_frame (frame_modifyTxn _))
  intro _
  apply Cmd.keeps_bind (keeps_of_frame (frame_writeCatalog _))
  intro out
  apply Cmd.keeps_bind (Cmd.keeps_attempt (keeps_of_frame frame_orphanedTimestampVectors))
  intro swept
  apply Cmd.keeps_bind (keeps_of_frame frame_checkTransactionAlive)
  exact fun _ => Cmd.keeps_bind (keeps_freeOrDefer _) fun _ => Cmd.keeps_pure _

theorem keeps_compact : Cmd.Keeps (AdmitsArrays P Q) (compact (H := H) (B := B)) := by
  have hrefuse : Cmd.Frame Store.arrays (refuseInTransaction (H := H) (B := B) "compact") := by
    unfold refuseInTransaction
    apply Cmd.frame_bind Cmd.frame_get
    intro s
    split
    · exact Cmd.frame_throw _
    · exact Cmd.frame_pure _
  unfold compact
  apply Cmd.keeps_bind Cmd.keeps_get
  intro s
  split
  · exact Cmd.keeps_throw_bind _ _
  · apply Cmd.keeps_bind (keeps_of_frame hrefuse)
    intro _
    apply Cmd.keeps_bind keeps_flush
    intro _
    apply Cmd.keeps_bind (keeps_of_frame (frame_modifyTxn _))
    intro _
    apply Cmd.keeps_bind (keeps_of_frame (frame_writeCatalog _))
    intro _
    apply Cmd.keeps_bind (keeps_of_frame frame_orphanedTimestampVectors)
    intro orphans
    apply Cmd.keeps_bind (keeps_onArrays (Cmd.keeps_forM _ fun t _ => keeps_removeTimestamps t))
    exact fun _ => Cmd.keeps_pure _

/-! ### Adds -/

namespace Staging

/-- A write call over arrays that are each allowed. -/
def AdmitsStaging (P : H → TypedArray → Prop) (Q : H → List ℤ → Prop) (t : Staging H B) : Prop :=
  Admits P Q t.store.arrays

theorem keeps_onStore {c : StoreCmd (Store H B) α} (h : Cmd.Keeps (AdmitsArrays P Q) c) :
    Cmd.Keeps (AdmitsStaging P Q) (onStore c) := Cmd.keeps_zoom (fun _ _ => rfl) h

theorem keeps_stageTimestampVectors {ps : List (RequestParts H)}
    (hps : ∀ p ∈ ps, ∀ t ts, p.group = .irregular t → p.metadata.timestamps = some ts →
      Q t (toMillis ts)) : ∀ seen,
    Cmd.Keeps (AdmitsStaging P Q) (stageTimestampVectors (B := B) ps seen) := by
  induction ps with
  | nil => exact fun _ => Cmd.keeps_pure _
  | cons p ps ih =>
    intro seen
    apply Cmd.keeps_bind ?_ (ih fun q hq => hps q (List.mem_cons_of_mem _ hq))
    unfold stageTimestampVector
    split
    · rename_i t ts hgroup haxis
      split
      · exact Cmd.keeps_pure _
      · have hQ := hps p List.mem_cons_self t ts hgroup haxis
        apply Cmd.keeps_bind (keeps_onStore (keeps_onArrays (keeps_putTimestamps t hQ)))
        intro stored
        simp only
        split
        · exact Cmd.keeps_bind (Cmd.keeps_modify fun _ h => h) fun _ => Cmd.keeps_pure _
        · exact Cmd.keeps_pure _
    · exact Cmd.keeps_pure _

/-- One put: what it stores is the array it is given. -/
theorem keeps_stagePut {x : TypedArray} {p : RequestParts H} (hx : x.Storable) (hp : P p.hash x) :
    Cmd.Keeps (AdmitsStaging P Q) (stagePut (B := B) x p) := by
  intro t ht
  have ha : Admits P Q t.store.arrays := ht
  unfold stagePut
  rw [Cmd.wp_bind, Cmd.wp_get]
  simp only [Cmd.wp_bind, onStore, onArrays, Cmd.wp_zoom]
  refine Cmd.wp_mono (ArrayStore.putArray_spec ha.valid _ p.hash p.group p.layout hx) fun r a hr => ?_
  have hadmits : Admits P Q a := by
    rcases hr with ⟨-, -, rfl⟩ | ⟨-, hst, -⟩
    · exact ha
    · refine ⟨hst.valid, fun {y z} hy => ?_, fun {t ms} ht => ha.allowedAxis ?_⟩
      · rcases hst.content with hc | ⟨-, hc⟩
        · rw [hc] at hy
          by_cases hyp : y = p.hash
          · rw [hyp, Function.update_self] at hy
            rw [hyp, ← Option.some.inj hy]
            exact hp
          · rw [Function.update_of_ne hyp] at hy
            exact ha.allowed hy
        · rw [hc] at hy
          exact ha.allowed hy
      · rw [← hst.vector]
        exact ht
  cases r with
  | error e => exact hadmits
  | ok stored =>
    simp only
    split
    · exact hadmits
    · exact hadmits

/-- One block: what it stores is among its items. -/
theorem stageBlock_admits {t : Staging H B} (ht : AdmitsStaging P Q t)
    (hidle : ∀ x, t.store.arrays.buffer.get x = none) {pool : PoolKey H × List (H × TypedArray)}
    (hnd : (pool.2.map Prod.fst).Nodup) (hit : ∀ it ∈ pool.2, it.2.Storable ∧ P it.1 it.2)
    (hshape : ∀ i ∈ pool.2, ∀ j ∈ pool.2, i.2.dtype = j.2.dtype ∧ i.2.shape = j.2.shape) :
    (stageBlock (B := B) pool).wp (fun _ t' => AdmitsStaging P Q t' ∧
      ∀ x, t'.store.arrays.buffer.get x = none) t := by
  have ha : Admits P Q t.store.arrays := ht
  unfold stageBlock
  simp only [Cmd.wp_bind, onStore, onArrays, ArrayStore.onBackend, Cmd.wp_zoom]
  refine Cmd.wp_mono (putBlock_spec pool.1.group ha.valid.backend hnd (fun it h => (hit it h).1) hshape) ?_
  rintro r b ⟨hvalid, -, hvec, hr⟩
  have harray : ∀ x, LawfulArrayBackend.array b x = LawfulArrayBackend.array t.store.arrays.backend x ∨
      LawfulArrayBackend.array b x =
        orInserted (LawfulArrayBackend.array t.store.arrays.backend) pool.2 x := by
    cases r with
    | error e => exact hr.1
    | ok written => exact fun x => Or.inr (congrFun hr.1 x)
  have hadmits : Admits P Q (⟨t.store.arrays.buffer, b⟩ : ArrayStore H B) := by
    refine ⟨⟨hvalid, ha.valid.indexed, fun e _ => ?_⟩, fun {x y} hx => ?_, fun {u ms} hu => ?_⟩
    · rw [hidle] at e
      cases e
    · have hback : LawfulArrayBackend.array b x = some y := by
        have : (t.store.arrays.buffer.get x).or (LawfulArrayBackend.array b x) = some y := hx
        rwa [hidle, Option.none_or] at this
      have hold : LawfulArrayBackend.array t.store.arrays.backend x = some y → P x y := fun h => by
        apply ha.allowed
        show (t.store.arrays.buffer.get x).or _ = some y
        rw [hidle, Option.none_or, h]
      rcases harray x with h | h
      · exact hold (h.symm.trans hback)
      · rw [h] at hback
        unfold orInserted at hback
        rcases hb : LawfulArrayBackend.array t.store.arrays.backend x with _ | z
        · rw [hb, Option.none_or] at hback
          obtain ⟨l₁, l₂, hl, -⟩ := List.lookup_eq_some_iff.mp hback
          exact (hit (x, y) (by rw [hl]; simp)).2
        · rw [hb, Option.some_or] at hback
          exact hold (hb.trans hback)
    · apply ha.allowedAxis
      rw [← show LawfulArrayBackend.vector b = t.store.arrays.vector from hvec]
      exact hu
  cases r with
  | error e => exact ⟨hadmits, hidle⟩
  | ok written => exact ⟨hadmits, hidle⟩

/-- The arrays of a batch. -/
theorem stageArrays_admits {parts : List (RequestParts H)} {t : Staging H B} (ht : AdmitsStaging P Q t)
    (hidle : t.store.inTransaction = false → ∀ x, t.store.arrays.buffer.get x = none)
    {xs : List (TypedArray × RequestParts H)}
    (hxs : ∀ x ∈ xs, x.2 ∈ parts ∧ Faithful x.2.hash x.1 ∧ P x.2.hash x.1) :
    (stageArrays (B := B) xs).wp (fun _ t' => AdmitsStaging P Q t') t := by
  have hputs : ∀ ys : List (TypedArray × RequestParts H), (∀ x ∈ ys, x ∈ xs) →
      Cmd.Keeps (AdmitsStaging P Q) (ys.forM fun x => stagePut (B := B) x.1 x.2) := fun ys hys =>
    Cmd.keeps_forM _ fun x hx => keeps_stagePut (hxs x (hys x hx)).2.1.2 (hxs x (hys x hx)).2.2
  unfold stageArrays
  rw [Cmd.wp_bind, Cmd.wp_get]
  simp only
  split
  · exact hputs xs (fun _ h => h) t ht
  rename_i htx
  have hempty := hidle (by simpa using htx)
  have hfirst : ∀ {q : TypedArray × RequestParts H → Bool}, ∀ x ∈ (firstOfHash xs []).filter q, x ∈ xs :=
    fun x hx => (firstOfHash_mem (List.mem_of_mem_filter hx)).1
  have hpooled : Pooled _ (groupPools ((firstOfHash xs []).filter fun x => x.2.layout.isPacked)) :=
    groupPools_pooled ((firstOfHash_nodup xs []).sublist (List.filter_sublist.map _))
  rw [Cmd.wp_bind]
  refine Cmd.wp_mono (Cmd.wp_and (hputs _ hfirst t ht)
    (stagePuts_spec _ ht.valid fun x hx => ⟨(hxs x (hfirst x hx)).1, (hxs x (hfirst x hx)).2.1⟩)) ?_
  rintro r t₁ ⟨h₁, hst₁, -⟩
  cases r with
  | error e => exact h₁
  | ok u =>
    have hempty₁ : ∀ x, t₁.store.arrays.buffer.get x = none := by
      intro x
      have := mt (hst₁.idle (by simpa using htx) x)
      rw [hempty x] at this
      simpa using this
    refine Cmd.wp_mono (Cmd.wp_forM (I := fun t' => AdmitsStaging P Q t' ∧
      ∀ x, t'.store.arrays.buffer.get x = none) _ _ ?_ t₁ ⟨h₁, hempty₁⟩) fun r t₂ h => h.1
    rintro pool hpool t₂ ⟨ht₂, hempty₂⟩
    have hitems : ∀ it ∈ pool.2, (it.2.Storable ∧ P it.1 it.2) ∧ poolKey it.2 pool.1.group = pool.1 := by
      intro it hit
      obtain ⟨x, hx, h1, h2, h3⟩ := hpooled.origin pool hpool it hit
      obtain ⟨-, hf, hp⟩ := hxs x (hfirst x hx)
      rw [h1, h2] at hp
      rw [h2] at hf
      refine ⟨⟨hf.2, hp⟩, ?_⟩
      rw [← h3, ← h2]
      rfl
    apply stageBlock_admits ht₂ hempty₂ (hpooled.nodup pool hpool) (fun it hit => (hitems it hit).1)
    intro i hi j hj
    obtain ⟨⟨h1, -⟩, h2⟩ := hitems i hi
    obtain ⟨⟨h3, -⟩, h4⟩ := hitems j hj
    exact poolKey_shape h1 h3 (h2.trans h4.symm)

/-- The arrays of an accepted batch are those of its requests. -/
theorem parts_arrays {items : List AddRequest} {parts : List (RequestParts H)}
    (h : items.mapM buildRequestParts = .ok parts)
    (hP : ∀ item ∈ items, P (arrayHash item.data.fields.data) item.data.fields.data) :
    ∀ x ∈ (items.map (·.data.fields.data)).zip parts, P x.2.hash x.1 := by
  intro x hx
  rw [List.zip_map_left, List.mem_map] at hx
  obtain ⟨p, hp, rfl⟩ := hx
  show P p.2.hash p.1.data.fields.data
  rw [(buildRequestParts_ok ((mapM_ok h).2 p hp)).2.2.2.2.2.1]
  exact hP p.1 (List.of_mem_zip (a := p.1) (b := p.2) hp).1

/-- The axes of an accepted batch are those of its requests. -/
theorem parts_axes {items : List AddRequest} {parts : List (RequestParts H)}
    (h : items.mapM buildRequestParts = .ok parts)
    (hQ : ∀ item ∈ items, ∀ ts, item.data.axis = some ts → (∀ t ∈ ts, t.IsMillis) →
      Q (timestampsHash ts) (toMillis ts)) :
    ∀ p ∈ parts, ∀ t ts, p.group = .irregular t → p.metadata.timestamps = some ts →
      Q t (toMillis ts) := by
  intro p hp t ts hgroup haxis
  obtain ⟨item, hitem, hb⟩ := parts_origin h hp
  have hnames := buildRequestParts_axis hb
  rw [hgroup] at hnames
  obtain ⟨ts', he, rfl⟩ := hnames
  rw [haxis] at he
  rw [← Option.some.inj he]
  have hfile := (buildRequestParts_ok hb).2.2.2.2.1
  exact hQ item (List.of_mem_zip hitem).1 ts ((fileSeries_axis_eq hfile rfl).symm.trans haxis)
    (buildRequestParts_millis hb haxis)

/-- **An add**, whatever it ends with, has put only the objects of its requests. -/
theorem addRequestsStaged_admits {s : Store H B} (hs : s.Sound) (ha : Admits P Q s.arrays)
    {items : List AddRequest}
    (hP : ∀ item ∈ items, P (arrayHash item.data.fields.data) item.data.fields.data)
    (hQ : ∀ item ∈ items, ∀ ts, item.data.axis = some ts → (∀ t ∈ ts, t.IsMillis) →
      Q (timestampsHash ts) (toMillis ts)) :
    (addRequestsStaged (B := B) items).wp (fun _ t => AdmitsStaging P Q t) ⟨s, .empty⟩ := by
  unfold addRequestsStaged
  rw [Cmd.wp_bind, Cmd.wp_get]
  simp only
  split
  · exact ha
  simp only [Cmd.wp_bind, onStore, Cmd.wp_zoom, checkTransactionAlive, Cmd.wp_get]
  split
  · exact ha
  simp only [Cmd.wp_pure]
  split
  · exact ha
  rw [Cmd.wp_bind, Cmd.wp_ofExcept]
  cases hparts : (items.mapM buildRequestParts : Result (List (RequestParts H))) with
  | error e => exact ha
  | ok parts =>
    obtain ⟨hax, hfaith, -⟩ := parts_ready hparts
    simp only [Cmd.wp_bind, Cmd.wp_zoom]
    rw [Cmd.wp_of_exec (takeSharedSets_exec s)]
    simp only
    -- the store the call works on
    obtain ⟨t₀, ht₀⟩ : ∃ t₀ : Staging H B, t₀ = ⟨{ s with txn := takenTxn s }, .empty⟩ := ⟨_, rfl⟩
    have hin₀ : t₀.store.inTransaction = s.inTransaction := by
      rw [ht₀]
      unfold inTransaction
      rw [show ({ s with txn := takenTxn s } : Store H B).txn.marks = _ from (takenTxn_fields s).1]
    have harr₀ : t₀.store.arrays = s.arrays := by rw [ht₀]
    have ha₀ : AdmitsStaging P Q t₀ := by
      unfold AdmitsStaging
      rw [harr₀]
      exact ha
    have hseen₀ : HeldAxes t₀ (takenSets s) := by
      intro x hx
      unfold takenSets at hx
      rw [harr₀]
      split at hx
      · exact hs.cached x hx
      · exact (List.not_mem_nil hx).elim
    rw [← ht₀]
    refine Cmd.wp_mono (Cmd.wp_and (keeps_stageTimestampVectors (parts_axes hparts hQ) (takenSets s) t₀ ha₀)
      (stageTimestampVectors_spec parts ha₀.valid (fun _ h => h) hax hseen₀)) ?_
    rintro r t₁ ⟨ha₁, h₁, -⟩
    cases r with
    | error e => exact ha₁
    | ok cache =>
      have hidle₁ : t₁.store.inTransaction = false → ∀ x, t₁.store.arrays.buffer.get x = none := by
        intro hi x
        have hi₀ : t₀.store.inTransaction = false := by
          unfold inTransaction at hi ⊢
          rw [← h₁.txn]
          exact hi
        have hx := mt (h₁.idle hi₀ x)
        rw [harr₀, (hs.idle (hin₀.symm.trans hi₀)).2.2 x] at hx
        simpa using hx
      simp only
      refine Cmd.wp_mono (stageArrays_admits ha₁ hidle₁ fun x hx =>
        ⟨(hfaith x hx).1, (hfaith x hx).2, parts_arrays hparts hP x hx⟩) ?_
      intro r t₂ ha₂
      cases r with
      | error e => exact ha₂
      | ok u =>
        refine Cmd.wp_mono (fileRows_spec ha₂.valid (parts.map (·.metadata)) cache) ?_
        intro r t₃ h₃
        have ha₃ : AdmitsStaging P Q t₃ := Admits.written ha₂ h₃.written
        cases r with
        | error e => exact ha₃
        | ok out =>
          have hreturn : Cmd.Frame Store.arrays (returnSharedSets (H := H) (B := B) out.2) := by
            unfold returnSharedSets
            apply Cmd.frame_bind Cmd.frame_get
            intro s'
            split
            · exact frame_modifyTxn _
            · exact Cmd.frame_pure _
          refine Cmd.wp_mono (keeps_of_frame (P := P) (Q := Q) hreturn t₃.store ha₃) fun r s₄ h₄ => ?_
          cases r with
          | error e => exact h₄
          | ok u => exact h₄

end Staging

theorem keeps_settle (staged : FileObjects H) (r : Result α) :
    Cmd.Keeps (AdmitsArrays P Q) (settle (B := B) staged r) := by
  unfold settle
  cases r with
  | error e =>
    exact Cmd.keeps_bind (keeps_onArrays (keeps_removeWrites staged)) fun _ => Cmd.keeps_throw e
  | ok a =>
    apply Cmd.keeps_bind Cmd.keeps_get
    intro s
    split
    · exact Cmd.keeps_bind (keeps_of_frame (frame_modifyTxn _)) fun _ => Cmd.keeps_pure a
    · exact Cmd.keeps_pure a

/-- **Adds.**  What a store holds after an add it held before, or a request carries it. -/
theorem addRequests_admits {s : Store H B} (hs : s.Sound) (ha : Admits P Q s.arrays)
    {items : List AddRequest}
    (hP : ∀ item ∈ items, P (arrayHash item.data.fields.data) item.data.fields.data)
    (hQ : ∀ item ∈ items, ∀ ts, item.data.axis = some ts → (∀ t ∈ ts, t.IsMillis) →
      Q (timestampsHash ts) (toMillis ts)) :
    (addRequests (B := B) items).wp (fun _ s' => Admits P Q s'.arrays) s := by
  have hstaged := Staging.addRequestsStaged_admits hs ha hP hQ
  unfold Cmd.wp at hstaged
  unfold addRequests
  rw [Cmd.wp_bind, Cmd.wp_get]
  simp only
  rcases hx : (addRequestsStaged (B := B) items).exec ⟨s, .empty⟩ with ⟨r, t⟩
  rw [hx] at hstaged
  simp only [Cmd.wp_bind, Cmd.wp_set]
  exact keeps_settle t.staged r t.store hstaged

/-! ### Turns -/

/-- **Every operation** leaves objects that it found, or was given. -/
theorem step_admits [ToString H] {s : Store H B} (hs : s.Sound) (ha : Admits P Q s.arrays) (op : Op H)
    (hP : ∀ a ∈ op.arrays, P (arrayHash a) a)
    (hQ : ∀ ts ∈ op.axes, (∀ t ∈ ts, t.IsMillis) → Q (timestampsHash ts) (toMillis ts)) :
    (step op).wp (fun _ s' => Admits P Q s'.arrays) s := by
  have hkeeps : ∀ {c : StoreCmd (Store H B) Unit}, Cmd.Keeps (AdmitsArrays P Q) c →
      c.wp (fun _ s' => Admits P Q s'.arrays) s := fun hc => hc s ha
  have hdrop : ∀ {β : Type} {c : StoreCmd (Store H B) β}, Cmd.Keeps (AdmitsArrays P Q) c →
      (do let _ ← c : StoreCmd (Store H B) Unit).wp (fun _ s' => Admits P Q s'.arrays) s :=
    fun hc => (Cmd.wp_map _ _ _ s).mpr (hc s ha)
  cases op with
  | beginTransaction =>
    exact hkeeps (keeps_of_frame (Cmd.frame_bind frame_checkTransactionAlive fun _ =>
      Cmd.frame_bind (frame_onConn _) fun _ => frame_modifyTxn _))
  | commitTransaction => exact hkeeps keeps_commitTransaction
  | rollbackTransaction => exact hkeeps keeps_rollbackTransaction
  | addRequests items =>
    exact (Cmd.wp_map _ _ _ s).mpr (addRequests_admits hs ha
      (fun item hitem => hP _ (List.mem_map_of_mem hitem))
      fun item hitem ts hts => hQ ts (List.mem_filterMap.mpr ⟨item, hitem, hts⟩))
  | removeByIds ids owner =>
    exact hdrop (Cmd.keeps_bind (keeps_of_frame (frame_writeCatalog _)) fun _ =>
      Cmd.keeps_bind (keeps_freeOrDefer _) fun _ => Cmd.keeps_pure _)
  | clearTimeSeries owner => exact hdrop (keeps_clearTimeSeries owner)
  | replaceOwner old new category => exact hdrop (keeps_of_frame (frame_replaceOwner old new category))
  | copyTimeSeries src dst ty name => exact hdrop (keeps_of_frame (frame_copyTimeSeries src dst ty name))
  | importAssociationRows rows => exact hdrop (keeps_of_frame (frame_importAssociationRows rows))
  | transformSingleTimeSeries horizon interval category resolution policy =>
    exact hdrop (keeps_of_frame
      (frame_transformSingleTimeSeries horizon interval category resolution policy))
  | flush => exact hkeeps keeps_flush
  | setWriteBufferBytes bytes => exact hkeeps (keeps_setWriteBufferBytes bytes)
  | compact => exact hdrop keeps_compact

/-- **Every turn.** -/
theorem turn_admits [ToString H] {s : Store H B} (hs : s.Inv) (ha : Admits P Q s.arrays) (t : Turn H)
    (hP : ∀ a ∈ t.op.arrays, P (arrayHash a) a)
    (hQ : ∀ ts ∈ t.op.axes, (∀ t ∈ ts, t.IsMillis) → Q (timestampsHash ts) (toMillis ts)) :
    Admits P Q ((turn t).exec s).2.arrays :=
  step_admits (s := s.arm t.faults) (hs.arm t.faults).toSound ha t.op hP hQ

end

end Store

end InfraStore
