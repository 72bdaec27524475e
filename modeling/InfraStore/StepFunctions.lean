import InfraStore.Identity
import InfraStore.RangeReads
import InfraStore.StaticReader

/-!
# Step functions

A `PersistentTimeSeries` is a step function: a breakpoint's row is in force from it up to the next.

* `InForce`: the row in force at an instant, and `indexAt_iff`, which says the code's lookup finds it;
* `materialize_range_preserves`: a range read has the rows of the series in force throughout it;
* `mergeBreakpoints_sorted`, `mem_mergeBreakpoints`: the axis of a reader over many step functions;
* `readAt_eq_of_last`: between two instants of that axis a read does not change.
-/

namespace InfraStore

open Lib

/-! ### The row in force -/

/-- Row `k` is in force at an instant: its breakpoint is not after the instant and the next one is. -/
structure InForce (breakpoints : List DateTime) (x : DateTime) (k : ℕ) : Prop where
  reached : ∃ t, breakpoints[k]? = some t ∧ t ≤ x
  next : ∀ t, breakpoints[k + 1]? = some t → x < t

section

variable {breakpoints : List DateTime} {x y : DateTime} {k : ℕ}

/-- An increasing vector is cut in two by an instant. -/
theorem reached_cut (hs : breakpoints.Pairwise (· < ·)) (x : DateTime) :
    breakpoints.Pairwise fun a b => decide (b ≤ x) = true → decide (a ≤ x) = true :=
  hs.imp fun hab hb => decide_eq_true (hab.le.trans (of_decide_eq_true hb))

theorem before_cut (hs : breakpoints.Pairwise (· < ·)) (x : DateTime) :
    breakpoints.Pairwise fun a b => decide (b < x) = true → decide (a < x) = true :=
  hs.imp fun hab hb => decide_eq_true (hab.trans (of_decide_eq_true hb))

theorem indexAt_eq_some :
    indexAt breakpoints x = some k ↔ partitionPoint (fun b => decide (b ≤ x)) breakpoints = k + 1 := by
  unfold indexAt
  cases partitionPoint (fun b => decide (b ≤ x)) breakpoints with
  | zero => simp
  | succ n => simp

/-- **The lookup.**  The row found for an instant is the one in force at it. -/
theorem indexAt_iff (hs : breakpoints.Pairwise (· < ·)) :
    indexAt breakpoints x = some k ↔ InForce breakpoints x k := by
  rw [indexAt_eq_some]
  obtain ⟨n, hn⟩ : ∃ n, partitionPoint (fun b => decide (b ≤ x)) breakpoints = n := ⟨_, rfl⟩
  have hle : n ≤ breakpoints.length := hn ▸ partitionPoint_le _ _
  have hcut : ∀ i t, breakpoints[i]? = some t → (i < n ↔ t ≤ x) := by
    intro i t hi
    rw [← hn, lt_partitionPoint_iff (reached_cut hs x) hi, decide_eq_true_iff]
  rw [hn]
  constructor
  · rintro rfl
    refine ⟨⟨breakpoints[k], List.getElem?_eq_getElem (by omega), ?_⟩, fun t ht => ?_⟩
    · exact (hcut k _ (List.getElem?_eq_getElem (by omega))).mp (by omega)
    · by_contra hle'
      have := (hcut (k + 1) t ht).mpr (not_lt.mp hle')
      omega
  · rintro ⟨⟨t, ht, htx⟩, hnext⟩
    have hk := (hcut k t ht).mpr htx
    by_contra hne
    have hk1 : k + 1 < breakpoints.length := by omega
    have hlt := hnext _ (List.getElem?_eq_getElem hk1)
    have := (hcut (k + 1) _ (List.getElem?_eq_getElem hk1)).not.mpr (not_le.mpr hlt)
    omega

/-- Where the first breakpoint has been reached, some row is in force. -/
theorem indexAt_isSome (hx : ∃ t, breakpoints.head? = some t ∧ t ≤ x) :
    ∃ k, indexAt breakpoints x = some k := by
  obtain ⟨t, ht, htx⟩ := hx
  cases breakpoints with
  | nil => cases ht
  | cons b bs =>
    cases ht
    refine ⟨(bs.takeWhile fun b => decide (b ≤ x)).length, indexAt_eq_some.mpr ?_⟩
    unfold partitionPoint
    rw [List.takeWhile_cons, decide_eq_true htx, if_pos rfl, List.length_cons]

/-- Before the first breakpoint none is. -/
theorem indexAt_eq_none (hx : ∀ t, breakpoints.head? = some t → x < t) :
    indexAt breakpoints x = none := by
  cases breakpoints with
  | nil => rfl
  | cons b bs =>
    unfold indexAt partitionPoint
    rw [List.takeWhile_cons, decide_eq_false (not_le.mpr (hx b rfl)), if_neg Bool.false_ne_true]
    rfl

/-- Two instants that have reached the same breakpoints have the same row in force. -/
theorem indexAt_congr (h : ∀ t ∈ breakpoints, t ≤ x ↔ t ≤ y) :
    indexAt breakpoints x = indexAt breakpoints y := by
  have htake : breakpoints.takeWhile (fun b => decide (b ≤ x)) =
      breakpoints.takeWhile fun b => decide (b ≤ y) := by
    induction breakpoints with
    | nil => rfl
    | cons b bs ih =>
      have hb : decide (b ≤ x) = decide (b ≤ y) := decide_eq_decide.mpr (h b List.mem_cons_self)
      rw [List.takeWhile_cons, List.takeWhile_cons, hb,
        ih fun t ht => h t (List.mem_cons_of_mem _ ht)]
  unfold indexAt partitionPoint
  rw [htake]

end

/-! ### Ranges of a step function -/

/-- The bytes of the row in force at an instant. -/
def PersistentTimeSeries.inForce (ps : PersistentTimeSeries) (x : DateTime) : Option (List UInt8) :=
  (indexAt ps.timestamps x).map ps.data.row

section

variable {ts : List DateTime} {start stop : DateTime} {k : ℕ}

/-- What precedes the end of a range includes what has been reached at its start. -/
theorem inForce_lt_stop (hk : indexAt ts start = some k) (hlt : start < stop) :
    k < partitionPoint (fun t => decide (t < stop)) ts := by
  have hle : partitionPoint (fun t => decide (t ≤ start)) ts ≤
      partitionPoint (fun t => decide (t < stop)) ts :=
    partitionPoint_mono ts fun a ha => decide_eq_true ((of_decide_eq_true ha).trans_lt hlt)
  rw [indexAt_eq_some.mp hk] at hle
  exact hle

theorem selectBreakpoints_inForce {H : Type} {m : TimeSeriesMetadata H}
    (hk : indexAt ts start = some k) (hlt : start < stop) :
    selectBreakpoints m ts start stop =
      .ok (k, partitionPoint (fun t => decide (t < stop)) ts) := by
  unfold selectBreakpoints
  rw [if_neg hlt.ne', hk]

theorem selectBreakpoints_refused {H : Type} {m : TimeSeriesMetadata H}
    (hk : indexAt ts start = none) (hlt : start < stop) :
    ∃ e, selectBreakpoints m ts start stop = .error e := by
  unfold selectBreakpoints
  rw [if_neg hlt.ne', hk]
  exact ⟨_, rfl⟩

/-- The breakpoints selected are a run of them. -/
theorem selectBreakpoints_le {H : Type} {m : TimeSeriesMetadata H} (hle : start ≤ stop) {i j : ℕ}
    (h : selectBreakpoints m ts start stop = .ok (i, j)) : i ≤ j ∧ j ≤ ts.length := by
  by_cases heq : stop = start
  · unfold selectBreakpoints at h
    rw [if_pos heq] at h
    cases h
    exact ⟨le_rfl, partitionPoint_le _ _⟩
  · have hlt : start < stop := lt_of_le_of_ne hle (Ne.symm heq)
    cases hk : indexAt ts start with
    | none =>
      obtain ⟨e, he⟩ := selectBreakpoints_refused (m := m) hk hlt
      rw [he] at h
      cases h
    | some k =>
      rw [selectBreakpoints_inForce hk hlt] at h
      cases h
      exact ⟨(inForce_lt_stop hk hlt).le, partitionPoint_le _ _⟩

/-- A breakpoint of the part selected is one of the series. -/
theorem getElem?_selected {i n j : ℕ} :
    ((ts.drop i).take n)[j]? = if j < n then ts[i + j]? else none := by
  rw [List.getElem?_take]
  split
  · rw [List.getElem?_drop]
  · rfl

/-- **Step functions are preserved.**  Throughout a range, the row in force on the breakpoints selected
for it is the one in force on all of them. -/
theorem inForce_selected (hs : ts.Pairwise (· < ·)) (hk : indexAt ts start = some k) {x : DateTime}
    (hx : start ≤ x) (hstop : x < stop) :
    ∃ i, k ≤ i ∧ i < partitionPoint (fun t => decide (t < stop)) ts ∧ InForce ts x i ∧
      InForce ((ts.drop k).take (partitionPoint (fun t => decide (t < stop)) ts - k)) x (i - k) := by
  have hle : partitionPoint (fun t => decide (t ≤ start)) ts ≤
      partitionPoint (fun t => decide (t ≤ x)) ts :=
    partitionPoint_mono ts fun a ha => decide_eq_true ((of_decide_eq_true ha).trans hx)
  rw [indexAt_eq_some.mp hk] at hle
  obtain ⟨i, hi⟩ : ∃ i, partitionPoint (fun t => decide (t ≤ x)) ts = i + 1 :=
    Nat.exists_eq_succ_of_ne_zero (by omega)
  have hat : indexAt ts x = some i := indexAt_eq_some.mpr hi
  have hforce := (indexAt_iff hs).mp hat
  have hki : k ≤ i := by omega
  have hin := inForce_lt_stop hat hstop
  refine ⟨i, hki, hin, hforce, ?_, fun t ht => ?_⟩
  · obtain ⟨t, ht, htx⟩ := hforce.reached
    refine ⟨t, ?_, htx⟩
    rw [getElem?_selected, if_pos (by omega), Nat.add_sub_cancel' hki]
    exact ht
  · rw [getElem?_selected] at ht
    split at ht
    · rw [show k + (i - k + 1) = i + 1 by omega] at ht
      exact hforce.next t ht
    · cases ht

/-- The breakpoints selected after the first are those strictly inside the range. -/
theorem mem_selected_tail (hs : ts.Pairwise (· < ·)) (hk : indexAt ts start = some k) {t : DateTime} :
    t ∈ ((ts.drop k).take (partitionPoint (fun t => decide (t < stop)) ts - k)).tail ↔
      t ∈ ts ∧ start < t ∧ t < stop := by
  have hreach := indexAt_eq_some.mp hk
  have hcut : ∀ i t, ts[i]? = some t → (i < k + 1 ↔ t ≤ start) := by
    intro i t hi
    rw [← hreach, lt_partitionPoint_iff (reached_cut hs start) hi, decide_eq_true_iff]
  have hbefore : ∀ i t, ts[i]? = some t →
      (i < partitionPoint (fun t => decide (t < stop)) ts ↔ t < stop) := by
    intro i t hi
    rw [lt_partitionPoint_iff (before_cut hs stop) hi, decide_eq_true_iff]
  simp only [List.mem_iff_getElem?, List.getElem?_tail, getElem?_selected]
  constructor
  · rintro ⟨i, hi⟩
    split at hi
    · rename_i hlt
      refine ⟨⟨_, hi⟩, ?_, (hbefore _ t hi).mp (by omega)⟩
      have := (hcut _ t hi).not.mp (by omega)
      exact not_le.mp this
    · cases hi
  · rintro ⟨⟨i, hi⟩, hstart, hstop⟩
    have h1 := (hcut i t hi).not.mpr (not_le.mpr hstart)
    have h2 := (hbefore i t hi).mpr hstop
    refine ⟨i - k - 1, ?_⟩
    rw [if_pos (by omega), show k + (i - k - 1 + 1) = i by omega]
    exact hi

end

namespace ArrayStore.Stores

variable {H B : Type} [DecidableEq H] [Sha256 H] [FloatText] [ToString H] [ArrayBackend H B]
  [LawfulArrayBackend H B] [LawfulReads H B]
variable {s : ArrayStore H B} {m : TimeSeriesMetadata H} {ps : PersistentTimeSeries}
  (h : s.Stores m (.persistent ps)) {r : TimeRange} (hr : r.SpelledFor m.timeReference)
include h hr

/-- A range that starts before the first breakpoint is refused. -/
theorem persistent_refused (hlt : r.start < r.stop)
    (hfirst : ∀ t, ps.timestamps.head? = some t → r.start < t) :
    ∃ e, materializeTimeSeries s m (some r) = .error e := by
  have hlen : ps.timestamps.length = ps.length :=
    h.accepted.persistent.rows.trans h.accepted.persistent.length.symm
  obtain ⟨e, he⟩ := selectBreakpoints_refused (m := m) (indexAt_eq_none hfirst) hlt
  rw [h.materialize_persistent hr hlt.le
    (fun i j hij => hlen ▸ selectBreakpoints_le hlt.le hij) r.start, he]
  exact ⟨e, rfl⟩

/-- A range of no width selects nothing. -/
theorem persistent_empty (heq : r.stop = r.start) :
    ∃ i, materializeTimeSeries s m (some r) =
      .ok ((TimeSeriesData.persistent ps).cut i 0 r.start) := by
  have hlen : ps.timestamps.length = ps.length :=
    h.accepted.persistent.rows.trans h.accepted.persistent.length.symm
  rw [h.materialize_persistent hr heq.ge
    (fun i j hij => hlen ▸ selectBreakpoints_le heq.ge hij) r.start]
  unfold selectBreakpoints
  rw [if_pos heq]
  exact ⟨_, congrArg (fun n => Except.ok ((TimeSeriesData.persistent ps).cut _ n r.start))
    (Nat.sub_self _)⟩

/-- **Ranges of step functions.**  A range that starts at or after the first breakpoint is a step
function that has the series' row in force throughout it; it begins with the breakpoint in force at
the start, and its others are the breakpoints strictly inside. -/
theorem materialize_range_preserves (hlt : r.start < r.stop)
    (hfirst : ∃ t, ps.timestamps.head? = some t ∧ t ≤ r.start) :
    ∃ ps', materializeTimeSeries s m (some r) = .ok (.persistent ps') ∧
      (∀ x, r.start ≤ x → x < r.stop →
        ∃ row, ps.inForce x = some row ∧ ps'.inForce x = some row) ∧
      (∃ k t, InForce ps.timestamps r.start k ∧ ps.timestamps[k]? = some t ∧
        ps'.timestamps.head? = some t) ∧
      ∀ t, t ∈ ps'.timestamps.tail ↔ t ∈ ps.timestamps ∧ r.start < t ∧ t < r.stop := by
  have hax := h.accepted.persistent
  have hlen : ps.timestamps.length = ps.length := hax.rows.trans hax.length.symm
  have hne : ps.data.shape ≠ [] := h.accepted.shape_ne_nil
  obtain ⟨k, hk⟩ := indexAt_isSome hfirst
  have hin := inForce_lt_stop hk hlt
  have hforce := (indexAt_iff hax.increasing).mp hk
  have hread := h.materialize_persistent hr hlt.le
    (fun i j hij => hlen ▸ selectBreakpoints_le hlt.le hij) r.start
  rw [selectBreakpoints_inForce hk hlt] at hread
  refine ⟨_, hread, fun x hx hstop => ?_, ?_, fun t => mem_selected_tail hax.increasing hk⟩
  · obtain ⟨i, hki, hi, hx1, hx2⟩ := inForce_selected hax.increasing hk hx hstop
    have hsub : ((ps.timestamps.drop k).take
        (partitionPoint (fun t => decide (t < r.stop)) ps.timestamps - k)).Pairwise (· < ·) :=
      hax.increasing.sublist ((List.take_sublist _ _).trans (List.drop_sublist _ _))
    refine ⟨ps.data.row i, ?_, ?_⟩
    · rw [PersistentTimeSeries.inForce, (indexAt_iff hax.increasing).mpr hx1]
      rfl
    · rw [PersistentTimeSeries.inForce, (indexAt_iff hsub).mpr hx2]
      show some ((ps.data.slice 0 k _).row (i - k)) = _
      rw [TypedArray.row_slice hne (show i - k < _ - k by omega), Nat.add_sub_cancel' hki]
  · obtain ⟨t, ht, -⟩ := hforce.reached
    refine ⟨k, t, hforce, ht, ?_⟩
    show ((ps.timestamps.drop k).take _).head? = _
    rw [List.head?_eq_getElem?, getElem?_selected, if_pos (by omega), Nat.add_zero]
    exact ht

end ArrayStore.Stores

/-! ### Readers of step functions -/

section

variable {vectors : List (List DateTime)}

theorem mergeBreakpoints_spec (vectors : List (List DateTime)) :
    (mergeBreakpoints vectors).Pairwise (· < ·) ∧
      ∀ t ∈ vectors.flatten, t ∈ mergeBreakpoints vectors := by
  have hsorted : (sortBy id vectors.flatten).Pairwise fun a b => id a ≤ id b :=
    pairwise_sortBy vectors.flatten
  obtain ⟨hp, hcov⟩ := destutter_spec (R := fun a b : DateTime => a ≠ b) hsorted
    fun x _ y _ => Iff.rfl
  refine ⟨hp, fun t ht => ?_⟩
  obtain ⟨b, hb, rfl⟩ := hcov t (mem_sortBy.mpr ht)
  exact hb

/-- The merged axis increases strictly. -/
theorem mergeBreakpoints_sorted (vectors : List (List DateTime)) :
    (mergeBreakpoints vectors).Pairwise (· < ·) := (mergeBreakpoints_spec vectors).1

/-- The merged axis is the union of the vectors. -/
theorem mem_mergeBreakpoints {t : DateTime} :
    t ∈ mergeBreakpoints vectors ↔ ∃ v ∈ vectors, t ∈ v := by
  rw [← List.mem_flatten]
  constructor
  · intro ht
    exact mem_sortBy.mp ((List.destutter_sublist _ _).subset ht)
  · exact (mergeBreakpoints_spec vectors).2 t

/-- The last instant of the axis that is not after an instant has reached the same breakpoints. -/
theorem reached_iff_of_last {x u : DateTime} (hu : u ≤ x)
    (hlast : ∀ t ∈ mergeBreakpoints vectors, t ≤ x → t ≤ u) :
    ∀ v ∈ vectors, ∀ t ∈ v, t ≤ x ↔ t ≤ u := by
  intro v hv t ht
  exact ⟨hlast t (mem_mergeBreakpoints.mpr ⟨v, hv, ht⟩), fun h => h.trans hu⟩

/-- Where every vector's first breakpoint has been reached, a row is resolved on each of them. -/
theorem mapM_indexAt {H : Type} (groups : List (StaticGroup H)) {x : DateTime}
    (vs : List (List DateTime)) (n : ℕ) (h : ∀ v ∈ vs, ∃ k, indexAt v x = some k) :
    ((vs.zipIdx n).mapM fun y => match indexAt y.1 x with
      | some row => Except.ok row
      | none => .error (beforeFirstBreakpoint groups y.2 y.1 x)) =
      .ok (vs.map fun v => (indexAt v x).getD 0) := by
  induction vs generalizing n with
  | nil => rfl
  | cons v vs ih =>
    obtain ⟨k, hk⟩ := h v List.mem_cons_self
    rw [List.zipIdx_cons, List.mapM_cons, hk, ih (n + 1) fun w hw => h w (List.mem_cons_of_mem _ hw),
      List.map_cons, hk]
    rfl

theorem vectorIndices_eq {H : Type} (groups : List (StaticGroup H)) {x : DateTime}
    (hx : ∀ v ∈ vectors, ∃ t, v.head? = some t ∧ t ≤ x) :
    StaticReader.vectorIndices groups vectors x =
      .ok (vectors.map fun v => (indexAt v x).getD 0) :=
  mapM_indexAt groups vectors 0 fun v hv => indexAt_isSome (hx v hv)

/-- **Constant rows.**  The rows resolved at an instant are those resolved at the last instant of the
axis not after it. -/
theorem vectorIndices_of_last {H : Type} (groups : List (StaticGroup H)) {x u : DateTime}
    (hx : ∀ v ∈ vectors, ∃ t, v.head? = some t ∧ t ≤ x) (hu : u ≤ x)
    (hlast : ∀ t ∈ mergeBreakpoints vectors, t ≤ x → t ≤ u) :
    ∃ rows, StaticReader.vectorIndices groups vectors x = .ok rows ∧
      StaticReader.vectorIndices groups vectors u = .ok rows := by
  have hsame := reached_iff_of_last hu hlast
  have hxu : ∀ v ∈ vectors, ∃ t, v.head? = some t ∧ t ≤ u := by
    intro v hv
    obtain ⟨t, ht, htx⟩ := hx v hv
    exact ⟨t, ht, (hsame v hv t (List.mem_of_mem_head? ht)).mp htx⟩
  refine ⟨_, vectorIndices_eq groups hx, ?_⟩
  rw [vectorIndices_eq groups hxu]
  exact congrArg Except.ok (List.map_congr_left fun v hv => by rw [indexAt_congr (hsame v hv)])

/-- The last instant of the axis that is not after an instant every vector has reached. -/
theorem exists_last {x : DateTime} (hne : mergeBreakpoints vectors ≠ [])
    (hx : ∀ v ∈ vectors, ∃ t, v.head? = some t ∧ t ≤ x) :
    ∃ u ∈ mergeBreakpoints vectors, u ≤ x ∧ ∀ t ∈ mergeBreakpoints vectors, t ≤ x → t ≤ u := by
  have hs := mergeBreakpoints_sorted vectors
  obtain ⟨b, hb⟩ := List.exists_mem_of_ne_nil _ hne
  obtain ⟨v, hv, -⟩ := mem_mergeBreakpoints.mp hb
  obtain ⟨t, ht, htx⟩ := hx v hv
  have hmem : t ∈ mergeBreakpoints vectors :=
    mem_mergeBreakpoints.mpr ⟨v, hv, List.mem_of_mem_head? ht⟩
  have hfirst : ∃ f, (mergeBreakpoints vectors).head? = some f ∧ f ≤ x := by
    cases hm : mergeBreakpoints vectors with
    | nil => exact absurd hm hne
    | cons f rest =>
      rw [hm] at hs hmem
      refine ⟨f, rfl, ?_⟩
      cases hmem with
      | head => exact htx
      | tail _ hin => exact ((List.pairwise_cons.mp hs).1 t hin).le.trans htx
  obtain ⟨k, hk⟩ := indexAt_isSome hfirst
  have hforce := (indexAt_iff hs).mp hk
  obtain ⟨u, hu, hux⟩ := hforce.reached
  refine ⟨u, List.mem_of_getElem? hu, hux, fun t ht htx => ?_⟩
  obtain ⟨i, hi⟩ := List.mem_iff_getElem?.mp ht
  have hik : i < k + 1 := by
    rw [← indexAt_eq_some.mp hk, lt_partitionPoint_iff (reached_cut hs x) hi]
    exact decide_eq_true htx
  rcases Nat.lt_or_ge i k with hlt | hge
  · obtain ⟨hil, hit⟩ := List.getElem?_eq_some_iff.mp hi
    obtain ⟨hkl, hku⟩ := List.getElem?_eq_some_iff.mp hu
    rw [← hit, ← hku]
    exact (List.pairwise_iff_getElem.mp hs i k hil hkl hlt).le
  · have : i = k := by omega
    subst this
    rw [hi] at hu
    cases hu
    exact le_rfl

/-- How a persistent reader reads. -/
theorem readAt_persistent {H : Type} {r : StaticReader H} {union : List DateTime}
    (ht : r.timeline = .persistent vectors union) (x : DateTime) (read : RowReader H) :
    (StaticReader.readAt x read).exec r = match StaticReader.vectorIndices r.groups vectors x with
      | .ok rows => (StaticReader.onGroups (StaticGroup.fillPerVector rows read)).exec r
      | .error e => (.error e, r) := by
  unfold StaticReader.readAt
  rw [Cmd.exec_bind, Cmd.exec_get]
  simp only [ht]
  rw [Cmd.exec_bind, Cmd.exec_ofExcept]
  cases StaticReader.vectorIndices r.groups vectors x with
  | error e => rfl
  | ok rows => rfl

end

/-! ### Step functions through the store -/

/-- **Step functions.**  A range read of a stored step function preserves it: where the range starts at
or after the first breakpoint, what is read has the same row in force throughout the range, begins
with the breakpoint in force at its start and goes on with those strictly inside; a range that starts
earlier is refused, and one of no width selects nothing.  The axis of a reader over step functions is
the union of their breakpoints, in order; and a read at an instant every column has reached is the
read at the last instant of the axis not after it, row for row. -/
theorem step_functions_preserved {H B : Type} [DecidableEq H] [Sha256 H] [FloatText] [ToString H]
    [Glob] [ArrayBackend H B] [LawfulArrayBackend H B] [LawfulReads H B] :
    (∀ (s : ArrayStore H B) (m : TimeSeriesMetadata H) (ps : PersistentTimeSeries),
      s.Stores m (.persistent ps) → ∀ r : TimeRange, r.SpelledFor m.timeReference →
        (r.start < r.stop → (∃ t, ps.timestamps.head? = some t ∧ t ≤ r.start) →
          ∃ ps', materializeTimeSeries s m (some r) = .ok (.persistent ps') ∧
            (∀ x, r.start ≤ x → x < r.stop →
              ∃ row, ps.inForce x = some row ∧ ps'.inForce x = some row) ∧
            (∃ k t, InForce ps.timestamps r.start k ∧ ps.timestamps[k]? = some t ∧
              ps'.timestamps.head? = some t) ∧
            ∀ t, t ∈ ps'.timestamps.tail ↔ t ∈ ps.timestamps ∧ r.start < t ∧ t < r.stop) ∧
        (r.start < r.stop → (∀ t, ps.timestamps.head? = some t → r.start < t) →
          ∃ e, materializeTimeSeries s m (some r) = .error e) ∧
        (r.stop = r.start →
          ∃ ps', materializeTimeSeries s m (some r) = .ok (.persistent ps') ∧
            ps'.timestamps = [] ∧ ps'.length = 0)) ∧
      ∀ (db : Catalog H) (read : H → Result (List DateTime)) (filter : ListFilter)
        (window : ReadWindow) (r : StaticReader H) (vectors : List (List DateTime))
        (union : List DateTime),
        Store.staticReaderOver db read filter window = .ok r →
        r.timeline = .persistent vectors union →
          union.Pairwise (· < ·) ∧ (∀ t, t ∈ union ↔ ∃ v ∈ vectors, t ∈ v) ∧
          ∀ x, (∀ v ∈ vectors, ∃ t, v.head? = some t ∧ t ≤ x) →
            ∃ u ∈ union, u ≤ x ∧ (∀ t ∈ union, t ≤ x → t ≤ u) ∧
              (∃ rows, StaticReader.vectorIndices r.groups vectors x = .ok rows ∧
                StaticReader.vectorIndices r.groups vectors u = .ok rows) ∧
              ∀ rows : RowReader H,
                (StaticReader.readAt x rows).exec r = (StaticReader.readAt u rows).exec r := by
  constructor
  · intro s m ps h r hr
    refine ⟨h.materialize_range_preserves hr, h.persistent_refused hr, fun heq => ?_⟩
    obtain ⟨i, hread⟩ := h.persistent_empty hr heq
    exact ⟨_, hread, rfl, rfl⟩
  · intro db read filter window r vectors union hbuilt ht
    obtain ⟨rfl, hne⟩ := staticReaderOver_persistent hbuilt ht
    refine ⟨mergeBreakpoints_sorted vectors, fun t => mem_mergeBreakpoints, fun x hx => ?_⟩
    obtain ⟨u, hu, hux, hlast⟩ := exists_last hne hx
    obtain ⟨rows, h1, h2⟩ := vectorIndices_of_last r.groups hx hux hlast
    refine ⟨u, hu, hux, hlast, ⟨rows, h1, h2⟩, fun reader => ?_⟩
    rw [readAt_persistent ht, readAt_persistent ht, h1, h2]

/-! ### Two price curves -/

namespace Store.Sample

def oneOClock : DateTime := ⟨3600, 0, by decide⟩

def twoOClock : DateTime := ⟨7200, 0, by decide⟩

def threeOClock : DateTime := ⟨10800, 0, by decide⟩

/-- A price that changes at the instants given. -/
def prices (timestamps : List DateTime) (values : List UInt8) : PersistentTimeSeries :=
  { data := ⟨.u8, [values.length], values⟩, name := "price", elementType := .scalar .u8
    units := none, quantityKind := none, unitSystem := none, timeReference := none
    componentField := none, applicationData := none, timestamps, length := values.length }

def priced (ownerId : ℤ) (ps : PersistentTimeSeries) : AddRequest :=
  { ownerId, ownerType := "Bus", ownerCategory := .component, data := .persistent ps
    features := .empty }

def gas : PersistentTimeSeries := prices [.epoch, oneOClock, threeOClock] [1, 2, 3]

def coal : PersistentTimeSeries := prices [oneOClock, twoOClock] [5, 6]

/-- A store of both curves. -/
def curves : Store Digest (MemoryBackend Digest) :=
  after [⟨.addRequests [priced 1 gas, priced 2 coal], []⟩]

/-- What a reader over both curves is built to. -/
def curvesReader : Result (StaticReader Digest) :=
  staticReaderOver curves.db (ArrayBackend.getTimestamps curves.arrays.backend)
    { timeSeriesType := some .persistentTimeSeries } .full

theorem curvesReader_timeline : (curvesReader.map fun r => r.timeline) =
    .ok (.persistent [[.epoch, oneOClock, threeOClock], [oneOClock, twoOClock]]
      [.epoch, oneOClock, twoOClock, threeOClock]) := by decide +kernel

/-- From two to three the gas price is the one of one o'clock; and between two and three both prices
are what they were at two. -/
theorem step_functions_preserved_curves :
    (∃ m ps', (holding (priced 1 gas)).Stores m (.persistent gas) ∧
      materializeTimeSeries (holding (priced 1 gas)) m (some ⟨twoOClock, threeOClock, false⟩) =
        .ok (.persistent ps') ∧ ∃ row, gas.inForce twoOClock = some row ∧
          ps'.inForce twoOClock = some row) ∧
      ∃ r, curvesReader = .ok r ∧ ∃ u, u ≤ twoOClock ∧ ∀ rows,
        (StaticReader.readAt twoOClock rows).exec r = (StaticReader.readAt u rows).exec r := by
  have h := step_functions_preserved (H := Digest) (B := MemoryBackend Digest)
  constructor
  · obtain ⟨m, hm⟩ := holding_stores (priced 1 gas) (by decide +kernel) (by decide +kernel)
    have hr : TimeRange.SpelledFor ⟨twoOClock, threeOClock, false⟩ m.timeReference := by
      rw [hm.timeReference]
      decide
    obtain ⟨ps', hread, hforce, -⟩ := (h.1 _ m gas hm _ hr).1 (by decide) ⟨.epoch, rfl, by decide⟩
    exact ⟨m, ps', hm, hread, hforce twoOClock le_rfl (by decide)⟩
  · have ht := curvesReader_timeline
    cases hr : curvesReader with
    | error e =>
      rw [hr] at ht
      cases ht
    | ok r =>
      rw [hr] at ht
      obtain ⟨u, -, hu, -, -, hread⟩ := (h.2 _ _ _ _ r _ _ hr (Except.ok.inj ht)).2.2 twoOClock (by
        intro v hv
        simp only [List.mem_cons, List.not_mem_nil, or_false] at hv
        rcases hv with rfl | rfl
        · exact ⟨.epoch, rfl, by decide⟩
        · exact ⟨oneOClock, rfl, by decide⟩)
      exact ⟨r, rfl, u, hu, hread⟩

end Store.Sample

end InfraStore
