import InfraStore.Hdf5Blocks

/-!
# The laws of the HDF5 backend

The HDF5 backend is a finite map from hashes to arrays, and another to time axes, whichever of its steps
fail: it is as lawful as the backend in memory, and every store over it has what is proved of a store over
any lawful backend.

* `putArray_spec`, `removeArray_spec`, `putTimestamps_spec`, `removeTimestamps_spec`: the trait's commands;
* `LawfulArrayBackend`, `LawfulReads`, `LawfulBulkReads` of `Hdf5File`.
-/

namespace InfraStore

open Lib

namespace Hdf5File

variable {D : Type} [H5Library D] [LawfulH5Library D]

/-! ### Arrays -/

/-- **Put.** -/
theorem putArray_spec {s : Hdf5File D} (hs : s.Valid) {a : TypedArray} (hash : Hash32)
    (group : PackGroup Hash32) (layout : ArrayLayout) (ha : a.Storable) :
    (putArray hash a group layout).wp (fun r s' => match r with
      | .ok true => s.array hash = none ∧ Becomes s s' (Function.update s.array hash (some a))
      | .ok false => (s.array hash).isSome ∧ Steady s s'
      | .error _ => Steady s s') s := by
  unfold putArray
  rw [Cmd.wp_bind]
  refine Cmd.wp_mono (ensureWritable_spec s) fun r t h₁ => ?_
  obtain ⟨rfl, -⟩ := h₁
  cases r with
  | error e => exact .refl hs
  | ok u =>
    simp only [Cmd.wp_bind, Cmd.wp_get]
    cases hloc : FMap.get t.byHash hash with
    | some l =>
      refine ⟨?_, .refl hs⟩
      rw [hs.array_isSome, hloc]
      rfl
    | none =>
      have hnone := (hs.array_eq_none hash).mpr hloc
      simp only [Option.isSome_none, Bool.false_eq_true, if_false]
      cases layout with
      | packed =>
        simp only [Cmd.wp_bind]
        refine Cmd.wp_mono (putPacked_spec hs hloc ha group) fun r s' h₂ => ?_
        cases r with
        | error e => exact h₂
        | ok u => exact ⟨hnone, h₂⟩
      | standalone =>
        simp only [Cmd.wp_bind]
        refine Cmd.wp_mono (putStandalone_spec hs hloc ha none) fun r s' h₂ => ?_
        cases r with
        | error e => exact h₂
        | ok u => exact ⟨hnone, h₂⟩
      | standaloneWindowed axis =>
        simp only [Cmd.wp_bind]
        refine Cmd.wp_mono (putStandalone_spec hs hloc ha (some axis)) fun r s' h₂ => ?_
        cases r with
        | error e => exact h₂
        | ok u => exact ⟨hnone, h₂⟩

/-- **Remove.** -/
theorem removeArray_spec {s : Hdf5File D} (hs : s.Valid) (hash : Hash32) :
    (removeArray hash).wp (fun r s' => (s.Quiet → s'.Quiet ∧ r = .ok ()) ∧ match r with
      | .error _ => Steady s s'
      | .ok _ => Becomes s s' (Function.update s.array hash none)) s := by
  unfold removeArray
  rw [Cmd.wp_bind]
  refine Cmd.wp_mono (ensureWritable_spec s) fun r t h₁ => ?_
  obtain ⟨rfl, hok⟩ := h₁
  cases r with
  | error e => exact ⟨fun hq => (by cases hok hq), .refl hs⟩
  | ok u => exact removeArrayLocked_spec hs hash

/-! ### Time axes -/

/-- Only time axes were touched, and those the index names are in the file. -/
structure Retimed (s s' : Hdf5File D) : Prop where
  index : s' = { s with timestamps := s'.timestamps
                        timestampHashes := s'.timestampHashes
                        faults := s'.faults }
  later : s'.faults.removals <:+ s.faults.removals
  axes {h : Hash32} : h ∈ s'.timestampHashes →
    (FMap.get s'.timestamps (timestampsDatasetName h)).isSome

section

variable {s s' : Hdf5File D} (h : Retimed s s')
include h

omit [LawfulH5Library D] in
theorem Retimed.valid (hs : s.Valid) : s'.Valid := by
  have hidx := h.index
  have haxes := @h.axes
  rw [hidx] at haxes ⊢
  exact ⟨hs.packed, hs.column, hs.dataset, hs.standalone, hs.vars, hs.companions, hs.alone, hs.pools,
    haxes⟩

omit [H5Library D] [LawfulH5Library D] in
theorem Retimed.quiet (hq : s.Quiet) : s'.Quiet := by
  constructor
  · rw [h.index]
    exact hq.1
  · exact fun b hb => hq.2 b (h.later.subset hb)

theorem Retimed.array : s'.array = s.array := by
  rw [h.index]
  rfl

end

omit [H5Library D] [LawfulH5Library D] in
/-- A step of the library on the group of time axes. -/
theorem step_timestamps (kind : H5Step) (s : Hdf5File D) :
    (step kind).wp (fun r s' => s' = { s with faults := s'.faults } ∧
      s'.faults.removals <:+ s.faults.removals ∧ (kind = .remove → s.Quiet → r = .ok ())) s := by
  refine Cmd.wp_mono (step_spec kind s) fun r t h => ?_
  obtain ⟨hshift, hsingle, hquiet⟩ := h
  refine ⟨?_, hshift.later, hquiet⟩
  have hidx := hshift.index
  rw [hsingle] at hidx
  exact hidx

omit [H5Library D] [LawfulH5Library D] in
theorem unlinkTimestamps_spec (name : String) (s : Hdf5File D) :
    (putTimestamps.unlinkTimestamps name).wp (fun r s' =>
      s' = { s with timestamps := s'.timestamps, faults := s'.faults } ∧
      s'.faults.removals <:+ s.faults.removals ∧
      (s.Quiet → (FMap.get s.timestamps name).isSome → r = .ok ()) ∧
      match r with
      | .ok _ => s'.timestamps = s.timestamps.erase name
      | .error _ => s'.timestamps = s.timestamps) s := by
  unfold putTimestamps.unlinkTimestamps
  rw [Cmd.wp_bind]
  refine Cmd.wp_mono (step_timestamps .remove s) fun r t h₁ => ?_
  obtain ⟨hidx, hlater, hquiet⟩ := h₁
  have htimes : t.timestamps = s.timestamps := by rw [hidx]
  have hidx' : t = { s with timestamps := t.timestamps, faults := t.faults } := by
    rw [htimes]
    exact hidx
  cases r with
  | error e => exact ⟨hidx', hlater, fun hq => (by cases hquiet rfl hq), htimes⟩
  | ok u =>
    simp only [Cmd.wp_bind, Cmd.wp_get]
    split
    · rename_i hnone
      rw [htimes, Option.isNone_iff_eq_none] at hnone
      refine ⟨hidx', hlater, fun _ hsome => ?_, htimes⟩
      rw [hnone] at hsome
      cases hsome
    · refine ⟨?_, hlater, fun _ _ => rfl, ?_⟩
      · show { t with timestamps := _ } = _
        rw [hidx]
        rfl
      · show t.timestamps.erase name = _
        rw [htimes]

omit [LawfulH5Library D] in
/-- **Put an axis.** -/
theorem putTimestamps_spec {s : Hdf5File D} (hs : s.Valid) (hash : Hash32) (instants : List DateTime) :
    (putTimestamps hash instants).wp (fun r s' => Retimed s s' ∧ match r with
      | .ok true => s.vector hash = none ∧
        s'.vector = Function.update s.vector hash (some (toMillis instants))
      | .ok false => (s.vector hash).isSome ∧ s'.vector = s.vector
      | .error _ => s'.vector = s.vector) s := by
  have hrefl : Retimed s s := ⟨rfl, List.suffix_refl _, hs.axes⟩
  unfold putTimestamps
  rw [Cmd.wp_bind]
  refine Cmd.wp_mono (ensureWritable_spec s) fun r t h₁ => ?_
  obtain ⟨rfl, -⟩ := h₁
  cases r with
  | error e => exact ⟨hrefl, rfl⟩
  | ok u =>
    simp only [Cmd.wp_bind, Cmd.wp_get]
    by_cases hmem : hash ∈ t.timestampHashes
    · rw [if_pos (List.contains_iff_mem.mpr hmem)]
      refine ⟨hrefl, ?_, rfl⟩
      unfold vector
      rw [if_pos hmem]
      exact hs.axes hmem
    · rw [if_neg fun hc => hmem (List.contains_iff_mem.mp hc)]
      have hnone : t.vector hash = none := by
        unfold vector
        rw [if_neg hmem]
      -- the members of other axes are not touched
      have hother : ∀ {x}, x ∈ t.timestampHashes →
          timestampsDatasetName x ≠ timestampsDatasetName hash := by
        intro x hx heq
        rw [timestampsDatasetName_injective heq] at hx
        exact hmem hx
      have hkeep : ∀ {u : Hdf5File D}, u = { t with timestamps := u.timestamps, faults := u.faults } →
          u.faults.removals <:+ t.faults.removals →
          (∀ n, n ≠ timestampsDatasetName hash → FMap.get u.timestamps n = FMap.get t.timestamps n) →
          Retimed t u ∧ u.vector = t.vector := by
        intro u hidx hlater htimes
        have hhashes : u.timestampHashes = t.timestampHashes := by rw [hidx]
        refine ⟨⟨?_, hlater, fun {x} hx => ?_⟩, ?_⟩
        · rw [hhashes]
          exact hidx
        · rw [hhashes] at hx
          rw [htimes _ (hother hx)]
          exact hs.axes hx
        · funext x
          unfold vector
          rw [hhashes]
          split
          · rename_i hx
            exact htimes _ (hother hx)
          · rfl
      simp only [Cmd.wp_bind]
      refine Cmd.wp_mono (step_timestamps .create t) fun r₂ t₂ h₂ => ?_
      obtain ⟨hidx₂, hlater₂, -⟩ := h₂
      have htimes₂ : t₂.timestamps = t.timestamps := by rw [hidx₂]
      have hkeep₂ := hkeep (u := t₂) (by rw [htimes₂]; exact hidx₂) hlater₂
        fun n _ => by rw [htimes₂]
      cases r₂ with
      | error e => exact hkeep₂
      | ok u =>
        simp only [Cmd.wp_get]
        split
        · exact hkeep₂
        · simp only [Cmd.wp_bind, Cmd.wp_modify]
          -- with the member written the index names the axis
          have hdone : ∀ {u : Hdf5File D},
              u = { t with timestamps := u.timestamps, faults := u.faults } →
              u.faults.removals <:+ t.faults.removals →
              (∀ n, FMap.get u.timestamps n = if n = timestampsDatasetName hash
                then some (toMillis instants) else FMap.get t.timestamps n) →
              Retimed t { u with timestampHashes := u.timestampHashes ++ [hash] } ∧
                ({ u with timestampHashes := u.timestampHashes ++ [hash] } : Hdf5File D).vector =
                  Function.update t.vector hash (some (toMillis instants)) := by
            intro u hidx hlater htimes
            have hhashes : u.timestampHashes = t.timestampHashes := by rw [hidx]
            refine ⟨⟨?_, hlater, fun {x} hx => ?_⟩, ?_⟩
            · rw [hidx]
            · change x ∈ u.timestampHashes ++ [hash] at hx
              show (FMap.get u.timestamps _).isSome
              rw [hhashes, List.mem_append, List.mem_singleton] at hx
              rw [htimes]
              split
              · rfl
              · rename_i hne
                rcases hx with hx | hx
                · exact hs.axes hx
                · exact (hne (by rw [hx])).elim
            · funext x
              unfold vector
              simp only
              rw [hhashes, Function.update_apply]
              by_cases hx : x = hash
              · rw [if_pos (List.mem_append_right _ (List.mem_singleton.mpr hx)), if_pos hx, htimes,
                  hx, if_pos rfl]
              · rw [if_neg hx]
                by_cases hin : x ∈ t.timestampHashes
                · rw [if_pos (List.mem_append_left _ hin), if_pos hin, htimes, if_neg (hother hin)]
                · rw [if_neg hin, if_neg]
                  intro hmem'
                  rcases List.mem_append.mp hmem' with h | h
                  · exact hin h
                  · exact hx (List.mem_singleton.mp h)
          by_cases hmillis : toMillis instants ≠ []
          · rw [if_pos hmillis]
            simp only [Cmd.wp_bind, Cmd.wp_attempt]
            refine Cmd.wp_mono (step_timestamps .write _) fun r₃ t₃ h₃ => ?_
            obtain ⟨hidx₃, hlater₃, -⟩ := h₃
            have hidx₃' : t₃ = { t with timestamps := t₃.timestamps, faults := t₃.faults } := by
              rw [hidx₃, hidx₂]
            have hlater₃' : t₃.faults.removals <:+ t.faults.removals := hlater₃.trans hlater₂
            have htimes₃ : ∀ n, n ≠ timestampsDatasetName hash →
                FMap.get t₃.timestamps n = FMap.get t.timestamps n := by
              intro n hn
              rw [hidx₃]
              show FMap.get (t₂.timestamps.insert _ _) n = _
              rw [FMap.get_insert, Function.update_of_ne hn, htimes₂]
            cases r₃ with
            | error e =>
              simp only [Cmd.wp_bind, Cmd.wp_attempt]
              refine Cmd.wp_mono (unlinkTimestamps_spec _ t₃) fun r₄ t₄ h₄ => ?_
              obtain ⟨hidx₄, hlater₄, -, h₄⟩ := h₄
              refine hkeep (u := t₄) ?_ (hlater₄.trans hlater₃') fun n hn => ?_
              · rw [hidx₄, hidx₃']
              · cases r₄ with
                | error e => rw [h₄, htimes₃ n hn]
                | ok u => rw [h₄, FMap.get_erase, Function.update_of_ne hn, htimes₃ n hn]
            | ok u =>
              have h := hdone (u := { t₃ with
                timestamps := t₃.timestamps.insert (timestampsDatasetName hash) (toMillis instants) })
                (by rw [hidx₃']) hlater₃' fun n => ?_
              · exact ⟨h.1, hnone, h.2⟩
              · rw [FMap.get_insert, Function.update_apply]
                split
                · rfl
                · rename_i hn
                  exact htimes₃ n hn
          · rw [if_neg hmillis]
            rw [not_not] at hmillis
            have h := hdone (u := { t₂ with
              timestamps := t₂.timestamps.insert (timestampsDatasetName hash)
                (List.replicate (toMillis instants).length 0) })
              (by rw [hidx₂]) hlater₂ fun n => ?_
            · exact ⟨h.1, hnone, h.2⟩
            · rw [FMap.get_insert, Function.update_apply, hmillis, htimes₂]
              rfl

omit [LawfulH5Library D] in
/-- **Remove an axis.**  The index gives it up even where the file does not. -/
theorem removeTimestamps_spec {s : Hdf5File D} (hs : s.Valid) (hash : Hash32) :
    (removeTimestamps hash).wp (fun r s' => Retimed s s' ∧ (s.Quiet → r = .ok ()) ∧ match r with
      | .ok _ => s'.vector = Function.update s.vector hash none
      | .error _ => s'.vector = s.vector ∨ s'.vector = Function.update s.vector hash none) s := by
  have hrefl : Retimed s s := ⟨rfl, List.suffix_refl _, hs.axes⟩
  unfold removeTimestamps
  rw [Cmd.wp_bind]
  refine Cmd.wp_mono (ensureWritable_spec s) fun r t h₁ => ?_
  obtain ⟨rfl, hok⟩ := h₁
  cases r with
  | error e => exact ⟨hrefl, fun hq => (by cases hok hq), .inl rfl⟩
  | ok u =>
    simp only [Cmd.wp_bind, Cmd.wp_get]
    by_cases hmem : hash ∈ t.timestampHashes
    · rw [if_pos (List.contains_iff_mem.mpr hmem)]
      simp only [Cmd.wp_bind, Cmd.wp_modify]
      refine Cmd.wp_mono (unlinkTimestamps_spec _ _) fun r₂ t₂ h₂ => ?_
      obtain ⟨hidx, hlater, hquiet, h₂⟩ := h₂
      have hhashes : ∀ {x}, x ∈ t₂.timestampHashes ↔ x ∈ t.timestampHashes ∧ x ≠ hash := by
        intro x
        rw [hidx]
        show x ∈ t.timestampHashes.filter (· ≠ hash) ↔ _
        rw [List.mem_filter, decide_eq_true_iff]
      have htimes : ∀ {x}, x ≠ hash → FMap.get t₂.timestamps (timestampsDatasetName x) =
          FMap.get t.timestamps (timestampsDatasetName x) := by
        intro x hx
        have hname : timestampsDatasetName x ≠ timestampsDatasetName hash :=
          fun heq => hx (timestampsDatasetName_injective heq)
        cases r₂ with
        | error e => rw [h₂]
        | ok u => rw [h₂, FMap.get_erase, Function.update_of_ne hname]
      have hretimed : Retimed t t₂ := by
        refine ⟨?_, hlater, fun {x} hx => ?_⟩
        · rw [hidx]
        · obtain ⟨hin, hne⟩ := hhashes.mp hx
          rw [htimes hne]
          exact hs.axes hin
      have hvec : t₂.vector = Function.update t.vector hash none := by
        funext x
        rw [Function.update_apply]
        unfold vector
        by_cases hx : x = hash
        · rw [if_pos hx, if_neg fun hin => (hhashes.mp hin).2 hx]
        · rw [if_neg hx, htimes hx]
          by_cases hin : x ∈ t.timestampHashes
          · rw [if_pos (hhashes.mpr ⟨hin, hx⟩), if_pos hin]
          · rw [if_neg fun h => hin (hhashes.mp h).1, if_neg hin]
      refine ⟨hretimed, fun hq => hquiet ⟨hq.1, hq.2⟩ (hs.axes hmem), ?_⟩
      cases r₂ with
      | error e => exact .inr hvec
      | ok u => exact hvec
    · rw [if_neg fun hc => hmem (List.contains_iff_mem.mp hc)]
      refine ⟨hrefl, fun _ => rfl, ?_⟩
      show t.vector = _
      rw [eq_comm, Function.update_eq_self_iff]
      unfold vector
      rw [if_neg hmem]

omit [LawfulH5Library D] in
theorem flush_spec {s : Hdf5File D} (hs : s.Valid) :
    (flush (D := D)).wp (fun _ s' => Retimed s s' ∧ s'.vector = s.vector) s := by
  unfold flush
  simp only [Cmd.wp_bind, Cmd.wp_get]
  split
  · refine Cmd.wp_mono (step_timestamps .write s) fun r t h => ?_
    obtain ⟨hidx, hlater, -⟩ := h
    refine ⟨⟨?_, hlater, ?_⟩, ?_⟩
    · rw [hidx]
    · rw [hidx]
      exact hs.axes
    · rw [hidx]
      rfl
  · exact ⟨⟨rfl, List.suffix_refl _, hs.axes⟩, rfl⟩

/-! ### Reads -/

section

variable {H E : Type} [DecidableEq H] [ToString H] [H5Dataset E] [LawfulH5Dataset E]
  {f : Hdf5Backend H E} {h : H} {var : String} {d : E}

omit [DecidableEq H] [LawfulH5Dataset E] in
/-- A dtype an array on its own may be read as is written as it is. -/
theorem written_of_checkStandaloneDtype {t q : Dtype} (htype : H5Dataset.elementType d = some t.written)
    (hc : Hdf5Backend.checkStandaloneDtype d h q = .ok ()) : q.written = t.written := by
  unfold Hdf5Backend.checkStandaloneDtype at hc
  rw [htype] at hc
  simp only at hc
  split at hc
  · rename_i hb
    rw [hb.1, hb.2]
    rfl
  · have heq : t.written = q := checkDtype_ok hc
    rw [← heq]
    cases t <;> rfl

/-- A range of rows of an array on its own. -/
theorem readLocked_standalone (hloc : FMap.get f.byHash h = some (.standalone var))
    (hds : FMap.get f.single var = some d) {q : Dtype}
    (htype : H5Dataset.elementType d = some q.written) (hdims : H5Dataset.shape d ≠ [])
    (hsized : ∃ n, expectedBytes q (H5Dataset.shape d) = .ok n) (a b : ℕ) :
    f.readLocked h q (some (a, b)) = (do
      checkSlice a b ((H5Dataset.shape d).headD 0)
      pure ((⟨q, H5Dataset.shape d, LawfulH5Dataset.content d⟩ : TypedArray).slice 0 a (b - a))) := by
  unfold Hdf5Backend.readLocked Hdf5Backend.location
  rw [hloc]
  simp only [bind, Except.bind]
  rw [Hdf5Backend.dataset_eq hds]
  simp only
  rw [checkStandaloneDtype_written htype]
  simp only
  cases hc : checkSlice a b ((H5Dataset.shape d).headD 0) with
  | error e => rfl
  | ok u =>
    obtain ⟨hab, hb⟩ := checkSlice_ok.mp hc
    have hchecked : (⟨q, H5Dataset.shape d, LawfulH5Dataset.content d⟩ : TypedArray).Checked := by
      refine TypedArray.checked_iff.mpr ⟨hsized, ?_⟩
      show (LawfulH5Dataset.content d).length = (H5Dataset.shape d).prod * q.size
      rw [LawfulH5Dataset.content_length htype, Dtype.written_size]
    have hzero := TypedArray.shape_zero
      (a := ⟨q, H5Dataset.shape d, LawfulH5Dataset.content d⟩) hdims
    have hlen : a + (b - a) ≤ (H5Dataset.shape d).headD 0 := by omega
    have hslice := TypedArray.slice_checked hchecked hzero hlen
    have hranges : standaloneRanges (a, b) (H5Dataset.shape d).tail =
        Hdf5Backend.axisRanges (H5Dataset.shape d) 0 a (b - a) := by
      rw [axisRanges_split hzero, Nat.add_sub_of_le hab]
      unfold standaloneRanges
      rw [List.take_zero, List.drop_one]
      rfl
    have hbox := hyperslab_slice (a := ⟨q, H5Dataset.shape d, LawfulH5Dataset.content d⟩) hzero a (b - a)
    simp only
    rw [hranges, LawfulH5Dataset.readSlice_eq htype (inBounds_axisRanges hzero hlen), hbox]
    have hshape : (b - a) :: (H5Dataset.shape d).tail = (H5Dataset.shape d).set 0 (b - a) := by
      cases hs : H5Dataset.shape d with
      | nil => exact (hdims hs).elim
      | cons n rest => rfl
    rw [hshape]
    exact congrArg (mapErr TimeSeriesError.integrityError) (TypedArray.new_eq hslice)

end

omit [LawfulH5Library D] in
theorem expectedBytes_of_size {t q : Dtype} (hsize : q.size = t.size) {shape : List ℕ}
    (h : ∃ n, expectedBytes t shape = .ok n) : ∃ n, expectedBytes q shape = .ok n := by
  obtain ⟨n, hn⟩ := h
  unfold expectedBytes at hn ⊢
  obtain ⟨count, hcount, hn⟩ := except_bind_eq_ok.mp hn
  cases hc : checkedMul count t.size with
  | none =>
    rw [hc] at hn
    cases hn
  | some b =>
    refine ⟨b, except_bind_eq_ok.mpr ⟨count, hcount, ?_⟩⟩
    rw [hsize, hc]

section

variable {s : Hdf5File D} (hs : s.Valid) {h : Hash32} {a : TypedArray}
include hs

/-- A range of rows is read of an array that is held, of elements as wide as it was asked for. -/
theorem Valid.getSlice_held {q : Dtype} {x y : ℕ} {r : TypedArray}
    (hr : s.toHdf5Backend.getSlice h q x y = .ok r) :
    ∃ a, s.array h = some a ∧ a.dtype.size = q.size ∧ x ≤ y ∧ y ≤ a.length ∧
      r.bytes = (a.slice 0 x (y - x)).bytes := by
  unfold Hdf5Backend.getSlice at hr
  cases hloc : FMap.get s.byHash h with
  | none =>
    unfold Hdf5Backend.readLocked Hdf5Backend.location at hr
    rw [hloc] at hr
    cases hr
  | some l =>
    cases l with
    | packed name col =>
      obtain ⟨st, hst, hcol⟩ := hs.packed hloc
      obtain ⟨d, -, hd, hdesc, -⟩ := hs.dataset hst
      obtain ⟨hlt, -⟩ := List.getElem?_eq_some_iff.mp hcol
      have hq : st.dtype = q := by
        unfold Hdf5Backend.readLocked Hdf5Backend.location at hr
        rw [hloc] at hr
        simp only [bind, Except.bind] at hr
        rw [Hdf5Backend.datasetState_eq hst] at hr
        simp only at hr
        cases hc : checkDtype h st.dtype q with
        | error e =>
          rw [hc] at hr
          cases hr
        | ok u => exact checkDtype_ok hc
      rw [← hq, Hdf5Backend.readLocked_packed hloc hst hd hdesc hlt] at hr
      obtain ⟨u, hc, hr⟩ := except_bind_eq_ok.mp hr
      obtain ⟨hxy, hy⟩ := checkSlice_ok.mp hc
      cases hr
      exact ⟨_, array_packed hloc hst hd, by rw [← hq]; rfl, hxy, hy, rfl⟩
    | standalone var =>
      obtain ⟨-, -, d, t, hd, ht, htype, hdims, hsized⟩ := hs.standalone hloc
      have hq : q.written = t.written := by
        unfold Hdf5Backend.readLocked Hdf5Backend.location at hr
        rw [hloc] at hr
        simp only [bind, Except.bind] at hr
        rw [Hdf5Backend.dataset_eq hd] at hr
        simp only at hr
        cases hc : Hdf5Backend.checkStandaloneDtype d h q with
        | error e =>
          rw [hc] at hr
          cases hr
        | ok u => exact written_of_checkStandaloneDtype htype hc
      have hsize : q.size = t.size := by rw [← Dtype.written_size q, hq, Dtype.written_size]
      rw [readLocked_standalone hloc hd (hq ▸ htype) hdims (expectedBytes_of_size hsize hsized)] at hr
      obtain ⟨u, hc, hr⟩ := except_bind_eq_ok.mp hr
      obtain ⟨hxy, hy⟩ := checkSlice_ok.mp hc
      cases hr
      refine ⟨_, array_standalone hloc hd ht, hsize.symm, hxy, hy, ?_⟩
      have hzero := TypedArray.shape_zero
        (a := ⟨t, H5Dataset.shape d, LawfulH5Dataset.content d⟩) hdims
      have hzero' := TypedArray.shape_zero
        (a := ⟨q, H5Dataset.shape d, LawfulH5Dataset.content d⟩) hdims
      rw [TypedArray.slice_bytes hzero, TypedArray.slice_bytes hzero']
      simp only
      rw [hsize]
      rfl

variable (ha : s.array h = some a)
include ha

theorem Valid.shape_ne_nil : a.shape ≠ [] := by
  cases hloc : FMap.get s.byHash h with
  | none =>
    rw [(hs.array_eq_none h).mpr hloc] at ha
    cases ha
  | some l =>
    cases l with
    | packed name col =>
      obtain ⟨st, hst, hcol⟩ := hs.packed hloc
      obtain ⟨d, -, hd, -⟩ := hs.dataset hst
      rw [array_packed hloc hst hd] at ha
      cases ha
      exact List.cons_ne_nil _ _
    | standalone var =>
      obtain ⟨-, -, d, t, hd, ht, -, hdims, -⟩ := hs.standalone hloc
      rw [array_standalone hloc hd ht] at ha
      cases ha
      exact hdims

/-- A range of rows of an array that is held. -/
theorem Valid.getSlice_eq (x y : ℕ) : s.toHdf5Backend.getSlice h a.dtype x y = (do
    checkSlice x y a.length
    pure (a.slice 0 x (y - x))) := by
  cases hloc : FMap.get s.byHash h with
  | none =>
    rw [(hs.array_eq_none h).mpr hloc] at ha
    cases ha
  | some l =>
    cases l with
    | packed name col =>
      obtain ⟨st, hst, hcol⟩ := hs.packed hloc
      obtain ⟨d, -, hd, hdesc, -⟩ := hs.dataset hst
      obtain ⟨hlt, -⟩ := List.getElem?_eq_some_iff.mp hcol
      rw [array_packed hloc hst hd] at ha
      cases ha
      exact Hdf5Backend.readLocked_packed hloc hst hd hdesc hlt (some (x, y))
    | standalone var =>
      obtain ⟨-, -, d, t, hd, ht, htype, hdims, hsized⟩ := hs.standalone hloc
      rw [array_standalone hloc hd ht] at ha
      cases ha
      exact readLocked_standalone hloc hd htype hdims hsized x y

theorem Valid.arrayShape_eq : s.toHdf5Backend.arrayShapeLocked h = .ok a.shape := by
  unfold Hdf5Backend.arrayShapeLocked Hdf5Backend.location
  cases hloc : FMap.get s.byHash h with
  | none =>
    rw [(hs.array_eq_none h).mpr hloc] at ha
    cases ha
  | some l =>
    cases l with
    | packed name col =>
      obtain ⟨st, hst, hcol⟩ := hs.packed hloc
      obtain ⟨d, -, hd, -⟩ := hs.dataset hst
      rw [array_packed hloc hst hd] at ha
      cases ha
      simp only [bind, Except.bind]
      rw [Hdf5Backend.datasetState_eq hst]
      rfl
    | standalone var =>
      obtain ⟨-, -, d, t, hd, ht, -⟩ := hs.standalone hloc
      rw [array_standalone hloc hd ht] at ha
      cases ha
      simp only [bind, Except.bind]
      rw [Hdf5Backend.dataset_eq hd]
      rfl

end

/-! ### The trait -/

/-- The answer of a bulk read.  It never panics (`readRowsLocked_eq`, `readArraysLocked_eq`). -/
def answer {α : Type} : Except Halt α → Result α
  | .ok a => .ok a
  | .error (.error e) => .error e
  | .error .panicked => .error (.integrityError "the thread panicked")

theorem toOption_answer {α : Type} (r : Except Halt α) : (answer r).toOption = r.toOption := by
  cases r with
  | ok a => rfl
  | error h =>
    cases h with
    | error e => rfl
    | panicked => rfl

omit [LawfulH5Library D] in
def hasPackGroup (s : Hdf5File D) (dtype : Dtype) (elementShape : List ℕ) (length : ℕ)
    (group : PackGroup Hash32) : Bool :=
  (FMap.get s.datasetGroups { dtype, elementShape, length, group }).isSome

instance : ArrayBackend Hash32 (Hdf5File D) where
  putArray := putArray
  hasPackGroup := hasPackGroup
  putPackedBlock := putPackedBlock
  getArray s := s.toHdf5Backend.getArray
  getSlice s := s.toHdf5Backend.getSlice
  arrayShape s := s.toHdf5Backend.arrayShapeLocked
  readArrays s columns := answer (s.toHdf5Backend.readArrays columns)
  readIndices s dtype columns := answer (s.toHdf5Backend.readIndicesInto columns dtype)
  readRanges s columns := answer (s.toHdf5Backend.readRangesInto columns)
  readWindowBlock s := s.toHdf5Backend.readWindowBlockLocked
  removeArray := removeArray
  contains s h := (FMap.get s.byHash h).isSome
  putTimestamps := putTimestamps
  getTimestamps := getTimestamps
  removeTimestamps := removeTimestamps
  timestampHashes s := s.timestampHashes
  flush := flush

variable [Sha256 Hash32]

instance : LawfulArrayBackend Hash32 (Hdf5File D) where
  Valid := Valid
  array := array
  vector := vector
  Quiet := Quiet
  contains_iff hs h := (hs.array_isSome h).symm
  putArray_spec h g l hs ha := by
    refine Cmd.wp_mono (putArray_spec hs h g l ha) fun r t hr => ?_
    cases r with
    | error e => exact ⟨hr.valid, hr.quiet, hr.vector, hr.array⟩
    | ok w =>
      cases w with
      | true => exact ⟨hr.2.valid, hr.2.quiet, hr.2.vector, hr.1, hr.2.array⟩
      | false => exact ⟨hr.2.valid, hr.2.quiet, hr.2.vector, hr.1, hr.2.array⟩
  putPackedBlock_spec g hs hstorable hshapes := putPackedBlock_spec hs g hstorable hshapes
  removeArray_spec h hs := by
    refine Cmd.wp_mono (removeArray_spec hs h) fun r t hr => ?_
    obtain ⟨hq, hr⟩ := hr
    cases r with
    | error e => exact ⟨hr.valid, hq, hr.vector, hr.array⟩
    | ok w => exact ⟨hr.valid, hq, hr.vector, hr.array⟩
  putTimestamps_spec h ts hs := by
    refine Cmd.wp_mono (putTimestamps_spec hs h ts) fun r t hr => ?_
    obtain ⟨ht, hr⟩ := hr
    exact ⟨ht.valid hs, ht.quiet, ht.array, hr⟩
  getTimestamps_eq := by
    intro s hs h
    show getTimestamps s h = _
    unfold getTimestamps vector
    by_cases hmem : h ∈ s.timestampHashes
    · rw [List.contains_iff_mem.mpr hmem, if_pos hmem]
      rfl
    · rw [if_neg hmem, if_pos]
      rw [Bool.not_eq_true', ← Bool.not_eq_true, List.contains_iff_mem]
      exact hmem
  removeTimestamps_spec h hs := by
    refine Cmd.wp_mono (removeTimestamps_spec hs h) fun r t hr => ?_
    obtain ⟨ht, hq, hr⟩ := hr
    exact ⟨ht.valid hs, fun hquiet => ⟨ht.quiet hquiet, hq hquiet⟩, ht.array, hr⟩
  mem_timestampHashes := by
    intro s hs h
    show h ∈ s.timestampHashes ↔ _
    unfold vector
    constructor
    · intro hmem
      rw [if_pos hmem]
      exact hs.axes hmem
    · intro hsome
      by_contra hmem
      rw [if_neg hmem] at hsome
      cases hsome
  flush_spec hs := by
    refine Cmd.wp_mono (flush_spec hs) fun r t hr => ?_
    exact ⟨hr.1.valid hs, hr.1.quiet, hr.1.array, hr.2⟩

instance : LawfulReads Hash32 (Hdf5File D) where
  getArray_eq hs ha := (Valid.holds hs ha).1.getArray_eq (Valid.holds hs ha).2
  getSlice_eq hs ha _ hxy hy := by
    refine (Valid.getSlice_eq hs ha _ _).trans ?_
    rw [(checkSlice_ok (u := ())).mpr ⟨hxy, hy⟩]
    rfl
  getSlice_ok := by
    intro s h a r x y hs ha hr
    have hr : s.toHdf5Backend.getSlice h a.dtype x y = .ok r := hr
    rw [Valid.getSlice_eq hs ha] at hr
    obtain ⟨u, hc, -⟩ := except_bind_eq_ok.mp hr
    exact checkSlice_ok.mp hc
  getSlice_held hs hr := Valid.getSlice_held hs hr
  arrayShape_eq hs ha := Valid.arrayShape_eq hs ha
  arrayShape_held := by
    intro s h shape hs hr
    have hr : s.toHdf5Backend.arrayShapeLocked h = .ok shape := hr
    show (s.array h).isSome
    rw [Valid.array_isSome hs]
    unfold Hdf5Backend.arrayShapeLocked Hdf5Backend.location at hr
    cases hloc : FMap.get s.byHash h with
    | none =>
      rw [hloc] at hr
      cases hr
    | some l => rfl
  readWindowBlock_eq hs ha hd hle := ((Valid.holds hs ha).1.readsBlocks _ _ _).1 _ hd hle
  readWindowBlock_ok hs ha hr := ((Valid.holds hs ha).1.readsBlocks _ _ _).2 _ hr

instance : LawfulBulkReads Hash32 (Hdf5File D) where
  readIndices_eq := by
    intro s d columns hs
    have h := (Hdf5Backend.readRowsLocked_eq (Valid.indexed hs) chunkCacheNbytes
      (columns.map fun c => (c.1, d, c.2, c.2 + 1))).2
    unfold MemoryBackend.concatReads at h
    rw [List.mapM_map] at h
    exact (toOption_answer _).trans h
  readRanges_eq := by
    intro s columns hs
    exact (toOption_answer _).trans
      (Hdf5Backend.readRowsLocked_eq (Valid.indexed hs) chunkCacheNbytes columns).2
  readArrays_eq := by
    intro s columns hs
    exact (toOption_answer _).trans (Hdf5Backend.readArraysLocked_eq (Valid.indexed hs) columns).2

end Hdf5File

end InfraStore
