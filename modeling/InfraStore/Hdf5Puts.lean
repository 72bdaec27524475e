import InfraStore.Hdf5Store
import Mathlib.Algebra.BigOperators.Ring.List

/-!
# Puts and removals of the HDF5 backend

What each command makes of the maps a file stands for, whichever step of the library fails.

* `createPackedDataset_spec`, `ensureWritableDataset_spec`: a pool's datasets;
* `putPacked_spec`: an array into a column;
* `putStandalone_spec`: an array on its own;
* `removeArrayLocked_spec`: removals.
-/

namespace InfraStore

open Lib

theorem resolveDatasetCols_pos (requested : Option ℕ) (dtype : Dtype) (elementShape : List ℕ) :
    0 < resolveDatasetCols requested dtype elementShape := by
  unfold resolveDatasetCols
  simp only
  omega

namespace Hdf5File

variable {D : Type} [H5Library D] [LawfulH5Library D]

/-! ### Datasets of a pool -/

omit [LawfulH5Library D] in
theorem get_replicate_none {n i : ℕ} {x : Hash32} :
    (List.replicate n (none : Option Hash32))[i]? ≠ some (some x) := by
  intro h
  rw [List.getElem?_replicate] at h
  split at h
  · injection h with h
    cases h
  · cases h

/-- What a new dataset is, by the library's promise. -/
theorem describes_created {k : PoolKey Hash32} {cols rows : ℕ} {hashName : String} {d : D}
    (h : H5Library.create k.dtype (k.length :: cols :: k.elementShape)
      (some (rows :: cols :: k.elementShape)) = .ok d) (hcols : 0 < cols) :
    ({ hashName, dtype := k.dtype, elementShape := k.elementShape, length := k.length,
       columns := List.replicate cols none } : DatasetState Hash32).Describes d := by
  obtain ⟨htype, hshape, -, ⟨n, hn⟩, hedges⟩ := LawfulH5Library.create_ok h
  constructor
  · rw [hshape]
    show _ = k.length :: (List.replicate cols none).length :: k.elementShape
    rw [List.length_replicate]
  · exact htype
  · intro hzero
    exact hedges _ rfl (List.mem_cons_of_mem _ (List.mem_cons_of_mem _
      (List.prod_eq_zero_iff.mp hzero)))
  · exact expectedBytes_without hcols hn

/-- **A new dataset.**  The maps are as they were, and after success the pool has one more dataset, all
of whose columns are free. -/
theorem createPackedDataset_spec {s : Hdf5File D} (hs : s.Valid) (name : String) (k : PoolKey Hash32)
    (requested : Option ℕ) :
    (createPackedDataset name k requested).wp (fun r s' => Steady s s' ∧ match r with
      | .error _ => True
      | .ok _ => s'.byHash = s.byHash ∧
        FMap.get s'.datasets name = some
          { hashName := companionName name, dtype := k.dtype, elementShape := k.elementShape,
            length := k.length,
            columns := List.replicate (resolveDatasetCols requested k.dtype k.elementShape) none }) s := by
  unfold createPackedDataset
  simp only [Cmd.wp_bind]
  refine Cmd.wp_mono (createDs_spec _ _ _ _ s) fun r t h₁ => ?_
  obtain ⟨hshift, h₁⟩ := h₁
  cases r with
  | error e =>
    exact ⟨hs.keeps (.of_kept hshift fun n d hd => by rw [h₁]; exact hd), trivial⟩
  | ok u =>
    obtain ⟨hname, d, hd, hsingle⟩ := h₁
    have hget : ∀ n, FMap.get t.single n = if n = name then some d else FMap.get s.single n := by
      intro n
      rw [hsingle, FMap.get_insert, Function.update_apply]
    have hkept : ∀ n e, FMap.get s.single n = some e → FMap.get t.single n = some e := by
      intro n e he
      rw [hget, if_neg, he]
      intro heq
      rw [heq, hname] at he
      cases he
    simp only [Cmd.wp_attempt]
    refine Cmd.wp_mono (createDs_spec (companionName name) .bool _ none t) fun r₂ t₂ h₂ => ?_
    obtain ⟨hshift₂, h₂⟩ := h₂
    cases r₂ with
    | error e =>
      simp only [Cmd.wp_bind, Cmd.wp_attempt]
      refine Cmd.wp_mono (unlink_spec name t₂) fun r₃ t₃ h₃ => ?_
      obtain ⟨hshift₃, -, h₃⟩ := h₃
      have hkept₃ : ∀ n e, FMap.get s.single n = some e → FMap.get t₃.single n = some e := by
        intro n e he
        cases r₃ with
        | error e => rw [h₃, h₂, hkept n _ he]
        | ok u =>
          have hne : n ≠ name := by
            intro heq
            rw [heq, hname] at he
            cases he
          rw [h₃, FMap.get_erase, Function.update_of_ne hne, h₂, hkept n _ he]
      exact ⟨hs.keeps (.of_kept ((hshift.trans hshift₂).trans hshift₃) hkept₃), trivial⟩
    | ok u =>
      obtain ⟨hcomp, c, hc, hsingle₂⟩ := h₂
      have hne : companionName name ≠ name := companionName_ne name
      rw [hget, if_neg hne] at hcomp
      have hget₂ : ∀ n, FMap.get t₂.single n =
          if n = companionName name then some c else FMap.get t.single n := by
        intro n
        rw [hsingle₂, FMap.get_insert, Function.update_apply]
      have hkept₂ : ∀ n e, FMap.get s.single n = some e → FMap.get t₂.single n = some e := by
        intro n e he
        rw [hget₂, if_neg, hkept n e he]
        intro heq
        rw [heq, hcomp] at he
        cases he
      have hcols := resolveDatasetCols_pos requested k.dtype k.elementShape
      obtain ⟨hctype, hcshape, -⟩ := LawfulH5Library.create_ok hc
      have hshift' := hshift.trans hshift₂
      have hidx := hshift'.index
      refine ⟨hs.addDataset (.of_kept hshift' hkept₂) hname hcomp ?_ (describes_created hd hcols) rfl
        ?_ hctype ?_ ⟨rfl, rfl, rfl⟩ (fun i x => get_replicate_none) ?_, ?_, ?_⟩
      · rw [hget₂, if_neg hne.symm, hget, if_pos rfl]
      · rw [hget₂, if_pos rfl]
      · rw [hcshape]
        show _ = [(List.replicate _ none).length, 64]
        rw [List.length_replicate]
      · intro n hn
        rw [hidx] at hn
        rcases (List.perm_orderedInsert (· ≤ ·) name _).mem_iff.mp hn with _ | ⟨_, hn⟩
        · exact .inl rfl
        · exact .inr hn
      · show t₂.byHash = s.byHash
        rw [hidx]
      · show FMap.get (t₂.datasets.insert name _) name = _
        rw [FMap.get_insert, Function.update_self]

/-- **A dataset to write to.**  One of the pool's. -/
theorem ensureWritableDataset_spec {s : Hdf5File D} (hs : s.Valid) (k : PoolKey Hash32) :
    (ensureWritableDataset k).wp (fun r s' => Steady s s' ∧ match r with
      | .error _ => True
      | .ok name => s'.byHash = s.byHash ∧ ∃ st, FMap.get s'.datasets name = some st ∧ OfPool st k) s := by
  unfold ensureWritableDataset
  simp only [Cmd.wp_bind, Cmd.wp_get]
  split
  · rename_i name hfind
    have hmem := List.mem_of_find?_eq_some hfind
    cases hg : FMap.get s.datasetGroups k with
    | none =>
      rw [hg] at hmem
      cases hmem
    | some names =>
      rw [hg] at hmem
      exact ⟨.refl hs, rfl, hs.pools hg hmem⟩
  · rw [Cmd.wp_bind]
    refine Cmd.wp_mono (createPackedDataset_spec hs _ k none) fun r t h => ?_
    cases r with
    | error e => exact h
    | ok u => exact ⟨h.1, h.2.1, _, h.2.2, rfl, rfl, rfl⟩

/-! ### Columns and companions written -/

omit [LawfulH5Library D] in
theorem boxSize_packedRanges (length col : ℕ) (elementShape : List ℕ) :
    boxSize (packedRanges (0, length) col elementShape) = length * elementShape.prod :=
  boxSize_column col

section

variable {st : DatasetState Hash32} {d d' : D} (hdesc : st.Describes d) {col : ℕ}
  (hcol : col < st.columns.length) {bytes : List UInt8}
  (hbytes : bytes.length = st.length * st.elementShape.prod * st.dtype.size)
include hdesc hcol hbytes

/-- A column written holds the bytes, and the others hold what they held. -/
theorem column_written
    (hw : H5Library.writeSlice d st.dtype (packedRanges (0, st.length) col st.elementShape) bytes =
      .ok d') :
    SameLayout d d' ∧ ∀ c < st.columns.length, st.column d' c =
      if c = col then ⟨st.dtype, st.columnShape, bytes⟩ else st.column d c := by
  have hin : InBounds (packedRanges (0, st.length) col st.elementShape) (H5Dataset.shape d) := by
    rw [hdesc.shape]
    exact inBounds_column hcol
  obtain ⟨htype, hshape, hcontent⟩ := LawfulH5Library.writeSlice_ok hdesc.elementType hin
    (by rw [boxSize_packedRanges, hbytes]) hw
  refine ⟨⟨htype, hshape⟩, fun c hc => ?_⟩
  have hlen := LawfulH5Dataset.content_length hdesc.elementType
  rw [Dtype.written_size, hdesc.shape] at hlen
  unfold DatasetState.column
  rw [hcontent, hdesc.shape]
  have hfill := columnOf_fillSlab (w := st.dtype.size) (d := st.length) (n := st.columns.length)
    hbytes hlen hcol hc
  show (⟨_, _, columnOf (fillSlab _ (st.length :: st.columns.length :: st.elementShape)
    ((0, st.length) :: (col, col + 1) :: wholeRanges st.elementShape) _ _) _ _ _ _⟩ : TypedArray) = _
  rw [hfill]
  split <;> rfl

/-- A column is written, unless it has no elements. -/
theorem column_writable (hlen : 0 < st.length) :
    ∃ d', H5Library.writeSlice d st.dtype (packedRanges (0, st.length) col st.elementShape) bytes =
      .ok d' := by
  have hin : InBounds (packedRanges (0, st.length) col st.elementShape) (H5Dataset.shape d) := by
    rw [hdesc.shape]
    exact inBounds_column hcol
  refine LawfulH5Library.writeSlice_total hdesc.elementType hin (by rw [boxSize_packedRanges, hbytes]) ?_
  rw [boxSize_packedRanges]
  exact Nat.mul_ne_zero hlen.ne' hdesc.elements

end

theorem boxSize_row (col : ℕ) : boxSize [(col, col + 1), (0, 64)] = 64 := by
  unfold boxSize
  simp

theorem hashRow_fills (h : Option Hash32) (col : ℕ) :
    (hashRow h).length = boxSize [(col, col + 1), (0, 64)] * Dtype.bool.size := by
  rw [boxSize_row, hashRow_length]
  rfl

theorem inBounds_row {n col : ℕ} (hcol : col < n) : InBounds [(col, col + 1), (0, 64)] [n, 64] :=
  .cons ⟨Nat.le_succ col, hcol⟩ (.cons ⟨Nat.zero_le 64, le_rfl⟩ .nil)

/-- A row of a companion written. -/
theorem companion_written {c c' : D} {n col : ℕ} (htype : H5Dataset.elementType c = some .u8)
    (hshape : H5Dataset.shape c = [n, 64]) (hcol : col < n) {h : Option Hash32}
    (hw : H5Library.writeSlice c .bool [(col, col + 1), (0, 64)] (hashRow h) = .ok c') :
    SameLayout c c' := by
  obtain ⟨ht, hsh, -⟩ := LawfulH5Library.writeSlice_ok (t := .bool) htype
    (hshape ▸ inBounds_row hcol) (hashRow_fills h col) hw
  exact ⟨ht, hsh⟩

theorem companion_writable {c : D} {n col : ℕ} (htype : H5Dataset.elementType c = some .u8)
    (hshape : H5Dataset.shape c = [n, 64]) (hcol : col < n) (h : Option Hash32) :
    ∃ c', H5Library.writeSlice c .bool [(col, col + 1), (0, 64)] (hashRow h) = .ok c' :=
  LawfulH5Library.writeSlice_total (t := .bool) htype (hshape ▸ inBounds_row hcol)
    (hashRow_fills h col) (by rw [boxSize_row]; decide)

/-- **A row of a companion.**  The maps are as they were. -/
theorem writeHashRow_spec {s : Hdf5File D} (hs : s.Valid) {name : String} {st : DatasetState Hash32}
    (hst : FMap.get s.datasets name = some st) {col : ℕ} (hcol : col < st.columns.length)
    (kind : H5Step) (h : Option Hash32) :
    (writeHashRow kind (companionName name) col h).wp (fun r s' => Keeps s s' ∧
      (∀ d, FMap.get s.single name = some d → FMap.get s'.single name = some d) ∧
      (kind = .remove → s.Quiet → r = .ok ())) s := by
  obtain ⟨d, c, hd, -, -, hc, htype, hshape⟩ := hs.dataset hst
  obtain ⟨c₀, hc₀⟩ := companion_writable htype hshape hcol h
  unfold writeHashRow
  refine Cmd.wp_mono (writeSel_spec kind _ .bool _ _ _ s) fun r t h₁ => ?_
  obtain ⟨hshift, hquiet, h₁⟩ := h₁
  have hok : kind = .remove → s.Quiet → r = .ok () := fun hk hq =>
    hquiet hk hq (by rw [hashRow_length]; decide) ⟨c, c₀, hc, hc₀⟩
  cases r with
  | error e =>
    exact ⟨.of_kept hshift fun n e he => by rw [h₁, he], fun d hd => by rw [h₁, hd], hok⟩
  | ok u =>
    obtain ⟨c₁, c', hc₁, hw, hsingle⟩ := h₁
    rw [hc] at hc₁
    cases hc₁
    refine ⟨hs.keeps_companion hshift (by rw [hst]; rfl) hc
      (companion_written htype hshape hcol hw) hsingle, fun d hd => ?_, hok⟩
    rw [hsingle, FMap.get_insert, Function.update_of_ne (companionName_ne name).symm, hd]

/-- A state in order that stands for the arrays of `m`, and for the time axes it stood for. -/
structure Becomes (s s' : Hdf5File D) (m : Hash32 → Option TypedArray) : Prop where
  valid : s'.Valid
  array : s'.array = m
  vector : s'.vector = s.vector
  quiet : s.Quiet → s'.Quiet

theorem Steady.becomes {s s' : Hdf5File D} (h : Steady s s') : Becomes s s' s.array :=
  ⟨h.valid, h.array, h.vector, h.quiet⟩

theorem Becomes.trans_steady {s s' s'' : Hdf5File D} {m : Hash32 → Option TypedArray}
    (h : Becomes s s' m) (h' : Steady s' s'') : Becomes s s'' m :=
  ⟨h'.valid, h'.array.trans h.array, h'.vector.trans h.vector, h'.quiet ∘ h.quiet⟩

theorem Steady.trans_becomes {s s' s'' : Hdf5File D} {m : Hash32 → Option TypedArray}
    (h : Steady s s') (h' : Becomes s' s'' m) : Becomes s s'' m :=
  ⟨h'.valid, h'.array, h'.vector.trans h.vector, h'.quiet ∘ h.quiet⟩

omit [LawfulH5Library D] in
/-- The index as it is once an array is filed in a free column. -/
theorem refile_insert {s : Hdf5File D} (hs : s.Valid) {name : String} {st : DatasetState Hash32}
    (hst : FMap.get s.datasets name = some st) {col : ℕ} (hcol : st.columns[col]? = some none)
    {hash : Hash32} (hnone : FMap.get s.byHash hash = none) :
    (∀ h c, FMap.get (s.byHash.insert hash (.packed name col)) h = some (.packed name c) ↔
      (st.columns.set col (some hash))[c]? = some (some h)) ∧
    ∀ h l, (∀ c, l ≠ .packed name c) →
      (FMap.get (s.byHash.insert hash (.packed name col)) h = some l ↔ FMap.get s.byHash h = some l) := by
  obtain ⟨hlt, -⟩ := List.getElem?_eq_some_iff.mp hcol
  have hiff : ∀ h c, FMap.get s.byHash h = some (.packed name c) ↔ st.columns[c]? = some (some h) := by
    intro h c
    constructor
    · intro hloc
      obtain ⟨st', hst', hc⟩ := hs.packed hloc
      rw [hst] at hst'
      cases hst'
      exact hc
    · exact hs.column hst
  constructor
  · intro h c
    rw [FMap.get_insert, Function.update_apply, List.getElem?_set]
    by_cases hc : col = c
    · subst hc
      rw [if_pos rfl, if_pos hlt]
      by_cases hh : h = hash
      · rw [if_pos hh, hh]
        exact ⟨fun _ => rfl, fun _ => rfl⟩
      · rw [if_neg hh, hiff, hcol]
        constructor
        · intro he
          injection he with he
          cases he
        · intro he
          injection he with he
          injection he with he
          exact (hh he.symm).elim
    · rw [if_neg hc]
      by_cases hh : h = hash
      · rw [if_pos hh, hh, ← hiff, hnone]
        constructor
        · intro he
          injection he with he
          injection he with _ he
          exact (hc he).elim
        · intro he
          cases he
      · rw [if_neg hh, hiff]
  · intro h l hl
    rw [FMap.get_insert, Function.update_apply]
    by_cases hh : h = hash
    · rw [if_pos hh, hh, hnone]
      constructor
      · intro he
        injection he with he
        exact (hl col he.symm).elim
      · intro he
        cases he
    · rw [if_neg hh]

/-- An array filed in a free column that holds it. -/
theorem becomes_insert {s : Hdf5File D} (hs : s.Valid) {name : String} {st : DatasetState Hash32}
    {d : D} (hst : FMap.get s.datasets name = some st) (hd : FMap.get s.single name = some d) {col : ℕ}
    (hcol : st.columns[col]? = some none) {hash : Hash32} (hnone : FMap.get s.byHash hash = none)
    {a : TypedArray} (ha : st.column d col = a) :
    Becomes s (refiled s name st (st.columns.set col (some hash))
      (s.byHash.insert hash (.packed name col))) (Function.update s.array hash (some a)) := by
  obtain ⟨hcols, hrest⟩ := refile_insert hs hst hcol hnone
  obtain ⟨hlt, -⟩ := List.getElem?_eq_some_iff.mp hcol
  have hlen : (st.columns.set col (some hash)).length = st.columns.length := List.length_set
  refine ⟨hs.refile hst hlen hcols hrest, ?_, rfl, id⟩
  funext h
  obtain ⟨hin, -, -⟩ := hs.array_refile hst hd hlen hcols hrest h
  rw [Function.update_apply]
  split
  · rename_i hh
    rw [← ha, hh]
    rw [hh] at hin
    exact hin col (by rw [List.getElem?_set_self hlt])
  · rename_i hh
    exact hs.array_refile_same hst hd hlen hcols hrest
      (by rw [FMap.get_insert, Function.update_of_ne hh])

theorem shape_eq_cons {a : TypedArray} (ha : a.shape ≠ []) : a.shape = a.length :: a.elementShape := by
  unfold TypedArray.length TypedArray.elementShape
  cases hsh : a.shape with
  | nil => exact (ha hsh).elim
  | cons n rest => rfl

/-- **A packed put.**  The array is in the map after success, and the map is as it was after failure. -/
theorem putPacked_spec {s : Hdf5File D} (hs : s.Valid) {hash : Hash32}
    (hnone : FMap.get s.byHash hash = none) {a : TypedArray} (ha : a.Storable)
    (group : PackGroup Hash32) :
    (putPacked hash a group).wp (fun r s' => match r with
      | .error _ => Steady s s'
      | .ok _ => Becomes s s' (Function.update s.array hash (some a))) s := by
  unfold putPacked
  simp only [Cmd.wp_bind]
  refine Cmd.wp_mono (ensureWritableDataset_spec hs (poolKey a group)) fun r t h₁ => ?_
  obtain ⟨hsteady, h₁⟩ := h₁
  cases r with
  | error e => exact hsteady
  | ok name =>
    obtain ⟨hhash, st, hst, hdtype, helem, hlength⟩ := h₁
    have ht := hsteady.valid
    obtain ⟨d, c, hd, hdesc, hname, -⟩ := ht.dataset hst
    simp only [Cmd.wp_get, Cmd.wp_ofExcept]
    rw [Hdf5Backend.datasetState_eq hst]
    simp only
    cases hfree : st.firstFree with
    | none => exact hsteady
    | some col =>
      have hcol : st.columns[col]? = some none := by
        obtain ⟨hlt, hnone, -⟩ := List.findIdx?_eq_some_iff_getElem.mp hfree
        rw [List.getElem?_eq_getElem hlt, Option.isNone_iff_eq_none.mp hnone]
      obtain ⟨hlt, -⟩ := List.getElem?_eq_some_iff.mp hcol
      have hdtype : st.dtype = a.dtype := hdtype
      have helem : st.elementShape = a.elementShape := helem
      have hlength : st.length = a.length := hlength
      have hbytes : a.bytes.length = st.length * st.elementShape.prod * st.dtype.size := by
        have hwf : a.bytes.length = a.shape.prod * a.dtype.size := ha.1
        rw [hwf, shape_eq_cons ha.2, List.prod_cons, hlength, helem, hdtype]
      simp only [Cmd.wp_bind]
      refine Cmd.wp_mono (writeSel_spec _ _ _ _ _ _ t) fun r₂ t₂ h₂ => ?_
      obtain ⟨hshift₂, -, h₂⟩ := h₂
      cases r₂ with
      | error e =>
        exact hsteady.trans (ht.keeps (.of_kept hshift₂ fun n d hd => by rw [h₂]; exact hd))
      | ok u =>
        obtain ⟨d₀, d', hd₀, hw, hsingle⟩ := h₂
        rw [hd] at hd₀
        cases hd₀
        rw [← hdtype, ← hlength, ← helem] at hw
        obtain ⟨hlay, hcols⟩ := column_written hdesc hlt hbytes hw
        have hkeep₂ : Keeps t t₂ := by
          refine ht.keeps_dataset hshift₂ hst hd hlay (fun {c h} hc => ?_) hsingle
          obtain ⟨hc', -⟩ := List.getElem?_eq_some_iff.mp hc
          rw [hcols c hc', if_neg]
          intro heq
          rw [heq, hcol] at hc
          injection hc with hc
          cases hc
        have hidx₂ := hshift₂.index
        have ht₂ := (ht.keeps hkeep₂).valid
        have hst₂ : FMap.get t₂.datasets name = some st := by
          rw [hidx₂]
          exact hst
        have hd₂ : FMap.get t₂.single name = some d' := by
          rw [hsingle, FMap.get_insert, Function.update_self]
        have hrow := writeHashRow_spec ht₂ hst₂ hlt .write (some hash)
        rw [← hname] at hrow
        simp only
        refine Cmd.wp_mono hrow fun r₃ t₃ h₃ => ?_
        obtain ⟨hkeep₃, hd₃, -⟩ := h₃
        have hall := (hsteady.trans (ht.keeps hkeep₂)).trans (ht₂.keeps hkeep₃)
        cases r₃ with
        | error e => exact hall
        | ok u =>
          have hidx₃ := hkeep₃.shifted.index
          have hst₃ : FMap.get t₃.datasets name = some st := by
            rw [hidx₃]
            exact hst₂
          have hhash₃ : FMap.get t₃.byHash hash = none := by
            rw [hidx₃, hidx₂]
            show FMap.get t.byHash hash = none
            rw [hhash, hnone]
          have hcolumn : st.column d' col = a := by
            rw [hcols col hlt, if_pos rfl, hdtype, DatasetState.columnShape, hlength, helem,
              ← shape_eq_cons ha.2]
          have hdone := becomes_insert hall.valid hst₃ (hd₃ d' hd₂) hcol hhash₃ hcolumn
          rw [hall.array] at hdone
          exact hall.trans_becomes hdone

/-! ### Arrays on their own -/

/-- The index with an array that has a dataset of its own. -/
def alone (s : Hdf5File D) (hash : Hash32) (var : String) (t : Dtype) : Hdf5File D :=
  { s with
    standaloneVars := s.standaloneVars ++ [var]
    byHash := s.byHash.insert hash (.standalone var)
    writtenAs := s.writtenAs.insert hash t }

/-- An array put under its name, which the file did not have. -/
theorem becomes_alone {s t : Hdf5File D} (hs : s.Valid) (h : Keeps s t) {hash : Hash32}
    (hnone : FMap.get s.byHash hash = none) {a : TypedArray} {d : D}
    (hname : FMap.get s.single (standaloneName hash) = none)
    (hd : FMap.get t.single (standaloneName hash) = some d)
    (htype : H5Dataset.elementType d = some a.dtype.written) (hshape : H5Dataset.shape d = a.shape)
    (hcontent : LawfulH5Dataset.content d = a.bytes) (hdims : a.shape ≠ [])
    (hsized : ∃ n, expectedBytes a.dtype a.shape = .ok n) :
    Becomes s (alone t hash (standaloneName hash) a.dtype) (Function.update s.array hash (some a)) := by
  have hk := hs.keeps h
  have ht := hk.valid
  have hidx := h.shifted.index
  have hsets : t.datasets = s.datasets := by rw [hidx]
  have hhash : t.byHash = s.byHash := by rw [hidx]
  have hnone : FMap.get t.byHash hash = none := hhash ▸ hnone
  have hins : ∀ x, FMap.get (t.byHash.insert hash (.standalone (standaloneName hash))) x =
      if x = hash then some (.standalone (standaloneName hash)) else FMap.get t.byHash x := by
    intro x
    rw [FMap.get_insert, Function.update_apply]
  have hkept : ∀ {x l}, FMap.get t.byHash x = some l → x ≠ hash ∧
      FMap.get (t.byHash.insert hash (.standalone (standaloneName hash))) x = some l := by
    intro x l hx
    have hne : x ≠ hash := by
      intro heq
      rw [heq, hnone] at hx
      cases hx
    exact ⟨hne, by rw [hins, if_neg hne, hx]⟩
  have hwritten : ∀ {x u}, x ≠ hash → FMap.get t.writtenAs x = some u →
      FMap.get (t.writtenAs.insert hash a.dtype) x = some u := by
    intro x u hne hx
    rw [FMap.get_insert, Function.update_of_ne hne, hx]
  have hnew : FMap.get (t.writtenAs.insert hash a.dtype) hash = some a.dtype := by
    rw [FMap.get_insert, Function.update_self]
  refine ⟨⟨?_, ?_, ht.dataset, ?_, ?_, ht.companions, ?_, ht.pools, ht.axes⟩, ?_, ?_, ?_⟩
  · intro x name col hx
    change FMap.get (t.byHash.insert hash (.standalone (standaloneName hash))) x = _ at hx
    rw [hins] at hx
    split at hx
    · cases hx
    · exact ht.packed hx
  · intro x name col st hst hcol
    exact (hkept (ht.column hst hcol)).2
  · intro x var hx
    change FMap.get (t.byHash.insert hash (.standalone (standaloneName hash))) x = _ at hx
    rw [hins] at hx
    split at hx
    · rename_i heq
      cases hx
      rw [heq]
      refine ⟨rfl, List.mem_append_right _ List.mem_cons_self, d, a.dtype, hd, hnew, htype, ?_⟩
      rw [hshape]
      exact ⟨hdims, hsized⟩
    · rename_i hne
      obtain ⟨hv, hin, e, u, he, hu, hrest⟩ := ht.standalone hx
      exact ⟨hv, List.mem_append_left _ hin, e, u, he, hwritten hne hu, hrest⟩
  · intro var hv
    rcases List.mem_append.mp hv with hv | hv
    · obtain ⟨x, hx⟩ := ht.vars hv
      exact ⟨x, (hkept hx).2⟩
    · rw [List.mem_singleton] at hv
      refine ⟨hash, ?_⟩
      show FMap.get (t.byHash.insert hash _) hash = _
      rw [hins, if_pos rfl, hv]
  · intro name var hn hv
    rcases List.mem_append.mp hv with hv | hv
    · exact ht.alone hn hv
    · -- the file has the dataset and its companion, and did not have this name
      rw [List.mem_singleton] at hv
      rw [hv]
      obtain ⟨st, hst⟩ := Option.isSome_iff_exists.mp hn
      obtain ⟨e, c, he, -, -, hc, -⟩ := hs.dataset (hsets ▸ hst)
      constructor
      · intro heq
        rw [← heq, hname] at he
        cases he
      · intro heq
        rw [← heq, hname] at hc
        cases hc
  · funext x
    rw [← hk.array, Function.update_apply]
    by_cases hx : x = hash
    · rw [if_pos hx, hx]
      refine (array_standalone (s := alone t hash (standaloneName hash) a.dtype) ?_ hd hnew).trans ?_
      · show FMap.get (t.byHash.insert hash _) hash = _
        rw [hins, if_pos rfl]
      · rw [hshape, hcontent]
    · rw [if_neg hx]
      cases hl : FMap.get t.byHash x with
      | none =>
        unfold array alone
        simp only
        rw [hins, if_neg hx, hl]
      | some l =>
        cases l with
        | packed name col =>
          obtain ⟨st, hst, -⟩ := ht.packed hl
          obtain ⟨e, -, he, -⟩ := ht.dataset hst
          rw [array_packed hl hst he]
          exact array_packed (hkept hl).2 hst he
        | standalone var =>
          obtain ⟨-, -, e, u, he, hu, -⟩ := ht.standalone hl
          rw [array_standalone hl he hu]
          exact array_standalone (hkept hl).2 he (hwritten hx hu)
  · exact hk.vector
  · exact hk.quiet

omit [LawfulH5Library D] in
theorem writeAll_spec (var : String) (t : Dtype) (bytes : List UInt8) (s : Hdf5File D) :
    (putStandalone.writeAll var t bytes).wp (fun r s' => Shifted s s' ∧ match r with
      | .ok _ => ∃ d d', FMap.get s.single var = some d ∧ H5Library.writeRaw d t bytes = .ok d' ∧
        s'.single = s.single.insert var d'
      | .error _ => s'.single = s.single) s := by
  unfold putStandalone.writeAll
  rw [Cmd.wp_bind]
  refine Cmd.wp_mono (step_spec .write s) fun r t₁ h₁ => ?_
  obtain ⟨hshift, hsingle, -⟩ := h₁
  cases r with
  | error e => exact ⟨hshift, hsingle⟩
  | ok u =>
    simp only [Cmd.wp_bind, Cmd.wp_get, Cmd.wp_ofExcept]
    cases hd : t₁.dataset var with
    | error e => exact ⟨hshift, hsingle⟩
    | ok d =>
      simp only
      cases hw : (H5Library.writeRaw d t bytes : Result D) with
      | error e => exact ⟨hshift, hsingle⟩
      | ok d' =>
        have hd' : FMap.get t₁.single var = some d := by
          unfold Hdf5Backend.dataset at hd
          cases hx : FMap.get t₁.single var with
          | none =>
            rw [hx] at hd
            cases hd
          | some e =>
            rw [hx] at hd
            cases hd
            rfl
        refine ⟨hshift.trans ⟨rfl, List.suffix_refl _⟩, d, d', hsingle ▸ hd', hw, ?_⟩
        show t₁.single.insert var d' = _
        rw [hsingle]

/-- **A put on its own.**  The array is in the map after success, and the map is as it was after failure. -/
theorem putStandalone_spec {s : Hdf5File D} (hs : s.Valid) {hash : Hash32}
    (hnone : FMap.get s.byHash hash = none) {a : TypedArray} (ha : a.Storable)
    (windowAxis : Option ℕ) :
    (putStandalone hash a windowAxis).wp (fun r s' => match r with
      | .error _ => Steady s s'
      | .ok _ => Becomes s s' (Function.update s.array hash (some a))) s := by
  have hvar : s.standaloneVars.contains (standaloneName hash) = false := by
    rw [← Bool.not_eq_true, List.contains_iff_mem]
    intro hmem
    obtain ⟨x, hx⟩ := hs.vars hmem
    have heq := standaloneName_injective (hs.standalone hx).1
    rw [← heq, hnone] at hx
    cases hx
  unfold putStandalone
  simp only [Cmd.wp_bind, Cmd.wp_get]
  rw [hvar]
  simp only [Bool.false_eq_true, if_false]
  rw [Cmd.wp_bind]
  refine Cmd.wp_mono (createDs_spec _ _ _ _ s) fun r t h₁ => ?_
  obtain ⟨hshift, h₁⟩ := h₁
  cases r with
  | error e => exact hs.keeps (.of_kept hshift fun n e he => by rw [h₁, he])
  | ok u =>
    obtain ⟨hname, d, hd, hsingle⟩ := h₁
    obtain ⟨htype, hshape, hcontent, hsized, -⟩ := LawfulH5Library.create_ok hd
    have hget : ∀ n, FMap.get t.single n =
        if n = standaloneName hash then some d else FMap.get s.single n := by
      intro n
      rw [hsingle, FMap.get_insert, Function.update_apply]
    have hother : ∀ n e, FMap.get s.single n = some e → n ≠ standaloneName hash := by
      intro n e he heq
      rw [heq, hname] at he
      cases he
    have hkept : ∀ n e, FMap.get s.single n = some e → FMap.get t.single n = some e := by
      intro n e he
      rw [hget, if_neg (hother n e he), he]
    have hwf : a.bytes.length = a.shape.prod * a.dtype.size := ha.1
    simp only
    by_cases hbytes : a.bytes ≠ []
    · rw [if_pos hbytes]
      simp only [Cmd.wp_bind, Cmd.wp_attempt]
      refine Cmd.wp_mono (writeAll_spec _ _ _ t) fun r₂ t₂ h₂ => ?_
      obtain ⟨hshift₂, h₂⟩ := h₂
      cases r₂ with
      | error e =>
        simp only [Cmd.wp_bind, Cmd.wp_attempt]
        refine Cmd.wp_mono (unlink_spec _ t₂) fun r₃ t₃ h₃ => ?_
        obtain ⟨hshift₃, -, h₃⟩ := h₃
        have hkept₃ : ∀ n e, FMap.get s.single n = some e → FMap.get t₃.single n = some e := by
          intro n e he
          cases r₃ with
          | error e' => rw [h₃, h₂, hkept n e he]
          | ok u =>
            rw [h₃, FMap.get_erase, Function.update_of_ne (hother n e he), h₂, hkept n e he]
        exact hs.keeps (.of_kept ((hshift.trans hshift₂).trans hshift₃) hkept₃)
      | ok u =>
        obtain ⟨d₀, d', hd₀, hw, hsingle₂⟩ := h₂
        rw [hget, if_pos rfl] at hd₀
        cases hd₀
        obtain ⟨htype', hshape', hcontent'⟩ := LawfulH5Library.writeRaw_ok htype
          (by rw [hshape, hwf]) hw
        refine becomes_alone hs (.of_kept (hshift.trans hshift₂) fun n e he => ?_) hnone hname
          (d := d') ?_ (htype'.trans htype) (hshape'.trans hshape) hcontent' ha.2 hsized
        · rw [hsingle₂, FMap.get_insert, Function.update_of_ne (hother n e he), hkept n e he]
        · rw [hsingle₂, FMap.get_insert, Function.update_self]
    · rw [if_neg hbytes]
      rw [not_not] at hbytes
      refine becomes_alone hs (.of_kept hshift hkept) hnone hname (d := d) ?_ htype hshape ?_ ha.2 hsized
      · rw [hget, if_pos rfl]
      · rw [hcontent, ← hwf, hbytes]
        rfl

/-! ### Removals -/

/-- The index without an array that had a dataset of its own. -/
def dropped (s : Hdf5File D) (hash : Hash32) (var : String) : Hdf5File D :=
  { s with standaloneVars := s.standaloneVars.filter (· ≠ var), byHash := s.byHash.erase hash }

/-- An array on its own unlinked. -/
theorem becomes_dropped {s t : Hdf5File D} (hs : s.Valid) (h : Shifted s t) {hash : Hash32}
    {var : String} (hloc : FMap.get s.byHash hash = some (.standalone var))
    (hsingle : t.single = s.single.erase var) :
    Becomes s (dropped t hash var) (Function.update s.array hash none) := by
  have hidx := h.index
  have hsets : t.datasets = s.datasets := by rw [hidx]
  have hwritten : t.writtenAs = s.writtenAs := by rw [hidx]
  obtain ⟨hvar, hmem, -⟩ := hs.standalone hloc
  have hget : ∀ n, n ≠ var → FMap.get t.single n = FMap.get s.single n := by
    intro n hn
    rw [hsingle, FMap.get_erase, Function.update_of_ne hn]
  have herase : ∀ {x l}, FMap.get (t.byHash.erase hash) x = some l →
      x ≠ hash ∧ FMap.get s.byHash x = some l := by
    intro x l hx
    rw [hidx] at hx
    change FMap.get (s.byHash.erase hash) x = some l at hx
    rw [FMap.get_erase, Function.update_apply] at hx
    split at hx
    · cases hx
    · exact ⟨‹_›, hx⟩
  have hkept : ∀ {x l}, x ≠ hash → FMap.get s.byHash x = some l →
      FMap.get (t.byHash.erase hash) x = some l := by
    intro x l hne hx
    rw [hidx]
    show FMap.get (s.byHash.erase hash) x = some l
    rw [FMap.get_erase, Function.update_of_ne hne, hx]
  have hfilter : ∀ {v}, v ∈ (t.standaloneVars.filter (· ≠ var)) ↔ v ∈ s.standaloneVars ∧ v ≠ var := by
    intro v
    rw [hidx, List.mem_filter, decide_eq_true_iff]
  have hothers : ∀ {x v}, FMap.get s.byHash x = some (.standalone v) → x ≠ hash → v ≠ var := by
    intro x v hx hne heq
    rw [(hs.standalone hx).1, hvar] at heq
    exact hne (standaloneName_injective heq)
  refine ⟨⟨?_, ?_, ?_, ?_, ?_, ?_, ?_, ?_, ?_⟩, ?_, ?_, ?_⟩
  · intro x name col hx
    obtain ⟨st, hst, hcol⟩ := hs.packed (herase hx).2
    exact ⟨st, hsets ▸ hst, hcol⟩
  · intro x name col st hst hcol
    have hx := hs.column (hsets ▸ hst) hcol
    refine hkept (fun heq => ?_) hx
    rw [heq, hloc] at hx
    cases hx
  · intro name st hst
    have hst : FMap.get s.datasets name = some st := hsets ▸ hst
    obtain ⟨d, c, hd, hdesc, hname, hc, hrest⟩ := hs.dataset hst
    obtain ⟨hne, hne'⟩ := hs.alone (by rw [hst]; rfl) hmem
    exact ⟨d, c, (hget name hne.symm).trans hd, hdesc, hname, (hget _ hne'.symm).trans hc, hrest⟩
  · intro x v hx
    obtain ⟨hne, hx⟩ := herase hx
    obtain ⟨hv, hin, d, u, hd, hu, hrest⟩ := hs.standalone hx
    have hother := hothers hx hne
    exact ⟨hv, hfilter.mpr ⟨hin, hother⟩, d, u, (hget v hother).trans hd, hwritten ▸ hu, hrest⟩
  · intro v hv
    obtain ⟨hin, hne⟩ := hfilter.mp hv
    obtain ⟨x, hx⟩ := hs.vars hin
    refine ⟨x, hkept (fun heq => ?_) hx⟩
    rw [heq, hloc] at hx
    cases hx
    exact hne rfl
  · intro name name' hn hn'
    exact hs.companions (hsets ▸ hn) (hsets ▸ hn')
  · intro name v hn hv
    exact hs.alone (hsets ▸ hn) (hfilter.mp hv).1
  · intro k names name hk hn
    have hk : FMap.get s.datasetGroups k = some names := by
      rw [hidx] at hk
      exact hk
    obtain ⟨st, hst, hpool⟩ := hs.pools hk hn
    exact ⟨st, hsets ▸ hst, hpool⟩
  · rw [hidx]
    exact hs.axes
  · funext x
    rw [Function.update_apply]
    by_cases hx : x = hash
    · rw [if_pos hx, hx]
      unfold array dropped
      simp only
      rw [FMap.get_erase, Function.update_self]
    · rw [if_neg hx]
      cases hl : FMap.get s.byHash x with
      | none =>
        unfold array dropped
        rw [hidx, hl]
        simp only
        rw [FMap.get_erase, Function.update_of_ne hx, hl]
      | some l =>
        cases l with
        | packed name col =>
          obtain ⟨st, hst, -⟩ := hs.packed hl
          obtain ⟨d, -, hd, -⟩ := hs.dataset hst
          have hne := (hs.alone (by rw [hst]; rfl) hmem).1
          rw [array_packed hl hst hd]
          exact array_packed (hkept hx hl) (hsets ▸ hst) ((hget name hne.symm).trans hd)
        | standalone v =>
          obtain ⟨-, -, d, u, hd, hu, -⟩ := hs.standalone hl
          rw [array_standalone hl hd hu]
          exact array_standalone (hkept hx hl) ((hget v (hothers hl hx)).trans hd) (hwritten ▸ hu)
  · funext x
    rw [hidx]
    rfl
  · intro hq
    exact h.quiet hq

omit [LawfulH5Library D] in
/-- The index as it is once the array of a column is gone. -/
theorem refile_erase {s : Hdf5File D} (hs : s.Valid) {name : String} {st : DatasetState Hash32}
    (hst : FMap.get s.datasets name = some st) {col : ℕ} {hash : Hash32}
    (hcol : st.columns[col]? = some (some hash)) :
    (∀ h c, FMap.get (s.byHash.erase hash) h = some (.packed name c) ↔
      (st.columns.set col none)[c]? = some (some h)) ∧
    ∀ h l, (∀ c, l ≠ .packed name c) →
      (FMap.get (s.byHash.erase hash) h = some l ↔ FMap.get s.byHash h = some l) := by
  obtain ⟨hlt, -⟩ := List.getElem?_eq_some_iff.mp hcol
  have hloc := hs.column hst hcol
  constructor
  · intro h c
    rw [FMap.get_erase, Function.update_apply, List.getElem?_set]
    by_cases hh : h = hash
    · subst hh
      rw [if_pos rfl]
      constructor
      · intro he
        cases he
      · intro he
        split at he
        · injection he with he
          cases he
        · rename_i hne
          have hx := hs.column hst he
          rw [hloc] at hx
          injection hx with hx
          injection hx with _ hx
          exact (hne hx).elim
    · rw [if_neg hh]
      constructor
      · intro hx
        obtain ⟨st', hst', hc⟩ := hs.packed hx
        rw [hst] at hst'
        cases hst'
        rw [if_neg, hc]
        intro heq
        rw [← heq, hcol] at hc
        injection hc with hc
        injection hc with hc
        exact hh hc.symm
      · intro he
        split at he
        · injection he with he
          cases he
        · exact hs.column hst he
  · intro h l hl
    rw [FMap.get_erase, Function.update_apply]
    by_cases hh : h = hash
    · rw [if_pos hh, hh, hloc]
      constructor
      · intro he
        cases he
      · intro he
        injection he with he
        exact (hl col he.symm).elim
    · rw [if_neg hh]

/-- The array of a column given up. -/
theorem becomes_erase {s : Hdf5File D} (hs : s.Valid) {name : String} {st : DatasetState Hash32} {d : D}
    (hst : FMap.get s.datasets name = some st) (hd : FMap.get s.single name = some d) {col : ℕ}
    {hash : Hash32} (hcol : st.columns[col]? = some (some hash)) :
    Becomes s (refiled s name st (st.columns.set col none) (s.byHash.erase hash))
      (Function.update s.array hash none) := by
  obtain ⟨hcols, hrest⟩ := refile_erase hs hst hcol
  have hlen : (st.columns.set col none).length = st.columns.length := List.length_set
  have hgone : ∀ c : ℕ, (st.columns.set col none)[c]? ≠ some (some hash) := by
    intro c hc
    have hx := (hcols hash c).mpr hc
    rw [FMap.get_erase, Function.update_self] at hx
    cases hx
  refine ⟨hs.refile hst hlen hcols hrest, ?_, rfl, id⟩
  funext h
  obtain ⟨-, hout, -⟩ := hs.array_refile hst hd hlen hcols hrest h
  rw [Function.update_apply]
  split
  · rename_i hh
    rw [hh] at hout ⊢
    exact hout hgone ⟨col, hs.column hst hcol⟩
  · rename_i hh
    exact hs.array_refile_same hst hd hlen hcols hrest
      (by rw [FMap.get_erase, Function.update_of_ne hh])

omit [LawfulH5Library D] in
/-- The bytes a removed column is filled with fit it. -/
theorem zeros_length (st : DatasetState Hash32) :
    (List.replicate ((st.slabShape 1).prod * st.dtype.size) (0 : UInt8)).length =
      st.length * st.elementShape.prod * st.dtype.size := by
  unfold DatasetState.slabShape
  rw [List.length_replicate, List.prod_cons, List.prod_cons, Nat.one_mul]

/-- **The column of an array given up.**  Its companion row and its elements are overwritten first. -/
theorem clearColumn_spec {s : Hdf5File D} (hs : s.Valid) {name : String} {st : DatasetState Hash32}
    (hst : FMap.get s.datasets name = some st) {col : ℕ} {hash : Hash32}
    (hcol : st.columns[col]? = some (some hash)) :
    (writeHashRow .remove st.hashName col none >>= fun _ => do
      if 0 < st.length then
        writeSel .remove name st.dtype (List.replicate ((st.slabShape 1).prod * st.dtype.size) 0)
          (st.slabShape 1) (packedRanges (0, st.length) col st.elementShape)
      modify fun s =>
        { s with
          datasets := s.datasets.insert name { st with columns := st.columns.set col none }
          byHash := s.byHash.erase hash }).wp (fun r s' => (s.Quiet → s'.Quiet ∧ r = .ok ()) ∧
      match r with
      | .error _ => Steady s s'
      | .ok _ => Becomes s s' (Function.update s.array hash none)) s := by
  obtain ⟨hlt, -⟩ := List.getElem?_eq_some_iff.mp hcol
  obtain ⟨d, -, hd, hdesc, hname, -⟩ := hs.dataset hst
  have hrow := writeHashRow_spec hs hst hlt .remove none
  rw [← hname] at hrow
  rw [Cmd.wp_bind]
  refine Cmd.wp_mono hrow fun r t h₁ => ?_
  obtain ⟨hkeep, hkept, hquiet⟩ := h₁
  have hsteady := hs.keeps hkeep
  cases r with
  | error e => exact ⟨fun hq => (by cases hquiet rfl hq), hsteady⟩
  | ok u =>
    have hidx := hkeep.shifted.index
    have hst₁ : FMap.get t.datasets name = some st := by
      rw [hidx]
      exact hst
    have hgiven := becomes_erase hsteady.valid hst₁ (hkept d hd) hcol
    rw [hsteady.array] at hgiven
    simp only
    by_cases hlen : 0 < st.length
    · rw [if_pos hlen, Cmd.wp_bind]
      obtain ⟨d₀, hd₀⟩ := column_writable hdesc hlt (zeros_length st) hlen
      refine Cmd.wp_mono (writeSel_spec .remove name st.dtype _ _ _ t) fun r₂ t₂ h₂ => ?_
      obtain ⟨hshift₂, hquiet₂, h₂⟩ := h₂
      have hok : s.Quiet → r₂ = .ok () := fun hq =>
        hquiet₂ rfl (hkeep.shifted.quiet hq) List.length_replicate ⟨d, d₀, hkept d hd, hd₀⟩
      cases r₂ with
      | error e =>
        refine ⟨fun hq => (by cases hok hq), hsteady.trans (hsteady.valid.keeps ?_)⟩
        exact .of_kept hshift₂ fun n e he => by rw [h₂, he]
      | ok u =>
        obtain ⟨d₁, d', hd₁, hw, hsingle⟩ := h₂
        rw [hkept d hd] at hd₁
        cases hd₁
        obtain ⟨hlay, hcols⟩ := column_written hdesc hlt (zeros_length st) hw
        have hidx₂ := hshift₂.index
        refine ⟨fun hq => ⟨hshift₂.quiet (hkeep.shifted.quiet hq), rfl⟩, ?_⟩
        -- the index gives the column up before its elements are overwritten: the outcome is the same
        refine (hsteady.trans_becomes hgiven).trans_steady (hgiven.valid.keeps ?_)
        have hgone : FMap.get (t.datasets.insert name { st with columns := st.columns.set col none })
            name = some { st with columns := st.columns.set col none } := by
          rw [FMap.get_insert, Function.update_self]
        refine hgiven.valid.keeps_dataset ⟨?_, hshift₂.later⟩ hgone (hkept d hd) hlay ?_ hsingle
        · show { t₂ with datasets := _, byHash := _ } = _
          rw [hidx₂]
          rfl
        · intro c h hc
          have hset : (st.columns.set col none)[c]? = some (some h) := hc
          have hlen' : (st.columns.set col none).length = st.columns.length := List.length_set
          have hne : c ≠ col := by
            intro heq
            rw [heq, List.getElem?_set_self hlt] at hset
            injection hset with hset
            cases hset
          obtain ⟨hc', -⟩ := List.getElem?_eq_some_iff.mp hset
          have hcol' := hcols c (hlen' ▸ hc')
          rw [if_neg hne] at hcol'
          unfold DatasetState.column at hcol' ⊢
          simp only
          rw [hlen']
          exact hcol'
    · rw [if_neg hlen]
      exact ⟨fun hq => ⟨hkeep.shifted.quiet hq, rfl⟩, hsteady.trans_becomes hgiven⟩

/-- **Removal.**  The array is not in the map after success, and the map is as it was after failure; a
removal none of whose steps fails succeeds. -/
theorem removeArrayLocked_spec {s : Hdf5File D} (hs : s.Valid) (hash : Hash32) :
    (removeArrayLocked hash).wp (fun r s' => (s.Quiet → s'.Quiet ∧ r = .ok ()) ∧ match r with
      | .error _ => Steady s s'
      | .ok _ => Becomes s s' (Function.update s.array hash none)) s := by
  unfold removeArrayLocked
  simp only [Cmd.wp_bind, Cmd.wp_get]
  cases hloc : FMap.get s.byHash hash with
  | none =>
    have hsame : Function.update s.array hash none = s.array := by
      rw [Function.update_eq_self_iff]
      exact ((hs.array_eq_none hash).mpr hloc).symm
    rw [hsame]
    exact ⟨fun hq => ⟨hq, rfl⟩, (Steady.refl hs).becomes⟩
  | some l =>
    cases l with
    | standalone var =>
      obtain ⟨-, -, d, -, hd, -⟩ := hs.standalone hloc
      simp only [Cmd.wp_bind]
      refine Cmd.wp_mono (unlink_spec var s) fun r t h => ?_
      obtain ⟨hshift, hquiet, hsingle⟩ := h
      cases r with
      | error e =>
        refine ⟨fun hq => ?_, hs.keeps (.of_kept hshift fun n d hd => by rw [hsingle, hd])⟩
        cases hquiet hq (by rw [hd]; rfl)
      | ok u => exact ⟨fun hq => ⟨hshift.quiet hq, rfl⟩, becomes_dropped hs hshift hloc hsingle⟩
    | packed name col =>
      obtain ⟨st, hst, hcol⟩ := hs.packed hloc
      simp only [Cmd.wp_bind, Cmd.wp_ofExcept]
      rw [Hdf5Backend.datasetState_eq hst]
      have h := clearColumn_spec hs hst hcol
      rw [Cmd.wp_bind] at h
      exact h

end Hdf5File

end InfraStore
