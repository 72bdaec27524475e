import InfraStore.Hdf5Puts

/-!
# Blocks of arrays in the HDF5 backend

A block of arrays of one shape is written a segment at a time, each into a dataset of its own, and taken
back when one of them fails.

* `putPackedSegment_spec`: a segment is written or is not;
* `unwindSegments_spec`: the segments before a failing one, taken back;
* `putPackedBlock_spec`: the block, and which of its arrays it wrote.
-/

namespace InfraStore

open Lib

theorem resolveDatasetCols_le {n : ℕ} (hn : 0 < n) (dtype : Dtype) (elementShape : List ℕ) :
    resolveDatasetCols (some n) dtype elementShape ≤ n := by
  unfold resolveDatasetCols
  simp only [Option.getD_some]
  omega

/-- A width within what one dataset may hold is the one resolved to. -/
theorem resolveDatasetCols_idem (requested : Option ℕ) (dtype : Dtype) (elementShape : List ℕ) :
    resolveDatasetCols (some (resolveDatasetCols requested dtype elementShape)) dtype elementShape =
      resolveDatasetCols requested dtype elementShape := by
  unfold resolveDatasetCols
  simp only [Option.getD_some]
  omega

namespace Hdf5File

variable {D : Type} [H5Library D] [LawfulH5Library D]

/-- A loop none of whose steps fails. -/
theorem forM_total {α : Type} {f : α → Result Unit} {as : List α} (h : ∀ a ∈ as, f a = .ok ()) :
    as.forM f = .ok () := by
  induction as with
  | nil => rfl
  | cons a as ih =>
    show (f a).bind (fun _ => as.forM f) = _
    rw [h a List.mem_cons_self]
    exact ih fun x hx => h x (List.mem_cons_of_mem a hx)

/-! ### Segments of a block -/

/-- The index with the arrays of a segment, one in each column from `n` on. -/
theorem get_fileAll (name : String) {seg : List (Hash32 × TypedArray)}
    (hnd : (seg.map Prod.fst).Nodup) (n : ℕ) (m : FMap Hash32 Location) (h : Hash32) :
    (∀ j, (seg.map Prod.fst)[j]? = some h →
      FMap.get ((seg.zipIdx n).foldl (fun m i => m.insert i.1.1 (.packed name i.2)) m) h =
        some (.packed name (n + j))) ∧
    (h ∉ seg.map Prod.fst →
      FMap.get ((seg.zipIdx n).foldl (fun m i => m.insert i.1.1 (.packed name i.2)) m) h =
        FMap.get m h) := by
  induction seg generalizing n m with
  | nil => exact ⟨fun j hj => (by cases hj), fun _ => rfl⟩
  | cons i seg ih =>
    obtain ⟨hnot, hnd⟩ := List.nodup_cons.mp hnd
    rw [List.zipIdx_cons, List.foldl_cons]
    obtain ⟨hin, hout⟩ := ih hnd (n + 1) (m.insert i.1 (.packed name n))
    constructor
    · intro j hj
      cases j with
      | zero =>
        have hj : i.1 = h := by
          injection hj
        rw [hout (hj ▸ hnot), ← hj, FMap.get_insert, Function.update_self]
        rfl
      | succ j =>
        rw [hin j hj, show n + 1 + j = n + (j + 1) by omega]
    · intro hnotin
      rw [List.map_cons, List.mem_cons, not_or] at hnotin
      rw [hout hnotin.2, FMap.get_insert, Function.update_of_ne hnotin.1]

/-- The arrays of a segment: of one pool, none stored, none twice, and as many as one dataset takes. -/
structure Fits (s : Hdf5File D) (k : PoolKey Hash32) (seg : List (Hash32 × TypedArray)) : Prop where
  storable : ∀ i ∈ seg, i.2.Storable
  pool : ∀ i ∈ seg, i.2.dtype = k.dtype ∧ i.2.shape = k.length :: k.elementShape
  nodup : (seg.map Prod.fst).Nodup
  new : ∀ i ∈ seg, FMap.get s.byHash i.1 = none
  width : resolveDatasetCols (some seg.length) k.dtype k.elementShape = seg.length

section

variable {s : Hdf5File D} {k : PoolKey Hash32} {seg : List (Hash32 × TypedArray)} (hfit : s.Fits k seg)
include hfit

omit [H5Library D] [LawfulH5Library D] in
theorem Fits.bytes_length {c : List UInt8} (hc : c ∈ seg.map fun i => i.2.bytes) :
    c.length = k.length * elementBlockBytes k.dtype k.elementShape := by
  obtain ⟨i, hi, rfl⟩ := List.mem_map.mp hc
  obtain ⟨hdtype, hshape⟩ := hfit.pool i hi
  have hwf : i.2.bytes.length = i.2.shape.prod * i.2.dtype.size := (hfit.storable i hi).1
  rw [hwf, hdtype, hshape, List.prod_cons, elementBlockBytes, Nat.mul_assoc]

omit [H5Library D] [LawfulH5Library D] in
/-- The arrays of a segment have the bytes their shape asks for. -/
theorem Fits.interleave_eq : interleave k seg = .ok ((List.range k.length).flatMap fun t =>
    (seg.map fun i => i.2.bytes).flatMap fun c =>
      (c.drop (t * elementBlockBytes k.dtype k.elementShape)).take
        (elementBlockBytes k.dtype k.elementShape)) := by
  unfold interleave
  have hcheck : ∀ i ∈ seg, ¬ i.2.bytes.length < k.length * elementBlockBytes k.dtype k.elementShape := by
    intro i hi
    rw [hfit.bytes_length (List.mem_map.mpr ⟨i, hi, rfl⟩)]
    exact Nat.lt_irrefl _
  refine except_bind_eq_ok.mpr ⟨(), forM_total fun i hi => if_neg (hcheck i hi), ?_⟩
  simp only [List.flatMap_map]
  rfl

omit [LawfulH5Library D] in
/-- What the index is once a segment is filed in a dataset of free columns. -/
theorem Fits.refile (hs : s.Valid) {name : String} {st : DatasetState Hash32}
    (hst : FMap.get s.datasets name = some st)
    (hfree : st.columns = List.replicate seg.length none) :
    (∀ h c, FMap.get (seg.zipIdx.foldl (fun m i => m.insert i.1.1 (.packed name i.2)) s.byHash) h =
      some (.packed name c) ↔ (seg.map fun i => some i.1)[c]? = some (some h)) ∧
    ∀ h l, (∀ c, l ≠ .packed name c) →
      (FMap.get (seg.zipIdx.foldl (fun m i => m.insert i.1.1 (.packed name i.2)) s.byHash) h = some l ↔
        FMap.get s.byHash h = some l) := by
  have hcolumns : ∀ {c : ℕ} {h}, (seg.map fun i => some i.1)[c]? = some (some h) ↔
      (seg.map Prod.fst)[c]? = some h := by
    intro c h
    rw [List.getElem?_map, List.getElem?_map]
    cases seg[c]? with
    | none => simp
    | some i => simp
  have hnew : ∀ {h}, h ∈ seg.map Prod.fst → FMap.get s.byHash h = none := by
    intro h hh
    obtain ⟨i, hi, rfl⟩ := List.mem_map.mp hh
    exact hfit.new i hi
  constructor
  · intro h c
    obtain ⟨hin, hout⟩ := get_fileAll name hfit.nodup 0 s.byHash h
    rw [hcolumns]
    by_cases hh : h ∈ seg.map Prod.fst
    · obtain ⟨j, hj⟩ := List.mem_iff_getElem?.mp hh
      rw [hin j hj, Nat.zero_add]
      constructor
      · intro he
        injection he with he
        injection he with _ he
        rw [← he, hj]
      · intro hc
        obtain ⟨hlt, he⟩ := List.getElem?_eq_some_iff.mp hj
        obtain ⟨hlt', he'⟩ := List.getElem?_eq_some_iff.mp hc
        rw [(hfit.nodup.getElem_inj_iff).mp (he.trans he'.symm)]
    · rw [hout hh]
      constructor
      · intro hloc
        obtain ⟨st', hst', hc⟩ := hs.packed hloc
        rw [hst] at hst'
        cases hst'
        rw [hfree] at hc
        exact (get_replicate_none hc).elim
      · intro hc
        exact (hh (List.mem_of_getElem? hc)).elim
  · intro h l hl
    obtain ⟨hin, hout⟩ := get_fileAll name hfit.nodup 0 s.byHash h
    by_cases hh : h ∈ seg.map Prod.fst
    · obtain ⟨j, hj⟩ := List.mem_iff_getElem?.mp hh
      rw [hin j hj, hnew hh]
      constructor
      · intro he
        injection he with he
        exact (hl _ he.symm).elim
      · intro he
        cases he
    · rw [hout hh]

/-- A segment filed in a dataset whose columns are its arrays. -/
theorem Fits.becomes (hs : s.Valid) {name : String} {st : DatasetState Hash32} {d : D}
    (hst : FMap.get s.datasets name = some st) (hd : FMap.get s.single name = some d)
    (hfree : st.columns = List.replicate seg.length none)
    (hcolumn : ∀ c i, seg[c]? = some i → st.column d c = i.2) :
    Becomes s (refiled s name st (seg.map fun i => some i.1)
      (seg.zipIdx.foldl (fun m i => m.insert i.1.1 (.packed name i.2)) s.byHash))
      (orInserted s.array seg) := by
  obtain ⟨hcols, hrest⟩ := hfit.refile hs hst hfree
  have hlen : (seg.map fun i => some i.1).length = st.columns.length := by
    rw [List.length_map, hfree, List.length_replicate]
  refine ⟨hs.refile hst hlen hcols hrest, ?_, rfl, id⟩
  funext h
  by_cases hh : h ∈ seg.map Prod.fst
  · obtain ⟨i, hi, rfl⟩ := List.mem_map.mp hh
    obtain ⟨c, hc⟩ := List.mem_iff_getElem?.mp hi
    obtain ⟨hin, -, -⟩ := hs.array_refile hst hd hlen hcols hrest i.1
    have hcol : (seg.map fun i => some i.1)[c]? = some (some i.1) := by
      rw [List.getElem?_map, hc]
      rfl
    rw [hin c hcol, hcolumn c i hc]
    unfold orInserted
    rw [(hs.array_eq_none i.1).mpr (hfit.new i hi), lookup_of_nodup hfit.nodup hi]
    rfl
  · rw [orInserted_of_not_mem hh]
    exact hs.array_refile_same hst hd hlen hcols hrest
      ((get_fileAll name hfit.nodup 0 s.byHash h).2 hh)

/-- The elements of a segment written: they are its arrays, step by step. -/
theorem Fits.written {d d' : D} (htype : H5Dataset.elementType d = some k.dtype.written)
    (hshape : H5Dataset.shape d = k.length :: seg.length :: k.elementShape) {buf : List UInt8}
    (hbuf : interleave k seg = .ok buf)
    (hw : H5Library.writeSlice d k.dtype
      (packedBlockRanges (0, k.length) (0, seg.length) k.elementShape) buf = .ok d') :
    SameLayout d d' ∧ LawfulH5Dataset.content d' = buf := by
  rw [hfit.interleave_eq] at hbuf
  have hlen : buf.length = (H5Dataset.shape d).prod * k.dtype.size := by
    cases hbuf
    rw [length_flatMap_range fun t ht => length_rowOf (fun c hc => hfit.bytes_length hc) ht,
      hshape, List.length_map, elementBlockBytes]
    simp only [List.prod_cons]
    ring
  have hranges : packedBlockRanges (0, k.length) (0, seg.length) k.elementShape =
      wholeRanges (H5Dataset.shape d) := by
    rw [hshape]
    rfl
  rw [hranges] at hw
  obtain ⟨htype', hshape', hcontent⟩ := LawfulH5Library.writeSlice_ok (t := k.dtype)
    htype (inBounds_whole _) (by rw [boxSize_whole, hlen]) hw
  have hcl := LawfulH5Dataset.content_length htype
  rw [Dtype.written_size] at hcl
  rw [fillSlab_whole hlen hcl] at hcontent
  exact ⟨⟨htype', hshape'⟩, hcontent⟩

omit hfit in
/-- The companion of a segment written: a row for each of its arrays. -/
theorem rows_written {c c' : D} (htype : H5Dataset.elementType c = some .u8)
    (hshape : H5Dataset.shape c = [seg.length, 64])
    (hw : H5Library.writeSlice c .bool [(0, seg.length), (0, 64)]
      (seg.flatMap fun i => hashRow (some i.1)) = .ok c') :
    SameLayout c c' ∧ LawfulH5Dataset.content c' = seg.flatMap fun i => hashRow (some i.1) := by
  have hranges : [(0, seg.length), (0, 64)] = wholeRanges (H5Dataset.shape c) := by
    rw [hshape]
    rfl
  have hlen : (seg.flatMap fun i => hashRow (some i.1)).length =
      (H5Dataset.shape c).prod * Dtype.bool.size := by
    rw [length_flatMap_blocks fun i _ => hashRow_length (some i.1), hshape]
    simp [Dtype.size]
  rw [hranges] at hw
  obtain ⟨htype', hshape', hcontent⟩ := LawfulH5Library.writeSlice_ok (t := .bool)
    htype (inBounds_whole _) (by rw [boxSize_whole, hlen]) hw
  have hcl := LawfulH5Dataset.content_length (t := .u8) htype
  rw [fillSlab_whole hlen hcl] at hcontent
  exact ⟨⟨htype', hshape'⟩, hcontent⟩

/-- **A segment.**  All its arrays are in the map after success, and none after failure. -/
theorem putPackedSegment_spec (hs : s.Valid) :
    (putPackedSegment seg k).wp (fun r s' => match r with
      | .error _ => Steady s s'
      | .ok _ => Becomes s s' (orInserted s.array seg)) s := by
  unfold putPackedSegment
  simp only [Cmd.wp_bind, Cmd.wp_get]
  refine Cmd.wp_mono (createPackedDataset_spec hs _ k (some seg.length)) fun r t h₁ => ?_
  obtain ⟨hsteady, h₁⟩ := h₁
  cases r with
  | error e => exact hsteady
  | ok u =>
    obtain ⟨hhash, hst⟩ := h₁
    rw [hfit.width] at hst
    generalize String.ofList (spillName (datasetBaseName k)
      ((FMap.get s.datasetGroups k).getD []).length) = name at hst ⊢
    have ht := hsteady.valid
    obtain ⟨d, c, hd, hdesc, -, hc, hctype, hcshape⟩ := ht.dataset hst
    have hwidth : (List.replicate seg.length (none : Option Hash32)).length = seg.length :=
      List.length_replicate
    have hshape : H5Dataset.shape d = k.length :: seg.length :: k.elementShape := by
      rw [hdesc.shape]
      show k.length :: (List.replicate seg.length (none : Option Hash32)).length :: _ = _
      rw [hwidth]
    have hbuf := hfit.interleave_eq
    simp only [Cmd.wp_ofExcept]
    rw [hbuf]
    simp only
    generalize hbytes : ((List.range k.length).flatMap fun t =>
      (seg.map fun i => i.2.bytes).flatMap fun c =>
        (c.drop (t * elementBlockBytes k.dtype k.elementShape)).take
          (elementBlockBytes k.dtype k.elementShape)) = buf at hbuf
    refine Cmd.wp_mono (writeSel_spec _ _ _ _ _ _ t) fun r₂ t₂ h₂ => ?_
    obtain ⟨hshift₂, -, h₂⟩ := h₂
    cases r₂ with
    | error e =>
      exact hsteady.trans (ht.keeps (.of_kept hshift₂ fun n e he => by rw [h₂, he]))
    | ok u =>
      obtain ⟨d₀, d', hd₀, hw, hsingle⟩ := h₂
      rw [hd] at hd₀
      cases hd₀
      obtain ⟨hlay, hcontent⟩ := hfit.written hdesc.elementType hshape hbuf hw
      have hkeep₂ : Keeps t t₂ :=
        ht.keeps_dataset hshift₂ hst hd hlay (fun {c h} hc => (get_replicate_none hc).elim) hsingle
      have ht₂ := (ht.keeps hkeep₂).valid
      have hidx₂ := hshift₂.index
      have hst₂ : FMap.get t₂.datasets name = some
          { hashName := companionName name, dtype := k.dtype, elementShape := k.elementShape,
            length := k.length, columns := List.replicate seg.length none } := by
        rw [hidx₂]
        exact hst
      obtain ⟨-, c₂, -, -, -, hc₂, hctype₂, hcshape₂⟩ := ht₂.dataset hst₂
      simp only
      refine Cmd.wp_mono (writeSel_spec _ _ _ _ _ _ t₂) fun r₃ t₃ h₃ => ?_
      obtain ⟨hshift₃, -, h₃⟩ := h₃
      cases r₃ with
      | error e =>
        exact (hsteady.trans (ht.keeps hkeep₂)).trans
          (ht₂.keeps (.of_kept hshift₃ fun n e he => by rw [h₃, he]))
      | ok u =>
        obtain ⟨c₀, c', hc₀, hw₃, hsingle₃⟩ := h₃
        rw [hc₂] at hc₀
        cases hc₀
        have hcshape₂ : H5Dataset.shape c₂ = [seg.length, 64] := hcshape₂.trans (by rw [hwidth])
        have hkeep₃ : Keeps t₂ t₃ :=
          ht₂.keeps_companion hshift₃ (by rw [hst₂]; rfl) hc₂ (rows_written hctype₂ hcshape₂ hw₃).1 hsingle₃
        have hall := (hsteady.trans (ht.keeps hkeep₂)).trans (ht₂.keeps hkeep₃)
        have hidx₃ := hshift₃.index
        have hst₃ : FMap.get t₃.datasets name = some
            { hashName := companionName name, dtype := k.dtype, elementShape := k.elementShape,
              length := k.length, columns := List.replicate seg.length none } := by
          rw [hidx₃]
          exact hst₂
        have hd₃ : FMap.get t₃.single name = some d' := by
          rw [hsingle₃, FMap.get_insert, Function.update_of_ne (companionName_ne name).symm, hsingle,
            FMap.get_insert, Function.update_self]
        have hfit₃ : t₃.Fits k seg := by
          refine ⟨hfit.storable, hfit.pool, hfit.nodup, fun i hi => ?_, hfit.width⟩
          rw [hidx₃, hidx₂]
          show FMap.get t.byHash i.1 = none
          rw [hhash, hfit.new i hi]
        simp only
        rw [Hdf5Backend.datasetState_eq hst₃]
        simp only [Cmd.wp_modify, List.drop_replicate, Nat.sub_self, List.replicate_zero,
          List.append_nil]
        have hdone := hfit₃.becomes hall.valid hst₃ hd₃ rfl ?_
        · rw [hall.array] at hdone
          exact hall.trans_becomes hdone
        · intro col i hi
          obtain ⟨hdtype, hish⟩ := hfit.pool i (List.mem_of_getElem? hi)
          unfold DatasetState.column DatasetState.columnShape
          simp only
          rw [hcontent, hwidth, ← hdtype, ← hish]
          have hcols := columnOf_interleaved (fun c hc => hfit.bytes_length hc)
            (show (seg.map fun i => i.2.bytes)[col]? = some i.2.bytes by rw [List.getElem?_map, hi]; rfl)
          rw [List.length_map, hbytes] at hcols
          have hblock : k.elementShape.prod * i.2.dtype.size =
              elementBlockBytes k.dtype k.elementShape := by
            rw [hdtype]
            rfl
          rw [hblock, hcols]

end

/-! ### Blocks -/

section

variable {stored : Hash32 → Bool}

/-- The items of a block that are new. -/
def selected (stored : Hash32 → Bool) (seen : List Hash32) (items : List (Hash32 × TypedArray)) :
    List (Hash32 × TypedArray) :=
  ((items.zip (selectNew stored seen items)).filter Prod.snd).map Prod.fst

theorem selected_cons (seen : List Hash32) (i : Hash32 × TypedArray)
    (items : List (Hash32 × TypedArray)) : selected stored seen (i :: items) =
      if stored i.1 || seen.contains i.1 then selected stored seen items
      else i :: selected stored (i.1 :: seen) items := by
  unfold selected
  rw [selectNew]
  split
  · rw [List.zip_cons_cons, List.filter_cons_of_neg (by simp)]
  · rw [List.zip_cons_cons, List.filter_cons_of_pos (by simp), List.map_cons]

theorem length_selectNew (seen : List Hash32) (items : List (Hash32 × TypedArray)) :
    (selectNew stored seen items).length = items.length := by
  induction items generalizing seen with
  | nil => rfl
  | cons i items ih =>
    rw [selectNew]
    split
    · rw [List.length_cons, ih, List.length_cons]
    · rw [List.length_cons, ih, List.length_cons]

theorem mem_selected {seen : List Hash32} {items : List (Hash32 × TypedArray)}
    {i : Hash32 × TypedArray} (h : i ∈ selected stored seen items) :
    i ∈ items ∧ stored i.1 = false ∧ i.1 ∉ seen := by
  induction items generalizing seen with
  | nil => cases h
  | cons j items ih =>
    rw [selected_cons] at h
    split at h
    · obtain ⟨hi, hrest⟩ := ih h
      exact ⟨List.mem_cons_of_mem j hi, hrest⟩
    · rename_i hnew
      rw [Bool.or_eq_true, not_or, Bool.not_eq_true, List.contains_iff_mem] at hnew
      rcases List.mem_cons.mp h with heq | h
      · rw [heq]
        exact ⟨List.mem_cons_self, hnew⟩
      · obtain ⟨hi, hs, hseen⟩ := ih h
        exact ⟨List.mem_cons_of_mem j hi, hs, fun hmem => hseen (List.mem_cons_of_mem _ hmem)⟩

theorem selected_nodup (seen : List Hash32) (items : List (Hash32 × TypedArray)) :
    ((selected stored seen items).map Prod.fst).Nodup := by
  induction items generalizing seen with
  | nil => exact List.nodup_nil
  | cons i items ih =>
    rw [selected_cons]
    split
    · exact ih seen
    · rw [List.map_cons, List.nodup_cons]
      refine ⟨fun hmem => ?_, ih _⟩
      obtain ⟨j, hj, heq⟩ := List.mem_map.mp hmem
      exact (mem_selected hj).2.2 (heq ▸ List.mem_cons_self)

theorem mem_selected_keys {seen : List Hash32} {items : List (Hash32 × TypedArray)} {h : Hash32}
    (hs : stored h = false) (hseen : h ∉ seen) (hin : h ∈ items.map Prod.fst) :
    h ∈ (selected stored seen items).map Prod.fst := by
  induction items generalizing seen with
  | nil => cases hin
  | cons i items ih =>
    rw [selected_cons]
    by_cases hh : h = i.1
    · have hnew : (stored i.1 || seen.contains i.1) = false := by
        rw [← hh, hs, Bool.false_or, ← Bool.not_eq_true, List.contains_iff_mem]
        exact hseen
      rw [hnew, if_neg Bool.false_ne_true, List.map_cons, hh]
      exact List.mem_cons_self
    · have hin : h ∈ items.map Prod.fst := (List.mem_cons.mp hin).resolve_left hh
      split
      · exact ih hseen hin
      · refine List.mem_cons_of_mem _ (ih (fun hmem => ?_) hin)
        exact hseen ((List.mem_cons.mp hmem).resolve_left hh)

/-- The new items make of a map what all the items make of it. -/
theorem orInserted_selected {seen : List Hash32} (items : List (Hash32 × TypedArray))
    (m : Hash32 → Option TypedArray) (hm : ∀ h, (m h).isSome ↔ stored h = true ∨ h ∈ seen) :
    orInserted m (selected stored seen items) = orInserted m items := by
  induction items generalizing seen m with
  | nil => rfl
  | cons i items ih =>
    rw [selected_cons]
    split
    · rename_i hold
      rw [Bool.or_eq_true, List.contains_iff_mem] at hold
      exact (ih m hm).trans (MemoryBackend.orInserted_cons_held m i.1 i.2 items ((hm i.1).mpr hold)).symm
    · rename_i hnew
      rw [Bool.or_eq_true, List.contains_iff_mem, ← hm, Bool.not_eq_true,
        Option.isSome_eq_false_iff, Option.isNone_iff_eq_none] at hnew
      have hnext : ∀ h, (Function.update m i.1 (some i.2) h).isSome ↔
          stored h = true ∨ h ∈ i.1 :: seen := by
        intro h
        rw [List.mem_cons, Function.update_apply]
        by_cases hh : h = i.1
        · rw [if_pos hh]
          exact ⟨fun _ => .inr (.inl hh), fun _ => rfl⟩
        · rw [if_neg hh, hm, or_iff_right hh]
      exact (MemoryBackend.orInserted_cons m i.1 i.2 _ hnew).trans
        ((ih _ hnext).trans (MemoryBackend.orInserted_cons m i.1 i.2 items hnew).symm)

/-- A hash is flagged as written when it is new and among the items. -/
theorem flagged_iff (items : List (Hash32 × TypedArray)) (h : Hash32) :
    (∃ p ∈ items.zip (selectNew stored [] items), p.1.1 = h ∧ p.2 = true) ↔
      stored h = false ∧ ∃ i ∈ items, i.1 = h := by
  have hsel : (∃ p ∈ items.zip (selectNew stored [] items), p.1.1 = h ∧ p.2 = true) ↔
      h ∈ (selected stored [] items).map Prod.fst := by
    constructor
    · intro hex
      obtain ⟨p, hp, heq, hflag⟩ := hex
      exact List.mem_map.mpr
        ⟨p.1, List.mem_map.mpr ⟨p, List.mem_filter.mpr ⟨hp, hflag⟩, rfl⟩, heq⟩
    · intro hmem
      obtain ⟨i, hi, heq⟩ := List.mem_map.mp hmem
      obtain ⟨p, hp, hpi⟩ := List.mem_map.mp hi
      obtain ⟨hp, hflag⟩ := List.mem_filter.mp hp
      exact ⟨p, hp, by rw [hpi, heq], hflag⟩
  rw [hsel]
  constructor
  · intro hmem
    obtain ⟨i, hi, heq⟩ := List.mem_map.mp hmem
    obtain ⟨hin, hs, -⟩ := mem_selected hi
    exact ⟨heq ▸ hs, i, hin, heq⟩
  · intro hex
    obtain ⟨hs, i, hi, heq⟩ := hex
    exact mem_selected_keys hs List.not_mem_nil (List.mem_map.mpr ⟨i, hi, heq⟩)

end

/-- The segments of a block are its items, and each is as wide as its dataset. -/
theorem segmentsOf_spec {α : Type} (dtype : Dtype) (elementShape : List ℕ) (fuel : ℕ) (items : List α)
    (h : items.length ≤ fuel) :
    (segmentsOf dtype elementShape fuel items).flatten = items ∧
      ∀ seg ∈ segmentsOf dtype elementShape fuel items,
        resolveDatasetCols (some seg.length) dtype elementShape = seg.length := by
  induction fuel generalizing items with
  | zero =>
    rw [List.length_eq_zero_iff.mp (Nat.le_zero.mp h)]
    exact ⟨rfl, fun seg hseg => by cases hseg⟩
  | succ fuel ih =>
    cases items with
    | nil => exact ⟨rfl, fun seg hseg => by cases hseg⟩
    | cons i items =>
      have hpos := resolveDatasetCols_pos (some (i :: items).length) dtype elementShape
      have hle := resolveDatasetCols_le (Nat.succ_pos items.length) dtype elementShape
      have hidem := resolveDatasetCols_idem (some (i :: items).length) dtype elementShape
      rw [List.length_cons] at h hpos hidem
      have hrest : ((i :: items).drop
          (resolveDatasetCols (some (i :: items).length) dtype elementShape)).length ≤ fuel := by
        rw [List.length_drop, List.length_cons]
        omega
      obtain ⟨hflat, hwidths⟩ := ih _ hrest
      have hunfold : segmentsOf dtype elementShape (fuel + 1) (i :: items) =
          (i :: items).take (resolveDatasetCols (some (i :: items).length) dtype elementShape) ::
            segmentsOf dtype elementShape fuel ((i :: items).drop
              (resolveDatasetCols (some (i :: items).length) dtype elementShape)) := rfl
      rw [hunfold, List.flatten_cons, hflat, List.take_append_drop]
      refine ⟨rfl, fun seg hseg => ?_⟩
      rcases List.mem_cons.mp hseg with heq | hseg
      · rw [heq, List.length_take, List.length_cons, Nat.min_eq_left hle]
        exact hidem
      · exact hwidths seg hseg

/-- **Taking back.**  No array but those named is lost, and where removals do not fail those are. -/
theorem unwindSegments_spec {s : Hdf5File D} (hs : s.Valid) (items : List (Hash32 × TypedArray)) :
    (unwindSegments items).wp (fun r s' => r = .ok () ∧ s'.Valid ∧ s'.vector = s.vector ∧
      (s.Quiet → s'.Quiet ∧ ∀ h ∈ items.map Prod.fst, s'.array h = none) ∧
      ∀ h, s'.array h = s.array h ∨ h ∈ items.map Prod.fst ∧ s'.array h = none) s := by
  induction items generalizing s with
  | nil => exact ⟨rfl, hs, rfl, fun hq => ⟨hq, fun h hh => by cases hh⟩, fun h => .inl rfl⟩
  | cons i items ih =>
    rw [unwindSegments]
    simp only [Cmd.wp_bind, Cmd.wp_attempt]
    refine Cmd.wp_mono (removeArrayLocked_spec hs i.1) fun r t h₁ => ?_
    obtain ⟨hquiet, h₁⟩ := h₁
    have hstep : t.Valid ∧ t.vector = s.vector ∧ (s.Quiet → t.array i.1 = none) ∧
        ∀ h, t.array h = s.array h ∨ h = i.1 ∧ t.array h = none := by
      cases r with
      | error e =>
        refine ⟨h₁.valid, h₁.vector, fun hq => ?_, fun h => .inl (by rw [h₁.array])⟩
        cases (hquiet hq).2
      | ok u =>
        refine ⟨h₁.valid, h₁.vector, fun _ => by rw [h₁.array, Function.update_self], fun h => ?_⟩
        by_cases hh : h = i.1
        · exact .inr ⟨hh, by rw [h₁.array, hh, Function.update_self]⟩
        · exact .inl (by rw [h₁.array, Function.update_of_ne hh])
    obtain ⟨ht, hvec, hgone, hmap⟩ := hstep
    refine Cmd.wp_mono (ih ht) fun r' s' h₂ => ?_
    obtain ⟨hr, hs', hvec', hquiet', hmap'⟩ := h₂
    refine ⟨hr, hs', hvec'.trans hvec, fun hq => ?_, fun h => ?_⟩
    · obtain ⟨hq', hall⟩ := hquiet' (hquiet hq).1
      refine ⟨hq', fun h hh => ?_⟩
      rcases List.mem_cons.mp hh with heq | hh
      · rcases hmap' h with hsame | hnone
        · rw [hsame, heq, hgone hq]
        · exact hnone.2
      · exact hall h hh
    · rcases hmap' h with hsame | hnone
      · rcases hmap h with hold | hgone
        · exact .inl (hsame.trans hold)
        · exact .inr ⟨hgone.1 ▸ List.mem_cons_self, hsame.trans hgone.2⟩
      · exact .inr ⟨List.mem_cons_of_mem _ hnone.1, hnone.2⟩

theorem orInserted_append {K V : Type} [DecidableEq K] (m : K → Option V) (a b : List (K × V)) :
    orInserted (orInserted m a) b = orInserted m (a ++ b) := by
  funext h
  unfold orInserted
  rw [List.lookup_append, Option.or_assoc]

/-- The items of a block that are to be written: of one pool, none stored and none twice. -/
structure New (s : Hdf5File D) (k : PoolKey Hash32) (items : List (Hash32 × TypedArray)) : Prop where
  storable : ∀ i ∈ items, i.2.Storable
  pool : ∀ i ∈ items, i.2.dtype = k.dtype ∧ i.2.shape = k.length :: k.elementShape
  nodup : (items.map Prod.fst).Nodup
  new : ∀ i ∈ items, s.array i.1 = none

/-- The next segment of a block fits its dataset. -/
theorem New.fits {s₀ s : Hdf5File D} {k : PoolKey Hash32} {items done seg : List (Hash32 × TypedArray)}
    {rest : List (List (Hash32 × TypedArray))} (hnew : s₀.New k items)
    (hwidths : ∀ seg' ∈ seg :: rest,
      resolveDatasetCols (some seg'.length) k.dtype k.elementShape = seg'.length)
    (hitems : items = done ++ (seg :: rest).flatten) (hs : Becomes s₀ s (orInserted s₀.array done)) :
    s.Fits k seg := by
  have hseg : ∀ i ∈ seg, i ∈ items := by
    intro i hi
    rw [hitems, List.flatten_cons]
    exact List.mem_append_right _ (List.mem_append_left _ hi)
  have hkeys : (items.map Prod.fst) = done.map Prod.fst ++
      (seg.map Prod.fst ++ rest.flatten.map Prod.fst) := by
    rw [hitems, List.flatten_cons, List.map_append, List.map_append]
  have hnd := hnew.nodup
  rw [hkeys, List.nodup_append] at hnd
  obtain ⟨hnd₁, hnd₂, hdisj⟩ := hnd
  refine ⟨fun i hi => hnew.storable i (hseg i hi), fun i hi => hnew.pool i (hseg i hi),
    (List.nodup_append.mp hnd₂).1, fun i hi => ?_, hwidths seg List.mem_cons_self⟩
  rw [← hs.valid.array_eq_none, hs.array, orInserted_of_not_mem, hnew.new i (hseg i hi)]
  intro hmem
  exact hdisj i.1 hmem i.1 (List.mem_append_left _ (List.mem_map.mpr ⟨i, hi, rfl⟩)) rfl

/-- **Segments.**  After success all the arrays are in the map; after failure it is what it was before
the first of them, but for arrays whose removal failed. -/
theorem putSegments_spec {s₀ : Hdf5File D} {k : PoolKey Hash32} {items : List (Hash32 × TypedArray)}
    (hnew : s₀.New k items) (segs : List (List (Hash32 × TypedArray)))
    (hwidths : ∀ seg ∈ segs, resolveDatasetCols (some seg.length) k.dtype k.elementShape = seg.length)
    (done : List (Hash32 × TypedArray)) (hitems : items = done ++ segs.flatten) {s : Hdf5File D}
    (hs : Becomes s₀ s (orInserted s₀.array done)) :
    (putSegments k done segs).wp (fun r s' => s'.Valid ∧ (s₀.Quiet → s'.Quiet) ∧
      s'.vector = s₀.vector ∧ match r with
      | .ok _ => s'.array = orInserted s₀.array items
      | .error _ => (∀ h, s'.array h = s₀.array h ∨ s'.array h = orInserted s₀.array items h) ∧
        (s₀.Quiet → s'.array = s₀.array)) s := by
  induction segs generalizing done s with
  | nil =>
    rw [hitems, List.flatten_nil, List.append_nil]
    exact ⟨hs.valid, hs.quiet, hs.vector, hs.array⟩
  | cons seg rest ih =>
    have hfit := hnew.fits hwidths hitems hs
    unfold putSegments
    simp only [Cmd.wp_bind, Cmd.wp_attempt]
    refine Cmd.wp_mono (putPackedSegment_spec hfit hs.valid) fun r t h₁ => ?_
    cases r with
    | ok u =>
      simp only
      refine ih (fun seg hmem => hwidths seg (List.mem_cons_of_mem _ hmem)) (done ++ seg) ?_ ?_
      · rw [hitems, List.flatten_cons, List.append_assoc]
      · refine ⟨h₁.valid, ?_, h₁.vector.trans hs.vector, fun hq => h₁.quiet (hs.quiet hq)⟩
        rw [h₁.array, hs.array, orInserted_append]
    | error e =>
      simp only [Cmd.wp_bind]
      refine Cmd.wp_mono (unwindSegments_spec h₁.valid done) fun r₂ s' h₂ => ?_
      obtain ⟨hr, hs', hvec, hquiet, hmap⟩ := h₂
      cases hr
      simp only [Cmd.wp_throw]
      have harr : t.array = orInserted s₀.array done := h₁.array.trans hs.array
      have hheld : ∀ h ∈ done.map Prod.fst, s₀.array h = none := by
        intro h hh
        obtain ⟨i, hi, rfl⟩ := List.mem_map.mp hh
        exact hnew.new i (by rw [hitems]; exact List.mem_append_left _ hi)
      refine ⟨hs', fun hq => (hquiet (h₁.quiet (hs.quiet hq))).1,
        hvec.trans (h₁.vector.trans hs.vector), fun h => ?_, fun hq => ?_⟩
      · rcases hmap h with hsame | hgone
        · by_cases hh : h ∈ done.map Prod.fst
          · right
            rw [hsame, harr, hitems, ← orInserted_append]
            obtain ⟨i, hi, rfl⟩ := List.mem_map.mp hh
            have hsome := orInserted_isSome (m := s₀.array) hi
            obtain ⟨a, ha⟩ := Option.isSome_iff_exists.mp hsome
            rw [ha]
            show _ = (orInserted s₀.array done i.1).or _
            rw [ha]
            rfl
          · exact .inl (by rw [hsame, harr, orInserted_of_not_mem hh])
        · exact .inl (by rw [hgone.2, hheld h hgone.1])
      · funext h
        by_cases hh : h ∈ done.map Prod.fst
        · rw [(hquiet (h₁.quiet (hs.quiet hq))).2 h hh, hheld h hh]
        · rcases hmap h with hsame | hgone
          · rw [hsame, harr, orInserted_of_not_mem hh]
          · exact (hh hgone.1).elim

omit [H5Library D] [LawfulH5Library D] in
theorem ensureWritable_spec (s : Hdf5File D) :
    ensureWritable.wp (fun r s' => s' = s ∧ (s.Quiet → r = .ok ())) s := by
  unfold ensureWritable
  simp only [Cmd.wp_bind, Cmd.wp_get]
  split
  · rename_i hro
    refine ⟨rfl, fun hq => ?_⟩
    rw [hq.1] at hro
    cases hro
  · exact ⟨rfl, fun _ => rfl⟩

/-- The new items of a block are of one pool, and cut into segments that fit their datasets. -/
theorem new_selected {t : Hdf5File D} (hs : t.Valid) {items : List (Hash32 × TypedArray)}
    (group : PackGroup Hash32) (hstorable : ∀ i ∈ items, i.2.Storable)
    (hshapes : ∀ i ∈ items, ∀ j ∈ items, i.2.dtype = j.2.dtype ∧ i.2.shape = j.2.shape)
    {first : Hash32 × TypedArray} {rest : List (Hash32 × TypedArray)}
    (hsel : selected (fun h => (FMap.get t.byHash h).isSome) [] items = first :: rest) :
    t.New (poolKey first.2 group) (first :: rest) ∧
      (∀ seg ∈ segmentsOf (poolKey first.2 group).dtype (poolKey first.2 group).elementShape
        (first :: rest).length (first :: rest), resolveDatasetCols (some seg.length)
          (poolKey first.2 group).dtype (poolKey first.2 group).elementShape = seg.length) ∧
      (segmentsOf (poolKey first.2 group).dtype (poolKey first.2 group).elementShape
        (first :: rest).length (first :: rest)).flatten = first :: rest := by
  have hmem : ∀ {i}, i ∈ first :: rest → i ∈ items ∧ t.array i.1 = none := by
    intro i hi
    obtain ⟨hin, hnot, -⟩ := mem_selected (hsel ▸ hi)
    rw [Option.isSome_eq_false_iff, Option.isNone_iff_eq_none] at hnot
    exact ⟨hin, (hs.array_eq_none i.1).mpr hnot⟩
  have hfirst := (hmem List.mem_cons_self).1
  have hnew : t.New (poolKey first.2 group) (first :: rest) := by
    refine ⟨fun i hi => hstorable i (hmem hi).1, fun i hi => ?_, ?_, fun i hi => (hmem hi).2⟩
    · obtain ⟨hdtype, hshape⟩ := hshapes i (hmem hi).1 first hfirst
      exact ⟨hdtype, hshape.trans (shape_eq_cons (hstorable first hfirst).2)⟩
    · rw [← hsel]
      exact selected_nodup [] items
  obtain ⟨hflat, hwidths⟩ := segmentsOf_spec (poolKey first.2 group).dtype
    (poolKey first.2 group).elementShape (first :: rest).length (first :: rest) le_rfl
  exact ⟨hnew, hwidths, hflat⟩

/-- **A block.**  After success all its arrays are in the map, and those flagged are the ones that were
not; after failure each array is there or not as before, or as after, the block. -/
theorem putPackedBlock_spec {s : Hdf5File D} (hs : s.Valid) {items : List (Hash32 × TypedArray)}
    (group : PackGroup Hash32) (hstorable : ∀ i ∈ items, i.2.Storable)
    (hshapes : ∀ i ∈ items, ∀ j ∈ items, i.2.dtype = j.2.dtype ∧ i.2.shape = j.2.shape) :
    (putPackedBlock items group).wp (fun r s' => s'.Valid ∧ (s.Quiet → s'.Quiet) ∧
      s'.vector = s.vector ∧ match r with
      | .ok written => s'.array = orInserted s.array items ∧ written.length = items.length ∧
        ∀ h, (∃ p ∈ items.zip written, p.1.1 = h ∧ p.2 = true) ↔
          s.array h = none ∧ ∃ i ∈ items, i.1 = h
      | .error _ => (∀ h, s'.array h = s.array h ∨ s'.array h = orInserted s.array items h) ∧
        (s.Quiet → s'.array = s.array)) s := by
  unfold putPackedBlock
  rw [Cmd.wp_bind]
  refine Cmd.wp_mono (ensureWritable_spec s) fun r t h₁ => ?_
  obtain ⟨rfl, -⟩ := h₁
  cases r with
  | error e => exact ⟨hs, id, rfl, fun h => .inl rfl, fun _ => rfl⟩
  | ok u =>
    simp only [Cmd.wp_bind, Cmd.wp_get]
    have hmap : orInserted t.array (selected (fun h => (FMap.get t.byHash h).isSome) [] items) =
        orInserted t.array items := by
      refine orInserted_selected items t.array fun h => ?_
      rw [hs.array_isSome, or_iff_left List.not_mem_nil]
    have hflags : ∀ h, (∃ p ∈ items.zip (selectNew (fun h => (FMap.get t.byHash h).isSome) [] items),
        p.1.1 = h ∧ p.2 = true) ↔ t.array h = none ∧ ∃ i ∈ items, i.1 = h := by
      intro h
      rw [flagged_iff, hs.array_eq_none, Option.isSome_eq_false_iff, Option.isNone_iff_eq_none]
    have hlen : (selectNew (fun h => (FMap.get t.byHash h).isSome) [] items).length = items.length :=
      length_selectNew [] items
    cases hsel : selected (fun h => (FMap.get t.byHash h).isSome) [] items with
    | nil =>
      rw [hsel] at hmap
      unfold selected at hsel
      rw [hsel]
      refine ⟨hs, id, rfl, ?_, hlen, hflags⟩
      rw [← hmap]
      exact (orInserted_of_held fun it hit => by cases hit).symm
    | cons first rest =>
      obtain ⟨hnew, hwidths, hflat⟩ := new_selected hs group hstorable hshapes hsel
      have hsegs := putSegments_spec hnew _ hwidths [] (by rw [hflat, List.nil_append])
        (s := t) ⟨hs, (orInserted_of_held fun it hit => by cases hit).symm, rfl, id⟩
      rw [← hsel, hmap, hsel] at hsegs
      unfold selected at hsel
      rw [hsel]
      simp only [Cmd.wp_bind]
      refine Cmd.wp_mono hsegs fun r s' h₂ => ?_
      obtain ⟨hv, hq, hvec, h₂⟩ := h₂
      cases r with
      | error e => exact ⟨hv, hq, hvec, h₂⟩
      | ok u => exact ⟨hv, hq, hvec, h₂, hlen, hflags⟩

end Hdf5File

end InfraStore
