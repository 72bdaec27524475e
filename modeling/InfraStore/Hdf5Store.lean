import InfraStore.Hdf5Reads
import InfraStore.Hdf5Writes

/-!
# The HDF5 backend as a finite map

The finite maps a file stands for, the invariant that ties the index to the file, and the changes of
either that leave the maps alone or change them in one place.

* `Hdf5File.Valid`: the index describes the file, and no two names of the file are confused;
* `Hdf5File.array`, `Hdf5File.vector`: the finite maps the file stands for;
* `Keeps`, `Valid.keeps`: what a step may change of the file without changing the maps;
* `Valid.addDataset`, `Valid.refile`: how the index takes in a new dataset and other columns.
-/

namespace InfraStore

open Lib

instance : ToString Hash32 := ⟨fun h => String.ofList (hashHex h)⟩

/-! ### Names -/

theorem companionName_injective {a b : String} (h : companionName a = companionName b) : a = b := by
  have hl := congrArg String.toList h
  unfold companionName at hl
  rw [String.toList_append, String.toList_append] at hl
  exact String.toList_inj.mp (List.append_cancel_right hl)

theorem companionName_ne (a : String) : companionName a ≠ a := by
  intro h
  have hl := congrArg (fun s => s.toList.length) h
  unfold companionName at hl
  simp [hashSuffix] at hl

theorem hashHex_injective {a b : Hash32} (h : hashHex a = hashHex b) : a = b := by
  have hs := hashFromHex_hashHex a
  rw [h, hashFromHex_hashHex] at hs
  exact (Option.some.inj hs).symm

theorem standaloneName_injective {a b : Hash32} (h : standaloneName a = standaloneName b) : a = b := by
  have hl := congrArg String.toList h
  unfold standaloneName at hl
  rw [String.toList_ofList, String.toList_ofList] at hl
  exact hashHex_injective (List.append_cancel_left hl)

theorem timestampsDatasetName_injective {a b : Hash32}
    (h : timestampsDatasetName a = timestampsDatasetName b) : a = b := by
  have hl := congrArg String.toList h
  unfold timestampsDatasetName at hl
  rw [String.toList_ofList, String.toList_ofList] at hl
  exact hashHex_injective (List.append_cancel_left hl)

theorem hashRow_length (h : Option Hash32) : (hashRow h).length = 64 := by
  cases h with
  | none => rfl
  | some h =>
    have hascii : ∀ c ∈ hashHex h, c.toNat < 128 := fun c hc => (hashHex_spec h c hc).1
    show (utf8 (hashHex h)).length = 64
    rw [TimeReference.utf8_ascii hascii, List.length_map, length_hashHex]

/-! ### Sizes -/

theorem foldlM_checkedMul_mono {shape : List ℕ} {a b n : ℕ} (hba : b ≤ a)
    (h : shape.foldlM checkedMul a = some n) : ∃ m, shape.foldlM checkedMul b = some m ∧ m ≤ n := by
  induction shape generalizing a b with
  | nil =>
    cases h
    exact ⟨b, rfl, hba⟩
  | cons d shape ih =>
    rw [List.foldlM_cons] at h ⊢
    obtain ⟨c, hc, h⟩ := Option.bind_eq_some_iff.mp h
    have hle : b * d ≤ a * d := Nat.mul_le_mul_right d hba
    unfold checkedMul at hc
    split at hc
    · rename_i hlt
      cases hc
      obtain ⟨m, hm, hmn⟩ := ih hle h
      refine ⟨m, ?_, hmn⟩
      show (checkedMul b d).bind _ = _
      unfold checkedMul
      rw [if_pos (by omega)]
      exact hm
    · cases hc

/-- A size that can be counted can be counted without one of its dimensions. -/
theorem expectedBytes_without {t : Dtype} {length cols n : ℕ} {shape : List ℕ} (hcols : 0 < cols)
    (h : expectedBytes t (length :: cols :: shape) = .ok n) :
    ∃ m, expectedBytes t (length :: shape) = .ok m := by
  unfold expectedBytes elementCount at h
  obtain ⟨count, hcount, h⟩ := except_bind_eq_ok.mp h
  cases hfold : (length :: cols :: shape).foldlM checkedMul 1 with
  | none =>
    rw [hfold] at hcount
    cases hcount
  | some n' =>
    rw [hfold] at hcount
    cases hcount
    rw [List.foldlM_cons] at hfold
    obtain ⟨a, ha, hfold⟩ := Option.bind_eq_some_iff.mp hfold
    rw [List.foldlM_cons] at hfold
    obtain ⟨b, hb, hfold⟩ := Option.bind_eq_some_iff.mp hfold
    have hab : a ≤ b := by
      rw [checkedMul_eq_some hb]
      exact Nat.le_mul_of_pos_right a hcols
    obtain ⟨m, hm, hmn⟩ := foldlM_checkedMul_mono hab hfold
    cases hsize : checkedMul count t.size with
    | none =>
      rw [hsize] at h
      cases h
    | some bytes =>
      have hle : m * t.size ≤ count * t.size := Nat.mul_le_mul_right _ hmn
      have hlt : count * t.size < usizeBound := by
        unfold checkedMul at hsize
        split at hsize
        · assumption
        · cases hsize
      refine ⟨m * t.size, except_bind_eq_ok.mpr ⟨m, ?_, ?_⟩⟩
      · unfold elementCount
        rw [List.foldlM_cons, ha]
        rw [show (some a >>= fun a => shape.foldlM checkedMul a) = some m from hm]
      · unfold checkedMul
        rw [if_pos (by omega)]

namespace Hdf5File

variable {D : Type} [H5Library D] [LawfulH5Library D]

/-! ### The maps a file stands for -/

/-- The array of a hash: a column of a packed dataset, or a dataset of its own. -/
def array (s : Hdf5File D) (h : Hash32) : Option TypedArray :=
  match FMap.get s.byHash h with
  | none => none
  | some (.packed name col) =>
    (FMap.get s.datasets name).bind fun st => (FMap.get s.single name).map fun d => st.column d col
  | some (.standalone var) =>
    (FMap.get s.writtenAs h).bind fun t => (FMap.get s.single var).map fun d =>
      ⟨t, H5Dataset.shape d, LawfulH5Dataset.content d⟩

/-- The explicit time axis of a hash. -/
def vector (s : Hdf5File D) (h : Hash32) : Option (List ℤ) :=
  if h ∈ s.timestampHashes then FMap.get s.timestamps (timestampsDatasetName h) else none

/-- No removal fails from here on. -/
def Quiet (s : Hdf5File D) : Prop := s.readOnly = false ∧ ∀ b ∈ s.faults.removals, b = false

/-- A packed dataset is of a pool. -/
def OfPool (st : DatasetState Hash32) (k : PoolKey Hash32) : Prop :=
  st.dtype = k.dtype ∧ st.elementShape = k.elementShape ∧ st.length = k.length

/-- The index describes the file: a hash is in the column it is filed under and in no other, datasets and
companions are laid out as their entries say, and no name is that of two things. -/
structure Valid (s : Hdf5File D) : Prop where
  packed {h : Hash32} {name : String} {col : ℕ} : FMap.get s.byHash h = some (.packed name col) →
    ∃ st, FMap.get s.datasets name = some st ∧ st.columns[col]? = some (some h)
  column {h : Hash32} {name : String} {col : ℕ} {st : DatasetState Hash32} :
    FMap.get s.datasets name = some st → st.columns[col]? = some (some h) →
      FMap.get s.byHash h = some (.packed name col)
  dataset {name : String} {st : DatasetState Hash32} : FMap.get s.datasets name = some st →
    ∃ d c, FMap.get s.single name = some d ∧ st.Describes d ∧ st.hashName = companionName name ∧
      FMap.get s.single (companionName name) = some c ∧ H5Dataset.elementType c = some .u8 ∧
      H5Dataset.shape c = [st.columns.length, 64]
  standalone {h : Hash32} {var : String} : FMap.get s.byHash h = some (.standalone var) →
    var = standaloneName h ∧ var ∈ s.standaloneVars ∧ ∃ d t, FMap.get s.single var = some d ∧
      FMap.get s.writtenAs h = some t ∧ H5Dataset.elementType d = some t.written ∧
      H5Dataset.shape d ≠ [] ∧ ∃ n, expectedBytes t (H5Dataset.shape d) = .ok n
  vars {var : String} : var ∈ s.standaloneVars →
    ∃ h, FMap.get s.byHash h = some (.standalone var)
  companions {name name' : String} : (FMap.get s.datasets name).isSome →
    (FMap.get s.datasets name').isSome → companionName name ≠ name'
  alone {name var : String} : (FMap.get s.datasets name).isSome → var ∈ s.standaloneVars →
    var ≠ name ∧ var ≠ companionName name
  pools {k : PoolKey Hash32} {names : List String} {name : String} :
    FMap.get s.datasetGroups k = some names → name ∈ names →
      ∃ st, FMap.get s.datasets name = some st ∧ OfPool st k
  axes {h : Hash32} : h ∈ s.timestampHashes →
    (FMap.get s.timestamps (timestampsDatasetName h)).isSome

theorem array_packed {s : Hdf5File D} {h : Hash32} {name : String} {col : ℕ}
    {st : DatasetState Hash32} {d : D} (hloc : FMap.get s.byHash h = some (.packed name col))
    (hst : FMap.get s.datasets name = some st) (hd : FMap.get s.single name = some d) :
    s.array h = some (st.column d col) := by
  unfold array
  rw [hloc]
  simp only
  rw [hst, hd]
  rfl

theorem array_standalone {s : Hdf5File D} {h : Hash32} {var : String} {d : D} {t : Dtype}
    (hloc : FMap.get s.byHash h = some (.standalone var)) (hd : FMap.get s.single var = some d)
    (ht : FMap.get s.writtenAs h = some t) :
    s.array h = some ⟨t, H5Dataset.shape d, LawfulH5Dataset.content d⟩ := by
  unfold array
  rw [hloc]
  simp only
  rw [hd, ht]
  rfl

namespace Valid

variable {s : Hdf5File D} (hs : s.Valid)
include hs

/-- Every hash of the index has an array. -/
theorem array_isSome (h : Hash32) : (s.array h).isSome = (FMap.get s.byHash h).isSome := by
  cases hloc : FMap.get s.byHash h with
  | none =>
    unfold array
    rw [hloc]
    rfl
  | some l =>
    cases l with
    | packed name col =>
      obtain ⟨st, hst, -⟩ := hs.packed hloc
      obtain ⟨d, -, hd, -⟩ := hs.dataset hst
      rw [array_packed hloc hst hd]
      rfl
    | standalone var =>
      obtain ⟨-, -, d, t, hd, ht, -⟩ := hs.standalone hloc
      rw [array_standalone hloc hd ht]
      rfl

theorem array_eq_none (h : Hash32) : s.array h = none ↔ FMap.get s.byHash h = none := by
  have he := hs.array_isSome h
  rw [← Option.not_isSome_iff_eq_none, ← Option.not_isSome_iff_eq_none, he]

/-- The array of a hash is the one its place in the file holds. -/
theorem holds {h : Hash32} {a : TypedArray} (ha : s.array h = some a) :
    s.toHdf5Backend.Holds h a ∧ a.Checked := by
  cases hloc : FMap.get s.byHash h with
  | none =>
    rw [(hs.array_eq_none h).mpr hloc] at ha
    cases ha
  | some l =>
    cases l with
    | packed name col =>
      obtain ⟨st, hst, hcol⟩ := hs.packed hloc
      obtain ⟨d, -, hd, hdesc, -⟩ := hs.dataset hst
      rw [array_packed hloc hst hd] at ha
      cases ha
      obtain ⟨hlt, -⟩ := List.getElem?_eq_some_iff.mp hcol
      exact ⟨.packed hloc hst hd hdesc hlt, hdesc.checked hlt⟩
    | standalone var =>
      obtain ⟨-, -, d, t, hd, ht, htype, -, hsized⟩ := hs.standalone hloc
      rw [array_standalone hloc hd ht] at ha
      cases ha
      refine ⟨.standalone hloc hd htype, TypedArray.checked_iff.mpr ⟨hsized, ?_⟩⟩
      show (LawfulH5Dataset.content d).length = (H5Dataset.shape d).prod * t.size
      rw [LawfulH5Dataset.content_length htype, Dtype.written_size]

omit [LawfulH5Library D] in
theorem indexed : s.toHdf5Backend.Indexed := by
  intro h name col hloc
  obtain ⟨st, hst, hcol⟩ := hs.packed hloc
  obtain ⟨d, -, hd, hdesc, -⟩ := hs.dataset hst
  obtain ⟨hlt, -⟩ := List.getElem?_eq_some_iff.mp hcol
  exact ⟨st, d, hst, hd, hdesc, hlt⟩

end Valid

/-! ### Steps on the file -/

/-- Only datasets of the group of arrays were touched. -/
structure Shifted (s s' : Hdf5File D) : Prop where
  index : s' = { s with single := s'.single, faults := s'.faults }
  later : s'.faults.removals <:+ s.faults.removals

omit [H5Library D] [LawfulH5Library D] in
theorem Shifted.refl (s : Hdf5File D) : Shifted s s := ⟨rfl, List.suffix_refl _⟩

omit [H5Library D] [LawfulH5Library D] in
theorem Shifted.trans {s s' s'' : Hdf5File D} (h : Shifted s s') (h' : Shifted s' s'') :
    Shifted s s'' := by
  constructor
  · rw [h'.index, h.index]
  · exact h'.later.trans h.later

omit [H5Library D] [LawfulH5Library D] in
theorem Shifted.quiet {s s' : Hdf5File D} (h : Shifted s s') (hq : s.Quiet) : s'.Quiet := by
  constructor
  · rw [h.index]
    exact hq.1
  · intro b hb
    exact hq.2 b (h.later.subset hb)

omit [H5Library D] [LawfulH5Library D] in
/-- The library's step changes what is to fail, and nothing else. -/
theorem step_spec (kind : H5Step) (s : Hdf5File D) :
    (step kind).wp (fun r s' => Shifted s s' ∧ s'.single = s.single ∧
      (kind = .remove → s.Quiet → r = .ok ())) s := by
  unfold step
  simp only [Cmd.wp_bind, Cmd.wp_get, Cmd.wp_set]
  have hshift : Shifted s { s with faults := (s.faults.next kind).2 } := by
    refine ⟨rfl, ?_⟩
    cases kind with
    | create => exact List.suffix_refl _
    | write => exact List.suffix_refl _
    | remove => exact List.tail_suffix _
  split
  · rename_i hfail
    refine ⟨hshift, rfl, fun hkind hq => ?_⟩
    subst hkind
    have hhead : s.faults.removals.headD false = true := hfail
    cases hr : s.faults.removals with
    | nil =>
      rw [hr] at hhead
      cases hhead
    | cons b bs =>
      rw [hr] at hhead
      have hb := hq.2 b (by rw [hr]; exact List.mem_cons_self)
      rw [show b = true from hhead] at hb
      cases hb
  · exact ⟨hshift, rfl, fun _ _ => rfl⟩

omit [LawfulH5Library D] in
theorem createDs_spec (name : String) (t : Dtype) (shape : List ℕ) (chunks : Option (List ℕ))
    (s : Hdf5File D) :
    (createDs name t shape chunks).wp (fun r s' => Shifted s s' ∧
      match r with
      | .ok _ => FMap.get s.single name = none ∧
        ∃ d, H5Library.create t shape chunks = .ok d ∧ s'.single = s.single.insert name d
      | .error _ => s'.single = s.single) s := by
  unfold createDs
  rw [Cmd.wp_bind]
  refine Cmd.wp_mono (step_spec .create s) fun r t₁ h₁ => ?_
  obtain ⟨hshift, hsingle, -⟩ := h₁
  cases r with
  | error e => exact ⟨hshift, hsingle⟩
  | ok u =>
    simp only [Cmd.wp_bind, Cmd.wp_get]
    split
    · exact ⟨hshift, hsingle⟩
    · rename_i hnone
      rw [hsingle] at hnone
      simp only [Cmd.wp_bind, Cmd.wp_ofExcept]
      cases hc : (H5Library.create t shape chunks : Result D) with
      | error e => exact ⟨hshift, hsingle⟩
      | ok d =>
        refine ⟨hshift.trans ⟨rfl, List.suffix_refl _⟩,
          Option.not_isSome_iff_eq_none.mp hnone, d, rfl, ?_⟩
        show t₁.single.insert name d = _
        rw [hsingle]

omit [LawfulH5Library D] in
theorem writeSel_spec (kind : H5Step) (name : String) (t : Dtype) (bytes : List UInt8)
    (shape : List ℕ) (ranges : List (ℕ × ℕ)) (s : Hdf5File D) :
    (writeSel kind name t bytes shape ranges).wp (fun r s' => Shifted s s' ∧
      (kind = .remove → s.Quiet → bytes.length = shape.prod * t.size →
        (∃ d d', FMap.get s.single name = some d ∧
          H5Library.writeSlice d t ranges bytes = .ok d') → r = .ok ()) ∧
      match r with
      | .ok _ => ∃ d d', FMap.get s.single name = some d ∧
        H5Library.writeSlice d t ranges bytes = .ok d' ∧ s'.single = s.single.insert name d'
      | .error _ => s'.single = s.single) s := by
  unfold writeSel
  simp only [Cmd.wp_bind, Cmd.wp_get, Cmd.wp_ofExcept]
  cases hd : FMap.get s.single name with
  | none =>
    have herr : s.dataset name = .error (.integrityError s!"missing dataset {name}") := by
      unfold Hdf5Backend.dataset
      rw [hd]
    rw [herr]
    refine ⟨Shifted.refl s, fun _ _ _ h => ?_, trivial⟩
    obtain ⟨d, -, h, -⟩ := h
    cases h
  | some d =>
    rw [Hdf5Backend.dataset_eq hd]
    simp only
    by_cases hlen : bytes.length ≠ shape.prod * t.size
    · rw [if_pos hlen]
      exact ⟨Shifted.refl s, fun _ _ h => (hlen h).elim, rfl⟩
    · rw [if_neg hlen]
      simp only [Cmd.wp_bind, Cmd.wp_ofExcept]
      refine Cmd.wp_mono (step_spec kind s) fun r t₁ h₁ => ?_
      obtain ⟨hshift, hsingle, hquiet⟩ := h₁
      cases r with
      | error e => exact ⟨hshift, fun hk hq => (by cases hquiet hk hq), hsingle⟩
      | ok u =>
        cases hw : (H5Library.writeSlice d t ranges bytes : Result D) with
        | error e =>
          refine ⟨hshift, fun _ _ _ h => ?_, hsingle⟩
          obtain ⟨d₀, d', hd₀, hw'⟩ := h
          cases hd₀
          rw [hw] at hw'
          cases hw'
        | ok d' =>
          refine ⟨hshift.trans ⟨rfl, List.suffix_refl _⟩, fun _ _ _ _ => rfl, d, d', rfl, hw, ?_⟩
          show t₁.single.insert name d' = _
          rw [hsingle]

omit [H5Library D] [LawfulH5Library D] in
theorem unlink_spec (name : String) (s : Hdf5File D) :
    (unlink name).wp (fun r s' => Shifted s s' ∧
      (s.Quiet → (FMap.get s.single name).isSome → r = .ok ()) ∧
      match r with
      | .ok _ => s'.single = s.single.erase name
      | .error _ => s'.single = s.single) s := by
  unfold unlink
  rw [Cmd.wp_bind]
  refine Cmd.wp_mono (step_spec .remove s) fun r t₁ h₁ => ?_
  obtain ⟨hshift, hsingle, hquiet⟩ := h₁
  cases r with
  | error e =>
    refine ⟨hshift, fun hq _ => ?_, hsingle⟩
    cases hquiet rfl hq
  | ok u =>
    simp only [Cmd.wp_bind, Cmd.wp_get]
    split
    · rename_i hnone
      refine ⟨hshift, fun _ hsome => ?_, hsingle⟩
      rw [hsingle, Option.isNone_iff_eq_none] at hnone
      rw [hnone] at hsome
      cases hsome
    · refine ⟨hshift.trans ⟨rfl, List.suffix_refl _⟩, fun _ _ => rfl, ?_⟩
      show t₁.single.erase name = _
      rw [hsingle]

/-! ### What leaves the maps alone -/

/-- A state in order that stands for the same maps. -/
structure Steady (s s' : Hdf5File D) : Prop where
  valid : s'.Valid
  array : s'.array = s.array
  vector : s'.vector = s.vector
  quiet : s.Quiet → s'.Quiet

theorem Steady.refl {s : Hdf5File D} (h : s.Valid) : Steady s s := ⟨h, rfl, rfl, id⟩

theorem Steady.trans {s s' s'' : Hdf5File D} (h : Steady s s') (h' : Steady s' s'') : Steady s s'' :=
  ⟨h'.valid, h'.array.trans h.array, h'.vector.trans h.vector, h'.quiet ∘ h.quiet⟩

/-- Two datasets of one type and shape. -/
def SameLayout (d d' : D) : Prop :=
  H5Dataset.elementType d' = H5Dataset.elementType d ∧ H5Dataset.shape d' = H5Dataset.shape d

/-- What the index describes is in the file still: datasets may have other bytes in columns no array has,
and there may be more of them. -/
structure Keeps (s s' : Hdf5File D) : Prop where
  shifted : Shifted s s'
  dataset {name : String} {st : DatasetState Hash32} {d : D} :
    FMap.get s.datasets name = some st → FMap.get s.single name = some d →
      ∃ d', FMap.get s'.single name = some d' ∧ SameLayout d d' ∧
        ∀ {col h}, st.columns[col]? = some (some h) → st.column d' col = st.column d col
  companion {name : String} {c : D} :
    (FMap.get s.datasets name).isSome → FMap.get s.single (companionName name) = some c →
      ∃ c', FMap.get s'.single (companionName name) = some c' ∧ SameLayout c c'
  standalone {h : Hash32} {var : String} {d : D} : FMap.get s.byHash h = some (.standalone var) →
    FMap.get s.single var = some d → FMap.get s'.single var = some d

/-- A file that has lost no dataset keeps what the index describes. -/
theorem Keeps.of_kept {s s' : Hdf5File D} (h : Shifted s s')
    (hkept : ∀ name d, FMap.get s.single name = some d → FMap.get s'.single name = some d) :
    Keeps s s' := by
  refine ⟨h, fun {name st d} _ hd => ⟨d, hkept name d hd, ⟨rfl, rfl⟩, fun _ => rfl⟩,
    fun {name c} _ hc => ⟨c, hkept _ c hc, rfl, rfl⟩, fun {h var d} _ hd => hkept var d hd⟩

omit [LawfulH5Library D] in
theorem describes_of_sameLayout {st : DatasetState Hash32} {d d' : D} (h : st.Describes d)
    (hl : SameLayout d d') : st.Describes d' :=
  ⟨hl.2.trans h.shape, hl.1.trans h.elementType, h.elements, h.sized⟩

/-- **Frame.**  What keeps what the index describes keeps the maps. -/
theorem Valid.keeps {s s' : Hdf5File D} (hs : s.Valid) (h : Keeps s s') : Steady s s' := by
  have hidx := h.shifted.index
  have hsets : s'.datasets = s.datasets := by rw [hidx]
  have hhash : s'.byHash = s.byHash := by rw [hidx]
  have hvars : s'.standaloneVars = s.standaloneVars := by rw [hidx]
  have hwritten : s'.writtenAs = s.writtenAs := by rw [hidx]
  have hgroups : s'.datasetGroups = s.datasetGroups := by rw [hidx]
  have haxes : s'.timestampHashes = s.timestampHashes := by rw [hidx]
  have htimes : s'.timestamps = s.timestamps := by rw [hidx]
  refine ⟨?_, ?_, ?_, h.shifted.quiet⟩
  · constructor
    · rw [hhash, hsets]
      exact hs.packed
    · rw [hhash, hsets]
      exact hs.column
    · intro name st hst
      rw [hsets] at hst
      obtain ⟨d, c, hd, hdesc, hname, hc, htype, hshape⟩ := hs.dataset hst
      obtain ⟨d', hd', hlay, -⟩ := h.dataset hst hd
      obtain ⟨c', hc', hclay⟩ := h.companion (by rw [hst]; rfl) hc
      exact ⟨d', c', hd', describes_of_sameLayout hdesc hlay, hname, hc', hclay.1.trans htype,
        hclay.2.trans hshape⟩
    · intro x var hloc
      rw [hhash] at hloc
      rw [hvars, hwritten]
      obtain ⟨hname, hmem, d, t, hd, ht, htype, hsized⟩ := hs.standalone hloc
      exact ⟨hname, hmem, d, t, h.standalone hloc hd, ht, htype, hsized⟩
    · rw [hhash, hvars]
      exact hs.vars
    · rw [hsets]
      exact hs.companions
    · rw [hsets, hvars]
      exact hs.alone
    · rw [hsets, hgroups]
      exact hs.pools
    · rw [haxes, htimes]
      exact hs.axes
  · funext x
    cases hloc : FMap.get s.byHash x with
    | none =>
      unfold array
      rw [hhash, hloc]
    | some l =>
      cases l with
      | packed name col =>
        obtain ⟨st, hst, hcol⟩ := hs.packed hloc
        obtain ⟨d, -, hd, -⟩ := hs.dataset hst
        obtain ⟨d', hd', -, hcols⟩ := h.dataset hst hd
        rw [array_packed hloc hst hd, array_packed (hhash ▸ hloc) (hsets ▸ hst) hd', hcols hcol]
      | standalone var =>
        obtain ⟨-, -, d, t, hd, ht, -⟩ := hs.standalone hloc
        rw [array_standalone hloc hd ht,
          array_standalone (hhash ▸ hloc) (h.standalone hloc hd) (hwritten ▸ ht)]
  · funext x
    unfold vector
    rw [haxes, htimes]

/-! ### Writes inside a dataset -/

/-- A dataset of the index rewritten in columns no array has. -/
theorem Valid.keeps_dataset {s s' : Hdf5File D} (hs : s.Valid) (h : Shifted s s') {name : String}
    {st : DatasetState Hash32} {d d' : D} (hst : FMap.get s.datasets name = some st)
    (hd : FMap.get s.single name = some d) (hlay : SameLayout d d')
    (hcols : ∀ {col h}, st.columns[col]? = some (some h) → st.column d' col = st.column d col)
    (hsingle : s'.single = s.single.insert name d') : Keeps s s' := by
  have hsome : (FMap.get s.datasets name).isSome := by rw [hst]; rfl
  have hget : ∀ n, FMap.get s'.single n = if n = name then some d' else FMap.get s.single n := by
    intro n
    rw [hsingle, FMap.get_insert, Function.update_apply]
  refine ⟨h, ?_, ?_, ?_⟩
  · intro n st' e hst' he
    by_cases hn : n = name
    · subst hn
      rw [hst] at hst'
      cases hst'
      rw [hd] at he
      cases he
      exact ⟨d', by rw [hget, if_pos rfl], hlay, hcols⟩
    · exact ⟨e, by rw [hget, if_neg hn, he], ⟨rfl, rfl⟩, fun _ => rfl⟩
  · intro n c hn hc
    have hne : companionName n ≠ name := hs.companions hn hsome
    exact ⟨c, by rw [hget, if_neg hne, hc], rfl, rfl⟩
  · intro x var e hloc he
    have hne : var ≠ name := (hs.alone hsome (hs.standalone hloc).2.1).1
    rw [hget, if_neg hne, he]

/-- A companion of the index rewritten. -/
theorem Valid.keeps_companion {s s' : Hdf5File D} (hs : s.Valid) (h : Shifted s s') {name : String}
    {c c' : D} (hsome : (FMap.get s.datasets name).isSome)
    (hc : FMap.get s.single (companionName name) = some c) (hlay : SameLayout c c')
    (hsingle : s'.single = s.single.insert (companionName name) c') : Keeps s s' := by
  have hget : ∀ n, FMap.get s'.single n =
      if n = companionName name then some c' else FMap.get s.single n := by
    intro n
    rw [hsingle, FMap.get_insert, Function.update_apply]
  refine ⟨h, ?_, ?_, ?_⟩
  · intro n st e hst he
    have hne : companionName name ≠ n := hs.companions hsome (by rw [hst]; rfl)
    exact ⟨e, by rw [hget, if_neg hne.symm, he], ⟨rfl, rfl⟩, fun _ => rfl⟩
  · intro n e hn he
    by_cases heq : companionName n = companionName name
    · rw [heq, hc] at he
      cases he
      exact ⟨c', by rw [hget, if_pos heq], hlay⟩
    · exact ⟨e, by rw [hget, if_neg heq, he], rfl, rfl⟩
  · intro x var e hloc he
    have hne : var ≠ companionName name := (hs.alone hsome (hs.standalone hloc).2.1).2
    rw [hget, if_neg hne, he]

/-! ### A new dataset -/

/-- The index takes in a dataset of free columns under a name the file did not have. -/
theorem Valid.addDataset {s t : Hdf5File D} (hs : s.Valid) (h : Keeps s t) {name : String}
    {k : PoolKey Hash32} {st : DatasetState Hash32} {names : List String} {d c : D}
    (hname : FMap.get s.single name = none) (hcomp : FMap.get s.single (companionName name) = none)
    (hd : FMap.get t.single name = some d) (hdesc : st.Describes d)
    (hst : st.hashName = companionName name) (hc : FMap.get t.single (companionName name) = some c)
    (htype : H5Dataset.elementType c = some .u8) (hshape : H5Dataset.shape c = [st.columns.length, 64])
    (hpool : OfPool st k) (hfree : ∀ (i : ℕ) (x : Hash32), st.columns[i]? ≠ some (some x))
    (hnames : ∀ n ∈ names, n = name ∨ n ∈ (FMap.get s.datasetGroups k).getD []) :
    Steady s { t with datasets := t.datasets.insert name st
                      datasetGroups := t.datasetGroups.insert k names } := by
  have hk := hs.keeps h
  have ht := hk.valid
  have hidx := h.shifted.index
  have hsets : t.datasets = s.datasets := by rw [hidx]
  have hgroups : t.datasetGroups = s.datasetGroups := by rw [hidx]
  -- what the index describes is in the file, and these names were not
  have hold : ∀ {n st'}, FMap.get s.datasets n = some st' → n ≠ name ∧ companionName n ≠ name ∧
      companionName name ≠ n := by
    intro n st' hn
    obtain ⟨d', c', hd', -, -, hc', -⟩ := hs.dataset hn
    refine ⟨fun heq => ?_, fun heq => ?_, fun heq => ?_⟩
    · rw [heq, hname] at hd'
      cases hd'
    · rw [heq, hname] at hc'
      cases hc'
    · rw [← heq, hcomp] at hd'
      cases hd'
  have hvar : ∀ {var}, var ∈ s.standaloneVars → var ≠ name ∧ var ≠ companionName name := by
    intro var hv
    obtain ⟨x, hx⟩ := hs.vars hv
    obtain ⟨-, -, e, -, he, -⟩ := hs.standalone hx
    refine ⟨fun heq => ?_, fun heq => ?_⟩
    · rw [heq, hname] at he
      cases he
    · rw [heq, hcomp] at he
      cases he
  have hget : ∀ n, FMap.get (t.datasets.insert name st) n =
      if n = name then some st else FMap.get t.datasets n := by
    intro n
    rw [FMap.get_insert, Function.update_apply]
  have hkept : ∀ {n st'}, FMap.get t.datasets n = some st' →
      FMap.get (t.datasets.insert name st) n = some st' := by
    intro n st' hn
    rw [hget, if_neg (hold (hsets ▸ hn)).1, hn]
  refine ⟨⟨?_, ?_, ?_, ht.standalone, ht.vars, ?_, ?_, ?_, ht.axes⟩, ?_, ?_, ?_⟩
  · intro x n col hloc
    obtain ⟨st', hst', hcol⟩ := ht.packed hloc
    exact ⟨st', hkept hst', hcol⟩
  · intro x n col st' hn hcol
    change FMap.get (t.datasets.insert name st) n = some st' at hn
    rw [hget] at hn
    split at hn
    · cases hn
      exact (hfree col x hcol).elim
    · exact ht.column hn hcol
  · intro n st' hn
    change FMap.get (t.datasets.insert name st) n = some st' at hn
    rw [hget] at hn
    split at hn
    · rename_i heq
      subst heq
      cases hn
      exact ⟨d, c, hd, hdesc, hst, hc, htype, hshape⟩
    · exact ht.dataset hn
  · intro n n' hn hn'
    change (FMap.get (t.datasets.insert name st) n).isSome at hn
    change (FMap.get (t.datasets.insert name st) n').isSome at hn'
    rw [hget] at hn hn'
    by_cases h₁ : n = name
    · by_cases h₂ : n' = name
      · rw [h₁, h₂]
        exact companionName_ne name
      · rw [if_neg h₂] at hn'
        obtain ⟨st', hst'⟩ := Option.isSome_iff_exists.mp hn'
        rw [h₁]
        exact (hold (hsets ▸ hst')).2.2
    · rw [if_neg h₁] at hn
      obtain ⟨st', hst'⟩ := Option.isSome_iff_exists.mp hn
      by_cases h₂ : n' = name
      · rw [h₂]
        exact (hold (hsets ▸ hst')).2.1
      · rw [if_neg h₂] at hn'
        exact ht.companions hn hn'
  · intro n var hn hv
    change (FMap.get (t.datasets.insert name st) n).isSome at hn
    rw [hget] at hn
    by_cases h₁ : n = name
    · rw [h₁]
      exact hvar (show var ∈ s.standaloneVars by rw [hidx] at hv; exact hv)
    · rw [if_neg h₁] at hn
      exact ht.alone hn hv
  · intro k' ns n hk' hn
    change FMap.get (t.datasetGroups.insert k names) k' = some ns at hk'
    rw [FMap.get_insert, Function.update_apply] at hk'
    have hrest : ∀ {k' : PoolKey Hash32}, n ∈ (FMap.get t.datasetGroups k').getD [] →
        ∃ st', FMap.get (t.datasets.insert name st) n = some st' ∧ OfPool st' k' := by
      intro k' hmem
      cases hg : FMap.get t.datasetGroups k' with
      | none =>
        rw [hg] at hmem
        cases hmem
      | some ns' =>
        rw [hg] at hmem
        obtain ⟨st', hst', hp⟩ := ht.pools hg hmem
        exact ⟨st', hkept hst', hp⟩
    split at hk'
    · rename_i heq
      subst heq
      cases hk'
      rcases hnames n hn with heq | hmem
      · subst heq
        exact ⟨st, by show FMap.get (t.datasets.insert n st) n = _; rw [hget, if_pos rfl], hpool⟩
      · exact hrest (hgroups ▸ hmem)
    · exact hrest (by rw [hk']; exact hn)
  · funext x
    rw [← hk.array]
    cases hloc : FMap.get t.byHash x with
    | none =>
      unfold array
      rw [hloc]
    | some l =>
      cases l with
      | packed n col =>
        obtain ⟨st', hst', -⟩ := ht.packed hloc
        obtain ⟨e, -, he, -⟩ := ht.dataset hst'
        rw [array_packed hloc hst' he]
        exact array_packed hloc (hkept hst') he
      | standalone var =>
        obtain ⟨-, -, e, u, he, hu, -⟩ := ht.standalone hloc
        rw [array_standalone hloc he hu]
        exact array_standalone hloc he hu
  · exact hk.vector
  · exact hk.quiet

/-! ### Other columns -/

section

variable {s : Hdf5File D} (hs : s.Valid) {name : String} {st : DatasetState Hash32} {d : D}
  (hst : FMap.get s.datasets name = some st) (hd : FMap.get s.single name = some d)
  {columns : List (Option Hash32)} (hlen : columns.length = st.columns.length)
  {byHash : FMap Hash32 Location}
  (hcols : ∀ h c, FMap.get byHash h = some (.packed name c) ↔ columns[c]? = some (some h))
  (hrest : ∀ h l, (∀ c, l ≠ .packed name c) →
    (FMap.get byHash h = some l ↔ FMap.get s.byHash h = some l))

/-- The index with other arrays in the columns of one dataset. -/
def refiled (s : Hdf5File D) (name : String) (st : DatasetState Hash32)
    (columns : List (Option Hash32)) (byHash : FMap Hash32 Location) : Hdf5File D :=
  { s with datasets := s.datasets.insert name { st with columns }, byHash }

include hs hst hlen hcols hrest

omit [LawfulH5Library D] in
theorem Valid.refile : (refiled s name st columns byHash).Valid := by
  have hsome : (FMap.get s.datasets name).isSome := by rw [hst]; rfl
  have hget : ∀ n, FMap.get (refiled s name st columns byHash).datasets n =
      if n = name then some { st with columns } else FMap.get s.datasets n := by
    intro n
    show FMap.get (s.datasets.insert name { st with columns }) n = _
    rw [FMap.get_insert, Function.update_apply]
  have hisSome : ∀ n, (FMap.get (refiled s name st columns byHash).datasets n).isSome →
      (FMap.get s.datasets n).isSome := by
    intro n hn
    rw [hget] at hn
    split at hn
    · rename_i heq
      rw [heq]
      exact hsome
    · exact hn
  have hother : ∀ {n}, n ≠ name → ∀ c c', Location.packed n c ≠ .packed name c' := by
    intro n hn c c' heq
    injection heq with heq
    exact hn heq
  constructor
  · intro h n col hloc
    by_cases hn : n = name
    · subst hn
      exact ⟨_, by rw [hget, if_pos rfl], (hcols h col).mp hloc⟩
    · obtain ⟨st', hst', hcol⟩ := hs.packed ((hrest h _ (hother hn col)).mp hloc)
      exact ⟨st', by rw [hget, if_neg hn, hst'], hcol⟩
  · intro h n col st' hn hcol
    rw [hget] at hn
    split at hn
    · rename_i heq
      subst heq
      cases hn
      exact (hcols h col).mpr hcol
    · rename_i hne
      exact (hrest h _ (hother hne col)).mpr (hs.column hn hcol)
  · intro n st' hn
    rw [hget] at hn
    split at hn
    · rename_i heq
      subst heq
      cases hn
      obtain ⟨e, c, he, hdesc, hname, hc, htype, hshape⟩ := hs.dataset hst
      refine ⟨e, c, he, ⟨?_, hdesc.elementType, hdesc.elements, hdesc.sized⟩, hname, hc, htype, ?_⟩
      · rw [hdesc.shape]
        show st.slabShape st.columns.length = st.slabShape columns.length
        rw [hlen]
      · rw [hshape]
        show [st.columns.length, 64] = [columns.length, 64]
        rw [hlen]
    · exact hs.dataset hn
  · intro h var hloc
    exact hs.standalone ((hrest h _ fun c heq => by cases heq).mp hloc)
  · intro var hv
    obtain ⟨h, hloc⟩ := hs.vars hv
    exact ⟨h, (hrest h _ fun c heq => by cases heq).mpr hloc⟩
  · intro n n' hn hn'
    exact hs.companions (hisSome n hn) (hisSome n' hn')
  · intro n var hn hv
    exact hs.alone (hisSome n hn) hv
  · intro k names n hk hn
    obtain ⟨st', hst', hpool⟩ := hs.pools hk hn
    by_cases heq : n = name
    · subst heq
      rw [hst] at hst'
      cases hst'
      exact ⟨{ st with columns }, by rw [hget, if_pos rfl], hpool⟩
    · exact ⟨st', by rw [hget, if_neg heq, hst'], hpool⟩
  · exact hs.axes

include hd

/-- What the maps are then: the columns say for this dataset, and the rest is as it was. -/
theorem Valid.array_refile (h : Hash32) :
    (∀ c, columns[c]? = some (some h) →
      (refiled s name st columns byHash).array h = some (st.column d c)) ∧
    ((∀ c : ℕ, columns[c]? ≠ some (some h)) → (∃ c, FMap.get s.byHash h = some (.packed name c)) →
      (refiled s name st columns byHash).array h = none) ∧
    ((∀ c : ℕ, columns[c]? ≠ some (some h)) → (∀ c, FMap.get s.byHash h ≠ some (.packed name c)) →
      (refiled s name st columns byHash).array h = s.array h) := by
  have ht := hs.refile hst hlen hcols hrest
  have hget : ∀ n, FMap.get (refiled s name st columns byHash).datasets n =
      if n = name then some { st with columns } else FMap.get s.datasets n := by
    intro n
    show FMap.get (s.datasets.insert name { st with columns }) n = _
    rw [FMap.get_insert, Function.update_apply]
  have hinv : ∀ {l}, FMap.get byHash h = some l → (∀ c : ℕ, columns[c]? ≠ some (some h)) →
      FMap.get s.byHash h = some l ∧ ∀ c, l ≠ .packed name c := by
    intro l hl hnot
    have hne : ∀ c, l ≠ .packed name c := by
      intro c heq
      rw [heq] at hl
      exact hnot c ((hcols h c).mp hl)
    exact ⟨(hrest h l hne).mp hl, hne⟩
  refine ⟨fun c hc => ?_, fun hnot hin => ?_, fun hnot hin => ?_⟩
  · have hst' : FMap.get (refiled s name st columns byHash).datasets name =
        some { st with columns } := by rw [hget, if_pos rfl]
    have harr := array_packed (s := refiled s name st columns byHash) ((hcols h c).mpr hc) hst' hd
    rw [harr]
    unfold DatasetState.column
    simp only
    rw [hlen]
    rfl
  · obtain ⟨c, hc⟩ := hin
    rw [ht.array_eq_none]
    by_contra hne
    obtain ⟨l, hl⟩ := Option.ne_none_iff_exists'.mp hne
    obtain ⟨hl', hother⟩ := hinv hl hnot
    rw [hc] at hl'
    cases hl'
    exact hother c rfl
  · cases hloc : FMap.get s.byHash h with
    | none =>
      rw [(hs.array_eq_none h).mpr hloc, ht.array_eq_none]
      by_contra hne
      obtain ⟨l, hl⟩ := Option.ne_none_iff_exists'.mp hne
      rw [(hinv hl hnot).1] at hloc
      cases hloc
    | some l =>
      have hl : ∀ c, l ≠ .packed name c := fun c heq => hin c (by rw [hloc, heq])
      have hloc' := (hrest h l hl).mpr hloc
      cases l with
      | packed n col =>
        have hn : n ≠ name := fun heq => hl col (by rw [heq])
        obtain ⟨st', hst', -⟩ := hs.packed hloc
        obtain ⟨e, -, he, -⟩ := hs.dataset hst'
        rw [array_packed hloc hst' he]
        exact array_packed hloc' (by rw [hget, if_neg hn, hst']) he
      | standalone var =>
        obtain ⟨-, -, e, u, he, hu, -⟩ := hs.standalone hloc
        rw [array_standalone hloc he hu]
        exact array_standalone hloc' he hu

/-- An array whose place is the one it had is the one it was. -/
theorem Valid.array_refile_same {h : Hash32} (hsame : FMap.get byHash h = FMap.get s.byHash h) :
    (refiled s name st columns byHash).array h = s.array h := by
  obtain ⟨hin, -, hother⟩ := hs.array_refile hst hd hlen hcols hrest h
  have hnot : ∀ {c}, columns[c]? = some (some h) → FMap.get s.byHash h = some (.packed name c) :=
    fun {c} hc => hsame ▸ (hcols h c).mpr hc
  cases hloc : FMap.get s.byHash h with
  | none =>
    refine hother (fun c hc => ?_) fun c hc => ?_
    · rw [hnot hc] at hloc
      cases hloc
    · rw [hc] at hloc
      cases hloc
  | some l =>
    by_cases hl : ∃ c, l = .packed name c
    · obtain ⟨c, rfl⟩ := hl
      rw [array_packed hloc hst hd]
      exact hin c ((hcols h c).mp (hsame.trans hloc))
    · refine hother (fun c hc => ?_) fun c hc => ?_
      · have hx := hnot hc
        rw [hloc] at hx
        injection hx with hx
        exact hl ⟨c, hx⟩
      · rw [hloc] at hc
        injection hc with hc
        exact hl ⟨c, hc⟩

end

end Hdf5File

end InfraStore
