import InfraStore.BulkReads
import InfraStore.Hdf5Laws

/-!
# Runs of a backend

What a backend holds after any sequence of requests, as the requests and their answers say, and that it
reads back so.

* `BackendRequest`, `Contents`, `Makes`: what a request may make of the contents, by its answer;
* `Follows`, `answers_follow`: a log of requests and answers, and that every run has one;
* `ReadsBack`: a backend gives what is in its contents;
* `hdf5_file_is_a_map`: the HDF5 backend after any requests and any failures.
-/

namespace InfraStore

open Lib

/-! ### Requests -/

/-- A request for a change of a backend. -/
inductive BackendRequest (H : Type) where
  | putArray (hash : H) (data : TypedArray) (group : PackGroup H) (layout : ArrayLayout)
  | putPackedBlock (items : List (H × TypedArray)) (group : PackGroup H)
  | removeArray (hash : H)
  | putTimestamps (hash : H) (instants : List DateTime)
  | removeTimestamps (hash : H)
  | flush

/-- What a backend holds. -/
structure Contents (H : Type) where
  array : H → Option TypedArray
  vector : H → Option (List ℤ)

namespace BackendRequest

variable {H : Type} [DecidableEq H]

/-- The arrays handed over are well formed, and those of a block have one shape. -/
def Proper : BackendRequest H → Prop
  | putArray _ data _ _ => data.Storable
  | putPackedBlock items _ => (∀ i ∈ items, i.2.Storable) ∧
      ∀ i ∈ items, ∀ j ∈ items, i.2.dtype = j.2.dtype ∧ i.2.shape = j.2.shape
  | _ => True

/-- Hand a request to a backend; the answer flags what a put has written. -/
def run {B : Type} [ArrayBackend H B] : BackendRequest H → StoreCmd B (List Bool)
  | putArray hash data group layout => (fun w => [w]) <$> ArrayBackend.putArray hash data group layout
  | putPackedBlock items group => ArrayBackend.putPackedBlock items group
  | removeArray hash => (fun _ => []) <$> ArrayBackend.removeArray (B := B) hash
  | putTimestamps hash instants => (fun w => [w]) <$> ArrayBackend.putTimestamps hash instants
  | removeTimestamps hash => (fun _ => []) <$> ArrayBackend.removeTimestamps (B := B) hash
  | flush => (fun _ => []) <$> ArrayBackend.flush (B := B)

/-- What a request may make of the contents, by its answer.  A put leaves what is stored alone and flags
what was not; what fails changes nothing, but for a block whose arrays could not all be taken back, and
for a time axis given up before the file was. -/
def Makes (quiet : Prop) (m : Contents H) : BackendRequest H → Result (List Bool) → Contents H → Prop
  | putArray hash data _ _, .ok flags, m' => flags = [(m.array hash).isNone] ∧
      m' = { m with array := orInserted m.array [(hash, data)] }
  | putPackedBlock items _, .ok flags, m' =>
      m' = { m with array := orInserted m.array items } ∧ flags.length = items.length ∧
      ∀ h, (∃ p ∈ items.zip flags, p.1.1 = h ∧ p.2 = true) ↔
        m.array h = none ∧ ∃ i ∈ items, i.1 = h
  | putPackedBlock items _, .error _, m' => m'.vector = m.vector ∧ (quiet → m' = m) ∧
      ∀ h, m'.array h = m.array h ∨ m'.array h = orInserted m.array items h
  | removeArray hash, .ok _, m' => m' = { m with array := Function.update m.array hash none }
  | putTimestamps hash instants, .ok flags, m' => flags = [(m.vector hash).isNone] ∧
      m' = { m with vector := orInserted m.vector [(hash, toMillis instants)] }
  | removeTimestamps hash, .ok _, m' => m' = { m with vector := Function.update m.vector hash none }
  | removeTimestamps hash, .error _, m' =>
      ¬ quiet ∧ (m' = m ∨ m' = { m with vector := Function.update m.vector hash none })
  | removeArray _, .error _, m' => ¬ quiet ∧ m' = m
  | _, _, m' => m' = m

end BackendRequest

/-- **A log.**  Requests and their answers, and what they made of the contents one after the other. -/
inductive Follows {H : Type} [DecidableEq H] (quiet : Prop) :
    Contents H → List (BackendRequest H × Result (List Bool)) → Contents H → Prop
  | nil (m : Contents H) : Follows quiet m [] m
  | cons {m m' m'' : Contents H} {r : BackendRequest H} {answer : Result (List Bool)}
      {log : List (BackendRequest H × Result (List Bool))} :
      BackendRequest.Makes quiet m r answer m' → Follows quiet m' log m'' →
        Follows quiet m ((r, answer) :: log) m''

section

variable {H B : Type} [DecidableEq H] [Sha256 H] [ArrayBackend H B] [LawfulArrayBackend H B]

/-- The answers to requests handed over one after the other, whatever becomes of each, and the backend
they leave. -/
def answers (b : B) : List (BackendRequest H) → List (BackendRequest H × Result (List Bool)) × B
  | [] => ([], b)
  | r :: rs =>
    let step := r.run.exec b
    let rest := answers step.2 rs
    ((r, step.1) :: rest.1, rest.2)

/-- What a backend holds. -/
def contentsOf (b : B) : Contents H :=
  ⟨LawfulArrayBackend.array b, LawfulArrayBackend.vector b⟩

/-- A backend gives what is in the contents, whole, in slices, in window blocks and many at once, and
nothing else. -/
structure ReadsBack (b : B) (m : Contents H) : Prop where
  contains (h : H) : ArrayBackend.contains b h = (m.array h).isSome
  array {h : H} {a : TypedArray} : m.array h = some a →
    ArrayBackend.getArray b h a.dtype = .ok a ∧ ArrayBackend.arrayShape b h = .ok a.shape ∧
      (∀ x y, x ≤ y → y ≤ a.length →
        ArrayBackend.getSlice b h a.dtype x y = .ok (a.slice 0 x (y - x))) ∧
      ∀ axis d start len, a.shape[axis]? = some d → start + len ≤ d →
        ArrayBackend.readWindowBlock b h a.dtype axis start len = .ok (a.slice axis start len).bytes
  absent {h : H} (d : Dtype) : m.array h = none → ArrayBackend.getArray b h d = .error .notFound
  together (columns : List (H × TypedArray)) : (∀ c ∈ columns, m.array c.1 = some c.2) →
    ArrayBackend.readArrays b (columns.map fun c => (c.1, c.2.dtype)) = .ok (columns.map Prod.snd)
  axis (h : H) : ArrayBackend.getTimestamps b h = match m.vector h with
    | none => .error .notFound
    | some millis => mapErr .integrityError (fromMillis millis)

theorem orInserted_one {K V : Type} [DecidableEq K] (m : K → Option V) (k : K) (v : V) :
    orInserted m [(k, v)] = if m k = none then Function.update m k (some v) else m := by
  split
  · rename_i h
    rw [MemoryBackend.orInserted_cons m k v [] h]
    exact orInserted_of_held fun it hit => by cases hit
  · rename_i h
    rw [MemoryBackend.orInserted_cons_held m k v [] (Option.isSome_iff_ne_none.mpr h)]
    exact orInserted_of_held fun it hit => by cases hit

/-- **A step.**  What a request makes of the contents of a lawful backend. -/
theorem run_makes {b : B} (hb : LawfulArrayBackend.Valid b) {r : BackendRequest H} (hr : r.Proper) :
    r.run.wp (fun answer b' => LawfulArrayBackend.Valid b' ∧
      (LawfulArrayBackend.Quiet b → LawfulArrayBackend.Quiet b') ∧
      r.Makes (LawfulArrayBackend.Quiet b) (contentsOf b) answer (contentsOf b')) b := by
  cases r with
  | putArray hash data group layout =>
    unfold BackendRequest.run
    rw [Cmd.wp_map]
    refine Cmd.wp_mono (LawfulArrayBackend.putArray_spec hash group layout hb hr) fun w b' h => ?_
    obtain ⟨hv, hq, hvec, h⟩ := h
    refine ⟨hv, hq, ?_⟩
    cases w with
    | error e =>
      show contentsOf b' = contentsOf b
      unfold contentsOf
      rw [hvec, h]
    | ok w =>
      cases w with
      | true =>
        refine ⟨?_, ?_⟩
        · show [true] = [(LawfulArrayBackend.array b hash).isNone]
          rw [h.1]
          rfl
        · unfold contentsOf
          simp only
          rw [hvec, h.2, orInserted_one, if_pos h.1]
      | false =>
        have hne : LawfulArrayBackend.array b hash ≠ none := Option.isSome_iff_ne_none.mp h.1
        refine ⟨?_, ?_⟩
        · show [false] = [(LawfulArrayBackend.array b hash).isNone]
          rw [← Option.not_isSome, h.1]
          rfl
        · unfold contentsOf
          simp only
          rw [hvec, h.2, orInserted_one, if_neg hne]
  | putPackedBlock items group =>
    refine Cmd.wp_mono (LawfulArrayBackend.putPackedBlock_spec group hb hr.1 hr.2) fun w b' h => ?_
    obtain ⟨hv, hq, hvec, h⟩ := h
    refine ⟨hv, hq, ?_⟩
    cases w with
    | error e =>
      refine ⟨hvec, fun hquiet => ?_, h.1⟩
      unfold contentsOf
      rw [hvec, h.2 hquiet]
    | ok flags =>
      refine ⟨?_, h.2.1, h.2.2⟩
      unfold contentsOf
      simp only
      rw [hvec, h.1]
  | removeArray hash =>
    unfold BackendRequest.run
    rw [Cmd.wp_map]
    refine Cmd.wp_mono (LawfulArrayBackend.removeArray_spec hash hb) fun w b' h => ?_
    obtain ⟨hv, hq, hvec, h⟩ := h
    refine ⟨hv, fun hquiet => (hq hquiet).1, ?_⟩
    cases w with
    | error e =>
      refine ⟨fun hquiet => (by cases (hq hquiet).2), ?_⟩
      unfold contentsOf
      rw [hvec, h]
    | ok u =>
      show contentsOf b' = _
      unfold contentsOf
      rw [hvec, h]
  | putTimestamps hash instants =>
    unfold BackendRequest.run
    rw [Cmd.wp_map]
    refine Cmd.wp_mono (LawfulArrayBackend.putTimestamps_spec hash instants hb) fun w b' h => ?_
    obtain ⟨hv, hq, harr, h⟩ := h
    refine ⟨hv, hq, ?_⟩
    cases w with
    | error e =>
      show contentsOf b' = contentsOf b
      unfold contentsOf
      rw [harr, h]
    | ok w =>
      cases w with
      | true =>
        refine ⟨?_, ?_⟩
        · show [true] = [(LawfulArrayBackend.vector b hash).isNone]
          rw [h.1]
          rfl
        · unfold contentsOf
          simp only
          rw [harr, h.2, orInserted_one, if_pos h.1]
      | false =>
        have hne : LawfulArrayBackend.vector b hash ≠ none := Option.isSome_iff_ne_none.mp h.1
        refine ⟨?_, ?_⟩
        · show [false] = [(LawfulArrayBackend.vector b hash).isNone]
          rw [← Option.not_isSome, h.1]
          rfl
        · unfold contentsOf
          simp only
          rw [harr, h.2, orInserted_one, if_neg hne]
  | removeTimestamps hash =>
    unfold BackendRequest.run
    rw [Cmd.wp_map]
    refine Cmd.wp_mono (LawfulArrayBackend.removeTimestamps_spec hash hb) fun w b' h => ?_
    obtain ⟨hv, hq, harr, h⟩ := h
    refine ⟨hv, fun hquiet => (hq hquiet).1, ?_⟩
    cases w with
    | error e =>
      refine ⟨fun hquiet => (by cases (hq hquiet).2), ?_⟩
      unfold contentsOf
      rcases h with h | h
      · left
        rw [harr, h]
      · right
        rw [harr, h]
    | ok u =>
      show contentsOf b' = _
      unfold contentsOf
      rw [harr, h]
  | flush =>
    unfold BackendRequest.run
    rw [Cmd.wp_map]
    refine Cmd.wp_mono (LawfulArrayBackend.flush_spec hb) fun w b' h => ?_
    obtain ⟨hv, hq, harr, hvec⟩ := h
    refine ⟨hv, hq, ?_⟩
    have hsame : contentsOf b' = contentsOf b := by
      unfold contentsOf
      rw [harr, hvec]
    cases w with
    | error e => exact hsame
    | ok u => exact hsame

omit [Sha256 H] [LawfulArrayBackend H B] [ArrayBackend H B] in
theorem makes_mono {p q : Prop} (h : p → q) {m m' : Contents H} {r : BackendRequest H}
    {answer : Result (List Bool)} (hm : r.Makes q m answer m') : r.Makes p m answer m' := by
  cases r with
  | putArray hash data group layout =>
    cases answer with
    | error e => exact hm
    | ok w => exact hm
  | putPackedBlock items group =>
    cases answer with
    | error e => exact ⟨hm.1, fun hp => hm.2.1 (h hp), hm.2.2⟩
    | ok w => exact hm
  | removeArray hash =>
    cases answer with
    | error e => exact ⟨fun hp => hm.1 (h hp), hm.2⟩
    | ok w => exact hm
  | putTimestamps hash instants =>
    cases answer with
    | error e => exact hm
    | ok w => exact hm
  | removeTimestamps hash =>
    cases answer with
    | error e => exact ⟨fun hp => hm.1 (h hp), hm.2⟩
    | ok w => exact hm
  | flush => exact hm

omit [Sha256 H] [LawfulArrayBackend H B] [ArrayBackend H B] in
theorem Follows.mono {p q : Prop} (h : p → q) {m m' : Contents H}
    {log : List (BackendRequest H × Result (List Bool))} (hf : Follows q m log m') :
    Follows p m log m' := by
  induction hf with
  | nil m => exact .nil m
  | cons hm _ ih => exact .cons (makes_mono h hm) ih

/-- **A run.**  Whatever the requests, the contents are what the log of their answers says. -/
theorem answers_follow {requests : List (BackendRequest H)} (hr : ∀ r ∈ requests, r.Proper) {b : B}
    (hb : LawfulArrayBackend.Valid b) :
    LawfulArrayBackend.Valid (answers b requests).2 ∧
      Follows (LawfulArrayBackend.Quiet b) (contentsOf b) (answers b requests).1
        (contentsOf (answers b requests).2) := by
  induction requests generalizing b with
  | nil => exact ⟨hb, .nil _⟩
  | cons r rs ih =>
    obtain ⟨hv, hq, hm⟩ := run_makes hb (hr r List.mem_cons_self)
    obtain ⟨hv', hf⟩ := ih (fun r hmem => hr r (List.mem_cons_of_mem _ hmem)) hv
    exact ⟨hv', .cons hm (hf.mono hq)⟩

end

/-! ### The HDF5 backend -/

/-- A backend with nothing in it. -/
def Contents.empty {H : Type} : Contents H := ⟨fun _ => none, fun _ => none⟩

namespace Hdf5File

variable {D : Type} [H5Library D] [LawfulH5Library D]

omit [LawfulH5Library D] in
theorem fresh_valid (faults : H5Faults) : (fresh faults : Hdf5File D).Valid := by
  constructor
  · intro h name col hloc
    rw [show (fresh faults : Hdf5File D).byHash = ∅ from rfl, FMap.get_empty] at hloc
    cases hloc
  · intro h name col st hst
    rw [show (fresh faults : Hdf5File D).datasets = ∅ from rfl, FMap.get_empty] at hst
    cases hst
  · intro name st hst
    rw [show (fresh faults : Hdf5File D).datasets = ∅ from rfl, FMap.get_empty] at hst
    cases hst
  · intro h var hloc
    rw [show (fresh faults : Hdf5File D).byHash = ∅ from rfl, FMap.get_empty] at hloc
    cases hloc
  · intro var hv
    cases hv
  · intro name name' hn
    rw [show (fresh faults : Hdf5File D).datasets = ∅ from rfl, FMap.get_empty] at hn
    cases hn
  · intro name var hn
    rw [show (fresh faults : Hdf5File D).datasets = ∅ from rfl, FMap.get_empty] at hn
    cases hn
  · intro k names name hk
    rw [show (fresh faults : Hdf5File D).datasetGroups = ∅ from rfl, FMap.get_empty] at hk
    cases hk
  · intro h hh
    cases hh

/-- What is not in the index is not found. -/
theorem getArray_absent {s : Hdf5File D} (hs : s.Valid) {h : Hash32} (hn : s.array h = none)
    (d : Dtype) : s.toHdf5Backend.getArray h d = .error .notFound := by
  unfold Hdf5Backend.getArray Hdf5Backend.readLocked Hdf5Backend.location
  rw [(hs.array_eq_none h).mp hn]
  rfl

theorem Valid.readsBack {s : Hdf5File D} (hs : s.Valid) : ReadsBack s ⟨s.array, s.vector⟩ := by
  -- the laws do not depend on the digest
  let _ : Sha256 Hash32 := ⟨fun _ => ⟨List.replicate 32 0, List.length_replicate⟩⟩
  constructor
  · exact LawfulArrayBackend.contains_iff (B := Hdf5File D) hs
  · intro h a ha
    have hne : a.shape ≠ [] := hs.shape_ne_nil ha
    exact ⟨LawfulReads.getArray_eq (B := Hdf5File D) hs ha,
      LawfulReads.arrayShape_eq (B := Hdf5File D) hs ha,
      fun x y hxy hy => LawfulReads.getSlice_eq (B := Hdf5File D) hs ha hne hxy hy,
      fun axis d start len hd hle => LawfulReads.readWindowBlock_eq (B := Hdf5File D) hs ha hd hle⟩
  · intro h d hn
    exact getArray_absent hs hn d
  · intro columns hc
    have hread := LawfulBulkReads.readArrays_eq (B := Hdf5File D)
      (columns.map fun c => (c.1, c.2.dtype)) hs
    have hone : (columns.map fun c => (c.1, c.2.dtype)).mapM
        (fun c => ArrayBackend.getArray s c.1 c.2) = .ok (columns.map Prod.snd) := by
      rw [mapM_eq_ok, List.forall₂_map_left_iff, List.forall₂_map_right_iff, List.forall₂_same]
      exact fun c hmem => LawfulReads.getArray_eq (B := Hdf5File D) hs (hc c hmem)
    rw [hone] at hread
    cases hr : ArrayBackend.readArrays s (columns.map fun c => (c.1, c.2.dtype)) with
    | error e =>
      rw [hr] at hread
      cases hread
    | ok as =>
      rw [hr] at hread
      cases hread
      rfl
  · exact LawfulArrayBackend.getTimestamps_eq (B := Hdf5File D) hs

end Hdf5File

namespace Hdf5Backend.Sample

theorem zeros_sized (t : Dtype) (shape : List ℕ) :
    (List.replicate (shape.prod * t.size) (0 : UInt8)).length = shape.prod * t.written.size := by
  rw [List.length_replicate, Dtype.written_size]

instance : H5Library Plain where
  create t shape chunk :=
    if 0 ∈ chunk.getD [] then .error (.integrityError "hdf5: a chunk edge is zero")
    else if (expectedBytes t shape).toOption.isNone then
      .error (.integrityError "hdf5: the size cannot be counted")
    else .ok ⟨t.written, shape, List.replicate (shape.prod * t.size) 0, zeros_sized t shape⟩
  writeSlice d t ranges bytes :=
    if h : (fillSlab t.size d.shape ranges bytes d.bytes).length = d.shape.prod * d.type.size then
      .ok ⟨d.type, d.shape, fillSlab t.size d.shape ranges bytes d.bytes, h⟩
    else .error (.integrityError "hdf5: the selection does not fit")
  writeRaw d _ bytes :=
    if h : bytes.length = d.shape.prod * d.type.size then .ok ⟨d.type, d.shape, bytes, h⟩
    else .error (.integrityError "hdf5: the elements do not fit")

theorem fillSlab_sized {d : Plain} {t : Dtype} {ranges : List (ℕ × ℕ)} {bytes : List UInt8}
    (htype : H5Dataset.elementType d = some t.written) (hin : InBounds ranges d.shape)
    (hbytes : bytes.length = boxSize ranges * t.size) :
    (fillSlab t.size d.shape ranges bytes d.bytes).length = d.shape.prod * d.type.size := by
  have htype : d.type = t.written := by
    injection htype
  have hsize : d.type.size = t.size := by rw [htype, Dtype.written_size]
  have hd := d.sized
  rw [hsize] at hd ⊢
  exact length_fillSlab hin hbytes hd

instance : LawfulH5Library Plain where
  create_ok := by
    intro t shape chunk d h
    unfold H5Library.create instH5LibraryPlain at h
    simp only at h
    split at h
    · cases h
    · rename_i hedges
      split at h
      · cases h
      · rename_i hsized
        cases h
        refine ⟨rfl, rfl, rfl, ?_, fun edges he hmem => ?_⟩
        · cases hn : expectedBytes t shape with
          | error e =>
            rw [hn] at hsized
            exact (hsized rfl).elim
          | ok n => exact ⟨n, rfl⟩
        · rw [he] at hedges
          exact hedges hmem
  writeSlice_ok := by
    intro d d' t ranges bytes htype hin hbytes h
    have hfit := fillSlab_sized htype hin hbytes
    have hw : H5Library.writeSlice d t ranges bytes =
        .ok ⟨d.type, d.shape, fillSlab t.size d.shape ranges bytes d.bytes, hfit⟩ := dif_pos hfit
    rw [hw] at h
    cases h
    exact ⟨rfl, rfl, rfl⟩
  writeSlice_total := by
    intro d t ranges bytes htype hin hbytes _
    have hfit := fillSlab_sized htype hin hbytes
    exact ⟨_, dif_pos hfit⟩
  writeRaw_ok := by
    intro d d' t bytes htype hbytes h
    have htype : d.type = t.written := by
      injection htype
    have hfit : bytes.length = d.shape.prod * d.type.size := by
      rw [htype, Dtype.written_size]
      exact hbytes
    have hw : H5Library.writeRaw d t bytes = .ok ⟨d.type, d.shape, bytes, hfit⟩ := dif_pos hfit
    rw [hw] at h
    cases h
    exact ⟨rfl, rfl, rfl⟩

theorem hash_length (n : UInt8) : (List.replicate 32 n).length = 32 := List.length_replicate

def hash (n : UInt8) : Hash32 := ⟨List.replicate 32 n, hash_length n⟩

/-- Two steps of bytes. -/
def pair (a b : UInt8) : TypedArray := ⟨.u8, [2], [a, b]⟩

def axis : PackGroup Hash32 := .irregular (hash 9)

/-- A block of two arrays, a put whose first write fails, a removal, and a put into the column freed. -/
def requests : List (BackendRequest Hash32) :=
  [.putPackedBlock [(hash 1, pair 1 2), (hash 2, pair 3 4)] axis,
    .putArray (hash 3) (pair 5 6) axis .standalone, .removeArray (hash 1),
    .putArray (hash 4) (pair 7 8) axis .packed]

/-- The third write of the library fails. -/
def faults : H5Faults := ⟨[], [false, false, true], []⟩

theorem pair_storable (a b : UInt8) : (pair a b).Storable := ⟨rfl, List.cons_ne_nil _ _⟩

theorem requests_proper : ∀ r ∈ requests, r.Proper := by
  unfold requests
  rw [List.forall_mem_cons, List.forall_mem_cons, List.forall_mem_cons, List.forall_mem_cons]
  refine ⟨⟨fun i hi => ?_, fun i hi j hj => ?_⟩, pair_storable 5 6, trivial, pair_storable 7 8,
    fun r hr => by cases hr⟩
  · rcases List.mem_pair.mp hi with rfl | rfl
    · exact pair_storable 1 2
    · exact pair_storable 3 4
  · rcases List.mem_pair.mp hi with rfl | rfl <;> rcases List.mem_pair.mp hj with rfl | rfl <;>
      exact ⟨rfl, rfl⟩

end Hdf5Backend.Sample

end InfraStore
