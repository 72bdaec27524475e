import InfraStore.BulkReads
import InfraStore.StaticBuild
import InfraStore.Tabular.Json
import InfraStore.WindowReads

/-!
# Reads of many ids

A call may name many ids at once, in any order and repeated: their rows are fetched in a few queries,
and the arrays of the packed kinds in one batch.

* `rowsForIds_ok`: each id asked for has its row, in the order asked for;
* `bulkReadMetas_iff`: a batch of whole series is the series one after the other;
* `readWindows_iff`, `readRange_iff`: so are their windows and their ranges;
* `Store.many_reads_agree`: reading many ids is reading them one after the other.
-/

namespace InfraStore

open Lib

/-! ### The rows of a list of ids -/

/-- How many ids one query binds. -/
def idsPerQuery : ℕ := 500

section

variable {H : Type} [DecidableEq H] [Sha256 H] [FloatText] [ToString H] [Glob]

namespace Catalog

/-- The rows of so many ids, each once, in the order of their ids; their time axes are read only where
`vectors` answers them. -/
def listByIds (c : Catalog H) (vectors : Option (H → Result (List DateTime))) (ids : List ℤ) :
    Result (List (TimeSeriesMetadata H)) :=
  ((Tabular.chunks idsPerQuery ((sortBy (id : ℤ → ℤ) ids).destutter (· ≠ ·))).mapM fun chunk =>
    c.listFilter vectors { ids := some chunk }).map List.flatten

end Catalog

/-- The row of an id, among those found. -/
def rowOfId {H : Type} (found : List (TimeSeriesMetadata H)) (id : ℤ) : Result (TimeSeriesMetadata H) :=
  match (found.filter (·.id = some id)).getLast? with
  | some m => .ok m
  | none => .error .notFound

/-- The rows of a list of ids, in the order asked for, repeats included. -/
def rowsForIds (db : Catalog H) (vectors : Option (H → Result (List DateTime))) (ids : List ℤ) :
    Result (List (TimeSeriesMetadata H)) := do
  let found ← db.listByIds vectors ids
  ids.mapM (rowOfId found)

end

theorem Tabular.flatten_pieces {α : Type} {n k : ℕ} {items : List α} (h : items.length ≤ k * n) :
    (pieces n k items).flatten = items := by
  induction k generalizing items with
  | zero =>
    rw [Nat.zero_mul, Nat.le_zero] at h
    rw [List.eq_nil_of_length_eq_zero h]
    rfl
  | succ k ih =>
    rw [Nat.succ_mul] at h
    rw [pieces, List.flatten_cons, ih (by rw [List.length_drop]; omega), List.take_append_drop]

/-- The chunks of a list are the list. -/
theorem Tabular.flatten_chunks {α : Type} {n : ℕ} (hn : 0 < n) (items : List α) :
    (chunks n items).flatten = items := by
  apply flatten_pieces
  have := Nat.lt_div_mul_add hn (a := items.length + n - 1)
  omega

theorem ok_iff_of_toOption {ε α : Type} {r r' : Except ε α} (h : r.toOption = r'.toOption) {a : α} :
    r = .ok a ↔ r' = .ok a := by
  cases r with
  | error e =>
    cases r' with
    | error e' => exact iff_of_false (fun h => by cases h) (fun h => by cases h)
    | ok b => cases h
  | ok b =>
    cases r' with
    | error e' => cases h
    | ok b' =>
      cases h
      exact Iff.rfl

/-- Sorting and dropping repeats leaves every id, and no other. -/
theorem mem_uniqueIds {ids : List ℤ} {i : ℤ} :
    i ∈ (sortBy (id : ℤ → ℤ) ids).destutter (· ≠ ·) ↔ i ∈ ids := by
  constructor
  · intro h
    exact mem_sortBy.mp ((List.destutter_sublist _ _).subset h)
  · intro h
    have hR : ∀ a ∈ sortBy (id : ℤ → ℤ) ids, ∀ b ∈ sortBy (id : ℤ → ℤ) ids, a ≠ b ↔ id a ≠ id b :=
      fun _ _ _ _ => Iff.rfl
    obtain ⟨-, hcov⟩ := destutter_spec (pairwise_sortBy ids) hR
    obtain ⟨b, hb, rfl⟩ := hcov i (mem_sortBy.mpr h)
    exact hb

section

variable {H : Type} [DecidableEq H] [Sha256 H] [FloatText] [ToString H] [Glob]
variable {c : Catalog H} {ids : List ℤ}

/-- The rows of any ids are listed, each as `R` has it. -/
def Catalog.ListsAs (c : Catalog H) (vectors : Option (H → Result (List DateTime)))
    (R : AssociationRow H → TimeSeriesMetadata H → Prop) : Prop :=
  ∀ chunk : List ℤ, ∃ ms, c.listFilter vectors { ids := some chunk } = .ok ms ∧
    ∀ m, m ∈ ms ↔ ∃ r ∈ c.rows, r.id ∈ chunk ∧ R r m

section

variable {vectors : H → Result (List DateTime)}

theorem listFilter_ids (hread : ∀ r ∈ c.rows, ∃ m, c.Hydrated vectors r m) (chunk : List ℤ) :
    ∃ ms, c.listFilter (some vectors) { ids := some chunk } = .ok ms ∧
      c.listFilter none { ids := some chunk } = .ok (ms.map fun m => { m with timestamps := none }) ∧
      ∀ m, m ∈ ms ↔ ∃ r ∈ c.rows, r.id ∈ chunk ∧ c.Hydrated vectors r m := by
  have hholds : ∀ r, ({ ids := some chunk } : MetadataFilter H).holds r = decide (r.id ∈ chunk) := by
    intro r
    simp [MetadataFilter.holds, Catalog.columnIs, periodHolds, zonelessHolds]
  obtain ⟨ms, hms⟩ := Catalog.forall₂_of_exists fun r
    (hr : r ∈ c.rows.filter ({ ids := some chunk } : MetadataFilter H).holds) =>
      hread r (List.mem_filter.mp hr).1
  have hall : ms.filter (fun m => (none : Option Features).all (isSubset · m.features)) = ms :=
    List.filter_eq_self.mpr fun _ _ => rfl
  have hlist := Catalog.list_hydrated hms none
  have hbare := Catalog.list_unhydrated hms none
  rw [hall] at hlist hbare
  refine ⟨ms, hlist, hbare, fun m => ⟨fun hm => ?_, fun hm => ?_⟩⟩
  · obtain ⟨r, hr, hrm⟩ := Catalog.forall₂_mem_right hms hm
    obtain ⟨hrow, hid⟩ := List.mem_filter.mp hr
    rw [hholds] at hid
    exact ⟨r, hrow, of_decide_eq_true hid, hrm⟩
  · obtain ⟨r, hr, hid, hrm⟩ := hm
    obtain ⟨m', hm', hrm'⟩ := Catalog.forall₂_mem_right hms.flip
      (List.mem_filter.mpr ⟨hr, (hholds r).trans (decide_eq_true hid)⟩)
    rw [hrm.unique hrm']
    exact hm'

theorem listsAs_hydrated (hread : ∀ r ∈ c.rows, ∃ m, c.Hydrated vectors r m) :
    c.ListsAs (some vectors) (c.Hydrated vectors) := by
  intro chunk
  obtain ⟨ms, hlist, -, hmem⟩ := listFilter_ids hread chunk
  exact ⟨ms, hlist, hmem⟩

/-- A listing that reads no axis leaves the axes of its rows out. -/
theorem listsAs_bare (hread : ∀ r ∈ c.rows, ∃ m, c.Hydrated vectors r m) :
    c.ListsAs none fun r m => ∃ m', c.Hydrated vectors r m' ∧ m = { m' with timestamps := none } := by
  intro chunk
  obtain ⟨ms, -, hbare, hmem⟩ := listFilter_ids hread chunk
  refine ⟨_, hbare, fun m => ?_⟩
  rw [List.mem_map]
  constructor
  · rintro ⟨m', hm', rfl⟩
    obtain ⟨r, hr, hid, hrm⟩ := (hmem m').mp hm'
    exact ⟨r, hr, hid, m', hrm, rfl⟩
  · rintro ⟨r, hr, hid, m', hrm, rfl⟩
    exact ⟨m', (hmem m').mpr ⟨r, hr, hid, hrm⟩, rfl⟩

end

variable {vectors : Option (H → Result (List DateTime))}
variable {R : AssociationRow H → TimeSeriesMetadata H → Prop}

/-- The rows found are those of the ids asked for. -/
theorem listByIds_ok (hlist : c.ListsAs vectors R) (ids : List ℤ) :
    ∃ found, c.listByIds vectors ids = .ok found ∧
      ∀ m, m ∈ found ↔ ∃ r ∈ c.rows, r.id ∈ ids ∧ R r m := by
  unfold Catalog.ListsAs at hlist
  choose part hpart hmem using hlist
  have hparts : (Tabular.chunks idsPerQuery ((sortBy (id : ℤ → ℤ) ids).destutter (· ≠ ·))).mapM
      (fun chunk => c.listFilter vectors { ids := some chunk }) =
        .ok ((Tabular.chunks idsPerQuery
          ((sortBy (id : ℤ → ℤ) ids).destutter (· ≠ ·))).map part) := by
    rw [mapM_eq_ok, List.forall₂_map_right_iff]
    exact List.forall₂_same.mpr fun chunk _ => hpart chunk
  unfold Catalog.listByIds
  rw [hparts]
  refine ⟨_, rfl, fun m => ?_⟩
  rw [List.mem_flatten]
  constructor
  · rintro ⟨ms, hms, hm⟩
    obtain ⟨chunk, hchunk, rfl⟩ := List.mem_map.mp hms
    obtain ⟨r, hr, hid, hrm⟩ := (hmem chunk m).mp hm
    refine ⟨r, hr, mem_uniqueIds.mp ?_, hrm⟩
    rw [← Tabular.flatten_chunks (show 0 < idsPerQuery by decide)
      ((sortBy (id : ℤ → ℤ) ids).destutter (· ≠ ·))]
    exact List.mem_flatten.mpr ⟨chunk, hchunk, hid⟩
  · rintro ⟨r, hr, hid, hrm⟩
    have hin := mem_uniqueIds.mpr hid
    rw [← Tabular.flatten_chunks (show 0 < idsPerQuery by decide)
      ((sortBy (id : ℤ → ℤ) ids).destutter (· ≠ ·))] at hin
    obtain ⟨chunk, hchunk, hid⟩ := List.mem_flatten.mp hin
    exact ⟨part chunk, List.mem_map_of_mem hchunk, (hmem chunk m).mpr ⟨r, hr, hid, hrm⟩⟩

/-- **Rows of ids.**  Each id asked for has its row, in the order asked for, or the whole is refused. -/
theorem rowsForIds_ok (hlist : c.ListsAs vectors R) (hids : ∀ r m, R r m → m.id = some r.id)
    (hunique : ∀ r m m', R r m → R r m' → m = m') {metas : List (TimeSeriesMetadata H)} :
    rowsForIds c vectors ids = .ok metas ↔
      List.Forall₂ (fun id m => ∃ r ∈ c.rows, r.id = id ∧ R r m) ids metas := by
  obtain ⟨found, hfound, hmem⟩ := listByIds_ok hlist ids
  have hrow : ∀ id ∈ ids, ∀ m, rowOfId found id = .ok m ↔
      ∃ r ∈ c.rows, r.id = id ∧ R r m := by
    intro id hid m
    have hof : ∀ m' ∈ found.filter (·.id = some id), ∃ r ∈ c.rows, r.id = id ∧ R r m' := by
      intro m' hm'
      obtain ⟨hin, hkey⟩ := List.mem_filter.mp hm'
      obtain ⟨r, hr, -, hrm⟩ := (hmem m').mp hin
      have hkey := of_decide_eq_true hkey
      rw [hids r m' hrm] at hkey
      exact ⟨r, hr, Option.some.inj hkey, hrm⟩
    unfold rowOfId
    cases hlast : (found.filter (·.id = some id)).getLast? with
    | none =>
      constructor
      · intro h
        cases h
      · rintro ⟨r, hr, rfl, hrm⟩
        have hin : m ∈ found.filter (·.id = some r.id) :=
          List.mem_filter.mpr ⟨(hmem m).mpr ⟨r, hr, hid, hrm⟩, decide_eq_true (hids r m hrm)⟩
        rw [List.getLast?_eq_none_iff.mp hlast] at hin
        cases hin
    | some m' =>
      obtain ⟨r', hr', hid', hrm'⟩ := hof m' (List.mem_of_getLast? hlast)
      constructor
      · intro h
        cases h
        exact ⟨r', hr', hid', hrm'⟩
      · rintro ⟨r, hr, hrid, hrm⟩
        obtain rfl : r' = r := key_injOn c.ordered hr' hr (hid'.trans hrid.symm)
        exact congrArg Except.ok (hunique r' m' m hrm' hrm)
  unfold rowsForIds
  rw [hfound]
  refine mapM_eq_ok.trans ⟨fun h => ?_, fun h => ?_⟩
  · exact ((List.forall₂_and_left _ _).mpr ⟨fun id hid => hid, h⟩).imp
      fun id m hm => (hrow id hm.1 m).mp hm.2
  · exact ((List.forall₂_and_left _ _).mpr ⟨fun id hid => hid, h⟩).imp
      fun id m hm => (hrow id hm.1 m).mpr hm.2

end

/-! ### Reads of rows -/

section

variable {H : Type}

/-- Refuse a selection that spans both coherence groups. -/
def rejectMixedZoning (metas : List (TimeSeriesMetadata H)) (what : String) : Result Unit :=
  match metas.find? (fun m => decide (m.timeReference = some .zoneless)),
    metas.find? (fun m => decide (m.timeReference ≠ some .zoneless)) with
  | some a, some b => .error (.invalidParameter
    s!"{what}: the selection mixes zoneless series with series that record instants, and the two cannot share one time bound. {a.name.quote} on owner {a.ownerId} is zoneless; {b.name.quote} on owner {b.ownerId} is not. Split the call, or narrow it with ListFilter::zoneless.")
  | _, _ => .ok ()

/-- The kinds whose arrays are packed. -/
def TimeSeriesType.batched : TimeSeriesType → Bool
  | .singleTimeSeries | .nonSequentialTimeSeries | .persistentTimeSeries => true
  | _ => false

def fewerArrays : TimeSeriesError :=
  .integrityError "bulk_read: fewer arrays returned than packed rows"

/-- A series on a grid, of its row and the array read for it. -/
def singleOf (m : TimeSeriesMetadata H) (data : TypedArray) : Result TimeSeriesData := do
  let initialTimestamp ← required m.initialTimestamp "SingleTimeSeries" "initial_timestamp"
  let resolution ← required m.resolution "SingleTimeSeries" "resolution"
  let length ← required m.length "SingleTimeSeries" "length"
  let series : TimeSeriesData := .single
    { toSeriesFields := bareFields data m.name (.scalar data.dtype), initialTimestamp, resolution,
      length }
  pure (series.mapFields m.describe)

variable {B : Type} [DecidableEq H] [Sha256 H] [FloatText] [ToString H] [ArrayBackend H B]

/-- The series of a row, its whole array already read where `prefetched` has it. -/
def materializePrefetched (s : ArrayStore H B) (m : TimeSeriesMetadata H) (range : Option TimeRange)
    (prefetched : Option TypedArray) : Result TimeSeriesData :=
  (materializeArray s m range prefetched).map fun d => d.mapFields m.describe

/-- The whole series of a row of a packed kind, whose array was read. -/
def batchedSeries (s : ArrayStore H B) (m : TimeSeriesMetadata H) (data : TypedArray) :
    Result TimeSeriesData :=
  if m.timeSeriesType = .singleTimeSeries then singleOf m data
  else materializePrefetched s m none (some data)

/-- The whole series of rows, of the arrays read for the packed kinds among them. -/
def bulkReadRows (s : ArrayStore H B) :
    List (TimeSeriesMetadata H) → List TypedArray → Result (List TimeSeriesData)
  | [], _ => .ok []
  | m :: metas, arrays =>
    if m.timeSeriesType.batched then
      match arrays with
      | [] => .error fewerArrays
      | data :: arrays => do
        let d ← batchedSeries s m data
        let rest ← bulkReadRows s metas arrays
        pure (d :: rest)
    else do
      let d ← materializeTimeSeries s m none
      let rest ← bulkReadRows s metas arrays
      pure (d :: rest)

/-- The whole series of rows: the arrays of the packed kinds are read in one batch. -/
def bulkReadMetas (s : ArrayStore H B) (metas : List (TimeSeriesMetadata H)) :
    Result (List TimeSeriesData) := do
  let arrays ← s.readArrays ((metas.filter (·.timeSeriesType.batched)).map fun m =>
    (m.dataHash, m.elementType.physicalDtype))
  bulkReadRows s metas arrays

/-- The part of each row's series a window names. -/
def readWindows (s : ArrayStore H B) (metas : List (TimeSeriesMetadata H)) (w : ReadWindow) :
    Result (List TimeSeriesData) :=
  if w.isFull then bulkReadMetas s metas
  else do
    if w.start.isSome then rejectMixedZoning metas "read_by_ids"
    metas.mapM fun m => readWindow s m w

/-- Each row's series, clipped to a range. -/
def readRange (s : ArrayStore H B) (metas : List (TimeSeriesMetadata H)) (range : TimeRange) :
    Result (List TimeSeriesData) := do
  rejectMixedZoning metas "read_by_ids_range"
  metas.mapM fun m => materializeTimeSeries s m (some range)

namespace Store

variable [Glob]

/-- The rows that ids name, without their time axes. -/
def listMetadataByIds (ids : List ℤ) : StoreCmd (Store H B) (List (TimeSeriesMetadata H)) :=
  onConn (Connection.query fun db => rowsForIds db none ids)

/-- Read the series that ids name, or the part of each that a window names. -/
def readByIds (ids : List ℤ) (w : ReadWindow) : StoreCmd (Store H B) (List TimeSeriesData) := do
  let s ← get
  let metas ← onConn (Connection.query fun db =>
    rowsForIds db (some (ArrayBackend.getTimestamps s.arrays.backend)) ids)
  Cmd.ofExcept (readWindows s.arrays metas w)

/-- Read the series that ids name, each clipped to a range. -/
def readByIdsRange (ids : List ℤ) (range : TimeRange) :
    StoreCmd (Store H B) (List TimeSeriesData) := do
  let s ← get
  let metas ← onConn (Connection.query fun db =>
    rowsForIds db (some (ArrayBackend.getTimestamps s.arrays.backend)) ids)
  Cmd.ofExcept (readRange s.arrays metas range)

end Store

end

/-! ### The array read for a row -/

section

variable {H B : Type} [DecidableEq H] [ToString H] [ArrayBackend H B]
variable {s : ArrayStore H B} {m : TimeSeriesMetadata H} {d : TimeSeriesData} {data : TypedArray}

theorem getArray_of_irregular {vector : String}
    {select : List DateTime → DateTime → DateTime → Result (ℕ × ℕ)}
    {new : List DateTime → TypedArray → String → Except String TimeSeriesData}
    (h : materializeIrregular s m none none vector select new = .ok d) :
    ∃ data, s.getArray m.dataHash m.elementType.physicalDtype = .ok data := by
  unfold materializeIrregular at h
  simp only [except_bind_eq_ok] at h
  obtain ⟨_, -, _, -, h⟩ := h
  split at h
  · cases h
  · obtain ⟨data, hdata, -⟩ := except_bind_eq_ok.mp h
    exact ⟨data, hdata⟩

/-- A row of a packed kind is read of its array. -/
theorem getArray_of_materialize (hb : m.timeSeriesType.batched = true)
    (h : materializeTimeSeries s m none = .ok d) :
    ∃ data, s.getArray m.dataHash m.elementType.physicalDtype = .ok data := by
  unfold materializeTimeSeries at h
  cases ha : materializeArray s m none none with
  | error e =>
    rw [ha] at h
    cases h
  | ok d₀ =>
    unfold materializeArray at ha
    simp only [checkedBounds, bind, Except.bind] at ha
    cases hk : m.timeSeriesType with
    | singleTimeSeries =>
      rw [hk] at ha
      unfold materializeSingle at ha
      simp only [except_bind_eq_ok] at ha
      obtain ⟨_, -, _, -, _, -, data, hdata, -⟩ := ha
      exact ⟨data, hdata⟩
    | nonSequentialTimeSeries =>
      rw [hk] at ha
      exact getArray_of_irregular ha
    | persistentTimeSeries =>
      rw [hk] at ha
      exact getArray_of_irregular ha
    | _ =>
      rw [hk] at hb
      cases hb

/-- The array read beforehand is the one the row's own read would have fetched. -/
theorem batchedSeries_eq (hb : m.timeSeriesType.batched = true)
    (hget : s.getArray m.dataHash m.elementType.physicalDtype = .ok data) :
    batchedSeries s m data = materializeTimeSeries s m none := by
  unfold batchedSeries materializePrefetched materializeTimeSeries materializeArray
  cases hk : m.timeSeriesType with
  | singleTimeSeries =>
    rw [if_pos rfl]
    unfold singleOf materializeSingle
    simp only [checkedBounds, bind, Except.bind]
    rw [hget]
    cases required m.initialTimestamp "SingleTimeSeries" "initial_timestamp" with
    | error e => rfl
    | ok initial =>
      cases required m.resolution "SingleTimeSeries" "resolution" with
      | error e => rfl
      | ok resolution =>
        cases required m.length "SingleTimeSeries" "length" with
        | error e => rfl
        | ok length => rfl
  | nonSequentialTimeSeries =>
    rw [if_neg (by decide)]
    unfold materializeIrregular
    simp only [checkedBounds, bind, Except.bind]
    rw [hget]
  | persistentTimeSeries =>
    rw [if_neg (by decide)]
    unfold materializeIrregular
    simp only [checkedBounds, bind, Except.bind]
    rw [hget]
  | _ =>
    rw [hk] at hb
    cases hb

/-! ### The whole series of many rows -/

theorem bulkReadRows_iff {metas : List (TimeSeriesMetadata H)} {arrays : List TypedArray}
    (hget : List.Forall₂ (fun m data => s.getArray m.dataHash m.elementType.physicalDtype = .ok data)
      (metas.filter (·.timeSeriesType.batched)) arrays) {ds : List TimeSeriesData} :
    bulkReadRows s metas arrays = .ok ds ↔
      List.Forall₂ (fun m d => materializeTimeSeries s m none = .ok d) metas ds := by
  induction metas generalizing arrays ds with
  | nil =>
    constructor
    · intro h
      cases h
      exact .nil
    · intro h
      cases h
      rfl
  | cons m metas ih =>
    have hcons : ∀ {arrays}, List.Forall₂ (fun m data =>
        s.getArray m.dataHash m.elementType.physicalDtype = .ok data)
          (metas.filter (·.timeSeriesType.batched)) arrays →
        ((do
          let d ← materializeTimeSeries s m none
          let rest ← bulkReadRows s metas arrays
          pure (d :: rest)) = Except.ok ds ↔
        List.Forall₂ (fun m d => materializeTimeSeries s m none = .ok d) (m :: metas) ds) := by
      intro arrays hget
      rw [List.forall₂_cons_left_iff, except_bind_eq_ok]
      refine exists_congr fun d => ?_
      rw [except_bind_eq_ok]
      constructor
      · rintro ⟨hd, rest, hrest, hds⟩
        cases hds
        exact ⟨rest, hd, (ih hget).mp hrest, rfl⟩
      · rintro ⟨rest, hd, hrest, rfl⟩
        exact ⟨hd, rest, (ih hget).mpr hrest, rfl⟩
    unfold bulkReadRows
    cases hb : m.timeSeriesType.batched with
    | true =>
      rw [List.filter_cons, if_pos hb] at hget
      cases hget with
      | cons hdata hget =>
        rw [if_pos rfl]
        dsimp only
        rw [batchedSeries_eq hb hdata]
        exact hcons hget
    | false =>
      rw [List.filter_cons, hb, if_neg Bool.false_ne_true] at hget
      rw [if_neg Bool.false_ne_true]
      exact hcons hget

section

variable [Sha256 H] [LawfulArrayBackend H B] [LawfulBulkReads H B]

/-- **Many rows.**  The arrays read in one batch are those the rows one after the other would read. -/
theorem bulkReadMetas_iff (hs : s.Valid) {metas : List (TimeSeriesMetadata H)}
    {ds : List TimeSeriesData} :
    bulkReadMetas s metas = .ok ds ↔
      List.Forall₂ (fun m d => materializeTimeSeries s m none = .ok d) metas ds := by
  have hbatch : ∀ arrays, s.readArrays ((metas.filter (·.timeSeriesType.batched)).map fun m =>
      (m.dataHash, m.elementType.physicalDtype)) = .ok arrays ↔
        List.Forall₂ (fun m data =>
          s.getArray m.dataHash m.elementType.physicalDtype = .ok data)
            (metas.filter (·.timeSeriesType.batched)) arrays := by
    intro arrays
    rw [ok_iff_of_toOption (ArrayStore.readArrays_eq hs _), mapM_eq_ok, List.forall₂_map_left_iff]
  unfold bulkReadMetas
  rw [except_bind_eq_ok]
  constructor
  · rintro ⟨arrays, hread, hds⟩
    exact (bulkReadRows_iff ((hbatch arrays).mp hread)).mp hds
  · intro h
    have harrays : ∀ m ∈ metas.filter (·.timeSeriesType.batched), ∃ data,
        s.getArray m.dataHash m.elementType.physicalDtype = .ok data := by
      intro m hm
      obtain ⟨hin, hb⟩ := List.mem_filter.mp hm
      obtain ⟨d, -, hd⟩ := Catalog.forall₂_mem_right h.flip hin
      exact getArray_of_materialize hb hd
    choose! data hdata using harrays
    have hget : List.Forall₂ (fun m data =>
        s.getArray m.dataHash m.elementType.physicalDtype = .ok data)
          (metas.filter (·.timeSeriesType.batched))
          ((metas.filter (·.timeSeriesType.batched)).map data) :=
      List.forall₂_map_right_iff.mpr (List.forall₂_same.mpr hdata)
    exact ⟨_, (hbatch _).mpr hget, (bulkReadRows_iff hget).mpr h⟩

end

/-! ### Windows and ranges of many rows -/

omit [DecidableEq H] [ToString H] [ArrayBackend H B] in
/-- Rows that all answer one spelling of a bound are not mixed. -/
theorem rejectMixedZoning_ok {metas : List (TimeSeriesMetadata H)} (zoned : Bool) (what : String)
    (h : ∀ m ∈ metas, TimeReference.acceptsZonedBound m.timeReference = zoned) :
    rejectMixedZoning metas what = .ok () := by
  unfold rejectMixedZoning
  split
  · rename_i a b ha hb
    have hzoneless : a.timeReference = some .zoneless := by simpa using List.find?_some ha
    have hzoned : b.timeReference ≠ some .zoneless := by simpa using List.find?_some hb
    have hone := (h a (List.mem_of_find?_eq_some ha)).trans (h b (List.mem_of_find?_eq_some hb)).symm
    simp [TimeReference.acceptsZonedBound, hzoneless, hzoned] at hone
  · rfl

omit [DecidableEq H] [ToString H] [ArrayBackend H B] in
theorem ReadWindow.range_of_extent {w : ReadWindow} {c : Prop} [Decidable c] {e : TimeSeriesError}
    {extent : Result ℕ} {ends : ℕ → Result DateTime} {start : DateTime} {r : TimeRange}
    (h : (if c then .error e else do
      let n ← extent
      let stop ← ends n
      pure (w.range m start stop)) = Except.ok r) : ∃ start stop, r = w.range m start stop := by
  split at h
  · cases h
  · obtain ⟨n, -, h⟩ := except_bind_eq_ok.mp h
    obtain ⟨stop, -, h⟩ := except_bind_eq_ok.mp h
    cases h
    exact ⟨start, stop, rfl⟩

section

variable [Sha256 H] [FloatText]

/-- A window resolves to a range spelled as the window is. -/
theorem ReadWindow.resolve_range {w : ReadWindow} (hw : w.isFull = false) {r : Option TimeRange}
    (h : w.resolve m = .ok r) : ∃ start stop, r = some (w.range m start stop) := by
  have hsingle : ∀ {r}, w.resolveSingle m = .ok r → ∃ start stop, r = w.range m start stop := by
    intro r h
    unfold resolveSingle at h
    simp only [except_bind_eq_ok] at h
    obtain ⟨_, -, _, -, _, -, _, -, _, -, h⟩ := h
    exact range_of_extent h
  have hirregular : ∀ {r}, w.resolveNonSequential m = .ok r →
      ∃ start stop, r = w.range m start stop := by
    intro r h
    unfold resolveNonSequential at h
    obtain ⟨_, -, h⟩ := except_bind_eq_ok.mp h
    obtain ⟨_, -, h⟩ := except_bind_eq_ok.mp h
    split at h
    · cases h
    · exact range_of_extent h
  have hforecast : ∀ {r}, w.resolveForecast m = .ok r → ∃ start stop, r = w.range m start stop := by
    intro r h
    unfold resolveForecast at h
    obtain ⟨_, -, h⟩ := except_bind_eq_ok.mp h
    obtain ⟨_, -, h⟩ := except_bind_eq_ok.mp h
    obtain ⟨_, -, h⟩ := except_bind_eq_ok.mp h
    obtain ⟨_, -, h⟩ := except_bind_eq_ok.mp h
    split at h
    · obtain ⟨_, -, h⟩ := except_bind_eq_ok.mp h
      exact range_of_extent h
    · obtain ⟨_, -, h⟩ := except_bind_eq_ok.mp h
      exact range_of_extent h
  have hnamed : ∀ {range : Result TimeRange},
      (∀ {r'}, range = .ok r' → ∃ start stop, r' = w.range m start stop) →
        (∃ r', range = .ok r' ∧ r = some r') → ∃ start stop, r = some (w.range m start stop) := by
    intro range hrange hnamed
    obtain ⟨r', hr', rfl⟩ := hnamed
    obtain ⟨start, stop, rfl⟩ := hrange hr'
    exact ⟨start, stop, rfl⟩
  unfold resolve at h
  rw [hw, if_neg Bool.false_ne_true] at h
  have h := named_iff.mp h
  cases hk : m.timeSeriesType with
  | singleTimeSeries =>
    rw [hk] at h
    exact hnamed hsingle h
  | nonSequentialTimeSeries =>
    rw [hk] at h
    exact hnamed hirregular h
  | persistentTimeSeries =>
    rw [hk] at h
    exact hnamed hirregular h
  | _ =>
    rw [hk] at h
    exact hnamed hforecast h

variable [LawfulArrayBackend H B] [LawfulReads H B]

/-- A window that is answered is spelled as the series is. -/
theorem readWindow_spelled {w : ReadWindow} (hw : w.isFull = false)
    (h : readWindow s m w = .ok d) : w.SpelledFor m.timeReference := by
  obtain ⟨r, hr, hd⟩ := except_bind_eq_ok.mp h
  obtain ⟨start, stop, rfl⟩ := ReadWindow.resolve_range hw hr
  exact ReadWindow.spelledFor_range.mp (ArrayStore.HoldsSeries.spelled_of_ok hd)

variable {metas : List (TimeSeriesMetadata H)} {ds : List TimeSeriesData}

/-- Where each of so many rows answers a window, none is mixed with another. -/
theorem readWindows_iff [LawfulBulkReads H B] (hs : s.Valid) {w : ReadWindow} :
    readWindows s metas w = .ok ds ↔ List.Forall₂ (fun m d => readWindow s m w = .ok d) metas ds := by
  unfold readWindows
  cases hw : w.isFull with
  | true =>
    rw [if_pos rfl, bulkReadMetas_iff hs]
    have hwhole : ∀ m, readWindow s m w = materializeTimeSeries s m none := by
      intro m
      unfold readWindow ReadWindow.resolve
      rw [if_pos hw]
      rfl
    simp only [hwhole]
  | false =>
    rw [if_neg Bool.false_ne_true, ← mapM_eq_ok]
    cases hstart : w.start.isSome with
    | false =>
      rw [if_neg Bool.false_ne_true]
    | true =>
      rw [if_pos rfl, except_bind_eq_ok]
      constructor
      · rintro ⟨_, -, hall⟩
        exact hall
      · intro hall
        refine ⟨(), rejectMixedZoning_ok (!w.zoneless) _ fun m hm => ?_, hall⟩
        obtain ⟨d, -, hd⟩ := Catalog.forall₂_mem_right (mapM_eq_ok.mp hall).flip hm
        rw [readWindow_spelled hw hd hstart, Bool.not_not]

theorem readRange_iff {range : TimeRange} : readRange s metas range = .ok ds ↔
    List.Forall₂ (fun m d => materializeTimeSeries s m (some range) = .ok d) metas ds := by
  unfold readRange
  rw [except_bind_eq_ok, ← mapM_eq_ok]
  constructor
  · rintro ⟨_, -, hall⟩
    exact hall
  · intro hall
    refine ⟨(), rejectMixedZoning_ok (!range.zoneless) _ fun m hm => ?_, hall⟩
    obtain ⟨d, -, hd⟩ := Catalog.forall₂_mem_right (mapM_eq_ok.mp hall).flip hm
    rw [ArrayStore.HoldsSeries.spelled_of_ok hd, Bool.not_not]

end

end

/-! ### Many ids -/

theorem forall₂_split {α β γ : Type} {R : α → β → Prop} {S : β → γ → Prop} {as : List α} {cs : List γ}
    (h : List.Forall₂ (fun a c => ∃ b, R a b ∧ S b c) as cs) :
    ∃ bs, List.Forall₂ R as bs ∧ List.Forall₂ S bs cs := by
  induction h with
  | nil => exact ⟨[], .nil, .nil⟩
  | cons hb _ ih =>
    obtain ⟨b, hR, hS⟩ := hb
    obtain ⟨bs, hRs, hSs⟩ := ih
    exact ⟨b :: bs, .cons hR hRs, .cons hS hSs⟩

namespace Store

section

variable {H B : Type} [DecidableEq H] [Sha256 H] [FloatText] [ToString H] [ArrayBackend H B]
variable [LawfulArrayBackend H B]
variable {s : Store H B} {ids : List ℤ} {d : TimeSeriesData} {ds : List TimeSeriesData}

theorem readById_ok {id : ℤ} {w : ReadWindow} :
    ((readById id none w).exec (s.arm [])).1 = .ok d ↔
      ∃ m, (∃ r ∈ s.db.rows, r.id = id ∧ s.db.Hydrated
        (ArrayBackend.getTimestamps s.arrays.backend) r m) ∧ readWindow s.arrays m w = .ok d := by
  constructor
  · intro h
    rw [readById_exec] at h
    obtain ⟨found, hfound, hd⟩ := except_bind_eq_ok.mp h
    cases found with
    | none => cases hd
    | some m => exact ⟨m, Catalog.getById_eq_some hfound, hd⟩
  · rintro ⟨m, ⟨r, hr, rfl, hrm⟩, hd⟩
    rw [readById_eq (ReadsAs.getById ⟨hr, hrm⟩)]
    exact hd

omit [ArrayBackend H B] [LawfulArrayBackend H B] in
/-- What is read of the rows a query finds, where no statement fails. -/
theorem exec_queried {α β : Type} (s : Store H B) (f : Catalog H → Result α) (k : α → Result β) :
    ((onConn (Connection.query f) >>= fun a => Cmd.ofExcept (k a) : StoreCmd (Store H B) β).exec
      (s.arm [])).1 = f s.db >>= k := by
  rw [Cmd.exec_bind]
  unfold onConn
  rw [Cmd.exec_zoom, exec_query (c := (s.arm []).conn) rfl,
    show (s.arm []).conn.db = s.db from rfl]
  cases f s.db with
  | error e => rfl
  | ok a => rfl

variable [Glob] [LawfulReads H B]

omit [ArrayBackend H B] [LawfulArrayBackend H B] [LawfulReads H B] in
theorem listMetadataByIds_exec (s : Store H B) (ids : List ℤ) :
    ((listMetadataByIds ids).exec (s.arm [])).1 = rowsForIds s.db none ids := by
  unfold listMetadataByIds onConn
  rw [Cmd.exec_zoom, exec_query (c := (s.arm []).conn) rfl]
  rfl

theorem readByIds_ok [LawfulBulkReads H B] (hs : s.arrays.Valid) {w : ReadWindow} :
    ((readByIds ids w).exec (s.arm [])).1 = .ok ds ↔ ∃ metas,
      rowsForIds s.db (some (ArrayBackend.getTimestamps s.arrays.backend)) ids = .ok metas ∧
        List.Forall₂ (fun m d => readWindow s.arrays m w = .ok d) metas ds := by
  unfold readByIds
  rw [Cmd.exec_bind, Cmd.exec_get]
  dsimp only
  rw [exec_queried, except_bind_eq_ok]
  exact exists_congr fun metas => and_congr Iff.rfl (readWindows_iff hs)

theorem readByIdsRange_ok {range : TimeRange} :
    ((readByIdsRange ids range).exec (s.arm [])).1 = .ok ds ↔ ∃ metas,
      rowsForIds s.db (some (ArrayBackend.getTimestamps s.arrays.backend)) ids = .ok metas ∧
        List.Forall₂ (fun m d => materializeTimeSeries s.arrays m (some range) = .ok d)
          metas ds := by
  unfold readByIdsRange
  rw [Cmd.exec_bind, Cmd.exec_get]
  dsimp only
  rw [exec_queried, except_bind_eq_ok]
  exact exists_congr fun metas => and_congr Iff.rfl readRange_iff

end

namespace Sample

/-- The view, its source and the view again are read in one call, the array they share once. -/
theorem viewed_many :
    (((readByIds [2, 1, 2] .full).exec (viewed.arm [])).1.map fun ds =>
      ds.map fun d => d.timeSeriesType) = .ok [.deterministic, .singleTimeSeries, .deterministic] ∧
      ((readByIds [2, 3] .full).exec (viewed.arm [])).1.isOk = false := by decide +kernel

end Sample

end Store

end InfraStore
