import InfraStore.Tabular.MergeJoin
import Mathlib.Data.List.Sort

/-!
# Reading a partition's files

The three readers of a partition: the arrays file whole (`readArrays`), the values file one array's
rows at a time (`ValuesReader`) and the series file one key's rows at a time (`SeriesReader`).  The last
two read record batches, cut them into runs of one array, and hold the open run across batches.  A
record batch is modelled as the rows its columns decode to and the schema they share.

* `valuesAnswers_spec`, `seriesAnswers_spec`: what each reader answers, whatever the batches;
* `readPartition_exact`: what a whole partition read returns, in terms of the rows alone.
-/

namespace InfraStore.Tabular

open InfraStore.Lib

/-! ### The arrays file -/

/-- What the arrays file resolves each `array_id` to.  Ids and keys ascend together, which is what makes
a half sorted by `array_id` sorted by key. -/
structure ArraysTable where
  rows : List (ℤ × ArrayKey)
  ascending : rows.Pairwise fun a b => a.1 < b.1 ∧ a.2 < b.2

namespace ArraysTable

def empty : ArraysTable := ⟨[], List.Pairwise.nil⟩

/-- The key an id stands for. -/
def get (t : ArraysTable) (id : ℤ) : Option ArrayKey :=
  (t.rows.find? fun r => r.1 = id).map Prod.snd

/-- Whether a row ascends past the last one. -/
def Ascends (t : ArraysTable) (row : ℤ × ArrayKey) : Prop :=
  ∀ last ∈ t.rows.getLast?, last.1 < row.1 ∧ last.2 < row.2

instance (t : ArraysTable) (row : ℤ × ArrayKey) : Decidable (t.Ascends row) :=
  inferInstanceAs (Decidable (∀ last ∈ t.rows.getLast?, last.1 < row.1 ∧ last.2 < row.2))

/-- A row that ascends past the last one ascends past every one. -/
theorem Ascends.all {t : ArraysTable} {row : ℤ × ArrayKey} (h : t.Ascends row) :
    ∀ r ∈ t.rows, r.1 < row.1 ∧ r.2 < row.2 := by
  intro r hr
  obtain ⟨init, last, hrows⟩ : ∃ init last, t.rows = init ++ [last] :=
    ⟨_, _, (List.dropLast_concat_getLast (List.ne_nil_of_mem hr)).symm⟩
  have hlast := h last (by simp [hrows])
  have hasc := t.ascending
  rw [hrows] at hr hasc
  rcases List.mem_append.mp hr with hr | hr
  · have := (List.pairwise_append.mp hasc).2.2 r hr last (List.mem_singleton_self last)
    exact ⟨this.1.trans hlast.1, this.2.trans hlast.2⟩
  · rw [List.mem_singleton.mp hr]
    exact hlast

/-- File one more row of the arrays file. -/
def push (path : String) (t : ArraysTable) (row : ℤ × ArrayKey) : Result ArraysTable :=
  if h : t.Ascends row then
    .ok ⟨t.rows ++ [row], List.pairwise_append.mpr
      ⟨t.ascending, List.pairwise_singleton _ _, by simpa using h.all⟩⟩
  else
    .error (unsupported s!"{path} is not sorted: `id` and (`data_hash`, `time_axis`) must both strictly ascend, row by row")

/-- Different ids stand for different keys. -/
theorem get_injective {t : ArraysTable} {i j : ℤ} {k : ArrayKey} (hi : t.get i = some k)
    (hj : t.get j = some k) : i = j := by
  unfold get at hi hj
  obtain ⟨a, ha, hak⟩ := Option.map_eq_some_iff.mp hi
  obtain ⟨b, hb, hbk⟩ := Option.map_eq_some_iff.mp hj
  have hai := List.find?_some ha
  have hbj := List.find?_some hb
  simp only [decide_eq_true_eq] at hai hbj
  have hsorted : (t.rows.map Prod.snd).Pairwise (· < ·) := by
    rw [List.pairwise_map]
    exact t.ascending.imp And.right
  have hab : a = b := List.inj_on_of_nodup_map hsorted.nodup (List.mem_of_find?_eq_some ha)
    (List.mem_of_find?_eq_some hb) (hak.trans hbk.symm)
  rw [← hai, ← hbj, hab]

end ArraysTable

/-- Read an arrays file, checking that `id` and the key it stands for ascend together. -/
def readArrays (path : String) (rows : List (ℤ × ArrayKey)) : Result ArraysTable :=
  rows.foldlM (ArraysTable.push path) .empty

/-! ### The values file -/

/-- What the batches of one values file share: whether it has an `array_id` column, and the type and
zone of its columns. -/
structure ValuesSchema where
  keyed : Bool
  dims : List ℕ
  dtype : Dtype
  zone : Option String

/-- One row of a values file. -/
structure ValuesRow where
  arrayId : ℤ
  timestamp : DateTime
  issue : Option DateTime
  lane : Option LaneValue
  bytes : List UInt8

/-- What a values reader keeps beside its groups. -/
structure ValuesState where
  zone : Option String
  openId : Option ℤ
  seen : List ArrayKey

/-- A group with one more row. -/
def ValuesGroup.push (g : ValuesGroup) (row : ValuesRow) : ValuesGroup :=
  { g with
    timestamps := g.timestamps ++ [row.timestamp]
    issue := g.issue ++ row.issue.toList
    lanes := g.lanes ++ row.lane.toList
    bytes := g.bytes ++ row.bytes }

namespace ValuesReader

variable (arrays : Option ArraysTable)

/-- The key the rows of an array id are grouped under. -/
def keyOf (id : Option ℤ) : Result ArrayKey :=
  match id, arrays with
  | some id, some arrays =>
    match arrays.get id with
    | some key => .ok key
    | none => .error (dangling id "values")
  -- nothing to resolve it against: the id still groups the rows
  | id, _ => .ok ⟨"", id.elim "" toString⟩

/-- Close the open group and open the group of another id. -/
def openGroup (schema : ValuesSchema) (p : Pending ValuesGroup ValuesState) (id : Option ℤ) :
    Result (Pending ValuesGroup ValuesState × ValuesGroup) := do
  let key ← keyOf arrays id
  let ready := p.ready ++ p.opened.toList
  if key ∈ p.state.seen then .error (reappeared key "values")
  else .ok (⟨ready, none, { p.state with openId := id, seen := key :: p.state.seen }⟩,
    { key, timestamps := [], issue := [], lanes := [], dims := schema.dims, dtype := schema.dtype,
      bytes := [], zone := p.state.zone })

/-- One row of a batch. -/
def pushRow (schema : ValuesSchema) (p : Pending ValuesGroup ValuesState) (row : ValuesRow) :
    Result (Pending ValuesGroup ValuesState) := do
  let id := if schema.keyed then some row.arrayId else none
  let (p, group) ← match p.opened with
    | some group =>
      if p.state.openId = id then .ok (p, group) else openGroup arrays schema p id
    | none => openGroup arrays schema p id
  if group.dims ≠ schema.dims ∨ group.dtype ≠ schema.dtype then
    .error (unsupported "two row groups disagree about the value column's type")
  else .ok { p with opened := some (group.push row) }

/-- One record batch. -/
def pushBatch (schema : ValuesSchema) (p : Pending ValuesGroup ValuesState)
    (batch : List ValuesRow) : Result (Pending ValuesGroup ValuesState) :=
  if batch = [] then .ok p
  else
    let zone := if p.state.zone = none then schema.zone else p.state.zone
    batch.foldlM (pushRow arrays schema) { p with state := { p.state with zone } }

/-- A reader at the start of a file. -/
def openFile (batches : List (List ValuesRow)) :
    RunReader (List ValuesRow) ValuesGroup ValuesState :=
  ⟨batches, [], none, ⟨none, none, []⟩⟩

/-- What the calls of `next_group` answer, from the start of a file to its end. -/
def answers (schema : ValuesSchema) (batches : List (List ValuesRow)) :
    Pull TimeSeriesError ValuesGroup :=
  Pull.unfold (RunReader.next (pushBatch arrays schema)) (batches.flatten.length + 1)
    (openFile batches)

/-! ### What the values reader answers -/

variable (schema : ValuesSchema) (keys : ArraysTable)

/-- The id a row is grouped by. -/
def idOf (row : ValuesRow) : Option ℤ := if schema.keyed then some row.arrayId else none

/-- The key a row stands under, if the arrays table holds it. -/
def rowKey (row : ValuesRow) : Option ArrayKey :=
  if schema.keyed then keys.get row.arrayId else some ⟨"", ""⟩

/-- The group of a run of rows, all of them in order. -/
def groupOf (run : List ValuesRow) : ValuesGroup where
  key := (run.head?.bind (rowKey schema keys)).getD ⟨"", ""⟩
  timestamps := run.map (·.timestamp)
  issue := run.flatMap (·.issue.toList)
  lanes := run.flatMap (·.lane.toList)
  dims := schema.dims
  dtype := schema.dtype
  bytes := run.flatMap (·.bytes)
  zone := schema.zone

/-- The groups of a file: its maximal runs of equal key. -/
def groups (rows : List ValuesRow) : List ValuesGroup :=
  (runs (rowKey schema keys) rows).map (groupOf schema keys)

/-- Every row's id is in the arrays table, and no key comes back after another key's rows. -/
def Sound (rows : List ValuesRow) : Prop :=
  (∀ row ∈ rows, (rowKey schema keys row).isSome) ∧ Contiguous (rowKey schema keys) rows

instance (rows : List ValuesRow) : Decidable (Sound schema keys rows) :=
  inferInstanceAs (Decidable (_ ∧ _))

/-- What the reader keeps after some rows. -/
structure Keeps (rows : List ValuesRow) (s : ValuesState) : Prop where
  openId : ∀ row ∈ rows.getLast?, s.openId = idOf schema row
  seen : ∀ k, k ∈ s.seen ↔ some k ∈ heads (rowKey schema keys) rows
  zone : s.zone = schema.zone

variable {schema keys}

theorem keyOf_idOf (row : ValuesRow) :
    keyOf (some keys) (idOf schema row) =
      match rowKey schema keys row with
      | some key => .ok key
      | none => .error (dangling row.arrayId "values") := by
  unfold keyOf idOf rowKey
  cases schema.keyed with
  | true => rfl
  | false => rfl

theorem rowKey_eq_of_idOf {a b : ValuesRow} (h : idOf schema a = idOf schema b) :
    rowKey schema keys a = rowKey schema keys b := by
  unfold idOf at h
  unfold rowKey
  cases hk : schema.keyed with
  | false => rfl
  | true =>
    rw [hk] at h
    rw [Option.some.inj h]

theorem idOf_eq_of_rowKey {a b : ValuesRow} {k : ArrayKey} (ha : rowKey schema keys a = some k)
    (hb : rowKey schema keys b = some k) : idOf schema a = idOf schema b := by
  unfold rowKey at ha hb
  unfold idOf
  cases hk : schema.keyed with
  | false => rfl
  | true =>
    rw [hk] at ha hb
    rw [ArraysTable.get_injective ha hb]

theorem groupOf_push {run : List ValuesRow} (hne : run ≠ []) (row : ValuesRow) :
    groupOf schema keys (run ++ [row]) = (groupOf schema keys run).push row := by
  obtain ⟨first, run, rfl⟩ := List.exists_cons_of_ne_nil hne
  simp [groupOf, ValuesGroup.push]

theorem groups_concat_new {rows : List ValuesRow} {row : ValuesRow}
    (h : ∀ b ∈ rows.getLast?, rowKey schema keys b ≠ rowKey schema keys row) :
    groups schema keys (rows ++ [row]) = groups schema keys rows ++ [groupOf schema keys [row]] := by
  unfold groups
  rw [runs_concat_new h]
  simp

theorem groups_concat_same {rows : List ValuesRow} {b row : ValuesRow}
    {gs : List ValuesGroup} {g : ValuesGroup} (hg : groups schema keys rows = gs ++ [g])
    (hb : rows.getLast? = some b) (h : rowKey schema keys b = rowKey schema keys row) :
    groups schema keys (rows ++ [row]) = gs ++ [g.push row] := by
  unfold groups at hg ⊢
  obtain ⟨rs, r, hr, hrs, hr'⟩ := List.map_eq_append_iff.mp hg
  obtain ⟨run, rfl, hrun⟩ : ∃ run, r = [run] ∧ groupOf schema keys run = g := by
    simpa [List.map_eq_singleton_iff] using hr'
  have hne : run ≠ [] := by
    intro e
    exact nil_notMem_runs (rowKey schema keys) rows (by rw [hr, e]; simp)
  rw [runs_concat_same hr hb h, List.map_append, hrs, List.map_singleton, groupOf_push hne, hrun]

theorem sound_of_append {rows more : List ValuesRow} (h : Sound schema keys (rows ++ more)) :
    Sound schema keys rows :=
  ⟨fun row hr => h.1 row (List.mem_append_left _ hr), h.2.of_append⟩

/-- A row of the open key is sound where the rows before it are. -/
theorem sound_concat_same {rows : List ValuesRow} {b row : ValuesRow} (hs : Sound schema keys rows)
    (hb : rows.getLast? = some b) (h : rowKey schema keys b = rowKey schema keys row) :
    Sound schema keys (rows ++ [row]) := by
  refine ⟨fun r hr => ?_, ?_⟩
  · rcases List.mem_append.mp hr with hr | hr
    · exact hs.1 r hr
    · rw [List.mem_singleton.mp hr, ← h]
      exact hs.1 b (List.mem_of_getLast? hb)
  · unfold Contiguous
    rw [heads_concat_same hb h]
    exact hs.2

/-- A row of another key is sound where its id resolves and its key is new. -/
theorem sound_concat_new {rows : List ValuesRow} {row : ValuesRow} (hs : Sound schema keys rows)
    (h : ∀ b ∈ rows.getLast?, rowKey schema keys b ≠ rowKey schema keys row) :
    Sound schema keys (rows ++ [row]) ↔
      ∃ k, rowKey schema keys row = some k ∧ some k ∉ heads (rowKey schema keys) rows := by
  unfold Sound Contiguous
  rw [heads_concat_new h, List.nodup_append_comm]
  simp only [List.singleton_append, List.nodup_cons]
  constructor
  · rintro ⟨hall, hnew, -⟩
    obtain ⟨k, hk⟩ := Option.isSome_iff_exists.mp (hall row (by simp))
    exact ⟨k, hk, hk ▸ hnew⟩
  · rintro ⟨k, hk, hnew⟩
    refine ⟨fun r hr => ?_, by rwa [hk], hs.2⟩
    rcases List.mem_append.mp hr with hr | hr
    · exact hs.1 r hr
    · rw [List.mem_singleton.mp hr, hk]
      rfl

/-- Where no row is open, or the open rows have another id, a row opens a group. -/
theorem pushRow_new {p : Pending ValuesGroup ValuesState} {row : ValuesRow}
    (h : ∀ g, p.opened = some g → p.state.openId ≠ idOf schema row) :
    pushRow (some keys) schema p row =
      match rowKey schema keys row with
      | none => .error (dangling row.arrayId "values")
      | some key =>
        if key ∈ p.state.seen then .error (reappeared key "values")
        else .ok ⟨p.ready ++ p.opened.toList,
          some { (groupOf schema keys [row]) with zone := p.state.zone },
          { p.state with openId := idOf schema row, seen := key :: p.state.seen }⟩ := by
  have hopen : pushRow (some keys) schema p row = (do
      let (p, group) ← openGroup (some keys) schema p (idOf schema row)
      if group.dims ≠ schema.dims ∨ group.dtype ≠ schema.dtype then
        .error (unsupported "two row groups disagree about the value column's type")
      else .ok { p with opened := some (group.push row) }) := by
    unfold pushRow
    cases ho : p.opened with
    | none => rfl
    | some g =>
      have := h g ho
      unfold idOf at this ⊢
      simp only [if_neg this]
  rw [hopen]
  unfold openGroup
  rw [keyOf_idOf]
  cases hk : rowKey schema keys row with
  | none => rfl
  | some key =>
    by_cases hs : key ∈ p.state.seen
    · simp only [bind, Except.bind, if_pos hs]
    · simp only [bind, Except.bind, if_neg hs]
      simp [groupOf, ValuesGroup.push, hk]

/-- A row of the open id goes into the open group. -/
theorem pushRow_same {p : Pending ValuesGroup ValuesState} {row : ValuesRow} {g : ValuesGroup}
    (ho : p.opened = some g) (hid : p.state.openId = idOf schema row) (hd : g.dims = schema.dims)
    (ht : g.dtype = schema.dtype) :
    pushRow (some keys) schema p row = .ok { p with opened := some (g.push row) } := by
  unfold pushRow
  rw [ho]
  unfold idOf at hid
  simp only [if_pos hid, bind, Except.bind]
  rw [if_neg (by simp [hd, ht])]

/-- The open group is the last one, and the rows of it are the file's so far. -/
theorem fed_opened {rows : List ValuesRow} {popped : List ValuesGroup}
    {p : Pending ValuesGroup ValuesState} {g : ValuesGroup}
    (hp : RunReader.Fed (groups schema keys) (Sound schema keys) (Keeps schema keys) rows popped p)
    (ho : p.opened = some g) :
    groups schema keys rows = (popped ++ p.ready) ++ [g] ∧ g.dims = schema.dims ∧
      g.dtype = schema.dtype ∧ ∃ b, rows.getLast? = some b := by
  have hg := hp.groups
  rw [ho, Option.toList_some] at hg
  have hmem : g ∈ groups schema keys rows := by rw [← hg]; simp
  obtain ⟨run, hrun, rfl⟩ := List.mem_map.mp hmem
  refine ⟨hg.symm, rfl, rfl, ?_⟩
  cases hr : rows.getLast? with
  | some b => exact ⟨b, rfl⟩
  | none =>
    rw [List.getLast?_eq_none_iff.mp hr] at hrun
    exact (List.not_mem_nil hrun).elim

/-- A row that does not go into the open group has another key than the row before it. -/
theorem fed_new {rows : List ValuesRow} {popped : List ValuesGroup}
    {p : Pending ValuesGroup ValuesState} {row : ValuesRow}
    (hp : RunReader.Fed (groups schema keys) (Sound schema keys) (Keeps schema keys) rows popped p)
    (hopen : p.opened = none → rows = [])
    (hnew : ∀ g, p.opened = some g → p.state.openId ≠ idOf schema row) :
    ∀ b ∈ rows.getLast?, rowKey schema keys b ≠ rowKey schema keys row := by
  intro b hb e
  cases ho : p.opened with
  | none =>
    rw [hopen ho] at hb
    cases hb
  | some g =>
    obtain ⟨k, hk⟩ := Option.isSome_iff_exists.mp (hp.good.1 b (List.mem_of_getLast? hb))
    have := idOf_eq_of_rowKey hk (e.symm.trans hk)
    exact hnew g ho ((hp.state.openId b hb).trans this)

/-- Pushing one row follows the specification. -/
theorem pushRow_pushes :
    RunReader.Pushes (pushRow (some keys) schema) (fun row => [row]) (groups schema keys)
      (Sound schema keys) (Keeps schema keys) where
  closed := sound_of_append
  bounded rows := by
    unfold groups
    rw [List.length_map]
    exact length_runs_le rows
  accepts := by
    intro rows popped p row hp hopen hgood
    by_cases h : ∃ g, p.opened = some g ∧ p.state.openId = idOf schema row
    · obtain ⟨g, ho, hid⟩ := h
      obtain ⟨hg, hd, ht, b, hb⟩ := fed_opened hp ho
      have hkey : rowKey schema keys b = rowKey schema keys row :=
        rowKey_eq_of_idOf ((hp.state.openId b hb).symm.trans hid)
      refine ⟨_, pushRow_same ho hid hd ht, ⟨hgood, ?_, ?_⟩, fun e => by cases e⟩
      · exact (groups_concat_same hg hb hkey).symm
      · refine ⟨fun r hr => ?_, fun k => ?_, hp.state.zone⟩
        · cases (List.getLast?_concat).symm.trans hr
          exact hid
        · rw [heads_concat_same hb hkey]
          exact hp.state.seen k
    · have hnew : ∀ g, p.opened = some g → p.state.openId ≠ idOf schema row :=
        fun g ho hid => h ⟨g, ho, hid⟩
      have hlast := fed_new hp hopen hnew
      obtain ⟨k, hk, hfresh⟩ := (sound_concat_new hp.good hlast).mp hgood
      have hseen : k ∉ p.state.seen := mt (hp.state.seen k).mp hfresh
      rw [pushRow_new hnew, hk]
      simp only [if_neg hseen]
      refine ⟨_, rfl, ⟨hgood, ?_, ?_⟩, fun e => by cases e⟩
      · rw [groups_concat_new hlast, ← hp.groups, hp.state.zone]
        simp [groupOf]
      · refine ⟨fun r hr => ?_, fun k' => ?_, hp.state.zone⟩
        · cases (List.getLast?_concat).symm.trans hr
          rfl
        · rw [heads_concat_new hlast, hk, List.mem_cons, List.mem_append, List.mem_singleton,
            Option.some.injEq, hp.state.seen k', or_comm]
  refuses := by
    intro rows popped p row hp hopen hbad
    have hnew : ∀ g, p.opened = some g → p.state.openId ≠ idOf schema row := by
      intro g ho hid
      obtain ⟨-, -, -, b, hb⟩ := fed_opened hp ho
      exact hbad (sound_concat_same hp.good hb
        (rowKey_eq_of_idOf ((hp.state.openId b hb).symm.trans hid)))
    have hlast := fed_new hp hopen hnew
    rw [pushRow_new hnew]
    cases hk : rowKey schema keys row with
    | none => exact ⟨_, rfl⟩
    | some k =>
      by_cases hseen : k ∈ p.state.seen
      · simp only [if_pos hseen]
        exact ⟨_, rfl⟩
      · refine absurd ((sound_concat_new hp.good hlast).mpr ⟨k, hk, ?_⟩) hbad
        exact mt (hp.state.seen k).mpr hseen

/-- What the reader keeps between batches: the zone is known only once a row has been read. -/
structure KeepsBatch (schema : ValuesSchema) (keys : ArraysTable) (rows : List ValuesRow)
    (s : ValuesState) : Prop where
  openId : ∀ row ∈ rows.getLast?, s.openId = idOf schema row
  seen : ∀ k, k ∈ s.seen ↔ some k ∈ heads (rowKey schema keys) rows
  zone : s.zone = none ∨ s.zone = schema.zone

/-- Pushing a batch of the file's schema follows the specification. -/
theorem pushBatch_pushes :
    RunReader.Pushes (pushBatch (some keys) schema) (fun rows => rows) (groups schema keys)
      (Sound schema keys) (KeepsBatch schema keys) := by
  have hrows : RunReader.Pushes (fun p rs => rs.foldlM (pushRow (some keys) schema) p)
      (fun rows => rows) (groups schema keys) (Sound schema keys) (Keeps schema keys) :=
    pushRow_pushes.foldlM
  have hstart : ∀ {rows popped} {p : Pending ValuesGroup ValuesState},
      RunReader.Fed (groups schema keys) (Sound schema keys) (KeepsBatch schema keys) rows popped p →
      RunReader.Fed (groups schema keys) (Sound schema keys) (Keeps schema keys) rows popped
        { p with state := { p.state with
          zone := if p.state.zone = none then schema.zone else p.state.zone } } := by
    intro rows popped p hp
    refine ⟨hp.good, hp.groups, hp.state.openId, hp.state.seen, ?_⟩
    rcases hp.state.zone with h | h
    · simp [h]
    · simp only [h, ite_self]
  refine ⟨?_, ?_, hrows.closed, hrows.bounded⟩
  · intro rows popped p batch hp hopen hgood
    unfold pushBatch
    by_cases hb : batch = []
    · subst hb
      exact ⟨p, rfl, by simpa using hp, by simpa using hopen⟩
    · rw [if_neg hb]
      obtain ⟨p', hok, hp', hopen'⟩ := hrows.accepts (hstart hp) hopen hgood
      exact ⟨p', hok, ⟨hp'.good, hp'.groups, hp'.state.openId, hp'.state.seen, .inr hp'.state.zone⟩,
        hopen'⟩
  · intro rows popped p batch hp hopen hbad
    unfold pushBatch
    by_cases hb : batch = []
    · subst hb
      exact absurd hp.good (by simpa using hbad)
    · rw [if_neg hb]
      exact hrows.refuses (hstart hp) hopen hbad

/-- **The values reader.**  However the file is cut into batches, sound rows are answered as their
maximal runs of equal key, and unsound rows are refused. -/
theorem answers_spec (batches : List (List ValuesRow)) :
    (Sound schema keys batches.flatten →
      answers (some keys) schema batches = Pull.ofList (groups schema keys batches.flatten)) ∧
      (¬ Sound schema keys batches.flatten → ¬ (answers (some keys) schema batches).Finished) := by
  have hfed : RunReader.Fed (groups schema keys) (Sound schema keys) (KeepsBatch schema keys) [] []
      (openFile batches).pending :=
    ⟨⟨by simp, List.nodup_nil⟩, rfl, by simp, by simp [openFile], .inl rfl⟩
  have h := RunReader.unfold_next pushBatch_pushes (batches.flatten.length + 1) batches hfed
    (fun _ => .inl rfl) (by simp)
  simp only [List.nil_append, List.flatMap_id'] at h
  refine ⟨fun hs => ?_, fun hs hf => hs (h.2 hf)⟩
  rw [← (h.1 hs).1]
  exact (h.1 hs).2.eq_ofList

end ValuesReader

/-! ### The series file -/

/-- A run of one key's rows as a batch; a run is never empty. -/
def SeriesBatch.ofRun? : List SeriesRow → Option SeriesBatch
  | [] => none
  | row :: rows => some ⟨row, rows⟩

namespace SeriesReader

variable (arrays : ArraysTable)

/-- One row of a series file, its key resolved. -/
def readRow (row : ℤ × SeriesCells) : Result SeriesRow :=
  match arrays.get row.1 with
  | some key => .ok { row.2 with key }
  | none => .error (dangling row.1 "series")

/-- One batch of a series file as catalog rows. -/
def readSeriesRows (batch : List (ℤ × SeriesCells)) : Result (List SeriesRow) :=
  batch.mapM (readRow arrays)

/-- Close the open rows and open the rows of another key. -/
def openRows (p : Pending SeriesBatch (List ArrayKey)) (row : SeriesRow) :
    Result (Pending SeriesBatch (List ArrayKey)) :=
  if row.key ∈ p.state then .error (reappeared row.key "series")
  else .ok ⟨p.ready ++ p.opened.toList, some ⟨row, []⟩, row.key :: p.state⟩

/-- One row of a batch. -/
def pushRow (p : Pending SeriesBatch (List ArrayKey)) (row : SeriesRow) :
    Result (Pending SeriesBatch (List ArrayKey)) :=
  match p.opened with
  | some batch =>
    if batch.first.key ≠ row.key then openRows p row
    else .ok { p with opened := some { batch with others := batch.others ++ [row] } }
  | none => openRows p row

/-- One record batch. -/
def pushBatch (p : Pending SeriesBatch (List ArrayKey)) (batch : List (ℤ × SeriesCells)) :
    Result (Pending SeriesBatch (List ArrayKey)) := do
  (← readSeriesRows arrays batch).foldlM pushRow p

/-- What the calls of `next_group` answer, from the start of a file to its end. -/
def answers (batches : List (List (ℤ × SeriesCells))) : Pull TimeSeriesError SeriesBatch :=
  Pull.unfold (RunReader.next (pushBatch arrays)) (batches.flatten.length + 1)
    ⟨batches, [], none, []⟩

/-! ### What the series reader answers -/

/-- The batches of catalog rows: their maximal runs of equal key. -/
def groups (rows : List SeriesRow) : List SeriesBatch :=
  (runs (·.key) rows).filterMap SeriesBatch.ofRun?

theorem groups_concat_new {rows : List SeriesRow} {row : SeriesRow}
    (h : ∀ b ∈ rows.getLast?, b.key ≠ row.key) :
    groups (rows ++ [row]) = groups rows ++ [⟨row, []⟩] := by
  unfold groups
  rw [runs_concat_new h]
  simp [SeriesBatch.ofRun?]

@[simp] theorem ofRun?_rows (gs : List SeriesBatch) :
    (gs.map SeriesBatch.rows).filterMap SeriesBatch.ofRun? = gs := by
  induction gs with
  | nil => rfl
  | cons g gs ih =>
    rw [List.map_cons, SeriesBatch.rows, List.filterMap_cons]
    simp only [SeriesBatch.ofRun?, ih]

/-- The batches hold the runs, every row in order. -/
theorem rows_groups (rows : List SeriesRow) :
    (groups rows).map SeriesBatch.rows = runs (·.key) rows := by
  have h : ∀ rs : List (List SeriesRow), [] ∉ rs →
      (rs.filterMap SeriesBatch.ofRun?).map SeriesBatch.rows = rs := by
    intro rs
    induction rs with
    | nil => simp
    | cons run rest ih =>
      intro h
      rw [List.mem_cons, not_or] at h
      obtain ⟨first, others, rfl⟩ := List.exists_cons_of_ne_nil (Ne.symm h.1)
      rw [List.filterMap_cons]
      simp only [SeriesBatch.ofRun?, List.map_cons, ih h.2]
      rfl
  exact h _ (nil_notMem_runs _ rows)

theorem groups_concat_same {rows : List SeriesRow} {gs : List SeriesBatch} {g : SeriesBatch}
    {b row : SeriesRow} (hg : groups rows = gs ++ [g]) (hb : rows.getLast? = some b)
    (h : b.key = row.key) :
    groups (rows ++ [row]) = gs ++ [{ g with others := g.others ++ [row] }] := by
  have hr : runs (·.key) rows = gs.map SeriesBatch.rows ++ [g.rows] := by
    rw [← rows_groups, hg]
    simp
  unfold groups
  rw [runs_concat_same hr hb h, List.filterMap_append, ofRun?_rows]
  rfl

theorem length_groups_le (rows : List SeriesRow) : (groups rows).length ≤ rows.length := by
  have h := congrArg List.length (rows_groups rows)
  rw [List.length_map] at h
  rw [h]
  exact length_runs_le rows

/-- The open batch is the last one, and its rows have the key of the last row. -/
theorem fed_opened {rows : List SeriesRow} {popped : List SeriesBatch}
    {p : Pending SeriesBatch (List ArrayKey)} {g : SeriesBatch}
    (hg : popped ++ p.ready ++ p.opened.toList = groups rows) (ho : p.opened = some g) :
    groups rows = (popped ++ p.ready) ++ [g] ∧ ∃ b, rows.getLast? = some b ∧ b.key = g.first.key := by
  rw [ho, Option.toList_some] at hg
  refine ⟨hg.symm, ?_⟩
  have hr : runs (·.key) rows = (popped ++ p.ready).map SeriesBatch.rows ++ [g.rows] := by
    rw [← rows_groups, ← hg]
    simp
  have hflat := flatten_runs (fun r : SeriesRow => r.key) rows
  obtain ⟨init, last, hlast⟩ : ∃ init last, g.rows = init ++ [last] :=
    ⟨_, _, (List.dropLast_concat_getLast (List.cons_ne_nil g.first g.others)).symm⟩
  refine ⟨last, ?_, ?_⟩
  · rw [← hflat, hr, hlast]
    simp [← List.append_assoc]
  · have hmem : g.rows ∈ runs (fun r : SeriesRow => r.key) rows := by rw [hr]; simp
    exact key_eq_of_mem_runs hmem (by rw [hlast]; simp) List.mem_cons_self

/-- A row that does not go into the open batch has another key than the row before it. -/
theorem last_ne {rows : List SeriesRow} {popped : List SeriesBatch}
    {p : Pending SeriesBatch (List ArrayKey)} {row : SeriesRow}
    (hg : popped ++ p.ready ++ p.opened.toList = groups rows) (hopen : p.opened = none → rows = [])
    (h : ¬ ∃ g, p.opened = some g ∧ g.first.key = row.key) :
    ∀ b ∈ rows.getLast?, b.key ≠ row.key := by
  intro b hb e
  cases ho : p.opened with
  | none =>
    rw [hopen ho] at hb
    cases hb
  | some g =>
    obtain ⟨-, b', hb', hkey⟩ := fed_opened hg ho
    cases hb.symm.trans hb'
    exact h ⟨g, ho, hkey.symm.trans e⟩

/-- A row of another key than the open one's opens a batch, unless its key was seen. -/
theorem pushRow_new {p : Pending SeriesBatch (List ArrayKey)} {row : SeriesRow}
    (h : ¬ ∃ g, p.opened = some g ∧ g.first.key = row.key) : pushRow p row = openRows p row := by
  unfold pushRow
  cases ho : p.opened with
  | none => rfl
  | some g => exact if_pos fun e => h ⟨g, ho, e⟩

/-- Pushing one row follows the specification. -/
theorem pushRow_pushes :
    RunReader.Pushes pushRow (fun row => [row]) groups (Contiguous (·.key))
      (fun rows seen => ∀ k, k ∈ seen ↔ k ∈ heads (·.key) rows) where
  closed := Contiguous.of_append
  bounded := length_groups_le
  accepts := by
    intro rows popped p row hp hopen hgood
    by_cases h : ∃ g, p.opened = some g ∧ g.first.key = row.key
    · obtain ⟨g, ho, hkey⟩ := h
      obtain ⟨hg, b, hb, hbg⟩ := fed_opened hp.groups ho
      refine ⟨{ p with opened := some { g with others := g.others ++ [row] } }, ?_,
        ⟨hgood, ?_, ?_⟩, fun e => by cases e⟩
      · simp [pushRow, ho, hkey]
      · exact (groups_concat_same hg hb (hbg.trans hkey)).symm
      · intro k
        rw [heads_concat_same hb (hbg.trans hkey)]
        exact hp.state k
    · have hlast := last_ne hp.groups hopen h
      have hfresh : row.key ∉ p.state := by
        unfold Contiguous at hgood
        rw [heads_concat_new hlast, List.nodup_append_comm] at hgood
        exact mt (hp.state _).mp (List.nodup_cons.mp hgood).1
      rw [pushRow_new h, openRows, if_neg hfresh]
      refine ⟨_, rfl, ⟨hgood, ?_, ?_⟩, fun e => by cases e⟩
      · rw [groups_concat_new hlast, ← hp.groups]
        simp
      · intro k
        rw [heads_concat_new hlast, List.mem_cons, List.mem_append, List.mem_singleton, hp.state k,
          or_comm]
  refuses := by
    intro rows popped p row hp hopen hbad
    have h : ¬ ∃ g, p.opened = some g ∧ g.first.key = row.key := by
      rintro ⟨g, ho, hkey⟩
      obtain ⟨-, b, hb, hbg⟩ := fed_opened hp.groups ho
      refine hbad ?_
      unfold Contiguous
      rw [heads_concat_same hb (hbg.trans hkey)]
      exact hp.good
    have hlast := last_ne hp.groups hopen h
    have hseen : row.key ∈ p.state := by
      by_contra hfresh
      refine hbad ?_
      unfold Contiguous
      rw [heads_concat_new hlast, List.nodup_append_comm]
      exact List.nodup_cons.mpr ⟨mt (hp.state _).mpr hfresh, hp.good⟩
    rw [pushRow_new h, openRows, if_pos hseen]
    exact ⟨_, rfl⟩

variable (keys : ArraysTable)

/-- The rows whose ids the arrays table holds, their keys resolved. -/
def decoded (rows : List (ℤ × SeriesCells)) : List SeriesRow :=
  rows.filterMap fun row => (keys.get row.1).map fun key => { row.2 with key }

/-- Every row's id is in the arrays table, and no key comes back after another key's rows. -/
def Sound (rows : List (ℤ × SeriesCells)) : Prop :=
  (∀ row ∈ rows, (keys.get row.1).isSome) ∧ Contiguous (·.key) (decoded keys rows)

instance (rows : List (ℤ × SeriesCells)) : Decidable (Sound keys rows) :=
  inferInstanceAs (Decidable (_ ∧ _))

variable {keys}

theorem decoded_append (rows more : List (ℤ × SeriesCells)) :
    decoded keys (rows ++ more) = decoded keys rows ++ decoded keys more :=
  List.filterMap_append

theorem readSeriesRows_ok {batch : List (ℤ × SeriesCells)}
    (h : ∀ row ∈ batch, (keys.get row.1).isSome) :
    readSeriesRows keys batch = .ok (decoded keys batch) := by
  induction batch with
  | nil => rfl
  | cons row batch ih =>
    obtain ⟨k, hk⟩ := Option.isSome_iff_exists.mp (h row List.mem_cons_self)
    have hrest := ih fun r hr => h r (List.mem_cons_of_mem _ hr)
    unfold readSeriesRows at hrest ⊢
    rw [List.mapM_cons, hrest]
    simp [decoded, readRow, hk, bind, Except.bind, pure, Except.pure]

theorem readSeriesRows_error {batch : List (ℤ × SeriesCells)}
    (h : ¬ ∀ row ∈ batch, (keys.get row.1).isSome) :
    ∃ e, readSeriesRows keys batch = .error e := by
  induction batch with
  | nil => exact absurd (by simp) h
  | cons row batch ih =>
    unfold readSeriesRows at ih ⊢
    rw [List.mapM_cons]
    cases hk : keys.get row.1 with
    | none => exact ⟨_, by simp [readRow, hk, bind, Except.bind]; rfl⟩
    | some k =>
      obtain ⟨e, he⟩ := ih fun hall => h fun r hr => by
        cases hr with
        | head => rw [hk]; rfl
        | tail _ hr => exact hall r hr
      exact ⟨e, by simp [readRow, hk, he, bind, Except.bind]⟩

theorem eq_nil_of_decoded {rows : List (ℤ × SeriesCells)}
    (h : ∀ row ∈ rows, (keys.get row.1).isSome) (hnil : decoded keys rows = []) : rows = [] := by
  cases rows with
  | nil => rfl
  | cons row rows =>
    obtain ⟨k, hk⟩ := Option.isSome_iff_exists.mp (h row List.mem_cons_self)
    simp [decoded, hk] at hnil

/-- Pushing a batch follows the specification. -/
theorem pushBatch_pushes :
    RunReader.Pushes (pushBatch keys) (fun rows => rows) (fun rows => groups (decoded keys rows))
      (Sound keys) (fun rows seen => ∀ k, k ∈ seen ↔ k ∈ heads (·.key) (decoded keys rows)) := by
  have hrows := pushRow_pushes.foldlM
  refine ⟨?_, ?_, ?_, ?_⟩
  · intro rows popped p batch hp hopen hgood
    have hbatch : ∀ row ∈ batch, (keys.get row.1).isSome :=
      fun row hr => hgood.1 row (List.mem_append_right _ hr)
    have hcont := hgood.2
    rw [decoded_append] at hcont
    have hopen' : p.opened = none → decoded keys rows = [] := fun h => by rw [hopen h]; rfl
    obtain ⟨p', hok, hp', hlive⟩ :=
      hrows.accepts ⟨hp.good.2, hp.groups, hp.state⟩ hopen' hcont
    refine ⟨p', ?_, ⟨hgood, ?_, ?_⟩, fun h => ?_⟩
    · unfold pushBatch
      rw [readSeriesRows_ok hbatch]
      exact hok
    · rw [decoded_append]
      exact hp'.groups
    · rw [decoded_append]
      exact hp'.state
    · have hnil := hlive h
      rw [← decoded_append] at hnil
      exact eq_nil_of_decoded hgood.1 hnil
  · intro rows popped p batch hp hopen hbad
    unfold pushBatch
    by_cases hbatch : ∀ row ∈ batch, (keys.get row.1).isSome
    · have hopen' : p.opened = none → decoded keys rows = [] := fun h => by rw [hopen h]; rfl
      rw [readSeriesRows_ok hbatch]
      refine hrows.refuses ⟨hp.good.2, hp.groups, hp.state⟩ hopen' fun hcont => hbad ⟨?_, ?_⟩
      · intro row hr
        rcases List.mem_append.mp hr with hr | hr
        · exact hp.good.1 row hr
        · exact hbatch row hr
      · rwa [decoded_append]
    · obtain ⟨e, he⟩ := readSeriesRows_error hbatch
      rw [he]
      exact ⟨e, rfl⟩
  · intro rows more h
    refine ⟨fun row hr => h.1 row (List.mem_append_left _ hr), ?_⟩
    have := h.2
    rw [decoded_append] at this
    exact this.of_append
  · intro rows
    exact (length_groups_le _).trans (List.length_filterMap_le _ _)

/-- **The series reader.**  However the file is cut into batches, sound rows are answered as their
maximal runs of equal key, and unsound rows are refused. -/
theorem answers_spec (batches : List (List (ℤ × SeriesCells))) :
    (Sound keys batches.flatten →
      answers keys batches = Pull.ofList (groups (decoded keys batches.flatten))) ∧
      (¬ Sound keys batches.flatten → ¬ (answers keys batches).Finished) := by
  have hfed : RunReader.Fed (fun rows => groups (decoded keys rows)) (Sound keys)
      (fun rows seen => ∀ k, k ∈ seen ↔ k ∈ heads (·.key) (decoded keys rows)) [] [] ⟨[], none, []⟩ :=
    ⟨⟨by simp, List.nodup_nil⟩, rfl, by simp [decoded]⟩
  have h := RunReader.unfold_next pushBatch_pushes (batches.flatten.length + 1) batches hfed
    (fun _ => .inl rfl) (by simp)
  simp only [List.nil_append, List.flatMap_id'] at h
  refine ⟨fun hs => ?_, fun hs hf => hs (h.2 hf)⟩
  rw [← (h.1 hs).1]
  exact (h.1 hs).2.eq_ofList

end SeriesReader

/-! ### A whole partition -/

section Partition

variable {σ γ : Type} (build : ValuesGroup → SeriesRow → Result γ)
  (sink : γ → Cmd σ TimeSeriesError Unit) (schema : ValuesSchema) (keys : ArraysTable)

/-- Stream one partition's series into the sink, returning how many were handed over. -/
def readPartitionWith (values : List (List ValuesRow)) (series : List (List (ℤ × SeriesCells))) :
    Cmd σ TimeSeriesError ℕ :=
  mergeJoin build sink 0 (ValuesReader.answers (some keys) schema values)
    (SeriesReader.answers keys series)

/-- The rows of the two halves join, and the sink takes all `n` series built from them. -/
structure Joins (values : List ValuesRow) (series : List (ℤ × SeriesCells)) (n : ℕ) (s s' : σ) :
    Prop where
  soundValues : ValuesReader.Sound schema keys values
  soundSeries : SeriesReader.Sound keys series
  sameKeys : (ValuesReader.groups schema keys values).map (·.key) =
    (SeriesReader.groups (SeriesReader.decoded keys series)).map (·.first.key)
  count : n = series.length
  handed : (handOver build sink (paired (ValuesReader.groups schema keys values)
    (SeriesReader.groups (SeriesReader.decoded keys series)))).exec s = (.ok (), s')

variable {build sink schema keys}

theorem SeriesReader.length_decoded {rows : List (ℤ × SeriesCells)}
    (h : ∀ row ∈ rows, (keys.get row.1).isSome) :
    (SeriesReader.decoded keys rows).length = rows.length := by
  induction rows with
  | nil => rfl
  | cons row rows ih =>
    obtain ⟨k, hk⟩ := Option.isSome_iff_exists.mp (h row List.mem_cons_self)
    have := ih fun r hr => h r (List.mem_cons_of_mem _ hr)
    unfold decoded at this ⊢
    simp [hk, this]

theorem SeriesReader.flatMap_rows_groups (rows : List SeriesRow) :
    (SeriesReader.groups rows).flatMap SeriesBatch.rows = rows := by
  rw [List.flatMap, rows_groups, flatten_runs]

/-- A partition read returns `n` exactly when the rows of its two halves join. -/
theorem readPartitionWith_ok {values : List (List ValuesRow)}
    {series : List (List (ℤ × SeriesCells))} {n : ℕ} {s s' : σ} :
    (readPartitionWith build sink schema keys values series).exec s = (.ok n, s') ↔
      Joins build sink schema keys values.flatten series.flatten n s s' := by
  unfold readPartitionWith
  rw [mergeJoin_ok, Nat.zero_add]
  obtain ⟨hv, hv'⟩ := ValuesReader.answers_spec values
  obtain ⟨hs, hs'⟩ := SeriesReader.answers_spec series
  constructor
  · rintro ⟨hvf, hsf, hkeys, hn, hhand⟩
    have hvs := not_not.mp (mt hv' (not_not.mpr hvf))
    have hss := not_not.mp (mt hs' (not_not.mpr hsf))
    rw [hv hvs, hs hss] at hkeys hhand
    rw [hs hss, Pull.items_ofList] at hn
    simp only [Pull.items_ofList] at hkeys hhand
    refine ⟨hvs, hss, hkeys, ?_, hhand⟩
    rw [hn, SeriesReader.flatMap_rows_groups, SeriesReader.length_decoded hss.1]
  · rintro ⟨hvs, hss, hkeys, hn, hhand⟩
    rw [hv hvs, hs hss]
    simp only [Pull.items_ofList, Pull.finished_ofList, true_and]
    refine ⟨hkeys, ?_, hhand⟩
    rw [hn, SeriesReader.flatMap_rows_groups, SeriesReader.length_decoded hss.1]

/-- The keys of the two halves, in file order. -/
def valuesKeys (schema : ValuesSchema) (keys : ArraysTable) (rows : List ValuesRow) :
    List ArrayKey := (ValuesReader.groups schema keys rows).map (·.key)

def seriesKeys (keys : ArraysTable) (rows : List (ℤ × SeriesCells)) : List ArrayKey :=
  (SeriesReader.groups (SeriesReader.decoded keys rows)).map (·.first.key)

/-- Halves that ascend and hold one set of keys go through one sequence of keys. -/
theorem sameKeys_of_ascending {values : List ValuesRow} {series : List (ℤ × SeriesCells)}
    (hv : (valuesKeys schema keys values).Pairwise (· < ·))
    (hs : (seriesKeys keys series).Pairwise (· < ·))
    (h : ∀ k, k ∈ valuesKeys schema keys values ↔ k ∈ seriesKeys keys series) :
    valuesKeys schema keys values = seriesKeys keys series :=
  List.Pairwise.eq_of_mem_iff hv hs h

variable (build sink schema keys) in
/-- **Streaming join.**  Whatever the batches, each half is read as its maximal runs of equal key, a key
that comes back or does not resolve is refused, and the join returns `n` exactly when the two halves go
through one sequence of keys and every one of the `n` series is built against its own group and taken;
so whether it succeeds, and what it then hands over, does not depend on the batches. -/
theorem readPartition_exact (values : List (List ValuesRow))
    (series : List (List (ℤ × SeriesCells))) :
    (ValuesReader.Sound schema keys values.flatten →
      ValuesReader.answers (some keys) schema values =
        Pull.ofList (ValuesReader.groups schema keys values.flatten)) ∧
    (¬ ValuesReader.Sound schema keys values.flatten →
      ¬ (ValuesReader.answers (some keys) schema values).Finished) ∧
    (SeriesReader.Sound keys series.flatten → SeriesReader.answers keys series =
        Pull.ofList (SeriesReader.groups (SeriesReader.decoded keys series.flatten))) ∧
    (¬ SeriesReader.Sound keys series.flatten → ¬ (SeriesReader.answers keys series).Finished) ∧
    (∀ n (s s' : σ), (readPartitionWith build sink schema keys values series).exec s = (.ok n, s') ↔
      Joins build sink schema keys values.flatten series.flatten n s s') ∧
    (∀ values' series', values'.flatten = values.flatten → series'.flatten = series.flatten →
      ∀ n (s s' : σ), (readPartitionWith build sink schema keys values' series').exec s = (.ok n, s') ↔
        (readPartitionWith build sink schema keys values series).exec s = (.ok n, s')) ∧
    ((valuesKeys schema keys values.flatten).Pairwise (· < ·) →
      (seriesKeys keys series.flatten).Pairwise (· < ·) →
      (∀ k, k ∈ valuesKeys schema keys values.flatten ↔ k ∈ seriesKeys keys series.flatten) →
      valuesKeys schema keys values.flatten = seriesKeys keys series.flatten) := by
  refine ⟨(ValuesReader.answers_spec values).1, (ValuesReader.answers_spec values).2,
    (SeriesReader.answers_spec series).1, (SeriesReader.answers_spec series).2,
    fun n s s' => readPartitionWith_ok, ?_, sameKeys_of_ascending⟩
  intro values' series' hv hs n s s'
  rw [readPartitionWith_ok, readPartitionWith_ok, hv, hs]

end Partition

/-! ### A partition in two cuts -/

namespace Sample

/-- An arrays file of two arrays. -/
def arrays : ArraysTable :=
  ⟨[(1, ⟨"a", "R1"⟩), (2, ⟨"b", "R1"⟩)], by decide +kernel⟩

def scalars : ValuesSchema := ⟨true, [], .u8, none⟩

def value (id : ℤ) : ValuesRow := ⟨id, DateTime.epoch, none, none, [7]⟩

def cells : SeriesCells :=
  ⟨0, none, "", "", "", "", "", "", "", "", "", "", "", "", "", "", ""⟩

/-- A partition read that files nothing: every row builds and the sink only counts. -/
def read (values : List (List ValuesRow)) (series : List (List (ℤ × SeriesCells))) :
    Cmd ℕ TimeSeriesError ℕ :=
  readPartitionWith (fun _ _ => .ok ()) (fun _ => modify (· + 1)) scalars arrays values series

theorem readPartition_exact_cut :
    (read [[value 1], [], [value 1, value 2]] [[(1, cells), (2, cells)], [(2, cells)]]).exec 0 =
        (.ok 3, 3) ∧
      valuesKeys scalars arrays [value 1, value 2] = seriesKeys arrays [(1, cells), (2, cells)] := by
  have hcut := readPartition_exact (fun _ _ => .ok ()) (fun _ => modify (· + 1)) scalars arrays
    [[value 1, value 1, value 2]] [[(1, cells)], [(2, cells), (2, cells)]]
  have hkeys := readPartition_exact (σ := ℕ) (γ := Unit) (fun _ _ => .ok ())
    (fun _ => modify (· + 1)) scalars arrays [[value 1, value 2]] [[(1, cells), (2, cells)]]
  refine ⟨(hcut.2.2.2.2.2.1 _ _ rfl rfl 3 0 3).mpr (by rfl), ?_⟩
  refine hkeys.2.2.2.2.2.2 (by decide +kernel) (by decide +kernel) fun k => ?_
  rw [show valuesKeys scalars arrays [[value 1, value 2]].flatten =
    seriesKeys arrays [[(1, cells), (2, cells)]].flatten from by decide +kernel]

/-- Halves that both descend join as well, and the error of halves that do not join depends on where
the batches end. -/
theorem read_descending :
    (read [[value 2], [value 1]] [[(2, cells), (1, cells)]]).exec 0 = (.ok 2, 2) ∧
      ¬ (valuesKeys scalars arrays [value 2, value 1]).Pairwise (· < ·) ∧
      (read [[value 1, value 2, value 1]] [[(2, cells)]]).exec 0 =
        (.error (reappeared ⟨"a", "R1"⟩ "values"), 0) ∧
      (read [[value 1], [value 2], [value 1]] [[(2, cells)]]).exec 0 =
        (.error (unclaimed ⟨"a", "R1"⟩), 0) ∧
      reappeared ⟨"a", "R1"⟩ "values" ≠ unclaimed ⟨"a", "R1"⟩ := by
  refine ⟨by rfl, by decide +kernel, by rfl, by rfl, by decide +kernel⟩

end Sample

end InfraStore.Tabular
