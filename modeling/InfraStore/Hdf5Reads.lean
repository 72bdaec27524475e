import InfraStore.BulkReads
import InfraStore.Lib.Scatter
import InfraStore.WindowBlocks

/-!
# Bulk reads of the HDF5 backend

The bulk reads resolve their columns to strips, read each strip over the span of its columns, and
scatter the columns to their places.  They are the reads of one array after the other.

* `Indexed`: the columns the index names lie in datasets laid out as their entries say;
* `Resolved`: what a batch has been resolved to, against the parts it is to return;
* `readRowsLocked_eq`, `readArraysLocked_eq`: the batches, for any strip height;
* `bulk_reads_agree`: every bulk read of the backend.
-/

namespace InfraStore

open Lib

namespace Hdf5Backend

section

variable {H D : Type} [DecidableEq H] [ToString H] [H5Dataset D] [LawfulH5Dataset D]

/-- Every packed array the index names is a column of a dataset laid out as its entry says. -/
def Indexed (f : Hdf5Backend H D) : Prop :=
  ∀ {h : H} {name : String} {col : ℕ}, FMap.get f.byHash h = some (.packed name col) →
    ∃ st d, FMap.get f.datasets name = some st ∧ FMap.get f.single name = some d ∧ st.Describes d ∧
      col < st.columns.length

/-- A run of rows of one array. -/
def part (f : Hdf5Backend H D) (c : H × Dtype × ℕ × ℕ) : Result TypedArray :=
  f.getSlice c.1 c.2.1 c.2.2.1 c.2.2.2

variable {f : Hdf5Backend H D}

/-- The part of a column that lies in a packed dataset. -/
theorem part_packed {c : H × Dtype × ℕ × ℕ} {name : String} {col : ℕ} {st : DatasetState H} {d : D}
    (hloc : FMap.get f.byHash c.1 = some (.packed name col))
    (hst : FMap.get f.datasets name = some st) (hds : FMap.get f.single name = some d)
    (hdesc : st.Describes d) (hcol : col < st.columns.length) :
    f.part c = (do
      checkDtype c.1 st.dtype c.2.1
      checkSlice c.2.2.1 c.2.2.2 st.length
      pure ((st.column d col).slice 0 c.2.2.1 (c.2.2.2 - c.2.2.1))) := by
  unfold part getSlice
  cases hd : checkDtype c.1 st.dtype c.2.1 with
  | error e =>
    unfold readLocked location datasetState
    rw [hloc]
    simp only [bind, Except.bind]
    rw [hst]
    simp only
    rw [hd]
  | ok u =>
    have heq : st.dtype = c.2.1 := checkDtype_ok hd
    rw [← heq, readLocked_packed hloc hst hds hdesc hcol]
    rfl

/-! ### Places -/

omit [DecidableEq H] [ToString H] [H5Dataset D] [LawfulH5Dataset D] in
theorem datasetState_eq {name : String} {st : DatasetState H} (h : FMap.get f.datasets name = some st) :
    f.datasetState name = .ok st := by
  unfold datasetState
  rw [h]

omit [DecidableEq H] [ToString H] [H5Dataset D] [LawfulH5Dataset D] in
theorem dataset_eq {name : String} {d : D} (h : FMap.get f.single name = some d) :
    f.dataset name = .ok d := by
  unfold dataset
  rw [h]

omit [LawfulH5Dataset D] in
/-- An array that cannot be placed cannot be read. -/
theorem readLocked_of_placeOne {h : H} {t : Dtype} {e : TimeSeriesError}
    (hp : f.placeOne h t = .error e) (range : Option (ℕ × ℕ)) : f.readLocked h t range = .error e := by
  unfold placeOne at hp
  unfold readLocked
  cases hl : f.location h with
  | error e' =>
    rw [hl] at hp
    cases hp
    rfl
  | ok l =>
    rw [hl] at hp
    cases l with
    | standalone var => cases hp
    | packed name col =>
      simp only [bind, Except.bind] at hp ⊢
      cases hs : f.datasetState name with
      | error e' =>
        rw [hs] at hp
        cases hp
        rfl
      | ok st =>
        rw [hs] at hp
        simp only at hp ⊢
        cases hd : checkDtype h st.dtype t with
        | error e' =>
          rw [hd] at hp
          cases hp
          rfl
        | ok u =>
          rw [hd] at hp
          cases hp

omit [LawfulH5Dataset D] in
/-- Where an array is placed: in a column of a packed dataset of its dtype, or by itself. -/
theorem placeOne_ok (hf : f.Indexed) {h : H} {t : Dtype} {p : Placement H}
    (hp : f.placeOne h t = .ok p) :
    p = .individual h ∨ ∃ name col st d, p = .packed name col ∧
      FMap.get f.byHash h = some (.packed name col) ∧ FMap.get f.datasets name = some st ∧
      FMap.get f.single name = some d ∧ st.Describes d ∧ col < st.columns.length ∧ st.dtype = t := by
  unfold placeOne location at hp
  cases hl : FMap.get f.byHash h with
  | none =>
    rw [hl] at hp
    cases hp
  | some l =>
    rw [hl] at hp
    cases l with
    | standalone var =>
      cases hp
      exact .inl rfl
    | packed name col =>
      obtain ⟨st, d, hst, hds, hdesc, hcol⟩ := hf hl
      simp only [bind, Except.bind] at hp
      rw [datasetState_eq hst] at hp
      simp only at hp
      cases hd : checkDtype h st.dtype t with
      | error e =>
        rw [hd] at hp
        cases hp
      | ok u =>
        rw [hd] at hp
        cases hp
        exact .inr ⟨name, col, st, d, rfl, rfl, hst, hds, hdesc, hcol, checkDtype_ok hd⟩

/-! ### Rows of a column -/

section

variable {st : DatasetState H} {d : D} {col a b : ℕ}

omit [DecidableEq H] [ToString H] in
/-- A run of rows of a column has a block for each row. -/
theorem slice_length (h : st.Describes d) (hcol : col < st.columns.length) (hab : a ≤ b)
    (hb : b ≤ st.length) : ((st.column d col).slice 0 a (b - a)).bytes.length =
      (b - a) * (st.elementShape.prod * st.dtype.size) := by
  have hwf : ((st.column d col).slice 0 a (b - a)).WellFormed :=
    TypedArray.slice_wellFormed (h.column_wellFormed hcol) rfl (show a + (b - a) ≤ st.length by omega)
  calc ((st.column d col).slice 0 a (b - a)).bytes.length
      = ((b - a) :: st.elementShape).prod * st.dtype.size := hwf
    _ = (b - a) * (st.elementShape.prod * st.dtype.size) := by
      rw [List.prod_cons, Nat.mul_assoc]

omit [DecidableEq H] [ToString H] in
/-- A row of a run of rows of a column, in the dataset. -/
theorem slice_cell (h : st.Describes d) (hcol : col < st.columns.length) {x : ℕ} (hax : a ≤ x)
    (hxb : x < b) (hb : b ≤ st.length) :
    ((((st.column d col).slice 0 a (b - a)).bytes.drop
      ((x - a) * (st.elementShape.prod * st.dtype.size))).take (st.elementShape.prod * st.dtype.size)) =
      ((LawfulH5Dataset.content d).drop
        ((x * st.columns.length + col) * (st.elementShape.prod * st.dtype.size))).take
          (st.elementShape.prod * st.dtype.size) := by
  have hne : (st.column d col).shape ≠ [] := List.cons_ne_nil _ _
  have hbytes : ((st.column d col).slice 0 a (b - a)).bytes =
      ((st.column d col).bytes.drop (a * (st.elementShape.prod * st.dtype.size))).take
        ((b - a) * (st.elementShape.prod * st.dtype.size)) := TypedArray.slice_rows hne a (b - a)
  rw [hbytes, take_drop_run hax (show x < a + (b - a) by omega)]
  exact columnOf_row h.content_length hcol (by omega)

end

/-! ### Resolving a batch -/

/-- A strip wants rows of columns of one dataset, each the part at a place of the batch. -/
structure Strip.Reads (f : Hdf5Backend H D) (parts : List (List UInt8)) (s : Strip)
    (st : DatasetState H) (d : D) : Prop where
  state : FMap.get f.datasets s.dataset = some st
  dataset : FMap.get f.single s.dataset = some d
  described : st.Describes d
  rows : s.rows.1 ≤ s.rows.2
  bound : s.rows.2 ≤ st.length
  elemBytes : s.elemBytes = st.elementShape.prod * st.dtype.size
  span : s.first ≤ s.last
  last : s.last < st.columns.length
  within : ∀ m ∈ s.members, s.first ≤ m.2 ∧ m.2 ≤ s.last
  members : ∀ m ∈ s.members,
    parts[m.1]? = some ((st.column d m.2).slice 0 s.rows.1 (s.rows.2 - s.rows.1)).bytes

/-- What a batch has been resolved to: every part has its place, and is read by a strip or has been
read on its own. -/
structure Resolved (f : Hdf5Backend H D) (g : Gather) (parts : List (List UInt8)) : Prop where
  offsets : g.offsets = (List.range parts.length).map (startOf parts)
  total : g.total = parts.flatten.length
  lone : ∀ l ∈ g.lone, parts[l.1]? = some l.2
  strips : ∀ s ∈ g.strips, ∃ st d, s.Reads f parts st d
  covered : ∀ i < parts.length, (∃ l ∈ g.lone, l.1 = i) ∨ ∃ s ∈ g.strips, ∃ m ∈ s.members, m.1 = i

theorem mem_modify {α : Type} {l : List α} {k : ℕ} {F : α → α} {x : α} (h : x ∈ l.modify k F) :
    x ∈ l ∨ ∃ y, l[k]? = some y ∧ x = F y := by
  obtain ⟨j, hj⟩ := List.mem_iff_getElem?.mp h
  rw [List.getElem?_modify] at hj
  cases hy : l[j]? with
  | none =>
    rw [hy] at hj
    cases hj
  | some y =>
    rw [hy] at hj
    by_cases hk : k = j
    · subst hk
      have hxy : F y = x := by simpa using hj
      exact .inr ⟨y, hy, hxy.symm⟩
    · have hxy : y = x := by simpa [hk] using hj
      exact .inl (hxy ▸ List.mem_of_getElem? hy)

theorem modify_mem {α : Type} {l : List α} {k : ℕ} {y : α} (h : l[k]? = some y) (F : α → α) :
    F y ∈ l.modify k F := by
  apply List.mem_of_getElem? (i := k)
  rw [List.getElem?_modify, h]
  simp

theorem mem_modify_of_mem {α : Type} {l : List α} {x : α} (h : x ∈ l) (k : ℕ) (F : α → α) :
    x ∈ l.modify k F ∨ F x ∈ l.modify k F := by
  obtain ⟨j, hj⟩ := List.mem_iff_getElem?.mp h
  by_cases hk : k = j
  · subst hk
    exact .inr (modify_mem hj F)
  · left
    apply List.mem_of_getElem? (i := j)
    rw [List.getElem?_modify, hj]
    simp [hk]

section

variable {f : Hdf5Backend H D} {g g' : Gather} {parts : List (List UInt8)} {part : List UInt8}
variable {s : Strip} {st : DatasetState H} {d : D}

theorem getElem?_parts {i : ℕ} {x : List UInt8} (h : parts[i]? = some x) (part : List UInt8) :
    (parts ++ [part])[i]? = some x := by
  rw [List.getElem?_append_left (List.getElem?_eq_some_iff.mp h).1]
  exact h

omit [DecidableEq H] [ToString H] in
theorem Strip.Reads.more (h : s.Reads f parts st d) (part : List UInt8) :
    s.Reads f (parts ++ [part]) st d :=
  { h with members := fun m hm => getElem?_parts (h.members m hm) part }

omit [DecidableEq H] [ToString H] in
/-- One more column of the dataset is the next part. -/
theorem Strip.Reads.add (h : s.Reads f parts st d) {col : ℕ} (hcol : col < st.columns.length)
    (hpart : part = ((st.column d col).slice 0 s.rows.1 (s.rows.2 - s.rows.1)).bytes) :
    (s.add parts.length col).Reads f (parts ++ [part]) st d where
  state := h.state
  dataset := h.dataset
  described := h.described
  rows := h.rows
  bound := h.bound
  elemBytes := h.elemBytes
  span := (min_le_left _ _).trans (h.span.trans (le_max_left _ _))
  last := max_lt h.last hcol
  within := by
    intro m hm
    rcases List.mem_append.mp hm with hm | hm
    · have := h.within m hm
      exact ⟨(min_le_left _ _).trans this.1, this.2.trans (le_max_left _ _)⟩
    · rw [List.mem_singleton.mp hm]
      exact ⟨min_le_right _ _, le_max_right _ _⟩
  members := by
    intro m hm
    rcases List.mem_append.mp hm with hm | hm
    · exact getElem?_parts (h.members m hm) part
    · rw [List.mem_singleton.mp hm, List.getElem?_concat_length, hpart]
      rfl

omit [DecidableEq H] [ToString H] in
/-- The next part takes the place after those before it. -/
theorem Resolved.place (h : Resolved f g parts) (hoffsets : g'.offsets = g.offsets ++ [g.total])
    (htotal : g'.total = g.total + part.length)
    (hlone : ∀ l ∈ g'.lone, l ∈ g.lone ∨ l = (parts.length, part))
    (hstrips : ∀ s ∈ g'.strips, ∃ st d, s.Reads f (parts ++ [part]) st d)
    (hcovered : ∀ i ≤ parts.length,
      (∃ l ∈ g'.lone, l.1 = i) ∨ ∃ s ∈ g'.strips, ∃ m ∈ s.members, m.1 = i) :
    Resolved f g' (parts ++ [part]) where
  offsets := by
    rw [hoffsets, h.offsets, h.total, List.length_append, List.length_singleton, List.range_succ,
      List.map_append, List.map_singleton, startOf_append le_rfl, startOf_length]
    congr 1
    apply List.map_congr_left
    intro i hi
    rw [startOf_append (Nat.le_of_lt (List.mem_range.mp hi))]
  total := by
    rw [htotal, h.total, List.flatten_append, List.flatten_singleton, List.length_append]
  lone := by
    intro l hl
    rcases hlone l hl with hl | rfl
    · exact getElem?_parts (h.lone l hl) part
    · exact List.getElem?_concat_length
  strips := hstrips
  covered := by
    intro i hi
    rw [List.length_append, List.length_singleton] at hi
    exact hcovered i (Nat.lt_succ_iff.mp hi)

omit [DecidableEq H] [ToString H] in
/-- A part that was read on its own. -/
theorem Resolved.individual (h : Resolved f g parts) (part : List UInt8) :
    Resolved f { g with lone := g.lone ++ [(g.offsets.length, part)], offsets := g.offsets ++ [g.total],
                        total := g.total + part.length } (parts ++ [part]) := by
  have hlen : g.offsets.length = parts.length := by
    rw [h.offsets, List.length_map, List.length_range]
  refine h.place rfl rfl ?_ (fun s hs => ?_) ?_
  · intro l hl
    rcases List.mem_append.mp hl with hl | hl
    · exact .inl hl
    · exact .inr (by rw [List.mem_singleton.mp hl, hlen])
  · obtain ⟨st, d, hr⟩ := h.strips s hs
    exact ⟨st, d, hr.more part⟩
  · intro i hi
    rcases Nat.lt_or_eq_of_le hi with hlt | rfl
    · rcases h.covered i hlt with ⟨l, hl, he⟩ | hs
      · exact .inl ⟨l, List.mem_append_left _ hl, he⟩
      · exact .inr hs
    · exact .inl ⟨_, List.mem_append_right _ (List.mem_singleton.mpr rfl), hlen⟩

omit [DecidableEq H] [ToString H] in
/-- A part that is the first of its dataset and rows. -/
theorem Resolved.newStrip (h : Resolved f g parts) (hs : s.Reads f (parts ++ [part]) st d)
    (hmembers : ∃ m ∈ s.members, m.1 = parts.length)
    (hpart : part.length = (s.rows.2 - s.rows.1) * s.elemBytes) :
    Resolved f { g with strips := g.strips ++ [s], offsets := g.offsets ++ [g.total],
                        total := g.total + (s.rows.2 - s.rows.1) * s.elemBytes } (parts ++ [part]) := by
  refine h.place rfl (by rw [hpart]) (fun l hl => .inl hl) (fun x hx => ?_) ?_
  · rcases List.mem_append.mp hx with hx | hx
    · obtain ⟨st', d', hr⟩ := h.strips x hx
      exact ⟨st', d', hr.more part⟩
    · rw [List.mem_singleton.mp hx]
      exact ⟨st, d, hs⟩
  · intro i hi
    rcases Nat.lt_or_eq_of_le hi with hlt | rfl
    · rcases h.covered i hlt with hl | ⟨x, hx, hm⟩
      · exact .inl hl
      · exact .inr ⟨x, List.mem_append_left _ hx, hm⟩
    · exact .inr ⟨s, List.mem_append_right _ (List.mem_singleton.mpr rfl), hmembers⟩

omit [DecidableEq H] [ToString H] in
/-- A part that joins a strip. -/
theorem Resolved.joinStrip (h : Resolved f g parts) {k col : ℕ} (hk : g.strips[k]? = some s)
    (hs : s.Reads f parts st d) (hcol : col < st.columns.length)
    (hpart : part = ((st.column d col).slice 0 s.rows.1 (s.rows.2 - s.rows.1)).bytes) :
    Resolved f { g with strips := g.strips.modify k fun s => s.add parts.length col,
                        offsets := g.offsets ++ [g.total],
                        total := g.total + (s.rows.2 - s.rows.1) * s.elemBytes } (parts ++ [part]) := by
  have hlength : part.length = (s.rows.2 - s.rows.1) * s.elemBytes := by
    rw [hpart, slice_length hs.described hcol hs.rows hs.bound, hs.elemBytes]
  refine h.place rfl (by rw [hlength]) (fun l hl => .inl hl) (fun x hx => ?_) ?_
  · rcases mem_modify hx with hx | ⟨y, hy, rfl⟩
    · obtain ⟨st', d', hr⟩ := h.strips x hx
      exact ⟨st', d', hr.more part⟩
    · cases Option.some.inj (hk.symm.trans hy)
      exact ⟨st, d, hs.add hcol hpart⟩
  · intro i hi
    rcases Nat.lt_or_eq_of_le hi with hlt | rfl
    · rcases h.covered i hlt with hl | ⟨x, hx, m, hm, hmi⟩
      · exact .inl hl
      · rcases mem_modify_of_mem hx k fun s => s.add parts.length col with hx | hx
        · exact .inr ⟨x, hx, m, hm, hmi⟩
        · exact .inr ⟨_, hx, m, List.mem_append_left _ hm, hmi⟩
    · exact .inr ⟨_, modify_mem hk _, _, List.mem_append_right _ (List.mem_singleton.mpr rfl), rfl⟩

/-- **Step.**  A column is resolved where its own read succeeds, and its part is the next one. -/
theorem Resolved.addColumn (hf : f.Indexed) (h : Resolved f g parts) (c : H × Dtype × ℕ × ℕ)
    {p : Placement H} (hp : f.placeOne c.1 c.2.1 = .ok p) :
    (∀ a, f.part c = .ok a → ∃ g', f.addColumn g (c, p) = .ok g' ∧ Resolved f g' (parts ++ [a.bytes])) ∧
      ∀ e, f.part c = .error e → f.addColumn g (c, p) = .error e := by
  have hlen : g.offsets.length = parts.length := by
    rw [h.offsets, List.length_map, List.length_range]
  rcases placeOne_ok hf hp with rfl | ⟨name, col, st, d, rfl, hloc, hst, hds, hdesc, hcol, htype⟩
  · have hadd : f.addColumn g (c, .individual c.1) = (f.part c).bind fun arr =>
        .ok { g with lone := g.lone ++ [(g.offsets.length, arr.bytes)],
                     offsets := g.offsets ++ [g.total], total := g.total + arr.bytes.length } := rfl
    constructor
    · intro a ha
      rw [hadd, ha]
      exact ⟨_, rfl, h.individual a.bytes⟩
    · intro e he
      rw [hadd, he]
      rfl
  · have hpart := part_packed hloc hst hds hdesc hcol
    rw [htype, checkDtype_self] at hpart
    unfold Hdf5Backend.addColumn
    simp only
    cases hfind : g.strips.findIdx? fun s => s.dataset = name && s.rows = c.2.2 with
    | some k =>
      obtain ⟨hk, hsame, -⟩ := List.findIdx?_eq_some_iff_getElem.mp hfind
      simp only [Bool.and_eq_true, decide_eq_true_eq] at hsame
      have hget : g.strips[k]? = some g.strips[k] := List.getElem?_eq_getElem hk
      obtain ⟨st', d', hr⟩ := h.strips _ (List.getElem_mem hk)
      cases Option.some.inj ((hsame.1 ▸ hr.state).symm.trans hst)
      cases Option.some.inj ((hsame.1 ▸ hr.dataset).symm.trans hds)
      have hin : checkSlice c.2.2.1 c.2.2.2 st.length = .ok () :=
        checkSlice_ok.mpr (hsame.2 ▸ ⟨hr.rows, hr.bound⟩)
      rw [hin] at hpart
      have hok : f.part c = .ok ((st.column d col).slice 0 c.2.2.1 (c.2.2.2 - c.2.2.1)) := hpart
      constructor
      · intro a ha
        rw [hok] at ha
        cases ha
        simp only [hget, Option.map_some, Option.getD_some, hlen]
        rw [← hsame.2]
        exact ⟨_, rfl, h.joinStrip hget hr hcol rfl⟩
      · intro e he
        rw [hok] at he
        cases he
    | none =>
      simp only
      rw [datasetState_eq hst]
      cases hc : checkSlice c.2.2.1 c.2.2.2 st.length with
      | error e' =>
        rw [hc] at hpart
        have herr : f.part c = .error e' := hpart
        constructor
        · intro a ha
          rw [herr] at ha
          cases ha
        · intro e he
          rw [herr] at he
          cases he
          simp only [bind, Except.bind, hc]
      | ok u =>
        rw [hc] at hpart
        have hok : f.part c = .ok ((st.column d col).slice 0 c.2.2.1 (c.2.2.2 - c.2.2.1)) := hpart
        obtain ⟨hab, hb⟩ := checkSlice_ok.mp hc
        constructor
        · intro a ha
          rw [hok] at ha
          cases ha
          have helem : st.elemBytes = st.elementShape.prod * st.dtype.size := by
            unfold DatasetState.elemBytes
            rw [Nat.max_eq_left (Nat.one_le_iff_ne_zero.mpr hdesc.elements)]
          have hreads : Strip.Reads f
              (parts ++ [((st.column d col).slice 0 c.2.2.1 (c.2.2.2 - c.2.2.1)).bytes])
              ⟨name, c.2.2, col, col, st.elemBytes, [(parts.length, col)]⟩ st d :=
            { state := hst, dataset := hds, described := hdesc, rows := hab, bound := hb
              elemBytes := helem, span := le_rfl, last := hcol
              within := fun m hm => by
                rw [List.mem_singleton.mp hm]
                exact ⟨le_rfl, le_rfl⟩
              members := fun m hm => by
                rw [List.mem_singleton.mp hm]
                exact List.getElem?_concat_length }
          simp only [bind, Except.bind, hc, hlen]
          exact ⟨_, rfl, h.newStrip hreads ⟨_, List.mem_singleton.mpr rfl, rfl⟩
            (by rw [slice_length hdesc hcol hab hb, helem])⟩
        · intro e he
          rw [hok] at he
          cases he

omit [DecidableEq H] [ToString H] in
theorem Resolved.empty (f : Hdf5Backend H D) : Resolved f ⟨[], [], [], 0⟩ [] where
  offsets := rfl
  total := rfl
  lone := fun _ hl => (List.not_mem_nil hl).elim
  strips := fun _ hs => (List.not_mem_nil hs).elim
  covered := fun _ hi => absurd hi (Nat.not_lt_zero _)

/-- **Run.**  A batch is resolved where each of its columns can be read, and its parts are what those
reads return. -/
theorem Resolved.foldlM (hf : f.Indexed) (columns : List (H × Dtype × ℕ × ℕ)) :
    ∀ {g : Gather} {parts : List (List UInt8)} {ps : List (Placement H)}, Resolved f g parts →
      columns.mapM (fun c => f.placeOne c.1 c.2.1) = .ok ps →
      (∀ as, columns.mapM f.part = .ok as → ∃ g', (columns.zip ps).foldlM f.addColumn g = .ok g' ∧
        Resolved f g' (parts ++ as.map TypedArray.bytes)) ∧
      ∀ e, columns.mapM f.part = .error e → (columns.zip ps).foldlM f.addColumn g = .error e := by
  induction columns with
  | nil =>
    intro g parts ps h hps
    cases hps
    constructor
    · intro as has
      cases has
      exact ⟨g, rfl, by simpa using h⟩
    · intro e he
      cases he
  | cons c columns ih =>
    intro g parts ps h hps
    rw [List.mapM_cons] at hps
    obtain ⟨p, hp, hps⟩ := except_bind_eq_ok.mp hps
    obtain ⟨ps', hps', he⟩ := except_bind_eq_ok.mp hps
    cases he
    obtain ⟨hok, herr⟩ := h.addColumn hf c hp
    rw [List.zip_cons_cons, List.foldlM_cons, List.mapM_cons]
    cases ha : f.part c with
    | error e' =>
      rw [herr e' ha]
      constructor
      · intro as has
        cases has
      · intro e he
        cases he
        rfl
    | ok a =>
      obtain ⟨g₁, hg₁, h₁⟩ := hok a ha
      obtain ⟨ihok, iherr⟩ := ih h₁ hps'
      rw [hg₁]
      constructor
      · intro as has
        obtain ⟨a', ha', has⟩ := except_bind_eq_ok.mp has
        cases ha'
        obtain ⟨as', has', he⟩ := except_bind_eq_ok.mp has
        cases he
        obtain ⟨g', hg', h'⟩ := ihok as' has'
        exact ⟨g', hg', by simpa using h'⟩
      · intro e he
        cases hr : columns.mapM f.part with
        | error e' =>
          rw [hr] at he
          cases he
          exact iherr _ hr
        | ok as =>
          rw [hr] at he
          cases he

end

/-! ### Reading the strips -/

section

variable {f : Hdf5Backend H D} {g : Gather} {parts : List (List UInt8)} {s : Strip}
variable {st : DatasetState H} {d : D}

/-- The bytes of a run of rows over the span of a strip. -/
def stripBytes (s : Strip) (st : DatasetState H) (d : D) (sub : ℕ × ℕ) : List UInt8 :=
  hyperslab st.dtype.size (st.slabShape st.columns.length)
    (packedBlockRanges sub (s.first, s.last + 1) st.elementShape) (LawfulH5Dataset.content d)

omit [DecidableEq H] [ToString H] in
theorem readSlice_block (h : st.Describes d) {sub : ℕ × ℕ} {first last : ℕ} (hsub : sub.1 ≤ sub.2)
    (hrows : sub.2 ≤ st.length) (hspan : first ≤ last) (hlast : last < st.columns.length) :
    H5Dataset.readSlice d st.dtype (packedBlockRanges sub (first, last + 1) st.elementShape) =
      .ok (hyperslab st.dtype.size (st.slabShape st.columns.length)
        (packedBlockRanges sub (first, last + 1) st.elementShape) (LawfulH5Dataset.content d)) := by
  rw [LawfulH5Dataset.readSlice_eq h.elementType, h.shape]
  rw [h.shape]
  exact .cons ⟨hsub, hrows⟩ (.cons ⟨by simp only; omega, hlast⟩ (inBounds_whole _))

/-- The places of a row of a part that starts at one place. -/
def rowPlaces (s : Strip) (start x : ℕ) : Set ℕ :=
  {p | start + (x - s.rows.1) * s.elemBytes ≤ p ∧
    p < start + (x - s.rows.1) * s.elemBytes + s.elemBytes}

omit [DecidableEq H] [ToString H] in
/-- One row of a member is copied to its place. -/
theorem Strip.Reads.scatterRow (h : s.Reads f parts st d) {m : ℕ × ℕ} (hm : m ∈ s.members)
    {sub : ℕ × ℕ} (h1 : s.rows.1 ≤ sub.1) (h2 : sub.2 ≤ s.rows.2) {r : ℕ} (hr : r < sub.2 - sub.1)
    {out : List UInt8} (hout : out.length = parts.flatten.length) :
    ∃ out', Hdf5Backend.scatterRow s (stripBytes s st d sub) m.2
        (startOf parts m.1 + (sub.1 - s.rows.1) * s.elemBytes) out r = .ok out' ∧
      Fills parts.flatten out out' (rowPlaces s (startOf parts m.1) (sub.1 + r)) := by
  obtain ⟨hfirst, hlast⟩ := h.within m hm
  have hcol : m.2 < st.columns.length := Nat.lt_of_le_of_lt hlast h.last
  have hwidth : s.last - s.first + 1 = s.last + 1 - s.first := by have := h.span; omega
  have hx : sub.1 + r < s.rows.2 := by omega
  -- the cell of the strip, in the dataset
  obtain ⟨hlength, hcell⟩ := hyperslab_cell (a := sub.1) (b := sub.2) (c := s.first) (e := s.last + 1)
    h.described.content_length (h2.trans h.bound) h.last
  have hcell := hcell r hr (m.2 - s.first) (by omega)
  rw [Nat.add_sub_cancel' hfirst, ← h.elemBytes] at hcell
  rw [← h.elemBytes] at hlength
  have hplace : r * (s.last - s.first + 1) + m.2 - s.first =
      r * (s.last + 1 - s.first) + (m.2 - s.first) := by
    rw [hwidth, Nat.add_sub_assoc hfirst]
  have hfits : (r * (s.last + 1 - s.first) + (m.2 - s.first)) * s.elemBytes + s.elemBytes ≤
      (sub.2 - sub.1) * ((s.last + 1 - s.first) * s.elemBytes) := by
    rw [← Nat.succ_mul, ← Nat.mul_assoc]
    exact Nat.mul_le_mul_right _ (mul_add_lt hr (by omega))
  -- the same cell, in the part
  have hpart := h.members m hm
  have hrow := slice_cell (a := s.rows.1) (b := s.rows.2) h.described hcol
    (show s.rows.1 ≤ sub.1 + r by omega) hx h.bound
  have hpartLength := slice_length h.described hcol h.rows h.bound
  rw [← h.elemBytes] at hrow hpartLength
  have hinside : (sub.1 + r - s.rows.1) * s.elemBytes + s.elemBytes ≤
      (s.rows.2 - s.rows.1) * s.elemBytes := by
    rw [← Nat.succ_mul]
    exact Nat.mul_le_mul_right _ (by omega)
  obtain ⟨hend, hread⟩ := startOf_part hpart
  rw [hpartLength] at hend
  have hwant := hread ((sub.1 + r - s.rows.1) * s.elemBytes) s.elemBytes (by rwa [hpartLength])
  have hfit : startOf parts m.1 + (sub.1 + r - s.rows.1) * s.elemBytes + s.elemBytes ≤
      parts.flatten.length := by omega
  obtain ⟨out', hcopy, hfills⟩ := Fills.copy hout hfit
  have hdst : startOf parts m.1 + (sub.1 - s.rows.1) * s.elemBytes + r * s.elemBytes =
      startOf parts m.1 + (sub.1 + r - s.rows.1) * s.elemBytes := by
    rw [Nat.add_assoc, ← Nat.add_mul]
    congr 2
    omega
  have hin : ¬ (stripBytes s st d sub).length <
      (r * (s.last + 1 - s.first) + (m.2 - s.first)) * s.elemBytes + s.elemBytes := by
    rw [show (stripBytes s st d sub).length = _ from hlength]
    omega
  refine ⟨out', ?_, hfills⟩
  unfold Hdf5Backend.scatterRow copyBlock
  simp only
  rw [hplace, if_neg hin, hdst, show ((stripBytes s st d sub).drop _).take _ = _ from hcell, ← hrow,
    ← hwant, hcopy]

omit [DecidableEq H] [ToString H] in
/-- The rows of a strip of a member are copied to their places. -/
theorem Strip.Reads.scatterMember (h : s.Reads f parts st d)
    (hg : g.offsets = (List.range parts.length).map (startOf parts)) {m : ℕ × ℕ} (hm : m ∈ s.members)
    {sub : ℕ × ℕ} (h1 : s.rows.1 ≤ sub.1) (h2 : sub.2 ≤ s.rows.2)
    {out : List UInt8} (hout : out.length = parts.flatten.length) :
    ∃ out', Hdf5Backend.scatterMember s g.offsets sub (stripBytes s st d sub) out m = .ok out' ∧
      Fills parts.flatten out out'
        {p | ∃ x, sub.1 ≤ x ∧ x < sub.2 ∧ p ∈ rowPlaces s (startOf parts m.1) x} := by
  have hlt : m.1 < parts.length := (List.getElem?_eq_some_iff.mp (h.members m hm)).1
  have hoffset : g.offsets[m.1]? = some (startOf parts m.1) := by
    rw [hg, List.getElem?_map, List.getElem?_range hlt]
    rfl
  unfold Hdf5Backend.scatterMember
  rw [hoffset]
  obtain ⟨out', hfold, hfills⟩ := Fills.foldlM (List.range (sub.2 - sub.1))
    (fun r hr out hout => h.scatterRow hm h1 h2 (List.mem_range.mp hr) hout) out hout
  refine ⟨out', hfold, hfills.mono ?_⟩
  rintro p ⟨x, hx1, hx2, hp⟩
  exact ⟨x - sub.1, List.mem_range.mpr (by omega), by rwa [Nat.add_sub_cancel' hx1]⟩

omit [DecidableEq H] [ToString H] in
/-- A strip is read, and fills the places of its members. -/
theorem Strip.Reads.readStrip (h : s.Reads f parts st d)
    (hg : g.offsets = (List.range parts.length).map (startOf parts)) (cacheBytes : ℕ)
    {out : List UInt8} (hout : out.length = parts.flatten.length) :
    ∃ out', f.readStrip cacheBytes g.offsets out s = .ok out' ∧
      Fills parts.flatten out out' {p | ∃ m ∈ s.members, ∃ part, parts[m.1]? = some part ∧
        startOf parts m.1 ≤ p ∧ p < startOf parts m.1 + part.length} := by
  have helem : s.elemBytes ≠ 0 := by
    rw [h.elemBytes]
    exact Nat.mul_ne_zero h.described.elements (Dtype.size_pos _).ne'
  have hwidth : (s.last - s.first + 1) * s.elemBytes ≠ 0 :=
    Nat.mul_ne_zero (Nat.succ_ne_zero _) helem
  unfold Hdf5Backend.readStrip
  rw [datasetState_eq h.state, dataset_eq h.dataset]
  simp only [Except.orHalt, Except.mapError, bind, Except.bind, if_neg hwidth]
  obtain ⟨height, hheight⟩ : ∃ n, max (cacheBytes / ((s.last - s.first + 1) * s.elemBytes)) 1 = n :=
    ⟨_, rfl⟩
  rw [hheight]
  have hstep : ∀ sub ∈ rowStrips s.rows.1 s.rows.2 height, ∀ out : List UInt8,
      out.length = parts.flatten.length → ∃ out',
        ((Except.orHalt (H5Dataset.readSlice d st.dtype
          (packedBlockRanges sub (s.first, s.last + 1) st.elementShape))).bind fun bytes =>
            s.members.foldlM (Hdf5Backend.scatterMember s g.offsets sub bytes) out) = .ok out' ∧
        Fills parts.flatten out out' {p | ∃ m ∈ s.members,
          ∃ x, sub.1 ≤ x ∧ x < sub.2 ∧ p ∈ rowPlaces s (startOf parts m.1) x} := by
    intro sub hsub out hout
    obtain ⟨h1, hlt, h2⟩ := mem_rowStrips hsub
    rw [readSlice_block h.described hlt.le (h2.trans h.bound) h.span h.last]
    exact Fills.foldlM s.members (fun m hm out hout => h.scatterMember hg hm h1 h2 hout) out hout
  obtain ⟨out', hfold, hfills⟩ := Fills.foldlM _ hstep out hout
  refine ⟨out', hfold, hfills.mono ?_⟩
  rintro p ⟨m, hm, part, hpart, hlo, hhi⟩
  have hcol : m.2 < st.columns.length := Nat.lt_of_le_of_lt (h.within m hm).2 h.last
  have hlength := slice_length h.described hcol h.rows h.bound
  cases Option.some.inj (hpart.symm.trans (h.members m hm))
  rw [hlength, ← h.elemBytes] at hhi
  -- the row of the place
  obtain ⟨q, hq⟩ := Nat.exists_eq_add_of_le hlo
  subst hq
  have hrow : q / s.elemBytes < s.rows.2 - s.rows.1 := by
    rw [Nat.div_lt_iff_lt_mul (Nat.pos_of_ne_zero helem)]
    omega
  have hdiv := Nat.div_add_mod q s.elemBytes
  have hmod := Nat.mod_lt q (Nat.pos_of_ne_zero helem)
  rw [Nat.mul_comm] at hdiv
  obtain ⟨x, hx⟩ : ∃ x, q / s.elemBytes = x := ⟨_, rfl⟩
  rw [hx] at hrow hdiv
  obtain ⟨sub, hsub, hx1, hx2⟩ := exists_rowStrip height (Nat.le_add_right s.rows.1 x)
    (show s.rows.1 + x < s.rows.2 by omega)
  refine ⟨sub, hsub, m, hm, _, hx1, hx2, ?_⟩
  show startOf parts m.1 + (s.rows.1 + x - s.rows.1) * s.elemBytes ≤ startOf parts m.1 + q ∧
    startOf parts m.1 + q < startOf parts m.1 + (s.rows.1 + x - s.rows.1) * s.elemBytes + s.elemBytes
  rw [Nat.add_sub_cancel_left]
  constructor
  · omega
  · omega

omit [DecidableEq H] [ToString H] in
/-- A part that was read on its own fills its place. -/
theorem Resolved.placeLone (h : Resolved f g parts) {l : ℕ × List UInt8} (hl : l ∈ g.lone)
    {out : List UInt8} (hout : out.length = parts.flatten.length) :
    ∃ out', Hdf5Backend.placeLone g.offsets out l = .ok out' ∧
      Fills parts.flatten out out' {p | startOf parts l.1 ≤ p ∧ p < startOf parts l.1 + l.2.length} := by
  have hpart := h.lone l hl
  have hlt : l.1 < parts.length := (List.getElem?_eq_some_iff.mp hpart).1
  have hoffset : g.offsets[l.1]? = some (startOf parts l.1) := by
    rw [h.offsets, List.getElem?_map, List.getElem?_range hlt]
    rfl
  obtain ⟨hend, hread⟩ := startOf_part hpart
  obtain ⟨out', hcopy, hfills⟩ := Fills.copy hout hend
  have hblock := hread 0 l.2.length (by omega)
  rw [Nat.add_zero, List.drop_zero, List.take_length] at hblock
  rw [hblock] at hcopy
  refine ⟨out', ?_, hfills⟩
  unfold Hdf5Backend.placeLone copyBlock
  rw [hoffset]
  simp only
  rw [hcopy]

omit [DecidableEq H] [ToString H] in
/-- **Copies.**  A batch that has been resolved is read to its parts, one after the other. -/
theorem Resolved.gather (h : Resolved f g parts) (cacheBytes : ℕ) :
    ((g.lone.foldlM (Hdf5Backend.placeLone g.offsets) (List.replicate g.total 0)).bind fun out =>
      g.strips.foldlM (f.readStrip cacheBytes g.offsets) out) = .ok parts.flatten := by
  have hstart : (List.replicate g.total (0 : UInt8)).length = parts.flatten.length := by
    rw [List.length_replicate, h.total]
  obtain ⟨mid, hmid, hlone⟩ := Fills.foldlM g.lone (fun l hl out hout => h.placeLone hl hout) _ hstart
  have hlength : mid.length = parts.flatten.length := hlone.length.trans hstart
  have hstrip : ∀ s ∈ g.strips, ∀ out : List UInt8, out.length = parts.flatten.length →
      ∃ out', f.readStrip cacheBytes g.offsets out s = .ok out' ∧
        Fills parts.flatten out out' {p | ∃ m ∈ s.members, ∃ part, parts[m.1]? = some part ∧
          startOf parts m.1 ≤ p ∧ p < startOf parts m.1 + part.length} := by
    intro s hs out hout
    obtain ⟨st, d, hr⟩ := h.strips s hs
    exact hr.readStrip h.offsets cacheBytes hout
  obtain ⟨out, hout, hstrips⟩ := Fills.foldlM g.strips hstrip mid hlength
  rw [hmid]
  show g.strips.foldlM (f.readStrip cacheBytes g.offsets) mid = _
  rw [hout]
  congr 1
  refine (hlone.trans hstrips).complete hstart fun p hp => ?_
  obtain ⟨i, part, hpart, hlo, hhi⟩ := exists_part parts hp
  rcases h.covered i (List.getElem?_eq_some_iff.mp hpart).1 with ⟨l, hl, rfl⟩ | ⟨s, hs, m, hm, rfl⟩
  · cases Option.some.inj (hpart.symm.trans (h.lone l hl))
    exact .inl ⟨l, hl, hlo, hhi⟩
  · exact .inr ⟨s, hs, m, hm, part, hpart, hlo, hhi⟩

end

/-! ### Whole arrays -/

section

variable {α : Type}

/-- Every `n`-th of the blocks a list is cut into, from one of the first `n` on, is one of each row. -/
theorem stepBy_chunksExact {l : List α} {rows n block q : ℕ} (hlen : l.length = rows * (n * block))
    (hblock : 0 < block) (hq : q < n) :
    stepBy n ((chunksExact block l).drop q) =
      (List.range rows).map fun r => (l.drop ((r * n + q) * block)).take block := by
  have hcount : l.length / block = rows * n := by
    rw [hlen, ← Nat.mul_assoc, Nat.mul_div_cancel _ hblock]
  have hchunks : (chunksExact block l).length = rows * n := by
    unfold chunksExact
    rw [List.length_map, List.length_range, hcount]
  have hget : ∀ r < rows, ((chunksExact block l).drop q)[r * n]? =
      some ((l.drop ((r * n + q) * block)).take block) := by
    intro r hr
    have hlt : q + r * n < rows * n := by
      rw [Nat.add_comm]
      exact mul_add_lt hr hq
    unfold chunksExact
    rw [List.getElem?_drop, List.getElem?_map, hcount, List.getElem?_range hlt, Nat.add_comm]
    rfl
  have hceil : (((chunksExact block l).drop q).length + n - 1) / n = rows := by
    rw [List.length_drop, hchunks]
    cases rows with
    | zero => rw [Nat.zero_mul, Nat.zero_sub, Nat.zero_add]; exact Nat.div_eq_of_lt (by omega)
    | succ rows =>
      rw [Nat.succ_mul, show rows * n + n - q + n - 1 = n - 1 - q + n + n * rows by
        rw [Nat.mul_comm]; omega, Nat.add_mul_div_left _ _ (by omega)]
      rw [show n - 1 - q + n = n - 1 - q + n * 1 by omega, Nat.add_mul_div_left _ _ (by omega),
        Nat.div_eq_of_lt (by omega)]
      omega
  unfold stepBy
  rw [hceil]
  apply List.filterMap_eq_map_iff_forall_eq_some.mpr
  intro r hr
  exact hget r (List.mem_range.mp hr)

end

section

variable {f : Hdf5Backend H D} {st : DatasetState H} {d : D}

omit [DecidableEq H] [ToString H] in
/-- The rows of a column, picked out of the bytes of a strip. -/
theorem strip_column (h : st.Describes d) {first last col : ℕ} (hfirst : first ≤ col)
    (hcol : col ≤ last) (hlast : last < st.columns.length) {sub : ℕ × ℕ} (hsub : sub.2 ≤ st.length) :
    (stepBy (last - first + 1) ((chunksExact (st.elementShape.prod * st.dtype.size)
      (hyperslab st.dtype.size (st.slabShape st.columns.length)
        (packedBlockRanges sub (first, last + 1) st.elementShape)
        (LawfulH5Dataset.content d))).drop (col - first))).flatten =
      (List.range' sub.1 (sub.2 - sub.1)).flatMap fun t =>
        ((LawfulH5Dataset.content d).drop ((t * st.columns.length + col) *
          (st.elementShape.prod * st.dtype.size))).take (st.elementShape.prod * st.dtype.size) := by
  have hwidth : last - first + 1 = last + 1 - first := by omega
  have hblock : 0 < st.elementShape.prod * st.dtype.size :=
    Nat.mul_pos (Nat.pos_of_ne_zero h.elements) (Dtype.size_pos _)
  obtain ⟨hlength, hcell⟩ := hyperslab_cell (a := sub.1) (b := sub.2) (c := first) (e := last + 1)
    h.content_length hsub hlast
  have hstep := stepBy_chunksExact hlength hblock (show col - first < last + 1 - first by omega)
  rw [hwidth]
  show (stepBy (last + 1 - first) ((chunksExact (st.elementShape.prod * st.dtype.size)
    (hyperslab st.dtype.size (st.length :: st.columns.length :: st.elementShape)
      ((sub.1, sub.2) :: (first, last + 1) :: wholeRanges st.elementShape)
      (LawfulH5Dataset.content d))).drop (col - first))).flatten = _
  rw [hstep, List.range'_eq_map_range, List.flatMap_map, List.flatMap_def]
  congr 1
  apply List.map_congr_left
  intro r hr
  rw [hcell r (List.mem_range.mp hr) (col - first) (by omega), Nat.add_sub_cancel' hfirst]

/-- The rows of a column that lie in some strips. -/
def columnRows (st : DatasetState H) (d : D) (subs : List (ℕ × ℕ)) (col : ℕ) : List UInt8 :=
  subs.flatMap fun sub => (List.range' sub.1 (sub.2 - sub.1)).flatMap fun t =>
    ((LawfulH5Dataset.content d).drop ((t * st.columns.length + col) *
      (st.elementShape.prod * st.dtype.size))).take (st.elementShape.prod * st.dtype.size)

omit [DecidableEq H] [ToString H] in
theorem columnRows_all (st : DatasetState H) (d : D) (height col : ℕ) :
    columnRows st d (rowStrips 0 st.length height) col = (st.column d col).bytes := by
  unfold columnRows
  rw [rowStrips_flatMap, Nat.sub_zero, ← List.range_eq_range']
  rfl

omit [DecidableEq H] [ToString H] in
/-- The columns after some strips hold the rows of those strips. -/
theorem foldlM_strips (h : st.Describes d) {cols : List ℕ} {first last : ℕ} (hspan : first ≤ last)
    (hlast : last < st.columns.length) (hcols : ∀ c ∈ cols, first ≤ c ∧ c ≤ last)
    (subs : List (ℕ × ℕ)) (hsubs : ∀ sub ∈ subs, sub.1 < sub.2 ∧ sub.2 ≤ st.length)
    (acc : ℕ → List UInt8) :
    (subs.foldlM (fun columns rows => do
      let bytes ← Except.orHalt (H5Dataset.readSlice d st.dtype
        (packedBlockRanges rows (first, last + 1) st.elementShape))
      pure (columns.map fun c => (c.1, c.2 ++ (stepBy (last - first + 1)
        ((chunksExact (st.elementShape.prod * st.dtype.size) bytes).drop (c.1 - first))).flatten)))
      (cols.map fun c => (c, acc c)) : Except Halt (List (ℕ × List UInt8))) =
      .ok (cols.map fun c => (c, acc c ++ columnRows st d subs c)) := by
  induction subs generalizing acc with
  | nil =>
    rw [List.foldlM_nil]
    simp [columnRows, pure, Except.pure]
  | cons sub subs ih =>
    obtain ⟨hlt, hbound⟩ := hsubs sub List.mem_cons_self
    have hstep : (cols.map fun c => (c, acc c)).map (fun c : ℕ × List UInt8 =>
        (c.1, c.2 ++ (stepBy (last - first + 1) ((chunksExact (st.elementShape.prod * st.dtype.size)
          (hyperslab st.dtype.size (st.slabShape st.columns.length)
            (packedBlockRanges sub (first, last + 1) st.elementShape)
            (LawfulH5Dataset.content d))).drop (c.1 - first))).flatten)) =
        cols.map fun c => (c, acc c ++ columnRows st d [sub] c) := by
      rw [List.map_map]
      apply List.map_congr_left
      intro c hc
      show (c, acc c ++ _) = _
      rw [strip_column h (hcols c hc).1 (hcols c hc).2 hlast hbound, columnRows, List.flatMap_cons,
        List.flatMap_nil, List.append_nil]
    rw [List.foldlM_cons, readSlice_block h hlt.le hbound hspan hlast]
    refine Eq.trans ?_ ((ih (fun s hs => hsubs s (List.mem_cons_of_mem _ hs))
      fun c => acc c ++ columnRows st d [sub] c).trans ?_)
    · rw [← hstep]
      rfl
    · congr 1
      apply List.map_congr_left
      intro c _
      have hsplit : columnRows st d ([sub] ++ subs) c =
          columnRows st d [sub] c ++ columnRows st d subs c := List.flatMap_append
      rw [List.append_assoc, ← hsplit]
      rfl

omit [DecidableEq H] [ToString H] in
/-- The columns of a dataset that a batch asks for are read whole. -/
theorem readColumns_eq {name : String} {cols : List ℕ} (hst : FMap.get f.datasets name = some st)
    (hds : FMap.get f.single name = some d) (h : st.Describes d) (hne : cols ≠ [])
    (hcols : ∀ c ∈ cols, c < st.columns.length) :
    f.readColumns name cols = .ok (st, cols.map fun c => (c, (st.column d c).bytes)) := by
  have hblock : 0 < st.elementShape.prod * st.dtype.size :=
    Nat.mul_pos (Nat.pos_of_ne_zero h.elements) (Dtype.size_pos _)
  have helem : st.elemBytes = st.elementShape.prod * st.dtype.size := by
    unfold DatasetState.elemBytes
    rw [Nat.max_eq_left (Nat.one_le_iff_ne_zero.mpr h.elements)]
  obtain ⟨first, hmin⟩ : ∃ n, cols.min? = some n :=
    Option.isSome_iff_exists.mp (List.isSome_min?_of_ne_nil hne)
  obtain ⟨last, hmax⟩ : ∃ n, cols.max? = some n :=
    Option.isSome_iff_exists.mp (List.isSome_max?_of_ne_nil hne)
  have hfirst := List.min?_eq_some_iff.mp hmin
  have hlast := List.max?_eq_some_iff.mp hmax
  have hall := foldlM_strips h (hlast.2 first hfirst.1) (hcols last hlast.1)
    (fun c hc => ⟨hfirst.2 c hc, hlast.2 c hc⟩)
    (rowStrips 0 st.length (max (((H5Dataset.chunk d).bind List.head?).getD st.length) 1))
    (fun sub hsub => ⟨(mem_rowStrips hsub).2.1, (mem_rowStrips hsub).2.2⟩) fun _ => []
  simp only [columnRows_all, List.nil_append] at hall
  unfold readColumns
  rw [datasetState_eq hst, dataset_eq hds]
  apply except_bind_eq_ok.mpr
  refine ⟨st, rfl, except_bind_eq_ok.mpr ⟨d, rfl, ?_⟩⟩
  simp only [hmin, hmax, Option.getD_some, helem, if_neg hblock.ne']
  exact except_bind_eq_ok.mpr ⟨_, hall, rfl⟩

end

section

variable {f : Hdf5Backend H D}

omit [DecidableEq H] [ToString H] in
theorem mem_wantedCols {ps : List (Placement H)} {name : String} {col : ℕ} :
    col ∈ wantedCols ps name ↔ Placement.packed name col ∈ ps := by
  unfold wantedCols
  rw [List.mem_filterMap]
  constructor
  · rintro ⟨p, hp, he⟩
    cases p with
    | individual h => cases he
    | packed name' col' =>
      simp only at he
      split at he
      · rename_i hn
        cases he
        rw [← hn]
        exact hp
      · cases he
  · intro hp
    exact ⟨_, hp, if_pos rfl⟩

omit [DecidableEq H] [ToString H] in
theorem mem_wantedDatasets {ps : List (Placement H)} {name : String} :
    name ∈ wantedDatasets ps ↔ ∃ col, Placement.packed name col ∈ ps := by
  unfold wantedDatasets
  rw [List.mem_dedup, List.mem_filterMap]
  constructor
  · rintro ⟨p, hp, he⟩
    cases p with
    | individual h => cases he
    | packed name' col =>
      cases he
      exact ⟨col, hp⟩
  · rintro ⟨col, hp⟩
    exact ⟨_, hp, rfl⟩

/-- What a batch's placements say of its packed columns. -/
def Placed (f : Hdf5Backend H D) (ps : List (Placement H)) : Prop :=
  ∀ name col, Placement.packed name col ∈ ps → ∃ st d, FMap.get f.datasets name = some st ∧
    FMap.get f.single name = some d ∧ st.Describes d ∧ col < st.columns.length

omit [LawfulH5Dataset D] in
theorem placed_of_mapM (hf : f.Indexed) {columns : List (H × Dtype)} {ps : List (Placement H)}
    (hps : f.place columns = .ok ps) : f.Placed ps := by
  intro name col hmem
  obtain ⟨c, -, hc⟩ := Catalog.forall₂_mem_right (mapM_eq_ok.mp hps) hmem
  rcases placeOne_ok hf hc with he | ⟨name', col', st, d, he, -, hst, hds, hdesc, hcol, -⟩
  · cases he
  · cases he
    exact ⟨st, d, hst, hds, hdesc, hcol⟩

theorem lookup_of_forall {K V : Type} [DecidableEq K] {l : List (K × V)} {k : K} {w : V}
    (hmem : ∃ v, (k, v) ∈ l) (hall : ∀ v, (k, v) ∈ l → v = w) : l.lookup k = some w := by
  induction l with
  | nil =>
    obtain ⟨v, hv⟩ := hmem
    cases hv
  | cons x l ih =>
    obtain ⟨k', v'⟩ := x
    by_cases hk : k = k'
    · subst hk
      rw [List.lookup_cons_self, hall v' List.mem_cons_self]
    · rw [List.lookup_cons, beq_eq_false_iff_ne.mpr hk]
      apply ih
      · obtain ⟨v, hv⟩ := hmem
        cases hv with
        | head => exact absurd rfl hk
        | tail _ hv => exact ⟨v, hv⟩
      · intro v hv
        exact hall v (List.mem_cons_of_mem _ hv)

omit [DecidableEq H] [ToString H] in
/-- The columns read of every dataset of a batch hold the arrays of its placements. -/
theorem reads_spec {ps : List (Placement H)} (hps : f.Placed ps) :
    ∃ reads, ((wantedDatasets ps).mapM fun d =>
        (f.readColumns d (wantedCols ps d).dedup).map fun r => (d, r)) = .ok reads ∧
      ∀ name col st d, Placement.packed name col ∈ ps → FMap.get f.datasets name = some st →
        FMap.get f.single name = some d →
        ((reads.lookup name).bind fun r => (r.2.lookup col).map fun bytes => (r.1, bytes)) =
          some (st, (st.column d col).bytes) := by
  have hread : ∀ name col st d, Placement.packed name col ∈ ps → FMap.get f.datasets name = some st →
      FMap.get f.single name = some d → f.readColumns name (wantedCols ps name).dedup =
        .ok (st, (wantedCols ps name).dedup.map fun c => (c, (st.column d c).bytes)) := by
    intro name col st d hmem hst hds
    have hfound : ∀ c ∈ (wantedCols ps name).dedup, st.Describes d ∧ c < st.columns.length := by
      intro c hc
      obtain ⟨st', d', hst', hds', hdesc, hcol⟩ := hps name c (mem_wantedCols.mp (List.mem_dedup.mp hc))
      cases Option.some.inj (hst'.symm.trans hst)
      cases Option.some.inj (hds'.symm.trans hds)
      exact ⟨hdesc, hcol⟩
    have hin : col ∈ (wantedCols ps name).dedup := List.mem_dedup.mpr (mem_wantedCols.mpr hmem)
    exact readColumns_eq hst hds (hfound col hin).1 (List.ne_nil_of_mem hin) fun c hc => (hfound c hc).2
  have hall : ∀ name ∈ wantedDatasets ps,
      ∃ r, ((f.readColumns name (wantedCols ps name).dedup).map fun r => (name, r)) = .ok r := by
    intro name hname
    obtain ⟨col, hmem⟩ := mem_wantedDatasets.mp hname
    obtain ⟨st, d, hst, hds, -⟩ := hps name col hmem
    rw [hread name col st d hmem hst hds]
    exact ⟨_, rfl⟩
  obtain ⟨reads, hreads⟩ := exists_mapM_eq_ok.mpr hall
  refine ⟨reads, hreads, fun name col st d hmem hst hds => ?_⟩
  have hin : col ∈ (wantedCols ps name).dedup := List.mem_dedup.mpr (mem_wantedCols.mpr hmem)
  have hlookup : reads.lookup name =
      some (st, (wantedCols ps name).dedup.map fun c => (c, (st.column d c).bytes)) := by
    apply lookup_of_forall
    · obtain ⟨r, hr, he⟩ := mapM_covers hreads (mem_wantedDatasets.mpr ⟨col, hmem⟩)
      rw [hread name col st d hmem hst hds] at he
      cases he
      exact ⟨_, hr⟩
    · intro v hv
      obtain ⟨name', -, he⟩ := mapM_origin hreads hv
      cases hc : f.readColumns name' (wantedCols ps name').dedup with
      | error e =>
        rw [hc] at he
        cases he
      | ok r =>
        rw [hc] at he
        cases he
        rw [hread name col st d hmem hst hds] at hc
        cases hc
        rfl
  rw [hlookup, Option.bind_some, lookup_of_forall (w := (st.column d col).bytes)
    ⟨_, List.mem_map.mpr ⟨col, hin, rfl⟩⟩ fun v hv => ?_]
  · rfl
  · obtain ⟨c, -, he⟩ := List.mem_map.mp hv
    cases he
    rfl

/-- An array of a batch is what its own read returns. -/
theorem takeArray_eq (hf : f.Indexed) {ps : List (Placement H)}
    {reads : List (String × DatasetState H × List (ℕ × List UInt8))}
    (hreads : ∀ name col st d, Placement.packed name col ∈ ps → FMap.get f.datasets name = some st →
      FMap.get f.single name = some d →
      ((reads.lookup name).bind fun r => (r.2.lookup col).map fun bytes => (r.1, bytes)) =
        some (st, (st.column d col).bytes))
    {c : H × Dtype} {p : Placement H} (hp : f.placeOne c.1 c.2 = .ok p) (hmem : p ∈ ps) :
    f.takeArray reads (c, p) = Except.orHalt (f.getArray c.1 c.2) := by
  rcases placeOne_ok hf hp with rfl | ⟨name, col, st, d, rfl, hloc, hst, hds, hdesc, hcol, htype⟩
  · rfl
  · have hc := hdesc.checked hcol
    have hget := (Holds.packed hloc hst hds hdesc hcol).getArray_eq hc
    rw [show (st.column d col).dtype = c.2 from htype] at hget
    unfold takeArray
    simp only
    rw [hreads name col st d hmem hst hds, hget]
    exact congrArg (fun r => Except.orHalt (mapErr TimeSeriesError.integrityError r))
      (TypedArray.new_eq hc)

theorem mapM_zip_eq {α β γ : Type} {as : List α} {bs : List β} {p : α → β → Prop}
    {q : α × β → Except Halt γ} {r : α → Result γ} (h : List.Forall₂ p as bs)
    (hq : ∀ a b, p a b → b ∈ bs → q (a, b) = Except.orHalt (r a)) :
    (as.zip bs).mapM q = Except.orHalt (as.mapM r) := by
  induction h with
  | nil => rfl
  | @cons a b as bs hab _ ih =>
    rw [List.zip_cons_cons, List.mapM_cons, List.mapM_cons, hq a b hab List.mem_cons_self,
      ih fun x y hxy hy => hq x y hxy (List.mem_cons_of_mem _ hy)]
    cases r a with
    | error e => rfl
    | ok x =>
      cases as.mapM r with
      | error e => rfl
      | ok xs => rfl

/-- What cannot be placed cannot be read, in a batch or alone. -/
theorem mapM_error_of {ε α β γ : Type} {p : α → Except ε β} {q : α → Except ε γ} {as : List α} {e : ε}
    (h : ∀ a e, p a = .error e → ∃ e', q a = .error e') (hp : as.mapM p = .error e) :
    ∃ e', as.mapM q = .error e' := by
  cases hq : as.mapM q with
  | error e' => exact ⟨e', rfl⟩
  | ok bs =>
    have hall : ∀ a ∈ as, ∃ b, p a = .ok b := by
      intro a ha
      cases hpa : p a with
      | ok b => exact ⟨b, rfl⟩
      | error e' =>
        obtain ⟨b, -, hb⟩ := mapM_covers hq ha
        obtain ⟨e'', he⟩ := h a e' hpa
        rw [he] at hb
        cases hb
    obtain ⟨bs', hbs⟩ := exists_mapM_eq_ok.mpr hall
    rw [hbs] at hp
    cases hp

theorem orHalt_toOption {α : Type} (r : Result α) : (Except.orHalt r).toOption = r.toOption := by
  cases r <;> rfl

theorem orHalt_ne_panicked {α : Type} (r : Result α) : Except.orHalt r ≠ .error .panicked := by
  cases r with
  | ok a =>
    intro h
    cases h
  | error e =>
    intro h
    cases h

/-- **Whole arrays.**  A batch is the arrays one after the other, whatever chunks its datasets have. -/
theorem readArraysLocked_eq (hf : f.Indexed) (columns : List (H × Dtype)) :
    f.readArraysLocked columns ≠ .error .panicked ∧
      (f.readArraysLocked columns).toOption =
        (columns.mapM fun c => f.getArray c.1 c.2).toOption := by
  unfold readArraysLocked
  cases hp : f.place columns with
  | error e =>
    obtain ⟨e', he⟩ := mapM_error_of (q := fun c : H × Dtype => f.getArray c.1 c.2)
      (fun c e he => ⟨e, readLocked_of_placeOne he none⟩) hp
    rw [he]
    constructor
    · intro h
      cases h
    · rfl
  | ok ps =>
    have hplaced := placed_of_mapM hf hp
    obtain ⟨reads, hreads, hspec⟩ := reads_spec hplaced
    have hall := mapM_zip_eq (q := f.takeArray reads) (r := fun c : H × Dtype => f.getArray c.1 c.2)
      (mapM_eq_ok.mp hp) fun c p hcp hmem => takeArray_eq hf hspec hcp hmem
    show ((wantedDatasets ps).mapM _ >>= fun reads => (columns.zip ps).mapM (f.takeArray reads)) ≠ _ ∧
      ((wantedDatasets ps).mapM _ >>= fun reads => (columns.zip ps).mapM (f.takeArray reads)).toOption = _
    rw [hreads]
    show (columns.zip ps).mapM (f.takeArray reads) ≠ _ ∧
      ((columns.zip ps).mapM (f.takeArray reads)).toOption = _
    rw [hall]
    exact ⟨orHalt_ne_panicked _, orHalt_toOption _⟩

/-- **Runs of rows.**  A batch is the runs one after the other, whatever the bytes a strip may take. -/
theorem readRowsLocked_eq (hf : f.Indexed) (cacheBytes : ℕ) (columns : List (H × Dtype × ℕ × ℕ)) :
    f.readRowsLocked cacheBytes columns ≠ .error .panicked ∧
      (f.readRowsLocked cacheBytes columns).toOption =
        (MemoryBackend.concatReads f.part columns).toOption := by
  have hplace : f.place (columns.map fun c => (c.1, c.2.1)) =
      columns.mapM fun c => f.placeOne c.1 c.2.1 := by
    unfold place
    rw [List.mapM_map]
    rfl
  unfold readRowsLocked MemoryBackend.concatReads
  rw [hplace]
  cases hp : columns.mapM fun c => f.placeOne c.1 c.2.1 with
  | error e =>
    obtain ⟨e', he⟩ := mapM_error_of (q := f.part)
      (fun c e he => ⟨e, readLocked_of_placeOne he (some c.2.2)⟩) hp
    rw [he]
    constructor
    · intro h
      cases h
    · rfl
  | ok ps =>
    obtain ⟨hok, herr⟩ := Resolved.foldlM hf columns (Resolved.empty f) hp
    show (Except.orHalt ((columns.zip ps).foldlM f.addColumn ⟨[], [], [], 0⟩) >>= _) ≠ _ ∧
      (Except.orHalt ((columns.zip ps).foldlM f.addColumn ⟨[], [], [], 0⟩) >>= _).toOption = _
    cases has : columns.mapM f.part with
    | error e =>
      rw [herr e has]
      constructor
      · intro h
        cases h
      · rfl
    | ok as =>
      obtain ⟨g, hg, hresolved⟩ := hok as has
      rw [hg]
      have hgather := hresolved.gather cacheBytes
      show ((g.lone.foldlM (placeLone g.offsets) (List.replicate g.total 0)).bind fun out =>
          g.strips.foldlM (f.readStrip cacheBytes g.offsets) out) ≠ _ ∧
        ((g.lone.foldlM (placeLone g.offsets) (List.replicate g.total 0)).bind fun out =>
          g.strips.foldlM (f.readStrip cacheBytes g.offsets) out).toOption = _
      rw [hgather, List.nil_append, ← List.flatMap_def]
      constructor
      · intro h
        cases h
      · rfl

/-- The places of a resolved batch lie in an output of so many bytes, and the columns of each strip in
its span. -/
structure Gather.InRange (g : Gather) (n : ℕ) : Prop where
  total : g.total = n
  offsets : ∀ o ∈ g.offsets, o ≤ n
  span : ∀ s ∈ g.strips, s.first ≤ s.last ∧ s.rows.1 ≤ s.rows.2 ∧ 0 < s.elemBytes
  members : ∀ s ∈ g.strips, ∀ m ∈ s.members, s.first ≤ m.2 ∧ m.2 ≤ s.last ∧
    ∃ o, g.offsets[m.1]? = some o ∧ o + (s.rows.2 - s.rows.1) * s.elemBytes ≤ n

theorem startOf_le {α : Type} (parts : List (List α)) (i : ℕ) : startOf parts i ≤ parts.flatten.length := by
  rw [startOf, List.length_flatten]
  conv_rhs => rw [← List.take_append_drop i parts]
  rw [List.map_append, List.sum_append]
  exact Nat.le_add_right _ _

omit [DecidableEq H] [ToString H] in
theorem Resolved.inRange {g : Gather} {parts : List (List UInt8)} (h : Resolved f g parts) :
    g.InRange parts.flatten.length where
  total := h.total
  offsets := by
    intro o ho
    rw [h.offsets] at ho
    obtain ⟨i, -, rfl⟩ := List.mem_map.mp ho
    exact startOf_le parts i
  span := by
    intro s hs
    obtain ⟨st, d, hr⟩ := h.strips s hs
    rw [hr.elemBytes]
    exact ⟨hr.span, hr.rows, Nat.mul_pos (Nat.pos_of_ne_zero hr.described.elements) (Dtype.size_pos _)⟩
  members := by
    intro s hs m hm
    obtain ⟨st, d, hr⟩ := h.strips s hs
    obtain ⟨hfirst, hlast⟩ := hr.within m hm
    have hpart := hr.members m hm
    have hlt : m.1 < parts.length := (List.getElem?_eq_some_iff.mp hpart).1
    have hlength := slice_length hr.described (Nat.lt_of_le_of_lt hlast hr.last) hr.rows hr.bound
    have hend := (startOf_part hpart).1
    rw [hlength, ← hr.elemBytes] at hend
    refine ⟨hfirst, hlast, startOf parts m.1, ?_, hend⟩
    rw [h.offsets, List.getElem?_map, List.getElem?_range hlt]
    rfl

/-- **Ranges.**  Whatever a batch is resolved to lies in the bytes it is to return. -/
theorem addColumn_inRange (hf : f.Indexed) {columns : List (H × Dtype × ℕ × ℕ)}
    {ps : List (Placement H)} {g : Gather} (hp : f.place (columns.map fun c => (c.1, c.2.1)) = .ok ps)
    (hg : (columns.zip ps).foldlM f.addColumn ⟨[], [], [], 0⟩ = .ok g) :
    ∃ bytes, MemoryBackend.concatReads f.part columns = .ok bytes ∧ g.InRange bytes.length := by
  unfold place at hp
  rw [List.mapM_map] at hp
  obtain ⟨hok, herr⟩ := Resolved.foldlM hf columns (Resolved.empty f) hp
  cases has : columns.mapM f.part with
  | error e =>
    rw [herr e has] at hg
    cases hg
  | ok as =>
    obtain ⟨g', hg', hresolved⟩ := hok as has
    cases hg'.symm.trans hg
    refine ⟨as.flatMap TypedArray.bytes, ?_, ?_⟩
    · unfold MemoryBackend.concatReads
      rw [has]
      rfl
    · rw [List.flatMap_def]
      exact hresolved.inRange

end

/-- **Bulk reads agree.**  Over any index whose packed columns lie in their datasets, and for any list of
columns, repeated or not, packed or on their own: the rows read in bulk, in strips of any height, are the
concatenation of the slices read one by one, the arrays read in bulk are the arrays read one by one, and
a bulk read succeeds exactly where all those reads do.  None of them indexes out of range. -/
theorem bulk_reads_agree {f : Hdf5Backend H D} (hf : f.Indexed) :
    (∀ cacheBytes columns, f.readRowsLocked cacheBytes columns ≠ .error .panicked ∧
      (f.readRowsLocked cacheBytes columns).toOption = (MemoryBackend.concatReads
        (fun c => f.getSlice c.1 c.2.1 c.2.2.1 c.2.2.2) columns).toOption) ∧
    (∀ columns, f.readRangesInto columns ≠ .error .panicked ∧
      (f.readRangesInto columns).toOption = (MemoryBackend.concatReads
        (fun c => f.getSlice c.1 c.2.1 c.2.2.1 c.2.2.2) columns).toOption) ∧
    (∀ hashes dtype index, f.readIndexInto hashes dtype index ≠ .error .panicked ∧
      (f.readIndexInto hashes dtype index).toOption = (MemoryBackend.concatReads
        (fun h => f.getSlice h dtype index (index + 1)) hashes).toOption) ∧
    (∀ columns dtype, f.readIndicesInto columns dtype ≠ .error .panicked ∧
      (f.readIndicesInto columns dtype).toOption = (MemoryBackend.concatReads
        (fun c => f.getSlice c.1 dtype c.2 (c.2 + 1)) columns).toOption) ∧
    (∀ columns, f.readArrays columns ≠ .error .panicked ∧
      (f.readArrays columns).toOption = (columns.mapM fun c => f.getArray c.1 c.2).toOption) ∧
    ∀ columns ps g, f.place (columns.map fun c => (c.1, c.2.1)) = .ok ps →
      (columns.zip ps).foldlM f.addColumn ⟨[], [], [], 0⟩ = .ok g →
      ∃ bytes, (MemoryBackend.concatReads (fun c => f.getSlice c.1 c.2.1 c.2.2.1 c.2.2.2) columns) =
        .ok bytes ∧ g.InRange bytes.length := by
  have hmap : ∀ {α : Type} (as : List α) (k : α → H × Dtype × ℕ × ℕ),
      MemoryBackend.concatReads f.part (as.map k) =
        MemoryBackend.concatReads (fun a => f.part (k a)) as := by
    intro α as k
    unfold MemoryBackend.concatReads
    rw [List.mapM_map]
    rfl
  refine ⟨fun cacheBytes columns => readRowsLocked_eq hf cacheBytes columns,
    fun columns => readRowsLocked_eq hf chunkCacheNbytes columns, fun hashes dtype index => ?_,
    fun columns dtype => ?_, fun columns => readArraysLocked_eq hf columns,
    fun columns ps g hp hg => addColumn_inRange hf hp hg⟩
  · have h := readRowsLocked_eq hf chunkCacheNbytes (hashes.map fun h => (h, dtype, index, index + 1))
    rw [hmap] at h
    exact h
  · have h := readRowsLocked_eq hf chunkCacheNbytes (columns.map fun c => (c.1, dtype, c.2, c.2 + 1))
    rw [hmap] at h
    exact h

end

end Hdf5Backend

/-! ### A file in memory -/

namespace Hdf5Backend.Sample

open Store.Sample

theorem file_indexed : file.Indexed := by
  intro h name col hloc
  by_cases hh : h = [1]
  · subst hh
    cases hloc
    exact ⟨poolState, pool, rfl, rfl, pool_described, by decide⟩
  · have hnone : FMap.get file.byHash h = none := by
      unfold file
      rw [FMap.get_insert, Function.update_of_ne hh, FMap.get_empty]
    rw [hnone] at hloc
    cases hloc

/-- Both rows of a column, then none, then the second again, a row to a strip. -/
theorem bulk_reads_agree_pool :
    (file.readRowsLocked 1 [([1], .u8, 0, 2), ([1], .u8, 1, 1), ([1], .u8, 1, 2)]).toOption =
      some [2, 3, 8, 9, 8, 9] := by
  rw [((bulk_reads_agree file_indexed).1 1 _).2]
  decide +kernel

end Hdf5Backend.Sample

end InfraStore
