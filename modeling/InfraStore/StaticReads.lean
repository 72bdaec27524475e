import Mathlib.Algebra.BigOperators.Ring.List
import Mathlib.Data.List.SplitBy
import InfraStore.StaticReader
import InfraStore.StepFunctions
import InfraStore.WholeReads

/-!
# Reads of a static reader

A static reader holds its columns in groups, sorted, and fills a group's buffer with one row of each of
its columns.

* `StaticGroup.Of`: what a group is built with, which no read changes (`StaticReader.frame_readBy`);
* `ArrayStore.readRows_rows`: a batch of rows that is answered is the rows of the arrays that are held;
* `StaticReader.readBy_holds`, `readBy_error`: after a read every group holds its columns' rows at the
  instant, or none holds anything;
* `StaticGroup.Holds.exposes`: what a group shows is what the series of its columns show there.
-/

namespace InfraStore

open Lib

/-! ### Groups -/

section

variable {H : Type}

/-- A group without what reads leave in it. -/
def StaticGroup.bare (g : StaticGroup H) : StaticGroup H := { g with buf := [], filled := false }

/-- How far a column's rows lie after those of the reader's axis. -/
def ColumnRole.shift (role : ColumnRole) (companion : ℕ) : ℕ :=
  if role = .offset then companion else 0

/-- A group holds the columns of a run, each with its companion: their ids and arrays in order, all of
one element type and shape. -/
structure StaticGroup.Of (role : ColumnRole) (run : List (TimeSeriesMetadata H × ℕ))
    (g : StaticGroup H) : Prop where
  nonempty : run ≠ []
  ids : run.map (fun c => c.1.id) = g.ids.map some
  hashes : g.hashes = run.map fun c => c.1.dataHash
  vectorIds : role = .vector → g.vectorIds = run.map Prod.snd
  rowOffsets : g.rowOffsets = [] ∧ (∀ c ∈ run, role.shift c.2 = 0) ∨
    g.rowOffsets = run.map fun c => role.shift c.2
  elementType : ∀ c ∈ run, c.1.elementType = g.elementType
  elementShape : ∀ c ∈ run, c.1.elementShape = g.elementShape

theorem StaticGroup.Of.of_bare {role : ColumnRole} {run : List (TimeSeriesMetadata H × ℕ)}
    {g g' : StaticGroup H} (h : g.Of role run) (hb : g'.bare = g.bare) : g'.Of role run := by
  have hids : g'.bare.ids = g.bare.ids := by rw [hb]
  have hhashes : g'.bare.hashes = g.bare.hashes := by rw [hb]
  have hvectors : g'.bare.vectorIds = g.bare.vectorIds := by rw [hb]
  have hoffsets : g'.bare.rowOffsets = g.bare.rowOffsets := by rw [hb]
  have htype : g'.bare.elementType = g.bare.elementType := by rw [hb]
  have hshape : g'.bare.elementShape = g.bare.elementShape := by rw [hb]
  exact
    { nonempty := h.nonempty
      ids := h.ids.trans (congrArg (List.map some) hids.symm)
      hashes := hhashes.trans h.hashes
      vectorIds := fun hr => hvectors.trans (h.vectorIds hr)
      rowOffsets := h.rowOffsets.imp (fun hn => ⟨hoffsets.trans hn.1, hn.2⟩) hoffsets.trans
      elementType := fun c hc => (h.elementType c hc).trans htype.symm
      elementShape := fun c hc => (h.elementShape c hc).trans hshape.symm }

/-- The columns of a run of one kind are of the kind of the first. -/
theorem sameGroup_head {c : TimeSeriesMetadata H × ℕ} {run : List (TimeSeriesMetadata H × ℕ)}
    (h : (c :: run).IsChain fun a b => sameGroup a b = true) :
    ∀ x ∈ c :: run, x.1.elementType = c.1.elementType ∧ x.1.elementShape = c.1.elementShape := by
  induction run generalizing c with
  | nil =>
    intro x hx
    rw [List.mem_singleton.mp hx]
    exact ⟨rfl, rfl⟩
  | cons b run ih =>
    obtain ⟨hab, hrest⟩ := List.isChain_cons_cons.mp h
    unfold sameGroup at hab
    rw [Bool.and_eq_true, decide_eq_true_iff, decide_eq_true_iff] at hab
    intro x hx
    cases List.mem_cons.mp hx with
    | inl hxc =>
      rw [hxc]
      exact ⟨rfl, rfl⟩
    | inr hxb =>
      obtain ⟨h1, h2⟩ := ih hrest x hxb
      exact ⟨h1.trans hab.1.symm, h2.trans hab.2.symm⟩

theorem groupOf_ok {role : ColumnRole} {run : List (TimeSeriesMetadata H × ℕ)} {g : StaticGroup H}
    (hchain : run.IsChain fun a b => sameGroup a b = true) (h : groupOf role run = .ok g) :
    g.Of role run ∧ g.filled = false := by
  cases run with
  | nil => cases h
  | cons first rest =>
    unfold groupOf at h
    simp only at h
    obtain ⟨ids, hids, h⟩ := except_bind_eq_ok.mp h
    cases h
    have hkind := sameGroup_head hchain
    refine ⟨?_, rfl⟩
    exact
      { nonempty := List.cons_ne_nil _ _
        ids := by
          rw [← List.forall₂_eq_eq_eq, List.forall₂_map_left_iff, List.forall₂_map_right_iff]
          refine (mapM_eq_ok.mp hids).imp fun c i hc => ?_
          split at hc
          · rename_i hid
            cases hc
            exact hid
          · cases hc
        hashes := rfl
        vectorIds := fun hr => if_pos hr
        rowOffsets := by
          by_cases hrole : role = .offset
          · by_cases hany : ((first :: rest).map Prod.snd).any (· ≠ 0) = true
            · refine Or.inr ((if_pos ⟨hrole, hany⟩).trans (List.map_congr_left fun c _ => ?_))
              exact (if_pos hrole).symm
            · refine Or.inl ⟨if_neg fun hboth => hany hboth.2, fun c hc => ?_⟩
              rw [Bool.not_eq_true, List.any_eq_false] at hany
              have hzero := hany c.2 (List.mem_map_of_mem hc)
              unfold ColumnRole.shift
              rw [if_pos hrole]
              simpa using hzero
          · refine Or.inl ⟨if_neg fun hboth => hrole hboth.1, fun c _ => if_neg hrole⟩
        elementType := fun c hc => (hkind c hc).1
        elementShape := fun c hc => (hkind c hc).2 }

/-- **A built reader**: every listed row is a column of one of its groups, and was checked. -/
theorem buildGroupsInner_ok {timeline : Timeline} {rows : List (TimeSeriesMetadata H × ℕ)}
    {role : ColumnRole} {r : StaticReader H} (h : buildGroupsInner timeline rows role = .ok r) :
    (∀ c ∈ rows, checkColumn timeline role c = .ok ()) ∧ (∀ g ∈ r.groups, g.filled = false) ∧
      ∃ runs : List (List (TimeSeriesMetadata H × ℕ)), runs.flatten.Perm rows ∧
        List.Forall₂ (StaticGroup.Of role) runs r.groups := by
  unfold buildGroupsInner at h
  simp only at h
  split at h
  · cases h
  · split at h
    · cases h
    · simp only [except_bind_eq_ok] at h
      obtain ⟨_, hcheck, _, -, groups, hgroups, h⟩ := h
      cases h
      have hall := mapM_eq_ok.mp hgroups
      have hchained := (List.forall₂_and_left _ _).mpr ⟨fun run hrun =>
        List.isChain_of_mem_splitBy hrun, hall⟩
      refine ⟨forM_ok hcheck, fun g hg => ?_, _, ?_, hchained.imp fun run g hrun =>
        (groupOf_ok hrun.1 hrun.2).1⟩
      · obtain ⟨run, -, hrun⟩ := Catalog.forall₂_mem_right hchained hg
        exact (groupOf_ok hrun.1 hrun.2).2
      · rw [List.flatten_splitBy]
        exact List.perm_insertionSort _ _

end

/-! ### Batches of rows -/

namespace ArrayStore

variable {H B : Type} [DecidableEq H] [ToString H] [Sha256 H] [ArrayBackend H B]
  [LawfulArrayBackend H B] [LawfulReads H B] [LawfulBulkReads H B] {s : ArrayStore H B}

omit [LawfulBulkReads H B] in
/-- Rows are read of arrays that are held. -/
theorem held_of_concatReads (hs : s.Valid) {d : Dtype} {columns : List (H × ℕ)} {bytes : List UInt8}
    (h : MemoryBackend.concatReads (fun c => s.getSlice c.1 d c.2 (c.2 + 1)) columns = .ok bytes) :
    ∀ c ∈ columns, (s.content c.1).isSome := by
  unfold MemoryBackend.concatReads at h
  cases hm : columns.mapM fun c => s.getSlice c.1 d c.2 (c.2 + 1) with
  | error e =>
    rw [hm] at h
    cases h
  | ok parts =>
    intro c hc
    obtain ⟨r, -, hr⟩ := mapM_covers hm hc
    obtain ⟨a, ha, -⟩ := getSlice_held hs hr
    rw [ha]
    rfl

/-- A batch of rows that is answered names arrays that are held. -/
theorem readRows_held (hs : s.Valid) {hashes : List H} {d : Dtype} {rows : Rows} {bytes : List UInt8}
    (hrows : (rows.of hashes).map Prod.fst = hashes) (h : s.readRows hashes d rows = .ok bytes) :
    ∀ x ∈ hashes, (s.content x).isSome := by
  have hfile : ∀ (columns : List (H × ℕ)) bytes, (∀ c ∈ columns, s.buffer.get c.1 = none) →
      ArrayBackend.readIndices s.backend d columns = .ok bytes →
        ∀ c ∈ columns, (s.content c.1).isSome := by
    intro columns bytes hnone hread
    have hslices := congrArg Except.toOption hread
    rw [LawfulBulkReads.readIndices_eq _ hs.backend, concatReads_stored hnone] at hslices
    cases hcat : MemoryBackend.concatReads (fun c => s.getSlice c.1 d c.2 (c.2 + 1)) columns with
    | error e =>
      rw [hcat] at hslices
      cases hslices
    | ok out => exact held_of_concatReads hs hcat
  intro x hx
  rw [← hrows] at hx
  obtain ⟨c, hc, rfl⟩ := List.mem_map.mp hx
  unfold readRows at h
  cases hb : s.buffersAny hashes with
  | false =>
    rw [hb, if_neg Bool.false_ne_true] at h
    refine hfile _ _ (fun c hc => get_of_buffersAny hs hb c.1 ?_) h c hc
    rw [← hrows]
    exact List.mem_map_of_mem hc
  | true =>
    rw [hb, if_pos rfl] at h
    obtain ⟨block, -, h⟩ := except_bind_eq_ok.mp h
    simp only at h
    obtain ⟨fromFile, hread, -⟩ := except_bind_eq_ok.mp h
    by_cases hin : s.buffer.contains c.1 = true
    · rw [hs.indexed.contains_eq] at hin
      obtain ⟨a, ha⟩ := Option.isSome_iff_exists.mp hin
      unfold content
      rw [ha]
      rfl
    · refine hfile _ _ (fun x hx => ?_) hread c (List.mem_filter.mpr ⟨hc, by simpa using hin⟩)
      have hnot := (List.mem_filter.mp hx).2
      rw [hs.indexed.contains_eq] at hnot
      exact Option.not_isSome_iff_eq_none.mp (by simpa using hnot)

omit [LawfulBulkReads H B] in
/-- The rows of arrays that are held, one after the other. -/
theorem Uniform.concatReads {d : Dtype} {shape : List ℕ} {hashes : List H}
    (h : s.Uniform d shape hashes) (hs : s.Valid) {columns : List (H × ℕ)}
    (hsub : ∀ c ∈ columns, c.1 ∈ hashes) {as : List TypedArray}
    (has : List.Forall₂ (fun c a => s.content c.1 = some a) columns as) (bytes : List UInt8) :
    (MemoryBackend.concatReads (fun c => s.getSlice c.1 d c.2 (c.2 + 1)) columns).toOption =
        some bytes ↔
      (∀ x ∈ columns.zip as, x.1.2 < x.2.length) ∧
        bytes = (columns.zip as).flatMap fun x => x.2.row x.1.2 := by
  induction has generalizing bytes with
  | nil =>
    show some [] = some bytes ↔ _
    simp [eq_comm]
  | @cons c a columns as hca _ ih =>
    have ih := ih fun c hc => hsub c (List.mem_cons_of_mem _ hc)
    rw [toOption_concatReads_cons, List.zip_cons_cons, List.forall_mem_cons, List.flatMap_cons]
    obtain ⟨a', ha', hrow⟩ := h.getSlice_row hs (hsub c List.mem_cons_self) c.2
    rw [hca, Option.some.injEq] at ha'
    subst ha'
    rcases hrow with ⟨hnone, hout⟩ | ⟨r, hr, hin, hbytes, -⟩
    · rw [hnone]
      constructor
      · intro hfalse
        cases hfalse
      · intro hlt
        have : c.2 < a.length := hlt.1.1
        omega
    · rw [hr]
      show ((MemoryBackend.concatReads _ columns).toOption.map fun rest => r.bytes ++ rest) =
        some bytes ↔ _
      rw [Option.map_eq_some_iff, hbytes]
      constructor
      · rintro ⟨rest, hrest, rfl⟩
        obtain ⟨hall, rfl⟩ := (ih rest).mp hrest
        exact ⟨⟨hin, hall⟩, rfl⟩
      · rintro ⟨⟨-, hall⟩, rfl⟩
        exact ⟨_, (ih _).mpr ⟨hall, rfl⟩, rfl⟩

/-- **A batch of rows** of arrays of one shape is answered where each array has its row, and with those
rows. -/
theorem readRows_rows (hs : s.Valid) {d : Dtype} {shape : List ℕ} {hashes : List H} {rows : Rows}
    (h : s.Uniform d shape hashes) (hrows : (rows.of hashes).map Prod.fst = hashes)
    {as : List TypedArray}
    (has : List.Forall₂ (fun c a => s.content c.1 = some a) (rows.of hashes) as)
    (bytes : List UInt8) : s.readRows hashes d rows = .ok bytes ↔
      (∀ x ∈ (rows.of hashes).zip as, x.1.2 < x.2.length) ∧
        bytes = ((rows.of hashes).zip as).flatMap fun x => x.2.row x.1.2 := by
  have hsub : ∀ c ∈ rows.of hashes, c.1 ∈ hashes := fun c hc => by
    rw [← hrows]
    exact List.mem_map_of_mem hc
  rw [← h.concatReads hs hsub has, ← readRows_eq hs h hrows]
  cases s.readRows hashes d rows with
  | error e =>
    constructor
    · intro hfalse
      cases hfalse
    · intro hfalse
      cases hfalse
  | ok out =>
    show _ ↔ some out = some bytes
    rw [Option.some.injEq, Except.ok.injEq]

end ArrayStore

/-! ### Filling a group -/

namespace StaticGroup

variable {H : Type}

theorem frame_intoBuf (read : StoreCmd (List UInt8) Unit) : Cmd.Frame bare (intoBuf (H := H) read) :=
  Cmd.frame_zoom fun _ => rfl

theorem frame_setFilled (filled : Bool) : Cmd.Frame bare (setFilled (H := H) filled) :=
  Cmd.frame_modify fun _ => rfl

theorem frame_fillPerVector (perVector : List ℕ) (read : RowReader H) :
    Cmd.Frame bare (fillPerVector perVector read) := by
  unfold fillPerVector
  refine Cmd.frame_bind Cmd.frame_get fun g => ?_
  refine Cmd.frame_bind (Cmd.frame_ofExcept _) fun rows => ?_
  exact Cmd.frame_bind (frame_intoBuf _) fun _ => frame_setFilled _

theorem frame_fillShared (index : ℕ) (read : RowReader H) :
    Cmd.Frame bare (fillShared index read) := by
  unfold fillShared fill fillAtOffsets
  refine Cmd.frame_bind Cmd.frame_get fun g => ?_
  split
  · refine Cmd.frame_bind (frame_setFilled _) fun _ => ?_
    refine Cmd.frame_bind Cmd.frame_get fun g => ?_
    exact Cmd.frame_bind (frame_intoBuf _) fun _ => frame_setFilled _
  · refine Cmd.frame_bind Cmd.frame_get fun g => ?_
    exact Cmd.frame_bind (frame_intoBuf _) fun _ => frame_setFilled _

/-- A read of one row of every column has filled a group. -/
def FilledBy (read : RowReader H) (rows : Rows) (g g' : StaticGroup H) : Prop :=
  ∃ bytes, (read g.hashes g.dtype rows).exec g.buf = (.ok (), bytes) ∧
    g' = { g with buf := bytes, filled := true }

theorem intoBuf_ok {read : RowReader H} {rows : Rows} {g g' : StaticGroup H}
    (h : (do intoBuf (read g.hashes g.dtype rows); setFilled true : StoreCmd (StaticGroup H) Unit).exec
      g = (.ok (), g')) : FilledBy read rows g g' := by
  unfold intoBuf at h
  rw [Cmd.exec_bind, Cmd.exec_zoom] at h
  rcases hr : (read g.hashes g.dtype rows).exec g.buf with ⟨r, bytes⟩
  rw [hr] at h
  cases r with
  | error e => cases h
  | ok u =>
    cases h
    exact ⟨bytes, hr, rfl⟩

/-- The rows asked for a group whose columns share the reader's axis. -/
def sharedRows (g : StaticGroup H) (index : ℕ) : Rows :=
  if g.rowOffsets = [] then .uniform index else .perColumn (g.rowOffsets.map fun off => index + off)

theorem fillShared_ok {index : ℕ} {read : RowReader H} {g g' : StaticGroup H}
    (h : (fillShared index read).exec g = (.ok (), g')) : ∃ g₀ : StaticGroup H, g₀.bare = g.bare ∧
      FilledBy read (g.sharedRows index) g₀ g' := by
  unfold fillShared at h
  rw [Cmd.exec_bind, Cmd.exec_get] at h
  dsimp only at h
  unfold sharedRows
  split at h
  · rename_i hnil
    rw [if_pos hnil]
    exact ⟨{ g with filled := false }, rfl, intoBuf_ok h⟩
  · rename_i hcons
    rw [if_neg hcons]
    exact ⟨g, rfl, intoBuf_ok h⟩

theorem fillPerVector_ok {perVector : List ℕ} {read : RowReader H} {g g' : StaticGroup H}
    (h : (fillPerVector perVector read).exec g = (.ok (), g')) :
    ∃ rows, vectorRows perVector g.vectorIds = .ok rows ∧ FilledBy read (.perColumn rows) g g' := by
  unfold fillPerVector at h
  rw [Cmd.exec_bind, Cmd.exec_get] at h
  dsimp only at h
  rw [Cmd.exec_bind, Cmd.exec_ofExcept] at h
  cases hrows : vectorRows perVector g.vectorIds with
  | error e =>
    rw [hrows] at h
    cases h
  | ok rows =>
    rw [hrows] at h
    exact ⟨rows, rfl, intoBuf_ok h⟩

end StaticGroup

/-! ### Calls of a reader -/

/-- The row that a read at an instant asks of a column, given the number kept with it. -/
def Timeline.RowAt (t : Timeline) (role : ColumnRole) (x : DateTime) (companion k : ℕ) : Prop :=
  match t with
  | .persistent vectors _ => ∃ v, vectors[companion]? = some v ∧ InfraStore.indexAt v x = some k
  | t => ∃ index, t.indexOn x = .ok index ∧ k = index + role.shift companion

section

variable {H : Type} {role : ColumnRole} {runs : List (List (TimeSeriesMetadata H × ℕ))}

theorem StaticGroup.Of.sharedRows {run : List (TimeSeriesMetadata H × ℕ)} {g : StaticGroup H}
    (h : g.Of role run) (index : ℕ) : (g.sharedRows index).of g.hashes =
      run.map fun c => (c.1.dataHash, index + role.shift c.2) := by
  unfold StaticGroup.sharedRows
  rcases h.rowOffsets with ⟨hnil, hzero⟩ | hoffsets
  · rw [if_pos hnil, h.hashes]
    show (run.map fun c => c.1.dataHash).map (fun h => (h, index)) = _
    rw [List.map_map]
    refine List.map_congr_left fun c hc => ?_
    rw [hzero c hc]
    rfl
  · have hne : g.rowOffsets ≠ [] := by
      rw [hoffsets]
      exact fun hn => h.nonempty (List.map_eq_nil_iff.mp hn)
    rw [if_neg hne, h.hashes, hoffsets]
    show (run.map fun c => c.1.dataHash).zip ((run.map fun c => role.shift c.2).map _) = _
    rw [List.map_map, List.zip_map']
    rfl

theorem StaticGroup.Of.vectorRows {run : List (TimeSeriesMetadata H × ℕ)} {g : StaticGroup H}
    (h : g.Of .vector run) {perVector rows : List ℕ}
    (hrows : StaticGroup.vectorRows perVector g.vectorIds = .ok rows) :
    (Rows.perColumn rows).of g.hashes =
        run.map (fun c => (c.1.dataHash, (perVector[c.2]?).getD 0)) ∧
      ∀ c ∈ run, ∃ k, perVector[c.2]? = some k := by
  unfold StaticGroup.vectorRows at hrows
  rw [h.vectorIds rfl] at hrows
  have hall := mapM_eq_ok.mp hrows
  rw [List.forall₂_map_left_iff] at hall
  have hrow : List.Forall₂ (fun c row => perVector[c.2]? = some row) run rows := by
    refine hall.imp fun c row hc => ?_
    split at hc
    · rename_i hk
      cases hc
      exact hk
    · cases hc
  constructor
  · have heq : rows = run.map fun c => (perVector[c.2]?).getD 0 := by
      rw [← List.forall₂_eq_eq_eq, List.forall₂_map_right_iff]
      refine hrow.flip.imp fun row c hc => ?_
      rw [show perVector[c.2]? = some row from hc]
      rfl
    rw [h.hashes, heq]
    show (run.map fun c => c.1.dataHash).zip _ = _
    rw [List.zip_map']
  · intro c hc
    obtain ⟨hlen, hget⟩ := List.forall₂_iff_get.mp hrow
    obtain ⟨i, hi, rfl⟩ := List.mem_iff_getElem.mp hc
    exact ⟨_, hget i hi (hlen ▸ hi)⟩

/-- The rows found for the vectors of a reader. -/
theorem StaticReader.vectorIndices_ok {groups : List (StaticGroup H)} {vectors : List (List DateTime)}
    {x : DateTime} {rows : List ℕ} (h : StaticReader.vectorIndices groups vectors x = .ok rows)
    {i k : ℕ} (hk : rows[i]? = some k) : ∃ v, vectors[i]? = some v ∧ indexAt v x = some k := by
  unfold StaticReader.vectorIndices at h
  have hall := mapM_eq_ok.mp h
  obtain ⟨hlen, hget⟩ := List.forall₂_iff_get.mp hall
  obtain ⟨hi, rfl⟩ := List.getElem?_eq_some_iff.mp hk
  rw [List.length_zipIdx] at hlen
  have hrow := hget i (by rw [List.length_zipIdx]; omega) hi
  simp only [List.get_eq_getElem, List.getElem_zipIdx] at hrow
  split at hrow
  · rename_i row hfound
    cases hrow
    exact ⟨_, List.getElem?_eq_getElem _, hfound⟩
  · cases hrow

theorem StaticReader.vectorIndices_all {groups : List (StaticGroup H)} {vectors : List (List DateTime)}
    {x : DateTime} {rows : List ℕ} (h : StaticReader.vectorIndices groups vectors x = .ok rows) :
    ∀ v ∈ vectors, ∃ k, indexAt v x = some k := by
  intro v hv
  obtain ⟨i, hi, rfl⟩ := List.mem_iff_getElem.mp hv
  have hlen := (mapM_eq_ok.mp h).length_eq
  rw [List.length_zipIdx] at hlen
  obtain ⟨w, hw, hk⟩ := vectorIndices_ok h (List.getElem?_eq_getElem (hlen ▸ hi))
  rw [List.getElem?_eq_getElem hi, Option.some.injEq] at hw
  exact ⟨_, hw ▸ hk⟩

/-- A group holds one row of each of its columns, the row of an instant, as some batch answered. -/
structure StaticGroup.Holds (t : Timeline) (role : ColumnRole) (at_ : DateTime)
    (reads : ℕ → RowReader H) (run : List (TimeSeriesMetadata H × ℕ)) (g : StaticGroup H) : Prop where
  built : g.Of role run
  filled : g.filled = true
  answered : ∃ i buf rows, ∃ row : ℕ → ℕ,
    (reads i g.hashes g.dtype rows).exec buf = (.ok (), g.buf) ∧
      rows.of g.hashes = run.map (fun c => (c.1.dataHash, row c.2)) ∧
      ∀ c ∈ run, t.RowAt role at_ c.2 (row c.2)

theorem StaticGroup.FilledBy.holds {t : Timeline} {at_ : DateTime} {reads : ℕ → RowReader H} {i : ℕ}
    {rows : Rows} {run : List (TimeSeriesMetadata H × ℕ)} {g g' : StaticGroup H}
    (h : g.FilledBy (reads i) rows g') (hg : g.Of role run) (row : ℕ → ℕ)
    (hrows : rows.of g.hashes = run.map fun c => (c.1.dataHash, row c.2))
    (hrow : ∀ c ∈ run, t.RowAt role at_ c.2 (row c.2)) : g'.Holds t role at_ reads run := by
  obtain ⟨bytes, hread, rfl⟩ := h
  exact ⟨hg.of_bare rfl, rfl, i, g.buf, rows, row, hread, hrows, hrow⟩

end

namespace StaticReader

variable {H : Type} {role : ColumnRole} {runs : List (List (TimeSeriesMetadata H × ℕ))}

/-- A reader without what reads leave in it. -/
def bare (r : StaticReader H) : StaticReader H := { r with groups := r.groups.map StaticGroup.bare }

/-- A reader was built with these columns. -/
structure Of (role : ColumnRole) (runs : List (List (TimeSeriesMetadata H × ℕ)))
    (r : StaticReader H) : Prop where
  groups : List.Forall₂ (StaticGroup.Of role) runs r.groups
  vectors : (∃ vectors union, r.timeline = .persistent vectors union) → role = .vector

theorem Of.of_bare {r r' : StaticReader H} (h : r.Of role runs) (hb : r'.bare = r.bare) :
    r'.Of role runs := by
  have ht : r'.bare.timeline = r.bare.timeline := by rw [hb]
  have hg : r'.bare.groups = r.bare.groups := by rw [hb]
  have hsame : List.Forall₂ (fun g g' : StaticGroup H => g'.bare = g.bare) r.groups r'.groups := by
    unfold bare at hg
    rw [← List.forall₂_eq_eq_eq, List.forall₂_map_left_iff, List.forall₂_map_right_iff] at hg
    exact hg.flip
  refine ⟨Catalog.forall₂_comp (fun _ _ _ hrun hgg => ?_) h.groups hsame, ?_⟩
  · exact hrun.of_bare hgg
  · rw [show r'.timeline = r.timeline from ht]
    exact h.vectors

theorem frame_onGroupsBy {c : ℕ → StoreCmd (StaticGroup H) Unit}
    (h : ∀ i, Cmd.Frame StaticGroup.bare (c i)) : Cmd.Frame bare (onGroupsBy c) := by
  apply Cmd.frame_zoom
  intro r
  have hrel := Cmd.exec_eachBy_rel (R := fun g g' : StaticGroup H => g.bare = g'.bare) c (fun _ => rfl)
    (fun i g => (h i g).symm) r.groups
  have hmap : List.Forall₂ (· = ·) (r.groups.map StaticGroup.bare)
      (((Cmd.eachBy c).exec r.groups).2.map StaticGroup.bare) :=
    List.forall₂_map_left_iff.mpr (List.forall₂_map_right_iff.mpr hrel)
  rw [List.forall₂_eq_eq_eq] at hmap
  exact congrArg (fun gs => { r with groups := gs }) hmap.symm

theorem frame_readAtBy (at_ : DateTime) (reads : ℕ → RowReader H) :
    Cmd.Frame bare (readAtBy at_ reads) := by
  unfold readAtBy
  refine Cmd.frame_bind Cmd.frame_get fun r => ?_
  split
  · refine Cmd.frame_bind (Cmd.frame_ofExcept _) fun perVector => ?_
    exact frame_onGroupsBy fun i => StaticGroup.frame_fillPerVector _ _
  · refine Cmd.frame_bind (Cmd.frame_ofExcept _) fun index => ?_
    exact frame_onGroupsBy fun i => StaticGroup.frame_fillShared _ _

/-- **Plans.**  No read changes what a reader was built with. -/
theorem frame_readBy (at_ : DateTime) (reads : ℕ → RowReader H) :
    Cmd.Frame bare (readBy at_ reads) := by
  unfold readBy
  refine Cmd.frame_bind (Cmd.frame_attempt (frame_readAtBy at_ reads)) fun outcome => ?_
  cases outcome with
  | ok u => exact Cmd.frame_pure _
  | error e =>
    refine Cmd.frame_bind (Cmd.frame_modify fun r => ?_) fun _ => Cmd.frame_throw _
    unfold bare invalidate
    rw [List.map_map]
    rfl

/-- After a read that fails, no group exposes a byte. -/
theorem readBy_error {at_ : DateTime} {reads : ℕ → RowReader H} {r r' : StaticReader H}
    {e : TimeSeriesError} (h : (readBy at_ reads).exec r = (.error e, r')) :
    ∀ g ∈ r'.groups, g.values = [] := by
  unfold readBy at h
  rw [Cmd.exec_bind, Cmd.exec_attempt] at h
  rcases he : (readAtBy at_ reads).exec r with ⟨res, out⟩
  rw [he] at h
  cases res with
  | ok u => cases h
  | error e' =>
    cases h
    intro g hg
    obtain ⟨g₀, -, rfl⟩ := List.mem_map.mp hg
    rfl

theorem readBy_ok {at_ : DateTime} {reads : ℕ → RowReader H} {r r' : StaticReader H}
    (h : (readBy at_ reads).exec r = (.ok (), r')) : (readAtBy at_ reads).exec r = (.ok (), r') := by
  unfold readBy at h
  rw [Cmd.exec_bind, Cmd.exec_attempt] at h
  rcases he : (readAtBy at_ reads).exec r with ⟨res, out⟩
  rw [he] at h
  cases res with
  | error e => cases h
  | ok u =>
    cases h
    rfl

theorem onGroupsBy_ok {c : ℕ → StoreCmd (StaticGroup H) Unit} {r r' : StaticReader H}
    (h : (onGroupsBy c).exec r = (.ok (), r')) :
    List.Forall₂ (fun g g' => ∃ i, (c i).exec g = (.ok (), g')) r.groups r'.groups := by
  unfold onGroupsBy at h
  rw [Cmd.exec_zoom] at h
  rcases he : (Cmd.eachBy c).exec r.groups with ⟨res, gs⟩
  rw [he] at h
  cases res with
  | error e => cases h
  | ok u =>
    cases h
    exact Cmd.exec_eachBy_ok c he

/-- **A read.**  After a read that succeeds, every group holds the rows of the instant. -/
theorem readBy_holds {at_ : DateTime} {reads : ℕ → RowReader H} {r r' : StaticReader H}
    (hr : r.Of role runs) (h : (readBy at_ reads).exec r = (.ok (), r')) :
    List.Forall₂ (StaticGroup.Holds r.timeline role at_ reads) runs r'.groups ∧
      ∀ vectors union, r.timeline = .persistent vectors union →
        ∀ v ∈ vectors, ∃ k, indexAt v at_ = some k := by
  have h := readBy_ok h
  unfold readAtBy at h
  rw [Cmd.exec_bind, Cmd.exec_get] at h
  dsimp only at h
  split at h
  · rename_i vectors union ht
    rw [Cmd.exec_bind, Cmd.exec_ofExcept] at h
    cases hper : vectorIndices r.groups vectors at_ with
    | error e =>
      rw [hper] at h
      cases h
    | ok perVector =>
      rw [hper] at h
      have hrole : role = .vector := hr.vectors ⟨vectors, union, ht⟩
      subst hrole
      refine ⟨Catalog.forall₂_comp (fun run g g' hg hgg => ?_) hr.groups (onGroupsBy_ok h), ?_⟩
      swap
      · rintro _ _ hsame
        rw [ht] at hsame
        cases hsame
        exact vectorIndices_all hper
      obtain ⟨i, hfill⟩ := hgg
      obtain ⟨rows, hrows, hfilled⟩ := StaticGroup.fillPerVector_ok hfill
      obtain ⟨hof, hall⟩ := hg.vectorRows hrows
      refine hfilled.holds hg (fun v => (perVector[v]?).getD 0) hof fun c hc => ?_
      obtain ⟨k, hk⟩ := hall c hc
      rw [ht, hk]
      exact vectorIndices_ok hper hk
  · rename_i hshared
    rw [Cmd.exec_bind, Cmd.exec_ofExcept] at h
    cases hindex : r.timeline.indexOn at_ with
    | error e =>
      rw [hindex] at h
      cases h
    | ok index =>
      rw [hindex] at h
      refine ⟨Catalog.forall₂_comp (fun run g g' hg hgg => ?_) hr.groups (onGroupsBy_ok h),
        fun vectors union hp => absurd hp (hshared vectors union)⟩
      obtain ⟨i, hfill⟩ := hgg
      obtain ⟨g₀, hbare, hfilled⟩ := StaticGroup.fillShared_ok hfill
      have hg₀ := hg.of_bare hbare
      have hoffsets : g₀.bare.rowOffsets = g.bare.rowOffsets := by rw [hbare]
      have hsame : g.sharedRows index = g₀.sharedRows index := by
        unfold StaticGroup.sharedRows
        rw [show g₀.rowOffsets = g.rowOffsets from hoffsets]
      rw [hsame] at hfilled
      refine hfilled.holds hg₀ (fun v => index + role.shift v) (hg₀.sharedRows index)
        fun c hc => ?_
      cases ht : r.timeline with
      | persistent vectors union => exact absurd ht (hshared vectors union)
      | regular initial resolution length =>
        rw [ht] at hindex
        exact ⟨index, hindex, rfl⟩
      | irregular timestamps =>
        rw [ht] at hindex
        exact ⟨index, hindex, rfl⟩

end StaticReader

/-! ### Series on the axis of a reader -/

/-- What a series has at an instant: its row of that instant or, of a step function, the row in
force. -/
def TimeSeriesData.ShownAt (d : TimeSeriesData) (x : DateTime) (k : ℕ) : Prop :=
  match d with
  | .persistent ps => InForce ps.timestamps x k
  | d => k < d.extent ∧ d.instant k = some x

/-- How a series lies on the axis of a reader, given the number kept with its column. -/
inductive Timeline.Carries : Timeline → ColumnRole → ℕ → TimeSeriesData → Prop where
  | grid (ss : SingleTimeSeries) (companion : ℕ) :
      Carries (.regular ss.initialTimestamp ss.resolution ss.length) .shared companion (.single ss)
  | window (ss : SingleTimeSeries) (anchor : DateTime) (length offset : ℕ)
      (starts : ss.resolution.addTo ss.initialTimestamp offset = some anchor)
      (covered : offset + length ≤ ss.length)
      (anchored : ss.resolution.subGridIsAnchorable ss.initialTimestamp offset length = true) :
      Carries (.regular anchor ss.resolution length) .offset offset (.single ss)
  | cohort (s : NonSequentialTimeSeries) (companion : ℕ) :
      Carries (.irregular s.timestamps) .shared companion (.nonSequential s)
  | steps (ps : PersistentTimeSeries) (vectors : List (List DateTime)) (union : List DateTime) (v : ℕ)
      (interned : vectors[v]? = some ps.timestamps) :
      Carries (.persistent vectors union) .vector v (.persistent ps)

/-- The instants of an axis: the points of a grid, those listed or, for step functions, those from which
every column has begun. -/
def Timeline.Covers (t : Timeline) (x : DateTime) : Prop :=
  match t with
  | .regular initial resolution length => ∃ k < length, resolution.addTo initial (k : ℕ) = some x
  | .irregular timestamps => x ∈ timestamps
  | .persistent vectors _ => ∀ v ∈ vectors, ∃ b, v.head? = some b ∧ b ≤ x

/-- A place on a grid that moves is that of its instant. -/
theorem indexOnGrid_iff {initial x : DateTime} {step : Period} {length k : ℕ} {what : String}
    (hp : step.isPositive = true) (ht : initial.nanos < 1000000000) :
    indexOnGrid initial step length x what = .ok k ↔ k < length ∧ step.addTo initial k = some x := by
  unfold indexOnGrid
  have hzero : ¬ (step.isZero = true ∧ length = 1) := fun h => by
    rw [Period.not_isPositive_of_isZero h.1] at hp
    cases hp
  rw [if_neg hzero, except_bind_eq_ok]
  constructor
  · rintro ⟨idx, hidx, h⟩
    split at h
    · cases h
    · rename_i hlt
      cases h
      exact ⟨not_le.mp hlt, Period.stepsBetween_ok hidx⟩
  · rintro ⟨hlt, hadd⟩
    exact ⟨k, Period.stepsBetween_eq hp ht hadd, if_neg (not_le.mpr hlt)⟩

theorem Timeline.indexOn_regular {initial x : DateTime} {resolution : Period} {length k : ℕ}
    (hp : resolution.isPositive = true) (ht : initial.nanos < 1000000000) :
    (Timeline.regular initial resolution length).indexOn x = .ok k ↔
      k < length ∧ resolution.addTo initial k = some x := indexOnGrid_iff hp ht

theorem Timeline.indexOn_irregular {timestamps : List DateTime} {x : DateTime} {k : ℕ}
    (h : (Timeline.irregular timestamps).indexOn x = .ok k) : timestamps[k]? = some x := by
  unfold indexOn at h
  dsimp only at h
  split at h
  · rename_i i hi
    cases h
    obtain ⟨hlt, hx, -⟩ := List.idxOf?_eq_some_iff.mp hi
    rw [List.getElem?_eq_getElem hlt, hx]
  · cases h

namespace Timeline.Carries

variable [FloatText] {t : Timeline} {role : ColumnRole} {companion k : ℕ} {d : TimeSeriesData}
  {x : DateTime} (h : t.Carries role companion d) (hd : d.Accepted)
include h

omit [FloatText] in
theorem leadingDims : d.timeSeriesType.leadingDims = 1 := by
  cases h with
  | _ => rfl

include hd

/-- **The row asked for** of a column is what its series has at the instant. -/
theorem shown (hk : t.RowAt role x companion k) : k < d.fields.data.length ∧ d.ShownAt x k := by
  cases h with
  | grid ss =>
    obtain ⟨hms, hlen, hpos⟩ := hd.single
    obtain ⟨index, hindex, hk⟩ := hk
    obtain ⟨hlt, hadd⟩ := (indexOn_regular hpos hms.1).mp hindex
    rw [show k = index from hk]
    exact ⟨(show ss.length = ss.data.length from hlen) ▸ hlt, hlt, hadd⟩
  | window ss anchor length _ starts covered anchored =>
    obtain ⟨hms, hlen, hpos⟩ := hd.single
    obtain ⟨index, hindex, rfl⟩ := hk
    obtain ⟨hlt, hadd⟩ := (indexOn_regular hpos (Period.addTo_nanos hms.1 starts)).mp hindex
    have hrow := (Period.anchorable_iff hpos hms.1).mp anchored anchor starts index hlt
    have hin : index + companion < ss.length := by omega
    refine ⟨(show ss.length = ss.data.length from hlen) ▸ hin, hin, ?_⟩
    show ss.resolution.addTo ss.initialTimestamp ((index + companion : ℕ) : ℤ) = some x
    rw [Nat.add_comm, ← hrow]
    exact hadd
  | cohort s =>
    have hax := hd.nonSequential
    obtain ⟨index, hindex, hk⟩ := hk
    have hget := indexOn_irregular hindex
    have hlt : index < s.data.length := hax.rows ▸ (List.getElem?_eq_some_iff.mp hget).1
    rw [show k = index from hk]
    exact ⟨hlt, (show index < s.length from hax.length.symm ▸ hlt), hget⟩
  | steps ps vectors union _ interned =>
    have hax := hd.persistent
    obtain ⟨v, hv, hindex⟩ := hk
    rw [interned, Option.some.injEq] at hv
    subst hv
    have hforce := (indexAt_iff hax.increasing).mp hindex
    obtain ⟨b, hb, -⟩ := hforce.reached
    exact ⟨hax.rows ▸ (List.getElem?_eq_some_iff.mp hb).1, hforce⟩

/-- At an instant of the axis every column has a row. -/
theorem rowAt (hx : t.Covers x) : ∃ k, t.RowAt role x companion k := by
  cases h with
  | grid ss =>
    obtain ⟨hms, -, hpos⟩ := hd.single
    obtain ⟨k, hk, hadd⟩ := hx
    exact ⟨_, k, (indexOn_regular hpos hms.1).mpr ⟨hk, hadd⟩, rfl⟩
  | window ss anchor length _ starts =>
    obtain ⟨hms, -, hpos⟩ := hd.single
    obtain ⟨k, hk, hadd⟩ := hx
    exact ⟨_, k, (indexOn_regular hpos (Period.addTo_nanos hms.1 starts)).mpr ⟨hk, hadd⟩, rfl⟩
  | cohort s =>
    obtain ⟨k, hk⟩ := Option.isSome_iff_exists.mp (List.isSome_idxOf?.mpr hx)
    refine ⟨_, k, ?_, rfl⟩
    unfold indexOn
    dsimp only
    rw [hk]
  | steps ps vectors union _ interned =>
    obtain ⟨k, hk⟩ := indexAt_isSome (hx _ (List.mem_of_getElem? interned))
    exact ⟨k, _, interned, hk⟩

/-- A column has a row at no other instant, but for the other columns of step functions. -/
theorem covers (hk : t.RowAt role x companion k)
    (hall : ∀ vectors union, t = .persistent vectors union →
      ∀ v ∈ vectors, ∃ k, InfraStore.indexAt v x = some k) : t.Covers x := by
  cases h with
  | grid ss =>
    obtain ⟨hms, -, hpos⟩ := hd.single
    obtain ⟨index, hindex, -⟩ := hk
    exact ⟨index, (indexOn_regular hpos hms.1).mp hindex⟩
  | window ss anchor length _ starts =>
    obtain ⟨hms, -, hpos⟩ := hd.single
    obtain ⟨index, hindex, -⟩ := hk
    exact ⟨index, (indexOn_regular hpos (Period.addTo_nanos hms.1 starts)).mp hindex⟩
  | cohort s =>
    obtain ⟨index, hindex, -⟩ := hk
    exact List.mem_of_getElem? (indexOn_irregular hindex)
  | steps ps vectors union =>
    intro v hv
    obtain ⟨k, hk⟩ := hall _ _ rfl v hv
    by_contra hno
    rw [indexAt_eq_none fun b hb => not_le.mp fun hle => hno ⟨b, hb, hle⟩] at hk
    cases hk

end Timeline.Carries

/-! ### Reads that succeed -/

section

variable {H : Type}

theorem StaticGroup.intoBuf_total {read : StoreCmd (List UInt8) Unit} {g : StaticGroup H}
    {bytes : List UInt8} (h : read.exec g.buf = (.ok (), bytes)) :
    (do StaticGroup.intoBuf read; StaticGroup.setFilled true : StoreCmd (StaticGroup H) Unit).exec g =
      (.ok (), { g with buf := bytes, filled := true }) := by
  unfold intoBuf
  rw [Cmd.exec_bind, Cmd.exec_zoom, h]
  rfl

theorem exec_overwrite {r : Result (List UInt8)} {bytes : List UInt8} (h : r = .ok bytes)
    (buf : List UInt8) : (overwrite r).exec buf = (.ok (), bytes) := by
  rw [h]
  rfl

theorem StaticReader.onGroupsBy_total {c : ℕ → StoreCmd (StaticGroup H) Unit} {r : StaticReader H}
    (h : ∀ g ∈ r.groups, ∀ i, ∃ g', (c i).exec g = (.ok (), g')) :
    ∃ r', (StaticReader.onGroupsBy c).exec r = (.ok (), r') := by
  obtain ⟨gs, hgs⟩ := Cmd.exec_eachBy_total c h
  unfold onGroupsBy
  rw [Cmd.exec_zoom, hgs]
  exact ⟨_, rfl⟩

theorem StaticReader.read_total {at_ : DateTime} {rows : RowReader H} {r r' : StaticReader H}
    (h : (StaticReader.readAt at_ rows).exec r = (.ok (), r')) :
    (StaticReader.read at_ rows).exec r = (.ok (), r') := by
  unfold StaticReader.read
  rw [Cmd.exec_bind, Cmd.exec_attempt, h]
  rfl

variable {B : Type} [DecidableEq H] [ToString H] [ArrayBackend H B] {a : ArrayStore H B}

/-- The reads of an array store, as a reader makes them. -/
def ArrayStore.rowReader (a : ArrayStore H B) : RowReader H :=
  fun hashes d rows => overwrite (a.readRows hashes d rows)

theorem StaticGroup.fillShared_total {index : ℕ} {g : StaticGroup H} {bytes : List UInt8}
    (h : a.readRows g.hashes g.dtype (g.sharedRows index) = .ok bytes) :
    ∃ g', (StaticGroup.fillShared index a.rowReader).exec g = (.ok (), g') := by
  unfold fillShared
  rw [Cmd.exec_bind, Cmd.exec_get]
  unfold sharedRows at h
  dsimp only
  split at h
  · rename_i hnil
    rw [if_pos hnil]
    exact ⟨_, intoBuf_total (g := { g with filled := false }) (exec_overwrite h _)⟩
  · rename_i hcons
    rw [if_neg hcons]
    exact ⟨_, intoBuf_total (g := g) (exec_overwrite h _)⟩

theorem StaticGroup.fillPerVector_total {perVector rows : List ℕ} {g : StaticGroup H}
    {bytes : List UInt8} (hrows : StaticGroup.vectorRows perVector g.vectorIds = .ok rows)
    (h : a.readRows g.hashes g.dtype (.perColumn rows) = .ok bytes) :
    ∃ g', (StaticGroup.fillPerVector perVector a.rowReader).exec g = (.ok (), g') := by
  unfold fillPerVector
  rw [Cmd.exec_bind, Cmd.exec_get]
  dsimp only
  rw [Cmd.exec_bind, Cmd.exec_ofExcept, hrows]
  exact ⟨_, intoBuf_total (g := g) (exec_overwrite h _)⟩

end

/-! ### What a filled group exposes -/

section

variable {H B : Type} [DecidableEq H] [Sha256 H] [FloatText]

/-- A record is the column of a series whose array is one of `A`. -/
structure TimeSeriesMetadata.ColumnOf (A : Set TypedArray) (m : TimeSeriesMetadata H)
    (d : TimeSeriesData) : Prop where
  hash : m.dataHash = arrayHash d.fields.data
  elementType : m.elementType = d.fields.elementType
  elementShape : m.elementShape = d.fields.data.elementShape
  accepted : d.Accepted
  data : d.fields.data ∈ A

/-- A series whose steps lie along one axis has elements at each of them. -/
theorem TimeSeriesData.Accepted.elements {d : TimeSeriesData} (h : d.Accepted)
    (hdims : d.timeSeriesType.leadingDims = 1) : d.fields.data.elementShape.prod ≠ 0 := by
  have hd := h.data
  unfold validateData validateArrayGeometry at hd
  obtain ⟨_, hgeometry, -⟩ := except_bind_eq_ok.mp hd
  obtain ⟨_, -, hgeometry⟩ := except_bind_eq_ok.mp hgeometry
  split at hgeometry
  · cases hgeometry
  · rename_i hzero
    rw [hdims, List.drop_one] at hzero
    rw [ne_eq, List.prod_eq_zero_iff]
    exact hzero

variable (B) [ToString H] [ArrayBackend H B] [LawfulArrayBackend H B]

/-- Reads of rows of arrays of `A`: they may fail at will, and what they answer is what some array store
that holds none but these answers. -/
def FairRows (A : Set TypedArray) (read : RowReader H) : Prop :=
  ∃ a : ArrayStore H B, Store.Admits (fun x y => y ∈ A ∧ arrayHash y = x) (fun _ _ => True) a ∧
    ∀ hashes d rows buf out, (read hashes d rows).exec buf = (.ok (), out) →
      a.readRows hashes d rows = .ok out

variable {B} [LawfulReads H B] [LawfulBulkReads H B]

omit [DecidableEq H] [Sha256 H] [FloatText] [ToString H] in
theorem flatMap_columns {columns : List (TimeSeriesMetadata H × ℕ)} {ds : List TimeSeriesData}
    (hlen : columns.length = ds.length) (row : ℕ → ℕ) :
    ((columns.map fun c => (c.1.dataHash, row c.2)).zip (ds.map fun d => d.fields.data)).flatMap
        (fun x => x.2.row x.1.2) =
      (ds.zip (columns.map fun c => row c.2)).flatMap fun x => x.1.fields.data.row x.2 := by
  induction columns generalizing ds with
  | nil => cases ds with
    | nil => rfl
    | cons d ds => cases hlen
  | cons c columns ih =>
    cases ds with
    | nil => cases hlen
    | cons d ds =>
      simp only [List.map_cons, List.zip_cons_cons, List.flatMap_cons]
      rw [ih (Nat.succ.inj hlen)]

/-- The batch of a group's rows, in an array store that holds the arrays of its columns. -/
theorem StaticGroup.Of.readRows {A : Set TypedArray} {t : Timeline} {role : ColumnRole}
    {run : List (TimeSeriesMetadata H × ℕ)} {g : StaticGroup H} (h : g.Of role run)
    {a : ArrayStore H B} (ha : a.Valid) {ds : List TimeSeriesData}
    (hds : List.Forall₂ (fun c d => c.1.ColumnOf A d ∧ t.Carries role c.2 d) run ds)
    (hheld : ∀ c ∈ run, ∀ d, c.1.ColumnOf A d → a.content c.1.dataHash = some d.fields.data)
    {rows : Rows} {row : ℕ → ℕ}
    (hrows : rows.of g.hashes = run.map fun c => (c.1.dataHash, row c.2)) (bytes : List UInt8) :
    a.readRows g.hashes g.dtype rows = .ok bytes ↔
      List.Forall₂ (fun c (d : TimeSeriesData) => row c.2 < d.fields.data.length) run ds ∧
        bytes = (ds.zip (run.map fun c => row c.2)).flatMap fun y => y.1.fields.data.row y.2 := by
  have hfst : (rows.of g.hashes).map Prod.fst = g.hashes := by
    rw [hrows, List.map_map, h.hashes]
    rfl
  have hall := (List.forall₂_and_left _ _).mpr ⟨fun c hc => hc, hds⟩
  have huniform : a.Uniform g.dtype g.elementShape g.hashes := by
    constructor
    · obtain ⟨c, hc⟩ := List.exists_mem_of_ne_nil _ h.nonempty
      obtain ⟨d, -, hcd⟩ := Catalog.forall₂_mem_right hall.flip hc
      rw [← h.elementShape c hc, hcd.2.1.elementShape]
      exact hcd.2.1.accepted.elements hcd.2.2.leadingDims
    · intro y hy
      rw [h.hashes] at hy
      obtain ⟨c, hc, rfl⟩ := List.mem_map.mp hy
      obtain ⟨d, -, hcd⟩ := Catalog.forall₂_mem_right hall.flip hc
      refine ⟨_, hheld c hc d hcd.2.1, ?_, ?_, ?_⟩
      · show _ = g.elementType.physicalDtype
        rw [← h.elementType c hc, hcd.2.1.elementType, hcd.2.1.accepted.dtype]
      · rw [← h.elementShape c hc, hcd.2.1.elementShape]
      · exact ⟨hcd.2.1.accepted.checked.wellFormed, hcd.2.1.accepted.shape_ne_nil⟩
  have hcontents : List.Forall₂ (fun c y => a.content c.1 = some y) (rows.of g.hashes)
      (ds.map fun d => d.fields.data) := by
    rw [hrows, List.forall₂_map_left_iff, List.forall₂_map_right_iff]
    exact hall.imp fun c d hcd => hheld c hcd.1 d hcd.2.1
  rw [ArrayStore.readRows_rows ha huniform hfst hcontents, hrows, flatMap_columns hds.length_eq,
    List.zip_map, List.forall_mem_map, List.forall₂_iff_zip]
  exact and_congr_left fun _ => ⟨fun hlt => ⟨hds.length_eq, fun hx => hlt _ hx⟩,
    fun hlt _ hx => hlt.2 hx⟩

/-- **The bytes of a group** are, for each column, the row its series has at the instant. -/
theorem StaticGroup.Holds.exposes {A : Set TypedArray} (hA : Set.InjOn (arrayHash (H := H)) A)
    {t : Timeline} {role : ColumnRole} {x : DateTime} {reads : ℕ → RowReader H}
    {run : List (TimeSeriesMetadata H × ℕ)} {g : StaticGroup H} (h : g.Holds t role x reads run)
    (hfair : ∀ i, FairRows B A (reads i)) {ds : List TimeSeriesData}
    (hds : List.Forall₂ (fun c d => c.1.ColumnOf A d ∧ t.Carries role c.2 d) run ds) :
    ∃ rows, List.Forall₂ (fun (d : TimeSeriesData) k => d.ShownAt x k) ds rows ∧
      g.values = (ds.zip rows).flatMap fun y => y.1.fields.data.row y.2 := by
  obtain ⟨i, buf, rows, row, hread, hrows, hrow⟩ := h.answered
  obtain ⟨a, ha, hanswers⟩ := hfair i
  have hout := hanswers _ _ _ _ _ hread
  -- the arrays held under the columns' hashes are those of their series
  have hheld : ∀ c ∈ run, ∀ d, c.1.ColumnOf A d → a.content c.1.dataHash = some d.fields.data := by
    intro c hc d hd
    have hfst : (rows.of g.hashes).map Prod.fst = g.hashes := by
      rw [hrows, List.map_map, h.built.hashes]
      rfl
    obtain ⟨y, hy⟩ := Option.isSome_iff_exists.mp
      (ArrayStore.readRows_held ha.valid hfst hout c.1.dataHash (by
        rw [h.built.hashes]
        exact List.mem_map_of_mem hc))
    obtain ⟨hyA, hyhash⟩ := ha.allowed hy
    rw [hy, hA hyA hd.data (hyhash.trans hd.hash)]
  obtain ⟨-, hbytes⟩ := (h.built.readRows ha.valid hds hheld hrows _).mp hout
  refine ⟨run.map fun c => row c.2, ?_, ?_⟩
  · rw [List.forall₂_map_right_iff]
    have hall := (List.forall₂_and_left _ _).mpr ⟨fun c hc => hc, hds⟩
    exact hall.flip.imp fun d c hcd => (hcd.2.2.shown hcd.2.1.accepted (hrow c hcd.1)).2
  · unfold values
    rw [if_pos h.filled]
    exact hbytes

/-- **Reads on the axis.**  At an instant of its axis, a reader reads an array store that holds the arrays
of its columns. -/
theorem StaticReader.Of.read_total {A : Set TypedArray} {role : ColumnRole}
    {runs : List (List (TimeSeriesMetadata H × ℕ))} {r : StaticReader H} (h : r.Of role runs)
    (hruns : runs ≠ []) {a : ArrayStore H B} (ha : a.Valid)
    (hseries : ∀ run ∈ runs, ∃ ds, List.Forall₂
      (fun c d => c.1.ColumnOf A d ∧ r.timeline.Carries role c.2 d) run ds)
    (hheld : ∀ run ∈ runs, ∀ c ∈ run, ∀ d, c.1.ColumnOf A d →
      a.content c.1.dataHash = some d.fields.data) {x : DateTime} (hx : r.timeline.Covers x) :
    ∃ r', (StaticReader.readAt x a.rowReader).exec r = (.ok (), r') := by
  -- every group's batch is answered, given the rows of its columns
  have hbatch : ∀ run ∈ runs, ∀ g : StaticGroup H, g.Of role run → ∀ (rows : Rows) (row : ℕ → ℕ),
      rows.of g.hashes = run.map (fun c => (c.1.dataHash, row c.2)) →
        (∀ c ∈ run, r.timeline.RowAt role x c.2 (row c.2)) →
          ∃ bytes, a.readRows g.hashes g.dtype rows = .ok bytes := by
    intro run hrun g hg rows row hrows hrow
    obtain ⟨ds, hds⟩ := hseries run hrun
    refine ⟨_, (hg.readRows ha hds (hheld run hrun) hrows _).mpr ⟨?_, rfl⟩⟩
    exact ((List.forall₂_and_left _ _).mpr ⟨fun c hc => hc, hds⟩).imp fun c d hcd =>
      (hcd.2.2.shown hcd.2.1.accepted (hrow c hcd.1)).1
  have hcolumn : ∀ run ∈ runs, ∀ c ∈ run, ∃ k, r.timeline.RowAt role x c.2 k := by
    intro run hrun c hc
    obtain ⟨ds, hds⟩ := hseries run hrun
    obtain ⟨d, -, hcd⟩ := Catalog.forall₂_mem_right hds.flip hc
    exact hcd.2.rowAt hcd.1.accepted hx
  rw [← StaticReader.readAtBy_const]
  unfold StaticReader.readAtBy
  rw [Cmd.exec_bind, Cmd.exec_get]
  dsimp only
  split
  · rename_i vectors union ht
    rw [ht] at hx hbatch hcolumn
    have hrole : role = .vector := h.vectors ⟨vectors, union, ht⟩
    subst hrole
    rw [Cmd.exec_bind, Cmd.exec_ofExcept, vectorIndices_eq r.groups hx]
    refine StaticReader.onGroupsBy_total fun g hg _ => ?_
    obtain ⟨run, hrun, hof⟩ := Catalog.forall₂_mem_right h.groups hg
    have hrow : ∀ c ∈ run, Timeline.RowAt (.persistent vectors union) .vector x c.2
        (((vectors.map fun v => (indexAt v x).getD 0)[c.2]?).getD 0) := by
      intro c hc
      obtain ⟨k, v, hv, hk⟩ := hcolumn run hrun c hc
      refine ⟨v, hv, ?_⟩
      rw [List.getElem?_map, hv, Option.map_some, hk]
      rfl
    have hrows : StaticGroup.vectorRows (vectors.map fun v => (indexAt v x).getD 0) g.vectorIds =
        .ok (run.map fun c => ((vectors.map fun v => (indexAt v x).getD 0)[c.2]?).getD 0) := by
      unfold StaticGroup.vectorRows
      rw [hof.vectorIds rfl, mapM_eq_ok, List.forall₂_map_left_iff, List.forall₂_map_right_iff,
        List.forall₂_same]
      intro c hc
      obtain ⟨v, hv, hk⟩ := hrow c hc
      rw [List.getElem?_map, hv]
      rfl
    obtain ⟨bytes, hbytes⟩ := hbatch run hrun g hof _
      (fun v => ((vectors.map fun v => (indexAt v x).getD 0)[v]?).getD 0) (hof.vectorRows hrows).1 hrow
    exact StaticGroup.fillPerVector_total hrows hbytes
  · rename_i hshared
    -- one column gives the reader's own index
    obtain ⟨index, hindex, hrowAt⟩ : ∃ index, r.timeline.indexOn x = .ok index ∧
        ∀ companion, r.timeline.RowAt role x companion (index + role.shift companion) := by
      obtain ⟨run, hrun⟩ := List.exists_mem_of_ne_nil _ hruns
      obtain ⟨g, -, hof⟩ := Catalog.forall₂_mem_right h.groups.flip hrun
      obtain ⟨c, hc⟩ := List.exists_mem_of_ne_nil _ hof.nonempty
      obtain ⟨k, hk⟩ := hcolumn run hrun c hc
      cases ht : r.timeline with
      | persistent vectors union => exact absurd ht (hshared vectors union)
      | regular initial resolution length =>
        rw [ht] at hk
        obtain ⟨index, hindex, -⟩ := hk
        exact ⟨index, hindex, fun _ => ⟨index, hindex, rfl⟩⟩
      | irregular timestamps =>
        rw [ht] at hk
        obtain ⟨index, hindex, -⟩ := hk
        exact ⟨index, hindex, fun _ => ⟨index, hindex, rfl⟩⟩
    rw [Cmd.exec_bind, Cmd.exec_ofExcept, hindex]
    refine StaticReader.onGroupsBy_total fun g hg _ => ?_
    obtain ⟨run, hrun, hof⟩ := Catalog.forall₂_mem_right h.groups hg
    obtain ⟨bytes, hbytes⟩ := hbatch run hrun g hof _ (fun v => index + role.shift v)
      (hof.sharedRows index) fun c _ => hrowAt c.2
    exact StaticGroup.fillShared_total hbytes

end

end InfraStore
