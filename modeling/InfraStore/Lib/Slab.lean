import InfraStore.Lib.RowMajor

/-!
# Writing into a box

The elements of a box of a row-major array replaced by others: what the box holds then, and what the
boxes beside it do.

* `boxSize`: how many elements a box has;
* `fillSlab`: the array with the box filled;
* `hyperslab_fillSlab`: the box holds what was written;
* `hyperslab_fillSlab_apart`: a box that shares no index with it on some axis holds what it held.
-/

namespace InfraStore.Lib

variable {α : Type}

/-- The number of elements in a box. -/
def boxSize (ranges : List (ℕ × ℕ)) : ℕ := (ranges.map fun r => r.2 - r.1).prod

theorem boxSize_cons (r : ℕ × ℕ) (ranges : List (ℕ × ℕ)) :
    boxSize (r :: ranges) = (r.2 - r.1) * boxSize ranges := by
  unfold boxSize
  rw [List.map_cons, List.prod_cons]

theorem boxSize_whole (shape : List ℕ) : boxSize (wholeRanges shape) = shape.prod := by
  induction shape with
  | nil => rfl
  | cons n shape ih =>
    show boxSize ((0, n) :: wholeRanges shape) = _
    rw [boxSize_cons, ih, List.prod_cons, Nat.sub_zero]

/-- An array with the elements of a box, `w` places each, replaced by those of `src` in order. -/
def fillSlab (w : ℕ) : List ℕ → List (ℕ × ℕ) → List α → List α → List α
  | n :: shape, r :: ranges, src, dst =>
    (List.range n).flatMap fun i =>
      let block := (dst.drop (i * (shape.prod * w))).take (shape.prod * w)
      if r.1 ≤ i ∧ i < r.2 then
        fillSlab w shape ranges (src.drop ((i - r.1) * (boxSize ranges * w))) block
      else block
  | _, _, src, _ => src.take w

theorem block_length {dst : List α} {n p i : ℕ} (h : dst.length = n * p) (hi : i < n) :
    ((dst.drop (i * p)).take p).length = p := by
  have hle : (i + 1) * p ≤ n * p := Nat.mul_le_mul_right p hi
  rw [Nat.succ_mul] at hle
  rw [List.length_take, List.length_drop]
  omega

theorem run_length {src : List α} {r : ℕ × ℕ} {q i : ℕ} (h : src.length = (r.2 - r.1) * q)
    (h1 : r.1 ≤ i) (h2 : i < r.2) : q ≤ (src.drop ((i - r.1) * q)).length := by
  have hle : (i - r.1 + 1) * q ≤ (r.2 - r.1) * q := Nat.mul_le_mul_right q (by omega)
  rw [Nat.succ_mul] at hle
  rw [List.length_drop]
  omega

/-- More than enough elements are cut to those the box takes. -/
theorem fillSlab_take {w : ℕ} {shape : List ℕ} {ranges : List (ℕ × ℕ)} (h : InBounds ranges shape)
    (src dst : List α) :
    fillSlab w shape ranges (src.take (boxSize ranges * w)) dst = fillSlab w shape ranges src dst := by
  induction h generalizing src dst with
  | nil =>
    show (src.take (1 * w)).take w = src.take w
    rw [Nat.one_mul, List.take_take, Nat.min_self]
  | @cons r n ranges shape hr _ ih =>
    rw [fillSlab, fillSlab]
    refine List.flatMap_congr fun i _ => ?_
    simp only
    split
    · rename_i hin
      have hle : (i - r.1 + 1) * (boxSize ranges * w) ≤ (r.2 - r.1) * (boxSize ranges * w) :=
        Nat.mul_le_mul_right _ (by omega)
      rw [Nat.succ_mul] at hle
      rw [← ih (src.drop _), ← ih (List.drop _ (List.take _ src)), boxSize_cons, Nat.mul_assoc,
        List.drop_take, List.take_take, Nat.min_eq_left (by omega)]
    · rfl

/-- A filled array is as long as it was. -/
theorem length_fillSlab {w : ℕ} {shape : List ℕ} {ranges : List (ℕ × ℕ)} (h : InBounds ranges shape)
    {src dst : List α} (hsrc : src.length = boxSize ranges * w) (hdst : dst.length = shape.prod * w) :
    (fillSlab w shape ranges src dst).length = shape.prod * w := by
  induction h generalizing src dst with
  | nil =>
    show (src.take w).length = 1 * w
    rw [List.length_take, hsrc]
    show min w (1 * w) = 1 * w
    omega
  | @cons r n ranges shape hr hrest ih =>
    rw [List.prod_cons, Nat.mul_assoc] at hdst ⊢
    rw [boxSize_cons, Nat.mul_assoc] at hsrc
    rw [fillSlab]
    refine length_flatMap_range fun i hi => ?_
    simp only
    split
    · rename_i hin
      rw [← fillSlab_take hrest]
      refine ih ?_ (block_length hdst hi)
      rw [List.length_take, Nat.min_eq_left (run_length hsrc hin.1 hin.2)]
    · exact block_length hdst hi

/-- One block of a filled array. -/
theorem fillSlab_block {w n : ℕ} {shape : List ℕ} {r : ℕ × ℕ} {ranges : List (ℕ × ℕ)}
    (hrest : InBounds ranges shape) {src dst : List α}
    (hsrc : src.length = (r.2 - r.1) * (boxSize ranges * w))
    (hdst : dst.length = n * (shape.prod * w)) {i : ℕ} (hi : i < n) :
    ((fillSlab w (n :: shape) (r :: ranges) src dst).drop (i * (shape.prod * w))).take
        (shape.prod * w) =
      if r.1 ≤ i ∧ i < r.2 then
        fillSlab w shape ranges ((src.drop ((i - r.1) * (boxSize ranges * w))).take
          (boxSize ranges * w)) ((dst.drop (i * (shape.prod * w))).take (shape.prod * w))
      else (dst.drop (i * (shape.prod * w))).take (shape.prod * w) := by
  have hblock : ∀ j < n, (if r.1 ≤ j ∧ j < r.2 then
      fillSlab w shape ranges (src.drop ((j - r.1) * (boxSize ranges * w)))
        ((dst.drop (j * (shape.prod * w))).take (shape.prod * w))
      else (dst.drop (j * (shape.prod * w))).take (shape.prod * w)).length = shape.prod * w := by
    intro j hj
    split
    · rename_i hin
      rw [← fillSlab_take hrest]
      refine length_fillSlab hrest ?_ (block_length hdst hj)
      rw [List.length_take, Nat.min_eq_left (run_length hsrc hin.1 hin.2)]
    · exact block_length hdst hj
  have h := take_drop_flatMap_range hblock hi (show 0 + shape.prod * w ≤ shape.prod * w by omega)
  rw [Nat.add_zero, List.drop_zero, List.take_of_length_le (hblock i hi).le] at h
  rw [fillSlab_take hrest]
  exact h

/-- **Read after write.**  The box holds what was written into it. -/
theorem hyperslab_fillSlab {w : ℕ} {shape : List ℕ} {ranges : List (ℕ × ℕ)}
    (h : InBounds ranges shape) {src dst : List α} (hsrc : src.length = boxSize ranges * w)
    (hdst : dst.length = shape.prod * w) :
    hyperslab w shape ranges (fillSlab w shape ranges src dst) = src := by
  induction h generalizing src dst with
  | nil =>
    show (src.take w).take w = src
    rw [List.take_take, Nat.min_self, List.take_of_length_le]
    rw [hsrc]
    exact (Nat.one_mul w).le
  | @cons r n ranges shape hr hrest ih =>
    rw [List.prod_cons, Nat.mul_assoc] at hdst
    rw [boxSize_cons, Nat.mul_assoc] at hsrc
    have hblock : ∀ i ∈ List.range' r.1 (r.2 - r.1),
        hyperslab w shape ranges ((fillSlab w (n :: shape) (r :: ranges) src dst).drop
          (i * (shape.prod * w))) =
          (src.drop ((i - r.1) * (boxSize ranges * w))).take (boxSize ranges * w) := by
      intro i hi
      obtain ⟨h1, h2⟩ := List.mem_range'_1.mp hi
      have hin : i < r.2 := by omega
      have hi : i < n := by omega
      rw [← hyperslab_take hrest le_rfl, fillSlab_block hrest hsrc hdst hi, if_pos ⟨h1, hin⟩]
      refine ih ?_ (block_length hdst hi)
      rw [List.length_take, Nat.min_eq_left (run_length hsrc h1 hin)]
    rw [hyperslab, List.flatMap_congr hblock, List.range'_eq_map_range, List.flatMap_map]
    simp only [Nat.add_sub_cancel_left]
    rw [flatMap_blocks, List.take_of_length_le hsrc.le]

/-- Two boxes share no index on some axis. -/
def Apart : List (ℕ × ℕ) → List (ℕ × ℕ) → Prop
  | r :: ranges, r' :: ranges' => r.2 ≤ r'.1 ∨ r'.2 ≤ r.1 ∨ Apart ranges ranges'
  | _, _ => False

/-- **Frame.**  A box apart from the one written into holds what it held. -/
theorem hyperslab_fillSlab_apart {w : ℕ} {shape : List ℕ} {ranges ranges' : List (ℕ × ℕ)}
    (h : InBounds ranges shape) (h' : InBounds ranges' shape) (hapart : Apart ranges ranges')
    {src dst : List α} (hsrc : src.length = boxSize ranges * w) (hdst : dst.length = shape.prod * w) :
    hyperslab w shape ranges' (fillSlab w shape ranges src dst) = hyperslab w shape ranges' dst := by
  induction h generalizing ranges' src dst with
  | nil => exact hapart.elim
  | @cons r n ranges shape hr hrest ih =>
    cases h' with
    | @cons r' _ ranges' _ hr' hrest' =>
      rw [List.prod_cons, Nat.mul_assoc] at hdst
      rw [boxSize_cons, Nat.mul_assoc] at hsrc
      rw [hyperslab, hyperslab]
      refine List.flatMap_congr fun i hi => ?_
      obtain ⟨h1, h2⟩ := List.mem_range'_1.mp hi
      have hi : i < n := by omega
      rw [← hyperslab_take hrest' le_rfl, fillSlab_block hrest hsrc hdst hi,
        ← hyperslab_take hrest' le_rfl (List.drop _ dst)]
      split
      · rename_i hin
        have hrest'' : Apart ranges ranges' := by
          rcases hapart with hlt | hlt | hrest''
          · omega
          · omega
          · exact hrest''
        refine ih hrest' hrest'' ?_ (block_length hdst hi)
        rw [List.length_take, Nat.min_eq_left (run_length hsrc hin.1 hin.2)]
      · rfl

/-! ### Columns -/

section

variable {w d n : ℕ} {shape : List ℕ}

/-- A column is the box of it. -/
theorem columnOf_eq_hyperslab {l : List α} (hl : l.length = (d :: n :: shape).prod * w) {col : ℕ}
    (hcol : col < n) :
    columnOf l d n col (shape.prod * w) =
      hyperslab w (d :: n :: shape) ((0, d) :: (col, col + 1) :: wholeRanges shape) l := by
  have hlen : l.length = d * n * (shape.prod * w) := by
    rw [hl, List.prod_cons, List.prod_cons]
    ring
  have hwhole := hyperslab_whole w (d :: shape) (columnOf l d n col (shape.prod * w))
  rw [@hyperslab_column α w d n shape (0, d) _ le_rfl (inBounds_whole shape) l hlen col hcol]
  rw [List.take_of_length_le] at hwhole
  · exact hwhole.symm
  · rw [columnOf_length hlen hcol, List.prod_cons, Nat.mul_assoc]

theorem inBounds_column {col : ℕ} (hcol : col < n) :
    InBounds ((0, d) :: (col, col + 1) :: wholeRanges shape) (d :: n :: shape) :=
  .cons ⟨Nat.zero_le d, le_rfl⟩ (.cons ⟨Nat.le_succ col, hcol⟩ (inBounds_whole shape))

theorem boxSize_column (col : ℕ) :
    boxSize ((0, d) :: (col, col + 1) :: wholeRanges shape) = d * shape.prod := by
  rw [boxSize_cons, boxSize_cons, boxSize_whole, Nat.sub_zero, Nat.add_sub_cancel_left, Nat.one_mul]

variable {src dst : List α} (hsrc : src.length = d * shape.prod * w)
  (hdst : dst.length = (d :: n :: shape).prod * w) {col : ℕ} (hcol : col < n)
include hsrc hdst hcol

theorem length_fillColumn :
    (fillSlab w (d :: n :: shape) ((0, d) :: (col, col + 1) :: wholeRanges shape) src dst).length =
      (d :: n :: shape).prod * w :=
  length_fillSlab (inBounds_column hcol) (by rw [boxSize_column, hsrc]) hdst

/-- **Columns.**  Of a column written, that column alone is another. -/
theorem columnOf_fillSlab {other : ℕ} (hother : other < n) :
    columnOf (fillSlab w (d :: n :: shape) ((0, d) :: (col, col + 1) :: wholeRanges shape) src dst)
        d n other (shape.prod * w) =
      if other = col then src else columnOf dst d n other (shape.prod * w) := by
  rw [columnOf_eq_hyperslab (length_fillColumn hsrc hdst hcol) hother]
  split
  · rename_i heq
    subst heq
    exact hyperslab_fillSlab (inBounds_column hcol) (by rw [boxSize_column, hsrc]) hdst
  · rename_i hne
    rw [hyperslab_fillSlab_apart (inBounds_column hcol) (inBounds_column hother) ?_
      (by rw [boxSize_column, hsrc]) hdst, ← columnOf_eq_hyperslab hdst hother]
    rcases Nat.lt_or_gt_of_ne hne with hlt | hlt
    · exact .inr (.inr (.inr (.inl hlt)))
    · exact .inr (.inr (.inl hlt))

end

/-- An array wholly overwritten. -/
theorem fillSlab_whole {w : ℕ} {shape : List ℕ} {src dst : List α}
    (hsrc : src.length = shape.prod * w) (hdst : dst.length = shape.prod * w) :
    fillSlab w shape (wholeRanges shape) src dst = src := by
  have hbox : src.length = boxSize (wholeRanges shape) * w := by rw [boxSize_whole, hsrc]
  have hlen := length_fillSlab (inBounds_whole shape) hbox hdst
  have h := hyperslab_fillSlab (inBounds_whole shape) hbox hdst
  rw [hyperslab_whole, List.take_of_length_le hlen.le] at h
  exact h

/-- Lists of blocks that agree block by block. -/
theorem eq_of_blocks {l l' : List α} {n c : ℕ} (hl : l.length = n * c) (hl' : l'.length = n * c)
    (h : ∀ i < n, (l.drop (i * c)).take c = (l'.drop (i * c)).take c) : l = l' := by
  calc l = l.take (n * c) := (List.take_of_length_le hl.le).symm
    _ = (List.range n).flatMap fun i => (l.drop (i * c)).take c := (flatMap_blocks l c n).symm
    _ = (List.range n).flatMap fun i => (l'.drop (i * c)).take c :=
      List.flatMap_congr fun i hi => h i (List.mem_range.mp hi)
    _ = l'.take (n * c) := flatMap_blocks l' c n
    _ = l' := List.take_of_length_le hl'.le

/-- **Rows.**  Of a row written, that row alone is another. -/
theorem fillSlab_row {w n row : ℕ} {shape : List ℕ} {src dst : List α} (hrow : row < n)
    (hsrc : src.length = shape.prod * w) (hdst : dst.length = n * (shape.prod * w)) {i : ℕ} (hi : i < n) :
    ((fillSlab w (n :: shape) ((row, row + 1) :: wholeRanges shape) src dst).drop
      (i * (shape.prod * w))).take (shape.prod * w) =
        if i = row then src else (dst.drop (i * (shape.prod * w))).take (shape.prod * w) := by
  have hbox : src.length = (row + 1 - row) * (boxSize (wholeRanges shape) * w) := by
    rw [boxSize_whole, Nat.add_sub_cancel_left, Nat.one_mul, hsrc]
  rw [fillSlab_block (inBounds_whole shape) hbox hdst hi, boxSize_whole]
  by_cases heq : i = row
  · subst heq
    rw [if_pos ⟨le_rfl, Nat.lt_succ_self i⟩, if_pos rfl, Nat.sub_self, Nat.zero_mul, List.drop_zero,
      List.take_of_length_le hsrc.le]
    exact fillSlab_whole hsrc (block_length hdst hi)
  · rw [if_neg heq, if_neg fun h => heq (Nat.le_antisymm (Nat.lt_succ_iff.mp h.2) h.1)]

/-! ### Columns interleaved -/

/-- One of many blocks of one length, laid end to end. -/
theorem take_drop_flatMap {β : Type} {l : List β} {g : β → List α} {c : ℕ}
    (h : ∀ x ∈ l, (g x).length = c) {i : ℕ} {x : β} (hx : l[i]? = some x) :
    ((l.flatMap g).drop (i * c)).take c = g x := by
  induction l generalizing i with
  | nil => cases hx
  | cons y l ih =>
    have hy : (g y).length = c := h y List.mem_cons_self
    rw [List.flatMap_cons]
    cases i with
    | zero =>
      cases hx
      rw [Nat.zero_mul, List.drop_zero, ← hy, List.take_left]
    | succ i =>
      have hdrop : (i + 1) * c = (g y).length + i * c := by
        rw [hy]
        ring
      rw [hdrop, List.drop_append, List.drop_eq_nil_of_le (Nat.le_add_right _ _), List.nil_append,
        Nat.add_sub_cancel_left]
      exact ih (fun z hz => h z (List.mem_cons_of_mem y hz)) hx

theorem length_flatMap_blocks {β : Type} {l : List β} {g : β → List α} {c : ℕ}
    (h : ∀ x ∈ l, (g x).length = c) : (l.flatMap g).length = l.length * c := by
  induction l with
  | nil => simp
  | cons y l ih =>
    rw [List.flatMap_cons, List.length_append, h y List.mem_cons_self,
      ih fun z hz => h z (List.mem_cons_of_mem y hz), List.length_cons]
    ring

section

variable {columns : List (List α)} {d block : ℕ} (h : ∀ c ∈ columns, c.length = d * block)
include h

theorem length_rowOf {t : ℕ} (ht : t < d) :
    (columns.flatMap fun c => (c.drop (t * block)).take block).length = columns.length * block :=
  length_flatMap_blocks fun c hc => block_length (h c hc) ht

/-- **Interleaved columns.**  Columns taken step by step are the columns of what results. -/
theorem columnOf_interleaved {i : ℕ} {c : List α} (hc : columns[i]? = some c) :
    columnOf ((List.range d).flatMap fun t => columns.flatMap fun c => (c.drop (t * block)).take block)
      d columns.length i block = c := by
  obtain ⟨hi, -⟩ := List.getElem?_eq_some_iff.mp hc
  have hle : (i + 1) * block ≤ columns.length * block := Nat.mul_le_mul_right block hi
  rw [Nat.succ_mul] at hle
  have hrow : ∀ t ∈ List.range d, (((List.range d).flatMap fun t => columns.flatMap fun c =>
      (c.drop (t * block)).take block).drop ((t * columns.length + i) * block)).take block =
        (c.drop (t * block)).take block := by
    intro t ht
    have ht := List.mem_range.mp ht
    rw [show (t * columns.length + i) * block = t * (columns.length * block) + i * block by ring,
      take_drop_flatMap_range (fun t ht => length_rowOf h ht) ht hle]
    exact take_drop_flatMap (fun c hc => block_length (h c hc) ht) hc
  unfold columnOf
  rw [List.flatMap_congr hrow, flatMap_blocks, List.take_of_length_le]
  exact (h c (List.mem_of_getElem? hc)).le

end

end InfraStore.Lib
