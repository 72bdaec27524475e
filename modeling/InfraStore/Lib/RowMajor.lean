import Mathlib.Algebra.BigOperators.Group.List.Basic
import Mathlib.Algebra.Order.BigOperators.Group.List
import Mathlib.Tactic.Ring

/-!
# Row-major layouts

Lists that hold the elements of an N-dimensional array in row-major order.

* `take_drop_flatMap_range`, `take_drop_blocks`: reading inside one of many blocks of one length, and
  reading a run of them;
* `offset shape index`: where the element of an index lies, and `offset_append`, which splits it at an
  axis;
* `hyperslab`: the elements of a box of ranges, one for each axis; `hyperslab_axis` and
  `hyperslab_block` say what they are where the ranges take most axes whole.
-/

namespace InfraStore.Lib

/-! ### Blocks of one length -/

section

variable {α : Type}

theorem take_drop_append_left {l l' : List α} {k w : ℕ} (h : k + w ≤ l.length) :
    ((l ++ l').drop k).take w = (l.drop k).take w := by
  rw [List.drop_append_of_le_length (by omega), List.take_append_of_le_length]
  rw [List.length_drop]
  omega

variable {f : ℕ → List α} {n c : ℕ}

theorem length_flatMap_range (h : ∀ i < n, (f i).length = c) :
    ((List.range n).flatMap f).length = n * c := by
  induction n with
  | zero => simp
  | succ n ih =>
    rw [List.range_succ, List.flatMap_append, List.length_append, ih fun i hi => h i (by omega),
      List.flatMap_cons, List.flatMap_nil, List.append_nil, h n (by omega)]
    ring

/-- Reading inside one of the blocks reads that block. -/
theorem take_drop_flatMap_range (h : ∀ i < n, (f i).length = c) {i r w : ℕ} (hi : i < n)
    (hr : r + w ≤ c) :
    (((List.range n).flatMap f).drop (i * c + r)).take w = ((f i).drop r).take w := by
  induction n with
  | zero => omega
  | succ n ih =>
    have hlen : ((List.range n).flatMap f).length = n * c :=
      length_flatMap_range fun i hi => h i (by omega)
    rw [List.range_succ, List.flatMap_append, List.flatMap_cons, List.flatMap_nil, List.append_nil]
    rcases Nat.lt_succ_iff_lt_or_eq.mp hi with hlt | rfl
    · rw [take_drop_append_left, ih (fun i hi => h i (by omega)) hlt]
      have : (i + 1) * c ≤ n * c := Nat.mul_le_mul_right c hlt
      rw [hlen]
      rw [Nat.succ_mul] at this
      omega
    · rw [List.drop_append, hlen, Nat.add_sub_cancel_left, List.drop_eq_nil_of_le (by omega),
        List.nil_append]

/-- A run of whole blocks. -/
theorem take_drop_blocks (h : ∀ i < n, (f i).length = c) {i m : ℕ} (him : i + m ≤ n) :
    (((List.range n).flatMap f).drop (i * c)).take (m * c) =
      (List.range m).flatMap fun j => f (i + j) := by
  obtain ⟨r, rfl⟩ := Nat.exists_eq_add_of_le him
  have hbefore : ((List.range i).flatMap f).length = i * c :=
    length_flatMap_range fun j hj => h j (by omega)
  have hrun : ((List.range m).flatMap fun j => f (i + j)).length = m * c :=
    length_flatMap_range fun j hj => h (i + j) (by omega)
  rw [List.range_add, List.range_add, List.flatMap_append, List.flatMap_append, List.append_assoc,
    List.drop_left' hbefore, List.flatMap_map, List.take_left' hrun]

end

/-! ### Indices -/

/-- The place of an index in row-major order. -/
def offset : List ℕ → List ℕ → ℕ
  | _ :: shape, i :: index => i * shape.prod + offset shape index
  | _, _ => 0

/-- Splitting an index at an axis. -/
theorem offset_append {shape index : List ℕ} (h : index.length = shape.length)
    (shape' index' : List ℕ) :
    offset (shape ++ shape') (index ++ index') =
      offset shape index * shape'.prod + offset shape' index' := by
  induction shape generalizing index with
  | nil =>
    rw [List.length_eq_zero_iff.mp h]
    simp [offset]
  | cons d shape ih =>
    cases index with
    | nil => cases h
    | cons i index =>
      rw [List.cons_append, List.cons_append, offset, offset, ih (Nat.succ.inj h), List.prod_append]
      ring

/-- An index within a shape is the place of an element. -/
theorem offset_lt {shape index : List ℕ} (h : List.Forall₂ (· < ·) index shape) :
    offset shape index < shape.prod := by
  induction h with
  | nil => simp [offset]
  | @cons i d index shape hi _ ih =>
    rw [offset, List.prod_cons]
    calc i * shape.prod + offset shape index < i * shape.prod + shape.prod := by omega
      _ = (i + 1) * shape.prod := by ring
      _ ≤ d * shape.prod := Nat.mul_le_mul_right _ hi

/-- The place of an index split at one axis. -/
theorem offset_axis {outer inner pre post : List ℕ} (h : pre.length = outer.length) (d i : ℕ) :
    offset (outer ++ d :: inner) (pre ++ i :: post) =
      (offset outer pre * d + i) * inner.prod + offset inner post := by
  rw [offset_append h, offset, List.prod_cons]
  ring

/-! ### Hyperslabs -/

section

variable {α : Type}

/-- The elements of an array, `w` places each, whose index lies in a range on every axis. -/
def hyperslab (w : ℕ) : List ℕ → List (ℕ × ℕ) → List α → List α
  | _ :: shape, r :: ranges, l =>
    (List.range' r.1 (r.2 - r.1)).flatMap fun i =>
      hyperslab w shape ranges (l.drop (i * (shape.prod * w)))
  | _, _, l => l.take w

/-- The whole of every axis. -/
def wholeRanges (shape : List ℕ) : List (ℕ × ℕ) := shape.map fun n => (0, n)

/-- The ranges lie in the axes. -/
def InBounds (ranges : List (ℕ × ℕ)) (shape : List ℕ) : Prop :=
  List.Forall₂ (fun r n => r.1 ≤ r.2 ∧ r.2 ≤ n) ranges shape

theorem inBounds_whole (shape : List ℕ) : InBounds (wholeRanges shape) shape := by
  induction shape with
  | nil => exact .nil
  | cons n shape ih => exact .cons ⟨Nat.zero_le n, le_rfl⟩ ih

/-- Blocks that follow each other. -/
theorem flatMap_blocks (l : List α) (p n : ℕ) :
    ((List.range n).flatMap fun i => (l.drop (i * p)).take p) = l.take (n * p) := by
  induction n with
  | zero => simp
  | succ n ih =>
    rw [List.range_succ, List.flatMap_append, ih, List.flatMap_cons, List.flatMap_nil, List.append_nil,
      Nat.succ_mul, List.take_add]

theorem flatMap_range'_blocks (l : List α) (p s n : ℕ) :
    ((List.range' s n).flatMap fun i => (l.drop (i * p)).take p) = (l.drop (s * p)).take (n * p) := by
  rw [List.range'_eq_map_range, List.flatMap_map, ← flatMap_blocks]
  apply List.flatMap_congr
  intro i _
  rw [List.drop_drop, ← Nat.add_mul]

theorem flatMap_range_mul {β : Type} (f : ℕ → List β) (n m : ℕ) :
    (List.range (n * m)).flatMap f =
      (List.range n).flatMap fun i => (List.range m).flatMap fun j => f (i * m + j) := by
  induction n with
  | zero => simp
  | succ n ih =>
    rw [Nat.succ_mul, List.range_add, List.flatMap_append, ih, List.range_succ, List.flatMap_append,
      List.flatMap_map, List.flatMap_cons, List.flatMap_nil, List.append_nil]

theorem hyperslab_whole (w : ℕ) (shape : List ℕ) (l : List α) :
    hyperslab w shape (wholeRanges shape) l = l.take (shape.prod * w) := by
  induction shape generalizing l with
  | nil => simp [hyperslab]
  | cons n shape ih =>
    rw [wholeRanges, List.map_cons, hyperslab, List.prod_cons, Nat.mul_assoc, ← flatMap_blocks,
      Nat.sub_zero, List.range_eq_range']
    exact List.flatMap_congr fun i _ => ih _

/-- **One axis.**  The box that takes every axis whole but one. -/
theorem hyperslab_axis (w : ℕ) (outer : List ℕ) (d : ℕ) (inner : List ℕ) (lo hi : ℕ) (l : List α) :
    hyperslab w (outer ++ d :: inner) (wholeRanges outer ++ (lo, hi) :: wholeRanges inner) l =
      (List.range outer.prod).flatMap fun o =>
        ((l.drop (lo * (inner.prod * w))).drop (o * (d * (inner.prod * w)))).take
          ((hi - lo) * (inner.prod * w)) := by
  induction outer generalizing l with
  | nil =>
    rw [List.nil_append, wholeRanges, List.map_nil, List.nil_append, hyperslab, List.prod_nil,
      List.range_one, List.flatMap_cons, List.flatMap_nil, List.append_nil, Nat.zero_mul,
      List.drop_zero, ← flatMap_range'_blocks]
    exact List.flatMap_congr fun i _ => hyperslab_whole w inner _
  | cons n outer ih =>
    rw [List.cons_append, wholeRanges, List.map_cons, List.cons_append, hyperslab, List.prod_cons,
      flatMap_range_mul, Nat.sub_zero, ← List.range_eq_range']
    refine List.flatMap_congr fun i _ => ?_
    rw [show List.map (fun n => (0, n)) outer = wholeRanges outer from rfl, ih]
    refine List.flatMap_congr fun o _ => ?_
    rw [List.drop_drop, List.drop_drop, List.drop_drop]
    congr 2
    rw [List.prod_append, List.prod_cons]
    ring

/-- **Two axes.**  The box that takes every axis whole but the first two. -/
theorem hyperslab_block (w d n : ℕ) (shape : List ℕ) (a b c e : ℕ) (l : List α) :
    hyperslab w (d :: n :: shape) ((a, b) :: (c, e) :: wholeRanges shape) l =
      (List.range' a (b - a)).flatMap fun t => (List.range' c (e - c)).flatMap fun j =>
        (l.drop ((t * n + j) * (shape.prod * w))).take (shape.prod * w) := by
  rw [hyperslab]
  refine List.flatMap_congr fun t _ => ?_
  rw [hyperslab]
  refine List.flatMap_congr fun j _ => ?_
  rw [hyperslab_whole, List.drop_drop, List.prod_cons]
  congr 2
  ring

/-- **Cells.**  A block of a box that takes every axis whole but the first two. -/
theorem hyperslab_cell {w d n : ℕ} {shape : List ℕ} {a b c e : ℕ} {l : List α}
    (hl : l.length = d * n * (shape.prod * w)) (hb : b ≤ d) (he : e ≤ n) :
    (hyperslab w (d :: n :: shape) ((a, b) :: (c, e) :: wholeRanges shape) l).length =
        (b - a) * ((e - c) * (shape.prod * w)) ∧
      ∀ r < b - a, ∀ q < e - c,
        ((hyperslab w (d :: n :: shape) ((a, b) :: (c, e) :: wholeRanges shape) l).drop
          ((r * (e - c) + q) * (shape.prod * w))).take (shape.prod * w) =
          (l.drop (((a + r) * n + (c + q)) * (shape.prod * w))).take (shape.prod * w) := by
  obtain ⟨p, hp⟩ : ∃ p, shape.prod * w = p := ⟨_, rfl⟩
  rw [hp] at hl
  have hcell : ∀ r < b - a, ∀ q < e - c,
      ((l.drop (((a + r) * n + (c + q)) * p)).take p).length = p := by
    intro r hr q hq
    have h1 : (a + r + 1) * n ≤ d * n := Nat.mul_le_mul_right n (by omega)
    have h2 : ((a + r) * n + (c + q) + 1) * p ≤ d * n * p := by
      apply Nat.mul_le_mul_right
      rw [Nat.succ_mul] at h1
      omega
    rw [Nat.succ_mul] at h2
    rw [List.length_take, List.length_drop]
    omega
  have hrow : ∀ r < b - a, ((List.range (e - c)).flatMap fun q =>
      (l.drop (((a + r) * n + (c + q)) * p)).take p).length = (e - c) * p :=
    fun r hr => length_flatMap_range (hcell r hr)
  rw [hyperslab_block, hp]
  simp only [List.range'_eq_map_range, List.flatMap_map]
  refine ⟨length_flatMap_range hrow, fun r hr q hq => ?_⟩
  have hfit : q * p + p ≤ (e - c) * p := by
    rw [← Nat.succ_mul]
    exact Nat.mul_le_mul_right p hq
  have hplace : (r * (e - c) + q) * p = r * ((e - c) * p) + q * p := by ring
  have hin := take_drop_flatMap_range (hcell r hr) hq (show 0 + p ≤ p by omega)
  rw [Nat.add_zero, List.drop_zero, List.take_take, Nat.min_self] at hin
  rw [hplace, take_drop_flatMap_range hrow hr hfit, hin]

/-- A box within an array is read off the places of the array alone. -/
theorem hyperslab_take {w : ℕ} {shape : List ℕ} {ranges : List (ℕ × ℕ)} (h : InBounds ranges shape)
    {m : ℕ} (hm : shape.prod * w ≤ m) (l : List α) :
    hyperslab w shape ranges (l.take m) = hyperslab w shape ranges l := by
  induction h generalizing l m with
  | nil =>
    rw [List.prod_nil, Nat.one_mul] at hm
    show (l.take m).take w = l.take w
    rw [List.take_take, Nat.min_eq_left hm]
  | @cons r n ranges shape hr _ ih =>
    rw [hyperslab, hyperslab]
    refine List.flatMap_congr fun i hi => ?_
    have hlt : i < n := by
      have := (List.mem_range'_1.mp hi).2
      omega
    have hfit : (i + 1) * (shape.prod * w) ≤ n * (shape.prod * w) := Nat.mul_le_mul_right _ hlt
    rw [List.prod_cons, Nat.mul_assoc] at hm
    rw [Nat.succ_mul] at hfit
    rw [List.drop_take, ih (by omega)]

/-- The columns of an array whose second axis is pinned. -/
def columnOf (l : List α) (d n col block : ℕ) : List α :=
  (List.range d).flatMap fun t => (l.drop ((t * n + col) * block)).take block

theorem column_cell {l : List α} {d n col block t : ℕ} (hl : l.length = d * n * block) (hcol : col < n)
    (ht : t < d) : ((l.drop ((t * n + col) * block)).take block).length = block := by
  have h1 : (t + 1) * n ≤ d * n := Nat.mul_le_mul_right n ht
  have h2 : (t * n + col + 1) * block ≤ d * n * block := by
    apply Nat.mul_le_mul_right
    rw [Nat.succ_mul] at h1
    omega
  rw [Nat.succ_mul] at h2
  rw [List.length_take, List.length_drop]
  omega

theorem columnOf_length {l : List α} {d n col block : ℕ} (hl : l.length = d * n * block)
    (hcol : col < n) : (columnOf l d n col block).length = d * block :=
  length_flatMap_range fun _ ht => column_cell hl hcol ht

/-- A row of a column. -/
theorem columnOf_row {l : List α} {d n col block t : ℕ} (hl : l.length = d * n * block) (hcol : col < n)
    (ht : t < d) : ((columnOf l d n col block).drop (t * block)).take block =
      (l.drop ((t * n + col) * block)).take block := by
  have h := take_drop_flatMap_range (fun t ht => column_cell hl hcol ht) ht
    (show 0 + block ≤ block by omega)
  rw [Nat.add_zero, List.drop_zero, List.take_take, Nat.min_self] at h
  exact h

/-- **Pinned axes.**  A box of one column is a box of the column. -/
theorem hyperslab_column {w d n : ℕ} {shape : List ℕ} {r : ℕ × ℕ} {ranges : List (ℕ × ℕ)}
    (hr : r.2 ≤ d) (hranges : InBounds ranges shape) {l : List α}
    (hl : l.length = d * n * (shape.prod * w)) {col : ℕ} (hcol : col < n) :
    hyperslab w (d :: n :: shape) (r :: (col, col + 1) :: ranges) l =
      hyperslab w (d :: shape) (r :: ranges) (columnOf l d n col (shape.prod * w)) := by
  rw [hyperslab, hyperslab]
  refine List.flatMap_congr fun t ht => ?_
  have htd : t < d := by
    have := List.mem_range'_1.mp ht
    omega
  rw [hyperslab, Nat.add_sub_cancel_left, List.range'_one, List.flatMap_cons, List.flatMap_nil,
    List.append_nil, ← hyperslab_take hranges le_rfl, ← hyperslab_take hranges le_rfl (List.drop _ _),
    columnOf_row hl hcol htd, List.drop_drop, List.prod_cons]
  congr 3
  ring

end

end InfraStore.Lib
