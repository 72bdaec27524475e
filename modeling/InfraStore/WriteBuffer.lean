import InfraStore.Storage

/-!
# The write buffer

The packed arrays an open transaction has accepted and not yet written, a block a pool, and the index
from a hash to its block and position.

* `accept`, `remove`, `written`, `putBack`: the code's changes to the blocks and the index;
* `WriteBuffer.Indexed`: the index names exactly the blocks' items, each of them in its own pool;
* what each change does to `get`, from that invariant.
-/

namespace InfraStore

open Lib

/-! ### Pool sizes -/

/-- Byte budget of one chunk. -/
def maxChunkBytes : ℕ := 2 ^ 20

/-- The largest `usize`. -/
def usizeMax : ℕ := usizeBound - 1

/-- `usize::saturating_mul`. -/
def saturatingMul (a b : ℕ) : ℕ := min (a * b) usizeMax

/-- Bytes of one element block. -/
def elementBlockBytes (dtype : Dtype) (elementShape : List ℕ) : ℕ := elementShape.prod * dtype.size

/-- How wide a dataset may be: the requested width, within what one chunk may hold. -/
def resolveDatasetCols (requested : Option ℕ) (dtype : Dtype) (elementShape : List ℕ) : ℕ :=
  let cap := max (maxChunkBytes / max (elementBlockBytes dtype elementShape) 1) 1
  min (max (requested.getD 1000) 1) cap

/-! ### Blocks -/

/-- What a packed pool is keyed by: the array's physical shape and its time axis. -/
structure PoolKey (H : Type) where
  dtype : Dtype
  elementShape : List ℕ
  length : ℕ
  group : PackGroup H
  deriving DecidableEq

/-- The pool of an array. -/
def poolKey {H : Type} (a : TypedArray) (group : PackGroup H) : PoolKey H :=
  { dtype := a.dtype, elementShape := a.elementShape, length := a.length, group }

/-- The arrays of one pool have one dtype and one shape. -/
theorem poolKey_shape {H : Type} {a a' : TypedArray} {g : PackGroup H}
    (ha : a.Storable) (ha' : a'.Storable) (h : poolKey a g = poolKey a' g) :
    a.dtype = a'.dtype ∧ a.shape = a'.shape := by
  injection h with hd hsh hl
  obtain ⟨n, t, hn⟩ := List.exists_cons_of_ne_nil ha.2
  obtain ⟨n', t', hn'⟩ := List.exists_cons_of_ne_nil ha'.2
  unfold TypedArray.elementShape at hsh
  unfold TypedArray.length at hl
  rw [hn, hn'] at hsh hl ⊢
  exact ⟨hd, by rw [show n = n' from hl, show t = t' from hsh]⟩

/-- One pool's unwritten arrays, in arrival order. -/
structure Block (H : Type) where
  items : List (H × TypedArray)
  bytes : ℕ

/-- The buffered arrays, a block a pool, and each buffered hash's pool and position. -/
structure WriteBuffer (H : Type) where
  blocks : FMap (PoolKey H) (Block H)
  byHash : FMap H (PoolKey H × ℕ)
  bytes : ℕ
  maxBytes : ℕ

/-- `Vec::swap_remove`: the last element takes the place of the removed one. -/
def swapRemove {α : Type} (l : List α) (i : ℕ) : List α :=
  match l.getLast? with
  | none => []
  | some x => (l.set i x).dropLast

namespace WriteBuffer

variable {H : Type} [DecidableEq H]

/-- An empty buffer with the default budget. -/
def new : WriteBuffer H := { blocks := ∅, byHash := ∅, bytes := 0, maxBytes := 128 * 2 ^ 20 }

def isEmpty (w : WriteBuffer H) : Bool := w.byHash.keys = []

def contains (w : WriteBuffer H) (h : H) : Bool := (FMap.get w.byHash h).isSome

/-- The buffered array under a hash. -/
def get (w : WriteBuffer H) (h : H) : Option TypedArray :=
  match FMap.get w.byHash h with
  | none => none
  | some (key, i) =>
    match FMap.get w.blocks key with
    | none => none
    | some block => (block.items[i]?).map Prod.snd

/-- The width one block grows to before it is written. -/
def widthCap (w : WriteBuffer H) (dtype : Dtype) (elementShape : List ℕ) (length : ℕ) : ℕ :=
  let perColumn := max (saturatingMul length (elementBlockBytes dtype elementShape)) 1
  min (resolveDatasetCols (some usizeMax) dtype elementShape) (max (w.maxBytes / perColumn) 1)

/-- Join an array to its pool's block. -/
def accept (w : WriteBuffer H) (h : H) (a : TypedArray) (group : PackGroup H) : WriteBuffer H :=
  let key := poolKey a group
  let block := (FMap.get w.blocks key).getD ⟨[], 0⟩
  { w with
    blocks := w.blocks.insert key ⟨block.items ++ [(h, a)], block.bytes + a.bytes.length⟩
    byHash := w.byHash.insert h (key, block.items.length)
    bytes := w.bytes + a.bytes.length }

/-- Drop a buffered array; `false` if the hash was not buffered. -/
def remove (w : WriteBuffer H) (h : H) : Bool × WriteBuffer H :=
  match FMap.get w.byHash h with
  | none => (false, w)
  | some (key, i) =>
    let index := w.byHash.erase h
    match FMap.get w.blocks key with
    | none => (true, { w with byHash := index })
    | some block =>
      let items := swapRemove block.items i
      let dropped := ((block.items[i]?).map fun it => it.2.bytes.length).getD 0
      (true,
        { w with
          blocks := if items = [] then w.blocks.erase key
            else w.blocks.insert key ⟨items, block.bytes - dropped⟩
          byHash := match items[i]? with
            | some moved => index.insert moved.1 (key, i)
            | none => index
          bytes := w.bytes - dropped })

/-- The index once a block has been written: the skipped items at their new positions, the others
gone. -/
def reindex (key : PoolKey H) (skip : List H) :
    ℕ → List (H × TypedArray) → FMap H (PoolKey H × ℕ) → FMap H (PoolKey H × ℕ)
  | _, [], m => m
  | i, it :: items, m =>
    if it.1 ∈ skip then reindex key skip (i + 1) items (m.insert it.1 (key, i))
    else reindex key skip i items (m.erase it.1)

/-- The buffer once a block has been written: its skipped items stay, in their order. -/
def written (w : WriteBuffer H) (key : PoolKey H) (block : Block H) (skip : List H) :
    WriteBuffer H :=
  let kept := block.items.filter (·.1 ∈ skip)
  let keptBytes := (kept.map fun it => it.2.bytes.length).sum
  { w with
    blocks := if kept = [] then w.blocks.erase key
      else (w.blocks.erase key).insert key ⟨kept, keptBytes⟩
    byHash := reindex key skip 0 block.items w.byHash
    bytes := w.bytes - block.bytes + keptBytes }

/-- The buffer with a block put back as it was, after its write failed. -/
def putBack (w : WriteBuffer H) (key : PoolKey H) (block : Block H) : WriteBuffer H :=
  { w with
    blocks := (w.blocks.erase key).insert key block
    bytes := w.bytes - block.bytes + block.bytes }

/-- The block with the most bytes, the last of several. -/
def widest (w : WriteBuffer H) : Option (PoolKey H) :=
  (w.blocks.entries.foldl (fun (best : Option (PoolKey H × ℕ)) e =>
    match best with
    | some (_, n) => if n ≤ e.2.bytes then some (e.1, e.2.bytes) else best
    | none => some (e.1, e.2.bytes)) none).map Prod.fst

/-! ### The index invariant -/

/-- The item at a position of a pool's block. -/
def item (w : WriteBuffer H) (k : PoolKey H) (i : ℕ) : Option (H × TypedArray) :=
  (FMap.get w.blocks k).bind (·.items[i]?)

/-- The index names exactly the blocks' items, each of them in its own pool. -/
structure Indexed (w : WriteBuffer H) : Prop where
  index (h : H) (k : PoolKey H) (i : ℕ) :
    FMap.get w.byHash h = some (k, i) ↔ ∃ a, w.item k i = some (h, a)
  pooled {k : PoolKey H} {i : ℕ} {h : H} {a : TypedArray} :
    w.item k i = some (h, a) → a.Storable ∧ poolKey a k.group = k

theorem item_of_block {w : WriteBuffer H} {k : PoolKey H} {block : Block H}
    (hb : FMap.get w.blocks k = some block) (i : ℕ) : w.item k i = block.items[i]? := by
  unfold item
  rw [hb]
  rfl

theorem get_eq (w : WriteBuffer H) (h : H) :
    w.get h = (FMap.get w.byHash h).bind fun e => (w.item e.1 e.2).map Prod.snd := by
  unfold get item
  rcases FMap.get w.byHash h with _ | ⟨k, i⟩
  · rfl
  · rcases hb : FMap.get w.blocks k with _ | block
    · simp [hb]
    · simp [hb]

/-- What an indexed buffer holds under a hash is an item of one of its blocks. -/
theorem Indexed.get_eq_some {w : WriteBuffer H} (hw : w.Indexed) {h : H} {a : TypedArray} :
    w.get h = some a ↔ ∃ k i, w.item k i = some (h, a) := by
  rw [get_eq, Option.bind_eq_some_iff]
  constructor
  · rintro ⟨⟨k, i⟩, hi, ha⟩
    obtain ⟨b, hb⟩ := (hw.index h k i).mp hi
    rw [hb] at ha
    cases ha
    exact ⟨k, i, hb⟩
  · rintro ⟨k, i, hi⟩
    exact ⟨(k, i), (hw.index h k i).mpr ⟨a, hi⟩, by rw [hi]; rfl⟩

theorem Indexed.contains_eq {w : WriteBuffer H} (hw : w.Indexed) (h : H) :
    w.contains h = (w.get h).isSome := by
  unfold contains
  rw [get_eq]
  rcases hi : FMap.get w.byHash h with _ | ⟨k, i⟩
  · rfl
  · obtain ⟨a, ha⟩ := (hw.index h k i).mp hi
    simp [ha]

/-- A hash has one position. -/
theorem Indexed.position_unique {w : WriteBuffer H} (hw : w.Indexed) {h : H} {k k' : PoolKey H}
    {i i' : ℕ} {a a' : TypedArray} (hi : w.item k i = some (h, a)) (hi' : w.item k' i' = some (h, a')) :
    k = k' ∧ i = i' := by
  have e := ((hw.index h k i).mpr ⟨a, hi⟩).symm.trans ((hw.index h k' i').mpr ⟨a', hi'⟩)
  simpa using e

theorem Indexed.nodup {w : WriteBuffer H} (hw : w.Indexed) {k : PoolKey H} {block : Block H}
    (hb : FMap.get w.blocks k = some block) : (block.items.map Prod.fst).Nodup := by
  rw [List.nodup_iff_getElem?_ne_getElem?]
  intro i j hij hj he
  rw [List.length_map] at hj
  have hi := hij.trans hj
  simp only [List.getElem?_map, List.getElem?_eq_getElem hi, List.getElem?_eq_getElem hj,
    Option.map_some, Option.some.injEq] at he
  have h1 : w.item k i = some (block.items[i].1, block.items[i].2) := by
    rw [item_of_block hb, List.getElem?_eq_getElem hi]
  have h2 : w.item k j = some (block.items[i].1, block.items[j].2) := by
    rw [item_of_block hb, List.getElem?_eq_getElem hj, he]
  have e := hw.position_unique h1 h2
  omega

/-- A buffer that holds nothing is empty. -/
theorem Indexed.isEmpty {w : WriteBuffer H} (hw : w.Indexed) (h : ∀ x, w.get x = none) :
    w.isEmpty = true := by
  unfold WriteBuffer.isEmpty
  rw [decide_eq_true_eq, List.eq_nil_iff_forall_not_mem]
  intro x hx
  have hc : w.contains x = true := (FMap.mem_iff_isSome _ _).mp (AList.mem_keys.mp hx)
  rw [hw.contains_eq, h] at hc
  cases hc

/-- An indexed buffer is one up to the order its maps are kept in. -/
theorem Indexed.congr {w w' : WriteBuffer H} (hw : w.Indexed)
    (hb : FMap.get w'.blocks = FMap.get w.blocks) (hh : FMap.get w'.byHash = FMap.get w.byHash) :
    w'.Indexed ∧ w'.get = w.get := by
  have hi : w'.item = w.item := by
    funext k i
    unfold item
    rw [hb]
  refine ⟨⟨fun h k i => ?_, fun h => hw.pooled (by rwa [← hi])⟩, ?_⟩
  · rw [hh, hi]
    exact hw.index h k i
  · funext h
    rw [get_eq, get_eq, hh, hi]

theorem new_indexed : (new : WriteBuffer H).Indexed ∧ ∀ h, (new : WriteBuffer H).get h = none := by
  have hi : ∀ k i, (new : WriteBuffer H).item k i = none := fun k i => by
    show (FMap.get ∅ k).bind _ = _
    rw [FMap.get_empty]
    rfl
  refine ⟨⟨fun h k i => ?_, fun h => ?_⟩, fun h => ?_⟩
  · rw [hi, show FMap.get (new : WriteBuffer H).byHash h = none from FMap.get_empty h]
    simp
  · rw [hi] at h
    cases h
  · rw [get_eq, show FMap.get (new : WriteBuffer H).byHash h = none from FMap.get_empty h]
    rfl

/-! ### Accepting -/

theorem item_accept (w : WriteBuffer H) (h : H) (a : TypedArray) (g : PackGroup H) (k : PoolKey H)
    (i : ℕ) :
    (w.accept h a g).item k i =
      if k = poolKey a g ∧ i = (((FMap.get w.blocks k).getD ⟨[], 0⟩).items).length then some (h, a)
      else w.item k i := by
  unfold item accept
  simp only [FMap.get_insert]
  by_cases hk : k = poolKey a g
  · subst hk
    rw [Function.update_self]
    simp only [Option.bind_some, true_and]
    rcases hb : FMap.get w.blocks (poolKey a g) with _ | block
    · simp only [Option.getD_none, List.nil_append, List.length_nil, Option.bind_none]
      split
      · subst i; rfl
      · rw [List.getElem?_eq_none (by simp; omega)]
    · simp only [Option.getD_some, Option.bind_some]
      split
      · subst i
        simp
      · rcases Nat.lt_or_ge i block.items.length with hi | hi
        · rw [List.getElem?_append_left hi]
        · rw [List.getElem?_eq_none (by simp; omega), List.getElem?_eq_none hi]
  · rw [Function.update_of_ne hk, if_neg (fun e => hk e.1)]

theorem item_end (w : WriteBuffer H) (k : PoolKey H) :
    w.item k (((FMap.get w.blocks k).getD ⟨[], 0⟩).items).length = none := by
  unfold item
  rcases FMap.get w.blocks k with _ | block
  · rfl
  · simp

/-- Accepting a hash that is not buffered adds its array and keeps the rest. -/
theorem Indexed.accept {w : WriteBuffer H} (hw : w.Indexed) {h : H} {a : TypedArray}
    (g : PackGroup H) (hn : w.get h = none) (ha : a.Storable) :
    (w.accept h a g).Indexed ∧ (w.accept h a g).get = Function.update w.get h (some a) := by
  have hnone : ∀ k i b, w.item k i ≠ some (h, b) := by
    intro k i b hb
    rw [(hw.get_eq_some).mpr ⟨k, i, hb⟩] at hn
    cases hn
  have hix : (w.accept h a g).Indexed := by
    refine ⟨fun h' k i => ?_, fun {k i h' a'} hi => ?_⟩
    · show FMap.get (w.byHash.insert h _) h' = _ ↔ _
      rw [FMap.get_insert, item_accept]
      by_cases hh : h' = h
      · subst hh
        rw [Function.update_self]
        constructor
        · intro e
          cases e
          exact ⟨a, by rw [if_pos ⟨rfl, rfl⟩]⟩
        · rintro ⟨b, hb⟩
          split at hb
          · rename_i hc
            obtain ⟨rfl, rfl⟩ := hc
            rfl
          · exact absurd hb (hnone k i b)
      · rw [Function.update_of_ne hh, hw.index]
        refine exists_congr fun b => ?_
        split
        · rename_i hc
          constructor
          · intro hb
            rw [hc.2, item_end] at hb
            cases hb
          · intro hb
            cases hb
            exact absurd rfl hh
        · rfl
    · rw [item_accept] at hi
      split at hi
      · rename_i hc
        cases hi
        exact ⟨ha, by rw [hc.1]; rfl⟩
      · exact hw.pooled hi
  refine ⟨hix, ?_⟩
  funext h'
  by_cases hh : h' = h
  · subst hh
    rw [Function.update_self, hix.get_eq_some]
    exact ⟨_, _, by rw [item_accept, if_pos ⟨rfl, rfl⟩]⟩
  · rw [Function.update_of_ne hh]
    refine Option.ext fun b => ?_
    show _ = some b ↔ _ = some b
    rw [hix.get_eq_some, hw.get_eq_some]
    refine exists_congr fun k => exists_congr fun i => ?_
    rw [item_accept]
    split
    · rename_i hc
      constructor
      · intro hb
        cases hb
        exact absurd rfl hh
      · intro hb
        rw [hc.2, item_end] at hb
        cases hb
    · rfl


/-! ### Removing -/

theorem swapRemove_getElem? {α : Type} {l : List α} {i : ℕ} (hi : i < l.length) (j : ℕ) :
    (swapRemove l i)[j]? =
      if j + 1 < l.length then (if j = i then l[l.length - 1]? else l[j]?) else none := by
  unfold swapRemove
  rcases hl : l.getLast? with _ | x
  · rw [List.getLast?_eq_none_iff.mp hl] at hi
    cases hi
  · rw [List.getLast?_eq_getElem?] at hl
    simp only [List.getElem?_dropLast, List.length_set, List.getElem?_set]
    split <;> rename_i hj
    · rw [if_pos (by omega : j + 1 < l.length)]
      by_cases e : i = j
      · subst e
        simp [hl]
      · rw [if_neg e, if_neg (Ne.symm e)]
    · rw [if_neg (by omega)]

/-- The item a removal moves into the hole it leaves, unless the hole is at the end. -/
theorem byHash_remove {w : WriteBuffer H} {h : H} {key : PoolKey H} {i : ℕ} {block : Block H}
    (hh : FMap.get w.byHash h = some (key, i)) (hb : FMap.get w.blocks key = some block) :
    FMap.get (w.remove h).2.byHash =
      match (swapRemove block.items i)[i]? with
      | some moved =>
        Function.update (Function.update (FMap.get w.byHash) h none) moved.1 (some (key, i))
      | none => Function.update (FMap.get w.byHash) h none := by
  unfold remove
  rw [hh]
  rcases hm : (swapRemove block.items i)[i]? with _ | moved
  · simp only [hb, hm, FMap.get_erase]
  · simp only [hb, hm, FMap.get_insert, FMap.get_erase]

theorem item_remove {w : WriteBuffer H} {h : H} {key : PoolKey H} {i : ℕ} {block : Block H}
    (hh : FMap.get w.byHash h = some (key, i)) (hb : FMap.get w.blocks key = some block)
    (k : PoolKey H) (j : ℕ) :
    (w.remove h).2.item k j = if k = key then (swapRemove block.items i)[j]? else w.item k j := by
  unfold remove item
  rw [hh]
  simp only [hb]
  by_cases hk : k = key
  · subst hk
    rw [if_pos rfl]
    split
    · rename_i he
      rw [FMap.get_erase, Function.update_self, he]
      rfl
    · rw [FMap.get_insert, Function.update_self]
      rfl
  · rw [if_neg hk]
    split
    · rw [FMap.get_erase, Function.update_of_ne hk]
    · rw [FMap.get_insert, Function.update_of_ne hk]

/-- Removing a hash drops its array and keeps the rest; the flag says whether it was there. -/
theorem Indexed.remove {w : WriteBuffer H} (hw : w.Indexed) (h : H) :
    (w.remove h).1 = (w.get h).isSome ∧ (w.remove h).2.Indexed ∧
      (w.remove h).2.get = Function.update w.get h none := by
  rcases hh : FMap.get w.byHash h with _ | ⟨key, i⟩
  · have hn : w.get h = none := by
      rw [get_eq, hh]
      rfl
    have hr : w.remove h = (false, w) := by
      unfold WriteBuffer.remove
      rw [hh]
    rw [hr, hn]
    refine ⟨rfl, hw, ?_⟩
    rw [← hn, Function.update_eq_self]
  obtain ⟨a, ha⟩ := (hw.index h key i).mp hh
  rcases hb : FMap.get w.blocks key with _ | block
  · unfold item at ha
    rw [hb] at ha
    cases ha
  have hit : ∀ j, w.item key j = block.items[j]? := item_of_block hb
  have hi : block.items[i]? = some (h, a) := by rw [← hit, ha]
  obtain ⟨hlt, -⟩ := List.getElem?_eq_some_iff.mp hi
  -- the new position of every item: the last one moves into the hole
  have hitem : ∀ k j h' b, (w.remove h).2.item k j = some (h', b) ↔
      h' ≠ h ∧ ((k = key ∧ j = i ∧ w.item key (block.items.length - 1) = some (h', b)) ∨
        (w.item k j = some (h', b) ∧ ¬ (k = key ∧ j + 1 = block.items.length))) := by
    intro k j h' b
    rw [item_remove hh hb]
    by_cases hk : k = key
    · subst hk
      rw [if_pos rfl, swapRemove_getElem? hlt, hit, hit]
      have hu : ∀ j', block.items[j']? = some (h, b) → j' = i := fun j' e =>
        (hw.position_unique (by rw [hit, e]) ha).2
      have hend : ∀ j', block.items.length ≤ j' → block.items[j']? = none :=
        fun j' e => List.getElem?_eq_none e
      grind
    · rw [if_neg hk]
      constructor
      · intro e
        refine ⟨?_, Or.inr ⟨e, fun c => hk c.1⟩⟩
        rintro rfl
        exact hk (hw.position_unique e ha).1
      · rintro ⟨-, ⟨c, -⟩ | ⟨e, -⟩⟩
        · exact absurd c hk
        · exact e
  have hix : (w.remove h).2.Indexed := by
    refine ⟨fun h' k j => ?_, fun {k j h' b} e => ?_⟩
    · simp only [hitem, byHash_remove hh hb, swapRemove_getElem? hlt, if_true]
      by_cases hend : i + 1 < block.items.length
      · obtain ⟨m, hm⟩ : ∃ m, block.items[block.items.length - 1]? = some m :=
          ⟨_, List.getElem?_eq_getElem (by omega)⟩
        have hmi : w.item key (block.items.length - 1) = some (m.1, m.2) := by rw [hit, hm]
        have hne : m.1 ≠ h := by
          intro e
          have := (hw.position_unique (e ▸ hmi) ha).2
          omega
        rw [if_pos hend, hm]
        by_cases e1 : h' = m.1
        · subst e1
          simp only [Function.update_self, hmi, Option.some.injEq, Prod.mk.injEq]
          constructor
          · rintro ⟨rfl, rfl⟩
            exact ⟨m.2, hne, Or.inl ⟨rfl, rfl, trivial, rfl⟩⟩
          · rintro ⟨b, -, ⟨rfl, rfl, -⟩ | ⟨e, c⟩⟩
            · exact ⟨rfl, rfl⟩
            · obtain ⟨rfl, rfl⟩ := hw.position_unique e hmi
              exact absurd ⟨rfl, by omega⟩ c
        · simp only [Function.update_of_ne e1]
          by_cases e2 : h' = h
          · subst e2
            simp
          · rw [Function.update_of_ne e2, hw.index]
            refine exists_congr fun b => ⟨fun e => ⟨e2, Or.inr ⟨e, ?_⟩⟩, ?_⟩
            · rintro ⟨rfl, hj⟩
              rw [show j = block.items.length - 1 by omega, hmi] at e
              cases e
              exact e1 rfl
            · rintro ⟨-, ⟨-, -, e⟩ | ⟨e, -⟩⟩
              · rw [hmi] at e
                cases e
                exact absurd rfl e1
              · exact e
      · rw [if_neg hend]
        have hlast : i = block.items.length - 1 := by omega
        simp only [← hlast, ha]
        by_cases e2 : h' = h
        · subst e2
          simp
        · rw [Function.update_of_ne e2, hw.index]
          refine exists_congr fun b => ⟨fun e => ⟨e2, Or.inr ⟨e, ?_⟩⟩, ?_⟩
          · rintro ⟨rfl, hj⟩
            rw [show j = i by omega, ha] at e
            cases e
            exact e2 rfl
          · rintro ⟨-, ⟨-, -, e⟩ | ⟨e, -⟩⟩
            · cases e
              exact absurd rfl e2
            · exact e
    · obtain ⟨-, ⟨rfl, -, e⟩ | ⟨e, -⟩⟩ := (hitem k j h' b).mp e
      · exact hw.pooled e
      · exact hw.pooled e
  refine ⟨?_, hix, ?_⟩
  · rw [(hw.get_eq_some).mpr ⟨key, i, ha⟩]
    unfold WriteBuffer.remove
    rw [hh]
    simp only [hb]
    rfl
  · funext h'
    refine Option.ext fun b => ?_
    show _ = some b ↔ _ = some b
    rw [hix.get_eq_some]
    simp only [hitem]
    by_cases e : h' = h
    · subst e
      simp
    · rw [Function.update_of_ne e, hw.get_eq_some]
      constructor
      · rintro ⟨k, j, -, ⟨-, -, e'⟩ | ⟨e', -⟩⟩
        · exact ⟨_, _, e'⟩
        · exact ⟨_, _, e'⟩
      · rintro ⟨k, j, e'⟩
        by_cases c : k = key ∧ j + 1 = block.items.length
        · obtain ⟨rfl, hj⟩ := c
          exact ⟨k, i, e, Or.inl ⟨rfl, rfl, by rw [show block.items.length - 1 = j by omega, e']⟩⟩
        · exact ⟨k, j, e, Or.inr ⟨e', c⟩⟩

/-! ### Writing out -/

/-- The index after a block of distinct hashes is written: the skipped items take the positions they
have among themselves, the others are gone. -/
theorem reindex_get (key : PoolKey H) (skip : List H) (items : List (H × TypedArray)) :
    ∀ (n : ℕ) (m : FMap H (PoolKey H × ℕ)), (items.map Prod.fst).Nodup → ∀ h k i,
      FMap.get (reindex key skip n items m) h = some (k, i) ↔
        if h ∈ items.map Prod.fst then
          k = key ∧ n ≤ i ∧ ∃ a, (items.filter (·.1 ∈ skip))[i - n]? = some (h, a)
        else FMap.get m h = some (k, i) := by
  induction items with
  | nil =>
    intro n m _ h k i
    rfl
  | cons it items ih =>
    intro n m hnd h k i
    obtain ⟨hnot, hnd⟩ := List.nodup_cons.mp hnd
    rw [List.map_cons]
    unfold reindex
    by_cases hs : it.1 ∈ skip
    · rw [if_pos hs, ih _ _ hnd, List.filter_cons_of_pos (by simpa using hs)]
      by_cases hm : h ∈ items.map Prod.fst
      · rw [if_pos hm, if_pos (List.mem_cons_of_mem _ hm)]
        refine and_congr_right fun _ => ?_
        constructor
        · rintro ⟨hn, a, e⟩
          exact ⟨by omega, a, by rw [show i - n = (i - (n + 1)) + 1 by omega]; exact e⟩
        · rintro ⟨hn, a, e⟩
          rcases Nat.eq_or_lt_of_le hn with rfl | hlt
          · rw [Nat.sub_self] at e
            cases e
            exact absurd hm hnot
          · rw [show i - n = (i - (n + 1)) + 1 by omega] at e
            exact ⟨hlt, a, e⟩
      · rw [if_neg hm, FMap.get_insert]
        by_cases he : h = it.1
        · subst he
          rw [Function.update_self, if_pos (List.mem_cons_self ..)]
          constructor
          · intro e
            cases e
            exact ⟨rfl, le_rfl, it.2, by rw [Nat.sub_self]; rfl⟩
          · rintro ⟨rfl, hn, a, e⟩
            rcases Nat.eq_or_lt_of_le hn with rfl | hlt
            · rfl
            · rw [show i - n = (i - (n + 1)) + 1 by omega] at e
              have hmem := List.mem_of_mem_filter (List.mem_of_getElem? e)
              exact absurd (List.mem_map_of_mem (f := Prod.fst) hmem) hm
        · rw [Function.update_of_ne he, if_neg (by simp [he] at hm ⊢; exact hm)]
    · rw [if_neg hs, ih _ _ hnd, List.filter_cons_of_neg (by simpa using hs)]
      by_cases hm : h ∈ items.map Prod.fst
      · rw [if_pos hm, if_pos (List.mem_cons_of_mem _ hm)]
      · rw [if_neg hm, FMap.get_erase]
        by_cases he : h = it.1
        · subst he
          rw [Function.update_self, if_pos (List.mem_cons_self ..)]
          constructor
          · intro e
            cases e
          · rintro ⟨-, -, a, e⟩
            have hmem := List.mem_filter.mp (List.mem_of_getElem? e)
            exact absurd (by simpa using hmem.2) hs
        · rw [Function.update_of_ne he, if_neg (by simp [he] at hm ⊢; exact hm)]

theorem item_written {w : WriteBuffer H} {key : PoolKey H} {block : Block H} (skip : List H)
    (k : PoolKey H) (j : ℕ) :
    (w.written key block skip).item k j =
      if k = key then (block.items.filter (·.1 ∈ skip))[j]? else w.item k j := by
  unfold written item
  by_cases hk : k = key
  · subst hk
    rw [if_pos rfl]
    simp only
    split
    · rename_i he
      rw [FMap.get_erase, Function.update_self, he]
      rfl
    · rw [FMap.get_insert, Function.update_self]
      rfl
  · rw [if_neg hk]
    simp only
    split
    · rw [FMap.get_erase, Function.update_of_ne hk]
    · rw [FMap.get_insert, Function.update_of_ne hk, FMap.get_erase, Function.update_of_ne hk]

/-- Writing a block out drops its items but for the skipped ones. -/
theorem Indexed.written {w : WriteBuffer H} (hw : w.Indexed) {key : PoolKey H} {block : Block H}
    (hb : FMap.get w.blocks key = some block) (skip : List H) :
    (w.written key block skip).Indexed ∧ ∀ h, (w.written key block skip).get h =
      if h ∈ block.items.map Prod.fst ∧ h ∉ skip then none else w.get h := by
  have hit : ∀ j, w.item key j = block.items[j]? := item_of_block hb
  have hmem : ∀ {h a}, (h, a) ∈ block.items → ∃ j, w.item key j = some (h, a) := by
    intro h a e
    obtain ⟨j, hj⟩ := List.getElem?_of_mem e
    exact ⟨j, by rw [hit, hj]⟩
  have hin : ∀ {h k j a}, w.item k j = some (h, a) → h ∈ block.items.map Prod.fst → k = key := by
    intro h k j a e hh
    obtain ⟨⟨h', b⟩, hb', rfl⟩ := List.mem_map.mp hh
    obtain ⟨j', hj'⟩ := hmem hb'
    exact (hw.position_unique e hj').1
  have hkey : ∀ {h j a}, w.item key j = some (h, a) → h ∈ block.items.map Prod.fst := by
    intro h j a e
    rw [hit] at e
    exact List.mem_map_of_mem (f := Prod.fst) (List.mem_of_getElem? e)
  have hix : (w.written key block skip).Indexed := by
    refine ⟨fun h k j => ?_, fun {k j h a} e => ?_⟩
    · show FMap.get (reindex key skip 0 block.items w.byHash) h = some (k, j) ↔ _
      rw [reindex_get _ _ _ _ _ (hw.nodup hb)]
      simp only [item_written, Nat.zero_le, true_and, Nat.sub_zero]
      by_cases hh : h ∈ block.items.map Prod.fst
      · rw [if_pos hh]
        constructor
        · rintro ⟨rfl, a, e⟩
          exact ⟨a, by rw [if_pos rfl]; exact e⟩
        · rintro ⟨a, e⟩
          split at e
          · rename_i hk
            exact ⟨hk, a, e⟩
          · rename_i hk
            exact absurd (hin e hh) hk
      · rw [if_neg hh, hw.index]
        refine exists_congr fun a => ?_
        split
        · rename_i hk
          subst hk
          constructor
          · intro e
            exact absurd (hkey e) hh
          · intro e
            have := List.mem_of_mem_filter (List.mem_of_getElem? e)
            exact absurd (List.mem_map_of_mem (f := Prod.fst) this) hh
        · rfl
    · rw [item_written] at e
      split at e
      · rename_i hk
        subst hk
        obtain ⟨j', hj'⟩ := hmem (List.mem_of_mem_filter (List.mem_of_getElem? e))
        exact hw.pooled hj'
      · exact hw.pooled e
  refine ⟨hix, fun h => Option.ext fun a => ?_⟩
  show _ = some a ↔ _ = some a
  rw [hix.get_eq_some]
  simp only [item_written]
  by_cases hh : h ∈ block.items.map Prod.fst
  · by_cases hs : h ∈ skip
    · rw [if_neg (fun c => c.2 hs), hw.get_eq_some]
      constructor
      · rintro ⟨k, j, e⟩
        split at e
        · obtain ⟨j', hj'⟩ := hmem (List.mem_of_mem_filter (List.mem_of_getElem? e))
          exact ⟨_, _, hj'⟩
        · exact ⟨_, _, e⟩
      · rintro ⟨k, j, e⟩
        have hk := hin e hh
        subst hk
        rw [hit] at e
        have : (h, a) ∈ block.items.filter (·.1 ∈ skip) :=
          List.mem_filter.mpr ⟨List.mem_of_getElem? e, by simpa using hs⟩
        obtain ⟨j', hj'⟩ := List.getElem?_of_mem this
        exact ⟨k, j', by rw [if_pos rfl]; exact hj'⟩
    · rw [if_pos ⟨hh, hs⟩]
      constructor
      · rintro ⟨k, j, e⟩
        split at e
        · have := (List.mem_filter.mp (List.mem_of_getElem? e)).2
          exact absurd (by simpa using this) hs
        · rename_i hk
          exact absurd (hin e hh) hk
      · intro e
        cases e
  · rw [if_neg (fun c => hh c.1), hw.get_eq_some]
    refine exists_congr fun k => exists_congr fun j => ?_
    split
    · rename_i hk
      subst hk
      constructor
      · intro e
        have := List.mem_of_mem_filter (List.mem_of_getElem? e)
        exact absurd (List.mem_map_of_mem (f := Prod.fst) this) hh
      · intro e
        exact absurd (hkey e) hh
    · rfl

theorem Indexed.putBack {w : WriteBuffer H} (hw : w.Indexed) {key : PoolKey H} {block : Block H}
    (hb : FMap.get w.blocks key = some block) :
    (w.putBack key block).Indexed ∧ (w.putBack key block).get = w.get := by
  refine hw.congr ?_ rfl
  show FMap.get ((w.blocks.erase key).insert key block) = _
  rw [FMap.get_insert, FMap.get_erase, Function.update_idem, ← hb, Function.update_eq_self]

end WriteBuffer

end InfraStore
