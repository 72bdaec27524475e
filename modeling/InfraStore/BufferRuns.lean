import InfraStore.Invariant

/-!
# Runs of the write buffer

Calls on the write buffer one after the other, over a backend whose writes may fail.

* `FMap.total`: the sum of a figure over a map's values, and what an insertion and a removal do to it;
* `WriteBuffer.Exact`: the byte counts are the bytes that are there;
* `WriteBuffer.Spilled`: what writing does to the blocks, order included;
* `ArrayStore.Evicts`: the eviction loop as the code has it, which ends from every state;
* `ArrayStore.Kept`: the invariant of every run, and `writeBuffer_run`, what each call of a run leaves.
-/

namespace InfraStore

open Lib

/-! ### Sums over a map -/

namespace FMap

variable {K V : Type} [DecidableEq K]

/-- The sum of a figure over a map's values. -/
def total (f : V → ℕ) (m : FMap K V) : ℕ := (m.entries.map fun e => f e.2).sum

theorem total_insert (f : V → ℕ) (m : FMap K V) (k : K) (v : V) :
    total f (m.insert k v) = f v + total f (m.erase k) := by
  unfold total
  rw [AList.entries_insert]
  rfl

theorem total_erase (f : V → ℕ) (m : FMap K V) (k : K) :
    ((get m k).map f).getD 0 + total f (m.erase k) = total f m := by
  cases h : get m k with
  | none =>
    have hk : k ∉ m.entries.keys := fun c => by
      have := (mem_iff_isSome m k).mp c
      rw [h] at this
      cases this
    show 0 + ((List.kerase k m.entries).map fun e => f e.2).sum = (m.entries.map fun e => f e.2).sum
    rw [List.kerase_of_notMem_keys hk, Nat.zero_add]
  | some v =>
    have hk : k ∈ m.entries.keys := (mem_iff_isSome m k).mpr (by rw [h]; rfl)
    obtain ⟨v', l₁, l₂, -, hl, he⟩ := List.exists_of_kerase hk
    have hmem : (⟨k, v'⟩ : Sigma fun _ : K => V) ∈ m.entries := by
      rw [hl]
      simp
    have hv : v' = v := by
      have := AList.mem_lookup_iff.mpr hmem
      exact Option.some.inj ((this : get m k = some v').symm.trans h)
    show f v + ((List.kerase k m.entries).map fun e => f e.2).sum = (m.entries.map fun e => f e.2).sum
    rw [he, hl, hv]
    simp only [List.map_append, List.map_cons, List.sum_append, List.sum_cons]
    omega

end FMap

/-! ### The byte counts -/

/-- Removing by swap takes one element out. -/
theorem swapRemove_perm {α : Type} {l : List α} {i : ℕ} (hi : i < l.length) :
    (l[i] :: swapRemove l i).Perm l := by
  obtain ⟨init, x, rfl⟩ : ∃ init x, l = init ++ [x] :=
    ⟨l.dropLast, l.getLast (List.ne_nil_of_length_pos (by omega)),
      (List.dropLast_append_getLast _).symm⟩
  have hs : swapRemove (init ++ [x]) i = ((init ++ [x]).set i x).dropLast := by
    unfold swapRemove
    rw [List.getLast?_append]
    rfl
  rw [hs]
  rw [List.length_append, List.length_singleton] at hi
  rcases Nat.lt_or_ge i init.length with h | h
  · rw [List.set_append_left _ _ h, List.dropLast_concat, List.getElem_append_left h]
    calc (init[i] :: init.set i x).Perm (init[i] :: x :: init.eraseIdx i) :=
          (List.set_perm_cons_eraseIdx h x).cons _
      _ |>.Perm (x :: init[i] :: init.eraseIdx i) := List.Perm.swap _ _ _
      _ |>.Perm (x :: init) := (List.getElem_cons_eraseIdx_perm h).cons _
      _ |>.Perm (init ++ [x]) := (List.perm_append_singleton x init).symm
  · have e : i = init.length := by omega
    subst e
    simpa using (List.perm_append_singleton x init).symm

/-- What is part of a list with one more element at its end, without that element, is part of the
list. -/
theorem sublist_of_fresh {K V : Type} {log items : List (K × V)} {k : K} {v : V}
    (hsub : items.Sublist (log ++ [(k, v)])) (hfresh : ∀ (j : ℕ) (w : V), items[j]? ≠ some (k, w)) :
    items.Sublist log := by
  obtain ⟨l₁, l₂, rfl, h₁, h₂⟩ := List.sublist_append_iff.mp hsub
  cases l₂ with
  | nil => rwa [List.append_nil]
  | cons x rest =>
    have hx : x = (k, v) := List.mem_singleton.mp (h₂.subset List.mem_cons_self)
    exact absurd (by simp [hx]) (hfresh l₁.length v)

theorem sublist_swapRemove {K V : Type} {log items : List (K × V)} {k : K} {v w : V} {i : ℕ}
    (hsub : items.Sublist (log ++ [(k, v)])) (hfresh : k ∉ log.map Prod.fst)
    (hi : items[i]? = some (k, w)) : (swapRemove items i).Sublist log := by
  have hnot : ∀ {l : List (K × V)} {j : ℕ}, l.Sublist log → l[j]? ≠ some (k, w) := by
    intro l j hl e
    exact hfresh (List.mem_map_of_mem (f := Prod.fst) (hl.subset (List.mem_of_getElem? e)))
  obtain ⟨l₁, l₂, rfl, h₁, h₂⟩ := List.sublist_append_iff.mp hsub
  cases l₂ with
  | nil =>
    rw [List.append_nil] at hi
    exact absurd hi (hnot h₁)
  | cons x rest =>
    have hx : x :: rest = [(k, v)] := by
      have hl := h₂.length_le
      exact h₂.eq_of_length (by simp at hl ⊢; omega)
    rw [hx] at hi ⊢
    -- the new element can only be the last one
    have hend : i = l₁.length := by
      rcases Nat.lt_trichotomy i l₁.length with c | c | c
      · rw [List.getElem?_append_left c] at hi
        exact absurd hi (hnot h₁)
      · exact c
      · rw [List.getElem?_eq_none (by simp; omega)] at hi
        cases hi
    have hs : swapRemove (l₁ ++ [(k, v)]) i = ((l₁ ++ [(k, v)]).set i (k, v)).dropLast := by
      unfold swapRemove
      rw [List.getLast?_append]
      rfl
    rw [hs, hend, List.set_append_right _ _ le_rfl, Nat.sub_self]
    simpa using h₁

namespace WriteBuffer

variable {H : Type} [DecidableEq H]

/-- The bytes of a list of arrays. -/
def byteCount (items : List (H × TypedArray)) : ℕ := (items.map fun it => it.2.bytes.length).sum

/-- The byte counts, a block's and the buffer's, are the bytes that are there. -/
structure Exact (w : WriteBuffer H) : Prop where
  block {k : PoolKey H} {block : Block H} :
    FMap.get w.blocks k = some block → block.bytes = byteCount block.items
  total : w.bytes = FMap.total Block.bytes w.blocks

theorem new_exact : (new : WriteBuffer H).Exact := by
  constructor
  · intro k block h
    rw [show FMap.get (new : WriteBuffer H).blocks k = none from FMap.get_empty k] at h
    cases h
  · rfl

/-- What the bytes of one block and of the others add up to. -/
theorem Exact.split {w : WriteBuffer H} (hw : w.Exact) {k : PoolKey H} {block : Block H}
    (hb : FMap.get w.blocks k = some block) :
    block.bytes + FMap.total Block.bytes (w.blocks.erase k) = w.bytes := by
  have h := FMap.total_erase Block.bytes w.blocks k
  rw [hb] at h
  rw [hw.total]
  exact h

/-- A buffer whose block of one pool is replaced has exact counts if the new block has. -/
theorem Exact.replace {w w' : WriteBuffer H} (hw : w.Exact) {k : PoolKey H} {block : Block H}
    {m : FMap (PoolKey H) (Block H)} (hm : m = w.blocks ∨ m = w.blocks.erase k)
    (hblocks : w'.blocks = m.insert k block) (hblock : block.bytes = byteCount block.items)
    (hbytes : w'.bytes = block.bytes + FMap.total Block.bytes (w.blocks.erase k)) : w'.Exact := by
  have hget : ∀ k', k' ≠ k → FMap.get m k' = FMap.get w.blocks k' := by
    intro k' hne
    rcases hm with rfl | rfl
    · rfl
    · rw [FMap.get_erase, Function.update_of_ne hne]
  have herase : m.erase k = w.blocks.erase k := by
    rcases hm with rfl | rfl
    · rfl
    · exact AList.ext (List.kerase_of_notMem_keys (List.notMem_keys_kerase k w.blocks.nodupKeys))
  constructor
  · intro k' block' h
    rw [hblocks, FMap.get_insert] at h
    by_cases hk : k' = k
    · subst hk
      rw [Function.update_self] at h
      cases h
      exact hblock
    · rw [Function.update_of_ne hk, hget k' hk] at h
      exact hw.block h
  · rw [hbytes, hblocks, FMap.total_insert, herase]

/-- A buffer without the block of one pool has exact counts. -/
theorem Exact.drop {w w' : WriteBuffer H} (hw : w.Exact) {k : PoolKey H}
    (hblocks : w'.blocks = w.blocks.erase k)
    (hbytes : w'.bytes = FMap.total Block.bytes (w.blocks.erase k)) : w'.Exact := by
  constructor
  · intro k' block h
    rw [hblocks, FMap.get_erase] at h
    by_cases hk : k' = k
    · subst hk
      rw [Function.update_self] at h
      cases h
    · rw [Function.update_of_ne hk] at h
      exact hw.block h
  · rw [hbytes, hblocks]

omit [DecidableEq H] in
theorem byteCount_append (items : List (H × TypedArray)) (h : H) (a : TypedArray) :
    byteCount (items ++ [(h, a)]) = byteCount items + a.bytes.length := by
  simp [byteCount]

theorem Exact.accept {w : WriteBuffer H} (hw : w.Exact) (h : H) (a : TypedArray) (g : PackGroup H) :
    (w.accept h a g).Exact := by
  refine hw.replace (Or.inl rfl) rfl ?_ ?_
  · rw [byteCount_append]
    cases hb : FMap.get w.blocks (poolKey a g) with
    | none => rfl
    | some block => exact congrArg (· + a.bytes.length) (hw.block hb)
  · show w.bytes + a.bytes.length = _
    rw [hw.total, ← FMap.total_erase Block.bytes w.blocks (poolKey a g)]
    cases FMap.get w.blocks (poolKey a g) with
    | none => simp only [Option.map_none, Option.getD_none]; omega
    | some block => simp only [Option.map_some, Option.getD_some]; omega

/-- Removing subtracts what the removed array counts. -/
theorem Exact.remove {w : WriteBuffer H} (hw : w.Exact) (hi : w.Indexed) (h : H) :
    (w.remove h).2.Exact := by
  cases hh : FMap.get w.byHash h with
  | none =>
    rw [show w.remove h = (false, w) by unfold WriteBuffer.remove; rw [hh]]
    exact hw
  | some at' =>
    obtain ⟨key, i⟩ := at'
    obtain ⟨a, ha⟩ := (hi.index h key i).mp hh
    cases hb : FMap.get w.blocks key with
    | none =>
      unfold item at ha
      rw [hb] at ha
      cases ha
    | some block =>
      rw [item_of_block hb] at ha
      obtain ⟨hlt, hget⟩ := List.getElem?_eq_some_iff.mp ha
      -- the bytes of the removed array and of the ones that stay
      have hcount : byteCount block.items =
          a.bytes.length + byteCount (swapRemove block.items i) := by
        have hp := (swapRemove_perm hlt).map fun it : H × TypedArray => it.2.bytes.length
        rw [hget, List.map_cons] at hp
        exact hp.sum_eq.symm
      have hsplit := hw.split hb
      have hbytes := hw.block hb
      have hr : (w.remove h).2.blocks = (if swapRemove block.items i = [] then w.blocks.erase key
            else w.blocks.insert key ⟨swapRemove block.items i, block.bytes - a.bytes.length⟩) ∧
          (w.remove h).2.bytes = w.bytes - a.bytes.length := by
        unfold WriteBuffer.remove
        rw [hh]
        simp only [hb, ha]
        exact ⟨rfl, rfl⟩
      by_cases he : swapRemove block.items i = []
      · refine hw.drop (k := key) (by rw [hr.1, if_pos he]) ?_
        rw [he] at hcount
        rw [hr.2]
        have hnil : byteCount ([] : List (H × TypedArray)) = 0 := rfl
        omega
      · refine hw.replace (Or.inl rfl) (by rw [hr.1, if_neg he]) ?_ ?_
        · show block.bytes - a.bytes.length = byteCount (swapRemove block.items i)
          omega
        · rw [hr.2]
          show _ = block.bytes - a.bytes.length + _
          omega

/-- A removal leaves a block as it is, where the hash is not in it, or swaps its item out. -/
theorem remove_items {w : WriteBuffer H} (hi : w.Indexed) (h : H) {k : PoolKey H} {block' : Block H}
    (hb' : FMap.get (w.remove h).2.blocks k = some block') :
    ∃ block, FMap.get w.blocks k = some block ∧
      (block'.items = block.items ∧
          (∀ (j : ℕ) (b : TypedArray), block.items[j]? ≠ some (h, b)) ∨
        ∃ (i : ℕ) (b : TypedArray), block.items[i]? = some (h, b) ∧
          block'.items = swapRemove block.items i) := by
  cases hh : FMap.get w.byHash h with
  | none =>
    rw [show w.remove h = (false, w) by unfold WriteBuffer.remove; rw [hh]] at hb'
    refine ⟨block', hb', Or.inl ⟨rfl, fun j b e => ?_⟩⟩
    have := (hi.index h k j).mpr ⟨b, by rw [item_of_block hb', e]⟩
    rw [hh] at this
    cases this
  | some at' =>
    obtain ⟨key, i⟩ := at'
    obtain ⟨a, ha⟩ := (hi.index h key i).mp hh
    cases hb : FMap.get w.blocks key with
    | none =>
      unfold item at ha
      rw [hb] at ha
      cases ha
    | some block =>
      unfold WriteBuffer.remove at hb'
      rw [hh] at hb'
      simp only [hb] at hb'
      by_cases hk : k = key
      · subst hk
        refine ⟨block, hb, Or.inr ⟨i, a, by rw [← item_of_block hb, ha], ?_⟩⟩
        split at hb'
        · rw [FMap.get_erase, Function.update_self] at hb'
          cases hb'
        · rw [FMap.get_insert, Function.update_self] at hb'
          cases hb'
          rfl
      · have hsame : FMap.get w.blocks k = some block' := by
          split at hb'
          · rwa [FMap.get_erase, Function.update_of_ne hk] at hb'
          · rwa [FMap.get_insert, Function.update_of_ne hk] at hb'
        refine ⟨block', hsame, Or.inl ⟨rfl, fun j b e => ?_⟩⟩
        exact hk (hi.position_unique (by rw [item_of_block hsame, e]) ha).1

/-! ### What writing does to the blocks -/

/-- Arrays have left their blocks; the ones that stay keep their order, and the counts are as exact
as they were. -/
structure Spilled (w w' : WriteBuffer H) : Prop where
  exact : w.Exact → w'.Exact
  items {k : PoolKey H} {block' : Block H} : FMap.get w'.blocks k = some block' →
    ∃ block, FMap.get w.blocks k = some block ∧ block'.items.Sublist block.items
  maxBytes : w'.maxBytes = w.maxBytes

theorem Spilled.refl (w : WriteBuffer H) : Spilled w w :=
  ⟨id, fun h => ⟨_, h, List.Sublist.refl _⟩, rfl⟩

theorem Spilled.trans {w w' w'' : WriteBuffer H} (h : Spilled w w') (h' : Spilled w' w'') :
    Spilled w w'' := by
  refine ⟨h'.exact ∘ h.exact, fun hb => ?_, h'.maxBytes.trans h.maxBytes⟩
  obtain ⟨block', hb', hs'⟩ := h'.items hb
  obtain ⟨block, hb, hs⟩ := h.items hb'
  exact ⟨block, hb, hs'.trans hs⟩

theorem written_spilled {w : WriteBuffer H} {key : PoolKey H} {block : Block H}
    (hb : FMap.get w.blocks key = some block) (skip : List H) :
    Spilled w (w.written key block skip) := by
  refine ⟨fun hw => ?_, fun {k block'} h => ?_, rfl⟩
  · have hsplit := hw.split hb
    by_cases he : block.items.filter (·.1 ∈ skip) = []
    · refine hw.drop (k := key) (if_pos he) ?_
      show w.bytes - block.bytes + byteCount (block.items.filter (·.1 ∈ skip)) = _
      rw [he]
      show w.bytes - block.bytes + 0 = _
      omega
    · refine hw.replace (Or.inr rfl) (if_neg he) rfl ?_
      show w.bytes - block.bytes + byteCount (block.items.filter (·.1 ∈ skip)) =
        byteCount (block.items.filter (·.1 ∈ skip)) + _
      omega
  · by_cases hk : k = key
    · subst hk
      refine ⟨block, hb, ?_⟩
      unfold written at h
      simp only at h
      split at h
      · rw [FMap.get_erase, Function.update_self] at h
        cases h
      · rw [FMap.get_insert, Function.update_self] at h
        cases h
        exact List.filter_sublist
    · refine ⟨block', ?_, List.Sublist.refl _⟩
      unfold written at h
      simp only at h
      split at h
      · rwa [FMap.get_erase, Function.update_of_ne hk] at h
      · rwa [FMap.get_insert, Function.update_of_ne hk, FMap.get_erase, Function.update_of_ne hk] at h

theorem putBack_spilled {w : WriteBuffer H} {key : PoolKey H} {block : Block H}
    (hb : FMap.get w.blocks key = some block) : Spilled w (w.putBack key block) := by
  refine ⟨fun hw => ?_, fun {k block'} h => ⟨block', ?_, List.Sublist.refl _⟩, rfl⟩
  · have hsplit := hw.split hb
    refine hw.replace (Or.inr rfl) rfl (hw.block hb) ?_
    show w.bytes - block.bytes + block.bytes = _
    omega
  · have hsame : FMap.get (w.putBack key block).blocks = FMap.get w.blocks := by
      show FMap.get ((w.blocks.erase key).insert key block) = _
      rw [FMap.get_insert, FMap.get_erase, Function.update_idem, ← hb, Function.update_eq_self]
    rwa [hsame] at h

/-- One step of the search for the widest block. -/
def wider (best : Option (PoolKey H × ℕ)) (e : Sigma fun _ : PoolKey H => Block H) :
    Option (PoolKey H × ℕ) :=
  match best with
  | some (_, n) => if n ≤ e.2.bytes then some (e.1, e.2.bytes) else best
  | none => some (e.1, e.2.bytes)

omit [DecidableEq H] in
theorem wider_eq (best : Option (PoolKey H × ℕ)) (e : Sigma fun _ : PoolKey H => Block H) :
    wider best e = some (e.1, e.2.bytes) ∨ wider best e = best ∧ best ≠ none := by
  unfold wider
  cases best with
  | none => exact Or.inl rfl
  | some b =>
    simp only
    split
    · exact Or.inl rfl
    · exact Or.inr ⟨rfl, by simp⟩

omit [DecidableEq H] in
theorem foldl_wider (es : List (Sigma fun _ : PoolKey H => Block H)) :
    ∀ best : Option (PoolKey H × ℕ),
      (∀ p, es.foldl wider best = some p → some p = best ∨ p.1 ∈ es.keys) ∧
        (es.foldl wider best = none → best = none ∧ es = []) := by
  induction es with
  | nil => exact fun best => ⟨fun p h => Or.inl h.symm, fun h => ⟨h, rfl⟩⟩
  | cons e es ih =>
    intro best
    rw [List.foldl_cons, List.keys_cons]
    obtain ⟨hsome, hnone⟩ := ih (wider best e)
    refine ⟨fun p hp => ?_, fun h => ?_⟩
    · rcases hsome p hp with h | h
      · rcases wider_eq best e with hw | ⟨hw, -⟩
        · rw [hw] at h
          cases h
          exact Or.inr List.mem_cons_self
        · exact Or.inl (h.trans hw)
      · exact Or.inr (List.mem_cons_of_mem _ h)
    · rcases wider_eq best e with hw | ⟨hw, hne⟩
      · rw [hw] at hnone h
        cases (hnone h).1
      · exact absurd (hw.symm.trans (hnone h).1) hne

omit [DecidableEq H] in
theorem widest_eq (w : WriteBuffer H) :
    w.widest = (w.blocks.entries.foldl wider none).map Prod.fst := rfl

omit [DecidableEq H] in
/-- The widest block is one of the blocks. -/
theorem widest_mem {w : WriteBuffer H} {k : PoolKey H} (h : w.widest = some k) :
    k ∈ w.blocks.keys := by
  rw [widest_eq, Option.map_eq_some_iff] at h
  obtain ⟨p, hp, rfl⟩ := h
  exact ((foldl_wider _ _).1 p hp).resolve_left (fun c => by cases c)

omit [DecidableEq H] in
/-- There is no widest block only where there is no block. -/
theorem widest_none {w : WriteBuffer H} (h : w.widest = none) : w.blocks.entries = [] := by
  rw [widest_eq, Option.map_eq_none_iff] at h
  exact ((foldl_wider _ _).2 h).2

end WriteBuffer

/-! ### The eviction loop -/

namespace ArrayStore

open WriteBuffer

variable {H B : Type} [DecidableEq H] [ArrayBackend H B]

/-- What a block write makes of the buffer. -/
def blockWritten (w : WriteBuffer H) (key : PoolKey H) (skip : List H) (ok : Bool) : WriteBuffer H :=
  match FMap.get w.blocks key with
  | none => w
  | some block => if ok then w.written key block skip else w.putBack key block

theorem writeBlockExcept_buffer (key : PoolKey H) (skip : List H) (s : ArrayStore H B) :
    (writeBlockExcept (B := B) key skip).wp
      (fun r s' => s'.buffer = blockWritten s.buffer key skip r.isOk) s := by
  unfold writeBlockExcept blockWritten
  rw [Cmd.wp_bind, Cmd.wp_get]
  cases hb : FMap.get s.buffer.blocks key with
  | none =>
    simp only [hb]
    rfl
  | some block =>
    simp only [hb]
    split
    · rfl
    · simp only [Cmd.wp_bind, Cmd.wp_attempt, onBackend, Cmd.wp_zoom]
      refine Cmd.wp_mono (Q := fun _ _ => True) trivial fun r b' _ => ?_
      cases r with
      | error e =>
        simp only [Cmd.wp_bind, modifyBuffer, Cmd.wp_modify, Cmd.wp_throw]
        rfl
      | ok w =>
        simp only [modifyBuffer, Cmd.wp_modify]
        rfl

/-- A block write leaves the buffer spilled, whatever it ends with. -/
theorem writeBlockExcept_spilled (key : PoolKey H) (skip : List H) (s : ArrayStore H B) :
    (writeBlockExcept (B := B) key skip).wp (fun _ s' => Spilled s.buffer s'.buffer) s := by
  refine Cmd.wp_mono (writeBlockExcept_buffer key skip s) fun r s' h => ?_
  rw [h]
  unfold blockWritten
  split
  · exact Spilled.refl _
  · rename_i block hb
    split
    · exact written_spilled hb skip
    · exact putBack_spilled hb

theorem writeBlocks_spilled (keys : List (PoolKey H)) (skip : List H) (s : ArrayStore H B) :
    (keys.forM fun key => writeBlockExcept (B := B) key skip).wp
      (fun _ s' => Spilled s.buffer s'.buffer) s :=
  Cmd.wp_forM (I := fun s' => Spilled s.buffer s'.buffer) _ keys
    (fun key _ s' h => Cmd.wp_mono (writeBlockExcept_spilled key skip s') fun _ _ h' => h.trans h') s
    (Spilled.refl _)

theorem evictBlocks_spilled (n : ℕ) : ∀ s : ArrayStore H B,
    (evictBlocks (B := B) n).wp (fun _ s' => Spilled s.buffer s'.buffer) s := by
  induction n with
  | zero =>
    intro s
    exact Spilled.refl _
  | succ n ih =>
    intro s
    unfold evictBlocks
    rw [Cmd.wp_bind, Cmd.wp_get]
    simp only
    split
    · exact Spilled.refl _
    · split
      · exact Spilled.refl _
      · rw [Cmd.wp_bind]
        refine Cmd.wp_mono (writeBlockExcept_spilled _ [] s) fun r s₁ h => ?_
        cases r with
        | error e => exact h
        | ok u => exact Cmd.wp_mono (ih s₁) fun _ _ h' => h.trans h'

/-- A block that is written whole is gone, and the others are still there. -/
theorem writeBlock_blocks {s : ArrayStore H B} {key : PoolKey H} (hk : key ∈ s.buffer.blocks.keys) :
    (writeBlock (B := B) key).wp
      (fun r s' => r.isOk → s'.buffer.blocks = s.buffer.blocks.erase key) s := by
  refine Cmd.wp_mono (writeBlockExcept_buffer key [] s) fun r s' h hr => ?_
  cases hb : FMap.get s.buffer.blocks key with
  | none =>
    have := (FMap.mem_iff_isSome _ _).mp (AList.mem_keys.mp hk)
    rw [hb] at this
    cases this
  | some block =>
    rw [h, hr]
    unfold blockWritten
    rw [hb]
    exact if_pos (by simp)

/-- The eviction loop of the code: while the buffer is over its budget the widest block is written,
until one fails or none is left. -/
inductive Evicts : ArrayStore H B → Result Unit → ArrayStore H B → Prop
  | within {s : ArrayStore H B} : s.buffer.bytes ≤ s.buffer.maxBytes → Evicts s (.ok ()) s
  | empty {s : ArrayStore H B} : s.buffer.maxBytes < s.buffer.bytes → s.buffer.widest = none →
      Evicts s (.ok ()) s
  | failed {s s' : ArrayStore H B} {key : PoolKey H} {e : TimeSeriesError} :
      s.buffer.maxBytes < s.buffer.bytes → s.buffer.widest = some key →
      (writeBlock key).exec s = (.error e, s') → Evicts s (.error e) s'
  | turn {s s₁ s' : ArrayStore H B} {key : PoolKey H} {r : Result Unit} :
      s.buffer.maxBytes < s.buffer.bytes → s.buffer.widest = some key →
      (writeBlock key).exec s = (.ok (), s₁) → Evicts s₁ r s' → Evicts s r s'

theorem evictBlocks_evicts (n : ℕ) : ∀ s : ArrayStore H B, s.buffer.blocks.keys.length ≤ n →
    Evicts s ((evictBlocks n).exec s).1 ((evictBlocks n).exec s).2 := by
  induction n with
  | zero =>
    intro s hn
    show Evicts s (.ok ()) s
    rcases Nat.lt_or_ge s.buffer.maxBytes s.buffer.bytes with h | h
    · refine .empty h ?_
      have hk : s.buffer.blocks.keys = [] := List.length_eq_zero_iff.mp (Nat.le_zero.mp hn)
      cases hw : s.buffer.widest with
      | none => rfl
      | some k =>
        have hm := widest_mem hw
        rw [hk] at hm
        cases hm
    · exact .within h
  | succ n ih =>
    intro s hn
    unfold evictBlocks
    rw [Cmd.exec_bind, Cmd.exec_get]
    simp only
    by_cases h : s.buffer.bytes ≤ s.buffer.maxBytes
    · rw [if_pos h]
      exact .within h
    · rw [if_neg h]
      cases hw : s.buffer.widest with
      | none => exact .empty (Nat.lt_of_not_le h) hw
      | some key =>
        have hk := widest_mem hw
        simp only
        rw [Cmd.exec_bind]
        cases hx : (writeBlock (B := B) key).exec s with
        | mk r s₁ =>
          cases r with
          | error e => exact .failed (Nat.lt_of_not_le h) hw hx
          | ok u =>
            refine .turn (Nat.lt_of_not_le h) hw hx (ih s₁ ?_)
            have hblocks := (Cmd.wp_of_exec hx _).mp (writeBlock_blocks hk) rfl
            rw [hblocks, AList.keys_erase, List.length_erase_of_mem hk]
            omega

/-- **Eviction ends.**  From every state, with every budget, the loop ends where the model's bounded
run of it does. -/
theorem evictOverBudget_evicts (s : ArrayStore H B) :
    Evicts s (evictOverBudget.exec s).1 (evictOverBudget.exec s).2 :=
  evictBlocks_evicts _ s le_rfl

/-- A loop that ends without a failure leaves the buffer within its budget, or without blocks. -/
theorem Evicts.settled {s s' : ArrayStore H B} {r : Result Unit} (h : Evicts s r s') :
    r.isOk → s'.buffer.bytes ≤ s'.buffer.maxBytes ∨ s'.buffer.blocks.entries = [] := by
  induction h with
  | within hle => exact fun _ => Or.inl hle
  | empty _ hw => exact fun _ => Or.inr (widest_none hw)
  | failed => exact fun hr => by cases hr
  | turn _ _ _ _ ih => exact ih

/-- **Eviction.**  It leaves the buffer spilled, and within its budget unless a write failed. -/
theorem evictOverBudget_settles {s : ArrayStore H B} (hs : s.buffer.Exact) :
    (evictOverBudget (B := B)).wp
      (fun r s' => Spilled s.buffer s'.buffer ∧
        (r.isOk → s'.buffer.bytes ≤ s'.buffer.maxBytes)) s := by
  have hsp : (evictOverBudget (B := B)).wp (fun _ s' => Spilled s.buffer s'.buffer) s :=
    evictBlocks_spilled _ s
  refine ⟨hsp, fun hr => ?_⟩
  rcases (evictOverBudget_evicts s).settled hr with h | h
  · exact h
  · rw [(hsp.exact hs).total]
    unfold FMap.total
    rw [h]
    exact Nat.zero_le _

/-! ### Removing and pushing -/

theorem removeArray_buffer (h : H) (s : ArrayStore H B) :
    (removeArray (B := B) h).wp (fun _ s' => s'.buffer = (s.buffer.remove h).2) s := by
  unfold removeArray
  simp only [Cmd.wp_bind, Cmd.wp_get, Cmd.wp_set]
  split
  · rfl
  · simp only [onBackend, Cmd.wp_zoom]
    trivial

variable [Sha256 H] [LawfulArrayBackend H B]

/-- The writes of a push: its own block if that is full, and then the eviction. -/
theorem pushWrites_spec {s : ArrayStore H B} (hs : s.Valid) (hx : s.buffer.Exact) (key : PoolKey H)
    (full : Prop) [Decidable full] :
    ((do
      if full then writeBlock key
      evictOverBudget : StoreCmd (ArrayStore H B) Unit)).wp
        (fun r s' => s.Written s' ∧ Spilled s.buffer s'.buffer ∧
          (r.isOk → s'.buffer.bytes ≤ s'.buffer.maxBytes)) s := by
  have hevict : ∀ {t : ArrayStore H B}, t.Valid → t.buffer.Exact →
      (evictOverBudget (B := B)).wp (fun r s' => t.Written s' ∧ Spilled t.buffer s'.buffer ∧
        (r.isOk → s'.buffer.bytes ≤ s'.buffer.maxBytes)) t := fun ht hxt =>
    Cmd.wp_and (evictOverBudget_spec ht) (evictOverBudget_settles hxt)
  split
  · rw [Cmd.wp_bind]
    refine Cmd.wp_mono (Cmd.wp_and (writeBlock_spec hs key) (writeBlockExcept_spilled key [] s)) ?_
    rintro r s₁ ⟨hw, hsp⟩
    cases r with
    | error e => exact ⟨hw, hsp, fun h => by cases h⟩
    | ok u =>
      exact Cmd.wp_mono (hevict hw.valid (hsp.exact hx)) fun _ _ h =>
        ⟨hw.trans h.1, hsp.trans h.2.1, h.2.2⟩
  · exact hevict hs hx

/-- **Pushing, as the buffer sees it.**  A push that succeeds leaves the accepted array's buffer
spilled and within its budget; one that fails takes the array out of such a buffer again. -/
theorem push_buffer {s : ArrayStore H B} (hs : s.Valid) (hx : s.buffer.Exact) {h : H}
    {a : TypedArray} (g : PackGroup H) (hn : s.content h = none) (ha : a.Storable) :
    (push (B := B) h a g).wp
      (fun r s' => ∃ w : WriteBuffer H, w.Indexed ∧ Spilled (s.buffer.accept h a g) w ∧
        if r.isOk then s'.buffer = w ∧ w.bytes ≤ w.maxBytes else s'.buffer = (w.remove h).2) s := by
  obtain ⟨hv, -⟩ := accept_spec hs g hn ha
  unfold push
  simp only [Cmd.wp_bind, Cmd.wp_get, Cmd.wp_set, Cmd.wp_attempt]
  refine Cmd.wp_mono (pushWrites_spec hv (hx.accept h a g) (poolKey a g) _) ?_
  rintro r s₁ ⟨hw, hsp, hfit⟩
  cases r with
  | ok u => exact ⟨s₁.buffer, hw.valid.indexed, hsp, rfl, hfit rfl⟩
  | error e =>
    simp only [Cmd.wp_bind, Cmd.wp_attempt, Cmd.wp_throw]
    exact Cmd.wp_mono (removeArray_buffer h s₁) fun _ _ hr =>
      ⟨s₁.buffer, hw.valid.indexed, hsp, hr⟩

end ArrayStore

/-! ### Runs of calls -/

/-- A call on the write buffer. -/
inductive BufferCall (H : Type) where
  | push (h : H) (a : TypedArray) (group : PackGroup H)
  | remove (h : H)
  | writeHolding (hashes : List H)
  | writeAllExcept (skip : List H)
  | writeAll
  | setMaxBytes (bytes : ℕ)

namespace ArrayStore

open WriteBuffer

section

variable {H B : Type} [DecidableEq H] [ArrayBackend H B]

/-- Drop a buffered array; a hash that is not buffered is left alone. -/
def removeBuffered (h : H) : StoreCmd (ArrayStore H B) Unit := modifyBuffer fun w => (w.remove h).2

/-- Write every block. -/
def writeAll : StoreCmd (ArrayStore H B) Unit := writeAllExcept []

/-- Set the byte budget, writing whole blocks until the buffer is within it. -/
def setMaxBytes (bytes : ℕ) : StoreCmd (ArrayStore H B) Unit := do
  modifyBuffer fun w => { w with maxBytes := bytes }
  evictOverBudget

/-- Make a call. -/
def call : BufferCall H → StoreCmd (ArrayStore H B) Unit
  | .push h a group => push h a group
  | .remove h => removeBuffered h
  | .writeHolding hashes => writeHolding hashes
  | .writeAllExcept skip => writeAllExcept skip
  | .writeAll => writeAll
  | .setMaxBytes bytes => setMaxBytes bytes

/-- What the callers of the buffer establish: a pushed array is one the store may hand a backend, and
neither side holds its hash. -/
def Allows (s : ArrayStore H B) : BufferCall H → Prop
  | .push h a _ => a.Storable ∧ s.holdsArray h = false
  | _ => True

/-- The arrays accepted and not removed, in the order they came, once a call has ended. -/
def logged (s : ArrayStore H B) (log : List (H × TypedArray)) (r : Result Unit) :
    BufferCall H → List (H × TypedArray)
  | .push h a _ => if r.isOk then log ++ [(h, a)] else log
  | .remove h => if s.buffer.contains h then log.filter (·.1 ≠ h) else log
  | _ => log

/-- The calls made one after the other on an empty buffer over a backend, each of them allowed where
it was made: the state they lead to, and the arrays accepted and not removed. -/
inductive Ran (b : B) : List (BufferCall H) → ArrayStore H B → List (H × TypedArray) → Prop
  | start : Ran b [] ⟨.new, b⟩ []
  | call {calls : List (BufferCall H)} {s : ArrayStore H B} {log : List (H × TypedArray)}
      (c : BufferCall H) : Ran b calls s log → s.Allows c →
      Ran b (calls ++ [c]) ((call c).exec s).2 (s.logged log ((call c).exec s).1 c)

end

section

variable {H B : Type} [DecidableEq H] [ArrayBackend H B] [Sha256 H] [LawfulArrayBackend H B]

/-- What every run keeps: where the arrays are, the counts and, without removals, the order. -/
structure Kept (s : ArrayStore H B) (log : List (H × TypedArray)) (ordered : Prop) : Prop where
  valid : s.Valid
  quiet : s.Quiet
  exact : s.buffer.Exact
  nodup : (log.map Prod.fst).Nodup
  content {it : H × TypedArray} : it ∈ log → s.content it.1 = some it.2
  order : ordered → ∀ {k : PoolKey H} {block : Block H}, FMap.get s.buffer.blocks k = some block →
    block.items.Sublist log

/-- An array that is held, with removals that do not fail, is in one of the two places. -/
theorem Quiet.one_place {s : ArrayStore H B} (hs : s.Quiet) {h : H} {a : TypedArray}
    (hc : s.content h = some a) :
    (s.buffer.get h = some a ∧ LawfulArrayBackend.array s.backend h = none) ∨
      (s.buffer.get h = none ∧ LawfulArrayBackend.array s.backend h = some a) := by
  unfold ArrayStore.content at hc
  cases hb : s.buffer.get h with
  | none =>
    rw [hb, Option.none_or] at hc
    exact Or.inr ⟨rfl, hc⟩
  | some a' =>
    rw [hb, Option.some_or] at hc
    exact Or.inl ⟨hc, hs.disjoint hb⟩

/-- Writing blocks keeps everything. -/
theorem Kept.spilled {s s' : ArrayStore H B} {log : List (H × TypedArray)} {ordered : Prop}
    (hk : Kept s log ordered) (hw : s.Written s') (hsp : Spilled s.buffer s'.buffer) :
    Kept s' log ordered := by
  refine ⟨hw.valid, hw.quiet hk.quiet, hsp.exact hk.exact, hk.nodup, fun hit => ?_,
    fun ho k block hb => ?_⟩
  · rw [hw.content]
    exact hk.content hit
  · obtain ⟨block₀, hb₀, hsub⟩ := hsp.items hb
    exact hsub.trans (hk.order ho hb₀)

/-- Removing a buffered array takes it out of the log too. -/
theorem Kept.removed {s : ArrayStore H B} {log : List (H × TypedArray)} {ordered : Prop}
    (hk : Kept s log ordered) (h : H) :
    Kept ⟨(s.buffer.remove h).2, s.backend⟩
      (if s.buffer.contains h then log.filter (·.1 ≠ h) else log) False := by
  obtain ⟨-, hix, hget⟩ := hk.valid.indexed.remove h
  have hother : ∀ x, x ≠ h → (s.buffer.remove h).2.get x = s.buffer.get x := by
    intro x hne
    rw [hget, Function.update_of_ne hne]
  have hself : (s.buffer.remove h).2.get h = none := by
    rw [hget, Function.update_self]
  have hget' : ∀ {x a}, (s.buffer.remove h).2.get x = some a → s.buffer.get x = some a := by
    intro x a e
    by_cases hx : x = h
    · rw [hx, hself] at e
      cases e
    · rwa [hother x hx] at e
  refine ⟨⟨hk.valid.backend, hix, fun e e' => hk.valid.agree (hget' e) e'⟩,
    ⟨hk.quiet.backend, fun e => hk.quiet.disjoint (hget' e)⟩, hk.exact.remove hk.valid.indexed h, ?_,
    fun {it} hit => ?_, fun c => c.elim⟩
  · split
    · exact hk.nodup.sublist (List.filter_sublist.map _)
    · exact hk.nodup
  · split at hit
    · obtain ⟨hmem, hne⟩ := List.mem_filter.mp hit
      show ((s.buffer.remove h).2.get it.1).or _ = _
      rw [hother it.1 (by simpa using hne)]
      exact hk.content hmem
    · rename_i hc
      have hn : s.buffer.get h = none := by
        rw [hk.valid.indexed.contains_eq] at hc
        simpa using hc
      have hsame : (s.buffer.remove h).2.get it.1 = s.buffer.get it.1 := by
        by_cases hx : it.1 = h
        · rw [hx, hself, hn]
        · exact hother _ hx
      show ((s.buffer.remove h).2.get it.1).or _ = _
      rw [hsame]
      exact hk.content hit

/-- The blocks of a buffer that has accepted an array are parts of the log it is added to. -/
theorem Kept.accepted {s : ArrayStore H B} {log : List (H × TypedArray)} {ordered : Prop}
    (hk : Kept s log ordered) (ho : ordered) {h : H} {a : TypedArray} (g : PackGroup H)
    {k : PoolKey H} {block : Block H}
    (hb : FMap.get (s.buffer.accept h a g).blocks k = some block) :
    block.items.Sublist (log ++ [(h, a)]) := by
  have hadd : ∀ {l : List (H × TypedArray)}, l.Sublist log → l.Sublist (log ++ [(h, a)]) := fun hl =>
    hl.trans (List.sublist_append_left _ _)
  unfold WriteBuffer.accept at hb
  simp only [FMap.get_insert] at hb
  by_cases hkey : k = poolKey a g
  · subst hkey
    rw [Function.update_self] at hb
    cases hb
    refine List.Sublist.append ?_ (List.Sublist.refl _)
    cases hb₀ : FMap.get s.buffer.blocks (poolKey a g) with
    | none => exact List.nil_sublist _
    | some block₀ => exact hk.order ho hb₀
  · rw [Function.update_of_ne hkey] at hb
    exact hadd (hk.order ho hb)

/-- **Pushing.**  A push keeps everything; one that succeeds leaves the buffer within its budget, and
one that fails leaves its array in neither place. -/
theorem Kept.pushed {s : ArrayStore H B} {log : List (H × TypedArray)} {ordered : Prop}
    (hk : Kept s log ordered) {h : H} {a : TypedArray} (g : PackGroup H)
    (hn : s.holdsArray h = false) (ha : a.Storable) :
    (push (B := B) h a g).wp
      (fun r s' => Kept s' (if r.isOk then log ++ [(h, a)] else log) ordered ∧
        (r.isOk → s'.buffer.bytes ≤ s'.buffer.maxBytes) ∧
        (r.isOk = false →
          s'.buffer.get h = none ∧ LawfulArrayBackend.array s'.backend h = none)) s := by
  rw [holdsArray_eq hk.valid] at hn
  have hnone : s.content h = none := by simpa using hn
  have hfresh : h ∉ log.map Prod.fst := by
    intro c
    obtain ⟨it, hit, rfl⟩ := List.mem_map.mp c
    rw [hk.content hit] at hnone
    cases hnone
  refine Cmd.wp_mono (Cmd.wp_and (push_spec hk.valid g hnone ha)
    (push_buffer hk.valid hk.exact g hnone ha)) ?_
  rintro r s' ⟨hst, w, hix, hsp, hbuf⟩
  have hxw := hsp.exact (hk.exact.accept h a g)
  have hquiet := hst.quiet hk.quiet
  -- the blocks before a failed push takes its array out again
  have hlog : ordered → ∀ {k : PoolKey H} {block : Block H}, FMap.get w.blocks k = some block →
      block.items.Sublist (log ++ [(h, a)]) := by
    intro ho k block hb
    obtain ⟨block₀, hb₀, hsub⟩ := hsp.items hb
    exact hsub.trans (hk.accepted ho g hb₀)
  cases hr : r.isOk with
  | true =>
    rw [hr, if_pos rfl] at hbuf
    obtain ⟨hsame, hfit⟩ := hbuf
    have hcon : s'.content = Function.update s.content h (some a) :=
      hst.content.resolve_right (fun c => by rw [hr] at c; cases c.1)
    refine ⟨⟨hst.valid, hquiet, by rw [hsame]; exact hxw, ?_, fun {it} hit => ?_,
      fun ho k block hb => ?_⟩,
      (fun _ => by rw [hsame]; exact hfit), fun c => by cases c⟩
    · rw [if_pos rfl, List.map_append]
      refine List.nodup_append.mpr ⟨hk.nodup, List.nodup_singleton _, fun x hx y hy e => hfresh ?_⟩
      have hyh : y = h := List.mem_singleton.mp hy
      rw [← hyh, ← e]
      exact hx
    · rw [if_pos rfl, List.mem_append, List.mem_singleton] at hit
      rw [hcon]
      rcases hit with hit | rfl
      · have hne : it.1 ≠ h := by
          rintro rfl
          exact hfresh (List.mem_map_of_mem hit)
        rw [Function.update_of_ne hne]
        exact hk.content hit
      · exact Function.update_self ..
    · rw [if_pos rfl]
      rw [hsame] at hb
      exact hlog ho hb
  | false =>
    rw [hr] at hbuf
    have hsame : s'.buffer = (w.remove h).2 := hbuf
    have hcon := hst.undone hr hk.quiet
    have hgone : s'.content h = none := by rw [hcon, hnone]
    refine ⟨⟨hst.valid, hquiet, by rw [hsame]; exact hxw.remove hix h, hk.nodup, fun {it} hit => ?_,
      fun ho k block' hb' => ?_⟩, (fun c => by cases c), fun _ => Option.or_eq_none_iff.mp hgone⟩
    · rw [hcon]
      exact hk.content hit
    · rw [hsame] at hb'
      obtain ⟨block, hb, ⟨hi, hnot⟩ | ⟨i, b, hi, he⟩⟩ := remove_items hix h hb'
      · rw [hi]
        exact sublist_of_fresh (hlog ho hb) hnot
      · rw [he]
        exact sublist_swapRemove (hlog ho hb) hfresh hi

/-- Another budget keeps everything. -/
theorem Kept.budgeted {s : ArrayStore H B} {log : List (H × TypedArray)} {ordered : Prop}
    (hk : Kept s log ordered) (bytes : ℕ) :
    (setMaxBytes (B := B) bytes).wp
      (fun r s' => Kept s' log ordered ∧ (r.isOk → s'.buffer.bytes ≤ s'.buffer.maxBytes)) s := by
  have hw := Store.setBudget_written hk.valid bytes
  have hk' : Kept ⟨{ s.buffer with maxBytes := bytes }, s.backend⟩ log ordered := by
    refine ⟨hw.valid, hw.quiet hk.quiet, ⟨hk.exact.block, hk.exact.total⟩, hk.nodup, fun hit => ?_,
      hk.order⟩
    rw [hw.content]
    exact hk.content hit
  unfold setMaxBytes
  simp only [Cmd.wp_bind, modifyBuffer, Cmd.wp_modify]
  refine Cmd.wp_mono
    (Cmd.wp_and (evictOverBudget_spec hk'.valid) (evictOverBudget_settles hk'.exact)) ?_
  rintro r s' ⟨hw', hsp, hfit⟩
  exact ⟨hk'.spilled hw' hsp, hfit⟩

/-- **One call.**  An allowed call keeps everything, and the order unless it is a removal. -/
theorem Kept.called {s : ArrayStore H B} {log : List (H × TypedArray)} {ordered : Prop}
    (hk : Kept s log ordered) {c : BufferCall H} (hc : s.Allows c) :
    (call (B := B) c).wp
      (fun r s' => Kept s' (s.logged log r c) (ordered ∧ ∀ h, c ≠ .remove h)) s := by
  have hweak : ∀ {s' : ArrayStore H B} {log' : List (H × TypedArray)},
      Kept s' log' ordered → Kept s' log' (ordered ∧ ∀ h, c ≠ .remove h) := fun h =>
    ⟨h.valid, h.quiet, h.exact, h.nodup, h.content, fun ho => h.order ho.1⟩
  cases c with
  | push h a g =>
    exact Cmd.wp_mono (hk.pushed g hc.2 hc.1) fun r s' h' => hweak h'.1
  | remove h =>
    have h' := hk.removed h
    exact ⟨h'.valid, h'.quiet, h'.exact, h'.nodup, h'.content, fun ho => absurd rfl (ho.2 h)⟩
  | writeHolding hashes =>
    refine Cmd.wp_mono (Cmd.wp_and (writeHolding_spec hk.valid hashes) ?_) fun r s' h' =>
      hweak (hk.spilled h'.1 h'.2)
    exact writeBlocks_spilled _ [] s
  | writeAllExcept skip =>
    refine Cmd.wp_mono (Cmd.wp_and (writeAllExcept_spec hk.valid skip) ?_) fun r s' h' =>
      hweak (hk.spilled h'.1.1 h'.2)
    exact writeBlocks_spilled _ skip s
  | writeAll =>
    refine Cmd.wp_mono (Cmd.wp_and (writeAllExcept_spec hk.valid []) ?_) fun r s' h' =>
      hweak (hk.spilled h'.1.1 h'.2)
    exact writeBlocks_spilled _ [] s
  | setMaxBytes bytes =>
    exact Cmd.wp_mono (hk.budgeted bytes) fun r s' h' => hweak h'.1

theorem kept_new {b : B} (hb : LawfulArrayBackend.Valid b) (hq : LawfulArrayBackend.Quiet b)
    (ordered : Prop) : Kept (⟨.new, b⟩ : ArrayStore H B) [] ordered := by
  obtain ⟨hi, hnone⟩ := WriteBuffer.new_indexed (H := H)
  refine ⟨⟨hb, hi, fun {h _ _} e => ?_⟩, ⟨hq, fun {h _} e => ?_⟩, new_exact, List.nodup_nil,
    fun hit => (by cases hit), fun _ k block hget => ?_⟩
  · rw [show (WriteBuffer.new : WriteBuffer H).get h = none from hnone h] at e
    cases e
  · rw [show (WriteBuffer.new : WriteBuffer H).get h = none from hnone h] at e
    cases e
  · rw [show FMap.get (WriteBuffer.new : WriteBuffer H).blocks k = none from FMap.get_empty k] at hget
    cases hget

/-- **Runs.**  Whatever was called, and whatever failed, the invariant holds. -/
theorem kept_run {b : B} (hb : LawfulArrayBackend.Valid b) (hq : LawfulArrayBackend.Quiet b)
    {calls : List (BufferCall H)} {s : ArrayStore H B} {log : List (H × TypedArray)}
    (hrun : Ran b calls s log) : Kept s log (∀ h, .remove h ∉ calls) := by
  induction hrun with
  | start => exact kept_new hb hq _
  | call c _ hc ih =>
    have h := ih.called hc
    refine ⟨h.valid, h.quiet, h.exact, h.nodup, h.content,
      fun ho => h.order ⟨fun x hx => ?_, fun x hx => ?_⟩⟩
    · exact ho x (List.mem_append_left _ hx)
    · exact ho x (by simp [hx])

/-- **The write buffer under failures.**  After every call of every run, over a backend whose failed
writes leave its arrays as they were: the index and the blocks are each other's inverse, each array in
its own pool, and the byte counts are exact; a push or a new budget that succeeds leaves the buffer
within its budget, and a push that fails leaves its array nowhere; every array accepted and not
removed is in one of the two places, as it was accepted; and without removals each block is in the
order of arrival.  The eviction loop ends from every state. -/
theorem writeBuffer_run {b : B} (hb : LawfulArrayBackend.Valid b) (hq : LawfulArrayBackend.Quiet b)
    {calls : List (BufferCall H)} {s : ArrayStore H B} {log : List (H × TypedArray)}
    (hrun : Ran b calls s log) {c : BufferCall H} (hc : s.Allows c) :
    (call (B := B) c).wp (fun r s' =>
      (∀ h k i, FMap.get s'.buffer.byHash h = some (k, i) ↔ ∃ a, s'.buffer.item k i = some (h, a)) ∧
      (∀ k i h a, s'.buffer.item k i = some (h, a) → poolKey a k.group = k) ∧
      s'.buffer.Exact ∧
      (r.isOk → (∃ h a g, c = .push h a g) ∨ (∃ bytes, c = .setMaxBytes bytes) →
        s'.buffer.bytes ≤ s'.buffer.maxBytes) ∧
      (r.isOk = false → ∀ h a g, c = .push h a g →
        s'.buffer.get h = none ∧ LawfulArrayBackend.array s'.backend h = none) ∧
      (∀ it ∈ s.logged log r c,
        (s'.buffer.get it.1 = some it.2 ∧ LawfulArrayBackend.array s'.backend it.1 = none) ∨
        (s'.buffer.get it.1 = none ∧ LawfulArrayBackend.array s'.backend it.1 = some it.2)) ∧
      ((s.logged log r c).map Prod.fst).Nodup ∧
      ((∀ h, .remove h ∉ calls ++ [c]) → ∀ k block, FMap.get s'.buffer.blocks k = some block →
        block.items.Sublist (s.logged log r c))) s ∧
      ∀ t : ArrayStore H B, Evicts t (evictOverBudget.exec t).1 (evictOverBudget.exec t).2 := by
  have hk := kept_run hb hq hrun
  have hafter := kept_run hb hq (hrun.call c hc)
  refine ⟨⟨hafter.valid.indexed.index, fun k i h a e => (hafter.valid.indexed.pooled e).2,
    hafter.exact, ?_, ?_, fun it hit => hafter.quiet.one_place (hafter.content hit), hafter.nodup,
    fun ho k block hblock => hafter.order ho hblock⟩, evictOverBudget_evicts⟩
  · intro hr hcall
    rcases hcall with ⟨h, a, g, rfl⟩ | ⟨bytes, rfl⟩
    · exact (hk.pushed g hc.2 hc.1).2.1 hr
    · exact (hk.budgeted bytes).2 hr
  · rintro hr h a g rfl
    exact (hk.pushed g hc.2 hc.1).2.2 hr

end

end ArrayStore

namespace Store.Sample

open ArrayStore

/-- Two bytes of one series. -/
def twoBytes : TypedArray := ⟨.u8, [2], [7, 7]⟩

/-- A call that brings the array in. -/
def bringIn : BufferCall Digest :=
  .push [1] twoBytes (.regular (.fixed ⟨3600000000000, Duration.valid_hour⟩))

/-- An empty buffer over an empty backend. -/
def nothingBuffered : ArrayStore Digest (MemoryBackend Digest) := ⟨.new, .empty⟩

/-- A buffer that has accepted one array. -/
def oneBuffered : ArrayStore Digest (MemoryBackend Digest) :=
  ((call bringIn).exec nothingBuffered).2

theorem oneBuffered_ran : Ran MemoryBackend.empty ([] ++ [bringIn]) oneBuffered
    (nothingBuffered.logged [] ((call bringIn).exec nothingBuffered).1 bringIn) :=
  .call bringIn .start ⟨⟨by decide, by decide⟩, by decide⟩

/-- A budget of nothing writes the array out: it is in the backend, and no longer in the buffer. -/
theorem writeBuffer_run_evicted :
    oneBuffered.buffer.get [1] = some twoBytes ∧
      (call (.setMaxBytes 0)).wp (fun r s' => r.isOk = true ∧ s'.buffer.bytes ≤ s'.buffer.maxBytes ∧
        s'.buffer.get [1] = none) oneBuffered := by
  have h := (writeBuffer_run (B := MemoryBackend Digest) trivial trivial oneBuffered_ran
    (c := .setMaxBytes 0) trivial).1
  have hok : ((call (.setMaxBytes 0)).exec oneBuffered).1.isOk = true := by decide +kernel
  exact ⟨by decide +kernel, hok, h.2.2.2.1 hok (Or.inr ⟨0, rfl⟩), by decide +kernel⟩

end Store.Sample

end InfraStore
