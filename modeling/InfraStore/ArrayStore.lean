import InfraStore.WriteBuffer

/-!
# The array store

Where the store's arrays are: a write buffer over a backend.

* `putBlock`, `writeBlockExcept`, `evictOverBudget`, `push`, `removeArray`, `putArray`: the code's
  operations on the two together;
* `ArrayStore.content`: the one map from hashes to arrays the two present;
* the specification of each operation against that map, failures included.
-/

namespace InfraStore

open Lib

/-- An array store: a write buffer over a backend. -/
structure ArrayStore (H B : Type) where
  buffer : WriteBuffer H
  backend : B

/-! ### Writing blocks -/

section

variable {H B : Type} [DecidableEq H] [ArrayBackend H B]

/-- The items of a block that are new: neither stored nor a repeat within the block. -/
def newItems (b : B) : List (H × TypedArray) → List H → List ℕ → ℕ → List ℕ
  | [], _, acc, _ => acc
  | it :: items, seen, acc, i =>
    if it.1 ∉ seen ∧ ArrayBackend.contains b it.1 = false then
      if acc.length + 1 = 2 then acc ++ [i]
      else newItems b items (it.1 :: seen) (acc ++ [i]) (i + 1)
    else newItems b items (it.1 :: seen) acc (i + 1)

/-- The layout of the only new array of a block: a growth-pool slot, or standalone for an irregular
array whose axis has no pool yet. -/
def loneLayout (b : B) (a : TypedArray) (group : PackGroup H) : ArrayLayout :=
  match group with
  | .irregular _ =>
    if ArrayBackend.hasPackGroup b a.dtype a.elementShape a.length group then .packed
    else .standalone
  | .regular _ => .packed

/-- Write one pool's arrays to the backend, reporting which this call stored. -/
def putBlock (items : List (H × TypedArray)) (group : PackGroup H) : StoreCmd B (List Bool) := do
  let b ← get
  match newItems b items [] [] 0 with
  | [] => pure (items.map fun _ => false)
  | [i] =>
    match items[i]? with
    | none => pure (items.map fun _ => false)
    | some (h, a) => do
      let stored ← ArrayBackend.putArray h a group (loneLayout b a group)
      pure ((items.map fun _ => false).set i stored)
  | _ => ArrayBackend.putPackedBlock items group

namespace ArrayStore

/-- Run a backend command under the buffer. -/
def onBackend {α : Type} (c : StoreCmd B α) : StoreCmd (ArrayStore H B) α :=
  Cmd.zoom ArrayStore.backend (fun b s => { s with backend := b }) c

/-- Change the buffer. -/
def modifyBuffer (f : WriteBuffer H → WriteBuffer H) : StoreCmd (ArrayStore H B) Unit :=
  modify fun s => { s with buffer := f s.buffer }

/-- Write one pool's block outside `skip` and drop it from the buffer; on failure the block is put
back. -/
def writeBlockExcept (key : PoolKey H) (skip : List H) : StoreCmd (ArrayStore H B) Unit := do
  let s ← get
  match FMap.get s.buffer.blocks key with
  | none => pure ()
  | some block =>
    let out := block.items.filter (·.1 ∉ skip)
    let outcome ← if out = [] then pure (.ok []) else (onBackend (putBlock out key.group)).attempt
    match outcome with
    | .error e => do
      modifyBuffer (·.putBack key block)
      throw e
    | .ok _ => modifyBuffer (·.written key block skip)

/-- Write one pool's whole block. -/
def writeBlock (key : PoolKey H) : StoreCmd (ArrayStore H B) Unit := writeBlockExcept key []

/-- Write every block, leaving the arrays in `skip` buffered. -/
def writeAllExcept (skip : List H) : StoreCmd (ArrayStore H B) Unit := do
  let s ← get
  s.buffer.blocks.keys.forM fun key => writeBlockExcept key skip

/-- Write the blocks holding any of the hashes. -/
def writeHolding (hashes : List H) : StoreCmd (ArrayStore H B) Unit := do
  let s ← get
  let keys := hashes.filterMap fun h => (FMap.get s.buffer.byHash h).map Prod.fst
  keys.dedup.forM fun key => writeBlock key

/-- Write whole blocks, widest first, until the buffer is within its budget.  Each turn removes a
block, so as many turns as there are blocks are enough. -/
def evictBlocks : ℕ → StoreCmd (ArrayStore H B) Unit
  | 0 => pure ()
  | n + 1 => do
    let s ← get
    if s.buffer.bytes ≤ s.buffer.maxBytes then pure ()
    else
      match s.buffer.widest with
      | none => pure ()
      | some key => do
        writeBlock key
        evictBlocks n

/-- Write whole blocks until the buffer is within its budget. -/
def evictOverBudget : StoreCmd (ArrayStore H B) Unit := do
  let s ← get
  evictBlocks s.buffer.blocks.keys.length

/-- Drop an array from wherever it is: the buffer, or else the backend. -/
def removeArray (h : H) : StoreCmd (ArrayStore H B) Unit := do
  let s ← get
  let (dropped, buffer) := s.buffer.remove h
  set { s with buffer }
  if dropped then pure () else onBackend (ArrayBackend.removeArray h)

/-- Accept an array into its pool's block, writing the block out when it is full and whole blocks
while the buffer is over its budget.  An array whose write fails is taken out again. -/
def push (h : H) (a : TypedArray) (group : PackGroup H) : StoreCmd (ArrayStore H B) Unit := do
  let s ← get
  let key := poolKey a group
  let cap := s.buffer.widthCap key.dtype key.elementShape key.length
  let buffer := s.buffer.accept h a group
  set { s with buffer }
  let full := cap ≤ ((FMap.get buffer.blocks key).map fun b => b.items.length).getD 0
  let outcome ← (do
    if full then writeBlock key
    evictOverBudget : StoreCmd (ArrayStore H B) Unit).attempt
  match outcome with
  | .ok _ => pure ()
  | .error e => do
    let _ ← (removeArray h).attempt
    throw e

/-- Whether a hash is stored: buffered, or in the backend. -/
def holdsArray (s : ArrayStore H B) (h : H) : Bool :=
  s.buffer.contains h || ArrayBackend.contains s.backend h

/-- Store an array, buffering a packed one while a transaction is open; `false` if it was held. -/
def putArray (inTransaction : Bool) (h : H) (a : TypedArray) (group : PackGroup H)
    (layout : ArrayLayout) : StoreCmd (ArrayStore H B) Bool := do
  let s ← get
  if s.holdsArray h then pure false
  else if layout.isPacked && inTransaction then do
    push h a group
    pure true
  else onBackend (ArrayBackend.putArray h a group layout)

end ArrayStore

end

/-! ### The map a block write leaves -/

section

variable {K V : Type} [DecidableEq K]

theorem orInserted_of_held {m : K → Option V} {items : List (K × V)}
    (h : ∀ it ∈ items, (m it.1).isSome) : orInserted m items = m := by
  funext k
  unfold orInserted
  rcases hm : m k with _ | v
  · rw [Option.none_or, List.lookup_eq_none_iff]
    intro it hit
    have := h it hit
    refine bne_iff_ne.mpr fun e => ?_
    rw [← e, hm] at this
    cases this
  · rfl

theorem lookup_of_nodup {items : List (K × V)} (hnd : (items.map Prod.fst).Nodup) {k : K} {v : V}
    (h : (k, v) ∈ items) : items.lookup k = some v := by
  induction items with
  | nil => cases h
  | cons it items ih =>
    obtain ⟨hnot, hnd⟩ := List.nodup_cons.mp hnd
    rcases List.mem_cons.mp h with rfl | h
    · exact List.lookup_cons_self
    · have hk : k ∈ items.map Prod.fst := List.mem_map.mpr ⟨_, h, rfl⟩
      have hne : k ≠ it.1 := fun e => hnot (e ▸ hk)
      rw [List.lookup_cons, beq_eq_false_iff_ne.mpr hne]
      exact ih hnd h

/-- Every key a list of insertions has is held after them. -/
theorem orInserted_isSome {m : K → Option V} {items : List (K × V)} {it : K × V} (h : it ∈ items) :
    (orInserted m items it.1).isSome := by
  unfold orInserted
  rw [Option.isSome_or, Bool.or_eq_true]
  refine Or.inr ?_
  rw [Option.isSome_iff_ne_none, Ne, List.lookup_eq_none_iff]
  intro hall
  exact absurd (hall it h) (by simp)

theorem orInserted_of_not_mem {m : K → Option V} {items : List (K × V)} {k : K}
    (h : k ∉ items.map Prod.fst) : orInserted m items k = m k := by
  unfold orInserted
  rw [List.lookup_eq_none_iff.mpr, Option.or_none]
  intro it hit
  refine bne_iff_ne.mpr fun e => h ?_
  rw [e]
  exact List.mem_map_of_mem (f := Prod.fst) hit

/-- With one key that is not held, the insertions are one update. -/
theorem orInserted_single {m : K → Option V} {items : List (K × V)} {k : K} {v : V}
    (hnd : (items.map Prod.fst).Nodup) (hmem : (k, v) ∈ items) (hk : m k = none)
    (hrest : ∀ it ∈ items, it.1 = k ∨ (m it.1).isSome) :
    orInserted m items = Function.update m k (some v) := by
  funext k'
  by_cases e : k' = k
  · subst e
    unfold orInserted
    rw [hk, Function.update_self, lookup_of_nodup hnd hmem]
    rfl
  · rw [Function.update_of_ne e]
    unfold orInserted
    rcases hm : m k' with _ | w
    · rw [Option.none_or, List.lookup_eq_none_iff]
      intro it hit
      refine bne_iff_ne.mpr fun e' => ?_
      rcases hrest it hit with h | h
      · exact e (e'.trans h)
      · rw [← e', hm] at h
        cases h
    · rfl

end

section

variable {H B : Type} [DecidableEq H] [ArrayBackend H B]

/-! ### Writing one block -/

/-- Once one new item is found, finding no other means the rest are stored or repeats. -/
theorem newItems_one {b : B} (items : List (H × TypedArray)) :
    ∀ (seen : List H) (i₀ n i : ℕ), newItems b items seen [i₀] n = [i] →
      i = i₀ ∧ ∀ it ∈ items, it.1 ∈ seen ∨ ArrayBackend.contains b it.1 = true := by
  induction items with
  | nil =>
    intro seen i₀ n i h
    cases h
    exact ⟨rfl, fun _ h => by cases h⟩
  | cons it items ih =>
    intro seen i₀ n i h
    unfold newItems at h
    split at h
    · cases h
    · rename_i hc
      obtain ⟨hi, hrest⟩ := ih _ _ _ _ h
      have hit : it.1 ∈ seen ∨ ArrayBackend.contains b it.1 = true := by
        by_cases hs : it.1 ∈ seen
        · exact Or.inl hs
        · exact Or.inr (by simpa [hs] using hc)
      refine ⟨hi, fun it' h' => ?_⟩
      rcases List.mem_cons.mp h' with rfl | h'
      · exact hit
      · rcases hrest it' h' with h1 | h1
        · rcases List.mem_cons.mp h1 with e | h1
          · rw [e]; exact hit
          · exact Or.inl h1
        · exact Or.inr h1

theorem newItems_ne_nil {b : B} (items : List (H × TypedArray)) :
    ∀ (seen : List H) (i₀ n : ℕ), newItems b items seen [i₀] n ≠ [] := by
  induction items with
  | nil =>
    intro seen i₀ n h
    cases h
  | cons it items ih =>
    intro seen i₀ n h
    unfold newItems at h
    split at h
    · cases h
    · exact ih _ _ _ h

/-- What the scan for new items finds: none, or one whose position and novelty are known and beside
which every item is stored or a repeat. -/
theorem newItems_spec {b : B} (items : List (H × TypedArray)) :
    ∀ (seen : List H) (n : ℕ),
      (newItems b items seen [] n = [] →
        ∀ it ∈ items, it.1 ∈ seen ∨ ArrayBackend.contains b it.1 = true) ∧
      ∀ i, newItems b items seen [] n = [i] → n ≤ i ∧ ∃ it, items[i - n]? = some it ∧
        ArrayBackend.contains b it.1 = false ∧
        ∀ it' ∈ items, it'.1 = it.1 ∨ it'.1 ∈ seen ∨ ArrayBackend.contains b it'.1 = true := by
  induction items with
  | nil =>
    intro seen n
    refine ⟨fun _ it h => ?_, fun i h => ?_⟩ <;> cases h
  | cons it items ih =>
    intro seen n
    unfold newItems
    split
    · rename_i hc
      simp only [List.length_nil, Nat.zero_add, Nat.reduceEqDiff, if_false, List.nil_append]
      refine ⟨fun h => ?_, fun i h => ?_⟩
      · have hpre := newItems_ne_nil (b := b) items (it.1 :: seen) n (n + 1)
        exact absurd h hpre
      · obtain ⟨rfl, hrest⟩ := newItems_one _ _ _ _ _ h
        refine ⟨le_rfl, it, by rw [Nat.sub_self]; rfl, hc.2, fun it' h' => ?_⟩
        rcases List.mem_cons.mp h' with rfl | h'
        · exact Or.inl rfl
        · rcases hrest it' h' with h1 | h1
          · rcases List.mem_cons.mp h1 with e | h1
            · exact Or.inl e
            · exact Or.inr (Or.inl h1)
          · exact Or.inr (Or.inr h1)
    · rename_i hc
      have hit : it.1 ∈ seen ∨ ArrayBackend.contains b it.1 = true := by
        by_cases hs : it.1 ∈ seen
        · exact Or.inl hs
        · exact Or.inr (by simpa [hs] using hc)
      have hseen : ∀ it' : H × TypedArray, it'.1 ∈ it.1 :: seen →
          it'.1 ∈ seen ∨ ArrayBackend.contains b it'.1 = true := by
        intro it' h
        rcases List.mem_cons.mp h with e | h
        · rw [e]; exact hit
        · exact Or.inl h
      obtain ⟨h0, h1⟩ := ih (it.1 :: seen) (n + 1)
      refine ⟨fun h it' h' => ?_, fun i h => ?_⟩
      · rcases List.mem_cons.mp h' with rfl | h'
        · exact hit
        · exact (h0 h it' h').elim (hseen it') Or.inr
      · obtain ⟨hn, it₁, hi, hnew, hrest⟩ := h1 i h
        refine ⟨by omega, it₁, ?_, hnew, fun it' h' => ?_⟩
        · rw [show i - n = (i - (n + 1)) + 1 by omega]
          exact hi
        · rcases List.mem_cons.mp h' with rfl | h'
          · exact Or.inr hit
          · rcases hrest it' h' with e | e | e
            · exact Or.inl e
            · exact Or.inr (hseen it' e)
            · exact Or.inr (Or.inr e)

omit [DecidableEq H] in
theorem zip_map_false {items : List (H × TypedArray)} {p : (H × TypedArray) × Bool}
    (h : p ∈ items.zip (items.map fun _ => false)) : p.2 = false := by
  obtain ⟨_, -, e⟩ := List.mem_map.mp (List.of_mem_zip (a := p.1) (b := p.2) h).2
  exact e.symm

omit [DecidableEq H] in
/-- Flags with one of them set mark one item. -/
theorem exists_zip_set {items : List (H × TypedArray)} {i : ℕ} {h x : H} {a : TypedArray}
    {stored : Bool} (hi : items[i]? = some (h, a)) :
    (∃ p ∈ items.zip ((items.map fun _ => false).set i stored), p.1.1 = x ∧ p.2 = true) ↔
      h = x ∧ stored = true := by
  obtain ⟨hlt, hget⟩ := List.getElem?_eq_some_iff.mp hi
  constructor
  · rintro ⟨p, hp, rfl, ht⟩
    obtain ⟨j, hj⟩ := List.getElem?_of_mem hp
    rw [List.getElem?_zip_eq_some, List.getElem?_set] at hj
    obtain ⟨h1, h2⟩ := hj
    split at h2
    · rename_i e
      rw [← e, hi] at h1
      simp only [List.length_map, hlt, if_true, Option.some.injEq] at h2
      rw [← Option.some.inj h1, ← ht, ← h2]
      exact ⟨rfl, rfl⟩
    · rw [List.getElem?_map] at h2
      obtain ⟨_, -, e⟩ := Option.map_eq_some_iff.mp h2
      rw [← e] at ht
      cases ht
  · rintro ⟨rfl, rfl⟩
    refine ⟨((h, a), true), List.mem_of_getElem? (i := i) ?_, rfl, rfl⟩
    rw [List.getElem?_zip_eq_some, hi, List.getElem?_set]
    simp [hlt]

variable [Sha256 H] [LawfulArrayBackend H B]

/-- **Block writes.**  A block that is written adds what the backend did not hold; one that fails
adds some of it at most, and nothing where removals do not fail. -/
theorem putBlock_spec {b : B} {items : List (H × TypedArray)} (g : PackGroup H)
    (hb : LawfulArrayBackend.Valid b) (hnd : (items.map Prod.fst).Nodup)
    (hs : ∀ i ∈ items, i.2.Storable)
    (hshape : ∀ i ∈ items, ∀ j ∈ items, i.2.dtype = j.2.dtype ∧ i.2.shape = j.2.shape) :
    (putBlock (B := B) items g).wp
      (fun r b' => LawfulArrayBackend.Valid b' ∧
        (LawfulArrayBackend.Quiet b → LawfulArrayBackend.Quiet b') ∧
        LawfulArrayBackend.vector b' = LawfulArrayBackend.vector b ∧
        match r with
        | .ok written => LawfulArrayBackend.array b' = orInserted (LawfulArrayBackend.array b) items ∧
          ∀ h, (∃ p ∈ items.zip written, p.1.1 = h ∧ p.2 = true) ↔
            LawfulArrayBackend.array b h = none ∧ ∃ i ∈ items, i.1 = h
        | .error _ =>
          (∀ h, LawfulArrayBackend.array b' h = LawfulArrayBackend.array b h ∨
            LawfulArrayBackend.array b' h = orInserted (LawfulArrayBackend.array b) items h) ∧
          (LawfulArrayBackend.Quiet b →
            LawfulArrayBackend.array b' = LawfulArrayBackend.array b)) b := by
  have hcon := LawfulArrayBackend.contains_iff hb
  obtain ⟨hnone, hone⟩ := newItems_spec (b := b) items [] 0
  have hunchanged : (∀ it ∈ items, ArrayBackend.contains b it.1 = true) →
      orInserted (LawfulArrayBackend.array b) items = LawfulArrayBackend.array b := fun h =>
    orInserted_of_held fun it hit => by rw [← hcon, h it hit]
  unfold putBlock
  rw [Cmd.wp_bind, Cmd.wp_get]
  simp only
  rcases hnew : newItems b items [] [] 0 with _ | ⟨i, _ | ⟨j, rest⟩⟩
  · have hall := hnone hnew
    have hheld : ∀ it ∈ items, ArrayBackend.contains b it.1 = true := fun it hit => by
      simpa using hall it hit
    refine ⟨hb, id, rfl, (hunchanged hheld).symm, fun h => ?_⟩
    constructor
    · rintro ⟨p, hp, -, ht⟩
      rw [zip_map_false hp] at ht
      cases ht
    · rintro ⟨hn, it, hit, rfl⟩
      have := hcon it.1
      rw [hheld it hit, hn] at this
      cases this
  · obtain ⟨-, ⟨h, a⟩, hi, hfresh, hrest⟩ := hone i hnew
    rw [Nat.sub_zero] at hi
    have hmem := List.mem_of_getElem? hi
    have habs : LawfulArrayBackend.array b h = none := by
      have := hcon h
      rw [show ArrayBackend.contains b h = false from hfresh] at this
      simpa using this.symm
    simp only [hi, Cmd.wp_bind]
    refine Cmd.wp_mono (LawfulArrayBackend.putArray_spec h g (loneLayout b a g) hb
      (hs _ hmem)) ?_
    rintro r b' ⟨hv, hq, hvec, hr⟩
    rcases r with e | _ | _
    · exact ⟨hv, hq, hvec, fun h' => Or.inl (by rw [hr]), fun _ => hr⟩
    · rw [habs] at hr
      cases hr.1
    · have hothers : ∀ it ∈ items, it.1 = h ∨ (LawfulArrayBackend.array b it.1).isSome := by
        intro it hit
        rcases hrest it hit with e | e | e
        · exact Or.inl e
        · cases e
        · exact Or.inr (by rw [← hcon, e])
      refine ⟨hv, hq, hvec, hr.2.trans (orInserted_single hnd hmem habs hothers).symm, fun x => ?_⟩
      rw [exists_zip_set hi]
      constructor
      · rintro ⟨rfl, -⟩
        exact ⟨habs, _, hmem, rfl⟩
      · rintro ⟨hn, it, hit, rfl⟩
        rcases hothers it hit with e | e
        · exact ⟨e.symm, rfl⟩
        · rw [hn] at e
          cases e
  · simp only
    refine Cmd.wp_mono (LawfulArrayBackend.putPackedBlock_spec g hb hs hshape) ?_
    rintro r b' ⟨hv, hq, hvec, hr⟩
    rcases r with e | written
    · exact ⟨hv, hq, hvec, hr⟩
    · exact ⟨hv, hq, hvec, hr.1, hr.2.2⟩

/-! ### The map an array store presents -/

namespace ArrayStore

/-- The array held under a hash, buffered or stored. -/
def content (s : ArrayStore H B) (h : H) : Option TypedArray :=
  (s.buffer.get h).or (LawfulArrayBackend.array s.backend h)

/-- The stored timestamp vectors. -/
def vector (s : ArrayStore H B) : H → Option (List ℤ) := LawfulArrayBackend.vector s.backend

/-- The backend and the buffer are each in order, and an array in both is the same array. -/
structure Valid (s : ArrayStore H B) : Prop where
  backend : LawfulArrayBackend.Valid s.backend
  indexed : s.buffer.Indexed
  agree {h : H} {a a' : TypedArray} :
    s.buffer.get h = some a → LawfulArrayBackend.array s.backend h = some a' → a = a'

/-- No removal fails, and no array is in both places. -/
structure Quiet (s : ArrayStore H B) : Prop where
  backend : LawfulArrayBackend.Quiet s.backend
  disjoint {h : H} {a : TypedArray} :
    s.buffer.get h = some a → LawfulArrayBackend.array s.backend h = none

/-- Some buffered arrays have moved to the backend, and nothing else has changed. -/
structure Written (s s' : ArrayStore H B) : Prop where
  valid : s'.Valid
  quiet : s.Quiet → s'.Quiet
  vector : s'.vector = s.vector
  content : s'.content = s.content
  item {k : PoolKey H} {i : ℕ} {h : H} {a : TypedArray} :
    s'.buffer.item k i = some (h, a) → ∃ i', s.buffer.item k i' = some (h, a)

theorem Written.refl {s : ArrayStore H B} (hs : s.Valid) : Written s s :=
  ⟨hs, id, rfl, rfl, fun e => ⟨_, e⟩⟩

theorem Written.trans {s s' s'' : ArrayStore H B} (h : Written s s') (h' : Written s' s'') :
    Written s s'' := by
  refine ⟨h'.valid, h'.quiet ∘ h.quiet, h'.vector.trans h.vector, h'.content.trans h.content, ?_⟩
  intro k i x a e
  obtain ⟨i', e'⟩ := h'.item e
  exact h.item e'

theorem Written.buffered {s s' : ArrayStore H B} (hs : s.Valid) (h : Written s s') {x : H}
    (hx : (s'.buffer.get x).isSome) : (s.buffer.get x).isSome := by
  obtain ⟨a, ha⟩ := Option.isSome_iff_exists.mp hx
  obtain ⟨k, i, hi⟩ := h.valid.indexed.get_eq_some.mp ha
  obtain ⟨i', hi'⟩ := h.item hi
  rw [hs.indexed.get_eq_some.mpr ⟨k, i', hi'⟩]
  rfl

theorem holdsArray_eq {s : ArrayStore H B} (hs : s.Valid) (h : H) :
    s.holdsArray h = (s.content h).isSome := by
  unfold holdsArray content
  rw [hs.indexed.contains_eq, LawfulArrayBackend.contains_iff hs.backend, Option.isSome_or]

/-- The block left when some of it has been written. -/
theorem written_block {s : ArrayStore H B} (hs : s.Valid) {key : PoolKey H} {block : Block H}
    (hb : FMap.get s.buffer.blocks key = some block) (skip : List H) {b' : B}
    (hv : LawfulArrayBackend.Valid b')
    (hq : LawfulArrayBackend.Quiet s.backend → LawfulArrayBackend.Quiet b')
    (hvec : LawfulArrayBackend.vector b' = LawfulArrayBackend.vector s.backend)
    (harr : LawfulArrayBackend.array b' =
      orInserted (LawfulArrayBackend.array s.backend) (block.items.filter (·.1 ∉ skip))) :
    Written s ⟨s.buffer.written key block skip, b'⟩ ∧
      ∀ i h a, (s.buffer.written key block skip).item key i = some (h, a) → h ∈ skip := by
  have hit : ∀ j, s.buffer.item key j = block.items[j]? := WriteBuffer.item_of_block hb
  have hget : ∀ h a, (h, a) ∈ block.items → s.buffer.get h = some a := by
    intro h a e
    obtain ⟨j, hj⟩ := List.getElem?_of_mem e
    exact hs.indexed.get_eq_some.mpr ⟨key, j, by rw [hit, hj]⟩
  have hnd : ((block.items.filter (·.1 ∉ skip)).map Prod.fst).Nodup :=
    (hs.indexed.nodup hb).sublist (List.filter_sublist.map _)
  obtain ⟨hix, hwget⟩ := hs.indexed.written hb skip
  have hout : ∀ h, h ∈ (block.items.filter (·.1 ∉ skip)).map Prod.fst ↔
      h ∈ block.items.map Prod.fst ∧ h ∉ skip := by
    intro h
    simp only [List.mem_map, List.mem_filter, decide_eq_true_eq]
    constructor
    · rintro ⟨it, ⟨h1, h2⟩, rfl⟩
      exact ⟨⟨it, h1, rfl⟩, h2⟩
    · rintro ⟨⟨it, h1, rfl⟩, h2⟩
      exact ⟨it, ⟨h1, h2⟩, rfl⟩
  -- outside the written items nothing has moved
  have hstay : ∀ h a, (s.buffer.written key block skip).get h = some a → s.buffer.get h = some a ∧
      LawfulArrayBackend.array b' h = LawfulArrayBackend.array s.backend h := by
    intro h a e
    rw [hwget] at e
    split at e
    · cases e
    · rename_i hc
      refine ⟨e, ?_⟩
      rw [harr, orInserted_of_not_mem fun c => hc ((hout h).mp c)]
  refine ⟨⟨⟨hv, hix, fun {h a a'} e e' => ?_⟩, fun hQ => ⟨hq hQ.backend, fun {h a} e => ?_⟩, hvec,
    ?_, fun {k i h a} e => ?_⟩, fun i h a e => ?_⟩
  · obtain ⟨e1, e2⟩ := hstay h a e
    exact hs.agree e1 (by rw [← e2, e'])
  · obtain ⟨e1, e2⟩ := hstay h a e
    exact e2.trans (hQ.disjoint e1)
  · funext h
    show ((s.buffer.written key block skip).get h).or (LawfulArrayBackend.array b' h) =
      (s.buffer.get h).or (LawfulArrayBackend.array s.backend h)
    rw [hwget]
    by_cases hc : h ∈ block.items.map Prod.fst ∧ h ∉ skip
    · rw [if_pos hc, Option.none_or, harr]
      obtain ⟨⟨h', a⟩, hmem, rfl⟩ := List.mem_map.mp hc.1
      rw [hget _ _ hmem]
      unfold orInserted
      rw [lookup_of_nodup hnd (List.mem_filter.mpr ⟨hmem, by simpa using hc.2⟩), Option.some_or]
      rcases ha : LawfulArrayBackend.array s.backend h' with _ | a'
      · rfl
      · rw [hs.agree (hget _ _ hmem) ha, Option.some_or]
    · rw [if_neg hc, harr, orInserted_of_not_mem fun c => hc ((hout h).mp c)]
  · simp only [WriteBuffer.item_written] at e
    split at e
    · rename_i hk
      have hmem := List.mem_of_mem_filter (List.mem_of_getElem? e)
      obtain ⟨j, hj⟩ := List.getElem?_of_mem hmem
      exact ⟨j, by rw [hk, hit, hj]⟩
    · exact ⟨i, e⟩
  · rw [WriteBuffer.item_written, if_pos rfl] at e
    simpa using (List.mem_filter.mp (List.mem_of_getElem? e)).2

/-- A block put back after its write failed, whatever the failure left in the backend. -/
theorem putBack_block {s : ArrayStore H B} (hs : s.Valid) {key : PoolKey H} {block : Block H}
    (hb : FMap.get s.buffer.blocks key = some block) (skip : List H) {b' : B}
    (hv : LawfulArrayBackend.Valid b')
    (hq : LawfulArrayBackend.Quiet s.backend → LawfulArrayBackend.Quiet b')
    (hvec : LawfulArrayBackend.vector b' = LawfulArrayBackend.vector s.backend)
    (harr : ∀ h, LawfulArrayBackend.array b' h = LawfulArrayBackend.array s.backend h ∨
      LawfulArrayBackend.array b' h =
        orInserted (LawfulArrayBackend.array s.backend) (block.items.filter (·.1 ∉ skip)) h)
    (hquiet : LawfulArrayBackend.Quiet s.backend →
      LawfulArrayBackend.array b' = LawfulArrayBackend.array s.backend) :
    Written s ⟨s.buffer.putBack key block, b'⟩ := by
  have hit : ∀ j, s.buffer.item key j = block.items[j]? := WriteBuffer.item_of_block hb
  obtain ⟨hix, hpget⟩ := hs.indexed.putBack hb
  have hlook : ∀ h a, (block.items.filter (·.1 ∉ skip)).lookup h = some a →
      s.buffer.get h = some a := by
    intro h a e
    obtain ⟨l₁, l₂, hl, -⟩ := List.lookup_eq_some_iff.mp e
    have hmem : (h, a) ∈ block.items := List.mem_of_mem_filter (by rw [hl]; simp)
    obtain ⟨j, hj⟩ := List.getElem?_of_mem hmem
    exact hs.indexed.get_eq_some.mpr ⟨key, j, by rw [hit, hj]⟩
  -- what a failed write has left in the backend is in the buffer too
  have hextra : ∀ h, LawfulArrayBackend.array b' h = LawfulArrayBackend.array s.backend h ∨
      (LawfulArrayBackend.array b' h).isSome ∧
        LawfulArrayBackend.array b' h = s.buffer.get h := by
    intro h
    rcases harr h with e | e
    · exact Or.inl e
    · unfold orInserted at e
      rcases ha : LawfulArrayBackend.array s.backend h with _ | a
      · rw [ha, Option.none_or] at e
        rcases hl : (block.items.filter (·.1 ∉ skip)).lookup h with _ | a
        · exact Or.inl (by rw [e, hl])
        · exact Or.inr ⟨by rw [e, hl]; rfl, by rw [e, hl, hlook h a hl]⟩
      · exact Or.inl (by rw [e, ha, Option.some_or])
  refine ⟨⟨hv, hix, fun {h a a'} e e' => ?_⟩, fun hQ => ⟨hq hQ.backend, fun {h a} e => ?_⟩, hvec,
    ?_, fun {k i h a} e => ?_⟩
  · rw [show (⟨s.buffer.putBack key block, b'⟩ : ArrayStore H B).buffer.get h = s.buffer.get h from
      congrFun hpget h] at e
    rcases hextra h with c | ⟨-, c⟩
    · exact hs.agree e (c.symm.trans e')
    · exact Option.some.inj (e.symm.trans (c.symm.trans e'))
  · rw [show (⟨s.buffer.putBack key block, b'⟩ : ArrayStore H B).buffer.get h = s.buffer.get h from
      congrFun hpget h] at e
    exact (congrFun (hquiet hQ.backend) h).trans (hQ.disjoint e)
  · funext h
    show ((s.buffer.putBack key block).get h).or (LawfulArrayBackend.array b' h) =
      (s.buffer.get h).or (LawfulArrayBackend.array s.backend h)
    rw [hpget]
    rcases hextra h with c | ⟨hsome, c⟩
    · rw [c]
    · rw [c] at hsome ⊢
      obtain ⟨a, ha⟩ := Option.isSome_iff_exists.mp hsome
      rw [ha]
      rfl
  · have hi : (s.buffer.putBack key block).item = s.buffer.item := by
      funext k i
      unfold WriteBuffer.item WriteBuffer.putBack
      rw [FMap.get_insert, FMap.get_erase, Function.update_idem, ← hb, Function.update_eq_self]
    exact ⟨i, by rw [← hi]; exact e⟩

/-- **Writing a block.**  Whether it succeeds or fails nothing is lost, and a block that is written
keeps only what was to be skipped. -/
theorem writeBlockExcept_spec {s : ArrayStore H B} (hs : s.Valid) (key : PoolKey H)
    (skip : List H) :
    (writeBlockExcept (B := B) key skip).wp
      (fun r s' => Written s s' ∧
        ∀ u, r = .ok u → ∀ i h a, s'.buffer.item key i = some (h, a) → h ∈ skip) s := by
  unfold writeBlockExcept
  rw [Cmd.wp_bind, Cmd.wp_get]
  simp only
  rcases hb : FMap.get s.buffer.blocks key with _ | block
  · rw [Cmd.wp_pure]
    refine ⟨Written.refl hs, fun _ _ i h a e => ?_⟩
    unfold WriteBuffer.item at e
    rw [hb] at e
    cases e
  have hit : ∀ j, s.buffer.item key j = block.items[j]? := WriteBuffer.item_of_block hb
  have hpool : ∀ it ∈ block.items, it.2.Storable ∧ poolKey it.2 key.group = key := by
    intro it hmem
    obtain ⟨j, hj⟩ := List.getElem?_of_mem hmem
    exact hs.indexed.pooled (k := key) (i := j) (by rw [hit, hj])
  simp only
  split
  · rename_i he
    simp only [Cmd.wp_bind, Cmd.wp_pure, modifyBuffer, Cmd.wp_modify]
    obtain ⟨hw, hskip⟩ := written_block hs hb skip hs.backend id rfl
      (by rw [he]; exact (orInserted_of_held fun _ h => by cases h).symm)
    exact ⟨hw, fun _ _ => hskip⟩
  · simp only [Cmd.wp_bind, Cmd.wp_attempt, onBackend, Cmd.wp_zoom]
    have hmem : ∀ it ∈ block.items.filter (·.1 ∉ skip), it ∈ block.items := fun _ =>
      List.mem_of_mem_filter
    refine Cmd.wp_mono (putBlock_spec key.group hs.backend
      ((hs.indexed.nodup hb).sublist (List.filter_sublist.map _))
      (fun it h => (hpool it (hmem it h)).1)
      (fun it h it' h' => ?_)) ?_
    · obtain ⟨h1, h2⟩ := hpool it (hmem it h)
      obtain ⟨h3, h4⟩ := hpool it' (hmem it' h')
      exact poolKey_shape h1 h3 (h2.trans h4.symm)
    · rintro r b' ⟨hv, hq, hvec, hr⟩
      rcases r with e | w
      · simp only [Cmd.wp_bind, modifyBuffer, Cmd.wp_modify, Cmd.wp_throw]
        exact ⟨putBack_block hs hb skip hv hq hvec hr.1 hr.2, fun _ h => by cases h⟩
      · simp only [modifyBuffer, Cmd.wp_modify]
        obtain ⟨hw, hskip⟩ := written_block hs hb skip hv hq hvec hr.1
        exact ⟨hw, fun _ _ => hskip⟩

theorem writeBlock_spec {s : ArrayStore H B} (hs : s.Valid) (key : PoolKey H) :
    (writeBlock (B := B) key).wp (fun _ s' => Written s s') s :=
  Cmd.wp_mono (writeBlockExcept_spec hs key []) fun _ _ h => h.1

/-- Writing blocks one after the other: the written pools keep only what was to be skipped. -/
theorem writeBlocksExcept_spec (skip : List H) (keys : List (PoolKey H)) :
    ∀ {s : ArrayStore H B}, s.Valid →
      (keys.forM fun key => writeBlockExcept (B := B) key skip).wp
        (fun r s' => Written s s' ∧ ∀ u, r = .ok u →
          ∀ k ∈ keys, ∀ i h a, s'.buffer.item k i = some (h, a) → h ∈ skip) s := by
  induction keys with
  | nil =>
    intro s hs
    exact ⟨Written.refl hs, fun _ _ _ h => by cases h⟩
  | cons key keys ih =>
    intro s hs
    rw [Cmd.wp_forM_cons]
    refine Cmd.wp_mono (writeBlockExcept_spec hs key skip) ?_
    rintro r s₁ ⟨hw, hskip⟩
    rcases r with e | u
    · exact ⟨hw, fun _ h => by cases h⟩
    · simp only
      refine Cmd.wp_mono (ih hw.valid) ?_
      rintro r s₂ ⟨hw', hskip'⟩
      refine ⟨hw.trans hw', fun v hv k hk i h a e => ?_⟩
      rcases List.mem_cons.mp hk with rfl | hk
      · obtain ⟨i', e'⟩ := hw'.item e
        exact hskip u rfl i' h a e'
      · exact hskip' v hv k hk i h a e

/-- **Writing the buffer out.**  Nothing is lost, and on success only skipped arrays stay
buffered. -/
theorem writeAllExcept_spec {s : ArrayStore H B} (hs : s.Valid) (skip : List H) :
    (writeAllExcept (B := B) skip).wp
      (fun r s' => Written s s' ∧ ∀ u, r = .ok u → ∀ h, (s'.buffer.get h).isSome → h ∈ skip) s := by
  unfold writeAllExcept
  rw [Cmd.wp_bind, Cmd.wp_get]
  simp only
  refine Cmd.wp_mono (writeBlocksExcept_spec skip _ hs) ?_
  rintro r s' ⟨hw, hskip⟩
  refine ⟨hw, fun u hu h hh => ?_⟩
  obtain ⟨a, ha⟩ := Option.isSome_iff_exists.mp hh
  obtain ⟨k, i, hi⟩ := hw.valid.indexed.get_eq_some.mp ha
  obtain ⟨i', hi'⟩ := hw.item hi
  refine hskip u hu k ?_ i h a hi
  show k ∈ s.buffer.blocks
  rw [FMap.mem_iff_isSome]
  unfold WriteBuffer.item at hi'
  rcases hb : FMap.get s.buffer.blocks k with _ | block
  · rw [hb] at hi'
    cases hi'
  · rfl

theorem writeHolding_spec {s : ArrayStore H B} (hs : s.Valid) (hashes : List H) :
    (writeHolding (B := B) hashes).wp (fun _ s' => Written s s') s := by
  unfold writeHolding
  rw [Cmd.wp_bind, Cmd.wp_get]
  simp only
  exact Cmd.wp_mono (writeBlocksExcept_spec [] _ hs) fun _ _ h => h.1

theorem evictBlocks_spec (n : ℕ) : ∀ {s : ArrayStore H B}, s.Valid →
    (evictBlocks (B := B) n).wp (fun _ s' => Written s s') s := by
  induction n with
  | zero =>
    intro s hs
    exact Written.refl hs
  | succ n ih =>
    intro s hs
    unfold evictBlocks
    rw [Cmd.wp_bind, Cmd.wp_get]
    simp only
    split
    · exact Written.refl hs
    · split
      · exact Written.refl hs
      · rw [Cmd.wp_bind]
        refine Cmd.wp_mono (writeBlock_spec hs _) fun r s₁ hw => ?_
        rcases r with e | u
        · exact hw
        · exact Cmd.wp_mono (ih hw.valid) fun _ _ hw' => hw.trans hw'

theorem evictOverBudget_spec {s : ArrayStore H B} (hs : s.Valid) :
    (evictOverBudget (B := B)).wp (fun _ s' => Written s s') s := by
  unfold evictOverBudget
  rw [Cmd.wp_bind, Cmd.wp_get]
  exact evictBlocks_spec _ hs

/-! ### Removing and putting -/

/-- **Removing an array.**  It goes, or everything stays; with quiet removals it goes. -/
theorem removeArray_spec {s : ArrayStore H B} (hs : s.Valid) (h : H) :
    (removeArray (B := B) h).wp
      (fun r s' => s'.Valid ∧ s'.vector = s.vector ∧
        (s'.content = s.content ∨ s'.content = Function.update s.content h none) ∧
        (s.Quiet → s'.Quiet ∧ r = .ok () ∧ s'.content = Function.update s.content h none) ∧
        s'.buffer.get = Function.update s.buffer.get h none) s := by
  obtain ⟨hflag, hix, hget⟩ := hs.indexed.remove h
  -- the state without the buffered array
  have hv₁ : (⟨(s.buffer.remove h).2, s.backend⟩ : ArrayStore H B).Valid := by
    refine ⟨hs.backend, hix, fun {h' a a'} e e' => ?_⟩
    rw [show (ArrayStore.buffer _).get h' = Function.update s.buffer.get h none h' from
      congrFun hget h'] at e
    by_cases hh : h' = h
    · subst hh
      rw [Function.update_self] at e
      cases e
    · rw [Function.update_of_ne hh] at e
      exact hs.agree e e'
  have hcontent : ∀ b' : B, ∀ h', h' ≠ h →
      LawfulArrayBackend.array b' h' = LawfulArrayBackend.array s.backend h' →
      (⟨(s.buffer.remove h).2, b'⟩ : ArrayStore H B).content h' = s.content h' := by
    intro b' h' hne e
    show ((s.buffer.remove h).2.get h').or (LawfulArrayBackend.array b' h') = _
    rw [hget, Function.update_of_ne hne, e]
    rfl
  have hself : ∀ b' : B, (⟨(s.buffer.remove h).2, b'⟩ : ArrayStore H B).content h =
      LawfulArrayBackend.array b' h := by
    intro b'
    show ((s.buffer.remove h).2.get h).or (LawfulArrayBackend.array b' h) = _
    rw [hget, Function.update_self, Option.none_or]
  have hquiet : ∀ b' : B, (∀ h', h' ≠ h →
      LawfulArrayBackend.array b' h' = LawfulArrayBackend.array s.backend h') →
      LawfulArrayBackend.Quiet b' → s.Quiet →
      (⟨(s.buffer.remove h).2, b'⟩ : ArrayStore H B).Quiet := by
    intro b' hsame hq hQ
    refine ⟨hq, fun {h' a} e => ?_⟩
    rw [show (ArrayStore.buffer _).get h' = Function.update s.buffer.get h none h' from
      congrFun hget h'] at e
    by_cases hh : h' = h
    · subst hh
      rw [Function.update_self] at e
      cases e
    · rw [Function.update_of_ne hh] at e
      exact (hsame h' hh).trans (hQ.disjoint e)
  unfold removeArray
  simp only [Cmd.wp_bind, Cmd.wp_get, Cmd.wp_set]
  split
  · rename_i hf
    obtain ⟨a, ha⟩ := Option.isSome_iff_exists.mp (hflag.symm.trans hf)
    rw [Cmd.wp_pure]
    refine ⟨hv₁, rfl, ?_, fun hQ => ⟨hquiet _ (fun _ _ => rfl) hQ.backend hQ, rfl, ?_⟩, hget⟩
    · rcases hb : LawfulArrayBackend.array s.backend h with _ | a'
      · refine Or.inr (funext fun h' => ?_)
        by_cases hh : h' = h
        · subst hh
          rw [hself, Function.update_self, hb]
        · rw [hcontent _ _ hh rfl, Function.update_of_ne hh]
      · refine Or.inl (funext fun h' => ?_)
        by_cases hh : h' = h
        · subst hh
          rw [hself]
          unfold content
          rw [ha, hs.agree ha hb, hb]
          rfl
        · rw [hcontent _ _ hh rfl]
    · funext h'
      by_cases hh : h' = h
      · subst hh
        rw [hself, Function.update_self, hQ.disjoint ha]
      · rw [hcontent _ _ hh rfl, Function.update_of_ne hh]
  · rename_i hf
    have hn : s.buffer.get h = none := by
      rcases e : s.buffer.get h with _ | a
      · rfl
      · rw [hflag, e] at hf
        exact absurd rfl hf
    simp only [onBackend, Cmd.wp_zoom]
    refine Cmd.wp_mono (LawfulArrayBackend.removeArray_spec h hs.backend) ?_
    rintro r b' ⟨hvb, hqb, hvec, hr⟩
    -- the backend's arrays under the other hashes are untouched
    have hsame : ∀ h', h' ≠ h →
        LawfulArrayBackend.array b' h' = LawfulArrayBackend.array s.backend h' := by
      intro h' hne
      rcases r with e | u
      · rw [show LawfulArrayBackend.array b' = _ from hr]
      · rw [show LawfulArrayBackend.array b' = _ from hr, Function.update_of_ne hne]
    have hgone : ∀ u, r = .ok u → (⟨(s.buffer.remove h).2, b'⟩ : ArrayStore H B).content =
        Function.update s.content h none := by
      rintro u rfl
      funext h'
      by_cases hh : h' = h
      · subst hh
        rw [hself, Function.update_self, show LawfulArrayBackend.array b' = _ from hr,
          Function.update_self]
      · rw [hcontent _ _ hh (hsame h' hh), Function.update_of_ne hh]
    refine ⟨⟨hvb, hix, fun {h' a a'} e e' => ?_⟩, hvec, ?_, fun hQ => ?_, hget⟩
    · have hh : h' ≠ h := by
        rintro rfl
        rw [show (ArrayStore.buffer _).get h' = Function.update s.buffer.get h' none h' from
          congrFun hget h', Function.update_self] at e
        cases e
      exact hv₁.agree e ((hsame h' hh).symm.trans e')
    · rcases r with e | u
      · refine Or.inl (funext fun h' => ?_)
        by_cases hh : h' = h
        · subst hh
          rw [hself, show LawfulArrayBackend.array b' = _ from hr]
          unfold content
          rw [hn, Option.none_or]
        · rw [hcontent _ _ hh (hsame h' hh)]
      · exact Or.inr (hgone u rfl)
    · obtain ⟨hq, hok⟩ := hqb hQ.backend
      exact ⟨hquiet b' hsame hq hQ, hok, hgone () hok⟩

/-- The state between accepting an array and writing anything. -/
theorem accept_spec {s : ArrayStore H B} (hs : s.Valid) {h : H} {a : TypedArray} (g : PackGroup H)
    (hn : s.content h = none) (ha : a.Storable) :
    (⟨s.buffer.accept h a g, s.backend⟩ : ArrayStore H B).Valid ∧
      (s.Quiet → (⟨s.buffer.accept h a g, s.backend⟩ : ArrayStore H B).Quiet) ∧
      (⟨s.buffer.accept h a g, s.backend⟩ : ArrayStore H B).content =
        Function.update s.content h (some a) ∧
      (s.buffer.accept h a g).get = Function.update s.buffer.get h (some a) := by
  obtain ⟨hn1, hn2⟩ := Option.or_eq_none_iff.mp hn
  obtain ⟨hix, hget⟩ := hs.indexed.accept g hn1 ha
  have hcases : ∀ h' a', (s.buffer.accept h a g).get h' = some a' →
      h' = h ∨ s.buffer.get h' = some a' := by
    intro h' a' e
    rw [hget] at e
    by_cases hh : h' = h
    · exact Or.inl hh
    · rw [Function.update_of_ne hh] at e
      exact Or.inr e
  refine ⟨⟨hs.backend, hix, fun {h' a₁ a₂} e e' => ?_⟩, fun hQ => ⟨hQ.backend, fun {h' a'} e => ?_⟩,
    ?_, hget⟩
  · rcases hcases h' a₁ e with rfl | c
    · rw [show LawfulArrayBackend.array _ h' = none from hn2] at e'
      cases e'
    · exact hs.agree c e'
  · rcases hcases h' a' e with rfl | c
    · exact hn2
    · exact hQ.disjoint c
  · funext h'
    show ((s.buffer.accept h a g).get h').or (LawfulArrayBackend.array s.backend h') = _
    rw [hget]
    by_cases hh : h' = h
    · subst hh
      rw [Function.update_self, Function.update_self, Option.some_or]
    · rw [Function.update_of_ne hh, Function.update_of_ne hh]
      rfl

/-- What storing an array under a hash does: on success the hash holds it, on failure everything is
as it was but for what a failed removal of the array may have left. -/
structure Stored (s : ArrayStore H B) (h : H) (a : TypedArray) (ok : Bool) (s' : ArrayStore H B) :
    Prop where
  valid : s'.Valid
  quiet : s.Quiet → s'.Quiet
  vector : s'.vector = s.vector
  fresh : s.content h = none
  content : s'.content = Function.update s.content h (some a) ∨ ok = false ∧ s'.content = s.content
  undone : ok = false → s.Quiet → s'.content = s.content
  buffered {x : H} : (s'.buffer.get x).isSome → (s.buffer.get x).isSome ∨ ok = true ∧ x = h

theorem push_spec {s : ArrayStore H B} (hs : s.Valid) {h : H} {a : TypedArray} (g : PackGroup H)
    (hn : s.content h = none) (ha : a.Storable) :
    (push (B := B) h a g).wp (fun r s' => Stored s h a r.isOk s') s := by
  obtain ⟨hv, hq, hcon, hget⟩ := accept_spec hs g hn ha
  have hbuf : ∀ {s' : ArrayStore H B}, Written ⟨s.buffer.accept h a g, s.backend⟩ s' → ∀ {x},
      (s'.buffer.get x).isSome → (s.buffer.get x).isSome ∨ x = h := by
    intro s' hw x hx
    have hx' := hw.buffered hv hx
    rw [show (ArrayStore.buffer _).get x = Function.update s.buffer.get h (some a) x from
      congrFun hget x] at hx'
    by_cases hh : x = h
    · exact Or.inr hh
    · rw [Function.update_of_ne hh] at hx'
      exact Or.inl hx'
  unfold push
  simp only [Cmd.wp_bind, Cmd.wp_get, Cmd.wp_set, Cmd.wp_attempt]
  -- the writes the push makes, as one
  have hwrites : ((do
      if s.buffer.widthCap (poolKey a g).dtype (poolKey a g).elementShape (poolKey a g).length ≤
          ((FMap.get (s.buffer.accept h a g).blocks (poolKey a g)).map
            fun b => b.items.length).getD 0 then writeBlock (poolKey a g)
      evictOverBudget : StoreCmd (ArrayStore H B) Unit)).wp
        (fun _ s' => Written ⟨s.buffer.accept h a g, s.backend⟩ s')
        ⟨s.buffer.accept h a g, s.backend⟩ := by
    split
    · rw [Cmd.wp_bind]
      refine Cmd.wp_mono (writeBlock_spec hv _) fun r s₁ hw => ?_
      rcases r with e | u
      · exact hw
      · exact Cmd.wp_mono (evictOverBudget_spec hw.valid) fun _ _ hw' => hw.trans hw'
    · exact evictOverBudget_spec hv
  refine Cmd.wp_mono hwrites fun r s₁ hw => ?_
  have hcon₁ : s₁.content = Function.update s.content h (some a) := hw.content.trans hcon
  rcases r with e | u
  · simp only [Cmd.wp_bind, Cmd.wp_attempt, Cmd.wp_throw]
    refine Cmd.wp_mono (removeArray_spec hw.valid h) ?_
    rintro r s₂ ⟨hv₂, hvec₂, hc₂, hq₂, hg₂⟩
    have hback : Function.update s₁.content h none = s.content := by
      rw [hcon₁, Function.update_idem, ← hn, Function.update_eq_self]
    refine ⟨hv₂, fun hQ => (hq₂ (hw.quiet (hq hQ))).1, hvec₂.trans hw.vector, hn, ?_,
      fun _ hQ => ?_, fun {x} hx => ?_⟩
    · rcases hc₂ with c | c
      · exact Or.inl (c.trans hcon₁)
      · exact Or.inr ⟨rfl, c.trans hback⟩
    · exact (hq₂ (hw.quiet (hq hQ))).2.2.trans hback
    · rw [hg₂] at hx
      by_cases hh : x = h
      · subst hh
        rw [Function.update_self] at hx
        cases hx
      · rw [Function.update_of_ne hh] at hx
        exact Or.inl ((hbuf hw hx).resolve_right hh)
  · refine ⟨hw.valid, hw.quiet ∘ hq, hw.vector, hn, Or.inl hcon₁, fun h => (by cases h),
      fun {x} hx => ?_⟩
    exact (hbuf hw hx).imp_right fun e => ⟨rfl, e⟩

/-- **Storing an array.**  A hash that is held is left alone; a new one is stored, or reported not
to be. -/
theorem putArray_spec {s : ArrayStore H B} (hs : s.Valid) (inTransaction : Bool) (h : H)
    {a : TypedArray} (g : PackGroup H) (l : ArrayLayout) (ha : a.Storable) :
    (putArray (B := B) inTransaction h a g l).wp
      (fun r s' => (r = .ok false ∧ (s.content h).isSome ∧ s' = s) ∨
        (r ≠ .ok false ∧ Stored s h a r.isOk s' ∧
          (inTransaction = false → ∀ x, (s'.buffer.get x).isSome → (s.buffer.get x).isSome))) s := by
  unfold putArray
  rw [Cmd.wp_bind, Cmd.wp_get]
  simp only
  split
  · rename_i hheld
    rw [holdsArray_eq hs] at hheld
    exact Or.inl ⟨rfl, hheld, rfl⟩
  · rename_i hheld
    rw [holdsArray_eq hs] at hheld
    have hn : s.content h = none := by simpa using hheld
    split
    · rename_i hp
      rw [Cmd.wp_bind]
      refine Cmd.wp_mono (push_spec hs g hn ha) fun r s' hst => ?_
      rw [Bool.and_eq_true] at hp
      rcases r with e | u
      · exact Or.inr ⟨by simp, hst, fun hf => by rw [hf] at hp; cases hp.2⟩
      · exact Or.inr ⟨by simp, hst, fun hf => by rw [hf] at hp; cases hp.2⟩
    · simp only [onBackend, Cmd.wp_zoom]
      obtain ⟨hn1, hn2⟩ := Option.or_eq_none_iff.mp hn
      refine Cmd.wp_mono (LawfulArrayBackend.putArray_spec h g l hs.backend ha) ?_
      rintro r b' ⟨hvb, hqb, hvec, hr⟩
      have hcon : ∀ h', h' ≠ h → LawfulArrayBackend.array b' h' =
          LawfulArrayBackend.array s.backend h' := by
        intro h' hne
        rcases r with e | _ | _
        · rw [show LawfulArrayBackend.array b' = _ from hr]
        · rw [show LawfulArrayBackend.array b' = _ from hr.2]
        · rw [show LawfulArrayBackend.array b' = _ from hr.2, Function.update_of_ne hne]
      have hne : ∀ {h' a'}, s.buffer.get h' = some a' → h' ≠ h := by
        rintro h' a' e rfl
        rw [hn1] at e
        cases e
      have hv' : (⟨s.buffer, b'⟩ : ArrayStore H B).Valid :=
        ⟨hvb, hs.indexed, fun {h' a₁ a₂} e e' => hs.agree e (by rw [← hcon h' (hne e), e'])⟩
      have hq' : s.Quiet → (⟨s.buffer, b'⟩ : ArrayStore H B).Quiet := fun hQ =>
        ⟨hqb hQ.backend, fun {h' a'} e => (hcon h' (hne e)).trans (hQ.disjoint e)⟩
      rcases r with e | _ | _
      · have hsame : (⟨s.buffer, b'⟩ : ArrayStore H B).content = s.content := by
          unfold content
          rw [show LawfulArrayBackend.array b' = _ from hr]
        exact Or.inr ⟨by simp, ⟨hv', hq', hvec, hn, Or.inr ⟨rfl, hsame⟩, fun _ _ => hsame,
          fun hx => Or.inl hx⟩, fun _ _ hx => hx⟩
      · rw [hn2] at hr
        cases hr.1
      · refine Or.inr ⟨by simp, ⟨hv', hq', hvec, hn, Or.inl (funext fun h' => ?_),
          fun h => (by cases h), fun hx => Or.inl hx⟩, fun _ _ hx => hx⟩
        show (s.buffer.get h').or (LawfulArrayBackend.array b' h') = _
        rw [hr.2]
        by_cases hh : h' = h
        · subst hh
          rw [Function.update_self, Function.update_self, hn1, Option.none_or]
        · rw [Function.update_of_ne hh, Function.update_of_ne hh]
          rfl

end ArrayStore

end

end InfraStore
