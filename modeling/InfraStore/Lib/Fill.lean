import Mathlib.Algebra.BigOperators.Group.List.Basic
import Mathlib.Algebra.Order.Ring.Nat
import Mathlib.Data.List.Basic
import Mathlib.Data.Set.Basic
import Mathlib.Order.SetNotation

/-!
# Filling a buffer block by block

A buffer written by copies of blocks of what it is to hold: the copies may come in any order and
overlap, and once they cover the buffer it holds what it was to hold.

* `copyAt`: one copy, refused where the block does not fit;
* `Fills`: a step keeps the places that are right and makes those of a set right;
* `Fills.foldlM`: a loop of such steps succeeds, and fills what its steps fill;
* `startOf`: where each of several parts of a buffer starts, and that the parts cover it;
* `rowStrips`: a run of rows cut into strips of a height, and that the strips cover the run.
-/

namespace InfraStore.Lib

variable {α : Type}

/-- Copy a block over a part of a buffer; nothing, where it does not fit. -/
def copyAt (buf : List α) (dst : ℕ) (block : List α) : Option (List α) :=
  if dst + block.length ≤ buf.length then
    some (buf.take dst ++ block ++ buf.drop (dst + block.length))
  else none

/-- From one buffer to the next every place that agrees with `want` still does, and those of a set now
do. -/
structure Fills (want out out' : List α) (S : Set ℕ) : Prop where
  length : out'.length = out.length
  kept {p : ℕ} : out[p]? = want[p]? → out'[p]? = want[p]?
  filled {p : ℕ} : p ∈ S → out'[p]? = want[p]?

namespace Fills

variable {want out out' out'' : List α} {S T : Set ℕ}

theorem refl : Fills want out out ∅ := ⟨rfl, id, fun h => h.elim⟩

theorem trans (h : Fills want out out' S) (h' : Fills want out' out'' T) :
    Fills want out out'' (S ∪ T) where
  length := h'.length.trans h.length
  kept hp := h'.kept (h.kept hp)
  filled hp := hp.elim (fun hs => h'.kept (h.filled hs)) h'.filled

theorem mono (h : Fills want out out' S) (hT : T ⊆ S) : Fills want out out' T :=
  ⟨h.length, h.kept, fun hp => h.filled (hT hp)⟩

/-- A buffer all of whose places are filled holds what it was to hold. -/
theorem complete (h : Fills want out out' S) (hlen : out.length = want.length)
    (hS : ∀ p < want.length, p ∈ S) : out' = want := by
  apply List.ext_getElem?
  intro p
  by_cases hp : p < want.length
  · exact h.filled (hS p hp)
  · have hle : want.length ≤ p := Nat.le_of_not_lt hp
    rw [List.getElem?_eq_none hle, List.getElem?_eq_none (by rw [h.length, hlen]; exact hle)]

/-- **Copies.**  A copy of a block of what the buffer is to hold fits, and fills its place. -/
theorem copy {dst n : ℕ} (hlen : out.length = want.length) (hn : dst + n ≤ want.length) :
    ∃ out', copyAt out dst ((want.drop dst).take n) = some out' ∧
      Fills want out out' {p | dst ≤ p ∧ p < dst + n} := by
  have hblock : ((want.drop dst).take n).length = n := by
    rw [List.length_take, List.length_drop]
    omega
  have htake : (out.take dst).length = dst := by
    rw [List.length_take]
    omega
  unfold copyAt
  rw [hblock, if_pos (by omega)]
  refine ⟨_, rfl, ?_, ?_, ?_⟩
  · rw [List.length_append, List.length_append, htake, hblock, List.length_drop]
    omega
  · intro p hp
    by_cases h1 : p < dst
    · rw [List.append_assoc, List.getElem?_append_left (by omega), List.getElem?_take_of_lt h1]
      exact hp
    · by_cases h2 : p < dst + n
      · rw [List.append_assoc, List.getElem?_append_right (by omega), htake,
          List.getElem?_append_left (by omega), List.getElem?_take_of_lt (by omega),
          List.getElem?_drop]
        congr 1
        omega
      · rw [List.getElem?_append_right (by rw [List.length_append]; omega), List.length_append,
          htake, hblock, List.getElem?_drop]
        rw [show dst + n + (p - (dst + n)) = p by omega]
        exact hp
  · intro p hp
    rw [List.append_assoc, List.getElem?_append_right (by rw [htake]; exact hp.1), htake,
      List.getElem?_append_left (by rw [hblock]; have := hp.1; have := hp.2; omega),
      List.getElem?_take_of_lt (by have := hp.1; have := hp.2; omega), List.getElem?_drop]
    congr 1
    have := hp.1
    omega

/-- **Loops.**  A loop whose every step, on any buffer of the length, succeeds and fills its places
succeeds and fills them all. -/
theorem foldlM {ε ι : Type} {f : List α → ι → Except ε (List α)} {S : ι → Set ℕ} (items : List ι)
    (hstep : ∀ x ∈ items, ∀ out : List α, out.length = want.length →
      ∃ out', f out x = .ok out' ∧ Fills want out out' (S x)) :
    ∀ out : List α, out.length = want.length →
      ∃ out', items.foldlM f out = .ok out' ∧ Fills want out out' {p | ∃ x ∈ items, p ∈ S x} := by
  induction items with
  | nil =>
    intro out _
    exact ⟨out, rfl, refl.mono fun p hp => by obtain ⟨x, hx, -⟩ := hp; cases hx⟩
  | cons x items ih =>
    intro out hlen
    obtain ⟨mid, hmid, hfill⟩ := hstep x List.mem_cons_self out hlen
    obtain ⟨out', hout, hrest⟩ := ih (fun y hy => hstep y (List.mem_cons_of_mem x hy)) mid
      (hfill.length.trans hlen)
    refine ⟨out', ?_, (hfill.trans hrest).mono ?_⟩
    · rw [List.foldlM_cons, hmid]
      exact hout
    · rintro p ⟨y, hy, hp⟩
      cases hy with
      | head => exact .inl hp
      | tail _ hy => exact .inr ⟨y, hy, hp⟩

end Fills

/-! ### Parts -/

/-- Where a part starts in the parts one after the other. -/
def startOf (parts : List (List α)) (i : ℕ) : ℕ := ((parts.take i).map List.length).sum

theorem startOf_append {parts : List (List α)} {i : ℕ} (h : i ≤ parts.length) (more : List (List α)) :
    startOf (parts ++ more) i = startOf parts i := by
  unfold startOf
  rw [List.take_append_of_le_length h]

theorem startOf_length (parts : List (List α)) : startOf parts parts.length = parts.flatten.length := by
  unfold startOf
  rw [List.take_length, List.length_flatten]

/-- A part, read where it starts. -/
theorem startOf_part {parts : List (List α)} {i : ℕ} {part : List α} (h : parts[i]? = some part) :
    startOf parts i + part.length ≤ parts.flatten.length ∧
      ∀ q n, q + n ≤ part.length →
        (parts.flatten.drop (startOf parts i + q)).take n = (part.drop q).take n := by
  obtain ⟨hlt, hget⟩ := List.getElem?_eq_some_iff.mp h
  have hsplit : parts = parts.take i ++ part :: parts.drop (i + 1) := by
    rw [← hget, List.getElem_cons_drop, List.take_append_drop]
  have hstart : startOf parts i = (parts.take i).flatten.length := by
    rw [startOf, List.length_flatten]
  have hflat : parts.flatten = (parts.take i).flatten ++ (part ++ (parts.drop (i + 1)).flatten) := by
    conv_lhs => rw [hsplit]
    rw [List.flatten_append, List.flatten_cons]
  constructor
  · rw [hflat, hstart, List.length_append, List.length_append]
    omega
  · intro q n hq
    rw [hflat, hstart, ← List.drop_drop, List.drop_left' rfl, List.drop_append_of_le_length (by omega),
      List.take_append_of_le_length (by rw [List.length_drop]; omega)]

/-- Every place lies in a part. -/
theorem exists_part (parts : List (List α)) {x : ℕ} (hx : x < parts.flatten.length) :
    ∃ i part, parts[i]? = some part ∧ startOf parts i ≤ x ∧ x < startOf parts i + part.length := by
  induction parts generalizing x with
  | nil => cases hx
  | cons part parts ih =>
    by_cases hlt : x < part.length
    · exact ⟨0, part, rfl, Nat.zero_le x, by simpa [startOf] using hlt⟩
    · rw [List.flatten_cons, List.length_append] at hx
      obtain ⟨i, p, hp, h1, h2⟩ := ih (x := x - part.length) (by omega)
      have hstart : startOf (part :: parts) (i + 1) = part.length + startOf parts i := by
        simp [startOf]
      exact ⟨i + 1, p, hp, by omega, by omega⟩

/-! ### Strips of rows -/

/-- The rows `start..stop` in strips of at most `height`. -/
def rowStrips (start stop height : ℕ) : List (ℕ × ℕ) :=
  if start < stop then
    (start, min (start + max height 1) stop) ::
      rowStrips (min (start + max height 1) stop) stop height
  else []
termination_by stop - start

theorem mem_rowStrips {start stop height : ℕ} {strip : ℕ × ℕ}
    (h : strip ∈ rowStrips start stop height) :
    start ≤ strip.1 ∧ strip.1 < strip.2 ∧ strip.2 ≤ stop := by
  induction start using rowStrips.induct stop height with
  | case1 start hlt ih =>
    rw [rowStrips, if_pos hlt] at h
    cases h with
    | head =>
      simp only
      omega
    | tail _ h =>
      have := ih h
      omega
  | case2 start hge =>
    rw [rowStrips, if_neg hge] at h
    cases h

/-- The strips are the rows, cut. -/
theorem rowStrips_flatMap {β : Type} (start stop height : ℕ) (f : ℕ → List β) :
    ((rowStrips start stop height).flatMap fun strip =>
      (List.range' strip.1 (strip.2 - strip.1)).flatMap f) =
      (List.range' start (stop - start)).flatMap f := by
  induction start using rowStrips.induct stop height with
  | case1 start hlt ih =>
    obtain ⟨mid, hmid⟩ : ∃ mid, min (start + max height 1) stop = start + mid :=
      Nat.exists_eq_add_of_le (by omega)
    have hrange : List.range' start mid ++ List.range' (start + mid) (stop - (start + mid)) =
        List.range' start (stop - start) := by
      rw [List.range'_append_1]
      congr 1
      omega
    rw [hmid] at ih
    rw [rowStrips, if_pos hlt, hmid, List.flatMap_cons, ih, ← List.flatMap_append, ← hrange,
      Nat.add_sub_cancel_left]
  | case2 start hge =>
    rw [rowStrips, if_neg hge, show stop - start = 0 by omega]
    rfl

theorem exists_rowStrip {start stop r : ℕ} (height : ℕ) (hlo : start ≤ r) (hhi : r < stop) :
    ∃ strip ∈ rowStrips start stop height, strip.1 ≤ r ∧ r < strip.2 := by
  revert hlo
  induction start using rowStrips.induct stop height with
  | case1 start hlt ih =>
    intro hlo
    rw [rowStrips, if_pos hlt]
    by_cases hr : r < min (start + max height 1) stop
    · exact ⟨_, List.mem_cons_self, hlo, hr⟩
    · obtain ⟨strip, hs, hin⟩ := ih (by omega)
      exact ⟨strip, List.mem_cons_of_mem _ hs, hin⟩
  | case2 start hge =>
    intro hlo
    omega

end InfraStore.Lib
