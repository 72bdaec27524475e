import Mathlib.Data.List.Basic
import Mathlib.Data.List.TakeWhile

/-!
# Searching ordered sequences

The two searches over a sequence that a predicate cuts in two: the index of the cut in a list, and a
binary search whose probe may fail.

* `partitionPoint`: how many leading elements satisfy the predicate;
* `lowerBound`: the same index found by halving, with a probe that can end in an error;
* `lowerBound_spec`: everything below the index it ends with satisfies the probe, and the index
  itself does not.
-/

namespace InfraStore.Lib

/-! ### The cut of a list -/

section

variable {α : Type}

/-- How many leading elements satisfy a predicate. -/
def partitionPoint (p : α → Bool) (l : List α) : ℕ := (l.takeWhile p).length

theorem partitionPoint_le (p : α → Bool) (l : List α) : partitionPoint p l ≤ l.length :=
  (List.takeWhile_prefix p).length_le

/-- In a list the predicate cuts in two, the elements before the cut are those that satisfy it. -/
theorem lt_partitionPoint_iff {p : α → Bool} {l : List α}
    (hl : l.Pairwise fun a b => p b = true → p a = true) {i : ℕ} {a : α} (ha : l[i]? = some a) :
    i < partitionPoint p l ↔ p a = true := by
  unfold partitionPoint
  induction l generalizing i with
  | nil => cases ha
  | cons b l ih =>
    obtain ⟨hb, hl⟩ := List.pairwise_cons.mp hl
    rw [List.takeWhile_cons]
    cases hp : p b with
    | true =>
      rw [if_pos rfl, List.length_cons]
      cases i with
      | zero =>
        cases ha
        simp [hp]
      | succ i =>
        rw [Nat.succ_lt_succ_iff]
        exact ih hl ha
    | false =>
      simp only [Bool.false_eq_true, if_false, List.length_nil, Nat.not_lt_zero, false_iff]
      intro h
      cases i with
      | zero =>
        cases ha
        rw [hp] at h
        cases h
      | succ i =>
        have := hb a (List.mem_of_getElem? (show l[i]? = some a from ha)) h
        rw [hp] at this
        cases this

/-- A predicate that holds of less holds up to an earlier cut. -/
theorem partitionPoint_mono {p q : α → Bool} (l : List α) (h : ∀ a, p a = true → q a = true) :
    partitionPoint p l ≤ partitionPoint q l := by
  unfold partitionPoint
  induction l with
  | nil => exact le_rfl
  | cons b l ih =>
    rw [List.takeWhile_cons, List.takeWhile_cons]
    cases hp : p b with
    | true =>
      rw [if_pos rfl, if_pos (h b hp)]
      exact Nat.succ_le_succ ih
    | false => exact Nat.zero_le _

end

/-! ### Binary search -/

section

variable {ε : Type}

/-- The first index from `lo` on at which the probe answers no, `hi` if there is none below it.
`fuel` turns are enough when they are at least as many as there are indices. -/
def lowerBound (below : ℕ → Except ε Bool) : ℕ → ℕ → ℕ → Except ε ℕ
  | 0, lo, _ => .ok lo
  | fuel + 1, lo, hi =>
    if lo < hi then
      match below (lo + (hi - lo) / 2) with
      | .error e => .error e
      | .ok true => lowerBound below fuel (lo + (hi - lo) / 2 + 1) hi
      | .ok false => lowerBound below fuel lo (lo + (hi - lo) / 2)
    else .ok lo

variable {below : ℕ → Except ε Bool}

/-- **Binary search.**  With a probe that answers yes below every index it answers yes at, what is
found is the cut: yes before it, and no at it. -/
theorem lowerBound_spec (hmono : ∀ i j, i ≤ j → below j = .ok true → below i = .ok true)
    {fuel lo hi w : ℕ} (hfuel : hi - lo ≤ fuel) (hle : lo ≤ hi)
    (h : lowerBound below fuel lo hi = .ok w) :
    lo ≤ w ∧ w ≤ hi ∧ (∀ i, lo ≤ i → i < w → below i = .ok true) ∧
      (w < hi → below w = .ok false) := by
  induction fuel generalizing lo hi with
  | zero =>
    cases h
    exact ⟨le_rfl, hle, fun i h1 h2 => by omega, fun h1 => by omega⟩
  | succ fuel ih =>
    rw [lowerBound] at h
    split at h
    · rename_i hlt
      cases hmid : below (lo + (hi - lo) / 2) with
      | error e =>
        rw [hmid] at h
        cases h
      | ok b =>
        rw [hmid] at h
        cases b with
        | true =>
          obtain ⟨h1, h2, h3, h4⟩ := ih (by omega) (by omega) h
          refine ⟨by omega, h2, fun i hi1 hi2 => ?_, h4⟩
          by_cases hi3 : i ≤ lo + (hi - lo) / 2
          · exact hmono i _ hi3 hmid
          · exact h3 i (by omega) hi2
        | false =>
          obtain ⟨h1, h2, h3, h4⟩ := ih (by omega) (by omega) h
          refine ⟨h1, by omega, h3, fun _ => ?_⟩
          by_cases hw : w < lo + (hi - lo) / 2
          · exact h4 hw
          · have : w = lo + (hi - lo) / 2 := by omega
            rw [this]
            exact hmid
    · cases h
      exact ⟨le_rfl, hle, fun i h1 h2 => by omega, fun h1 => by omega⟩

/-- The search stays within its bounds, whatever the probe answers. -/
theorem lowerBound_mem {fuel lo hi w : ℕ} (hle : lo ≤ hi)
    (h : lowerBound below fuel lo hi = .ok w) : lo ≤ w ∧ w ≤ hi := by
  induction fuel generalizing lo hi with
  | zero =>
    cases h
    exact ⟨le_rfl, hle⟩
  | succ fuel ih =>
    rw [lowerBound] at h
    split at h
    · split at h
      · cases h
      · have := ih (by omega) h
        omega
      · have := ih (by omega) h
        omega
    · cases h
      exact ⟨le_rfl, hle⟩

/-- The search ends in an index when the probe answers at every index it may ask. -/
theorem lowerBound_ok {fuel lo hi : ℕ} (h : ∀ i, lo ≤ i → i < hi → ∃ b, below i = .ok b) :
    ∃ w, lowerBound below fuel lo hi = .ok w := by
  induction fuel generalizing lo hi with
  | zero => exact ⟨lo, rfl⟩
  | succ fuel ih =>
    rw [lowerBound]
    split
    · rename_i hlt
      obtain ⟨b, hb⟩ := h (lo + (hi - lo) / 2) (by omega) (by omega)
      rw [hb]
      cases b with
      | true => exact ih fun i h1 h2 => h i (by omega) h2
      | false => exact ih fun i h1 h2 => h i h1 (by omega)
    · exact ⟨lo, rfl⟩

end

end InfraStore.Lib
