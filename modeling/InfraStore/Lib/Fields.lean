import Mathlib.Data.List.TakeDrop
import Mathlib.Data.List.TakeWhile

/-!
# Fields between separators

Texts that join fields with a separator no field holds, and the two ways of taking them apart: at the
first few separators, and at the first doubled one.

* `splitn`, `splitn_intercalate`: as many fields come back as there are;
* `beforeDouble`, `beforeDouble_append`: what stands before a doubled separator comes back.
-/

namespace InfraStore.Lib

variable {α : Type} [DecidableEq α]

/-- At most `n` pieces, split at the first `n - 1` separators. -/
def splitn (sep : α) : ℕ → List α → List (List α)
  | 0, _ => []
  | 1, s => [s]
  | n + 2, s =>
    match s.span (· ≠ sep) with
    | (piece, []) => [piece]
    | (piece, _ :: rest) => piece :: splitn sep (n + 1) rest

/-- What stands before the first doubled separator. -/
def beforeDouble (sep : α) : List α → List α
  | [] => []
  | [c] => [c]
  | c :: d :: s => if c = sep ∧ d = sep then [] else c :: beforeDouble sep (d :: s)

theorem span_field {sep : α} {f rest : List α} (h : sep ∉ f) :
    (f ++ sep :: rest).span (· ≠ sep) = (f, sep :: rest) := by
  have hall : ∀ c ∈ f, decide (c ≠ sep) = true := by
    intro c hc
    apply decide_eq_true
    rintro rfl
    exact h hc
  rw [List.span_eq_takeWhile_dropWhile, List.takeWhile_append_of_pos hall,
    List.dropWhile_append_of_pos hall]
  simp

/-- **Fields come back**: as many as were joined, whatever the last one holds. -/
theorem splitn_intercalate {sep : α} (fields : List (List α)) (last : List α)
    (h : ∀ f ∈ fields, sep ∉ f) :
    splitn sep (fields.length + 1) (fields.flatMap (fun f => f ++ [sep]) ++ last) = fields ++ [last] := by
  induction fields with
  | nil => rfl
  | cons f fields ih =>
    rw [List.flatMap_cons, List.append_assoc, List.append_assoc, List.singleton_append,
      List.length_cons, splitn, span_field (h f List.mem_cons_self)]
    simp only
    rw [ih fun g hg => h g (List.mem_cons_of_mem _ hg)]
    rfl

/-- A field is kept. -/
theorem beforeDouble_field {sep : α} {f : List α} (h : sep ∉ f) (rest : List α) :
    beforeDouble sep (f ++ rest) = f ++ beforeDouble sep rest := by
  induction f with
  | nil => rfl
  | cons c f ih =>
    have hc : c ≠ sep := fun hc => h (hc ▸ List.mem_cons_self)
    have hf : sep ∉ f := fun hf => h (List.mem_cons_of_mem c hf)
    cases hrest : f ++ rest with
    | nil =>
      obtain ⟨rfl, rfl⟩ := List.append_eq_nil_iff.mp hrest
      rfl
    | cons d s =>
      rw [List.cons_append, hrest, beforeDouble, if_neg fun h => hc h.1, ← hrest, ih hf,
        List.cons_append]

/-- A separator before a field is kept. -/
theorem beforeDouble_sep {sep : α} {f : List α} (h : sep ∉ f) (hne : f ≠ []) (rest : List α) :
    beforeDouble sep (sep :: (f ++ rest)) = sep :: beforeDouble sep (f ++ rest) := by
  cases f with
  | nil => exact absurd rfl hne
  | cons c f =>
    have hc : c ≠ sep := fun hc => h (hc ▸ List.mem_cons_self)
    rw [List.cons_append, beforeDouble, if_neg fun h => hc h.2]

/-- **What stands before a doubled separator comes back**, if it is fields joined by one. -/
theorem beforeDouble_append {sep : α} (fields : List (List α)) (last : List α)
    (h : ∀ f ∈ fields ++ [last], sep ∉ f) (hne : ∀ f ∈ fields ++ [last], f ≠ []) {rest : List α}
    (hrest : rest = [] ∨ ∃ more, rest = sep :: sep :: more) :
    beforeDouble sep (fields.flatMap (fun f => f ++ [sep]) ++ last ++ rest) =
      fields.flatMap (fun f => f ++ [sep]) ++ last := by
  induction fields with
  | nil =>
    have hlast : sep ∉ last := h last (by simp)
    rw [List.flatMap_nil, List.nil_append, beforeDouble_field hlast]
    rcases hrest with rfl | ⟨more, rfl⟩
    · rw [beforeDouble, List.append_nil]
    · rw [beforeDouble, if_pos ⟨rfl, rfl⟩, List.append_nil]
  | cons f fields ih =>
    have ih := ih (fun g hg => h g (List.mem_cons_of_mem _ hg))
      (fun g hg => hne g (List.mem_cons_of_mem _ hg))
    have hnext : ∃ g more, sep ∉ g ∧ g ≠ [] ∧
        fields.flatMap (fun f => f ++ [sep]) ++ last ++ rest = g ++ more := by
      cases fields with
      | nil => exact ⟨last, rest, h last (by simp), hne last (by simp), rfl⟩
      | cons g fields =>
        refine ⟨g, [sep] ++ (fields.flatMap (fun f => f ++ [sep]) ++ (last ++ rest)),
          h g (by simp), hne g (by simp), ?_⟩
        rw [List.flatMap_cons]
        simp only [List.append_assoc]
    obtain ⟨g, more, hg, hgne, hsplit⟩ := hnext
    rw [List.flatMap_cons, List.append_assoc, List.append_assoc, List.append_assoc,
      beforeDouble_field (h f (by simp)), List.singleton_append, ← List.append_assoc, hsplit,
      beforeDouble_sep hg hgne, ← hsplit, ih]
    simp only [List.append_assoc, List.cons_append, List.nil_append]

end InfraStore.Lib
