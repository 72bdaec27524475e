import Mathlib.Data.List.Forall2

/-!
# Self-delimiting codes

A code whose words can be told off the front of any stream: two streams that each start with a word are
equal only where the words are of the same value and the rests are equal.  The same value is whatever
the code keeps of it, so the code is read up to a relation.

* `Delimited`: a code tells its values up to a relation, whatever follows;
* `Delimited.of_length`, `Delimited.append`: fixed width, and one code after another;
* `Delimited.flatMap`: the words of as many values, one after another;
* `Delimited.terminated`, `Delimited.flatMapUntil`: a mark ends a word, or a run of words.
-/

namespace InfraStore.Lib

variable {α β σ : Type}

/-- Two words of a code are told apart up to `R` at the front of any streams. -/
def Delimited (code : α → List σ) (valid : α → Prop) (R : α → α → Prop) : Prop :=
  ∀ a b r r', valid a → valid b → code a ++ r = code b ++ r' → R a b ∧ r = r'

namespace Delimited

variable {code tail : α → List σ} {valid : α → Prop} {R S : α → α → Prop}

/-- Words of one length. -/
theorem of_length {n : ℕ} (hlen : ∀ a, valid a → (code a).length = n)
    (hinj : ∀ a b, valid a → valid b → code a = code b → R a b) : Delimited code valid R := by
  intro a b r r' ha hb h
  obtain ⟨h1, h2⟩ := List.append_inj h ((hlen a ha).trans (hlen b hb).symm)
  exact ⟨hinj a b ha hb h1, h2⟩

/-- One word after another, the second read in the light of the first. -/
theorem append (h : Delimited code valid R)
    (ht : ∀ a b r r', valid a → valid b → R a b → tail a ++ r = tail b ++ r' → S a b ∧ r = r') :
    Delimited (fun a => code a ++ tail a) valid fun a b => R a b ∧ S a b := by
  intro a b r r' ha hb heq
  rw [List.append_assoc, List.append_assoc] at heq
  obtain ⟨hR, hrest⟩ := h a b _ _ ha hb heq
  obtain ⟨hS, hr⟩ := ht a b r r' ha hb hR hrest
  exact ⟨⟨hR, hS⟩, hr⟩

/-- One word after another, each read by itself. -/
theorem seq (h : Delimited code valid R) (ht : Delimited tail valid S) :
    Delimited (fun a => code a ++ tail a) valid fun a b => R a b ∧ S a b :=
  h.append fun a b r r' ha hb _ heq => ht a b r r' ha hb heq

theorem mono (h : Delimited code valid R) (hRS : ∀ a b, valid a → valid b → R a b → S a b) :
    Delimited code valid S := by
  intro a b r r' ha hb heq
  obtain ⟨hR, hr⟩ := h a b r r' ha hb heq
  exact ⟨hRS a b ha hb hR, hr⟩

/-- A word is told by itself. -/
theorem inj (h : Delimited code valid R) {a b : α} (ha : valid a) (hb : valid b)
    (heq : code a = code b) : R a b :=
  (h a b [] [] ha hb (by rw [heq])).1

/-- As many words, one after another. -/
theorem flatMap (h : Delimited code valid R) {as : List α} : ∀ {bs : List α} {r r' : List σ},
    (∀ a ∈ as, valid a) → (∀ b ∈ bs, valid b) → as.length = bs.length →
    as.flatMap code ++ r = bs.flatMap code ++ r' → List.Forall₂ R as bs ∧ r = r' := by
  induction as with
  | nil =>
    intro bs r r' _ _ hlen heq
    rw [List.length_eq_zero_iff.mp hlen.symm] at heq ⊢
    exact ⟨.nil, heq⟩
  | cons a as ih =>
    intro bs r r' ha hb hlen heq
    cases bs with
    | nil => cases hlen
    | cons b bs =>
      rw [List.flatMap_cons, List.flatMap_cons, List.append_assoc, List.append_assoc] at heq
      obtain ⟨hR, hrest⟩ := h a b _ _ (ha a List.mem_cons_self) (hb b List.mem_cons_self) heq
      obtain ⟨hall, hr⟩ := ih (fun x hx => ha x (List.mem_cons_of_mem a hx))
        (fun x hx => hb x (List.mem_cons_of_mem b hx)) (Nat.succ.inj hlen) hrest
      exact ⟨.cons hR hall, hr⟩

/-- As many words, and nothing else. -/
theorem flatMap_inj (h : Delimited code valid R) {as bs : List α} (ha : ∀ a ∈ as, valid a)
    (hb : ∀ b ∈ bs, valid b) (hlen : as.length = bs.length) (heq : as.flatMap code = bs.flatMap code) :
    List.Forall₂ R as bs :=
  (@flatMap _ _ code valid R h as bs [] [] ha hb hlen (by rw [heq])).1

/-- A word that a mark ends, and that does not have the mark itself. -/
theorem terminated {x : σ} (hno : ∀ a, valid a → x ∉ code a)
    (hinj : ∀ a b, valid a → valid b → code a = code b → R a b) :
    Delimited (fun a => code a ++ [x]) valid R := by
  have hsplit : ∀ {v w r r' : List σ}, x ∉ v → x ∉ w → v ++ x :: r = w ++ x :: r' → v = w ∧ r = r' := by
    intro v
    induction v with
    | nil =>
      intro w r r' _ hw h
      cases w with
      | nil => exact ⟨rfl, (List.cons.inj h).2⟩
      | cons c w => exact (hw (by rw [(List.cons.inj h).1]; exact List.mem_cons_self)).elim
    | cons c v ih =>
      intro w r r' hv hw h
      cases w with
      | nil => exact (hv (by rw [(List.cons.inj h).1]; exact List.mem_cons_self)).elim
      | cons d w =>
        obtain ⟨h1, h2⟩ := List.cons.inj h
        obtain ⟨h3, h4⟩ := ih (fun hx => hv (List.mem_cons_of_mem c hx))
          (fun hx => hw (List.mem_cons_of_mem d hx)) h2
        exact ⟨by rw [h1, h3], h4⟩
  intro a b r r' ha hb h
  simp only [List.append_assoc, List.singleton_append] at h
  obtain ⟨hcode, hr⟩ := hsplit (hno a ha) (hno b hb) h
  exact ⟨hinj a b ha hb hcode, hr⟩

/-- Words up to a mark that none of them starts with. -/
theorem flatMapUntil (h : Delimited code valid R) {x : σ}
    (hhead : ∀ a, valid a → ∃ y ys, code a = y :: ys ∧ y ≠ x) :
    Delimited (fun as : List α => as.flatMap code ++ [x]) (fun as => ∀ a ∈ as, valid a)
      (List.Forall₂ R) := by
  -- a stream that starts with a word does not start with the mark
  have hne : ∀ {a : α} {s r : List σ}, valid a → code a ++ s ≠ x :: r := by
    intro a s r ha heq
    obtain ⟨y, ys, hy, hyx⟩ := hhead a ha
    rw [hy] at heq
    exact hyx (List.cons.inj heq).1
  intro as
  induction as with
  | nil =>
    intro bs r r' _ hb heq
    cases bs with
    | nil => exact ⟨.nil, (List.cons.inj heq).2⟩
    | cons b bs =>
      simp only [List.flatMap_cons, List.append_assoc] at heq
      exact absurd heq.symm (hne (hb b List.mem_cons_self))
  | cons a as ih =>
    intro bs r r' ha hb heq
    cases bs with
    | nil =>
      simp only [List.flatMap_cons, List.append_assoc] at heq
      exact absurd heq (hne (ha a List.mem_cons_self))
    | cons b bs =>
      simp only [List.flatMap_cons, List.append_assoc] at heq
      obtain ⟨hR, hrest⟩ := h a b _ _ (ha a List.mem_cons_self) (hb b List.mem_cons_self) heq
      obtain ⟨hall, hr⟩ := ih bs r r' (fun y hy => ha y (List.mem_cons_of_mem a hy))
        (fun y hy => hb y (List.mem_cons_of_mem b hy)) (by simpa only [List.append_assoc] using hrest)
      exact ⟨.cons hR hall, hr⟩

/-- A code with a fixed text before every word. -/
theorem prepend (h : Delimited code valid R) (pre : List σ) :
    Delimited (fun a => pre ++ code a) valid R := by
  intro a b r r' ha hb heq
  rw [List.append_assoc, List.append_assoc] at heq
  exact h a b r r' ha hb (List.append_cancel_left heq)

/-- A code with a fixed text after every word. -/
theorem postpend (h : Delimited code valid R) (post : List σ) :
    Delimited (fun a => code a ++ post) valid R := by
  intro a b r r' ha hb heq
  rw [List.append_assoc, List.append_assoc] at heq
  obtain ⟨hR, hrest⟩ := h a b _ _ ha hb heq
  exact ⟨hR, List.append_cancel_left hrest⟩

/-- The code of a part of each value. -/
theorem comap {β : Type} (h : Delimited code valid R) (part : β → α) :
    Delimited (fun b => code (part b)) (fun b => valid (part b)) fun b c => R (part b) (part c) :=
  fun b c r r' hb hc heq => h (part b) (part c) r r' hb hc heq

end Delimited

/-- Related values of one code have one stream. -/
theorem flatMap_congr_of_forall₂ {code : α → List σ} {R : α → α → Prop}
    (h : ∀ a b, R a b → code a = code b) {as bs : List α} (hall : List.Forall₂ R as bs) :
    as.flatMap code = bs.flatMap code := by
  induction hall with
  | nil => rfl
  | cons hR _ ih => rw [List.flatMap_cons, List.flatMap_cons, h _ _ hR, ih]

end InfraStore.Lib
