import Mathlib.Data.List.Destutter
import Mathlib.Data.List.Sort

/-!
# Sorting by a key and dropping repeats

Lists sorted by a key and the first of each run of equal keys, for programs that sort and
deduplicate a column.

* `sortBy key`: a stable sort by a key;
* `destutter_sortBy_eq`: what sorting and dropping repeats leaves of any arrangement of a strictly
  increasing list with repeats is that list.
-/

namespace InfraStore.Lib

variable {α κ : Type} [LinearOrder κ] (key : α → κ)

/-- A stable sort by a key. -/
def sortBy (items : List α) : List α := items.insertionSort fun a b => key a ≤ key b

variable {key}

theorem mem_sortBy {items : List α} {a : α} : a ∈ sortBy key items ↔ a ∈ items :=
  List.mem_insertionSort _

theorem pairwise_sortBy (items : List α) :
    (sortBy key items).Pairwise fun a b => key a ≤ key b := by
  have : Std.Total fun a b => key a ≤ key b := ⟨fun a b => le_total (key a) (key b)⟩
  have : IsTrans α fun a b => key a ≤ key b := ⟨fun _ _ _ => le_trans⟩
  exact List.pairwise_insertionSort _ _

/-- Dropping repeats from a sorted list leaves strictly increasing keys, and every key. -/
theorem destutter'_spec {R : α → α → Prop} [DecidableRel R] (a : α) (items : List α)
    (hs : (a :: items).Pairwise fun a b => key a ≤ key b)
    (hR : ∀ x ∈ a :: items, ∀ y ∈ a :: items, R x y ↔ key x ≠ key y) :
    (items.destutter' R a).Pairwise (fun a b => key a < key b) ∧
      (∀ b ∈ items.destutter' R a, key a ≤ key b) ∧
      ∀ x ∈ a :: items, ∃ b ∈ items.destutter' R a, key b = key x := by
  induction items generalizing a with
  | nil => simp
  | cons c items ih =>
    rw [List.pairwise_cons] at hs
    have hac : key a ≤ key c := hs.1 c List.mem_cons_self
    by_cases hr : R a c
    · have hne := (hR a List.mem_cons_self c (by simp)).mp hr
      obtain ⟨hp, hle, hcov⟩ := ih c hs.2 fun x hx y hy =>
        hR x (List.mem_cons_of_mem _ hx) y (List.mem_cons_of_mem _ hy)
      rw [List.destutter'_cons_pos _ hr]
      have hlt : ∀ b ∈ items.destutter' R c, key a < key b := fun b hb =>
        lt_of_lt_of_le (lt_of_le_of_ne hac hne) (hle b hb)
      refine ⟨List.pairwise_cons.mpr ⟨hlt, hp⟩, ?_, ?_⟩
      · intro b hb
        cases hb with
        | head => exact le_rfl
        | tail _ hb => exact (hlt b hb).le
      · intro x hx
        cases hx with
        | head => exact ⟨a, List.mem_cons_self, rfl⟩
        | tail _ hx =>
          obtain ⟨b, hb, hk⟩ := hcov x hx
          exact ⟨b, List.mem_cons_of_mem _ hb, hk⟩
    · have heq : key a = key c :=
        not_not.mp fun hne => hr ((hR a List.mem_cons_self c (by simp)).mpr hne)
      obtain ⟨hp, hle, hcov⟩ := ih a
        (List.pairwise_cons.mpr ⟨fun b hb => hs.1 b (List.mem_cons_of_mem _ hb),
          (List.pairwise_cons.mp hs.2).2⟩)
        (fun x hx y hy => hR x (by simp at hx ⊢; tauto) y (by simp at hy ⊢; tauto))
      rw [List.destutter'_cons_neg _ hr]
      refine ⟨hp, hle, ?_⟩
      intro x hx
      by_cases hxc : x = c
      · obtain ⟨b, hb, hk⟩ := hcov a List.mem_cons_self
        exact ⟨b, hb, by rw [hk, heq, hxc]⟩
      · exact hcov x (by simp at hx ⊢; tauto)

theorem destutter_spec {R : α → α → Prop} [DecidableRel R] {items : List α}
    (hs : items.Pairwise fun a b => key a ≤ key b)
    (hR : ∀ x ∈ items, ∀ y ∈ items, R x y ↔ key x ≠ key y) :
    (items.destutter R).Pairwise (fun a b => key a < key b) ∧
      ∀ x ∈ items, ∃ b ∈ items.destutter R, key b = key x := by
  cases items with
  | nil => exact ⟨List.Pairwise.nil, fun _ h => (List.not_mem_nil h).elim⟩
  | cons a items =>
    obtain ⟨hp, -, hcov⟩ := destutter'_spec a items hs hR
    exact ⟨hp, hcov⟩

theorem nodup_of_strictlyIncreasing {items : List α}
    (hs : items.Pairwise fun a b => key a < key b) : items.Nodup :=
  hs.imp fun h he => (he ▸ h).false

theorem key_injOn {items : List α} (hs : items.Pairwise fun a b => key a < key b) {x y : α}
    (hx : x ∈ items) (hy : y ∈ items) (hk : key x = key y) : x = y := by
  have hmap : (items.map key).Nodup := by
    rw [List.Nodup, List.pairwise_map]
    exact hs.imp fun h => h.ne
  exact List.inj_on_of_nodup_map hmap hx hy hk

/-- Two strictly increasing lists, one within the other and with all its keys, are equal. -/
theorem eq_of_strictlyIncreasing {items target : List α}
    (hi : items.Pairwise fun a b => key a < key b)
    (ht : target.Pairwise fun a b => key a < key b) (hsub : ∀ x ∈ items, x ∈ target)
    (hcov : ∀ y ∈ target, ∃ x ∈ items, key x = key y) : items = target := by
  have hmem : ∀ y ∈ target, y ∈ items := by
    intro y hy
    obtain ⟨x, hx, hk⟩ := hcov y hy
    rw [← key_injOn ht (hsub x hx) hy hk]
    exact hx
  have hperm : items.Perm target :=
    (List.perm_ext_iff_of_nodup (nodup_of_strictlyIncreasing hi)
      (nodup_of_strictlyIncreasing ht)).mpr fun x => ⟨hsub x, hmem x⟩
  exact hperm.eq_of_pairwise (fun a b _ _ hab hba => (lt_asymm hab hba).elim) hi ht

/-- **Sorting and dropping repeats.** Any arrangement, with repeats, of a strictly increasing list
gives the list back. -/
theorem destutter_sortBy_eq {R : α → α → Prop} [DecidableRel R] {items target : List α}
    (ht : target.Pairwise fun a b => key a < key b) (hsub : ∀ x ∈ items, x ∈ target)
    (hcov : ∀ y ∈ target, y ∈ items)
    (hR : ∀ x ∈ target, ∀ y ∈ target, R x y ↔ key x ≠ key y) :
    (sortBy key items).destutter R = target := by
  have hsort : ∀ x ∈ sortBy key items, x ∈ target := fun x hx => hsub x (mem_sortBy.mp hx)
  obtain ⟨hp, hall⟩ := destutter_spec (pairwise_sortBy items)
    fun x hx y hy => hR x (hsort x hx) y (hsort y hy)
  apply eq_of_strictlyIncreasing hp ht
  · intro x hx
    exact hsort x ((List.destutter_sublist R _).subset hx)
  · intro y hy
    exact hall y (mem_sortBy.mpr (hcov y hy))

end InfraStore.Lib
