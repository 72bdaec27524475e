import Mathlib.Data.List.GetD
import Mathlib.Data.Fintype.EquivFin
import Mathlib.Data.Fintype.Prod

/-!
# Scattering items into slots

Placing items one by one into numbered slots, each slot at most once: what the slots hold after any
number of items, and that as many items as slots fill them all.

* `Scattered`: the slots after the first items;
* `Scattered.place`: one more item in an empty slot;
* `Scattered.full`: as many items as slots leave none empty;
* `flatIndex`: the row-major index of three coordinates, its bound and its injectivity;
* `exists_place`: as many items as a three-dimensional box has places, at distinct ones, fill it.
-/

namespace InfraStore.Lib

/-! ### Row-major indices -/

/-- The flat index of an element of a three-dimensional array, by its coordinates and the last two
dimensions. -/
def flatIndex (b c i j k : ℕ) : ℕ := (i * b + j) * c + k

theorem mul_add_lt {a b i j : ℕ} (hi : i < a) (hj : j < b) : i * b + j < a * b := by
  have h := Nat.mul_le_mul_right b (Nat.succ_le_of_lt hi)
  rw [Nat.succ_mul] at h
  omega

theorem flatIndex_lt {a b c i j k : ℕ} (hi : i < a) (hj : j < b) (hk : k < c) :
    flatIndex b c i j k < a * b * c :=
  mul_add_lt (mul_add_lt hi hj) hk

theorem mul_add_inj {b i j i' j' : ℕ} (hj : j < b) (hj' : j' < b) (h : i * b + j = i' * b + j') :
    i = i' ∧ j = j' := by
  have hdiv : ∀ x y : ℕ, y < b → (x * b + y) / b = x := by
    intro x y hy
    rw [Nat.mul_comm, Nat.mul_add_div (by omega), Nat.div_eq_of_lt hy, Nat.add_zero]
  have hi : i = i' := by
    rw [← hdiv i j hj, ← hdiv i' j' hj', h]
  subst hi
  omega

theorem flatIndex_inj {b c i j k i' j' k' : ℕ} (hj : j < b) (hj' : j' < b) (hk : k < c)
    (hk' : k' < c) (h : flatIndex b c i j k = flatIndex b c i' j' k') :
    i = i' ∧ j = j' ∧ k = k' := by
  obtain ⟨hrow, hk⟩ := mul_add_inj hk hk' h
  obtain ⟨hi, hj⟩ := mul_add_inj hj hj' hrow
  exact ⟨hi, hj, hk⟩

/-- As many items as a box has places, no two at one place, fill the box. -/
theorem exists_place {n a b c : ℕ} {i j k : Fin n → ℕ} (hi : ∀ r, i r < a) (hj : ∀ r, j r < b)
    (hk : ∀ r, k r < c) (hinj : ∀ r s, i r = i s → j r = j s → k r = k s → r = s)
    (hn : n = a * b * c) :
    ∃ place : Fin n ≃ Fin a × Fin b × Fin c,
      ∀ r, (place r).1.1 = i r ∧ (place r).2.1.1 = j r ∧ (place r).2.2.1 = k r := by
  have hinjective : Function.Injective fun r : Fin n =>
      ((⟨i r, hi r⟩, ⟨j r, hj r⟩, ⟨k r, hk r⟩) : Fin a × Fin b × Fin c) := by
    intro r s he
    simp only [Prod.mk.injEq, Fin.mk.injEq] at he
    exact hinj r s he.1 he.2.1 he.2.2
  have hcard : Fintype.card (Fin n) = Fintype.card (Fin a × Fin b × Fin c) := by
    simp only [Fintype.card_fin, Fintype.card_prod, hn, Nat.mul_assoc]
  have hbij := (Fintype.bijective_iff_injective_and_card _).mpr ⟨hinjective, hcard⟩
  exact ⟨Equiv.ofBijective _ hbij, fun r => ⟨rfl, rfl, rfl⟩⟩

/-! ### Slots -/

variable {α : Type}

/-- The slots after the first `m` items: each lies in a slot of its own, and the other slots are
empty. -/
structure Scattered (slot : ℕ → ℕ) (val : ℕ → α) (m : ℕ) (slots : List (Option α)) : Prop where
  within : ∀ i < m, slot i < slots.length
  injective : ∀ i < m, ∀ j < m, slot i = slot j → i = j
  filled : ∀ k v, slots[k]? = some (some v) ↔ ∃ i < m, slot i = k ∧ val i = v

namespace Scattered

variable {slot : ℕ → ℕ} {val : ℕ → α} {m : ℕ} {slots : List (Option α)}

theorem empty (slot : ℕ → ℕ) (val : ℕ → α) (n : ℕ) :
    Scattered slot val 0 (List.replicate n none) where
  within := fun i hi => absurd hi (Nat.not_lt_zero i)
  injective := fun i hi => absurd hi (Nat.not_lt_zero i)
  filled := by
    intro k v
    simp [List.getElem?_replicate]

/-- One more item goes to a slot that is empty. -/
theorem place (h : Scattered slot val m slots) (hfree : slots[slot m]? = some none) :
    Scattered slot val (m + 1) (slots.set (slot m) (some (val m))) := by
  have hlt : slot m < slots.length := (List.getElem?_eq_some_iff.mp hfree).1
  have hnew : ∀ i < m, slot i ≠ slot m := by
    intro i hi he
    have := (h.filled (slot m) (val i)).mpr ⟨i, hi, he, rfl⟩
    rw [hfree] at this
    cases this
  constructor
  · intro i hi
    rw [List.length_set]
    by_cases him : i = m
    · rw [him]
      exact hlt
    · exact h.within i (by omega)
  · intro i hi j hj he
    by_cases him : i = m
    · by_cases hjm : j = m
      · rw [him, hjm]
      · rw [him] at he
        exact absurd he.symm (hnew j (by omega))
    · by_cases hjm : j = m
      · rw [hjm] at he
        exact absurd he (hnew i (by omega))
      · exact h.injective i (by omega) j (by omega) he
  · intro k v
    by_cases hk : slot m = k
    · rw [hk, List.getElem?_set_self (hk ▸ hlt)]
      constructor
      · intro he
        cases he
        exact ⟨m, Nat.lt_succ_self m, hk, rfl⟩
      · rintro ⟨i, hi, hik, rfl⟩
        by_cases him : i = m
        · rw [him]
        · exact absurd (hik.trans hk.symm) (hnew i (by omega))
    · rw [List.getElem?_set_ne hk, h.filled]
      constructor
      · rintro ⟨i, hi, hik, hv⟩
        exact ⟨i, by omega, hik, hv⟩
      · rintro ⟨i, hi, hik, hv⟩
        by_cases him : i = m
        · exact absurd (him ▸ hik) hk
        · exact ⟨i, by omega, hik, hv⟩

/-- A slot no item went to is empty. -/
theorem free (h : Scattered slot val m slots) {k : ℕ} (hk : k < slots.length)
    (hfree : ∀ i < m, slot i ≠ k) : slots[k]? = some none := by
  rw [List.getElem?_eq_getElem hk]
  cases hs : slots[k] with
  | none => rfl
  | some v =>
    obtain ⟨i, hi, hik, -⟩ := (h.filled k v).mp (by rw [List.getElem?_eq_getElem hk, hs])
    exact absurd hik (hfree i hi)

/-- As many items as slots fill every slot. -/
theorem full (h : Scattered slot val m slots) (hm : slots.length = m) :
    ∀ k < m, ∃ i < m, slot i = k := by
  have hinj : Function.Injective fun i : Fin m =>
      (⟨slot i, hm ▸ h.within i i.isLt⟩ : Fin m) := by
    intro i j he
    exact Fin.ext (h.injective i i.isLt j j.isLt (Fin.mk.inj he))
  intro k hk
  obtain ⟨i, hi⟩ := Finite.injective_iff_surjective.mp hinj ⟨k, hk⟩
  exact ⟨i, i.isLt, congrArg Fin.val hi⟩

theorem isSome_of_full (h : Scattered slot val m slots) (hm : slots.length = m) :
    slots.findIdx? Option.isNone = none := by
  rw [List.findIdx?_eq_none_iff]
  intro x hx
  obtain ⟨k, hk, rfl⟩ := List.mem_iff_getElem.mp hx
  obtain ⟨i, hi, hik⟩ := h.full hm k (hm ▸ hk)
  have := (h.filled k (val i)).mpr ⟨i, hi, hik, rfl⟩
  rw [List.getElem?_eq_getElem hk, Option.some.injEq] at this
  rw [this]
  rfl

/-- Full slots, read in order. -/
theorem values_of_full (h : Scattered slot val m slots) (read : ℕ → α) (hm : slots.length = m)
    (hread : ∀ i < m, val i = read (slot i)) :
    slots.filterMap id = (List.range m).map read := by
  have hslots : slots = (List.range m).map fun k => some (read k) := by
    apply List.ext_getElem?
    intro k
    by_cases hk : k < m
    · obtain ⟨i, hi, hik⟩ := h.full hm k hk
      rw [(h.filled k (read k)).mpr ⟨i, hi, hik, by rw [hread i hi, hik]⟩,
        List.getElem?_map, List.getElem?_range hk]
      rfl
    · rw [List.getElem?_eq_none (by omega), List.getElem?_eq_none (by simpa using hk)]
  rw [hslots, List.filterMap_map]
  exact List.filterMap_eq_map (f := read) ▸ rfl

end Scattered

end InfraStore.Lib
