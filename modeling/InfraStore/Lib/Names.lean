import Mathlib.Data.List.Nodup
import Mathlib.Data.Nat.Find
import Mathlib.Data.List.Sublists

/-!
# Handing out distinct names

A program that wants one name a key, distinct after folding (case, say), tries the key's candidates in
order until one is free.

* `fresh_spec`: with more fuel than names taken the search ends, at the first free candidate, and more
  fuel changes nothing;
* `assign_spec`: naming a list of keys one after another ends, and no two names fold alike.
-/

namespace InfraStore.Lib.Names

section Names

variable {κ ν : Type} [DecidableEq ν] (fold : ν → ν)

/-- The first candidate from the `n`-th on whose folded form is not taken. -/
def fresh (candidate : ℕ → ν) (taken : List ν) : ℕ → ℕ → Option ν
  | 0, _ => none
  | fuel + 1, n =>
    if fold (candidate n) ∈ taken then fresh candidate taken fuel (n + 1) else some (candidate n)

/-- Name the keys in order, each by its first free candidate. -/
def assign (candidates : κ → ℕ → ν) (fuel : ℕ) : List κ → List ν → Option (List (κ × ν))
  | [], _ => some []
  | key :: keys, taken => do
    let name ← fresh fold (candidates key) taken fuel 1
    let named ← assign candidates fuel keys (fold name :: taken)
    some ((key, name) :: named)

variable {fold}

theorem fresh_eq_none {candidate : ℕ → ν} {taken : List ν} {fuel n : ℕ}
    (h : fresh fold candidate taken fuel n = none) :
    ∀ j, n ≤ j → j < n + fuel → fold (candidate j) ∈ taken := by
  induction fuel generalizing n with
  | zero =>
    intro j hn hj
    omega
  | succ fuel ih =>
    unfold fresh at h
    split at h
    · rename_i hmem
      intro j hn hj
      rcases Nat.eq_or_lt_of_le hn with rfl | hlt
      · exact hmem
      · exact ih h j hlt (by omega)
    · cases h

theorem fresh_eq_some {candidate : ℕ → ν} {taken : List ν} {fuel n : ℕ} {name : ν}
    (h : fresh fold candidate taken fuel n = some name) :
    ∃ k, n ≤ k ∧ name = candidate k ∧ fold (candidate k) ∉ taken ∧
      ∀ j, n ≤ j → j < k → fold (candidate j) ∈ taken := by
  induction fuel generalizing n with
  | zero => cases h
  | succ fuel ih =>
    unfold fresh at h
    split at h
    · rename_i hmem
      obtain ⟨k, hk, hname, hfree, hbefore⟩ := ih h
      refine ⟨k, by omega, hname, hfree, fun j hn hj => ?_⟩
      rcases Nat.eq_or_lt_of_le hn with rfl | hlt
      · exact hmem
      · exact hbefore j hlt hj
    · rename_i hmem
      exact ⟨n, le_rfl, (Option.some.inj h).symm, hmem, fun j hn hj => by omega⟩

omit [DecidableEq ν] in
/-- A run of distinct candidates all taken is no longer than what is taken. -/
theorem run_le_taken {candidate : ℕ → ν} {taken : List ν} {n count : ℕ}
    (hinj : Function.Injective fun n => fold (candidate n))
    (hall : ∀ j, n ≤ j → j < n + count → fold (candidate j) ∈ taken) : count ≤ taken.length := by
  have hnodup : ((List.range' n count).map fun j => fold (candidate j)).Nodup :=
    (List.nodup_range').map hinj
  have hsub : ((List.range' n count).map fun j => fold (candidate j)) ⊆ taken := by
    intro v hv
    obtain ⟨j, hj, rfl⟩ := List.mem_map.mp hv
    obtain ⟨h₁, h₂⟩ := List.mem_range'_1.mp hj
    exact hall j h₁ h₂
  have := (List.subperm_of_subset hnodup hsub).length_le
  rwa [List.length_map, List.length_range'] at this

/-- Distinct candidates cannot all be taken. -/
theorem fresh_isSome {candidate : ℕ → ν} {taken : List ν} {fuel n : ℕ}
    (hinj : Function.Injective fun n => fold (candidate n)) (hfuel : taken.length < fuel) :
    ∃ name, fresh fold candidate taken fuel n = some name := by
  cases h : fresh fold candidate taken fuel n with
  | some name => exact ⟨name, rfl⟩
  | none =>
    have := run_le_taken hinj (fresh_eq_none h)
    omega

/-- The search stops within as many steps as there are names taken. -/
theorem fresh_bounded {candidate : ℕ → ν} {taken : List ν} {fuel n : ℕ}
    (hinj : Function.Injective fun n => fold (candidate n)) (hfuel : taken.length < fuel) :
    ∃ k, n ≤ k ∧ k ≤ n + taken.length ∧ fresh fold candidate taken fuel n = some (candidate k) ∧
      fold (candidate k) ∉ taken := by
  obtain ⟨name, hname⟩ := fresh_isSome (n := n) hinj hfuel
  obtain ⟨k, hk, rfl, hfree, hbefore⟩ := fresh_eq_some hname
  have hrun : k - n ≤ taken.length :=
    run_le_taken (n := n) hinj fun j hn hj => hbefore j hn (by omega)
  exact ⟨k, hk, by omega, hname, hfree⟩

/-- The search for a free name ends with the first free candidate, whatever the fuel beyond the names
taken. -/
theorem fresh_spec {candidate : ℕ → ν} {taken : List ν} {fuel : ℕ}
    (hinj : Function.Injective fun n => fold (candidate n)) (hfuel : taken.length < fuel) :
    ∃ k, 1 ≤ k ∧ fresh fold candidate taken fuel 1 = some (candidate k) ∧
      fold (candidate k) ∉ taken ∧
      ∀ more, taken.length < more → fresh fold candidate taken more 1 = some (candidate k) := by
  obtain ⟨name, hname⟩ := fresh_isSome (n := 1) hinj hfuel
  obtain ⟨k, hk, rfl, hfree, hbefore⟩ := fresh_eq_some hname
  refine ⟨k, hk, hname, hfree, fun more hmore => ?_⟩
  obtain ⟨name', hname'⟩ := fresh_isSome (n := 1) hinj hmore
  obtain ⟨k', hk', rfl, hfree', hbefore'⟩ := fresh_eq_some hname'
  rcases lt_trichotomy k k' with h | h | h
  · exact absurd (hbefore' k hk h) hfree
  · rw [hname', h]
  · exact absurd (hbefore k' hk' h) hfree'

/-- **Assigning names.**  It ends, names every key in order by one of its candidates, and no two names,
nor a name and a taken one, fold alike; more fuel changes nothing. -/
theorem assign_spec {candidates : κ → ℕ → ν} (keys : List κ) (taken : List ν) {fuel : ℕ}
    (hinj : ∀ key, Function.Injective fun n => fold (candidates key n))
    (hfuel : taken.length + keys.length ≤ fuel) :
    ∃ named, assign fold candidates fuel keys taken = some named ∧ named.map Prod.fst = keys ∧
      (named.map fun p => fold p.2).Nodup ∧ (∀ p ∈ named, fold p.2 ∉ taken) ∧
      (∀ p ∈ named, ∃ n, 1 ≤ n ∧ p.2 = candidates p.1 n) ∧
      ∀ more, taken.length + keys.length ≤ more →
        assign fold candidates more keys taken = some named := by
  induction keys generalizing taken with
  | nil =>
    exact ⟨[], rfl, rfl, List.nodup_nil, by simp, by simp, fun _ _ => rfl⟩
  | cons key keys ih =>
    rw [List.length_cons] at hfuel
    have hlen : taken.length < fuel := by omega
    obtain ⟨k, hk, hfresh, hfree, hmore⟩ := fresh_spec (hinj key) hlen
    obtain ⟨named, hnamed, hkeys, hnodup, hnew, hcand, hrest⟩ :=
      ih (fold (candidates key k) :: taken) (by rw [List.length_cons]; omega)
    refine ⟨(key, candidates key k) :: named, ?_, ?_, ?_, ?_, ?_, fun more hlen => ?_⟩
    · unfold assign
      rw [hfresh, Option.bind_eq_bind, Option.bind_some, hnamed]
      rfl
    · rw [List.map_cons, hkeys]
    · rw [List.map_cons, List.nodup_cons]
      refine ⟨fun h => ?_, hnodup⟩
      obtain ⟨p, hp, e⟩ := List.mem_map.mp h
      exact hnew p hp (e ▸ List.mem_cons_self)
    · intro p hp
      cases hp with
      | head => exact hfree
      | tail _ hp => exact fun h => hnew p hp (List.mem_cons_of_mem _ h)
    · intro p hp
      cases hp with
      | head => exact ⟨k, hk, rfl⟩
      | tail _ hp => exact hcand p hp
    · rw [List.length_cons] at hlen
      unfold assign
      rw [hmore more (by omega), Option.bind_eq_bind, Option.bind_some,
        hrest more (by rw [List.length_cons]; omega)]
      rfl

end Names

end InfraStore.Lib.Names
