import InfraStore.Transform

/-!
# What a transform plans

* `TransformPlan.deriveGrid_ok`: the parameters of one resolution;
* `TransformPlan.derive_get`: a plan holds, under a resolution, the parameters of a grid at it.
-/

namespace InfraStore

namespace TransformPlan

/-- What a resolution stores is the interval asked for, or stands for a single window. -/
theorem storedInterval_ok {grid : StaticConsistency} {h : ℕ} {horizon requested stored : Period}
    {policy : TransformPolicy} {normalized : Bool}
    (hs : storedInterval grid h horizon requested policy = .ok (stored, normalized)) :
    stored = requested ∨ stored = Period.zero := by
  unfold storedInterval at hs
  split at hs
  · cases hs
    cases policy.normalizeSingleWindow with
    | true => exact Or.inr rfl
    | false => exact Or.inl rfl
  · split at hs
    · cases hs
    · cases hs
      exact Or.inl rfl

/-- **One resolution.**  Its parameters are those of its grid: the horizon is a number of its steps, no
more than it has; the windows fit; and each of them can be anchored. -/
theorem deriveGrid_ok {grid : StaticConsistency} {horizon requested : Period} {policy : TransformPolicy}
    {plan : GridPlan} {normalized : Bool}
    (h : deriveGrid grid horizon requested policy = .ok (plan, normalized)) :
    ∃ steps window, computeH horizon grid.resolution = .ok steps ∧ steps ≤ grid.length ∧
      storedInterval grid steps horizon requested policy = .ok (plan.interval, normalized) ∧
      windows grid steps horizon plan.interval = .ok (plan.count, window) ∧
      checkAnchorable grid steps plan.count window = .ok () := by
  unfold deriveGrid at h
  simp only at h
  cases hsteps : computeH horizon grid.resolution with
  | error e =>
    rw [hsteps] at h
    cases h
  | ok steps =>
  rw [hsteps] at h
  obtain ⟨_, ⟨⟩, h⟩ := except_bind_eq_ok.mp h
  split at h
  · cases h
  · rename_i hfits
    obtain ⟨stored, hstored, h⟩ := except_bind_eq_ok.mp h
    obtain ⟨derived, hderived, h⟩ := except_bind_eq_ok.mp h
    obtain ⟨_, hanchor, h⟩ := except_bind_eq_ok.mp h
    cases h
    exact ⟨steps, derived.2, rfl, not_lt.mp hfits, hstored, hderived, hanchor⟩

/-- The parameters a plan holds for a resolution are those of a grid at it. -/
theorem deriveRest_get {first : StaticConsistency} {agreed : GridPlan} {horizon requested : Period}
    {policy : TransformPolicy} {grids : List StaticConsistency} :
    ∀ {plans : FMap Period GridPlan} {normalized : Bool} {all : FMap Period GridPlan × Bool},
      deriveRest first agreed horizon requested policy grids plans normalized = .ok all →
      ∀ {resolution : Period} {g : GridPlan}, FMap.get all.1 resolution = some g →
        FMap.get plans resolution = some g ∨ ∃ grid ∈ grids, grid.resolution = resolution ∧
          ∃ b, deriveGrid grid horizon requested policy = .ok (g, b) := by
  induction grids with
  | nil =>
    intro plans normalized all h resolution g hg
    cases h
    exact Or.inl hg
  | cons grid grids ih =>
    intro plans normalized all h resolution g hg
    unfold deriveRest at h
    obtain ⟨derived, hderived, h⟩ := except_bind_eq_ok.mp h
    simp only at h
    have hrest : deriveRest first agreed horizon requested policy grids
        (plans.insert grid.resolution derived.1) (normalized || derived.2) = .ok all := by
      split at h
      · obtain ⟨_, -, h⟩ := except_bind_eq_ok.mp h
        exact h
      · exact h
    cases ih hrest hg with
    | inl hold =>
      rw [FMap.get_insert] at hold
      by_cases hres : resolution = grid.resolution
      · rw [hres, Function.update_self] at hold
        cases hold
        exact Or.inr ⟨grid, List.mem_cons_self, hres.symm, derived.2, hderived⟩
      · rw [Function.update_of_ne hres] at hold
        exact Or.inl hold
    | inr hnew =>
      obtain ⟨grid', hmem, hrest⟩ := hnew
      exact Or.inr ⟨grid', List.mem_cons_of_mem _ hmem, hrest⟩

theorem derive_get {grids : List StaticConsistency} {horizon requested : Period}
    {policy : TransformPolicy} {plan : TransformPlan}
    (h : derive grids horizon requested policy = .ok (some plan)) {resolution : Period} {g : GridPlan}
    (hg : FMap.get plan.byResolution resolution = some g) :
    ∃ grid ∈ grids, grid.resolution = resolution ∧
      ∃ b, deriveGrid grid horizon requested policy = .ok (g, b) := by
  cases grids with
  | nil => cases h
  | cons first rest =>
    unfold derive at h
    simp only [except_bind_eq_ok] at h
    obtain ⟨derived, hderived, all, hall, h⟩ := h
    cases h
    cases deriveRest_get hall hg with
    | inl hold =>
      rw [FMap.get_insert] at hold
      by_cases hres : resolution = first.resolution
      · rw [hres, Function.update_self] at hold
        cases hold
        exact ⟨first, List.mem_cons_self, hres.symm, derived.2, hderived⟩
      · rw [Function.update_of_ne hres, FMap.get_empty] at hold
        cases hold
    | inr hnew =>
      obtain ⟨grid, hmem, hrest⟩ := hnew
      exact ⟨grid, List.mem_cons_of_mem _ hmem, hrest⟩

theorem forResolution_ok {plan : TransformPlan} {resolution : Period} {g : GridPlan}
    (h : plan.forResolution resolution = .ok g) : FMap.get plan.byResolution resolution = some g := by
  unfold forResolution at h
  split at h
  · rename_i hg
    cases h
    exact hg
  · cases h

end TransformPlan

end InfraStore
