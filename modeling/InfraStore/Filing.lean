import InfraStore.CatalogEffects

/-!
# Where each row comes from

A row of the catalog was filed by an add, a copy, an import or a transform, and has since changed its
owner at most.

* `Store.Files`: the records an operation may file;
* `Left.origin`: every row an operation leaves was there, or is one it files;
* `ReachableBy.rows`: a property of rows that every filing establishes and no move of an owner breaks.
-/

namespace InfraStore

open Lib

namespace Store

section

set_option linter.unusedSectionVars false

variable {H B : Type} [DecidableEq H] [ArrayBackend H B] [Sha256 H] [FloatText] [ToString H]
  [LawfulArrayBackend H B]

/-- A row read back, time axis and all. -/
def ReadsAs (s : Store H B) (r : AssociationRow H) (m : TimeSeriesMetadata H) : Prop :=
  r ∈ s.db.rows ∧ s.db.Hydrated (ArrayBackend.getTimestamps s.arrays.backend) r m

/-- The records an operation may file. -/
def Files (s : Store H B) : Op H → TimeSeriesMetadata H → Prop
  | .addRequests items, m => ∃ parts, items.mapM buildRequestParts = .ok parts ∧
      m ∈ parts.map (·.metadata)
  | .copyTimeSeries _ dst ty name, m => ∃ r src, s.ReadsAs r src ∧ m = copiedRow src dst ty name
  | .importAssociationRows rows, m => m ∈ rows
  | .transformSingleTimeSeries _ _ category resolution _, m => ∃ r src, s.ReadsAs r src ∧
      Catalog.singleInScope resolution category r = true ∧
      ∃ horizon interval count, m = derivedViewRow src horizon interval count
  | _, _ => False

/-- A row that was there, under the owner it has now, or one that the operation files. -/
def Origin (s : Store H B) (op : Op H) (r : AssociationRow H) : Prop :=
  (∃ r₀ ∈ s.db.rows, ∃ owner, r = { r₀ with ownerId := owner }) ∨
    ∃ m, s.Files op m ∧ ∃ id, r = m.toRow id

theorem Origin.old {s : Store H B} {op : Op H} {r : AssociationRow H} (h : r ∈ s.db.rows) :
    s.Origin op r := Or.inl ⟨r, h, r.ownerId, rfl⟩

/-- The rows of a chain are those that were there and those it files. -/
theorem Origin.of_chain {R : TimeSeriesMetadata H → SharedSetCache H → Catalog H →
      ℤ × SharedSetCache H → Catalog H → Prop} (hR : ∀ m cache db x db', R m cache db x db' →
        InsertedOne m cache db x db') {s : Store H B} {op : Op H}
    {ms : List (TimeSeriesMetadata H)} {cache : SharedSetCache H} {db : Catalog H}
    {y : List ℤ × SharedSetCache H} (h : Chain R ms cache s.db y db)
    (hms : ∀ m ∈ ms, s.Files op m) {r : AssociationRow H} (hr : r ∈ db.rows) : s.Origin op r := by
  rcases (h.mono hR).references.2.1 r hr with hr | ⟨m, hm, id, -, rfl⟩
  · exact .old hr
  · exact Or.inr ⟨m, hms m hm, id, rfl⟩

/-- **Every row an operation leaves** was there, or is one it files. -/
theorem Left.origin {s : Store H B} {op : Op H} {db : Catalog H} (h : Left s op db)
    {r : AssociationRow H} (hr : r ∈ db.rows) : s.Origin op r := by
  rcases h with h | h
  swap
  · rw [h.rows.1] at hr
    exact .old hr
  cases op with
  | addRequests items =>
    obtain ⟨parts, cache, y, hbuilt, -, hchain⟩ := h
    have hfiles : ∀ m ∈ parts.map (·.metadata), s.Files (.addRequests items) m := fun m hm =>
      ⟨parts, hbuilt, hm⟩
    exact .of_chain (fun _ _ _ _ _ h => h.2) hchain hfiles hr
  | removeByIds ids owner =>
    rw [h.rest] at hr
    exact .old (List.mem_of_mem_filter hr)
  | clearTimeSeries owner =>
    rw [show db = clearedOf owner s.db from h] at hr
    rcases owner with _ | ⟨id, category⟩
    · exact .old (List.mem_of_mem_filter hr)
    · exact .old (List.mem_of_mem_filter hr)
  | replaceOwner oldOwner newOwner category =>
    obtain ⟨-, n, hmove⟩ := h
    rw [Catalog.moveOwner_rows hmove] at hr
    obtain ⟨r₀, h₀, rfl⟩ := List.mem_map.mp hr
    unfold Catalog.movedRow
    split
    · exact Or.inl ⟨r₀, h₀, newOwner, rfl⟩
    · exact .old h₀
  | copyTimeSeries src dst ty name =>
    obtain ⟨id, m, hcopy⟩ := h
    obtain ⟨cache, -, hone⟩ := hcopy.filed
    obtain ⟨r₀, h₀, -, hy⟩ := Catalog.getById_eq_some hcopy.source
    rcases (hone.spec.1 r).mp hr with rfl | hr
    · exact Or.inr ⟨_, ⟨r₀, m, ⟨h₀, hy⟩, rfl⟩, id, rfl⟩
    · exact .old hr
  | importAssociationRows rows =>
    obtain ⟨y, hchain⟩ := h.chain
    refine .of_chain (fun _ _ _ _ _ h => h.2) hchain (fun m hm => ?_) hr
    rcases List.mem_append.mp hm with hm | hm <;> exact List.mem_of_mem_filter hm
  | transformSingleTimeSeries horizon interval category resolution policy =>
    rcases h with ⟨h, -⟩ | ⟨sources, views, hd, h | ⟨y, hchain⟩⟩
    · rw [h] at hr
      exact .old hr
    · rw [h] at hr
      exact .old hr
    · refine .of_chain (fun _ _ _ _ _ h => h) hchain (fun v hv => ?_) hr
      obtain ⟨src, hsrc, horizon, interval, count, rfl⟩ := hd.view v hv
      obtain ⟨r₀, h₀, hscope, hy⟩ := Catalog.mem_list hd.listed hsrc
      exact ⟨r₀, src, ⟨h₀, hy⟩, hscope, horizon, interval, count, rfl⟩
  | compact =>
    rw [show db = s.db.sweepOrphanFeatureSets from h] at hr
    exact .old hr
  | _ =>
    rw [show db = s.db from h] at hr
    exact .old hr

/-- **A property of rows** that every filing establishes, and no move of an owner breaks, is one of all
rows of all catalogs of a store that runs under a condition reach. -/
theorem ReachableBy.rows {C : Store H B → Turn H → Prop} {P : AssociationRow H → Prop}
    (hmove : ∀ r owner, P r → P { r with ownerId := owner })
    (hfile : ∀ (s : Store H B) (t : Turn H) m id, s.Reachable → C s t → (∀ r ∈ s.db.rows, P r) →
      (s.arm t.faults).Files t.op m → P (m.toRow id)) {s : Store H B} (h : s.ReachableBy C) :
    ∀ c ∈ s.catalogs, ∀ r ∈ c.rows, P r := by
  induction h with
  | create valid noArray noVector =>
    intro c hc r hr
    rw [List.mem_singleton.mp hc] at hr
    exact (List.not_mem_nil hr).elim
  | turn t hs ht ih =>
    refine turn_catalogs hs.reachable.inv t ih fun db hleft r hr => ?_
    rcases hleft.origin hr with ⟨r₀, h₀, owner, rfl⟩ | ⟨m, hm, id, rfl⟩
    · exact hmove r₀ owner (ih _ List.mem_cons_self r₀ h₀)
    · exact hfile _ t m id hs.reachable ht (ih _ List.mem_cons_self) hm

theorem Reachable.by_true {s : Store H B} (h : s.Reachable) : s.ReachableBy fun _ _ => True := by
  induction h with
  | create valid noArray noVector => exact .create valid noArray noVector
  | turn t _ ih => exact .turn t ih trivial

end

end Store

end InfraStore
