import InfraStore.Error
import InfraStore.Lib.UniqueUpdate

/-!
# Association tables between endpoints

The two catalogs of endpoint pairs: which supplemental attributes are attached to which components, and
which component is the parent of which.  A pair is there once; the type of an endpoint is a label beside
its id.  Replacing a component id is one `UPDATE` that rewrites the ends that name it, in the order the
engine visits them, and is undone as a whole where a rewritten pair is there already.

* `EndpointTable`: the rows, no two of one id or of one pair;
* `replaceSupplementalAttributeComponentId`, `replaceParentChildComponentId`: the two operations;
* `Replaced`: what one of them leaves; `component_id_substituted`: it is substitution at the ends.
-/

namespace InfraStore

open Lib

/-- One row: a pair of endpoints and their type labels. -/
structure EndpointRow where
  id : ℤ
  leftId : ℤ
  leftType : String
  rightId : ℤ
  rightType : String
  deriving DecidableEq

/-- What no two rows share. -/
def EndpointRow.pair (r : EndpointRow) : ℤ × ℤ := (r.leftId, r.rightId)

/-- A table of endpoint pairs. -/
structure EndpointTable where
  rows : List EndpointRow
  ids : (rows.map EndpointRow.id).Nodup
  pairs : (rows.map EndpointRow.pair).Nodup

/-- The order in which the engine visits the rows of a statement. -/
structure ScanOrder where
  order : List EndpointRow → List EndpointRow
  perm : ∀ rows, (order rows).Perm rows

/-- The order in which the rows were filed. -/
def ScanOrder.filed : ScanOrder := ⟨id, List.Perm.refl⟩

namespace EndpointTable

/-- `UPDATE … SET … WHERE …`: the number of rows changed, and the table after the statement. -/
def update (scan : ScanOrder) (t : EndpointTable) (assign : EndpointRow → EndpointRow)
    (keeps : ∀ r, (assign r).id = r.id) (hits : EndpointRow → Bool) (detail : String) :
    Result ℕ × EndpointTable :=
  let visited := (scan.order t.rows).filter hits
  match h : updateRows EndpointRow.id EndpointRow.pair assign t.rows visited with
  | some rows =>
    (.ok visited.length, ⟨rows, (updateRows_keeps keeps h t.ids t.pairs).1 ▸ t.ids,
      (updateRows_keeps keeps h t.ids t.pairs).2⟩)
  | none => (.error (.duplicateAssociation detail), t)

/-- Rewrite a component id in the attribute catalog, whose left end is the component. -/
def replaceSupplementalAttributeComponentId (lookup scan : ScanOrder) (t : EndpointTable)
    (oldId newId : ℤ) : Result ℕ × EndpointTable :=
  let destinationType : Option String :=
    if oldId = newId then none
    else ((lookup.order t.rows).find? fun r => r.leftId = newId).map EndpointRow.leftType
  t.update scan
    (fun r => { r with leftId := newId, leftType := destinationType.getD r.leftType })
    (fun _ => rfl) (fun r => r.leftId = oldId)
    s!"component {newId} already carries an attribute that component {oldId} carries"

/-- Rewrite a component id in the parent/child catalog, on either end of an edge. -/
def replaceParentChildComponentId (lookup scan : ScanOrder) (t : EndpointTable)
    (oldId newId : ℤ) : Result ℕ × EndpointTable :=
  let destinationType : Option String :=
    if oldId = newId then none
    else (((lookup.order t.rows).filter fun r => r.leftId = newId).map EndpointRow.leftType ++
      ((lookup.order t.rows).filter fun r => r.rightId = newId).map EndpointRow.rightType).head?
  t.update scan
    (fun r => { r with
      leftId := if r.leftId = oldId then newId else r.leftId,
      leftType := if r.leftId = oldId then destinationType.getD r.leftType else r.leftType,
      rightId := if r.rightId = oldId then newId else r.rightId,
      rightType := if r.rightId = oldId then destinationType.getD r.rightType else r.rightType })
    (fun _ => rfl) (fun r => r.leftId = oldId || r.rightId = oldId)
    s!"rewriting component {oldId} to {newId} would duplicate an edge"

end EndpointTable

/-! ### Substitution at the ends -/

/-- The two catalogs, by which ends of a row are components. -/
inductive AssocTable where
  | supplementalAttribute
  | parentChild
  deriving DecidableEq

namespace AssocTable

/-- Whether the right end is a component too. -/
def rightIsComponent : AssocTable → Bool
  | supplementalAttribute => false
  | parentChild => true

/-- The operation on the catalog. -/
def replaceComponentId :
    AssocTable → ScanOrder → ScanOrder → EndpointTable → ℤ → ℤ → Result ℕ × EndpointTable
  | supplementalAttribute => EndpointTable.replaceSupplementalAttributeComponentId
  | parentChild => EndpointTable.replaceParentChildComponentId

/-- Whether a row names a component. -/
def Names (k : AssocTable) (x : ℤ) (r : EndpointRow) : Prop :=
  r.leftId = x ∨ (k.rightIsComponent = true ∧ r.rightId = x)

instance (k : AssocTable) (x : ℤ) (r : EndpointRow) : Decidable (k.Names x r) :=
  inferInstanceAs (Decidable (r.leftId = x ∨ (k.rightIsComponent = true ∧ r.rightId = x)))

/-- One id for another. -/
def subst (oldId newId x : ℤ) : ℤ := if x = oldId then newId else x

/-- A row's pair with one component for another. -/
def substPair (k : AssocTable) (oldId newId : ℤ) (r : EndpointRow) : ℤ × ℤ :=
  (subst oldId newId r.leftId, if k.rightIsComponent then subst oldId newId r.rightId else r.rightId)

/-- Every label a row gives a component is one type. -/
def Labels (k : AssocTable) (x : ℤ) (type : String) (r : EndpointRow) : Prop :=
  (r.leftId = x → r.leftType = type) ∧
    (k.rightIsComponent = true → r.rightId = x → r.rightType = type)

/-- A row after a replacement: its own id, the substituted pair, and the labels of the ends that did not
move. -/
structure Moved (k : AssocTable) (oldId newId : ℤ) (r r' : EndpointRow) : Prop where
  id : r'.id = r.id
  pair : r'.pair = k.substPair oldId newId r
  leftType : r'.leftId = r.leftId → r'.leftType = r.leftType
  rightType : r'.rightId = r.rightId → r'.rightType = r.rightType
  other : ¬ k.Names oldId r → r' = r

/-- What a replacement that succeeds does to a table. -/
structure Replaced (k : AssocTable) (oldId newId : ℤ) (t t' : EndpointTable) (n : ℕ) : Prop where
  rows : List.Forall₂ (k.Moved oldId newId) t.rows t'.rows
  count : n = (t.rows.filter fun r => k.Names oldId r).length
  labels : ∀ type, (∃ r ∈ t.rows, k.Names newId r) → (∀ r ∈ t.rows, k.Labels newId type r) →
    ∀ r' ∈ t'.rows, k.Labels newId type r'

variable {k : AssocTable} {oldId newId : ℤ}

/-- No substituted pair names the component that was replaced, unless it replaced itself. -/
theorem substPair_free (hne : oldId ≠ newId) {r s : EndpointRow} (hs : k.Names oldId s) :
    s.pair ≠ k.substPair oldId newId r := by
  have hfree : ∀ x, subst oldId newId x ≠ oldId := by
    intro x hx
    unfold subst at hx
    split at hx
    · exact hne hx.symm
    · contradiction
  intro h
  cases hs with
  | inl hl => exact hfree r.leftId ((congrArg Prod.fst h).symm.trans hl)
  | inr hr =>
    have hsnd := congrArg Prod.snd h
    unfold substPair at hsnd
    rw [if_pos hr.1] at hsnd
    exact hfree r.rightId (hsnd.symm.trans hr.2)

theorem substPair_self (r : EndpointRow) : k.substPair oldId oldId r = r.pair := by
  have hself : ∀ x, subst oldId oldId x = x := by
    intro x
    unfold subst
    split
    · rename_i hx
      exact hx.symm
    · rfl
  unfold substPair
  rw [hself, hself, ite_self]
  rfl

/-- The pair of a row that does not name the component stays. -/
theorem substPair_other {r : EndpointRow} (h : ¬ k.Names oldId r) : k.substPair oldId newId r = r.pair := by
  have hl : r.leftId ≠ oldId := fun hl => h (.inl hl)
  unfold substPair subst
  rw [if_neg hl]
  split
  · rename_i hk
    rw [if_neg fun hr => h (.inr ⟨hk, hr⟩)]
    rfl
  · rfl

section Update

variable {t : EndpointTable} {scan : ScanOrder} {assign : EndpointRow → EndpointRow}
  {keeps : ∀ r, (assign r).id = r.id} {hits : EndpointRow → Bool} {detail : String}

/-- A row after the statement. -/
def afterUpdate (hits : EndpointRow → Bool) (assign : EndpointRow → EndpointRow) (r : EndpointRow) :
    EndpointRow :=
  if hits r then assign r else r

/-- **The statement.**  An update that substitutes a component in the rows that name it fails exactly where
two rows would come to have one pair. -/
theorem update_eq (hhits : ∀ r, hits r = true ↔ k.Names oldId r)
    (hpair : ∀ r, hits r = true → (assign r).pair = k.substPair oldId newId r) :
    ((t.rows.map (k.substPair oldId newId)).Nodup →
      (t.update scan assign keeps hits detail).1 = .ok (t.rows.filter hits).length ∧
      (t.update scan assign keeps hits detail).2.rows = t.rows.map (afterUpdate hits assign)) ∧
    (¬ (t.rows.map (k.substPair oldId newId)).Nodup →
      t.update scan assign keeps hits detail = (.error (.duplicateAssociation detail), t)) := by
  have hperm : ((scan.order t.rows).filter hits).Perm (t.rows.filter hits) :=
    (scan.perm t.rows).filter hits
  have hmem : ∀ r, r ∈ (scan.order t.rows).filter hits ↔ r ∈ t.rows ∧ hits r = true := by
    intro r
    rw [hperm.mem_iff, List.mem_filter]
  have hnodup : (((scan.order t.rows).filter hits).map EndpointRow.id).Nodup :=
    (hperm.map _).nodup_iff.mpr (t.ids.sublist (List.filter_sublist.map _))
  have hfree : ∀ r ∈ (scan.order t.rows).filter hits, ∀ s ∈ (scan.order t.rows).filter hits,
      s.pair = (assign r).pair → s = r := by
    intro r hr s hs heq
    rw [hpair r ((hmem r).mp hr).2] at heq
    by_cases hne : oldId = newId
    · rw [← hne, substPair_self] at heq
      exact List.inj_on_of_nodup_map t.pairs ((hmem s).mp hs).1 ((hmem r).mp hr).1 heq
    · exact absurd heq (substPair_free hne ((hhits s).mp ((hmem s).mp hs).2))
  have hrewritten : rewritten EndpointRow.id assign t.rows
      (((scan.order t.rows).filter hits).map EndpointRow.id) = t.rows.map (afterUpdate hits assign) := by
    apply List.map_congr_left
    intro r hr
    have hid : r.id ∈ ((scan.order t.rows).filter hits).map EndpointRow.id ↔ hits r = true := by
      rw [List.mem_map]
      constructor
      · rintro ⟨s, hs, hsr⟩
        rw [← List.inj_on_of_nodup_map t.ids ((hmem s).mp hs).1 hr hsr]
        exact ((hmem s).mp hs).2
      · exact fun h => ⟨r, (hmem r).mpr ⟨hr, h⟩, rfl⟩
    unfold afterUpdate
    by_cases hh : hits r = true
    · rw [if_pos (hid.mpr hh), if_pos hh]
    · rw [if_neg (mt hid.mp hh), if_neg hh]
  have hkeys : (t.rows.map (afterUpdate hits assign)).map EndpointRow.pair =
      t.rows.map (k.substPair oldId newId) := by
    rw [List.map_map]
    apply List.map_congr_left
    intro r _
    show (if hits r = true then assign r else r).pair = _
    split
    · rename_i hh
      exact hpair r hh
    · rename_i hh
      exact (substPair_other (mt (hhits r).mpr hh)).symm
  have hrun := updateRows_eq t.ids t.pairs keeps hnodup (fun r hr => ((hmem r).mp hr).1) hfree
  rw [hrewritten, hkeys] at hrun
  constructor
  · intro hunique
    rw [if_pos hunique] at hrun
    unfold EndpointTable.update
    simp only
    split
    · rename_i rows hrows
      exact ⟨by rw [hperm.length_eq], Option.some.inj (hrows.symm.trans hrun)⟩
    · rename_i hnone
      rw [hrun] at hnone
      cases hnone
  · intro hclash
    rw [if_neg hclash] at hrun
    unfold EndpointTable.update
    simp only
    split
    · rename_i rows hrows
      rw [hrun] at hrows
      cases hrows
    · rfl

end Update

/-- A relation of rows that holds of every row and what the statement makes of it. -/
theorem forall₂_map_self {R : EndpointRow → EndpointRow → Prop} {f : EndpointRow → EndpointRow}
    {rows : List EndpointRow} (h : ∀ r ∈ rows, R r (f r)) : List.Forall₂ R rows (rows.map f) := by
  rw [List.forall₂_map_right_iff, List.forall₂_same]
  exact h

theorem not_nodup_iff_clash {t : EndpointTable} :
    ¬ (t.rows.map (k.substPair oldId newId)).Nodup ↔
      ∃ r ∈ t.rows, ∃ s ∈ t.rows, r ≠ s ∧ k.substPair oldId newId r = k.substPair oldId newId s := by
  constructor
  · intro h
    by_contra hnone
    apply h
    apply List.Nodup.map_on ?_ t.ids.of_map
    intro r hr s hs heq
    by_contra hne
    exact hnone ⟨r, hr, s, hs, hne, heq⟩
  · rintro ⟨r, hr, s, hs, hne, heq⟩ h
    exact hne (List.inj_on_of_nodup_map h hr hs heq)

/-- What the statement reads the destination's type off: nothing for a component that replaces itself, and
the one label that the rows of the destination agree on. -/
structure Destination (k : AssocTable) (oldId newId : ℤ) (t : EndpointTable) (d : Option String) : Prop where
  self : oldId = newId → d = none
  agreed : oldId ≠ newId → ∀ type, (∃ r ∈ t.rows, k.Names newId r) →
    (∀ r ∈ t.rows, k.Labels newId type r) → d = some type

/-- **A replacement.**  A statement whose rows move, and are labelled as its destination says, is
substitution. -/
theorem replaced_of_update {t : EndpointTable} {scan : ScanOrder} {assign : EndpointRow → EndpointRow}
    (keeps : ∀ r, (assign r).id = r.id) {hits : EndpointRow → Bool} {detail : String}
    (hhits : ∀ r, hits r = true ↔ k.Names oldId r)
    (hmoved : ∀ r, hits r = true → k.Moved oldId newId r (assign r))
    (hlabels : ∀ type, (∃ r ∈ t.rows, k.Names newId r) → (∀ r ∈ t.rows, k.Labels newId type r) →
      ∀ r ∈ t.rows, hits r = true → k.Labels newId type (assign r)) :
    ((∃ r ∈ t.rows, ∃ s ∈ t.rows, r ≠ s ∧ k.substPair oldId newId r = k.substPair oldId newId s) →
      ∃ detail', t.update scan assign keeps hits detail = (.error (.duplicateAssociation detail'), t)) ∧
    (¬ (∃ r ∈ t.rows, ∃ s ∈ t.rows, r ≠ s ∧ k.substPair oldId newId r = k.substPair oldId newId s) →
      ∃ n, (t.update scan assign keeps hits detail).1 = .ok n ∧
        k.Replaced oldId newId t (t.update scan assign keeps hits detail).2 n) := by
  obtain ⟨hok, hfail⟩ := @update_eq k oldId newId t scan assign keeps hits detail hhits
    fun r hr => (hmoved r hr).pair
  rw [← not_nodup_iff_clash, not_not]
  constructor
  · exact fun hclash => ⟨detail, hfail hclash⟩
  · intro hunique
    obtain ⟨hcount, hrows⟩ := hok hunique
    refine ⟨_, hcount, ⟨?_, ?_, ?_⟩⟩
    · rw [hrows]
      apply forall₂_map_self
      intro r _
      unfold afterUpdate
      split
      · rename_i hh
        exact hmoved r hh
      · rename_i hh
        have hother := mt (hhits r).mpr hh
        exact ⟨rfl, (substPair_other hother).symm, fun _ => rfl, fun _ => rfl, fun _ => rfl⟩
    · congr 1
      apply List.filter_congr
      intro r _
      exact Bool.eq_iff_iff.mpr ((hhits r).trans decide_eq_true_iff.symm)
    · intro type hnamed hagree r' hr'
      rw [hrows] at hr'
      obtain ⟨r, hr, rfl⟩ := List.mem_map.mp hr'
      unfold afterUpdate
      split
      · rename_i hh
        exact hlabels type hnamed hagree r hr hh
      · exact hagree r hr

/-! ### The two catalogs -/

theorem supplementalAttribute_destination (scan : ScanOrder) (t : EndpointTable) :
    supplementalAttribute.Destination oldId newId t (if oldId = newId then none
      else ((scan.order t.rows).find? fun r => r.leftId = newId).map EndpointRow.leftType) where
  self h := if_pos h
  agreed hne type hnamed hagree := by
    obtain ⟨r, hr, hr'⟩ := hnamed
    have hleft : r.leftId = newId := hr'.resolve_right fun h => by cases h.1
    rw [if_neg hne]
    cases hf : (scan.order t.rows).find? fun r => r.leftId = newId with
    | none =>
      have := List.find?_eq_none.mp hf r ((scan.perm t.rows).mem_iff.mpr hr)
      exact absurd (decide_eq_true hleft) this
    | some s =>
      have hs := (scan.perm t.rows).mem_iff.mp (List.mem_of_find?_eq_some hf)
      have hnew : s.leftId = newId := by simpa using List.find?_some hf
      exact congrArg some ((hagree s hs).1 hnew)

theorem parentChild_destination (scan : ScanOrder) (t : EndpointTable) :
    parentChild.Destination oldId newId t (if oldId = newId then none
      else (((scan.order t.rows).filter fun r => r.leftId = newId).map EndpointRow.leftType ++
        ((scan.order t.rows).filter fun r => r.rightId = newId).map EndpointRow.rightType).head?) where
  self h := if_pos h
  agreed hne type hnamed hagree := by
    have hscan : ∀ r, r ∈ scan.order t.rows ↔ r ∈ t.rows := fun r => (scan.perm t.rows).mem_iff
    -- every label the two queries find is the type the rows agree on
    have hall : ∀ label ∈ ((scan.order t.rows).filter fun r => r.leftId = newId).map EndpointRow.leftType ++
        ((scan.order t.rows).filter fun r => r.rightId = newId).map EndpointRow.rightType, label = type := by
      intro label hlabel
      cases List.mem_append.mp hlabel with
      | inl h =>
        obtain ⟨r, hr, rfl⟩ := List.mem_map.mp h
        obtain ⟨hr, hnew⟩ := List.mem_filter.mp hr
        exact (hagree r ((hscan r).mp hr)).1 (of_decide_eq_true hnew)
      | inr h =>
        obtain ⟨r, hr, rfl⟩ := List.mem_map.mp h
        obtain ⟨hr, hnew⟩ := List.mem_filter.mp hr
        exact (hagree r ((hscan r).mp hr)).2 rfl (of_decide_eq_true hnew)
    have hsome : ∃ label, label ∈ ((scan.order t.rows).filter fun r => r.leftId = newId).map
        EndpointRow.leftType ++
        ((scan.order t.rows).filter fun r => r.rightId = newId).map EndpointRow.rightType := by
      obtain ⟨r, hr, hr'⟩ := hnamed
      cases hr' with
      | inl hleft =>
        exact ⟨r.leftType, List.mem_append_left _ (List.mem_map_of_mem
          (List.mem_filter.mpr ⟨(hscan r).mpr hr, decide_eq_true hleft⟩))⟩
      | inr hright =>
        exact ⟨r.rightType, List.mem_append_right _ (List.mem_map_of_mem
          (List.mem_filter.mpr ⟨(hscan r).mpr hr, decide_eq_true hright.2⟩))⟩
    rw [if_neg hne]
    revert hall hsome
    cases ((scan.order t.rows).filter fun r => r.leftId = newId).map EndpointRow.leftType ++
        ((scan.order t.rows).filter fun r => r.rightId = newId).map EndpointRow.rightType with
    | nil => exact fun _ hsome => (List.not_mem_nil hsome.choose_spec).elim
    | cons label labels => exact fun hall _ => congrArg some (hall label List.mem_cons_self)

/-- The label of an end that the statement rewrites. -/
theorem Destination.label {t : EndpointTable} {d : Option String} (h : k.Destination oldId newId t d)
    {type label : String} (hnamed : ∃ r ∈ t.rows, k.Names newId r)
    (hagree : ∀ r ∈ t.rows, k.Labels newId type r) (hself : oldId = newId → label = type) :
    d.getD label = type := by
  by_cases hne : oldId = newId
  · rw [h.self hne]
    exact hself hne
  · rw [h.agreed hne type hnamed hagree]
    rfl

/-- **Component ids.**  In either catalog, whatever the orders in which the engine visits the rows: where
substituting one component for another would give two rows one pair, the replacement fails and the table
is as it was; elsewhere it succeeds, and substitution at the component ends is what it does. -/
theorem component_id_substituted (k : AssocTable) (lookup scan : ScanOrder) (t : EndpointTable)
    (oldId newId : ℤ) :
    ((∃ r ∈ t.rows, ∃ s ∈ t.rows, r ≠ s ∧ k.substPair oldId newId r = k.substPair oldId newId s) →
      ∃ detail, k.replaceComponentId lookup scan t oldId newId = (.error (.duplicateAssociation detail), t)) ∧
    (¬ (∃ r ∈ t.rows, ∃ s ∈ t.rows, r ≠ s ∧ k.substPair oldId newId r = k.substPair oldId newId s) →
      ∃ n, (k.replaceComponentId lookup scan t oldId newId).1 = .ok n ∧
        k.Replaced oldId newId t (k.replaceComponentId lookup scan t oldId newId).2 n) := by
  cases k with
  | supplementalAttribute =>
    have hd := @supplementalAttribute_destination oldId newId lookup t
    refine replaced_of_update ?_ ?_ ?_ ?_
    · exact fun _ => rfl
    · intro r
      rw [decide_eq_true_iff]
      exact ⟨.inl, fun h => h.resolve_right fun h => by cases h.1⟩
    · intro r hr
      have hleft : r.leftId = oldId := of_decide_eq_true hr
      refine ⟨rfl, ?_, ?_, fun _ => rfl, fun hother => absurd (.inl hleft) hother⟩
      · unfold substPair subst
        rw [if_pos hleft]
        rfl
      · intro hkept
        have hself : oldId = newId := hleft.symm.trans hkept.symm
        show Option.getD _ r.leftType = r.leftType
        rw [hd.self hself]
        rfl
    · intro type hnamed hagree r hr hh
      have hleft : r.leftId = oldId := of_decide_eq_true hh
      refine ⟨fun _ => hd.label hnamed hagree fun hself => ?_, fun hk => by cases hk⟩
      exact (hagree r hr).1 (hleft.trans hself)
  | parentChild =>
    have hd := @parentChild_destination oldId newId lookup t
    refine replaced_of_update ?_ ?_ ?_ ?_
    · exact fun _ => rfl
    · intro r
      rw [Bool.or_eq_true, decide_eq_true_iff, decide_eq_true_iff]
      exact ⟨fun h => h.imp_right fun h => ⟨rfl, h⟩, fun h => h.imp_right And.right⟩
    · intro r hr
      rw [Bool.or_eq_true, decide_eq_true_iff, decide_eq_true_iff] at hr
      refine ⟨rfl, rfl, ?_, ?_, fun hother => absurd (hr.imp_right fun h => ⟨rfl, h⟩) hother⟩
      · intro hkept
        show (if r.leftId = oldId then _ else _) = _
        split
        · rename_i hleft
          have hself : oldId = newId := by
            have hkept' : (if r.leftId = oldId then newId else r.leftId) = r.leftId := hkept
            rw [if_pos hleft, hleft] at hkept'
            exact hkept'.symm
          rw [hd.self hself]
          rfl
        · rfl
      · intro hkept
        show (if r.rightId = oldId then _ else _) = _
        split
        · rename_i hright
          have hself : oldId = newId := by
            have hkept' : (if r.rightId = oldId then newId else r.rightId) = r.rightId := hkept
            rw [if_pos hright, hright] at hkept'
            exact hkept'.symm
          rw [hd.self hself]
          rfl
        · rfl
    · intro type hnamed hagree r hr _
      constructor
      · intro hnew
        show (if r.leftId = oldId then _ else _) = _
        split
        · rename_i hleft
          exact hd.label hnamed hagree fun hself => (hagree r hr).1 (hleft.trans hself)
        · rename_i hleft
          have hnew' : (if r.leftId = oldId then newId else r.leftId) = newId := hnew
          rw [if_neg hleft] at hnew'
          exact (hagree r hr).1 hnew'
      · intro _ hnew
        show (if r.rightId = oldId then _ else _) = _
        split
        · rename_i hright
          exact hd.label hnamed hagree fun hself => (hagree r hr).2 rfl (hright.trans hself)
        · rename_i hright
          have hnew' : (if r.rightId = oldId then newId else r.rightId) = newId := hnew
          rw [if_neg hright] at hnew'
          exact (hagree r hr).2 rfl hnew'

/-- A self-edge moves at both ends and is counted once. -/
example : (parentChild.replaceComponentId .filed .filed
    ⟨[⟨1, 1, "Bus", 1, "Bus"⟩, ⟨2, 5, "Area", 3, "Bus"⟩], by decide, by decide⟩ 1 5).2.rows =
    [⟨1, 5, "Area", 5, "Area"⟩, ⟨2, 5, "Area", 3, "Bus"⟩] := by decide

end AssocTable

end InfraStore
