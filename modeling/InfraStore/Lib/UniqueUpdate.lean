import Mathlib.Data.List.Nodup
import Mathlib.Data.List.Perm.Basic

/-!
# Updates under a unique key

A table's rows have an identity and a key that no two rows share.  An update rewrites the rows it visits
one after another, and gives up at the first one that would take the key of another row as the table then
stands.  It may so give up over a key that is free once the update is done; where no visited row takes the
old key of another, it does not, and checking row by row is checking the table at the end.

* `updateRow`, `updateRows`: one row, and the visited rows in turn;
* `updateRows_eq`: the update succeeds exactly where the rewritten table has no two rows of one key.
-/

namespace InfraStore.Lib

variable {α ι κ : Type} [DecidableEq ι] [DecidableEq κ]

section

variable (ident : α → ι) (key : α → κ) (f : α → α)

/-- Rewrite one row, unless it would take the key of another. -/
def updateRow (rows : List α) (r : α) : Option (List α) :=
  if rows.any fun s => ident s ≠ ident r && key s = key (f r) then none
  else some (rows.map fun s => if ident s = ident r then f r else s)

/-- Rewrite the visited rows, one after another. -/
def updateRows (rows : List α) (visited : List α) : Option (List α) :=
  visited.foldlM (updateRow ident key f) rows

/-- A table some of whose rows, by their identity, are rewritten. -/
def rewritten (rows : List α) (idents : List ι) : List α :=
  rows.map fun s => if ident s ∈ idents then f s else s

end

variable {ident : α → ι} {key : α → κ} {f : α → α} {rows : List α}

theorem updateRow_eq_some {r : α} {rows' : List α} (h : updateRow ident key f rows r = some rows') :
    (∀ s ∈ rows, ident s ≠ ident r → key s ≠ key (f r)) ∧
      rows' = rows.map fun s => if ident s = ident r then f r else s := by
  unfold updateRow at h
  split at h
  · cases h
  · rename_i hany
    refine ⟨fun s hs hne hk => hany ?_, (Option.some.inj h).symm⟩
    apply List.any_eq_true.mpr
    refine ⟨s, hs, ?_⟩
    rw [Bool.and_eq_true, decide_eq_true_eq, decide_eq_true_eq]
    exact ⟨hne, hk⟩

/-- Rewriting a row keeps the identities, and two rows do not come to share a key. -/
theorem updateRow_keeps (hf : ∀ r, ident (f r) = ident r) {r : α} {rows' : List α}
    (h : updateRow ident key f rows r = some rows') (hid : (rows.map ident).Nodup)
    (hkey : (rows.map key).Nodup) : rows'.map ident = rows.map ident ∧ (rows'.map key).Nodup := by
  obtain ⟨hfree, rfl⟩ := updateRow_eq_some h
  constructor
  · rw [List.map_map]
    apply List.map_congr_left
    intro s _
    rw [Function.comp_apply]
    split
    · rename_i hsr
      rw [hf, hsr]
    · rfl
  · rw [List.map_map]
    apply List.Nodup.map_on ?_ hid.of_map
    intro s hs t ht heq
    rw [Function.comp_apply, Function.comp_apply] at heq
    by_cases hsr : ident s = ident r <;> by_cases htr : ident t = ident r
    · exact List.inj_on_of_nodup_map hid hs ht (hsr.trans htr.symm)
    · rw [if_pos hsr, if_neg htr] at heq
      exact absurd heq.symm (hfree t ht htr)
    · rw [if_neg hsr, if_pos htr] at heq
      exact absurd heq (hfree s hs hsr)
    · rw [if_neg hsr, if_neg htr] at heq
      exact List.inj_on_of_nodup_map hkey hs ht heq

/-- An update keeps the identities, and two rows do not come to share a key. -/
theorem updateRows_keeps (hf : ∀ r, ident (f r) = ident r) {visited : List α} {rows' : List α}
    (h : updateRows ident key f rows visited = some rows') (hid : (rows.map ident).Nodup)
    (hkey : (rows.map key).Nodup) : rows'.map ident = rows.map ident ∧ (rows'.map key).Nodup := by
  induction visited generalizing rows with
  | nil =>
    cases h
    exact ⟨rfl, hkey⟩
  | cons r visited ih =>
    unfold updateRows at h
    rw [List.foldlM_cons] at h
    obtain ⟨next, hnext, h⟩ := Option.bind_eq_some_iff.mp h
    obtain ⟨hids, hkeys⟩ := updateRow_keeps hf hnext hid hkey
    obtain ⟨hids', hkeys'⟩ := ih h (by rw [hids]; exact hid) hkeys
    exact ⟨hids'.trans hids, hkeys'⟩

/-- One more row rewritten. -/
theorem rewritten_cons (hid : (rows.map ident).Nodup) (hf : ∀ r, ident (f r) = ident r)
    {idents : List ι} {r : α} (hr : r ∈ rows) :
    (rewritten ident f rows idents).map (fun s => if ident s = ident r then f r else s) =
      rewritten ident f rows (idents ++ [ident r]) := by
  unfold rewritten
  rw [List.map_map]
  apply List.map_congr_left
  intro s hs
  have hkeep : ident (if ident s ∈ idents then f s else s) = ident s := by
    split
    · exact hf s
    · rfl
  rw [Function.comp_apply, hkeep]
  by_cases hsr : ident s = ident r
  · rw [if_pos hsr, List.inj_on_of_nodup_map hid hs hr hsr, if_pos (by simp)]
  · have hmem : ident s ∈ idents ++ [ident r] ↔ ident s ∈ idents := by simp [hsr]
    rw [if_neg hsr]
    by_cases hs' : ident s ∈ idents
    · rw [if_pos hs', if_pos (hmem.mpr hs')]
    · rw [if_neg hs', if_neg (mt hmem.mp hs')]

/-- **Updates.**  Where no visited row takes the old key of another, the update succeeds exactly where the
rewritten table has no two rows of one key, and then it is that table. -/
theorem updateRows_eq (hid : (rows.map ident).Nodup) (hkey : (rows.map key).Nodup)
    (hf : ∀ r, ident (f r) = ident r) {visited : List α} (hnodup : (visited.map ident).Nodup)
    (hsub : ∀ r ∈ visited, r ∈ rows)
    (hfree : ∀ r ∈ visited, ∀ s ∈ visited, key s = key (f r) → s = r) :
    updateRows ident key f rows visited =
      if ((rewritten ident f rows (visited.map ident)).map key).Nodup then
        some (rewritten ident f rows (visited.map ident))
      else none := by
  -- the rows of `done` are rewritten, and the table still has no two rows of one key
  suffices h : ∀ (todo : List α) (done : List ι), (∀ r ∈ todo, r ∈ visited) →
      (done ++ todo.map ident).Nodup → ((rewritten ident f rows done).map key).Nodup →
      updateRows ident key f (rewritten ident f rows done) todo =
        if ((rewritten ident f rows (done ++ todo.map ident)).map key).Nodup then
          some (rewritten ident f rows (done ++ todo.map ident))
        else none by
    have hstart : rewritten ident f rows [] = rows := by
      unfold rewritten
      simp
    have hrun := h visited [] (fun _ hr => hr) hnodup (by rw [hstart]; exact hkey)
    rw [hstart, List.nil_append] at hrun
    exact hrun
  intro todo
  induction todo with
  | nil =>
    intro done _ _ hunique
    rw [List.map_nil, List.append_nil, if_pos hunique]
    rfl
  | cons r todo ih =>
    intro done hvisited hdone hunique
    have hr := hsub r (hvisited r List.mem_cons_self)
    have hassoc : done ++ (r :: todo).map ident = (done ++ [ident r]) ++ todo.map ident := by simp
    unfold updateRows
    rw [List.foldlM_cons]
    cases hstep : updateRow ident key f (rewritten ident f rows done) r with
    | none =>
      -- the key is taken, and still will be at the end
      have hany : (rewritten ident f rows done).any
          (fun s => ident s ≠ ident r && key s = key (f r)) = true := by
        unfold updateRow at hstep
        split at hstep
        · assumption
        · cases hstep
      obtain ⟨s, hs, hclash⟩ := List.any_eq_true.mp hany
      rw [Bool.and_eq_true, decide_eq_true_eq, decide_eq_true_eq] at hclash
      obtain ⟨s₀, hs₀, rfl⟩ := List.mem_map.mp hs
      have hkeep : ident (if ident s₀ ∈ done then f s₀ else s₀) = ident s₀ := by
        split
        · exact hf s₀
        · rfl
      rw [hkeep] at hclash
      have hclashes : key (if ident s₀ ∈ done ++ (r :: todo).map ident then f s₀ else s₀) =
          key (if ident r ∈ done ++ (r :: todo).map ident then f r else r) := by
        rw [if_pos (show ident r ∈ done ++ (r :: todo).map ident by simp), ← hclash.2]
        by_cases hd : ident s₀ ∈ done
        · rw [if_pos hd, if_pos (List.mem_append_left _ hd)]
        · have htodo : ident s₀ ∉ (r :: todo).map ident := by
            intro hin
            obtain ⟨t, ht, hts⟩ := List.mem_map.mp hin
            have hts' := List.inj_on_of_nodup_map hid (hsub t (hvisited t ht)) hs₀ hts
            have hk := hclash.2
            rw [if_neg hd, ← hts'] at hk
            apply hclash.1
            rw [← hts', hfree r (hvisited r List.mem_cons_self) t (hvisited t ht) hk]
          rw [if_neg hd, if_neg (by rw [List.mem_append]; exact fun h => h.elim hd htodo)]
      rw [if_neg]
      · rfl
      · intro hfinal
        unfold rewritten at hfinal
        rw [List.map_map] at hfinal
        apply hclash.1
        rw [List.inj_on_of_nodup_map hfinal hs₀ hr hclashes]
    | some next =>
      have hids : ((rewritten ident f rows done).map ident) = rows.map ident := by
        unfold rewritten
        rw [List.map_map]
        apply List.map_congr_left
        intro s _
        rw [Function.comp_apply]
        split
        · exact hf s
        · rfl
      have hkeys := (updateRow_keeps hf hstep (by rw [hids]; exact hid) hunique).2
      obtain ⟨-, rfl⟩ := updateRow_eq_some hstep
      rw [rewritten_cons hid hf hr] at hkeys ⊢
      rw [hassoc]
      exact ih (done ++ [ident r]) (fun t ht => hvisited t (List.mem_cons_of_mem r ht))
        (by rw [← hassoc]; exact hdone) hkeys

end InfraStore.Lib
