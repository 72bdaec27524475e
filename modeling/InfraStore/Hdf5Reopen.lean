import InfraStore.Hdf5Sync

/-!
# Opening a file again

The index rebuilt from a file is the one it was closed with, and no array or time axis is lost or comes
back however often the file is opened.

* `Rebuilt`, `Rebuilt.member`: the index after some of the members, and one more;
* `rebuildIndex_reopened`: the index rebuilt says what the index before it said;
* `reopening_loses_nothing`: any number of sessions on one file.
-/

namespace InfraStore

open Lib

/-! ### The members one by one -/

/-- A loop that keeps what holds of the items it has seen. -/
theorem foldlM_seen {ε α β : Type} {f : β → α → Except ε β} {P : List α → β → Prop} (items : List α)
    (hstep : ∀ seen a b, seen ++ [a] <+: items → P seen b → ∃ b', f b a = .ok b' ∧ P (seen ++ [a]) b')
    {b : β} (hb : P [] b) : ∃ b', items.foldlM f b = .ok b' ∧ P items b' := by
  have hrest : ∀ rest seen b, seen ++ rest = items → P seen b →
      ∃ b', rest.foldlM f b = .ok b' ∧ P items b' := by
    intro rest
    induction rest with
    | nil =>
      intro seen b hitems hb
      rw [List.append_nil] at hitems
      exact ⟨b, rfl, hitems ▸ hb⟩
    | cons a rest ih =>
      intro seen b hitems hb
      rw [← List.singleton_append, ← List.append_assoc] at hitems
      obtain ⟨b', hf, hb'⟩ := hstep seen a b ⟨rest, hitems⟩ hb
      obtain ⟨b'', hrest, hb''⟩ := ih (seen ++ [a]) b' hitems hb'
      refine ⟨b'', ?_, hb''⟩
      rw [List.foldlM_cons, hf]
      exact hrest
  exact hrest items [] b rfl hb

/-- What the map says once every key of a list has been given its value. -/
theorem get_foldl_insert {K V : Type} [DecidableEq K] (value : K → V) (keys : List K) (m : FMap K V)
    (k : K) : FMap.get (keys.foldl (fun m k => m.insert k (value k)) m) k =
      if k ∈ keys then some (value k) else FMap.get m k := by
  induction keys generalizing m with
  | nil => rfl
  | cons x keys ih =>
    rw [List.foldl_cons, ih, FMap.get_insert, Function.update_apply]
    simp only [List.mem_cons]
    by_cases hk : k ∈ keys
    · rw [if_pos hk, if_pos (Or.inr hk)]
    · rw [if_neg hk]
      by_cases hx : k = x
      · rw [if_pos hx, if_pos (Or.inl hx), hx]
      · rw [if_neg hx, if_neg]
        intro hor
        cases hor with
        | inl h => exact hx h
        | inr h => exact hk h

theorem classify_spillName {k : PoolKey Hash32} (hk : k.Valid) (n : ℕ) :
    classify (spillName (datasetBaseName k) n) = .ok (.packed k) := by
  have hnot : ¬ hashSuffix.isSuffixOf (spillName (datasetBaseName k) n) = true := by
    rw [List.isSuffixOf_iff_suffix]
    exact not_companion hk n
  unfold classify
  rw [if_neg hnot, if_neg (by rw [not_standalone]; exact Bool.false_ne_true),
    parseDatasetName_spillName hk]
  rfl

theorem classify_companionName (name : String) :
    classify (companionName name).toList = .ok .companion := by
  unfold classify companionName
  rw [String.toList_append, String.toList_ofList,
    if_pos (List.isSuffixOf_iff_suffix.mpr (List.suffix_append _ _))]

/-- The member of the file an array lies in. -/
def Location.member : Location → String
  | .packed dataset _ => dataset
  | .standalone var => var

namespace Hdf5File

/-- The columns of a dataset, filed one after the other. -/
def fileColumns (name : String) (columns : List (Option Hash32)) (m : FMap Hash32 Location) :
    FMap Hash32 Location :=
  columns.zipIdx.foldl (fun m c => match c.1 with
    | some hash => m.insert hash (.packed name c.2)
    | none => m) m

theorem fileColumns_snoc (name : String) (columns : List (Option Hash32)) (c : Option Hash32)
    (m : FMap Hash32 Location) :
    fileColumns name (columns ++ [c]) m = match c with
      | some hash => (fileColumns name columns m).insert hash (.packed name columns.length)
      | none => fileColumns name columns m := by
  unfold fileColumns
  rw [List.zipIdx_append, List.foldl_append]
  cases c <;> simp

theorem get_fileColumns (name : String) {columns : List (Option Hash32)}
    (hinj : ∀ {c c' : ℕ} {h : Hash32}, columns[c]? = some (some h) → columns[c']? = some (some h) →
      c = c') (m : FMap Hash32 Location) (h : Hash32) (l : Location) :
    FMap.get (fileColumns name columns m) h = some l ↔
      (∃ c : ℕ, columns[c]? = some (some h) ∧ l = .packed name c) ∨
      ((∀ c : ℕ, columns[c]? ≠ some (some h)) ∧ FMap.get m h = some l) := by
  induction columns using List.reverseRecOn with
  | nil =>
    constructor
    · intro hm
      exact .inr ⟨fun c hc => (by cases hc), hm⟩
    · intro hor
      cases hor with
      | inl hex =>
        obtain ⟨c, hc, -⟩ := hex
        cases hc
      | inr hm => exact hm.2
  | append_singleton columns last ih =>
    have hold : ∀ {c : ℕ} {x : Hash32}, columns[c]? = some (some x) →
        (columns ++ [last])[c]? = some (some x) := by
      intro c x hc
      rw [List.getElem?_append_left (List.getElem?_eq_some_iff.mp hc).1, hc]
    have hback : ∀ {c : ℕ} {x : Hash32}, (columns ++ [last])[c]? = some (some x) →
        columns[c]? = some (some x) ∨ c = columns.length ∧ last = some x := by
      intro c x hc
      by_cases hlt : c < columns.length
      · rw [List.getElem?_append_left hlt] at hc
        exact .inl hc
      · rw [List.getElem?_append_right (by omega)] at hc
        obtain ⟨hlen, hc⟩ := List.getElem?_eq_some_iff.mp hc
        rw [List.length_singleton] at hlen
        rw [List.getElem_singleton] at hc
        exact .inr ⟨by omega, hc⟩
    have hlast : (columns ++ [last])[columns.length]? = some last := by
      rw [List.getElem?_append_right (Nat.le_refl _), Nat.sub_self]
      rfl
    rw [fileColumns_snoc]
    cases last with
    | none =>
      simp only
      rw [ih fun hc hc' => hinj (hold hc) (hold hc')]
      have hiff : ∀ c : ℕ, (columns ++ [none])[c]? = some (some h) ↔ columns[c]? = some (some h) := by
        intro c
        refine ⟨fun hc => ?_, hold⟩
        cases hback hc with
        | inl hc => exact hc
        | inr hc => cases hc.2
      simp only [hiff, ne_eq]
    | some x =>
      simp only
      rw [FMap.get_insert, Function.update_apply]
      by_cases hx : h = x
      · subst hx
        rw [if_pos rfl]
        constructor
        · intro hl
          exact .inl ⟨columns.length, hlast, (Option.some.inj hl).symm⟩
        · intro hor
          cases hor with
          | inl hex =>
            obtain ⟨c, hc, hl⟩ := hex
            rw [hl, hinj hc hlast]
          | inr hnot => exact (hnot.1 _ hlast).elim
      · rw [if_neg hx, ih fun hc hc' => hinj (hold hc) (hold hc')]
        have hiff : ∀ c : ℕ,
            (columns ++ [some x])[c]? = some (some h) ↔ columns[c]? = some (some h) := by
          intro c
          refine ⟨fun hc => ?_, hold⟩
          cases hback hc with
          | inl hc => exact hc
          | inr hc => exact (hx (Option.some.inj hc.2).symm).elim
        simp only [hiff, ne_eq]

/-! ### The index rebuilt -/

variable {D : Type} [H5Library D] [LawfulH5Library D]

/-- The index after some of the members: what the index of before has of them. -/
structure Rebuilt (s : Hdf5File D) (readOnly : Bool) (seen : List String) (u : Hdf5File D) : Prop where
  index : u = { unindexed s readOnly with
    datasets := u.datasets
    byHash := u.byHash
    datasetGroups := u.datasetGroups
    standaloneVars := u.standaloneVars }
  datasets (n : String) : FMap.get u.datasets n = if n ∈ seen then FMap.get s.datasets n else none
  byHash (h : Hash32) (l : Location) : FMap.get u.byHash h = some l ↔
    FMap.get s.byHash h = some l ∧ l.member ∈ seen
  groups (k : PoolKey Hash32) : (FMap.get u.datasetGroups k).getD [] =
    seen.filter fun n => decide (n ∈ (FMap.get s.datasetGroups k).getD [])
  used (k : PoolKey Hash32) : FMap.get u.datasetGroups k ≠ some []
  vars (v : String) : v ∈ u.standaloneVars ↔ v ∈ s.standaloneVars ∧ v ∈ seen

omit [H5Library D] [LawfulH5Library D] in
theorem rebuilt_nil (s : Hdf5File D) (readOnly : Bool) :
    Rebuilt s readOnly [] (unindexed s readOnly) := by
  constructor
  · rfl
  · intro n
    rfl
  · intro h l
    constructor
    · intro hl
      cases hl
    · intro hl
      cases hl.2
  · intro k
    rfl
  · intro k hk
    cases hk
  · intro v
    constructor
    · intro hv
      cases hv
    · intro hv
      cases hv.2

section

variable {s u : Hdf5File D} (hv : s.Valid) (hs : s.Synced) {readOnly : Bool} {seen : List String}
  {name : String} (hu : Rebuilt s readOnly seen u)
include hv hu

omit [LawfulH5Library D] in
/-- A member that is neither a dataset of the index nor an array adds nothing. -/
theorem Rebuilt.companion (hset : FMap.get s.datasets name = none) (hvar : name ∉ s.standaloneVars) :
    Rebuilt s readOnly (seen ++ [name]) u := by
  have hmem : ∀ {n}, n ∈ seen ++ [name] ↔ n ∈ seen ∨ n = name := by
    intro n
    rw [List.mem_append, List.mem_singleton]
  have hlocated : ∀ {h l}, FMap.get s.byHash h = some l → l.member ≠ name := by
    intro h l hl heq
    cases l with
    | packed n c =>
      obtain ⟨st, hst, -⟩ := hv.packed hl
      rw [show n = name from heq, hset] at hst
      cases hst
    | standalone var =>
      exact hvar ((show var = name from heq) ▸ (hv.standalone hl).2.1)
  have hungrouped : ∀ k, name ∉ (FMap.get s.datasetGroups k).getD [] := by
    intro k hin
    cases hg : FMap.get s.datasetGroups k with
    | none =>
      rw [hg] at hin
      cases hin
    | some names =>
      rw [hg] at hin
      obtain ⟨st, hst, -⟩ := hv.pools hg hin
      rw [hset] at hst
      cases hst
  constructor
  · exact hu.index
  · intro n
    rw [hu.datasets]
    by_cases hn : n = name
    · rw [hn, hset, ite_self, ite_self]
    · simp only [hmem, hn, or_false]
  · intro h l
    rw [hu.byHash, hmem]
    constructor
    · intro hl
      exact ⟨hl.1, .inl hl.2⟩
    · intro hl
      exact ⟨hl.1, hl.2.resolve_right (hlocated hl.1)⟩
  · intro k
    rw [hu.groups, List.filter_append]
    simp [hungrouped k]
  · exact hu.used
  · intro v
    rw [hu.vars, hmem]
    constructor
    · intro h
      exact ⟨h.1, .inl h.2⟩
    · intro h
      refine ⟨h.1, h.2.resolve_right fun heq => ?_⟩
      rw [heq] at h
      exact hvar h.1

omit [LawfulH5Library D] in
/-- An array on its own. -/
theorem Rebuilt.alone {h : Hash32}
    (hloc : FMap.get s.byHash h = some (.standalone name)) :
    Rebuilt s readOnly (seen ++ [name])
      { u with standaloneVars := u.standaloneVars ++ [name]
               byHash := u.byHash.insert h (.standalone name) } := by
  have hmem : ∀ {n}, n ∈ seen ++ [name] ↔ n ∈ seen ∨ n = name := by
    intro n
    rw [List.mem_append, List.mem_singleton]
  obtain ⟨hname, hvar, -⟩ := hv.standalone hloc
  have hset : FMap.get s.datasets name = none := by
    rw [← Option.not_isSome_iff_eq_none]
    intro hsome
    exact (hv.alone hsome hvar).1 rfl
  have hungrouped : ∀ k, name ∉ (FMap.get s.datasetGroups k).getD [] := by
    intro k hin
    cases hg : FMap.get s.datasetGroups k with
    | none =>
      rw [hg] at hin
      cases hin
    | some names =>
      rw [hg] at hin
      obtain ⟨st, hst, -⟩ := hv.pools hg hin
      rw [hset] at hst
      cases hst
  constructor
  · rw [hu.index]
  · intro n
    show FMap.get u.datasets n = _
    rw [hu.datasets]
    by_cases hn : n = name
    · rw [hn, hset, ite_self, ite_self]
    · simp only [hmem, hn, or_false]
  · intro x l
    show FMap.get (u.byHash.insert h (.standalone name)) x = some l ↔ _
    rw [FMap.get_insert, Function.update_apply, hmem]
    by_cases hx : x = h
    · rw [if_pos hx, hx, hloc]
      constructor
      · intro hl
        exact ⟨hl, .inr (by rw [← Option.some.inj hl]; rfl)⟩
      · exact fun hl => hl.1
    · rw [if_neg hx, hu.byHash]
      constructor
      · intro hl
        exact ⟨hl.1, .inl hl.2⟩
      · intro hl
        refine ⟨hl.1, hl.2.resolve_right fun heq => ?_⟩
        cases l with
        | packed n c =>
          obtain ⟨st, hst, -⟩ := hv.packed hl.1
          rw [show n = name from heq, hset] at hst
          cases hst
        | standalone var =>
          have heq : var = name := heq
          have hvarx := (hv.standalone hl.1).1
          rw [heq, hname] at hvarx
          exact hx (standaloneName_injective hvarx).symm
  · intro k
    rw [show ({ u with standaloneVars := _, byHash := _ } : Hdf5File D).datasetGroups = u.datasetGroups
      from rfl, hu.groups, List.filter_append]
    simp [hungrouped k]
  · exact hu.used
  · intro v
    show v ∈ u.standaloneVars ++ [name] ↔ _
    rw [List.mem_append, List.mem_singleton, hu.vars, hmem]
    constructor
    · intro hor
      cases hor with
      | inl h => exact ⟨h.1, .inl h.2⟩
      | inr h => exact ⟨h ▸ hvar, .inr h⟩
    · intro h
      cases h.2 with
      | inl hin => exact .inl ⟨h.1, hin⟩
      | inr heq => exact .inr heq

include hs

omit hv hu in
/-- A dataset is of the pool its name says, and of no other. -/
theorem Synced.pool_unique {k k' : PoolKey Hash32} {names : List String}
    (hk : FMap.get s.datasetGroups k = some names) (hin : name ∈ names)
    (hin' : name ∈ (FMap.get s.datasetGroups k').getD []) : k' = k := by
  cases hk' : FMap.get s.datasetGroups k' with
  | none =>
    rw [hk'] at hin'
    cases hin'
  | some names' =>
    rw [hk'] at hin'
    obtain ⟨hvalid, -, -, -, hspill⟩ := hs.grouped hk
    obtain ⟨hvalid', -, -, -, hspill'⟩ := hs.grouped hk'
    obtain ⟨i, hi⟩ := hspill name hin
    obtain ⟨i', hi'⟩ := hspill' name hin'
    have heq := congrArg String.toList (hi.symm.trans hi')
    rw [String.toList_ofList, String.toList_ofList] at heq
    have hparse := parseDatasetName_spillName hvalid i
    rw [heq, parseDatasetName_spillName hvalid' i'] at hparse
    exact Except.ok.inj hparse

/-- A packed dataset. -/
theorem Rebuilt.packed {k : PoolKey Hash32} {names : List String}
    (hk : FMap.get s.datasetGroups k = some names) (hin : name ∈ names)
    (hsingle : u.single = s.single) :
    ∃ u', indexPacked u name k = .ok u' ∧ Rebuilt s readOnly (seen ++ [name]) u' := by
  have hmem : ∀ {n}, n ∈ seen ++ [name] ↔ n ∈ seen ∨ n = name := by
    intro n
    rw [List.mem_append, List.mem_singleton]
  obtain ⟨st, hst, hdtype, helem, hlength⟩ := hv.pools hk hin
  obtain ⟨d, c, -, -, hname, hc, htype, -⟩ := hv.dataset hst
  have hrows := hs.rows hst hc
  have hraw : H5Dataset.readRaw c .u8 = .ok (st.columns.flatMap hashRow) := by
    rw [LawfulH5Dataset.readRaw_eq (t := .u8) htype, hrows]
  have hsome : (FMap.get s.datasets name).isSome := by rw [hst]; rfl
  have hinj : ∀ {c c' : ℕ} {h : Hash32}, st.columns[c]? = some (some h) →
      st.columns[c']? = some (some h) → c = c' := by
    intro c c' h hc hc'
    have hl := (hv.column hst hc).symm.trans (hv.column hst hc')
    injection hl with hl
    injection hl
  have hstate : st = { hashName := companionName name, dtype := k.dtype,
                       elementShape := k.elementShape, length := k.length, columns := st.columns } := by
    rw [← hname, ← hdtype, ← helem, ← hlength]
  refine ⟨{ u with
      byHash := fileColumns name st.columns u.byHash
      datasetGroups := u.datasetGroups.insert k (((FMap.get u.datasetGroups k).getD []) ++ [name])
      datasets := u.datasets.insert name st }, ?_, ?_⟩
  · unfold indexPacked
    rw [hstate]
    simp only
    rw [hsingle, hc]
    simp only
    exact except_bind_eq_ok.mpr ⟨_, hraw, except_bind_eq_ok.mpr ⟨_, mapM_columnHash _ st.columns, rfl⟩⟩
  · constructor
    · rw [hu.index]
    · intro n
      show FMap.get (u.datasets.insert name st) n = _
      rw [FMap.get_insert, Function.update_apply, hu.datasets]
      by_cases hn : n = name
      · rw [if_pos hn, if_pos (hmem.mpr (.inr hn)), hn, hst]
      · rw [if_neg hn]
        simp only [hmem, hn, or_false]
    · intro h l
      show FMap.get (fileColumns name st.columns u.byHash) h = some l ↔ _
      rw [get_fileColumns name hinj, hu.byHash, hmem]
      constructor
      · intro hor
        cases hor with
        | inl hex =>
          obtain ⟨c, hc, hl⟩ := hex
          rw [hl]
          exact ⟨hv.column hst hc, .inr rfl⟩
        | inr hold => exact ⟨hold.2.1, .inl hold.2.2⟩
      · intro hl
        by_cases hex : ∃ c : ℕ, st.columns[c]? = some (some h)
        · obtain ⟨c, hc⟩ := hex
          have hat := hv.column hst hc
          rw [hl.1] at hat
          exact .inl ⟨c, hc, Option.some.inj hat⟩
        · have hnot : ∀ c : ℕ, st.columns[c]? ≠ some (some h) := fun c hc => hex ⟨c, hc⟩
          refine .inr ⟨hnot, hl.1, hl.2.resolve_right fun heq => ?_⟩
          cases l with
          | packed n c =>
            have heq : n = name := heq
            obtain ⟨st', hst', hcol⟩ := hv.packed hl.1
            rw [heq, hst] at hst'
            cases hst'
            exact hnot c hcol
          | standalone var => exact (hv.alone hsome (hv.standalone hl.1).2.1).1 heq
    · intro k'
      show (FMap.get (u.datasetGroups.insert k _) k').getD [] = _
      rw [FMap.get_insert, Function.update_apply, List.filter_append]
      by_cases hk' : k' = k
      · rw [if_pos hk', Option.getD_some, hu.groups, hk', hk]
        simp [hin]
      · rw [if_neg hk', hu.groups]
        have hout : name ∉ (FMap.get s.datasetGroups k').getD [] :=
          fun h => hk' (hs.pool_unique hk hin h)
        simp [hout]
    · intro k' hnil
      change FMap.get (u.datasetGroups.insert k _) k' = some [] at hnil
      rw [FMap.get_insert, Function.update_apply] at hnil
      split at hnil
      · have hlen := congrArg List.length (Option.some.inj hnil)
        rw [List.length_append] at hlen
        cases hlen
      · exact hu.used k' hnil
    · intro v
      show v ∈ u.standaloneVars ↔ _
      rw [hu.vars, hmem]
      constructor
      · intro h
        exact ⟨h.1, .inl h.2⟩
      · intro h
        exact ⟨h.1, h.2.resolve_right fun heq => (hv.alone hsome h.1).1 heq⟩

/-- One member of the file. -/
theorem Rebuilt.member (hname : (FMap.get s.single name).isSome) :
    ∃ u', indexMember u name = .ok u' ∧ Rebuilt s readOnly (seen ++ [name]) u' := by
  have hsingle : u.single = s.single := by
    rw [hu.index]
    rfl
  unfold indexMember
  cases hs.named.mp hname with
  | inl hset =>
    obtain ⟨k, names, hk, hin⟩ := hs.pooled hset
    obtain ⟨hvalid, -, -, -, hspill⟩ := hs.grouped hk
    obtain ⟨i, hi⟩ := hspill name hin
    obtain ⟨u', hu', hrebuilt⟩ := hu.packed hv hs hk hin hsingle
    refine ⟨u', except_bind_eq_ok.mpr ⟨.packed k, ?_, hu'⟩, hrebuilt⟩
    rw [hi, String.toList_ofList]
    exact classify_spillName hvalid i
  | inr hor =>
    cases hor with
    | inl hcomp =>
      obtain ⟨m, hm, hnm⟩ := hcomp
      refine ⟨u, except_bind_eq_ok.mpr ⟨.companion, ?_, rfl⟩, hu.companion hv ?_ ?_⟩
      · rw [hnm]
        exact classify_companionName m
      · rw [← Option.not_isSome_iff_eq_none]
        intro hsome
        exact hv.companions hm hsome hnm.symm
      · intro hvar
        exact (hv.alone hm hvar).2 hnm
    | inr hvar =>
      obtain ⟨h, hloc⟩ := hv.vars hvar
      refine ⟨_, except_bind_eq_ok.mpr ⟨.standalone h, ?_, rfl⟩, hu.alone hv hloc⟩
      rw [(hv.standalone hloc).1]
      unfold standaloneName
      rw [String.toList_ofList]
      exact classify_standalone h

end

/-- An index over the same file that says the same. -/
structure Reopened (s s' : Hdf5File D) : Prop where
  file : s' = { s with
    readOnly := s'.readOnly
    datasets := s'.datasets
    byHash := s'.byHash
    datasetGroups := s'.datasetGroups
    standaloneVars := s'.standaloneVars
    timestampHashes := s'.timestampHashes }
  datasets (n : String) : FMap.get s'.datasets n = FMap.get s.datasets n
  byHash (h : Hash32) : FMap.get s'.byHash h = FMap.get s.byHash h
  groups (k : PoolKey Hash32) : FMap.get s'.datasetGroups k = FMap.get s.datasetGroups k
  vars (v : String) : v ∈ s'.standaloneVars ↔ v ∈ s.standaloneVars
  hashes (h : Hash32) : h ∈ s'.timestampHashes ↔ h ∈ s.timestampHashes

section

variable {s s' : Hdf5File D} (h : Reopened s s')
include h

theorem Reopened.array : s'.array = s.array := by
  funext x
  have hsingle : s'.single = s.single := by rw [h.file]
  have hwritten : s'.writtenAs = s.writtenAs := by rw [h.file]
  unfold Hdf5File.array
  rw [h.byHash, hsingle, hwritten]
  simp only [h.datasets]

omit [H5Library D] [LawfulH5Library D] in
theorem Reopened.vector : s'.vector = s.vector := by
  funext x
  have htimes : s'.timestamps = s.timestamps := by rw [h.file]
  unfold Hdf5File.vector
  rw [htimes]
  simp only [h.hashes]

omit [LawfulH5Library D] in
theorem Reopened.valid (hs : s.Valid) : s'.Valid := by
  have hsingle : s'.single = s.single := by rw [h.file]
  have hwritten : s'.writtenAs = s.writtenAs := by rw [h.file]
  have htimes : s'.timestamps = s.timestamps := by rw [h.file]
  constructor
  · intro x name col hx
    rw [h.byHash] at hx
    rw [h.datasets]
    exact hs.packed hx
  · intro x name col st hst hcol
    rw [h.datasets] at hst
    rw [h.byHash]
    exact hs.column hst hcol
  · intro name st hst
    rw [h.datasets] at hst
    rw [hsingle]
    exact hs.dataset hst
  · intro x var hx
    rw [h.byHash] at hx
    rw [hsingle, hwritten, h.vars]
    exact hs.standalone hx
  · intro var hvar
    obtain ⟨x, hx⟩ := hs.vars ((h.vars var).mp hvar)
    exact ⟨x, (h.byHash x).trans hx⟩
  · intro name name' hn hn'
    rw [h.datasets] at hn hn'
    exact hs.companions hn hn'
  · intro name var hn hvar
    rw [h.datasets] at hn
    exact hs.alone hn ((h.vars var).mp hvar)
  · intro k names name hk hn
    rw [h.groups] at hk
    rw [h.datasets]
    exact hs.pools hk hn
  · intro x hx
    rw [htimes]
    exact hs.axes ((h.hashes x).mp hx)

theorem Reopened.synced (hs : s.Synced) : s'.Synced := by
  have hsingle : s'.single = s.single := by rw [h.file]
  have htimes : s'.timestamps = s.timestamps := by rw [h.file]
  constructor
  · intro n
    rw [hsingle]
    simp only [h.datasets, h.vars]
    exact hs.named
  · intro n hn
    rw [h.datasets] at hn
    simp only [h.groups]
    exact hs.pooled hn
  · intro k names hk
    rw [h.groups] at hk
    exact hs.grouped hk
  · intro n st c hn hc
    rw [h.datasets] at hn
    rw [hsingle] at hc
    exact hs.rows hn hc
  · intro n
    rw [htimes]
    simp only [h.hashes]
    exact hs.members

end

omit [H5Library D] [LawfulH5Library D] in
/-- The datasets of every pool in their order. -/
theorem get_sortGroups (s : Hdf5File D) (k : PoolKey Hash32) :
    FMap.get (sortGroups s).datasetGroups k =
      (FMap.get s.datasetGroups k).map (List.insertionSort (· ≤ ·)) := by
  unfold sortGroups
  simp only
  rw [get_foldl_insert]
  cases hk : FMap.get s.datasetGroups k with
  | none =>
    rw [if_neg]
    · rfl
    · intro hin
      have hsome := (FMap.mem_iff_isSome s.datasetGroups k).mp hin
      rw [hk] at hsome
      cases hsome
  | some names =>
    have hin : k ∈ s.datasetGroups.keys :=
      (FMap.mem_iff_isSome s.datasetGroups k).mpr (by rw [hk]; rfl)
    rw [if_pos hin]
    rfl

theorem timestampsPrefix_isPrefixOf (h : Hash32) :
    timestampsPrefix.isPrefixOf (timestampsDatasetName h).toList = true := by
  unfold timestampsDatasetName
  rw [String.toList_ofList, List.isPrefixOf_iff_prefix]
  exact List.prefix_append _ _

/-- The members of the group of time axes. -/
theorem indexTimestamps_seen {s u : Hdf5File D} (hs : s.Synced) (hnone : u.timestampHashes = []) :
    ∃ u', s.timestamps.keys.foldlM indexTimestamps u = .ok u' ∧
      u' = { u with timestampHashes := u'.timestampHashes } ∧
      ∀ h, h ∈ u'.timestampHashes ↔ h ∈ s.timestampHashes := by
  have hloop := foldlM_seen (f := indexTimestamps) (b := u)
    (P := fun seen u' => u' = { u with timestampHashes := u'.timestampHashes } ∧
      ∀ h, h ∈ u'.timestampHashes ↔ h ∈ s.timestampHashes ∧ timestampsDatasetName h ∈ seen)
    s.timestamps.keys ?_ ⟨rfl, fun h => ?_⟩
  · obtain ⟨u', hfold, hidx, hiff⟩ := hloop
    refine ⟨u', hfold, hidx, fun h => (hiff h).trans ⟨And.left, fun hin => ⟨hin, ?_⟩⟩⟩
    exact (FMap.mem_iff_isSome _ _).mpr (hs.members.mpr ⟨h, hin, rfl⟩)
  · intro seen name b hseen hb
    obtain ⟨hidx, hiff⟩ := hb
    have hkey : name ∈ s.timestamps.keys := hseen.subset (List.mem_append_right _ List.mem_cons_self)
    obtain ⟨x, hx, hname⟩ := hs.members.mp ((FMap.mem_iff_isSome _ _).mp hkey)
    refine ⟨{ b with timestampHashes := b.timestampHashes ++ [x] }, ?_, ?_, fun h => ?_⟩
    · unfold indexTimestamps
      rw [hname, if_pos (timestampsPrefix_isPrefixOf x)]
      refine except_bind_eq_ok.mpr ⟨x, ?_, rfl⟩
      unfold timestampsDatasetName
      rw [String.toList_ofList, List.drop_left, hexToHash, hashFromHex_hashHex]
    · rw [hidx]
    · show h ∈ b.timestampHashes ++ [x] ↔ _
      rw [List.mem_append, List.mem_singleton, hiff, List.mem_append, List.mem_singleton]
      constructor
      · intro hor
        cases hor with
        | inl hold => exact ⟨hold.1, .inl hold.2⟩
        | inr heq => exact ⟨heq ▸ hx, .inr (by rw [heq, hname])⟩
      · intro hin
        cases hin.2 with
        | inl hold => exact .inl ⟨hin.1, hold⟩
        | inr heq => exact .inr (timestampsDatasetName_injective (heq.trans hname))
  · rw [hnone]
    constructor
    · intro hin
      cases hin
    · intro hin
      cases hin.2

/-- **The index comes back.**  Where the file says what the index says, opening it builds an index that
says the same. -/
theorem rebuildIndex_reopened {s : Hdf5File D} (hv : s.Valid) (hs : s.Synced) (readOnly : Bool) :
    ∃ s', rebuildIndex s readOnly = .ok s' ∧ Reopened s s' ∧ s'.readOnly = readOnly := by
  obtain ⟨u, hfold, hu⟩ := foldlM_seen (f := indexMember) (P := Rebuilt s readOnly) s.single.keys
    (fun seen name u hseen hu => by
      have hkey : name ∈ s.single.keys :=
        hseen.subset (List.mem_append_right _ List.mem_cons_self)
      exact hu.member hv hs ((FMap.mem_iff_isSome _ _).mp hkey))
    (rebuilt_nil s readOnly)
  have hsorted : (sortGroups u).timestampHashes = [] := by
    show u.timestampHashes = []
    rw [hu.index]
    rfl
  obtain ⟨s', haxes, hidx, hhashes⟩ := indexTimestamps_seen (u := sortGroups u) hs hsorted
  have hkeys : ∀ {n}, (FMap.get s.single n).isSome → n ∈ s.single.keys :=
    fun hn => (FMap.mem_iff_isSome _ _).mpr hn
  refine ⟨s', except_bind_eq_ok.mpr ⟨u, hfold, haxes⟩, ⟨?_, ?_, ?_, ?_, ?_, hhashes⟩, ?_⟩
  · rw [hidx]
    unfold sortGroups
    simp only
    rw [hu.index]
    rfl
  · intro n
    have hsets : s'.datasets = u.datasets := by rw [hidx]; rfl
    rw [hsets, hu.datasets]
    split
    · rfl
    · rename_i hn
      rw [eq_comm, ← Option.not_isSome_iff_eq_none]
      exact fun hsome => hn (hkeys (hs.named.mpr (.inl hsome)))
  · intro h
    have hlocs : s'.byHash = u.byHash := by rw [hidx]; rfl
    rw [hlocs]
    apply Option.ext
    intro l
    rw [hu.byHash]
    refine ⟨And.left, fun hl => ⟨hl, hkeys ?_⟩⟩
    cases l with
    | packed n c =>
      obtain ⟨st, hst, -⟩ := hv.packed hl
      exact hs.named.mpr (.inl (by rw [show Location.member (.packed n c) = n from rfl, hst]; rfl))
    | standalone var => exact hs.named.mpr (.inr (.inr (hv.standalone hl).2.1))
  · intro k
    have hgroups : s'.datasetGroups = (sortGroups u).datasetGroups := by rw [hidx]
    rw [hgroups, get_sortGroups]
    have hfilter := hu.groups k
    cases hk : FMap.get s.datasetGroups k with
    | none =>
      rw [hk] at hfilter
      have hnil : (FMap.get u.datasetGroups k).getD [] = [] := by
        rw [hfilter]
        exact List.filter_eq_nil_iff.mpr fun n _ => by simp
      cases hu' : FMap.get u.datasetGroups k with
      | none => rfl
      | some names =>
        rw [hu'] at hnil
        exact (hu.used k (by rw [hu', show names = [] from hnil])).elim
    | some names =>
      rw [hk] at hfilter
      obtain ⟨-, hne, hnames, hnodup, -⟩ := hs.grouped hk
      -- the members of the pool are those the index had, in another order
      have hin : ∀ n, n ∈ s.single.keys.filter (fun n => decide (n ∈ (some names).getD [])) ↔
          n ∈ names := by
        intro n
        rw [List.mem_filter, decide_eq_true_iff]
        refine ⟨And.right, fun hn => ⟨hkeys (hs.named.mpr (.inl ?_)), hn⟩⟩
        obtain ⟨st, hst, -⟩ := hv.pools hk hn
        rw [hst]
        rfl
      have hperm : (s.single.keys.filter fun n => decide (n ∈ (some names).getD [])).Perm names :=
        (List.perm_ext_iff_of_nodup (s.single.keys_nodup.filter _) hnodup).mpr hin
      cases hu' : FMap.get u.datasetGroups k with
      | none =>
        rw [hu'] at hfilter
        rw [← hfilter] at hperm
        exact (hne hperm.symm.eq_nil).elim
      | some names' =>
        rw [hu'] at hfilter
        rw [← hfilter] at hperm
        show some (names'.insertionSort (· ≤ ·)) = some names
        congr 1
        exact List.Perm.eq_of_pairwise' (List.pairwise_insertionSort (· ≤ ·) names') hnames
          ((List.perm_insertionSort (· ≤ ·) names').trans hperm)
  · intro v
    have hvars : s'.standaloneVars = u.standaloneVars := by rw [hidx]; rfl
    rw [hvars, hu.vars]
    exact ⟨And.left, fun hin => ⟨hin, hkeys (hs.named.mpr (.inr (.inr hin)))⟩⟩
  · rw [hidx]
    show u.readOnly = readOnly
    rw [hu.index]
    rfl

/-! ### Sessions -/

/-- **A session.**  Whatever fails but a removal, the file says what the index says at its end. -/
theorem answers_synced {requests : List (BackendRequest Hash32)}
    (hr : ∀ r ∈ requests, r.Proper ∧ r.Nameable) {s : Hdf5File D} (hv : s.Valid) (hs : s.Synced)
    (hq : s.Quiet) :
    (answers s requests).2.Valid ∧ (answers s requests).2.Synced ∧ (answers s requests).2.Quiet := by
  let _ : Sha256 Hash32 := ⟨fun _ => ⟨List.replicate 32 0, List.length_replicate⟩⟩
  induction requests generalizing s with
  | nil => exact ⟨hv, hs, hq⟩
  | cons r rs ih =>
    obtain ⟨hproper, hname⟩ := hr r List.mem_cons_self
    have hmakes := run_makes (B := Hdf5File D) (b := s) hv hproper
    exact ih (fun r hmem => hr r (List.mem_cons_of_mem _ hmem)) hmakes.1
      (run_synced hv hs hq hproper hname) (hmakes.2.1 hq)

/-- Sessions on one file: each hands over its requests, and the file is opened again before the next;
the log of them all. -/
def sessions (file : Hdf5File D) : List (List (BackendRequest Hash32)) →
    Result (List (BackendRequest Hash32 × Result (List Bool)) × Hdf5File D)
  | [] => .ok ([], file)
  | requests :: work => do
    let done := answers file requests
    let opened ← rebuildIndex done.2 false
    let rest ← sessions opened work
    pure (done.1 ++ rest.1, rest.2)

end Hdf5File

theorem Follows.append {H : Type} [DecidableEq H] {quiet : Prop} {m m' m'' : Contents H}
    {log log' : List (BackendRequest H × Result (List Bool))} (h : Follows quiet m log m')
    (h' : Follows quiet m' log' m'') : Follows quiet m (log ++ log') m'' := by
  induction h with
  | nil m => exact h'
  | cons hm _ ih => exact .cons hm (ih h')

namespace Hdf5File

variable {D : Type} [H5Library D] [LawfulH5Library D]

theorem sessions_follow {work : List (List (BackendRequest Hash32))}
    (hr : ∀ requests ∈ work, ∀ r ∈ requests, r.Proper ∧ r.Nameable) {s : Hdf5File D} (hv : s.Valid)
    (hs : s.Synced) (hq : s.Quiet) :
    ∃ log file, sessions s work = .ok (log, file) ∧
      Follows True (⟨s.array, s.vector⟩ : Contents Hash32) log ⟨file.array, file.vector⟩ ∧
      file.Valid ∧ file.Synced := by
  let _ : Sha256 Hash32 := ⟨fun _ => ⟨List.replicate 32 0, List.length_replicate⟩⟩
  induction work generalizing s with
  | nil => exact ⟨[], s, rfl, .nil _, hv, hs⟩
  | cons requests work ih =>
    have hreq := hr requests List.mem_cons_self
    obtain ⟨hv₁, hs₁, hq₁⟩ := answers_synced hreq hv hs hq
    have hf := (answers_follow (B := Hdf5File D) (fun r hmem => (hreq r hmem).1) hv).2
    obtain ⟨opened, hopen, hsame, hwrite⟩ := rebuildIndex_reopened hv₁ hs₁ false
    have hq₂ : opened.Quiet := by
      refine ⟨hwrite, ?_⟩
      rw [hsame.file]
      exact hq₁.2
    obtain ⟨log, file, hrest, hfollow, hv', hs'⟩ := ih
      (fun requests hmem => hr requests (List.mem_cons_of_mem _ hmem)) (hsame.valid hv₁)
      (hsame.synced hs₁) hq₂
    refine ⟨(answers s requests).1 ++ log, file, ?_, ?_, hv', hs'⟩
    · exact except_bind_eq_ok.mpr ⟨opened, hopen, except_bind_eq_ok.mpr ⟨(log, file), hrest, rfl⟩⟩
    · rw [hsame.array, hsame.vector] at hfollow
      exact (hf.mono fun _ => hq).append hfollow

theorem fresh_synced (faults : H5Faults) : (fresh faults : Hdf5File D).Synced := by
  constructor
  · intro n
    constructor
    · intro hn
      cases hn
    · intro hor
      cases hor with
      | inl h => cases h
      | inr hor =>
        cases hor with
        | inl hex =>
          obtain ⟨m, hm, -⟩ := hex
          cases hm
        | inr hvar => cases hvar
  · intro n hn
    cases hn
  · intro k names hk
    cases hk
  · intro n st c hn
    cases hn
  · intro n
    constructor
    · intro hn
      cases hn
    · intro hex
      obtain ⟨h, hin, -⟩ := hex
      cases hin

end Hdf5File

/-- **Reopening loses nothing.**  However often the file is closed and opened again between the requests,
and whichever creations and writes of the library fail, as long as no removal does: it can always be
opened again, the contents are what the log of all the sessions says, and the file opened once more, to
write or only to read, reads back as the contents. -/
theorem reopening_loses_nothing {D : Type} [H5Library D] [LawfulH5Library D] (faults : H5Faults)
    (hquiet : ∀ b ∈ faults.removals, b = false) (work : List (List (BackendRequest Hash32)))
    (hr : ∀ requests ∈ work, ∀ r ∈ requests, r.Proper ∧ r.Nameable) (readOnly : Bool) :
    ∃ log file opened m, Hdf5File.sessions (Hdf5File.fresh faults : Hdf5File D) work = .ok (log, file) ∧
      Hdf5File.rebuildIndex file readOnly = .ok opened ∧ Follows True Contents.empty log m ∧
      ReadsBack opened m := by
  obtain ⟨log, file, hwork, hfollow, hv, hs⟩ := Hdf5File.sessions_follow hr
    (Hdf5File.fresh_valid (D := D) faults) (Hdf5File.fresh_synced faults) ⟨rfl, hquiet⟩
  obtain ⟨opened, hopen, hsame, -⟩ := Hdf5File.rebuildIndex_reopened hv hs readOnly
  refine ⟨log, file, opened, _, hwork, hopen, hfollow, ?_⟩
  have hread := (hsame.valid hv).readsBack
  rw [hsame.array, hsame.vector] at hread
  exact hread

namespace Hdf5Backend.Sample

theorem requests_nameable : ∀ r ∈ requests, r.Proper ∧ r.Nameable := by
  intro r hmem
  refine ⟨requests_proper r hmem, ?_⟩
  have hvalid : ∀ a b, (poolKey (pair a b) axis).Valid := by
    intro a b
    constructor
    · intro d hd
      cases hd
    · show 2 < usizeBound
      decide
    · intro p hp
      cases hp
  unfold requests at hmem
  simp only [List.mem_cons, List.not_mem_nil, or_false] at hmem
  rcases hmem with rfl | rfl | rfl | rfl
  · intro i hi
    rcases List.mem_pair.mp hi with rfl | rfl
    · exact hvalid 1 2
    · exact hvalid 3 4
  · exact fun h => (by cases h)
  · trivial
  · exact fun _ => hvalid 7 8

/-- The requests in one session, and the last two again in another. -/
def work : List (List (BackendRequest Hash32)) := [requests, requests.drop 2]

theorem reopening_loses_nothing_pairs :
    (∃ log file opened m, Hdf5File.sessions (Hdf5File.fresh faults : Hdf5File Plain) work =
        .ok (log, file) ∧ Hdf5File.rebuildIndex file true = .ok opened ∧
      Follows True Contents.empty log m ∧ ReadsBack opened m) ∧
    ((Hdf5File.sessions (Hdf5File.fresh faults : Hdf5File Plain) work).bind fun r =>
        (Hdf5File.rebuildIndex r.2 true).map fun opened => [hash 1, hash 2, hash 3, hash 4].map fun h =>
          (ArrayBackend.getArray opened h .u8).toOption.map TypedArray.bytes).toOption =
      some [none, some [3, 4], none, some [7, 8]] := by
  refine ⟨reopening_loses_nothing faults ?_ work ?_ true, by decide +kernel⟩
  · exact fun b hb => (by cases hb)
  · unfold work
    intro rs hrs r hmem
    rcases List.mem_pair.mp hrs with rfl | rfl
    · exact requests_nameable r hmem
    · exact requests_nameable r (List.mem_of_mem_drop hmem)

end Hdf5Backend.Sample

end InfraStore
