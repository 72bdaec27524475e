import InfraStore.BackendRuns
import Mathlib.Data.String.Basic

/-!
# The file says what the index says

An index is rebuilt from the names of the members of its file and the hashes beside the columns alone,
so the writer keeps these in step with the index.

* `columnHash_hashRow`, `mapM_columnHash`: a companion's rows name the arrays in its columns again;
* `Synced`: the file says what the index says;
* `run_synced`: where no removal fails every request keeps `Synced`, whatever else fails; one lemma for
  each command before it.
-/

namespace InfraStore

open Lib

/-! ### Rows of a companion -/

theorem fromUTF8_utf8 (l : List Char) :
    String.fromUTF8? ⟨(utf8 l).toArray⟩ = some (String.ofList l) := by
  have hbytes : (⟨(utf8 l).toArray⟩ : ByteArray) = (String.ofList l).toByteArray := by
    rw [String.toByteArray_ofList]
    apply ByteArray.ext
    unfold utf8 List.utf8Encode
    simp
  rw [hbytes]
  unfold String.fromUTF8?
  rw [dif_pos (String.ofList l).isValidUTF8]
  rfl

theorem hashRow_ne_zero (h : Hash32) : (hashRow (some h)).headD 0 ≠ 0 := by
  have hbytes := hexBytes_byteHex h.1
  have hlen := hashRow_length (some h)
  intro hzero
  cases hrow : hashRow (some h) with
  | nil =>
    rw [hrow] at hlen
    cases hlen
  | cons hi rest =>
    rw [hrow] at hzero hlen
    change hi = 0 at hzero
    cases rest with
    | nil => cases hlen
    | cons lo rest =>
      have hascii := TimeReference.utf8_ascii fun c hc => (hashHex_spec h c hc).1
      unfold hashHex at hascii
      rw [← hascii, show utf8 (h.1.flatMap byteHex) = hi :: lo :: rest from hrow, hzero, hexBytes]
        at hbytes
      cases hbytes

namespace Hdf5File

/-- A row of a companion names the array whose row it is. -/
theorem columnHash_hashRow (name : String) (i : ℕ) (h : Option Hash32) :
    columnHash name i (hashRow h) = .ok h := by
  cases h with
  | none => rfl
  | some h =>
    have hutf8 : String.fromUTF8? ⟨(hashRow (some h)).toArray⟩ = some (String.ofList (hashHex h)) :=
      fromUTF8_utf8 (hashHex h)
    unfold columnHash
    rw [if_neg (hashRow_ne_zero h), hutf8]
    simp only
    rw [String.toList_ofList, hexToHash, hashFromHex_hashHex]
    rfl

/-- The rows of a companion, one by one. -/
theorem mapM_columnHash (name : String) (columns : List (Option Hash32)) :
    ((List.range ((columns.flatMap hashRow).length / 64)).map fun i =>
      (((columns.flatMap hashRow).drop (i * 64)).take 64, i)).mapM
        (fun row => columnHash name row.2 row.1) = .ok columns := by
  have hlen : (columns.flatMap hashRow).length = columns.length * 64 :=
    length_flatMap_blocks fun h _ => hashRow_length h
  rw [hlen, Nat.mul_div_cancel _ (by decide), mapM_eq_ok, List.forall₂_map_left_iff]
  rw [List.forall₂_iff_get]
  refine ⟨List.length_range, fun i hi hi' => ?_⟩
  have hget : columns[i]? = some (columns.get ⟨i, hi'⟩) := List.getElem?_eq_getElem hi'
  rw [List.get_eq_getElem, List.getElem_range]
  simp only
  rw [take_drop_flatMap (fun h _ => hashRow_length h) hget]
  exact columnHash_hashRow name i _

theorem flatMap_hashRow_length (columns : List (Option Hash32)) :
    (columns.flatMap hashRow).length = columns.length * 64 :=
  length_flatMap_blocks fun h _ => hashRow_length h

/-- A companion with one of its rows replaced. -/
theorem fillSlab_hashRow {columns : List (Option Hash32)} {col : ℕ} (hcol : col < columns.length)
    (h : Option Hash32) :
    fillSlab 1 [columns.length, 64] [(col, col + 1), (0, 64)] (hashRow h) (columns.flatMap hashRow) =
      (columns.set col h).flatMap hashRow := by
  have hlen : (columns.flatMap hashRow).length = columns.length * ([64].prod * 1) :=
    flatMap_hashRow_length columns
  have hrow : (hashRow h).length = [64].prod * 1 := hashRow_length h
  have hin : InBounds ((col, col + 1) :: wholeRanges [64]) [columns.length, 64] :=
    .cons ⟨Nat.le_succ col, hcol⟩ (inBounds_whole [64])
  have hbox : (hashRow h).length = boxSize ((col, col + 1) :: wholeRanges [64]) * 1 := by
    rw [hrow, boxSize_cons, boxSize_whole, Nat.add_sub_cancel_left, Nat.one_mul]
  have hsize : (columns.flatMap hashRow).length = [columns.length, 64].prod * 1 := by
    rw [hlen]
    simp
  have hfill := length_fillSlab hin hbox hsize
  refine eq_of_blocks (n := columns.length) (c := 64) (hfill.trans (by simp)) ?_ fun i hi => ?_
  · rw [flatMap_hashRow_length, List.length_set]
  · refine (fillSlab_row hcol hrow hlen hi).trans ?_
    have hset : (columns.set col h)[i]? = some (if i = col then h else columns.get ⟨i, hi⟩) := by
      rw [List.getElem?_set]
      by_cases heq : i = col
      · rw [if_pos heq.symm, if_pos (heq ▸ hi), if_pos heq]
      · rw [if_neg fun hc => heq hc.symm, if_neg heq]
        exact List.getElem?_eq_getElem hi
    rw [take_drop_flatMap (fun h _ => hashRow_length h) hset]
    split
    · rfl
    · exact take_drop_flatMap (fun h _ => hashRow_length h) (List.getElem?_eq_getElem hi)

/-! ### A file that says what the index says -/

variable {D : Type} [H5Library D] [LawfulH5Library D]

/-- Every member of the file is of the index, every dataset is named as one of its pool, and every
companion names the arrays in its dataset's columns. -/
structure Synced (s : Hdf5File D) : Prop where
  named {n : String} : (FMap.get s.single n).isSome ↔ (FMap.get s.datasets n).isSome ∨
    (∃ m, (FMap.get s.datasets m).isSome ∧ n = companionName m) ∨ n ∈ s.standaloneVars
  pooled {n : String} : (FMap.get s.datasets n).isSome →
    ∃ k names, FMap.get s.datasetGroups k = some names ∧ n ∈ names
  grouped {k : PoolKey Hash32} {names : List String} : FMap.get s.datasetGroups k = some names →
    k.Valid ∧ names ≠ [] ∧ names.Pairwise (· ≤ ·) ∧ names.Nodup ∧
      ∀ n ∈ names, ∃ i, n = String.ofList (spillName (datasetBaseName k) i)
  rows {n : String} {st : DatasetState Hash32} {c : D} : FMap.get s.datasets n = some st →
    FMap.get s.single (companionName n) = some c →
      LawfulH5Dataset.content c = st.columns.flatMap hashRow
  members {n : String} : (FMap.get s.timestamps n).isSome ↔
    ∃ h ∈ s.timestampHashes, n = timestampsDatasetName h

/-- The group of arrays has the members it had, and every companion but one what it held. -/
structure Agrees (s s' : Hdf5File D) (but : Option String) : Prop where
  shifted : Shifted s s'
  names (n : String) : (FMap.get s'.single n).isSome = (FMap.get s.single n).isSome
  rows {n : String} {c' : D} : (FMap.get s.datasets n).isSome → some n ≠ but →
    FMap.get s'.single (companionName n) = some c' →
      ∃ c, FMap.get s.single (companionName n) = some c ∧
        LawfulH5Dataset.content c' = LawfulH5Dataset.content c

theorem Agrees.of_same {s s' : Hdf5File D} (h : Shifted s s')
    (hsame : ∀ n, FMap.get s'.single n = FMap.get s.single n) : Agrees s s' none :=
  ⟨h, fun n => by rw [hsame], fun {n c'} _ _ hc => ⟨c', by rw [← hsame, hc], rfl⟩⟩

theorem Agrees.trans {s s' s'' : Hdf5File D} {but : Option String} (h : Agrees s s' but)
    (h' : Agrees s' s'' none) : Agrees s s'' but := by
  have hidx := h.shifted.index
  refine ⟨h.shifted.trans h'.shifted, fun n => (h'.names n).trans (h.names n), ?_⟩
  intro n c'' hn hbut hc
  obtain ⟨c', hc', heq⟩ := h'.rows (by rw [hidx]; exact hn) (by simp) hc
  obtain ⟨c, hc, heq'⟩ := h.rows hn hbut hc'
  exact ⟨c, hc, heq.trans heq'⟩

theorem Agrees.weaken {s s' : Hdf5File D} (h : Agrees s s' none) (but : Option String) :
    Agrees s s' but :=
  ⟨h.shifted, h.names, fun hn _ hc => h.rows hn (by simp) hc⟩

/-- A dataset of the index rewritten. -/
theorem Agrees.dataset {s s' : Hdf5File D} (hv : s.Valid) (h : Shifted s s') {name : String} {d' : D}
    (hn : (FMap.get s.datasets name).isSome) (hsingle : s'.single = s.single.insert name d') :
    Agrees s s' none := by
  have hget : ∀ n, FMap.get s'.single n = if n = name then some d' else FMap.get s.single n := by
    intro n
    rw [hsingle, FMap.get_insert, Function.update_apply]
  obtain ⟨st, hst⟩ := Option.isSome_iff_exists.mp hn
  obtain ⟨d, -, hd, -⟩ := hv.dataset hst
  refine ⟨h, fun n => ?_, fun {n c'} hm _ hc => ?_⟩
  · rw [hget]
    split
    · rename_i heq
      rw [heq, hd]
      rfl
    · rfl
  · rw [hget, if_neg (hv.companions hm hn)] at hc
    exact ⟨c', hc, rfl⟩

/-- A companion of the index rewritten. -/
theorem Agrees.companion {s s' : Hdf5File D} (hv : s.Valid) (h : Shifted s s') {name : String} {c' : D}
    (hn : (FMap.get s.datasets name).isSome)
    (hsingle : s'.single = s.single.insert (companionName name) c') :
    Agrees s s' (some name) := by
  have hget : ∀ n, FMap.get s'.single n =
      if n = companionName name then some c' else FMap.get s.single n := by
    intro n
    rw [hsingle, FMap.get_insert, Function.update_apply]
  obtain ⟨st, hst⟩ := Option.isSome_iff_exists.mp hn
  obtain ⟨-, c, -, -, -, hc, -⟩ := hv.dataset hst
  refine ⟨h, fun n => ?_, fun {n e} hm hbut he => ?_⟩
  · rw [hget]
    split
    · rename_i heq
      rw [heq, hc]
      rfl
    · rfl
  · rw [hget, if_neg] at he
    · exact ⟨e, he, rfl⟩
    · intro heq
      exact hbut (by rw [companionName_injective heq])

section

variable {s t : Hdf5File D} (hs : s.Synced)
include hs

/-- The index with other arrays in the columns of one dataset, as its companion has them. -/
theorem Synced.refile {name : String} (h : Agrees s t (some name)) {st : DatasetState Hash32}
    (hst : FMap.get s.datasets name = some st) {columns : List (Option Hash32)}
    (hrow : ∀ c, FMap.get t.single (companionName name) = some c →
      LawfulH5Dataset.content c = columns.flatMap hashRow) (byHash : FMap Hash32 Location) :
    (refiled t name st columns byHash).Synced := by
  have hidx := h.shifted.index
  have hsets : t.datasets = s.datasets := by rw [hidx]
  have hget : ∀ n, FMap.get (refiled t name st columns byHash).datasets n =
      if n = name then some { st with columns } else FMap.get s.datasets n := by
    intro n
    show FMap.get (t.datasets.insert name { st with columns }) n = _
    rw [FMap.get_insert, Function.update_apply, hsets]
  have hsome : ∀ n, (FMap.get (refiled t name st columns byHash).datasets n).isSome =
      (FMap.get s.datasets n).isSome := by
    intro n
    rw [hget]
    split
    · rename_i heq
      rw [heq, hst]
      rfl
    · rfl
  constructor
  · intro n
    simp only [hsome]
    show (FMap.get t.single n).isSome ↔ _ ∨ _ ∨ n ∈ t.standaloneVars
    rw [h.names, hidx]
    exact hs.named
  · intro n hn
    rw [hsome] at hn
    obtain ⟨k, names, hk, hmem⟩ := hs.pooled hn
    refine ⟨k, names, ?_, hmem⟩
    show FMap.get t.datasetGroups k = _
    rw [hidx]
    exact hk
  · intro k names hk
    change FMap.get t.datasetGroups k = some names at hk
    rw [hidx] at hk
    exact hs.grouped hk
  · intro n st' c hn hc
    rw [hget] at hn
    split at hn
    · rename_i heq
      cases hn
      subst heq
      exact hrow c hc
    · rename_i hne
      obtain ⟨c₀, hc₀, heq⟩ := h.rows (by rw [hn]; rfl) (fun he => hne (Option.some.inj he)) hc
      rw [heq]
      exact hs.rows hn hc₀
  · intro n
    show (FMap.get t.timestamps n).isSome ↔ ∃ h ∈ t.timestampHashes, _
    rw [hidx]
    exact hs.members

/-- Where the members and the companions are as they were, so is what they say. -/
theorem Synced.agrees (h : Agrees s t none) : t.Synced := by
  have hidx := h.shifted.index
  constructor
  · intro n
    rw [h.names, hidx]
    exact hs.named
  · rw [hidx]
    exact hs.pooled
  · rw [hidx]
    exact hs.grouped
  · intro n st c hn hc
    have hn : FMap.get s.datasets n = some st := by
      rw [hidx] at hn
      exact hn
    obtain ⟨c₀, hc₀, heq⟩ := h.rows (by rw [hn]; rfl) (by simp) hc
    rw [heq]
    exact hs.rows hn hc₀
  · rw [hidx]
    exact hs.members

/-- A dataset of free columns and its companion, under names the file did not have. -/
theorem Synced.addDataset (hv : s.Valid) (h : Shifted s t) {name : String} {k : PoolKey Hash32}
    (hk : k.Valid) {st : DatasetState Hash32} {d c : D} (hname : FMap.get s.single name = none)
    (hcomp : FMap.get s.single (companionName name) = none)
    (hsingle : ∀ n, FMap.get t.single n = if n = companionName name then some c
      else if n = name then some d else FMap.get s.single n)
    (hrow : LawfulH5Dataset.content c = st.columns.flatMap hashRow) {i : ℕ}
    (hspill : name = String.ofList (spillName (datasetBaseName k) i)) :
    ({ t with
        datasets := t.datasets.insert name st
        datasetGroups := t.datasetGroups.insert k
          (((FMap.get t.datasetGroups k).getD []).orderedInsert (· ≤ ·) name) } :
      Hdf5File D).Synced := by
  have hidx := h.index
  have hsets : t.datasets = s.datasets := by rw [hidx]
  have hgroups : t.datasetGroups = s.datasetGroups := by rw [hidx]
  have hget : ∀ n, FMap.get (t.datasets.insert name st) n =
      if n = name then some st else FMap.get s.datasets n := by
    intro n
    rw [FMap.get_insert, Function.update_apply, hsets]
  have habsent : ∀ {n}, (FMap.get s.datasets n).isSome → n ≠ name := by
    intro n hn heq
    have hin := (hs.named (n := n)).mpr (.inl hn)
    rw [heq, hname] at hin
    cases hin
  have hold : ((FMap.get s.datasetGroups k).getD []).Pairwise (· ≤ ·) ∧
      ((FMap.get s.datasetGroups k).getD []).Nodup ∧
      ∀ n ∈ (FMap.get s.datasetGroups k).getD [],
        n ≠ name ∧ ∃ i, n = String.ofList (spillName (datasetBaseName k) i) := by
    cases hg : FMap.get s.datasetGroups k with
    | none => exact ⟨List.Pairwise.nil, List.nodup_nil, fun n hn => by cases hn⟩
    | some names =>
      obtain ⟨-, -, hsorted, hnd, hspills⟩ := hs.grouped hg
      refine ⟨hsorted, hnd, fun n hn => ⟨?_, hspills n hn⟩⟩
      obtain ⟨st', hst', -⟩ := hv.pools hg hn
      exact habsent (by rw [hst']; rfl)
  constructor
  · intro n
    show (FMap.get t.single n).isSome ↔ (FMap.get (t.datasets.insert name st) n).isSome ∨
      (∃ m, (FMap.get (t.datasets.insert name st) m).isSome ∧ n = companionName m) ∨
        n ∈ t.standaloneVars
    rw [hsingle, hget]
    have hvars : t.standaloneVars = s.standaloneVars := by rw [hidx]
    rw [hvars]
    by_cases h₁ : n = companionName name
    · rw [if_pos h₁]
      refine ⟨fun _ => .inr (.inl ⟨name, ?_, h₁⟩), fun _ => rfl⟩
      rw [hget, if_pos rfl]
      rfl
    · rw [if_neg h₁]
      by_cases h₂ : n = name
      · rw [if_pos h₂, if_pos h₂]
        exact ⟨fun _ => .inl rfl, fun _ => rfl⟩
      · rw [if_neg h₂, if_neg h₂, hs.named]
        have hiff : (∃ m, (FMap.get (t.datasets.insert name st) m).isSome ∧ n = companionName m) ↔
            ∃ m, (FMap.get s.datasets m).isSome ∧ n = companionName m := by
          constructor
          · intro hex
            obtain ⟨m, hm, heq⟩ := hex
            rw [hget] at hm
            split at hm
            · rename_i hmn
              exact (h₁ (by rw [heq, hmn])).elim
            · exact ⟨m, hm, heq⟩
          · intro hex
            obtain ⟨m, hm, heq⟩ := hex
            exact ⟨m, by rw [hget, if_neg (habsent hm)]; exact hm, heq⟩
        rw [hiff]
  · intro n hn
    change (FMap.get (t.datasets.insert name st) n).isSome at hn
    show ∃ k' names, FMap.get (t.datasetGroups.insert k _) k' = some names ∧ n ∈ names
    rw [hget] at hn
    split at hn
    · rename_i heq
      refine ⟨k, _, by rw [FMap.get_insert, Function.update_self], ?_⟩
      rw [heq, List.mem_orderedInsert]
      exact .inl rfl
    · obtain ⟨k', names, hk', hmem⟩ := hs.pooled hn
      by_cases heq : k' = k
      · subst heq
        refine ⟨k', _, by rw [FMap.get_insert, Function.update_self], ?_⟩
        rw [List.mem_orderedInsert, hgroups, hk']
        exact .inr hmem
      · exact ⟨k', names, by rw [FMap.get_insert, Function.update_of_ne heq, hgroups, hk'], hmem⟩
  · intro k' names hk'
    change FMap.get (t.datasetGroups.insert k _) k' = some names at hk'
    rw [FMap.get_insert, Function.update_apply, hgroups] at hk'
    split at hk'
    · rename_i heq
      subst heq
      cases hk'
      obtain ⟨hsorted, hnd, hspills⟩ := hold
      have hperm := List.perm_orderedInsert (· ≤ ·) name ((FMap.get s.datasetGroups k').getD [])
      refine ⟨hk, fun hnil => ?_, hsorted.orderedInsert name _, ?_, fun n hn => ?_⟩
      · rw [hnil] at hperm
        cases hperm.symm.eq_nil
      · rw [hperm.nodup_iff, List.nodup_cons]
        exact ⟨fun hmem => (hspills name hmem).1 rfl, hnd⟩
      · rcases List.mem_cons.mp (hperm.mem_iff.mp hn) with heq | hmem
        · exact ⟨i, heq.trans hspill⟩
        · exact (hspills n hmem).2
    · exact hs.grouped hk'
  · intro n st' c' hn hc
    change FMap.get (t.datasets.insert name st) n = some st' at hn
    change FMap.get t.single (companionName n) = some c' at hc
    rw [hget] at hn
    rw [hsingle] at hc
    split at hn
    · rename_i heq
      subst heq
      cases hn
      rw [if_pos rfl] at hc
      cases hc
      exact hrow
    · rename_i hne
      rw [if_neg fun heq => hne (companionName_injective heq)] at hc
      split at hc
      · rename_i heq
        have hin := (hs.named (n := companionName n)).mpr (.inr (.inl ⟨n, by rw [hn]; rfl, rfl⟩))
        rw [heq, hname] at hin
        cases hin
      · exact hs.rows hn hc
  · intro n
    show (FMap.get t.timestamps n).isSome ↔ ∃ h ∈ t.timestampHashes, _
    rw [hidx]
    exact hs.members

/-- A dataset of its own, under a name the file did not have. -/
theorem Synced.alone (h : Shifted s t) {hash : Hash32} {u : Dtype} {d : D}
    (hsingle : ∀ n, FMap.get t.single n =
      if n = standaloneName hash then some d else FMap.get s.single n)
    (hname : FMap.get s.single (standaloneName hash) = none) :
    (alone t hash (standaloneName hash) u).Synced := by
  have hidx := h.index
  have hsets : t.datasets = s.datasets := by rw [hidx]
  have hvars : t.standaloneVars = s.standaloneVars := by rw [hidx]
  constructor
  · intro n
    show (FMap.get t.single n).isSome ↔ (FMap.get t.datasets n).isSome ∨
      (∃ m, (FMap.get t.datasets m).isSome ∧ n = companionName m) ∨
        n ∈ t.standaloneVars ++ [standaloneName hash]
    rw [hsingle, hsets, hvars, List.mem_append, List.mem_singleton]
    by_cases hn : n = standaloneName hash
    · rw [if_pos hn]
      exact ⟨fun _ => .inr (.inr (.inr hn)), fun _ => rfl⟩
    · rw [if_neg hn, hs.named, or_iff_left hn]
  · intro n hn
    obtain ⟨k, names, hk, hmem⟩ := hs.pooled (hsets ▸ hn)
    refine ⟨k, names, ?_, hmem⟩
    show FMap.get t.datasetGroups k = _
    rw [hidx]
    exact hk
  · intro k names hk
    change FMap.get t.datasetGroups k = some names at hk
    rw [hidx] at hk
    exact hs.grouped hk
  · intro n st c hn hc
    change FMap.get t.datasets n = some st at hn
    change FMap.get t.single (companionName n) = some c at hc
    rw [hsets] at hn
    rw [hsingle] at hc
    split at hc
    · rename_i heq
      have hin := (hs.named (n := companionName n)).mpr (.inr (.inl ⟨n, by rw [hn]; rfl, rfl⟩))
      rw [heq, hname] at hin
      cases hin
    · exact hs.rows hn hc
  · intro n
    show (FMap.get t.timestamps n).isSome ↔ ∃ h ∈ t.timestampHashes, _
    rw [hidx]
    exact hs.members

/-- The dataset of an array on its own unlinked. -/
theorem Synced.dropped (hv : s.Valid) (h : Shifted s t) {hash : Hash32} {var : String}
    (hloc : FMap.get s.byHash hash = some (.standalone var)) (hsingle : t.single = s.single.erase var) :
    (dropped t hash var).Synced := by
  have hidx := h.index
  have hsets : t.datasets = s.datasets := by rw [hidx]
  have hvars : t.standaloneVars = s.standaloneVars := by rw [hidx]
  obtain ⟨-, hmem, -⟩ := hv.standalone hloc
  have hget : ∀ n, FMap.get t.single n = if n = var then none else FMap.get s.single n := by
    intro n
    rw [hsingle, FMap.get_erase, Function.update_apply]
  constructor
  · intro n
    show (FMap.get t.single n).isSome ↔ (FMap.get t.datasets n).isSome ∨
      (∃ m, (FMap.get t.datasets m).isSome ∧ n = companionName m) ∨
        n ∈ t.standaloneVars.filter (· ≠ var)
    rw [hget, hsets, hvars, List.mem_filter, decide_eq_true_iff]
    by_cases hn : n = var
    · rw [if_pos hn]
      constructor
      · intro hsome
        cases hsome
      · intro hor
        rcases hor with hd | hc | hx
        · exact ((hv.alone hd hmem).1 hn.symm).elim
        · obtain ⟨m, hm, heq⟩ := hc
          exact ((hv.alone hm hmem).2 (hn ▸ heq)).elim
        · exact (hx.2 hn).elim
    · rw [if_neg hn, hs.named, and_iff_left hn]
  · intro n hn
    obtain ⟨k, names, hk, hmem⟩ := hs.pooled (hsets ▸ hn)
    refine ⟨k, names, ?_, hmem⟩
    show FMap.get t.datasetGroups k = _
    rw [hidx]
    exact hk
  · intro k names hk
    change FMap.get t.datasetGroups k = some names at hk
    rw [hidx] at hk
    exact hs.grouped hk
  · intro n st c hn hc
    change FMap.get t.datasets n = some st at hn
    change FMap.get t.single (companionName n) = some c at hc
    rw [hsets] at hn
    rw [hget] at hc
    split at hc
    · cases hc
    · exact hs.rows hn hc
  · intro n
    show (FMap.get t.timestamps n).isSome ↔ ∃ h ∈ t.timestampHashes, _
    rw [hidx]
    exact hs.members

end

/-! ### The commands -/

theorem flatMap_hashRow_none (n : ℕ) :
    (List.replicate n (none : Option Hash32)).flatMap hashRow = List.replicate (n * 64) 0 := by
  induction n with
  | zero => rfl
  | succ n ih =>
    rw [List.replicate_succ, List.flatMap_cons, ih, Nat.succ_mul, Nat.add_comm, List.replicate_add]
    rfl

section

variable {s : Hdf5File D} (hv : s.Valid) (hs : s.Synced) (hq : s.Quiet)

include hv hs hq in
theorem createPackedDataset_synced {k : PoolKey Hash32} (hk : k.Valid) (i : ℕ)
    (requested : Option ℕ) :
    (createPackedDataset (String.ofList (spillName (datasetBaseName k) i)) k requested).wp
      (fun _ s' => s'.Synced) s := by
  generalize hname : String.ofList (spillName (datasetBaseName k) i) = name
  unfold createPackedDataset
  simp only [Cmd.wp_bind]
  refine Cmd.wp_mono (createDs_spec _ _ _ _ s) fun r t h₁ => ?_
  obtain ⟨hshift, h₁⟩ := h₁
  cases r with
  | error e => exact hs.agrees (.of_same hshift fun n => by rw [h₁])
  | ok u =>
    obtain ⟨habsent, d, -, hsingle⟩ := h₁
    have hget : ∀ n, FMap.get t.single n = if n = name then some d else FMap.get s.single n := by
      intro n
      rw [hsingle, FMap.get_insert, Function.update_apply]
    simp only [Cmd.wp_attempt]
    refine Cmd.wp_mono (createDs_spec (companionName name) .bool _ none t) fun r₂ t₂ h₂ => ?_
    obtain ⟨hshift₂, h₂⟩ := h₂
    cases r₂ with
    | error e =>
      simp only [Cmd.wp_bind, Cmd.wp_attempt]
      refine Cmd.wp_mono (unlink_spec name t₂) fun r₃ t₃ h₃ => ?_
      obtain ⟨hshift₃, hok, h₃⟩ := h₃
      have hr := hok (hshift₂.quiet (hshift.quiet hq)) (by rw [h₂, hget, if_pos rfl]; rfl)
      rw [hr] at h₃
      refine hs.agrees (.of_same ((hshift.trans hshift₂).trans hshift₃) fun n => ?_)
      show FMap.get t₃.single n = _
      rw [h₃, FMap.get_erase, Function.update_apply, h₂, hget]
      split
      · rename_i hn
        rw [hn, habsent]
      · rfl
    | ok u =>
      obtain ⟨hcomp, c, hc, hsingle₂⟩ := h₂
      rw [hget, if_neg (companionName_ne name)] at hcomp
      have hget₂ : ∀ n, FMap.get t₂.single n = if n = companionName name then some c
          else if n = name then some d else FMap.get s.single n := by
        intro n
        rw [hsingle₂, FMap.get_insert, Function.update_apply, hget]
      obtain ⟨-, -, hcontent, -⟩ := LawfulH5Library.create_ok hc
      refine hs.addDataset hv (hshift.trans hshift₂) hk habsent hcomp hget₂ ?_ hname.symm
      rw [hcontent, flatMap_hashRow_none]
      simp [Dtype.size]

include hv hs hq in
theorem ensureWritableDataset_synced {k : PoolKey Hash32} (hk : k.Valid) :
    (ensureWritableDataset k).wp (fun _ s' => s'.Synced) s := by
  unfold ensureWritableDataset
  simp only [Cmd.wp_bind, Cmd.wp_get]
  split
  · exact hs
  · rw [Cmd.wp_bind]
    refine Cmd.wp_mono (createPackedDataset_synced hv hs hq hk _ none) fun r t h => ?_
    cases r with
    | error e => exact h
    | ok u => exact h

include hv hs in
/-- The companion once a row of it is written. -/
theorem writeHashRow_rows {name : String} {st : DatasetState Hash32}
    (hst : FMap.get s.datasets name = some st) {col : ℕ} (hcol : col < st.columns.length)
    (kind : H5Step) (h : Option Hash32) :
    (writeHashRow kind (companionName name) col h).wp (fun r s' => match r with
      | .error _ => Agrees s s' none
      | .ok _ => Agrees s s' (some name) ∧ ∀ c, FMap.get s'.single (companionName name) = some c →
        LawfulH5Dataset.content c = (st.columns.set col h).flatMap hashRow) s := by
  obtain ⟨d, c, hd, -, -, hc, htype, hshape⟩ := hv.dataset hst
  unfold writeHashRow
  refine Cmd.wp_mono (writeSel_spec kind _ .bool _ _ _ s) fun r t h₁ => ?_
  obtain ⟨hshift, -, h₁⟩ := h₁
  cases r with
  | error e => exact .of_same hshift fun n => by rw [h₁]
  | ok u =>
    obtain ⟨c₀, c', hc₀, hw, hsingle⟩ := h₁
    rw [hc] at hc₀
    cases hc₀
    refine ⟨.companion hv hshift (by rw [hst]; rfl) hsingle, fun e he => ?_⟩
    rw [hsingle, FMap.get_insert, Function.update_self] at he
    cases he
    have hin : InBounds [(col, col + 1), (0, 64)] (H5Dataset.shape c) := by
      rw [hshape]
      exact .cons ⟨Nat.le_succ col, hcol⟩ (.cons ⟨Nat.zero_le 64, le_rfl⟩ .nil)
    have hlen : (hashRow h).length = boxSize [(col, col + 1), (0, 64)] * Dtype.bool.size := by
      rw [hashRow_length]
      unfold boxSize
      simp [Dtype.size]
    obtain ⟨-, -, hcontent⟩ := LawfulH5Library.writeSlice_ok (t := .bool) htype hin hlen hw
    rw [hcontent, hshape, hs.rows hst hc]
    exact fillSlab_hashRow hcol h

include hv hs hq in
theorem putPacked_synced {a : TypedArray} {group : PackGroup Hash32} (ha : a.Storable)
    (hk : (poolKey a group).Valid) (hash : Hash32) :
    (putPacked hash a group).wp (fun _ s' => s'.Synced) s := by
  unfold putPacked
  simp only [Cmd.wp_bind]
  refine Cmd.wp_mono (Cmd.wp_and (ensureWritableDataset_spec hv (poolKey a group))
    (ensureWritableDataset_synced hv hs hq hk)) fun r t h₁ => ?_
  obtain ⟨⟨hsteady, h₁⟩, ht⟩ := h₁
  cases r with
  | error e => exact ht
  | ok name =>
    obtain ⟨-, st, hst, hdtype, helem, hlength⟩ := h₁
    have htv := hsteady.valid
    obtain ⟨d, -, hd, hdesc, hname, -⟩ := htv.dataset hst
    simp only [Cmd.wp_get, Cmd.wp_ofExcept]
    rw [Hdf5Backend.datasetState_eq hst]
    simp only
    cases hfree : st.firstFree with
    | none => exact ht
    | some col =>
      obtain ⟨hlt, hcol, -⟩ := List.findIdx?_eq_some_iff_getElem.mp hfree
      have hdtype : st.dtype = a.dtype := hdtype
      have helem : st.elementShape = a.elementShape := helem
      have hlength : st.length = a.length := hlength
      have hbytes : a.bytes.length = st.length * st.elementShape.prod * st.dtype.size := by
        have hwf : a.bytes.length = a.shape.prod * a.dtype.size := ha.1
        rw [hwf, shape_eq_cons ha.2, List.prod_cons, hlength, helem, hdtype]
      simp only [Cmd.wp_bind]
      refine Cmd.wp_mono (writeSel_spec _ _ _ _ _ _ t) fun r₂ t₂ h₂ => ?_
      obtain ⟨hshift₂, -, h₂⟩ := h₂
      cases r₂ with
      | error e => exact ht.agrees (.of_same hshift₂ fun n => by rw [h₂])
      | ok u =>
        obtain ⟨d₀, d', hd₀, hw, hsingle⟩ := h₂
        rw [hd] at hd₀
        cases hd₀
        rw [← hdtype, ← hlength, ← helem] at hw
        obtain ⟨hlay, hcols⟩ := column_written hdesc hlt hbytes hw
        have hkeep₂ : Keeps t t₂ := by
          refine htv.keeps_dataset hshift₂ hst hd hlay (fun {c h} hc => ?_) hsingle
          obtain ⟨hc', hc⟩ := List.getElem?_eq_some_iff.mp hc
          rw [hcols c hc', if_neg]
          intro heq
          subst heq
          rw [hc] at hcol
          cases hcol
        have ht₂ := ht.agrees (.dataset htv hshift₂ (by rw [hst]; rfl) hsingle)
        have hst₂ : FMap.get t₂.datasets name = some st := by
          rw [hshift₂.index]
          exact hst
        have hrow := writeHashRow_rows (htv.keeps hkeep₂).valid ht₂ hst₂ hlt .write (some hash)
        rw [← hname] at hrow
        simp only
        refine Cmd.wp_mono hrow fun r₃ t₃ h₃ => ?_
        cases r₃ with
        | error e => exact ht₂.agrees h₃
        | ok u => exact ht₂.refile h₃.1 hst₂ (fun c hc => h₃.2 c (hname ▸ hc)) _

include hv hs hq in
theorem clearColumn_synced {name : String} {st : DatasetState Hash32}
    (hst : FMap.get s.datasets name = some st) {col : ℕ} {hash : Hash32}
    (hcol : st.columns[col]? = some (some hash)) :
    (writeHashRow .remove st.hashName col none >>= fun _ => do
      if 0 < st.length then
        writeSel .remove name st.dtype (List.replicate ((st.slabShape 1).prod * st.dtype.size) 0)
          (st.slabShape 1) (packedRanges (0, st.length) col st.elementShape)
      modify fun s =>
        { s with
          datasets := s.datasets.insert name { st with columns := st.columns.set col none }
          byHash := s.byHash.erase hash }).wp (fun _ s' => s'.Synced) s := by
  obtain ⟨hlt, -⟩ := List.getElem?_eq_some_iff.mp hcol
  obtain ⟨d, -, hd, hdesc, hname, -⟩ := hv.dataset hst
  have hrow := Cmd.wp_and (writeHashRow_spec hv hst hlt .remove none)
    (writeHashRow_rows hv hs hst hlt .remove none)
  rw [← hname] at hrow
  rw [Cmd.wp_bind]
  refine Cmd.wp_mono hrow fun r t h₁ => ?_
  obtain ⟨⟨hkeep, hkept, hquiet⟩, h₁⟩ := h₁
  have hr := hquiet rfl hq
  subst hr
  obtain ⟨hagree, hrows⟩ := h₁
  have htv := (hv.keeps hkeep).valid
  have hst₁ : FMap.get t.datasets name = some st := by
    rw [hkeep.shifted.index]
    exact hst
  simp only
  by_cases hlen : 0 < st.length
  · rw [if_pos hlen, Cmd.wp_bind]
    obtain ⟨d₀, hd₀⟩ := column_writable hdesc hlt (zeros_length st) hlen
    refine Cmd.wp_mono (writeSel_spec .remove name st.dtype _ _ _ t) fun r₂ t₂ h₂ => ?_
    obtain ⟨hshift₂, hquiet₂, h₂⟩ := h₂
    have hr := hquiet₂ rfl (hkeep.shifted.quiet hq) List.length_replicate ⟨d, d₀, hkept d hd, hd₀⟩
    subst hr
    obtain ⟨d₁, d', -, -, hsingle⟩ := h₂
    have hagree₂ := Agrees.dataset htv hshift₂ (by rw [hst₁]; rfl) hsingle
    refine hs.refile (hagree.trans hagree₂) hst (fun c hc => ?_) _
    rw [hsingle, FMap.get_insert, Function.update_of_ne (companionName_ne name)] at hc
    exact hrows c (hname ▸ hc)
  · rw [if_neg hlen]
    exact hs.refile hagree hst (fun c hc => hrows c (hname ▸ hc)) _

include hv hs hq in
theorem removeArrayLocked_synced (hash : Hash32) :
    (removeArrayLocked hash).wp (fun _ s' => s'.Synced) s := by
  unfold removeArrayLocked
  simp only [Cmd.wp_bind, Cmd.wp_get]
  cases hloc : FMap.get s.byHash hash with
  | none => exact hs
  | some l =>
    cases l with
    | standalone var =>
      simp only [Cmd.wp_bind]
      refine Cmd.wp_mono (unlink_spec var s) fun r t h => ?_
      obtain ⟨hshift, -, hsingle⟩ := h
      cases r with
      | error e => exact hs.agrees (.of_same hshift fun n => by rw [hsingle])
      | ok u => exact hs.dropped hv hshift hloc hsingle
    | packed name col =>
      obtain ⟨st, hst, hcol⟩ := hv.packed hloc
      simp only [Cmd.wp_bind, Cmd.wp_ofExcept]
      rw [Hdf5Backend.datasetState_eq hst]
      have h := clearColumn_synced hv hs hq hst hcol
      rw [Cmd.wp_bind] at h
      exact h

include hv hs hq in
theorem putStandalone_synced {hash : Hash32} (hnone : FMap.get s.byHash hash = none)
    (a : TypedArray) (windowAxis : Option ℕ) :
    (putStandalone hash a windowAxis).wp (fun _ s' => s'.Synced) s := by
  have hvar : s.standaloneVars.contains (standaloneName hash) = false := by
    rw [← Bool.not_eq_true, List.contains_iff_mem]
    intro hmem
    obtain ⟨x, hx⟩ := hv.vars hmem
    have heq := standaloneName_injective (hv.standalone hx).1
    rw [← heq, hnone] at hx
    cases hx
  unfold putStandalone
  simp only [Cmd.wp_bind, Cmd.wp_get]
  rw [hvar]
  simp only [Bool.false_eq_true, if_false]
  rw [Cmd.wp_bind]
  refine Cmd.wp_mono (createDs_spec _ _ _ _ s) fun r t h₁ => ?_
  obtain ⟨hshift, h₁⟩ := h₁
  cases r with
  | error e => exact hs.agrees (.of_same hshift fun n => by rw [h₁])
  | ok u =>
    obtain ⟨hname, d, -, hsingle⟩ := h₁
    have hget : ∀ n, FMap.get t.single n =
        if n = standaloneName hash then some d else FMap.get s.single n := by
      intro n
      rw [hsingle, FMap.get_insert, Function.update_apply]
    simp only
    by_cases hbytes : a.bytes ≠ []
    · rw [if_pos hbytes]
      simp only [Cmd.wp_bind, Cmd.wp_attempt]
      refine Cmd.wp_mono (writeAll_spec _ _ _ t) fun r₂ t₂ h₂ => ?_
      obtain ⟨hshift₂, h₂⟩ := h₂
      cases r₂ with
      | error e =>
        simp only [Cmd.wp_bind, Cmd.wp_attempt]
        refine Cmd.wp_mono (unlink_spec _ t₂) fun r₃ t₃ h₃ => ?_
        obtain ⟨hshift₃, hok, h₃⟩ := h₃
        have hr := hok (hshift₂.quiet (hshift.quiet hq)) (by rw [h₂, hget, if_pos rfl]; rfl)
        rw [hr] at h₃
        refine hs.agrees (.of_same ((hshift.trans hshift₂).trans hshift₃) fun n => ?_)
        show FMap.get t₃.single n = _
        rw [h₃, FMap.get_erase, Function.update_apply, h₂, hget]
        split
        · rename_i hn
          rw [hn, hname]
        · rfl
      | ok u =>
        obtain ⟨d₀, d', -, -, hsingle₂⟩ := h₂
        refine hs.alone (d := d') (hshift.trans hshift₂) (fun n => ?_) hname
        rw [hsingle₂, FMap.get_insert, Function.update_apply, hget]
        split <;> rfl
    · rw [if_neg hbytes]
      exact hs.alone (d := d) hshift hget hname

include hv hs hq in
theorem putPackedSegment_synced {k : PoolKey Hash32} (hk : k.Valid)
    {seg : List (Hash32 × TypedArray)} (hfit : s.Fits k seg) :
    (putPackedSegment seg k).wp (fun _ s' => s'.Synced) s := by
  unfold putPackedSegment
  simp only [Cmd.wp_bind, Cmd.wp_get]
  refine Cmd.wp_mono (Cmd.wp_and (createPackedDataset_spec hv _ k (some seg.length))
    (createPackedDataset_synced hv hs hq hk _ (some seg.length))) fun r t h₁ => ?_
  obtain ⟨⟨hsteady, h₁⟩, ht⟩ := h₁
  cases r with
  | error e => exact ht
  | ok u =>
    obtain ⟨-, hst⟩ := h₁
    rw [hfit.width] at hst
    generalize String.ofList (spillName (datasetBaseName k)
      ((FMap.get s.datasetGroups k).getD []).length) = name at hst ⊢
    have htv := hsteady.valid
    obtain ⟨d, c, hd, hdesc, -, hc, hctype, hcshape⟩ := htv.dataset hst
    have hwidth : (List.replicate seg.length (none : Option Hash32)).length = seg.length :=
      List.length_replicate
    have hshape : H5Dataset.shape d = k.length :: seg.length :: k.elementShape := by
      rw [hdesc.shape]
      show k.length :: (List.replicate seg.length (none : Option Hash32)).length :: _ = _
      rw [hwidth]
    have hcshape : H5Dataset.shape c = [seg.length, 64] := hcshape.trans (by rw [hwidth])
    obtain ⟨buf, hbuf⟩ : ∃ buf, interleave k seg = .ok buf := ⟨_, hfit.interleave_eq⟩
    simp only [Cmd.wp_ofExcept]
    rw [hbuf]
    simp only
    refine Cmd.wp_mono (writeSel_spec _ _ _ _ _ _ t) fun r₂ t₂ h₂ => ?_
    obtain ⟨hshift₂, -, h₂⟩ := h₂
    cases r₂ with
    | error e => exact ht.agrees (.of_same hshift₂ fun n => by rw [h₂])
    | ok u =>
      obtain ⟨d₀, d', hd₀, hw, hsingle⟩ := h₂
      rw [hd] at hd₀
      cases hd₀
      have ht₂ := ht.agrees (.dataset htv hshift₂ (by rw [hst]; rfl) hsingle)
      have hv₂ := (htv.keeps (htv.keeps_dataset hshift₂ hst hd
        (hfit.written hdesc.elementType hshape hbuf hw).1
        (fun {c h} hc => (get_replicate_none hc).elim) hsingle)).valid
      have hst₂ : FMap.get t₂.datasets name = some
          { hashName := companionName name, dtype := k.dtype, elementShape := k.elementShape,
            length := k.length, columns := List.replicate seg.length none } := by
        rw [hshift₂.index]
        exact hst
      have hcomp : FMap.get t₂.single (companionName name) = some c := by
        rw [hsingle, FMap.get_insert, Function.update_of_ne (companionName_ne name), hc]
      simp only
      refine Cmd.wp_mono (writeSel_spec _ _ _ _ _ _ t₂) fun r₃ t₃ h₃ => ?_
      obtain ⟨hshift₃, -, h₃⟩ := h₃
      cases r₃ with
      | error e => exact ht₂.agrees (.of_same hshift₃ fun n => by rw [h₃])
      | ok u =>
        obtain ⟨c₀, c', hc₀, hw₃, hsingle₃⟩ := h₃
        rw [hcomp] at hc₀
        cases hc₀
        have hst₃ : FMap.get t₃.datasets name = some
            { hashName := companionName name, dtype := k.dtype, elementShape := k.elementShape,
              length := k.length, columns := List.replicate seg.length none } := by
          rw [hshift₃.index]
          exact hst₂
        simp only
        rw [Hdf5Backend.datasetState_eq hst₃]
        simp only [Cmd.wp_modify, List.drop_replicate, Nat.sub_self, List.replicate_zero,
          List.append_nil]
        refine ht₂.refile (Agrees.companion hv₂ hshift₃ (by rw [hst₂]; rfl) hsingle₃) hst₂
          (fun e he => ?_) _
        rw [hsingle₃, FMap.get_insert, Function.update_self] at he
        cases he
        rw [(rows_written hctype hcshape hw₃).2, List.flatMap_map]

include hv hs hq in
theorem unwindSegments_synced (items : List (Hash32 × TypedArray)) :
    (unwindSegments items).wp (fun _ s' => s'.Synced) s := by
  induction items generalizing s with
  | nil => exact hs
  | cons i items ih =>
    rw [unwindSegments]
    simp only [Cmd.wp_bind, Cmd.wp_attempt]
    refine Cmd.wp_mono (Cmd.wp_and (removeArrayLocked_spec hv i.1)
      (removeArrayLocked_synced hv hs hq i.1)) fun r t h => ?_
    obtain ⟨⟨hquiet, h⟩, ht⟩ := h
    obtain ⟨hqt, hr⟩ := hquiet hq
    subst hr
    exact ih h.valid ht hqt

/-- The segments of a block keep the file in step with the index. -/
theorem putSegments_synced {s₀ : Hdf5File D} {k : PoolKey Hash32} (hk : k.Valid)
    {items : List (Hash32 × TypedArray)} (hnew : s₀.New k items)
    (segs : List (List (Hash32 × TypedArray)))
    (hwidths : ∀ seg ∈ segs, resolveDatasetCols (some seg.length) k.dtype k.elementShape = seg.length)
    (done : List (Hash32 × TypedArray)) (hitems : items = done ++ segs.flatten) {s : Hdf5File D}
    (hb : Becomes s₀ s (orInserted s₀.array done)) (hs : s.Synced) (hq : s.Quiet) :
    (putSegments k done segs).wp (fun _ s' => s'.Synced) s := by
  induction segs generalizing done s with
  | nil => exact hs
  | cons seg rest ih =>
    have hfit := hnew.fits hwidths hitems hb
    unfold putSegments
    simp only [Cmd.wp_bind, Cmd.wp_attempt]
    refine Cmd.wp_mono (Cmd.wp_and (putPackedSegment_spec hfit hb.valid)
      (putPackedSegment_synced hb.valid hs hq hk hfit)) fun r t h₁ => ?_
    obtain ⟨h₁, ht⟩ := h₁
    cases r with
    | ok u =>
      simp only
      refine ih (fun seg hmem => hwidths seg (List.mem_cons_of_mem _ hmem)) (done ++ seg) ?_ ?_ ht
        (h₁.quiet hq)
      · rw [hitems, List.flatten_cons, List.append_assoc]
      · refine ⟨h₁.valid, ?_, h₁.vector.trans hb.vector, fun hq => h₁.quiet (hb.quiet hq)⟩
        rw [h₁.array, hb.array, orInserted_append]
    | error e =>
      simp only [Cmd.wp_bind]
      refine Cmd.wp_mono (Cmd.wp_and (unwindSegments_spec h₁.valid done)
        (unwindSegments_synced h₁.valid ht (h₁.quiet hq) done)) fun r₂ s' h₂ => ?_
      obtain ⟨⟨hr, -⟩, hs'⟩ := h₂
      subst hr
      exact hs'

include hv hs hq in
theorem putPackedBlock_synced {items : List (Hash32 × TypedArray)} {group : PackGroup Hash32}
    (hkeys : ∀ i ∈ items, (poolKey i.2 group).Valid) (hstorable : ∀ i ∈ items, i.2.Storable)
    (hshapes : ∀ i ∈ items, ∀ j ∈ items, i.2.dtype = j.2.dtype ∧ i.2.shape = j.2.shape) :
    (putPackedBlock items group).wp (fun _ s' => s'.Synced) s := by
  unfold putPackedBlock
  rw [Cmd.wp_bind]
  refine Cmd.wp_mono (ensureWritable_spec s) fun r t h₁ => ?_
  obtain ⟨rfl, -⟩ := h₁
  cases r with
  | error e => exact hs
  | ok u =>
    simp only [Cmd.wp_bind, Cmd.wp_get]
    cases hsel : selected (fun h => (FMap.get t.byHash h).isSome) [] items with
    | nil =>
      unfold selected at hsel
      rw [hsel]
      exact hs
    | cons first rest =>
      obtain ⟨hnew, hwidths, hflat⟩ := new_selected hv group hstorable hshapes hsel
      unfold selected at hsel
      rw [hsel]
      simp only [Cmd.wp_bind]
      have hfirst : first ∈ items := (mem_selected (hsel ▸ List.mem_cons_self)).1
      have hsegs := putSegments_synced (hkeys first hfirst) hnew _ hwidths []
        (by rw [hflat, List.nil_append])
        (s := t) ⟨hv, (orInserted_of_held fun it hit => by cases hit).symm, rfl, id⟩ hs hq
      refine Cmd.wp_mono hsegs fun r s' h => ?_
      cases r with
      | error e => exact h
      | ok u => exact h

/-! ### Time axes -/

/-- Only time axes were touched, and the file has those of the index. -/
theorem Synced.retimed {s t : Hdf5File D} (hs : s.Synced)
    (h : t = { s with timestamps := t.timestamps
                      timestampHashes := t.timestampHashes
                      faults := t.faults })
    (hmembers : ∀ n, (FMap.get t.timestamps n).isSome ↔
      ∃ h ∈ t.timestampHashes, n = timestampsDatasetName h) : t.Synced := by
  constructor
  · rw [h]
    exact hs.named
  · rw [h]
    exact hs.pooled
  · rw [h]
    exact hs.grouped
  · rw [h]
    exact hs.rows
  · exact fun {n} => hmembers n

/-- The time axes the file had. -/
theorem Synced.sameAxes {s t : Hdf5File D} (hs : s.Synced)
    (h : t = { s with timestamps := t.timestamps, faults := t.faults })
    (hsame : ∀ n, (FMap.get t.timestamps n).isSome = (FMap.get s.timestamps n).isSome) : t.Synced := by
  have hhashes : t.timestampHashes = s.timestampHashes := by rw [h]
  refine hs.retimed (by rw [hhashes]; exact h) fun n => ?_
  rw [hsame, hhashes]
  exact hs.members

/-- One more time axis. -/
theorem Synced.oneMoreAxis {s t : Hdf5File D} (hs : s.Synced) {hash : Hash32}
    (h : t = { s with timestamps := t.timestamps, faults := t.faults })
    (hget : ∀ n, (FMap.get t.timestamps n).isSome ↔
      n = timestampsDatasetName hash ∨ (FMap.get s.timestamps n).isSome) :
    ({ t with timestampHashes := t.timestampHashes ++ [hash] } : Hdf5File D).Synced := by
  have hhashes : t.timestampHashes = s.timestampHashes := by rw [h]
  refine hs.retimed (by rw [h]) fun n => ?_
  show (FMap.get t.timestamps n).isSome ↔ ∃ x ∈ t.timestampHashes ++ [hash], _
  rw [hget, hs.members, hhashes]
  constructor
  · intro hor
    cases hor with
    | inl hn => exact ⟨hash, List.mem_append_right _ (List.mem_singleton.mpr rfl), hn⟩
    | inr hex =>
      obtain ⟨x, hx, hn⟩ := hex
      exact ⟨x, List.mem_append_left _ hx, hn⟩
  · intro hex
    obtain ⟨x, hx, hn⟩ := hex
    rw [List.mem_append, List.mem_singleton] at hx
    cases hx with
    | inl hx => exact .inr ⟨x, hx, hn⟩
    | inr hx => exact .inl (by rw [hn, hx])

include hs hq in
theorem putTimestamps_synced (hash : Hash32) (instants : List DateTime) :
    (putTimestamps hash instants).wp (fun _ s' => s'.Synced) s := by
  unfold putTimestamps
  rw [Cmd.wp_bind]
  refine Cmd.wp_mono (ensureWritable_spec s) fun r t h₁ => ?_
  obtain ⟨rfl, -⟩ := h₁
  cases r with
  | error e => exact hs
  | ok u =>
    simp only [Cmd.wp_bind, Cmd.wp_get]
    by_cases hmem : hash ∈ t.timestampHashes
    · rw [if_pos (List.contains_iff_mem.mpr hmem)]
      exact hs
    · rw [if_neg fun hc => hmem (List.contains_iff_mem.mp hc)]
      simp only [Cmd.wp_bind]
      refine Cmd.wp_mono (step_timestamps .create t) fun r₂ t₂ h₂ => ?_
      obtain ⟨hidx₂, hlater₂, -⟩ := h₂
      have htimes₂ : t₂.timestamps = t.timestamps := by rw [hidx₂]
      have hsame₂ : t₂.Synced := hs.sameAxes (by rw [htimes₂]; exact hidx₂) fun n => by rw [htimes₂]
      have hq₂ : t₂.Quiet := by
        constructor
        · rw [hidx₂]
          exact hq.1
        · exact fun b hb => hq.2 b (hlater₂.subset hb)
      cases r₂ with
      | error e => exact hsame₂
      | ok u =>
        simp only [Cmd.wp_get]
        split
        · exact hsame₂
        · rename_i hfree
          rw [htimes₂] at hfree
          simp only [Cmd.wp_bind, Cmd.wp_modify]
          by_cases hmillis : toMillis instants ≠ []
          · rw [if_pos hmillis]
            simp only [Cmd.wp_bind, Cmd.wp_attempt]
            refine Cmd.wp_mono (step_timestamps .write _) fun r₃ t₃ h₃ => ?_
            obtain ⟨hidx₃, hlater₃, -⟩ := h₃
            have hidx₃' : t₃ = { t with timestamps := t₃.timestamps, faults := t₃.faults } := by
              rw [hidx₃, hidx₂]
            have hget₃ : ∀ n, (FMap.get t₃.timestamps n).isSome ↔
                n = timestampsDatasetName hash ∨ (FMap.get t.timestamps n).isSome := by
              intro n
              rw [hidx₃]
              show (FMap.get (t₂.timestamps.insert _ _) n).isSome ↔ _
              rw [FMap.get_insert, Function.update_apply, htimes₂]
              split
              · rename_i hn
                exact ⟨fun _ => .inl hn, fun _ => rfl⟩
              · rename_i hn
                exact ⟨.inr, fun h => h.resolve_left hn⟩
            cases r₃ with
            | error e =>
              simp only [Cmd.wp_bind, Cmd.wp_attempt]
              refine Cmd.wp_mono (unlinkTimestamps_spec _ t₃) fun r₄ t₄ h₄ => ?_
              obtain ⟨hidx₄, -, hok, h₄⟩ := h₄
              have hq₃ : t₃.Quiet := by
                constructor
                · rw [hidx₃']
                  exact hq.1
                · exact fun b hb => hq₂.2 b (hlater₃.subset hb)
              have hr := hok hq₃ ((hget₃ _).mpr (.inl rfl))
              rw [hr] at h₄
              refine hs.sameAxes (t := t₄) (by rw [hidx₄, hidx₃']) fun n => ?_
              show (FMap.get t₄.timestamps n).isSome = _
              rw [h₄, FMap.get_erase, Function.update_apply]
              split
              · rename_i hn
                rw [hn]
                exact (Bool.not_eq_true _ ▸ hfree).symm
              · rename_i hn
                rw [Bool.eq_iff_iff, hget₃]
                exact ⟨fun h => h.resolve_left hn, .inr⟩
            | ok u =>
              refine hs.oneMoreAxis (t := { t₃ with
                timestamps := t₃.timestamps.insert (timestampsDatasetName hash) (toMillis instants) })
                (by rw [hidx₃']) fun n => ?_
              rw [FMap.get_insert, Function.update_apply]
              split
              · rename_i hn
                exact ⟨fun _ => .inl hn, fun _ => rfl⟩
              · exact hget₃ n
          · rw [if_neg hmillis]
            refine hs.oneMoreAxis (t := { t₂ with
              timestamps := t₂.timestamps.insert (timestampsDatasetName hash)
                (List.replicate (toMillis instants).length 0) })
              (by rw [hidx₂]) fun n => ?_
            rw [FMap.get_insert, Function.update_apply, htimes₂]
            split
            · rename_i hn
              exact ⟨fun _ => .inl hn, fun _ => rfl⟩
            · rename_i hn
              exact ⟨.inr, fun h => h.resolve_left hn⟩

include hv hs hq in
theorem removeTimestamps_synced (hash : Hash32) :
    (removeTimestamps hash).wp (fun _ s' => s'.Synced) s := by
  unfold removeTimestamps
  rw [Cmd.wp_bind]
  refine Cmd.wp_mono (ensureWritable_spec s) fun r t h₁ => ?_
  obtain ⟨rfl, -⟩ := h₁
  cases r with
  | error e => exact hs
  | ok u =>
    simp only [Cmd.wp_bind, Cmd.wp_get]
    by_cases hmem : hash ∈ t.timestampHashes
    · rw [if_pos (List.contains_iff_mem.mpr hmem)]
      simp only [Cmd.wp_bind, Cmd.wp_modify]
      refine Cmd.wp_mono (unlinkTimestamps_spec _ _) fun r₂ t₂ h₂ => ?_
      obtain ⟨hidx, -, hok, h₂⟩ := h₂
      have hr := hok ⟨hq.1, hq.2⟩ (hv.axes hmem)
      rw [hr] at h₂
      refine hs.retimed (by rw [hidx]) fun n => ?_
      rw [h₂, hidx]
      show (FMap.get (t.timestamps.erase (timestampsDatasetName hash)) n).isSome ↔
        ∃ x ∈ t.timestampHashes.filter (· ≠ hash), n = timestampsDatasetName x
      rw [FMap.get_erase, Function.update_apply]
      constructor
      · intro hn
        split at hn
        · cases hn
        · rename_i hne
          obtain ⟨x, hx, heq⟩ := hs.members.mp hn
          refine ⟨x, List.mem_filter.mpr ⟨hx, decide_eq_true ?_⟩, heq⟩
          intro hxe
          exact hne (by rw [heq, hxe])
      · intro hex
        obtain ⟨x, hx, heq⟩ := hex
        obtain ⟨hin, hne⟩ := List.mem_filter.mp hx
        rw [if_neg]
        · exact hs.members.mpr ⟨x, hin, heq⟩
        · intro hn
          exact of_decide_eq_true hne (timestampsDatasetName_injective (heq.symm.trans hn))
    · rw [if_neg fun hc => hmem (List.contains_iff_mem.mp hc)]
      exact hs

include hs in
theorem flush_synced : (flush : StoreCmd (Hdf5File D) Unit).wp (fun _ s' => s'.Synced) s := by
  unfold flush
  simp only [Cmd.wp_bind, Cmd.wp_get]
  by_cases hro : s.readOnly = true
  · rw [if_neg (by rw [hro]; simp)]
    exact hs
  · rw [if_pos (by simpa using hro)]
    refine Cmd.wp_mono (step_timestamps .write s) fun r t h => ?_
    obtain ⟨hidx, -, -⟩ := h
    have htimes : t.timestamps = s.timestamps := by rw [hidx]
    exact hs.sameAxes (by rw [htimes]; exact hidx) fun n => by rw [htimes]

/-! ### Requests -/

include hv hs hq in
theorem putArray_synced {a : TypedArray} (hash : Hash32) (group : PackGroup Hash32)
    (layout : ArrayLayout) (ha : a.Storable) (hk : layout = .packed → (poolKey a group).Valid) :
    (putArray hash a group layout).wp (fun _ s' => s'.Synced) s := by
  unfold putArray
  rw [Cmd.wp_bind]
  refine Cmd.wp_mono (ensureWritable_spec s) fun r t h₁ => ?_
  obtain ⟨rfl, -⟩ := h₁
  cases r with
  | error e => exact hs
  | ok u =>
    simp only [Cmd.wp_bind, Cmd.wp_get]
    cases hloc : FMap.get t.byHash hash with
    | some l => exact hs
    | none =>
      simp only [Option.isSome_none, Bool.false_eq_true, if_false]
      cases layout with
      | packed =>
        simp only [Cmd.wp_bind]
        refine Cmd.wp_mono (putPacked_synced hv hs hq ha (hk rfl) hash) fun r s' h₂ => ?_
        cases r with
        | error e => exact h₂
        | ok u => exact h₂
      | standalone =>
        simp only [Cmd.wp_bind]
        refine Cmd.wp_mono (putStandalone_synced hv hs hq hloc a none) fun r s' h₂ => ?_
        cases r with
        | error e => exact h₂
        | ok u => exact h₂
      | standaloneWindowed axis =>
        simp only [Cmd.wp_bind]
        refine Cmd.wp_mono (putStandalone_synced hv hs hq hloc a (some axis)) fun r s' h₂ => ?_
        cases r with
        | error e => exact h₂
        | ok u => exact h₂

include hv hs hq in
theorem removeArray_synced (hash : Hash32) : (removeArray hash).wp (fun _ s' => s'.Synced) s := by
  unfold removeArray
  rw [Cmd.wp_bind]
  refine Cmd.wp_mono (ensureWritable_spec s) fun r t h₁ => ?_
  obtain ⟨rfl, -⟩ := h₁
  cases r with
  | error e => exact hs
  | ok u => exact removeArrayLocked_synced hv hs hq hash

end

end Hdf5File

/-- The arrays handed over can be filed under names that say what they are. -/
def BackendRequest.Nameable : BackendRequest Hash32 → Prop
  | putArray _ data group layout => layout = .packed → (poolKey data group).Valid
  | putPackedBlock items group => ∀ i ∈ items, (poolKey i.2 group).Valid
  | _ => True

namespace Hdf5File

variable {D : Type} [H5Library D] [LawfulH5Library D]

/-- **A step.**  Whatever fails but a removal, the file says what the index says after it. -/
theorem run_synced {s : Hdf5File D} (hv : s.Valid) (hs : s.Synced) (hq : s.Quiet)
    {r : BackendRequest Hash32} (hr : r.Proper) (hn : r.Nameable) :
    r.run.wp (fun _ s' => s'.Synced) s := by
  cases r with
  | putArray hash data group layout =>
    unfold BackendRequest.run
    rw [Cmd.wp_map]
    exact putArray_synced hv hs hq hash group layout hr hn
  | putPackedBlock items group => exact putPackedBlock_synced hv hs hq hn hr.1 hr.2
  | removeArray hash =>
    unfold BackendRequest.run
    rw [Cmd.wp_map]
    exact removeArray_synced hv hs hq hash
  | putTimestamps hash instants =>
    unfold BackendRequest.run
    rw [Cmd.wp_map]
    exact putTimestamps_synced hs hq hash instants
  | removeTimestamps hash =>
    unfold BackendRequest.run
    rw [Cmd.wp_map]
    exact removeTimestamps_synced hv hs hq hash
  | flush =>
    unfold BackendRequest.run
    rw [Cmd.wp_map]
    exact flush_synced hs

end Hdf5File

end InfraStore
