import InfraStore.Catalog

/-!
# Catalog files

The tables of an artifact's `.sqlite` as they lie on disk, whatever revision wrote them, and what a
writable open makes of them: the migration ladder, then the schema of this build.

* `CatalogFile`: the tables, the association table with the id column its schema declares;
* `relaxTimeSeriesTypeCheck`: the rebuild that revision 2 is;
* `CatalogFile.apply`: the ladder;
* `Catalog.backupTo`, `CatalogFile.catalog`: writing a catalog out, and opening it;
* `apply_keeps`: an open loses no row, and lowers no mark.
-/

namespace InfraStore

/-- The revision this build writes. -/
def catalogSchemaRevision : ℤ := 2

/-- The revision an unstamped catalog is taken to be at. -/
def baseRevision : ℤ := 1

/-- A catalog on disk.  `associations` is `none` where there is no such table, and `sequence` where there
is no `sqlite_sequence`; the entry in it may be missing as well. -/
structure CatalogFile (H : Type) where
  version : Option ℤ
  associations : Option (List (AssociationRow H))
  featureSets : List (FeatureRow H)
  sequence : Option (Option ℤ)
  autoincrement : Bool
  ordered : (associations.getD []).Pairwise fun a b => a.id < b.id
  unique : (associations.getD []).Pairwise fun a b => a.identity ≠ b.identity
  setKeys : featureSets.Pairwise fun a b => (a.featuresHash, a.key) ≠ (b.featuresHash, b.key)
  marked : autoincrement = true → ∀ r ∈ associations.getD [], r.id ≤ sequence.join.getD 0

namespace CatalogFile

variable {H : Type}

def rows (f : CatalogFile H) : List (AssociationRow H) := f.associations.getD []

/-- The high-water mark of the association ids, 0 where none was recorded. -/
def mark (f : CatalogFile H) : ℤ := f.sequence.join.getD 0

/-- The highest id the file knows of. -/
def highest (f : CatalogFile H) : ℤ := f.rows.foldl (fun m r => max m r.id) f.mark

def readRevision (f : CatalogFile H) : ℤ := f.version.getD baseRevision

def writeRevision (revision : ℤ) (f : CatalogFile H) : CatalogFile H :=
  { f with version := some revision }

/-! ### Copying rows into a fresh table -/

/-- The mark `AUTOINCREMENT` leaves for rows copied into an empty table: none for no row. -/
def copiedMark (rows : List (AssociationRow H)) : Option ℤ :=
  rows.foldl (fun mark r => some (max (mark.getD 0) r.id)) none

theorem foldl_copied (rows : List (AssociationRow H)) : ∀ m : ℤ, ∃ m',
    rows.foldl (fun mark r => some (max (mark.getD 0) r.id)) (some m) = some m' ∧ m ≤ m' ∧
      ∀ r ∈ rows, r.id ≤ m' := by
  induction rows with
  | nil => exact fun m => ⟨m, rfl, le_refl m, fun _ h => (List.not_mem_nil h).elim⟩
  | cons r rows ih =>
    intro m
    obtain ⟨m', hm', hle, hrows⟩ := ih (max m r.id)
    refine ⟨m', hm', (le_max_left _ _).trans hle, fun x hx => ?_⟩
    rcases List.mem_cons.mp hx with rfl | hx
    · exact (le_max_right _ _).trans hle
    · exact hrows x hx

theorem copiedMark_bounds {rows : List (AssociationRow H)} {r : AssociationRow H} (hr : r ∈ rows) :
    ∃ m, copiedMark rows = some m ∧ r.id ≤ m := by
  cases rows with
  | nil => exact (List.not_mem_nil hr).elim
  | cons r₀ rows =>
    obtain ⟨m, hm, hle, hrows⟩ := foldl_copied rows (max 0 r₀.id)
    refine ⟨m, hm, ?_⟩
    rcases List.mem_cons.mp hr with rfl | hr
    · exact (le_max_right _ _).trans hle
    · exact hrows r hr

/-- The mark after the rebuild: the one the copy left, raised to the one read before the drop. -/
def carriedMark (previousSeq : Option ℤ) (rows : List (AssociationRow H)) : Option ℤ :=
  match previousSeq with
  | none => copiedMark rows
  | some seq =>
    -- the entry is inserted where the copy made none, then ratcheted
    let entry := (copiedMark rows).getD seq
    some (if entry < seq then seq else entry)

theorem carriedMark_bounds {previousSeq : Option ℤ} {rows : List (AssociationRow H)}
    {r : AssociationRow H} (hr : r ∈ rows) : r.id ≤ (carriedMark previousSeq rows).getD 0 := by
  obtain ⟨m, hm, hle⟩ := copiedMark_bounds hr
  unfold carriedMark
  cases previousSeq with
  | none =>
    rw [hm]
    exact hle
  | some seq =>
    simp only [hm, Option.getD_some]
    split
    · rename_i hlt
      exact hle.trans hlt.le
    · exact hle

theorem le_carriedMark (seq : ℤ) (rows : List (AssociationRow H)) :
    seq ≤ (carriedMark (some seq) rows).getD 0 := by
  unfold carriedMark
  simp only [Option.getD_some]
  split
  · exact le_refl seq
  · rename_i hlt
    exact not_lt.mp hlt

/-! ### The ladder -/

/-- Revision 2: the table is rebuilt with a wider check on the type, its rows copied and its mark carried
over by hand. -/
def relaxTimeSeriesTypeCheck (f : CatalogFile H) : CatalogFile H :=
  { f with
    sequence := some (carriedMark f.sequence.join f.rows)
    autoincrement := true
    marked := fun _ _ hr => carriedMark_bounds hr }

/-- One rung of the ladder, and the revision it produces. -/
structure Migration (H : Type) where
  revision : ℤ
  apply : CatalogFile H → CatalogFile H

def migrations : List (Migration H) := [⟨2, relaxTimeSeriesTypeCheck⟩]

/-- Run every migration above the revision found, in order, stamping each. -/
def runLadder (found : ℤ) (f : CatalogFile H) : ℕ × CatalogFile H :=
  (migrations.filter (found < ·.revision)).foldl
    (fun (ran, f) migration => (ran + 1, (migration.apply f).writeRevision migration.revision)) (0, f)

theorem ordered_nil : ([] : List (AssociationRow H)).Pairwise fun a b => a.id < b.id := .nil

theorem unique_nil : ([] : List (AssociationRow H)).Pairwise fun a b => a.identity ≠ b.identity := .nil

/-- The schema of this build, applied to what is there: a missing association table is created empty. -/
def ddl (f : CatalogFile H) : CatalogFile H :=
  match f.associations with
  | some _ => f
  | none =>
    { f with
      associations := some []
      sequence := some f.sequence.join
      autoincrement := true
      ordered := ordered_nil
      unique := unique_nil
      marked := fun _ _ hr => (List.not_mem_nil hr).elim }

/-- Bring a writable catalog up to this build's revision; how many migrations ran. -/
def apply (f : CatalogFile H) : Result (ℕ × CatalogFile H) :=
  let found := f.readRevision
  if catalogSchemaRevision < found then .error (.catalogTooNew found catalogSchemaRevision)
  else if f.associations.isNone then .ok (0, f.ddl.writeRevision catalogSchemaRevision)
  else
    let out := if found < catalogSchemaRevision then runLadder found f else (0, f)
    .ok (out.1, out.2.ddl.writeRevision catalogSchemaRevision)

/-! ### What an open keeps -/

/-- The rows are there still, the mark is no lower, and a table that numbers its rows for good still
does. -/
structure Kept (f f' : CatalogFile H) : Prop where
  rows : f'.rows = f.rows
  featureSets : f'.featureSets = f.featureSets
  mark : f.mark ≤ f'.mark
  autoincrement : f.autoincrement = true → f'.autoincrement = true

theorem Kept.refl (f : CatalogFile H) : Kept f f := ⟨rfl, rfl, le_refl _, id⟩

theorem Kept.trans {f f' f'' : CatalogFile H} (h : Kept f f') (h' : Kept f' f'') : Kept f f'' :=
  ⟨h'.rows.trans h.rows, h'.featureSets.trans h.featureSets, h.mark.trans h'.mark,
    fun ha => h'.autoincrement (h.autoincrement ha)⟩

theorem writeRevision_keeps (revision : ℤ) (f : CatalogFile H) : Kept f (f.writeRevision revision) :=
  ⟨rfl, rfl, le_refl _, id⟩

theorem copiedMark_nonneg (rows : List (AssociationRow H)) : 0 ≤ (copiedMark rows).getD 0 := by
  cases rows with
  | nil => exact le_refl 0
  | cons r rows =>
    obtain ⟨m, hm, hle, -⟩ := foldl_copied rows (max 0 r.id)
    have hcopied : copiedMark (r :: rows) = some m := hm
    rw [hcopied]
    exact (le_max_left _ _).trans hle

/-- The rebuild carries the mark over. -/
theorem relaxTimeSeriesTypeCheck_keeps (f : CatalogFile H) : Kept f f.relaxTimeSeriesTypeCheck := by
  refine ⟨rfl, rfl, ?_, fun _ => rfl⟩
  show f.sequence.join.getD 0 ≤ (carriedMark f.sequence.join f.rows).getD 0
  cases f.sequence.join with
  | none => exact copiedMark_nonneg f.rows
  | some seq => exact le_carriedMark seq f.rows

theorem copiedMark_le {rows : List (AssociationRow H)} {b : ℤ} (hb : 0 ≤ b) (hrows : ∀ r ∈ rows, r.id ≤ b) :
    (copiedMark rows).getD b ≤ b := by
  have hfold : ∀ (rows : List (AssociationRow H)) (acc : Option ℤ), acc.getD 0 ≤ b → acc.getD b ≤ b →
      (∀ r ∈ rows, r.id ≤ b) →
      (rows.foldl (fun mark r => some (max (mark.getD 0) r.id)) acc).getD b ≤ b := by
    intro rows
    induction rows with
    | nil => exact fun acc _ hacc _ => hacc
    | cons r rows ih =>
      intro acc h0 _ hrows
      have hr : max (acc.getD 0) r.id ≤ b := max_le h0 (hrows r List.mem_cons_self)
      exact ih _ hr hr fun x hx => hrows x (List.mem_cons_of_mem _ hx)
  exact hfold rows none hb (le_refl b) hrows

/-- The rebuild leaves the mark of a table that numbers its rows for good exactly as it was. -/
theorem relaxTimeSeriesTypeCheck_mark {f : CatalogFile H} (h : f.autoincrement = true)
    (hpos : 0 ≤ f.mark) : f.relaxTimeSeriesTypeCheck.mark = f.mark := by
  refine le_antisymm ?_ (relaxTimeSeriesTypeCheck_keeps f).mark
  have hle := copiedMark_le hpos (f.marked h)
  show (carriedMark f.sequence.join f.rows).getD 0 ≤ f.sequence.join.getD 0
  unfold mark at hpos hle
  unfold carriedMark
  cases hseq : f.sequence.join with
  | none =>
    rw [hseq] at hle
    exact hle
  | some seq =>
    rw [hseq] at hle
    simp only [Option.getD_some] at hle ⊢
    split
    · exact le_refl seq
    · exact hle

theorem runLadder_keeps (found : ℤ) (f : CatalogFile H) :
    Kept f (runLadder found f).2 ∧
      (found < catalogSchemaRevision → (runLadder found f).2.autoincrement = true) := by
  unfold runLadder migrations
  by_cases h : found < 2
  · rw [List.filter_cons_of_pos (by exact decide_eq_true h)]
    exact ⟨(relaxTimeSeriesTypeCheck_keeps f).trans (writeRevision_keeps 2 _), fun _ => rfl⟩
  · rw [List.filter_cons_of_neg (by rw [decide_eq_true_eq]; exact h)]
    exact ⟨.refl f, fun hlt => (h hlt).elim⟩

theorem ddl_keeps (f : CatalogFile H) :
    Kept f f.ddl ∧ (f.associations = none → f.ddl.autoincrement = true) := by
  unfold ddl
  split
  · rename_i rows h
    exact ⟨.refl f, fun hn => by rw [h] at hn; cases hn⟩
  · rename_i h
    refine ⟨⟨?_, rfl, ?_, fun _ => rfl⟩, fun _ => rfl⟩
    · show [] = f.associations.getD []
      rw [h]
      rfl
    · show f.sequence.join.getD 0 ≤ (Option.join (some f.sequence.join)).getD 0
      exact le_refl _

/-- **A writable open** loses no row and lowers no mark, and from then on rows are numbered for good. -/
theorem apply_keeps {f f' : CatalogFile H} {n : ℕ} (h : f.apply = .ok (n, f')) :
    Kept f f' ∧ f'.readRevision = catalogSchemaRevision ∧
      (f.readRevision < catalogSchemaRevision → f'.autoincrement = true) := by
  unfold apply at h
  simp only at h
  split at h
  · cases h
  split at h
  · rename_i hnone
    cases h
    obtain ⟨hddl, hauto⟩ := f.ddl_keeps
    exact ⟨hddl.trans (writeRevision_keeps _ _), rfl, fun _ => hauto (Option.isNone_iff_eq_none.mp hnone)⟩
  · split at h
    · rename_i hlt
      cases h
      obtain ⟨hladder, hauto⟩ := runLadder_keeps f.readRevision f
      obtain ⟨hddl, -⟩ := (runLadder f.readRevision f).2.ddl_keeps
      exact ⟨(hladder.trans hddl).trans (writeRevision_keeps _ _), rfl,
        fun _ => hddl.autoincrement (hauto hlt)⟩
    · rename_i hlt
      cases h
      exact ⟨f.ddl_keeps.1.trans (writeRevision_keeps _ _), rfl, fun h => (hlt h).elim⟩

theorem le_highest (f : CatalogFile H) : f.mark ≤ f.highest ∧ ∀ r ∈ f.rows, r.id ≤ f.highest := by
  unfold highest
  generalize f.mark = m
  generalize f.rows = rows
  induction rows generalizing m with
  | nil => exact ⟨le_refl m, fun _ h => (List.not_mem_nil h).elim⟩
  | cons r rows ih =>
    obtain ⟨hm, hrows⟩ := ih (max m r.id)
    refine ⟨(le_max_left _ _).trans hm, fun x hx => ?_⟩
    rcases List.mem_cons.mp hx with rfl | hx
    · exact (le_max_right _ _).trans hm
    · exact hrows x hx

theorem highest_le {f : CatalogFile H} {m : ℤ} (hmark : f.mark ≤ m) (hrows : ∀ r ∈ f.rows, r.id ≤ m) :
    f.highest ≤ m := by
  unfold highest
  generalize f.mark = m₀ at hmark
  generalize f.rows = rows at hrows
  induction rows generalizing m₀ with
  | nil => exact hmark
  | cons r rows ih =>
    exact ih _ (max_le hmark (hrows r List.mem_cons_self)) fun x hx => hrows x (List.mem_cons_of_mem _ hx)

/-! ### Opening -/

/-- The catalog of a file whose table numbers its rows for good. -/
def catalog (f : CatalogFile H) (h : f.autoincrement = true) : Catalog H :=
  ⟨f.rows, f.featureSets, f.mark, f.ordered, f.unique, f.marked h, f.setKeys⟩

end CatalogFile

/-- Write a catalog out, page by page: a table that never held a row has no entry in
`sqlite_sequence`. -/
def Catalog.backupTo {H : Type} (c : Catalog H) : CatalogFile H :=
  { version := some catalogSchemaRevision
    associations := some c.rows
    featureSets := c.featureSets
    sequence := some (if c.seq = 0 then none else some c.seq)
    autoincrement := true
    ordered := c.ordered
    unique := c.unique
    setKeys := c.setKeys
    marked := fun _ r hr => by
      have hmark : (if c.seq = 0 then none else some c.seq : Option ℤ).getD 0 = c.seq := by
        split
        · rename_i h
          exact h.symm
        · rfl
      exact le_of_le_of_eq (c.bounded r hr) hmark.symm }

theorem Catalog.backupTo_mark {H : Type} (c : Catalog H) : c.backupTo.mark = c.seq := by
  show (if c.seq = 0 then none else some c.seq : Option ℤ).getD 0 = c.seq
  split
  · rename_i h
    exact h.symm
  · rfl

/-- **What was written out is opened again.** -/
theorem Catalog.backupTo_apply {H : Type} (c : Catalog H) :
    c.backupTo.apply = .ok (0, c.backupTo) ∧ c.backupTo.catalog rfl = c := by
  refine ⟨rfl, ?_⟩
  have hmark := c.backupTo_mark
  rcases c with ⟨rows, sets, seq, h1, h2, h3, h4⟩
  unfold CatalogFile.catalog
  congr

/-- A catalog that an older build stamped 1 is migrated to itself. -/
theorem Catalog.backupTo_migrates {H : Type} (c : Catalog H) (hseq : 0 ≤ c.seq) :
    ∃ f', (c.backupTo.writeRevision baseRevision).apply = .ok (1, f') ∧
      ∃ h : f'.autoincrement = true, c = f'.catalog h := by
  refine ⟨_, rfl, rfl, ?_⟩
  have hback : (c.backupTo.writeRevision baseRevision).mark = c.seq := c.backupTo_mark
  have hmark : (c.backupTo.writeRevision baseRevision).relaxTimeSeriesTypeCheck.mark = c.seq :=
    (CatalogFile.relaxTimeSeriesTypeCheck_mark rfl (by rw [hback]; exact hseq)).trans hback
  rcases c with ⟨rows, sets, seq, h1, h2, h3, h4⟩
  unfold CatalogFile.catalog
  congr
  exact hmark.symm

end InfraStore
