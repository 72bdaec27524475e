import InfraStore.Requests
import InfraStore.Tabular.Partition

/-!
# Table names in a SQLite database

An export under a prefix writes three tables, an index and three views a partition, all named by the
prefix and the partition's stem; the import finds a prefix's partitions by their names alone.

* `checkPrefix`, `tableBases`, `refuseCollisions`, `exportInto`: what an export names and refuses;
* `partitionBases`: what a listing takes for a prefix's partitions;
* `belongs_other_iff`: a listing takes another export's partition exactly when the partition's name
  straddles the listed prefix;
* `partitionNames_exact`: names are distinct and recovered, unless a name straddles a prefix.

The database is modelled by the names it holds.
-/

namespace InfraStore.Tabular

open InfraStore.Lib

/-! ### Prefixes -/

/-- Every kind of series, as the names of the layout spell it. -/
def typeNames : List Name :=
  [TimeSeriesType.singleTimeSeries, .nonSequentialTimeSeries, .deterministic,
    .deterministicSingleTimeSeries, .probabilistic, .scenarios, .persistentTimeSeries].map
    fun t => t.asStr.toList

/-- Whether a text is a time-series type's name, as `TimeSeriesType::parse` reads it. -/
def isTypeName (text : Name) : Bool := text ∈ typeNames

/-- Refuse a prefix whose tables would need quoting or could read as another prefix's. -/
def checkPrefix (pre : Name) : Result Unit :=
  let shown := (String.ofList pre).quote
  let ended := (String.ofList (pre ++ ['_'])).quote
  if !pre.all (fun c => c.isAlphanum || c = '_') then
    .error (unsupported s!"table prefix {shown} may only contain ASCII letters, digits and '_'")
  else if pre = [] then .ok ()
  else if (pre.head?.map Char.isDigit).getD false then
    .error (unsupported s!"table prefix {shown} must not start with a digit, which would make its table names need quoting")
  else if "sqlite_".toList <+: lower pre then
    .error (unsupported s!"table prefix {shown} starts with \"sqlite_\", which SQLite reserves for its own tables")
  else if pre.getLast? ≠ some '_' then
    .error (unsupported s!"table prefix {shown} must end in '_' (e.g. {ended})")
  else
    match (pre.dropLast.splitOn '_').find? isTypeName with
    | some segment =>
      .error (unsupported s!"table prefix {shown} contains the time-series type name {(String.ofList segment).quote}, which would make its tables readable as another prefix's")
    | none => .ok ()

/-! ### The names of an export -/

def valuesSuffix : Name := "_values".toList
def seriesSuffix : Name := "_series".toList
def arraysSuffix : Name := "_arrays".toList
def indexSuffix : Name := "_values_key".toList

/-- The views an export keeps under its prefix. -/
def viewNames (pre : Name) : List Name :=
  ["all_values", "all_series", "all_arrays"].map fun view => pre ++ view.toList

/-- A partition's stem as a SQL identifier. -/
def tableStem (key : PartitionKey) : Name :=
  key.stem.map fun c => if c.isAlphanum then c else '_'

/-- The name each partition's tables extend; `fuel` bounds the candidates tried for one key. -/
def tableBases (fuel : ℕ) (pre : Name) (keys : List PartitionKey) :
    Option (List (PartitionKey × Name)) :=
  Names.assign lower (fun key => candidate (pre ++ tableStem key)) fuel keys []

/-- What a name in the database stands for; a view may be one an export wrote. -/
inductive EntryKind where
  | table
  | index
  | view (marked : Bool)
  deriving DecidableEq

/-- One name in the database. -/
structure Entry where
  kind : EntryKind
  name : Name
  deriving DecidableEq

/-- A database, by the names it holds. -/
abbrev Database : Type := List Entry

/-- The names of the tables. -/
def Database.tables (db : Database) : List Name :=
  (db.filter fun e => e.kind = .table).map Entry.name

/-- Fail, naming them, if any name the export would create already exists. -/
def refuseCollisions (db : Database) (bases : List Name) (pre : Name) : Result Unit :=
  let existing := db.map fun e => lower e.name
  let ours (view : Name) : Bool :=
    db.any fun e => lower e.name = lower view ∧ e.kind = .view true
  let clashes :=
    (bases.flatMap fun b => [b ++ valuesSuffix, b ++ indexSuffix, b ++ seriesSuffix,
        b ++ arraysSuffix]).filter (fun name => lower name ∈ existing) ++
      (viewNames pre).filter fun view => lower view ∈ existing ∧ !ours view
  if clashes = [] then .ok ()
  else
    let named := ", ".intercalate (clashes.map String.ofList)
    .error (unsupported s!"the database already holds {clashes.length} of the names this export would create ({named}); nothing was written. Export into a fresh file, pick another table prefix, or drop those tables first.")

/-- The names one partition's tables and index take. -/
def partitionEntries (base : Name) : Database :=
  [⟨.table, base ++ arraysSuffix⟩, ⟨.table, base ++ valuesSuffix⟩, ⟨.table, base ++ seriesSuffix⟩,
    ⟨.index, base ++ indexSuffix⟩]

/-! ### Listing a prefix -/

/-- The rest of a table's name after a suffix. -/
def stripSuffix (suffix name : Name) : Option Name :=
  if suffix <:+ name then some (name.take (name.length - suffix.length)) else none

/-- Whether a text goes on with a type's name and `_`. -/
def onType (rest : Name) : Bool :=
  '_' ∈ rest && isTypeName (rest.takeWhile (· ≠ '_'))

/-- Whether a partition's name is the prefix, in any case, and then a type's name and `_`. -/
def belongs (pre base : Name) : Bool :=
  pre.length ≤ base.length && lower (base.take pre.length) = lower pre &&
    onType (base.drop pre.length)

/-- The partition a table is the values table of, if it is one of the prefix's. -/
def partitionBase (tables : List Name) (pre : Name) (what : String) (table : Name) :
    Result (Option Name) :=
  let lowered := tables.map lower
  match stripSuffix valuesSuffix table with
  | none => .ok none
  | some base =>
    if !belongs pre base then .ok none
    else
      match [seriesSuffix, arraysSuffix].find? fun s => lower (base ++ s) ∉ lowered with
      | some s =>
        .error (unsupported s!"{what} holds {String.ofList table} but no {String.ofList (base ++ s)} beside it; a partition's tables come from one export")
      | none => .ok (some base)

/-- Every partition under a prefix, sorted by name. -/
def partitionBases (db : Database) (pre : Name) (what : String) : Result (List Name) := do
  let found ← db.tables.mapM (partitionBase db.tables pre what)
  .ok ((found.filterMap id).insertionSort (· ≤ ·))

/-! ### An export -/

/-- Drop a view if it exists and create it. -/
def replaceView (db : Database) (view : Name) : Database :=
  db.filter (fun e => !(e.kind matches .view _ ∧ lower e.name = lower view)) ++ [⟨.view true, view⟩]

/-- (Re)create the prefix's views over every partition under it. -/
def rebuildViews (db : Database) (pre : Name) : Result Database := do
  let _ ← partitionBases db pre "the database"
  .ok ((viewNames pre).foldl replaceView db)

/-- The names a selection's partitions take under a prefix. -/
def basesOf (pre : Name) (keys : List PartitionKey) : List Name :=
  ((tableBases keys.length pre (sortedKeys keys)).getD []).map Prod.snd

/-- Write a selection's partitions under a prefix; an empty selection writes nothing. -/
def exportInto (db : Database) (pre : Name) (keys : List PartitionKey) : Result Database := do
  checkPrefix pre
  if keys = [] then .ok db
  else
    refuseCollisions db (basesOf pre keys) pre
    rebuildViews (db ++ (basesOf pre keys).flatMap partitionEntries) pre

/-- Several exports into one database, one after another. -/
def exportAll (db : Database) (exports : List (Name × List PartitionKey)) : Result Database :=
  exports.foldlM (fun db e => exportInto db e.1 e.2) db

/-! ### What an export names -/

theorem typeNames_spec {t : Name} (h : t ∈ typeNames) : '_' ∉ t ∧ t ≠ [] := by
  have hall : typeNames.all (fun t => !('_' ∈ t) && t ≠ []) = true := by decide
  have := List.all_eq_true.mp hall t h
  simpa using this

theorem mem_typeNames (t : TimeSeriesType) : t.asStr.toList ∈ typeNames := by
  cases t <;> decide

/-- A partition's stem starts with its type's name. -/
theorem tableStem_eq (key : PartitionKey) :
    ∃ more, tableStem key = key.timeSeriesType.asStr.toList ++ '_' :: more := by
  have hall : ∀ t : TimeSeriesType, (sanitize t.asStr.toList).map
      (fun c => if c.isAlphanum then c else '_') = t.asStr.toList := by
    intro t
    cases t <;> decide
  unfold tableStem PartitionKey.stem
  simp only [List.map_append, List.append_assoc]
  rw [hall]
  exact ⟨_, rfl⟩

theorem tableBases_spec (pre : Name) (keys : List PartitionKey) {fuel : ℕ}
    (hfuel : keys.length ≤ fuel) :
    ∃ bases, tableBases fuel pre keys = some bases ∧ bases.map Prod.fst = keys ∧
      (bases.map fun p => lower p.2).Nodup ∧
      (∀ p ∈ bases, ∃ n, p.2 = candidate (pre ++ tableStem p.1) n) ∧
      ∀ more, keys.length ≤ more → tableBases more pre keys = some bases := by
  obtain ⟨bases, hbases, hkeys, hnodup, -, hcand, hmore⟩ :=
    Names.assign_spec keys [] (fun key => candidate_injective (pre ++ tableStem key))
      (by simpa using hfuel)
  refine ⟨bases, hbases, hkeys, hnodup, fun p hp => ?_, fun more hle => hmore more (by simpa using hle)⟩
  obtain ⟨n, -, hn⟩ := hcand p hp
  exact ⟨n, hn⟩

/-- Every name of an export is its prefix and then a type's name and `_`. -/
theorem mem_basesOf {pre b : Name} {keys : List PartitionKey} (h : b ∈ basesOf pre keys) :
    ∃ t ∈ typeNames, ∃ more, b = pre ++ (t ++ '_' :: more) := by
  obtain ⟨bases, hbases, -, -, hcand, -⟩ := tableBases_spec pre (sortedKeys keys)
    (length_sortedKeys_le keys)
  unfold basesOf at h
  rw [hbases, Option.getD_some] at h
  obtain ⟨p, hp, rfl⟩ := List.mem_map.mp h
  obtain ⟨n, hn⟩ := hcand p hp
  obtain ⟨more, hstem⟩ := tableStem_eq p.1
  refine ⟨_, mem_typeNames p.1.timeSeriesType, ?_⟩
  rw [hn, hstem]
  unfold candidate
  split
  · exact ⟨more, rfl⟩
  · exact ⟨more ++ '_' :: Nat.toDigits 10 n, by simp⟩

theorem nodup_lower_basesOf (pre : Name) (keys : List PartitionKey) :
    ((basesOf pre keys).map lower).Nodup := by
  obtain ⟨bases, hbases, -, hnodup, -, -⟩ := tableBases_spec pre (sortedKeys keys)
    (length_sortedKeys_le keys)
  unfold basesOf
  rw [hbases, Option.getD_some, List.map_map]
  exact hnodup

/-! ### What a listing reads -/

theorem takeWhile_append_cons {c : Char} {a b : Name} (h : c ∉ a) :
    (a ++ c :: b).takeWhile (· ≠ c) = a := by
  rw [List.takeWhile_append_of_pos]
  · simp
  · intro x hx
    have : x ≠ c := fun e => h (e ▸ hx)
    simpa using this

theorem onType_iff {rest : Name} :
    onType rest = true ↔ ∃ t ∈ typeNames, ∃ more, rest = t ++ '_' :: more := by
  unfold onType isTypeName
  rw [Bool.and_eq_true, decide_eq_true_eq, decide_eq_true_eq]
  constructor
  · rintro ⟨hmem, ht⟩
    refine ⟨_, ht, (rest.dropWhile (· ≠ '_')).tail, ?_⟩
    have hne : rest.dropWhile (· ≠ '_') ≠ [] := by
      intro e
      have := List.dropWhile_eq_nil_iff.mp e '_' hmem
      simp at this
    have hhead : (rest.dropWhile (· ≠ '_')).head hne = '_' := by
      have := List.head_dropWhile_not (fun c => decide (c ≠ '_')) hne
      simpa using this
    conv => lhs; rw [← List.takeWhile_append_dropWhile (p := fun c => decide (c ≠ '_')) (l := rest)]
    rw [← List.cons_head_tail hne, hhead]
    rfl
  · rintro ⟨t, ht, more, rfl⟩
    exact ⟨by simp, by rwa [takeWhile_append_cons (typeNames_spec ht).1]⟩

theorem belongs_iff {pre base : Name} :
    belongs pre base = true ↔
      ∃ head rest, base = head ++ rest ∧ lower head = lower pre ∧ onType rest = true := by
  unfold belongs
  rw [Bool.and_eq_true, Bool.and_eq_true, decide_eq_true_eq, decide_eq_true_eq]
  constructor
  · rintro ⟨⟨-, hlow⟩, hon⟩
    exact ⟨_, _, (List.take_append_drop pre.length base).symm, hlow, hon⟩
  · rintro ⟨head, rest, rfl, hlow, hon⟩
    have hlen : head.length = pre.length := by
      have := congrArg List.length hlow
      simpa [lower] using this
    rw [← hlen]
    simp [hlow, hon]

/-- A prefix's own partitions are its. -/
theorem belongs_self {pre b : Name} {keys : List PartitionKey} (h : b ∈ basesOf pre keys) :
    belongs pre b = true := by
  obtain ⟨t, ht, more, rfl⟩ := mem_basesOf h
  exact belongs_iff.mpr ⟨pre, _, rfl, rfl, onType_iff.mpr ⟨t, ht, more, rfl⟩⟩

/-- A table name goes on, past its own prefix, with what completes another prefix in some case, and then
with a type's name and `_`. -/
def Straddles (pre other base : Name) : Prop :=
  ∃ s rest, base = other ++ (s ++ rest) ∧ s ≠ [] ∧ lower pre = lower (other ++ s) ∧
    onType rest = true

/-! ### When a listing takes another export's partition -/

/-- A text ends where a segment does: it is empty or ends in `_`. -/
def Closed (text : Name) : Prop := text = [] ∨ ∃ body, text = body ++ ['_']

theorem toLower_eq_underscore {c : Char} (h : c.toLower = '_') : c = '_' := by
  unfold Char.toLower at h
  split at h
  · rename_i hc
    have h₁ := hc.1
    have h₂ := hc.2
    rw [ge_iff_le, UInt32.le_iff_toNat_le] at h₁
    rw [UInt32.le_iff_toNat_le] at h₂
    have hval := congrArg (fun c : Char => c.val.toNat) h
    have hlo : (65 : ℕ) ≤ c.val.toNat := h₁
    have hhi : c.val.toNat ≤ 90 := h₂
    have hsum : (c.val + ('a'.val - 'A'.val)).toNat = c.val.toNat + 32 := by
      rw [UInt32.toNat_add]
      have : ('a'.val - 'A'.val).toNat = 32 := by decide
      rw [this]
      omega
    have hend : ('_').val.toNat = 95 := by decide
    simp only at hval
    rw [hsum, hend] at hval
    omega
  · exact h

theorem not_mem_lower {t : Name} (h : '_' ∉ t) : '_' ∉ lower t := by
  intro hm
  obtain ⟨c, hc, e⟩ := List.mem_map.mp hm
  exact h (toLower_eq_underscore e ▸ hc)

theorem closed_of_lower {a b : Name} (h : lower a = lower b) (hb : Closed b) : Closed a := by
  rcases hb with rfl | ⟨body, rfl⟩
  · exact .inl (List.map_eq_nil_iff.mp h)
  · obtain ⟨l₁, l₂, rfl, -, h₂⟩ := List.map_eq_append_iff.mp (h.trans (lower_append _ _))
    obtain ⟨c, rfl, hc⟩ := List.map_eq_singleton_iff.mp h₂
    rw [toLower_eq_underscore (c := c) (by simpa using hc)]
    exact .inr ⟨l₁, rfl⟩

/-- A text without `_` between two boundaries is a segment. -/
theorem mem_splitOn {w t r : Name} (ht : '_' ∉ t) (hw : Closed w) (hr : r = [] ∨ ∃ z, r = '_' :: z) :
    t ∈ (w ++ (t ++ r)).splitOn '_' := by
  have hfirst : t ∈ (t ++ r).splitOn '_' := by
    rcases hr with rfl | ⟨z, rfl⟩
    · rw [List.append_nil, List.splitOn_eq_singleton ht]
      exact List.mem_singleton_self t
    · rw [List.splitOn_append_cons_self_of_not_mem ht]
      exact List.mem_cons_self
  rcases hw with rfl | ⟨body, rfl⟩
  · exact hfirst
  · rw [List.append_assoc, List.singleton_append, List.splitOn_append_cons_self]
    exact List.mem_append_right _ hfirst

/-- A text up to a `_`, against one whose first segment is known. -/
theorem eq_of_append_underscore {a x t y : Name} (ht : '_' ∉ t) (h : a ++ '_' :: x = t ++ '_' :: y) :
    ∃ r, a = t ++ r ∧ (r = [] ∨ ∃ z, r = '_' :: z) := by
  rcases List.append_eq_append_iff.mp h with ⟨c, rfl, hc⟩ | ⟨c, rfl, hc⟩
  · cases c with
    | nil => exact ⟨[], by simp, .inl rfl⟩
    | cons d c =>
      rw [List.cons_append] at hc
      exact absurd ((List.cons.inj hc).1 ▸ by simp) ht
  · cases c with
    | nil => exact ⟨[], by simp, .inl rfl⟩
    | cons d c =>
      rw [List.cons_append] at hc
      exact ⟨d :: c, rfl, .inr ⟨c, by rw [(List.cons.inj hc).1]⟩⟩

/-- What an accepted prefix is: empty, or segments none of which is a type's name, closed by `_`. -/
theorem checkPrefix_ok {pre : Name} (h : checkPrefix pre = .ok ()) :
    pre = [] ∨ ∃ body, pre = body ++ ['_'] ∧ ∀ seg ∈ body.splitOn '_', isTypeName seg = false := by
  unfold checkPrefix at h
  simp only at h
  split at h
  · cases h
  · split at h
    · exact .inl ‹_›
    · split at h
      · cases h
      · split at h
        · cases h
        · split at h
          · cases h
          · rename_i hlast
            split at h
            · cases h
            · rename_i hfind
              have hlast := not_not.mp hlast
              have hne : pre ≠ [] := by
                intro e
                rw [e] at hlast
                cases hlast
              refine .inr ⟨pre.dropLast, ?_, fun seg hseg => ?_⟩
              · rw [List.getLast?_eq_some_getLast hne] at hlast
                rw [← Option.some.inj hlast, List.dropLast_concat_getLast]
              · exact Bool.not_eq_true _ ▸ List.find?_eq_none.mp hfind seg hseg

theorem closed_of_checkPrefix {pre : Name} (h : checkPrefix pre = .ok ()) : Closed pre := by
  rcases checkPrefix_ok h with rfl | ⟨body, rfl, -⟩
  · exact .inl rfl
  · exact .inr ⟨body, rfl⟩

/-- **Another export's partition** is taken for a prefix's exactly when its name straddles the prefix. -/
theorem belongs_other_iff {pre other b : Name} {keys : List PartitionKey}
    (hpre : checkPrefix pre = .ok ()) (hother : checkPrefix other = .ok ())
    (hne : lower pre ≠ lower other) (hb : b ∈ basesOf other keys) :
    belongs pre b = true ↔ Straddles pre other b := by
  constructor
  · intro h
    obtain ⟨head, rest, hsplit, hlow, hon⟩ := belongs_iff.mp h
    obtain ⟨t, ht, more, hbase⟩ := mem_basesOf hb
    rcases List.append_eq_append_iff.mp (hsplit.symm.trans hbase) with ⟨c, hc, hrest⟩ | ⟨s, hs, hrest⟩
    · -- the listed prefix is the shorter one: its next segment is one of the other prefix
      have hc0 : c ≠ [] := by
        rintro rfl
        rw [List.append_nil] at hc
        exact hne (hc ▸ hlow.symm)
      obtain ⟨c', last, rfl⟩ := (List.eq_nil_or_concat' c).resolve_left hc0
      rcases checkPrefix_ok hother with rfl | ⟨body, hbody, hseg⟩
      · simp at hc
      · rw [hbody, ← List.append_assoc] at hc
        obtain ⟨hbody', hlast⟩ := List.append_inj' hc rfl
        cases hlast
        obtain ⟨t', ht', more', hrest'⟩ := onType_iff.mp hon
        rw [hrest', List.append_assoc, List.singleton_append] at hrest
        obtain ⟨r, rfl, hr⟩ := eq_of_append_underscore (typeNames_spec ht').1 hrest.symm
        have hmem := mem_splitOn (typeNames_spec ht').1
          (closed_of_lower hlow (closed_of_checkPrefix hpre)) hr
        rw [← hbody'] at hmem
        have := hseg t' hmem
        unfold isTypeName at this
        exact absurd ht' (of_decide_eq_false this)
    · refine ⟨s, rest, by rw [hsplit, hs, List.append_assoc], ?_, by rw [← hlow, hs], hon⟩
      rintro rfl
      rw [List.append_nil] at hs
      exact hne (hs ▸ hlow.symm)
  · rintro ⟨s, rest, rfl, -, hlow, hon⟩
    exact belongs_iff.mpr ⟨other ++ s, rest, (List.append_assoc _ _ _).symm, hlow.symm, hon⟩

/-- Whether a prefix spells a type's name in some case as one of its segments. -/
def SpellsType (pre : Name) : Prop :=
  ∃ seg ∈ pre.dropLast.splitOn '_', ∃ t ∈ typeNames, lower seg = lower t

/-- A name straddles only a prefix that spells a type's name in another case. -/
theorem spellsType_of_straddles {pre other b : Name} {keys : List PartitionKey}
    (hpre : checkPrefix pre = .ok ()) (hother : checkPrefix other = .ok ())
    (hb : b ∈ basesOf other keys) (h : Straddles pre other b) : SpellsType pre := by
  obtain ⟨s, rest, hsplit, hs, hlow, -⟩ := h
  obtain ⟨t, ht, more, hbase⟩ := mem_basesOf hb
  have htype := typeNames_spec ht
  have hrest : s ++ rest = t ++ '_' :: more := List.append_cancel_left (hsplit.symm.trans hbase)
  obtain ⟨s', last, rfl⟩ := (List.eq_nil_or_concat' s).resolve_left hs
  have hclosed : Closed (other ++ (s' ++ [last])) :=
    closed_of_lower hlow.symm (closed_of_checkPrefix hpre)
  have hlast : last = '_' := by
    rcases hclosed with h0 | ⟨body, hbody⟩
    · simp at h0
    · rw [← List.append_assoc] at hbody
      exact List.singleton_inj.mp (List.append_inj' hbody rfl).2
  subst hlast
  rw [List.append_assoc, List.singleton_append] at hrest
  obtain ⟨r, rfl, hr⟩ := eq_of_append_underscore htype.1 hrest
  rw [lower_append, lower_append, lower_append] at hlow
  obtain ⟨w, p₁, rfl, hw, hp₁⟩ := List.map_eq_append_iff.mp hlow
  obtain ⟨p₂, p₃, rfl, hp₂, hp₃⟩ := List.map_eq_append_iff.mp hp₁
  obtain ⟨seg, r', rfl, hseg, hr'⟩ := List.map_eq_append_iff.mp hp₂
  obtain ⟨c, rfl, -⟩ := List.map_eq_singleton_iff.mp hp₃
  refine ⟨seg, ?_, t, ht, hseg⟩
  rw [← List.append_assoc, ← List.append_assoc, List.dropLast_concat, List.append_assoc]
  refine mem_splitOn ?_ (closed_of_lower hw (closed_of_checkPrefix hother)) ?_
  · intro hm
    refine not_mem_lower htype.1 (hseg ▸ ?_)
    exact List.mem_map.mpr ⟨'_', hm, by decide⟩
  · rcases hr with rfl | ⟨z, rfl⟩
    · exact .inl (List.map_eq_nil_iff.mp hr')
    · obtain ⟨d, r'', rfl, hd, -⟩ := List.map_eq_cons_iff.mp hr'
      exact .inr ⟨r'', by rw [toLower_eq_underscore (hd.trans (by decide))]⟩

/-! ### What a database of exports holds -/

/-- The tables of one partition. -/
def partitionTables (base : Name) : List Name :=
  [base ++ arraysSuffix, base ++ valuesSuffix, base ++ seriesSuffix]

theorem tables_append (a b : Database) : (a ++ b : Database).tables = a.tables ++ b.tables := by
  simp [Database.tables]

theorem tables_partitionEntries (bases : List Name) :
    Database.tables (bases.flatMap partitionEntries) = bases.flatMap partitionTables := by
  induction bases with
  | nil => rfl
  | cons b bases ih =>
    rw [List.flatMap_cons, List.flatMap_cons, tables_append, ih]
    rfl

theorem tables_replaceView (db : Database) (view : Name) :
    (replaceView db view).tables = db.tables := by
  unfold replaceView
  rw [tables_append]
  unfold Database.tables
  rw [List.filter_filter, List.filter_cons, if_neg (by simp), List.filter_nil, List.map_nil,
    List.append_nil]
  congr 1
  refine List.filter_congr fun e _ => ?_
  cases e.kind <;> simp

theorem tables_rebuildViews {db db' : Database} {pre : Name} (h : rebuildViews db pre = .ok db') :
    db'.tables = db.tables := by
  obtain ⟨-, -, h⟩ := except_bind_eq_ok.mp h
  have hfold : ∀ (views : List Name) (db : Database),
      (views.foldl replaceView db).tables = db.tables := by
    intro views
    induction views with
    | nil => exact fun _ => rfl
    | cons view views ih =>
      intro db
      rw [List.foldl_cons, ih, tables_replaceView]
  cases h
  exact hfold _ _

theorem basesOf_nil (pre : Name) : basesOf pre [] = [] := rfl

/-- What one export adds to the tables. -/
theorem tables_exportInto {db db' : Database} {pre : Name} {keys : List PartitionKey}
    (h : exportInto db pre keys = .ok db') :
    checkPrefix pre = .ok () ∧
      db'.tables = db.tables ++ (basesOf pre keys).flatMap partitionTables := by
  obtain ⟨u, hcheck, h⟩ := except_bind_eq_ok.mp h
  refine ⟨hcheck, ?_⟩
  split at h
  · rename_i hkeys
    cases h
    rw [hkeys, basesOf_nil, List.flatMap_nil, List.append_nil]
  · obtain ⟨-, -, h⟩ := except_bind_eq_ok.mp h
    rw [tables_rebuildViews h, tables_append, tables_partitionEntries]

theorem tables_exportAll {exports : List (Name × List PartitionKey)} {db db' : Database}
    (h : exportAll db exports = .ok db') :
    (∀ e ∈ exports, checkPrefix e.1 = .ok ()) ∧
      db'.tables = db.tables ++
        exports.flatMap fun e => (basesOf e.1 e.2).flatMap partitionTables := by
  induction exports generalizing db with
  | nil =>
    cases h
    exact ⟨by simp, by simp⟩
  | cons e exports ih =>
    unfold exportAll at h ih
    rw [List.foldlM_cons] at h
    obtain ⟨db₁, h₁, h₂⟩ := except_bind_eq_ok.mp h
    obtain ⟨hcheck, htables⟩ := tables_exportInto h₁
    obtain ⟨hrest, hall⟩ := ih h₂
    refine ⟨fun e' he' => ?_, ?_⟩
    · cases he' with
      | head => exact hcheck
      | tail _ he' => exact hrest e' he'
    · rw [hall, htables, List.flatMap_cons, List.append_assoc]

theorem stripSuffix_append (a suffix : Name) : stripSuffix suffix (a ++ suffix) = some a := by
  unfold stripSuffix
  rw [if_pos (List.suffix_append _ _)]
  simp

theorem stripSuffix_none {a suffix other : Name} (hlen : suffix.length = other.length)
    (hne : suffix ≠ other) : stripSuffix suffix (a ++ other) = none := by
  unfold stripSuffix
  rw [if_neg]
  rintro ⟨b, hb⟩
  exact hne (List.append_inj' hb hlen).2

/-- Beside its series and arrays tables, the values table of a partition is read as the partition, and
no other table of it is read. -/
theorem partitionBase_tables {tables : List Name} {pre base : Name} {what : String}
    (hs : base ++ seriesSuffix ∈ tables) (ha : base ++ arraysSuffix ∈ tables) :
    (partitionTables base).mapM (partitionBase tables pre what) =
      .ok [none, if belongs pre base then some base else none, none] := by
  have harrays : partitionBase tables pre what (base ++ arraysSuffix) = .ok none := by
    unfold partitionBase
    rw [stripSuffix_none (by decide) (by decide)]
  have hseries : partitionBase tables pre what (base ++ seriesSuffix) = .ok none := by
    unfold partitionBase
    rw [stripSuffix_none (by decide) (by decide)]
  have hvalues : partitionBase tables pre what (base ++ valuesSuffix) =
      .ok (if belongs pre base then some base else none) := by
    unfold partitionBase
    rw [stripSuffix_append]
    simp only
    cases belongs pre base with
    | false => rfl
    | true =>
      have hfind : [seriesSuffix, arraysSuffix].find?
          (fun s => lower (base ++ s) ∉ tables.map lower) = none := by
        refine List.find?_eq_none.mpr fun s hmem => ?_
        have hs' : base ++ s ∈ tables := by
          rcases List.mem_cons.mp hmem with rfl | hmem
          · exact hs
          · rw [List.mem_singleton.mp hmem]
            exact ha
        simpa using ⟨_, hs', rfl⟩
      rw [hfind]
      rfl
  simp [partitionTables, harrays, hseries, hvalues, bind, Except.bind, pure, Except.pure]

/-- A listing reads the partitions whose names belong to the prefix. -/
theorem mapM_partitionTables {tables : List Name} {pre : Name} {what : String} (bases : List Name)
    (h : ∀ b ∈ bases, b ++ seriesSuffix ∈ tables ∧ b ++ arraysSuffix ∈ tables) :
    ∃ found, (bases.flatMap partitionTables).mapM (partitionBase tables pre what) = .ok found ∧
      found.filterMap id = bases.filter (belongs pre) := by
  induction bases with
  | nil => exact ⟨[], rfl, rfl⟩
  | cons b bases ih =>
    obtain ⟨found, hfound, hfilter⟩ := ih fun b' hb' => h b' (List.mem_cons_of_mem _ hb')
    obtain ⟨hs, ha⟩ := h b List.mem_cons_self
    refine ⟨[none, if belongs pre b then some b else none, none] ++ found, ?_, ?_⟩
    · rw [List.flatMap_cons, List.mapM_append, partitionBase_tables hs ha, hfound]
      rfl
    · rw [List.filterMap_append, hfilter, List.filter_cons]
      split <;> simp

/-- What a listing of a prefix answers on a database of exports: every partition of every export whose
name belongs to the prefix. -/
theorem partitionBases_exportAll {exports : List (Name × List PartitionKey)} {db : Database}
    (h : exportAll [] exports = .ok db) (pre : Name) (what : String) :
    partitionBases db pre what = .ok (((exports.flatMap fun e => basesOf e.1 e.2).filter
      (belongs pre)).insertionSort (· ≤ ·)) := by
  obtain ⟨-, htables⟩ := tables_exportAll h
  have hall : db.tables = (exports.flatMap fun e => basesOf e.1 e.2).flatMap partitionTables := by
    rw [htables, List.flatMap_assoc]
    rfl
  have hmem : ∀ b ∈ exports.flatMap (fun e => basesOf e.1 e.2),
      b ++ seriesSuffix ∈ db.tables ∧ b ++ arraysSuffix ∈ db.tables := by
    intro b hb
    rw [hall]
    exact ⟨List.mem_flatMap.mpr ⟨b, hb, by simp [partitionTables]⟩,
      List.mem_flatMap.mpr ⟨b, hb, by simp [partitionTables]⟩⟩
  obtain ⟨found, hfound, hfilter⟩ := mapM_partitionTables _ hmem
  unfold partitionBases
  rw [← hall] at hfound
  rw [hfound]
  exact congrArg (fun l => Except.ok (List.insertionSort (· ≤ ·) l)) hfilter

/-! ### Names are distinct and recovered -/

/-- The table names of distinct partitions are distinct ignoring case. -/
theorem nodup_lower_partitionTables {bases : List Name} (h : (bases.map lower).Nodup) :
    ((bases.flatMap partitionTables).map lower).Nodup := by
  have hmem : ∀ {b x : Name}, x ∈ (partitionTables b).map lower →
      ∃ s : Name, s.length = 7 ∧ x = lower b ++ s := by
    intro b x hx
    obtain ⟨t, ht, rfl⟩ := List.mem_map.mp hx
    have : ∃ s : Name, s.length = 7 ∧ t = b ++ s := by
      unfold partitionTables at ht
      rcases List.mem_cons.mp ht with rfl | ht
      · exact ⟨_, by decide, rfl⟩
      · rcases List.mem_cons.mp ht with rfl | ht
        · exact ⟨_, by decide, rfl⟩
        · exact ⟨_, by decide, List.mem_singleton.mp ht⟩
    obtain ⟨s, hs, rfl⟩ := this
    exact ⟨lower s, by simpa [lower] using hs, lower_append b s⟩
  rw [List.map_flatMap, List.nodup_flatMap]
  constructor
  · intro b _
    have hmap : (partitionTables b).map lower =
        [lower arraysSuffix, lower valuesSuffix, lower seriesSuffix].map (lower b ++ ·) := by
      simp [partitionTables, lower_append]
    rw [hmap]
    exact List.Nodup.map (fun x y e => List.append_cancel_left e) (by decide)
  · refine (List.pairwise_map.mp h).imp fun hne => ?_
    intro x hx hx'
    obtain ⟨s, hs, rfl⟩ := hmem hx
    obtain ⟨s', hs', e⟩ := hmem hx'
    exact hne (List.append_inj' e (hs.trans hs'.symm)).1

/-- What the names of exports are for: stems and tables are distinct ignoring case and the same on every
run, and listing a prefix answers the partitions its own export wrote. -/
structure NamesHold (keys : List PartitionKey) (exports : List (Name × List PartitionKey))
    (db : Database) (what : String) : Prop where
  stems : ∃ stems, disambiguate keys.length keys = some stems ∧ stems.map Prod.fst = sortedKeys keys ∧
    (stems.map fun p => lower p.2).Nodup ∧
    ∀ keys' more, (∀ key, key ∈ keys' ↔ key ∈ keys) → keys.length ≤ more →
      disambiguate more keys' = some stems
  tables : ∀ e ∈ exports, ∃ bases, tableBases e.2.length e.1 (sortedKeys e.2) = some bases ∧
    bases.map Prod.fst = sortedKeys e.2 ∧
    (((bases.map Prod.snd).flatMap partitionTables).map lower).Nodup ∧
    ∀ keys' more, (∀ key, key ∈ keys' ↔ key ∈ e.2) → e.2.length ≤ more →
      tableBases more e.1 (sortedKeys keys') = some bases
  listing : ∀ e ∈ exports, partitionBases db e.1 what =
    .ok ((basesOf e.1 e.2).insertionSort (· ≤ ·))

theorem tables_hold (pre : Name) (keys : List PartitionKey) :
    ∃ bases, tableBases keys.length pre (sortedKeys keys) = some bases ∧
      bases.map Prod.fst = sortedKeys keys ∧
      (((bases.map Prod.snd).flatMap partitionTables).map lower).Nodup ∧
      ∀ keys' more, (∀ key, key ∈ keys' ↔ key ∈ keys) → keys.length ≤ more →
        tableBases more pre (sortedKeys keys') = some bases := by
  have hlen := length_sortedKeys_le keys
  obtain ⟨bases, hbases, hkeys, hnodup, -, hmore⟩ := tableBases_spec pre (sortedKeys keys) hlen
  refine ⟨bases, hbases, hkeys, nodup_lower_partitionTables ?_, fun keys' more hsame hle => ?_⟩
  · rw [List.map_map]
    exact hnodup
  · rw [sortedKeys_congr hsame]
    exact hmore more (hlen.trans hle)

theorem not_straddles_self (pre b : Name) : ¬ Straddles pre pre b := by
  rintro ⟨s, rest, -, hs, hlow, -⟩
  have := congrArg List.length hlow
  simp only [lower, List.length_map, List.length_append] at this
  exact hs (List.length_eq_zero_iff.mp (by omega))

section Listing

variable {exports : List (Name × List PartitionKey)} {db : Database}

/-- A listing answers a prefix's own partitions exactly when no other export's partition belongs to the
prefix. -/
theorem listing_iff {e : Name × List PartitionKey} {before after : List (Name × List PartitionKey)}
    (hdb : exportAll [] (before ++ e :: after) = .ok db) (what : String) :
    partitionBases db e.1 what = .ok ((basesOf e.1 e.2).insertionSort (· ≤ ·)) ↔
      ∀ e' ∈ before ++ after, ∀ b ∈ basesOf e'.1 e'.2, belongs e.1 b = false := by
  have hself : (basesOf e.1 e.2).filter (belongs e.1) = basesOf e.1 e.2 :=
    List.filter_eq_self.mpr fun b hb => belongs_self hb
  rw [partitionBases_exportAll hdb, List.flatMap_append, List.flatMap_cons, List.filter_append,
    List.filter_append, hself]
  have hnil : ∀ l : List (Name × List PartitionKey),
      (l.flatMap fun e => basesOf e.1 e.2).filter (belongs e.1) = [] ↔
        ∀ e' ∈ l, ∀ b ∈ basesOf e'.1 e'.2, belongs e.1 b = false := by
    intro l
    simp only [List.filter_eq_nil_iff, List.mem_flatMap, Bool.not_eq_true]
    constructor
    · exact fun h e' he' b hb => h b ⟨e', he', hb⟩
    · rintro h b ⟨e', he', hb⟩
      exact h e' he' b hb
  constructor
  · intro h
    have hlen := congrArg List.length (Except.ok.inj h)
    simp only [List.length_insertionSort, List.length_append] at hlen
    have hbefore := (hnil before).mp (List.length_eq_zero_iff.mp (by omega))
    have hafter := (hnil after).mp (List.length_eq_zero_iff.mp (by omega))
    intro e' he'
    rcases List.mem_append.mp he' with he' | he'
    · exact hbefore e' he'
    · exact hafter e' he'
  · intro h
    rw [(hnil before).mpr fun e' he' => h e' (List.mem_append_left _ he'),
      (hnil after).mpr fun e' he' => h e' (List.mem_append_right _ he'), List.nil_append,
      List.append_nil]

/-- **Partition names.**  On a database of exports under prefixes distinct ignoring case, names do what
they are for exactly when no table name straddles a prefix; and none does where no prefix spells a
type's name in any case. -/
theorem partitionNames_exact (keys : List PartitionKey) (what : String)
    (hdb : exportAll [] exports = .ok db)
    (hdistinct : exports.Pairwise fun a b => lower a.1 ≠ lower b.1) :
    (NamesHold keys exports db what ↔
      ∀ e ∈ exports, ∀ e' ∈ exports, ∀ b ∈ basesOf e'.1 e'.2, ¬ Straddles e.1 e'.1 b) ∧
    ((∀ e ∈ exports, ¬ SpellsType e.1) → NamesHold keys exports db what) := by
  have hcheck := (tables_exportAll hdb).1
  have hlisting : (∀ e ∈ exports, partitionBases db e.1 what =
      .ok ((basesOf e.1 e.2).insertionSort (· ≤ ·))) ↔
        ∀ e ∈ exports, ∀ e' ∈ exports, ∀ b ∈ basesOf e'.1 e'.2, ¬ Straddles e.1 e'.1 b := by
    refine forall₂_congr fun e he => ?_
    obtain ⟨before, after, rfl⟩ := List.append_of_mem he
    have hne : ∀ e' ∈ before ++ after, lower e.1 ≠ lower e'.1 := by
      intro e' he'
      obtain ⟨-, hafter, hbefore⟩ := List.pairwise_append.mp hdistinct
      rcases List.mem_append.mp he' with he' | he'
      · exact (hbefore e' he' e List.mem_cons_self).symm
      · exact (List.pairwise_cons.mp hafter).1 e' he'
    rw [listing_iff hdb]
    constructor
    · intro h e' he' b hb
      rcases List.mem_append.mp he' with hm | hm
      · have hmem := List.mem_append_left after hm
        rw [← belongs_other_iff (hcheck e he) (hcheck e' he') (hne e' hmem) hb, h e' hmem b hb]
        decide
      · rcases List.mem_cons.mp hm with rfl | hm
        · exact not_straddles_self _ _
        · have hmem := List.mem_append_right before hm
          rw [← belongs_other_iff (hcheck e he) (hcheck e' he') (hne e' hmem) hb, h e' hmem b hb]
          decide
    · intro h e' hmem b hb
      have he' : e' ∈ before ++ e :: after := by
        rcases List.mem_append.mp hmem with hm | hm
        · exact List.mem_append_left _ hm
        · exact List.mem_append_right _ (List.mem_cons_of_mem _ hm)
      rw [← Bool.not_eq_true, belongs_other_iff (hcheck e he) (hcheck e' he') (hne e' hmem) hb]
      exact h e' he' b hb
  have hnames : NamesHold keys exports db what ↔
      ∀ e ∈ exports, ∀ e' ∈ exports, ∀ b ∈ basesOf e'.1 e'.2, ¬ Straddles e.1 e'.1 b :=
    ⟨fun h => hlisting.mp h.listing, fun h => ⟨disambiguate_spec keys le_rfl,
      fun e _ => tables_hold e.1 e.2, hlisting.mpr h⟩⟩
  refine ⟨hnames, fun h => hnames.mpr fun e he e' he' b hb hst => h e he ?_⟩
  exact spellsType_of_straddles (hcheck e he) (hcheck e' he') hb hst

end Listing

/-! ### A name that straddles a prefix -/

namespace Sample

def utcKey : PartitionKey := ⟨.singleTimeSeries, .dense .f64 [], some .utc⟩

/-- A zone whose name spells a type. -/
def zoneKey : PartitionKey := ⟨.singleTimeSeries, .dense .f64 [], some (.zone "Deterministic/x")⟩

/-- An export without a prefix and one whose prefix spells a type in lower case. -/
def straddling : List (Name × List PartitionKey) :=
  [([], [zoneKey]), ("singletimeseries_f64_".toList, [utcKey])]

def plain : List (Name × List PartitionKey) := [([], [zoneKey]), ("run_".toList, [utcKey])]

/-- The names a database of exports holds. -/
def database (exports : List (Name × List PartitionKey)) : Database :=
  ((exportAll [] exports).toOption).getD []

theorem exportAll_straddling : exportAll [] straddling = .ok (database straddling) := by
  decide +kernel

theorem exportAll_plain : exportAll [] plain = .ok (database plain) := by
  decide +kernel

theorem straddling_listed :
    exportAll [] straddling = .ok (database straddling) ∧
      ¬ NamesHold [] straddling (database straddling) "the database" := by
  refine ⟨exportAll_straddling, fun h => ?_⟩
  have hlist := h.listing ("singletimeseries_f64_".toList, [utcKey]) (by simp [straddling])
  have hread : partitionBases (database straddling) "singletimeseries_f64_".toList "the database" =
      .ok ["SingleTimeSeries_f64_Deterministic_x".toList,
        "singletimeseries_f64_SingleTimeSeries_f64_utc".toList] := by decide +kernel
  rw [hread] at hlist
  exact absurd (congrArg List.length (Except.ok.inj hlist)) (by decide +kernel)

theorem partitionNames_exact_plain :
    NamesHold [utcKey, zoneKey] plain (database plain) "the database" := by
  refine (partitionNames_exact _ _ exportAll_plain (by decide +kernel)).2 ?_
  have hplain : plain.all (fun e => (e.1.dropLast.splitOn '_').all fun seg =>
      typeNames.all fun t => lower seg ≠ lower t) = true := by decide +kernel
  intro e he hspell
  obtain ⟨seg, hseg, t, ht, hlow⟩ := hspell
  have h₁ := List.all_eq_true.mp (List.all_eq_true.mp hplain e he) seg hseg
  exact of_decide_eq_true (List.all_eq_true.mp h₁ t ht) hlow

end Sample

end InfraStore.Tabular
