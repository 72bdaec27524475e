import InfraStore.Cli.DebugText
import InfraStore.Cli.Stems
import InfraStore.ContentHash
import InfraStore.Identity
import InfraStore.Provenance
import InfraStore.ReadPath

/-!
# Comparing two stores

The `diff` command pairs the series of two stores by a text that spells out the whole identity, and
compares the content hashes of each pair.  No array is read.

* `identityKey`: the text a series is paired by;
* `load`, `compareStores`: the series of a store by that text, and the lines of the report;
* `identityKey_tells`: equal texts are of equal identities, of features the catalog can hold;
* `clean_diff`: where no line reports a difference, the selections pair up one to one, and each pair
  names one array that both stores hold.
-/

namespace InfraStore.Cli

open Lib
open Tabular (Name F64Debug)

/-- A hash as the bytes it is of. -/
class HashBytes (H : Type) where
  bytes : H → List UInt8

/-- A hash is its bytes. -/
class LawfulHashBytes (H : Type) [HashBytes H] : Prop where
  injective : Function.Injective (HashBytes.bytes (H := H))

/-! ### The command -/

section

variable {H : Type} [DecidableEq H] [DebugTables] [F64Debug] [FloatText] [HashBytes H]

/-- A hash in hexadecimal digits. -/
def hashHex (h : H) : Name :=
  (HashBytes.bytes h).flatMap fun b => [Nat.digitChar (b.toNat / 16), Nat.digitChar (b.toNat % 16)]

/-- The text two series are paired on. -/
def identityKey (m : TimeSeriesMetadata H) : Name :=
  ['('] ++ debugInt m.ownerId ++ [',', ' '] ++ debugCategory m.ownerCategory ++ [',', ' '] ++
    debugType m.timeSeriesType ++ [',', ' '] ++ debugStr m.name ++ [',', ' '] ++
    debugOption m.resolution ++ [',', ' '] ++ debugOption m.interval ++ [',', ' '] ++
    debugFeatures m.features ++ [')']

/-- A feature map as text. -/
def featuresStr (f : Features) : String :=
  if f.entries = [] then "-"
  else ",".intercalate (f.entries.map fun e => e.1 ++ "=" ++ featureValueStr e.2)

/-- A period that may be absent, as text. -/
def opt (p : Option Period) : String := (p.map Period.toIso8601).getD "-"

/-- The text a series is reported by. -/
def describe (m : TimeSeriesMetadata H) : String :=
  s!"owner={m.ownerId} category={m.ownerCategory.asStr} type={m.timeSeriesType.asStr} name={m.name} resolution={opt m.resolution} interval={opt m.interval} features={featuresStr m.features}"

/-- What was found of an identity. -/
inductive Status where
  | added
  | removed
  | changed
  | same
  deriving DecidableEq, Repr

/-- One line of the report. -/
structure Row where
  identity : Name
  rendered : String
  status : Status
  left : Option Name
  right : Option Name
  deriving DecidableEq

/-- The series of a store by the text of their identity, each with its hash. -/
abbrev LoadedRows (H : Type) : Type := FMap Name (TimeSeriesMetadata H × Name)

/-- The series of a listing, by the text of their identity. -/
def loadRows (rows : List (TimeSeriesMetadata H)) : LoadedRows H :=
  rows.foldl (fun out m => out.insert (identityKey m) (m, hashHex m.dataHash)) ∅

/-- The line of a series of the left store. -/
def leftRow (right : LoadedRows H) (id : Name) (entry : TimeSeriesMetadata H × Name) : Row :=
  let found := (FMap.get right id).map Prod.snd
  { identity := id, rendered := describe entry.1, left := some entry.2, right := found
    status := match found with
      | none => .removed
      | some other => if other = entry.2 then .same else .changed }

/-- The line of a series that only the right store has. -/
def rightRow (id : Name) (entry : TimeSeriesMetadata H × Name) : Row :=
  { identity := id, rendered := describe entry.1, left := none, right := some entry.2, status := .added }

/-- The lines of the report, by what they say and then by identity. -/
def compareStores (left right : LoadedRows H) : List Row :=
  let rows := left.entries.map (fun e => leftRow right e.1 e.2) ++
    (right.entries.filter fun e => (FMap.get left e.1).isNone).map fun e => rightRow e.1 e.2
  rows.insertionSort fun a b => a.rendered < b.rendered ∨ a.rendered = b.rendered ∧ a.identity ≤ b.identity

variable [Sha256 H] [Glob] [ToString H] {B : Type} [ArrayBackend H B]

/-- The series of a store that a selector picks. -/
def load (s : Store H B) (filter : ListFilter) : Result (LoadedRows H) :=
  (s.db.listFilter none filter.toFilter).map loadRows

/-- The lines of the report on two stores. -/
def diff (left right : Store H B) (filter : ListFilter) : Result (List Row) := do
  let l ← load left filter
  let r ← load right filter
  pure (compareStores l r)

end

/-! ### What the texts tell -/

section

set_option linter.unusedSectionVars false

variable {H : Type} [DecidableEq H] [DebugTables] [F64Debug] [FloatText] [HashBytes H]

/-- The digits of a hash tell the hash. -/
theorem hashHex_injective [LawfulHashBytes H] : Function.Injective (hashHex (H := H)) := by
  have hchar : ∀ i < 16, ∀ j < 16, Nat.digitChar i = Nat.digitChar j → i = j := by decide
  have hcode : Delimited (fun b : UInt8 => [Nat.digitChar (b.toNat / 16), Nat.digitChar (b.toNat % 16)])
      (fun _ => True) (· = ·) := by
    apply Delimited.of_length (n := 2) (fun _ _ => rfl)
    intro b c _ _ h
    obtain ⟨h1, h2⟩ := List.cons.inj h
    have hb := b.toNat_lt
    have hc := c.toNat_lt
    have hhigh := hchar _ (by omega) _ (by omega) h1
    have hlow := hchar _ (Nat.mod_lt _ (by decide)) _ (Nat.mod_lt _ (by decide)) (List.cons.inj h2).1
    exact UInt8.toNat_inj.mp (by omega)
  have hlength : ∀ bs : List UInt8, (bs.flatMap fun b => [Nat.digitChar (b.toNat / 16),
      Nat.digitChar (b.toNat % 16)]).length = 2 * bs.length := by
    intro bs
    induction bs with
    | nil => rfl
    | cons b bs ih =>
      rw [List.flatMap_cons, List.length_append, ih, List.length_cons]
      simp only [List.length_cons, List.length_nil]
      omega
  intro g h heq
  have hlen := congrArg List.length heq
  unfold hashHex at heq hlen
  rw [hlength, hlength] at hlen
  have hall := hcode.flatMap_inj (fun _ _ => trivial) (fun _ _ => trivial) (by omega) heq
  exact LawfulHashBytes.injective (List.forall₂_eq_eq_eq ▸ hall)

/-- The text of an identity, part by part, each of them closed. -/
theorem identityKey_delimited [LawfulF64Debug] :
    Delimited (identityKey (H := H)) (fun _ => True) fun m n =>
      m.ownerId = n.ownerId ∧ m.ownerCategory = n.ownerCategory ∧
      m.timeSeriesType = n.timeSeriesType ∧ m.name = n.name ∧ m.resolution = n.resolution ∧
      m.interval = n.interval ∧ m.features.Alike n.features := by
  have howner := (debugInt_delimited (x := ',') (by decide) (by decide)).comap
    (TimeSeriesMetadata.ownerId (H := H))
  have hcategory := debugCategory_delimited.comap (TimeSeriesMetadata.ownerCategory (H := H))
  have htype := debugType_delimited.comap (TimeSeriesMetadata.timeSeriesType (H := H))
  have hname := debugStr_delimited.comap (TimeSeriesMetadata.name (H := H))
  have hres := debugOption_delimited.comap (TimeSeriesMetadata.resolution (H := H))
  have hint := debugOption_delimited.comap (TimeSeriesMetadata.interval (H := H))
  have hfeatures := debugFeatures_delimited.comap (TimeSeriesMetadata.features (H := H))
  have hcode := ((howner.seq ((hcategory.seq ((htype.seq ((hname.seq ((hres.seq ((hint.seq
    (hfeatures.prepend [',', ' '])).prepend [',', ' '])).prepend [',', ' '])).prepend [' '])).prepend
      [' '])).prepend [' '])).prepend ['(']).postpend [')']
  intro m n r r' _ _ h
  apply hcode m n r r' trivial trivial
  simpa only [identityKey, List.append_assoc, List.cons_append, List.nil_append] using h

/-- Feature maps that are alike are one, where no value is a NaN. -/
theorem alike_eq_of_storable {f g : Features} (h : f.Alike g) (hf : f.Storable) : f = g := by
  have hentries : f.entries = g.entries := by
    unfold Features.Alike at h
    unfold Features.Storable at hf
    generalize f.entries = ds at h hf
    generalize g.entries = es at h
    induction h with
    | nil => rfl
    | @cons d e ds es hde _ ih =>
      rw [ih fun x hx => hf x (List.mem_cons_of_mem d hx)]
      obtain ⟨hkey, hvalue⟩ := hde
      have hd := hf d List.mem_cons_self
      obtain ⟨k, v⟩ := d
      obtain ⟨k', w⟩ := e
      have hvw : v = w := by
        cases v with
        | float v =>
          cases w with
          | float w =>
            cases hvalue with
            | inl hbits => exact congrArg FeatureValue.float (by cases v; cases w; cases hbits; rfl)
            | inr hnan =>
              rw [hd.1] at hnan
              exact absurd hnan.1 (by decide)
          | _ => cases hvalue
        | int v => cases w <;> first | exact congrArg FeatureValue.int hvalue | cases hvalue
        | bool v => cases w <;> first | exact congrArg FeatureValue.bool hvalue | cases hvalue
        | str v => cases w <;> first | exact congrArg FeatureValue.str hvalue | cases hvalue
      rw [show k = k' from hkey, hvw]
  cases f
  cases g
  cases hentries
  rfl

/-- **The pairing key.**  Equal texts are of equal identities, where the features are storable. -/
theorem identityKey_tells [LawfulF64Debug] {m n : TimeSeriesMetadata H} (hm : m.features.Storable) :
    identityKey m = identityKey n ↔ m.keyIdentity = n.keyIdentity := by
  unfold TimeSeriesMetadata.keyIdentity
  rw [KeyIdentity.mk.injEq]
  constructor
  · intro h
    obtain ⟨h1, h2, h3, h4, h5, h6, h7⟩ := identityKey_delimited.inj trivial trivial h
    exact ⟨h1, h2, h3, h4, h5, h6, alike_eq_of_storable h7 hm⟩
  · rintro ⟨h1, h2, h3, h4, h5, h6, h7⟩
    unfold identityKey
    rw [h1, h2, h3, h4, h5, h6, h7]

/-! ### What is loaded -/

/-- What a listing loads is of the listing. -/
theorem get_loadRows {rows : List (TimeSeriesMetadata H)} {k : Name} {x : TimeSeriesMetadata H × Name}
    (h : FMap.get (loadRows rows) k = some x) :
    x.1 ∈ rows ∧ identityKey x.1 = k ∧ x.2 = hashHex x.1.dataHash := by
  have hfold : ∀ (rows : List (TimeSeriesMetadata H)) (out : LoadedRows H),
      FMap.get (rows.foldl (fun out m => out.insert (identityKey m) (m, hashHex m.dataHash)) out) k =
        some x → FMap.get out k = some x ∨
          (x.1 ∈ rows ∧ identityKey x.1 = k ∧ x.2 = hashHex x.1.dataHash) := by
    intro rows
    induction rows with
    | nil => exact fun out h => .inl h
    | cons m rows ih =>
      intro out h
      rw [List.foldl_cons] at h
      cases ih _ h with
      | inl h =>
        rw [FMap.get_insert] at h
        by_cases hk : k = identityKey m
        · rw [hk, Function.update_self] at h
          cases h
          exact .inr ⟨List.mem_cons_self, hk.symm, rfl⟩
        · rw [Function.update_of_ne hk] at h
          exact .inl h
      | inr h => exact .inr ⟨List.mem_cons_of_mem m h.1, h.2⟩
  cases hfold rows ∅ h with
  | inl h =>
    rw [FMap.get_empty] at h
    cases h
  | inr h => exact h

/-- Every series of a listing without two of one text is loaded. -/
theorem get_loadRows_of_mem {rows : List (TimeSeriesMetadata H)}
    (hnodup : (rows.map identityKey).Nodup) {m : TimeSeriesMetadata H} (hm : m ∈ rows) :
    FMap.get (loadRows rows) (identityKey m) = some (m, hashHex m.dataHash) := by
  have hkeep : ∀ (rows : List (TimeSeriesMetadata H)) (out : LoadedRows H),
      identityKey m ∉ rows.map identityKey → FMap.get (rows.foldl (fun out m =>
        out.insert (identityKey m) (m, hashHex m.dataHash)) out) (identityKey m) =
        FMap.get out (identityKey m) := by
    intro rows
    induction rows with
    | nil => exact fun out _ => rfl
    | cons n rows ih =>
      intro out hno
      rw [List.map_cons, List.mem_cons, not_or] at hno
      rw [List.foldl_cons, ih _ hno.2, FMap.get_insert, Function.update_of_ne hno.1]
  have hfold : ∀ (rows : List (TimeSeriesMetadata H)) (out : LoadedRows H),
      (rows.map identityKey).Nodup → m ∈ rows → FMap.get (rows.foldl (fun out m =>
        out.insert (identityKey m) (m, hashHex m.dataHash)) out) (identityKey m) =
        some (m, hashHex m.dataHash) := by
    intro rows
    induction rows with
    | nil => exact fun _ _ h => (List.not_mem_nil h).elim
    | cons n rows ih =>
      intro out hnodup hm
      rw [List.map_cons, List.nodup_cons] at hnodup
      rw [List.foldl_cons]
      cases List.mem_cons.mp hm with
      | inl heq =>
        rw [heq] at hkeep ⊢
        rw [hkeep rows _ hnodup.1, FMap.get_insert, Function.update_self]
      | inr hm => exact ih _ hnodup.2 hm
  exact hfold rows ∅ hnodup hm

/-- Where every line of a report is of a series alike on both sides, each of the left store's texts is
found in the right one with its hash, and each of the right store's in the left one. -/
theorem compareStores_same {left right : LoadedRows H}
    (h : ∀ r ∈ compareStores left right, r.status = .same) :
    (∀ k x, FMap.get left k = some x → ∃ y, FMap.get right k = some y ∧ y.2 = x.2) ∧
    ∀ k y, FMap.get right k = some y → (FMap.get left k).isSome := by
  have hall : ∀ r ∈ left.entries.map (fun e => leftRow right e.1 e.2) ++
      (right.entries.filter fun e => (FMap.get left e.1).isNone).map (fun e => rightRow e.1 e.2),
      r.status = .same := by
    intro r hr
    exact h r ((List.mem_insertionSort _).mpr hr)
  constructor
  · intro k x hx
    have hmem : (⟨k, x⟩ : Sigma fun _ => TimeSeriesMetadata H × Name) ∈ left.entries :=
      AList.mem_lookup_iff.mp hx
    have hrow := hall _ (List.mem_append_left _ (List.mem_map_of_mem hmem))
    unfold leftRow at hrow
    cases hy : FMap.get right k with
    | none =>
      simp only [hy, Option.map_none] at hrow
      cases hrow
    | some y =>
      refine ⟨y, rfl, ?_⟩
      simp only [hy, Option.map_some] at hrow
      by_contra hne
      rw [if_neg hne] at hrow
      cases hrow
  · intro k y hy
    have hmem : (⟨k, y⟩ : Sigma fun _ => TimeSeriesMetadata H × Name) ∈ right.entries :=
      AList.mem_lookup_iff.mp hy
    by_contra hnone
    have hmiss : (FMap.get left k).isNone = true := by
      rw [Option.isNone_iff_eq_none]
      exact Option.not_isSome_iff_eq_none.mp hnone
    have hkept : (⟨k, y⟩ : Sigma fun _ => TimeSeriesMetadata H × Name) ∈
        right.entries.filter fun e => (FMap.get left e.1).isNone := List.mem_filter.mpr ⟨hmem, hmiss⟩
    have hrow := hall _ (List.mem_append_right _ (List.mem_map_of_mem hkept))
    cases hrow

end

/-! ### Full reads -/

/-- What a constructor that checks its argument gives. -/
theorem eq_of_checked {α : Type} {check : Except String Unit} {x : α} {f : α → TimeSeriesData}
    {y : TimeSeriesData} (h : Except.map f (check >>= fun _ => pure x) = .ok y) : y = f x := by
  cases check with
  | error e => cases h
  | ok u =>
    cases h
    rfl

theorem nonSequential_data (ts : List DateTime) (data : TypedArray) (name : String) (x : TimeSeriesData)
    (h : (NonSequentialTimeSeries.new ts data name).map .nonSequential = .ok x) :
    x.fields.data = data := by
  rw [eq_of_checked h]
  rfl

theorem persistent_data (ts : List DateTime) (data : TypedArray) (name : String) (x : TimeSeriesData)
    (h : (PersistentTimeSeries.new ts data name).map .persistent = .ok x) : x.fields.data = data := by
  rw [eq_of_checked h]
  rfl

theorem deterministic_data (f : ForecastFields) (x : TimeSeriesData)
    (h : (Deterministic.new f).map .deterministic = .ok x) : x.fields.data = f.data := by
  rw [eq_of_checked h]
  rfl

theorem probabilistic_data (percentiles : List F64) (f : ForecastFields) (x : TimeSeriesData)
    (h : (Probabilistic.new f percentiles).map .probabilistic = .ok x) : x.fields.data = f.data := by
  rw [eq_of_checked h]
  rfl

theorem scenarios_data (n : ℕ) (f : ForecastFields) (x : TimeSeriesData)
    (h : (Scenarios.new f n).map .scenarios = .ok x) : x.fields.data = f.data := by
  rw [eq_of_checked h]
  rfl

/-- A checked shape has the dimensions it was checked for. -/
theorem validateForecastShape_getD {shape dims : List ℕ} {label : String}
    (h : validateForecastShape shape dims label = .ok ()) {i : ℕ} (hi : i < dims.length) :
    shape.getD i 0 = dims.getD i 0 := by
  unfold validateForecastShape at h
  split at h
  · cases h
  · rename_i hlen
    split at h
    · rename_i hnone
      rw [List.findIdx?_eq_none_iff] at hnone
      have hi' : i < shape.length := by omega
      have hmem : (shape[i], dims[i]) ∈ shape.zip dims := by
        rw [List.mem_iff_getElem]
        exact ⟨i, by rw [List.length_zip]; omega, List.getElem_zip⟩
      have heq := hnone _ hmem
      rw [List.getD_eq_getElem _ _ hi', List.getD_eq_getElem _ _ hi]
      simpa using heq
    · cases h

section

variable {H B : Type} [DecidableEq H] [ToString H] [Sha256 H] [ArrayBackend H B]
  [LawfulArrayBackend H B] [LawfulReads H B]
variable {s : ArrayStore H B} {m : TimeSeriesMetadata H} {a : TypedArray} {d : TimeSeriesData}

/-- The windows of a dense forecast, read in full. -/
theorem materializeForecast_data (hs : s.Valid) (ha : s.content m.dataHash = some a)
    (hd : m.elementType.physicalDtype = a.dtype) {label : String} {countAxis : ℕ} {c : ForecastColumns}
    {axes : ℕ → List ℕ} {new : ForecastFields → Except String TimeSeriesData}
    (haxes : ∀ h, countAxis < (axes h).length ∧ (axes h).getD countAxis 0 = c.count)
    (hnew : ∀ f x, new f = .ok x → x.fields.data = f.data)
    (h : materializeForecast s m none label countAxis a.shape c axes new = .ok d) :
    d.fields.data = a := by
  unfold materializeForecast resolveWindows at h
  simp only [except_bind_eq_ok, mapErr_eq_ok] at h
  obtain ⟨hh, -, _, hshape, windows, hw, data, hdata, hx⟩ := h
  cases hw
  unfold ArrayStore.readForecastWindows at hdata
  obtain ⟨hlt, hcount⟩ := haxes hh
  rw [if_pos ⟨rfl, by rw [validateForecastShape_getD hshape hlt, hcount]⟩, hd,
    ArrayStore.getArray_eq hs ha] at hdata
  cases hdata
  exact hnew _ d hx

/-- An irregular kind, read in full. -/
theorem materializeIrregular_data (hs : s.Valid) (ha : s.content m.dataHash = some a)
    (hd : m.elementType.physicalDtype = a.dtype) {vector : String}
    {select : List DateTime → DateTime → DateTime → Result (ℕ × ℕ)}
    {new : List DateTime → TypedArray → String → Except String TimeSeriesData}
    (hnew : ∀ ts data name x, new ts data name = .ok x → x.fields.data = data)
    (h : materializeIrregular s m none none vector select new = .ok d) : d.fields.data = a := by
  unfold materializeIrregular at h
  simp only [except_bind_eq_ok] at h
  obtain ⟨timestamps, -, length, -, h⟩ := h
  split at h
  · cases h
  · simp only [except_bind_eq_ok, mapErr_eq_ok] at h
    obtain ⟨data, hdata, hx⟩ := h
    rw [hd, ArrayStore.getArray_eq hs ha] at hdata
    cases hdata
    exact hnew _ _ _ _ hx

/-- **Full reads.**  Read in full, a series that is not a view has the array its row names. -/
theorem readWindow_full_data (hs : s.Valid) (ha : s.content m.dataHash = some a)
    (hd : m.elementType.physicalDtype = a.dtype)
    (hview : m.timeSeriesType ≠ .deterministicSingleTimeSeries)
    (h : readWindow s m ReadWindow.full = .ok d) : d.fields.data = a := by
  have hshape : ∀ {shape}, Store.arrayShape s m.dataHash = .ok shape → shape = a.shape := by
    intro shape h
    rw [ArrayStore.arrayShape_eq hs ha] at h
    cases h
    rfl
  unfold readWindow at h
  obtain ⟨range, hrange, h⟩ := except_bind_eq_ok.mp h
  cases hrange
  unfold materializeTimeSeries at h
  cases hx : materializeArray s m none none with
  | error e =>
    rw [hx] at h
    cases h
  | ok x =>
    rw [hx] at h
    cases h
    have hdescribed : (x.mapFields m.describe).fields.data = x.fields.data := by
      cases x <;> rfl
    rw [hdescribed]
    unfold materializeArray checkedBounds at hx
    simp only [except_bind_eq_ok] at hx
    obtain ⟨bounds, hbounds, hx⟩ := hx
    cases hbounds
    cases ht : m.timeSeriesType with
    | singleTimeSeries =>
      rw [ht] at hx
      unfold materializeSingle at hx
      simp only [except_bind_eq_ok] at hx
      obtain ⟨_, -, _, -, _, -, data, hdata, hx⟩ := hx
      rw [hd, ArrayStore.getArray_eq hs ha] at hdata
      cases hdata
      cases hx
      rfl
    | nonSequentialTimeSeries =>
      rw [ht] at hx
      exact materializeIrregular_data hs ha hd nonSequential_data hx
    | persistentTimeSeries =>
      rw [ht] at hx
      exact materializeIrregular_data hs ha hd persistent_data hx
    | deterministic =>
      rw [ht] at hx
      unfold materializeDeterministic at hx
      simp only [except_bind_eq_ok] at hx
      obtain ⟨shape, hs', c, -, hx⟩ := hx
      rw [hshape hs'] at hx
      exact materializeForecast_data hs ha hd (fun h => ⟨Nat.one_lt_two, rfl⟩) deterministic_data hx
    | probabilistic =>
      rw [ht] at hx
      unfold materializeProbabilistic at hx
      simp only [except_bind_eq_ok] at hx
      obtain ⟨shape, hs', c, -, percentiles, -, hx⟩ := hx
      rw [hshape hs'] at hx
      exact materializeForecast_data hs ha hd (fun h => ⟨Nat.lt_succ_self 2, rfl⟩)
        (probabilistic_data percentiles) hx
    | scenarios =>
      rw [ht] at hx
      unfold materializeScenarios at hx
      simp only [except_bind_eq_ok] at hx
      obtain ⟨shape, hs', c, -, _, -, hx⟩ := hx
      rw [hshape hs'] at hx
      split at hx
      · cases hx
      · exact materializeForecast_data hs ha hd (fun h => ⟨Nat.lt_succ_self 2, rfl⟩)
          (scenarios_data _) hx
    | deterministicSingleTimeSeries => exact absurd ht hview

end

/-! ### The pairs of a clean report -/

section

set_option linter.unusedSectionVars false

variable {H B : Type} [DecidableEq H] [ArrayBackend H B] [Sha256 H] [FloatText] [ToString H]
  [LawfulArrayBackend H B] [LawfulReads H B]

/-- A read by id is of a row with that id. -/
theorem readById_ok {s s' : Store H B} {id : ℤ} {owner : Option (ℤ × OwnerCategory)} {w : ReadWindow}
    {d : TimeSeriesData} (h : (Store.readById id owner w).exec s = (.ok d, s')) :
    ∃ r ∈ s.db.rows, ∃ m, r.id = id ∧
      s.db.Hydrated (ArrayBackend.getTimestamps s.arrays.backend) r m ∧
      readWindow s.arrays m w = .ok d := by
  have hwp : (Store.readById id owner w).wp (fun r _ => r = .ok d → ∃ r ∈ s.db.rows, ∃ m, r.id = id ∧
      s.db.Hydrated (ArrayBackend.getTimestamps s.arrays.backend) r m ∧
      readWindow s.arrays m w = .ok d) s := by
    unfold Store.readById
    rw [Cmd.wp_bind, Cmd.wp_get]
    simp only
    rw [Cmd.wp_bind]
    refine Cmd.wp_mono Store.catalogOnly_query fun found t ht => ?_
    obtain ⟨-, -, houtcome⟩ := ht
    cases found with
    | error e => exact fun h => by cases h
    | ok found =>
      obtain ⟨-, -, -, hfound⟩ := houtcome
      cases found with
      | none => exact fun h => by cases h
      | some m =>
        obtain ⟨r, hr, hid, hy⟩ := Catalog.getById_eq_some hfound
        have hread : (Cmd.ofExcept (readWindow s.arrays m w) : StoreCmd (Store H B) TimeSeriesData).wp
            (fun x _ => x = .ok d → ∃ r ∈ s.db.rows, ∃ m, r.id = id ∧
              s.db.Hydrated (ArrayBackend.getTimestamps s.arrays.backend) r m ∧
              readWindow s.arrays m w = .ok d) t := by
          rw [Cmd.wp_ofExcept]
          exact fun h => ⟨r, hr, m, hid, hy, h⟩
        simp only
        cases owner with
        | none => exact hread
        | some o =>
          simp only
          split
          · exact fun h => by cases h
          · exact hread
  exact (Cmd.wp_of_exec h _).mp hwp rfl

/-- Lists read element by element off distinct ones. -/
theorem nodup_map_of_forall₂ {α β γ : Type} {R : α → β → Prop} {f : β → γ} {as : List α} {bs : List β}
    (h : List.Forall₂ R as bs) (hnodup : as.Nodup)
    (hinj : ∀ a ∈ as, ∀ b ∈ as, ∀ x y, R a x → R b y → f x = f y → a = b) : (bs.map f).Nodup := by
  induction h with
  | nil => exact List.nodup_nil
  | @cons a x as bs hax hrest ih =>
    rw [List.nodup_cons] at hnodup
    rw [List.map_cons, List.nodup_cons]
    constructor
    · intro hmem
      obtain ⟨y, hy, hfy⟩ := List.mem_map.mp hmem
      obtain ⟨b, hb, hby⟩ := Catalog.forall₂_mem_right hrest hy
      have hab := hinj a List.mem_cons_self b (List.mem_cons_of_mem a hb) x y hax hby hfy.symm
      exact hnodup.1 (hab ▸ hb)
    · exact ih hnodup.2 fun b hb c hc =>
        hinj b (List.mem_cons_of_mem a hb) c (List.mem_cons_of_mem a hc)

variable [DebugTables] [F64Debug] [LawfulF64Debug] [HashBytes H] [LawfulHashBytes H] [Glob]

/-- A listed record: its features are storable, and the rest of it is parsed from a row, but for the
time axis. -/
structure ListedFrom (s : Store H B) (m : TimeSeriesMetadata H) : Prop where
  storable : m.features.Storable
  row : ∃ r ∈ s.db.rows, m.dataHash = r.dataHash ∧
    r.parse = .ok { m with features := Features.empty, timestamps := none }

/-- **A selection.**  No two of its series share a pairing key. -/
theorem listed {U : Set Features} (hU : Set.InjOn (featuresHash (H := H)) U)
    (hempty : Features.empty ∈ U) (hs : ∀ f ∈ U, f.Storable) {s : Store H B}
    (h : s.ReachableBy (Store.SetTurn U)) {filter : MetadataFilter H} {ms : List (TimeSeriesMetadata H)}
    (hlist : s.db.listFilter none filter = .ok ms) :
    (ms.map identityKey).Nodup ∧ ∀ m ∈ ms, ListedFrom s m := by
  have hinterned : s.db.Interned U := (h.steady hU hempty hs).interned _ List.mem_cons_self
  have hspelt := h.reachable.spelt
  obtain ⟨ms₀, hread, rfl⟩ := Catalog.list_unhydrated_ok hlist
  have hstorable : ∀ {r m}, r ∈ s.db.rows → s.db.Hydrated (fun _ => .ok []) r m → m.features.Storable := by
    intro r m hr hm
    obtain ⟨f, hf, hfeatures, -⟩ := hinterned.rowFeatures hU hempty hs hr
    rw [hm.features] at hfeatures
    cases hfeatures
    exact hs _ hf
  constructor
  · -- the time axes that were left out are in no key
    have hkeys : ∀ l : List (TimeSeriesMetadata H),
        (l.map fun m => { m with timestamps := none }).map identityKey = l.map identityKey := by
      intro l
      rw [List.map_map]
      rfl
    rw [hkeys]
    have hnodup : (ms₀.map identityKey).Nodup := by
      apply nodup_map_of_forall₂ hread
      · exact (s.db.ordered.imp fun h => fun e => (ne_of_lt h) (congrArg AssociationRow.id e)).filter _
      · intro a ha b hb m n hm hn heq
        have ha' := (List.mem_filter.mp ha).1
        have hb' := (List.mem_filter.mp hb).1
        exact hinterned.eq_of_keyIdentity hU hempty hs ha' hb' ⟨hspelt a ha', hspelt b hb'⟩ hm hn
          ((identityKey_tells (hstorable ha' hm)).mp heq)
    exact hnodup.sublist (List.filter_sublist.map identityKey)
  · intro m hm
    obtain ⟨m₀, hm₀, rfl⟩ := List.mem_map.mp hm
    obtain ⟨r, hr, hy⟩ := Catalog.forall₂_mem_right hread (List.mem_filter.mp hm₀).1
    have hr' := (List.mem_filter.mp hr).1
    exact ⟨show m₀.features.Storable from hstorable hr' hy, r, hr', hy.series.1, hy.parse⟩

/-- The turns of a run on feature maps of one set and arrays of another. -/
def DiffTurn (U : Set Features) (V : Set TypedArray) (s : Store H B) (t : Turn H) : Prop :=
  Store.SetTurn U s t ∧ ∀ a ∈ t.op.arrays, a ∈ V

/-- What a run holds are the arrays it was given. -/
theorem held_mem {U : Set Features} {V : Set TypedArray} {s : Store H B}
    (h : s.ReachableBy (DiffTurn U V)) : Store.Admits (fun _ a => a ∈ V) (fun _ _ => True) s.arrays := by
  induction h with
  | @create b valid noArray noVector =>
    refine ⟨(Store.inv_create (H := H) valid noArray noVector).valid, fun {x a} hx => ?_, fun _ => trivial⟩
    rw [Store.content_create noArray] at hx
    cases hx
  | turn t hr ht ih =>
    exact Store.turn_admits hr.reachable.inv ih t ht.2 fun _ _ _ => trivial

/-- A full read of a listed series that is not a view has the array its row names, where the row reads
it as what it is. -/
theorem ListedFrom.read {s t : Store H B} {m : TimeSeriesMetadata H} (h : ListedFrom s m)
    (hs : s.arrays.Valid) {a : TypedArray} (ha : s.arrays.content m.dataHash = some a)
    (hd : m.elementType.physicalDtype = a.dtype)
    (hview : m.timeSeriesType ≠ .deterministicSingleTimeSeries) {i : ℤ} (hi : m.id = some i)
    {owner : Option (ℤ × OwnerCategory)} {d : TimeSeriesData}
    (hread : (Store.readById i owner ReadWindow.full).exec s = (.ok d, t)) : d.fields.data = a := by
  obtain ⟨r, hr, -, hparse⟩ := h.row
  obtain ⟨r', hr', m', hid, hy, hw⟩ := readById_ok hread
  have hrow : r.id = i := Option.some.inj ((Catalog.parse_id hparse).symm.trans hi)
  have hids : (s.db.rows.map (·.id)).Nodup := List.pairwise_map.mpr (s.db.ordered.imp ne_of_lt)
  rw [List.inj_on_of_nodup_map hids hr' hr (hid.trans hrow.symm)] at hy
  have hsame := hparse.symm.trans hy.parse
  have hmeta := Except.ok.inj hsame
  have htype := congrArg TimeSeriesMetadata.timeSeriesType hmeta
  have helement := congrArg TimeSeriesMetadata.elementType hmeta
  have hhash := congrArg TimeSeriesMetadata.dataHash hmeta
  simp only at htype helement hhash
  rw [hhash] at ha
  rw [helement] at hd
  rw [htype] at hview
  exact readWindow_full_data hs ha hd hview hw

/-- **A clean report.**  In stores of runs on storable feature maps, no two of which share a hash, and on
arrays no two of which collide: where every line is of a series that is the same on both sides, the two
selections pair up one to one by identity, no two series of a store share a pairing key, and the series
of a pair name one hash, under which each store holds an array alike to the other's.  A full read of a
series that is not a view, whose row reads its array as what it is, has that array. -/
theorem clean_diff {U : Set Features} (hU : Set.InjOn (featuresHash (H := H)) U)
    (hempty : Features.empty ∈ U) (hs : ∀ f ∈ U, f.Storable) {V : Set TypedArray}
    (hV : NoCollision H V) {s s' : Store H B} (h : s.ReachableBy (DiffTurn U V))
    (h' : s'.ReachableBy (DiffTurn U V)) {filter : ListFilter} {rows : List Row}
    (hdiff : diff s s' filter = .ok rows) (hclean : ∀ r ∈ rows, r.status = .same) :
    ∃ ms ns, s.db.listFilter none filter.toFilter = .ok ms ∧
      s'.db.listFilter none filter.toFilter = .ok ns ∧
      (ms.map identityKey).Nodup ∧ (ns.map identityKey).Nodup ∧
      (ms.map (·.keyIdentity)).Perm (ns.map (·.keyIdentity)) ∧
      ∀ m ∈ ms, ∀ n ∈ ns, m.keyIdentity = n.keyIdentity → m.dataHash = n.dataHash ∧
        ∃ a b, s.arrays.content m.dataHash = some a ∧ s'.arrays.content n.dataHash = some b ∧
          a.Alike b ∧
          (∀ i d t, m.id = some i → m.timeSeriesType ≠ .deterministicSingleTimeSeries →
            m.elementType.physicalDtype = a.dtype →
            (Store.readById i none ReadWindow.full).exec s = (.ok d, t) → d.fields.data = a) ∧
          ∀ j d t, n.id = some j → n.timeSeriesType ≠ .deterministicSingleTimeSeries →
            n.elementType.physicalDtype = b.dtype →
            (Store.readById j none ReadWindow.full).exec s' = (.ok d, t) → d.fields.data = b := by
  unfold diff load at hdiff
  cases hms : s.db.listFilter none filter.toFilter with
  | error e =>
    rw [hms] at hdiff
    cases hdiff
  | ok ms =>
    cases hns : s'.db.listFilter none filter.toFilter with
    | error e =>
      rw [hms, hns] at hdiff
      cases hdiff
    | ok ns =>
      rw [hms, hns] at hdiff
      cases hdiff
      obtain ⟨hkeys, hlisted⟩ := listed hU hempty hs (h.mono fun _ _ ht => ht.1) hms
      obtain ⟨hkeys', hlisted'⟩ := listed hU hempty hs (h'.mono fun _ _ ht => ht.1) hns
      obtain ⟨hleft, hright⟩ := compareStores_same hclean
      -- a series of either side has one of its key on the other
      have hforth : ∀ m ∈ ms, ∃ n ∈ ns, m.keyIdentity = n.keyIdentity ∧ m.dataHash = n.dataHash := by
        intro m hm
        obtain ⟨y, hy, hhash⟩ := hleft _ _ (get_loadRows_of_mem hkeys hm)
        obtain ⟨hn, hkey, hhex⟩ := get_loadRows hy
        exact ⟨y.1, hn, (identityKey_tells (hlisted m hm).storable).mp hkey.symm,
          hashHex_injective (hhash.symm.trans hhex)⟩
      have hback : ∀ n ∈ ns, ∃ m ∈ ms, m.keyIdentity = n.keyIdentity := by
        intro n hn
        obtain ⟨x, hx⟩ := Option.isSome_iff_exists.mp (hright _ _ (get_loadRows_of_mem hkeys' hn))
        obtain ⟨hm, hkey, -⟩ := get_loadRows hx
        exact ⟨x.1, hm, (identityKey_tells (hlisted _ hm).storable).mp hkey⟩
      -- the key is a text of the identity, so distinct keys are of distinct identities
      have hnodup : ∀ {l : List (TimeSeriesMetadata H)}, (l.map identityKey).Nodup →
          (∀ m ∈ l, m.features.Storable) → (l.map (·.keyIdentity)).Nodup := by
        intro l hl hstorable
        apply List.Nodup.map_on _ (List.Nodup.of_map _ hl)
        intro m hm n hn heq
        exact List.inj_on_of_nodup_map hl hm hn ((identityKey_tells (hstorable m hm)).mpr heq)
      have hids := hnodup hkeys fun m hm => (hlisted m hm).storable
      have hids' := hnodup hkeys' fun n hn => (hlisted' n hn).storable
      refine ⟨ms, ns, rfl, rfl, hkeys, hkeys', ?_, ?_⟩
      · rw [List.perm_ext_iff_of_nodup hids hids']
        intro k
        constructor
        · intro hk
          obtain ⟨m, hm, rfl⟩ := List.mem_map.mp hk
          obtain ⟨n, hn, heq, -⟩ := hforth m hm
          exact List.mem_map.mpr ⟨n, hn, heq.symm⟩
        · intro hk
          obtain ⟨n, hn, rfl⟩ := List.mem_map.mp hk
          obtain ⟨m, hm, heq⟩ := hback n hn
          exact List.mem_map.mpr ⟨m, hm, heq⟩
      · intro m hm n hn heq
        obtain ⟨n', hn', heq', hhash⟩ := hforth m hm
        have hnn : n' = n := List.inj_on_of_nodup_map hids' hn' hn (heq'.symm.trans heq)
        rw [hnn] at hhash
        have hinv := h.reachable.inv
        have hinv' := h'.reachable.inv
        obtain ⟨r, hr, hrhash, -⟩ := (hlisted m hm).row
        obtain ⟨r', hr', hrhash', -⟩ := (hlisted' n hn).row
        obtain ⟨a, ha⟩ := Option.isSome_iff_exists.mp (hinv.holds.array ⟨r, hr, rfl⟩)
        obtain ⟨b, hb⟩ := Option.isSome_iff_exists.mp (hinv'.holds.array ⟨r', hr', rfl⟩)
        rw [← hrhash] at ha
        rw [← hrhash'] at hb
        have haV := (held_mem h).allowed ha
        have hbV := (held_mem h').allowed hb
        obtain ⟨hfa, hsa⟩ := hinv.faithful ha
        obtain ⟨hfb, hsb⟩ := hinv'.faithful hb
        have hstream := hV.apart a haV b hbV ((hfa.trans hhash).trans hfb.symm)
        refine ⟨hhash, a, b, ha, hb, ?_, ?_, ?_⟩
        · exact (arrayStream_eq_iff hsa.1 hsb.1 (hV.sized a haV) (hV.sized b hbV)).mp hstream
        · intro i d t hi hview hdtype hread
          exact (hlisted m hm).read hinv.valid ha hdtype hview hi hread
        · intro j d t hj hview hdtype hread
          exact (hlisted' n hn).read hinv'.valid hb hdtype hview hj hread

end

end InfraStore.Cli

namespace InfraStore.Store.Sample

open Cli Lib
open Tabular (F64Debug)

scoped instance : DebugTables := ⟨fun c => c.toNat < 32⟩

scoped instance : F64Debug := ⟨fun v => toString v.bits.toNat⟩

scoped instance : LawfulF64Debug where
  tells := by
    intro v w h
    left
    have hdigits : Nat.toDigits 10 v.bits.toNat = Nat.toDigits 10 w.bits.toNat := by
      rw [← Nat.toList_repr, ← Nat.toList_repr]
      exact congrArg String.toList h
    exact UInt64.toNat_inj.mp (Tabular.toDigits_injective hdigits)
  unclosed := by
    intro v h
    have hmem : ')' ∈ Nat.toDigits 10 v.bits.toNat := by
      simpa [F64Debug.debug, Nat.toString_eq_ofList_toDigits] using h
    exact absurd (Period.isDigit_toDigits hmem) (by decide)

scoped instance : HashBytes Digest := ⟨id⟩

scoped instance : LawfulHashBytes Digest := ⟨fun _ _ h => h⟩

/-- The series of an owner, a day later. -/
def nextDay (ownerId : ℤ) (value : UInt8) : AddRequest :=
  let item := request ownerId value
  match item.data with
  | .single ss => { item with data := .single { ss with initialTimestamp := ⟨86400, 0, by decide⟩ } }
  | _ => item

/-- A store of one series. -/
def oneSeries (item : AddRequest) : Store Digest (MemoryBackend Digest) :=
  after [⟨.addRequests [item], []⟩]

/-- The instant a full read of a series starts at. -/
def startOf (s : Store Digest (MemoryBackend Digest)) (id : ℤ) : Option DateTime :=
  match ((readById id none ReadWindow.full).exec s).1 with
  | .ok (.single ss) => some ss.initialTimestamp
  | _ => none

/-- The report on them is clean. -/
theorem oneSeries_clean :
    ∃ rows, diff (oneSeries (request 1 7)) (oneSeries (nextDay 1 7)) {} = .ok rows ∧
      rows ≠ [] ∧ ∀ r ∈ rows, r.status = .same := by
  have hsame : ((diff (oneSeries (request 1 7)) (oneSeries (nextDay 1 7)) {}).toOption.any fun rows =>
      !rows.isEmpty && rows.all fun r => r.status = .same) = true := by decide +kernel
  obtain ⟨rows, hrows, hall⟩ := (Option.any_eq_true _ _).mp hsame
  rw [Bool.and_eq_true, List.all_eq_true] at hall
  refine ⟨rows, ?_, ?_, fun r hr => of_decide_eq_true (hall.2 r hr)⟩
  · cases hdiff : diff (oneSeries (request 1 7)) (oneSeries (nextDay 1 7)) {} with
    | error e =>
      rw [hdiff] at hrows
      cases hrows
    | ok rows' =>
      rw [hdiff] at hrows
      exact congrArg Except.ok (Option.some.inj hrows)
  · rintro rfl
    cases hall.1

/-- A clean report of two stores whose one series starts on another day: the reads differ. -/
theorem clean_diff_other_day :
    (oneSeries (request 1 7)).Reachable ∧ (oneSeries (nextDay 1 7)).Reachable ∧
    (∃ rows, diff (oneSeries (request 1 7)) (oneSeries (nextDay 1 7)) {} = .ok rows ∧
      rows ≠ [] ∧ ∀ r ∈ rows, r.status = .same) ∧
    startOf (oneSeries (request 1 7)) 1 ≠ startOf (oneSeries (nextDay 1 7)) 1 :=
  ⟨after_reachable _, after_reachable _, oneSeries_clean, by decide +kernel⟩

/-- The feature maps of the run, and its arrays. -/
theorem oneSeries_diffable (item : AddRequest) (hitem : item.features = Features.empty)
    {V : Set TypedArray} (hdata : item.data.fields.data ∈ V) :
    (oneSeries item).ReachableBy (DiffTurn {Features.empty} V) := by
  have hempty : empty.ReachableBy (DiffTurn {Features.empty} V) :=
    .create trivial (fun _ => FMap.get_empty _) fun _ => FMap.get_empty _
  refine hempty.turn ⟨.addRequests [item], []⟩
    ⟨⟨fun i hi _ => ?_, fun h => by cases h.1⟩, fun a ha => ?_⟩
  · rw [List.mem_singleton.mp hi, hitem]
    exact Set.mem_singleton _
  · rw [List.mem_singleton.mp ha]
    exact hdata

/-- The two stores of one series each name one array, which both hold. -/
theorem clean_diff_one_series :
    ∃ ms ns, (oneSeries (request 1 7)).db.listFilter none (ListFilter.toFilter {}) = .ok ms ∧
      (oneSeries (nextDay 1 7)).db.listFilter none (ListFilter.toFilter {}) = .ok ns ∧
      (ms.map (·.keyIdentity)).Perm (ns.map (·.keyIdentity)) := by
  obtain ⟨rows, hdiff, -, hclean⟩ := oneSeries_clean
  obtain ⟨ms, ns, hms, hns, -, -, hperm, -⟩ := clean_diff (U := {Features.empty})
    (Set.injOn_singleton _ _) (Set.mem_singleton _) (fun f hf => by
      rw [Set.mem_singleton_iff.mp hf]
      exact fun e he => (List.not_mem_nil he).elim)
    (noCollision_single (request 1 7).data.fields.data ⟨by decide, by decide⟩)
    (oneSeries_diffable (request 1 7) rfl rfl) (oneSeries_diffable (nextDay 1 7) rfl rfl) hdiff hclean
  exact ⟨ms, ns, hms, hns, hperm⟩

end InfraStore.Store.Sample
