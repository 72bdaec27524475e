import InfraStore.DescriptorText
import InfraStore.Exclusivity
import InfraStore.Lineage
import InfraStore.Provenance

/-!
# One dtype an array

The rows that name an array each say in their own words what its elements are.  The hash of an array
tells its dtype and its shape; an add checks its words against its own array, a copy and a view repeat
those of a row, and an import says what it likes.

* `arrayStream_geometry`: the stream an array is hashed over tells its dtype and its shape;
* `DescribesHeld`: the condition on a turn, that an import describes the arrays it names;
* `coherent`: in a run whose turns meet it, all the rows of an array read it with the one dtype, and the
  one step width, it was stored with.
-/

namespace InfraStore

open Lib Connection

/-! ### What a hash tells -/

/-- The dimensions of an array are machine integers. -/
structure TypedArray.Sized (a : TypedArray) : Prop where
  rank : a.shape.length < 2 ^ 64
  dims : ∀ d ∈ a.shape, d < 2 ^ 64

theorem leNat_leBytes (n v : ℕ) : leNat (leBytes n v) = v % 256 ^ n := by
  induction n generalizing v with
  | zero =>
    show 0 = v % 1
    omega
  | succ n ih =>
    show (UInt8.ofNat v).toNat + 256 * leNat (leBytes n (v / 256)) = _
    rw [ih, pow_succ, Nat.mul_comm (256 ^ n), Nat.mod_mul, UInt8.toNat_ofNat']

theorem length_leBytes (n v : ℕ) : (leBytes n v).length = n := by
  induction n generalizing v with
  | zero => rfl
  | succ n ih =>
    show (leBytes n (v / 256)).length + 1 = _
    rw [ih]

/-- Eight bytes tell a machine integer. -/
theorem u64Bytes_inj {m n : ℕ} (hm : m < 2 ^ 64) (hn : n < 2 ^ 64) (h : u64Bytes m = u64Bytes n) :
    m = n := by
  have hnat := congrArg leNat h
  unfold u64Bytes at hnat
  rw [leNat_leBytes, leNat_leBytes] at hnat
  omega

theorem length_flatMap_u64Bytes (shape : List ℕ) :
    (shape.flatMap u64Bytes).length = 8 * shape.length := by
  induction shape with
  | nil => rfl
  | cons d ds ih =>
    rw [List.flatMap_cons, List.length_append, ih, List.length_cons]
    show (leBytes 8 d).length + _ = _
    rw [length_leBytes]
    omega

theorem flatMap_u64Bytes_inj {shape : List ℕ} : ∀ {shape' : List ℕ}, (∀ d ∈ shape, d < 2 ^ 64) →
    (∀ d ∈ shape', d < 2 ^ 64) → shape.flatMap u64Bytes = shape'.flatMap u64Bytes → shape = shape' := by
  induction shape with
  | nil =>
    intro shape' _ _ h
    have hlen := congrArg List.length h
    rw [length_flatMap_u64Bytes, length_flatMap_u64Bytes, List.length_nil] at hlen
    exact (List.length_eq_zero_iff.mp (by omega)).symm
  | cons d ds ih =>
    intro shape' hd hd' h
    cases shape' with
    | nil =>
      have hlen := congrArg List.length h
      rw [length_flatMap_u64Bytes, length_flatMap_u64Bytes, List.length_nil, List.length_cons] at hlen
      omega
    | cons d' ds' =>
      rw [List.flatMap_cons, List.flatMap_cons] at h
      obtain ⟨h1, h2⟩ := List.append_inj h ((length_leBytes 8 d).trans (length_leBytes 8 d').symm)
      rw [u64Bytes_inj (hd d List.mem_cons_self) (hd' d' List.mem_cons_self) h1,
        ih (fun x hx => hd x (List.mem_cons_of_mem _ hx)) (fun x hx => hd' x (List.mem_cons_of_mem _ hx)) h2]

/-- The dtype whose spelling some bytes are. -/
def dtypeOfTag (tag : List UInt8) : Option Dtype := Dtype.all.find? fun d => strBytes d.asStr = tag

theorem dtypeOfTag_strBytes (d : Dtype) : dtypeOfTag (strBytes d.asStr) = some d := by
  cases d <;> decide +kernel

theorem strBytes_asStr_ne_zero (d : Dtype) : (strBytes d.asStr).all (· ≠ 0) = true := by
  cases d <;> decide +kernel

/-- **Content hashes.**  The stream an array is hashed over tells its dtype and its shape. -/
theorem arrayStream_geometry {a b : TypedArray} (ha : a.Sized) (hb : b.Sized)
    (h : arrayStream a = arrayStream b) : a.dtype = b.dtype ∧ a.shape = b.shape := by
  -- the tag runs to the first zero byte
  have htag : ∀ c : TypedArray, (arrayStream c).takeWhile (· ≠ 0) = strBytes c.dtype.asStr := by
    intro c
    unfold arrayStream
    rw [List.append_assoc, List.append_assoc, List.append_assoc,
      List.takeWhile_append_of_pos (List.all_eq_true.mp (strBytes_asStr_ne_zero c.dtype))]
    simp
  have hdtype : a.dtype = b.dtype := by
    have := (htag a).symm.trans ((congrArg _ h).trans (htag b))
    exact Option.some.inj ((dtypeOfTag_strBytes a.dtype).symm.trans
      ((congrArg dtypeOfTag this).trans (dtypeOfTag_strBytes b.dtype)))
  refine ⟨hdtype, ?_⟩
  unfold arrayStream at h
  rw [hdtype] at h
  simp only [List.append_assoc, List.append_cancel_left_eq] at h
  obtain ⟨hrank, h⟩ := List.append_inj h
    ((length_leBytes 8 a.shape.length).trans (length_leBytes 8 b.shape.length).symm)
  have hlen := u64Bytes_inj ha.rank hb.rank hrank
  have hdims := (List.append_inj h (by
    rw [length_flatMap_u64Bytes, length_flatMap_u64Bytes, hlen])).1
  exact flatMap_u64Bytes_inj ha.dims hb.dims hdims

/-- The arrays of a set are told apart by their hashes: no two of them collide. -/
structure NoCollision (H : Type) [Sha256 H] (U : Set TypedArray) : Prop where
  sized : ∀ a ∈ U, a.Sized
  apart : ∀ a ∈ U, ∀ b ∈ U, (arrayHash a : H) = arrayHash b → arrayStream a = arrayStream b

theorem NoCollision.geometry {H : Type} [Sha256 H] {U : Set TypedArray} (h : NoCollision H U)
    {a b : TypedArray} (ha : a ∈ U) (hb : b ∈ U) (hash : (arrayHash a : H) = arrayHash b) :
    a.dtype = b.dtype ∧ a.shape = b.shape :=
  arrayStream_geometry (h.sized a ha) (h.sized b hb) (h.apart a ha b hb hash)

/-! ### What a row says of its array -/

/-- A row says of an array that it has the dtype and the step width it has: whatever is read from the
text of its element type. -/
def AssociationRow.Describes {H : Type} (r : AssociationRow H) (a : TypedArray) : Prop :=
  ∀ e, ElementType.parse r.elementType = some e →
    e.physicalDtype = a.dtype ∧ r.elementShape.prod * e.physicalDtype.size = a.stepBytes

/-- A record to file says so of an array. -/
structure TimeSeriesMetadata.Describes {H : Type} (m : TimeSeriesMetadata H) (a : TypedArray) : Prop where
  dtype : m.elementType.physicalDtype = a.dtype
  width : m.elementShape.prod * m.elementType.physicalDtype.size = a.stepBytes

instance {H : Type} (m : TimeSeriesMetadata H) (a : TypedArray) : Decidable (m.Describes a) :=
  decidable_of_iff (m.elementType.physicalDtype = a.dtype ∧
    m.elementShape.prod * m.elementType.physicalDtype.size = a.stepBytes)
    ⟨fun h => ⟨h.1, h.2⟩, fun h => ⟨h.dtype, h.width⟩⟩

section

variable {H : Type}

theorem TimeSeriesMetadata.Describes.toRow [Sha256 H] [FloatText] {m : TimeSeriesMetadata H}
    {a : TypedArray} (h : m.Describes a) (id : ℤ) : (m.toRow id).Describes a := by
  intro e he
  have hdtype := ElementType.parse_display_dtype he
  rw [hdtype]
  exact ⟨h.dtype, h.width⟩

/-- A row read back says what the row says. -/
theorem Catalog.Hydrated.describes [DecidableEq H] [Sha256 H] [FloatText] {c : Catalog H}
    {vectors : H → Result (List DateTime)} {r : AssociationRow H} {m : TimeSeriesMetadata H}
    (h : c.Hydrated vectors r m) {a : TypedArray} (hr : r.Describes a) : m.Describes a := by
  have hp := h.parse
  unfold AssociationRow.parse at hp
  simp only [except_bind_eq_ok] at hp
  obtain ⟨_, -, _, -, _, -, _, -, e, he, _, -, _, -, _, -, hp⟩ := hp
  unfold AssociationRow.parseElementType at he
  split at he
  · rename_i e' hparse
    cases he
    obtain ⟨hdtype, hwidth⟩ := hr e hparse
    have hfields := Except.ok.inj hp
    have h1 : m.elementType = e := (congrArg TimeSeriesMetadata.elementType hfields).symm
    have h2 : m.elementShape = r.elementShape := (congrArg TimeSeriesMetadata.elementShape hfields).symm
    constructor
    · rw [h1]
      exact hdtype
    · rw [h1, h2]
      exact hwidth
  · cases he

/-- An accepted request describes its array. -/
theorem buildRequestParts_describes [Sha256 H] [FloatText] {item : AddRequest} {p : RequestParts H}
    (h : buildRequestParts item = .ok p) : p.metadata.Describes item.data.fields.data := by
  obtain ⟨-, helement, -, -, hfile, -⟩ := buildRequestParts_ok h
  have hbase : p.metadata.elementType = item.data.fields.elementType ∧
      p.metadata.elementShape = item.data.fields.data.elementShape := by
    rw [fileSeries_eq hfile]
    exact ⟨rfl, rfl⟩
  have hdtype := ElementType.validateArray_dtype helement
  constructor
  · rw [hbase.1, hdtype]
  · rw [hbase.1, hbase.2, ← hdtype, TypedArray.stepBytes]

end

namespace Store

section

set_option linter.unusedSectionVars false

variable {H B : Type} [DecidableEq H] [ArrayBackend H B] [Sha256 H] [FloatText] [ToString H]
  [LawfulArrayBackend H B]

/-! ### The condition -/

/-- Every array a turn brings is in a set, and every record it imports describes the array that is held
under the hash it names. -/
def DescribesHeld (U : Set TypedArray) (s : Store H B) (t : Turn H) : Prop :=
  (∀ a ∈ t.op.arrays, a ∈ U) ∧
    match t.op with
    | .importAssociationRows rows =>
      ∀ m ∈ rows, ∀ a, s.arrays.content m.dataHash = some a → m.Describes a
    | _ => True

/-- The stores of the runs whose turns all meet a condition, saves and opens included.  What is opened
again holds arrays of the store that was saved. -/
inductive LivedBy (P : Store H B → Turn H → Prop) : Store H B → Prop
  | create {b : B} (valid : LawfulArrayBackend.Valid b)
      (noArray : ∀ h, LawfulArrayBackend.array b h = none)
      (noVector : ∀ t, LawfulArrayBackend.vector b t = none) : LivedBy P (create b)
  | turn {s : Store H B} (t : Turn H) (h : LivedBy P s) (ht : P s t) :
      LivedBy P ((turn t).exec s).2
  | reopened {s s' : Store H B} (h : LivedBy P s) (ho : Opened s.committedCatalog.backupTo s')
      (harrays : ∀ x a, s'.arrays.content x = some a → s.arrays.content x = some a) : LivedBy P s'

theorem LivedBy.inv {P : Store H B → Turn H → Prop} {s : Store H B} (h : s.LivedBy P) : s.Inv := by
  induction h with
  | create valid noArray noVector => exact inv_create valid noArray noVector
  | turn t _ _ ih => exact turn_inv t _ ih
  | reopened _ ho _ _ => exact ho.inv

/-! ### Rows -/

/-- A row names an array of a set by its hash, and describes it. -/
def NamesIn (U : Set TypedArray) (r : AssociationRow H) : Prop :=
  ∃ a ∈ U, arrayHash a = r.dataHash ∧ r.Describes a

/-- Every row of a catalog does. -/
def Catalog.NamesIn (U : Set TypedArray) (c : Catalog H) : Prop := ∀ r ∈ c.rows, Store.NamesIn U r

/-- The records an import files have passed its checks. -/
theorem Left.checked {s : Store H B} {rows : List (TimeSeriesMetadata H)} {db : Catalog H}
    (h : Left s (.importAssociationRows rows) db) :
    db.rows = s.db.rows ∨ ∀ m ∈ rows, checkImportRow s.arrays m = .ok () := by
  cases h with
  | inl h => exact Or.inr (show Imported s rows db from h).checked
  | inr h => exact Or.inl h.rows.1

/-- **Every change to the catalog** files rows that describe the arrays they name. -/
theorem Left.namesIn {U : Set TypedArray} {s : Store H B} (hs : s.Sound)
    (hheld : Admits (fun _ a => a ∈ U) (fun _ _ => True) s.arrays) {t : Turn H} {db : Catalog H}
    (ht : DescribesHeld U s t) (hrows : Catalog.NamesIn U s.db) (h : Left s t.op db) :
    Catalog.NamesIn U db := by
  -- a row filed for a record that describes an array of the set
  have hfiled : ∀ {m : TimeSeriesMetadata H} {a : TypedArray} (id : ℤ), a ∈ U →
      arrayHash a = m.dataHash → m.Describes a → Store.NamesIn U (m.toRow id) :=
    fun id ha hash hd => ⟨_, ha, hash, hd.toRow id⟩
  intro r hr
  cases h.origin hr with
  | inl hold =>
    obtain ⟨r₀, h₀, owner, rfl⟩ := hold
    exact hrows r₀ h₀
  | inr hnew =>
    obtain ⟨m, hm, id, rfl⟩ := hnew
    obtain ⟨harrays, hcond⟩ := ht
    cases hop : t.op with
    | addRequests items =>
      rw [hop] at hm harrays
      obtain ⟨parts, hbuilt, hmem⟩ := hm
      obtain ⟨p, hp, rfl⟩ := List.mem_map.mp hmem
      obtain ⟨item, hitem, hb⟩ := Staging.parts_origin hbuilt hp
      have hin := List.mem_map_of_mem (f := fun i : AddRequest => i.data.fields.data)
        (List.of_mem_zip hitem).1
      exact hfiled id (harrays _ hin) (((buildRequestParts_hash hb).trans
        (buildRequestParts_ok hb).2.2.2.2.2.1).symm) (buildRequestParts_describes hb)
    | copyTimeSeries src dst ty name =>
      rw [hop] at hm
      obtain ⟨r₀, m₀, ⟨h₀, hy⟩, rfl⟩ := hm
      obtain ⟨a, ha, hash, hd⟩ := hrows r₀ h₀
      have hd' := hy.describes hd
      exact hfiled id ha (hash.trans hy.series.1.symm) ⟨hd'.dtype, hd'.width⟩
    | importAssociationRows rows =>
      rw [hop] at hm hcond h
      cases h.checked with
      | inl hsame =>
        rw [hsame] at hr
        exact hrows _ hr
      | inr hchecked =>
        have hcontent := (checkImportRow_ok hs (hchecked m hm)).1
        obtain ⟨a, ha⟩ := Option.isSome_iff_exists.mp hcontent
        exact hfiled id (hheld.allowed ha) (hs.faithful ha).1 (hcond m hm a ha)
    | transformSingleTimeSeries horizon interval category resolution policy =>
      rw [hop] at hm
      obtain ⟨r₀, m₀, ⟨h₀, hy⟩, -, horizon, interval, count, rfl⟩ := hm
      obtain ⟨a, ha, hash, hd⟩ := hrows r₀ h₀
      have hd' := hy.describes hd
      exact hfiled id ha (hash.trans hy.series.1.symm) ⟨hd'.dtype, hd'.width⟩
    | _ =>
      rw [hop] at hm
      exact hm.elim

/-- What the stores of a run hold and name. -/
theorem LivedBy.names {U : Set TypedArray} {s : Store H B} (h : s.LivedBy (DescribesHeld U)) :
    Admits (fun _ a => a ∈ U) (fun _ _ => True) s.arrays ∧ ∀ c ∈ s.catalogs, Catalog.NamesIn U c := by
  induction h with
  | @create b valid noArray noVector =>
    have hinv := inv_create (H := H) valid noArray noVector
    refine ⟨⟨hinv.valid, fun {x a} hx => ?_, fun _ => trivial⟩, fun c hc r hr => ?_⟩
    · rw [content_create noArray] at hx
      cases hx
    · rw [List.mem_singleton.mp hc] at hr
      exact (List.not_mem_nil hr).elim
  | @turn s t hlife ht ih =>
    have hinv := hlife.inv
    refine ⟨turn_admits hinv ih.1 t ht.1 fun _ _ _ => trivial, turn_catalogs hinv t ih.2 fun db hleft => ?_⟩
    exact hleft.namesIn (hinv.arm t.faults).toSound ih.1 ht (ih.2 _ List.mem_cons_self)
  | @reopened s s' _ ho harrays ih =>
    refine ⟨⟨ho.inv.valid, fun hx => ih.1.allowed (harrays _ _ hx), fun _ => trivial⟩, fun c hc => ?_⟩
    rw [ho.catalogs, List.mem_singleton] at hc
    rw [hc, ho.same]
    exact ih.2 _ s.committedCatalog_mem

end

namespace Sample

/-- A record of another owner over the array of a forecast, its elements said to be of some type. -/
def spoken (e : ElementType) : List (TimeSeriesMetadata Digest) :=
  match buildRequestParts (forecast 1) with
  | .ok p => [{ p.metadata with ownerId := 2, elementType := e }]
  | .error _ => []

/-- A store that a forecast was added to, and such a record imported. -/
def spokenStore (e : ElementType) : Store Digest (MemoryBackend Digest) :=
  after [⟨.addRequests [forecast 1], []⟩, ⟨.importAssociationRows (spoken e), []⟩]

/-- Nothing collides under this digest. -/
theorem noCollision_single (a : TypedArray) (ha : a.Sized) : NoCollision Digest { b | b = a } where
  sized := fun b hb => by
    rw [show b = a from hb]
    exact ha
  apart := fun _ _ _ _ h => h

/-- The run that imports the record as the bytes it is over meets the condition. -/
theorem spokenStore_lived : (spokenStore (.tuple 2 .u8)).LivedBy
    (DescribesHeld { b | b = (forecast 1).data.fields.data }) := by
  have hempty : empty.LivedBy (DescribesHeld { b | b = (forecast 1).data.fields.data }) :=
    .create trivial (fun _ => FMap.get_empty _) fun _ => FMap.get_empty _
  have hadded := hempty.turn ⟨.addRequests [forecast 1], []⟩ ⟨fun a ha => List.mem_singleton.mp ha, trivial⟩
  refine hadded.turn ⟨.importAssociationRows (spoken (.tuple 2 .u8)), []⟩
    ⟨fun a ha => (List.not_mem_nil ha).elim, fun m hm a ha => ?_⟩
  have hall : ((spoken (.tuple 2 .u8)).all fun m =>
      ((after [⟨.addRequests [forecast 1], []⟩]).arrays.content m.dataHash).all fun a =>
        decide (m.Describes a)) = true := by decide +kernel
  have hm' := List.all_eq_true.mp hall m hm
  rw [show (after [⟨.addRequests [forecast 1], []⟩]).arrays.content m.dataHash = some a from ha] at hm'
  exact of_decide_eq_true hm'

end Sample

end Store

end InfraStore
