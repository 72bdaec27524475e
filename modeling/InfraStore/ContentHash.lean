import InfraStore.Coherence
import InfraStore.Lib.Delimited
import InfraStore.Tabular.Cells

/-!
# Content addresses

What the three hashes are taken over, and what they tell.  An array is fed to the hasher in runs of
plain elements with one canonical NaN for every NaN between them; a feature map key by key, each value
behind a tag of its kind; a timestamp vector as its stored milliseconds.

* `arrayUpdates`: the updates of `array_hash`, and `referenceUpdates` those of hashing an element at a
  time;
* `TypedArray.Alike` and `Features.Alike`: equal but for the bits of a NaN;
* `content_addresses_exact`: under a digest that is injective on streams, two hashes of a kind are
  equal exactly where the hashed values are alike, and those of two kinds never are.
-/

namespace InfraStore

open Lib Tabular

/-! ### The updates of a hash -/

/-- The digest of what a hasher was fed, update by update. -/
def hashUpdates {H : Type} [Sha256 H] (updates : List (List UInt8)) : H :=
  Sha256.digest updates.flatten

/-- What `update_canonical_nans` has fed so far, and where the run it has not fed starts. -/
structure NanRuns where
  fed : List (List UInt8)
  runStart : ℕ

section Runs

variable (n : ℕ) (isNan : List UInt8 → Bool) (nan bytes : List UInt8)

/-- One turn of the loop: a NaN closes the run before it. -/
def NanRuns.element (s : NanRuns) (chunk : List UInt8 × ℕ) : NanRuns :=
  if isNan chunk.1 then
    let offset := chunk.2 * n
    { fed := s.fed ++ [(bytes.take offset).drop s.runStart, nan], runStart := offset + n }
  else s

/-- The updates of `update_canonical_nans`: runs of plain elements, and the canonical NaN for each NaN
between them. -/
def canonicalNanUpdates : List (List UInt8) :=
  let whole := bytes.take (bytes.length - bytes.length % n)
  let s := (chunksExact n whole).zipIdx.foldl (NanRuns.element n isNan nan whole) ⟨[], 0⟩
  s.fed ++ [whole.drop s.runStart]

end Runs

/-- The dtype tag, the rank and the dimensions, as `array_hash` feeds them. -/
def headerUpdates (a : TypedArray) : List (List UInt8) :=
  [strBytes a.dtype.asStr, [0], u64Bytes a.shape.length] ++ a.shape.map u64Bytes

/-- The updates of `array_hash`. -/
def arrayUpdates (a : TypedArray) : List (List UInt8) :=
  headerUpdates a ++
    match a.dtype with
    | .f64 => canonicalNanUpdates 8 isNan64 canonicalNan64 a.bytes
    | .f32 => canonicalNanUpdates 4 isNan32 canonicalNan32 a.bytes
    | _ => [a.bytes]

/-- `f64::from_le_bytes`. -/
def F64.fromLeBytes (c : List UInt8) : F64 := ⟨UInt64.ofNat (leNat c)⟩

/-- The updates of the element-at-a-time reference: every element is decoded, its NaN made canonical, and
its bits fed on their own. -/
def referenceUpdates (a : TypedArray) : List (List UInt8) :=
  headerUpdates a ++
    match a.dtype with
    | .f64 => (chunksExact 8 a.bytes).map fun c => u64Bytes (F64.fromLeBytes c).canonicalBits.toNat
    | .f32 => (chunksExact 4 a.bytes).map fun c =>
        leBytes 4 (if isNan32 c then leNat canonicalNan32 else leNat c)
    | _ => [a.bytes]

/-! ### Runs of plain elements -/

section Runs

variable {n : ℕ} {isNan : List UInt8 → Bool} {nan bytes : List UInt8}

theorem canonicalElements_pieces (k : ℕ) :
    canonicalElements n isNan nan k bytes =
      (pieces n k bytes).flatMap fun c => if isNan c then nan else c := by
  induction k generalizing bytes with
  | zero => rfl
  | succ k ih => rw [canonicalElements, pieces, List.flatMap_cons, ih]

/-- The run not fed, and the elements still to come, are what is left of the canonical stream. -/
theorem element_run {i k : ℕ} (hlen : bytes.length = (i + k) * n) {s : NanRuns}
    (hs : s.runStart ≤ i * n) :
    let s' := ((pieces n k (bytes.drop (i * n))).zipIdx i).foldl
      (NanRuns.element n isNan nan bytes) s
    s'.fed.flatten ++ bytes.drop s'.runStart =
      s.fed.flatten ++ (bytes.take (i * n)).drop s.runStart ++
        canonicalElements n isNan nan k (bytes.drop (i * n)) := by
  induction k generalizing i s with
  | zero =>
    have htake : bytes.take (i * n) = bytes := List.take_of_length_le (by rw [hlen, Nat.add_zero])
    rw [htake]
    simp [pieces, canonicalElements]
  | succ k ih =>
    have hnext : (bytes.drop (i * n)).drop n = bytes.drop ((i + 1) * n) := by
      rw [List.drop_drop, Nat.succ_mul]
    have hrest : bytes.length = (i + 1 + k) * n := by rw [hlen, Nat.add_right_comm, Nat.add_assoc]
    rw [pieces, List.zipIdx_cons, List.foldl_cons, hnext, canonicalElements, hnext]
    by_cases hn : isNan ((bytes.drop (i * n)).take n) = true
    · -- the run is fed, and the next one starts behind the NaN
      have hstep : NanRuns.element n isNan nan bytes s ((bytes.drop (i * n)).take n, i) =
          ⟨s.fed ++ [(bytes.take (i * n)).drop s.runStart, nan], (i + 1) * n⟩ := by
        rw [NanRuns.element, if_pos hn, Nat.succ_mul]
      have hempty : (bytes.take ((i + 1) * n)).drop ((i + 1) * n) = [] :=
        List.drop_eq_nil_of_le (List.length_take_le _ _)
      rw [hstep, if_pos hn]
      simp only
      rw [ih hrest (le_refl _), hempty]
      simp [List.append_assoc]
    · have hstep : NanRuns.element n isNan nan bytes s ((bytes.drop (i * n)).take n, i) = s := by
        rw [NanRuns.element, if_neg hn]
      have hgrow : (bytes.take ((i + 1) * n)).drop s.runStart =
          (bytes.take (i * n)).drop s.runStart ++ (bytes.drop (i * n)).take n := by
        rw [Nat.succ_mul, List.take_add, List.drop_append_of_le_length]
        rw [List.length_take, hlen, Nat.add_mul]
        omega
      rw [hstep, if_neg hn]
      simp only
      rw [ih hrest (le_trans hs (Nat.mul_le_mul_right n (Nat.le_succ i))), hgrow]
      simp only [List.append_assoc]

theorem pieces_take {α : Type} {k : ℕ} (items : List α) {m : ℕ} (h : k * n ≤ m) :
    pieces n k (items.take m) = pieces n k items := by
  induction k generalizing items m with
  | zero => rfl
  | succ k ih =>
    rw [Nat.succ_mul] at h
    rw [pieces, pieces, List.take_take, List.drop_take, Nat.min_eq_left (by omega), ih _ (by omega)]

/-- **NaN batching.**  Fed in runs, the elements are those that are fed one by one. -/
theorem canonicalNanUpdates_flatten (hn : 0 < n) :
    (canonicalNanUpdates n isNan nan bytes).flatten = updateCanonicalNans n isNan nan bytes := by
  have hmod : bytes.length - bytes.length % n = bytes.length / n * n := by
    have := Nat.div_add_mod' bytes.length n
    omega
  have hwhole : (bytes.take (bytes.length / n * n)).length = bytes.length / n * n := by
    rw [List.length_take]
    exact Nat.min_eq_left (Nat.div_mul_le_self _ _)
  have hrun := @element_run n isNan nan _ 0 (bytes.length / n) (by rw [hwhole, Nat.zero_add]) ⟨[], 0⟩
    (Nat.zero_le _)
  unfold canonicalNanUpdates
  rw [hmod]
  simp only [Nat.zero_mul, List.drop_zero, List.flatten_nil, List.nil_append, List.take_zero] at hrun
  simp only [List.flatten_append, List.flatten_cons, List.flatten_nil, List.append_nil]
  rw [chunksExact, hwhole, Nat.mul_div_cancel _ hn, hrun, updateCanonicalNans,
    canonicalElements_pieces, canonicalElements_pieces, pieces_take _ (le_refl _)]

end Runs

/-! ### Elements -/

/-- Whether the bytes of an element of a dtype are a NaN. -/
def Dtype.isNan : Dtype → List UInt8 → Bool
  | .f64 => isNan64
  | .f32 => isNan32
  | _ => fun _ => false

/-- The canonical NaN of a dtype that has one. -/
def Dtype.canonicalNan : Dtype → List UInt8
  | .f64 => canonicalNan64
  | .f32 => canonicalNan32
  | _ => []

/-- An element as it is hashed. -/
def Dtype.canonical (d : Dtype) (c : List UInt8) : List UInt8 :=
  if d.isNan c then d.canonicalNan else c

/-- One element up to the bits of a NaN. -/
def SameElement (d : Dtype) (x y : List UInt8) : Prop := x = y ∨ (d.isNan x = true ∧ d.isNan y = true)

/-- Equal arrays, any two NaNs counting as equal. -/
structure TypedArray.Alike (a b : TypedArray) : Prop where
  dtype : a.dtype = b.dtype
  shape : a.shape = b.shape
  elements : List.Forall₂ (SameElement a.dtype) (elementBytes a) (elementBytes b)

theorem flatten_pieces {α : Type} {n k : ℕ} {items : List α} (h : items.length = k * n) :
    (pieces n k items).flatten = items := by
  induction k generalizing items with
  | zero => exact (List.length_eq_zero_iff.mp (by rw [h, Nat.zero_mul])).symm
  | succ k ih =>
    rw [Nat.succ_mul] at h
    rw [pieces, List.flatten_cons, ih (by rw [List.length_drop]; omega), List.take_append_drop]

namespace TypedArray.WellFormed

variable {a b : TypedArray}

theorem length_elementBytes (h : a.WellFormed) : (elementBytes a).length = a.shape.prod := by
  have hlen : a.bytes.length = a.shape.prod * a.dtype.size := h
  rw [elementBytes, chunksExact, length_pieces, hlen, Nat.mul_div_cancel _ a.dtype.size_pos]

theorem flatten_elementBytes (h : a.WellFormed) : (elementBytes a).flatten = a.bytes := by
  have hlen : a.bytes.length = a.shape.prod * a.dtype.size := h
  rw [elementBytes, chunksExact, hlen, Nat.mul_div_cancel _ a.dtype.size_pos, flatten_pieces hlen]

/-- The elements of an array are hashed one canonical element each. -/
theorem canonicalBytes_eq (h : a.WellFormed) :
    canonicalBytes a = (elementBytes a).flatMap a.dtype.canonical := by
  have hplain : a.dtype.isNan = (fun _ => false) →
      a.bytes = (elementBytes a).flatMap a.dtype.canonical := by
    intro hnan
    have hid : a.dtype.canonical = id := by
      funext c
      rw [Dtype.canonical, hnan, if_neg Bool.false_ne_true]
      rfl
    rw [hid, List.flatMap_id, h.flatten_elementBytes]
  cases hd : a.dtype with
  | f64 =>
    rw [canonicalBytes, hd, elementBytes, hd]
    exact canonicalElements_pieces _
  | f32 =>
    rw [canonicalBytes, hd, elementBytes, hd]
    exact canonicalElements_pieces _
  | _ =>
    rw [hd] at hplain
    rw [canonicalBytes, hd]
    exact hplain rfl

end TypedArray.WellFormed

/-- An element as it is hashed is as long as an element, and a NaN where the element is one. -/
theorem Dtype.length_canonical {d : Dtype} {c : List UInt8} (h : c.length = d.size) :
    (d.canonical c).length = d.size := by
  by_cases hn : d.isNan c = true
  · cases d <;> first | cases hn | (rw [Dtype.canonical, if_pos hn]; rfl)
  · rw [Dtype.canonical, if_neg hn, h]

theorem Dtype.isNan_canonical (d : Dtype) (c : List UInt8) : d.isNan (d.canonical c) = d.isNan c := by
  by_cases hn : d.isNan c = true
  · cases d <;> first | cases hn | (rw [Dtype.canonical, if_pos hn, hn]; decide)
  · rw [Dtype.canonical, if_neg hn]

/-- **Elements.**  Two elements are hashed alike exactly where they are one, or both a NaN. -/
theorem Dtype.canonical_eq_iff {d : Dtype} {x y : List UInt8} :
    d.canonical x = d.canonical y ↔ SameElement d x y := by
  constructor
  · intro h
    have hnan : d.isNan x = d.isNan y := by rw [← d.isNan_canonical x, h, d.isNan_canonical]
    by_cases hn : d.isNan x = true
    · exact .inr ⟨hn, hnan ▸ hn⟩
    · rw [Dtype.canonical, Dtype.canonical, if_neg hn, if_neg (hnan ▸ hn)] at h
      exact .inl h
  · intro h
    cases h with
    | inl he => rw [he]
    | inr hn => rw [Dtype.canonical, Dtype.canonical, if_pos hn.1, if_pos hn.2]

theorem Dtype.canonical_delimited (d : Dtype) :
    Delimited d.canonical (fun c => c.length = d.size) (SameElement d) :=
  .of_length (fun _ h => Dtype.length_canonical h) fun _ _ _ _ h => Dtype.canonical_eq_iff.mp h

theorem Dtype.mem_elementBytes {a : TypedArray} : ∀ c ∈ elementBytes a, c.length = a.dtype.size :=
  length_of_mem_chunksExact

/-- **Arrays.**  The streams of two arrays are one exactly where the arrays are alike. -/
theorem arrayStream_eq_iff {a b : TypedArray} (ha : a.WellFormed) (hb : b.WellFormed) (hsa : a.Sized)
    (hsb : b.Sized) : arrayStream a = arrayStream b ↔ a.Alike b := by
  constructor
  · intro h
    obtain ⟨hd, hs⟩ := arrayStream_geometry hsa hsb h
    have hbytes : canonicalBytes a = canonicalBytes b := by
      unfold arrayStream at h
      rw [hd, hs] at h
      exact List.append_cancel_left h
    rw [ha.canonicalBytes_eq, hb.canonicalBytes_eq, ← hd] at hbytes
    have hlen : (elementBytes a).length = (elementBytes b).length := by
      rw [ha.length_elementBytes, hb.length_elementBytes, hs]
    have hall := a.dtype.canonical_delimited.flatMap_inj Dtype.mem_elementBytes
      (fun c hc => (Dtype.mem_elementBytes c hc).trans (by rw [hd])) hlen hbytes
    exact ⟨hd, hs, hall⟩
  · intro h
    have hcode : ∀ x y, SameElement a.dtype x y → a.dtype.canonical x = a.dtype.canonical y :=
      fun _ _ => Dtype.canonical_eq_iff.mpr
    unfold arrayStream
    rw [ha.canonicalBytes_eq, hb.canonicalBytes_eq, ← h.dtype, ← h.shape,
      flatMap_congr_of_forall₂ hcode h.elements]

/-! ### The updates of an array -/

theorem F64.fromLeBytes_canonical {c : List UInt8} (h : c.length = 8) :
    u64Bytes (F64.fromLeBytes c).canonicalBits.toNat =
      if isNan64 c = true then canonicalNan64 else c := by
  have hlt : leNat c < 2 ^ 64 := lt_of_lt_of_eq (leNat_lt c) (by rw [h]; rfl)
  have hnan : isNan64 c = (F64.fromLeBytes c).isNan := isNan64_eq h
  unfold F64.canonicalBits
  rw [← hnan]
  by_cases hn : isNan64 c = true
  · rw [if_pos hn, if_pos hn]
    decide
  · rw [if_neg hn, if_neg hn, F64.fromLeBytes, toNat_ofNat_of_lt hlt, u64Bytes, ← h, leBytes_leNat]

theorem leBytes_canonical32 {c : List UInt8} (h : c.length = 4) :
    leBytes 4 (if isNan32 c = true then leNat canonicalNan32 else leNat c) =
      if isNan32 c = true then canonicalNan32 else c := by
  by_cases hn : isNan32 c = true
  · rw [if_pos hn, if_pos hn]
    decide
  · rw [if_neg hn, if_neg hn, ← h, leBytes_leNat]

theorem headerUpdates_flatten (a : TypedArray) : (headerUpdates a).flatten =
    strBytes a.dtype.asStr ++ [0] ++ u64Bytes a.shape.length ++ a.shape.flatMap u64Bytes := by
  simp [headerUpdates, List.flatMap_def]

theorem arrayUpdates_flatten (a : TypedArray) : (arrayUpdates a).flatten = arrayStream a := by
  rw [arrayUpdates, List.flatten_append, headerUpdates_flatten, arrayStream]
  congr 1
  cases hd : a.dtype with
  | f64 => rw [canonicalBytes, hd]; exact canonicalNanUpdates_flatten (by decide)
  | f32 => rw [canonicalBytes, hd]; exact canonicalNanUpdates_flatten (by decide)
  | _ => rw [canonicalBytes, hd]; exact List.append_nil _

theorem referenceUpdates_flatten (a : TypedArray) : (referenceUpdates a).flatten = arrayStream a := by
  rw [referenceUpdates, List.flatten_append, headerUpdates_flatten, arrayStream]
  congr 1
  cases hd : a.dtype with
  | f64 =>
    rw [canonicalBytes, hd]
    show ((chunksExact 8 a.bytes).map _).flatten = updateCanonicalNans 8 isNan64 canonicalNan64 a.bytes
    rw [updateCanonicalNans, canonicalElements_pieces, ← List.flatMap_def]
    exact List.flatMap_congr fun c hc => F64.fromLeBytes_canonical (length_of_mem_chunksExact c hc)
  | f32 =>
    rw [canonicalBytes, hd]
    show ((chunksExact 4 a.bytes).map _).flatten = updateCanonicalNans 4 isNan32 canonicalNan32 a.bytes
    rw [updateCanonicalNans, canonicalElements_pieces, ← List.flatMap_def]
    exact List.flatMap_congr fun c hc => leBytes_canonical32 (length_of_mem_chunksExact c hc)
  | _ => rw [canonicalBytes, hd]; exact List.append_nil _

/-! ### Feature maps -/

/-- The widths a feature map has in memory: its length and those of its texts are machine integers, and
its integers 64-bit ones. -/
def FeatureValue.Sized : FeatureValue → Prop
  | .int v => -2 ^ 63 ≤ v ∧ v < 2 ^ 63
  | .str v => (strBytes v).length < 2 ^ 64
  | _ => True

structure Features.Sized (f : Features) : Prop where
  length : f.entries.length < 2 ^ 64
  keys : ∀ e ∈ f.entries, (strBytes e.1).length < 2 ^ 64
  values : ∀ e ∈ f.entries, e.2.Sized

/-- Equal values of one kind: floats by their bits, any two NaNs counting as equal. -/
def FeatureValue.Alike : FeatureValue → FeatureValue → Prop
  | .int v, .int w => v = w
  | .float v, .float w => v.bits = w.bits ∨ (v.isNan = true ∧ w.isNan = true)
  | .bool v, .bool w => v = w
  | .str v, .str w => v = w
  | _, _ => False

/-- Equal maps, key by key and value by value. -/
def Features.Alike (f g : Features) : Prop :=
  List.Forall₂ (fun d e => d.1 = e.1 ∧ d.2.Alike e.2) f.entries g.entries

/-- The byte stream `features_hash` digests. -/
def featuresStream (f : Features) : List UInt8 :=
  strBytes "features\x00" ++ u64Bytes f.entries.length ++ f.entries.flatMap featureStream

theorem byteArray_loop (bs : ByteArray) (i : ℕ) (r : List UInt8) :
    ByteArray.toList.loop bs i r = r.reverse ++ bs.data.toList.drop i := by
  induction i, r using ByteArray.toList.loop.induct bs with
  | case1 i r hi ih =>
    have hsize : i < bs.data.toList.length := hi
    have hget : bs.get! i = bs.data.toList[i] := by
      rw [Array.getElem_toList]
      exact getElem!_pos bs.data i hi
    rw [ByteArray.toList.loop, if_pos hi, ih, List.drop_eq_getElem_cons hsize, hget]
    simp
  | case2 i r hi =>
    have hsize : bs.data.toList.length ≤ i := Nat.le_of_not_lt hi
    rw [ByteArray.toList.loop, if_neg hi, List.drop_eq_nil_of_le hsize, List.append_nil]

/-- A text is told by its bytes. -/
theorem strBytes_inj {s t : String} (h : strBytes s = strBytes t) : s = t := by
  have hloop : ∀ bs : ByteArray, bs.toList = bs.data.toList := fun bs => byteArray_loop bs 0 []
  rw [strBytes, strBytes, hloop, hloop] at h
  exact String.toByteArray_inj.mp (ByteArray.ext (Array.toList_inj.mp h))

/-- A text behind its length. -/
def textStream (s : String) : List UInt8 := u64Bytes (strBytes s).length ++ strBytes s

theorem u64Bytes_delimited : Delimited u64Bytes (· < 2 ^ 64) (· = ·) :=
  .of_length (fun v _ => length_leBytes 8 v) fun _ _ ha hb h => u64Bytes_inj ha hb h

theorem textStream_delimited :
    Delimited textStream (fun s => (strBytes s).length < 2 ^ 64) (· = ·) := by
  intro s t r r' hs ht h
  rw [textStream, textStream, List.append_assoc, List.append_assoc] at h
  obtain ⟨hlen, hrest⟩ := u64Bytes_delimited _ _ _ _ hs ht h
  obtain ⟨hbytes, hr⟩ := List.append_inj hrest hlen
  exact ⟨strBytes_inj hbytes, hr⟩

theorem i64Bytes_delimited : Delimited i64Bytes (fun v => -2 ^ 63 ≤ v ∧ v < 2 ^ 63) (· = ·) := by
  apply Delimited.of_length (fun v _ => length_leBytes 8 _)
  intro v w hv hw h
  have hnat : (v % 2 ^ 64).toNat = (w % 2 ^ 64).toNat := u64Bytes_inj (by omega) (by omega) h
  omega

theorem f64_delimited : Delimited (fun v : F64 => u64Bytes v.canonicalBits.toNat) (fun _ => True)
    fun v w => v.bits = w.bits ∨ (v.isNan = true ∧ w.isNan = true) := by
  apply Delimited.of_length (fun v _ => length_leBytes 8 _)
  intro v w _ _ h
  have hbits : v.canonicalBits = w.canonicalBits :=
    UInt64.toNat_inj.mp (u64Bytes_inj v.canonicalBits.toNat_lt w.canonicalBits.toNat_lt h)
  have hnan : ∀ u : F64, F64.canonicalNan.bits = u.bits → u.isNan = true := by
    intro u hu
    rw [show u = F64.canonicalNan from by cases u; cases hu; rfl]
    decide
  unfold F64.canonicalBits at hbits
  by_cases hv : v.isNan = true <;> by_cases hw : w.isNan = true
  · exact .inr ⟨hv, hw⟩
  · rw [if_pos hv, if_neg hw] at hbits
    exact absurd (hnan w hbits) hw
  · rw [if_neg hv, if_pos hw] at hbits
    exact absurd (hnan v hbits.symm) hv
  · rw [if_neg hv, if_neg hw] at hbits
    exact .inl hbits

theorem bool_delimited : Delimited (fun v : Bool => [if v then (1 : UInt8) else 0]) (fun _ => True)
    (· = ·) :=
  .of_length (fun _ _ => rfl) fun v w _ _ h => by
    cases v <;> cases w <;> simp_all

namespace FeatureValue

/-- The tag of a kind. -/
def tag : FeatureValue → UInt8
  | .int _ => 0x69
  | .float _ => 0x66
  | .bool _ => 0x62
  | .str _ => 0x73

/-- What is hashed of a value behind its tag. -/
def body : FeatureValue → List UInt8
  | .int v => i64Bytes v
  | .float v => u64Bytes v.canonicalBits.toNat
  | .bool v => [if v then 1 else 0]
  | .str v => textStream v

theorem featureStream_eq (e : String × FeatureValue) :
    featureStream e = textStream e.1 ++ (e.2.tag :: e.2.body) := by
  obtain ⟨k, v⟩ := e
  have hi : strBytes "i" = [0x69] := by decide +kernel
  have hf : strBytes "f" = [0x66] := by decide +kernel
  have hb : strBytes "b" = [0x62] := by decide +kernel
  have hs : strBytes "s" = [0x73] := by decide +kernel
  cases v <;> simp [featureStream, tag, body, textStream, hi, hf, hb, hs]

theorem delimited : Delimited (fun v => tag v :: body v) Sized Alike := by
  intro v w r r' hv hw h
  rw [List.cons_append, List.cons_append] at h
  obtain ⟨htag, hbody⟩ := List.cons.inj h
  cases v with
  | int v =>
    cases w with
    | int w => exact i64Bytes_delimited v w r r' hv hw hbody
    | _ => cases htag
  | float v =>
    cases w with
    | float w => exact f64_delimited v w r r' trivial trivial hbody
    | _ => cases htag
  | bool v =>
    cases w with
    | bool w => exact bool_delimited v w r r' trivial trivial hbody
    | _ => cases htag
  | str v =>
    cases w with
    | str w => exact textStream_delimited v w r r' hv hw hbody
    | _ => cases htag

theorem Alike.stream {v w : FeatureValue} (h : v.Alike w) : tag v :: body v = tag w :: body w := by
  cases v with
  | int v => cases w with
    | int w => rw [show v = w from h]
    | _ => exact h.elim
  | float v => cases w with
    | float w =>
      have hbits : v.canonicalBits = w.canonicalBits := by
        unfold F64.canonicalBits
        cases h with
        | inl hb => rw [show v = w from by cases v; cases w; cases hb; rfl]
        | inr hn => rw [if_pos hn.1, if_pos hn.2]
      rw [body, body, hbits]
      rfl
    | _ => exact h.elim
  | bool v => cases w with
    | bool w => rw [show v = w from h]
    | _ => exact h.elim
  | str v => cases w with
    | str w => rw [show v = w from h]
    | _ => exact h.elim

end FeatureValue

theorem featureStream_delimited : Delimited featureStream
    (fun e => (strBytes e.1).length < 2 ^ 64 ∧ e.2.Sized) fun d e => d.1 = e.1 ∧ d.2.Alike e.2 := by
  intro d e r r' hd he h
  rw [FeatureValue.featureStream_eq, FeatureValue.featureStream_eq, List.append_assoc,
    List.append_assoc] at h
  obtain ⟨hkey, hrest⟩ := textStream_delimited d.1 e.1 _ _ hd.1 he.1 h
  obtain ⟨hvalue, hr⟩ := FeatureValue.delimited d.2 e.2 r r' hd.2 he.2 hrest
  exact ⟨⟨hkey, hvalue⟩, hr⟩

/-- **Feature maps.**  The streams of two maps are one exactly where the maps are alike. -/
theorem featuresStream_eq_iff {f g : Features} (hf : f.Sized) (hg : g.Sized) :
    featuresStream f = featuresStream g ↔ f.Alike g := by
  constructor
  · intro h
    unfold featuresStream at h
    rw [List.append_assoc, List.append_assoc] at h
    obtain ⟨hlen, hrest⟩ := u64Bytes_delimited _ _ _ _ hf.length hg.length (List.append_cancel_left h)
    exact featureStream_delimited.flatMap_inj (fun e he => ⟨hf.keys e he, hf.values e he⟩)
      (fun e he => ⟨hg.keys e he, hg.values e he⟩) hlen hrest
  · intro h
    have hcode : ∀ d e : String × FeatureValue, d.1 = e.1 ∧ d.2.Alike e.2 →
        featureStream d = featureStream e := by
      intro d e hde
      rw [FeatureValue.featureStream_eq, FeatureValue.featureStream_eq, hde.1, hde.2.stream]
    unfold featuresStream
    rw [flatMap_congr_of_forall₂ hcode h, h.length_eq]

/-! ### Timestamp vectors -/

/-- The byte stream `timestamps_hash` digests. -/
def timestampsStream (ts : List DateTime) : List UInt8 :=
  strBytes "timestamps\x00" ++ u64Bytes ts.length ++ (toMillis ts).flatMap i64Bytes

theorem timestampMillis_range (t : DateTime) :
    -2 ^ 63 ≤ t.timestampMillis ∧ t.timestampMillis < 2 ^ 63 := by
  obtain ⟨hlo, hhi, hnanos⟩ := t.valid
  unfold DateTime.timestampMillis
  unfold minSecs at hlo
  unfold maxSecs at hhi
  omega

/-- **Timestamp vectors.**  The streams of two vectors are one exactly where their whole milliseconds
are. -/
theorem timestampsStream_eq_iff {ts us : List DateTime} (hts : ts.length < 2 ^ 64)
    (hus : us.length < 2 ^ 64) :
    timestampsStream ts = timestampsStream us ↔ toMillis ts = toMillis us := by
  have hlength : ∀ vs, (toMillis vs).length = vs.length := fun vs => List.length_map _
  have hrange : ∀ vs, ∀ v ∈ toMillis vs, -2 ^ 63 ≤ v ∧ v < 2 ^ 63 := by
    intro vs v hv
    obtain ⟨t, -, rfl⟩ := List.mem_map.mp hv
    exact timestampMillis_range t
  constructor
  · intro h
    unfold timestampsStream at h
    rw [List.append_assoc, List.append_assoc] at h
    obtain ⟨hlen, hrest⟩ := u64Bytes_delimited _ _ _ _ hts hus (List.append_cancel_left h)
    have hall := i64Bytes_delimited.flatMap_inj (hrange ts) (hrange us)
      (by rw [hlength, hlength, hlen]) hrest
    exact List.forall₂_eq_eq_eq ▸ hall
  · intro h
    unfold timestampsStream
    rw [h, ← hlength ts, ← hlength us, h]

theorem toMillis_inj {ts us : List DateTime} (hts : ∀ t ∈ ts, t.IsMillis) (hus : ∀ t ∈ us, t.IsMillis)
    (h : toMillis ts = toMillis us) : ts = us := by
  have hback := fromMillis_toMillis hts
  rw [h, fromMillis_toMillis hus] at hback
  exact (Except.ok.inj hback).symm

/-! ### Domains -/

/-- What a stream starts with, up to its first zero byte. -/
def domainOf (stream : List UInt8) : List UInt8 := stream.takeWhile (· ≠ 0)

theorem domainOf_append {tag rest : List UInt8} (h : tag.all (· ≠ 0) = true) :
    domainOf (tag ++ 0 :: rest) = tag := by
  unfold domainOf
  rw [List.takeWhile_append_of_pos (List.all_eq_true.mp h)]
  simp

theorem domainOf_arrayStream (a : TypedArray) : domainOf (arrayStream a) = strBytes a.dtype.asStr := by
  unfold arrayStream
  rw [List.append_assoc, List.append_assoc, List.append_assoc]
  exact domainOf_append (strBytes_asStr_ne_zero a.dtype)

theorem domainOf_featuresStream (f : Features) : domainOf (featuresStream f) = strBytes "features" := by
  have htag : strBytes "features\x00" = strBytes "features" ++ [0] := by decide +kernel
  unfold featuresStream
  rw [htag, List.append_assoc, List.append_assoc]
  exact domainOf_append (by decide +kernel)

theorem domainOf_timestampsStream (ts : List DateTime) :
    domainOf (timestampsStream ts) = strBytes "timestamps" := by
  have htag : strBytes "timestamps\x00" = strBytes "timestamps" ++ [0] := by decide +kernel
  unfold timestampsStream
  rw [htag, List.append_assoc, List.append_assoc]
  exact domainOf_append (by decide +kernel)

/-- The streams of different kinds are told apart by what they start with. -/
theorem domains_apart (a : TypedArray) (f : Features) (ts : List DateTime) :
    arrayStream a ≠ featuresStream f ∧ arrayStream a ≠ timestampsStream ts ∧
      featuresStream f ≠ timestampsStream ts := by
  have hdtype : ∀ d : Dtype, strBytes d.asStr ≠ strBytes "features" ∧
      strBytes d.asStr ≠ strBytes "timestamps" := by
    intro d
    cases d <;> decide +kernel
  have hkinds : strBytes "features" ≠ strBytes "timestamps" := by decide +kernel
  constructor
  · intro h
    apply (hdtype a.dtype).1
    rw [← domainOf_arrayStream, h, domainOf_featuresStream]
  constructor
  · intro h
    apply (hdtype a.dtype).2
    rw [← domainOf_arrayStream, h, domainOf_timestampsStream]
  · intro h
    apply hkinds
    rw [← domainOf_featuresStream f, h, domainOf_timestampsStream]

/-! ### The addresses -/

section

variable {H : Type} [Sha256 H]

/-- **Content addresses.**  Under a digest that tells streams apart: arrays are hashed as the
element-at-a-time reference hashes them, two well-formed arrays hash equal exactly where they are equal
but for the bits of a NaN, two feature maps exactly where they are equal key by key and kind by kind, two
timestamp vectors exactly where they have the same whole milliseconds, and hashes of different kinds
never are equal. -/
theorem content_addresses_exact (sha : Function.Injective (Sha256.digest : List UInt8 → H)) :
    (∀ a, (hashUpdates (arrayUpdates a) : H) = arrayHash a ∧
      (arrayUpdates a).flatten = (referenceUpdates a).flatten) ∧
    (∀ a b : TypedArray, a.WellFormed → b.WellFormed → a.Sized → b.Sized →
      ((arrayHash a : H) = arrayHash b ↔ a.Alike b)) ∧
    (∀ f g : Features, f.Sized → g.Sized → ((featuresHash f : H) = featuresHash g ↔ f.Alike g)) ∧
    (∀ ts us : List DateTime, ts.length < 2 ^ 64 → us.length < 2 ^ 64 →
      ((timestampsHash ts : H) = timestampsHash us ↔ toMillis ts = toMillis us) ∧
      ((∀ t ∈ ts, t.IsMillis) → (∀ t ∈ us, t.IsMillis) →
        ((timestampsHash ts : H) = timestampsHash us ↔ ts = us))) ∧
    ∀ (a : TypedArray) (f : Features) (ts : List DateTime),
      (arrayHash a : H) ≠ featuresHash f ∧ (arrayHash a : H) ≠ timestampsHash ts ∧
        (featuresHash f : H) ≠ timestampsHash ts := by
  have htimes : ∀ ts us : List DateTime, ts.length < 2 ^ 64 → us.length < 2 ^ 64 →
      ((timestampsHash ts : H) = timestampsHash us ↔ toMillis ts = toMillis us) :=
    fun ts us hts hus => sha.eq_iff.trans (timestampsStream_eq_iff hts hus)
  refine ⟨fun a => ⟨?_, ?_⟩, ?_, ?_, ?_, ?_⟩
  · rw [hashUpdates, arrayUpdates_flatten, arrayHash]
  · rw [arrayUpdates_flatten, referenceUpdates_flatten]
  · intro a b ha hb hsa hsb
    exact sha.eq_iff.trans (arrayStream_eq_iff ha hb hsa hsb)
  · intro f g hf hg
    exact sha.eq_iff.trans (featuresStream_eq_iff hf hg)
  · intro ts us hts hus
    refine ⟨htimes ts us hts hus, fun hmillis hmillis' => ?_⟩
    rw [htimes ts us hts hus]
    exact ⟨toMillis_inj hmillis hmillis', fun h => by rw [h]⟩
  · intro a f ts
    obtain ⟨h1, h2, h3⟩ := domains_apart a f ts
    exact ⟨fun h => h1 (sha h), fun h => h2 (sha h), fun h => h3 (sha h)⟩

end

namespace Store.Sample

/-- Four doubles, a NaN of the given bits among them and one at the end. -/
def nans (payload : UInt8) : TypedArray :=
  ⟨.f64, [4], [0, 0, 0, 0, 0, 0, 0xf0, 0x3f, payload, 0, 0, 0, 0, 0, 0xf8, 0xff,
    0, 0, 0, 0, 0, 0, 0, 0x80, 0, 0, 0, payload, 0, 0, 0xf8, 0x7f]⟩

/-- The NaN payloads are not hashed, and the run between the NaNs is one update. -/
example : canonicalNanUpdates 8 isNan64 canonicalNan64 (nans 1).bytes =
    [[0, 0, 0, 0, 0, 0, 0xf0, 0x3f], canonicalNan64, [0, 0, 0, 0, 0, 0, 0, 0x80], canonicalNan64, []] := by
  decide

/-- The digest of the samples is the stream. -/
theorem digest_injective : Function.Injective (Sha256.digest : List UInt8 → Digest) :=
  fun _ _ h => h

theorem content_addresses_exact_nans :
    (arrayHash (nans 1) : Digest) = arrayHash (nans 2) ∧ (nans 1).bytes ≠ (nans 2).bytes :=
  ⟨((content_addresses_exact digest_injective).2.1 (nans 1) (nans 2) (by decide) (by decide)
    ⟨by decide, by decide⟩ ⟨by decide, by decide⟩).mpr
      ⟨rfl, rfl, .cons (.inl rfl) (.cons (.inr ⟨by decide, by decide⟩)
        (.cons (.inl rfl) (.cons (.inr ⟨by decide, by decide⟩) .nil)))⟩, by decide⟩

end Store.Sample

end InfraStore
