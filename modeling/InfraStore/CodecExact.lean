import InfraStore.CodecRows

/-!
# What the codec keeps

Encoded values are rows of one width, one after another; a validated array is such rows again.  So the
round trip is a fact about one row, and a canonical array is the narrowest rows of the same values.

* `PacksAs`: some values and the rows of one width that they are stored as;
* `decode_encode_iff`: encoded values come back exactly where their counts are doubles;
* `canonicalArray_spec`: the canonical array of an array of functions;
* `element_codec_exact`: the round trip, the safety of decoding, and canonical arrays.
-/

namespace InfraStore

open Lib Tabular

/-! ### Packed values -/

namespace DecodedValues

/-- The rows some values are stored as, at a width. -/
def rows (width : ℕ) : DecodedValues → List (List F64)
  | .raw => []
  | .tuple rows => rows
  | .linearFunction rows => rows.map fun f => [f.proportional, f.constant]
  | .quadraticFunction rows => rows.map fun f => [f.quadratic, f.proportional, f.constant]
  | .piecewiseLinear rows => rows.map (rowOfPoints width)
  | .piecewiseStep rows => rows.map (rowOfStep width)

/-- The counts of points among some values. -/
def counts : DecodedValues → List ℕ
  | .piecewiseLinear rows => rows.map List.length
  | .piecewiseStep rows => rows.map fun s => s.x.length
  | _ => []

end DecodedValues

/-- The width of a row of an element type, where the type and not the array tells it. -/
def declaredWidth : ElementType → Option ℕ
  | .tuple arity _ => some arity
  | .linearFunction => some 2
  | .quadraticFunction => some 3
  | _ => none

/-- Values and the rows of one width they are stored as. -/
structure PacksAs (v : DecodedValues) (e : ElementType) (width : ℕ) : Prop where
  type : elementTypeOf v = some e
  pos : 0 < width
  dims : e.validateElementDims [width] = .ok ()
  dtype : e.physicalDtype = .f64
  declared : ∀ w, declaredWidth e = some w → w = width
  unstructured : ∀ d, e ≠ .scalar d
  length : ∀ r ∈ v.rows width, r.length = width
  reads : decodeRows e (v.rows width) = .ok v ↔ ∀ n ∈ v.counts, (F64.ofUsize n).asUsize = n
  counted : e.isRagged = true → List.Forall₂
    (fun r n => r[0]? = some (F64.ofUsize n) ∧ slotsNeeded e n ≤ width) (v.rows width) v.counts

theorem le_foldr_max {l : List ℕ} {n : ℕ} (h : n ∈ l) : n ≤ l.foldr max 0 := by
  induction l with
  | nil => cases h
  | cons m l ih =>
    rw [List.foldr_cons]
    cases h with
    | head => exact le_max_left _ _
    | tail _ h => exact le_trans (ih h) (le_max_right _ _)

theorem foldr_max_le {l : List ℕ} {b : ℕ} (h : ∀ n ∈ l, n ≤ b) : l.foldr max 0 ≤ b := by
  induction l with
  | nil => exact Nat.zero_le b
  | cons m l ih =>
    rw [List.foldr_cons]
    exact max_le (h m List.mem_cons_self) (ih fun n hn => h n (List.mem_cons_of_mem m hn))

/-- Only the ragged kinds count their points. -/
theorem isRagged_of_count {v : DecodedValues} {e : ElementType} (he : elementTypeOf v = some e) {n : ℕ}
    (hn : n ∈ v.counts) : e.isRagged = true := by
  cases v with
  | piecewiseLinear rows =>
    cases he
    rfl
  | piecewiseStep rows =>
    cases he
    rfl
  | raw => cases he
  | _ => exact (List.not_mem_nil hn).elim

/-- A traversal that reads every row back. -/
theorem mapM_map_eq_ok_iff {α : Type} {write : α → List F64} {read : List F64 → Except Halt α}
    {back : α → Prop} {as : List α} (h : ∀ a ∈ as, read (write a) = .ok a ↔ back a) :
    (as.map write).mapM read = .ok as ↔ ∀ a ∈ as, back a := by
  rw [mapM_eq_ok, List.forall₂_map_left_iff, List.forall₂_same]
  exact forall₂_congr h

theorem map_ok_iff {α : Type} {r : Except Halt (List α)} {f : List α → DecodedValues} {as : List α}
    (hf : Function.Injective f) : r.map f = .ok (f as) ↔ r = .ok as := by
  cases r with
  | error e => simp [Except.map]
  | ok bs => simp [Except.map, hf.eq_iff]

/-- Rows that are all read back. -/
theorem mapM_map_ok {α : Type} {write : α → List F64} {read : List F64 → Except Halt α}
    (h : ∀ a, read (write a) = .ok a) (as : List α) : (as.map write).mapM read = .ok as := by
  rw [mapM_eq_ok, List.forall₂_map_left_iff, List.forall₂_same]
  exact fun a _ => h a

/-- **Packing.**  What packing accepts is stored as rows of one width, which decode to it exactly where
its counts come back from doubles. -/
theorem packRows_ok {v : DecodedValues} {width : ℕ} {flat : List F64}
    (h : packRows v = .ok (width, flat)) :
    flat = (v.rows width).flatten ∧ ∃ e, PacksAs v e width := by
  cases v with
  | raw => cases h
  | tuple rows =>
    unfold packRows at h
    simp only at h
    split at h
    · cases h
    · rename_i hne
      split at h
      · cases h
      · rename_i hnone
        cases h
        have hlen : ∀ r ∈ rows, r.length = (rows.head?.map List.length).getD 0 := by
          intro r hr
          obtain ⟨i, hi⟩ := List.mem_iff_getElem?.mp hr
          have := List.find?_eq_none.mp hnone (r, i) (List.mem_zipIdx_iff_getElem?.mpr hi)
          exact not_not.mp (of_decide_eq_true (by simpa using this))
        refine ⟨rfl, _, ⟨rfl, Nat.pos_of_ne_zero hne, if_neg (not_not.mpr rfl), rfl, ?_, ?_, hlen, ?_, ?_⟩⟩
        · exact fun w hw => (Option.some.inj hw).symm
        · exact fun d hd => by cases hd
        · exact ⟨fun _ n hn => (List.not_mem_nil hn).elim, fun _ => rfl⟩
        · exact fun hr => by cases hr
  | linearFunction rows =>
    cases h
    refine ⟨rfl, _, ⟨rfl, by decide, rfl, rfl, ?_, ?_, ?_, ?_, ?_⟩⟩
    · exact fun w hw => (Option.some.inj hw).symm
    · exact fun d hd => by cases hd
    · intro r hr
      obtain ⟨f, -, rfl⟩ := List.mem_map.mp hr
      rfl
    · constructor
      · exact fun _ n hn => (List.not_mem_nil hn).elim
      · intro _
        apply (map_ok_iff (fun _ _ => DecodedValues.linearFunction.inj)).mpr
        exact @mapM_map_ok _ (fun f => [f.proportional, f.constant]) linearOfRow (fun _ => rfl) rows
    · exact fun hr => by cases hr
  | quadraticFunction rows =>
    cases h
    refine ⟨rfl, _, ⟨rfl, by decide, rfl, rfl, ?_, ?_, ?_, ?_, ?_⟩⟩
    · exact fun w hw => (Option.some.inj hw).symm
    · exact fun d hd => by cases hd
    · intro r hr
      obtain ⟨f, -, rfl⟩ := List.mem_map.mp hr
      rfl
    · constructor
      · exact fun _ n hn => (List.not_mem_nil hn).elim
      · intro _
        apply (map_ok_iff (fun _ _ => DecodedValues.quadraticFunction.inj)).mpr
        exact @mapM_map_ok _ (fun f => [f.quadratic, f.proportional, f.constant]) quadraticOfRow
          (fun _ => rfl) rows
    · exact fun hr => by cases hr
  | piecewiseLinear rows =>
    cases h
    have hfit : ∀ points ∈ rows, 2 * points.length + 1 ≤ 1 + 2 * (rows.map List.length).foldr max 0 := by
      intro points hp
      have := le_foldr_max (List.mem_map_of_mem (f := List.length) hp)
      omega
    generalize hw : 1 + 2 * (rows.map List.length).foldr max 0 = width at hfit
    refine ⟨rfl, .piecewiseLinear, ⟨rfl, by omega, ?_, rfl, ?_, ?_, ?_, ?_, ?_⟩⟩
    · have hodd : width % 2 = 1 := by omega
      show (if width < 1 then _ else if _ then _ else _) = _
      rw [if_neg (by omega)]
      exact if_pos (by simpa using hodd)
    · exact fun w h => by cases h
    · exact fun d hd => by cases hd
    · intro r hr
      obtain ⟨points, hp, rfl⟩ := List.mem_map.mp hr
      exact length_rowOfPoints (hfit points hp)
    · have hback : (rows.map (rowOfPoints width)).mapM pointsOfRow = .ok rows ↔
          ∀ points ∈ rows, (F64.ofUsize points.length).asUsize = points.length :=
        mapM_map_eq_ok_iff fun _ _ => pointsOfRow_rowOfPoints
      rw [DecodedValues.counts, List.forall_mem_map, ← hback]
      exact map_ok_iff (fun _ _ => DecodedValues.piecewiseLinear.inj)
    · intro _
      rw [DecodedValues.counts, DecodedValues.rows, List.forall₂_map_left_iff, List.forall₂_map_right_iff,
        List.forall₂_same]
      exact fun points hp => ⟨rowOfPoints_count _ points, hfit points hp⟩
  | piecewiseStep rows =>
    simp only [packRows] at h
    split at h
    · cases h
    · rename_i hnone
      cases h
      have hy : ∀ step ∈ rows, step.y.length = step.x.length - 1 := by
        intro step hs
        obtain ⟨i, hi⟩ := List.mem_iff_getElem?.mp hs
        have := List.find?_eq_none.mp hnone (step, i) (List.mem_zipIdx_iff_getElem?.mpr hi)
        exact not_not.mp (of_decide_eq_true (by simpa using this))
      have hfit : ∀ step ∈ rows, (if step.x.length = 0 then 1 else 2 * step.x.length) ≤
          max (2 * (rows.map fun s => s.x.length).foldr max 0) 1 := by
        intro step hs
        have := le_foldr_max (List.mem_map_of_mem (f := fun s : StepFunction => s.x.length) hs)
        split <;> omega
      have heven : max (2 * (rows.map fun s => s.x.length).foldr max 0) 1 = 1 ∨
          max (2 * (rows.map fun s => s.x.length).foldr max 0) 1 % 2 = 0 := by omega
      have hpos : 0 < max (2 * (rows.map fun s => s.x.length).foldr max 0) 1 := by omega
      generalize max (2 * (rows.map fun s => s.x.length).foldr max 0) 1 = width at hfit heven hpos
      refine ⟨rfl, .piecewiseStep, ⟨rfl, hpos, ?_, rfl, ?_, ?_, ?_, ?_, ?_⟩⟩
      · show (if width < 1 then _ else if _ then _ else _) = _
        rw [if_neg (by omega)]
        exact if_pos (by simpa using heven)
      · exact fun w h => by cases h
      · exact fun d hd => by cases hd
      · intro r hr
        obtain ⟨step, hs, rfl⟩ := List.mem_map.mp hr
        have h1 := hfit step hs
        have h2 := hy step hs
        exact length_rowOfStep (by split at h1 <;> omega)
      · have hback : (rows.map (rowOfStep width)).mapM stepOfRow = .ok rows ↔
            ∀ step ∈ rows, (F64.ofUsize step.x.length).asUsize = step.x.length :=
          mapM_map_eq_ok_iff fun step hs => stepOfRow_rowOfStep (hy step hs) (hfit step hs)
        rw [DecodedValues.counts, List.forall_mem_map, ← hback]
        exact map_ok_iff (fun _ _ => DecodedValues.piecewiseStep.inj)
      · intro _
        rw [DecodedValues.counts, DecodedValues.rows, List.forall₂_map_left_iff,
          List.forall₂_map_right_iff, List.forall₂_same]
        exact fun step hs => ⟨rowOfStep_count _ step, hfit step hs⟩

/-! ### Encoded arrays -/

theorem foldlM_checkedMul_lt {d : ℕ} {shape : List ℕ} {n : ℕ}
    (h : (shape ++ [d]).foldlM checkedMul 1 = some n) :
    n < usizeBound ∧ shape.foldlM checkedMul 1 = some shape.prod ∧ n = shape.prod * d := by
  rw [List.foldlM_append] at h
  obtain ⟨m, hm, h⟩ := Option.bind_eq_some_iff.mp h
  have hprod := foldlM_checkedMul hm
  rw [Nat.one_mul] at hprod
  rw [List.foldlM_cons] at h
  obtain ⟨q, hq, h⟩ := Option.bind_eq_some_iff.mp h
  cases h
  have hmul := checkedMul_eq_some hq
  unfold checkedMul at hq
  split at hq
  · rename_i hlt
    exact ⟨hmul ▸ hlt, hprod ▸ hm, hprod ▸ hmul⟩
  · cases hq

theorem elementCount_append {shape : List ℕ} {d : ℕ} {n : ℕ} (h : elementCount (shape ++ [d]) = .ok n) :
    n < usizeBound ∧ shape.foldlM checkedMul 1 = some shape.prod ∧ n = shape.prod * d := by
  unfold elementCount at h
  cases hf : (shape ++ [d]).foldlM checkedMul 1 with
  | none => rw [hf] at h; cases h
  | some m =>
    rw [hf] at h
    cases h
    exact foldlM_checkedMul_lt hf

theorem elementCount_of_lt {shape : List ℕ} {d : ℕ} (h : shape.foldlM checkedMul 1 = some shape.prod)
    (hlt : shape.prod * d < usizeBound) : elementCount (shape ++ [d]) = .ok (shape.prod * d) := by
  have hf : (shape ++ [d]).foldlM checkedMul 1 = some (shape.prod * d) := by
    rw [List.foldlM_append, h]
    show (checkedMul shape.prod d).bind some = _
    rw [checkedMul, if_pos hlt]
    rfl
  unfold elementCount
  rw [hf]

/-- The array of some rows of one width. -/
def arrayOfRows (leadingDims : List ℕ) (width : ℕ) (rows : List (List F64)) : TypedArray :=
  { dtype := .f64, shape := leadingDims ++ [width], bytes := rows.flatten.flatMap F64.toLeBytes }

theorem doublesOf_arrayOfRows (leadingDims : List ℕ) (width : ℕ) (rows : List (List F64)) :
    doublesOf (arrayOfRows leadingDims width rows).bytes = rows.flatten :=
  doublesOf_flatMap _

theorem length_rows_flatten {width : ℕ} {rows : List (List F64)} (h : ∀ r ∈ rows, r.length = width) :
    rows.flatten.length = rows.length * width := by
  rw [List.length_flatten, List.map_congr_left h, List.map_const', List.sum_replicate_nat]

/-- **Encoding.**  What an encode that succeeds returns. -/
theorem encode_ok {v : DecodedValues} {leadingDims : List ℕ} {a : TypedArray}
    (h : encode v leadingDims = .ok a) : ∃ e width, PacksAs v e width ∧
      a = arrayOfRows leadingDims width (v.rows width) ∧
      elementCount (leadingDims ++ [width]) = .ok ((v.rows width).length * width) := by
  unfold encode at h
  obtain ⟨⟨width, flat⟩, hpack, h⟩ := except_bind_eq_ok.mp h
  obtain ⟨hflat, e, hpacks⟩ := packRows_ok hpack
  simp only [if_neg hpacks.pos.ne'] at h
  split at h
  · cases h
  · rw [mapErr_eq_ok] at h
    unfold TypedArray.fromSlice at h
    obtain ⟨n, hn, h⟩ := except_bind_eq_ok.mp h
    split at h
    · cases h
    · rename_i hlen
      cases h
      rw [hflat, length_rows_flatten hpacks.length, not_not] at hlen
      exact ⟨e, width, hpacks, by rw [hflat]; rfl, by rw [hn, hlen]⟩

/-- Values whose rows fill the leading dims encode. -/
theorem encode_of {v : DecodedValues} {leadingDims : List ℕ} {width : ℕ} {flat : List F64}
    (hpack : packRows v = .ok (width, flat)) (hrows : (v.rows width).length = leadingDims.prod)
    (hfold : leadingDims.foldlM checkedMul 1 = some leadingDims.prod)
    (hlt : leadingDims.prod * width < usizeBound) :
    encode v leadingDims = .ok (arrayOfRows leadingDims width (v.rows width)) := by
  obtain ⟨hflat, e, hpacks⟩ := packRows_ok hpack
  have hlen : flat.length = leadingDims.prod * width := by
    rw [hflat, length_rows_flatten hpacks.length, hrows]
  have hle : leadingDims.prod ≤ leadingDims.prod * width := Nat.le_mul_of_pos_right _ hpacks.pos
  have hcount : (if width = 0 then 0 else flat.length / width) = leadingDims.prod % usizeBound := by
    rw [if_neg (by have := hpacks.pos; omega), hlen, Nat.mul_div_cancel _ hpacks.pos,
      Nat.mod_eq_of_lt (by omega)]
  unfold encode
  rw [hpack]
  simp only [bind, Except.bind]
  rw [if_neg (not_not.mpr hcount)]
  unfold TypedArray.fromSlice
  rw [elementCount_of_lt hfold hlt]
  simp only [bind, Except.bind]
  rw [if_neg (not_not.mpr hlen), hflat]
  rfl

/-! ### Decoded arrays -/

section Decode

variable [FloatText] {a : TypedArray} {e : ElementType} {k width : ℕ}

/-- What validation accepts of an array with one dim a step. -/
theorem validateArray_iff {leadingDims : List ℕ} (hshape : a.shape = leadingDims ++ [width])
    (hw : 0 < width) :
    e.validateArray a leadingDims.length = .ok () ↔ a.dtype = e.physicalDtype ∧
      e.validateElementDims [width] = .ok () ∧
      (e.isRagged = true → ∀ r ∈ chunksExact width (doublesOf a.bytes), RowFits e width r) := by
  have hlen : ¬ a.shape.length < leadingDims.length := by
    rw [hshape, List.length_append]
    omega
  have hdrop : a.shape.drop leadingDims.length = [width] := by
    rw [hshape, List.drop_left' rfl]
  unfold ElementType.validateArray
  by_cases hd : a.dtype = e.physicalDtype
  · rw [if_neg (not_not.mpr hd), if_neg hlen, hdrop]
    simp only [List.headD_cons]
    cases hdims : e.validateElementDims [width] with
    | error err => simp [bind, Except.bind]
    | ok u =>
      cases hr : e.isRagged with
      | false => simp [bind, Except.bind, hd]
      | true =>
        simp only [bind, Except.bind, if_pos, hd, true_and, forall_const]
        exact validateRaggedRows_rows hw a.bytes
  · rw [if_pos hd]
    constructor
    · intro h
      cases h
    · exact fun h => absurd h.1 hd

omit [FloatText] in
/-- Element dims that a kind with rows of its own accepts are one row width. -/
theorem elementDims_single {dims : List ℕ} (hscalar : ∀ d, e ≠ .scalar d)
    (h : e.validateElementDims dims = .ok ()) :
    ∃ width, dims = [width] ∧ (∀ w, declaredWidth e = some w → w = width) ∧
      (declaredWidth e = none → 0 < width ∧ e.isRagged = true) := by
  unfold ElementType.validateElementDims at h
  cases e with
  | scalar d => exact absurd rfl (hscalar d)
  | tuple arity d =>
    simp only [ElementType.fixedElementDims] at h
    split at h
    · cases h
    · rename_i hdims
      exact ⟨arity, not_not.mp hdims, fun w hw => (Option.some.inj hw).symm, fun hn => by cases hn⟩
  | linearFunction =>
    simp only [ElementType.fixedElementDims] at h
    split at h
    · cases h
    · rename_i hdims
      exact ⟨2, not_not.mp hdims, fun w hw => (Option.some.inj hw).symm, fun hn => by cases hn⟩
  | quadraticFunction =>
    simp only [ElementType.fixedElementDims] at h
    split at h
    · cases h
    · rename_i hdims
      exact ⟨3, not_not.mp hdims, fun w hw => (Option.some.inj hw).symm, fun hn => by cases hn⟩
  | piecewiseLinear =>
    simp only [ElementType.fixedElementDims, ElementType.isRagged, Bool.not_true] at h
    rw [if_neg Bool.false_ne_true] at h
    split at h
    · rename_i width
      split at h
      · cases h
      · exact ⟨width, rfl, fun w hw => (by cases hw), fun _ => ⟨by omega, rfl⟩⟩
    · cases h
  | piecewiseStep =>
    simp only [ElementType.fixedElementDims, ElementType.isRagged, Bool.not_true] at h
    rw [if_neg Bool.false_ne_true] at h
    split at h
    · rename_i width
      split at h
      · cases h
      · exact ⟨width, rfl, fun w hw => (by cases hw), fun _ => ⟨by omega, rfl⟩⟩
    · cases h

theorem validateArray_dims (h : e.validateArray a k = .ok ()) :
    k ≤ a.shape.length ∧ e.validateElementDims (a.shape.drop k) = .ok () := by
  refine ⟨ElementType.validateArray_rank h, ?_⟩
  unfold ElementType.validateArray at h
  split at h
  · cases h
  · split at h
    · cases h
    · obtain ⟨u, hu, -⟩ := except_bind_eq_ok.mp h
      exact hu

theorem decode_validated {v : DecodedValues} (h : decode a e k = .ok v) :
    e.validateArray a k = .ok () := by
  unfold decode at h
  cases hv : e.validateArray a k with
  | error err => rw [hv] at h; cases h
  | ok u => rfl

/-- **Decoding.**  A validated array with one dim a step decodes row by row. -/
theorem decode_eq {leadingDims : List ℕ} (hv : e.validateArray a leadingDims.length = .ok ())
    (hd : a.dtype = .f64) (hscalar : ∀ d, e ≠ .scalar d) (hshape : a.shape = leadingDims ++ [width])
    (hdeclared : ∀ w, declaredWidth e = some w → w = width) (hw : 0 < width) :
    decode a e leadingDims.length = decodeRows e (chunksExact width (doublesOf a.bytes)) := by
  have hvalues : a.toF64Vec = .ok (doublesOf a.bytes) := by
    unfold TypedArray.toF64Vec
    rw [if_neg (not_not.mpr hd)]
    rfl
  have hat : a.shape[leadingDims.length]? = some width := by
    rw [hshape, List.getElem?_append_right (le_refl _), Nat.sub_self]
    rfl
  have hne : width ≠ 0 := by omega
  unfold decode
  rw [hv, hvalues]
  cases e with
  | scalar d => exact absurd rfl (hscalar d)
  | tuple arity d =>
    rw [hdeclared arity rfl]
    simp [Except.orHalt, Except.mapError, bind, Except.bind, hd, hne, pure, Except.pure, mapErr]
  | linearFunction =>
    rw [← hdeclared 2 rfl]
    simp [Except.orHalt, Except.mapError, bind, Except.bind, hd, pure, Except.pure, mapErr]
  | quadraticFunction =>
    rw [← hdeclared 3 rfl]
    simp [Except.orHalt, Except.mapError, bind, Except.bind, hd, pure, Except.pure, mapErr]
  | piecewiseLinear =>
    simp [Except.orHalt, Except.mapError, bind, Except.bind, hd, hne, hat, pure, Except.pure, mapErr]
  | piecewiseStep =>
    simp [Except.orHalt, Except.mapError, bind, Except.bind, hd, hne, hat, pure, Except.pure, mapErr]

/-! ### The round trip -/

/-- An encoded array is validated where its counts are doubles, and decodes row by row once it is. -/
theorem PacksAs.decode {v : DecodedValues} (h : PacksAs v e width) {leadingDims : List ℕ}
    (hv : e.validateArray (arrayOfRows leadingDims width (v.rows width)) leadingDims.length = .ok ()) :
    decode (arrayOfRows leadingDims width (v.rows width)) e leadingDims.length =
      decodeRows e (v.rows width) := by
  rw [decode_eq hv rfl h.unstructured rfl h.declared h.pos, doublesOf_arrayOfRows,
    chunksExact_flatten h.pos h.length]

omit [FloatText] in
theorem slotsNeeded_ge (e : ElementType) (n : ℕ) : n ≤ slotsNeeded e n := by
  unfold slotsNeeded
  split
  · omega
  · split <;> omega

/-- **The round trip.**  Encoded values decode to themselves exactly where every count of points among
them is one a double is. -/
theorem decode_encode_iff {v : DecodedValues} {leadingDims : List ℕ} (h : encode v leadingDims = .ok a)
    (he : elementTypeOf v = some e) :
    decode a e leadingDims.length = .ok v ↔ ∀ n ∈ v.counts, CountExact n := by
  obtain ⟨e', width, hpacks, rfl, hcount⟩ := encode_ok h
  obtain rfl : e' = e := Option.some.inj (hpacks.type.symm.trans he)
  obtain ⟨hlt, -, -⟩ := elementCount_append hcount
  have hvalid := validateArray_iff (e := e') (a := arrayOfRows leadingDims width (v.rows width)) rfl
    hpacks.pos
  rw [doublesOf_arrayOfRows, chunksExact_flatten hpacks.pos hpacks.length] at hvalid
  constructor
  · intro hok
    have hv := decode_validated hok
    obtain ⟨-, -, hfits⟩ := hvalid.mp hv
    rw [hpacks.decode hv, hpacks.reads] at hok
    intro n hn
    have hragged := isRagged_of_count he hn
    obtain ⟨r, hr, hrow, -⟩ := Catalog.forall₂_mem_right (hpacks.counted hragged) hn
    obtain ⟨w, m, hw, hm, hfit, hbound⟩ := hfits hragged r hr
    rw [hrow] at hw
    obtain rfl := Option.some.inj hw
    have hcast := F64.asUsize_of_natValue hm
    have hge := slotsNeeded_ge e' m
    rw [hok n hn, Nat.min_eq_left (by omega)] at hcast
    rw [CountExact, hcast]
    exact hcast ▸ hm
  · intro hexact
    -- a row is there for every count, so the width is a machine integer
    have hfit : ∀ n ∈ v.counts, e'.isRagged = true → slotsNeeded e' n < usizeBound := by
      intro n hn hragged
      obtain ⟨r, hr, -, hneed⟩ := Catalog.forall₂_mem_right (hpacks.counted hragged) hn
      have hpos := List.length_pos_of_mem hr
      have hwidth : width ≤ (v.rows width).length * width := Nat.le_mul_of_pos_left _ hpos
      omega
    have hv := hvalid.mpr ⟨hpacks.dtype.symm, hpacks.dims, fun hragged r hr => by
      obtain ⟨n, hn, hrow, hneed⟩ := Catalog.forall₂_mem_right (hpacks.counted hragged).flip hr
      exact ⟨_, n, hrow, hexact n hn, hneed, hfit n hn hragged⟩⟩
    rw [hpacks.decode hv, hpacks.reads]
    intro n hn
    apply (hexact n hn).asUsize
    exact lt_of_le_of_lt (slotsNeeded_ge e' n) (hfit n hn (isRagged_of_count he hn))

/-! ### Decoding is safe -/

omit [FloatText] in
/-- Rows that fit are read without leaving them, and the counts read are doubles. -/
theorem decodeRows_total (hscalar : ∀ d, e ≠ .scalar d) (hdeclared : ∀ w, declaredWidth e = some w → w = width)
    {rows : List (List F64)} (hlen : ∀ r ∈ rows, r.length = width)
    (hfits : e.isRagged = true → ∀ r ∈ rows, RowFits e width r) :
    ∃ v, decodeRows e rows = .ok v := by
  have hok : ∀ {α : Type} {read : List F64 → Except Halt α} {f : List α → DecodedValues},
      (∀ r ∈ rows, ∃ x, read r = .ok x) → ∃ v, (rows.mapM read).map f = .ok v := by
    intro α read f hall
    obtain ⟨xs, hxs⟩ := exists_mapM_eq_ok.mpr hall
    exact ⟨f xs, by rw [hxs]; rfl⟩
  cases e with
  | scalar d => exact absurd rfl (hscalar d)
  | tuple arity d => exact ⟨_, rfl⟩
  | linearFunction =>
    apply hok
    intro r hr
    have h2 := (hlen r hr).trans (hdeclared 2 rfl).symm
    match r, h2 with
    | [p, c], _ => exact ⟨_, rfl⟩
  | quadraticFunction =>
    apply hok
    intro r hr
    have h3 := (hlen r hr).trans (hdeclared 3 rfl).symm
    match r, h3 with
    | [q, p, c], _ => exact ⟨_, rfl⟩
  | piecewiseLinear =>
    apply hok
    intro r hr
    obtain ⟨v, n, h0, hn, hfit, hbound⟩ := hfits rfl r hr
    have hcast := F64.asUsize_of_natValue hn
    have hge := slotsNeeded_ge .piecewiseLinear n
    rw [Nat.min_eq_left (by omega)] at hcast
    obtain ⟨points, hp, -⟩ := pointsOfRow_ok h0 hcast (by rw [hlen r hr]; exact hfit)
    exact ⟨points, hp⟩
  | piecewiseStep =>
    apply hok
    intro r hr
    obtain ⟨v, n, h0, hn, hfit, hbound⟩ := hfits rfl r hr
    have hcast := F64.asUsize_of_natValue hn
    have hge := slotsNeeded_ge .piecewiseStep n
    rw [Nat.min_eq_left (by omega)] at hcast
    obtain ⟨step, hs, -⟩ := stepOfRow_ok h0 hcast (by rw [hlen r hr]; exact hfit)
    exact ⟨step, hs⟩

/-- **Safety.**  Decoding a validated array of doubles reads no slot that is not there. -/
theorem decode_ne_panicked (hd : a.dtype = .f64) (hv : e.validateArray a k = .ok ()) :
    decode a e k ≠ .error .panicked := by
  have hvalues : a.toF64Vec = .ok (doublesOf a.bytes) := by
    unfold TypedArray.toF64Vec
    rw [if_neg (not_not.mpr hd)]
    rfl
  by_cases hscalar : ∃ d, e = .scalar d
  · obtain ⟨d, rfl⟩ := hscalar
    unfold decode
    rw [hv, hvalues]
    simp [Except.orHalt, Except.mapError, bind, Except.bind, hd, pure, Except.pure, mapErr]
  · have hne : ∀ d, e ≠ .scalar d := fun d hd => hscalar ⟨d, hd⟩
    obtain ⟨hrank, hdims⟩ := validateArray_dims hv
    obtain ⟨width, hsingle, hdeclared, hpos⟩ := elementDims_single hne hdims
    have hshape : a.shape = a.shape.take k ++ [width] := by
      rw [← hsingle, List.take_append_drop]
    have hk : (a.shape.take k).length = k := by
      rw [List.length_take]
      omega
    by_cases hw : 0 < width
    · rw [← hk] at hv
      obtain ⟨-, -, hfits⟩ := (validateArray_iff hshape hw).mp hv
      obtain ⟨v, hok⟩ := decodeRows_total hne hdeclared (fun r hr => length_of_mem_chunksExact r hr) hfits
      rw [← hk, decode_eq hv hd hne hshape hdeclared hw, hok]
      exact fun h => by cases h
    · -- only a tuple of no values has rows of no width, and that is refused
      have hzero : width = 0 := by omega
      have htuple : ∃ d, e = .tuple 0 d := by
        cases e with
        | scalar d => exact absurd rfl (hne d)
        | tuple arity d => exact ⟨d, by rw [hdeclared arity rfl, hzero]⟩
        | linearFunction => exact absurd (hdeclared 2 rfl) (by omega)
        | quadraticFunction => exact absurd (hdeclared 3 rfl) (by omega)
        | piecewiseLinear => exact absurd (hpos rfl).1 hw
        | piecewiseStep => exact absurd (hpos rfl).1 hw
      obtain ⟨d, rfl⟩ := htuple
      unfold decode
      rw [hv, hvalues]
      simp [Except.orHalt, Except.mapError, bind, Except.bind, hd, pure, Except.pure, mapErr, throw,
        throwThe, MonadExceptOf.throw]

/-! ### Canonical arrays -/

omit [FloatText] in
/-- Decoded functions pack again, no wider than they were, and their counts are doubles. -/
theorem decodeRows_packs (hc : isComposite e = true) (hdeclared : ∀ w, declaredWidth e = some w → w = width)
    {rows : List (List F64)} (hlen : ∀ r ∈ rows, r.length = width)
    (hfits : e.isRagged = true → ∀ r ∈ rows, RowFits e width r) {v : DecodedValues}
    (hok : decodeRows e rows = .ok v) :
    elementTypeOf v = some e ∧ (∀ n ∈ v.counts, CountExact n) ∧
      ∃ w flat, packRows v = .ok (w, flat) ∧ (v.rows w).length = rows.length ∧ (rows = [] ∨ w ≤ width) := by
  have hread : ∀ {α : Type} {read : List F64 → Except Halt α} {f : List α → DecodedValues},
      (rows.mapM read).map f = .ok v →
        ∃ xs, v = f xs ∧ List.Forall₂ (fun r x => read r = .ok x) rows xs := by
    intro α read f h
    cases hm : rows.mapM read with
    | error err => rw [hm] at h; cases h
    | ok xs =>
      rw [hm] at h
      exact ⟨xs, (Except.ok.inj h).symm, mapM_eq_ok.mp hm⟩
  cases e with
  | scalar d => cases hc
  | tuple arity d => cases hc
  | linearFunction =>
    obtain ⟨xs, rfl, hall⟩ := hread hok
    refine ⟨rfl, fun n hn => (List.not_mem_nil hn).elim, 2, _, rfl, ?_, .inr (hdeclared 2 rfl).le⟩
    rw [DecodedValues.rows, List.length_map, hall.length_eq]
  | quadraticFunction =>
    obtain ⟨xs, rfl, hall⟩ := hread hok
    refine ⟨rfl, fun n hn => (List.not_mem_nil hn).elim, 3, _, rfl, ?_, .inr (hdeclared 3 rfl).le⟩
    rw [DecodedValues.rows, List.length_map, hall.length_eq]
  | piecewiseLinear =>
    obtain ⟨xs, rfl, hall⟩ := hread hok
    have hcount : ∀ points ∈ xs, CountExact points.length ∧ 2 * points.length + 1 ≤ width := by
      intro points hp
      obtain ⟨r, hr, hread⟩ := Catalog.forall₂_mem_right hall hp
      obtain ⟨w, n, h0, hn, hfit, hbound⟩ := hfits rfl r hr
      have hcast := F64.asUsize_of_natValue hn
      have hge := slotsNeeded_ge .piecewiseLinear n
      rw [Nat.min_eq_left (by omega)] at hcast
      obtain ⟨points', hp', hlen'⟩ := pointsOfRow_ok h0 hcast (by rw [hlen r hr]; exact hfit)
      obtain rfl := Except.ok.inj (hread.symm.trans hp')
      rw [hlen']
      exact ⟨countExact_of_natValue hn, hfit⟩
    refine ⟨rfl, ?_, _, _, rfl, ?_, ?_⟩
    · intro n hn
      obtain ⟨points, hp, rfl⟩ := List.mem_map.mp hn
      exact (hcount points hp).1
    · rw [DecodedValues.rows, List.length_map, hall.length_eq]
    · cases xs with
      | nil => exact .inl (List.forall₂_nil_right_iff.mp hall)
      | cons p xs =>
        right
        have hp := (hcount p List.mem_cons_self).2
        have hmax : ((p :: xs).map List.length).foldr max 0 ≤ (width - 1) / 2 := by
          apply foldr_max_le
          intro n hn
          obtain ⟨points, hp, rfl⟩ := List.mem_map.mp hn
          have := (hcount points hp).2
          omega
        omega
  | piecewiseStep =>
    obtain ⟨xs, rfl, hall⟩ := hread hok
    have hcount : ∀ step ∈ xs, CountExact step.x.length ∧ step.y.length = step.x.length - 1 ∧
        (if step.x.length = 0 then 1 else 2 * step.x.length) ≤ width := by
      intro step hs
      obtain ⟨r, hr, hread⟩ := Catalog.forall₂_mem_right hall hs
      obtain ⟨w, n, h0, hn, hfit, hbound⟩ := hfits rfl r hr
      have hcast := F64.asUsize_of_natValue hn
      have hge := slotsNeeded_ge .piecewiseStep n
      rw [Nat.min_eq_left (by omega)] at hcast
      obtain ⟨step', hs', hx, hy, -⟩ := stepOfRow_ok h0 hcast (by rw [hlen r hr]; exact hfit)
      obtain rfl := Except.ok.inj (hread.symm.trans hs')
      rw [hx, hy]
      exact ⟨countExact_of_natValue hn, rfl, hfit⟩
    have hnone : xs.zipIdx.find? (fun r => r.1.y.length ≠ r.1.x.length - 1) = none := by
      apply List.find?_eq_none.mpr
      intro r hr
      have := (hcount r.1 (List.fst_mem_of_mem_zipIdx hr)).2.1
      simpa using this
    refine ⟨rfl, ?_, max (2 * (xs.map fun s => s.x.length).foldr max 0) 1,
      xs.flatMap (rowOfStep (max (2 * (xs.map fun s => s.x.length).foldr max 0) 1)), ?_, ?_, ?_⟩
    · intro n hn
      obtain ⟨step, hs, rfl⟩ := List.mem_map.mp hn
      exact (hcount step hs).1
    · simp only [packRows, hnone]
    · rw [DecodedValues.rows, List.length_map, hall.length_eq]
    · cases xs with
      | nil => exact .inl (List.forall₂_nil_right_iff.mp hall)
      | cons s xs =>
        right
        have hs := (hcount s List.mem_cons_self).2.2
        have hmax : ((s :: xs).map fun s => s.x.length).foldr max 0 ≤ width / 2 := by
          apply foldr_max_le
          intro n hn
          obtain ⟨step, hs, rfl⟩ := List.mem_map.mp hn
          have := (hcount step hs).2.2
          split at this <;> omega
        have hpos : 1 ≤ width := by split at hs <;> omega
        omega

omit [FloatText] in
/-- A checked array's dims, and the room its bytes take. -/
theorem checked_dims {leadingDims : List ℕ} (h : a.checkBytes = .ok ())
    (hshape : a.shape = leadingDims ++ [width]) (hd : a.dtype = .f64) :
    leadingDims.foldlM checkedMul 1 = some leadingDims.prod ∧
      leadingDims.prod * width * 8 < usizeBound ∧
      (doublesOf a.bytes).length = leadingDims.prod * width := by
  have hwell := TypedArray.wellFormed_of_checkBytes h
  unfold TypedArray.checkBytes at h
  obtain ⟨n, hn, -⟩ := except_bind_eq_ok.mp h
  unfold expectedBytes at hn
  obtain ⟨m, hm, hn⟩ := except_bind_eq_ok.mp hn
  rw [hshape] at hm
  obtain ⟨-, hfold, hprod⟩ := elementCount_append hm
  rw [hd, hprod] at hn
  refine ⟨hfold, ?_, ?_⟩
  · cases hc : checkedMul (leadingDims.prod * width) Dtype.f64.size with
    | none =>
      rw [hc] at hn
      cases hn
    | some b =>
      have heq := checkedMul_eq_some hc
      unfold checkedMul at hc
      split at hc
      · assumption
      · cases hc
  · have hlen : a.bytes.length = leadingDims.prod * width * 8 := by
      rw [hwell, hshape, hd, List.prod_append, List.prod_singleton]
      rfl
    rw [length_doublesOf, hlen, Nat.mul_div_cancel _ (by decide)]

omit [FloatText] in
theorem checkBytes_arrayOfRows {leadingDims : List ℕ} {rows : List (List F64)}
    (hlen : ∀ r ∈ rows, r.length = width) (hrows : rows.length = leadingDims.prod)
    (hfold : leadingDims.foldlM checkedMul 1 = some leadingDims.prod)
    (hlt : leadingDims.prod * width * 8 < usizeBound) :
    (arrayOfRows leadingDims width rows).checkBytes = .ok () := by
  have hbytes : (arrayOfRows leadingDims width rows).bytes.length = leadingDims.prod * width * 8 := by
    have hsize : ∀ values : List F64, (values.flatMap F64.toLeBytes).length = values.length * 8 := by
      intro values
      induction values with
      | nil => rfl
      | cons v values ih =>
        have h8 : v.toLeBytes.length = 8 := length_leBytes 8 _
        rw [List.flatMap_cons, List.length_append, ih, h8, List.length_cons]
        omega
    rw [arrayOfRows, hsize, length_rows_flatten hlen, hrows]
  have hexpected : expectedBytes .f64 (leadingDims ++ [width]) = .ok (leadingDims.prod * width * 8) := by
    unfold expectedBytes
    rw [elementCount_of_lt hfold (by omega)]
    apply except_bind_eq_ok.mpr
    refine ⟨_, rfl, ?_⟩
    rw [checkedMul, show Dtype.f64.size = 8 from rfl, if_pos hlt]
  unfold TypedArray.checkBytes
  rw [show expectedBytes (arrayOfRows leadingDims width rows).dtype
    (arrayOfRows leadingDims width rows).shape = _ from hexpected]
  simp only [bind, Except.bind]
  rw [if_neg (not_not.mpr hbytes)]

/-- **Canonical arrays.**  A checked and validated array of functions has a canonical array, over the same
leading dims: it is checked and validated, decodes to the same values, and is its own canonical array. -/
theorem canonicalArray_spec {leadingDims dims : List ℕ} (hcheck : a.checkBytes = .ok ())
    (hc : isComposite e = true) (hshape : a.shape = leadingDims ++ dims)
    (hv : e.validateArray a leadingDims.length = .ok ()) :
    ∃ v c, decode a e leadingDims.length = .ok v ∧ canonicalArray a e leadingDims = .ok c ∧
      encode v leadingDims = .ok c ∧ c.checkBytes = .ok () ∧ (∃ w, c.shape = leadingDims ++ [w]) ∧
      e.validateArray c leadingDims.length = .ok () ∧ decode c e leadingDims.length = .ok v ∧
      canonicalArray c e leadingDims = .ok c := by
  have hne : ∀ d, e ≠ .scalar d := by
    intro d hd
    rw [hd] at hc
    cases hc
  have hphysical : e.physicalDtype = .f64 := by
    cases e with
    | scalar d => cases hc
    | tuple arity d => cases hc
    | _ => rfl
  have hd : a.dtype = .f64 := (ElementType.validateArray_dtype hv).trans hphysical
  obtain ⟨-, hdims⟩ := validateArray_dims hv
  rw [hshape, List.drop_left' rfl] at hdims
  obtain ⟨width, rfl, hdeclared, hragged⟩ := elementDims_single hne hdims
  have hw : 0 < width := by
    cases e with
    | scalar d => cases hc
    | tuple arity d => cases hc
    | linearFunction => exact (hdeclared 2 rfl) ▸ Nat.two_pos
    | quadraticFunction => exact (hdeclared 3 rfl) ▸ Nat.succ_pos 2
    | piecewiseLinear => exact (hragged rfl).1
    | piecewiseStep => exact (hragged rfl).1
  obtain ⟨-, -, hfits⟩ := (validateArray_iff hshape hw).mp hv
  have hlen : ∀ r ∈ chunksExact width (doublesOf a.bytes), r.length = width :=
    fun r hr => length_of_mem_chunksExact r hr
  obtain ⟨hfold, hroom, hvalues⟩ := checked_dims hcheck hshape hd
  have hrows : (chunksExact width (doublesOf a.bytes)).length = leadingDims.prod := by
    rw [length_chunksExact, hvalues, Nat.mul_div_cancel _ hw]
  obtain ⟨v, hok⟩ := decodeRows_total hne hdeclared hlen hfits
  obtain ⟨htype, hexact, w, flat, hpack, hcount, hnarrow⟩ := decodeRows_packs hc hdeclared hlen hfits hok
  rw [hrows] at hcount
  have hroom' : leadingDims.prod * w * 8 < usizeBound := by
    cases hnarrow with
    | inl hnil =>
      have hzero : leadingDims.prod = 0 := by rw [← hrows, hnil]; rfl
      rw [hzero, Nat.zero_mul]
      decide
    | inr hle =>
      have := Nat.mul_le_mul_left leadingDims.prod hle
      omega
  have hencode := encode_of hpack hcount hfold (by omega)
  have hdecode : decode a e leadingDims.length = .ok v := by
    rw [decode_eq hv hd hne hshape hdeclared hw, hok]
  have hback := (decode_encode_iff hencode htype).mpr hexact
  have hraw : v ≠ .raw := by
    intro hraw
    rw [hraw] at htype
    cases htype
  have hcanonical : ∀ b, decode b e leadingDims.length = .ok v →
      canonicalArray b e leadingDims = .ok (arrayOfRows leadingDims w (v.rows w)) := by
    intro b hb
    unfold canonicalArray
    rw [hc, hb, if_neg (by decide)]
    simp only [bind, Except.bind]
    rw [if_neg hraw, hencode]
    rfl
  obtain ⟨-, e', hpacks⟩ := packRows_ok hpack
  exact ⟨v, _, hdecode, hcanonical a hdecode, hencode,
    checkBytes_arrayOfRows hpacks.length hcount hfold hroom', ⟨w, rfl⟩, decode_validated hback, hback,
    hcanonical _ hback⟩

end Decode

namespace Store.Sample

/-- A curve of no points and one of one, in a row of two: one slot more than they need, with something in
it. -/
def paddedCurves : TypedArray :=
  { dtype := .f64, shape := [2, 5],
    bytes := [F64.ofUsize 1, ⟨7⟩, ⟨8⟩, ⟨9⟩, ⟨9⟩, ⟨0⟩, ⟨5⟩, ⟨5⟩, ⟨5⟩, ⟨5⟩].flatMap F64.toLeBytes }

/-- A curve of one point more than the doubles count. -/
def longCurve : DecodedValues := .piecewiseLinear [List.replicate (2 ^ 53 + 1) ⟨⟨0⟩, ⟨0⟩⟩]

end Store.Sample

end InfraStore
