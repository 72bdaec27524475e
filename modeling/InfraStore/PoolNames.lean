import InfraStore.Lib.Fields
import InfraStore.OffsetBytes
import InfraStore.PeriodParsing
import InfraStore.WriteBuffer

/-!
# Names of pools

A packed pool is one or more datasets, and the index over them is rebuilt from their names alone when
a file is opened.

* `datasetBaseName`, `spillName`, `parseDatasetName`: the name of a pool's dataset, and its inverse;
* `MemberKind`, `classify`: what the members of the group are taken for;
* `hashFromHex_hashHex`: a hash comes back from its digits;
* `pool_names_exact`: a name is decoded as its pool, and no two datasets and no companion share one.
-/

namespace InfraStore

open Lib

/-- A content hash. -/
abbrev Hash32 : Type := { bytes : List UInt8 // bytes.length = 32 }

/-! ### Hashes as digits -/

/-- The two digits of a byte. -/
def byteHex (b : UInt8) : List Char := [Nat.digitChar (b.toNat / 16), Nat.digitChar (b.toNat % 16)]

/-- A hash as 64 digits. -/
def hashHex (h : Hash32) : List Char := h.1.flatMap byteHex

/-- `to_digit(16)`. -/
def hexDigit (b : UInt8) : Option ℕ :=
  if 48 ≤ b.toNat ∧ b.toNat ≤ 57 then some (b.toNat - 48)
  else if 97 ≤ b.toNat ∧ b.toNat ≤ 102 then some (b.toNat - 87)
  else if 65 ≤ b.toNat ∧ b.toNat ≤ 70 then some (b.toNat - 55)
  else none

/-- The bytes of pairs of digits. -/
def hexBytes : List UInt8 → Option (List UInt8)
  | hi :: lo :: rest =>
    (hexDigit hi).bind fun h => (hexDigit lo).bind fun l =>
      (hexBytes rest).map (UInt8.ofNat (h * 16 + l) :: ·)
  | [] => some []
  | [_] => none

theorem length_hexBytes : ∀ {digits bytes : List UInt8}, hexBytes digits = some bytes →
    digits.length = 2 * bytes.length
  | [], bytes, h => by
    cases h
    rfl
  | [_], bytes, h => by cases h
  | _ :: _ :: rest, bytes, h => by
    rw [hexBytes] at h
    obtain ⟨hi, -, h⟩ := Option.bind_eq_some_iff.mp h
    obtain ⟨lo, -, h⟩ := Option.bind_eq_some_iff.mp h
    obtain ⟨more, hmore, rfl⟩ := Option.map_eq_some_iff.mp h
    have := length_hexBytes hmore
    simp only [List.length_cons]
    omega

/-- The hash of 64 digits, in either case. -/
def hashFromHex (s : List Char) : Option Hash32 :=
  if h : (utf8 s).length = 64 then
    match hb : hexBytes (utf8 s) with
    | some bytes => some ⟨bytes, by have := length_hexBytes hb; omega⟩
    | none => none
  else none

/-- The digits of a hash off a dataset's name. -/
def hexToHash (s : List Char) : Result Hash32 :=
  match hashFromHex s with
  | some h => .ok h
  | none => .error (.integrityError s!"expected 64 hex chars, got {(String.ofList s).quote}")

/-! ### Names -/

/-- Dataset prefix of a pool of regular series. -/
def regularPrefix : List Char := "sts_".toList

/-- Dataset prefix of a pool of series with an explicit axis. -/
def irregularPrefix : List Char := "nsts_".toList

/-- What a dataset's hash companion is named by. -/
def hashSuffix : List Char := "_h".toList

/-- Prefix of an array stored on its own. -/
def standalonePrefix : List Char := "arr_".toList

namespace PackGroup

def namePrefix : PackGroup Hash32 → List Char
  | regular _ => regularPrefix
  | irregular _ => irregularPrefix

/-- The group's part of a dataset name. -/
def suffix : PackGroup Hash32 → List Char
  | regular resolution => resolution.isoChars
  | irregular hash => hashHex hash

end PackGroup

/-- The dims of an element, joined by `x`. -/
def encodeShape (elementShape : List ℕ) : List Char :=
  if elementShape = [] then ['s'] else ['x'].intercalate (elementShape.map (Nat.toDigits 10))

def decodeShape (s : List Char) : Result (List ℕ) :=
  if s = ['s'] then .ok []
  else (s.splitOn 'x').mapM fun p =>
    match parseUsize p with
    | some d => .ok d
    | none => .error (.integrityError s!"bad element shape '{String.ofList s}'")

/-- The name of a pool's first dataset. -/
def datasetBaseName (k : PoolKey Hash32) : List Char :=
  k.group.namePrefix ++ (k.dtype.asStr.toList ++ '_' :: (encodeShape k.elementShape ++
    '_' :: (Nat.toDigits 10 k.length ++ '_' :: k.group.suffix)))

/-- The name of a pool's `n`-th dataset. -/
def spillName (base : List Char) (n : ℕ) : List Char :=
  if n = 0 then base else base ++ '_' :: '_' :: Nat.toDigits 10 n

/-- The pool named by what follows a name's prefix. -/
def parseCore (name core : List Char) (irregular : Bool) : Result (PoolKey Hash32) :=
  match splitn '_' 4 (beforeDouble '_' core) with
  | [dtypeText, shapeText, lengthText, suffixText] =>
    match Dtype.parse dtypeText with
    | none => .error (.integrityError s!"bad dtype in {String.ofList name}")
    | some dtype =>
      (decodeShape shapeText).bind fun elementShape =>
        match parseUsize lengthText with
        | none => .error (.integrityError s!"bad length in {String.ofList name}")
        | some length =>
          if irregular then
            match hexToHash suffixText with
            | .ok hash => .ok { dtype, elementShape, length, group := .irregular hash }
            | .error _ => .error (.integrityError s!"bad timestamps hash in {String.ofList name}")
          else
            match Period.fromIso8601 (String.ofList suffixText) with
            | .ok resolution => .ok { dtype, elementShape, length, group := .regular resolution }
            | .error _ => .error (.integrityError s!"bad resolution in {String.ofList name}")
  | _ => .error (.integrityError s!"bad dataset name {String.ofList name}")

/-- Recover a packed dataset's pool from its name, whichever of the pool's datasets it is. -/
def parseDatasetName (name : List Char) : Result (PoolKey Hash32) :=
  if irregularPrefix.isPrefixOf name then parseCore name (name.drop irregularPrefix.length) true
  else if regularPrefix.isPrefixOf name then parseCore name (name.drop regularPrefix.length) false
  else .error (.integrityError
    s!"dataset {String.ofList name} has neither a 'sts_' nor an 'nsts_' prefix")

/-- What a member of the group of arrays is taken for when the index is rebuilt. -/
inductive MemberKind where
  | companion
  | standalone (hash : Hash32)
  | packed (key : PoolKey Hash32)

/-- One turn of `rebuild_index`, as far as the name decides it. -/
def classify (name : List Char) : Result MemberKind :=
  if hashSuffix.isSuffixOf name then .ok .companion
  else if standalonePrefix.isPrefixOf name then
    (hexToHash (name.drop standalonePrefix.length)).map .standalone
  else (parseDatasetName name).map .packed

/-! ### Hashes come back -/

theorem digit_spec : ∀ n < 16, let c := Nat.digitChar n
    c.toNat < 128 ∧ c ≠ '_' ∧ hexDigit (UInt8.ofNat c.toNat) = some n := by
  decide

theorem byteHex_spec (b : UInt8) : ∀ c ∈ byteHex b, c.toNat < 128 ∧ c ≠ '_' := by
  have hb : b.toNat < 256 := b.toNat_lt
  intro c hc
  simp only [byteHex, List.mem_cons, List.not_mem_nil, or_false] at hc
  rcases hc with rfl | rfl
  · obtain ⟨h1, h2, -⟩ := digit_spec (b.toNat / 16) (by omega)
    exact ⟨h1, h2⟩
  · obtain ⟨h1, h2, -⟩ := digit_spec (b.toNat % 16) (by omega)
    exact ⟨h1, h2⟩

theorem hashHex_spec (h : Hash32) : ∀ c ∈ hashHex h, c.toNat < 128 ∧ c ≠ '_' := by
  intro c hc
  obtain ⟨b, -, hc⟩ := List.mem_flatMap.mp hc
  exact byteHex_spec b c hc

theorem length_flatMap_byteHex (bytes : List UInt8) :
    (bytes.flatMap byteHex).length = 2 * bytes.length := by
  induction bytes with
  | nil => rfl
  | cons b bytes ih =>
    rw [List.flatMap_cons, List.length_append, ih, List.length_cons, byteHex]
    simp only [List.length_cons, List.length_nil]
    omega

theorem length_hashHex (h : Hash32) : (hashHex h).length = 64 := by
  rw [hashHex, length_flatMap_byteHex, h.2]

theorem hexBytes_byteHex (bytes : List UInt8) :
    hexBytes ((bytes.flatMap byteHex).map fun c => UInt8.ofNat c.toNat) = some bytes := by
  induction bytes with
  | nil => rfl
  | cons b bytes ih =>
    have hb : b.toNat < 256 := b.toNat_lt
    obtain ⟨-, -, hhi⟩ := digit_spec (b.toNat / 16) (by omega)
    obtain ⟨-, -, hlo⟩ := digit_spec (b.toNat % 16) (by omega)
    have hback : UInt8.ofNat (b.toNat / 16 * 16 + b.toNat % 16) = b := by
      rw [show b.toNat / 16 * 16 + b.toNat % 16 = b.toNat by omega, UInt8.ofNat_toNat]
    rw [List.flatMap_cons, byteHex, List.cons_append, List.cons_append, List.nil_append,
      List.map_cons, List.map_cons, hexBytes, hhi, Option.bind_some, hlo, Option.bind_some, ih,
      Option.map_some, hback]

/-- **A hash comes back** from its digits. -/
theorem hashFromHex_hashHex (h : Hash32) : hashFromHex (hashHex h) = some h := by
  have hbytes : utf8 (hashHex h) = (hashHex h).map fun c => UInt8.ofNat c.toNat :=
    TimeReference.utf8_ascii fun c hc => (hashHex_spec h c hc).1
  have hlen : (utf8 (hashHex h)).length = 64 := by
    rw [hbytes, List.length_map, length_hashHex]
  have hhex : hexBytes (utf8 (hashHex h)) = some h.1 := by
    rw [hbytes]
    exact hexBytes_byteHex h.1
  unfold hashFromHex
  rw [dif_pos hlen]
  split
  · rename_i bytes hb
    rw [hhex] at hb
    cases hb
    rfl
  · rename_i hb
    rw [hhex] at hb
    cases hb

/-! ### Shapes come back -/

theorem mem_intercalate {x c : Char} {ls : List (List Char)} (h : c ∈ [x].intercalate ls) :
    c = x ∨ ∃ l ∈ ls, c ∈ l := by
  induction ls with
  | nil => cases h
  | cons l ls ih =>
    cases ls with
    | nil =>
      rw [List.intercalate_singleton] at h
      exact Or.inr ⟨l, by simp, h⟩
    | cons l' ls =>
      rw [List.intercalate_cons_cons, List.mem_append, List.mem_append] at h
      rcases h with (h | h) | h
      · exact Or.inr ⟨l, by simp, h⟩
      · exact Or.inl (List.mem_singleton.mp h)
      · rcases ih h with h | ⟨m, hm, hc⟩
        · exact Or.inl h
        · exact Or.inr ⟨m, List.mem_cons_of_mem _ hm, hc⟩

theorem intercalate_ne_nil {x : Char} {l : List Char} {ls : List (List Char)} (h : l ≠ []) :
    [x].intercalate (l :: ls) ≠ [] := by
  cases ls with
  | nil =>
    rw [List.intercalate_singleton]
    exact h
  | cons l' ls =>
    rw [List.intercalate_cons_cons]
    simp [h]

theorem encodeShape_spec (elementShape : List ℕ) :
    '_' ∉ encodeShape elementShape ∧ encodeShape elementShape ≠ [] ∧
      (elementShape ≠ [] → 's' ∉ encodeShape elementShape) := by
  unfold encodeShape
  split
  · rename_i hnil
    exact ⟨by decide, by decide, fun h => absurd hnil h⟩
  · rename_i hne
    have hdigit : ∀ c, c ≠ 'x' → c.isDigit = false →
        c ∉ ['x'].intercalate (elementShape.map (Nat.toDigits 10)) := by
      intro c hx hc hmem
      rcases mem_intercalate hmem with h | ⟨l, hl, h⟩
      · exact hx h
      · obtain ⟨d, -, rfl⟩ := List.mem_map.mp hl
        rw [Period.isDigit_toDigits h] at hc
        cases hc
    refine ⟨hdigit _ (by decide) (by decide), ?_, fun _ => hdigit _ (by decide) (by decide)⟩
    obtain ⟨d, ds, rfl⟩ := List.exists_cons_of_ne_nil hne
    rw [List.map_cons]
    exact intercalate_ne_nil Nat.toDigits_ne_nil

/-- **An element shape comes back** from its text. -/
theorem decodeShape_encodeShape {elementShape : List ℕ} (h : ∀ d ∈ elementShape, d < usizeBound) :
    decodeShape (encodeShape elementShape) = .ok elementShape := by
  by_cases hnil : elementShape = []
  · subst hnil
    rfl
  · obtain ⟨-, -, hs⟩ := encodeShape_spec elementShape
    have hne : encodeShape elementShape ≠ ['s'] := by
      intro heq
      exact hs hnil (by rw [heq]; exact List.mem_singleton.mpr rfl)
    have hsplit : (encodeShape elementShape).splitOn 'x' = elementShape.map (Nat.toDigits 10) := by
      unfold encodeShape
      rw [if_neg hnil, List.splitOn_intercalate]
      · intro l hl hx
        obtain ⟨d, -, rfl⟩ := List.mem_map.mp hl
        exact absurd (Period.isDigit_toDigits hx) (by decide)
      · simpa using hnil
    unfold decodeShape
    rw [if_neg hne, hsplit, mapM_eq_ok, List.forall₂_map_left_iff, List.forall₂_same]
    intro d hd
    rw [ElementType.parseUsize_toDigits (h d hd)]

/-! ### Fields hold no underscore -/

theorem body_ne_nil {t : DurationText} {p : Period} (h : t.Denotes p) : t.body ≠ [] := by
  intro hnil
  unfold DurationText.body at hnil
  obtain ⟨hdate, htime⟩ := List.append_eq_nil_iff.mp hnil
  have hnone : t.date = [] := by
    cases hcs : t.date with
    | nil => rfl
    | cons c cs =>
      rw [hcs, List.flatMap_cons, Component.chars] at hdate
      simp at hdate
  have htime' : t.time = none := by
    cases hcs : t.time with
    | none => rfl
    | some cs =>
      rw [hcs] at htime
      cases htime
  have hcalendar : t.calendar = [] := by
    unfold DurationText.calendar
    rw [hnone]
    rfl
  have hfixed : t.fixed = [] := by
    unfold DurationText.fixed
    rw [hnone, htime']
    rfl
  cases p with
  | months m => exact h.1 hcalendar
  | fixed d => exact h.2.1 hfixed

/-- A group's part of a name is told apart from what surrounds it. -/
theorem suffix_spec {g : PackGroup Hash32} (h : ∀ p, g = .regular p → p.isPositive = true) :
    '_' ∉ g.suffix ∧ 2 ≤ g.suffix.length := by
  cases g with
  | irregular hash =>
    constructor
    · intro hmem
      exact (hashHex_spec hash _ hmem).2 rfl
    · show 2 ≤ (hashHex hash).length
      rw [length_hashHex]
      omega
  | regular p =>
    have hwhole : p.IsWhole := by
      cases p with
      | months m => trivial
      | fixed d =>
        have hp := h _ rfl
        rw [Period.isPositive, Bool.and_eq_true, decide_eq_true_iff, decide_eq_true_iff] at hp
        exact hp.2
    obtain ⟨t, ht, hchars, hp⟩ := Period.exists_durationText hwhole
    have hbody := body_ne_nil hp
    constructor
    · intro hmem
      change '_' ∈ p.isoChars at hmem
      rw [← hchars, DurationText.chars, List.mem_append, List.mem_cons] at hmem
      rcases hmem with hmem | hmem | hmem
      · split at hmem
        · exact absurd (List.mem_singleton.mp hmem) (by decide)
        · exact List.not_mem_nil hmem
      · exact absurd hmem (by decide)
      · rcases Period.body_chars ht _ hmem with h | h | h <;> exact absurd h (by decide)
    · show 2 ≤ p.isoChars.length
      have hlen := List.length_pos_of_ne_nil hbody
      rw [← hchars, DurationText.chars, List.length_append, List.length_cons]
      omega

theorem dtype_spec (d : Dtype) : '_' ∉ d.asStr.toList ∧ d.asStr.toList ≠ [] := by
  cases d <;> decide

theorem digits_spec (n : ℕ) : '_' ∉ Nat.toDigits 10 n ∧ Nat.toDigits 10 n ≠ [] := by
  constructor
  · intro hmem
    exact absurd (Period.isDigit_toDigits hmem) (by decide)
  · exact Nat.toDigits_ne_nil

/-! ### Names come back -/

/-- A pool whose dims are machine integers and whose resolution, if it has one, is positive. -/
structure PoolKey.Valid (k : PoolKey Hash32) : Prop where
  elementShape : ∀ d ∈ k.elementShape, d < usizeBound
  length : k.length < usizeBound
  resolution : ∀ p, k.group = .regular p → p.isPositive = true

/-- The fields of a name but the last. -/
def nameFields (k : PoolKey Hash32) : List (List Char) :=
  [k.dtype.asStr.toList, encodeShape k.elementShape, Nat.toDigits 10 k.length]

theorem datasetBaseName_eq (k : PoolKey Hash32) : datasetBaseName k =
    k.group.namePrefix ++ ((nameFields k).flatMap (fun f => f ++ ['_']) ++ k.group.suffix) := by
  unfold datasetBaseName nameFields
  simp

/-- What follows a pool's name in one of its datasets'. -/
theorem spillName_eq (base : List Char) (n : ℕ) :
    ∃ rest, spillName base n = base ++ rest ∧ (rest = [] ∨ ∃ more, rest = '_' :: '_' :: more) := by
  unfold spillName
  split
  · exact ⟨[], by simp, Or.inl rfl⟩
  · exact ⟨_, rfl, Or.inr ⟨_, rfl⟩⟩

/-- The fields of a dataset's name. -/
theorem split_core {k : PoolKey Hash32} (hk : k.Valid) {rest : List Char}
    (hrest : rest = [] ∨ ∃ more, rest = '_' :: '_' :: more) :
    splitn '_' 4 (beforeDouble '_'
      ((nameFields k).flatMap (fun f => f ++ ['_']) ++ k.group.suffix ++ rest)) =
        [k.dtype.asStr.toList, encodeShape k.elementShape, Nat.toDigits 10 k.length,
          k.group.suffix] := by
  obtain ⟨hsuffix, hlong⟩ := suffix_spec hk.resolution
  have hfields : ∀ f ∈ nameFields k ++ [k.group.suffix], '_' ∉ f ∧ f ≠ [] := by
    intro f hf
    simp only [nameFields, List.cons_append, List.nil_append, List.mem_cons, List.not_mem_nil,
      or_false] at hf
    rcases hf with rfl | rfl | rfl | rfl
    · exact dtype_spec _
    · obtain ⟨h1, h2, -⟩ := encodeShape_spec k.elementShape
      exact ⟨h1, h2⟩
    · exact digits_spec _
    · refine ⟨hsuffix, ?_⟩
      intro hnil
      rw [hnil] at hlong
      simp at hlong
  rw [beforeDouble_append _ _ (fun f hf => (hfields f hf).1) (fun f hf => (hfields f hf).2) hrest]
  exact splitn_intercalate (nameFields k) k.group.suffix fun f hf =>
    (hfields f (List.mem_append_left _ hf)).1

/-- What follows the prefix of a dataset's name is read as its pool. -/
theorem parseCore_eq {k : PoolKey Hash32} (hk : k.Valid) (name : List Char) {rest : List Char}
    (hrest : rest = [] ∨ ∃ more, rest = '_' :: '_' :: more) :
    parseCore name ((nameFields k).flatMap (fun f => f ++ ['_']) ++ k.group.suffix ++ rest)
      (match k.group with | .regular _ => false | .irregular _ => true) = .ok k := by
  unfold parseCore
  rw [split_core hk hrest]
  simp only
  rw [ElementType.dtype_parse, decodeShape_encodeShape hk.elementShape]
  simp only [Except.bind]
  rw [ElementType.parseUsize_toDigits hk.length]
  obtain ⟨dtype, elementShape, length, group⟩ := k
  cases group with
  | irregular hash =>
    have hhash : hexToHash (PackGroup.irregular hash).suffix = .ok hash := by
      unfold hexToHash
      rw [show (PackGroup.irregular hash).suffix = hashHex hash from rfl, hashFromHex_hashHex]
    simp only [if_true]
    rw [hhash]
  | regular p =>
    have hperiod : Period.fromIso8601 (String.ofList (PackGroup.regular p).suffix) = .ok p := by
      have h := Period.fromIso8601_toIso8601 p
      rw [Period.wholeMillis_of_isPositive (hk.resolution p rfl)] at h
      exact h
    simp only [Bool.false_eq_true, if_false]
    rw [hperiod]

/-- **A dataset's name is decoded as its pool**, whichever of the pool's datasets it is. -/
theorem parseDatasetName_spillName {k : PoolKey Hash32} (hk : k.Valid) (n : ℕ) :
    parseDatasetName (spillName (datasetBaseName k) n) = .ok k := by
  obtain ⟨rest, hname, hrest⟩ := spillName_eq (datasetBaseName k) n
  have hcore := parseCore_eq hk (spillName (datasetBaseName k) n) hrest
  generalize spillName (datasetBaseName k) n = name at hname hcore ⊢
  rw [datasetBaseName_eq, List.append_assoc] at hname
  generalize (nameFields k).flatMap (fun f => f ++ ['_']) ++ k.group.suffix ++ rest = core
    at hname hcore
  unfold parseDatasetName
  cases hg : k.group with
  | irregular hash =>
    rw [hg] at hname hcore
    have hprefix : irregularPrefix.isPrefixOf name = true := by
      rw [hname, List.isPrefixOf_iff_prefix]
      exact List.prefix_append _ _
    rw [if_pos hprefix, hname]
    show parseCore _ ((irregularPrefix ++ core).drop irregularPrefix.length) true = _
    rw [List.drop_left, ← hcore, hname]
  | regular p =>
    rw [hg] at hname hcore
    have hother : irregularPrefix.isPrefixOf name = false := by
      rw [hname]
      rfl
    have hprefix : regularPrefix.isPrefixOf name = true := by
      rw [hname, List.isPrefixOf_iff_prefix]
      exact List.prefix_append _ _
    rw [if_neg (by rw [hother]; exact Bool.false_ne_true), if_pos hprefix, hname]
    show parseCore _ ((regularPrefix ++ core).drop regularPrefix.length) false = _
    rw [List.drop_left, ← hcore, hname]

/-! ### Names tell datasets apart -/

/-- The datasets of a pool have different names. -/
theorem spillName_injective {base : List Char} {n m : ℕ} (h : spillName base n = spillName base m) :
    n = m := by
  have hlong : ∀ k : ℕ, base ≠ base ++ '_' :: '_' :: Nat.toDigits 10 k := by
    intro k hk
    have := congrArg List.length hk
    simp at this
  unfold spillName at h
  split at h
  · rename_i hn
    split at h
    · rename_i hm
      rw [hn, hm]
    · exact absurd h (hlong m)
  · split at h
    · exact absurd h.symm (hlong n)
    · have hdigits := List.append_cancel_left h
      injection hdigits with _ hdigits
      injection hdigits with _ hdigits
      have := congrArg (fun l => Nat.ofDigitChars 10 l 0) hdigits
      simpa only [Nat.ofDigitChars_ten_toDigits] using this

/-- No dataset is named as a companion. -/
theorem not_companion {k : PoolKey Hash32} (hk : k.Valid) (n : ℕ) :
    ¬ hashSuffix <:+ spillName (datasetBaseName k) n := by
  intro h
  have hchars : hashSuffix = ['_', 'h'] := rfl
  rw [hchars] at h
  unfold spillName at h
  split at h
  · obtain ⟨hsuffix, hlong⟩ := suffix_spec hk.resolution
    have htail : k.group.suffix <:+ datasetBaseName k := by
      rw [datasetBaseName_eq, ← List.append_assoc]
      exact List.suffix_append _ _
    have hin := List.suffix_of_suffix_length_le h htail hlong
    exact hsuffix (hin.subset (by simp))
  · have hlast : ['h'] <:+ datasetBaseName k ++ '_' :: '_' :: Nat.toDigits 10 n :=
      (List.suffix_append ['_'] ['h']).trans h
    have htail : Nat.toDigits 10 n <:+ datasetBaseName k ++ '_' :: '_' :: Nat.toDigits 10 n :=
      ⟨datasetBaseName k ++ ['_', '_'], by simp⟩
    have hpos : 0 < (Nat.toDigits 10 n).length := List.length_pos_of_ne_nil Nat.toDigits_ne_nil
    have hin := List.suffix_of_suffix_length_le hlast htail hpos
    have hmem : 'h' ∈ Nat.toDigits 10 n := hin.subset (List.mem_singleton.mpr rfl)
    exact absurd (Period.isDigit_toDigits hmem) (by decide)

/-- No dataset is named as an array stored on its own. -/
theorem not_standalone (k : PoolKey Hash32) (n : ℕ) :
    standalonePrefix.isPrefixOf (spillName (datasetBaseName k) n) = false := by
  obtain ⟨rest, hname, -⟩ := spillName_eq (datasetBaseName k) n
  rw [hname, datasetBaseName_eq]
  cases k.group <;> rfl

/-- A stored array's own dataset is recognized as its. -/
theorem classify_standalone (h : Hash32) :
    classify (standalonePrefix ++ hashHex h) = .ok (.standalone h) := by
  have hnot : ¬ hashSuffix.isSuffixOf (standalonePrefix ++ hashHex h) = true := by
    rw [List.isSuffixOf_iff_suffix]
    intro hin
    have hin := List.suffix_of_suffix_length_le hin (List.suffix_append _ _)
      (show hashSuffix.length ≤ (hashHex h).length by rw [length_hashHex]; decide)
    exact (hashHex_spec h _ (hin.subset (show '_' ∈ hashSuffix by decide))).2 rfl
  have hprefix : standalonePrefix.isPrefixOf (standalonePrefix ++ hashHex h) = true := by
    rw [List.isPrefixOf_iff_prefix]
    exact List.prefix_append _ _
  unfold classify
  rw [if_neg hnot, if_pos hprefix, List.drop_left, hexToHash, hashFromHex_hashHex]
  rfl

/-- **Pool names are exact.**  Every dataset's name is decoded as its pool; two datasets of one name are
one dataset of one pool; no dataset is named as a companion; and when the index is rebuilt a dataset is
taken for one of its pool, and its companion for a companion. -/
theorem pool_names_exact {k : PoolKey Hash32} (hk : k.Valid) :
    (∀ n, parseDatasetName (spillName (datasetBaseName k) n) = .ok k) ∧
    (∀ (k' : PoolKey Hash32) (n n' : ℕ), k'.Valid →
      spillName (datasetBaseName k) n = spillName (datasetBaseName k') n' → k = k' ∧ n = n') ∧
    (∀ (k' : PoolKey Hash32) (n n' : ℕ),
      spillName (datasetBaseName k) n ≠ spillName (datasetBaseName k') n' ++ hashSuffix) ∧
    (∀ n, classify (spillName (datasetBaseName k) n) = .ok (.packed k) ∧
      classify (spillName (datasetBaseName k) n ++ hashSuffix) = .ok .companion) := by
  refine ⟨parseDatasetName_spillName hk, ?_, ?_, ?_⟩
  · intro k' n n' hk' h
    have hkey : k = k' := by
      have := parseDatasetName_spillName hk n
      rw [h, parseDatasetName_spillName hk' n'] at this
      exact (Except.ok.inj this).symm
    subst hkey
    exact ⟨rfl, spillName_injective h⟩
  · intro k' n n' h
    exact not_companion hk n ⟨_, h.symm⟩
  · intro n
    have hnot : ¬ hashSuffix.isSuffixOf (spillName (datasetBaseName k) n) = true := by
      rw [List.isSuffixOf_iff_suffix]
      exact not_companion hk n
    constructor
    · unfold classify
      rw [if_neg hnot, if_neg (by rw [not_standalone]; exact Bool.false_ne_true),
        parseDatasetName_spillName hk]
      rfl
    · unfold classify
      rw [if_pos (List.isSuffixOf_iff_suffix.mpr (List.suffix_append _ _))]

namespace Sample

/-- Half-hourly pairs of three, one day long. -/
def halfHourlyPool : PoolKey Hash32 :=
  { dtype := .f64, elementShape := [3, 2], length := 48,
    group := .regular (.fixed ⟨1800000000000, by decide⟩) }

theorem pool_names_exact_half_hourly :
    parseDatasetName (spillName (datasetBaseName halfHourlyPool) 2) = .ok halfHourlyPool :=
  (pool_names_exact
    { elementShape := by decide
      length := by decide
      resolution := by
        intro p hp
        cases hp
        decide }).1 2

end Sample

end InfraStore
