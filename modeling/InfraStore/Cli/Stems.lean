import InfraStore.Tabular.Partition
import InfraStore.Tabular.SqliteNames

/-!
# File names of an export

An export writes one file a series, named by the series' owner, name and type.  Names that would
collide, even only by case, take the rest of the identity as a suffix, cut at 60 bytes, and a number
where that is not enough.

* `toLowercase`: `str::to_lowercase`, with the rule for a final sigma;
* `identitySuffix`, `uniqueFileStems`: the names of an export;
* `unique_file_stems_iff`: the names are distinct and safe exactly when no suffix is cut inside a
  character, which is the one way to panic.
-/

namespace InfraStore.Cli

open Lib
open Tabular (Name)

/-! ### Unicode text -/

/-- The Unicode tables `char` and `str` answer from. -/
class UnicodeTables where
  isAlphanumeric : Char → Bool
  isCased : Char → Bool
  isCaseIgnorable : Char → Bool
  lowerChar : Char → List Char

/-- What the tables say of the characters a name is joined and numbered by. -/
class LawfulUnicodeTables [UnicodeTables] : Prop where
  separators : UnicodeTables.isAlphanumeric '/' = false ∧ UnicodeTables.isAlphanumeric '\\' = false
  joint : UnicodeTables.isCased '_' = false ∧ UnicodeTables.isCaseIgnorable '_' = false
  lower : ∀ c, c = '_' ∨ c.isDigit = true → UnicodeTables.lowerChar c = [c]

section

variable [UnicodeTables]

open UnicodeTables

/-- Whether the first character that is not case-ignorable is cased. -/
def caseIgnorableThenCased (cs : Name) : Bool :=
  ((cs.find? fun c => !isCaseIgnorable c).map isCased).getD false

/-- Lower-case the rest of a text, given what stands before it, last character first. -/
def lowerAfter : Name → Name → Name
  | _, [] => []
  | before, c :: rest =>
    (if c = 'Σ' then
      [if caseIgnorableThenCased before && !caseIgnorableThenCased rest then 'ς' else 'σ']
    else lowerChar c) ++ lowerAfter (c :: before) rest

/-- `str::to_lowercase`. -/
def toLowercase (s : Name) : Name := lowerAfter [] s

/-- The length of a text in bytes. -/
def byteLen (s : Name) : ℕ := (s.map Char.utf8Size).sum

/-- `String::truncate`, if the cut does not fall inside a character. -/
def truncate : ℕ → Name → Option Name
  | _, [] => some []
  | n, c :: cs =>
    if n = 0 then some []
    else if n < c.utf8Size then none
    else (truncate (n - c.utf8Size) cs).map (c :: ·)

/-- A text no longer than a number of bytes, or with a character boundary there. -/
def CutsAt (n : ℕ) (s : Name) : Prop := byteLen s ≤ n ∨ ∃ k, byteLen (s.take k) = n

/-! ### Names of an export -/

variable {H : Type} [FloatText]

/-- Map the characters a path may not hold to `-`. -/
def sanitize (raw : Name) : Name :=
  raw.map fun c => if isAlphanumeric c || c = '_' || c = '-' || c = '.' then c else '-'

/-- `<owner_id>_<owner_type>_<name>_<type>`, safe as a file name. -/
def fileStem (m : TimeSeriesMetadata H) : Name :=
  sanitize s!"{m.ownerId}_{m.ownerType}_{m.name}_{m.timeSeriesType.asStr}".toList

/-- A feature value as text. -/
def featureValueStr : FeatureValue → String
  | .int v => toString v
  | .float v => FloatText.display v
  | .bool v => toString v
  | .str v => v

/-- The identity fields a plain stem omits, as one safe text; none if the series carries none. -/
def identityText (m : TimeSeriesMetadata H) : Option Name :=
  let parts : List String :=
    m.resolution.toList.map Period.toIso8601 ++ m.interval.toList.map Period.toIso8601 ++
      m.features.entries.map fun e => s!"{e.1}-{featureValueStr e.2}"
  if parts = [] then none else some (sanitize ("_".intercalate parts).toList)

/-- How naming the files can stop short. -/
inductive StemStop where
  | panicked
  | outOfFuel
  deriving DecidableEq

/-- The longest suffix, in bytes: long feature maps would push past filesystem name limits. -/
def suffixMax : ℕ := 60

/-- The identity text as a suffix. -/
def identitySuffix (m : TimeSeriesMetadata H) : Except StemStop (Option Name) :=
  match identityText m with
  | none => .ok none
  | some text =>
    match truncate suffixMax text with
    | none => .error .panicked
    | some suffix => .ok (some suffix)

/-- The plain stem of a row, with its identity where the stem is shared. -/
def chosenStem (lowered : List Name) (m : TimeSeriesMetadata H) : Except StemStop Name :=
  let base := fileStem m
  if 1 < lowered.count (toLowercase base) then do
    match ← identitySuffix m with
    | some suffix => .ok (base ++ '_' :: suffix)
    | none => .ok base
  else .ok base

/-- A stem with a number. -/
def numbered (stem : Name) (n : ℕ) : Name := stem ++ '_' :: Nat.toDigits 10 n

/-- A stem that is free, numbered from 2 if it is not itself free. -/
def placeStem (fuel : ℕ) (taken : List Name) (stem : Name) : Except StemStop Name :=
  if toLowercase stem ∈ taken then
    match Names.fresh toLowercase (numbered stem) taken fuel 2 with
    | some stem => .ok stem
    | none => .error .outOfFuel
  else .ok stem

/-- Name the rows in order. -/
def stemsFrom (fuel : ℕ) (lowered : List Name) :
    List Name → List (TimeSeriesMetadata H) → Except StemStop (List Name)
  | _, [] => .ok []
  | taken, m :: metas => do
    let chosen ← chosenStem lowered m
    let stem ← placeStem fuel taken chosen
    let stems ← stemsFrom fuel lowered (toLowercase stem :: taken) metas
    .ok (stem :: stems)

/-- The plain stems of the rows, lower-cased. -/
def loweredStems (metas : List (TimeSeriesMetadata H)) : List Name :=
  metas.map fun m => toLowercase (fileStem m)

/-- One filename stem a row; `fuel` bounds the numbers tried for one. -/
def uniqueFileStems (fuel : ℕ) (metas : List (TimeSeriesMetadata H)) : Except StemStop (List Name) :=
  stemsFrom fuel (loweredStems metas) [] metas

/-! ### What a name may be -/

/-- A text free of path separators. -/
def PathSafe (s : Name) : Prop := ∀ c ∈ s, c ≠ '/' ∧ c ≠ '\\'

/-- What a row is named: its chosen stem, or that with a number up to a limit. -/
def Named (lowered : List Name) (limit : ℕ) (m : TimeSeriesMetadata H) (stem : Name) : Prop :=
  ∃ chosen, chosenStem lowered m = .ok chosen ∧
    (stem = chosen ∨ ∃ n, 2 ≤ n ∧ n ≤ limit ∧ stem = numbered chosen n)

/-- No row whose plain stem is shared has an identity text that the limit would cut inside a
character. -/
def CutsCleanly (metas : List (TimeSeriesMetadata H)) : Prop :=
  ∀ m ∈ metas, 1 < (loweredStems metas).count (toLowercase (fileStem m)) →
    ∀ text, identityText m = some text → CutsAt suffixMax text

end

/-! ### Cutting -/

section

theorem mem_toDigits {n : ℕ} {c : Char} (h : c ∈ Nat.toDigits 10 n) : c.isDigit = true :=
  Nat.isDigit_of_mem_toDigits (by decide) (by decide) h

theorem PathSafe.join {s t : Name} (hs : PathSafe s) (ht : PathSafe t) : PathSafe (s ++ '_' :: t) := by
  intro c hc
  cases List.mem_append.mp hc with
  | inl h => exact hs c h
  | inr h =>
    cases h with
    | head => decide
    | tail _ h => exact ht c h

theorem pathSafe_digits (n : ℕ) : PathSafe (Nat.toDigits 10 n) := by
  intro c hc
  have hdigit := mem_toDigits hc
  constructor
  · rintro rfl
    exact absurd hdigit (by decide)
  · rintro rfl
    exact absurd hdigit (by decide)

@[simp] theorem byteLen_nil : byteLen [] = 0 := rfl

@[simp] theorem byteLen_cons (c : Char) (cs : Name) : byteLen (c :: cs) = c.utf8Size + byteLen cs := by
  simp [byteLen]

theorem truncate_isSome_iff (n : ℕ) (s : Name) : (∃ cut, truncate n s = some cut) ↔ CutsAt n s := by
  induction s generalizing n with
  | nil => simp [truncate, CutsAt]
  | cons c cs ih =>
    have hpos := c.utf8Size_pos
    unfold truncate CutsAt
    by_cases h₀ : n = 0
    · simp only [h₀, if_true]
      exact ⟨fun _ => Or.inr ⟨0, rfl⟩, fun _ => ⟨[], rfl⟩⟩
    · by_cases h₁ : n < c.utf8Size
      · simp only [h₀, h₁, if_false, if_true]
        constructor
        · intro h
          cases h with
          | intro cut h => cases h
        · intro h
          rw [byteLen_cons] at h
          cases h with
          | inl h => omega
          | inr h =>
            obtain ⟨k, hk⟩ := h
            cases k with
            | zero => exact absurd hk.symm h₀
            | succ k =>
              rw [List.take_succ_cons, byteLen_cons] at hk
              omega
      · simp only [h₀, h₁, if_false]
        have hrest : (∃ cut, (truncate (n - c.utf8Size) cs).map (c :: ·) = some cut) ↔
            ∃ cut, truncate (n - c.utf8Size) cs = some cut := by
          simp [Option.map_eq_some_iff]
        rw [hrest, ih, byteLen_cons]
        unfold CutsAt
        apply or_congr
        · omega
        · constructor
          · intro h
            obtain ⟨k, hk⟩ := h
            refine ⟨k + 1, ?_⟩
            rw [List.take_succ_cons, byteLen_cons]
            omega
          · intro h
            obtain ⟨k, hk⟩ := h
            cases k with
            | zero => exact absurd hk.symm h₀
            | succ k =>
              rw [List.take_succ_cons, byteLen_cons] at hk
              exact ⟨k, by omega⟩

theorem truncate_sublist {n : ℕ} {s cut : Name} (h : truncate n s = some cut) : cut.Sublist s := by
  induction s generalizing n cut with
  | nil =>
    cases h
    exact List.Sublist.refl _
  | cons c cs ih =>
    unfold truncate at h
    split at h
    · cases h
      exact List.nil_sublist _
    · split at h
      · cases h
      · obtain ⟨rest, hrest, hcut⟩ := Option.map_eq_some_iff.mp h
        rw [← hcut]
        exact (ih hrest).cons_cons c

end

section

variable [UnicodeTables] {H : Type} [FloatText]

/-- A suffix is cut, or the program panics, by whether the limit falls inside a character. -/
theorem identitySuffix_cases (m : TimeSeriesMetadata H) :
    ((∀ text, identityText m = some text → CutsAt suffixMax text) ∧
      ∃ suffix, identitySuffix m = .ok suffix) ∨
    ((∃ text, identityText m = some text ∧ ¬ CutsAt suffixMax text) ∧
      identitySuffix m = .error .panicked) := by
  unfold identitySuffix
  cases htext : identityText m with
  | none => exact Or.inl ⟨fun text h => (nomatch h), none, rfl⟩
  | some text =>
    by_cases hcut : CutsAt suffixMax text
    · obtain ⟨cut, h⟩ := (truncate_isSome_iff _ _).mpr hcut
      refine Or.inl ⟨fun t ht => Option.some.inj ht ▸ hcut, some cut, ?_⟩
      simp only [h]
    · have hnone : truncate suffixMax text = none := by
        cases h : truncate suffixMax text with
        | none => rfl
        | some cut => exact absurd ((truncate_isSome_iff _ _).mp ⟨cut, h⟩) hcut
      refine Or.inr ⟨⟨text, rfl, hcut⟩, ?_⟩
      simp only [hnone]

theorem chosenStem_cases (lowered : List Name) (m : TimeSeriesMetadata H) :
    ((1 < lowered.count (toLowercase (fileStem m)) →
        ∀ text, identityText m = some text → CutsAt suffixMax text) ∧
      ∃ stem, chosenStem lowered m = .ok stem) ∨
    ((1 < lowered.count (toLowercase (fileStem m)) ∧
        ∃ text, identityText m = some text ∧ ¬ CutsAt suffixMax text) ∧
      chosenStem lowered m = .error .panicked) := by
  unfold chosenStem
  by_cases hshared : 1 < lowered.count (toLowercase (fileStem m))
  · simp only [if_pos hshared]
    cases identitySuffix_cases m with
    | inl h =>
      obtain ⟨hcut, suffix, hsuffix⟩ := h
      refine Or.inl ⟨fun _ => hcut, ?_⟩
      rw [hsuffix]
      cases suffix with
      | none => exact ⟨_, rfl⟩
      | some suffix => exact ⟨_, rfl⟩
    | inr h =>
      refine Or.inr ⟨⟨hshared, h.1⟩, ?_⟩
      rw [h.2]
      rfl
  · simp only [if_neg hshared]
    exact Or.inl ⟨fun h => absurd h hshared, _, rfl⟩

end

/-! ### Lower case -/

section

variable [UnicodeTables] [LawfulUnicodeTables]

open UnicodeTables

/-- What follows a joint does not decide the form of a sigma before it. -/
theorem caseIgnorableThenCased_append (cs t : Name) :
    caseIgnorableThenCased (cs ++ '_' :: t) = caseIgnorableThenCased cs := by
  have hjoint := LawfulUnicodeTables.joint
  unfold caseIgnorableThenCased
  rw [List.find?_append]
  cases cs.find? fun c => !isCaseIgnorable c with
  | some c => rfl
  | none => simp [hjoint.1, hjoint.2]

theorem lowerAfter_plain (before t : Name) (ht : ∀ c ∈ t, c = '_' ∨ c.isDigit = true) :
    lowerAfter before t = t := by
  induction t generalizing before with
  | nil => rfl
  | cons c cs ih =>
    have hc := ht c List.mem_cons_self
    have hne : c ≠ 'Σ' := by
      rintro rfl
      cases hc with
      | inl h => exact absurd h (by decide)
      | inr h => exact absurd h (by decide)
    unfold lowerAfter
    rw [if_neg hne, LawfulUnicodeTables.lower c hc, ih _ fun d hd => ht d (List.mem_cons_of_mem _ hd)]
    rfl

theorem lowerAfter_append (before s t : Name) (ht : ∀ c ∈ t, c = '_' ∨ c.isDigit = true) :
    lowerAfter before (s ++ '_' :: t) = lowerAfter before s ++ '_' :: t := by
  induction s generalizing before with
  | nil =>
    refine lowerAfter_plain before ('_' :: t) fun c hc => ?_
    cases hc with
    | head => exact Or.inl rfl
    | tail _ hc => exact ht c hc
  | cons c cs ih =>
    rw [List.cons_append]
    unfold lowerAfter
    rw [ih, caseIgnorableThenCased_append, List.append_assoc]

/-- A number stays a number in lower case. -/
theorem toLowercase_numbered (stem : Name) (n : ℕ) :
    toLowercase (numbered stem n) = toLowercase stem ++ '_' :: Nat.toDigits 10 n :=
  lowerAfter_append [] stem _ fun _ hc => Or.inr (mem_toDigits hc)

theorem numbered_injective (stem : Name) : Function.Injective fun n => toLowercase (numbered stem n) := by
  intro m n h
  simp only [toLowercase_numbered] at h
  exact Tabular.toDigits_injective (List.cons.inj (List.append_cancel_left h)).2

/-! ### Separators -/

theorem pathSafe_sanitize (raw : Name) : PathSafe (sanitize raw) := by
  intro c hc
  have hsep := LawfulUnicodeTables.separators
  unfold sanitize at hc
  obtain ⟨d, -, rfl⟩ := List.mem_map.mp hc
  split
  · rename_i hd
    constructor
    · rintro rfl
      simp [hsep.1] at hd
    · rintro rfl
      simp [hsep.2] at hd
  · decide

/-! ### Naming the rows -/

variable {H : Type} [FloatText]

theorem pathSafe_identitySuffix {m : TimeSeriesMetadata H} {suffix : Name}
    (h : identitySuffix m = .ok (some suffix)) : PathSafe suffix := by
  unfold identitySuffix at h
  cases htext : identityText m with
  | none => rw [htext] at h; cases h
  | some text =>
    rw [htext] at h
    cases hcut : truncate suffixMax text with
    | none => simp only [hcut] at h; cases h
    | some cut =>
      simp only [hcut] at h
      cases h
      have hsub := (truncate_sublist hcut).subset
      unfold identityText at htext
      simp only at htext
      split at htext
      · cases htext
      · cases htext
        intro c hc
        exact pathSafe_sanitize _ c (hsub hc)

theorem pathSafe_chosenStem {lowered : List Name} {m : TimeSeriesMetadata H} {stem : Name}
    (h : chosenStem lowered m = .ok stem) : PathSafe stem := by
  unfold chosenStem at h
  simp only at h
  split at h
  · cases hsuffix : identitySuffix m with
    | error e => rw [hsuffix] at h; cases h
    | ok suffix =>
      rw [hsuffix] at h
      cases suffix with
      | none =>
        cases h
        exact pathSafe_sanitize _
      | some suffix =>
        cases h
        exact (pathSafe_sanitize _).join (pathSafe_identitySuffix hsuffix)
  · cases h
    exact pathSafe_sanitize _

theorem Named.pathSafe {lowered : List Name} {limit : ℕ} {m : TimeSeriesMetadata H} {stem : Name}
    (h : Named lowered limit m stem) : PathSafe stem := by
  obtain ⟨chosen, hchosen, h⟩ := h
  have hsafe := pathSafe_chosenStem hchosen
  cases h with
  | inl h => exact h ▸ hsafe
  | inr h =>
    obtain ⟨n, -, -, rfl⟩ := h
    exact hsafe.join (pathSafe_digits n)

omit [FloatText] in
/-- With more fuel than names taken a stem finds a free form, its number at most two past them. -/
theorem placeStem_spec {fuel : ℕ} {taken : List Name} (stem : Name) (hfuel : taken.length < fuel) :
    ∃ placed, placeStem fuel taken stem = .ok placed ∧ toLowercase placed ∉ taken ∧
      (placed = stem ∨ ∃ n, 2 ≤ n ∧ n ≤ taken.length + 2 ∧ placed = numbered stem n) := by
  unfold placeStem
  by_cases hmem : toLowercase stem ∈ taken
  · obtain ⟨k, hk, hle, hfresh, hfree⟩ :=
      Names.fresh_bounded (n := 2) (numbered_injective stem) hfuel
    refine ⟨numbered stem k, ?_, hfree, Or.inr ⟨k, hk, by omega, rfl⟩⟩
    rw [if_pos hmem, hfresh]
  · exact ⟨stem, by rw [if_neg hmem], hmem, Or.inl rfl⟩

/-- Rows whose suffixes cut cleanly are all named, apart from one another and from what is taken. -/
theorem stemsFrom_spec {fuel limit : ℕ} {lowered : List Name} (metas : List (TimeSeriesMetadata H))
    (taken : List Name) (hfuel : taken.length + metas.length ≤ fuel)
    (hlimit : taken.length + metas.length < limit)
    (hcut : ∀ m ∈ metas, ∃ stem, chosenStem lowered m = .ok stem) :
    ∃ stems, stemsFrom fuel lowered taken metas = .ok stems ∧
      List.Forall₂ (Named lowered limit) metas stems ∧ (stems.map toLowercase).Nodup ∧
      ∀ stem ∈ stems, toLowercase stem ∉ taken := by
  induction metas generalizing taken with
  | nil => exact ⟨[], rfl, .nil, List.nodup_nil, by simp⟩
  | cons m metas ih =>
    rw [List.length_cons] at hfuel hlimit
    obtain ⟨chosen, hchosen⟩ := hcut m List.mem_cons_self
    obtain ⟨stem, hplaced, hfree, hform⟩ := @placeStem_spec _ _ fuel taken chosen (by omega)
    obtain ⟨stems, hstems, hnamed, hnodup, hnew⟩ :=
      ih (toLowercase stem :: taken) (by rw [List.length_cons]; omega)
        (by rw [List.length_cons]; omega) fun m' hm => hcut m' (List.mem_cons_of_mem _ hm)
    refine ⟨stem :: stems, ?_, .cons ⟨chosen, hchosen, ?_⟩ hnamed, ?_, ?_⟩
    · unfold stemsFrom
      rw [hchosen]
      show (placeStem fuel taken chosen >>= _) = _
      rw [hplaced]
      show (stemsFrom fuel lowered (toLowercase stem :: taken) metas >>= _) = _
      rw [hstems]
      rfl
    · cases hform with
      | inl h => exact Or.inl h
      | inr h =>
        obtain ⟨n, hn, hle, h⟩ := h
        exact Or.inr ⟨n, hn, by omega, h⟩
    · rw [List.map_cons, List.nodup_cons]
      refine ⟨fun h => ?_, hnodup⟩
      obtain ⟨other, hother, e⟩ := List.mem_map.mp h
      exact hnew other hother (e ▸ List.mem_cons_self)
    · intro other hother
      cases hother with
      | head => exact hfree
      | tail _ hother => exact fun h => hnew other hother (List.mem_cons_of_mem _ h)

/-- One row whose suffix cannot be cut stops the naming. -/
theorem stemsFrom_panics {fuel : ℕ} {lowered : List Name} (metas : List (TimeSeriesMetadata H))
    (taken : List Name) (hfuel : taken.length + metas.length ≤ fuel)
    (hbad : ∃ m ∈ metas, chosenStem lowered m = .error .panicked) :
    stemsFrom fuel lowered taken metas = .error .panicked := by
  induction metas generalizing taken with
  | nil => simp at hbad
  | cons m metas ih =>
    rw [List.length_cons] at hfuel
    unfold stemsFrom
    cases chosenStem_cases lowered m with
    | inr h =>
      rw [h.2]
      rfl
    | inl h =>
      obtain ⟨-, chosen, hchosen⟩ := h
      obtain ⟨stem, hplaced, -, -⟩ := @placeStem_spec _ _ fuel taken chosen (by omega)
      have hrest : ∃ m' ∈ metas, chosenStem lowered m' = .error .panicked := by
        obtain ⟨m', hm, h⟩ := hbad
        cases hm with
        | head =>
          rw [hchosen] at h
          cases h
        | tail _ hm => exact ⟨m', hm, h⟩
      rw [hchosen]
      show (placeStem fuel taken chosen >>= _) = _
      rw [hplaced]
      show (stemsFrom fuel lowered (toLowercase stem :: taken) metas >>= _) = _
      rw [ih (toLowercase stem :: taken) (by rw [List.length_cons]; omega) hrest]
      rfl

/-- **File names.**  With fuel for a number a row, every row is named, in order, by a stem free of path
separators, no two alike in lower case and no number past the rows by more than one, exactly when no
shared stem's identity text is cut inside a character; when one is, the naming panics. -/
theorem unique_file_stems_iff (metas : List (TimeSeriesMetadata H)) {fuel : ℕ}
    (hfuel : metas.length ≤ fuel) :
    ((∃ stems, uniqueFileStems fuel metas = .ok stems ∧
        List.Forall₂ (Named (loweredStems metas) (metas.length + 1)) metas stems ∧
        (stems.map toLowercase).Nodup ∧ ∀ stem ∈ stems, PathSafe stem) ↔ CutsCleanly metas) ∧
      (¬ CutsCleanly metas → uniqueFileStems fuel metas = .error .panicked) := by
  have hpanics : ¬ CutsCleanly metas → uniqueFileStems fuel metas = .error .panicked := by
    intro hbad
    refine stemsFrom_panics metas [] (by simpa using hfuel) ?_
    by_contra hnone
    refine hbad fun m hm => ?_
    cases chosenStem_cases (loweredStems metas) m with
    | inl h => exact h.1
    | inr h => exact absurd ⟨m, hm, h.2⟩ hnone
  refine ⟨⟨fun h => ?_, fun hcut => ?_⟩, hpanics⟩
  · obtain ⟨stems, hstems, -⟩ := h
    by_contra hbad
    rw [hpanics hbad] at hstems
    cases hstems
  · obtain ⟨stems, hstems, hnamed, hnodup, -⟩ :=
      @stemsFrom_spec _ _ H _ fuel (metas.length + 1) (loweredStems metas) metas []
        (by simpa using hfuel) (by simp) fun m hm => by
          cases chosenStem_cases (loweredStems metas) m with
          | inl h => exact h.2
          | inr h =>
            obtain ⟨hshared, text, htext, hbad⟩ := h.1
            exact absurd (hcut m hm hshared text htext) hbad
    refine ⟨stems, hstems, hnamed, hnodup, fun stem hstem => ?_⟩
    obtain ⟨m, -, h⟩ := Catalog.forall₂_mem_right hnamed hstem
    exact h.pathSafe

end

namespace Sample

scoped instance : FloatText := ⟨fun v => toString v.bits, fun _ => "", fun _ => .ok []⟩

/-- ASCII, and every other character a letter of no case. -/
scoped instance : UnicodeTables where
  isAlphanumeric c := c.isAlphanum || 128 ≤ c.toNat
  isCased c := c.isAlpha
  isCaseIgnorable c := c = '.'
  lowerChar c := [c.toLower]

scoped instance : LawfulUnicodeTables where
  separators := by decide
  joint := by decide
  lower c hc := by
    have hc' : c.toLower = c := by
      cases hc with
      | inl h => exact h ▸ rfl
      | inr h => exact Tabular.toLower_of_isDigit h
    exact congrArg (fun d => [d]) hc'

/-- A series of one bus, by a model year. -/
def dated (year : String) : TimeSeriesMetadata Unit :=
  { ownerId := 1, ownerType := "Bus", ownerCategory := .component
    timeSeriesType := .nonSequentialTimeSeries, name := "load", dataHash := ()
    initialTimestamp := none, resolution := none, length := none, horizon := none
    interval := none, count := none, timestamps := none
    features := ⟨[("yr", .str year)], List.pairwise_singleton _ _⟩
    units := none, quantityKind := none, unitSystem := none, timeReference := none
    componentField := none, percentiles := none, elementType := .scalar .f64
    elementShape := [], applicationData := none, id := none }

theorem unique_file_stems_dated : ∃ stems, uniqueFileStems 2 [dated "2030", dated "2031"] = .ok stems ∧
    stems.length = 2 ∧ (stems.map toLowercase).Nodup := by
  have hshort : [dated "2030", dated "2031"].all (fun m =>
      (identityText m).all fun text => byteLen text ≤ suffixMax) = true := by
    decide +kernel
  have hcut : CutsCleanly [dated "2030", dated "2031"] := by
    intro m hm _ text htext
    have h := List.all_eq_true.mp hshort m hm
    rw [htext] at h
    exact Or.inl (of_decide_eq_true h)
  have hfuel : [dated "2030", dated "2031"].length ≤ 2 := by decide
  obtain ⟨stems, hstems, hnamed, hnodup, -⟩ :=
    (unique_file_stems_iff [dated "2030", dated "2031"] hfuel).1.mpr hcut
  exact ⟨stems, hstems, hnamed.length_eq.symm, hnodup⟩

/-- A second year spelled in two-byte letters: the cut at byte 60 falls inside one. -/
theorem accented_suffix_panics :
    uniqueFileStems 2 [dated "2030", dated (String.ofList (List.replicate 40 'é'))] =
      .error .panicked := by
  decide +kernel

end Sample

end InfraStore.Cli
