import InfraStore.ContentHash
import InfraStore.ForecastReader
import InfraStore.Tabular.Forecast
import InfraStore.Tabular.Partition

/-!
# Debug text

What `{:?}` writes of the values that make up an identity.  Strings are escaped and every value is
closed, so the text of a value is told off the front of whatever follows it.

* `debugStr`, `debugInt`, `debugPeriod`, `debugFeatures`: the text of a value;
* `debugStr_delimited`, …, `debugFeatures_delimited`: it tells the value, up to the bits of a NaN.
-/

namespace InfraStore.Cli

open Lib
open Tabular (Name F64Debug)

/-- The characters that `Debug` writes by their number: those that are not printable, or that join the
one before them. -/
class DebugTables where
  isEscaped : Char → Bool

/-- The text of a double tells it, up to the bits of a NaN, and is not closed by a parenthesis. -/
class LawfulF64Debug [F64Debug] : Prop where
  tells : ∀ v w, F64Debug.debug v = F64Debug.debug w → v.bits = w.bits ∨ (v.isNan = true ∧ w.isNan = true)
  unclosed : ∀ v, ')' ∉ (F64Debug.debug v).toList

/-! ### Numbers -/

/-- `Debug` of an integer. -/
def debugInt (n : ℤ) : Name := (toString n).toList

theorem debugInt_eq (n : ℤ) :
    debugInt n = if n < 0 then '-' :: Nat.toDigits 10 n.natAbs else Nat.toDigits 10 n.natAbs := by
  cases n with
  | ofNat m =>
    rw [if_neg (by exact Int.not_lt.mpr (Int.natCast_nonneg m))]
    show m.repr.toList = _
    exact Nat.toList_repr
  | negSucc m =>
    rw [if_pos (Int.negSucc_lt_zero m)]
    show ("-" ++ (m + 1).repr).toList = _
    rw [String.toList_append, Nat.toList_repr]
    rfl

theorem isDigit_of_mem_debugInt {n : ℤ} {c : Char} (h : c ∈ debugInt n) :
    c = '-' ∨ c.isDigit = true := by
  rw [debugInt_eq] at h
  split at h
  · cases List.mem_cons.mp h with
    | inl h => exact .inl h
    | inr h => exact .inr (Period.isDigit_toDigits h)
  · exact .inr (Period.isDigit_toDigits h)

theorem debugInt_injective : Function.Injective debugInt := by
  intro m n h
  have hhead : ∀ k : ℕ, ∀ l, Nat.toDigits 10 k ≠ '-' :: l := by
    intro k l hk
    have := Period.isDigit_toDigits (n := k) (c := '-') (by rw [hk]; exact List.mem_cons_self)
    exact absurd this (by decide)
  rw [debugInt_eq, debugInt_eq] at h
  by_cases hm : m < 0 <;> by_cases hn : n < 0
  · rw [if_pos hm, if_pos hn] at h
    have := Tabular.toDigits_injective (List.cons.inj h).2
    omega
  · rw [if_pos hm, if_neg hn] at h
    exact absurd h.symm (hhead _ _)
  · rw [if_neg hm, if_pos hn] at h
    exact absurd h (hhead _ _)
  · rw [if_neg hm, if_neg hn] at h
    have := Tabular.toDigits_injective h
    omega

/-- An integer and a mark that is neither a digit nor a sign. -/
theorem debugInt_delimited {x : Char} (hx : x ≠ '-') (hd : x.isDigit = false) :
    Delimited (fun n => debugInt n ++ [x]) (fun _ => True) (· = ·) := by
  apply Delimited.terminated
  · intro n _ hmem
    cases isDigit_of_mem_debugInt hmem with
    | inl h => exact hx h
    | inr h => exact absurd h (by rw [hd]; decide)
  · intro m n _ _ h
    exact debugInt_injective h

/-- Hexadecimal digits tell the number. -/
theorem toDigits_sixteen_injective : Function.Injective (Nat.toDigits 16) := by
  have hchar : ∀ i < 16, ∀ j < 16, Nat.digitChar i = Nat.digitChar j → i = j := by decide
  have hinj : ∀ n m : ℕ, Nat.toDigits 16 m = Nat.toDigits 16 n → m = n := by
    intro n
    induction n using Nat.strongRecOn with
    | ind n ih =>
      intro m h
      rw [Nat.toDigits_eq_if (by decide), Nat.toDigits_eq_if (n := n) (by decide)] at h
      have hlen : ∀ k, 1 ≤ (Nat.toDigits 16 k).length := fun k => Nat.length_toDigits_pos
      split at h <;> split at h
      · rename_i hm hn
        exact hchar m hm n hn (List.cons.inj h).1
      · have := congrArg List.length h
        rw [List.length_append] at this
        have := hlen (n / 16)
        simp only [List.length_cons, List.length_nil] at *
        omega
      · have := congrArg List.length h
        rw [List.length_append] at this
        have := hlen (m / 16)
        simp only [List.length_cons, List.length_nil] at *
        omega
      · rename_i hm hn
        obtain ⟨h1, h2⟩ := List.append_inj' h rfl
        have hq := ih (n / 16) (by omega) (m / 16) h1
        have hr := hchar (m % 16) (Nat.mod_lt m (by decide)) (n % 16) (Nat.mod_lt n (by decide))
          (List.cons.inj h2).1
        omega
  intro m n h
  exact hinj n m h

/-! ### Strings -/

/-- The letter a character is escaped by. -/
def escapeLetter (c : Char) : Option Char :=
  if c = '\x00' then some '0'
  else if c = '\t' then some 't'
  else if c = '\r' then some 'r'
  else if c = '\n' then some 'n'
  else if c = '"' then some '"'
  else if c = '\\' then some '\\'
  else none

section

variable [DebugTables]

/-- A character within a string, by `Debug`. -/
def debugChar (c : Char) : Name :=
  match escapeLetter c with
  | some letter => ['\\', letter]
  | none =>
    if DebugTables.isEscaped c then ['\\', 'u', '\x7b'] ++ (Nat.toDigits 16 c.toNat ++ ['\x7d']) else [c]

/-- `Debug` of a string. -/
def debugStr (s : String) : Name := '"' :: (s.toList.flatMap debugChar ++ ['"'])

omit [DebugTables] in
theorem escapeLetter_injective {c d e : Char} (hc : escapeLetter c = some e) (hd : escapeLetter d = some e) :
    c = d := by
  unfold escapeLetter at hc hd
  split_ifs at hc hd <;> first | exact absurd (hc.trans hd.symm) (by decide) | simp_all

omit [DebugTables] in
theorem escapeLetter_ne_u {c : Char} : escapeLetter c ≠ some 'u' := by
  unfold escapeLetter
  split_ifs <;> decide

omit [DebugTables] in
theorem escapeLetter_backslash {c : Char} (h : escapeLetter c = none) : c ≠ '\\' ∧ c ≠ '"' := by
  constructor
  · rintro rfl
    exact absurd h (by decide)
  · rintro rfl
    exact absurd h (by decide)

/-- What a character is written as: a letter or a number behind a backslash, or itself. -/
theorem debugChar_cases (c : Char) :
    (∃ letter, escapeLetter c = some letter ∧ letter ≠ 'u' ∧ debugChar c = ['\\', letter]) ∨
    (debugChar c = '\\' :: 'u' :: '\x7b' :: (Nat.toDigits 16 c.toNat ++ ['\x7d'])) ∨
    (c ≠ '\\' ∧ c ≠ '"' ∧ debugChar c = [c]) := by
  unfold debugChar
  cases h : escapeLetter c with
  | some letter =>
    exact .inl ⟨letter, rfl, fun e => escapeLetter_ne_u (by rw [h, e]), rfl⟩
  | none =>
    by_cases he : DebugTables.isEscaped c = true
    · exact .inr (.inl (by simp only [he, if_true]; rfl))
    · exact .inr (.inr ⟨(escapeLetter_backslash h).1, (escapeLetter_backslash h).2,
        by simp only [he]; rfl⟩)

omit [DebugTables] in
theorem hex_delimited :
    Delimited (fun c : Char => Nat.toDigits 16 c.toNat ++ ['\x7d']) (fun _ => True) (· = ·) := by
  apply Delimited.terminated
  · intro c _ hmem
    have hne : ∀ n, '\x7d' ∉ Nat.toDigits 16 n := by
      intro n
      induction n using Nat.strongRecOn with
      | ind n ih =>
        rw [Nat.toDigits_eq_if (by decide)]
        have hchar : ∀ i < 16, Nat.digitChar i ≠ '\x7d' := by decide
        split
        · rename_i hn
          exact fun h => hchar n hn (List.mem_singleton.mp h).symm
        · intro h
          cases List.mem_append.mp h with
          | inl h => exact ih (n / 16) (by omega) h
          | inr h => exact hchar (n % 16) (Nat.mod_lt n (by decide)) (List.mem_singleton.mp h).symm
    exact hne c.toNat hmem
  · intro c d _ _ h
    exact Char.toNat_inj.mp (toDigits_sixteen_injective h)

theorem debugChar_delimited : Delimited debugChar (fun _ => True) (· = ·) := by
  intro c d r r' _ _ h
  rcases debugChar_cases c with ⟨l, hl, hlu, hc⟩ | hc | ⟨hc1, -, hc⟩ <;>
    rcases debugChar_cases d with ⟨l', hl', hlu', hd⟩ | hd | ⟨hd1, -, hd⟩ <;>
      rw [hc, hd] at h
  · obtain ⟨-, h⟩ := List.cons.inj h
    obtain ⟨hletter, hr⟩ := List.cons.inj (show l :: r = l' :: r' from h)
    exact ⟨escapeLetter_injective (hletter ▸ hl) hl', hr⟩
  · obtain ⟨-, h⟩ := List.cons.inj h
    exact absurd (List.cons.inj h).1 hlu
  · exact absurd (List.cons.inj h).1.symm hd1
  · obtain ⟨-, h⟩ := List.cons.inj h
    exact absurd (List.cons.inj h).1.symm hlu'
  · have hnumber : ['\\', 'u', '\x7b'] ++ _ = ['\\', 'u', '\x7b'] ++ _ := h
    exact hex_delimited c d r r' trivial trivial (List.append_cancel_left hnumber)
  · exact absurd (List.cons.inj h).1.symm hd1
  · exact absurd (List.cons.inj h).1 hc1
  · exact absurd (List.cons.inj h).1 hc1
  · exact ⟨(List.cons.inj h).1, (List.cons.inj h).2⟩

/-- The text of a string tells the string. -/
theorem debugStr_delimited : Delimited debugStr (fun _ => True) (· = ·) := by
  have hchars : Delimited (fun cs : List Char => cs.flatMap debugChar ++ ['"']) (fun _ => True)
      (· = ·) := by
    have huntil := debugChar_delimited.flatMapUntil (x := '"') (by
      intro c _
      rcases debugChar_cases c with ⟨l, -, -, h⟩ | h | ⟨-, hq, h⟩
      · exact ⟨_, _, h, by decide⟩
      · exact ⟨_, _, h, by decide⟩
      · exact ⟨c, [], h, hq⟩)
    intro cs ds r r' _ _ h
    obtain ⟨hall, hr⟩ := huntil cs ds r r' (fun _ _ => trivial) (fun _ _ => trivial) h
    exact ⟨List.forall₂_eq_eq_eq ▸ hall, hr⟩
  intro s t r r' _ _ h
  obtain ⟨h1, h2⟩ := hchars s.toList t.toList r r' trivial trivial (List.cons.inj h).2
  exact ⟨String.toList_inj.mp h1, h2⟩

/-! ### Enumerations and periods -/

/-- `Debug` of a category: its variant's name. -/
def debugCategory (c : OwnerCategory) : Name := c.asStr.toList

/-- `Debug` of a type: its variant's name. -/
def debugType (t : TimeSeriesType) : Name := t.asStr.toList

omit [DebugTables] in
theorem debugCategory_delimited :
    Delimited (fun c => debugCategory c ++ [',']) (fun _ => True) (· = ·) := by
  apply Delimited.terminated
  · intro c _
    cases c <;> decide
  · intro c d _ _
    cases c <;> cases d <;> decide

omit [DebugTables] in
theorem debugType_delimited : Delimited (fun t => debugType t ++ [',']) (fun _ => True) (· = ·) := by
  apply Delimited.terminated
  · intro t _
    cases t <;> decide
  · intro t u _ _
    cases t <;> cases u <;> decide

/-- `Debug` of a period. -/
def debugPeriod (p : Period) : Name := p.debug.toList

/-- `Debug` of a period that may be absent. -/
def debugOption : Option Period → Name
  | none => ['N', 'o', 'n', 'e']
  | some p => ['S', 'o', 'm', 'e', '('] ++ (debugPeriod p ++ [')'])

omit [DebugTables] in
theorem debugPeriod_fixed (d : Duration) : debugPeriod (.fixed d) = "Fixed(TimeDelta \x7b secs: ".toList ++
    ((debugInt (d.nanos / 1000000000) ++ [',']) ++ (" nanos: ".toList ++
      ((debugInt (d.nanos % 1000000000) ++ [' ']) ++ ['\x7d', ')']))) := by
  unfold debugPeriod Period.debug debugInt
  simp only [String.toList_append, List.append_assoc]
  rfl

omit [DebugTables] in
theorem debugPeriod_months (m : ℤ) (h : _) : debugPeriod (.months ⟨m, h⟩) =
    "Months(".toList ++ (debugInt m ++ [')']) := by
  unfold debugPeriod Period.debug debugInt
  simp only [String.toList_append, List.append_assoc]
  rfl

omit [DebugTables] in
theorem debugFixed_delimited :
    Delimited (fun d : Duration => debugPeriod (.fixed d)) (fun _ => True) (· = ·) := by
  have hsecs := (debugInt_delimited (x := ',') (by decide) (by decide)).comap
    fun d : Duration => d.nanos / 1000000000
  have hnanos := (debugInt_delimited (x := ' ') (by decide) (by decide)).comap
    fun d : Duration => d.nanos % 1000000000
  have hcode := (hsecs.seq ((hnanos.postpend ['\x7d', ')']).prepend " nanos: ".toList)).prepend
    "Fixed(TimeDelta \x7b secs: ".toList
  intro d e r r' _ _ h
  simp only [debugPeriod_fixed] at h
  obtain ⟨⟨h1, h2⟩, hr⟩ := hcode d e r r' trivial trivial h
  exact ⟨Duration.ext (by omega), hr⟩

omit [DebugTables] in
/-- The text of a period tells the period. -/
theorem debugPeriod_delimited : Delimited debugPeriod (fun _ => True) (· = ·) := by
  intro p q r r' _ _ h
  cases p with
  | fixed d =>
    cases q with
    | fixed e =>
      obtain ⟨hde, hr⟩ := debugFixed_delimited d e r r' trivial trivial h
      exact ⟨congrArg Period.fixed hde, hr⟩
    | months n =>
      rw [debugPeriod_fixed, debugPeriod_months] at h
      exact absurd (List.cons.inj h).1 (by decide)
  | months m =>
    cases q with
    | fixed e =>
      rw [debugPeriod_fixed, debugPeriod_months] at h
      exact absurd (List.cons.inj h).1 (by decide)
    | months n =>
      rw [debugPeriod_months, debugPeriod_months] at h
      obtain ⟨hmn, hr⟩ := ((debugInt_delimited (x := ')') (by decide) (by decide)).prepend
        "Months(".toList) m.1 n.1 r r' trivial trivial h
      exact ⟨congrArg Period.months (Subtype.ext hmn), hr⟩

omit [DebugTables] in
theorem debugOption_delimited : Delimited debugOption (fun _ => True) (· = ·) := by
  intro p q r r' _ _ h
  cases p with
  | none =>
    cases q with
    | none => exact ⟨rfl, List.append_cancel_left h⟩
    | some q => exact absurd (List.cons.inj h).1 (by decide)
  | some p =>
    cases q with
    | none => exact absurd (List.cons.inj h).1 (by decide)
    | some q =>
      obtain ⟨hpq, hr⟩ := ((debugPeriod_delimited.postpend [')']).prepend ['S', 'o', 'm', 'e', '('])
        p q r r' trivial trivial h
      exact ⟨congrArg some hpq, hr⟩

/-! ### Features -/

variable [F64Debug]

/-- `Debug` of a feature value. -/
def debugValue : FeatureValue → Name
  | .int v => ['I', 'n', 't', '('] ++ (debugInt v ++ [')'])
  | .float v => ['F', 'l', 'o', 'a', 't', '('] ++ ((F64Debug.debug v).toList ++ [')'])
  | .bool v => ['B', 'o', 'o', 'l', '('] ++ ((toString v).toList ++ [')'])
  | .str v => ['S', 't', 'r', '('] ++ (debugStr v ++ [')'])

/-- `Debug` of an entry of a map. -/
def debugEntry (e : String × FeatureValue) : Name := debugStr e.1 ++ ([':', ' '] ++ debugValue e.2)

/-- `Debug` of the entries of a map. -/
def debugEntries : List (String × FeatureValue) → Name
  | [] => []
  | e :: es => debugEntry e ++ es.flatMap fun e => [',', ' '] ++ debugEntry e

/-- `Debug` of a feature map. -/
def debugFeatures (f : Features) : Name := '\x7b' :: (debugEntries f.entries ++ ['\x7d'])

theorem debugValue_delimited [LawfulF64Debug] :
    Delimited debugValue (fun _ => True) FeatureValue.Alike := by
  have hfloat : Delimited (fun v : F64 => (F64Debug.debug v).toList ++ [')']) (fun _ => True)
      fun v w => v.bits = w.bits ∨ (v.isNan = true ∧ w.isNan = true) :=
    .terminated (fun v _ => LawfulF64Debug.unclosed v)
      fun v w _ _ h => LawfulF64Debug.tells v w (String.toList_inj.mp h)
  have hbool : Delimited (fun v : Bool => (toString v).toList ++ [')']) (fun _ => True) (· = ·) :=
    .terminated (fun v _ => by cases v <;> decide) fun v w _ _ h => by
      cases v <;> cases w <;> first | rfl | exact absurd h (by decide)
  intro v w r r' _ _ h
  cases v with
  | int v =>
    cases w with
    | int w =>
      exact ((debugInt_delimited (x := ')') (by decide) (by decide)).prepend _) v w r r' trivial trivial h
    | _ => exact absurd (List.cons.inj h).1 (by decide)
  | float v =>
    cases w with
    | float w => exact (hfloat.prepend _) v w r r' trivial trivial h
    | _ => exact absurd (List.cons.inj h).1 (by decide)
  | bool v =>
    cases w with
    | bool w => exact (hbool.prepend _) v w r r' trivial trivial h
    | _ => exact absurd (List.cons.inj h).1 (by decide)
  | str v =>
    cases w with
    | str w => exact ((debugStr_delimited.postpend [')']).prepend _) v w r r' trivial trivial h
    | _ => exact absurd (List.cons.inj h).1 (by decide)

theorem debugEntry_delimited [LawfulF64Debug] :
    Delimited debugEntry (fun _ => True) fun d e => d.1 = e.1 ∧ d.2.Alike e.2 :=
  (debugStr_delimited.comap Prod.fst).seq ((debugValue_delimited.comap Prod.snd).prepend [':', ' '])

/-- The entries behind the first are each behind a comma, up to the brace. -/
theorem debugEntries_delimited [LawfulF64Debug] :
    Delimited (fun es => debugEntries es ++ ['\x7d']) (fun _ => True)
      (List.Forall₂ fun d e => d.1 = e.1 ∧ d.2.Alike e.2) := by
  have hrest := (debugEntry_delimited.prepend [',', ' ']).flatMapUntil (x := '\x7d')
    fun e _ => ⟨_, _, rfl, by decide⟩
  intro ds es r r' _ _ h
  cases ds with
  | nil =>
    cases es with
    | nil => exact ⟨.nil, (List.cons.inj h).2⟩
    | cons e es => exact absurd (List.cons.inj h).1 (by decide)
  | cons d ds =>
    cases es with
    | nil => exact absurd (List.cons.inj h).1 (by decide)
    | cons e es =>
      simp only [debugEntries, List.append_assoc (debugEntry _)] at h
      obtain ⟨hde, h⟩ := debugEntry_delimited d e _ _ trivial trivial h
      obtain ⟨hall, hr⟩ := hrest ds es r r' (fun _ _ => trivial) (fun _ _ => trivial) h
      exact ⟨.cons hde hall, hr⟩

/-- The text of a feature map tells its keys and values. -/
theorem debugFeatures_delimited [LawfulF64Debug] :
    Delimited debugFeatures (fun _ => True) Features.Alike := by
  intro f g r r' _ _ h
  exact debugEntries_delimited f.entries g.entries r r' trivial trivial (List.cons.inj h).2

end

end InfraStore.Cli
