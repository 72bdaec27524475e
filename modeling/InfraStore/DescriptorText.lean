import InfraStore.ElementType
import InfraStore.PeriodText
import InfraStore.Series

/-!
# Reading descriptors back

The element type and the time reference of a row are columns of text.

* `ElementType.parse_display`: a printable element type comes back;
* `TimeReference.parse_asStorageString`: a time reference that validates comes back, and
  `TimeReference.validate_of_parse`: one that was read validates.
-/

namespace InfraStore

/-! ### Element types -/

namespace ElementType

/-- The arity of a tuple is a machine integer. -/
def Sized : ElementType → Prop
  | tuple arity _ => arity < usizeBound
  | _ => True

/-- An element type whose text parses: no empty tuple. -/
def Printable : ElementType → Prop
  | tuple arity _ => arity ≠ 0 ∧ arity < usizeBound
  | _ => True

theorem dtype_parse (d : Dtype) : Dtype.parse d.asStr.toList = some d := by
  cases d <;> decide

theorem parseUsize_toDigits {n : ℕ} (h : n < usizeBound) :
    parseUsize (Nat.toDigits 10 n) = some n := by
  have hhead : (Nat.toDigits 10 n).head? ≠ some '+' := by
    intro he
    exact absurd (Period.isDigit_toDigits (List.mem_of_head? he)) (by decide)
  unfold parseUsize
  rw [if_neg hhead, if_pos ⟨Nat.toDigits_ne_nil, List.all_eq_true.mpr fun c => Period.isDigit_toDigits⟩]
  rw [show (Nat.toDigits 10 n).foldl (fun n c => 10 * n + (c.toNat - '0'.toNat)) 0 = n from
    Nat.ofDigitChars_ten_toDigits]
  exact if_pos h

theorem dtype_no_space (d : Dtype) : ∀ c ∈ d.asStr.toList, isWhiteSpace c = false := by
  have hall : (d.asStr.toList.all fun c => !isWhiteSpace c) = true := by cases d <;> decide
  intro c hc
  simpa using List.all_eq_true.mp hall c hc

/-- What is read from between the parentheses of a tuple: its arity, if a machine integer can hold it,
and its dtype. -/
theorem parseTuple_displayChars (n : ℕ) (d : Dtype) : parseTuple (displayChars (.tuple n d)) =
    (parseUsize (Nat.toDigits 10 n)).bind fun k => if k = 0 then none else some (.tuple k d) := by
  have hinner : ((displayChars (.tuple n d)).drop 6).dropLast =
      Nat.toDigits 10 n ++ ',' :: d.asStr.toList := by
    show (Nat.toDigits 10 n ++ [','] ++ d.asStr.toList ++ [')']).dropLast = _
    rw [List.dropLast_concat, List.append_assoc]
    rfl
  have hstart : "tuple(".toList.isPrefixOf (displayChars (.tuple n d)) = true := rfl
  have hlast : (displayChars (.tuple n d)).getLast? = some ')' := by
    unfold displayChars
    rw [List.getLast?_concat]
  unfold parseTuple
  rw [if_pos ⟨hstart, hlast⟩, hinner, Period.span_digits (by decide)]
  simp only
  rw [Period.trimChars_of_no_space fun c hc =>
      Period.isWhiteSpace_of_isDigit (Period.isDigit_toDigits hc),
    Period.trimChars_of_no_space (dtype_no_space d), dtype_parse]
  rfl

/-- The text of a tuple is read as one. -/
theorem parse_display_tuple (n : ℕ) (d : Dtype) :
    parse (display (.tuple n d)) = parseTuple (displayChars (.tuple n d)) := by
  have htext : (display (.tuple n d)).toList = displayChars (.tuple n d) := String.toList_ofList
  have hne : ∀ s : String, s.toList.head? ≠ some 't' → display (.tuple n d) ≠ s := by
    rintro s hs rfl
    exact hs (by rw [htext]; rfl)
  have hdtype : Dtype.parse (display (.tuple n d)).toList = none := by
    rw [htext]
    refine List.find?_eq_none.mpr fun d' _ => ?_
    rw [decide_eq_true_eq]
    intro he
    have hhead : d'.asStr.toList.head? = some 't' := by
      rw [he]
      rfl
    cases d' <;> exact absurd hhead (by decide)
  unfold parse
  rw [hdtype]
  simp only
  rw [if_neg (hne _ (by decide)), if_neg (hne _ (by decide)), if_neg (hne _ (by decide)),
    if_neg (hne _ (by decide)), htext]

/-- **Element types.**  A printable one comes back from its text. -/
theorem parse_display {e : ElementType} (h : e.Printable) : parse e.display = some e := by
  cases e with
  | scalar d => cases d <;> decide
  | tuple n d =>
    rw [parse_display_tuple, parseTuple_displayChars, parseUsize_toDigits h.2]
    exact if_neg h.1
  | _ => decide

/-- Whatever is read from the text of an element type has its physical dtype. -/
theorem parse_display_dtype {e e' : ElementType} (h : parse e.display = some e') :
    e'.physicalDtype = e.physicalDtype := by
  have hprintable : e.Printable → e'.physicalDtype = e.physicalDtype := fun hp =>
    congrArg physicalDtype (Option.some.inj (h.symm.trans (parse_display hp)))
  cases e with
  | tuple n d =>
    rw [parse_display_tuple, parseTuple_displayChars] at h
    obtain ⟨k, -, hk⟩ := Option.bind_eq_some_iff.mp h
    split at hk
    · cases hk
    · rw [← Option.some.inj hk]
      rfl
  | _ => exact hprintable trivial

theorem parseUsize_lt {cs : List Char} {n : ℕ} (h : parseUsize cs = some n) : n < usizeBound := by
  unfold parseUsize at h
  generalize (if cs.head? = some '+' then cs.tail else cs) = digits at h
  simp only at h
  split at h
  · split at h
    · rename_i hlt
      rw [← Option.some.inj h]
      exact hlt
    · cases h
  · cases h

/-- What was read from a text is printable. -/
theorem printable_of_parse {s : String} {e : ElementType} (h : parse s = some e) : e.Printable := by
  unfold parse at h
  split at h
  · cases h
    trivial
  · repeat' split at h
    all_goals first
      | (cases h; trivial)
      | skip
    unfold parseTuple at h
    split at h
    · split at h
      · cases h
      · obtain ⟨n, hn, h⟩ := Option.bind_eq_some_iff.mp h
        split at h
        · cases h
        · rename_i hne
          obtain ⟨d, -, rfl⟩ := Option.map_eq_some_iff.mp h
          exact ⟨hne, parseUsize_lt hn⟩
    · cases h

end ElementType

/-! ### Time references -/

namespace TimeReference

/-- Two digits of an offset. -/
theorem two_digits : ∀ n < 60,
    let two := (if n < 10 then ['0'] else []) ++ Nat.toDigits 10 n
    two.length = 2 ∧ two.all Char.isDigit = true ∧ digitsValue two = n := by
  decide +kernel

/-- An offset within a day of UTC comes back. -/
theorem parseOffset_formatOffset {m : ℤ} (h : m.natAbs < 24 * 60) :
    parseOffset (formatOffset m) = some m := by
  obtain ⟨hlen, hdig, hval⟩ := two_digits (m.natAbs / 60) (by omega)
  obtain ⟨hlen', hdig', hval'⟩ := two_digits (m.natAbs % 60) (by omega)
  have hform : ∀ two : ℕ → List Char, two = (fun n => (if n < 10 then ['0'] else []) ++
      Nat.toDigits 10 n) → formatOffset m = (if m < 0 then '-' else '+') ::
        (two (m.natAbs / 60) ++ [':'] ++ two (m.natAbs % 60)) := by
    rintro _ rfl
    rfl
  rw [hform _ rfl]
  generalize (if m.natAbs / 60 < 10 then ['0'] else []) ++ Nat.toDigits 10 (m.natAbs / 60) = hours
    at hlen hdig hval ⊢
  generalize (if m.natAbs % 60 < 10 then ['0'] else []) ++ Nat.toDigits 10 (m.natAbs % 60) = minutes
    at hlen' hdig' hval' ⊢
  have hparts : offsetParts (hours ++ [':'] ++ minutes) = some (hours, minutes) := by
    obtain ⟨a, b, rfl⟩ := List.length_eq_two.mp hlen
    obtain ⟨c, d, rfl⟩ := List.length_eq_two.mp hlen'
    rfl
  have hchars : (hours ++ [':'] ++ minutes).all (fun c => c.isDigit || c = ':') = true := by
    rw [List.all_append, List.all_append, Bool.and_eq_true, Bool.and_eq_true]
    refine ⟨⟨?_, by decide⟩, ?_⟩
    · exact List.all_eq_true.mpr fun c hc => by rw [List.all_eq_true.mp hdig c hc]; rfl
    · exact List.all_eq_true.mpr fun c hc => by rw [List.all_eq_true.mp hdig' c hc]; rfl
  have hne : ∀ {cs : List Char}, cs.length = 2 → cs ≠ [] := by
    rintro cs hcs rfl
    cases hcs
  unfold parseOffset
  simp only
  rw [if_pos ⟨by split <;> simp, hchars⟩, hparts, Option.bind_some]
  simp only
  rw [if_pos ⟨hne hlen, hne hlen', hdig, hdig', by omega, by omega⟩, hval, hval']
  refine congrArg some ?_
  rw [show m.natAbs / 60 * 60 + m.natAbs % 60 = m.natAbs from Nat.div_add_mod' _ _]
  by_cases hneg : m < 0
  · rw [if_pos (by rw [if_pos hneg])]
    omega
  · rw [if_neg (by rw [if_neg hneg]; decide)]
    omega

/-- What an offset reads as is within a day of UTC. -/
theorem natAbs_parseOffset {cs : List Char} {m : ℤ} (h : parseOffset cs = some m) :
    m.natAbs < 24 * 60 := by
  unfold parseOffset at h
  split at h
  · split at h
    · obtain ⟨⟨hours, minutes⟩, -, h⟩ := Option.bind_eq_some_iff.mp h
      simp only at h
      split at h
      · rename_i hp
        obtain ⟨-, -, -, -, h1, h2⟩ := hp
        rw [← Option.some.inj h]
        split <;> omega
      · cases h
    · cases h
  · cases h

/-- **Time references.**  One that validates comes back from its text. -/
theorem parse_asStorageString {r : TimeReference} (h : r.validate = .ok ()) :
    parse r.asStorageString = .ok r := by
  cases r with
  | utc => rfl
  | zoneless => rfl
  | fixedOffset m =>
    have hm : m.1.natAbs < 24 * 60 := by
      unfold validate at h
      simp only at h
      split at h
      · cases h
      · omega
    have htext : (asStorageString (.fixedOffset m)).toList = formatOffset m.1 := String.toList_ofList
    have hhead : ∀ s : String, s.toList.head? ≠ some '-' → s.toList.head? ≠ some '+' →
        asStorageString (.fixedOffset m) ≠ s := by
      rintro s h1 h2 rfl
      rw [htext] at h1 h2
      unfold formatOffset at h1 h2
      split at h1
      · exact h1 rfl
      · rename_i hneg
        rw [if_neg hneg] at h2
        exact h2 rfl
    unfold parse
    rw [if_neg (hhead _ (by decide) (by decide)), if_neg (hhead _ (by decide) (by decide)), htext,
      parseOffset_formatOffset hm]
    simp only
    rw [dif_pos m.2]
  | zone name =>
    have hv := h
    unfold validate at h
    simp only at h
    split at h
    · cases h
    split at h
    · cases h
    split at h
    · cases h
    rename_i hnot
    rw [not_or] at hnot
    split at h
    · cases h
    rename_i hoff
    rw [Bool.not_eq_true, Option.isSome_eq_false_iff, Option.isNone_iff_eq_none] at hoff
    unfold parse asStorageString
    simp only
    rw [if_neg hnot.1, if_neg hnot.2, hoff]
    simp only
    rw [hv]
    rfl

/-- One that was read validates. -/
theorem validate_of_parse {s : String} {r : TimeReference} (h : parse s = .ok r) :
    r.validate = .ok () := by
  unfold parse at h
  split at h
  · cases h
    rfl
  split at h
  · cases h
    rfl
  split at h
  · rename_i m hm
    split at h
    · cases h
      unfold validate
      exact if_neg (by have := natAbs_parseOffset hm; simp only; omega)
    · cases h
  · rcases hv : (zone s).validate with e | u
    · rw [hv] at h
      cases h
    · rw [hv] at h
      cases h
      exact hv

end TimeReference

end InfraStore
