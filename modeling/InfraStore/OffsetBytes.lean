import InfraStore.DescriptorText

/-!
# Offsets by their bytes

`parse_offset` looks at the bytes of a text and slices it at byte positions, which panics inside a
character.  The module reads an offset that way and finds what `TimeReference.parseOffset` finds by
characters, for every text.

* `sliceFrom`, `sliceTo`: slices of a text at a byte position, `none` where they panic;
* `TimeReference.parseOffsetBytes_eq`: no slice of a text is inside a character;
* `TimeReference.text_unambiguous`: a time reference is told by its text.
-/

namespace InfraStore

/-- The UTF-8 bytes of a text. -/
def utf8 (cs : List Char) : List UInt8 := cs.flatMap String.utf8EncodeChar

/-- `&s[n..]`. -/
def sliceFrom : List Char → ℕ → Option (List Char)
  | cs, 0 => some cs
  | [], _ + 1 => none
  | c :: cs, n + 1 => if c.utf8Size ≤ n + 1 then sliceFrom cs (n + 1 - c.utf8Size) else none

/-- `&s[..n]`. -/
def sliceTo : List Char → ℕ → Option (List Char)
  | _, 0 => some []
  | [], _ + 1 => none
  | c :: cs, n + 1 =>
    if c.utf8Size ≤ n + 1 then (sliceTo cs (n + 1 - c.utf8Size)).map (c :: ·) else none

namespace TimeReference

/-- Whether a byte is an ASCII digit. -/
def isAsciiDigit (b : UInt8) : Bool := 48 ≤ b && b ≤ 57

/-- The hour and minute digits of an offset, without its sign, cut at byte positions. -/
def offsetSlices (rest : List Char) : Option (Option (List Char × List Char)) :=
  let bytes := utf8 rest
  if bytes.length = 5 ∧ bytes[2]? = some 58 then
    (sliceTo rest 2).bind fun hours => (sliceFrom rest 3).map fun minutes => some (hours, minutes)
  else if bytes.length = 4 then
    (sliceTo rest 2).bind fun hours => (sliceFrom rest 2).map fun minutes => some (hours, minutes)
  else if bytes.length = 2 then some (some (rest, ['0']))
  else some none

/-- Parse an offset by its bytes; the outer `none` is a panic. -/
def parseOffsetBytes (s : List Char) : Option (Option ℤ) :=
  match (utf8 s).head? with
  | none => some none
  | some sign =>
    if sign = 43 ∨ sign = 45 then
      (sliceFrom s 1).bind fun rest =>
        if (utf8 rest).all fun b => isAsciiDigit b || b = 58 then
          (offsetSlices rest).map fun parts => parts.bind fun (hours, minutes) =>
            if hours ≠ [] ∧ minutes ≠ [] ∧ hours.all Char.isDigit ∧ minutes.all Char.isDigit ∧
                digitsValue hours ≤ 23 ∧ digitsValue minutes ≤ 59 then
              some ((if sign = 45 then -1 else 1) *
                (digitsValue hours * 60 + digitsValue minutes : ℕ))
            else none
        else some none
    else some none

/-! ### Bytes of characters -/

theorem toNat_byte {n : ℕ} (h : n < 256) : (UInt8.ofNat n).toNat = n := by
  rw [UInt8.toNat_ofNat']
  exact Nat.mod_eq_of_lt h

/-- A character is one byte below 128, or bytes from 128 on. -/
theorem utf8EncodeChar_cases (c : Char) :
    (c.toNat < 128 ∧ c.utf8Size = 1 ∧ String.utf8EncodeChar c = [UInt8.ofNat c.toNat]) ∨
      (128 ≤ c.toNat ∧ ∀ b ∈ String.utf8EncodeChar c, 128 ≤ b.toNat) := by
  by_cases h : c.toNat < 128
  · have henc : String.utf8EncodeChar c = [UInt8.ofNat c.toNat] := if_pos (show c.toNat ≤ 127 by omega)
    have hsize := String.length_utf8EncodeChar c
    rw [henc] at hsize
    exact Or.inl ⟨h, hsize.symm, henc⟩
  · refine Or.inr ⟨by omega, ?_⟩
    have hbyte : ∀ n, 128 ≤ n → n < 256 → 128 ≤ (UInt8.ofNat n).toNat := by
      intro n h1 h2
      rw [toNat_byte h2]
      exact h1
    intro b hb
    unfold String.utf8EncodeChar at hb
    simp only [Char.toNat_val] at hb
    rw [if_neg (by omega)] at hb
    split at hb
    · simp only [List.mem_cons, List.not_mem_nil, or_false] at hb
      rcases hb with rfl | rfl <;> apply hbyte <;> omega
    · split at hb
      · simp only [List.mem_cons, List.not_mem_nil, or_false] at hb
        rcases hb with rfl | rfl | rfl <;> apply hbyte <;> omega
      · simp only [List.mem_cons, List.not_mem_nil, or_false] at hb
        rcases hb with rfl | rfl | rfl | rfl <;> apply hbyte <;> omega

/-- A byte below 128 is that character. -/
theorem utf8EncodeChar_head {c : Char} {b : UInt8} (hb : b.toNat < 128) :
    (String.utf8EncodeChar c).head? = some b ↔ c.toNat = b.toNat := by
  rcases utf8EncodeChar_cases c with ⟨hc, -, henc⟩ | ⟨hc, hall⟩
  · rw [henc, List.head?_cons, Option.some.injEq, ← UInt8.toNat_inj,
      toNat_byte (show c.toNat < 256 by omega)]
  · constructor
    · intro h
      have := hall b (List.mem_of_head? h)
      omega
    · intro h
      omega

theorem utf8_cons (c : Char) (cs : List Char) : utf8 (c :: cs) = String.utf8EncodeChar c ++ utf8 cs :=
  List.flatMap_cons

theorem utf8_head (c : Char) (cs : List Char) :
    (utf8 (c :: cs)).head? = (String.utf8EncodeChar c).head? := by
  rw [utf8_cons, List.head?_append_of_ne_nil _ String.utf8EncodeChar_ne_nil]

/-! ### Texts of ASCII characters -/

theorem utf8_ascii {cs : List Char} (h : ∀ c ∈ cs, c.toNat < 128) :
    utf8 cs = cs.map fun c => UInt8.ofNat c.toNat := by
  induction cs with
  | nil => rfl
  | cons c cs ih =>
    rcases utf8EncodeChar_cases c with ⟨-, -, henc⟩ | ⟨hc, -⟩
    · rw [utf8_cons, henc, ih fun d hd => h d (List.mem_cons_of_mem _ hd)]
      rfl
    · have := h c List.mem_cons_self
      omega

theorem utf8Size_ascii {c : Char} (h : c.toNat < 128) : c.utf8Size = 1 := by
  rcases utf8EncodeChar_cases c with ⟨-, hsize, -⟩ | ⟨hc, -⟩
  · exact hsize
  · omega

theorem sliceFrom_ascii {cs : List Char} (h : ∀ c ∈ cs, c.toNat < 128) {n : ℕ} (hn : n ≤ cs.length) :
    sliceFrom cs n = some (cs.drop n) := by
  induction cs generalizing n with
  | nil =>
    rw [show n = 0 by simpa using hn]
    rfl
  | cons c cs ih =>
    cases n with
    | zero => rfl
    | succ n =>
      rw [sliceFrom, utf8Size_ascii (h c List.mem_cons_self), if_pos (by omega), Nat.add_sub_cancel,
        ih (fun d hd => h d (List.mem_cons_of_mem _ hd)) (by simpa using hn), List.drop_succ_cons]

theorem sliceTo_ascii {cs : List Char} (h : ∀ c ∈ cs, c.toNat < 128) {n : ℕ} (hn : n ≤ cs.length) :
    sliceTo cs n = some (cs.take n) := by
  induction cs generalizing n with
  | nil =>
    rw [show n = 0 by simpa using hn]
    rfl
  | cons c cs ih =>
    cases n with
    | zero => rfl
    | succ n =>
      rw [sliceTo, utf8Size_ascii (h c List.mem_cons_self), if_pos (by omega), Nat.add_sub_cancel,
        ih (fun d hd => h d (List.mem_cons_of_mem _ hd)) (by simpa using hn), List.take_succ_cons]
      rfl

/-- The byte test of an offset's rest, by its characters. -/
theorem all_offset_bytes (cs : List Char) :
    ((utf8 cs).all fun b => isAsciiDigit b || b = 58) =
      cs.all fun c => c.isDigit || c = ':' := by
  induction cs with
  | nil => rfl
  | cons c cs ih =>
    rw [utf8_cons, List.all_append, ih, List.all_cons]
    congr 1
    rcases utf8EncodeChar_cases c with ⟨hc, -, henc⟩ | ⟨hc, hall⟩
    · have hdigit : isAsciiDigit (UInt8.ofNat c.toNat) = c.isDigit := by
        unfold isAsciiDigit Char.isDigit
        congr 1
        · rw [Bool.eq_iff_iff, decide_eq_true_iff, decide_eq_true_iff, UInt8.le_iff_toNat_le,
            toNat_byte (show c.toNat < 256 by omega), ge_iff_le, UInt32.le_iff_toNat_le]
          rfl
        · rw [Bool.eq_iff_iff, decide_eq_true_iff, decide_eq_true_iff, UInt8.le_iff_toNat_le,
            toNat_byte (show c.toNat < 256 by omega), UInt32.le_iff_toNat_le]
          rfl
      have hcolon : (UInt8.ofNat c.toNat = 58) ↔ c = ':' := by
        rw [← UInt8.toNat_inj, toNat_byte (show c.toNat < 256 by omega), ← Char.toNat_inj]
        rfl
      rw [henc, List.all_cons, List.all_nil, Bool.and_true, hdigit, decide_eq_decide.mpr hcolon]
    · obtain ⟨b, bs, hbs⟩ := List.exists_cons_of_ne_nil (@String.utf8EncodeChar_ne_nil c)
      have hb : 128 ≤ b.toNat := hall b (by rw [hbs]; exact List.mem_cons_self)
      have hno : (isAsciiDigit b || decide (b = 58)) = false := by
        rw [Bool.or_eq_false_iff, decide_eq_false_iff_not]
        constructor
        · unfold isAsciiDigit
          rw [Bool.and_eq_false_iff, decide_eq_false_iff_not, decide_eq_false_iff_not,
            UInt8.le_iff_toNat_le, UInt8.le_iff_toNat_le]
          exact Or.inr (by show ¬ b.toNat ≤ 57; omega)
        · rintro rfl
          exact absurd hb (by decide)
      have hno' : (c.isDigit || decide (c = ':')) = false := by
        rw [Bool.or_eq_false_iff, decide_eq_false_iff_not]
        constructor
        · rw [← Bool.not_eq_true]
          intro hd
          rw [Char.isDigit, Bool.and_eq_true, decide_eq_true_iff, decide_eq_true_iff] at hd
          have : c.toNat ≤ 57 := hd.2
          omega
        · rintro rfl
          exact absurd hc (by decide)
      rw [hbs, List.all_cons, hno, Bool.false_and, hno']

/-! ### Offsets -/

theorem ascii_of_offset_chars {cs : List Char} (h : (cs.all fun c => c.isDigit || c = ':') = true) :
    ∀ c ∈ cs, c.toNat < 128 := by
  intro c hc
  have := List.all_eq_true.mp h c hc
  rw [Bool.or_eq_true, decide_eq_true_iff] at this
  rcases this with hd | rfl
  · rw [Char.isDigit, Bool.and_eq_true, decide_eq_true_iff, decide_eq_true_iff] at hd
    have : c.toNat ≤ 57 := hd.2
    omega
  · decide

/-- The slices of ASCII digits and colons are never inside a character. -/
theorem offsetSlices_eq {rest : List Char} (h : ∀ c ∈ rest, c.toNat < 128) :
    offsetSlices rest = some (offsetParts rest) := by
  have hcolon : (rest.map fun c => UInt8.ofNat c.toNat)[2]? = some 58 ↔ rest[2]? = some ':' := by
    rw [List.getElem?_map]
    cases hc : rest[2]? with
    | none => simp
    | some c =>
      have hlt : c.toNat < 256 := by
        have := h c (List.mem_of_getElem? hc)
        omega
      rw [Option.map_some, Option.some.injEq, Option.some.injEq, ← UInt8.toNat_inj, toNat_byte hlt,
        ← Char.toNat_inj]
      rfl
  unfold offsetSlices offsetParts
  simp only [utf8_ascii h, List.length_map, hcolon]
  split
  · rename_i hlen
    rw [sliceTo_ascii h (by omega), sliceFrom_ascii h (by omega)]
    rfl
  · split
    · rw [sliceTo_ascii h (by omega), sliceFrom_ascii h (by omega)]
      rfl
    · split <;> rfl

/-- **Offsets by bytes.**  No text of any length and content makes the slices of an offset panic, and
what is read is what its characters say. -/
theorem parseOffsetBytes_eq (s : List Char) : parseOffsetBytes s = some (parseOffset s) := by
  cases s with
  | nil => rfl
  | cons c rest =>
    obtain ⟨b, hb⟩ := Option.ne_none_iff_exists'.mp
      (fun h => @String.utf8EncodeChar_ne_nil c (List.head?_eq_none_iff.mp h))
    have hplus : b = 43 ↔ c = '+' := by
      rw [← Char.toNat_inj, show ('+' : Char).toNat = (43 : UInt8).toNat from rfl,
        ← utf8EncodeChar_head (by decide), hb, Option.some.injEq]
    have hminus : b = 45 ↔ c = '-' := by
      rw [← Char.toNat_inj, show ('-' : Char).toNat = (45 : UInt8).toNat from rfl,
        ← utf8EncodeChar_head (by decide), hb, Option.some.injEq]
    unfold parseOffsetBytes parseOffset
    rw [utf8_head, hb]
    simp only [hplus, hminus]
    by_cases hsign : c = '+' ∨ c = '-'
    · have hslice : sliceFrom (c :: rest) 1 = some rest := by
        have hsize : c.utf8Size = 1 := by
          rcases hsign with rfl | rfl <;> decide
        rw [sliceFrom, hsize, if_pos le_rfl]
        cases rest <;> rfl
      rw [if_pos hsign, hslice, Option.bind_some, all_offset_bytes]
      by_cases hall : (rest.all fun c => c.isDigit || c = ':') = true
      · have hboth : (c = '+' ∨ c = '-') ∧ (rest.all fun c => c.isDigit || c = ':') = true :=
          ⟨hsign, hall⟩
        rw [if_pos hall, if_pos hboth, offsetSlices_eq (ascii_of_offset_chars hall), Option.map_some]
      · have hnot : ¬ ((c = '+' ∨ c = '-') ∧ (rest.all fun c => c.isDigit || c = ':') = true) :=
          fun h => hall h.2
        rw [if_neg hall, if_neg hnot]
    · have hnot : ¬ ((c = '+' ∨ c = '-') ∧ (rest.all fun c => c.isDigit || c = ':') = true) :=
        fun h => hsign h.1
      rw [if_neg hsign, if_neg hnot]

/-- **A time reference is told by its text.**  One that validates comes back from its text, so two of
them with one text are one.  No text makes the parser panic: its slices are never inside a character;
and whatever a text is read as validates, and comes back from its own text. -/
theorem text_unambiguous :
    (∀ r : TimeReference, r.validate = .ok () → parse r.asStorageString = .ok r) ∧
    (∀ r r' : TimeReference, r.validate = .ok () → r'.validate = .ok () →
      r.asStorageString = r'.asStorageString → r = r') ∧
    (∀ s : String, parseOffsetBytes s.toList = some (parseOffset s.toList)) ∧
    (∀ (s : String) (r : TimeReference), parse s = .ok r →
      r.validate = .ok () ∧ parse r.asStorageString = .ok r) := by
  refine ⟨fun r => parse_asStorageString, ?_, fun s => parseOffsetBytes_eq s.toList, ?_⟩
  · intro r r' hr hr' htext
    have h := parse_asStorageString hr
    rw [htext, parse_asStorageString hr'] at h
    exact (Except.ok.inj h).symm
  · intro s r h
    have hvalid := validate_of_parse h
    exact ⟨hvalid, parse_asStorageString hvalid⟩

end TimeReference

end InfraStore
