/-
RuleCodec/Proofs/Formats.lean

The texts that a value may have in the definition of a tracker.

`Definition.Format` gives the format of each scalar type: decimal or
hexadecimal digits for a number, forty hexadecimal digits for an address, the
two words for a truth value, pairs of hexadecimal digits for bytes, any text for
a text.  A definition with such a value is encoded.  It is also encoded with a
few values beyond the format, which `Definition.Lax` lists: digits may be
missing altogether, `0x` may stand twice, and a plus sign may take the place of
the first digit of a pair.  Every other value is refused.

Digits are described by their characters and by the number they denote
(`Numeral.decimalValue`), without the readers.
-/
import Mathlib.Data.List.Induction
import RuleCodec.Definition.Tracker
import RuleCodec.Proofs.Numerals
import RuleCodec.Proofs.Texts

namespace RuleCodec

open Text

/-! ### Digits -/

namespace Numeral

theorem isDecimalDigit_iff {c : Char} : isDecimalDigit c ↔ 48 ≤ c.toNat ∧ c.toNat ≤ 57 := by
  rw [isDecimalDigit, Bool.and_eq_true, decide_eq_true_eq, decide_eq_true_eq]
  exact Iff.rfl

theorem isHexDigit_iff {c : Char} :
    isHexDigit c ↔ (48 ≤ c.toNat ∧ c.toNat ≤ 57) ∨ (97 ≤ c.toNat ∧ c.toNat ≤ 102) ∨
      (65 ≤ c.toNat ∧ c.toNat ≤ 70) := by
  rw [isHexDigit, Bool.or_eq_true, Bool.or_eq_true, isDecimalDigit_iff, or_assoc]
  simp only [Bool.and_eq_true, decide_eq_true_eq]
  exact Iff.rfl

theorem digitValue?_of_isDecimalDigit {c : Char} (h : isDecimalDigit c) :
    digitValue? 10 c = some (c.toNat - '0'.toNat) := by
  have bounds := isDecimalDigit_iff.1 h
  have zero : '0'.toNat = 48 := rfl
  have small : c.toNat - 48 < 10 := by omega
  simp only [digitValue?, if_pos bounds, if_pos small, zero]

theorem isDecimalDigit_of_digitValue? {c : Char} (h : (digitValue? 10 c).isSome) :
    isDecimalDigit c := by
  obtain ⟨d, is⟩ := Option.isSome_iff_exists.1 h
  simp only [digitValue?, Option.ite_none_right_eq_some] at is
  apply isDecimalDigit_iff.2
  by_contra other
  rw [if_neg other] at is
  split_ifs at is <;> omega

/-- The digits in base sixteen are the hexadecimal ones. -/
theorem isSome_digitValue?_iff {c : Char} : (digitValue? 16 c).isSome ↔ isHexDigit c := by
  rw [isHexDigit_iff]
  constructor
  · intro h
    obtain ⟨d, is⟩ := Option.isSome_iff_exists.1 h
    simp only [digitValue?, Option.ite_none_right_eq_some] at is
    split_ifs at is <;> omega
  · intro h
    simp only [digitValue?, Option.isSome_ite]
    split_ifs <;> omega

/-- A number is read if every character is a digit. -/
theorem isSome_readFrom?_iff {base n : Nat} {cs : List Char} :
    (readFrom? base n cs).isSome ↔ ∀ c ∈ cs, (digitValue? base c).isSome := by
  induction cs generalizing n with
  | nil => simp [readFrom?]
  | cons c cs ih =>
    rw [readFrom?, List.forall_mem_cons]
    cases digit : digitValue? base c with
    | none => simp
    | some d => simp [ih]

/-- Digits are read as the sum of their values, each taken at its place. -/
theorem readFrom?_of_digits {base n : Nat} {value : Char → Nat} {cs : List Char}
    (digits : ∀ c ∈ cs, digitValue? base c = some (value c)) :
    readFrom? base n cs = some (cs.foldl (fun n c => base * n + value c) n) := by
  induction cs generalizing n with
  | nil => rfl
  | cons c cs ih =>
    obtain ⟨here, others⟩ := List.forall_mem_cons.1 digits
    rw [readFrom?, here, List.foldl_cons, Nat.mul_comm base n]
    exact ih others

/-- The number that decimal digits denote. -/
def decimalValue (cs : List Char) : Nat :=
  cs.foldl (fun n c => 10 * n + (c.toNat - '0'.toNat)) 0

/-- Decimal digits are read as the number that they denote. -/
theorem read?_of_decimal {cs : List Char} (digits : ∀ c ∈ cs, isDecimalDigit c) :
    read? 10 cs = some (decimalValue cs) :=
  readFrom?_of_digits fun c mem => digitValue?_of_isDecimalDigit (digits c mem)

end Numeral

theorem stripStart?_hexMark (digits : List Char) :
    stripStart? ['0', 'x'] ('0' :: 'x' :: digits) = some digits :=
  stripStart?_append ['0', 'x'] digits

namespace Word

open Numeral

/-- The numbers below 2²⁵⁶ are words. -/
theorem isSome_ofNat?_iff {n : Nat} : (ofNat? n).isSome ↔ n < 2 ^ 256 := by
  rw [ofNat?, Option.isSome_ite]
  exact Iff.rfl

/-- Decimal digits of a number that fits a word. -/
def IsDecimal (cs : List Char) : Prop :=
  (∀ c ∈ cs, isDecimalDigit c) ∧ decimalValue cs < 2 ^ 256

/-- At most sixty-four hexadecimal digits. -/
def IsHex (cs : List Char) : Prop :=
  cs.length ≤ 64 ∧ ∀ c ∈ cs, isHexDigit c

instance (cs : List Char) : Decidable (IsHex cs) :=
  -- along the list, not over all characters
  have := List.decidableBAll (fun c => isHexDigit c = true) cs
  inferInstanceAs (Decidable (_ ∧ _))

/-- `0x` and forty hexadecimal digits. -/
def IsAddress (cs : List Char) : Prop :=
  ∃ digits, cs = '0' :: 'x' :: digits ∧ digits.length = 40 ∧ ∀ c ∈ digits, isHexDigit c

/-- Decimal numbers are read if they fit in a word. -/
theorem isSome_ofDecimal?_iff {cs : List Char} : (ofDecimal? cs).isSome ↔ IsDecimal cs := by
  constructor
  · intro h
    obtain ⟨w, is⟩ := Option.isSome_iff_exists.1 h
    obtain ⟨n, read, fits⟩ := Option.bind_eq_some_iff.1 is
    have digits : ∀ c ∈ cs, isDecimalDigit c := by
      intro c mem
      have digit := isSome_readFrom?_iff.1 (Option.isSome_of_eq_some read) c mem
      exact isDecimalDigit_of_digitValue? digit
    rw [read?_of_decimal digits, Option.some.injEq] at read
    rw [← read] at fits
    exact ⟨digits, isSome_ofNat?_iff.1 (Option.isSome_of_eq_some fits)⟩
  · rintro ⟨digits, fits⟩
    rw [ofDecimal?, read?_of_decimal digits, Option.bind_some]
    exact isSome_ofNat?_iff.2 fits

/-- Decimal digits do not begin with `0x`. -/
theorem IsDecimal.stripStart?_hexMark {cs : List Char} (h : IsDecimal cs) :
    stripStart? ['0', 'x'] cs = none := by
  apply stripStart?_of_all_isHexDigit
  apply List.all_eq_true.2
  intro c mem
  exact isHexDigit_iff.2 (.inl (isDecimalDigit_iff.1 (h.1 c mem)))

/-- Up to sixty-four hexadecimal digits always fit. -/
theorem isSome_ofDigits_iff {digits : List Char} (short : digits.length ≤ 64) :
    ((read? 16 digits).bind ofNat?).isSome ↔ ∀ c ∈ digits, isHexDigit c := by
  constructor
  · intro h c mem
    obtain ⟨w, is⟩ := Option.isSome_iff_exists.1 h
    obtain ⟨n, read, -⟩ := Option.bind_eq_some_iff.1 is
    have digit := isSome_readFrom?_iff.1 (Option.isSome_of_eq_some read) c mem
    exact isSome_digitValue?_iff.1 digit
  · intro all
    have reads : (read? 16 digits).isSome :=
      isSome_readFrom?_iff.2 fun c mem => isSome_digitValue?_iff.2 (all c mem)
    obtain ⟨n, read⟩ := Option.isSome_iff_exists.1 reads
    rw [read, Option.bind_some, isSome_ofNat?_iff]
    calc n < 16 ^ digits.length := read?_lt read
      _ ≤ 16 ^ 64 := Nat.pow_le_pow_right (by decide) short
      _ = 2 ^ 256 := by decide

/-- An address is `0x` with forty digits. -/
theorem isSome_ofAddress?_iff {cs : List Char} : (ofAddress? cs).isSome ↔ IsAddress cs := by
  constructor
  · intro h
    cases stripped : stripStart? ['0', 'x'] cs with
    | none =>
      rw [ofAddress?, stripped] at h
      cases h
    | some digits =>
      rw [ofAddress?, stripped] at h
      simp only [Option.isSome_iff_exists, Option.ite_none_right_eq_some] at h
      obtain ⟨w, forty, is⟩ := h
      -- forty digits fit in a word, so being digits is all that is asked of them
      have all := (isSome_ofDigits_iff (by omega)).1 (Option.isSome_of_eq_some is)
      exact ⟨digits, stripStart?_eq_some stripped, forty, all⟩
  · rintro ⟨digits, rfl, forty, all⟩
    rw [ofAddress?, stripStart?_hexMark]
    simp only [if_pos forty]
    exact (isSome_ofDigits_iff (by omega)).2 all

/-- Digits are read as a word, and so are digits behind `0x`. -/
theorem isSome_ofHex?_iff {cs : List Char} :
    (ofHex? cs).isSome ↔ IsHex cs ∨ ∃ digits, cs = '0' :: 'x' :: digits ∧ IsHex digits := by
  have reads : ∀ digits : List Char,
      (if digits.length ≤ 64 then (read? 16 digits).bind ofNat? else none).isSome ↔
        IsHex digits := by
    intro digits
    by_cases short : digits.length ≤ 64
    · rw [if_pos short, isSome_ofDigits_iff short]
      exact (and_iff_right short).symm
    · rw [if_neg short]
      exact iff_of_false (by simp) fun h => short h.1
  cases stripped : stripStart? ['0', 'x'] cs with
  | none =>
    rw [ofHex?, stripped, Option.getD_none, reads, or_iff_left]
    rintro ⟨digits, rfl, -⟩
    rw [stripStart?_hexMark] at stripped
    cases stripped
  | some digits =>
    have eq : cs = '0' :: 'x' :: digits := stripStart?_eq_some stripped
    -- `x` is no digit, so the two readings exclude each other
    have mixed : ¬ IsHex cs := by
      rintro ⟨-, all⟩
      rw [stripStart?_of_all_isHexDigit (List.all_eq_true.2 all)] at stripped
      cases stripped
    rw [ofHex?, stripped, Option.getD_some, reads, or_iff_right mixed]
    constructor
    · exact fun h => ⟨digits, eq, h⟩
    · rintro ⟨digits', eq', h⟩
      rw [eq] at eq'
      cases eq'
      exact h

end Word

namespace Bytes

/-- Pairs of hexadecimal digits, or of a plus sign and one such digit. -/
inductive SignedPairs : List Char → Prop
  | nil : SignedPairs []
  | pair {high low : Char} {rest : List Char} : isHexDigit high ∨ high = '+' → isHexDigit low →
      SignedPairs rest → SignedPairs (high :: low :: rest)

/-- The first digit of a byte may be replaced by a sign. -/
theorem isSome_ofHexPair?_iff {high low : Char} :
    (ofHexPair? high low).isSome ↔ (isHexDigit high ∨ high = '+') ∧ isHexDigit low := by
  rw [ofHexPair?, ← Numeral.isSome_digitValue?_iff, ← Numeral.isSome_digitValue?_iff]
  cases Numeral.digitValue? 16 low with
  | none => simp
  | some l =>
    by_cases plus : high = '+'
    · simp [plus]
    · cases Numeral.digitValue? 16 high with
      | none => simp [plus]
      | some h => simp [plus]

/-- Bytes are read from pairs of digits, with signs or without. -/
theorem isSome_ofHex?_iff {cs : List Char} : (ofHex? cs).isSome ↔ SignedPairs cs := by
  constructor
  · intro h
    fun_induction ofHex? cs with
    | case1 => exact .nil
    | case2 => cases h
    | case3 high low rest b bytes tail here ih =>
      obtain ⟨first, second⟩ := isSome_ofHexPair?_iff.1 (Option.isSome_of_eq_some here)
      exact .pair first second (ih (Option.isSome_of_eq_some tail))
    | case4 => cases h
  · intro h
    induction h with
    | nil => rfl
    | pair first second _ ih =>
      obtain ⟨b, here⟩ := Option.isSome_iff_exists.1 (isSome_ofHexPair?_iff.2 ⟨first, second⟩)
      obtain ⟨bytes, tail⟩ := Option.isSome_iff_exists.1 ih
      simp only [ofHex?, here, tail, Option.isSome_some]

/-- An even number of digits can be read in pairs. -/
theorem signedPairs_of_digits {cs : List Char} (even : cs.length % 2 = 0)
    (all : ∀ c ∈ cs, isHexDigit c) : SignedPairs cs := by
  induction cs using List.twoStepInduction with
  | nil => exact .nil
  | singleton => cases even
  | cons_cons high low rest ih _ =>
    rw [List.forall_mem_cons, List.forall_mem_cons] at all
    obtain ⟨first, second, others⟩ := all
    rw [List.length_cons, List.length_cons] at even
    exact .pair (.inl first) second (ih (by omega) others)

/-- Without signs, pairs are an even number of digits. -/
theorem SignedPairs.digits {cs : List Char} (h : SignedPairs cs) (plain : '+' ∉ cs) :
    cs.length % 2 = 0 ∧ ∀ c ∈ cs, isHexDigit c := by
  induction h with
  | nil => simp
  | pair first second _ ih =>
    rw [List.mem_cons, List.mem_cons, not_or, not_or] at plain
    obtain ⟨here, -, others⟩ := plain
    obtain ⟨even, all⟩ := ih others
    rw [List.forall_mem_cons, List.forall_mem_cons, List.length_cons, List.length_cons]
    exact ⟨by omega, first.resolve_right (Ne.symm here), second, all⟩

end Bytes

/-! ### Values -/

namespace Definition

open Numeral

/-- What a value of a scalar type looks like. -/
inductive Format : ValueType → List Char → Prop
  | decimal {cs : List Char} : cs ≠ [] → Word.IsDecimal cs → Format .uint256 cs
  | hexadecimal {digits : List Char} : digits ≠ [] → Word.IsHex digits →
      Format .uint256 ('0' :: 'x' :: digits)
  | address {cs : List Char} : Word.IsAddress cs → Format .address cs
  | true : Format .bool "true".toList
  | false : Format .bool "false".toList
  | bytes {digits : List Char} : digits.length % 2 = 0 → (∀ c ∈ digits, isHexDigit c) →
      Format .bytes ('0' :: 'x' :: digits)
  | string (cs : List Char) : Format .string cs

/-- What else is taken for a value of a scalar type. -/
inductive Lax : ValueType → List Char → Prop
  | nothing : Lax .uint256 []
  | noDigits : Lax .uint256 ['0', 'x']
  | markedTwice {digits : List Char} : Word.IsHex digits →
      Lax .uint256 ('0' :: 'x' :: '0' :: 'x' :: digits)
  | signed {digits : List Char} : Bytes.SignedPairs digits → '+' ∈ digits →
      Lax .bytes ('0' :: 'x' :: digits)

/-- What is read beyond the formats is in none of them. -/
theorem Lax.not_format {t : ValueType} {cs : List Char} (h : Lax t cs) : ¬ Format t cs := by
  intro format
  -- the digits are missing, or one of the characters is no digit
  cases h with
  | nothing =>
    cases format with
    | decimal ne => exact ne rfl
  | noDigits =>
    cases format with
    | decimal _ is => exact absurd (is.1 'x' (by simp)) (by decide)
    | hexadecimal ne => exact ne rfl
  | markedTwice =>
    cases format with
    | decimal _ is => exact absurd (is.1 'x' (by simp)) (by decide)
    | hexadecimal _ is => exact absurd (is.2 'x' (by simp)) (by decide)
  | signed _ sign =>
    cases format with
    | bytes _ all => exact absurd (all '+' sign) (by decide)

/-- Numbers are read in the two formats, and in three spellings beyond them. -/
theorem isSome_number?_iff {cs : List Char} :
    (number? cs).isSome ↔ Format .uint256 cs ∨ Lax .uint256 cs := by
  constructor
  · intro h
    cases stripped : stripStart? ['0', 'x'] cs with
    | none =>
      rw [number?, stripped] at h
      -- no character at all is read as zero, although it is no number
      by_cases empty : cs = []
      · rw [empty]
        exact .inr .nothing
      · exact .inl (.decimal empty (Word.isSome_ofDecimal?_iff.1 h))
    | some digits =>
      rw [number?, stripped] at h
      rw [show cs = '0' :: 'x' :: digits from stripStart?_eq_some stripped]
      obtain plain | ⟨digits', eq, marked⟩ := Word.isSome_ofHex?_iff.1 h
      · by_cases empty : digits = []
        · rw [empty]
          exact .inr .noDigits
        · exact .inl (.hexadecimal empty plain)
      · rw [eq]
        exact .inr (.markedTwice marked)
  · rintro (format | lax)
    · cases format with
      | decimal _ is =>
        rw [number?, is.stripStart?_hexMark]
        exact Word.isSome_ofDecimal?_iff.2 is
      | hexadecimal _ is =>
        rw [number?, stripStart?_hexMark]
        exact Word.isSome_ofHex?_iff.2 (.inl is)
    · cases lax with
      | nothing => decide
      | noDigits => decide
      | markedTwice is =>
        rw [number?, stripStart?_hexMark]
        exact Word.isSome_ofHex?_iff.2 (.inr ⟨_, rfl, is⟩)

/-- Bytes are read in their format, and with signs. -/
theorem isSome_bytes?_iff {cs : List Char} :
    ((stripStart? ['0', 'x'] cs).bind Bytes.ofHex?).isSome ↔ Format .bytes cs ∨ Lax .bytes cs := by
  constructor
  · intro h
    cases stripped : stripStart? ['0', 'x'] cs with
    | none =>
      rw [stripped] at h
      cases h
    | some digits =>
      rw [stripped, Option.bind_some, Bytes.isSome_ofHex?_iff] at h
      rw [show cs = '0' :: 'x' :: digits from stripStart?_eq_some stripped]
      -- pairs of plain digits are the format, and a sign in one of them is lax
      by_cases sign : '+' ∈ digits
      · exact .inr (.signed h sign)
      · obtain ⟨even, all⟩ := h.digits sign
        exact .inl (.bytes even all)
  · rintro (format | lax)
    · cases format with
      | bytes even all =>
        rw [stripStart?_hexMark, Option.bind_some]
        exact Bytes.isSome_ofHex?_iff.2 (Bytes.signedPairs_of_digits even all)
    · cases lax with
      | signed pairs =>
        rw [stripStart?_hexMark, Option.bind_some]
        exact Bytes.isSome_ofHex?_iff.2 pairs

/-- Booleans are read in their format only. -/
theorem isSome_bool?_iff {cs : List Char} :
    (if cs = "true".toList then some (Abi.boolWord Bool.true)
      else if cs = "false".toList then some (Abi.boolWord Bool.false) else none).isSome ↔
        Format .bool cs := by
  constructor
  · intro h
    split_ifs at h with yes no
    · rw [yes]
      exact .true
    · rw [no]
      exact .false
    · cases h
  · intro h
    cases h with
    | true => rfl
    | false => rfl

/-- The types whose values are single. -/
def scalarTypes : List ValueType :=
  [.uint256, .address, .bool, .bytes, .string]

/-- A value of a scalar type is read in its format or beyond it, and not otherwise. -/
theorem isSome_scalar?_iff {t : ValueType} (single : t ∈ scalarTypes) {cs : List Char} :
    (scalar? t cs).isSome ↔ Format t (trim cs) ∨ Lax t (trim cs) := by
  -- each type by itself: a string can be anything, the others are read by their own readers
  cases t with
  | uint256 =>
    rw [scalar?, Option.isSome_map]
    exact isSome_number?_iff
  | address =>
    rw [scalar?, Option.isSome_map, Word.isSome_ofAddress?_iff]
    constructor
    · exact fun is => .inl (.address is)
    · rintro (format | lax)
      · cases format with
        | address is => exact is
      · cases lax
  | bool =>
    rw [scalar?, isSome_bool?_iff]
    exact (or_iff_left (fun lax => by cases lax)).symm
  | bytes =>
    rw [scalar?]
    exact isSome_bytes?_iff
  | string => exact iff_of_true rfl (.inl (.string _))
  | void | staticArray | dynamicArray => simp [scalarTypes] at single

end Definition

/-- The blanks around the name of a type do not count. -/
theorem ValueType.ofText_trim (cs : List Char) : ofText (trim cs) = ofText cs := by
  rw [ofText, ofText.eq_def cs]
  generalize same : trim (trim cs) = text
  rw [trim_trim] at same
  cases same
  rfl

/-- A value of a scalar type is laid out as a word, or as a byte string. -/
theorem Definition.encodeValue_eq {typeName value : String} {t : ValueType}
    (declared : ValueType.ofText typeName.toList = .ok t) (single : t ∈ scalarTypes) :
    encodeValue typeName value = (scalar t value.toList).map fun bytes =>
      (t, if t.isStatic then bytes else Abi.dynamic bytes) := by
  have named : ValueType.ofText (trim typeName.toList) = .ok t := by
    rw [ValueType.ofText_trim, declared]
  rw [encodeValue, named]
  cases t with
  | uint256 | address | bool | bytes | string =>
    simp only [bind, Except.bind]
    generalize scalar _ value.toList = content
    cases content <;> rfl
  | void | staticArray | dynamicArray => simp [scalarTypes] at single

namespace TrackerDefinition

open Definition

/-- A tracker of a scalar type is encoded as its initial value. -/
theorem encode_eq {tracker : TrackerDefinition} {t : ValueType}
    (declared : ValueType.ofText tracker.type.toList = .ok t) (single : t ∈ scalarTypes) :
    tracker.encode = (scalar t tracker.initialValue.toList).map fun bytes =>
      ⟨tracker.name, t, if t.isStatic then bytes else Abi.dynamic bytes⟩ := by
  rw [encode, encodeValue_eq declared single]
  generalize scalar t tracker.initialValue.toList = content
  cases content <;> rfl

/-- A tracker of a scalar type is encoded exactly if its value has the format of the type or is one
of the lax values, which do not have it.  With any other value the value is reported. -/
theorem encode_eq_ok_iff_format (tracker : TrackerDefinition) {t : ValueType}
    (declared : ValueType.ofText tracker.type.toList = .ok t) (single : t ∈ scalarTypes) :
    ((∃ encoded, tracker.encode = .ok encoded) ↔
      Format t (trim tracker.initialValue.toList) ∨ Lax t (trim tracker.initialValue.toList)) ∧
    (Lax t (trim tracker.initialValue.toList) → ¬ Format t (trim tracker.initialValue.toList)) ∧
    (¬ Format t (trim tracker.initialValue.toList) → ¬ Lax t (trim tracker.initialValue.toList) →
      tracker.encode = .error (.invalidDefault tracker.initialValue t.name)) := by
  rw [encode_eq declared single, ← isSome_scalar?_iff single]
  refine ⟨?_, Lax.not_format, ?_⟩
  · rw [scalar]
    cases scalar? t tracker.initialValue.toList with
    | none => simp [Except.map]
    | some bytes => simp [Except.map]
  · intro unformatted strict
    have none : scalar? t tracker.initialValue.toList = none := by
      rw [← Option.not_isSome_iff_eq_none, isSome_scalar?_iff single]
      exact not_or.2 ⟨unformatted, strict⟩
    rw [scalar, none, String.ofList_toList]
    rfl

theorem encode_eq_ok_iff_format_hexadecimal :
    (∃ encoded, (⟨"limit", " uint ", " 0xFf"⟩ : TrackerDefinition).encode = .ok encoded) ∧
    (⟨"data", "bytes", "0xabc"⟩ : TrackerDefinition).encode =
      .error (.invalidDefault "0xabc" "bytes") := by
  constructor
  · have declared : ValueType.ofText " uint ".toList = .ok .uint256 := by decide +kernel
    have format : Format .uint256 ['0', 'x', 'F', 'f'] := .hexadecimal (by decide) (by decide)
    exact (encode_eq_ok_iff_format ⟨"limit", " uint ", " 0xFf"⟩ declared (by decide)).1.2
      (.inl format)
  · have declared : ValueType.ofText "bytes".toList = .ok .bytes := by decide +kernel
    apply (encode_eq_ok_iff_format ⟨"data", "bytes", "0xabc"⟩ declared (by decide)).2.2
    · -- three digits are no pairs
      show ¬ Format .bytes ['0', 'x', 'a', 'b', 'c']
      intro format
      cases format with
      | bytes even => cases even
    · show ¬ Lax .bytes ['0', 'x', 'a', 'b', 'c']
      intro lax
      cases lax with
      | signed _ sign => exact absurd sign (by decide)

/-- Values without their format: no digits, `0x` twice, and a sign in place of a digit. -/
theorem encode_lax :
    ((⟨"t", "uint256", ""⟩ : TrackerDefinition).encode =
        .ok ⟨"t", .uint256, List.replicate 32 0⟩ ∧ ¬ Format .uint256 (trim "".toList)) ∧
    ((⟨"t", "uint256", "0x0x1f"⟩ : TrackerDefinition).encode =
        .ok ⟨"t", .uint256, List.replicate 31 0 ++ [31]⟩ ∧
      ¬ Format .uint256 (trim "0x0x1f".toList)) ∧
    (⟨"t", "bytes", "0x+f"⟩ : TrackerDefinition).encode =
        .ok ⟨"t", .bytes, Abi.dynamic [15]⟩ ∧ ¬ Format .bytes (trim "0x+f".toList) := by
  have empty : Lax .uint256 (trim "".toList) := .nothing
  have twice : Lax .uint256 ['0', 'x', '0', 'x', '1', 'f'] := .markedTwice (by decide)
  have signed : Lax .bytes ['0', 'x', '+', 'f'] :=
    .signed (.pair (.inr rfl) (by decide) .nil) (by decide)
  exact ⟨⟨by decide +kernel, empty.not_format⟩, ⟨by decide +kernel, twice.not_format⟩,
    by decide +kernel, signed.not_format⟩

end TrackerDefinition

end RuleCodec
