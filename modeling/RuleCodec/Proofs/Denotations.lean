/-
RuleCodec/Proofs/Denotations.lean

What the text of a value denotes, however it is spelled.

A number may be written in decimal or hexadecimal digits and begin with zeros,
hexadecimal digits in either case, a text with quotes or without.
`Definition.Denotes` relates each spelling to the value itself, digit by digit
and without the readers.  A text that can be read denotes exactly one value
(`Definition.existsUnique_denotes`), and what is laid out is that value
(`Definition.encodeValue_eq_ok_iff`): two texts of one type have the same layout
if and only if they denote the same value (`Definition.layout_eq_iff`).
-/
import Mathlib.Logic.ExistsUnique
import RuleCodec.Proofs.Formats
import RuleCodec.Proofs.Layouts
import RuleCodec.Proofs.Utf8

namespace RuleCodec

open Text

/-! ### Hexadecimal digits -/

namespace Numeral

/-- The value of a hexadecimal digit in either case. -/
def hexDigit (c : Char) : Nat :=
  if isDecimalDigit c then c.toNat - '0'.toNat
  else if 'a' ≤ c then c.toNat - 'a'.toNat + 10
  else c.toNat - 'A'.toNat + 10

theorem digitValue?_of_isHexDigit {c : Char} (h : isHexDigit c) :
    digitValue? 16 c = some (hexDigit c) := by
  have bounds := isHexDigit_iff.1 h
  have lower : 'a' ≤ c ↔ 97 ≤ c.toNat := Iff.rfl
  have zero : '0'.toNat = 48 := rfl
  have small : 'a'.toNat = 97 := rfl
  have capital : 'A'.toNat = 65 := rfl
  simp only [digitValue?, Option.ite_none_right_eq_some, Option.some.injEq, hexDigit,
    isDecimalDigit_iff, lower, zero, small, capital]
  split_ifs <;> omega

/-- The number that hexadecimal digits denote. -/
def hexValue (cs : List Char) : Nat :=
  cs.foldl (fun n c => 16 * n + hexDigit c) 0

theorem read?_of_hex {cs : List Char} (digits : ∀ c ∈ cs, isHexDigit c) :
    read? 16 cs = some (hexValue cs) :=
  readFrom?_of_digits fun c mem => digitValue?_of_isHexDigit (digits c mem)

end Numeral

namespace Word

open Numeral

theorem ofNat?_of_lt {n : Nat} (fits : n < size) : ofNat? n = some (BitVec.ofNat 256 n) :=
  if_pos fits

/-- At most sixty-four hexadecimal digits fit in a word. -/
theorem hexValue_lt {digits : List Char} (short : digits.length ≤ 64)
    (all : ∀ c ∈ digits, isHexDigit c) : hexValue digits < size := by
  calc hexValue digits < 16 ^ digits.length := read?_lt (read?_of_hex all)
    _ ≤ 16 ^ 64 := Nat.pow_le_pow_right (by decide) short
    _ = size := by decide

/-- Digits that are not too many are read as their number. -/
theorem ofDigits_eq {digits : List Char} (short : digits.length ≤ 64)
    (all : ∀ c ∈ digits, isHexDigit c) :
    (read? 16 digits).bind ofNat? = some (BitVec.ofNat 256 (hexValue digits)) := by
  rw [read?_of_hex all, Option.bind_some, ofNat?_of_lt (hexValue_lt short all)]

end Word

namespace Bytes

/-- Digits spell bytes in pairs; the first of a pair may be a plus sign. -/
inductive Spells : List Char → Bytes → Prop
  | nil : Spells [] []
  | pair {high low : Char} {rest : List Char} {bytes : Bytes} : isHexDigit high → isHexDigit low →
      Spells rest bytes →
        Spells (high :: low :: rest)
          (UInt8.ofNat (Numeral.hexDigit high * 16 + Numeral.hexDigit low) :: bytes)
  | signed {low : Char} {rest : List Char} {bytes : Bytes} : isHexDigit low → Spells rest bytes →
      Spells ('+' :: low :: rest) (UInt8.ofNat (Numeral.hexDigit low) :: bytes)

/-- Digits in pairs always spell bytes. -/
theorem exists_spells {digits : List Char} (h : SignedPairs digits) :
    ∃ bytes, Spells digits bytes := by
  induction h with
  | nil => exact ⟨[], .nil⟩
  | pair first second _ ih =>
    obtain ⟨bytes, spells⟩ := ih
    rcases first with digit | rfl
    · exact ⟨_, .pair digit second spells⟩
    · exact ⟨_, .signed second spells⟩

/-- The bytes that digits spell are the ones that are read. -/
theorem Spells.ofHex?_eq {digits : List Char} {bytes : Bytes} (h : Spells digits bytes) :
    ofHex? digits = some bytes := by
  induction h with
  | nil => rfl
  | @pair high low rest bytes first second _ ih =>
    have digit : high ≠ '+' := by
      rintro rfl
      exact absurd first (by decide)
    rw [ofHex?, ih, ofHexPair?, Numeral.digitValue?_of_isHexDigit second]
    simp only [if_neg digit, Numeral.digitValue?_of_isHexDigit first]
  | signed second _ ih =>
    rw [ofHex?, ih, ofHexPair?, Numeral.digitValue?_of_isHexDigit second]
    simp only [if_true]

end Bytes

theorem Text.Utf8.encode_injective : Function.Injective Utf8.encode :=
  Function.LeftInverse.injective Utf8.decodeLossy_encode

/-! ### Values and their spellings -/

namespace Definition

open Numeral

/-- A value of a scalar type.  An address is a number too. -/
inductive Value
  | number (n : Nat)
  | truth (b : Bool)
  | text (cs : List Char)
  | bytes (content : Bytes)

/-- The value of a type that a text without blanks at its ends denotes. -/
inductive Denotes : ValueType → List Char → Value → Prop
  | decimal {cs : List Char} : Word.IsDecimal cs → Denotes .uint256 cs (.number (decimalValue cs))
  | hexadecimal {digits : List Char} : Word.IsHex digits →
      Denotes .uint256 ('0' :: 'x' :: digits) (.number (hexValue digits))
  | markedTwice {digits : List Char} : Word.IsHex digits →
      Denotes .uint256 ('0' :: 'x' :: '0' :: 'x' :: digits) (.number (hexValue digits))
  | address {digits : List Char} : digits.length = 40 → (∀ c ∈ digits, isHexDigit c) →
      Denotes .address ('0' :: 'x' :: digits) (.number (hexValue digits))
  | true : Denotes .bool "true".toList (.truth Bool.true)
  | false : Denotes .bool "false".toList (.truth Bool.false)
  | bytes {digits : List Char} {bytes : Bytes} : Bytes.Spells digits bytes →
      Denotes .bytes ('0' :: 'x' :: digits) (.bytes bytes)
  | quoted {quote : Char} {inner : List Char} : quote = '"' ∨ quote = '\'' →
      Denotes .string (quote :: (inner ++ [quote])) (.text inner)
  | bare {cs : List Char} : ¬ Quoted cs → Denotes .string cs (.text cs)

/-- The bytes of a value: the word of a static one, the content of another. -/
def Value.content : Value → Bytes
  | number n => Abi.natWord n
  | truth b => Abi.boolWord b
  | text cs => Utf8.encode cs
  | bytes content => content

variable {t : ValueType} {cs cs' : List Char} {v v' : Value}

/-- Decimal digits are read as the number they denote. -/
theorem number?_of_decimal (h : Word.IsDecimal cs) :
    number? cs = some (BitVec.ofNat 256 (decimalValue cs)) := by
  rw [number?, h.stripStart?_hexMark]
  simp only [Word.ofDecimal?]
  rw [read?_of_decimal h.1, Option.bind_some, Word.ofNat?_of_lt h.2]

/-- So are hexadecimal digits behind `0x`. -/
theorem number?_of_hex {digits : List Char} (h : Word.IsHex digits) :
    number? ('0' :: 'x' :: digits) = some (BitVec.ofNat 256 (hexValue digits)) := by
  have plain := stripStart?_of_all_isHexDigit (List.all_eq_true.2 h.2)
  rw [number?, stripStart?_hexMark]
  simp only [Word.ofHex?, plain, Option.getD_none, if_pos h.1]
  exact Word.ofDigits_eq h.1 h.2

/-- A second `0x` is skipped as well. -/
theorem number?_of_hex_markedTwice {digits : List Char} (h : Word.IsHex digits) :
    number? ('0' :: 'x' :: '0' :: 'x' :: digits) = some (BitVec.ofNat 256 (hexValue digits)) := by
  rw [number?, stripStart?_hexMark]
  simp only [Word.ofHex?, stripStart?_hexMark, Option.getD_some, if_pos h.1]
  exact Word.ofDigits_eq h.1 h.2

/-- A text in quotes is read without them. -/
theorem unquote_of_quote {quote : Char} (is : quote = '"' ∨ quote = '\'') (inner : List Char) :
    unquote (quote :: (inner ++ [quote])) = inner := by
  rcases is with rfl | rfl
  · exact unquote_quoted inner
  · have double : between? '"' ('\'' :: (inner ++ ['\''])) = none := by
      cases found : between? '"' ('\'' :: (inner ++ ['\''])) with
      | none => rfl
      | some other => cases between?_eq_some_iff.1 found
    rw [unquote, double, between?_eq_some_iff.2 rfl]
    rfl

/-- A text is read as the value it denotes. -/
theorem Denotes.scalar?_eq (h : Denotes t (trim cs) v) : scalar? t cs = some v.content := by
  rw [scalar?.eq_def]
  -- the blanks are gone, so the text is the denoting one
  generalize trim cs = trimmed at h
  cases h with
  | decimal is => simp only [number?_of_decimal is, Option.map_some, Value.content, Abi.natWord]
  | hexadecimal is => simp only [number?_of_hex is, Option.map_some, Value.content, Abi.natWord]
  | markedTwice is =>
    simp only [number?_of_hex_markedTwice is, Option.map_some, Value.content, Abi.natWord]
  | address forty all =>
    simp only [Word.ofAddress?, stripStart?_hexMark, if_pos forty]
    rw [Word.ofDigits_eq (by omega) all]
    rfl
  | true => rfl
  | false => rfl
  | bytes spells =>
    simp only [stripStart?_hexMark, Option.bind_some]
    exact spells.ofHex?_eq
  | quoted is => simp only [unquote_of_quote is, Value.content]
  | bare plain => simp only [unquote_eq_self plain, Value.content]

/-- What has the format of its type, or passes for it, denotes a value. -/
theorem exists_denotes (h : Format t cs ∨ Lax t cs) : ∃ v, Denotes t cs v := by
  rcases h with format | lax
  · cases format with
    | decimal _ is => exact ⟨_, .decimal is⟩
    | hexadecimal _ is => exact ⟨_, .hexadecimal is⟩
    | address is =>
      obtain ⟨digits, rfl, forty, all⟩ := is
      exact ⟨_, .address forty all⟩
    | true => exact ⟨_, .true⟩
    | false => exact ⟨_, .false⟩
    | bytes even all =>
      obtain ⟨bytes, spells⟩ := Bytes.exists_spells (Bytes.signedPairs_of_digits even all)
      exact ⟨_, .bytes spells⟩
    | string =>
      -- every text is a string: one in quotes denotes what is between them
      by_cases quoted : Quoted cs
      · obtain ⟨quote, inner, is, rfl⟩ := quoted
        exact ⟨_, .quoted is⟩
      · exact ⟨_, .bare quoted⟩
  · cases lax with
    | nothing =>
      have none : Word.IsDecimal [] := ⟨List.forall_mem_nil _, by decide⟩
      exact ⟨_, .decimal none⟩
    | noDigits =>
      have none : Word.IsHex [] := ⟨Nat.zero_le _, List.forall_mem_nil _⟩
      exact ⟨_, .hexadecimal none⟩
    | markedTwice is => exact ⟨_, .markedTwice is⟩
    | signed pairs =>
      obtain ⟨bytes, spells⟩ := Bytes.exists_spells pairs
      exact ⟨_, .bytes spells⟩

/-- A value is read exactly if the text, without blanks around it, denotes it. -/
theorem scalar?_eq_some_iff (single : t ∈ scalarTypes) {content : Bytes} :
    scalar? t cs = some content ↔ ∃ v, Denotes t (trim cs) v ∧ v.content = content := by
  constructor
  · intro read
    obtain ⟨v, denotes⟩ :=
      exists_denotes ((isSome_scalar?_iff single).1 (Option.isSome_of_eq_some read))
    refine ⟨v, denotes, ?_⟩
    rw [denotes.scalar?_eq] at read
    exact Option.some.inj read
  · rintro ⟨v, denotes, rfl⟩
    exact denotes.scalar?_eq

/-! ### One layout for each value -/

/-- Numbers that are denoted fit a word. -/
theorem Denotes.number_lt {n : Nat} (h : Denotes t cs (.number n)) : n < Word.size := by
  cases h with
  | decimal is => exact is.2
  | hexadecimal is => exact Word.hexValue_lt is.1 is.2
  | markedTwice is => exact Word.hexValue_lt is.1 is.2
  | address forty all => exact Word.hexValue_lt (by omega) all

theorem boolWord_inj {b b' : Bool} (same : Abi.boolWord b = Abi.boolWord b') : b = b' := by
  have apart : ∀ b b' : Bool, (if b then 1 else 0) = (if b' then 1 else 0) → b = b' := by decide
  exact apart b b' (Abi.natWord_inj (by split <;> decide) (by split <;> decide) same)

/-- Values that texts of one type denote have bytes of their own. -/
theorem Denotes.eq_of_content (h : Denotes t cs v) (h' : Denotes t cs' v')
    (same : v.content = v'.content) : v = v' := by
  -- texts of one type denote values of one kind
  cases v with
  | number n =>
    cases v' with
    | number m => rw [Abi.natWord_inj h.number_lt h'.number_lt same]
    | truth | text | bytes => cases h <;> cases h'
  | truth b =>
    cases v' with
    | truth b' => rw [boolWord_inj same]
    | number | text | bytes => cases h <;> cases h'
  | text cs =>
    cases v' with
    | text cs' => rw [Utf8.encode_injective same]
    | number | truth | bytes => cases h <;> cases h'
  | bytes content =>
    cases v' with
    | bytes content' => exact congrArg Value.bytes same
    | number | truth | text =>
      cases h
      cases h'

/-- A value as it is laid out. -/
def Value.layout (t : ValueType) (v : Value) : Bytes :=
  if t.isStatic then v.content else Abi.dynamic v.content

/-- Values of one type are told apart by their layout. -/
theorem Denotes.eq_of_layout (h : Denotes t cs v) (h' : Denotes t cs' v')
    (same : v.layout t = v'.layout t) : v = v' := by
  apply h.eq_of_content h'
  rw [Value.layout, Value.layout] at same
  split at same
  · exact same
  · exact Abi.dynamic_injective same

variable {typeName text text' : String} {layout layout' : Bytes}

/-- What is laid out is the value that the text denotes. -/
theorem encodeValue_eq_ok_iff (declared : ValueType.ofText typeName.toList = .ok t)
    (single : t ∈ scalarTypes) :
    encodeValue typeName text = .ok (t, layout) ↔
      ∃ v, Denotes t (trim text.toList) v ∧ v.layout t = layout := by
  rw [encodeValue_eq declared single, scalar]
  cases read : scalar? t text.toList with
  | none =>
    refine iff_of_false (by simp [Except.map]) ?_
    rintro ⟨v, denotes, -⟩
    rw [denotes.scalar?_eq] at read
    cases read
  | some content =>
    obtain ⟨v, denotes, rfl⟩ := (scalar?_eq_some_iff single).1 read
    simp only [Except.map, Except.ok.injEq, Prod.mk.injEq, true_and]
    constructor
    · exact fun eq => ⟨v, denotes, eq⟩
    · -- what is denoted is what was read, so it has the same content
      rintro ⟨v', denotes', eq⟩
      rw [denotes'.scalar?_eq] at read
      rw [← eq, Value.layout, Option.some.inj read]

/-- A text that can be laid out denotes one value and no other. -/
theorem existsUnique_denotes (declared : ValueType.ofText typeName.toList = .ok t)
    (single : t ∈ scalarTypes) (laid : encodeValue typeName text = .ok (t, layout)) :
    ∃! v, Denotes t (trim text.toList) v := by
  obtain ⟨v, denotes, -⟩ := (encodeValue_eq_ok_iff declared single).1 laid
  refine ⟨v, denotes, ?_⟩
  intro v' denotes'
  apply denotes'.eq_of_content denotes
  apply Option.some.inj
  rw [← denotes.scalar?_eq, ← denotes'.scalar?_eq]

/-- Two texts denote one value of a type, whatever blanks are around them. -/
def SameValue (t : ValueType) (text text' : String) : Prop :=
  ∃ v, Denotes t (trim text.toList) v ∧ Denotes t (trim text'.toList) v

/-- Texts of one type have one layout exactly if they denote one value. -/
theorem layout_eq_iff (declared : ValueType.ofText typeName.toList = .ok t)
    (single : t ∈ scalarTypes) (laid : encodeValue typeName text = .ok (t, layout))
    (laid' : encodeValue typeName text' = .ok (t, layout')) :
    layout = layout' ↔ SameValue t text text' := by
  obtain ⟨v, denotes, rfl⟩ := (encodeValue_eq_ok_iff declared single).1 laid
  obtain ⟨v', denotes', rfl⟩ := (encodeValue_eq_ok_iff declared single).1 laid'
  constructor
  · intro same
    rw [← denotes.eq_of_layout denotes' same] at denotes'
    exact ⟨v, denotes, denotes'⟩
  · rintro ⟨u, left, right⟩
    obtain ⟨_, _, unique⟩ := existsUnique_denotes declared single laid
    obtain ⟨_, _, unique'⟩ := existsUnique_denotes declared single laid'
    rw [unique v denotes, unique' v' denotes', ← unique u left, ← unique' u right]

end Definition

end RuleCodec
