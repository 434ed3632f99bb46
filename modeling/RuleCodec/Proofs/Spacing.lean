/-
RuleCodec/Proofs/Spacing.lean

Tokens with blanks between them.

`Token.Spells` gives the spellings of a token: decimal digits of a number, `0x`
and hexadecimal digits of an address or of bytes, a text between quotes, words,
names behind their markers, symbols.  The tokens that have one are those that
a scan can give (`Token.exists_spells_iff`).  A text in which spellings stand
with blanks around them, and at least one between neighbours
(`Token.Spaced`), is scanned as the tokens that are spelled, and a text that
is written bare is one that is scanned as itself (`Token.scan_spaced`).

Design.  Each spelling is scanned alone, so that nothing has to be known of
what follows it; `Scans.append` puts them together.
-/
import RuleCodec.Proofs.Denotations
import RuleCodec.Proofs.Trimming

namespace RuleCodec

open Text

/-! ### Spellings -/

/-- The text is a spelling of the token. -/
inductive Token.Spells : Token → List Char → Prop
  | number {digits : List Char} : digits ≠ [] → Word.IsDecimal digits →
      Spells (.number (BitVec.ofNat 256 (Numeral.decimalValue digits))) digits
  | address {digits : List Char} : digits.length = 40 → (∀ c ∈ digits, isHexDigit c) →
      Spells (.address (BitVec.ofNat 256 (Numeral.hexValue digits))) ('0' :: 'x' :: digits)
  | bytes {digits : List Char} {bytes : Bytes} : (∀ c ∈ digits, isHexDigit c) →
      Bytes.Spells digits bytes → bytes.length ≠ 20 → Spells (.bytes bytes) ('0' :: 'x' :: digits)
  | text (value : String) : Spells (.text value) (quotedText value.toList)
  | true : Spells (.boolean .true) ['t', 'r', 'u', 'e']
  | false : Spells (.boolean .false) ['f', 'a', 'l', 's', 'e']
  | identifier {name : String} : isBareWord name.toList → Spells (.identifier name) name.toList
  | trackerRead {name : String} : isName name.toList →
      Spells (.trackerRead name) ('T' :: 'R' :: ':' :: name.toList)
  | trackerUpdate {name : String} : isName name.toList →
      Spells (.trackerUpdate name) ('T' :: 'R' :: 'U' :: ':' :: name.toList)
  | foreignCall {name : String} : isName name.toList →
      Spells (.foreignCall name) ('F' :: 'C' :: ':' :: name.toList)
  | globalVariable {name : String} : isName name.toList →
      Spells (.globalVariable name) ('G' :: 'V' :: ':' :: name.toList)
  | symbol {t : Token} {symbol : String} : t.symbol? = some symbol → Spells t symbol.toList

/-- Spellings of the tokens in their order, with blanks around them and at least one between
neighbours. -/
inductive Token.Spaced : List Token → List Char → Prop
  | nil : Spaced [] []
  | blank {c : Char} {ts : List Token} {cs : List Char} : isBlank c → Spaced ts cs →
      Spaced ts (c :: cs)
  | token {t : Token} {ts : List Token} {cs rest : List Char} : t.Spells cs → Fades rest →
      Spaced ts rest → Spaced (t :: ts) (cs ++ rest)

/-! ### One token -/

theorem Word.IsDecimal.ofDecimal?_eq {digits : List Char} (h : IsDecimal digits) :
    ofDecimal? digits = some (BitVec.ofNat 256 (Numeral.decimalValue digits)) := by
  rw [ofDecimal?, Numeral.read?_of_decimal h.1, Option.bind_some, ofNat?_of_lt h.2]

theorem Word.ofHex?_of_digits {digits : List Char} (short : digits.length ≤ 64)
    (all : ∀ c ∈ digits, isHexDigit c) :
    ofHex? digits = some (BitVec.ofNat 256 (Numeral.hexValue digits)) := by
  have plain := stripStart?_of_all_isHexDigit (List.all_eq_true.2 all)
  rw [ofHex?, plain, Option.getD_none]
  simp only [if_pos short]
  exact ofDigits_eq short all

namespace Token

/-- A symbol at the end of a text. -/
theorem scans_symbol? {t : Token} {symbol : String} (h : t.symbol? = some symbol) :
    Scans symbol.toList [t, .endOfInput] := by
  cases t with
  | not =>
    cases h
    exact Scans.nil.keyword 'N' ['O', 'T'] trivial rfl rfl rfl
  | leftParen =>
    cases h
    exact Scans.nil.leftParen
  | rightParen =>
    cases h
    exact Scans.nil.rightParen
  | comma =>
    cases h
    exact Scans.nil.comma
  | pipe =>
    cases h
    exact Scans.nil.pipe
  | operator op =>
    cases h
    have scans := Scans.nil.operator op trivial
    rwa [List.append_nil] at scans
  | _ => cases h

/-- A spelling alone is scanned as its token. -/
theorem Spells.scans {t : Token} {cs : List Char} (h : t.Spells cs) :
    Scans cs [t, .endOfInput] := by
  -- nothing follows, and the end of the text breaks every token
  rw [← List.append_nil cs]
  cases h with
  | number ne decimal =>
    exact Scans.nil.decimal trivial ne (List.all_eq_true.2 decimal.1) decimal.ofDecimal?_eq
  | address length all =>
    exact Scans.nil.hexAddress trivial (List.all_eq_true.2 all) length
      (Word.ofHex?_of_digits (by omega) all)
  | bytes all spells other =>
    have read := spells.ofHex?_eq
    have length := Bytes.length_ofHex? read
    exact Scans.nil.hexBytes trivial (List.all_eq_true.2 all) (by omega) read
  | text value => exact Scans.nil.text
  | true => exact Scans.nil.keyword 't' ['r', 'u', 'e'] trivial rfl rfl rfl
  | false => exact Scans.nil.keyword 'f' ['a', 'l', 's', 'e'] trivial rfl rfl rfl
  | identifier is => exact Scans.nil.identifier trivial is
  | trackerRead is => exact Scans.nil.reference 'T' ['R'] trivial rfl rfl is rfl
  | trackerUpdate is => exact Scans.nil.reference 'T' ['R', 'U'] trivial rfl rfl is rfl
  | foreignCall is => exact Scans.nil.reference 'F' ['C'] trivial rfl rfl is rfl
  | globalVariable is => exact Scans.nil.reference 'G' ['V'] trivial rfl rfl is rfl
  | symbol is =>
    rw [List.append_nil]
    exact scans_symbol? is

/-! ### The tokens that have a spelling -/

theorem spells_toDecimal (value : Word) : Spells (.number value) value.toDecimal := by
  have all : ∀ c ∈ value.toDecimal, isDecimalDigit c :=
    List.all_eq_true.1 (Numeral.all_isDecimalDigit_write value.toNat)
  have denotes : Numeral.decimalValue value.toDecimal = value.toNat := by
    have read := Numeral.read?_write value.toNat
    exact Option.some.inj ((Numeral.read?_of_decimal all).symm.trans read)
  have ne : value.toDecimal ≠ [] := by
    obtain ⟨d, ds, written, -⟩ := Numeral.write_eq_cons value.toNat
    rw [Word.toDecimal, written]
    exact List.cons_ne_nil _ _
  have spells := Spells.number ne ⟨all, by rw [denotes]; exact value.isLt⟩
  rwa [denotes, BitVec.ofNat_toNat, BitVec.setWidth_eq] at spells

theorem spells_toAddress {value : Word} (fits : value.toNat < 16 ^ 40) :
    Spells (.address value) value.toAddress := by
  have length : (value.addressBytes.flatMap Bytes.hexPair).length = 40 := by
    rw [Bytes.length_flatMap_hexPair, Word.addressBytes, Bytes.length_ofNat]
  have all : ∀ c ∈ value.addressBytes.flatMap Bytes.hexPair, isHexDigit c :=
    List.all_eq_true.1 value.addressBytes.all_isHexDigit_flatMap_hexPair
  have spells := Spells.address length all
  have read := (Word.ofHex?_of_digits (by omega) all).symm.trans (Word.ofHex?_addressBytes fits)
  rwa [Option.some.inj read] at spells

theorem spells_toHex {value : Bytes} (other : value.length ≠ 20) :
    Spells (.bytes value) value.toHex := by
  have all : ∀ c ∈ value.flatMap Bytes.hexPair, isHexDigit c :=
    List.all_eq_true.1 value.all_isHexDigit_flatMap_hexPair
  have even : (value.flatMap Bytes.hexPair).length % 2 = 0 := by
    rw [value.length_flatMap_hexPair, Nat.mul_mod_right]
  obtain ⟨bytes, spells⟩ := Bytes.exists_spells (Bytes.signedPairs_of_digits even all)
  have same := spells.ofHex?_eq.symm.trans value.ofHex?_flatMap_hexPair
  cases same
  exact .bytes all spells other

/-- What comes before the last token of a scan can be read from a text. -/
theorem lexical_of_mem_scanFrom {position : Nat} {cs : List Char} {body : List Located}
    {last t : Located} (h : scanFrom position cs = .ok (body ++ [last])) (mem : t ∈ body) :
    t.token.Lexical := by
  obtain ⟨body', last', eq, -, lexical⟩ := scanFrom_eq_ok h
  obtain ⟨rfl, -⟩ := List.append_inj' eq rfl
  exact lexical t mem

/-- The tokens that can be read from a text are those that have a spelling. -/
theorem exists_spells_iff {t : Token} : (∃ cs, t.Spells cs) ↔ t.Lexical := by
  constructor
  · rintro ⟨cs, spells⟩
    obtain ⟨located, scanned, eq⟩ := spells.scans 0
    obtain ⟨first, rest, rfl, rfl, ends⟩ := List.map_eq_cons_iff.1 eq
    obtain ⟨last, rfl, -⟩ := List.map_eq_singleton_iff.1 ends
    have scanned : scanFrom 0 cs = .ok ([first] ++ [last]) := scanned
    exact lexical_of_mem_scanFrom scanned List.mem_cons_self
  · intro lexical
    cases t with
    | number value => exact ⟨_, spells_toDecimal value⟩
    | address value => exact ⟨_, spells_toAddress lexical⟩
    | bytes value => exact ⟨_, spells_toHex lexical⟩
    | text value => exact ⟨_, .text value⟩
    | boolean value =>
      cases value with
      | true => exact ⟨_, .true⟩
      | false => exact ⟨_, .false⟩
    | identifier name => exact ⟨_, .identifier lexical⟩
    | trackerRead name => exact ⟨_, .trackerRead lexical⟩
    | trackerUpdate name => exact ⟨_, .trackerUpdate lexical⟩
    | foreignCall name => exact ⟨_, .foreignCall lexical⟩
    | globalVariable name => exact ⟨_, .globalVariable lexical⟩
    | endOfInput => cases lexical
    | _ => exact ⟨_, .symbol rfl⟩

/-! ### Whole texts -/

/-- One spelling after the other is scanned, up to the blank behind it. -/
theorem Spaced.scans {ts : List Token} {cs : List Char} (h : Spaced ts cs) :
    Scans cs (ts ++ [.endOfInput]) := by
  induction h with
  | nil => exact Scans.nil
  | @blank c ts cs here _ ih =>
    have one : ∀ d ∈ [c], isBlank d := by simpa using here
    exact ih.blanks one
  | @token t ts cs rest spells fades _ ih =>
    have alone : Scans cs ([t] ++ [.endOfInput]) := spells.scans
    exact alone.append fades ih

/-- A bare word is one token, from the first character to the last. -/
theorem scan_of_isBareWord {text : String} (h : isBareWord text.toList) :
    scan text = .ok [⟨.identifier text, 0⟩, ⟨.endOfInput, text.length⟩] := by
  cases letters : text.toList with
  | nil =>
    rw [letters] at h
    cases h
  | cons c cs =>
    rw [letters, isBareWord, Bool.and_eq_true, Bool.and_eq_true] at h
    obtain ⟨⟨start, all⟩, noKeyword⟩ := h
    have named : String.ofList (c :: cs) = text := by rw [← letters, String.ofList_toList]
    have length : text.length = cs.length + 1 := by
      rw [← String.length_toList, letters, List.length_cons]
    -- a word that goes to the end of the text, and is no keyword
    have first : Lexeme.first 0 c cs = .ok ⟨.identifier text, cs.length + 1⟩ := by
      have ends : Breaks [] := trivial
      rw [Lexeme.first_of_isWordStart start, ← List.append_nil cs, Lexeme.word_of_breaks ends all,
        Option.isNone_iff_eq_none.1 noKeyword, named, List.append_nil]
      rfl
    rw [scan, letters, scanFrom, if_neg (by simp [isBlank_of_isWordStart start]), first]
    simp [scanFrom, length]

/-- **Scanning reads tokens as they are spelled.**  The tokens that have a spelling are those that
a scan can give.  A text in which tokens are spelled with blanks between them is scanned as these
tokens and the end of the input.  A text can stand bare exactly if it is scanned as one identifier,
which is the text itself. -/
theorem scan_spaced :
    (∀ t : Token, t.Lexical ↔ ∃ cs, t.Spells cs) ∧
    (∀ (ts : List Token) (source : String), Spaced ts source.toList →
      ∃ located, scan source = .ok located ∧ tokens located = ts ++ [.endOfInput]) ∧
    ∀ text : String, isBareWord text.toList ↔
      ∃ last, scan text = .ok [⟨.identifier text, 0⟩, ⟨.endOfInput, last⟩] := by
  refine ⟨fun t => exists_spells_iff.symm, ?_, ?_⟩
  · intro ts source spaced
    exact spaced.scans 0
  · intro text
    constructor
    · intro bare
      exact ⟨_, scan_of_isBareWord bare⟩
    · rintro ⟨last, scanned⟩
      have scanned : scanFrom 0 text.toList =
          .ok ([⟨.identifier text, 0⟩] ++ [⟨.endOfInput, last⟩]) := scanned
      exact lexical_of_mem_scanFrom scanned List.mem_cons_self

/-- Zeros before a number, digits in either case, a quote inside a text, and blanks of several
kinds, also at the ends. -/
theorem scan_spaced_mixed :
    ∃ located, scan "\t007  \"a\\\"\" TR:x_1\n<= 0xFf " = .ok located ∧
      tokens located = [.number 7, .text "a\"", .trackerRead "x_1", .operator (.plain .lessEqual),
        .bytes [255], .endOfInput] := by
  have decimal : Word.IsDecimal ['0', '0', '7'] := ⟨List.all_eq_true.1 (by decide), by decide⟩
  have number : Spells (.number 7) ['0', '0', '7'] := .number (List.cons_ne_nil _ _) decimal
  have bytes : Spells (.bytes [255]) ['0', 'x', 'F', 'f'] :=
    .bytes (List.all_eq_true.1 (by decide)) (.pair rfl rfl .nil) (by decide)
  have reference : Spells (.trackerRead "x_1") ('T' :: 'R' :: ':' :: "x_1".toList) :=
    .trackerRead (by decide +kernel)
  have operator : Spells (.operator (.plain .lessEqual)) "<=".toList := .symbol rfl
  have back : Spaced _ ("<=".toList ++ ' ' :: (['0', 'x', 'F', 'f'] ++ [' '])) :=
    .token operator rfl (.blank rfl (.token bytes rfl (.blank rfl .nil)))
  have spaced : Spaced _ ('\t' :: (['0', '0', '7'] ++ ' ' :: ' ' :: (quotedText "a\"".toList ++
      ' ' :: ('T' :: 'R' :: ':' :: "x_1".toList ++ '\n' :: _)))) :=
    .blank rfl (.token number rfl (.blank rfl (.blank rfl (.token (.text _) rfl
      (.blank rfl (.token reference rfl (.blank rfl back)))))))
  exact scan_spaced.2.1 _ "\t007  \"a\\\"\" TR:x_1\n<= 0xFf " spaced

end Token

end RuleCodec
