/-
RuleCodec/Proofs/Spelling.lean

The text of a phrase, read again.

A phrase is written with one blank around every operator and inside the
parentheses of a group.  Scanning that text gives back the tokens of the phrase
(`Phrase.scans_spell`), whatever phrase it is: well grouped or not, with pipes
or without.

Design.  `Scans` says which tokens a text is scanned as, from any position on.
It is built up from the end of the text to its beginning, one token at a time.
A symbol ends by itself; a word or a numeral ends because the text goes on with
a blank, a parenthesis or a comma, or not at all (`Breaks`).
-/
import RuleCodec.Proofs.Scanning

namespace RuleCodec

open Text

/-! ### Characters -/

theorem Text.CodeRanges.exists_of_holdsAt {ranges : CodeRanges} {n : Nat}
    (h : ranges.holdsAt n) : ∃ r ∈ ranges, r.1 ≤ n ∧ n ≤ r.2 := by
  induction ranges with
  | nil => cases h
  | cons r rest ih =>
    simp only [holdsAt, Bool.and_eq_true, Bool.or_eq_true, decide_eq_true_eq] at h
    rcases h with ⟨le, inside | later⟩
    · exact ⟨r, List.mem_cons_self, le, inside⟩
    · obtain ⟨r', mem, bounds⟩ := ih later
      exact ⟨r', List.mem_cons_of_mem _ mem, bounds⟩

/-- Classes whose ranges lie apart have no character in common. -/
theorem Text.CodeRanges.not_holds_of_apart {ranges others : CodeRanges} {c : Char}
    (apart : ∀ r ∈ ranges, ∀ s ∈ others, r.2 < s.1 ∨ s.2 < r.1) (h : ranges.holds c) :
    others.holds c = false := by
  rw [Bool.eq_false_iff]
  intro h'
  obtain ⟨r, inRanges, bounds⟩ := exists_of_holdsAt h
  obtain ⟨s, inOthers, bounds'⟩ := exists_of_holdsAt h'
  rcases apart r inRanges s inOthers with before | behind <;> omega

theorem Text.isBlank_of_isWordStart {c : Char} (h : isWordStart c) : isBlank c = false := by
  rw [isWordStart, Bool.or_eq_true, beq_iff_eq] at h
  rcases h with alphabetic | rfl
  · exact CodeRanges.not_holds_of_apart (by decide +kernel) alphabetic
  · rfl

theorem Text.holds_of_isDecimalDigit {c : Char} (h : isDecimalDigit c) :
    CodeRanges.holds [('0'.toNat, '9'.toNat)] c := by
  simp only [isDecimalDigit, Bool.and_eq_true, decide_eq_true_eq] at h
  have bounds : '0'.toNat ≤ c.toNat ∧ c.toNat ≤ '9'.toNat := h
  simpa [CodeRanges.holds, CodeRanges.holdsAt] using bounds

theorem Text.isBlank_of_isDecimalDigit {c : Char} (h : isDecimalDigit c) : isBlank c = false :=
  CodeRanges.not_holds_of_apart (by decide) (holds_of_isDecimalDigit h)

theorem Text.isDecimalDigit_of_isWordStart {c : Char} (h : isWordStart c) :
    isDecimalDigit c = false := by
  rw [isWordStart, Bool.or_eq_true, beq_iff_eq] at h
  rcases h with alphabetic | rfl
  · have other : CodeRanges.holds [('0'.toNat, '9'.toNat)] c = false :=
      CodeRanges.not_holds_of_apart (by decide +kernel) alphabetic
    rw [Bool.eq_false_iff] at other ⊢
    intro digit
    apply other
    exact holds_of_isDecimalDigit digit
  · rfl

/-! ### One token -/

/-- The text is scanned as the tokens, from any position on. -/
def Scans (cs : List Char) (ts : List Token) : Prop :=
  ∀ position, ∃ located, Token.scanFrom position cs = .ok located ∧ tokens located = ts

/-- The text goes on with a character that ends words and numerals, or not at all. -/
def Breaks : List Char → Prop
  | [] => True
  | c :: _ => c = ' ' ∨ c = '(' ∨ c = ')' ∨ c = ','

theorem Breaks.blank (rest : List Char) : Breaks (' ' :: rest) := .inl rfl

theorem Breaks.leftParen (rest : List Char) : Breaks ('(' :: rest) := .inr (.inl rfl)

theorem Breaks.rightParen (rest : List Char) : Breaks (')' :: rest) := .inr (.inr (.inl rfl))

theorem Breaks.comma (rest : List Char) : Breaks (',' :: rest) := .inr (.inr (.inr rfl))

theorem Breaks.head?_any {p : Char → Bool} {rest : List Char} (h : Breaks rest)
    (none : p ' ' = false ∧ p '(' = false ∧ p ')' = false ∧ p ',' = false) :
    rest.head?.any p = false := by
  cases rest with
  | nil => rfl
  | cons c rest =>
    rw [List.head?_cons, Option.any_some]
    rcases h with rfl | rfl | rfl | rfl
    · exact none.1
    · exact none.2.1
    · exact none.2.2.1
    · exact none.2.2.2

/-- A lexeme ends where a break follows. -/
theorem Breaks.takeWhile_append {p : Char → Bool} {cs rest : List Char} (h : Breaks rest)
    (all : cs.all p) (none : p ' ' = false ∧ p '(' = false ∧ p ')' = false ∧ p ',' = false) :
    (cs ++ rest).takeWhile p = cs ∧ (cs ++ rest).dropWhile p = rest := by
  have every : ∀ c ∈ cs, p c = true := List.all_eq_true.1 all
  have stops : rest.takeWhile p = [] ∧ rest.dropWhile p = rest := by
    cases rest with
    | nil => exact ⟨rfl, rfl⟩
    | cons c rest =>
      have other : p c = false := h.head?_any none
      rw [List.takeWhile_cons, List.dropWhile_cons, other]
      exact ⟨rfl, rfl⟩
  rw [List.takeWhile_append_of_pos every, List.dropWhile_append_of_pos every, stops.1, stops.2,
    List.append_nil]
  exact ⟨rfl, rfl⟩

theorem wordPart_breaks : isWordPart ' ' = false ∧ isWordPart '(' = false ∧
    isWordPart ')' = false ∧ isWordPart ',' = false := by decide +kernel

namespace Scans

variable {rest : List Char} {ts : List Token}

theorem nil : Scans [] [.endOfInput] := by
  intro position
  refine ⟨[⟨.endOfInput, position⟩], ?_, rfl⟩
  rw [Token.scanFrom]

theorem blank (h : Scans rest ts) : Scans (' ' :: rest) ts := by
  intro position
  obtain ⟨located, scanned, eq⟩ := h (position + 1)
  refine ⟨located, ?_, eq⟩
  rw [Token.scanFrom, if_pos (show isBlank ' ' = true from rfl), scanned]

/-- A lexeme that ends before the rest. -/
theorem lexeme {c : Char} (cs : List Char) {token : Token} (h : Scans rest ts)
    (notBlank : isBlank c = false)
    (first : ∀ position, Lexeme.first position c (cs ++ rest) = .ok ⟨token, cs.length + 1⟩) :
    Scans (c :: cs ++ rest) (token :: ts) := by
  intro position
  obtain ⟨located, scanned, eq⟩ := h (position + (cs.length + 1))
  refine ⟨⟨token, position⟩ :: located, ?_, ?_⟩
  · rw [List.cons_append, Token.scanFrom, if_neg (by simp [notBlank]), first]
    simp only [Nat.add_sub_cancel, List.drop_left, scanned]
  · rw [tokens_cons, eq]

theorem leftParen (h : Scans rest ts) : Scans ('(' :: rest) (.leftParen :: ts) :=
  h.lexeme [] rfl fun _ => rfl

theorem rightParen (h : Scans rest ts) : Scans (')' :: rest) (.rightParen :: ts) :=
  h.lexeme [] rfl fun _ => rfl

theorem comma (h : Scans rest ts) : Scans (',' :: rest) (.comma :: ts) :=
  h.lexeme [] rfl fun _ => rfl

theorem pipe (h : Scans rest ts) : Scans ('|' :: rest) (.pipe :: ts) :=
  h.lexeme [] rfl fun _ => rfl

end Scans

/-! ### Words -/

namespace Lexeme

variable {position : Nat} {c : Char} {rest : List Char}

/-- The characters that begin a symbol or a quoted text. -/
def symbolStarts : List Char :=
  ['(', ')', ',', '|', '+', '-', '*', '/', '<', '>', '=', '!', '"', '\'']

/-- What else a character begins. -/
theorem first_of_not_mem (other : c ∉ symbolStarts) :
    first position c rest =
      if isDecimalDigit c then numeral position c rest
      else if isWordStart c then word position c rest
      else .error (.unexpectedCharacter c position) := by
  simp only [symbolStarts, List.mem_cons, List.not_mem_nil, or_false, not_or] at other
  have noPunctuation : punctuation? c = none := by simp [punctuation?, other]
  have noOperator : operators? c = none := by simp [operators?, other]
  rw [first, noPunctuation, noOperator]
  simp [other]

theorem not_mem_symbolStarts {p : Char → Bool} (is : p c) (none : symbolStarts.all (!p ·)) :
    c ∉ symbolStarts := by
  intro mem
  have other := List.all_eq_true.1 none c mem
  rw [is] at other
  cases other

theorem first_of_isWordStart (start : isWordStart c) :
    first position c rest = word position c rest := by
  have other : c ∉ symbolStarts := not_mem_symbolStarts start (by decide +kernel)
  rw [first_of_not_mem other, isDecimalDigit_of_isWordStart start, start]
  rfl

theorem first_of_isDecimalDigit (digit : isDecimalDigit c) :
    first position c rest = numeral position c rest := by
  have other : c ∉ symbolStarts := not_mem_symbolStarts digit (by decide)
  rw [first_of_not_mem other, if_pos digit]

/-- A word that ends before the rest. -/
theorem word_of_breaks {cs : List Char} (breaks : Breaks rest) (all : cs.all isWordPart) :
    word position c (cs ++ rest) =
      .ok ⟨(Token.keyword? (c :: cs)).getD (.identifier (String.ofList (c :: cs))),
        cs.length + 1⟩ := by
  obtain ⟨taken, dropped⟩ := breaks.takeWhile_append all wordPart_breaks
  rw [word, taken, dropped]
  cases rest with
  | nil => rfl
  | cons d rest => rcases breaks with rfl | rfl | rfl | rfl <;> rfl

/-- A marker and a name that ends before the rest. -/
theorem word_of_marker {cs name : List Char} {token : Token} (breaks : Breaks rest)
    (marker : cs.all isWordPart) (is : isName name)
    (names : Token.reference? (c :: cs) (String.ofList name) = some token) :
    word position c (cs ++ ':' :: name ++ rest) = .ok ⟨token, (cs ++ ':' :: name).length + 1⟩ := by
  rw [isName, Bool.and_eq_true] at is
  -- the marker ends at the colon and the name before the rest
  have every : ∀ d ∈ cs, isWordPart d = true := List.all_eq_true.1 marker
  have colon : isWordPart ':' = false := rfl
  obtain ⟨taken, dropped⟩ := breaks.takeWhile_append is.2 wordPart_breaks
  rw [word, List.append_assoc, List.takeWhile_append_of_pos every,
    List.dropWhile_append_of_pos every, List.cons_append, List.takeWhile_cons,
    List.dropWhile_cons, colon]
  have nonempty : name.isEmpty = false := by simpa using is.1
  simp [taken, nonempty, names]
  omega

end Lexeme

namespace Scans

variable {rest : List Char} {ts : List Token}

/-- A bare word is scanned as a name. -/
theorem identifier {name : String} (h : Scans rest ts) (breaks : Breaks rest)
    (is : isBareWord name.toList) : Scans (name.toList ++ rest) (.identifier name :: ts) := by
  cases letters : name.toList with
  | nil => rw [letters] at is; cases is
  | cons c cs =>
    rw [letters, isBareWord, Bool.and_eq_true, Bool.and_eq_true] at is
    obtain ⟨⟨start, all⟩, noKeyword⟩ := is
    have named : String.ofList (c :: cs) = name := by rw [← letters, String.ofList_toList]
    refine h.lexeme cs (isBlank_of_isWordStart start) fun position => ?_
    rw [Lexeme.first_of_isWordStart start, Lexeme.word_of_breaks breaks all,
      Option.isNone_iff_eq_none.1 noKeyword, named]
    rfl

/-- A keyword. -/
theorem keyword (c : Char) (cs : List Char) {token : Token} (h : Scans rest ts)
    (breaks : Breaks rest) (start : isWordStart c) (all : cs.all isWordPart)
    (is : Token.keyword? (c :: cs) = some token) : Scans (c :: cs ++ rest) (token :: ts) := by
  refine h.lexeme cs (isBlank_of_isWordStart start) fun position => ?_
  rw [Lexeme.first_of_isWordStart start, Lexeme.word_of_breaks breaks all, is]
  rfl

/-- A name behind a marker. -/
theorem reference (c : Char) (cs : List Char) {name : String} {token : Token} (h : Scans rest ts)
    (breaks : Breaks rest) (start : isWordStart c) (marker : cs.all isWordPart)
    (is : isName name.toList) (names : Token.reference? (c :: cs) name = some token) :
    Scans (c :: cs ++ ':' :: name.toList ++ rest) (token :: ts) := by
  refine h.lexeme (cs ++ ':' :: name.toList) (isBlank_of_isWordStart start) fun position => ?_
  rw [Lexeme.first_of_isWordStart start]
  exact Lexeme.word_of_marker breaks marker is (by rw [String.ofList_toList]; exact names)

/-- A tracker is scanned from its spelling. -/
theorem tracker {ref : TrackerRef} (h : Scans rest ts) (breaks : Breaks rest)
    (is : isName ref.name.toList) : Scans (ref.spell ++ rest) (ref.token :: ts) := by
  obtain ⟨name, update⟩ := ref
  cases update with
  | false => exact h.reference 'T' ['R'] breaks rfl rfl is rfl
  | true => exact h.reference 'T' ['R', 'U'] breaks rfl rfl is rfl

end Scans

/-! ### Literals -/

/-- A text as it is written between quotes. -/
def escapedText (cs : List Char) : List Char :=
  cs.flatMap fun c => if c = '\\' ∨ c = '"' then ['\\', c] else [c]

/-- A text with its quotes. -/
def quotedText (cs : List Char) : List Char :=
  '"' :: escapedText cs ++ ['"']

theorem spellText_eq_quotedText {cs : List Char} (h : ¬ isBareWord cs) :
    spellText cs = quotedText cs := by
  rw [spellText, if_neg h]
  rfl

namespace Lexeme

variable {position : Nat} {rest : List Char}

theorem numeral_of_breaks {c : Char} {cs : List Char} {value : Word} (breaks : Breaks rest)
    (all : cs.all isDecimalDigit) (is : Word.ofDecimal? (c :: cs) = some value) :
    numeral position c (cs ++ rest) = .ok ⟨.number value, cs.length + 1⟩ := by
  -- no digit is the mark of a hexadecimal number
  have decimal : numeral position c (cs ++ rest) = number position c (cs ++ rest) := by
    cases cs with
    | nil =>
      cases rest with
      | nil => rfl
      | cons d rest => rcases breaks with rfl | rfl | rfl | rfl <;> simp [numeral]
    | cons d ds =>
      rw [List.all_cons, Bool.and_eq_true] at all
      have noMarker : d ≠ 'x' ∧ d ≠ 'X' := by
        constructor <;> rintro rfl <;> exact absurd all.1 (by decide)
      simp [numeral, noMarker]
  obtain ⟨taken, dropped⟩ := breaks.takeWhile_append all (by decide)
  rw [decimal, number, taken, dropped, breaks.head?_any (by decide +kernel)]
  simp [is]

theorem hex_of_breaks {digits : List Char} (breaks : Breaks rest) (all : digits.all isHexDigit) :
    hex position (digits ++ rest) =
      if digits.length = 40 then
        match Word.ofHex? digits with
        | some value => .ok ⟨.address value, digits.length + 2⟩
        | none => .error (.lexical .badHex position)
      else
        match Bytes.ofHex? digits with
        | some value => .ok ⟨.bytes value, digits.length + 2⟩
        | none => .error (.lexical .oddHex position) := by
  obtain ⟨taken, dropped⟩ := breaks.takeWhile_append all (by decide)
  rw [hex, taken, dropped, breaks.head?_any wordPart_breaks]
  rfl

theorem first_hex (more : List Char) : first position '0' ('x' :: more) = hex position more := rfl

theorem untilQuote_cons {c quote : Char} (cs : List Char) (other : c ≠ quote)
    (plain : c ≠ '\\') :
    untilQuote quote (c :: cs) =
      (untilQuote quote cs).map fun found => (c :: found.1, found.2 + 1) := by
  rw [untilQuote.eq_def]
  simp only [if_neg other, if_neg plain]

/-- What a text is written as between its quotes is read up to the quote. -/
theorem untilQuote_escapedText (cs rest : List Char) :
    untilQuote '"' (escapedText cs ++ '"' :: rest) =
      some (cs, (escapedText cs).length + 1) := by
  induction cs with
  | nil =>
    rw [untilQuote.eq_def]
    rfl
  | cons c cs ih =>
    have step : escapedText (c :: cs) =
        (if c = '\\' ∨ c = '"' then ['\\', c] else [c]) ++ escapedText cs := rfl
    rw [step]
    -- a backslash is written before backslashes and quotes, so that neither ends the text
    by_cases escaped : c = '\\' ∨ c = '"'
    · rw [if_pos escaped]
      simp [untilQuote, ih]
    · rw [if_neg escaped]
      rw [not_or] at escaped
      rw [List.singleton_append, List.cons_append, untilQuote_cons _ escaped.2 escaped.1, ih]
      rfl

end Lexeme

namespace Scans

variable {rest : List Char} {ts : List Token}

/-- Decimal digits, with zeros before them or not. -/
theorem decimal {digits : List Char} {value : Word} (h : Scans rest ts) (breaks : Breaks rest)
    (ne : digits ≠ []) (all : digits.all isDecimalDigit)
    (read : Word.ofDecimal? digits = some value) :
    Scans (digits ++ rest) (.number value :: ts) := by
  cases digits with
  | nil => exact absurd rfl ne
  | cons d ds =>
    rw [List.all_cons, Bool.and_eq_true] at all
    refine h.lexeme ds (isBlank_of_isDecimalDigit all.1) fun position => ?_
    rw [Lexeme.first_of_isDecimalDigit all.1, Lexeme.numeral_of_breaks breaks all.2 read]

/-- A number is scanned from its digits. -/
theorem number {value : Word} (h : Scans rest ts) (breaks : Breaks rest) :
    Scans (value.toDecimal ++ rest) (.number value :: ts) := by
  refine h.decimal breaks ?_ (Numeral.all_isDecimalDigit_write _) value.ofDecimal?_toDecimal
  obtain ⟨d, ds, written, -⟩ := Numeral.write_eq_cons value.toNat
  rw [Word.toDecimal, written]
  exact List.cons_ne_nil _ _

/-- Any number of hexadecimal digits but forty. -/
theorem hexBytes {digits : List Char} {value : Bytes} (h : Scans rest ts) (breaks : Breaks rest)
    (all : digits.all isHexDigit) (length : digits.length ≠ 40)
    (read : Bytes.ofHex? digits = some value) :
    Scans ('0' :: 'x' :: digits ++ rest) (.bytes value :: ts) := by
  refine h.lexeme ('x' :: digits) rfl fun position => ?_
  rw [List.cons_append, Lexeme.first_hex, Lexeme.hex_of_breaks breaks all, if_neg length, read]
  rfl

/-- Bytes are scanned from their digits, unless there are twenty of them. -/
theorem bytes {value : Bytes} (h : Scans rest ts) (breaks : Breaks rest)
    (length : value.length ≠ 20) : Scans (value.toHex ++ rest) (.bytes value :: ts) := by
  have digits := value.length_flatMap_hexPair
  exact h.hexBytes breaks value.all_isHexDigit_flatMap_hexPair (by omega)
    value.ofHex?_flatMap_hexPair

/-- Forty hexadecimal digits. -/
theorem hexAddress {digits : List Char} {value : Word} (h : Scans rest ts) (breaks : Breaks rest)
    (all : digits.all isHexDigit) (length : digits.length = 40)
    (read : Word.ofHex? digits = some value) :
    Scans ('0' :: 'x' :: digits ++ rest) (.address value :: ts) := by
  refine h.lexeme ('x' :: digits) rfl fun position => ?_
  rw [List.cons_append, Lexeme.first_hex, Lexeme.hex_of_breaks breaks all, if_pos length, read]
  rfl

/-- An address is scanned from its forty digits. -/
theorem address {value : Word} (h : Scans rest ts) (breaks : Breaks rest)
    (fits : value.toNat < 16 ^ 40) : Scans (value.toAddress ++ rest) (.address value :: ts) := by
  have digits : (value.addressBytes.flatMap Bytes.hexPair).length = 40 := by
    rw [Bytes.length_flatMap_hexPair, Word.addressBytes, Bytes.length_ofNat]
  exact h.hexAddress breaks value.addressBytes.all_isHexDigit_flatMap_hexPair digits
    (Word.ofHex?_addressBytes fits)

/-- A text is scanned from its quotation, whatever stands in it. -/
theorem text {value : String} (h : Scans rest ts) :
    Scans (quotedText value.toList ++ rest) (.text value :: ts) := by
  have opened : quotedText value.toList ++ rest =
      '"' :: (escapedText value.toList ++ ['"']) ++ rest := rfl
  rw [opened]
  refine h.lexeme (escapedText value.toList ++ ['"']) rfl fun position => ?_
  have run : ∀ more, Lexeme.first position '"' more = Lexeme.text position '"' more := fun _ => rfl
  rw [run, Lexeme.text, List.append_assoc, List.singleton_append, Lexeme.untilQuote_escapedText]
  simp

/-! ### Operators -/

/-- The operators of one character that may be followed by `=`. -/
theorem symbol (c : Char) {alone withEqual : BinaryOp} (h : Scans rest ts)
    (notBlank : isBlank c = false) (other : Lexeme.punctuation? c = none)
    (is : Lexeme.operators? c = some (alone, withEqual)) :
    (Breaks rest → Scans (c :: rest) (.operator alone :: ts)) ∧
      Scans (c :: '=' :: rest) (.operator withEqual :: ts) := by
  constructor
  · intro breaks
    refine h.lexeme [] notBlank fun position => ?_
    -- no breaking character is an equals sign
    have noEqual : rest.head? ≠ some '=' := by
      cases rest with
      | nil => simp
      | cons d rest => rcases breaks with rfl | rfl | rfl | rfl <;> simp
    rw [List.nil_append, Lexeme.first, other, is]
    simp [noEqual]
  · refine h.lexeme ['='] notBlank fun position => ?_
    rw [List.singleton_append, Lexeme.first, other, is]
    rfl

theorem notEqual (h : Scans rest ts) :
    Scans ('!' :: '=' :: rest) (.operator (.plain .notEqual) :: ts) := by
  refine h.lexeme ['='] rfl fun position => ?_
  rfl

/-- An operator is scanned from its symbol. -/
theorem operator (op : BinaryOp) (h : Scans rest ts) (breaks : Breaks rest) :
    Scans (op.symbol.toList ++ rest) (.operator op :: ts) := by
  have plus := h.symbol '+' rfl rfl rfl
  have minus := h.symbol '-' rfl rfl rfl
  have times := h.symbol '*' rfl rfl rfl
  have divided := h.symbol '/' rfl rfl rfl
  have less := h.symbol '<' rfl rfl rfl
  have greater := h.symbol '>' rfl rfl rfl
  have equal := h.symbol '=' rfl rfl rfl
  match op with
  | .plain (.arith .add) => exact plus.1 breaks
  | .plain (.arith .subtract) => exact minus.1 breaks
  | .plain (.arith .multiply) => exact times.1 breaks
  | .plain (.arith .divide) => exact divided.1 breaks
  | .plain .less => exact less.1 breaks
  | .plain .lessEqual => exact less.2
  | .plain .greater => exact greater.1 breaks
  | .plain .greaterEqual => exact greater.2
  | .plain .equal => exact equal.2
  | .plain .notEqual => exact h.notEqual
  | .plain .and => exact h.keyword 'A' ['N', 'D'] breaks rfl rfl rfl
  | .plain .or => exact h.keyword 'O' ['R'] breaks rfl rfl rfl
  | .plain .assign => exact equal.1 breaks
  | .compound .add => exact plus.2
  | .compound .subtract => exact minus.2
  | .compound .multiply => exact times.2
  | .compound .divide => exact divided.2

end Scans

/-! ### Phrases -/

/-- The text of a leaf.  A text stands between quotes even where it could stand bare. -/
def Leaf.spell : Leaf → List Char
  | number value => value.toDecimal
  | address value => value.toAddress
  | bytes value => value.toHex
  | text value => quotedText value.toList
  | boolean true => ['t', 'r', 'u', 'e']
  | boolean false => ['f', 'a', 'l', 's', 'e']
  | identifier name => name.toList
  | global which => ['G', 'V', ':'] ++ which.name.toList

mutual

/-- The text of a primary phrase. -/
def Primary.spell : Primary → List Char
  | .leaf l => l.spell
  | .tracker ref => ref.spell
  | .keyed ref key => ref.spell ++ '(' :: key.spell ++ [')']
  | .call name => ['F', 'C', ':'] ++ name.toList
  | .callWith name arguments =>
    ['F', 'C', ':'] ++ name.toList ++ '(' :: arguments.spell ++ [')']
  | .paren inner => ['(', ' '] ++ inner.spell ++ [' ', ')']
  | .piped key ref => key.spell ++ [' ', '|', ' '] ++ ref.spell

/-- The text between the parentheses of a foreign call. -/
def Arguments.spell : Arguments → List Char
  | .none => []
  | .last argument => argument.spell
  | .more argument rest => argument.spell ++ ',' :: ' ' :: rest.spell

/-- The text of a phrase. -/
def Phrase.spell : Phrase → List Char
  | .primary p => p.spell
  | .not operand => ['N', 'O', 'T', ' '] ++ operand.spell
  | .binary op left right => left.spell ++ ' ' :: op.symbol.toList ++ ' ' :: right.spell

end

/-- A leaf is scanned from its spelling. -/
theorem Leaf.scans_spell {l : Leaf} {rest : List Char} {ts : List Token}
    (lexical : l.token.Lexical) (breaks : Breaks rest) (h : Scans rest ts) :
    Scans (l.spell ++ rest) (l.token :: ts) := by
  cases l with
  | number value => exact h.number breaks
  | address value => exact h.address breaks lexical
  | bytes value => exact h.bytes breaks lexical
  | text value => exact h.text
  | boolean value =>
    cases value with
    | true => exact h.keyword 't' ['r', 'u', 'e'] breaks rfl rfl rfl
    | false => exact h.keyword 'f' ['a', 'l', 's', 'e'] breaks rfl rfl rfl
  | identifier name => exact h.identifier breaks lexical
  | global which => exact h.reference 'G' ['V'] breaks rfl rfl lexical rfl

mutual

/-- The tokens of a primary are scanned from its spelling. -/
theorem Primary.scans_spell (p : Primary) {rest : List Char} {ts : List Token}
    (lexical : ∀ k ∈ p.yield, k.Lexical) (breaks : Breaks rest) (h : Scans rest ts) :
    Scans (p.spell ++ rest) (p.yield ++ ts) := by
  match p with
  | .leaf l => exact l.scans_spell (lexical _ List.mem_cons_self) breaks h
  | .tracker ref =>
    exact h.tracker breaks (TrackerRef.lexical_token_iff.1 (lexical _ List.mem_cons_self))
  | .keyed ref key =>
    obtain ⟨here, lexicalKey⟩ := Primary.forall_yield_keyed lexical
    have inKey := key.scans_spell lexicalKey (.rightParen _) h.rightParen
    have all := inKey.leftParen.tracker (.leftParen _) (TrackerRef.lexical_token_iff.1 here)
    simpa [Primary.spell, Primary.yield] using all
  | .call name => exact h.reference 'F' ['C'] breaks rfl rfl (lexical _ List.mem_cons_self) rfl
  | .callWith name arguments =>
    obtain ⟨here, lexicalArguments⟩ := Primary.forall_yield_callWith lexical
    have inside := arguments.scans_spell lexicalArguments h.rightParen
    have all := inside.leftParen.reference 'F' ['C'] (.leftParen _) rfl rfl here rfl
    simpa [Primary.spell, Primary.yield] using all
  | .paren inner =>
    -- a blank stands on either side of what is in parentheses
    have inside := inner.scans_spell (Primary.forall_yield_paren lexical) (.blank _)
      h.rightParen.blank
    simpa [Primary.spell, Primary.yield] using inside.blank.leftParen
  | .piped key ref =>
    obtain ⟨lexicalKey, here⟩ := Primary.forall_yield_piped lexical
    have behind := (h.tracker breaks (TrackerRef.lexical_token_iff.1 here)).blank.pipe.blank
    have all := key.scans_spell lexicalKey (.blank _) behind
    simpa [Primary.spell, Primary.yield] using all

/-- Arguments come before a closing parenthesis. -/
theorem Arguments.scans_spell (a : Arguments) {rest : List Char} {ts : List Token}
    (lexical : ∀ k ∈ a.yield, k.Lexical) (h : Scans (')' :: rest) ts) :
    Scans (a.spell ++ ')' :: rest) (a.yield ++ ts) := by
  match a with
  | .none => exact h
  | .last argument => exact argument.scans_spell lexical (.rightParen _) h
  | .more argument others =>
    obtain ⟨lexicalArgument, lexicalOthers⟩ := Arguments.forall_yield_more lexical
    have inOthers := others.scans_spell lexicalOthers h
    have all := argument.scans_spell lexicalArgument (.comma _) inOthers.blank.comma
    simpa [Arguments.spell, Arguments.yield] using all

/-- The text of a phrase is scanned as its tokens. -/
theorem Phrase.scans_spell (t : Phrase) {rest : List Char} {ts : List Token}
    (lexical : ∀ k ∈ t.yield, k.Lexical) (breaks : Breaks rest) (h : Scans rest ts) :
    Scans (t.spell ++ rest) (t.yield ++ ts) := by
  match t with
  | .primary p => exact p.scans_spell lexical breaks h
  | .not operand =>
    have inOperand := operand.scans_spell (Phrase.forall_yield_not lexical) breaks h
    exact inOperand.blank.keyword 'N' ['O', 'T'] (.blank _) rfl rfl rfl
  | .binary op left right =>
    obtain ⟨lexicalLeft, -, lexicalRight⟩ := Phrase.forall_yield_binary lexical
    have inRight := right.scans_spell lexicalRight breaks h
    have behind := (inRight.blank.operator op (.blank _)).blank
    have all := left.scans_spell lexicalLeft (.blank _) behind
    simpa [Phrase.spell, Phrase.yield] using all

end

end RuleCodec
