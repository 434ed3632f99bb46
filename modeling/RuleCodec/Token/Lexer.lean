/-
RuleCodec/Token/Lexer.lean

Reading a rule as tokens.

Design.  `Lexeme.first` reads one token from a character that is not blank and says how many
characters it takes.  `Token.scan` repeats it; since every lexeme takes at least the character it
starts on, what is left is shorter and the recursion needs no bound of its own.  The last token is
the end of the input, at the number of characters.
-/
import RuleCodec.Error
import RuleCodec.Text.CharClass

namespace RuleCodec

open Text

/-- A token and the number of characters it takes. -/
structure Lexeme where
  token : Token
  size : Nat
  deriving DecidableEq, Repr

/-! ### Words -/

/-- The words that are not names. -/
def Token.keyword? (word : List Char) : Option Token :=
  if word = ['A', 'N', 'D'] then some (.operator (.plain .and))
  else if word = ['O', 'R'] then some (.operator (.plain .or))
  else if word = ['N', 'O', 'T'] then some .not
  else if word = ['t', 'r', 'u', 'e'] then some (.boolean true)
  else if word = ['f', 'a', 'l', 's', 'e'] then some (.boolean false)
  else none

/-- Whether a text, written without quotes, reads as one name. -/
def isBareWord : List Char → Bool
  | [] => false
  | c :: cs => isWordStart c && cs.all isWordPart && (Token.keyword? (c :: cs)).isNone

/-- The reference behind a marker such as `TR`. -/
def Token.reference? (marker : List Char) (name : String) : Option Token :=
  if marker = ['T', 'R'] then some (.trackerRead name)
  else if marker = ['T', 'R', 'U'] then some (.trackerUpdate name)
  else if marker = ['F', 'C'] then some (.foreignCall name)
  else if marker = ['G', 'V'] then some (.globalVariable name)
  else none

namespace Lexeme

/-- A word, or a word and `:` and a name, from the word's first character on. -/
def word (position : Nat) (c : Char) (rest : List Char) : Except Error Lexeme :=
  let word := c :: rest.takeWhile isWordPart
  match rest.dropWhile isWordPart with
  | ':' :: more =>
    let name := more.takeWhile isWordPart
    if name.isEmpty then .error (.lexical (.missingName (String.ofList word)) position)
    else
      match Token.reference? word (String.ofList name) with
      | some token => .ok ⟨token, word.length + 1 + name.length⟩
      | none => .error (.lexical (.unknownReference (String.ofList word)) position)
  | _ =>
    let token := (Token.keyword? word).getD (.identifier (String.ofList word))
    .ok ⟨token, word.length⟩

/-! ### Literals -/

/-- The text up to a closing quote, and the number of characters up to and with that quote.  A
backslash takes the character after it as it is. -/
def untilQuote (quote : Char) : List Char → Option (List Char × Nat)
  | [] => none
  | c :: cs =>
    if c = quote then some ([], 1)
    else if c = '\\' then
      match cs with
      | [] => none
      | escaped :: after =>
        (untilQuote quote after).map fun found => (escaped :: found.1, found.2 + 2)
    else (untilQuote quote cs).map fun found => (c :: found.1, found.2 + 1)

/-- A text literal, from the character after its opening quote on. -/
def text (position : Nat) (quote : Char) (rest : List Char) : Except Error Lexeme :=
  match untilQuote quote rest with
  | some found => .ok ⟨.text (String.ofList found.1), found.2 + 1⟩
  | none => .error (.unterminatedText position)

/-- A hexadecimal literal, from the character after its `0x` on.  Twenty bytes are an address. -/
def hex (position : Nat) (rest : List Char) : Except Error Lexeme :=
  let digits := rest.takeWhile isHexDigit
  if (rest.dropWhile isHexDigit).head?.any isWordPart then .error (.lexical .badHex position)
  else if digits.length = 40 then
    match Word.ofHex? digits with
    | some value => .ok ⟨.address value, digits.length + 2⟩
    | none => .error (.lexical .badHex position)
  else
    match Bytes.ofHex? digits with
    | some value => .ok ⟨.bytes value, digits.length + 2⟩
    | none => .error (.lexical .oddHex position)

/-- A decimal literal, from its first digit on. -/
def number (position : Nat) (c : Char) (rest : List Char) : Except Error Lexeme :=
  let digits := c :: rest.takeWhile isDecimalDigit
  if (rest.dropWhile isDecimalDigit).head?.any isWordStart then
    .error (.lexical (.badNumber (String.ofList digits)) position)
  else
    match Word.ofDecimal? digits with
    | some value => .ok ⟨.number value, digits.length⟩
    | none => .error (.lexical (.numberTooLarge (String.ofList digits)) position)

/-- A literal that begins with a digit. -/
def numeral (position : Nat) (c : Char) (rest : List Char) : Except Error Lexeme :=
  match rest with
  | x :: more => if c = '0' ∧ (x = 'x' ∨ x = 'X') then hex position more else number position c rest
  | [] => number position c rest

/-! ### Symbols -/

/-- The symbols of one character. -/
def punctuation? (c : Char) : Option Token :=
  if c = '(' then some .leftParen
  else if c = ')' then some .rightParen
  else if c = ',' then some .comma
  else if c = '|' then some .pipe
  else none

/-- The operators that begin with a character: alone, and followed by `=`. -/
def operators? (c : Char) : Option (BinaryOp × BinaryOp) :=
  if c = '+' then some (.plain (.arith .add), .compound .add)
  else if c = '-' then some (.plain (.arith .subtract), .compound .subtract)
  else if c = '*' then some (.plain (.arith .multiply), .compound .multiply)
  else if c = '/' then some (.plain (.arith .divide), .compound .divide)
  else if c = '<' then some (.plain .less, .plain .lessEqual)
  else if c = '>' then some (.plain .greater, .plain .greaterEqual)
  else if c = '=' then some (.plain .assign, .plain .equal)
  else none

/-- The token that begins with a character that is not blank. -/
def first (position : Nat) (c : Char) (rest : List Char) : Except Error Lexeme :=
  match punctuation? c with
  | some token => .ok ⟨token, 1⟩
  | none =>
    match operators? c with
    | some (alone, withEqual) =>
      if rest.head? = some '=' then .ok ⟨.operator withEqual, 2⟩ else .ok ⟨.operator alone, 1⟩
    | none =>
      if c = '!' ∧ rest.head? = some '=' then .ok ⟨.operator (.plain .notEqual), 2⟩
      else if c = '"' ∨ c = '\'' then text position c rest
      else if isDecimalDigit c then numeral position c rest
      else if isWordStart c then word position c rest
      else .error (.unexpectedCharacter c position)

end Lexeme

/-! ### The whole text -/

/-- The tokens of a text that begins at a position. -/
def Token.scanFrom (position : Nat) : List Char → Except Error (List Located)
  | [] => .ok [⟨.endOfInput, position⟩]
  | c :: cs =>
    if isBlank c then Token.scanFrom (position + 1) cs
    else
      match Lexeme.first position c cs with
      | .error e => .error e
      | .ok lexeme =>
        match Token.scanFrom (position + lexeme.size) (cs.drop (lexeme.size - 1)) with
        | .error e => .error e
        | .ok rest => .ok (⟨lexeme.token, position⟩ :: rest)
termination_by cs => cs.length
decreasing_by
  · simp
  · simp only [List.length_drop, List.length_cons]; omega

/-- The tokens of a text, the last of them the end of the input. -/
def Token.scan (source : String) : Except Error (List Located) :=
  Token.scanFrom 0 source.toList

end RuleCodec
