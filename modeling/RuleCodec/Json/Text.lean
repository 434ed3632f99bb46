/-
RuleCodec/Json/Text.lean

Reading JSON text.

The entries of an object are sorted by their keys, and of several entries under one key the last
one counts.  So a record reads the same in whatever order its parts are written.

Design.  The text is first read as marks, words and quoted texts; blanks between them fall away.
Readers then take these pieces off a list.
-/
import RuleCodec.Parsed
import RuleCodec.Json
import RuleCodec.Text.Escape

namespace RuleCodec.Json

open Text

/-! ### Pieces -/

/-- One piece of a text. -/
inductive Piece
  | mark (c : Char)
  | word (cs : List Char)
  | text (cs : List Char)
  deriving DecidableEq, Repr

/-- A blank between two pieces. -/
def isSpace (c : Char) : Bool :=
  c == ' ' || c == '\t' || c == '\n' || c == '\r'

/-- A character that may stand in a word: a name or a number. -/
def isWordChar (c : Char) : Bool :=
  c.isAlphanum || c == '+' || c == '-' || c == '.'

/-- The code point of a pair of surrogates. -/
def surrogates? (high low : Nat) : Option Char :=
  if 0xD800 ≤ high ∧ high < 0xDC00 ∧ 0xDC00 ≤ low ∧ low < 0xE000 then
    charOfCode? (0x10000 + (high - 0xD800) * 0x400 + (low - 0xDC00))
  else none

/-- The number of four hexadecimal digits behind a `u`. -/
def unit? : List Char → Option Nat
  | 'u' :: rest => if rest.length < 4 then none else Numeral.read? 16 (rest.take 4)
  | _ => none

/-- The character that stands behind a backslash, and how many characters it takes. -/
def escaped? : List Char → Option (Char × Nat)
  | '/' :: _ => some ('/', 1)
  | 'u' :: rest =>
    match unit? ('u' :: rest) with
    | none => none
    | some first =>
      match charOfCode? first, rest.drop 4 with
      | some c, _ => some (c, 5)
      | none, '\\' :: second => ((unit? second).bind (surrogates? first)).map (·, 11)
      | none, _ => none
  | c :: _ => (escape? c).map (·, 1)
  | [] => none

/-- The text up to a double quote, and how many characters it takes with the quote. -/
def text? : List Char → Option (List Char × Nat)
  | [] => none
  | c :: rest =>
    if c = '"' then some ([], 1)
    else if c = '\\' then
      match escaped? rest with
      | none => none
      | some (char, size) =>
        (text? (rest.drop size)).map fun found => (char :: found.1, found.2 + size + 1)
    else if c.toNat < 0x20 then none
    else (text? rest).map fun found => (c :: found.1, found.2 + 1)
termination_by cs => cs.length
decreasing_by all_goals simp only [List.length_drop, List.length_cons]; omega

/-- The first piece of a text that does not begin with a blank, and how many characters it takes. -/
def firstPiece? (c : Char) (rest : List Char) : Option (Piece × Nat) :=
  if c = '"' then (text? rest).map fun found => (.text found.1, found.2 + 1)
  else if isWordChar c then
    let word := c :: rest.takeWhile isWordChar
    some (.word word, word.length)
  else if [',', ':', '[', ']', '\x7b', '\x7d'].contains c then some (.mark c, 1)
  else none

/-- The pieces of a text. -/
def pieces? : List Char → Option (List Piece)
  | [] => some []
  | c :: rest =>
    if isSpace c then pieces? rest
    else
      match firstPiece? c rest with
      | none => none
      | some (piece, size) => (pieces? (rest.drop (size - 1))).map (piece :: ·)
termination_by cs => cs.length
decreasing_by all_goals simp only [List.length_drop, List.length_cons]; omega

/-! ### Words -/

/-- An exponent: nothing, or an `e` with digits that may have a sign. -/
def exponent? : List Char → Option Int
  | [] => some 0
  | e :: rest =>
    if e = 'e' ∨ e = 'E' then
      match rest with
      | [] => none
      | ['+'] => none
      | ['-'] => none
      | '+' :: digits => (Numeral.read? 10 digits).map Int.ofNat
      | '-' :: digits => (Numeral.read? 10 digits).map fun n => -Int.ofNat n
      | digits => (Numeral.read? 10 digits).map Int.ofNat
    else none

/-- The number that a word without a sign stands for, given what a sign does to it.  Zero with a
minus is no integer. -/
def unsigned? (negative : Bool) (cs : List Char) : Option Json :=
  let whole := cs.takeWhile Char.isDigit
  let signed (n : Nat) : Int := if negative then -Int.ofNat n else n
  if whole.isEmpty || (whole.head? == some '0' && decide (1 < whole.length)) then none
  else
    match cs.drop whole.length with
    | [] =>
      (Numeral.read? 10 whole).map fun n =>
        if negative ∧ n = 0 then .decimal 0 0 else .integer (signed n)
    | '.' :: rest =>
      let fraction := rest.takeWhile Char.isDigit
      if fraction.isEmpty then none
      else
        match Numeral.read? 10 (whole ++ fraction), exponent? (rest.drop fraction.length) with
        | some n, some exponent => some (.decimal (signed n) (exponent - fraction.length))
        | _, _ => none
    | rest =>
      match Numeral.read? 10 whole, exponent? rest with
      | some n, some exponent => some (.decimal (signed n) exponent)
      | _, _ => none

/-- The value of a word. -/
def ofWord? (cs : List Char) : Option Json :=
  if cs = "null".toList then some .null
  else if cs = "true".toList then some (.bool true)
  else if cs = "false".toList then some (.bool false)
  else
    match cs with
    | '-' :: cs => unsigned? true cs
    | cs => unsigned? false cs

/-! ### Values -/

/-- Sets an entry of an object, whose entries are sorted by their keys. -/
def put (key : String) (value : Json) : List (String × Json) → List (String × Json)
  | [] => [(key, value)]
  | entry :: rest =>
    if key = entry.1 then (key, value) :: rest
    else if key < entry.1 then (key, value) :: entry :: rest
    else entry :: put key value rest

/-- Reads a key and the colon behind it. -/
def key? : (ps : List Piece) → Option (Parsed Piece String ps.length)
  | .text cs :: .mark ':' :: rest =>
    some ⟨String.ofList cs, rest, by simp only [List.length_cons]; omega⟩
  | _ => none

/-- Reads what stands behind a part of an array or an object: a comma, after which there is another
part, or the closing mark. -/
def separator? (close : Char) : (ps : List Piece) → Option (Parsed Piece Bool ps.length)
  | .mark c :: rest =>
    if c = ',' then some ⟨true, rest, by simp⟩
    else if c = close then some ⟨false, rest, by simp⟩
    else none
  | _ => none

mutual

/-- Reads a value. -/
def value? (ps : List Piece) : Option (Parsed Piece Json ps.length) :=
  match ps with
  | .text cs :: rest => some ⟨.string (String.ofList cs), rest, by simp⟩
  | .word cs :: rest => (ofWord? cs).map fun value => ⟨value, rest, by simp⟩
  | .mark '[' :: .mark ']' :: rest =>
    some ⟨.array [], rest, by simp only [List.length_cons]; omega⟩
  | .mark '[' :: rest =>
    match items? rest with
    | none => none
    | some all =>
      some ⟨.array all.value, all.rest, by
        have := all.short; simp only [List.length_cons]; omega⟩
  | .mark '\x7b' :: .mark '\x7d' :: rest =>
    some ⟨.object [], rest, by simp only [List.length_cons]; omega⟩
  | .mark '\x7b' :: rest =>
    match members? [] rest with
    | none => none
    | some all =>
      some ⟨.object all.value, all.rest, by
        have := all.short; simp only [List.length_cons]; omega⟩
  | _ => none
termination_by 2 * ps.length
decreasing_by all_goals simp only [List.length_cons]; omega

/-- Reads the items of an array, up to and with the closing bracket. -/
def items? (ps : List Piece) : Option (Parsed Piece (List Json) ps.length) :=
  match value? ps with
  | none => none
  | some item =>
    match separator? ']' item.rest with
    | none => none
    | some behind =>
      if behind.value then
        match items? behind.rest with
        | none => none
        | some all =>
          some ⟨item.value :: all.value, all.rest, by
            have := item.short
            have := behind.short
            have := all.short
            omega⟩
      else
        some ⟨[item.value], behind.rest, by
          have := item.short
          have := behind.short
          omega⟩
termination_by 2 * ps.length + 1
decreasing_by
  · omega
  · have := item.short
    have := behind.short
    omega

/-- Reads the keys and values of an object, up to and with the closing brace. -/
def members? (entries : List (String × Json)) (ps : List Piece) :
    Option (Parsed Piece (List (String × Json)) ps.length) :=
  match key? ps with
  | none => none
  | some key =>
    match value? key.rest with
    | none => none
    | some value =>
      match separator? '\x7d' value.rest with
      | none => none
      | some behind =>
        if behind.value then
          match members? (put key.value value.value entries) behind.rest with
          | none => none
          | some all =>
            some ⟨all.value, all.rest, by
              have := key.short
              have := value.short
              have := behind.short
              have := all.short
              omega⟩
        else
          some ⟨put key.value value.value entries, behind.rest, by
            have := key.short
            have := value.short
            have := behind.short
            omega⟩
termination_by 2 * ps.length + 1
decreasing_by
  · have := key.short
    omega
  · have := key.short
    have := value.short
    have := behind.short
    omega

end

/-- The value that a text stands for; none if it is no JSON. -/
def parse? (source : String) : Option Json :=
  match pieces? source.toList with
  | none => none
  | some ps =>
    match value? ps with
    | none => none
    | some all => if all.rest.isEmpty then some all.value else none

end RuleCodec.Json
