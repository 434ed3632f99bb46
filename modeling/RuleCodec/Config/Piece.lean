/-
RuleCodec/Config/Piece.lean

The text of a configuration as marks, words, quoted texts and line ends.

Blanks and comments fall away.  A text is quoted with one quote, and then ends on its line, or with
three, and then may go on over several lines.  Between double quotes a backslash begins an escape;
between single quotes every character stands for itself.  A control character may stand nowhere,
apart from the tab and from the line ends.
-/
import RuleCodec.Text.Escape
import RuleCodec.Text.Split

namespace RuleCodec.Config

open Text

/-- One piece of a text. -/
inductive Piece
  | mark (c : Char)
  | word (cs : List Char)
  /-- A text on one line. -/
  | text (cs : List Char)
  /-- A text that may go on over several lines. -/
  | block (cs : List Char)
  | newline
  deriving DecidableEq, Repr

/-! ### Characters -/

/-- A character that may stand in a bare key. -/
def isKeyChar (c : Char) : Bool :=
  c.isAlphanum || c == '_' || c == '-'

/-- A character that may stand in a word: a bare key or an integer. -/
def isWordChar (c : Char) : Bool :=
  isKeyChar c || c == '+'

/-- A blank within a line. -/
def isSpace (c : Char) : Bool :=
  c == ' ' || c == '\t'

/-- A control character other than the tab. -/
def isControl (c : Char) : Bool :=
  (decide (c.toNat < 0x20) && c != '\t') || c.toNat == 0x7F

/-- How many characters the line end takes that a text begins with; zero if there is none.  A
carriage return belongs to the line feed behind it. -/
def lineEnd : List Char → Nat
  | '\n' :: _ => 1
  | '\r' :: '\n' :: _ => 2
  | _ => 0

/-! ### Quoted texts -/

/-- How a text is quoted. -/
structure Quoting where
  quote : Char
  /-- Whether a backslash begins an escape. -/
  escapes : Bool
  /-- Whether three quotes stand at each end, and line ends may stand between them. -/
  block : Bool
  deriving DecidableEq, Repr

/-- How the text is quoted that begins with a character, and how many characters come before its
own.  A line end right behind three quotes is none of its own. -/
def Quoting.ofStart? (c : Char) (rest : List Char) : Option (Quoting × Nat) :=
  if c = '"' ∨ c = '\'' then
    if rest.take 2 = [c, c] then some (⟨c, c == '"', true⟩, lineEnd (rest.drop 2) + 3)
    else some (⟨c, c == '"', false⟩, 1)
  else none

/-- How many quotes still belong to the text, where it ends here.  Of more than three quotes up to
two do. -/
def Quoting.ending? (q : Quoting) (cs : List Char) : Option Nat :=
  let quotes := (cs.takeWhile (· == q.quote)).length
  if q.block then
    if 3 ≤ quotes then some (min 2 (quotes - 3)) else none
  else if 1 ≤ quotes then some 0
  else none

/-- How many blanks and line ends a text begins with. -/
def blankLines : List Char → Nat
  | '\r' :: '\n' :: rest => blankLines rest + 2
  | c :: rest => if isSpace c ∨ c = '\n' then blankLines rest + 1 else 0
  | [] => 0

/-- How many characters are passed over behind a backslash at the end of a line: the line end, with
all blanks and line ends around it; zero if the line goes on. -/
def foldSize (cs : List Char) : Nat :=
  if lineEnd (cs.dropWhile isSpace) = 0 then 0 else blankLines cs

/-- The character that stands behind a backslash, and how many characters it takes. -/
def escaped? : List Char → Option (Char × Nat)
  | 'u' :: rest => if rest.length < 4 then none else (charOfHex? (rest.take 4)).map (·, 5)
  | 'U' :: rest => if rest.length < 8 then none else (charOfHex? (rest.take 8)).map (·, 9)
  | c :: _ => (escape? c).map (·, 1)
  | [] => none

/-- The text up to its end, and how many characters it takes with the quotes there. -/
def Quoting.text? (q : Quoting) : List Char → Option (List Char × Nat)
  | [] => none
  | c :: rest =>
    match q.ending? (c :: rest) with
    | some own => some (List.replicate own q.quote, own + if q.block then 3 else 1)
    | none =>
      if q.escapes ∧ c = '\\' then
        if q.block ∧ foldSize rest ≠ 0 then
          (q.text? (rest.drop (foldSize rest))).map fun found =>
            (found.1, found.2 + foldSize rest + 1)
        else
          match escaped? rest with
          | none => none
          | some (char, size) =>
            (q.text? (rest.drop size)).map fun found => (char :: found.1, found.2 + size + 1)
      else if q.block ∧ lineEnd (c :: rest) ≠ 0 then
        let size := lineEnd (c :: rest) - 1
        (q.text? (rest.drop size)).map fun found => ('\n' :: found.1, found.2 + size + 1)
      else if isControl c then none
      else (q.text? rest).map fun found => (c :: found.1, found.2 + 1)
termination_by cs => cs.length
decreasing_by all_goals simp only [List.length_drop, List.length_cons]; omega

/-! ### All pieces -/

/-- The first piece of a text that begins with neither a blank nor a comment, and how many
characters it takes. -/
def firstPiece? (c : Char) (rest : List Char) : Option (Piece × Nat) :=
  match Quoting.ofStart? c rest with
  | some (q, size) =>
    (q.text? (rest.drop (size - 1))).map fun found =>
      (if q.block then .block found.1 else .text found.1, found.2 + size)
  | none =>
    if lineEnd (c :: rest) ≠ 0 then some (.newline, lineEnd (c :: rest))
    else if isWordChar c then
      let word := c :: rest.takeWhile isWordChar
      some (.word word, word.length)
    else if ['=', '.', ',', '[', ']', '\x7b', '\x7d'].contains c then some (.mark c, 1)
    else none

/-- The pieces of a text. -/
def pieces? : List Char → Option (List Piece)
  | [] => some []
  | c :: rest =>
    if isSpace c then pieces? rest
    else if c = '#' then pieces? (rest.dropWhile fun c => !isControl c)
    else
      match firstPiece? c rest with
      | none => none
      | some (piece, size) => (pieces? (rest.drop (size - 1))).map (piece :: ·)
termination_by cs => cs.length
decreasing_by
  · simp
  · have := length_dropWhile_le (fun c => !isControl c) rest
    simp only [List.length_cons]; omega
  · simp only [List.length_drop, List.length_cons]; omega

end RuleCodec.Config
