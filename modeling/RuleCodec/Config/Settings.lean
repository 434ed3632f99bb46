/-
RuleCodec/Config/Settings.lean

The settings of a configuration: the part of TOML that a configuration needs.

A line is blank, or opens a section, or gives a key its value.  A value is a text, an integer of
64 bits, an empty list, or a section in braces.  No other kind of value has a place in a
configuration, so none is read.

Design.  The text is first read as marks, words, quoted texts and line ends.  Every line then adds
one statement to a tree of settings, which refuses a key or a section that is given twice.  Between
the brackets of a list the line ends count for nothing.
-/
import RuleCodec.Parsed
import RuleCodec.Config.Piece

namespace RuleCodec.Config

open Text

/-! ### Values -/

/-- The value of a setting. -/
inductive Setting
  | text (value : String)
  | integer (value : Int)
  | emptyList
  | section (entries : List (String × Setting))

/-- Digits of a base, with single underscores between them. -/
def digits? (base : Nat) (cs : List Char) : Option Nat :=
  let fields := splitOn '_' cs
  if fields.any List.isEmpty then none else Numeral.read? base fields.flatten

/-- A decimal number without a leading zero. -/
def decimal? (cs : List Char) : Option Nat :=
  match cs with
  | '0' :: _ :: _ => none
  | _ => digits? 10 cs

/-- An integer of 64 bits: decimal with an optional sign, or behind `0x`, `0o` or `0b`. -/
def integer? (cs : List Char) : Option Int :=
  let value :=
    match cs with
    | '0' :: 'x' :: digits => (digits? 16 digits).map Int.ofNat
    | '0' :: 'o' :: digits => (digits? 8 digits).map Int.ofNat
    | '0' :: 'b' :: digits => (digits? 2 digits).map Int.ofNat
    | '-' :: digits => (decimal? digits).map fun n => -Int.ofNat n
    | '+' :: digits => (decimal? digits).map Int.ofNat
    | digits => (decimal? digits).map Int.ofNat
  value.filter fun n => decide (Int64.minValue.toInt ≤ n) && decide (n ≤ Int64.maxValue.toInt)

/-- A key: a bare word or a quoted text. -/
def key? : Piece → Option String
  | .word cs => if cs.all isKeyChar then some (String.ofList cs) else none
  | .text cs => some (String.ofList cs)
  | _ => none

/-- Reads a key, or several with points between them. -/
def path? : (ps : List Piece) → Option (Parsed Piece (List String) ps.length)
  | [] => none
  | piece :: rest =>
    match key? piece with
    | none => none
    | some key =>
      match rest with
      | .mark '.' :: more =>
        match path? more with
        | none => none
        | some below =>
          some ⟨key :: below.value, below.rest, by
            have := below.short; simp only [List.length_cons]; omega⟩
      | rest => some ⟨[key], rest, by simp⟩

/-! ### The tree of settings -/

/-- How a section came to be. -/
inductive Opening
  | header
  | implied
  | dotted
  | closed
  deriving DecidableEq, Repr

/-- A tree of settings that is still being filled. -/
inductive Tree
  | leaf (value : Setting)
  | branch (opening : Opening) (entries : List (String × Tree))

/-- The tree below a key. -/
def Tree.at? (entries : List (String × Tree)) (key : String) : Option Tree :=
  (entries.find? fun entry => entry.1 == key).map Prod.snd

/-- The entries with a tree set below a key. -/
def Tree.put (entries : List (String × Tree)) (key : String) (tree : Tree) :
    List (String × Tree) :=
  if entries.any fun entry => entry.1 == key then
    entries.map fun entry => if entry.1 == key then (key, tree) else entry
  else entries ++ [(key, tree)]

/-- Opens the section at a path. -/
def Tree.open? : (path : List String) → List (String × Tree) → Option (List (String × Tree))
  | [], _ => none
  | [key], entries =>
    match Tree.at? entries key with
    | none => some (Tree.put entries key (.branch .header []))
    | some (.branch .implied inner) => some (Tree.put entries key (.branch .header inner))
    | some _ => none
  | key :: path, entries =>
    match Tree.at? entries key with
    | none => (Tree.open? path []).map fun inner => Tree.put entries key (.branch .implied inner)
    | some (.leaf _) => none
    | some (.branch .closed _) => none
    | some (.branch opening inner) =>
      (Tree.open? path inner).map fun inner => Tree.put entries key (.branch opening inner)

/-- Gives the key at a path its value.  Only sections that such paths made may be extended. -/
def Tree.assign? (value : Tree) :
    (path : List String) → List (String × Tree) → Option (List (String × Tree))
  | [], _ => none
  | [key], entries =>
    match Tree.at? entries key with
    | none => some (Tree.put entries key value)
    | some _ => none
  | key :: path, entries =>
    match Tree.at? entries key with
    | none =>
      (Tree.assign? value path []).map fun inner => Tree.put entries key (.branch .dotted inner)
    | some (.branch .dotted inner) =>
      (Tree.assign? value path inner).map fun inner => Tree.put entries key (.branch .dotted inner)
    | some _ => none

/-- Gives the key at a path its value, inside the section that is open. -/
def Tree.assignIn? (value : Tree) (path : List String) :
    (current : List String) → List (String × Tree) → Option (List (String × Tree))
  | [], entries => Tree.assign? value path entries
  | key :: current, entries =>
    match Tree.at? entries key with
    | some (.branch opening inner) =>
      (Tree.assignIn? value path current inner).map fun inner =>
        Tree.put entries key (.branch opening inner)
    | _ => none

mutual

/-- The settings of a tree. -/
def Tree.setting : Tree → Setting
  | .leaf value => value
  | .branch _ entries => .section (Tree.settings entries)

def Tree.settings : List (String × Tree) → List (String × Setting)
  | [] => []
  | (key, tree) :: rest => (key, tree.setting) :: Tree.settings rest

end

/-! ### Statements -/

/-- Reads a given mark. -/
def mark? (c : Char) (ps : List Piece) : Option (Parsed Piece Unit ps.length) :=
  match ps with
  | .mark found :: rest => if found = c then some ⟨(), rest, by simp⟩ else none
  | _ => none

/-- Reads what stands behind a member of a section in braces: a comma, after which there is another,
or the closing brace. -/
def separator? : (ps : List Piece) → Option (Parsed Piece Bool ps.length)
  | .mark ',' :: rest => some ⟨true, rest, by simp⟩
  | .mark '\x7d' :: rest => some ⟨false, rest, by simp⟩
  | _ => none

/-- Reads the rest of an empty list. -/
def emptyList? : (ps : List Piece) → Option (Parsed Piece Unit ps.length)
  | .newline :: rest =>
    match emptyList? rest with
    | none => none
    | some list =>
      some ⟨(), list.rest, by have := list.short; simp only [List.length_cons]; omega⟩
  | .mark ']' :: rest => some ⟨(), rest, by simp⟩
  | _ => none

mutual

/-- Reads a value. -/
def value? (ps : List Piece) : Option (Parsed Piece Tree ps.length) :=
  match ps with
  | .text cs :: rest => some ⟨.leaf (.text (String.ofList cs)), rest, by simp⟩
  | .block cs :: rest => some ⟨.leaf (.text (String.ofList cs)), rest, by simp⟩
  | .word cs :: rest => (integer? cs).map fun n => ⟨.leaf (.integer n), rest, by simp⟩
  | .mark '[' :: rest =>
    match emptyList? rest with
    | none => none
    | some list =>
      some ⟨.leaf .emptyList, list.rest, by
        have := list.short; simp only [List.length_cons]; omega⟩
  | .mark '\x7b' :: .mark '\x7d' :: rest =>
    some ⟨.branch .closed [], rest, by simp only [List.length_cons]; omega⟩
  | .mark '\x7b' :: rest =>
    match members? [] rest with
    | none => none
    | some all =>
      some ⟨.branch .closed all.value, all.rest, by
        have := all.short; simp only [List.length_cons]; omega⟩
  | _ => none
termination_by 2 * ps.length
decreasing_by simp only [List.length_cons]; omega

/-- Reads the keys and values of a section in braces, up to and with the closing one. -/
def members? (entries : List (String × Tree)) (ps : List Piece) :
    Option (Parsed Piece (List (String × Tree)) ps.length) :=
  match path? ps with
  | none => none
  | some path =>
    match mark? '=' path.rest with
    | none => none
    | some equals =>
      match value? equals.rest with
      | none => none
      | some value =>
        match Tree.assign? value.value path.value entries, separator? value.rest with
        | some entries, some behind =>
          if behind.value then
            match members? entries behind.rest with
            | none => none
            | some all =>
              some ⟨all.value, all.rest, by
                have := path.short
                have := equals.short
                have := value.short
                have := behind.short
                have := all.short
                omega⟩
          else
            some ⟨entries, behind.rest, by
              have := path.short
              have := equals.short
              have := value.short
              have := behind.short
              omega⟩
        | _, _ => none
termination_by 2 * ps.length + 1
decreasing_by
  · have := path.short
    have := equals.short
    omega
  · have := path.short
    have := equals.short
    have := value.short
    have := behind.short
    omega

end

/-- The settings read so far, and the section that is open. -/
structure Reading where
  entries : List (String × Tree)
  current : List String

/-- Reads one statement: the opening of a section, or a key and its value. -/
def Reading.statement? (reading : Reading) (ps : List Piece) :
    Option (Parsed Piece Reading ps.length) :=
  match ps with
  | .mark '[' :: rest =>
    match path? rest with
    | none => none
    | some path =>
      match mark? ']' path.rest, Tree.open? path.value reading.entries with
      | some close, some entries =>
        some ⟨⟨entries, path.value⟩, close.rest, by
          have := path.short
          have := close.short
          simp only [List.length_cons]; omega⟩
      | _, _ => none
  | ps =>
    match path? ps with
    | none => none
    | some path =>
      match mark? '=' path.rest with
      | none => none
      | some equals =>
        match value? equals.rest with
        | none => none
        | some value =>
          match Tree.assignIn? value.value path.value reading.current reading.entries with
          | none => none
          | some entries =>
            some ⟨{ reading with entries }, value.rest, by
              have := path.short
              have := equals.short
              have := value.short
              omega⟩

/-- Reads the end of a line or of the text. -/
def endOfLine? : (ps : List Piece) → Option (Parsed Piece Unit (ps.length + 1))
  | [] => some ⟨(), [], by simp⟩
  | .newline :: rest => some ⟨(), rest, by simp only [List.length_cons]; omega⟩
  | _ => none

/-- Reads statements up to the end of the text, at most one a line. -/
def Reading.statements? (reading : Reading) (ps : List Piece) : Option Reading :=
  match ps with
  | [] => some reading
  | .newline :: rest => reading.statements? rest
  | piece :: rest =>
    match reading.statement? (piece :: rest) with
    | none => none
    | some statement =>
      match endOfLine? statement.rest with
      | none => none
      | some line => statement.value.statements? line.rest
termination_by ps.length
decreasing_by
  · simp
  · have := statement.short
    have := line.short
    omega

/-- The settings that a text gives; none if it cannot be read.  A byte order mark may come first. -/
def settings? (source : String) : Option (List (String × Setting)) :=
  let text := (stripStart? ['\ufeff'] source.toList).getD source.toList
  match pieces? text with
  | none => none
  | some ps =>
    match Reading.statements? ⟨[], []⟩ ps with
    | none => none
    | some reading => some (Tree.settings reading.entries)

end RuleCodec.Config
