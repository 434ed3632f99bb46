/-
RuleCodec/Token.lean

The tokens of the rule language: literals, words, references behind `TR: TRU: FC: GV:`, and
symbols.
-/
import RuleCodec.Operator
import RuleCodec.Text.Quoted
import RuleCodec.Word

namespace RuleCodec

/-- One token of a rule. -/
inductive Token
  | number (value : Word)
  | address (value : Word)
  | bytes (value : Bytes)
  | text (value : String)
  | boolean (value : Bool)
  | identifier (name : String)
  | trackerRead (name : String)
  | trackerUpdate (name : String)
  | foreignCall (name : String)
  | globalVariable (name : String)
  | not
  | leftParen
  | rightParen
  | comma
  | pipe
  | operator (op : BinaryOp)
  | endOfInput
  deriving DecidableEq, Repr

/-- A token and the number of characters before it. -/
structure Located where
  token : Token
  position : Nat
  deriving DecidableEq, Repr

namespace Token

/-- The spelling of a token that has only one. -/
def symbol? : Token → Option String
  | not => some "NOT"
  | leftParen => some "("
  | rightParen => some ")"
  | comma => some ","
  | pipe => some "|"
  | operator op => some op.symbol
  | _ => none

/-- A text between quotes inside a described token. -/
private def quotedName (name : String) : String :=
  String.ofList (Text.quoted name.toList)

/-- A token as messages show it. -/
def describe : Token → String
  | endOfInput => "end of input"
  | number value => "NumberLiteral(" ++ String.ofList value.toDecimal ++ ")"
  | address value => "AddressLiteral(" ++ String.ofList value.toDecimal ++ ")"
  | bytes value =>
    "BytesLiteral([" ++ String.intercalate ", " (value.map fun b => Numeral.decimal b.toNat) ++ "])"
  | text value => "StringLiteral(" ++ quotedName value ++ ")"
  | boolean value => "BooleanLiteral(" ++ (if value then "true" else "false") ++ ")"
  | identifier name => "Identifier(" ++ quotedName name ++ ")"
  | trackerRead name => "TrackerRead(" ++ quotedName name ++ ")"
  | trackerUpdate name => "TrackerUpdate(" ++ quotedName name ++ ")"
  | foreignCall name => "ForeignCall(" ++ quotedName name ++ ")"
  | globalVariable name => "GlobalVariable(" ++ quotedName name ++ ")"
  | not => "'NOT'"
  | leftParen => "'('"
  | rightParen => "')'"
  | comma => "','"
  | pipe => "'|'"
  | operator op => "'" ++ op.symbol ++ "'"

end Token

end RuleCodec
