/-
RuleCodec/Expr.lean

The expressions of the rule language, and how they are written.

Writing an expression puts one blank around every operator and parentheses around an operand that
is itself an `AND` or an `OR`, and around nothing else.
-/
import RuleCodec.Global
import RuleCodec.Token.Lexer

namespace RuleCodec

/-- A tracker by name, marked if it stands as the target of an update. -/
structure TrackerRef where
  name : String
  update : Bool
  deriving DecidableEq, Repr

/-- An expression. -/
inductive Expr
  | number (value : Word)
  | address (value : Word)
  | text (value : String)
  | bytes (value : Bytes)
  | boolean (value : Bool)
  | identifier (name : String)
  | argument (name : String)
  | tracker (ref : TrackerRef)
  | foreignCall (name : String) (arguments : List Expr)
  | global (which : GlobalVariable)
  | mapped (ref : TrackerRef) (key : Expr)
  | binary (op : BinaryOp) (left right : Expr)
  | not (operand : Expr)

/-! ### Leaves -/

/-- A text literal: bare where it reads as a name, otherwise between double quotes, with a
backslash before each quote and backslash. -/
def spellText (cs : List Char) : List Char :=
  if isBareWord cs then cs
  else
    '"' :: cs.flatMap (fun c => if c = '\\' ∨ c = '"' then ['\\', c] else [c]) ++ ['"']

/-- A tracker behind its marker. -/
def TrackerRef.spell (ref : TrackerRef) : List Char :=
  (if ref.update then ['T', 'R', 'U', ':'] else ['T', 'R', ':']) ++ ref.name.toList

namespace Expr

/-! ### Whole expressions -/

/-- Whether an expression keeps its parentheses as an operand. -/
def isGroup : Expr → Bool
  | binary op _ _ => op.isLogical
  | _ => false

/-- The text of an operand, given the text of the expression. -/
def spellOperand (e : Expr) (text : List Char) : List Char :=
  if e.isGroup then ['(', ' '] ++ text ++ [' ', ')'] else text

mutual

/-- The text of an expression.  Booleans are written as `1` and `0`. -/
def spell : Expr → List Char
  | number value => value.toDecimal
  | address value => value.toAddress
  | text value => spellText value.toList
  | bytes value => value.toHex
  | boolean value => [if value then '1' else '0']
  | identifier name => name.toList
  | argument name => name.toList
  | tracker ref => ref.spell
  | foreignCall name arguments =>
    ['F', 'C', ':'] ++ name.toList ++
      (if arguments.isEmpty then [] else '(' :: spellArguments arguments ++ [')'])
  | global which => ['G', 'V', ':'] ++ which.name.toList
  | mapped ref key => ref.spell ++ '(' :: spell key ++ [')']
  | binary op left right =>
    spellOperand left (spell left) ++ ' ' :: op.symbol.toList ++ ' ' ::
      spellOperand right (spell right)
  | not operand => ['N', 'O', 'T', ' '] ++ spellOperand operand (spell operand)

/-- The texts of arguments, a comma and a blank between them. -/
def spellArguments : List Expr → List Char
  | [] => []
  | e :: rest => spell e ++ (if rest.isEmpty then [] else ',' :: ' ' :: spellArguments rest)

end

/-- The text of an expression as a string. -/
def render (e : Expr) : String :=
  String.ofList e.spell

end Expr

end RuleCodec
