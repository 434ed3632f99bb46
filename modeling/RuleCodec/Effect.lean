/-
RuleCodec/Effect.lean

Effects: what a rule does when its condition holds or fails.  A clause reverts, emits an event with
at most one parameter, or is an expression.
-/
import RuleCodec.Instruction.Encode
import RuleCodec.Stream

namespace RuleCodec

open Text

/-! ### Event parameters -/

/-- The parameter of an event. -/
inductive EventParameter
  | address (value : Word)
  | uint256 (value : Word)
  | text (value : String)
  deriving DecidableEq, Repr

namespace EventParameter

/-- The parameter that a text stands for: an address, else a number, else the text itself without
its quotes. -/
def infer (cs : List Char) : EventParameter :=
  let trimmed := trim cs
  match Word.ofAddress? trimmed with
  | some value => address value
  | none =>
    let number := if trimmed.isEmpty then none else Word.ofDecimal? trimmed
    match number with
    | some value => uint256 value
    | none => text (String.ofList (unquote trimmed))

/-- The type of a parameter. -/
def valueType : EventParameter → ValueType
  | address _ => .address
  | uint256 _ => .uint256
  | text _ => .string

/-- The layout of a parameter. -/
def abi : EventParameter → Bytes
  | address value => value.toBytes
  | uint256 value => value.toBytes
  | text value => Abi.dynamic (Utf8.encode value.toList)

/-- The text of a parameter. -/
def render : EventParameter → String
  | address value => String.ofList value.toAddress
  | uint256 value => String.ofList value.toDecimal
  | text value => value

end EventParameter

/-! ### Clauses -/

/-- An effect as it is written. -/
inductive Clause
  | revert (message : String)
  | event (name : String) (parameter : Option EventParameter)
  | expression (source : String)
  deriving DecidableEq, Repr

namespace Clause

/-- What follows a keyword, if the text begins with that word. -/
def afterKeyword? (keyword cs : List Char) : Option (List Char) :=
  match stripStart? keyword cs with
  | none => none
  | some [] => some []
  | some (c :: rest) => if c = '(' ∨ isBlank c then some (trim (c :: rest)) else none

/-- A revert, from what follows its keyword. -/
def parseRevert (clause rest : List Char) : Except Error Clause :=
  if rest.isEmpty then .ok (revert "")
  else
    match (stripStart? ['('] rest).bind (stripEnd? [')']) with
    | some inner => .ok (revert (String.ofList (unquote (trim inner))))
    | none => .error (.malformed (.revertForm (String.ofList clause)) 0)

/-- An event, from what follows its keyword. -/
def parseEvent (clause rest : List Char) : Except Error Clause :=
  let (name, parameter) :=
    match splitOnce? ',' rest with
    | some (name, parameter) => (trim name, trim parameter)
    | none => (rest, [])
  if name.isEmpty then .error (.malformed (.unnamedEvent (String.ofList clause)) 0)
  else
    .ok (event (String.ofList name)
      (if parameter.isEmpty then none else some (EventParameter.infer parameter)))

/-- Classifies a clause by the word it begins with. -/
def parse (source : String) : Except Error Clause :=
  let clause := trim source.toList
  match afterKeyword? "revert".toList clause with
  | some rest => parseRevert clause rest
  | none =>
    match afterKeyword? "emit".toList clause with
    | some rest => parseEvent clause rest
    | none => .ok (expression (String.ofList clause))

end Clause

/-! ### Compiled effects -/

inductive EffectType
  | revert
  | event
  | expression
  deriving DecidableEq, Repr

/-- An effect as it is stored. -/
structure Effect where
  effectType : EffectType
  /-- The message of a revert, the name of an event, or the normal text of an expression. -/
  text : String
  words : List Word
  rawData : List RawEntry
  valueType : Option ValueType
  parameter : Option EventParameter
  deriving DecidableEq, Repr

end RuleCodec
