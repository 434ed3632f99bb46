/-
RuleCodec/Signature.lean

The function whose call a rule guards: its name, if it has one, and its declared arguments, as in
`transfer(address to, uint256 value)` or in the bare list `address to, uint256 value`.
-/
import RuleCodec.Text.Utf8
import RuleCodec.ValueType.Text

namespace RuleCodec

open Text

/-- A declared argument, with its type as written. -/
structure Argument where
  name : String
  rawType : String
  valueType : ValueType
  deriving DecidableEq, Repr

/-- A calling function. -/
structure CallingFunction where
  name : Option String
  arguments : List Argument
  deriving DecidableEq, Repr, Inhabited

namespace CallingFunction

/-- The words that say where an argument is kept.  They carry no type. -/
def isStorageWord (word : List Char) : Bool :=
  let text := String.ofList word
  text == "memory" || text == "calldata" || text == "storage"

/-- An argument declaration: a type, any storage words, and the name last. -/
def declaration (cs : List Char) : Except Error Argument :=
  match words cs with
  | [] => .error (.malformed (.signature (String.ofList cs)) 0)
  | rawType :: rest =>
    match (rest.filter fun word => !isStorageWord word).getLast? with
    | none => .error (.malformed (.signature (String.ofList cs)) 0)
    | some name =>
      match ValueType.ofText rawType with
      | .error e => .error e
      | .ok t => .ok ⟨String.ofList name, String.ofList rawType, t⟩

/-- The declarations of a list, separated by commas; blank ones are skipped. -/
def declarations (cs : List Char) : Except Error (List Argument) :=
  (((splitOn ',' cs).map trim).filter fun field => !field.isEmpty).mapM declaration

/-- The name before the first parenthesis, if any, and the text of the argument list.  Positions in
errors count UTF-8 bytes. -/
def parts (text : List Char) : Except Error (Option String × List Char) :=
  match splitOnce? '(' text with
  | none => .ok (none, text)
  | some (before, _) =>
    match splitLast? ')' text with
    | none => .error (.malformed (.signature (String.ofList text)) (Utf8.size text))
    | some (upTo, _) =>
      if upTo.length < before.length then
        .error (.malformed (.signature (String.ofList text)) (Utf8.size upTo))
      else
        let name := trim before
        .ok (if name.isEmpty then none else some (String.ofList name),
          upTo.drop (before.length + 1))

/-- The calling function that a signature declares. -/
def parse (signature : String) : Except Error CallingFunction := do
  let (name, list) ← parts (trim signature.toList)
  return ⟨name, ← declarations list⟩

/-- The place of the first argument with a name. -/
def position? (f : CallingFunction) (name : String) : Option Nat :=
  f.arguments.findIdx? fun argument => argument.name == name

end CallingFunction

end RuleCodec
