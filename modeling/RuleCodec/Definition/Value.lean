/-
RuleCodec/Definition/Value.lean

Values in definitions: the text of a value of a declared type, and its layout.
-/
import RuleCodec.Abi
import RuleCodec.Text.Utf8
import RuleCodec.ValueType.Text

namespace RuleCodec.Definition

open Text

/-- A number: decimal, or hexadecimal behind `0x`. -/
def number? (cs : List Char) : Option Word :=
  match stripStart? ['0', 'x'] cs with
  | some digits => Word.ofHex? digits
  | none => Word.ofDecimal? cs

/-- The bytes of a value that is no array: the word of a static one, the content of another. -/
def scalar? (t : ValueType) (cs : List Char) : Option Bytes :=
  let trimmed := trim cs
  match t with
  | .uint256 => (number? trimmed).map Word.toBytes
  | .address => (Word.ofAddress? trimmed).map Word.toBytes
  | .bool =>
    if trimmed = "true".toList then some (Abi.boolWord true)
    else if trimmed = "false".toList then some (Abi.boolWord false)
    else none
  | .string => some (Utf8.encode (unquote trimmed))
  | .bytes => (stripStart? ['0', 'x'] trimmed).bind Bytes.ofHex?
  | .void | .staticArray | .dynamicArray => none

/-- The bytes of a value that is no array, or what is wrong with it. -/
def scalar (t : ValueType) (cs : List Char) : Except Error Bytes :=
  match scalar? t cs with
  | some bytes => .ok bytes
  | none => .error (.invalidDefault (String.ofList cs) t.name)

/-- The items between commas that stand outside quotes, given the quote that is open.  There are
none if a quote is never closed. -/
def splitItems : (opened : Option Char) → List Char → Option (List (List Char))
  | none, [] => some [[]]
  | some _, [] => none
  | none, ',' :: cs => (splitItems none cs).map ([] :: ·)
  | opened, c :: cs =>
    let opened :=
      match opened with
      | none => if c = '"' ∨ c = '\'' then some c else none
      | some quote => if c = quote then none else some quote
    match splitItems opened cs with
    | some (item :: items) => some ((c :: item) :: items)
    | _ => none

/-- The items of an array literal such as `[a, "b, c"]`. -/
def arrayItems? (cs : List Char) : Option (List (List Char)) :=
  match (stripStart? ['['] (trim cs)).bind (stripEnd? [']']) with
  | none => none
  | some inner =>
    if (trim inner).isEmpty then some []
    else (splitItems none inner).map fun items => items.map trim

/-- The type of the items of an array type. -/
def elementType (typeName : List Char) : Except Error ValueType :=
  match stripEnd? ['[', ']'] typeName with
  | some element => ValueType.ofText element
  | none => .error (.unsupportedType (String.ofList typeName))

/-- The items of an array of a declared type. -/
def arrayData (typeName cs : List Char) : Except Error (List Bytes) := do
  let element ← elementType typeName
  match arrayItems? cs with
  | none => .error (.invalidDefault (String.ofList cs) (String.ofList typeName))
  | some items => items.mapM (scalar element)

/-- The type that a name declares, and the layout of a value of it. -/
def encodeValue (typeName value : String) : Except Error (ValueType × Bytes) := do
  let name := trim typeName.toList
  let t ← ValueType.ofText name
  let layout ←
    match t with
    | .address | .uint256 | .bool => scalar t value.toList
    | .string | .bytes => (scalar t value.toList).map Abi.dynamic
    | .staticArray => (arrayData name value.toList).map Abi.staticArray
    | .dynamicArray => (arrayData name value.toList).map Abi.dynamicArray
    | .void => .error (.unsupportedType (String.ofList name))
  return (t, layout)

end RuleCodec.Definition
