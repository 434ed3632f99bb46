/-
RuleCodec/ValueType/Text.lean

Reading the name of a type.  `uint` is short for `uint256`, and `T[]` is an array of `T`; arrays of
arrays and of `void` do not exist.
-/
import RuleCodec.Error

namespace RuleCodec.ValueType

open Text

/-- The types that have a name of their own. -/
def scalar? (cs : List Char) : Option ValueType :=
  let text := String.ofList cs
  if text = "address" then some address
  else if text = "string" then some string
  else if text = "uint256" ∨ text = "uint" then some uint256
  else if text = "bool" then some bool
  else if text = "void" then some void
  else if text = "bytes" then some bytes
  else none

/-- The type of arrays of a type. -/
def array? : ValueType → Option ValueType
  | address | uint256 | bool => some staticArray
  | string | bytes => some dynamicArray
  | void | staticArray | dynamicArray => none

/-- The type that a text names.  The innermost text that names no type is the one reported. -/
def ofText (cs : List Char) : Except Error ValueType :=
  match _ends : stripEnd? ['[', ']'] (trim cs) with
  | some element =>
    match ofText element with
    | .error e => .error e
    | .ok t =>
      match t.array? with
      | some array => .ok array
      | none => .error (.unsupportedType (String.ofList (trim cs)))
  | none =>
    match scalar? (trim cs) with
    | some t => .ok t
    | none => .error (.unsupportedType (String.ofList (trim cs)))
termination_by cs.length
decreasing_by
  have split := congrArg List.length (stripEnd?_eq_some _ends)
  have shorter := length_trim_le cs
  simp only [List.length_append, List.length_cons] at split
  omega

/-- The type with a number that records use. -/
def ofCode (n : UInt8) : Except Error ValueType :=
  match ofCode? n with
  | some t => .ok t
  | none => .error (.unsupportedType ("pType " ++ Numeral.decimal n.toNat))

end RuleCodec.ValueType
