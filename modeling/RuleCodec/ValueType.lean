/-
RuleCodec/ValueType.lean

The types of the values that rules handle.  Each has a number, which is how records name it, and a
name, which is how messages do.
-/

namespace RuleCodec

/-- The type of a placeholder, a tracker, a parameter or a literal. -/
inductive ValueType
  | address
  | string
  | uint256
  | bool
  | void
  | bytes
  | staticArray
  | dynamicArray
  deriving DecidableEq, Repr

namespace ValueType

/-- The number of a type. -/
def code : ValueType → UInt8
  | address => 0
  | string => 1
  | uint256 => 2
  | bool => 3
  | void => 4
  | bytes => 5
  | staticArray => 6
  | dynamicArray => 7

/-- The type with a given number. -/
def ofCode? (n : UInt8) : Option ValueType :=
  [address, string, uint256, bool, void, bytes, staticArray, dynamicArray].find? fun t =>
    t.code == n

/-- The name of a type. -/
def name : ValueType → String
  | address => "address"
  | string => "string"
  | uint256 => "uint256"
  | bool => "bool"
  | void => "void"
  | bytes => "bytes"
  | staticArray => "static type array"
  | dynamicArray => "dynamic type array"

/-- Whether a value of the type takes exactly one word. -/
def isStatic : ValueType → Bool
  | address | uint256 | bool => true
  | _ => false

end ValueType

end RuleCodec
