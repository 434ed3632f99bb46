/-
RuleCodec/Definition/ForeignCall.lean

Definitions of foreign calls: the function that is called, and where the values it is given come
from.
-/
import RuleCodec.Definition.Value
import RuleCodec.Global
import RuleCodec.Signature
import RuleCodec.Symbols

namespace RuleCodec

open Text

/-! ### Where values come from -/

inductive ValueSource
  | argument
  | foreignCall
  | tracker
  | global
  deriving DecidableEq, Repr

namespace ValueSource

/-- The number of a source. -/
def code : ValueSource → UInt8
  | argument => 0
  | foreignCall => 1
  | tracker => 2
  | global => 3

/-- The source with a number. -/
def ofCode (n : UInt8) : Except Error ValueSource :=
  match [argument, foreignCall, tracker, global].find? fun source => source.code == n with
  | some source => .ok source
  | none => .error (.config (.unknownValueSource n))

end ValueSource

/-- A value that is passed: its source and its index there. -/
structure EncodedIndex where
  index : UInt64
  source : ValueSource
  deriving DecidableEq, Repr

/-! ### Foreign calls -/

/-- A foreign call as it is declared. -/
structure ForeignCallDefinition where
  name : String
  address : String
  function : String
  returnType : String
  /-- The values to pass, separated by commas. -/
  valuesToPass : String
  deriving DecidableEq, Repr

/-- A foreign call as it is stored. -/
structure EncodedForeignCall where
  name : String
  address : Word
  signature : String
  selector : Bytes
  parameterTypes : List ValueType
  returnType : ValueType
  encodedIndices : List EncodedIndex
  deriving DecidableEq, Repr

namespace ForeignCallDefinition

/-- The canonical name of a type: `uint` is `uint256`, also as the item of an array. -/
def canonicalType (cs : List Char) : List Char :=
  match _ends : stripEnd? ['[', ']'] cs with
  | some element => canonicalType element ++ ['[', ']']
  | none => if cs = "uint".toList then "uint256".toList else cs
termination_by cs.length
decreasing_by
  have split := congrArg List.length (stripEnd?_eq_some _ends)
  simp only [List.length_append, List.length_cons] at split
  omega

/-- The type of a parameter: its first word. -/
def parameter (word : List Char) : Except Error (List Char × ValueType) := do
  let t ← ValueType.ofText word
  return (canonicalType word, t)

/-- The name of a function and the text of its parameters. -/
def parts? (text : List Char) : Option (List Char × List Char) :=
  match splitOnce? '(' text with
  | none => none
  | some (before, after) =>
    match stripEnd? [')'] after with
    | none => none
    | some parameters => if (trim before).isEmpty then none else some (trim before, parameters)

/-- The signature of a function with canonical types and no names or blanks, and the types of its
parameters. -/
def canonicalSignature (function : String) : Except Error (String × List ValueType) := do
  let text := trim function.toList
  match parts? text with
  | none => .error (.malformed (.signature (String.ofList text)) 0)
  | some (name, parameters) =>
    let read ← ((splitOn ',' parameters).filterMap fun field => (words field).head?).mapM parameter
    let types := [','].intercalate (read.map Prod.fst)
    return (String.ofList (name ++ '(' :: types ++ [')']), read.map Prod.snd)

/-- The source and index of a value to pass. -/
def encodeIndex (function : CallingFunction) (tables : SymbolTables) (value : List Char) :
    Except Error EncodedIndex :=
  let found (index : Option UInt64) (source : ValueSource) (kind : SymbolKind) :=
    match index with
    | some index => .ok ⟨index, source⟩
    | none => .error (.unresolved (String.ofList value) kind)
  match stripStart? ['F', 'C', ':'] value with
  | some name =>
    found ((tables.foreignCalls.get? (String.ofList name)).map ForeignCallSymbol.index)
      .foreignCall .foreignCall
  | none =>
    match stripStart? ['T', 'R', ':'] value with
    | some name =>
      found ((tables.trackers.get? (String.ofList name)).map TrackerSymbol.index) .tracker .tracker
    | none =>
      match stripStart? ['G', 'V', ':'] value with
      | some name =>
        found ((GlobalVariable.ofName? (String.ofList name)).map fun g =>
          UInt64.ofNat g.flag.toNat) .global .globalVariable
      | none =>
        found ((function.position? (String.ofList value)).map UInt64.ofNat) .argument .argument

/-- The values to pass: what stands between commas and is not blank. -/
def values (call : ForeignCallDefinition) : List (List Char) :=
  ((splitOn ',' call.valuesToPass.toList).map trim).filter fun value => !value.isEmpty

/-- Encodes a foreign call.  There must be one value for each parameter. -/
def encode (call : ForeignCallDefinition) (function : CallingFunction) (tables : SymbolTables) :
    Except Error EncodedForeignCall := do
  let address ←
    match Word.ofAddress? (trim call.address.toList) with
    | some address => pure address
    | none => throw (.invalidDefault call.address ValueType.address.name)
  let (signature, parameterTypes) ← canonicalSignature call.function
  let returnType ← ValueType.ofText call.returnType.toList
  let values := call.values
  if values.length ≠ parameterTypes.length then
    throw (.malformed (.valueCount signature parameterTypes.length values.length) 0)
  let encodedIndices ← values.mapM (encodeIndex function tables)
  return {
    name := call.name
    address := address
    signature := signature
    selector := Abi.selector (Utf8.encode signature.toList)
    parameterTypes := parameterTypes
    returnType := returnType
    encodedIndices := encodedIndices }

end ForeignCallDefinition

end RuleCodec
