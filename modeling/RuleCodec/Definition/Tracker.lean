/-
RuleCodec/Definition/Tracker.lean

Definitions of trackers, plain and mapped, with the values they begin with.
-/
import RuleCodec.Definition.Value

namespace RuleCodec

open Definition

/-- A tracker as it is declared. -/
structure TrackerDefinition where
  name : String
  type : String
  initialValue : String
  deriving DecidableEq, Repr

/-- A tracker as it is stored. -/
structure EncodedTracker where
  name : String
  valueType : ValueType
  initialValue : Bytes
  deriving DecidableEq, Repr

/-- Encodes a tracker. -/
def TrackerDefinition.encode (tracker : TrackerDefinition) : Except Error EncodedTracker := do
  let (t, value) ← encodeValue tracker.type tracker.initialValue
  return ⟨tracker.name, t, value⟩

/-- A mapped tracker as it is declared. -/
structure MappedTrackerDefinition where
  name : String
  keyType : String
  valueType : String
  initialKeys : List String
  initialValues : List String
  deriving DecidableEq, Repr

/-- A mapped tracker as it is stored. -/
structure EncodedMappedTracker where
  name : String
  keyType : ValueType
  valueType : ValueType
  initialKeys : List Bytes
  initialValues : List Bytes
  deriving DecidableEq, Repr

namespace MappedTrackerDefinition

/-- The types that keys may have. -/
def isKeyType (t : ValueType) : Bool :=
  t.isStatic || t == .string || t == .bytes

/-- Encodes keys in turn.  No two may have the same layout. -/
def encodeKeys (typeName : String) (keyType : ValueType) (seen : List Bytes) :
    List String → Except Error (List Bytes)
  | [] => .ok []
  | key :: rest => do
    let (_, layout) ← encodeValue typeName key
    if seen.contains layout then
      .error (.invalidDefault key ("unique " ++ keyType.name ++ " key"))
    else
      let keys ← encodeKeys typeName keyType (layout :: seen) rest
      return layout :: keys

/-- Encodes a mapped tracker. -/
def encode (tracker : MappedTrackerDefinition) : Except Error EncodedMappedTracker := do
  let keys := tracker.initialKeys.length
  let values := tracker.initialValues.length
  if keys ≠ values then
    throw (.invalidDefault
      (Numeral.decimal keys ++ " keys for " ++ Numeral.decimal values ++ " values")
      ("one value per key of '" ++ tracker.name ++ "'"))
  let keyType ← ValueType.ofText tracker.keyType.toList
  unless isKeyType keyType do throw (.unsupportedType tracker.keyType)
  let valueType ← ValueType.ofText tracker.valueType.toList
  if valueType = .void then throw (.unsupportedType tracker.valueType)
  let initialKeys ← encodeKeys tracker.keyType keyType [] tracker.initialKeys
  let initialValues ← tracker.initialValues.mapM fun value =>
    (encodeValue tracker.valueType value).map Prod.snd
  return ⟨tracker.name, keyType, valueType, initialKeys, initialValues⟩

end MappedTrackerDefinition

end RuleCodec
