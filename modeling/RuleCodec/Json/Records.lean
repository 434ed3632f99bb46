/-
RuleCodec/Json/Records.lean

The JSON forms of the records that go in and out: symbol tables, signatures, components,
placeholders, streams, effects, rules and definitions.
-/
import RuleCodec.Definition.ForeignCall
import RuleCodec.Definition.Tracker
import RuleCodec.Json.Codec
import RuleCodec.Rule

namespace RuleCodec

open Fields

/-! ### Words, bytes and numbers -/

namespace Codec

/-- A hexadecimal text without the `0x` it may begin with. -/
def hexDigits (text : String) : List Char :=
  (Text.stripStart? ['0', 'x'] text.toList).getD text.toList

def wordOfText (text : String) : Except DecodeError Word :=
  match Word.ofHex? (hexDigits text) with
  | some w => .ok w
  | none => .error .shape

def bytesOfText (text : String) : Except DecodeError Bytes :=
  match Bytes.ofHex? (hexDigits text) with
  | some bytes => .ok bytes
  | none => .error (.hex text)

/-- A word, as hexadecimal text. -/
def word : Codec Word :=
  text.via (fun w => String.ofList w.toHex) wordOfText

/-- Words.  All must be texts before any is read as a word. -/
def words : Codec (List Word) :=
  text.list.via (List.map fun w => String.ofList w.toHex) (List.mapM wordOfText)

/-- Bytes, as hexadecimal text. -/
def bytes : Codec Bytes :=
  text.via (fun b => String.ofList b.toHex) bytesOfText

/-- Byte strings.  All must be texts before any is read as bytes. -/
def bytesList : Codec (List Bytes) :=
  text.list.via (List.map fun b => String.ofList b.toHex) (List.mapM bytesOfText)

/-- The position of a word in a stream. -/
def position : Codec Nat :=
  natBelow UInt64.size

/-- A number of 64 bits as a key: its decimal text, with no zero before it. -/
def uint64OfKey (text : String) : Except DecodeError UInt64 :=
  match Numeral.read? 10 text.toList with
  | some n =>
    if n < UInt64.size ∧ Numeral.write 10 n = text.toList then .ok (UInt64.ofNat n)
    else .error .shape
  | none => .error .shape

/-- A meaning that a value of the right kind may lack. -/
def meaning {α β : Type} (read : α → Except Error β) (a : α) : Except DecodeError β :=
  match read a with
  | .ok b => .ok b
  | .error e => .error (.meaning e)

end Codec

/-! ### Types and symbols -/

def ValueType.codec : Codec ValueType :=
  Codec.uint8.via ValueType.code (Codec.meaning ValueType.ofCode)

def GlobalVariable.codec : Codec GlobalVariable :=
  .choice GlobalVariable.name GlobalVariable.all

def TrackerSymbol.codec : Codec TrackerSymbol :=
  (start TrackerSymbol.mk
    |>.and (required "index" .uint64 TrackerSymbol.index)
    |>.and (required "pType" ValueType.codec TrackerSymbol.valueType)
    |>.and (optional "keyType" ValueType.codec TrackerSymbol.keyType)).codec

def ForeignCallSymbol.codec : Codec ForeignCallSymbol :=
  (start ForeignCallSymbol.mk
    |>.and (required "index" .uint64 ForeignCallSymbol.index)
    |>.and (required "returnType" ValueType.codec ForeignCallSymbol.returnType)).codec

/-- A table with texts as keys. -/
def Codec.byName {α : Type} (c : Codec α) : Codec (Table String α) :=
  .table id .ok c

def SymbolTables.codec : Codec SymbolTables :=
  (start SymbolTables.mk
    |>.and (withDefault "trackers" TrackerSymbol.codec.byName .empty SymbolTables.trackers)
    |>.and (withDefault "foreignCalls" ForeignCallSymbol.codec.byName .empty
      SymbolTables.foreignCalls)).codec

def Argument.codec : Codec Argument :=
  (start Argument.mk
    |>.and (required "name" .text Argument.name)
    |>.and (required "rawType" .text Argument.rawType)
    |>.and (required "pType" ValueType.codec Argument.valueType)).codec

def CallingFunction.codec : Codec CallingFunction :=
  (start CallingFunction.mk
    |>.and (nullable "name" .text CallingFunction.name)
    |>.and (required "arguments" Argument.codec.list CallingFunction.arguments)).codec

/-- A registry, as an object of spellings and numbers. -/
def Registry.codec : Codec Registry :=
  Codec.uint64.byName.via (fun r => Table.ofList r.entries) (Codec.meaning Registry.ofTable)

/-! ### Components and placeholders -/

/-- Where a component comes from.  A global variable is named under `global`. -/
def Source.codec : Codec Source where
  encode
    | .argument => .string "argument"
    | .foreignCall => .string "foreignCall"
    | .tracker => .string "tracker"
    | .global which => .object [("global", GlobalVariable.codec.encode which)]
  decode
    | .object [("global", j)] => (GlobalVariable.codec.decode j).map Source.global
    | j =>
      (Codec.choice Prod.fst [("argument", Source.argument), ("foreignCall", Source.foreignCall),
        ("tracker", Source.tracker)]).decode j |>.map Prod.snd

def Component.codec : Codec Component :=
  (start Component.mk
    |>.and (required "name" .text Component.name)
    |>.and (required "typeSpecificIndex" .uint64 Component.index)
    |>.and (required "rawType" .text Component.rawType)
    |>.and (optional "rawTypeTwo" .text Component.rawTypeTwo)
    |>.and (optional "foreignCallPlaceholder" .text Component.callText)
    |>.and (required "source" Source.codec Component.source)
    |>.and (required "pType" ValueType.codec Component.valueType)
    |>.and (optional "keyType" ValueType.codec Component.keyType)).codec

def Placeholder.codec : Codec Placeholder :=
  (start Placeholder.mk
    |>.and (required "pType" ValueType.codec Placeholder.valueType)
    |>.and (required "typeSpecificIndex" .uint64 Placeholder.index)
    |>.and (required "flags" .uint8 Placeholder.flags)
    |>.and (optional "mappedTrackerKey" ValueType.codec Placeholder.keyType)).codec

/-! ### Streams and effects -/

def RawEntry.codec : Codec RawEntry :=
  (start RawEntry.mk
    |>.and (required "instructionSetIndex" .position RawEntry.position)
    |>.and (required "argumentType" ValueType.codec RawEntry.valueType)
    |>.and (required "dataValue" .bytes RawEntry.data)).codec

def Stream.codec : Codec Stream :=
  (start Stream.mk
    |>.and (required "instructionSet" .words Stream.words)
    |>.and (required "rawData" RawEntry.codec.list Stream.rawData)).codec

/-- The name of an effect's type. -/
def EffectType.name : EffectType → String
  | revert => "revert"
  | event => "event"
  | expression => "expression"

def EffectType.codec : Codec EffectType :=
  .choice EffectType.name [.revert, .event, .expression]

namespace EventParameter

/-- The kinds of parameters, and how the value of each is read. -/
def kinds : List (String × (Json → Except DecodeError EventParameter)) :=
  [("address", fun j => (Codec.word.decode j).map address),
   ("uint256", fun j => (Codec.word.decode j).map uint256),
   ("text", fun j => (Codec.text.decode j).map text)]

/-- A parameter from its kind and its value. -/
def ofParts (kind value : Json) : Except DecodeError EventParameter := do
  let (_, read) ← (Codec.choice Prod.fst kinds).decode kind
  read value

/-- A parameter: its kind under `type`, its value under `value`. -/
def codec : Codec EventParameter where
  encode
    | address value => .object [("type", .string "address"), ("value", Codec.word.encode value)]
    | uint256 value => .object [("type", .string "uint256"), ("value", Codec.word.encode value)]
    | text value => .object [("type", .string "text"), ("value", .string value)]
  decode
    | .object entries =>
      match entries.find? fun entry => entry.1 == "type",
        entries.find? fun entry => entry.1 == "value" with
      | some (_, kind), some (_, value) => ofParts kind value
      | _, _ => .error .shape
    | .array [kind, value] => ofParts kind value
    | _ => .error .shape

end EventParameter

def Effect.codec : Codec Effect :=
  (start Effect.mk
    |>.and (required "effectType" EffectType.codec Effect.effectType)
    |>.and (required "text" .text Effect.text)
    |>.and (required "instructionSet" .words Effect.words)
    |>.and (required "rawData" RawEntry.codec.list Effect.rawData)
    |>.and (optional "pType" ValueType.codec Effect.valueType)
    |>.and (optional "parameterValue" EventParameter.codec Effect.parameter)).codec

/-! ### Rules -/

def RuleInput.codec : Codec RuleInput :=
  (start RuleInput.mk
    |>.and (required "condition" .text RuleInput.condition)
    |>.and (withDefault "positiveEffects" Codec.text.list [] RuleInput.positiveEffects)
    |>.and (withDefault "negativeEffects" Codec.text.list [] RuleInput.negativeEffects)
    |>.and (renamed "callingFunction" "callingFunctionEncodedArgs" .text
      RuleInput.callingFunction)).codec

def CompiledRule.codec : Codec CompiledRule :=
  (start CompiledRule.mk
    |>.and (required "instructionSet" .words CompiledRule.words)
    |>.and (required "rawData" RawEntry.codec.list CompiledRule.rawData)
    |>.and (required "placeHolders" Placeholder.codec.list CompiledRule.placeholders)
    |>.and (required "positiveEffects" Effect.codec.list CompiledRule.positiveEffects)
    |>.and (required "negativeEffects" Effect.codec.list CompiledRule.negativeEffects)
    |>.and (required "effectPlaceHolders" Placeholder.codec.list CompiledRule.effectPlaceholders)
    |>.and (required "placeholderNames" Codec.text.list CompiledRule.placeholderNames)
    |>.and (required "effectPlaceholderNames" Codec.text.list
      CompiledRule.effectPlaceholderNames)).codec

/-- The names of trackers by index, as an object with decimal keys. -/
def Codec.trackerNames : Codec (Table UInt64 String) :=
  .table (fun i => Numeral.decimal i.toNat) Codec.uint64OfKey .text

def DecompileInput.codec : Codec DecompileInput :=
  (start DecompileInput.mk
    |>.and (required "instructionSet" .words DecompileInput.words)
    |>.and (required "placeholderNames" Codec.text.list DecompileInput.placeholderNames)
    |>.and (withDefault "rawData" RawEntry.codec.list [] DecompileInput.rawData)
    |>.and (renamedWithDefault "positiveEffects" "posEffects" Effect.codec.list []
      DecompileInput.positiveEffects)
    |>.and (renamedWithDefault "negativeEffects" "negEffects" Effect.codec.list []
      DecompileInput.negativeEffects)
    |>.and (withDefault "effectPlaceholderNames" Codec.text.list []
      DecompileInput.effectPlaceholderNames)
    |>.and (withDefault "trackerNames" Codec.trackerNames .empty
      DecompileInput.trackerNames)).codec

def DecompiledRule.codec : Codec DecompiledRule :=
  (start DecompiledRule.mk
    |>.and (required "condition" .text DecompiledRule.condition)
    |>.and (required "positiveEffects" Codec.text.list DecompiledRule.positiveEffects)
    |>.and (required "negativeEffects" Codec.text.list DecompiledRule.negativeEffects)).codec

/-! ### Definitions -/

def TrackerDefinition.codec : Codec TrackerDefinition :=
  (start TrackerDefinition.mk
    |>.and (required "name" .text TrackerDefinition.name)
    |>.and (required "type" .text TrackerDefinition.type)
    |>.and (required "initialValue" .text TrackerDefinition.initialValue)).codec

def EncodedTracker.codec : Codec EncodedTracker :=
  (start EncodedTracker.mk
    |>.and (required "name" .text EncodedTracker.name)
    |>.and (required "pType" ValueType.codec EncodedTracker.valueType)
    |>.and (required "initialValue" .bytes EncodedTracker.initialValue)).codec

def MappedTrackerDefinition.codec : Codec MappedTrackerDefinition :=
  (start MappedTrackerDefinition.mk
    |>.and (required "name" .text MappedTrackerDefinition.name)
    |>.and (required "keyType" .text MappedTrackerDefinition.keyType)
    |>.and (required "valueType" .text MappedTrackerDefinition.valueType)
    |>.and (withDefault "initialKeys" Codec.text.list [] MappedTrackerDefinition.initialKeys)
    |>.and (withDefault "initialValues" Codec.text.list []
      MappedTrackerDefinition.initialValues)).codec

def EncodedMappedTracker.codec : Codec EncodedMappedTracker :=
  (start EncodedMappedTracker.mk
    |>.and (required "name" .text EncodedMappedTracker.name)
    |>.and (required "keyType" ValueType.codec EncodedMappedTracker.keyType)
    |>.and (required "valueType" ValueType.codec EncodedMappedTracker.valueType)
    |>.and (required "initialKeys" .bytesList EncodedMappedTracker.initialKeys)
    |>.and (required "initialValues" .bytesList EncodedMappedTracker.initialValues)).codec

def ValueSource.codec : Codec ValueSource :=
  Codec.uint8.via ValueSource.code (Codec.meaning ValueSource.ofCode)

def EncodedIndex.codec : Codec EncodedIndex :=
  (start EncodedIndex.mk
    |>.and (required "index" .uint64 EncodedIndex.index)
    |>.and (required "source" ValueSource.codec EncodedIndex.source)).codec

def ForeignCallDefinition.codec : Codec ForeignCallDefinition :=
  (start ForeignCallDefinition.mk
    |>.and (required "name" .text ForeignCallDefinition.name)
    |>.and (required "address" .text ForeignCallDefinition.address)
    |>.and (required "function" .text ForeignCallDefinition.function)
    |>.and (required "returnType" .text ForeignCallDefinition.returnType)
    |>.and (withDefault "valuesToPass" .text "" ForeignCallDefinition.valuesToPass)).codec

def EncodedForeignCall.codec : Codec EncodedForeignCall :=
  (start EncodedForeignCall.mk
    |>.and (required "name" .text EncodedForeignCall.name)
    |>.and (required "address" .word EncodedForeignCall.address)
    |>.and (required "signature" .text EncodedForeignCall.signature)
    |>.and (required "selector" .bytes EncodedForeignCall.selector)
    |>.and (required "parameterTypes" ValueType.codec.list EncodedForeignCall.parameterTypes)
    |>.and (required "returnType" ValueType.codec EncodedForeignCall.returnType)
    |>.and (required "encodedIndices" EncodedIndex.codec.list
      EncodedForeignCall.encodedIndices)).codec

end RuleCodec
