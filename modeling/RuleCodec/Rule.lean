/-
RuleCodec/Rule.lean

Rules: a condition and the effects of its holding and failing.  Compiling turns the texts of a rule
into streams; decompiling turns streams back into texts.
-/
import RuleCodec.Config
import RuleCodec.Effect.Compile

namespace RuleCodec

/-- A rule as it is written. -/
structure RuleInput where
  condition : String
  positiveEffects : List String
  negativeEffects : List String
  callingFunction : String
  deriving DecidableEq, Repr

/-- A rule as it is stored. -/
structure CompiledRule where
  words : List Word
  rawData : List RawEntry
  placeholders : List Placeholder
  positiveEffects : List Effect
  negativeEffects : List Effect
  effectPlaceholders : List Placeholder
  placeholderNames : List String
  effectPlaceholderNames : List String
  deriving DecidableEq, Repr

/-- A stored rule with the names it is read back with. -/
structure DecompileInput where
  words : List Word
  placeholderNames : List String
  rawData : List RawEntry
  positiveEffects : List Effect
  negativeEffects : List Effect
  effectPlaceholderNames : List String
  trackerNames : Table UInt64 String
  deriving DecidableEq

/-- A rule read back. -/
structure DecompiledRule where
  condition : String
  positiveEffects : List String
  negativeEffects : List String
  deriving DecidableEq, Repr

/-- A condition as instructions, with its catalogs. -/
structure EncodedCondition where
  instructions : List (Instruction Operand Nat)
  catalog : Catalog
  placeholders : Placeholders

/-- The symbolic items of a condition. -/
def EncodedCondition.items (c : EncodedCondition) : List Item :=
  c.instructions.flatMap Instruction.items

/-- What a compiled rule is read back from. -/
def DecompileInput.ofCompiled (rule : CompiledRule) (trackerNames : Table UInt64 String) :
    DecompileInput where
  words := rule.words
  placeholderNames := rule.placeholderNames
  rawData := rule.rawData
  positiveEffects := rule.positiveEffects
  negativeEffects := rule.negativeEffects
  effectPlaceholderNames := rule.effectPlaceholderNames
  trackerNames := trackerNames

/-- Encodes a condition in a scope. -/
def Scope.encodeCondition (scope : Scope) (condition : String) : Except Error EncodedCondition := do
  let e ← Expr.parse condition
  let (resolved, catalog) ← scope.resolve e
  match resolved.encode catalog .empty with
  | (.error e, _) => .error e
  | (.ok instructions, placeholders) => return ⟨instructions, catalog, placeholders⟩

namespace Config

/-- Encodes a condition for a calling function. -/
def encodeCondition (config : Config) (condition callingFunction : String)
    (tables : SymbolTables) : Except Error EncodedCondition := do
  let function ← CallingFunction.parse callingFunction
  Scope.encodeCondition ⟨function, tables, config.policy⟩ condition

/-- Compiles a rule: the condition first, then the effects with catalogs of their own. -/
def compile (config : Config) (tables : SymbolTables) (rule : RuleInput) :
    Except Error CompiledRule := do
  let function ← CallingFunction.parse rule.callingFunction
  let scope : Scope := ⟨function, tables, config.policy⟩
  let condition ← scope.encodeCondition rule.condition
  let stream ← Stream.ofItems config.registry condition.items
  let effects ←
    Effects.compile scope config.registry rule.positiveEffects rule.negativeEffects
  return {
    words := stream.words
    rawData := stream.rawData
    placeholders := condition.placeholders.items
    positiveEffects := effects.positive
    negativeEffects := effects.negative
    effectPlaceholders := effects.placeholders.items
    placeholderNames := condition.placeholders.names
    effectPlaceholderNames := effects.placeholders.names }

/-- Reads a rule back. -/
def decompile (config : Config) (input : DecompileInput) : Except Error DecompiledRule := do
  let condition ←
    Replay.run ⟨config.registry, input.placeholderNames, input.rawData, input.trackerNames⟩
      input.words
  let render (effect : Effect) :=
    effect.render config.registry input.effectPlaceholderNames input.trackerNames
  return ⟨condition, ← input.positiveEffects.mapM render, ← input.negativeEffects.mapM render⟩

end Config

end RuleCodec
