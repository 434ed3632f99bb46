/-
RuleCodec/Effect/Compile.lean

Compiling the effects of a rule, and reading them back.

All effects of a rule share one component catalog and one placeholder catalog.  Every expression is
resolved before any is encoded, so the component catalog is complete when the first placeholder is
entered.
-/
import RuleCodec.Effect
import RuleCodec.Expr.Normal
import RuleCodec.Stream.Replay

namespace RuleCodec

/-- A clause, with its expression resolved if it is one. -/
inductive Draft
  | done (effect : Effect)
  | expression (source : String) (resolved : Expr)

/-- The effects of a rule and the catalogs they share. -/
structure Effects where
  positive : List Effect
  negative : List Effect
  catalog : Catalog
  placeholders : Placeholders

namespace Effects

/-- Resolves the expressions among clauses into a catalog. -/
def resolveAll (scope : Scope) (catalog : Catalog) :
    List Clause → Except Error (List Draft × Catalog)
  | [] => .ok ([], catalog)
  | .revert message :: rest => do
    let (drafts, catalog) ← resolveAll scope catalog rest
    return (.done ⟨.revert, message, [], [], none, none⟩ :: drafts, catalog)
  | .event name parameter :: rest => do
    let (drafts, catalog) ← resolveAll scope catalog rest
    let valueType := parameter.map EventParameter.valueType
    return (.done ⟨.event, name, [], [], valueType, parameter⟩ :: drafts, catalog)
  | .expression source :: rest => do
    let e ← Expr.parse source
    match scope.resolveInto catalog e with
    | (_, .error e) => .error e
    | (catalog, .ok resolved) =>
      let (drafts, catalog) ← resolveAll scope catalog rest
      return (.expression source resolved :: drafts, catalog)

/-- Encodes the expressions among drafts, with shared placeholders. -/
def encodeAll (registry : Registry) (catalog : Catalog) (placeholders : Placeholders) :
    List Draft → Except Error (List Effect × Placeholders)
  | [] => .ok ([], placeholders)
  | .done effect :: rest => do
    let (effects, placeholders) ← encodeAll registry catalog placeholders rest
    return (effect :: effects, placeholders)
  | .expression source resolved :: rest =>
    match resolved.encode catalog placeholders with
    | (.error e, _) => .error e
    | (.ok instructions, placeholders) => do
      let stream ← Stream.ofItems registry (instructions.flatMap Instruction.items)
      let text ← Expr.normalize source
      let (effects, placeholders) ← encodeAll registry catalog placeholders rest
      return (⟨.expression, text, stream.words, stream.rawData, none, none⟩ :: effects,
        placeholders)

/-- Compiles the clauses of a rule. -/
def compile (scope : Scope) (registry : Registry) (positive negative : List String) :
    Except Error Effects := do
  let positive ← positive.mapM Clause.parse
  let negative ← negative.mapM Clause.parse
  let (drafts, catalog) ← resolveAll scope .empty (positive ++ negative)
  let (effects, placeholders) ← encodeAll registry catalog .empty drafts
  return ⟨effects.take positive.length, effects.drop positive.length, catalog, placeholders⟩

end Effects

/-- The clause that an effect stands for.  The replay brings the names; the raw data is the
effect's own. -/
def Effect.render (effect : Effect) (registry : Registry) (placeholderNames : List String)
    (trackerNames : Table UInt64 String) : Except Error String :=
  match effect.effectType with
  | .revert =>
    .ok (if effect.text.isEmpty then "revert" else "revert(\"" ++ effect.text ++ "\")")
  | .event =>
    match effect.parameter with
    | some parameter => .ok ("emit " ++ effect.text ++ ", " ++ parameter.render)
    | none => .ok ("emit " ++ effect.text)
  | .expression =>
    Replay.run ⟨registry, placeholderNames, effect.rawData, trackerNames⟩ effect.words

end RuleCodec
