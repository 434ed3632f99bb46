/-
RuleCodec/Config/Text.lean

Reading a configuration.  It may name a registry, or number the opcodes itself, and it may say what
becomes of unknown names.  Whatever it says must be of the right form before its meaning is looked
at.
-/
import RuleCodec.Config
import RuleCodec.Config.Settings

namespace RuleCodec.Config

/-- The setting below a key. -/
def setting? (settings : List (String × Setting)) (key : String) : Option Setting :=
  (settings.find? fun entry => entry.1 == key).map Prod.snd

/-- A value that holds nothing: an empty section or an empty list. -/
def Setting.isEmpty : Setting → Bool
  | .section [] => true
  | .emptyList => true
  | _ => false

/-- One of several named choices: the name as a text, or as the only key of a section, with
nothing below it. -/
def choice? {α : Type} (choices : List (String × α)) : Setting → Option α
  | .text name => (choices.find? fun choice => choice.1 == name).map Prod.snd
  | .section [(name, below)] =>
    if below.isEmpty then (choices.find? fun choice => choice.1 == name).map Prod.snd else none
  | _ => none

/-- A number that fits 64 bits and is not negative. -/
def code? : Setting → Option UInt64
  | .integer n => if 0 ≤ n then some (UInt64.ofNat n.toNat) else none
  | _ => none

/-- A section of opcodes and their numbers. -/
def opcodes? : Setting → Option (List (String × UInt64))
  | .section entries => entries.mapM fun entry => (code? entry.2).map fun code => (entry.1, code)
  | _ => none

/-- What a configuration says. -/
structure Statement where
  registry : Option Registry
  policy : Option UnresolvedPolicy
  opcodes : Option (List (String × UInt64))

/-- The reading of an optional setting: absent is fine, a wrong form is not. -/
def optional? {α : Type} (read : Setting → Option α) : Option Setting → Option (Option α)
  | none => some none
  | some setting => (read setting).map some

/-- What settings say, if they are all known and of the right form. -/
def statement? (settings : List (String × Setting)) : Option Statement := do
  unless settings.all fun entry =>
      ["registry", "unresolved_symbols", "opcodes"].contains entry.1 do none
  return {
    registry := ← optional? (choice? [("current", Registry.current), ("legacy", Registry.legacy)])
      (setting? settings "registry")
    policy := ← optional? (choice? [("error", .error), ("index-zero", .indexZero)])
      (setting? settings "unresolved_symbols")
    opcodes := ← optional? opcodes? (setting? settings "opcodes") }

/-- The configuration that a text gives. -/
def parse (source : String) : Except Error Config := do
  match (settings? source).bind statement? with
  | none => .error (.config .unreadable)
  | some statement =>
    let registry ←
      match statement.opcodes, statement.registry with
      | some _, some _ => throw (.config .registryAndOpcodes)
      | some opcodes, none => Registry.ofTable (Table.ofList opcodes)
      | none, some registry => pure registry
      | none, none => pure Registry.current
    return ⟨registry, statement.policy.getD .error⟩

end RuleCodec.Config
