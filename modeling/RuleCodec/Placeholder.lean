/-
RuleCodec/Placeholder.lean

Placeholders: the values that the runtime supplies to a stream.  A catalog holds one placeholder
for each pair of index and flags, in the order of first use, with the name it is displayed under.
-/
import RuleCodec.Component

namespace RuleCodec

/-- A value that the runtime supplies. -/
structure Placeholder where
  valueType : ValueType
  index : UInt64
  flags : UInt8
  /-- The type of the keys of a mapped tracker. -/
  keyType : Option ValueType
  deriving DecidableEq, Repr

/-- The placeholder of a component. -/
def Component.placeholder (c : Component) : Placeholder where
  valueType := c.valueType
  index := c.index
  flags := c.source.flags
  keyType := c.keyType

/-- Placeholders and their names, by index and flags, in the order of first use. -/
abbrev Placeholders := Table (UInt64 × UInt8) (Placeholder × String)

namespace Placeholders

/-- The place of a component's placeholder, which is entered at the end if it is new. -/
def intern (placeholders : Placeholders) (c : Component) : Nat × Placeholders :=
  let key := (c.placeholder.index, c.placeholder.flags)
  match placeholders.indexOf? key with
  | some i => (i, placeholders)
  | none => (placeholders.size, placeholders.insert key (c.placeholder, c.displayName))

/-- The placeholders in order. -/
def items (placeholders : Placeholders) : List Placeholder :=
  placeholders.values.map Prod.fst

/-- The names of the placeholders in order. -/
def names (placeholders : Placeholders) : List String :=
  placeholders.values.map Prod.snd

end Placeholders

end RuleCodec
