/-
RuleCodec/Instruction/Encode.lean

Encoding a resolved expression as instructions.

Design.  Operands come before the operator that consumes them.  The code of an expression, begun at
a slot, writes a run of slots from there on and leaves the value in the last of them, so what comes
next begins at the slot after it.  An update reads its tracker, computes and stores; the store
writes no slot, and the value of the update is the value stored.

Placeholders are entered into a shared catalog as they are met, and stay there if the encoding
fails later.
-/
import RuleCodec.Instruction
import RuleCodec.Placeholder

namespace RuleCodec

/-- An encoding in progress: it may fail, and it enters placeholders, which stay. -/
abbrev Encoder := ExceptT Error (StateM Placeholders)

/-- Instructions that end in a value, and the slot that holds it. -/
structure Code where
  instructions : List (Instruction Operand Nat)
  slot : Nat

namespace Encoder

/-- Enters the placeholder of a component. -/
def intern (c : Component) : Encoder Nat :=
  modifyGet fun placeholders => placeholders.intern c

/-- Looks a reference up. -/
def component (catalog : Catalog) (symbol : Symbol) (missing : Error) : Encoder Component :=
  match catalog.get? symbol with
  | some c => pure c
  | none => throw missing

/-- Looks a tracker up by its name. -/
def tracker (catalog : Catalog) (name : String) : Encoder Component :=
  component catalog (.tracker name) (.unresolved ("TR:" ++ name) .tracker)

/-- Reads a placeholder that takes no key. -/
def read (catalog : Catalog) (symbol : Symbol) (text : List Char) (kind : SymbolKind)
    (slot : Nat) : Encoder Code := do
  let c ← component catalog symbol (.unresolved (String.ofList text) kind)
  match c.keyType with
  | some keyType => throw (.invalid (.needsKey c.name keyType))
  | none =>
    let placeholder ← intern c
    return ⟨[.read placeholder], slot⟩

/-- The tracker that an update stores into.  Updates do not nest, and a key must stand where the
tracker is mapped and nowhere else. -/
def target (catalog : Catalog) (outer : Option String) (name : String) (keyed : Bool) :
    Encoder Component := do
  match outer with
  | some around => throw (.invalid (.nestedUpdate name around))
  | none =>
    let c ← tracker catalog name
    if c.keyType.isSome = keyed then return c else throw (.invalid (.keyShape c.name))

/-- The code of an expression, begun at a slot, inside the update of a tracker or of none. -/
def expression (catalog : Catalog) (outer : Option String) (slot : Nat) : Expr → Encoder Code
  | .number value => return ⟨[.literal (.number value)], slot⟩
  | .address value => return ⟨[.literal (.address value)], slot⟩
  | .text value => return ⟨[.literal (.text value)], slot⟩
  | .bytes value => return ⟨[.literal (.bytes value)], slot⟩
  | .boolean value => return ⟨[.literal (.boolean value)], slot⟩
  | .identifier name => throw (.unresolved name .argument)
  | .argument name => read catalog (.argument name) (Expr.argument name).spell .argument slot
  | .tracker ref => read catalog (.tracker ref.name) (Expr.tracker ref).spell .tracker slot
  | .foreignCall name arguments =>
    read catalog (.foreignCall name) (Expr.foreignCall name arguments).spell .foreignCall slot
  | .global which => read catalog (.global which) (Expr.global which).spell .globalVariable slot
  | .mapped ref key => do
    let key ← expression catalog outer slot key
    let c ← tracker catalog ref.name
    if c.keyType.isNone then throw (.invalid (.notMapped c.name))
    let placeholder ← intern c
    return ⟨key.instructions ++ [.readMapped placeholder key.slot], key.slot + 1⟩
  | .not operand => do
    let operand ← expression catalog outer slot operand
    return ⟨operand.instructions ++ [.not operand.slot], operand.slot + 1⟩
  | .binary op left right =>
    if op.isUpdate then
      match left with
      | .tracker ref => do
        let c ← target catalog outer ref.name false
        let placeholder ← intern c
        let value ← expression catalog (some ref.name) (slot + 1) right
        return ⟨.read placeholder :: value.instructions ++
          [.compute op.operation slot value.slot,
            .store c.index.toNat (value.slot + 1) 0], value.slot + 1⟩
      | .mapped ref key => do
        let c ← target catalog outer ref.name true
        let key ← expression catalog (some ref.name) slot key
        let placeholder ← intern c
        let value ← expression catalog (some ref.name) (key.slot + 2) right
        return ⟨key.instructions ++ .readMapped placeholder key.slot :: value.instructions ++
          [.compute op.operation (key.slot + 1) value.slot,
            .storeMapped c.index.toNat (value.slot + 1) key.slot], value.slot + 1⟩
      | other => throw (.invalid (.notAssignable other.render))
    else do
      let left ← expression catalog outer slot left
      let right ← expression catalog outer (left.slot + 1) right
      return ⟨left.instructions ++ right.instructions ++
        [.compute op.operation left.slot right.slot], right.slot + 1⟩

end Encoder

/-- The instructions of a resolved expression, with the placeholders it needs added to those given.
Placeholders entered before an error stay entered. -/
def Expr.encode (catalog : Catalog) (placeholders : Placeholders) (e : Expr) :
    Except Error (List (Instruction Operand Nat)) × Placeholders :=
  let (result, placeholders) := Encoder.expression catalog none 0 e placeholders
  (result.map Code.instructions, placeholders)

end RuleCodec
