/-
RuleCodec/Instruction.lean

Instructions over an append-only memory.  Every instruction but a store writes the next slot of the
memory, and refers to earlier slots by their number.

An instruction is parametrised by what a literal holds and by how it refers to slots, placeholders
and trackers.  Before it has numbers, an instruction spreads out into symbolic items: its opcode
and its operands.
-/
import RuleCodec.Expr
import RuleCodec.Opcode

namespace RuleCodec

/-- One instruction. -/
inductive Instruction (Literal Ref : Type)
  | literal (value : Literal)
  | not (operand : Ref)
  | read (placeholder : Ref)
  | readMapped (placeholder key : Ref)
  | compute (op : Operation) (left right : Ref)
  | store (tracker value spare : Ref)
  | storeMapped (tracker value key : Ref)
  deriving DecidableEq, Repr

/-- What an instruction does. -/
def Instruction.opcode {Literal Ref : Type} : Instruction Literal Ref → Opcode
  | literal _ => .literal
  | not _ => .not
  | read _ => .read
  | readMapped .. => .readMapped
  | compute op _ _ => .compute op
  | store .. => .store
  | storeMapped .. => .storeMapped

/-- A value as it is written in a rule. -/
inductive Operand
  | number (value : Word)
  | address (value : Word)
  | text (value : String)
  | bytes (value : Bytes)
  | boolean (value : Bool)
  deriving DecidableEq, Repr

/-- One item of a symbolic instruction list. -/
inductive Item
  | opcode (op : Opcode)
  | operand (value : Operand)
  deriving DecidableEq, Repr

/-- The text of an item. -/
def Item.render : Item → String
  | opcode op => op.symbol
  | operand (.number value) => String.ofList value.toDecimal
  | operand (.address value) => String.ofList value.toAddress
  | operand (.text value) => String.ofList (spellText value.toList)
  | operand (.bytes value) => String.ofList value.toHex
  | operand (.boolean value) => if value then "true" else "false"

/-- A slot, placeholder or tracker number as an item. -/
def Item.ofNat (n : Nat) : Item :=
  operand (.number (BitVec.ofNat 256 n))

/-- The operands of an instruction. -/
def Instruction.operands : Instruction Operand Nat → List Item
  | literal value => [.operand value]
  | not operand => [.ofNat operand]
  | read placeholder => [.ofNat placeholder]
  | readMapped placeholder key => [.ofNat placeholder, .ofNat key]
  | compute _ left right => [.ofNat left, .ofNat right]
  | store tracker value spare => [.ofNat tracker, .ofNat value, .ofNat spare]
  | storeMapped tracker value key => [.ofNat tracker, .ofNat value, .ofNat key]

/-- The items of an instruction. -/
def Instruction.items (i : Instruction Operand Nat) : List Item :=
  .opcode i.opcode :: i.operands

end RuleCodec
