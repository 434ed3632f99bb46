/-
RuleCodec/Stream.lean

Streams: instructions as words.  An opcode becomes its number; a boolean becomes 0 or 1; a text or
a byte string becomes a hash, and what it was is kept on the side as raw data, as is the spelling
of an address.

Nothing here depends on which hash it is, so the hash is a parameter.  The streams of rules are
hashed with Keccak.
-/
import RuleCodec.Abi
import RuleCodec.Instruction
import RuleCodec.Text.Utf8

namespace RuleCodec

/-- What a word of a stream was, by the position of the word. -/
structure RawEntry where
  position : Nat
  valueType : ValueType
  data : Bytes
  deriving DecidableEq, Repr

/-- Words, and what some of them were. -/
structure Stream where
  words : List Word
  rawData : List RawEntry
  deriving DecidableEq, Repr

namespace Operand

/-- The word of a value. -/
def word (hash : Bytes → Bytes) : Operand → Word
  | number value => value
  | address value => value
  | text value => Abi.surrogate hash (Text.Utf8.encode value.toList)
  | bytes value => Abi.surrogate hash value
  | boolean value => BitVec.ofNat 256 (if value then 1 else 0)

/-- What is kept of a value on the side. -/
def raw? : Operand → Option (ValueType × Bytes)
  | number _ => none
  | address value => some (.address, value.addressBytes)
  | text value => some (.string, Text.Utf8.encode value.toList)
  | bytes value => some (.bytes, value)
  | boolean _ => none

end Operand

namespace Item

/-- The word of an item. -/
def word (hash : Bytes → Bytes) (registry : Registry) : Item → Except Error Word
  | opcode op => (registry.code op).map fun code => BitVec.ofNat 256 code.toNat
  | operand value => .ok (value.word hash)

/-- What is kept of an item on the side. -/
def raw? : Item → Option (ValueType × Bytes)
  | opcode _ => none
  | operand value => value.raw?

end Item

namespace Stream

/-- The stream of symbolic items, under a hash.  It fails at the first opcode that has no number. -/
def ofItemsWith (hash : Bytes → Bytes) (registry : Registry) (items : List Item) :
    Except Error Stream := do
  let words ← items.mapM (Item.word hash registry)
  let rawData := items.zipIdx.filterMap fun entry =>
    entry.1.raw?.map fun raw => ⟨entry.2, raw.1, raw.2⟩
  return ⟨words, rawData⟩

/-- The stream of symbolic items as it stands in a rule. -/
def ofItems (registry : Registry) (items : List Item) : Except Error Stream :=
  ofItemsWith Keccak.hash registry items

end Stream

end RuleCodec
