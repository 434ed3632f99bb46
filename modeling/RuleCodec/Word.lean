/-
RuleCodec/Word.lean

256-bit words, the unit of an instruction stream, with their decimal and hexadecimal texts.
-/
import RuleCodec.Bytes
import RuleCodec.Text.Split

namespace RuleCodec

/-- A 256-bit word. -/
abbrev Word := BitVec 256

namespace Word

/-- How many words there are. -/
def size : Nat := Nat.pow 2 256

/-- The word of a number, if the number fits. -/
def ofNat? (n : Nat) : Option Word :=
  if n < size then some (BitVec.ofNat 256 n) else none

/-- Decimal digits that fit a word; no digits read as zero. -/
def ofDecimal? (cs : List Char) : Option Word :=
  (Numeral.read? 10 cs).bind ofNat?

/-- At most sixty-four hexadecimal digits, behind one `0x` or none; no digits read as zero. -/
def ofHex? (cs : List Char) : Option Word :=
  let digits := (Text.stripStart? ['0', 'x'] cs).getD cs
  if digits.length ≤ 64 then (Numeral.read? 16 digits).bind ofNat? else none

/-- The decimal text of a word. -/
def toDecimal (w : Word) : List Char :=
  Numeral.write 10 w.toNat

/-- The hexadecimal text of a word: `0x` and the fewest digits. -/
def toHex (w : Word) : List Char :=
  '0' :: 'x' :: Numeral.write 16 w.toNat

/-- The thirty-two bytes of a word. -/
def toBytes (w : Word) : Bytes :=
  Bytes.ofNat 32 w.toNat

/-- The word of big-endian bytes; of more than thirty-two the last ones count. -/
def ofBytes (bytes : Bytes) : Word :=
  BitVec.ofNat 256 bytes.toNat

/-- The low 64 bits. -/
def low64 (w : Word) : UInt64 :=
  UInt64.ofNat w.toNat

/-- The word as an index, if it fits 64 bits. -/
def index? (w : Word) : Option Nat :=
  if w.toNat < UInt64.size then some w.toNat else none

/-! ### Addresses -/

/-- The twenty low bytes of a word. -/
def addressBytes (w : Word) : Bytes :=
  Bytes.ofNat 20 w.toNat

/-- The text of an address: the twenty low bytes of its word. -/
def toAddress (w : Word) : List Char :=
  (addressBytes w).toHex

/-- An address: `0x` and forty hexadecimal digits. -/
def ofAddress? (cs : List Char) : Option Word :=
  match Text.stripStart? ['0', 'x'] cs with
  | some digits => if digits.length = 40 then (Numeral.read? 16 digits).bind ofNat? else none
  | none => none

end Word

end RuleCodec
