/-
RuleCodec/Abi.lean

The layout of values as words: a static value is one word; a string or a byte string is a length
word and its bytes, filled up with zeros to whole words; an array is a count and its items, those
of varying length behind a list of offsets.  A value that is not static stands behind the offset
word 32.
-/
import RuleCodec.Keccak
import RuleCodec.Word

namespace RuleCodec.Abi

/-- A number as one word. -/
def natWord (n : Nat) : Bytes :=
  Word.toBytes (BitVec.ofNat 256 n)

/-- A boolean as one word. -/
def boolWord (b : Bool) : Bytes :=
  natWord (if b then 1 else 0)

/-- The zeros that fill up a byte string to whole words. -/
def fill (length : Nat) : Bytes :=
  List.replicate ((32 - length % 32) % 32) 0

/-- A length word, the bytes and the zeros behind them. -/
def tail (data : Bytes) : Bytes :=
  natWord data.length ++ data ++ fill data.length

/-- A string or byte string. -/
def dynamic (data : Bytes) : Bytes :=
  natWord 32 ++ tail data

/-- An array of items that are laid out already. -/
def staticArray (items : List Bytes) : Bytes :=
  natWord 32 ++ natWord items.length ++ items.flatten

/-- The offsets of consecutive items, the first at `start`. -/
def offsets (start : Nat) : List Bytes → List Nat
  | [] => []
  | item :: rest => start :: offsets (start + item.length) rest

/-- An array of byte strings.  Offsets count from the first offset word. -/
def dynamicArray (items : List Bytes) : Bytes :=
  let tails := items.map tail
  natWord 32 ++ natWord items.length ++ (offsets (32 * items.length) tails).flatMap natWord ++
    tails.flatten

/-- The word that stands for a string or byte string in a stream: the hash of its layout. -/
def surrogate (hash : Bytes → Bytes) (data : Bytes) : Word :=
  Word.ofBytes (hash (dynamic data))

/-- The word that stands for a string or byte string where streams are hashed with Keccak. -/
def literalHash (data : Bytes) : Word :=
  surrogate Keccak.hash data

/-- The first four bytes of the hash of a function's signature. -/
def selector (signature : Bytes) : Bytes :=
  (Keccak.hash signature).take 4

end RuleCodec.Abi
