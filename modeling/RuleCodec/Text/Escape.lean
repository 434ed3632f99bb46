/-
RuleCodec/Text/Escape.lean

What may stand behind a backslash in a quoted text: a letter that stands for a character, or the
code point of a character in hexadecimal.
-/
import RuleCodec.Numeral

namespace RuleCodec.Text

/-- The character with a code point.  The surrogates have none. -/
def charOfCode? (n : Nat) : Option Char :=
  if n < 0xD800 ∨ (0xE000 ≤ n ∧ n < 0x110000) then some (Char.ofNat n) else none

/-- The character with a code point that hexadecimal digits give. -/
def charOfHex? (digits : List Char) : Option Char :=
  (Numeral.read? 16 digits).bind charOfCode?

/-- The character that an escape of one letter stands for. -/
def escape? (c : Char) : Option Char :=
  if c = 'b' then some '\x08'
  else if c = 't' then some '\t'
  else if c = 'n' then some '\n'
  else if c = 'f' then some '\x0c'
  else if c = 'r' then some '\r'
  else if c = '"' ∨ c = '\\' then some c
  else none

end RuleCodec.Text
