/-
RuleCodec/Text/Quoted.lean

A text between double quotes, with every character that could mislead a reader written as an
escape: the quote and the backslash themselves, controls, characters without a visible form,
characters that a display may leave out and marks that would attach to their neighbour.
Messages show texts of unknown content this way.
-/
import RuleCodec.Numeral
import RuleCodec.Text.Combining
import RuleCodec.Text.Ignorable
import RuleCodec.Text.Unprintable

namespace RuleCodec.Text

/-- One character as it stands between the quotes. -/
def escapeChar (c : Char) : List Char :=
  if c = '\x00' then ['\\', '0']
  else if c = '\t' then ['\\', 't']
  else if c = '\r' then ['\\', 'r']
  else if c = '\n' then ['\\', 'n']
  else if c = '\\' ∨ c = '"' then ['\\', c]
  else if isCombining c || isIgnorable c || isUnprintable c then
    ['\\', 'u', '\x7b'] ++ Numeral.write 16 c.toNat ++ ['\x7d']
  else [c]

/-- A text between double quotes, escaped. -/
def quoted (cs : List Char) : List Char :=
  '"' :: cs.flatMap escapeChar ++ ['"']

end RuleCodec.Text
