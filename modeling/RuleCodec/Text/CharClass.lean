/-
RuleCodec/Text/CharClass.lean

The character classes that words and numerals of the rule language are made of.
-/
import RuleCodec.Text.Alphabetic
import RuleCodec.Text.Numeric

namespace RuleCodec.Text

/-- Whether a character is alphabetic or a number of any script. -/
def isAlphanumeric (c : Char) : Bool :=
  isAlphabetic c || isNumeric c

/-- Whether a word may begin with the character. -/
def isWordStart (c : Char) : Bool :=
  isAlphabetic c || c == '_'

/-- Whether a word may go on with the character. -/
def isWordPart (c : Char) : Bool :=
  isAlphanumeric c || c == '_'

/-- One of the ten decimal digits. -/
def isDecimalDigit (c : Char) : Bool :=
  decide ('0' ≤ c) && decide (c ≤ '9')

/-- One of the sixteen hexadecimal digits, in either case. -/
def isHexDigit (c : Char) : Bool :=
  isDecimalDigit c || (decide ('a' ≤ c) && decide (c ≤ 'f')) ||
    (decide ('A' ≤ c) && decide (c ≤ 'F'))

end RuleCodec.Text
