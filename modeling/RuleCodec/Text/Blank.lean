/-
RuleCodec/Text/Blank.lean

Blank space: the Unicode property `White_Space`.  It separates tokens and is trimmed from the ends
of texts.  A zero-width space and a byte order mark are not in it.
-/
import RuleCodec.Text.CodeRanges

namespace RuleCodec.Text

/-- Code points with the property `White_Space`. -/
def blankRanges : CodeRanges :=
  [(0x9, 0xd), (0x20, 0x20), (0x85, 0x85), (0xa0, 0xa0), (0x1680, 0x1680), (0x2000, 0x200a),
   (0x2028, 0x2029), (0x202f, 0x202f), (0x205f, 0x205f), (0x3000, 0x3000)]

/-- Whether a character is blank space. -/
def isBlank (c : Char) : Bool :=
  blankRanges.holds c

end RuleCodec.Text
