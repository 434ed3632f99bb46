/-
RuleCodec/Json.lean

JSON values.  A number that is written with a point or an exponent is kept apart from the integers,
whatever its value: where a record has an integer it must be written as one.
-/
import RuleCodec.Error

namespace RuleCodec

/-- A JSON value.  The entries of an object are in the order in which they are visited. -/
inductive Json
  | null
  | bool (value : Bool)
  | integer (value : Int)
  /-- A number that is not written as an integer: its digits, and the power of ten they count. -/
  | decimal (digits exponent : Int)
  | string (value : String)
  | array (items : List Json)
  | object (entries : List (String × Json))
  deriving Inhabited

/-- Why a JSON value is no record of the kind that is read. -/
inductive DecodeError
  /-- A part is missing, is there twice, or is of the wrong kind or size. -/
  | shape
  /-- A text is not the hexadecimal text of bytes. -/
  | hex (text : String)
  /-- A part of the right kind means nothing. -/
  | meaning (cause : Error)
  deriving DecidableEq, Repr

/-- The text of an error, where it has one of its own. -/
def DecodeError.message? : DecodeError → Option String
  | shape => none
  | hex text => some ("invalid hex string '" ++ text ++ "'")
  | meaning cause => some cause.message

end RuleCodec
