/-
RuleCodec/Error.lean

Everything that can be wrong with a rule, a definition, a stream or a configuration.  Each error is
a cause with the data that shows it; the wording is in `Error.message` and nowhere else.
-/
import RuleCodec.Token
import RuleCodec.ValueType

namespace RuleCodec

/-- What kind of symbol could not be resolved. -/
inductive SymbolKind
  | argument
  | tracker
  | foreignCall
  | globalVariable
  deriving DecidableEq, Repr

/-- The kind as messages name it. -/
def SymbolKind.label : SymbolKind → String
  | argument => "calling function argument"
  | tracker => "tracker"
  | foreignCall => "foreign call"
  | globalVariable => "global variable"

/-- Why characters form no token. -/
inductive LexicalFault
  | badNumber (digits : String)
  | numberTooLarge (digits : String)
  | badHex
  | oddHex
  | missingName (marker : String)
  | unknownReference (marker : String)
  deriving DecidableEq, Repr

def LexicalFault.message : LexicalFault → String
  | badNumber digits => "Invalid number literal starting with '" ++ digits ++ "'"
  | numberTooLarge digits => "Number literal '" ++ digits ++ "' exceeds 256 bits"
  | badHex => "Invalid hex literal"
  | oddHex => "Hex literal must have an even number of digits"
  | missingName marker => "Expected a name after '" ++ marker ++ ":'"
  | unknownReference marker => "Unknown reference prefix '" ++ marker ++ ":'"

/-- Why a text is not of the form it should have. -/
inductive MalformedFault
  | emptyExpression
  | unexpectedToken (found : Token)
  | expectedOperand (found : Token)
  | expectedTracker (found : Token)
  | expectedSeparator (found : Token)
  | unclosedArguments (name : String)
  | unbalanced (opened : Nat) (found : Token)
  | unmatchedClose
  | unmatchedOpen
  | signature (text : String)
  | revertForm (clause : String)
  | unnamedEvent (clause : String)
  | valueCount (function : String) (parameters values : Nat)
  deriving DecidableEq, Repr

def MalformedFault.message : MalformedFault → String
  | emptyExpression => "empty expression"
  | unexpectedToken found => "unexpected " ++ found.describe
  | expectedOperand found => "expected an operand, found " ++ found.describe
  | expectedTracker found => "expected a tracker after '|', found " ++ found.describe
  | expectedSeparator found => "expected ',' or ')', found " ++ found.describe
  | unclosedArguments name => "unclosed argument list of FC:" ++ name
  | unbalanced opened found =>
    "unbalanced parenthesis opened at position " ++ Numeral.decimal opened ++ ", found " ++
      found.describe
  | unmatchedClose => "unmatched ')'"
  | unmatchedOpen => "unmatched '('"
  | signature text => text
  | revertForm clause => "expected revert(\"message\"), found '" ++ clause ++ "'"
  | unnamedEvent clause => "event without a name: '" ++ clause ++ "'"
  | valueCount function parameters values =>
    function ++ " takes " ++ Numeral.decimal parameters ++ " parameters but " ++
      Numeral.decimal values ++ " values are passed"

/-- Why a well-formed expression has no encoding. -/
inductive InvalidFault
  | needsKey (component : String) (keyType : ValueType)
  | notMapped (tracker : String)
  | notAssignable (target : String)
  | nestedUpdate (inner outer : String)
  | keyShape (component : String)
  deriving DecidableEq, Repr

def InvalidFault.message : InvalidFault → String
  | needsKey component keyType =>
    "mapped tracker '" ++ component ++ "' needs a " ++ keyType.name ++ " key"
  | notMapped tracker => "tracker '" ++ tracker ++ "' is not mapped"
  | notAssignable target => "cannot assign to '" ++ target ++ "'"
  | nestedUpdate inner outer =>
    "update of TRU:" ++ inner ++ " nested inside update of TRU:" ++ outer
  | keyShape component => "update of '" ++ component ++ "' does not match its key shape"

/-- What is wrong with a configuration, or with a number that stands for a choice. -/
inductive ConfigFault
  | unreadable
  | registryAndOpcodes
  | unknownSymbol (symbol : String)
  | codeClash (code : UInt64) (first second : String)
  | unavailable (symbol : String)
  | unknownValueSource (code : UInt8)
  deriving DecidableEq, Repr

def ConfigFault.message : ConfigFault → String
  | unreadable => "unreadable configuration"
  | registryAndOpcodes => "'registry' and '[opcodes]' are mutually exclusive"
  | unknownSymbol symbol => "unknown opcode symbol '" ++ symbol ++ "'"
  | codeClash code first second =>
    "opcode code " ++ Numeral.decimal code.toNat ++ " assigned to both '" ++ first ++ "' and '" ++
      second ++ "'"
  | unavailable symbol => "opcode '" ++ symbol ++ "' is not available in this registry"
  | unknownValueSource code => "unknown value source " ++ Numeral.decimal code.toNat

/-- Everything that can go wrong. -/
inductive Error
  | lexical (fault : LexicalFault) (position : Nat)
  | unexpectedCharacter (found : Char) (position : Nat)
  | unterminatedText (position : Nat)
  | malformed (fault : MalformedFault) (position : Nat)
  | invalid (fault : InvalidFault)
  | unresolved (name : String) (kind : SymbolKind)
  | unsupportedType (text : String)
  | invalidDefault (value expected : String)
  | unknownOpcode (code : UInt64) (position : Nat)
  | missingOperand (position : Nat)
  | invalidSlot (slot : UInt64) (position : Nat)
  | missingPlaceholderName (index : UInt64)
  | config (fault : ConfigFault)
  deriving DecidableEq, Repr

/-- The text of an error. -/
def Error.message : Error → String
  | lexical fault position =>
    "Lexical error at position " ++ Numeral.decimal position ++ ": " ++ fault.message
  | unexpectedCharacter found position =>
    "Unexpected character '" ++ found.toString ++ "' at position " ++ Numeral.decimal position
  | unterminatedText position =>
    "Unterminated string starting at position " ++ Numeral.decimal position
  | malformed fault position =>
    "Malformed expression at position " ++ Numeral.decimal position ++ ": " ++ fault.message
  | invalid fault => "Invalid expression: " ++ fault.message
  | unresolved name kind => "Unresolved " ++ kind.label ++ " '" ++ name ++ "'"
  | unsupportedType text => "Unsupported type '" ++ text ++ "'"
  | invalidDefault value expected =>
    "Invalid default value '" ++ value ++ "': expected " ++ expected
  | unknownOpcode code position =>
    "Unknown opcode " ++ Numeral.decimal code.toNat ++ " at position " ++ Numeral.decimal position
  | missingOperand position =>
    "Instruction at position " ++ Numeral.decimal position ++ " is missing operands"
  | invalidSlot slot position =>
    "Instruction at position " ++ Numeral.decimal position ++
      " references unwritten memory slot " ++ Numeral.decimal slot.toNat
  | missingPlaceholderName index =>
    "No display name supplied for placeholder " ++ Numeral.decimal index.toNat
  | config fault => "Configuration error: " ++ fault.message

end RuleCodec
