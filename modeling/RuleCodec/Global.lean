/-
RuleCodec/Global.lean

Global variables: the facts about the running transaction that a rule may read.
-/
import RuleCodec.ValueType

namespace RuleCodec

/-- A fact about the running transaction. -/
inductive GlobalVariable
  | msgSender
  | blockTimestamp
  | msgData
  | blockNumber
  | txOrigin
  deriving DecidableEq, Repr

namespace GlobalVariable

/-- Every global variable. -/
def all : List GlobalVariable :=
  [msgSender, blockTimestamp, msgData, blockNumber, txOrigin]

/-- The name of a global variable, as it follows `GV:`. -/
def name : GlobalVariable → String
  | msgSender => "MSG_SENDER"
  | blockTimestamp => "BLOCK_TIMESTAMP"
  | msgData => "MSG_DATA"
  | blockNumber => "BLOCK_NUMBER"
  | txOrigin => "TX_ORIGIN"

/-- The global variable with a given name. -/
def ofName? (text : String) : Option GlobalVariable :=
  all.find? fun g => g.name == text

/-- The type of a global variable. -/
def valueType : GlobalVariable → ValueType
  | msgSender | txOrigin => .address
  | blockTimestamp | blockNumber => .uint256
  | msgData => .bytes

/-- The flag that marks a placeholder as this global variable. -/
def flag : GlobalVariable → UInt8
  | msgSender => 0x04
  | blockTimestamp => 0x08
  | msgData => 0x0C
  | blockNumber => 0x10
  | txOrigin => 0x14

end GlobalVariable

end RuleCodec
