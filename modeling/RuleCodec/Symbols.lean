/-
RuleCodec/Symbols.lean

What the trackers and foreign calls of a deployment are called: their indices and types by name.
-/
import RuleCodec.Table
import RuleCodec.ValueType

namespace RuleCodec

/-- A tracker of the deployment.  One with a key type is mapped. -/
structure TrackerSymbol where
  index : UInt64
  valueType : ValueType
  keyType : Option ValueType
  deriving DecidableEq, Repr

/-- A foreign call of the deployment. -/
structure ForeignCallSymbol where
  index : UInt64
  returnType : ValueType
  deriving DecidableEq, Repr

/-- The trackers and foreign calls of a deployment, by name. -/
structure SymbolTables where
  trackers : Table String TrackerSymbol
  foreignCalls : Table String ForeignCallSymbol
  deriving DecidableEq, Inhabited

namespace SymbolTables

/-- The tables with a tracker entered. -/
def addTracker (tables : SymbolTables) (name : String) (tracker : TrackerSymbol) : SymbolTables :=
  { tables with trackers := tables.trackers.insert name tracker }

/-- The tables with a foreign call entered. -/
def addForeignCall (tables : SymbolTables) (name : String) (call : ForeignCallSymbol) :
    SymbolTables :=
  { tables with foreignCalls := tables.foreignCalls.insert name call }

/-- The name of each tracker index; where trackers share an index, the last one's. -/
def trackerNames (tables : SymbolTables) : Table UInt64 String :=
  Table.ofList (tables.trackers.entries.map fun entry => (entry.2.index, entry.1))

end SymbolTables

/-- What becomes of a name that the tables do not have: an error, or index zero. -/
inductive UnresolvedPolicy
  | error
  | indexZero
  deriving DecidableEq, Repr, Inhabited

end RuleCodec
