/-
RuleCodec/Component.lean

Components: what the references of a rule resolve to.

A scope is a calling function, the symbol tables and a policy for names that are in neither.
Resolving an expression turns each bare name into an argument or a text, and enters what it refers
to into a catalog: the arguments it uses in declared order, then foreign calls, trackers and global
variables, each in the order in which they first appear.  What is in the catalog already stays as
it is.
-/
import RuleCodec.Expr
import RuleCodec.Signature
import RuleCodec.Symbols

namespace RuleCodec

/-! ### Components -/

/-- What a reference names. -/
inductive Symbol
  | argument (name : String)
  | foreignCall (name : String)
  | tracker (name : String)
  | global (which : GlobalVariable)
  deriving DecidableEq, Repr

/-- Where the value of a component comes from. -/
inductive Source
  | argument
  | foreignCall
  | tracker
  | global (which : GlobalVariable)
  deriving DecidableEq, Repr

/-- The flags by which a placeholder tells where its value comes from. -/
def Source.flags : Source → UInt8
  | argument => 0x00
  | foreignCall => 0x01
  | tracker => 0x02
  | global which => which.flag

/-- What a reference resolves to. -/
structure Component where
  /-- The argument's name, or a name behind `TR:`, `FC:` or `GV:`. -/
  name : String
  index : UInt64
  rawType : String
  rawTypeTwo : Option String
  /-- The text of a foreign call with its arguments. -/
  callText : Option String
  source : Source
  valueType : ValueType
  /-- The type of the keys of a mapped tracker. -/
  keyType : Option ValueType
  deriving DecidableEq, Repr

/-- The name under which a component appears in a rule. -/
def Component.displayName (c : Component) : String :=
  c.callText.getD c.name

/-- Components by what they are referred to as, in the order of their resolution. -/
abbrev Catalog := Table Symbol Component

/-- Enters components in turn.  A symbol that is there already is left alone, even if it could not
be resolved now; the first that cannot be resolved ends the work. -/
def Catalog.enterAll (catalog : Catalog) :
    List (Symbol × Except Error Component) → Catalog × Except Error Unit
  | [] => (catalog, .ok ())
  | (symbol, component) :: rest =>
    if catalog.contains symbol then Catalog.enterAll catalog rest
    else
      match component with
      | .error e => (catalog, .error e)
      | .ok c => Catalog.enterAll (catalog.insert symbol c) rest

/-! ### References of an expression -/

namespace Expr

mutual

/-- The expression with each bare name turned into an argument, or into a text if it is none. -/
def bind (isArgument : String → Bool) : Expr → Expr
  | identifier name => if isArgument name then argument name else text name
  | foreignCall name arguments => foreignCall name (bindAll isArgument arguments)
  | mapped ref key => mapped ref (bind isArgument key)
  | binary op left right => binary op (bind isArgument left) (bind isArgument right)
  | not operand => not (bind isArgument operand)
  | number value => number value
  | address value => address value
  | text value => text value
  | bytes value => bytes value
  | boolean value => boolean value
  | argument name => argument name
  | tracker ref => tracker ref
  | global which => global which

def bindAll (isArgument : String → Bool) : List Expr → List Expr
  | [] => []
  | e :: rest => bind isArgument e :: bindAll isArgument rest

end

mutual

/-- An expression and all its parts, each before its own parts, from left to right. -/
def nodes : Expr → List Expr
  | foreignCall name arguments => foreignCall name arguments :: nodesAll arguments
  | mapped ref key => mapped ref key :: nodes key
  | binary op left right => binary op left right :: (nodes left ++ nodes right)
  | not operand => not operand :: nodes operand
  | number value => [number value]
  | address value => [address value]
  | text value => [text value]
  | bytes value => [bytes value]
  | boolean value => [boolean value]
  | identifier name => [identifier name]
  | argument name => [argument name]
  | tracker ref => [tracker ref]
  | global which => [global which]

def nodesAll : List Expr → List Expr
  | [] => []
  | e :: rest => nodes e ++ nodesAll rest

end

end Expr

/-! ### Resolution -/

/-- What the names of a rule mean. -/
structure Scope where
  function : CallingFunction
  tables : SymbolTables
  policy : UnresolvedPolicy

namespace Scope

/-- A value for a name that is in no table, if the policy allows one. -/
def fallback {α : Type} (scope : Scope) (name : String) (kind : SymbolKind) (value : α) :
    Except Error α :=
  match scope.policy with
  | .error => .error (.unresolved name kind)
  | .indexZero => .ok value

def argumentComponent (argument : Argument) (index : Nat) : Component where
  name := argument.name
  index := UInt64.ofNat index
  rawType := argument.rawType
  rawTypeTwo := none
  callText := none
  source := .argument
  valueType := argument.valueType
  keyType := none

def foreignCallComponent (scope : Scope) (name callText : String) : Except Error Component := do
  let call ←
    match scope.tables.foreignCalls.get? name with
    | some call => pure call
    | none => scope.fallback ("FC:" ++ name) .foreignCall ⟨0, .uint256⟩
  return {
    name := "FC:" ++ name
    index := call.index
    rawType := "foreign call"
    rawTypeTwo := some call.returnType.name
    callText := some callText
    source := .foreignCall
    valueType := call.returnType
    keyType := none }

def trackerComponent (scope : Scope) (name : String) (mapped : Bool) : Except Error Component := do
  let tracker ←
    match scope.tables.trackers.get? name with
    | some tracker => pure tracker
    | none =>
      scope.fallback ("TR:" ++ name) .tracker ⟨0, .uint256, if mapped then some .uint256 else none⟩
  return {
    name := "TR:" ++ name
    index := tracker.index
    rawType := "tracker"
    rawTypeTwo := some tracker.valueType.name
    callText := none
    source := .tracker
    valueType := tracker.valueType
    keyType := tracker.keyType }

def globalComponent (which : GlobalVariable) : Component where
  name := "GV:" ++ which.name
  index := 0
  rawType := "global"
  rawTypeTwo := some which.valueType.name
  callText := none
  source := .global which
  valueType := which.valueType
  keyType := none

/-- The arguments that occur among the parts of an expression, in declared order. -/
def argumentEntries (scope : Scope) (nodes : List Expr) :
    List (Symbol × Except Error Component) :=
  let used := nodes.filterMap fun
    | .argument name => some name
    | _ => none
  (scope.function.arguments.zipIdx.filter fun entry => used.contains entry.1.name).map fun entry =>
    (.argument entry.1.name, .ok (argumentComponent entry.1 entry.2))

/-- The foreign calls among the parts of an expression. -/
def foreignCallEntries (scope : Scope) (nodes : List Expr) :
    List (Symbol × Except Error Component) :=
  nodes.filterMap fun
    | .foreignCall name arguments =>
      some (.foreignCall name,
        scope.foreignCallComponent name (Expr.foreignCall name arguments).render)
    | _ => none

/-- The trackers among the parts of an expression. -/
def trackerEntries (scope : Scope) (nodes : List Expr) :
    List (Symbol × Except Error Component) :=
  nodes.filterMap fun
    | .tracker ref => some (.tracker ref.name, scope.trackerComponent ref.name false)
    | .mapped ref _ => some (.tracker ref.name, scope.trackerComponent ref.name true)
    | _ => none

/-- The global variables among the parts of an expression. -/
def globalEntries (nodes : List Expr) : List (Symbol × Except Error Component) :=
  nodes.filterMap fun
    | .global which => some (.global which, .ok (globalComponent which))
    | _ => none

/-- Everything that an expression refers to, in the order of resolution. -/
def entries (scope : Scope) (e : Expr) : List (Symbol × Except Error Component) :=
  scope.argumentEntries e.nodes ++ scope.foreignCallEntries e.nodes ++
    scope.trackerEntries e.nodes ++ globalEntries e.nodes

/-- Resolves an expression into a catalog.  What was entered before an error stays entered. -/
def resolveInto (scope : Scope) (catalog : Catalog) (e : Expr) : Catalog × Except Error Expr :=
  let bound := e.bind fun name => (scope.function.position? name).isSome
  let (catalog, result) := catalog.enterAll (scope.entries bound)
  (catalog, result.map fun _ => bound)

/-- Resolves an expression into a catalog of its own. -/
def resolve (scope : Scope) (e : Expr) : Except Error (Expr × Catalog) :=
  match scope.resolveInto .empty e with
  | (_, .error e) => .error e
  | (catalog, .ok bound) => .ok (bound, catalog)

end Scope

end RuleCodec
