/-
RuleCodec/Proofs/Rebuilding.lean

Rebuilding an expression from its items.

Operands come before their operator, so an expression can be rebuilt from its
items on a stack, and the slots need not even be looked at.  What is rebuilt is
the expression up to the arguments of foreign calls and the marks of updated
trackers (`Encodes.rebuildAll_eq`), and so two expressions with the same items
and placeholders are the same up to these (`Expr.core_eq_of_items`).

Design.  Items are cut into instructions in one way only (`Item.Cut.eq`), so
what is rebuilt from the pieces is rebuilt from the items.  An update looks like
the operation it computes until its store comes, which turns the top of the
stack into the update.  Placeholders are looked up by their words: there are
fewer of them than words, so the number of a placeholder is never cut short,
however long the expression.
-/
import RuleCodec.Proofs.Numbering
import RuleCodec.Proofs.Slots

namespace RuleCodec

/-! ### Leaves -/

/-- A value as an expression. -/
def Operand.expr : Operand → Expr
  | number value => .number value
  | address value => .address value
  | text value => .text value
  | bytes value => .bytes value
  | boolean value => .boolean value

/-- A literal is rebuilt from its value, up to its core. -/
theorem Operand.expr_of_literal? {e : Expr} {value : Operand} (h : e.literal? = some value) :
    value.expr = e.core := by
  cases e <;> cases h <;> rfl

/-- What is referred to, as an expression. -/
def Symbol.expr : Symbol → Expr
  | argument name => .argument name
  | tracker name => .tracker ⟨name, false⟩
  | foreignCall name => .foreignCall name []
  | global which => .global which

/-- A reference is rebuilt from its symbol, up to its core. -/
theorem Symbol.expr_of_symbol? {e : Expr} {symbol : Symbol} (h : e.symbol? = some symbol) :
    symbol.expr = e.core := by
  cases e <;> cases h <;> rfl

namespace Catalog

variable {catalog : Catalog} {symbol : Symbol} {c : Component}

/-- The symbol whose component has an index and flags. -/
def symbolOf? (catalog : Catalog) (key : UInt64 × UInt8) : Option Symbol :=
  (catalog.entries.find? fun entry => entry.2.key = key).map Prod.fst

/-- The symbol whose placeholder has a number. -/
def symbolAt? (catalog : Catalog) (placeholders : Placeholders) (place : Word) : Option Symbol :=
  placeholders.entries[place.toNat]?.bind fun entry => catalog.symbolOf? entry.1

/-- Where components can be told apart, the key of one leads back to its symbol. -/
theorem symbolOf?_key (apart : catalog.Apart) (found : catalog.get? symbol = some c) :
    catalog.symbolOf? c.key = some symbol := by
  have mem := Table.get?_eq_some_iff.1 found
  rcases h : catalog.entries.find? fun entry => entry.2.key = c.key with _ | ⟨symbol', c'⟩
  · have missed := List.find?_eq_none.1 h _ mem
    exact absurd (decide_eq_true rfl) missed
  · have found' := Table.get?_eq_some_iff.2 (List.mem_of_find?_eq_some h)
    have same : c'.key = c.key := by simpa using List.find?_some h
    rw [symbolOf?, h, Option.map_some, Table.key_eq_of_nodup apart found' found same]

/-- The number under which a component was entered tells its symbol. -/
theorem symbolAt?_intern (apart : catalog.Apart) (found : catalog.get? symbol = some c)
    {ps final : Placeholders} (grown : (ps.intern c).2.Extends final) :
    catalog.symbolAt? final (BitVec.ofNat 256 (ps.intern c).1) = some symbol := by
  have place := Placeholders.indexOf?_of_intern_extends grown
  have lt := Table.lt_size_of_indexOf? place
  have le := final.size_le
  obtain ⟨entry, at_i⟩ := Table.indexOf?_eq_some_iff.1 place
  rw [symbolAt?, BitVec.toNat_ofNat, Nat.mod_eq_of_lt (by omega), at_i, Option.bind_some,
    symbolOf?_key apart found]

end Catalog

/-! ### On a stack -/

namespace Expr

variable (symbolAt? : Word → Option Symbol)

/-- The update that a computed operation turns out to be when it is stored. -/
def stored? : List Expr → Option (List Expr)
  | binary (.plain op) target value :: stack =>
    op.update?.map fun update => binary update target value :: stack
  | _ => none

/-- What a piece does to the expressions that are built so far, the last one first. -/
def rebuild : Opcode × List Item → List Expr → Option (List Expr)
  | (.literal, [.operand value]), stack => some (value.expr :: stack)
  | (.read, [.operand (.number place)]), stack =>
    (symbolAt? place).map fun symbol => symbol.expr :: stack
  | (.readMapped, [.operand (.number place), _]), key :: stack =>
    match symbolAt? place with
    | some (.tracker name) => some (mapped ⟨name, false⟩ key :: stack)
    | _ => none
  | (.not, _), operand :: stack => some (not operand :: stack)
  | (.compute op, _), right :: left :: stack => some (binary (.plain op) left right :: stack)
  | (.store, _), stack => stored? stack
  | (.storeMapped, _), stack => stored? stack
  | _, _ => none

/-- What pieces do, one after the other. -/
def rebuildAll : List (Opcode × List Item) → List Expr → Option (List Expr)
  | [], stack => some stack
  | piece :: pieces, stack => (rebuild symbolAt? piece stack).bind (rebuildAll pieces)

/-- Instructions are rebuilt from one part after the other, on one stack. -/
theorem rebuildAll_append (first second : List (Opcode × List Item)) (stack : List Expr) :
    rebuildAll symbolAt? (first ++ second) stack =
      (rebuildAll symbolAt? first stack).bind (rebuildAll symbolAt? second) := by
  induction first generalizing stack with
  | nil => rfl
  | cons piece first ih =>
    rw [List.cons_append, rebuildAll, rebuildAll, Option.bind_assoc]
    exact Option.bind_congr fun stack _ => ih stack

theorem rebuildAll_singleton (piece : Opcode × List Item) (stack : List Expr) :
    rebuildAll symbolAt? [piece] stack = rebuild symbolAt? piece stack :=
  Option.bind_fun_some _

/-- A store turns the operation of an update into the update. -/
theorem stored?_operation {op : BinaryOp} (h : op.isUpdate = true) (target value : Expr)
    (stack : List Expr) :
    stored? (binary (.plain op.operation) target value :: stack) =
      some (binary op target value :: stack) := by
  rw [stored?, BinaryOp.update?_operation h, Option.map_some]

variable {catalog : Catalog} {symbol : Symbol} {c : Component} {ps final : Placeholders}

/-- A read puts its symbol on the stack. -/
theorem rebuild_read (apart : catalog.Apart) (found : catalog.get? symbol = some c)
    (grown : (ps.intern c).2.Extends final) (stack : List Expr) :
    rebuild (catalog.symbolAt? final) (Instruction.piece (.read (ps.intern c).1)) stack =
      some (symbol.expr :: stack) := by
  show (catalog.symbolAt? final (BitVec.ofNat 256 (ps.intern c).1)).map _ = _
  rw [Catalog.symbolAt?_intern apart found grown, Option.map_some]

/-- The read of an entry takes its key from the stack. -/
theorem rebuild_readMapped {name : String} (apart : catalog.Apart)
    (found : catalog.get? (.tracker name) = some c) (grown : (ps.intern c).2.Extends final)
    (keySlot : Nat) (key : Expr) (stack : List Expr) :
    rebuild (catalog.symbolAt? final) (Instruction.piece (.readMapped (ps.intern c).1 keySlot))
      (key :: stack) = some (mapped ⟨name, false⟩ key :: stack) := by
  simp only [Instruction.piece, Instruction.opcode, Instruction.operands, Item.ofNat, rebuild,
    Catalog.symbolAt?_intern apart found grown]

end Expr

/-- An operator that is no update is its own operation. -/
theorem BinaryOp.plain_operation {op : BinaryOp} (h : op.isUpdate = false) :
    .plain op.operation = op := by
  cases op with
  | plain op => rfl
  | compound a => cases h

/-- The items of a code rebuild its expression, on top of what was built before. -/
theorem Encodes.rebuildAll_eq {catalog : Catalog} {outer : Option String} {slot : Nat} {e : Expr}
    {ps ps' final : Placeholders} {code : Code} (h : Encodes catalog outer slot e ps code ps')
    (apart : catalog.Apart) (grown : ps'.Extends final) (stack : List Expr) :
    Expr.rebuildAll (catalog.symbolAt? final) (code.instructions.map Instruction.piece) stack =
      some (e.core :: stack) := by
  induction h generalizing stack with
  | literal is =>
    rw [← Operand.expr_of_literal? is]
    rfl
  | read is found _ =>
    rw [← Symbol.expr_of_symbol? is, List.map_singleton, Expr.rebuildAll_singleton]
    exact Expr.rebuild_read apart found grown stack
  | mapped _ found _ ih =>
    rw [List.map_append, Expr.rebuildAll_append, ih ((Placeholders.extends_intern _ _).trans grown),
      Option.bind_some, List.map_singleton, Expr.rebuildAll_singleton]
    exact Expr.rebuild_readMapped apart found grown _ _ stack
  | not _ ih =>
    rw [List.map_append, Expr.rebuildAll_append, ih grown]
    rfl
  | binary isUpdate _ hr ihl ihr =>
    rw [List.map_append, List.map_append, Expr.rebuildAll_append, Expr.rebuildAll_append,
      ihl (hr.placeholders_extend.trans grown), Option.bind_some, ihr grown, Option.bind_some,
      Expr.core]
    -- an operator that updates nothing is the operation it computes
    nth_rewrite 2 [← BinaryOp.plain_operation isUpdate]
    rfl
  -- until the store, an update is built like an operation on the tracker's value
  | update isUpdate found _ hv ih =>
    rw [Code.update_eq]
    simp only [List.map_append, Expr.rebuildAll_append, List.map_singleton,
      Expr.rebuildAll_singleton]
    rw [Expr.rebuild_read apart found (hv.placeholders_extend.trans grown), Option.bind_some,
      ih grown, Option.bind_some]
    exact Expr.stored?_operation isUpdate _ _ stack
  | updateMapped isUpdate found _ _ hv ihk ihv =>
    have entered := hv.placeholders_extend.trans grown
    rw [Code.updateMapped_eq]
    simp only [List.map_append, Expr.rebuildAll_append, List.map_singleton,
      Expr.rebuildAll_singleton]
    rw [ihk ((Placeholders.extends_intern _ _).trans entered), Option.bind_some,
      Expr.rebuild_readMapped apart found entered, Option.bind_some, ihv grown, Option.bind_some]
    exact Expr.stored?_operation isUpdate _ _ stack

/-- **The items and placeholders of an expression tell it**, up to the arguments of foreign calls
and the marks of updated trackers, where no two components share an index and flags. -/
theorem Expr.core_eq_of_items {catalog : Catalog} (apart : catalog.Apart) {e e' : Expr}
    {placeholders : Placeholders} {instructions instructions' : List (Instruction Operand Nat)}
    (encoded : e.encode catalog .empty = (.ok instructions, placeholders))
    (encoded' : e'.encode catalog .empty = (.ok instructions', placeholders))
    (same : instructions.flatMap Instruction.items = instructions'.flatMap Instruction.items) :
    e.core = e'.core := by
  obtain ⟨code, encodes, rfl⟩ := Expr.encodes_of_encode encoded
  obtain ⟨code', encodes', rfl⟩ := Expr.encodes_of_encode encoded'
  -- the same items are cut into the same pieces, and these rebuild both expressions
  have cut := Instruction.cut_items code.instructions
  rw [same] at cut
  have pieces := cut.eq (Instruction.cut_items code'.instructions)
  have rebuilt := encodes.rebuildAll_eq apart (Table.Extends.refl _) []
  rw [pieces, encodes'.rebuildAll_eq apart (Table.Extends.refl _) []] at rebuilt
  simpa using rebuilt.symm

/-- `(TRU:m(FC:f(a)) += 2) > 3` and `(TR:m(FC:f(b)) += 2) > 3` have the same items. -/
theorem Expr.core_eq_of_items_nested_update :
    let catalog : Catalog := .ofList
      [(.tracker "m", ⟨"TR:m", 7, "tracker", some "uint256", none, .tracker, .uint256,
        some .address⟩),
        (.foreignCall "f", ⟨"FC:f", 2, "foreignCall", some "address", some "FC:f(a)",
          .foreignCall, .address, none⟩)]
    let e (update : Bool) (argument : String) : Expr := .binary (.plain .greater)
      (.binary (.compound .add)
        (.mapped ⟨"m", update⟩ (.foreignCall "f" [.argument argument])) (.number 2)) (.number 3)
    let instructions : List (Instruction Operand Nat) :=
      [.read 0, .readMapped 1 0, .literal (.number 2), .compute (.arith .add) 1 2,
        .storeMapped 7 3 0, .literal (.number 3), .compute .greater 3 4]
    catalog.Apart ∧ ((e true "a").encode catalog .empty).1 = .ok instructions ∧
      (e true "a").encode catalog .empty = (e false "b").encode catalog .empty ∧
      (e true "a").core = (e false "b").core := by
  intro catalog e instructions
  have apart : catalog.Apart := by decide
  have encoded : (e true "a").encode catalog .empty =
      (.ok instructions, ((e true "a").encode catalog .empty).2) := rfl
  -- neither the mark of the update nor the arguments of the call are encoded
  have encoded' : (e false "b").encode catalog .empty =
      (.ok instructions, ((e true "a").encode catalog .empty).2) := rfl
  exact ⟨apart, rfl, rfl, Expr.core_eq_of_items apart encoded encoded' rfl⟩

end RuleCodec
