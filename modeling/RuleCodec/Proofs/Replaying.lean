/-
RuleCodec/Proofs/Replaying.lean

What replaying the code of an expression shows.

`Expr.shown` is the text that an expression has in the memory of a replay: the
names of its placeholders where it has references, and the operations that its
updates compute where it has updates.  `Encodes.replays` says that the code of
an expression, replayed from any stage on, performs to its end and leaves that
text in the code's slot.  What a store at the very end shows instead is the
update itself, which `Replay.said` is.

Design.  A replay is followed by its stages: the position in the stream, the
memory and the text so far.  `Replay.Performs` is the equation "replaying these
instructions and whatever comes behind them, from one stage, is replaying what
comes behind them from the other", so runs compose by appending instructions
and nothing is said about how the stream goes on.
-/
import RuleCodec.Proofs.Encoding
import RuleCodec.Proofs.Streams
import RuleCodec.Proofs.Utf8

namespace RuleCodec

/-! ### Literals -/

/-- The text of a value as a literal of a rule. -/
def Operand.spell : Operand → List Char
  | number value => value.toDecimal
  | address value => value.toAddress
  | text value => spellText value.toList
  | bytes value => value.toHex
  | boolean value => [if value then '1' else '0']

theorem Expr.spell_of_literal {e : Expr} {value : Operand} (h : e.literal? = some value) :
    e.spell = value.spell := by
  cases e <;> cases h <;> rfl

namespace Replay

/-- A literal is shown as it is written. -/
theorem literalText_word {hash : Bytes → Bytes} {replay : Replay} {position : Nat}
    {value : Operand}
    (h : (replay.rawData.find? fun entry => entry.position == position) =
      (Item.operand value).rawAt? position) :
    replay.literalText position (value.word hash) = value.spell := by
  unfold literalText
  rw [h]
  cases value with
  | number value => rfl
  | address value => rfl
  | text value =>
    show spellText (Text.Utf8.decodeLossy (Text.Utf8.encode value.toList)) = _
    -- a text is read from the raw data, since its word is a hash
    rw [Text.Utf8.decodeLossy_encode]
    rfl
  | bytes value => rfl
  | boolean value =>
    show Numeral.write 10 ((Operand.boolean value).word hash).toNat = _
    rw [Numeral.write]
    cases value <;> rfl

/-! ### Stages -/

/-- How far a replay has come. -/
structure Stage where
  position : Nat
  memory : Memory
  text : List Char

/-- Replays words from a stage on. -/
def resume (replay : Replay) (s : Stage) (words : List Word) : Except Error (List Char) :=
  replay.runFrom s.position s.memory s.text words

variable {replay : Replay} {s s₁ s₂ : Stage}

/-- Replaying instructions leads from one stage to another, whatever comes behind them. -/
structure Performs (replay : Replay) (s : Stage) (is : List (Instruction Operand Nat))
    (s₁ : Stage) : Prop where
  position : s₁.position = s.position + (is.flatMap Instruction.items).length
  resume : ∀ rest, replay.resume s
    ((is.flatMap Instruction.items).map (Item.number Keccak.hash replay.registry) ++ rest) =
      replay.resume s₁ rest

/-- Instructions are replayed one part after the other. -/
theorem Performs.append {first second : List (Instruction Operand Nat)}
    (h₁ : Performs replay s first s₁) (h₂ : Performs replay s₁ second s₂) :
    Performs replay s (first ++ second) s₂ where
  position := by
    rw [h₂.position, h₁.position, List.flatMap_append, List.length_append, Nat.add_assoc]
  resume rest := by
    rw [List.flatMap_append, List.map_append, List.append_assoc, h₁.resume, h₂.resume]

/-- The instructions can be read from the words of their items: every opcode has a number, and
what is kept of the literals is theirs. -/
structure Ready (replay : Replay) (position : Nat) (is : List (Instruction Operand Nat)) :
    Prop where
  known : ∀ item ∈ is.flatMap Instruction.items, item.Known replay.registry
  raw : RawData.Agrees replay.rawData position (is.flatMap Instruction.items)

/-- What is ready is ready in its first part. -/
theorem Ready.left {position : Nat} {first second : List (Instruction Operand Nat)}
    (h : Ready replay position (first ++ second)) : Ready replay position first where
  known item mem := h.known item (by rw [List.flatMap_append]; exact List.mem_append_left _ mem)
  raw := by
    have raw := h.raw
    rw [List.flatMap_append] at raw
    exact raw.left

/-- It is ready in its second part once the first was replayed. -/
theorem Ready.right {first second : List (Instruction Operand Nat)}
    (h : Ready replay s.position (first ++ second)) (h₁ : Performs replay s first s₁) :
    Ready replay s₁.position second where
  known item mem := h.known item (by rw [List.flatMap_append]; exact List.mem_append_right _ mem)
  raw := by
    have raw := h.raw
    rw [List.flatMap_append] at raw
    rw [h₁.position]
    exact raw.right

/-! ### One instruction -/

/-- The number of an opcode leads back to it. -/
theorem opcode?_number {op : Opcode} (known : (Item.opcode op).Known replay.registry) :
    replay.opcode? ((Item.opcode op).number Keccak.hash replay.registry) = some op :=
  Registry.opcode?_number known

/-- A single instruction is replayed by its step. -/
theorem performs_of_step {i : Instruction Operand Nat} {memory : Memory}
    {said : Option (List Char)} (ready : Ready replay s.position [i])
    (h : replay.step s.position s.memory (i.inWords Keccak.hash) = .ok (memory, said)) :
    Performs replay s [i] ⟨s.position + i.items.length, memory, said.getD s.text⟩ where
  position := by rw [List.flatMap_singleton]
  resume rest := by
    have known : (Item.opcode i.opcode).Known replay.registry :=
      ready.known _ (by simp [Instruction.items])
    rw [List.flatMap_singleton, Instruction.items, List.map_cons, List.cons_append]
    unfold resume
    rw [runFrom, opcode?_number known]
    simp only
    -- the operands are taken from the words, whatever follows them
    have taken := Instruction.take?_operands Keccak.hash replay.registry i rest
    split
    · rename_i missing
      rw [taken] at missing
      cases missing
    · rename_i instruction after found
      rw [taken] at found
      cases found
      rw [h, List.length_cons, Instruction.length_operands, Nat.add_comm i.opcode.operandCount,
        ← Nat.add_assoc]

/-- A slot that is written is found by its number. -/
theorem slot_ofNat {memory : Memory} {position n : Nat} {f : Fragment} (small : n < UInt64.size)
    (at_n : memory[n]? = some f) : memory.slot position (BitVec.ofNat 256 n) = .ok (n, f) := by
  rw [Memory.slot, Word.index?_ofNat small, Option.bind_some, at_n]
  rfl

/-- A placeholder is found by its number. -/
theorem placeholder_ofNat {i : Nat} {name : String} (small : i < UInt64.size)
    (at_i : replay.placeholderNames[i]? = some name) :
    replay.placeholder (BitVec.ofNat 256 i) = .ok (i, name.toList) := by
  rw [placeholder, Word.index?_ofNat small, Option.bind_some, at_i]
  rfl

/-- The stage after an instruction that writes a slot. -/
def Stage.wrote (s : Stage) (i : Instruction Operand Nat) (f : Fragment) : Stage :=
  ⟨s.position + i.items.length, s.memory.push f, f.text⟩

/-- A step that writes a fragment shows its text. -/
theorem performs_of_write {i : Instruction Operand Nat} {f : Fragment}
    (ready : Ready replay s.position [i])
    (h : replay.step s.position s.memory (i.inWords Keccak.hash) =
      .ok (s.memory.push f, some f.text)) :
    Performs replay s [i] (s.wrote i f) :=
  performs_of_step ready h

/-- A literal is shown as it is spelled. -/
theorem performs_literal {value : Operand} (ready : Ready replay s.position [.literal value]) :
    Performs replay s [.literal value] (s.wrote (.literal value) ⟨value.spell, .other⟩) := by
  have raw : (replay.rawData.find? fun entry => entry.position == s.position + 1) =
      (Item.operand value).rawAt? (s.position + 1) := ready.raw 1 _ rfl
  apply performs_of_write ready
  rw [Instruction.inWords, step, literalText_word raw]

/-- A negation is shown in front of its operand. -/
theorem performs_not {x : Nat} {operand : Fragment} (ready : Ready replay s.position [.not x])
    (small : x < UInt64.size) (at_x : s.memory[x]? = some operand) :
    Performs replay s [.not x]
      (s.wrote (.not x) ⟨['N', 'O', 'T', ' '] ++ operand.operand, .other⟩) := by
  apply performs_of_write ready
  rw [Instruction.inWords, step, slot_ofNat small at_x]
  rfl

theorem performs_read {i : Nat} {name : String} (ready : Ready replay s.position [.read i])
    (small : i < UInt64.size) (at_i : replay.placeholderNames[i]? = some name) :
    Performs replay s [.read i] (s.wrote (.read i) ⟨name.toList, .read i⟩) := by
  apply performs_of_write ready
  rw [Instruction.inWords, step, placeholder_ofNat small at_i]
  rfl

/-- An entry is shown with its key in parentheses. -/
theorem performs_readMapped {i k : Nat} {name : String} {key : Fragment}
    (ready : Ready replay s.position [.readMapped i k])
    (smallPlace : i < UInt64.size) (at_i : replay.placeholderNames[i]? = some name)
    (smallKey : k < UInt64.size) (at_k : s.memory[k]? = some key) :
    Performs replay s [.readMapped i k] (s.wrote (.readMapped i k)
      ⟨name.toList ++ '(' :: key.text ++ [')'], .readMapped i k⟩) := by
  apply performs_of_write ready
  rw [Instruction.inWords, step, placeholder_ofNat smallPlace at_i, slot_ofNat smallKey at_k]
  rfl

/-- An operation is shown between its operands. -/
theorem performs_compute {op : Operation} {l r : Nat} {left right : Fragment}
    (ready : Ready replay s.position [.compute op l r])
    (smallLeft : l < UInt64.size) (at_l : s.memory[l]? = some left)
    (smallRight : r < UInt64.size) (at_r : s.memory[r]? = some right) :
    Performs replay s [.compute op l r] (s.wrote (.compute op l r)
      ⟨left.operand ++ ' ' :: op.symbol.toList ++ ' ' :: right.operand, .computed op l r⟩) := by
  apply performs_of_write ready
  rw [Instruction.inWords, step, slot_ofNat smallLeft at_l, slot_ofNat smallRight at_r]
  rfl

/-- The stage after a store, which shows the update if its tracker has a name. -/
def Stage.stored (s : Stage) (i : Instruction Operand Nat) (shown : Option (List Char)) : Stage :=
  ⟨s.position + i.items.length, s.memory, shown.getD s.text⟩

/-- A store is shown as the update it makes, if it can be read as one. -/
theorem performs_store {tracker : UInt64} {v spare : Nat} {value : Fragment}
    (ready : Ready replay s.position [.store tracker.toNat v spare])
    (small : v < UInt64.size) (at_v : s.memory[v]? = some value) :
    Performs replay s [.store tracker.toNat v spare] (s.stored (.store tracker.toNat v spare)
      (replay.updateText? s.memory (BitVec.ofNat 256 tracker.toNat) value none)) := by
  apply performs_of_step ready
  rw [Instruction.inWords, step, slot_ofNat small at_v]
  rfl

/-- So is the store of an entry. -/
theorem performs_storeMapped {tracker : UInt64} {v k : Nat} {value key : Fragment}
    (ready : Ready replay s.position [.storeMapped tracker.toNat v k])
    (small : v < UInt64.size) (at_v : s.memory[v]? = some value)
    (smallKey : k < UInt64.size) (at_k : s.memory[k]? = some key) :
    Performs replay s [.storeMapped tracker.toNat v k]
      (s.stored (.storeMapped tracker.toNat v k)
        (replay.updateText? s.memory (BitVec.ofNat 256 tracker.toNat) value (some (k, key)))) := by
  apply performs_of_step ready
  rw [Instruction.inWords, step, slot_ofNat small at_v, slot_ofNat smallKey at_k]
  rfl

end Replay

/-! ### What is shown -/

namespace Placeholders

/-- The name under which the placeholder of a component is shown. -/
def shownName (placeholders : Placeholders) (c : Component) : List Char :=
  match placeholders.get? c.key with
  | some entry => entry.2.toList
  | none => []

/-- The placeholder of a component has the name that it is shown under. -/
theorem shownName_at {placeholders : Placeholders} {c : Component} {i : Nat}
    (h : placeholders.indexOf? c.key = some i) :
    ∃ name, placeholders.names[i]? = some name ∧ name.toList = placeholders.shownName c := by
  obtain ⟨entry, at_i⟩ := Table.indexOf?_eq_some_iff.1 h
  have found : placeholders.get? c.key = some entry :=
    Table.get?_eq_some_iff.2 (List.mem_of_getElem? at_i)
  refine ⟨entry.2, ?_, ?_⟩
  · rw [names, Table.values, List.getElem?_map, List.getElem?_map, at_i]
    rfl
  · rw [shownName, found]

end Placeholders

/-- The name under which a reference is shown. -/
def Catalog.shownName (catalog : Catalog) (placeholders : Placeholders) (symbol : Symbol) :
    List Char :=
  match catalog.get? symbol with
  | some c => placeholders.shownName c
  | none => []

/-- A symbol is shown under the name of its component. -/
theorem Catalog.shownName_eq {catalog : Catalog} {placeholders : Placeholders} {symbol : Symbol}
    {c : Component} (h : catalog.get? symbol = some c) :
    catalog.shownName placeholders symbol = placeholders.shownName c := by
  rw [shownName, h]

theorem BinaryOp.isLogical_operation (op : BinaryOp) : op.operation.isLogical = op.isLogical := by
  cases op <;> rfl

namespace Expr

/-- Whether an expression is an update. -/
def isUpdate : Expr → Bool
  | binary op _ _ => op.isUpdate
  | _ => false

/-- The text of an expression in the memory of a replay, where references go by these names. -/
def shown (name : Symbol → List Char) : Expr → List Char
  | number value => value.toDecimal
  | address value => value.toAddress
  | text value => spellText value.toList
  | bytes value => value.toHex
  | boolean value => [if value then '1' else '0']
  | identifier name => name.toList
  | argument which => name (.argument which)
  | tracker ref => name (.tracker ref.name)
  | foreignCall call _ => name (.foreignCall call)
  | global which => name (.global which)
  | mapped ref key => name (.tracker ref.name) ++ '(' :: shown name key ++ [')']
  | binary op left right =>
    spellOperand left (shown name left) ++ ' ' :: op.operation.symbol.toList ++ ' ' ::
      spellOperand right (shown name right)
  | not operand => ['N', 'O', 'T', ' '] ++ spellOperand operand (shown name operand)

theorem shown_of_literal {name : Symbol → List Char} {e : Expr} {value : Operand}
    (h : e.literal? = some value) : e.shown name = value.spell := by
  cases e <;> cases h <;> rfl

theorem shown_of_symbol {name : Symbol → List Char} {e : Expr} {symbol : Symbol}
    (h : e.symbol? = some symbol) : e.shown name = name symbol := by
  cases e <;> cases h <;> rfl

theorem simple_of_literal {e : Expr} {value : Operand} (h : e.literal? = some value) :
    e.isGroup = false ∧ e.isUpdate = false := by
  cases e <;> cases h <;> exact ⟨rfl, rfl⟩

theorem simple_of_symbol {e : Expr} {symbol : Symbol} (h : e.symbol? = some symbol) :
    e.isGroup = false ∧ e.isUpdate = false := by
  cases e <;> cases h <;> exact ⟨rfl, rfl⟩

end Expr

/-! ### What a store shows -/

/-- The operation of an update tells which update it is. -/
theorem BinaryOp.update?_operation {op : BinaryOp} (h : op.isUpdate = true) :
    op.operation.update? = some op := by
  rcases op with op | a
  · cases op <;> first | rfl | cases h
  · rfl

namespace Replay

/-- What a store shows behind a computed value: the tracker's name comes from its index, or else
from the placeholder that was read.  Where neither gives one, the computed value stays; where the
placeholder goes by another name, the value is written whole. -/
def saidUpdate (replay : Replay) (tracker : UInt64) (placeholder key : List Char) (op : BinaryOp)
    (operand value : List Char) : List Char :=
  match ((replay.trackerNames.get? tracker).map String.toList).or
    (Text.stripStart? ['T', 'R', ':'] placeholder) with
  | none => value
  | some name =>
    ['T', 'R', 'U', ':'] ++ name ++ key ++
      if placeholder = ['T', 'R', ':'] ++ name then ' ' :: op.symbol.toList ++ ' ' :: operand
      else [' ', '=', ' '] ++ value

/-- The text that a stream shows at the end of the code of an expression. -/
def said (replay : Replay) (catalog : Catalog) (name : Symbol → List Char) (e : Expr) :
    List Char :=
  match e with
  | .binary op (.tracker ref) right =>
    match op.isUpdate, catalog.get? (.tracker ref.name) with
    | true, some c =>
      replay.saidUpdate c.index (name (.tracker ref.name)) [] op
        (right.spellOperand (right.shown name)) (e.shown name)
    | _, _ => e.shown name
  | .binary op (.mapped ref key) right =>
    match op.isUpdate, catalog.get? (.tracker ref.name) with
    | true, some c =>
      replay.saidUpdate c.index (name (.tracker ref.name)) ('(' :: key.shown name ++ [')']) op
        (right.spellOperand (right.shown name)) (e.shown name)
    | _, _ => e.shown name
  | e => e.shown name

/-- What is no update is said as it is shown. -/
theorem said_of_not_update {replay : Replay} {catalog : Catalog} {name : Symbol → List Char}
    {e : Expr} (h : e.isUpdate = false) : replay.said catalog name e = e.shown name := by
  unfold said
  split
  · rename_i op ref right
    rw [show op.isUpdate = false from h]
  · rename_i op ref key right
    rw [show op.isUpdate = false from h]
  · rfl

section

variable {replay : Replay} {catalog : Catalog} {name : Symbol → List Char} {op : BinaryOp}
  {ref : TrackerRef} {key right : Expr} {c : Component}

/-- The update of a tracker is said with its name. -/
theorem said_update (isUpdate : op.isUpdate = true)
    (found : catalog.get? (.tracker ref.name) = some c) :
    replay.said catalog name (.binary op (.tracker ref) right) =
      replay.saidUpdate c.index (name (.tracker ref.name)) [] op
        (right.spellOperand (right.shown name))
        ((Expr.binary op (.tracker ref) right).shown name) := by
  rw [said, isUpdate, found]

/-- The update of an entry is said with its key. -/
theorem said_mapped_update (isUpdate : op.isUpdate = true)
    (found : catalog.get? (.tracker ref.name) = some c) :
    replay.said catalog name (.binary op (.mapped ref key) right) =
      replay.saidUpdate c.index (name (.tracker ref.name)) ('(' :: key.shown name ++ [')']) op
        (right.spellOperand (right.shown name))
        ((Expr.binary op (.mapped ref key) right).shown name) := by
  rw [said, isUpdate, found]

end

/-- How the tracker of an update is read: plainly, or at the key that the store names. -/
def readOrigin (placeholder : Nat) : Option (Nat × Fragment) → Origin
  | none => .read placeholder
  | some (k, _) => .readMapped placeholder k

/-- The key of a store between its parentheses. -/
def keyText : Option (Nat × Fragment) → List Char
  | none => []
  | some (_, key) => '(' :: key.text ++ [')']

/-- A computed value whose left operand was read at its own target is said as an update. -/
theorem updateText?_getD {replay : Replay} {memory : Memory} {tracker : UInt64}
    {value : Fragment} {key : Option (Nat × Fragment)} {op : BinaryOp} {l r i : Nat}
    {left right : Fragment} {placeholder : String} (isUpdate : op.isUpdate = true)
    (origin : value.origin = .computed op.operation l r)
    (at_l : memory[l]? = some left) (read : left.origin = readOrigin i key)
    (at_r : memory[r]? = some right) (at_i : replay.placeholderNames[i]? = some placeholder) :
    (replay.updateText? memory (BitVec.ofNat 256 tracker.toNat) value key).getD value.text =
      replay.saidUpdate tracker placeholder.toList (keyText key) op right.operand value.text := by
  -- the store goes back to where the left operand was read
  have update : readUpdate? memory value (key.map Prod.fst) = some (i, op, r) := by
    rw [readUpdate?, origin]
    simp only [at_l, Option.map_some, read, BinaryOp.update?_operation isUpdate]
    cases key <;> simp [readOrigin]
  -- the name is the one in the table, or else that of the placeholder
  have named : replay.trackerName? (BitVec.ofNat 256 tracker.toNat) (some i) =
      ((replay.trackerNames.get? tracker).map String.toList).or
        (Text.stripStart? ['T', 'R', ':'] placeholder.toList) := by
    rw [trackerName?, Word.low64_ofNat]
    cases replay.trackerNames.get? tracker with
    | some name => rfl
    | none => rw [Option.bind_some, at_i]; rfl
  unfold updateText? saidUpdate
  simp only [update, Option.map_some, named, at_i, Option.some.injEq, at_r]
  cases ((replay.trackerNames.get? tracker).map String.toList).or
      (Text.stripStart? ['T', 'R', ':'] placeholder.toList) with
  | none => rfl
  | some name =>
    cases key <;> simp only [keyText] <;> split <;> simp

end Replay

/-! ### Memory -/

namespace Memory

/-- Every slot of the first memory is a slot of the second. -/
def Kept (memory memory₁ : Memory) : Prop :=
  ∀ (i : Nat) (f : Fragment), memory[i]? = some f → memory₁[i]? = some f

theorem Kept.refl (memory : Memory) : Kept memory memory :=
  fun _ _ at_i => at_i

theorem Kept.trans {memory memory₁ memory₂ : Memory} (h : Kept memory memory₁)
    (h₁ : Kept memory₁ memory₂) : Kept memory memory₂ :=
  fun i f at_i => h₁ i f (h i f at_i)

/-- Adding a fragment keeps the others. -/
theorem kept_push (memory : Memory) (f : Fragment) : Kept memory (memory.push f) := by
  intro i f' at_i
  have lt : i < memory.size := (Array.getElem?_eq_some_iff.1 at_i).1
  rw [Array.getElem?_push_lt lt]
  rw [← at_i]
  exact (Array.getElem?_eq_getElem lt).symm

/-- The slot written last, also when more is written. -/
theorem getElem?_of_push {before memory : Memory} {f : Fragment} {slot : Nat}
    (size : before.size = slot) (kept : Kept (before.push f) memory) :
    memory[slot]? = some f := by
  apply kept
  rw [← size]
  exact Array.getElem?_push_size

end Memory

/-! ### The code of an expression -/

namespace Replay

variable {replay : Replay} {name : Symbol → List Char} {e : Expr} {code : Code} {s s₁ : Stage}
  {before : Memory} {f : Fragment}

/-- Replaying the code of `e` leads from `s` to `s₁`.  What was in memory stays, and the last slot
is the code's own and shows `e`. -/
structure Shows (replay : Replay) (name : Symbol → List Char) (e : Expr) (code : Code)
    (s s₁ : Stage) (before : Memory) (f : Fragment) : Prop where
  performs : Performs replay s code.instructions s₁
  memory : s₁.memory = before.push f
  size : before.size = code.slot
  kept : s.memory.Kept before
  text : f.text = e.shown name
  group : f.isGroup = e.isGroup

namespace Shows

/-- The fragment has its parentheses where the expression has them. -/
theorem operand (h : Shows replay name e code s s₁ before f) :
    f.operand = e.spellOperand (e.shown name) := by
  rw [Fragment.operand, Expr.spellOperand, h.group, h.text]

/-- The fragment is found as long as the memory is kept. -/
theorem at_slot (h : Shows replay name e code s s₁ before f) {memory : Memory}
    (kept : s₁.memory.Kept memory) : memory[code.slot]? = some f := by
  refine Memory.getElem?_of_push h.size ?_
  rw [← h.memory]
  exact kept

/-- The next slot to write is the one behind it. -/
theorem memory_size (h : Shows replay name e code s s₁ before f) :
    s₁.memory.size = code.slot + 1 := by
  rw [h.memory, Array.size_push, h.size]

theorem memory_kept (h : Shows replay name e code s s₁ before f) : s.memory.Kept s₁.memory := by
  rw [h.memory]
  exact h.kept.trans (Memory.kept_push before f)

/-- A store writes no slot. -/
theorem store (h : Shows replay name e code s s₁ before f) {i : Instruction Operand Nat}
    {shown : Option (List Char)} (performs : Performs replay s₁ [i] (s₁.stored i shown)) :
    Shows replay name e ⟨code.instructions ++ [i], code.slot⟩ s (s₁.stored i shown) before f :=
  { h with performs := h.performs.append performs }

end Shows

/-- Instructions that only add to memory, and then one that writes the slot of `e`. -/
theorem Performs.write {is : List (Instruction Operand Nat)} {i : Instruction Operand Nat}
    {slot : Nat} (h : Performs replay s is s₁) (kept : s.memory.Kept s₁.memory)
    (size : s₁.memory.size = slot) (performs : Performs replay s₁ [i] (s₁.wrote i f))
    (text : f.text = e.shown name) (group : f.isGroup = e.isGroup) :
    Shows replay name e ⟨is ++ [i], slot⟩ s (s₁.wrote i f) s₁.memory f where
  performs := h.append performs
  memory := rfl
  size := size
  kept := kept
  text := text
  group := group

/-- No instructions lead nowhere else. -/
theorem performs_nil (replay : Replay) (s : Stage) : Performs replay s [] s where
  position := rfl
  resume _ := rfl

end Replay

namespace Encodes

open Replay

variable {catalog : Catalog} {outer : Option String} {slot : Nat} {e : Expr}
  {ps ps' final : Placeholders} {code : Code} {replay : Replay}

/-- The replay has the names of these placeholders, and a word can number them all. -/
structure Named (replay : Replay) (final : Placeholders) : Prop where
  names : replay.placeholderNames = final.names
  fits : final.size ≤ UInt64.size

/-- A component that was interned has a place that fits, with its name. -/
theorem Named.at {ps : Placeholders} {symbol : Symbol} {c : Component}
    (named : Named replay final) (found : catalog.get? symbol = some c)
    (grown : (ps.intern c).2.Extends final) :
    (ps.intern c).1 < UInt64.size ∧
      ∃ name, replay.placeholderNames[(ps.intern c).1]? = some name ∧
        name.toList = catalog.shownName final symbol := by
  have place := Placeholders.indexOf?_of_intern_extends grown
  obtain ⟨name, at_i, shown⟩ := Placeholders.shownName_at place
  refine ⟨Nat.lt_of_lt_of_le (Table.lt_size_of_indexOf? place) named.fits, name, ?_, ?_⟩
  · rw [named.names]
    exact at_i
  · rw [Catalog.shownName_eq found]
    exact shown

/-- Replaying the code of an expression, from any stage on, shows the expression. -/
def Replays (replay : Replay) (catalog : Catalog) (final : Placeholders) (e : Expr) (code : Code)
    (s : Stage) : Prop :=
  ∃ s₁ before f, Shows replay (catalog.shownName final) e code s s₁ before f ∧
    s₁.text = replay.said catalog (catalog.shownName final) e

/-- An expression that is no update ends with the fragment that shows it. -/
theorem replays_of_wrote {s s₁ : Stage} {i : Instruction Operand Nat} {before : Memory}
    {f : Fragment} (plain : e.isUpdate = false)
    (h : Shows replay (catalog.shownName final) e code s (s₁.wrote i f) before f) :
    Replays replay catalog final e code s := by
  refine ⟨_, before, f, h, ?_⟩
  rw [said_of_not_update plain, ← h.text]
  rfl

/-- Two operands and the operation on them. -/
theorem shows_compute {op : BinaryOp} {left right : Expr} {l r : Code} {s s₁ s₂ : Stage}
    {bl br : Memory} {fl fr : Fragment} {name : Symbol → List Char}
    (hl : Shows replay name left l s s₁ bl fl) (hr : Shows replay name right r s₁ s₂ br fr)
    (ready : Ready replay s.position
      (l.instructions ++ r.instructions ++ [.compute op.operation l.slot r.slot]))
    (small : l.slot < UInt64.size) (small' : r.slot < UInt64.size) :
    ∃ i f, Shows replay name (.binary op left right)
      ⟨l.instructions ++ r.instructions ++ [.compute op.operation l.slot r.slot], r.slot + 1⟩
      s (s₂.wrote i f) s₂.memory f ∧ f.origin = .computed op.operation l.slot r.slot := by
  have both := hl.performs.append hr.performs
  have performs := performs_compute (ready.right both) small (hl.at_slot hr.memory_kept) small'
    (hr.at_slot (Memory.Kept.refl _))
  refine ⟨_, _, both.write (hl.memory_kept.trans hr.memory_kept) hr.memory_size performs ?_ ?_, rfl⟩
  · rw [Expr.shown, ← hl.operand, ← hr.operand]
  · exact op.isLogical_operation

/-- A target that was read, an operand, the operation on them, and the store of its result. -/
theorem replays_store {op : BinaryOp} {left right : Expr} {l v : Code} {s s₁ s₂ : Stage}
    {bl bv : Memory} {fl fv : Fragment} {i : Instruction Operand Nat} {p : Nat}
    {placeholder : String} (c : Component) (key : Option (Nat × Fragment))
    (target : Shows replay (catalog.shownName final) left l s s₁ bl fl)
    (value : Shows replay (catalog.shownName final) right v s₁ s₂ bv fv)
    (isUpdate : op.isUpdate = true) (read : fl.origin = readOrigin p key)
    (at_p : replay.placeholderNames[p]? = some placeholder)
    (smallTarget : l.slot < UInt64.size) (smallValue : v.slot < UInt64.size)
    (ready : Ready replay s.position
      (l.instructions ++ v.instructions ++ [.compute op.operation l.slot v.slot] ++ [i]))
    (store : ∀ (s₃ : Stage) (f : Fragment), Ready replay s₃.position [i] →
      s₂.memory.Kept s₃.memory → s₃.memory[v.slot + 1]? = some f →
      Performs replay s₃ [i] (s₃.stored i
        (replay.updateText? s₃.memory (BitVec.ofNat 256 c.index.toNat) f key)))
    (said : replay.said catalog (catalog.shownName final) (.binary op left right) =
      replay.saidUpdate c.index placeholder.toList (keyText key) op
        (right.spellOperand (right.shown (catalog.shownName final)))
        ((Expr.binary op left right).shown (catalog.shownName final))) :
    Replays replay catalog final (.binary op left right)
      ⟨l.instructions ++ v.instructions ++ [.compute op.operation l.slot v.slot] ++ [i],
        v.slot + 1⟩ s := by
  -- the new value is computed like any other, and the store says it as an update
  obtain ⟨j, f, computed, origin⟩ :=
    shows_compute target value ready.left smallTarget smallValue
  have kept : s₂.memory.Kept (s₂.wrote j f).memory := Memory.kept_push _ _
  have performs := store _ f (ready.right computed.performs) kept
    (computed.at_slot (Memory.Kept.refl _))
  refine ⟨_, _, f, computed.store performs, ?_⟩
  rw [said, ← value.operand, ← computed.text]
  exact updateText?_getD isUpdate origin (target.at_slot (value.memory_kept.trans kept)) read
    (value.at_slot kept) at_p

/-- Replaying the code of an expression shows it, from whatever stage the replay begins. By
induction on how the expression is encoded: the code of an operand keeps the memory and leaves the
operand's fragment in the slot of its code, where the instruction behind it finds it. -/
theorem replays (h : Encodes catalog outer slot e ps code ps') (grown : ps'.Extends final)
    (named : Named replay final) (small : code.slot < UInt64.size) (s : Stage)
    (size : s.memory.size = slot) (ready : Ready replay s.position code.instructions) :
    Replays replay catalog final e code s := by
  induction h generalizing s with
  | @literal outer slot e value ps is =>
    obtain ⟨isGroup, isUpdate⟩ := Expr.simple_of_literal is
    exact replays_of_wrote isUpdate ((performs_nil replay s).write (Memory.Kept.refl _) size
      (performs_literal ready) (Expr.shown_of_literal is).symm isGroup.symm)
  | @read outer slot e symbol c ps is found keyType =>
    obtain ⟨isGroup, isUpdate⟩ := Expr.simple_of_symbol is
    obtain ⟨smallPlace, name, at_i, shown⟩ := named.at found grown
    refine replays_of_wrote isUpdate ((performs_nil replay s).write (Memory.Kept.refl _) size
      (performs_read ready smallPlace at_i) ?_ isGroup.symm)
    rw [Expr.shown_of_symbol is]
    exact shown
  | @mapped outer slot ref key c ps ps₁ k hk found keyType ih =>
    obtain ⟨smallPlace, name, at_i, shown⟩ := named.at found grown
    obtain ⟨s₁, before, f, key, -⟩ := ih ((Placeholders.extends_intern _ _).trans grown)
      (Nat.lt_of_succ_lt small) s size ready.left
    have performs := performs_readMapped (ready.right key.performs) smallPlace at_i
      (Nat.lt_of_succ_lt small) (key.at_slot (Memory.Kept.refl _))
    refine replays_of_wrote rfl
      (key.performs.write key.memory_kept key.memory_size performs ?_ rfl)
    rw [Expr.shown, ← shown, ← key.text]
  | @not outer slot e ps ps₁ x hx ih =>
    obtain ⟨s₁, before, f, operand, -⟩ := ih grown (Nat.lt_of_succ_lt small) s size ready.left
    have performs := performs_not (ready.right operand.performs) (Nat.lt_of_succ_lt small)
      (operand.at_slot (Memory.Kept.refl _))
    refine replays_of_wrote rfl
      (operand.performs.write operand.memory_kept operand.memory_size performs ?_ rfl)
    rw [Expr.shown, ← operand.operand]
  | @binary outer slot op left right ps ps₁ ps₂ l r isUpdate hl hr ihl ihr =>
    have smallRight : r.slot < UInt64.size := Nat.lt_of_succ_lt small
    -- slots only grow, so a bound on the last one bounds them all
    have smallLeft : l.slot < UInt64.size :=
      Nat.lt_of_succ_lt (Nat.lt_of_le_of_lt hr.slot_le smallRight)
    obtain ⟨s₁, bl, fl, left, -⟩ :=
      ihl (hr.placeholders_extend.trans grown) smallLeft s size ready.left.left
    obtain ⟨s₂, br, fr, right, -⟩ :=
      ihr grown smallRight s₁ left.memory_size (ready.left.right left.performs)
    obtain ⟨i, f, computed, -⟩ := shows_compute left right ready smallLeft smallRight
    exact replays_of_wrote isUpdate computed
  | @update slot op ref right c ps ps₁ v isUpdate found keyType hv ih =>
    obtain ⟨smallPlace, name, at_p, shown⟩ := named.at found (hv.placeholders_extend.trans grown)
    have smallValue : v.slot < UInt64.size := Nat.lt_of_succ_lt small
    have smallRead : slot < UInt64.size :=
      Nat.lt_of_succ_lt (Nat.lt_of_le_of_lt hv.slot_le smallValue)
    have said : replay.said catalog (catalog.shownName final) (.binary op (.tracker ref) right) =
        _ := said_update isUpdate found
    -- the tracker is read as an operand of the operation would be
    rw [Code.update_eq] at ready ⊢
    have read : Shows replay (catalog.shownName final) (.tracker ref) ⟨[] ++ [.read _], slot⟩ s
        _ _ _ := (performs_nil replay s).write (Memory.Kept.refl _) size
      (performs_read ready.left.left.left smallPlace at_p) shown rfl
    obtain ⟨s₂, bv, fv, value, -⟩ := ih grown smallValue _ read.memory_size
      (ready.left.left.right read.performs)
    refine replays_store c none read value isUpdate rfl at_p smallRead smallValue ready ?_ ?_
    · intro s₃ f ready₃ kept at_v
      exact performs_store ready₃ small at_v
    · rw [← shown] at said
      exact said
  | @updateMapped slot op ref key right c ps ps₁ ps₂ k v isUpdate found keyType hk hv ihk ihv =>
    have grownRead := hv.placeholders_extend.trans grown
    obtain ⟨smallPlace, name, at_p, shown⟩ := named.at found grownRead
    have smallValue : v.slot < UInt64.size := Nat.lt_of_succ_lt small
    have smallRead : k.slot + 1 < UInt64.size :=
      Nat.lt_of_succ_lt (Nat.lt_of_le_of_lt hv.slot_le smallValue)
    have smallKey : k.slot < UInt64.size := Nat.lt_of_succ_lt smallRead
    have said : replay.said catalog (catalog.shownName final)
        (.binary op (.mapped ref key) right) = _ := said_mapped_update isUpdate found
    rw [Code.updateMapped_eq] at ready ⊢
    -- the key comes first, then the current value, then the operand
    obtain ⟨s₁, bk, fk, keyed, -⟩ := ihk ((Placeholders.extends_intern _ _).trans grownRead)
      smallKey s size ready.left.left.left.left
    have read : Shows replay (catalog.shownName final) (.mapped ref key)
        ⟨k.instructions ++ [.readMapped _ _], k.slot + 1⟩ s _ _ _ :=
      keyed.performs.write keyed.memory_kept keyed.memory_size
        (performs_readMapped (ready.left.left.left.right keyed.performs) smallPlace at_p smallKey
          (keyed.at_slot (Memory.Kept.refl _)))
        (by rw [Expr.shown, ← shown, ← keyed.text]) rfl
    obtain ⟨s₂, bv, fv, value, -⟩ := ihv grown smallValue _ read.memory_size
      (ready.left.left.right read.performs)
    refine replays_store c (some (k.slot, fk)) read value isUpdate rfl at_p smallRead smallValue
      ready ?_ ?_
    · -- the store looks the key up once more
      intro s₃ f ready₃ kept at_v
      have keptKey := ((Memory.kept_push _ _).trans value.memory_kept).trans kept
      exact performs_storeMapped ready₃ small at_v smallKey (keyed.at_slot keptKey)
    · rw [← shown, ← keyed.text] at said
      exact said

/-- The stream of an expression is read back as what it says, and never fails to be read. -/
theorem run_eq_ok (h : Encodes catalog none 0 e ps code ps') (grown : ps'.Extends final)
    (named : Named replay final) (small : code.slot < UInt64.size) {stream : Stream}
    (streamed : Stream.ofItems replay.registry (code.instructions.flatMap Instruction.items) =
      .ok stream) (raw : replay.rawData = stream.rawData) :
    replay.run stream.words =
      .ok (String.ofList (replay.said catalog (catalog.shownName final) e)) := by
  obtain ⟨known, rfl⟩ := Stream.ofItems_eq_ok_iff.1 streamed
  -- each literal finds its own raw data, since that was made from these items
  have ready : Ready replay 0 code.instructions := by
    refine ⟨known, ?_⟩
    rw [raw]
    exact RawData.agrees_ofItems 0 _
  obtain ⟨s₁, before, f, shown, said⟩ := h.replays grown named small ⟨0, #[], []⟩ rfl ready
  have run := shown.performs.resume []
  rw [List.append_nil] at run
  unfold Replay.run
  have ended : replay.runFrom 0 #[] []
      ((code.instructions.flatMap Instruction.items).map
        (Item.number Keccak.hash replay.registry)) = .ok s₁.text := by
    refine run.trans ?_
    unfold Replay.resume
    rw [runFrom]
  rw [ended, said]
  rfl

end Encodes

end RuleCodec
