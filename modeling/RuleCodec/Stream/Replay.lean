/-
RuleCodec/Stream/Replay.lean

Reading a stream back as text.

Design.  The stream is replayed over a memory of text fragments, one for each slot that the
instructions write.  A fragment remembers how it came about, so that a store can be told from the
value it stores: where a tracker is read, combined with an operand and stored again, the text is the
update that says so.  The text of the stream is that of the last value, or of the last update whose
tracker has a name.
-/
import RuleCodec.Stream

namespace RuleCodec

/-! ### Instructions of words -/

namespace Instruction

/-- Takes the operands of an opcode off a list of words. -/
def take? : Opcode → List Word → Option (Instruction Word Word × List Word)
  | .literal, a :: rest => some (literal a, rest)
  | .not, a :: rest => some (not a, rest)
  | .read, a :: rest => some (read a, rest)
  | .readMapped, a :: b :: rest => some (readMapped a b, rest)
  | .compute op, a :: b :: rest => some (compute op a b, rest)
  | .store, a :: b :: c :: rest => some (store a b c, rest)
  | .storeMapped, a :: b :: c :: rest => some (storeMapped a b c, rest)
  | _, _ => none

theorem length_le_of_take? {op : Opcode} {words rest : List Word} {i : Instruction Word Word}
    (h : take? op words = some (i, rest)) : rest.length ≤ words.length := by
  unfold take? at h
  split at h <;> simp only [Option.some.injEq, Prod.mk.injEq, reduceCtorEq] at h
  all_goals
    obtain ⟨-, rfl⟩ := h
    simp only [List.length_cons]
    omega

end Instruction

/-! ### Fragments -/

/-- How a slot came to be written. -/
inductive Origin
  | read (placeholder : Nat)
  | readMapped (placeholder key : Nat)
  | computed (op : Operation) (left right : Nat)
  | other
  deriving DecidableEq, Repr

/-- The text of a slot. -/
structure Fragment where
  text : List Char
  origin : Origin
  deriving DecidableEq, Repr

namespace Fragment

/-- Whether a fragment is an `AND` or an `OR`. -/
def isGroup (f : Fragment) : Bool :=
  match f.origin with
  | .computed op _ _ => op.isLogical
  | _ => false

/-- The text of a fragment as an operand. -/
def operand (f : Fragment) : List Char :=
  if f.isGroup then ['(', ' '] ++ f.text ++ [' ', ')'] else f.text

end Fragment

/-- The slots written so far. -/
abbrev Memory := Array Fragment

/-- The slot that a word refers to, and its fragment. -/
def Memory.slot (memory : Memory) (position : Nat) (w : Word) : Except Error (Nat × Fragment) :=
  match w.index?.bind fun i => memory[i]?.map fun f => (i, f) with
  | some found => .ok found
  | none => .error (.invalidSlot w.low64 position)

/-! ### Replay -/

/-- What a stream is read with. -/
structure Replay where
  registry : Registry
  placeholderNames : List String
  rawData : List RawEntry
  trackerNames : Table UInt64 String

namespace Replay

/-- The opcode that a word stands for. -/
def opcode? (replay : Replay) (w : Word) : Option Opcode :=
  w.index?.bind fun _ => replay.registry.opcode? w.low64

/-- The placeholder that a word refers to, and its name. -/
def placeholder (replay : Replay) (w : Word) : Except Error (Nat × List Char) :=
  match w.index?.bind fun i => replay.placeholderNames[i]?.map fun name => (i, name.toList) with
  | some found => .ok found
  | none => .error (.missingPlaceholderName w.low64)

/-- The text of a literal, from what is kept of it on the side or from its number. -/
def literalText (replay : Replay) (position : Nat) (w : Word) : List Char :=
  match replay.rawData.find? fun entry => entry.position == position with
  | some entry =>
    match entry.valueType with
    | .string => spellText (Text.Utf8.decodeLossy entry.data)
    | .bytes => entry.data.toHex
    | .address => w.toAddress
    | _ => w.toDecimal
  | none => w.toDecimal

/-- The update that a stored value stands for, if it was computed from a read of a tracker with the
same key: the placeholder read, the operator, and the slot of the operand. -/
def readUpdate? (memory : Memory) (value : Fragment) (key : Option Nat) :
    Option (Nat × BinaryOp × Nat) :=
  match value.origin with
  | .computed op left right =>
    match memory[left]?.map Fragment.origin, key with
    | some (.read placeholder), none => op.update?.map fun update => (placeholder, update, right)
    | some (.readMapped placeholder readKey), some key =>
      if readKey = key then op.update?.map fun update => (placeholder, update, right) else none
    | _, _ => none
  | _ => none

/-- The name of the tracker with an index, or of the one whose placeholder was read. -/
def trackerName? (replay : Replay) (tracker : Word) (read : Option Nat) : Option (List Char) :=
  match replay.trackerNames.get? tracker.low64 with
  | some name => some name.toList
  | none =>
    (read.bind fun placeholder => replay.placeholderNames[placeholder]?).bind fun name =>
      Text.stripStart? ['T', 'R', ':'] name.toList

/-- The text of a store, if its tracker has a name.  The value stored must be computed from a read
of that tracker to be written as an operand; otherwise it is written whole, behind `=`. -/
def updateText? (replay : Replay) (memory : Memory) (tracker : Word) (value : Fragment)
    (key : Option (Nat × Fragment)) : Option (List Char) :=
  let update := readUpdate? memory value (key.map Prod.fst)
  match replay.trackerName? tracker (update.map Prod.fst) with
  | none => none
  | some name =>
    let target := ['T', 'R', 'U', ':'] ++ name ++
      match key with
      | some (_, key) => '(' :: key.text ++ [')']
      | none => []
    let whole := target ++ [' ', '=', ' '] ++ value.text
    match update with
    | none => some whole
    | some (placeholder, op, right) =>
      if (replay.placeholderNames[placeholder]?).map String.toList = some (['T', 'R', ':'] ++ name)
      then
        match memory[right]? with
        | some operand => some (target ++ ' ' :: op.symbol.toList ++ ' ' :: operand.operand)
        | none => some whole
      else some whole

/-- Performs one instruction: the memory after it, and the text that the stream now has, if the
instruction says so. -/
def step (replay : Replay) (position : Nat) (memory : Memory) :
    Instruction Word Word → Except Error (Memory × Option (List Char))
  | .literal value =>
    let text := replay.literalText (position + 1) value
    .ok (memory.push ⟨text, .other⟩, some text)
  | .not operand => do
    let (_, operand) ← memory.slot position operand
    let text := ['N', 'O', 'T', ' '] ++ operand.operand
    return (memory.push ⟨text, .other⟩, some text)
  | .read placeholder => do
    let (i, text) ← replay.placeholder placeholder
    return (memory.push ⟨text, .read i⟩, some text)
  | .readMapped placeholder key => do
    let (i, name) ← replay.placeholder placeholder
    let (k, key) ← memory.slot position key
    let text := name ++ '(' :: key.text ++ [')']
    return (memory.push ⟨text, .readMapped i k⟩, some text)
  | .compute op left right => do
    let (l, left) ← memory.slot position left
    let (r, right) ← memory.slot position right
    let text := left.operand ++ ' ' :: op.symbol.toList ++ ' ' :: right.operand
    return (memory.push ⟨text, .computed op l r⟩, some text)
  | .store tracker value _ => do
    let (_, value) ← memory.slot position value
    return (memory, replay.updateText? memory tracker value none)
  | .storeMapped tracker value key => do
    let (_, value) ← memory.slot position value
    let key ← memory.slot position key
    return (memory, replay.updateText? memory tracker value (some key))

/-- Replays the words from a position on. -/
def runFrom (replay : Replay) (position : Nat) (memory : Memory) (text : List Char) :
    List Word → Except Error (List Char)
  | [] => .ok text
  | code :: words =>
    match replay.opcode? code with
    | none => .error (.unknownOpcode code.low64 position)
    | some op =>
      match _taken : Instruction.take? op words with
      | none => .error (.missingOperand position)
      | some (instruction, rest) =>
        match replay.step position memory instruction with
        | .error e => .error e
        | .ok (memory, said) =>
          runFrom replay (position + 1 + op.operandCount) memory (said.getD text) rest
termination_by words => words.length
decreasing_by
  have := Instruction.length_le_of_take? _taken
  simp only [List.length_cons]
  omega

/-- The text of a stream. -/
def run (replay : Replay) (words : List Word) : Except Error String :=
  (replay.runFrom 0 #[] [] words).map String.ofList

end Replay

end RuleCodec
