/-
RuleCodec/Proofs/Streams.lean

Reading the words of instructions back.

A stream is made of the words of its items, and every item that was an
address, a text or a byte string is found again by its position in the raw
data.  What is proved here is that nothing of an instruction is lost on the
way: its first word names its opcode (`Registry.opcode?_of_get?`), the words
behind it are its operands (`Instruction.take?_operands`), and the raw data at
the position of a literal are the literal's own (`RawData.agrees_ofItems`).
So the words of a stream are read as the instructions that it was made of
(`Stream.instructions?_words`).
-/
import RuleCodec.Proofs.Tables
import RuleCodec.Stream.Replay

namespace RuleCodec

/-! ### Numbers of opcodes -/

namespace Registry

theorem holder?_of_mem {op : Opcode} {code : UInt64} {entries : List (Opcode × UInt64)}
    (apart : (entries.map Prod.snd).Nodup) (mem : (op, code) ∈ entries) :
    holder? code entries = some op := by
  induction entries with
  | nil => cases mem
  | cons entry rest ih =>
    obtain ⟨op', code'⟩ := entry
    rw [List.map_cons, List.nodup_cons] at apart
    rw [holder?]
    rcases List.mem_cons.1 mem with eq | later
    · cases eq
      rw [if_pos rfl]
    · -- numbers are given once, so the entries before this one have others
      have other : code' ≠ code := by
        rintro rfl
        exact apart.1 (List.mem_map.2 ⟨(op, code'), later, rfl⟩)
      rw [if_neg other]
      exact ih apart.2 later

/-- A number stands for the opcode it was given to. -/
theorem opcode?_of_get? {r : Registry} {op : Opcode} {code : UInt64}
    (h : r.codes.get? op = some code) : r.opcode? code = some op :=
  holder?_of_mem r.apart (Table.get?_eq_some_iff.1 h)

end Registry

/-! ### Words of items -/

namespace Word

theorem index?_ofNat {n : Nat} (h : n < UInt64.size) : index? (BitVec.ofNat 256 n) = some n := by
  have fits : n < 2 ^ 256 := Nat.lt_trans h (by decide)
  rw [index?, BitVec.toNat_ofNat, Nat.mod_eq_of_lt fits, if_pos h]

theorem low64_ofNat (n : UInt64) : low64 (BitVec.ofNat 256 n.toNat) = n := by
  have fits : n.toNat < 2 ^ 256 := Nat.lt_trans n.toNat_lt (by decide)
  rw [low64, BitVec.toNat_ofNat, Nat.mod_eq_of_lt fits, UInt64.ofNat_toNat]

end Word

namespace Item

variable {hash : Bytes → Bytes}

/-- The item has a word: it is an operand, or an opcode with a number. -/
def Known (registry : Registry) : Item → Prop
  | opcode op => ∃ code, registry.codes.get? op = some code
  | operand _ => True

/-- The word of an item that has one. -/
def number (hash : Bytes → Bytes) (registry : Registry) : Item → Word
  | opcode op => BitVec.ofNat 256 ((registry.codes.get? op).getD 0).toNat
  | operand value => value.word hash

/-- An item has a word exactly if it is known. -/
theorem word_eq_ok_iff {registry : Registry} {item : Item} {w : Word} :
    item.word hash registry = .ok w ↔ item.Known registry ∧ item.number hash registry = w := by
  cases item with
  | operand value => simp [word, Known, number]
  | opcode op =>
    cases found : registry.codes.get? op with
    | none => simp [word, Known, Registry.code, found, Except.map]
    | some code => simp [word, Known, number, Registry.code, found, Except.map]

theorem mapM_word_eq_ok_iff {registry : Registry} {items : List Item} {words : List Word} :
    items.mapM (word hash registry) = .ok words ↔
      (∀ item ∈ items, item.Known registry) ∧ items.map (number hash registry) = words := by
  induction items generalizing words with
  | nil => simp [pure, Except.pure]
  | cons item rest ih =>
    rw [List.mapM_cons, List.forall_mem_cons, List.map_cons]
    constructor
    · intro h
      obtain ⟨w, hw, h⟩ := bind_eq_ok.1 h
      obtain ⟨ws, hws, h⟩ := bind_eq_ok.1 h
      cases h
      obtain ⟨known, rfl⟩ := word_eq_ok_iff.1 hw
      obtain ⟨allKnown, rfl⟩ := ih.1 hws
      exact ⟨⟨known, allKnown⟩, rfl⟩
    · rintro ⟨⟨known, allKnown⟩, rfl⟩
      rw [word_eq_ok_iff.2 ⟨known, rfl⟩, ih.2 ⟨allKnown, rfl⟩]
      rfl

end Item

/-! ### Raw data -/

/-- What raw data hold for an item at a position. -/
def Item.rawAt? (position : Nat) (item : Item) : Option RawEntry :=
  item.raw?.map fun raw => ⟨position, raw.1, raw.2⟩

namespace RawData

/-- At the positions of some items, raw data hold what these items left there and nothing else. -/
def Agrees (rawData : List RawEntry) (position : Nat) (items : List Item) : Prop :=
  ∀ k item, items[k]? = some item →
    (rawData.find? fun entry => entry.position == position + k) = item.rawAt? (position + k)

/-- Raw data agrees with the first part of what it agrees with. -/
theorem Agrees.left {rawData : List RawEntry} {position : Nat} {first second : List Item}
    (h : Agrees rawData position (first ++ second)) : Agrees rawData position first := by
  intro k item at_k
  refine h k item ?_
  rw [List.getElem?_append_left (List.getElem?_eq_some_iff.1 at_k).1]
  exact at_k

theorem Agrees.right {rawData : List RawEntry} {position : Nat} {first second : List Item}
    (h : Agrees rawData position (first ++ second)) :
    Agrees rawData (position + first.length) second := by
  intro k item at_k
  rw [Nat.add_assoc]
  refine h (first.length + k) item ?_
  rw [List.getElem?_append_right (Nat.le_add_right _ _), Nat.add_sub_cancel_left]
  exact at_k

/-- The raw data that items from a position on leave. -/
def ofItems (position : Nat) (items : List Item) : List RawEntry :=
  (items.zipIdx position).filterMap fun entry => entry.1.rawAt? entry.2

theorem ofItems_cons (position : Nat) (item : Item) (items : List Item) :
    ofItems position (item :: items) =
      (item.rawAt? position).toList ++ ofItems (position + 1) items := by
  unfold ofItems
  rw [List.zipIdx_cons, List.filterMap_cons]
  cases item.rawAt? position <;> rfl

theorem position_of_rawAt? {position : Nat} {item : Item} {entry : RawEntry}
    (h : item.rawAt? position = some entry) : entry.position = position := by
  obtain ⟨raw, -, rfl⟩ := Option.map_eq_some_iff.1 h
  rfl

/-- Items leave nothing at positions before their own. -/
theorem find?_ofItems_of_lt {position p : Nat} (items : List Item) (lt : p < position) :
    ((ofItems position items).find? fun entry => entry.position == p) = none := by
  induction items generalizing position with
  | nil => rfl
  | cons item items ih =>
    rw [ofItems_cons, List.find?_append, ih (Nat.lt_succ_of_lt lt)]
    cases raw : item.rawAt? position with
    | none => rfl
    | some entry =>
      have other : (entry.position == p) = false := by
        rw [position_of_rawAt? raw, beq_eq_false_iff_ne]
        omega
      simp [other]

/-- The raw data that is made from items agrees with them. -/
theorem agrees_ofItems (position : Nat) (items : List Item) :
    Agrees (ofItems position items) position items := by
  induction items generalizing position with
  | nil =>
    intro k item at_k
    cases at_k
  | cons item items ih =>
    intro k item' at_k
    rw [ofItems_cons, List.find?_append]
    cases k with
    | zero =>
      -- the later items leave nothing here
      cases at_k
      rw [Nat.add_zero, find?_ofItems_of_lt items (Nat.lt_succ_self _)]
      cases raw : item.rawAt? position with
      | none => rfl
      | some entry => simp [position_of_rawAt? raw]
    | succ k =>
      -- and this one leaves nothing there
      have later := ih (position + 1) k item' at_k
      rw [Nat.add_right_comm, Nat.add_assoc] at later
      rw [later]
      cases raw : item.rawAt? position with
      | none => rfl
      | some entry =>
        have other : (entry.position == position + (k + 1)) = false := by
          rw [position_of_rawAt? raw, beq_eq_false_iff_ne]
          omega
        simp [other]

end RawData

/-- Items have a stream exactly if each has a word, whatever the hash. -/
theorem Stream.ofItemsWith_eq_ok_iff {hash : Bytes → Bytes} {registry : Registry}
    {items : List Item} {stream : Stream} :
    Stream.ofItemsWith hash registry items = .ok stream ↔
      (∀ item ∈ items, item.Known registry) ∧
        stream = ⟨items.map (Item.number hash registry), RawData.ofItems 0 items⟩ := by
  unfold Stream.ofItemsWith
  rw [bind_eq_ok]
  constructor
  · rintro ⟨words, hwords, h⟩
    cases h
    obtain ⟨known, rfl⟩ := Item.mapM_word_eq_ok_iff.1 hwords
    exact ⟨known, rfl⟩
  · rintro ⟨known, rfl⟩
    exact ⟨_, Item.mapM_word_eq_ok_iff.2 ⟨known, rfl⟩, rfl⟩

/-- A stream is made exactly if every item is known, and then from the numbers of the items. -/
theorem Stream.ofItems_eq_ok_iff {registry : Registry} {items : List Item} {stream : Stream} :
    Stream.ofItems registry items = .ok stream ↔
      (∀ item ∈ items, item.Known registry) ∧
        stream = ⟨items.map (Item.number Keccak.hash registry), RawData.ofItems 0 items⟩ :=
  Stream.ofItemsWith_eq_ok_iff

/-! ### Instructions of words -/

namespace Instruction

/-- The instruction as it is read from words. -/
def inWords (hash : Bytes → Bytes) : Instruction Operand Nat → Instruction Word Word
  | literal value => literal (value.word hash)
  | not operand => not (BitVec.ofNat 256 operand)
  | read placeholder => read (BitVec.ofNat 256 placeholder)
  | readMapped placeholder key =>
    readMapped (BitVec.ofNat 256 placeholder) (BitVec.ofNat 256 key)
  | compute op left right => compute op (BitVec.ofNat 256 left) (BitVec.ofNat 256 right)
  | store tracker value spare =>
    store (BitVec.ofNat 256 tracker) (BitVec.ofNat 256 value) (BitVec.ofNat 256 spare)
  | storeMapped tracker value key =>
    storeMapped (BitVec.ofNat 256 tracker) (BitVec.ofNat 256 value) (BitVec.ofNat 256 key)

variable (hash : Bytes → Bytes) (registry : Registry)

/-- The operands of an instruction are taken back from their words. -/
theorem take?_operands (i : Instruction Operand Nat) (rest : List Word) :
    take? i.opcode (i.operands.map (Item.number hash registry) ++ rest) =
      some (i.inWords hash, rest) := by
  cases i <;> rfl

theorem length_operands (i : Instruction Operand Nat) :
    i.operands.length = i.opcode.operandCount := by
  cases i <;> rfl

end Instruction

/-! ### Instructions of a stream -/

namespace Registry

/-- The instructions that words are read as, if each begins with the number of an opcode and has
all its operands. -/
def instructions? (registry : Registry) : List Word → Option (List (Instruction Word Word))
  | [] => some []
  | code :: words =>
    match code.index?.bind fun _ => registry.opcode? code.low64 with
    | none => none
    | some op =>
      match _taken : Instruction.take? op words with
      | none => none
      | some (i, rest) => (instructions? registry rest).map (i :: ·)
termination_by words => words.length
decreasing_by
  have := Instruction.length_le_of_take? _taken
  simp only [List.length_cons]
  omega

variable {hash : Bytes → Bytes} {registry : Registry}

/-- The number of an opcode is read as that opcode. -/
theorem opcode?_number {op : Opcode} (known : (Item.opcode op).Known registry) :
    (((Item.opcode op).number hash registry).index?.bind fun _ =>
      registry.opcode? ((Item.opcode op).number hash registry).low64) = some op := by
  obtain ⟨code, found⟩ := known
  rw [Item.number, found, Option.getD_some, Word.index?_ofNat code.toNat_lt, Word.low64_ofNat]
  exact opcode?_of_get? found

/-- Instructions that have words are read from them. -/
theorem instructions?_number {is : List (Instruction Operand Nat)}
    (known : ∀ item ∈ is.flatMap Instruction.items, item.Known registry) :
    registry.instructions? ((is.flatMap Instruction.items).map (Item.number hash registry)) =
      some (is.map (Instruction.inWords hash)) := by
  induction is with
  | nil => rw [List.flatMap_nil, List.map_nil, instructions?, List.map_nil]
  | cons i is ih =>
    rw [List.flatMap_cons] at known
    obtain ⟨here, later⟩ := List.forall_mem_append.1 known
    rw [List.flatMap_cons, List.map_append, Instruction.items, List.map_cons, List.cons_append,
      instructions?, opcode?_number (here _ List.mem_cons_self)]
    simp only
    -- the opcode tells how many words belong to the instruction
    have taken := Instruction.take?_operands hash registry i
      ((is.flatMap Instruction.items).map (Item.number hash registry))
    split
    · rename_i missing
      rw [taken] at missing
      cases missing
    · rename_i instruction rest found
      rw [taken] at found
      cases found
      rw [ih later, Option.map_some, List.map_cons]

end Registry

/-- The words of a stream are read as the instructions it was made of. -/
theorem Stream.instructions?_words {registry : Registry} {is : List (Instruction Operand Nat)}
    {stream : Stream} (h : Stream.ofItems registry (is.flatMap Instruction.items) = .ok stream) :
    registry.instructions? stream.words = some (is.map (Instruction.inWords Keccak.hash)) := by
  obtain ⟨known, rfl⟩ := Stream.ofItems_eq_ok_iff.1 h
  exact Registry.instructions?_number known

end RuleCodec
