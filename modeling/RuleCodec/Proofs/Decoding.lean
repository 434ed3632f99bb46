/-
RuleCodec/Proofs/Decoding.lean

What the instructions of an expression tell about it.

Two expressions with the same instructions are the same, up to the arguments
of foreign calls, which no instruction shows, and the marks of updated trackers
(`Encodes.core_eq`), provided that placeholders tell symbols.

Design.  The last instruction tells which rule made a code, and the slots it
refers to tell where the codes of the operands end: a code that begins at a
slot and ends at a slot has written the slots between, once each.  A store
writes no slot, but no code begins with one, so two codes that have written the
same slots are of the same length.
-/
import RuleCodec.Proofs.Encoding
import RuleCodec.Proofs.Streams
import RuleCodec.Proofs.Utf8

namespace RuleCodec

/-! ### What the instructions show -/

namespace Expr

/-- The expression as its instructions show it: calls without their arguments, trackers without
the mark of an update. -/
def core : Expr → Expr
  | tracker ref => tracker ⟨ref.name, false⟩
  | foreignCall name _ => foreignCall name []
  | mapped ref key => mapped ⟨ref.name, false⟩ (core key)
  | binary op left right => binary op (core left) (core right)
  | not operand => not (core operand)
  | number value => number value
  | address value => address value
  | text value => text value
  | bytes value => bytes value
  | boolean value => boolean value
  | identifier name => identifier name
  | argument name => argument name
  | global which => global which

/-- Literals with the same value have the same core. -/
theorem core_eq_of_literal? {e e' : Expr} {value : Operand} (h : e.literal? = some value)
    (h' : e'.literal? = some value) : e.core = e'.core := by
  cases e <;> cases h <;> cases e' <;> cases h' <;> rfl

/-- References to the same symbol have the same core. -/
theorem core_eq_of_symbol? {e e' : Expr} {symbol : Symbol} (h : e.symbol? = some symbol)
    (h' : e'.symbol? = some symbol) : e.core = e'.core := by
  cases e <;> cases h <;> cases e' <;> simp [symbol?] at h' <;> simp [core, h']

end Expr

/-- Operators of one kind are told by what they compute. -/
theorem BinaryOp.operation_inj {op op' : BinaryOp} (kind : op.isUpdate = op'.isUpdate)
    (h : op.operation = op'.operation) : op = op' := by
  cases op with
  | plain o =>
    cases op' with
    | plain o' =>
      cases h
      rfl
    | compound a' =>
      cases h
      cases kind
  | compound a =>
    cases op' with
    | plain o' =>
      cases h
      cases kind
    | compound a' =>
      cases h
      rfl

/-! ### Slots that are written -/

/-- Whether an instruction writes a slot. -/
def Instruction.writes {Literal Ref : Type} : Instruction Literal Ref → Bool
  | store .. | storeMapped .. => false
  | _ => true

/-- Of two ways to part the same instructions before one that writes, those that have written as
much on the left are one. -/
theorem Instruction.append_inj {Literal Ref : Type} {as bs cs ds : List (Instruction Literal Ref)}
    {b d : Instruction Literal Ref} (hb : b.writes) (hd : d.writes)
    (same : as ++ b :: bs = cs ++ d :: ds) (counts : as.countP writes = cs.countP writes) :
    as = cs ∧ b = d ∧ bs = ds := by
  induction as generalizing cs with
  | nil =>
    cases cs with
    | nil => simpa using same
    | cons i cs =>
      simp only [List.nil_append, List.cons_append, List.cons.injEq] at same
      -- `b` writes, so the other list has counted one write more
      rw [← same.1, List.countP_cons_of_pos hb] at counts
      cases counts
  | cons i as ih =>
    cases cs with
    | nil =>
      simp only [List.nil_append, List.cons_append, List.cons.injEq] at same
      rw [same.1, List.countP_cons_of_pos hd] at counts
      cases counts
    | cons j cs =>
      simp only [List.cons_append, List.cons.injEq] at same
      obtain ⟨rfl, same⟩ := same
      rw [List.countP_cons, List.countP_cons, Nat.add_right_cancel_iff] at counts
      obtain ⟨rfl, rest⟩ := ih same counts
      exact ⟨rfl, rest⟩

namespace Encodes

variable {catalog catalog' : Catalog} {outer outer' : Option String} {slot : Nat} {e e' : Expr}
  {ps ps' ps₁ ps₁' final : Placeholders} {code code' : Code}

/-- A code begins with an instruction that writes. -/
theorem begins (h : Encodes catalog outer slot e ps code ps') :
    ∃ i rest, code.instructions = i :: rest ∧ i.writes := by
  -- what stands first is a leaf, or comes from the operand that is evaluated first
  induction h with
  | literal => exact ⟨_, _, rfl, rfl⟩
  | read => exact ⟨_, _, rfl, rfl⟩
  | mapped _ _ _ ih =>
    obtain ⟨i, rest, eq, writes⟩ := ih
    exact ⟨i, _, by rw [eq]; rfl, writes⟩
  | not _ ih =>
    obtain ⟨i, rest, eq, writes⟩ := ih
    exact ⟨i, _, by rw [eq]; rfl, writes⟩
  | binary _ _ _ ihl _ =>
    obtain ⟨i, rest, eq, writes⟩ := ihl
    exact ⟨i, _, by rw [eq]; rfl, writes⟩
  | update => exact ⟨_, _, rfl, rfl⟩
  | updateMapped _ _ _ _ _ ihk _ =>
    obtain ⟨i, rest, eq, writes⟩ := ihk
    exact ⟨i, _, by rw [eq]; rfl, writes⟩

/-- A code writes the slots from where it begins to that of its value. -/
theorem countP_writes (h : Encodes catalog outer slot e ps code ps') :
    slot + code.instructions.countP Instruction.writes = code.slot + 1 := by
  -- every node writes one slot, the store of an update aside
  induction h with
  | literal => rfl
  | read => rfl
  | mapped _ _ _ ih =>
    simp only [List.countP_append, List.countP_singleton, Instruction.writes, if_true]
    omega
  | not _ ih =>
    simp only [List.countP_append, List.countP_singleton, Instruction.writes, if_true]
    omega
  | binary _ _ _ ihl ihr =>
    simp only [List.countP_append, List.countP_singleton, Instruction.writes, if_true]
    omega
  | update _ _ _ _ ih =>
    simp only [List.countP_append, List.countP_cons, List.countP_nil, Instruction.writes, if_true,
      List.cons_append, Bool.false_eq_true, if_false]
    omega
  | updateMapped _ _ _ _ _ ihk ihv =>
    simp only [List.countP_append, List.countP_cons, List.countP_nil, Instruction.writes, if_true,
      List.append_assoc, List.cons_append, Bool.false_eq_true, if_false]
    omega

/-- Codes that begin and end at the same slots write as much. -/
theorem countP_writes_eq (h : Encodes catalog outer slot e ps code ps₁)
    (h' : Encodes catalog' outer' slot e' ps' code' ps₁') (same : code.slot = code'.slot) :
    code.instructions.countP Instruction.writes = code'.instructions.countP Instruction.writes := by
  have writes := h.countP_writes
  have writes' := h'.countP_writes
  omega

end Encodes

/-! ### Reading an expression off its instructions -/

/-- A placeholder of a component tells the symbol, be it of the one catalog or the other. -/
def Catalog.Tells (catalog catalog' : Catalog) : Prop :=
  ∀ symbol symbol' c c', catalog.get? symbol = some c → catalog'.get? symbol' = some c' →
    c.key = c'.key → symbol = symbol'

/-- One place of a table is that of one key. -/
theorem Placeholders.key_eq_of_intern {ps ps' final : Placeholders} {c c' : Component}
    (grown : (ps.intern c).2.Extends final) (grown' : (ps'.intern c').2.Extends final)
    (same : (ps.intern c).1 = (ps'.intern c').1) : c.key = c'.key := by
  have place := indexOf?_of_intern_extends grown
  rw [same] at place
  exact Table.key_eq_of_indexOf? place (indexOf?_of_intern_extends grown')

namespace Encodes

variable {catalog catalog' : Catalog} {outer outer' : Option String} {slot : Nat} {e e' : Expr}
  {ps ps' ps₁ ps₁' final : Placeholders} {code code' : Code}

/-- Expressions with the same instructions have the same core. -/
theorem core_eq (h : Encodes catalog outer slot e ps code ps₁)
    (h' : Encodes catalog' outer' slot e' ps' code' ps₁') (tells : catalog.Tells catalog')
    (grown : ps₁.Extends final) (grown' : ps₁'.Extends final)
    (same : code.instructions = code'.instructions) : e.core = e'.core := by
  induction h generalizing outer' e' ps' ps₁' code' with
  | literal is =>
    cases h' with
    | literal is' =>
      cases same
      exact Expr.core_eq_of_literal? is is'
    -- here as below, code of another form ends in another instruction
    | _ => exact absurd (congrArg List.getLast? same) (by simp [List.getLast?_cons])
  | read is found =>
    cases h' with
    | read is' found' =>
      simp only [List.cons.injEq, Instruction.read.injEq, and_true] at same
      cases tells _ _ _ _ found found' (Placeholders.key_eq_of_intern grown grown' same)
      exact Expr.core_eq_of_symbol? is is'
    | _ => exact absurd (congrArg List.getLast? same) (by simp [List.getLast?_cons])
  | mapped _ found _ ih =>
    cases h' with
    | mapped hk' found' =>
      obtain ⟨inKey, last⟩ := List.append_singleton_inj.1 same
      simp only [Instruction.readMapped.injEq] at last
      have is := tells _ _ _ _ found found' (Placeholders.key_eq_of_intern grown grown' last.1)
      have keys := ih hk' ((Placeholders.extends_intern _ _).trans grown)
        ((Placeholders.extends_intern _ _).trans grown') inKey
      rw [Expr.core, Expr.core, keys, Symbol.tracker.inj is]
    | _ => exact absurd (congrArg List.getLast? same) (by simp [List.getLast?_cons])
  | not _ ih =>
    cases h' with
    | not hx' =>
      obtain ⟨inOperand, -⟩ := List.append_singleton_inj.1 same
      rw [Expr.core, Expr.core, ih hx' grown grown' inOperand]
    | _ => exact absurd (congrArg List.getLast? same) (by simp [List.getLast?_cons])
  | binary isUpdate hl hr ihl ihr =>
    cases h' with
    | binary isUpdate' hl' hr' =>
      obtain ⟨operands, last⟩ := List.append_singleton_inj.1 same
      simp only [Instruction.compute.injEq] at last
      obtain ⟨operation, leftSlot, -⟩ := last
      -- the left operands write as many slots, so they end at the same place
      obtain ⟨i, rest, inRight, writes⟩ := hr.begins
      obtain ⟨i', rest', inRight', writes'⟩ := hr'.begins
      rw [inRight, inRight'] at operands
      obtain ⟨inLeft, rfl, rfl⟩ := Instruction.append_inj writes writes' operands
        (hl.countP_writes_eq hl' leftSlot)
      rw [← leftSlot] at hr'
      have lefts := ihl hl' (hr.placeholders_extend.trans grown)
        (hr'.placeholders_extend.trans grown') inLeft
      have rights := ihr hr' grown grown' (inRight.trans inRight'.symm)
      rw [Expr.core, Expr.core, lefts, rights,
        BinaryOp.operation_inj (isUpdate.trans isUpdate'.symm) operation]
    | _ => exact absurd (congrArg List.getLast? same) (by simp [List.getLast?_cons])
  | update isUpdate found _ hv ih =>
    cases h' with
    | update isUpdate' found' _ hv' =>
      simp only [List.cons_append, List.cons.injEq, Instruction.read.injEq] at same
      obtain ⟨place, same⟩ := same
      obtain ⟨inValue, ends⟩ := List.append_inj' same rfl
      simp only [List.cons.injEq, Instruction.compute.injEq, and_true] at ends
      have is := tells _ _ _ _ found found' (Placeholders.key_eq_of_intern
        (hv.placeholders_extend.trans grown) (hv'.placeholders_extend.trans grown') place)
      rw [Expr.core, Expr.core, Expr.core, Expr.core, ih hv' grown grown' inValue,
        Symbol.tracker.inj is, BinaryOp.operation_inj (isUpdate.trans isUpdate'.symm) ends.1.1]
    | _ => exact absurd (congrArg List.getLast? same) (by simp [List.getLast?_cons])
  | updateMapped isUpdate found _ hk hv ihk ihv =>
    cases h' with
    | updateMapped isUpdate' found' _ hk' hv' =>
      obtain ⟨same, ends⟩ := List.append_inj' same rfl
      simp only [List.cons.injEq, Instruction.compute.injEq, Instruction.storeMapped.injEq,
        and_true] at ends
      obtain ⟨⟨operation, -, -⟩, -, -, keySlot⟩ := ends
      -- the store names the slot of the key, which tells where the key ends
      obtain ⟨inKey, reads, inValue⟩ := Instruction.append_inj rfl rfl same
        (hk.countP_writes_eq hk' keySlot)
      simp only [Instruction.readMapped.injEq] at reads
      rw [← keySlot] at hv'
      have is := tells _ _ _ _ found found' (Placeholders.key_eq_of_intern
        (hv.placeholders_extend.trans grown) (hv'.placeholders_extend.trans grown') reads.1)
      have keys := ihk hk'
        ((Placeholders.extends_intern _ _).trans (hv.placeholders_extend.trans grown))
        ((Placeholders.extends_intern _ _).trans (hv'.placeholders_extend.trans grown')) inKey
      rw [Expr.core, Expr.core, Expr.core, Expr.core, keys, ihv hv' grown grown' inValue,
        Symbol.tracker.inj is, BinaryOp.operation_inj (isUpdate.trans isUpdate'.symm) operation]
    | _ => exact absurd (congrArg List.getLast? same) (by simp [List.getLast?_cons])

end Encodes

/-! ### Reading instructions off their words -/

/-- A value as its word and raw data show it: a boolean is a number. -/
def Operand.plain : Operand → Operand
  | boolean value => number (BitVec.ofNat 256 (if value then 1 else 0))
  | value => value

/-- The word and the raw data of a value tell the value, booleans aside. -/
theorem Operand.plain_eq {hash : Bytes → Bytes} {value value' : Operand}
    (word : value.word hash = value'.word hash) (raw : value.raw? = value'.raw?) :
    value.plain = value'.plain := by
  cases value with
  | text v =>
    cases value' with
    | text v' =>
      simp only [raw?, Option.some.injEq, Prod.mk.injEq, true_and] at raw
      have decoded := congrArg Text.Utf8.decodeLossy raw
      rw [Text.Utf8.decodeLossy_encode, Text.Utf8.decodeLossy_encode] at decoded
      rw [String.toList_injective decoded]
    | _ => simp [raw?] at raw
  | bytes v =>
    cases value' with
    | bytes v' =>
      simp only [raw?, Option.some.injEq, Prod.mk.injEq, true_and] at raw
      rw [raw]
    | _ => simp [raw?] at raw
  | address v =>
    cases value' with
    | address v' => rw [show v = v' from word]
    | _ => simp [raw?] at raw
  | number v =>
    cases value' with
    | number v' => rw [show v = v' from word]
    -- a boolean and a number with the same word are the same plain number
    | boolean v' => exact congrArg Operand.number word
    | _ => simp [raw?] at raw
  | boolean v =>
    cases value' with
    | number v' => exact congrArg Operand.number word
    | boolean v' => exact congrArg Operand.number word
    | _ => simp [raw?] at raw

namespace Instruction

/-- The instruction with its literal as words show it. -/
def plain : Instruction Operand Nat → Instruction Operand Nat
  | literal value => literal value.plain
  | i => i

/-- The numbers of slots, placeholders and trackers in an instruction. -/
def refs : Instruction Operand Nat → List Nat
  | literal _ => []
  | not operand => [operand]
  | read placeholder => [placeholder]
  | readMapped placeholder key => [placeholder, key]
  | compute _ left right => [left, right]
  | store tracker value spare => [tracker, value, spare]
  | storeMapped tracker value key => [tracker, value, key]

end Instruction

/-- The numbers in a code are those of its slots, of placeholders and of trackers. -/
theorem Encodes.refs_lt {catalog : Catalog} {outer : Option String} {slot : Nat} {e : Expr}
    {ps ps' final : Placeholders} {code : Code} (h : Encodes catalog outer slot e ps code ps')
    (grown : ps'.Extends final) (places : final.size ≤ UInt64.size)
    (slots : code.slot < UInt64.size) :
    ∀ i ∈ code.instructions, ∀ n ∈ i.refs, n < UInt64.size := by
  -- a placeholder that is interned stays in the final table, so its place is below the size of that
  have place : ∀ {ps : Placeholders} {c : Component}, (ps.intern c).2.Extends final →
      (ps.intern c).1 < UInt64.size := by
    intro ps c grown
    have place := Placeholders.indexOf?_of_intern_extends grown
    exact Nat.lt_of_lt_of_le (Table.lt_size_of_indexOf? place) places
  induction h with
  | literal => simp [Instruction.refs]
  | read => simp [Instruction.refs, place grown]
  | mapped hk _ _ ih =>
    simp only [List.forall_mem_append, List.forall_mem_singleton, Instruction.refs,
      List.forall_mem_cons] at slots ⊢
    exact ⟨ih ((Placeholders.extends_intern _ _).trans grown) (by omega), place grown, by omega⟩
  | not _ ih =>
    simp only [List.forall_mem_append, List.forall_mem_singleton, Instruction.refs] at slots ⊢
    exact ⟨ih grown (by omega), by omega⟩
  | binary _ _ hr ihl ihr =>
    have above := hr.slot_le
    simp only [List.forall_mem_append, List.forall_mem_singleton, Instruction.refs,
      List.forall_mem_cons] at slots ⊢
    exact ⟨⟨ihl (hr.placeholders_extend.trans grown) (by omega), ihr grown (by omega)⟩,
      by omega, by omega⟩
  | @update _ _ _ _ c _ _ _ _ _ _ hv ih =>
    have above := hv.slot_le
    have index := c.index.toNat_lt_size
    simp only [List.cons_append, List.forall_mem_append, List.forall_mem_singleton,
      Instruction.refs, List.forall_mem_cons] at slots ⊢
    exact ⟨place (hv.placeholders_extend.trans grown), ih grown (by omega), ⟨by omega, by omega⟩,
      index, slots, by decide⟩
  | @updateMapped _ _ _ _ _ c _ _ _ _ _ _ _ _ hk hv ihk ihv =>
    have above := hv.slot_le
    have index := c.index.toNat_lt_size
    have entered := hv.placeholders_extend.trans grown
    simp only [List.append_assoc, List.cons_append, List.forall_mem_append,
      List.forall_mem_singleton, Instruction.refs, List.forall_mem_cons] at slots ⊢
    exact ⟨ihk ((Placeholders.extends_intern _ _).trans entered) (by omega),
      ⟨place entered, by omega⟩, ihv grown (by omega), ⟨by omega, by omega⟩, index, slots,
      by omega⟩

/-- What a stream shows of an item. -/
def Item.shown (registry : Registry) (item : Item) : Word × Option (ValueType × Bytes) :=
  (item.number Keccak.hash registry, item.raw?)

/-- Indices that fit in 64 bits are told apart by their words. -/
theorem Item.shown_ofNat_inj {registry : Registry} {n n' : Nat} (lt : n < UInt64.size)
    (lt' : n' < UInt64.size)
    (h : (Item.ofNat n).shown registry = (Item.ofNat n').shown registry) : n = n' := by
  have words : BitVec.ofNat 256 n = BitVec.ofNat 256 n' := congrArg Prod.fst h
  have numbers := congrArg Word.index? words
  rwa [Word.index?_ofNat lt, Word.index?_ofNat lt', Option.some.injEq] at numbers

/-- Opcodes that have numbers are told apart by their words. -/
theorem Item.opcode_eq_of_shown {registry : Registry} {op op' : Opcode}
    (known : (Item.opcode op).Known registry) (known' : (Item.opcode op').Known registry)
    (h : (Item.opcode op).shown registry = (Item.opcode op').shown registry) : op = op' := by
  obtain ⟨code, has⟩ := known
  obtain ⟨code', has'⟩ := known'
  have words : (Item.opcode op).number Keccak.hash registry =
      (Item.opcode op').number Keccak.hash registry := congrArg Prod.fst h
  simp only [Item.number, has, has', Option.getD_some] at words
  have same : code = code' := by
    have := congrArg Word.low64 words
    rwa [Word.low64_ofNat, Word.low64_ofNat] at this
  subst same
  exact Option.some.inj ((Registry.opcode?_of_get? has).symm.trans (Registry.opcode?_of_get? has'))

/-- A stream tells the items it was made of as far as it shows them. -/
theorem Stream.shown_eq {registry : Registry} {items items' : List Item} {stream : Stream}
    (h : Stream.ofItems registry items = .ok stream)
    (h' : Stream.ofItems registry items' = .ok stream) :
    items.map (Item.shown registry) = items'.map (Item.shown registry) := by
  obtain ⟨-, rfl⟩ := Stream.ofItems_eq_ok_iff.1 h
  obtain ⟨-, same⟩ := Stream.ofItems_eq_ok_iff.1 h'
  obtain ⟨words, raw⟩ := Stream.mk.inj same
  have agrees := RawData.agrees_ofItems 0 items
  have agrees' := RawData.agrees_ofItems 0 items'
  rw [raw] at agrees
  -- item by item: the word is given, and the raw data of an item is what is stored under its place
  apply List.ext_getElem?
  intro k
  have word := congrArg (fun ws : List Word => ws[k]?) words
  simp only [List.getElem?_map] at word ⊢
  cases at_k : items[k]? with
  | none =>
    cases at_k' : items'[k]? with
    | none => rfl
    | some item' => simp [at_k, at_k'] at word
  | some item =>
    cases at_k' : items'[k]? with
    | none => simp [at_k, at_k'] at word
    | some item' =>
      simp only [at_k, at_k', Option.map_some, Option.some.injEq] at word ⊢
      have entry := (agrees k item at_k).symm.trans (agrees' k item' at_k')
      have data := congrArg (Option.map fun entry : RawEntry => (entry.valueType, entry.data)) entry
      have raw : item.raw? = item'.raw? := by
        simpa [Item.rawAt?, Option.map_map, Function.comp_def] using data
      rw [Item.shown, Item.shown, word, raw]

/-- So are lists of indices. -/
theorem Item.map_ofNat_inj {registry : Registry} (ns : List Nat) {ms : List Nat}
    (h : (ns.map Item.ofNat).map (Item.shown registry) =
      (ms.map Item.ofNat).map (Item.shown registry))
    (fits : ∀ n ∈ ns, n < UInt64.size) (fits' : ∀ m ∈ ms, m < UInt64.size) : ns = ms := by
  induction ns generalizing ms with
  | nil =>
    cases ms with
    | nil => rfl
    | cons m ms => cases h
  | cons n ns ih =>
    cases ms with
    | nil => cases h
    | cons m ms =>
      obtain ⟨first, rest⟩ := List.cons.inj h
      obtain ⟨lt, fits⟩ := List.forall_mem_cons.1 fits
      obtain ⟨lt', fits'⟩ := List.forall_mem_cons.1 fits'
      rw [Item.shown_ofNat_inj lt lt' first, ih rest fits fits']

namespace Instruction

variable {registry : Registry}

/-- The opcode and what is shown of the operands tell an instruction whose numbers fit. -/
theorem plain_eq {i j : Instruction Operand Nat} (op : i.opcode = j.opcode)
    (operands : i.operands.map (Item.shown registry) = j.operands.map (Item.shown registry))
    (fits : ∀ n ∈ i.refs, n < UInt64.size) (fits' : ∀ n ∈ j.refs, n < UInt64.size) :
    i.plain = j.plain := by
  cases i with
  | literal value =>
    cases j with
    | literal value' =>
      obtain ⟨shown, -⟩ := List.cons.inj operands
      obtain ⟨word, raw⟩ := Prod.mk.inj shown
      rw [plain, plain, Operand.plain_eq word raw]
    -- the other instructions have only numbers as operands
    | _ => cases op
  | _ =>
    cases j <;> cases op
    all_goals
      cases Item.map_ofNat_inj (_ :: _) operands fits fits'
      rfl

/-- What is shown of their items tells instructions whose numbers fit. -/
theorem map_plain_eq {is js : List (Instruction Operand Nat)}
    (h : (is.flatMap items).map (Item.shown registry) =
      (js.flatMap items).map (Item.shown registry))
    (known : ∀ item ∈ is.flatMap items, item.Known registry)
    (known' : ∀ item ∈ js.flatMap items, item.Known registry)
    (fits : ∀ i ∈ is, ∀ n ∈ i.refs, n < UInt64.size)
    (fits' : ∀ j ∈ js, ∀ n ∈ j.refs, n < UInt64.size) : is.map plain = js.map plain := by
  induction is generalizing js with
  | nil =>
    cases js with
    | nil => rfl
    | cons j js => simp [items] at h
  | cons i is ih =>
    cases js with
    | nil => simp [items] at h
    | cons j js =>
      rw [List.flatMap_cons] at h known
      rw [List.flatMap_cons] at h known'
      obtain ⟨first, known⟩ := List.forall_mem_append.1 known
      obtain ⟨first', known'⟩ := List.forall_mem_append.1 known'
      obtain ⟨lt, fits⟩ := List.forall_mem_cons.1 fits
      obtain ⟨lt', fits'⟩ := List.forall_mem_cons.1 fits'
      simp only [items, List.cons_append, List.map_cons, List.map_append, List.cons.injEq] at h
      -- the opcode tells how many operands follow, so both lists are cut at the same place
      have op : i.opcode = j.opcode := Item.opcode_eq_of_shown (first _ List.mem_cons_self)
        (first' _ List.mem_cons_self) h.1
      have lengths : (i.operands.map (Item.shown registry)).length =
          (j.operands.map (Item.shown registry)).length := by
        rw [List.length_map, List.length_map, length_operands, length_operands, op]
      obtain ⟨operands, rest⟩ := List.append_inj h.2 lengths
      rw [List.map_cons, List.map_cons, plain_eq op operands lt lt',
        ih rest known known' fits fits']

end Instruction

/-- The words and the raw data of instructions tell the instructions, booleans aside. -/
theorem Stream.map_plain_eq {registry : Registry} {is js : List (Instruction Operand Nat)}
    {stream : Stream} (h : Stream.ofItems registry (is.flatMap Instruction.items) = .ok stream)
    (h' : Stream.ofItems registry (js.flatMap Instruction.items) = .ok stream)
    (fits : ∀ i ∈ is, ∀ n ∈ i.refs, n < UInt64.size)
    (fits' : ∀ j ∈ js, ∀ n ∈ j.refs, n < UInt64.size) :
    is.map Instruction.plain = js.map Instruction.plain :=
  Instruction.map_plain_eq (Stream.shown_eq h h') (Stream.ofItems_eq_ok_iff.1 h).1
    (Stream.ofItems_eq_ok_iff.1 h').1 fits fits'

end RuleCodec
