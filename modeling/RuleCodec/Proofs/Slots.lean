/-
RuleCodec/Proofs/Slots.lean

Slots: when they are written, and what uses them.

The items of an encoded expression fall into instructions in one way only.
Read in order, these instructions look up no slot before it is written, and
every slot but the last is made into another value exactly once.  The last one
holds the value of the whole expression and nothing is made of it
(`Expr.slots_encode`).  What the items do, cut and read as instructions, is what
the expression says (`Expr.performAll_pieces`).

Design.  A store looks slots up but writes none, and the key of a mapped update
is looked up twice, by the read and by the store.  So looking up and taking are
kept apart: an instruction takes the slots that it looks up if it writes.  What
is taken is counted over a whole code, which makes the two operands of an
operation and the places of all instructions a matter of sums.
-/
import RuleCodec.Proofs.Decoding
import RuleCodec.Proofs.Machine

namespace RuleCodec

/-! ### Items in instructions -/

/-- The pieces make up the items: each is an opcode followed by as many items as it has operands. -/
structure Item.Cut (pieces : List (Opcode × List Item)) (items : List Item) : Prop where
  complete : ∀ piece ∈ pieces, piece.2.length = piece.1.operandCount
  whole : pieces.flatMap (fun piece => .opcode piece.1 :: piece.2) = items

/-- The first item tells how long the first piece is, so items are cut in one way. -/
theorem Item.Cut.eq {pieces pieces' : List (Opcode × List Item)} {items : List Item}
    (h : Cut pieces items) (h' : Cut pieces' items) : pieces = pieces' := by
  induction pieces generalizing pieces' items with
  | nil =>
    obtain ⟨-, rfl⟩ := h
    cases pieces' with
    | nil => rfl
    | cons piece' rest' => cases h'.whole
  | cons piece rest ih =>
    obtain ⟨complete, rfl⟩ := h
    obtain ⟨complete', whole⟩ := h'
    cases pieces' with
    | nil => cases whole
    | cons piece' rest' =>
      obtain ⟨op, operands⟩ := piece
      obtain ⟨op', operands'⟩ := piece'
      obtain ⟨first, others⟩ := List.forall_mem_cons.1 complete
      obtain ⟨first', others'⟩ := List.forall_mem_cons.1 complete'
      simp only [List.flatMap_cons, List.cons_append, List.cons.injEq, Item.opcode.injEq] at whole
      obtain ⟨rfl, behind⟩ := whole
      -- the opcode tells how many operands follow, so the first pieces end together
      obtain ⟨rfl, rests⟩ := List.append_inj behind (first'.trans first.symm)
      rw [ih ⟨others, rfl⟩ ⟨others', rests⟩]

/-- The places at which an opcode has slots among its operands.  Placeholders and trackers are no
slots, and neither is the spare operand of a store. -/
def Opcode.slotPlaces : Opcode → List Nat
  | literal | read => []
  | not => [0]
  | compute _ => [0, 1]
  | readMapped | store => [1]
  | storeMapped => [1, 2]

namespace Instruction

/-- An instruction as a piece of a list of items. -/
def piece (i : Instruction Operand Nat) : Opcode × List Item :=
  (i.opcode, i.operands)

/-- Items are cut into the pieces of their instructions. -/
theorem cut_items (is : List (Instruction Operand Nat)) :
    Item.Cut (is.map piece) (is.flatMap items) where
  complete := by
    intro piece mem
    obtain ⟨i, -, rfl⟩ := List.mem_map.1 mem
    exact i.length_operands
  whole := by
    rw [List.flatMap_map]
    rfl

theorem exists_operand (i : Instruction Operand Nat) :
    ∀ item ∈ i.operands, ∃ value, item = .operand value := by
  cases i <;> simp [operands, Item.ofNat]

/-! ### Looking up and taking -/

section

variable {Literal Ref : Type}

/-- The slots that an instruction looks up. -/
def slots : Instruction Literal Ref → List Ref
  | literal _ | read _ => []
  | not operand => [operand]
  | readMapped _ key => [key]
  | compute _ left right => [left, right]
  | store _ value _ => [value]
  | storeMapped _ value key => [value, key]

/-- The slots of which an instruction makes another value. -/
def taken (i : Instruction Literal Ref) : List Ref :=
  if i.writes then i.slots else []

end

/-- In a piece, the slots that its instruction looks up are the operands at the places of slots. -/
theorem map_slotPlaces (i : Instruction Operand Nat) :
    i.piece.1.slotPlaces.map (fun place => i.piece.2[place]?) =
      i.slots.map fun s => some (Item.ofNat s) := by
  cases i <;> rfl

/-- The instructions look up what was written before, where `written` slots are there to begin
with. -/
def LookUpWritten : (written : Nat) → List (Instruction Operand Nat) → Prop
  | _, [] => True
  | written, i :: rest =>
    (∀ s ∈ i.slots, s < written) ∧ LookUpWritten (written + if i.writes then 1 else 0) rest

/-- Instructions behind others look at what these have written too. -/
theorem lookUpWritten_append {written : Nat} {first second : List (Instruction Operand Nat)} :
    LookUpWritten written (first ++ second) ↔
      LookUpWritten written first ∧ LookUpWritten (written + first.countP writes) second := by
  induction first generalizing written with
  | nil => simp [LookUpWritten]
  | cons i first ih =>
    rw [List.cons_append, LookUpWritten, LookUpWritten, ih, List.countP_cons, and_assoc,
      Nat.add_assoc, Nat.add_comm (first.countP writes)]

/-- An instruction looks only at slots that were written before it. -/
theorem LookUpWritten.lt_countP {written k s : Nat} {is : List (Instruction Operand Nat)}
    {i : Instruction Operand Nat} (h : LookUpWritten written is) (at_k : is[k]? = some i)
    (mem : s ∈ i.slots) : s < written + (is.take k).countP writes := by
  obtain ⟨lt, rfl⟩ := List.getElem?_eq_some_iff.1 at_k
  rw [← List.take_append_drop k is, lookUpWritten_append, List.drop_eq_getElem_cons lt] at h
  exact h.2.1 s mem

/-- The instruction at a place makes a value of what is in a slot. -/
def Takes (is : List (Instruction Operand Nat)) (k s : Nat) : Prop :=
  ∃ i, is[k]? = some i ∧ s ∈ i.taken

section

variable {i : Instruction Operand Nat} {is : List (Instruction Operand Nat)} {k s : Nat}

theorem takes_cons_zero : Takes (i :: is) 0 s ↔ s ∈ i.taken := by
  simp [Takes]

theorem takes_cons_succ : Takes (i :: is) (k + 1) s ↔ Takes is k s := by
  simp [Takes]

theorem Takes.mem (h : Takes is k s) : s ∈ is.flatMap taken := by
  obtain ⟨i, at_k, mem⟩ := h
  exact List.mem_flatMap.2 ⟨i, List.mem_of_getElem? at_k, mem⟩

/-- A slot that is taken once is taken in one place. -/
theorem existsUnique_takes (once : (is.flatMap taken).count s = 1) : ∃! k, Takes is k s := by
  induction is with
  | nil => simp at once
  | cons i is ih =>
    rw [List.flatMap_cons, List.count_append] at once
    -- the one place is here or behind, and never both
    by_cases here : s ∈ i.taken
    · have first := List.count_pos_iff.2 here
      have later : s ∉ is.flatMap taken := List.count_eq_zero.1 (by omega)
      refine ⟨0, takes_cons_zero.2 here, fun k takes => ?_⟩
      cases k with
      | zero => rfl
      | succ k => exact absurd (takes_cons_succ.1 takes).mem later
    · rw [List.count_eq_zero.2 here, Nat.zero_add] at once
      obtain ⟨k, takes, only⟩ := ih once
      refine ⟨k + 1, takes_cons_succ.2 takes, fun k' takes' => ?_⟩
      cases k' with
      | zero => exact absurd (takes_cons_zero.1 takes') here
      | succ k' => rw [only k' (takes_cons_succ.1 takes')]

end

/-- How instructions whose value is in the slot `last` deal with slots. -/
structure KeepSlots (is : List (Instruction Operand Nat)) (last : Nat) : Prop where
  /-- Their items are cut in one way. -/
  cut : ∀ pieces, Item.Cut pieces (is.flatMap items) ↔ pieces = is.map piece
  operands : ∀ i ∈ is, ∀ item ∈ i.operands, ∃ value, item = .operand value
  /-- The slots that are looked up stand in the pieces, at the places where an opcode has slots. -/
  slots : ∀ i ∈ is, i.piece.1.slotPlaces.map (fun place => i.piece.2[place]?) =
    i.slots.map fun s => some (Item.ofNat s)
  /-- A slot is looked up after it was written. -/
  written : ∀ k i, is[k]? = some i → ∀ s ∈ i.slots, s < (is.take k).countP writes
  last_written : is.countP writes = last + 1
  taken_once : ∀ s < last, ∃! k, Takes is k s
  last_free : ∀ k, ¬ Takes is k last

end Instruction

/-! ### Codes -/

namespace Encodes

open Instruction

variable {catalog : Catalog} {outer : Option String} {slot : Nat} {e : Expr}
  {ps ps' : Placeholders} {code : Code}

/-- Encoded instructions look only at what is written. -/
theorem lookUpWritten (h : Encodes catalog outer slot e ps code ps') :
    LookUpWritten slot code.instructions := by
  induction h with
  | literal => simp [LookUpWritten, slots]
  | read => simp [LookUpWritten, slots]
  | mapped hk _ _ ih =>
    rw [lookUpWritten_append, hk.countP_writes]
    exact ⟨ih, by simp [LookUpWritten, slots]⟩
  | not hx ih =>
    rw [lookUpWritten_append, hx.countP_writes]
    exact ⟨ih, by simp [LookUpWritten, slots]⟩
  | binary _ hl hr ihl ihr =>
    have above := hr.slot_le
    rw [lookUpWritten_append, lookUpWritten_append, List.countP_append, ← Nat.add_assoc,
      hl.countP_writes, hr.countP_writes]
    refine ⟨⟨ihl, ihr⟩, ?_⟩
    simp only [LookUpWritten, slots, List.mem_cons, List.not_mem_nil, or_false, forall_eq_or_imp,
      forall_eq, and_true]
    omega
  -- the slot of the read is there before the value begins, and the store looks up the slot that
  -- was written just before it
  | update _ _ _ hv ih =>
    have above := hv.slot_le
    rw [List.cons_append, LookUpWritten, lookUpWritten_append]
    simp only [writes, if_true, hv.countP_writes]
    refine ⟨by simp [slots], ih, ?_⟩
    simp only [LookUpWritten, slots, writes, if_true, List.mem_cons, List.not_mem_nil, or_false,
      forall_eq_or_imp, forall_eq, and_true]
    omega
  -- and here the store looks up the key as well, which the read did before
  | updateMapped _ _ _ hk hv ihk ihv =>
    have above := hv.slot_le
    rw [List.append_assoc, lookUpWritten_append, hk.countP_writes, List.cons_append, LookUpWritten,
      lookUpWritten_append]
    simp only [writes, if_true, hv.countP_writes]
    refine ⟨ihk, by simp [slots], ihv, ?_⟩
    simp only [LookUpWritten, slots, writes, if_true, List.mem_cons, List.not_mem_nil, or_false,
      forall_eq_or_imp, forall_eq, and_true]
    omega

/-- A code that writes from `slot` on takes each slot below its own once and no other. -/
theorem count_taken (h : Encodes catalog outer slot e ps code ps') (s : Nat) :
    (code.instructions.flatMap taken).count s = if slot ≤ s ∧ s < code.slot then 1 else 0 := by
  -- the parts of an expression write to neighbouring slots, so their counts do not meet
  induction h with
  | literal => simp [taken, slots]
  | read => simp [taken, slots]
  | mapped hk _ _ ih =>
    have above := hk.slot_le
    simp only [List.flatMap_append, List.flatMap_singleton, taken, writes, slots, if_true,
      List.count_append, ih, List.count_singleton]
    grind
  | not hx ih =>
    have above := hx.slot_le
    simp only [List.flatMap_append, List.flatMap_singleton, taken, writes, slots, if_true,
      List.count_append, ih, List.count_singleton]
    grind
  | binary _ hl hr ihl ihr =>
    have below := hl.slot_le
    have above := hr.slot_le
    simp only [List.flatMap_append, List.flatMap_singleton, taken, writes, slots, if_true,
      List.count_append, ihl, ihr, List.count_cons, List.count_nil]
    grind
  | update _ _ _ hv ih =>
    have above := hv.slot_le
    simp only [List.cons_append, List.flatMap_append, List.flatMap_cons, List.flatMap_nil, taken,
      writes, slots, if_true, List.count_append, ih, List.count_cons, List.count_nil]
    grind
  | updateMapped _ _ _ hk hv ihk ihv =>
    have below := hk.slot_le
    have above := hv.slot_le
    simp only [List.flatMap_append, List.flatMap_cons, List.flatMap_nil, taken, writes, slots,
      if_true, List.count_append, ihk, ihv, List.count_cons, List.count_nil]
    grind

end Encodes

/-- **Every slot is written first and used once.**  The items of an encoded expression fall into
instructions in one way; each slot that is looked up was written before; each slot but that of the
expression's value is taken by exactly one instruction that writes, and that one by none. -/
theorem Expr.slots_encode {catalog : Catalog} {e : Expr} {ps ps' : Placeholders}
    {instructions : List (Instruction Operand Nat)}
    (encoded : e.encode catalog ps = (.ok instructions, ps')) :
    ∃ last, Encoder.expression catalog none 0 e ps = (.ok ⟨instructions, last⟩, ps') ∧
      Instruction.KeepSlots instructions last := by
  obtain ⟨code, h, rfl⟩ := Expr.encodes_of_encode encoded
  refine ⟨code.slot, Encoder.expression_of_encodes h, ?_, ?_, ?_, ?_, ?_, ?_, ?_⟩
  · -- another cut of the same items is the same cut
    intro pieces
    have cut := Instruction.cut_items code.instructions
    exact ⟨fun other => other.eq cut, fun is => is ▸ cut⟩
  · exact fun i _ => i.exists_operand
  · exact fun i _ => i.map_slotPlaces
  · intro k i at_k s mem
    have lt := h.lookUpWritten.lt_countP at_k mem
    rwa [Nat.zero_add] at lt
  · have writes := h.countP_writes
    rwa [Nat.zero_add] at writes
  · -- a slot below the last is taken once, so in one place
    intro s lt
    apply Instruction.existsUnique_takes
    rw [h.count_taken, if_pos ⟨Nat.zero_le s, lt⟩]
  · -- and the last one not at all
    intro k takes
    have none := h.count_taken code.slot
    rw [if_neg fun between => Nat.lt_irrefl _ between.2] at none
    exact List.count_eq_zero.1 none takes.mem

/-- `(TRU:m(GV:MSG_SENDER) += 2) > 3`, with a placeholder there before: the key in slot 0 is looked
up by the read and by the store, and the store comes between a value and its use. -/
theorem Expr.slots_encode_nested_update :
    let catalog : Catalog := .ofList
      [(.tracker "m", ⟨"TR:m", 7, "tracker", some "uint256", none, .tracker, .uint256,
        some .address⟩), (.global .msgSender, Scope.globalComponent .msgSender)]
    let e : Expr := .binary (.plain .greater)
      (.binary (.compound .add) (.mapped ⟨"m", true⟩ (.global .msgSender)) (.number 2)) (.number 3)
    let ps : Placeholders := (Placeholders.intern .empty (Scope.globalComponent .txOrigin)).2
    let instructions : List (Instruction Operand Nat) :=
      [.read 1, .readMapped 2 0, .literal (.number 2), .compute (.arith .add) 1 2,
        .storeMapped 7 3 0, .literal (.number 3), .compute .greater 3 4]
    (e.encode catalog ps).1 = .ok instructions ∧
      ∃ last, Encoder.expression catalog none 0 e ps =
          (.ok ⟨instructions, last⟩, (e.encode catalog ps).2) ∧
        Instruction.KeepSlots instructions last := by
  intro catalog e ps instructions
  have encoded : e.encode catalog ps = (.ok instructions, (e.encode catalog ps).2) := rfl
  exact ⟨rfl, Expr.slots_encode encoded⟩

/-! ### Performing the items -/

namespace Instruction

/-- The instruction that a piece is read as. -/
def ofPiece? : Opcode × List Item → Option (Instruction Operand Nat)
  | (.literal, [.operand value]) => some (literal value)
  | (.not, [.operand (.number operand)]) => some (not operand.toNat)
  | (.read, [.operand (.number placeholder)]) => some (read placeholder.toNat)
  | (.readMapped, [.operand (.number placeholder), .operand (.number key)]) =>
    some (readMapped placeholder.toNat key.toNat)
  | (.compute op, [.operand (.number left), .operand (.number right)]) =>
    some (compute op left.toNat right.toNat)
  | (.store, [.operand (.number tracker), .operand (.number value), .operand (.number spare)]) =>
    some (store tracker.toNat value.toNat spare.toNat)
  | (.storeMapped, [.operand (.number tracker), .operand (.number value),
      .operand (.number key)]) => some (storeMapped tracker.toNat value.toNat key.toNat)
  | _ => none

/-- An instruction with small numbers is read from its piece. -/
theorem ofPiece?_piece {i : Instruction Operand Nat} (small : ∀ n ∈ i.refs, n < UInt64.size) :
    ofPiece? i.piece = some i := by
  have toNat : ∀ n ∈ i.refs, (BitVec.ofNat 256 n).toNat = n := fun n mem => by
    rw [BitVec.toNat_ofNat, Nat.mod_eq_of_lt (Nat.lt_trans (small n mem) (by decide))]
  cases i <;> simp_all [piece, operands, opcode, Item.ofNat, ofPiece?, refs]

/-- Instructions are read back from their pieces if their numbers fit in 64 bits. -/
theorem mapM_ofPiece? {is : List (Instruction Operand Nat)}
    (small : ∀ i ∈ is, ∀ n ∈ i.refs, n < UInt64.size) : (is.map piece).mapM ofPiece? = some is := by
  induction is with
  | nil => rfl
  | cons i is ih =>
    obtain ⟨here, later⟩ := List.forall_mem_cons.1 small
    rw [List.map_cons, List.mapM_cons, ofPiece?_piece here, ih later]
    rfl

end Instruction

universe u

/-- **Items do what their expression says.**  However the items of an encoded expression are cut,
the pieces are read as instructions, and performing these is evaluating the expression.  There are
to be no more placeholders and instructions than can be counted with 64 bits. -/
theorem Expr.performAll_pieces {σ V : Type u} (I : Interpretation σ V) {catalog : Catalog}
    {e : Expr} {ps ps' : Placeholders} {instructions : List (Instruction Operand Nat)}
    (encoded : e.encode catalog ps = (.ok instructions, ps')) (places : ps'.size ≤ UInt64.size)
    (short : instructions.length ≤ UInt64.size) {pieces : List (Opcode × List Item)}
    (cut : Item.Cut pieces (instructions.flatMap Instruction.items)) (w : World σ V) :
    ∃ read memory v w₁, pieces.mapM Instruction.ofPiece? = some read ∧
      I.performAll [] read w = some (memory ++ [v], w₁) ∧
      e.eval I catalog ps' w = some (v, w₁) := by
  obtain ⟨code, h, rfl⟩ := Expr.encodes_of_encode encoded
  -- each slot is written by an instruction, so the slots are no more than these
  have slots : code.slot < UInt64.size := by
    have written := h.countP_writes
    have le := code.instructions.countP_le_length (p := Instruction.writes)
    omega
  have small := h.refs_lt (Table.Extends.refl ps') places slots
  have read : pieces.mapM Instruction.ofPiece? = some code.instructions := by
    rw [cut.eq (Instruction.cut_items code.instructions)]
    exact Instruction.mapM_ofPiece? small
  obtain ⟨before, v, w₁, evaluated, leaves⟩ :=
    h.agree (I := I) (Table.Extends.refl ps') [] rfl w
  exact ⟨code.instructions, before, v, w₁, read, leaves.performs, evaluated⟩

end RuleCodec
