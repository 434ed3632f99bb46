/-
RuleCodec/Proofs/Gist.lean

What is stored of an expression.

The gist of an expression is what its instructions show, and of that no more
than words and raw data do: calls without their arguments, trackers without
the mark of an update, booleans as numbers.  The stored form of an expression
tells its gist (`Encodes.gist_eq`), and it depends on nothing else but on the
components that the expression refers to (`Encodes.transfer`).
-/
import RuleCodec.Proofs.Decoding
import RuleCodec.Proofs.Nodes

namespace RuleCodec

/-! ### Booleans -/

namespace Expr

/-- The expression with its booleans, those in the arguments of calls aside, as numbers. -/
def numeric : Expr → Expr
  | boolean value => number (BitVec.ofNat 256 (if value then 1 else 0))
  | mapped ref key => mapped ref (numeric key)
  | binary op left right => binary op (numeric left) (numeric right)
  | not operand => not (numeric operand)
  | number value => number value
  | address value => address value
  | text value => text value
  | bytes value => bytes value
  | identifier name => identifier name
  | argument name => argument name
  | tracker ref => tracker ref
  | foreignCall name arguments => foreignCall name arguments
  | global which => global which

/-- The value of a literal is made plain. -/
theorem literal?_numeric (e : Expr) : e.numeric.literal? = e.literal?.map Operand.plain := by
  cases e <;> rfl

theorem symbol?_numeric (e : Expr) : e.numeric.symbol? = e.symbol? := by
  cases e <;> rfl

/-- The core has the same literals. -/
theorem literal?_core (e : Expr) : e.core.literal? = e.literal? := by
  cases e <;> rfl

theorem symbol?_core (e : Expr) : e.core.symbol? = e.symbol? := by
  cases e <;> rfl

end Expr

/-- With numbers for booleans an expression has the code that words show. -/
theorem Encodes.numeric {catalog : Catalog} {outer : Option String} {slot : Nat} {e : Expr}
    {ps ps' : Placeholders} {code : Code} (h : Encodes catalog outer slot e ps code ps') :
    Encodes catalog outer slot e.numeric ps
      ⟨code.instructions.map Instruction.plain, code.slot⟩ ps' := by
  -- only literals change, and their slots do not depend on their values
  induction h with
  | literal is => exact .literal (by rw [Expr.literal?_numeric, is]; rfl)
  | read is found keyType => exact .read (by rw [Expr.symbol?_numeric, is]) found keyType
  | mapped _ found keyType ih =>
    rw [List.map_append]
    exact .mapped ih found keyType
  | not _ ih =>
    rw [List.map_append]
    exact .not ih
  | binary isUpdate _ _ ihl ihr =>
    rw [List.map_append, List.map_append]
    exact .binary isUpdate ihl ihr
  | update isUpdate found keyType _ ih =>
    rw [List.cons_append, List.map_cons, List.map_append, ← List.cons_append]
    exact .update isUpdate found keyType ih
  | updateMapped isUpdate found keyType _ _ ihk ihv =>
    rw [List.map_append, List.map_append, List.map_cons]
    exact .updateMapped isUpdate found keyType ihk ihv

/-- An item with its literal as words show it. -/
def Item.plain : Item → Item
  | opcode op => opcode op
  | operand value => operand value.plain

/-- A plain value has the same word. -/
theorem Item.word_plain (hash : Bytes → Bytes) (registry : Registry) (item : Item) :
    item.plain.word hash registry = item.word hash registry := by
  cases item with
  | opcode op => rfl
  | operand value => cases value <;> rfl

theorem Item.raw?_plain (item : Item) : item.plain.raw? = item.raw? := by
  cases item with
  | opcode op => rfl
  | operand value => cases value <;> rfl

/-- A plain instruction has plain items. -/
theorem Instruction.items_plain (i : Instruction Operand Nat) :
    i.plain.items = i.items.map Item.plain := by
  cases i <;> rfl

/-- A stream does not tell a boolean from a number. -/
theorem Stream.ofItems_plain (registry : Registry) (is : List (Instruction Operand Nat)) :
    Stream.ofItems registry ((is.map Instruction.plain).flatMap Instruction.items) =
      Stream.ofItems registry (is.flatMap Instruction.items) := by
  have items : (is.map Instruction.plain).flatMap Instruction.items =
      (is.flatMap Instruction.items).map Item.plain := by
    rw [List.flatMap_map, List.map_flatMap]
    exact congrArg (List.flatMap · is) (funext Instruction.items_plain)
  have words : Item.word Keccak.hash registry ∘ Item.plain = Item.word Keccak.hash registry :=
    funext (Item.word_plain _ registry)
  rw [items, Stream.ofItems, Stream.ofItems, Stream.ofItemsWith, Stream.ofItemsWith,
    List.mapM_map, words, List.zipIdx_map, List.filterMap_map]
  simp only [Function.comp_def, Prod.map, Item.raw?_plain, id]

/-! ### The gist of an expression -/

namespace Expr

/-- What the stored form of an expression shows. -/
def gist (e : Expr) : Expr :=
  e.numeric.core

/-- What is read by its symbol refers to it. -/
theorem refers?_of_symbol? {e : Expr} {symbol : Symbol} (h : e.symbol? = some symbol) :
    e.refers? = some symbol := by
  cases e <;> first | exact h | cases h

variable {e : Expr}

/-! ### Expressions with one gist -/

/-- What has the gist of a tracker is the tracker, marked as updated or not. -/
theorem exists_eq_tracker {ref : TrackerRef} (h : (tracker ref).gist = e.gist) :
    ∃ update, e = tracker ⟨ref.name, update⟩ := by
  cases e with
  | tracker ref' =>
    simp only [gist, numeric, core, tracker.injEq, TrackerRef.mk.injEq, and_true] at h
    exact ⟨ref'.update, by rw [h]⟩
  | _ => cases h

/-- What has the gist of an entry is that entry, with a key of the same gist. -/
theorem exists_eq_mapped {ref : TrackerRef} {key : Expr} (h : (mapped ref key).gist = e.gist) :
    ∃ update key', e = mapped ⟨ref.name, update⟩ key' ∧ key.gist = key'.gist := by
  cases e with
  | mapped ref' key' =>
    simp only [gist, numeric, core, mapped.injEq, TrackerRef.mk.injEq, and_true] at h
    exact ⟨ref'.update, key', by rw [h.1], h.2⟩
  | _ => cases h

theorem exists_eq_not {operand : Expr} (h : (not operand).gist = e.gist) :
    ∃ operand', e = not operand' ∧ operand.gist = operand'.gist := by
  cases e with
  | not operand' => exact ⟨operand', rfl, not.inj h⟩
  | _ => cases h

/-- What has the gist of an operation is that operation, on operands of the same gist. -/
theorem exists_eq_binary {op : BinaryOp} {left right : Expr}
    (h : (binary op left right).gist = e.gist) :
    ∃ left' right', e = binary op left' right' ∧ left.gist = left'.gist ∧
      right.gist = right'.gist := by
  cases e with
  | binary op' left' right' =>
    obtain ⟨rfl, inLeft, inRight⟩ := binary.inj h
    exact ⟨left', right', rfl, inLeft, inRight⟩
  | _ => cases h

end Expr

/-- Every placeholder is entered under its own index and flags. -/
def Placeholders.Keyed (placeholders : Placeholders) : Prop :=
  ∀ entry ∈ placeholders.entries, entry.1 = (entry.2.1.index, entry.2.1.flags)

/-- Interning keeps names and components in step. -/
theorem Placeholders.Keyed.intern {ps : Placeholders} (h : ps.Keyed) (c : Component) :
    (ps.intern c).2.Keyed := by
  rcases place : ps.indexOf? c.key with _ | i
  · rw [intern_of_new place, Keyed,
      Table.insert_entries_of_not_mem (Table.indexOf?_eq_none_iff.1 place)]
    exact List.forall_mem_append.2 ⟨h, List.forall_mem_singleton.2 rfl⟩
  · rw [intern_of_mem place]
    exact h

/-- Then the placeholders and their names make up the table. -/
theorem Placeholders.Keyed.entries_eq {ps : Placeholders} (h : ps.Keyed) :
    ps.entries =
      (ps.items.zip ps.names).map fun value => ((value.1.index, value.1.flags), value) := by
  rw [items, names, List.zip_map', Table.values, List.map_map, List.map_map]
  refine (List.map_id _).symm.trans (List.map_congr_left fun entry mem => ?_)
  obtain ⟨key, placeholder, name⟩ := entry
  exact Prod.ext (h _ mem) rfl

/-- Placeholders in step are told by their components and names. -/
theorem Placeholders.Keyed.eq {ps ps' : Placeholders} (h : ps.Keyed) (h' : ps'.Keyed)
    (items : ps.items = ps'.items) (names : ps.names = ps'.names) : ps = ps' := by
  obtain ⟨entries, distinct⟩ := ps
  obtain ⟨entries', distinct'⟩ := ps'
  have same : entries = entries' := by
    rw [show entries = _ from h.entries_eq, items, names]
    exact h'.entries_eq.symm
  subst same
  rfl

section

variable {catalog : Catalog} {e : Expr} {code : Code} {ps : Placeholders}

/-- So encoding from nothing leaves them in step. -/
theorem Encodes.keyed (h : Encodes catalog none 0 e .empty code ps) : ps.Keyed := by
  refine h.invariant (P := Placeholders.Keyed) ?_ ?_
  · intro ps symbol c keyed found
    exact keyed.intern c
  · intro entry mem
    cases mem

/-- Where the parts of an expression can be numbered, so can all that its code refers to. -/
theorem Encodes.refs_fit (h : Encodes catalog none 0 e .empty code ps)
    (fits : e.nodes.length < UInt64.size) :
    ∀ i ∈ code.instructions, ∀ n ∈ i.refs, n < UInt64.size := by
  have slot := h.slot_lt
  have size := h.size_le
  have none : (Table.empty : Placeholders).size = 0 := rfl
  apply h.refs_lt (Table.Extends.refl _)
  · omega
  · omega

end

/-- **The stored form of an expression tells its gist.** -/
theorem Encodes.gist_eq {catalog catalog' : Catalog} {e e' : Expr} {code code' : Code}
    {ps ps' : Placeholders} {registry : Registry} {stream : Stream}
    (h : Encodes catalog none 0 e .empty code ps) (h' : Encodes catalog' none 0 e' .empty code' ps')
    (tells : catalog.Tells catalog')
    (streamed : Stream.ofItems registry (code.instructions.flatMap Instruction.items) = .ok stream)
    (streamed' :
      Stream.ofItems registry (code'.instructions.flatMap Instruction.items) = .ok stream)
    (items : ps.items = ps'.items) (names : ps.names = ps'.names)
    (fits : e.nodes.length < UInt64.size) (fits' : e'.nodes.length < UInt64.size) :
    e.gist = e'.gist := by
  have same := h.keyed.eq h'.keyed items names
  subst same
  have plain := Stream.map_plain_eq streamed streamed' (h.refs_fit fits) (h'.refs_fit fits')
  exact h.numeric.core_eq h'.numeric tells (Table.Extends.refl _) (Table.Extends.refl _) plain

/-- An expression of which as much is to be stored, over components as good, becomes code of which
words show as much. -/
theorem Encodes.transfer {catalog catalog' : Catalog} {outer : Option String} {slot : Nat}
    {e e' : Expr} {ps ps' : Placeholders} {code : Code}
    (h : Encodes catalog outer slot e ps code ps') (same : e.gist = e'.gist)
    (agree : ∀ n ∈ e'.nodes, ∀ symbol c, n.refers? = some symbol → catalog.get? symbol = some c →
      catalog'.get? symbol = some c) :
    ∃ code', Encodes catalog' outer slot e' ps code' ps' ∧ code'.slot = code.slot ∧
      code'.instructions.map Instruction.plain = code.instructions.map Instruction.plain := by
  -- the gist gives the other expression the same constructor at every node
  induction h generalizing e' with
  | @literal _ slot e value _ is =>
    have is' : e'.literal?.map Operand.plain = some value.plain := by
      rw [← Expr.literal?_numeric, ← Expr.literal?_core, ← Expr.gist, ← same, Expr.gist,
        Expr.literal?_core, Expr.literal?_numeric, is]
      rfl
    obtain ⟨value', is', plain⟩ := Option.map_eq_some_iff.1 is'
    exact ⟨⟨[.literal value'], slot⟩, .literal is', rfl, by simp [Instruction.plain, plain]⟩
  | @read _ _ e symbol c _ is found keyType =>
    have is' : e'.symbol? = some symbol := by
      rw [← Expr.symbol?_numeric, ← Expr.symbol?_core, ← Expr.gist, ← same, Expr.gist,
        Expr.symbol?_core, Expr.symbol?_numeric, is]
    have found' := agree e' e'.self_mem_nodes symbol c (Expr.refers?_of_symbol? is') found
    exact ⟨_, .read is' found' keyType, rfl, rfl⟩
  | mapped _ found keyType ih =>
    obtain ⟨update, key', rfl, inKey⟩ := Expr.exists_eq_mapped same
    obtain ⟨here, agreeKey⟩ := List.forall_mem_cons.1 agree
    obtain ⟨k', hk', slots, plain⟩ := ih inKey agreeKey
    refine ⟨_, .mapped hk' (here _ _ rfl found) keyType, by rw [slots], ?_⟩
    rw [List.map_append, List.map_append, plain, slots]
  | not _ ih =>
    obtain ⟨operand', rfl, inOperand⟩ := Expr.exists_eq_not same
    obtain ⟨x', hx', slots, plain⟩ := ih inOperand (List.forall_mem_cons.1 agree).2
    refine ⟨_, .not hx', by rw [slots], ?_⟩
    rw [List.map_append, List.map_append, plain, slots]
  | binary isUpdate _ _ ihl ihr =>
    obtain ⟨left', right', rfl, inLeft, inRight⟩ := Expr.exists_eq_binary same
    obtain ⟨agreeLeft, agreeRight⟩ := List.forall_mem_append.1 (List.forall_mem_cons.1 agree).2
    obtain ⟨l', hl', slotsLeft, plainLeft⟩ := ihl inLeft agreeLeft
    obtain ⟨r', hr', slotsRight, plainRight⟩ := ihr inRight agreeRight
    -- the right operand begins where the left one has ended
    rw [← slotsLeft] at hr'
    refine ⟨_, .binary isUpdate hl' hr', by rw [slotsRight], ?_⟩
    simp only [List.map_append, plainLeft, plainRight, slotsLeft, slotsRight]
  | update isUpdate found keyType _ ih =>
    obtain ⟨left', right', rfl, inLeft, inRight⟩ := Expr.exists_eq_binary same
    obtain ⟨update, rfl⟩ := Expr.exists_eq_tracker inLeft
    obtain ⟨agreeLeft, agreeRight⟩ := List.forall_mem_append.1 (List.forall_mem_cons.1 agree).2
    have found' := agreeLeft _ List.mem_cons_self _ _ rfl found
    obtain ⟨v', hv', slots, plain⟩ := ih inRight agreeRight
    refine ⟨_, .update isUpdate found' keyType hv', by rw [slots], ?_⟩
    simp only [List.map_append, List.map_cons, plain, slots]
  | updateMapped isUpdate found keyType _ _ ihk ihv =>
    obtain ⟨left', right', rfl, inLeft, inRight⟩ := Expr.exists_eq_binary same
    obtain ⟨update, key', rfl, inKey⟩ := Expr.exists_eq_mapped inLeft
    obtain ⟨agreeLeft, agreeRight⟩ := List.forall_mem_append.1 (List.forall_mem_cons.1 agree).2
    obtain ⟨here, agreeKey⟩ := List.forall_mem_cons.1 agreeLeft
    obtain ⟨k', hk', slotsKey, plainKey⟩ := ihk inKey agreeKey
    obtain ⟨v', hv', slots, plain⟩ := ihv inRight agreeRight
    rw [← slotsKey] at hv'
    refine ⟨_, .updateMapped isUpdate (here _ _ rfl found) keyType hk' hv', by rw [slots], ?_⟩
    simp only [List.map_append, List.map_cons, plainKey, plain, slotsKey, slots]

end RuleCodec
