/-
RuleCodec/Proofs/Machine.lean

What the instructions of an expression do.

An `Interpretation` gives a meaning to everything a rule can ask of its
runtime: the value of a literal, of a placeholder, of a mapped tracker at a
key, of a negation and of an operation, and the two kinds of store.  Each may
read and change a state of any type.  Under it an expression has two readings.
`Expr.eval` walks the tree, operands from left to right before their operator.
`Interpretation.perform` carries out one instruction over a memory that only
grows at its end.  `Expr.performAll_encode` says that the two agree: the emitted
instructions perform the same operations in the same order, end in the same
state, and leave the value of the tree in the last slot.

Design.  A run keeps the list of the operations it has performed beside the
state, so "the same operations" is an equation of two runs.  Runs can fail, at
a slot not yet written or a reference without a placeholder; that neither
happens is part of what is proved.
-/
import RuleCodec.Proofs.Encoding

namespace RuleCodec

universe u v

/-! ### Operations and their meaning -/

/-- An operation that gives a value. -/
inductive Query (V : Type u)
  | literal (value : Operand)
  | read (placeholder : Nat)
  | readMapped (placeholder : Nat) (key : V)
  | not (operand : V)
  | compute (op : Operation) (left right : V)

/-- An operation that stores a value in a tracker. -/
inductive Storing (V : Type u)
  | plain (tracker : Nat) (value : V)
  | mapped (tracker : Nat) (value key : V)

/-- What the operations do to a state, and the values they give. -/
structure Interpretation (σ V : Type u) where
  query : Query V → σ → V × σ
  store : Storing V → σ → σ

/-- A state, and the operations performed so far. -/
structure World (σ V : Type u) where
  state : σ
  performed : List (Query V ⊕ Storing V)

/-- A run that performs operations and may fail. -/
abbrev Run (σ V : Type u) := StateT (World σ V) Option

variable {σ V : Type u}

namespace Run

/-- Goes on with a value that must be there. -/
def given {α : Type v} {β : Type u} (x : Option α) (next : α → Run σ V β) : Run σ V β :=
  match x with
  | some a => next a
  | none => failure

end Run

namespace Interpretation

variable (I : Interpretation σ V)

/-- Performs an operation that gives a value. -/
def ask (query : Query V) : Run σ V V := fun w =>
  some ((I.query query w.state).1, ⟨(I.query query w.state).2, w.performed ++ [.inl query]⟩)

/-- Performs a store. -/
def put (storing : Storing V) : Run σ V PUnit := fun w =>
  some (⟨⟩, ⟨I.store storing w.state, w.performed ++ [.inr storing]⟩)

/-! ### The machine -/

/-- Carries out one instruction.  Every instruction but a store appends its value to the memory. -/
def perform (memory : List V) : Instruction Operand Nat → Run σ V (List V)
  | .literal value => do
    return memory ++ [← I.ask (.literal value)]
  | .not operand =>
    .given memory[operand]? fun x => do
      return memory ++ [← I.ask (.not x)]
  | .read placeholder => do
    return memory ++ [← I.ask (.read placeholder)]
  | .readMapped placeholder key =>
    .given memory[key]? fun k => do
      return memory ++ [← I.ask (.readMapped placeholder k)]
  | .compute op left right =>
    .given memory[left]? fun l => .given memory[right]? fun r => do
      return memory ++ [← I.ask (.compute op l r)]
  | .store tracker value _ =>
    .given memory[value]? fun x => do
      I.put (.plain tracker x)
      return memory
  | .storeMapped tracker value key =>
    .given memory[value]? fun x => .given memory[key]? fun k => do
      I.put (.mapped tracker x k)
      return memory

/-- Carries out instructions from left to right. -/
def performAll (memory : List V) (instructions : List (Instruction Operand Nat)) :
    Run σ V (List V) :=
  instructions.foldlM I.perform memory

end Interpretation

/-! ### The tree -/

namespace Expr

variable (I : Interpretation σ V) (catalog : Catalog) (placeholders : Placeholders)

/-- Reads the placeholder of a component. -/
def readComponent (c : Component) : Run σ V V :=
  .given (placeholders.indexOf? c.key) fun placeholder => I.ask (.read placeholder)

/-- Reads the placeholder of a mapped tracker at a key. -/
def readComponentAt (c : Component) (key : V) : Run σ V V :=
  .given (placeholders.indexOf? c.key) fun placeholder => I.ask (.readMapped placeholder key)

/-- The value of an expression: operands from left to right, then their operator.  An update
evaluates its key, reads its tracker, evaluates its operand, computes and stores. -/
def eval : Expr → Run σ V V
  | number value => I.ask (.literal (.number value))
  | address value => I.ask (.literal (.address value))
  | text value => I.ask (.literal (.text value))
  | bytes value => I.ask (.literal (.bytes value))
  | boolean value => I.ask (.literal (.boolean value))
  | identifier _ => failure
  | argument name =>
    .given (catalog.get? (.argument name)) (readComponent I placeholders)
  | tracker ref =>
    .given (catalog.get? (.tracker ref.name)) (readComponent I placeholders)
  | foreignCall name _ =>
    .given (catalog.get? (.foreignCall name)) (readComponent I placeholders)
  | global which =>
    .given (catalog.get? (.global which)) (readComponent I placeholders)
  | mapped ref key => do
    let k ← eval key
    .given (catalog.get? (.tracker ref.name)) fun c => readComponentAt I placeholders c k
  | not operand => do
    let x ← eval operand
    I.ask (.not x)
  | binary op left right =>
    if op.isUpdate then
      match left with
      | tracker ref =>
        .given (catalog.get? (.tracker ref.name)) fun c => do
          let current ← readComponent I placeholders c
          let value ← eval right
          let result ← I.ask (.compute op.operation current value)
          I.put (.plain c.index.toNat result)
          return result
      | mapped ref key =>
        .given (catalog.get? (.tracker ref.name)) fun c => do
          let k ← eval key
          let current ← readComponentAt I placeholders c k
          let value ← eval right
          let result ← I.ask (.compute op.operation current value)
          I.put (.mapped c.index.toNat result k)
          return result
      | _ => failure
    else do
      let l ← eval left
      let r ← eval right
      I.ask (.compute op.operation l r)

end Expr

/-! ### Runs step by step -/

namespace Run

variable {α β : Type u} {w w₁ w₂ : World σ V}

/-- Runs are put together one behind the other. -/
theorem bind_eq_some {x : Run σ V α} {f : α → Run σ V β} {a : α} {b : β}
    (first : x w = some (a, w₁)) (second : f a w₁ = some (b, w₂)) :
    (x >>= f) w = some (b, w₂) := by
  show (x w).bind (fun p => f p.1 p.2) = _
  rw [first]
  exact second

theorem given_some {α : Type v} (a : α) (next : α → Run σ V β) : given (some a) next = next a :=
  rfl

end Run

namespace Interpretation

variable (I : Interpretation σ V) {memory memory₁ memory₂ : List V} {w w₁ w₂ : World σ V}

/-- Every question is answered. -/
theorem exists_ask (query : Query V) (w : World σ V) : ∃ v w₁, I.ask query w = some (v, w₁) :=
  ⟨_, _, rfl⟩

/-- Every store is made. -/
theorem exists_put (storing : Storing V) (w : World σ V) : ∃ w₁, I.put storing w = some (⟨⟩, w₁) :=
  ⟨_, rfl⟩

/-- The value of an operation goes to the end of the memory. -/
theorem append_ask {query : Query V} {v : V} (asked : I.ask query w = some (v, w₁)) :
    (do return memory ++ [← I.ask query] : Run σ V (List V)) w = some (memory ++ [v], w₁) :=
  Run.bind_eq_some asked rfl

/-- A negation looks its operand up and writes the answer. -/
theorem perform_not {operand : Nat} {x v : V} (at_operand : memory[operand]? = some x)
    (asked : I.ask (.not x) w = some (v, w₁)) :
    I.perform memory (.not operand) w = some (memory ++ [v], w₁) := by
  rw [perform, at_operand, Run.given_some]
  exact I.append_ask asked

/-- The read of an entry looks its key up. -/
theorem perform_readMapped {placeholder key : Nat} {k v : V} (at_key : memory[key]? = some k)
    (asked : I.ask (.readMapped placeholder k) w = some (v, w₁)) :
    I.perform memory (.readMapped placeholder key) w = some (memory ++ [v], w₁) := by
  rw [perform, at_key, Run.given_some]
  exact I.append_ask asked

/-- A computation looks both operands up. -/
theorem perform_compute {op : Operation} {left right : Nat} {l r v : V}
    (at_left : memory[left]? = some l) (at_right : memory[right]? = some r)
    (asked : I.ask (.compute op l r) w = some (v, w₁)) :
    I.perform memory (.compute op left right) w = some (memory ++ [v], w₁) := by
  rw [perform, at_left, Run.given_some, at_right, Run.given_some]
  exact I.append_ask asked

/-- A store looks its value up, and writes nothing to the memory. -/
theorem perform_store {tracker value spare : Nat} {x : V} (at_value : memory[value]? = some x)
    (stored : I.put (.plain tracker x) w = some (⟨⟩, w₁)) :
    I.perform memory (.store tracker value spare) w = some (memory, w₁) := by
  rw [perform, at_value, Run.given_some]
  exact Run.bind_eq_some stored rfl

theorem perform_storeMapped {tracker value key : Nat} {x k : V}
    (at_value : memory[value]? = some x) (at_key : memory[key]? = some k)
    (stored : I.put (.mapped tracker x k) w = some (⟨⟩, w₁)) :
    I.perform memory (.storeMapped tracker value key) w = some (memory, w₁) := by
  rw [perform, at_value, Run.given_some, at_key, Run.given_some]
  exact Run.bind_eq_some stored rfl

/-- Instructions are performed one part after the other. -/
theorem performAll_append {first second : List (Instruction Operand Nat)}
    (run₁ : I.performAll memory first w = some (memory₁, w₁))
    (run₂ : I.performAll memory₁ second w₁ = some (memory₂, w₂)) :
    I.performAll memory (first ++ second) w = some (memory₂, w₂) := by
  unfold performAll
  rw [List.foldlM_append]
  exact Run.bind_eq_some run₁ run₂

theorem performAll_cons {i : Instruction Operand Nat} {rest : List (Instruction Operand Nat)}
    (run₁ : I.perform memory i w = some (memory₁, w₁))
    (run₂ : I.performAll memory₁ rest w₁ = some (memory₂, w₂)) :
    I.performAll memory (i :: rest) w = some (memory₂, w₂) :=
  Run.bind_eq_some run₁ run₂

theorem performAll_singleton {i : Instruction Operand Nat}
    (run : I.perform memory i w = some (memory₁, w₁)) :
    I.performAll memory [i] w = some (memory₁, w₁) :=
  I.performAll_cons run rfl

end Interpretation

/-! ### Instructions and tree agree -/

namespace Expr

variable {I : Interpretation σ V} {catalog : Catalog} {placeholders : Placeholders}

/-- A literal is evaluated by asking for its value. -/
theorem eval_of_literal {e : Expr} {value : Operand} (h : e.literal? = some value) :
    e.eval I catalog placeholders = I.ask (.literal value) := by
  cases e <;> cases h <;> rfl

/-- A symbol is evaluated by reading its component. -/
theorem eval_of_symbol {e : Expr} {symbol : Symbol} (h : e.symbol? = some symbol) :
    e.eval I catalog placeholders =
      .given (catalog.get? symbol) (readComponent I placeholders) := by
  cases e <;> cases h <;> rfl

/-- A component is read by its place among the placeholders. -/
theorem readComponent_eq {c : Component} {placeholder : Nat}
    (h : placeholders.indexOf? c.key = some placeholder) :
    readComponent I placeholders c = I.ask (.read placeholder) := by
  rw [readComponent, h, Run.given_some]

/-- So is an entry of it. -/
theorem readComponentAt_eq {c : Component} {placeholder : Nat} (key : V)
    (h : placeholders.indexOf? c.key = some placeholder) :
    readComponentAt I placeholders c key = I.ask (.readMapped placeholder key) := by
  rw [readComponentAt, h, Run.given_some]

/-- An operation that is no update evaluates its left operand first. -/
theorem eval_binary {op : BinaryOp} (h : op.isUpdate = false) (left right : Expr) :
    (binary op left right).eval I catalog placeholders = (do
      let l ← left.eval I catalog placeholders
      let r ← right.eval I catalog placeholders
      I.ask (.compute op.operation l r)) := by
  rw [eval.eq_def]
  exact if_neg (Bool.eq_false_iff.1 h)

end Expr

/-- Performing a code from a memory only adds to the memory, and leaves a value in the slot of the
code, the last one. -/
structure Leaves (I : Interpretation σ V) (code : Code) (memory : List V) (w : World σ V)
    (before : List V) (v : V) (w₁ : World σ V) : Prop where
  performs : I.performAll memory code.instructions w = some (before ++ [v], w₁)
  length : before.length = code.slot
  kept : memory <+: before

namespace Leaves

variable {I : Interpretation σ V} {code l r : Code} {i : Instruction Operand Nat} {slot : Nat}
  {memory before bl br : List V} {v next lv rv : V} {w w₁ w₂ w₃ : World σ V}

/-- The next slot to write is the one behind the value. -/
theorem length_memory (h : Leaves I code memory w before v w₁) :
    (before ++ [v]).length = code.slot + 1 := by
  rw [List.length_append, h.length, List.length_singleton]

/-- What was written before is still there. -/
theorem kept_memory (h : Leaves I code memory w before v w₁) : memory <+: before ++ [v] :=
  h.kept.trans (List.prefix_append _ _)

/-- The value stays in its slot, also when more is written. -/
theorem at_slot (h : Leaves I code memory w before v w₁) {later : List V}
    (written : before ++ [v] <+: later) : later[code.slot]? = some v := by
  obtain ⟨more, rfl⟩ := written
  rw [← h.length, List.append_assoc, List.getElem?_append_right (Nat.le_refl _), Nat.sub_self]
  rfl

/-- And it is there to begin with. -/
theorem at_last (h : Leaves I code memory w before v w₁) : (before ++ [v])[code.slot]? = some v :=
  h.at_slot (List.prefix_refl _)

/-- An instruction that writes leaves its value in the slot it was given. -/
theorem of_perform (length : memory.length = slot)
    (run : I.perform memory i w = some (memory ++ [v], w₁)) :
    Leaves I ⟨[i], slot⟩ memory w memory v w₁ where
  performs := I.performAll_singleton run
  length := length
  kept := List.prefix_refl _

/-- An instruction that writes takes the next slot. -/
theorem write (h : Leaves I code memory w before v w₁)
    (run : I.perform (before ++ [v]) i w₁ = some (before ++ [v] ++ [next], w₂)) :
    Leaves I ⟨code.instructions ++ [i], code.slot + 1⟩ memory w (before ++ [v]) next w₂ where
  performs := I.performAll_append h.performs (I.performAll_singleton run)
  length := h.length_memory
  kept := h.kept_memory

/-- A store takes none. -/
theorem store (h : Leaves I code memory w before v w₁)
    (run : I.perform (before ++ [v]) i w₁ = some (before ++ [v], w₂)) :
    Leaves I ⟨code.instructions ++ [i], code.slot⟩ memory w before v w₂ where
  performs := I.performAll_append h.performs (I.performAll_singleton run)
  length := h.length
  kept := h.kept

/-- Code that is performed behind other code leaves its own value. -/
theorem append (hl : Leaves I l memory w bl lv w₁) (hr : Leaves I r (bl ++ [lv]) w₁ br rv w₂) :
    Leaves I ⟨l.instructions ++ r.instructions, r.slot⟩ memory w br rv w₂ where
  performs := I.performAll_append hl.performs hr.performs
  length := hr.length
  kept := hl.kept_memory.trans hr.kept

/-- Two operands and the operation on them.  What the left operand wrote is still there after the
right one. -/
theorem compute {op : Operation} (hl : Leaves I l memory w bl lv w₁)
    (hr : Leaves I r (bl ++ [lv]) w₁ br rv w₂)
    (asked : I.ask (.compute op lv rv) w₂ = some (v, w₃)) :
    Leaves I ⟨l.instructions ++ r.instructions ++ [.compute op l.slot r.slot], r.slot + 1⟩ memory w
      (br ++ [rv]) v w₃ := by
  apply (hl.append hr).write
  exact I.perform_compute (hl.at_slot hr.kept_memory) hr.at_last asked

end Leaves

namespace Encodes

variable {I : Interpretation σ V} {catalog : Catalog} {outer : Option String} {slot : Nat}
  {e : Expr} {ps ps' final : Placeholders} {code : Code}

/-- Evaluating `e` and performing its code from a memory give the same value and the same
world. -/
def Agree (I : Interpretation σ V) (catalog : Catalog) (final : Placeholders) (e : Expr)
    (code : Code) (memory : List V) (w : World σ V) : Prop :=
  ∃ before v w₁, e.eval I catalog final w = some (v, w₁) ∧ Leaves I code memory w before v w₁

/-- Evaluating an expression and performing its code agree, in whatever memory the code begins and
however the placeholders grow afterwards. By induction on how the expression is encoded: the code of
an operand keeps the memory and leaves its value in the last slot, which is where the instruction
behind it looks for it. -/
theorem agree (h : Encodes catalog outer slot e ps code ps') (grown : ps'.Extends final)
    (memory : List V) (length : memory.length = slot) (w : World σ V) :
    Agree I catalog final e code memory w := by
  induction h generalizing memory w with
  | @literal outer slot e value ps is =>
    obtain ⟨v, w₁, asked⟩ := I.exists_ask (.literal value) w
    refine ⟨memory, v, w₁, ?_, .of_perform length (I.append_ask asked)⟩
    rw [Expr.eval_of_literal is]
    exact asked
  | @read outer slot e symbol c ps is found keyType =>
    obtain ⟨v, w₁, asked⟩ := I.exists_ask (.read (ps.intern c).1) w
    refine ⟨memory, v, w₁, ?_, .of_perform length (I.append_ask asked)⟩
    rw [Expr.eval_of_symbol is, found, Run.given_some,
      Expr.readComponent_eq (Placeholders.indexOf?_of_intern_extends grown)]
    exact asked
  | @mapped outer slot ref key c ps ps₁ k hk found keyType ih =>
    obtain ⟨bk, kv, w₁, evalKey, leaves⟩ :=
      ih ((Placeholders.extends_intern _ _).trans grown) memory length w
    obtain ⟨v, w₂, asked⟩ := I.exists_ask (.readMapped (ps₁.intern c).1 kv) w₁
    refine ⟨bk ++ [kv], v, w₂, ?_, leaves.write (I.perform_readMapped leaves.at_last asked)⟩
    rw [Expr.eval]
    refine Run.bind_eq_some evalKey ?_
    rw [found, Run.given_some,
      Expr.readComponentAt_eq kv (Placeholders.indexOf?_of_intern_extends grown)]
    exact asked
  | @not outer slot e ps ps₁ x hx ih =>
    obtain ⟨bx, xv, w₁, evalOperand, leaves⟩ := ih grown memory length w
    obtain ⟨v, w₂, asked⟩ := I.exists_ask (.not xv) w₁
    refine ⟨bx ++ [xv], v, w₂, ?_, leaves.write (I.perform_not leaves.at_last asked)⟩
    rw [Expr.eval]
    exact Run.bind_eq_some evalOperand asked
  | @binary outer slot op left right ps ps₁ ps₂ l r isUpdate hl hr ihl ihr =>
    obtain ⟨bl, lv, w₁, evalLeft, leavesLeft⟩ :=
      ihl (hr.placeholders_extend.trans grown) memory length w
    obtain ⟨br, rv, w₂, evalRight, leavesRight⟩ :=
      ihr grown (bl ++ [lv]) leavesLeft.length_memory w₁
    obtain ⟨v, w₃, asked⟩ := I.exists_ask (.compute op.operation lv rv) w₂
    refine ⟨br ++ [rv], v, w₃, ?_, leavesLeft.compute leavesRight asked⟩
    rw [Expr.eval_binary isUpdate]
    exact Run.bind_eq_some evalLeft (Run.bind_eq_some evalRight asked)
  | @update slot op ref right c ps ps₁ v isUpdate found keyType hv ih =>
    -- the tracker is read before its operand is evaluated
    obtain ⟨current, w₁, read⟩ := I.exists_ask (.read (ps.intern c).1) w
    have leavesRead := Leaves.of_perform (i := .read _) length (I.append_ask read)
    obtain ⟨bv, value, w₂, evalValue, leavesValue⟩ :=
      ih grown (memory ++ [current]) leavesRead.length_memory w₁
    obtain ⟨result, w₃, computed⟩ := I.exists_ask (.compute op.operation current value) w₂
    obtain ⟨w₄, stored⟩ := I.exists_put (.plain c.index.toNat result) w₃
    have leaves := leavesRead.compute leavesValue computed
    refine ⟨bv ++ [value], result, w₄, ?_, ?_⟩
    · rw [Expr.eval, if_pos isUpdate]
      rw [found, Run.given_some, Expr.readComponent_eq
        (Placeholders.indexOf?_of_intern_extends (hv.placeholders_extend.trans grown))]
      exact Run.bind_eq_some read (Run.bind_eq_some evalValue
        (Run.bind_eq_some computed (Run.bind_eq_some stored rfl)))
    · rw [Code.update_eq]
      exact leaves.store (I.perform_store leaves.at_last stored)
  | @updateMapped slot op ref key right c ps ps₁ ps₂ k v isUpdate found keyType hk hv ihk ihv =>
    -- the key comes first, then the current value, then the operand
    have grownRead := hv.placeholders_extend.trans grown
    obtain ⟨bk, kv, w₁, evalKey, leavesKey⟩ :=
      ihk ((Placeholders.extends_intern _ _).trans grownRead) memory length w
    obtain ⟨current, w₂, read⟩ := I.exists_ask (.readMapped (ps₁.intern c).1 kv) w₁
    have leavesRead := leavesKey.write (I.perform_readMapped leavesKey.at_last read)
    obtain ⟨bv, value, w₃, evalValue, leavesValue⟩ :=
      ihv grown (bk ++ [kv] ++ [current]) leavesRead.length_memory w₂
    obtain ⟨result, w₄, computed⟩ := I.exists_ask (.compute op.operation current value) w₃
    obtain ⟨w₅, stored⟩ := I.exists_put (.mapped c.index.toNat result kv) w₄
    have leaves := leavesRead.compute leavesValue computed
    refine ⟨bv ++ [value], result, w₅, ?_, ?_⟩
    · rw [Expr.eval, if_pos isUpdate]
      rw [found, Run.given_some]
      refine Run.bind_eq_some evalKey ?_
      rw [Expr.readComponentAt_eq kv (Placeholders.indexOf?_of_intern_extends grownRead)]
      exact Run.bind_eq_some read (Run.bind_eq_some evalValue
        (Run.bind_eq_some computed (Run.bind_eq_some stored rfl)))
    · -- the store looks the key up once more
      have kept : bk ++ [kv] <+: bv ++ [value] ++ [result] :=
        (List.prefix_append _ _).trans
          (leavesValue.kept_memory.trans (List.prefix_append _ _))
      rw [Code.updateMapped_eq]
      exact leaves.store (I.perform_storeMapped leaves.at_last (leavesKey.at_slot kept) stored)

end Encodes

/-- **Instructions do what their expression says.**  Under every interpretation, the instructions
that an expression is encoded to, performed over an empty memory, perform the operations that
evaluating the expression performs, in the same order, end in the same state, and leave the value
of the expression in the last slot. -/
theorem Expr.performAll_encode (I : Interpretation σ V) {catalog : Catalog} {e : Expr}
    {ps ps' : Placeholders} {instructions : List (Instruction Operand Nat)}
    (encoded : e.encode catalog ps = (.ok instructions, ps')) (w : World σ V) :
    ∃ memory v w₁, I.performAll [] instructions w = some (memory ++ [v], w₁) ∧
      e.eval I catalog ps' w = some (v, w₁) := by
  obtain ⟨code, h, rfl⟩ := Expr.encodes_of_encode encoded
  obtain ⟨before, v, w₁, evaluated, leaves⟩ :=
    h.agree (I := I) (Table.Extends.refl ps') [] rfl w
  exact ⟨before, v, w₁, leaves.performs, evaluated⟩

/-- `(TRU:m(GV:MSG_SENDER) += 2) > 3`: the update stores before the comparison is computed, and
the store takes no slot. -/
theorem Expr.performAll_encode_nested_update :
    let catalog : Catalog := .ofList
      [(.tracker "m", ⟨"TR:m", 7, "tracker", some "uint256", none, .tracker, .uint256,
        some .address⟩), (.global .msgSender, Scope.globalComponent .msgSender)]
    let e : Expr := .binary (.plain .greater)
      (.binary (.compound .add) (.mapped ⟨"m", true⟩ (.global .msgSender)) (.number 2)) (.number 3)
    let instructions : List (Instruction Operand Nat) :=
      [.read 0, .readMapped 1 0, .literal (.number 2), .compute (.arith .add) 1 2,
        .storeMapped 7 3 0, .literal (.number 3), .compute .greater 3 4]
    let counter : Interpretation Nat Nat := ⟨fun _ s => (s, s + 1), fun _ s => 2 * s⟩
    (e.encode catalog .empty).1 = .ok instructions ∧
      ∃ memory v w₁,
        counter.performAll [] instructions ⟨5, []⟩ = some (memory ++ [v], w₁) ∧
          e.eval counter catalog (e.encode catalog .empty).2 ⟨5, []⟩ = some (v, w₁) := by
  intro catalog e instructions counter
  have encoded : e.encode catalog .empty = (.ok instructions, (e.encode catalog .empty).2) := rfl
  exact ⟨rfl, Expr.performAll_encode counter encoded ⟨5, []⟩⟩

end RuleCodec
