/-
RuleCodec/Proofs/Encoding.lean

What an encoding that succeeds has done.

`Encodes` says, with one rule for each shape of code, which instructions an
expression becomes when it is begun at a slot, and how the placeholders grow
meanwhile.  Every encoding that succeeds follows these rules
(`Encoder.encodes_of_expression`), so whatever is said of emitted code is
proved by induction on them and never on the encoder.

Design.  Literals come under one rule, as do the references that take no key:
`Expr.literal?` and `Expr.symbol?` say which expressions these are.  The two
kinds of update have rules of their own, since each emits a store, which writes
no slot.
-/
import RuleCodec.Instruction.Encode
import RuleCodec.Proofs.Tables

namespace RuleCodec

/-! ### Leaves of an expression -/

namespace Expr

/-- The value that a literal stands for. -/
def literal? : Expr → Option Operand
  | number value => some (.number value)
  | address value => some (.address value)
  | text value => some (.text value)
  | bytes value => some (.bytes value)
  | boolean value => some (.boolean value)
  | _ => none

theorem length_nodes_pos (e : Expr) : 0 < e.nodes.length := by
  cases e <;> exact Nat.succ_pos _

/-- What a reference without a key refers to. -/
def symbol? : Expr → Option Symbol
  | argument name => some (.argument name)
  | tracker ref => some (.tracker ref.name)
  | foreignCall name _ => some (.foreignCall name)
  | global which => some (.global which)
  | _ => none

/-- Whether an expression, the arguments of its foreign calls aside, updates nothing. -/
def readsOnly : Expr → Bool
  | tracker ref => !ref.update
  | mapped ref key => !ref.update && readsOnly key
  | binary op left right => !op.isUpdate && readsOnly left && readsOnly right
  | not operand => readsOnly operand
  | _ => true

end Expr

/-! ### The rules -/

/-- An expression inside the update of `outer`, begun at `slot`, becomes a code, and the
placeholders grow from the first to the second. -/
inductive Encodes (catalog : Catalog) :
    Option String → Nat → Expr → Placeholders → Code → Placeholders → Prop
  | literal {outer : Option String} {slot : Nat} {e : Expr} {value : Operand}
      {ps : Placeholders} :
      e.literal? = some value →
      Encodes catalog outer slot e ps ⟨[.literal value], slot⟩ ps
  | read {outer : Option String} {slot : Nat} {e : Expr} {symbol : Symbol} {c : Component}
      {ps : Placeholders} :
      e.symbol? = some symbol → catalog.get? symbol = some c → c.keyType = none →
      Encodes catalog outer slot e ps ⟨[.read (ps.intern c).1], slot⟩ (ps.intern c).2
  | mapped {outer : Option String} {slot : Nat} {ref : TrackerRef} {key : Expr} {c : Component}
      {ps ps₁ : Placeholders} {k : Code} :
      Encodes catalog outer slot key ps k ps₁ →
      catalog.get? (.tracker ref.name) = some c → c.keyType.isSome →
      Encodes catalog outer slot (.mapped ref key) ps
        ⟨k.instructions ++ [.readMapped (ps₁.intern c).1 k.slot], k.slot + 1⟩ (ps₁.intern c).2
  | not {outer : Option String} {slot : Nat} {e : Expr} {ps ps₁ : Placeholders} {x : Code} :
      Encodes catalog outer slot e ps x ps₁ →
      Encodes catalog outer slot (.not e) ps ⟨x.instructions ++ [.not x.slot], x.slot + 1⟩ ps₁
  | binary {outer : Option String} {slot : Nat} {op : BinaryOp} {left right : Expr}
      {ps ps₁ ps₂ : Placeholders} {l r : Code} :
      op.isUpdate = false →
      Encodes catalog outer slot left ps l ps₁ →
      Encodes catalog outer (l.slot + 1) right ps₁ r ps₂ →
      Encodes catalog outer slot (.binary op left right) ps
        ⟨l.instructions ++ r.instructions ++ [.compute op.operation l.slot r.slot], r.slot + 1⟩ ps₂
  | update {slot : Nat} {op : BinaryOp} {ref : TrackerRef} {right : Expr} {c : Component}
      {ps ps₁ : Placeholders} {v : Code} :
      op.isUpdate = true → catalog.get? (.tracker ref.name) = some c → c.keyType = none →
      Encodes catalog (some ref.name) (slot + 1) right (ps.intern c).2 v ps₁ →
      Encodes catalog none slot (.binary op (.tracker ref) right) ps
        ⟨.read (ps.intern c).1 :: v.instructions ++
          [.compute op.operation slot v.slot, .store c.index.toNat (v.slot + 1) 0],
          v.slot + 1⟩ ps₁
  | updateMapped {slot : Nat} {op : BinaryOp} {ref : TrackerRef} {key right : Expr}
      {c : Component} {ps ps₁ ps₂ : Placeholders} {k v : Code} :
      op.isUpdate = true → catalog.get? (.tracker ref.name) = some c → c.keyType.isSome →
      Encodes catalog (some ref.name) slot key ps k ps₁ →
      Encodes catalog (some ref.name) (k.slot + 2) right (ps₁.intern c).2 v ps₂ →
      Encodes catalog none slot (.binary op (.mapped ref key) right) ps
        ⟨k.instructions ++ .readMapped (ps₁.intern c).1 k.slot :: v.instructions ++
          [.compute op.operation (k.slot + 1) v.slot,
            .storeMapped c.index.toNat (v.slot + 1) k.slot], v.slot + 1⟩ ps₂

/-- The instructions of an update, step by step. -/
theorem Code.update_eq {α : Type} (read compute store : α) (value : List α) :
    read :: value ++ [compute, store] = [read] ++ value ++ [compute] ++ [store] := by
  simp

/-- The instructions for an update of an entry, one part after the other. -/
theorem Code.updateMapped_eq {α : Type} (read compute store : α) (key value : List α) :
    key ++ read :: value ++ [compute, store] =
      key ++ [read] ++ value ++ [compute] ++ [store] := by
  simp

namespace Encodes

variable {catalog : Catalog} {outer : Option String} {slot : Nat} {e : Expr}
  {ps ps' : Placeholders} {code : Code}

/-- What entering a component of the catalog keeps, an encoding keeps. -/
theorem invariant {P : Placeholders → Prop} (h : Encodes catalog outer slot e ps code ps')
    (step : ∀ ps symbol c, P ps → catalog.get? symbol = some c → P (ps.intern c).2)
    (start : P ps) : P ps' := by
  induction h with
  | literal => exact start
  | read _ found => exact step _ _ _ start found
  | mapped _ found _ ih => exact step _ _ _ (ih start) found
  | not _ ih => exact ih start
  | binary _ _ _ ihl ihr => exact ihr (ihl start)
  | update _ found _ _ ih => exact ih (step _ _ _ start found)
  | updateMapped _ found _ _ _ ihk ihv => exact ihv (step _ _ _ (ihk start) found)

/-- Placeholders are entered at the end, so those there before keep their places. -/
theorem placeholders_extend (h : Encodes catalog outer slot e ps code ps') : ps.Extends ps' := by
  refine h.invariant (P := ps.Extends) ?_ (Table.Extends.refl ps)
  intro qs symbol c grown found
  exact grown.trans (Placeholders.extends_intern qs c)

/-- The value of a code lies no lower than the slot where the code begins. -/
theorem slot_le (h : Encodes catalog outer slot e ps code ps') : slot ≤ code.slot := by
  induction h with
  | literal => exact Nat.le_refl _
  | read => exact Nat.le_refl _
  | mapped _ _ _ ih => exact Nat.le_succ_of_le ih
  | not _ ih => exact Nat.le_succ_of_le ih
  | binary _ _ _ ihl ihr => exact Nat.le_succ_of_le (Nat.le_trans (Nat.le_succ_of_le ihl) ihr)
  | update _ _ _ _ ih => exact Nat.le_succ_of_le (Nat.le_of_succ_le ih)
  | updateMapped _ _ _ _ _ ihk ihv => simp only at *; omega

/-- A code writes no more slots than its expression has parts. -/
theorem slot_lt (h : Encodes catalog outer slot e ps code ps') :
    code.slot < slot + e.nodes.length := by
  induction h with
  | @literal _ slot e => exact Nat.lt_add_of_pos_right e.length_nodes_pos
  | @read _ slot e => exact Nat.lt_add_of_pos_right e.length_nodes_pos
  | mapped _ _ _ ih => simp only [Expr.nodes, List.length_cons]; omega
  | not _ ih => simp only [Expr.nodes, List.length_cons]; omega
  | binary _ _ _ ihl ihr =>
    simp only [Expr.nodes, List.length_cons, List.length_append]
    omega
  | update _ _ _ _ ih =>
    simp only [Expr.nodes, List.length_cons, List.length_append, List.length_nil]
    omega
  | updateMapped _ _ _ _ _ ihk ihv =>
    simp only [Expr.nodes, List.length_cons, List.length_append]
    omega

/-- Nor does it enter more placeholders. -/
theorem size_le (h : Encodes catalog outer slot e ps code ps') :
    ps'.size ≤ ps.size + e.nodes.length := by
  -- only symbols are interned, at most one for each node
  induction h with
  | literal => exact Nat.le_add_right _ _
  | @read _ slot e _ c ps =>
    have entered := ps.size_intern_le c
    have part := e.length_nodes_pos
    omega
  | @mapped _ slot ref key c ps ps₁ _ _ _ _ ih =>
    have entered := ps₁.size_intern_le c
    simp only [Expr.nodes, List.length_cons]
    omega
  | not _ ih => simp only [Expr.nodes, List.length_cons]; omega
  | binary _ _ _ ihl ihr =>
    simp only [Expr.nodes, List.length_cons, List.length_append]
    omega
  | @update slot op ref right c ps _ _ _ _ _ _ ih =>
    have entered := ps.size_intern_le c
    simp only [Expr.nodes, List.length_cons, List.length_append, List.length_nil]
    omega
  | @updateMapped slot op ref key right c ps ps₁ _ _ _ _ _ _ _ _ ihk ihv =>
    have entered := ps₁.size_intern_le c
    simp only [Expr.nodes, List.length_cons, List.length_append]
    omega

end Encodes

/-! ### Peeling an encoding apart -/

namespace Encoder

variable {α β : Type} {ps ps' : Placeholders}

/-- The encoding succeeds with a value, and the placeholders grow from the first to the second. -/
def Yields (x : Encoder α) (ps : Placeholders) (a : α) (ps' : Placeholders) : Prop :=
  x ps = (.ok a, ps')

theorem yields_pure {a b : α} : Yields (pure a) ps b ps' ↔ a = b ∧ ps = ps' := by
  show (Except.ok a, ps) = (Except.ok b, ps') ↔ _
  rw [Prod.mk.injEq, Except.ok.injEq]

theorem not_yields_throw {error : Error} {b : α} : ¬ Yields (throw error) ps b ps' := by
  intro h
  have fst : Except.error error = Except.ok b := congrArg Prod.fst h
  cases fst

theorem bind_apply (x : Encoder α) (f : α → Encoder β) (ps : Placeholders) :
    (x >>= f) ps =
      match x ps with
      | (.ok a, ps₁) => f a ps₁
      | (.error error, ps₁) => (.error error, ps₁) := by
  show ExceptT.bindCont f (x ps).1 (x ps).2 = _
  rcases x ps with ⟨_ | _, ps₁⟩ <;> rfl

/-- What two steps yield together, the second yields on the placeholders of the first. -/
theorem yields_bind {x : Encoder α} {f : α → Encoder β} {b : β} :
    Yields (x >>= f) ps b ps' ↔ ∃ a ps₁, Yields x ps a ps₁ ∧ Yields (f a) ps₁ b ps' := by
  unfold Yields
  rw [bind_apply]
  rcases x ps with ⟨error | a, ps₁⟩
  · constructor
    · intro h
      exact absurd h not_yields_throw
    · rintro ⟨a, _, h, _⟩
      exact absurd h not_yields_throw
  · constructor
    · intro h
      exact ⟨a, ps₁, rfl, h⟩
    · rintro ⟨_, _, h, h'⟩
      cases h
      exact h'

/-- Interning yields the place of the component. -/
theorem yields_intern {c : Component} {i : Nat} :
    Yields (intern c) ps i ps' ↔ (ps.intern c).1 = i ∧ (ps.intern c).2 = ps' := by
  show (Except.ok (ps.intern c).1, (ps.intern c).2) = (Except.ok i, ps') ↔ _
  rw [Prod.mk.injEq, Except.ok.injEq]

/-- A component is yielded if it is in the catalog, and nothing is interned. -/
theorem yields_component {catalog : Catalog} {symbol : Symbol} {missing : Error} {c : Component} :
    Yields (component catalog symbol missing) ps c ps' ↔
      catalog.get? symbol = some c ∧ ps = ps' := by
  unfold component
  cases catalog.get? symbol with
  | none => simp [not_yields_throw]
  | some c' => simp [yields_pure]

/-- A target is yielded at the top of an expression only, and if it takes a key as it should. -/
theorem yields_target {catalog : Catalog} {outer : Option String} {name : String} {keyed : Bool}
    {c : Component} :
    Yields (target catalog outer name keyed) ps c ps' ↔
      outer = none ∧ catalog.get? (.tracker name) = some c ∧ c.keyType.isSome = keyed ∧
        ps = ps' := by
  unfold target tracker
  cases outer with
  | some around => simp [not_yields_throw]
  | none =>
    simp only [yields_bind, yields_component, true_and]
    constructor
    · rintro ⟨c', ps₁, ⟨found, rfl⟩, h⟩
      -- a key is given exactly if the tracker takes one
      by_cases keyType : c'.keyType.isSome = keyed
      · rw [if_pos keyType, yields_pure] at h
        obtain ⟨rfl, rfl⟩ := h
        exact ⟨found, keyType, rfl⟩
      · rw [if_neg keyType] at h
        exact absurd h not_yields_throw
    · rintro ⟨found, keyType, rfl⟩
      refine ⟨c, ps, ⟨found, rfl⟩, ?_⟩
      rw [if_pos keyType, yields_pure]
      exact ⟨rfl, rfl⟩

/-! ### Every encoding follows the rules -/

variable {catalog : Catalog} {outer : Option String} {slot : Nat} {e : Expr} {code : Code}

/-- What reading a symbol yields is encoded as a read. -/
theorem encodes_of_read {symbol : Symbol} {text : List Char} {kind : SymbolKind}
    (is : e.symbol? = some symbol) (h : Yields (read catalog symbol text kind slot) ps code ps') :
    Encodes catalog outer slot e ps code ps' := by
  simp only [read, yields_bind, yields_component] at h
  obtain ⟨c, _, ⟨found, rfl⟩, h⟩ := h
  cases keyType : c.keyType with
  | some key =>
    rw [keyType] at h
    exact absurd h not_yields_throw
  | none =>
    rw [keyType] at h
    simp only [yields_bind, yields_intern, yields_pure] at h
    obtain ⟨_, _, ⟨rfl, rfl⟩, rfl, rfl⟩ := h
    exact .read is found keyType

/-- Whatever the encoder yields, the relation allows. -/
theorem encodes_of_expression {outer : Option String} {slot : Nat} {e : Expr} {code : Code}
    {ps ps' : Placeholders} (h : Yields (expression catalog outer slot e) ps code ps') :
    Encodes catalog outer slot e ps code ps' := by
  cases e with
  | number | address | text | bytes | boolean =>
    rw [expression, yields_pure] at h
    obtain ⟨rfl, rfl⟩ := h
    exact .literal rfl
  | identifier name => exact absurd h not_yields_throw
  | argument | tracker | foreignCall | global =>
    rw [expression] at h
    exact encodes_of_read rfl h
  | mapped ref key =>
    simp only [expression, tracker, yields_bind, yields_component] at h
    obtain ⟨k, _, hk, c, _, ⟨found, rfl⟩, h⟩ := h
    by_cases keyType : c.keyType.isNone
    · rw [if_pos keyType, yields_bind] at h
      obtain ⟨_, _, h, _⟩ := h
      exact absurd h not_yields_throw
    · simp only [if_neg keyType, yields_bind, yields_intern, yields_pure] at h
      obtain ⟨_, _, ⟨rfl, rfl⟩, rfl, rfl⟩ := h
      exact .mapped (encodes_of_expression hk) found
        (by simpa [Option.isSome_iff_ne_none] using keyType)
  | not operand =>
    simp only [expression, yields_bind, yields_pure] at h
    obtain ⟨x, _, hx, rfl, rfl⟩ := h
    exact .not (encodes_of_expression hx)
  | binary op left right =>
    -- an update has its own rule, by what stands on the left of it
    unfold expression at h
    by_cases isUpdate : op.isUpdate
    · rw [if_pos isUpdate] at h
      cases left with
      | tracker ref =>
        simp only [yields_bind, yields_target, yields_intern, yields_pure] at h
        obtain ⟨c, _, ⟨rfl, found, keyType, rfl⟩, _, _, ⟨rfl, rfl⟩, v, _, hv, rfl, rfl⟩ := h
        have none : c.keyType = none :=
          Option.isNone_iff_eq_none.1 (Option.isSome_eq_false_iff.1 keyType)
        exact .update isUpdate found none (encodes_of_expression hv)
      | mapped ref key =>
        simp only [yields_bind, yields_target, yields_intern, yields_pure] at h
        obtain ⟨c, _, ⟨rfl, found, keyType, rfl⟩, k, _, hk, _, _, ⟨rfl, rfl⟩, v, _, hv, rfl, rfl⟩
          := h
        exact .updateMapped isUpdate found keyType (encodes_of_expression hk)
          (encodes_of_expression hv)
      -- nothing else can be updated
      | _ => exact absurd h not_yields_throw
    · rw [if_neg isUpdate] at h
      simp only [yields_bind, yields_pure] at h
      obtain ⟨l, _, hl, r, _, hr, rfl, rfl⟩ := h
      exact .binary (Bool.eq_false_iff.2 isUpdate) (encodes_of_expression hl)
        (encodes_of_expression hr)

/-- A symbol that needs no key is read by one instruction. -/
theorem yields_read {symbol : Symbol} {c : Component} {text : List Char} {kind : SymbolKind}
    (found : catalog.get? symbol = some c) (keyType : c.keyType = none) :
    Yields (read catalog symbol text kind slot) ps ⟨[.read (ps.intern c).1], slot⟩
      (ps.intern c).2 := by
  rw [read, yields_bind]
  refine ⟨c, ps, yields_component.2 ⟨found, rfl⟩, ?_⟩
  rw [keyType]
  simp only [yields_bind, yields_intern, yields_pure]
  exact ⟨_, _, ⟨rfl, rfl⟩, rfl, rfl⟩

/-- And the rules never fail. -/
theorem expression_of_encodes (h : Encodes catalog outer slot e ps code ps') :
    Yields (expression catalog outer slot e) ps code ps' := by
  induction h with
  -- the kind of literal does not matter: each yields its own value
  | @literal _ slot e value ps is =>
    cases e with
    | number value => cases is; exact yields_pure.2 ⟨rfl, rfl⟩
    | address value => cases is; exact yields_pure.2 ⟨rfl, rfl⟩
    | text value => cases is; exact yields_pure.2 ⟨rfl, rfl⟩
    | bytes value => cases is; exact yields_pure.2 ⟨rfl, rfl⟩
    | boolean value => cases is; exact yields_pure.2 ⟨rfl, rfl⟩
    | _ => cases is
  | @read _ slot e symbol c ps is found keyType =>
    cases e with
    | argument name => cases is; exact yields_read found keyType
    | tracker ref => cases is; exact yields_read found keyType
    | foreignCall name arguments => cases is; exact yields_read found keyType
    | global which => cases is; exact yields_read found keyType
    | _ => cases is
  | @mapped _ slot ref key c ps ps₁ k _ found keyType ih =>
    have keyed : ¬ c.keyType.isNone := by simpa [Option.isSome_iff_ne_none] using keyType
    simp only [expression, tracker, yields_bind, yields_component]
    refine ⟨k, ps₁, ih, c, ps₁, ⟨found, rfl⟩, ?_⟩
    simp only [if_neg keyed, yields_bind, yields_intern, yields_pure]
    exact ⟨_, _, ⟨rfl, rfl⟩, rfl, rfl⟩
  | not _ ih =>
    simp only [expression, yields_bind, yields_pure]
    exact ⟨_, _, ih, rfl, rfl⟩
  | binary isUpdate _ _ ihl ihr =>
    rw [expression.eq_def]
    simp only [isUpdate, Bool.false_eq_true, if_false, yields_bind, yields_pure]
    exact ⟨_, _, ihl, _, _, ihr, rfl, rfl⟩
  | update isUpdate found keyType _ ih =>
    simp only [expression, isUpdate, if_true, yields_bind, yields_target, yields_intern,
      yields_pure]
    exact ⟨_, _, ⟨trivial, found, by rw [keyType]; rfl, rfl⟩, _, _, ⟨rfl, rfl⟩, _, _, ih, rfl, rfl⟩
  | updateMapped isUpdate found keyType _ _ ihk ihv =>
    simp only [expression, isUpdate, if_true, yields_bind, yields_target, yields_intern,
      yields_pure]
    exact ⟨_, _, ⟨trivial, found, keyType, rfl⟩, _, _, ihk, _, _, ⟨rfl, rfl⟩, _, _, ihv, rfl, rfl⟩

end Encoder

/-- What the relation allows for a whole expression, the encoder returns. -/
theorem Expr.encode_of_encodes {catalog : Catalog} {e : Expr} {ps ps' : Placeholders}
    {code : Code} (h : Encodes catalog none 0 e ps code ps') :
    e.encode catalog ps = (.ok code.instructions, ps') := by
  have run : Encoder.expression catalog none 0 e ps = (.ok code, ps') :=
    Encoder.expression_of_encodes h
  rw [Expr.encode, run]
  rfl

/-- What the encoder returns for a whole expression, the relation allows. -/
theorem Expr.encodes_of_encode {catalog : Catalog} {e : Expr} {ps ps' : Placeholders}
    {instructions : List (Instruction Operand Nat)}
    (h : e.encode catalog ps = (.ok instructions, ps')) :
    ∃ code, Encodes catalog none 0 e ps code ps' ∧ code.instructions = instructions := by
  unfold Expr.encode at h
  rcases run : Encoder.expression catalog none 0 e ps with ⟨error | code, ps₁⟩
  · simp [run, Except.map] at h
  · simp only [run, Except.map, Prod.mk.injEq, Except.ok.injEq] at h
    obtain ⟨rfl, rfl⟩ := h
    exact ⟨code, Encoder.encodes_of_expression run, rfl⟩

end RuleCodec
