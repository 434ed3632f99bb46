/-
RuleCodec/Proofs/Renumbering.lean

What a compiled rule owes to the numbers of the opcodes.

A rule is first compiled to instructions, and then the opcodes of these get
their numbers.  An `Emission` is what there is in between.  It does not depend
on the registry, and every registry compiles the rule to the numbering of this
one emission (`Config.exists_emission`).  So a rule that compiles under one
registry fails under another only for want of a number; otherwise the two
compiled rules are the same except for the numbers, and since performing an
instruction takes no notice of its number, they are read back as the same
texts (`Config.compile_renumbered`).
-/
import RuleCodec.Proofs.Acceptance
import RuleCodec.Proofs.Numbering
import RuleCodec.Proofs.RoundTrip

namespace RuleCodec

/-! ### Emissions -/

/-- An effect whose opcodes have no numbers yet. -/
structure EmittedEffect where
  /-- The effect without its words. -/
  effect : Effect
  instructions : List (Instruction Operand Nat)

namespace EmittedEffect

/-- The items of the effect. -/
def items (m : EmittedEffect) : List Item :=
  m.instructions.flatMap Instruction.items

/-- The effect with the numbers of a registry. -/
def number (registry : Registry) (m : EmittedEffect) : Except Error Effect := do
  let stream ← Stream.ofItems registry m.items
  return { m.effect with words := stream.words }

end EmittedEffect

/-- A rule whose opcodes have no numbers yet. -/
structure Emission where
  condition : EncodedCondition
  positive : List EmittedEffect
  negative : List EmittedEffect
  effectPlaceholders : Placeholders

namespace Emission

/-- The opcodes of a rule, in its condition and in its effects. -/
def opcodes (m : Emission) : List Opcode :=
  (m.condition.instructions ++ (m.positive ++ m.negative).flatMap EmittedEffect.instructions).map
    Instruction.opcode

/-- The rule with the numbers of a registry. -/
def number (registry : Registry) (m : Emission) : Except Error CompiledRule := do
  let stream ← Stream.ofItems registry m.condition.items
  let positive ← m.positive.mapM (EmittedEffect.number registry)
  let negative ← m.negative.mapM (EmittedEffect.number registry)
  return {
    words := stream.words
    rawData := stream.rawData
    placeholders := m.condition.placeholders.items
    positiveEffects := positive
    negativeEffects := negative
    effectPlaceholders := m.effectPlaceholders.items
    placeholderNames := m.condition.placeholders.names
    effectPlaceholderNames := m.effectPlaceholders.names }

end Emission

/-! ### Compiling is numbering an emission -/

namespace Effects

variable {scope : Scope} {registry : Registry} {catalog : Catalog} {ps ps' : Placeholders}
  {drafts : List Draft} {effects : List Effect} {positive negative : List String}
  {compiled : Effects}

/-- Drafts are encoded to the same items under every registry, which only numbers them. -/
theorem EncodesAll.exists_emitted (h : EncodesAll registry catalog ps drafts effects ps')
    (silent : ∀ effect, .done effect ∈ drafts → effect.words = []) :
    ∃ emitted : List EmittedEffect, emitted.length = effects.length ∧
      ∀ r, encodeAll r catalog ps drafts =
        (emitted.mapM (EmittedEffect.number r)).map fun effects => (effects, ps') := by
  induction h with
  | nil => exact ⟨[], rfl, fun r => rfl⟩
  | @done _ _ drafts effects effect _ ih =>
    -- it has no words, so there is nothing to number
    obtain ⟨emitted, length, each⟩ :=
      ih fun effect mem => silent effect (List.mem_cons_of_mem _ mem)
    refine ⟨⟨effect, []⟩ :: emitted, congrArg Nat.succ length, fun r => ?_⟩
    have alone : EmittedEffect.number r ⟨effect, []⟩ = .ok effect := by
      have none := silent effect List.mem_cons_self
      obtain ⟨effectType, text, words, rawData, valueType, parameter⟩ := effect
      cases none
      rfl
    rw [encodeAll, each r, List.mapM_cons, alone]
    cases emitted.mapM (EmittedEffect.number r) <;> rfl
  | @expression _ _ _ drafts effects source text resolved code stream encodes _ normal _ ih =>
    obtain ⟨emitted, length, each⟩ :=
      ih fun effect mem => silent effect (List.mem_cons_of_mem _ mem)
    let rawData := RawData.ofItems 0 (code.instructions.flatMap Instruction.items)
    refine ⟨⟨⟨.expression, text, [], rawData, none, none⟩, code.instructions⟩ :: emitted,
      congrArg Nat.succ length, fun r => ?_⟩
    rw [encodeAll, Expr.encode_of_encodes encodes, List.mapM_cons, EmittedEffect.number,
      EmittedEffect.items]
    simp only
    cases streamed : Stream.ofItems r (code.instructions.flatMap Instruction.items) with
    | error e => rfl
    | ok stream =>
      obtain ⟨-, rfl⟩ := Stream.ofItems_eq_ok_iff.1 streamed
      simp only [bind, Except.bind, normal, each r]
      cases emitted.mapM (EmittedEffect.number r) <;> rfl

/-- Effects are compiled to the same items under every registry. -/
theorem exists_emitted (h : compile scope registry positive negative = .ok compiled) :
    ∃ emitted emitted' : List EmittedEffect, ∀ r, compile scope r positive negative = (do
      let front ← emitted.mapM (EmittedEffect.number r)
      let back ← emitted'.mapM (EmittedEffect.number r)
      return ⟨front, back, compiled.catalog, compiled.placeholders⟩) := by
  unfold compile at h
  obtain ⟨clauses, parsed, h⟩ := bind_eq_ok.1 h
  obtain ⟨clauses', parsed', h⟩ := bind_eq_ok.1 h
  obtain ⟨⟨drafts, catalog⟩, resolved, h⟩ := bind_eq_ok.1 h
  obtain ⟨⟨all, placeholders⟩, encoded, h⟩ := bind_eq_ok.1 h
  cases h
  have encodes := encodesAll_of_encodeAll encoded
  have drafted := (drafts_of_resolveAll resolved).1
  obtain ⟨emitted, length, each⟩ :=
    encodes.exists_emitted fun effect mem => words_of_done drafted mem
  -- the clauses of the two sides are told apart by how many there are in front
  obtain ⟨front, back, rfl, sides⟩ : ∃ front back, emitted = front ++ back ∧
      front.length = clauses.length := by
    refine ⟨_, _, (List.take_append_drop clauses.length emitted).symm, ?_⟩
    have drafts := drafted.length_eq
    rw [encodes.forall₂_encodedAs.length_eq, ← length, List.length_append] at drafts
    rw [List.length_take]
    omega
  refine ⟨front, back, fun r => ?_⟩
  simp only [compile, parsed, parsed', resolved, each r, List.mapM_append, bind, Except.bind]
  cases numbered : front.mapM (EmittedEffect.number r) with
  | error e => rfl
  | ok effects =>
    have length := (mapM_eq_ok_iff.1 numbered).length_eq
    cases back.mapM (EmittedEffect.number r) with
    | error e => rfl
    | ok effects' =>
      simp only [pure, Except.pure, Except.map]
      rw [← sides, length, List.take_left, List.drop_left]

end Effects

namespace Config

variable {policy : UnresolvedPolicy} {tables : SymbolTables} {rule : RuleInput}
  {r₁ r₂ : Registry} {c₁ c₂ : CompiledRule}

/-- A rule that compiles has one emission, which every registry gives its own numbers. -/
theorem exists_emission (compiles : Config.compile ⟨r₁, policy⟩ tables rule = .ok c₁) :
    ∃ m : Emission, ∀ r, Config.compile ⟨r, policy⟩ tables rule = m.number r := by
  obtain ⟨function, encoded, -, effects, called, encoding, -, compiledEffects, -⟩ :=
    compile_eq_ok_iff.1 compiles
  obtain ⟨positive, negative, each⟩ := Effects.exists_emitted compiledEffects
  refine ⟨⟨encoded, positive, negative, effects.placeholders⟩, fun r => ?_⟩
  simp only [compile, called, encoding, each r, Emission.number, bind, Except.bind]
  cases Stream.ofItems r encoded.items with
  | error e => rfl
  | ok stream =>
    cases positive.mapM (EmittedEffect.number r) with
    | error e => rfl
    | ok front => cases negative.mapM (EmittedEffect.number r) <;> rfl

end Config

/-! ### Opcodes without a number -/

/-- An opcode without a number is reported by its spelling. -/
theorem Registry.code_eq_error {r : Registry} {op : Opcode} {e : Error}
    (h : r.code op = .error e) : r.codes.get? op = none ∧ e = .config (.unavailable op.symbol) := by
  unfold code at h
  split at h
  · cases h
  · rename_i none
    cases h
    exact ⟨none, rfl⟩

/-- The opcodes among the items are those of the instructions. -/
theorem Instruction.opcode_mem_items {op : Opcode} {is : List (Instruction Operand Nat)} :
    Item.opcode op ∈ is.flatMap items ↔ op ∈ is.map opcode := by
  have operands : ∀ i : Instruction Operand Nat, Item.opcode op ∉ i.operands := by
    intro i
    cases i <;> simp [Instruction.operands, Item.ofNat]
  simp only [List.mem_flatMap, List.mem_map, items, List.mem_cons, Item.opcode.injEq, operands,
    or_false, eq_comm]

/-- A stream fails for an opcode without a number, and for nothing else. -/
theorem Stream.ofItems_eq_error {r : Registry} {is : List (Instruction Operand Nat)} {e : Error}
    (h : Stream.ofItems r (is.flatMap Instruction.items) = .error e) :
    ∃ op ∈ is.map Instruction.opcode, r.code op = .error e := by
  rcases bind_eq_error.1 h with h | ⟨words, -, h⟩
  · -- operands always have a word, so the item that fails is an opcode
    obtain ⟨before, item, after, eq, -, fails⟩ := exists_of_mapM_eq_error h
    cases item with
    | operand value => cases fails
    | opcode op =>
      refine ⟨op, Instruction.opcode_mem_items.1 (by simp [eq]), ?_⟩
      rw [Item.word] at fails
      cases found : r.code op with
      | error e' =>
        rw [found] at fails
        cases fails
        rfl
      | ok code =>
        rw [found] at fails
        cases fails
  · cases h

/-- Instructions that have words have numbers. -/
theorem Stream.code_eq_ok {r : Registry} {is : List (Instruction Operand Nat)} {stream : Stream}
    (h : Stream.ofItems r (is.flatMap Instruction.items) = .ok stream) {op : Opcode}
    (mem : op ∈ is.map Instruction.opcode) : ∃ code, r.code op = .ok code := by
  obtain ⟨known, -⟩ := Stream.ofItems_eq_ok_iff.1 h
  obtain ⟨code, found⟩ := known _ (Instruction.opcode_mem_items.2 mem)
  refine ⟨code, ?_⟩
  rw [Registry.code, found]

namespace Emission

variable {r : Registry} {m : Emission} {c : CompiledRule} {e : Error} {op : Opcode}

/-- The opcodes of an emission are those of its condition and of its effects. -/
theorem mem_opcodes : op ∈ m.opcodes ↔ op ∈ m.condition.instructions.map Instruction.opcode ∨
    ∃ effect ∈ m.positive ++ m.negative, op ∈ effect.instructions.map Instruction.opcode := by
  simp only [opcodes, List.map_append, List.mem_append, List.map_flatMap, List.mem_flatMap]

/-- Numbering fails for an opcode that has no number. -/
theorem exists_of_number_eq_error (h : m.number r = .error e) :
    ∃ op ∈ m.opcodes, r.code op = .error e := by
  -- both lists of effects fail alike
  have effect : ∀ effects : List EmittedEffect, (∀ x ∈ effects, x ∈ m.positive ++ m.negative) →
      effects.mapM (EmittedEffect.number r) = .error e →
        ∃ op ∈ m.opcodes, r.code op = .error e := by
    intro effects inside h
    obtain ⟨before, effect, after, rfl, -, fails⟩ := exists_of_mapM_eq_error h
    rcases bind_eq_error.1 fails with fails | ⟨stream, -, fails⟩
    · obtain ⟨op, mem, missing⟩ := Stream.ofItems_eq_error fails
      exact ⟨op, mem_opcodes.2 (.inr ⟨effect, inside effect (by simp), mem⟩), missing⟩
    · cases fails
  unfold number at h
  rcases bind_eq_error.1 h with h | ⟨stream, -, h⟩
  · obtain ⟨op, mem, missing⟩ := Stream.ofItems_eq_error h
    exact ⟨op, mem_opcodes.2 (.inl mem), missing⟩
  rcases bind_eq_error.1 h with h | ⟨front, -, h⟩
  · exact effect m.positive (fun x mem => List.mem_append_left _ mem) h
  rcases bind_eq_error.1 h with h | ⟨back, -, h⟩
  · exact effect m.negative (fun x mem => List.mem_append_right _ mem) h
  · cases h

/-- What is numbered, part by part. -/
theorem number_eq_ok (h : m.number r = .ok c) :
    (∃ stream, Stream.ofItems r m.condition.items = .ok stream ∧
      c = ⟨stream.words, stream.rawData, m.condition.placeholders.items, c.positiveEffects,
        c.negativeEffects, m.effectPlaceholders.items, m.condition.placeholders.names,
        m.effectPlaceholders.names⟩) ∧
    List.Forall₂ (fun m effect => EmittedEffect.number r m = .ok effect) m.positive
      c.positiveEffects ∧
    List.Forall₂ (fun m effect => EmittedEffect.number r m = .ok effect) m.negative
      c.negativeEffects := by
  unfold number at h
  obtain ⟨stream, streamed, h⟩ := bind_eq_ok.1 h
  obtain ⟨front, numbered, h⟩ := bind_eq_ok.1 h
  obtain ⟨back, numbered', h⟩ := bind_eq_ok.1 h
  cases h
  exact ⟨⟨stream, streamed, rfl⟩, mapM_eq_ok_iff.1 numbered, mapM_eq_ok_iff.1 numbered'⟩

/-- Every opcode has a number if the emission can be numbered. -/
theorem code_eq_ok_of_number (h : m.number r = .ok c) (mem : op ∈ m.opcodes) :
    ∃ code, r.code op = .ok code := by
  obtain ⟨⟨stream, streamed, -⟩, positive, negative⟩ := number_eq_ok h
  rcases mem_opcodes.1 mem with mem | ⟨effect, inside, mem⟩
  · exact Stream.code_eq_ok streamed mem
  · obtain ⟨_, -, numbered⟩ :=
      exists_left_of_forall₂ (List.rel_append positive negative).flip inside
    obtain ⟨stream, streamed, -⟩ := bind_eq_ok.1 numbered
    exact Stream.code_eq_ok streamed mem

end Emission

/-! ### Numbers of two registries -/

/-- Two lists go along with a third, place by place. -/
structure Aligned {α β γ : Type} (R : α → β → γ → Prop) (xs : List α) (ys : List β)
    (zs : List γ) : Prop where
  length_left : ys.length = xs.length
  length_right : zs.length = xs.length
  at_place : ∀ (k : Nat) (x : α) (y : β) (z : γ),
    xs[k]? = some x → ys[k]? = some y → zs[k]? = some z → R x y z

/-- Lists that go along with one list go along with each other. -/
theorem aligned_of_forall₂ {α β γ : Type} {R : α → β → Prop} {S : α → γ → Prop}
    {T : α → β → γ → Prop} {xs : List α} {ys : List β} {zs : List γ} (h : List.Forall₂ R xs ys)
    (h' : List.Forall₂ S xs zs) (both : ∀ {x y z}, R x y → S x z → T x y z) :
    Aligned T xs ys zs := by
  refine ⟨h.length_eq.symm, h'.length_eq.symm, ?_⟩
  intro k x y z at_x at_y at_z
  obtain ⟨ltx, rfl⟩ := List.getElem?_eq_some_iff.1 at_x
  obtain ⟨lty, rfl⟩ := List.getElem?_eq_some_iff.1 at_y
  obtain ⟨ltz, rfl⟩ := List.getElem?_eq_some_iff.1 at_z
  exact both (h.get ltx lty) (h'.get ltx ltz)

/-- Words of an item under two registries: for an opcode its two numbers, for an operand the same
word. -/
inductive Item.Renumbered (r₁ r₂ : Registry) : Item → Word → Word → Prop
  | opcode {op : Opcode} {w₁ w₂ : Word} :
      r₁.Numbers w₁ op → r₂.Numbers w₂ op → Renumbered r₁ r₂ (.opcode op) w₁ w₂
  | operand {value : Operand} :
      Renumbered r₁ r₂ (.operand value) (value.word Keccak.hash) (value.word Keccak.hash)

/-- Effects that differ in the numbers of their opcodes. -/
structure EmittedEffect.Renumbered (r₁ r₂ : Registry) (m : EmittedEffect) (e₁ e₂ : Effect) :
    Prop where
  words : Aligned (Item.Renumbered r₁ r₂) m.items e₁.words e₂.words
  others : { e₁ with words := [] } = { e₂ with words := [] }

/-- Compiled rules that differ in the numbers of their opcodes. -/
structure Emission.Renumbered (r₁ r₂ : Registry) (m : Emission) (c₁ c₂ : CompiledRule) :
    Prop where
  words : Aligned (Item.Renumbered r₁ r₂) m.condition.items c₁.words c₂.words
  positive : Aligned (EmittedEffect.Renumbered r₁ r₂) m.positive c₁.positiveEffects
    c₂.positiveEffects
  negative : Aligned (EmittedEffect.Renumbered r₁ r₂) m.negative c₁.negativeEffects
    c₂.negativeEffects
  others : { c₁ with words := [], positiveEffects := [], negativeEffects := [] } =
    { c₂ with words := [], positiveEffects := [], negativeEffects := [] }

section

variable {r₁ r₂ : Registry}

theorem Registry.numbers_number {hash : Bytes → Bytes} {r : Registry} {op : Opcode}
    (known : (Item.opcode op).Known r) : r.Numbers ((Item.opcode op).number hash r) op := by
  obtain ⟨code, found⟩ := known
  refine ⟨code, found, ?_⟩
  rw [Item.number, found, Option.getD_some]

theorem Registry.numbers_of_word {hash : Bytes → Bytes} {r : Registry} {op : Opcode} {w : Word}
    (h : (Item.opcode op).word hash r = .ok w) : r.Numbers w op := by
  obtain ⟨known, rfl⟩ := Item.word_eq_ok_iff.1 h
  exact numbers_number known

/-- Two streams of the same items have words that are renumbered, and the same raw data. -/
theorem Stream.aligned {items : List Item} {s₁ s₂ : Stream}
    (h₁ : Stream.ofItems r₁ items = .ok s₁) (h₂ : Stream.ofItems r₂ items = .ok s₂) :
    Aligned (Item.Renumbered r₁ r₂) items s₁.words s₂.words ∧ s₁.rawData = s₂.rawData := by
  obtain ⟨words₁, made₁, is₁⟩ := bind_eq_ok.1 h₁
  obtain ⟨words₂, made₂, is₂⟩ := bind_eq_ok.1 h₂
  cases is₁
  cases is₂
  refine ⟨aligned_of_forall₂ (mapM_eq_ok_iff.1 made₁) (mapM_eq_ok_iff.1 made₂) ?_, rfl⟩
  intro item w₁ w₂ word₁ word₂
  cases item with
  | opcode op => exact .opcode (Registry.numbers_of_word word₁) (Registry.numbers_of_word word₂)
  | operand value =>
    cases word₁
    cases word₂
    exact .operand

/-- An effect that is numbered twice is renumbered. -/
theorem EmittedEffect.renumbered {m : EmittedEffect} {e₁ e₂ : Effect}
    (h₁ : m.number r₁ = .ok e₁) (h₂ : m.number r₂ = .ok e₂) : m.Renumbered r₁ r₂ e₁ e₂ := by
  obtain ⟨s₁, streamed₁, is₁⟩ := bind_eq_ok.1 h₁
  obtain ⟨s₂, streamed₂, is₂⟩ := bind_eq_ok.1 h₂
  cases is₁
  cases is₂
  exact ⟨(Stream.aligned streamed₁ streamed₂).1, rfl⟩

/-- A rule that is numbered twice is renumbered. -/
theorem Emission.renumbered {m : Emission} {c₁ c₂ : CompiledRule} (h₁ : m.number r₁ = .ok c₁)
    (h₂ : m.number r₂ = .ok c₂) : m.Renumbered r₁ r₂ c₁ c₂ := by
  obtain ⟨⟨s₁, streamed₁, is₁⟩, positive₁, negative₁⟩ := number_eq_ok h₁
  obtain ⟨⟨s₂, streamed₂, is₂⟩, positive₂, negative₂⟩ := number_eq_ok h₂
  obtain ⟨words, rawData⟩ := Stream.aligned streamed₁ streamed₂
  refine ⟨?_, aligned_of_forall₂ positive₁ positive₂ EmittedEffect.renumbered,
    aligned_of_forall₂ negative₁ negative₂ EmittedEffect.renumbered, ?_⟩
  · rw [is₁, is₂]
    exact words
  · rw [is₁, is₂, rawData]

/-! ### Reading back -/

/-- The numbers of an instruction are that of its opcode and its parts. -/
theorem Instruction.map_number_items (hash : Bytes → Bytes) (r : Registry)
    (i : Instruction Operand Nat) :
    i.items.map (Item.number hash r) =
      (Item.opcode (i.inWords hash).opcode).number hash r :: (i.inWords hash).parts := by
  cases i <;> rfl

theorem Instruction.opcode_inWords (hash : Bytes → Bytes) (i : Instruction Operand Nat) :
    (i.inWords hash).opcode = i.opcode := by
  cases i <;> rfl

namespace Replay

variable {names : List String} {rawData : List RawEntry} {trackerNames : Table UInt64 String}

/-- Performing an instruction takes no notice of the numbers. -/
theorem step_registry (r₁ r₂ : Registry) (position : Nat) (memory : Memory)
    (i : Instruction Word Word) :
    step ⟨r₁, names, rawData, trackerNames⟩ position memory i =
      step ⟨r₂, names, rawData, trackerNames⟩ position memory i := by
  cases i <;> rfl

/-- The words of the same instructions say the same under either registry. -/
theorem runFrom_renumbered {hash : Bytes → Bytes} {is : List (Instruction Operand Nat)}
    {position : Nat} {memory : Memory} {text : List Char}
    (known₁ : ∀ item ∈ is.flatMap Instruction.items, item.Known r₁)
    (known₂ : ∀ item ∈ is.flatMap Instruction.items, item.Known r₂) :
    runFrom ⟨r₁, names, rawData, trackerNames⟩ position memory text
        ((is.flatMap Instruction.items).map (Item.number hash r₁)) =
      runFrom ⟨r₂, names, rawData, trackerNames⟩ position memory text
        ((is.flatMap Instruction.items).map (Item.number hash r₂)) := by
  -- the two replays are at the same place of their streams, with the same memory and text
  induction is generalizing position memory text with
  | nil => rw [List.flatMap_nil, List.map_nil, List.map_nil, runFrom, runFrom]
  | cons i is ih =>
    rw [List.flatMap_cons] at known₁ known₂
    obtain ⟨here₁, later₁⟩ := List.forall_mem_append.1 known₁
    obtain ⟨here₂, later₂⟩ := List.forall_mem_append.1 known₂
    have known₁ : (Item.opcode (i.inWords hash).opcode).Known r₁ :=
      here₁ _ (by rw [i.opcode_inWords]; exact List.mem_cons_self)
    have known₂ : (Item.opcode (i.inWords hash).opcode).Known r₂ :=
      here₂ _ (by rw [i.opcode_inWords]; exact List.mem_cons_self)
    rw [List.flatMap_cons, List.map_append, List.map_append, i.map_number_items hash,
      i.map_number_items hash, List.cons_append, List.cons_append,
      runFrom_cons _ (Registry.numbers_number known₁),
      runFrom_cons _ (Registry.numbers_number known₂), step_registry r₁ r₂]
    split
    · rfl
    · exact ih later₁ later₂

/-- Both streams are replayed to the same text: the numbers lead back to the same opcodes. -/
theorem run_renumbered {is : List (Instruction Operand Nat)} {s₁ s₂ : Stream}
    (h₁ : Stream.ofItems r₁ (is.flatMap Instruction.items) = .ok s₁)
    (h₂ : Stream.ofItems r₂ (is.flatMap Instruction.items) = .ok s₂) :
    run ⟨r₁, names, rawData, trackerNames⟩ s₁.words =
      run ⟨r₂, names, rawData, trackerNames⟩ s₂.words := by
  obtain ⟨known₁, rfl⟩ := Stream.ofItems_eq_ok_iff.1 h₁
  obtain ⟨known₂, rfl⟩ := Stream.ofItems_eq_ok_iff.1 h₂
  exact congrArg (Except.map String.ofList) (runFrom_renumbered known₁ known₂)

end Replay

/-- So both effects are rendered alike. -/
theorem EmittedEffect.render_renumbered {m : EmittedEffect} {e₁ e₂ : Effect}
    (h₁ : m.number r₁ = .ok e₁) (h₂ : m.number r₂ = .ok e₂) (names : List String)
    (trackerNames : Table UInt64 String) :
    e₁.render r₁ names trackerNames = e₂.render r₂ names trackerNames := by
  obtain ⟨s₁, streamed₁, is₁⟩ := bind_eq_ok.1 h₁
  obtain ⟨s₂, streamed₂, is₂⟩ := bind_eq_ok.1 h₂
  cases is₁
  cases is₂
  unfold Effect.render
  cases m.effect.effectType with
  | revert => rfl
  | event => rfl
  | expression => exact Replay.run_renumbered streamed₁ streamed₂

/-- Rules that are one emission under two registries are read back alike. -/
theorem Emission.decompile_renumbered {m : Emission} {c₁ c₂ : CompiledRule}
    (h₁ : m.number r₁ = .ok c₁) (h₂ : m.number r₂ = .ok c₂) (policy : UnresolvedPolicy)
    (trackerNames : Table UInt64 String) :
    Config.decompile ⟨r₁, policy⟩ (.ofCompiled c₁ trackerNames) =
      Config.decompile ⟨r₂, policy⟩ (.ofCompiled c₂ trackerNames) := by
  obtain ⟨⟨s₁, streamed₁, is₁⟩, positive₁, negative₁⟩ := number_eq_ok h₁
  obtain ⟨⟨s₂, streamed₂, is₂⟩, positive₂, negative₂⟩ := number_eq_ok h₂
  -- effects of one emission are rendered alike, one by one
  have render : ∀ {ms es₁ es₂},
      List.Forall₂ (fun m e => EmittedEffect.number r₁ m = .ok e) ms es₁ →
      List.Forall₂ (fun m e => EmittedEffect.number r₂ m = .ok e) ms es₂ →
      es₁.mapM (fun e => e.render r₁ m.effectPlaceholders.names trackerNames) =
        es₂.mapM (fun e => e.render r₂ m.effectPlaceholders.names trackerNames) := by
    intro ms es₁ es₂ each₁ each₂
    refine mapM_congr ((forall₂_comp each₁.flip each₂).imp ?_)
    rintro e₁ e₂ ⟨m', number₁, number₂⟩
    exact EmittedEffect.render_renumbered number₁ number₂ _ _
  rw [is₁, is₂]
  simp only [Config.decompile, DecompileInput.ofCompiled]
  rw [Replay.run_renumbered streamed₁ streamed₂, (Stream.aligned streamed₁ streamed₂).2,
    render positive₁ positive₂, render negative₁ negative₂]

end

namespace Config

variable {policy : UnresolvedPolicy} {tables : SymbolTables} {rule : RuleInput} {r₁ : Registry}
  {c₁ : CompiledRule}

/-- **A rule is the same under every registry, but for the numbers.**  There is one emission of
which each registry makes its compiled rule.  A registry that lacks a number for one of its opcodes
fails for that; any other compiles the rule, to words that differ from those under the first
registry in the numbers of opcodes alone, and the two compiled rules are read back as the same
texts. -/
theorem compile_renumbered (compiles : Config.compile ⟨r₁, policy⟩ tables rule = .ok c₁)
    (r₂ : Registry) :
    ∃ m : Emission, (∀ r, Config.compile ⟨r, policy⟩ tables rule = m.number r) ∧
      ((∃ c₂, Config.compile ⟨r₂, policy⟩ tables rule = .ok c₂) ↔
        ∀ op ∈ m.opcodes, ∃ code, r₂.code op = .ok code) ∧
      (∀ e, Config.compile ⟨r₂, policy⟩ tables rule = .error e →
        ∃ op ∈ m.opcodes, r₂.codes.get? op = none ∧ e = .config (.unavailable op.symbol)) ∧
      ∀ c₂, Config.compile ⟨r₂, policy⟩ tables rule = .ok c₂ →
        m.Renumbered r₁ r₂ c₁ c₂ ∧
        ∀ trackerNames,
          Config.decompile ⟨r₁, policy⟩ (.ofCompiled c₁ trackerNames) =
            Config.decompile ⟨r₂, policy⟩ (.ofCompiled c₂ trackerNames) ∧
          (rule.size < UInt64.size →
            ∃ out, Config.decompile ⟨r₁, policy⟩ (.ofCompiled c₁ trackerNames) = .ok out) := by
  -- the emission does not depend on the registry, so all is said about numbering it
  obtain ⟨m, each⟩ := exists_emission compiles
  have missing : ∀ {e}, m.number r₂ = .error e →
      ∃ op ∈ m.opcodes, r₂.codes.get? op = none ∧ e = .config (.unavailable op.symbol) := by
    intro e fails
    obtain ⟨op, mem, missing⟩ := Emission.exists_of_number_eq_error fails
    exact ⟨op, mem, Registry.code_eq_error missing⟩
  refine ⟨m, each, ⟨?_, ?_⟩, ?_, ?_⟩
  · rintro ⟨c₂, compiles₂⟩ op mem
    rw [each] at compiles₂
    exact Emission.code_eq_ok_of_number compiles₂ mem
  · intro have_numbers
    rw [each]
    cases numbered : m.number r₂ with
    | ok c₂ => exact ⟨c₂, rfl⟩
    | error e =>
      obtain ⟨op, mem, missing⟩ := Emission.exists_of_number_eq_error numbered
      obtain ⟨code, found⟩ := have_numbers op mem
      rw [found] at missing
      cases missing
  · intro e fails
    rw [each] at fails
    exact missing fails
  · intro c₂ compiles₂
    have number₁ := (each r₁).symm.trans compiles
    have number₂ := (each r₂).symm.trans compiles₂
    refine ⟨Emission.renumbered number₁ number₂, fun trackerNames =>
      ⟨Emission.decompile_renumbered number₁ number₂ policy trackerNames, fun fits => ?_⟩⟩
    obtain ⟨function, encoded, -, -, called, encoding, -⟩ := compile_eq_ok_iff.1 compiles
    obtain ⟨e, parsed, -⟩ := Scope.encodeCondition_eq_ok encoding
    obtain ⟨out, decompiles, -⟩ :=
      decompile_eq_ok trackerNames compiles fits called encoding parsed
    exact ⟨out, decompiles⟩

/-- A mapped tracker and `!=`, under the current numbering and one that counts backwards; the
earlier numbering has neither. -/
theorem compile_renumbered_backwards :
    let backwards : Registry :=
      ⟨⟨Opcode.all.zipIdx.map fun entry => (entry.1, UInt64.ofNat (40 - entry.2)), by decide⟩,
        by decide⟩
    let tables : SymbolTables :=
      (default : SymbolTables).addTracker "sums" ⟨1, .uint256, some .address⟩
    let rule : RuleInput :=
      ⟨"TR:sums(to) != 3", ["TRU:sums(to) += 1"], ["emit Low"], "f(address to)"⟩
    ∃ c₁ c₂ out, Config.compile ⟨.current, .error⟩ tables rule = .ok c₁ ∧
      Config.compile ⟨backwards, .error⟩ tables rule = .ok c₂ ∧ c₁.words ≠ c₂.words ∧
      c₁.words.length = c₂.words.length ∧ c₁.placeholders = c₂.placeholders ∧
      Config.decompile ⟨.current, .error⟩ (.ofCompiled c₁ .empty) = .ok out ∧
      Config.decompile ⟨backwards, .error⟩ (.ofCompiled c₂ .empty) = .ok out ∧
      ∃ op, Registry.legacy.codes.get? op = none ∧
        Config.compile ⟨.legacy, .error⟩ tables rule =
          .error (.config (.unavailable op.symbol)) := by
  intro backwards tables rule
  obtain ⟨c₁, compiles₁, apart⟩ := exists_ok_of_any
    (show (Config.compile ⟨.current, .error⟩ tables rule).toOption.any (fun c =>
        (Config.compile ⟨backwards, .error⟩ tables rule).toOption.any fun c' =>
          decide (c.words ≠ c'.words)) by decide +kernel)
  obtain ⟨c₂, compiles₂, apart⟩ := exists_ok_of_any apart
  obtain ⟨m, -, -, -, two⟩ := compile_renumbered compiles₁ backwards
  obtain ⟨same, reads⟩ := two c₂ compiles₂
  obtain ⟨alike, back⟩ := reads .empty
  obtain ⟨out, decompiles⟩ := back (by decide +kernel)
  have placeholders := congrArg CompiledRule.placeholders same.others
  refine ⟨c₁, c₂, out, compiles₁, compiles₂, of_decide_eq_true apart,
    same.words.length_left.trans same.words.length_right.symm,
    placeholders, decompiles, alike ▸ decompiles, ?_⟩
  obtain ⟨m, -, -, fails, -⟩ := compile_renumbered compiles₁ .legacy
  cases legacy : Config.compile ⟨.legacy, .error⟩ tables rule with
  -- there is no number for an update there
  | ok c =>
    have none : (Config.compile ⟨.legacy, .error⟩ tables rule).toOption.isSome = false := by
      decide +kernel
    rw [legacy] at none
    cases none
  | error e =>
    obtain ⟨op, -, missing, rfl⟩ := fails e legacy
    exact ⟨op, missing, rfl⟩

end Config

end RuleCodec
