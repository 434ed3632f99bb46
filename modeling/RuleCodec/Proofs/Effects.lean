/-
RuleCodec/Proofs/Effects.lean

What the effects of a rule are compiled to, and that they can be read back.

Each clause of a rule is drafted as an effect that is done or as an expression
bound in the scope (`Effects.Drafts`).  The drafts are then encoded one after
the other with placeholders that only grow, so the names at the end serve every
one of them (`Effects.EncodesAll`, `Effects.EncodedAs`).  What a whole
compilation establishes is collected in `Effects.CompiledFrom`.

Reading an effect back can then fail only for want of numbers:
`Effects.renders_of_compile` asks that the texts of the effects together be no
longer than 2⁶⁴ characters, which bounds the slots of each stream and the
placeholders of all.
-/
import Mathlib.Algebra.Order.BigOperators.Group.List
import Mathlib.Algebra.Order.Group.Nat
import Mathlib.Algebra.Ring.Nat
import RuleCodec.Effect.Compile
import RuleCodec.Proofs.Replaying
import RuleCodec.Proofs.Resolution

namespace RuleCodec

/-! ### Sizes -/

/-- The length of the expression of a clause, if it is one. -/
def Clause.size : Clause → Nat
  | expression source => source.length
  | _ => 0

/-- The number of parts of the expression of a draft, if it has one. -/
def Draft.size : Draft → Nat
  | done _ => 0
  | expression _ resolved => resolved.nodes.length

/-- The expression of a clause is the clause without the blanks at its ends. -/
theorem Clause.eq_trim_of_parse {source text : String}
    (h : Clause.parse source = .ok (.expression text)) :
    text = String.ofList (Text.trim source.toList) := by
  unfold Clause.parse at h
  simp only at h
  split at h
  · unfold parseRevert at h
    split_ifs at h
    · cases h
    · split at h <;> cases h
  · split at h
    · unfold parseEvent at h
      simp only at h
      split_ifs at h <;> cases h
    · cases h
      rfl

/-- A clause is no longer than its text. -/
theorem Clause.size_le_of_parse {source : String} {clause : Clause}
    (h : Clause.parse source = .ok clause) : clause.size ≤ source.length := by
  cases clause with
  | expression text =>
    rw [Clause.size, Clause.eq_trim_of_parse h, String.length_ofList, ← String.length_toList]
    exact Text.length_trim_le _
  | _ => exact Nat.zero_le _

/-- Clauses are no larger than the sources they were parsed from. -/
theorem sum_size_le_of_parse {sources : List String} {clauses : List Clause}
    (h : List.Forall₂ (fun source clause => Clause.parse source = .ok clause) sources clauses) :
    (clauses.map Clause.size).sum ≤ (sources.map String.length).sum := by
  apply List.Forall₂.sum_le_sum
  rw [List.forall₂_map_left_iff, List.forall₂_map_right_iff]
  exact (h.imp fun _ _ => Clause.size_le_of_parse).flip

/-! ### Drafts -/

/-- Binding names does not add nodes. -/
theorem Scope.length_nodes_bound (scope : Scope) (e : Expr) :
    (scope.bound e).nodes.length = e.nodes.length := by
  rw [Scope.bound, Expr.nodes_bind, List.length_map]

namespace Effects

variable {scope : Scope} {registry : Registry} {catalog catalog' : Catalog}
  {ps ps' final : Placeholders} {clauses : List Clause} {drafts : List Draft}
  {effects : List Effect}

/-- What a clause is drafted as: an effect that is done, or an expression bound in the scope. -/
inductive Drafts (scope : Scope) : Clause → Draft → Prop
  | revert {message : String} :
      Drafts scope (.revert message) (.done ⟨.revert, message, [], [], none, none⟩)
  | event {name : String} {parameter : Option EventParameter} :
      Drafts scope (.event name parameter)
        (.done ⟨.event, name, [], [], parameter.map EventParameter.valueType, parameter⟩)
  | expression {source : String} {e : Expr} :
      Expr.parse source = .ok e →
        Drafts scope (.expression source) (.expression source (scope.bound e))

/-- A draft is no larger than its clause. -/
theorem Drafts.size_le {clause : Clause} {draft : Draft} (h : Drafts scope clause draft) :
    draft.size ≤ clause.size := by
  cases h with
  | revert => exact Nat.le_refl _
  | event => exact Nat.le_refl _
  | expression parsed =>
    rw [Draft.size, scope.length_nodes_bound]
    exact Expr.length_nodes_of_parse parsed

theorem sum_size_le_of_drafts (h : List.Forall₂ (Drafts scope) clauses drafts) :
    (drafts.map Draft.size).sum ≤ (clauses.map Clause.size).sum := by
  apply List.Forall₂.sum_le_sum
  rw [List.forall₂_map_left_iff, List.forall₂_map_right_iff]
  exact (h.imp fun _ _ => Drafts.size_le).flip

/-- Every clause gets a draft, and the catalog gains what their expressions refer to. -/
theorem drafts_of_resolveAll (h : resolveAll scope catalog clauses = .ok (drafts, catalog')) :
    List.Forall₂ (Drafts scope) clauses drafts ∧
      ∀ symbol c, catalog'.get? symbol = some c → catalog.get? symbol = some c ∨
        ∃ source e, .expression source ∈ clauses ∧ Expr.parse source = .ok e ∧
          scope.Holds (scope.bound e) c symbol := by
  induction clauses generalizing catalog drafts with
  | nil =>
    cases h
    exact ⟨.nil, fun _ _ found => .inl found⟩
  | cons clause clauses ih =>
    -- what the later clauses bring in, they bring in here as well
    have later : ∀ {catalog₁ : Catalog} {symbol : Symbol} {c : Component},
        (catalog₁.get? symbol = some c ∨ ∃ source e, .expression source ∈ clauses ∧
          Expr.parse source = .ok e ∧ scope.Holds (scope.bound e) c symbol) →
        catalog₁.get? symbol = some c ∨ ∃ source e, .expression source ∈ clause :: clauses ∧
          Expr.parse source = .ok e ∧ scope.Holds (scope.bound e) c symbol := by
      rintro catalog₁ symbol c (before | ⟨source, e, mem, held⟩)
      · exact .inl before
      · exact .inr ⟨source, e, List.mem_cons_of_mem _ mem, held⟩
    cases clause with
    | revert message =>
      rw [resolveAll] at h
      obtain ⟨⟨rest, _⟩, resolved, h⟩ := bind_eq_ok.1 h
      cases h
      obtain ⟨drafted, holds⟩ := ih resolved
      exact ⟨.cons .revert drafted, fun symbol c found => later (holds symbol c found)⟩
    | event name parameter =>
      rw [resolveAll] at h
      obtain ⟨⟨rest, _⟩, resolved, h⟩ := bind_eq_ok.1 h
      cases h
      obtain ⟨drafted, holds⟩ := ih resolved
      exact ⟨.cons .event drafted, fun symbol c found => later (holds symbol c found)⟩
    | expression source =>
      rw [resolveAll] at h
      obtain ⟨e, parsed, h⟩ := bind_eq_ok.1 h
      split at h
      · cases h
      · rename_i catalog₁ resolved run
        obtain ⟨⟨rest, _⟩, resolvedRest, h⟩ := bind_eq_ok.1 h
        cases h
        obtain ⟨drafted, holds⟩ := ih resolvedRest
        obtain ⟨rfl, -⟩ := Scope.resolveInto_eq_ok run
        refine ⟨.cons (.expression parsed) drafted, fun symbol c found => ?_⟩
        rcases later (holds symbol c found) with now | brought
        · -- in the catalog after this clause: from before, or by this clause
          rcases Scope.holds_of_resolveInto run now with before | held
          · exact .inl before
          · exact .inr ⟨source, e, List.mem_cons_self, parsed, held⟩
        · exact .inr brought

/-! ### Encoding one after the other -/

/-- Drafts are encoded as effects, each with the placeholders that the ones before it left. -/
inductive EncodesAll (registry : Registry) (catalog : Catalog) :
    Placeholders → List Draft → List Effect → Placeholders → Prop
  | nil {ps : Placeholders} : EncodesAll registry catalog ps [] [] ps
  | done {ps ps' : Placeholders} {drafts : List Draft} {effects : List Effect} {effect : Effect} :
      EncodesAll registry catalog ps drafts effects ps' →
        EncodesAll registry catalog ps (.done effect :: drafts) (effect :: effects) ps'
  | expression {ps ps₁ ps' : Placeholders} {drafts : List Draft} {effects : List Effect}
      {source text : String} {resolved : Expr} {code : Code} {stream : Stream} :
      Encodes catalog none 0 resolved ps code ps₁ →
      Stream.ofItems registry (code.instructions.flatMap Instruction.items) = .ok stream →
      Expr.normalize source = .ok text →
      EncodesAll registry catalog ps₁ drafts effects ps' →
        EncodesAll registry catalog ps (.expression source resolved :: drafts)
          (⟨.expression, text, stream.words, stream.rawData, none, none⟩ :: effects) ps'

/-- Whatever the function returns, the relation says how it was made. -/
theorem encodesAll_of_encodeAll (h : encodeAll registry catalog ps drafts = .ok (effects, ps')) :
    EncodesAll registry catalog ps drafts effects ps' := by
  induction drafts generalizing ps effects with
  | nil =>
    cases h
    exact .nil
  | cons draft drafts ih =>
    cases draft with
    | done effect =>
      rw [encodeAll] at h
      obtain ⟨⟨rest, _⟩, encoded, h⟩ := bind_eq_ok.1 h
      cases h
      exact .done (ih encoded)
    | expression source resolved =>
      rw [encodeAll] at h
      split at h
      · cases h
      · rename_i instructions ps₁ run
        -- the rest of the list is encoded last, into the placeholders of this expression
        obtain ⟨stream, streamed, h⟩ := bind_eq_ok.1 h
        obtain ⟨text, normal, h⟩ := bind_eq_ok.1 h
        obtain ⟨⟨rest, _⟩, encoded, h⟩ := bind_eq_ok.1 h
        cases h
        obtain ⟨code, encodes, rfl⟩ := Expr.encodes_of_encode run
        exact .expression encodes streamed normal (ih encoded)

/-- What a draft is encoded as, and with placeholders that went on to grow. -/
inductive EncodedAs (registry : Registry) (catalog : Catalog) (final : Placeholders) :
    Draft → Effect → Prop
  | done {effect : Effect} : EncodedAs registry catalog final (.done effect) effect
  | expression {ps ps' : Placeholders} {source text : String} {resolved : Expr} {code : Code}
      {stream : Stream} :
      Encodes catalog none 0 resolved ps code ps' → ps'.Extends final →
      Stream.ofItems registry (code.instructions.flatMap Instruction.items) = .ok stream →
      Expr.normalize source = .ok text →
        EncodedAs registry catalog final (.expression source resolved)
          ⟨.expression, text, stream.words, stream.rawData, none, none⟩

namespace EncodesAll

/-- What interning a component of the catalog preserves, encoding a list of drafts preserves. -/
theorem invariant {P : Placeholders → Prop} (h : EncodesAll registry catalog ps drafts effects ps')
    (step : ∀ ps symbol c, P ps → catalog.get? symbol = some c → P (ps.intern c).2)
    (start : P ps) : P ps' := by
  induction h with
  | nil => exact start
  | done _ ih => exact ih start
  | expression encodes _ _ _ ih => exact ih (encodes.invariant step start)

/-- Placeholders are only ever added. -/
theorem placeholders_extend (h : EncodesAll registry catalog ps drafts effects ps') :
    ps.Extends ps' := by
  refine h.invariant (P := ps.Extends) ?_ (Table.Extends.refl ps)
  intro qs symbol c grown found
  exact grown.trans (Placeholders.extends_intern qs c)

/-- No more placeholders are added than the drafts have nodes. -/
theorem size_le (h : EncodesAll registry catalog ps drafts effects ps') :
    ps'.size ≤ ps.size + (drafts.map Draft.size).sum := by
  induction h with
  | nil => exact Nat.le_refl _
  | done _ ih => simpa [Draft.size] using ih
  | expression encodes _ _ _ ih =>
    have here := encodes.size_le
    simp only [List.map_cons, List.sum_cons, Draft.size]
    omega

/-- The placeholders at the end serve every one of the effects. -/
theorem forall₂_encodedAs (h : EncodesAll registry catalog ps drafts effects ps') :
    List.Forall₂ (EncodedAs registry catalog ps') drafts effects := by
  induction h with
  | nil => exact .nil
  | done _ ih => exact .cons .done ih
  | expression encodes streamed normal rest ih =>
    exact .cons (.expression encodes rest.placeholders_extend streamed normal) ih

end EncodesAll

/-! ### Clauses and their effects -/

/-- What a clause of a rule is compiled to, all clauses together. -/
def CompiledTo (scope : Scope) (registry : Registry) (catalog : Catalog) (final : Placeholders)
    (source : String) (effect : Effect) : Prop :=
  ∃ clause draft, Clause.parse source = .ok clause ∧ Drafts scope clause draft ∧
    EncodedAs registry catalog final draft effect

variable {positive negative : List String} {compiled : Effects}

/-- An expression among the clauses of a rule. -/
def IsExpression (sources : List String) (e : Expr) : Prop :=
  ∃ source ∈ sources, ∃ text, Clause.parse source = .ok (.expression text) ∧
    Expr.parse text = .ok e

/-- What compiled effects come from: each clause has its effect, in order, the catalog is that of
all expressions among them, and the placeholders were entered for components of it. -/
structure CompiledFrom (scope : Scope) (registry : Registry) (positive negative : List String)
    (compiled : Effects) : Prop where
  eachPositive : List.Forall₂ (CompiledTo scope registry compiled.catalog compiled.placeholders)
    positive compiled.positive
  eachNegative : List.Forall₂ (CompiledTo scope registry compiled.catalog compiled.placeholders)
    negative compiled.negative
  holds : ∀ symbol c, compiled.catalog.get? symbol = some c →
    ∃ e, IsExpression (positive ++ negative) e ∧ scope.Holds (scope.bound e) c symbol
  size_le : compiled.placeholders.size ≤
    (positive.map String.length).sum + (negative.map String.length).sum
  invariant : ∀ P : Placeholders → Prop,
    (∀ ps symbol c, P ps → compiled.catalog.get? symbol = some c → P (ps.intern c).2) →
      P .empty → P compiled.placeholders

/-- The clauses of a rule are drafted, and the drafts encoded one after the other. -/
theorem encodesAll_of_compile (h : compile scope registry positive negative = .ok compiled) :
    ∃ clauses drafts,
      List.Forall₂ (fun source clause => Clause.parse source = .ok clause) (positive ++ negative)
        clauses ∧
      resolveAll scope .empty clauses = .ok (drafts, compiled.catalog) ∧
      EncodesAll registry compiled.catalog .empty drafts (compiled.positive ++ compiled.negative)
        compiled.placeholders ∧
      compiled.positive.length = positive.length := by
  unfold compile at h
  obtain ⟨clauses, parsed, h⟩ := bind_eq_ok.1 h
  obtain ⟨clauses', parsed', h⟩ := bind_eq_ok.1 h
  obtain ⟨⟨drafts, catalog⟩, resolved, h⟩ := bind_eq_ok.1 h
  obtain ⟨⟨all, placeholders⟩, encoded, h⟩ := bind_eq_ok.1 h
  cases h
  have sides := mapM_eq_ok_iff.1 parsed
  have encodes := encodesAll_of_encodeAll encoded
  -- both sides are encoded as one list, and cut where the positive ones end
  have length := (drafts_of_resolveAll resolved).1.length_eq.trans
    encodes.forall₂_encodedAs.length_eq
  refine ⟨clauses ++ clauses', drafts, List.rel_append sides (mapM_eq_ok_iff.1 parsed'), resolved,
    ?_, ?_⟩
  · rw [List.take_append_drop]
    exact encodes
  · rw [List.length_append] at length
    rw [List.length_take, ← length, sides.length_eq]
    omega

/-- Compiled effects come from parsing, resolving and encoding, in this order. -/
theorem compiledFrom_of_compile (h : compile scope registry positive negative = .ok compiled) :
    CompiledFrom scope registry positive negative compiled := by
  obtain ⟨clauses, drafts, parsed, resolved, encodes, sides⟩ := encodesAll_of_compile h
  obtain ⟨drafted, holds⟩ := drafts_of_resolveAll resolved
  -- clause by clause, through the drafts
  have each : List.Forall₂
      (CompiledTo scope registry compiled.catalog compiled.placeholders)
      (positive ++ negative) (compiled.positive ++ compiled.negative) := by
    refine (forall₂_comp (forall₂_comp parsed drafted) encodes.forall₂_encodedAs).imp ?_
    rintro source effect ⟨draft, ⟨clause, parsed, drafted⟩, encoded⟩
    exact ⟨clause, draft, parsed, drafted, encoded⟩
  refine ⟨?_, ?_, ?_, ?_, fun P step start => encodes.invariant step start⟩
  -- the sides are told apart by their lengths
  · have front := List.forall₂_take positive.length each
    rwa [List.take_left, ← sides, List.take_left] at front
  · have back := List.forall₂_drop positive.length each
    rwa [List.drop_left, ← sides, List.drop_left] at back
  · intro symbol c found
    rcases holds symbol c found with before | ⟨text, e, mem, parsedText, held⟩
    · cases before
    · obtain ⟨source, inside, classified⟩ := exists_left_of_forall₂ parsed mem
      exact ⟨e, ⟨source, inside, text, classified, parsedText⟩, held⟩
  · have entered := encodes.size_le
    have small := sum_size_le_of_drafts drafted
    have sizes := sum_size_le_of_parse parsed
    have none : (Table.empty : Placeholders).size = 0 := rfl
    rw [List.map_append (f := String.length), List.sum_append] at sizes
    omega

/-! ### Reading back -/

/-- The stream of an encoded expression is read back as what it says. -/
theorem EncodedAs.render_eq {source : String} {resolved : Expr} {effect : Effect}
    (h : EncodedAs registry catalog final (.expression source resolved) effect)
    (fits : final.size ≤ UInt64.size) (small : resolved.nodes.length ≤ UInt64.size)
    (trackerNames : Table UInt64 String) :
    effect.render registry final.names trackerNames =
      .ok (String.ofList (Replay.said ⟨registry, final.names, effect.rawData, trackerNames⟩ catalog
        (catalog.shownName final) resolved)) := by
  cases h with
  | expression encodes grown streamed normal =>
    have slot := encodes.slot_lt
    exact encodes.run_eq_ok grown ⟨rfl, fits⟩ (by omega) streamed rfl

/-- An effect can be read back, given numbers enough for its slots and placeholders. -/
theorem CompiledTo.exists_render {source : String} {effect : Effect}
    (h : CompiledTo scope registry catalog final source effect) (fits : final.size ≤ UInt64.size)
    (small : source.length ≤ UInt64.size) (trackerNames : Table UInt64 String) :
    ∃ text, effect.render registry final.names trackerNames = .ok text := by
  obtain ⟨clause, draft, parsed, drafted, encoded⟩ := h
  cases drafted with
  | revert =>
    cases encoded
    exact ⟨_, rfl⟩
  | event =>
    cases encoded
    unfold Effect.render
    simp only
    split <;> exact ⟨_, rfl⟩
  | @expression text e read =>
    -- there are fewer parts than characters, so every slot has a number
    have length := Expr.length_nodes_of_parse read
    rw [← scope.length_nodes_bound] at length
    have shorter : text.length ≤ source.length := Clause.size_le_of_parse parsed
    exact ⟨_, encoded.render_eq fits (by omega) trackerNames⟩

/-- Effects whose texts together have at most 2⁶⁴ characters can all be read back. -/
theorem renders_of_compile (h : compile scope registry positive negative = .ok compiled)
    (fits : (positive.map String.length).sum + (negative.map String.length).sum ≤ UInt64.size)
    (trackerNames : Table UInt64 String) :
    ∀ effect ∈ compiled.positive ++ compiled.negative,
      ∃ text, effect.render registry compiled.placeholders.names trackerNames = .ok text := by
  have made := compiledFrom_of_compile h
  have entered := made.size_le
  intro effect mem
  have each := List.rel_append made.eachPositive made.eachNegative
  obtain ⟨source, inside, compiledTo⟩ := exists_left_of_forall₂ each mem
  have length := List.le_sum_of_mem (List.mem_map_of_mem (f := String.length) inside)
  rw [List.map_append, List.sum_append] at length
  exact compiledTo.exists_render (by omega) (by omega) trackerNames

end Effects

end RuleCodec
