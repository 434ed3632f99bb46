/-
RuleCodec/Proofs/ReadingBack.lean

Reading a whole rule back, its effects included.

Whatever compiles can be read back, under any names for the trackers
(`Config.decompile_ofCompiled`).  The effects of a rule share one catalog and
one numbering of placeholders; where the references of all of them together can
be told apart, each expression among them is still read back as its own normal
text (`Effects.render_compile`).
-/
import RuleCodec.Proofs.RoundTrip
import RuleCodec.Proofs.Trimming

namespace RuleCodec

/-! ### Whole rules -/

namespace Config

variable {config : Config} {tables : SymbolTables} {rule : RuleInput} {compiled : CompiledRule}

/-- A rule that is read back has a text for each effect. -/
theorem forall₂_of_decompile {input : DecompileInput} {out : DecompiledRule}
    (h : config.decompile input = .ok out) :
    List.Forall₂ (fun effect text => effect.render config.registry input.effectPlaceholderNames
        input.trackerNames = .ok text) input.positiveEffects out.positiveEffects ∧
      List.Forall₂ (fun effect text => effect.render config.registry input.effectPlaceholderNames
        input.trackerNames = .ok text) input.negativeEffects out.negativeEffects := by
  unfold decompile at h
  obtain ⟨condition, -, h⟩ := bind_eq_ok.1 h
  obtain ⟨positive, hp, h⟩ := bind_eq_ok.1 h
  obtain ⟨negative, hn, h⟩ := bind_eq_ok.1 h
  cases h
  exact ⟨mapM_eq_ok_iff.1 hp, mapM_eq_ok_iff.1 hn⟩

/-- **A compiled rule is never refused.**  It can be read back with any names for the trackers, its
condition and as many effects as there are clauses. -/
theorem decompile_ofCompiled (compiles : config.compile tables rule = .ok compiled)
    (fits : rule.size < UInt64.size) (trackerNames : Table UInt64 String) :
    ∃ out, config.decompile (.ofCompiled compiled trackerNames) = .ok out ∧
      out.positiveEffects.length = rule.positiveEffects.length ∧
      out.negativeEffects.length = rule.negativeEffects.length := by
  obtain ⟨function, encoded, stream, effects, called, encoding, -, compiledEffects, is⟩ :=
    compile_eq_ok_iff.1 compiles
  obtain ⟨e, parsed, -⟩ := Scope.encodeCondition_eq_ok encoding
  obtain ⟨out, decompiles, -⟩ :=
    decompile_eq_ok trackerNames compiles fits called encoding parsed
  -- an effect was compiled from each clause, and each is rendered
  have made := Effects.compiledFrom_of_compile compiledEffects
  obtain ⟨positive, negative⟩ := forall₂_of_decompile decompiles
  refine ⟨out, decompiles, ?_, ?_⟩
  · rw [← positive.length_eq, made.eachPositive.length_eq, is]
    rfl
  · rw [← negative.length_eq, made.eachNegative.length_eq, is]
    rfl

/-- Unknown names that all have index zero, updates beside an `AND`, and a tracker name that is
wrong. -/
theorem decompile_ofCompiled_unknown :
    let config : Config := { (default : Config) with policy := .indexZero }
    let rule : RuleInput :=
      ⟨"FC:gone(a, TR:lost) > 2 AND (TRU:y(b) += 1) AND (TRU:x = a)",
        ["TRU:x -= TR:z * 2", "emit Done"], ["revert(\"no\")"], "f(uint256 a)"⟩
    let trackerNames : Table UInt64 String := Table.empty.insert 0 "other"
    ∃ compiled out, config.compile default rule = .ok compiled ∧
      config.decompile (.ofCompiled compiled trackerNames) = .ok out ∧
      out.positiveEffects.length = 2 ∧ out.negativeEffects.length = 1 := by
  intro config rule trackerNames
  obtain ⟨compiled, compiles, -⟩ := exists_ok_of_any
    (show (config.compile default rule).toOption.any (fun _ => true) by decide +kernel)
  obtain ⟨out, decompiles, lengths⟩ :=
    decompile_ofCompiled compiles (by decide +kernel) trackerNames
  exact ⟨compiled, out, compiles, decompiles, lengths⟩

end Config

/-! ### Effects -/

namespace Effects

variable {scope : Scope} {registry : Registry} {positive negative : List String}
  {compiled : Effects} {trackerNames : Table UInt64 String}

/-- The references of all expressions together can be told apart by what they are shown as. -/
theorem CompiledFrom.legible (made : CompiledFrom scope registry positive negative compiled)
    (alike : ∀ e e', IsExpression (positive ++ negative) e →
      IsExpression (positive ++ negative) e' → e.AlikeAcross e')
    (apart : compiled.catalog.Apart) :
    Legible compiled.catalog compiled.placeholders
      fun root => ∃ e, IsExpression (positive ++ negative) e ∧ root = scope.bound e := by
  refine ⟨?_, ?_, apart, ?_⟩
  · intro symbol c found
    obtain ⟨e, isExpression, held⟩ := made.holds symbol c found
    exact ⟨scope.bound e, ⟨e, isExpression, rfl⟩, held.displays⟩
  · rintro _ _ ⟨e, isExpression, rfl⟩ ⟨e', isExpression', rfl⟩
    have across := alike e e' isExpression isExpression'
    obtain ⟨_, _, _, _, parsed⟩ := isExpression
    obtain ⟨_, _, _, _, parsed'⟩ := isExpression'
    exact across.bind _ (Expr.lexical_of_parse parsed) (Expr.lexical_of_parse parsed')
  · -- placeholders come from interning components of the catalog
    apply made.invariant (Placeholders.Of compiled.catalog)
    · intro ps symbol c of found
      exact Placeholders.of_intern of found
    · intro key entry entered
      cases entered

/-- How an effect goes with its clause.  A revert keeps its message, an event its name and
parameter; an expression has its normal text, and is read back as that. -/
def ReadsBack (registry : Registry) (compiled : Effects) (trackerNames : Table UInt64 String)
    (source : String) (effect : Effect) : Prop :=
  match Clause.parse source with
  | .ok (.revert message) => effect = ⟨.revert, message, [], [], none, none⟩
  | .ok (.event name parameter) =>
    effect = ⟨.event, name, [], [], parameter.map EventParameter.valueType, parameter⟩
  | .ok (.expression _) =>
    effect.effectType = .expression ∧ Expr.normalize source = .ok effect.text ∧
      effect.render registry compiled.placeholders.names trackerNames = .ok effect.text
  | .error _ => False

/-- An expression whose references can be told apart is read back as its normal text. -/
theorem EncodedAs.render_eq_render {text : String} {e : Expr} {effect : Effect}
    {catalog : Catalog} {final : Placeholders} {roots : Expr → Prop}
    (encoded : EncodedAs registry catalog final (.expression text (scope.bound e)) effect)
    (parsed : Expr.parse text = .ok e) (legible : Legible catalog final roots)
    (isRoot : roots (scope.bound e)) (updates : e.UpdatesAtRoot)
    (names : catalog.Names trackerNames) (fits : final.size ≤ UInt64.size)
    (small : text.length ≤ UInt64.size) :
    effect.render registry final.names trackerNames = .ok e.render := by
  have lexical := Expr.lexical_of_parse parsed
  have length := Expr.length_nodes_of_parse parsed
  rw [← scope.length_nodes_bound] at length
  rw [encoded.render_eq fits (by omega) trackerNames]
  cases encoded with
  | expression encodes grown streamed normal =>
    rw [encodes.said_eq_spell _ grown legible isRoot (updates.bind _) fun _ => names, Scope.bound,
      Expr.spell_bind _ _ lexical, Expr.render]

/-- What a source was compiled to reads back, if the whole set of effects is legible. -/
theorem CompiledTo.readsBack {source : String} {effect : Effect} {roots : Expr → Prop}
    (h : CompiledTo scope registry compiled.catalog compiled.placeholders source effect)
    (legible : Legible compiled.catalog compiled.placeholders roots)
    (isRoot : ∀ e, IsExpression [source] e → roots (scope.bound e))
    (updates : ∀ e, IsExpression [source] e → e.UpdatesAtRoot)
    (names : compiled.catalog.Names trackerNames)
    (fits : compiled.placeholders.size ≤ UInt64.size) (small : source.length ≤ UInt64.size) :
    ReadsBack registry compiled trackerNames source effect := by
  obtain ⟨clause, draft, classified, drafted, encoded⟩ := h
  rw [ReadsBack, classified]
  cases drafted with
  | revert =>
    cases encoded
    rfl
  | event =>
    cases encoded
    rfl
  | @expression text e parsed =>
    have isExpression : IsExpression [source] e :=
      ⟨source, List.mem_singleton_self _, text, classified, parsed⟩
    have shorter : text.length ≤ source.length := Clause.size_le_of_parse classified
    have render := encoded.render_eq_render parsed legible (isRoot e isExpression)
      (updates e isExpression) names fits (by omega)
    -- the blanks that the clause lost do not matter for its normal text
    have whole : Expr.parse source = .ok e := by
      rw [Clause.eq_trim_of_parse classified] at parsed
      exact Expr.parse_of_trim parsed
    cases encoded with
    | expression encodes grown streamed normal =>
      have is := (Expr.exists_phrase_of_parse parsed).1
      cases normal.symm.trans is
      exact ⟨rfl, (Expr.exists_phrase_of_parse whole).1, render⟩

/-- **Effects that are compiled together are read back one by one.**  Among all expressions, calls
of one name are written alike, no two components share an index and flags, nothing is updated but
by an expression as a whole, and the tracker names brought along are right. -/
theorem render_compile (compiles : compile scope registry positive negative = .ok compiled)
    (alike : ∀ e e', IsExpression (positive ++ negative) e →
      IsExpression (positive ++ negative) e' → e.AlikeAcross e')
    (apart : compiled.catalog.Apart)
    (updates : ∀ e, IsExpression (positive ++ negative) e → e.UpdatesAtRoot)
    (names : compiled.catalog.Names trackerNames)
    (fits : (positive.map String.length).sum + (negative.map String.length).sum ≤ UInt64.size) :
    List.Forall₂ (ReadsBack registry compiled trackerNames) positive compiled.positive ∧
      List.Forall₂ (ReadsBack registry compiled trackerNames) negative compiled.negative := by
  have made := compiledFrom_of_compile compiles
  have legible := made.legible alike apart
  have entered := made.size_le
  -- each clause is one of them, and short enough by itself
  have reads : ∀ source ∈ positive ++ negative, ∀ effect,
      CompiledTo scope registry compiled.catalog compiled.placeholders source effect →
        ReadsBack registry compiled trackerNames source effect := by
    intro source mem effect compiledTo
    have small := List.le_sum_of_mem (List.mem_map_of_mem (f := String.length) mem)
    rw [List.map_append, List.sum_append] at small
    have among : ∀ e, IsExpression [source] e → IsExpression (positive ++ negative) e := by
      rintro e ⟨source', is, found⟩
      cases List.mem_singleton.1 is
      exact ⟨source, mem, found⟩
    exact compiledTo.readsBack legible (fun e is => ⟨e, among e is, rfl⟩)
      (fun e is => updates e (among e is)) names (by omega) (by omega)
  constructor
  · have each := (List.forall₂_and_left positive compiled.positive).2
      ⟨fun source mem => List.mem_append_left negative mem, made.eachPositive⟩
    exact each.imp fun source effect ⟨mem, compiledTo⟩ => reads source mem effect compiledTo
  · have each := (List.forall₂_and_left negative compiled.negative).2
      ⟨fun source mem => List.mem_append_right positive mem, made.eachNegative⟩
    exact each.imp fun source effect ⟨mem, compiledTo⟩ => reads source mem effect compiledTo

/-- Two clauses on different sides that call one function, the first with blanks around it. -/
theorem render_compile_two_sides :
    let tables : SymbolTables :=
      ((default : SymbolTables).addTracker "sums" ⟨1, .uint256, some .address⟩).addForeignCall
        "owner" ⟨3, .address⟩
    let scope : Scope := ⟨⟨none, [⟨"to", "address", .address⟩]⟩, tables, .error⟩
    let positive := ["  TRU:sums(FC:owner(to)) += (2 * 3) ", "emit Sent, 7"]
    let negative := ["revert()", "FC:owner( to ) == to"]
    let trackerNames : Table UInt64 String := Table.empty.insert 1 "sums"
    ∃ compiled, compile scope default positive negative = .ok compiled ∧
      List.Forall₂ (ReadsBack default compiled trackerNames) positive compiled.positive ∧
      List.Forall₂ (ReadsBack default compiled trackerNames) negative compiled.negative := by
  intro tables scope positive negative trackerNames
  let owner : Phrase :=
    .primary (.callWith "owner" (.last (.primary (.leaf (.identifier "to")))))
  let adds : Phrase :=
    .binary (.compound .add) (.primary (.keyed ⟨"sums", true⟩ owner))
      (.primary (.paren (.binary (.plain (.arith .multiply)) (.primary (.leaf (.number 2)))
        (.primary (.leaf (.number 3))))))
  let compares : Phrase := .binary (.plain .equal) owner (.primary (.leaf (.identifier "to")))
  -- the two expressions among the clauses
  have expressions : ∀ e, IsExpression (positive ++ negative) e →
      e = adds.erase ∨ e = compares.erase := by
    rintro e ⟨source, mem, text, classified, parsed⟩
    simp only [positive, negative, List.cons_append, List.nil_append, List.mem_cons,
      List.not_mem_nil, or_false] at mem
    rcases mem with rfl | rfl | rfl | rfl
    · left
      have is : Clause.parse "  TRU:sums(FC:owner(to)) += (2 * 3) " =
          .ok (.expression "TRU:sums(FC:owner(to)) += (2 * 3)") := by decide +kernel
      cases classified.symm.trans is
      obtain ⟨ts, scanned, yields⟩ := exists_ok_of_any
        (show (Token.scan "TRU:sums(FC:owner(to)) += (2 * 3)").toOption.any
          (fun ts => decide (tokens ts = adds.yield ++ [.endOfInput])) by decide +kernel)
      have read := parse_of_scan scanned (by decide) (of_decide_eq_true yields)
      exact Except.ok.inj (parsed.symm.trans read)
    · have is : Clause.parse "emit Sent, 7" = .ok (.event "Sent" (some (.uint256 7))) := by
        decide +kernel
      cases classified.symm.trans is
    · have is : Clause.parse "revert()" = .ok (.revert "") := by decide +kernel
      cases classified.symm.trans is
    · right
      have is : Clause.parse "FC:owner( to ) == to" =
          .ok (.expression "FC:owner( to ) == to") := by decide +kernel
      cases classified.symm.trans is
      obtain ⟨ts, scanned, yields⟩ := exists_ok_of_any
        (show (Token.scan "FC:owner( to ) == to").toOption.any
          (fun ts => decide (tokens ts = compares.yield ++ [.endOfInput])) by decide +kernel)
      have read := parse_of_scan scanned (by decide) (of_decide_eq_true yields)
      exact Except.ok.inj (parsed.symm.trans read)
  have calls : ∀ e, IsExpression (positive ++ negative) e → ∀ name arguments,
      .foreignCall name arguments ∈ e.nodes → name = "owner" ∧ arguments = [.identifier "to"] := by
    intro e isExpression name arguments mem
    rcases expressions e isExpression with rfl | rfl
    · simpa [adds, owner, Phrase.erase, Primary.erase, Leaf.erase, Arguments.erase, Expr.nodes,
        Expr.nodesAll] using mem
    · simpa [compares, owner, Phrase.erase, Primary.erase, Leaf.erase, Arguments.erase,
        Expr.nodes, Expr.nodesAll] using mem
  obtain ⟨compiled, compiles, facts⟩ := exists_ok_of_any
    (show (compile scope default positive negative).toOption.any (fun compiled =>
      decide (compiled.catalog.Apart ∧ compiled.catalog.Names trackerNames)) by decide +kernel)
  obtain ⟨apart, names⟩ := of_decide_eq_true facts
  refine ⟨compiled, compiles, render_compile compiles ?_ apart ?_ names (by decide +kernel)⟩
  · intro e e' isExpression isExpression' name arguments arguments' mem mem'
    rw [(calls e isExpression name arguments mem).2,
      (calls e' isExpression' name arguments' mem').2]
  · intro e isExpression
    rcases expressions e isExpression with rfl | rfl
    · exact .mapped rfl rfl rfl
    · exact .none rfl

end Effects

end RuleCodec
