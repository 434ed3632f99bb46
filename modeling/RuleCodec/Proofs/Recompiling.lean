/-
RuleCodec/Proofs/Recompiling.lean

Compiling what was read back.

A condition that updates nothing is read back as its normal text, and that text
can be compiled in its turn.  It becomes the same stream with the same
placeholders exactly if reading the text does not change what the condition
means (`Config.compile_decompile_iff`): its operators are nested as precedence
nests them without parentheses, and no text in it is spelled like an argument.

Design.  The two runs of the compiler meet different expressions, `e` and
`e.reread`, and fill different catalogs.  What one refers to the other does, and
calls are written alike, so a symbol that is in both catalogs stands for one
component; whether the streams agree is then a matter of the gists.
-/
import RuleCodec.Proofs.Cores
import RuleCodec.Proofs.Reprinting
import RuleCodec.Proofs.RoundTrip

namespace RuleCodec

/-! ### References of what is read again -/

namespace Expr

/-- What refers to a symbol is an operand. -/
theorem isOperand_of_refers? {n : Expr} {symbol : Symbol} (h : n.refers? = some symbol) :
    n.isOperand := by
  cases n <;> first | rfl | cases h

/-- Rereading a part does not make it refer to another symbol. -/
theorem refers?_of_reread {n : Expr} {symbol : Symbol} (operand : n.isOperand)
    (h : n.reread.refers? = some symbol) : n.refers? = some symbol := by
  cases n with
  | text value =>
    rw [reread_text] at h
    split at h <;> cases h
  | foreignCall name arguments =>
    rw [reread_foreignCall] at h
    exact h
  | binary _ _ _ => cases operand
  | not _ => cases operand
  | argument name => cases h
  | _ => exact h

/-- What is read again refers to no more than the expression did. -/
theorem exists_refers_of_reread {e n' : Expr} {symbol : Symbol} (mem : n' ∈ e.reread.nodes)
    (refers : n'.refers? = some symbol) : ∃ n ∈ e.nodes, n.refers? = some symbol := by
  obtain ⟨n, inside, operand, rfl⟩ := exists_operand_of_reread mem (isOperand_of_refers? refers)
  exact ⟨n, inside, refers?_of_reread operand refers⟩

/-- A call that is read again comes from one that is written alike. -/
theorem exists_call_of_reread {e : Expr} (reads : e.StoresNothing) {name : String}
    {arguments : List Expr} (mem : .foreignCall name arguments ∈ e.reread.nodes) :
    ∃ arguments', .foreignCall name arguments' ∈ e.nodes ∧
      (foreignCall name arguments).render = (foreignCall name arguments').render := by
  obtain ⟨n, inside, operand, is⟩ := exists_operand_of_reread mem rfl
  have refers : n.refers? = some (.foreignCall name) :=
    refers?_of_reread operand (by rw [is]; rfl)
  cases n with
  | foreignCall name' arguments' =>
    cases refers
    refine ⟨arguments', inside, ?_⟩
    rw [← is, render, render, spell_reread (reads.of_mem inside)]
  | _ => cases refers

/-- An expression whose parts only read stores nothing. -/
theorem storesNothing_of_readsOnly {e : Expr} (reads : ∀ n ∈ e.nodes, n.readsOnly) :
    e.StoresNothing := by
  intro op left right mem
  have reads := reads _ mem
  simp only [readsOnly, Bool.and_eq_true, Bool.not_eq_true'] at reads
  exact reads.1.1

end Expr

/-! ### Conditions -/

namespace Scope

variable {scope : Scope} {e e' : Expr} {catalog catalog' : Catalog}

/-- Calls of one name are written alike before and after their text is read again. -/
theorem alike_reread (alike : e.CallsAlike) (lexical : ∀ n ∈ e.nodes, n.Lexical)
    (lexical' : ∀ n ∈ e.reread.nodes, n.Lexical)
    (reads : e.StoresNothing) : (scope.bound e).AlikeAcross (scope.bound e.reread) := by
  intro name arguments arguments' mem mem'
  obtain ⟨original, inside, eq⟩ := Expr.exists_call_of_bind _ lexical mem
  obtain ⟨second, mem', eq'⟩ := Expr.exists_call_of_bind _ lexical' mem'
  obtain ⟨first, mem', eq''⟩ := Expr.exists_call_of_reread reads mem'
  rw [eq, eq', eq'']
  exact alike name original first inside mem'

/-- Placeholders tell symbols across the catalogs of two expressions. -/
theorem tells_of_resolve {resolved resolved' : Expr}
    (h : scope.resolve e = .ok (resolved, catalog))
    (h' : scope.resolve e' = .ok (resolved', catalog')) (policy : scope.policy = .error)
    (distinct : scope.tables.Distinct)
    (short : scope.function.arguments.length ≤ UInt64.size) : catalog.Tells catalog' := by
  intro symbol symbol' c c' found found' same
  exact (holds_of_resolve h found).symbol_eq policy distinct short (holds_of_resolve h' found') same

/-- The text of an expression is encoded as the expression was exactly if it has the same gist. -/
theorem encodeCondition_render_iff {condition : String} {encoded : EncodedCondition}
    {registry : Registry} {stream : Stream}
    (encoding : scope.encodeCondition condition = .ok encoded)
    (streamed : Stream.ofItems registry encoded.items = .ok stream)
    (parsed : Expr.parse condition = .ok e) (policy : scope.policy = .error)
    (distinct : scope.tables.Distinct) (short : scope.function.arguments.length ≤ UInt64.size)
    (reads : e.StoresNothing) (alike : e.CallsAlike) (fits : condition.length < UInt64.size) :
    (∃ encoded', scope.encodeCondition e.render = .ok encoded' ∧
        Stream.ofItems registry encoded'.items = .ok stream ∧
        encoded'.placeholders.items = encoded.placeholders.items ∧
        encoded'.placeholders.names = encoded.placeholders.names) ↔
      (scope.bound e.reread).gist = (scope.bound e).gist := by
  obtain ⟨e₀, parsed₀, resolved, code, encodes, instructions⟩ := encodeCondition_eq_ok encoding
  cases parsed.symm.trans parsed₀
  have lexical := Expr.lexical_of_parse parsed
  have parsed' := Expr.parse_render lexical
  -- what is read again refers to nothing new, so it resolves as well
  obtain ⟨catalog', resolved'⟩ := resolve_of_refers resolved policy
    fun n' mem symbol refers => Expr.exists_refers_of_reread mem refers
  have length := Expr.length_nodes_of_parse parsed
  rw [EncodedCondition.items, ← instructions] at streamed
  constructor
  · rintro ⟨encoded', encoding', streamed', items, names⟩
    obtain ⟨e₁, parsed₁, resolved₁, code', encodes', instructions'⟩ :=
      encodeCondition_eq_ok encoding'
    cases parsed'.symm.trans parsed₁
    rw [EncodedCondition.items, ← instructions'] at streamed'
    -- equal streams and placeholders come from equal gists
    refine encodes'.gist_eq encodes (tells_of_resolve resolved₁ resolved policy distinct short)
      streamed' streamed items names ?_ ?_
    · rw [length_nodes_bound, Expr.length_nodes_reread]
      omega
    · rw [length_nodes_bound]
      omega
  · intro same
    have lexical' := Expr.lexical_of_parse parsed'
    -- with an equal gist, the first encoding is one of what is read again
    obtain ⟨code', encodes', -, plain⟩ := encodes.transfer same.symm
      fun n mem symbol c refers found => get?_of_refers resolved resolved' policy
        (alike_reread alike lexical lexical' reads) mem refers found
    refine ⟨_, encodeCondition_of_encodes parsed' resolved' encodes', ?_, rfl, rfl⟩
    rw [EncodedCondition.items, ← Stream.ofItems_plain, plain, Stream.ofItems_plain]
    exact streamed

end Scope

/-! ### Rules -/

namespace Config

variable {config : Config} {tables : SymbolTables} {rule : RuleInput} {compiled : CompiledRule}
  {trackerNames : Table UInt64 String}

/-- **When what was read back compiles to the same.**  Unknown names are refused, no two trackers
and no two foreign calls share an index, and the condition updates nothing and writes calls of one
name alike.  Then compiling the text that it is read back as gives the same stream and the same
placeholders exactly if the condition, the arguments of its foreign calls aside, is faithful and
keeps its texts. -/
theorem compile_decompile_iff {function : CallingFunction} {e : Expr}
    (compiles : config.compile tables rule = .ok compiled)
    (called : CallingFunction.parse rule.callingFunction = .ok function)
    (parsed : Expr.parse rule.condition = .ok e) (policy : config.policy = .error)
    (distinct : tables.Distinct) (reads : ∀ n ∈ e.nodes, n.readsOnly) (alike : e.CallsAlike)
    (fits : rule.size < UInt64.size) :
    ∃ out, config.decompile (.ofCompiled compiled trackerNames) = .ok out ∧
      ((∃ recompiled,
          config.compile tables { rule with condition := out.condition } = .ok recompiled ∧
          recompiled.words = compiled.words ∧ recompiled.rawData = compiled.rawData ∧
          recompiled.placeholders = compiled.placeholders ∧
          recompiled.placeholderNames = compiled.placeholderNames) ↔
        e.core.Faithful ∧ e.core.TextsKept fun name => (function.position? name).isSome) := by
  obtain ⟨function', encoded, stream, effects, called', encoding, streamed, compiledEffects,
    rfl⟩ := compile_eq_ok_iff.1 compiles
  cases called.symm.trans called'
  have declared := CallingFunction.length_arguments_le called
  have short : function.arguments.length ≤ UInt64.size := by
    unfold RuleInput.size at fits
    omega
  have unbound : ∀ name, .argument name ∉ e.nodes := by
    intro name mem
    exact Expr.unbound_of_parse parsed _ mem
  -- the text that is read back
  obtain ⟨e₀, parsed₀, resolved, -⟩ := Scope.encodeCondition_eq_ok encoding
  cases parsed.symm.trans parsed₀
  have readsAll := reads e e.self_mem_nodes
  obtain ⟨out, decompiles, condition⟩ := decompile_eq_render compiles fits called encoding parsed
    alike (Scope.apart_of_resolve resolved policy distinct short) (.none readsAll)
    fun updates => absurd readsAll updates
  refine ⟨out, decompiles, ?_⟩
  rw [condition, ← Expr.gist_bind_reread_iff _ unbound]
  have fitsCondition : rule.condition.length < UInt64.size := by
    unfold RuleInput.size at fits
    omega
  refine Iff.trans ?_ (Scope.encodeCondition_render_iff encoding streamed parsed policy distinct
    short (Expr.storesNothing_of_readsOnly reads) alike fitsCondition)
  -- the effects are compiled as before, and all else is the condition's
  constructor
  · rintro ⟨recompiled, compiles', words, rawData, items, names⟩
    obtain ⟨function', encoded', stream', effects', called', encoding', streamed', -, rfl⟩ :=
      compile_eq_ok_iff.1 compiles'
    cases called.symm.trans called'
    have same : stream' = stream := by
      cases stream'
      cases words
      cases rawData
      rfl
    rw [same] at streamed'
    exact ⟨encoded', encoding', streamed', items, names⟩
  · rintro ⟨encoded', encoding', streamed', items, names⟩
    exact ⟨_, compile_eq_ok_iff.2 ⟨function, encoded', stream, effects, called, encoding',
      streamed', compiledEffects, rfl⟩, rfl, rfl, items, names⟩

/-- A negated comparison of a sum with a tracker, beside a text and a call. -/
theorem compile_decompile_negation :
    let config : Config := default
    let tables : SymbolTables :=
      ((default : SymbolTables).addTracker "limit" ⟨1, .uint256, none⟩).addForeignCall
        "kind" ⟨3, .string⟩
    let rule : RuleInput :=
      ⟨"(\"gold\" == FC:kind(to)) AND NOT (value + fee * 2 > TR:limit)", ["revert()"], [],
        "transfer(address to, uint256 value, uint256 fee)"⟩
    ∃ compiled out recompiled, config.compile tables rule = .ok compiled ∧
      config.decompile (.ofCompiled compiled .empty) = .ok out ∧
      config.compile tables { rule with condition := out.condition } = .ok recompiled ∧
      recompiled.words = compiled.words ∧ recompiled.rawData = compiled.rawData ∧
      recompiled.placeholders = compiled.placeholders ∧
      recompiled.placeholderNames = compiled.placeholderNames := by
  intro config tables rule
  let condition : Phrase :=
    .binary (.plain .and)
      (.primary (.paren (.binary (.plain .equal) (.primary (.leaf (.text "gold")))
        (.primary (.callWith "kind" (.last (.primary (.leaf (.identifier "to")))))))))
      (.not (.primary (.paren (.binary (.plain .greater)
        (.binary (.plain (.arith .add)) (.primary (.leaf (.identifier "value")))
          (.binary (.plain (.arith .multiply)) (.primary (.leaf (.identifier "fee")))
            (.primary (.leaf (.number 2)))))
        (.primary (.tracker ⟨"limit", false⟩))))))
  -- the phrase is given, so only scanning and compiling are computed
  obtain ⟨ts, scanned, yields⟩ := exists_ok_of_any
    (show (Token.scan rule.condition).toOption.any
      (fun ts => decide (tokens ts = condition.yield ++ [.endOfInput])) by decide +kernel)
  have parsed : Expr.parse rule.condition = .ok condition.erase :=
    parse_of_scan scanned (by decide) (of_decide_eq_true yields)
  obtain ⟨function, called, kept⟩ := exists_ok_of_any
    (show (CallingFunction.parse rule.callingFunction).toOption.any
      (fun function => (function.position? "gold").isNone) by decide +kernel)
  obtain ⟨compiled, compiles, -⟩ := exists_ok_of_any
    (show (config.compile tables rule).toOption.any (fun _ => true) by decide +kernel)
  have alike : condition.erase.CallsAlike := by
    intro name arguments arguments' mem mem'
    simp [condition, Phrase.erase, Primary.erase, Leaf.erase, Arguments.erase, Expr.nodes,
      Expr.nodesAll] at mem mem'
    rw [mem.2, mem'.2]
  obtain ⟨out, decompiles, same⟩ := @compile_decompile_iff config tables rule compiled .empty
    function condition.erase compiles called parsed rfl (by decide +kernel) (by decide +kernel)
    alike (by decide +kernel)
  have textsKept : condition.erase.core.TextsKept fun name => (function.position? name).isSome := by
    intro value mem bare
    simp [condition, Phrase.erase, Primary.erase, Leaf.erase, Expr.core, Expr.nodes,
      Expr.nodesAll] at mem
    subst mem
    simpa using kept
  obtain ⟨recompiled, recompiles, fields⟩ := same.2 ⟨by decide +kernel, textsKept⟩
  exact ⟨compiled, out, recompiled, compiles, decompiles, recompiles, fields⟩

/-- A sum in parentheses as a factor is read back without them, and becomes another stream. -/
theorem compile_decompile_sum_as_factor :
    let config : Config := default
    let tables : SymbolTables := default
    let rule : RuleInput :=
      ⟨"(a + b) * c > 0", [], [], "f(uint256 a, uint256 b, uint256 c)"⟩
    config.policy = .error ∧ tables.Distinct ∧
      ∃ compiled out recompiled, config.compile tables rule = .ok compiled ∧
        config.decompile (.ofCompiled compiled .empty) = .ok out ∧
        out.condition = "a + b * c > 0" ∧
        config.compile tables { rule with condition := out.condition } = .ok recompiled ∧
        recompiled.words ≠ compiled.words := by
  intro config tables rule
  refine ⟨rfl, by decide +kernel, ?_⟩
  -- the whole round is computed at once
  obtain ⟨compiled, compiles, rest⟩ := exists_ok_of_any
    (show (config.compile tables rule).toOption.any (fun compiled =>
      (config.decompile (.ofCompiled compiled .empty)).toOption.any (fun out =>
        (config.compile tables { rule with condition := out.condition }).toOption.any
          (fun recompiled => decide
            (out.condition = "a + b * c > 0" ∧ recompiled.words ≠ compiled.words))))
      by decide +kernel)
  obtain ⟨out, decompiles, rest⟩ := exists_ok_of_any rest
  obtain ⟨recompiled, recompiles, differs⟩ := exists_ok_of_any rest
  obtain ⟨text, words⟩ := of_decide_eq_true differs
  exact ⟨compiled, out, recompiled, compiles, decompiles, text, recompiles, words⟩

end Config

end RuleCodec
