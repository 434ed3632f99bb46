/-
RuleCodec/Proofs/Distinguishing.lean

What a compiled rule tells about the text of its condition.

A compiled rule holds the names of its placeholders, and a foreign call has one
placeholder however often it is made: that of its first call.  So of the text of
a condition, a compiled rule keeps everything but how the later calls of a name
are written.  Two rules that are compiled alike have conditions of the same
normal text, once every call is written as the first of its name
(`Config.normalize_eq_of_compile`); where calls of one name are written alike in
the first place, their normal texts are the same as they stand.

Design.  What is read back depends on the compiled rule alone, so it is enough
to say what is read back from one rule (`Config.decompile_eq_unified`).  No
condition is put on the calls there: the text that is read back is that of
`Expr.unified`, in which each call stands as the first of its name.
-/
import RuleCodec.Proofs.Rebuilding

namespace RuleCodec

/-! ### First calls -/

namespace Expr

/-- Whether an expression is a call of a name. -/
def isCallOf (name : String) : Expr → Bool
  | foreignCall called _ => called == name
  | _ => false

/-- The first call of a name among the parts of an expression. -/
def firstCall (nodes : List Expr) (name : String) : Expr :=
  (nodes.find? (isCallOf name)).getD (foreignCall name [])

/-- The expression with other calls in place of its own. -/
def withCalls (call : String → Expr) : Expr → Expr
  | foreignCall name _ => call name
  | mapped ref key => mapped ref (withCalls call key)
  | binary op left right => binary op (withCalls call left) (withCalls call right)
  | not operand => not (withCalls call operand)
  | e => e

/-- The expression with each call written as the first of its name. -/
def unified (e : Expr) : Expr :=
  e.withCalls (firstCall e.nodes)

theorem exists_of_isCallOf {name : String} {e : Expr} (h : e.isCallOf name) :
    ∃ arguments, e = foreignCall name arguments := by
  cases e with
  | foreignCall called arguments =>
    rw [isCallOf, beq_iff_eq] at h
    exact ⟨arguments, by rw [h]⟩
  | _ => cases h

/-- Binding names does not change which calls are made. -/
theorem isCallOf_bind (isArgument : String → Bool) (name : String) (e : Expr) :
    (e.bind isArgument).isCallOf name = e.isCallOf name := by
  cases e with
  | identifier bare =>
    rw [bind]
    split <;> rfl
  | _ => rfl

/-- A name that is called has a first call. -/
theorem exists_firstCall {name : String} {arguments : List Expr} {nodes : List Expr}
    (mem : foreignCall name arguments ∈ nodes) :
    nodes.find? (isCallOf name) = some (firstCall nodes name) ∧ firstCall nodes name ∈ nodes ∧
      ∃ arguments', firstCall nodes name = foreignCall name arguments' := by
  rcases h : nodes.find? (isCallOf name) with _ | call
  · have other := List.find?_eq_none.1 h _ mem
    simp [isCallOf] at other
  · rw [firstCall, h, Option.getD_some]
    exact ⟨rfl, List.mem_of_find?_eq_some h, exists_of_isCallOf (List.find?_some h)⟩

/-- The first call of a bound expression is the first call, bound. -/
theorem firstCall_bind {isArgument : String → Bool} {e : Expr} {name : String}
    {arguments : List Expr} (mem : foreignCall name arguments ∈ (e.bind isArgument).nodes)
    (lexical : ∀ n ∈ e.nodes, n.Lexical) :
    (firstCall (e.bind isArgument).nodes name).spell = (firstCall e.nodes name).spell := by
  rw [nodes_bind] at mem ⊢
  obtain ⟨n, inside, is⟩ := List.mem_map.1 mem
  have called : n.isCallOf name := by
    rw [← isCallOf_bind isArgument, is]
    exact beq_self_eq_true name
  obtain ⟨arguments', rfl⟩ := exists_of_isCallOf called
  obtain ⟨found, first, -⟩ := exists_firstCall inside
  -- binding goes node by node and keeps the calls, so the first call is bound in its place
  have same : isCallOf name ∘ bind isArgument = isCallOf name :=
    funext fun n => isCallOf_bind isArgument name n
  have found' : (e.nodes.map (bind isArgument)).find? (isCallOf name) =
      some ((firstCall e.nodes name).bind isArgument) := by
    rw [List.find?_map, same, found, Option.map_some]
  rw [firstCall, found', Option.getD_some]
  exact spell_bind isArgument _ fun n part => lexical n (nodes_subset e first part)

/-- No call is a group, so putting calls in for calls makes no new parentheses. -/
theorem isGroup_withCalls {call : String → Expr} (calls : ∀ name, (call name).isGroup = false)
    (e : Expr) : (e.withCalls call).isGroup = e.isGroup := by
  cases e with
  | foreignCall name arguments => exact calls name
  | _ => rfl

theorem isGroup_firstCall (nodes : List Expr) (name : String) :
    (firstCall nodes name).isGroup = false := by
  rw [firstCall]
  rcases h : nodes.find? (isCallOf name) with _ | call
  · rfl
  · obtain ⟨arguments, rfl⟩ := exists_of_isCallOf (List.find?_some h)
    rfl

/-- Where calls of one name are written alike, it makes no difference that they are written as the
first of their name. -/
theorem CallsAlike.spell_withCalls {root : Expr} (alike : root.CallsAlike) (e : Expr)
    (inside : e.nodes ⊆ root.nodes) : (e.withCalls (firstCall root.nodes)).spell = e.spell := by
  have groups := isGroup_withCalls (isGroup_firstCall root.nodes)
  match e with
  | .foreignCall name arguments =>
    have mem : foreignCall name arguments ∈ root.nodes := inside List.mem_cons_self
    -- the call that is put in is the first one of this name, and that is written like this one
    obtain ⟨-, first, arguments', is⟩ := exists_firstCall mem
    rw [is] at first
    have same := alike name arguments' arguments first mem
    rw [withCalls, is]
    exact String.ofList_injective same
  | .mapped ref key =>
    rw [withCalls, spell, spell,
      alike.spell_withCalls key (List.subset_of_cons_subset inside)]
  | .binary op left right =>
    obtain ⟨inLeft, inRight⟩ := List.append_subset.1 (List.subset_of_cons_subset inside)
    rw [withCalls, spell, spell, spellOperand, spellOperand, spellOperand, spellOperand,
      groups, groups, alike.spell_withCalls left inLeft, alike.spell_withCalls right inRight]
  | .not operand =>
    rw [withCalls, spell, spell, spellOperand, spellOperand, groups,
      alike.spell_withCalls operand (List.subset_of_cons_subset inside)]
  | .number _ | .address _ | .text _ | .bytes _ | .boolean _ | .identifier _ | .argument _
  | .tracker _ | .global _ => rfl

/-- If the calls of each name are written alike, it makes no difference which one is shown. -/
theorem CallsAlike.render_unified {e : Expr} (alike : e.CallsAlike) :
    e.unified.render = e.render := by
  rw [render, unified, alike.spell_withCalls e (List.Subset.refl _), render]

end Expr

/-! ### Names of placeholders -/

namespace Scope

variable {scope : Scope} {e resolved : Expr} {catalog : Catalog}

/-- The entry for a foreign call was made from the first call of that name. -/
theorem find?_foreignCallEntries (nodes : List Expr) (name : String) :
    (scope.foreignCallEntries nodes).find? (fun entry => entry.1 == .foreignCall name) =
      (nodes.find? (Expr.isCallOf name)).map fun call =>
        (.foreignCall name, scope.foreignCallComponent name call.render) := by
  induction nodes with
  | nil => rfl
  | cons n nodes ih =>
    rw [foreignCallEntries] at ih ⊢
    cases n with
    | foreignCall called arguments =>
      simp only [List.filterMap_cons]
      -- nodes that are no calls make no entries, so entries and calls are searched in step
      by_cases same : called = name
      · subst same
        rw [List.find?_cons_of_pos (by simp), List.find?_cons_of_pos (by simp [Expr.isCallOf])]
        rfl
      · rw [List.find?_cons_of_neg (by simpa using same),
          List.find?_cons_of_neg (by simpa [Expr.isCallOf] using same)]
        exact ih
    | _ =>
      rw [List.filterMap_cons_none rfl, List.find?_cons_of_neg (by simp [Expr.isCallOf])]
      exact ih

/-- A foreign call is displayed as the first of its name. -/
theorem displayName_of_foreignCall (h : scope.resolve e = .ok (resolved, catalog)) {name : String}
    {c : Component} (found : catalog.get? (.foreignCall name) = some c) :
    c.displayName = (Expr.firstCall resolved.nodes name).render := by
  obtain ⟨arguments, mem, -⟩ := holds_of_resolve h found
  obtain ⟨first, -⟩ := Expr.exists_firstCall mem
  -- no argument goes by the symbol of a call, so calls come first
  have before : (scope.argumentEntries resolved.nodes).find?
      (fun entry => entry.1 == .foreignCall name) = none := by
    refine List.find?_eq_none.2 fun entry inside => ?_
    obtain ⟨argument, i, rfl⟩ := mem_argumentEntries inside
    simp
  rw [Catalog.get?_of_entered (resolve_eq_ok h).2, entries, List.find?_append, List.find?_append,
    List.find?_append, before, find?_foreignCallEntries, first] at found
  simp only [Option.map_some, Option.none_or, Option.some_or, Option.bind_some] at found
  rcases component : scope.foreignCallComponent name (Expr.firstCall resolved.nodes name).render
    with fault | c'
  · rw [component] at found
    cases found
  · rw [component] at found
    cases found
    exact (foreignCallComponent_eq_ok component).1

/-- Components are displayed as their references are written, and calls as the first of their
name. -/
theorem displayName_eq_spell (h : scope.resolve e = .ok (resolved, catalog))
    (lexical : ∀ n ∈ e.nodes, n.Lexical) {symbol : Symbol} {c : Component}
    (found : catalog.get? symbol = some c) :
    c.displayName.toList = (symbol.expr.withCalls (Expr.firstCall e.nodes)).spell := by
  have holds := holds_of_resolve h found
  have displayed := holds.displays
  cases symbol with
  | argument name =>
    rw [show c.displayName = name from displayed]
    rfl
  | tracker name =>
    rw [show c.displayName = "TR:" ++ name from displayed, String.toList_append]
    rfl
  | foreignCall name =>
    obtain ⟨arguments, mem, -⟩ := holds
    rw [displayName_of_foreignCall h found, Expr.render, String.toList_ofList]
    -- the first call was entered after names were bound, which does not show
    rw [(resolve_eq_ok h).1] at mem ⊢
    exact Expr.firstCall_bind mem lexical
  | global which =>
    rw [show c.displayName = "GV:" ++ which.name from displayed, String.toList_append]
    rfl

end Scope

/-! ### Reading back -/

/-- An expression whose references go by such names is shown with other calls in place of its
own. -/
theorem Expr.shown_bind {isArgument : String → Bool} {call : String → Expr}
    {name : Symbol → List Char} (calls : ∀ name, (call name).isGroup = false) (e : Expr)
    (lexical : ∀ n ∈ e.nodes, n.Lexical) (reads : e.readsOnly)
    (named : ∀ symbol ∈ (e.bind isArgument).references,
      name symbol = (symbol.expr.withCalls call).spell) :
    (e.bind isArgument).shown name = (e.withCalls call).spell := by
  have groups := isGroup_withCalls calls
  match e with
  | .identifier bare =>
    have word : isBareWord bare.toList := lexical _ List.mem_cons_self
    -- an argument goes by its name, and any other bare word is a text that is written bare
    rw [bind] at named ⊢
    split
    · rename_i argument
      rw [if_pos argument] at named
      exact named _ List.mem_cons_self
    · rw [shown, spellText, if_pos word]
      rfl
  | .argument _ | .foreignCall .. | .global _ => exact named _ List.mem_cons_self
  | .tracker ⟨target, update⟩ =>
    have plain : update = false := by simpa [readsOnly] using reads
    subst plain
    exact named _ List.mem_cons_self
  | .mapped ⟨target, update⟩ key =>
    simp only [readsOnly, Bool.and_eq_true, Bool.not_eq_true'] at reads
    obtain ⟨rfl, readsKey⟩ := reads
    obtain ⟨inKey, here⟩ := List.forall_mem_append.1 named
    have tracked : name (.tracker target) = TrackerRef.spell ⟨target, false⟩ :=
      here _ List.mem_cons_self
    rw [bind, shown, withCalls, spell, tracked,
      shown_bind calls key (List.forall_mem_cons.1 lexical).2 readsKey inKey]
  | .binary op left right =>
    simp only [readsOnly, Bool.and_eq_true, Bool.not_eq_true'] at reads
    obtain ⟨⟨plain, readsLeft⟩, readsRight⟩ := reads
    obtain ⟨inLeft, inRight⟩ := List.forall_mem_append.1 named
    obtain ⟨lexicalLeft, lexicalRight⟩ :=
      List.forall_mem_append.1 (List.forall_mem_cons.1 lexical).2
    rw [bind, shown, withCalls, spell, spellOperand, spellOperand, spellOperand, spellOperand,
      groups, groups, isGroup_bind, isGroup_bind,
      shown_bind calls left lexicalLeft readsLeft inLeft,
      shown_bind calls right lexicalRight readsRight inRight]
    nth_rewrite 2 [← BinaryOp.plain_operation plain]
    rfl
  | .not operand =>
    rw [bind, shown, withCalls, spell, spellOperand, spellOperand, groups, isGroup_bind,
      shown_bind calls operand (List.forall_mem_cons.1 lexical).2 reads named]
  | .number _ | .address _ | .text _ | .bytes _ | .boolean _ => rfl

namespace Config

variable {config : Config} {tables tables' : SymbolTables} {rule rule' : RuleInput}
  {compiled : CompiledRule}

/-- A condition that updates nothing is read back with each call written as the first of its
name. -/
theorem decompile_eq_unified (trackerNames : Table UInt64 String)
    (compiles : config.compile tables rule = .ok compiled) {e : Expr}
    (parsed : Expr.parse rule.condition = .ok e) (policy : config.policy = .error)
    (distinct : tables.Distinct) (reads : e.readsOnly) (fits : rule.size < UInt64.size) :
    ∃ out, config.decompile (.ofCompiled compiled trackerNames) = .ok out ∧
      out.condition = e.unified.render := by
  obtain ⟨function, encoded, -, -, called, encoding, -⟩ := compile_eq_ok_iff.1 compiles
  obtain ⟨out, decompiles, condition⟩ :=
    decompile_eq_ok trackerNames compiles fits called encoding parsed
  refine ⟨out, decompiles, ?_⟩
  obtain ⟨e', parsed', resolved, code, encodes, -⟩ := Scope.encodeCondition_eq_ok encoding
  cases parsed.symm.trans parsed'
  have lexical := Expr.lexical_of_parse parsed
  have enters := encodes.enters
  have of : encoded.placeholders.Of encoded.catalog := enters.of fun _ _ entered => by cases entered
  have declared := CallingFunction.length_arguments_le called
  -- there are fewer arguments than characters in the rule, so their places fit in 64 bits
  have apart : encoded.catalog.Apart := by
    refine Scope.apart_of_resolve resolved policy distinct ?_
    unfold RuleInput.size at fits
    show function.arguments.length ≤ UInt64.size
    omega
  rw [condition, Replay.said_of_not_update, Expr.render, Expr.unified, Scope.bound,
    Expr.shown_bind (Expr.isGroup_firstCall e.nodes) e lexical reads]
  · -- each reference is shown under the display name of its own component
    intro symbol mem
    obtain ⟨reading, -, c, found, place, -⟩ := exists_left_of_forall₂ enters.forall₂_place.flip mem
    rw [Catalog.shownName_eq found, Placeholders.shownName_eq of apart found place]
    exact Scope.displayName_eq_spell resolved lexical found
  · apply Expr.not_isUpdate_of_readsOnly
    rw [Scope.bound, Expr.readsOnly_bind]
    exact reads

/-- **Conditions that are compiled alike have the same normal text**, where updates are left out
and each call is written as the first of its name; and the same normal text as they stand, if in
each of them calls of one name are written alike. -/
theorem normalize_eq_of_compile (compiles : config.compile tables rule = .ok compiled)
    (compiles' : config.compile tables' rule' = .ok compiled) {e e' : Expr}
    (parsed : Expr.parse rule.condition = .ok e) (parsed' : Expr.parse rule'.condition = .ok e')
    (policy : config.policy = .error) (distinct : tables.Distinct) (distinct' : tables'.Distinct)
    (reads : e.readsOnly) (reads' : e'.readsOnly) (fits : rule.size < UInt64.size)
    (fits' : rule'.size < UInt64.size) :
    e.unified.render = e'.unified.render ∧
      (e.CallsAlike → e'.CallsAlike →
        Expr.normalize rule.condition = Expr.normalize rule'.condition) := by
  obtain ⟨out, decompiles, condition⟩ :=
    decompile_eq_unified .empty compiles parsed policy distinct reads fits
  obtain ⟨out', decompiles', condition'⟩ :=
    decompile_eq_unified .empty compiles' parsed' policy distinct' reads' fits'
  -- what is read back depends on the compiled rule alone
  cases decompiles.symm.trans decompiles'
  have unified := condition.symm.trans condition'
  refine ⟨unified, fun alike alike' => ?_⟩
  rw [(Expr.exists_phrase_of_parse parsed).1, (Expr.exists_phrase_of_parse parsed').1,
    ← alike.render_unified, ← alike'.render_unified, unified]

/-- Parentheses, blanks and the spelling of a truth value leave no trace in a compiled rule, nor in
the normal text. -/
theorem normalize_eq_of_compile_grouped :
    let config : Config := default
    let tables : SymbolTables :=
      ((default : SymbolTables).addTracker "n" ⟨4, .uint256, none⟩).addForeignCall "f"
        ⟨1, .uint256⟩
    let rule (condition : String) : RuleInput := ⟨condition, [], [], "g(uint256 a, uint256 b)"⟩
    let first := "(FC:f( a ) == 1) AND TR:n < b"
    let second := "FC:f(a) == true AND (TR:n < b)"
    (∃ compiled, config.compile tables (rule first) = .ok compiled ∧
        config.compile tables (rule second) = .ok compiled) ∧
      Expr.normalize first = Expr.normalize second := by
  intro config tables rule first second
  let call : Phrase := .primary (.callWith "f" (.last (.primary (.leaf (.identifier "a")))))
  let less : Phrase := .binary (.plain .less) (.primary (.tracker ⟨"n", false⟩))
    (.primary (.leaf (.identifier "b")))
  let condition : Phrase := .binary (.plain .and)
    (.primary (.paren (.binary (.plain .equal) call (.primary (.leaf (.number 1)))))) less
  let condition' : Phrase := .binary (.plain .and)
    (.binary (.plain .equal) call (.primary (.leaf (.boolean true)))) (.primary (.paren less))
  -- the phrases are given, so only scanning has to be computed
  obtain ⟨ts, scanned, yields⟩ := exists_ok_of_any
    (show (Token.scan first).toOption.any
      (fun ts => decide (tokens ts = condition.yield ++ [.endOfInput])) by decide +kernel)
  obtain ⟨ts', scanned', yields'⟩ := exists_ok_of_any
    (show (Token.scan second).toOption.any
      (fun ts => decide (tokens ts = condition'.yield ++ [.endOfInput])) by decide +kernel)
  have parsed : Expr.parse first = .ok condition.erase :=
    parse_of_scan scanned (by decide) (of_decide_eq_true yields)
  have parsed' : Expr.parse second = .ok condition'.erase :=
    parse_of_scan scanned' (by decide) (of_decide_eq_true yields')
  obtain ⟨compiled, compiles, same⟩ := exists_ok_of_any
    (show (config.compile tables (rule first)).toOption.any (fun compiled =>
      (config.compile tables (rule second)).toOption.any (fun other =>
        decide (other = compiled))) by decide +kernel)
  obtain ⟨other, compiles', is⟩ := exists_ok_of_any same
  cases of_decide_eq_true is
  have alike : condition.erase.CallsAlike := by
    intro name arguments arguments' mem mem'
    simp [condition, call, less, Phrase.erase, Primary.erase, Leaf.erase, Arguments.erase,
      Expr.nodes, Expr.nodesAll] at mem mem'
    rw [mem.2, mem'.2]
  have alike' : condition'.erase.CallsAlike := by
    intro name arguments arguments' mem mem'
    simp [condition', call, less, Phrase.erase, Primary.erase, Leaf.erase, Arguments.erase,
      Expr.nodes, Expr.nodesAll] at mem mem'
    rw [mem.2, mem'.2]
  obtain ⟨-, normal⟩ := normalize_eq_of_compile compiles compiles' parsed parsed' rfl
    (by decide +kernel) (by decide +kernel) rfl rfl (by decide +kernel) (by decide +kernel)
  exact ⟨⟨_, compiles, compiles'⟩, normal alike alike'⟩

/-- Of two calls of one name, the second leaves no trace. -/
theorem compile_second_call :
    let config : Config := default
    let tables : SymbolTables := (default : SymbolTables).addForeignCall "f" ⟨1, .uint256⟩
    let rule (condition : String) : RuleInput := ⟨condition, [], [], "g(uint256 a, uint256 b)"⟩
    let same := "FC:f(a) > FC:f(a)"
    let other := "FC:f(a) > FC:f(b)"
    config.policy = .error ∧ tables.Distinct ∧
      (∃ e, Expr.parse same = .ok e ∧ e.readsOnly) ∧
      (∃ e, Expr.parse other = .ok e ∧ e.readsOnly) ∧
      (∃ compiled, config.compile tables (rule same) = .ok compiled ∧
        config.compile tables (rule other) = .ok compiled) ∧
      Expr.normalize same ≠ Expr.normalize other := by
  intro config tables rule same other
  obtain ⟨compiled, compiles, is⟩ := exists_ok_of_any
    (show (config.compile tables (rule same)).toOption.any (fun compiled =>
      (config.compile tables (rule other)).toOption.any (fun compiled' =>
        decide (compiled' = compiled))) by decide +kernel)
  obtain ⟨compiled', compiles', is⟩ := exists_ok_of_any is
  cases of_decide_eq_true is
  -- both sources are normal already, and they differ
  obtain ⟨text, normal, is⟩ := exists_ok_of_any
    (show (Expr.normalize same).toOption.any (fun text => decide (text = same)) by decide +kernel)
  obtain ⟨text', normal', is'⟩ := exists_ok_of_any
    (show (Expr.normalize other).toOption.any (fun text => decide (text = other))
      by decide +kernel)
  refine ⟨rfl, by decide +kernel, exists_ok_of_any (by decide +kernel),
    exists_ok_of_any (by decide +kernel), ⟨_, compiles, compiles'⟩, ?_⟩
  rw [normal, normal', of_decide_eq_true is, of_decide_eq_true is']
  decide

end Config

end RuleCodec
