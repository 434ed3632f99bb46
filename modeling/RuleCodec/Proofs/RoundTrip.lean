/-
RuleCodec/Proofs/RoundTrip.lean

Reading a compiled condition back.

Compiling a condition and reading the stream back gives the condition's normal
text (`Config.decompile_compile`), as long as the names in it can be told
apart: calls of one name are written alike, no two components share an index
and flags, and nothing is updated but, at most, one tracker by the condition as
a whole.

Design.  What is read back is `Replay.said` of the resolved expression, for
any expression whatever.  The three conditions turn it into the text of the
expression in two steps: each placeholder is shown under the display name of
its own component, and that name is how the reference is written.  Both steps
are taken for several expressions that share their catalog and placeholders
(`Legible`), since the effects of a rule do; a condition is the case of one.
-/
import RuleCodec.Proofs.Catalogs
import RuleCodec.Proofs.Effects
import RuleCodec.Proofs.Texts
import RuleCodec.Rule

namespace RuleCodec

/-! ### Conditions on an expression -/

namespace Expr

/-- Any two calls of one name are written alike. -/
def CallsAlike (e : Expr) : Prop :=
  ∀ name arguments arguments', .foreignCall name arguments ∈ e.nodes →
    .foreignCall name arguments' ∈ e.nodes →
      (foreignCall name arguments).render = (foreignCall name arguments').render

/-- The arguments of its foreign calls aside, an expression updates at most one tracker, and that
as a whole. -/
inductive UpdatesAtRoot : Expr → Prop
  | none {e : Expr} : e.readsOnly → UpdatesAtRoot e
  | plain {op : BinaryOp} {name : String} {right : Expr} :
      op.isUpdate → right.readsOnly → UpdatesAtRoot (.binary op (.tracker ⟨name, true⟩) right)
  | mapped {op : BinaryOp} {name : String} {key right : Expr} :
      op.isUpdate → key.readsOnly → right.readsOnly →
        UpdatesAtRoot (.binary op (.mapped ⟨name, true⟩ key) right)

variable (isArgument : String → Bool)

theorem readsOnly_bind (e : Expr) : (e.bind isArgument).readsOnly = e.readsOnly := by
  match e with
  | .identifier name =>
    rw [bind]
    split <;> rfl
  | .mapped ref key => rw [bind, readsOnly, readsOnly, readsOnly_bind key]
  | .binary op left right =>
    rw [bind, readsOnly, readsOnly, readsOnly_bind left, readsOnly_bind right]
  | .not operand => rw [bind, readsOnly, readsOnly, readsOnly_bind operand]
  | .number _ | .address _ | .text _ | .bytes _ | .boolean _ | .argument _ | .tracker _
  | .global _ => rw [bind]
  | .foreignCall _ _ => rfl

/-- Binding names leaves updates at the root. -/
theorem UpdatesAtRoot.bind {e : Expr} (h : e.UpdatesAtRoot) :
    (e.bind isArgument).UpdatesAtRoot := by
  cases h with
  | none reads =>
    apply UpdatesAtRoot.none
    rw [readsOnly_bind]
    exact reads
  | plain isUpdate reads =>
    simp only [Expr.bind]
    exact .plain isUpdate (by rw [readsOnly_bind]; exact reads)
  | mapped isUpdate readsKey reads =>
    simp only [Expr.bind]
    exact .mapped isUpdate (by rw [readsOnly_bind]; exact readsKey)
      (by rw [readsOnly_bind]; exact reads)

/-- A call among the parts of a bound expression comes from one that is written alike. -/
theorem exists_call_of_bind {e : Expr} (lexical : ∀ n ∈ e.nodes, n.Lexical) {name : String}
    {arguments : List Expr} (mem : .foreignCall name arguments ∈ (e.bind isArgument).nodes) :
    ∃ arguments', .foreignCall name arguments' ∈ e.nodes ∧
      (foreignCall name arguments).render = (foreignCall name arguments').render := by
  rw [nodes_bind] at mem
  obtain ⟨node, inside, eq⟩ := List.mem_map.1 mem
  cases node with
  | foreignCall name' arguments' =>
    have same : name' = name := by
      rw [Expr.bind] at eq
      exact (foreignCall.inj eq).1
    subst same
    refine ⟨arguments', inside, ?_⟩
    have parts : ∀ n ∈ (foreignCall name' arguments').nodes, n.Lexical :=
      fun n part => lexical n (nodes_subset e inside part)
    -- binding does not change how the arguments are written
    rw [← eq, render, render, spell_bind isArgument _ parts]
  | identifier name' =>
    rw [Expr.bind] at eq
    split at eq <;> cases eq
  | _ => cases eq

/-- Calls that are written alike still are when names are bound. -/
theorem AlikeAcross.bind {e e' : Expr} (h : e.AlikeAcross e') (lexical : ∀ n ∈ e.nodes, n.Lexical)
    (lexical' : ∀ n ∈ e'.nodes, n.Lexical) :
    (e.bind isArgument).AlikeAcross (e'.bind isArgument) := by
  intro name arguments arguments' mem mem'
  obtain ⟨original, mem, eq⟩ := exists_call_of_bind isArgument lexical mem
  obtain ⟨original', mem', eq'⟩ := exists_call_of_bind isArgument lexical' mem'
  rw [eq, eq']
  exact h name original original' mem mem'

end Expr

/-! ### Names of placeholders -/

/-- Every placeholder is that of a component of the catalog, under its display name. -/
def Placeholders.Of (catalog : Catalog) (placeholders : Placeholders) : Prop :=
  ∀ key entry, placeholders.get? key = some entry →
    ∃ symbol c, catalog.get? symbol = some c ∧ key = c.key ∧ entry = (c.placeholder, c.displayName)

/-- Interning a component of the catalog keeps the placeholders its own. -/
theorem Placeholders.of_intern {catalog : Catalog} {ps : Placeholders} {symbol : Symbol}
    {c : Component} (of : ps.Of catalog) (found : catalog.get? symbol = some c) :
    (ps.intern c).2.Of catalog := by
  rcases h : ps.indexOf? c.key with _ | i
  · rw [intern_of_new h]
    intro key entry entered
    rcases (Table.get?_insert_of_not_mem (Table.indexOf?_eq_none_iff.1 h)).1 entered with old | new
    · exact of key entry old
    · cases new
      exact ⟨symbol, c, found, rfl, rfl⟩
  · rw [intern_of_mem h]
    exact of

/-- Where components can be told apart, each has a placeholder of its own. -/
theorem Placeholders.Of.entry_eq {catalog : Catalog} {ps : Placeholders} {symbol : Symbol}
    {c : Component} (of : ps.Of catalog) (apart : catalog.Apart)
    (found : catalog.get? symbol = some c) {i : Nat} (entered : ps.indexOf? c.key = some i) :
    ps.entries[i]? = some (c.key, c.placeholder, c.displayName) := by
  obtain ⟨entry, at_i⟩ := Table.indexOf?_eq_some_iff.1 entered
  have held : ps.get? c.key = some entry :=
    Table.get?_eq_some_iff.2 (List.mem_of_getElem? at_i)
  obtain ⟨symbol', c', found', same, rfl⟩ := of _ _ held
  rw [at_i, apart.eq_of_key_eq found found' same]

/-- And it is shown under its own display name. -/
theorem Placeholders.shownName_eq {catalog : Catalog} {ps : Placeholders} {symbol : Symbol}
    {c : Component} (of : ps.Of catalog) (apart : catalog.Apart)
    (found : catalog.get? symbol = some c) {i : Nat} (entered : ps.indexOf? c.key = some i) :
    ps.shownName c = c.displayName.toList := by
  have at_i := of.entry_eq apart found entered
  rw [shownName, Table.get?_eq_some_iff.2 (List.mem_of_getElem? at_i)]

/-! ### The text of an expression -/

/-- The references of some expressions can be told apart by what they are shown as: components
display as one of the expressions writes them, calls of one name are written alike in all of them,
and each placeholder has one component. -/
structure Legible (catalog : Catalog) (placeholders : Placeholders) (roots : Expr → Prop) :
    Prop where
  displays : ∀ symbol c, catalog.get? symbol = some c →
    ∃ root, roots root ∧ Scope.Displays root c.displayName symbol
  alike : ∀ root root', roots root → roots root' → root.AlikeAcross root'
  apart : catalog.Apart
  of : placeholders.Of catalog

namespace Legible

variable {catalog : Catalog} {placeholders : Placeholders} {roots : Expr → Prop} {root n : Expr}
  {symbol : Symbol} {c : Component} {ps : Placeholders}

/-- A symbol is shown under the name that its component displays. -/
theorem shownName_eq (legible : Legible catalog placeholders roots)
    (found : catalog.get? symbol = some c) (grown : (ps.intern c).2.Extends placeholders) :
    catalog.shownName placeholders symbol = c.displayName.toList := by
  rw [Catalog.shownName_eq found]
  exact Placeholders.shownName_eq legible.of legible.apart found
    (Placeholders.indexOf?_of_intern_extends grown)

/-- A tracker is shown under its name. -/
theorem shownName_tracker (legible : Legible catalog placeholders roots) {name : String}
    (found : catalog.get? (.tracker name) = some c)
    (grown : (ps.intern c).2.Extends placeholders) :
    catalog.shownName placeholders (.tracker name) = ['T', 'R', ':'] ++ name.toList := by
  obtain ⟨root, -, displayed⟩ := legible.displays _ _ found
  rw [legible.shownName_eq found grown, show c.displayName = "TR:" ++ name from displayed,
    String.toList_append]
  rfl

/-- A reference that updates nothing is displayed as it is written. -/
theorem displayName_eq_spell (legible : Legible catalog placeholders roots)
    (found : catalog.get? symbol = some c) (isRoot : roots root) (mem : n ∈ root.nodes)
    (is : n.symbol? = some symbol) (reads : n.readsOnly) : c.displayName.toList = n.spell := by
  obtain ⟨root', isRoot', displayed⟩ := legible.displays _ _ found
  cases n with
  | argument name =>
    cases is
    rw [show c.displayName = name from displayed]
    rfl
  | tracker ref =>
    cases is
    obtain ⟨name, update⟩ := ref
    have plain : update = false := by simpa [Expr.readsOnly] using reads
    rw [show c.displayName = "TR:" ++ name from displayed, String.toList_append, plain]
    rfl
  | foreignCall name arguments =>
    cases is
    obtain ⟨arguments', mem', displayed⟩ := displayed
    -- the call that is displayed may be another one, which is written alike
    rw [displayed, legible.alike root' root isRoot' isRoot name arguments' arguments mem' mem,
      Expr.render, String.toList_ofList]
  | global which =>
    cases is
    rw [show c.displayName = "GV:" ++ which.name from displayed, String.toList_append]
    rfl
  | _ => cases is

end Legible

/-- Where an index of a tracker has a name, it is the tracker's own. -/
def Catalog.Names (catalog : Catalog) (trackerNames : Table UInt64 String) : Prop :=
  ∀ name c, catalog.get? (.tracker name) = some c →
    ∀ given, trackerNames.get? c.index = some given → given = name

/-- The tracker that a symbol stands for. -/
def Symbol.trackerName? : Symbol → Option String
  | tracker name => some name
  | _ => none

instance (catalog : Catalog) (trackerNames : Table UInt64 String) :
    Decidable (catalog.Names trackerNames) :=
  decidable_of_iff (∀ entry ∈ catalog.entries, ∀ name ∈ entry.1.trackerName?,
      ∀ given ∈ trackerNames.get? entry.2.index, given = name) <| by
    constructor
    · intro h name c found
      exact h (.tracker name, c) (Table.get?_eq_some_iff.1 found) name rfl
    · rintro h ⟨symbol, c⟩ mem name is
      cases symbol with
      | tracker name' =>
        cases is
        exact h name c (Table.get?_eq_some_iff.2 mem)
      | _ => cases is

/-- An update of a tracker whose placeholder has its name is shown as it is written. -/
theorem Replay.saidUpdate_of_name {replay : Replay} {tracker : UInt64} {name : String}
    {key operand value : List Char} {op : BinaryOp}
    (own : ∀ given, replay.trackerNames.get? tracker = some given → given = name) :
    replay.saidUpdate tracker (['T', 'R', ':'] ++ name.toList) key op operand value =
      ['T', 'R', 'U', ':'] ++ name.toList ++ key ++
        (' ' :: op.symbol.toList ++ ' ' :: operand) := by
  have found : ((replay.trackerNames.get? tracker).map String.toList).or
      (Text.stripStart? ['T', 'R', ':'] (['T', 'R', ':'] ++ name.toList)) = some name.toList := by
    cases given : replay.trackerNames.get? tracker with
    | none => exact Text.stripStart?_append _ _
    | some other => rw [own other given]; rfl
  rw [saidUpdate, found]
  simp only [if_true]

theorem Expr.not_isUpdate_of_readsOnly {e : Expr} (reads : e.readsOnly) : e.isUpdate = false := by
  cases e with
  | binary op left right =>
    simp only [Expr.readsOnly, Bool.and_eq_true, Bool.not_eq_true'] at reads
    exact reads.1.1
  | _ => rfl

namespace Encodes

variable {catalog : Catalog} {outer : Option String} {slot : Nat} {e root : Expr}
  {roots : Expr → Prop} {ps ps' final : Placeholders} {code : Code}

/-- A part that updates nothing is shown as it is written. -/
theorem shown_eq_spell (h : Encodes catalog outer slot e ps code ps') (grown : ps'.Extends final)
    (legible : Legible catalog final roots) (isRoot : roots root) (inside : e.nodes ⊆ root.nodes)
    (reads : e.readsOnly) : e.shown (catalog.shownName final) = e.spell := by
  -- nothing is updated, so names and operators are shown as they are written
  induction h with
  | literal is => rw [Expr.shown_of_literal is, Expr.spell_of_literal is]
  | @read outer slot e symbol c ps is found keyType =>
    rw [Expr.shown_of_symbol is, legible.shownName_eq found grown]
    refine legible.displayName_eq_spell found isRoot (inside ?_) is reads
    cases e <;> exact List.mem_cons_self
  | @mapped outer slot ref key c ps ps₁ k hk found keyType ih =>
    obtain ⟨name, update⟩ := ref
    simp only [Expr.readsOnly, Bool.and_eq_true, Bool.not_eq_true'] at reads
    have grownKey : ps₁.Extends final := (Placeholders.extends_intern _ _).trans grown
    rw [Expr.shown, Expr.spell, legible.shownName_tracker found grown,
      ih grownKey (List.subset_of_cons_subset inside) reads.2, TrackerRef.spell, reads.1]
    rfl
  | @not outer slot e ps ps₁ x hx ih =>
    rw [Expr.shown, Expr.spell, ih grown (List.subset_of_cons_subset inside) reads]
  | @binary outer slot op left right ps ps₁ ps₂ l r isUpdate hl hr ihl ihr =>
    obtain ⟨insideLeft, insideRight⟩ := List.append_subset.1 (List.subset_of_cons_subset inside)
    simp only [Expr.readsOnly, Bool.and_eq_true] at reads
    rw [Expr.shown, Expr.spell,
      ihl (hr.placeholders_extend.trans grown) insideLeft reads.1.2,
      ihr grown insideRight reads.2]
    cases op with
    | plain op => rfl
    | compound a => cases isUpdate
  | update isUpdate => simp [Expr.readsOnly, isUpdate] at reads
  | updateMapped isUpdate => simp [Expr.readsOnly, isUpdate] at reads

/-- An expression is said as it is written, and an update in place of the value that it stores. -/
theorem said_eq_spell (replay : Replay) (h : Encodes catalog none 0 e ps code ps')
    (grown : ps'.Extends final) (legible : Legible catalog final roots) (isRoot : roots e)
    (updates : e.UpdatesAtRoot)
    (names : ¬ e.readsOnly → catalog.Names replay.trackerNames) :
    replay.said catalog (catalog.shownName final) e = e.spell := by
  cases updates with
  | none reads =>
    rw [Replay.said_of_not_update (Expr.not_isUpdate_of_readsOnly reads)]
    exact h.shown_eq_spell grown legible isRoot (List.Subset.refl _) reads
  | @plain op name right isUpdate reads =>
    have names := names (by simp [Expr.readsOnly, isUpdate])
    cases h with
    | literal is => cases is
    | read is => cases is
    | binary plain => rw [plain] at isUpdate; cases isUpdate
    | update _ found keyType hv =>
      -- the tracker is shown by name, and its operand as it is written
      have insideRight := (List.append_subset.1 (List.subset_of_cons_subset
        (List.Subset.refl (Expr.binary op (.tracker ⟨name, true⟩) right).nodes))).2
      rw [Replay.said_update isUpdate found,
        legible.shownName_tracker found (hv.placeholders_extend.trans grown),
        Replay.saidUpdate_of_name (names _ _ found),
        hv.shown_eq_spell grown legible isRoot insideRight reads]
      simp [Expr.spell, Expr.spellOperand, Expr.isGroup, TrackerRef.spell]
  | @mapped op name key right isUpdate readsKey reads =>
    have names := names (by simp [Expr.readsOnly, isUpdate])
    cases h with
    | literal is => cases is
    | read is => cases is
    | binary plain => rw [plain] at isUpdate; cases isUpdate
    | updateMapped _ found keyType hk hv =>
      -- here the key is shown as it is written as well
      have grownKey := hv.placeholders_extend.trans grown
      obtain ⟨insideMapped, insideRight⟩ := List.append_subset.1 (List.subset_of_cons_subset
        (List.Subset.refl (Expr.binary op (.mapped ⟨name, true⟩ key) right).nodes))
      have insideKey := List.subset_of_cons_subset insideMapped
      rw [Replay.said_mapped_update isUpdate found,
        legible.shownName_tracker found grownKey,
        Replay.saidUpdate_of_name (names _ _ found),
        hv.shown_eq_spell grown legible isRoot insideRight reads,
        hk.shown_eq_spell ((Placeholders.extends_intern _ _).trans grownKey) legible isRoot
          insideKey readsKey]
      simp [Expr.spell, Expr.spellOperand, Expr.isGroup, TrackerRef.spell]

end Encodes

/-! ### Rules -/

/-- How many characters the texts of a rule have: fewer than `UInt64.size` in any rule that is held
in memory. -/
def RuleInput.size (rule : RuleInput) : Nat :=
  rule.condition.length + (rule.positiveEffects.map String.length).sum +
    (rule.negativeEffects.map String.length).sum + rule.callingFunction.length

/-- What an encoded condition comes from. -/
theorem Scope.encodeCondition_eq_ok {scope : Scope} {condition : String}
    {encoded : EncodedCondition} (h : scope.encodeCondition condition = .ok encoded) :
    ∃ e, Expr.parse condition = .ok e ∧
      scope.resolve e = .ok (scope.bound e, encoded.catalog) ∧
      ∃ code, Encodes encoded.catalog none 0 (scope.bound e) .empty code encoded.placeholders ∧
        code.instructions = encoded.instructions := by
  unfold Scope.encodeCondition at h
  obtain ⟨e, parsed, h⟩ := bind_eq_ok.1 h
  obtain ⟨⟨resolved, catalog⟩, run, h⟩ := bind_eq_ok.1 h
  simp only at h
  split at h
  · cases h
  · rename_i instructions placeholders encodes
    cases h
    obtain ⟨rfl, -⟩ := Scope.resolve_eq_ok run
    exact ⟨e, parsed, run, Expr.encodes_of_encode encodes⟩

/-- And what is enough for one. -/
theorem Scope.encodeCondition_of_encodes {scope : Scope} {condition : String} {e : Expr}
    {catalog : Catalog} {code : Code} {placeholders : Placeholders}
    (parsed : Expr.parse condition = .ok e)
    (resolved : scope.resolve e = .ok (scope.bound e, catalog))
    (encodes : Encodes catalog none 0 (scope.bound e) .empty code placeholders) :
    scope.encodeCondition condition = .ok ⟨code.instructions, catalog, placeholders⟩ := by
  have run := Expr.encode_of_encodes encodes
  simp only [Scope.encodeCondition, parsed, resolved, run, bind, Except.bind, pure, Except.pure]

namespace Config

variable {config : Config} {tables : SymbolTables} {rule : RuleInput} {compiled : CompiledRule}
  {encoded : EncodedCondition} {trackerNames : Table UInt64 String}

/-- An encoded condition was encoded in the scope of its calling function. -/
theorem encodeCondition_eq_ok {condition callingFunction : String}
    (h : config.encodeCondition condition callingFunction tables = .ok encoded) :
    ∃ function, CallingFunction.parse callingFunction = .ok function ∧
      Scope.encodeCondition ⟨function, tables, config.policy⟩ condition = .ok encoded :=
  bind_eq_ok.1 h

/-- What a compiled rule is made of. -/
theorem compile_eq_ok_iff :
    config.compile tables rule = .ok compiled ↔
      ∃ function encoded stream effects,
        CallingFunction.parse rule.callingFunction = .ok function ∧
        Scope.encodeCondition ⟨function, tables, config.policy⟩ rule.condition = .ok encoded ∧
        Stream.ofItems config.registry encoded.items = .ok stream ∧
        Effects.compile ⟨function, tables, config.policy⟩ config.registry rule.positiveEffects
          rule.negativeEffects = .ok effects ∧
        compiled = ⟨stream.words, stream.rawData, encoded.placeholders.items, effects.positive,
          effects.negative, effects.placeholders.items, encoded.placeholders.names,
          effects.placeholders.names⟩ := by
  unfold compile
  constructor
  · intro h
    obtain ⟨function, parsed, h⟩ := bind_eq_ok.1 h
    obtain ⟨encoded, encodes, h⟩ := bind_eq_ok.1 h
    obtain ⟨stream, streamed, h⟩ := bind_eq_ok.1 h
    obtain ⟨effects, compiledEffects, h⟩ := bind_eq_ok.1 h
    cases h
    exact ⟨function, encoded, stream, effects, parsed, encodes, streamed, compiledEffects, rfl⟩
  · rintro ⟨function, encoded, stream, effects, parsed, encodes, streamed, compiledEffects, rfl⟩
    simp only [bind_eq_ok]
    exact ⟨function, parsed, encoded, encodes, stream, streamed, effects, compiledEffects, rfl⟩

/-- What the condition of a compiled rule is replayed with. -/
def replay (config : Config) (compiled : CompiledRule) (trackerNames : Table UInt64 String) :
    Replay :=
  ⟨config.registry, compiled.placeholderNames, compiled.rawData, trackerNames⟩

/-- A compiled rule can be read back, and its condition is what the stream says. -/
theorem decompile_eq_ok (trackerNames : Table UInt64 String)
    (compiles : config.compile tables rule = .ok compiled)
    (fits : rule.size < UInt64.size) {function : CallingFunction} {e : Expr}
    (called : CallingFunction.parse rule.callingFunction = .ok function)
    (encoding : Scope.encodeCondition ⟨function, tables, config.policy⟩ rule.condition =
      .ok encoded)
    (parsed : Expr.parse rule.condition = .ok e) :
    ∃ out, config.decompile (.ofCompiled compiled trackerNames) = .ok out ∧
      out.condition = String.ofList ((config.replay compiled trackerNames).said encoded.catalog
        (encoded.catalog.shownName encoded.placeholders)
        (Scope.bound ⟨function, tables, config.policy⟩ e)) := by
  obtain ⟨function', encoded', stream, effects, called', encoding', streamed, compiledEffects,
    rfl⟩ := compile_eq_ok_iff.1 compiles
  cases called.symm.trans called'
  cases encoding.symm.trans encoding'
  obtain ⟨e', parsed', -, code, encodes, instructions⟩ := Scope.encodeCondition_eq_ok encoding
  cases parsed.symm.trans parsed'
  unfold RuleInput.size at fits
  -- the slots and placeholders of the condition can be numbered
  have length := Expr.length_nodes_of_parse parsed
  rw [← Scope.length_nodes_bound ⟨function, tables, config.policy⟩] at length
  have slot := encodes.slot_lt
  have entered := encodes.size_le
  have none : (Table.empty : Placeholders).size = 0 := rfl
  have streamed : Stream.ofItems config.registry (code.instructions.flatMap Instruction.items) =
      .ok stream := by
    rw [instructions]
    exact streamed
  have run : Replay.run
      ⟨config.registry, encoded.placeholders.names, stream.rawData, trackerNames⟩ stream.words =
      .ok _ :=
    encodes.run_eq_ok (Table.Extends.refl _) ⟨rfl, by omega⟩ (by omega) streamed rfl
  -- and so can those of the effects
  have renders := Effects.renders_of_compile compiledEffects (by omega) trackerNames
  obtain ⟨positive, hp⟩ := mapM_eq_ok_of_forall fun effect mem =>
    renders effect (List.mem_append_left _ mem)
  obtain ⟨negative, hn⟩ := mapM_eq_ok_of_forall fun effect mem =>
    renders effect (List.mem_append_right _ mem)
  refine ⟨⟨_, positive, negative⟩, ?_, rfl⟩
  simp only [decompile, DecompileInput.ofCompiled, run, hp, hn, bind, Except.bind, pure,
    Except.pure]
  rfl

/-- Where the references can be told apart, a condition is read back as it is written. -/
theorem decompile_eq_render (compiles : config.compile tables rule = .ok compiled)
    (fits : rule.size < UInt64.size) {function : CallingFunction} {e : Expr}
    (called : CallingFunction.parse rule.callingFunction = .ok function)
    (encoding : Scope.encodeCondition ⟨function, tables, config.policy⟩ rule.condition =
      .ok encoded)
    (parsed : Expr.parse rule.condition = .ok e) (alike : e.CallsAlike)
    (apart : encoded.catalog.Apart) (updates : e.UpdatesAtRoot)
    (names : ¬ e.readsOnly → encoded.catalog.Names trackerNames) :
    ∃ out, config.decompile (.ofCompiled compiled trackerNames) = .ok out ∧
      out.condition = e.render := by
  obtain ⟨out, decompiles, condition⟩ :=
    decompile_eq_ok trackerNames compiles fits called encoding parsed
  obtain ⟨e', parsed', resolved, code, encodes, -⟩ := Scope.encodeCondition_eq_ok encoding
  cases parsed.symm.trans parsed'
  have lexical := Expr.lexical_of_parse parsed
  -- one expression is all that the names have to be told apart in
  have legible : Legible encoded.catalog encoded.placeholders
      (· = Scope.bound ⟨function, tables, config.policy⟩ e) := by
    refine ⟨?_, ?_, apart, ?_⟩
    · intro symbol c found
      exact ⟨_, rfl, (Scope.holds_of_resolve resolved found).displays⟩
    · rintro _ _ rfl rfl
      exact Expr.AlikeAcross.bind _ alike lexical lexical
    · refine encodes.invariant (P := Placeholders.Of encoded.catalog) ?_ ?_
      · intro ps symbol c of found
        exact Placeholders.of_intern of found
      · intro key entry entered
        cases entered
  refine ⟨out, decompiles, ?_⟩
  have said := encodes.said_eq_spell (config.replay compiled trackerNames) (Table.Extends.refl _)
    legible rfl (updates.bind _) (by rw [Scope.bound, Expr.readsOnly_bind]; exact names)
  rw [condition, said, Scope.bound, Expr.spell_bind _ _ lexical, Expr.render]

/-- **A compiled condition is read back as its normal text.**  Calls of one name are written
alike, no two components share an index and flags, nothing is updated but by the condition as a
whole, and the tracker names brought along are right: none at all, or those of the trackers the
condition refers to. -/
theorem decompile_compile {e : Expr} (compiles : config.compile tables rule = .ok compiled)
    (parsed : Expr.parse rule.condition = .ok e)
    (encoding : config.encodeCondition rule.condition rule.callingFunction tables = .ok encoded)
    (alike : e.CallsAlike) (apart : encoded.catalog.Apart) (updates : e.UpdatesAtRoot)
    (names : encoded.catalog.Names trackerNames) (fits : rule.size < UInt64.size) :
    ∃ out, config.decompile (.ofCompiled compiled trackerNames) = .ok out ∧
      Expr.normalize rule.condition = .ok out.condition := by
  obtain ⟨function, called, encoding⟩ := encodeCondition_eq_ok encoding
  obtain ⟨out, decompiles, condition⟩ := decompile_eq_render compiles fits called encoding parsed
    alike apart updates fun _ => names
  refine ⟨out, decompiles, ?_⟩
  rw [condition]
  exact (Expr.exists_phrase_of_parse parsed).1

/-- A mapped update whose key and operand call the same function. -/
theorem decompile_compile_mapped_update :
    let config : Config := default
    let tables : SymbolTables :=
      ((default : SymbolTables).addTracker "sums" ⟨1, .uint256, some .address⟩).addForeignCall
        "owner" ⟨3, .address⟩
    let rule : RuleInput :=
      ⟨"TRU:sums(FC:owner(to)) += (value * 2) == FC:owner( to )", ["revert()"], [],
        "transfer(address to, uint256 value)"⟩
    ∃ compiled out, config.compile tables rule = .ok compiled ∧
      config.decompile (.ofCompiled compiled .empty) = .ok out ∧
      Expr.normalize rule.condition = .ok out.condition := by
  intro config tables rule
  let owner : Phrase :=
    .primary (.callWith "owner" (.last (.primary (.leaf (.identifier "to")))))
  let condition : Phrase :=
    .binary (.compound .add) (.primary (.keyed ⟨"sums", true⟩ owner))
      (.binary (.plain .equal)
        (.primary (.paren (.binary (.plain (.arith .multiply))
          (.primary (.leaf (.identifier "value"))) (.primary (.leaf (.number 2))))))
        owner)
  -- the phrase is given, so only scanning and compiling are computed
  obtain ⟨ts, scanned, yields⟩ := exists_ok_of_any
    (show (Token.scan rule.condition).toOption.any
      (fun ts => decide (tokens ts = condition.yield ++ [.endOfInput])) by decide +kernel)
  have parsed : Expr.parse rule.condition = .ok condition.erase :=
    parse_of_scan scanned (by decide) (of_decide_eq_true yields)
  obtain ⟨encoded, encoding, apart⟩ := exists_ok_of_any
    (show (config.encodeCondition rule.condition rule.callingFunction tables).toOption.any
      (fun encoded => decide encoded.catalog.Apart) by decide +kernel)
  obtain ⟨compiled, compiles, -⟩ := exists_ok_of_any
    (show (config.compile tables rule).toOption.any (fun _ => true) by decide +kernel)
  have alike : condition.erase.CallsAlike := by
    intro name arguments arguments' mem mem'
    simp [condition, owner, Phrase.erase, Primary.erase, Leaf.erase, Arguments.erase, Expr.nodes,
      Expr.nodesAll] at mem mem'
    rw [mem.2, mem'.2]
  have names : encoded.catalog.Names .empty := by
    intro _ _ _ _ held
    cases held
  obtain ⟨out, decompiles, normal⟩ := decompile_compile compiles parsed encoding alike
    (of_decide_eq_true apart) (.mapped rfl rfl rfl) names (by decide +kernel)
  exact ⟨compiled, out, compiles, decompiles, normal⟩

end Config

end RuleCodec
