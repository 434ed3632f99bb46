/-
RuleCodec/Proofs/Policies.lean

What it changes to give unknown names the index zero.

A rule can be compiled strictly, where a tracker or a foreign call that is in
no table is an error, or leniently, where it gets the index zero.  The lenient
way only ever adds to the strict one: whatever is compiled strictly, and
whatever is refused for another reason, comes out the same
(`Config.compile_indexZero`).

Design.  The two runs are followed side by side.  `Follows` says of a step that
the lenient run does what the strict one does, unless the strict one stops for
a name that is missing; it has one law for steps in sequence, and the steps
that do not look at the policy follow themselves because they miss nothing.
What is known of the missing name goes along as a predicate on errors, from the
entry of a catalog (`Expr.Lacks`) up to the rule.
-/
import RuleCodec.Proofs.Appending
import RuleCodec.Proofs.Refusals
import RuleCodec.Rule

namespace RuleCodec

/-! ### Side by side -/

/-- The lenient run gives what the strict one gives, unless the strict one fails for something that
is absent. -/
inductive Follows {α : Type} (absent : Error → Prop) (strict lenient : Except Error α) : Prop
  | same : lenient = strict → MissesNothing strict → Follows absent strict lenient
  | fails {err : Error} : strict = .error err → absent err → Follows absent strict lenient

namespace Follows

variable {α β : Type} {absent absent' : Error → Prop} {strict lenient : Except Error α}

/-- A step that misses nothing follows itself. -/
theorem refl (h : MissesNothing strict) : Follows absent strict strict :=
  .same rfl h

/-- Less may be said of the missing name. -/
theorem mono (h : Follows absent strict lenient) (weaken : ∀ err, absent err → absent' err) :
    Follows absent' strict lenient := by
  cases h with
  | same eq misses => exact .same eq misses
  | fails stops is => exact .fails stops (weaken _ is)

/-- Steps are followed one by one. -/
theorem bind {f g : α → Except Error β} (h : Follows absent strict lenient)
    (later : ∀ a, strict = .ok a → Follows absent (f a) (g a)) :
    Follows absent (strict >>= f) (lenient >>= g) := by
  cases h with
  | fails stops is =>
    rw [stops]
    exact .fails rfl is
  | same eq misses =>
    rw [eq]
    cases strict with
    | error err => exact .refl (misses.error rfl)
    | ok a => exact later a rfl

/-- What is done with the result does not matter. -/
theorem map (h : Follows absent strict lenient) (f : α → β) :
    Follows absent (strict.map f) (lenient.map f) := by
  show Follows absent (strict >>= fun a => .ok (f a)) (lenient >>= fun a => .ok (f a))
  exact h.bind fun a _ => .refl (missesNothing_ok (f a))

end Follows

/-! ### Names that are missing -/

/-- A tracker or a foreign call that occurs in the expression and is in no table. -/
inductive Expr.Lacks (tables : SymbolTables) (e : Expr) : Error → Prop
  | tracker {name : String} :
      name ∈ e.trackers → tables.trackers.get? name = none →
        Lacks tables e (.unresolved ("TR:" ++ name) .tracker)
  | foreignCall {name : String} :
      name ∈ e.calls → tables.foreignCalls.get? name = none →
        Lacks tables e (.unresolved ("FC:" ++ name) .foreignCall)

section

variable {function : CallingFunction} {tables : SymbolTables} {registry : Registry}

/-- Binding names makes no tracker and no foreign call go missing. -/
theorem Expr.Lacks.of_bound {scope : Scope} {e : Expr} {err : Error}
    (h : (scope.bound e).Lacks tables err) : e.Lacks tables err := by
  cases h with
  | tracker mem missing => exact .tracker (scope.trackers_bound e ▸ mem) missing
  | foreignCall mem missing => exact .foreignCall (scope.calls_bound e ▸ mem) missing

namespace Scope

/-- Only a name that its table lacks is looked up differently under the two policies. -/
theorem follows_lookUp {α : Type} {absent : Error → Prop} {table : Table String α}
    {name text : String} {kind : SymbolKind} (value : α)
    (missing : table.get? name = none → absent (.unresolved text kind)) :
    Follows absent (lookUp ⟨function, tables, .error⟩ table name text kind value)
      (lookUp ⟨function, tables, .indexZero⟩ table name text kind value) := by
  unfold lookUp
  cases found : table.get? name with
  | some a => exact .refl (missesNothing_ok a)
  | none => exact .fails rfl (missing found)

/-- A tracker is looked up alike, unless it is missing. -/
theorem follows_trackerComponent {e : Expr} {name : String} (mem : name ∈ e.trackers)
    (mapped : Bool) :
    Follows (e.Lacks tables) (trackerComponent ⟨function, tables, .error⟩ name mapped)
      (trackerComponent ⟨function, tables, .indexZero⟩ name mapped) := by
  rw [trackerComponent_eq, trackerComponent_eq]
  exact (follows_lookUp _ (.tracker mem)).bind fun _ _ => .refl (missesNothing_ok _)

/-- A foreign call is looked up alike, unless it is missing. -/
theorem follows_foreignCallComponent {e : Expr} {name : String} (mem : name ∈ e.calls)
    (callText : String) :
    Follows (e.Lacks tables) (foreignCallComponent ⟨function, tables, .error⟩ name callText)
      (foreignCallComponent ⟨function, tables, .indexZero⟩ name callText) := by
  rw [foreignCallComponent_eq, foreignCallComponent_eq]
  exact (follows_lookUp _ (.foreignCall mem)).bind fun _ _ => .refl (missesNothing_ok _)

/-- Under either policy the same symbols are to be entered, in the same order. -/
theorem follows_entries (function : CallingFunction) (tables : SymbolTables) (e : Expr) :
    List.Forall₂
      (fun entry entry' => entry.1 = entry'.1 ∧ Follows (e.Lacks tables) entry.2 entry'.2)
      (entries ⟨function, tables, .error⟩ e) (entries ⟨function, tables, .indexZero⟩ e) := by
  have nodes : List.Forall₂ (fun n n' => n = n' ∧ n ∈ e.nodes) e.nodes e.nodes :=
    List.forall₂_same.2 fun n mem => ⟨rfl, mem⟩
  -- arguments and global variables are never missing; calls and trackers are looked up node by node
  refine List.rel_append (List.rel_append (List.rel_append ?_ ?_) ?_) ?_
  · refine List.forall₂_same.2 fun entry mem => ?_
    obtain ⟨argument, i, rfl⟩ := mem_argumentEntries mem
    exact ⟨rfl, .refl (missesNothing_ok _)⟩
  · refine List.rel_filterMap ?_ nodes
    rintro n _ ⟨rfl, mem⟩
    cases n with
    | foreignCall name arguments =>
      have occurs : name ∈ e.calls := List.mem_filterMap.2 ⟨_, mem, rfl⟩
      exact .some ⟨rfl, follows_foreignCallComponent occurs _⟩
    | _ => exact .none
  · refine List.rel_filterMap ?_ nodes
    rintro n _ ⟨rfl, mem⟩
    cases n with
    | tracker ref =>
      have occurs : ref.name ∈ e.trackers := List.mem_filterMap.2 ⟨_, mem, rfl⟩
      exact .some ⟨rfl, follows_trackerComponent occurs false⟩
    | mapped ref key =>
      have occurs : ref.name ∈ e.trackers := List.mem_filterMap.2 ⟨_, mem, rfl⟩
      exact .some ⟨rfl, follows_trackerComponent occurs true⟩
    | _ => exact .none
  · refine List.forall₂_same.2 fun entry mem => ?_
    obtain ⟨which, -, rfl⟩ := mem_globalEntries.1 mem
    exact ⟨rfl, .refl (missesNothing_ok _)⟩

end Scope

/-- Entries that follow one another are entered alike. -/
theorem Catalog.follows_enterAll {absent : Error → Prop}
    {entries entries' : List (Symbol × Except Error Component)}
    (h : List.Forall₂ (fun entry entry' => entry.1 = entry'.1 ∧ Follows absent entry.2 entry'.2)
      entries entries') (catalog : Catalog) :
    Follows absent ((catalog.enterAll entries).2.map fun _ => (catalog.enterAll entries).1)
      ((catalog.enterAll entries').2.map fun _ => (catalog.enterAll entries').1) := by
  induction h generalizing catalog with
  | nil => exact .refl (missesNothing_ok _)
  | @cons entry entry' _ _ follows _ ih =>
    obtain ⟨symbol, component⟩ := entry
    obtain ⟨symbol', component'⟩ := entry'
    obtain ⟨same, follows⟩ := follows
    cases same
    simp only [Catalog.enterAll]
    -- up to here both runs have one catalog, so both pass over the symbol or neither does
    by_cases present : catalog.contains symbol
    · simp only [if_pos present]
      exact ih catalog
    · simp only [if_neg present]
      cases follows with
      | fails stops is =>
        cases stops
        exact .fails rfl is
      | same eq misses =>
        cases eq
        cases component with
        | error err => exact .refl (misses.error rfl)
        | ok c => exact ih (catalog.insert symbol c)

/-- Entering an expression is entering its entries. -/
theorem Scope.enter_eq (scope : Scope) (catalog : Catalog) (e : Expr) :
    scope.enter catalog e =
      ((catalog.enterAll (scope.entries (scope.bound e))).2.map fun _ =>
        (catalog.enterAll (scope.entries (scope.bound e))).1).map fun grown =>
          (scope.bound e, grown) := by
  have run : scope.resolveInto catalog e =
      ((catalog.enterAll (scope.entries (scope.bound e))).1,
        (catalog.enterAll (scope.entries (scope.bound e))).2.map fun _ => scope.bound e) := rfl
  simp only [enter, run]
  rcases catalog.enterAll (scope.entries (scope.bound e)) with ⟨grown, err | u⟩
  · rfl
  · rfl

/-- So an expression is entered alike, unless it lacks a name. -/
theorem Scope.follows_enter (catalog : Catalog) (e : Expr) :
    Follows (e.Lacks tables) (enter ⟨function, tables, .error⟩ catalog e)
      (enter ⟨function, tables, .indexZero⟩ catalog e) := by
  have same : bound ⟨function, tables, .indexZero⟩ e = bound ⟨function, tables, .error⟩ e := rfl
  rw [enter_eq, enter_eq, same]
  have entered := Catalog.follows_enterAll
    (follows_entries function tables (bound ⟨function, tables, .error⟩ e)) catalog
  exact (entered.map _).mono fun _ => Expr.Lacks.of_bound

/-! ### Conditions -/

theorem Scope.resolve_eq_enter (scope : Scope) (e : Expr) :
    scope.resolve e = scope.enter .empty e := by
  rw [resolve, enter]
  rcases scope.resolveInto .empty e with ⟨catalog, err | resolved⟩
  · rfl
  · rfl

/-- A condition is encoded alike, unless it lacks a name. -/
theorem Scope.follows_encodeCondition (condition : String) :
    Follows (fun err => ∃ e, Expr.parse condition = .ok e ∧ e.Lacks tables err)
      (encodeCondition ⟨function, tables, .error⟩ condition)
      (encodeCondition ⟨function, tables, .indexZero⟩ condition) := by
  refine (Follows.refl (Expr.missesNothing_parse condition)).bind fun e parsed => ?_
  have resolves : Follows (fun err => ∃ e, Expr.parse condition = .ok e ∧ e.Lacks tables err)
      (resolve ⟨function, tables, .error⟩ e) (resolve ⟨function, tables, .indexZero⟩ e) := by
    rw [resolve_eq_enter, resolve_eq_enter]
    exact (follows_enter .empty e).mono fun err lacks => ⟨e, parsed, lacks⟩
  -- once the names are resolved, the policy is not looked at
  refine resolves.bind fun found resolved => .refl ?_
  obtain ⟨bound, catalog⟩ := found
  have serves : catalog.Serves (fun _ => True) bound :=
    (serves_of_resolve resolved).of_declared fun _ mem => declares_of_parse parsed resolved mem
  simp only
  split
  · rename_i fails
    exact (Expr.missesNothing_encode serves .empty).error (congrArg Prod.fst fails)
  · exact missesNothing_ok _

/-! ### Effects -/

namespace Effects

variable {catalog : Catalog} {clauses : List Clause} {drafts : List Draft}

/-- Clauses are resolved alike, unless one of them lacks a name. -/
theorem follows_resolveAll (clauses : List Clause) (catalog : Catalog) :
    Follows
      (fun err => ∃ source e, .expression source ∈ clauses ∧ Expr.parse source = .ok e ∧
        e.Lacks tables err)
      (resolveAll ⟨function, tables, .error⟩ catalog clauses)
      (resolveAll ⟨function, tables, .indexZero⟩ catalog clauses) := by
  induction clauses generalizing catalog with
  | nil => exact .refl (missesNothing_ok _)
  | cons clause clauses ih =>
    rw [resolveAll_cons, resolveAll_cons]
    -- once a clause is resolved alike, both runs go on with one catalog
    refine Follows.bind ?_ fun first _ => ?_
    · cases clause with
      | revert message => exact .refl (missesNothing_ok _)
      | event name parameter => exact .refl (missesNothing_ok _)
      | expression source =>
        refine (Follows.refl (Expr.missesNothing_parse source)).bind fun e parsed => ?_
        refine Follows.bind ?_ fun entered _ => .refl (missesNothing_ok _)
        exact (Scope.follows_enter catalog e).mono fun err lacks =>
          ⟨source, e, List.mem_cons_self, parsed, lacks⟩
    · refine Follows.bind ?_ fun rest _ => .refl (missesNothing_ok _)
      refine (ih first.2).mono ?_
      rintro err ⟨source, e, mem, lacks⟩
      exact ⟨source, e, List.mem_cons_of_mem _ mem, lacks⟩

/-- One catalog has everything for what was resolved into it. -/
theorem serves_of_resolveAll {scope : Scope}
    (h : resolveAll scope .empty clauses = .ok (drafts, catalog)) {source : String}
    {resolved : Expr} (mem : .expression source resolved ∈ drafts) :
    catalog.Serves (fun _ => True) resolved := by
  obtain ⟨drafted, holds⟩ := drafts_of_resolveAll h
  have present := (extends_resolveAll h).2 source resolved mem
  obtain ⟨clause, -, is⟩ := exists_left_of_forall₂ drafted mem
  cases is with
  | @expression _ e parsed =>
    refine ⟨fun name inside => ?_, fun name inside => iff_of_true trivial ?_,
      fun n inside symbol refers _ => ?_, fun symbol c found other => ?_⟩
    · exact Expr.identifier_not_mem_bind _ name e (Expr.evaluated_subset _ inside)
    · exact present _ (Expr.evaluated_subset _ inside) _ rfl
    · exact present n (Expr.evaluated_subset _ inside) symbol refers
    · rcases holds symbol c found with before | ⟨_, _, -, -, held⟩
      · cases before
      · exact held.keyType_eq_none other

/-- Encoding what was resolved misses no name. -/
theorem missesNothing_encodeAll (registry : Registry)
    (serves : ∀ source resolved, .expression source resolved ∈ drafts →
      catalog.Serves (fun _ => True) resolved)
    (ps : Placeholders) : MissesNothing (encodeAll registry catalog ps drafts) := by
  induction drafts generalizing ps with
  | nil => exact missesNothing_ok _
  | cons draft drafts ih =>
    have later := ih fun source resolved mem => serves source resolved (List.mem_cons_of_mem _ mem)
    cases draft with
    | done effect => exact (later ps).bind fun _ _ => missesNothing_ok _
    | expression source resolved =>
      -- every symbol was entered when the clause was resolved
      have here := Expr.missesNothing_encode (serves source resolved List.mem_cons_self) ps
      rw [encodeAll]
      split
      · rename_i fails
        exact here.error (congrArg Prod.fst fails)
      · rename_i instructions ps₁ _
        refine (Stream.missesNothing_ofItems registry _).bind fun stream _ => ?_
        refine (Expr.missesNothing_normalize source).bind fun text _ => ?_
        exact (later ps₁).bind fun _ _ => missesNothing_ok _

/-- Effects are compiled alike, unless one of them lacks a name. -/
theorem follows_compile (registry : Registry) (positive negative : List String) :
    Follows (fun err => ∃ e, IsExpression (positive ++ negative) e ∧ e.Lacks tables err)
      (compile ⟨function, tables, .error⟩ registry positive negative)
      (compile ⟨function, tables, .indexZero⟩ registry positive negative) := by
  refine (Follows.refl (missesNothing_mapM Clause.missesNothing_parse positive)).bind
    fun clauses parsed => ?_
  refine (Follows.refl (missesNothing_mapM Clause.missesNothing_parse negative)).bind
    fun clauses' parsed' => ?_
  have classified := List.rel_append (mapM_eq_ok_iff.1 parsed) (mapM_eq_ok_iff.1 parsed')
  -- the policy is looked at only while clauses are resolved
  refine Follows.bind ?_ fun found resolved => .refl ?_
  · refine (follows_resolveAll (clauses ++ clauses') .empty).mono ?_
    rintro err ⟨text, e, mem, parsedText, lacks⟩
    obtain ⟨source, inside, is⟩ := exists_left_of_forall₂ classified mem
    exact ⟨e, ⟨source, inside, text, is, parsedText⟩, lacks⟩
  · obtain ⟨drafts, catalog⟩ := found
    have encodes := missesNothing_encodeAll registry
      (fun _ _ mem => serves_of_resolveAll resolved mem) .empty
    exact encodes.bind fun _ _ => missesNothing_ok _

end Effects

end

/-! ### Rules -/

/-- An expression of a rule: its condition, or one of its effects. -/
def RuleInput.HasExpression (rule : RuleInput) (e : Expr) : Prop :=
  Expr.parse rule.condition = .ok e ∨
    Effects.IsExpression (rule.positiveEffects ++ rule.negativeEffects) e

/-- Rules are compiled alike, unless one of their expressions lacks a name. -/
theorem Config.follows_compile (registry : Registry) (tables : SymbolTables) (rule : RuleInput) :
    Follows (fun err => ∃ e, rule.HasExpression e ∧ e.Lacks tables err)
      (compile ⟨registry, .error⟩ tables rule) (compile ⟨registry, .indexZero⟩ tables rule) := by
  refine (Follows.refl (CallingFunction.missesNothing_parse rule.callingFunction)).bind
    fun function _ => ?_
  refine Follows.bind ?_ fun condition _ => ?_
  · refine (Scope.follows_encodeCondition rule.condition).mono ?_
    rintro err ⟨e, parsed, lacks⟩
    exact ⟨e, .inl parsed, lacks⟩
  · refine (Follows.refl (Stream.missesNothing_ofItems registry _)).bind fun stream _ => ?_
    refine Follows.bind ?_ fun effects _ => .refl (missesNothing_ok _)
    refine (Effects.follows_compile registry rule.positiveEffects rule.negativeEffects).mono ?_
    rintro err ⟨e, is, lacks⟩
    exact ⟨e, .inr is, lacks⟩

/-- **Giving unknown names the index zero only adds to what is compiled.**  Unless strict compiling
fails for a tracker or a foreign call, lenient compiling has the same result, be it a rule or an
error.  And where strict compiling does fail for one of them, it occurs in the condition or in an
effect of the rule, and its table does not have it. -/
theorem Config.compile_indexZero (registry : Registry) (tables : SymbolTables) (rule : RuleInput) :
    ((∀ name, compile ⟨registry, .error⟩ tables rule ≠ .error (.unresolved name .tracker) ∧
        compile ⟨registry, .error⟩ tables rule ≠ .error (.unresolved name .foreignCall)) →
      compile ⟨registry, .indexZero⟩ tables rule = compile ⟨registry, .error⟩ tables rule) ∧
    (∀ name, compile ⟨registry, .error⟩ tables rule = .error (.unresolved name .tracker) →
      ∃ tracker e, name = "TR:" ++ tracker ∧ rule.HasExpression e ∧ tracker ∈ e.trackers ∧
        tables.trackers.get? tracker = none) ∧
    ∀ name, compile ⟨registry, .error⟩ tables rule = .error (.unresolved name .foreignCall) →
      ∃ call e, name = "FC:" ++ call ∧ rule.HasExpression e ∧ call ∈ e.calls ∧
        tables.foreignCalls.get? call = none := by
  -- either both runs are the same and miss nothing, or the strict one stops for a name
  cases follows_compile registry tables rule with
  | same eq misses =>
    refine ⟨fun _ => eq, fun name fails => ?_, fun name fails => ?_⟩
    · cases misses _ fails
    · cases misses _ fails
  | fails stops is =>
    obtain ⟨e, inside, lacks⟩ := is
    refine ⟨fun known => ?_, fun name fails => ?_, fun name fails => ?_⟩
    · cases lacks with
      | tracker => exact absurd stops (known _).1
      | foreignCall => exact absurd stops (known _).2
    · cases stops.symm.trans fails
      cases lacks with
      | tracker mem missing => exact ⟨_, e, rfl, inside, mem, missing⟩
    · cases stops.symm.trans fails
      cases lacks with
      | foreignCall mem missing => exact ⟨_, e, rfl, inside, mem, missing⟩

/-- A rule whose tracker is known and one that ends too early come out alike.  A rule with a tracker
that is missing, in an effect only, is refused strictly for that tracker, and compiled leniently. -/
theorem Config.compile_indexZero_update :
    let tables := (default : SymbolTables).addTracker "x" ⟨1, .uint256, none⟩
    let known : RuleInput := ⟨"TR:x > 1", ["TRU:x += 1"], [], ""⟩
    let ended : RuleInput := ⟨"TR:x >", ["TRU:x += 1"], [], ""⟩
    let missing : RuleInput := ⟨"TR:x > 1", ["TRU:y += 1"], [], ""⟩
    (∃ compiled, compile ⟨.legacy, .error⟩ tables known = .ok compiled ∧
      compile ⟨.legacy, .indexZero⟩ tables known = .ok compiled) ∧
    (∃ fault position, compile ⟨.legacy, .error⟩ tables ended = .error (.malformed fault position) ∧
      compile ⟨.legacy, .indexZero⟩ tables ended = .error (.malformed fault position)) ∧
    (compile ⟨.legacy, .error⟩ tables missing = .error (.unresolved "TR:y" .tracker) ∧
      (∃ tracker e, "TR:y" = "TR:" ++ tracker ∧ missing.HasExpression e ∧ tracker ∈ e.trackers ∧
        tables.trackers.get? tracker = none) ∧
      ∃ compiled, compile ⟨.legacy, .indexZero⟩ tables missing = .ok compiled) := by
  intro tables known ended missing
  refine ⟨?_, ?_, ?_⟩
  · obtain ⟨compiled, strict, -⟩ := exists_ok_of_any
      (show (compile ⟨.legacy, .error⟩ tables known).toOption.any fun _ => true by decide +kernel)
    refine ⟨compiled, strict, ?_⟩
    rw [(compile_indexZero .legacy tables known).1, strict]
    intro name
    rw [strict]
    exact ⟨by simp, by simp⟩
  · have strict : compile ⟨.legacy, .error⟩ tables ended =
        .error (.malformed (.expectedOperand .endOfInput) 6) := by decide +kernel
    refine ⟨_, _, strict, ?_⟩
    rw [(compile_indexZero .legacy tables ended).1, strict]
    intro name
    rw [strict]
    exact ⟨by simp, by simp⟩
  · have strict : compile ⟨.legacy, .error⟩ tables missing =
        .error (.unresolved "TR:y" .tracker) := by decide +kernel
    obtain ⟨compiled, lenient, -⟩ := exists_ok_of_any
      (show (compile ⟨.legacy, .indexZero⟩ tables missing).toOption.any fun _ => true by
        decide +kernel)
    exact ⟨strict, (compile_indexZero .legacy tables missing).2.1 _ strict, compiled, lenient⟩

end RuleCodec
