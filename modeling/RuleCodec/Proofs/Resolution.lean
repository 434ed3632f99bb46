/-
RuleCodec/Proofs/Resolution.lean

What resolving an expression enters into a catalog.

A catalog that starts out empty holds nothing but what the expression refers
to (`Scope.holds_of_resolve`), and each component is displayed as its
reference is written (`Scope.Displays`): a foreign call by its whole call, a
tracker without regard to whether it is updated.
-/
import RuleCodec.Proofs.Nodes
import RuleCodec.Proofs.Tables

namespace RuleCodec

/-! ### Entering components -/

namespace Catalog

variable {catalog catalog' : Catalog} {entries : List (Symbol × Except Error Component)}

/-- A catalog holds what it held before and the first of what was entered for a symbol. -/
theorem get?_of_entered (h : catalog.enterAll entries = (catalog', .ok ())) (symbol : Symbol) :
    catalog'.get? symbol = (catalog.get? symbol).or
      ((entries.find? fun entry => entry.1 == symbol).bind fun entry => entry.2.toOption) := by
  induction entries generalizing catalog with
  | nil =>
    cases h
    simp
  | cons entry rest ih =>
    obtain ⟨entered, component⟩ := entry
    simp only [Catalog.enterAll] at h
    split at h
    · -- what is there already stays
      rename_i present
      rw [ih h]
      by_cases same : entered = symbol
      · subst same
        obtain ⟨c, held⟩ := Option.isSome_iff_exists.1 present
        rw [held]
        rfl
      · rw [List.find?_cons_of_neg (by simpa using same)]
    · -- what is new goes to the end
      rename_i absent
      cases component with
      | error fault => cases h
      | ok c =>
        have new := Table.not_mem_keys_of_contains absent
        rw [ih h]
        by_cases same : entered = symbol
        · subst same
          have before : catalog.get? entered = none := by simpa [Table.contains] using absent
          have now : (catalog.insert entered c).get? entered = some c :=
            (Table.get?_insert_of_not_mem new).2 (.inr rfl)
          rw [before, now, List.find?_cons_of_pos (by simp)]
          rfl
        · have untouched : (catalog.insert entered c).get? symbol = catalog.get? symbol := by
            apply Option.ext
            intro v
            rw [Table.get?_insert_of_not_mem new]
            simp [Ne.symm same]
          rw [untouched, List.find?_cons_of_neg (by simpa using same)]

/-- Where everything could be entered, every symbol is there. -/
theorem exists_of_entered (h : catalog.enterAll entries = (catalog', .ok ()))
    {entry : Symbol × Except Error Component} (mem : entry ∈ entries) :
    ∃ c, catalog'.get? entry.1 = some c := by
  induction entries generalizing catalog with
  | nil => cases mem
  | cons first rest ih =>
    obtain ⟨symbol, component⟩ := first
    simp only [Catalog.enterAll] at h
    rcases List.mem_cons.1 mem with rfl | later
    · split at h
      · -- it was there before, and stays
        rename_i present
        obtain ⟨c, held⟩ := Option.isSome_iff_exists.1 present
        exact ⟨c, by rw [get?_of_entered h, held]; rfl⟩
      · rename_i absent
        cases component with
        | error fault => cases h
        | ok c =>
          have new := Table.not_mem_keys_of_contains absent
          refine ⟨c, ?_⟩
          rw [get?_of_entered h, (Table.get?_insert_of_not_mem new).2 (.inr rfl)]
          rfl
    · split at h
      · exact ih h later
      · cases component with
        | error fault => cases h
        | ok c => exact ih h later

/-- What can be resolved can be entered. -/
theorem enterAll_of_forall_ok (catalog : Catalog) (h : ∀ entry ∈ entries, ∃ c, entry.2 = .ok c) :
    ∃ catalog', catalog.enterAll entries = (catalog', .ok ()) := by
  induction entries generalizing catalog with
  | nil => exact ⟨catalog, rfl⟩
  | cons entry rest ih =>
    obtain ⟨⟨c, is⟩, others⟩ := List.forall_mem_cons.1 h
    obtain ⟨symbol, component⟩ := entry
    cases is
    simp only [Catalog.enterAll]
    split
    · exact ih catalog others
    · exact ih (catalog.insert symbol c) others

end Catalog

/-! ### What is entered -/

namespace Scope

variable {scope : Scope}

/-- Where the first argument with a name is. -/
theorem position?_eq_some {name : String} {i : Nat}
    (h : scope.function.position? name = some i) :
    ∃ argument, scope.function.arguments[i]? = some argument ∧ argument.name = name := by
  obtain ⟨lt, named, -⟩ := List.findIdx?_eq_some_iff_getElem.1 h
  exact ⟨_, List.getElem?_eq_getElem lt, by simpa using named⟩

/-- Of several arguments with one name the first is entered. -/
theorem find?_argumentEntries {nodes : List Expr} {name : String}
    {entry : Symbol × Except Error Component}
    (h : (scope.argumentEntries nodes).find? (fun entry => entry.1 == .argument name) =
      some entry) :
    ∃ i argument, scope.function.position? name = some i ∧
      scope.function.arguments[i]? = some argument ∧
      entry = (.argument name, .ok (argumentComponent argument i)) := by
  unfold argumentEntries at h
  generalize nodes.filterMap _ = names at h
  rw [List.find?_map, List.find?_filter, Option.map_eq_some_iff] at h
  obtain ⟨⟨argument, i⟩, first, rfl⟩ := h
  obtain ⟨holds, j, lt, at_j, before⟩ := List.find?_eq_some_iff_getElem.1 first
  rw [List.getElem_zipIdx, Prod.mk.injEq, Nat.zero_add] at at_j
  obtain ⟨at_i, rfl⟩ := at_j
  simp only [Function.comp_apply, beq_iff_eq, Symbol.argument.injEq, Bool.decide_and,
    Bool.and_eq_true, decide_eq_true_eq] at holds
  obtain ⟨used, named⟩ := holds
  rw [List.length_zipIdx] at lt
  refine ⟨j, argument, ?_, ?_, by rw [named]⟩
  · -- an earlier argument of the same name would be listed as well, and found first
    refine List.findIdx?_eq_some_iff_getElem.2 ⟨lt, by simp [at_i, named], fun k earlier => ?_⟩
    have other := before k earlier
    simp only [List.getElem_zipIdx, Function.comp_apply] at other
    intro same
    rw [beq_iff_eq] at same
    rw [named] at used
    simp [same, List.contains_iff_mem.1 used] at other
  · rw [List.getElem?_eq_getElem lt, at_i]

/-- The entries for arguments never fail. -/
theorem mem_argumentEntries {nodes : List Expr} {entry : Symbol × Except Error Component}
    (mem : entry ∈ scope.argumentEntries nodes) :
    ∃ argument i, entry = (.argument argument.name, .ok (argumentComponent argument i)) := by
  obtain ⟨⟨argument, i⟩, -, rfl⟩ := List.mem_map.1 mem
  exact ⟨argument, i, rfl⟩

/-- The entries for foreign calls come from the calls, with the text of each. -/
theorem mem_foreignCallEntries {nodes : List Expr} {entry : Symbol × Except Error Component} :
    entry ∈ scope.foreignCallEntries nodes ↔
      ∃ name arguments, .foreignCall name arguments ∈ nodes ∧
        entry = (.foreignCall name,
          scope.foreignCallComponent name (Expr.foreignCall name arguments).render) := by
  constructor
  · intro mem
    obtain ⟨node, inside, is⟩ := List.mem_filterMap.1 mem
    split at is
    · rename_i name arguments
      cases is
      exact ⟨name, arguments, inside, rfl⟩
    · cases is
  · rintro ⟨name, arguments, inside, rfl⟩
    exact List.mem_filterMap.2 ⟨_, inside, rfl⟩

/-- The entries for trackers come from the references, with a key or without. -/
theorem mem_trackerEntries {nodes : List Expr} {entry : Symbol × Except Error Component} :
    entry ∈ scope.trackerEntries nodes ↔
      ∃ ref, (.tracker ref ∈ nodes ∧
          entry = (.tracker ref.name, scope.trackerComponent ref.name false)) ∨
        ∃ key, .mapped ref key ∈ nodes ∧
          entry = (.tracker ref.name, scope.trackerComponent ref.name true) := by
  constructor
  · intro mem
    obtain ⟨node, inside, is⟩ := List.mem_filterMap.1 mem
    split at is
    · rename_i ref
      cases is
      exact ⟨ref, .inl ⟨inside, rfl⟩⟩
    · rename_i ref key
      cases is
      exact ⟨ref, .inr ⟨key, inside, rfl⟩⟩
    · cases is
  · rintro ⟨ref, ⟨inside, rfl⟩ | ⟨key, inside, rfl⟩⟩
    · exact List.mem_filterMap.2 ⟨_, inside, rfl⟩
    · exact List.mem_filterMap.2 ⟨_, inside, rfl⟩

/-- The entries for global variables come from the variables. -/
theorem mem_globalEntries {nodes : List Expr} {entry : Symbol × Except Error Component} :
    entry ∈ globalEntries nodes ↔
      ∃ which, .global which ∈ nodes ∧ entry = (.global which, .ok (globalComponent which)) := by
  constructor
  · intro mem
    obtain ⟨node, inside, is⟩ := List.mem_filterMap.1 mem
    split at is
    · rename_i which
      cases is
      exact ⟨which, inside, rfl⟩
    · cases is
  · rintro ⟨which, inside, rfl⟩
    exact List.mem_filterMap.2 ⟨_, inside, rfl⟩

/-- Every reference is entered, provided that an argument was declared. -/
theorem exists_entry {e n : Expr} {symbol : Symbol} (mem : n ∈ e.nodes)
    (refers : n.refers? = some symbol)
    (declared : ∀ name, symbol = .argument name → (scope.function.position? name).isSome) :
    ∃ entry ∈ scope.entries e, entry.1 = symbol := by
  simp only [entries, List.mem_append]
  cases n with
  | argument name =>
    cases refers
    -- an argument is listed at the place where it is declared first
    obtain ⟨i, position⟩ := Option.isSome_iff_exists.1 (declared name rfl)
    obtain ⟨argument, at_i, named⟩ := position?_eq_some position
    refine ⟨(.argument argument.name, .ok (argumentComponent argument i)),
      .inl (.inl (.inl (List.mem_map.2 ⟨(argument, i), ?_, rfl⟩))), by rw [named]⟩
    refine List.mem_filter.2 ⟨List.mk_mem_zipIdx_iff_getElem?.2 at_i, ?_⟩
    rw [List.contains_iff_mem, named]
    exact List.mem_filterMap.2 ⟨_, mem, rfl⟩
  | foreignCall name arguments =>
    cases refers
    exact ⟨_, .inl (.inl (.inr (mem_foreignCallEntries.2 ⟨name, arguments, mem, rfl⟩))), rfl⟩
  | tracker ref =>
    cases refers
    exact ⟨_, .inl (.inr (mem_trackerEntries.2 ⟨ref, .inl ⟨mem, rfl⟩⟩)), rfl⟩
  | mapped ref key =>
    cases refers
    exact ⟨_, .inl (.inr (mem_trackerEntries.2 ⟨ref, .inr ⟨key, mem, rfl⟩⟩)), rfl⟩
  | global which =>
    cases refers
    exact ⟨_, .inr (mem_globalEntries.2 ⟨which, mem, rfl⟩), rfl⟩
  | _ => cases refers

/-! ### Looking names up -/

/-- What a name stands for: what its table has under it, or else what the policy says. -/
def lookUp {α : Type} (scope : Scope) (table : Table String α) (name text : String)
    (kind : SymbolKind) (value : α) : Except Error α :=
  match table.get? name with
  | some found => .ok found
  | none => scope.fallback text kind value

section

variable {α : Type} {table : Table String α} {name text : String} {kind : SymbolKind} {value a : α}

/-- A name is looked up with a default, which the strict policy rules out. -/
theorem lookUp_eq_ok_iff :
    scope.lookUp table name text kind value = .ok a ↔
      (scope.policy = .error → table.contains name) ∧ a = (table.get? name).getD value := by
  unfold lookUp Table.contains
  cases table.get? name with
  | some found => simp [eq_comm]
  | none => cases policy : scope.policy <;> simp [fallback, policy, eq_comm]

/-- A name that is missing is reported under the strict policy. -/
theorem lookUp_eq_error (policy : scope.policy = .error) (missing : table.get? name = none) :
    scope.lookUp table name text kind value = .error (.unresolved text kind) := by
  rw [lookUp, missing, fallback, policy]

/-- What is found under the strict policy is in the table. -/
theorem get?_of_lookUp (policy : scope.policy = .error)
    (h : scope.lookUp table name text kind value = .ok a) : table.get? name = some a := by
  obtain ⟨known, rfl⟩ := lookUp_eq_ok_iff.1 h
  obtain ⟨found, is⟩ := Option.isSome_iff_exists.1 (known policy)
  rw [is, Option.getD_some]

end

/-- A foreign call is looked up and made a component with the text of the call. -/
theorem foreignCallComponent_eq (name callText : String) :
    scope.foreignCallComponent name callText = do
      let call ← scope.lookUp scope.tables.foreignCalls name ("FC:" ++ name) .foreignCall
        ⟨0, .uint256⟩
      return ⟨"FC:" ++ name, call.index, "foreign call", some call.returnType.name,
        some callText, .foreignCall, call.returnType, none⟩ := by
  unfold foreignCallComponent lookUp
  cases scope.tables.foreignCalls.get? name <;> rfl

/-- A tracker is looked up and made a component. -/
theorem trackerComponent_eq (name : String) (mapped : Bool) :
    scope.trackerComponent name mapped = do
      let tracker ← scope.lookUp scope.tables.trackers name ("TR:" ++ name) .tracker
        ⟨0, .uint256, if mapped then some .uint256 else none⟩
      return ⟨"TR:" ++ name, tracker.index, "tracker", some tracker.valueType.name, none,
        .tracker, tracker.valueType, tracker.keyType⟩ := by
  unfold trackerComponent lookUp
  cases scope.tables.trackers.get? name <;> rfl

/-! ### What is found -/

/-- What a symbol of `e` resolves to. -/
def Holds (scope : Scope) (e : Expr) (c : Component) : Symbol → Prop
  | .argument name =>
    ∃ i argument, scope.function.position? name = some i ∧
      scope.function.arguments[i]? = some argument ∧ c = argumentComponent argument i
  | .foreignCall name =>
    ∃ arguments, .foreignCall name arguments ∈ e.nodes ∧
      scope.foreignCallComponent name (Expr.foreignCall name arguments).render = .ok c
  | .tracker name => ∃ mapped, scope.trackerComponent name mapped = .ok c
  | .global which => c = globalComponent which

/-- What is entered first for a symbol is held for it. -/
theorem holds_of_find? {e : Expr} {symbol symbol' : Symbol} {c : Component}
    (h : (scope.entries e).find? (fun entry => entry.1 == symbol) = some (symbol', .ok c)) :
    scope.Holds e c symbol := by
  have same : symbol' = symbol := by simpa using List.find?_some h
  subst same
  have mem := List.mem_of_find?_eq_some h
  simp only [entries, List.mem_append] at mem
  rcases mem with ((inArguments | inCalls) | inTrackers) | inGlobals
  · obtain ⟨argument, i, eq⟩ := mem_argumentEntries inArguments
    cases eq
    -- the first of all entries for the name is the first among the arguments
    simp only [entries, List.find?_append] at h
    cases first : (scope.argumentEntries e.nodes).find?
        (fun entry => entry.1 == .argument argument.name) with
    | none =>
      have none := List.find?_eq_none.1 first _ inArguments
      simp at none
    | some entry =>
      rw [first] at h
      obtain ⟨j, declared, position, at_j, rfl⟩ := find?_argumentEntries first
      have eq := Option.some.inj h
      rw [Prod.mk.injEq, Except.ok.injEq] at eq
      exact ⟨j, declared, position, at_j, eq.2.symm⟩
  · obtain ⟨name, arguments, inside, eq⟩ := mem_foreignCallEntries.1 inCalls
    rw [Prod.mk.injEq] at eq
    obtain ⟨rfl, component⟩ := eq
    exact ⟨arguments, inside, component.symm⟩
  · obtain ⟨ref, ⟨-, eq⟩ | ⟨key, -, eq⟩⟩ := mem_trackerEntries.1 inTrackers
    · rw [Prod.mk.injEq] at eq
      obtain ⟨rfl, component⟩ := eq
      exact ⟨false, component.symm⟩
    · rw [Prod.mk.injEq] at eq
      obtain ⟨rfl, component⟩ := eq
      exact ⟨true, component.symm⟩
  · obtain ⟨which, -, eq⟩ := mem_globalEntries.1 inGlobals
    cases eq
    rfl

/-- The expression with its bare names bound in the scope. -/
def bound (scope : Scope) (e : Expr) : Expr :=
  e.bind fun name => (scope.function.position? name).isSome

/-- An expression is resolved by binding its names and entering its symbols. -/
theorem resolveInto_eq_ok {e resolved : Expr} {catalog catalog' : Catalog}
    (h : scope.resolveInto catalog e = (catalog', .ok resolved)) :
    resolved = scope.bound e ∧ catalog.enterAll (scope.entries resolved) = (catalog', .ok ()) := by
  have run : (let entered := catalog.enterAll (scope.entries (scope.bound e))
      (entered.1, entered.2.map fun _ => scope.bound e)) = (catalog', .ok resolved) := h
  rcases entered : catalog.enterAll (scope.entries (scope.bound e)) with ⟨catalog₁, fault | u⟩
  · rw [entered] at run
    cases run
  · rw [entered] at run
    cases run
    exact ⟨rfl, entered⟩

theorem resolveInto_of_resolve {e resolved : Expr} {catalog : Catalog}
    (h : scope.resolve e = .ok (resolved, catalog)) :
    scope.resolveInto .empty e = (catalog, .ok resolved) := by
  unfold resolve at h
  rcases run : scope.resolveInto .empty e with ⟨catalog₁, fault | resolved₁⟩
  · rw [run] at h
    cases h
  · rw [run] at h
    cases h
    rfl

theorem resolve_eq_ok {e resolved : Expr} {catalog : Catalog}
    (h : scope.resolve e = .ok (resolved, catalog)) :
    resolved = scope.bound e ∧
      Catalog.enterAll .empty (scope.entries resolved) = (catalog, .ok ()) :=
  resolveInto_eq_ok (resolveInto_of_resolve h)

/-- An expression whose references are all known can be resolved. -/
theorem exists_resolve {e : Expr}
    (known : ∀ entry ∈ scope.entries (scope.bound e), ∃ c, entry.2 = .ok c) :
    ∃ catalog, scope.resolve e = .ok (scope.bound e, catalog) := by
  obtain ⟨catalog, entered⟩ := Catalog.enterAll_of_forall_ok .empty known
  refine ⟨catalog, ?_⟩
  have run : scope.resolveInto .empty e = (catalog, .ok (scope.bound e)) := by
    show (let entered := Catalog.enterAll .empty (scope.entries (scope.bound e))
      (entered.1, entered.2.map fun _ => scope.bound e)) = _
    rw [entered]
    rfl
  rw [resolve, run]

/-- A catalog holds what it held before and what the expression refers to, and nothing else. -/
theorem holds_of_resolveInto {e resolved : Expr} {catalog catalog' : Catalog}
    (h : scope.resolveInto catalog e = (catalog', .ok resolved)) {symbol : Symbol} {c : Component}
    (found : catalog'.get? symbol = some c) :
    catalog.get? symbol = some c ∨ scope.Holds resolved c symbol := by
  rw [Catalog.get?_of_entered (resolveInto_eq_ok h).2] at found
  rcases Option.or_eq_some_iff.1 found with before | ⟨-, entered⟩
  · exact .inl before
  · obtain ⟨⟨symbol', component⟩, first, is⟩ := Option.bind_eq_some_iff.1 entered
    cases component with
    | error fault => cases is
    | ok c' =>
      cases is
      exact .inr (holds_of_find? first)

/-- A catalog of its own holds what the expression refers to and nothing else. -/
theorem holds_of_resolve {e resolved : Expr} {catalog : Catalog}
    (h : scope.resolve e = .ok (resolved, catalog)) {symbol : Symbol} {c : Component}
    (found : catalog.get? symbol = some c) : scope.Holds resolved c symbol := by
  rcases holds_of_resolveInto (resolveInto_of_resolve h) found with before | holds
  · cases before
  · exact holds

/-! ### Display names -/

/-- The text under which a symbol of `e` is displayed. -/
def Displays (e : Expr) (text : String) : Symbol → Prop
  | .argument name => text = name
  | .foreignCall name =>
    ∃ arguments, .foreignCall name arguments ∈ e.nodes ∧
      text = (Expr.foreignCall name arguments).render
  | .tracker name => text = "TR:" ++ name
  | .global which => text = "GV:" ++ which.name

/-- A foreign call is shown as it was written, and under the strict policy its index is in the
table. -/
theorem foreignCallComponent_eq_ok {name callText : String} {c : Component}
    (h : scope.foreignCallComponent name callText = .ok c) :
    c.displayName = callText ∧ c.source = .foreignCall ∧
      (scope.policy = .error →
        (∀ callText', ∃ c', scope.foreignCallComponent name callText' = .ok c') ∧
        ∃ call, scope.tables.foreignCalls.get? name = some call ∧ c.index = call.index) := by
  rw [foreignCallComponent_eq] at h
  obtain ⟨call, found, eq⟩ := bind_eq_ok.1 h
  cases eq
  refine ⟨rfl, rfl, fun policy => ⟨fun callText' => ?_, call, get?_of_lookUp policy found, rfl⟩⟩
  rw [foreignCallComponent_eq, found]
  exact ⟨_, rfl⟩

/-- A tracker is shown with its name, and under the strict policy its index is in the table. -/
theorem trackerComponent_eq_ok {name : String} {mapped : Bool} {c : Component}
    (h : scope.trackerComponent name mapped = .ok c) :
    c.displayName = "TR:" ++ name ∧ c.source = .tracker ∧
      (scope.policy = .error →
        (∀ mapped', scope.trackerComponent name mapped' = .ok c) ∧
        ∃ tracker, scope.tables.trackers.get? name = some tracker ∧ c.index = tracker.index) := by
  rw [trackerComponent_eq] at h
  obtain ⟨tracker, found, eq⟩ := bind_eq_ok.1 h
  cases eq
  refine ⟨rfl, rfl, fun policy => ?_⟩
  have known := get?_of_lookUp policy found
  refine ⟨fun mapped' => ?_, tracker, known, rfl⟩
  rw [trackerComponent_eq, lookUp, known]
  rfl

/-- A component is shown as its symbol is written somewhere in the expression. -/
theorem Holds.displays {e : Expr} {symbol : Symbol} {c : Component} (h : scope.Holds e c symbol) :
    Displays e c.displayName symbol := by
  cases symbol with
  | argument name =>
    obtain ⟨i, argument, position, at_i, rfl⟩ := h
    obtain ⟨argument', at_i', named⟩ := position?_eq_some position
    cases at_i.symm.trans at_i'
    exact named
  | foreignCall name =>
    obtain ⟨arguments, inside, component⟩ := h
    exact ⟨arguments, inside, (foreignCallComponent_eq_ok component).1⟩
  | tracker name =>
    obtain ⟨mapped, component⟩ := h
    exact (trackerComponent_eq_ok component).1
  | global which =>
    cases h
    rfl

end Scope

end RuleCodec
