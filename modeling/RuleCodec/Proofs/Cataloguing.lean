/-
RuleCodec/Proofs/Cataloguing.lean

The catalog of an expression, from the names that occur in it.

Resolving goes through everything that the expression refers to, four kinds one
after the other, and enters each symbol where it comes first.  So the symbols
of a catalog are those that occur, without the repetitions
(`Catalog.keys_of_enterAll`), and what cannot be resolved is reported where it
comes first (`Catalog.enterAll_eq_error`).  `Scope.resolve_catalogues` puts this
in terms of the names in the expression as it was written, before its bare
names were bound.
-/
import RuleCodec.Proofs.Resolution

namespace RuleCodec

/-! ### Without repetitions -/

section

variable {α β : Type} [BEq α] [LawfulBEq α] [BEq β] [LawfulBEq β]

/-- An element that comes once more is not kept. -/
theorem eraseDups_append_cons {xs ys : List α} {x : α} (old : x ∈ xs) :
    (xs ++ x :: ys).eraseDups = (xs ++ ys).eraseDups := by
  rw [List.eraseDups_append, List.eraseDups_append, List.cons_removeAll]
  simp [old]

/-- Lists without a common element are rid of duplicates one by one. -/
theorem eraseDups_append_of_disjoint {xs ys : List α} (apart : ∀ y ∈ ys, y ∉ xs) :
    (xs ++ ys).eraseDups = xs.eraseDups ++ ys.eraseDups := by
  have kept : ys.removeAll xs = ys := by
    refine List.filter_eq_self.2 fun y mem => ?_
    simpa using apart y mem
  rw [List.eraseDups_append, kept]

theorem eraseDups_map {f : α → β} (injective : Function.Injective f) (xs : List α) :
    (xs.map f).eraseDups = xs.eraseDups.map f := by
  match xs with
  | [] => rfl
  | x :: xs =>
    -- what equals the first element is dropped behind it, before and after `f`
    have others : (xs.map f).filter (fun y => !y == f x) =
        (xs.filter fun y => !y == x).map f := by
      rw [List.filter_map]
      congr 1
      refine List.filter_congr fun y _ => ?_
      have same : (f y == f x) = (y == x) := by
        rw [Bool.eq_iff_iff, beq_iff_eq, beq_iff_eq]
        exact injective.eq_iff
      rw [Function.comp_apply, same]
    rw [List.map_cons, List.eraseDups_cons, List.eraseDups_cons, List.map_cons, others,
      eraseDups_map injective]
termination_by xs.length
decreasing_by exact Nat.lt_succ_of_le (List.length_filter_le _ _)

end

/-! ### Entering in turn -/

namespace Catalog

variable {catalog catalog' : Catalog} {entries : List (Symbol × Except Error Component)}

theorem mem_keys_of_contains {symbol : Symbol} (h : catalog.contains symbol) :
    symbol ∈ catalog.keys := by
  obtain ⟨c, found⟩ := Option.isSome_iff_exists.1 h
  exact List.mem_map_of_mem (Table.get?_eq_some_iff.1 found)

/-- A new symbol is entered at the end. -/
theorem keys_insert_of_not_mem {symbol : Symbol} (new : symbol ∉ catalog.keys) (c : Component) :
    (catalog.insert symbol c).keys = catalog.keys ++ [symbol] := by
  rw [Table.keys, Table.insert_entries_of_not_mem new, List.map_append]
  rfl

/-- The symbols of a catalog are what was entered, each where it came first. -/
theorem keys_of_enterAll (h : catalog.enterAll entries = (catalog', .ok ())) (seen : List Symbol)
    (before : catalog.keys = seen.eraseDups) :
    catalog'.keys = (seen ++ entries.map Prod.fst).eraseDups := by
  -- `seen` holds all that was gone through, repetitions included
  induction entries generalizing catalog seen with
  | nil =>
    cases h
    rw [List.map_nil, List.append_nil, before]
  | cons entry rest ih =>
    obtain ⟨symbol, component⟩ := entry
    simp only [Catalog.enterAll] at h
    rw [List.map_cons]
    split at h
    · rename_i present
      have old : symbol ∈ seen := by
        rw [← List.mem_eraseDups, ← before]
        exact mem_keys_of_contains present
      rw [eraseDups_append_cons old]
      exact ih h seen before
    · rename_i absent
      have new := Table.not_mem_keys_of_contains absent
      cases component with
      | error fault => cases h
      | ok c =>
        have now : (catalog.insert symbol c).keys = (seen ++ [symbol]).eraseDups := by
          rw [keys_insert_of_not_mem new, before, eraseDups_append_of_disjoint]
          · rfl
          · rw [List.forall_mem_singleton, ← List.mem_eraseDups, ← before]
            exact new
        rw [List.append_cons]
        exact ih h (seen ++ [symbol]) now

/-- What cannot be resolved ends the work where its symbol comes first. -/
theorem enterAll_eq_error {before after : List (Symbol × Except Error Component)} {symbol : Symbol}
    {e : Error}
    (others : ∀ entry ∈ before, ∃ symbol' c, symbol' ≠ symbol ∧ entry = (symbol', .ok c))
    (absent : symbol ∉ catalog.keys) :
    (catalog.enterAll (before ++ (symbol, .error e) :: after)).2 = .error e := by
  induction before generalizing catalog with
  | nil =>
    have none : ¬ catalog.contains symbol := fun present => absent (mem_keys_of_contains present)
    simp only [List.nil_append, Catalog.enterAll]
    rw [if_neg none]
  | cons entry rest ih =>
    obtain ⟨⟨symbol', c, other, rfl⟩, later⟩ := List.forall_mem_cons.1 others
    rw [List.cons_append]
    simp only [Catalog.enterAll]
    split
    · exact ih later absent
    · rename_i missing
      -- what was entered is another symbol, so this one is still absent
      refine ih later ?_
      rw [keys_insert_of_not_mem (Table.not_mem_keys_of_contains missing), List.mem_append,
        List.mem_singleton, not_or]
      exact ⟨absent, Ne.symm other⟩

end Catalog

/-! ### Names that occur -/

namespace Expr

/-- The bare name or the argument that a part is. -/
def name? : Expr → Option String
  | identifier name | argument name => some name
  | _ => none

/-- The foreign call that a part is. -/
def call? : Expr → Option String
  | foreignCall name _ => some name
  | _ => none

/-- The tracker that a part refers to, with a key or without. -/
def tracker? : Expr → Option String
  | tracker ref | mapped ref _ => some ref.name
  | _ => none

/-- The global variable that a part is. -/
def global? : Expr → Option GlobalVariable
  | global which => some which
  | _ => none

/-- The bare names and arguments in an expression, each part before its own parts, from left to
right. -/
def names (e : Expr) : List String :=
  e.nodes.filterMap name?

/-- The foreign calls in an expression, in the same order. -/
def calls (e : Expr) : List String :=
  e.nodes.filterMap call?

/-- The trackers in an expression, in the same order. -/
def trackers (e : Expr) : List String :=
  e.nodes.filterMap tracker?

/-- The global variables in an expression, in the same order. -/
def globals (e : Expr) : List GlobalVariable :=
  e.nodes.filterMap global?

/-- Binding leaves what it does not look at. -/
theorem filterMap_nodes_bind {α : Type} {isArgument : String → Bool} {f : Expr → Option α}
    (same : ∀ n, f (n.bind isArgument) = f n) (e : Expr) :
    (e.bind isArgument).nodes.filterMap f = e.nodes.filterMap f := by
  have each : f ∘ bind isArgument = f := funext same
  rw [nodes_bind, List.filterMap_map, each]

variable (isArgument : String → Bool)

/-- Binding names leaves the foreign calls as they are. -/
theorem calls_bind (e : Expr) : (e.bind isArgument).calls = e.calls := by
  refine filterMap_nodes_bind (fun n => ?_) e
  cases n with
  | identifier name => rw [bind]; split <;> rfl
  | _ => rfl

/-- It leaves the trackers as they are. -/
theorem trackers_bind (e : Expr) : (e.bind isArgument).trackers = e.trackers := by
  refine filterMap_nodes_bind (fun n => ?_) e
  cases n with
  | identifier name => rw [bind]; split <;> rfl
  | _ => rfl

/-- And it leaves the global variables as they are. -/
theorem globals_bind (e : Expr) : (e.bind isArgument).globals = e.globals := by
  refine filterMap_nodes_bind (fun n => ?_) e
  cases n with
  | identifier name => rw [bind]; split <;> rfl
  | _ => rfl

/-- A name that may be an argument is one after binding if it occurred before. -/
theorem argument_mem_bind {name : String} (declared : isArgument name) (e : Expr) :
    argument name ∈ (e.bind isArgument).nodes ↔ name ∈ e.names := by
  -- a name that is declared is bound to an argument, and an argument stays what it is
  rw [nodes_bind, names, List.mem_map, List.mem_filterMap]
  constructor
  · rintro ⟨n, mem, is⟩
    refine ⟨n, mem, ?_⟩
    cases n with
    | identifier name' =>
      rw [bind] at is
      split at is
      · cases is
        rfl
      · cases is
    | argument name' =>
      cases is
      rfl
    | _ => cases is
  · rintro ⟨n, mem, is⟩
    refine ⟨n, mem, ?_⟩
    cases n with
    | identifier name' =>
      cases is
      rw [bind, if_pos declared]
    | argument name' =>
      cases is
      rfl
    | _ => cases is

/-- Binding leaves no bare name. -/
theorem identifier_not_mem_bind (name : String) (e : Expr) :
    identifier name ∉ (e.bind isArgument).nodes := by
  rw [nodes_bind, List.mem_map]
  rintro ⟨n, -, is⟩
  cases n with
  | identifier name' =>
    rw [bind] at is
    split at is <;> cases is
  | _ => cases is

end Expr

/-! ### What is entered -/

namespace Scope

variable {scope : Scope} {e : Expr}

theorem calls_bound (scope : Scope) (e : Expr) : (scope.bound e).calls = e.calls :=
  e.calls_bind _

theorem trackers_bound (scope : Scope) (e : Expr) : (scope.bound e).trackers = e.trackers :=
  e.trackers_bind _

theorem globals_bound (scope : Scope) (e : Expr) : (scope.bound e).globals = e.globals :=
  e.globals_bind _

/-- The names of declared arguments that occur in an expression, in declared order. -/
def usedArguments (scope : Scope) (e : Expr) : List String :=
  (scope.function.arguments.map Argument.name).filter e.names.contains

theorem isSome_position? {argument : Argument} (mem : argument ∈ scope.function.arguments) :
    (scope.function.position? argument.name).isSome := by
  rw [CallingFunction.position?, List.findIdx?_isSome, List.any_eq_true]
  exact ⟨argument, mem, beq_self_eq_true _⟩

/-- The entries for arguments are those of the declared arguments that are used. -/
theorem map_fst_argumentEntries (scope : Scope) (e : Expr) :
    (scope.argumentEntries (scope.bound e).nodes).map Prod.fst =
      (scope.usedArguments e).map .argument := by
  have names : scope.function.arguments.map Argument.name =
      scope.function.arguments.zipIdx.map fun entry => entry.1.name := by
    nth_rewrite 1 [← List.zipIdx_map_fst 0 scope.function.arguments]
    exact List.map_map
  rw [usedArguments, names, List.filter_map, List.map_map, argumentEntries, List.map_map]
  congr 1
  refine List.filter_congr fun entry mem => ?_
  have declared := isSome_position? (List.fst_mem_of_mem_zipIdx mem)
  rw [Function.comp_apply, Bool.eq_iff_iff, List.contains_iff_mem, List.contains_iff_mem,
    ← Expr.argument_mem_bind (fun name => (scope.function.position? name).isSome) declared]
  -- an argument is used if its name is bound somewhere
  constructor
  · intro used
    obtain ⟨n, inside, is⟩ := List.mem_filterMap.1 used
    split at is
    · cases is
      exact inside
    · cases is
  · intro inside
    exact List.mem_filterMap.2 ⟨_, inside, rfl⟩

/-- The symbols of entries that are made for the parts with a name. -/
theorem map_fst_filterMap {α : Type} {name? : Expr → Option α} {symbol : α → Symbol}
    {listed? : Expr → Option (Symbol × Except Error Component)}
    (each : ∀ n, (listed? n).map Prod.fst = (name? n).map symbol) (nodes : List Expr) :
    (nodes.filterMap listed?).map Prod.fst = (nodes.filterMap name?).map symbol := by
  rw [List.map_filterMap, List.map_filterMap]
  exact List.filterMap_congr fun n _ => each n

/-- The symbols of all entries: arguments, foreign calls, trackers and global variables. -/
theorem map_fst_entries (scope : Scope) (e : Expr) :
    (scope.entries (scope.bound e)).map Prod.fst =
      (scope.usedArguments e).map .argument ++ e.calls.map .foreignCall ++
        e.trackers.map .tracker ++ e.globals.map .global := by
  have calls : (scope.foreignCallEntries (scope.bound e).nodes).map Prod.fst =
      (scope.bound e).calls.map .foreignCall :=
    map_fst_filterMap (fun n => by cases n <;> rfl) _
  have trackers : (scope.trackerEntries (scope.bound e).nodes).map Prod.fst =
      (scope.bound e).trackers.map .tracker :=
    map_fst_filterMap (fun n => by cases n <;> rfl) _
  have globals : (globalEntries (scope.bound e).nodes).map Prod.fst =
      (scope.bound e).globals.map .global :=
    map_fst_filterMap (fun n => by cases n <;> rfl) _
  rw [entries, List.map_append, List.map_append, List.map_append, map_fst_argumentEntries, calls,
    trackers, globals, calls_bound, trackers_bound, globals_bound]

/-- The symbols of a catalog: the kinds one after the other, each symbol where it occurs first. -/
theorem keys_of_resolve {resolved : Expr} {catalog : Catalog}
    (h : scope.resolve e = .ok (resolved, catalog)) :
    catalog.keys = (scope.usedArguments e).eraseDups.map .argument ++
      e.calls.eraseDups.map .foreignCall ++ e.trackers.eraseDups.map .tracker ++
        e.globals.eraseDups.map .global := by
  obtain ⟨rfl, entered⟩ := resolve_eq_ok h
  rw [Catalog.keys_of_enterAll entered [] rfl, List.nil_append, map_fst_entries,
    eraseDups_append_of_disjoint (by simp), eraseDups_append_of_disjoint (by simp),
    eraseDups_append_of_disjoint (by simp), eraseDups_map, eraseDups_map, eraseDups_map,
    eraseDups_map]
  all_goals
    intro x y same
    cases same
    rfl

/-! ### What is in no table -/

/-- Whether the tables have no foreign call of a name. -/
def lacksCall (scope : Scope) (name : String) : Bool :=
  !scope.tables.foreignCalls.contains name

/-- Whether the tables have no tracker of a name. -/
def lacksTracker (scope : Scope) (name : String) : Bool :=
  !scope.tables.trackers.contains name

/-- What is reported of an expression: the first foreign call that is in no table, or the first such
tracker if there is no such call. -/
inductive Reports (scope : Scope) (e : Expr) : Error → Prop
  | call {name : String} :
      e.calls.find? scope.lacksCall = some name →
        Reports scope e (.unresolved ("FC:" ++ name) .foreignCall)
  | tracker {name : String} :
      e.calls.find? scope.lacksCall = none → e.trackers.find? scope.lacksTracker = some name →
        Reports scope e (.unresolved ("TR:" ++ name) .tracker)

/-- A foreign call that is in no table is reported by its name. -/
theorem foreignCallComponent_of_lacks {name : String} (callText : String)
    (policy : scope.policy = .error) (lacks : scope.lacksCall name) :
    scope.foreignCallComponent name callText =
      .error (.unresolved ("FC:" ++ name) .foreignCall) := by
  have none : scope.tables.foreignCalls.get? name = none := by
    simpa [lacksCall, Table.contains] using lacks
  rw [foreignCallComponent_eq, lookUp_eq_error policy none]
  rfl

/-- And so is a tracker. -/
theorem trackerComponent_of_lacks {name : String} (mapped : Bool) (policy : scope.policy = .error)
    (lacks : scope.lacksTracker name) :
    scope.trackerComponent name mapped = .error (.unresolved ("TR:" ++ name) .tracker) := by
  have none : scope.tables.trackers.get? name = none := by
    simpa [lacksTracker, Table.contains] using lacks
  rw [trackerComponent_eq, lookUp_eq_error policy none]
  rfl

/-- A foreign call has a component if it is known or need not be. -/
theorem exists_foreignCallComponent {name : String} (callText : String)
    (known : scope.policy = .error → ¬ scope.lacksCall name) :
    ∃ c, scope.foreignCallComponent name callText = .ok c := by
  have found : scope.policy = .error → scope.tables.foreignCalls.contains name := by
    simpa [lacksCall] using known
  rw [foreignCallComponent_eq, lookUp_eq_ok_iff.2 ⟨found, rfl⟩]
  exact ⟨_, rfl⟩

/-- And so has a tracker. -/
theorem exists_trackerComponent {name : String} (mapped : Bool)
    (known : scope.policy = .error → ¬ scope.lacksTracker name) :
    ∃ c, scope.trackerComponent name mapped = .ok c := by
  have found : scope.policy = .error → scope.tables.trackers.contains name := by
    simpa [lacksTracker] using known
  rw [trackerComponent_eq, lookUp_eq_ok_iff.2 ⟨found, rfl⟩]
  exact ⟨_, rfl⟩

/-- Where entries are made for the parts with a name, the first name that the tables lack has the
first entry that fails. -/
theorem exists_first_failing (symbol : String → Symbol) (fault : String → Error)
    {name? : Expr → Option String} {listed? : Expr → Option (Symbol × Except Error Component)}
    {lacks : String → Bool} {nodes : List Expr} {name : String}
    (unnamed : ∀ n, name? n = none → listed? n = none)
    (fails : ∀ n name, name? n = some name → lacks name →
      listed? n = some (symbol name, .error (fault name)))
    (succeeds : ∀ n name, name? n = some name → ¬ lacks name →
      ∃ c, listed? n = some (symbol name, .ok c))
    (first : (nodes.filterMap name?).find? lacks = some name) :
    ∃ before after,
      nodes.filterMap listed? = before ++ (symbol name, .error (fault name)) :: after ∧
      ∀ entry ∈ before, ∃ name' c, ¬ lacks name' ∧ entry = (symbol name', .ok c) := by
  -- the entry of the first name that is lacking is the first that fails
  induction nodes with
  | nil => cases first
  | cons n nodes ih =>
    cases named : name? n with
    | none =>
      rw [List.filterMap_cons_none named] at first
      rw [List.filterMap_cons_none (unnamed n named)]
      exact ih first
    | some name' =>
      rw [List.filterMap_cons_some named] at first
      by_cases lacking : lacks name'
      · rw [List.find?_cons_of_pos lacking] at first
        cases first
        rw [List.filterMap_cons_some (fails n name named lacking)]
        exact ⟨[], _, rfl, List.forall_mem_nil _⟩
      · rw [List.find?_cons_of_neg lacking] at first
        obtain ⟨c, entered⟩ := succeeds n name' named lacking
        obtain ⟨before, after, eq, known⟩ := ih first
        rw [List.filterMap_cons_some entered, eq]
        exact ⟨_ :: before, after, rfl, List.forall_mem_cons.2 ⟨⟨name', c, lacking, rfl⟩, known⟩⟩

/-- An expression is refused for the first entry that is refused. -/
theorem resolve_eq_error {err : Error}
    (h : (Catalog.enterAll .empty (scope.entries (scope.bound e))).2 = .error err) :
    scope.resolve e = .error err := by
  rcases entered : Catalog.enterAll .empty (scope.entries (scope.bound e)) with ⟨catalog, result⟩
  rw [entered] at h
  cases h
  have run : scope.resolveInto .empty e = (catalog, .error err) := by
    show (let entered := Catalog.enterAll .empty (scope.entries (scope.bound e))
      (entered.1, entered.2.map fun _ => scope.bound e)) = _
    rw [entered]
    rfl
  rw [resolve, run]

section

variable {nodes : List Expr} {entry : Symbol × Except Error Component} {name : String}

/-- The first call that is in no table has the first entry that fails. -/
theorem foreignCallEntries_eq_append (policy : scope.policy = .error)
    (first : (nodes.filterMap Expr.call?).find? scope.lacksCall = some name) :
    ∃ before after, scope.foreignCallEntries nodes =
        before ++ (.foreignCall name, .error (.unresolved ("FC:" ++ name) .foreignCall)) :: after ∧
      ∀ entry ∈ before, ∃ name' c,
        ¬ scope.lacksCall name' ∧ entry = (.foreignCall name', .ok c) := by
  refine exists_first_failing .foreignCall (fun name => .unresolved ("FC:" ++ name) .foreignCall)
    ?_ ?_ ?_ first
  · intro n unnamed
    cases n with
    | foreignCall name arguments => cases unnamed
    | _ => rfl
  · intro n name named lacks
    cases n with
    | foreignCall name' arguments =>
      cases named
      simp only [foreignCallComponent_of_lacks _ policy lacks]
    | _ => cases named
  · intro n name named known
    cases n with
    | foreignCall name' arguments =>
      cases named
      obtain ⟨c, is⟩ := exists_foreignCallComponent
        (Expr.foreignCall name arguments).render fun _ => known
      exact ⟨c, by simp only [is]⟩
    | _ => cases named

/-- The first tracker that is in no table has the first entry that fails. -/
theorem trackerEntries_eq_append (policy : scope.policy = .error)
    (first : (nodes.filterMap Expr.tracker?).find? scope.lacksTracker = some name) :
    ∃ before after, scope.trackerEntries nodes =
        before ++ (.tracker name, .error (.unresolved ("TR:" ++ name) .tracker)) :: after ∧
      ∀ entry ∈ before, ∃ name' c,
        ¬ scope.lacksTracker name' ∧ entry = (.tracker name', .ok c) := by
  refine exists_first_failing .tracker (fun name => .unresolved ("TR:" ++ name) .tracker)
    ?_ ?_ ?_ first
  · intro n unnamed
    cases n with
    | tracker ref => cases unnamed
    | mapped ref key => cases unnamed
    | _ => rfl
  · intro n name named lacks
    cases n with
    | tracker ref | mapped ref key =>
      cases named
      simp only [trackerComponent_of_lacks _ policy lacks]
    | _ => cases named
  · intro n name named known
    cases n with
    | tracker ref =>
      cases named
      obtain ⟨c, is⟩ := exists_trackerComponent false fun _ => known
      exact ⟨c, by simp only [is]⟩
    | mapped ref key =>
      cases named
      obtain ⟨c, is⟩ := exists_trackerComponent true fun _ => known
      exact ⟨c, by simp only [is]⟩
    | _ => cases named

/-- If every call is known, no entry for one fails. -/
theorem exists_of_mem_foreignCallEntries
    (known : scope.policy = .error → (nodes.filterMap Expr.call?).find? scope.lacksCall = none)
    (mem : entry ∈ scope.foreignCallEntries nodes) :
    ∃ name c, entry = (.foreignCall name, .ok c) := by
  obtain ⟨name, arguments, inside, rfl⟩ := mem_foreignCallEntries.1 mem
  obtain ⟨c, is⟩ := exists_foreignCallComponent (Expr.foreignCall name arguments).render
    fun policy => List.find?_eq_none.1 (known policy) name (List.mem_filterMap.2 ⟨_, inside, rfl⟩)
  exact ⟨name, c, by rw [is]⟩

/-- If every tracker is known, no entry for one fails. -/
theorem exists_of_mem_trackerEntries
    (known : scope.policy = .error →
      (nodes.filterMap Expr.tracker?).find? scope.lacksTracker = none)
    (mem : entry ∈ scope.trackerEntries nodes) : ∃ name c, entry = (.tracker name, .ok c) := by
  obtain ⟨ref, ⟨inside, rfl⟩ | ⟨key, inside, rfl⟩⟩ := mem_trackerEntries.1 mem
  · obtain ⟨c, is⟩ := exists_trackerComponent false fun policy =>
      List.find?_eq_none.1 (known policy) ref.name (List.mem_filterMap.2 ⟨_, inside, rfl⟩)
    exact ⟨ref.name, c, by rw [is]⟩
  · obtain ⟨c, is⟩ := exists_trackerComponent true fun policy =>
      List.find?_eq_none.1 (known policy) ref.name (List.mem_filterMap.2 ⟨_, inside, rfl⟩)
    exact ⟨ref.name, c, by rw [is]⟩

end

/-- Under the strict policy, what is in no table is reported. -/
theorem resolve_of_reports (policy : scope.policy = .error) {err : Error}
    (h : scope.Reports e err) : scope.resolve e = .error err := by
  apply resolve_eq_error
  have arguments : ∀ entry ∈ scope.argumentEntries (scope.bound e).nodes,
      ∃ name c, entry = (.argument name, .ok c) := by
    intro entry mem
    obtain ⟨argument, i, rfl⟩ := mem_argumentEntries mem
    exact ⟨_, _, rfl⟩
  cases h with
  | @call name first =>
    -- in front of it are the arguments and the calls that are in a table
    have lacks := List.find?_some first
    rw [← scope.calls_bound] at first
    obtain ⟨before, after, eq, known⟩ := foreignCallEntries_eq_append policy first
    have split : scope.entries (scope.bound e) = (scope.argumentEntries (scope.bound e).nodes ++
        before) ++ (.foreignCall name, .error (.unresolved ("FC:" ++ name) .foreignCall)) ::
          (after ++ scope.trackerEntries (scope.bound e).nodes ++
            globalEntries (scope.bound e).nodes) := by
      rw [entries, eq]
      simp only [List.append_assoc, List.cons_append]
    rw [split]
    refine Catalog.enterAll_eq_error (List.forall_mem_append.2 ⟨?_, ?_⟩) List.not_mem_nil
    · intro entry mem
      obtain ⟨name', c, rfl⟩ := arguments entry mem
      exact ⟨_, c, by simp, rfl⟩
    · intro entry mem
      obtain ⟨name', c, knows, rfl⟩ := known entry mem
      refine ⟨_, c, ?_, rfl⟩
      rintro ⟨⟩
      exact knows lacks
  | @tracker name none first =>
    -- in front of it are the arguments, all calls and the trackers that are in a table
    have lacks := List.find?_some first
    rw [← scope.calls_bound] at none
    rw [← scope.trackers_bound] at first
    obtain ⟨before, after, eq, known⟩ := trackerEntries_eq_append policy first
    have split : scope.entries (scope.bound e) = (scope.argumentEntries (scope.bound e).nodes ++
        scope.foreignCallEntries (scope.bound e).nodes ++ before) ++
          (.tracker name, .error (.unresolved ("TR:" ++ name) .tracker)) ::
            (after ++ globalEntries (scope.bound e).nodes) := by
      rw [entries, eq]
      simp only [List.append_assoc, List.cons_append]
    rw [split]
    refine Catalog.enterAll_eq_error
      (List.forall_mem_append.2 ⟨List.forall_mem_append.2 ⟨?_, ?_⟩, ?_⟩) List.not_mem_nil
    · intro entry mem
      obtain ⟨name', c, rfl⟩ := arguments entry mem
      exact ⟨_, c, by simp, rfl⟩
    · intro entry mem
      obtain ⟨name', c, rfl⟩ := exists_of_mem_foreignCallEntries (fun _ => none) mem
      exact ⟨_, c, by simp, rfl⟩
    · intro entry mem
      obtain ⟨name', c, knows, rfl⟩ := known entry mem
      refine ⟨_, c, ?_, rfl⟩
      rintro ⟨⟩
      exact knows lacks

/-- Nothing else keeps an expression from being resolved. -/
theorem resolve_of_not_reports (known : scope.policy = .error → ∀ err, ¬ scope.Reports e err) :
    ∃ catalog, scope.resolve e = .ok (scope.bound e, catalog) := by
  have calls : scope.policy = .error → e.calls.find? scope.lacksCall = none := by
    intro policy
    cases first : e.calls.find? scope.lacksCall with
    | none => rfl
    | some name => exact absurd (.call first) (known policy _)
  have trackers : scope.policy = .error → e.trackers.find? scope.lacksTracker = none := by
    intro policy
    cases first : e.trackers.find? scope.lacksTracker with
    | none => rfl
    | some name => exact absurd (.tracker (calls policy) first) (known policy _)
  rw [← scope.calls_bound] at calls
  rw [← scope.trackers_bound] at trackers
  -- nothing is reported, so each of the four kinds of entries can be made
  apply exists_resolve
  intro entry mem
  simp only [entries, List.mem_append] at mem
  rcases mem with ((inArguments | inCalls) | inTrackers) | inGlobals
  · obtain ⟨argument, i, rfl⟩ := mem_argumentEntries inArguments
    exact ⟨_, rfl⟩
  · obtain ⟨name, c, rfl⟩ := exists_of_mem_foreignCallEntries calls inCalls
    exact ⟨c, rfl⟩
  · obtain ⟨name, c, rfl⟩ := exists_of_mem_trackerEntries trackers inTrackers
    exact ⟨c, rfl⟩
  · obtain ⟨which, -, rfl⟩ := mem_globalEntries.1 inGlobals
    exact ⟨_, rfl⟩

/-! ### Indices and types -/

/-- The index and the type that a symbol has in a scope.  An argument has the first place at which
its name is declared; what is in no table has index zero and stands for a number. -/
def Describes (scope : Scope) (c : Component) : Symbol → Prop
  | .argument name =>
    ∃ i argument, scope.function.position? name = some i ∧
      scope.function.arguments[i]? = some argument ∧ c.index = UInt64.ofNat i ∧
      c.valueType = argument.valueType
  | .foreignCall name =>
    let call := (scope.tables.foreignCalls.get? name).getD ⟨0, .uint256⟩
    c.index = call.index ∧ c.valueType = call.returnType
  | .tracker name =>
    ∃ keyType, let tracker := (scope.tables.trackers.get? name).getD ⟨0, .uint256, keyType⟩
      c.index = tracker.index ∧ c.valueType = tracker.valueType ∧ c.keyType = tracker.keyType
  | .global which => c.index = 0 ∧ c.valueType = which.valueType

/-- A component that a catalog holds has the index and the types of what its symbol stands for. -/
theorem Holds.describes {c : Component} {symbol : Symbol} (h : scope.Holds e c symbol) :
    scope.Describes c symbol := by
  cases symbol with
  | argument name =>
    obtain ⟨i, argument, position, at_i, rfl⟩ := h
    exact ⟨i, argument, position, at_i, rfl, rfl⟩
  | foreignCall name =>
    obtain ⟨arguments, -, component⟩ := h
    rw [foreignCallComponent_eq] at component
    obtain ⟨call, found, eq⟩ := bind_eq_ok.1 component
    cases eq
    obtain ⟨-, rfl⟩ := lookUp_eq_ok_iff.1 found
    exact ⟨rfl, rfl⟩
  | tracker name =>
    obtain ⟨mapped, component⟩ := h
    rw [trackerComponent_eq] at component
    obtain ⟨tracker, found, eq⟩ := bind_eq_ok.1 component
    cases eq
    obtain ⟨-, rfl⟩ := lookUp_eq_ok_iff.1 found
    exact ⟨if mapped then some .uint256 else none, rfl, rfl, rfl⟩
  | global which =>
    cases h
    exact ⟨rfl, rfl⟩

/-- Something is reported exactly if some call or tracker is in no table. -/
theorem exists_reports_iff :
    (∃ err, scope.Reports e err) ↔
      (∃ name ∈ e.calls, scope.tables.foreignCalls.get? name = none) ∨
        ∃ name ∈ e.trackers, scope.tables.trackers.get? name = none := by
  have lacksCall : ∀ name, scope.lacksCall name ↔
      scope.tables.foreignCalls.get? name = none := by
    simp [lacksCall, Table.contains]
  have lacksTracker : ∀ name, scope.lacksTracker name ↔
      scope.tables.trackers.get? name = none := by
    simp [lacksTracker, Table.contains]
  constructor
  · rintro ⟨err, first | ⟨-, first⟩⟩
    · exact .inl ⟨_, List.mem_of_find?_eq_some first, (lacksCall _).1 (List.find?_some first)⟩
    · exact .inr ⟨_, List.mem_of_find?_eq_some first, (lacksTracker _).1 (List.find?_some first)⟩
  · intro h
    -- calls are looked up before trackers, whatever is missing
    cases firstCall : e.calls.find? scope.lacksCall with
    | some name => exact ⟨_, .call firstCall⟩
    | none =>
      rcases h with ⟨name, mem, missing⟩ | ⟨name, mem, missing⟩
      · exact absurd ((lacksCall name).2 missing) (List.find?_eq_none.1 firstCall name mem)
      · have found : (e.trackers.find? scope.lacksTracker).isSome :=
          List.find?_isSome.2 ⟨name, mem, (lacksTracker name).2 missing⟩
        obtain ⟨first, is⟩ := Option.isSome_iff_exists.1 found
        exact ⟨_, .tracker firstCall is⟩

/-- Under the strict policy an expression is refused for exactly what is reported of it. -/
theorem resolve_eq_error_iff {err : Error} :
    scope.resolve e = .error err ↔ scope.policy = .error ∧ scope.Reports e err := by
  constructor
  · intro fails
    by_cases reports : scope.policy = .error ∧ ∃ err, scope.Reports e err
    · obtain ⟨policy, err', reports⟩ := reports
      cases fails.symm.trans (resolve_of_reports policy reports)
      exact ⟨policy, reports⟩
    · obtain ⟨catalog, resolves⟩ := resolve_of_not_reports (e := e)
        fun policy err' reported => reports ⟨policy, err', reported⟩
      cases fails.symm.trans resolves
  · rintro ⟨policy, reports⟩
    exact resolve_of_reports policy reports

/-- **Resolving catalogues what is referred to.**  It fails only under the strict policy and only
for a foreign call or a tracker that is in no table, wherever it stands, and then reports the first
such call, or the first such tracker if there is none.  Otherwise no bare name is left, and the
catalog holds, each once, the declared arguments that are used, in declared order, then the foreign
calls, the trackers and the global variables, in the order in which they occur first, with their
indices and types. -/
theorem resolve_catalogues (scope : Scope) (e : Expr) :
    ((∃ err, scope.resolve e = .error err) ↔
      scope.policy = .error ∧
        ((∃ name ∈ e.calls, scope.tables.foreignCalls.get? name = none) ∨
          ∃ name ∈ e.trackers, scope.tables.trackers.get? name = none)) ∧
    (∀ err, scope.resolve e = .error err ↔ scope.policy = .error ∧ scope.Reports e err) ∧
    ∀ resolved catalog, scope.resolve e = .ok (resolved, catalog) →
      resolved = scope.bound e ∧ (∀ name, .identifier name ∉ resolved.nodes) ∧
      catalog.keys = (scope.usedArguments e).eraseDups.map .argument ++
        e.calls.eraseDups.map .foreignCall ++ e.trackers.eraseDups.map .tracker ++
          e.globals.eraseDups.map .global ∧
      ∀ entry ∈ catalog.entries, scope.Describes entry.2 entry.1 := by
  refine ⟨?_, fun err => resolve_eq_error_iff, ?_⟩
  · simp only [resolve_eq_error_iff, exists_and_left, exists_reports_iff]
  · intro resolved catalog resolves
    have eq := (resolve_eq_ok resolves).1
    refine ⟨eq, fun name => ?_, keys_of_resolve resolves, fun entry mem => ?_⟩
    · rw [eq]
      exact Expr.identifier_not_mem_bind _ name e
    · exact (holds_of_resolve resolves (Table.get?_eq_some_iff.2 mem)).describes

/-- A tracker inside a call, a mapped tracker that occurs twice, an argument that is declared twice,
and a bare name that is no argument; with no tables, the call is reported. -/
theorem resolve_catalogues_nested :
    let function : CallingFunction :=
      ⟨none, [⟨"a", "uint256", .uint256⟩, ⟨"b", "address", .address⟩, ⟨"a", "bool", .bool⟩]⟩
    let tables := ((default : SymbolTables).addForeignCall "f" ⟨2, .uint256⟩).addTracker "x"
      ⟨4, .uint256, none⟩ |>.addTracker "m" ⟨5, .uint256, some .address⟩
    let total : Expr := .mapped ⟨"m", false⟩ (.identifier "b")
    let e : Expr := .binary (.plain .and)
      (.binary (.plain .greater) total (.foreignCall "f" [.tracker ⟨"x", false⟩]))
      (.binary (.plain .less) (.identifier "a") (.binary (.plain .equal) total (.identifier "z")))
    (∃ resolved catalog, Scope.resolve ⟨function, tables, .error⟩ e = .ok (resolved, catalog) ∧
      catalog.keys =
        [.argument "a", .argument "b", .foreignCall "f", .tracker "m", .tracker "x"]) ∧
      Scope.resolve ⟨function, default, .error⟩ e =
        .error (.unresolved "FC:f" .foreignCall) := by
  intro function tables total e
  constructor
  · obtain ⟨⟨resolved, catalog⟩, resolves, -⟩ := exists_ok_of_any
      (show (Scope.resolve ⟨function, tables, .error⟩ e).toOption.any (fun _ => true)
        by decide +kernel)
    obtain ⟨-, -, keys, -⟩ := (resolve_catalogues ⟨function, tables, .error⟩ e).2.2 _ _ resolves
    -- an argument that is declared twice and a tracker that is used twice are listed once
    refine ⟨resolved, catalog, resolves, keys.trans ?_⟩
    decide +kernel
  · exact ((resolve_catalogues ⟨function, default, .error⟩ e).2.1 _).2
      ⟨rfl, @Reports.call _ _ "f" (by decide +kernel)⟩

end Scope

end RuleCodec
