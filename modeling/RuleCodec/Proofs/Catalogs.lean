/-
RuleCodec/Proofs/Catalogs.lean

Telling components apart.

A placeholder shows of a component no more than its index and its flags.  Where
unknown names are refused, no two trackers and no two foreign calls share an
index, and the arguments can be numbered, that is enough to tell which symbol
it stands for (`Scope.Holds.symbol_eq`), within one catalog and across two.
Conversely a symbol stands for the same component in the catalogs of two
expressions that write their calls alike (`Scope.Holds.component_eq`).
-/
import Mathlib.Data.List.Nodup
import RuleCodec.Proofs.Resolution

namespace RuleCodec

/-! ### Tables without repetitions -/

/-- Where no two values are alike in some respect, that respect tells the key. -/
theorem Table.key_eq_of_nodup {κ α β : Type} [DecidableEq κ] {t : Table κ α} {f : α → β}
    (distinct : (t.values.map f).Nodup) {k k' : κ} {v v' : α} (h : t.get? k = some v)
    (h' : t.get? k' = some v') (same : f v = f v') : k = k' := by
  have distinct : (t.entries.map (f ∘ Prod.snd)).Nodup := by
    rw [← List.map_map]
    exact distinct
  have mem := Table.get?_eq_some_iff.1 h
  have mem' := Table.get?_eq_some_iff.1 h'
  have eq := List.inj_on_of_nodup_map distinct mem mem' same
  exact (Prod.mk.inj eq).1

/-- No two trackers and no two foreign calls share an index. -/
structure SymbolTables.Distinct (tables : SymbolTables) : Prop where
  trackers : (tables.trackers.values.map TrackerSymbol.index).Nodup
  foreignCalls : (tables.foreignCalls.values.map ForeignCallSymbol.index).Nodup

instance (tables : SymbolTables) : Decidable tables.Distinct :=
  decidable_of_iff
    ((tables.trackers.values.map TrackerSymbol.index).Nodup ∧
      (tables.foreignCalls.values.map ForeignCallSymbol.index).Nodup)
    ⟨fun h => ⟨h.1, h.2⟩, fun h => ⟨h.trackers, h.foreignCalls⟩⟩

/-! ### Declared arguments -/

theorem Text.length_splitOn_le (sep : Char) (cs : List Char) :
    (splitOn sep cs).length ≤ cs.length + 1 := by
  induction cs with
  | nil => exact Nat.le_refl _
  | cons c cs ih =>
    rw [splitOn]
    split
    · simp only [List.length_cons]
      omega
    · split
      · simp
      · rename_i field fields eq
        rw [eq] at ih
        simp only [List.length_cons] at ih ⊢
        omega

theorem Text.length_splitOnce?_le {sep : Char} {cs before behind : List Char}
    (h : splitOnce? sep cs = some (before, behind)) : behind.length ≤ cs.length := by
  induction cs generalizing before with
  | nil => cases h
  | cons c cs ih =>
    rw [splitOnce?] at h
    split at h
    · cases h
      exact Nat.le_succ _
    · obtain ⟨⟨before', behind'⟩, found, eq⟩ := Option.map_eq_some_iff.1 h
      cases eq
      exact Nat.le_succ_of_le (ih found)

theorem Text.length_splitLast?_le {sep : Char} {cs before behind : List Char}
    (h : splitLast? sep cs = some (before, behind)) : before.length ≤ cs.length := by
  -- the last separator is the first one of the reverse
  obtain ⟨⟨first, rest⟩, found, eq⟩ := Option.map_eq_some_iff.1 h
  cases eq
  have shorter := Text.length_splitOnce?_le found
  simpa using shorter

namespace CallingFunction

/-- A parameter list does not declare more arguments than it has characters, one aside. -/
theorem length_declarations_le {cs : List Char} {arguments : List Argument}
    (h : declarations cs = .ok arguments) : arguments.length ≤ cs.length + 1 := by
  rw [← (mapM_eq_ok_iff.1 h).length_eq]
  calc (((Text.splitOn ',' cs).map Text.trim).filter fun field => !field.isEmpty).length
      ≤ ((Text.splitOn ',' cs).map Text.trim).length := List.length_filter_le _ _
    _ = (Text.splitOn ',' cs).length := List.length_map _
    _ ≤ cs.length + 1 := Text.length_splitOn_le ',' cs

/-- The parameter list is a part of the signature. -/
theorem length_parts_le {text list : List Char} {name : Option String}
    (h : parts text = .ok (name, list)) : list.length ≤ text.length := by
  unfold parts at h
  split at h
  · cases h
    exact Nat.le_refl _
  · split at h
    · cases h
    · rename_i upTo behind last
      split at h
      · cases h
      · simp only [Except.ok.injEq, Prod.mk.injEq] at h
        have shorter := Text.length_splitLast?_le last
        rw [← h.2, List.length_drop]
        omega

/-- A signature declares no more arguments than it has room for. -/
theorem length_arguments_le {signature : String} {function : CallingFunction}
    (h : parse signature = .ok function) :
    function.arguments.length ≤ signature.length + 1 := by
  obtain ⟨⟨name, list⟩, split, h⟩ := bind_eq_ok.1 h
  obtain ⟨arguments, declared, h⟩ := bind_eq_ok.1 h
  cases h
  have declarations := length_declarations_le declared
  have parts := length_parts_le split
  have trimmed := Text.length_trim_le signature.toList
  rw [String.length_toList] at trimmed
  show arguments.length ≤ signature.length + 1
  omega

end CallingFunction

/-! ### Components and symbols -/

/-- Where the values of a symbol come from. -/
def Symbol.source : Symbol → Source
  | argument _ => .argument
  | foreignCall _ => .foreignCall
  | tracker _ => .tracker
  | global which => .global which

/-- The flags tell where a value comes from. -/
theorem Source.flags_inj {s s' : Source} (h : s.flags = s'.flags) : s = s' := by
  cases s with
  | global which =>
    cases s' with
    | global which' => cases which <;> cases which' <;> first | rfl | exact absurd h (by decide)
    | _ => cases which <;> exact absurd h (by decide)
  | _ =>
    cases s' with
    | global which' => cases which' <;> exact absurd h (by decide)
    | _ => first | rfl | exact absurd h (by decide)

/-- A call in one expression and a call of the same name in another are written alike. -/
def Expr.AlikeAcross (e e' : Expr) : Prop :=
  ∀ name arguments arguments', .foreignCall name arguments ∈ e.nodes →
    .foreignCall name arguments' ∈ e'.nodes →
      (foreignCall name arguments).render = (foreignCall name arguments').render

namespace Scope

variable {scope : Scope} {e e' : Expr} {c c' : Component} {symbol symbol' : Symbol}

/-- A symbol stands for one component, if its calls are written alike. -/
theorem Holds.component_eq (policy : scope.policy = .error) (alike : e.AlikeAcross e')
    (h : scope.Holds e c symbol) (h' : scope.Holds e' c' symbol) : c = c' := by
  cases symbol with
  | argument name =>
    obtain ⟨i, argument, position, at_i, rfl⟩ := h
    obtain ⟨i', argument', position', at_i', rfl⟩ := h'
    cases position.symm.trans position'
    cases at_i.symm.trans at_i'
    rfl
  | foreignCall name =>
    obtain ⟨arguments, inside, component⟩ := h
    obtain ⟨arguments', inside', component'⟩ := h'
    -- the text of the call is part of the component, so the calls have to be written alike
    rw [alike name arguments arguments' inside inside', component'] at component
    exact (Except.ok.inj component).symm
  | tracker name =>
    obtain ⟨mapped, component⟩ := h
    obtain ⟨mapped', component'⟩ := h'
    -- with a key or without, a tracker has one component
    have either := ((trackerComponent_eq_ok component).2.2 policy).1 mapped'
    exact Except.ok.inj (either.symm.trans component')
  | global which =>
    cases h
    cases h'
    rfl

/-- An expression that is resolved has a component for each reference. -/
theorem exists_get?_of_refers {catalog : Catalog}
    (h : scope.resolve e = .ok (scope.bound e, catalog)) {n : Expr}
    (mem : n ∈ (scope.bound e).nodes) (refers : n.refers? = some symbol)
    (declared : ∀ name, symbol = .argument name → (scope.function.position? name).isSome) :
    ∃ c, catalog.get? symbol = some c := by
  obtain ⟨entry, entered, rfl⟩ := exists_entry mem refers declared
  exact Catalog.exists_of_entered (resolve_eq_ok h).2 entered

/-- A component that another expression refers to is the same in its catalog. -/
theorem get?_of_refers {catalog catalog' : Catalog}
    (h : scope.resolve e = .ok (scope.bound e, catalog))
    (h' : scope.resolve e' = .ok (scope.bound e', catalog')) (policy : scope.policy = .error)
    (alike : (scope.bound e).AlikeAcross (scope.bound e')) {n : Expr}
    (mem : n ∈ (scope.bound e').nodes) (refers : n.refers? = some symbol)
    (found : catalog.get? symbol = some c) : catalog'.get? symbol = some c := by
  have holds := holds_of_resolve h found
  have declared : ∀ name, symbol = .argument name →
      (scope.function.position? name).isSome := by
    rintro name rfl
    obtain ⟨i, -, position, -, -⟩ := holds
    rw [position]
    rfl
  obtain ⟨c', found'⟩ := exists_get?_of_refers h' mem refers declared
  rw [holds.component_eq policy alike (holds_of_resolve h' found')]
  exact found'

/-- An expression that refers to no more than another, whose references are known, can be
resolved. -/
theorem resolve_of_refers {catalog : Catalog}
    (h : scope.resolve e = .ok (scope.bound e, catalog)) (policy : scope.policy = .error)
    (refers : ∀ n' ∈ e'.nodes, ∀ symbol, n'.refers? = some symbol →
      ∃ n ∈ e.nodes, n.refers? = some symbol) :
    ∃ catalog', scope.resolve e' = .ok (scope.bound e', catalog') := by
  -- what is no argument is held in the catalog of the other expression
  have held : ∀ n' ∈ (scope.bound e').nodes, ∀ symbol, n'.refers? = some symbol →
      (∀ name, symbol ≠ .argument name) → ∃ c, scope.Holds (scope.bound e) c symbol := by
    intro n' mem symbol is other
    rw [bound, Expr.nodes_bind] at mem
    obtain ⟨original, inside, rfl⟩ := List.mem_map.1 mem
    rcases Expr.refers?_of_bind _ is with is | ⟨name, rfl⟩
    · obtain ⟨n, mem, is⟩ := refers original inside symbol is
      have mem : scope.bound n ∈ (scope.bound e).nodes := by
        rw [bound, bound, Expr.nodes_bind]
        exact List.mem_map_of_mem mem
      obtain ⟨c, found⟩ := exists_get?_of_refers h mem (Expr.refers?_bind _ is) fun name is =>
        absurd is (other name)
      exact ⟨c, holds_of_resolve h found⟩
    · exact absurd rfl (other name)
  -- so every entry of this one has a component
  apply exists_resolve
  intro entry mem
  simp only [entries, List.mem_append] at mem
  rcases mem with ((inArguments | inCalls) | inTrackers) | inGlobals
  · obtain ⟨argument, i, rfl⟩ := mem_argumentEntries inArguments
    exact ⟨_, rfl⟩
  · obtain ⟨name, arguments, inside, rfl⟩ := mem_foreignCallEntries.1 inCalls
    obtain ⟨c, arguments', -, component⟩ := held _ inside _ rfl (by simp)
    exact ((foreignCallComponent_eq_ok component).2.2 policy).1 _
  · obtain ⟨ref, ⟨inside, rfl⟩ | ⟨key, inside, rfl⟩⟩ := mem_trackerEntries.1 inTrackers
    · obtain ⟨c, mapped, component⟩ := held _ inside _ rfl (by simp)
      exact ⟨c, ((trackerComponent_eq_ok component).2.2 policy).1 _⟩
    · obtain ⟨c, mapped, component⟩ := held _ inside _ rfl (by simp)
      exact ⟨c, ((trackerComponent_eq_ok component).2.2 policy).1 _⟩
  · obtain ⟨which, -, rfl⟩ := mem_globalEntries.1 inGlobals
    exact ⟨_, rfl⟩

/-- A component is of the kind that its symbol says. -/
theorem Holds.source_eq (h : scope.Holds e c symbol) : c.source = symbol.source := by
  cases symbol with
  | argument name =>
    obtain ⟨i, argument, -, -, rfl⟩ := h
    rfl
  | foreignCall name =>
    obtain ⟨arguments, -, component⟩ := h
    exact (foreignCallComponent_eq_ok component).2.1
  | tracker name =>
    obtain ⟨mapped, component⟩ := h
    exact (trackerComponent_eq_ok component).2.1
  | global which =>
    cases h
    rfl

/-- Arguments are told apart by their places, as long as these fit in 64 bits. -/
theorem Holds.argument_eq {name name' : String} (h : scope.Holds e c (.argument name))
    (h' : scope.Holds e' c' (.argument name'))
    (short : scope.function.arguments.length ≤ UInt64.size) (same : c.index = c'.index) :
    name = name' := by
  obtain ⟨i, argument, position, at_i, rfl⟩ := h
  obtain ⟨i', argument', position', at_i', rfl⟩ := h'
  have lt : i < UInt64.size := Nat.lt_of_lt_of_le (List.getElem?_eq_some_iff.1 at_i).1 short
  have lt' : i' < UInt64.size := Nat.lt_of_lt_of_le (List.getElem?_eq_some_iff.1 at_i').1 short
  -- positions that fit into a word are told by the word
  have eq : i = i' := by
    have := congrArg UInt64.toNat (show UInt64.ofNat i = UInt64.ofNat i' from same)
    rwa [UInt64.toNat_ofNat_of_lt' lt, UInt64.toNat_ofNat_of_lt' lt'] at this
  subst eq
  obtain ⟨declared, at_declared, named⟩ := position?_eq_some position
  obtain ⟨declared', at_declared', named'⟩ := position?_eq_some position'
  cases at_declared.symm.trans at_declared'
  rw [← named, named']

/-- The index and the flags of a component tell its symbol. -/
theorem Holds.symbol_eq (policy : scope.policy = .error) (distinct : scope.tables.Distinct)
    (short : scope.function.arguments.length ≤ UInt64.size) (h : scope.Holds e c symbol)
    (h' : scope.Holds e' c' symbol') (same : c.key = c'.key) : symbol = symbol' := by
  obtain ⟨index, flags⟩ := Prod.mk.inj same
  -- the flags tell the kind of symbol, so the two symbols are of one kind and the index decides
  have source := Source.flags_inj flags
  rw [h.source_eq, h'.source_eq] at source
  cases symbol with
  | argument name =>
    cases symbol' with
    | argument name' => rw [h.argument_eq h' short index]
    | _ => cases source
  | foreignCall name =>
    cases symbol' with
    | foreignCall name' =>
      obtain ⟨arguments, -, component⟩ := h
      obtain ⟨arguments', -, component'⟩ := h'
      obtain ⟨-, call, found, is⟩ := (foreignCallComponent_eq_ok component).2.2 policy
      obtain ⟨-, call', found', is'⟩ := (foreignCallComponent_eq_ok component').2.2 policy
      rw [Table.key_eq_of_nodup distinct.foreignCalls found found'
        (is.symm.trans (index.trans is'))]
    | _ => cases source
  | tracker name =>
    cases symbol' with
    | tracker name' =>
      obtain ⟨mapped, component⟩ := h
      obtain ⟨mapped', component'⟩ := h'
      obtain ⟨-, tracker, found, is⟩ := (trackerComponent_eq_ok component).2.2 policy
      obtain ⟨-, tracker', found', is'⟩ := (trackerComponent_eq_ok component').2.2 policy
      rw [Table.key_eq_of_nodup distinct.trackers found found'
        (is.symm.trans (index.trans is'))]
    | _ => cases source
  | global which =>
    cases symbol' with
    | global which' =>
      cases source
      rfl
    | _ => cases source

end Scope

/-! ### Catalogs -/

/-- No two components share an index and flags. -/
def Catalog.Apart (catalog : Catalog) : Prop :=
  (catalog.values.map Component.key).Nodup

/-- Where components can be told apart, their index and flags tell them. -/
theorem Catalog.Apart.eq_of_key_eq {catalog : Catalog} (apart : catalog.Apart)
    {symbol symbol' : Symbol} {c c' : Component} (found : catalog.get? symbol = some c)
    (found' : catalog.get? symbol' = some c') (same : c.key = c'.key) : c = c' := by
  have is := Table.key_eq_of_nodup apart found found' same
  subst is
  exact Option.some.inj (found.symm.trans found')

instance (catalog : Catalog) : Decidable catalog.Apart :=
  inferInstanceAs (Decidable (List.Nodup _))

/-- Where unknown names are refused and indices are not shared, the components of an expression
can be told apart. -/
theorem Scope.apart_of_resolve {scope : Scope} {e resolved : Expr} {catalog : Catalog}
    (h : scope.resolve e = .ok (resolved, catalog)) (policy : scope.policy = .error)
    (distinct : scope.tables.Distinct)
    (short : scope.function.arguments.length ≤ UInt64.size) : catalog.Apart := by
  have entries : (catalog.entries.map fun entry => entry.2.key).Nodup := by
    refine List.Nodup.map_on ?_ (List.Nodup.of_map _ catalog.distinct)
    rintro ⟨symbol, c⟩ mem ⟨symbol', c'⟩ mem' same
    have found := Table.get?_eq_some_iff.2 mem
    have found' := Table.get?_eq_some_iff.2 mem'
    have is := (Scope.holds_of_resolve h found).symbol_eq policy distinct short
      (Scope.holds_of_resolve h found') same
    subst is
    rw [Option.some.inj (found.symm.trans found')]
  rw [Catalog.Apart, Table.values, List.map_map]
  exact entries

end RuleCodec
