/-
RuleCodec/Proofs/Appending.lean

Clauses that come later leave the effects before them as they are.

The effects of a rule share a catalog and placeholders, and the catalog is
complete before the first effect is encoded, so a clause at the end could in
principle change what comes before it.  It does not: components and
placeholders are only ever entered at the end (`Catalog.extends_enterAll`,
`Effects.EncodesAll.placeholders_extend`), and an encoding looks up nothing but
what its expression refers to (`Encodes.of_agree`).  Hence the effects without
the later clauses stand at the front of those with them
(`Effects.compile_append`).

Design.  `Effects.draft` is what becomes of one clause, and `resolveAll_cons`
says that resolving goes clause by clause; everything about resolving is
proved from it.
-/
import RuleCodec.Proofs.Effects
import RuleCodec.Proofs.Gist
import RuleCodec.Proofs.Shapes

namespace RuleCodec

/-! ### Catalogs that grow -/

namespace Table

variable {κ α : Type} [DecidableEq κ] {t u : Table κ α} {key : κ} {value : α}

/-- What is in a table stays there as the table grows. -/
theorem Extends.get?_eq (h : t.Extends u) (found : t.get? key = some value) :
    u.get? key = some value :=
  get?_eq_some_iff.2 (List.IsPrefix.subset h (get?_eq_some_iff.1 found))

/-- What is found in a table that has grown was there before, if anything was. -/
theorem Extends.get?_of_present (h : t.Extends u) (present : ∃ v, t.get? key = some v)
    (found : u.get? key = some value) : t.get? key = some value := by
  obtain ⟨v, before⟩ := present
  rw [before, ← h.get?_eq before, found]

end Table

/-- Components are entered at the end, whether or not all of them can be. -/
theorem Catalog.extends_enterAll (catalog : Catalog)
    (entries : List (Symbol × Except Error Component)) :
    catalog.Extends (catalog.enterAll entries).1 := by
  induction entries generalizing catalog with
  | nil => exact Table.Extends.refl catalog
  | cons entry rest ih =>
    obtain ⟨symbol, component⟩ := entry
    simp only [Catalog.enterAll]
    split
    · exact ih catalog
    · rename_i absent
      cases component with
      | error fault => exact Table.Extends.refl catalog
      | ok c =>
        -- a symbol that is new goes to the end of the table
        have entered : catalog.Extends (catalog.insert symbol c) := by
          rw [Table.Extends,
            Table.insert_entries_of_not_mem (Table.not_mem_keys_of_contains absent)]
          exact List.prefix_append _ _
        exact entered.trans (ih (catalog.insert symbol c))

namespace Scope

variable {scope : Scope} {catalog catalog' : Catalog} {e resolved : Expr}

/-- Resolves an expression into a catalog, where a name that cannot be resolved leaves none. -/
def enter (scope : Scope) (catalog : Catalog) (e : Expr) : Except Error (Expr × Catalog) :=
  let entered := scope.resolveInto catalog e
  entered.2.map fun resolved => (resolved, entered.1)

theorem resolveInto_of_enter (h : scope.enter catalog e = .ok (resolved, catalog')) :
    scope.resolveInto catalog e = (catalog', .ok resolved) := by
  unfold enter at h
  rcases run : scope.resolveInto catalog e with ⟨catalog₁, err | resolved₁⟩
  · rw [run] at h
    cases h
  · rw [run] at h
    cases h
    rfl

/-- Resolving into a catalog only adds to it. -/
theorem extends_resolveInto (h : scope.resolveInto catalog e = (catalog', .ok resolved)) :
    catalog.Extends catalog' := by
  have grown := catalog.extends_enterAll (scope.entries resolved)
  rwa [(resolveInto_eq_ok h).2] at grown

/-- A catalog has what was resolved into it. -/
theorem exists_get?_of_resolveInto {source : String} (parsed : Expr.parse source = .ok e)
    (h : scope.resolveInto catalog e = (catalog', .ok resolved)) {n : Expr}
    (mem : n ∈ resolved.nodes) {symbol : Symbol} (refers : n.refers? = some symbol) :
    ∃ c, catalog'.get? symbol = some c := by
  obtain ⟨rfl, entered⟩ := resolveInto_eq_ok h
  have declared : ∀ name, symbol = .argument name →
      (scope.function.position? name).isSome := by
    rintro name rfl
    cases n with
    | argument name' =>
      cases refers
      exact declares_of_mem_bound parsed mem
    | _ => cases refers
  obtain ⟨entry, inside, rfl⟩ := exists_entry mem refers declared
  exact Catalog.exists_of_entered entered inside

end Scope

/-! ### What an encoding looks up -/

/-- An encoding depends on its catalog only for what the expression refers to. -/
theorem Encodes.of_agree {catalog catalog' : Catalog} {outer : Option String} {slot : Nat}
    {e : Expr} {ps ps' : Placeholders} {code : Code} (h : Encodes catalog outer slot e ps code ps')
    (agree : ∀ n ∈ e.nodes, ∀ symbol c, n.refers? = some symbol → catalog.get? symbol = some c →
      catalog'.get? symbol = some c) :
    Encodes catalog' outer slot e ps code ps' := by
  -- a component is looked up only at a node that refers to it
  induction h with
  | literal is => exact .literal is
  | @read _ _ e _ _ _ is found keyType =>
    exact .read is (agree e e.self_mem_nodes _ _ (Expr.refers?_of_symbol? is) found) keyType
  | mapped _ found keyType ih =>
    obtain ⟨here, inKey⟩ := List.forall_mem_cons.1 agree
    exact .mapped (ih inKey) (here _ _ rfl found) keyType
  | not _ ih => exact .not (ih (List.forall_mem_cons.1 agree).2)
  | binary plain _ _ ihl ihr =>
    obtain ⟨inLeft, inRight⟩ := List.forall_mem_append.1 (List.forall_mem_cons.1 agree).2
    exact .binary plain (ihl inLeft) (ihr inRight)
  | update isUpdate found keyType _ ih =>
    obtain ⟨inLeft, inRight⟩ := List.forall_mem_append.1 (List.forall_mem_cons.1 agree).2
    have here := (List.forall_mem_cons.1 inLeft).1
    exact .update isUpdate (here _ _ rfl found) keyType (ih inRight)
  | updateMapped isUpdate found keyType _ _ ihk ihv =>
    obtain ⟨inLeft, inRight⟩ := List.forall_mem_append.1 (List.forall_mem_cons.1 agree).2
    obtain ⟨here, inKey⟩ := List.forall_mem_cons.1 inLeft
    exact .updateMapped isUpdate (here _ _ rfl found) keyType (ihk inKey) (ihv inRight)

namespace Effects

variable {scope : Scope} {registry : Registry} {catalog catalog' : Catalog}
  {ps ps' : Placeholders} {clauses more : List Clause} {drafts drafts' : List Draft}
  {effects : List Effect}

/-! ### Clause by clause -/

/-- What one clause is drafted as, and the catalog with what it refers to. -/
def draft (scope : Scope) (catalog : Catalog) : Clause → Except Error (Draft × Catalog)
  | .revert message => .ok (.done ⟨.revert, message, [], [], none, none⟩, catalog)
  | .event name parameter =>
    .ok (.done ⟨.event, name, [], [], parameter.map EventParameter.valueType, parameter⟩, catalog)
  | .expression source => do
    let e ← Expr.parse source
    let entered ← scope.enter catalog e
    return (.expression source entered.1, entered.2)

/-- Clauses are drafted one by one, each into the catalog that the ones before it left. -/
theorem resolveAll_cons (scope : Scope) (catalog : Catalog) (clause : Clause)
    (clauses : List Clause) :
    resolveAll scope catalog (clause :: clauses) = do
      let first ← draft scope catalog clause
      let rest ← resolveAll scope first.2 clauses
      return (first.1 :: rest.1, rest.2) := by
  cases clause with
  | revert message => rfl
  | event name parameter => rfl
  | expression source =>
    rw [resolveAll, draft]
    cases Expr.parse source with
    | error err => rfl
    | ok e =>
      simp only [bind, Except.bind, Scope.enter]
      rcases scope.resolveInto catalog e with ⟨catalog₁, err | resolved⟩
      · rfl
      · rfl

/-- So the clauses behind are resolved into the catalog of those in front. -/
theorem resolveAll_append (scope : Scope) (catalog : Catalog) (clauses more : List Clause) :
    resolveAll scope catalog (clauses ++ more) = do
      let front ← resolveAll scope catalog clauses
      let back ← resolveAll scope front.2 more
      return (front.1 ++ back.1, back.2) := by
  induction clauses generalizing catalog with
  | nil => exact (bind_pure _).symm
  | cons clause clauses ih =>
    simp only [List.cons_append, resolveAll_cons, ih, bind_assoc, pure_bind]

/-- A clause adds to the catalog what its draft refers to, and changes nothing in it. -/
theorem extends_draft {clause : Clause} {drafted : Draft}
    (h : draft scope catalog clause = .ok (drafted, catalog')) :
    catalog.Extends catalog' ∧
      ∀ source resolved, drafted = .expression source resolved →
        ∀ n ∈ resolved.nodes, ∀ symbol, n.refers? = some symbol →
          ∃ c, catalog'.get? symbol = some c := by
  cases clause with
  | revert message =>
    cases h
    refine ⟨Table.Extends.refl _, fun _ _ is => ?_⟩
    cases is
  | event name parameter =>
    cases h
    refine ⟨Table.Extends.refl _, fun _ _ is => ?_⟩
    cases is
  | expression source =>
    obtain ⟨e, parsed, h⟩ := bind_eq_ok.1 h
    obtain ⟨⟨resolved, catalog₁⟩, entered, h⟩ := bind_eq_ok.1 h
    cases h
    have run := Scope.resolveInto_of_enter entered
    refine ⟨Scope.extends_resolveInto run, ?_⟩
    rintro _ _ ⟨⟩ n mem symbol refers
    exact Scope.exists_get?_of_resolveInto parsed run mem refers

/-- The catalog only grows, and in the end it has what every expression refers to. -/
theorem extends_resolveAll (h : resolveAll scope catalog clauses = .ok (drafts, catalog')) :
    catalog.Extends catalog' ∧
      ∀ source resolved, .expression source resolved ∈ drafts →
        ∀ n ∈ resolved.nodes, ∀ symbol, n.refers? = some symbol →
          ∃ c, catalog'.get? symbol = some c := by
  induction clauses generalizing catalog drafts with
  | nil =>
    cases h
    refine ⟨Table.Extends.refl _, fun _ _ mem => ?_⟩
    cases mem
  | cons clause clauses ih =>
    rw [resolveAll_cons] at h
    obtain ⟨⟨first, catalog₁⟩, drafted, h⟩ := bind_eq_ok.1 h
    obtain ⟨⟨rest, catalog₂⟩, resolved, h⟩ := bind_eq_ok.1 h
    cases h
    obtain ⟨grown, present⟩ := extends_draft drafted
    obtain ⟨grown', present'⟩ := ih resolved
    refine ⟨grown.trans grown', fun source e mem n inside symbol refers => ?_⟩
    rcases List.mem_cons.1 mem with is | mem
    · -- what the first clause refers to is still there in the end
      obtain ⟨c, found⟩ := present source e is.symm n inside symbol refers
      exact ⟨c, grown'.get?_eq found⟩
    · exact present' source e mem n inside symbol refers

/-! ### Draft by draft -/

namespace EncodesAll

/-- Drafts that are encoded together are encoded one part after the other. -/
theorem of_append (h : EncodesAll registry catalog ps (drafts ++ drafts') effects ps') :
    ∃ front back ps₁, effects = front ++ back ∧ EncodesAll registry catalog ps drafts front ps₁ ∧
      EncodesAll registry catalog ps₁ drafts' back ps' := by
  induction drafts generalizing ps effects with
  | nil => exact ⟨[], effects, ps, rfl, .nil, h⟩
  | cons draft drafts ih =>
    cases h with
    | done rest =>
      obtain ⟨front, back, ps₁, rfl, here, later⟩ := ih rest
      exact ⟨_, back, ps₁, rfl, .done here, later⟩
    | expression encodes streamed normal rest =>
      obtain ⟨front, back, ps₁, rfl, here, later⟩ := ih rest
      exact ⟨_, back, ps₁, rfl, .expression encodes streamed normal here, later⟩

/-- Drafts are encoded in the same way with the catalog as it was, if it had what they refer to. -/
theorem of_extends (h : EncodesAll registry catalog' ps drafts effects ps')
    (grown : catalog.Extends catalog')
    (present : ∀ source resolved, .expression source resolved ∈ drafts →
      ∀ n ∈ resolved.nodes, ∀ symbol, n.refers? = some symbol →
        ∃ c, catalog.get? symbol = some c) :
    EncodesAll registry catalog ps drafts effects ps' := by
  induction h with
  | nil => exact .nil
  | done _ ih =>
    exact .done (ih fun source resolved mem => present source resolved (.tail _ mem))
  | expression encodes streamed normal _ ih =>
    refine .expression (encodes.of_agree ?_) streamed normal
      (ih fun source resolved mem => present source resolved (.tail _ mem))
    intro n mem symbol c refers found
    exact grown.get?_of_present (present _ _ (.head _) n mem symbol refers) found

/-- The relation says what the function does. -/
theorem encodeAll_eq_ok (h : EncodesAll registry catalog ps drafts effects ps') :
    encodeAll registry catalog ps drafts = .ok (effects, ps') := by
  induction h with
  | nil => rfl
  | done _ ih =>
    rw [encodeAll, ih]
    rfl
  | expression encodes streamed normal _ ih =>
    simp only [encodeAll, Expr.encode_of_encodes encodes]
    exact bind_eq_ok.2 ⟨_, streamed, bind_eq_ok.2 ⟨_, normal, bind_eq_ok.2 ⟨_, ih, rfl⟩⟩⟩

end EncodesAll

/-! ### All clauses -/

variable {positive negative appended : List String}

/-- Effects are compiled from what their clauses parse, resolve and encode to. -/
theorem compile_of_encodesAll {clauses clauses' : List Clause}
    (parsed : positive.mapM Clause.parse = .ok clauses)
    (parsed' : negative.mapM Clause.parse = .ok clauses')
    (resolved : resolveAll scope .empty (clauses ++ clauses') = .ok (drafts, catalog))
    (encodes : EncodesAll registry catalog .empty drafts effects ps) :
    compile scope registry positive negative =
      .ok ⟨effects.take clauses.length, effects.drop clauses.length, catalog, ps⟩ := by
  refine bind_eq_ok.2 ⟨_, parsed, bind_eq_ok.2 ⟨_, parsed', bind_eq_ok.2 ⟨_, resolved, ?_⟩⟩⟩
  exact bind_eq_ok.2 ⟨_, encodes.encodeAll_eq_ok, rfl⟩

/-- **Clauses that are appended leave the effects before them as they are.**  Where a rule can be
compiled with further clauses behind its negative ones, it can be compiled without them.  The
positive effects are then the same, the negative effects are the first ones, as many as there were
clauses, and the placeholders, their names and the components stand at the front of the others. -/
theorem compile_append {later : Effects}
    (h : compile scope registry positive (negative ++ appended) = .ok later) :
    ∃ earlier, compile scope registry positive negative = .ok earlier ∧
      earlier.positive = later.positive ∧
      earlier.negative.length = negative.length ∧
      earlier.negative = later.negative.take negative.length ∧
      earlier.placeholders.items <+: later.placeholders.items ∧
      earlier.placeholders.names <+: later.placeholders.names ∧
      earlier.catalog.entries <+: later.catalog.entries := by
  unfold compile at h
  obtain ⟨clauses, parsed, h⟩ := bind_eq_ok.1 h
  obtain ⟨both, parsedBoth, h⟩ := bind_eq_ok.1 h
  obtain ⟨⟨drafts, catalog⟩, resolved, h⟩ := bind_eq_ok.1 h
  obtain ⟨⟨effects, ps⟩, encoded, h⟩ := bind_eq_ok.1 h
  cases h
  -- each step goes through the clauses in order, so it can be cut where the appended ones begin
  rw [List.mapM_append] at parsedBoth
  obtain ⟨clauses', parsed', parsedBoth⟩ := bind_eq_ok.1 parsedBoth
  obtain ⟨more, parsedMore, eq⟩ := bind_eq_ok.1 parsedBoth
  cases eq
  rw [← List.append_assoc, resolveAll_append] at resolved
  obtain ⟨⟨front, catalog₁⟩, resolved₁, resolved⟩ := bind_eq_ok.1 resolved
  obtain ⟨⟨back, catalog₂⟩, resolved₂, eq⟩ := bind_eq_ok.1 resolved
  cases eq
  obtain ⟨effects₁, effects₂, ps₁, rfl, encodes₁, encodes₂⟩ :=
    (encodesAll_of_encodeAll encoded).of_append
  -- the front is encoded with the catalog that it had alone
  have alone :=
    encodes₁.of_extends (extends_resolveAll resolved₂).1 (extends_resolveAll resolved₁).2
  refine ⟨_, compile_of_encodesAll parsed parsed' resolved₁ alone, ?_⟩
  have length : clauses.length + clauses'.length = effects₁.length := by
    rw [← List.length_append]
    exact (drafts_of_resolveAll resolved₁).1.length_eq.trans alone.forall₂_encodedAs.length_eq
  have lengthNegative : (effects₁.drop clauses.length).length = negative.length := by
    rw [List.length_drop, ← length, (mapM_eq_ok_iff.1 parsed').length_eq]
    omega
  have placeholders := encodes₂.placeholders_extend
  refine ⟨?_, lengthNegative, ?_, ?_, ?_, (extends_resolveAll resolved₂).1⟩
  · exact (List.take_append_of_le_length (by omega)).symm
  · show _ = ((effects₁ ++ effects₂).drop clauses.length).take negative.length
    rw [List.drop_append_of_le_length (by omega), List.take_left' lengthNegative]
  · exact (List.IsPrefix.map Prod.snd placeholders).map Prod.fst
  · exact (List.IsPrefix.map Prod.snd placeholders).map Prod.snd

/-- The clause that is appended reads a tracker that is there and brings in three components.  One
of them is only handed to a call, and becomes no placeholder. -/
theorem compile_append_update :
    let scope : Scope :=
      ⟨⟨none, [⟨"to", "address", .address⟩]⟩,
        (((default : SymbolTables).addTracker "x" ⟨1, .uint256, none⟩).addTracker "y"
          ⟨2, .uint256, none⟩).addForeignCall "fee" ⟨1, .uint256⟩, .error⟩
    ∃ earlier later,
      compile scope .legacy ["revert(\"no\")"] ["TRU:x += 1"] = .ok earlier ∧
      compile scope .legacy ["revert(\"no\")"] (["TRU:x += 1"] ++ ["TRU:y = TR:x + FC:fee(to)"]) =
        .ok later ∧
      earlier.catalog.size = 1 ∧ later.catalog.size = 4 ∧ later.placeholders.size = 3 ∧
      earlier.negative = later.negative.take 1 ∧
      earlier.placeholders.names <+: later.placeholders.names := by
  intro scope
  -- only the longer list is compiled: the theorem compiles the shorter one
  obtain ⟨later, compiled, sizes⟩ := exists_ok_of_any
    (show (compile scope .legacy ["revert(\"no\")"]
      (["TRU:x += 1"] ++ ["TRU:y = TR:x + FC:fee(to)"])).toOption.any (fun later =>
        later.catalog.size == 4 && later.placeholders.size == 3) by decide +kernel)
  rw [Bool.and_eq_true, beq_iff_eq, beq_iff_eq] at sizes
  obtain ⟨earlier, alone, -, -, negative, -, names, -⟩ := compile_append compiled
  have one : (compile scope .legacy ["revert(\"no\")"] ["TRU:x += 1"]).toOption.all
      (fun earlier => earlier.catalog.size == 1) := by decide +kernel
  rw [alone] at one
  exact ⟨earlier, later, alone, compiled, beq_iff_eq.1 one, sizes.1, sizes.2, negative, names⟩

end Effects

end RuleCodec
