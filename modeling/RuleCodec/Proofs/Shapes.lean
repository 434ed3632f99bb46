/-
RuleCodec/Proofs/Shapes.lean

Which expressions can be encoded once they are resolved.

A resolved expression refers to nothing that its catalog lacks, an argument
aside that stood in the expression before and that the calling function does
not declare.  What else can be wrong with it is its shape: a key where none
belongs or none where one does, an update of something that is no tracker, or
an update inside another (`Expr.WellShaped`).  `Scope.encode_eq_ok_iff` says
that the expressions that can be encoded are those that are well shaped and
have declared arguments only, and which of the two is reported of the others.

Design.  Being well shaped is a condition on the parts of an expression one by
one, which is how it is meant to be read.  What is reported depends on the
order in which the parts are looked at (`Expr.visits`), so the encoder is
described by the parts it goes through: it `Checks` them one after the other
and stops at the first that is refused.  The two descriptions are compared
along the constructors, on the expression alone.
-/
import RuleCodec.Proofs.Cataloguing
import RuleCodec.Proofs.Catalogs
import RuleCodec.Proofs.Replaying

namespace RuleCodec

/-! ### Shapes -/

/-- The name is that of a tracker without keys. -/
def Catalog.Plain (catalog : Catalog) (name : String) : Prop :=
  ∃ c, catalog.get? (.tracker name) = some c ∧ c.keyType = none

/-- The name is that of a tracker with keys. -/
def Catalog.TakesKey (catalog : Catalog) (name : String) : Prop :=
  ∃ c, catalog.get? (.tracker name) = some c ∧ c.keyType.isSome

section

variable {catalog : Catalog} {name : String} {c : Component}

/-- A tracker that is in the catalog takes no key if its component has none. -/
theorem Catalog.plain_iff (found : catalog.get? (.tracker name) = some c) :
    catalog.Plain name ↔ c.keyType = none := by
  simp [Plain, found]

/-- A tracker that is in the catalog takes a key if its component has one. -/
theorem Catalog.takesKey_iff (found : catalog.get? (.tracker name) = some c) :
    catalog.TakesKey name ↔ c.keyType.isSome := by
  simp [TakesKey, found]

end

namespace Expr

/-- An expression and its parts, those in the arguments of foreign calls aside. -/
def evaluated : Expr → List Expr
  | mapped ref key => mapped ref key :: evaluated key
  | binary op left right => binary op left right :: (evaluated left ++ evaluated right)
  | not operand => not operand :: evaluated operand
  | e => [e]

/-- Whether an expression is a tracker without a key. -/
def isTracker : Expr → Bool
  | tracker _ => true
  | _ => false

/-- The trackers that occur without a key and not as the target of an update, arguments of foreign
calls aside. -/
def reads : Expr → List TrackerRef
  | tracker ref => [ref]
  | mapped _ key => reads key
  | binary op left right =>
    (if op.isUpdate && left.isTracker then [] else reads left) ++ reads right
  | not operand => reads operand
  | _ => []

/-- What an update can store into. -/
inductive Target (catalog : Catalog) : Expr → Prop
  | tracker {ref : TrackerRef} : catalog.Plain ref.name → Target catalog (.tracker ref)
  | mapped {ref : TrackerRef} {key : Expr} :
      catalog.TakesKey ref.name → Target catalog (.mapped ref key)

/-- No update occurs in the expression, arguments of foreign calls aside. -/
def UpdatesNothing (e : Expr) : Prop :=
  ∀ n ∈ e.evaluated, n.isUpdate = false

/-- Keys stand where they belong, updates store into trackers, and no update stands in the key or
the right operand of another. -/
structure WellShaped (catalog : Catalog) (e : Expr) : Prop where
  reads : ∀ ref ∈ e.reads, catalog.Plain ref.name
  mapped : ∀ ref key, .mapped ref key ∈ e.evaluated → catalog.TakesKey ref.name
  targets : ∀ op left right, .binary op left right ∈ e.evaluated → op.isUpdate →
    left.Target catalog
  alone : ∀ op left right, .binary op left right ∈ e.evaluated → op.isUpdate →
    right.UpdatesNothing ∧ ∀ ref key, left = .mapped ref key → key.UpdatesNothing

/-- What being well shaped asks of one part. -/
def Fits (catalog : Catalog) : Expr → Prop
  | mapped ref _ => catalog.TakesKey ref.name
  | binary op left right => op.isUpdate → left.Target catalog ∧ right.UpdatesNothing ∧
      ∀ ref key, left = .mapped ref key → key.UpdatesNothing
  | _ => True

/-- An expression is well shaped if its trackers are read without keys and each of its parts
fits. -/
theorem wellShaped_iff {catalog : Catalog} {e : Expr} :
    e.WellShaped catalog ↔
      (∀ ref ∈ e.reads, catalog.Plain ref.name) ∧ ∀ n ∈ e.evaluated, n.Fits catalog := by
  constructor
  · intro h
    refine ⟨h.reads, fun n mem => ?_⟩
    cases n with
    | mapped ref key => exact h.mapped ref key mem
    | binary op left right =>
      exact fun isUpdate =>
        ⟨h.targets op left right mem isUpdate, h.alone op left right mem isUpdate⟩
    | _ => trivial
  · rintro ⟨reads, fits⟩
    refine ⟨reads, fun ref key mem => fits _ mem, fun op left right mem isUpdate => ?_,
      fun op left right mem isUpdate => ?_⟩
    · exact (fits _ mem isUpdate).1
    · exact (fits _ mem isUpdate).2

section

variable (ref : TrackerRef) (op : BinaryOp) (key left right operand : Expr)

@[simp] theorem evaluated_tracker : (tracker ref).evaluated = [tracker ref] := rfl

@[simp] theorem evaluated_mapped : (mapped ref key).evaluated = mapped ref key :: key.evaluated :=
  rfl

@[simp] theorem evaluated_binary : (binary op left right).evaluated =
    binary op left right :: (left.evaluated ++ right.evaluated) := rfl

@[simp] theorem evaluated_not : (not operand).evaluated = not operand :: operand.evaluated := rfl

@[simp] theorem reads_tracker : (tracker ref).reads = [ref] := rfl

@[simp] theorem reads_mapped : (mapped ref key).reads = key.reads := rfl

@[simp] theorem reads_binary : (binary op left right).reads =
    (if op.isUpdate && left.isTracker then [] else left.reads) ++ right.reads := rfl

@[simp] theorem reads_not : (not operand).reads = operand.reads := rfl

end

variable {catalog : Catalog} {ref : TrackerRef} {op : BinaryOp} {key left right operand : Expr}

theorem target_tracker : (tracker ref).Target catalog ↔ catalog.Plain ref.name := by
  constructor
  · intro h
    cases h with
    | tracker plain => exact plain
  · exact .tracker

theorem target_mapped : (mapped ref key).Target catalog ↔ catalog.TakesKey ref.name := by
  constructor
  · intro h
    cases h with
    | mapped takesKey => exact takesKey
  · exact .mapped

theorem wellShaped_mapped :
    (mapped ref key).WellShaped catalog ↔ catalog.TakesKey ref.name ∧ key.WellShaped catalog := by
  simp only [wellShaped_iff, reads_mapped, evaluated_mapped, List.forall_mem_cons, Fits]
  tauto

theorem wellShaped_not : (not operand).WellShaped catalog ↔ operand.WellShaped catalog := by
  simp only [wellShaped_iff, reads_not, evaluated_not, List.forall_mem_cons, Fits, true_and]

/-- An operation that is no update is well shaped if its operands are. -/
theorem wellShaped_binary (plain : op.isUpdate = false) :
    (binary op left right).WellShaped catalog ↔
      left.WellShaped catalog ∧ right.WellShaped catalog := by
  simp only [wellShaped_iff, reads_binary, evaluated_binary, plain, Bool.false_and,
    Bool.false_eq_true, if_false, List.forall_mem_cons, List.forall_mem_append, Fits, false_implies,
    true_and]
  tauto

/-- An update of a tracker needs a value, and no update in its operand. -/
theorem wellShaped_update (isUpdate : op.isUpdate) :
    (binary op (tracker ref) right).WellShaped catalog ↔
      catalog.Plain ref.name ∧ right.WellShaped catalog ∧ right.UpdatesNothing := by
  simp only [wellShaped_iff, reads_binary, evaluated_binary, evaluated_tracker, isUpdate, isTracker,
    Bool.and_self, if_true, List.nil_append, List.singleton_append, List.forall_mem_cons, Fits,
    target_tracker, true_and, true_implies, reduceCtorEq, false_implies, implies_true, and_true]
  tauto

/-- An update of an entry needs a key, and no update in the key or the operand. -/
theorem wellShaped_updateMapped (isUpdate : op.isUpdate) :
    (binary op (mapped ref key) right).WellShaped catalog ↔
      catalog.TakesKey ref.name ∧ (key.WellShaped catalog ∧ key.UpdatesNothing) ∧
        right.WellShaped catalog ∧ right.UpdatesNothing := by
  have behind : (∀ ref' key', mapped ref key = mapped ref' key' → key'.UpdatesNothing) ↔
      key.UpdatesNothing := by
    constructor
    · exact fun h => h ref key rfl
    · rintro h ref' key' ⟨⟩
      exact h
  simp only [wellShaped_iff, reads_binary, reads_mapped, evaluated_binary, evaluated_mapped,
    isUpdate, isTracker, Bool.and_false, Bool.false_eq_true, if_false, List.forall_mem_append,
    List.forall_mem_cons, List.cons_append, Fits, target_mapped, behind, true_implies]
  tauto

theorem wellShaped_tracker : (tracker ref).WellShaped catalog ↔ catalog.Plain ref.name := by
  simp only [wellShaped_iff, reads_tracker, evaluated_tracker, List.forall_mem_singleton, Fits,
    and_true]

/-- Whether an expression is a literal, or a reference that is no tracker. -/
def isLeaf : Expr → Bool
  | mapped .. | binary .. | not _ | tracker _ => false
  | _ => true

/-- Leaves have no shape to go wrong. -/
theorem wellShaped_of_isLeaf {e : Expr} (h : e.isLeaf) : e.WellShaped catalog := by
  rw [wellShaped_iff]
  cases e with
  | mapped | binary | not | tracker => cases h
  | _ => exact ⟨List.forall_mem_nil _, List.forall_mem_singleton.2 trivial⟩

theorem updatesNothing_of_isLeaf {e : Expr} (h : e.isLeaf ∨ e.isTracker) : e.UpdatesNothing := by
  cases e with
  | mapped | binary | not => simp [isLeaf, isTracker] at h
  | _ => exact List.forall_mem_singleton.2 rfl

theorem updatesNothing_mapped : (mapped ref key).UpdatesNothing ↔ key.UpdatesNothing := by
  simp only [UpdatesNothing, evaluated_mapped, List.forall_mem_cons, isUpdate, true_and]

theorem updatesNothing_not : (not operand).UpdatesNothing ↔ operand.UpdatesNothing := by
  simp only [UpdatesNothing, evaluated_not, List.forall_mem_cons, isUpdate, true_and]

/-- An operation updates nothing if it is no update and its operands update nothing. -/
theorem updatesNothing_binary : (binary op left right).UpdatesNothing ↔
    op.isUpdate = false ∧ left.UpdatesNothing ∧ right.UpdatesNothing := by
  simp only [UpdatesNothing, evaluated_binary, List.forall_mem_cons, List.forall_mem_append,
    isUpdate]

end Expr

/-! ### The order of encoding -/

namespace Expr

/-- The parts of an expression in the order in which they are encoded, each with whether it stands
in an update; arguments of foreign calls aside.  An update is looked at before its operands, and
everything else after them. -/
def visits (inside : Bool) : Expr → List (Bool × Expr)
  | mapped ref key => visits inside key ++ [(inside, mapped ref key)]
  | not operand => visits inside operand ++ [(inside, not operand)]
  | binary op left right =>
    if op.isUpdate then
      (inside, binary op left right) :: (visits true left ++ visits true right)
    else visits inside left ++ visits inside right ++ [(inside, binary op left right)]
  | e => [(inside, e)]

section

variable (inside : Bool) (name : String) (ref : TrackerRef) (op : BinaryOp)
  (key left right operand : Expr)

theorem visits_argument : (argument name).visits inside = [(inside, argument name)] := rfl

theorem visits_tracker : (tracker ref).visits inside = [(inside, tracker ref)] := rfl

theorem visits_mapped : (mapped ref key).visits inside =
    key.visits inside ++ [(inside, mapped ref key)] := rfl

theorem visits_not : (not operand).visits inside =
    operand.visits inside ++ [(inside, not operand)] := rfl

theorem visits_binary : (binary op left right).visits inside =
    if op.isUpdate then (inside, binary op left right) :: (left.visits true ++ right.visits true)
    else left.visits inside ++ right.visits inside ++ [(inside, binary op left right)] := rfl

end

/-- What is reported of a part that is refused. -/
inductive Blames : Expr → Error → Prop
  | argument {name : String} : Blames (.argument name) (.unresolved name .argument)
  | shape {n : Expr} {fault : InvalidFault} :
      (∀ name, n ≠ .argument name) → Blames n (.invalid fault)

end Expr

/-- What is asked of a part of an expression, given whether it stands in an update: an argument is
declared, keys stand where they belong, and an update stores into a tracker and stands in no
other. -/
def Catalog.Accepts (catalog : Catalog) (declared : String → Prop) : Bool × Expr → Prop
  | (_, .argument name) => declared name
  | (_, .tracker ref) => catalog.Plain ref.name
  | (_, .mapped ref _) => catalog.TakesKey ref.name
  | (inside, .binary op left _) => op.isUpdate → left.Target catalog ∧ inside = false
  | _ => True

/-- The first of some parts that is not accepted. -/
def FirstRefused (accepts : Bool × Expr → Prop) (parts : List (Bool × Expr))
    (v : Bool × Expr) : Prop :=
  ¬ accepts v ∧ ∃ before after, parts = before ++ v :: after ∧ ∀ u ∈ before, accepts u

namespace FirstRefused

variable {accepts : Bool × Expr → Prop} {parts others : List (Bool × Expr)} {v w : Bool × Expr}

/-- The first part that is refused stays first when others follow. -/
theorem append_left (h : FirstRefused accepts parts v) :
    FirstRefused accepts (parts ++ others) v := by
  obtain ⟨refused, before, after, rfl, accepted⟩ := h
  exact ⟨refused, before, after ++ others, by simp, accepted⟩

/-- It is the first one behind parts that are accepted. -/
theorem append_right (all : ∀ u ∈ parts, accepts u) (h : FirstRefused accepts others v) :
    FirstRefused accepts (parts ++ others) v := by
  obtain ⟨refused, before, after, rfl, accepted⟩ := h
  refine ⟨refused, parts ++ before, after, by simp, fun u mem => ?_⟩
  rcases List.mem_append.1 mem with inParts | inBefore
  · exact all u inParts
  · exact accepted u inBefore

/-- The first part that is refused is one of the parts. -/
theorem mem (h : FirstRefused accepts parts v) : v ∈ parts := by
  obtain ⟨-, before, after, rfl, -⟩ := h
  simp

open Classical in
/-- There is one first part. -/
theorem unique (h : FirstRefused accepts parts v) (h' : FirstRefused accepts parts w) : v = w := by
  have found : ∀ u, FirstRefused accepts parts u →
      parts.find? (fun n => decide (¬ accepts n)) = some u := by
    rintro u ⟨refused, before, after, eq, accepted⟩
    exact List.find?_eq_some_iff_append.2 ⟨by simpa using refused, before, after, eq,
      by simpa using accepted⟩
  exact Option.some.inj ((found v h).symm.trans (found w h'))

end FirstRefused

section

variable {catalog : Catalog} {declared : String → Prop} {inside : Bool} {op : BinaryOp}
  {ref : TrackerRef} {key left right operand : Expr}

/-- No part of the expression is refused. -/
def Expr.Accepted (catalog : Catalog) (declared : String → Prop) (inside : Bool) (e : Expr) :
    Prop :=
  ∀ v ∈ e.visits inside, catalog.Accepts declared v

/-- An entry is accepted after its key. -/
theorem Expr.accepted_mapped : (mapped ref key).Accepted catalog declared inside ↔
    key.Accepted catalog declared inside ∧ catalog.TakesKey ref.name := by
  rw [Accepted, visits_mapped, List.forall_mem_append, List.forall_mem_singleton]
  rfl

theorem Expr.accepted_not : (not operand).Accepted catalog declared inside ↔
    operand.Accepted catalog declared inside := by
  rw [Accepted, visits_not, List.forall_mem_append, List.forall_mem_singleton]
  exact and_iff_left trivial

/-- An operation that is no update is accepted with its operands. -/
theorem Expr.accepted_binary (plain : op.isUpdate = false) :
    (binary op left right).Accepted catalog declared inside ↔
      left.Accepted catalog declared inside ∧ right.Accepted catalog declared inside := by
  have isUpdate : ¬ op.isUpdate := Bool.eq_false_iff.1 plain
  rw [Accepted, visits_binary, if_neg isUpdate, List.forall_mem_append, List.forall_mem_append,
    List.forall_mem_singleton]
  exact and_iff_left fun h => absurd h isUpdate

/-- An update is checked before its operands, which are inside of it. -/
theorem Expr.accepted_update (isUpdate : op.isUpdate) :
    (binary op left right).Accepted catalog declared inside ↔
      (left.Target catalog ∧ inside = false) ∧ left.Accepted catalog declared true ∧
        right.Accepted catalog declared true := by
  rw [Accepted, visits_binary, if_pos isUpdate, List.forall_mem_cons, List.forall_mem_append]
  exact and_congr_left' (forall_prop_of_true isUpdate)

/-- Nothing is refused exactly if the expression is well shaped, updates nothing where it stands in
an update, and has declared arguments only. -/
theorem Expr.accepted_iff (e : Expr) (inside : Bool) :
    e.Accepted catalog declared inside ↔
      e.WellShaped catalog ∧ (inside → e.UpdatesNothing) ∧
        ∀ name, .argument name ∈ e.evaluated → declared name := by
  cases e with
  | number | address | text | bytes | boolean | identifier | foreignCall | global =>
    refine iff_of_true (List.forall_mem_singleton.2 trivial) ⟨wellShaped_of_isLeaf rfl,
      fun _ => updatesNothing_of_isLeaf (.inl rfl), fun name mem => ?_⟩
    cases List.mem_singleton.1 mem
  | argument name =>
    have leaf : (argument name).isLeaf := rfl
    simp [Accepted, visits_argument, Catalog.Accepts, evaluated, wellShaped_of_isLeaf leaf,
      updatesNothing_of_isLeaf (.inl leaf)]
  | tracker ref =>
    have alone : (tracker ref).UpdatesNothing := updatesNothing_of_isLeaf (.inr rfl)
    simp [Accepted, visits_tracker, Catalog.Accepts, wellShaped_tracker, alone]
  | mapped ref key =>
    simp only [accepted_mapped, key.accepted_iff, wellShaped_mapped, updatesNothing_mapped,
      evaluated_mapped, List.mem_cons, reduceCtorEq, false_or]
    tauto
  | not operand =>
    simp only [accepted_not, operand.accepted_iff, wellShaped_not, updatesNothing_not,
      evaluated_not, List.mem_cons, reduceCtorEq, false_or]
  | binary op left right =>
    have arguments : (∀ name, .argument name ∈ (binary op left right).evaluated → declared name) ↔
        (∀ name, .argument name ∈ left.evaluated → declared name) ∧
          ∀ name, .argument name ∈ right.evaluated → declared name := by
      simp only [evaluated_binary, List.mem_cons, reduceCtorEq, false_or, List.mem_append,
        or_imp, forall_and]
    rw [arguments, updatesNothing_binary]
    by_cases isUpdate : op.isUpdate
    · -- what stands in an update updates nothing, and an update that is accepted stands in none
      rw [accepted_update isUpdate, left.accepted_iff, right.accepted_iff]
      cases left with
      | tracker ref =>
        rw [target_tracker, wellShaped_update isUpdate, wellShaped_tracker]
        have alone : (tracker ref).UpdatesNothing := updatesNothing_of_isLeaf (.inr rfl)
        cases inside <;> simp [alone, isUpdate]
        tauto
      | mapped ref key =>
        rw [target_mapped, wellShaped_updateMapped isUpdate, wellShaped_mapped,
          updatesNothing_mapped]
        cases inside <;> simp [isUpdate]
        tauto
      | _ =>
        -- nothing else can be updated
        constructor
        · rintro ⟨⟨⟨⟩, _⟩, _⟩
        · rintro ⟨shaped, _⟩
          cases shaped.targets op _ right List.mem_cons_self isUpdate
    · have plain : op.isUpdate = false := Bool.eq_false_iff.2 isUpdate
      rw [accepted_binary plain, left.accepted_iff, right.accepted_iff, wellShaped_binary plain]
      tauto

end

/-! ### What the encoder goes through -/

/-- The catalog has what the expression refers to, arguments of foreign calls aside, and of the
arguments those that are declared; no bare name is left, and only trackers have keys. -/
structure Catalog.Serves (catalog : Catalog) (declared : String → Prop) (e : Expr) : Prop where
  unnamed : ∀ name, .identifier name ∉ e.evaluated
  argument : ∀ name, .argument name ∈ e.evaluated →
    (declared name ↔ ∃ c, catalog.get? (.argument name) = some c)
  holds : ∀ n ∈ e.evaluated, ∀ symbol, n.refers? = some symbol → symbol.source ≠ .argument →
    ∃ c, catalog.get? symbol = some c
  keyType : ∀ symbol c, catalog.get? symbol = some c → symbol.source ≠ .tracker → c.keyType = none

namespace Catalog.Serves

variable {catalog : Catalog} {declared : String → Prop} {e n : Expr}

/-- A catalog that serves an expression serves its parts. -/
theorem part (h : catalog.Serves declared e) (inside : n.evaluated ⊆ e.evaluated) :
    catalog.Serves declared n :=
  ⟨fun name mem => h.unnamed name (inside mem), fun name mem => h.argument name (inside mem),
    fun m mem => h.holds m (inside mem), h.keyType⟩

theorem left {op : BinaryOp} {left right : Expr}
    (h : catalog.Serves declared (.binary op left right)) : catalog.Serves declared left :=
  h.part (List.subset_cons_of_subset _ (List.subset_append_left _ _))

theorem right {op : BinaryOp} {left right : Expr}
    (h : catalog.Serves declared (.binary op left right)) : catalog.Serves declared right :=
  h.part (List.subset_cons_of_subset _ (List.subset_append_right _ _))

/-- If the arguments that occur are declared, the catalog has them all. -/
theorem of_declared (h : catalog.Serves declared e)
    (all : ∀ name, .argument name ∈ e.evaluated → declared name) :
    catalog.Serves (fun _ => True) e where
  unnamed := h.unnamed
  argument name mem := iff_of_true trivial ((h.argument name mem).1 (all name mem))
  holds := h.holds
  keyType := h.keyType

end Catalog.Serves

namespace Encoder

variable {α β : Type} {catalog : Catalog} {accepts : Bool × Expr → Prop}
  {parts others : List (Bool × Expr)}

/-- The encoding goes through some parts in order, and stops at the first that is not accepted. -/
structure Checks (accepts : Bool × Expr → Prop) (x : Encoder α) (parts : List (Bool × Expr)) :
    Prop where
  accepted : ∀ {ps a ps'}, x ps = (.ok a, ps') → ∀ v ∈ parts, accepts v
  refused : ∀ {ps err ps'}, x ps = (.error err, ps') →
    ∃ v, FirstRefused accepts parts v ∧ v.2.Blames err

/-- A step that does nothing checks parts that are all accepted. -/
theorem checks_pure (a : α) (all : ∀ v ∈ parts, accepts v) : Checks accepts (pure a) parts where
  accepted _ := all
  refused h := by
    have fst : Except.ok a = Except.error _ := congrArg Prod.fst h
    cases fst

/-- So does interning. -/
theorem checks_intern (c : Component) (all : ∀ v ∈ parts, accepts v) :
    Checks accepts (intern c) parts where
  accepted _ := all
  refused {ps} _ _ h := by
    have fst : Except.ok (ps.intern c).1 = Except.error _ := congrArg Prod.fst h
    cases fst

/-- An error is that of the part that it is raised for, if nothing before is refused. -/
theorem checks_throw {err : Error} {v : Bool × Expr} (refused : ¬ accepts v) (is : v.2.Blames err) :
    Checks accepts (throw err : Encoder α) (v :: others) where
  accepted h := by
    have fst : Except.error err = Except.ok _ := congrArg Prod.fst h
    cases fst
  refused h := by
    have fst : (Except.error err : Except Error α) = Except.error _ := congrArg Prod.fst h
    cases fst
    exact ⟨v, ⟨refused, [], others, rfl, List.forall_mem_nil _⟩, is⟩

/-- What comes next goes through its parts behind those that were accepted. -/
theorem Checks.bind {x : Encoder α} {f : α → Encoder β} (h : Checks accepts x parts)
    (later : (∀ v ∈ parts, accepts v) → ∀ a, Checks accepts (f a) others) :
    Checks accepts (x >>= f) (parts ++ others) where
  accepted {ps _ _} done := by
    rw [bind_apply] at done
    rcases run : x ps with ⟨err | a, ps₁⟩
    · rw [run] at done
      cases done
    · rw [run] at done
      have first := h.accepted run
      exact List.forall_mem_append.2 ⟨first, (later first a).accepted done⟩
  refused {ps _ _} fails := by
    rw [bind_apply] at fails
    rcases run : x ps with ⟨err | a, ps₁⟩
    · rw [run] at fails
      cases fails
      -- the first step fails, so what it refuses is first
      obtain ⟨v, first, is⟩ := h.refused run
      exact ⟨v, first.append_left, is⟩
    · rw [run] at fails
      -- it succeeds, so all its parts are accepted and the later step decides
      have before := h.accepted run
      obtain ⟨v, first, is⟩ := (later before a).refused fails
      exact ⟨v, first.append_right before, is⟩

theorem throw_bind (err : Error) (f : α → Encoder β) : (throw err >>= f) = throw err := by
  funext ps
  rfl

theorem component_of_get? {symbol : Symbol} {c : Component} (found : catalog.get? symbol = some c)
    (missing : Error) : component catalog symbol missing = pure c := by
  rw [component, found]

theorem component_of_none {symbol : Symbol} (none : catalog.get? symbol = none)
    (missing : Error) : component catalog symbol missing = throw missing := by
  rw [component, none]

/-- What is done with the result is not checked. -/
theorem Checks.bind_pure {x : Encoder α} (h : Checks accepts x parts) (f : α → β) :
    Checks accepts (x >>= fun a => pure (f a)) parts := by
  have both := h.bind fun _ a => checks_pure (f a) (List.forall_mem_nil accepts)
  rwa [List.append_nil] at both

/-- Reading goes through the one part that it is for. -/
theorem checks_read {symbol : Symbol} {text : List Char} {kind : SymbolKind} {slot : Nat}
    {v : Bool × Expr}
    (missing : catalog.get? symbol = none →
      ¬ accepts v ∧ v.2.Blames (.unresolved (String.ofList text) kind))
    (keyed : ∀ c, catalog.get? symbol = some c → c.keyType.isSome →
      ¬ accepts v ∧ ∀ fault, v.2.Blames (.invalid fault))
    (plain : ∀ c, catalog.get? symbol = some c → c.keyType = none → accepts v) :
    Checks accepts (read catalog symbol text kind slot) [v] := by
  unfold read
  cases found : catalog.get? symbol with
  | none =>
    obtain ⟨refused, is⟩ := missing found
    rw [component_of_none found, throw_bind]
    exact checks_throw refused is
  | some c =>
    rw [component_of_get? found, pure_bind]
    split
    · -- the tracker takes a key, and is read without one
      rename_i keyType takes
      obtain ⟨refused, is⟩ := keyed c found (by rw [takes]; rfl)
      exact checks_throw refused (is _)
    · rename_i takes
      exact (checks_intern c (List.forall_mem_singleton.2 (plain c found takes))).bind_pure _

/-- The target of an update is looked at for the update. -/
theorem checks_target {outer : Option String} {name : String} {keyed : Bool} {v : Bool × Expr}
    (holds : ∃ c, catalog.get? (.tracker name) = some c)
    (accepts_iff : accepts v ↔
      (∃ c, catalog.get? (.tracker name) = some c ∧ c.keyType.isSome = keyed) ∧
        outer.isSome = false)
    (is : ∀ fault, v.2.Blames (.invalid fault)) :
    Checks accepts (target catalog outer name keyed) [v] := by
  obtain ⟨c, found⟩ := holds
  unfold target
  cases outer with
  | some around =>
    -- an update inside another is refused, whatever its tracker takes
    exact checks_throw (fun accepted => Bool.noConfusion (accepts_iff.1 accepted).2) (is _)
  | none =>
    simp only [tracker]
    rw [component_of_get? found, pure_bind]
    split
    · rename_i shape
      exact checks_pure c (List.forall_mem_singleton.2 (accepts_iff.2 ⟨⟨c, found, shape⟩, rfl⟩))
    · rename_i shape
      refine checks_throw (fun accepted => ?_) (is _)
      obtain ⟨⟨c', found', shape'⟩, -⟩ := accepts_iff.1 accepted
      cases found.symm.trans found'
      exact shape shape'

/-- The encoder goes through the parts of an expression in the order of `Expr.visits`. -/
theorem checks_expression {declared : String → Prop} (e : Expr) {outer : Option String}
    {slot : Nat} (serves : catalog.Serves declared e) :
    Checks (catalog.Accepts declared) (expression catalog outer slot e)
      (e.visits outer.isSome) := by
  -- one case for each constructor, in which the parts are listed as the encoder meets them
  cases e with
  | number | address | text | bytes | boolean =>
    exact checks_pure _ (List.forall_mem_singleton.2 trivial)
  | identifier name =>
    -- no bare name is left
    exact absurd List.mem_cons_self (serves.unnamed name)
  | argument name =>
    have known := serves.argument name List.mem_cons_self
    refine checks_read (fun none => ⟨fun is => ?_, ?_⟩) (fun c found takes => ?_)
      fun c found _ => ?_
    · obtain ⟨c, found⟩ := known.1 is
      cases none.symm.trans found
    · rw [show String.ofList (Expr.argument name).spell = name from String.ofList_toList]
      exact .argument
    · rw [serves.keyType _ c found (by simp [Symbol.source])] at takes
      cases takes
    · exact known.2 ⟨c, found⟩
  | tracker ref =>
    obtain ⟨c, found⟩ := serves.holds _ List.mem_cons_self _ rfl (by simp [Symbol.source])
    refine checks_read (fun none => ?_)
      (fun c found takes => ⟨fun plain => ?_, fun _ => .shape (by simp)⟩)
      fun c found plain => (Catalog.plain_iff found).2 plain
    · cases none.symm.trans found
    · rw [(Catalog.plain_iff found).1 plain] at takes
      cases takes
  | foreignCall | global =>
    obtain ⟨c, found⟩ := serves.holds _ List.mem_cons_self _ rfl (by simp [Symbol.source])
    refine checks_read (fun none => ?_) (fun c found takes => ?_) fun _ _ _ => trivial
    · cases none.symm.trans found
    · rw [serves.keyType _ c found (by simp [Symbol.source])] at takes
      cases takes
  | mapped ref key =>
    obtain ⟨c, found⟩ := serves.holds _ List.mem_cons_self _ rfl (by simp [Symbol.source])
    rw [expression, Expr.visits_mapped]
    refine (checks_expression key (serves.part (List.subset_cons_self _ _))).bind fun _ k => ?_
    rw [tracker, component_of_get? found, pure_bind]
    split
    · rename_i plain
      rw [throw_bind]
      refine checks_throw (fun accepted => ?_) (.shape (by simp))
      have takes := (Catalog.takesKey_iff found).1 accepted
      rw [Option.isNone_iff_eq_none.1 plain] at takes
      cases takes
    · rename_i takes
      rw [Option.isNone_iff_eq_none, ← ne_eq, Option.ne_none_iff_isSome] at takes
      have accepted := (Catalog.takesKey_iff found).2 takes
      exact (checks_intern c (List.forall_mem_singleton.2 accepted)).bind_pure _
  | not operand =>
    rw [expression, Expr.visits_not]
    exact (checks_expression operand (serves.part (List.subset_cons_self _ _))).bind
      fun _ _ => checks_pure _ (List.forall_mem_singleton.2 trivial)
  | binary op left right =>
    rw [Expr.visits_binary]
    unfold expression
    by_cases isUpdate : op.isUpdate
    · rw [if_pos isUpdate, if_pos isUpdate]
      cases left with
      | tracker ref =>
        have accepts_iff :
            catalog.Accepts declared (outer.isSome, .binary op (.tracker ref) right) ↔
              (∃ c, catalog.get? (.tracker ref.name) = some c ∧ c.keyType.isSome = false) ∧
                outer.isSome = false := by
          simp [Catalog.Accepts, isUpdate, Expr.target_tracker, Catalog.Plain]
        refine (checks_target (serves.left.holds _ List.mem_cons_self _ rfl
          (by simp [Symbol.source])) accepts_iff fun _ => .shape (by simp)).bind fun all c => ?_
        have target := (List.forall_mem_singleton.1 all isUpdate).1
        refine (checks_intern c (List.forall_mem_singleton.2
          (Expr.target_tracker.1 target))).bind fun _ _ => ?_
        exact (checks_expression right serves.right).bind_pure _
      | mapped ref key =>
        have accepts_iff :
            catalog.Accepts declared (outer.isSome, .binary op (.mapped ref key) right) ↔
              (∃ c, catalog.get? (.tracker ref.name) = some c ∧ c.keyType.isSome = true) ∧
                outer.isSome = false := by
          simp [Catalog.Accepts, isUpdate, Expr.target_mapped, Catalog.TakesKey]
        rw [Expr.visits_mapped, List.append_assoc, ← List.singleton_append]
        refine (checks_target (serves.left.holds _ List.mem_cons_self _ rfl
          (by simp [Symbol.source])) accepts_iff fun _ => .shape (by simp)).bind fun all c => ?_
        have target := (List.forall_mem_singleton.1 all isUpdate).1
        refine (checks_expression key (serves.left.part (List.subset_cons_self _ _))).bind
          fun _ k => ?_
        refine (checks_intern c (List.forall_mem_singleton.2
          (Expr.target_mapped.1 target))).bind fun _ _ => ?_
        exact (checks_expression right serves.right).bind_pure _
      | _ =>
        -- nothing else can be updated
        refine checks_throw (fun accepted => ?_) (.shape (by simp))
        cases (accepted isUpdate).1
    · rw [if_neg isUpdate, if_neg isUpdate, List.append_assoc]
      refine (checks_expression left serves.left).bind fun _ l => ?_
      refine (checks_expression right serves.right).bind fun _ r => ?_
      exact checks_pure _ (List.forall_mem_singleton.2 fun update => absurd update isUpdate)

end Encoder

namespace Expr

variable {catalog : Catalog} {declared : String → Prop} {e : Expr}

/-- An expression is refused for the first of its parts that is not accepted. -/
theorem exists_refused_of_encode (serves : catalog.Serves declared e) {ps : Placeholders}
    {err : Error} (fails : (e.encode catalog ps).1 = .error err) :
    ∃ v, FirstRefused (catalog.Accepts declared) (e.visits false) v ∧ v.2.Blames err := by
  unfold encode at fails
  rcases run : Encoder.expression catalog none 0 e ps with ⟨err' | code, ps'⟩
  · rw [run] at fails
    cases fails
    exact (Encoder.checks_expression e serves).refused run
  · rw [run] at fails
    cases fails

/-- An expression can be encoded exactly if nothing in it is refused. -/
theorem encode_eq_ok_iff_accepted (serves : catalog.Serves declared e) (ps : Placeholders) :
    (∃ instructions, (e.encode catalog ps).1 = .ok instructions) ↔
      e.Accepted catalog declared false := by
  constructor
  · rintro ⟨instructions, done⟩
    unfold encode at done
    rcases run : Encoder.expression catalog none 0 e ps with ⟨err | code, ps'⟩
    · rw [run] at done
      cases done
    · exact (Encoder.checks_expression e serves).accepted run
  · intro accepted
    cases result : (e.encode catalog ps).1 with
    | ok instructions => exact ⟨instructions, rfl⟩
    | error err =>
      obtain ⟨v, first, -⟩ := exists_refused_of_encode serves result
      exact absurd (accepted v first.mem) first.1

/-- Where the catalog has every argument, what is refused is refused for its shape. -/
theorem exists_invalid_of_encode (serves : catalog.Serves (fun _ => True) e) {ps : Placeholders}
    {err : Error} (fails : (e.encode catalog ps).1 = .error err) :
    ∃ fault, err = .invalid fault := by
  obtain ⟨⟨inside, n⟩, ⟨refused, -⟩, is⟩ := exists_refused_of_encode serves fails
  cases is with
  | argument => exact absurd trivial refused
  | @shape _ fault _ => exact ⟨fault, rfl⟩

end Expr

/-! ### Resolved expressions -/

/-- Parts that are evaluated are parts. -/
theorem Expr.evaluated_subset (e : Expr) : e.evaluated ⊆ e.nodes := by
  match e with
  | .mapped ref key => exact List.cons_subset_cons _ key.evaluated_subset
  | .not operand => exact List.cons_subset_cons _ operand.evaluated_subset
  | .binary op left right =>
    refine List.cons_subset_cons _ (List.append_subset.2 ⟨?_, ?_⟩)
    · exact List.subset_append_of_subset_left _ left.evaluated_subset
    · exact List.subset_append_of_subset_right _ right.evaluated_subset
  | .number _ | .address _ | .text _ | .bytes _ | .boolean _ | .identifier _ | .argument _
  | .tracker _ | .foreignCall _ _ | .global _ =>
    exact List.cons_subset.2 ⟨List.mem_cons_self, List.nil_subset _⟩

namespace Scope

variable {scope : Scope} {e resolved : Expr} {catalog : Catalog}

/-- Only trackers take keys. -/
theorem Holds.keyType_eq_none {c : Component} {symbol : Symbol} (h : scope.Holds e c symbol)
    (other : symbol.source ≠ .tracker) : c.keyType = none := by
  cases symbol with
  | argument name =>
    obtain ⟨i, argument, -, -, rfl⟩ := h
    rfl
  | foreignCall name =>
    obtain ⟨arguments, -, component⟩ := h
    rw [foreignCallComponent_eq] at component
    obtain ⟨call, -, eq⟩ := bind_eq_ok.1 component
    cases eq
    rfl
  | tracker name => exact absurd rfl other
  | global which =>
    cases h
    rfl

/-- The calling function has an argument of the name. -/
def Declares (scope : Scope) (name : String) : Prop :=
  (scope.function.position? name).isSome

/-- The arguments of an expression that is read from a text come from binding its bare names. -/
theorem declares_of_mem_bound {source : String} (parsed : Expr.parse source = .ok e)
    {name : String} (mem : .argument name ∈ (scope.bound e).nodes) : scope.Declares name := by
  rw [bound, Expr.nodes_bind] at mem
  obtain ⟨n, inside, is⟩ := List.mem_map.1 mem
  cases n with
  | argument name' => exact absurd (Expr.unbound_of_parse parsed _ inside) id
  | identifier name' =>
    rw [Expr.bind] at is
    split at is
    · -- a name became an argument because it is declared
      rename_i found
      cases is
      exact found
    · cases is
  | _ => cases is

/-- An argument of a resolved expression has a component exactly if it is declared. -/
theorem serves_of_resolve (resolves : scope.resolve e = .ok (resolved, catalog)) :
    catalog.Serves scope.Declares resolved := by
  have eq := (resolve_eq_ok resolves).1
  subst eq
  refine ⟨fun name mem => ?_, fun name mem => ⟨fun declared => ?_, ?_⟩,
    fun n mem symbol refers other => ?_, fun symbol c found other => ?_⟩
  · exact Expr.identifier_not_mem_bind _ name e (Expr.evaluated_subset _ mem)
  · refine exists_get?_of_refers resolves (Expr.evaluated_subset _ mem) rfl ?_
    rintro _ ⟨⟩
    exact declared
  · -- an argument is in the catalog only if it is declared
    rintro ⟨c, found⟩
    obtain ⟨i, argument, position, -⟩ := holds_of_resolve resolves found
    exact Option.isSome_iff_exists.2 ⟨i, position⟩
  · refine exists_get?_of_refers resolves (Expr.evaluated_subset _ mem) refers ?_
    rintro name rfl
    exact absurd rfl other
  · exact (holds_of_resolve resolves found).keyType_eq_none other

/-- The arguments that the encoder meets in an expression that is read from a text are declared. -/
theorem declares_of_parse {source : String} (parsed : Expr.parse source = .ok e)
    (resolves : scope.resolve e = .ok (resolved, catalog)) {name : String}
    (mem : .argument name ∈ resolved.evaluated) : scope.Declares name := by
  rw [(resolve_eq_ok resolves).1] at mem
  exact declares_of_mem_bound parsed (Expr.evaluated_subset _ mem)

/-- **A resolved expression can be encoded exactly if it is well shaped and its arguments are
declared.**  An expression is refused for its shape or for an argument, and for an argument exactly
if this is the first part that is refused, in the order of encoding.  An expression that is read
from a text has no arguments before it is resolved, so it is refused for its shape alone. -/
theorem encode_eq_ok_iff (resolves : scope.resolve e = .ok (resolved, catalog))
    (ps : Placeholders) :
    ((∃ instructions, (resolved.encode catalog ps).1 = .ok instructions) ↔
      resolved.WellShaped catalog ∧
        ∀ name, .argument name ∈ resolved.evaluated → scope.Declares name) ∧
    (∀ err, (resolved.encode catalog ps).1 = .error err →
      (∃ fault, err = .invalid fault) ∨ ∃ name, err = .unresolved name .argument) ∧
    (∀ name kind, (resolved.encode catalog ps).1 = .error (.unresolved name kind) ↔
      kind = .argument ∧ ∃ inside, FirstRefused (catalog.Accepts scope.Declares)
        (resolved.visits false) (inside, .argument name)) ∧
    ∀ source, Expr.parse source = .ok e →
      ((∃ instructions, (resolved.encode catalog ps).1 = .ok instructions) ↔
        resolved.WellShaped catalog) ∧
      ∀ err, (resolved.encode catalog ps).1 = .error err → ∃ fault, err = .invalid fault := by
  have serves := serves_of_resolve resolves
  have ok_iff : (∃ instructions, (resolved.encode catalog ps).1 = .ok instructions) ↔
      resolved.WellShaped catalog ∧
        ∀ name, .argument name ∈ resolved.evaluated → scope.Declares name := by
    rw [Expr.encode_eq_ok_iff_accepted serves, Expr.accepted_iff]
    simp only [Bool.false_eq_true, false_implies, true_and]
  refine ⟨ok_iff, fun err fails => ?_, fun name kind => ⟨fun fails => ?_, ?_⟩,
    fun source parsed => ?_⟩
  · obtain ⟨⟨_, n⟩, -, is⟩ := Expr.exists_refused_of_encode serves fails
    cases is with
    | @argument name => exact .inr ⟨name, rfl⟩
    | @shape _ fault _ => exact .inl ⟨fault, rfl⟩
  · obtain ⟨⟨inside, n⟩, first, is⟩ := Expr.exists_refused_of_encode serves fails
    cases is
    exact ⟨rfl, inside, first⟩
  · rintro ⟨rfl, inside, first⟩
    -- the expression is refused, and there is one first part for which it can be
    cases result : (resolved.encode catalog ps).1 with
    | ok instructions =>
      have accepted := (Expr.encode_eq_ok_iff_accepted serves ps).1 ⟨instructions, result⟩
      exact absurd (accepted _ first.mem) first.1
    | error err =>
      obtain ⟨v, first', is⟩ := Expr.exists_refused_of_encode serves result
      cases first.unique first'
      cases is with
      | argument => rfl
      | shape other => exact absurd rfl (other name)
  · have declared : ∀ name, .argument name ∈ resolved.evaluated → scope.Declares name :=
      fun name mem => declares_of_parse parsed resolves mem
    refine ⟨ok_iff.trans (and_iff_left declared), fun err fails => ?_⟩
    exact Expr.exists_invalid_of_encode (serves.of_declared declared) fails

/-- An argument that is not declared is resolved, has no shape to be wrong, and cannot be
encoded. -/
theorem encode_undeclared_argument :
    let scope : Scope := ⟨⟨none, []⟩, default, .error⟩
    ∃ catalog, scope.resolve (.argument "zzz") = .ok (.argument "zzz", catalog) ∧
      (Expr.argument "zzz").WellShaped catalog ∧
      ((Expr.argument "zzz").encode catalog .empty).1 = .error (.unresolved "zzz" .argument) := by
  refine ⟨.empty, rfl, Expr.wellShaped_of_isLeaf rfl, ?_⟩
  decide +kernel

/-- Two updates side by side, one of them at a key, can be encoded; with one of them as what the
other stores, they cannot.  An argument that is not declared is reported if it comes before a
tracker that lacks its key, and is not the first part to be refused if it comes behind it. -/
theorem encode_eq_ok_iff_updates :
    let scope : Scope :=
      ⟨⟨none, [⟨"to", "address", .address⟩]⟩,
        ((default : SymbolTables).addTracker "x" ⟨1, .uint256, none⟩).addTracker "sums"
          ⟨2, .uint256, some .address⟩, .error⟩
    (∃ e resolved catalog, Expr.parse "(TRU:x = 1) AND (TRU:sums(to) += 2)" = .ok e ∧
      scope.resolve e = .ok (resolved, catalog) ∧
      (∃ instructions, (resolved.encode catalog .empty).1 = .ok instructions) ∧
      resolved.WellShaped catalog) ∧
    (∃ e resolved catalog fault, Expr.parse "TRU:sums(to) += (TRU:x = 1)" = .ok e ∧
      scope.resolve e = .ok (resolved, catalog) ∧
      (resolved.encode catalog .empty).1 = .error (.invalid fault) ∧
      ¬ resolved.WellShaped catalog) ∧
    let other : Expr := .argument "zzz"
    let sums : Expr := .tracker ⟨"sums", false⟩
    (∃ resolved catalog,
      scope.resolve (.binary (.plain .equal) other sums) = .ok (resolved, catalog) ∧
      ∃ inside, FirstRefused (catalog.Accepts scope.Declares) (resolved.visits false)
        (inside, other)) ∧
    ∃ resolved catalog,
      scope.resolve (.binary (.plain .equal) sums other) = .ok (resolved, catalog) ∧
      ∀ inside, ¬ FirstRefused (catalog.Accepts scope.Declares) (resolved.visits false)
        (inside, other) := by
  intro scope
  refine ⟨?_, ?_, ?_, ?_⟩
  · obtain ⟨e, parsed, resolves⟩ := exists_ok_of_any
      (show (Expr.parse "(TRU:x = 1) AND (TRU:sums(to) += 2)").toOption.any (fun e =>
        (scope.resolve e).toOption.any fun found =>
          (found.1.encode found.2 .empty).1.toOption.any fun _ => true) by decide +kernel)
    obtain ⟨⟨resolved, catalog⟩, resolves, encodes⟩ := exists_ok_of_any resolves
    obtain ⟨instructions, encodes, -⟩ := exists_ok_of_any encodes
    obtain ⟨iff, -⟩ := encode_eq_ok_iff resolves .empty
    exact ⟨e, resolved, catalog, parsed, resolves, ⟨_, encodes⟩, (iff.1 ⟨_, encodes⟩).1⟩
  · obtain ⟨e, parsed, resolves⟩ := exists_ok_of_any
      (show (Expr.parse "TRU:sums(to) += (TRU:x = 1)").toOption.any (fun e =>
        (scope.resolve e).toOption.any fun found =>
          (found.1.encode found.2 .empty).1.toOption.isNone) by decide +kernel)
    obtain ⟨⟨resolved, catalog⟩, resolves, refused⟩ := exists_ok_of_any resolves
    -- the source was parsed, so its fault can only be one of shape
    obtain ⟨iff, faults⟩ := (encode_eq_ok_iff resolves .empty).2.2.2 _ parsed
    cases encodes : (resolved.encode catalog .empty).1 with
    | ok instructions =>
      rw [encodes] at refused
      cases refused
    | error err =>
      obtain ⟨fault, rfl⟩ := faults err encodes
      refine ⟨e, resolved, catalog, fault, parsed, resolves, encodes, fun shaped => ?_⟩
      obtain ⟨instructions, done⟩ := iff.2 shaped
      cases encodes.symm.trans done
  · obtain ⟨⟨resolved, catalog⟩, resolves, reported⟩ := exists_ok_of_any
      (show (scope.resolve (.binary (.plain .equal) (.argument "zzz")
        (.tracker ⟨"sums", false⟩))).toOption.any (fun found =>
          decide ((found.1.encode found.2 .empty).1 = .error (.unresolved "zzz" .argument)))
        by decide +kernel)
    obtain ⟨-, -, iff, -⟩ := encode_eq_ok_iff resolves .empty
    exact ⟨resolved, catalog, resolves, ((iff _ _).1 (of_decide_eq_true reported)).2⟩
  · obtain ⟨⟨resolved, catalog⟩, resolves, reported⟩ := exists_ok_of_any
      (show (scope.resolve (.binary (.plain .equal) (.tracker ⟨"sums", false⟩)
        (.argument "zzz"))).toOption.any (fun found =>
          decide ((found.1.encode found.2 .empty).1 ≠ .error (.unresolved "zzz" .argument)))
        by decide +kernel)
    obtain ⟨-, -, iff, -⟩ := encode_eq_ok_iff resolves .empty
    -- here the tracker without its key comes first
    refine ⟨resolved, catalog, resolves, fun inside first => ?_⟩
    exact of_decide_eq_true reported ((iff "zzz" .argument).2 ⟨rfl, inside, first⟩)

end Scope

end RuleCodec
