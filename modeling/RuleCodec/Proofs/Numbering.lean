/-
RuleCodec/Proofs/Numbering.lean

Placeholders are numbered as they are first read.

The references of an expression are read one after the other, each through the
placeholder of its component, which is entered on its first use.  So the numbers
that instructions read begin with 0, and a number that is read for the first
time is the next one.  All placeholders there are come up in this way, be the
instructions those of one condition or those of all effects of a rule
(`Config.placeholders_numbered`).

Design.  Of an encoding, only the references and the reads matter here.
`Placeholders.Enters` keeps these and forgets the rest: it has one rule for a
reference, and the runs for the parts of an expression, and for the effects of
a rule, are joined by `Enters.append`.  Words are read back as instructions, and
the placeholders from them; there are fewer placeholders than words, so no
number is cut short.
-/
import Mathlib.Data.Fintype.Card
import Mathlib.Data.Fintype.Prod
import RuleCodec.Proofs.RoundTrip

namespace RuleCodec

/-! ### References and reads -/

/-- What an expression refers to, in the order in which the values are read.  The arguments of
foreign calls are not read. -/
def Expr.references : Expr → List Symbol
  | mapped ref key => key.references ++ [.tracker ref.name]
  | not operand => operand.references
  | binary _ left right => left.references ++ right.references
  | e => e.symbol?.toList

theorem Expr.references_of_literal? {e : Expr} {value : Operand} (h : e.literal? = some value) :
    e.references = [] := by
  cases e <;> first | rfl | cases h

theorem Expr.references_of_symbol? {e : Expr} {symbol : Symbol} (h : e.symbol? = some symbol) :
    e.references = [symbol] := by
  cases e <;> cases h <;> rfl

/-- A placeholder that is read, with a key or without. -/
structure Reading where
  placeholder : Nat
  keyed : Bool
  deriving DecidableEq, Repr

namespace Instruction

/-- The placeholder that an instruction reads. -/
def reading? {Literal Ref : Type} (number : Ref → Nat) : Instruction Literal Ref → Option Reading
  | read placeholder => some ⟨number placeholder, false⟩
  | readMapped placeholder _ => some ⟨number placeholder, true⟩
  | _ => none

/-- Placeholders whose numbers fit a word are read from words as well. -/
theorem filterMap_reading?_inWords (hash : Bytes → Bytes) {is : List (Instruction Operand Nat)}
    (fit : ∀ reading ∈ is.filterMap (reading? id), reading.placeholder < 2 ^ 256) :
    (is.map (inWords hash)).filterMap (reading? BitVec.toNat) = is.filterMap (reading? id) := by
  rw [List.filterMap_map]
  refine List.filterMap_congr fun i mem => ?_
  rw [Function.comp_apply]
  cases i with
  | read placeholder =>
    have lt := fit ⟨placeholder, false⟩ (List.mem_filterMap.2 ⟨_, mem, rfl⟩)
    rw [inWords, reading?, reading?, BitVec.toNat_ofNat, Nat.mod_eq_of_lt lt, id]
  | readMapped placeholder key =>
    have lt := fit ⟨placeholder, true⟩ (List.mem_filterMap.2 ⟨_, mem, rfl⟩)
    rw [inWords, reading?, reading?, BitVec.toNat_ofNat, Nat.mod_eq_of_lt lt, id]
  | _ => rfl

end Instruction

/-- The placeholders that words read. -/
def Registry.readings (registry : Registry) (words : List Word) : List Reading :=
  ((registry.instructions? words).getD []).filterMap (Instruction.reading? BitVec.toNat)

/-! ### Entering one placeholder after the other -/

namespace Placeholders

/-- There are no more placeholders than pairs of an index and flags. -/
theorem size_le (ps : Placeholders) : ps.size ≤ 2 ^ 72 := by
  let number (key : UInt64 × UInt8) : Fin UInt64.size × Fin UInt8.size :=
    (key.1.toFin, key.2.toFin)
  have injective : Function.Injective number := by
    intro key key' same
    obtain ⟨index, flags⟩ := Prod.mk.inj same
    exact Prod.ext (UInt64.toFin_inj.1 index) (UInt8.toFin_inj.1 flags)
  have length := (ps.distinct.map injective).length_le_card
  rw [Fintype.card_prod, Fintype.card_fin, Fintype.card_fin, List.length_map, List.length_map]
    at length
  exact length

/-- The placeholders of references are entered one after the other, each reference is read at its
place, and the placeholders grow from the first to the second. -/
inductive Enters (catalog : Catalog) :
    Placeholders → List Symbol → List Reading → Placeholders → Prop
  | nil {ps : Placeholders} : Enters catalog ps [] [] ps
  | cons {ps ps' : Placeholders} {symbol : Symbol} {c : Component} {symbols : List Symbol}
      {readings : List Reading} :
      catalog.get? symbol = some c → Enters catalog (ps.intern c).2 symbols readings ps' →
        Enters catalog ps (symbol :: symbols)
          (⟨(ps.intern c).1, c.keyType.isSome⟩ :: readings) ps'

/-- A reading is through the placeholder of a component: it is the component's in all its data, and
takes a key exactly if the component is mapped. -/
structure ReadsFrom (ps : Placeholders) (reading : Reading) (c : Component) : Prop where
  item : ps.items[reading.placeholder]? = some c.placeholder
  name : ps.names[reading.placeholder]? = some c.displayName
  keyed : reading.keyed = c.placeholder.keyType.isSome

/-- Placeholders are numbered as the references are first read. -/
structure Numbered (ps : Placeholders) (catalog : Catalog) (references : List Symbol)
    (readings : List Reading) : Prop where
  distinct : (ps.items.map fun p => (p.index, p.flags)).Nodup
  /-- Read for the first time, the numbers are 0, 1, 2 and so on, up to the last placeholder. -/
  inOrder : (readings.map Reading.placeholder).eraseDups = List.range ps.size
  readsFrom : catalog.Apart → List.Forall₂
    (fun symbol reading => ∃ c, catalog.get? symbol = some c ∧ ps.ReadsFrom reading c)
    references readings
  /-- References share a placeholder exactly if they share a component. -/
  shared : catalog.Apart → ∀ p ∈ references.zip readings, ∀ q ∈ references.zip readings,
    p.2.placeholder = q.2.placeholder ↔ catalog.get? p.1 = catalog.get? q.1

namespace Enters

variable {catalog : Catalog} {ps ps₁ ps' : Placeholders} {symbols symbols' : List Symbol}
  {readings readings' : List Reading}

/-- References are entered one list after the other. -/
theorem append (h : Enters catalog ps symbols readings ps₁)
    (h' : Enters catalog ps₁ symbols' readings' ps') :
    Enters catalog ps (symbols ++ symbols') (readings ++ readings') ps' := by
  induction h with
  | nil => exact h'
  | cons found _ ih => exact .cons found (ih h')

/-- A single reference is entered at the place of its component. -/
theorem single {symbol : Symbol} {c : Component} {keyed : Bool}
    (found : catalog.get? symbol = some c) (is : c.keyType.isSome = keyed) :
    Enters catalog ps [symbol] [⟨(ps.intern c).1, keyed⟩] (ps.intern c).2 := by
  subst is
  exact .cons found .nil

/-- Entering references only adds placeholders. -/
theorem placeholders_extend (h : Enters catalog ps symbols readings ps') : ps.Extends ps' := by
  induction h with
  | nil => exact Table.Extends.refl _
  | cons _ _ ih => exact (extends_intern _ _).trans ih

/-- What is entered comes from the catalog. -/
theorem of (h : Enters catalog ps symbols readings ps') (before : ps.Of catalog) :
    ps'.Of catalog := by
  induction h with
  | nil => exact before
  | cons found _ ih => exact ih (of_intern before found)

/-- Every reading is at the place of its component's key. -/
theorem forall₂_place (h : Enters catalog ps symbols readings ps') :
    List.Forall₂ (fun symbol (reading : Reading) => ∃ c, catalog.get? symbol = some c ∧
      ps'.indexOf? c.key = some reading.placeholder ∧ reading.keyed = c.keyType.isSome)
      symbols readings := by
  induction h with
  | nil => exact .nil
  | cons found rest ih =>
    exact .cons ⟨_, found, indexOf?_of_intern_extends rest.placeholders_extend, rfl⟩ ih

/-- The places fit in a word, since there are fewer than 2²⁵⁶ keys. -/
theorem placeholder_lt (h : Enters catalog ps symbols readings ps') :
    ∀ reading ∈ readings, reading.placeholder < 2 ^ 256 := by
  intro reading mem
  obtain ⟨symbol, -, c, -, place, -⟩ := exists_left_of_forall₂ h.forall₂_place mem
  have lt := Table.lt_size_of_indexOf? place
  have le := ps'.size_le
  omega

/-- A number at the end is kept if it was not there before. -/
theorem eraseDups_concat (seen : List Nat) (place : Nat) :
    (seen ++ [place]).eraseDups =
      if place ∈ seen then seen.eraseDups else seen.eraseDups ++ [place] := by
  rw [List.eraseDups_append, List.cons_removeAll]
  by_cases old : place ∈ seen
  · simp [old, List.removeAll]
  · simp [old, List.removeAll, List.eraseDups_cons]

/-- One step of the numbering: the place of a component was seen before, or is the next. -/
theorem eraseDups_intern {seen : List Nat} (ps : Placeholders) (c : Component)
    (before : seen.eraseDups = List.range ps.size) :
    (seen ++ [(ps.intern c).1]).eraseDups = List.range (ps.intern c).2.size := by
  have seen_iff (place : Nat) : place ∈ seen ↔ place < ps.size := by
    rw [← List.mem_eraseDups, before, List.mem_range]
  rcases h : ps.indexOf? c.key with _ | place
  · have new : ps.size ∉ seen := fun mem => Nat.lt_irrefl _ ((seen_iff _).1 mem)
    rw [intern_of_new h, Table.size_insert_of_not_mem (Table.indexOf?_eq_none_iff.1 h),
      List.range_succ, ← before, eraseDups_concat, if_neg new]
  · have old : place ∈ seen := (seen_iff place).2 (Table.lt_size_of_indexOf? h)
    rw [intern_of_mem h, ← before, eraseDups_concat, if_pos old]

/-- And so it goes on: `seen` are the places that were read before. -/
theorem eraseDups_eq (h : Enters catalog ps symbols readings ps') (seen : List Nat)
    (before : seen.eraseDups = List.range ps.size) :
    (seen ++ readings.map Reading.placeholder).eraseDups = List.range ps'.size := by
  induction h generalizing seen with
  | nil => rwa [List.map_nil, List.append_nil]
  | @cons ps _ _ c _ _ found _ ih =>
    rw [List.map_cons, List.append_cons]
    exact ih _ (eraseDups_intern ps c before)

/-- From no placeholders on, what is entered is numbered. -/
theorem numbered (h : Enters catalog .empty symbols readings ps) :
    ps.Numbered catalog symbols readings := by
  have of : ps.Of catalog := h.of fun _ _ entered => by cases entered
  refine ⟨?_, h.eraseDups_eq [] rfl, ?_, ?_⟩
  · -- the index and flags of a placeholder are its key
    have keys : ps.items.map (fun p => (p.index, p.flags)) = ps.keys := by
      rw [items, Table.values, List.map_map, List.map_map, Table.keys]
      refine List.map_congr_left ?_
      rintro ⟨key, entry⟩ mem
      obtain ⟨symbol, c, -, rfl, rfl⟩ := of _ _ (Table.get?_eq_some_iff.2 mem)
      rfl
    rw [keys]
    exact ps.distinct
  · -- where components can be told apart, the entry at a key is the component's own
    intro apart
    refine h.forall₂_place.imp ?_
    rintro symbol reading ⟨c, found, place, keyed⟩
    have entry := of.entry_eq apart found place
    refine ⟨c, found, ?_, ?_, keyed⟩
    · rw [items, Table.values, List.map_map, List.getElem?_map, entry]
      rfl
    · rw [names, Table.values, List.map_map, List.getElem?_map, entry]
      rfl
  · rintro apart ⟨symbol, reading⟩ mem ⟨symbol', reading'⟩ mem'
    -- two references have one place exactly if they have one key, and so one component
    obtain ⟨-, each⟩ := List.forall₂_iff_zip.1 h.forall₂_place
    obtain ⟨c, found, place, -⟩ := each mem
    obtain ⟨c', found', place', -⟩ := each mem'
    rw [found, found', Option.some.injEq]
    constructor
    · intro same
      simp only at same
      rw [same] at place
      exact apart.eq_of_key_eq found found' (Table.key_eq_of_indexOf? place place')
    · rintro rfl
      exact Option.some.inj (place.symm.trans place')

end Enters

end Placeholders

/-! ### Encoding enters placeholders -/

open Instruction Placeholders in
/-- The reads of a code are those of the references of its expression. -/
theorem Encodes.enters {catalog : Catalog} {outer : Option String} {slot : Nat} {e : Expr}
    {ps ps' : Placeholders} {code : Code} (h : Encodes catalog outer slot e ps code ps') :
    Enters catalog ps e.references (code.instructions.filterMap (reading? id)) ps' := by
  induction h with
  | literal is =>
    rw [Expr.references_of_literal? is]
    exact .nil
  | read is found unkeyed =>
    rw [Expr.references_of_symbol? is]
    exact .single found (congrArg Option.isSome unkeyed)
  | mapped _ found keyed ih =>
    rw [Expr.references, List.filterMap_append]
    exact ih.append (.single found keyed)
  -- operators read nothing, and neither do stores
  | not _ ih =>
    simp only [Expr.references, List.filterMap_append, List.filterMap_cons, List.filterMap_nil,
      reading?, List.append_nil]
    exact ih
  | binary _ _ _ ihl ihr =>
    simp only [Expr.references, List.filterMap_append, List.filterMap_cons, List.filterMap_nil,
      reading?, List.append_nil]
    exact ihl.append ihr
  | update _ found unkeyed _ ih =>
    simp only [Code.update_eq, List.filterMap_append, List.filterMap_cons, List.filterMap_nil,
      reading?, List.append_nil]
    exact (Enters.single found (congrArg Option.isSome unkeyed)).append ih
  | updateMapped _ found keyed _ _ ihk ihv =>
    simp only [Code.updateMapped_eq, List.filterMap_append, List.filterMap_cons,
      List.filterMap_nil, reading?, List.append_nil]
    exact (ihk.append (.single found keyed)).append ihv

open Placeholders in
/-- And so are the reads of its words. -/
theorem Encodes.enters_words {registry : Registry} {catalog : Catalog} {outer : Option String}
    {slot : Nat} {e : Expr} {ps ps' : Placeholders} {code : Code} {stream : Stream}
    (h : Encodes catalog outer slot e ps code ps')
    (streamed : Stream.ofItems registry (code.instructions.flatMap Instruction.items) =
      .ok stream) :
    (registry.instructions? stream.words).isSome ∧
      Enters catalog ps e.references (registry.readings stream.words) ps' := by
  have words := Stream.instructions?_words streamed
  -- the numbers are small enough to be the same in words
  have enters := h.enters
  rw [← Instruction.filterMap_reading?_inWords Keccak.hash enters.placeholder_lt] at enters
  refine ⟨by rw [words]; rfl, ?_⟩
  rw [Registry.readings, words]
  exact enters

/-! ### The reads of effects -/

/-- The expression of a draft. -/
def Draft.expression? : Draft → Option Expr
  | done _ => none
  | expression _ resolved => some resolved

/-- The placeholders that the words of an effect read. -/
def Effect.readings (registry : Registry) (effect : Effect) : List Reading :=
  registry.readings effect.words

namespace Effects

/-- The expression that a clause is, bound in a scope. -/
def expression? (scope : Scope) (source : String) : Option Expr :=
  match Clause.parse source with
  | .ok (.expression text) => (Expr.parse text).toOption.map scope.bound
  | _ => none

variable {scope : Scope} {registry : Registry} {catalog : Catalog} {ps ps' : Placeholders}
  {drafts : List Draft} {effects : List Effect}

/-- A draft that is done has no words. -/
theorem words_of_done {clauses : List Clause} {effect : Effect}
    (drafted : List.Forall₂ (Drafts scope) clauses drafts) (mem : .done effect ∈ drafts) :
    effect.words = [] := by
  obtain ⟨clause, -, made⟩ := exists_left_of_forall₂ drafted mem
  cases made <;> rfl

/-- Effects read what their expressions refer to, one after the other. -/
theorem EncodesAll.enters (h : EncodesAll registry catalog ps drafts effects ps')
    (silent : ∀ effect, .done effect ∈ drafts → effect.words = []) :
    (∀ effect ∈ effects, (registry.instructions? effect.words).isSome) ∧
      Placeholders.Enters catalog ps
        ((drafts.filterMap Draft.expression?).flatMap Expr.references)
        (effects.flatMap (Effect.readings registry)) ps' := by
  induction h with
  | nil => exact ⟨fun _ mem => absurd mem List.not_mem_nil, .nil⟩
  | @done _ _ drafts _ effect _ ih =>
    obtain ⟨split, rest⟩ := ih fun effect mem => silent effect (List.mem_cons_of_mem _ mem)
    have none := silent effect List.mem_cons_self
    -- an effect without an expression has no words and reads nothing
    have readings : effect.readings registry = [] := by
      rw [Effect.readings, Registry.readings, none, Registry.instructions?]
      rfl
    refine ⟨List.forall_mem_cons.2 ⟨?_, split⟩, ?_⟩
    · rw [none, Registry.instructions?]
      rfl
    · rw [List.flatMap_cons, readings]
      exact rest
  | @expression _ _ _ _ _ _ _ _ code _ encodes streamed _ _ ih =>
    obtain ⟨split, rest⟩ := ih fun effect mem => silent effect (List.mem_cons_of_mem _ mem)
    obtain ⟨readable, here⟩ := encodes.enters_words streamed
    refine ⟨List.forall_mem_cons.2 ⟨readable, split⟩, ?_⟩
    rw [List.filterMap_cons_some (f := Draft.expression?) rfl, List.flatMap_cons,
      List.flatMap_cons]
    -- each effect goes on where the one before has left the placeholders
    exact here.append rest

end Effects

end RuleCodec
