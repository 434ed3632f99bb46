/-
RuleCodec/Proofs/Nodes.lean

The parts of an expression that was read from a text, before and after its
bare names are bound.

Every part of a parsed expression is `Lexical`: the names, addresses and byte
strings in it are such as tokens hold.  Binding turns each part on its own
(`Expr.nodes_bind`) and leaves the text as it was (`Expr.spell_bind`), since a
bare name that becomes a text is still written bare.
-/
import RuleCodec.Proofs.Regrouping
import RuleCodec.Proofs.Scanning

namespace RuleCodec

open Text

/-! ### Parts of a parsed expression -/

/-- A part of an expression as it can be read from a text. -/
def Expr.Lexical : Expr → Prop
  | .identifier name | .argument name => isBareWord name.toList
  | .tracker ref | .mapped ref _ => isName ref.name.toList
  | .foreignCall name _ => isName name.toList
  | .address value => value.toNat < 16 ^ 40
  | .bytes value => value.length ≠ 20
  | _ => True

/-- A part that was read from a text and whose name is not bound yet. -/
def Expr.Unbound : Expr → Prop
  | .argument _ => False
  | n => n.Lexical

theorem Expr.Unbound.lexical {n : Expr} (h : n.Unbound) : n.Lexical := by
  cases n <;> first | exact h | exact absurd h id

theorem Leaf.unbound_erase {l : Leaf} (h : l.token.Lexical) : ∀ n ∈ l.erase.nodes, n.Unbound := by
  cases l <;> simp only [Leaf.erase, Expr.nodes, List.mem_singleton, forall_eq] <;>
    first | exact h | trivial

mutual

/-- The parts of a primary are as its tokens allow. -/
theorem Primary.unbound_nodes (p : Primary) (h : ∀ k ∈ p.yield, k.Lexical) :
    ∀ n ∈ p.erase.nodes, n.Unbound := by
  -- each name is the name of a token, which says that it is lexical
  match p with
  | .leaf l => exact l.unbound_erase (h _ List.mem_cons_self)
  | .tracker ref =>
    rw [Primary.erase, Expr.nodes, List.forall_mem_singleton]
    exact TrackerRef.lexical_token_iff.1 (h _ List.mem_cons_self)
  | .keyed ref key =>
    obtain ⟨here, inKey⟩ := Primary.forall_yield_keyed h
    rw [Primary.erase, Expr.nodes, List.forall_mem_cons]
    exact ⟨TrackerRef.lexical_token_iff.1 here, key.unbound_nodes inKey⟩
  | .call name =>
    rw [Primary.erase, Expr.nodes, Expr.nodesAll, List.forall_mem_singleton]
    exact h (.foreignCall name) List.mem_cons_self
  | .callWith name arguments =>
    obtain ⟨here, inArguments⟩ := Primary.forall_yield_callWith h
    rw [Primary.erase, Expr.nodes, List.forall_mem_cons]
    exact ⟨here, arguments.unbound_nodes inArguments⟩
  | .paren inner => exact inner.unbound_nodes (Primary.forall_yield_paren h)
  | .piped key ref =>
    obtain ⟨inKey, here⟩ := Primary.forall_yield_piped h
    rw [Primary.erase, Expr.nodes, List.forall_mem_cons]
    exact ⟨TrackerRef.lexical_token_iff.1 here, key.unbound_nodes inKey⟩

/-- The parts of arguments are as their tokens allow. -/
theorem Arguments.unbound_nodes (a : Arguments) (h : ∀ k ∈ a.yield, k.Lexical) :
    ∀ n ∈ Expr.nodesAll a.erase, n.Unbound := by
  match a with
  | .none =>
    intro n mem
    cases mem
  | .last argument =>
    rw [Arguments.erase, Expr.nodesAll, Expr.nodesAll, List.append_nil]
    exact argument.unbound_nodes h
  | .more argument rest =>
    obtain ⟨inArgument, inRest⟩ := Arguments.forall_yield_more h
    rw [Arguments.erase, Expr.nodesAll, List.forall_mem_append]
    exact ⟨argument.unbound_nodes inArgument, rest.unbound_nodes inRest⟩

/-- The parts of a phrase are as its tokens allow. -/
theorem Phrase.unbound_nodes (t : Phrase) (h : ∀ k ∈ t.yield, k.Lexical) :
    ∀ n ∈ t.erase.nodes, n.Unbound := by
  match t with
  | .primary p => exact p.unbound_nodes h
  | .not operand =>
    rw [Phrase.erase, Expr.nodes, List.forall_mem_cons]
    exact ⟨trivial, operand.unbound_nodes (Phrase.forall_yield_not h)⟩
  | .binary op left right =>
    obtain ⟨inLeft, -, inRight⟩ := Phrase.forall_yield_binary h
    rw [Phrase.erase, Expr.nodes, List.forall_mem_cons, List.forall_mem_append]
    refine ⟨trivial, ?_, ?_⟩
    · exact left.unbound_nodes inLeft
    · exact right.unbound_nodes inRight

end

/-- No name is bound in an expression that was just read. -/
theorem Expr.unbound_of_parse {source : String} {e : Expr} (h : Expr.parse source = .ok e) :
    ∀ n ∈ e.nodes, n.Unbound := by
  obtain ⟨-, t, -, rfl, -, lexical⟩ := Expr.exists_phrase_of_parse h
  exact t.unbound_nodes lexical

/-- The parts of an expression that was read are as they can be read. -/
theorem Expr.lexical_of_parse {source : String} {e : Expr} (h : Expr.parse source = .ok e) :
    ∀ n ∈ e.nodes, n.Lexical := by
  intro n mem
  exact (Expr.unbound_of_parse h n mem).lexical

/-- An expression has no more parts than its source has characters. -/
theorem Expr.length_nodes_of_parse {source : String} {e : Expr} (h : Expr.parse source = .ok e) :
    e.nodes.length ≤ source.length := by
  obtain ⟨-, t, -, rfl, length, -⟩ := Expr.exists_phrase_of_parse h
  -- some tokens make a part each, and each token has a character of its own
  rw [t.length_nodes]
  exact Nat.le_trans List.countP_le_length length

/-! ### Parts of parts -/

namespace Expr

mutual

/-- The parts of a part are parts. -/
theorem nodes_subset {n : Expr} (e : Expr) (mem : n ∈ e.nodes) : n.nodes ⊆ e.nodes := by
  match e with
  | .foreignCall name arguments =>
    rcases List.mem_cons.1 mem with rfl | mem
    · exact List.Subset.refl _
    · exact List.subset_cons_of_subset _ (nodesAll_subset arguments mem)
  | .mapped ref key =>
    rcases List.mem_cons.1 mem with rfl | mem
    · exact List.Subset.refl _
    · exact List.subset_cons_of_subset _ (nodes_subset key mem)
  | .binary op left right =>
    rcases List.mem_cons.1 mem with rfl | mem
    · exact List.Subset.refl _
    · rcases List.mem_append.1 mem with mem | mem
      · exact List.subset_cons_of_subset _
          (List.subset_append_of_subset_left _ (nodes_subset left mem))
      · exact List.subset_cons_of_subset _
          (List.subset_append_of_subset_right _ (nodes_subset right mem))
  | .not operand =>
    rcases List.mem_cons.1 mem with rfl | mem
    · exact List.Subset.refl _
    · exact List.subset_cons_of_subset _ (nodes_subset operand mem)
  | .number _ | .address _ | .text _ | .bytes _ | .boolean _ | .identifier _ | .argument _
  | .tracker _ | .global _ =>
    rw [List.mem_singleton.1 mem]
    exact List.Subset.refl _

theorem nodesAll_subset {n : Expr} (es : List Expr) (mem : n ∈ nodesAll es) :
    n.nodes ⊆ nodesAll es := by
  match es with
  | [] => cases mem
  | e :: rest =>
    rcases List.mem_append.1 mem with mem | mem
    · exact List.subset_append_of_subset_left _ (nodes_subset e mem)
    · exact List.subset_append_of_subset_right _ (nodesAll_subset rest mem)

end

end Expr

/-! ### References -/

namespace Expr

/-- What a part of an expression refers to. -/
def refers? : Expr → Option Symbol
  | argument name => some (.argument name)
  | tracker ref | mapped ref _ => some (.tracker ref.name)
  | foreignCall name _ => some (.foreignCall name)
  | global which => some (.global which)
  | _ => none

/-- An expression is a part of itself. -/
theorem self_mem_nodes (e : Expr) : e ∈ e.nodes := by
  cases e <;> exact List.mem_cons_self

end Expr

/-! ### Binding -/

namespace Expr

variable (isArgument : String → Bool)

mutual

/-- Binding works on each part on its own. -/
theorem nodes_bind (e : Expr) : (e.bind isArgument).nodes = e.nodes.map (bind isArgument) := by
  match e with
  | .identifier name =>
    simp only [bind, nodes, List.map_cons, List.map_nil]
    split <;> rfl
  | .foreignCall name arguments =>
    simp only [bind, nodes, List.map_cons, nodesAll_bindAll arguments]
  | .mapped ref key => simp only [bind, nodes, List.map_cons, nodes_bind key]
  | .binary op left right =>
    simp only [bind, nodes, List.map_cons, List.map_append, nodes_bind left, nodes_bind right]
  | .not operand => simp only [bind, nodes, List.map_cons, nodes_bind operand]
  | .number _ | .address _ | .text _ | .bytes _ | .boolean _ | .argument _ | .tracker _
  | .global _ => simp only [bind, nodes, List.map_cons, List.map_nil]

theorem nodesAll_bindAll (es : List Expr) :
    nodesAll (bindAll isArgument es) = (nodesAll es).map (bind isArgument) := by
  match es with
  | [] => rfl
  | e :: rest =>
    simp only [bindAll, nodesAll, List.map_append, nodes_bind e, nodesAll_bindAll rest]

end

/-- A part that refers to a symbol still does when names are bound. -/
theorem refers?_bind {n : Expr} {symbol : Symbol} (h : n.refers? = some symbol) :
    (n.bind isArgument).refers? = some symbol := by
  cases n <;> first | exact h | cases h

/-- What a bound part refers to is what it referred to before, or an argument. -/
theorem refers?_of_bind {n : Expr} {symbol : Symbol}
    (h : (n.bind isArgument).refers? = some symbol) :
    n.refers? = some symbol ∨ ∃ name, symbol = .argument name := by
  cases n with
  | identifier name =>
    rw [bind] at h
    split at h
    · exact .inr ⟨name, (Option.some.inj h).symm⟩
    · cases h
  | _ => exact .inl h

/-- Binding names does not change what needs parentheses. -/
theorem isGroup_bind (e : Expr) : (e.bind isArgument).isGroup = e.isGroup := by
  cases e with
  | identifier name =>
    rw [bind]
    split <;> rfl
  | _ => rfl

mutual

/-- A name that is no keyword is written alike as an argument, as a text and as a bare name. -/
theorem spell_bind (e : Expr) (h : ∀ n ∈ e.nodes, n.Lexical) :
    (e.bind isArgument).spell = e.spell := by
  match e with
  | .identifier name =>
    -- a bare word is no keyword, so as a text it is written without quotes
    have bare : isBareWord name.toList := h (.identifier name) List.mem_cons_self
    rw [bind]
    split
    · rfl
    · rw [spell, spellText, if_pos bare, spell]
  | .foreignCall name arguments =>
    have inArguments := spellArguments_bindAll arguments (List.forall_mem_cons.1 h).2
    have empty : (bindAll isArgument arguments).isEmpty = arguments.isEmpty := by
      cases arguments <;> rfl
    rw [bind, spell, spell, inArguments, empty]
  | .mapped ref key =>
    rw [bind, spell, spell, spell_bind key (List.forall_mem_cons.1 h).2]
  | .binary op left right =>
    obtain ⟨inLeft, inRight⟩ := List.forall_mem_append.1 (List.forall_mem_cons.1 h).2
    rw [bind, spell, spell, spellOperand, spellOperand, isGroup_bind, isGroup_bind,
      spell_bind left inLeft, spell_bind right inRight]
    rfl
  | .not operand =>
    rw [bind, spell, spell, spellOperand, isGroup_bind,
      spell_bind operand (List.forall_mem_cons.1 h).2]
    rfl
  | .number _ | .address _ | .text _ | .bytes _ | .boolean _ | .argument _ | .tracker _
  | .global _ => rw [bind]

theorem spellArguments_bindAll (es : List Expr) (h : ∀ n ∈ nodesAll es, n.Lexical) :
    spellArguments (bindAll isArgument es) = spellArguments es := by
  match es with
  | [] => rfl
  | e :: rest =>
    obtain ⟨here, inRest⟩ := List.forall_mem_append.1 h
    have empty : (bindAll isArgument rest).isEmpty = rest.isEmpty := by cases rest <;> rfl
    rw [bindAll, spellArguments, spellArguments, spell_bind e here,
      spellArguments_bindAll rest inRest, empty]

end

end Expr

end RuleCodec
