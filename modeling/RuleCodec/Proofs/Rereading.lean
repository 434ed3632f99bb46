/-
RuleCodec/Proofs/Rereading.lean

Reading the text of an expression again.

The text of an expression is that of a phrase (`Expr.phrase`) in which
parentheses stand around the operands that are an `AND` or an `OR`, and
nowhere else.  It always parses, and what it parses as is that phrase regrouped
(`Expr.parse_render`).  The operators are nested as they were exactly if the
phrase was well grouped (`Expr.shape_reread_iff`); the parts between them are
read again one by one, and stay in their order (`Expr.operands_reread`).
-/
import RuleCodec.Proofs.Nodes
import RuleCodec.Proofs.Spelling

namespace RuleCodec

/-! ### The phrase of an expression -/

namespace Expr

/-- The phrase of an operand, given the phrase of the expression. -/
def operandPhrase (e : Expr) (t : Phrase) : Phrase :=
  if e.isGroup then .primary (.paren t) else t

mutual

/-- The phrase that an expression is written as.  A text that can stand bare becomes a name, as an
argument does, and a boolean becomes a number. -/
def phrase : Expr → Phrase
  | number value => .primary (.leaf (.number value))
  | address value => .primary (.leaf (.address value))
  | text value =>
    .primary (.leaf (if isBareWord value.toList then .identifier value else .text value))
  | bytes value => .primary (.leaf (.bytes value))
  | boolean value => .primary (.leaf (.number (if value then 1 else 0)))
  | identifier name => .primary (.leaf (.identifier name))
  | argument name => .primary (.leaf (.identifier name))
  | tracker ref => .primary (.tracker ref)
  | foreignCall name arguments =>
    .primary (if arguments.isEmpty then .call name else .callWith name (phraseAll arguments))
  | global which => .primary (.leaf (.global which))
  | mapped ref key => .primary (.keyed ref (phrase key))
  | binary op left right =>
    .binary op (operandPhrase left (phrase left)) (operandPhrase right (phrase right))
  | not operand => .not (operandPhrase operand (phrase operand))

/-- The arguments of a foreign call, without a comma behind the last. -/
def phraseAll : List Expr → Arguments
  | [] => .none
  | e :: rest => if rest.isEmpty then .last (phrase e) else .more (phrase e) (phraseAll rest)

end

/-- An operand is spelled with its parentheses. -/
theorem spell_operandPhrase {e : Expr} {t : Phrase} {text : List Char} (h : t.spell = text) :
    (operandPhrase e t).spell = spellOperand e text := by
  rw [operandPhrase, spellOperand]
  split
  · rw [Phrase.spell, Primary.spell, h]
  · exact h

/-- The parentheses do not stand for anything. -/
theorem erase_operandPhrase (e : Expr) (t : Phrase) : (operandPhrase e t).erase = t.erase := by
  rw [operandPhrase]
  split <;> rfl

mutual

/-- An expression is spelled as what it is written down as. -/
theorem spell_phrase (e : Expr) : e.phrase.spell = e.spell := by
  match e with
  | .text value =>
    rw [phrase, spell, Phrase.spell, Primary.spell]
    split
    · -- a text that looks like a name is written as one
      rename_i bare
      rw [Leaf.spell, spellText, if_pos bare]
    · rename_i notBare
      rw [Leaf.spell, spellText_eq_quotedText notBare]
  | .boolean value => cases value <;> decide +kernel
  | .foreignCall name arguments =>
    rw [phrase, spell, Phrase.spell]
    split
    · rw [Primary.spell, List.append_nil]
    · rw [Primary.spell, spell_phraseAll arguments, List.append_assoc]
  | .mapped ref key => rw [phrase, spell, Phrase.spell, Primary.spell, spell_phrase key]
  | .binary op left right =>
    rw [phrase, spell, Phrase.spell, spell_operandPhrase (spell_phrase left),
      spell_operandPhrase (spell_phrase right)]
  | .not operand =>
    rw [phrase, spell, Phrase.spell, spell_operandPhrase (spell_phrase operand)]
  | .number _ | .address _ | .bytes _ | .identifier _ | .argument _ | .tracker _ | .global _ =>
    rfl

theorem spell_phraseAll (es : List Expr) : (phraseAll es).spell = spellArguments es := by
  match es with
  | [] => rfl
  | e :: rest =>
    rw [phraseAll, spellArguments]
    split
    · rw [Arguments.spell, spell_phrase e, List.append_nil]
    · rw [Arguments.spell, spell_phrase e, spell_phraseAll rest]

end

/-! ### Reading -/

/-- The token that a part of an expression comes with. -/
def token : Expr → Token
  | number value => .number value
  | address value => .address value
  | text value => if isBareWord value.toList then .identifier value else .text value
  | bytes value => .bytes value
  | boolean value => .number (if value then 1 else 0)
  | identifier name => .identifier name
  | argument name => .identifier name
  | tracker ref => ref.token
  | foreignCall name _ => .foreignCall name
  | global which => .globalVariable which.name
  | mapped ref _ => ref.token
  | binary op _ _ => .operator op
  | not _ => .not

/-- The token of a lexical part is lexical. -/
theorem Lexical.token {e : Expr} (h : e.Lexical) : e.token.Lexical := by
  cases e with
  | text value =>
    rw [Expr.token]
    split
    · rename_i bare
      exact bare
    · trivial
  | tracker ref => exact TrackerRef.lexical_token_iff.2 h
  | mapped ref key => exact TrackerRef.lexical_token_iff.2 h
  | global which => cases which <;> rfl
  | number _ => trivial
  | boolean _ => trivial
  | binary op _ _ => trivial
  | not _ => trivial
  | _ => exact h

/-- Parentheses around an operand bring in no token of a part. -/
theorem mem_yield_operandPhrase {e : Expr} {t : Phrase} {k : Token}
    (mem : k ∈ (operandPhrase e t).yield) (isPart : k.isPart) : k ∈ t.yield := by
  rw [operandPhrase] at mem
  split at mem
  · simp only [Phrase.yield, Primary.yield, List.mem_cons, List.mem_append, List.not_mem_nil,
      or_false] at mem
    rcases mem with rfl | mem | rfl
    · cases isPart
    · exact mem
    · cases isPart
  · exact mem

mutual

/-- Every token of the text comes with a part of the expression, parentheses and commas aside. -/
theorem exists_part (e : Expr) {k : Token} (mem : k ∈ e.phrase.yield) (isPart : k.isPart) :
    ∃ n ∈ e.nodes, n.token = k := by
  -- parentheses and commas come with no part; every other token is the own token of a node
  match e with
  | .text value =>
    refine ⟨_, List.mem_cons_self, ?_⟩
    rw [phrase] at mem
    rw [token]
    split at mem
    · rename_i bare
      rw [if_pos bare]
      exact (List.mem_singleton.1 mem).symm
    · rename_i notBare
      rw [if_neg notBare]
      exact (List.mem_singleton.1 mem).symm
  | .foreignCall name arguments =>
    rw [phrase] at mem
    split at mem
    · exact ⟨_, List.mem_cons_self, (List.mem_singleton.1 mem).symm⟩
    · simp only [Phrase.yield, Primary.yield, List.mem_cons, List.mem_append, List.not_mem_nil,
        or_false] at mem
      rcases mem with rfl | rfl | mem | rfl
      · exact ⟨_, List.mem_cons_self, rfl⟩
      · cases isPart
      · obtain ⟨n, inside, eq⟩ := exists_partAll arguments mem isPart
        exact ⟨n, List.mem_cons_of_mem _ inside, eq⟩
      · cases isPart
  | .mapped ref key =>
    simp only [phrase, Phrase.yield, Primary.yield, List.mem_cons, List.mem_append,
      List.not_mem_nil, or_false] at mem
    rcases mem with rfl | rfl | mem | rfl
    · exact ⟨_, List.mem_cons_self, rfl⟩
    · cases isPart
    · obtain ⟨n, inside, eq⟩ := exists_part key mem isPart
      exact ⟨n, List.mem_cons_of_mem _ inside, eq⟩
    · cases isPart
  | .binary op left right =>
    rw [phrase, Phrase.yield] at mem
    rcases List.mem_append.1 mem with mem | mem
    · obtain ⟨n, inside, eq⟩ := exists_part left (mem_yield_operandPhrase mem isPart) isPart
      exact ⟨n, List.mem_cons_of_mem _ (List.mem_append_left _ inside), eq⟩
    · rcases List.mem_cons.1 mem with rfl | mem
      · exact ⟨_, List.mem_cons_self, rfl⟩
      · obtain ⟨n, inside, eq⟩ := exists_part right (mem_yield_operandPhrase mem isPart) isPart
        exact ⟨n, List.mem_cons_of_mem _ (List.mem_append_right _ inside), eq⟩
  | .not operand =>
    rw [phrase, Phrase.yield] at mem
    rcases List.mem_cons.1 mem with rfl | mem
    · exact ⟨_, List.mem_cons_self, rfl⟩
    · obtain ⟨n, inside, eq⟩ := exists_part operand (mem_yield_operandPhrase mem isPart) isPart
      exact ⟨n, List.mem_cons_of_mem _ inside, eq⟩
  | .number _ | .address _ | .bytes _ | .boolean _ | .identifier _ | .argument _ | .tracker _
  | .global _ => exact ⟨_, List.mem_cons_self, (List.mem_singleton.1 mem).symm⟩

/-- Every token of the arguments that comes with a part is the token of one. -/
theorem exists_partAll (es : List Expr) {k : Token} (mem : k ∈ (phraseAll es).yield)
    (isPart : k.isPart) : ∃ n ∈ nodesAll es, n.token = k := by
  match es with
  | [] => cases mem
  | e :: rest =>
    rw [phraseAll] at mem
    split at mem
    · obtain ⟨n, inside, eq⟩ := exists_part e mem isPart
      exact ⟨n, List.mem_append_left _ inside, eq⟩
    · rw [Arguments.yield] at mem
      rcases List.mem_append.1 mem with mem | mem
      · obtain ⟨n, inside, eq⟩ := exists_part e mem isPart
        exact ⟨n, List.mem_append_left _ inside, eq⟩
      · rcases List.mem_cons.1 mem with rfl | mem
        · cases isPart
        · obtain ⟨n, inside, eq⟩ := exists_partAll rest mem isPart
          exact ⟨n, List.mem_append_right _ inside, eq⟩

end

/-- What a lexical expression is written down as can be scanned. -/
theorem lexical_phrase {e : Expr} (h : ∀ n ∈ e.nodes, n.Lexical) :
    ∀ k ∈ e.phrase.yield, k.Lexical := by
  intro k mem
  by_cases isPart : k.isPart
  · obtain ⟨n, inside, rfl⟩ := exists_part e mem isPart
    exact (h n inside).token
  · cases k <;> trivial

/-- What the text of an expression parses as. -/
def reread (e : Expr) : Expr :=
  e.phrase.regroup.erase

/-- The text of an expression parses, and the tokens decide how. -/
theorem parse_render {e : Expr} (lexical : ∀ n ∈ e.nodes, n.Lexical) :
    parse e.render = .ok e.reread := by
  have scans : Scans (e.phrase.spell ++ []) (e.phrase.yield ++ [.endOfInput]) :=
    e.phrase.scans_spell (lexical_phrase lexical) trivial .nil
  obtain ⟨ts, scanned, yields⟩ := scans 0
  rw [List.append_nil, spell_phrase] at scanned
  have scanned : Token.scan e.render = .ok ts := by
    rw [Token.scan, render, String.toList_ofList]
    exact scanned
  refine parse_of_scan scanned e.phrase.wellGrouped_regroup ?_
  rw [Phrase.yield_regroup]
  exact yields

/-- The phrase of the expression is well grouped as it is, so no operator changes its operands
when the text is read. -/
def Faithful (e : Expr) : Prop :=
  e.phrase.WellGrouped

instance (e : Expr) : Decidable e.Faithful :=
  inferInstanceAs (Decidable e.phrase.WellGrouped)

/-! ### What reading keeps -/

mutual

/-- What an expression is written down as has its shape. -/
theorem shape_phrase (e : Expr) : e.phrase.erase.shape = e.shape := by
  match e with
  | .text value =>
    rw [phrase]
    split <;> rfl
  | .foreignCall name arguments =>
    rw [phrase]
    split
    · rename_i none
      rw [List.isEmpty_iff.1 none]
      rfl
    · rw [Phrase.erase, Primary.erase, shape, shape, shapeAll_phraseAll arguments]
  | .mapped ref key => rw [phrase, Phrase.erase, Primary.erase, shape, shape, shape_phrase key]
  | .binary op left right =>
    rw [phrase, Phrase.erase, shape, shape, erase_operandPhrase, erase_operandPhrase,
      shape_phrase left, shape_phrase right]
  | .not operand =>
    rw [phrase, Phrase.erase, shape, shape, erase_operandPhrase, shape_phrase operand]
  | .number _ | .address _ | .bytes _ | .boolean _ | .identifier _ | .argument _ | .tracker _
  | .global _ => rfl

theorem shapeAll_phraseAll (es : List Expr) :
    shapeAll (phraseAll es).erase = shapeAll es := by
  match es with
  | [] => rfl
  | e :: rest =>
    rw [phraseAll]
    split
    · rename_i none
      rw [List.isEmpty_iff.1 none, Arguments.erase, shapeAll, shape_phrase e]
      rfl
    · rw [Arguments.erase, shapeAll, shapeAll, shape_phrase e, shapeAll_phraseAll rest]

end

/-- What is read again is nested as before exactly if the expression is faithful. -/
theorem shape_reread_iff {e : Expr} : e.reread.shape = e.shape ↔ e.Faithful := by
  rw [← shape_phrase e]
  exact Phrase.shape_regroup_iff

/-- Then it is what the phrase stands for. -/
theorem Faithful.reread_eq {e : Expr} (h : e.Faithful) : e.reread = e.phrase.erase :=
  Phrase.erase_eq_of_yield_eq e.phrase.wellGrouped_regroup h e.phrase.yield_regroup

/-- Rereading keeps the number of parts. -/
theorem length_nodes_reread (e : Expr) : e.reread.nodes.length = e.nodes.length := by
  rw [reread, Phrase.length_nodes, Phrase.yield_regroup, ← Phrase.length_nodes,
    ← length_nodes_shape, shape_phrase, length_nodes_shape]

/-- Whether a part stands between operators. -/
def isOperand : Expr → Bool
  | binary _ _ _ | not _ => false
  | _ => true

/-- The parts of an expression, keys and arguments included, that are not operators. -/
def operands (e : Expr) : List Expr :=
  e.nodes.filter isOperand

/-- The operands of an operation are those of its two sides. -/
theorem operands_binary (op : BinaryOp) (left right : Expr) :
    (binary op left right).operands = left.operands ++ right.operands := by
  rw [operands, nodes, List.filter_cons_of_neg (by simp [isOperand]), List.filter_append]
  rfl

end Expr

/-- The parts of a piece that are not operators. -/
def Piece.operands : Piece → List Expr
  | primary p => p.erase.operands
  | not | operator _ => []

/-- The operands of a phrase are those of its pieces. -/
theorem Phrase.operands_erase (t : Phrase) :
    t.erase.operands = t.pieces.flatMap Piece.operands := by
  cases t with
  | primary p => rw [pieces, List.flatMap_singleton]; rfl
  | not operand =>
    rw [pieces, List.flatMap_cons, ← operands_erase operand]
    rfl
  | binary op left right =>
    rw [pieces, List.flatMap_append, List.flatMap_cons, ← operands_erase left,
      ← operands_erase right, erase, Expr.operands_binary]
    rfl

namespace Expr

/-- Regrouping an operation keeps the operands of its two sides in order. -/
theorem operands_regroup_binary (op : BinaryOp) (l r : Phrase) :
    (Phrase.binary op l r).regroup.erase.operands =
      l.regroup.erase.operands ++ r.regroup.erase.operands := by
  rw [Phrase.operands_erase, Phrase.operands_erase, Phrase.operands_erase, Phrase.pieces_regroup,
    Phrase.pieces_regroup, Phrase.pieces_regroup, Phrase.pieces, List.map_append,
    List.flatMap_append]
  rfl

theorem operands_regroup_not (t : Phrase) :
    (Phrase.not t).regroup.erase.operands = t.regroup.erase.operands := by
  rw [Phrase.operands_erase, Phrase.operands_erase, Phrase.pieces_regroup, Phrase.pieces_regroup]
  rfl

/-- Parentheses or not, an operand is reread by itself. -/
theorem erase_regroup_operandPhrase (e : Expr) :
    (operandPhrase e e.phrase).regroup.erase = e.reread := by
  rw [operandPhrase]
  split <;> rfl

theorem erase_regroup_phraseAll (es : List Expr) :
    (phraseAll es).regroup.erase = es.map reread := by
  induction es with
  | nil => rfl
  | cons e rest ih =>
    rw [phraseAll]
    split
    · rename_i none
      rw [List.isEmpty_iff.1 none]
      rfl
    · rw [Arguments.regroup, Arguments.erase, ih]
      rfl

/-- A text that looks like a name is reread as one. -/
theorem reread_text (value : String) :
    (text value).reread = if isBareWord value.toList then identifier value else text value := by
  rw [reread, phrase]
  split <;> rfl

/-- A call is read again with its arguments read again. -/
theorem reread_foreignCall (name : String) (arguments : List Expr) :
    (foreignCall name arguments).reread = foreignCall name (arguments.map reread) := by
  rw [reread, phrase]
  split
  · rename_i none
    rw [List.isEmpty_iff.1 none]
    rfl
  · rw [← erase_regroup_phraseAll]
    rfl

mutual

/-- The parts that are not operators are read again one by one. -/
theorem operands_reread (e : Expr) : e.reread.operands = e.operands.map reread := by
  match e with
  | .text value =>
    show (Expr.text value).reread.operands = [(Expr.text value).reread]
    rw [reread_text]
    split <;> rfl
  | .foreignCall name arguments =>
    rw [reread_foreignCall, operands, nodes, List.filter_cons_of_pos rfl, operands_rereadAll,
      operands, nodes, List.filter_cons_of_pos rfl, List.map_cons, reread_foreignCall]
  | .mapped ref key =>
    have inKey := operands_reread key
    show Expr.mapped ref key.reread :: key.reread.operands = _
    rw [inKey]
    rfl
  | .binary op left right =>
    -- regrouping moves operators, and never an operand
    rw [reread, phrase, operands_regroup_binary, erase_regroup_operandPhrase,
      erase_regroup_operandPhrase, operands_reread left, operands_reread right, operands_binary,
      List.map_append]
  | .not operand =>
    rw [reread, phrase, operands_regroup_not, erase_regroup_operandPhrase, operands_reread operand]
    rfl
  | .number _ | .address _ | .bytes _ | .boolean _ | .identifier _ | .argument _ | .tracker _
  | .global _ => rfl

/-- The operands in arguments are reread one by one. -/
theorem operands_rereadAll (es : List Expr) :
    (nodesAll (es.map reread)).filter isOperand = ((nodesAll es).filter isOperand).map reread := by
  match es with
  | [] => rfl
  | e :: rest =>
    rw [List.map_cons, nodesAll, nodesAll, List.filter_append, List.filter_append, List.map_append,
      operands_rereadAll rest]
    exact congrArg (· ++ _) (operands_reread e)

end

/-- Every operand of what is reread is the rereading of an operand. -/
theorem exists_operand_of_reread {e n' : Expr} (mem : n' ∈ e.reread.nodes)
    (operand : n'.isOperand) : ∃ n ∈ e.nodes, n.isOperand ∧ n.reread = n' := by
  have mem : n' ∈ e.reread.operands := List.mem_filter.2 ⟨mem, operand⟩
  rw [operands_reread] at mem
  obtain ⟨n, inside, is⟩ := List.mem_map.1 mem
  obtain ⟨inside, operand⟩ := List.mem_filter.1 inside
  exact ⟨n, inside, operand, is⟩

end Expr

end RuleCodec
