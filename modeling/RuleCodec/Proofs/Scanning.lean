/-
RuleCodec/Proofs/Scanning.lean

What the tokens of a text look like.

`Token.Lexical` says what a token that was read from a text can hold: names
are words, an identifier is no keyword, an address has twenty bytes and a byte
string has any other number of them.  Scanning gives such tokens and then the
end of the input, at most one token for each character
(`Token.scanFrom_eq_ok`).  Together with the grammar this says what a text that
parses is: the yield of a well-grouped phrase (`Expr.exists_phrase_of_parse`).
-/
import Mathlib.Tactic.SplitIfs
import RuleCodec.Expr.Normal
import RuleCodec.Proofs.Numerals
import RuleCodec.Proofs.Parsing

namespace RuleCodec

open Text

/-! ### Tokens of a text -/

/-- Whether a text can stand as a name behind a marker. -/
def isName (cs : List Char) : Bool :=
  !cs.isEmpty && cs.all isWordPart

/-- A token as it can be read from a text. -/
def Token.Lexical : Token → Prop
  | .identifier name => isBareWord name.toList
  | .trackerRead name | .trackerUpdate name | .foreignCall name | .globalVariable name =>
    isName name.toList
  | .address value => value.toNat < 16 ^ 40
  | .bytes value => value.length ≠ 20
  | .endOfInput => False
  | _ => True

theorem TrackerRef.lexical_token_iff {ref : TrackerRef} :
    ref.token.Lexical ↔ isName ref.name.toList := by
  rw [TrackerRef.token]
  split <;> exact Iff.rfl

namespace Token

/-- Keywords are lexical. -/
theorem lexical_of_keyword? {word : List Char} {t : Token} (h : keyword? word = some t) :
    t.Lexical := by
  unfold keyword? at h
  split_ifs at h <;> cases h <;> trivial

/-- A reference is lexical if its name is one. -/
theorem lexical_of_reference? {marker : List Char} {name : String} {t : Token}
    (h : reference? marker name = some t) (is : isName name.toList) : t.Lexical := by
  unfold reference? at h
  split_ifs at h <;> cases h <;> exact is

end Token

/-! ### Lexemes -/

namespace Lexeme

variable {position : Nat} {c : Char} {rest : List Char} {l : Lexeme}

/-- What is scanned from a word is lexical. -/
theorem lexical_of_word (start : isWordStart c) (h : word position c rest = .ok l) :
    l.token.Lexical := by
  unfold word at h
  split at h
  · -- a colon follows: a reference
    simp only at h
    split at h
    · cases h
    · rename_i more _ nonempty
      split at h
      · rename_i token found
        cases h
        refine Token.lexical_of_reference? found ?_
        rw [String.toList_ofList, isName, List.all_takeWhile]
        simpa using nonempty
      · cases h
  · -- a keyword or an identifier
    simp only [Except.ok.injEq] at h
    subst h
    cases keyword : Token.keyword? (c :: rest.takeWhile isWordPart) with
    | some token => exact Token.lexical_of_keyword? keyword
    | none =>
      show isBareWord (String.ofList (c :: rest.takeWhile isWordPart)).toList
      rw [String.toList_ofList, isBareWord, start, List.all_takeWhile, keyword]
      rfl

theorem lexical_of_text {quote : Char} (h : text position quote rest = .ok l) :
    l.token.Lexical := by
  unfold text at h
  split at h
  · cases h
    trivial
  · cases h

/-- Forty digits are scanned as an address, so bytes are never twenty. -/
theorem lexical_of_hex (h : hex position rest = .ok l) : l.token.Lexical := by
  unfold hex at h
  simp only at h
  split_ifs at h with _ forty
  · -- forty digits are an address
    split at h
    · rename_i value read
      cases h
      have lt := Word.toNat_lt_of_ofHex? read
      rw [forty] at lt
      exact lt
    · cases h
  · -- any other number of them are bytes, and not twenty
    split at h
    · rename_i value read
      cases h
      have length := Bytes.length_ofHex? read
      show value.length ≠ 20
      omega
    · cases h

theorem lexical_of_number (h : number position c rest = .ok l) : l.token.Lexical := by
  unfold number at h
  simp only at h
  split at h
  · cases h
  · split at h
    · cases h
      trivial
    · cases h

theorem lexical_of_numeral (h : numeral position c rest = .ok l) : l.token.Lexical := by
  unfold numeral at h
  split at h
  · split at h
    · exact lexical_of_hex h
    · exact lexical_of_number h
  · exact lexical_of_number h

theorem lexical_of_punctuation? {t : Token} (h : punctuation? c = some t) : t.Lexical := by
  unfold punctuation? at h
  split_ifs at h <;> cases h <;> trivial

/-- Every token that is scanned is lexical. -/
theorem lexical_of_first (h : first position c rest = .ok l) : l.token.Lexical := by
  unfold first at h
  split at h
  · rename_i token found
    cases h
    exact lexical_of_punctuation? found
  · split at h
    · split at h <;> cases h <;> trivial
    · split_ifs at h with _ _ _ start
      · cases h
        trivial
      · exact lexical_of_text h
      · exact lexical_of_numeral h
      · exact lexical_of_word start h

end Lexeme

/-! ### Whole texts -/

/-- Scanning ends with the end of the input, behind lexical tokens that have a character each. -/
theorem Token.scanFrom_eq_ok {position : Nat} {cs : List Char} {ts : List Located}
    (h : Token.scanFrom position cs = .ok ts) :
    ∃ body last, ts = body ++ [⟨.endOfInput, last⟩] ∧ body.length ≤ cs.length ∧
      ∀ t ∈ body, t.token.Lexical := by
  fun_induction Token.scanFrom position cs generalizing ts with
  | case1 position =>
    cases h
    exact ⟨[], position, rfl, Nat.le_refl _, by simp⟩
  | case2 position c cs blank ih =>
    -- a blank gives no token
    obtain ⟨body, last, eq, length, lexical⟩ := ih h
    refine ⟨body, last, eq, ?_, lexical⟩
    rw [List.length_cons]
    omega
  | case3 => cases h
  | case4 => cases h
  | case5 position c cs blank lexeme read rest more ih =>
    cases h
    obtain ⟨body, last, eq, length, lexical⟩ := ih more
    refine ⟨⟨lexeme.token, position⟩ :: body, last, ?_, ?_, ?_⟩
    · rw [eq, List.cons_append]
    · rw [List.length_drop] at length
      rw [List.length_cons, List.length_cons]
      omega
    · intro t mem
      rcases List.mem_cons.1 mem with rfl | mem
      · exact Lexeme.lexical_of_first read
      · exact lexical t mem

/-! ### Parentheses -/

/-- Whether parentheses pair up in tokens, when some are open before them. -/
def Token.Pairs : Nat → List Token → Prop
  | opened, [] => opened = 0
  | opened, .leftParen :: ts => Token.Pairs (opened + 1) ts
  | opened, .rightParen :: ts => ∃ outer, opened = outer + 1 ∧ Token.Pairs outer ts
  | opened, _ :: ts => Token.Pairs opened ts

theorem Expr.checkParentheses_cons (opened : List Nat) (t : Located) (ts : List Located) :
    checkParentheses opened (t :: ts) =
      match t.token with
      | .leftParen => checkParentheses (t.position :: opened) ts
      | .rightParen =>
        match opened with
        | [] => .error (.malformed .unmatchedClose t.position)
        | _ :: outer => checkParentheses outer ts
      | _ => checkParentheses opened ts := by
  cases opened <;> rfl

/-- Parentheses that pair are accepted. -/
theorem Expr.checkParentheses_of_pairs {opened : List Nat} {ts : List Located}
    (h : Token.Pairs opened.length (tokens ts)) : checkParentheses opened ts = .ok () := by
  -- only the number of open parentheses counts, and not where they were opened
  induction ts generalizing opened with
  | nil =>
    have none : opened = [] := List.eq_nil_of_length_eq_zero h
    rw [none]
    rfl
  | cons t ts ih =>
    obtain ⟨token, position⟩ := t
    rw [tokens_cons] at h
    rw [checkParentheses_cons]
    cases token with
    | leftParen =>
      have inner : Token.Pairs (position :: opened).length (tokens ts) := h
      exact ih inner
    | rightParen =>
      obtain ⟨outer, length, h⟩ := h
      cases opened with
      | nil => cases length
      | cons _ opened => exact ih (by rw [Nat.succ.inj length]; exact h)
    | _ => exact ih h

theorem TrackerRef.pairs_token (ref : TrackerRef) (n : Nat) (ts : List Token) :
    Token.Pairs n (ref.token :: ts) ↔ Token.Pairs n ts := by
  rw [TrackerRef.token]
  split <;> exact Iff.rfl

/-- A pair of parentheses around tokens that keep to themselves. -/
theorem Token.pairs_parens {n : Nat} {inner ts : List Token}
    (h : ∀ ts, Token.Pairs (n + 1) (inner ++ ts) ↔ Token.Pairs (n + 1) ts) :
    Token.Pairs n (.leftParen :: (inner ++ [.rightParen]) ++ ts) ↔ Token.Pairs n ts := by
  rw [List.cons_append, List.append_assoc]
  refine (h (.rightParen :: ts)).trans ?_
  constructor
  · rintro ⟨outer, length, pairs⟩
    rw [Nat.succ.inj length]
    exact pairs
  · intro pairs
    exact ⟨n, rfl, pairs⟩

-- the tokens of a phrase open and close their own parentheses only
mutual

/-- The parentheses of a primary pair among themselves. -/
theorem Primary.pairs_yield (p : Primary) (n : Nat) (ts : List Token) :
    Token.Pairs n (p.yield ++ ts) ↔ Token.Pairs n ts := by
  match p with
  | .leaf l =>
    rw [Primary.yield, List.singleton_append]
    cases l <;> exact Iff.rfl
  | .tracker ref =>
    rw [Primary.yield, List.singleton_append, ref.pairs_token]
  | .keyed ref key =>
    rw [Primary.yield, List.cons_append, ref.pairs_token]
    exact Token.pairs_parens (key.pairs_yield (n + 1))
  | .call name => exact Iff.rfl
  | .callWith name arguments => exact Token.pairs_parens (arguments.pairs_yield (n + 1))
  | .paren inner => exact Token.pairs_parens (inner.pairs_yield (n + 1))
  | .piped key ref =>
    rw [Primary.yield, List.append_assoc, key.pairs_yield]
    exact ref.pairs_token n ts

/-- So do those of arguments. -/
theorem Arguments.pairs_yield (a : Arguments) (n : Nat) (ts : List Token) :
    Token.Pairs n (a.yield ++ ts) ↔ Token.Pairs n ts := by
  match a with
  | .none => exact Iff.rfl
  | .last argument => exact argument.pairs_yield n ts
  | .more argument rest =>
    rw [Arguments.yield, List.append_assoc, argument.pairs_yield]
    exact rest.pairs_yield n ts

/-- And so do those of a phrase. -/
theorem Phrase.pairs_yield (t : Phrase) (n : Nat) (ts : List Token) :
    Token.Pairs n (t.yield ++ ts) ↔ Token.Pairs n ts := by
  match t with
  | .primary p => exact p.pairs_yield n ts
  | .not operand =>
    rw [Phrase.yield, List.cons_append]
    exact operand.pairs_yield n ts
  | .binary op left right =>
    rw [Phrase.yield, List.append_assoc, left.pairs_yield]
    exact right.pairs_yield n ts

end

/-! ### Texts that parse -/

/-- The tokens of a text that parses are the yield of a phrase. -/
theorem Expr.exists_scan_of_parse {source : String} {e : Expr} (h : Expr.parse source = .ok e) :
    ∃ (ts : List Located) (t : Phrase), Token.scan source = .ok ts ∧ Expr.ofTokens ts = .ok e ∧
      tokens ts = t.yield ++ [.endOfInput] ∧ t.WellGrouped ∧ t.erase = e ∧
      t.yield.length ≤ source.length ∧ ∀ k ∈ t.yield, k.Lexical := by
  unfold Expr.parse at h
  cases scanned : Token.scan source with
  | error fault => rw [scanned] at h; cases h
  | ok ts =>
    have h : ofTokens ts = .ok e := by
      rw [scanned] at h
      exact h
    obtain ⟨body, last, rfl, length, lexical⟩ := Token.scanFrom_eq_ok scanned
    -- the end of the input is not lexical, so it stands only at the end
    have noEnd : Token.endOfInput ∉ tokens body := by
      intro mem
      obtain ⟨t, mem, eq⟩ := List.mem_map.1 mem
      have := lexical t mem
      rw [eq] at this
      exact this
    obtain ⟨t, grouped, yields, erases⟩ := ofTokens_sound noEnd h
    refine ⟨_, t, rfl, h, ?_, grouped, erases, ?_, ?_⟩
    · rw [tokens_append, ← yields]
      rfl
    · rw [yields, tokens, List.length_map, ← String.length_toList]
      exact length
    · intro k mem
      rw [yields] at mem
      obtain ⟨located, inBody, rfl⟩ := List.mem_map.1 mem
      exact lexical located inBody

/-- The parentheses of a phrase pair up. -/
theorem Expr.checkParentheses_of_yield {ts : List Located} {t : Phrase}
    (h : tokens ts = t.yield ++ [.endOfInput]) : checkParentheses [] ts = .ok () := by
  apply checkParentheses_of_pairs
  rw [h]
  exact (t.pairs_yield 0 _).2 rfl

/-- The text behind an expression is the yield of a phrase, and has a normal form. -/
theorem Expr.exists_phrase_of_parse {source : String} {e : Expr} (h : Expr.parse source = .ok e) :
    Expr.normalize source = .ok e.render ∧
      ∃ t : Phrase, t.WellGrouped ∧ t.erase = e ∧ t.yield.length ≤ source.length ∧
        ∀ k ∈ t.yield, k.Lexical := by
  obtain ⟨ts, t, scanned, read, yields, found⟩ := exists_scan_of_parse h
  refine ⟨?_, t, found⟩
  -- normalizing checks parentheses before it reads
  simp only [Expr.normalize, scanned, checkParentheses_of_yield yields, read, bind, Except.bind,
    pure, Except.pure]

/-- The texts that have a normal form are those that parse. -/
theorem Expr.normalize_eq_ok_iff {source text : String} :
    Expr.normalize source = .ok text ↔ ∃ e, Expr.parse source = .ok e ∧ e.render = text := by
  constructor
  · intro h
    rcases scanned : Token.scan source with fault | ts
    · simp [normalize, scanned, Bind.bind, Except.bind] at h
    · -- parentheses are checked in between, which changes nothing
      rcases checked : checkParentheses [] ts with fault | u
      · simp [normalize, scanned, checked, Bind.bind, Except.bind] at h
      · rcases read : ofTokens ts with fault | e
        · simp [normalize, scanned, checked, read, Bind.bind, Except.bind] at h
        · simp only [normalize, scanned, checked, read, Bind.bind, Except.bind, Pure.pure,
            Except.pure, Except.ok.injEq] at h
          refine ⟨e, ?_, h⟩
          rw [parse, scanned]
          exact read
  · rintro ⟨e, parsed, rfl⟩
    exact (exists_phrase_of_parse parsed).1

end RuleCodec
