/-
RuleCodec/Proofs/Trimming.lean

Blanks at the ends of a text.

A blank is part of no word, no numeral and no operator, so a token is read the
same before a blank and at the end of the text (`Lexeme.first_append`).  Hence
a text that stands before a blank is scanned by itself, whatever follows
(`Scans.append`), and a text is read the same with the blanks at its ends and
without them (`Expr.parse_of_trim`).
-/
import RuleCodec.Proofs.Spelling
import RuleCodec.Proofs.Texts

namespace RuleCodec

open Text

/-! ### Blanks are part of nothing -/

theorem Text.isWordStart_of_isBlank {c : Char} (h : isBlank c) : isWordStart c = false := by
  rw [Bool.eq_false_iff]
  intro start
  rw [isBlank_of_isWordStart start] at h
  cases h

theorem Text.isWordPart_of_isBlank {c : Char} (h : isBlank c) : isWordPart c = false := by
  have start := isWordStart_of_isBlank h
  have numeric : isNumeric c = false := CodeRanges.not_holds_of_apart (by decide +kernel) h
  rw [isWordStart, Bool.or_eq_false_iff] at start
  rw [isWordPart, isAlphanumeric, start.1, start.2, numeric]
  rfl

theorem Text.isHexDigit_of_isBlank {c : Char} (h : isBlank c) : isHexDigit c = false := by
  -- blanks and digits are ranges of characters, which are compared by their ends
  have others : CodeRanges.holds
      [('0'.toNat, '9'.toNat), ('A'.toNat, 'F'.toNat), ('a'.toNat, 'f'.toNat)] c = false :=
    CodeRanges.not_holds_of_apart (by decide +kernel) h
  rw [Bool.eq_false_iff] at others ⊢
  intro digit
  apply others
  simp only [isHexDigit, isDecimalDigit, Bool.or_eq_true, Bool.and_eq_true, decide_eq_true_eq]
    at digit
  have bounds : (('0'.toNat ≤ c.toNat ∧ c.toNat ≤ '9'.toNat) ∨
      ('a'.toNat ≤ c.toNat ∧ c.toNat ≤ 'f'.toNat)) ∨
        ('A'.toNat ≤ c.toNat ∧ c.toNat ≤ 'F'.toNat) := digit
  simp only [CodeRanges.holds, CodeRanges.holdsAt, Bool.and_eq_true, Bool.or_eq_true,
    decide_eq_true_eq, Bool.false_eq_true, or_false]
  have zero : '0'.toNat = 48 := rfl
  have nine : '9'.toNat = 57 := rfl
  have upperA : 'A'.toNat = 65 := rfl
  have upperF : 'F'.toNat = 70 := rfl
  have lowerA : 'a'.toNat = 97 := rfl
  have lowerF : 'f'.toNat = 102 := rfl
  omega

theorem Text.isDecimalDigit_of_isBlank {c : Char} (h : isBlank c) : isDecimalDigit c = false := by
  have none := isHexDigit_of_isBlank h
  rw [isHexDigit, Bool.or_eq_false_iff, Bool.or_eq_false_iff] at none
  exact none.1.1

namespace Text.Fades

variable {rest : List Char} (fades : Fades rest) {p : Char → Bool}
  (stops : ∀ c, isBlank c → p c = false)

include fades stops

theorem takeWhile_append (cs : List Char) : (cs ++ rest).takeWhile p = cs.takeWhile p := by
  induction cs with
  | nil =>
    cases rest with
    | nil => rfl
    | cons c rest => rw [List.nil_append, List.takeWhile_cons, stops c fades]; rfl
  | cons c cs ih => rw [List.cons_append, List.takeWhile_cons, List.takeWhile_cons, ih]

theorem dropWhile_append (cs : List Char) :
    (cs ++ rest).dropWhile p = cs.dropWhile p ++ rest := by
  induction cs with
  | nil =>
    cases rest with
    | nil => rfl
    | cons c rest => rw [List.nil_append, List.dropWhile_cons, stops c fades]; rfl
  | cons c cs ih =>
    rw [List.cons_append, List.dropWhile_cons, List.dropWhile_cons, ih]
    split <;> rfl

theorem head?_any_append (cs : List Char) : (cs ++ rest).head?.any p = cs.head?.any p := by
  cases cs with
  | nil =>
    cases rest with
    | nil => rfl
    | cons c rest => exact stops c fades
  | cons c cs => rfl

end Text.Fades

/-! ### Lexemes before blanks -/

namespace Lexeme

variable {position : Nat} {c : Char} {cs rest : List Char} {l : Lexeme}

/-- A word is scanned alike if blanks or the end of the text follow. -/
theorem word_append (h : word position c cs = .ok l) (fades : Fades rest) (position' : Nat) :
    word position' c (cs ++ rest) = .ok l := by
  unfold word at h ⊢
  rw [fades.takeWhile_append fun _ => isWordPart_of_isBlank,
    fades.dropWhile_append fun _ => isWordPart_of_isBlank]
  simp only at h ⊢
  split at h
  · -- a reference: its name ends before the blanks
    rename_i more colon
    simp only [colon, List.cons_append, fades.takeWhile_append fun _ => isWordPart_of_isBlank]
    split at h
    · cases h
    · rename_i named
      rw [if_neg named]
      split at h
      · exact h
      · cases h
  · -- any other word: the blanks bring no colon
    rename_i plain
    split
    · rename_i more colon
      cases dropped : cs.dropWhile isWordPart with
      | nil =>
        rw [dropped, List.nil_append] at colon
        rw [colon] at fades
        cases fades
      | cons d others =>
        rw [dropped, List.cons_append] at colon
        cases colon
        exact absurd dropped (plain others)
    · exact h

/-- What follows the closing quote does not matter. -/
theorem untilQuote_append {quote : Char} {found : List Char × Nat}
    (h : untilQuote quote cs = some found) (rest : List Char) :
    untilQuote quote (cs ++ rest) = some found := by
  fun_induction untilQuote quote cs generalizing found with
  | case1 => cases h
  | case2 cs =>
    rw [List.cons_append, untilQuote.eq_def]
    simp only [if_true, h]
  | case3 other => cases h
  | case4 escaped cs other ih =>
    obtain ⟨found, inner, rfl⟩ := Option.map_eq_some_iff.1 h
    rw [List.cons_append, untilQuote.eq_def]
    simp only [if_neg other, if_true, List.cons_append, ih inner, Option.map_some]
  | case5 c cs other plain ih =>
    obtain ⟨found, inner, rfl⟩ := Option.map_eq_some_iff.1 h
    rw [List.cons_append, untilQuote_cons _ other plain, ih inner]
    rfl

theorem text_append {quote : Char} (h : text position quote cs = .ok l) (rest : List Char)
    (position' : Nat) : text position' quote (cs ++ rest) = .ok l := by
  unfold text at h ⊢
  split at h
  · rename_i found quoted
    rw [untilQuote_append quoted]
    exact h
  · cases h

/-- A hexadecimal literal is scanned alike if blanks or the end of the text follow. -/
theorem hex_append (h : hex position cs = .ok l) (fades : Fades rest) (position' : Nat) :
    hex position' (cs ++ rest) = .ok l := by
  unfold hex at h ⊢
  rw [fades.takeWhile_append fun _ => isHexDigit_of_isBlank,
    fades.dropWhile_append fun _ => isHexDigit_of_isBlank,
    fades.head?_any_append fun _ => isWordPart_of_isBlank]
  simp only at h ⊢
  split at h
  · cases h
  · rename_i ends
    rw [if_neg ends]
    split at h
    · rename_i forty
      rw [if_pos forty]
      split at h
      · exact h
      · cases h
    · rename_i other
      rw [if_neg other]
      split at h
      · exact h
      · cases h

theorem number_append (h : number position c cs = .ok l) (fades : Fades rest) (position' : Nat) :
    number position' c (cs ++ rest) = .ok l := by
  unfold number at h ⊢
  rw [fades.takeWhile_append fun _ => isDecimalDigit_of_isBlank,
    fades.dropWhile_append fun _ => isDecimalDigit_of_isBlank,
    fades.head?_any_append fun _ => isWordStart_of_isBlank]
  simp only at h ⊢
  split at h
  · cases h
  · rename_i ends
    rw [if_neg ends]
    split at h
    · exact h
    · cases h

/-- So is a number of either kind. -/
theorem numeral_append (h : numeral position c cs = .ok l) (fades : Fades rest)
    (position' : Nat) : numeral position' c (cs ++ rest) = .ok l := by
  cases cs with
  | nil =>
    -- a single digit: what follows it now is a blank, which is no `x`
    have short : number position c [] = .ok l := h
    have decimal : number position' c ([] ++ rest) = .ok l := number_append short fades position'
    cases rest with
    | nil => exact decimal
    | cons x rest =>
      have lower := ne_of_isBlank (d := 'x') fades rfl
      have upper := ne_of_isBlank (d := 'X') fades rfl
      rw [List.nil_append, numeral, if_neg (by simp [lower, upper])]
      exact decimal
  | cons x more =>
    rw [List.cons_append, numeral]
    rw [numeral] at h
    split at h
    · rename_i marked
      rw [if_pos marked]
      exact hex_append h fades position'
    · rename_i plain
      rw [if_neg plain]
      exact number_append h fades position'

/-- A token is read the same before a blank. -/
theorem first_append (h : first position c cs = .ok l) (fades : Fades rest) (position' : Nat) :
    first position' c (cs ++ rest) = .ok l := by
  -- the one character looked at behind an operator
  have equals : (cs ++ rest).head? = some '=' ↔ cs.head? = some '=' := by
    cases cs with
    | nil =>
      cases rest with
      | nil => exact Iff.rfl
      | cons d rest => simp [ne_of_isBlank (d := '=') fades rfl]
    | cons d cs => exact Iff.rfl
  unfold first at h ⊢
  simp only [equals]
  split at h
  · exact h
  · split at h
    · exact h
    · split at h
      · rename_i different
        rw [if_pos different]
        exact h
      · rename_i alone
        rw [if_neg alone]
        split at h
        · rename_i quoted
          rw [if_pos quoted]
          exact text_append h rest position'
        · rename_i unquoted
          rw [if_neg unquoted]
          split at h
          · rename_i digit
            rw [if_pos digit]
            exact numeral_append h fades position'
          · rename_i letter
            rw [if_neg letter]
            split at h
            · rename_i start
              rw [if_pos start]
              exact word_append h fades position'
            · cases h

/-! ### Sizes -/

/-- A closed text takes a character at least, and no more than there are. -/
theorem untilQuote_size {quote : Char} {found : List Char × Nat}
    (h : untilQuote quote cs = some found) : 0 < found.2 ∧ found.2 ≤ cs.length := by
  fun_induction untilQuote quote cs generalizing found with
  | case1 => cases h
  | case2 cs =>
    cases h
    exact ⟨Nat.one_pos, Nat.succ_le_succ (Nat.zero_le _)⟩
  | case3 other => cases h
  | case4 escaped cs other ih =>
    obtain ⟨found, inner, rfl⟩ := Option.map_eq_some_iff.1 h
    exact ⟨Nat.succ_pos _, Nat.add_le_add_right (ih inner).2 2⟩
  | case5 c cs other plain ih =>
    obtain ⟨found, inner, rfl⟩ := Option.map_eq_some_iff.1 h
    exact ⟨Nat.succ_pos _, Nat.add_le_add_right (ih inner).2 1⟩

/-- A word takes no more characters than there are. -/
theorem word_size_le (h : word position c cs = .ok l) : l.size ≤ cs.length + 1 := by
  have parts : (cs.takeWhile isWordPart).length + (cs.dropWhile isWordPart).length = cs.length := by
    rw [← List.length_append, List.takeWhile_append_dropWhile]
  unfold word at h
  split at h
  · -- a reference: the marker, a colon and a name
    rename_i more colon
    have name := (List.takeWhile_prefix isWordPart (l := more)).length_le
    rw [colon, List.length_cons] at parts
    simp only at h
    split at h
    · cases h
    · split at h
      · cases h
        simp only [List.length_cons]
        omega
      · cases h
  · cases h
    simp only [List.length_cons]
    omega

theorem hex_size_le (h : hex position cs = .ok l) : l.size ≤ cs.length + 2 := by
  have digits := (List.takeWhile_prefix isHexDigit (l := cs)).length_le
  unfold hex at h
  simp only at h
  split at h
  · cases h
  · split at h <;> split at h <;> cases h <;> exact Nat.add_le_add_right digits 2

theorem number_size_le (h : number position c cs = .ok l) : l.size ≤ cs.length + 1 := by
  have digits := (List.takeWhile_prefix isDecimalDigit (l := cs)).length_le
  unfold number at h
  simp only at h
  split at h
  · cases h
  · split at h
    · cases h
      exact Nat.succ_le_succ digits
    · cases h

theorem numeral_size_le (h : numeral position c cs = .ok l) : l.size ≤ cs.length + 1 := by
  unfold numeral at h
  split at h
  · split at h
    · exact hex_size_le h
    · exact number_size_le h
  · exact number_size_le h

theorem length_pos_of_head? {d : Char} (h : cs.head? = some d) : 1 ≤ cs.length := by
  obtain ⟨more, rfl⟩ := List.head?_eq_some_iff.1 h
  exact Nat.succ_le_succ (Nat.zero_le _)

/-- A token takes no more characters than there are. -/
theorem first_size_le (h : first position c cs = .ok l) : l.size ≤ cs.length + 1 := by
  unfold first at h
  split at h
  · cases h
    exact Nat.succ_le_succ (Nat.zero_le _)
  · split at h
    · split at h
      · rename_i equals
        cases h
        exact Nat.succ_le_succ (length_pos_of_head? equals)
      · cases h
        exact Nat.succ_le_succ (Nat.zero_le _)
    · split_ifs at h with different
      · cases h
        exact Nat.succ_le_succ (length_pos_of_head? different.2)
      · unfold text at h
        split at h
        · rename_i found quoted
          cases h
          exact Nat.succ_le_succ (untilQuote_size quoted).2
        · cases h
      · exact numeral_size_le h
      · exact word_size_le h

end Lexeme

/-! ### Whole texts -/

namespace Scans

/-- Blanks in front are skipped. -/
theorem blanks {lead cs : List Char} {ts : List Token} (h : Scans cs ts)
    (blank : ∀ c ∈ lead, isBlank c) : Scans (lead ++ cs) ts := by
  induction lead with
  | nil => exact h
  | cons c lead ih =>
    obtain ⟨here, others⟩ := List.forall_mem_cons.1 blank
    intro position
    obtain ⟨located, scanned, eq⟩ := ih others (position + 1)
    refine ⟨located, ?_, eq⟩
    rw [List.cons_append, Token.scanFrom, if_pos here, scanned]

end Scans

/-- A text before a blank is scanned by itself, and then what follows. -/
theorem scans_append_of_scanFrom {position : Nat} {cs rest : List Char} {located : List Located}
    {ts us : List Token} (h : Token.scanFrom position cs = .ok located)
    (is : tokens located = ts ++ [.endOfInput]) (fades : Fades rest) (behind : Scans rest us) :
    Scans (cs ++ rest) (ts ++ us) := by
  fun_induction Token.scanFrom position cs generalizing located ts with
  | case1 position =>
    cases h
    have none : ts = [] := by
      have length := congrArg List.length is
      simpa [tokens] using length
    rw [none]
    exact behind
  | case2 position c cs here ih =>
    have one : ∀ d ∈ [c], isBlank d := by simpa using here
    exact (ih h is).blanks one
  | case3 => cases h
  | case4 => cases h
  | case5 position c cs here lexeme read others more ih =>
    cases h
    have is : lexeme.token :: tokens others = ts ++ [.endOfInput] := is
    cases ts with
    | nil =>
      -- the token would be the end of the input
      have lexical := Lexeme.lexical_of_first read
      rw [(List.cons.inj is).1] at lexical
      cases lexical
    | cons t ts =>
      obtain ⟨rfl, following⟩ := List.cons.inj is
      intro position'
      obtain ⟨located, scanned, eq⟩ := ih more following (position' + lexeme.size)
      have size := Lexeme.first_size_le read
      refine ⟨⟨lexeme.token, position'⟩ :: located, ?_, ?_⟩
      · rw [List.cons_append, Token.scanFrom, if_neg here, Lexeme.first_append read fades]
        simp only [List.drop_append_of_le_length (Nat.sub_le_of_le_add size), scanned]
      · rw [tokens_cons, eq, List.cons_append]

/-- Texts with blanks between them are scanned one after the other. -/
theorem Scans.append {cs rest : List Char} {ts us : List Token}
    (h : Scans cs (ts ++ [.endOfInput])) (fades : Fades rest) (behind : Scans rest us) :
    Scans (cs ++ rest) (ts ++ us) := by
  obtain ⟨located, scanned, is⟩ := h 0
  exact scans_append_of_scanFrom scanned is fades behind

/-- A text parses as it does without the blanks at its ends. -/
theorem Expr.parse_of_trim {source : String} {e : Expr}
    (h : Expr.parse (String.ofList (trim source.toList)) = .ok e) : Expr.parse source = .ok e := by
  obtain ⟨lead, trail, whole, before, behind⟩ := exists_trim source.toList
  obtain ⟨ts, t, scanned, -, yields, grouped, rfl, -⟩ := exists_scan_of_parse h
  rw [Token.scan, String.toList_ofList] at scanned
  have ends : Scans trail [.endOfInput] := by
    have blanks := Scans.nil.blanks behind
    rwa [List.append_nil] at blanks
  have fades := fades_of_forall behind
  have scans := (scans_append_of_scanFrom scanned yields fades ends).blanks before
  obtain ⟨located, scanned, eq⟩ := scans 0
  rw [← whole] at scanned
  exact parse_of_scan scanned grouped eq

end RuleCodec
