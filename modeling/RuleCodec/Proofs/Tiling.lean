/-
RuleCodec/Proofs/Tiling.lean

Tokens tile the text they are read from.

A reader of tokens looks one character beyond what it takes: for an `=`, an
`x`, a `:` or a letter.  That look never turns against it: a token that was
read is read the same if the text is cut anywhere behind its last character
(`Lexeme.first_of_append`).  A token that is read to the end of a text has no
blank at either end (`Lexeme.trimmed_of_first`).  So behind the blanks it
begins with, a text falls into pieces that are scanned alone, each into its one
token (`Token.Tiles`), and the main result, `Token.scan_tiles`, reads the
positions off these pieces.
-/
import RuleCodec.Proofs.Trimming

namespace RuleCodec

open Text

/-! ### Runs that end before a cut -/

/-- A run of characters that ends before the text is cut is not touched by the cut. -/
theorem Text.takeWhile_of_append (p : Char → Bool) (front back : List Char)
    (short : ((front ++ back).takeWhile p).length ≤ front.length) :
    front.takeWhile p = (front ++ back).takeWhile p ∧
      (front ++ back).dropWhile p = front.dropWhile p ++ back := by
  induction front with
  | nil =>
    -- nothing of the back is taken, so the front ends it
    have none : back.takeWhile p = [] := List.eq_nil_of_length_eq_zero (Nat.le_zero.1 short)
    have parts := List.takeWhile_append_dropWhile (p := p) (l := back)
    rw [none] at parts
    exact ⟨none.symm, parts⟩
  | cons d front ih =>
    rw [List.cons_append, List.takeWhile_cons, List.takeWhile_cons, List.dropWhile_cons,
      List.dropWhile_cons]
    rw [List.cons_append, List.takeWhile_cons] at short
    split at short
    · rename_i goesOn
      obtain ⟨taken, dropped⟩ := ih (Nat.le_of_succ_le_succ short)
      rw [if_pos goesOn, if_pos goesOn, if_pos goesOn, if_pos goesOn, taken, dropped]
      exact ⟨rfl, rfl⟩
    · rename_i stops
      rw [if_neg stops, if_neg stops, if_neg stops, if_neg stops]
      exact ⟨rfl, rfl⟩

theorem Text.length_takeWhile_add_dropWhile (p : Char → Bool) (cs : List Char) :
    (cs.takeWhile p).length + (cs.dropWhile p).length = cs.length := by
  rw [← List.length_append, List.takeWhile_append_dropWhile]

/-- What does not stand behind a run does not stand there after the cut. -/
theorem Text.head?_any_of_append {p : Char → Bool} {front back : List Char}
    (none : ¬ (front ++ back).head?.any p) : ¬ front.head?.any p := by
  cases front with
  | nil => exact Bool.false_ne_true
  | cons d front => exact none

/-! ### Lexemes before a cut -/

namespace Lexeme

variable {position : Nat} {c : Char} {front back cs : List Char} {l : Lexeme}

/-- A word that ends inside the front is scanned from the front alone. -/
theorem word_of_append (h : word position c (front ++ back) = .ok l)
    (fits : l.size ≤ front.length + 1) (position' : Nat) : word position' c front = .ok l := by
  have parts := length_takeWhile_add_dropWhile isWordPart front
  unfold word at h ⊢
  simp only at h ⊢
  split at h
  · -- a reference: colon and name stand before the cut
    rename_i more colon
    split at h
    · cases h
    · rename_i named
      split at h
      · rename_i token marked
        cases h
        simp only [List.length_cons] at fits
        obtain ⟨taken, dropped⟩ := takeWhile_of_append isWordPart front back (by omega)
        rw [taken] at parts
        rw [dropped] at colon
        cases left : front.dropWhile isWordPart with
        | nil =>
          rw [left, List.length_nil] at parts
          omega
        | cons d name =>
          rw [left, List.length_cons] at parts
          rw [left, List.cons_append] at colon
          cases colon
          obtain ⟨same, -⟩ := takeWhile_of_append isWordPart name back (by omega)
          simp only [taken, same, if_neg named, marked]
      · cases h
  · -- any other word: there was no colon, and the cut brings none
    rename_i plain
    cases h
    simp only [List.length_cons] at fits
    obtain ⟨taken, dropped⟩ := takeWhile_of_append isWordPart front back (by omega)
    rw [taken]
    split
    · rename_i more colon
      rw [colon, List.cons_append] at dropped
      exact absurd dropped (plain _)
    · rfl

/-- A text that is closed inside the front is found there. -/
theorem untilQuote_of_append {quote : Char} {found : List Char × Nat}
    (h : untilQuote quote (front ++ back) = some found) (fits : found.2 ≤ front.length) :
    untilQuote quote front = some found := by
  fun_induction untilQuote quote front generalizing found with
  | case1 => exact absurd (untilQuote_size h).1 (Nat.not_lt.2 fits)
  | case2 cs =>
    rw [List.cons_append, untilQuote.eq_def] at h
    simpa only [if_true] using h
  | case3 other =>
    -- the backslash takes a character, and the closing quote is one more
    rw [List.cons_append, List.nil_append, untilQuote.eq_def] at h
    simp only [if_neg other, if_true] at h
    cases back with
    | nil => cases h
    | cons escaped back =>
      obtain ⟨found, -, rfl⟩ := Option.map_eq_some_iff.1 h
      exact absurd fits (by simp)
  | case4 escaped cs other ih =>
    rw [List.cons_append, List.cons_append, untilQuote.eq_def] at h
    simp only [if_neg other, if_true] at h
    obtain ⟨found, inner, rfl⟩ := Option.map_eq_some_iff.1 h
    rw [ih inner (Nat.le_of_add_le_add_right fits), Option.map_some]
  | case5 c cs other plain ih =>
    rw [List.cons_append, untilQuote_cons _ other plain] at h
    obtain ⟨found, inner, rfl⟩ := Option.map_eq_some_iff.1 h
    rw [ih inner (Nat.le_of_add_le_add_right fits), Option.map_some]

theorem text_of_append {quote : Char} (h : text position quote (front ++ back) = .ok l)
    (fits : l.size ≤ front.length + 1) (position' : Nat) :
    text position' quote front = .ok l := by
  unfold text at h ⊢
  split at h
  · rename_i found quoted
    cases h
    rw [untilQuote_of_append quoted (Nat.le_of_succ_le_succ fits)]
  · cases h

/-- A hexadecimal literal is its mark and its digits. -/
theorem hex_size (h : hex position cs = .ok l) :
    l.size = (cs.takeWhile isHexDigit).length + 2 := by
  unfold hex at h
  simp only at h
  split at h
  · cases h
  · split at h <;> split at h <;> cases h <;> rfl

/-- A hexadecimal literal that ends inside the front is scanned from the front alone. -/
theorem hex_of_append (h : hex position (front ++ back) = .ok l)
    (fits : l.size ≤ front.length + 2) (position' : Nat) : hex position' front = .ok l := by
  rw [hex_size h] at fits
  obtain ⟨taken, dropped⟩ := takeWhile_of_append _ _ _ (Nat.le_of_add_le_add_right fits)
  unfold hex at h ⊢
  rw [← taken, dropped] at h
  simp only at h ⊢
  split at h
  · cases h
  · -- the digits end inside the front, and so does what decides their kind
    rename_i ends
    rw [if_neg (head?_any_of_append ends)]
    split at h
    · rename_i forty
      rw [if_pos forty]
      split at h
      · exact h
      · cases h
    · rename_i other
      rw [if_neg other]
      split at h
      · exact h
      · cases h

theorem number_size (h : number position c cs = .ok l) :
    l.size = (cs.takeWhile isDecimalDigit).length + 1 := by
  unfold number at h
  simp only at h
  split at h
  · cases h
  · split at h
    · cases h
      rfl
    · cases h

theorem number_of_append (h : number position c (front ++ back) = .ok l)
    (fits : l.size ≤ front.length + 1) (position' : Nat) : number position' c front = .ok l := by
  rw [number_size h] at fits
  obtain ⟨taken, dropped⟩ := takeWhile_of_append _ _ _ (Nat.le_of_add_le_add_right fits)
  unfold number at h ⊢
  rw [← taken, dropped] at h
  simp only at h ⊢
  split at h
  · cases h
  · rename_i ends
    rw [if_neg (head?_any_of_append ends)]
    split at h
    · exact h
    · cases h

/-- So is a number of either kind. -/
theorem numeral_of_append (h : numeral position c (front ++ back) = .ok l)
    (fits : l.size ≤ front.length + 1) (position' : Nat) :
    numeral position' c front = .ok l := by
  cases front with
  | nil =>
    -- a single digit, so that what follows it was no `x`
    have decimal : number position c ([] ++ back) = .ok l := by
      cases back with
      | nil => exact h
      | cons x more =>
        rw [List.nil_append, numeral] at h
        split at h
        · rw [hex_size h] at fits
          exact absurd fits (by simp)
        · exact h
    exact number_of_append decimal fits position'
  | cons x more =>
    rw [List.cons_append, numeral] at h
    rw [numeral]
    split at h
    · rename_i marked
      rw [if_pos marked]
      exact hex_of_append h fits position'
    · rename_i plain
      rw [if_neg plain]
      have decimal : number position c (x :: more ++ back) = .ok l := h
      exact number_of_append decimal fits position'

/-- A token is read the same if the text is cut behind it. -/
theorem first_of_append (h : first position c (front ++ back) = .ok l)
    (fits : l.size ≤ front.length + 1) (position' : Nat) : first position' c front = .ok l := by
  -- an `=` that was not there is not there after the cut
  have without : (front ++ back).head? ≠ some '=' → front.head? ≠ some '=' := by
    cases front with
    | nil => exact fun _ => by simp
    | cons d front => exact id
  -- and one that was taken is
  have within : (front ++ back).head? = some '=' → 2 ≤ front.length + 1 →
      front.head? = some '=' := by
    cases front with
    | nil => exact fun _ long => absurd long (by simp)
    | cons d front => exact fun equals _ => equals
  unfold first at h ⊢
  split at h
  · exact h
  · split at h
    · split at h
      · rename_i equals
        cases h
        rw [if_pos (within equals fits)]
      · rename_i alone
        cases h
        rw [if_neg (without alone)]
    · split at h
      · rename_i different
        cases h
        rw [if_pos ⟨different.1, within different.2 fits⟩]
      · rename_i alone
        have alone : ¬ (c = '!' ∧ front.head? = some '=') := by
          rintro ⟨rfl, equals⟩
          exact without (fun whole => alone ⟨rfl, whole⟩) equals
        rw [if_neg alone]
        split at h
        · rename_i quoted
          rw [if_pos quoted]
          exact text_of_append h fits position'
        · rename_i unquoted
          rw [if_neg unquoted]
          split at h
          · rename_i digit
            rw [if_pos digit]
            exact numeral_of_append h fits position'
          · rename_i letter
            rw [if_neg letter]
            split at h
            · rename_i start
              rw [if_pos start]
              exact word_of_append h fits position'
            · cases h

theorem word_size_pos (h : word position c cs = .ok l) : 0 < l.size := by
  unfold word at h
  simp only at h
  split at h
  · split at h
    · cases h
    · split at h
      · cases h
        exact Nat.lt_add_right _ (Nat.succ_pos _)
      · cases h
  · cases h
    exact Nat.succ_pos _

theorem numeral_size_pos (h : numeral position c cs = .ok l) : 0 < l.size := by
  unfold numeral at h
  split at h
  · split at h
    · rw [hex_size h]
      exact Nat.succ_pos _
    · rw [number_size h]
      exact Nat.succ_pos _
  · rw [number_size h]
    exact Nat.succ_pos _

/-- A token takes the character it begins with. -/
theorem first_size_pos (h : first position c cs = .ok l) : 0 < l.size := by
  unfold first at h
  split at h
  · cases h
    exact Nat.one_pos
  · split at h
    · split at h <;> cases h <;> exact Nat.succ_pos _
    · split_ifs at h
      · cases h
        exact Nat.two_pos
      · unfold text at h
        split at h <;> cases h
        exact Nat.succ_pos _
      · exact numeral_size_pos h
      · exact word_size_pos h

/-- The characters that a token takes, read alone, are that token. -/
theorem exists_cut (h : first position c cs = .ok l) :
    ∃ front back, cs = front ++ back ∧ l.size = front.length + 1 ∧
      first position c front = .ok l := by
  have pos := first_size_pos h
  have le := first_size_le h
  have length : (cs.take (l.size - 1)).length + 1 = l.size := by
    rw [List.length_take, Nat.min_eq_left (Nat.sub_le_of_le_add le), Nat.sub_add_cancel pos]
  have joined : cs.take (l.size - 1) ++ cs.drop (l.size - 1) = cs := List.take_append_drop _ _
  rw [← joined] at h
  exact ⟨_, _, joined.symm, length.symm, first_of_append h (Nat.le_of_eq length.symm) position⟩

/-! ### The ends of a lexeme -/

/-- A run of characters that no blank belongs to. -/
theorem isBlank_of_mem_takeWhile {p : Char → Bool} (stops : ∀ d, isBlank d → p d = false)
    (cs : List Char) : ∀ d ∈ cs.takeWhile p, isBlank d = false := by
  intro d mem
  have belongs : p d = true := List.all_eq_true.1 List.all_takeWhile d mem
  rw [Bool.eq_false_iff]
  intro blank
  rw [stops d blank] at belongs
  cases belongs

/-- A text that is such a run as a whole. -/
theorem isBlank_of_length_takeWhile {p : Char → Bool} (stops : ∀ d, isBlank d → p d = false)
    (whole : (cs.takeWhile p).length = cs.length) : ∀ d ∈ cs, isBlank d = false := by
  have run := isBlank_of_mem_takeWhile stops cs
  rwa [(List.takeWhile_prefix p).eq_of_length whole] at run

/-- A word has no blanks at its ends. -/
theorem trimmed_of_word (start : isWordStart c) (h : word position c cs = .ok l)
    (whole : l.size = cs.length + 1) : Trimmed (c :: cs) := by
  have marker := isBlank_of_mem_takeWhile (fun _ => isWordPart_of_isBlank) cs
  have parts := List.takeWhile_append_dropWhile (p := isWordPart) (l := cs)
  apply trimmed_of_forall
  refine List.forall_mem_cons.2 ⟨isBlank_of_isWordStart start, ?_⟩
  unfold word at h
  simp only at h
  split at h
  · -- marker, colon and name
    rename_i more colon
    rw [colon] at parts
    split at h
    · cases h
    · split at h
      · cases h
        have sizes := congrArg List.length parts
        simp only [List.length_cons, List.length_append] at whole sizes
        have name : ∀ d ∈ more, isBlank d = false :=
          isBlank_of_length_takeWhile (fun _ => isWordPart_of_isBlank) (by omega)
        rw [← parts]
        exact List.forall_mem_append.2 ⟨marker, List.forall_mem_cons.2 ⟨rfl, name⟩⟩
      · cases h
  · cases h
    exact isBlank_of_length_takeWhile (fun _ => isWordPart_of_isBlank) (Nat.succ.inj whole)

/-- A text that is closed at the end of the characters ends with its quote. -/
theorem exists_concat_of_untilQuote {quote : Char} {found : List Char × Nat}
    (h : untilQuote quote cs = some found) (whole : found.2 = cs.length) :
    ∃ mid, cs = mid ++ [quote] := by
  fun_induction untilQuote quote cs generalizing found with
  | case1 => cases h
  | case2 cs =>
    cases h
    -- the closing quote is the last character
    have none : cs = [] := List.eq_nil_of_length_eq_zero (Nat.succ.inj whole).symm
    exact ⟨[], by rw [none, List.nil_append]⟩
  | case3 other => cases h
  | case4 escaped cs other ih =>
    obtain ⟨found, inner, rfl⟩ := Option.map_eq_some_iff.1 h
    obtain ⟨mid, rfl⟩ := ih inner (Nat.add_right_cancel whole)
    exact ⟨'\\' :: escaped :: mid, rfl⟩
  | case5 c cs other plain ih =>
    obtain ⟨found, inner, rfl⟩ := Option.map_eq_some_iff.1 h
    obtain ⟨mid, rfl⟩ := ih inner (Nat.add_right_cancel whole)
    exact ⟨c :: mid, rfl⟩

theorem trimmed_of_text {quote : Char} (is : isBlank quote = false)
    (h : text position quote cs = .ok l) (whole : l.size = cs.length + 1) :
    Trimmed (quote :: cs) := by
  unfold text at h
  split at h
  · rename_i found quoted
    cases h
    obtain ⟨mid, rfl⟩ := exists_concat_of_untilQuote quoted (Nat.succ.inj whole)
    exact trimmed_between is is mid
  · cases h

/-- A number has no blanks at its ends. -/
theorem trimmed_of_numeral (digit : isDecimalDigit c) (h : numeral position c cs = .ok l)
    (whole : l.size = cs.length + 1) : Trimmed (c :: cs) := by
  have decimal (read : number position c cs = .ok l) : ∀ d ∈ cs, isBlank d = false := by
    rw [number_size read] at whole
    exact isBlank_of_length_takeWhile (fun _ => isDecimalDigit_of_isBlank) (Nat.succ.inj whole)
  apply trimmed_of_forall
  refine List.forall_mem_cons.2 ⟨isBlank_of_isDecimalDigit digit, ?_⟩
  cases cs with
  | nil => exact decimal h
  | cons x more =>
    rw [numeral] at h
    split at h
    · -- behind the mark all are hexadecimal digits
      rename_i marked
      rw [hex_size h] at whole
      have digits : ∀ d ∈ more, isBlank d = false :=
        isBlank_of_length_takeWhile (fun _ => isHexDigit_of_isBlank) (Nat.add_right_cancel whole)
      refine List.forall_mem_cons.2 ⟨?_, digits⟩
      rcases marked.2 with rfl | rfl
      · rfl
      · rfl
    · exact decimal h

/-- A token that is read to the end of a text has no blank at either end. -/
theorem trimmed_of_first (here : isBlank c = false) (h : first position c cs = .ok l)
    (whole : l.size = cs.length + 1) : Trimmed (c :: cs) := by
  -- a symbol of one character, or of two of which the second is `=`
  have single (size : 1 = cs.length + 1) : Trimmed (c :: cs) := by
    rw [List.eq_nil_of_length_eq_zero (Nat.succ.inj size).symm]
    exact trimmed_of_forall (List.forall_mem_singleton.2 here)
  have double (equals : cs.head? = some '=') (size : 2 = cs.length + 1) : Trimmed (c :: cs) := by
    obtain ⟨more, rfl⟩ := List.head?_eq_some_iff.1 equals
    rw [List.eq_nil_of_length_eq_zero (Nat.succ.inj (Nat.succ.inj size)).symm]
    exact trimmed_between here rfl []
  unfold first at h
  split at h
  · cases h
    exact single whole
  · split at h
    · split at h
      · rename_i equals
        cases h
        exact double equals whole
      · cases h
        exact single whole
    · split_ifs at h with different quoted digit start
      · cases h
        exact double different.2 whole
      · exact trimmed_of_text here h whole
      · exact trimmed_of_numeral digit h whole
      · exact trimmed_of_word start h whole

end Lexeme

/-! ### Tiles -/

namespace Token

/-- The text is scanned as the token, and there is nothing else in it. -/
def ScansAs (cs : List Char) (t : Token) : Prop :=
  scan (String.ofList cs) = .ok [⟨t, 0⟩, ⟨.endOfInput, cs.length⟩]

/-- A piece of a text that belongs to one token: what is read as the token, and the blanks behind
it. -/
structure Tile (t : Token) (piece : List Char) : Prop where
  lexical : t.Lexical
  scans : ScansAs piece t
  parts : ∃ spelling blanks, piece = spelling ++ blanks ∧ Trimmed spelling ∧
    ScansAs spelling t ∧ ∀ c ∈ blanks, isBlank c

/-- What stands behind `before` is laid out in tiles, one for each token but the last, and each
token is located where its tile begins. -/
inductive Tiles : List Char → List Char → List Located → Prop
  | nil {before : List Char} : Tiles before [] [⟨.endOfInput, before.length⟩]
  | cons {before piece rest : List Char} {t : Token} {located : List Located} : Tile t piece →
      Tiles (before ++ piece) rest located →
      Tiles before (piece ++ rest) (⟨t, before.length⟩ :: located)

/-- Nothing but the end of the input is scanned from blanks. -/
theorem scanFrom_blanks {blanks : List Char} (blank : ∀ c ∈ blanks, isBlank c) (position : Nat) :
    scanFrom position blanks = .ok [⟨.endOfInput, position + blanks.length⟩] := by
  induction blanks generalizing position with
  | nil => rw [scanFrom, List.length_nil, Nat.add_zero]
  | cons c blanks ih =>
    obtain ⟨here, others⟩ := List.forall_mem_cons.1 blank
    rw [scanFrom, if_pos here, ih others, List.length_cons, Nat.add_assoc, Nat.add_comm 1]

/-- A lexeme with blanks behind it is scanned as its token. -/
theorem scansAs_of_first {position : Nat} {c : Char} {cs blanks : List Char} {l : Lexeme}
    (here : isBlank c = false) (read : Lexeme.first position c cs = .ok l)
    (whole : l.size = cs.length + 1) (blank : ∀ c ∈ blanks, isBlank c) :
    ScansAs (c :: cs ++ blanks) l.token := by
  have again := Lexeme.first_append read (fades_of_forall blank) 0
  rw [ScansAs, scan, String.toList_ofList, List.cons_append, scanFrom, if_neg (by simp [here]),
    again]
  simp only [whole, Nat.add_sub_cancel, List.drop_left, scanFrom_blanks blank, Nat.zero_add,
    List.length_cons, List.length_append, Nat.add_right_comm]

/-- Behind the blanks it begins with, a text that is scanned is laid out in tiles. -/
theorem tiles_of_scanFrom {position : Nat} {cs : List Char} {located : List Located}
    (h : scanFrom position cs = .ok located) (before : List Char)
    (here : before.length = position) :
    ∃ blanks rest, cs = blanks ++ rest ∧ (∀ c ∈ blanks, isBlank c) ∧
      Tiles (before ++ blanks) rest located := by
  fun_induction scanFrom position cs generalizing located before with
  | case1 position =>
    cases h
    subst here
    exact ⟨[], [], rfl, by simp, by rw [List.append_nil]; exact .nil⟩
  | case2 position c cs blank ih =>
    have next : (before ++ [c]).length = position + 1 := by rw [List.length_append, here]; rfl
    obtain ⟨blanks, rest, rfl, all, tiles⟩ := ih h _ next
    rw [List.append_assoc] at tiles
    exact ⟨c :: blanks, rest, rfl, List.forall_mem_cons.2 ⟨blank, all⟩, tiles⟩
  | case3 => cases h
  | case4 => cases h
  | case5 position c cs blank lexeme read others more ih =>
    cases h
    subst here
    have notBlank : isBlank c = false := Bool.eq_false_iff.2 blank
    -- the lexeme would be scanned from its own characters alone
    obtain ⟨front, back, rfl, whole, alone⟩ := Lexeme.exists_cut read
    rw [whole, Nat.add_sub_cancel, List.drop_left] at more ih
    have behind : (before ++ c :: front).length = before.length + (front.length + 1) := by
      rw [List.length_append, List.length_cons]
    obtain ⟨blanks, rest, rfl, all, tiles⟩ := ih more _ behind
    refine ⟨[], c :: front ++ blanks ++ rest, by simp, by simp, ?_⟩
    rw [List.append_nil]
    refine .cons ⟨Lexeme.lexical_of_first read, scansAs_of_first notBlank alone whole all,
      c :: front, blanks, rfl, Lexeme.trimmed_of_first notBlank alone whole, ?_, all⟩ ?_
    · have spelled : ScansAs (c :: front ++ []) lexeme.token :=
        scansAs_of_first notBlank alone whole (by simp)
      rwa [List.append_nil] at spelled
    · rwa [List.append_assoc] at tiles

/-- No token is scanned from nothing. -/
theorem Tile.ne_nil {t : Token} {piece : List Char} (h : Tile t piece) : piece ≠ [] := by
  rintro rfl
  have scans := h.scans
  rw [ScansAs, scan, String.toList_ofList, scanFrom] at scans
  cases scans

namespace Tiles

variable {before cs : List Char} {located : List Located}

/-- The first token stands where the tiles begin. -/
theorem head (h : Tiles before cs located) :
    ∃ t others, located = ⟨t, before.length⟩ :: others := by
  cases h with
  | nil => exact ⟨_, _, rfl⟩
  | cons => exact ⟨_, _, rfl⟩

/-- Tokens stand at growing positions, none of them before the tiles. -/
theorem pairwise (h : Tiles before cs located) :
    (∀ t ∈ located, before.length ≤ t.position) ∧
      located.Pairwise fun t u => t.position < u.position := by
  induction h with
  | nil => simp
  | @cons before piece rest t located tile _ ih =>
    obtain ⟨after, increasing⟩ := ih
    -- each tile has a character at least
    have long : before.length < (before ++ piece).length := by
      rw [List.length_append]
      exact Nat.lt_add_of_pos_right (List.length_pos_iff.2 tile.ne_nil)
    refine ⟨?_, ?_⟩
    · intro u mem
      rcases List.mem_cons.1 mem with rfl | mem
      · exact Nat.le_refl _
      · exact Nat.le_trans (Nat.le_of_lt long) (after u mem)
    · refine List.pairwise_cons.2 ⟨?_, increasing⟩
      intro u mem
      exact Nat.lt_of_lt_of_le long (after u mem)

/-- The end of the input stands behind the last tile. -/
theorem ends (h : Tiles before cs located) :
    ∃ body, located = body ++ [⟨.endOfInput, (before ++ cs).length⟩] ∧
      ∀ t ∈ body, t.token ≠ .endOfInput := by
  induction h with
  | @nil before => exact ⟨[], by rw [List.append_nil, List.nil_append], by simp⟩
  | @cons before piece rest t located tile _ ih =>
    obtain ⟨body, rfl, others⟩ := ih
    have here : t ≠ .endOfInput := by
      rintro rfl
      exact tile.lexical
    refine ⟨⟨t, before.length⟩ :: body, ?_, List.forall_mem_cons.2 ⟨here, others⟩⟩
    rw [List.append_assoc, List.cons_append]

/-- The text from one token to the next is the token's tile. -/
theorem tile (h : Tiles before cs located) {i : Nat} {t : Located} (atIndex : located[i]? = some t)
    (notEnd : t.token ≠ .endOfInput) :
    ∃ u, located[i + 1]? = some u ∧
      Tile t.token ((before ++ cs).extract t.position u.position) := by
  induction h generalizing i with
  | nil =>
    -- the only token is the end of the input
    cases i with
    | zero =>
      cases atIndex
      exact absurd rfl notEnd
    | succ i => cases atIndex
  | @cons before piece rest t located tile more ih =>
    cases i with
    | zero =>
      cases atIndex
      obtain ⟨u, others, rfl⟩ := more.head
      refine ⟨_, rfl, ?_⟩
      have cut : (before ++ (piece ++ rest)).extract before.length (before ++ piece).length =
          piece := by
        rw [List.extract_eq_take_drop, List.drop_left, List.length_append, Nat.add_sub_cancel_left,
          List.take_left]
      rwa [cut]
    | succ i =>
      obtain ⟨u, next, tile⟩ := ih atIndex
      rw [List.append_assoc] at tile
      exact ⟨u, next, tile⟩

end Tiles

/-- **Tokens tile the text.**  If a text is scanned, the tokens stand at growing positions, the
end of the input stands once, at the end, at the number of characters, and before the first token
there are only blanks.  From each other token's position to the next token's there stands what is
scanned alone as this token: its spelling, which neither begins nor ends with a blank, and then only
blanks. -/
theorem scan_tiles {source : String} {located : List Located} (h : scan source = .ok located) :
    (located.Pairwise fun t u => t.position < u.position) ∧
    (∃ body, located = body ++ [⟨.endOfInput, source.length⟩] ∧
      ∀ t ∈ body, t.token ≠ .endOfInput) ∧
    (∀ first ∈ located.head?, ∀ c ∈ source.toList.take first.position, isBlank c) ∧
    ∀ (i : Nat) (t : Located), located[i]? = some t → t.token ≠ .endOfInput →
      ∃ u, located[i + 1]? = some u ∧
        let piece := source.toList.extract t.position u.position
        ScansAs piece t.token ∧
          ∃ spelling blanks, piece = spelling ++ blanks ∧ Trimmed spelling ∧
            ScansAs spelling t.token ∧ ∀ c ∈ blanks, isBlank c := by
  obtain ⟨blanks, rest, whole, blank, tiles⟩ :=
    tiles_of_scanFrom h [] List.length_nil
  rw [List.nil_append] at tiles
  refine ⟨tiles.pairwise.2, ?_, ?_, ?_⟩
  · rw [← String.length_toList, whole]
    exact tiles.ends
  · intro first mem
    obtain ⟨t, others, rfl⟩ := tiles.head
    cases mem
    rw [whole, List.take_left]
    exact blank
  · intro i t atIndex notEnd
    obtain ⟨u, next, tile⟩ := tiles.tile atIndex notEnd
    rw [← whole] at tile
    exact ⟨u, next, tile.scans, tile.parts⟩

/-- Tokens with nothing between them, where each reader looks at the next token: hexadecimal digits
before `>`, `>=` before `=`, a name before a quote.  The last piece has a blank inside its text and
two behind it. -/
theorem scan_tiles_adjacent :
    let source := " 0X1f>==TR:m'a ' \t"
    let located : List Located := [⟨.bytes [31], 1⟩, ⟨.operator (.plain .greaterEqual), 5⟩,
      ⟨.operator (.plain .assign), 7⟩, ⟨.trackerRead "m", 8⟩, ⟨.text "a ", 12⟩, ⟨.endOfInput, 18⟩]
    scan source = .ok located ∧ (located.Pairwise fun t u => t.position < u.position) ∧
      ScansAs ['>', '='] (.operator (.plain .greaterEqual)) ∧
      ScansAs ['\'', 'a', ' ', '\'', ' ', '\t'] (.text "a ") := by
  intro source located
  have scanned : scan source = .ok located := by decide +kernel
  have second : source.toList.extract 5 7 = ['>', '='] := by decide +kernel
  have fifth : source.toList.extract 12 18 = ['\'', 'a', ' ', '\'', ' ', '\t'] := by
    decide +kernel
  obtain ⟨increasing, -, -, tile⟩ := scan_tiles scanned
  obtain ⟨_, atLeast, comparison, -⟩ := tile 1 _ rfl (by decide)
  cases Option.some.inj atLeast
  obtain ⟨_, atEnd, quoted, -⟩ := tile 4 _ rfl (by decide)
  cases Option.some.inj atEnd
  rw [second] at comparison
  rw [fifth] at quoted
  exact ⟨scanned, increasing, comparison, quoted⟩

end Token

end RuleCodec
