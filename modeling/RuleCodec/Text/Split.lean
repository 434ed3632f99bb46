/-
RuleCodec/Text/Split.lean

Cutting a text into pieces: blank space taken off its ends, the fields between separators, the
words between blanks.  Texts are lists of characters, so that each operation is a recursion on the
text itself.
-/
import RuleCodec.Text.Blank

namespace RuleCodec.Text

/-! ### Blank ends -/

/-- The text without the blanks it begins with. -/
def trimStart (cs : List Char) : List Char :=
  cs.dropWhile isBlank

/-- The text without the blanks it ends in. -/
def trimEnd (cs : List Char) : List Char :=
  (cs.reverse.dropWhile isBlank).reverse

/-- The text without the blanks at its two ends. -/
def trim (cs : List Char) : List Char :=
  trimEnd (trimStart cs)

theorem length_dropWhile_le {α : Type} (p : α → Bool) (xs : List α) :
    (xs.dropWhile p).length ≤ xs.length := by
  induction xs with
  | nil => simp
  | cons x xs ih =>
    simp only [List.dropWhile_cons]
    split
    · simp only [List.length_cons]; omega
    · simp

/-- Trimming never lengthens a text. -/
theorem length_trim_le (cs : List Char) : (trim cs).length ≤ cs.length := by
  have inner := length_dropWhile_le isBlank cs
  have outer := length_dropWhile_le isBlank (trimStart cs).reverse
  simp only [trim, trimEnd, trimStart, List.length_reverse] at *
  omega

/-! ### Given ends -/

/-- What follows `start`, if the text begins with it. -/
def stripStart? : List Char → List Char → Option (List Char)
  | [], cs => some cs
  | _ :: _, [] => none
  | a :: start, c :: cs => if a = c then stripStart? start cs else none

/-- What comes before `ending`, if the text ends in it. -/
def stripEnd? (ending cs : List Char) : Option (List Char) :=
  (stripStart? ending.reverse cs.reverse).map List.reverse

theorem stripStart?_eq_some {start cs rest : List Char} (h : stripStart? start cs = some rest) :
    cs = start ++ rest := by
  induction start generalizing cs with
  | nil => simpa [stripStart?] using h
  | cons a start ih =>
    cases cs with
    | nil => simp [stripStart?] at h
    | cons c cs =>
      simp only [stripStart?] at h
      split at h
      · rename_i same
        rw [ih h, same, List.cons_append]
      · cases h

theorem stripEnd?_eq_some {ending cs rest : List Char} (h : stripEnd? ending cs = some rest) :
    cs = rest ++ ending := by
  obtain ⟨back, hback, rfl⟩ := Option.map_eq_some_iff.1 h
  have := congrArg List.reverse (stripStart?_eq_some hback)
  simpa using this

/-- What stands between a pair of the given quotes, if the text is all between them. -/
def between? (quote : Char) (cs : List Char) : Option (List Char) :=
  if 2 ≤ cs.length ∧ cs.head? = some quote ∧ cs.getLast? = some quote then some cs.tail.dropLast
  else none

/-- The text without the double quotes around it, or else without the single quotes. -/
def unquote (cs : List Char) : List Char :=
  match between? '"' cs with
  | some inner => inner
  | none => (between? '\'' cs).getD cs

/-! ### Fields and words -/

/-- The fields between occurrences of a separator: always one more than there are separators. -/
def splitOn (sep : Char) : List Char → List (List Char)
  | [] => [[]]
  | c :: cs =>
    if c = sep then [] :: splitOn sep cs
    else
      match splitOn sep cs with
      | [] => [[c]]
      | field :: fields => (c :: field) :: fields

/-- The text before the first separator and the text after it, if there is one. -/
def splitOnce? (sep : Char) : List Char → Option (List Char × List Char)
  | [] => none
  | c :: cs =>
    if c = sep then some ([], cs)
    else (splitOnce? sep cs).map fun parts => (c :: parts.1, parts.2)

/-- The text before the last separator and the text after it, if there is one. -/
def splitLast? (sep : Char) (cs : List Char) : Option (List Char × List Char) :=
  (splitOnce? sep cs.reverse).map fun parts => (parts.2.reverse, parts.1.reverse)

/-- The words of a text: what stands between blanks. -/
def words : List Char → List (List Char)
  | [] => []
  | c :: cs =>
    if isBlank c then words cs
    else
      match cs with
      | [] => [[c]]
      | next :: _ =>
        if isBlank next then [c] :: words cs
        else
          match words cs with
          | [] => [[c]]
          | word :: rest => (c :: word) :: rest

end RuleCodec.Text
