/-
RuleCodec/Proofs/Texts.lean

Texts that are cut up, and texts that are put together.

For each way of cutting a text there is a lemma about the text that was put
together in that way.  Trimming leaves the one part without blanks at its ends
that has nothing but blanks around it (`trim_of_surrounded`), a given beginning
or ending comes off what it was joined to, quotes come off what stands between
them (`between?_eq_some_iff`), and a separator cuts where it first occurs
(`splitOnce?_eq_some_iff`).
-/
import RuleCodec.Text.Split

namespace RuleCodec.Text

/-! ### Blank ends -/

/-- A text with no blank at either end. -/
structure Trimmed (cs : List Char) : Prop where
  head : ∀ c ∈ cs.head?, isBlank c = false
  last : ∀ c ∈ cs.getLast?, isBlank c = false

instance (cs : List Char) : Decidable (Trimmed cs) :=
  decidable_of_iff (cs.head?.all (isBlank · = false) ∧ cs.getLast?.all (isBlank · = false)) (by
    rw [Option.all_eq_true, Option.all_eq_true]
    simp only [decide_eq_true_eq]
    exact ⟨fun h => ⟨h.1, h.2⟩, fun h => ⟨h.head, h.last⟩⟩)

theorem ne_of_isBlank {c d : Char} (h : isBlank c) (other : isBlank d = false) : c ≠ d := by
  rintro rfl
  rw [other] at h
  cases h

/-- The text goes on with a blank, or not at all. -/
def Fades : List Char → Prop
  | [] => True
  | c :: _ => isBlank c

theorem fades_of_forall {trail : List Char} (blank : ∀ c ∈ trail, isBlank c) : Fades trail := by
  cases trail with
  | nil => trivial
  | cons c trail => exact blank c List.mem_cons_self

theorem exists_trimEnd (cs : List Char) :
    ∃ trail, cs = trimEnd cs ++ trail ∧ ∀ c ∈ trail, isBlank c := by
  refine ⟨(cs.reverse.takeWhile isBlank).reverse, ?_, ?_⟩
  · rw [trimEnd, ← List.reverse_append, List.takeWhile_append_dropWhile, List.reverse_reverse]
  · intro c mem
    exact List.all_eq_true.1 List.all_takeWhile c (List.mem_reverse.1 mem)

/-- A text is what trimming leaves, with blanks around it. -/
theorem exists_trim (cs : List Char) :
    ∃ lead trail, cs = lead ++ (trim cs ++ trail) ∧ (∀ c ∈ lead, isBlank c) ∧
      ∀ c ∈ trail, isBlank c := by
  obtain ⟨trail, eq, blank⟩ := exists_trimEnd (trimStart cs)
  refine ⟨cs.takeWhile isBlank, trail, ?_, ?_, blank⟩
  · rw [trim, ← eq, trimStart, List.takeWhile_append_dropWhile]
  · intro c mem
    exact List.all_eq_true.1 List.all_takeWhile c mem

theorem mem_of_mem_trim {c : Char} {cs : List Char} (h : c ∈ trim cs) : c ∈ cs := by
  obtain ⟨lead, trail, eq, -, -⟩ := exists_trim cs
  rw [eq]
  exact List.mem_append_right lead (List.mem_append_left trail h)

/-- What trims to nothing is blank. -/
theorem isBlank_of_trim_eq_nil {cs : List Char} (h : trim cs = []) : ∀ c ∈ cs, isBlank c := by
  obtain ⟨lead, trail, eq, before, behind⟩ := exists_trim cs
  rw [eq, h, List.nil_append]
  exact List.forall_mem_append.2 ⟨before, behind⟩

theorem trimmed_of_forall {cs : List Char} (h : ∀ c ∈ cs, isBlank c = false) : Trimmed cs where
  head c mem := h c (List.mem_of_mem_head? mem)
  last c mem := h c (List.mem_of_getLast? mem)

theorem trimmed_between {first last : Char} (h : isBlank first = false) (h' : isBlank last = false)
    (mid : List Char) : Trimmed (first :: (mid ++ [last])) where
  head := by
    intro c mem
    cases mem
    exact h
  last := by
    intro c mem
    rw [← List.cons_append, List.getLast?_concat] at mem
    cases mem
    exact h'

theorem isBlank_head_dropWhile (cs : List Char) :
    ∀ c ∈ (cs.dropWhile isBlank).head?, isBlank c = false := by
  intro c mem
  have first := List.head?_dropWhile_not isBlank cs
  rw [Option.mem_def.1 mem] at first
  exact first

/-- What trimming leaves is trimmed. -/
theorem trimmed_trim (cs : List Char) : Trimmed (trim cs) where
  head := by
    intro c mem
    -- what begins the text without its last blanks began it with them
    obtain ⟨trail, eq, -⟩ := exists_trimEnd (trimStart cs)
    apply isBlank_head_dropWhile cs
    show c ∈ (trimStart cs).head?
    rw [eq, List.head?_append, show (trimEnd (trimStart cs)).head? = some c from mem]
    rfl
  last := by
    intro c mem
    rw [trim, trimEnd, List.getLast?_reverse] at mem
    exact isBlank_head_dropWhile _ c mem

/-- A text without blanks at its ends is what is left of it between blanks. -/
theorem trim_of_surrounded {lead mid trail : List Char} (before : ∀ c ∈ lead, isBlank c)
    (behind : ∀ c ∈ trail, isBlank c) (trimmed : Trimmed mid) :
    trim (lead ++ (mid ++ trail)) = mid := by
  rw [trim, trimStart, List.dropWhile_append_of_pos before]
  cases mid with
  | nil =>
    have all : trail.dropWhile isBlank = [] := by
      have none : (trail ++ []).dropWhile isBlank = [] := List.dropWhile_append_of_pos behind
      simpa using none
    rw [List.nil_append, all]
    rfl
  | cons c mid =>
    have stays : ¬ isBlank c = true := by simp [trimmed.head c rfl]
    -- the last character is not blank, so nothing more is dropped from the end
    have ends : (c :: mid).reverse.dropWhile isBlank = (c :: mid).reverse := by
      cases back : (c :: mid).reverse with
      | nil => rfl
      | cons d others =>
        have isLast : d ∈ (c :: mid).getLast? := by
          rw [← List.head?_reverse, back]
          rfl
        exact List.dropWhile_cons_of_neg (by simp [trimmed.last d isLast])
    rw [List.cons_append, List.dropWhile_cons_of_neg stays, ← List.cons_append, trimEnd,
      List.reverse_append, List.dropWhile_append_of_pos, ends, List.reverse_reverse]
    intro d mem
    exact behind d (List.mem_reverse.1 mem)

/-- A trimmed text stays as it is. -/
theorem Trimmed.trim_eq {cs : List Char} (h : Trimmed cs) : trim cs = cs := by
  have alone := trim_of_surrounded (List.forall_mem_nil _) (List.forall_mem_nil _) h
  simpa using alone

theorem trim_trim (cs : List Char) : trim (trim cs) = trim cs :=
  (trimmed_trim cs).trim_eq

/-- Blanks around a text do not matter for what is left of it. -/
theorem trim_blanks {lead trail : List Char} (before : ∀ c ∈ lead, isBlank c)
    (behind : ∀ c ∈ trail, isBlank c) (cs : List Char) :
    trim (lead ++ (cs ++ trail)) = trim cs := by
  obtain ⟨lead', trail', eq, before', behind'⟩ := exists_trim cs
  have whole : lead ++ (cs ++ trail) = lead ++ lead' ++ (trim cs ++ (trail' ++ trail)) := by
    rw [List.append_assoc, ← List.append_assoc (trim cs), ← List.append_assoc lead', ← eq]
  rw [whole]
  exact trim_of_surrounded (List.forall_mem_append.2 ⟨before, before'⟩)
    (List.forall_mem_append.2 ⟨behind', behind⟩) (trimmed_trim cs)

theorem trim_cons {c : Char} (h : isBlank c) (cs : List Char) : trim (c :: cs) = trim cs := by
  have one : ∀ d ∈ [c], isBlank d := by simpa using h
  have blanks := trim_blanks one (List.forall_mem_nil _) cs
  simpa using blanks

theorem trim_trimEnd (cs : List Char) : trim (trimEnd cs) = trim cs := by
  obtain ⟨trail, eq, blank⟩ := exists_trimEnd cs
  have blanks := trim_blanks (List.forall_mem_nil _) blank (trimEnd cs)
  rw [List.nil_append, ← eq] at blanks
  exact blanks.symm

/-- Behind a text that ends in no blank, the blanks at the end are those of what was added. -/
theorem trimEnd_append {c : Char} (h : isBlank c = false) (front rest : List Char) :
    trimEnd (front ++ c :: rest) = front ++ c :: trimEnd rest := by
  have stays : ¬ isBlank c = true := by simp [h]
  rw [trimEnd, trimEnd, List.reverse_append, List.reverse_cons, List.append_assoc,
    List.dropWhile_append]
  split
  · rename_i all
    rw [List.singleton_append, List.dropWhile_cons_of_neg stays, List.isEmpty_iff.1 all]
    simp
  · simp

/-- Behind a trimmed text only blanks at the end are dropped. -/
theorem trim_append {a : List Char} (h : Trimmed a) (ne : a ≠ []) (rest : List Char) :
    trim (a ++ rest) = a ++ trimEnd rest := by
  have first : ¬ isBlank (a.head ne) = true := by simp [h.head _ (List.head?_eq_some_head ne)]
  have last : isBlank (a.getLast ne) = false := h.last _ (List.getLast?_eq_some_getLast ne)
  have starts : trimStart (a ++ rest) = a ++ rest := by
    rw [← List.cons_head_tail ne, List.cons_append]
    exact List.dropWhile_cons_of_neg first
  rw [trim, starts, ← List.dropLast_concat_getLast ne, List.append_assoc, List.append_assoc,
    List.singleton_append, List.singleton_append, trimEnd_append last]

/-! ### Given ends -/

theorem stripStart?_append (start rest : List Char) :
    stripStart? start (start ++ rest) = some rest := by
  induction start with
  | nil => rfl
  | cons c start ih =>
    rw [List.cons_append, stripStart?, if_pos rfl]
    exact ih

theorem stripEnd?_append (front ending : List Char) :
    stripEnd? ending (front ++ ending) = some front := by
  rw [stripEnd?, List.reverse_append, stripStart?_append, Option.map_some, List.reverse_reverse]

/-! ### Quotes -/

/-- A text is between quotes exactly if it is written so. -/
theorem between?_eq_some_iff {quote : Char} {cs inner : List Char} :
    between? quote cs = some inner ↔ cs = quote :: (inner ++ [quote]) := by
  constructor
  · intro h
    obtain ⟨⟨long, first, last⟩, is⟩ := Option.ite_none_right_eq_some.1 h
    cases is
    obtain ⟨rest, rfl⟩ := List.head?_eq_some_iff.1 first
    -- two characters at least: one quote is not both
    have ne : rest ≠ [] := by
      rintro rfl
      simp at long
    rw [List.getLast?_cons_of_ne_nil ne, List.getLast?_eq_some_getLast ne,
      Option.some.injEq] at last
    rw [List.tail_cons, ← last, List.dropLast_concat_getLast]
  · rintro rfl
    refine Option.ite_none_right_eq_some.2 ⟨⟨?_, ?_, ?_⟩, ?_⟩
    · simp
    · rfl
    · rw [← List.cons_append, List.getLast?_concat]
    · rw [List.tail_cons, List.dropLast_concat]

/-- A text between quotes of one kind. -/
def Quoted (cs : List Char) : Prop :=
  ∃ quote inner, (quote = '"' ∨ quote = '\'') ∧ cs = quote :: (inner ++ [quote])

theorem unquote_quoted (cs : List Char) : unquote ('"' :: (cs ++ ['"'])) = cs := by
  rw [unquote, between?_eq_some_iff.2 rfl]

/-- Without its quotes, a text is two characters shorter. -/
theorem length_unquote {cs : List Char} (h : Quoted cs) : (unquote cs).length + 2 = cs.length := by
  have shorter : ∀ {quote : Char} {inner : List Char}, between? quote cs = some inner →
      inner.length + 2 = cs.length := by
    intro quote inner found
    rw [between?_eq_some_iff.1 found, List.length_cons, List.length_append, List.length_singleton]
  rw [unquote]
  cases double : between? '"' cs with
  | some inner => exact shorter double
  | none =>
    obtain ⟨quote, inner, rfl | rfl, eq⟩ := h
    · rw [between?_eq_some_iff.2 eq] at double
      cases double
    · have single := between?_eq_some_iff.2 eq
      simp only [single, Option.getD_some]
      exact shorter single

/-- A text that is not quoted stays as it is. -/
theorem unquote_eq_self {cs : List Char} (h : ¬ Quoted cs) : unquote cs = cs := by
  have none : ∀ quote, quote = '"' ∨ quote = '\'' → between? quote cs = none := by
    intro quote is
    cases found : between? quote cs with
    | none => rfl
    | some inner => exact absurd ⟨quote, inner, is, between?_eq_some_iff.1 found⟩ h
  rw [unquote, none '"' (.inl rfl), none '\'' (.inr rfl)]
  rfl

/-- Without its quotes and the blanks at its ends a text is itself only if it has neither. -/
theorem unquote_trim_eq_self_iff {cs : List Char} :
    unquote (trim cs) = cs ↔ Trimmed cs ∧ ¬ Quoted cs := by
  constructor
  · intro same
    by_cases quoted : Quoted (trim cs)
    · have shorter := length_unquote quoted
      have short := length_trim_le cs
      rw [same] at shorter
      omega
    · rw [unquote_eq_self quoted] at same
      rw [← same]
      exact ⟨trimmed_trim cs, quoted⟩
  · rintro ⟨trimmed, plain⟩
    rw [trimmed.trim_eq, unquote_eq_self plain]

/-! ### Separators -/

/-- A text is split at the first separator. -/
theorem splitOnce?_eq_some_iff {sep : Char} {cs front back : List Char} :
    splitOnce? sep cs = some (front, back) ↔ cs = front ++ sep :: back ∧ sep ∉ front := by
  -- the separator is here, or the first character goes to the front
  induction cs generalizing front with
  | nil => simp [splitOnce?]
  | cons c cs ih =>
    rw [splitOnce?]
    by_cases here : c = sep
    · rw [if_pos here, Option.some.injEq, Prod.mk.injEq]
      constructor
      · rintro ⟨rfl, rfl⟩
        exact ⟨by rw [here, List.nil_append], List.not_mem_nil⟩
      · rintro ⟨eq, absent⟩
        cases front with
        | nil => exact ⟨rfl, (List.cons.inj eq).2⟩
        | cons d front =>
          refine absurd ?_ absent
          rw [← here, (List.cons.inj eq).1]
          exact List.mem_cons_self
    · rw [if_neg here, Option.map_eq_some_iff]
      constructor
      · rintro ⟨⟨front', back'⟩, found, eq⟩
        cases eq
        obtain ⟨rfl, absent⟩ := ih.1 found
        refine ⟨rfl, ?_⟩
        rw [List.mem_cons, not_or]
        exact ⟨fun eq => here eq.symm, absent⟩
      · rintro ⟨eq, absent⟩
        cases front with
        | nil => exact absurd (List.cons.inj eq).1 here
        | cons d front =>
          obtain ⟨rfl, behind⟩ := List.cons.inj eq
          rw [List.mem_cons, not_or] at absent
          exact ⟨(front, back), ih.2 ⟨behind, absent.2⟩, rfl⟩

/-- A text without the separator is not split. -/
theorem splitOnce?_eq_none_iff {sep : Char} {cs : List Char} :
    splitOnce? sep cs = none ↔ sep ∉ cs := by
  constructor
  · intro none mem
    obtain ⟨front, back, eq, absent⟩ := List.eq_append_cons_of_mem mem
    rw [splitOnce?_eq_some_iff.2 ⟨eq, absent⟩] at none
    cases none
  · intro absent
    cases found : splitOnce? sep cs with
    | none => rfl
    | some parts =>
      obtain ⟨front, back⟩ := parts
      obtain ⟨rfl, -⟩ := splitOnce?_eq_some_iff.1 found
      exact absurd (List.mem_append_right front List.mem_cons_self) absent

end RuleCodec.Text
