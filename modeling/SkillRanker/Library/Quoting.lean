import Mathlib.Data.List.Basic

/-! Quoted literals: what is read between two quotes is what was written there. -/

namespace SkillRanker.Library

variable {source : List Char} {texts : List (List Char)}

-- One literal

def needsEscape (char : Char) : Bool := char = '\\' || char = '"'

/-- A text with an escape before each character that needs one. -/
def quotedBody (text : List Char) : List Char :=
  text.flatMap fun char => if needsEscape char then ['\\', char] else [char]

def quoted (text : List Char) : List Char := '"' :: (quotedBody text ++ ['"'])

def readEscaped : List Char → Option (List Char × List Char)
  | [] => none
  | '"' :: rest => some ([], rest)
  | ['\\'] => none
  | '\\' :: char :: rest =>
      if needsEscape char then
        (readEscaped rest).map fun (text, after) => (char :: text, after)
      else none
  | first :: rest => (readEscaped rest).map fun (text, after) => (first :: text, after)

theorem escaped_cons (char : Char) (text : List Char)
    : quotedBody (char :: text)
      = (if needsEscape char then ['\\', char] else [char]) ++ quotedBody text :=
  List.flatMap_cons

theorem readEscaped_escaped (text after : List Char)
    : readEscaped (quotedBody text ++ '"' :: after) = some (text, after) := by
  induction text with
  | nil => simp [quotedBody, readEscaped]
  | cons char rest ih =>
      rw [escaped_cons]
      by_cases special : needsEscape char = true
      · simp [special, readEscaped, ih]
      · have notQuote : char ≠ '"' := by
          rintro rfl
          exact special (by decide)
        have notEscape : char ≠ '\\' := by
          rintro rfl
          exact special (by decide)
        simp [special, readEscaped, ih, notEscape]

section

variable {text after : List Char} (read : readEscaped source = some (text, after))
include read

/-- What is read as an escaped text is that text escaped, by the cases of the reader. -/
theorem of_readEscaped
    : source = quotedBody text ++ '"' :: after := by
  induction source using readEscaped.induct generalizing text after with
  | case1 => simp [readEscaped] at read
  | case2 rest =>
      simp only [readEscaped, Option.some.injEq, Prod.mk.injEq] at read
      obtain ⟨rfl, rfl⟩ := read
      rfl
  | case3 => simp [readEscaped] at read
  | case4 char rest special ih =>
      simp only [readEscaped, special, if_true, Option.map_eq_some_iff] at read
      obtain ⟨⟨tail, behind⟩, found, same⟩ := read
      cases same
      rw [ih found, escaped_cons, if_pos special]
      rfl
  | case5 char rest plain => simp [readEscaped, plain] at read
  | case6 first rest notQuote alone notEscape ih =>
      have plain : ¬needsEscape first = true := by
        rw [needsEscape, Bool.or_eq_true, decide_eq_true_eq, decide_eq_true_eq]
        rintro (rfl | rfl)
        · cases rest with
          | nil => exact alone rfl rfl
          | cons char rest => exact notEscape char rest rfl rfl
        · exact notQuote rfl
      rw [readEscaped, Option.map_eq_some_iff] at read
      · obtain ⟨⟨tail, behind⟩, found, same⟩ := read
        cases same
        rw [ih found, escaped_cons, if_neg plain]
        rfl
      all_goals assumption

theorem length_of_readEscaped
    : after.length < source.length := by
  rw [of_readEscaped read, List.length_append, List.length_cons]
  omega

end

-- Literals between separators

/-- Literals with a separator between each two of them. -/
def joined (separator : List Char) (texts : List (List Char)) : List Char :=
  separator.intercalate (texts.map quoted)

def readJoined (separator : List Char) (source : List Char) : Option (List (List Char)) :=
  match source with
  | [] => none
  | first :: body =>
      if first = '"' then
        match _ : readEscaped body with
        | none => none
        | some (text, after) =>
            if after = [] then some [text]
            else if after.take separator.length = separator then
              (readJoined separator (after.drop separator.length)).map (text :: ·)
            else none
      else none
termination_by source.length
decreasing_by
  have shorter := length_of_readEscaped (by assumption)
  simp only [List.length_drop, List.length_cons]
  omega

theorem joined_singleton (separator text : List Char) : joined separator [text] = quoted text := by
  simp [joined]

theorem joined_cons (separator text : List Char) (more : texts ≠ [])
    : joined separator (text :: texts) = quoted text ++ (separator ++ joined separator texts) := by
  cases texts with
  | nil => exact absurd rfl more
  | cons next rest => simp [joined, List.intercalate]

/-- Literals that another one is put behind. -/
theorem joined_append_singleton (separator text : List Char) (some : texts ≠ [])
    : joined separator (texts ++ [text]) = joined separator texts ++ (separator ++ quoted text) := by
  induction texts with
  | nil => exact absurd rfl some
  | cons first rest ih =>
      by_cases last : rest = []
      · subst last
        rw [List.singleton_append, joined_cons _ _ (List.cons_ne_nil _ _), joined_singleton,
          joined_singleton]
      · rw [List.cons_append, joined_cons _ _ (by simp), ih last, joined_cons _ _ last]
        simp

theorem joined_ne_nil (separator : List Char) (some : texts ≠ [])
    : joined separator texts ≠ [] := by
  cases texts with
  | nil => exact absurd rfl some
  | cons first rest => cases rest <;> simp [joined, quoted, List.intercalate]

variable {separator : List Char}

theorem readJoined_eq_some_iff
    : readJoined separator source = some texts
      ↔ ∃ body text after, source = '"' :: body ∧ readEscaped body = some (text, after)
        ∧ (after = [] ∧ texts = [text]
          ∨ ∃ rest tail, after ≠ [] ∧ after = separator ++ rest
            ∧ readJoined separator rest = some tail ∧ texts = text :: tail) := by
  cases source with
  | nil => simp [readJoined]
  | cons first body =>
      rw [readJoined]
      by_cases opened : first = '"'
      · subst opened
        rw [if_pos rfl]
        cases found : readEscaped body with
        | none => simp [found]
        | some read =>
            obtain ⟨text, after⟩ := read
            by_cases last : after = []
            · subst last
              simp [found, eq_comm]
            · by_cases separated : after.take separator.length = separator
              · have shape := List.take_append_drop separator.length after
                rw [separated] at shape
                constructor
                · intro read
                  have behind : (readJoined separator (after.drop separator.length)).map (text :: ·)
                      = some texts := by grind
                  obtain ⟨tail, readTail, rfl⟩ := Option.map_eq_some_iff.mp behind
                  exact ⟨body, text, after, rfl, found,
                    .inr ⟨_, tail, last, shape.symm, readTail, rfl⟩⟩
                · rintro ⟨_, _, _, same, found', ⟨rfl, _⟩ | ⟨rest, tail, _, joins, readTail, rfl⟩⟩
                  · grind
                  · grind
              · constructor
                · grind
                · grind
      · simp [opened]

/-- Joined literals are read back, whatever their texts are, by induction on the literals. -/
theorem readJoined_joined (nonempty : separator ≠ []) (some : texts ≠ [])
    : readJoined separator (joined separator texts) = .some texts := by
  induction texts with
  | nil => exact absurd rfl some
  | cons text rest ih =>
      rw [readJoined_eq_some_iff]
      by_cases last : rest = []
      · subst last
        exact ⟨_, text, [], joined_singleton _ _, readEscaped_escaped text [], .inl ⟨rfl, rfl⟩⟩
      · refine ⟨_, text, separator ++ joined separator rest, ?_, readEscaped_escaped text _,
          .inr ⟨_, rest, by simp [nonempty], rfl, ih last, rfl⟩⟩
        rw [joined_cons _ _ last, quoted]
        simp

end SkillRanker.Library
