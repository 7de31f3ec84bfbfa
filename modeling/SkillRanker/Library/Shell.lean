import Mathlib.Data.List.Basic
import Mathlib.Tactic.Linarith

/-! The words of a shell command. A text is read character by character, with the quoting rules
of the POSIX shell. A text that the shell would not take for the literal words of one command
(because it expands something, matches a pattern, ends the command or leaves a quotation open) has
no words. A first word without a slash or a quotation could also be a reserved word, an assignment or
an alias; such commands are not modelled.
-/

namespace SkillRanker.Library

/-- How the next character is read: bare, behind a backslash, or in quotations. -/
inductive Quotation
  | bare
  | escaped
  | double
  | doubleEscaped
  | single
deriving DecidableEq

abbrev ShellWord : Type := List (Char × Bool)

namespace ShellWord

def chars (word : ShellWord) : List Char := word.map Prod.fst

/-- A bare `]` stands before any slash. -/
def closes : ShellWord → Bool
  | [] => false
  | (char, isQuoted) :: rest => char != '/' && ((char == ']' && !isQuoted) || closes rest)

def closesBehindMember : ShellWord → Bool
  | [] => false
  | (char, _) :: rest => char != '/' && closes rest

/-- What stands behind a `[` closes its brackets, where a bare `!` may come before the members. The
standard leaves open what a `^` there means; it is taken for a member.
-/
def closesBrackets : ShellWord → Bool
  | ('!', false) :: rest => closesBehindMember rest
  | members => closesBehindMember members

def hasBrackets : ShellWord → Bool
  | [] => false
  | (char, isQuoted) :: rest =>
      (char == '[' && !isQuoted && closesBrackets rest) || hasBrackets rest

theorem hasBrackets_quoted (text : List Char)
    : hasBrackets (text.map (·, true)) = false := by
  induction text with
  | nil => rfl
  | cons char rest ih => simpa [hasBrackets] using ih

end ShellWord

structure ShellReader where
  done : List ShellWord
  word : Option ShellWord
  mode : Quotation
deriving DecidableEq

namespace ShellReader

def start : ShellReader := { done := [], word := none, mode := .bare }

def put (reader : ShellReader) (chars : List Char) (mode : Quotation) : ShellReader :=
  { reader with
    word := some (reader.word.getD [] ++ chars.map (·, decide (reader.mode ≠ .bare)))
    mode }

def words (reader : ShellReader) : List ShellWord := reader.done ++ reader.word.toList

/-- The words as they stand, if no quotation is open and none of them is a pattern. -/
def literals (reader : ShellReader) : Option (List (List Char)) :=
  if reader.mode = .bare ∧ reader.words.all (!·.hasBrackets) then
    some (reader.words.map ShellWord.chars)
  else none

end ShellReader

def separatesWords (char : Char) : Bool := char == ' ' || char == '\t'

/-- The characters that, bare, end a command, make an operator, begin an expansion or match others.
The shell may take a `$` for itself where no parameter follows, but need not.
-/
def isActive (char : Char) : Bool :=
  ['\n', '&', '|', ';', '<', '>', '(', ')', '$', '`', '*', '?'].elem char

/-- The characters that begin a comment or a home directory where a word begins. -/
def opensWord (char : Char) : Bool := char == '#' || char == '~'

/-- The characters that a backslash makes literal in double quotes. -/
def isEscapable (char : Char) : Bool := ['$', '`', '"', '\\'].elem char

def expandsQuoted (char : Char) : Bool := char == '$' || char == '`'

def ShellReader.step (reader : ShellReader) (char : Char) : Option ShellReader :=
  match reader.mode with
  | .bare =>
      if separatesWords char then some { reader with done := reader.words, word := none }
      else if isActive char || (opensWord char && reader.word.isNone) then none
      else if char = '\\' then some { reader with mode := .escaped }
      else if char = '"' then some (reader.put [] .double)
      else if char = '\'' then some (reader.put [] .single)
      else some (reader.put [char] .bare)
  | .escaped =>
      if char = '\n' then some { reader with mode := .bare }
      else some (reader.put [char] .bare)
  | .double =>
      if char = '"' then some { reader with mode := .bare }
      else if expandsQuoted char then none
      else if char = '\\' then some { reader with mode := .doubleEscaped }
      else some (reader.put [char] .double)
  | .doubleEscaped =>
      if char = '\n' then some { reader with mode := .double }
      else if isEscapable char then some (reader.put [char] .double)
      else some (reader.put ['\\', char] .double)
  | .single =>
      if char = '\'' then some { reader with mode := .bare }
      else some (reader.put [char] .single)

def ShellReader.run (reader : ShellReader) (text : List Char) : Option ShellReader :=
  text.foldlM ShellReader.step reader

def commandWords (text : List Char) : Option (List (List Char)) :=
  (ShellReader.start.run text).bind ShellReader.literals

namespace ShellReader

variable (reader : ShellReader)

theorem run_cons (char : Char) (text : List Char)
    : reader.run (char :: text) = (reader.step char).bind (·.run text) := rfl

theorem run_append (front back : List Char)
    : reader.run (front ++ back) = (reader.run front).bind (·.run back) :=
  List.foldlM_append

-- Characters that are kept

/-- The count of the characters that were kept. A backslash in double quotes is kept until the next
character is read.
-/
def kept (reader : ShellReader) : Nat :=
  (reader.done.map List.length).sum + (reader.word.getD []).length
    + (if reader.mode = .doubleEscaped then 1 else 0)

theorem kept_put (chars : List Char) {mode : Quotation} (notEscaped : mode ≠ .doubleEscaped)
    : (reader.put chars mode).kept
      = (reader.done.map List.length).sum + (reader.word.getD []).length + chars.length := by
  simp [kept, put, notEscaped, Nat.add_assoc]

theorem length_words
    : (reader.words.map List.length).sum
      = (reader.done.map List.length).sum + (reader.word.getD []).length := by
  cases word : reader.word <;> simp [words, word]

/-- A character stands for itself where nothing is quoted. -/
def isQuiet (char : Char) : Bool :=
  !(separatesWords char || isActive char || char == '\\' || char == '"' || char == '\'')

variable {reader next : ShellReader} {char : Char}

/-- A character adds at most one to what is kept, by the way it is read. -/
theorem kept_step_le (read : reader.step char = some next)
    : next.kept ≤ reader.kept + 1 := by
  unfold step at read
  cases mode : reader.mode <;> simp only [mode] at read <;> split_ifs at read <;>
    cases read <;> simp [kept, put, mode, length_words] <;> omega

variable (text : List Char)

/-- A text adds at most its length to what is kept, by induction on it. -/
theorem kept_run_le (read : reader.run text = some next)
    : next.kept ≤ reader.kept + text.length := by
  induction text generalizing reader with
  | nil =>
      cases read
      exact le_rfl
  | cons char rest ih =>
      rw [run_cons] at read
      obtain ⟨between, first, later⟩ := Option.bind_eq_some_iff.mp read
      have one := kept_step_le first
      have others := ih later
      rw [List.length_cons]
      omega

-- Bare texts

def inWord (done : List ShellWord) (word : ShellWord) : ShellReader :=
  { done, word := some word, mode := .bare }

theorem step_quiet (bare : reader.mode = .bare) (quiet : isQuiet char = true)
    (opens : opensWord char = false ∨ reader.word.isNone = false)
    : reader.step char = some (reader.put [char] .bare) := by
  simp only [isQuiet, Bool.not_eq_true', Bool.or_eq_false_iff, beq_eq_false_iff_ne] at quiet
  obtain ⟨⟨⟨⟨noBlank, passive⟩, notBackslash⟩, notDouble⟩, notSingle⟩ := quiet
  unfold step
  rw [bare]
  rcases opens with noOpening | begun
  · simp [noBlank, passive, notBackslash, notDouble, notSingle, noOpening]
  · simp [noBlank, passive, notBackslash, notDouble, notSingle, begun]

/-- A text of quiet characters is put to the word, by induction on the text. -/
theorem run_quiet (done : List ShellWord) (word : ShellWord)
    (quiet : ∀ char ∈ text, isQuiet char = true)
    : (inWord done word).run text = some (inWord done (word ++ text.map (·, false))) := by
  induction text generalizing word with
  | nil =>
      rw [List.map_nil, List.append_nil]
      rfl
  | cons char rest ih =>
      have later := ih (word ++ [(char, false)]) fun other mem => quiet other (List.mem_cons_of_mem _ mem)
      rw [run_cons, step_quiet rfl (quiet char List.mem_cons_self) (.inr rfl), Option.bind_some]
      rw [List.append_assoc] at later
      exact later

theorem kept_step_loud (bare : reader.mode = .bare) (loud : isQuiet char = false)
    (read : reader.step char = some next)
    : next.kept ≤ reader.kept := by
  unfold step at read
  simp only [bare] at read
  split_ifs at read with blank active backslash double single
  · cases read
    simp [kept, bare, length_words]
  · cases read
    simp [kept, bare]
  · cases read
    simp [kept, put, bare]
  · cases read
    simp [kept, put, bare]
  · simp only [Bool.or_eq_true, not_or] at active
    simp [isQuiet, blank, active.1, backslash, double, single] at loud

/-- Behind a quiet character nothing is quoted. -/
theorem mode_step_quiet (bare : reader.mode = .bare) (quiet : isQuiet char = true)
    (read : reader.step char = some next)
    : next.mode = .bare := by
  by_cases opens : opensWord char = false ∨ reader.word.isNone = false
  · rw [step_quiet bare quiet opens] at read
    cases read
    rfl
  · obtain ⟨opening, fresh⟩ := not_or.mp opens
    simp only [isQuiet, Bool.not_eq_true', Bool.or_eq_false_iff] at quiet
    unfold step at read
    simp [bare, quiet.1.1.1.1, Bool.not_eq_false _ ▸ opening, Bool.not_eq_false _ ▸ fresh] at read

/-- A text with another character is not kept whole, by induction on the text. -/
theorem kept_run_loud (bare : reader.mode = .bare) (loud : ¬∀ char ∈ text, isQuiet char = true)
    (read : reader.run text = some next)
    : next.kept + 1 ≤ reader.kept + text.length := by
  induction text generalizing reader with
  | nil => exact absurd (fun _ mem => (List.not_mem_nil mem).elim) loud
  | cons char rest ih =>
      rw [run_cons] at read
      obtain ⟨between, first, later⟩ := Option.bind_eq_some_iff.mp read
      rw [List.length_cons]
      cases quiet : isQuiet char with
      | false =>
          have one := kept_step_loud bare quiet first
          have others := kept_run_le rest later
          omega
      | true =>
          have one := kept_step_le first
          have stillBare : between.mode = .bare := by
            exact mode_step_quiet bare quiet first
          have others := ih stillBare
            (fun all => loud (List.forall_mem_cons.mpr ⟨quiet, all⟩)) later
          omega

-- Texts in double quotes

/-- Each character stands for itself in double quotes: none ends them or expands, and behind a
backslash none is made literal by it.
-/
def isPlain : (escaped : Bool) → List Char → Bool
  | escaped, [] => !escaped
  | false, char :: rest =>
      if char = '\\' then isPlain true rest
      else char != '"' && !expandsQuoted char && isPlain false rest
  | true, char :: rest => char != '\n' && !isEscapable char && isPlain false rest

def quoted (escaped : Bool) : Quotation := if escaped then .doubleEscaped else .double

def inQuotes (escaped : Bool) (done : List ShellWord) (word : ShellWord) : ShellReader :=
  { done, word := some word, mode := quoted escaped }

/-- A plain text is put to the word, by induction on the text. -/
theorem run_plain (escaped : Bool) (done : List ShellWord) (word : ShellWord)
    (plain : isPlain escaped text = true)
    : (inQuotes escaped done word).run text
      = some (inQuotes false done
          (word ++ (if escaped then '\\' :: text else text).map (·, true))) := by
  induction text generalizing escaped word with
  | nil =>
      cases escaped with
      | true => cases plain
      | false =>
          rw [if_neg Bool.false_ne_true, List.map_nil, List.append_nil]
          rfl
  | cons char rest ih =>
      rw [run_cons]
      cases escaped with
      | true =>
          simp only [isPlain, Bool.and_eq_true, Bool.not_eq_true', bne_iff_ne] at plain
          have read : (inQuotes true done word).step char
              = some (inQuotes false done (word ++ [('\\', true), (char, true)])) := by
            simp [inQuotes, step, quoted, plain.1.1, plain.1.2, put]
          rw [read, Option.bind_some, ih false _ plain.2]
          simp
      | false =>
          rw [isPlain] at plain
          split at plain
          · next isBackslash =>
              have read : (inQuotes false done word).step char
                  = some (inQuotes true done word) := by
                simp [inQuotes, step, quoted, isBackslash, expandsQuoted]
              rw [read, Option.bind_some, ih true _ plain, isBackslash]
              simp
          · next notBackslash =>
              simp only [Bool.and_eq_true, Bool.not_eq_true', bne_iff_ne] at plain
              have read : (inQuotes false done word).step char
                  = some (inQuotes false done (word ++ [(char, true)])) := by
                simp [inQuotes, step, quoted, plain.1.1, plain.1.2, notBackslash, put]
              rw [read, Option.bind_some, ih false _ plain.2]
              simp

/-- Another text is not kept whole, unless it ends with a backslash, by induction on the text. -/
theorem kept_run_rough (escaped : Bool) (mode : reader.mode = quoted escaped)
    (rough : isPlain escaped text = false) (read : reader.run text = some next)
    : next.mode = .doubleEscaped ∨ next.kept + 1 ≤ reader.kept + text.length := by
  induction text generalizing escaped reader with
  | nil =>
      cases escaped with
      | true =>
          cases read
          exact .inl mode
      | false => cases rough
  | cons char rest ih =>
      rw [run_cons] at read
      obtain ⟨between, first, later⟩ := Option.bind_eq_some_iff.mp read
      have one := kept_step_le first
      have others := kept_run_le rest later
      rw [List.length_cons]
      cases escaped with
      | true =>
          have behind : reader.mode = .doubleEscaped := mode
          simp only [step, behind] at first
          split_ifs at first with isNewline isEscape
          · cases first
            refine .inr ?_
            have lost : reader.kept = ({ reader with mode := .double } : ShellReader).kept + 1 := by
              simp [kept, behind]
            omega
          · cases first
            refine .inr ?_
            have lost : (reader.put [char] .double).kept = reader.kept := by
              rw [kept_put _ _ (by decide)]
              simp [kept, behind]
            omega
          · cases first
            have roughRest : isPlain false rest = false := by
              simpa [isPlain, isNewline, isEscape] using rough
            exact (ih false rfl roughRest later).imp_right fun less => by omega
      | false =>
          have within : reader.mode = .double := mode
          simp only [step, within] at first
          split_ifs at first with isQuote isExpansion isBackslash
          · cases first
            refine .inr ?_
            have lost : ({ reader with mode := .bare } : ShellReader).kept = reader.kept := by
              simp [kept, within]
            omega
          · cases first
            have roughRest : isPlain true rest = false := by
              simpa [isPlain, isBackslash] using rough
            exact (ih true rfl roughRest later).imp_right fun less => by omega
          · cases first
            have roughRest : isPlain false rest = false := by
              simpa [isPlain, isBackslash, isQuote, isExpansion] using rough
            exact (ih false rfl roughRest later).imp_right fun less => by omega

end ShellReader

end SkillRanker.Library
