import SkillRanker.Library.Shell
import SkillRanker.Library.Utf8

/-! The command of the managed hook, and the words that a shell makes of it. -/

namespace SkillRanker.Installer

open Library

variable {reader : ShellReader} {path : List Char}

/-- An absolute path: bytes that begin with a slash, none of them zero. -/
structure AbsolutePath where
  bytes : List UInt8
  absolute : bytes.head? = some 0x2F
  unterminated : 0 ∉ bytes

def AbsolutePath.text (path : AbsolutePath) : List Char := lossy path.bytes

def hookWord : List Char := ['h', 'o', 'o', 'k']

def claudeWord : List Char := ['c', 'l', 'a', 'u', 'd', 'e']

def hookArguments : List Char := ' ' :: (hookWord ++ ' ' :: claudeWord)

def commandOf (path : List Char) : List Char :=
  if ' ' ∈ path then '"' :: (path ++ '"' :: hookArguments) else path ++ hookArguments

def makeCommandString (binaryPath : AbsolutePath) : String :=
  String.ofList (commandOf binaryPath.text)

def hookWords (path : List Char) : List (List Char) := [path, hookWord, claudeWord]

-- The arguments as they are read

open ShellReader

def bareWord (text : List Char) : ShellWord := text.map (·, false)

@[simp] theorem chars_bareWord (text : List Char) : (bareWord text).chars = text := by
  simp [bareWord, ShellWord.chars, Function.comp_def]

/-- Behind a word the second argument ends the text. -/
theorem run_second (done : List ShellWord) (word : ShellWord)
    : (inWord done word).run (' ' :: claudeWord)
      = some (inWord (done ++ [word]) (bareWord claudeWord)) := rfl

theorem run_arguments_bare (bare : reader.mode = .bare)
    : reader.run hookArguments
      = some (inWord (reader.words ++ [bareWord hookWord]) (bareWord claudeWord)) := by
  obtain ⟨done, word, mode⟩ := reader
  cases bare
  exact run_second (done ++ word.toList) (bareWord hookWord)

/-- Behind a backslash the first blank belongs to the word before it. -/
theorem run_arguments_escaped (escaped : reader.mode = .escaped)
    : reader.run hookArguments
      = some (inWord (reader.done ++ [reader.word.getD [] ++ (' ', true) :: bareWord hookWord])
          (bareWord claudeWord)) := by
  have first : reader.step ' ' = some (inWord reader.done (reader.word.getD [] ++ [(' ', true)])) := by
    unfold step put
    rw [escaped]
    rfl
  have quiet : ∀ char ∈ hookWord, isQuiet char = true := List.all_eq_true.mp (by decide)
  have hook := run_quiet hookWord reader.done (reader.word.getD [] ++ [(' ', true)]) quiet
  rw [hookArguments, run_cons, first, Option.bind_some, run_append, hook, Option.bind_some,
    run_second, List.append_assoc]
  rfl

theorem run_arguments_quoted (notBare : reader.mode ≠ .bare) (notEscaped : reader.mode ≠ .escaped)
    : ∃ next, reader.run hookArguments = some next ∧ next.mode ≠ .bare := by
  obtain ⟨done, word, mode⟩ := reader
  cases mode with
  | bare => exact absurd rfl notBare
  | escaped => exact absurd rfl notEscaped
  | double => exact ⟨_, rfl, (by decide : Quotation.double ≠ .bare)⟩
  | doubleEscaped => exact ⟨_, rfl, (by decide : Quotation.double ≠ .bare)⟩
  | single => exact ⟨_, rfl, (by decide : Quotation.single ≠ .bare)⟩

section

variable {text : List Char} (read : start.run text = some reader)
include read

/-- The words of a text whose arguments are read bare, if it has no pattern. -/
theorem commandWords_bare (bare : reader.mode = .bare)
    : commandWords (text ++ hookArguments)
      = reader.literals.map (· ++ [hookWord, claudeWord]) := by
  have second : (bareWord claudeWord).hasBrackets = false := by decide
  have first : (bareWord hookWord).hasBrackets = false := by decide
  unfold commandWords
  rw [run_append, read, Option.bind_some, run_arguments_bare bare, Option.bind_some]
  simp only [literals, inWord, words, bare, true_and]
  split <;> simp_all

/-- The words of a text that ends with a backslash, if it has no pattern. -/
theorem commandWords_escaped (escaped : reader.mode = .escaped) {found : List (List Char)}
    (words : commandWords (text ++ hookArguments) = some found)
    : found = reader.done.map ShellWord.chars
      ++ [(reader.word.getD []).chars ++ ' ' :: hookWord, claudeWord] := by
  unfold commandWords at words
  rw [run_append, read, Option.bind_some, run_arguments_escaped escaped, Option.bind_some,
    literals] at words
  split at words
  · cases words
    simp [inWord, ShellReader.words, ShellWord.chars, bareWord, Function.comp_def]
  · cases words

theorem commandWords_quoted (notBare : reader.mode ≠ .bare) (notEscaped : reader.mode ≠ .escaped)
    : commandWords (text ++ hookArguments) = none := by
  obtain ⟨next, last, still⟩ := run_arguments_quoted notBare notEscaped
  unfold commandWords
  rw [run_append, read, Option.bind_some, last]
  simp [literals, still]

end

theorem commandWords_unread {text : List Char} (unread : start.run text = none)
    : commandWords (text ++ hookArguments) = none := by
  unfold commandWords
  rw [run_append, unread]
  rfl

/-- The words of the hook come from a text whose one word is the path, and no pattern. -/
theorem words_of_hookWords {text : List Char}
    (words : commandWords (text ++ hookArguments) = some (hookWords path))
    : ∃ reader, start.run text = some reader ∧ reader.mode = .bare
        ∧ reader.literals = some [path] := by
  cases read : start.run text with
  | none =>
      rw [commandWords_unread read] at words
      cases words
  | some reader =>
      refine ⟨reader, rfl, ?_⟩
      by_cases bare : reader.mode = .bare
      · rw [commandWords_bare read bare] at words
        obtain ⟨found, literals, same⟩ := Option.map_eq_some_iff.mp words
        have single : found ++ [hookWord, claudeWord] = [path] ++ [hookWord, claudeWord] := same
        exact ⟨bare, List.append_cancel_right single ▸ literals⟩
      · by_cases escaped : reader.mode = .escaped
        · have parts : reader.done.map ShellWord.chars
                ++ [(reader.word.getD []).chars ++ ' ' :: hookWord, claudeWord]
              = [path] ++ [hookWord, claudeWord] := (commandWords_escaped read escaped words).symm
          have tails := (List.append_inj' parts rfl).2
          have second : (reader.word.getD []).chars ++ ' ' :: hookWord = hookWord :=
            (List.cons.inj tails).1
          have lengths := congrArg List.length second
          simp [hookWord] at lengths
        · rw [commandWords_quoted read bare escaped] at words
          cases words

/-- Literal words are those that were read, none of them a pattern. -/
theorem literals_eq_some {found : List (List Char)} (literals : reader.literals = some found)
    : reader.words.all (!·.hasBrackets) = true ∧ reader.words.map ShellWord.chars = found := by
  unfold ShellReader.literals at literals
  split at literals
  · next whole => exact ⟨whole.2, Option.some.inj literals⟩
  · cases literals

-- The path as it is read

theorem kept_of_words (bare : reader.mode = .bare)
    (words : reader.words.map ShellWord.chars = [path])
    : reader.kept = path.length := by
  obtain ⟨word, isOnly, rfl⟩ := List.map_eq_singleton_iff.mp words
  have all := length_words reader
  rw [isOnly] at all
  simp only [List.map_cons, List.map_nil, List.sum_cons, List.sum_nil, Nat.add_zero] at all
  simp [kept, bare, all, ShellWord.chars]

/-- The characters of a path stand for themselves where nothing is quoted. -/
structure IsBare (path : List Char) : Prop where
  quiet : ∀ char ∈ path, isQuiet char = true
  literal : (bareWord path).hasBrackets = false

instance (path : List Char) : Decidable (IsBare path) :=
  decidable_of_iff (path.all isQuiet = true ∧ (bareWord path).hasBrackets = false)
    ⟨fun both => ⟨List.all_eq_true.mp both.1, both.2⟩,
      fun bare => ⟨List.all_eq_true.mpr bare.quiet, bare.literal⟩⟩

/-- A path of quiet characters is read as one word. -/
theorem run_path (absolute : path.head? = some '/') (quiet : ∀ char ∈ path, isQuiet char = true)
    : start.run path = some (inWord [] (bareWord path)) := by
  obtain ⟨rest, rfl⟩ : ∃ rest, path = '/' :: rest := List.head?_eq_some_iff.mp absolute
  exact run_quiet rest [] [('/', false)] fun char mem => quiet char (List.mem_cons_of_mem _ mem)

/-- A path without quotes is the first word just when it is bare. -/
theorem bareWords_iff (absolute : path.head? = some '/')
    : commandWords (path ++ hookArguments) = some (hookWords path) ↔ IsBare path := by
  constructor
  · intro words
    obtain ⟨reader, read, bare, literals⟩ := words_of_hookWords words
    obtain ⟨unbracketed, single⟩ := literals_eq_some literals
    have quiet : ∀ char ∈ path, isQuiet char = true := by
      by_contra loud
      have less := kept_run_loud path rfl loud read
      rw [kept_of_words bare single] at less
      have nothing : start.kept = 0 := rfl
      omega
    refine ⟨quiet, ?_⟩
    cases (run_path absolute quiet).symm.trans read
    simpa [inWord, ShellReader.words] using unbracketed
  · rintro ⟨quiet, literal⟩
    rw [commandWords_bare (run_path absolute quiet) rfl]
    simp [literals, inWord, ShellReader.words, literal, hookWords]

example : IsBare "/opt/a[b/sr".toList ∧ ¬IsBare "/opt/a[b]/sr".toList := by decide +kernel

/-- The reader behind a quotation mark that ends bare, by the way it is read. -/
theorem before_quote {before : ShellReader} (read : before.step '"' = some reader)
    (bare : reader.mode = .bare)
    : before.mode = .double ∧ reader = { before with mode := .bare }
      ∨ before.mode = .escaped ∧ reader = before.put ['"'] .bare := by
  obtain ⟨done, word, mode⟩ := before
  cases mode with
  | bare =>
      cases read
      cases bare
  | escaped =>
      cases read
      exact .inr ⟨rfl, rfl⟩
  | double =>
      cases read
      exact .inl ⟨rfl, rfl⟩
  | doubleEscaped =>
      cases read
      cases bare
  | single =>
      cases read
      cases bare

/-- A reader that a character leaves behind a backslash has read one. -/
theorem backslash_of_escaped {next : ShellReader} {char : Char}
    (read : reader.step char = some next) (escaped : next.mode = .escaped)
    : char = '\\' := by
  unfold step at read
  cases mode : reader.mode with
  | bare =>
      simp only [mode] at read
      split_ifs at read with _ _ backslash
      · cases read
        cases escaped
      · exact backslash
      all_goals
        cases read
        cases escaped
  | escaped =>
      simp only [mode] at read
      split_ifs at read <;> cases read <;> cases escaped
  | double =>
      simp only [mode] at read
      split_ifs at read <;> cases read <;> cases escaped
  | doubleEscaped =>
      simp only [mode] at read
      split_ifs at read <;> cases read <;> cases escaped
  | single =>
      simp only [mode] at read
      split_ifs at read <;> cases read <;> cases escaped

/-- A quoted path that is read as it is has no backslash at its end. -/
theorem not_escaped_of_words {before : ShellReader}
    (within : (inQuotes false [] []).run path = some before) (escaped : before.mode = .escaped)
    : (before.put ['"'] .bare).words.map ShellWord.chars ≠ [path] := by
  intro single
  have word : path = (before.word.getD []).chars ++ ['"'] := by
    have parts : before.done.map ShellWord.chars ++ [(before.word.getD []).chars ++ ['"']]
        = [] ++ [path] := by
      simpa [put, ShellReader.words, ShellWord.chars] using single
    exact ((List.cons.inj (List.append_inj' parts rfl).2).1).symm
  rw [word, run_append] at within
  obtain ⟨earlier, _, last⟩ := Option.bind_eq_some_iff.mp within
  obtain ⟨final, one, none⟩ := Option.bind_eq_some_iff.mp ((run_cons earlier '"' []).symm.trans last)
  cases none
  cases backslash_of_escaped one escaped

/-- A path in double quotes is the first word just when it is plain. -/
theorem quotedWords_iff (path : List Char)
    : commandWords ('"' :: (path ++ '"' :: hookArguments)) = some (hookWords path)
      ↔ isPlain false path = true := by
  have parts : '"' :: (path ++ '"' :: hookArguments)
      = '"' :: (path ++ ['"']) ++ hookArguments := by
    simp
  have opens : start.run ('"' :: (path ++ ['"']))
      = ((inQuotes false [] []).run path).bind (·.step '"') := by
    rw [run_cons]
    exact (run_append _ _ _).trans
      (congrArg _ (funext fun reader => Option.bind_fun_some _))
  rw [parts]
  constructor
  · intro words
    obtain ⟨reader, read, bare, literals⟩ := words_of_hookWords words
    have single := (literals_eq_some literals).2
    rw [opens] at read
    obtain ⟨before, within, last⟩ := Option.bind_eq_some_iff.mp read
    rcases before_quote last bare with ⟨double, rfl⟩ | ⟨escaped, rfl⟩
    · cases plain : isPlain false path with
      | true => rfl
      | false =>
          have whole : before.kept = path.length := by
            have same : before.kept = ({ before with mode := .bare } : ShellReader).kept := by
              simp [kept, double]
            rw [same, kept_of_words bare single]
          have nothing : (inQuotes false [] []).kept = 0 := rfl
          rcases kept_run_rough path false rfl plain within with behind | less
          · cases double.symm.trans behind
          · omega
    · exact absurd single (not_escaped_of_words within escaped)
  · intro plain
    have read : start.run ('"' :: (path ++ ['"'])) = some (inWord [] (path.map (·, true))) := by
      rw [opens, run_plain path false [] [] plain]
      simp [inQuotes, ShellReader.quoted, step, inWord]
    rw [commandWords_bare read rfl]
    simp [literals, inWord, ShellReader.words, ShellWord.hasBrackets_quoted, ShellWord.chars,
      Function.comp_def, hookWords]

def Readable (path : List Char) : Prop :=
  if ' ' ∈ path then isPlain false path = true else IsBare path

theorem commandWords_iff (absolute : path.head? = some '/')
    : commandWords (commandOf path) = some (hookWords path) ↔ Readable path := by
  unfold commandOf Readable
  split
  · exact quotedWords_iff path
  · exact bareWords_iff absolute

-- Paths

theorem AbsolutePath.head_text (path : AbsolutePath) : path.text.head? = some '/' := by
  obtain ⟨rest, whole⟩ := List.head?_eq_some_iff.mp path.absolute
  have begins : path.bytes = String.utf8EncodeChar '/' ++ rest := whole
  rw [AbsolutePath.text, begins, lossy_encodeChar]
  rfl

/-- Commands of texts that begin with a slash are apart. -/
theorem commandOf_injective {one two : List Char} (oneAbsolute : one.head? = some '/')
    (twoAbsolute : two.head? = some '/') (same : commandOf one = commandOf two)
    : one = two := by
  obtain ⟨restOne, rfl⟩ := List.head?_eq_some_iff.mp oneAbsolute
  obtain ⟨restTwo, rfl⟩ := List.head?_eq_some_iff.mp twoAbsolute
  unfold commandOf at same
  split at same <;> split at same
  · exact List.append_cancel_right (List.cons.inj same).2
  · cases (List.cons.inj same).1
  · cases (List.cons.inj same).1
  · exact List.append_cancel_right same

/-- The words of the command are the path, as bytes, and the arguments. -/
def Invokes (path : AbsolutePath) : Prop :=
  ∃ words, commandWords (makeCommandString path).toList = some words
    ∧ words.map encodeChars = [path.bytes, encodeChars hookWord, encodeChars claudeWord]

def Apart (path : AbsolutePath) : Prop :=
  ∀ other : AbsolutePath, other.bytes ≠ path.bytes →
    makeCommandString other ≠ makeCommandString path

/-- The path is UTF-8 without the replacement character, and the shell reads it as it stands. -/
def Commandable (path : AbsolutePath) : Prop :=
  ∃ text, path.bytes = encodeChars text ∧ replacement ∉ text ∧ Readable text

theorem encodeChars_injective : Function.Injective encodeChars := fun one two same => by
  rw [← lossy_encodeChars one, same, lossy_encodeChars]

theorem toList_makeCommandString (path : AbsolutePath)
    : (makeCommandString path).toList = commandOf path.text :=
  String.toList_ofList

/-- A command with the words of its path is that of a path of UTF-8 that is readable. -/
theorem Invokes.readable {path : AbsolutePath} (invokes : Invokes path)
    : path.bytes = encodeChars path.text ∧ Readable path.text := by
  obtain ⟨words, read, same⟩ := invokes
  obtain ⟨word, others, rfl, isPath, rest⟩ := List.map_eq_cons_iff.mp same
  have arguments : others = [hookWord, claudeWord] := by
    have mapped : others.map encodeChars = [hookWord, claudeWord].map encodeChars := rest
    exact encodeChars_injective.list_map mapped
  have text : path.text = word := by rw [AbsolutePath.text, ← isPath, lossy_encodeChars]
  rw [toList_makeCommandString, arguments, ← text] at read
  exact ⟨by rw [text, isPath], (commandWords_iff path.head_text).mp read⟩

/-- A readable path of UTF-8 is the first word of its command. -/
theorem invokes_of_readable {path : AbsolutePath} {text : List Char}
    (bytes : path.bytes = encodeChars text) (readable : Readable text)
    : Invokes path := by
  have isText : path.text = text := by rw [AbsolutePath.text, bytes, lossy_encodeChars]
  refine ⟨hookWords path.text, ?_, ?_⟩
  · rw [toList_makeCommandString]
    exact (commandWords_iff path.head_text).mpr (isText ▸ readable)
  · rw [isText, bytes]
    rfl

/-- A path of UTF-8 without a replacement character shares its command with no other. -/
theorem apart_of_encoded {path : AbsolutePath} {text : List Char}
    (bytes : path.bytes = encodeChars text) (none : replacement ∉ text)
    : Apart path := by
  intro other different same
  have commands : commandOf other.text = commandOf path.text := by
    rw [← toList_makeCommandString, ← toList_makeCommandString, same]
  have isText : path.text = text := by rw [AbsolutePath.text, bytes, lossy_encodeChars]
  have texts : other.text = text := by
    rw [commandOf_injective other.head_text path.head_text commands, isText]
  refine different ?_
  rw [bytes, ← texts]
  refine (encodeChars_lossy ?_).symm
  exact fun mem => none (texts ▸ mem)

/-- A path with a replacement character shares its command with one that is not UTF-8. -/
theorem not_apart_of_replacement {path : AbsolutePath} {text : List Char}
    (bytes : path.bytes = encodeChars text) (there : replacement ∈ text)
    : ¬Apart path := by
  intro apart
  obtain ⟨front, back, rfl⟩ := List.append_of_mem there
  have isText : path.text = front ++ replacement :: back := by
    rw [AbsolutePath.text, bytes, lossy_encodeChars]
  have parts : path.bytes
      = encodeChars front ++ String.utf8EncodeChar replacement ++ encodeChars back := by
    rw [bytes]
    simp [encodeChars]
  obtain ⟨first, begins⟩ : ∃ first, front = '/' :: first := by
    have head := path.head_text
    rw [isText] at head
    cases front with
    | nil => cases head
    | cons first rest => exact ⟨rest, by rw [Option.some.inj head]⟩
  let other : AbsolutePath := {
    bytes := encodeChars front ++ 0xFF :: encodeChars back
    absolute := by
      rw [begins]
      rfl
    unterminated := by
      intro mem
      refine path.unterminated ?_
      rw [parts]
      rcases List.mem_append.mp mem with inFront | inBack
      · exact List.mem_append_left _ (List.mem_append_left _ inFront)
      · rcases List.mem_cons.mp inBack with zero | inBack
        · cases zero
        · exact List.mem_append_right _ inBack
  }
  have otherText : other.text = front ++ replacement :: back := by
    rw [AbsolutePath.text, lossy_encodeChars_append, lossy_broken, lossy_encodeChars]
  refine apart other (fun same => ?_) ?_
  · rw [parts, List.append_assoc] at same
    have heads := List.append_cancel_left same
    cases (List.cons.inj heads).1
  · unfold makeCommandString
    rw [otherText, isText]

/-- The words of a command are its path and the arguments, and no other path has it, just when the
path is commandable.
-/
theorem invokes_and_apart_iff (path : AbsolutePath)
    : Invokes path ∧ Apart path ↔ Commandable path := by
  constructor
  · rintro ⟨invokes, apart⟩
    obtain ⟨bytes, readable⟩ := invokes.readable
    refine ⟨path.text, bytes, fun there => ?_, readable⟩
    exact not_apart_of_replacement bytes there apart
  · rintro ⟨text, bytes, none, readable⟩
    exact ⟨invokes_of_readable bytes readable, apart_of_encoded bytes none⟩

def dollarPath : AbsolutePath :=
  {
    bytes := encodeChars "/opt/$tools/sr".toList
    absolute := by decide +kernel
    unterminated := by decide +kernel
  }

/-- The shell takes a part of this path for a parameter: its command has not the words of the hook. -/
theorem dollarPath_expanded
    : makeCommandString dollarPath = "/opt/$tools/sr hook claude"
      ∧ commandWords "/opt/$tools/sr hook claude".toList = none
      ∧ ¬Invokes dollarPath := by
  have command : makeCommandString dollarPath = "/opt/$tools/sr hook claude" := by
    unfold makeCommandString AbsolutePath.text dollarPath
    rw [lossy_encodeChars]
    decide +kernel
  have unread : commandWords "/opt/$tools/sr hook claude".toList = none := by decide +kernel
  refine ⟨command, unread, ?_⟩
  rintro ⟨words, read, _⟩
  rw [command, unread] at read
  cases read

end SkillRanker.Installer
