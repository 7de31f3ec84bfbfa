import SkillRanker.Context.Events
import SkillRanker.Library.Lines
import SkillRanker.Privacy.Excerpts

/-! The cleaning of texts before they are sent, and the truncation of one to its ends. -/

namespace SkillRanker.Context

open SkillRanker.Library SkillRanker.Privacy

section

/-- The note that stands for what was cut out, with a number as it is written. -/
def omissionNote (count : List Char) : List Char :=
  " ... [".toList ++ count ++ " chars omitted] ... ".toList

def noteLength (text : List Char) : Nat :=
  (omissionNote (List.replicate ((decimal 0 text.length).length + 1) '0')).length

def ellipsized (text : List Char) (maxChars : Nat) : Option (List Char) :=
  match maxChars with
  | 0 => some []
  | kept + 1 => do
      let stop ← redactedHeadEnd text kept kept
      let head := text.take stop
      if ¬ redactionMarker.isSuffixOf head then some (head ++ ['…'])
      else if head.length + 2 ≤ kept + 1 then some (head ++ [' ', '…'])
      else do
        let stop ← redactedHeadEnd text (stop - 1) (stop - 1)
        some (text.take stop ++ ['…'])

/-- A text with a note in place of what is cut out. -/
def withNote (text : List Char) (cut : Cut) : List Char :=
  text.take cut.headEnd ++ omissionNote (decimal 0 (cut.tailStart - cut.headEnd))
    ++ text.drop cut.tailStart

/-- `head_tail_truncate`, or none where the source panics on a place within a character. -/
def headTailTruncate (text : List Char) (maxChars : Nat) : Option (List Char) :=
  if text.length ≤ maxChars then some text
  else if maxChars ≤ noteLength text then ellipsized text maxChars
  else
    let budget := maxChars - noteLength text
    (cutAround text (budget / 2) budget).map (withNote text)

theorem length_omissionNote (count : List Char)
    : (omissionNote count).length = count.length + 26 := by
  unfold omissionNote
  rw [List.length_append, List.length_append]
  have opening : " ... [".toList.length = 6 := by decide
  have closing : " chars omitted] ... ".toList.length = 20 := by decide
  omega

variable {text : List Char}

/-- The note of what is cut out of a text is not longer than its place. -/
theorem length_omissionNote_le {omitted : Nat} (within : omitted ≤ text.length)
    : (omissionNote (decimal 0 omitted)).length ≤ noteLength text := by
  unfold noteLength
  rw [length_omissionNote, length_omissionNote, List.length_replicate]
  have digits := length_decimal_mono within
  omega

theorem length_withNote_le {cut : Cut} {budget : Nat}
    (fits : cut.headEnd + (text.length - cut.tailStart) ≤ budget)
    (within : cut.tailStart ≤ text.length)
    : (withNote text cut).length ≤ budget + noteLength text := by
  have note : (omissionNote (decimal 0 (cut.tailStart - cut.headEnd))).length ≤ noteLength text :=
    length_omissionNote_le (by omega)
  have head := List.length_take_le cut.headEnd text
  unfold withNote
  rw [List.length_append, List.length_append, List.length_drop]
  omega

theorem length_ellipsized_le {result : List Char} {maxChars : Nat}
    (cut : ellipsized text maxChars = some result)
    : result.length ≤ maxChars := by
  cases maxChars with
  | zero =>
      cases cut
      exact le_rfl
  | succ kept =>
      obtain ⟨stop, ends, cut⟩ := Option.bind_eq_some_iff.mp cut
      have limit := redactedHeadEnd_le le_rfl ends
      have head := List.length_take_le stop text
      dsimp only at cut
      split at cut
      · cases cut
        rw [List.length_append, List.length_singleton]
        omega
      · split at cut
        next room =>
            cases cut
            rw [List.length_append]
            exact room
        · obtain ⟨earlier, ends, cut⟩ := Option.bind_eq_some_iff.mp cut
          have before := redactedHeadEnd_le le_rfl ends
          have head := List.length_take_le earlier text
          cases cut
          rw [List.length_append, List.length_singleton]
          omega

theorem length_headTailTruncate_le {result : List Char} {maxChars : Nat}
    (cut : headTailTruncate text maxChars = some result)
    : result.length ≤ maxChars := by
  unfold headTailTruncate at cut
  split at cut
  next fits =>
      cases cut
      exact fits
  next long =>
      split at cut
      · exact length_ellipsized_le cut
      next room =>
          obtain ⟨place, found, rfl⟩ := Option.map_eq_some_iff.mp cut
          obtain ⟨fits, within⟩ := cutAround_fits (by omega) (by omega) found
          have length := length_withNote_le fits within
          omega

end

-- The cleaning of texts before they are redacted and sent

open Regex

-- Thinking blocks and media

def imageOmissionMarker : List Char := "[image omitted]".toList

def mediaOmissionMarker : List Char := "[media omitted]".toList

def anyChar : Regex := one fun _ => true

def thinkingTag : Regex :=
  firstOf
    [
      inOrder [literal "<thinking>", many false anyChar, literal "</thinking>"],
      inOrder [literal "<thought>", many false anyChar, literal "</thought>"],
      inOrder [literal "```thinking", spaces, many false anyChar, literal "```"]
    ]

def unterminatedThinkingTag : Regex :=
  firstOf
    [
      inOrder [literal "<thinking>", many true anyChar, textEnd],
      inOrder [literal "<thought>", many true anyChar, textEnd]
    ]

def dataAddress (media : String) : Regex :=
  inOrder
    [
      literal "data:", literal media, literal "/", plus (one (isAlphanumericOr ".+/-")),
      literal ";base64,", plus (one (isAlphanumericOr "+/="))
    ]

/-- `str::trim` -/
def trimmed (text : List Char) : List Char := trimMatches isWhitespace text

variable (scanner : Scanner)

def stripThinkingBlocks (text : List Char) : List Char :=
  let stripped := replaceAll scanner.isWord thinkingTag text []
  trimmed (replaceAll scanner.isWord unterminatedThinkingTag stripped [])

def sanitizeMediaData (text : List Char) : List Char :=
  let replaced := replaceAll scanner.isWord (dataAddress "image") text imageOmissionMarker
  replaceAll scanner.isWord (dataAddress "application") replaced mediaOmissionMarker

-- Advisories

def advisoryMarkers : List String :=
  [
    "Suggested skill for the next step:",
    "Use it only if it fits the user's request and current instructions.",
    "[SkillRanker]",
    "[sr] Suggested skill:",
    "<!-- skillranker:advisory -->",
    "SkillRanker suggestion:"
  ]

def contains (text : List Char) (wanted : String) : Bool := (findText wanted.toList text).isSome

/-- `str::lines` -/
def textLines (text : List Char) : List (List Char) :=
  let (complete, left) := lines '\n' text
  complete.map (fun line => (stripLast '\r' line).getD line) ++ if left = [] then [] else [left]

def keptLines : Bool → List (List Char) → List (List Char)
  | _, [] => []
  | skipping, line :: rest =>
      if advisoryMarkers.any (contains line) then
        keptLines (skipping || contains line "Suggested skill for the next step:") rest
      else if skipping then
        if contains line "Use it only if it fits the user's request" then keptLines false rest
        else if (trimmed line).isEmpty then keptLines true rest
        else line :: keptLines false rest
      else line :: keptLines false rest

def stripAdvisoryFromNonUser (role : Role) (text : List Char) : List Char :=
  if role = .user then text
  else trimmed (['\n'].intercalate (keptLines false (textLines text)))

-- Tools

def allowlistedToolArgumentKeys : List String :=
  [
    "command", "path", "file_path", "query", "skill", "skill_name", "name", "pattern", "target",
    "args", "subcommand"
  ]

/-- What is taken from the reading of JSON objects: the keys in their order, each with its value as
it is written again.
-/
abbrev ObjectReader := List Char → Option (List (String × List Char))

def writtenMember (key : String) (value : List Char) : List Char :=
  quotedText key.toList ++ ':' :: value

def allowlistToolArguments (readObject : ObjectReader) (rawArgs : List Char) : List Char :=
  match readObject rawArgs with
  | none => rawArgs
  | some members =>
      let kept := members.map fun (key, value) =>
        if key ∈ allowlistedToolArgumentKeys then writtenMember key value
        else writtenMember key (quotedText "<omitted>".toList)
      '\x7b' :: [','].intercalate kept ++ ['\x7d']

def lowered (char : Char) : List Char :=
  if char = '\u212a' then ['k']
  else if char = '\u0130' then ['i', '\u0307']
  else [char.toLower]

def essentialToolPhrases : List String :=
  [
    "tool output", "tool result", "tool error", "command output", "command error",
    "command failed", "why did it fail", "why did the command fail", "why did the test fail",
    "fix the test failure", "fix the error above", "fix the failure", "see the error above",
    "output from the tool", "result of the tool", "the error above", "the output above"
  ]

def isEssentialToolReference (text : List Char) : Bool :=
  essentialToolPhrases.any (contains (text.flatMap lowered))

end SkillRanker.Context
