import SkillRanker.Context.Cleaning
import SkillRanker.Context.SelectedHistory
import SkillRanker.Privacy.Receipts

/-! The rendering of a context to a payload and to the receipt of what it discloses. -/

namespace SkillRanker.Context

open SkillRanker.Library SkillRanker.Privacy
open SkillRanker.Config (ContextProfile)

-- Options and errors

structure DirtyPaths where
  paths : List (List Char)
  truncated : Bool
deriving DecidableEq

structure ProjectSignals where
  filenames : List String
  toolsOnPath : List String
  dirtyPaths : Option DirtyPaths
deriving DecidableEq

structure RenderContextOptions where
  noTools : Bool
  contextProfile : ContextProfile
  maxMessages : Nat
  maxTotalScalars : Nat
  toolExcerptChars : Nat
  redactor : Redactor
  projectSignals : Option ProjectSignals
  loadedReferences : List RenderedLoadedReference
  loadedState : List Char
  explicitExclusions : List (List Char)
  failOnUnsupportedContext : Bool
  essentialToolMissing : Bool
deriving DecidableEq

def RenderContextOptions.toolBodiesOmitted (options : RenderContextOptions) : Bool :=
  options.noTools || options.contextProfile = .minimal

inductive RenderContextError
  | redaction (error : RedactionError)
  | unsupportedContext (reason : String)
  | secretsDetected (count : Nat)
deriving DecidableEq

def RenderContextError.fromRedaction : RedactionError → RenderContextError
  | .secretsDetected count => .secretsDetected count
  | other => .redaction other

/-- A rendering may end with an error, and panics where the source does. -/
abbrev Rendering := Panicking RenderContextError

def isToolEvent (event : NormalizedEvent) : Bool :=
  event.kind = .toolInvocation || event.kind = .toolResult

def countsAsTool (event : NormalizedEvent) : Bool :=
  isToolEvent event || (event.kind = .message && event.role = .tool)

def countsAsMessage (event : NormalizedEvent) : Bool :=
  event.kind = .message && event.role ≠ .tool

variable (scanner : Scanner) (readObject : ObjectReader) (options : RenderContextOptions)

def redacted (text : List Char) : Rendering RedactedField :=
  returned ((options.redactor.redactField scanner text).mapError .fromRedaction)

/-- A text that panics where it cannot be cut. -/
def truncated (text : List Char) (maxChars : Nat) : Rendering (List Char) :=
  present (headTailTruncate text maxChars)

-- Labels

def toolLabelScalars : Nat := 128

def normalizedContextJsonBytes : Nat := 1024 * 1024

structure Labels where
  events : List NormalizedEvent
  bytes : Nat
  redactions : Nat
  truncations : Nat

def Labels.none : Labels where
  events := []
  bytes := 0
  redactions := 0
  truncations := 0

def labelledTool (event : NormalizedEvent) : Option ToolEvent :=
  if isToolEvent event then event.tool else .none

def prepareLabel (labels : Labels) (event : NormalizedEvent) : Rendering Labels :=
  match labelledTool event with
  | none => return { labels with events := labels.events ++ [event] }
  | some tool => do
      let bytes := labels.bytes + byteSize tool.name.toList
      returned
        (ensure (bytes ≤ normalizedContextJsonBytes)
          (.unsupportedContext "Tool labels exceed their input bound"))
      let label ← redacted scanner options (sanitizeMediaData scanner tool.name.toList)
      let name ← truncated label.text toolLabelScalars
      return {
        events :=
          labels.events ++ [{ event with tool := some { tool with name := String.ofList name } }]
        bytes := bytes
        redactions := labels.redactions + label.redactions
        truncations :=
          labels.truncations + if toolLabelScalars < label.text.length then 1 else 0
      }

/-- `labels::prepare` -/
def prepareLabels (events : List NormalizedEvent) : Rendering Labels :=
  if options.toolBodiesOmitted then return { Labels.none with events := events }
  else events.foldlM (prepareLabel scanner options) Labels.none

-- Session state

def sessionStateScalars : Nat := 4096

def sessionReferenceSummaryScalars : Nat := 700

def sessionReferenceRecords : Nat := 32

def discoveryFiles : Nat := 10000

def sessionTooLarge : RenderContextError :=
  .unsupportedContext "Session state exceeds its input bound"

def constraintsTooLarge : RenderContextError :=
  .unsupportedContext "Session constraints exceed the bounded context allowance"

def sessionFields : List (List Char) :=
  options.loadedState :: options.explicitExclusions
    ++ options.loadedReferences.flatMap fun reference => [reference.name, reference.summary]

def checkSessionInput : Except RenderContextError Unit := do
  ensure (options.loadedReferences.length + options.explicitExclusions.length ≤ discoveryFiles)
    sessionTooLarge
  ensure (((sessionFields options).map byteSize).sum ≤ normalizedContextJsonBytes) sessionTooLarge

/-- The scalars that are left, the exclusions and the references that are kept, and what was
changed.
-/
structure SessionDraft where
  remaining : Nat
  exclusions : List (List Char)
  references : List RenderedLoadedReference
  redactions : Nat
  truncations : Nat

def redactedSession (text : List Char) : Rendering RedactedField :=
  redacted scanner options (sanitizeMediaData scanner text)

def afterConstraint (remaining : Nat) (text : List Char) : Rendering Nat :=
  returned (require (checkedSub remaining text.length) constraintsTooLarge)

def addExclusion (draft : SessionDraft) (exclusion : List Char) : Rendering SessionDraft := do
  let field ← redactedSession scanner options exclusion
  let remaining ← afterConstraint draft.remaining field.text
  return { draft with
    remaining := remaining
    exclusions := draft.exclusions ++ [field.text]
    redactions := draft.redactions + field.redactions
  }

def addSummary (draft : SessionDraft) (name summary : List Char) : Rendering SessionDraft := do
  let field ← redactedSession scanner options summary
  let allowance := min (draft.remaining - name.length) sessionReferenceSummaryScalars
  let text ← truncated field.text allowance
  return { draft with
    remaining := draft.remaining - (name.length + text.length)
    references := draft.references ++ [{ name := name, summary := text }]
    redactions := draft.redactions + field.redactions
    truncations := draft.truncations + if allowance < field.text.length then 1 else 0
  }

/-- Adds a reference unless there is no place for it. A name is never cut. -/
def addReference (draft : SessionDraft) (reference : RenderedLoadedReference)
    : Rendering SessionDraft :=
  if draft.references.length = sessionReferenceRecords ∨ draft.remaining = 0 then return draft
  else do
    let name ← redactedSession scanner options reference.name
    let draft := { draft with redactions := draft.redactions + name.redactions }
    if name.text = [] ∨ draft.remaining < name.text.length then return draft
    else addSummary scanner options draft name.text reference.summary

/-- `session::prepare`: the options with the texts that may be sent, and their receipt. -/
def prepareSession : Rendering (RenderContextOptions × CategoryReceipt) := do
  returned (checkSessionInput options)
  let state ← redactedSession scanner options options.loadedState
  let remaining ← afterConstraint sessionStateScalars state.text
  let start : SessionDraft := {
    remaining := remaining
    exclusions := []
    references := []
    redactions := state.redactions
    truncations := 0
  }
  let constrained ← options.explicitExclusions.foldlM (addExclusion scanner options) start
  let draft ← options.loadedReferences.foldlM (addReference scanner options) constrained
  return (
    { options with
      loadedReferences := draft.references
      loadedState := state.text
      explicitExclusions := draft.exclusions
    },
    {
      category := .sessionState
      includedCount := draft.references.length + draft.exclusions.length
      omittedCount := options.loadedReferences.length - draft.references.length
      truncatedCount := draft.truncations
      redactionCount := draft.redactions
    }
  )

-- Candidates

def ToolStatus.text : ToolStatus → String
  | attempted => "attempted"
  | succeeded => "succeeded"
  | failed => "failed"
  | unknown => "unknown"

def Role.text : Role → String
  | user => "user"
  | assistant => "assistant"
  | tool => "tool"
  | system => "system"

/-- What an event is rendered to, and what was changed for it. -/
structure Candidate where
  message : Option RenderedMessage
  historyRedactions : Nat
  toolRedactions : Nat
  toolTruncations : Nat

/-- An event that is not rendered, with the redactions of its text. -/
def Candidate.dropped (historyRedactions : Nat) : Candidate where
  message := none
  historyRedactions := historyRedactions
  toolRedactions := 0
  toolTruncations := 0

structure SummaryPart where
  texts : List (List Char)
  redactions : Nat
  truncations : Nat

def SummaryPart.none : SummaryPart where
  texts := []
  redactions := 0
  truncations := 0

def summaryPart (text : List Char) (maxChars : Nat) (silent : List (List Char))
    : Rendering SummaryPart := do
  let field ← redacted scanner options text
  let summary ← truncated field.text maxChars
  return {
    texts := if summary ∈ silent then [] else [summary]
    redactions := field.redactions
    truncations := if maxChars < field.text.length then 1 else 0
  }

def argumentsPart (tool : ToolEvent) : Rendering SummaryPart :=
  match tool.arguments with
  | none => return .none
  | some arguments =>
      summaryPart scanner options (allowlistToolArguments readObject arguments.toList)
        (options.toolExcerptChars / 2) [[], "\x7b\x7d".toList]

def resultPart (tool : ToolEvent) : Rendering SummaryPart :=
  match tool.result with
  | none => return .none
  | some result =>
      summaryPart scanner options (sanitizeMediaData scanner result.toList)
        options.toolExcerptChars [[]]

def toolCandidate (tool : ToolEvent) : Rendering Candidate := do
  let arguments ← argumentsPart scanner readObject options tool
  let result ← resultPart scanner options tool
  let parts := arguments.texts ++ result.texts
  return {
    message :=
      some
        {
          role := "tool"
          tool := some tool.name.toList
          status := some (ToolStatus.text tool.status)
          summary := if parts = [] then none else some (": ".toList.intercalate parts)
          text := none
        }
    historyRedactions := 0
    toolRedactions := arguments.redactions + result.redactions
    toolTruncations := arguments.truncations + result.truncations
  }

/-- The text of a message without what the model thought and what the program advised. -/
def cleanedText (event : NormalizedEvent) : List Char :=
  if event.role = .user then event.text.toList
  else stripAdvisoryFromNonUser event.role (stripThinkingBlocks scanner event.text.toList)

def textCandidate (event : NormalizedEvent) : Rendering Candidate :=
  let mediaClean := sanitizeMediaData scanner (cleanedText scanner event)
  if mediaClean = [] then return .dropped 0
  else do
    let field ← redacted scanner options mediaClean
    if field.text = [] then return .dropped field.redactions
    else
      return {
        message :=
          some
            {
              role := Role.text event.role
              tool := none
              status := none
              summary := none
              text := some field.text
            }
        historyRedactions := field.redactions
        toolRedactions := 0
        toolTruncations := 0
      }

def candidateOf (event : NormalizedEvent) : Rendering Candidate :=
  match event.kind with
  | .toolInvocation | .toolResult =>
      match event.tool with
      | some tool =>
          if options.noTools then return .dropped 0 else toolCandidate scanner readObject options tool
      | none => return .dropped 0
  | .message =>
      if event.role = .tool ∧ options.noTools = true then return .dropped 0
      else textCandidate scanner options event
  | .taskBoundary | .compaction | .resume | .sessionEnd => return .dropped 0

-- The budget

/-- The messages within a budget, and whether some were cut. -/
structure Filled where
  messages : List RenderedMessage
  cut : Bool
  historyTruncations : Nat
  toolTruncations : Nat

def Filled.stopped : Filled where
  messages := []
  cut := true
  historyTruncations := 0
  toolTruncations := 0

def fillCut (budget : Nat) (message : RenderedMessage) : Rendering Filled :=
  if budget < message.overhead + 30 then return .stopped
  else
    match message.text, message.summary with
    | some text, _ => do
        let text ← truncated text (budget - message.overhead)
        return { Filled.stopped with
          messages := [{ message with text := some text }]
          historyTruncations := 1
        }
    | none, some summary => do
        let summary ← truncated summary (budget - message.overhead)
        return { Filled.stopped with
          messages := [{ message with summary := some summary }]
          toolTruncations := 1
        }
    | none, none => return .stopped

def fill : Nat → List RenderedMessage → Rendering Filled
  | _, [] => return { Filled.stopped with cut := false }
  | budget, message :: older =>
      if message.scalars ≤ budget then do
        let filled ← fill (budget - message.scalars) older
        return { filled with messages := filled.messages ++ [message] }
      else fillCut budget message

-- Project signals

def languageOf (filename : String) : Option String :=
  if filename = "Cargo.toml" then some "rust"
  else if filename ∈ ["lakefile.lean", "lakefile.toml"] then some "lean"
  else if filename = "go.mod" then some "go"
  else if filename = "package.json" then some "javascript"
  else if filename = "pyproject.toml" then some "python"
  else if filename = "Makefile" then some "make"
  else if filename = "CMakeLists.txt" then some "cmake"
  else if filename = "Gemfile" then some "ruby"
  else if filename ∈ ["pom.xml", "build.gradle", "build.gradle.kts"] then some "java"
  else none

def detectLanguagesFromMarkers (filenames : List String) : List String :=
  (filenames.filterMap languageOf).dedup.insertionSort (· ≤ ·)

structure SignalsDraft where
  signals : RenderedProjectSignals
  redactions : Nat
  omittedDirtyPaths : Nat

/-- The paths that are sent, whether there were more, and what was changed for them. -/
def renderedDirtyPaths (dirtyPaths : Option DirtyPaths)
    : Rendering (List (List Char) × Bool × Nat × Nat) :=
  match dirtyPaths with
  | none => return ([], false, 0, 0)
  | some dirty =>
      if options.contextProfile = .minimal then return ([], false, 0, dirty.paths.length)
      else do
        let fields ← dirty.paths.mapM (redacted scanner options)
        return (fields.map RedactedField.text, dirty.truncated,
          (fields.map RedactedField.redactions).sum, 0)

def renderedSignals : Rendering SignalsDraft :=
  match options.projectSignals with
  | none =>
      return {
        signals := {
          languages := []
          toolsOnPath := []
          dirtyPaths := []
          dirtyPathsTruncated := false
        }
        redactions := 0
        omittedDirtyPaths := 0
      }
  | some signals => do
      let (dirtyPaths, dirtyPathsTruncated, redactions, omitted) ←
        renderedDirtyPaths scanner options signals.dirtyPaths
      return {
        signals := {
          languages := detectLanguagesFromMarkers signals.filenames
          toolsOnPath := signals.toolsOnPath
          dirtyPaths := dirtyPaths
          dirtyPathsTruncated := dirtyPathsTruncated
        }
        redactions := redactions
        omittedDirtyPaths := omitted
      }

end SkillRanker.Context
