import SkillRanker.Config.Values
import SkillRanker.Privacy.Redaction

/-! The payload that a context is rendered to. -/

namespace SkillRanker.Context

open SkillRanker.Library SkillRanker.Privacy
open SkillRanker.Config (ContextProfile)

inductive ContextQuality
  | complete
  | promptOnly
  | partly
  | insufficient
deriving DecidableEq, Repr

def ContextQuality.text : ContextQuality → String
  | complete => "complete"
  | promptOnly => "prompt_only"
  | partly => "partial"
  | insufficient => "insufficient"

def profileText : ContextProfile → String
  | .minimal => "minimal"
  | .standard => "standard"

structure RenderedLoadedReference where
  name : List Char
  summary : List Char
deriving DecidableEq

structure RenderedProjectSignals where
  languages : List String
  toolsOnPath : List String
  dirtyPaths : List (List Char)
  dirtyPathsTruncated : Bool
deriving DecidableEq

structure RenderedSessionState where
  loadedReferences : List RenderedLoadedReference
  loadedState : List Char
  explicitExclusions : List (List Char)
deriving DecidableEq

structure RenderedMessage where
  role : String
  tool : Option (List Char)
  status : Option String
  summary : Option (List Char)
  text : Option (List Char)
deriving DecidableEq

structure RenderedContextPayload where
  schemaVersion : Nat
  contextProfile : ContextProfile
  harness : String
  contextQuality : ContextQuality
  projectSignals : RenderedProjectSignals
  sessionState : RenderedSessionState
  recentMessages : List RenderedMessage
  latestUserRequest : List Char
deriving DecidableEq

-- Sizes

namespace RenderedMessage

variable (message : RenderedMessage)

/-- The scalars that a truncation leaves: the label of the tool and its status. -/
def overhead : Nat :=
  (message.tool.elim 0 List.length) + (message.status.elim 0 String.length)

def scalars : Nat :=
  (message.text.elim 0 List.length) + (message.summary.elim 0 List.length) + message.overhead

def isTool : Bool := message.role = "tool"

end RenderedMessage

def RenderedSessionState.scalars (state : RenderedSessionState) : Nat :=
  state.loadedState.length + (state.explicitExclusions.map List.length).sum
    + (state.loadedReferences.map fun reference =>
        reference.name.length + reference.summary.length).sum

-- Documents

def textJson (text : List Char) : Json := .string (String.ofList text)

def optionalMember (key : String) (value : Option Json) : List (String × Json) :=
  (value.map fun value => (key, value)).toList

def RenderedLoadedReference.toJson (reference : RenderedLoadedReference) : Json :=
  .object [("name", textJson reference.name), ("summary", textJson reference.summary)]

def RenderedProjectSignals.toJson (signals : RenderedProjectSignals) : Json :=
  .object
    [
      ("languages", .array (signals.languages.map .string)),
      ("tools_on_path", .array (signals.toolsOnPath.map .string)),
      ("dirty_paths", .array (signals.dirtyPaths.map textJson)),
      ("dirty_paths_truncated", .bool signals.dirtyPathsTruncated)
    ]

def RenderedSessionState.toJson (state : RenderedSessionState) : Json :=
  .object
    [
      ("loaded_references", .array (state.loadedReferences.map RenderedLoadedReference.toJson)),
      ("loaded_state", textJson state.loadedState),
      ("explicit_exclusions", .array (state.explicitExclusions.map textJson))
    ]

def RenderedMessage.toJson (message : RenderedMessage) : Json :=
  .object
    (("role", .string message.role) :: optionalMember "tool" (message.tool.map textJson)
      ++ optionalMember "status" (message.status.map .string)
      ++ optionalMember "summary" (message.summary.map textJson)
      ++ optionalMember "text" (message.text.map textJson))

namespace RenderedContextPayload

variable (payload : RenderedContextPayload)

def toJson : Json :=
  .object
    [
      ("schema_version", .number payload.schemaVersion),
      ("context_profile", .string (profileText payload.contextProfile)),
      ("harness", .string payload.harness),
      ("context_quality", .string payload.contextQuality.text),
      ("project_signals", payload.projectSignals.toJson),
      ("session_state", payload.sessionState.toJson),
      ("recent_messages", .array (payload.recentMessages.map RenderedMessage.toJson)),
      ("latest_user_request", textJson payload.latestUserRequest)
    ]

def serialized : List Char := payload.toJson.write

def disclosedBytes : Nat := byteSize payload.serialized

def totalMessageScalars : Nat :=
  payload.latestUserRequest.length + (payload.recentMessages.map RenderedMessage.scalars).sum

end RenderedContextPayload

end SkillRanker.Context
