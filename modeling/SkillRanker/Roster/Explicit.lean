import SkillRanker.Roster.Resolution

/-! Explicit skill requirements: targets named by the context, the command line and the prompt
are resolved together against the roster, before anything is ranked.
-/

namespace SkillRanker.Roster

open SkillRanker.Library
open Std

def hookStdinBytes : Nat := 1024 * 1024

def maxExplicitRequests : Nat := 32

inductive DirectiveKind
  | require
  | exclude
deriving DecidableEq

structure ParsedDirective where
  target : String
  kind : DirectiveKind
deriving DecidableEq

inductive UnresolvedReason
  | missing
  | ambiguous
  | shadowed
  | unverified
  | forbidden
  | conflictingDirective
  | invalidName
deriving DecidableEq

structure UnresolvedRecord where
  target : String
  reason : UnresolvedReason
  diagnostic : String
deriving DecidableEq

structure ResolvedExplicitSkill where
  id : SkillId
  invocation : InvocationName
  kind : InvocationKind
  manualOnly : Bool
deriving DecidableEq

structure ExplicitResolutionRequest where
  cliRequiredSkills : List String
  cliExcludedSkills : List String
  contextSkillReferences : List SkillId
  contextExcludedSkills : List SkillId
  userPrompt : Option String

inductive ExplicitResolutionResult
  | resolved (skills : List ResolvedExplicitSkill) (excludedSkills : List SkillId)
  | noneSpecified (excludedSkills : List SkillId)
  | unavailable (unresolved : List UnresolvedRecord)
deriving DecidableEq

inductive ExplicitResolutionError
  | tooManyExplicitReferences (count limit : Nat)
  | oversizedInput (bytes limit : Nat)
deriving DecidableEq

-- Targets

section Targets

-- `parse_prompt_directives`
variable (parsePromptDirectives : String → List ParsedDirective)

namespace ExplicitResolutionRequest

variable (request : ExplicitResolutionRequest)

def prompted (kind : DirectiveKind) : List String :=
  ((request.userPrompt.map parsePromptDirectives).getD []).filterMap
    (fun directive => if directive.kind = kind then some directive.target else none)

def positiveTargets : List String :=
  (request.contextSkillReferences
    ++ request.cliRequiredSkills
    ++ request.prompted parsePromptDirectives .require).eraseDups

def negativeTargets : List String :=
  request.contextExcludedSkills
  ++ request.cliExcludedSkills
  ++ request.prompted parsePromptDirectives .exclude

def withinInput : Prop := ∀ prompt ∈ request.userPrompt, prompt.utf8ByteSize ≤ hookStdinBytes

end ExplicitResolutionRequest

end Targets

-- Exclusions

def Binding.named (binding : Binding) (targets : List String) : Bool :=
  binding.id ∈ targets || binding.invocation.text ∈ targets

/-- Every binding of a skill that a target names, and the other targets that may be ids. -/
def resolveExclusions (targets : List String) (roster : ResolvedRoster) : List SkillId :=
  let matched := roster.skills.filter (fun skill => skill.bindings.any (·.named targets))
  let excluded := matched.flatMap (fun skill => skill.bindings.map Binding.id)
  let unmatched :=
    targets.filter
      (fun target => !roster.skills.any (fun skill => skill.bindings.any (·.named [target])))
  let unknown := unmatched.filter (fun target => validateId target = .ok ())
  (TreeSet.ofList (excluded ++ unknown) compare).toList

-- Resolution

/-- A target is read as an id first, where it can be one, and else as a name. -/
def resolveTarget (roster : ResolvedRoster) (target : String) : ExactResolution :=
  match validateId target with
  | .ok _ =>
      match roster.exactId target with
      | .missing => roster.exactName target
      | other => other
  | .error _ => roster.exactName target

/-- The skill that a target resolves to, or why it does not. -/
def judge (roster : ResolvedRoster) (exclusions : List SkillId) (target : String)
    : Except UnresolvedRecord ResolvedExplicitSkill :=
  let refused (reason : UnresolvedReason) (diagnostic : String) :=
    .error { target := target, reason := reason, diagnostic := diagnostic }
  match resolveTarget roster target with
  | .resolved id invocation kind =>
      if id ∈ exclusions then
        refused .conflictingDirective
          ("skill '" ++ target ++ "' (" ++ id ++ ") conflicts with an explicit exclusion")
      else
        .ok
          {
            id := id
            invocation := invocation
            kind := kind
            manualOnly := kind = .manualOnly
          }
  | .missing => refused .missing ("skill '" ++ target ++ "' not found in visible roster")
  | .ambiguous =>
      refused .ambiguous ("skill '" ++ target ++ "' has ambiguous visibility across sources")
  | .shadowed =>
      refused .shadowed ("skill '" ++ target ++ "' is shadowed by a higher-priority root")
  | .unverified =>
      refused .unverified ("skill '" ++ target ++ "' has unverified harness visibility")
  | .forbidden =>
      refused .forbidden ("skill '" ++ target ++ "' is forbidden by invocation restrictions")

/-- A target that is required and excluded in one spelling. -/
def conflicting (target : String) : UnresolvedRecord :=
  {
    target := target
    reason := .conflictingDirective
    diagnostic :=
      "conflicting positive and negative directives for skill '" ++ target ++ "'"
  }

def resolveExplicitRequirements (parsePromptDirectives : String → List ParsedDirective)
    (request : ExplicitResolutionRequest) (roster : ResolvedRoster)
    : Except ExplicitResolutionError ExplicitResolutionResult := do
  let bytes := (request.userPrompt.map String.utf8ByteSize).getD 0
  ensure (bytes ≤ hookStdinBytes) (.oversizedInput bytes hookStdinBytes)
  let positive := request.positiveTargets parsePromptDirectives
  let negative := request.negativeTargets parsePromptDirectives
  ensure (positive.length ≤ maxExplicitRequests)
    (.tooManyExplicitReferences positive.length maxExplicitRequests)
  let conflicts := positive.filter (· ∈ negative)
  if conflicts ≠ [] then return .unavailable (conflicts.map conflicting)
  let exclusions := resolveExclusions negative roster
  if positive = [] then return .noneSpecified exclusions
  let verdicts := positive.map (judge roster exclusions)
  let unresolved := verdicts.filterMap errorOf
  if unresolved ≠ [] then return .unavailable unresolved
  return .resolved (verdicts.filterMap Except.toOption) exclusions

end SkillRanker.Roster
