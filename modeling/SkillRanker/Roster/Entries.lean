import SkillRanker.Identity
import SkillRanker.Jev.Deadline

/-! Skill entries: bindings with their visibility and permissions, built from the bytes that
were read.
-/

namespace SkillRanker.Roster

open SkillRanker.Library

inductive ResolutionError
  | invalidBinding
  | duplicateId
  | changedFile
  | unsupportedLayout
  | read
  | oversized
  | metadata
  | limit
  | cancelled
  | deadline
  | ineligibleOption
  | duplicateOption
  | unknownOption
deriving DecidableEq, Repr

abbrev SkillId := String

/-- The source of an entry, by its text. -/
abbrev SourceId := String

/-- The digest of the bytes of a file, by its text. -/
abbrev ContentHash := String

abbrev Path := List UInt8

inductive Visibility
  | verified (contractVersion : String)
  | shadowed (winner : SkillId)
  | ambiguous
  | unverified
deriving DecidableEq, Repr

def Visibility.isVerified : Visibility → Bool
  | .verified _ => true
  | _ => false

structure InvocationRestrictions where
  agentInvocable : Bool
  userInvocable : Bool
deriving DecidableEq, Repr

inductive InvocationKind
  | agent
  | manualOnly
  | forbidden
deriving DecidableEq, Repr

namespace InvocationRestrictions

def explicitKind (restrictions : InvocationRestrictions) : InvocationKind :=
  if restrictions.agentInvocable then .agent
  else if restrictions.userInvocable then .manualOnly
  else .forbidden

def free : InvocationRestrictions := { agentInvocable := true, userInvocable := true }

def meet (left right : InvocationRestrictions) : InvocationRestrictions :=
  {
    agentInvocable := left.agentInvocable && right.agentInvocable
    userInvocable := left.userInvocable && right.userInvocable
  }

/-- `left` allows nothing that `right` does not. -/
def Within (left right : InvocationRestrictions) : Prop :=
  (left.agentInvocable = true → right.agentInvocable = true)
  ∧ (left.userInvocable = true → right.userInvocable = true)

end InvocationRestrictions

structure FileIdentity where
  device : UInt64
  inode : UInt64
deriving DecidableEq, Repr

structure BoundedRead where
  bytes : List UInt8
  contentHash : ContentHash
  identity : FileIdentity
  path : Path
deriving DecidableEq

def BoundedRead.len (read : BoundedRead) : Nat := read.bytes.length

inductive UsageKind
  | reference
  | workflow
  | unknown
deriving DecidableEq, Repr

/-- What the front matter of a skill says about invocation and use. -/
structure ParsedSkillMetadata where
  agentInvocable : Bool
  userInvocable : Bool
  usageKind : UsageKind
  forkedContext : Bool
  dynamicContent : Bool
deriving DecidableEq

structure BindingSpec where
  source : SourceId
  logicalKey : LogicalSkillKey
  invocation : InvocationName
  priority : Option Int
  visibility : Visibility
  restrictions : InvocationRestrictions
deriving DecidableEq

structure Binding where
  id : SkillId
  source : SourceId
  invocation : InvocationName
  visibility : Visibility
  restrictions : InvocationRestrictions
  priority : Option Int
deriving DecidableEq

structure SkillAlias where
  source : SourceId
  invocation : InvocationName
deriving DecidableEq

structure SkillRecord where
  id : SkillId
  source : SourceId
  sourcePriority : Int
  invocationName : InvocationName
  target : Path
  sourceContent : ContentHash
  renderedContent : Option ContentHash
  visibility : Visibility
  restrictions : InvocationRestrictions
  usageKind : UsageKind
  forkedContext : Bool
  dynamicContent : Bool
  aliases : List SkillAlias
deriving DecidableEq

structure SkillEntry where
  record : SkillRecord
  binding : Binding
  identity : FileIdentity
  bytes : Nat
deriving DecidableEq

def Visibility.asserted : Visibility → Bool
  | .verified contractVersion =>
      !contractVersion.isEmpty && contractVersion.utf8ByteSize ≤ 512
  | .unverified => true
  | _ => false

section FromRead

-- the parser of skill files, and the digest that makes ids of sources and keys
variable (parseSkillMetadata : List UInt8 → Option ParsedSkillMetadata)
  (fromSource : SourceId → LogicalSkillKey → SkillId)

/-- `SkillEntry::from_read`. -/
def SkillEntry.fromRead (spec : BindingSpec) (read : BoundedRead)
    : Except ResolutionError SkillEntry := do
  ensure spec.visibility.asserted .invalidBinding
  let metadata ← require (parseSkillMetadata read.bytes) .metadata
  let id := fromSource spec.source spec.logicalKey
  let restrictions : InvocationRestrictions :=
    {
      agentInvocable := spec.restrictions.agentInvocable && metadata.agentInvocable
      userInvocable := spec.restrictions.userInvocable && metadata.userInvocable
    }
  return {
    record :=
      {
        id := id
        source := spec.source
        sourcePriority := spec.priority.getD 0
        invocationName := spec.invocation
        target := read.path
        sourceContent := read.contentHash
        renderedContent := none
        visibility := spec.visibility
        restrictions := restrictions
        usageKind := metadata.usageKind
        forkedContext := metadata.forkedContext
        dynamicContent := metadata.dynamicContent
        aliases := []
      }
    binding :=
      {
        id := id
        source := spec.source
        invocation := spec.invocation
        visibility := spec.visibility
        restrictions := restrictions
        priority := spec.priority
      }
    identity := read.identity
    bytes := read.len
  }

end FromRead

structure Checkpoint where
  cancelled : Bool
  now : Nat
deriving DecidableEq

/-- The checkpoint of a resolution: neither cancelled nor out of time. -/
def budget (clock : Jev.InvocationDeadline) (checkpoint : Checkpoint)
    : Except ResolutionError Unit :=
  if checkpoint.cancelled then .error .cancelled
  else
    match clock.admitNewWork checkpoint.now with
    | .ok _ => .ok ()
    | .error _ => .error .deadline

def discoveryFiles : Nat := 10000

def discoveryParsedBytes : Nat := 32 * 1024 * 1024

def skillFileBytes : Nat := 256 * 1024

end SkillRanker.Roster
