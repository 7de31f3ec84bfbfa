import SkillRanker.Identity

/-! Normalized events, and what the resolution of a branch says of them. -/

namespace SkillRanker.Context

inductive Role
  | user
  | assistant
  | tool
  | system
deriving DecidableEq, Repr

inductive EventKind
  | message
  | toolInvocation
  | toolResult
  | taskBoundary
  | compaction
  | resume
  | sessionEnd
deriving DecidableEq, Repr

inductive ToolStatus
  | attempted
  | succeeded
  | failed
  | unknown
deriving DecidableEq, Repr

abbrev ToolCallId := Identifier
abbrev TurnId := Identifier

structure ToolEvent where
  callId : Option ToolCallId
  name : String
  status : ToolStatus
  arguments : Option String
  result : Option String
deriving DecidableEq

structure NormalizedEvent where
  eventId : Option EventId
  parentId : Option EventId
  turnId : Option TurnId
  agentId : Option AgentId
  branchId : Option BranchId
  role : Role
  kind : EventKind
  timestampUnixMs : Option Int
  text : String
  tool : Option ToolEvent
deriving DecidableEq

structure BranchResolutionTarget where
  targetEventId : Option EventId
  targetBranchId : Option BranchId
  targetAgentId : Option AgentId
deriving DecidableEq

structure ActiveBranch where
  branchId : Option BranchId
  leafEventId : Option EventId
  events : List NormalizedEvent
  currentEpoch : ContextEpoch
  compactionCount : Nat
  taskBoundaryCount : Nat
  ancestorChainTruncated : Bool
deriving DecidableEq

namespace ActiveBranch

def eventIdSet (branch : ActiveBranch) : List EventId := branch.events.filterMap (·.eventId)

end ActiveBranch

inductive UnresolvedBranchReason
  | emptyHistory
  | noMatchingEvents
  | ambiguousEventIdentity (event : EventId)
  | conflictingEventDefinitions (event : EventId)
  | ambiguousSiblingForks (candidateLeaves : List EventId)
  | targetEventNotFound (target : EventId)
  | cycleDetected (atEvent : EventId)
  | conflictingBranchIdentities (expected observed : BranchId)
deriving DecidableEq

inductive BranchResolution
  | resolved (branch : ActiveBranch)
  | unresolved (reason : UnresolvedBranchReason)
deriving DecidableEq

def epochName (index : Nat) : ContextEpoch :=
  match Identifier.new ("epoch-" ++ toString index) with
  | .ok epoch => epoch
  | .error _ => { text := "epoch-0", valid := by decide +kernel }

theorem epochName_text {index : Nat} (word : index < 2 ^ 64)
    : (epochName index).text = "epoch-" ++ toString index := by
  have valid : validateId ("epoch-" ++ toString index) = .ok () := by
    have size := utf8ByteSize_toString_le word
    have label : "epoch-".utf8ByteSize = 6 := by decide
    refine validateId_eq_ok.mpr ⟨?_, ?_, ?_⟩
    · rw [String.isEmpty_eq_false_iff]
      intro none
      have bytes := congrArg String.utf8ByteSize none
      rw [String.utf8ByteSize_append, label] at bytes
      simp at bytes
    · rw [String.utf8ByteSize_append, label]
      unfold maxIdBytes
      omega
    · have allowed : "epoch-".toList.any forbiddenIdentityCharacter = false := by decide
      rw [String.toList_append, List.any_append, allowed, Bool.false_or, Nat.toString_eq_repr,
        Nat.toList_repr, List.any_eq_false]
      intro char mem
      have digit := Nat.isDigit_of_mem_toDigits (by decide) (by decide) mem
      exact Bool.eq_false_iff.mp (forbiddenIdentityCharacter_of_isDigit digit)
  unfold epochName
  rw [Identifier.new_eq_ok valid]

end SkillRanker.Context
