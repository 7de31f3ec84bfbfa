import Mathlib.Data.Rat.Defs
import SkillRanker.Identity
import SkillRanker.Library.Table

/-! The records of the ledger, and the checks that its tables make of a row. -/

namespace SkillRanker.Storage
open SkillRanker.Library

def hasLength (text : String) : Bool := text.toList.head?.any (· ≠ '\x00')

def fitsColumn (value : Nat) : Bool := value ≤ i64Max

def boundedMetadata (value : String) (max : Nat) : Bool :=
  !value.isEmpty && value.utf8ByteSize ≤ max && !value.toList.any isControl

-- Rosters

inductive MembershipCoverage
  | complete
  | unknown
  | partialCoverage
deriving DecidableEq, Repr

structure NewRosterSnapshot where
  snapshotId : String
  workspaceRoot : String
  adapter : String
  totalCandidates : Nat
  eligibleCandidates : Nat
  membershipCoverage : MembershipCoverage
  membersJson : String
  createdAtUnixMs : Nat
deriving DecidableEq

structure SnapshotMember where
  skillId : String
  invocationName : Option String
  contentHash : Option String
  source : String
  eligible : Bool
  exclusionReason : Option String
deriving DecidableEq

-- Events

inductive DecisionKind
  | ranked
  | explicit
  | abstain
  | unavailable
deriving DecidableEq, Repr

/-- How far a recommendation got toward the agent that asked for it. -/
inductive ExposureState
  | generated
  | prepared
  | emitted
  | acknowledged
  | unknown
deriving DecidableEq, Repr

structure NewRankingEvent where
  eventId : String
  verifiedDeliveryKey : Option String
  workspaceRoot : String
  sessionId : String
  agentBranch : String
  modeChannel : String
  policyVersion : String
  schemaVersion : Nat
  decision : DecisionKind
  reason : String
  exposureState : ExposureState
  elapsedMs : Nat
  createdAtUnixMs : Nat
  inputTokens : Option Nat
  outputTokens : Option Nat
  snapshotId : Option String
deriving DecidableEq

def NewRankingEvent.checks (event : NewRankingEvent) : Bool :=
  hasLength event.eventId && 1 ≤ event.schemaVersion && fitsColumn event.elapsedMs
    && fitsColumn event.createdAtUnixMs && event.inputTokens.all fitsColumn
    && event.outputTokens.all fitsColumn

inductive CandidateStage
  | wide
  | rerank
deriving DecidableEq, Repr

structure NewRankingCandidate where
  eventId : String
  stage : CandidateStage
  skillId : String
  skillVersion : String
  rawProbability : Option ℚ
  normalizedProbability : Option ℚ
  fitScore : Option ℚ
  rankScore : Option ℚ
  rankPosition : Option Nat
  excluded : Bool
  exclusionReason : Option String
deriving DecidableEq

def isProbability (value : ℚ) : Bool := 0 ≤ value && value ≤ 1

def NewRankingCandidate.checks (candidate : NewRankingCandidate) : Bool :=
  hasLength candidate.skillId && candidate.rawProbability.all isProbability
    && candidate.normalizedProbability.all isProbability && candidate.fitScore.all isProbability
    && candidate.rankPosition.all (1 ≤ ·)

def NewRankingCandidate.key (candidate : NewRankingCandidate)
    : String × CandidateStage × String :=
  (candidate.eventId, candidate.stage, candidate.skillId)

-- Attempts

inductive AttemptStatus
  | admitted
  | sent
  | completed
  | failed
  | unknown
deriving DecidableEq, Repr

structure NewProviderAttempt where
  attemptId : String
  ownerEventId : String
  stage : CandidateStage
  requestFingerprint : String
  admittedAtUnixMs : Nat
  sentAtUnixMs : Option Nat
  completedAtUnixMs : Option Nat
  status : AttemptStatus
  inputTokens : Option Nat
  outputTokens : Option Nat
  httpStatus : Option Nat
  errorKind : Option String
deriving DecidableEq

def NewProviderAttempt.checks (attempt : NewProviderAttempt) : Bool :=
  hasLength attempt.attemptId && hasLength attempt.requestFingerprint
    && fitsColumn attempt.admittedAtUnixMs && attempt.sentAtUnixMs.all fitsColumn
    && attempt.completedAtUnixMs.all fitsColumn && attempt.inputTokens.all fitsColumn
    && attempt.outputTokens.all fitsColumn
    && attempt.httpStatus.all fun status => 100 ≤ status && status ≤ 599

-- Observations

inductive EvidenceState
  | attempted
  | loaded
  | censored
deriving DecidableEq, Repr

structure NewObservation where
  observationId : String
  sourceEventKey : String
  workspaceRoot : String
  sessionId : String
  agentBranch : String
  attributedEventId : Option String
  skillId : String
  evidenceState : EvidenceState
  observedAtUnixMs : Nat
deriving DecidableEq

def NewObservation.checks (observation : NewObservation) : Bool :=
  hasLength observation.observationId && hasLength observation.sourceEventKey
    && hasLength observation.skillId && fitsColumn observation.observedAtUnixMs

inductive CursorKind
  | ranking
  | observation
deriving DecidableEq, Repr

structure SessionCursor where
  workspaceRoot : String
  sessionId : String
  agentBranch : String
  cursorKind : CursorKind
  transcriptGeneration : Nat
  lastCompleteEventId : String
  lastOffsetBytes : Nat
  updatedAtUnixMs : Nat
deriving DecidableEq

def SessionCursor.checks (cursor : SessionCursor) : Bool :=
  hasLength cursor.workspaceRoot && hasLength cursor.sessionId
    && fitsColumn cursor.transcriptGeneration && fitsColumn cursor.lastOffsetBytes
    && fitsColumn cursor.updatedAtUnixMs

def SessionCursor.key (cursor : SessionCursor) : String × String × String × CursorKind :=
  (cursor.workspaceRoot, cursor.sessionId, cursor.agentBranch, cursor.cursorKind)

-- Judgments

inductive JudgmentLabel
  | useful
  | harmful
  | neutral
deriving DecidableEq, Repr

structure NewJudgment where
  judgmentId : String
  attributedEventId : String
  skillId : String
  label : JudgmentLabel
  labelVersion : Nat
  provenance : String
  createdAtUnixMs : Nat
deriving DecidableEq

def NewJudgment.checks (judgment : NewJudgment) : Bool :=
  hasLength judgment.judgmentId && hasLength judgment.skillId && 1 ≤ judgment.labelVersion
    && fitsColumn judgment.labelVersion && hasLength judgment.provenance
    && fitsColumn judgment.createdAtUnixMs

inductive ProposalStatus
  | unresolved
  | historicallyAbsent
  | rejected
  | adopted
deriving DecidableEq, Repr

structure NewFeedbackProposal where
  proposalId : String
  workspaceRoot : String
  sessionId : String
  suggestedSkillReference : String
  status : ProposalStatus
  notes : Option String
  createdAtUnixMs : Nat
deriving DecidableEq

def NewFeedbackProposal.checks (proposal : NewFeedbackProposal) : Bool :=
  hasLength proposal.proposalId && hasLength proposal.suggestedSkillReference
    && fitsColumn proposal.createdAtUnixMs

inductive DatasetSplit
  | train
  | validation
  | holdout
deriving DecidableEq, Repr

structure NewCalibration where
  calibrationId : String
  datasetFingerprint : String
  split : DatasetSplit
  objective : String
  coefficientsJson : String
  evaluationReportId : String
  createdAtUnixMs : Nat
deriving DecidableEq

def NewCalibration.checks (calibration : NewCalibration) : Bool :=
  hasLength calibration.calibrationId && hasLength calibration.datasetFingerprint
    && fitsColumn calibration.createdAtUnixMs

end SkillRanker.Storage
