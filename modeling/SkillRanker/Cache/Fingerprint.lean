import SkillRanker.Identity
import SkillRanker.Library.Framing

/-! The byte streams that cache fingerprints hash: requests, decisions, deliveries,
coordination keys and namespaces, each behind the tag of its domain.
-/

namespace SkillRanker.Cache

open SkillRanker.Library

/-- A slice, whose length a machine word counts. -/
structure Slice (α : Type) where
  items : List α
  bounded : items.length ≤ usizeMax

/-- A text, whose bytes a machine word counts. -/
structure Text where
  text : String
  bounded : text.utf8ByteSize ≤ usizeMax
deriving DecidableEq

def Text.bytes (text : Text) : Slice UInt8 :=
  { items := utf8 text.text, bounded := text.bounded }

def asStr (id : Identifier) : Text :=
  { text := id.text, bounded := Nat.le_trans (size_of_valid id.valid) (by decide) }

abbrev SkillId := Text

/-- The digest of a file, by its text. -/
abbrev ContentHash := Text

structure Digest where
  bytes : List UInt8
  sized : bytes.length = 32
deriving DecidableEq

abbrev CacheKey := Digest
abbrev RequestFingerprint := Digest
abbrev DecisionFingerprint := Digest
abbrev CoordinationKey := Digest

structure F64 where
  bits : UInt64
deriving DecidableEq

/-- `f64::is_finite`: the exponent is not all ones. -/
def F64.isFinite (value : F64) : Bool := (value.bits >>> 52) &&& 0x7FF ≠ 0x7FF

inductive FingerprintError
  | nonFiniteWeight
  | invalidCandidateOrder
deriving DecidableEq, Repr

inductive RequestStage
  | wide
  | rerank
deriving DecidableEq, Repr

def RequestStage.asStr : RequestStage → Text
  | .wide => { text := "wide", bounded := by decide +kernel }
  | .rerank => { text := "rerank", bounded := by decide +kernel }

/-- The kind of source a context was read from. -/
inductive SourceKind
  | native
  | normalized
  | cass
deriving DecidableEq, Repr

def SourceKind.asStr : SourceKind → Text
  | .native => { text := "native", bounded := by decide +kernel }
  | .normalized => { text := "normalized", bounded := by decide +kernel }
  | .cass => { text := "cass", bounded := by decide +kernel }

/-- `to_le_bytes` of a `u64`. -/
def leBytes (value : UInt64) : List UInt8 := littleEndian 8 value.toNat

def feedLength {α : Type} (slice : Slice α) : List UInt8 := littleEndian 8 slice.items.length

def feedLengthPrefixed (bytes : Slice UInt8) : List UInt8 := feedLength bytes ++ bytes.items

def feedText (text : Text) : List UInt8 := feedLengthPrefixed text.bytes

def feedOptId (id : Option Text) : List UInt8 := encodeOption feedText id

def feedItems {α : Type} (feed : α → List UInt8) (items : Slice α) : List UInt8 :=
  feedLength items ++ items.items.flatMap feed

structure CacheNamespace where
  workspaceId : Option WorkspaceId
  sessionId : Option SessionId
  branchId : Option BranchId
  contextEpoch : Option ContextEpoch
  adapterId : Option AdapterId
  adapterVersion : Option AdapterVersion
  harnessId : HarnessId
  keyGeneration : UInt64
  sourceKind : Option SourceKind
  producerId : Option ProducerId
  agentId : Option AgentId
  leafEventId : Option EventId

def CacheNamespace.feedInto (space : CacheNamespace) : List UInt8 :=
  feedText (asStr space.harnessId)
    ++ leBytes space.keyGeneration
    ++ feedOptId (space.workspaceId.map asStr)
    ++ feedOptId (space.sessionId.map asStr)
    ++ feedOptId (space.branchId.map asStr)
    ++ feedOptId (space.contextEpoch.map asStr)
    ++ feedOptId (space.adapterId.map asStr)
    ++ feedOptId (space.adapterVersion.map asStr)
    ++ feedOptId (space.sourceKind.map SourceKind.asStr)
    ++ feedOptId (space.producerId.map asStr)
    ++ feedOptId (space.agentId.map asStr)
    ++ feedOptId (space.leafEventId.map asStr)

structure CandidateDigest where
  skillId : SkillId
  contentHash : ContentHash
  excerptHash : Option ContentHash

structure RequestFingerprintInput where
  stage : RequestStage
  canonicalRedactedState : Slice UInt8
  candidates : Slice CandidateDigest
  questionsDigest : Digest
  endpointUrl : Text
  model : Text
  promptVersion : Text
  adapterVersion : Text
  privacyPolicyVersion : Text
  excerptStrategy : Text
  pairedWide : Option RequestFingerprint

structure LoadedReferenceDigest where
  skillId : SkillId
  contentHash : ContentHash

structure SnoozeDigest where
  skillId : SkillId
  untilUnixMs : UInt64

structure RankingPolicySnapshot where
  wFit : F64
  wPrior : F64
  wPhase : F64
  gateThreshold : F64
  fitThreshold : F64
  topK : UInt64
  maxShortlistM : UInt64

namespace RankingPolicySnapshot

variable (policy : RankingPolicySnapshot)

def validate : Except FingerprintError Unit :=
  if !policy.wFit.isFinite
      || !policy.wPrior.isFinite
      || !policy.wPhase.isFinite
      || !policy.gateThreshold.isFinite
      || !policy.fitThreshold.isFinite then
    .error .nonFiniteWeight
  else .ok ()

def feedInto : List UInt8 :=
  leBytes policy.wFit.bits
    ++ leBytes policy.wPrior.bits
    ++ leBytes policy.wPhase.bits
    ++ leBytes policy.gateThreshold.bits
    ++ leBytes policy.fitThreshold.bits
    ++ leBytes policy.topK
    ++ leBytes policy.maxShortlistM

end RankingPolicySnapshot

structure DecisionFingerprintInput where
  requestFingerprint : RequestFingerprint
  loadedReferences : Slice LoadedReferenceDigest
  explicitExclusions : Slice SkillId
  rankingPolicy : RankingPolicySnapshot
  priorSnapshotId : Option ContentHash
  effectiveSnoozes : Slice SnoozeDigest
  visibilityMetadata : Text

structure EventDeliveryInput where
  deliveryId : Option Text
  sessionId : SessionId
  branchId : Option BranchId
  eventType : Text
  transcriptGeneration : UInt64
  cursorOffset : UInt64
  promptFingerprint : ContentHash

structure EventDeliveryKey where
  digest : Digest
  isAmbiguous : Bool

-- Streams

inductive Domain
  | request
  | decision
  | delivery
  | coordination
  | cacheNamespace
deriving DecidableEq, Repr

def Domain.tag : Domain → List UInt8
  | .request => utf8 "SR_REQ_FP_V1\x00"
  | .decision => utf8 "SR_DEC_FP_V1\x00"
  | .delivery => utf8 "SR_EVT_DEL_V1\x00"
  | .coordination => utf8 "SR_COORDINATION_KEY_V2\x00"
  | .cacheNamespace => utf8 "SR_CACHE_NS_HASH_V2\x00"

def CandidateDigest.feed (candidate : CandidateDigest) : List UInt8 :=
  feedText candidate.skillId
    ++ feedText candidate.contentHash
    ++ encodeOption feedText candidate.excerptHash

def requestStream (space : CacheNamespace) (input : RequestFingerprintInput) : List UInt8 :=
  Domain.request.tag
    ++ space.feedInto
    ++ feedText input.stage.asStr
    ++ feedLengthPrefixed input.canonicalRedactedState
    ++ feedItems CandidateDigest.feed input.candidates
    ++ input.questionsDigest.bytes
    ++ feedText input.endpointUrl
    ++ feedText input.model
    ++ feedText input.promptVersion
    ++ feedText input.adapterVersion
    ++ feedText input.privacyPolicyVersion
    ++ feedText input.excerptStrategy
    ++ encodeOption Digest.bytes input.pairedWide

def LoadedReferenceDigest.feed (reference : LoadedReferenceDigest) : List UInt8 :=
  feedText reference.skillId ++ feedText reference.contentHash

def SnoozeDigest.feed (snooze : SnoozeDigest) : List UInt8 :=
  feedText snooze.skillId ++ leBytes snooze.untilUnixMs

def decisionStream (space : CacheNamespace) (input : DecisionFingerprintInput) : List UInt8 :=
  Domain.decision.tag
    ++ space.feedInto
    ++ input.requestFingerprint.bytes
    ++ feedItems LoadedReferenceDigest.feed input.loadedReferences
    ++ feedItems feedText input.explicitExclusions
    ++ input.rankingPolicy.feedInto
    ++ encodeOption feedText input.priorSnapshotId
    ++ feedItems SnoozeDigest.feed input.effectiveSnoozes
    ++ feedText input.visibilityMetadata

def deliveryStream (input : EventDeliveryInput) : List UInt8 :=
  Domain.delivery.tag
    ++ feedText (asStr input.sessionId)
    ++ feedOptId (input.branchId.map asStr)
    ++ feedText input.eventType
    ++ leBytes input.transcriptGeneration
    ++ leBytes input.cursorOffset
    ++ feedText input.promptFingerprint
    ++ encodeOption feedText input.deliveryId

def coordinationStream (space : CacheNamespace) (fingerprint : RequestFingerprint) : List UInt8 :=
  Domain.coordination.tag ++ space.feedInto ++ fingerprint.bytes

def namespaceStream (space : CacheNamespace) : List UInt8 :=
  Domain.cacheNamespace.tag ++ space.feedInto

section Hashing

-- the keyed hash of a stream
variable (hash : CacheKey → List UInt8 → Digest) (key : CacheKey)

def computeRequestFingerprint (space : CacheNamespace) (input : RequestFingerprintInput)
    : RequestFingerprint :=
  hash key (requestStream space input)

def computeDecisionFingerprint (space : CacheNamespace) (input : DecisionFingerprintInput)
    : Except FingerprintError DecisionFingerprint := do
  input.rankingPolicy.validate
  return hash key (decisionStream space input)

def computeDeliveryKey (input : EventDeliveryInput) : EventDeliveryKey :=
  {
    digest := hash key (deliveryStream input)
    isAmbiguous :=
      match input.deliveryId with
      | some _ => false
      | none => input.transcriptGeneration = 0 && input.cursorOffset = 0
  }

/-- `CoordinationKey::compute`. -/
def computeCoordinationKey (space : CacheNamespace) (fingerprint : RequestFingerprint)
    : CoordinationKey :=
  hash key (coordinationStream space fingerprint)

def namespaceHash (space : CacheNamespace) : Digest := hash key (namespaceStream space)

end Hashing

end SkillRanker.Cache
