import Mathlib.Data.Set.Function
import SkillRanker.Cache.Fingerprint

/-! Fingerprint streams tell their domains and all their inputs apart. -/

namespace SkillRanker.Cache

open SkillRanker.Library

theorem digest_delimited : Delimited Digest.bytes := by
  refine .fixed 32 Digest.sized ?_
  intro left right same
  cases left
  cases right
  cases same
  rfl

theorem leBytes_delimited : Delimited leBytes := by
  refine .fixed 8 (fun value => littleEndian_length 8 value.toNat) ?_
  intro left right same
  exact UInt64.toNat_inj.mp (littleEndian_injective left.toNat_lt right.toNat_lt same)

theorem Slice.length_lt {α : Type} (slice : Slice α) : slice.items.length < 256 ^ 8 :=
  Nat.lt_of_le_of_lt slice.bounded (by decide)

theorem items_delimited {α : Type} {feed : α → List UInt8} (delimited : Delimited feed)
    : Delimited (feedItems feed) := by
  refine ⟨fun {left right rest tail} same => ?_⟩
  obtain ⟨items, rests⟩ := delimited.counted 8 left.length_lt right.length_lt same
  cases left
  cases right
  cases items
  exact ⟨rfl, rests⟩

/-- Bytes behind their length are items of one byte each. -/
theorem lengthPrefixed_delimited : Delimited feedLengthPrefixed := by
  have single : Delimited (fun byte : UInt8 => [byte]) := by
    refine ⟨fun {left right rest tail} same => ?_⟩
    exact List.cons.inj same
  have same (bytes : Slice UInt8)
      : feedLengthPrefixed bytes = feedItems (fun byte => [byte]) bytes := by
    rw [feedLengthPrefixed, feedItems, List.flatMap_singleton']
  refine ⟨fun {left right rest tail} equal => ?_⟩
  rw [same, same] at equal
  exact (items_delimited single).split equal

theorem text_delimited : Delimited feedText := by
  refine lengthPrefixed_delimited.comap ?_
  intro left right same
  obtain ⟨left, _⟩ := left
  obtain ⟨right, _⟩ := right
  have bytes := Array.toList_inj.mp (congrArg Slice.items same)
  cases String.toByteArray_inj.mp (ByteArray.ext bytes)
  rfl

theorem asStr_injective : Function.Injective asStr := by
  intro left right same
  cases left
  cases right
  cases same
  rfl

theorem sourceKind_injective : Function.Injective SourceKind.asStr := by
  intro left right same
  have texts := congrArg Text.text same
  revert texts
  cases left <;> cases right <;> decide +kernel

theorem stage_injective : Function.Injective RequestStage.asStr := by
  intro left right same
  have texts := congrArg Text.text same
  revert texts
  cases left <;> cases right <;> decide +kernel

/-- Optional ids are delimited where their texts tell them apart. -/
theorem optId_delimited {α : Type} {view : α → Text} (injective : Function.Injective view)
    : Delimited (fun id : Option α => feedOptId (id.map view)) :=
  text_delimited.option.comap (Option.map_injective injective)

/-- The tags of the domains differ in their first five bytes. -/
theorem tag_delimited : Delimited Domain.tag := by
  refine .ofHeads 5 ?_ ?_
  · intro domain
    cases domain <;> decide +kernel
  · intro left right same
    revert same
    cases left <;> cases right <;> decide +kernel

@[simp]
theorem asStr_inj {left right : Identifier} : asStr left = asStr right ↔ left = right :=
  asStr_injective.eq_iff

@[simp]
theorem bits_inj {left right : F64} : left.bits = right.bits ↔ left = right := by
  rw [F64.mk.injEq]

section Fields

variable {rest tail : List UInt8}

@[simp]
theorem feedText_append {left right : Text}
    : feedText left ++ rest = feedText right ++ tail ↔ left = right ∧ rest = tail :=
  text_delimited.append_inj

@[simp]
theorem feedOptId_append {left right : Option Identifier}
    : feedOptId (left.map asStr) ++ rest = feedOptId (right.map asStr) ++ tail
      ↔ left = right ∧ rest = tail :=
  (optId_delimited asStr_injective).append_inj

@[simp]
theorem feedSourceKind_append {left right : Option SourceKind}
    : feedOptId (left.map SourceKind.asStr) ++ rest
        = feedOptId (right.map SourceKind.asStr) ++ tail
      ↔ left = right ∧ rest = tail :=
  (optId_delimited sourceKind_injective).append_inj

@[simp]
theorem feedOptText_append {left right : Option Text}
    : encodeOption feedText left ++ rest = encodeOption feedText right ++ tail
      ↔ left = right ∧ rest = tail :=
  text_delimited.option.append_inj

@[simp]
theorem leBytes_append {left right : UInt64}
    : leBytes left ++ rest = leBytes right ++ tail ↔ left = right ∧ rest = tail :=
  leBytes_delimited.append_inj

@[simp]
theorem digest_append {left right : Digest}
    : left.bytes ++ rest = right.bytes ++ tail ↔ left = right ∧ rest = tail :=
  digest_delimited.append_inj

end Fields

/-- A namespace is told from its bytes, field by field. -/
theorem namespace_delimited : Delimited CacheNamespace.feedInto := by
  refine ⟨fun {left right rest tail} same => ?_⟩
  cases left
  cases right
  simp only [CacheNamespace.feedInto, List.append_assoc, feedText_append, asStr_inj,
    leBytes_append, feedOptId_append, feedSourceKind_append] at same
  simp [same]

theorem candidate_delimited : Delimited CandidateDigest.feed := by
  refine ⟨fun {left right rest tail} same => ?_⟩
  cases left
  cases right
  simpa [CandidateDigest.feed, and_assoc] using same

theorem reference_delimited : Delimited LoadedReferenceDigest.feed := by
  refine ⟨fun {left right rest tail} same => ?_⟩
  cases left
  cases right
  simpa [LoadedReferenceDigest.feed, and_assoc] using same

theorem snooze_delimited : Delimited SnoozeDigest.feed := by
  refine ⟨fun {left right rest tail} same => ?_⟩
  cases left
  cases right
  simpa [SnoozeDigest.feed, and_assoc] using same

/-- The policy's numbers are told apart by their bits. -/
theorem policy_delimited : Delimited RankingPolicySnapshot.feedInto := by
  refine ⟨fun {left right rest tail} same => ?_⟩
  cases left
  cases right
  simpa [RankingPolicySnapshot.feedInto, and_assoc] using same

/-- What may be fingerprinted: the inputs of each domain. -/
inductive Subject
  | request (space : CacheNamespace) (input : RequestFingerprintInput)
  | decision (space : CacheNamespace) (input : DecisionFingerprintInput)
  | delivery (input : EventDeliveryInput)
  | coordination (space : CacheNamespace) (fingerprint : RequestFingerprint)
  | cacheNamespace (space : CacheNamespace)

namespace Subject

def domain : Subject → Domain
  | .request _ _ => .request
  | .decision _ _ => .decision
  | .delivery _ => .delivery
  | .coordination _ _ => .coordination
  | .cacheNamespace _ => .cacheNamespace

def stream : Subject → List UInt8
  | .request space input => requestStream space input
  | .decision space input => decisionStream space input
  | .delivery input => deliveryStream input
  | .coordination space fingerprint => coordinationStream space fingerprint
  | .cacheNamespace space => namespaceStream space

def fingerprint (hash : CacheKey → List UInt8 → Digest) (key : CacheKey)
    : Subject → Except FingerprintError Digest
  | .request space input => .ok (computeRequestFingerprint hash key space input)
  | .decision space input => computeDecisionFingerprint hash key space input
  | .delivery input => .ok (computeDeliveryKey hash key input).digest
  | .coordination space fingerprint => .ok (computeCoordinationKey hash key space fingerprint)
  | .cacheNamespace space => .ok (namespaceHash hash key space)

end Subject

theorem tagged (subject : Subject)
    : ∃ rest, subject.stream = subject.domain.tag ++ rest := by
  cases subject <;>
    simp only [Subject.stream, Subject.domain, requestStream, decisionStream, deliveryStream,
      coordinationStream, namespaceStream, List.append_assoc]
  all_goals exact ⟨_, rfl⟩

theorem domain_of_stream {left right : Subject} (same : left.stream = right.stream)
    : left.domain = right.domain := by
  obtain ⟨rest, leftTagged⟩ := tagged left
  obtain ⟨tail, rightTagged⟩ := tagged right
  rw [leftTagged, rightTagged] at same
  exact (tag_delimited.split same).1

variable {left right : CacheNamespace}

theorem request_injective {first second : RequestFingerprintInput}
    (same : requestStream left first = requestStream right second)
    : left = right ∧ first = second := by
  cases first
  cases second
  simp only [requestStream, List.append_assoc, tag_delimited.append_inj,
    namespace_delimited.append_inj, (text_delimited.comap stage_injective).append_inj,
    lengthPrefixed_delimited.append_inj, (items_delimited candidate_delimited).append_inj,
    digest_append, feedText_append, digest_delimited.option.injective.eq_iff] at same
  obtain ⟨-, rfl, same⟩ := same
  exact ⟨rfl, by simpa using same⟩

theorem decision_injective {first second : DecisionFingerprintInput}
    (same : decisionStream left first = decisionStream right second)
    : left = right ∧ first = second := by
  cases first
  cases second
  simp only [decisionStream, List.append_assoc, tag_delimited.append_inj,
    namespace_delimited.append_inj, digest_append,
    (items_delimited reference_delimited).append_inj, (items_delimited text_delimited).append_inj,
    policy_delimited.append_inj, feedOptText_append, (items_delimited snooze_delimited).append_inj,
    text_delimited.injective.eq_iff] at same
  obtain ⟨-, rfl, same⟩ := same
  exact ⟨rfl, by simpa using same⟩

theorem delivery_injective {first second : EventDeliveryInput}
    (same : deliveryStream first = deliveryStream second)
    : first = second := by
  cases first
  cases second
  simp only [deliveryStream, List.append_assoc, tag_delimited.append_inj, asStr_inj,
    feedOptId_append, feedText_append, leBytes_append, text_delimited.option.injective.eq_iff]
    at same
  simp [same]

theorem stream_injective : Function.Injective Subject.stream := by
  intro left right same
  have domains := domain_of_stream same
  cases left <;> cases right <;> cases domains
  case request.request.refl =>
    obtain ⟨rfl, rfl⟩ := request_injective same
    rfl
  case decision.decision.refl =>
    obtain ⟨rfl, rfl⟩ := decision_injective same
    rfl
  case delivery.delivery.refl =>
    rw [delivery_injective same]
  case coordination.coordination.refl =>
    simp only [Subject.stream, coordinationStream, List.append_assoc, tag_delimited.append_inj,
      namespace_delimited.append_inj, digest_delimited.injective.eq_iff] at same
    simp [same]
  case cacheNamespace.cacheNamespace.refl =>
    rw [namespace_delimited.injective (List.append_cancel_left same)]

theorem fingerprint_eq {hash : CacheKey → List UInt8 → Digest} {key : CacheKey}
    {subject : Subject} {digest : Digest}
    (computed : subject.fingerprint hash key = .ok digest)
    : digest = hash key subject.stream := by
  cases subject with
  | decision space input =>
      obtain ⟨_, _, done⟩ := bind_eq_ok.mp computed
      exact (pure_eq_ok.mp done).symm
  | _ =>
      cases computed
      rfl

/-- Streams tell domains and inputs apart, floats by their bits; so, among streams that the
keyed hash does not collide on, fingerprints are equal exactly for one subject.
-/
theorem fingerprints_framed
    : Function.Injective Subject.stream
      ∧ (∀ left right : Subject, left.domain ≠ right.domain → left.stream ≠ right.stream)
      ∧ ∀ (hash : CacheKey → List UInt8 → Digest) (key : CacheKey) (streams : Set (List UInt8)),
          Set.InjOn (hash key) streams
          → ∀ left right : Subject,
              left.stream ∈ streams
              → right.stream ∈ streams
              → ∀ first second,
                  left.fingerprint hash key = .ok first
                  → right.fingerprint hash key = .ok second
                  → (first = second ↔ left = right) := by
  refine ⟨stream_injective, ?_, ?_⟩
  · intro left right apart same
    exact apart (domain_of_stream same)
  · intro hash key streams collisionFree left right inLeft inRight first second one two
    cases fingerprint_eq one
    cases fingerprint_eq two
    constructor
    · intro same
      exact stream_injective (collisionFree inLeft inRight same)
    · intro same
      rw [same]

def sampleSpace : CacheNamespace where
  workspaceId := none
  sessionId := none
  branchId := none
  contextEpoch := none
  adapterId := none
  adapterVersion := none
  harnessId := { text := "codex", valid := by decide +kernel }
  keyGeneration := 1
  sourceKind := some .native
  producerId := none
  agentId := none
  leafEventId := none

def sampleDigest (byte : UInt8) : Digest where
  bytes := List.replicate 32 byte
  sized := List.length_replicate

/-- Adds the bytes of a stream to each byte of the key. -/
def sumHash (key : CacheKey) (stream : List UInt8) : Digest where
  bytes := key.bytes.map fun byte => stream.foldl (· + ·) byte
  sized := by rw [List.length_map, key.sized]

/-- Sums tell the streams of a coordinated request and of its namespace apart, so their
fingerprints differ.
-/
theorem fingerprints_framed_sum
    : (Subject.coordination sampleSpace (sampleDigest 1)).fingerprint sumHash (sampleDigest 7)
      ≠ (Subject.cacheNamespace sampleSpace).fingerprint sumHash (sampleDigest 7) := by
  intro same
  have collisionFree
      : Set.InjOn (sumHash (sampleDigest 7))
          {(Subject.coordination sampleSpace (sampleDigest 1)).stream,
            (Subject.cacheNamespace sampleSpace).stream} := by
    refine Set.injOn_pair.mpr fun same => absurd same ?_
    decide +kernel
  have one := fingerprints_framed.2.2 sumHash (sampleDigest 7) _ collisionFree
    (.coordination sampleSpace (sampleDigest 1)) (.cacheNamespace sampleSpace) (by simp) (by simp)
    _ _ rfl rfl
  cases one.mp (Except.ok.inj same)

end SkillRanker.Cache
