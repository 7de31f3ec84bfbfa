import SkillRanker.Jev.AttemptRuns

/-! The order in which the coordinator lists its attempts. The map that stores them is ordered
by the text of the attempt id, in which the tenth attempt stands before the second.
-/

namespace SkillRanker.Jev

open SkillRanker.Library
open Std

structure AttemptOrigin where
  attemptId : String
  stage : RankingStage
  admittedAt : Nat
deriving DecidableEq, Repr

def AttemptProvenance.origin (provenance : AttemptProvenance) : AttemptOrigin :=
  {
    attemptId := provenance.attemptId
    stage := provenance.stage
    admittedAt := provenance.admittedAt
  }

def AttemptPermit.origin (permit : AttemptPermit) : AttemptOrigin :=
  {
    attemptId := permit.attemptId
    stage := permit.stage
    admittedAt := permit.admittedAt
  }

def AttemptAdmission.attempts (admission : AttemptAdmission) : List AttemptProvenance :=
  admission.issuedAttemptIds.toList.map (fun entry => entry.2.provenance)

def AttemptAnswer.admission : AttemptAnswer → Option AttemptPermit
  | .permitted (.ok permit) => some permit
  | _ => none

def admissions (steps : List (Transition Holder AttemptCall AttemptAnswer))
    : List AttemptPermit :=
  steps.filterMap (fun step => step.output.admission)

theorem admissions_snoc (steps : List (Transition Holder AttemptCall AttemptAnswer))
    (step : Transition Holder AttemptCall AttemptAnswer)
    : admissions (steps ++ [step]) = admissions steps ++ step.output.admission.toList := by
  unfold admissions
  rw [List.filterMap_append]
  cases permitted : step.output.admission <;> simp [permitted]

-- Sequential ids

def sequentialIds (invocationId : String) (count : Nat) : List String :=
  (List.range count).map (fun index => newSequential invocationId (index + 1))

theorem sequentialIds_succ (invocationId : String) (count : Nat)
    : sequentialIds invocationId (count + 1)
      = sequentialIds invocationId count ++ [newSequential invocationId (count + 1)] := by
  simp [sequentialIds, List.range_succ]

/-- A common front does not decide the order of two texts. -/
theorem append_lt_append {front first second : String} (less : first < second)
    : front ++ first < front ++ second := by
  have less : first.toList < second.toList := less
  change (front ++ first).toList < (front ++ second).toList
  rw [String.toList_append, String.toList_append]
  exact List.append_left_lt less

variable {invocationId : String}

/-- Two ids of one invocation stand as their numbers do as texts. -/
theorem newSequential_lt {first second : Nat} (less : toString first < toString second)
    : newSequential invocationId first < newSequential invocationId second :=
  append_lt_append less

theorem sequentialIds_ascend {count : Nat} (few : count ≤ 9)
    : (sequentialIds invocationId count).Pairwise (fun first second => first < second) := by
  unfold sequentialIds
  rw [List.pairwise_map]
  refine List.pairwise_lt_range.imp_of_mem ?_
  intro first second memberFirst memberSecond before
  refine newSequential_lt ?_
  have bounded := List.mem_range.mp memberSecond
  have single : ∀ second < 9, ∀ first < second,
      toString (first + 1) < toString (second + 1) := by
    decide
  exact single second (by omega) first before

/-- The tenth id stands before the second. -/
theorem sequentialIds_descend {count : Nat} (many : 9 < count)
    : ¬ (sequentialIds invocationId count).Pairwise (fun first second => first < second) := by
  unfold sequentialIds
  rw [List.pairwise_map]
  intro ascending
  have second := List.pairwise_iff_getElem.mp ascending 1 9 (by simpa using by omega)
    (by simpa using many) (by decide)
  simp only [List.getElem_range] at second
  have less : newSequential invocationId 10 < newSequential invocationId 2 :=
    newSequential_lt (by decide)
  exact String.lt_asymm second less

-- What each call does to the origins

namespace AttemptAdmission

variable (admission : AttemptAdmission)

def originOf (attemptId : String) : Option AttemptOrigin :=
  admission.issuedAttemptIds[attemptId]?.map (fun trace => trace.provenance.origin)

structure KeepsOrigins (before after : AttemptAdmission) : Prop where
  invocationId : after.invocationId = before.invocationId
  admitted : after.receipt.admittedAttempts = before.receipt.admittedAttempts
  origins : after.originOf = before.originOf

theorem KeepsOrigins.refl : KeepsOrigins admission admission := ⟨rfl, rfl, rfl⟩

/-- Settling an attempt with an update of its outcome changes no origin. -/
theorem settle_keeps (attemptId : String) (state : AttemptState)
    (update : AttemptProvenance → AttemptProvenance)
    (kept : ∀ provenance, (update provenance).origin = provenance.origin)
    : KeepsOrigins admission (admission.settle attemptId state update) := by
  unfold settle
  cases known : admission.issuedAttemptIds[attemptId]? with
  | none => exact .refl admission
  | some trace =>
      refine ⟨rfl, rfl, funext fun other => ?_⟩
      simp only [originOf]
      by_cases same : other = attemptId
      · subst same
        simp [known, kept]
      · rw [getElem_insert_ne same]

variable (sent : SentAttempt)

theorem recordSent_keeps (now : Nat)
    : KeepsOrigins admission (admission.recordSent sent now).1 := by
  unfold recordSent
  split
  · obtain ⟨invocationId, admitted, origins⟩ := settle_keeps
      {
        admission with
        receipt :=
          {
            admission.receipt with
            sentAttempts := saturatingAddU32 admission.receipt.sentAttempts 1
          }
      }
      sent.attemptId .sent
      (fun provenance => { provenance with sentAt := some now, outcome := .sent })
      (fun _ => rfl)
    exact ⟨invocationId, admitted, origins⟩
  · exact .refl admission

theorem recordTerminalFailure_keeps (failure : AttemptFailure) (now : Nat)
    : KeepsOrigins admission (admission.recordTerminalFailure sent failure now).1 := by
  unfold recordTerminalFailure
  split
  · obtain ⟨invocationId, admitted, origins⟩ := settle_keeps
      { admission with receipt := admission.receipt.recordTerminalError }
      sent.attemptId .finished
      (fun provenance =>
        {
          provenance with
          settledAt := some now
          outcome := .failed
          failure := some failure
        })
      (fun _ => rfl)
    exact ⟨invocationId, admitted, origins⟩
  · exact .refl admission

theorem recordResponse_keeps (usage : Usage) (now : Nat)
    : KeepsOrigins admission (admission.recordResponse sent usage now).1 := by
  unfold recordResponse
  split
  case isTrue =>
    split
    case isTrue =>
      have keeps := admission.recordTerminalFailure_keeps sent
        (.local "usage-counter-overflow") now
      generalize admission.recordTerminalFailure sent (.local "usage-counter-overflow") now
        = outcome at keeps ⊢
      rcases outcome with ⟨failed, error | _⟩ <;> exact keeps
    case isFalse =>
      obtain ⟨invocationId, admitted, origins⟩ := settle_keeps
        {
          admission with
          receipt := admission.receipt.recordSuccess usage
          wideCompleted := admission.wideCompleted || decide (sent.stage = .wide)
          currentStageCompleted := true
        }
        sent.attemptId .finished
        (fun provenance =>
          {
            provenance with
            settledAt := some now
            outcome := .completed
            usage := some usage
          })
        (fun _ => rfl)
      exact ⟨invocationId, admitted, origins⟩
  case isFalse => exact .refl admission

theorem recordDiscard_keeps (discarded : DiscardedAttempt) (now : Nat)
    : KeepsOrigins admission (admission.recordDiscard discarded now).1 := by
  unfold recordDiscard
  split
  · have kept := admission.settle_keeps discarded.attemptId .finished
      (fun provenance =>
        {
          provenance with
          settledAt := some now
          outcome := .discarded
          failure := some (.local "discarded-before-send")
        })
      (fun _ => rfl)
    exact kept
  · exact .refl admission

end AttemptAdmission

-- Runs

/-- The coordinator of an invocation knows exactly the attempts of these permits. -/
structure AttemptAdmission.Enlists (admission : AttemptAdmission) (invocationId : String)
    (permits : List AttemptPermit)
    : Prop where
  invocation : admission.invocationId = invocationId
  admitted : admission.receipt.admittedAttempts = permits.length
  ids
    : permits.map (fun permit => permit.attemptId)
      = sequentialIds invocationId permits.length
  origins
    : ∀ attemptId origin,
        admission.originOf attemptId = some origin
        ↔ origin ∈ permits.map AttemptPermit.origin ∧ origin.attemptId = attemptId

namespace AttemptAdmission.Enlists

variable {before after : AttemptAdmission} {invocationId : String}
  {permits : List AttemptPermit}

/-- A call that admits nothing enlists nobody. -/
theorem keeps (enlists : before.Enlists invocationId permits)
    (kept : KeepsOrigins before after)
    : after.Enlists invocationId permits :=
  ⟨kept.invocationId.trans enlists.invocation, kept.admitted.trans enlists.admitted,
    enlists.ids, fun attemptId => by rw [kept.origins]; exact enlists.origins attemptId⟩

/-- An admission enlists its permit after all others. -/
theorem register {stage : RankingStage} {now later : Nat} {slot : Slot}
    {permit : AttemptPermit} (enlists : before.Enlists invocationId permits)
    (found : before.slot stage now later = .ok slot)
    (issued
      : permit.origin
        = { attemptId := slot.attemptId, stage := stage, admittedAt := slot.now })
    : (before.register stage slot).Enlists invocationId (permits ++ [permit]) := by
  have admitted := before.slot_admitted found
  have named : permit.attemptId = slot.attemptId := congrArg AttemptOrigin.attemptId issued
  have sequence : slot.sequence = permits.length + 1 := by
    have word := before.budget.maxHttpAttempts.toNat_lt
    have room := admitted.attempts
    rw [admitted.sequence, saturatingAddU32, u32Max, ← enlists.admitted]
    omega
  refine ⟨enlists.invocation, ?_, ?_, ?_⟩
  · change slot.sequence = _
    rw [sequence, List.length_append, List.length_singleton]
  · rw [List.map_append, List.length_append, List.length_singleton, sequentialIds_succ,
      enlists.ids, List.map_singleton, named, admitted.attemptId, sequence,
      enlists.invocation]
  · intro attemptId origin
    rw [List.map_append, List.mem_append, List.map_singleton, List.mem_singleton, issued]
    change ((before.issuedAttemptIds.insert slot.attemptId
      (.fresh slot.attemptId stage slot.now))[attemptId]?).map _ = some origin ↔ _
    by_cases same : attemptId = slot.attemptId
    · subst same
      have unknown : ¬ (origin ∈ permits.map AttemptPermit.origin
          ∧ origin.attemptId = slot.attemptId) := by
        rw [← enlists.origins, originOf, admitted.absent]
        simp
      rw [TreeMap.getElem?_insert_self, Option.map_some, Option.some_inj]
      constructor
      · rintro rfl
        exact ⟨Or.inr rfl, rfl⟩
      · rintro ⟨old | new, same⟩
        · exact absurd ⟨old, same⟩ unknown
        · exact new.symm
    · rw [getElem_insert_ne same]
      refine (enlists.origins attemptId origin).trans ?_
      refine and_congr_left fun named => (or_iff_left ?_).symm
      rintro rfl
      exact same named.symm

end AttemptAdmission.Enlists

variable {permits : List AttemptPermit}

theorem enlists_report {holder : Holder} (enlists : holder.admission.Enlists invocationId permits)
    (attempt : AttemptRef) (record : SentAttempt → AttemptAdmission × Except AdmissionError Unit)
    (keeps : ∀ sent, holder.admission.KeepsOrigins (record sent).1)
    : (holder.report attempt record).1.admission.Enlists invocationId
          (permits ++ (holder.report attempt record).2.admission.toList) := by
  unfold Holder.report
  cases holder.permit attempt with
  | none => simpa [AttemptAnswer.admission] using enlists
  | some permit =>
      dsimp only
      cases permit.markSent with
      | error error => simpa [AttemptAnswer.admission] using enlists
      | ok sent =>
          have kept := enlists.keeps (keeps sent)
          simpa [AttemptAnswer.admission] using kept

theorem enlists_next {holder : Holder} (enlists : holder.admission.Enlists invocationId permits)
    (call : AttemptCall)
    : (attempts.next holder call).1.admission.Enlists invocationId
          (permits ++ (attempts.next holder call).2.admission.toList) := by
  cases call with
  | recordSent attempt now =>
      exact enlists_report enlists attempt _
        (fun sent => holder.admission.recordSent_keeps sent now)
  | recordResponse attempt usage now =>
      exact enlists_report enlists attempt _
        (fun sent => holder.admission.recordResponse_keeps sent usage now)
  | recordTerminalFailure attempt failure now =>
      exact enlists_report enlists attempt _
        (fun sent => holder.admission.recordTerminalFailure_keeps sent failure now)
  | recordDiscard attempt reason now =>
      simp only [attempts]
      cases holder.permit attempt with
      | none => simpa [AttemptAnswer.admission] using enlists
      | some permit =>
          have kept := enlists.keeps
            (holder.admission.recordDiscard_keeps (permit.discardBeforeSend reason) now)
          simpa [AttemptAnswer.admission] using kept
  | admitAttempt stage endpoint now later =>
      simp only [attempts]
      unfold AttemptAdmission.admitAttempt
      cases found : holder.admission.slot stage now later with
      | error refusal => simpa [AttemptAnswer.admission] using enlists
      | ok slot => exact enlists.register found rfl

theorem enlists_new {budget : AttemptBudget} {clock : InvocationDeadline} {owner : Nat}
    {admission : AttemptAdmission}
    (created : AttemptAdmission.new budget clock invocationId owner = .ok admission)
    : admission.Enlists invocationId [] := by
  unfold AttemptAdmission.new at created
  split at created
  · cases created
  · cases created
    refine ⟨rfl, rfl, rfl, fun attemptId origin => ?_⟩
    simp [AttemptAdmission.originOf]

/-- After any run the coordinator knows exactly the attempts it admitted. -/
theorem enlists_run {admission : AttemptAdmission} (enlists : admission.Enlists invocationId [])
    (calls : List AttemptCall)
    : (attempts.final (.fresh admission) calls).admission.Enlists invocationId
        (admissions (attempts.history (.fresh admission) calls)) := by
  refine attempts.run_induction
    (motive := fun _ steps holder =>
      holder.admission.Enlists invocationId (admissions steps)) enlists ?_ calls
  intro earlier call ih
  rw [admissions_snoc]
  exact enlists_next ih call

-- The order of the list

namespace AttemptAdmission.Enlists

variable {admission : AttemptAdmission} {invocationId : String} {permits : List AttemptPermit}

section

variable (enlists : admission.Enlists invocationId permits)
include enlists

/-- The attempts listed are those admitted, in some order. -/
theorem mem_attempts (origin : AttemptOrigin)
    : origin ∈ admission.attempts.map AttemptProvenance.origin
      ↔ origin ∈ permits.map AttemptPermit.origin := by
  have known := enlists.origins origin.attemptId origin
  rw [and_iff_left rfl] at known
  rw [← known, attempts, List.map_map, List.mem_map, originOf, Option.map_eq_some_iff]
  constructor
  · rintro ⟨⟨attemptId, trace⟩, member, rfl⟩
    have found := TreeMap.mem_toList_iff_getElem?_eq_some.mp member
    have named := ((enlists.origins attemptId trace.provenance.origin).mp
      (by rw [originOf, found]; rfl)).2
    exact ⟨trace, by rw [← found, ← named]; rfl, rfl⟩
  · rintro ⟨trace, found, rfl⟩
    exact ⟨_, TreeMap.mem_toList_iff_getElem?_eq_some.mpr found, rfl⟩

/-- The attempts are listed in the order of their ids as texts. -/
theorem attempts_ascend
    : (admission.attempts.map AttemptProvenance.origin).Pairwise
        (fun first second => first.attemptId < second.attemptId) := by
  have named {entry : String × AttemptTrace}
      (member : entry ∈ admission.issuedAttemptIds.toList)
      : entry.2.provenance.origin.attemptId = entry.1 := by
    have found := TreeMap.mem_toList_iff_getElem?_eq_some.mp member
    exact ((enlists.origins entry.1 entry.2.provenance.origin).mp
      (by rw [originOf, found]; rfl)).2
  have ordered := admission.issuedAttemptIds.ordered_keys
  rw [← TreeMap.map_fst_toList_eq_keys, List.pairwise_map] at ordered
  rw [attempts, List.map_map, List.pairwise_map]
  refine ordered.imp_of_mem ?_
  intro first second memberFirst memberSecond before
  simp only [Function.comp_apply]
  rw [named memberFirst, named memberSecond]
  exact compareOfLessAndEq_eq_lt.mp before

/-- The attempts are listed in the order of their admission exactly while there are at most
nine of them.
-/
theorem attempts_eq_iff
    : admission.attempts.map AttemptProvenance.origin = permits.map AttemptPermit.origin
      ↔ permits.length ≤ 9 := by
  have listed := enlists.attempts_ascend
  have ascend
      : (permits.map AttemptPermit.origin).Pairwise
            (fun first second => first.attemptId < second.attemptId)
        ↔ (sequentialIds invocationId permits.length).Pairwise
            (fun first second => first < second) := by
    rw [← enlists.ids, List.pairwise_map, List.pairwise_map]
    rfl
  constructor
  · intro same
    rw [same, ascend] at listed
    exact Nat.not_lt.mp fun many => sequentialIds_descend many listed
  · intro few
    have admitted := ascend.mpr (sequentialIds_ascend few)
    have distinct {origins : List AttemptOrigin}
        (sorted
          : origins.Pairwise (fun first second => first.attemptId < second.attemptId))
        : origins.Nodup :=
      sorted.imp (fun {_ _} before same => by
        rw [same] at before
        exact String.lt_irrefl _ before)
    have perm := (List.perm_ext_iff_of_nodup (distinct listed) (distinct admitted)).mpr
      enlists.mem_attempts
    refine perm.eq_of_pairwise ?_ listed admitted
    intro first second _ _ before after
    exact absurd after (String.lt_asymm before)

end

end AttemptAdmission.Enlists

/-- After every run of calls on a new coordinator, `attempts` lists the attempts in the order
they were admitted exactly if at most nine were: the ids are compared as texts.
-/
theorem attempts_inOrder_iff (budget : AttemptBudget) (clock : InvocationDeadline)
    (invocationId : String) (owner : Nat) (calls : List AttemptCall)
    : ∀ admission,
        AttemptAdmission.new budget clock invocationId owner = .ok admission
        → ((attempts.final (.fresh admission) calls).admission.attempts.map
              AttemptProvenance.origin
            = (admissions (attempts.history (.fresh admission) calls)).map AttemptPermit.origin
          ↔ (admissions (attempts.history (.fresh admission) calls)).length ≤ 9) :=
  fun _ created => (enlists_run (enlists_new created) calls).attempts_eq_iff

/-- A wide attempt that is answered and a rerank after it. -/
theorem attempts_inOrder_pair
    : ∃ admission,
        AttemptAdmission.new .defaultInvocation .default "inv" 0 = .ok admission
        ∧ ((attempts.final (.fresh admission)
              [
                .admitAttempt .wide "https://api" 1 1,
                .recordSent (.issued 0) 2,
                .recordResponse (.issued 0) { inputTokens := 7, outputTokens := 2 } 9,
                .admitAttempt .rerank "https://api" 10 10
              ]).admission.attempts.map AttemptProvenance.origin
            = (admissions
                (attempts.history (.fresh admission)
                  [
                    .admitAttempt .wide "https://api" 1 1,
                    .recordSent (.issued 0) 2,
                    .recordResponse (.issued 0) { inputTokens := 7, outputTokens := 2 } 9,
                    .admitAttempt .rerank "https://api" 10 10
                  ])).map AttemptPermit.origin) :=
  ⟨_, rfl, (attempts_inOrder_iff .defaultInvocation .default "inv" 0 _ _ rfl).mpr
    (by decide +kernel)⟩

def tenDiscards : List AttemptCall :=
  (List.range 10).flatMap fun index =>
    [
      .admitAttempt .wide "https://api" 1 1,
      .recordDiscard (.issued index) "cancelled" 1
    ]

/-- A budget of ten attempts, of which the tenth is listed second. -/
theorem attempts_outOfOrder
    : ¬ ∀ (budget : AttemptBudget) (clock : InvocationDeadline) (invocationId : String)
          (owner : Nat) (calls : List AttemptCall) (admission : AttemptAdmission),
          AttemptAdmission.new budget clock invocationId owner = .ok admission
          → (attempts.final (.fresh admission) calls).admission.attempts.map
                AttemptProvenance.origin
              = (admissions (attempts.history (.fresh admission) calls)).map
                AttemptPermit.origin := by
  intro ordered
  have listed := ordered
    { maxLogicalRequests := 2, maxHttpAttempts := 10, minAttemptReserveMs := 50 }
    .default "inv" 0 tenDiscards _ rfl
  revert listed
  decide +kernel

end SkillRanker.Jev
