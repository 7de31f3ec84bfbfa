import Mathlib.Data.Rat.Floor
import Mathlib.Data.String.Basic
import SkillRanker.Library.Groups
import SkillRanker.Library.Sorting
import SkillRanker.Storage.HookEntries
import SkillRanker.Storage.Prune

/-! The value report of the ledger: turns, latencies, observations, judgments and attempts of a
window, each by the queries that the report makes.
-/

namespace SkillRanker.Storage
open SkillRanker.Library

-- Rows of a window

def inFlightReason : String := "in-flight"

namespace NewRankingEvent

/-- `created_at_unix_ms >= ?1 AND created_at_unix_ms <= ?2` -/
def within (since asOf : Int) (event : NewRankingEvent) : Bool :=
  since ≤ event.createdAtUnixMs ∧ (event.createdAtUnixMs : Int) ≤ asOf

/-- `UNFINISHED_ROW_SQL` -/
def unfinishedRow (event : NewRankingEvent) : Bool :=
  event.decision = .unavailable ∧ event.exposureState = .generated ∧ event.reason = inFlightReason

/-- `decision IN ('ranked', 'explicit') AND exposure_state IN ('emitted', 'acknowledged')` -/
def emitted (event : NewRankingEvent) : Bool :=
  (event.decision = .ranked ∨ event.decision = .explicit)
    ∧ (event.exposureState = .emitted ∨ event.exposureState = .acknowledged)

/-- `decision = 'ranked' AND exposure_state IN ('generated', 'prepared')` -/
def muted (event : NewRankingEvent) : Bool :=
  event.decision = .ranked ∧ (event.exposureState = .generated ∨ event.exposureState = .prepared)

/-- `decision = 'unavailable' AND NOT` unfinished. -/
def failedRow (event : NewRankingEvent) : Bool :=
  event.decision = .unavailable ∧ event.unfinishedRow = false

def abstained (event : NewRankingEvent) : Bool := event.decision = .abstain

end NewRankingEvent

def Ledger.eventsWithin (ledger : Ledger) (since asOf : Int) : List NewRankingEvent :=
  ledger.rankingEvents.rows.filter (·.within since asOf)

/-- `judgments j JOIN ranking_events e ON j.attributed_event_id = e.event_id`, in a window. -/
def Ledger.judgedWithin (ledger : Ledger) (since asOf : Int)
    : List (NewJudgment × NewRankingEvent) :=
  joinOn (fun judgment event => judgment.attributedEventId = event.eventId)
    ledger.judgments.rows (ledger.eventsWithin since asOf)

/-- `provider_attempts a JOIN ranking_events e ON a.owner_event_id = e.event_id`, in a window. -/
def Ledger.attemptsWithin (ledger : Ledger) (since asOf : Int)
    : List (NewProviderAttempt × NewRankingEvent) :=
  joinOn (fun attempt event => attempt.ownerEventId = event.eventId)
    ledger.providerAttempts.rows (ledger.eventsWithin since asOf)

/-- `ranking_candidates c JOIN ranking_events e ON c.event_id = e.event_id`, in a window. -/
def Ledger.candidatesWithin (ledger : Ledger) (since asOf : Int)
    : List (NewRankingCandidate × NewRankingEvent) :=
  joinOn (fun candidate event => candidate.eventId = event.eventId)
    ledger.rankingCandidates.rows (ledger.eventsWithin since asOf)

/-- `observed_at_unix_ms >= ?1 AND observed_at_unix_ms <= ?2` -/
def NewObservation.within (since asOf : Int) (observation : NewObservation) : Bool :=
  since ≤ observation.observedAtUnixMs ∧ (observation.observedAtUnixMs : Int) ≤ asOf

def Ledger.observationsWithin (ledger : Ledger) (since asOf : Int) : List NewObservation :=
  ledger.observations.rows.filter (·.within since asOf)

-- Turns

structure ChannelStats where
  channel : String
  evaluatedTurns : Nat
  emitted : Nat
  abstain : Nat
  muted : Nat
  unavailable : Nat
  inFlightOrKilled : Nat
deriving DecidableEq, Repr

def ChannelStats.of (channel : String) (events : List NewRankingEvent) : ChannelStats where
  channel := channel
  evaluatedTurns := events.length
  emitted := events.countP (·.emitted)
  abstain := events.countP (·.abstained)
  muted := events.countP (·.muted)
  unavailable := events.countP (·.failedRow)
  inFlightOrKilled := events.countP (·.unfinishedRow)

structure FailureCause where
  reason : String
  count : Nat
deriving DecidableEq, Repr

/-- `ORDER BY count(*) DESC, reason` -/
def FailureCause.le : FailureCause → FailureCause → Bool :=
  scoreThenKey (·.count) (·.reason)

structure TurnMetrics where
  totalEvaluated : Nat
  emittedSuggestions : Nat
  validAbstentions : Nat
  mutedOrSuppressed : Nat
  operationalFailures : Nat
  explicitRequirements : Nat
  inFlightOrKilled : Nat
  byChannel : List ChannelStats
  failureCauses : List FailureCause
deriving DecidableEq, Repr

def turnMetrics (events : List NewRankingEvent) : TurnMetrics where
  totalEvaluated := events.length
  emittedSuggestions := events.countP (·.emitted)
  validAbstentions := events.countP (·.abstained)
  mutedOrSuppressed := events.countP (·.muted)
  operationalFailures := events.countP (·.failedRow)
  explicitRequirements := events.countP (·.decision = .explicit)
  inFlightOrKilled := events.countP (·.unfinishedRow)
  byChannel := (groupEntries (·.modeChannel) events).map fun group => .of group.1 group.2
  failureCauses :=
    ((groupEntries (·.reason) (events.filter (·.failedRow))).map fun group =>
      { reason := group.1, count := group.2.length : FailureCause }).mergeSort FailureCause.le

-- Latencies

structure LatencySummary where
  measuredTurns : Nat
  meanMs : Nat
  medianMs : Nat
  p95Ms : Nat
  p99Ms : Nat
  minMs : Nat
  maxMs : Nat
  excludedUnfinished : Nat
deriving DecidableEq, Repr

def LatencySummary.fromSortedSamples (samples : List Nat) (excludedUnfinished : Nat)
    : LatencySummary where
  measuredTurns := samples.length
  meanMs := if samples.length = 0 then 0 else samples.sum / samples.length
  medianMs := samples.getD (samples.length / 2) 0
  p95Ms := samples.getD (samples.length - (samples.length / 20 + 1)) 0
  p99Ms := samples.getD (samples.length - (samples.length / 100 + 1)) 0
  minMs := samples.headD 0
  maxMs := samples.getLastD 0
  excludedUnfinished := excludedUnfinished

structure ChannelLatencySummary where
  channel : String
  latency : LatencySummary
deriving DecidableEq, Repr

/-- `ORDER BY elapsed_ms ASC` -/
def latencyRows (events : List NewRankingEvent) : List NewRankingEvent :=
  events.mergeSort fun left right => left.elapsedMs ≤ right.elapsedMs

def latencySamples (events : List NewRankingEvent) : List Nat :=
  (events.filter fun event => !event.unfinishedRow).map (·.elapsedMs)

def latencySummary (events : List NewRankingEvent) : LatencySummary :=
  .fromSortedSamples (latencySamples (latencyRows events)) (events.countP (·.unfinishedRow))

def latencyByChannel (events : List NewRankingEvent) : List ChannelLatencySummary :=
  (groupEntries (·.modeChannel) (latencyRows events)).map fun group =>
    {
      channel := group.1
      latency :=
        .fromSortedSamples (latencySamples group.2) (group.2.countP (·.unfinishedRow)) }

-- Observations

structure ObservationMetrics where
  totalObservations : Nat
  observedLoads : Nat
  attemptedLoads : Nat
  censoredObservations : Nat
  attributedLoads : Nat
  unattributedLoads : Nat
  observationCoverage : Option ℚ
  suggestionAdoptionRate : Option ℚ
  caveat : String
deriving DecidableEq, Repr

/-- A load of what an emitted suggestion had offered, in the same conversation and not before it. -/
def adopts (asOf : Int) (observation : NewObservation) (event : NewRankingEvent)
    (candidate : NewRankingCandidate)
    : Bool :=
  observation.attributedEventId = some event.eventId
    && candidate.eventId = event.eventId && candidate.skillId = observation.skillId
    && event.emitted && observation.evidenceState = .loaded
    && event.createdAtUnixMs ≤ observation.observedAtUnixMs
    && (observation.observedAtUnixMs : Int) ≤ asOf
    && observation.workspaceRoot = event.workspaceRoot
    && observation.sessionId = event.sessionId && observation.agentBranch = event.agentBranch
    && !candidate.excluded && candidate.rankPosition.isSome
    && (event.decision = .ranked && candidate.stage = .rerank
      || event.decision = .explicit && candidate.stage = .wide)

/-- `count(DISTINCT event.event_id)` over the three tables. -/
def adoptedSuggestions (ledger : Ledger) (since asOf : Int) : Nat :=
  let offers :=
    joinOn (fun _ _ => true) (ledger.eventsWithin since asOf) ledger.rankingCandidates.rows
  let adoptions :=
    joinOn (fun observation offer => adopts asOf observation offer.1 offer.2)
      ledger.observations.rows offers
  distinctCount (adoptions.map fun adoption => adoption.2.1.eventId)

def adoptionCaveat : String :=
  "Observed adoption is not task success; a recommendation can cause its own observed load"
    ++ " without proving counterfactual benefit."

def observationMetrics (ledger : Ledger) (since asOf : Int) (emittedSuggestions : Nat)
    : ObservationMetrics :=
  let observations := ledger.observationsWithin since asOf
  let observedLoads := observations.countP (·.evidenceState = .loaded)
  let attributedLoads :=
    observations.countP fun row => row.evidenceState = .loaded ∧ row.attributedEventId.isSome
  {
    totalObservations := observations.length
    observedLoads
    attemptedLoads := observations.countP (·.evidenceState = .attempted)
    censoredObservations := observations.countP (·.evidenceState = .censored)
    attributedLoads
    unattributedLoads := observedLoads - attributedLoads
    observationCoverage := rate attributedLoads observedLoads
    suggestionAdoptionRate := rate (adoptedSuggestions ledger since asOf) emittedSuggestions
    caveat := adoptionCaveat }

-- Judgments

structure JudgmentMetrics where
  totalJudgments : Nat
  useful : Nat
  harmful : Nat
  neutral : Nat
  distinctJudgedEvents : Nat
  labelCoverageRate : Option ℚ
  usefulRatioInJudged : Option ℚ
deriving DecidableEq, Repr

def labelled (label : JudgmentLabel) (judged : List (NewJudgment × NewRankingEvent)) : Nat :=
  judged.countP fun row => row.1.label = label

def judgmentMetrics (judged : List (NewJudgment × NewRankingEvent)) (emittedSuggestions : Nat)
    : JudgmentMetrics where
  totalJudgments := judged.length
  useful := labelled .useful judged
  harmful := labelled .harmful judged
  neutral := labelled .neutral judged
  distinctJudgedEvents := distinctCount (judged.map (·.1.attributedEventId))
  labelCoverageRate :=
    rate (distinctCount ((judged.filter (·.2.emitted)).map (·.2.eventId))) emittedSuggestions
  usefulRatioInJudged := rate (labelled .useful judged) judged.length

-- Attempts

structure ProviderMetrics where
  totalAttempts : Nat
  completedAttempts : Nat
  failedAttempts : Nat
  unknownAttempts : Nat
  knownInputTokens : Nat
  knownOutputTokens : Nat
  knownTotalTokens : Nat
  unknownUsageAttempts : Nat
  cacheServedEvents : Nat
  cacheHitRate : Option ℚ
  costPerUsefulSuggestion : String
  tokensPerUsefulSuggestion : Option ℚ
  judgedTurnsServedFromCache : Nat
  judgedCohortUnknownUsageAttempts : Nat
deriving DecidableEq, Repr

/-- `a.input_tokens IS NULL OR a.output_tokens IS NULL OR a.status != 'completed'` -/
def NewProviderAttempt.unknownUsage (attempt : NewProviderAttempt) : Bool :=
  attempt.inputTokens.isNone ∨ attempt.outputTokens.isNone ∨ attempt.status ≠ .completed

def NewProviderAttempt.tokens (attempt : NewProviderAttempt) : Nat :=
  attempt.inputTokens.getD 0 + attempt.outputTokens.getD 0

/-- `sum` of a column, which is no `i64` when it overflows. -/
def sumColumn (values : List Nat) : Except StoreError Nat := do
  ensure (values.sum ≤ i64Max) .corrupt
  return values.sum

/-- `EXISTS (SELECT 1 FROM provider_attempts a WHERE a.owner_event_id = …)` -/
def Ledger.paid (ledger : Ledger) (eventId : String) : Bool :=
  ledger.providerAttempts.rows.any (·.ownerEventId = eventId)

/-- `SELECT DISTINCT j.attributed_event_id` of a window. -/
def Ledger.judgedEvents (ledger : Ledger) (since asOf : Int) : List String :=
  ((ledger.judgedWithin since asOf).map (·.1.attributedEventId)).dedup

def Ledger.judgedCohort (ledger : Ledger) (since asOf : Int) : List NewProviderAttempt :=
  ledger.providerAttempts.rows.filter fun attempt =>
    attempt.ownerEventId ∈ ledger.judgedEvents since asOf

def Ledger.usefulTurns (ledger : Ledger) (since asOf : Int) : Nat :=
  distinctCount
    (((ledger.judgedWithin since asOf).filter (·.1.label = .useful)).map (·.1.attributedEventId))

/-- `f64::round` of what is not negative. -/
def rounded (value : ℚ) : Nat := (value + 1 / 2).floor.toNat

def costText (attempts tokens unknownUsage reused useful : Nat) : String :=
  if useful = 0 then "not estimable (0 useful labels in judged cohort)"
  else if attempts = 0 then
    s!"not estimable (judged cohort owns no provider attempt; {reused} judged turn(s) reused"
      ++ " a response paid for elsewhere)"
  else
    let perAttempts := rounded (attempts / useful)
    let perTokens := rounded (tokens / useful)
    s!"pricing configuration absent; {perAttempts} attempts / {perTokens} tokens per useful"
      ++ " suggestion across judged cohort"
      ++ (if unknownUsage > 0 then
          s!"; a lower bound, because {unknownUsage} of those attempts reported no usage"
        else "")
      ++ (if reused > 0 then
          s!"; excludes {reused} judged turn(s) that reused a response paid for elsewhere"
        else "")

/-- The figures of attempts, unless a sum of tokens overflows. -/
def providerMetrics (ledger : Ledger) (since asOf : Int) : Except StoreError ProviderMetrics := do
  let attempts := (ledger.attemptsWithin since asOf).map (·.1)
  let inTokens ← sumColumn (attempts.map fun attempt => attempt.inputTokens.getD 0)
  let outTokens ← sumColumn (attempts.map fun attempt => attempt.outputTokens.getD 0)
  let finishedRankings :=
    (ledger.eventsWithin since asOf).filter fun event =>
      event.decision = .ranked && !event.unfinishedRow
  let cacheServedEvents := finishedRankings.countP fun event => !ledger.paid event.eventId
  let cohort := ledger.judgedCohort since asOf
  let cohortTokens ← sumColumn (cohort.map (·.tokens))
  let reused := (ledger.judgedEvents since asOf).countP fun eventId => !ledger.paid eventId
  let useful := ledger.usefulTurns since asOf
  let unknownUsage := cohort.countP (·.unknownUsage)
  return {
    totalAttempts := attempts.length
    completedAttempts := attempts.countP (·.status = .completed)
    failedAttempts := attempts.countP (·.status = .failed)
    unknownAttempts :=
      attempts.countP fun attempt => attempt.status ≠ .completed ∧ attempt.status ≠ .failed
    knownInputTokens := inTokens
    knownOutputTokens := outTokens
    knownTotalTokens := inTokens + outTokens
    unknownUsageAttempts := attempts.countP (·.unknownUsage)
    cacheServedEvents
    cacheHitRate := rate cacheServedEvents finishedRankings.length
    costPerUsefulSuggestion := costText cohort.length cohortTokens unknownUsage reused useful
    tokensPerUsefulSuggestion :=
      if 0 < useful ∧ 0 < cohort.length then some (cohortTokens / useful) else none
    judgedTurnsServedFromCache := reused
    judgedCohortUnknownUsageAttempts := unknownUsage }

-- Skills

structure SkillStatSummary where
  skillId : String
  top1Recommendations : Nat
  shortlistAppearances : Nat
  observedLoads : Nat
  attributedLoads : Nat
  judgedUseful : Nat
  judgedHarmful : Nat
  judgedNeutral : Nat
deriving DecidableEq, Repr

def skillSummary (ledger : Ledger) (since asOf : Int) (skillId : String) : SkillStatSummary :=
  let candidates :=
    (ledger.candidatesWithin since asOf).filter fun row =>
      row.1.skillId = skillId && row.1.stage = .rerank
  let loads :=
    (ledger.observationsWithin since asOf).filter fun row =>
      row.skillId = skillId && row.evidenceState = .loaded
  let judged := (ledger.judgedWithin since asOf).filter (·.1.skillId = skillId)
  {
    skillId
    top1Recommendations :=
      candidates.countP fun row =>
        row.1.rankPosition = some 1 && row.2.decision = .ranked && row.2.emitted
    shortlistAppearances := candidates.length
    observedLoads := loads.length
    attributedLoads := loads.countP (·.attributedEventId.isSome)
    judgedUseful := labelled .useful judged
    judgedHarmful := labelled .harmful judged
    judgedNeutral := labelled .neutral judged }

def SkillStatSummary.le (left right : SkillStatSummary) : Bool :=
  right.top1Recommendations < left.top1Recommendations
  || (left.top1Recommendations = right.top1Recommendations
    && scoreThenKey (·.shortlistAppearances) (·.skillId) left right)

def skillSet (ledger : Ledger) (since asOf : Int) : List String :=
  ((ledger.candidatesWithin since asOf).map (·.1.skillId)
    ++ (ledger.observationsWithin since asOf).map (·.skillId)
    ++ (ledger.judgedWithin since asOf).map (·.1.skillId)).dedup

def skillSummaries (ledger : Ledger) (since asOf : Int) : List SkillStatSummary :=
  ((skillSet ledger since asOf).map (skillSummary ledger since asOf)).mergeSort SkillStatSummary.le

-- Hook entries

def hookEntrySettleMs : Int := 60000

structure HookEntryReport where
  countedSinceUnixMs : Int
  countedUntilUnixMs : Int
  countedAtEntry : Nat
  recorded : Nat
  nonTurnDeliveries : Nat
  unrecorded : Nat
  counterFull : Bool
  unreadableEntries : Nat
deriving DecidableEq, Repr

structure HookCounters where
  entries : HookFile
  nonTurns : HookFile
deriving DecidableEq

def hookEntrySpan (ledger : Ledger) (counters : HookCounters) (count : HookEntryCount)
    (start til : Int)
    : HookEntryReport :=
  let recorded :=
    (ledger.eventsWithin start til).countP fun event =>
      event.modeChannel = "shadow" ∨ event.modeChannel = "advisory-hook"
  let nonTurns := countHookEntries counters.nonTurns start til
  {
    countedSinceUnixMs := start
    countedUntilUnixMs := til
    countedAtEntry := count.entries
    recorded := if start > til then 0 else recorded
    nonTurnDeliveries := nonTurns.entries
    unrecorded := count.entries - (if start > til then 0 else recorded) - nonTurns.entries
    counterFull := count.full
    unreadableEntries := count.unreadable }

def hookEntryReport (ledger : Ledger) (counters : HookCounters) (since asOf : Int)
    : Option HookEntryReport :=
  let til := saturatingSub64 asOf hookEntrySettleMs
  let count := countHookEntries counters.entries since til
  count.firstEntryUnixMs.map fun firstEntry =>
    hookEntrySpan ledger counters count (max since firstEntry) til

-- The report

structure RetainedStats where
  asOfUnixMs : Int
  cutoffUnixMs : Int
  totalEvents : Nat
  activeEvents : Nat
  expiredEvents : Nat
  activeJudgments : Nat
  activeObservations : Nat
  activeSnapshots : Nat
deriving DecidableEq, Repr

def queryRetainedStats (ledger : Ledger) (asOf : Int) : RetainedStats :=
  let cutoff := saturatingSub64 asOf defaultRetentionMs
  let active := ledger.rankingEvents.rows.filter fun event => !event.before cutoff
  let isActive := fun eventId => active.any (·.eventId = eventId)
  {
    asOfUnixMs := asOf
    cutoffUnixMs := cutoff
    totalEvents := ledger.rankingEvents.rows.length
    activeEvents := active.length
    expiredEvents := ledger.rankingEvents.rows.length - active.length
    activeJudgments :=
      (joinOn (fun judgment event => judgment.attributedEventId = event.eventId)
        ledger.judgments.rows active).length
    activeObservations :=
      ledger.observations.countWhere fun row =>
        match row.attributedEventId with
        | some eventId => isActive eventId
        | none => cutoff ≤ row.observedAtUnixMs
    activeSnapshots := distinctCount (active.filterMap (·.snapshotId)) }

structure StatsValueReport where
  asOfUnixMs : Int
  sinceUnixMs : Int
  turns : TurnMetrics
  latency : LatencySummary
  latencyByChannel : List ChannelLatencySummary
  observations : ObservationMetrics
  judgments : JudgmentMetrics
  provider : ProviderMetrics
  retained : RetainedStats
  bySkill : Option (List SkillStatSummary)
  hookEntries : Option HookEntryReport
deriving DecidableEq, Repr

/-- `query_value_stats`: every query sees the ledger of one read transaction. -/
def queryValueStats (ledger : Ledger) (counters : HookCounters) (since asOf : Int)
    (bySkill : Bool)
    : Except StoreError StatsValueReport := do
  let events := ledger.eventsWithin since asOf
  let turns := turnMetrics events
  let provider ← providerMetrics ledger since asOf
  return {
    asOfUnixMs := asOf
    sinceUnixMs := since
    turns
    latency := latencySummary events
    latencyByChannel := latencyByChannel events
    observations := observationMetrics ledger since asOf turns.emittedSuggestions
    judgments := judgmentMetrics (ledger.judgedWithin since asOf) turns.emittedSuggestions
    provider
    retained := queryRetainedStats ledger asOf
    bySkill := if bySkill then some (skillSummaries ledger since asOf) else none
    hookEntries := hookEntryReport ledger counters since asOf }

end SkillRanker.Storage
