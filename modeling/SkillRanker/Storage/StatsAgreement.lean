import SkillRanker.Library.Totals
import SkillRanker.Storage.Stats

/-! The figures of a value report agree with each other: its parts add up to its totals, and no part
of a rate exceeds the whole.
-/

namespace SkillRanker.Storage
open SkillRanker.Library

-- Agreement

structure PartsAddUp (turns : TurnMetrics) : Prop where
  evaluated : (turns.byChannel.map (·.evaluatedTurns)).sum = turns.totalEvaluated
  emitted : (turns.byChannel.map (·.emitted)).sum = turns.emittedSuggestions
  abstain : (turns.byChannel.map (·.abstain)).sum = turns.validAbstentions
  muted : (turns.byChannel.map (·.muted)).sum = turns.mutedOrSuppressed
  unavailable : (turns.byChannel.map (·.unavailable)).sum = turns.operationalFailures
  inFlight : (turns.byChannel.map (·.inFlightOrKilled)).sum = turns.inFlightOrKilled
  causes : (turns.failureCauses.map (·.count)).sum = turns.operationalFailures

/-- The turns without an outcome are counted by what they are, none of them twice. -/
structure Separates (events : List NewRankingEvent) (turns : TurnMetrics) : Prop where
  failed : turns.operationalFailures = events.countP (·.failedRow)
  unfinished : turns.inFlightOrKilled = events.countP (·.unfinishedRow)
  apart : ∀ event ∈ events, ¬ (event.failedRow = true ∧ event.unfinishedRow = true)
  together
    : turns.operationalFailures + turns.inFlightOrKilled
      = events.countP (·.decision = .unavailable)

def LatencySummary.figures (summary : LatencySummary) : List Nat :=
  [summary.medianMs, summary.p95Ms, summary.p99Ms, summary.minMs, summary.maxMs]

/-- A summary of the turns that finished, which says how many others there are. -/
structure Summarizes (events : List NewRankingEvent) (summary : LatencySummary) : Prop where
  samples
    : ∃ samples : List Nat,
        samples.Pairwise (· ≤ ·)
        ∧ samples.Perm ((events.filter fun event => !event.unfinishedRow).map (·.elapsedMs))
        ∧ summary = .fromSortedSamples samples (events.countP (·.unfinishedRow))
  finished
    : 0 < summary.measuredTurns → ∀ figure ∈ summary.figures,
      ∃ event ∈ events, event.unfinishedRow = false ∧ event.elapsedMs = figure
  total : summary.measuredTurns + summary.excludedUnfinished = events.length

def Ledger.Judged (ledger : Ledger) (since asOf : Int) (eventId : String) : Prop :=
  ∃ event ∈ ledger.eventsWithin since asOf, event.eventId = eventId
  ∧ ∃ judgment ∈ ledger.judgments.rows, judgment.attributedEventId = eventId

def tokensOf (attempts : List NewProviderAttempt) : Nat := (attempts.map (·.tokens)).sum

/-- The figures of judged turns are over attempts that are each listed once, whatever judgments there
are of their turn.
-/
structure CountsOnce (ledger : Ledger) (since asOf : Int) (cohort : List NewProviderAttempt)
    (provider : ProviderMetrics)
    : Prop where
  distinct : (cohort.map (·.attemptId)).Nodup
  members
    : ∀ attempt, attempt ∈ cohort
      ↔ attempt ∈ ledger.providerAttempts.rows ∧ ledger.Judged since asOf attempt.ownerEventId
  unknownUsage : provider.judgedCohortUnknownUsageAttempts = cohort.countP (·.unknownUsage)
  tokens
    : provider.tokensPerUsefulSuggestion
      = if 0 < ledger.usefulTurns since asOf ∧ 0 < cohort.length then
          some ((tokensOf cohort : ℚ) / ledger.usefulTurns since asOf)
        else none
  cost
    : provider.costPerUsefulSuggestion
      = costText cohort.length (tokensOf cohort) (cohort.countP (·.unknownUsage))
        provider.judgedTurnsServedFromCache (ledger.usefulTurns since asOf)

def StatsValueReport.rates (report : StatsValueReport) : List (Option ℚ) :=
  [report.observations.observationCoverage, report.observations.suggestionAdoptionRate,
    report.judgments.labelCoverageRate, report.judgments.usefulRatioInJudged,
    report.provider.cacheHitRate]

/-- The report of a window agrees with itself and with the ledger it is made from. -/
structure Agrees (ledger : Ledger) (since asOf : Int) (report : StatsValueReport) : Prop where
  parts : PartsAddUp report.turns
  total : report.turns.totalEvaluated = (ledger.eventsWithin since asOf).length
  separate : Separates (ledger.eventsWithin since asOf) report.turns
  latency : Summarizes (ledger.eventsWithin since asOf) report.latency
  channels : report.latencyByChannel.map (·.channel) = report.turns.byChannel.map (·.channel)
  channelLatency
    : ∀ summary ∈ report.latencyByChannel,
      Summarizes
        ((ledger.eventsWithin since asOf).filter (·.modeChannel = summary.channel))
        summary.latency
  cohort : ∃ cohort, CountsOnce ledger since asOf cohort report.provider
  rates : ∀ share, some share ∈ report.rates → 0 ≤ share ∧ share ≤ 1

variable {ledger : Ledger} {since asOf : Int} {events : List NewRankingEvent}

-- Turns

variable (events)

theorem turnMetrics_addUp : PartsAddUp (turnMetrics events) := by
  constructor
  all_goals
    simp only [turnMetrics, List.map_map, Function.comp_def, ChannelStats.of]
  · exact sum_length_groupEntries events
  · exact sum_countP_groupEntries _ events
  · exact sum_countP_groupEntries _ events
  · exact sum_countP_groupEntries _ events
  · exact sum_countP_groupEntries _ events
  · exact sum_countP_groupEntries _ events
  · rw [((List.mergeSort_perm _ _).map _).sum_eq, List.map_map]
    exact (sum_length_groupEntries _).trans List.countP_eq_length_filter.symm

/-- A turn that never came back is no failure. -/
theorem NewRankingEvent.not_failedRow {event : NewRankingEvent}
    (unfinished : event.unfinishedRow = true)
    : event.failedRow = false := by
  simp [failedRow, unfinished]

/-- A turn without an outcome has failed or never came back. -/
theorem NewRankingEvent.unavailable_iff (event : NewRankingEvent)
    : event.decision = .unavailable
      ↔ event.failedRow = true ∨ event.unfinishedRow = true := by
  constructor
  · intro unavailable
    cases known : event.unfinishedRow with
    | false => exact Or.inl (by simp [failedRow, unavailable, known])
    | true => exact Or.inr rfl
  · rintro (failed | unfinished)
    · exact (of_decide_eq_true failed).1
    · exact (of_decide_eq_true unfinished).1

/-- Conditions that exclude each other are counted one by one, by induction on the items. -/
theorem countP_add_countP {Item : Type} {one two either : Item → Bool} {items : List Item}
    (apart : ∀ item ∈ items, ¬ (one item = true ∧ two item = true))
    (covers : ∀ item ∈ items, either item = (one item || two item))
    : items.countP one + items.countP two = items.countP either := by
  induction items with
  | nil => rfl
  | cons item rest ih =>
      have tail := ih (fun other mem => apart other (List.mem_cons_of_mem _ mem))
        fun other mem => covers other (List.mem_cons_of_mem _ mem)
      have here := apart item List.mem_cons_self
      rw [List.countP_cons, List.countP_cons, List.countP_cons,
        covers item List.mem_cons_self, ← tail]
      cases first : one item <;> cases second : two item <;> simp_all <;> omega

theorem turnMetrics_separates
    : Separates events (turnMetrics events) := by
  have apart (event : NewRankingEvent) (_ : event ∈ events)
      : ¬ (event.failedRow = true ∧ event.unfinishedRow = true) := by
    rintro ⟨failed, unfinished⟩
    rw [NewRankingEvent.not_failedRow unfinished] at failed
    cases failed
  refine ⟨rfl, rfl, apart, ?_⟩
  refine countP_add_countP apart fun event _ => ?_
  rw [Bool.eq_iff_iff, decide_eq_true_iff, Bool.or_eq_true]
  exact event.unavailable_iff

variable {events}

-- Latencies

theorem LatencySummary.figures_mem {samples : List Nat} {excluded : Nat}
    (some : 0 < samples.length) {figure : Nat}
    (listed : figure ∈ (fromSortedSamples samples excluded).figures)
    : figure ∈ samples := by
  have sampled (position : Nat) (inside : position < samples.length)
      : samples.getD position 0 ∈ samples := by
    rw [List.getD_eq_getElem?_getD, List.getElem?_eq_getElem inside]
    exact List.getElem_mem inside
  have first : samples.headD 0 ∈ samples := by
    cases samples with
    | nil => simp at some
    | cons head rest => exact List.mem_cons_self
  have last : samples.getLastD 0 ∈ samples := by
    cases samples with
    | nil => simp at some
    | cons head rest =>
        rw [List.getLastD_cons]
        exact List.getLastD_mem_cons
  simp only [figures, fromSortedSamples, List.mem_cons, List.not_mem_nil, or_false] at listed
  rcases listed with rfl | rfl | rfl | rfl | rfl
  · exact sampled _ (by omega)
  · exact sampled _ (by omega)
  · exact sampled _ (by omega)
  · exact first
  · exact last

/-- Rows in the order of their durations are summarized, whatever order they had. -/
theorem summarizes_of_perm {rows : List NewRankingEvent} (same : rows.Perm events)
    (sorted : rows.Pairwise fun left right => left.elapsedMs ≤ right.elapsedMs)
    : Summarizes events
      (.fromSortedSamples (latencySamples rows) (rows.countP (·.unfinishedRow))) := by
  have kept : (latencySamples rows).Perm (latencySamples events) := (same.filter _).map _
  have ordered : (latencySamples rows).Pairwise (· ≤ ·) :=
    List.pairwise_map.mpr (sorted.filter _)
  refine ⟨⟨latencySamples rows, ordered, kept, by rw [same.countP_eq]⟩, ?_, ?_⟩
  · intro measured figure listed
    have mem := kept.mem_iff.mp (LatencySummary.figures_mem measured listed)
    obtain ⟨event, kept, rfl⟩ := List.mem_map.mp mem
    obtain ⟨mem, finished⟩ := List.mem_filter.mp kept
    exact ⟨event, mem, by simpa using finished, rfl⟩
  · change (latencySamples rows).length + rows.countP (·.unfinishedRow) = events.length
    rw [← same.length_eq, latencySamples, List.length_map, ← List.countP_eq_length_filter]
    have split := List.length_eq_countP_add_countP (l := rows) (·.unfinishedRow)
    simp only [Bool.not_eq_true, Bool.decide_eq_false] at split
    omega

variable (events)

theorem latencyRows_sorted
    : (latencyRows events).Pairwise fun left right => left.elapsedMs ≤ right.elapsedMs := by
  have sorted := @List.pairwise_mergeSort _
    (fun left right : NewRankingEvent => decide (left.elapsedMs ≤ right.elapsedMs))
    (fun one two three first second => by
      simp only [decide_eq_true_eq] at *
      omega)
    (fun one two => by
      simp only [Bool.or_eq_true, decide_eq_true_eq]
      omega) events
  exact sorted.imp fun below => by simpa using below

theorem latencyRows_perm : (latencyRows events).Perm events :=
  List.mergeSort_perm _ _

variable {events}

theorem latencyByChannel_summarizes {summary : ChannelLatencySummary}
    (listed : summary ∈ latencyByChannel events)
    : Summarizes (events.filter (·.modeChannel = summary.channel)) summary.latency := by
  obtain ⟨⟨channel, group⟩, grouped, rfl⟩ := List.mem_map.mp listed
  obtain ⟨rfl, _⟩ := mem_groupEntries.mp grouped
  exact summarizes_of_perm ((latencyRows_perm events).filter _)
    ((latencyRows_sorted events).filter _)

theorem channels_eq (events : List NewRankingEvent)
    : (latencyByChannel events).map (·.channel)
      = (turnMetrics events).byChannel.map (·.channel) := by
  simp only [latencyByChannel, turnMetrics, List.map_map, Function.comp_def, ChannelStats.of]
  refine (groupEntries_ordered _).keys_eq (groupEntries_ordered _) fun channel => ?_
  rw [mem_keys_groupEntries, mem_keys_groupEntries]
  exact ((latencyRows_perm events).map _).mem_iff

-- Rates

theorem distinctCount_le_emitted {eventIds : List String}
    (among : ∀ eventId ∈ eventIds, ∃ event ∈ events, event.emitted = true ∧ event.eventId = eventId)
    : distinctCount eventIds ≤ events.countP (·.emitted) := by
  have counted : distinctCount eventIds
      ≤ ((events.filter (·.emitted)).map (·.eventId)).length := by
    refine distinctCount_le fun eventId mem => ?_
    obtain ⟨event, listed, emitted, rfl⟩ := among eventId mem
    exact List.mem_map_of_mem (List.mem_filter.mpr ⟨listed, emitted⟩)
  rwa [List.length_map, ← List.countP_eq_length_filter] at counted

theorem adoptedSuggestions_le (ledger : Ledger) (since asOf : Int)
    : adoptedSuggestions ledger since asOf
      ≤ (ledger.eventsWithin since asOf).countP (·.emitted) := by
  refine distinctCount_le_emitted fun eventId mem => ?_
  obtain ⟨⟨observation, event, candidate⟩, listed, rfl⟩ := List.mem_map.mp mem
  obtain ⟨_, offered, adopts⟩ := mem_joinOn.mp listed
  have emitted : event.emitted = true := by
    simp only [SkillRanker.Storage.adopts, Bool.and_eq_true] at adopts
    tauto
  exact ⟨event, (mem_joinOn.mp offered).1, emitted, rfl⟩

theorem judgedEmissions_le (ledger : Ledger) (since asOf : Int)
    : distinctCount
        (((ledger.judgedWithin since asOf).filter (·.2.emitted)).map (·.2.eventId))
      ≤ (ledger.eventsWithin since asOf).countP (·.emitted) := by
  refine distinctCount_le_emitted fun eventId mem => ?_
  obtain ⟨⟨judgment, event⟩, listed, rfl⟩ := List.mem_map.mp mem
  obtain ⟨joined, emitted⟩ := List.mem_filter.mp listed
  exact ⟨event, (mem_joinOn.mp joined).2.1, emitted, rfl⟩

theorem observationMetrics_rates (ledger : Ledger) (since asOf : Int) {share : ℚ}
    {emitted : Nat} (counted : emitted = (ledger.eventsWithin since asOf).countP (·.emitted))
    : (some share = (observationMetrics ledger since asOf emitted).observationCoverage
        → 0 ≤ share ∧ share ≤ 1)
      ∧ (some share = (observationMetrics ledger since asOf emitted).suggestionAdoptionRate
        → 0 ≤ share ∧ share ≤ 1) := by
  refine ⟨fun known => rate_bounds ?_ known.symm, fun known => rate_bounds ?_ known.symm⟩
  · exact List.countP_mono_left fun row _ both => decide_eq_true (of_decide_eq_true both).1
  · rw [counted]
    exact adoptedSuggestions_le ledger since asOf

-- Attempts

theorem mem_judgedEvents {eventId : String}
    : eventId ∈ ledger.judgedEvents since asOf ↔ ledger.Judged since asOf eventId := by
  unfold Ledger.judgedEvents Ledger.Judged
  rw [List.mem_dedup, List.mem_map]
  constructor
  · rintro ⟨⟨judgment, event⟩, listed, rfl⟩
    obtain ⟨judged, mem, same⟩ := mem_joinOn.mp listed
    exact ⟨event, mem, (of_decide_eq_true same).symm, judgment, judged, rfl⟩
  · rintro ⟨event, mem, same, judgment, judged, rfl⟩
    exact ⟨(judgment, event), mem_joinOn.mpr ⟨judged, mem, decide_eq_true same.symm⟩, rfl⟩

theorem sumColumn_eq_ok {values : List Nat} {total : Nat}
    : sumColumn values = .ok total ↔ values.sum ≤ i64Max ∧ values.sum = total := by
  simp [sumColumn]

/-- The figures of attempts are answered from the cohort of judged turns. -/
theorem providerMetrics_spec {provider : ProviderMetrics}
    (answered : providerMetrics ledger since asOf = .ok provider)
    : CountsOnce ledger since asOf (ledger.judgedCohort since asOf) provider
      ∧ ∀ share, some share = provider.cacheHitRate → 0 ≤ share ∧ share ≤ 1 := by
  simp only [providerMetrics, bind_eq_ok, sumColumn_eq_ok] at answered
  obtain ⟨inTokens, _, outTokens, _, tokens, ⟨_, rfl⟩, returned⟩ := answered
  cases returned
  constructor
  · constructor
    · exact ledger.providerAttempts.distinct.sublist (List.filter_sublist.map _)
    · intro attempt
      rw [Ledger.judgedCohort, List.mem_filter, decide_eq_true_iff, mem_judgedEvents]
    · rfl
    · rfl
    · rfl
  · intro share known
    exact rate_bounds List.countP_le_length known.symm

-- The report

/-- Every report agrees with itself and with its ledger. -/
theorem queryValueStats_agrees (ledger : Ledger) (counters : HookCounters) (since asOf : Int)
    (bySkill : Bool) (report : StatsValueReport)
    (answered : queryValueStats ledger counters since asOf bySkill = .ok report)
    : Agrees ledger since asOf report := by
  simp only [queryValueStats, bind_eq_ok] at answered
  obtain ⟨provider, attempts, returned⟩ := answered
  cases returned
  obtain ⟨cohort, cacheHits⟩ := providerMetrics_spec attempts
  constructor
  · exact turnMetrics_addUp _
  · rfl
  · exact turnMetrics_separates _
  · have same := latencyRows_perm (ledger.eventsWithin since asOf)
    have summary := summarizes_of_perm same (latencyRows_sorted _)
    rwa [same.countP_eq] at summary
  · exact channels_eq _
  · intro summary listed
    exact latencyByChannel_summarizes listed
  · exact ⟨_, cohort⟩
  · intro share listed
    have observed := @observationMetrics_rates ledger since asOf share _ rfl
    simp only [StatsValueReport.rates, List.mem_cons, List.not_mem_nil, or_false] at listed
    rcases listed with coverage | adoption | labels | useful | hits
    · exact observed.1 coverage
    · exact observed.2 adoption
    · exact rate_bounds (judgedEmissions_le ledger since asOf) labels.symm
    · exact rate_bounds List.countP_le_length useful.symm
    · exact cacheHits share hits

def turn (eventId : String) (decision : DecisionKind) (exposureState : ExposureState)
    : NewRankingEvent where
  eventId := eventId
  verifiedDeliveryKey := none
  workspaceRoot := "workspace"
  sessionId := "session"
  agentBranch := "branch"
  modeChannel := "advisory-hook"
  policyVersion := "policy"
  schemaVersion := 1
  decision := decision
  reason := inFlightReason
  exposureState := exposureState
  elapsedMs := 7
  createdAtUnixMs := 5
  inputTokens := none
  outputTokens := none
  snapshotId := none

def turnJudgment (judgmentId : String) : NewJudgment where
  judgmentId := judgmentId
  attributedEventId := "emitted"
  skillId := "skill"
  label := .useful
  labelVersion := 1
  provenance := "user"
  createdAtUnixMs := 6

def turnAttempt : NewProviderAttempt where
  attemptId := "attempt"
  ownerEventId := "emitted"
  stage := .wide
  requestFingerprint := "fingerprint"
  admittedAtUnixMs := 5
  sentAtUnixMs := some 5
  completedAtUnixMs := some 6
  status := .completed
  inputTokens := some 90
  outputTokens := some 10
  httpStatus := some 200
  errorKind := none

/-- A ledger in which one turn has been judged twice and another never came back. -/
def judgedTwice : Ledger :=
  { Ledger.initial [] with
    rankingEvents :=
      {
        rows := [turn "emitted" .ranked .emitted, turn "started" .unavailable .generated]
        distinct := by decide }
    judgments :=
      { rows := [turnJudgment "first", turnJudgment "second"], distinct := by decide }
    providerAttempts := { rows := [turnAttempt], distinct := by decide } }

/-- The attempt of a turn judged twice is counted once, and the turn that never came back is neither
a failure nor a latency.
-/
theorem judgedTwice_agrees
    : ∃ report,
        queryValueStats judgedTwice { entries := none, nonTurns := none } 0 10 false = .ok report
        ∧ Agrees judgedTwice 0 10 report
        ∧ report.judgments.totalJudgments = 2
        ∧ (judgedTwice.judgedCohort 0 10).length = 1
        ∧ report.turns.operationalFailures = 0
        ∧ report.turns.inFlightOrKilled = 1
        ∧ report.latency.excludedUnfinished = 1 := by
  refine ⟨_, rfl, queryValueStats_agrees _ _ _ _ _ _ rfl, ?_, ?_, ?_, ?_, ?_⟩
  all_goals decide +kernel

end SkillRanker.Storage
