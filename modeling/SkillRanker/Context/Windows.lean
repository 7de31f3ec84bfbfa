import SkillRanker.Context.Budgets
import SkillRanker.Context.OutlinedBranches

/-! What a rendered context holds: the newest messages within their budgets, and a receipt that
accounts for every event.
-/

namespace SkillRanker.Context

open SkillRanker.Library SkillRanker.Privacy

variable (scanner : Scanner) (readObject : ObjectReader) (options : RenderContextOptions)
variable {candidate : Candidate} {message : RenderedMessage}

def messageOf (event : NormalizedEvent) : Option RenderedMessage :=
  match (candidateOf scanner readObject options event).run with
  | some (.ok candidate) => candidate.message
  | _ => none

def renderedMessages (context : NormalizedContext) : List RenderedMessage :=
  (renderable options context).filterMap (messageOf scanner readObject options)

variable {scanner readObject options} {context : NormalizedContext} {event : NormalizedEvent}

-- Candidates

structure MessageFor (event : NormalizedEvent) (message : RenderedMessage) : Prop where
  single : message.Single
  tool : message.isTool = countsAsTool event
  text : (!message.isTool) = countsAsMessage event

theorem toolCandidate_message {tool : ToolEvent}
    (done : toolCandidate scanner readObject options tool = returned (.ok candidate))
    (has : candidate.message = some message)
    : message.text = none ∧ message.role = "tool" := by
  obtain ⟨arguments, _, done⟩ := bind_eq_returned.mp done
  obtain ⟨result, _, done⟩ := bind_eq_returned.mp done
  cases done
  cases has
  exact ⟨rfl, rfl⟩

theorem textCandidate_message
    (done : textCandidate scanner options event = returned (.ok candidate))
    (has : candidate.message = some message)
    : message.summary = none ∧ message.role = Role.text event.role := by
  unfold textCandidate at done
  dsimp only at done
  split at done
  · cases done
    cases has
  · obtain ⟨field, _, done⟩ := bind_eq_returned.mp done
    split at done
    · cases done
      cases has
    · cases done
      cases has
      exact ⟨rfl, rfl⟩

theorem isTool_of_role {role : Role} (is : message.role = Role.text role)
    : message.isTool = decide (role = .tool) := by
  unfold RenderedMessage.isTool
  rw [is]
  cases role <;> decide +kernel

theorem candidateOf_message
    (done : candidateOf scanner readObject options event = returned (.ok candidate))
    (has : candidate.message = some message)
    : MessageFor event message := by
  have ofTool (kind : isToolEvent event = true) {tool : ToolEvent}
      (done
        : (if options.noTools = true then pure (Candidate.dropped 0)
            else toolCandidate scanner readObject options tool) = returned (.ok candidate))
      : MessageFor event message := by
    split at done
    · cases done
      cases has
    · obtain ⟨noText, role⟩ := toolCandidate_message done has
      have isTool : message.isTool = true := decide_eq_true role
      refine ⟨.inl noText, ?_, ?_⟩
      · rw [isTool, countsAsTool, kind]
        rfl
      · rw [isTool, countsAsMessage]
        unfold isToolEvent at kind
        cases is : event.kind <;> rw [is] at kind <;> first | rfl | cases kind
  unfold candidateOf at done
  split at done
  next kind =>
      split at done
      · exact ofTool (by rw [isToolEvent, kind]; rfl) done
      · cases done
        cases has
  next kind =>
      split at done
      · exact ofTool (by rw [isToolEvent, kind]; rfl) done
      · cases done
        cases has
  next kind =>
      split at done
      · cases done
        cases has
      · obtain ⟨noSummary, role⟩ := textCandidate_message done has
        have isTool := isTool_of_role role
        refine ⟨.inr noSummary, ?_, ?_⟩
        · rw [isTool, countsAsTool, isToolEvent, kind]
          rfl
        · rw [isTool, countsAsMessage, kind]
          simp
  all_goals
    cases done
    cases has

theorem messageOf_message (has : messageOf scanner readObject options event = some message)
    : MessageFor event message := by
  unfold messageOf at has
  split at has
  next candidate done => exact candidateOf_message done has
  · cases has

/-- The messages of candidates are those of their events, by induction on the events. -/
theorem filterMap_message {events : List NormalizedEvent} {candidates : List Candidate}
    (done : events.mapM (candidateOf scanner readObject options) = returned (.ok candidates))
    : candidates.filterMap Candidate.message
      = events.filterMap (messageOf scanner readObject options) := by
  induction events generalizing candidates with
  | nil =>
      cases done
      rfl
  | cons event rest ih =>
      rw [List.mapM_cons] at done
      obtain ⟨candidate, first, done⟩ := bind_eq_returned.mp done
      obtain ⟨others, later, done⟩ := bind_eq_returned.mp done
      cases done
      have message : messageOf scanner readObject options event = candidate.message := by
        unfold messageOf
        rw [first]
        rfl
      rw [List.filterMap_cons, List.filterMap_cons, message, ih later]

theorem of_mem_renderedMessages
    (mem : message ∈ renderedMessages scanner readObject options context)
    : message.Single := by
  obtain ⟨event, _, has⟩ := List.mem_filterMap.mp mem
  exact (messageOf_message has).single

variable {kinds : NormalizedEvent → Bool}

/-- No more messages of a kind are rendered than there are events of the kind. -/
theorem countP_renderedMessages_le {counts : RenderedMessage → Bool}
    (same : ∀ event message, MessageFor event message → counts message = kinds event)
    : (renderedMessages scanner readObject options context).countP counts
      ≤ (context.events.filter fun event => !context.namesCurrent event).countP kinds := by
  have fewer : (renderable options context).countP kinds
      ≤ (context.events.filter fun event => !context.namesCurrent event).countP kinds := by
    unfold renderable
    split
    · exact Nat.zero_le _
    · exact le_rfl
  refine le_trans ?_ fewer
  unfold renderedMessages
  rw [List.countP_filterMap]
  refine List.countP_mono_left fun event _ counted => ?_
  cases has : messageOf scanner readObject options event with
  | none => simp [has] at counted
  | some message =>
      rw [has] at counted
      rw [← same event message (messageOf_message has)]
      simpa using counted

-- The payload

structure PartsWithin (scanner : Scanner) (readObject : ObjectReader)
    (options : RenderContextOptions) (context : NormalizedContext) (parts : PayloadParts)
    : Prop where
  request
    : redacted scanner options (sanitizeMediaData scanner context.currentRequest.text.toList)
        = returned (.ok parts.field)
      ∧ headTailTruncate parts.field.text options.maxTotalScalars = some parts.request
  scalars
    : parts.request.length + (parts.filled.messages.map RenderedMessage.scalars).sum
      ≤ options.maxTotalScalars
  few : parts.filled.messages.length ≤ options.maxMessages
  newest
    : NewestSuffix (options.maxTotalScalars - parts.field.text.length)
        (renderedMessages scanner readObject options context) parts.filled.messages

variable {parts : PayloadParts}

theorem gatherParts_within
    (gathered : gatherParts scanner readObject options context = returned (.ok parts))
    : PartsWithin scanner readObject options context parts := by
  obtain ⟨_, _, gathered⟩ := bind_eq_returned.mp gathered
  obtain ⟨field, clean, gathered⟩ := bind_eq_returned.mp gathered
  obtain ⟨request, cut, gathered⟩ := bind_eq_returned.mp gathered
  obtain ⟨found, rendered, gathered⟩ := bind_eq_returned.mp gathered
  obtain ⟨filled, done, gathered⟩ := bind_eq_returned.mp gathered
  obtain ⟨signals, _, gathered⟩ := bind_eq_returned.mp gathered
  cases gathered
  have messages : found.filterMap Candidate.message
      = renderedMessages scanner readObject options context := filterMap_message rendered
  rw [messages] at done
  have cut := present_eq_returned.mp cut
  have older := List.take_append_drop
    ((renderedMessages scanner readObject options context).length - options.maxMessages)
    (renderedMessages scanner readObject options context)
  have single : ∀ message ∈ (windowed options
      (renderedMessages scanner readObject options context)).reverse, message.Single := by
    intro message mem
    exact of_mem_renderedMessages (List.mem_of_mem_drop (List.mem_reverse.mp mem))
  obtain ⟨within, suffix⟩ := fill_spec single done
  rw [List.reverse_reverse] at suffix
  refine ⟨⟨clean, cut⟩, ?_, ?_, ?_⟩
  · have short := length_headTailTruncate_le cut
    have whole : field.text.length ≤ options.maxTotalScalars
        → request.length ≤ field.text.length := by
      intro fits
      unfold headTailTruncate at cut
      rw [if_pos fits] at cut
      rw [Option.some.inj cut]
    dsimp only
    omega
  · have few := suffix.length_le
    unfold windowed at few
    rw [List.length_drop] at few
    dsimp only
    omega
  · have behind := suffix.behind ((renderedMessages scanner readObject options context).take
      ((renderedMessages scanner readObject options context).length - options.maxMessages))
    rwa [windowed, older] at behind

/-- The messages of a kind and those left out are the events of the kind. -/
theorem PartsWithin.accounts (within : PartsWithin scanner readObject options context parts)
    (counts : RenderedMessage → Bool)
    (same : ∀ event message, MessageFor event message → counts message = kinds event)
    (reads : ∀ message short, CutOf message short → counts short = counts message)
    : parts.filled.messages.countP counts
      ≤ (context.events.filter fun event => !context.namesCurrent event).countP kinds :=
  (within.newest.countP_le reads).trans (countP_renderedMessages_le same)

-- The rendered context

/-- What a rendered context holds.
The recent messages are the newest of the messages that the selected history is rendered to, and the
receipt accounts for each message and each event of tools other than the current request.
-/
structure WithinWindow (scanner : Scanner) (readObject : ObjectReader)
    (options : RenderContextOptions) (context : NormalizedContext) (history : List NormalizedEvent)
    (payload : RenderedContextPayload) (receipt : DisclosureReceipt)
    : Prop where
  scalars : payload.totalMessageScalars ≤ options.maxTotalScalars
  session : payload.sessionState.scalars ≤ sessionStateScalars
  few : payload.recentMessages.length ≤ options.maxMessages
  request
    : ∃ field,
        redacted scanner options (sanitizeMediaData scanner context.currentRequest.text.toList)
          = returned (.ok field)
        ∧ (payload.latestUserRequest ≠ field.text → options.maxTotalScalars < field.text.length)
        ∧ ∃ labels,
            prepareLabels scanner options history = returned (.ok labels)
            ∧ NewestSuffix (options.maxTotalScalars - field.text.length)
                (renderedMessages scanner readObject options
                  { context with events := labels.events })
                payload.recentMessages
  chronological : NormalizedContext.Chronological context history
  unrepeated : ∀ event ∈ history, context.namesCurrent event = false
  messages
    : ∃ entry,
        receipt.category .messageHistory = some entry
        ∧ entry.includedCount + entry.omittedCount = context.others.countP countsAsMessage
  tools
    : ∃ entry,
        receipt.category .toolEvents = some entry
        ∧ entry.includedCount + entry.omittedCount = context.others.countP countsAsTool
  accepted : receipt.verifyAgainstPayload payload = .ok ()

/-- The events of a kind that a history has, counted behind the preparation of its labels. -/
theorem NormalizedContext.Selected.countP_labels {history : List NormalizedEvent} {labels : Labels}
    (selected : NormalizedContext.Selected context history)
    (prepared : prepareLabels scanner options history = returned (.ok labels))
    {counts : NormalizedEvent → Bool} (reads : ∀ event, counts event.outline = counts event)
    : (labels.events.filter fun event => !context.namesCurrent event).countP counts
      = history.countP counts := by
  have outlines := filter_of_outlines (fun event => !context.namesCurrent event) (fun _ => rfl)
    (prepareLabels_outline prepared)
  have whole : (history.filter fun event => !context.namesCurrent event) = history := by
    refine List.filter_eq_self.mpr fun event mem => ?_
    rw [selected.earlier event mem]
    rfl
  rw [countP_of_outlines reads outlines, whole]

namespace RenderedBy

variable {fuel : Nat} {steps : RenderingSteps} {payload : RenderedContextPayload}
  {receipt : DisclosureReceipt}

section

variable (rendered : RenderedBy scanner readObject options context fuel steps payload receipt)
include rendered

/-- The last step changes nothing of a payload but its quality. -/
theorem payload_eq
    : payload = { steps.draftPayload context with contextQuality := payload.contextQuality } := by
  rw [rendered.payload, RenderingSteps.payload]
  split <;> rfl

theorem complete
    : Complete receipt (steps.entry context) := by
  obtain ⟨⟨_, _, _, _, draft⟩, _⟩ := withTotals_spec rendered.draft
  obtain ⟨⟨_, _, _, _, categories⟩, _⟩ := withTotals_spec rendered.receipt
  obtain ⟨_, session, _, _⟩ := prepareSession_spec rendered.session
  refine ⟨?_, fun category => ?_⟩
  · rw [categories]
    change steps.draft.categories.map _ = _
    rw [draft]
    exact List.map_map
  · cases category
    · rfl
    · rfl
    · rfl
    · rfl
    · exact session

theorem items (category : SourceCategory)
    : (steps.entry context category).includedCount = itemsOf payload category := by
  rw [rendered.payload_eq]
  obtain ⟨_, _, included, _⟩ := prepareSession_spec rendered.session
  cases category
  · rfl
  · rfl
  · rfl
  · rfl
  · exact included

theorem verified
    : receipt.verifyAgainstPayload payload = .ok () := by
  obtain ⟨⟨draftProfile, _, _, draftScalars, _⟩, _⟩ := withTotals_spec rendered.draft
  obtain ⟨⟨profile, quality, bytes, scalars, _⟩, _⟩ := withTotals_spec rendered.receipt
  refine verifyAgainstPayload_of_complete rendered.complete ?_ ?_ ?_ ?_ rendered.items
    rendered.receipt
  · rw [profile, rendered.payload_eq]
    exact draftProfile
  · rw [quality, rendered.payload]
    rfl
  · rw [bytes, rendered.payload]
    rfl
  · rw [scalars, rendered.payload_eq]
    exact draftScalars

end

end RenderedBy

/-- What is included and what two layers leave out are all of the events of a kind. -/
theorem accounted {included earlier history others : Nat} (shown : included ≤ earlier)
    (same : earlier = history) (selected : history ≤ others)
    : included + (earlier - included + (others - history)) = others := by
  omega

/-- A rendered context is within its window, and its receipt accounts for the envelope. -/
theorem renderContextAndReceipt_withinWindow {fuel : Nat} {payload : RenderedContextPayload}
    {receipt : DisclosureReceipt}
    (rendered
      : renderContextAndReceipt scanner readObject options context fuel
        = returned (.ok (payload, receipt)))
    : ∃ history incomplete,
        context.select fuel = returned (.ok (history, incomplete))
        ∧ WithinWindow scanner readObject options context history payload receipt := by
  obtain ⟨steps, rendered⟩ := renderedBy_steps rendered
  have selected := NormalizedContext.select_spec rendered.history
  have within := gatherParts_within rendered.parts
  obtain ⟨sessionFits, _, _, prepared⟩ := prepareSession_spec rendered.session
  have payload := rendered.payload_eq
  have maxTotal : steps.prepared.maxTotalScalars = options.maxTotalScalars := by rw [prepared]
  have maxMessages : steps.prepared.maxMessages = options.maxMessages := by rw [prepared]
  have messagesCounted := within.accounts (fun message => !message.isTool)
    (fun _ _ message => message.text) fun _ _ cut => by rw [NewestSuffix.isTool_of_cutOf cut]
  have toolsCounted := within.accounts RenderedMessage.isTool
    (fun _ _ message => message.tool) fun _ _ cut => NewestSuffix.isTool_of_cutOf cut
  have earlierMessages := selected.countP_labels rendered.labels countsAsMessage_outline
  have earlierTools := selected.countP_labels rendered.labels countsAsTool_outline
  have fewerMessages := selected.others.countP_le countsAsMessage
  have fewerTools := selected.others.countP_le countsAsTool
  obtain ⟨clean, cut⟩ := within.request
  refine ⟨steps.history, steps.chainIncomplete, rendered.history, ?_⟩
  exact {
    scalars := by
      rw [payload, ← maxTotal]
      exact within.scalars
    session := by
      rw [payload]
      exact sessionFits
    few := by
      rw [payload, ← maxMessages]
      exact within.few
    request := by
      refine ⟨steps.parts.field, ?_, ?_, steps.labels, rendered.labels, ?_⟩
      · rw [prepared] at clean
        exact clean
      · intro differs
        by_contra fits
        unfold headTailTruncate at cut
        rw [if_pos (by omega)] at cut
        rw [payload] at differs
        exact differs (Option.some.inj cut).symm
      · have newest := within.newest
        rw [prepared] at newest
        rw [payload]
        exact newest
    chronological := selected.order
    unrepeated := selected.earlier
    messages := by
      refine ⟨_, rendered.complete.category .messageHistory, ?_⟩
      exact accounted messagesCounted earlierMessages fewerMessages
    tools := by
      refine ⟨_, rendered.complete.category .toolEvents, ?_⟩
      exact accounted toolsCounted earlierTools fewerTools
    accepted := rendered.verified
  }

-- A greeting

def asciiScanner : Scanner where
  wordBeyondAscii := fun _ => false
  highEntropy := fun _ => false
  punctuation := rfl

def noObjects : ObjectReader := fun _ => none

def defaultOptions : RenderContextOptions where
  noTools := false
  contextProfile := .standard
  maxMessages := 12
  maxTotalScalars := 12000
  toolExcerptChars := 200
  redactor := { entropy := false }
  projectSignals := none
  loadedReferences := []
  loadedState := "observed".toList
  explicitExclusions := []
  failOnUnsupportedContext := false
  essentialToolMissing := false

def greetingHarness : HarnessId := { text := "h", valid := by decide +kernel }

def greetingEvent : NormalizedEvent where
  eventId := none
  parentId := none
  turnId := none
  agentId := none
  branchId := none
  role := .assistant
  kind := .message
  timestampUnixMs := none
  text := "Hi."
  tool := none

def subagent : AgentId := { text := "s", valid := by decide +kernel }

def greetingAfter (words : String) : NormalizedContext where
  harness := greetingHarness
  agentId := none
  branchId := none
  currentRequest := { eventId := none, text := "Go on.", essentialAttachmentMissing := false }
  events := [{ greetingEvent with agentId := some subagent, text := words }, greetingEvent]

def greeting : NormalizedContext := greetingAfter "Psst."

def greetingPayload : RenderedContextPayload where
  schemaVersion := 1
  contextProfile := .standard
  harness := "h"
  contextQuality := .complete
  projectSignals := {
    languages := []
    toolsOnPath := []
    dirtyPaths := []
    dirtyPathsTruncated := false
  }
  sessionState := {
    loadedReferences := []
    loadedState := "observed".toList
    explicitExclusions := []
  }
  recentMessages :=
    [
      {
        role := "assistant"
        tool := none
        status := none
        summary := none
        text := some "Hi.".toList
      }
    ]
  latestUserRequest := "Go on.".toList

/-- A category of which nothing was cut or redacted. -/
def untouched (category : SourceCategory) (includedCount omittedCount : Nat)
    : CategoryReceipt where
  category := category
  includedCount := includedCount
  omittedCount := omittedCount
  truncatedCount := 0
  redactionCount := 0

def greetingReceipt : DisclosureReceipt where
  schemaVersion := 1
  contextProfile := .standard
  contextQuality := .complete
  noTools := false
  categories :=
    [
      untouched .userRequest 1 0, untouched .messageHistory 1 1, untouched .toolEvents 0 0,
      untouched .projectSignals 0 0, untouched .sessionState 0 0
    ]
  totalIncluded := 2
  totalOmitted := 1
  totalTruncated := 0
  totalRedactions := 0
  disclosedBytes := 370
  disclosedScalars := 9

theorem greeting_rendered
    : renderContextAndReceipt asciiScanner noObjects defaultOptions greeting 0
      = returned (.ok (greetingPayload, greetingReceipt)) := by
  decide +kernel

/-- A greeting and the request after it are within their window. -/
theorem greeting_withinWindow
    : ∃ history incomplete,
        greeting.select 0 = returned (.ok (history, incomplete))
        ∧ WithinWindow asciiScanner noObjects defaultOptions greeting history greetingPayload
            greetingReceipt :=
  renderContextAndReceipt_withinWindow greeting_rendered

end SkillRanker.Context
