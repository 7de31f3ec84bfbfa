import SkillRanker.Context.Rendering

/-! The payload of a projected context, and the receipt with what the projection left out. -/

namespace SkillRanker.Context

open SkillRanker.Library SkillRanker.Privacy

section

variable (scanner : Scanner) (readObject : ObjectReader) (options : RenderContextOptions)
variable (context : NormalizedContext)

-- Messages

def essentialMissing : Bool :=
  let hadToolEvents := context.events.any isToolEvent
  let indicated :=
    options.essentialToolMissing
      || hadToolEvents && isEssentialToolReference context.currentRequest.text.toList
  context.currentRequest.essentialAttachmentMissing || indicated && options.toolBodiesOmitted

def missingReason : String :=
  if context.currentRequest.essentialAttachmentMissing then
    "request meaning depends on omitted attachment"
  else "request meaning depends on omitted tool result"

def renderable : List NormalizedEvent :=
  if options.contextProfile = .minimal then []
  else context.events.filter fun event => !context.namesCurrent event

def candidates : Rendering (List Candidate) :=
  (renderable options context).mapM (candidateOf scanner readObject options)

/-- The newest messages, as many as there may be. -/
def windowed (messages : List RenderedMessage) : List RenderedMessage :=
  messages.drop (messages.length - options.maxMessages)

-- The payload

structure PayloadParts where
  field : RedactedField
  request : List Char
  candidates : List Candidate
  filled : Filled
  signals : SignalsDraft

def gatherParts : Rendering PayloadParts := do
  returned
    (ensure
      (¬ (essentialMissing options context && options.failOnUnsupportedContext) = true)
      (.unsupportedContext (missingReason context)))
  let field ←
    redacted scanner options (sanitizeMediaData scanner context.currentRequest.text.toList)
  let request ← truncated field.text options.maxTotalScalars
  let candidates ← candidates scanner readObject options context
  let window := windowed options (candidates.filterMap Candidate.message)
  let filled ← fill (options.maxTotalScalars - field.text.length) window.reverse
  let signals ← renderedSignals scanner options
  return {
    field := field
    request := request
    candidates := candidates
    filled := filled
    signals := signals
  }

namespace PayloadParts

variable (parts : PayloadParts)

def requestCut : Bool := options.maxTotalScalars < parts.field.text.length

def historyCut : Bool :=
  options.maxMessages < (parts.candidates.filterMap Candidate.message).length || parts.filled.cut

def quality : ContextQuality :=
  if essentialMissing options context then .insufficient
  else if parts.requestCut options || parts.historyCut options then .partly
  else if parts.filled.messages.isEmpty && context.events.isEmpty then .promptOnly
  else .complete

def payload : RenderedContextPayload where
  schemaVersion := 1
  contextProfile := options.contextProfile
  harness := context.harness.text
  contextQuality := parts.quality options context
  projectSignals := parts.signals.signals
  sessionState := {
    loadedReferences := options.loadedReferences
    loadedState := options.loadedState
    explicitExclusions := options.explicitExclusions
  }
  recentMessages := parts.filled.messages
  latestUserRequest := parts.request

def categoryReceipt (category : SourceCategory) : CategoryReceipt :=
  let earlier := context.events.filter fun event => !context.namesCurrent event
  let included := itemsOf (parts.payload options context) category
  match category with
  | .userRequest =>
      {
        category := .userRequest
        includedCount := included
        omittedCount := if context.currentRequest.essentialAttachmentMissing then 1 else 0
        truncatedCount := if parts.requestCut options then 1 else 0
        redactionCount := parts.field.redactions
      }
  | .messageHistory =>
      {
        category := .messageHistory
        includedCount := included
        omittedCount := earlier.countP countsAsMessage - included
        truncatedCount := parts.filled.historyTruncations
        redactionCount := (parts.candidates.map Candidate.historyRedactions).sum
      }
  | .toolEvents =>
      {
        category := .toolEvents
        includedCount := included
        omittedCount := earlier.countP countsAsTool - included
        truncatedCount :=
          (parts.candidates.map Candidate.toolTruncations).sum + parts.filled.toolTruncations
        redactionCount := (parts.candidates.map Candidate.toolRedactions).sum
      }
  | .projectSignals =>
      {
        category := .projectSignals
        includedCount := included
        omittedCount := parts.signals.omittedDirtyPaths
        truncatedCount := if parts.signals.signals.dirtyPathsTruncated then 1 else 0
        redactionCount := parts.signals.redactions
      }
  | .sessionState =>
      {
        category := .sessionState
        includedCount := included
        omittedCount := 0
        truncatedCount := 0
        redactionCount := 0
      }

def receipt : DisclosureReceipt where
  schemaVersion := 1
  contextProfile := options.contextProfile
  contextQuality := parts.quality options context
  noTools := options.noTools
  categories := SourceCategory.all.map (parts.categoryReceipt options context)
  totalIncluded := 0
  totalOmitted := 0
  totalTruncated := 0
  totalRedactions := 0
  disclosedBytes := (parts.payload options context).disclosedBytes
  disclosedScalars := (parts.payload options context).totalMessageScalars

end PayloadParts

def inspect (payload : RenderedContextPayload) : Rendering Nat :=
  returned
    ((options.redactor.inspectPayload scanner payload.serialized).mapError .fromRedaction)

def totalled (receipt : DisclosureReceipt) : Rendering DisclosureReceipt :=
  present receipt.withTotals

/-- `payload::render_context_and_receipt` -/
def renderPayload : Rendering (RenderedContextPayload × DisclosureReceipt) := do
  let parts ← gatherParts scanner readObject options context
  let _ ← inspect scanner options (parts.payload options context)
  let receipt ← totalled (parts.receipt options context)
  return (parts.payload options context, receipt)

-- The projection

/-- The messages and the events of tools that a history leaves out. -/
def omittedCounts (history : List NormalizedEvent) : Nat × Nat :=
  (
    context.others.countP countsAsMessage - history.countP countsAsMessage,
    context.others.countP countsAsTool - history.countP countsAsTool
  )

def project (fuel : Nat) : Rendering (List NormalizedEvent × Bool × Nat × Nat) := do
  let (history, incomplete) ← ExceptT.adapt .unsupportedContext (context.select fuel)
  return (history, incomplete, omittedCounts context history)

def finalize (payload : RenderedContextPayload) (incomplete : Bool)
    : Rendering (RenderedContextPayload × Nat) := do
  let payload :=
    if incomplete && payload.contextQuality ≠ .insufficient then
      { payload with contextQuality := .partly }
    else payload
  let _ ← inspect scanner options payload
  return (payload, payload.disclosedBytes)

/-- The receipt of a category with what the preparation and the projection changed. -/
def adjusted (session : CategoryReceipt) (labels : Labels) (omitted : Nat × Nat)
    (entry : CategoryReceipt)
    : CategoryReceipt :=
  match entry.category with
  | .sessionState => session
  | .toolEvents =>
      { entry with
        redactionCount := entry.redactionCount + labels.redactions
        truncatedCount := entry.truncatedCount + labels.truncations
        omittedCount := entry.omittedCount + omitted.2
      }
  | .messageHistory => { entry with omittedCount := entry.omittedCount + omitted.1 }
  | .userRequest | .projectSignals => entry

def renderContextAndReceipt (fuel : Nat) : Rendering (RenderedContextPayload × DisclosureReceipt) := do
  let (history, chainIncomplete, omitted) ← project context fuel
  let labels ← prepareLabels scanner options history
  let (prepared, session) ← prepareSession scanner options
  let incomplete :=
    chainIncomplete || session.omittedCount ≠ 0 || session.truncatedCount ≠ 0
      || labels.truncations ≠ 0
  let (payload, receipt) ←
    renderPayload scanner readObject prepared { context with events := labels.events }
  let (payload, bytes) ← finalize scanner options payload incomplete
  let receipt ←
    totalled
      { receipt with
        contextQuality := payload.contextQuality
        categories := receipt.categories.map (adjusted session labels omitted)
        disclosedBytes := bytes
      }
  return (payload, receipt)

end

-- The steps of a rendering that succeeds, with what each of them has found

variable {scanner : Scanner} {readObject : ObjectReader} {options : RenderContextOptions}
  {context : NormalizedContext}

structure RenderingSteps where
  history : List NormalizedEvent
  chainIncomplete : Bool
  labels : Labels
  prepared : RenderContextOptions
  session : CategoryReceipt
  parts : PayloadParts
  draft : DisclosureReceipt

namespace RenderingSteps

variable (steps : RenderingSteps)

/-- The context with the history in place of its events. -/
def projected (context : NormalizedContext) : NormalizedContext :=
  { context with events := steps.labels.events }

/-- The history or the session state is not whole. -/
def incomplete : Bool :=
  steps.chainIncomplete || steps.session.omittedCount ≠ 0 || steps.session.truncatedCount ≠ 0
    || steps.labels.truncations ≠ 0

def draftPayload (context : NormalizedContext) : RenderedContextPayload :=
  steps.parts.payload steps.prepared (steps.projected context)

def payload (context : NormalizedContext) : RenderedContextPayload :=
  if steps.incomplete && (steps.draftPayload context).contextQuality ≠ .insufficient then
    { steps.draftPayload context with contextQuality := .partly }
  else steps.draftPayload context

/-- The receipt of a category behind all steps. -/
def entry (context : NormalizedContext) (category : SourceCategory) : CategoryReceipt :=
  adjusted steps.session steps.labels (omittedCounts context steps.history)
    (steps.parts.categoryReceipt steps.prepared (steps.projected context) category)

def receipt (context : NormalizedContext) : DisclosureReceipt :=
  { steps.draft with
    contextQuality := (steps.payload context).contextQuality
    categories :=
      steps.draft.categories.map
        (adjusted steps.session steps.labels (omittedCounts context steps.history))
    disclosedBytes := (steps.payload context).disclosedBytes
  }

end RenderingSteps

/-- The steps lead to a payload and to its receipt. -/
structure RenderedBy (scanner : Scanner) (readObject : ObjectReader)
    (options : RenderContextOptions) (context : NormalizedContext) (fuel : Nat)
    (steps : RenderingSteps) (payload : RenderedContextPayload) (receipt : DisclosureReceipt)
    : Prop where
  history : context.select fuel = returned (.ok (steps.history, steps.chainIncomplete))
  labels : prepareLabels scanner options steps.history = returned (.ok steps.labels)
  session : prepareSession scanner options = returned (.ok (steps.prepared, steps.session))
  parts
    : gatherParts scanner readObject steps.prepared (steps.projected context)
      = returned (.ok steps.parts)
  draft
    : (steps.parts.receipt steps.prepared (steps.projected context)).withTotals
      = some steps.draft
  payload : payload = steps.payload context
  receipt : (steps.receipt context).withTotals = some receipt

theorem adapt_eq_returned {Error Other α : Type} {change : Error → Other}
    {first : Panicking Error α} {value : α}
    (done : ExceptT.adapt change first = returned (.ok value))
    : first = returned (.ok value) := by
  cases first with
  | none => cases done
  | some outcome =>
      cases outcome with
      | error error => cases done
      | ok result =>
          cases done
          rfl

theorem pure_eq_returned {Error α : Type} {value result : α}
    (done : (pure value : Panicking Error α) = returned (.ok result))
    : value = result :=
  Except.ok.inj (returned_inj.mp done)

theorem renderPayload_spec {payload : RenderedContextPayload} {receipt : DisclosureReceipt}
    (rendered : renderPayload scanner readObject options context = returned (.ok (payload, receipt)))
    : ∃ parts,
        gatherParts scanner readObject options context = returned (.ok parts)
        ∧ payload = parts.payload options context
        ∧ (parts.receipt options context).withTotals = some receipt := by
  obtain ⟨parts, gathered, rendered⟩ := bind_eq_returned.mp rendered
  obtain ⟨_, _, rendered⟩ := bind_eq_returned.mp rendered
  obtain ⟨draft, totalled, rendered⟩ := bind_eq_returned.mp rendered
  obtain ⟨same, sameReceipt⟩ := Prod.mk.inj (pure_eq_returned rendered)
  rw [← sameReceipt]
  exact ⟨parts, gathered, same.symm, present_eq_returned.mp totalled⟩

/-- The last step gives its payload and the bytes of it. -/
theorem finalize_spec {payload final : RenderedContextPayload} {incomplete : Bool} {bytes : Nat}
    (done : finalize scanner options payload incomplete = returned (.ok (final, bytes)))
    : final
        = (if incomplete && payload.contextQuality ≠ .insufficient then
            { payload with contextQuality := .partly }
          else payload)
      ∧ bytes = final.disclosedBytes := by
  obtain ⟨_, _, done⟩ := bind_eq_returned.mp done
  obtain ⟨same, sameBytes⟩ := Prod.mk.inj (pure_eq_returned done)
  rw [← sameBytes, ← same]
  exact ⟨rfl, rfl⟩

theorem renderedBy_steps {fuel : Nat} {payload : RenderedContextPayload}
    {receipt : DisclosureReceipt}
    (rendered
      : renderContextAndReceipt scanner readObject options context fuel
        = returned (.ok (payload, receipt)))
    : ∃ steps, RenderedBy scanner readObject options context fuel steps payload receipt := by
  obtain ⟨⟨history, chainIncomplete, omitted⟩, projected, rendered⟩ := bind_eq_returned.mp rendered
  obtain ⟨labels, labelled, rendered⟩ := bind_eq_returned.mp rendered
  obtain ⟨⟨prepared, session⟩, readied, rendered⟩ := bind_eq_returned.mp rendered
  obtain ⟨⟨draft, draftReceipt⟩, payloadRendered, rendered⟩ := bind_eq_returned.mp rendered
  obtain ⟨⟨final, bytes⟩, finalized, rendered⟩ := bind_eq_returned.mp rendered
  obtain ⟨total, totalled, rendered⟩ := bind_eq_returned.mp rendered
  obtain ⟨⟨chosen, chosenIncomplete⟩, selected, projected⟩ := bind_eq_returned.mp projected
  obtain ⟨sameHistory, projected⟩ := Prod.mk.inj (pure_eq_returned projected)
  obtain ⟨sameChain, omission⟩ := Prod.mk.inj projected
  obtain ⟨parts, gathered, draftIs, draftTotalled⟩ := renderPayload_spec payloadRendered
  obtain ⟨finalIs, bytesAre⟩ := finalize_spec finalized
  obtain ⟨samePayload, sameReceipt⟩ := Prod.mk.inj (pure_eq_returned rendered)
  subst sameHistory sameChain omission draftIs samePayload sameReceipt
  refine ⟨⟨chosen, chosenIncomplete, labels, prepared, session, parts, draftReceipt⟩,
    adapt_eq_returned selected, labelled, readied, gathered, draftTotalled, finalIs, ?_⟩
  rw [bytesAre, finalIs] at totalled
  exact present_eq_returned.mp totalled

end SkillRanker.Context
