import SkillRanker.Context.Noninterference
import SkillRanker.Context.Windows

/-! Contexts that differ in what is left out are rendered to the same payload and receipt. -/

namespace SkillRanker.Context

open SkillRanker.Library SkillRanker.Privacy

variable {scanner : Scanner} {readObject : ObjectReader} {options : RenderContextOptions}
  {context other : NormalizedContext} {event event' : NormalizedEvent}

-- Candidates

namespace SameDisclosed

variable (disclosed : SameDisclosed options event event')
include disclosed

theorem role : event.role = event'.role := by
  have roles := congrArg NormalizedEvent.role disclosed.outline
  exact roles

theorem kind : event.kind = event'.kind := by
  have kinds := congrArg NormalizedEvent.kind disclosed.outline
  exact kinds

/-- A message that is not of a tool is rendered from what both events disclose. -/
theorem textCandidate (notTool : event.role ≠ .tool)
    : textCandidate scanner options event = textCandidate scanner options event' := by
  unfold Context.textCandidate cleanedText
  rw [disclosed.text notTool, disclosed.role]

omit disclosed in
/-- An event of tools is dropped where their bodies are omitted. -/
theorem candidateOf_tools (noTools : options.noTools = true) (counts : countsAsTool event = true)
    : candidateOf scanner readObject options event = (pure (.dropped 0) : Rendering Candidate) := by
  have is : isToolEvent event = true ∨ (event.kind = .message ∧ event.role = .tool) := by
    simpa [countsAsTool] using counts
  unfold candidateOf
  rcases is with isTool | ⟨isMessage, isTool⟩
  · have kinds : event.kind = .toolInvocation ∨ event.kind = .toolResult := by
      simpa [isToolEvent] using isTool
    rcases kinds with kind | kind
    · rw [kind]
      cases event.tool with
      | none => rfl
      | some tool => exact if_pos noTools
    · rw [kind]
      cases event.tool with
      | none => rfl
      | some tool => exact if_pos noTools
  · rw [isMessage]
    exact if_pos ⟨isTool, noTools⟩

/-- Two events that disclose the same are rendered to the same candidate, unless there are no
candidates at all.
-/
theorem candidateOf (messages : options.contextProfile ≠ .minimal)
    : candidateOf scanner readObject options event
      = candidateOf scanner readObject options event' := by
  cases omitted : options.toolBodiesOmitted with
  | false => rw [disclosed.whole omitted]
  | true =>
      have noTools : options.noTools = true := by
        simpa [RenderContextOptions.toolBodiesOmitted, messages] using omitted
      have sameCount : countsAsTool event' = countsAsTool event := by
        rw [← countsAsTool_outline, ← disclosed.outline, countsAsTool_outline]
      cases counts : countsAsTool event with
      | true =>
          rw [candidateOf_tools noTools counts, candidateOf_tools noTools (sameCount.trans counts)]
      | false =>
          have apart : isToolEvent event = false ∧ ¬ (event.kind = .message ∧ event.role = .tool) := by
            simpa [countsAsTool] using counts
          unfold Context.candidateOf
          rw [← disclosed.kind]
          cases kind : event.kind with
          | message =>
              have notTool : event.role ≠ .tool := fun isTool => apart.2 ⟨kind, isTool⟩
              rw [← disclosed.role]
              dsimp only
              rw [if_neg (fun both => notTool both.1), if_neg (fun both => notTool both.1)]
              exact disclosed.textCandidate notTool
          | toolInvocation =>
              have isTool : isToolEvent event = true := by simp [isToolEvent, kind]
              rw [isTool] at apart
              cases apart.1
          | toolResult =>
              have isTool : isToolEvent event = true := by simp [isToolEvent, kind]
              rw [isTool] at apart
              cases apart.1
          | taskBoundary | compaction | resume | sessionEnd => rfl

end SameDisclosed

theorem outlines_of_forall₂ {events others : List NormalizedEvent}
    (alike : List.Forall₂ (SameDisclosed options) events others)
    : events.map NormalizedEvent.outline = others.map NormalizedEvent.outline := by
  induction alike with
  | nil => rfl
  | cons disclosed _ ih => rw [List.map_cons, List.map_cons, disclosed.outline, ih]

-- Projected contexts

structure DisclosesSame (options : RenderContextOptions) (context other : NormalizedContext)
    : Prop where
  harness : context.harness = other.harness
  currentRequest : context.currentRequest = other.currentRequest
  events : List.Forall₂ (SameDisclosed options) context.events other.events

namespace DisclosesSame

section

variable (same : DisclosesSame options context other)
include same

theorem namesCurrent
    : other.namesCurrent = context.namesCurrent := by
  funext event
  unfold NormalizedContext.namesCurrent
  rw [same.currentRequest]

theorem outlines
    : context.events.map NormalizedEvent.outline = other.events.map NormalizedEvent.outline :=
  outlines_of_forall₂ same.events

/-- The events before the request disclose the same. -/
theorem earlier
    : List.Forall₂ (SameDisclosed options)
        (context.events.filter fun event => !context.namesCurrent event)
        (other.events.filter fun event => !other.namesCurrent event) := by
  rw [same.namesCurrent]
  have filtered {events others : List NormalizedEvent}
      (alike : List.Forall₂ (SameDisclosed options) events others)
      : List.Forall₂ (SameDisclosed options)
          (events.filter fun event => !context.namesCurrent event)
          (others.filter fun event => !context.namesCurrent event) := by
    induction alike with
    | nil => exact .nil
    | @cons event event' _ _ disclosed _ ih =>
        have names : context.namesCurrent event' = context.namesCurrent event := by
          rw [← namesCurrent_outline, ← disclosed.outline, namesCurrent_outline]
        rw [List.filter_cons, List.filter_cons, names]
        split
        · exact .cons disclosed ih
        · exact ih
  exact filtered same.events

theorem countP_earlier {counts : NormalizedEvent → Bool}
    (reads : ∀ event, counts event.outline = counts event)
    : (context.events.filter fun event => !context.namesCurrent event).countP counts
      = (other.events.filter fun event => !other.namesCurrent event).countP counts :=
  countP_of_outlines reads (outlines_of_forall₂ same.earlier)

theorem isEmpty
    : context.events.isEmpty = other.events.isEmpty := by
  have lengths := same.events.length_eq
  rw [Bool.eq_iff_iff, List.isEmpty_iff_length_eq_zero, List.isEmpty_iff_length_eq_zero, lengths]

theorem essentialMissing
    : essentialMissing options context = essentialMissing options other := by
  have any : context.events.any isToolEvent = other.events.any isToolEvent := by
    have asked (events : List NormalizedEvent)
        : events.any isToolEvent = (events.map NormalizedEvent.outline).any isToolEvent := by
      rw [List.any_map]
      rfl
    rw [asked, same.outlines, ← asked]
  unfold Context.essentialMissing
  rw [any, same.currentRequest]

theorem candidates
    : candidates scanner readObject options context
      = candidates scanner readObject options other := by
  unfold Context.candidates renderable
  split
  · rfl
  next messages =>
      have mapped {events others : List NormalizedEvent}
          (alike : List.Forall₂ (SameDisclosed options) events others)
          : events.mapM (candidateOf scanner readObject options)
            = others.mapM (candidateOf scanner readObject options) := by
        induction alike with
        | nil => rfl
        | cons disclosed _ ih =>
            rw [List.mapM_cons, List.mapM_cons, disclosed.candidateOf messages, ih]
      exact mapped same.earlier

theorem gatherParts
    : gatherParts scanner readObject options context
      = gatherParts scanner readObject options other := by
  have reason : missingReason context = missingReason other := by
    unfold missingReason
    rw [same.currentRequest]
  unfold Context.gatherParts
  rw [same.essentialMissing, same.currentRequest, same.candidates, reason]

variable (parts : PayloadParts)

theorem payload
    : parts.payload options context = parts.payload options other := by
  unfold PayloadParts.payload PayloadParts.quality
  rw [same.harness, same.essentialMissing, same.isEmpty]

theorem categoryReceipt (category : SourceCategory)
    : parts.categoryReceipt options context category
      = parts.categoryReceipt options other category := by
  unfold PayloadParts.categoryReceipt
  dsimp only
  rw [same.payload, same.currentRequest, same.countP_earlier countsAsMessage_outline,
    same.countP_earlier countsAsTool_outline]

theorem receipt
    : parts.receipt options context = parts.receipt options other := by
  have categories : parts.categoryReceipt options context = parts.categoryReceipt options other :=
    funext (same.categoryReceipt parts)
  have quality : parts.quality options context = parts.quality options other :=
    congrArg RenderedContextPayload.contextQuality (same.payload parts)
  unfold PayloadParts.receipt
  rw [categories, quality, same.payload]

end

end DisclosesSame

-- Renderings

theorem prepareLabels_alike {history history' : List NormalizedEvent} {labels labels' : Labels}
    (alike : List.Forall₂ (SameDisclosed options) history history')
    (prepared : prepareLabels scanner options history = returned (.ok labels))
    (prepared' : prepareLabels scanner options history' = returned (.ok labels'))
    : List.Forall₂ (SameDisclosed options) labels.events labels'.events
      ∧ labels.redactions = labels'.redactions
      ∧ labels.truncations = labels'.truncations := by
  cases omitted : options.toolBodiesOmitted with
  | true =>
      unfold prepareLabels at prepared prepared'
      rw [if_pos omitted] at prepared prepared'
      rw [← pure_eq_returned prepared, ← pure_eq_returned prepared']
      exact ⟨alike, rfl, rfl⟩
  | false =>
      have same : history = history' :=
        List.forall₂_eq_eq_eq ▸ alike.imp fun _ _ disclosed => disclosed.whole omitted
      rw [same] at prepared
      obtain rfl := Except.ok.inj (returned_inj.mp (prepared.symm.trans prepared'))
      exact ⟨List.forall₂_same.mpr fun _ _ => ⟨rfl, fun _ => rfl, fun _ => rfl⟩, rfl, rfl⟩

theorem others_outlines (differs : DiffersInBodies options context other)
    : context.others.map NormalizedEvent.outline = other.others.map NormalizedEvent.outline := by
  have current (event : NormalizedEvent) : other.isCurrent event = context.isCurrent event := by
    unfold NormalizedContext.isCurrent
    rw [differs.namesCurrent, differs.inScope]
  have same : other.others = other.events.filter fun event => !context.isCurrent event :=
    List.filter_congr fun event _ => by rw [current]
  rw [same]
  exact filter_of_outlines (fun event => !context.isCurrent event) (fun _ => rfl) differs.outlines

theorem SameDisclosed.prepared {prepared : RenderContextOptions}
    (disclosed : SameDisclosed options event event')
    (omitted : prepared.toolBodiesOmitted = options.toolBodiesOmitted)
    : SameDisclosed prepared event event' where
  outline := disclosed.outline
  whole bodies := disclosed.whole (omitted ▸ bodies)
  text := disclosed.text

variable {fuel more : Nat} {steps steps' : RenderingSteps}
  {payload payload' : RenderedContextPayload} {receipt receipt' : DisclosureReceipt}

/-- What the steps of two renderings have found is the same, up to what is left out. -/
structure StepsAlike (context other : NormalizedContext) (steps steps' : RenderingSteps)
    : Prop where
  projected : DisclosesSame steps.prepared (steps.projected context) (steps'.projected other)
  incomplete : steps.incomplete = steps'.incomplete
  omitted : omittedCounts context steps.history = omittedCounts other steps'.history
  redactions : steps.labels.redactions = steps'.labels.redactions
  truncations : steps.labels.truncations = steps'.labels.truncations
  prepared : steps.prepared = steps'.prepared
  session : steps.session = steps'.session

theorem stepsAlike (differs : DiffersInBodies options context other)
    (rendered : RenderedBy scanner readObject options context fuel steps payload receipt)
    (rendered' : RenderedBy scanner readObject options other more steps' payload' receipt')
    : StepsAlike context other steps steps' := by
  obtain ⟨chain, histories⟩ := select_alike differs rendered.history rendered'.history
  obtain ⟨labels, redactions, truncations⟩ :=
    prepareLabels_alike histories rendered.labels rendered'.labels
  have ready := Except.ok.inj (returned_inj.mp (rendered.session.symm.trans rendered'.session))
  obtain ⟨prepared, session⟩ := Prod.mk.inj ready
  obtain ⟨_, _, _, is⟩ := prepareSession_spec rendered.session
  have omitted : steps.prepared.toolBodiesOmitted = options.toolBodiesOmitted := by
    rw [is]
    rfl
  have counted {counts : NormalizedEvent → Bool}
      (reads : ∀ event, counts event.outline = counts event)
      : context.others.countP counts - steps.history.countP counts
        = other.others.countP counts - steps'.history.countP counts := by
    rw [countP_of_outlines reads (others_outlines differs),
      countP_of_outlines reads (outlines_of_forall₂ histories)]
  exact {
    projected := {
      harness := differs.harness
      currentRequest := differs.currentRequest
      events := labels.imp fun _ _ disclosed => disclosed.prepared omitted
    }
    incomplete := by
      unfold RenderingSteps.incomplete
      rw [chain, session, truncations]
    omitted := by
      unfold omittedCounts
      rw [counted countsAsMessage_outline, counted countsAsTool_outline]
    redactions := redactions
    truncations := truncations
    prepared := prepared
    session := session
  }

/-- Contexts that differ in what is left out are rendered to the same payload and receipt. -/
theorem renderContextAndReceipt_noninterference
    (differs : DiffersInBodies options context other)
    (rendered
      : renderContextAndReceipt scanner readObject options context fuel
        = returned (.ok (payload, receipt)))
    (rendered'
      : renderContextAndReceipt scanner readObject options other more
        = returned (.ok (payload', receipt')))
    : payload = payload' ∧ receipt = receipt' := by
  obtain ⟨steps, rendered⟩ := renderedBy_steps rendered
  obtain ⟨steps', rendered'⟩ := renderedBy_steps rendered'
  have alike := stepsAlike differs rendered rendered'
  have gathered := rendered'.parts
  rw [← alike.prepared, ← alike.projected.gatherParts] at gathered
  have parts := Except.ok.inj (returned_inj.mp (rendered.parts.symm.trans gathered))
  have drafted := rendered'.draft
  rw [← parts, ← alike.prepared, ← alike.projected.receipt] at drafted
  have draft := Option.some.inj (rendered.draft.symm.trans drafted)
  have draftPayload : steps.draftPayload context = steps'.draftPayload other := by
    unfold RenderingSteps.draftPayload
    rw [← parts, ← alike.prepared, alike.projected.payload]
  have payloads : steps.payload context = steps'.payload other := by
    unfold RenderingSteps.payload
    rw [draftPayload, alike.incomplete]
  have adjustment
      : adjusted steps.session steps.labels (omittedCounts context steps.history)
        = adjusted steps'.session steps'.labels (omittedCounts other steps'.history) := by
    funext entry
    unfold adjusted
    rw [alike.session, alike.omitted, alike.redactions, alike.truncations]
  have receipts : steps.receipt context = steps'.receipt other := by
    unfold RenderingSteps.receipt
    rw [payloads, draft, adjustment]
  refine ⟨?_, ?_⟩
  · rw [rendered.payload, rendered'.payload, payloads]
  · have totalled := rendered'.receipt
    rw [← receipts] at totalled
    exact Option.some.inj (rendered.receipt.symm.trans totalled)

/-- An event of a greeting is the same behind other words, or has no part in its history. -/
theorem greeting_events
    : ∀ pair ∈ greeting.events.zip (greetingAfter "Shh.").events,
        pair.1 ≠ greetingEvent ∧ key pair.1 = none ∧ pair.1.outline = pair.2.outline
        ∨ pair.1 = greetingEvent ∧ pair.2 = greetingEvent := by
  decide +kernel

/-- The words of a subagent are no part of what is rendered of a greeting. -/
theorem greeting_differs : DiffersInBodies defaultOptions greeting (greetingAfter "Shh.") where
  harness := rfl
  agentId := rfl
  branchId := rfl
  currentRequest := rfl
  events := by
    refine ⟨greeting.events.zip (greetingAfter "Shh.").events, rfl, rfl, ?_⟩
    rintro before pair after is
    have mem : pair ∈ greeting.events.zip (greetingAfter "Shh.").events := by
      rw [is]
      exact List.mem_append_right _ List.mem_cons_self
    rcases greeting_events pair mem with ⟨foreign, unnamed, outline⟩ | ⟨first, second⟩
    · refine ⟨outline, ?_⟩
      rintro ⟨fuel, history, incomplete, selected, within⟩
      rw [unnamed] at within
      cases selected
      exact absurd (List.mem_singleton.mp within.1) foreign
    · rw [first, second]
      exact ⟨rfl, fun _ => ⟨rfl, fun _ => rfl, fun _ => rfl⟩⟩

theorem greetingAfter_rendered
    : renderContextAndReceipt asciiScanner noObjects defaultOptions (greetingAfter "Shh.") 0
      = returned (.ok (greetingPayload, greetingReceipt)) := by
  decide +kernel

/-- A greeting and the same greeting behind other words of the subagent are both rendered, to the
same payload and receipt.
-/
theorem greeting_noninterference
    : greeting ≠ greetingAfter "Shh."
      ∧ ∃ payload receipt payload' receipt',
          renderContextAndReceipt asciiScanner noObjects defaultOptions greeting 0
            = returned (.ok (payload, receipt))
          ∧ renderContextAndReceipt asciiScanner noObjects defaultOptions (greetingAfter "Shh.") 0
            = returned (.ok (payload', receipt'))
          ∧ payload = payload'
          ∧ receipt = receipt' :=
  ⟨by decide +kernel, _, _, _, _, greeting_rendered, greetingAfter_rendered,
    renderContextAndReceipt_noninterference greeting_differs greeting_rendered
      greetingAfter_rendered⟩

end SkillRanker.Context
