import SkillRanker.Jev.Drafts
import SkillRanker.Library.Loops
import SkillRanker.Privacy.Excerpts
import SkillRanker.Roster.Permutation

/-! Requests that are trimmed until they fit: the oldest messages go first, and only then do the
texts of the options shrink.
-/

namespace SkillRanker.Jev

open SkillRanker.Context (RenderedContextPayload RenderedMessage)
open SkillRanker.Library
open SkillRanker.Privacy (Redactor Scanner byteSize byteSize_append)
open SkillRanker.Roster
open Std (TreeMap)

-- The loop

inductive WireVariant
  | canonical
  | reverseOptionOrder
  | renameOptionHandles
deriving DecidableEq, Repr

/-- The payload so far, and how many messages it has lost. -/
structure Trimmed where
  payload : RenderedContextPayload
  dropped : Nat
deriving DecidableEq

/-- How the passes over one cap end. -/
inductive Fit
  | sent (draft : Draft) (bytes : List Char) (trimmed : Trimmed)
  | exhausted (trimmed : Trimmed)

/-- A request that fits, with the cap and the texts that it fits with. -/
structure Sent (Cap Texts : Type) where
  draft : Draft
  bytes : List Char
  dropped : Nat
  cap : Cap
  texts : Texts

section Loop

variable {Cap Texts : Type}
  -- the texts of the options under a cap, the request made of them, and its last checks
  (describe : Cap → Panicking WideError Texts)
  (assemble : RenderedContextPayload → Texts → Except CodecError Draft)
  (finish : Draft → Except WideError (Draft × List Char))

def fitPass (texts : Texts) (trimmed : Trimmed) : Pass Trimmed (Except WideError Fit) :=
  match assemble trimmed.payload texts with
  | .ok draft => .done ((finish draft).map fun made => .sent made.1 made.2 trimmed)
  | .error .tooLarge =>
      match trimmed.payload.recentMessages with
      | _ :: rest =>
          .again
            {
              payload := { trimmed.payload with recentMessages := rest }
              dropped := trimmed.dropped + 1
            }
      | [] => .done (.ok (.exhausted trimmed))
  | .error error => .done (.error (.codec error))

def fitCaps (fuel : Nat) : List Cap → Trimmed → Option (Panicking WideError (Sent Cap Texts))
  | [], _ => some (returned (.error .requestTooLarge))
  | cap :: rest, trimmed =>
      match (describe cap).run with
      | none => some (ExceptT.mk none)
      | some (.error error) => some (returned (.error error))
      | some (.ok texts) =>
          match loop (fitPass assemble finish texts) fuel trimmed with
          | none => none
          | some (.error error) => some (returned (.error error))
          | some (.ok (.exhausted last)) => fitCaps fuel rest last
          | some (.ok (.sent draft bytes last)) =>
              some
                (returned
                  (.ok
                    {
                      draft := draft
                      bytes := bytes
                      dropped := last.dropped
                      cap := cap
                      texts := texts
                    }))

-- What is dropped

def without (payload : RenderedContextPayload) (count : Nat) : RenderedContextPayload :=
  { payload with recentMessages := payload.recentMessages.drop count }

/-- A payload that has lost so many of its oldest messages. -/
def trimmedBy (payload : RenderedContextPayload) (count : Nat) : Trimmed where
  payload := without payload count
  dropped := count

/-- The request is too large under a cap, without so many messages. -/
def TooLarge (payload : RenderedContextPayload) (cap : Cap) (count : Nat) : Prop :=
  ∃ texts,
    describe cap = returned (.ok texts)
    ∧ assemble (without payload count) texts = .error .tooLarge

/-- A pass has dropped some messages, the oldest ones, each from a request that was too large. -/
structure Dropping (payload : RenderedContextPayload) (texts : Texts) (first : Nat)
    (trimmed : Trimmed)
    : Prop where
  oldest : trimmed = trimmedBy payload trimmed.dropped
  onward : first ≤ trimmed.dropped
  within : trimmed.dropped ≤ payload.recentMessages.length
  needed
    : ∀ count,
        first ≤ count → count < trimmed.dropped
        → assemble (without payload count) texts = .error .tooLarge

variable {describe assemble finish} {payload : RenderedContextPayload} {texts : Texts}

/-- A pass that goes on has dropped the oldest message that is left. -/
theorem Dropping.step {first : Nat} {trimmed next : Trimmed}
    (dropping : Dropping assemble payload texts first trimmed)
    (again : fitPass assemble finish texts trimmed = .again next)
    : Dropping assemble payload texts first next
      ∧ next.payload.recentMessages.length < trimmed.payload.recentMessages.length := by
  obtain ⟨oldest, onward, within, needed⟩ := dropping
  unfold fitPass at again
  split at again
  · cases again
  next large =>
      split at again
      next message rest left =>
          cases again
          rw [oldest] at large left
          have shorter : trimmed.dropped < payload.recentMessages.length := by
            by_contra beyond
            rw [trimmedBy, without, List.drop_eq_nil_of_le (by omega)] at left
            cases left
          have later : rest = payload.recentMessages.drop (trimmed.dropped + 1) := by
            have tail := congrArg List.tail left
            rw [trimmedBy, without, List.tail_drop] at tail
            exact tail.symm
          refine ⟨⟨?_, Nat.le_succ_of_le onward, shorter, ?_⟩, ?_⟩
          · rw [oldest, later]
            rfl
          · intro count after before
            rcases Nat.lt_or_eq_of_le (Nat.le_of_lt_succ before) with earlier | rfl
            · exact needed count after earlier
            · exact large
          · rw [oldest, left]
            exact Nat.lt_succ_self _
      · cases again
  · cases again

/-- The passes over one cap come to an end, after no more passes than there are messages. -/
theorem fitPass_ends {fuel first : Nat} (within : first ≤ payload.recentMessages.length)
    (enough : payload.recentMessages.length < fuel)
    : ∃ last result,
        loop (fitPass assemble finish texts) fuel (trimmedBy payload first) = some result
        ∧ Dropping assemble payload texts first last
        ∧ fitPass assemble finish texts last = .done result := by
  have start : Dropping assemble payload texts first (trimmedBy payload first) :=
    {
      oldest := rfl
      onward := le_rfl
      within := within
      needed := fun count after before => absurd before (Nat.not_lt.mpr after)
    }
  have fewer : (trimmedBy payload first).payload.recentMessages.length < fuel := by
    have dropped : (trimmedBy payload first).payload.recentMessages.length
        = payload.recentMessages.length - first := List.length_drop
    omega
  have step (trimmed next : Trimmed) (dropping : Dropping assemble payload texts first trimmed)
      (again : fitPass assemble finish texts trimmed = .again next) :=
    dropping.step again
  obtain ⟨result, ended⟩ :=
    loop_returns (fun trimmed => trimmed.payload.recentMessages.length) step start fewer
  obtain ⟨last, dropping, done⟩ :=
    loop_invariant (fun trimmed next dropping again => (step trimmed next dropping again).1) start
      ended
  exact ⟨last, result, ended, dropping, done⟩

variable (describe assemble finish payload) in
/-- What a sent request has cost, from so many dropped messages on. -/
structure Spent (caps : List Cap) (first : Nat) (sent : Sent Cap Texts) : Prop where
  described : describe sent.cap = returned (.ok sent.texts)
  assembled
    : ∃ draft,
        assemble (without payload sent.dropped) sent.texts = .ok draft
        ∧ finish draft = .ok (sent.draft, sent.bytes)
  onward : first ≤ sent.dropped
  within : sent.dropped ≤ payload.recentMessages.length
  shrunk
    : ∃ before after,
        caps = before ++ sent.cap :: after
        ∧ ∀ cap ∈ before,
            sent.dropped = payload.recentMessages.length
            ∧ TooLarge describe assemble payload cap sent.dropped
  needed
    : ∀ count,
        first ≤ count → count < sent.dropped
        → ∃ cap ∈ caps.head?, TooLarge describe assemble payload cap count

/-- The caps come to an end: with a request that has cost what it had to, or with an error. They are
all too large where the error says so. The induction is on the caps.
-/
theorem fitCaps_ends {fuel first : Nat} {caps : List Cap}
    (within : first ≤ payload.recentMessages.length)
    (enough : payload.recentMessages.length < fuel)
    : ∃ outcome,
        fitCaps describe assemble finish fuel caps (trimmedBy payload first) = some outcome
        ∧ ∀ sent,
            outcome = returned (.ok sent)
            → Spent describe assemble finish payload caps first sent := by
  induction caps generalizing first with
  | nil => exact ⟨_, rfl, nofun⟩
  | cons cap rest ih =>
      unfold fitCaps
      split
      · exact ⟨_, rfl, nofun⟩
      · exact ⟨_, rfl, nofun⟩
      next texts described =>
          obtain ⟨last, result, ended, dropping, done⟩ :=
            @fitPass_ends _ assemble finish payload texts fuel first within enough
          obtain ⟨oldest, onward, inside, needed⟩ := dropping
          rw [ended]
          unfold fitPass at done
          split at done
          next draft made =>
              cases done
              cases finished : finish draft with
              | error error => exact ⟨_, rfl, nofun⟩
              | ok complete =>
                  refine ⟨_, rfl, ?_⟩
                  intro sent same
                  cases same
                  exact
                    {
                      described := described
                      assembled := ⟨draft, oldest ▸ made, finished⟩
                      onward := onward
                      within := inside
                      shrunk := ⟨[], rest, rfl, nofun⟩
                      needed := fun count after before =>
                        ⟨cap, rfl, texts, described, needed count after before⟩
                    }
          next large =>
              split at done
              · cases done
              next none =>
                  cases done
                  have all : last.dropped = payload.recentMessages.length := by
                    rw [oldest] at none
                    exact Nat.le_antisymm inside (List.drop_eq_nil_iff.mp none)
                  have spent (sent : Sent Cap Texts)
                      (later : Spent describe assemble finish payload rest last.dropped sent)
                      : Spent describe assemble finish payload (cap :: rest) first sent := by
                    have kept : sent.dropped = last.dropped :=
                      Nat.le_antisymm (all ▸ later.within) later.onward
                    obtain ⟨before, after, shape, others⟩ := later.shrunk
                    refine
                      {
                        described := later.described
                        assembled := later.assembled
                        onward := kept ▸ onward
                        within := later.within
                        shrunk := ⟨cap :: before, after, congrArg (cap :: ·) shape, ?_⟩
                        needed := fun count after before =>
                          ⟨cap, rfl, texts, described, needed count after (kept ▸ before)⟩
                      }
                    intro earlier mem
                    rcases List.mem_cons.mp mem with rfl | mem
                    · refine ⟨kept.trans all, texts, described, ?_⟩
                      rw [oldest] at large
                      exact kept ▸ large
                    · exact others earlier mem
                  obtain ⟨outcome, done, sound⟩ := ih inside
                  rw [oldest]
                  exact ⟨outcome, done, fun sent same => spent sent (sound sent same)⟩
          · cases done
            exact ⟨_, rfl, nofun⟩

end Loop

-- Wide requests

def maxRealOptions : Nat := 254

/-- `DESCRIPTION_CAPS`, from `WIDE_DESCRIPTION_MAX_SCALARS` on. -/
def descriptionCaps : List Nat := [160, 80, 40, 0]

def whichInstructions : String :=
  "Which available skill would most help the next step of this session? Planning, writing, " ++
    "analysis and explanation skills count; acting on files is not required. Choose __none__ " ++
    "when no listed skill adds useful guidance."

def noneDescription : String := "No listed skill adds useful guidance for the next step."

def specializedMethod : String :=
  "Would the next step benefit from a specialized method, reference, or procedure?"

def materialHelp : String :=
  "Would consulting a relevant skill materially improve correctness or execution here?"

def contextSuffices : String :=
  "Is the existing context sufficient without consulting any additional skill?"

def phaseInstructions : String := "Which phase best describes the next step of this session?"

def stuckInstructions : String :=
  "Is there evidence of repeated failure on the current task in this session?"

def stuckKey : String := "stuck"

def phases : List (String × String) :=
  [
    ("planning", "Deciding what to do or how to approach it."),
    ("implementing", "Writing or changing code, content or configuration."),
    ("debugging", "Diagnosing or fixing a failure."),
    ("testing", "Writing, running or interpreting tests."),
    ("reviewing", "Examining existing work for problems."),
    ("releasing", "Packaging, publishing or deploying."),
    ("conversing", "Discussion or explanation without a concrete change."),
    ("other", "None of the above.")
  ]

mutual

/-- The members of every object in the order of their keys, as a tree of values keeps them. -/
def keyOrdered : Json → Json
  | .array items => .array (keyOrderedItems items)
  | .object members =>
      .object
        ((keyOrderedMembers members).mergeSort fun left right => (compare left.1 right.1).isLE)
  | value => value

def keyOrderedItems : List Json → List Json
  | [] => []
  | item :: rest => keyOrdered item :: keyOrderedItems rest

def keyOrderedMembers : List (String × Json) → List (String × Json)
  | [] => []
  | (key, value) :: rest => (key, keyOrdered value) :: keyOrderedMembers rest

end

/-- The texts of the options, with what they leave out and how often they are redacted. -/
structure Descriptions where
  criteria : List (String × String)
  omitted : Nat
  redactions : Nat

/-- What a request has needed to fit. -/
structure Trimming where
  droppedMessages : Nat
  descriptionCap : Nat
  omittedDescriptionScalars : Nat
  redactions : Nat
deriving DecidableEq

/-- A built request: the bytes to send, and the options it asks about. -/
structure WideRequest where
  request : Draft
  options : OptionMap
  bytes : List Char
  trimming : Trimming

section Wide

-- the scan for secrets, and the full description of a record
variable (scanner : Scanner) (descriptionFull : SkillRecord → List Char)

/-- `Redactor::default` -/
def plainRedactor : Redactor := { entropy := false }

def describeOption (cap : Nat) (skill : AdvisorySkill)
    : Panicking WideError (List Char × Nat × Nat) := do
  let name ←
    returned
      ((plainRedactor.redactField scanner skill.binding.invocation.text.toList).mapError
        fun _ => .redaction)
  let description := descriptionFull skill.record
  if cap = 0 then return (name.text, description.length, name.redactions)
  else
    let excerpt ←
      (plainRedactor.redactFieldExcerpt scanner description cap).adapt fun _ => .redaction
    return (name.text ++ ": ".toList ++ excerpt.text, excerpt.omittedScalars,
      name.redactions + excerpt.redactions)

def optionDescriptions (options : OptionMap) (cap : Nat) : Panicking WideError Descriptions := do
  let described ←
    options.entries.toList.mapM fun entry => do
      let text ← describeOption scanner descriptionFull cap entry.2
      return (entry.1, text)
  return {
    criteria :=
      described.map (fun entry => (entry.1, String.ofList entry.2.1))
        ++ [(noneOption, noneDescription)]
    omitted := (described.map fun entry => entry.2.2.1).sum
    redactions := (described.map fun entry => entry.2.2.2).sum
  }

def noulQuestion (instructions : String) : DraftQuestion := .noul (.string instructions)

/-- `wide::assemble` -/
def assembleWide (model : String) (includeStuck : Bool) (state : RenderedContextPayload)
    (texts : Descriptions)
    : Except CodecError Draft := do
  let which ← DraftQuestion.newChoice (.string whichInstructions) texts.criteria
  let phase ← DraftQuestion.newChoice (.string phaseInstructions) phases
  let questions :=
    [
      (whichKey, which),
      (gateSpecializedMethod, noulQuestion specializedMethod),
      (gateMaterialHelp, noulQuestion materialHelp),
      (gateContextSuffices, noulQuestion contextSuffices),
      (phaseKey, phase)
    ]
  let stuck := if includeStuck then [(stuckKey, noulQuestion stuckInstructions)] else []
  Draft.new model (keyOrdered state.toJson) (questions ++ stuck)

def orderOptions (variant : WireVariant) (choice : String) (draft : Draft)
    : Except WideError Draft :=
  if variant = .reverseOptionOrder then (draft.withReversedChoice choice).mapError .codec
  else .ok draft

/-- The last steps: the order of the options, the bytes, and their inspection. -/
def finishRequest (variant : WireVariant) (choice : String) (draft : Draft)
    : Except WideError (Draft × List Char) := do
  let draft ← orderOptions variant choice draft
  let bytes ← draft.encode.mapError .codec
  let _ ← (plainRedactor.inspectPayload scanner bytes).mapError fun _ => .privacy
  return (draft, bytes)

def admittedOptions (roster : ResolvedRoster) (indexed : roster.Indexed) (admitted : List SkillId)
    (variant : WireVariant)
    : Except WideError OptionMap :=
  let options :=
    if variant = .renameOptionHandles then OptionMap.newRenamed roster indexed admitted
    else OptionMap.new roster indexed admitted
  options.mapError fun error => if error = .limit then .tooManyCandidates else .ineligibleCandidate

/-- `wide::build_with_variant`, or none where the fuel does not suffice. -/
def buildWide (fuel : Nat) (roster : ResolvedRoster) (indexed : roster.Indexed)
    (admitted : List SkillId) (state : RenderedContextPayload) (model : String)
    (includeStuck : Bool) (variant : WireVariant)
    : Option (Panicking WideError WideRequest) :=
  if admitted = [] then some (returned (.error .noCandidates))
  else if maxRealOptions < admitted.length then some (returned (.error .tooManyCandidates))
  else
    match admittedOptions roster indexed admitted variant with
    | .error error => some (returned (.error error))
    | .ok options =>
        (fitCaps (optionDescriptions scanner descriptionFull options)
            (assembleWide model includeStuck) (finishRequest scanner variant whichKey) fuel
            descriptionCaps (trimmedBy state 0)).map
          fun outcome => do
            let sent ← outcome
            return {
              request := sent.draft
              options := options
              bytes := sent.bytes
              trimming :=
                {
                  droppedMessages := sent.dropped
                  descriptionCap := sent.cap
                  omittedDescriptionScalars := sent.texts.omitted
                  redactions := sent.texts.redactions
                }
            }

-- What a wide request keeps

variable {scanner descriptionFull}

theorem mem_keyOrderedMembers {members : List (String × Json)} {key : String} {value : Json}
    (mem : (key, value) ∈ members)
    : (key, keyOrdered value) ∈ keyOrderedMembers members := by
  induction members with
  | nil => cases mem
  | cons first rest ih =>
      obtain ⟨name, held⟩ := first
      rw [keyOrderedMembers]
      rcases List.mem_cons.mp mem with same | later
      · cases same
        exact List.mem_cons_self
      · exact List.mem_cons_of_mem _ (ih later)

theorem mem_keyOrderedItems {items : List Json} {item : Json} (mem : item ∈ items)
    : keyOrdered item ∈ keyOrderedItems items := by
  induction items with
  | nil => cases mem
  | cons first rest ih =>
      rw [keyOrderedItems]
      rcases List.mem_cons.mp mem with rfl | later
      · exact List.mem_cons_self
      · exact List.mem_cons_of_mem _ (ih later)

theorem byteSize_cons (char : Char) (text : List Char)
    : byteSize (char :: text) = char.utf8Size + byteSize text := rfl

/-- An item of an array is no longer than the array, by induction on what follows the first. -/
theorem byteSize_item {items : List Json} {item : Json} (mem : item ∈ items)
    : byteSize item.write ≤ byteSize (Json.array items).write := by
  have among : byteSize item.write ≤ byteSize (writeItems items) := by
    induction items with
    | nil => cases mem
    | cons first rest ih =>
        rw [writeItems, List.cons_append, byteSize_cons, byteSize_append]
        rcases List.mem_cons.mp mem with rfl | later
        · omega
        · have shorter := ih later
          omega
  cases items with
  | nil => cases mem
  | cons first rest => exact among

/-- A member of an object is no longer than the object. -/
theorem byteSize_member {members : List (String × Json)} {key : String} {value : Json}
    (mem : (key, value) ∈ members)
    : byteSize value.write ≤ byteSize (Json.object members).write := by
  have among : byteSize value.write ≤ byteSize (writeMembers members) := by
    induction members with
    | nil => cases mem
    | cons first rest ih =>
        obtain ⟨name, held⟩ := first
        rw [writeMembers, byteSize_append, byteSize_append, byteSize_cons, byteSize_cons ':']
        rcases List.mem_cons.mp mem with same | later
        · cases same
          omega
        · have shorter := ih later
          omega
  cases members with
  | nil => cases mem
  | cons first rest => exact among

/-- A member of an object stays one of it in the order of the keys. -/
theorem byteSize_keyOrdered_member {members : List (String × Json)} {key : String} {value : Json}
    (mem : (key, value) ∈ members)
    : byteSize (keyOrdered value).write ≤ byteSize (keyOrdered (.object members)).write := by
  rw [keyOrdered]
  exact byteSize_member (List.mem_mergeSort.mpr (mem_keyOrderedMembers mem))

/-- The latest request is in the state of a request, whatever messages are dropped. -/
theorem latest_of_without (payload : RenderedContextPayload) (count : Nat)
    : ∃ members,
        keyOrdered (without payload count).toJson = .object members
        ∧ ("latest_user_request", Context.textJson payload.latestUserRequest) ∈ members := by
  refine ⟨_, by rw [RenderedContextPayload.toJson, keyOrdered], ?_⟩
  rw [List.mem_mergeSort]
  apply @mem_keyOrderedMembers _ _ (Context.textJson payload.latestUserRequest)
  simp [without]

variable {options : OptionMap}

/-- There is one text for each option, and one for none of them. -/
theorem keys_of_optionDescriptions {cap : Nat} {texts : Descriptions}
    (done : optionDescriptions scanner descriptionFull options cap = returned (.ok texts))
    : texts.criteria.map Prod.fst = options.entries.toList.map Prod.fst ++ [noneOption] := by
  obtain ⟨described, texted, done⟩ := bind_eq_returned.mp done
  cases done
  have keys {entries : List (String × AdvisorySkill)}
      {described : List (String × List Char × Nat × Nat)}
      (texted
        : entries.mapM (fun entry => do
              let text ← describeOption scanner descriptionFull cap entry.2
              return (entry.1, text))
          = returned (.ok described))
      : described.map Prod.fst = entries.map Prod.fst := by
    clear * - texted
    induction entries generalizing described with
    | nil =>
        cases texted
        rfl
    | cons entry rest ih =>
        rw [List.mapM_cons] at texted
        obtain ⟨first, described', texted⟩ := bind_eq_returned.mp texted
        obtain ⟨text, _, first'⟩ := bind_eq_returned.mp described'
        cases first'
        obtain ⟨others, later, texted⟩ := bind_eq_returned.mp texted
        cases texted
        rw [List.map_cons, List.map_cons, ih later]
  rw [List.map_append, List.map_map, ← keys texted]
  rfl

variable {state : RenderedContextPayload}

/-- An assembled request has the state that was given, and asks about the options of the texts. -/
theorem of_assembleWide {model : String} {includeStuck : Bool} {texts : Descriptions}
    {draft : Draft} (done : assembleWide model includeStuck state texts = .ok draft)
    : draft.state = keyOrdered state.toJson
      ∧ ∃ criteria,
          draft.questions[whichKey]? = some (.choice (.string whichInstructions) criteria)
          ∧ ∀ id text : String, criteria[id]? = some text ↔ (id, text) ∈ texts.criteria := by
  simp only [assembleWide, bind_eq_ok] at done
  obtain ⟨which, made, phase, _, done⟩ := done
  obtain ⟨_, state, asked, _⟩ := Draft.of_new done
  obtain ⟨criteria, rfl, held⟩ := DraftQuestion.of_newChoice made
  refine ⟨state, criteria, (asked _ _).mpr ?_, held⟩
  exact List.mem_cons_self

variable {variant : WireVariant}

/-- The last checks leave the state and the questions as they are. -/
theorem of_finishRequest {choice : String} {draft : Draft} {made : Draft × List Char}
    (done : finishRequest scanner variant choice draft = .ok made)
    : made.1.encode = .ok made.2 ∧ made.1.state = draft.state
      ∧ made.1.questions = draft.questions := by
  simp only [finishRequest, bind_eq_ok, mapError_eq_ok, pure_eq_ok] at done
  obtain ⟨ordered, chosen, bytes, written, _, _, rfl⟩ := done
  refine ⟨written, ?_⟩
  unfold orderOptions at chosen
  split at chosen
  · rw [Draft.of_withReversedChoice (mapError_eq_ok.mp chosen)]
    exact ⟨rfl, rfl⟩
  · cases chosen
    exact ⟨rfl, rfl⟩

variable {admitted : List SkillId}

theorem holds_of_admittedOptions {roster : ResolvedRoster} {indexed : roster.Indexed}
    (done : admittedOptions roster indexed admitted variant = .ok options)
    : options.Holds admitted := by
  unfold admittedOptions at done
  rw [mapError_eq_ok] at done
  split at done
  · exact OptionMap.holds_newRenamed done
  · exact OptionMap.holds_new done

variable (scanner descriptionFull) in
/-- A request that was made of all candidates, and of a payload without some of its messages. -/
structure TrimmedInOrder (admitted : List SkillId) (state : RenderedContextPayload)
    (request : WideRequest)
    : Prop where
  written : request.request.encode = .ok request.bytes
  bounded : byteSize request.bytes ≤ maxRequestBytes
  oldest
    : request.request.state = keyOrdered (without state request.trimming.droppedMessages).toJson
  dropped : request.trimming.droppedMessages ≤ state.recentMessages.length
  latest
    : ∃ members,
        request.request.state = .object members
        ∧ ("latest_user_request", Context.textJson state.latestUserRequest) ∈ members
  candidates : request.options.Holds admitted
  asked
    : ∃ criteria,
        request.request.questions[whichKey]? = some (.choice (.string whichInstructions) criteria)
        ∧ ∀ option : String,
            option ∈ criteria ↔ option = noneOption ∨ option ∈ request.options.entries
  excerpts
    : request.trimming.descriptionCap ∈ descriptionCaps
      ∧ (request.trimming.descriptionCap = 160
        ∨ request.trimming.droppedMessages = state.recentMessages.length)

/-- The text of a message that is left fits in a request as it is written. -/
theorem TrimmedInOrder.left_fits {request : WideRequest}
    (trimmed : TrimmedInOrder admitted state request) {message : RenderedMessage}
    {text : List Char}
    (left : message ∈ state.recentMessages.drop request.trimming.droppedMessages)
    (spoken : message.text = some text)
    : byteSize (quotedText text) ≤ maxRequestBytes := by
  obtain ⟨written, bounded⟩ := Draft.of_encode trimmed.written
  let messages := (state.recentMessages.drop request.trimming.droppedMessages).map
    RenderedMessage.toJson
  have said : ("text", Context.textJson text)
      ∈ ("role", .string message.role)
          :: Context.optionalMember "tool" (message.tool.map Context.textJson)
        ++ Context.optionalMember "status" (message.status.map .string)
        ++ Context.optionalMember "summary" (message.summary.map Context.textJson)
        ++ Context.optionalMember "text" (message.text.map Context.textJson) := by
    simp [Context.optionalMember, spoken]
  have listed : message.toJson ∈ messages := List.mem_map_of_mem left
  calc byteSize (quotedText text)
    _ = byteSize (keyOrdered (Context.textJson text)).write := by
      simp [Context.textJson, keyOrdered, Json.write]
    _ ≤ byteSize (keyOrdered message.toJson).write := byteSize_keyOrdered_member said
    _ ≤ byteSize (keyOrdered (.array messages)).write := by
      rw [keyOrdered]
      exact byteSize_item (mem_keyOrderedItems listed)
    _ ≤ byteSize request.request.state.write := by
      rw [trimmed.oldest, RenderedContextPayload.toJson]
      exact @byteSize_keyOrdered_member _ "recent_messages" _ (by simp [without, messages])
    _ ≤ byteSize request.request.toJson.write := @byteSize_member _ "state" _ (by simp)
    _ ≤ maxRequestBytes := written ▸ bounded

theorem Spent.trimmedInOrder {model : String} {includeStuck : Bool} {sent : Sent Nat Descriptions}
    (holds : options.Holds admitted)
    (spent
      : Spent (optionDescriptions scanner descriptionFull options)
          (assembleWide model includeStuck) (finishRequest scanner variant whichKey) state
          descriptionCaps 0 sent)
    : TrimmedInOrder admitted state
        {
          request := sent.draft
          options := options
          bytes := sent.bytes
          trimming :=
            {
              droppedMessages := sent.dropped
              descriptionCap := sent.cap
              omittedDescriptionScalars := sent.texts.omitted
              redactions := sent.texts.redactions
            }
        } := by
  obtain ⟨draft, made, finished⟩ := spent.assembled
  obtain ⟨written, sameState, sameQuestions⟩ := of_finishRequest finished
  obtain ⟨stateIs, criteria, asked, held⟩ := of_assembleWide made
  obtain ⟨before, after, shape, large⟩ := spent.shrunk
  have keys := keys_of_optionDescriptions spent.described
  have oldest := sameState.trans stateIs
  refine
    {
      written := written
      bounded := (Draft.of_encode written).2
      oldest := oldest
      dropped := spent.within
      latest := ?_
      candidates := holds
      asked := ⟨criteria, sameQuestions ▸ asked, ?_⟩
      excerpts := ⟨?_, ?_⟩
    }
  · obtain ⟨members, is, mem⟩ := latest_of_without state sent.dropped
    exact ⟨members, oldest.trans is, mem⟩
  · intro option
    have texts : option ∈ criteria ↔ option ∈ sent.texts.criteria.map Prod.fst := by
      rw [mem_iff_getElem?, List.mem_map]
      constructor
      · rintro ⟨text, found⟩
        exact ⟨(option, text), (held option text).mp found, rfl⟩
      · rintro ⟨⟨_, text⟩, mem, rfl⟩
        exact ⟨text, (held _ text).mpr mem⟩
    rw [texts, keys, List.mem_append, List.mem_singleton, TreeMap.map_fst_toList_eq_keys,
      TreeMap.mem_keys, or_comm]
  · rw [shape]
    exact List.mem_append_right _ List.mem_cons_self
  · cases before with
    | nil => exact .inl (List.cons.inj shape).1.symm
    | cons cap rest => exact .inr (large cap List.mem_cons_self).1

/-- Payload trimming: a wide request is built or refused after finitely many passes, and a built
one is within its bytes, has every candidate, the option for none and the latest request, has lost
the oldest messages only, and has shorter excerpts only where it has lost them all.
-/
theorem buildWide_trimmedInOrder (roster : ResolvedRoster) (indexed : roster.Indexed)
    (admitted : List SkillId) (state : RenderedContextPayload) (model : String)
    (includeStuck : Bool) (variant : WireVariant) {fuel : Nat}
    (enough : state.recentMessages.length < fuel)
    : ∃ outcome,
        buildWide scanner descriptionFull fuel roster indexed admitted state model includeStuck
            variant
          = some outcome
        ∧ ∀ request,
            outcome = returned (.ok request) → TrimmedInOrder admitted state request := by
  unfold buildWide
  split
  · exact ⟨_, rfl, nofun⟩
  · split
    · exact ⟨_, rfl, nofun⟩
    · split
      · exact ⟨_, rfl, nofun⟩
      next options chosen =>
          obtain ⟨outcome, ended, spent⟩ :=
            @fitCaps_ends _ _ (optionDescriptions scanner descriptionFull options)
              (assembleWide model includeStuck) (finishRequest scanner variant whichKey) state fuel 0
              descriptionCaps (Nat.zero_le _) enough
          rw [ended]
          refine ⟨_, rfl, ?_⟩
          intro request built
          obtain ⟨sent, sentIs, made⟩ := bind_eq_returned.mp built
          cases made
          exact (spent sent sentIs).trimmedInOrder (holds_of_admittedOptions chosen)

end Wide

def soleRoster : ResolvedRoster where
  skills :=
    [
      {
        record := (sampleEntry "a" 1 "x").record
        bindings := [(sampleEntry "a" 1 "x").binding]
      }
    ]
  ids := .ofList [("a", (0, 0))]
  names := ∅
  partialCoverage := false

theorem soleRoster_indexed : soleRoster.Indexed := by
  intro id position binding known here
  obtain ⟨rfl, rfl⟩ := getElem?_ofList_singleton.mp known
  cases here
  rfl

def oldMessage : RenderedMessage where
  role := "user"
  tool := none
  status := none
  summary := none
  text := some (List.replicate maxRequestBytes 'a')

def longPayload : RenderedContextPayload where
  schemaVersion := 1
  contextProfile := .standard
  harness := "h"
  contextQuality := .complete
  projectSignals := {
    languages := []
    toolsOnPath := []
    dirtyPaths := []
    dirtyPathsTruncated := false
  }
  sessionState := {
    loadedReferences := []
    loadedState := "observed".toList
    explicitExclusions := []
  }
  recentMessages :=
    [
      oldMessage,
      {
        role := "assistant"
        tool := none
        status := none
        summary := none
        text := some "Hi.".toList
      }
    ]
  latestUserRequest := "Review this.".toList

theorem byteSize_quoted_replicate (count : Nat)
    : byteSize (quotedText (List.replicate count 'a')) = count + 2 := by
  have plain : escaped 'a' = ['a'] := rfl
  have single : Char.utf8Size 'a' = 1 := rfl
  have quote : Char.utf8Size '"' = 1 := rfl
  simp [quotedText, List.flatMap_replicate, plain, byteSize, single, quote]
  omega

/-- A request about one skill is built or refused. Where it is built, it keeps the skill, and has
lost the message that no request has room for.
-/
theorem buildWide_oldMessage
    : ∃ outcome,
        buildWide
            { wordBeyondAscii := fun _ => false, highEntropy := fun _ => false, punctuation := rfl }
            (fun _ => "Reviews changes.".toList) 3 soleRoster soleRoster_indexed ["a"] longPayload
            "jev-latest" false .canonical
          = some outcome
        ∧ ∀ request,
            outcome = returned (.ok request)
            → TrimmedInOrder ["a"] longPayload request
              ∧ 1 ≤ request.trimming.droppedMessages := by
  obtain ⟨outcome, ended, trimmed⟩ :=
    buildWide_trimmedInOrder _ _ _ longPayload _ _ _ (Nat.lt_succ_self 2)
  refine ⟨outcome, ended, ?_⟩
  intro request built
  refine ⟨trimmed request built, ?_⟩
  by_contra all
  have none : request.trimming.droppedMessages = 0 := by omega
  have left : oldMessage ∈ longPayload.recentMessages.drop request.trimming.droppedMessages := by
    rw [none]
    exact List.mem_cons_self
  have fits := (trimmed request built).left_fits left rfl
  rw [byteSize_quoted_replicate] at fits
  omega

end SkillRanker.Jev
