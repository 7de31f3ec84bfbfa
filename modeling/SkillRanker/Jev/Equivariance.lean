import Mathlib.Logic.Equiv.Basic
import Mathlib.Logic.Equiv.Set
import SkillRanker.Roster.Permutation
import SkillRanker.Jev.Validation
import SkillRanker.Jev.Wide

/-! Renaming the handles of a request, and the questions whether they fit, changes no decision.
-/

namespace SkillRanker.Jev

open SkillRanker.Library
open SkillRanker.Roster
open Std (TreeMap TransCmp LawfulEqCmp OrientedCmp)

variable {key other : String} {rename : Equiv.Perm String} {arithmetic : Arithmetic}
  {one two : Shortlisted} {options : OptionMap}

/-- New handles. The option for no skill keeps its name, and so do the questions that name no
handle.
-/
structure HandleNaming where
  handles : Equiv.Perm String
  questions : Equiv.Perm String
  sentinel : handles noneOption = noneOption
  fits : ∀ handle, questions (fitKey handle) = fitKey (handles handle)
  fixed : ∀ key, (∀ handle, key ≠ fitKey handle) → questions key = key

def HandleNaming.naming (names : HandleNaming) : Naming :=
  {
    questions := names.questions
    options := fun key => if key = whichKey ∨ key = rerankKey then names.handles else .refl _
  }

/-- A request and its options under new handles. -/
structure StageRenamed (names : HandleNaming) (left right : StageRequest) : Prop where
  request : RequestRenamed names.naming left.request right.request
  options : Renamed names.handles left.options.entries right.options.entries

structure SameWide (left right : WideOutcome) : Prop where
  needsSkill : right.needsSkill = left.needsSkill
  noneProbability : right.noneProbability = left.noneProbability
  choiceConfidence : right.choiceConfidence = left.choiceConfidence
  phase : ∀ option : String, right.phase[option]? = left.phase[option]?
  top : right.top = left.top
  decision : right.decision = left.decision
  intrinsicShortlist : right.intrinsicShortlist = left.intrinsicShortlist

structure SameRerank (left right : RerankOutcome) : Prop where
  noneProbability : right.noneProbability = left.noneProbability
  choiceConfidence : right.choiceConfidence = left.choiceConfidence
  candidates : right.candidates.Perm left.candidates
  estimates : ∀ id : SkillId, right.estimates[id]? = left.estimates[id]?

-- Answers under their keys

/-- A key of other letters than `fits::` is no question of a handle. -/
theorem ne_fitKey (other : key.toList.head? ≠ some 'f') (handle : String)
    : key ≠ fitKey handle := by
  rintro rfl
  rw [fitKey, String.toList_append] at other
  exact other rfl

section Answers

variable {names : HandleNaming} {response renamed : Response}

theorem answer_fixed (same : ResponseRenamed names.naming response renamed) (key : String)
    (other : key.toList.head? ≠ some 'f')
    : Option.Rel (AnswerRenamed (names.naming.options key)) response.answers[key]?
        renamed.answers[key]? := by
  have related := same.answers key
  rwa [show names.naming.questions key = key from names.fixed key (ne_fitKey other)] at related

section

variable
  (related : Option.Rel (AnswerRenamed rename) response.answers[key]? renamed.answers[other]?)
include related

theorem noulAnswer_related
    : noulAnswer response key = noulAnswer renamed other := by
  unfold noulAnswer
  generalize response.answers[key]? = left at related
  generalize renamed.answers[other]? = right at related
  cases related with
  | none => rfl
  | some same => cases same <;> rfl

theorem choiceAnswer_related
    : Alike (ChoiceRenamed rename) (choiceAnswer response key) (choiceAnswer renamed other) := by
  unfold choiceAnswer
  generalize response.answers[key]? = left at related
  generalize renamed.answers[other]? = right at related
  cases related with
  | none => exact .error _
  | some same =>
      cases same with
      | noul => exact .error _
      | choice same => exact .ok same

end

end Answers

variable (names : HandleNaming)

theorem HandleNaming.options_of_choice (choice : key = whichKey ∨ key = rerankKey)
    : names.naming.options key = names.handles :=
  if_pos choice

theorem HandleNaming.options_of_other (notWhich : key ≠ whichKey) (notRerank : key ≠ rerankKey)
    : names.naming.options key = .refl _ :=
  if_neg (not_or.mpr ⟨notWhich, notRerank⟩)

variable {left right : ChoiceAnswer}

theorem ChoiceRenamed.normalizedProbability (same : ChoiceRenamed rename left right)
    (arithmetic : Arithmetic) (option : String)
    : right.normalizedProbability arithmetic (rename option)
      = left.normalizedProbability arithmetic option := by
  rw [ChoiceAnswer.normalizedProbability, ChoiceAnswer.normalizedProbability,
    same.rawProbabilities, same.rawSum]

/-- The option for no skill has its probability under its own name. -/
theorem ChoiceRenamed.noneProbability {names : HandleNaming}
    (same : ChoiceRenamed names.handles left right)
    : left.normalizedProbability arithmetic noneOption
      = right.normalizedProbability arithmetic noneOption := by
  rw [← same.normalizedProbability, names.sentinel]

theorem ChoiceRenamed.normalizedProbabilities (same : ChoiceRenamed (.refl _) left right)
    (arithmetic : Arithmetic) (option : String)
    : (right.normalizedProbabilities arithmetic)[option]?
      = (left.normalizedProbabilities arithmetic)[option]? := by
  rw [ChoiceAnswer.normalizedProbabilities, ChoiceAnswer.normalizedProbabilities,
    TreeMap.getElem?_map, TreeMap.getElem?_map, same.rawSum]
  exact congrArg _ (same.rawProbabilities option)

-- The wide stage

theorem ranksBefore_trans {three : Shortlisted} (first : ranksBefore one two = true)
    (second : ranksBefore two three = true)
    : ranksBefore one three = true := by
  simp only [ranksBefore, Bool.or_eq_true, Bool.and_eq_true, decide_eq_true_eq] at *
  rcases first with above | ⟨level, before⟩
  · left
    rcases second with further | ⟨same, _⟩
    · exact further.trans above
    · rw [← same]
      exact above
  · rcases second with further | ⟨same, later⟩
    · left
      rw [level]
      exact further
    · right
      exact ⟨level.trans same, TransCmp.isLE_trans before later⟩

theorem ranksBefore_total (one two : Shortlisted)
    : (ranksBefore one two || ranksBefore two one) = true := by
  have ids
      : ((compare one.skill.binding.id two.skill.binding.id).isLE
          || (compare two.skill.binding.id one.skill.binding.id).isLE) = true :=
    isLE_total _ _
  simp only [ranksBefore, Bool.or_eq_true, Bool.and_eq_true, decide_eq_true_eq] at *
  rcases lt_trichotomy one.wideProbability two.wideProbability with below | same | above
  · exact .inr (.inl below)
  · rcases ids with before | after
    · exact .inl (.inr ⟨same, before⟩)
    · exact .inr (.inr ⟨same.symm, after⟩)
  · exact .inl (.inl above)

/-- Ranked both ways, two skills have one probability and one id. -/
theorem ranksBefore_antisymm (first : ranksBefore one two = true)
    (second : ranksBefore two one = true)
    : one.wideProbability = two.wideProbability
      ∧ one.skill.binding.id = two.skill.binding.id := by
  simp only [ranksBefore, Bool.or_eq_true, Bool.and_eq_true, decide_eq_true_eq] at *
  rcases first with above | ⟨same, before⟩
  · rcases second with below | ⟨same, _⟩
    · exact absurd (below.trans above) (lt_irrefl _)
    · exact absurd above (by rw [same]; exact lt_irrefl _)
  · rcases second with below | ⟨_, after⟩
    · exact absurd below (by rw [same]; exact lt_irrefl _)
    · exact ⟨same, LawfulEqCmp.eq_of_compare (OrientedCmp.isLE_antisymm before after)⟩

/-- Two options with one probability and one skill id are one option. -/
theorem shortlisted_apart {which : ChoiceAnswer} {found : List Shortlisted}
    (done : options.entries.toList.mapM (shortlisted arithmetic which) = some found)
    (hasOne : one ∈ found) (hasTwo : two ∈ found)
    (probability : one.wideProbability = two.wideProbability)
    (id : one.skill.binding.id = two.skill.binding.id)
    : one = two := by
  obtain ⟨⟨left, first⟩, inLeft, hasFirst⟩ := of_mem_mapM done hasOne
  obtain ⟨⟨right, second⟩, inRight, hasSecond⟩ := of_mem_mapM done hasTwo
  simp only [shortlisted, Option.map_eq_some_iff] at hasFirst hasSecond
  obtain ⟨_, _, rfl⟩ := hasFirst
  obtain ⟨_, _, rfl⟩ := hasSecond
  rw [TreeMap.mem_toList_iff_getElem?_eq_some] at inLeft inRight
  obtain rfl := options.apart left right first second inLeft inRight id
  rw [inLeft, Option.some.injEq] at inRight
  obtain rfl := inRight
  obtain rfl := probability
  rfl

theorem rankOptions_renamed {names : HandleNaming} (arithmetic : Arithmetic) {others : OptionMap}
    (renamed : Renamed names.handles options.entries others.entries) {which answered : ChoiceAnswer}
    (same : ChoiceRenamed names.handles which answered)
    : Alike Eq (rankOptions arithmetic options which) (rankOptions arithmetic others answered) := by
  have views (entry : String × AdvisorySkill)
      : shortlisted arithmetic answered (Prod.map names.handles id entry)
        = shortlisted arithmetic which entry := by
    rw [shortlisted, Prod.map_fst, same.normalizedProbability, Prod.map_snd, id, shortlisted]
  have found := renamed.mapM views
  unfold rankOptions
  cases first : options.entries.toList.mapM (shortlisted arithmetic which) with
  | none =>
      rw [first] at found
      generalize others.entries.toList.mapM (shortlisted arithmetic answered) = second at found
      cases found
      exact .error _
  | some ranked =>
      rw [first] at found
      generalize others.entries.toList.mapM (shortlisted arithmetic answered) = second at found
      cases found with
      | some perm =>
          refine .ok (mergeSort_eq_of_perm perm (fun _ _ _ => ranksBefore_trans)
            ranksBefore_total ?_)
          intro one hasOne two hasTwo below above
          obtain ⟨probability, id⟩ := ranksBefore_antisymm below above
          exact shortlisted_apart first hasOne hasTwo probability id

theorem size_renamed {names : HandleNaming} {others : OptionMap}
    (renamed : Renamed names.handles options.entries others.entries)
    : others.entries.size = options.entries.size := by
  rw [← TreeMap.length_toList, ← TreeMap.length_toList, ← renamed.toList_perm.length_eq,
    List.length_map]

section Evaluation

variable {names : HandleNaming} {left right : StageRequest} {response renamed : Response}

/-- The wide stage decides the same about a renamed response. -/
theorem evaluateWide_renamed (arithmetic : Arithmetic)
    (options : Renamed names.handles left.options.entries right.options.entries)
    (same : ResponseRenamed names.naming response renamed) (gate : ℚ) (sizes : Sizes)
    : Alike SameWide (evaluateWide arithmetic left response gate sizes)
        (evaluateWide arithmetic right renamed gate sizes) := by
  have fixed (key : String) (other : key.toList.head? ≠ some 'f')
      : noulAnswer response key = noulAnswer renamed key :=
    noulAnswer_related (answer_fixed same key other)
  have choice := answer_fixed same whichKey (by decide)
  have phase := answer_fixed same phaseKey (by decide)
  rw [names.options_of_choice (.inl rfl)] at choice
  rw [names.options_of_other (by decide) (by decide)] at phase
  unfold evaluateWide
  rw [fixed gateSpecializedMethod (by decide), fixed gateMaterialHelp (by decide),
    fixed gateContextSuffices (by decide)]
  refine (Alike.refl _).bind ?_
  rintro gate _ rfl
  refine (Alike.refl _).bind ?_
  rintro specializedMethod _ rfl
  refine (Alike.refl _).bind ?_
  rintro materialHelp _ rfl
  refine (Alike.refl _).bind ?_
  rintro contextSuffices _ rfl
  refine (choiceAnswer_related choice).bind ?_
  intro which answered sameWhich
  refine (choiceAnswer_related phase).bind ?_
  intro asked answeredPhase samePhase
  rw [← sameWhich.noneProbability, size_renamed options]
  refine (Alike.refl _).bind ?_
  rintro noneProbability _ rfl
  refine (rankOptions_renamed arithmetic options sameWhich).bind ?_
  rintro sorted _ rfl
  exact .ok ⟨rfl, rfl, sameWhich.confidence, samePhase.normalizedProbabilities arithmetic, rfl,
    rfl, rfl⟩

variable {choice : ChoiceAnswer}

theorem estimate_renamed (arithmetic : Arithmetic)
    (same : ResponseRenamed names.naming response renamed) {answered : ChoiceAnswer}
    (sameChoice : ChoiceRenamed names.handles choice answered) (handle : String)
    : estimate arithmetic renamed answered (names.handles handle)
      = estimate arithmetic response choice handle := by
  have fit := same.answers (fitKey handle)
  rw [show names.naming.questions (fitKey handle) = fitKey (names.handles handle) from
    names.fits handle] at fit
  rw [estimate, estimate, sameChoice.normalizedProbability, noulAnswer_related fit]

theorem candidates_nodup {candidates : List (AdvisorySkill × Estimate)}
    (done
      : options.entries.toList.mapM (candidate arithmetic response choice) = some candidates)
    : ((candidates.map (fun entry => (entry.1.binding.id, entry.2))).map Prod.fst).Nodup := by
  have ids
      : candidates.map (fun entry => entry.1.binding.id)
        = options.entries.toList.map (fun entry => entry.2.binding.id) := by
    refine map_of_mapM ?_ done
    intro entry value found
    obtain ⟨_, _, rfl⟩ := Option.map_eq_some_iff.mp found
    rfl
  have names : Prod.fst ∘ (fun entry : AdvisorySkill × Estimate => (entry.1.binding.id, entry.2))
      = fun entry => entry.1.binding.id := rfl
  rw [List.map_map, names, ids]
  refine (nodup_toList options.entries).map_on ?_
  rintro ⟨left, first⟩ inLeft ⟨right, second⟩ inRight same
  rw [TreeMap.mem_toList_iff_getElem?_eq_some] at inLeft inRight
  obtain rfl := options.apart left right first second inLeft inRight same
  rw [inLeft, Option.some.injEq] at inRight
  rw [inRight]

theorem evaluateRerank_renamed (arithmetic : Arithmetic)
    (options : Renamed names.handles left.options.entries right.options.entries)
    (same : ResponseRenamed names.naming response renamed)
    : Alike SameRerank (evaluateRerank arithmetic left response)
        (evaluateRerank arithmetic right renamed) := by
  have choice := answer_fixed same rerankKey (by decide)
  rw [names.options_of_choice (.inr rfl)] at choice
  refine (choiceAnswer_related choice).bind ?_
  intro choice answered sameChoice
  rw [← sameChoice.noneProbability]
  refine (Alike.refl _).bind ?_
  rintro noneProbability _ rfl
  have views (entry : String × AdvisorySkill)
      : candidate arithmetic renamed answered (Prod.map names.handles id entry)
        = candidate arithmetic response choice entry := by
    rw [candidate, Prod.map_fst, estimate_renamed arithmetic same sameChoice, Prod.map_snd, id,
      candidate]
  have found := options.mapM views
  cases first : left.options.entries.toList.mapM (candidate arithmetic response choice) with
  | none =>
      rw [first] at found
      generalize right.options.entries.toList.mapM (candidate arithmetic renamed answered)
        = second at found
      cases found
      exact .error _
  | some candidates =>
      cases second : right.options.entries.toList.mapM (candidate arithmetic renamed answered) with
      | none =>
          rw [first, second] at found
          cases found
      | some others =>
          rw [first, second] at found
          cases found with
          | some perm =>
              refine .ok ⟨rfl, sameChoice.confidence, perm.symm, ?_⟩
              intro id
              refine Option.ext ?_
              intro value
              rw [RerankOutcome.estimates, RerankOutcome.estimates,
                getElem?_ofList_iff (candidates_nodup second),
                getElem?_ofList_iff (candidates_nodup first)]
              exact (perm.symm.map _).mem_iff

/-- A response and its renaming are accepted together, and then both stages decide the same
about them: the shortlist in one order, the estimates under one id each.
-/
theorem handles_equivariant (arithmetic : Arithmetic) (names : HandleNaming)
    (left right : StageRequest) (document other : Document)
    (sameStage : StageRenamed names left right)
    (sameDocument : DocumentRenamed names.naming document other)
    : ((∃ response, decodeResponse arithmetic left.request document = .ok response)
        ↔ ∃ response, decodeResponse arithmetic right.request other = .ok response)
      ∧ ∀ response renamed,
          decodeResponse arithmetic left.request document = .ok response
          → decodeResponse arithmetic right.request other = .ok renamed
          → (∀ gate sizes,
              Alike SameWide (evaluateWide arithmetic left response gate sizes)
                (evaluateWide arithmetic right renamed gate sizes))
            ∧ Alike SameRerank (evaluateRerank arithmetic left response)
                (evaluateRerank arithmetic right renamed) := by
  refine ⟨accepted_iff sameStage.request sameDocument, ?_⟩
  intro response renamed first second
  have same := decodeResponse_renamed sameStage.request sameDocument first second
  exact ⟨evaluateWide_renamed arithmetic sameStage.options same,
    evaluateRerank_renamed arithmetic sameStage.options same⟩

end Evaluation

-- Renamings of handles

theorem fitKey_injective : Function.Injective fitKey := by
  intro left right same
  exact String.append_right_inj _ |>.mp same

theorem HandleNaming.exists_of_handles (handles : Equiv.Perm String)
    (sentinel : handles noneOption = noneOption)
    : ∃ names : HandleNaming, names.handles = handles := by
  classical
  let keys := Equiv.ofInjective fitKey fitKey_injective
  refine ⟨⟨handles, handles.extendDomain keys, sentinel, ?_, ?_⟩, rfl⟩
  · intro handle
    exact handles.extendDomain_apply_image keys handle
  · intro key other
    refine Equiv.Perm.extendDomain_apply_not_subtype handles keys ?_
    rintro ⟨handle, rfl⟩
    exact other handle rfl

-- Stages that ask everything

section Asked

variable {stage : StageRequest} {document : Document} {response : Response}

/-- A decoded response answers each question, validly. -/
theorem answer_of_asked (done : decodeResponse arithmetic stage.request document = .ok response)
    {question : Question} (asked : stage.request.questions[key]? = some question)
    : ∃ written answer,
        validateAnswer arithmetic question written = .ok answer
        ∧ response.answers[key]? = some answer := by
  obtain ⟨wire, accepted, -, -, -, answers⟩ := decoded_answers done
  have inWire := (accepted.keys key).mp (mem_iff_getElem?.mpr ⟨_, asked⟩)
  obtain ⟨⟨_, written⟩, mem, rfl⟩ := List.mem_map.mp inWire
  obtain ⟨answer, known, same, valid⟩ := accepted.answers _ written mem
  have found := (answers _ answer).mpr ⟨written, mem, known, same, valid⟩
  cases asked.symm.trans same
  exact ⟨written, answer, valid, found⟩

theorem noulAnswer_of_asked (done : decodeResponse arithmetic stage.request document = .ok response)
    (asked : stage.request.questions[key]? = some .noul)
    : ∃ value, noulAnswer response key = .ok value := by
  obtain ⟨written, answer, valid, found⟩ := answer_of_asked done asked
  cases written with
  | choice => cases valid
  | noul value =>
      simp only [validateAnswer, bind_eq_ok, pure_eq_ok] at valid
      obtain ⟨_, _, rfl⟩ := valid
      exact ⟨value, by rw [noulAnswer, found]⟩

theorem choiceAnswer_of_asked
    (done : decodeResponse arithmetic stage.request document = .ok response)
    {criteria : TreeMap String String compare}
    (asked : stage.request.questions[key]? = some (.choice criteria))
    : ∃ answer, choiceAnswer response key = .ok answer
        ∧ ∀ option ∈ criteria, ∃ probability,
            answer.normalizedProbability arithmetic option = some probability := by
  obtain ⟨written, answer, valid, found⟩ := answer_of_asked done asked
  cases written with
  | noul => cases valid
  | choice name probabilities confidence =>
      obtain ⟨choice, checked, rfl⟩ := map_eq_ok.mp valid
      obtain ⟨chosen, rfl⟩ := validateChoice_ok.mp checked
      refine ⟨_, by rw [choiceAnswer, found], fun option isOption => ?_⟩
      obtain ⟨value, held⟩ := mem_iff_getElem?.mp ((keys_eq_iff.mp chosen.sameOptions option).mp isOption)
      exact ⟨_, congrArg (Option.map _) held⟩

/-- The stage asks about its handles and the option for no skill. -/
def Offers (stage : StageRequest) (key : String) : Prop :=
  ∃ criteria, stage.request.questions[key]? = some (.choice criteria)
    ∧ noneOption ∈ criteria ∧ ∀ handle ∈ stage.options.entries, handle ∈ criteria

/-- A lookup that finds each element finds all. -/
theorem exists_mapM {α β : Type} {view : α → Option β} {all : List α}
    (each : ∀ element ∈ all, ∃ value, view element = some value)
    : ∃ found, all.mapM view = some found := by
  induction all with
  | nil => exact ⟨[], rfl⟩
  | cons first rest ih =>
      obtain ⟨value, here⟩ := each first List.mem_cons_self
      obtain ⟨found, later⟩ := ih fun element mem => each element (List.mem_cons_of_mem _ mem)
      exact ⟨value :: found, by rw [List.mapM_cons, here, later]; rfl⟩

theorem mem_of_toList {entries : TreeMap String AdvisorySkill compare}
    {entry : String × AdvisorySkill} (mem : entry ∈ entries.toList)
    : entry.1 ∈ entries :=
  mem_iff_getElem?.mpr ⟨_, TreeMap.mem_toList_iff_getElem?_eq_some.mp mem⟩

theorem evaluateWide_ok (done : decodeResponse arithmetic stage.request document = .ok response)
    (gates : ∀ key ∈ [gateSpecializedMethod, gateMaterialHelp, gateContextSuffices],
      stage.request.questions[key]? = some .noul)
    (offers : Offers stage whichKey) {phases : TreeMap String String compare}
    (phase : stage.request.questions[phaseKey]? = some (.choice phases))
    {gate : ℚ} (valid : validateGate gate = .ok gate) (sizes : Sizes)
    : ∃ outcome, evaluateWide arithmetic stage response gate sizes = .ok outcome := by
  obtain ⟨specializedMethod, first⟩ :=
    noulAnswer_of_asked done (gates gateSpecializedMethod (by simp))
  obtain ⟨materialHelp, second⟩ := noulAnswer_of_asked done (gates gateMaterialHelp (by simp))
  obtain ⟨contextSuffices, third⟩ := noulAnswer_of_asked done (gates gateContextSuffices (by simp))
  obtain ⟨criteria, asked, none, handles⟩ := offers
  obtain ⟨which, chosen, probabilities⟩ := choiceAnswer_of_asked done asked
  obtain ⟨answered, isPhase, -⟩ := choiceAnswer_of_asked done phase
  obtain ⟨noneProbability, isNone⟩ := probabilities noneOption none
  obtain ⟨ranked, found⟩ : ∃ ranked,
      stage.options.entries.toList.mapM (shortlisted arithmetic which) = some ranked := by
    refine exists_mapM fun entry mem => ?_
    obtain ⟨probability, held⟩ := probabilities _ (handles _ (mem_of_toList mem))
    exact ⟨_, by rw [shortlisted, held]; rfl⟩
  have sorted : rankOptions arithmetic stage.options which = .ok (ranked.mergeSort ranksBefore) := by
    rw [rankOptions, found]
    rfl
  simp only [evaluateWide, valid, first, second, third, chosen, isPhase, ok_bind]
  rw [isNone, sorted]
  exact ⟨_, rfl⟩

theorem evaluateRerank_ok (done : decodeResponse arithmetic stage.request document = .ok response)
    (offers : Offers stage rerankKey)
    (fits : ∀ handle ∈ stage.options.entries,
      stage.request.questions[fitKey handle]? = some .noul)
    : ∃ outcome, evaluateRerank arithmetic stage response = .ok outcome := by
  obtain ⟨criteria, asked, none, handles⟩ := offers
  obtain ⟨choice, chosen, probabilities⟩ := choiceAnswer_of_asked done asked
  obtain ⟨noneProbability, isNone⟩ := probabilities noneOption none
  obtain ⟨candidates, found⟩ : ∃ candidates,
      stage.options.entries.toList.mapM (candidate arithmetic response choice)
        = some candidates := by
    refine exists_mapM fun entry mem => ?_
    obtain ⟨probability, held⟩ := probabilities _ (handles _ (mem_of_toList mem))
    obtain ⟨value, fit⟩ := noulAnswer_of_asked done (fits _ (mem_of_toList mem))
    exact ⟨_, by rw [candidate, estimate, held, fit]; rfl⟩
  simp only [evaluateRerank, chosen, ok_bind]
  rw [isNone, found]
  exact ⟨_, rfl⟩

end Asked

/-- Handles that a request may offer, each with a skill of its own. -/
structure Listed (entries : List (String × AdvisorySkill)) : Prop where
  distinct : (entries.map Prod.fst).Nodup
  handles : ∀ entry ∈ entries, optionId entry.1 = .ok entry.1
  apart : (entries.map fun entry => entry.2.binding.id).Nodup

def optionsOf (entries : List (String × AdvisorySkill)) (listed : Listed entries) : OptionMap :=
  {
    entries := .ofList entries
    handles := by
      intro handle member
      obtain ⟨skill, found⟩ := mem_iff_getElem?.mp member
      exact listed.handles _ ((getElem?_ofList_iff listed.distinct).mp found)
    apart := by
      intro left right first second inLeft inRight same
      rw [getElem?_ofList_iff listed.distinct] at inLeft inRight
      exact congrArg Prod.fst (List.inj_on_of_nodup_map listed.apart inLeft inRight same)
  }

/-- The options of a choice among handles. -/
def criteriaOf (handles : List String) : TreeMap String String compare :=
  .ofList ((noneOption :: handles).map (·, ""))

def questionsOf (handles : List String) : List (String × Question) :=
  [
    (gateSpecializedMethod, .noul),
    (gateMaterialHelp, .noul),
    (gateContextSuffices, .noul),
    (whichKey, .choice (criteriaOf handles)),
    (phaseKey, .choice (.ofList [("plan", "")])),
    (rerankKey, .choice (criteriaOf handles))
  ] ++ handles.map (fitKey ·, .noul)

def stageOf (entries : List (String × AdvisorySkill)) (listed : Listed entries) : StageRequest :=
  {
    request := { model := "model", questions := .ofList (questionsOf (entries.map Prod.fst)) }
    options := optionsOf entries listed
  }

def fixedKeys : List String :=
  [gateSpecializedMethod, gateMaterialHelp, gateContextSuffices, whichKey, phaseKey, rerankKey]

theorem ne_fitKey_of_fixed (fixed : key ∈ fixedKeys) (handle : String) : key ≠ fitKey handle := by
  have letters : ∀ key ∈ fixedKeys, key.toList.head? ≠ some 'f' := by decide
  exact ne_fitKey (letters key fixed) handle

theorem questionsOf_nodup {handles : List String} (distinct : handles.Nodup)
    : ((questionsOf handles).map Prod.fst).Nodup := by
  have fits : ((handles.map (fitKey ·, Question.noul)).map Prod.fst) = handles.map fitKey := by
    simp [Function.comp_def]
  have fixed : fixedKeys.Nodup := by decide
  rw [questionsOf, List.map_append, fits]
  refine List.Nodup.append fixed (distinct.map fitKey_injective) ?_
  intro key inFixed inFits
  obtain ⟨handle, -, rfl⟩ := List.mem_map.mp inFits
  exact ne_fitKey_of_fixed inFixed handle rfl

section

variable {entries : List (String × AdvisorySkill)} (listed : Listed entries)

theorem asked_iff {question : Question}
    : (stageOf entries listed).request.questions[key]? = some question
      ↔ (key, question) ∈ questionsOf (entries.map Prod.fst) :=
  getElem?_ofList_iff (questionsOf_nodup listed.distinct)

theorem mem_stageOf {handle : String} (offered : handle ∈ (stageOf entries listed).options.entries)
    : handle ∈ entries.map Prod.fst := by
  obtain ⟨skill, found⟩ := mem_iff_getElem?.mp offered
  exact List.mem_map_of_mem (f := Prod.fst) ((getElem?_ofList_iff listed.distinct).mp found)

theorem stageOf_gates
    (gate : key ∈ [gateSpecializedMethod, gateMaterialHelp, gateContextSuffices])
    : (stageOf entries listed).request.questions[key]? = some .noul := by
  refine (asked_iff listed).mpr (List.mem_append_left _ ?_)
  simp only [List.mem_cons, List.not_mem_nil, or_false] at gate
  rcases gate with rfl | rfl | rfl <;> simp

theorem stageOf_phase
    : (stageOf entries listed).request.questions[phaseKey]?
      = some (.choice (.ofList [("plan", "")])) :=
  (asked_iff listed).mpr (List.mem_append_left _ (by simp))

theorem stageOf_fits {handle : String} (offered : handle ∈ (stageOf entries listed).options.entries)
    : (stageOf entries listed).request.questions[fitKey handle]? = some .noul :=
  (asked_iff listed).mpr
    (List.mem_append_right _ (List.mem_map.mpr ⟨handle, mem_stageOf listed offered, rfl⟩))

theorem stageOf_offers (choice : key = whichKey ∨ key = rerankKey)
    : Offers (stageOf entries listed) key := by
  have isOption {option : String} (mem : option ∈ noneOption :: entries.map Prod.fst)
      : option ∈ criteriaOf (entries.map Prod.fst) := by
    rw [criteriaOf, TreeMap.mem_ofList]
    simpa using mem
  refine ⟨criteriaOf (entries.map Prod.fst), (asked_iff listed).mpr ?_,
    isOption List.mem_cons_self,
    fun handle offered => isOption (List.mem_cons_of_mem _ (mem_stageOf listed offered))⟩
  rcases choice with rfl | rfl <;> simp [questionsOf]

end

/-- Entries under new keys are found where the old ones are. -/
theorem ofList_related {β : Type} {related : String → β → β → Prop} {left right : List (String × β)}
    (distinct : (left.map Prod.fst).Nodup)
    (each : List.Forall₂
      (fun one two => two.1 = rename one.1 ∧ related one.1 one.2 two.2) left right)
    (key : String)
    : Option.Rel (related key) (TreeMap.ofList left compare)[key]?
        (TreeMap.ofList right compare)[rename key]? := by
  have keys : right.map Prod.fst = (left.map Prod.fst).map rename := by
    clear distinct
    induction each with
    | nil => rfl
    | cons here _ ih => rw [List.map_cons, List.map_cons, List.map_cons, here.1, ih]
  have others : (right.map Prod.fst).Nodup := keys ▸ distinct.map rename.injective
  cases found : (TreeMap.ofList left compare)[key]? with
  | some value =>
      obtain ⟨⟨_, other⟩, inRight, rfl, same⟩ :=
        forall₂_of_mem each.flip ((getElem?_ofList_iff distinct).mp found)
      rw [(getElem?_ofList_iff others).mpr inRight]
      exact .some same
  | none =>
      cases there : (TreeMap.ofList right compare)[rename key]? with
      | none => exact .none
      | some other =>
          obtain ⟨⟨_, value⟩, inLeft, same, -⟩ :=
            forall₂_of_mem each ((getElem?_ofList_iff others).mp there)
          cases rename.injective same
          rw [(getElem?_ofList_iff distinct).mpr inLeft] at found
          cases found

theorem stageOf_renamed {entries others : List (String × AdvisorySkill)} (listed : Listed entries)
    (again : Listed others) (none : noneOption ∉ entries.map Prod.fst)
    (same : others = entries.map (Prod.map names.handles id))
    : StageRenamed names (stageOf entries listed) (stageOf others again) := by
  have handles : others.map Prod.fst = (entries.map Prod.fst).map names.handles := by
    simp [same]
  have criteria : Renamed names.handles (criteriaOf (entries.map Prod.fst))
      (criteriaOf (others.map Prod.fst)) := by
    refine Renamed.ofList ?_ (.of_eq ?_)
    · simpa [Function.comp_def] using ⟨by simpa using none, listed.distinct⟩
    · rw [handles]
      simp [names.sentinel, Function.comp_def]
  have choice (key : String) (isChoice : key = whichKey ∨ key = rerankKey)
      : QuestionRenamed (names.naming.options key) (.choice (criteriaOf (entries.map Prod.fst)))
          (.choice (criteriaOf (others.map Prod.fst))) := by
    rw [names.options_of_choice isChoice]
    exact .choice criteria
  refine ⟨⟨rfl, ofList_related (questionsOf_nodup listed.distinct) ?_⟩,
    Renamed.ofList listed.distinct (.of_eq same)⟩
  have phase : QuestionRenamed (names.naming.options phaseKey)
      (.choice (.ofList [("plan", "")])) (.choice (.ofList [("plan", "")])) := by
    rw [names.options_of_other (by decide) (by decide)]
    exact .choice fun _ => rfl
  have fixed (key : String) (mem : key ∈ fixedKeys) : key = names.naming.questions key :=
    (names.fixed key (ne_fitKey_of_fixed mem)).symm
  have first := fixed gateSpecializedMethod (by decide)
  have second := fixed gateMaterialHelp (by decide)
  have third := fixed gateContextSuffices (by decide)
  refine List.rel_append (.cons ⟨first, .noul⟩ (.cons ⟨second, .noul⟩ (.cons ⟨third, .noul⟩
    (.cons ⟨fixed whichKey (by decide), choice _ (.inl rfl)⟩
      (.cons ⟨fixed phaseKey (by decide), phase⟩
        (.cons ⟨fixed rerankKey (by decide), choice _ (.inr rfl)⟩ .nil)))))) ?_
  rw [handles, List.forall₂_map_left_iff, List.map_map, List.forall₂_map_right_iff]
  exact List.forall₂_same.mpr fun handle _ => ⟨(names.fits handle).symm, .noul⟩

-- A renaming across the byte limit

def sharesOf (first second third : String) : List (String × ℚ) :=
  [(first, 1 / 2), (second, 3 / 10), (third, 1 / 10), (noneOption, 1 / 10)]

/-- Answers about three handles, with the options of each choice in some order. -/
def answersOf (first second third : String) (order : List (String × ℚ) → List (String × ℚ))
    : List (String × WireAnswer) :=
  [
    (gateSpecializedMethod, .noul 1),
    (gateMaterialHelp, .noul (1 / 2)),
    (gateContextSuffices, .noul 0),
    (whichKey, .choice first (order (sharesOf first second third)) 1),
    (phaseKey, .choice "plan" [("plan", 1)] 1),
    (rerankKey, .choice third (order (sharesOf third first second)) 1),
    (fitKey first, .noul (1 / 4)),
    (fitKey second, .noul 0),
    (fitKey third, .noul 1)
  ]

def documentOf (length : Nat) (answers : List (String × WireAnswer)) : Document :=
  {
    length
    content := .ok { model := "model", answers, usage := { inputTokens := 9, outputTokens := 9 } }
  }

/-- New handles with the options and the answers in another order. -/
theorem documentOf_renamed (length longer : Nat) (first second third : String)
    : ContentRenamed names.naming
        (documentOf length (answersOf first second third id)).content
        (documentOf longer (answersOf (names.handles first) (names.handles second)
          (names.handles third) List.reverse).reverse).content := by
  have shares {key : String} (choice : key = whichKey ∨ key = rerankKey) (one two three : String)
      : WireAnswerRenamed (names.naming.options key) (.choice one (id (sharesOf one two three)) 1)
          (.choice (names.handles one)
            (sharesOf (names.handles one) (names.handles two) (names.handles three)).reverse 1) := by
    rw [names.options_of_choice choice]
    refine .choice one 1 ((List.reverse_perm _).trans (.of_eq ?_))
    simp [sharesOf, names.sentinel]
  have phase : WireAnswerRenamed (names.naming.options phaseKey) (.choice "plan" [("plan", 1)] 1)
      (.choice "plan" [("plan", 1)] 1) := by
    rw [names.options_of_other (by decide) (by decide)]
    exact .choice "plan" 1 (.refl _)
  have fixed (key : String) (mem : key ∈ fixedKeys) : key = names.naming.questions key :=
    (names.fixed key (ne_fitKey_of_fixed mem)).symm
  have fit (handle : String) (value : ℚ)
      : EntryRenamed names.naming (fitKey handle, .noul value)
          (fitKey (names.handles handle), .noul value) :=
    ⟨(names.fits handle).symm, .noul value⟩
  refine .response ⟨rfl, rfl, _, ?_, List.reverse_perm _⟩
  exact .cons ⟨fixed gateSpecializedMethod (by decide), .noul _⟩
    (.cons ⟨fixed gateMaterialHelp (by decide), .noul _⟩
      (.cons ⟨fixed gateContextSuffices (by decide), .noul _⟩
        (.cons ⟨fixed whichKey (by decide), shares (.inl rfl) _ _ _⟩
          (.cons ⟨fixed phaseKey (by decide), phase⟩
            (.cons ⟨fixed rerankKey (by decide), shares (.inr rfl) _ _ _⟩
              (.cons (fit _ _) (.cons (fit _ _) (.cons (fit _ _) .nil))))))))

/-- Answers that fit the questions in order are those of the stage. -/
theorem fitting_of_forall₂ {entries : List (String × AdvisorySkill)} (listed : Listed entries)
    {wire : WireResponse}
    (each : List.Forall₂ (fun asked written => written.1 = asked.1 ∧ Fits .exact asked.2 written.2)
      (questionsOf (entries.map Prod.fst)) wire.answers)
    : Fitting .exact (stageOf entries listed).request wire := by
  have keys : wire.answers.map Prod.fst = (questionsOf (entries.map Prod.fst)).map Prod.fst := by
    generalize questionsOf (entries.map Prod.fst) = questions at each
    generalize wire.answers = answers at each
    induction each with
    | nil => rfl
    | cons here _ ih => rw [List.map_cons, List.map_cons, here.1, ih]
  constructor
  · intro key
    rw [keys, stageOf, TreeMap.mem_ofList, List.contains_iff_mem]
  · intro key question written asked mem
    obtain ⟨⟨_, other⟩, inQuestions, rfl, fits⟩ := forall₂_of_mem each mem
    have same := (asked_iff listed).mpr inQuestions
    cases asked.symm.trans same
    exact fits

/-- Shares are a distribution over the options of a choice. -/
theorem sharesOf_fits (first second third : String) {handles : List String}
    (options : ∀ option, option ∈ handles ↔ option ∈ [first, second, third])
    : Fits .exact (.choice (criteriaOf handles)) (.choice first (sharesOf first second third) 1) := by
  have sum : canonicalSum .exact ((sharesOf first second third).map Prod.snd) = 1 := by
    rw [canonicalSum_exact]
    norm_num [sharesOf]
  refine ⟨fun option => ?_, by norm_num, ?_, ?_, ?_, 1 / 2, List.mem_cons_self, ?_⟩
  · rw [criteriaOf, TreeMap.mem_ofList, List.contains_iff_mem]
    simp [sharesOf, options, Function.comp_def]
    tauto
  · simp [sharesOf]
    norm_num
  · rw [sum]
    exact one_pos
  · rw [sum]
    norm_num [Arithmetic.exact, sumTolerance]
  · simp [sharesOf]
    norm_num

/-- A response within the byte limit is accepted. -/
theorem documentOf_accepted {length : Nat} (within : length ≤ maxResponseBytes)
    {entries : List (String × AdvisorySkill)} (listed : Listed entries)
    (handles : entries.map Prod.fst = ["a", "b", "c"])
    : ∃ response,
        decodeResponse .exact (stageOf entries listed).request
          (documentOf length (answersOf "a" "b" "c" id))
        = .ok response := by
  have phase : Fits .exact (.choice (.ofList [("plan", "")])) (.choice "plan" [("plan", 1)] 1) := by
    have sum : canonicalSum .exact ([("plan", (1 : ℚ))].map Prod.snd) = 1 := by
      rw [canonicalSum_exact]
      norm_num
    refine ⟨fun option => ?_, by norm_num, by simp, ?_, ?_, 1, List.mem_cons_self, by simp⟩
    · rw [TreeMap.mem_ofList, List.contains_iff_mem]
      simp
    · rw [sum]
      exact one_pos
    · rw [sum]
      norm_num [Arithmetic.exact, sumTolerance]
  refine decodeResponse_iff.mpr ⟨_, accepted_iff_fitting.mpr ⟨⟨within, rfl, ?_, ?_⟩,
    fitting_of_forall₂ listed ?_⟩⟩
  · decide +kernel
  · decide +kernel
  · rw [handles]
    exact .cons ⟨rfl, by norm_num [Fits]⟩ (.cons ⟨rfl, by norm_num [Fits]⟩
      (.cons ⟨rfl, by norm_num [Fits]⟩
        (.cons ⟨rfl, sharesOf_fits "a" "b" "c" fun _ => .rfl⟩ (.cons ⟨rfl, phase⟩
          (.cons ⟨rfl, sharesOf_fits "c" "a" "b" (by simp; tauto)⟩
            (.cons ⟨rfl, by norm_num [Fits]⟩ (.cons ⟨rfl, by norm_num [Fits]⟩
              (.cons ⟨rfl, by norm_num [Fits]⟩ .nil))))))))

/-- New handles, which come in another order. -/
theorem exists_longer
    : ∃ names : HandleNaming,
        names.handles "a" = "bb" ∧ names.handles "b" = "cc" ∧ names.handles "c" = "aa" := by
  obtain ⟨names, same⟩ := HandleNaming.exists_of_handles
    ((Equiv.swap "a" "bb").trans ((Equiv.swap "b" "cc").trans (Equiv.swap "c" "aa"))) (by decide)
  exact ⟨names, by rw [same]; decide, by rw [same]; decide, by rw [same]; decide⟩

def sampleSkill (id : SkillId) : AdvisorySkill :=
  { record := (sampleEntry id 1 "x").record, binding := (sampleEntry id 1 "x").binding }

def threeOptions (first second third : String) : List (String × AdvisorySkill) :=
  [(first, sampleSkill "one"), (second, sampleSkill "two"), (third, sampleSkill "three")]

theorem threeOptions_listed : Listed (threeOptions "a" "b" "c") :=
  ⟨by decide, by decide +kernel, by decide +kernel⟩

theorem longOptions_listed : Listed (threeOptions "bb" "cc" "aa") :=
  ⟨by decide, by decide +kernel, by decide +kernel⟩

def shortStage : StageRequest := stageOf (threeOptions "a" "b" "c") threeOptions_listed

def longStage : StageRequest := stageOf (threeOptions "bb" "cc" "aa") longOptions_listed

def shortDocument (length : Nat) : Document := documentOf length (answersOf "a" "b" "c" id)

def longDocument (length : Nat) : Document :=
  documentOf length (answersOf "bb" "cc" "aa" List.reverse).reverse

def oneOfTwo : Sizes := (Sizes.new 1 2).toOption.get rfl

theorem exists_renaming (length longer : Nat)
    : ∃ names : HandleNaming, StageRenamed names shortStage longStage
        ∧ ContentRenamed names.naming (shortDocument length).content
          (longDocument longer).content := by
  obtain ⟨names, first, second, third⟩ := exists_longer
  have documents := documentOf_renamed names length longer "a" "b" "c"
  rw [first, second, third] at documents
  exact ⟨names, stageOf_renamed names _ _ (by decide) (by simp [threeOptions, first, second, third]),
    documents⟩

/-- Three options under longer handles, in another order of the map and of the answers, are accepted
and evaluated by both stages as before, by the general result.
-/
theorem handles_equivariant_three
    : ∃ response renamed wide rerank otherWide otherRerank,
        decodeResponse .exact shortStage.request (shortDocument 600) = .ok response
        ∧ decodeResponse .exact longStage.request (longDocument 612) = .ok renamed
        ∧ evaluateWide .exact shortStage response (1 / 2) oneOfTwo = .ok wide
        ∧ evaluateWide .exact longStage renamed (1 / 2) oneOfTwo = .ok otherWide
        ∧ SameWide wide otherWide
        ∧ evaluateRerank .exact shortStage response = .ok rerank
        ∧ evaluateRerank .exact longStage renamed = .ok otherRerank
        ∧ SameRerank rerank otherRerank := by
  obtain ⟨names, stages, documents⟩ := exists_renaming 600 612
  obtain ⟨accepted, evaluated⟩ :=
    handles_equivariant .exact names shortStage longStage (shortDocument 600) (longDocument 612)
      stages ⟨by decide, documents⟩
  obtain ⟨response, done⟩ : ∃ response,
      decodeResponse .exact shortStage.request (shortDocument 600) = .ok response :=
    documentOf_accepted (by decide) threeOptions_listed rfl
  obtain ⟨renamed, again⟩ := accepted.mp ⟨response, done⟩
  obtain ⟨sameWide, sameRerank⟩ := evaluated response renamed done again
  have gate : validateGate (1 / 2) = .ok (1 / 2) := if_pos (by norm_num)
  obtain ⟨wide, isWide⟩ := evaluateWide_ok done (fun _ => stageOf_gates threeOptions_listed)
    (stageOf_offers threeOptions_listed (.inl rfl)) (stageOf_phase threeOptions_listed) gate oneOfTwo
  obtain ⟨otherWide, isOther⟩ := evaluateWide_ok again (fun _ => stageOf_gates longOptions_listed)
    (stageOf_offers longOptions_listed (.inl rfl)) (stageOf_phase longOptions_listed) gate oneOfTwo
  obtain ⟨rerank, isRerank⟩ := evaluateRerank_ok done
    (stageOf_offers threeOptions_listed (.inr rfl)) fun _ => stageOf_fits threeOptions_listed
  obtain ⟨otherRerank, isOtherRerank⟩ := evaluateRerank_ok again
    (stageOf_offers longOptions_listed (.inr rfl)) fun _ => stageOf_fits longOptions_listed
  have wides := sameWide (1 / 2) oneOfTwo
  rw [isWide, isOther] at wides
  rw [isRerank, isOtherRerank] at sameRerank
  cases wides with
  | ok same =>
      cases sameRerank with
      | ok estimates =>
          exact ⟨response, renamed, wide, rerank, otherWide, otherRerank, done, again, isWide,
            isOther, same, isRerank, isOtherRerank, estimates⟩

/-- A response of the largest length is too large under longer handles. -/
theorem renaming_too_large
    : ∃ (names : HandleNaming) (left right : StageRequest) (document other : Document),
        StageRenamed names left right
        ∧ ContentRenamed names.naming document.content other.content
        ∧ (∃ response, decodeResponse .exact left.request document = .ok response)
        ∧ decodeResponse .exact right.request other = .error .tooLarge := by
  obtain ⟨names, stages, documents⟩ := exists_renaming maxResponseBytes (maxResponseBytes + 12)
  refine ⟨names, shortStage, longStage, _, _, stages, documents,
    documentOf_accepted (Nat.le_refl _) threeOptions_listed rfl, ?_⟩
  exact ensure_bind_error (by decide)

end SkillRanker.Jev
