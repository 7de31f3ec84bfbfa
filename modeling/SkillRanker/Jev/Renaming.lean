import Mathlib.Data.List.Perm.Basic
import Mathlib.Algebra.Order.Ring.Rat
import SkillRanker.Library.Sorting
import SkillRanker.Jev.Decoded

/-! Renaming the questions and options of a request renames what its responses decode to, and
nothing else.
-/

namespace SkillRanker.Jev

open SkillRanker.Library
open Std

variable {rename : Equiv.Perm String} {written : WireAnswer}

/-- New keys for the questions of a request, and for the options of each. -/
structure Naming where
  questions : Equiv.Perm String
  options : String → Equiv.Perm String

def Naming.symm (naming : Naming) : Naming :=
  {
    questions := naming.questions.symm
    options := fun key => (naming.options (naming.questions.symm key)).symm
  }

inductive QuestionRenamed (rename : Equiv.Perm String) : Question → Question → Prop
  | noul : QuestionRenamed rename .noul .noul
  | choice {left right : TreeMap String String compare} (same : Renamed rename left right)
    : QuestionRenamed rename (.choice left) (.choice right)

inductive WireAnswerRenamed (rename : Equiv.Perm String) : WireAnswer → WireAnswer → Prop
  | noul (value : ℚ) : WireAnswerRenamed rename (.noul value) (.noul value)
  | choice {left right : List (String × ℚ)} (name : String) (confidence : ℚ)
    (same : right.Perm (left.map (Prod.map rename id)))
    : WireAnswerRenamed rename (.choice name left confidence)
        (.choice (rename name) right confidence)

structure RequestRenamed (naming : Naming) (left right : Request) : Prop where
  model : right.model = left.model
  questions
    : ∀ key,
        Option.Rel (QuestionRenamed (naming.options key)) left.questions[key]?
          right.questions[naming.questions key]?

def EntryRenamed (naming : Naming) (left right : String × WireAnswer) : Prop :=
  right.1 = naming.questions left.1 ∧ WireAnswerRenamed (naming.options left.1) left.2 right.2

structure WireRenamed (naming : Naming) (left right : WireResponse) : Prop where
  model : right.model = left.model
  usage : right.usage = left.usage
  answers
    : ∃ renamed,
        List.Forall₂ (EntryRenamed naming) left.answers renamed
        ∧ right.answers.Perm renamed

inductive ContentRenamed (naming : Naming)
    : Except CodecError WireResponse → Except CodecError WireResponse → Prop
  | broken (left right : CodecError) : ContentRenamed naming (.error left) (.error right)
  | response {left right : WireResponse} (same : WireRenamed naming left right)
    : ContentRenamed naming (.ok left) (.ok right)

structure DocumentRenamed (naming : Naming) (left right : Document) : Prop where
  sized : left.length ≤ maxResponseBytes ↔ right.length ≤ maxResponseBytes
  content : ContentRenamed naming left.content right.content

structure ChoiceRenamed (rename : Equiv.Perm String) (left right : ChoiceAnswer) : Prop where
  choice : right.choice = rename left.choice
  rawProbabilities : Renamed rename left.rawProbabilities right.rawProbabilities
  rawSum : right.rawSum = left.rawSum
  confidence : right.confidence = left.confidence

inductive AnswerRenamed (rename : Equiv.Perm String) : Answer → Answer → Prop
  | noul (value : ℚ) : AnswerRenamed rename (.noul value) (.noul value)
  | choice {left right : ChoiceAnswer} (same : ChoiceRenamed rename left right)
    : AnswerRenamed rename (.choice left) (.choice right)

structure ResponseRenamed (naming : Naming) (left right : Response) : Prop where
  requestedModel : right.requestedModel = left.requestedModel
  returnedModel : right.returnedModel = left.returnedModel
  usage : right.usage = left.usage
  answers
    : ∀ key,
        Option.Rel (AnswerRenamed (naming.options key)) left.answers[key]?
          right.answers[naming.questions key]?

-- Renaming is undone by the way back

theorem QuestionRenamed.symm {left right : Question} (renamed : QuestionRenamed rename left right)
    : QuestionRenamed rename.symm right left := by
  cases renamed with
  | noul => exact .noul
  | choice same => exact .choice same.symm

theorem WireAnswerRenamed.symm {left right : WireAnswer}
    (renamed : WireAnswerRenamed rename left right)
    : WireAnswerRenamed rename.symm right left := by
  cases renamed with
  | noul value => exact .noul value
  | choice name confidence same =>
      rename_i first second
      have undone := (same.map (Prod.map rename.symm id)).symm
      rw [List.map_map, Prod.map_comp_map, Equiv.symm_comp_self, Function.id_comp, Prod.map_id,
        List.map_id] at undone
      have back : WireAnswerRenamed rename.symm (.choice (rename name) second confidence)
          (.choice (rename.symm (rename name)) first confidence) :=
        .choice _ _ undone
      rwa [Equiv.symm_apply_apply] at back

theorem optionRel_flip {α : Type} {first second : α → α → Prop} {left right : Option α}
    (flip : ∀ one two, first one two → second two one) (related : Option.Rel first left right)
    : Option.Rel second right left := by
  cases related with
  | some same => exact .some (flip _ _ same)
  | none => exact .none

variable {naming : Naming}

theorem RequestRenamed.symm {left right : Request} (renamed : RequestRenamed naming left right)
    : RequestRenamed naming.symm right left where
  model := renamed.model.symm
  questions key := by
    have related := renamed.questions (naming.questions.symm key)
    rw [Equiv.apply_symm_apply] at related
    exact optionRel_flip (fun _ _ => QuestionRenamed.symm) related

theorem EntryRenamed.symm {left right : String × WireAnswer}
    (renamed : EntryRenamed naming left right)
    : EntryRenamed naming.symm right left := by
  obtain ⟨key, answer⟩ := renamed
  refine ⟨?_, ?_⟩
  · rw [key, Naming.symm, Equiv.symm_apply_apply]
  · simp only [Naming.symm, key, Equiv.symm_apply_apply]
    exact answer.symm

variable {left right : WireResponse}

theorem WireRenamed.symm (renamed : WireRenamed naming left right)
    : WireRenamed naming.symm right left where
  model := renamed.model.symm
  usage := renamed.usage.symm
  answers := by
    obtain ⟨middle, related, same⟩ := renamed.answers
    have back : List.Forall₂ (EntryRenamed naming.symm) middle left.answers :=
      related.flip.imp (fun _ _ => EntryRenamed.symm)
    obtain ⟨others, entries, perm⟩ := List.perm_comp_forall₂ same back
    exact ⟨others, entries, perm.symm⟩

theorem ContentRenamed.symm {left right : Except CodecError WireResponse}
    (renamed : ContentRenamed naming left right)
    : ContentRenamed naming.symm right left := by
  cases renamed with
  | broken left right => exact .broken right left
  | response same => exact .response same.symm

theorem DocumentRenamed.symm {left right : Document} (renamed : DocumentRenamed naming left right)
    : DocumentRenamed naming.symm right left where
  sized := renamed.sized.symm
  content := renamed.content.symm

-- Decoding

/-- Renamed options have the same probabilities, in some order. -/
theorem values_perm {left right : TreeMap String ℚ compare} (renamed : Renamed rename left right)
    : (left.toList.map Prod.snd).Perm (right.toList.map Prod.snd) := by
  have values := renamed.toList_perm.map Prod.snd
  rwa [List.map_map, show Prod.snd ∘ Prod.map rename (id : ℚ → ℚ) = Prod.snd from rfl] at values

/-- The sum does not see the order of the options. -/
theorem canonicalSum_perm (arithmetic : Arithmetic) {left right : List ℚ}
    (same : left.Perm right)
    : canonicalSum arithmetic left = canonicalSum arithmetic right := by
  have sorted
      : left.mergeSort (fun one two => decide (one ≤ two))
        = right.mergeSort (fun one two => decide (one ≤ two)) := by
    refine mergeSort_eq_of_perm same ?_ ?_ ?_
    · intro one two three first second
      exact decide_eq_true (Rat.le_trans (of_decide_eq_true first) (of_decide_eq_true second))
    · intro one two
      rw [← Bool.decide_or]
      exact decide_eq_true Rat.le_total
    · intro one _ two _ below above
      exact Rat.le_antisymm (of_decide_eq_true below) (of_decide_eq_true above)
  rw [canonicalSum, canonicalSum, sorted]

theorem maximum_perm {left right : List ℚ} (same : left.Perm right)
    : maximum left = maximum right :=
  same.foldl_eq' (fun one _ two _ start => max_right_comm start one two) 0

variable {arithmetic : Arithmetic}

/-- A valid choice is valid under new names. -/
theorem Chosen.renamed {criteria others : TreeMap String String compare} {choice : String}
    {options written : TreeMap String ℚ compare} {confidence : ℚ}
    (chosen : Chosen arithmetic criteria choice options confidence)
    (sameCriteria : Renamed rename criteria others) (sameOptions : Renamed rename options written)
    : Chosen arithmetic others (rename choice) written confidence := by
  have values := values_perm sameOptions
  refine ⟨?_, chosen.confidence, ?_, ?_, ?_⟩
  · refine keys_eq_iff.mpr ?_
    intro key
    rw [← rename.apply_symm_apply key, sameCriteria.mem, sameOptions.mem]
    exact keys_eq_iff.mp chosen.sameOptions _
  · intro value member
    exact chosen.values value (values.mem_iff.mpr member)
  · rw [← canonicalSum_perm arithmetic values]
    exact chosen.sum
  · rw [sameOptions, chosen.choice, maximum_perm values]

/-- A valid answer is valid under new names, and is renamed. -/
theorem validateAnswer_renamed {question asked : Question} {rewritten : WireAnswer}
    {answer : Answer} (sameQuestion : QuestionRenamed rename question asked)
    (sameWritten : WireAnswerRenamed rename written rewritten) (distinct : written.distinct = true)
    (valid : validateAnswer arithmetic question written = .ok answer)
    : ∃ renamed,
        validateAnswer arithmetic asked rewritten = .ok renamed
        ∧ AnswerRenamed rename answer renamed := by
  cases sameQuestion with
  | noul =>
      cases sameWritten with
      | noul value =>
          refine ⟨answer, valid, ?_⟩
          simp only [validateAnswer, bind_eq_ok, pure_eq_ok] at valid
          obtain ⟨_, _, rfl⟩ := valid
          exact .noul value
      | choice => cases valid
  | choice sameCriteria =>
      cases sameWritten with
      | noul => cases valid
      | choice name confidence sameOptions =>
          obtain ⟨choice, checked, rfl⟩ := map_eq_ok.mp valid
          obtain ⟨chosen, rfl⟩ := validateChoice_ok.mp checked
          have options : Renamed rename (TreeMap.ofList _ compare) (TreeMap.ofList _ compare) :=
            Renamed.ofList (of_decide_eq_true distinct) sameOptions
          refine ⟨_, map_eq_ok.mpr ⟨_, validateChoice_ok.mpr
            ⟨chosen.renamed sameCriteria options, rfl⟩, rfl⟩, .choice ⟨rfl, options, ?_, rfl⟩⟩
          exact (canonicalSum_perm arithmetic (values_perm options)).symm

theorem WireAnswerRenamed.distinct {left right : WireAnswer}
    (renamed : WireAnswerRenamed rename left right) (distinct : left.distinct = true)
    : right.distinct = true := by
  cases renamed with
  | noul => rfl
  | choice name confidence same =>
      refine decide_eq_true ?_
      have names : Prod.fst ∘ Prod.map rename (id : ℚ → ℚ) = rename ∘ Prod.fst := rfl
      rw [(same.map Prod.fst).nodup_iff, List.map_map, names, ← List.map_map]
      exact (of_decide_eq_true distinct).map rename.injective

theorem WireRenamed.of_mem (renamed : WireRenamed naming left right) {entry : String × WireAnswer}
    (member : entry ∈ right.answers)
    : ∃ original ∈ left.answers, EntryRenamed naming original entry := by
  obtain ⟨middle, related, same⟩ := renamed.answers
  exact forall₂_of_mem related (same.mem_iff.mp member)

theorem WireRenamed.mem (renamed : WireRenamed naming left right) {key : String}
    (member : (key, written) ∈ left.answers)
    : ∃ rewritten,
        (naming.questions key, rewritten) ∈ right.answers
        ∧ WireAnswerRenamed (naming.options key) written rewritten := by
  obtain ⟨middle, related, perm⟩ := renamed.answers
  obtain ⟨⟨_, rewritten⟩, inMiddle, rfl, same⟩ := forall₂_of_mem related.flip member
  exact ⟨rewritten, perm.mem_iff.mpr inMiddle, same⟩

theorem WireRenamed.keys_perm (renamed : WireRenamed naming left right)
    : (right.answers.map Prod.fst).Perm ((left.answers.map Prod.fst).map naming.questions) := by
  obtain ⟨middle, related, same⟩ := renamed.answers
  refine (same.map Prod.fst).trans (.of_eq ?_)
  generalize left.answers = answers at related
  clear same
  induction related with
  | nil => rfl
  | cons here _ ih => rw [List.map_cons, List.map_cons, List.map_cons, here.1, ih]

theorem WireRenamed.distinct (renamed : WireRenamed naming left right)
    (distinct : left.distinct = true)
    : right.distinct = true := by
  refine Bool.and_eq_true_iff.mpr ⟨decide_eq_true ?_, List.all_eq_true.mpr ?_⟩
  · rw [renamed.keys_perm.nodup_iff]
    exact (WireResponse.nodup distinct).map naming.questions.injective
  · intro entry member
    obtain ⟨original, inLeft, _, same⟩ := renamed.of_mem member
    exact same.distinct
      (List.all_eq_true.mp (Bool.and_eq_true_iff.mp distinct).2 original inLeft)

section Renamed

variable {arithmetic : Arithmetic} {naming : Naming} {left right : Request}
  {document other : Document}

section

variable (sameRequest : RequestRenamed naming left right)
include sameRequest

/-- The answer to a question is valid under new names, and is renamed. -/
theorem Answers.renamed {key : String} {rewritten : WireAnswer} {answer : Answer}
    (sameWritten : WireAnswerRenamed (naming.options key) written rewritten)
    (distinct : written.distinct = true)
    (valid : Answers arithmetic left.questions key written answer)
    : ∃ renamed,
        Answers arithmetic right.questions (naming.questions key) rewritten renamed
        ∧ AnswerRenamed (naming.options key) answer renamed := by
  obtain ⟨question, asked, validated⟩ := valid
  have related := sameRequest.questions key
  rw [asked] at related
  cases found : right.questions[naming.questions key]? with
  | none =>
      rw [found] at related
      cases related
  | some renamedQuestion =>
      rw [found] at related
      cases related with
      | some sameQuestion =>
          obtain ⟨renamed, again, same⟩ :=
            validateAnswer_renamed sameQuestion sameWritten distinct validated
          exact ⟨renamed, ⟨renamedQuestion, found, again⟩, same⟩

/-- A key is asked under its new name where it is asked. -/
theorem RequestRenamed.mem {key : String}
    : naming.questions key ∈ right.questions ↔ key ∈ left.questions := by
  have related := sameRequest.questions key
  rw [mem_iff_getElem?, mem_iff_getElem?]
  cases found : left.questions[key]? with
  | none =>
      rw [found] at related
      cases renamed : right.questions[naming.questions key]? with
      | none => simp
      | some question =>
          rw [renamed] at related
          cases related
  | some question =>
      rw [found] at related
      cases renamed : right.questions[naming.questions key]? with
      | none =>
          rw [renamed] at related
          cases related
      | some question => simp

theorem Accepted.renamed {wire : WireResponse}
    (sameDocument : DocumentRenamed naming document other)
    (accepted : Accepted arithmetic left document wire)
    : ∃ renamed,
        Accepted arithmetic right other renamed ∧ WireRenamed naming wire renamed := by
  have contents := sameDocument.content
  rw [accepted.content] at contents
  cases content : other.content with
  | error error =>
      rw [content] at contents
      cases contents
  | ok renamed =>
      rw [content] at contents
      cases contents with
      | response same =>
          refine ⟨renamed, ?_, same⟩
          refine ⟨sameDocument.sized.mp accepted.sized, content, same.distinct accepted.distinct,
            ?_, ?_, ?_⟩
          · rw [same.model]
            exact accepted.model
          · intro key
            rw [← naming.questions.apply_symm_apply key, sameRequest.mem, accepted.keys,
              same.keys_perm.mem_iff, List.mem_map_of_injective naming.questions.injective]
          · intro key rewritten member
            obtain ⟨⟨original, written⟩, inWire, rfl, sameWritten⟩ := same.of_mem member
            obtain ⟨answer, valid⟩ := accepted.answers original written inWire
            have distinct :=
              List.all_eq_true.mp (Bool.and_eq_true_iff.mp accepted.distinct).2 _ inWire
            obtain ⟨renamed, again, _⟩ := valid.renamed sameRequest sameWritten distinct
            exact ⟨renamed, again⟩

theorem accepted_iff (sameDocument : DocumentRenamed naming document other)
    : (∃ response, decodeResponse arithmetic left document = .ok response)
      ↔ ∃ response, decodeResponse arithmetic right other = .ok response := by
  rw [decodeResponse_iff, decodeResponse_iff]
  constructor
  · rintro ⟨wire, accepted⟩
    obtain ⟨renamed, again, _⟩ := accepted.renamed sameRequest sameDocument
    exact ⟨renamed, again⟩
  · rintro ⟨wire, accepted⟩
    obtain ⟨renamed, again, _⟩ := accepted.renamed sameRequest.symm sameDocument.symm
    exact ⟨renamed, again⟩

theorem decodeResponse_renamed (sameDocument : DocumentRenamed naming document other)
    {response decoded : Response} (first : decodeResponse arithmetic left document = .ok response)
    (second : decodeResponse arithmetic right other = .ok decoded)
    : ResponseRenamed naming response decoded := by
  obtain ⟨wire, accepted, requested, returned, usage, answers⟩ := decoded_answers first
  obtain ⟨rewire, again, requestedAgain, returnedAgain, usageAgain, renamedAnswers⟩ :=
    decoded_answers second
  obtain ⟨renamed, acceptedAgain, same⟩ := accepted.renamed sameRequest sameDocument
  have contents := acceptedAgain.content
  rw [again.content] at contents
  cases contents
  refine ⟨?_, ?_, ?_, ?_⟩
  · rw [requestedAgain, requested, sameRequest.model]
  · rw [returnedAgain, returned, same.model]
  · rw [usageAgain, usage, same.usage]
  · intro key
    cases found : response.answers[key]? with
    | some answer =>
        obtain ⟨written, member, valid⟩ := (answers key answer).mp found
        obtain ⟨rewritten, inRenamed, sameWritten⟩ := same.mem member
        have distinct :=
          List.all_eq_true.mp (Bool.and_eq_true_iff.mp accepted.distinct).2 _ member
        obtain ⟨renamed, validAgain, sameAnswer⟩ :=
          valid.renamed sameRequest sameWritten distinct
        rw [(renamedAnswers _ renamed).mpr ⟨rewritten, inRenamed, validAgain⟩]
        exact .some sameAnswer
    | none =>
        cases foundAgain : decoded.answers[naming.questions key]? with
        | none => exact .none
        | some answer =>
            obtain ⟨rewritten, inRenamed, _⟩ := (renamedAnswers _ answer).mp foundAgain
            obtain ⟨⟨original, written⟩, member, keys, _⟩ := same.of_mem inRenamed
            obtain rfl : key = original := naming.questions.injective keys
            obtain ⟨kept, valid⟩ := accepted.answers key written member
            rw [(answers key kept).mpr ⟨written, member, valid⟩] at found
            cases found

end

end Renamed

end SkillRanker.Jev
