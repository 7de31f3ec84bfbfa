import Mathlib.Algebra.BigOperators.Ring.List
import Mathlib.Algebra.Order.Field.Rat
import SkillRanker.Jev.Renaming

/-! What a response must hold to be decoded, in terms of the document as it is written, and
the normalized probabilities of its choices.
-/

namespace SkillRanker.Jev

open SkillRanker.Library
open Std (TreeMap)

-- Conditions

/-- A written answer to a choice among `criteria`. -/
structure Distribution (arithmetic : Arithmetic) (criteria : TreeMap String String compare)
    (choice : String) (probabilities : List (String × ℚ)) (confidence : ℚ)
    : Prop where
  options : ∀ option, option ∈ criteria ↔ option ∈ probabilities.map Prod.fst
  confidence : 0 ≤ confidence ∧ confidence ≤ 1
  values : ∀ entry ∈ probabilities, 0 ≤ entry.2 ∧ entry.2 ≤ 1
  positive : 0 < canonicalSum arithmetic (probabilities.map Prod.snd)
  close
    : (arithmetic.sub (canonicalSum arithmetic (probabilities.map Prod.snd)) 1).abs
      ≤ sumTolerance
  argmax : ∃ value, (choice, value) ∈ probabilities ∧ ∀ entry ∈ probabilities, entry.2 ≤ value

/-- A written answer has the type of its question and valid values. -/
def Fits (arithmetic : Arithmetic) : Question → WireAnswer → Prop
  | .noul, .noul value => 0 ≤ value ∧ value ≤ 1
  | .choice criteria, .choice choice probabilities confidence =>
      Distribution arithmetic criteria choice probabilities confidence
  | _, _ => False

/-- A written response answers exactly the questions of a request. -/
structure Fitting (arithmetic : Arithmetic) (request : Request) (wire : WireResponse)
    : Prop where
  questions : ∀ key, key ∈ request.questions ↔ key ∈ wire.answers.map Prod.fst
  answers
    : ∀ key question written,
        request.questions[key]? = some question
        → (key, written) ∈ wire.answers
        → Fits arithmetic question written

/-- A document is read as a response: it is within the limit and holds a response without
repeated keys, by a model with a valid identifier.
-/
structure Readable (document : Document) (wire : WireResponse) : Prop where
  sized : document.length ≤ maxResponseBytes
  content : document.content = .ok wire
  distinct : wire.distinct = true
  model : validId wire.model = true

-- The largest value and the sum

/-- A bound of the largest value, by induction on the values. -/
theorem foldl_max_le_iff {values : List ℚ} {start bound : ℚ}
    : values.foldl max start ≤ bound ↔ start ≤ bound ∧ ∀ value ∈ values, value ≤ bound := by
  induction values generalizing start with
  | nil => simp
  | cons first rest ih =>
      rw [List.foldl_cons, ih, max_le_iff, List.forall_mem_cons, and_assoc]

/-- Among probabilities, the largest is the one that no other exceeds. -/
theorem eq_maximum_iff {values : List ℚ} {value : ℚ} (mem : value ∈ values)
    (positive : 0 ≤ value)
    : value = maximum values ↔ ∀ other ∈ values, other ≤ value := by
  have bounds : maximum values ≤ value ↔ 0 ≤ value ∧ ∀ other ∈ values, other ≤ value :=
    foldl_max_le_iff
  have largest : value ≤ maximum values := (foldl_max_le_iff.mp (le_refl _)).2 value mem
  constructor
  · intro same
    exact (bounds.mp (le_of_eq same.symm)).2
  · intro most
    exact le_antisymm largest (bounds.mpr ⟨positive, most⟩)

theorem canonicalSum_exact (values : List ℚ)
    : canonicalSum .exact values = values.sum := by
  rw [canonicalSum, ← (List.mergeSort_perm values _).sum_eq, List.sum_eq_foldl]
  rfl

-- Choices

/-- A map from distinct entries holds these entries. -/
theorem toList_ofList_perm {entries : List (String × ℚ)}
    (distinct : (entries.map Prod.fst).Nodup)
    : (TreeMap.ofList entries : TreeMap String ℚ compare).toList.Perm entries := by
  refine (List.perm_ext_iff_of_nodup (nodup_toList _) distinct.of_map).mpr ?_
  rintro ⟨key, value⟩
  rw [TreeMap.mem_toList_iff_getElem?_eq_some, getElem?_ofList_iff distinct]

variable {arithmetic : Arithmetic}

/-- The checks of a choice ask for a distribution over its options. -/
theorem chosen_iff {criteria : TreeMap String String compare} {choice : String}
    {probabilities : List (String × ℚ)} {confidence : ℚ}
    (distinct : (probabilities.map Prod.fst).Nodup)
    : Chosen arithmetic criteria choice (.ofList probabilities) confidence
      ↔ Distribution arithmetic criteria choice probabilities confidence := by
  have entries := toList_ofList_perm distinct
  have values := entries.map Prod.snd
  have options : criteria.keys = (TreeMap.ofList probabilities : TreeMap String ℚ compare).keys
      ↔ ∀ option, option ∈ criteria ↔ option ∈ probabilities.map Prod.fst := by
    rw [keys_eq_iff]
    refine forall_congr' fun option => iff_congr Iff.rfl ?_
    rw [← TreeMap.mem_keys, ← TreeMap.map_fst_toList_eq_keys, (entries.map _).mem_iff]
  have within
      : (∀ value ∈ (TreeMap.ofList probabilities : TreeMap String ℚ compare).toList.map Prod.snd,
          0 ≤ value ∧ value ≤ 1)
        ↔ ∀ entry ∈ probabilities, 0 ≤ entry.2 ∧ entry.2 ≤ 1 := by
    simp only [values.mem_iff, List.forall_mem_map]
  have chosen (valid : ∀ entry ∈ probabilities, 0 ≤ entry.2 ∧ entry.2 ≤ 1)
      : (TreeMap.ofList probabilities : TreeMap String ℚ compare)[choice]?
            = some (maximum (probabilities.map Prod.snd))
        ↔ ∃ value,
            (choice, value) ∈ probabilities ∧ ∀ entry ∈ probabilities, entry.2 ≤ value := by
    rw [getElem?_ofList_iff distinct]
    constructor
    · intro mem
      refine ⟨_, mem, ?_⟩
      have listed := List.mem_map_of_mem (f := Prod.snd) mem
      have most := (eq_maximum_iff listed (valid _ mem).1).mp rfl
      exact fun entry inEntries => most _ (List.mem_map_of_mem inEntries)
    · rintro ⟨value, mem, most⟩
      have listed := List.mem_map_of_mem (f := Prod.snd) mem
      rwa [← (eq_maximum_iff listed (valid _ mem).1).mpr (List.forall_mem_map.mpr most)]
  constructor
  · rintro ⟨sameOptions, confidence, inRange, sum, choice⟩
    rw [canonicalSum_perm arithmetic values] at sum
    rw [maximum_perm values] at choice
    have valid := within.mp inRange
    exact ⟨options.mp sameOptions, confidence, valid, sum.1, sum.2, (chosen valid).mp choice⟩
  · rintro ⟨sameOptions, confidence, valid, positive, close, argmax⟩
    refine ⟨options.mpr sameOptions, confidence, within.mpr valid, ?_, ?_⟩
    · rw [canonicalSum_perm arithmetic values]
      exact ⟨positive, close⟩
    · rw [maximum_perm values]
      exact (chosen valid).mpr argmax

theorem validateAnswer_iff {question : Question} {written : WireAnswer}
    (distinct : written.distinct = true)
    : (∃ answer, validateAnswer arithmetic question written = .ok answer)
      ↔ Fits arithmetic question written := by
  cases question with
  | noul =>
      cases written with
      | noul value => simp [validateAnswer, Fits, probability_ok]
      | choice choice probabilities confidence => simp [validateAnswer, Fits]
  | choice criteria =>
      cases written with
      | noul value => simp [validateAnswer, Fits]
      | choice choice probabilities confidence =>
          have keys : (probabilities.map Prod.fst).Nodup := of_decide_eq_true distinct
          rw [Fits, ← chosen_iff keys]
          constructor
          · rintro ⟨answer, valid⟩
            obtain ⟨chosen, done, _⟩ := map_eq_ok.mp valid
            exact (validateChoice_ok.mp done).1
          · intro chosen
            exact ⟨_, map_eq_ok.mpr ⟨_, validateChoice_ok.mpr ⟨chosen, rfl⟩, rfl⟩⟩

-- Responses

variable {document : Document}

/-- A readable document is accepted exactly where its answers fit the questions. -/
theorem accepted_iff_fitting {request : Request} {wire : WireResponse}
    : Accepted arithmetic request document wire
      ↔ Readable document wire ∧ Fitting arithmetic request wire := by
  have distinctAnswers (distinct : wire.distinct = true) {key : String} {written : WireAnswer}
      (mem : (key, written) ∈ wire.answers)
      : written.distinct = true :=
    List.all_eq_true.mp (Bool.and_eq_true_iff.mp distinct).2 _ mem
  constructor
  · rintro ⟨sized, content, distinct, model, keys, answers⟩
    refine ⟨⟨sized, content, distinct, model⟩, keys, ?_⟩
    intro key question written asked mem
    obtain ⟨answer, other, again, valid⟩ := answers key written mem
    cases asked.symm.trans again
    exact (validateAnswer_iff (distinctAnswers distinct mem)).mp ⟨answer, valid⟩
  · rintro ⟨⟨sized, content, distinct, model⟩, keys, answers⟩
    refine ⟨sized, content, distinct, model, keys, ?_⟩
    intro key written mem
    obtain ⟨question, asked⟩ := mem_iff_getElem?.mp
      ((keys key).mpr (List.mem_map_of_mem (f := Prod.fst) mem))
    obtain ⟨answer, valid⟩ := (validateAnswer_iff (distinctAnswers distinct mem)).mpr
      (answers key question written asked mem)
    exact ⟨answer, question, asked, valid⟩

/-- In exact arithmetic the normalized values are shares of one whole, in the order of the
raw ones.
-/
structure Normalizes (answer : ChoiceAnswer) : Prop where
  options : (answer.normalizedProbabilities .exact).keys = answer.rawProbabilities.keys
  whole : ((answer.normalizedProbabilities .exact).toList.map Prod.snd).sum = 1
  order
    : ∀ (first second : String) (value other : ℚ),
        answer.rawProbabilities[first]? = some value
        → answer.rawProbabilities[second]? = some other
        → ∃ share otherShare,
            (answer.normalizedProbabilities .exact)[first]? = some share
            ∧ (answer.normalizedProbabilities .exact)[second]? = some otherShare
            ∧ (share ≤ otherShare ↔ value ≤ other)

variable {answer : ChoiceAnswer}

/-- A choice whose sum is that of its values, and positive, normalizes. -/
theorem normalizes (positive : 0 < answer.rawSum)
    (total : answer.rawSum = (answer.rawProbabilities.toList.map Prod.snd).sum)
    : Normalizes answer where
  options := TreeMap.keys_map
  whole := by
    have shares : (answer.normalizedProbabilities .exact).toList.map Prod.snd
        = (answer.rawProbabilities.toList.map Prod.snd).map (· * answer.rawSum⁻¹) := by
      rw [ChoiceAnswer.normalizedProbabilities, TreeMap.toList_map, List.map_map, List.map_map]
      exact List.map_congr_left fun entry _ => div_eq_mul_inv entry.2 answer.rawSum
    rw [shares, List.sum_map_mul_right, List.map_id', ← total]
    exact mul_inv_cancel₀ (ne_of_gt positive)
  order first second value other found found' := by
    have divided (option : String)
        : (answer.normalizedProbabilities .exact)[option]?
          = answer.rawProbabilities[option]?.map (· / answer.rawSum) :=
      TreeMap.getElem?_map
    refine ⟨value / answer.rawSum, other / answer.rawSum, ?_, ?_, ?_⟩
    · rw [divided, found, Option.map_some]
    · rw [divided, found', Option.map_some]
    · exact div_le_div_iff_of_pos_right positive

theorem decoded_normalizes {request : Request} {response : Response}
    (done : decodeResponse .exact request document = .ok response) {key : String}
    (held : response.answers[key]? = some (.choice answer))
    : Normalizes answer := by
  obtain ⟨wire, _, _, _, _, answers⟩ := decoded_answers done
  obtain ⟨written, _, question, _, valid⟩ := (answers key _).mp held
  unfold validateAnswer at valid
  split at valid
  next =>
    simp only [bind_eq_ok, pure_eq_ok] at valid
    obtain ⟨_, _, same⟩ := valid
    cases same
  next criteria choice probabilities confidence =>
    obtain ⟨chosen, done, same⟩ := map_eq_ok.mp valid
    cases same
    obtain ⟨passed, rfl⟩ := validateChoice_ok.mp done
    exact normalizes passed.sum.1 (canonicalSum_exact _)
  next => cases valid

/-- Response validation: a document is decoded exactly if it is readable and its answers fit
the questions asked, and the normalized distributions are shares of one whole in the order of
the raw values.
-/
theorem decodeResponse_fitting (request : Request) (document : Document)
    : (∀ arithmetic,
        (∃ response, decodeResponse arithmetic request document = .ok response)
        ↔ ∃ wire, Readable document wire ∧ Fitting arithmetic request wire)
      ∧ ∀ response,
          decodeResponse .exact request document = .ok response
          → ∀ (key : String) (answer : ChoiceAnswer),
              response.answers[key]? = some (.choice answer) → Normalizes answer := by
  constructor
  · intro arithmetic
    rw [decodeResponse_iff]
    exact exists_congr fun wire => accepted_iff_fitting
  · intro response done key answer held
    exact decoded_normalizes done held

def anonymousAnswer : WireResponse :=
  {
    model := ""
    answers := [("fit", .noul 1)]
    usage := { inputTokens := 3, outputTokens := 1 }
  }

/-- Fitting answers of a model without a name are not decoded. -/
theorem decodeResponse_anonymous
    : ¬ ∀ (request : Request) (document : Document),
          (∃ response, decodeResponse .exact request document = .ok response)
          ↔ ∃ wire, document.content = .ok wire ∧ Fitting .exact request wire := by
  intro claimed
  have asked {key : String} {question : Question}
      : (TreeMap.ofList [("fit", Question.noul)] : TreeMap String Question compare)[key]?
            = some question
        ↔ (key, question) ∈ [("fit", Question.noul)] :=
    getElem?_ofList_iff (by decide)
  have fitting : Fitting .exact
      { model := "systemone", questions := .ofList [("fit", Question.noul)] }
      anonymousAnswer := by
    constructor
    · intro key
      rw [mem_iff_getElem?]
      simp only [asked, anonymousAnswer]
      simp
    · intro key question written found mem
      cases List.mem_singleton.mp (asked.mp found)
      cases List.mem_singleton.mp mem
      exact ⟨zero_le_one, le_refl 1⟩
  obtain ⟨response, done⟩ := (claimed
    { model := "systemone", questions := .ofList [("fit", Question.noul)] }
    { length := 90, content := .ok anonymousAnswer }).mpr ⟨anonymousAnswer, rfl, fitting⟩
  simp only [decodeResponse, bind_eq_ok, ensure_eq_ok, pure_eq_ok] at done
  obtain ⟨_, _, wire, content, _, _, _, model, _⟩ := done
  cases content
  revert model
  decide

end SkillRanker.Jev
