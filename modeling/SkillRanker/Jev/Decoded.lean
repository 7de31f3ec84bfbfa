import SkillRanker.Library.Renaming
import SkillRanker.Jev.Codec

/-! What a decoded response holds: an answer for each question, and each of them valid. -/

namespace SkillRanker.Jev

open SkillRanker.Library
open Std

variable {arithmetic : Arithmetic} {wire : WireResponse}

theorem probability_ok {value : ℚ} {result : Unit}
    : probability value = .ok result ↔ 0 ≤ value ∧ value ≤ 1 := by
  unfold probability
  by_cases within : 0 ≤ value ∧ value ≤ 1
  · simp [within]
  · simp [within]

/-- Values are accepted exactly where each is a probability, by induction on them. -/
theorem checkProbabilities_ok {values : List ℚ} {result : Unit}
    : checkProbabilities values = .ok result ↔ ∀ value ∈ values, 0 ≤ value ∧ value ≤ 1 := by
  induction values with
  | nil => simp [checkProbabilities]
  | cons first rest ih =>
      simp only [checkProbabilities, bind_eq_ok, probability_ok, ih, List.forall_mem_cons,
        exists_const]

/-- What a choice passed to be valid. -/
structure Chosen (arithmetic : Arithmetic) (criteria : TreeMap String String compare)
    (choice : String) (options : TreeMap String ℚ compare) (confidence : ℚ) : Prop where
  sameOptions : criteria.keys = options.keys
  confidence : 0 ≤ confidence ∧ confidence ≤ 1
  values : ∀ value ∈ options.toList.map Prod.snd, 0 ≤ value ∧ value ≤ 1
  sum
    : 0 < canonicalSum arithmetic (options.toList.map Prod.snd)
      ∧ (arithmetic.sub (canonicalSum arithmetic (options.toList.map Prod.snd)) 1).abs
        ≤ sumTolerance
  choice : options[choice]? = some (maximum (options.toList.map Prod.snd))

theorem validateChoice_ok {criteria : TreeMap String String compare} {choice : String}
    {options : TreeMap String ℚ compare} {confidence : ℚ} {answer : ChoiceAnswer}
    : validateChoice arithmetic criteria choice options confidence = .ok answer
      ↔ Chosen arithmetic criteria choice options confidence
        ∧ answer
          = {
              choice := choice
              rawProbabilities := options
              rawSum := canonicalSum arithmetic (options.toList.map Prod.snd)
              confidence := confidence
            } := by
  simp only [validateChoice, bind_eq_ok, ensure_eq_ok, probability_ok, checkProbabilities_ok,
    pure_eq_ok]
  constructor
  · rintro ⟨_, same, _, within, _, values, _, sum, _, chosen, rfl⟩
    exact ⟨⟨same, within, values, sum, chosen⟩, rfl⟩
  · rintro ⟨⟨same, within, values, sum, chosen⟩, rfl⟩
    exact ⟨(), same, (), within, (), values, (), sum, (), chosen, rfl⟩

def Answers (arithmetic : Arithmetic) (questions : TreeMap String Question compare)
    (key : String) (written : WireAnswer) (answer : Answer) : Prop :=
  ∃ question,
    questions[key]? = some question ∧ validateAnswer arithmetic question written = .ok answer

variable {entries : List (String × WireAnswer)}

/-- Validated answers are kept under their keys, by induction on them. -/
theorem validateAnswers_ok {questions : TreeMap String Question compare}
    {answers final : TreeMap String Answer compare} (distinct : (entries.map Prod.fst).Nodup)
    (done : validateAnswers arithmetic questions answers entries = .ok final)
    : (∀ key written,
        (key, written) ∈ entries
        → ∃ answer, Answers arithmetic questions key written answer ∧ final[key]? = some answer)
      ∧ ∀ key, key ∉ entries.map Prod.fst → final[key]? = answers[key]? := by
  induction entries generalizing answers with
  | nil =>
      cases done
      exact ⟨by simp, fun _ _ => rfl⟩
  | cons first rest ih =>
      obtain ⟨id, answer⟩ := first
      simp only [validateAnswers, bind_eq_ok, require_eq_ok] at done
      obtain ⟨question, asked, validated, valid, later⟩ := done
      rw [List.map_cons, List.nodup_cons] at distinct
      obtain ⟨inside, outside⟩ := ih distinct.2 later
      constructor
      · intro key written member
        rcases List.mem_cons.mp member with same | inRest
        · cases same
          refine ⟨validated, ⟨question, asked, valid⟩, ?_⟩
          rw [outside id distinct.1, TreeMap.getElem?_insert_self]
        · exact inside key written inRest
      · intro key missing
        rw [List.map_cons, List.mem_cons, not_or] at missing
        rw [outside key missing.2, TreeMap.getElem?_insert,
          if_neg (fun same => missing.1 (LawfulEqCmp.eq_of_compare same).symm)]

theorem validateAnswers_of_valid {questions : TreeMap String Question compare}
    {answers : TreeMap String Answer compare}
    (valid
      : ∀ key written,
          (key, written) ∈ entries → ∃ answer, Answers arithmetic questions key written answer)
    : ∃ final, validateAnswers arithmetic questions answers entries = .ok final := by
  induction entries generalizing answers with
  | nil => exact ⟨answers, rfl⟩
  | cons first rest ih =>
      obtain ⟨id, written⟩ := first
      obtain ⟨answer, question, asked, done⟩ := valid id written List.mem_cons_self
      obtain ⟨final, later⟩ :=
        ih (fun key other member => valid key other (List.mem_cons_of_mem _ member))
      refine ⟨final, ?_⟩
      simp only [validateAnswers, bind_eq_ok, require_eq_ok]
      exact ⟨question, asked, answer, done, later⟩

/-- What a document passed to be decoded. -/
structure Accepted (arithmetic : Arithmetic) (request : Request) (document : Document)
    (wire : WireResponse) : Prop where
  sized : document.length ≤ maxResponseBytes
  content : document.content = .ok wire
  distinct : wire.distinct = true
  model : validId wire.model = true
  keys : ∀ key, key ∈ request.questions ↔ key ∈ wire.answers.map Prod.fst
  answers
    : ∀ key written,
        (key, written) ∈ wire.answers
        → ∃ answer, Answers arithmetic request.questions key written answer

theorem WireResponse.nodup (distinct : wire.distinct = true)
    : (wire.answers.map Prod.fst).Nodup :=
  of_decide_eq_true (Bool.and_eq_true_iff.mp distinct).1

theorem mem_written (distinct : wire.distinct = true) {key : String}
    : key ∈ (TreeMap.ofList wire.answers : TreeMap String WireAnswer compare)
      ↔ key ∈ wire.answers.map Prod.fst := by
  rw [mem_iff_getElem?]
  constructor
  · rintro ⟨written, found⟩
    exact List.mem_map.mpr ⟨_, (getElem?_ofList_iff (WireResponse.nodup distinct)).mp found, rfl⟩
  · intro member
    obtain ⟨⟨_, written⟩, held, rfl⟩ := List.mem_map.mp member
    exact ⟨written, (getElem?_ofList_iff (WireResponse.nodup distinct)).mpr held⟩

theorem mem_toList_written (distinct : wire.distinct = true) {key : String} {written : WireAnswer}
    : (key, written) ∈ (TreeMap.ofList wire.answers : TreeMap String WireAnswer compare).toList
      ↔ (key, written) ∈ wire.answers := by
  rw [TreeMap.mem_toList_iff_getElem?_eq_some, getElem?_ofList_iff (WireResponse.nodup distinct)]

variable {document : Document}

/-- Decoding succeeds exactly where the document passes its checks. -/
theorem decodeResponse_iff {request : Request}
    : (∃ response, decodeResponse arithmetic request document = .ok response)
      ↔ ∃ wire, Accepted arithmetic request document wire := by
  simp only [decodeResponse, bind_eq_ok, ensure_eq_ok, pure_eq_ok]
  constructor
  · rintro ⟨_, _, sized, wire, content, _, distinct, _, model, _, keys, answers, done, rfl⟩
    have distinctKeys : ((TreeMap.ofList wire.answers : TreeMap String WireAnswer compare).toList.map
        Prod.fst).Nodup := by
      rw [TreeMap.map_fst_toList_eq_keys]
      exact TreeMap.nodup_keys
    refine ⟨wire, sized, content, distinct, model, ?_, ?_⟩
    · intro key
      rw [← mem_written distinct]
      exact keys_eq_iff.mp keys key
    · intro key written member
      obtain ⟨answer, valid, _⟩ :=
        (validateAnswers_ok distinctKeys done).1 key written
          ((mem_toList_written distinct).mpr member)
      exact ⟨answer, valid⟩
  · rintro ⟨wire, accepted⟩
    obtain ⟨answers, done⟩ :=
      validateAnswers_of_valid
        (fun key written member =>
          accepted.answers key written ((mem_toList_written accepted.distinct).mp member))
    refine ⟨_, (), accepted.sized, wire, accepted.content, (), accepted.distinct, (),
      accepted.model, (), keys_eq_iff.mpr ?_, answers, done, rfl⟩
    intro key
    rw [mem_written accepted.distinct]
    exact accepted.keys key

/-- A decoded response has, under each key, the validated answer that was written there. -/
theorem decoded_answers {request : Request} {response : Response}
    (done : decodeResponse arithmetic request document = .ok response)
    : ∃ wire,
        Accepted arithmetic request document wire
        ∧ response.requestedModel = request.model
        ∧ response.returnedModel = wire.model
        ∧ response.usage = wire.usage
        ∧ ∀ key answer,
            response.answers[key]? = some answer
            ↔ ∃ written,
                (key, written) ∈ wire.answers
                ∧ Answers arithmetic request.questions key written answer := by
  obtain ⟨wire, accepted⟩ := decodeResponse_iff.mp ⟨response, done⟩
  simp only [decodeResponse, bind_eq_ok, ensure_eq_ok, pure_eq_ok] at done
  obtain ⟨_, _, other, content, _, distinct, _, _, _, _, answers, valid, rfl⟩ := done
  rw [accepted.content] at content
  cases content
  refine ⟨wire, accepted, rfl, rfl, rfl, ?_⟩
  have distinctKeys : ((TreeMap.ofList wire.answers : TreeMap String WireAnswer compare).toList.map
      Prod.fst).Nodup := by
    rw [TreeMap.map_fst_toList_eq_keys]
    exact TreeMap.nodup_keys
  obtain ⟨inside, outside⟩ := validateAnswers_ok distinctKeys valid
  intro key answer
  constructor
  · intro found
    by_cases known : key ∈ wire.answers.map Prod.fst
    · obtain ⟨⟨_, written⟩, member, rfl⟩ := List.mem_map.mp known
      obtain ⟨validated, valid, held⟩ := inside _ _ ((mem_toList_written distinct).mpr member)
      rw [held, Option.some.injEq] at found
      exact ⟨written, member, found ▸ valid⟩
    · rw [outside key] at found
      · cases found
      · rw [TreeMap.map_fst_toList_eq_keys, TreeMap.mem_keys, mem_written distinct]
        exact known
  · rintro ⟨written, member, question, asked, validated⟩
    obtain ⟨other, ⟨_, again, valid⟩, held⟩ :=
      inside key written ((mem_toList_written distinct).mpr member)
    rw [asked] at again
    cases again
    rw [validated] at valid
    cases valid
    exact held

end SkillRanker.Jev
