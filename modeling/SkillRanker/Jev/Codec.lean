import Mathlib.Algebra.Order.Ring.Unbundled.Rat
import Mathlib.Data.Rat.Init
import SkillRanker.Jev.Admission

/-! Requests and validated responses of the provider's wire protocol. Probabilities are exact
numbers here, where the program has floats.
-/

namespace SkillRanker.Jev

open Std

/-- A bounded document error; it carries no provider text. -/
inductive CodecError
  | tooLarge
  | invalidJson
  | invalidRequest
  | duplicateId
  | invalidAnswer
  | questionMismatch
  | optionMismatch
  | invalidProbability
  | invalidDistribution
  | invalidChoice
deriving DecidableEq, Repr

inductive Question
  | choice (criteria : TreeMap String String compare)
  | noul

structure Request where
  model : String
  questions : TreeMap String Question compare

structure ChoiceAnswer where
  choice : String
  rawProbabilities : TreeMap String ℚ compare
  rawSum : ℚ
  confidence : ℚ

inductive Answer
  | noul (value : ℚ)
  | choice (answer : ChoiceAnswer)

structure Response where
  requestedModel : String
  returnedModel : String
  answers : TreeMap String Answer compare
  usage : Usage

-- Decoding of provider responses against the request they answer

open SkillRanker.Library

/-- The operations on numbers, exact or rounded. -/
structure Arithmetic where
  add : ℚ → ℚ → ℚ
  sub : ℚ → ℚ → ℚ
  div : ℚ → ℚ → ℚ

def Arithmetic.exact : Arithmetic :=
  {
    add := fun left right => left + right
    sub := fun left right => left - right
    div := fun left right => left / right
  }

def maxResponseBytes : Nat := 2 * 1024 * 1024

def sumTolerance : ℚ := 1 / 10

inductive WireAnswer
  | noul (noul : ℚ)
  | choice (choice : String) (probabilities : List (String × ℚ)) (confidence : ℚ)

structure WireResponse where
  model : String
  answers : List (String × WireAnswer)
  usage : Usage

/-- A response document: the length of its bytes and the response they hold, or why they hold
none.
-/
structure Document where
  length : Nat
  content : Except CodecError WireResponse

def validId (value : String) : Bool :=
  !value.isEmpty && value.utf8ByteSize ≤ maxIdBytes && !value.toList.any isControl

def probability (value : ℚ) : Except CodecError Unit :=
  if 0 ≤ value ∧ value ≤ 1 then .ok () else .error .invalidProbability

def WireAnswer.distinct : WireAnswer → Bool
  | .noul _ => true
  | .choice _ probabilities _ => decide (probabilities.map Prod.fst).Nodup

/-- The objects of a document repeat no key. -/
def WireResponse.distinct (wire : WireResponse) : Bool :=
  decide (wire.answers.map Prod.fst).Nodup && wire.answers.all (fun entry => entry.2.distinct)

section Decoding

variable (arithmetic : Arithmetic)

def canonicalSum (values : List ℚ) : ℚ :=
  (values.mergeSort (fun left right => left ≤ right)).foldl arithmetic.add 0

def maximum (values : List ℚ) : ℚ := values.foldl max 0

def checkProbabilities : List ℚ → Except CodecError Unit
  | [] => .ok ()
  | value :: rest => do
      probability value
      checkProbabilities rest

def validateChoice (criteria : TreeMap String String compare) (choice : String)
    (options : TreeMap String ℚ compare) (confidence : ℚ)
    : Except CodecError ChoiceAnswer := do
  ensure (criteria.keys = options.keys) .optionMismatch
  probability confidence
  let values := options.toList.map Prod.snd
  checkProbabilities values
  let sum := canonicalSum arithmetic values
  ensure (0 < sum ∧ (arithmetic.sub sum 1).abs ≤ sumTolerance) .invalidDistribution
  ensure (options[choice]? = some (maximum values)) .invalidChoice
  return {
    choice := choice
    rawProbabilities := options
    rawSum := sum
    confidence := confidence
  }

def validateAnswer (question : Question) (answer : WireAnswer) : Except CodecError Answer :=
  match question, answer with
  | .noul, .noul value => do
      probability value
      return .noul value
  | .choice criteria, .choice choice probabilities confidence =>
      .choice <$> validateChoice arithmetic criteria choice (.ofList probabilities) confidence
  | _, _ => .error .questionMismatch

def validateAnswers (questions : TreeMap String Question compare)
    : TreeMap String Answer compare → List (String × WireAnswer)
      → Except CodecError (TreeMap String Answer compare)
  | answers, [] => .ok answers
  | answers, (id, answer) :: rest => do
      let question ← require questions[id]? .questionMismatch
      let validated ← validateAnswer arithmetic question answer
      validateAnswers questions (answers.insert id validated) rest

def decodeResponse (request : Request) (document : Document) : Except CodecError Response := do
  ensure (document.length ≤ maxResponseBytes) .tooLarge
  let wire ← document.content
  ensure (wire.distinct = true) .invalidJson
  ensure (validId wire.model = true) .invalidAnswer
  let written : TreeMap String WireAnswer compare := .ofList wire.answers
  ensure (request.questions.keys = written.keys) .questionMismatch
  let answers ← validateAnswers arithmetic request.questions ∅ written.toList
  return {
    requestedModel := request.model
    returnedModel := wire.model
    answers := answers
    usage := wire.usage
  }

end Decoding

namespace ChoiceAnswer

variable (arithmetic : Arithmetic) (answer : ChoiceAnswer)

def normalizedProbability (option : String) : Option ℚ :=
  answer.rawProbabilities[option]?.map (fun value => arithmetic.div value answer.rawSum)

def normalizedProbabilities : TreeMap String ℚ compare :=
  answer.rawProbabilities.map (fun _ value => arithmetic.div value answer.rawSum)

end ChoiceAnswer

end SkillRanker.Jev
