import SkillRanker.Context.Payload
import SkillRanker.Jev.Wide

/-! Requests as they are written: with the texts that they ask with, and the bounded document that
they make.
-/

namespace SkillRanker.Jev

open SkillRanker.Library
open SkillRanker.Privacy (byteSize byteSize_append)
open Std (TreeMap)

def maxRequestBytes : Nat := 96 * 1024

def maxChoiceOptions : Nat := 255

def maxOutputDepth : Nat := 64

-- Questions

/-- A question with the texts it asks with. The stages ask no question of two values with criteria
of its own.
-/
inductive DraftQuestion
  | choice (instructions : Json) (criteria : TreeMap String String compare)
  | noul (instructions : Json)

def describes : Json → Bool
  | .string _ | .array _ | .object _ => true
  | _ => false

mutual

/-- `check_depth` -/
def shallow (depth : Nat) : Json → Bool
  | .array items => depth ≤ maxOutputDepth && itemsShallow (depth + 1) items
  | .object members => depth ≤ maxOutputDepth && membersShallow (depth + 1) members
  | _ => depth ≤ maxOutputDepth

def itemsShallow (depth : Nat) : List Json → Bool
  | [] => true
  | item :: rest => shallow depth item && itemsShallow depth rest

def membersShallow (depth : Nat) : List (String × Json) → Bool
  | [] => true
  | (_, value) :: rest => shallow depth value && membersShallow depth rest

end

namespace DraftQuestion

def instructions : DraftQuestion → Json
  | .choice instructions _ => instructions
  | .noul instructions => instructions

def optionsValid : DraftQuestion → Bool
  | .choice _ criteria =>
      !criteria.isEmpty && criteria.size ≤ maxChoiceOptions && criteria.keys.all validId
  | .noul _ => true

def validate (question : DraftQuestion) : Except CodecError Unit := do
  ensure (question.optionsValid = true) .invalidRequest
  ensure (describes question.instructions = true) .invalidRequest

def insertOptions (criteria : TreeMap String String compare)
    : List (String × String) → Except CodecError (TreeMap String String compare)
  | [] => .ok criteria
  | (id, description) :: rest => do
      ensure (id ∉ criteria) .duplicateId
      let criteria := criteria.insert id description
      ensure (criteria.size ≤ maxChoiceOptions) .invalidRequest
      insertOptions criteria rest

/-- `Question::choice` -/
def newChoice (instructions : Json) (options : List (String × String))
    : Except CodecError DraftQuestion := do
  let criteria ← insertOptions ∅ options
  let question := choice instructions criteria
  question.validate
  return question

def question : DraftQuestion → Question
  | .choice _ criteria => .choice criteria
  | .noul _ => .noul

/-- A choice may have its options written in reverse. -/
def toJson (reversed : Bool) : DraftQuestion → Json
  | .choice instructions criteria =>
      let members := criteria.toList.map fun entry => (entry.1, Json.string entry.2)
      .object
        [
          ("type", .string "choice"),
          ("instructions", instructions),
          ("criteria", .object (if reversed then members.reverse else members))
        ]
  | .noul instructions => .object [("type", .string "noul"), ("instructions", instructions)]

end DraftQuestion

-- Requests

/-- `BoundedBuffer::write`: what is written, with one piece more. -/
def boundedWrite (written piece : List Char) : Except CodecError (List Char) :=
  if maxRequestBytes - byteSize written < byteSize piece then .error .tooLarge
  else .ok (written ++ piece)

/-- A request with its texts. -/
structure Draft where
  model : String
  state : Json
  questions : TreeMap String DraftQuestion compare
  reverseChoice : Option String

namespace Draft

def request (draft : Draft) : Request where
  model := draft.model
  questions := draft.questions.map fun _ question => question.question

def toJson (draft : Draft) : Json :=
  .object
    [
      ("model", .string draft.model),
      ("state", draft.state),
      (
        "questions",
        .object
          (draft.questions.toList.map fun entry =>
            (entry.1, entry.2.toJson (draft.reverseChoice = some entry.1)))
      )
    ]

def checkQuestion (question : DraftQuestion) : Except CodecError Unit := do
  ensure (shallow 3 question.instructions = true) .invalidJson
  question.validate

/-- `Request::to_json`: the document, which is written piece by piece. -/
def encode (draft : Draft) : Except CodecError (List Char) := do
  ensure
    (validId draft.model = true ∧ describes draft.state = true ∧ draft.questions.isEmpty = false
      ∧ draft.questions.keys.all validId = true)
    .invalidRequest
  ensure (shallow 1 draft.state = true) .invalidJson
  draft.questions.values.forM checkQuestion
  (draft.toJson.write.map List.singleton).foldlM boundedWrite []

def insertQuestions (questions : TreeMap String DraftQuestion compare)
    : List (String × DraftQuestion) → Except CodecError (TreeMap String DraftQuestion compare)
  | [] => .ok questions
  | (id, question) :: rest => do
      ensure (id ∉ questions) .duplicateId
      insertQuestions (questions.insert id question) rest

/-- `Request::new` -/
def new (model : String) (state : Json) (questions : List (String × DraftQuestion))
    : Except CodecError Draft := do
  let questions ← insertQuestions ∅ questions
  let draft : Draft :=
    {
      model := model
      state := state
      questions := questions
      reverseChoice := none
    }
  let _ ← draft.encode
  return draft

def withReversedChoice (draft : Draft) (question : String) : Except CodecError Draft :=
  match draft.questions[question]? with
  | some (.choice _ _) => .ok { draft with reverseChoice := some question }
  | _ => .error .invalidRequest

end Draft

-- Bounds

/-- However a text is divided, it is written whole if it is within the bound, by induction on the
pieces.
-/
theorem boundedWrite_pieces {pieces : List (List Char)} {written text : List Char}
    (within : byteSize written ≤ maxRequestBytes)
    : pieces.foldlM boundedWrite written = .ok text
      ↔ text = written ++ pieces.flatten ∧ byteSize text ≤ maxRequestBytes := by
  induction pieces generalizing written with
  | nil =>
      rw [List.foldlM_nil, pure_eq_ok, List.flatten_nil, List.append_nil]
      constructor
      · rintro rfl
        exact ⟨rfl, within⟩
      · exact fun found => found.1.symm
  | cons piece rest ih =>
      rw [List.foldlM_cons, bind_eq_ok, List.flatten_cons, ← List.append_assoc]
      have size := byteSize_append written piece
      by_cases fits : byteSize written + byteSize piece ≤ maxRequestBytes
      · have written' : boundedWrite written piece = .ok (written ++ piece) :=
          if_neg (by omega)
        rw [written']
        constructor
        · rintro ⟨_, same, later⟩
          cases same
          exact (ih (by omega)).mp later
        · exact fun found => ⟨_, rfl, (ih (by omega)).mpr found⟩
      · have refused : boundedWrite written piece = .error .tooLarge := if_pos (by omega)
        rw [refused]
        constructor
        · rintro ⟨_, same, _⟩
          cases same
        · rintro ⟨rfl, bounded⟩
          rw [byteSize_append, size] at bounded
          omega

variable {draft : Draft}

/-- What is written of a request is its document, within the bound. -/
theorem Draft.of_encode {text : List Char} (done : draft.encode = .ok text)
    : text = draft.toJson.write ∧ byteSize text ≤ maxRequestBytes := by
  simp only [Draft.encode, bind_eq_ok, ensure_eq_ok] at done
  obtain ⟨_, _, _, _, _, _, written⟩ := done
  have found := (boundedWrite_pieces (Nat.zero_le _)).mp written
  rw [List.nil_append] at found
  refine ⟨found.1.trans ?_, found.2⟩
  rw [← List.flatMap_def]
  exact List.flatMap_singleton' _

-- What a request asks

theorem getElem?_insert_new {Value : Type} {tree : TreeMap String Value compare} {id key : String}
    {value found : Value} (new : id ∉ tree)
    : (tree.insert id value)[key]? = some found
      ↔ tree[key]? = some found ∨ (key, found) = (id, value) := by
  rw [TreeMap.getElem?_insert, Prod.mk.injEq]
  split
  next same =>
      cases Std.LawfulEqCmp.eq_of_compare same
      have absent : tree[id]? = none := TreeMap.getElem?_eq_none new
      rw [absent, Option.some.injEq]
      exact ⟨fun is => .inr ⟨rfl, is.symm⟩, fun held => (held.resolve_left nofun).2.symm⟩
  next other =>
      refine ⟨.inl, fun held => held.resolve_right ?_⟩
      rintro ⟨rfl, _⟩
      exact other Std.ReflCmp.compare_self

variable {options : List (String × String)}

/-- The options of a choice are those it was made of, by induction on them. -/
theorem DraftQuestion.of_insertOptions {criteria result : TreeMap String String compare}
    (done : insertOptions criteria options = .ok result) (id text : String)
    : result[id]? = some text ↔ criteria[id]? = some text ∨ (id, text) ∈ options := by
  induction options generalizing criteria with
  | nil =>
      cases done
      simp
  | cons first rest ih =>
      simp only [insertOptions, bind_eq_ok, ensure_eq_ok] at done
      obtain ⟨_, new, _, _, later⟩ := done
      rw [ih later, getElem?_insert_new new, List.mem_cons, or_assoc]

theorem DraftQuestion.of_newChoice {instructions : Json} {question : DraftQuestion}
    (done : newChoice instructions options = .ok question)
    : ∃ criteria,
        question = .choice instructions criteria
        ∧ ∀ id text : String, criteria[id]? = some text ↔ (id, text) ∈ options := by
  simp only [newChoice, bind_eq_ok, pure_eq_ok] at done
  obtain ⟨criteria, inserted, _, _, rfl⟩ := done
  refine ⟨criteria, rfl, fun id text => ?_⟩
  rw [of_insertOptions inserted, TreeMap.getElem?_emptyc, or_iff_right (Option.some_ne_none _).symm]

theorem Draft.of_insertQuestions {added : List (String × DraftQuestion)}
    {questions result : TreeMap String DraftQuestion compare}
    (done : insertQuestions questions added = .ok result) (id : String) (question : DraftQuestion)
    : result[id]? = some question ↔ questions[id]? = some question ∨ (id, question) ∈ added := by
  induction added generalizing questions with
  | nil =>
      cases done
      simp
  | cons first rest ih =>
      simp only [insertQuestions, bind_eq_ok, ensure_eq_ok] at done
      obtain ⟨_, new, later⟩ := done
      rw [ih later, getElem?_insert_new new, List.mem_cons, or_assoc]

/-- A new request asks the questions it was made of, and can be written. -/
theorem Draft.of_new {model : String} {state : Json} {questions : List (String × DraftQuestion)}
    (done : Draft.new model state questions = .ok draft)
    : draft.model = model ∧ draft.state = state
      ∧ (∀ (id : String) (question : DraftQuestion),
          draft.questions[id]? = some question ↔ (id, question) ∈ questions)
      ∧ ∃ text, draft.encode = .ok text := by
  simp only [Draft.new, bind_eq_ok, pure_eq_ok] at done
  obtain ⟨asked, inserted, text, written, rfl⟩ := done
  refine ⟨rfl, rfl, fun id question => ?_, text, written⟩
  rw [of_insertQuestions inserted, TreeMap.getElem?_emptyc, or_iff_right (Option.some_ne_none _).symm]

/-- Only the order of the options changes. -/
theorem Draft.of_withReversedChoice {reversed : Draft} {question : String}
    (done : draft.withReversedChoice question = .ok reversed)
    : reversed = { draft with reverseChoice := some question } := by
  unfold withReversedChoice at done
  split at done
  · cases done
    rfl
  · cases done

end SkillRanker.Jev
