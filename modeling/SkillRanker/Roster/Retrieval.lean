import Mathlib.Algebra.GroupWithZero.Nat
import Mathlib.Data.List.Dedup
import Mathlib.Data.List.DropRight
import Mathlib.Data.List.Perm.Basic
import Mathlib.Data.Rat.Defs
import SkillRanker.Library.Fallible
import SkillRanker.Library.Quoting
import SkillRanker.Primitives

/-! The query that a roster is searched with: quoted literals of the chosen texts' tokens. -/

namespace SkillRanker.Roster.Retrieval

open Library

variable {analyzed taken : Nat}

def maxQueryTerms : Nat := 128
def maxQueryScalars : Nat := 4096
def maxSourceScalars : Nat := 4096

-- The search engine

/-- A token of the analyzer: its normal form and where in the text it was. -/
structure Token where
  text : List Char
  offsetFrom : Nat
  offsetTo : Nat

/-- How a clause takes part in its node. -/
inductive Occur where
  | should
  | other
deriving DecidableEq

inductive BooleanOperator where
  | or
  | other
deriving DecidableEq

/-- A parsed query. Of the nodes that are no literals and no disjunctions nothing is read. -/
inductive Query where
  | term (fields : List (Nat × ℚ)) (text : List Char)
  | boolean (clauses : List (Occur × Query)) (operator : Option BooleanOperator)
  | other

structure ParsedQuery where
  wasTruncated : Bool
  diagnostics : Nat
  query : Query

/-- The parts of the search engine and of the character tables that a compilation uses. -/
structure Engine where
  analyze : List Char → List Token
  parse : Option (List Char → ParsedQuery)
  isAlphanumeric : Char → Bool

-- Compilation

/-- The local context that is searched for. -/
structure QueryInput where
  latestRequest : List Char
  activeTask : List Char
  recentErrors : List Char

structure QueryDiagnostics where
  inputTruncated : List Bool := []
  analyzedTokens : Nat := 0
  duplicateTerms : Nat := 0
  omittedTerms : Nat := 0
  termLimitReached : Bool := false
  scalarLimitReached : Bool := false
  emittedTerms : Nat := 0
  queryScalars : Nat := 0
deriving DecidableEq

structure QueryCompilation where
  query : Option (List Char)
  diagnostics : QueryDiagnostics
deriving DecidableEq

inductive QueryCompileError where
  | cancelled
  | schemaMismatch
  | unrepresentableTerms
  | parserRejected (diagnosticCount : Nat) (wasTruncated : Bool)
  | meaningChanged
deriving DecidableEq

/-- A token's normal form, and the text that it is searched by. -/
structure Term where
  normalized : List Char
  source : List Char
deriving DecidableEq

/-- The beginning of a source, without the word that the cut would fall into. -/
def boundedSource (isAlphanumeric : Char → Bool) (source : List Char) : List Char × Bool :=
  match source[maxSourceScalars]? with
  | none => (source, false)
  | some next =>
      let bounded := source.take maxSourceScalars
      (if isAlphanumeric next then bounded.rdropWhile isAlphanumeric else bounded, true)

/-- The terms of a source. -/
def Engine.terms (engine : Engine) (source : List Char) : List Term :=
  let bounded := (boundedSource engine.isAlphanumeric source).1
  (engine.analyze bounded).map fun token =>
    ⟨token.text, (bounded.take token.offsetTo).drop token.offsetFrom⟩

def quoteLiteral (term : List Char) : List Char :=
  '"' :: (term.flatMap fun char => if char = '\\' || char = '"' then ['\\', char] else [char])
    ++ ['"']

structure Rendering where
  seen : List (List Char) := []
  expected : List (List Char) := []
  rendered : List Char := []
  diagnostics : QueryDiagnostics := {}

def Rendering.separator (rendering : Rendering) : List Char :=
  if rendering.rendered.isEmpty then [] else " OR ".toList

/-- Takes the next term of the interleaved sources. -/
def Rendering.take (rendering : Rendering) (term : Term) : Rendering :=
  let diagnostics := rendering.diagnostics
  if term.normalized ∈ rendering.seen then
    { rendering with
      diagnostics := { diagnostics with duplicateTerms := diagnostics.duplicateTerms + 1 } }
  else
    let seen := term.normalized :: rendering.seen
    if diagnostics.emittedTerms = maxQueryTerms then
      { rendering with
        seen
        diagnostics :=
          { diagnostics with
            termLimitReached := true, omittedTerms := diagnostics.omittedTerms + 1 } }
    else
      let literal := quoteLiteral term.source
      let added := rendering.separator.length + literal.length
      if diagnostics.queryScalars + added > maxQueryScalars then
        { rendering with
          seen
          diagnostics :=
            { diagnostics with
              scalarLimitReached := true, omittedTerms := diagnostics.omittedTerms + 1 } }
      else
        { seen
          expected := term.normalized :: rendering.expected
          rendered := rendering.rendered ++ rendering.separator ++ literal
          diagnostics :=
            { diagnostics with
              queryScalars := diagnostics.queryScalars + added
              emittedTerms := diagnostics.emittedTerms + 1 } }

/-- Takes the terms that stand at one place of their sources. -/
def Rendering.takeRound (sources : List (List Term)) (rendering : Rendering) (round : Nat)
    : Rendering :=
  sources.foldl
    (fun rendering terms =>
      match terms[round]? with
      | none => rendering
      | some term => rendering.take term)
    rendering

/-- Whether a text consists of quoted literals and of the operator between them. -/
def isLiteralDisjunction (rendered : List Char) : Bool :=
  match rendered with
  | [] => false
  | first :: body =>
      if first = '"' then
        match _ : readEscaped body with
        | none => false
        | some (_, rendered) =>
            if rendered = [] then true
            else if rendered.take 4 = " OR ".toList then isLiteralDisjunction (rendered.drop 4)
            else false
      else false
termination_by rendered.length
decreasing_by
  have shorter := length_of_readEscaped (by assumption)
  simp only [List.length_drop, List.length_cons]
  omega

structure FieldMask where
  content : Bool := false
  title : Bool := false
deriving DecidableEq

/-- Adds a field to those that a literal is searched in. A field that is there already, or has
another weight than its own, is refused. -/
def FieldMask.add (mask : FieldMask) : Nat × ℚ → Option FieldMask
  | (1, boost) => if boost = 1 ∧ mask.content = false then some { mask with content := true } else none
  | (2, boost) => if boost = 2 ∧ mask.title = false then some { mask with title := true } else none
  | _ => none

mutual

def Query.leaves : Query → Option (List (List Char × List (Nat × ℚ)))
  | .term fields text => if fields.isEmpty then none else some [(text, fields)]
  | .boolean clauses operator =>
      if operator = none ∨ operator = some .or then leavesOfClauses clauses else none
  | .other => none

def leavesOfClauses : List (Occur × Query) → Option (List (List Char × List (Nat × ℚ)))
  | [] => some []
  | (occur, query) :: rest =>
      if occur = .should then do
        let first ← query.leaves
        let others ← leavesOfClauses rest
        return first ++ others
      else none

end

/-- The fields that the leaves search each literal in. -/
def masks (leaves : List (List Char × List (Nat × ℚ))) : Option (List (List Char × FieldMask)) :=
  leaves.foldlM
    (fun masks (text, fields) => do
      let mask ← fields.foldlM FieldMask.add ((masks.lookup text).getD {})
      return (text, mask) :: masks.filter (·.1 ≠ text))
    []

/-- Whether a parsed query searches exactly the expected literals, each once in both fields. -/
def preservesTerms (query : Query) (expected : List (List Char)) : Bool :=
  match query.leaves.bind masks with
  | none => false
  | some actual =>
      actual.length = expected.dedup.length
        && actual.all fun (text, mask) => mask = ⟨true, true⟩ && text ∈ expected

/-- Whether the engine's parser reads the rendered query as the literals it was made of. -/
def validateQuery (engine : Engine) (rendered : List Char) (expected : List (List Char))
    : Except QueryCompileError Unit := do
  let parse ← require engine.parse .schemaMismatch
  let parsed := parse rendered
  ensure (parsed.wasTruncated = false ∧ parsed.diagnostics = 0)
    (.parserRejected parsed.diagnostics parsed.wasTruncated)
  ensure (isLiteralDisjunction rendered = true ∧ preservesTerms parsed.query expected = true)
    .meaningChanged

/-- Compiles the terms of the three sources to a query, a round of the sources at a time. -/
def compileQuery (engine : Engine) (checkpoints : Nat → Bool) (input : QueryInput)
    : Except QueryCompileError QueryCompilation := do
  let texts := [input.latestRequest, input.activeTask, input.recentErrors]
  ensure (checkpoints 0 ∧ checkpoints 1 ∧ checkpoints 2) .cancelled
  let sources := texts.map engine.terms
  let diagnostics : QueryDiagnostics :=
    { inputTruncated := texts.map fun source => (boundedSource engine.isAlphanumeric source).2
      analyzedTokens := (sources.map List.length).sum }
  let rounds := (sources.map List.length).max?.getD 0
  let rendering ←
    (List.range rounds).foldlM
      (fun (rendering : Rendering) round => do
        ensure (checkpoints (3 + round)) .cancelled
        return rendering.takeRound sources round)
      { diagnostics }
  ensure (checkpoints (3 + rounds)) .cancelled
  if rendering.rendered.isEmpty then
    ensure (rendering.diagnostics.analyzedTokens = 0) .unrepresentableTerms
    return { query := none, diagnostics := rendering.diagnostics }
  validateQuery engine rendering.rendered rendering.expected
  ensure (checkpoints (4 + rounds)) .cancelled
  return { query := some rendering.rendered, diagnostics := rendering.diagnostics }

-- The order of the terms

/-- The terms of the sources, a round over the sources at a time. -/
def interleaved (sources : List (List Term)) : List Term :=
  (List.range ((sources.map List.length).max?.getD 0)).flatMap fun round =>
    sources.filterMap (·[round]?)

/-- The items of a list at the places below a bound are the list, by induction on it. -/
theorem flatMap_range_getElem? {α : Type} {items : List α} {bound : Nat}
    (le : items.length ≤ bound)
    : (List.range bound).flatMap (fun place => items[place]?.toList) = items := by
  induction items generalizing bound with
  | nil => simp
  | cons item rest ih =>
      obtain ⟨less, rfl⟩ : ∃ less, bound = less + 1 :=
        Nat.exists_eq_add_one.mpr (Nat.lt_of_lt_of_le (Nat.succ_pos _) le)
      rw [List.range_succ_eq_map, List.flatMap_cons, List.flatMap_map]
      have tail := ih (Nat.le_of_succ_le_succ le)
      simpa using tail

/-- Rounds over lists meet each item of theirs once, by induction on the lists. -/
theorem flatMap_rounds_perm {α : Type} {sources : List (List α)} {bound : Nat}
    (le : ∀ items ∈ sources, items.length ≤ bound)
    : ((List.range bound).flatMap fun round => sources.filterMap (·[round]?)).Perm
        sources.flatten := by
  induction sources with
  | nil => simp
  | cons items rest ih =>
      have split (round : Nat)
          : (items :: rest).filterMap (·[round]?)
            = items[round]?.toList ++ rest.filterMap (·[round]?) := by
        cases found : items[round]? <;> simp [found]
      simp only [split, List.flatten_cons]
      refine (List.flatMap_append_perm _ _ _).symm.trans ?_
      rw [flatMap_range_getElem? (le items List.mem_cons_self)]
      exact (ih fun other mem => le other (List.mem_cons_of_mem items mem)).append_left items

/-- Every term is taken once. -/
theorem interleaved_perm (sources : List (List Term))
    : (interleaved sources).Perm sources.flatten := by
  refine flatMap_rounds_perm fun items mem => ?_
  have listed : items.length ∈ sources.map List.length := List.mem_map_of_mem mem
  exact List.le_max?_getD_of_mem listed

theorem Rendering.takeRound_eq (sources : List (List Term)) (rendering : Rendering) (round : Nat)
    : rendering.takeRound sources round
      = (sources.filterMap (·[round]?)).foldl Rendering.take rendering := by
  rw [List.foldl_filterMap, Rendering.takeRound]
  congr 1
  funext rendering terms
  cases terms[round]? <;> rfl

variable {rendering : Rendering} {checkpoints : Nat → Bool}

theorem takeRounds_eq {sources : List (List Term)} {start : Rendering} {rounds : List Nat}
    (ran
      : rounds.foldlM
          (fun (rendering : Rendering) round => do
            ensure (checkpoints (3 + round)) QueryCompileError.cancelled
            return rendering.takeRound sources round)
          start
        = .ok rendering)
    : rendering
      = (rounds.flatMap fun round => sources.filterMap (·[round]?)).foldl Rendering.take start := by
  induction rounds generalizing start with
  | nil =>
      cases ran
      rfl
  | cons round rest ih =>
      rw [List.foldlM_cons, bind_eq_ok] at ran
      obtain ⟨next, stepped, others⟩ := ran
      obtain ⟨⟨⟩, _, same⟩ := bind_eq_ok.mp stepped
      cases same
      rw [ih others, List.flatMap_cons, List.foldl_append, Rendering.takeRound_eq]

-- The selection

def disjunction : List Char := " OR ".toList

def decode (query : List Char) : Option (List (List Char)) := readJoined disjunction query

/-- How long a query becomes with a further literal. -/
def scalarsWith (count scalars : Nat) (term : Term) : Nat :=
  scalars + ((if count = 0 then 0 else disjunction.length) + (quoted term.source).length)

/-- Whether a further literal leaves a query within its two limits. -/
def HasRoom (count scalars : Nat) (term : Term) : Prop :=
  count < maxQueryTerms ∧ scalarsWith count scalars term ≤ maxQueryScalars

instance (count scalars : Nat) (term : Term) : Decidable (HasRoom count scalars term) :=
  inferInstanceAs (Decidable (_ ∧ _))

/-- The terms that go into a query: the first ones of their normal forms that it has room for. -/
def emitted (seen : List (List Char)) (count scalars : Nat) : List Term → List Term
  | [] => []
  | term :: rest =>
      if term.normalized ∈ seen then emitted seen count scalars rest
      else if HasRoom count scalars term then
        term :: emitted (term.normalized :: seen) (count + 1) (scalarsWith count scalars term) rest
      else emitted (term.normalized :: seen) count scalars rest

-- The rendered text

/-- What the rendered text and the counts are, by the terms that were taken and by those of them
that went into the text. -/
structure Rendering.Holds (rendering : Rendering) (analyzed taken : Nat) (terms : List Term)
    : Prop where
  text : rendering.rendered = joined disjunction (terms.map (·.source))
  scalars : rendering.diagnostics.queryScalars = rendering.rendered.length
  bounded : rendering.diagnostics.queryScalars ≤ maxQueryScalars
  count : rendering.diagnostics.emittedTerms = terms.length
  few : rendering.diagnostics.emittedTerms ≤ maxQueryTerms
  analyzed : rendering.diagnostics.analyzedTokens = analyzed
  counted
    : rendering.diagnostics.emittedTerms + rendering.diagnostics.duplicateTerms
        + rendering.diagnostics.omittedTerms
      = taken

theorem quoteLiteral_eq (term : List Char) : quoteLiteral term = quoted term := rfl

/-- The separator that a rendering puts before its next literal, by the number of its literals. -/
theorem Rendering.Holds.separator {terms : List Term} (holds : rendering.Holds analyzed taken terms)
    : rendering.separator = if terms = [] then [] else disjunction := by
  rw [Rendering.separator, holds.text]
  by_cases none : terms = []
  · subst none
    rfl
  · have some : terms.map (·.source) ≠ [] := by simp [none]
    rw [if_neg none, if_neg (by simpa using joined_ne_nil disjunction some)]
    rfl

theorem Rendering.Holds.skip {next : Rendering} {terms : List Term}
    (holds : rendering.Holds analyzed taken terms) (text : next.rendered = rendering.rendered)
    (scalars : next.diagnostics.queryScalars = rendering.diagnostics.queryScalars)
    (count : next.diagnostics.emittedTerms = rendering.diagnostics.emittedTerms)
    (kept : next.diagnostics.analyzedTokens = rendering.diagnostics.analyzedTokens)
    (counted
      : next.diagnostics.duplicateTerms + next.diagnostics.omittedTerms
        = rendering.diagnostics.duplicateTerms + rendering.diagnostics.omittedTerms + 1)
    : next.Holds analyzed (taken + 1) terms where
  text := text.trans holds.text
  scalars := by rw [scalars, text, holds.scalars]
  bounded := scalars ▸ holds.bounded
  count := count.trans holds.count
  few := count ▸ holds.few
  analyzed := kept.trans holds.analyzed
  counted := by
    have before := holds.counted
    omega

/-- A literal behind the rendered ones. -/
theorem joined_append (terms : List Term) (term : Term)
    : joined disjunction ((terms ++ [term]).map (·.source))
      = joined disjunction (terms.map (·.source))
        ++ ((if terms = [] then [] else disjunction) ++ quoted term.source) := by
  by_cases none : terms = []
  · subst none
    rw [List.nil_append, List.map_singleton, joined_singleton]
    rfl
  · have some : terms.map (·.source) ≠ [] := by simp [none]
    rw [List.map_append, List.map_singleton, joined_append_singleton _ _ some, if_neg none]

variable {before : List Term} {term : Term}

section

variable (holds : rendering.Holds analyzed taken before)
include holds

/-- A term whose normal form was met before only counts. -/
theorem Rendering.Holds.duplicate (seen : term.normalized ∈ rendering.seen)
    : (rendering.take term).Holds analyzed (taken + 1) before
      ∧ (rendering.take term).seen = rendering.seen
      ∧ (rendering.take term).diagnostics.queryScalars = rendering.diagnostics.queryScalars := by
  rw [Rendering.take, if_pos seen]
  refine ⟨holds.skip rfl rfl rfl rfl ?_, rfl, rfl⟩
  dsimp only
  omega

/-- A term that the query has no room for only counts, but its normal form was met. -/
theorem Rendering.Holds.omitted (new : term.normalized ∉ rendering.seen)
    (room : ¬HasRoom before.length rendering.diagnostics.queryScalars term)
    : (rendering.take term).Holds analyzed (taken + 1) before
      ∧ (rendering.take term).seen = term.normalized :: rendering.seen
      ∧ (rendering.take term).diagnostics.queryScalars = rendering.diagnostics.queryScalars := by
  have few := holds.few
  rw [holds.count] at few
  rw [Rendering.take, if_neg new]
  by_cases full : rendering.diagnostics.emittedTerms = maxQueryTerms
  · rw [if_pos full]
    refine ⟨holds.skip rfl rfl rfl rfl ?_, rfl, rfl⟩
    dsimp only
    omega
  · have long : rendering.diagnostics.queryScalars
        + (rendering.separator.length + (quoteLiteral term.source).length)
        > maxQueryScalars := by
      rw [holds.count] at full
      rw [HasRoom, scalarsWith] at room
      rw [holds.separator, quoteLiteral_eq]
      have fewer : before.length < maxQueryTerms := by omega
      cases before with
      | nil =>
          simp only [List.length_nil, if_true] at fewer room ⊢
          omega
      | cons first rest =>
          simp only [List.length_cons, Nat.add_one_ne_zero, reduceCtorEq, if_false] at fewer room ⊢
          omega
    rw [if_neg full, if_pos long]
    refine ⟨holds.skip rfl rfl rfl rfl ?_, rfl, rfl⟩
    dsimp only
    omega

/-- A new term that the query has room for is rendered behind the others. -/
theorem Rendering.Holds.emit (new : term.normalized ∉ rendering.seen)
    (room : HasRoom before.length rendering.diagnostics.queryScalars term)
    : (rendering.take term).Holds analyzed (taken + 1) (before ++ [term])
      ∧ (rendering.take term).seen = term.normalized :: rendering.seen
      ∧ (rendering.take term).diagnostics.queryScalars
        = scalarsWith before.length rendering.diagnostics.queryScalars term := by
  obtain ⟨fewer, fits⟩ := room
  have added : rendering.separator.length + (quoteLiteral term.source).length
      = (if before.length = 0 then 0 else disjunction.length) + (quoted term.source).length := by
    rw [holds.separator, quoteLiteral_eq]
    cases before <;> rfl
  have open' : rendering.diagnostics.emittedTerms ≠ maxQueryTerms := by
    rw [holds.count]
    exact fewer.ne
  rw [Rendering.take, if_neg new, if_neg open']
  rw [scalarsWith, ← added] at fits ⊢
  rw [if_neg (Nat.not_lt.mpr fits)]
  refine ⟨⟨?_, ?_, fits, ?_, ?_, holds.analyzed, ?_⟩, rfl, rfl⟩
  · rw [joined_append, ← holds.text, ← holds.separator, List.append_assoc]
    rfl
  · have before := holds.scalars
    simp only [List.length_append]
    omega
  · simp [holds.count]
  · have less := holds.count
    dsimp only
    omega
  · have before := holds.counted
    dsimp only
    omega

/-- Taking terms renders those that the query has room for, by induction on the terms. -/
theorem Rendering.Holds.run (terms : List Term)
    : (terms.foldl Rendering.take rendering).Holds analyzed (taken + terms.length)
        (before
          ++ emitted rendering.seen before.length rendering.diagnostics.queryScalars terms) := by
  induction terms generalizing rendering taken before with
  | nil => simpa [emitted] using holds
  | cons term rest ih =>
      have longer : taken + (term :: rest).length = taken + 1 + rest.length := by
        rw [List.length_cons]
        omega
      rw [List.foldl_cons, emitted, longer]
      by_cases seen : term.normalized ∈ rendering.seen
      · obtain ⟨next, sameSeen, sameScalars⟩ := holds.duplicate seen
        rw [if_pos seen, ← sameSeen, ← sameScalars]
        exact ih next
      · rw [if_neg seen]
        by_cases room : HasRoom before.length rendering.diagnostics.queryScalars term
        · obtain ⟨next, moreSeen, moreScalars⟩ := holds.emit seen room
          have ran := ih next
          rw [moreSeen, moreScalars, List.length_append, List.length_singleton,
            List.append_assoc, List.singleton_append] at ran
          rw [if_pos room]
          exact ran
        · obtain ⟨next, moreSeen, sameScalars⟩ := holds.omitted seen room
          rw [if_neg room, ← moreSeen, ← sameScalars]
          exact ih next

end

-- The compiled query

/-- The check of a text accepts what can be read as literals, by the cases of the check. -/
theorem isLiteralDisjunction_eq (query : List Char)
    : isLiteralDisjunction query = (decode query).isSome := by
  induction query using isLiteralDisjunction.induct with
  | case1 => simp [isLiteralDisjunction, decode, readJoined]
  | case2 body unread =>
      rw [isLiteralDisjunction, decode, readJoined]
      grind
  | case3 body text read =>
      rw [isLiteralDisjunction, decode, readJoined]
      grind
  | case4 body text after read more separated ih =>
      have recognised : isLiteralDisjunction ('"' :: body) = isLiteralDisjunction (after.drop 4) := by
        rw [isLiteralDisjunction]
        grind
      have decoded : decode ('"' :: body) = (decode (after.drop 4)).map (text :: ·) := by
        have separates : after.take disjunction.length = disjunction := separated
        have four : disjunction.length = 4 := by decide
        rw [decode, readJoined]
        grind [decode]
      rw [recognised, decoded, ih, Option.isSome_map]
  | case5 body text after read more apart =>
      have separates : after.take disjunction.length ≠ disjunction := apart
      rw [isLiteralDisjunction, decode, readJoined]
      grind
  | case6 first body other => simp [isLiteralDisjunction, decode, readJoined, other]

/-- The sources of an input's terms. -/
def Engine.sources (engine : Engine) (input : QueryInput) : List (List Term) :=
  [input.latestRequest, input.activeTask, input.recentErrors].map engine.terms

theorem of_compileQuery {engine : Engine} {input : QueryInput} {compilation : QueryCompilation}
    (compiled : compileQuery engine checkpoints input = .ok compilation)
    : ∃ rendering : Rendering,
        rendering.Holds ((engine.sources input).map List.length).sum
            ((engine.sources input).map List.length).sum
            (emitted [] 0 0 (interleaved (engine.sources input)))
        ∧ compilation.diagnostics = rendering.diagnostics
        ∧ compilation.query
          = if rendering.rendered = [] then none else some rendering.rendered := by
  obtain ⟨_, _, compiled⟩ := bind_eq_ok.mp compiled
  obtain ⟨rendering, ran, compiled⟩ := bind_eq_ok.mp compiled
  obtain ⟨_, _, compiled⟩ := bind_eq_ok.mp compiled
  have taken := takeRounds_eq ran
  refine ⟨rendering, ?_, ?_⟩
  · have start : Rendering.Holds
        { diagnostics :=
            { inputTruncated :=
                [input.latestRequest, input.activeTask, input.recentErrors].map fun source =>
                  (boundedSource engine.isAlphanumeric source).2
              analyzedTokens := ((engine.sources input).map List.length).sum } }
        ((engine.sources input).map List.length).sum 0 [] :=
      ⟨rfl, rfl, Nat.zero_le _, rfl, Nat.zero_le _, rfl, rfl⟩
    have finished := start.run (interleaved (engine.sources input))
    have all : (interleaved (engine.sources input)).length
        = ((engine.sources input).map List.length).sum := by
      rw [(interleaved_perm _).length_eq, List.length_flatten]
    rw [Nat.zero_add, all] at finished
    rw [taken]
    exact finished
  · by_cases empty : rendering.rendered = []
    · rw [if_pos (by simpa using empty)] at compiled
      obtain ⟨_, _, same⟩ := bind_eq_ok.mp compiled
      cases same
      exact ⟨rfl, (if_pos empty).symm⟩
    · rw [if_neg (by simpa using empty)] at compiled
      obtain ⟨_, _, compiled⟩ := bind_eq_ok.mp compiled
      obtain ⟨_, _, compiled⟩ := bind_eq_ok.mp compiled
      cases compiled
      exact ⟨rfl, (if_neg empty).symm⟩

/-- A compiled query has at most 4096 characters and 128 literals, is recognised as a disjunction
of literals, and is read back as exactly the texts of the terms that were emitted, in their
order. Every analyzed token was emitted, a duplicate or omitted. -/
theorem compileQuery_literal (engine : Engine) (checkpoints : Nat → Bool) (input : QueryInput)
    (compilation : QueryCompilation)
    (compiled : compileQuery engine checkpoints input = .ok compilation)
    : let terms := emitted [] 0 0 (interleaved (engine.sources input))
      (compilation.query = none ↔ terms = [])
      ∧ (∀ query, compilation.query = some query
          → query.length ≤ 4096 ∧ isLiteralDisjunction query = true
            ∧ decode query = some (terms.map (·.source)))
      ∧ compilation.diagnostics.emittedTerms = terms.length
      ∧ terms.length ≤ 128
      ∧ compilation.diagnostics.analyzedTokens = ((engine.sources input).map List.length).sum
      ∧ compilation.diagnostics.analyzedTokens
        = compilation.diagnostics.emittedTerms + compilation.diagnostics.duplicateTerms
          + compilation.diagnostics.omittedTerms := by
  intro terms
  obtain ⟨rendering, holds, diagnostics, query⟩ := of_compileQuery compiled
  have empty : rendering.rendered = [] ↔ terms = [] := by
    rw [holds.text]
    constructor
    · intro none
      by_contra some
      exact joined_ne_nil disjunction (by simpa using some) none
    · intro none
      change joined disjunction (terms.map (·.source)) = []
      rw [none]
      rfl
  have few : terms.length ≤ maxQueryTerms := holds.count ▸ holds.few
  rw [diagnostics]
  refine ⟨?_, ?_, holds.count, few, holds.analyzed, holds.analyzed.trans holds.counted.symm⟩
  · rw [query, ← empty]
    simp
  · intro text found
    rw [query] at found
    split at found
    · cases found
    · rename_i nonempty
      cases found
      have some : terms.map (·.source) ≠ [] := by
        simpa using mt empty.mpr nonempty
      have decoded : decode rendering.rendered = .some (terms.map (·.source)) := by
        rw [holds.text]
        exact readJoined_joined (by decide) some
      exact ⟨holds.scalars ▸ holds.bounded, by rw [isLiteralDisjunction_eq, decoded]; rfl, decoded⟩

def wordEngine : Engine where
  analyze text :=
    if text = "Say \"hi\"".toList then [⟨"say".toList, 0, 3⟩, ⟨"hi".toList, 5, 7⟩]
    else if text = "HI".toList then [⟨"hi".toList, 0, 2⟩]
    else []
  parse := some fun _ =>
    { wasTruncated := false
      diagnostics := 0
      query :=
        .boolean
          ((["say", "hi"].map fun word =>
            (.should, .boolean
              [(.should, .term [(1, 1)] word.toList), (.should, .term [(2, 2)] word.toList)]
              none)))
          (some .or) }
  isAlphanumeric := Char.isAlphanum

/-- A request and a task that share a word: the query has the word once, as the task spells it. -/
theorem compileQuery_literal_shared
    : ∃ compilation,
        compileQuery wordEngine (fun _ => true) ⟨"Say \"hi\"".toList, "HI".toList, []⟩
            = .ok compilation
        ∧ compilation.query = some "\"Say\" OR \"HI\"".toList
        ∧ compilation.diagnostics.analyzedTokens = 3
        ∧ compilation.diagnostics.analyzedTokens
          = compilation.diagnostics.emittedTerms + compilation.diagnostics.duplicateTerms
            + compilation.diagnostics.omittedTerms := by
  have compiled
      : compileQuery wordEngine (fun _ => true) ⟨"Say \"hi\"".toList, "HI".toList, []⟩
        = .ok
            { query := some "\"Say\" OR \"HI\"".toList
              diagnostics :=
                { inputTruncated := [false, false, false]
                  analyzedTokens := 3
                  duplicateTerms := 1
                  emittedTerms := 2
                  queryScalars := 13 } } := by
    decide +kernel
  exact ⟨_, compiled, rfl, rfl,
    (compileQuery_literal wordEngine (fun _ => true) _ _ compiled).2.2.2.2.2⟩

end SkillRanker.Roster.Retrieval
