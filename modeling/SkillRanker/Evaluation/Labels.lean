import Mathlib.Data.Finset.Basic
import Mathlib.Data.List.MinMax
import Mathlib.Data.Rat.Defs
import Mathlib.Data.String.Basic
import SkillRanker.Evaluation.Sampling
import SkillRanker.Identity
import SkillRanker.Library.Entries

/-! The cases of an evaluation: their keys and splits, what is recorded of them, and one
representative for each family.
-/

namespace SkillRanker.Evaluation
open SkillRanker.Library

section

variable {caseId : String}

inductive EvaluationSplit
  | train
  | validation
  | holdout
  | adversarial
deriving DecidableEq, Repr

def EvaluationSplit.asStr : EvaluationSplit → String
  | train => "train"
  | validation => "validation"
  | holdout => "holdout"
  | adversarial => "adversarial"

structure CaseKey where
  frameId : String
  familyId : String
  caseId : String
  replicate : Nat
  policyId : String
deriving DecidableEq, Repr

structure EvaluationCaseRecord where
  schemaVersion : Nat
  key : CaseKey
  split : EvaluationSplit
  promptSummary : Option String
  rosterSkills : List String
  decision : String
  suggestedSkills : List String
  fits : List (String × ℚ)
  gateScore : Option ℚ
  relevanceAbstention : Bool
  operationalFailure : Bool
deriving DecidableEq

inductive ManifestFailure
  | schemaVersion
  | estimandWeighting
  | unprovenRandomness
  | algorithmVersion (version : String)
  | manifestId (expected found : String)
  | emptyFrame
  | familyCount (declared actual : Nat)
  | sampledCount (declared actual : Nat)
  | strataCount (declared actual : Nat)
  | stratumIdentity
  | absentStratum (stratumKey : String)
  | populationSize (stratumKey : String) (declared actual : Nat)
  | emptySample
  | oversizedSample (stratumKey : String) (declared population : Nat)
  | weight
  | diagnosticProbability (stratumKey : String)
  | missingProbability (stratumKey : String)
  | probabilityMismatch (stratumKey : String) (declared expected : ℚ)
  | sampleOrder
  | duplicateFamily (familyId : String)
  | absentFamily (familyId : String)
  | caseKey (declared actual : CaseKey)
  | caseStratum (key : CaseKey) (declared classified : String)
  | unknownStratum (stratumKey : String)
  | diagnosticEntry (key : CaseKey)
  | missingEntryProbability (key : CaseKey)
  | entryProbabilityMismatch (key : CaseKey) (declared : ℚ) (stratum : Option ℚ)
  | stratumCount (stratumKey : String) (expected actual : Nat)
  | censusCount (sampled frame : Nat)
  | censusProvenance
  | lostCase (key : CaseKey)
deriving DecidableEq

inductive EvaluationError
  | invalidField (message : String)
  | cardinalityViolation (message : String)
  | splitContamination (message : String)
  | samplingFailure (message : String)
  | choiceFailure (error : SamplingError)
  | insufficientSampleBudgetForStrata (budget requiredFloor : Nat)
  | invalidStratumAllocation (message : String)
  | frameDigestMismatch (expected actual : String)
  | manifestVerificationFailure (failure : ManifestFailure)
deriving DecidableEq

end

-- Judged labels: of the labels of a case the one of the highest revision stands

-- Labels

structure JudgedLabel where
  schemaVersion : Nat
  caseId : String
  revision : Nat
  acceptableSkills : Finset String
  explicitDirective : Option String
  noSkillNeeded : Bool
  constraints : List String
  adjudicator : String
  createdAtUnixMs : Nat
  notes : Option String
deriving DecidableEq

def CaseKey.isNull (key : CaseKey) : Bool :=
  isBlank key.frameId || isBlank key.familyId || isBlank key.caseId

def EvaluationSplit.debugName : EvaluationSplit → String
  | train => "Train"
  | validation => "Validation"
  | holdout => "Holdout"
  | adversarial => "Adversarial"

def verifySplitIsolation (cases : List EvaluationCaseRecord) : Except EvaluationError Unit := do
  let _ ← cases.foldlM
    (fun (familyToSplit : List (String × EvaluationSplit)) case =>
      if case.key.isNull then return familyToSplit
      else
        match familyToSplit.lookup case.key.familyId with
        | some existing => do
            ensure (existing = case.split) (.splitContamination
              ("task family '" ++ case.key.familyId ++ "' spans both " ++ existing.debugName
                ++ " and " ++ case.split.debugName))
            return familyToSplit
        | none => return insertEntry case.key.familyId case.split familyToSplit)
    []

abbrev Revisions := List (String × List (Nat × JudgedLabel))

def recordRevision (revisionsByCase : Revisions) (label : JudgedLabel)
    : Except EvaluationError Revisions := do
  ensure (isBlank label.caseId = false) (.invalidField "label case_id cannot be empty")
  let caseMap := (revisionsByCase.lookup label.caseId).getD []
  match caseMap.lookup label.revision with
  | some existing => do
      ensure (existing = label) (.cardinalityViolation
        ("conflicting labels for case '" ++ label.caseId ++ "' at revision "
          ++ toString label.revision))
      return revisionsByCase
  | none =>
      return insertEntry label.caseId (insertEntry label.revision label caseMap) revisionsByCase

def resolveLabelRevisions (labels : List JudgedLabel)
    : Except EvaluationError (List (String × JudgedLabel)) := do
  let revisionsByCase ← labels.foldlM recordRevision []
  return revisionsByCase.filterMap fun (caseId, revisions) =>
    revisions.getLast?.map fun (_, highest) => (caseId, highest)

-- The latest label

/-- A label is the one of the highest revision among the labels of a case. -/
structure IsLatest (labels : List JudgedLabel) (caseId : String) (label : JudgedLabel) : Prop where
  listed : label ∈ labels
  ofCase : label.caseId = caseId
  highest : ∀ other ∈ labels, other.caseId = caseId → other.revision ≤ label.revision

/-- No label lacks its case, and no two labels of a case differ at one revision. -/
structure Consistent (labels : List JudgedLabel) : Prop where
  named : ∀ label ∈ labels, isBlank label.caseId = false
  agree : ∀ left ∈ labels, ∀ right ∈ labels, left.caseId = right.caseId
    → left.revision = right.revision → left = right

variable {labels permuted : List JudgedLabel}

theorem Consistent.perm (consistent : Consistent labels) (perm : permuted.Perm labels)
    : Consistent permuted where
  named label mem := consistent.named label (perm.mem_iff.mp mem)
  agree left leftMem right rightMem :=
    consistent.agree left (perm.mem_iff.mp leftMem) right (perm.mem_iff.mp rightMem)

variable {label : JudgedLabel}

theorem IsLatest.perm (latest : IsLatest labels caseId label) (perm : permuted.Perm labels)
    : IsLatest permuted caseId label where
  listed := perm.mem_iff.mpr latest.listed
  ofCase := latest.ofCase
  highest other mem := latest.highest other (perm.mem_iff.mp mem)

def latestLabel (labels : List JudgedLabel) (caseId : String) : Option JudgedLabel :=
  (labels.filter (·.caseId = caseId)).argmax JudgedLabel.revision

/-- There is no latest label exactly where the case has none. -/
theorem latestLabel_eq_none
    : latestLabel labels caseId = none ↔ ∀ label ∈ labels, label.caseId ≠ caseId := by
  unfold latestLabel
  rw [List.argmax_eq_none, List.filter_eq_nil_iff]
  simp

theorem latestLabel_eq_some (consistent : Consistent labels)
    : latestLabel labels caseId = some label ↔ IsLatest labels caseId label := by
  have ofCase {other : JudgedLabel}
      : other ∈ labels.filter (·.caseId = caseId) ↔ other ∈ labels ∧ other.caseId = caseId := by
    rw [List.mem_filter, decide_eq_true_iff]
  unfold latestLabel
  rw [← Option.mem_def, List.mem_argmax_iff]
  refine ⟨fun ⟨mem, highest, _⟩ => ?_, fun latest => ?_⟩
  · exact {
      listed := (ofCase.mp mem).1
      ofCase := (ofCase.mp mem).2
      highest := fun other listed own => highest other (ofCase.mpr ⟨listed, own⟩) }
  · refine ⟨ofCase.mpr ⟨latest.listed, latest.ofCase⟩, fun other mem => ?_, fun other mem above => ?_⟩
    · exact latest.highest other (ofCase.mp mem).1 (ofCase.mp mem).2
    · obtain ⟨listed, own⟩ := ofCase.mp mem
      have same : label = other := consistent.agree label latest.listed other listed
        (latest.ofCase.trans own.symm) (Nat.le_antisymm above (latest.highest other listed own))
      rw [same]

theorem latestLabel_perm (consistent : Consistent labels) (perm : permuted.Perm labels)
    (caseId : String)
    : latestLabel permuted caseId = latestLabel labels caseId := by
  refine Option.ext fun label => ?_
  rw [latestLabel_eq_some consistent, latestLabel_eq_some (consistent.perm perm)]
  exact ⟨fun latest => latest.perm perm.symm, fun latest => latest.perm perm⟩

-- Resolution

/-- The revisions hold the labels seen so far. -/
structure Recorded (seen : List JudgedLabel) (revisionsByCase : Revisions) : Prop where
  ordered : Ordered revisionsByCase
  revisions
    : ∀ caseId revisions, revisionsByCase.lookup caseId = some revisions
      → Ordered revisions ∧ revisions ≠ []
  holds
    : ∀ caseId revision label,
      ((revisionsByCase.lookup caseId).getD []).lookup revision = some label
      ↔ label ∈ seen ∧ label.caseId = caseId ∧ label.revision = revision

theorem Recorded.start : Recorded [] [] where
  ordered := .nil
  revisions := nofun
  holds _ _ _ := ⟨nofun, nofun⟩

variable {revisionsByCase : Revisions} {seen : List JudgedLabel}

section

variable (recorded : Recorded seen revisionsByCase)
include recorded

/-- The labels recorded under one case and revision are one label. -/
theorem Recorded.agree {left right : JudgedLabel} (leftSeen : left ∈ seen)
    (rightSeen : right ∈ seen) (sameCase : left.caseId = right.caseId)
    (sameRevision : left.revision = right.revision)
    : left = right := by
  have leftHeld := (recorded.holds right.caseId right.revision left).mpr
    ⟨leftSeen, sameCase, sameRevision⟩
  have rightHeld := (recorded.holds right.caseId right.revision right).mpr ⟨rightSeen, rfl, rfl⟩
  rw [leftHeld] at rightHeld
  exact Option.some.inj rightHeld

/-- The revisions of a case are in order, also where it has none yet. -/
theorem Recorded.caseMap_ordered (caseId : String)
    : Ordered ((revisionsByCase.lookup caseId).getD []) := by
  cases found : revisionsByCase.lookup caseId with
  | none => exact .nil
  | some revisions => exact (recorded.revisions caseId revisions found).1

theorem Recorded.insert
    (new : ((revisionsByCase.lookup label.caseId).getD []).lookup label.revision = none)
    : Recorded (seen ++ [label])
        (insertEntry label.caseId
          (insertEntry label.revision label ((revisionsByCase.lookup label.caseId).getD []))
          revisionsByCase) where
  ordered := recorded.ordered.insertEntry _ _
  revisions caseId revisions found := by
    by_cases own : caseId = label.caseId
    · rw [own, lookup_insertEntry_self] at found
      rw [← Option.some.inj found]
      refine ⟨(recorded.caseMap_ordered _).insertEntry _ _, fun none => ?_⟩
      have held := lookup_insertEntry_self label.revision label
        ((revisionsByCase.lookup label.caseId).getD [])
      rw [none] at held
      cases held
    · rw [lookup_insertEntry_of_ne own] at found
      exact recorded.revisions caseId revisions found
  holds caseId revision other := by
    rw [List.mem_append, List.mem_singleton]
    by_cases own : caseId = label.caseId
    · rw [own, lookup_insertEntry_self, Option.getD_some]
      by_cases same : revision = label.revision
      · rw [same, lookup_insertEntry_self, Option.some.injEq]
        refine ⟨fun is => ⟨.inr is.symm, is ▸ rfl, is ▸ rfl⟩, fun ⟨there, ofCase, atRevision⟩ => ?_⟩
        rcases there with before | is
        · rw [(recorded.holds _ _ other).mpr ⟨before, ofCase, atRevision⟩] at new
          cases new
        · exact is.symm
      · rw [lookup_insertEntry_of_ne same, recorded.holds]
        refine and_congr_left fun ⟨_, atRevision⟩ => ⟨.inl, fun there => there.resolve_right ?_⟩
        intro is
        exact same (atRevision.symm.trans (is ▸ rfl))
    · rw [lookup_insertEntry_of_ne own, recorded.holds]
      refine and_congr_left fun ⟨ofCase, _⟩ => ⟨.inl, fun there => there.resolve_right ?_⟩
      intro is
      exact own (ofCase.symm.trans (is ▸ rfl))

/-- A label that is recorded already changes nothing. -/
theorem Recorded.again (known : label ∈ seen)
    : Recorded (seen ++ [label]) revisionsByCase where
  ordered := recorded.ordered
  revisions := recorded.revisions
  holds caseId revision other := by
    rw [recorded.holds, List.mem_append, List.mem_singleton]
    refine and_congr_left fun _ => ⟨.inl, fun there => there.elim id ?_⟩
    rintro rfl
    exact known

/-- A label that is taken names its case, and is recorded. -/
theorem Recorded.step {after : Revisions} (taken : recordRevision revisionsByCase label = .ok after)
    : isBlank label.caseId = false ∧ Recorded (seen ++ [label]) after := by
  unfold recordRevision at taken
  obtain ⟨_, named, rest⟩ := bind_eq_ok.mp taken
  refine ⟨ensure_eq_ok.mp named, ?_⟩
  dsimp only at rest
  split at rest
  · next existing found =>
    obtain ⟨_, same, done⟩ := bind_eq_ok.mp rest
    have is : existing = label := ensure_eq_ok.mp same
    rw [← pure_eq_ok.mp done]
    exact recorded.again (is ▸ ((recorded.holds _ _ existing).mp found).1)
  · next new =>
    rw [← pure_eq_ok.mp rest]
    exact recorded.insert new

/-- A label that names its case is taken if it agrees with the labels seen. -/
theorem Recorded.taken (named : isBlank label.caseId = false)
    (agrees
      : ∀ other ∈ seen, other.caseId = label.caseId → other.revision = label.revision
          → other = label)
    : ∃ after, recordRevision revisionsByCase label = .ok after := by
  unfold recordRevision
  rw [ensure_bind named]
  dsimp only
  split
  · next existing found =>
    obtain ⟨before, ofCase, atRevision⟩ := (recorded.holds _ _ existing).mp found
    exact ⟨revisionsByCase, ensure_bind (agrees existing before ofCase atRevision)⟩
  · exact ⟨_, rfl⟩

end

/-- The labels are taken exactly if they are consistent with each other and with those seen, by
induction on the labels.
-/
theorem foldlM_recordRevision (labels : List JudgedLabel) (recorded : Recorded seen revisionsByCase)
    (named : ∀ label ∈ seen, isBlank label.caseId = false)
    : ((∃ after, labels.foldlM recordRevision revisionsByCase = .ok after)
        ↔ Consistent (seen ++ labels))
      ∧ ∀ after, labels.foldlM recordRevision revisionsByCase = .ok after
        → Recorded (seen ++ labels) after := by
  induction labels generalizing seen revisionsByCase with
  | nil =>
      rw [List.append_nil, List.foldlM_nil]
      refine ⟨⟨fun _ => ⟨named, ?_⟩, fun _ => ⟨_, rfl⟩⟩, ?_⟩
      · intro left leftSeen right rightSeen
        exact recorded.agree leftSeen rightSeen
      · intro after done
        exact pure_eq_ok.mp done ▸ recorded
  | cons label rest ih =>
      rw [List.foldlM_cons]
      have whole : seen ++ label :: rest = seen ++ [label] ++ rest := by simp
      cases taken : recordRevision revisionsByCase label with
      | ok next =>
          obtain ⟨own, nextRecorded⟩ := recorded.step taken
          rw [ok_bind, whole]
          refine ih nextRecorded fun other mem => ?_
          rcases List.mem_append.mp mem with before | is
          · exact named other before
          · exact List.mem_singleton.mp is ▸ own
      | error refused =>
          refine ⟨⟨fun ⟨_, ran⟩ => (nomatch ran), fun consistent => ?_⟩, fun _ ran => (nomatch ran)⟩
          have listed : label ∈ seen ++ label :: rest := by simp
          obtain ⟨next, ran⟩ := recorded.taken (consistent.named label listed)
            fun other before => consistent.agree other (List.mem_append_left _ before) label listed
          rw [ran] at taken
          cases taken

theorem getLast?_highest {revisions : List (Nat × JudgedLabel)} (ordered : Ordered revisions)
    {last : Nat × JudgedLabel} (isLast : revisions.getLast? = some last)
    : revisions.lookup last.1 = some last.2
      ∧ ∀ revision label, revisions.lookup revision = some label → revision ≤ last.1 := by
  obtain ⟨before, rfl⟩ := List.getLast?_eq_some_iff.mp isLast
  refine ⟨ordered.lookup_eq_some_iff.mpr (by simp), fun revision label held => ?_⟩
  rcases List.mem_append.mp (ordered.lookup_eq_some_iff.mp held) with earlier | is
  · exact le_of_lt ((List.pairwise_append.mp ordered).2.2 _ earlier last (by simp))
  · exact le_of_eq (congrArg Prod.fst (List.mem_singleton.mp is))

def highestLabels (revisionsByCase : Revisions) : List (String × JudgedLabel) :=
  revisionsByCase.filterMap fun (caseId, revisions) =>
    revisions.getLast?.map fun (_, highest) => (caseId, highest)

theorem mem_highestLabels
    : (caseId, label) ∈ highestLabels revisionsByCase
      ↔ ∃ revisions, (caseId, revisions) ∈ revisionsByCase
          ∧ ∃ revision, revisions.getLast? = some (revision, label) := by
  unfold highestLabels
  rw [List.mem_filterMap]
  refine ⟨?_, ?_⟩
  · rintro ⟨⟨key, revisions⟩, mem, is⟩
    obtain ⟨⟨revision, highest⟩, isLast, same⟩ := Option.map_eq_some_iff.mp is
    obtain ⟨rfl, rfl⟩ := Prod.mk.inj same
    exact ⟨revisions, mem, revision, isLast⟩
  · rintro ⟨revisions, mem, revision, isLast⟩
    exact ⟨(caseId, revisions), mem, Option.map_eq_some_iff.mpr ⟨(revision, label), isLast, rfl⟩⟩

theorem highestLabels_ordered (ordered : Ordered revisionsByCase)
    : Ordered (highestLabels revisionsByCase) := by
  refine List.pairwise_filterMap.mpr (List.Pairwise.imp ?_ ordered)
  rintro ⟨left, leftRevisions⟩ ⟨right, rightRevisions⟩ below first isFirst second isSecond
  obtain ⟨_, _, rfl⟩ := Option.map_eq_some_iff.mp isFirst
  obtain ⟨_, _, rfl⟩ := Option.map_eq_some_iff.mp isSecond
  exact below

theorem Recorded.highestLabels_lookup (recorded : Recorded labels revisionsByCase)
    : (highestLabels revisionsByCase).lookup caseId = some label
      ↔ IsLatest labels caseId label := by
  rw [(highestLabels_ordered recorded.ordered).lookup_eq_some_iff, mem_highestLabels]
  refine ⟨?_, fun latest => ?_⟩
  · rintro ⟨revisions, mem, revision, isLast⟩
    have found := recorded.ordered.lookup_eq_some_iff.mpr mem
    obtain ⟨held, highest⟩ := getLast?_highest (recorded.revisions caseId revisions found).1 isLast
    have holds := recorded.holds caseId
    rw [found, Option.getD_some] at holds
    obtain ⟨listed, ofCase, atRevision⟩ := (holds revision label).mp held
    refine ⟨listed, ofCase, fun other otherListed own => ?_⟩
    rw [atRevision]
    exact highest other.revision other ((holds _ other).mpr ⟨otherListed, own, rfl⟩)
  · have held := (recorded.holds caseId label.revision label).mpr
      ⟨latest.listed, latest.ofCase, rfl⟩
    have holds := recorded.holds caseId
    cases found : revisionsByCase.lookup caseId with
    | none =>
        rw [found] at held
        cases held
    | some revisions =>
        rw [found, Option.getD_some] at held holds
        obtain ⟨ordered, nonempty⟩ := recorded.revisions caseId revisions found
        obtain ⟨⟨revision, last⟩, isLast⟩ :=
          Option.isSome_iff_exists.mp (List.getLast?_isSome.mpr nonempty)
        obtain ⟨lastHeld, highest⟩ := getLast?_highest ordered isLast
        obtain ⟨lastListed, lastOfCase, atRevision⟩ := (holds revision last).mp lastHeld
        have same : last = label := by
          refine recorded.agree lastListed latest.listed (lastOfCase.trans latest.ofCase.symm) ?_
          refine Nat.le_antisymm (latest.highest last lastListed lastOfCase) ?_
          rw [atRevision]
          exact highest label.revision label held
        exact ⟨revisions, recorded.ordered.lookup_eq_some_iff.mp found, revision, same ▸ isLast⟩

variable {resolved : List (String × JudgedLabel)}

/-- Resolution succeeds exactly on consistent labels, and gives the latest label of every case. -/
theorem resolveLabelRevisions_eq_ok
    : resolveLabelRevisions labels = .ok resolved
      ↔ Consistent labels ∧ Ordered resolved
        ∧ ∀ caseId, resolved.lookup caseId = latestLabel labels caseId := by
  obtain ⟨succeeds, records⟩ := foldlM_recordRevision labels Recorded.start nofun
  rw [List.nil_append] at succeeds records
  have resolves {after : Revisions} (ran : labels.foldlM recordRevision [] = .ok after)
      : Ordered (highestLabels after)
        ∧ ∀ caseId, (highestLabels after).lookup caseId = latestLabel labels caseId := by
    refine ⟨highestLabels_ordered (records after ran).ordered, fun caseId => ?_⟩
    refine Option.ext fun label => ?_
    rw [latestLabel_eq_some (succeeds.mp ⟨after, ran⟩)]
    exact (records after ran).highestLabels_lookup
  have same : resolveLabelRevisions labels
      = labels.foldlM recordRevision [] >>= fun after => pure (highestLabels after) := rfl
  rw [same, bind_eq_ok]
  refine ⟨?_, fun ⟨consistent, ordered, lookups⟩ => ?_⟩
  · rintro ⟨after, ran, done⟩
    rw [← pure_eq_ok.mp done]
    exact ⟨succeeds.mp ⟨after, ran⟩, resolves ran⟩
  · obtain ⟨after, ran⟩ := succeeds.mpr consistent
    obtain ⟨afterOrdered, afterLookups⟩ := resolves ran
    refine ⟨after, ran, pure_eq_ok.mpr (afterOrdered.ext ordered ?_)⟩
    rintro ⟨caseId, label⟩
    rw [← afterOrdered.lookup_eq_some_iff, ← ordered.lookup_eq_some_iff, afterLookups, lookups]

theorem resolveLabelRevisions_perm (ran : resolveLabelRevisions labels = .ok resolved)
    (perm : permuted.Perm labels)
    : resolveLabelRevisions permuted = .ok resolved := by
  obtain ⟨consistent, ordered, lookups⟩ := resolveLabelRevisions_eq_ok.mp ran
  refine resolveLabelRevisions_eq_ok.mpr ⟨consistent.perm perm, ordered, fun caseId => ?_⟩
  rw [lookups, latestLabel_perm consistent perm]

end SkillRanker.Evaluation
