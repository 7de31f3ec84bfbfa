import Std.Data.TreeMap.Basic
import SkillRanker.Recommendation.Ranking

/-! Centered, shrunk Beta(1, 4) usefulness priors and their snapshots. -/

namespace SkillRanker.Learning

open SkillRanker.Library SkillRanker.Recommendation
open Std (TreeMap)

def minPhaseCellJudged : Nat := 20

structure PriorJudgmentRecord where
  eventId : String
  skillId : String
  contentHash : String
  policyVersion : String
  phase : Option String
  useful : Bool
  labelSource : String
  judgedAtUnixMs : Nat
deriving DecidableEq, Repr

/-- The counts of one cell, 64-bit words: no more useful than judged. -/
structure PriorCellCounts where
  useful : Nat
  judged : Nat
  within : useful ≤ judged
  word : judged ≤ u64Max

/-- The key of a pooled cell. -/
structure SkillRevision where
  skillId : String
  contentHash : String
  policyVersion : String
deriving DecidableEq, Ord

structure PhaseRevision where
  skillId : String
  contentHash : String
  policyVersion : String
  phase : String
deriving DecidableEq, Ord

structure PriorSnapshot where
  asOfUnixMs : Nat
  pooled : TreeMap SkillRevision PriorCellCounts compare
  byPhase : TreeMap PhaseRevision PriorCellCounts compare

structure PooledPriorCell where
  skillId : String
  contentHash : String
  policyVersion : String
  useful : Nat
  judged : Nat
  word : judged ≤ u64Max
deriving DecidableEq, Repr

structure PhasePriorCell where
  skillId : String
  contentHash : String
  policyVersion : String
  phase : String
  useful : Nat
  judged : Nat
  word : judged ≤ u64Max
deriving DecidableEq, Repr

structure SerializedPriorSnapshot where
  schemaVersion : Nat
  asOfUnixMs : Nat
  pooled : List PooledPriorCell
  byPhase : List PhasePriorCell
deriving DecidableEq, Repr

-- Cells

section Delta

variable {R : Type} [Field R] [LinearOrder R] (functions : LogExp R)

def betaShrunkPriorDelta (useful judged : Nat) : Except (LearningError R) R := do
  ensure (useful ≤ judged) (.malformedInput "useful count cannot exceed judged count")
  if judged = 0 then
    return 0
  else
    let q : R := (useful + 1) / (judged + 5)
    let shrink : R := judged / (judged + 20)
    let baseline := logOdds functions (2 / 10)
    let centered := clamp (logOdds functions q - baseline) (-1) 1
    return shrink * centered

def PriorCellCounts.delta (counts : PriorCellCounts) : R :=
  match betaShrunkPriorDelta functions counts.useful counts.judged with
  | .ok delta => delta
  | .error _ => 0

end Delta

namespace PriorCellCounts

/-- `PriorCellCounts::default()`. -/
def empty : PriorCellCounts := ⟨0, 0, Nat.le_refl 0, Nat.zero_le _⟩

def record (counts : PriorCellCounts) (useful : Bool) : PriorCellCounts where
  useful := if useful then saturatingAdd counts.useful 1 else counts.useful
  judged := saturatingAdd counts.judged 1
  within := by
    have within := counts.within
    have word := counts.word
    unfold saturatingAdd
    split <;> omega
  word := Nat.min_le_right _ _

def HasUsablePhaseCoverage (counts : PriorCellCounts) : Prop :=
  minPhaseCellJudged ≤ counts.judged ∧ 0 < counts.useful ∧ counts.useful < counts.judged

instance (counts : PriorCellCounts) : Decidable counts.HasUsablePhaseCoverage :=
  inferInstanceAs (Decidable (_ ∧ _ ∧ _))

end PriorCellCounts

-- Snapshots

namespace PriorJudgmentRecord

variable (record : PriorJudgmentRecord)

def revision : SkillRevision :=
  {
    skillId := record.skillId
    contentHash := record.contentHash
    policyVersion := record.policyVersion
  }

def inPhase (phase : String) : PhaseRevision :=
  {
    skillId := record.skillId
    contentHash := record.contentHash
    policyVersion := record.policyVersion
    phase := phase
  }

/-- What tells two judgments of one event apart. -/
def dedupKey : String × String × String :=
  (record.eventId, record.skillId, record.contentHash)

end PriorJudgmentRecord

namespace PriorSnapshot

def new (asOfUnixMs : Nat) : PriorSnapshot := ⟨asOfUnixMs, ∅, ∅⟩

/-- `PriorSnapshot::default()`. -/
def default : PriorSnapshot := new 0

def IsEmpty (snapshot : PriorSnapshot) : Prop :=
  snapshot.pooled.isEmpty ∧ snapshot.byPhase.isEmpty

instance (snapshot : PriorSnapshot) : Decidable snapshot.IsEmpty :=
  inferInstanceAs (Decidable (_ ∧ _))

/-- Counts a judgment in its pooled cell, and in its phase cell where it names a phase. -/
def count (snapshot : PriorSnapshot) (record : PriorJudgmentRecord) : PriorSnapshot :=
  let pooled :=
    snapshot.pooled.alter record.revision fun cell =>
      some ((cell.getD .empty).record record.useful)
  match record.phase with
  | none => { snapshot with pooled := pooled }
  | some phase =>
      if isBlank phase then { snapshot with pooled := pooled }
      else
        { snapshot with
          pooled := pooled
          byPhase :=
            snapshot.byPhase.alter (record.inPhase phase) fun cell =>
              some ((cell.getD .empty).record record.useful)
        }

def countAll {R : Type} (snapshot : PriorSnapshot) (seenEvents : List (String × String × String))
    : List PriorJudgmentRecord → Except (LearningError R) PriorSnapshot
  | [] => .ok snapshot
  | record :: rest => do
      ensure (record.labelSource = "independent_judgment")
        (.malformedInput
          ("priors require independent_judgment provenance, got " ++ record.labelSource))
      ensure
        (isBlank record.skillId = false ∧ isBlank record.contentHash = false
          ∧ isBlank record.policyVersion = false)
        (.malformedInput
          "prior judgment requires non-empty skill_id, content_hash, and policy_version")
      if snapshot.asOfUnixMs < record.judgedAtUnixMs then
        countAll snapshot seenEvents rest
      else if record.dedupKey ∈ seenEvents then
        countAll snapshot seenEvents rest
      else
        countAll (snapshot.count record) (record.dedupKey :: seenEvents) rest

def fromJudgments {R : Type} (records : List PriorJudgmentRecord) (asOfUnixMs : Nat)
    : Except (LearningError R) PriorSnapshot :=
  countAll (new asOfUnixMs) [] records

def toSerialized (snapshot : PriorSnapshot) : SerializedPriorSnapshot :=
  {
    schemaVersion := 1
    asOfUnixMs := snapshot.asOfUnixMs
    pooled :=
      snapshot.pooled.toList.map fun (key, counts) =>
        {
          skillId := key.skillId
          contentHash := key.contentHash
          policyVersion := key.policyVersion
          useful := counts.useful
          judged := counts.judged
          word := counts.word
        }
    byPhase :=
      snapshot.byPhase.toList.map fun (key, counts) =>
        {
          skillId := key.skillId
          contentHash := key.contentHash
          policyVersion := key.policyVersion
          phase := key.phase
          useful := counts.useful
          judged := counts.judged
          word := counts.word
        }
  }

def readCounts {R : Type} (what : String) (useful judged : Nat) (word : judged ≤ u64Max)
    : Except (LearningError R) PriorCellCounts :=
  if within : useful ≤ judged then .ok ⟨useful, judged, within, word⟩
  else .error (.malformedInput (what ++ " useful count exceeds judged count"))

def insertPooled {R : Type} (pooled : TreeMap SkillRevision PriorCellCounts compare)
    (cell : PooledPriorCell)
    : Except (LearningError R) (TreeMap SkillRevision PriorCellCounts compare) := do
  let counts ← readCounts "prior cell" cell.useful cell.judged cell.word
  return pooled.insert ⟨cell.skillId, cell.contentHash, cell.policyVersion⟩ counts

def insertPhase {R : Type} (byPhase : TreeMap PhaseRevision PriorCellCounts compare)
    (cell : PhasePriorCell)
    : Except (LearningError R) (TreeMap PhaseRevision PriorCellCounts compare) := do
  let counts ← readCounts "phase prior cell" cell.useful cell.judged cell.word
  return byPhase.insert ⟨cell.skillId, cell.contentHash, cell.policyVersion, cell.phase⟩ counts

def fromSerialized {R : Type} (raw : SerializedPriorSnapshot)
    : Except (LearningError R) PriorSnapshot := do
  ensure (raw.schemaVersion = 1)
    (.malformedInput
      ("unsupported prior snapshot schema_version " ++ toString raw.schemaVersion))
  let pooled ← raw.pooled.foldlM insertPooled ∅
  let byPhase ← raw.byPhase.foldlM insertPhase ∅
  return { asOfUnixMs := raw.asOfUnixMs, pooled := pooled, byPhase := byPhase }

end PriorSnapshot

/-- The delta of a candidate's cell: the phase cell where it is well covered, and the pooled
cell otherwise. -/
def PriorSnapshot.priorDelta {R : Type} [Field R] [LinearOrder R] (functions : LogExp R)
    (snapshot : PriorSnapshot) (skillId contentHash policyVersion : String)
    (phase : Option String)
    : R :=
  let inPhase :=
    phase.bind fun phaseName =>
      snapshot.byPhase[({ skillId, contentHash, policyVersion, phase := phaseName }
        : PhaseRevision)]?
  let pooled := snapshot.pooled[({ skillId, contentHash, policyVersion } : SkillRevision)]?
  match inPhase.filter fun cell => cell.HasUsablePhaseCoverage with
  | some cell => cell.delta functions
  | none => (pooled.map fun cell => cell.delta functions).getD 0

-- What is saved can be read

theorem PriorSnapshot.fromSerialized_toSerialized {R : Type} (snapshot : PriorSnapshot)
    : ∃ again, fromSerialized (R := R) snapshot.toSerialized = .ok again := by
  have consistent
      : ∀ (what : String) (counts : PriorCellCounts),
          readCounts (R := R) what counts.useful counts.judged counts.word = .ok counts :=
    fun _ counts => dif_pos counts.within
  have pooled
      : ∃ cells, snapshot.toSerialized.pooled.foldlM (insertPooled (R := R)) ∅ = .ok cells := by
    apply foldlM_succeeds
    intro cell mem cells
    obtain ⟨⟨key, counts⟩, _, rfl⟩ := List.mem_map.mp mem
    exact ⟨cells.insert key counts, by rw [insertPooled, consistent]; rfl⟩
  have byPhase
      : ∃ cells, snapshot.toSerialized.byPhase.foldlM (insertPhase (R := R)) ∅ = .ok cells := by
    apply foldlM_succeeds
    intro cell mem cells
    obtain ⟨⟨key, counts⟩, _, rfl⟩ := List.mem_map.mp mem
    exact ⟨cells.insert key counts, by rw [insertPhase, consistent]; rfl⟩
  obtain ⟨cells, read⟩ := pooled
  obtain ⟨phases, readPhases⟩ := byPhase
  have supported : snapshot.toSerialized.schemaVersion = 1 := rfl
  refine ⟨⟨snapshot.asOfUnixMs, cells, phases⟩, ?_⟩
  rw [fromSerialized, ensure_bind supported, read, ok_bind, readPhases]
  rfl

end SkillRanker.Learning
