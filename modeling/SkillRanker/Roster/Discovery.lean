import SkillRanker.Roster.Preparation

/-! The resolution of a discovery plan, by reads in turn or by batches of reads. Names that a
truncated discovery may hide are withheld before their entries are resolved.
-/

namespace SkillRanker.Roster

open SkillRanker.Library
open Std

/-- The names that a proof leaves without authority; those in `limited` were not probed. -/
structure NameProof where
  withheld : TreeSet String compare
  limited : TreeSet String compare

/-- A proof of names in progress, with the checkpoints it passed and the slots it probed. -/
structure Proving where
  step : Nat
  probes : Nat
  proof : NameProof

def Proving.empty : Proving :=
  { step := 0, probes := 0, proof := { withheld := ∅, limited := ∅ } }

def Proving.withhold (proving : Proving) (name : String) : Proving :=
  { proving with proof.withheld := proving.proof.withheld.insert name }

def Proving.limit (proving : Proving) (name : String) : Proving :=
  { proving.withhold name with proof.limited := proving.proof.limited.insert name }

def separator : UInt8 := 47

/-- `Path::join`. -/
def pathJoin (base child : Path) : Path :=
  if child.head? = some separator then child
  else if base.getLast?.any (fun last => last ≠ separator) then base ++ separator :: child
  else base ++ child

def slotPath (root : Path) (name : String) : Path :=
  pathJoin root (pathJoin (utf8 name) (utf8 claudeSkillFile))

section Proofs

variable (host : Host) (clock : Jev.InvocationDeadline) (checks : Site → Checkpoint)

def Proving.checkpoint (proving : Proving) : Except ResolutionError Proving := do
  budget clock (checks (.proving proving.step))
  return { proving with step := proving.step + 1 }

/-- Probes the slot of a name in each root that supports names, until one fails. -/
def proveName (snapshots : TreeMap SkillId FileIdentity compare) (name : String)
    : Proving → List PlannedRoot → Except ResolutionError Proving
  | proving, [] => .ok proving
  | proving, planned :: rest => do
      let proving ← proving.checkpoint clock checks
      if ¬ (planned.kind = .project ∨ planned.kind = .user) then
        proveName snapshots name proving rest
      else if proving.probes ≥ discoveryFiles then return proving.limit name
      else
        let proving := { proving with probes := proving.probes + 1 }
        match planned.root with
        | none => return proving.withhold name
        | some root => do
            let key ← pathLogicalKey host (slotPath root name)
            let expected := snapshots[host.fromSource planned.source key]?
            let proving ← proving.checkpoint clock checks
            if host.slotMatches root name expected then
              proveName snapshots name proving rest
            else return proving.withhold name

def proveAll (snapshots : TreeMap SkillId FileIdentity compare) (roots : List PlannedRoot)
    : Proving → List String → Except ResolutionError Proving
  | proving, [] => .ok proving
  | proving, name :: rest => do
      let proving ← proving.checkpoint clock checks
      let proving ← proveName host clock checks snapshots name proving roots
      proveAll snapshots roots proving rest

def proveNames (roots : List PlannedRoot) (entries : List SkillEntry)
    (withheld : TreeSet String compare)
    : Except ResolutionError NameProof := do
  let proving ← Proving.empty.checkpoint clock checks
  let snapshots : TreeMap SkillId FileIdentity compare :=
    entries.foldl (fun known entry => known.insert entry.binding.id entry.identity) ∅
  let names : TreeSet String compare :=
    TreeSet.ofList
      ((entries.map (fun entry => entry.binding.invocation.text)).filter
        (fun name => !withheld.contains name))
  let proving ← proveAll host clock checks snapshots roots proving names.toList
  let proving ← proving.checkpoint clock checks
  return proving.proof

/-- Candidates whose name was not probed are reported. -/
def noteLimited (limited : TreeSet String compare)
    : Nat → List (Nat × ResolutionError) → List Candidate
      → Except ResolutionError (List (Nat × ResolutionError))
  | _, diagnostics, [] => .ok diagnostics
  | index, diagnostics, candidate :: rest => do
      budget clock (checks (.limited index))
      let noted :=
        if candidate.invocation.any (fun name => limited.contains name.text) then
          diagnostics ++ [(index, .limit)]
        else diagnostics
      noteLimited limited (index + 1) noted rest

/-- A resolved roster with what was reported on the way. -/
structure Resolution where
  roster : ResolvedRoster
  diagnostics : List (Nat × ResolutionError)
  sources : List Diagnostic

def Diagnostic.needsProof : Diagnostic → Bool
  | .rootMissing _ => false
  | .sourceNotEnumerated _ => false
  | _ => true

/-- The diagnostics and the withheld names of a prepared resolution, after the names that its
discovery may hide are proven.
-/
def Prepared.prove (plan : DiscoveryPlan) (prepared : Prepared)
    : Except ResolutionError (List (Nat × ResolutionError) × TreeSet String compare) :=
  if plan.discovery.diagnostics.any Diagnostic.needsProof then do
    let proof ←
      proveNames host clock checks plan.roots prepared.entries prepared.withheldNames
    let diagnostics ←
      if proof.limited.isEmpty then .ok prepared.diagnostics
      else
        noteLimited clock checks proof.limited 0 prepared.diagnostics plan.discovery.candidates
    return (diagnostics, proof.withheld.toList.foldl TreeSet.insert prepared.withheldNames)
  else .ok (prepared.diagnostics, prepared.withheldNames)

/-- `PreparedResolution::finish`. -/
def Prepared.finish (plan : DiscoveryPlan) (prepared : Prepared)
    : Except ResolutionError Resolution := do
  let (diagnostics, withheld) ← prepared.prove host clock checks plan
  let roster ←
    resolve clock (fun step => checks (.resolving step))
      (withhold withheld.toList prepared.entries)
      (plan.discovery.partialCoverage || !diagnostics.isEmpty)
  return { roster := roster, diagnostics := diagnostics, sources := plan.discovery.diagnostics }

def readPlan (plan : DiscoveryPlan) (overrides : TreeMap String InvocationRestrictions compare)
    : Except ResolutionError Prepared := do
  let prepared ← Prepared.new clock checks plan
  consumeAll host clock checks overrides 0 prepared plan.discovery.candidates

def resolveClaudePlan (plan : DiscoveryPlan)
    (overrides : TreeMap String InvocationRestrictions compare)
    : Except ResolutionError Resolution := do
  let prepared ← readPlan host clock checks plan overrides
  prepared.finish host clock checks plan

def readPlanConcurrent (pool : Leaf → Except RuntimeError Unit) (plan : DiscoveryPlan)
    (overrides : TreeMap String InvocationRestrictions compare)
    : Except ResolutionError Prepared := do
  (pool .preparing).mapError blockingError
  let prepared ← Prepared.new clock checks plan
  consumeBatches host clock checks pool overrides 0 prepared plan.discovery.candidates

def resolveClaudePlanConcurrent (pool : Leaf → Except RuntimeError Unit) (plan : DiscoveryPlan)
    (overrides : TreeMap String InvocationRestrictions compare)
    : Except ResolutionError Resolution := do
  let prepared ← readPlanConcurrent host clock checks pool plan overrides
  (pool .finishing).mapError blockingError
  prepared.finish host clock checks plan

end Proofs

end SkillRanker.Roster
