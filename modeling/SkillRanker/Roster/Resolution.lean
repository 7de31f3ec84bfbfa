import Std.Data.TreeMap.Lemmas
import SkillRanker.Roster.Entries

/-! The resolved roster: one skill for each physical file, its bindings, and what becomes of
bindings that share a name.
-/

namespace SkillRanker.Roster

open SkillRanker.Library
open Std

structure ResolvedSkill where
  record : SkillRecord
  bindings : List Binding
deriving DecidableEq

/-- A skill and one of its bindings, by index. -/
abbrev Position := Nat × Nat

structure AdvisorySkill where
  record : SkillRecord
  binding : Binding
deriving DecidableEq

inductive ExactResolution
  | resolved (id : SkillId) (invocation : InvocationName) (kind : InvocationKind)
  | missing
  | ambiguous
  | shadowed
  | unverified
  | forbidden
deriving DecidableEq

structure ResolvedRoster where
  skills : List ResolvedSkill
  ids : TreeMap SkillId Position compare
  names : TreeMap String (List Position) compare
  partialCoverage : Bool

def eligible (binding : Binding) : Bool :=
  binding.visibility.isVerified && binding.restrictions.agentInvocable

def bindingAt (skills : List ResolvedSkill) (position : Position) : Option Binding := do
  (← skills[position.1]?).bindings[position.2]?

def modifyBinding (skills : List ResolvedSkill) (position : Position)
    (change : Binding → Binding)
    : List ResolvedSkill :=
  skills.modify position.1
    (fun skill => { skill with bindings := skill.bindings.modify position.2 change })

-- Collisions

/-- The permissions that every binding of a group has. -/
def mergeRestrictions (group : List (Position × Binding)) : InvocationRestrictions :=
  group.foldl (fun merged entry => merged.meet entry.2.restrictions) .free

def comparable (first : Binding) (group : List (Position × Binding)) : Bool :=
  first.visibility.isVerified
    && group.all
        (fun entry => entry.2.visibility = first.visibility && entry.2.priority.isSome)

def highest (group : List (Position × Binding)) : Option Int :=
  (group.filterMap (fun entry => entry.2.priority)).max?

/-- The files that hold a binding of the highest priority. -/
def winners (group : List (Position × Binding)) : List Nat :=
  ((group.filter (fun entry => entry.2.priority = highest group)).map
    (fun entry => entry.1.1)).eraseDups

def winner (first : Binding) (group : List (Position × Binding)) : Option Nat :=
  if comparable first group ∧ (winners group).length = 1 then (winners group).head? else none

def recordId (skills : List ResolvedSkill) (file : Nat) : SkillId :=
  (skills[file]?.map (fun skill => skill.record.id)).getD ""

/-- What a binding becomes among the bindings of its name. -/
def collide (skills : List ResolvedSkill) (group : List (Position × Binding))
    (position : Position) (binding : Binding)
    : Binding :=
  match group with
  | [] => binding
  | (_, first) :: _ =>
      if (group.map (fun entry => entry.1.1)).eraseDups.length = 1 then
        -- one file reached twice cannot weaken an override
        { binding with restrictions := mergeRestrictions group }
      else
        match winner first group with
        | some file =>
            if file ≠ position.1 ∨ binding.priority ≠ highest group then
              { binding with visibility := .shadowed (recordId skills file) }
            else
              {
                binding with
                restrictions :=
                  mergeRestrictions
                    (group.filter
                      (fun entry => entry.1.1 = file && entry.2.priority = highest group))
              }
        | none => { binding with visibility := .ambiguous }

def groupAt (skills : List ResolvedSkill) (positions : List Position)
    : List (Position × Binding) :=
  positions.filterMap
    (fun position => (bindingAt skills position).map (fun binding => (position, binding)))

def resolveCollision (skills : List ResolvedSkill) (positions : List Position)
    : List ResolvedSkill :=
  let group := groupAt skills positions
  positions.foldl
    (fun resolved position => modifyBinding resolved position (collide skills group position))
    skills

-- Resolution

/-- The roster while its entries are registered, with the skill of each file. -/
structure Registry where
  skills : List ResolvedSkill
  ids : TreeMap SkillId Position compare
  names : TreeMap String (List Position) compare
  physical : List (FileIdentity × Nat)

def Registry.empty : Registry := { skills := [], ids := ∅, names := ∅, physical := [] }

namespace Registry

variable (registry : Registry)

def skillOf (identity : FileIdentity) : Option Nat :=
  (registry.physical.find? (fun entry => entry.1 = identity)).map Prod.snd

def bind (skills : List ResolvedSkill) (file : Nat) (binding : Binding) : Registry :=
  let index := (skills[file]?.map (fun skill => skill.bindings.length)).getD 0
  let name := binding.invocation.text
  {
    registry with
    skills :=
      skills.modify file (fun skill => { skill with bindings := skill.bindings ++ [binding] })
    ids := registry.ids.insert binding.id (file, index)
    names := registry.names.insert name (registry.names.getD name [] ++ [(file, index)])
  }

/-- Registers one entry: another binding of a known file, or the first of a new one. -/
def register (entry : SkillEntry) : Except ResolutionError Registry :=
  if registry.ids.contains entry.binding.id then .error .duplicateId
  else
    match registry.skillOf entry.identity with
    | some file =>
        if registry.skills[file]?.any
            (fun skill => skill.record.sourceContent ≠ entry.record.sourceContent) then
          .error .changedFile
        else
          let also : SkillAlias :=
            { source := entry.binding.source, invocation := entry.binding.invocation }
          let skills :=
            registry.skills.modify file
              (fun skill =>
                { skill with
                  record := { skill.record with aliases := skill.record.aliases ++ [also] } })
          .ok (registry.bind skills file entry.binding)
    | none =>
        let file := registry.skills.length
        let known := { registry with physical := registry.physical ++ [(entry.identity, file)] }
        .ok
          (known.bind (registry.skills ++ [{ record := entry.record, bindings := [] }]) file
            entry.binding)

end Registry

/-- The bytes of all entries, within a machine word. -/
def totalBytes (entries : List SkillEntry) : Option Nat :=
  entries.foldlM
    (fun sum entry => if sum + entry.bytes ≤ usizeMax then some (sum + entry.bytes) else none) 0

def registerAll (clock : Jev.InvocationDeadline) (checkpoints : Nat → Checkpoint)
    : Nat → Registry → List SkillEntry → Except ResolutionError Registry
  | _, registry, [] => .ok registry
  | passed, registry, entry :: rest => do
      budget clock (checkpoints passed)
      let registered ← registry.register entry
      registerAll clock checkpoints (passed + 1) registered rest

def resolveNames (clock : Jev.InvocationDeadline) (checkpoints : Nat → Checkpoint)
    : Nat → List ResolvedSkill → List (List Position)
      → Except ResolutionError (List ResolvedSkill)
  | _, skills, [] => .ok skills
  | passed, skills, positions :: rest => do
      budget clock (checkpoints passed)
      resolveNames clock checkpoints (passed + 1) (resolveCollision skills positions) rest

def ResolvedSkill.settle (skill : ResolvedSkill) : ResolvedSkill :=
  match skill.bindings with
  | [] => skill
  | first :: _ =>
      {
        skill with
        record :=
          {
            skill.record with
            visibility := first.visibility
            restrictions := first.restrictions
          }
      }

def sortEntries (entries : List SkillEntry) : List SkillEntry :=
  entries.mergeSort (fun left right => (compare left.binding.id right.binding.id).isLE)

/-- `ResolvedRoster::resolve`. The checkpoints are numbered in the order they are passed. -/
def resolve (clock : Jev.InvocationDeadline) (checkpoints : Nat → Checkpoint)
    (entries : List SkillEntry) (partialCoverage : Bool)
    : Except ResolutionError ResolvedRoster := do
  budget clock (checkpoints 0)
  ensure (entries.length ≤ discoveryFiles) .limit
  let total ← require (totalBytes entries) .limit
  ensure (total ≤ discoveryParsedBytes) .limit
  let registry ← registerAll clock checkpoints 1 .empty (sortEntries entries)
  let named := registry.names.toList.map Prod.snd
  let skills ← resolveNames clock checkpoints (1 + entries.length) registry.skills named
  budget clock (checkpoints (1 + entries.length + named.length))
  return {
    skills := skills.map ResolvedSkill.settle
    ids := registry.ids
    names := registry.names
    partialCoverage := partialCoverage
  }

namespace ResolvedRoster

variable (roster : ResolvedRoster)

def advisory : List AdvisorySkill :=
  roster.skills.filterMap
    (fun skill =>
      (skill.bindings.find? eligible).map
        (fun binding => { record := skill.record, binding := binding }))

end ResolvedRoster

def exact (binding : Binding) : ExactResolution :=
  match binding.visibility with
  | .ambiguous => .ambiguous
  | .shadowed _ => .shadowed
  | .unverified => .unverified
  | .verified _ =>
      match binding.restrictions.explicitKind with
      | .forbidden => .forbidden
      | kind => .resolved binding.id binding.invocation kind

namespace ResolvedRoster

variable (roster : ResolvedRoster)

def exactId (id : SkillId) : ExactResolution :=
  match roster.ids[id]? with
  | none => .missing
  | some position => ((bindingAt roster.skills position).map exact).getD .missing

/-- The first verified binding of a name answers, else its first binding. -/
def exactName (name : String) : ExactResolution :=
  match roster.names[name]? with
  | none => .missing
  | some positions =>
      let bindings := positions.filterMap (bindingAt roster.skills)
      match bindings.find? (fun binding => binding.visibility.isVerified) with
      | some binding => exact binding
      | none => (bindings.head?.map exact).getD .missing

end ResolvedRoster

/-- Entries whose name is withheld lose their visibility, as `finish` does before it resolves
them.
-/
def withhold (withheld : List String) (entries : List SkillEntry) : List SkillEntry :=
  entries.map
    (fun entry =>
      if entry.binding.invocation.text ∈ withheld then
        {
          entry with
          binding := { entry.binding with visibility := .unverified }
          record := { entry.record with visibility := .unverified }
        }
      else entry)

end SkillRanker.Roster
