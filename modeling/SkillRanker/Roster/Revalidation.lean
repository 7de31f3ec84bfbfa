import SkillRanker.Config.PolicySameness
import SkillRanker.Roster.Discovery
import SkillRanker.Roster.Soundness

/-! Revalidation: the digest of what a decision depends on, and what it covers. -/

namespace SkillRanker.Roster.Revalidation

open SkillRanker.Library

abbrev Bytes := List UInt8

-- The digest

def revalidationVersion : String := "roster-revalidation-v1"

def incompleteCauses : List String :=
  [
    "root-unreadable",
    "directory-unreadable",
    "entry-unreadable",
    "symlinked-directory-skipped",
    "depth-limit",
    "entry-limit",
    "byte-limit",
    "unreadable",
    "changed-during-read",
    "limit"
  ]

def recordCode : ResolutionError → String
  | .unsupportedLayout => "unsupported-layout"
  | .metadata => "malformed-metadata"
  | .read => "unreadable"
  | .oversized => "oversized"
  | .changedFile => "changed-during-read"
  | .limit => "limit"
  | .invalidBinding => "invalid-binding"
  | .duplicateId => "duplicate-id"
  | .cancelled => "cancelled"
  | .deadline => "deadline"
  | .ineligibleOption => "option-map"
  | .duplicateOption => "option-map"
  | .unknownOption => "option-map"

def frame (part : Bytes) : Bytes := littleEndian 8 part.length ++ part

def bitOf (flag : Bool) : UInt8 := if flag then 1 else 0

def restrictionBits (restrictions : InvocationRestrictions) : Bytes :=
  [bitOf restrictions.agentInvocable, bitOf restrictions.userInvocable]

def visibilityText : Visibility → String
  | .verified contractVersion => "verified:" ++ contractVersion
  | .shadowed winner => "shadowed:" ++ winner
  | .ambiguous => "ambiguous"
  | .unverified => "unverified"

def bindingParts (binding : Binding) : List Bytes :=
  [
    utf8 binding.id,
    utf8 binding.source,
    utf8 binding.invocation.text,
    utf8 (visibilityText binding.visibility),
    restrictionBits binding.restrictions
  ]

def contentText (contentScope : List SkillId) (record : SkillRecord) : String :=
  if record.id ∈ contentScope then record.sourceContent else "-"

def sortBindings (bindings : List Binding) : List Binding :=
  bindings.mergeSort (fun left right => (compare left.id right.id).isLE)

def skillParts (contentScope : List SkillId) (skill : ResolvedSkill) : List Bytes :=
  [
    utf8 skill.record.id,
    utf8 (contentText contentScope skill.record),
    littleEndian 8 skill.bindings.length
  ]
    ++ (sortBindings skill.bindings).flatMap bindingParts

def sortResolved (skills : List ResolvedSkill) : List ResolvedSkill :=
  skills.mergeSort (fun left right => (compare left.record.id right.record.id).isLE)

/-- The causes of excluded records, but for those that leave part of the scope unobserved. -/
def excludedCodes (diagnostics : List (Nat × ResolutionError)) : List String :=
  (diagnostics.map fun (_, error) => recordCode error).filter (!incompleteCauses.contains ·)

def sortCodes (codes : List String) : List String :=
  codes.mergeSort (fun left right => (compare left right).isLE)

def digestParts (resolution : Resolution) (contentScope : List SkillId) : List Bytes :=
  [
    utf8 revalidationVersion,
    [bitOf resolution.roster.partialCoverage],
    littleEndian 8 resolution.roster.skills.length
  ]
    ++ (sortResolved resolution.roster.skills).flatMap (skillParts contentScope)
    ++ (sortCodes (excludedCodes resolution.diagnostics)).map utf8

def digest {Hash : Type} (fromBytes : Bytes → Hash) (resolution : Resolution)
    (contentScope : List SkillId)
    : Hash :=
  fromBytes ((digestParts resolution contentScope).flatMap frame)

-- Frames

/-- A machine word counts the bytes of each part. -/
def Fits (parts : List Bytes) : Prop := ∀ part ∈ parts, part.length ≤ usizeMax

/-- Parts are told from their frames, by induction on the parts. -/
theorem frames_injective {left right : List Bytes} (first : Fits left) (second : Fits right)
    (same : left.flatMap frame = right.flatMap frame)
    : left = right := by
  have nonempty (part : Bytes) (rest : List Bytes) : (part :: rest).flatMap frame ≠ [] := by
    intro none
    have length := congrArg List.length none
    simp [frame] at length
  induction left generalizing right with
  | nil =>
      cases right with
      | nil => rfl
      | cons part rest => exact absurd same.symm (nonempty part rest)
  | cons part rest ih =>
      cases right with
      | nil => exact absurd same (nonempty part rest)
      | cons other others =>
          rw [List.flatMap_cons, List.flatMap_cons] at same
          obtain ⟨parts, remaining⟩ := Config.counted_append (first part List.mem_cons_self)
            (second other List.mem_cons_self) same
          rw [parts, ih (fun one mem => first one (List.mem_cons_of_mem _ mem))
            (fun one mem => second one (List.mem_cons_of_mem _ mem)) remaining]

-- What the parts of skills say

structure BindingView where
  id : SkillId
  source : SourceId
  invocation : InvocationName
  visibility : Visibility
  restrictions : InvocationRestrictions
deriving DecidableEq

def viewOf (binding : Binding) : BindingView where
  id := binding.id
  source := binding.source
  invocation := binding.invocation
  visibility := binding.visibility
  restrictions := binding.restrictions

theorem restrictionBits_injective : Function.Injective restrictionBits := by
  rintro ⟨agent, user⟩ ⟨agent', user'⟩ same
  revert same
  revert agent user agent' user'
  decide

/-- The first character of the text of a visibility. -/
def initial : Visibility → Char
  | .verified _ => 'v'
  | .shadowed _ => 's'
  | .ambiguous => 'a'
  | .unverified => 'u'

theorem head_visibilityText (visibility : Visibility)
    : (visibilityText visibility).toList.head? = some (initial visibility) := by
  cases visibility <;> simp [visibilityText, initial]

theorem visibilityText_injective : Function.Injective visibilityText := by
  intro left right same
  have initials : initial left = initial right := by
    have heads := head_visibilityText left
    rw [same, head_visibilityText] at heads
    exact (Option.some.inj heads).symm
  cases left <;> cases right <;> simp [initial] at initials
  · exact congrArg _ ((String.append_right_inj _).mp same)
  · exact congrArg _ ((String.append_right_inj _).mp same)
  · rfl
  · rfl

theorem bindingParts_view {left right : Binding}
    (same : bindingParts left = bindingParts right)
    : viewOf left = viewOf right := by
  simp only [bindingParts, List.cons.injEq, and_true] at same
  obtain ⟨ids, sources, invocations, visibilities, restrictions⟩ := same
  have names := invocation_ext (Config.utf8_injective invocations)
  simp only [viewOf, Config.utf8_injective ids, Config.utf8_injective sources, names,
    visibilityText_injective (Config.utf8_injective visibilities),
    restrictionBits_injective restrictions]

/-- Bindings are told from their parts but for their priorities, where there are as many. -/
theorem flatMap_bindingParts {left right : List Binding} {rest tail : List Bytes}
    (sized : left.length = right.length)
    (same : left.flatMap bindingParts ++ rest = right.flatMap bindingParts ++ tail)
    : left.map viewOf = right.map viewOf ∧ rest = tail := by
  induction left generalizing right with
  | nil =>
      cases List.length_eq_zero_iff.mp sized.symm
      exact ⟨rfl, same⟩
  | cons first others ih =>
      cases right with
      | nil => cases sized
      | cons second more =>
          rw [List.flatMap_cons, List.flatMap_cons, List.append_assoc, List.append_assoc] at same
          obtain ⟨parts, remaining⟩ := List.append_inj same rfl
          obtain ⟨views, rests⟩ := ih (Nat.succ.inj sized) remaining
          exact ⟨by rw [List.map_cons, List.map_cons, bindingParts_view parts, views], rests⟩

/-- What the digest says of a skill: its id, its content in scope, and its bindings. -/
structure SkillView where
  id : SkillId
  content : String
  bindings : List BindingView
deriving DecidableEq

def skillView (contentScope : List SkillId) (skill : ResolvedSkill) : SkillView where
  id := skill.record.id
  content := contentText contentScope skill.record
  bindings := (sortBindings skill.bindings).map viewOf

/-- A machine word counts the bindings of each skill. -/
def Counted (skills : List ResolvedSkill) : Prop :=
  ∀ skill ∈ skills, skill.bindings.length ≤ usizeMax

theorem counts_injective {left right : Nat} (first : left ≤ usizeMax) (second : right ≤ usizeMax)
    (same : littleEndian 8 left = littleEndian 8 right)
    : left = right :=
  littleEndian_injective (Nat.lt_of_le_of_lt first (by decide))
    (Nat.lt_of_le_of_lt second (by decide)) same

variable {leftScope rightScope : List SkillId}

/-- Skills are told from their parts, where there are as many, by induction on the skills. -/
theorem flatMap_skillParts {left right : List ResolvedSkill} {rest tail : List Bytes}
    (first : Counted left) (second : Counted right) (sized : left.length = right.length)
    (same
      : left.flatMap (skillParts leftScope) ++ rest
        = right.flatMap (skillParts rightScope) ++ tail)
    : left.map (skillView leftScope) = right.map (skillView rightScope) ∧ rest = tail := by
  induction left generalizing right with
  | nil =>
      cases List.length_eq_zero_iff.mp sized.symm
      exact ⟨rfl, same⟩
  | cons one others ih =>
      cases right with
      | nil => cases sized
      | cons two more =>
          simp only [List.flatMap_cons, skillParts, List.append_assoc, List.cons_append,
            List.nil_append, List.cons.injEq] at same
          obtain ⟨ids, contents, counts, bindings⟩ := same
          have count := counts_injective (first one List.mem_cons_self)
            (second two List.mem_cons_self) counts
          have sorted : (sortBindings one.bindings).length
              = (sortBindings two.bindings).length := by
            rw [sortBindings, sortBindings, List.length_mergeSort, List.length_mergeSort, count]
          obtain ⟨views, remaining⟩ := flatMap_bindingParts sorted bindings
          obtain ⟨skills, rests⟩ := ih (fun skill mem => first skill (List.mem_cons_of_mem _ mem))
            (fun skill mem => second skill (List.mem_cons_of_mem _ mem)) (Nat.succ.inj sized)
            remaining
          refine ⟨?_, rests⟩
          rw [List.map_cons, List.map_cons, skills, skillView, skillView, views,
            Config.utf8_injective ids, Config.utf8_injective contents]

structure Covered (left right : Resolution) (leftScope rightScope : List SkillId) : Prop where
  partialCoverage : left.roster.partialCoverage = right.roster.partialCoverage
  skills
    : (sortResolved left.roster.skills).map (skillView leftScope)
      = (sortResolved right.roster.skills).map (skillView rightScope)
  excluded
    : (excludedCodes left.diagnostics).Perm (excludedCodes right.diagnostics)

theorem bitOf_injective : Function.Injective bitOf := by
  intro left right same
  revert same
  revert left right
  decide

theorem covered_of_digest {Hash : Type} {fromBytes : Bytes → Hash}
    (collisionFree : Function.Injective fromBytes) {left right : Resolution}
    (fits : Fits (digestParts left leftScope)) (fits' : Fits (digestParts right rightScope))
    (counted : Counted left.roster.skills) (counted' : Counted right.roster.skills)
    (few : left.roster.skills.length ≤ usizeMax) (few' : right.roster.skills.length ≤ usizeMax)
    (same : digest fromBytes left leftScope = digest fromBytes right rightScope)
    : Covered left right leftScope rightScope := by
  have parts := frames_injective fits fits' (collisionFree same)
  simp only [digestParts, List.cons_append, List.nil_append, List.cons.injEq,
    true_and, and_true] at parts
  obtain ⟨flags, counts, remaining⟩ := parts
  have count := counts_injective few few' counts
  have sorted : (sortResolved left.roster.skills).length
      = (sortResolved right.roster.skills).length := by
    rw [sortResolved, sortResolved, List.length_mergeSort, List.length_mergeSort, count]
  have within {skills : List ResolvedSkill} (counted : Counted skills)
      : Counted (sortResolved skills) :=
    fun skill mem => counted skill (List.mem_mergeSort.mp mem)
  obtain ⟨skills, codes⟩ := flatMap_skillParts (within counted) (within counted') sorted remaining
  have sortedCodes := List.map_injective_iff.mpr Config.utf8_injective codes
  refine ⟨bitOf_injective flags, skills, ?_⟩
  have one := List.mergeSort_perm (excludedCodes left.diagnostics)
    (fun left right => (compare left right).isLE)
  rw [show (excludedCodes left.diagnostics).mergeSort _ = _ from sortedCodes] at one
  exact one.symm.trans (List.mergeSort_perm _ _)

end SkillRanker.Roster.Revalidation
