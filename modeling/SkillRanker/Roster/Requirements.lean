import SkillRanker.Roster.Explicit
import SkillRanker.Roster.Permutation

/-! When explicit requirements are answered: all of them or none, no excluded skill under any
of its names, and each skill once exactly where no two targets name one.
-/

namespace SkillRanker.Roster

open SkillRanker.Library
open Std

variable {id : SkillId} {invocation : InvocationName} {kind : InvocationKind} {target : String}
  {listed : List ResolvedExplicitSkill} {exclusions : List SkillId}

section Targets

variable {entries : List SkillEntry} {roster : ResolvedRoster}
  {placed : List (SkillEntry × Position)} {skills : List ResolvedSkill}

/-- The binding of an entry that a target names, verified and not forbidden. -/
structure Names (entries : List SkillEntry) (roster : ResolvedRoster) (target : String)
    (entry : SkillEntry) (binding : Binding) : Prop where
  member : entry ∈ entries
  ends : Ends roster entry binding
  id : binding.id = entry.binding.id
  key : entry.binding.id = target ∨ entry.binding.invocation.text = target
  verified : binding.visibility.isVerified = true
  allowed : binding.restrictions.explicitKind ≠ .forbidden

/-- What a binding answers is never forbidden. -/
theorem exact_allowed {binding : Binding} (answer : exact binding = .resolved id invocation kind)
    : kind ≠ .forbidden := by
  rw [exact_verified (exact_resolved answer).1] at answer
  split at answer
  · cases answer
  next allowed =>
    cases answer
    exact allowed

section

variable (placement : Placement entries roster placed skills)
include placement

theorem Placement.names_of_exactId (answer : roster.exactId target = .resolved id invocation kind)
    : ∃ entry binding,
        Names entries roster target entry binding
        ∧ exact binding = .resolved id invocation kind := by
  unfold ResolvedRoster.exactId at answer
  split at answer
  · cases answer
  next position known =>
    obtain ⟨entry, here, rfl⟩ := (placement.ids target position).mp known
    have found := placement.settled entry position here
    rw [found, Option.map_some, Option.getD_some] at answer
    obtain ⟨ends, settled⟩ := placement.ends_of_place here found
    obtain ⟨verified, _, _, rfl⟩ := exact_resolved answer
    exact ⟨entry, _,
      ⟨placement.entry here, ends, settled.id, .inl rfl, verified, exact_allowed answer⟩, answer⟩

theorem Placement.names_of_exactName
    (answer : roster.exactName target = .resolved id invocation kind)
    : ∃ entry binding,
        Names entries roster target entry binding
        ∧ exact binding = .resolved id invocation kind := by
  obtain ⟨entry, position, binding, winner, _⟩ := placement.winner_of_resolved answer
  rw [winner.answers] at answer
  obtain ⟨verified, _, _, rfl⟩ := exact_resolved answer
  exact ⟨entry, binding,
    ⟨placement.entry winner.place, winner.ends, winner.settled.id, .inr winner.named, verified,
      exact_allowed answer⟩,
    answer⟩

/-- A target that resolves names a binding, under its id or its name. -/
theorem Placement.names_of_resolveTarget
    (answer : resolveTarget roster target = .resolved id invocation kind)
    : ∃ entry binding,
        Names entries roster target entry binding
        ∧ exact binding = .resolved id invocation kind := by
  unfold resolveTarget at answer
  split at answer
  · split at answer
    · exact placement.names_of_exactName answer
    · exact placement.names_of_exactId answer
  · exact placement.names_of_exactName answer

end

end Targets

-- Exclusions

section Exclusions

variable {entries : List SkillEntry} {roster : ResolvedRoster}
  {placed : List (SkillEntry × Position)} {skills : List ResolvedSkill}
variable {binding : Binding} {targets : List String}

theorem named_iff
    : binding.named targets = true
      ↔ binding.id ∈ targets ∨ binding.invocation.text ∈ targets := by
  simp [Binding.named]

/-- Where a target names a binding of a skill, every binding of the skill is excluded. -/
theorem mem_resolveExclusions {skill : ResolvedSkill} (member : skill ∈ roster.skills)
    {other : Binding} (inSkill : binding ∈ skill.bindings) (named : binding.named targets = true)
    (alsoIn : other ∈ skill.bindings)
    : other.id ∈ resolveExclusions targets roster := by
  rw [resolveExclusions, TreeSet.mem_toList, TreeSet.mem_ofList, List.contains_iff_mem]
  refine List.mem_append_left _ (List.mem_flatMap.mpr ⟨skill, ?_, List.mem_map_of_mem alsoIn⟩)
  exact List.mem_filter.mpr ⟨member, List.any_eq_true.mpr ⟨binding, inSkill, named⟩⟩

/-- An excluded id is of a skill that a target names, or is itself a target that names no
binding.
-/
theorem of_mem_resolveExclusions (excluded : id ∈ resolveExclusions targets roster)
    : (∃ skill ∈ roster.skills,
        (∃ binding ∈ skill.bindings, binding.named targets = true)
        ∧ ∃ other ∈ skill.bindings, other.id = id)
      ∨ id ∈ targets
        ∧ ∀ skill ∈ roster.skills, ∀ binding ∈ skill.bindings, binding.id ≠ id := by
  rw [resolveExclusions, TreeSet.mem_toList, TreeSet.mem_ofList, List.contains_iff_mem] at excluded
  rcases List.mem_append.mp excluded with known | unknown
  · obtain ⟨skill, matched, listed⟩ := List.mem_flatMap.mp known
    obtain ⟨member, named⟩ := List.mem_filter.mp matched
    exact .inl ⟨skill, member, List.any_eq_true.mp named, List.mem_map.mp listed⟩
  · obtain ⟨target, unmatched⟩ := List.mem_filter.mp (List.mem_filter.mp unknown).1
    refine .inr ⟨target, fun skill member binding inSkill same => ?_⟩
    rw [Bool.not_eq_true', List.any_eq_false] at unmatched
    refine unmatched skill member (List.any_eq_true.mpr ⟨binding, inSkill, ?_⟩)
    exact named_iff.mpr (.inl (List.mem_singleton.mpr same))

theorem bindingAt_iff {position : Position}
    : bindingAt roster.skills position = some binding
      ↔ ∃ skill, roster.skills[position.1]? = some skill
          ∧ skill.bindings[position.2]? = some binding := by
  rw [bindingAt_eq, Option.bind_eq_some_iff]

section

variable (placement : Placement entries roster placed skills)
include placement

variable {targets : List String} {entry : SkillEntry}

/-- A target that names an entry excludes every entry of its file. -/
theorem Placement.excludes {other : SkillEntry} (member : entry ∈ entries)
    (named : entry.binding.named targets = true) (alsoIn : other ∈ entries)
    (same : other.identity = entry.identity)
    : other.binding.id ∈ resolveExclusions targets roster := by
  obtain ⟨⟨file, index⟩, here⟩ := placement.hasPlace member
  obtain ⟨⟨otherFile, otherIndex⟩, there⟩ := placement.hasPlace alsoIn
  obtain rfl : otherFile = file := (placement.file _ there _ here).mp same
  have found := placement.settled _ _ here
  have otherFound := placement.settled _ _ there
  have settled := (placement.ends_of_place here found).2
  rw [← (placement.ends_of_place there otherFound).2.id]
  obtain ⟨skill, known, at_⟩ := bindingAt_iff.mp found
  obtain ⟨_, again, otherAt⟩ := bindingAt_iff.mp otherFound
  obtain rfl := Option.some.inj (known.symm.trans again)
  refine mem_resolveExclusions (List.mem_of_getElem? known) (List.mem_of_getElem? at_) ?_
    (List.mem_of_getElem? otherAt)
  rwa [named_iff, settled.id, settled.invocation, ← named_iff]

theorem Placement.entry_of_binding {file index : Nat} {skill : ResolvedSkill} {binding : Binding}
    (known : roster.skills[file]? = some skill) (inSkill : skill.bindings[index]? = some binding)
    : ∃ entry, (entry, (file, index)) ∈ placed ∧ Settled entry.binding binding := by
  have found : bindingAt roster.skills (file, index) = some binding :=
    bindingAt_iff.mpr ⟨skill, known, inSkill⟩
  obtain ⟨entry, here⟩ := placement.only _ _ found
  exact ⟨entry, here, (placement.ends_of_place here found).2⟩

/-- An excluded entry has an entry of its file that a target names. -/
theorem Placement.of_excluded (member : entry ∈ entries)
    (excluded : entry.binding.id ∈ resolveExclusions targets roster)
    : ∃ other ∈ entries,
        other.identity = entry.identity ∧ other.binding.named targets = true := by
  obtain ⟨position, here⟩ := placement.hasPlace member
  rcases of_mem_resolveExclusions excluded with
    ⟨skill, inRoster, ⟨binding, inSkill, named⟩, other, alsoIn, same⟩ | ⟨_, unbound⟩
  · obtain ⟨file, known⟩ := List.getElem?_of_mem inRoster
    obtain ⟨index, at_⟩ := List.getElem?_of_mem inSkill
    obtain ⟨otherIndex, otherAt⟩ := List.getElem?_of_mem alsoIn
    obtain ⟨matched, matchedHere, settled⟩ := placement.entry_of_binding known at_
    obtain ⟨sibling, siblingHere, siblingSettled⟩ := placement.entry_of_binding known otherAt
    rw [siblingSettled.id] at same
    obtain rfl := placement.eq_of_id siblingHere here same
    refine ⟨matched, placement.entry matchedHere,
      (placement.file _ matchedHere _ here).mpr rfl, ?_⟩
    rwa [named_iff, ← settled.id, ← settled.invocation, ← named_iff]
  · have found := placement.settled entry position here
    obtain ⟨skill, known, at_⟩ := bindingAt_iff.mp found
    exact absurd (placement.ends_of_place here found).2.id
      (unbound skill (List.mem_of_getElem? known) _ (List.mem_of_getElem? at_))

/-- An entry is kept exactly where no target names an entry of its file. -/
theorem Placement.kept_iff (member : entry ∈ entries)
    : entry.binding.id ∉ resolveExclusions targets roster
      ↔ ∀ other ∈ entries,
          SameFile entries other.binding.id entry.binding.id
          → other.binding.named targets = false := by
  obtain ⟨position, here⟩ := placement.hasPlace member
  constructor
  · intro kept other alsoIn same
    obtain ⟨place, there⟩ := placement.hasPlace alsoIn
    have files := placement.file_of_same there here same
    have identity := (placement.file _ there _ here).mpr files
    refine Bool.eq_false_iff.mpr (fun named => kept ?_)
    exact placement.excludes alsoIn named member identity.symm
  · intro unnamed excluded
    obtain ⟨other, alsoIn, identity, named⟩ := placement.of_excluded member excluded
    rw [unnamed other alsoIn ⟨other, alsoIn, entry, member, rfl, rfl, identity⟩] at named
    cases named

end

end Exclusions

-- Answers

section Answers

variable (parsePromptDirectives : String → List ParsedDirective)
  (request : ExplicitResolutionRequest) (entries : List SkillEntry) (roster : ResolvedRoster)

/-- The binding of an entry that a target names is listed for it. -/
structure Grants (exclusions : List SkillId) (target : String)
    (listed : ResolvedExplicitSkill) : Prop where
  named : ∃ entry binding,
    Names entries roster target entry binding
    ∧ listed
      = {
          id := entry.binding.id
          invocation := binding.invocation
          kind := binding.restrictions.explicitKind
          manualOnly := binding.restrictions.explicitKind = .manualOnly
        }
  kept : listed.id ∉ exclusions

/-- All requirements or none: each required target is listed with a verified binding that is
neither forbidden nor excluded, each file once; and a target that excludes one entry of a file
excludes all of them, so that none is listed.
-/
structure AllOrNothing : Prop where
  granted
    : ∀ skills exclusions,
        resolveExplicitRequirements parsePromptDirectives request roster
          = .ok (.resolved skills exclusions)
        → List.Forall₂ (Grants entries roster exclusions)
            (request.positiveTargets parsePromptDirectives) skills
          ∧ skills.length ≤ 32
          ∧ skills.Pairwise (fun left right => ¬ SameFile entries left.id right.id)
  closed
    : ∀ skills exclusions,
        resolveExplicitRequirements parsePromptDirectives request roster
          = .ok (.resolved skills exclusions)
          ∨ resolveExplicitRequirements parsePromptDirectives request roster
            = .ok (.noneSpecified exclusions)
        → ∀ entry ∈ entries,
            entry.binding.named (request.negativeTargets parsePromptDirectives) = true
            → ∀ other ∈ entries,
                other.identity = entry.identity → other.binding.id ∈ exclusions
  unadvised
    : ∀ skills exclusions,
        resolveExplicitRequirements parsePromptDirectives request roster
          = .ok (.resolved skills exclusions)
        → ∀ listed ∈ skills, ∀ entry ∈ entries,
            SameFile entries entry.binding.id listed.id
            → entry.binding.named (request.negativeTargets parsePromptDirectives) = false

/-- A request whose every target can be granted: it is within its bounds, it excludes nothing
that it requires, and each required target resolves.
-/
structure Grantable : Prop where
  within : request.withinInput
  bounded : (request.positiveTargets parsePromptDirectives).length ≤ maxExplicitRequests
  consistent
    : ∀ target ∈ request.positiveTargets parsePromptDirectives,
        target ∉ request.negativeTargets parsePromptDirectives
  resolves
    : ∀ target ∈ request.positiveTargets parsePromptDirectives, ∃ id invocation kind,
        resolveTarget roster target = .resolved id invocation kind
        ∧ ∀ entry ∈ entries,
            SameFile entries entry.binding.id id
            → entry.binding.named (request.negativeTargets parsePromptDirectives) = false

/-- No two required targets resolve to bindings of one file. -/
def NamedApart : Prop :=
  (request.positiveTargets parsePromptDirectives).Pairwise
    (fun left right => ∀ first second invocation other kind otherKind,
      resolveTarget roster left = .resolved first invocation kind
      → resolveTarget roster right = .resolved second other otherKind
      → ¬ SameFile entries first second)

variable {parsePromptDirectives request entries roster}

theorem resolveExplicitRequirements_resolved
    : resolveExplicitRequirements parsePromptDirectives request roster
        = .ok (.resolved listed exclusions)
      ↔ request.withinInput
        ∧ (request.positiveTargets parsePromptDirectives).length ≤ maxExplicitRequests
        ∧ (∀ target ∈ request.positiveTargets parsePromptDirectives,
            target ∉ request.negativeTargets parsePromptDirectives)
        ∧ request.positiveTargets parsePromptDirectives ≠ []
        ∧ resolveExclusions (request.negativeTargets parsePromptDirectives) roster = exclusions
        ∧ List.Forall₂ (fun target skill => judge roster exclusions target = .ok skill)
            (request.positiveTargets parsePromptDirectives) listed := by
  have within
      : (request.userPrompt.map String.utf8ByteSize).getD 0 ≤ hookStdinBytes
        ↔ request.withinInput := by
    cases prompt : request.userPrompt with
    | none => simp [ExplicitResolutionRequest.withinInput, prompt]
    | some text => simp [ExplicitResolutionRequest.withinInput, prompt]
  simp only [resolveExplicitRequirements, bind_eq_ok, ensure_eq_ok, exists_const, within,
    ← granted_iff]
  generalize request.positiveTargets parsePromptDirectives = positive
  generalize request.negativeTargets parsePromptDirectives = negative
  have consistent
      : positive.filter (fun target => target ∈ negative) = []
        ↔ ∀ target ∈ positive, target ∉ negative := by
    simp [List.filter_eq_nil_iff]
  refine and_congr_right (fun _ => and_congr_right (fun _ => ?_))
  rw [← consistent]
  split
  next conflicts => simp [conflicts]
  next none =>
    rw [not_not] at none
    split
    next empty => simp [empty]
    next some =>
      split
      next refused =>
        simp only [pure_eq_ok, reduceCtorEq, false_iff, not_and]
        rintro _ _ rfl unrefused
        exact absurd unrefused refused
      next granted =>
        rw [not_not] at granted
        simp only [pure_eq_ok, ExplicitResolutionResult.resolved.injEq, none, true_and, ne_eq,
          some, not_false_eq_true]
        constructor
        · rintro ⟨rfl, rfl⟩
          exact ⟨rfl, granted, rfl⟩
        · rintro ⟨rfl, _, rfl⟩
          exact ⟨rfl, rfl⟩

/-- What a granted target resolves to. -/
theorem judge_eq_ok {listed : ResolvedExplicitSkill}
    : judge roster exclusions target = .ok listed
      ↔ resolveTarget roster target = .resolved listed.id listed.invocation listed.kind
        ∧ listed.id ∉ exclusions
        ∧ listed.manualOnly = decide (listed.kind = .manualOnly) := by
  obtain ⟨id, invocation, kind, manualOnly⟩ := listed
  unfold judge
  split
  case h_1 answer =>
    rw [answer]
    split
    next excluded =>
      simp only [reduceCtorEq, ExactResolution.resolved.injEq, false_iff, not_and]
      rintro ⟨rfl, rfl, rfl⟩ kept
      exact absurd excluded kept
    next kept =>
      simp only [Except.ok.injEq, ResolvedExplicitSkill.mk.injEq, ExactResolution.resolved.injEq]
      constructor
      · rintro ⟨rfl, rfl, rfl, rfl⟩
        exact ⟨⟨rfl, rfl, rfl⟩, kept, rfl⟩
      · rintro ⟨⟨rfl, rfl, rfl⟩, _, manual⟩
        exact ⟨rfl, rfl, rfl, manual.symm⟩
  all_goals simp_all

/-- A granted target lists the binding that it names. -/
theorem Placement.grants {placed : List (SkillEntry × Position)} {skills : List ResolvedSkill}
    (placement : Placement entries roster placed skills) {listed : ResolvedExplicitSkill}
    (judged : judge roster exclusions target = .ok listed)
    : Grants entries roster exclusions target listed := by
  obtain ⟨answer, kept, manual⟩ := judge_eq_ok.mp judged
  obtain ⟨entry, binding, names, exactly⟩ := placement.names_of_resolveTarget answer
  obtain ⟨_, id, invocation, kind⟩ := exact_resolved exactly
  refine ⟨⟨entry, binding, names, ?_⟩, kept⟩
  obtain ⟨listedId, listedInvocation, listedKind, listedManual⟩ := listed
  rw [← names.id, ← kind, ← invocation, ← id, ← manual]

section Granting

variable {placed : List (SkillEntry × Position)} {skills : List ResolvedSkill}

theorem Placement.grantable (placement : Placement entries roster placed skills)
    (resolved
      : resolveExplicitRequirements parsePromptDirectives request roster
        = .ok (.resolved listed exclusions))
    : Grantable parsePromptDirectives request entries roster := by
  obtain ⟨within, bounded, consistent, _, rfl, granted⟩ :=
    resolveExplicitRequirements_resolved.mp resolved
  refine ⟨within, bounded, consistent, fun target member => ?_⟩
  obtain ⟨skill, _, judged⟩ := exists_right granted member
  obtain ⟨answer, kept, _⟩ := judge_eq_ok.mp judged
  obtain ⟨entry, binding, names, exactly⟩ := placement.names_of_resolveTarget answer
  refine ⟨_, _, _, answer, ?_⟩
  rw [(exact_resolved exactly).2.1, names.id] at kept ⊢
  exact (placement.kept_iff names.member).mp kept

/-- Requirements that can all be granted are resolved, where there are any. -/
theorem Placement.resolved (placement : Placement entries roster placed skills)
    (grantable : Grantable parsePromptDirectives request entries roster)
    (required : request.positiveTargets parsePromptDirectives ≠ [])
    : ∃ listed exclusions,
        resolveExplicitRequirements parsePromptDirectives request roster
        = .ok (.resolved listed exclusions) := by
  let exclusions := resolveExclusions (request.negativeTargets parsePromptDirectives) roster
  have judged (target : String) (member : target ∈ request.positiveTargets parsePromptDirectives)
      : ∃ listed, judge roster exclusions target = .ok listed := by
    obtain ⟨id, invocation, kind, answer, unnamed⟩ := grantable.resolves target member
    obtain ⟨entry, binding, names, exactly⟩ := placement.names_of_resolveTarget answer
    refine ⟨⟨id, invocation, kind, kind = .manualOnly⟩, judge_eq_ok.mpr ⟨answer, ?_, rfl⟩⟩
    rw [(exact_resolved exactly).2.1, names.id] at unnamed ⊢
    exact (placement.kept_iff names.member).mpr unnamed
  obtain ⟨listed, granted⟩ := exists_corresponding judged
  exact ⟨listed, exclusions,
    resolveExplicitRequirements_resolved.mpr
      ⟨grantable.within, grantable.bounded, grantable.consistent, required, rfl, granted⟩⟩

/-- What is listed is of different files exactly where no two targets resolve to one. -/
theorem namedApart_iff {targets : List String}
    (granted
      : List.Forall₂ (fun target skill => judge roster exclusions target = .ok skill) targets
          listed)
    : targets.Pairwise
          (fun left right => ∀ first second invocation other kind otherKind,
            resolveTarget roster left = .resolved first invocation kind
            → resolveTarget roster right = .resolved second other otherKind
            → ¬ SameFile entries first second)
      ↔ listed.Pairwise (fun left right => ¬ SameFile entries left.id right.id) := by
  refine pairwise_along ?_ granted
  intro left right first second leftJudged rightJudged
  have leftAnswer := (judge_eq_ok.mp leftJudged).1
  have rightAnswer := (judge_eq_ok.mp rightJudged).1
  constructor
  · intro apart
    exact apart _ _ _ _ _ _ leftAnswer rightAnswer
  · intro apart one two invocation other kind otherKind leftSame rightSame
    rw [leftAnswer] at leftSame
    rw [rightAnswer] at rightSame
    cases leftSame
    cases rightSame
    exact apart

theorem exclusions_of_answer
    (answered
      : resolveExplicitRequirements parsePromptDirectives request roster
          = .ok (.resolved listed exclusions)
        ∨ resolveExplicitRequirements parsePromptDirectives request roster
          = .ok (.noneSpecified exclusions))
    : exclusions
      = resolveExclusions (request.negativeTargets parsePromptDirectives) roster := by
  rcases answered with resolved | none
  · exact (resolveExplicitRequirements_resolved.mp resolved).2.2.2.2.1.symm
  · simp only [resolveExplicitRequirements, bind_eq_ok, ensure_eq_ok, exists_const] at none
    obtain ⟨_, _, none⟩ := none
    split at none
    · cases none
    split at none
    · cases none
      rfl
    split at none <;> cases none

end Granting

/-- The requirements of a resolved roster are all granted or none is, with each file listed once
exactly where, in a request whose targets can all be granted, no two targets resolve to bindings
of one file.
-/
theorem allOrNothing_iff {clock : Jev.InvocationDeadline} {checkpoints : Nat → Checkpoint}
    {partialCoverage : Bool}
    (done : resolve clock checkpoints entries partialCoverage = .ok roster)
    : AllOrNothing parsePromptDirectives request entries roster
      ↔ (Grantable parsePromptDirectives request entries roster
          → NamedApart parsePromptDirectives request entries roster) := by
  obtain ⟨placed, skills, placement⟩ := resolve_placement done
  constructor
  · intro lawful grantable
    by_cases required : request.positiveTargets parsePromptDirectives = []
    · rw [NamedApart, required]
      exact .nil
    · obtain ⟨listed, exclusions, resolved⟩ := placement.resolved grantable required
      obtain ⟨_, _, _, _, _, granted⟩ := resolveExplicitRequirements_resolved.mp resolved
      exact (namedApart_iff granted).mpr (lawful.granted listed exclusions resolved).2.2
  · intro apart
    refine ⟨?_, ?_, ?_⟩
    · intro listed exclusions resolved
      obtain ⟨_, bounded, _, _, _, granted⟩ := resolveExplicitRequirements_resolved.mp resolved
      refine ⟨granted.imp (fun _ _ judged => placement.grants judged), ?_, ?_⟩
      · rw [← granted.length_eq]
        exact bounded
      · exact (namedApart_iff granted).mp (apart (placement.grantable resolved))
    · intro listed exclusions answered entry member named other alsoIn identity
      rw [exclusions_of_answer answered]
      exact placement.excludes member named alsoIn identity
    · intro listed exclusions resolved skill inListed entry member same
      obtain ⟨_, _, _, _, rfl, granted⟩ := resolveExplicitRequirements_resolved.mp resolved
      obtain ⟨target, _, judged⟩ := exists_left granted inListed
      obtain ⟨answer, kept, _⟩ := judge_eq_ok.mp judged
      obtain ⟨found, binding, names, exactly⟩ := placement.names_of_resolveTarget answer
      rw [(exact_resolved exactly).2.1, names.id] at kept same
      exact (placement.kept_iff names.member).mp kept entry member same

end Answers

/-- One skill, required under its id and under its name. -/
def twoSpellings : ExplicitResolutionRequest :=
  {
    cliRequiredSkills := ["a", "review"]
    cliExcludedSkills := []
    contextSkillReferences := []
    contextExcludedSkills := []
    userPrompt := none
  }

theorem oneSkill_answers
    : ∃ roster,
        resolve .default (fun _ => { cancelled := false, now := 0 }) [sampleEntry "a" 1 "x"] false
          = .ok roster
        ∧ ∃ listed,
            resolveExplicitRequirements (fun _ => []) twoSpellings roster
              = .ok (.resolved [listed, listed] [])
            ∧ listed.id = "a" := by
  have sorted : sortEntries [sampleEntry "a" 1 "x"] = [sampleEntry "a" 1 "x"] :=
    List.mergeSort_of_pairwise (List.pairwise_singleton _ _)
  let listed : ResolvedExplicitSkill :=
    { id := "a", invocation := ⟨"review", by decide +kernel⟩, kind := .agent, manualOnly := false }
  have answered
      : (resolve .default (fun _ => { cancelled := false, now := 0 }) [sampleEntry "a" 1 "x"]
            false).map
          (resolveExplicitRequirements (fun _ => []) twoSpellings)
        = .ok (.ok (.resolved [listed, listed] [])) := by
    rw [resolve, sorted]
    decide +kernel
  obtain ⟨roster, done, resolved⟩ := map_eq_ok.mp answered
  exact ⟨roster, done, listed, resolved, rfl⟩

/-- A skill that is required under two spellings is listed twice. -/
theorem twoSpellings_listed_twice
    : ∃ roster,
        resolve .default (fun _ => { cancelled := false, now := 0 }) [sampleEntry "a" 1 "x"] false
          = .ok roster
        ∧ ¬ AllOrNothing (fun _ => []) twoSpellings [sampleEntry "a" 1 "x"] roster := by
  obtain ⟨roster, done, listed, resolved, id⟩ := oneSkill_answers
  refine ⟨roster, done, fun lawful => ?_⟩
  have once := (lawful.granted _ _ resolved).2.2
  refine (List.pairwise_cons.mp once).1 listed List.mem_cons_self ?_
  rw [id]
  exact ⟨_, List.mem_cons_self, _, List.mem_cons_self, rfl, rfl, rfl⟩

/-- On that roster the condition decides, as on every roster. -/
theorem twoSpellings_decides
    : ∃ roster,
        resolve .default (fun _ => { cancelled := false, now := 0 }) [sampleEntry "a" 1 "x"] false
          = .ok roster
        ∧ (AllOrNothing (fun _ => []) twoSpellings [sampleEntry "a" 1 "x"] roster
          ↔ (Grantable (fun _ => []) twoSpellings [sampleEntry "a" 1 "x"] roster
              → NamedApart (fun _ => []) twoSpellings [sampleEntry "a" 1 "x"] roster)) := by
  obtain ⟨roster, done, _⟩ := oneSkill_answers
  exact ⟨roster, done, allOrNothing_iff done⟩

end SkillRanker.Roster
