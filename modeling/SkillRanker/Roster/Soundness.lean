import SkillRanker.Roster.Outcomes

/-! What a resolved roster answers, for every list of entries and every withheld name. -/

namespace SkillRanker.Roster

open SkillRanker.Library
open Std

variable {binding : Binding} {advised : AdvisorySkill} {id : SkillId} {invocation : InvocationName}
  {kind : InvocationKind} {name : String}

def ResolvedRoster.bindingOf (roster : ResolvedRoster) (id : SkillId) : Option Binding :=
  roster.ids[id]?.bind (bindingAt roster.skills)

def Ends (roster : ResolvedRoster) (entry : SkillEntry) (binding : Binding) : Prop :=
  roster.bindingOf entry.binding.id = some binding

def SameFile (entries : List SkillEntry) (left right : SkillId) : Prop :=
  ∃ first ∈ entries, ∃ second ∈ entries,
    first.binding.id = left
    ∧ second.binding.id = right
    ∧ first.identity = second.identity

/-- The roster of a list of entries. -/
structure Sound (entries : List SkillEntry) (roster : ResolvedRoster) : Prop where
  /-- Each entry has its binding, with no permission that it did not have itself. -/
  bound
    : ∀ entry ∈ entries, ∃ binding, Ends roster entry binding ∧ Settled entry.binding binding
  /-- The verified bindings of a name are of one file and allow the same. -/
  oneFile
    : ∀ left ∈ entries, ∀ right ∈ entries, ∀ first second,
        left.binding.invocation.text = right.binding.invocation.text
        → Ends roster left first
        → Ends roster right second
        → first.visibility.isVerified = true
        → second.visibility.isVerified = true
        → left.identity = right.identity ∧ first.restrictions = second.restrictions
  /-- Only verified bindings of entries are advised. -/
  advised
    : ∀ skill ∈ roster.advisory,
        skill.binding.visibility.isVerified = true
        ∧ skill.binding.restrictions.agentInvocable = true
        ∧ ∃ entry ∈ entries, entry.binding.id = skill.binding.id ∧ Ends roster entry skill.binding
  /-- No file is advised twice. -/
  advisedOnce
    : roster.advisory.Pairwise
        (fun left right => ¬ SameFile entries left.binding.id right.binding.id)
  /-- A name that resolves does so as its id does. -/
  named
    : ∀ name id invocation kind,
        roster.exactName name = .resolved id invocation kind
        → invocation.text = name ∧ roster.exactId id = .resolved id invocation kind
  /-- A verified binding has the answer of its name, up to the id within its file. -/
  answered
    : ∀ entry ∈ entries, ∀ id invocation kind,
        roster.exactId entry.binding.id = .resolved id invocation kind
        → id = entry.binding.id
          ∧ ∃ winner,
              roster.exactName invocation.text = .resolved winner invocation kind
              ∧ SameFile entries winner id
  /-- An advised binding is the winner of its name, and an agent's winner is advised. -/
  advisedWins
    : ∀ skill ∈ roster.advisory,
        roster.exactName skill.binding.invocation.text
          = .resolved skill.binding.id skill.binding.invocation .agent
        ∧ roster.exactId skill.binding.id
          = .resolved skill.binding.id skill.binding.invocation .agent
  winnerAdvised
    : ∀ name id invocation,
        roster.exactName name = .resolved id invocation .agent
        → ∃ skill ∈ roster.advisory, SameFile entries skill.binding.id id
  /-- An unverified rival of a name that spans files leaves no winner. -/
  rival
    : ∀ rival ∈ entries, ∀ left ∈ entries, ∀ right ∈ entries, ∀ entry ∈ entries, ∀ binding,
        rival.binding.visibility.isVerified = false
        → left.binding.invocation.text = rival.binding.invocation.text
        → right.binding.invocation.text = rival.binding.invocation.text
        → left.identity ≠ right.identity
        → entry.binding.invocation.text = rival.binding.invocation.text
        → Ends roster entry binding
        → binding.visibility.isVerified = false

section Placed

variable {entries : List SkillEntry} {roster : ResolvedRoster}
  {placed : List (SkillEntry × Position)} {skills : List ResolvedSkill}

theorem Placement.hasPlace (placement : Placement entries roster placed skills)
    {entry : SkillEntry} (member : entry ∈ entries)
    : ∃ position, (entry, position) ∈ placed := by
  have sorted : entry ∈ placed.map Prod.fst := by
    rw [placement.sorted, sortEntries]
    exact List.mem_mergeSort.mpr member
  obtain ⟨⟨_, position⟩, here, rfl⟩ := List.mem_map.mp sorted
  exact ⟨position, here⟩

variable {position : Position}

section

variable (placement : Placement entries roster placed skills)
include placement

theorem Placement.entry {entry : SkillEntry} (member : (entry, position) ∈ placed)
    : entry ∈ entries := by
  have sorted : entry ∈ sortEntries entries := by
    rw [← placement.sorted]
    exact List.mem_map_of_mem member
  exact List.mem_mergeSort.mp sorted

theorem Placement.ends_iff {entry : SkillEntry} (member : (entry, position) ∈ placed)
    : Ends roster entry binding
      ↔ binding
        = collide skills (groupOf placed entry.binding.invocation.text) position
            entry.binding := by
  have known := (placement.ids entry.binding.id position).mpr ⟨entry, member, rfl⟩
  rw [Ends, ResolvedRoster.bindingOf, known, Option.bind_some,
    placement.settled entry position member, Option.some.injEq, eq_comm]

theorem Placement.ends_of_place {entry : SkillEntry} (member : (entry, position) ∈ placed)
    (found : bindingAt roster.skills position = some binding)
    : Ends roster entry binding ∧ Settled entry.binding binding := by
  have eq := placement.settled entry position member
  rw [found, Option.some.injEq] at eq
  refine ⟨(placement.ends_iff member).mpr eq, ?_⟩
  rw [eq]
  exact collide_settled skills (mem_groupOf member rfl)

theorem Placement.place_of_ends {entry : SkillEntry} (member : (entry, position) ∈ placed)
    (ends : Ends roster entry binding)
    : bindingAt roster.skills position = some binding := by
  rw [placement.settled entry position member, (placement.ends_iff member).mp ends]

end

variable {right left : SkillEntry} {second first : Position}

section

variable (placement : Placement entries roster placed skills)
include placement

section

variable (inLeft : (left, first) ∈ placed)
include inLeft

variable (inRight : (right, second) ∈ placed)
include inRight

/-- Ids tell entries apart. -/
theorem Placement.eq_of_id (same : left.binding.id = right.binding.id)
    : first = second := by
  have one := (placement.ids left.binding.id first).mpr ⟨left, inLeft, rfl⟩
  have two := (placement.ids left.binding.id second).mpr ⟨right, inRight, same.symm⟩
  exact Option.some.inj (one.symm.trans two)

theorem Placement.file_of_same (same : SameFile entries left.binding.id right.binding.id)
    : first.1 = second.1 := by
  obtain ⟨one, inOne, two, inTwo, oneId, twoId, identity⟩ := same
  obtain ⟨onePlace, onePlaced⟩ := placement.hasPlace inOne
  obtain ⟨twoPlace, twoPlaced⟩ := placement.hasPlace inTwo
  rw [← placement.eq_of_id onePlaced inLeft oneId, ← placement.eq_of_id twoPlaced inRight twoId]
  exact (placement.file (one, onePlace) onePlaced (two, twoPlace) twoPlaced).mp identity

theorem Placement.same_of_file (file : first.1 = second.1)
    : SameFile entries left.binding.id right.binding.id :=
  ⟨left, placement.entry inLeft, right, placement.entry inRight, rfl, rfl,
    (placement.file (left, first) inLeft (right, second) inRight).mpr file⟩

/-- The verified ends of a name are of one file and allow the same. -/
theorem Placement.oneFile {one two : Binding}
    (named : left.binding.invocation.text = right.binding.invocation.text)
    (leftEnds : Ends roster left one) (rightEnds : Ends roster right two)
    (oneVerified : one.visibility.isVerified = true)
    (twoVerified : two.visibility.isVerified = true)
    : first.1 = second.1 ∧ one.restrictions = two.restrictions := by
  have oneEq := (placement.ends_iff inLeft).mp leftEnds
  have twoEq := (placement.ends_iff inRight).mp rightEnds
  rw [oneEq] at oneVerified ⊢
  rw [twoEq, ← named] at twoVerified ⊢
  exact collide_verified skills (mem_groupOf inLeft rfl) (mem_groupOf inRight named.symm)
    oneVerified twoVerified

end

theorem Placement.positions_ordered (name : String)
    : (positionsOf placed name).Pairwise (fun left right => left.1 = right.1 → left.2 < right.2) :=
  List.pairwise_map.mpr (placement.ordered.filter _)

end

/-- The verified end that answers a name, and that no verified end of its file precedes. -/
structure Winner (roster : ResolvedRoster) (placed : List (SkillEntry × Position))
    (name : String) (entry : SkillEntry) (position : Position) (binding : Binding) : Prop where
  place : (entry, position) ∈ placed
  named : entry.binding.invocation.text = name
  ends : Ends roster entry binding
  settled : Settled entry.binding binding
  verified : binding.visibility.isVerified = true
  answers : roster.exactName name = exact binding
  first
    : ∀ other otherPosition otherBinding,
        (other, otherPosition) ∈ placed
        → other.binding.invocation.text = name
        → Ends roster other otherBinding
        → otherBinding.visibility.isVerified = true
        → otherPosition = position
          ∨ (otherPosition.1 = position.1 → position.2 < otherPosition.2)

/-- What a binding that is not verified answers. -/
theorem exact_unverified (unverified : ¬ binding.visibility.isVerified = true) (id : SkillId)
    (invocation : InvocationName) (kind : InvocationKind)
    : exact binding ≠ .resolved id invocation kind := by
  unfold exact
  split
  · exact ExactResolution.noConfusion
  · exact ExactResolution.noConfusion
  · exact ExactResolution.noConfusion
  · rename_i version same
    rw [same] at unverified
    exact absurd rfl unverified

/-- A name is answered by its first verified end, or has none and does not resolve. -/
theorem Placement.exactName_cases (placement : Placement entries roster placed skills)
    (name : String)
    : (∃ entry position binding, Winner roster placed name entry position binding)
      ∨ (∀ entry position binding,
          (entry, position) ∈ placed
          → entry.binding.invocation.text = name
          → Ends roster entry binding
          → ¬ binding.visibility.isVerified = true)
        ∧ ∀ id invocation kind, roster.exactName name ≠ .resolved id invocation kind := by
  by_cases none : positionsOf placed name = []
  · have unnamed (entry : SkillEntry) (position : Position) (member : (entry, position) ∈ placed)
        (named : entry.binding.invocation.text = name)
        : False := by
      have listed := mem_positionsOf.mpr ⟨entry, member, named⟩
      rw [none] at listed
      cases listed
    refine .inr ⟨fun entry position _ member named => (unnamed entry position member named).elim,
      ?_⟩
    intro id invocation kind
    rw [ResolvedRoster.exactName, placement.names, if_pos none]
    exact ExactResolution.noConfusion
  · have known : roster.names[name]? = some (positionsOf placed name) := by
      rw [placement.names, if_neg none]
    cases found
        : (positionsOf placed name).find?
            (fun place =>
              (bindingAt roster.skills place).any (fun binding => binding.visibility.isVerified)) with
    | some position =>
        refine .inl ?_
        obtain ⟨verified, before, after, split, unverified⟩ :=
          List.find?_eq_some_iff_append.mp found
        cases here : bindingAt roster.skills position with
        | none => simp [here] at verified
        | some binding =>
            rw [here, Option.any_some] at verified
            have listed : position ∈ positionsOf placed name := by
              rw [split]
              exact List.mem_append_right _ List.mem_cons_self
            obtain ⟨entry, member, named⟩ := mem_positionsOf.mp listed
            obtain ⟨ends, settled⟩ := placement.ends_of_place member here
            refine ⟨entry, position, binding, member, named, ends, settled, verified, ?_, ?_⟩
            · simp only [ResolvedRoster.exactName, known, List.find?_filterMap, found,
                Option.bind_some, here]
            · intro other otherPosition otherBinding inPlaced otherNamed otherEnds otherVerified
              have inPositions := mem_positionsOf.mpr ⟨other, inPlaced, otherNamed⟩
              have ordered := placement.positions_ordered name
              rw [split] at inPositions ordered
              rcases List.mem_append.mp inPositions with earlier | rest
              · have skipped := unverified otherPosition earlier
                rw [placement.place_of_ends inPlaced otherEnds] at skipped
                simp [otherVerified] at skipped
              · rcases List.mem_cons.mp rest with same | later
                · exact .inl same
                · refine .inr (fun file => ?_)
                  exact (List.pairwise_cons.mp (List.pairwise_append.mp ordered).2.1).1
                    otherPosition later file.symm
    | none =>
        refine .inr ⟨?_, ?_⟩
        · intro entry position binding member named ends
          have skipped := List.find?_eq_none.mp found position
            (mem_positionsOf.mpr ⟨entry, member, named⟩)
          rwa [placement.place_of_ends member ends] at skipped
        · intro id invocation kind
          simp only [ResolvedRoster.exactName, known, List.find?_filterMap, found,
            Option.bind_none]
          cases head : ((positionsOf placed name).filterMap (bindingAt roster.skills)).head? with
          | none => exact ExactResolution.noConfusion
          | some binding =>
              obtain ⟨position, listed, here⟩ :=
                List.mem_filterMap.mp (List.mem_of_mem_head? head)
              have skipped := List.find?_eq_none.mp found position listed
              rw [here] at skipped
              exact exact_unverified skipped id invocation kind

def firstEligible (skill : ResolvedSkill) : Option AdvisorySkill :=
  (skill.bindings.find? eligible).map
    (fun binding => { record := skill.record, binding := binding })

theorem firstEligible_place {file : Nat} {skill : ResolvedSkill}
    (known : roster.skills[file]? = some skill) (found : firstEligible skill = some advised)
    : ∃ index,
        bindingAt roster.skills (file, index) = some advised.binding
        ∧ eligible advised.binding = true
        ∧ ∀ earlier < index, ∀ binding,
            bindingAt roster.skills (file, earlier) = some binding → ¬ eligible binding = true := by
  obtain ⟨binding, first, rfl⟩ := Option.map_eq_some_iff.mp found
  obtain ⟨able, index, within, here, before⟩ := List.find?_eq_some_iff_getElem.mp first
  have place (spot : Nat) : bindingAt roster.skills (file, spot) = skill.bindings[spot]? := by
    rw [bindingAt_eq, known]
    rfl
  refine ⟨index, ?_, able, ?_⟩
  · rw [place, List.getElem?_eq_some_iff]
    exact ⟨within, here⟩
  · intro earlier less binding there
    rw [place, List.getElem?_eq_some_iff] at there
    obtain ⟨_, rfl⟩ := there
    simpa using before earlier less

theorem advisory_place (member : advised ∈ roster.advisory)
    : ∃ position,
        bindingAt roster.skills position = some advised.binding
        ∧ eligible advised.binding = true
        ∧ ∀ earlier < position.2, ∀ binding,
            bindingAt roster.skills (position.1, earlier) = some binding
            → ¬ eligible binding = true := by
  obtain ⟨skill, inSkills, found⟩ := List.mem_filterMap.mp member
  obtain ⟨file, known⟩ := List.getElem?_of_mem inSkills
  obtain ⟨index, facts⟩ := firstEligible_place known found
  exact ⟨(file, index), facts⟩

theorem advisory_of_eligible (here : bindingAt roster.skills position = some binding)
    (able : eligible binding = true)
    : ∃ advised ∈ roster.advisory, ∃ index,
        bindingAt roster.skills (position.1, index) = some advised.binding := by
  rw [bindingAt_eq] at here
  obtain ⟨skill, known, found⟩ := Option.bind_eq_some_iff.mp here
  cases first : firstEligible skill with
  | none =>
      rw [firstEligible, Option.map_eq_none_iff, List.find?_eq_none] at first
      exact absurd able (first binding (List.mem_of_getElem? found))
  | some advised =>
      obtain ⟨index, place, _⟩ := firstEligible_place known first
      exact ⟨advised, List.mem_filterMap.mpr ⟨skill, List.mem_of_getElem? known, first⟩, index,
        place⟩

theorem Placement.advisedOnce (placement : Placement entries roster placed skills)
    : roster.advisory.Pairwise
        (fun left right => ¬ SameFile entries left.binding.id right.binding.id) := by
  refine List.pairwise_filterMap.mpr (List.pairwise_iff_getElem.mpr ?_)
  intro left right inLeft inRight less one first two second same
  obtain ⟨leftIndex, leftPlace, _⟩ :=
    firstEligible_place (List.getElem?_eq_getElem inLeft) first
  obtain ⟨rightIndex, rightPlace, _⟩ :=
    firstEligible_place (List.getElem?_eq_getElem inRight) second
  obtain ⟨leftEntry, leftPlaced⟩ := placement.only _ _ leftPlace
  obtain ⟨rightEntry, rightPlaced⟩ := placement.only _ _ rightPlace
  have leftId := (placement.ends_of_place leftPlaced leftPlace).2.id
  have rightId := (placement.ends_of_place rightPlaced rightPlace).2.id
  rw [leftId, rightId] at same
  have files := placement.file_of_same leftPlaced rightPlaced same
  exact Nat.ne_of_lt less files

theorem exact_verified (verified : binding.visibility.isVerified = true)
    : exact binding
      = match binding.restrictions.explicitKind with
        | .forbidden => .forbidden
        | kind => .resolved binding.id binding.invocation kind := by
  unfold exact
  split
  all_goals
    rename_i same
    first
    | rfl
    | (rw [same] at verified; cases verified)

theorem exact_resolved (answer : exact binding = .resolved id invocation kind)
    : binding.visibility.isVerified = true
      ∧ id = binding.id
      ∧ invocation = binding.invocation
      ∧ kind = binding.restrictions.explicitKind := by
  by_cases verified : binding.visibility.isVerified = true
  · rw [exact_verified verified] at answer
    split at answer
    · cases answer
    · cases answer
      exact ⟨verified, rfl, rfl, rfl⟩
  · exact absurd answer (exact_unverified verified id invocation kind)

/-- The kinds of restrictions: an agent's are those that an agent may invoke. -/
theorem explicitKind_agent {restrictions : InvocationRestrictions}
    : restrictions.explicitKind = .agent ↔ restrictions.agentInvocable = true := by
  obtain ⟨agent, user⟩ := restrictions
  cases agent <;> cases user <;> simp [InvocationRestrictions.explicitKind]

theorem exactId_of_ends {entry : SkillEntry} (ends : Ends roster entry binding)
    : roster.exactId entry.binding.id = exact binding := by
  obtain ⟨position, known, here⟩ := Option.bind_eq_some_iff.mp ends
  simp only [ResolvedRoster.exactId, known, here, Option.map_some, Option.getD_some]

/-- Where the winner of a name and a verified end of it are of one file, they answer alike. -/
theorem Winner.alike (placement : Placement entries roster placed skills) {entry other : SkillEntry}
    {place : Position} {found : Binding} (winner : Winner roster placed name entry position binding)
    (member : (other, place) ∈ placed) (named : other.binding.invocation.text = name)
    (ends : Ends roster other found) (verified : found.visibility.isVerified = true)
    : position.1 = place.1 ∧ binding.restrictions = found.restrictions :=
  placement.oneFile winner.place member (winner.named.trans named.symm) winner.ends ends
    winner.verified verified

/-- Invocation names are told apart by their texts. -/
theorem invocation_ext {left right : InvocationName} (same : left.text = right.text)
    : left = right := by
  cases left
  cases right
  cases same
  rfl

/-- A verified end has the answer of its name, up to the id. -/
theorem Placement.answered (placement : Placement entries roster placed skills) {entry : SkillEntry}
    (member : entry ∈ entries)
    (answer : roster.exactId entry.binding.id = .resolved id invocation kind)
    : id = entry.binding.id
      ∧ ∃ winner,
          roster.exactName invocation.text = .resolved winner invocation kind
          ∧ SameFile entries winner id := by
  obtain ⟨position, here⟩ := placement.hasPlace member
  have found := placement.settled entry position here
  obtain ⟨ends, settled⟩ := placement.ends_of_place here found
  rw [exactId_of_ends ends] at answer
  obtain ⟨verified, rfl, rfl, rfl⟩ := exact_resolved answer
  rw [settled.id, settled.invocation]
  refine ⟨rfl, ?_⟩
  rcases placement.exactName_cases entry.binding.invocation.text with
    ⟨best, bestPlace, binding, winner⟩ | ⟨unverified, _⟩
  · obtain ⟨file, restrictions⟩ := winner.alike placement here rfl ends verified
    have named : binding.invocation = entry.binding.invocation := by
      refine invocation_ext ?_
      rw [winner.settled.invocation, winner.named]
    refine ⟨best.binding.id, ?_, placement.same_of_file winner.place here file⟩
    rw [winner.answers, exact_verified winner.verified, restrictions, winner.settled.id, named]
    rw [exact_verified verified] at answer
    split at answer
    · cases answer
    · rfl
  · exact absurd verified (unverified entry position _ here rfl ends)

theorem Winner.text {entry : SkillEntry} (winner : Winner roster placed name entry position binding)
    : binding.invocation.text = name := by
  rw [winner.settled.invocation, winner.named]

theorem Placement.winner_of_resolved (placement : Placement entries roster placed skills)
    (answer : roster.exactName name = .resolved id invocation kind)
    : ∃ entry position binding,
        Winner roster placed name entry position binding
        ∧ id = binding.id
        ∧ invocation = binding.invocation
        ∧ kind = binding.restrictions.explicitKind := by
  rcases placement.exactName_cases name with ⟨entry, position, binding, winner⟩ | ⟨_, none⟩
  · rw [winner.answers] at answer
    exact ⟨entry, position, binding, winner, (exact_resolved answer).2⟩
  · exact absurd answer (none id invocation kind)

theorem Placement.named (placement : Placement entries roster placed skills)
    (answer : roster.exactName name = .resolved id invocation kind)
    : invocation.text = name ∧ roster.exactId id = .resolved id invocation kind := by
  obtain ⟨entry, position, binding, winner, rfl, rfl, rfl⟩ :=
    placement.winner_of_resolved answer
  refine ⟨winner.text, ?_⟩
  rw [winner.settled.id, exactId_of_ends winner.ends, ← winner.answers, answer,
    winner.settled.id]

theorem eligible_iff
    : eligible binding = true
      ↔ binding.visibility.isVerified = true ∧ binding.restrictions.agentInvocable = true :=
  Bool.and_eq_true_iff

theorem exact_eligible (able : eligible binding = true)
    : exact binding = .resolved binding.id binding.invocation .agent := by
  obtain ⟨verified, agent⟩ := eligible_iff.mp able
  rw [exact_verified verified, explicitKind_agent.mpr agent]

section

variable (placement : Placement entries roster placed skills)
include placement

/-- An advised binding wins its name. The winner of the name is of the same file and allows
the same, so that the advised binding, the first eligible one of the file, is not behind it.
-/
theorem Placement.advisedWins (member : advised ∈ roster.advisory)
    : roster.exactName advised.binding.invocation.text
        = .resolved advised.binding.id advised.binding.invocation .agent
      ∧ roster.exactId advised.binding.id
        = .resolved advised.binding.id advised.binding.invocation .agent := by
  obtain ⟨position, place, able, before⟩ := advisory_place member
  obtain ⟨entry, here⟩ := placement.only _ _ place
  obtain ⟨ends, settled⟩ := placement.ends_of_place here place
  have verified := (eligible_iff.mp able).1
  constructor
  · rcases placement.exactName_cases advised.binding.invocation.text with
      ⟨best, bestPlace, binding, winner⟩ | ⟨unverified, _⟩
    · have name : entry.binding.invocation.text = advised.binding.invocation.text := by
        rw [settled.invocation]
      obtain ⟨file, restrictions⟩ := winner.alike placement here name ends verified
      have winnerAble : eligible binding = true := by
        rw [eligible_iff, restrictions]
        exact ⟨winner.verified, (eligible_iff.mp able).2⟩
      have bestHere := placement.place_of_ends winner.place winner.ends
      have same : position = bestPlace := by
        rcases winner.first entry position advised.binding here name ends verified with
          equal | behind
        · exact equal
        · rw [show bestPlace = (position.1, bestPlace.2) from Prod.ext file rfl] at bestHere
          exact absurd winnerAble (before _ (behind file.symm) _ bestHere)
      rw [← same, place, Option.some.injEq] at bestHere
      rw [winner.answers, ← bestHere, exact_eligible able]
    · refine absurd verified (unverified entry position _ here ?_ ends)
      rw [settled.invocation]
  · rw [settled.id, exactId_of_ends ends, exact_eligible able, settled.id]

/-- The winner of a name that an agent may invoke has its file advised. -/
theorem Placement.winnerAdvised (answer : roster.exactName name = .resolved id invocation .agent)
    : ∃ advised ∈ roster.advisory, SameFile entries advised.binding.id id := by
  obtain ⟨entry, position, binding, winner, rfl, rfl, kind⟩ :=
    placement.winner_of_resolved answer
  have able : eligible binding = true :=
    eligible_iff.mpr ⟨winner.verified, explicitKind_agent.mp kind.symm⟩
  obtain ⟨advised, member, index, place⟩ :=
    advisory_of_eligible (placement.place_of_ends winner.place winner.ends) able
  obtain ⟨other, here⟩ := placement.only _ _ place
  refine ⟨advised, member, ?_⟩
  rw [(placement.ends_of_place here place).2.id, winner.settled.id]
  exact placement.same_of_file here winner.place rfl

/-- An unverified rival of a name that spans files leaves no winner. -/
theorem Placement.rival {rival entry : SkillEntry} (inRival : rival ∈ entries)
    (inLeft : left ∈ entries) (inRight : right ∈ entries) (member : entry ∈ entries)
    (unverified : rival.binding.visibility.isVerified = false)
    (leftNamed : left.binding.invocation.text = rival.binding.invocation.text)
    (rightNamed : right.binding.invocation.text = rival.binding.invocation.text)
    (apart : left.identity ≠ right.identity)
    (named : entry.binding.invocation.text = rival.binding.invocation.text)
    (ends : Ends roster entry binding)
    : binding.visibility.isVerified = false := by
  obtain ⟨rivalPlace, rivalHere⟩ := placement.hasPlace inRival
  obtain ⟨leftPlace, leftHere⟩ := placement.hasPlace inLeft
  obtain ⟨rightPlace, rightHere⟩ := placement.hasPlace inRight
  obtain ⟨place, here⟩ := placement.hasPlace member
  rw [(placement.ends_iff here).mp ends, named]
  refine collide_unverified skills (mem_groupOf rivalHere rfl) unverified
    (mem_groupOf leftHere leftNamed) (mem_groupOf rightHere rightNamed) ?_
  intro file
  exact apart ((placement.file _ leftHere _ rightHere).mpr file)

theorem Placement.sound
    : Sound entries roster where
  bound entry member := by
    obtain ⟨position, here⟩ := placement.hasPlace member
    exact ⟨_, placement.ends_of_place here (placement.settled entry position here)⟩
  oneFile left inLeft right inRight first second named leftEnds rightEnds one two := by
    obtain ⟨leftPlace, leftHere⟩ := placement.hasPlace inLeft
    obtain ⟨rightPlace, rightHere⟩ := placement.hasPlace inRight
    obtain ⟨file, restrictions⟩ :=
      placement.oneFile leftHere rightHere named leftEnds rightEnds one two
    exact ⟨(placement.file _ leftHere _ rightHere).mpr file, restrictions⟩
  advised advised member := by
    obtain ⟨position, place, able, _⟩ := advisory_place member
    obtain ⟨entry, here⟩ := placement.only _ _ place
    obtain ⟨ends, settled⟩ := placement.ends_of_place here place
    obtain ⟨verified, agent⟩ := eligible_iff.mp able
    exact ⟨verified, agent, entry, placement.entry here, settled.id.symm, ends⟩
  advisedOnce := placement.advisedOnce
  named _ _ _ _ answer := placement.named answer
  answered _ member _ _ _ answer := placement.answered member answer
  advisedWins _ member := placement.advisedWins member
  winnerAdvised _ _ _ answer := placement.winnerAdvised answer
  rival _ inRival _ inLeft _ inRight _ member _ unverified leftNamed rightNamed apart named
      ends :=
    placement.rival inRival inLeft inRight member unverified leftNamed rightNamed apart named
      ends

end

end Placed

end SkillRanker.Roster
