import Mathlib.Data.List.Nodup
import SkillRanker.Roster.Registration

/-! The bindings of a resolved roster: each entry has the binding that the collision of its
name leaves.
-/

namespace SkillRanker.Roster

open SkillRanker.Library
open Std

variable {positions : List Position} {placed : List (SkillEntry × Position)}
variable (skills : List ResolvedSkill)

theorem bindingAt_modifyBinding (position place : Position) (change : Binding → Binding)
    : bindingAt (modifyBinding skills position change) place
      = if place = position then (bindingAt skills position).map change
        else bindingAt skills place := by
  rw [bindingAt_eq, bindingAt_eq, bindingAt_eq, modifyBinding]
  by_cases same : place.1 = position.1
  · rw [same, List.getElem?_modify_eq]
    cases known : skills[position.1]? with
    | none => simp
    | some skill =>
        by_cases last : place.2 = position.2
        · rw [if_pos (Prod.ext same last), last]
          exact List.getElem?_modify_eq change position.2 skill.bindings
        · rw [if_neg (fun eq => last (congrArg Prod.snd eq))]
          exact List.getElem?_modify_ne change skill.bindings (Ne.symm last)
  · rw [if_neg (fun eq => same (congrArg Prod.fst eq)),
      List.getElem?_modify_ne _ _ (Ne.symm same)]

theorem recordId_modifyBinding (position : Position) (change : Binding → Binding) (file : Nat)
    : recordId (modifyBinding skills position change) file = recordId skills file := by
  unfold recordId modifyBinding
  by_cases same : file = position.1
  · subst same
    rw [List.getElem?_modify_eq]
    cases skills[position.1]? <;> rfl
  · rw [List.getElem?_modify_ne _ _ (Ne.symm same)]

/-- Changing distinct positions changes each once, by induction on them. -/
theorem modify_all (change : Position → Binding → Binding) (distinct : positions.Nodup)
    (skills : List ResolvedSkill)
    : let changed :=
        positions.foldl (fun skills place => modifyBinding skills place (change place)) skills
      (∀ place,
        bindingAt changed place
        = if place ∈ positions then (bindingAt skills place).map (change place)
          else bindingAt skills place)
      ∧ ∀ file, recordId changed file = recordId skills file := by
  induction positions generalizing skills with
  | nil => simp
  | cons first rest ih =>
      obtain ⟨missing, distinct⟩ := List.nodup_cons.mp distinct
      obtain ⟨bindings, records⟩ := ih distinct (modifyBinding skills first (change first))
      refine ⟨?_, fun file => (records file).trans (recordId_modifyBinding _ _ _ _)⟩
      intro place
      rw [List.foldl_cons, bindings, bindingAt_modifyBinding]
      by_cases same : place = first
      · subst same
        simp [missing]
      · simp [same]

/-- A collision changes the positions of its name alone. -/
theorem bindingAt_resolveCollision (distinct : positions.Nodup) (skills : List ResolvedSkill)
    (place : Position)
    : bindingAt (resolveCollision skills positions) place
      = if place ∈ positions then
          (bindingAt skills place).map (collide skills (groupAt skills positions) place)
        else bindingAt skills place :=
  (modify_all (collide skills (groupAt skills positions)) distinct skills).1 place

theorem recordId_resolveCollision (distinct : positions.Nodup) (skills : List ResolvedSkill)
    (file : Nat)
    : recordId (resolveCollision skills positions) file = recordId skills file :=
  (modify_all (collide skills (groupAt skills positions)) distinct skills).2 file

variable {right left : List ResolvedSkill}

/-- A collision reads the records of its skills by id alone. -/
theorem collide_congr (same : ∀ file, recordId left file = recordId right file)
    (group : List (Position × Binding)) (position : Position) (binding : Binding)
    : collide left group position binding = collide right group position binding := by
  unfold collide
  simp only [same]

theorem groupAt_congr (same : ∀ place ∈ positions, bindingAt left place = bindingAt right place)
    : groupAt left positions = groupAt right positions := by
  unfold groupAt
  refine List.filterMap_congr ?_
  intro place member
  rw [same place member]

variable {checkpoints : Nat → Checkpoint} {clock : Jev.InvocationDeadline}

/-- The collisions of all names, where no position has two: each position gets the end of its
own name, by induction on the names.
-/
theorem resolveNames_ok {passed : Nat} {skills resolved : List ResolvedSkill}
    {named : List (List Position)} (distinct : ∀ positions ∈ named, positions.Nodup)
    (disjoint : named.Pairwise List.Disjoint)
    (done : resolveNames clock checkpoints passed skills named = .ok resolved)
    : (∀ positions ∈ named, ∀ place ∈ positions,
        bindingAt resolved place
        = (bindingAt skills place).map (collide skills (groupAt skills positions) place))
      ∧ (∀ place,
        (∀ positions ∈ named, place ∉ positions)
        → bindingAt resolved place = bindingAt skills place) := by
  induction named generalizing passed skills with
  | nil =>
      cases done
      exact ⟨by simp, fun _ _ => rfl⟩
  | cons first rest ih =>
      simp only [resolveNames, bind_eq_ok] at done
      obtain ⟨_, _, done⟩ := done
      obtain ⟨apart, disjoint⟩ := List.pairwise_cons.mp disjoint
      have here := distinct first List.mem_cons_self
      obtain ⟨inside, outside⟩ :=
        ih (fun positions member => distinct positions (List.mem_cons_of_mem _ member)) disjoint
          done
      have untouched (place : Position) (missing : place ∉ first)
          : bindingAt (resolveCollision skills first) place = bindingAt skills place := by
        rw [bindingAt_resolveCollision here, if_neg missing]
      constructor
      · intro positions member place inPlace
        rcases List.mem_cons.mp member with rfl | later
        · rw [outside place (fun other inRest => apart other inRest inPlace),
            bindingAt_resolveCollision here, if_pos inPlace]
        · have missing (other : Position) (inOther : other ∈ positions) : other ∉ first :=
            fun inFirst => apart positions later inFirst inOther
          rw [inside positions later place inPlace, untouched place (missing place inPlace),
            groupAt_congr (fun other inOther => untouched other (missing other inOther))]
          refine congrArg (fun change => Option.map change (bindingAt skills place)) ?_
          funext binding
          exact collide_congr (recordId_resolveCollision here skills) _ _ _
      · intro place missing
        rw [outside place (fun other inRest => missing other (List.mem_cons_of_mem _ inRest)),
          untouched place (missing first List.mem_cons_self)]

/-- The bindings of a name as they were registered. -/
def groupOf (placed : List (SkillEntry × Position)) (name : String)
    : List (Position × Binding) :=
  (placed.filter (fun entry => entry.1.binding.invocation.text = name)).map
    (fun entry => (entry.2, entry.1.binding))

theorem mem_groupOf {name : String} {entry : SkillEntry} {position : Position}
    (member : (entry, position) ∈ placed) (named : entry.binding.invocation.text = name)
    : (position, entry.binding) ∈ groupOf placed name :=
  List.mem_map.mpr ⟨_, List.mem_filter.mpr ⟨member, by simpa using named⟩, rfl⟩

theorem mem_positionsOf {name : String} {position : Position}
    : position ∈ positionsOf placed name
      ↔ ∃ entry, (entry, position) ∈ placed ∧ entry.binding.invocation.text = name := by
  simp [positionsOf]

/-- The group of a name is what the registry has at its positions, by induction on the
entries.
-/
theorem groupAt_positionsOf {skills : List ResolvedSkill}
    (held
      : ∀ entry position,
          (entry, position) ∈ placed → bindingAt skills position = some entry.binding)
    (name : String)
    : groupAt skills (positionsOf placed name) = groupOf placed name := by
  unfold positionsOf groupOf
  induction placed with
  | nil => rfl
  | cons first rest ih =>
      obtain ⟨entry, position⟩ := first
      have tail := ih (fun other place member => held other place (List.mem_cons_of_mem _ member))
      have here := held entry position List.mem_cons_self
      by_cases named : entry.binding.invocation.text = name
      · simpa [groupAt, named, here] using tail
      · simpa [groupAt, named] using tail

/-- A resolved roster holds each entry, settled among the entries of its name. -/
structure Placement (entries : List SkillEntry) (roster : ResolvedRoster)
    (placed : List (SkillEntry × Position)) (skills : List ResolvedSkill) : Prop where
  sorted : placed.map Prod.fst = sortEntries entries
  distinct
    : (sortEntries entries).Pairwise (fun left right => left.binding.id ≠ right.binding.id)
  ordered
    : placed.Pairwise (fun left right => left.2.1 = right.2.1 → left.2.2 < right.2.2)
  ids
    : ∀ id position,
        roster.ids[id]? = some position
        ↔ ∃ entry, (entry, position) ∈ placed ∧ entry.binding.id = id
  names
    : ∀ name,
        roster.names[name]?
        = if positionsOf placed name = [] then none else some (positionsOf placed name)
  file
    : ∀ left ∈ placed, ∀ right ∈ placed,
        left.1.identity = right.1.identity ↔ left.2.1 = right.2.1
  settled
    : ∀ entry position,
        (entry, position) ∈ placed
        → bindingAt roster.skills position
          = some
              (collide skills (groupOf placed entry.binding.invocation.text) position
                entry.binding)
  only
    : ∀ position binding,
        bindingAt roster.skills position = some binding
        → ∃ entry, (entry, position) ∈ placed

theorem bindingAt_settle (position : Position)
    : bindingAt (skills.map ResolvedSkill.settle) position = bindingAt skills position := by
  rw [bindingAt_eq, bindingAt_eq, List.getElem?_map]
  cases skills[position.1]? with
  | none => rfl
  | some skill =>
      obtain ⟨record, bindings⟩ := skill
      cases bindings <;> rfl

theorem nodup_positionsOf
    (ordered
      : placed.Pairwise (fun left right => left.2.1 = right.2.1 → left.2.2 < right.2.2))
    (name : String)
    : (positionsOf placed name).Nodup := by
  refine List.pairwise_map.mpr ((ordered.filter _).imp ?_)
  intro left right grows same
  rw [same] at grows
  exact Nat.lt_irrefl _ (grows rfl)

theorem resolve_placement {entries : List SkillEntry} {partialCoverage : Bool}
    {roster : ResolvedRoster}
    (done : resolve clock checkpoints entries partialCoverage = .ok roster)
    : ∃ placed skills, Placement entries roster placed skills := by
  simp only [resolve, bind_eq_ok, pure_eq_ok] at done
  obtain ⟨_, _, _, _, _, _, _, _, registry, taken, resolved, settled, _, _, rfl⟩ := done
  obtain ⟨placed, same, registered, distinct, _⟩ := Registered.empty.registerAll taken
  rw [List.nil_append] at registered
  have positions (named : String × List Position) (member : named ∈ registry.names.toList)
      : named.2 = positionsOf placed named.1 := by
    have found := TreeMap.mem_toList_iff_getElem?_eq_some.mp member
    rw [registered.names] at found
    split at found
    · cases found
    · exact (Option.some.inj found).symm
  have nodup (named : List Position) (member : named ∈ registry.names.toList.map Prod.snd)
      : named.Nodup := by
    obtain ⟨entry, inNames, rfl⟩ := List.mem_map.mp member
    rw [positions entry inNames]
    exact nodup_positionsOf registered.ordered entry.1
  have disjoint : (registry.names.toList.map Prod.snd).Pairwise List.Disjoint := by
    refine List.pairwise_map.mpr (TreeMap.distinct_keys_toList.imp_of_mem ?_)
    intro left right inLeft inRight apart place inFirst inSecond
    rw [positions left inLeft] at inFirst
    rw [positions right inRight] at inSecond
    obtain ⟨first, firstPlaced, firstName⟩ := mem_positionsOf.mp inFirst
    obtain ⟨second, secondPlaced, secondName⟩ := mem_positionsOf.mp inSecond
    have equal : first.binding = second.binding :=
      Option.some.inj ((registered.held _ _ firstPlaced).symm.trans
        (registered.held _ _ secondPlaced))
    refine apart ?_
    rw [← firstName, ← secondName, equal]
    exact ReflCmp.compare_self
  obtain ⟨inside, outside⟩ := resolveNames_ok nodup disjoint settled
  have listed (entry : SkillEntry) (position : Position) (member : (entry, position) ∈ placed)
      : positionsOf placed entry.binding.invocation.text
        ∈ registry.names.toList.map Prod.snd := by
    have here := mem_positionsOf.mpr ⟨entry, member, rfl⟩
    let name := entry.binding.invocation.text
    refine List.mem_map.mpr ⟨(name, positionsOf placed name), ?_, rfl⟩
    rw [TreeMap.mem_toList_iff_getElem?_eq_some, registered.names,
      if_neg (List.ne_nil_of_mem here)]
  refine ⟨placed, registry.skills, same, distinct, registered.ordered, registered.ids,
    registered.names, ?_, ?_, ?_⟩
  · intro left inLeft right inRight
    constructor
    · intro equal
      have first := registered.known left.1 left.2 inLeft
      rw [equal, registered.known right.1 right.2 inRight] at first
      exact (Option.some.inj first).symm
    · exact registered.sameFile left inLeft right inRight
  · intro entry position member
    rw [bindingAt_settle, inside _ (listed entry position member) position
      (mem_positionsOf.mpr ⟨entry, member, rfl⟩), registered.held entry position member,
      groupAt_positionsOf registered.held]
    rfl
  · intro position binding found
    rw [bindingAt_settle] at found
    by_cases known : ∃ positions ∈ registry.names.toList.map Prod.snd, position ∈ positions
    · obtain ⟨_, member, inPositions⟩ := known
      obtain ⟨named, inNames, rfl⟩ := List.mem_map.mp member
      rw [positions named inNames] at inPositions
      obtain ⟨entry, placed, _⟩ := mem_positionsOf.mp inPositions
      exact ⟨entry, placed⟩
    · have unnamed (positions : List Position)
          (member : positions ∈ registry.names.toList.map Prod.snd)
          : position ∉ positions :=
        fun inPositions => known ⟨positions, member, inPositions⟩
      rw [outside position unnamed] at found
      obtain ⟨entry, placed, _⟩ := registered.only _ _ found
      exact ⟨entry, placed⟩

end SkillRanker.Roster
