import SkillRanker.Roster.Resolution

/-! What becomes of the bindings of one name: at most one file keeps verified bindings, and
no binding gains anything.
-/

namespace SkillRanker.Roster

open SkillRanker.Library

section

variable {group : List (Position × Binding)} {position : Position} {binding : Binding}
  {skills : List ResolvedSkill} {placed : List (SkillEntry × Position)} {registry : Registry}

namespace InvocationRestrictions

theorem Within.refl (restrictions : InvocationRestrictions)
    : restrictions.Within restrictions :=
  ⟨id, id⟩

theorem Within.trans {low middle high : InvocationRestrictions} (first : low.Within middle)
    (second : middle.Within high)
    : low.Within high :=
  ⟨fun agent => second.1 (first.1 agent), fun user => second.2 (first.2 user)⟩

theorem meet_within_left (left right : InvocationRestrictions)
    : (left.meet right).Within left := by
  constructor <;> intro allowed
  · exact (Bool.and_eq_true_iff.mp allowed).1
  · exact (Bool.and_eq_true_iff.mp allowed).1

theorem meet_within_right (left right : InvocationRestrictions)
    : (left.meet right).Within right := by
  constructor <;> intro allowed
  · exact (Bool.and_eq_true_iff.mp allowed).2
  · exact (Bool.and_eq_true_iff.mp allowed).2

end InvocationRestrictions

/-- A merge allows nothing that it did not start with or that one of its group does not, by
induction on the group.
-/
theorem merge_within (group : List (Position × Binding)) (start : InvocationRestrictions)
    : let merged := group.foldl (fun merged entry => merged.meet entry.2.restrictions) start
      merged.Within start ∧ ∀ entry ∈ group, merged.Within entry.2.restrictions := by
  induction group generalizing start with
  | nil => exact ⟨.refl start, by simp⟩
  | cons first rest ih =>
      obtain ⟨kept, each⟩ := ih (start.meet first.2.restrictions)
      refine ⟨kept.trans (InvocationRestrictions.meet_within_left _ _), ?_⟩
      intro entry member
      rcases List.mem_cons.mp member with rfl | later
      · exact kept.trans (InvocationRestrictions.meet_within_right _ _)
      · exact each entry later

theorem mergeRestrictions_within {entry : Position × Binding} (member : entry ∈ group)
    : (mergeRestrictions group).Within entry.2.restrictions :=
  (merge_within group .free).2 entry member

/-- A list with one distinct value has no other. -/
theorem eq_of_eraseDups_length {values : List Nat} (one : values.eraseDups.length = 1)
    {left right : Nat} (first : left ∈ values) (second : right ∈ values)
    : left = right := by
  obtain ⟨only, eq⟩ := List.length_eq_one_iff.mp one
  rw [← List.mem_eraseDups, eq, List.mem_singleton] at first second
  exact first.trans second.symm

/-- The three ends of a collision, for the bindings of a group. -/
inductive Collided (skills : List ResolvedSkill) (group : List (Position × Binding)) : Prop
  | oneFile
    (single
      : ∀ left ∈ group, ∀ right ∈ group, left.1.1 = right.1.1)
    (settled
      : ∀ position binding,
          collide skills group position binding
          = { binding with restrictions := mergeRestrictions group })
  | won (file : Nat) (contract : Visibility)
    (agreed
      : ∀ entry ∈ group, entry.2.visibility = contract ∧ contract.isVerified = true)
    (settled
      : ∀ position binding,
          collide skills group position binding
          = if file ≠ position.1 ∨ binding.priority ≠ highest group then
              { binding with visibility := .shadowed (recordId skills file) }
            else
              {
                binding with
                restrictions :=
                  mergeRestrictions
                    (group.filter
                      (fun entry => entry.1.1 = file && entry.2.priority = highest group))
              })
  | ambiguous
    (settled
      : ∀ position binding,
          collide skills group position binding
          = { binding with visibility := .ambiguous })

variable (skills)

/-- Every collision ends in one of the three. -/
theorem collided (nonempty : group ≠ [])
    : Collided skills group := by
  cases group with
  | nil => exact absurd rfl nonempty
  | cons entry rest =>
      obtain ⟨place, first⟩ := entry
      by_cases one
          : (((place, first) :: rest).map (fun entry => entry.1.1)).eraseDups.length = 1
      · refine .oneFile ?_ ?_
        · intro left inLeft right inRight
          exact eq_of_eraseDups_length one (List.mem_map_of_mem inLeft)
            (List.mem_map_of_mem inRight)
        · intro position binding
          simp only [collide]
          rw [if_pos one]
      · cases found : winner first ((place, first) :: rest) with
        | none =>
            refine .ambiguous ?_
            intro position binding
            simp only [collide]
            rw [if_neg one, found]
        | some file =>
            unfold winner at found
            split at found
            · rename_i decided
              have agree := decided.1
              simp only [comparable, Bool.and_eq_true, List.all_eq_true, decide_eq_true_eq]
                at agree
              refine .won file first.visibility ?_ ?_
              · intro entry member
                exact ⟨(agree.2 entry member).1, agree.1⟩
              · intro position binding
                have again : winner first ((place, first) :: rest) = some file := by
                  rw [winner, if_pos decided]
                  exact found
                simp only [collide]
                rw [if_neg one, again]
            · cases found

/-- What a collision leaves of a binding. -/
structure Settled (before after : Binding) : Prop where
  id : after.id = before.id
  source : after.source = before.source
  invocation : after.invocation = before.invocation
  priority : after.priority = before.priority
  restrictions : after.restrictions.Within before.restrictions
  visibility : after.visibility.isVerified = true → after.visibility = before.visibility

/-- A collision leaves each of its bindings as it was or weaker. -/
theorem collide_settled (member : (position, binding) ∈ group)
    : Settled binding (collide skills group position binding) := by
  cases collided skills (List.ne_nil_of_mem member) with
  | oneFile _ settled =>
      rw [settled]
      exact ⟨rfl, rfl, rfl, rfl, mergeRestrictions_within member, fun _ => rfl⟩
  | won file contract _ settled =>
      rw [settled]
      split
      · exact ⟨rfl, rfl, rfl, rfl, .refl _, fun verified => by cases verified⟩
      · rename_i kept
        simp only [not_or, not_not] at kept
        refine ⟨rfl, rfl, rfl, rfl, ?_, fun _ => rfl⟩
        exact mergeRestrictions_within
          (List.mem_filter.mpr ⟨member, by simp [kept.1, kept.2]⟩)
  | ambiguous settled =>
      rw [settled]
      exact ⟨rfl, rfl, rfl, rfl, .refl _, fun verified => by cases verified⟩

variable {skills}

variable {left right : Position × Binding}

variable (skills)

/-- Two bindings of a name that are verified in the end are of one file and allow the same.
-/
theorem collide_verified (inLeft : left ∈ group) (inRight : right ∈ group)
    (first : (collide skills group left.1 left.2).visibility.isVerified = true)
    (second : (collide skills group right.1 right.2).visibility.isVerified = true)
    : left.1.1 = right.1.1
      ∧ (collide skills group left.1 left.2).restrictions
        = (collide skills group right.1 right.2).restrictions := by
  cases collided skills (List.ne_nil_of_mem inLeft) with
  | oneFile single settled =>
      rw [settled, settled]
      exact ⟨single left inLeft right inRight, rfl⟩
  | won file contract _ settled =>
      rw [settled] at first second
      rw [settled, settled]
      split at first
      · cases first
      · split at second
        · cases second
        · rename_i leftKept rightKept
          rw [if_neg leftKept, if_neg rightKept]
          simp only [not_or, not_not] at leftKept rightKept
          exact ⟨leftKept.1.symm.trans rightKept.1, rfl⟩
  | ambiguous settled =>
      rw [settled] at first
      cases first

/-- An unverified binding of a name that spans files leaves no verified one. -/
theorem collide_unverified {rival : Position × Binding} (inRival : rival ∈ group)
    (unverified : rival.2.visibility.isVerified = false) (inLeft : left ∈ group)
    (inRight : right ∈ group) (apart : left.1.1 ≠ right.1.1)
    : (collide skills group position binding).visibility.isVerified = false := by
  cases collided skills (List.ne_nil_of_mem inRival) with
  | oneFile single _ => exact absurd (single left inLeft right inRight) apart
  | won file contract agreed _ =>
      obtain ⟨same, verified⟩ := agreed rival inRival
      rw [same, verified] at unverified
      cases unverified
  | ambiguous settled =>
      rw [settled]
      rfl

end

-- Where the registered entries are: entries share a skill exactly when they are of one file

open Std

def positionsOf (placed : List (SkillEntry × Position)) (name : String) : List Position :=
  (placed.filter (fun entry => entry.1.binding.invocation.text = name)).map Prod.snd

/-- A registry holds exactly the entries it registered, each at its position. -/
structure Registered (placed : List (SkillEntry × Position)) (registry : Registry) : Prop where
  held
    : ∀ entry position,
        (entry, position) ∈ placed
        → bindingAt registry.skills position = some entry.binding
  only
    : ∀ position binding,
        bindingAt registry.skills position = some binding
        → ∃ entry, (entry, position) ∈ placed ∧ entry.binding = binding
  ordered
    : placed.Pairwise (fun left right => left.2.1 = right.2.1 → left.2.2 < right.2.2)
  ids
    : ∀ id position,
        registry.ids[id]? = some position
        ↔ ∃ entry, (entry, position) ∈ placed ∧ entry.binding.id = id
  names
    : ∀ name,
        registry.names[name]?
        = if positionsOf placed name = [] then none else some (positionsOf placed name)
  known
    : ∀ entry position,
        (entry, position) ∈ placed → registry.skillOf entry.identity = some position.1
  found
    : ∀ identity file,
        registry.skillOf identity = some file
        → ∃ entry position,
            (entry, position) ∈ placed ∧ entry.identity = identity ∧ position.1 = file
  sameFile
    : ∀ left ∈ placed, ∀ right ∈ placed,
        left.2.1 = right.2.1 → left.1.identity = right.1.identity

theorem bindingAt_eq (skills : List ResolvedSkill) (position : Position)
    : bindingAt skills position
      = skills[position.1]?.bind (fun skill => skill.bindings[position.2]?) := rfl

theorem bindingAt_lt (found : bindingAt skills position = some binding)
    : ∃ skill,
        skills[position.1]? = some skill
        ∧ position.2 < skill.bindings.length := by
  rw [bindingAt_eq] at found
  obtain ⟨skill, known, lookup⟩ := Option.bind_eq_some_iff.mp found
  obtain ⟨within, _⟩ := List.getElem?_eq_some_iff.mp lookup
  exact ⟨skill, known, within⟩

/-- Adding a binding to a skill adds it behind the others. -/
theorem bindingAt_append {file : Nat} {skill : ResolvedSkill} (known : skills[file]? = some skill)
    (binding : Binding) (position : Position)
    : bindingAt
        (skills.modify file (fun skill => { skill with bindings := skill.bindings ++ [binding] }))
        position
      = if position = (file, skill.bindings.length) then some binding
        else bindingAt skills position := by
  obtain ⟨place, index⟩ := position
  rw [bindingAt_eq, bindingAt_eq]
  by_cases same : place = file
  · subst same
    rw [List.getElem?_modify_eq, known]
    change (skill.bindings ++ [binding])[index]?
      = if _ then _ else skill.bindings[index]?
    simp only [Prod.mk.injEq, true_and]
    by_cases last : index = skill.bindings.length
    · rw [if_pos last, last, List.getElem?_append_right (Nat.le_refl _), Nat.sub_self]
      rfl
    · rw [if_neg last]
      by_cases within : index < skill.bindings.length
      · exact List.getElem?_append_left within
      · rw [List.getElem?_eq_none (by rw [List.length_append, List.length_singleton]; omega),
          List.getElem?_eq_none (by omega)]
  · have differs : ¬ (place, index) = (file, skill.bindings.length) :=
      fun eq => same (congrArg Prod.fst eq)
    rw [if_neg differs, List.getElem?_modify_ne _ _ (Ne.symm same)]

theorem positionsOf_snoc (placed : List (SkillEntry × Position)) (entry : SkillEntry)
    (position : Position) (name : String)
    : positionsOf (placed ++ [(entry, position)]) name
      = if entry.binding.invocation.text = name then positionsOf placed name ++ [position]
        else positionsOf placed name := by
  by_cases same : entry.binding.invocation.text = name <;>
    simp [positionsOf, List.filter_append, same]

theorem Registered.empty : Registered [] Registry.empty := by
  refine ⟨by simp, ?_, .nil, ?_, ?_, by simp, ?_, by simp⟩
  · intro position binding found
    simp [bindingAt_eq, Registry.empty] at found
  · intro id position
    simp [Registry.empty]
  · intro name
    simp [Registry.empty, positionsOf]
  · intro identity file found
    simp [Registry.skillOf, Registry.empty] at found

theorem mem_placed_snoc {other : SkillEntry × Position} {entry : SkillEntry}
    : other ∈ placed ++ [(entry, position)] ↔ other ∈ placed ∨ other = (entry, position) := by
  rw [List.mem_append, List.mem_singleton]

/-- Before its binding is added: `known` is the registry with the file of an entry looked up or
added, and `skill` is the one of that file.
-/
structure Located (placed : List (SkillEntry × Position)) (registry known : Registry)
    (skills : List ResolvedSkill) (entry : SkillEntry) (file : Nat) (skill : ResolvedSkill)
    : Prop where
  ids : known.ids = registry.ids
  names : known.names = registry.names
  absent : registry.ids[entry.binding.id]? = none
  kept : ∀ position, bindingAt skills position = bindingAt registry.skills position
  there : skills[file]? = some skill
  here : known.skillOf entry.identity = some file
  still
    : ∀ identity other,
        registry.skillOf identity = some other → known.skillOf identity = some other
  nothing
    : ∀ identity other,
        known.skillOf identity = some other
        → identity = entry.identity ∧ other = file ∨ registry.skillOf identity = some other
  alone : ∀ other ∈ placed, other.2.1 = file → other.1.identity = entry.identity

section Located

variable {known : Registry} {entry : SkillEntry} {file : Nat} {skill : ResolvedSkill}
variable (located : Located placed registry known skills entry file skill)
include located

theorem Located.lookup (position : Position)
    : bindingAt (known.bind skills file entry.binding).skills position
      = if position = (file, skill.bindings.length) then some entry.binding
        else bindingAt registry.skills position := by
  rw [← located.kept]
  exact bindingAt_append located.there entry.binding position

theorem Located.index
    : (skills[file]?.map (fun skill => skill.bindings.length)).getD 0 = skill.bindings.length := by
  rw [located.there]
  rfl

theorem Located.bind_ids
    : (known.bind skills file entry.binding).ids
      = registry.ids.insert entry.binding.id (file, skill.bindings.length) := by
  rw [← located.ids, ← located.index]
  rfl

theorem Located.bind_names
    : (known.bind skills file entry.binding).names
      = registry.names.insert entry.binding.invocation.text
          (registry.names.getD entry.binding.invocation.text []
            ++ [(file, skill.bindings.length)]) := by
  rw [← located.names, ← located.index]
  rfl

omit located in
theorem Registered.names_getD (registered : Registered placed registry) (name : String)
    : registry.names.getD name [] = positionsOf placed name := by
  rw [TreeMap.getD_eq_getD_getElem?, registered.names]
  split
  next none =>
    rw [none]
    rfl
  next => rfl

variable (registered : Registered placed registry)
include registered

/-- The position behind the bindings of the skill is not taken. -/
theorem Located.ne_position {other : SkillEntry} {position : Position}
    (member : (other, position) ∈ placed)
    : position ≠ (file, skill.bindings.length) := by
  rintro rfl
  have unused : bindingAt registry.skills (file, skill.bindings.length) = none := by
    rw [← located.kept, bindingAt_eq, located.there]
    exact List.getElem?_eq_none (Nat.le_refl _)
  cases unused.symm.trans (registered.held _ _ member)

theorem Located.held (other : SkillEntry) (position : Position)
    (member : (other, position) ∈ placed ++ [(entry, (file, skill.bindings.length))])
    : bindingAt (known.bind skills file entry.binding).skills position = some other.binding := by
  rw [located.lookup]
  rcases mem_placed_snoc.mp member with old | new
  · rw [if_neg (located.ne_position registered old)]
    exact registered.held _ _ old
  · cases new
    rw [if_pos rfl]

theorem Located.only (position : Position) (binding : Binding)
    (found : bindingAt (known.bind skills file entry.binding).skills position = some binding)
    : ∃ other,
        (other, position) ∈ placed ++ [(entry, (file, skill.bindings.length))]
        ∧ other.binding = binding := by
  rw [located.lookup] at found
  split at found
  next same =>
    subst same
    cases found
    exact ⟨entry, mem_placed_snoc.mpr (.inr rfl), rfl⟩
  next =>
    obtain ⟨other, member, same⟩ := registered.only _ _ found
    exact ⟨other, mem_placed_snoc.mpr (.inl member), same⟩

/-- The new binding is behind those of its file. -/
theorem Located.ordered
    : (placed ++ [(entry, (file, skill.bindings.length))]).Pairwise
        (fun left right => left.2.1 = right.2.1 → left.2.2 < right.2.2) := by
  refine List.pairwise_append.mpr ⟨registered.ordered, List.pairwise_singleton _ _, ?_⟩
  intro earlier member later last same
  cases List.mem_singleton.mp last
  have found := registered.held earlier.1 earlier.2 member
  rw [← located.kept] at found
  obtain ⟨other, there, within⟩ := bindingAt_lt found
  rw [show earlier.2.1 = file from same, located.there] at there
  cases there
  exact within

theorem Located.ids_iff (id : SkillId) (position : Position)
    : (known.bind skills file entry.binding).ids[id]? = some position
      ↔ ∃ other,
          (other, position) ∈ placed ++ [(entry, (file, skill.bindings.length))]
          ∧ other.binding.id = id := by
  rw [located.bind_ids, TreeMap.getElem?_insert]
  by_cases same : entry.binding.id = id
  · subst same
    rw [if_pos ReflCmp.compare_self]
    constructor
    · intro found
      cases found
      exact ⟨entry, mem_placed_snoc.mpr (.inr rfl), rfl⟩
    · rintro ⟨other, member, same⟩
      rcases mem_placed_snoc.mp member with old | new
      · cases located.absent.symm.trans ((registered.ids _ _).mpr ⟨other, old, same⟩)
      · cases new
        rfl
  · rw [if_neg (fun eq => same (LawfulEqCmp.eq_of_compare eq)), registered.ids]
    constructor
    · rintro ⟨other, member, found⟩
      exact ⟨other, mem_placed_snoc.mpr (.inl member), found⟩
    · rintro ⟨other, member, found⟩
      rcases mem_placed_snoc.mp member with old | new
      · exact ⟨other, old, found⟩
      · cases new
        exact absurd found same

theorem Located.names_eq (name : String)
    : (known.bind skills file entry.binding).names[name]?
      = if positionsOf (placed ++ [(entry, (file, skill.bindings.length))]) name = [] then none
        else some (positionsOf (placed ++ [(entry, (file, skill.bindings.length))]) name) := by
  rw [located.bind_names, TreeMap.getElem?_insert, positionsOf_snoc, registered.names_getD]
  by_cases same : entry.binding.invocation.text = name
  · subst same
    rw [if_pos ReflCmp.compare_self, if_pos rfl]
    simp
  · rw [if_neg (fun eq => same (LawfulEqCmp.eq_of_compare eq)), if_neg same, registered.names]

theorem Located.found (identity : FileIdentity) (other : Nat)
    (found : known.skillOf identity = some other)
    : ∃ entry' position,
        (entry', position) ∈ placed ++ [(entry, (file, skill.bindings.length))]
        ∧ entry'.identity = identity
        ∧ position.1 = other := by
  rcases located.nothing identity other found with ⟨rfl, rfl⟩ | old
  · exact ⟨entry, _, mem_placed_snoc.mpr (.inr rfl), rfl, rfl⟩
  · obtain ⟨entry', position, member, facts⟩ := registered.found identity other old
    exact ⟨entry', position, mem_placed_snoc.mpr (.inl member), facts⟩

theorem Located.sameFile (left right : SkillEntry × Position)
    (inLeft : left ∈ placed ++ [(entry, (file, skill.bindings.length))])
    (inRight : right ∈ placed ++ [(entry, (file, skill.bindings.length))])
    (same : left.2.1 = right.2.1)
    : left.1.identity = right.1.identity := by
  rcases mem_placed_snoc.mp inLeft with oldLeft | rfl <;>
    rcases mem_placed_snoc.mp inRight with oldRight | rfl
  · exact registered.sameFile left oldLeft right oldRight same
  · exact located.alone left oldLeft same
  · exact (located.alone right oldRight same.symm).symm
  · rfl

/-- A binding added to the skill of its file keeps the registry. -/
theorem Located.bind
    : Registered (placed ++ [(entry, (file, skill.bindings.length))])
        (known.bind skills file entry.binding) where
  held := located.held registered
  only := located.only registered
  ordered := located.ordered registered
  ids := located.ids_iff registered
  names := located.names_eq registered
  known := by
    intro other position member
    rcases mem_placed_snoc.mp member with old | new
    · exact located.still _ _ (registered.known _ _ old)
    · cases new
      exact located.here
  found := located.found registered
  sameFile := by
    intro left inLeft right inRight same
    exact located.sameFile registered left right inLeft inRight same

end Located

/-- A lookup in a longer list of files. -/
theorem skillOf_snoc (registry : Registry) (identity other : FileIdentity) (file : Nat)
    : { registry with physical := registry.physical ++ [(identity, file)] }.skillOf other
      = (registry.skillOf other).or (if other = identity then some file else none) := by
  unfold Registry.skillOf
  rw [List.find?_append, Option.map_or]
  by_cases same : other = identity
  · subst same
    simp
  · simp [same, Ne.symm same]

/-- A file that is known is looked up, and its skill keeps its bindings under any new record. -/
theorem Registered.located_seen (registered : Registered placed registry) {entry : SkillEntry}
    {file : Nat} (seen : registry.skillOf entry.identity = some file)
    (absent : registry.ids[entry.binding.id]? = none) (renew : SkillRecord → SkillRecord)
    : ∃ skill,
        Located placed registry registry
          (registry.skills.modify file fun skill => { skill with record := renew skill.record })
          entry file skill := by
  obtain ⟨witness, position, member, identity, here⟩ := registered.found _ _ seen
  obtain ⟨skill, known, _⟩ := bindingAt_lt (registered.held _ _ member)
  rw [here] at known
  refine ⟨{ skill with record := renew skill.record }, rfl, rfl, absent, ?_, ?_, seen,
    fun _ _ found => found, fun _ _ found => .inr found, ?_⟩
  · intro place
    rw [bindingAt_eq, bindingAt_eq]
    by_cases same : place.1 = file
    · rw [same, List.getElem?_modify_eq, known]
      rfl
    · rw [List.getElem?_modify_ne _ _ (Ne.symm same)]
  · rw [List.getElem?_modify_eq, known]
    rfl
  · intro other inOther same
    have alike := registered.sameFile other inOther (witness, position) member
      (same.trans here.symm)
    exact alike.trans identity

/-- A file that is not known is added, with a skill without bindings. -/
theorem Registered.located_new (registered : Registered placed registry) {entry : SkillEntry}
    (unseen : registry.skillOf entry.identity = none)
    (absent : registry.ids[entry.binding.id]? = none)
    : Located placed registry
        { registry with
          physical := registry.physical ++ [(entry.identity, registry.skills.length)] }
        (registry.skills ++ [{ record := entry.record, bindings := [] }]) entry
        registry.skills.length { record := entry.record, bindings := [] } := by
  refine ⟨rfl, rfl, absent, ?_, ?_, ?_, ?_, ?_, ?_⟩
  · intro place
    rw [bindingAt_eq, bindingAt_eq]
    by_cases within : place.1 < registry.skills.length
    · rw [List.getElem?_append_left within]
    · by_cases last : place.1 = registry.skills.length
      · simp [last]
      · rw [List.getElem?_eq_none (by rw [List.length_append, List.length_singleton]; omega),
          List.getElem?_eq_none (by omega)]
  · simp
  · rw [skillOf_snoc, unseen]
    simp
  · intro identity other found
    rw [skillOf_snoc, found]
    rfl
  · intro identity other found
    rw [skillOf_snoc] at found
    cases known : registry.skillOf identity with
    | some file =>
        rw [known] at found
        exact .inr found
    | none =>
        rw [known] at found
        simp only [Option.none_or, Option.ite_none_right_eq_some, Option.some.injEq] at found
        exact .inl ⟨found.1, found.2.symm⟩
  · intro other member same
    obtain ⟨skill, known, _⟩ := bindingAt_lt (registered.held _ _ member)
    obtain ⟨within, _⟩ := List.getElem?_eq_some_iff.mp known
    omega

/-- A registered entry has its position, behind those of the same name and file. -/
theorem Registered.register {next : Registry} (registered : Registered placed registry)
    {entry : SkillEntry} (accepted : registry.register entry = .ok next)
    : ∃ position,
        Registered (placed ++ [(entry, position)]) next
        ∧ ∀ other ∈ placed, other.1.binding.id ≠ entry.binding.id := by
  unfold Registry.register at accepted
  split at accepted
  · cases accepted
  rename_i unknown
  have absent : registry.ids[entry.binding.id]? = none := by
    refine TreeMap.getElem?_eq_none ?_
    simpa [TreeMap.contains_iff_mem] using unknown
  have unshared (other : SkillEntry × Position) (member : other ∈ placed)
      : other.1.binding.id ≠ entry.binding.id := by
    intro same
    cases absent.symm.trans ((registered.ids _ _).mpr ⟨other.1, member, same⟩)
  split at accepted
  · rename_i file seen
    split at accepted
    · cases accepted
    cases accepted
    let also : SkillAlias :=
      { source := entry.binding.source, invocation := entry.binding.invocation }
    obtain ⟨skill, located⟩ := registered.located_seen seen absent fun record =>
      { record with aliases := record.aliases ++ [also] }
    exact ⟨_, located.bind registered, unshared⟩
  · rename_i unseen
    cases accepted
    exact ⟨_, (registered.located_new unseen absent).bind registered, unshared⟩

/-- All entries are registered in turn, and no two share an id, by induction on them. -/
theorem Registered.registerAll {clock : Jev.InvocationDeadline} {checkpoints : Nat → Checkpoint}
    {passed : Nat} {final : Registry} {entries : List SkillEntry}
    (registered : Registered placed registry)
    (accepted : registerAll clock checkpoints passed registry entries = .ok final)
    : ∃ added : List (SkillEntry × Position),
        added.map Prod.fst = entries
        ∧ Registered (placed ++ added) final
        ∧ entries.Pairwise (fun left right => left.binding.id ≠ right.binding.id)
        ∧ ∀ earlier ∈ placed, ∀ entry ∈ entries,
            earlier.1.binding.id ≠ entry.binding.id := by
  induction entries generalizing passed placed registry with
  | nil =>
      cases accepted
      exact ⟨[], rfl, by simpa using registered, .nil, by simp⟩
  | cons entry rest ih =>
      simp only [Roster.registerAll, bind_eq_ok] at accepted
      obtain ⟨_, _, next, taken, later⟩ := accepted
      obtain ⟨position, here, unshared⟩ := registered.register taken
      obtain ⟨added, same, there, distinct, apart⟩ := ih here later
      refine ⟨(entry, position) :: added, by rw [List.map_cons, same], ?_, ?_, ?_⟩
      · simpa using there
      · refine List.pairwise_cons.mpr ⟨?_, distinct⟩
        intro other member
        exact apart _ (List.mem_append_right _ (List.mem_singleton.mpr rfl)) other member
      · intro earlier member other inOther
        rcases List.mem_cons.mp inOther with rfl | inRest
        · exact unshared earlier member
        · exact apart earlier (List.mem_append_left _ member) other inRest

end SkillRanker.Roster
