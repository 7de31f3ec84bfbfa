import SkillRanker.Library.Renaming
import SkillRanker.Library.Texts
import SkillRanker.Roster.Soundness

/-! The options of a request: each stands for one advised skill, and no two for the same.
-/

namespace SkillRanker.Roster

open SkillRanker.Library
open Std

variable {roster : ResolvedRoster} {selected : List SkillId} {skills : List AdvisorySkill}

def noneOption : String := "__none__"

/-- `OptionId::new`, by its text. -/
def optionId (text : String) : Except IdentityError String := do
  validateId text
  ensure (text ≠ noneOption) .reservedOption
  return text

/-- The handles of a request, each with its skill. -/
structure OptionMap where
  entries : TreeMap String AdvisorySkill compare
  handles : ∀ handle ∈ entries, optionId handle = .ok handle
  apart
    : ∀ (left right : String) (first second : AdvisorySkill),
        entries[left]? = some first
        → entries[right]? = some second
        → first.binding.id = second.binding.id
        → left = right

def ResolvedRoster.Indexed (roster : ResolvedRoster) : Prop :=
  ∀ id position binding,
    roster.ids[id]? = some position
    → bindingAt roster.skills position = some binding
    → binding.id = id

theorem resolve_indexed {clock : Jev.InvocationDeadline} {checkpoints : Nat → Checkpoint}
    {entries : List SkillEntry} {partialCoverage : Bool}
    (done : resolve clock checkpoints entries partialCoverage = .ok roster)
    : roster.Indexed := by
  obtain ⟨placed, skills, placement⟩ := resolve_placement done
  intro id position binding known here
  obtain ⟨entry, member, rfl⟩ := (placement.ids id position).mp known
  exact (placement.ends_of_place member here).2.id

/-- The skills of the selected ids, in order. A skill is selected once, under any of its ids.
-/
def advisorySkills (roster : ResolvedRoster)
    : List Nat → List SkillId → Except ResolutionError (List AdvisorySkill)
  | _, [] => .ok []
  | seen, id :: rest => do
      let position ← require roster.ids[id]? .ineligibleOption
      let skill ← require roster.skills[position.1]? .ineligibleOption
      let binding ← require skill.bindings[position.2]? .ineligibleOption
      ensure (eligible binding = true) .ineligibleOption
      ensure (position.1 ∉ seen) .duplicateOption
      let others ← advisorySkills roster (position.1 :: seen) rest
      return { record := skill.record, binding := binding } :: others

/-- The selected skills have their own ids, none of a skill that was seen. -/
theorem advisorySkills_apart (indexed : roster.Indexed) {seen : List Nat}
    (done : advisorySkills roster seen selected = .ok skills)
    : skills.Pairwise (fun left right => left.binding.id ≠ right.binding.id)
      ∧ ∀ skill ∈ skills,
          ∃ position, roster.ids[skill.binding.id]? = some position ∧ position.1 ∉ seen := by
  induction selected generalizing seen skills with
  | nil =>
      cases done
      exact ⟨.nil, by simp⟩
  | cons id rest ih =>
      simp only [advisorySkills, bind_eq_ok, require_eq_ok, ensure_eq_ok, pure_eq_ok] at done
      obtain ⟨position, known, skill, atSkill, binding, here, _, _, _, unseen, others, later,
        rfl⟩ := done
      obtain ⟨apart, fresh⟩ := ih later
      have own : binding.id = id := by
        refine indexed id position binding known ?_
        rw [bindingAt_eq, atSkill]
        exact here
      refine ⟨List.pairwise_cons.mpr ⟨?_, apart⟩, ?_⟩
      · intro other member same
        obtain ⟨place, atOther, missing⟩ := fresh other member
        rw [← same, own, known, Option.some.injEq] at atOther
        exact missing (atOther ▸ List.mem_cons_self)
      · intro other member
        rcases List.mem_cons.mp member with rfl | inOthers
        · exact ⟨position, by rw [own, known], unseen⟩
        · obtain ⟨place, atOther, missing⟩ := fresh other inOthers
          exact ⟨place, atOther, fun inSeen => missing (List.mem_cons_of_mem _ inSeen)⟩

def handleText (letter : String) (index : Nat) : String :=
  letter ++ (if index < 10 then "00" else if index < 100 then "0" else "") ++ toString index

def handlesOf (letter : String) (skills : List AdvisorySkill) : List (String × AdvisorySkill) :=
  skills.zipIdx.map (fun entry => (handleText letter entry.2, entry.1))

variable (letter : String)

theorem handlesOf_skills (skills : List AdvisorySkill)
    : (handlesOf letter skills).map Prod.snd = skills := by
  rw [handlesOf, List.map_map]
  exact List.zipIdx_map_fst 0 skills

theorem mem_of_getElem?_ofList {entries : List (String × AdvisorySkill)} {handle : String}
    {skill : AdvisorySkill}
    (found : (TreeMap.ofList entries : TreeMap String AdvisorySkill compare)[handle]? = some skill)
    : (handle, skill) ∈ entries := by
  have inserted (tree : TreeMap String AdvisorySkill compare)
      (found
        : (entries.foldl (fun tree entry => tree.insert entry.1 entry.2) tree)[handle]?
          = some skill)
      : (handle, skill) ∈ entries ∨ tree[handle]? = some skill := by
    clear * - found
    induction entries generalizing tree with
    | nil => exact .inr found
    | cons first rest ih =>
        rcases ih _ found with inRest | inFirst
        · exact .inl (List.mem_cons_of_mem _ inRest)
        · rw [TreeMap.getElem?_insert] at inFirst
          split at inFirst
          · rename_i same
            cases inFirst
            cases LawfulEqCmp.eq_of_compare same
            exact .inl List.mem_cons_self
          · exact .inr inFirst
  rw [TreeMap.ofList_equiv_foldl.getElem?_eq] at found
  rcases inserted ∅ found with member | empty
  · exact member
  · simp at empty

def OptionMap.ofSkills (letter : String) (skills : List AdvisorySkill)
    (apart : skills.Pairwise (fun left right => left.binding.id ≠ right.binding.id))
    : Except ResolutionError OptionMap :=
  if valid : ∀ entry ∈ handlesOf letter skills, optionId entry.1 = .ok entry.1 then
    .ok
      {
        entries := .ofList (handlesOf letter skills)
        handles := by
          intro handle member
          obtain ⟨skill, found⟩ := mem_iff_getElem?.mp member
          exact valid _ (mem_of_getElem?_ofList found)
        apart := by
          intro left right first second inLeft inRight same
          have distinct
              : ((handlesOf letter skills).map (fun entry => entry.2.binding.id)).Nodup := by
            have ids : (skills.map (fun skill => skill.binding.id)).Nodup :=
              List.pairwise_map.mpr apart
            rw [← handlesOf_skills letter skills, List.map_map] at ids
            exact ids
          have equal := List.inj_on_of_nodup_map distinct (mem_of_getElem?_ofList inLeft)
            (mem_of_getElem?_ofList inRight) same
          exact congrArg Prod.fst equal
      }
  else .error .invalidBinding

def sortSkills (skills : List AdvisorySkill) : List AdvisorySkill :=
  skills.mergeSort (fun left right => (compare left.record.id right.record.id).isLE)

theorem sortSkills_apart
    (apart : skills.Pairwise (fun left right => left.binding.id ≠ right.binding.id))
    : (sortSkills skills).Pairwise (fun left right => left.binding.id ≠ right.binding.id) :=
  (List.mergeSort_perm skills _).symm.pairwise apart (fun differ same => differ same.symm)

/-- `OptionMap::new`: the selected skills of an indexed roster, under handles. -/
def OptionMap.new (roster : ResolvedRoster) (indexed : roster.Indexed) (selected : List SkillId)
    : Except ResolutionError OptionMap :=
  if selected.length > 254 then .error .limit
  else
    match chosen : advisorySkills roster [] selected with
    | .error error => .error error
    | .ok skills =>
        OptionMap.ofSkills "o" (sortSkills skills)
          (sortSkills_apart (advisorySkills_apart indexed chosen).1)

/-- The skills of a map, from the last one on, have their own ids. -/
theorem OptionMap.reversed_apart (options : OptionMap)
    : (options.entries.toList.map Prod.snd).reverse.Pairwise fun left right =>
        left.binding.id ≠ right.binding.id := by
  rw [List.pairwise_reverse, List.pairwise_map]
  have keys : options.entries.toList.Pairwise fun left right => left.1 ≠ right.1 := by
    refine TreeMap.distinct_keys_toList.imp ?_
    intro left right differ same
    exact differ (same ▸ ReflCmp.compare_self)
  refine (List.Pairwise.and_mem.mp keys).imp ?_
  rintro ⟨left, one⟩ ⟨right, two⟩ ⟨inLeft, inRight, differ⟩ same
  exact differ (options.apart left right one two
    (TreeMap.mem_toList_iff_getElem?_eq_some.mp inLeft)
    (TreeMap.mem_toList_iff_getElem?_eq_some.mp inRight) same.symm)

/-- `OptionMap::new_renamed`: the same skills from the last one on, under other handles. -/
def OptionMap.newRenamed (roster : ResolvedRoster) (indexed : roster.Indexed)
    (selected : List SkillId)
    : Except ResolutionError OptionMap := do
  let canonical ← OptionMap.new roster indexed selected
  OptionMap.ofSkills "r" (canonical.entries.toList.map Prod.snd).reverse canonical.reversed_apart

-- What a map holds

/-- The handle is the letter with at least three digits. -/
theorem toList_handleText (index : Nat)
    : (handleText letter index).toList = letter.toList ++ decimal 3 index := by
  have digits (width : Nat) (positive : 0 < width)
      : (Nat.toDigits 10 index).length ≤ width ↔ index < 10 ^ width :=
    Nat.length_toDigits_le_iff (by decide) positive
  have one := digits 1 (by decide)
  have two := digits 2 (by decide)
  have some : 0 < (Nat.toDigits 10 index).length := Nat.length_toDigits_pos
  unfold handleText decimal
  rw [String.toList_append, String.toList_append, List.append_assoc, Nat.toString_eq_repr,
    Nat.toList_repr]
  congr 2
  by_cases short : index < 10
  · rw [if_pos short, show 3 - (Nat.toDigits 10 index).length = 2 by omega]
    rfl
  · by_cases middle : index < 100
    · rw [if_neg short, if_pos middle, show 3 - (Nat.toDigits 10 index).length = 1 by omega]
      rfl
    · rw [if_neg short, if_neg middle, show 3 - (Nat.toDigits 10 index).length = 0 by omega]
      rfl

/-- A handle has one index, which is read back from its digits. -/
theorem handleText_injective : Function.Injective (handleText letter) := by
  intro left right same
  have texts := congrArg String.toList same
  rw [toList_handleText, toList_handleText] at texts
  have read := congrArg readDigits (List.append_cancel_left texts)
  rw [readDigits_decimal, readDigits_decimal] at read
  exact Option.some.inj read

theorem handlesOf_distinct (skills : List AdvisorySkill)
    : ((handlesOf letter skills).map Prod.fst).Nodup := by
  have handles
      : (handlesOf letter skills).map Prod.fst
        = (skills.zipIdx.map Prod.snd).map (handleText letter) := by
    rw [handlesOf, List.map_map, List.map_map]
    rfl
  rw [handles, List.zipIdx_map_snd]
  exact List.Nodup.map (handleText_injective letter) List.nodup_range'

def OptionMap.Offers (options : OptionMap) (skill : AdvisorySkill) : Prop :=
  ∃ handle : String, options.entries[handle]? = some skill

variable {options : OptionMap}

theorem OptionMap.mem_ofSkills {letter : String}
    {apart : skills.Pairwise fun left right => left.binding.id ≠ right.binding.id}
    (done : OptionMap.ofSkills letter skills apart = .ok options) (skill : AdvisorySkill)
    : options.Offers skill ↔ skill ∈ skills := by
  unfold OptionMap.ofSkills at done
  split at done
  · cases done
    simp only [OptionMap.Offers, getElem?_ofList_iff (handlesOf_distinct letter skills)]
    rw [← handlesOf_skills letter skills, List.mem_map, handlesOf_skills]
    constructor
    · exact fun ⟨handle, mem⟩ => ⟨_, mem, rfl⟩
    · rintro ⟨⟨handle, _⟩, mem, rfl⟩
      exact ⟨handle, mem⟩
  · cases done

def OptionMap.Holds (options : OptionMap) (selected : List SkillId) : Prop :=
  ∀ id, id ∈ selected ↔ ∃ skill, options.Offers skill ∧ skill.binding.id = id

/-- The selected skills have the selected ids, by induction on the selection. -/
theorem advisorySkills_ids (indexed : roster.Indexed) {seen : List Nat}
    (done : advisorySkills roster seen selected = .ok skills)
    : skills.map (fun skill => skill.binding.id) = selected := by
  induction selected generalizing seen skills with
  | nil =>
      cases done
      rfl
  | cons id rest ih =>
      simp only [advisorySkills, bind_eq_ok, require_eq_ok, ensure_eq_ok, pure_eq_ok] at done
      obtain ⟨position, known, skill, atSkill, binding, here, _, _, _, _, others, later,
        rfl⟩ := done
      rw [List.map_cons, ih later]
      congr 1
      refine indexed id position binding known ?_
      rw [bindingAt_eq, atSkill]
      exact here

/-- A map holds the selected ids where its skills have them. -/
theorem OptionMap.holds_of_skills (inside : ∀ skill, options.Offers skill ↔ skill ∈ skills)
    (ids : ∀ id, id ∈ skills.map (fun skill => skill.binding.id) ↔ id ∈ selected)
    : options.Holds selected := by
  intro id
  rw [← ids, List.mem_map]
  constructor
  · rintro ⟨skill, mem, own⟩
    exact ⟨skill, (inside skill).mpr mem, own⟩
  · rintro ⟨skill, offered, own⟩
    exact ⟨skill, (inside skill).mp offered, own⟩

variable {indexed : roster.Indexed}

theorem OptionMap.holds_new (done : OptionMap.new roster indexed selected = .ok options)
    : options.Holds selected := by
  unfold OptionMap.new at done
  split at done
  · cases done
  · split at done
    · cases done
    next skills chosen =>
        apply OptionMap.holds_of_skills (OptionMap.mem_ofSkills done)
        intro id
        rw [← advisorySkills_ids indexed chosen]
        exact ((List.mergeSort_perm skills _).map _).mem_iff

/-- Other handles hold the same selection. -/
theorem OptionMap.holds_newRenamed
    (done : OptionMap.newRenamed roster indexed selected = .ok options)
    : options.Holds selected := by
  simp only [OptionMap.newRenamed, bind_eq_ok] at done
  obtain ⟨canonical, first, done⟩ := done
  have held := OptionMap.holds_new first
  apply OptionMap.holds_of_skills (OptionMap.mem_ofSkills done)
  intro id
  rw [held id]
  simp only [List.map_reverse, List.mem_reverse, List.map_map, List.mem_map, Function.comp_apply]
  constructor
  · rintro ⟨⟨handle, skill⟩, mem, own⟩
    exact ⟨skill, ⟨handle, TreeMap.mem_toList_iff_getElem?_eq_some.mp mem⟩, own⟩
  · rintro ⟨skill, ⟨handle, found⟩, own⟩
    exact ⟨(handle, skill), TreeMap.mem_toList_iff_getElem?_eq_some.mpr found, own⟩

end SkillRanker.Roster
