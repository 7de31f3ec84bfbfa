import Mathlib.Data.List.Nodup
import Mathlib.Data.Prod.Basic
import Mathlib.Logic.Equiv.Defs
import Std.Data.TreeMap.Lemmas
import SkillRanker.Library.Fallible

/-! Maps whose keys are renamed by a bijection, and results that do not see the renaming. -/

namespace SkillRanker.Library

open Std

variable {α β γ : Type} {cmp : α → α → Ordering}

/-- `right` is `left` under new keys. -/
def Renamed (rename : Equiv.Perm α) (left right : TreeMap α β cmp) : Prop :=
  ∀ key, right[rename key]? = left[key]?

variable {rename : Equiv.Perm α} {left right : TreeMap α β cmp}

theorem Renamed.symm (renamed : Renamed rename left right)
    : Renamed rename.symm right left := by
  intro key
  rw [← renamed (rename.symm key), Equiv.apply_symm_apply]

section Lawful

variable [TransCmp cmp]
variable {key : α}

theorem mem_iff_getElem? {tree : TreeMap α β cmp}
    : key ∈ tree ↔ ∃ value, tree[key]? = some value := by
  rw [← Option.isSome_iff_exists, ← TreeMap.isSome_getElem?_iff_mem]

variable {rename : Equiv.Perm α} {left right : TreeMap α β cmp}

/-- A renamed key is present where its original is. -/
theorem Renamed.mem (renamed : Renamed rename left right)
    : rename key ∈ right ↔ key ∈ left := by
  rw [mem_iff_getElem?, mem_iff_getElem?, renamed]

theorem nodup_toList (tree : TreeMap α β cmp) : tree.toList.Nodup := by
  refine List.Nodup.of_map Prod.fst ?_
  rw [TreeMap.map_fst_toList_eq_keys]
  exact TreeMap.nodup_keys

variable [LawfulEqCmp cmp]

/-- A renamed map has the entries of its original, in some order. -/
theorem Renamed.toList_perm (renamed : Renamed rename left right)
    : (left.toList.map (Prod.map rename id)).Perm right.toList := by
  have injective : Function.Injective (Prod.map rename (id : β → β)) :=
    Function.Injective.prodMap rename.injective Function.injective_id
  refine (List.perm_ext_iff_of_nodup ((nodup_toList left).map injective)
    (nodup_toList right)).mpr ?_
  rintro ⟨key, value⟩
  rw [TreeMap.mem_toList_iff_getElem?_eq_some, List.mem_map]
  constructor
  · rintro ⟨⟨original, _⟩, member, same⟩
    cases same
    rw [id, renamed]
    exact TreeMap.mem_toList_iff_getElem?_eq_some.mp member
  · intro found
    refine ⟨(rename.symm key, value), ?_, by simp⟩
    rw [TreeMap.mem_toList_iff_getElem?_eq_some, ← renamed, Equiv.apply_symm_apply]
    exact found

/-- Maps have one list of keys where they have the same keys. -/
theorem keys_eq_iff {right : TreeMap α γ cmp}
    : left.keys = right.keys ↔ ∀ key, key ∈ left ↔ key ∈ right := by
  constructor
  · intro same key
    rw [← TreeMap.mem_keys, ← TreeMap.mem_keys, same]
  · intro same
    refine List.Perm.eq_of_pairwise ?_ TreeMap.ordered_keys TreeMap.ordered_keys ?_
    · intro one two _ _ less more
      exact absurd more (OrientedCmp.not_lt_of_lt less)
    · refine (List.perm_ext_iff_of_nodup TreeMap.nodup_keys TreeMap.nodup_keys).mpr ?_
      intro key
      rw [TreeMap.mem_keys, TreeMap.mem_keys, same]

theorem getElem?_ofList_iff {entries : List (α × β)} (distinct : (entries.map Prod.fst).Nodup)
    {value : β}
    : (TreeMap.ofList entries cmp)[key]? = some value ↔ (key, value) ∈ entries := by
  have apart : entries.Pairwise (fun left right => ¬ cmp left.1 right.1 = .eq) := by
    refine (List.pairwise_map.mp distinct).imp ?_
    intro left right differ same
    exact differ (LawfulEqCmp.eq_of_compare same)
  have held {key : α} {value : β} (member : (key, value) ∈ entries)
      : (TreeMap.ofList entries cmp)[key]? = some value :=
    TreeMap.getElem?_ofList_of_mem ReflCmp.compare_self apart member
  constructor
  · intro found
    classical
    by_cases known : key ∈ entries.map Prod.fst
    · obtain ⟨⟨_, other⟩, member, rfl⟩ := List.mem_map.mp known
      rw [held member, Option.some.injEq] at found
      rwa [← found]
    · let _ : BEq α := instBEqOfDecidableEq
      have _ : LawfulBEqCmp cmp := inferInstance
      rw [TreeMap.getElem?_ofList_of_contains_eq_false (by simpa using known)] at found
      cases found
  · exact held

/-- A map of one entry holds it alone. -/
theorem getElem?_ofList_singleton {known : α} {held value : β}
    : (TreeMap.ofList [(known, held)] cmp)[key]? = some value ↔ key = known ∧ value = held := by
  have distinct : ([(known, held)].map Prod.fst).Nodup := List.nodup_singleton known
  rw [getElem?_ofList_iff distinct, List.mem_singleton, Prod.mk.injEq]

theorem Renamed.ofList {left right : List (α × β)} (distinct : (left.map Prod.fst).Nodup)
    (same : right.Perm (left.map (Prod.map rename id)))
    : Renamed rename (TreeMap.ofList left cmp) (TreeMap.ofList right cmp) := by
  have others : (right.map Prod.fst).Nodup := by
    rw [(same.map Prod.fst).nodup_iff, List.map_map]
    have names : Prod.fst ∘ Prod.map rename (id : β → β) = rename ∘ Prod.fst := rfl
    rw [names, ← List.map_map]
    exact distinct.map rename.injective
  intro key
  refine Option.ext ?_
  intro value
  rw [getElem?_ofList_iff others, getElem?_ofList_iff distinct, same.mem_iff, List.mem_map]
  constructor
  · rintro ⟨⟨original, other⟩, member, renamed⟩
    obtain ⟨names, rfl⟩ := Prod.mk.inj renamed
    rw [← rename.injective names]
    exact member
  · intro member
    exact ⟨(key, value), member, rfl⟩

end Lawful

/-- Each element of a related list is related to one of the other. -/
theorem forall₂_of_mem {related : α → β → Prop} {left : List α} {right : List β}
    (each : List.Forall₂ related left right) {element : β} (member : element ∈ right)
    : ∃ other ∈ left, related other element := by
  induction each with
  | nil => cases member
  | cons here _ ih =>
      rcases List.mem_cons.mp member with rfl | later
      · exact ⟨_, List.mem_cons_self, here⟩
      · obtain ⟨other, inRest, same⟩ := ih later
        exact ⟨other, List.mem_cons_of_mem _ inRest, same⟩

variable {view : α → Option β}

/-- A lookup of all elements finds the same in another order. -/
theorem mapM_perm {left right : List α} (same : left.Perm right) {found : List β}
    (done : left.mapM view = some found)
    : ∃ others, right.mapM view = some others ∧ found.Perm others := by
  induction same generalizing found with
  | nil => exact ⟨found, done, .refl _⟩
  | cons first _ ih =>
      simp only [List.mapM_cons, bind, Option.bind_eq_some_iff, pure, Option.some.injEq] at done ⊢
      obtain ⟨one, here, rest, later, rfl⟩ := done
      obtain ⟨others, there, perm⟩ := ih later
      exact ⟨one :: others, ⟨one, here, others, there, rfl⟩, perm.cons one⟩
  | swap first second rest =>
      simp only [List.mapM_cons, bind, Option.bind_eq_some_iff, pure, Option.some.injEq] at done ⊢
      obtain ⟨two, second, _, ⟨one, first, rest, later, rfl⟩, rfl⟩ := done
      exact ⟨one :: two :: rest, ⟨one, first, _, ⟨two, second, rest, later, rfl⟩, rfl⟩,
        .swap one two rest⟩
  | trans _ _ ihFirst ihSecond =>
      obtain ⟨middle, first, one⟩ := ihFirst done
      obtain ⟨others, second, two⟩ := ihSecond first
      exact ⟨others, second, one.trans two⟩

/-- A lookup of all entries of a map finds the same under other keys, in some order. -/
theorem Renamed.mapM [TransCmp cmp] [LawfulEqCmp cmp] (renamed : Renamed rename left right)
    {view other : α × β → Option γ} (same : ∀ entry, other (Prod.map rename id entry) = view entry)
    : Option.Rel List.Perm (left.toList.mapM view) (right.toList.mapM other) := by
  have views : (left.toList.map (Prod.map rename id)).mapM other = left.toList.mapM view := by
    rw [List.mapM_map]
    exact congrArg left.toList.mapM (funext same)
  rw [← views]
  cases first : (left.toList.map (Prod.map rename id)).mapM other with
  | some found =>
      obtain ⟨others, done, perm⟩ := mapM_perm renamed.toList_perm first
      rw [done]
      exact .some perm
  | none =>
      cases second : right.toList.mapM other with
      | none => exact .none
      | some found =>
          obtain ⟨others, done, _⟩ := mapM_perm renamed.toList_perm.symm second
          rw [done] at first
          cases first

/-- A lookup of all elements finds what keeps the keys of the elements. -/
theorem map_of_mapM {key : α → γ} {other : β → γ}
    (kept : ∀ element value, view element = some value → other value = key element)
    {elements : List α} {found : List β} (done : elements.mapM view = some found)
    : found.map other = elements.map key := by
  induction elements generalizing found with
  | nil =>
      cases done
      rfl
  | cons first _ ih =>
      simp only [List.mapM_cons, bind, Option.bind_eq_some_iff, pure, Option.some.injEq] at done
      obtain ⟨one, here, rest, later, rfl⟩ := done
      rw [List.map_cons, List.map_cons, kept first one here, ih later]

end SkillRanker.Library
