import Mathlib.Data.List.Dedup
import Mathlib.Data.List.Induction
import Mathlib.Data.Rat.Defs
import Mathlib.Tactic.Positivity
import SkillRanker.Library.Entries

/-! Items grouped by a key, in the order of the keys. -/

namespace SkillRanker.Library

section

variable {Key Item : Type} [LinearOrder Key]

def pushEntry (key : Key) (item : Item) : List (Key × List Item) → List (Key × List Item)
  | [] => [(key, [item])]
  | (other, group) :: rest =>
      if key < other then (key, [item]) :: (other, group) :: rest
      else if key = other then (key, group ++ [item]) :: rest
      else (other, group) :: pushEntry key item rest

def groupEntries (key : Item → Key) (items : List Item) : List (Key × List Item) :=
  items.foldl (fun groups item => pushEntry (key item) item groups) []

variable {groups : List (Key × List Item)}

theorem pushEntry_eq (ordered : Ordered groups) (key : Key) (item : Item)
    : pushEntry key item groups
      = insertEntry key ((groups.lookup key).getD [] ++ [item]) groups := by
  induction groups with
  | nil => rfl
  | cons entry rest ih =>
      obtain ⟨other, group⟩ := entry
      obtain ⟨below, restOrdered⟩ := List.pairwise_cons.mp ordered
      unfold pushEntry insertEntry
      split
      · next before =>
        have absent : ((other, group) :: rest).lookup key = none := by
          rw [List.lookup_eq_none_iff]
          intro present mem
          rcases List.mem_cons.mp mem with rfl | later
          · simpa using ne_of_lt before
          · simpa using ne_of_lt (lt_trans before (below present later))
        rw [absent]
        rfl
      · split
        · next same =>
          subst same
          simp
        · next different =>
          rw [ih restOrdered, List.lookup_cons, beq_eq_false_iff_ne.mpr different]

theorem Ordered.pushEntry (ordered : Ordered groups) (key : Key) (item : Item)
    : Ordered (pushEntry key item groups) := by
  rw [pushEntry_eq ordered]
  exact ordered.insertEntry _ _

variable {key : Item → Key}
variable (items : List Item)

theorem groupEntries_snoc (item : Item)
    : groupEntries key (items ++ [item]) = pushEntry (key item) item (groupEntries key items) := by
  simp [groupEntries]

theorem groupEntries_ordered : Ordered (groupEntries key items) := by
  induction items using List.reverseRecOn with
  | nil => exact List.Pairwise.nil
  | append_singleton items item ih =>
      rw [groupEntries_snoc]
      exact ih.pushEntry _ _

/-- A group is of all items of its key, by induction on the items. -/
theorem lookup_groupEntries (sought : Key)
    : (groupEntries key items).lookup sought
      = if items.filter (key · = sought) = [] then none
        else some (items.filter (key · = sought)) := by
  induction items using List.reverseRecOn with
  | nil => rfl
  | append_singleton items item ih =>
      rw [groupEntries_snoc, pushEntry_eq (groupEntries_ordered items), List.filter_append]
      by_cases own : key item = sought
      · subst own
        rw [lookup_insertEntry_self, ih]
        split <;> simp_all
      · have alone : [item].filter (key · = sought) = [] := by simp [own]
        rw [lookup_insertEntry_of_ne (Ne.symm own), ih, alone, List.append_nil]

variable {sought : Key}

theorem mem_groupEntries {items : List Item} {group : List Item}
    : (sought, group) ∈ groupEntries key items
      ↔ group = items.filter (key · = sought) ∧ group ≠ [] := by
  rw [← (groupEntries_ordered items).lookup_eq_some_iff, lookup_groupEntries]
  split
  · next none =>
    rw [none]
    simp
  · next some =>
    rw [Option.some_inj]
    refine ⟨?_, fun both => both.1.symm⟩
    rintro rfl
    exact ⟨rfl, some⟩

theorem exists_group {items : List Item} {item : Item} (mem : item ∈ items)
    : ∃ group, (key item, group) ∈ groupEntries key items ∧ item ∈ group := by
  have own : item ∈ items.filter (key · = key item) := List.mem_filter.mpr ⟨mem, by simp⟩
  exact ⟨_, mem_groupEntries.mpr ⟨rfl, List.ne_nil_of_mem own⟩, own⟩

theorem pushEntry_perm (key : Key) (item : Item) (groups : List (Key × List Item))
    : ((pushEntry key item groups).flatMap Prod.snd).Perm (item :: groups.flatMap Prod.snd) := by
  induction groups with
  | nil => exact .refl _
  | cons entry rest ih =>
      obtain ⟨other, group⟩ := entry
      unfold pushEntry
      split
      · exact .refl _
      · split
        · rw [List.flatMap_cons, List.flatMap_cons, List.append_assoc]
          exact List.perm_middle
        · rw [List.flatMap_cons, List.flatMap_cons]
          exact (ih.append_left group).trans List.perm_middle

/-- The groups have every item once, by induction on the items. -/
theorem groupEntries_perm
    : ((groupEntries key items).flatMap Prod.snd).Perm items := by
  induction items using List.reverseRecOn with
  | nil => exact .refl _
  | append_singleton items item ih =>
      rw [groupEntries_snoc]
      exact ((pushEntry_perm _ _ _).trans (ih.cons item)).trans (List.perm_append_singleton _ _).symm

theorem sum_countP_groupEntries (condition : Item → Bool) (items : List Item)
    : ((groupEntries key items).map fun group => group.2.countP condition).sum
      = items.countP condition := by
  have grouped : ((groupEntries key items).flatMap Prod.snd).Perm items := groupEntries_perm items
  rw [← grouped.countP_eq, List.countP_flatMap]
  rfl

theorem sum_length_groupEntries
    : ((groupEntries key items).map fun group => group.2.length).sum = items.length := by
  have grouped : ((groupEntries key items).flatMap Prod.snd).Perm items := groupEntries_perm items
  rw [← grouped.length_eq, List.length_flatMap]

theorem of_mem_group {items : List Item} {group : List Item}
    (listed : (sought, group) ∈ groupEntries key items) {item : Item} (mem : item ∈ group)
    : item ∈ items ∧ key item = sought := by
  rw [(mem_groupEntries.mp listed).1] at mem
  simpa using List.mem_filter.mp mem

theorem mem_keys_groupEntries {items : List Item}
    : sought ∈ (groupEntries key items).map Prod.fst ↔ sought ∈ items.map key := by
  rw [List.mem_map, List.mem_map]
  constructor
  · rintro ⟨⟨_, group⟩, listed, rfl⟩
    obtain ⟨item, mem⟩ := List.exists_mem_of_ne_nil _ (mem_groupEntries.mp listed).2
    exact ⟨item, of_mem_group listed mem⟩
  · rintro ⟨item, mem, rfl⟩
    have grouped : ∃ group, (key item, group) ∈ groupEntries key items ∧ item ∈ group :=
      exists_group mem
    obtain ⟨group, listed, _⟩ := grouped
    exact ⟨_, listed, rfl⟩

end

-- Queries over rows: joins, distinct values and the rates between two counts

variable {Left Right Row Key : Type}

def joinOn (condition : Left → Right → Bool) (left : List Left) (right : List Right)
    : List (Left × Right) :=
  left.flatMap fun row => (right.filter (condition row)).map (row, ·)

theorem mem_joinOn {condition : Left → Right → Bool} {left : List Left} {right : List Right}
    {pair : Left × Right}
    : pair ∈ joinOn condition left right
      ↔ pair.1 ∈ left ∧ pair.2 ∈ right ∧ condition pair.1 pair.2 = true := by
  obtain ⟨one, two⟩ := pair
  simp only [joinOn, List.mem_flatMap, List.mem_map, List.mem_filter, Prod.mk.injEq]
  refine ⟨?_, fun ⟨inLeft, inRight, meets⟩ => ⟨one, inLeft, two, ⟨inRight, meets⟩, rfl, rfl⟩⟩
  rintro ⟨row, inLeft, other, ⟨inRight, meets⟩, rfl, rfl⟩
  exact ⟨inLeft, inRight, meets⟩

variable [DecidableEq Key]

/-- How many values are among the rows. -/
def distinctCount (values : List Key) : Nat := values.dedup.length

/-- Values that are all among others are at most as many. -/
theorem distinctCount_le {values others : List Key} (among : ∀ value ∈ values, value ∈ others)
    : distinctCount values ≤ others.length := by
  refine (List.subperm_of_subset (List.nodup_dedup values) fun value mem => ?_).length_le
  exact among value (List.mem_dedup.mp mem)

/-- The share of a part in a whole, unless the whole is empty. -/
def rate (part whole : Nat) : Option ℚ := if 0 < whole then some (part / whole) else none

/-- The share of a part lies between none and all of the whole. -/
theorem rate_bounds {part whole : Nat} (atMost : part ≤ whole) {share : ℚ}
    (known : rate part whole = some share)
    : 0 ≤ share ∧ share ≤ 1 := by
  unfold rate at known
  split at known
  · next positive =>
    cases known
    have below : (part : ℚ) ≤ whole := by exact_mod_cast atMost
    exact ⟨by positivity, (div_le_one (by exact_mod_cast positive)).mpr below⟩
  · cases known

end SkillRanker.Library
