import Mathlib.Data.List.Basic
import Mathlib.Data.List.Nodup
import Mathlib.Order.Defs.LinearOrder
import Mathlib.Order.Lattice

/-! Tables as lists of entries in the order of their keys. -/

namespace SkillRanker.Library

section

variable {Key Value : Type} [LinearOrder Key]
variable {entries : List (Key × Value)}

def insertEntry (key : Key) (value : Value) : List (Key × Value) → List (Key × Value)
  | [] => [(key, value)]
  | (other, kept) :: rest =>
      if key < other then (key, value) :: (other, kept) :: rest
      else if key = other then (key, value) :: rest
      else (other, kept) :: insertEntry key value rest

def removeEntry (key : Key) (entries : List (Key × Value)) : List (Key × Value) :=
  entries.filter fun entry => entry.1 ≠ key

/-- A key that was set is found. -/
@[simp]
theorem lookup_insertEntry_self (key : Key) (value : Value) (entries : List (Key × Value))
    : (insertEntry key value entries).lookup key = some value := by
  induction entries with
  | nil => simp [insertEntry]
  | cons entry rest ih =>
      obtain ⟨first, kept⟩ := entry
      unfold insertEntry
      split
      · simp
      · split
        · simp
        · next different => simp [List.lookup_cons, beq_eq_false_iff_ne.mpr different, ih]

variable {key : Key}

/-- The other keys are found as before. -/
@[simp]
theorem lookup_insertEntry_of_ne {other : Key} (different : other ≠ key) (value : Value)
    (entries : List (Key × Value))
    : (insertEntry key value entries).lookup other = entries.lookup other := by
  induction entries with
  | nil => simp [insertEntry, List.lookup_cons, beq_eq_false_iff_ne.mpr different]
  | cons entry rest ih =>
      obtain ⟨first, kept⟩ := entry
      unfold insertEntry
      split
      · rw [List.lookup_cons, beq_eq_false_iff_ne.mpr different]
      · split
        · next same =>
            subst same
            simp [List.lookup_cons, beq_eq_false_iff_ne.mpr different]
        · rw [List.lookup_cons, List.lookup_cons, ih]

variable {value : Value}

/-- A key that is found has an entry. -/
theorem mem_of_lookup (found : entries.lookup key = some value)
    : (key, value) ∈ entries := by
  obtain ⟨before, after, rfl, _⟩ := List.lookup_eq_some_iff.mp found
  simp

theorem of_mem_insertEntry {entry : Key × Value} (mem : entry ∈ insertEntry key value entries)
    : entry = (key, value) ∨ entry ∈ entries := by
  induction entries with
  | nil =>
      rw [insertEntry] at mem
      exact .inl (List.mem_singleton.mp mem)
  | cons first rest ih =>
      unfold insertEntry at mem
      split at mem
      · exact List.mem_cons.mp mem
      · split at mem
        · rcases List.mem_cons.mp mem with same | earlier
          · exact .inl same
          · exact .inr (List.mem_cons_of_mem first earlier)
        · rcases List.mem_cons.mp mem with same | later
          · exact .inr (same ▸ List.mem_cons_self)
          · rcases ih later with same | earlier
            · exact .inl same
            · exact .inr (List.mem_cons_of_mem first earlier)

theorem of_mem_removeEntry {entry : Key × Value} (mem : entry ∈ removeEntry key entries)
    : entry ∈ entries :=
  (List.mem_filter.mp mem).1

-- The order of the keys

def Ordered (entries : List (Key × Value)) : Prop :=
  entries.Pairwise fun earlier later => earlier.1 < later.1

/-- Setting a key keeps the keys in order. -/
theorem Ordered.insertEntry (ordered : Ordered entries) (key : Key) (value : Value)
    : Ordered (insertEntry key value entries) := by
  induction entries with
  | nil => exact List.pairwise_singleton _ _
  | cons entry rest ih =>
      obtain ⟨first, kept⟩ := entry
      obtain ⟨below, restOrdered⟩ := List.pairwise_cons.mp ordered
      unfold Library.insertEntry
      split
      · next before =>
          refine List.pairwise_cons.mpr ⟨?_, ordered⟩
          intro entry mem
          rcases List.mem_cons.mp mem with rfl | later
          · exact before
          · exact lt_trans before (below entry later)
      · next notBefore =>
          split
          · next same =>
              subst same
              exact List.pairwise_cons.mpr ⟨below, restOrdered⟩
          · next different =>
              have after : first < key := lt_of_le_of_ne (not_lt.mp notBefore) (Ne.symm different)
              refine List.pairwise_cons.mpr ⟨?_, ih restOrdered⟩
              intro entry mem
              rcases of_mem_insertEntry mem with rfl | later
              · exact after
              · exact below entry later

theorem Ordered.removeEntry (ordered : Ordered entries) (key : Key)
    : Ordered (removeEntry key entries) :=
  List.Pairwise.filter _ ordered

theorem Ordered.nodup (ordered : Ordered entries)
    : (entries.map Prod.fst).Nodup :=
  List.Pairwise.map Prod.fst (fun _ _ below => ne_of_lt below) ordered

/-- An entry is found under its key. -/
theorem Ordered.lookup_eq_some_iff (ordered : Ordered entries)
    : entries.lookup key = some value ↔ (key, value) ∈ entries := by
  refine ⟨mem_of_lookup, ?_⟩
  intro mem
  induction entries with
  | nil => cases mem
  | cons first rest ih =>
      obtain ⟨below, restOrdered⟩ := List.pairwise_cons.mp ordered
      rcases List.mem_cons.mp mem with rfl | later
      · simp
      · have different : key ≠ first.1 := ne_of_gt (below _ later)
        rw [List.lookup_cons, beq_eq_false_iff_ne.mpr different]
        exact ih restOrdered later

/-- Tables in order with the same entries are the same, by induction on both. -/
theorem Ordered.ext {others : List (Key × Value)} (ordered : Ordered entries)
    (othersOrdered : Ordered others) (same : ∀ entry, entry ∈ entries ↔ entry ∈ others)
    : entries = others := by
  induction entries generalizing others with
  | nil =>
      cases others with
      | nil => rfl
      | cons first rest => exact absurd ((same first).mpr List.mem_cons_self) List.not_mem_nil
  | cons first rest ih =>
      cases others with
      | nil => exact absurd ((same first).mp List.mem_cons_self) List.not_mem_nil
      | cons other later =>
          obtain ⟨below, restOrdered⟩ := List.pairwise_cons.mp ordered
          obtain ⟨otherBelow, laterOrdered⟩ := List.pairwise_cons.mp othersOrdered
          have heads : first = other := by
            rcases List.mem_cons.mp ((same first).mp List.mem_cons_self) with equal | mem
            · exact equal
            · rcases List.mem_cons.mp ((same other).mpr List.mem_cons_self) with equal | mem'
              · exact equal.symm
              · exact absurd (lt_trans (below other mem') (otherBelow first mem)) (lt_irrefl _)
          subst heads
          congr 1
          apply ih restOrdered laterOrdered
          intro entry
          constructor
          · intro mem
            rcases List.mem_cons.mp ((same entry).mp (List.mem_cons_of_mem _ mem)) with rfl | mem'
            · exact absurd (below entry mem) (lt_irrefl _)
            · exact mem'
          · intro mem
            rcases List.mem_cons.mp ((same entry).mpr (List.mem_cons_of_mem _ mem)) with rfl | mem'
            · exact absurd (otherBelow entry mem) (lt_irrefl _)
            · exact mem'

end

-- Lists of items with a key each, and changes of the items of one key

variable {Item Key : Type} [DecidableEq Key] {key : Item → Key} {sought : Key}
  {change : Item → Item} {items : List Item}

def changeAt (key : Item → Key) (sought : Key) (change : Item → Item) (items : List Item)
    : List Item :=
  items.map fun item => if key item = sought then change item else item

/-- A changed item is a change of an item, or an item of another key. -/
theorem mem_changeAt {item : Item}
    : item ∈ changeAt key sought change items
      ↔ (∃ other ∈ items, key other = sought ∧ change other = item)
        ∨ item ∈ items ∧ key item ≠ sought := by
  unfold changeAt
  rw [List.mem_map]
  refine ⟨?_, ?_⟩
  · rintro ⟨other, mem, is⟩
    split at is
    · next same => exact .inl ⟨other, mem, same, is⟩
    · next different => exact .inr (is ▸ ⟨mem, different⟩)
  · rintro (⟨other, mem, same, is⟩ | ⟨mem, different⟩)
    · exact ⟨other, mem, by rw [if_pos same, is]⟩
    · exact ⟨item, mem, if_neg different⟩

/-- A change that keeps some view of the items keeps it of all. -/
theorem map_changeAt {View : Type} {view : Item → View}
    (keeps : ∀ item, view (change item) = view item)
    : (changeAt key sought change items).map view = items.map view := by
  unfold changeAt
  rw [List.map_map]
  refine List.map_congr_left fun item _ => ?_
  rw [Function.comp_apply]
  split
  · exact keeps item
  · rfl

theorem map_changeAt_view {View : Type} {view : Item → View} {viewKey : View → Key}
    {viewChange : View → View} (sameKey : ∀ item, viewKey (view item) = key item)
    (sees : ∀ item, view (change item) = viewChange (view item))
    : (changeAt key sought change items).map view
      = changeAt viewKey sought viewChange (items.map view) := by
  unfold changeAt
  rw [List.map_map, List.map_map]
  refine List.map_congr_left fun item _ => ?_
  rw [Function.comp_apply, Function.comp_apply, sameKey]
  split
  · exact sees item
  · rfl

theorem changeAt_append (others : List Item)
    : changeAt key sought change (items ++ others)
      = changeAt key sought change items ++ changeAt key sought change others :=
  List.map_append

/-- Where no item has the key nothing changes. -/
theorem changeAt_of_absent (absent : sought ∉ items.map key)
    : changeAt key sought change items = items := by
  unfold changeAt
  refine (List.map_congr_left fun item mem => if_neg fun same => ?_).trans (List.map_id _)
  exact absent (same ▸ List.mem_map_of_mem mem)

/-- The items that meet a condition change alone, if a change does not affect the condition. -/
theorem filter_changeAt {condition : Item → Bool}
    (keeps : ∀ item, condition (change item) = condition item)
    : (changeAt key sought change items).filter condition
      = changeAt key sought change (items.filter condition) := by
  unfold changeAt
  rw [List.filter_map]
  refine congrArg _ (List.filter_congr fun item _ => ?_)
  rw [Function.comp_apply]
  split
  · exact keeps item
  · rfl

/-- A change of a view at an index is a change at the key that stands there, by induction on the
items.
-/
theorem modify_map {View : Type} {view : Item → View} {viewChange : View → View} {index : Nat}
    (distinct : (items.map key).Nodup) (found : (items.map key)[index]? = some sought)
    (sees : ∀ item ∈ items, key item = sought → viewChange (view item) = view (change item))
    : (items.map view).modify index viewChange
      = (changeAt key sought change items).map view := by
  induction items generalizing index with
  | nil => cases found
  | cons first rest ih =>
      obtain ⟨fresh, distinct⟩ := List.nodup_cons.mp distinct
      cases index with
      | zero =>
          have same : key first = sought := Option.some.inj found
          have others : changeAt key sought change rest = rest :=
            changeAt_of_absent (same ▸ fresh)
          unfold changeAt at others ⊢
          rw [List.map_cons, List.map_cons, others, if_pos same, List.map_cons,
            ← sees first List.mem_cons_self same]
          rfl
      | succ index =>
          rw [List.map_cons, List.getElem?_cons_succ] at found
          have different : key first ≠ sought := fun same =>
            fresh (same ▸ List.mem_of_getElem? found)
          have later := ih distinct found fun item mem => sees item (List.mem_cons_of_mem _ mem)
          unfold changeAt at later ⊢
          rw [List.map_cons, List.map_cons, if_neg different, List.map_cons, ← later]
          rfl

end SkillRanker.Library
