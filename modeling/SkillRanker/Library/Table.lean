import Mathlib.Data.List.Nodup

/-! Tables of rows with a key. Two rows of one key cannot be built. -/

namespace SkillRanker.Library

/-- Rows in the order of their insertion, each with a key of its own. -/
@[ext]
structure Table (Key Row : Type) (key : Row → Key) where
  rows : List Row
  distinct : (rows.map key).Nodup

namespace Table

variable {Key Row : Type} {key : Row → Key}

def empty : Table Key Row key := { rows := [], distinct := List.nodup_nil }

/-- Removal of the rows that meet a condition. -/
def deleteWhere (table : Table Key Row key) (condition : Row → Bool) : Table Key Row key where
  rows := table.rows.filter fun row => !condition row
  distinct := table.distinct.sublist (List.filter_sublist.map key)

/-- A change of the rows that meet a condition. It keeps the keys. -/
def updateWhere (table : Table Key Row key) (condition : Row → Bool) (change : Row → Row)
    (keeps : ∀ row, key (change row) = key row)
    : Table Key Row key where
  rows := table.rows.map fun row => if condition row then change row else row
  distinct := by
    have same : (table.rows.map fun row => if condition row then change row else row).map key
        = table.rows.map key := by
      rw [List.map_map]
      refine List.map_congr_left fun row _ => ?_
      by_cases meets : condition row <;> simp [meets, keeps]
    rw [same]
    exact table.distinct

variable {row : Row} {condition : Row → Bool}
variable {table : Table Key Row key}

theorem mem_deleteWhere
    : row ∈ (table.deleteWhere condition).rows ↔ row ∈ table.rows ∧ condition row = false := by
  simp [deleteWhere]

/-- How many rows meet a condition. -/
def countWhere (table : Table Key Row key) (condition : Row → Bool) : Nat :=
  (table.rows.filter condition).length

/-- The rows that meet a condition are as many as a removal takes away. -/
theorem length_deleteWhere (table : Table Key Row key) (condition : Row → Bool)
    : table.rows.length = (table.deleteWhere condition).rows.length + table.countWhere condition := by
  have split := List.length_eq_length_filter_add (l := table.rows) condition
  change _ = (table.rows.filter fun row => !condition row).length + (table.rows.filter condition).length
  omega

theorem countWhere_eq_zero
    : table.countWhere condition = 0 ↔ ∀ row ∈ table.rows, condition row = false := by
  unfold countWhere
  rw [List.length_eq_zero_iff, List.filter_eq_nil_iff]
  simp

theorem deleteWhere_eq_self (none : ∀ row ∈ table.rows, condition row = false)
    : table.deleteWhere condition = table := by
  refine Table.ext (List.filter_eq_self.mpr fun row mem => ?_)
  rw [none row mem]
  rfl

theorem updateWhere_eq_self {change : Row → Row} {keeps : ∀ row, key (change row) = key row}
    (none : ∀ row ∈ table.rows, condition row = false)
    : table.updateWhere condition change keeps = table := by
  refine Table.ext ((List.map_congr_left fun row mem => ?_).trans (List.map_id _))
  rw [none row mem]
  rfl

variable [DecidableEq Key]

def find? (table : Table Key Row key) (sought : Key) : Option Row :=
  table.rows.find? fun row => key row = sought

variable {sought : Key}

theorem key_of_find? (found : table.find? sought = some row)
    : key row = sought := by
  simpa using List.find?_some found

theorem mem_of_find? (found : table.find? sought = some row)
    : row ∈ table.rows :=
  List.mem_of_find?_eq_some found

/-- A row that the table does not have yet. Where its key is taken the table stays as it is. -/
def insert (table : Table Key Row key) (row : Row) : Table Key Row key :=
  if absent : table.find? (key row) = none then
    {
      rows := table.rows ++ [row]
      distinct := by
        rw [List.map_append, List.nodup_append]
        refine ⟨table.distinct, List.nodup_singleton _, ?_⟩
        intro other listed last lastMem same
        obtain ⟨present, mem, rfl⟩ := List.mem_map.mp listed
        have lastKey : last = key row := by simpa using lastMem
        have none := List.find?_eq_none.mp absent present mem
        exact none (by simp [same, lastKey])
    }
  else table

/-- A row is found under its key, by induction on the rows before it. -/
theorem find?_of_mem (mem : row ∈ table.rows)
    : table.find? (key row) = some row := by
  obtain ⟨rows, distinct⟩ := table
  change rows.find? _ = some row
  induction rows with
  | nil => cases mem
  | cons first rest ih =>
      obtain ⟨fresh, distinct⟩ := List.nodup_cons.mp distinct
      rcases List.mem_cons.mp mem with rfl | later
      · simp
      · have different : key first ≠ key row := fun same =>
          fresh (same ▸ List.mem_map_of_mem later)
        rw [List.find?_cons_of_neg (by simpa using different)]
        exact ih distinct later

theorem mem_rows_iff
    : row ∈ table.rows ↔ table.find? (key row) = some row :=
  ⟨find?_of_mem, mem_of_find?⟩

@[simp]
theorem find?_empty (sought : Key) : (empty : Table Key Row key).find? sought = none := rfl

-- What the operations leave under a key

variable (table : Table Key Row key)

/-- A fresh row is found under its key, and every other row as before. -/
theorem find?_insert (absent : table.find? (key row) = none) (sought : Key)
    : (table.insert row).find? sought
      = if key row = sought then some row else table.find? sought := by
  rw [insert, dif_pos absent]
  change (table.rows ++ [row]).find? _ = _
  rw [List.find?_append]
  split
  · next same =>
    have none : table.rows.find? (fun other => key other = sought) = none := same ▸ absent
    rw [none, List.find?_cons_of_pos (by simpa using same)]
    rfl
  · next different =>
    rw [List.find?_cons_of_neg (by simpa using different), List.find?_nil, Option.or_none]
    rfl

theorem find?_insert_of_some {present : Row} (found : table.find? sought = some present)
    : (table.insert row).find? sought = some present := by
  by_cases absent : table.find? (key row) = none
  · rw [table.find?_insert absent, if_neg, found]
    intro same
    rw [same, found] at absent
    cases absent
  · rw [insert, dif_neg absent, found]

theorem mem_insert {other : Row}
    : other ∈ (table.insert row).rows
      ↔ other ∈ table.rows ∨ (other = row ∧ table.find? (key row) = none) := by
  unfold insert
  split
  · next absent => simp [absent]
  · next present => simp [present]

/-- Under a key is the row that was there, or else the first of the inserted ones, by induction on
these.
-/
theorem find?_foldl_insert (rows : List Row) (sought : Key)
    : (rows.foldl insert table).find? sought
      = (table.find? sought).or (rows.find? fun row => key row = sought) := by
  induction rows generalizing table with
  | nil => rw [List.find?_nil, Option.or_none, List.foldl_nil]
  | cons row rest ih =>
      rw [List.foldl_cons, ih]
      cases present : table.find? (key row) with
      | some stored =>
          rw [insert, dif_neg (by rw [present]; exact Option.some_ne_none _)]
          by_cases own : key row = sought
          · subst own
            rw [present, Option.some_or, Option.some_or]
          · rw [List.find?_cons_of_neg (by simpa using own)]
      | none =>
          rw [find?_insert table present]
          by_cases own : key row = sought
          · subst own
            rw [if_pos rfl, present, List.find?_cons_of_pos (by simp), Option.some_or,
              Option.none_or]
          · rw [if_neg own, List.find?_cons_of_neg (by simpa using own)]

variable (condition)

/-- A change leaves under a key what it makes of the row there. -/
theorem find?_updateWhere (change : Row → Row) (keeps : ∀ row, key (change row) = key row)
    (sought : Key)
    : (table.updateWhere condition change keeps).find? sought
      = (table.find? sought).map fun row => if condition row then change row else row := by
  change (table.rows.map _).find? _ = _
  rw [List.find?_map]
  have same : ((fun row => decide (key row = sought))
        ∘ fun row => if condition row then change row else row)
      = fun row => decide (key row = sought) := by
    funext row
    by_cases meets : condition row <;> simp [meets, keeps]
  rw [same]
  rfl

theorem find?_updateWhere_of_some (change : Row → Row) (keeps : ∀ row, key (change row) = key row)
    (found : table.find? sought = some row)
    : (table.updateWhere condition change keeps).find? sought
      = some (if condition row then change row else row) := by
  rw [table.find?_updateWhere, found, Option.map_some]

/-- A removal leaves under a key the row that was there, unless it meets the condition. -/
theorem find?_deleteWhere (sought : Key)
    : (table.deleteWhere condition).find? sought
      = (table.find? sought).filter fun row => !condition row := by
  apply Option.ext
  intro row
  rw [Option.filter_eq_some_iff]
  constructor
  · intro found
    have own := key_of_find? found
    obtain ⟨mem, kept⟩ := mem_deleteWhere.mp (mem_of_find? found)
    exact ⟨own ▸ find?_of_mem mem, by rw [kept]; rfl⟩
  · rintro ⟨found, kept⟩
    have own := key_of_find? found
    rw [Bool.not_eq_eq_eq_not, Bool.not_true] at kept
    exact own ▸ find?_of_mem (mem_deleteWhere.mpr ⟨mem_of_find? found, kept⟩)

variable {condition}

/-- A row in the place of the one with its key, if there is one. -/
def replace (row : Row) : Table Key Row key :=
  (table.deleteWhere fun other => key other = key row).insert row

/-- The row is found under its key, and every other row as before. -/
theorem find?_replace (row : Row) (sought : Key)
    : (table.replace row).find? sought
      = if key row = sought then some row else table.find? sought := by
  have absent : (table.deleteWhere fun other => key other = key row).find? (key row) = none := by
    rw [find?_deleteWhere, Option.filter_eq_none_iff]
    intro other found
    simp [key_of_find? found]
  rw [replace, find?_insert _ absent]
  split
  · rfl
  · next different =>
    rw [find?_deleteWhere]
    cases found : table.find? sought with
    | none => rfl
    | some other =>
        have kept : key other ≠ key row := by
          rw [key_of_find? found]
          exact fun same => different same.symm
        simp [kept]

end Table

end SkillRanker.Library
