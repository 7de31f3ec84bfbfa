import Mathlib.Data.List.Range
import Mathlib.Data.Nat.Basic
import Mathlib.Tactic.Ring

/-! Lists cut into chunks of one size, the last of which may be short. -/

namespace SkillRanker.Library

variable {α : Type}
variable {size : Nat}

/-- `slice::chunks` -/
def chunks (size : Nat) (items : List α) : List (List α) :=
  (List.range ((items.length + size - 1) / size)).map fun place =>
    (items.drop (place * size)).take size

structure Chunked (size : Nat) (pieces : List (List α)) : Prop where
  whole : pieces.Pairwise fun piece _ => piece.length = size
  bounds : ∀ piece ∈ pieces, piece ≠ [] ∧ piece.length ≤ size

@[simp]
theorem chunks_nil (size : Nat) : chunks size ([] : List α) = [] := by
  unfold chunks
  rcases Nat.eq_zero_or_pos size with rfl | positive
  · rw [Nat.div_zero]
    rfl
  · rw [List.length_nil, Nat.zero_add, Nat.div_eq_of_lt (Nat.sub_lt positive Nat.one_pos)]
    rfl

theorem chunks_append (positive : 0 < size) {chunk : List α} (whole : chunk.length = size)
    (rest : List α)
    : chunks size (chunk ++ rest) = chunk :: chunks size rest := by
  have count
      : ((chunk ++ rest).length + size - 1) / size = (rest.length + size - 1) / size + 1 := by
    rw [List.length_append, whole, ← Nat.add_div_right _ positive]
    congr 1
    omega
  unfold chunks
  rw [count, List.range_succ_eq_map, List.map_cons, List.map_map]
  congr 1
  · rw [Nat.zero_mul, List.drop_zero, ← whole, List.take_left]
  · refine List.map_congr_left fun place _ => ?_
    have next : (place + 1) * size = chunk.length + place * size := by
      rw [whole]
      ring
    simp only [Function.comp_apply, Nat.succ_eq_add_one]
    rw [next, List.drop_length_add_append]

theorem chunks_of_short {items : List α} (nonempty : items ≠ []) (short : items.length ≤ size)
    : chunks size items = [items] := by
  have positive := List.length_pos_iff.mpr nonempty
  have count : (items.length + size - 1) / size = 1 := by
    rw [Nat.div_eq_iff (by omega)]
    omega
  unfold chunks
  rw [count, List.range_one, List.map_singleton, Nat.zero_mul, List.drop_zero,
    List.take_of_length_le short]

variable {pieces : List (List α)}

/-- Pieces of which all but the last are whole are the chunks of their list. -/
theorem Chunked.chunks_flatten (cut : Chunked size pieces)
    : chunks size pieces.flatten = pieces := by
  obtain ⟨whole, bounds⟩ := cut
  induction pieces with
  | nil => exact chunks_nil size
  | cons first rest ih =>
      obtain ⟨nonempty, short⟩ := bounds first List.mem_cons_self
      have positive := List.length_pos_iff.mpr nonempty
      have later := ih (List.pairwise_cons.mp whole).2
        fun piece mem => bounds piece (List.mem_cons_of_mem _ mem)
      cases rest with
      | nil =>
          rw [List.flatten_cons, List.flatten_nil, List.append_nil]
          exact chunks_of_short nonempty short
      | cons second others =>
          have full := (List.pairwise_cons.mp whole).1 second List.mem_cons_self
          rw [List.flatten_cons, chunks_append (by omega) full, later]

/-- The list splits into whole chunks and a short rest. -/
theorem exists_chunked (positive : 0 < size) (items : List α)
    : ∃ (pieces : List (List α)) (rest : List α), items = pieces.flatten ++ rest
      ∧ (∀ piece ∈ pieces, piece.length = size) ∧ rest.length = items.length % size := by
  induction length : items.length using Nat.strong_induction_on generalizing items with
  | _ n ih =>
      subst length
      by_cases short : items.length < size
      · refine ⟨[], items, rfl, ?_, (Nat.mod_eq_of_lt short).symm⟩
        intro piece mem
        exact absurd mem List.not_mem_nil
      · obtain ⟨pieces, rest, split, whole, length⟩ :=
          ih (items.drop size).length (by rw [List.length_drop]; omega) (items.drop size) rfl
        refine ⟨items.take size :: pieces, rest, ?_, ?_, ?_⟩
        · rw [List.flatten_cons, List.append_assoc, ← split, List.take_append_drop]
        · intro piece mem
          rcases List.mem_cons.mp mem with rfl | mem
          · rw [List.length_take]
            omega
          · exact whole piece mem
        · rw [length, List.length_drop, ← Nat.mod_eq_sub_mod (by omega)]

/-- Whole pieces in front are the first chunks. -/
theorem chunks_flatten_append (positive : 0 < size) (whole : ∀ piece ∈ pieces, piece.length = size)
    (rest : List α)
    : chunks size (pieces.flatten ++ rest) = pieces ++ chunks size rest := by
  induction pieces with
  | nil => rfl
  | cons first others ih =>
      have later := ih fun piece mem => whole piece (List.mem_cons_of_mem _ mem)
      rw [List.flatten_cons, List.append_assoc,
        chunks_append positive (whole first List.mem_cons_self), later]
      rfl

/-- The chunks of a list are cut as they should be, and are the list again. -/
theorem chunked_chunks (positive : 0 < size) (items : List α)
    : Chunked size (chunks size items) ∧ (chunks size items).flatten = items := by
  obtain ⟨pieces, rest, rfl, whole, length⟩ := exists_chunked positive items
  have short : rest.length < size := length ▸ Nat.mod_lt _ positive
  have paired : pieces.Pairwise fun piece _ => piece.length = size :=
    List.pairwise_of_forall_mem_list fun piece mem _ _ => whole piece mem
  have inside (piece : List α) (mem : piece ∈ pieces) : piece ≠ [] ∧ piece.length ≤ size := by
    have full := whole piece mem
    exact ⟨List.length_pos_iff.mp (by omega), by omega⟩
  rw [chunks_flatten_append positive whole]
  by_cases empty : rest = []
  · subst empty
    rw [chunks_nil, List.append_nil, List.append_nil]
    exact ⟨⟨paired, inside⟩, rfl⟩
  · rw [chunks_of_short empty (Nat.le_of_lt short)]
    refine ⟨⟨?_, ?_⟩, by rw [List.flatten_append, List.flatten_singleton]⟩
    · refine List.pairwise_append.mpr ⟨paired, List.pairwise_singleton _ _, ?_⟩
      intro piece mem _ _
      exact whole piece mem
    · intro piece mem
      rcases List.mem_append.mp mem with mem | mem
      · exact inside piece mem
      · rw [List.mem_singleton] at mem
        subst mem
        exact ⟨empty, Nat.le_of_lt short⟩

theorem Chunked.filter (cut : Chunked size pieces) (keep : List α → Bool)
    : Chunked size (pieces.filter keep) :=
  ⟨cut.whole.filter keep, fun piece mem => cut.bounds piece (List.mem_of_mem_filter mem)⟩

end SkillRanker.Library
