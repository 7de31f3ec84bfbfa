import Mathlib.Data.List.Nodup
import Mathlib.Order.Basic
import Mathlib.Order.Lattice

/-! Sorting a list whose elements are told apart by the order: one result for all permutations.
A scan that keeps its incumbent until a challenger costs strictly less: it ends with a
cheapest contestant, and with the first incumbent wherever that is one.
-/

namespace SkillRanker.Library

variable {α : Type}

/-- A comparison that never refuses both directions. -/
theorem isLE_total {β : Type} {cmp : β → β → Ordering} [Std.OrientedCmp cmp] (left right : β)
    : ((cmp left right).isLE || (cmp right left).isLE) = true := by
  by_cases below : (cmp left right).isLE = true
  · rw [below, Bool.true_or]
  · rw [Std.OrientedCmp.lt_of_not_isLE below]
    exact Bool.or_true _

variable {le : α → α → Bool}

/-- Permutations sort alike where the order tells their elements apart. -/
theorem mergeSort_eq_of_perm {left right : List α} (same : left.Perm right)
    (trans : ∀ one two three, le one two = true → le two three = true → le one three = true)
    (total : ∀ one two, (le one two || le two one) = true)
    (antisymm
      : ∀ one ∈ left, ∀ two ∈ left, le one two = true → le two one = true → one = two)
    : left.mergeSort le = right.mergeSort le := by
  refine List.Perm.eq_of_pairwise ?_
    (List.pairwise_mergeSort trans total left) (List.pairwise_mergeSort trans total right) ?_
  · intro one two inLeft inRight below above
    have inTwo : two ∈ left := same.mem_iff.mpr (List.mem_mergeSort.mp inRight)
    exact antisymm one (List.mem_mergeSort.mp inLeft) two inTwo below above
  · exact (List.mergeSort_perm left le).trans (same.trans (List.mergeSort_perm right le).symm)

/-- A sorted list starts with an element that comes before every other. -/
theorem head_mergeSort {items rest : List α} {first : α}
    (trans : ∀ one two three, le one two = true → le two three = true → le one three = true)
    (total : ∀ one two, (le one two || le two one) = true)
    (sorted : items.mergeSort le = first :: rest)
    : first ∈ items ∧ ∀ item ∈ items, le first item = true := by
  have ordered := List.pairwise_mergeSort trans total items
  rw [sorted] at ordered
  refine ⟨List.mem_mergeSort.mp (sorted ▸ List.mem_cons_self), ?_⟩
  intro item mem
  have listed : item ∈ first :: rest := sorted ▸ List.mem_mergeSort.mpr mem
  rcases List.mem_cons.mp listed with rfl | later
  · simpa using total item item
  · exact (List.pairwise_cons.mp ordered).1 item later

section Scores

variable {β γ : Type} [LinearOrder β] [LinearOrder γ]

/-- Higher scores come first, and lower keys among equal scores. -/
def scoreThenKey (score : α → β) (key : α → γ) (left right : α) : Bool :=
  decide (score right < score left)
  || (decide (score left = score right) && decide (key left ≤ key right))

theorem scoreThenKey_iff {score : α → β} {key : α → γ} {left right : α}
    : scoreThenKey score key left right = true
      ↔ score right < score left ∨ score left = score right ∧ key left ≤ key right := by
  simp only [scoreThenKey, Bool.or_eq_true, Bool.and_eq_true, decide_eq_true_eq]

theorem scoreThenKey_trans (score : α → β) (key : α → γ) (one two three : α)
    (first : scoreThenKey score key one two = true)
    (second : scoreThenKey score key two three = true)
    : scoreThenKey score key one three = true := by
  rw [scoreThenKey_iff] at *
  rcases first with above | ⟨same, keys⟩
  · rcases second with above' | ⟨same', _⟩
    · exact .inl (lt_trans above' above)
    · exact .inl (same' ▸ above)
  · rcases second with above' | ⟨same', keys'⟩
    · exact .inl (same ▸ above')
    · exact .inr ⟨same.trans same', le_trans keys keys'⟩

theorem scoreThenKey_total (score : α → β) (key : α → γ) (one two : α)
    : (scoreThenKey score key one two || scoreThenKey score key two one) = true := by
  rw [Bool.or_eq_true, scoreThenKey_iff, scoreThenKey_iff]
  rcases lt_trichotomy (score one) (score two) with below | same | above
  · exact .inr (.inl below)
  · rcases le_total (key one) (key two) with first | second
    · exact .inl (.inr ⟨same, first⟩)
    · exact .inr (.inr ⟨same.symm, second⟩)
  · exact .inl (.inl above)

end Scores

-- The winner of a scan

variable {β : Type} [LinearOrder β]

def incumbent (beats : α → α → Bool) (start : α) (challengers : List α) : α :=
  challengers.foldl
    (fun current challenger => if beats challenger current then challenger else current) start

/-- A winner is a contestant, none costs less, and the first incumbent lost only to a contestant
that does.
-/
structure Wins (cost : α → β) (start : α) (challengers : List α) (winner : α) : Prop where
  contestant : winner = start ∨ winner ∈ challengers
  least : ∀ other ∈ start :: challengers, cost winner ≤ cost other
  retained : cost start ≤ cost winner → winner = start

/-- Where a challenger beats the incumbent exactly when it costs less, the scan ends with a
winner, by induction on the challengers.
-/
theorem incumbent_wins {beats : α → α → Bool} {cost : α → β} {start : α} {challengers : List α}
    (ranks
      : ∀ one ∈ start :: challengers, ∀ two ∈ start :: challengers,
          beats one two = true ↔ cost one < cost two)
    : Wins cost start challengers (incumbent beats start challengers) := by
  induction challengers generalizing start with
  | nil =>
      refine ⟨.inl rfl, ?_, fun _ => rfl⟩
      intro other mem
      rw [List.mem_singleton.mp mem]
      exact le_refl _
  | cons challenger rest ih =>
      have duel := ranks challenger (by simp) start (by simp)
      have later (next : α) (known : next = start ∨ next = challenger)
          : Wins cost next rest (incumbent beats next rest) := by
        apply ih
        intro one inOne two inTwo
        apply ranks
        · rcases List.mem_cons.mp inOne with rfl | mem
          · rcases known with rfl | rfl <;> simp
          · simp [mem]
        · rcases List.mem_cons.mp inTwo with rfl | mem
          · rcases known with rfl | rfl <;> simp
          · simp [mem]
      by_cases beaten : beats challenger start = true
      · have next : incumbent beats start (challenger :: rest) = incumbent beats challenger rest := by
          simp [incumbent, beaten]
        have wins := later challenger (.inr rfl)
        have cheaper := duel.mp beaten
        have least := wins.least challenger List.mem_cons_self
        rw [next]
        refine ⟨.inr ?_, ?_, ?_⟩
        · rcases wins.contestant with same | mem
          · rw [same]
            exact List.mem_cons_self
          · exact List.mem_cons_of_mem _ mem
        · intro other mem
          rcases List.mem_cons.mp mem with rfl | mem
          · exact le_of_lt (lt_of_le_of_lt least cheaper)
          · exact wins.least other mem
        · intro above
          exact absurd (lt_of_le_of_lt (le_trans above least) cheaper) (lt_irrefl _)
      · have next : incumbent beats start (challenger :: rest) = incumbent beats start rest := by
          simp [incumbent, beaten]
        have wins := later start (.inl rfl)
        have dearer : cost start ≤ cost challenger := not_lt.mp fun less => beaten (duel.mpr less)
        rw [next]
        refine ⟨?_, ?_, wins.retained⟩
        · rcases wins.contestant with same | mem
          · exact .inl same
          · exact .inr (List.mem_cons_of_mem _ mem)
        · intro other mem
          rcases List.mem_cons.mp mem with rfl | mem
          · exact wins.least _ List.mem_cons_self
          · rcases List.mem_cons.mp mem with rfl | mem
            · exact le_trans (wins.least start List.mem_cons_self) dearer
            · exact wins.least other (List.mem_cons_of_mem _ mem)

end SkillRanker.Library
