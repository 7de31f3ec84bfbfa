import Mathlib.Algebra.GroupWithZero.Nat
import Mathlib.Data.List.Basic

/-! Texts whose symbols take room. A place in such a text is an amount of room, and the text can be
cut there unless the place is within a symbol or beyond the end.
-/

namespace SkillRanker.Library

variable {Symbol : Type} (size : Symbol → Nat)

def room (text : List Symbol) : Nat := (text.map size).sum

/-- The text before a place and the text behind it. -/
def cutAt : Nat → List Symbol → Option (List Symbol × List Symbol)
  | 0, text => some ([], text)
  | _ + 1, [] => none
  | place + 1, symbol :: rest =>
      if size symbol ≤ place + 1 then
        (cutAt (place + 1 - size symbol) rest).map fun cut => (symbol :: cut.1, cut.2)
      else none

def sliceTo (place : Nat) (text : List Symbol) : Option (List Symbol) :=
  (cutAt size place text).map Prod.fst

def sliceFrom (place : Nat) (text : List Symbol) : Option (List Symbol) :=
  (cutAt size place text).map Prod.snd

/-- The text between two places, the first of which comes no later than the second. -/
def slice (start stop : Nat) (text : List Symbol) : Option (List Symbol) := do
  let front ← sliceTo size stop text
  sliceFrom size start front

variable {size}

theorem room_append (front back : List Symbol)
    : room size (front ++ back) = room size front + room size back := by
  rw [room, List.map_append, List.sum_append]
  rfl

theorem room_cons (symbol : Symbol) (rest : List Symbol)
    : room size (symbol :: rest) = size symbol + room size rest :=
  List.sum_cons

-- every symbol takes some room
variable (positive : ∀ symbol, 0 < size symbol)

include positive

variable {text : List Symbol}

theorem room_eq_zero_iff : room size text = 0 ↔ text = [] := by
  cases text with
  | nil => exact ⟨fun _ => rfl, fun _ => rfl⟩
  | cons symbol rest =>
      have some := positive symbol
      rw [room_cons]
      exact ⟨fun none => by omega, nofun⟩

/-- A text is cut where its front takes as much room, by induction on the text. -/
theorem cutAt_eq_some {place : Nat} {front back : List Symbol}
    : cutAt size place text = some (front, back)
      ↔ text = front ++ back ∧ room size front = place := by
  induction text generalizing place front with
  | nil =>
      cases place with
      | zero =>
          rw [cutAt, room_eq_zero_iff positive, Option.some.injEq, Prod.mk.injEq]
          constructor
          · rintro ⟨rfl, rfl⟩
            exact ⟨rfl, rfl⟩
          · rintro ⟨whole, rfl⟩
            exact ⟨rfl, whole⟩
      | succ place =>
          refine ⟨nofun, ?_⟩
          rintro ⟨whole, taken⟩
          obtain ⟨rfl, _⟩ := List.append_eq_nil_iff.mp whole.symm
          cases taken
  | cons symbol rest ih =>
      cases place with
      | zero =>
          rw [cutAt, room_eq_zero_iff positive, Option.some.injEq, Prod.mk.injEq]
          constructor
          · rintro ⟨rfl, rfl⟩
            exact ⟨rfl, rfl⟩
          · rintro ⟨whole, rfl⟩
            exact ⟨rfl, whole⟩
      | succ place =>
          rw [cutAt]
          constructor
          · intro found
            split at found
            next fits =>
                obtain ⟨⟨early, late⟩, cut, same⟩ := Option.map_eq_some_iff.mp found
                cases same
                obtain ⟨rfl, taken⟩ := ih.mp cut
                refine ⟨rfl, ?_⟩
                rw [room_cons, taken]
                omega
            · cases found
          · rintro ⟨whole, taken⟩
            cases front with
            | nil => cases taken
            | cons first later =>
                cases whole
                rw [room_cons] at taken
                rw [if_pos (by omega), ih.mpr ⟨rfl, by omega⟩]
                rfl

variable (text)

/-- A text is cut behind a number of its symbols. -/
theorem cutAt_take (count : Nat)
    : cutAt size (room size (text.take count)) text = some (text.take count, text.drop count) :=
  (cutAt_eq_some positive).mpr ⟨(List.take_append_drop count text).symm, rfl⟩

theorem sliceTo_take (count : Nat)
    : sliceTo size (room size (text.take count)) text = some (text.take count) := by
  rw [sliceTo, cutAt_take positive]
  rfl

theorem sliceFrom_take (count : Nat)
    : sliceFrom size (room size (text.take count)) text = some (text.drop count) := by
  rw [sliceFrom, cutAt_take positive]
  rfl

/-- The text between two numbers of symbols. -/
theorem slice_take {start stop : Nat} (ordered : start ≤ stop)
    : slice size (room size (text.take start)) (room size (text.take stop)) text
      = some ((text.take stop).drop start) := by
  have front : text.take start = (text.take stop).take start := by
    rw [List.take_take, Nat.min_eq_left ordered]
  rw [slice, sliceTo_take positive, front]
  exact sliceFrom_take positive _ _

variable {text}

theorem room_take_lt {fewer more : Nat} (less : fewer < more) (inside : more ≤ text.length)
    : room size (text.take fewer) < room size (text.take more) := by
  have parts : text.take more = text.take fewer ++ (text.take more).drop fewer := by
    have front : text.take fewer = (text.take more).take fewer := by
      rw [List.take_take, Nat.min_eq_left (Nat.le_of_lt less)]
    rw [front, List.take_append_drop]
  rw [parts, room_append]
  have some : ((text.take more).drop fewer).length = more - fewer := by
    rw [List.length_drop, List.length_take, Nat.min_eq_left inside]
  cases behind : (text.take more).drop fewer with
  | nil =>
      rw [behind, List.length_nil] at some
      omega
  | cons symbol rest =>
      rw [room_cons]
      have taken := positive symbol
      omega

theorem room_take_lt_iff {one two : Nat} (first : one ≤ text.length) (second : two ≤ text.length)
    : room size (text.take one) < room size (text.take two) ↔ one < two := by
  refine ⟨fun less => ?_, fun less => room_take_lt positive less second⟩
  by_contra other
  rcases Nat.lt_or_eq_of_le (Nat.not_lt.mp other) with more | rfl
  · exact absurd less (Nat.lt_asymm (room_take_lt positive more first))
  · exact absurd less (Nat.lt_irrefl _)

theorem room_take_le_iff {one two : Nat} (first : one ≤ text.length) (second : two ≤ text.length)
    : room size (text.take one) ≤ room size (text.take two) ↔ one ≤ two := by
  rw [← Nat.not_lt, ← Nat.not_lt, room_take_lt_iff positive second first]

end SkillRanker.Library
