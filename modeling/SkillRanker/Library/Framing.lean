import Mathlib.Algebra.Group.Nat.Defs
import Mathlib.Logic.Function.Basic

/-! Delimited encodings: the end of an encoded value is known from its bytes, so that values
written one after the other are read back one after the other.
-/

namespace SkillRanker.Library

variable {α β : Type}

/-- The bytes of a number, least significant first. -/
def littleEndian : Nat → Nat → List UInt8
  | 0, _ => []
  | width + 1, value => UInt8.ofNat value :: littleEndian width (value / 256)

@[simp]
theorem littleEndian_length (width value : Nat) : (littleEndian width value).length = width := by
  induction width generalizing value with
  | zero => rfl
  | succ width ih => rw [littleEndian, List.length_cons, ih]

/-- Numbers within the width have their own bytes, by induction on the width. -/
theorem littleEndian_injective {width left right : Nat} (first : left < 256 ^ width)
    (second : right < 256 ^ width) (same : littleEndian width left = littleEndian width right)
    : left = right := by
  induction width generalizing left right with
  | zero => omega
  | succ width ih =>
      obtain ⟨low, high⟩ := List.cons.inj same
      have lowBytes : left % 256 = right % 256 := by
        simpa using congrArg UInt8.toNat low
      have within (value : Nat) (fits : value < 256 ^ (width + 1)) : value / 256 < 256 ^ width := by
        rw [Nat.pow_succ] at fits
        exact Nat.div_lt_of_lt_mul (by omega)
      have highBytes := ih (within left first) (within right second) high
      omega

/-- Two values whose encodings start the same bytes are equal, and so is what follows. -/
structure Delimited (encode : α → List UInt8) : Prop where
  split
    : ∀ {left right rest tail},
        encode left ++ rest = encode right ++ tail → left = right ∧ rest = tail

variable {rest tail : List UInt8}
variable {encode : α → List UInt8}

theorem Delimited.append_inj (delimited : Delimited encode) {left right : α}
    : encode left ++ rest = encode right ++ tail ↔ left = right ∧ rest = tail := by
  constructor
  · exact delimited.split
  · rintro ⟨rfl, rfl⟩
    rfl

theorem Delimited.injective (delimited : Delimited encode)
    : Function.Injective encode := by
  intro left right same
  exact (delimited.split (congrArg (fun bytes => bytes ++ []) same)).1

/-- Encodings of one length are delimited where they are injective. -/
theorem Delimited.fixed (width : Nat) (sized : ∀ value, (encode value).length = width)
    (injective : Function.Injective encode)
    : Delimited encode := by
  refine ⟨fun {left right rest tail} same => ?_⟩
  obtain ⟨values, rests⟩ := List.append_inj same ((sized left).trans (sized right).symm)
  exact ⟨injective values, rests⟩

/-- A value is told from its image. -/
theorem Delimited.comap {encode : β → List UInt8} (delimited : Delimited encode) {view : α → β}
    (injective : Function.Injective view)
    : Delimited (fun value => encode (view value)) := by
  refine ⟨fun {left right rest tail} same => ?_⟩
  obtain ⟨views, rests⟩ := delimited.split same
  exact ⟨injective views, rests⟩

def encodeOption (encode : α → List UInt8) : Option α → List UInt8
  | some value => 1 :: encode value
  | none => [0]

section

variable {encode : α → List UInt8} (delimited : Delimited encode)
include delimited

theorem Delimited.option
    : Delimited (encodeOption encode) := by
  refine ⟨fun {left right rest tail} same => ?_⟩
  cases left <;> cases right
  · exact ⟨rfl, (List.cons.inj same).2⟩
  · cases (List.cons.inj same).1
  · cases (List.cons.inj same).1
  · obtain ⟨values, rests⟩ := delimited.split (List.cons.inj same).2
    exact ⟨congrArg some values, rests⟩

/-- Values one after the other, told apart where there are as many. -/
theorem Delimited.flatMap {left right : List α} (sized : left.length = right.length)
    (same : left.flatMap encode ++ rest = right.flatMap encode ++ tail)
    : left = right ∧ rest = tail := by
  induction left generalizing right with
  | nil =>
      cases List.length_eq_zero_iff.mp sized.symm
      exact ⟨rfl, same⟩
  | cons first values ih =>
      cases right with
      | nil => cases sized
      | cons second others =>
          simp only [List.flatMap_cons, List.append_assoc] at same
          obtain ⟨firsts, remaining⟩ := delimited.split same
          obtain ⟨values, rests⟩ := ih (Nat.succ.inj sized) remaining
          exact ⟨by rw [firsts, values], rests⟩

theorem Delimited.counted (width : Nat) {left right : List α} (first : left.length < 256 ^ width)
    (second : right.length < 256 ^ width)
    (same
      : littleEndian width left.length ++ left.flatMap encode ++ rest
        = littleEndian width right.length ++ right.flatMap encode ++ tail)
    : left = right ∧ rest = tail := by
  simp only [List.append_assoc] at same
  obtain ⟨counts, remaining⟩ := List.append_inj same (by simp)
  exact delimited.flatMap (littleEndian_injective first second counts) remaining

end

/-- Encodings are delimited where their heads of one width tell the values apart. -/
theorem Delimited.ofHeads (width : Nat) (sized : ∀ value, width ≤ (encode value).length)
    (injective : Function.Injective (fun value => (encode value).take width))
    : Delimited encode := by
  refine ⟨fun {left right rest tail} same => ?_⟩
  have heads : (encode left).take width = (encode right).take width := by
    have taken := congrArg (List.take width) same
    rwa [List.take_append_of_le_length (sized left), List.take_append_of_le_length (sized right)]
      at taken
  cases injective heads
  exact ⟨rfl, List.append_cancel_left same⟩

end SkillRanker.Library
