import Mathlib.Algebra.Group.Int.Defs
import Mathlib.Algebra.Group.Nat.Defs
import Mathlib.Data.Nat.Order.Lemmas

/-! Words shared by every component: the machine ranges values are checked against and the
ranking stages a provider attempt can serve.
-/

namespace SkillRanker

def u32Max : Nat := 2 ^ 32 - 1

def u64Max : Nat := 2 ^ 64 - 1

def usizeMax : Nat := u64Max

/-- The largest value of a Rust `i64`, the integer type of a SQLite column. -/
def i64Max : Nat := 2 ^ 63 - 1

/-- The cast `value as i64` of a `u64`: values above `i64Max` wrap to negative ones. -/
def asI64 (value : Nat) : Int :=
  if value ≤ i64Max then value else (value : Int) - 2 ^ 64

/-- `u64::saturating_add`. -/
def saturatingAdd (left right : Nat) : Nat := min (left + right) u64Max

/-- `u32::saturating_add`. -/
def saturatingAddU32 (left right : Nat) : Nat := min (left + right) u32Max

/-- `u64::checked_add`. -/
def checkedAdd (left right : Nat) : Option Nat :=
  if left + right ≤ u64Max then some (left + right) else none

-- Instances that search finds as well, but with a proof of its own inside every declaration that
-- needs one. Under a name they are proved once, and declarations that agree stay equal as terms.

instance lawfulBEqText : LawfulBEq (List Char) := inferInstance

instance two_atLeastTwo : Nat.AtLeastTwo 2 := ⟨by decide⟩
instance four_atLeastTwo : Nat.AtLeastTwo 4 := ⟨by decide⟩
instance five_atLeastTwo : Nat.AtLeastTwo 5 := ⟨by decide⟩
instance ten_atLeastTwo : Nat.AtLeastTwo 10 := ⟨by decide⟩
instance twenty_atLeastTwo : Nat.AtLeastTwo 20 := ⟨by decide⟩
instance thirty_atLeastTwo : Nat.AtLeastTwo 30 := ⟨by decide⟩
instance fifty_atLeastTwo : Nat.AtLeastTwo 50 := ⟨by decide⟩
instance hundred_atLeastTwo : Nat.AtLeastTwo 100 := ⟨by decide⟩

/-- The stages of the recommendation pipeline that send provider requests. -/
inductive RankingStage
  | wide
  | rerank
  | probe
  | evaluation
deriving DecidableEq, Repr

def RankingStage.asStr : RankingStage → String
  | .wide => "wide"
  | .rerank => "rerank"
  | .probe => "probe"
  | .evaluation => "evaluation"

def utf8 (text : String) : List UInt8 := text.toUTF8.data.toList

theorem utf8_length (text : String) : (utf8 text).length = text.utf8ByteSize := rfl

/-- How a database transaction ends. A failed commit may still be durable. -/
inductive Commit
  | done
  | failed (durable : Bool)
deriving DecidableEq, Repr

theorem saturatingAdd_eq {left right : Nat} (room : left + right ≤ u64Max)
    : saturatingAdd left right = left + right :=
  Nat.min_eq_left room

theorem saturatingAddU32_eq {left right : Nat} (room : left + right ≤ u32Max)
    : saturatingAddU32 left right = left + right :=
  Nat.min_eq_left room

variable {value : Nat}

/-- A value within the `i64` range keeps its value under the cast. -/
theorem asI64_of_le (fits : value ≤ i64Max) : asI64 value = value := by
  simp [asI64, fits]

/-- A `u64` above the `i64` range becomes negative under the cast. -/
theorem asI64_neg (large : i64Max < value) (word : value ≤ u64Max)
    : asI64 value < 0 := by
  have above : ¬ value ≤ i64Max := by omega
  simp only [asI64, above, if_false]
  unfold u64Max at word
  omega

/-- A character takes at most four bytes. -/
theorem utf8ByteSize_ofList_le (chars : List Char)
    : (String.ofList chars).utf8ByteSize ≤ 4 * chars.length := by
  induction chars with
  | nil => exact Nat.le_refl _
  | cons first rest ih =>
      have size := first.utf8Size_le_four
      rw [String.ofList_cons, String.utf8ByteSize_append, String.utf8ByteSize_singleton,
        List.length_cons]
      omega

/-- The text of a 64-bit word is short. -/
theorem utf8ByteSize_toString_le (word : value < 2 ^ 64)
    : (toString value).utf8ByteSize ≤ 80 := by
  have digits : (Nat.toDigits 10 value).length ≤ 20 := by
    rw [Nat.length_toDigits_le_iff (by decide) (by decide)]
    omega
  rw [Nat.toString_eq_repr, Nat.repr_eq_ofList_toDigits]
  exact Nat.le_trans (utf8ByteSize_ofList_le _) (by omega)

end SkillRanker
