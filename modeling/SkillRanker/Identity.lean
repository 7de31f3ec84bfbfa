import SkillRanker.Library.Fallible
import SkillRanker.Primitives

/-! Bounded opaque identifiers. An identifier that breaks its rules cannot be built. -/

namespace SkillRanker

inductive IdentityError
  | empty
  | tooLong
  | invalidCharacter
  | reservedOption
  | invalidDigest
deriving DecidableEq, Repr

def maxIdBytes : Nat := 512

/-- `char::is_whitespace`. -/
def isWhitespace (char : Char) : Bool :=
  let code := char.toNat
  (0x9 ≤ code ∧ code ≤ 0xD)
    ∨ (0x2000 ≤ code ∧ code ≤ 0x200A)
    ∨ code ∈ [0x20, 0x85, 0xA0, 0x1680, 0x2028, 0x2029, 0x202F, 0x205F, 0x3000]

/-- Nothing but white space: `trim().is_empty()`. -/
def isBlank (text : String) : Bool := text.toList.all isWhitespace

/-- `char::is_control`. -/
def isControl (char : Char) : Bool :=
  let code := char.toNat
  code < 0x20 ∨ (0x7F ≤ code ∧ code < 0xA0)

/-- Characters that no identity may hold: blanks, controls and directional overrides. -/
def forbiddenIdentityCharacter (char : Char) : Bool :=
  let code := char.toNat
  isWhitespace char
    || isControl char
    || code ∈ [0x061C, 0x200E, 0x200F]
    || (0x202A ≤ code && code ≤ 0x202E)
    || (0x2066 ≤ code && code ≤ 0x2069)

def validateId (value : String) : Except IdentityError Unit :=
  if value.isEmpty then .error .empty
  else if value.utf8ByteSize > maxIdBytes then .error .tooLong
  else if value.toList.any forbiddenIdentityCharacter then .error .invalidCharacter
  else .ok ()

/-- A name a skill is called by, within the rules of identities. -/
structure InvocationName where
  text : String
  valid : validateId text = .ok ()
deriving DecidableEq

def InvocationName.new (name : String) : Except IdentityError InvocationName :=
  match checked : validateId name with
  | .ok () => .ok { text := name, valid := checked }
  | .error error => .error error

structure Identifier where
  text : String
  valid : validateId text = .ok ()
deriving DecidableEq

def Identifier.new (value : String) : Except IdentityError Identifier :=
  match checked : validateId value with
  | .ok () => .ok { text := value, valid := checked }
  | .error error => .error error

/-- The key of a skill within its source. -/
abbrev LogicalSkillKey := Identifier

abbrev WorkspaceId := Identifier
abbrev SessionId := Identifier
abbrev AgentId := Identifier
abbrev BranchId := Identifier
abbrev ContextEpoch := Identifier
abbrev AdapterId := Identifier
abbrev AdapterVersion := Identifier
abbrev ProducerId := Identifier
abbrev EventId := Identifier
abbrev HarnessId := Identifier

variable {value : String}

/-- An identifier is no longer than its bound. -/
theorem size_of_valid (valid : validateId value = .ok ())
    : value.utf8ByteSize ≤ maxIdBytes := by
  unfold validateId at valid
  split at valid
  · cases valid
  split at valid
  · cases valid
  · omega

theorem validateId_eq_ok
    : validateId value = .ok ()
      ↔ value.isEmpty = false ∧ value.utf8ByteSize ≤ maxIdBytes
        ∧ value.toList.any forbiddenIdentityCharacter = false := by
  unfold validateId
  split
  · simp_all
  split
  · simp_all
  split <;> simp_all

theorem Identifier.new_eq_ok (valid : validateId value = .ok ())
    : Identifier.new value = .ok { text := value, valid := valid } := by
  unfold Identifier.new
  split
  · rfl
  next error refused =>
      rw [valid] at refused
      cases refused

theorem forbiddenIdentityCharacter_of_isDigit {char : Char} (digit : char.isDigit = true)
    : forbiddenIdentityCharacter char = false := by
  have bounds : 48 ≤ char.toNat ∧ char.toNat ≤ 57 := by
    simp only [Char.isDigit, Bool.and_eq_true, decide_eq_true_iff] at digit
    exact ⟨digit.1, digit.2⟩
  unfold forbiddenIdentityCharacter isWhitespace isControl
  simp only [List.mem_cons, List.not_mem_nil, or_false, Bool.or_eq_false_iff,
    Bool.and_eq_false_iff, decide_eq_false_iff_not]
  omega

end SkillRanker
