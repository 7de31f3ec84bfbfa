import Mathlib.Data.List.Basic

/-! Reading bytes as UTF-8, with a replacement character for each part that is none. -/

namespace SkillRanker.Library

def encodeChars (text : List Char) : List UInt8 := text.flatMap String.utf8EncodeChar

/-- The first character of some bytes, and the bytes behind it. -/
def decodeFront (bytes : List UInt8) : Option (Char × List UInt8) :=
  (bytes.toByteArray.utf8DecodeChar? 0).map fun char => (char, bytes.drop char.utf8Size)

/-- A byte that may stand behind the first one of a character. -/
def isContinuation (byte : UInt8) : Bool := 0x80 ≤ byte && byte ≤ 0xBF

/-- The second byte may stand behind the first one of a character of three or four bytes. -/
def mayFollow (first second : UInt8) : Bool :=
  if first = 0xE0 then 0xA0 ≤ second && second ≤ 0xBF
  else if first = 0xED then 0x80 ≤ second && second ≤ 0x9F
  else if 0xE1 ≤ first && first ≤ 0xEF then isContinuation second
  else if first = 0xF0 then 0x90 ≤ second && second ≤ 0xBF
  else if first = 0xF4 then 0x80 ≤ second && second ≤ 0x8F
  else if 0xF1 ≤ first && first ≤ 0xF3 then isContinuation second
  else false

/-- How many bytes are replaced where no character begins: those that could begin one, or one. -/
def brokenLength : List UInt8 → Nat
  | first :: second :: rest =>
      if mayFollow first second then
        if 0xF0 ≤ first && rest.head?.any isContinuation then 3 else 2
      else 1
  | _ => 1

def replacement : Char := '\uFFFD'

/-- The characters of some bytes, with an amount of steps that is enough. -/
def lossyWithin : Nat → List UInt8 → List Char
  | 0, _ => []
  | _, [] => []
  | steps + 1, first :: rest =>
      match decodeFront (first :: rest) with
      | some (char, later) => char :: lossyWithin steps later
      | none =>
          replacement :: lossyWithin steps ((first :: rest).drop (brokenLength (first :: rest)))

/-- `String::from_utf8_lossy`. -/
def lossy (bytes : List UInt8) : List Char := lossyWithin bytes.length bytes

variable (char : Char)

/-- The first of some characters is read. -/
theorem decodeFront_encode (rest : List UInt8)
    : decodeFront (String.utf8EncodeChar char ++ rest) = some (char, rest) := by
  have read : (String.utf8EncodeChar char ++ rest).toByteArray.utf8DecodeChar? 0 = some char := by
    rw [List.toByteArray_append]
    exact ByteArray.utf8DecodeChar?_utf8EncodeChar_append
  unfold decodeFront
  rw [read, Option.map_some, ← String.length_utf8EncodeChar, List.drop_left]

variable {bytes : List UInt8}

theorem of_decodeFront {rest : List UInt8} {char : Char}
    (read : decodeFront bytes = some (char, rest))
    : bytes = String.utf8EncodeChar char ++ rest := by
  unfold decodeFront at read
  obtain ⟨found, isFound, same⟩ := Option.map_eq_some_iff.mp read
  cases same
  obtain ⟨later, whole⟩ := ByteArray.exists_of_utf8DecodeChar?_eq_some isFound
  have parts : bytes = String.utf8EncodeChar char ++ later.data.toList := by
    refine List.toByteArray_inj.mp ?_
    rw [List.toByteArray_append, whole]
    congr 1
    exact ByteArray.ext (by simp)
  rw [parts, ← String.length_utf8EncodeChar, List.drop_left]

/-- No character begins with this byte. -/
theorem decodeFront_broken (rest : List UInt8) : decodeFront (0xFF :: rest) = none := by
  have size : 0 < (0xFF :: rest).toByteArray.size := by simp
  have invalid : ByteArray.utf8DecodeChar?.parseFirstByte (0xFF :: rest).toByteArray[0]
      = .invalid := by
    rw [List.getElem_toByteArray, List.getElem_cons_zero]
    rfl
  have nothing : ((0xFF :: rest).toByteArray.utf8DecodeChar? 0).isSome = false := by
    rw [← ByteArray.validateUTF8At_eq_isSome_utf8DecodeChar?]
    unfold ByteArray.validateUTF8At
    rw [dif_pos size]
    split
    · rfl
    · next kind => rw [invalid] at kind; cases kind
    · next kind => rw [invalid] at kind; cases kind
    · next kind => rw [invalid] at kind; cases kind
    · next kind => rw [invalid] at kind; cases kind
  unfold decodeFront
  rw [Option.map_eq_none_iff]
  exact Option.isNone_iff_eq_none.mp (by simpa using nothing)

/-- Some bytes are replaced where no character begins. -/
theorem brokenLength_pos (bytes : List UInt8) : 0 < brokenLength bytes := by
  unfold brokenLength
  split
  · split
    · split <;> decide
    · decide
  · decide

theorem length_encodeChar_pos : 0 < (String.utf8EncodeChar char).length := by
  rw [String.length_utf8EncodeChar]
  exact char.utf8Size_pos

/-- More steps than bytes change nothing, by induction on the steps. -/
theorem lossyWithin_enough {one two : Nat} (oneEnough : bytes.length ≤ one)
    (twoEnough : bytes.length ≤ two)
    : lossyWithin one bytes = lossyWithin two bytes := by
  induction one generalizing two bytes with
  | zero =>
      have empty : bytes = [] := List.length_eq_zero_iff.mp (Nat.le_zero.mp oneEnough)
      subst empty
      cases two <;> rfl
  | succ one ih =>
      cases bytes with
      | nil => cases two <;> rfl
      | cons first rest =>
          cases two with
          | zero => cases twoEnough
          | succ two =>
              rw [lossyWithin, lossyWithin]
              split
              · next char later read =>
                  have parts := congrArg List.length (of_decodeFront read)
                  have some := length_encodeChar_pos char
                  simp only [List.length_append, List.length_cons] at parts oneEnough twoEnough
                  have fewOne : later.length ≤ one := by omega
                  have fewTwo : later.length ≤ two := by omega
                  rw [ih fewOne fewTwo]
              · have some := brokenLength_pos (first :: rest)
                simp only [List.length_cons] at oneEnough twoEnough
                rw [ih]
                · rw [List.length_drop, List.length_cons]
                  omega
                · rw [List.length_drop, List.length_cons]
                  omega

theorem lossy_encodeChar (rest : List UInt8)
    : lossy (String.utf8EncodeChar char ++ rest) = char :: lossy rest := by
  have some := length_encodeChar_pos char
  unfold lossy
  cases whole : String.utf8EncodeChar char ++ rest with
  | nil =>
      have empty := congrArg List.length whole
      simp only [List.length_append, List.length_nil] at empty
      omega
  | cons first later =>
      have front := decodeFront_encode char rest
      have lengths := congrArg List.length whole
      simp only [List.length_append, List.length_cons] at lengths
      rw [whole] at front
      rw [List.length_cons, lossyWithin, front]
      exact congrArg (char :: ·) (lossyWithin_enough (by omega) (Nat.le_refl _))

/-- Characters at the front are kept, by induction on them. -/
theorem lossy_encodeChars_append (text : List Char) (rest : List UInt8)
    : lossy (encodeChars text ++ rest) = text ++ lossy rest := by
  induction text with
  | nil => rfl
  | cons char text ih =>
      rw [encodeChars, List.flatMap_cons, List.append_assoc, lossy_encodeChar]
      exact congrArg (char :: ·) ih

theorem lossy_encodeChars (text : List Char) : lossy (encodeChars text) = text := by
  have whole := lossy_encodeChars_append text []
  rw [List.append_nil] at whole
  rw [whole]
  exact List.append_nil text

/-- A byte that begins no character is replaced. -/
theorem lossy_broken (rest : List UInt8) : lossy (0xFF :: rest) = replacement :: lossy rest := by
  have one : brokenLength (0xFF :: rest) = 1 := by
    cases rest with
    | nil => rfl
    | cons second later => rfl
  unfold lossy
  rw [List.length_cons, lossyWithin, decodeFront_broken, one]
  rfl

/-- Without a replacement the bytes are those of the characters, by induction on the steps. -/
theorem encodeChars_lossyWithin {steps : Nat} (enough : bytes.length ≤ steps)
    (none : replacement ∉ lossyWithin steps bytes)
    : encodeChars (lossyWithin steps bytes) = bytes := by
  induction steps generalizing bytes with
  | zero => exact (List.length_eq_zero_iff.mp (Nat.le_zero.mp enough)).symm
  | succ steps ih =>
      cases bytes with
      | nil => rfl
      | cons first rest =>
          rw [lossyWithin] at none ⊢
          split at none
          · next char later read =>
              have parts := of_decodeFront read
              have lengths := congrArg List.length parts
              have some := length_encodeChar_pos char
              simp only [List.length_append, List.length_cons] at lengths enough
              rw [encodeChars, List.flatMap_cons, parts]
              refine congrArg (String.utf8EncodeChar char ++ ·) (ih (by omega) ?_)
              exact fun mem => none (List.mem_cons_of_mem _ mem)
          · exact absurd List.mem_cons_self none

theorem encodeChars_lossy (none : replacement ∉ lossy bytes)
    : encodeChars (lossy bytes) = bytes :=
  encodeChars_lossyWithin (Nat.le_refl _) none

end SkillRanker.Library
