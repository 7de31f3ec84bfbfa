import SkillRanker.Library.Panics
import SkillRanker.Privacy.Redaction

/-! Cuts of redacted texts that keep markers whole, and the excerpts they make. -/

namespace SkillRanker.Privacy

open SkillRanker.Library Regex

variable (text : List Char)

-- Places of cuts

/-- Where the marker at a position ends, with the quote that closes it where one does. -/
def markerEnd (start : Nat) : Nat :=
  let stop := start + redactionMarker.length
  match (text.take start).getLast?, (text.drop stop).head? with
  | some opening, some closing => if isQuote opening && closing = opening then stop + 1 else stop
  | _, _ => stop

def markerLead (start : Nat) : Nat :=
  ((text.take start).rdropWhile fun char => isWhitespace char || isQuote char).length

/-- Behind the last white space, or at the start. There is no such place in the bytes where the
white space has more than one, since the source goes one byte on.
-/
def behindLastSpace : Option Nat :=
  let before := text.rdropWhile fun char => !isWhitespace char
  match before.getLast? with
  | none => some 0
  | some last => if last.utf8Size = 1 then some before.length else none

def headEndFrom (cut limit : Nat) : List Nat → Option Nat
  | [] => some cut
  | start :: later =>
      if cut < markerLead text start then some cut
      else if cut < markerEnd text start then
        if markerEnd text start ≤ limit then some (markerEnd text start)
        else behindLastSpace (text.take (markerLead text start))
      else headEndFrom cut limit later

/-- `redacted_head_end`, or none where the text cannot be cut there. -/
def redactedHeadEnd (cut limit : Nat) : Option Nat :=
  headEndFrom text cut limit (occurrences redactionMarker 0 0 text)

def tailStartFrom (cut : Nat) : List Nat → Nat
  | [] => cut
  | start :: later =>
      if cut ≤ start then cut
      else if cut < start + redactionMarker.length then start + redactionMarker.length
      else tailStartFrom cut later

def redactedTailStart (cut : Nat) : Nat :=
  tailStartFrom cut (occurrences redactionMarker 0 0 text)

variable {text}

theorem markerLead_le (start : Nat) : markerLead text start ≤ text.length := by
  have shorter := (List.rdropWhile_prefix (fun char => isWhitespace char || isQuote char)
    (text.take start)).length_le
  exact shorter.trans (List.length_take_le' _ _)

variable {stop : Nat}

theorem behindLastSpace_le (found : behindLastSpace text = some stop)
    : stop ≤ text.length := by
  unfold behindLastSpace at found
  dsimp only at found
  split at found
  · cases found
    exact Nat.zero_le _
  · split at found
    · cases found
      exact (List.rdropWhile_prefix _ _).length_le
    · cases found

variable {cut : Nat}

theorem headEndFrom_le {limit : Nat} {markers : List Nat} (within : cut ≤ limit)
    (found : headEndFrom text cut limit markers = some stop)
    : stop ≤ limit := by
  induction markers with
  | nil =>
      cases found
      exact within
  | cons start later ih =>
      rw [headEndFrom] at found
      split at found
      · cases found
        exact within
      · split at found
        · split at found
          next fits =>
              cases found
              exact fits
          · have before := behindLastSpace_le found
            have taken := List.length_take_le (markerLead text start) text
            omega
        · exact ih found

theorem redactedHeadEnd_le {limit : Nat} (within : cut ≤ limit)
    (found : redactedHeadEnd text cut limit = some stop)
    : stop ≤ limit :=
  headEndFrom_le within found

theorem le_tailStartFrom (cut : Nat) (markers : List Nat) : cut ≤ tailStartFrom cut markers := by
  induction markers with
  | nil => exact le_rfl
  | cons start later ih =>
      rw [tailStartFrom]
      split
      · exact le_rfl
      · split
        next inside => exact inside.le
        · exact ih

theorem tailStartFrom_le {bound : Nat} {markers : List Nat} (within : cut ≤ bound)
    (inside : ∀ start ∈ markers, start + redactionMarker.length ≤ bound)
    : tailStartFrom cut markers ≤ bound := by
  induction markers with
  | nil => exact within
  | cons start later ih =>
      rw [tailStartFrom]
      split
      · exact within
      · split
        · exact inside start List.mem_cons_self
        · exact ih fun start mem => inside start (List.mem_cons_of_mem _ mem)

theorem redactedTailStart_le (within : cut ≤ text.length)
    : redactedTailStart text cut ≤ text.length := by
  refine tailStartFrom_le within fun start mem => ?_
  obtain ⟨before, after, is, rfl⟩ := of_mem_occurrences mem
  rw [is, List.length_append, List.length_append]
  omega

theorem le_redactedTailStart (cut : Nat) : cut ≤ redactedTailStart text cut :=
  le_tailStartFrom cut _

variable (text)

-- Excerpts

/-- What is left of a text between two positions, the places of a head's end and a tail's start. -/
structure Cut where
  headEnd : Nat
  tailStart : Nat
deriving DecidableEq

/-- A head and a tail that have so many characters together. The head may take the tail's share,
and the tail has what the head leaves.
-/
def cutAround (head budget : Nat) : Option Cut :=
  (redactedHeadEnd text head budget).map fun headEnd =>
    let tailChars := budget - headEnd
    {
      headEnd := headEnd
      tailStart := max (redactedTailStart text (text.length - tailChars)) headEnd
    }

variable {text} in
/-- A head and a tail have no more characters than there is budget for. -/
theorem cutAround_fits {head budget : Nat} {cut : Cut} (within : head ≤ budget)
    (short : budget ≤ text.length) (found : cutAround text head budget = some cut)
    : cut.headEnd + (text.length - cut.tailStart) ≤ budget ∧ cut.tailStart ≤ text.length := by
  obtain ⟨headEnd, ends, rfl⟩ := Option.map_eq_some_iff.mp found
  have limit := redactedHeadEnd_le within ends
  have start := @le_redactedTailStart text (text.length - (budget - headEnd))
  have stop : redactedTailStart text (text.length - (budget - headEnd)) ≤ text.length :=
    redactedTailStart_le (by omega)
  dsimp only
  omega

def excerptCut (maxScalars : Nat) : Option Cut :=
  if maxScalars ≤ excerptJoin.length then
    (redactedHeadEnd text maxScalars maxScalars).map fun headEnd =>
      {
        headEnd := headEnd
        tailStart := text.length
      }
  else
    let budget := maxScalars - excerptJoin.length
    cutAround text ((budget + 1) / 2) budget

/-- The text with a join in place of what is cut out, where a tail is left. -/
def Cut.joined (cut : Cut) : List Char :=
  let join := if cut.tailStart < text.length then excerptJoin else []
  text.take cut.headEnd ++ join ++ text.drop cut.tailStart

def Redactor.redactFieldExcerpt (scanner : Scanner) (redactor : Redactor) (field : List Char)
    (maxScalars : Nat)
    : Panicking RedactionError RedactedField := do
  returned (ensure (maxScalars ≤ maxRedactedExcerptScalars) .excerptTooLong)
  let result ← returned (redactor.redactField scanner field)
  if result.text.length ≤ maxScalars then return result
  else
    let cut ← present (excerptCut result.text maxScalars)
    return { result with
      text := cut.joined result.text
      omittedScalars := cut.tailStart - cut.headEnd
    }

end SkillRanker.Privacy
