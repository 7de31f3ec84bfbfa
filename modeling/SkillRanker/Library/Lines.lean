import Mathlib.Algebra.GroupWithZero.Nat
import Mathlib.Data.List.Basic

/-! Texts of lines that each end with a separator, and windows of such texts. -/

namespace SkillRanker.Library

variable {Symbol : Type} [DecidableEq Symbol]
variable {line left : List Symbol} {complete : List (List Symbol)}

def lines (separator : Symbol) : List Symbol → List (List Symbol) × List Symbol
  | [] => ([], [])
  | symbol :: rest =>
      let (complete, left) := lines separator rest
      if symbol = separator then ([] :: complete, left)
      else
        match complete with
        | [] => ([], symbol :: left)
        | line :: others => ((symbol :: line) :: others, left)

abbrev completeLines (separator : Symbol) (text : List Symbol) : List (List Symbol) :=
  (lines separator text).1

def written (separator : Symbol) (complete : List (List Symbol)) : List Symbol :=
  complete.flatMap fun line => line ++ [separator]

def extent (complete : List (List Symbol)) : Nat :=
  (complete.map fun line => line.length + 1).sum

variable {separator : Symbol}

omit [DecidableEq Symbol] in
@[simp]
theorem written_nil : written separator [] = [] := rfl

omit [DecidableEq Symbol] in
@[simp]
theorem written_cons (line : List Symbol) (rest : List (List Symbol))
    : written separator (line :: rest) = line ++ separator :: written separator rest := by
  simp [written]

omit [DecidableEq Symbol] in
@[simp]
theorem written_append (first rest : List (List Symbol))
    : written separator (first ++ rest) = written separator first ++ written separator rest := by
  simp [written]

omit [DecidableEq Symbol] in
@[simp]
theorem extent_nil : extent ([] : List (List Symbol)) = 0 := rfl

omit [DecidableEq Symbol] in
@[simp]
theorem extent_cons (line : List Symbol) (rest : List (List Symbol))
    : extent (line :: rest) = line.length + 1 + extent rest := by
  simp [extent]

omit [DecidableEq Symbol] in
@[simp]
theorem extent_append (first rest : List (List Symbol))
    : extent (first ++ rest) = extent first + extent rest := by
  simp [extent]

omit [DecidableEq Symbol] in
@[simp]
theorem written_length (complete : List (List Symbol))
    : (written separator complete).length = extent complete := by
  induction complete with
  | nil => rfl
  | cons line rest ih =>
      rw [written_cons, List.length_append, List.length_cons, ih, extent_cons]
      omega

omit [DecidableEq Symbol] in
/-- Longer runs of lines extend further. -/
theorem extent_take_le (complete : List (List Symbol)) {fewer more : Nat} (fewer_le : fewer ≤ more)
    : extent (complete.take fewer) ≤ extent (complete.take more) := by
  obtain ⟨extra, rfl⟩ := Nat.exists_eq_add_of_le fewer_le
  rw [List.take_add, extent_append]
  exact Nat.le_add_right _ _

omit [DecidableEq Symbol] in
theorem extent_take_lt (complete : List (List Symbol)) {fewer more : Nat}
    (fewer_lt : fewer < more) (within : more ≤ complete.length)
    : extent (complete.take fewer) < extent (complete.take more) := by
  have short : fewer < complete.length := by omega
  have next : extent (complete.take (fewer + 1))
      = extent (complete.take fewer) + ((complete[fewer]).length + 1) := by
    rw [List.take_add_one, List.getElem?_eq_getElem short, Option.toList_some, extent_append,
      extent_cons, extent_nil, Nat.add_zero]
  have bound := extent_take_le complete (Nat.succ_le_of_lt fewer_lt)
  rw [Nat.succ_eq_add_one] at bound
  omega

-- The lines of a text

/-- The lines and the rest are free of separators. -/
structure Clean (separator : Symbol) (complete : List (List Symbol)) (left : List Symbol)
    : Prop where
  lines : ∀ line ∈ complete, separator ∉ line
  left : separator ∉ left

omit [DecidableEq Symbol] in
theorem Clean.tail (clean : Clean separator (line :: complete) left)
    : Clean separator complete left where
  lines := fun other mem => clean.lines other (List.mem_cons_of_mem _ mem)
  left := clean.left

theorem lines_cons (clean : separator ∉ line) (rest : List Symbol)
    : lines separator (line ++ separator :: rest)
      = (line :: completeLines separator rest, (lines separator rest).2) := by
  induction line with
  | nil => simp [lines]
  | cons symbol line ih =>
      have first : symbol ≠ separator := fun same => clean (same ▸ List.mem_cons_self)
      have others : separator ∉ line := fun mem => clean (List.mem_cons_of_mem _ mem)
      rw [List.cons_append, lines, ih others]
      simp [first]

/-- The first separator of a text stands behind its first line. -/
theorem idxOf?_line (clean : separator ∉ line) (rest : List Symbol)
    : (line ++ separator :: rest).idxOf? separator = some line.length := by
  rw [List.idxOf?_eq_some_iff]
  refine ⟨by simp, by simp, ?_⟩
  intro index earlier same
  rw [List.getElem_append_left earlier] at same
  exact clean (same ▸ List.getElem_mem earlier)

/-- A text without a separator has no complete line. -/
theorem lines_of_not_mem {text : List Symbol} (clean : separator ∉ text)
    : lines separator text = ([], text) := by
  induction text with
  | nil => rfl
  | cons symbol rest ih =>
      have first : symbol ≠ separator := fun same => clean (same ▸ List.mem_cons_self)
      have others : separator ∉ rest := fun mem => clean (List.mem_cons_of_mem _ mem)
      rw [lines, ih others]
      simp [first]

/-- A text is its lines and its rest, by induction on the text. -/
theorem lines_spec (separator : Symbol) (text : List Symbol)
    : written separator (lines separator text).1 ++ (lines separator text).2 = text
      ∧ Clean separator (lines separator text).1 (lines separator text).2 := by
  induction text with
  | nil => exact ⟨rfl, ⟨by simp [lines], by simp [lines]⟩⟩
  | cons symbol rest ih =>
      obtain ⟨whole, clean⟩ := ih
      rw [lines]
      generalize lines separator rest = split at whole clean ⊢
      obtain ⟨complete, left⟩ := split
      by_cases ends : symbol = separator
      · subst ends
        simp only [↓reduceIte]
        refine ⟨by rw [written_cons, List.nil_append, List.cons_append, whole], ?_, clean.left⟩
        intro line mem
        rcases List.mem_cons.mp mem with rfl | mem
        · exact List.not_mem_nil
        · exact clean.lines line mem
      · simp only [if_neg ends]
        cases complete with
        | nil =>
            refine ⟨congrArg (symbol :: ·) whole, by simp, ?_⟩
            intro mem
            exact (List.mem_cons.mp mem).elim (fun same => ends same.symm) clean.left
        | cons line others =>
            refine ⟨congrArg (symbol :: ·) whole, ?_, clean.left⟩
            intro other mem
            rcases List.mem_cons.mp mem with rfl | later
            · intro listed
              rcases List.mem_cons.mp listed with same | listed
              · exact ends same.symm
              · exact clean.lines line List.mem_cons_self listed
            · exact clean.lines other (List.mem_cons_of_mem _ later)

/-- Lines and a rest without separators are the lines and the rest of what they write. -/
theorem lines_eq (clean : Clean separator complete left)
    : lines separator (written separator complete ++ left) = (complete, left) := by
  induction complete with
  | nil => rw [written_nil, List.nil_append, lines_of_not_mem clean.left]
  | cons line rest ih =>
      rw [written_cons, List.append_assoc, List.cons_append,
        lines_cons (clean.lines line List.mem_cons_self), completeLines, ih clean.tail]

theorem exists_lines (separator : Symbol) (text : List Symbol)
    : ∃ complete left, Clean separator complete left
      ∧ text = written separator complete ++ left :=
  ⟨_, _, (lines_spec separator text).2, (lines_spec separator text).1.symm⟩

/-- The lines of a text and their rest take all its room. -/
theorem extent_completeLines (separator : Symbol) (text : List Symbol)
    : extent (completeLines separator text) + (lines separator text).2.length = text.length := by
  have whole := congrArg List.length (lines_spec separator text).1
  rwa [List.length_append, written_length] at whole

/-- Lines and a rest, continued: the next line starts with the rest. -/
theorem lines_append {more : List (List Symbol)} {last : List Symbol}
    (clean : Clean separator complete left) (cleanMore : Clean separator (line :: more) last)
    : lines separator (written separator complete ++ left
        ++ (written separator (line :: more) ++ last))
      = (complete ++ (left ++ line) :: more, last) := by
  have joined : written separator complete ++ left ++ (written separator (line :: more) ++ last)
      = written separator (complete ++ (left ++ line) :: more) ++ last := by
    simp
  rw [joined]
  refine lines_eq ⟨?_, cleanMore.left⟩
  intro other mem
  rcases List.mem_append.mp mem with early | late
  · exact clean.lines other early
  · rcases List.mem_cons.mp late with rfl | late
    · intro listed
      rcases List.mem_append.mp listed with inLeft | inLine
      · exact clean.left inLeft
      · exact cleanMore.lines line List.mem_cons_self inLine
    · exact cleanMore.lines other (List.mem_cons_of_mem _ late)

theorem completeLines_append (separator : Symbol) (first rest : List Symbol)
    : completeLines separator first <+: completeLines separator (first ++ rest) := by
  obtain ⟨complete, left, clean, rfl⟩ := exists_lines separator first
  obtain ⟨further, last, cleanRest, rfl⟩ := exists_lines separator rest
  rw [completeLines, lines_eq clean]
  cases further with
  | cons line more =>
      rw [completeLines, lines_append clean cleanRest]
      exact List.prefix_append _ _
  | nil =>
      have joined : Clean separator complete (left ++ last) :=
        ⟨clean.lines, by simp [clean.left, cleanRest.left]⟩
      simp only [written_nil, List.nil_append, List.append_assoc, completeLines, lines_eq joined,
        List.prefix_rfl]

-- Windows of a text

def fitting : List (List Symbol) → Nat → Nat
  | [], _ => 0
  | line :: rest, room =>
      if line.length + 1 ≤ room then fitting rest (room - (line.length + 1)) + 1 else 0

omit [DecidableEq Symbol] in
theorem fitting_le_length (complete : List (List Symbol)) (room : Nat)
    : fitting complete room ≤ complete.length := by
  induction complete generalizing room with
  | nil => exact Nat.le_refl 0
  | cons line rest ih =>
      rw [fitting, List.length_cons]
      split
      · exact Nat.succ_le_succ (ih _)
      · exact Nat.zero_le _

omit [DecidableEq Symbol] in
/-- As many lines fit as do not extend past the room. -/
theorem le_fitting_iff {room count : Nat} (within : count ≤ complete.length)
    : count ≤ fitting complete room ↔ extent (complete.take count) ≤ room := by
  induction complete generalizing room count with
  | nil => simp_all [fitting]
  | cons line rest ih =>
      cases count with
      | zero => simp
      | succ count =>
          rw [fitting, List.take_succ_cons, extent_cons]
          rw [List.length_cons] at within
          split
          · next fits =>
            rw [Nat.add_le_add_iff_right, ih (Nat.le_of_succ_le_succ within)]
            omega
          · next short => omega

omit [DecidableEq Symbol] in
theorem extent_take_fitting (complete : List (List Symbol)) (room : Nat)
    : extent (complete.take (fitting complete room)) ≤ room :=
  (le_fitting_iff (fitting_le_length complete room)).mp (Nat.le_refl _)

omit [DecidableEq Symbol] in
/-- Just as many lines fit where they end. -/
theorem fitting_extent {count : Nat} (within : count ≤ complete.length)
    : fitting complete (extent (complete.take count)) = count := by
  have fits := (le_fitting_iff within).mpr (Nat.le_refl _)
  refine Nat.le_antisymm (Nat.le_of_not_lt fun more => ?_) fits
  have further := extent_take_lt complete more (fitting_le_length _ _)
  have room := extent_take_fitting complete (extent (complete.take count))
  omega

theorem completeLines_take (text : List Symbol) (room : Nat)
    : completeLines separator (text.take room)
      = (completeLines separator text).take (fitting (completeLines separator text) room) := by
  obtain ⟨complete, left, clean, rfl⟩ := exists_lines separator text
  rw [completeLines.eq_1 separator (written separator complete ++ left), lines_eq clean]
  induction complete generalizing room with
  | nil =>
      have clean : separator ∉ left.take room := fun mem => clean.left (List.mem_of_mem_take mem)
      rw [written_nil, List.nil_append, completeLines, lines_of_not_mem clean, List.take_nil]
  | cons line rest ih =>
      have first := clean.lines line List.mem_cons_self
      rw [fitting, written_cons, List.append_assoc, List.cons_append]
      split
      · next fits =>
        obtain ⟨extra, rfl⟩ := Nat.exists_eq_add_of_le fits
        have cut : line.length + 1 + extra - (line.length + 1) = extra := by omega
        have window : (line ++ separator :: (written separator rest ++ left)).take
            (line.length + 1 + extra)
            = line ++ separator :: (written separator rest ++ left).take extra := by
          rw [show line.length + 1 + extra = line.length + (extra + 1) by omega,
            List.take_length_add_append, List.take_succ_cons]
        rw [window, completeLines, lines_cons first, cut, ih extra clean.tail, List.take_succ_cons]
      · next short =>
        have inside : room ≤ line.length := by omega
        rw [List.take_append_of_le_length inside, List.take_zero, completeLines,
          lines_of_not_mem fun mem => first (List.mem_of_mem_take mem)]

/-- Past some of its lines, a text has the others. -/
theorem completeLines_drop (text : List Symbol) (count : Nat)
    : completeLines separator
        (text.drop (extent ((completeLines separator text).take count)))
      = (completeLines separator text).drop count := by
  obtain ⟨complete, left, clean, rfl⟩ := exists_lines separator text
  rw [completeLines.eq_1 separator (written separator complete ++ left), lines_eq clean]
  have parts : written separator complete ++ left
      = written separator (complete.take count)
        ++ (written separator (complete.drop count) ++ left) := by
    rw [← List.append_assoc, ← written_append, List.take_append_drop]
  have later : Clean separator (complete.drop count) left :=
    ⟨fun line mem => clean.lines line (List.mem_of_mem_drop mem), clean.left⟩
  have size : extent (complete.take count) = (written separator (complete.take count)).length :=
    (written_length _).symm
  rw [parts, size, List.drop_left, completeLines, lines_eq later]

/-- From anywhere in a text, the lines are those of the text, but for the start of the first:
it may be cut.
-/
theorem completeLines_cut (separator : Symbol) {text : List Symbol} {start : Nat}
    (within : start ≤ text.length)
    : (completeLines separator text).length
        = (completeLines separator (text.take start)).length
          + (completeLines separator (text.drop start)).length
      ∧ ∀ count, 0 < count → count ≤ (completeLines separator (text.drop start)).length
        → start + extent ((completeLines separator (text.drop start)).take count)
            = extent ((completeLines separator text).take
                ((completeLines separator (text.take start)).length + count))
          ∧ (completeLines separator (text.drop start)).drop count
            = (completeLines separator text).drop
                ((completeLines separator (text.take start)).length + count) := by
  obtain ⟨complete, left, clean, early⟩ := exists_lines separator (text.take start)
  obtain ⟨further, last, cleanRest, late⟩ := exists_lines separator (text.drop start)
  have room : extent complete + left.length = start := by
    have size := congrArg List.length early
    rw [List.length_take, List.length_append, written_length, Nat.min_eq_left within] at size
    exact size.symm
  have whole : text = written separator complete ++ left ++ (written separator further ++ last) := by
    rw [← early, ← late, List.take_append_drop]
  rw [early, late, completeLines.eq_1 separator (_ ++ left), lines_eq clean,
    completeLines.eq_1 separator (_ ++ last), lines_eq cleanRest]
  cases further with
  | nil =>
      have joined : Clean separator complete (left ++ last) :=
        ⟨clean.lines, by simp [clean.left, cleanRest.left]⟩
      rw [whole, written_nil, List.nil_append, List.append_assoc, completeLines, lines_eq joined]
      exact ⟨rfl, fun count some none => absurd some (by simpa using none)⟩
  | cons line more =>
      rw [whole, completeLines, lines_append clean cleanRest]
      refine ⟨by simp, fun count some _ => ?_⟩
      obtain ⟨count, rfl⟩ := Nat.exists_eq_succ_of_ne_zero (Nat.pos_iff_ne_zero.mp some)
      rw [List.take_length_add_append, List.drop_length_add_append]
      simp only [Nat.succ_eq_add_one, List.take_succ_cons, List.drop_succ_cons, extent_append,
        extent_cons, List.length_append, and_true]
      omega

-- The separators of a text

def lineEnds : Nat → List (List Symbol) → List Nat
  | _, [] => []
  | index, line :: rest => (index + line.length) :: lineEnds (index + line.length + 1) rest

omit [DecidableEq Symbol] in
@[simp]
theorem lineEnds_length (index : Nat) (complete : List (List Symbol))
    : (lineEnds index complete).length = complete.length := by
  induction complete generalizing index with
  | nil => rfl
  | cons line rest ih => rw [lineEnds, List.length_cons, ih, List.length_cons]

omit [DecidableEq Symbol] in
/-- Past the end of a line stands what the lines so far extend to. -/
theorem lineEnds_getElem? (index : Nat) {position : Nat} (within : position < complete.length)
    : ∃ last, (lineEnds index complete)[position]? = some last
      ∧ last + 1 = index + extent (complete.take (position + 1)) := by
  induction complete generalizing index position with
  | nil => cases within
  | cons line rest ih =>
      cases position with
      | zero => exact ⟨index + line.length, rfl, by simp; omega⟩
      | succ position =>
          obtain ⟨last, found, place⟩ :=
            ih (index + line.length + 1) (Nat.lt_of_succ_lt_succ within)
          refine ⟨last, found, ?_⟩
          rw [place, List.take_succ_cons, extent_cons]
          omega

/-- The separators of a text stand where its lines end. -/
theorem separators_eq (index : Nat) (clean : Clean separator complete left)
    : ((written separator complete ++ left).zipIdx index).filter (fun entry => entry.1 == separator)
      = (lineEnds index complete).map (separator, ·) := by
  have quiet (text : List Symbol) (index : Nat) (clean : separator ∉ text)
      : (text.zipIdx index).filter (fun entry => entry.1 == separator) = [] := by
    rw [List.filter_eq_nil_iff]
    rintro ⟨symbol, position⟩ mem same
    have listed : symbol ∈ text := (List.mem_zipIdx mem).2.2 ▸ List.getElem_mem _
    exact clean (eq_of_beq same ▸ listed)
  induction complete generalizing index with
  | nil => exact quiet left index clean.left
  | cons line rest ih =>
      rw [written_cons, List.append_assoc, List.zipIdx_append, List.filter_append,
        quiet line index (clean.lines line List.mem_cons_self), List.nil_append, List.cons_append,
        List.zipIdx_cons, List.filter_cons_of_pos (by simp), ih _ clean.tail, lineEnds,
        List.map_cons]

end SkillRanker.Library
