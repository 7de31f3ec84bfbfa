import Mathlib.Data.List.DropRight
import Mathlib.Data.List.Infix
import Mathlib.Data.Nat.Basic
import Mathlib.Tactic.Linarith

/-! Texts as lists of characters: parts between separators, and decimal numbers. -/

namespace SkillRanker.Library

-- Parts

variable {α : Type} [DecidableEq α]

/-- What comes before the first separator and after it, if there is one. -/
def splitOnce (separator : α) : List α → Option (List α × List α)
  | [] => none
  | first :: rest =>
      if first = separator then some ([], rest)
      else (splitOnce separator rest).map fun (before, after) => (first :: before, after)

def stripLast (last : α) (text : List α) : Option (List α) :=
  if text.getLast? = some last then some text.dropLast else none

def findText (wanted : List α) : List α → Option Nat
  | [] => if wanted = [] then some 0 else none
  | first :: rest =>
      if wanted.isPrefixOf (first :: rest) then some 0 else (findText wanted rest).map (· + 1)

/-- Where a text has another one in it, each behind the end of the one before it: `match_indices`. -/
def occurrences (wanted : List α) : (skip position : Nat) → List α → List Nat
  | _, _, [] => []
  | skip + 1, position, _ :: rest => occurrences wanted skip (position + 1) rest
  | 0, position, first :: rest =>
      if wanted.isPrefixOf (first :: rest) then
        position :: occurrences wanted (wanted.length - 1) (position + 1) rest
      else occurrences wanted 0 (position + 1) rest

variable {start : Nat}
variable {wanted text : List α}

/-- The other text stands where it is found, by induction on the text. -/
theorem of_mem_occurrences {skip position : Nat}
    (mem : start ∈ occurrences wanted skip position text)
    : ∃ before after, text = before ++ wanted ++ after ∧ start = position + before.length := by
  induction text generalizing skip position with
  | nil => cases skip <;> cases mem
  | cons first rest ih =>
      have onward {skip : Nat} (later : start ∈ occurrences wanted skip (position + 1) rest)
          : ∃ before after, first :: rest = before ++ wanted ++ after
              ∧ start = position + before.length := by
        obtain ⟨before, after, rfl, rfl⟩ := ih later
        refine ⟨first :: before, after, rfl, ?_⟩
        rw [List.length_cons]
        omega
      cases skip with
      | succ skip => exact onward mem
      | zero =>
          rw [occurrences] at mem
          split at mem
          next found =>
              rcases List.mem_cons.mp mem with rfl | later
              · obtain ⟨after, is⟩ := List.isPrefixOf_iff_prefix.mp found
                exact ⟨[], after, is.symm, rfl⟩
              · exact onward later
          · exact onward mem

/-- Occurrences come one behind the end of another, by induction on the text. -/
theorem occurrences_spaced (wanted text : List α) (skip position : Nat)
    : (∀ start ∈ occurrences wanted skip position text, position + skip ≤ start)
      ∧ (occurrences wanted skip position text).Pairwise fun one two =>
          one + wanted.length ≤ two := by
  induction text generalizing skip position with
  | nil => cases skip <;> exact ⟨nofun, .nil⟩
  | cons first rest ih =>
      cases skip with
      | succ skip =>
          obtain ⟨onward, spaced⟩ := ih skip (position + 1)
          rw [occurrences]
          exact ⟨fun start mem => by have := onward start mem; omega, spaced⟩
      | zero =>
          rw [occurrences]
          split
          · obtain ⟨onward, spaced⟩ := ih (wanted.length - 1) (position + 1)
            refine ⟨?_, List.pairwise_cons.mpr ⟨?_, spaced⟩⟩
            · intro start mem
              rcases List.mem_cons.mp mem with rfl | later
              · exact le_rfl
              · have := onward start later
                omega
            · intro start mem
              have := onward start mem
              omega
          · obtain ⟨onward, spaced⟩ := ih 0 (position + 1)
            exact ⟨fun start mem => by have := onward start mem; omega, spaced⟩

variable {separator : α}

theorem splitOnce_of_not_mem (absent : separator ∉ text)
    : splitOnce separator text = none := by
  induction text with
  | nil => rfl
  | cons first rest ih =>
      rw [List.mem_cons, not_or] at absent
      obtain ⟨different, later⟩ := absent
      rw [splitOnce, if_neg (Ne.symm different), ih later]
      rfl

variable {before : List α}

theorem splitOnce_append (absent : separator ∉ before) (after : List α)
    : splitOnce separator (before ++ separator :: after) = some (before, after) := by
  induction before with
  | nil => rw [List.nil_append, splitOnce, if_pos rfl]
  | cons first rest ih =>
      rw [List.mem_cons, not_or] at absent
      obtain ⟨different, later⟩ := absent
      rw [List.cons_append, splitOnce, if_neg (Ne.symm different), ih later]
      rfl

theorem splitOnce_eq_some {after : List α} (split : splitOnce separator text = some (before, after))
    : text = before ++ separator :: after ∧ separator ∉ before := by
  induction text generalizing before with
  | nil => cases split
  | cons first rest ih =>
      unfold splitOnce at split
      split at split
      next same =>
          cases split
          exact ⟨by rw [same]; rfl, List.not_mem_nil⟩
      next different =>
          obtain ⟨⟨front, back⟩, found, same⟩ := Option.map_eq_some_iff.mp split
          cases same
          obtain ⟨rfl, absent⟩ := ih found
          exact ⟨rfl, by simpa [Ne.symm different] using absent⟩

theorem not_mem_splitOnce_eq_some_none (whole : splitOnce separator text = none)
    : separator ∉ text := by
  induction text with
  | nil => exact List.not_mem_nil
  | cons first rest ih =>
      unfold splitOnce at whole
      split at whole
      next => cases whole
      next different =>
          have absent := ih (Option.map_eq_none_iff.mp whole)
          simpa [Ne.symm different] using absent

theorem splitOn_of_not_mem (absent : separator ∉ text)
    : text.splitOn separator = [text] := by
  refine List.splitOnP_eq_singleton fun item mem => ?_
  rw [beq_eq_false_iff_ne]
  rintro rfl
  exact absent mem

theorem splitOn_append (absent : separator ∉ before) (after : List α)
    : (before ++ separator :: after).splitOn separator = before :: after.splitOn separator := by
  have split := List.splitOnP_append_cons (p := (· == separator)) before after (beq_self_eq_true _)
  rw [List.splitOn, split]
  have alone := splitOn_of_not_mem absent
  rw [List.splitOn] at alone
  rw [alone]
  rfl

-- Texts within texts

/-- Where a text is first found, it stands. -/
theorem of_findText (found : findText wanted text = some start)
    : ∃ before after, text = before ++ wanted ++ after ∧ before.length = start := by
  induction text generalizing start with
  | nil =>
      unfold findText at found
      split at found
      · next empty =>
          cases found
          exact ⟨[], [], by simp [empty], rfl⟩
      · cases found
  | cons first rest ih =>
      unfold findText at found
      split at found
      · next here =>
          cases found
          obtain ⟨after, is⟩ := List.isPrefixOf_iff_prefix.mp here
          exact ⟨[], after, is.symm, rfl⟩
      · obtain ⟨later, foundLater, rfl⟩ := Option.map_eq_some_iff.mp found
        obtain ⟨before, after, rfl, rfl⟩ := ih foundLater
        exact ⟨first :: before, after, rfl, rfl⟩

/-- A text that is not found does not stand anywhere. -/
theorem findText_eq_none_iff
    : findText wanted text = none ↔ ¬wanted <:+: text := by
  induction text with
  | nil =>
      unfold findText
      split
      · next empty => simp [empty]
      · next full => simpa using full
  | cons first rest ih =>
      unfold findText
      rw [List.infix_cons_iff, not_or]
      split
      · next here => simp [List.isPrefixOf_iff_prefix.mp here]
      · next elsewhere =>
          rw [Option.map_eq_none_iff, ih]
          exact ⟨fun absent => ⟨fun here => elsewhere (List.isPrefixOf_iff_prefix.mpr here), absent⟩,
            And.right⟩

/-- A text that is found is found at the same place with more behind it. -/
theorem findText_append (found : findText wanted text = some start) (more : List α)
    : findText wanted (text ++ more) = some start := by
  induction text generalizing start with
  | nil =>
      unfold findText at found
      split at found
      · next empty =>
          cases found
          cases more <;> simp [findText, empty]
      · cases found
  | cons first rest ih =>
      rw [List.cons_append]
      unfold findText at found ⊢
      split at found
      · next here =>
          have still : wanted.isPrefixOf (first :: (rest ++ more)) = true :=
            List.isPrefixOf_iff_prefix.mpr
              ((List.isPrefixOf_iff_prefix.mp here).trans (List.prefix_append _ more))
          rw [if_pos still]
          exact found
      · next elsewhere =>
          obtain ⟨later, foundLater, rfl⟩ := Option.map_eq_some_iff.mp found
          obtain ⟨before, after, rfl, _⟩ := of_findText foundLater
          rw [if_neg, ih foundLater]
          · rfl
          · intro here
            refine elsewhere (List.isPrefixOf_iff_prefix.mpr ?_)
            refine List.prefix_of_prefix_length_le (List.isPrefixOf_iff_prefix.mp here)
              (List.prefix_append (first :: (before ++ wanted ++ after)) more) ?_
            simp only [List.length_cons, List.length_append]
            omega

omit [DecidableEq α] in
/-- A text without an item at the start of another one ends before that item. -/
theorem prefix_of_prefix_append_cons {after : List α} {item : α} (absent : item ∉ wanted)
    (found : wanted <+: before ++ item :: after)
    : wanted <+: before := by
  induction before generalizing wanted with
  | nil =>
      cases wanted with
      | nil => exact List.nil_prefix
      | cons first rest =>
          have same : first = item := (List.cons_prefix_cons.mp found).1
          exact absurd (same ▸ List.mem_cons_self) absent
  | cons first rest ih =>
      cases wanted with
      | nil => exact List.nil_prefix
      | cons head tail =>
          obtain ⟨same, later⟩ := List.cons_prefix_cons.mp found
          exact List.cons_prefix_cons.mpr
            ⟨same, ih (fun mem => absent (List.mem_cons_of_mem _ mem)) later⟩

omit [DecidableEq α] in
/-- A text without an item stands before it or behind it. -/
theorem infix_of_infix_append_cons {after : List α} {item : α} (absent : item ∉ wanted)
    (found : wanted <:+: before ++ item :: after)
    : wanted <:+: before ∨ wanted <:+: after := by
  induction before with
  | nil =>
      rcases List.infix_cons_iff.mp found with here | later
      · have whole : wanted <+: [] ++ item :: after := here
        exact .inl (prefix_of_prefix_append_cons absent whole).isInfix
      · exact .inr later
  | cons first rest ih =>
      rcases List.infix_cons_iff.mp found with here | later
      · have whole : wanted <+: (first :: rest) ++ item :: after := here
        exact .inl (prefix_of_prefix_append_cons absent whole).isInfix
      · rcases ih later with inBefore | inAfter
        · exact .inl (List.infix_cons_iff.mpr (.inr inBefore))
        · exact .inr inAfter

omit [DecidableEq α] in
/-- A part ends where the next one begins. -/
theorem takeWhile_of_stop {p : α → Bool} {front back : List α}
    (stop : ∀ first, back.head? = some first → p first = false)
    : (front ++ back).takeWhile p = front.takeWhile p := by
  induction front with
  | nil =>
      cases back with
      | nil => rfl
      | cons first rest => simp [stop first rfl]
  | cons first rest ih => simp [List.takeWhile_cons, ih]

omit [DecidableEq α] in
/-- What comes behind a part has the next one at its end. -/
theorem dropWhile_of_stop {p : α → Bool} {front back : List α}
    (stop : ∀ first, back.head? = some first → p first = false)
    : (front ++ back).dropWhile p = front.dropWhile p ++ back := by
  induction front with
  | nil =>
      cases back with
      | nil => rfl
      | cons first rest => simp [stop first rfl]
  | cons first rest ih =>
      rw [List.cons_append, List.dropWhile_cons, List.dropWhile_cons, ih]
      split <;> rfl

omit [DecidableEq α] in
/-- The characters before the first one of a kind are of another kind. -/
theorem of_mem_takeWhile_not {p : α → Bool} {item : α} (mem : item ∈ text.takeWhile (!p ·))
    : p item = false := by
  have holds := List.mem_takeWhile_imp mem
  simpa using holds

omit [DecidableEq α] in
/-- A front whose last character is kept is kept whole, by induction on what is behind it. -/
theorem append_isPrefix_rdropWhile {p : α → Bool} {front back : List α} {last : α}
    (kept : p last = false)
    : front ++ [last] <+: (front ++ [last] ++ back).rdropWhile p := by
  induction back using List.reverseRecOn with
  | nil =>
      rw [List.append_nil, List.rdropWhile_concat, if_neg (by rw [kept]; nofun)]
  | append_singleton back next ih =>
      rw [← List.append_assoc, List.rdropWhile_concat]
      split
      · exact ih
      · rw [List.append_assoc]
        exact List.prefix_append _ _

omit [DecidableEq α] in
/-- All that is behind the last kept character is dropped. -/
theorem rdropWhile_append_of_dropped {p : α → Bool} {front back : List α}
    (dropped : ∀ char ∈ back, p char = true)
    : (front ++ back).rdropWhile p = front.rdropWhile p := by
  induction back using List.reverseRecOn with
  | nil => rw [List.append_nil]
  | append_singleton back next ih =>
      rw [← List.append_assoc, List.rdropWhile_concat,
        if_pos (dropped next (List.mem_append_right _ List.mem_cons_self))]
      exact ih fun char mem => dropped char (List.mem_append_left _ mem)

-- Decimal numbers

/-- The digits of a number, with zeros before them up to a width. -/
def decimal (width n : Nat) : List Char :=
  let digits := Nat.toDigits 10 n
  List.replicate (width - digits.length) '0' ++ digits

def readDigits (text : List Char) : Option Nat :=
  if text ≠ [] ∧ text.all Char.isDigit then some (Nat.ofDigitChars 10 text 0) else none

/-- The number that digits stand for, with a sign before them or none. -/
def readInteger (text : List Char) : Option Int :=
  match text with
  | '-' :: rest => (readDigits rest).map fun value => -(value : Int)
  | '+' :: rest => (readDigits rest).map Int.ofNat
  | _ => (readDigits text).map Int.ofNat

variable {n : Nat} {char : Char}

theorem isDigit_of_mem_decimal {width : Nat} (mem : char ∈ decimal width n)
    : char.isDigit = true := by
  unfold decimal at mem
  rcases List.mem_append.mp mem with zero | digit
  · rw [(List.mem_replicate.mp zero).2]
    rfl
  · exact Nat.isDigit_of_mem_toDigits (by decide) (by decide) digit

theorem decimal_ne_nil (width n : Nat) : decimal width n ≠ [] := by
  unfold decimal
  exact List.append_ne_nil_of_right_ne_nil _ Nat.toDigits_ne_nil

theorem readDigits_decimal (width n : Nat) : readDigits (decimal width n) = some n := by
  have digits : (decimal width n).all Char.isDigit = true :=
    List.all_eq_true.mpr fun _ mem => isDigit_of_mem_decimal mem
  unfold readDigits
  rw [if_pos ⟨decimal_ne_nil width n, digits⟩]
  unfold decimal
  rw [Nat.ofDigitChars_append, Nat.ofDigitChars_replicate_zero, Nat.mul_zero,
    Nat.ofDigitChars_ten_toDigits]

theorem readInteger_decimal (width n : Nat) : readInteger (decimal width n) = some (n : Int) := by
  have plain : readInteger (decimal width n) = (readDigits (decimal width n)).map Int.ofNat := by
    unfold readInteger
    split
    · next rest is =>
      have mem : '-' ∈ decimal width n := is ▸ List.mem_cons_self
      exact absurd (isDigit_of_mem_decimal mem) (by decide)
    · next rest is =>
      have mem : '+' ∈ decimal width n := is ▸ List.mem_cons_self
      exact absurd (isDigit_of_mem_decimal mem) (by decide)
    · rfl
  rw [plain, readDigits_decimal]
  rfl

variable {text : List Char} {value : Nat}

/-- A text of digits is not empty, and has nothing else. -/
theorem of_readDigits (read : readDigits text = some value)
    : text ≠ [] ∧ ∀ char ∈ text, char.isDigit = true := by
  unfold readDigits at read
  split at read
  · next digits => exact ⟨digits.1, List.all_eq_true.mp digits.2⟩
  · cases read

theorem readDigits_of_mem (mem : char ∈ text) (other : char.isDigit = false)
    : readDigits text = none := by
  cases read : readDigits text with
  | none => rfl
  | some value =>
      have digit := (of_readDigits read).2 char mem
      rw [other] at digit
      cases digit

theorem readInteger_of_digit {first : Char} {rest : List Char} (digit : first.isDigit = true)
    : readInteger (first :: rest) = (readDigits (first :: rest)).map Int.ofNat := by
  unfold readInteger
  split
  · next is =>
    obtain ⟨rfl, _⟩ := List.cons.inj is
    exact absurd digit (by decide)
  · next is =>
    obtain ⟨rfl, _⟩ := List.cons.inj is
    exact absurd digit (by decide)
  · rfl

theorem readInteger_of_readDigits (read : readDigits text = some value)
    : readInteger text = some (value : Int) := by
  obtain ⟨nonempty, digits⟩ := of_readDigits read
  obtain ⟨first, rest, rfl⟩ := List.exists_cons_of_ne_nil nonempty
  rw [readInteger_of_digit (digits first List.mem_cons_self), read]
  rfl

theorem digit_bounds (digit : char.isDigit = true)
    : 48 ≤ char.toNat ∧ char.toNat ≤ 57 := by
  simp only [Char.isDigit, Bool.and_eq_true, decide_eq_true_eq, UInt32.le_iff_toNat_le] at digit
  exact digit

/-- Digits stand for a number below the power of their count, by induction on them. -/
theorem ofDigitChars_lt (digits : ∀ char ∈ text, char.isDigit = true)
    : Nat.ofDigitChars 10 text 0 < 10 ^ text.length := by
  induction text with
  | nil => exact Nat.one_pos
  | cons first rest ih =>
      have later := ih fun char mem => digits char (List.mem_cons_of_mem _ mem)
      have digit : first.toNat - '0'.toNat ≤ 9 := by
        have bounds := digit_bounds (digits first List.mem_cons_self)
        change first.toNat - 48 ≤ 9
        omega
      rw [Nat.ofDigitChars_cons, Nat.ofDigitChars_eq_ofDigitChars_zero, List.length_cons,
        Nat.pow_succ]
      nlinarith [Nat.mul_le_mul_left (10 ^ rest.length) digit]

theorem readDigits_lt (read : readDigits text = some value)
    : value < 10 ^ text.length := by
  have bound := ofDigitChars_lt (of_readDigits read).2
  unfold readDigits at read
  split at read
  · rwa [← Option.some.inj read]
  · cases read

/-- A number below the power of its width has as many digits. -/
theorem length_decimal {width : Nat} (positive : 0 < width) (bounded : n < 10 ^ width)
    : (decimal width n).length = width := by
  have digits := (Nat.length_toDigits_le_iff (b := 10) (by decide) positive).mpr bounded
  unfold decimal
  rw [List.length_append, List.length_replicate]
  omega

/-- A greater number has no fewer digits. -/
theorem length_decimal_mono {m : Nat} (le : n ≤ m)
    : (decimal 0 n).length ≤ (decimal 0 m).length := by
  unfold decimal
  simp only [Nat.zero_sub, List.replicate_zero, List.nil_append]
  have positive : 0 < (Nat.toDigits 10 m).length := Nat.length_toDigits_pos
  have bounded := (Nat.length_toDigits_le_iff (b := 10) (n := m) (by decide) positive).mp le_rfl
  exact (Nat.length_toDigits_le_iff (b := 10) (by decide) positive).mpr (by omega)

/-- Digits stand for a positive number unless the first one is a zero. -/
theorem ofDigitChars_pos {first : Char} {rest : List Char} (digit : first.isDigit = true)
    (notZero : first ≠ '0')
    : 0 < Nat.ofDigitChars 10 (first :: rest) 0 := by
  have bounds := digit_bounds digit
  have positive : 0 < first.toNat - '0'.toNat := by
    change 0 < first.toNat - 48
    have different : first.toNat ≠ 48 := fun same => notZero (Char.toNat_inj.mp same)
    omega
  rw [Nat.ofDigitChars_cons, Nat.ofDigitChars_eq_ofDigitChars_zero]
  have := Nat.pow_pos (n := rest.length) (show 0 < 10 by decide)
  nlinarith [Nat.mul_le_mul_left (10 ^ rest.length) positive]

/-- A number is written with the digits that it was read from, when they have no zeros in front of
them, by induction on the digits from the last one on. -/
theorem toDigits_ofDigitChars (nonempty : text ≠ []) (digits : ∀ char ∈ text, char.isDigit = true)
    (noZeros : text.length = 1 ∨ text.head? ≠ some '0')
    : Nat.toDigits 10 (Nat.ofDigitChars 10 text 0) = text := by
  induction text using List.reverseRecOn with
  | nil => exact absurd rfl nonempty
  | append_singleton front last ih =>
      have lastDigit := digits last (by simp)
      have bounds := digit_bounds lastDigit
      have small : last.toNat - '0'.toNat < 10 := by
        change last.toNat - 48 < 10
        omega
      have single : Nat.toDigits 10 (last.toNat - '0'.toNat) = [last] := by
        have digit : ∀ value < 10, Nat.digitChar value = Char.ofNat (48 + value) := by decide
        rw [Nat.toDigits_of_lt_base small, digit _ small]
        change [Char.ofNat (48 + (last.toNat - 48))] = [last]
        rw [Nat.add_sub_cancel' bounds.1, Char.ofNat_toNat]
      cases front with
      | nil =>
          rw [List.nil_append, Nat.ofDigitChars_cons, Nat.ofDigitChars_nil, Nat.mul_zero,
            Nat.zero_add, single]
      | cons first rest =>
          have head : first ≠ '0' := by
            rcases noZeros with one | notZero
            · simp at one
            · simpa using notZero
          have frontDigits : ∀ char ∈ first :: rest, char.isDigit = true := fun char mem =>
            digits char (List.mem_append_left _ mem)
          have positive : 0 < Nat.ofDigitChars 10 (first :: rest) 0 :=
            ofDigitChars_pos (frontDigits first List.mem_cons_self) head
          rw [Nat.ofDigitChars_append, Nat.ofDigitChars_cons, Nat.ofDigitChars_nil,
            ← Nat.toDigits_append_toDigits (by decide) positive small, single,
            ih (List.cons_ne_nil _ _) frontDigits (.inr (by simpa using head))]

/-- A positive number is written without zeros in front, by induction on it. -/
theorem head?_toDigits_ne (positive : 0 < n) : (Nat.toDigits 10 n).head? ≠ some '0' := by
  induction n using Nat.strongRecOn with
  | ind n ih =>
      by_cases small : n < 10
      · rw [Nat.toDigits_of_lt_base small, List.head?_cons, ne_eq, Option.some.injEq,
          Nat.digitChar_eq_zero]
        exact positive.ne'
      · have front := ih (n / 10) (by omega) (by omega)
        rw [Nat.toDigits_of_base_le (by decide) (Nat.not_lt.mp small),
          List.head?_append_of_ne_nil _ Nat.toDigits_ne_nil]
        exact front

theorem decimal_of_readDigits (read : readDigits text = some value)
    (noZeros : text.length = 1 ∨ text.head? ≠ some '0')
    : decimal 0 value = text := by
  obtain ⟨nonempty, digits⟩ := of_readDigits read
  have is : Nat.ofDigitChars 10 text 0 = value := by
    unfold readDigits at read
    split at read
    · exact Option.some.inj read
    · cases read
  rw [← is, decimal, Nat.zero_sub, List.replicate_zero, List.nil_append]
  exact toDigits_ofDigitChars nonempty digits noZeros

-- Letters of either case

variable (char)

theorem toLower_cases
    : (char.toLower = char ∧ (char.toNat < 65 ∨ 90 < char.toNat))
      ∨ 65 ≤ char.toNat ∧ char.toNat ≤ 90 ∧ char.toLower.toNat = char.toNat + 32 := by
  unfold Char.toLower
  split
  next capital =>
      have bounds : 65 ≤ char.toNat ∧ char.toNat ≤ 90 := by
        simpa [UInt32.le_iff_toNat_le] using capital
      refine .inr ⟨bounds.1, bounds.2, ?_⟩
      change (char.val + 32).toNat = char.val.toNat + 32
      rw [UInt32.toNat_add]
      have : char.val.toNat ≤ 90 := bounds.2
      exact Nat.mod_eq_of_lt (by simp; omega)
  next other =>
      refine .inl ⟨rfl, ?_⟩
      by_contra inside
      refine other ?_
      have : 65 ≤ char.toNat ∧ char.toNat ≤ 90 := by omega
      simpa [UInt32.le_iff_toNat_le] using this

theorem toLower_toLower : char.toLower.toLower = char.toLower := by
  rcases toLower_cases char with ⟨same, _⟩ | ⟨_, _, moved⟩
  · rw [same, same]
  · rcases toLower_cases char.toLower with ⟨same, _⟩ | ⟨_, _, _⟩
    · exact same
    · omega

/-- A character that is no letter is in lower case only as itself. -/
theorem toLower_eq_iff {other : Char} (noLetter : other.toNat < 65 ∨ 90 < other.toNat)
    (noSmallLetter : other.toNat < 97 ∨ 122 < other.toNat)
    : char.toLower = other ↔ char = other := by
  rcases toLower_cases char with ⟨same, _⟩ | ⟨_, _, moved⟩
  · rw [same]
  · constructor
    · rintro rfl
      omega
    · rintro rfl
      omega

theorem isDigit_iff : char.isDigit = true ↔ 48 ≤ char.toNat ∧ char.toNat ≤ 57 := by
  simp [Char.isDigit, UInt32.le_iff_toNat_le]

theorem isDigit_toLower : char.toLower.isDigit = char.isDigit := by
  rw [Bool.eq_iff_iff, isDigit_iff, isDigit_iff]
  rcases toLower_cases char with ⟨same, _⟩ | ⟨_, _, moved⟩
  · rw [same]
  · omega

end SkillRanker.Library
