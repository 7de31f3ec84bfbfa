import SkillRanker.Roster.Frontmatter

/-! The keys of front matter: when the parser tells them apart as YAML does. -/

namespace SkillRanker.Roster.Frontmatter

open Library

variable {taken : Nat} {line value text blank : Text} {below seen lines : List Text}
  {next fields final : FrontmatterFields} {nested : NestedMappings} {first : Char} {entry : Entry}

-- The lines that a value takes

def TakesOnly (taken : Nat) (below : List Text) : Prop :=
  ∀ line ∈ below.take taken, isFirm line = false

theorem takesOnly_zero (below : List Text) : TakesOnly 0 below := by
  simp [TakesOnly]

theorem TakesOnly.succ (rest : TakesOnly taken below) (loose : isFirm line = false)
    : TakesOnly (taken + 1) (line :: below) := by
  intro other mem
  rcases List.mem_cons.mp mem with rfl | later
  · exact loose
  · exact rest other later

theorem TakesOnly.head (only : TakesOnly (taken + 1) (line :: below))
    : isFirm line = false :=
  only line List.mem_cons_self

theorem TakesOnly.tail (only : TakesOnly (taken + 1) (line :: below))
    : TakesOnly taken below :=
  fun other mem => only other (List.mem_cons_of_mem line mem)

theorem not_isFirm_of_isSkipped (skipped : isSkipped (trim line) = true)
    : isFirm line = false := by
  simp [isFirm, isEntryLine, skipped]

theorem not_isFirm_of_blank (blank : trim line = []) : isFirm line = false :=
  not_isFirm_of_isSkipped (by simp [isSkipped, blank])

theorem not_isFirm_of_isIndented (indented : isIndented line = true)
    : isFirm line = false := by
  simp [isFirm, isEntryLine, belongsAbove, indented]

/-- A scalar takes blank and indented lines. -/
theorem foldContinuation_takesOnly (folded : Text) (breaks : Nat) (below : List Text)
    : TakesOnly (foldContinuation folded breaks below).2 below := by
  induction below generalizing folded breaks with
  | nil => exact takesOnly_zero []
  | cons line rest ih =>
      rw [foldContinuation]
      dsimp only
      split
      next blank => exact (ih _ _).succ (not_isFirm_of_blank blank)
      next =>
          split
          next indented => exact (ih _ _).succ (not_isFirm_of_isIndented indented)
          next => exact takesOnly_zero _

theorem blockLines_takesOnly (below : List Text) : TakesOnly (blockLines below).2 below := by
  induction below with
  | nil => exact takesOnly_zero []
  | cons line rest ih =>
      rw [blockLines]
      split
      next blank => exact ih.succ (not_isFirm_of_blank blank)
      next =>
          split
          next indented => exact ih.succ (not_isFirm_of_isIndented indented)
          next => exact takesOnly_zero _

variable {immediate : Text}

theorem parseScalarOrBlock_takesOnly
    (parsed : parseScalarOrBlock immediate below = .ok (value, taken))
    : TakesOnly taken below := by
  unfold parseScalarOrBlock at parsed
  dsimp only at parsed
  split at parsed
  next =>
      cases parsed
      exact blockLines_takesOnly below
  next =>
      obtain ⟨decoded, -, same⟩ := map_eq_ok.mp parsed
      cases same
      exact foldContinuation_takesOnly _ _ _

theorem parseStringField_takesOnly (parsed : parseStringField immediate below = .ok (value, taken))
    : TakesOnly taken below := by
  unfold parseStringField at parsed
  dsimp only at parsed
  split at parsed
  next =>
      split at parsed
      next => cases parsed
      next =>
          split at parsed
          next => cases parsed
          next =>
              obtain ⟨decoded, -, same⟩ := map_eq_ok.mp parsed
              cases same
              exact foldContinuation_takesOnly _ _ _
  next =>
      split at parsed
      next => cases parsed
      next => exact parseScalarOrBlock_takesOnly parsed

/-- A line that a block sequence takes has no entry of its own. -/
theorem not_isFirm_of_item (begins : startsWith [' ', '\t', '-'] line = true)
    : isFirm line = false := by
  cases line with
  | nil => cases begins
  | cons first rest =>
      have cases : (first = ' ' ∨ first = '\t') ∨ first = '-' := by
        simpa [startsWith, or_assoc] using begins
      rcases cases with blank | rfl
      · refine not_isFirm_of_isIndented ?_
        simpa [isIndented, startsWith] using blank
      · simp [isFirm, startsWith]

/-- A block sequence takes comments, blank and indented lines, and lines that start with a dash. -/
theorem blockItems_takesOnly {items : List Text} (parsed : blockItems below = .ok (items, taken))
    : TakesOnly taken below := by
  induction below generalizing items taken with
  | nil =>
      cases parsed
      exact takesOnly_zero []
  | cons line rest ih =>
      unfold blockItems at parsed
      dsimp only at parsed
      split at parsed
      next skipped =>
          obtain ⟨⟨others, more⟩, later, same⟩ := map_eq_ok.mp parsed
          cases same
          exact (ih later).succ (not_isFirm_of_isSkipped skipped)
      next =>
          split at parsed
          next => cases parsed
          next =>
              split at parsed
              next begins =>
                  split at parsed
                  next =>
                      obtain ⟨clean, -, mapped⟩ := bind_eq_ok.mp parsed
                      obtain ⟨⟨others, more⟩, later, same⟩ := map_eq_ok.mp mapped
                      cases same
                      exact (ih later).succ (not_isFirm_of_item begins)
                  next =>
                      cases parsed
                      exact takesOnly_zero _
              next =>
                  cases parsed
                  exact takesOnly_zero _

theorem parseListOrFlow_takesOnly {items : List Text}
    (parsed : parseListOrFlow immediate below = .ok (items, taken))
    : TakesOnly taken below := by
  unfold parseListOrFlow at parsed
  dsimp only at parsed
  split at parsed
  next =>
      split at parsed
      next =>
          split at parsed
          next =>
              obtain ⟨cleaned, -, same⟩ := bind_eq_ok.mp parsed
              cases same
              exact foldContinuation_takesOnly _ _ _
          next => cases parsed
      next => cases parsed
  next =>
      split at parsed
      next =>
          obtain ⟨clean, -, same⟩ := bind_eq_ok.mp parsed
          cases same
          exact foldContinuation_takesOnly _ _ _
      next => exact blockItems_takesOnly parsed

theorem of_readString {set : Text → Except FrontmatterError FrontmatterFields}
    (read : readString value below set = .ok (next, taken))
    : TakesOnly taken below ∧ ∃ text, parseStringField value below = .ok (text, taken)
      ∧ set text = .ok next := by
  obtain ⟨⟨text, more⟩, parsed, read⟩ := bind_eq_ok.mp read
  obtain ⟨fields, isSet, same⟩ := bind_eq_ok.mp read
  cases same
  exact ⟨parseStringField_takesOnly parsed, text, parsed, isSet⟩

theorem of_readList {set : List Text → FrontmatterFields}
    (read : readList value below set = .ok (next, taken))
    : TakesOnly taken below ∧ ∃ items, set items = next := by
  obtain ⟨⟨items, more⟩, parsed, same⟩ := bind_eq_ok.mp read
  cases same
  exact ⟨parseListOrFlow_takesOnly parsed, items, rfl⟩

/-- A field takes no entry of another line, and only its own field sets the restriction. -/
theorem of_readField {key : Text} (read : readField key value below fields = .ok (next, taken))
    : TakesOnly taken below
      ∧ (key ≠ restrictingKey →
          next.disableModelInvocation = fields.disableModelInvocation) := by
  unfold readField at read
  iterate 2
    split at read
    · obtain ⟨only, text, -, isSet⟩ := of_readString read
      cases isSet
      exact ⟨only, fun _ => rfl⟩
  split at read
  · exact ⟨(of_readString read).1, fun other => absurd ‹_› other⟩
  split at read
  · obtain ⟨only, text, -, isSet⟩ := of_readString read
    obtain ⟨invocable, -, same⟩ := map_eq_ok.mp isSet
    cases same
    exact ⟨only, fun _ => rfl⟩
  iterate 2
    split at read
    · obtain ⟨only, text, -, isSet⟩ := of_readString read
      cases isSet
      exact ⟨only, fun _ => rfl⟩
  iterate 3
    split at read
    · obtain ⟨only, items, isSet⟩ := of_readList read
      cases isSet
      exact ⟨only, fun _ => rfl⟩
  split at read
  · cases read
    exact ⟨takesOnly_zero below, fun _ => rfl⟩
  · obtain ⟨⟨text, more⟩, parsed, same⟩ := map_eq_ok.mp read
    cases same
    exact ⟨parseScalarOrBlock_takesOnly parsed, fun _ => rfl⟩

theorem readField_restricting
    (read : readField restrictingKey (trim value) below fields = .ok (next, taken))
    : next.disableModelInvocation = isTrue value below := by
  have unfolded : readField restrictingKey (trim value) below fields
      = readString (trim value) below fun text =>
          (parseBoolean text).map fun disabled =>
            { fields with disableModelInvocation := disabled } := by
    rw [readField, if_neg (by decide), if_neg (by decide)]
    exact if_pos rfl
  obtain ⟨-, text, parsed, isSet⟩ := of_readString (unfolded.symm.trans read)
  obtain ⟨disabled, isBoolean, same⟩ := map_eq_ok.mp isSet
  cases same
  simp only [isTrue, parsed, isBoolean]
  cases disabled <;> rfl

-- The loop

/-- What the loop does with a line that no value above takes. -/
theorem parseFrom_cons (accepted : parseFrom fields seen nested 0 (line :: below) = .ok final)
    : (isEntryLine line = false ∧ ∃ nested, parseFrom fields seen nested 0 below = .ok final)
      ∨ isEntryLine line = true ∧ ∃ before after next taken,
          splitOnce ':' line = some (before, after)
          ∧ fieldKey before ∉ seen
          ∧ readField (fieldKey before) (trim after) below fields = .ok (next, taken)
          ∧ parseFrom next (fieldKey before :: seen) {} taken below = .ok final := by
  unfold parseFrom at accepted
  split at accepted
  next skipped => exact .inl ⟨by simp [isEntryLine, skipped], nested, accepted⟩
  next kept =>
      split at accepted
      next belongs =>
          obtain ⟨tracked, -, rest⟩ := bind_eq_ok.mp accepted
          exact .inl ⟨by simp [isEntryLine, belongs], tracked, rest⟩
      next stands =>
          split at accepted
          next => cases accepted
          next before after splits =>
              split at accepted
              next => cases accepted
              next fresh =>
                  obtain ⟨⟨next, taken⟩, read, rest⟩ := bind_eq_ok.mp accepted
                  exact .inr ⟨by simp [isEntryLine, kept, stands],
                    before, after, next, taken, splits, fresh, read, rest⟩

/-- The fields that the lines with entries name, but for those a value above may take. -/
def firmKeys : List Text → List Text
  | [] => []
  | line :: below =>
      if isFirm line then
        ((splitOnce ':' line).map fun (before, _) => fieldKey before).toList ++ firmKeys below
      else firmKeys below

variable {skip : Nat}

/-- No two lines of an accepted text name one field, and none names a field seen before. -/
theorem parseFrom_firmKeys (only : TakesOnly skip lines)
    (accepted : parseFrom fields seen nested skip lines = .ok final)
    : (firmKeys lines).Nodup ∧ ∀ key ∈ firmKeys lines, key ∉ seen := by
  induction lines generalizing fields seen nested skip with
  | nil => exact ⟨List.nodup_nil, fun key mem => absurd mem List.not_mem_nil⟩
  | cons line below ih =>
      cases skip with
      | succ skip =>
          rw [firmKeys, if_neg (by simp [only.head])]
          exact ih only.tail (by rwa [parseFrom] at accepted)
      | zero =>
          rcases parseFrom_cons accepted with ⟨noEntry, nested, rest⟩
            | ⟨isEntry, before, after, next, taken, splits, fresh, read, rest⟩
          · rw [firmKeys, if_neg (by simp [isFirm, noEntry])]
            exact ih (takesOnly_zero below) rest
          · obtain ⟨distinct, unseen⟩ := ih ((of_readField read).1) rest
            have later : ∀ key ∈ firmKeys below, key ∉ seen := fun key mem known =>
              unseen key mem (List.mem_cons_of_mem _ known)
            rw [firmKeys]
            split
            · rw [splits]
              refine ⟨List.nodup_cons.mpr ⟨fun mem => ?_, distinct⟩, fun key mem => ?_⟩
              · exact unseen _ mem List.mem_cons_self
              · rcases List.mem_cons.mp mem with rfl | inBelow
                · exact fresh
                · exact later key inBelow
            · exact ⟨distinct, later⟩

def restrictsPlainly (line : Text) (below : List Text) : Bool :=
  isEntryLine line && (splitOnce ':' line).any fun (before, after) =>
    fieldKey before = restrictingKey && isTrue after below

def restrictedPlainly : List Text → Bool
  | [] => false
  | line :: below => restrictsPlainly line below || restrictedPlainly below

-- White space around texts

def Blank (text : Text) : Prop := ∀ char ∈ text, isWhitespace char = true

theorem trimEnd_append (isBlank : Blank blank)
    : trimEnd (text ++ blank) = trimEnd text := by
  have dropped : (blank.reverse ++ text.reverse).dropWhile isWhitespace
      = text.reverse.dropWhile isWhitespace :=
    List.dropWhile_append_of_pos fun char mem => isBlank char (List.mem_reverse.mp mem)
  rw [trimEnd, trimEnd, List.rdropWhile, List.rdropWhile, List.reverse_append, dropped]

variable (rest : Text)

theorem trimEnd_cons (solid : isWhitespace first = false)
    : trimEnd (first :: rest) = first :: trimEnd rest := by
  have dropped : (rest.reverse ++ [first]).dropWhile isWhitespace
      = rest.reverse.dropWhile isWhitespace ++ [first] :=
    dropWhile_of_stop fun char same => Option.some.inj same ▸ solid
  simp only [trimEnd, List.rdropWhile, List.reverse_cons, dropped, List.reverse_append,
    List.reverse_nil, List.nil_append, List.singleton_append]

variable (text)

variable (drops : Char → Bool)

theorem exists_ending
    : ∃ blank, text = text.rdropWhile drops ++ blank ∧ ∀ char ∈ blank, drops char = true := by
  refine ⟨text.rtakeWhile drops, ?_, fun char mem => List.mem_rtakeWhile_imp mem⟩
  have whole : text.reverse.takeWhile drops ++ text.reverse.dropWhile drops = text.reverse :=
    List.takeWhile_append_dropWhile
  have reversed := congrArg List.reverse whole
  rw [List.reverse_append, List.reverse_reverse] at reversed
  exact reversed.symm

/-- A text between what is dropped at its ends. -/
theorem exists_around
    : ∃ lead tail, text = lead ++ (text.dropWhile drops).rdropWhile drops ++ tail
        ∧ (∀ char ∈ lead, drops char = true) ∧ ∀ char ∈ tail, drops char = true := by
  obtain ⟨tail, whole, dropped⟩ := exists_ending (text.dropWhile drops) drops
  refine ⟨text.takeWhile drops, tail, ?_, fun char mem => List.mem_takeWhile_imp mem, dropped⟩
  rw [List.append_assoc, ← whole, List.takeWhile_append_dropWhile]

theorem trim_blank_append (isBlank : Blank blank)
    : trim (blank ++ text) = trim text := by
  rw [trim, trim, trimStart, trimStart, List.dropWhile_append_of_pos isBlank]

theorem trim_append_blank (isBlank : Blank blank)
    : trim (text ++ blank) = trim text := by
  have allDropped : blank.dropWhile isWhitespace = [] := List.dropWhile_eq_nil_iff.mpr isBlank
  rw [trim, trim, trimStart, trimStart, List.dropWhile_append, allDropped]
  split
  next nothing => rw [List.isEmpty_iff.mp nothing]
  next => exact trimEnd_append isBlank

theorem trim_cons (solid : isWhitespace first = false)
    : trim (first :: rest) = first :: trimEnd rest := by
  rw [trim, trimStart, List.dropWhile_cons_of_neg (by simp [solid]), trimEnd_cons rest solid]

variable {text}

theorem Blank.no_colon (isBlank : Blank text) : ':' ∉ text :=
  fun mem => absurd (isBlank ':' mem) (by decide)

-- The keys of lines

def upToColon (text : Text) : Text := text.takeWhile (· ≠ ':')

theorem upToColon_of_not_mem (absent : ':' ∉ text) : upToColon text = text :=
  List.takeWhile_eq_self_iff.mpr fun char mem => by
    simpa using fun same : char = ':' => absent (same ▸ mem)

theorem upToColon_append {front : Text} (back : Text) (absent : ':' ∉ front)
    : upToColon (front ++ back) = front ++ upToColon back :=
  List.takeWhile_append_of_pos fun char mem => by
    simpa using fun same : char = ':' => absent (same ▸ mem)

theorem upToColon_colon (front back : Text) : upToColon (front ++ ':' :: back) = upToColon front :=
  takeWhile_of_stop fun first same => by simp [← Option.some.inj same]

/-- White space that ends a key adds nothing to what comes before its first colon. -/
theorem trim_upToColon_append (text : Text) (isBlank : Blank blank)
    : trim (upToColon (text ++ blank)) = trim (upToColon text) := by
  by_cases colon : ':' ∈ text
  · obtain ⟨front, back, rfl⟩ := List.append_of_mem colon
    rw [List.append_assoc, List.cons_append, upToColon_colon, upToColon_colon]
  · rw [upToColon_append blank colon, upToColon_of_not_mem isBlank.no_colon,
      upToColon_of_not_mem colon, trim_append_blank text isBlank]

theorem splitOnce_colon (colon : ':' ∈ text)
    : ∃ after, splitOnce ':' text = some (upToColon text, after) := by
  cases split : splitOnce ':' text with
  | none => exact absurd colon (not_mem_splitOnce_eq_some_none split)
  | some parts =>
      obtain ⟨whole, absent⟩ := splitOnce_eq_some split
      refine ⟨parts.2, ?_⟩
      rw [whole, upToColon_colon, upToColon_of_not_mem absent]

/-- A key that starts with a character of none of the shared spellings names a field of its own. -/
theorem head_fieldKey (begins : trim text = first :: rest) (noLetter : first.toLower = first)
    (other : first ∉ "duatp".toList)
    : (fieldKey text).head? = some first := by
  have lowered : lower (trim text) = first :: lower rest := by
    rw [begins, lower, List.map_cons, noLetter]
    rfl
  have differs : ∀ key : String, key.toList.head?.any ("duatp".toList.contains ·) = true →
      first :: lower rest ≠ key.toList := by
    intro key known same
    rw [← same] at known
    exact other (by simpa using known)
  rw [fieldKey, lowered, canonicalKey, if_neg (differs _ (by decide)),
    if_neg (differs _ (by decide)), if_neg (differs _ (by decide)), if_neg (differs _ (by decide)),
    if_neg (differs _ (by decide)), if_neg (differs _ (by decide))]
  rfl

theorem fieldKey_ne_restrictingKey (begins : trim text = first :: rest)
    (noLetter : first.toLower = first) (other : first ∉ "duatp".toList)
    : fieldKey text ≠ restrictingKey := by
  intro same
  have head := head_fieldKey rest begins noLetter other
  rw [same] at head
  exact other (Option.some.inj head ▸ by decide)

/-- The value of a restriction is never taken by a list. -/
theorem isFirm_of_restrictsPlainly (restricts : restrictsPlainly line below = true)
    : isFirm line = true := by
  obtain ⟨isEntry, names⟩ := Bool.and_eq_true_iff.mp restricts
  obtain ⟨⟨before, after⟩, split, named⟩ := (Option.any_eq_true _ _).mp names
  have isKey : fieldKey before = restrictingKey := by
    simpa using (Bool.and_eq_true_iff.mp named).1
  obtain ⟨rfl, -⟩ := splitOnce_eq_some split
  rw [isFirm, isEntry]
  cases before with
  | nil => exact absurd isKey (by decide)
  | cons first rest =>
      by_cases dash : first = '-'
      · subst dash
        exact absurd isKey
          (fieldKey_ne_restrictingKey _ (trim_cons rest (by decide)) (by decide) (by decide))
      · simpa [startsWith] using dash

-- The restriction

theorem restrictedPlainly_cons_of_loose (loose : isFirm line = false)
    : restrictedPlainly (line :: below) = restrictedPlainly below := by
  have nothing : restrictsPlainly line below = false := by
    by_contra restricts
    rw [isFirm_of_restrictsPlainly (by simpa using restricts)] at loose
    cases loose
  rw [restrictedPlainly, nothing, Bool.false_or]

theorem restrictsPlainly_of_split {before after : Text} (isEntry : isEntryLine line = true)
    (split : splitOnce ':' line = some (before, after))
    : restrictsPlainly line below = (fieldKey before = restrictingKey && isTrue after below) := by
  simp [restrictsPlainly, isEntry, split]

theorem not_restrictedPlainly_of_seen (only : TakesOnly skip lines)
    (accepted : parseFrom fields seen nested skip lines = .ok final) (known : restrictingKey ∈ seen)
    : restrictedPlainly lines = false := by
  obtain ⟨-, unseen⟩ := parseFrom_firmKeys only accepted
  clear accepted only
  induction lines with
  | nil => rfl
  | cons line below ih =>
      cases firm : isFirm line with
      | false =>
          rw [restrictedPlainly_cons_of_loose firm]
          exact ih (by simpa [firmKeys, firm] using unseen)
      | true =>
          rw [firmKeys, if_pos firm] at unseen
          rw [restrictedPlainly, ih fun key mem => unseen key (List.mem_append_right _ mem),
            Bool.or_false]
          by_contra restricts
          obtain ⟨isEntry, names⟩ := Bool.and_eq_true_iff.mp (Bool.not_eq_false _ ▸ restricts)
          obtain ⟨⟨before, after⟩, split, named⟩ := (Option.any_eq_true _ _).mp names
          have isKey : fieldKey before = restrictingKey := by
            simpa using (Bool.and_eq_true_iff.mp named).1
          refine unseen restrictingKey (List.mem_append_left _ ?_) known
          simp [split, isKey]

/-- The parser restricts a skill when one of its own spellings of the key has a true value. -/
theorem parseFrom_restricts (only : TakesOnly skip lines)
    (accepted : parseFrom fields seen nested skip lines = .ok final)
    (unset : restrictingKey ∉ seen → fields.disableModelInvocation = false)
    : final.disableModelInvocation
      = (fields.disableModelInvocation || restrictedPlainly lines) := by
  induction lines generalizing fields seen nested skip with
  | nil =>
      cases skip <;> cases accepted <;> simp [restrictedPlainly]
  | cons line below ih =>
      cases skip with
      | succ skip =>
          rw [restrictedPlainly_cons_of_loose only.head]
          exact ih only.tail (by rwa [parseFrom] at accepted) unset
      | zero =>
          rcases parseFrom_cons accepted with ⟨noEntry, nested, rest⟩
            | ⟨isEntry, before, after, next, taken, splits, fresh, read, rest⟩
          · rw [restrictedPlainly_cons_of_loose (by simp [isFirm, noEntry])]
            exact ih (takesOnly_zero below) rest unset
          · have takes := (of_readField read).1
            rw [restrictedPlainly, restrictsPlainly_of_split isEntry splits]
            by_cases restricting : fieldKey before = restrictingKey
            · rw [restricting] at read rest fresh
              have later : restrictedPlainly below = false :=
                not_restrictedPlainly_of_seen takes rest List.mem_cons_self
              rw [ih takes rest fun unseen => absurd List.mem_cons_self unseen,
                readField_restricting read, unset fresh, later]
              simp [restricting]
            · have kept := (of_readField read).2 restricting
              have stillUnset : restrictingKey ∉ fieldKey before :: seen →
                  next.disableModelInvocation = false := fun unseen =>
                kept.trans (unset fun known => unseen (List.mem_cons_of_mem _ known))
              rw [ih takes rest stillUnset, kept]
              simp [restricting]

-- Plain and quoted entries

theorem findSeparator_eq_some {before after : Text}
    (found : findSeparator text = some (before, after))
    : text = before ++ ':' :: after := by
  induction text generalizing before with
  | nil => cases found
  | cons char rest ih =>
      unfold findSeparator at found
      split at found
      next separates =>
          cases found
          rw [separates.1]
          rfl
      next =>
          obtain ⟨⟨front, back⟩, later, same⟩ := Option.map_eq_some_iff.mp found
          cases same
          rw [ih later]
          rfl

theorem readEntry_plain {key : Text} (read : readEntry text = some (key, false, value))
    : ∃ before, text = before ++ ':' :: value ∧ key = before.rdropWhile isBlank := by
  unfold readEntry at read
  split at read
  next =>
      split at read
      next => split at read <;> cases read
      next => cases read
  next =>
      split at read
      next => cases read
      next =>
          obtain ⟨⟨before, after⟩, found, same⟩ := Option.map_eq_some_iff.mp read
          cases same
          exact ⟨before, findSeparator_eq_some found, rfl⟩

def plainField (key : Text) : Text := fieldKey (upToColon key)

theorem fieldKey_congr {first second : Text} (same : trim first = trim second)
    : fieldKey first = fieldKey second := by
  rw [fieldKey, fieldKey, same]

theorem dropProperties_of_not (bare : hasProperty text = false)
    : dropProperties text = text := by
  simp [dropProperties, dropProperty, bare]

/-- What does not evade the parser stands on a line of its own, and its key is plain. -/
theorem lineEntry_plain {displaced : Bool} (stands : lineEntry displaced line below = some entry)
    (plain : entry.evades = false)
    : displaced = false ∧ isFirm line = true
      ∧ readEntry (trimBlanks line) = some (entry.key, false, entry.value)
      ∧ entry.below = below := by
  obtain ⟨⟨key, quoted, value⟩, read, same⟩ := Option.map_eq_some_iff.mp stands
  dsimp only at same
  split at same
  next =>
      subst same
      cases plain
  next open_ =>
      subst same
      simp only [Bool.or_eq_true, not_or, Bool.not_eq_true, Bool.not_eq_false'] at open_
      obtain ⟨⟨⟨⟨notDisplaced, notQuoted⟩, bare⟩, firm⟩, -⟩ := open_
      rw [dropProperties_of_not bare] at read
      exact ⟨notDisplaced, firm, by rw [read, notQuoted], rfl⟩

theorem Blank.of_isBlank (all : ∀ char ∈ text, isBlank char = true) : Blank text := by
  intro char mem
  have either := all char mem
  rw [isBlank, Bool.or_eq_true, decide_eq_true_eq, decide_eq_true_eq] at either
  rcases either with rfl | rfl <;> decide

/-- The parser reads a plain key as its field, and the value of a restriction as YAML does. -/
theorem lineEntry_splitOnce {displaced : Bool}
    (stands : lineEntry displaced line below = some entry) (plain : entry.evades = false)
    : isFirm line = true ∧ ∃ before after, splitOnce ':' line = some (before, after)
      ∧ fieldKey before = plainField entry.key
      ∧ (entry.key = restrictingKey →
          isTrue after below = isTrue entry.value entry.below) := by
  obtain ⟨-, firm, read, same⟩ := lineEntry_plain stands plain
  obtain ⟨before, whole, isKey⟩ := readEntry_plain read
  obtain ⟨lead, tail, around, isLead, isTail⟩ := exists_around line isBlank
  obtain ⟨blank, ends, isEnd⟩ := exists_ending before isBlank
  have noLead := Blank.of_isBlank isLead
  have noBlank := Blank.of_isBlank isEnd
  have laid : line = (lead ++ before) ++ ':' :: (entry.value ++ tail) := by
    rw [around, ← trimBlanks, whole]
    simp
  have colon : ':' ∈ line := by
    rw [laid]
    simp
  obtain ⟨after, split⟩ := splitOnce_colon colon
  refine ⟨firm, _, after, split, fieldKey_congr ?_, fun restricting => ?_⟩
  · rw [laid, upToColon_colon, upToColon_append _ noLead.no_colon, trim_blank_append _ noLead]
    conv_lhs => rw [ends]
    rw [isKey]
    exact trim_upToColon_append _ noBlank
  · have absent : ':' ∉ lead ++ before := by
      rw [ends, ← isKey, restricting, List.mem_append, List.mem_append]
      have noColon : ':' ∉ restrictingKey := by decide
      have := noLead.no_colon
      have := noBlank.no_colon
      tauto
    rw [laid, splitOnce_append absent] at split
    obtain ⟨-, rfl⟩ := Prod.mk.inj (Option.some.inj split)
    rw [isTrue, isTrue, trim_append_blank entry.value (Blank.of_isBlank isTail), same]

-- Texts that are read as YAML reads them

/-- No two entries have one key, and an entry that restricts its skill does so in the fields. -/
structure KeysUnified (yaml : Text) (fields : FrontmatterFields) : Prop where
  distinct : ((entries yaml).map Entry.key).Nodup
  restricted : ∀ entry ∈ entries yaml, entry.Restricts → fields.disableModelInvocation = true

/-- What evades the parser has no key of another entry, and restricts a skill only where a line that
the parser reads does.
-/
structure PlainlyKeyed (yaml : Text) : Prop where
  apart
    : (entries yaml).Pairwise fun first second =>
        (first.evades || second.evades) = true → first.key ≠ second.key
  restricted
    : ∀ entry ∈ entries yaml, entry.evades = true → entry.Restricts →
        restrictedPlainly (textLines yaml) = true

variable {displaced explicit : Bool}

def plainEntries (all : List Entry) : List Entry := all.filter (!·.evades)

theorem mem_plainEntries {all : List Entry}
    : entry ∈ plainEntries all ↔ entry ∈ all ∧ entry.evades = false := by
  simp [plainEntries]

theorem plainEntries_append (front back : List Entry)
    : plainEntries (front ++ back) = plainEntries front ++ plainEntries back :=
  List.filter_append ..

theorem plainEntries_eq_nil {all : List Entry} (evading : ∀ entry ∈ all, entry.evades = true)
    : plainEntries all = [] := by
  simpa [plainEntries] using evading

theorem explicitEntry_evades (stands : explicitEntry text below = some entry)
    : entry.evades = true := by
  unfold explicitEntry at stands
  obtain ⟨-, -, stands⟩ := Option.bind_eq_some_iff.mp stands
  obtain ⟨key, -, stands⟩ := Option.bind_eq_some_iff.mp stands
  split at stands
  · exact Option.some.inj stands ▸ rfl
  · exact Option.some.inj stands ▸ rfl

theorem flowEntries_evade (mem : entry ∈ flowEntries text) : entry.evades = true := by
  obtain ⟨element, -, read⟩ := List.mem_filterMap.mp mem
  obtain ⟨-, stands⟩ := Option.ite_none_left_eq_some.mp read
  exact Option.some.inj stands ▸ rfl

/-- A line adds at most one entry, which evades the parser unless it is that of the line. -/
theorem blockEntries_cons (displaced explicit : Bool) (line : Text) (below : List Text)
    : ∃ found next, blockEntries displaced explicit (line :: below)
          = Option.toList found ++ blockEntries displaced next below
        ∧ ∀ entry ∈ found, entry.evades = false →
            lineEntry displaced line below = some entry := by
  rw [blockEntries]
  split
  · exact ⟨none, explicit, rfl, fun entry mem => by cases mem⟩
  split
  · refine ⟨_, true, rfl, fun entry mem plain => ?_⟩
    rw [explicitEntry_evades mem] at plain
    cases plain
  split
  · exact ⟨none, false, rfl, fun entry mem => by cases mem⟩
  · exact ⟨_, false, rfl, fun entry mem _ => mem⟩

theorem blockEntries_evade (mem : entry ∈ blockEntries true explicit lines)
    : entry.evades = true := by
  induction lines generalizing explicit with
  | nil => cases mem
  | cons line below ih =>
      obtain ⟨found, next, whole, stands⟩ := blockEntries_cons true explicit line below
      rw [whole, List.mem_append, Option.mem_toList] at mem
      rcases mem with here | later
      · by_contra plain
        rw [Bool.not_eq_true] at plain
        cases (lineEntry_plain (stands entry here plain) plain).1
      · exact ih later

theorem plainFields_sublist (lines : List Text)
    : ((plainEntries (blockEntries displaced explicit lines)).map
          fun entry => plainField entry.key).Sublist (firmKeys lines) := by
  induction lines generalizing explicit with
  | nil => exact List.Sublist.slnil
  | cons line below ih =>
      obtain ⟨found, next, whole, stands⟩ := blockEntries_cons displaced explicit line below
      have later := @ih next
      rw [whole, plainEntries_append, List.map_append, firmKeys]
      have skips : List.Sublist
          (((plainEntries (blockEntries displaced next below)).map
            fun entry => plainField entry.key))
          (if isFirm line then
            ((splitOnce ':' line).map fun (before, _) => fieldKey before).toList ++ firmKeys below
          else firmKeys below) := by
        split
        · exact later.trans (List.sublist_append_right _ _)
        · exact later
      cases found with
      | none => exact skips
      | some entry =>
          cases evading : entry.evades with
          | true =>
              rw [plainEntries_eq_nil (by simpa using evading)]
              exact skips
          | false =>
              obtain ⟨firm, before, after, split, named, -⟩ :=
                lineEntry_splitOnce (stands entry rfl evading) evading
              rw [if_pos firm, split]
              refine List.Sublist.append ?_ later
              simp [plainEntries, evading, named]

/-- An entry with a plain key restricts its skill where the parser reads it. -/
theorem restrictedPlainly_of_plain (mem : entry ∈ blockEntries displaced explicit lines)
    (plain : entry.evades = false) (restricting : entry.Restricts)
    : restrictedPlainly lines = true := by
  induction lines generalizing explicit with
  | nil => cases mem
  | cons line below ih =>
      obtain ⟨found, next, whole, stands⟩ := blockEntries_cons displaced explicit line below
      rw [whole, List.mem_append, Option.mem_toList] at mem
      rw [restrictedPlainly, Bool.or_eq_true]
      rcases mem with here | later
      · left
        obtain ⟨isKey, holds⟩ := restricting
        obtain ⟨firm, before, after, split, named, sameValue⟩ :=
          lineEntry_splitOnce (stands entry here plain) plain
        have isField : fieldKey before = restrictingKey := by
          rw [named, isKey]
          decide
        have value : isTrue after below = true := (sameValue isKey).trans holds
        rw [restrictsPlainly_of_split (Bool.and_eq_true_iff.mp firm).1 split, isField, value]
        simp
      · exact .inr (ih later)

theorem dedent_zero (line : Text) : dedent 0 line = line := by simp [dedent]

/-- The plain entries of a text are those of the lines that the parser reads. -/
theorem plainEntries_entries (yaml : Text)
    : plainEntries (entries yaml) = []
      ∨ entries yaml = blockEntries false false (textLines yaml) := by
  unfold entries
  dsimp only
  split
  · exact .inl rfl
  split
  · exact .inl (plainEntries_eq_nil fun entry => flowEntries_evade)
  next first below _ _ _ =>
      cases displaced : hasBareReturn yaml || decide ((first.takeWhile (· = ' ')).length ≠ 0) with
      | true => exact .inl (plainEntries_eq_nil fun entry => blockEntries_evade)
      | false =>
          obtain ⟨noReturn, atMargin⟩ := Bool.or_eq_false_iff.mp displaced
          have margin : (first.takeWhile (· = ' ')).length = 0 := by simpa using atMargin
          right
          rw [margin, yamlLines, if_neg (by simp [noReturn]), funext dedent_zero, List.map_id']

/-- The entries with plain keys of an accepted text have keys of their own. -/
theorem plainKeys_apart {yaml : Text}
    (accepted : parseFrom fields [] {} 0 (textLines yaml) = .ok final)
    : (entries yaml).Pairwise fun first second =>
        first.evades = false → second.evades = false → first.key ≠ second.key := by
  have distinct := (parseFrom_firmKeys (takesOnly_zero _) accepted).1
  have apart : ((plainEntries (entries yaml)).map fun entry => plainField entry.key).Nodup := by
    rcases plainEntries_entries yaml with nothing | same
    · rw [nothing]
      exact List.nodup_nil
    · rw [same]
      exact distinct.sublist (plainFields_sublist _)
  rw [List.Nodup, List.pairwise_map, plainEntries, List.pairwise_filter] at apart
  refine apart.imp fun differ isPlain otherPlain same => ?_
  exact differ (by simp [isPlain]) (by simp [otherPlain]) (by rw [same])

example
    : (entries "  name: a\n  disable-model-invocation: true\n".toList).map Entry.evades = [true, true]
      ∧ (entries "disable-model-invocation:\n  # off\n  true\n".toList).map Entry.evades = [true]
      ∧ (entries "# c\ntags:\n- a: b\nname: >\n  c: d\n".toList).map Entry.evades
        = [false, false] := by
  decide +kernel

def quotedRestriction : Text :=
  "name: lint\n\"disable-model-invocation\": true\n".toList

def plainRestriction : Text :=
  "disable_model_invocation: true\n'it''s': \"a\\x2db\"\ntags: [a, b]\n".toList

end SkillRanker.Roster.Frontmatter
