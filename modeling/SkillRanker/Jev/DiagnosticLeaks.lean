import SkillRanker.Jev.Diagnostics

/-! Which URLs are shown in diagnostics without their userinfo, query and fragment. -/

namespace SkillRanker.Jev

open Library

namespace UrlShape

def HasScheme (shape : UrlShape) : Prop :=
  ∃ name isScheme, shape.beginning = .scheme name isScheme

variable {shape : UrlShape} {secrets one two : UrlSecrets}

theorem tracedUrl_scheme (hasScheme : shape.HasScheme) (secrets : UrlSecrets)
    : tracedUrl (shape.traced secrets)
      = known (shape.beginning.text ++ (shape.shownBody ++ shape.marks)) := by
  obtain ⟨name, isScheme, begins⟩ := hasScheme
  have found : findText schemeMark (chars (shape.traced secrets)) = some name.length := by
    unfold traced
    rw [begins, Beginning.text, List.append_assoc, chars_append, chars_known]
    exact findText_scheme isScheme _
  have cut : name.length + 3 = (known (name ++ schemeMark)).length := by simp [known, schemeMark]
  rw [tracedUrl_of_found found, traced, begins, Beginning.text, List.append_assoc, cut,
    List.take_left, List.drop_left, shape.tracedParts_tail secrets (shape.body_plain secrets),
    shape.shown_body]
  simp

-- Where a mark can stand

def Loud (shape : UrlShape) (secrets : UrlSecrets) : Prop :=
  schemeMark <:+: chars (shape.tail secrets)

/-- The character that ends the path of a URL with a query or a fragment. -/
def separator (shape : UrlShape) : Char := if shape.query then '?' else '#'

theorem separator_not_mem (shape : UrlShape) : shape.separator ∉ schemeMark := by
  unfold separator
  split <;> decide

theorem tail_cases (shape : UrlShape)
    : (∀ secrets, shape.tail secrets = []) ∧ shape.marks = []
      ∨ (∀ secrets, ∃ rest, shape.tail secrets = (shape.separator, false) :: rest)
        ∧ ∃ rest, shape.marks = shape.separator :: '[' :: rest := by
  unfold tail marks separator
  cases query : shape.query with
  | true => exact .inr ⟨fun secrets => ⟨_, rfl⟩, _, rfl⟩
  | false =>
      cases fragment : shape.fragment with
      | true => exact .inr ⟨fun secrets => ⟨_, rfl⟩, _, rfl⟩
      | false => exact .inl ⟨fun secrets => rfl, rfl⟩

theorem not_loud_of_nil (nothing : shape.tail secrets = []) : ¬shape.Loud secrets := by
  rw [Loud, nothing]
  decide

/-- A mark in the body stands in the host and the path. -/
theorem infix_head_of_body (present : schemeMark <:+: chars (shape.body secrets))
    : schemeMark <:+: shape.head := by
  unfold body at present
  rw [chars_append, chars_known] at present
  split at present
  · rw [chars_append, chars_secret, List.append_assoc] at present
    have noAt : '@' ∉ schemeMark := by decide
    rcases infix_of_infix_append_cons noAt present with inUser | inHead
    · have slash : '/' ∈ secrets.userinfo := inUser.subset (by decide)
      have plain := secrets.userinfo_plain '/' slash
      cases plain
    · exact inHead
  · exact present

section

variable (bare : ¬shape.HasScheme)
include bare

/-- A mark in what begins the text of a URL without a scheme stands in the rest of it. -/
theorem infix_of_infix_beginning {text : List Char}
    (present : schemeMark <:+: shape.beginning.text ++ text)
    : schemeMark <:+: text := by
  cases begins : shape.beginning with
  | scheme name isScheme => exact absurd ⟨name, isScheme, begins⟩ bare
  | network =>
      rw [begins] at present
      exact infix_of_infix_slash (infix_of_infix_slash present)
  | bare =>
      rw [begins] at present
      exact present

/-- What begins the text of a URL without a scheme is short, and has no place for a query. -/
theorem beginning_plain
    : shape.beginning.text.length ≤ 2
      ∧ ∀ char ∈ shape.beginning.text, endsPath char = false := by
  cases begins : shape.beginning with
  | scheme name isScheme => exact absurd ⟨name, isScheme, begins⟩ bare
  | network => exact ⟨le_rfl, by simp [Beginning.text, endsPath]⟩
  | bare => exact ⟨Nat.zero_le 2, by simp [Beginning.text]⟩

/-- A mark stands in the host and the path, or in the query and the fragment. -/
theorem marked_iff
    : schemeMark <:+: shape.text secrets ↔ schemeMark <:+: shape.head ∨ shape.Loud secrets := by
  have parts : shape.text secrets
      = shape.beginning.text ++ (chars (shape.body secrets) ++ chars (shape.tail secrets)) := by
    simp [text, traced]
  constructor
  · intro present
    rw [parts] at present
    replace present := infix_of_infix_beginning bare present
    rcases shape.tail_cases with ⟨nothing, -⟩ | ⟨begins, -⟩
    · rw [nothing secrets] at present
      exact .inl (infix_head_of_body (by simpa [chars] using present))
    · obtain ⟨rest, tail⟩ := begins secrets
      have cons : chars (shape.tail secrets) = shape.separator :: chars rest := by
        rw [tail]
        rfl
      rw [cons] at present
      rcases infix_of_infix_append_cons shape.separator_not_mem present with inBody | inRest
      · exact .inl (infix_head_of_body inBody)
      · refine .inr ?_
        rw [Loud, cons]
        exact List.infix_cons_iff.mpr (.inr inRest)
  · rintro (inHead | loud)
    · rw [parts]
      refine inHead.trans ?_
      have inBody : shape.head <:+: chars (shape.body secrets) := by
        unfold body
        rw [chars_append, chars_known]
        exact (List.suffix_append _ _).isInfix
      exact inBody.trans ((List.prefix_append _ _).isInfix.trans (List.suffix_append _ _).isInfix)
    · rw [parts]
      exact loud.trans ((List.suffix_append _ _).isInfix.trans (List.suffix_append _ _).isInfix)

end

-- Fronts that are shown as they are

/-- Where a mark stands, the text is shown as it is, up to a place behind each front without one. -/
theorem front_shown {front : List Traced} (begins : front <+: shape.traced secrets)
    (absent : ¬schemeMark <:+: chars front) (present : schemeMark <:+: shape.text secrets)
    : front <+: tracedUrl (shape.traced secrets)
      ∧ front.length < (tracedUrl (shape.traced secrets)).length
      ∧ (tracedUrl (shape.traced secrets))[front.length]?
        = (shape.traced secrets)[front.length]? := by
  obtain ⟨start, found⟩ := exists_found present
  have fits : start + 3 ≤ (shape.traced secrets).length := by
    have within := found_le found
    rwa [text, chars, List.length_map] at within
  have longer : front.length < start + 3 := by
    obtain ⟨back, whole⟩ := begins
    rw [text, ← whole, chars_append] at found
    have less := lt_found found absent
    rwa [chars, List.length_map] at less
  have cut : ((shape.traced secrets).take (start + 3)).length = start + 3 :=
    List.length_take_of_le fits
  rw [tracedUrl_of_found found]
  refine ⟨?_, ?_, ?_⟩
  · have within : front <+: (shape.traced secrets).take (start + 3) :=
      List.prefix_of_prefix_length_le begins (List.take_prefix _ _) (by rw [cut]; exact longer.le)
    exact within.trans (List.prefix_append _ _)
  · rw [List.length_append, cut]
    omega
  · rw [List.getElem?_append_left (by rwa [cut]), List.getElem?_take_of_lt longer]

theorem shown_slash (rest : List Traced)
    : shown (('/', false) :: rest) = ('/', false) :: rest := rfl

/-- The text before the query and the fragment, where the userinfo is empty. -/
def plainFront (shape : UrlShape) : List Char :=
  shape.beginning.text ++ ((if shape.userinfo then ['@'] else []) ++ shape.head)

def Silent (shape : UrlShape) (secrets : UrlSecrets) : Prop :=
  shape.userinfo = true → secrets.userinfo = []

theorem traced_of_silent (silent : shape.Silent secrets)
    : shape.traced secrets = known shape.plainFront ++ shape.tail secrets := by
  unfold traced body plainFront
  split
  · next there =>
      rw [silent there]
      simp [secret, known]
  · simp

theorem text_of_silent (silent : shape.Silent secrets)
    : shape.text secrets = shape.plainFront ++ chars (shape.tail secrets) := by
  rw [text, traced_of_silent silent, chars_append, chars_known]

/-- A mark in the host or the path is found there whatever the query and the fragment are. -/
theorem tracedUrl_marked (bare : ¬shape.HasScheme) (marked : schemeMark <:+: shape.head)
    : ∃ cut, ∀ secrets, shape.Silent secrets →
        tracedUrl (shape.traced secrets)
          = known (shape.plainFront.take cut) ++ shown (known (shape.plainFront.drop cut))
            ++ known shape.marks := by
  have inFront : schemeMark <:+: shape.plainFront :=
    marked.trans ((List.suffix_append _ _).isInfix.trans (List.suffix_append _ _).isInfix)
  obtain ⟨start, found⟩ := exists_found inFront
  have fits : start + 3 ≤ (known shape.plainFront).length := by
    rw [known, List.length_map]
    exact found_le found
  refine ⟨start + 3, fun secrets silent => ?_⟩
  have foundTraced : findText schemeMark (chars (shape.traced secrets)) = some start := by
    rw [← text, text_of_silent silent]
    exact findText_append found _
  have plain : ∀ item ∈ known (shape.plainFront.drop (start + 3)), endsPath item.1 = false := by
    refine known_plain fun char mem => ?_
    rcases List.mem_append.mp (List.mem_of_mem_drop mem) with inBeginning | behind
    · exact (beginning_plain bare).2 char inBeginning
    · rcases List.mem_append.mp behind with at' | inHead
      · split at at'
        · rw [List.mem_singleton.mp at']
          rfl
        · cases at'
      · exact shape.head_plain char inHead
  rw [tracedUrl_of_found foundTraced, traced_of_silent silent,
    List.take_append_of_le_length fits, List.drop_append_of_le_length fits, known, known,
    ← List.map_take, ← List.map_drop, ← known, ← known, shape.tracedParts_tail secrets plain,
    List.append_assoc]

section

variable (bare : ¬shape.HasScheme) (unmarked : ¬schemeMark <:+: shape.text secrets)
include unmarked

/-- Without a mark a URL that begins with its authority is shown without its secrets. -/
theorem tracedUrl_bare (begins : shape.beginning = .bare)
    : tracedUrl (shape.traced secrets) = known (shape.shownBody ++ shape.marks) := by
  rw [tracedUrl_of_absent unmarked, traced, begins, Beginning.text, known, List.map_nil,
    List.nil_append, shape.tracedParts_tail secrets (shape.body_plain secrets), shape.shown_body,
    known_append]

/-- Without a mark a reference to another host is shown up to its query. -/
theorem tracedUrl_network (begins : shape.beginning = .network)
    : tracedUrl (shape.traced secrets)
      = known ['/', '/'] ++ shape.body secrets ++ known shape.marks := by
  have plain : ∀ item ∈ known ['/', '/'] ++ shape.body secrets, endsPath item.1 = false := by
    intro item mem
    rcases List.mem_append.mp mem with slash | inBody
    · exact known_plain (by simp [endsPath]) item slash
    · exact shape.body_plain secrets item inBody
  rw [tracedUrl_of_absent unmarked, traced, begins, Beginning.text,
    shape.tracedParts_tail secrets plain]
  exact congrArg (· ++ _) (shown_slash _)

include bare

/-- Without a mark a text with no userinfo that could be redacted is shown up to its query. -/
theorem tracedUrl_quiet (silent : shape.Silent secrets)
    (open' : shape.userinfo = true → shape.beginning = .network)
    : tracedUrl (shape.traced secrets) = known (shape.plainFront ++ shape.marks) := by
  cases begins : shape.beginning with
  | scheme name isScheme => exact absurd ⟨name, isScheme, begins⟩ bare
  | network =>
      have parts := traced_of_silent silent
      rw [traced, begins, Beginning.text] at parts
      rw [tracedUrl_network unmarked begins, List.append_cancel_right parts, known_append]
  | bare =>
      have noUser : shape.userinfo = false := by
        cases user : shape.userinfo with
        | false => rfl
        | true => cases begins.symm.trans (open' user)
      rw [tracedUrl_bare unmarked begins, shownBody, plainFront, begins, noUser]
      rfl

end

/-- The front of a text with a query or a fragment is shown with the separator, and more. -/
theorem separator_shown (bare : ¬shape.HasScheme) (unmarked : ¬schemeMark <:+: shape.head)
    (silent : shape.Silent secrets)
    (quiet : ¬shape.Loud secrets → shape.userinfo = true → shape.beginning = .network)
    {rest : List Traced} (tail : shape.tail secrets = (shape.separator, false) :: rest)
    : known (shape.plainFront ++ [shape.separator]) <+: tracedUrl (shape.traced secrets)
      ∧ (known (shape.plainFront ++ [shape.separator])).length
          < (tracedUrl (shape.traced secrets)).length
      ∧ (shape.Loud secrets →
          (tracedUrl (shape.traced secrets))[shape.plainFront.length + 1]? = rest[0]?) := by
  have parts : shape.traced secrets = known (shape.plainFront ++ [shape.separator]) ++ rest := by
    rw [traced_of_silent silent, tail]
    simp [known]
  by_cases loud : shape.Loud secrets
  · have absent : ¬schemeMark <:+: chars (known (shape.plainFront ++ [shape.separator])) := by
      rw [chars_known]
      intro present
      rcases infix_of_infix_append_cons shape.separator_not_mem present with inFront | inNothing
      · have inHead := infix_of_infix_beginning bare inFront
        split at inHead
        · rcases List.infix_cons_iff.mp inHead with begins | inHead
          · revert begins
            simp [schemeMark]
          · exact unmarked inHead
        · exact unmarked inHead
      · revert inNothing
        decide
    obtain ⟨shows, longer, same⟩ := front_shown ⟨rest, parts.symm⟩ absent
      ((marked_iff bare).mpr (.inr loud))
    refine ⟨shows, longer, fun _ => ?_⟩
    have length : (known (shape.plainFront ++ [shape.separator])).length
        = shape.plainFront.length + 1 := by simp [known]
    rw [length] at same
    rw [same, parts, List.getElem?_append_right (by rw [length]), length, Nat.sub_self]
  · have noMark : ¬schemeMark <:+: shape.text secrets := fun present =>
      ((marked_iff bare).mp present).elim unmarked loud
    rw [tracedUrl_quiet bare noMark silent (quiet loud)]
    rcases shape.tail_cases with ⟨nothing, -⟩ | ⟨-, more, marks⟩
    · rw [nothing] at tail
      cases tail
    · rw [marks]
      exact ⟨⟨known ('[' :: more), by simp [known]⟩, by simp [known], fun there => absurd there loud⟩

-- What is shown within the bound

/-- What the sanitizer shows, with the origin of each character. -/
def output (shape : UrlShape) (secrets : UrlSecrets) : List Traced :=
  boundTraced (tracedUrl (shape.traced secrets))

theorem sanitizeUrl_text (shape : UrlShape) (secrets : UrlSecrets)
    : sanitizeUrlForDiagnostics (String.ofList (shape.text secrets))
      = String.ofList (chars (shape.output secrets)) := by
  rw [sanitizeUrlForDiagnostics, String.toList_ofList, output, chars_boundTraced, text]

/-- Two texts are shown alike, and no character of their secret parts is shown. -/
structure Redacts (shape : UrlShape) (one two : UrlSecrets) : Prop where
  same
    : sanitizeUrlForDiagnostics (String.ofList (shape.text one))
      = sanitizeUrlForDiagnostics (String.ofList (shape.text two))
  concealed : ∀ secrets ∈ [one, two], ∀ item ∈ shape.output secrets, item.2 = false

/-- Outputs that are the same, and have no secret characters. -/
theorem redacts_of_output (same : shape.output one = shape.output two)
    (clean : ∀ item ∈ shape.output one, item.2 = false)
    : shape.Redacts one two := by
  refine ⟨by rw [sanitizeUrl_text, sanitizeUrl_text, same], fun secrets mem => ?_⟩
  rcases List.mem_pair.mp mem with rfl | rfl
  · exact clean
  · exact same ▸ clean

/-- What has no secret characters has none within the bound. -/
theorem boundTraced_clean {combined : List Traced} (clean : ∀ item ∈ combined, item.2 = false)
    : ∀ item ∈ boundTraced combined, item.2 = false := by
  have safe : ∀ item ∈ combined.map (Prod.map safeChar id), item.2 = false := by
    intro item mem
    obtain ⟨origin, within, rfl⟩ := List.mem_map.mp mem
    exact clean origin within
  intro item mem
  unfold boundTraced at mem
  dsimp only at mem
  split at mem
  · rcases List.mem_append.mp mem with kept | mark
    · exact safe item (List.mem_of_mem_take kept)
    · exact mem_known mark
  · exact safe item mem

/-- The same combined text without secret characters is redacted. -/
theorem redacts_of_tracedUrl
    (same : tracedUrl (shape.traced one) = tracedUrl (shape.traced two))
    (clean : ∀ item ∈ tracedUrl (shape.traced one), item.2 = false)
    : shape.Redacts one two :=
  redacts_of_output (congrArg boundTraced same) (boundTraced_clean clean)

theorem boundTraced_of_front {front : List Char} {combined : List Traced}
    (long : maxDiagnosticUrlChars ≤ front.length) (begins : known front <+: combined)
    (longer : (known front).length < combined.length)
    : boundTraced combined
      = known ((front.map safeChar).take maxDiagnosticUrlChars ++ "...[TRUNCATED]".toList) := by
  obtain ⟨rest, rfl⟩ := begins
  have length : (known front).length = front.length := List.length_map ..
  unfold boundTraced
  dsimp only
  rw [List.length_map, if_pos (lt_of_le_of_lt (length ▸ long) longer), List.map_append,
    List.take_append_of_le_length (by rwa [List.length_map, length]), known_append]
  congr 1
  simp only [known, List.map_map, ← List.map_take]
  rfl

theorem redacts_of_front {front : List Char} (long : maxDiagnosticUrlChars ≤ front.length)
    (shows : ∀ secrets ∈ [one, two], known front <+: tracedUrl (shape.traced secrets)
      ∧ (known front).length < (tracedUrl (shape.traced secrets)).length)
    : shape.Redacts one two := by
  have isFront : ∀ secrets ∈ [one, two], shape.output secrets
      = known ((front.map safeChar).take maxDiagnosticUrlChars ++ "...[TRUNCATED]".toList) :=
    fun secrets mem => boundTraced_of_front long (shows secrets mem).1 (shows secrets mem).2
  have first := isFront one (by simp)
  refine redacts_of_output (first.trans (isFront two (by simp)).symm) ?_
  rw [first]
  exact fun item => mem_known

/-- What is shown up to the bound is the redacted text, made safe. -/
theorem getElem?_output {index : Nat} {item : Traced} (within : index < maxDiagnosticUrlChars)
    (stands : (tracedUrl (shape.traced secrets))[index]? = some item)
    : (shape.output secrets)[index]? = some (safeChar item.1, item.2) := by
  have fits := (List.getElem?_eq_some_iff.mp stands).1
  unfold output boundTraced
  dsimp only
  split
  · rw [List.getElem?_append_left, List.getElem?_take_of_lt within, List.getElem?_map, stands]
    · rfl
    · rw [List.length_take, List.length_map]
      exact lt_min within fits
  · rw [List.getElem?_map, stands]
    rfl

section

variable (redacts : shape.Redacts one two) {index : Nat} (within : index < maxDiagnosticUrlChars)
include redacts within

/-- Within the bound no secret character is shown. -/
theorem Redacts.not_secret (mem : secrets ∈ [one, two]) {char : Char}
    : (tracedUrl (shape.traced secrets))[index]? ≠ some (char, true) := by
  intro stands
  have shows := List.mem_of_getElem? (getElem?_output within stands)
  cases redacts.concealed secrets mem _ shows

/-- Within the bound the same characters are shown. -/
theorem Redacts.not_differ {first second : Traced}
    (inOne : (tracedUrl (shape.traced one))[index]? = some first)
    (inTwo : (tracedUrl (shape.traced two))[index]? = some second)
    : safeChar first.1 = safeChar second.1 := by
  have same := redacts.same
  rw [sanitizeUrl_text, sanitizeUrl_text] at same
  have shown (secrets : UrlSecrets) {item : Traced}
      (stands : (tracedUrl (shape.traced secrets))[index]? = some item)
      : (chars (shape.output secrets))[index]? = some (safeChar item.1) := by
    rw [chars, List.getElem?_map, getElem?_output within stands]
    rfl
  have shownOne := shown one inOne
  rw [String.ofList_injective same, shown two inTwo] at shownOne
  exact (Option.some.inj shownOne).symm

end

theorem Redacts.symm (redacts : shape.Redacts one two) : shape.Redacts two one :=
  ⟨redacts.same.symm, fun secrets mem => redacts.concealed secrets (by simpa [or_comm] using mem)⟩

-- The condition

/-- The front of a URL without a scheme is shown as it is: it begins with two slashes, or a mark
stands somewhere.
-/
def Raw (shape : UrlShape) (secrets : UrlSecrets) : Prop :=
  shape.beginning = .network ∨ schemeMark <:+: shape.text secrets

def HidesUserinfo (shape : UrlShape) (one two : UrlSecrets) : Prop :=
  shape.userinfo = true →
    (¬shape.Raw one ∧ ¬shape.Raw two)
      ∨ ∀ secrets ∈ [one, two], shape.Raw secrets ∧ secrets.userinfo = []

/-- A mark stands in the fragment, behind an empty query. -/
def Skips (shape : UrlShape) (secrets : UrlSecrets) : Prop :=
  shape.Loud secrets ∧ shape.query = true ∧ secrets.query = []

/-- A mark stands before the query and the fragment, or in neither text within them; or they come
behind what is shown.
-/
def HidesTail (shape : UrlShape) (one two : UrlSecrets) : Prop :=
  schemeMark <:+: shape.head
  ∨ (¬shape.Loud one ∧ ¬shape.Loud two)
  ∨ maxDiagnosticUrlChars ≤ shape.plainFront.length + 1
  ∨ (maxDiagnosticUrlChars ≤ shape.plainFront.length + 2 ∧ shape.Skips one ∧ shape.Skips two)

def Hides (shape : UrlShape) (one two : UrlSecrets) : Prop :=
  shape.HasScheme ∨ (shape.HidesUserinfo one two ∧ shape.HidesTail one two)

theorem Skips.tail (skips : shape.Skips secrets)
    : ∃ first rest, shape.tail secrets = ('?', false) :: ('#', false) :: (first, true) :: rest := by
  obtain ⟨loud, query, nothing⟩ := skips
  unfold Loud at loud
  unfold UrlShape.tail at loud ⊢
  rw [if_pos query, nothing] at loud ⊢
  cases fragment : shape.fragment with
  | false =>
      rw [fragment] at loud
      exact absurd loud (by decide : ¬schemeMark <:+: ['?'])
  | true =>
      cases text : secrets.fragment with
      | nil =>
          rw [fragment, text] at loud
          exact absurd loud (by decide : ¬schemeMark <:+: ['?', '#'])
      | cons first rest => exact ⟨first, secret rest, rfl⟩

/-- Another text with a mark has a secret character behind its separator. -/
theorem Loud.first (loud : shape.Loud secrets) (speaks : ¬shape.Skips secrets)
    {rest : List Traced} (tail : shape.tail secrets = (shape.separator, false) :: rest)
    : ∃ char, rest[0]? = some (char, true) := by
  have whole := loud
  unfold Loud at whole
  unfold UrlShape.tail at tail whole
  unfold separator at tail
  cases query : shape.query with
  | true =>
      rw [query] at tail
      obtain ⟨-, rfl⟩ := List.cons.inj tail
      cases text : secrets.query with
      | nil => exact absurd ⟨loud, query, text⟩ speaks
      | cons first later => exact ⟨first, rfl⟩
  | false =>
      rw [query] at tail whole
      cases fragment : shape.fragment with
      | false =>
          rw [fragment] at tail
          cases tail
      | true =>
          rw [fragment] at tail whole
          obtain ⟨-, rfl⟩ := List.cons.inj tail
          cases text : secrets.fragment with
          | nil =>
              rw [text] at whole
              exact absurd whole (by decide : ¬schemeMark <:+: ['#'])
          | cons first later => exact ⟨first, rfl⟩

section

variable (bare : ¬shape.HasScheme)
include bare

theorem Skips.shown (unmarked : ¬schemeMark <:+: shape.head) (silent : shape.Silent secrets)
    (skips : shape.Skips secrets)
    : known (shape.plainFront ++ ['?', '#']) <+: tracedUrl (shape.traced secrets)
      ∧ (known (shape.plainFront ++ ['?', '#'])).length < (tracedUrl (shape.traced secrets)).length
      ∧ ∃ first, (tracedUrl (shape.traced secrets))[shape.plainFront.length + 2]?
        = some (first, true) := by
  obtain ⟨first, rest, tail⟩ := skips.tail
  have parts : shape.traced secrets
      = known (shape.plainFront ++ ['?', '#']) ++ (first, true) :: rest := by
    rw [traced_of_silent silent, tail]
    simp [known]
  have absent : ¬schemeMark <:+: chars (known (shape.plainFront ++ ['?', '#'])) := by
    rw [chars_known]
    intro present
    have noQuery : '?' ∉ schemeMark := by decide
    rcases infix_of_infix_append_cons noQuery present with inFront | inMark
    · have inHead := infix_of_infix_beginning bare inFront
      split at inHead
      · rcases List.infix_cons_iff.mp inHead with begins | inHead
        · revert begins
          simp [schemeMark]
        · exact unmarked inHead
      · exact unmarked inHead
    · revert inMark
      decide
  obtain ⟨shows, longer, same⟩ := front_shown ⟨_, parts.symm⟩ absent
    ((marked_iff bare).mpr (.inr skips.1))
  have length : (known (shape.plainFront ++ ['?', '#'])).length = shape.plainFront.length + 2 := by
    simp [known]
  refine ⟨shows, longer, first, ?_⟩
  rw [length] at same
  rw [same, parts, List.getElem?_append_right (by rw [length]), length, Nat.sub_self]
  rfl

-- What is hidden

/-- Fronts with userinfo that are not shown as they are. -/
theorem redacts_of_not_raw (notRaw : ∀ secrets ∈ [one, two], ¬shape.Raw secrets)
    : shape.Redacts one two := by
  have shows : ∀ secrets ∈ [one, two],
      tracedUrl (shape.traced secrets) = known (shape.shownBody ++ shape.marks) := by
    intro secrets mem
    obtain ⟨noNetwork, unmarked⟩ := not_or.mp (notRaw secrets mem)
    refine tracedUrl_bare unmarked ?_
    cases begins : shape.beginning with
    | scheme name isScheme => exact absurd ⟨name, isScheme, begins⟩ bare
    | network => exact absurd begins noNetwork
    | bare => rfl
  have first := shows one (by simp)
  refine redacts_of_tracedUrl (first.trans (shows two (by simp)).symm) ?_
  rw [first]
  exact fun item => mem_known

/-- Texts with no character of userinfo whose query and fragment are hidden, case by case. -/
theorem redacts_of_silent (silent : ∀ secrets ∈ [one, two], shape.Silent secrets)
    (raw : shape.userinfo = true → ∀ secrets ∈ [one, two], shape.Raw secrets)
    (hidden : shape.HidesTail one two)
    : shape.Redacts one two := by
  by_cases marked : schemeMark <:+: shape.head
  · obtain ⟨cut, shows⟩ := tracedUrl_marked bare marked
    have first := shows one (silent one (by simp))
    refine redacts_of_tracedUrl (first.trans (shows two (silent two (by simp))).symm) ?_
    rw [first]
    intro item mem
    rcases List.mem_append.mp mem with front | inMarks
    · exact (List.mem_append.mp front).elim mem_known mem_shown_known
    · exact mem_known inMarks
  have network : ∀ secrets ∈ [one, two], ¬shape.Loud secrets → shape.userinfo = true →
      shape.beginning = .network := by
    intro secrets mem quiet user
    rcases raw user secrets mem with begins | present
    · exact begins
    · exact (((marked_iff bare).mp present).elim marked quiet).elim
  have allQuiet (quiet : ∀ secrets ∈ [one, two], ¬shape.Loud secrets) : shape.Redacts one two := by
    have shows : ∀ secrets ∈ [one, two],
        tracedUrl (shape.traced secrets) = known (shape.plainFront ++ shape.marks) := by
      intro secrets mem
      refine tracedUrl_quiet bare (fun present => ?_) (silent secrets mem)
        (network secrets mem (quiet secrets mem))
      exact ((marked_iff bare).mp present).elim marked (quiet secrets mem)
    have first := shows one (by simp)
    refine redacts_of_tracedUrl (first.trans (shows two (by simp)).symm) ?_
    rw [first]
    exact fun item => mem_known
  rcases hidden with inHead | ⟨quietOne, quietTwo⟩ | long | ⟨long, skipsOne, skipsTwo⟩
  · exact absurd inHead marked
  · exact allQuiet (by simp [quietOne, quietTwo])
  · rcases shape.tail_cases with ⟨nothing, -⟩ | ⟨begins, -⟩
    · exact allQuiet fun secrets _ => not_loud_of_nil (nothing secrets)
    · have reaches : maxDiagnosticUrlChars ≤ (shape.plainFront ++ [shape.separator]).length := by
        simpa using long
      refine redacts_of_front reaches fun secrets mem => ?_
      obtain ⟨rest, tail⟩ := begins secrets
      obtain ⟨shows, longer, -⟩ := separator_shown bare marked (silent secrets mem)
        (network secrets mem) tail
      exact ⟨shows, longer⟩
  · have reaches : maxDiagnosticUrlChars ≤ (shape.plainFront ++ ['?', '#']).length := by
      simpa using long
    refine redacts_of_front reaches fun secrets mem => ?_
    have skips : shape.Skips secrets := by
      rcases List.mem_pair.mp mem with rfl | rfl
      · exact skipsOne
      · exact skipsTwo
    obtain ⟨shows, longer, -⟩ := skips.shown bare marked (silent secrets mem)
    exact ⟨shows, longer⟩

/-- Two texts that hide their secrets are redacted, by how their fronts are shown. -/
theorem HidesUserinfo.redacts (user : shape.HidesUserinfo one two)
    (hidden : shape.HidesTail one two)
    : shape.Redacts one two := by
  cases there : shape.userinfo with
  | false =>
      exact redacts_of_silent bare (fun _ _ known => by cases there.symm.trans known)
        (fun known => by cases there.symm.trans known) hidden
  | true =>
      rcases user there with ⟨notOne, notTwo⟩ | raw
      · exact redacts_of_not_raw bare (by simp [notOne, notTwo])
      · exact redacts_of_silent bare (fun secrets mem _ => (raw secrets mem).2)
          (fun _ secrets mem => (raw secrets mem).1) hidden

-- What is shown

theorem userinfo_shown (there : shape.userinfo = true) (raw : shape.Raw secrets)
    : (tracedUrl (shape.traced secrets))[shape.beginning.text.length]?
      = (secret secrets.userinfo ++ [('@', false)])[0]? := by
  have user : (shape.traced secrets)[shape.beginning.text.length]?
      = (secret secrets.userinfo ++ [('@', false)])[0]? := by
    have length : (known shape.beginning.text).length = shape.beginning.text.length := by
      simp [known]
    rw [traced, List.append_assoc, List.getElem?_append_right (by rw [length]), length,
      Nat.sub_self, body, if_pos there]
    cases secrets.userinfo <;> rfl
  by_cases present : schemeMark <:+: shape.text secrets
  · have absent : ¬schemeMark <:+: chars (known shape.beginning.text) := by
      rw [chars_known]
      intro within
      have short := within.length_le.trans (beginning_plain bare).1
      revert short
      decide
    have begins : known shape.beginning.text <+: shape.traced secrets :=
      ⟨shape.body secrets ++ shape.tail secrets, by rw [traced, List.append_assoc]⟩
    have same := (front_shown begins absent present).2.2
    rwa [known, List.length_map, user] at same
  · have network := raw.resolve_right present
    rw [tracedUrl_network present network, network, body, if_pos there]
    cases secrets.userinfo <;> rfl

theorem Redacts.userinfo_nil (redacts : shape.Redacts one two) (there : shape.userinfo = true)
    (mem : secrets ∈ [one, two]) (raw : shape.Raw secrets)
    : secrets.userinfo = [] := by
  have early : shape.beginning.text.length < maxDiagnosticUrlChars :=
    lt_of_le_of_lt (beginning_plain bare).1 (by decide)
  have shows := userinfo_shown bare there raw
  cases user : secrets.userinfo with
  | nil => rfl
  | cons first rest =>
      rw [user] at shows
      exact absurd shows (redacts.not_secret early mem)

/-- Of two redacted texts with userinfo both fronts are shown as they are, or none. -/
theorem Redacts.raw (redacts : shape.Redacts one two) (there : shape.userinfo = true)
    (raw : shape.Raw one)
    : shape.Raw two := by
  by_contra notRaw
  obtain ⟨noNetwork, unmarked⟩ := not_or.mp notRaw
  have begins : shape.beginning = .bare := by
    cases begins : shape.beginning with
    | scheme name isScheme => exact absurd ⟨name, isScheme, begins⟩ bare
    | network => exact absurd begins noNetwork
    | bare => rfl
  have inOne := userinfo_shown bare there raw
  rw [redacts.userinfo_nil bare there (by simp) raw, begins] at inOne
  have inTwo : (tracedUrl (shape.traced two))[0]? = some ('[', false) := by
    rw [tracedUrl_bare unmarked begins, shownBody, if_pos there]
    rfl
  have shown : 0 < maxDiagnosticUrlChars := by decide
  have same := redacts.not_differ shown inOne inTwo
  revert same
  decide

theorem Redacts.hidesUserinfo (redacts : shape.Redacts one two) : shape.HidesUserinfo one two := by
  intro there
  by_cases raw : shape.Raw one
  · have rawTwo := redacts.raw bare there raw
    refine .inr fun secrets mem => ?_
    have isRaw : shape.Raw secrets := by
      rcases List.mem_pair.mp mem with rfl | rfl
      · exact raw
      · exact rawTwo
    exact ⟨isRaw, redacts.userinfo_nil bare there mem isRaw⟩
  · exact .inl ⟨raw, fun rawTwo => raw (redacts.symm.raw bare there rawTwo)⟩

/-- A loud text of two that are redacted within the bound skips its query, and so does the other. -/
theorem Redacts.skips (redacts : shape.Redacts one two) (unmarked : ¬schemeMark <:+: shape.head)
    (short : shape.plainFront.length + 1 < maxDiagnosticUrlChars)
    (mem : secrets ∈ [one, two]) (loud : shape.Loud secrets)
    : shape.Skips secrets ∧ maxDiagnosticUrlChars ≤ shape.plainFront.length + 2 := by
  have silent : shape.Silent secrets := fun there =>
    redacts.userinfo_nil bare there mem (.inr ((marked_iff bare).mpr (.inr loud)))
  rcases shape.tail_cases with ⟨nothing, -⟩ | ⟨begins, -⟩
  · exact absurd loud (not_loud_of_nil (nothing secrets))
  · obtain ⟨rest, tail⟩ := begins secrets
    have shows := (separator_shown bare unmarked silent (absurd loud) tail).2.2 loud
    have skips : shape.Skips secrets := by
      by_contra speaks
      obtain ⟨char, first⟩ := loud.first speaks tail
      exact redacts.not_secret short mem (shows.trans first)
    refine ⟨skips, ?_⟩
    by_contra within
    obtain ⟨-, -, first, stands⟩ := skips.shown bare unmarked silent
    exact redacts.not_secret (not_le.mp within) mem stands

/-- Beside a text that skips its query another one does, since its mark would be shown. -/
theorem Redacts.loud (redacts : shape.Redacts one two) (unmarked : ¬schemeMark <:+: shape.head)
    (short : shape.plainFront.length + 1 < maxDiagnosticUrlChars) (skips : shape.Skips one)
    : shape.Loud two := by
  by_contra quiet
  have raw : shape.Raw one := .inr ((marked_iff bare).mpr (.inr skips.1))
  have silentOne : shape.Silent one := fun there => redacts.userinfo_nil bare there (by simp) raw
  have silentTwo : shape.Silent two := fun there =>
    redacts.userinfo_nil bare there (by simp) (redacts.raw bare there raw)
  have noMark : ¬schemeMark <:+: shape.text two := fun present =>
    ((marked_iff bare).mp present).elim unmarked quiet
  have network : shape.userinfo = true → shape.beginning = .network := fun there =>
    (redacts.raw bare there raw).resolve_right noMark
  have length : (known shape.plainFront).length = shape.plainFront.length := by simp [known]
  have inOne : (tracedUrl (shape.traced one))[shape.plainFront.length + 1]? = some ('#', false) := by
    obtain ⟨⟨rest, whole⟩, -⟩ := skips.shown bare unmarked silentOne
    rw [← whole, known_append, List.append_assoc, List.getElem?_append_right (by omega), length,
      Nat.add_sub_cancel_left]
    rfl
  have inTwo : (tracedUrl (shape.traced two))[shape.plainFront.length + 1]? = some ('[', false) := by
    rw [tracedUrl_quiet bare noMark silentTwo network, known_append,
      List.getElem?_append_right (by omega), length, Nat.add_sub_cancel_left, marks,
      if_pos skips.2.1]
    rfl
  have same := redacts.not_differ short inOne inTwo
  revert same
  decide

theorem Redacts.hidesTail (redacts : shape.Redacts one two) : shape.HidesTail one two := by
  by_contra shows
  obtain ⟨unmarked, others⟩ := not_or.mp shows
  obtain ⟨loud, others⟩ := not_or.mp others
  obtain ⟨short, open'⟩ := not_or.mp others
  have within := not_le.mp short
  have both : shape.Loud one ∧ shape.Loud two := by
    by_cases loudOne : shape.Loud one
    · have skips := (redacts.skips bare unmarked within (by simp) loudOne).1
      exact ⟨loudOne, redacts.loud bare unmarked within skips⟩
    · have loudTwo : shape.Loud two := not_not.mp fun quiet => loud ⟨loudOne, quiet⟩
      have skips := (redacts.skips bare unmarked within (by simp) loudTwo).1
      exact absurd (redacts.symm.loud bare unmarked within skips) loudOne
  obtain ⟨skipsOne, long⟩ := redacts.skips bare unmarked within (by simp) both.1
  exact open' ⟨long, skipsOne, (redacts.skips bare unmarked within (by simp) both.2).1⟩

end

/-- Two URLs that differ in their userinfo, query and fragment only are shown alike, and without a
character of these, just when their shape hides them.
-/
theorem redacts_iff_hides (shape : UrlShape) (one two : UrlSecrets)
    : shape.Redacts one two ↔ shape.Hides one two := by
  by_cases hasScheme : shape.HasScheme
  · refine ⟨fun _ => .inl hasScheme, fun _ => ?_⟩
    have first := tracedUrl_scheme hasScheme one
    refine redacts_of_tracedUrl (first.trans (tracedUrl_scheme hasScheme two).symm) ?_
    rw [first]
    exact fun item => mem_known
  · constructor
    · intro redacts
      exact .inr ⟨redacts.hidesUserinfo hasScheme, redacts.hidesTail hasScheme⟩
    · rintro (isScheme | ⟨user, tail⟩)
      · exact absurd isScheme hasScheme
      · exact user.redacts hasScheme tail

end UrlShape

def loginShape : UrlShape :=
  {
    beginning := .bare
    userinfo := false
    host := []
    path := "/login".toList
    query := true
    fragment := false
    host_plain := fun _ mem => (List.not_mem_nil mem).elim
    path_plain := by simp [endsPath]
    path_begins := .inr rfl
  }

/-- A token, and the URL of the next page. -/
def loginSecrets (token : String) (plain : ∀ char ∈ token.toList, char ≠ '#') : UrlSecrets :=
  {
    userinfo := []
    query := "token=".toList ++ token.toList ++ "&next=https://app".toList
    fragment := []
    userinfo_plain := fun _ mem => (List.not_mem_nil mem).elim
    query_plain := by
      intro char mem
      rcases List.mem_append.mp mem with front | next
      · rcases List.mem_append.mp front with name | inToken
        · revert name
          simp +contextual [or_imp]
        · exact plain char inToken
      · revert next
        simp +contextual [or_imp]
  }

/-- A relative reference with a URL in its query, and a reference to another host with a password,
are shown as they are.
-/
theorem sanitizer_leaks
    : sanitizeUrlForDiagnostics "/login?token=one&next=https://app"
          = "/login?token=one&next=https://app"
      ∧ sanitizeUrlForDiagnostics "//user:secret@host/" = "//user:secret@host/"
      ∧ loginShape.text (loginSecrets "one" (by simp))
          = "/login?token=one&next=https://app".toList
      ∧ ¬loginShape.Redacts (loginSecrets "one" (by simp)) (loginSecrets "two" (by simp)) := by
  refine ⟨by decide +kernel, by decide +kernel, by decide +kernel, fun redacts => ?_⟩
  have same := redacts.same
  revert same
  decide +kernel

end SkillRanker.Jev
