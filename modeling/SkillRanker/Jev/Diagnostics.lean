import SkillRanker.Identity
import SkillRanker.Library.Texts

/-! URLs in diagnostics: what is taken out of them before they are shown. -/

namespace SkillRanker.Jev

open Library

-- The sanitizer

def maxDiagnosticUrlChars : Nat := 256

def endsAuthority (char : Char) : Bool := char == '/' || char == '?' || char == '#'

def endsPath (char : Char) : Bool := char == '?' || char == '#'

def schemeMark : List Char := [':', '/', '/']

def splitScheme (url : List Char) : List Char × List Char :=
  match findText schemeMark url with
  | some start => (url.take (start + 3), url.drop (start + 3))
  | none => ([], url)

/-- The authority with what stands before its last `@` taken out. -/
def redactUserinfo (authority : List Char) : List Char :=
  if '@' ∈ authority then
    "[REDACTED]@".toList ++ authority.rtakeWhile (· ≠ '@')
  else authority

/-- What is shown in the place of a query or a fragment that is there. -/
def marked (mark : String) (text : List Char) : List Char :=
  if text.isEmpty then [] else mark.toList

/-- The text behind the scheme without its userinfo, query and fragment. -/
def redactParts (afterScheme : List Char) : List Char :=
  let authority := afterScheme.takeWhile (!endsAuthority ·)
  let afterAuthority := afterScheme.dropWhile (!endsAuthority ·)
  let path := afterAuthority.takeWhile (!endsPath ·)
  let queryAndFragment := afterAuthority.dropWhile (!endsPath ·)
  let query := queryAndFragment.takeWhile (· ≠ '#')
  let fragment := queryAndFragment.dropWhile (· ≠ '#')
  redactUserinfo authority ++ path ++ marked "?[QUERY-REDACTED]" query
    ++ marked "#[FRAGMENT-REDACTED]" fragment

/-- The combined text, before it is made safe. -/
def redactUrl (url : List Char) : List Char :=
  let (scheme, afterScheme) := splitScheme url
  scheme ++ redactParts afterScheme

def safeChar (char : Char) : Char := if isControl char then '?' else char

def boundUrl (combined : List Char) : List Char :=
  let safe := combined.map safeChar
  if safe.length > maxDiagnosticUrlChars then
    safe.take maxDiagnosticUrlChars ++ "...[TRUNCATED]".toList
  else safe

/-- Removes userinfo, query and fragment of a URL before it is shown in diagnostics. -/
def sanitizeUrlForDiagnostics (url : String) : String :=
  String.ofList (boundUrl (redactUrl url.toList))

inductive RedirectError where
  | redirectForbidden (statusCode : Nat) (location : Option String)
  deriving DecidableEq

/-- All redirects are refused, and their location is shown without its secrets. -/
def validateResponseStatus (statusCode : Nat) (locationHeader : Option String)
    : Except RedirectError Unit :=
  if 300 ≤ statusCode ∧ statusCode ≤ 399 then
    .error (.redirectForbidden statusCode (locationHeader.map sanitizeUrlForDiagnostics))
  else .ok ()

-- The sanitizer on characters that know their origin

/-- A character, and whether it belongs to a secret part. -/
abbrev Traced : Type := Char × Bool

def chars (text : List Traced) : List Char := text.map Prod.fst

def known (text : List Char) : List Traced := text.map (·, false)

def secret (text : List Char) : List Traced := text.map (·, true)

def tracedScheme (url : List Traced) : List Traced × List Traced :=
  match findText schemeMark (chars url) with
  | some start => (url.take (start + 3), url.drop (start + 3))
  | none => ([], url)

def tracedUserinfo (authority : List Traced) : List Traced :=
  if '@' ∈ chars authority then
    known "[REDACTED]@".toList ++ authority.rtakeWhile (·.1 ≠ '@')
  else authority

def tracedParts (afterScheme : List Traced) : List Traced :=
  let authority := afterScheme.takeWhile (!endsAuthority ·.1)
  let afterAuthority := afterScheme.dropWhile (!endsAuthority ·.1)
  let path := afterAuthority.takeWhile (!endsPath ·.1)
  let queryAndFragment := afterAuthority.dropWhile (!endsPath ·.1)
  let query := queryAndFragment.takeWhile (·.1 ≠ '#')
  let fragment := queryAndFragment.dropWhile (·.1 ≠ '#')
  tracedUserinfo authority ++ path ++ known (marked "?[QUERY-REDACTED]" (chars query))
    ++ known (marked "#[FRAGMENT-REDACTED]" (chars fragment))

def tracedUrl (url : List Traced) : List Traced :=
  let (scheme, afterScheme) := tracedScheme url
  scheme ++ tracedParts afterScheme

def boundTraced (combined : List Traced) : List Traced :=
  let safe := combined.map (Prod.map safeChar id)
  if safe.length > maxDiagnosticUrlChars then
    safe.take maxDiagnosticUrlChars ++ known "...[TRUNCATED]".toList
  else safe

@[simp] theorem chars_known (text : List Char) : chars (known text) = text := by
  simp [chars, known, Function.comp_def]

@[simp] theorem chars_secret (text : List Char) : chars (secret text) = text := by
  simp [chars, secret, Function.comp_def]

@[simp] theorem chars_append (front back : List Traced)
    : chars (front ++ back) = chars front ++ chars back :=
  List.map_append

@[simp] theorem known_append (front back : List Char)
    : known (front ++ back) = known front ++ known back :=
  List.map_append

theorem mem_known {item : Traced} {text : List Char} (mem : item ∈ known text)
    : item.2 = false := by
  obtain ⟨char, -, rfl⟩ := List.mem_map.mp mem
  rfl

theorem chars_takeWhile (holds : Char → Bool) (text : List Traced)
    : chars (text.takeWhile (holds ·.1)) = (chars text).takeWhile holds := by
  rw [chars, chars, List.takeWhile_map]
  rfl

theorem chars_dropWhile (holds : Char → Bool) (text : List Traced)
    : chars (text.dropWhile (holds ·.1)) = (chars text).dropWhile holds := by
  rw [chars, chars, List.dropWhile_map]
  rfl

theorem chars_tracedUserinfo (authority : List Traced)
    : chars (tracedUserinfo authority) = redactUserinfo (chars authority) := by
  have behind : chars (authority.rtakeWhile (·.1 ≠ '@'))
      = (chars authority).rtakeWhile (· ≠ '@') := by
    rw [List.rtakeWhile, List.rtakeWhile, chars, chars, List.map_reverse,
      ← List.map_reverse (f := Prod.fst) (l := authority), List.takeWhile_map]
    rfl
  unfold tracedUserinfo redactUserinfo
  split
  · rw [chars_append, chars_known, behind]
  · rfl

theorem chars_tracedParts (afterScheme : List Traced)
    : chars (tracedParts afterScheme) = redactParts (chars afterScheme) := by
  simp only [tracedParts, redactParts, chars_append, chars_known, chars_tracedUserinfo,
    chars_takeWhile (!endsAuthority ·), chars_dropWhile (!endsAuthority ·),
    chars_takeWhile (!endsPath ·), chars_dropWhile (!endsPath ·),
    chars_takeWhile (fun char => decide (char ≠ '#')),
    chars_dropWhile (fun char => decide (char ≠ '#'))]

/-- The sanitizer does the same on characters that know their origin. -/
theorem chars_boundTraced (url : List Traced)
    : chars (boundTraced (tracedUrl url)) = boundUrl (redactUrl (chars url)) := by
  have combined : chars (tracedUrl url) = redactUrl (chars url) := by
    unfold tracedUrl tracedScheme redactUrl splitScheme
    cases findText schemeMark (chars url) with
    | none => exact chars_tracedParts url
    | some start =>
        simp only [chars_append, chars_tracedParts]
        rw [chars, chars, chars, List.map_take, List.map_drop]
  have safe : chars ((tracedUrl url).map (Prod.map safeChar id))
      = (redactUrl (chars url)).map safeChar := by
    rw [← combined, chars, chars, List.map_map, List.map_map]
    rfl
  have lengths : ((tracedUrl url).map (Prod.map safeChar id)).length
      = ((redactUrl (chars url)).map safeChar).length := by
    rw [← safe, chars, List.length_map, List.length_map, List.length_map]
  unfold boundTraced boundUrl
  dsimp only
  rw [lengths]
  split
  · rw [chars_append, chars_known, ← safe, chars, chars, List.map_take]
  · exact safe

-- The parts of a URL

def IsScheme (name : List Char) : Prop :=
  ∃ first rest, name = first :: rest ∧ first.isAlpha = true
    ∧ ∀ char ∈ rest, char.isAlphanum = true ∨ char ∈ ['+', '-', '.']

/-- How a URL begins: with a scheme, with the `//` of a reference to another host, or with neither.
-/
inductive Beginning where
  | scheme (name : List Char) (isScheme : IsScheme name)
  | network
  | bare

def Beginning.text : Beginning → List Char
  | .scheme name _ => name ++ schemeMark
  | .network => ['/', '/']
  | .bare => []

/-- The parts of a URL that diagnostics may show, and which secret parts it has. The host is
what the authority has behind its last `@`, and the path begins where the authority ends.
-/
structure UrlShape where
  beginning : Beginning
  userinfo : Bool
  host : List Char
  path : List Char
  query : Bool
  fragment : Bool
  host_plain : ∀ char ∈ host, endsAuthority char = false ∧ char ≠ '@'
  path_plain : ∀ char ∈ path, endsPath char = false
  path_begins : path.head? = none ∨ path.head? = some '/'

structure UrlSecrets where
  userinfo : List Char
  query : List Char
  fragment : List Char
  userinfo_plain : ∀ char ∈ userinfo, endsAuthority char = false
  query_plain : ∀ char ∈ query, char ≠ '#'

namespace UrlShape

variable (shape : UrlShape) (secrets : UrlSecrets)

def head : List Char := shape.host ++ shape.path

/-- The authority and the path, with the userinfo if there is one. -/
def body : List Traced :=
  (if shape.userinfo then secret secrets.userinfo ++ [('@', false)] else []) ++ known shape.head

/-- The query and the fragment, as far as they are there. -/
def tail : List Traced :=
  (if shape.query then ('?', false) :: secret secrets.query else [])
    ++ (if shape.fragment then ('#', false) :: secret secrets.fragment else [])

/-- A URL with some secrets, its characters with their origin. -/
def traced : List Traced :=
  known shape.beginning.text ++ shape.body secrets ++ shape.tail secrets

def text : List Char := chars (shape.traced secrets)

def shownBody : List Char :=
  (if shape.userinfo then "[REDACTED]@".toList else []) ++ shape.head

/-- What is shown in the place of the query and the fragment. -/
def marks : List Char :=
  (if shape.query then "?[QUERY-REDACTED]".toList else [])
    ++ (if shape.fragment then "#[FRAGMENT-REDACTED]".toList else [])

end UrlShape

-- The parts as they are found

def shown (front : List Traced) : List Traced :=
  tracedUserinfo (front.takeWhile (!endsAuthority ·.1)) ++ front.dropWhile (!endsAuthority ·.1)

theorem mem_shown_known {front : List Char} {item : Traced} (mem : item ∈ shown (known front))
    : item.2 = false := by
  have kept {part : List Traced} (within : part.Sublist (known front)) (here : item ∈ part)
      : item.2 = false :=
    mem_known (within.subset here)
  unfold shown tracedUserinfo at mem
  rcases List.mem_append.mp mem with inAuthority | behind
  · split at inAuthority
    · rcases List.mem_append.mp inAuthority with mark | host
      · exact mem_known mark
      · refine kept ?_ host
        exact (List.rtakeWhile_suffix ..).sublist.trans (List.takeWhile_sublist _)
    · exact kept (List.takeWhile_sublist _) inAuthority
  · exact kept (List.dropWhile_sublist _) behind

theorem endsAuthority_of_endsPath {char : Char} (ends : endsPath char = true)
    : endsAuthority char = true := by
  unfold endsPath at ends
  unfold endsAuthority
  simp only [Bool.or_eq_true] at ends ⊢
  rcases ends with query | fragment
  · exact .inl (.inr query)
  · exact .inr fragment

namespace UrlShape

variable (shape : UrlShape)

/-- A tail begins where a path ends. -/
theorem tail_stops (secrets : UrlSecrets) (first : Traced)
    (begins : (shape.tail secrets).head? = some first)
    : endsPath first.1 = true := by
  unfold tail at begins
  cases query : shape.query <;> cases fragment : shape.fragment <;>
    simp only [query, fragment] at begins
  · cases begins
  · cases begins
    rfl
  · cases begins
    rfl
  · cases begins
    rfl

/-- The query ends where the fragment begins. -/
theorem split_tail (secrets : UrlSecrets)
    : (shape.tail secrets).takeWhile (·.1 ≠ '#')
          = (if shape.query then ('?', false) :: secret secrets.query else [])
      ∧ (shape.tail secrets).dropWhile (·.1 ≠ '#')
          = (if shape.fragment then ('#', false) :: secret secrets.fragment else []) := by
  have plain : ∀ item ∈ (if shape.query then ('?', false) :: secret secrets.query else []),
      (decide (item.1 ≠ '#')) = true := by
    intro item mem
    split at mem
    · rcases List.mem_cons.mp mem with rfl | later
      · rfl
      · obtain ⟨char, inQuery, rfl⟩ := List.mem_map.mp later
        exact decide_eq_true (secrets.query_plain char inQuery)
    · cases mem
  unfold tail
  rw [List.takeWhile_append_of_pos plain, List.dropWhile_append_of_pos plain]
  cases shape.query <;> cases shape.fragment <;> simp

theorem tracedParts_tail (secrets : UrlSecrets) {front : List Traced}
    (plain : ∀ item ∈ front, endsPath item.1 = false)
    : tracedParts (front ++ shape.tail secrets) = shown front ++ known shape.marks := by
  have pathStop : ∀ first, (shape.tail secrets).head? = some first →
      (!endsPath first.1) = false := fun first begins => by
    rw [shape.tail_stops secrets first begins]
    rfl
  have authorityStop : ∀ first, (shape.tail secrets).head? = some first →
      (!endsAuthority first.1) = false := fun first begins => by
    rw [endsAuthority_of_endsPath (shape.tail_stops secrets first begins)]
    rfl
  have pathPlain : ∀ item ∈ front.dropWhile (!endsAuthority ·.1), (!endsPath item.1) = true :=
    fun item mem => by
      rw [plain item ((List.dropWhile_suffix _).subset mem)]
      rfl
  unfold tracedParts
  simp only [takeWhile_of_stop authorityStop, dropWhile_of_stop authorityStop,
    takeWhile_of_stop pathStop, dropWhile_of_stop pathStop,
    List.takeWhile_eq_self_iff.mpr pathPlain, List.dropWhile_eq_nil_iff.mpr pathPlain,
    List.nil_append, (shape.split_tail secrets).1, (shape.split_tail secrets).2]
  unfold shown marks marked
  cases shape.query <;> cases shape.fragment <;> simp [chars, known]

theorem path_stops (first : Traced) (begins : (known shape.path).head? = some first)
    : (!endsAuthority first.1) = false := by
  rw [known, List.head?_map] at begins
  rcases shape.path_begins with empty | slash
  · rw [empty] at begins
    cases begins
  · rw [slash] at begins
    cases begins
    rfl

theorem shown_authority {authority : List Traced}
    (plain : ∀ item ∈ authority, endsAuthority item.1 = false)
    : shown (authority ++ known shape.path) = tracedUserinfo authority ++ known shape.path := by
  have open' : ∀ item ∈ authority, (!endsAuthority item.1) = true := fun item mem => by
    rw [plain item mem]
    rfl
  unfold shown
  rw [takeWhile_of_stop shape.path_stops, dropWhile_of_stop shape.path_stops,
    List.takeWhile_eq_self_iff.mpr open', List.dropWhile_eq_nil_iff.mpr open', List.nil_append]

theorem tracedUserinfo_host : tracedUserinfo (known shape.host) = known shape.host :=
  if_neg fun mem => (shape.host_plain '@' (chars_known shape.host ▸ mem)).2 rfl

theorem tracedUserinfo_userinfo (userinfo : List Traced)
    : tracedUserinfo (userinfo ++ ('@', false) :: known shape.host)
      = known ("[REDACTED]@".toList ++ shape.host) := by
  have host : (userinfo ++ ('@', false) :: known shape.host).rtakeWhile (·.1 ≠ '@')
      = known shape.host := by
    have plain : ∀ item ∈ (known shape.host).reverse, decide (item.1 ≠ '@') = true := by
      intro item mem
      obtain ⟨char, inHost, rfl⟩ := List.mem_map.mp (List.mem_reverse.mp mem)
      exact decide_eq_true (shape.host_plain char inHost).2
    unfold List.rtakeWhile
    rw [List.reverse_append, List.reverse_cons, List.append_assoc,
      List.takeWhile_append_of_pos plain, List.singleton_append, List.takeWhile_cons]
    simp
  have there : '@' ∈ chars (userinfo ++ ('@', false) :: known shape.host) := by
    simp [chars]
  unfold tracedUserinfo
  rw [if_pos there, host, known_append]

theorem known_plain {text : List Char} {holds : Char → Bool}
    (plain : ∀ char ∈ text, holds char = false)
    : ∀ item ∈ known text, holds item.1 = false := by
  intro item mem
  obtain ⟨char, inText, rfl⟩ := List.mem_map.mp mem
  exact plain char inText

/-- What is shown of the authority and the path does not depend on the userinfo. -/
theorem shown_body (secrets : UrlSecrets)
    : shown (shape.body secrets) = known shape.shownBody := by
  have hostPlain := known_plain fun char mem => (shape.host_plain char mem).1
  unfold body shownBody head
  rw [known_append, ← List.append_assoc]
  split
  · rw [List.append_assoc (secret _), List.singleton_append, shape.shown_authority,
      shape.tracedUserinfo_userinfo]
    · rw [← known_append, List.append_assoc]
    · intro item mem
      rcases List.mem_append.mp mem with inUser | inHost
      · obtain ⟨char, within, rfl⟩ := List.mem_map.mp inUser
        exact secrets.userinfo_plain char within
      · rcases List.mem_cons.mp inHost with rfl | inHost
        · rfl
        · exact hostPlain item inHost
  · rw [List.nil_append, shape.shown_authority hostPlain, shape.tracedUserinfo_host]
    simp

/-- Neither a query nor a fragment begins where an authority goes on. -/
theorem endsPath_of_plain {char : Char} (plain : endsAuthority char = false)
    : endsPath char = false :=
  Bool.eq_false_iff.mpr fun ends => by
    rw [endsAuthority_of_endsPath ends] at plain
    cases plain

/-- Neither a query nor a fragment begins in the host or the path. -/
theorem head_plain : ∀ char ∈ shape.head, endsPath char = false := by
  intro char mem
  rcases List.mem_append.mp mem with inHost | inPath
  · exact endsPath_of_plain (shape.host_plain char inHost).1
  · exact shape.path_plain char inPath

/-- Neither a query nor a fragment begins in the authority or the path. -/
theorem body_plain (secrets : UrlSecrets)
    : ∀ item ∈ shape.body secrets, endsPath item.1 = false := by
  intro item mem
  rcases List.mem_append.mp mem with user | inHead
  · split at user
    · rcases List.mem_append.mp user with inUser | at'
      · obtain ⟨char, within, rfl⟩ := List.mem_map.mp inUser
        exact endsPath_of_plain (secrets.userinfo_plain char within)
      · rw [List.mem_singleton.mp at']
        rfl
    · cases user
  · exact known_plain shape.head_plain item inHead

end UrlShape

-- The scheme mark

variable {url : List Char} {start : Nat}

/-- Where a scheme mark stands the text up to it is shown as it is. -/
theorem tracedUrl_of_found {url : List Traced} (found : findText schemeMark (chars url) = some start)
    : tracedUrl url = url.take (start + 3) ++ tracedParts (url.drop (start + 3)) := by
  unfold tracedUrl tracedScheme
  rw [found]

/-- Without a scheme mark the text begins with an authority. -/
theorem tracedUrl_of_absent {url : List Traced} (absent : ¬schemeMark <:+: chars url)
    : tracedUrl url = tracedParts url := by
  unfold tracedUrl tracedScheme
  rw [findText_eq_none_iff.mpr absent]
  rfl

/-- A text with a scheme mark has one at its first place. -/
theorem exists_found (present : schemeMark <:+: url)
    : ∃ start, findText schemeMark url = some start := by
  refine Option.ne_none_iff_exists'.mp fun nothing => ?_
  exact findText_eq_none_iff.mp nothing present

/-- The mark that is found ends within the text. -/
theorem found_le (found : findText schemeMark url = some start)
    : start + 3 ≤ url.length := by
  obtain ⟨before, after, rfl, rfl⟩ := of_findText found
  simp [schemeMark]

/-- A mark that is found behind a text without one ends behind it. -/
theorem lt_found {front back : List Char} (found : findText schemeMark (front ++ back) = some start)
    (absent : ¬schemeMark <:+: front)
    : front.length < start + 3 := by
  obtain ⟨before, after, is, rfl⟩ := of_findText found
  refine not_le.mp fun le => absent ?_
  have begins : before ++ schemeMark <+: front := by
    have both : before ++ schemeMark <+: front ++ back := is ▸ List.prefix_append _ after
    refine List.prefix_of_prefix_length_le both (List.prefix_append front back) ?_
    simpa [schemeMark] using le
  exact (List.suffix_append before schemeMark).isInfix.trans begins.isInfix

/-- The first mark behind a name without colons is right behind it, by induction on the name. -/
theorem findText_mark {name : List Char} (plain : ':' ∉ name) (rest : List Char)
    : findText schemeMark (name ++ schemeMark ++ rest) = some name.length := by
  induction name with
  | nil => rfl
  | cons first later ih =>
      have different : ':' ≠ first := fun same => plain (same ▸ List.mem_cons_self)
      have elsewhere : schemeMark.isPrefixOf (first :: (later ++ schemeMark ++ rest)) = false := by
        simp [schemeMark, List.isPrefixOf, different]
      have ih := ih fun mem => plain (List.mem_cons_of_mem _ mem)
      rw [List.cons_append, List.cons_append, findText, elsewhere, if_neg Bool.false_ne_true,
        ih]
      rfl

/-- A scheme has no mark in its name: the first mark is behind it. -/
theorem findText_scheme {name : List Char} (isScheme : IsScheme name) (rest : List Char)
    : findText schemeMark (name ++ schemeMark ++ rest) = some name.length := by
  have plain : ':' ∉ name := by
    obtain ⟨first, later, rfl, letter, others⟩ := isScheme
    intro mem
    rcases List.mem_cons.mp mem with rfl | mem
    · cases letter
    · rcases others ':' mem with alphanumeric | special
      · cases alphanumeric
      · revert special
        decide
  exact findText_mark plain rest

/-- Slashes at the start do not begin a mark. -/
theorem infix_of_infix_slash {text : List Char} (present : schemeMark <:+: '/' :: text)
    : schemeMark <:+: text := by
  rcases List.infix_cons_iff.mp present with here | later
  · cases (List.cons_prefix_cons.mp here).1
  · exact later

end SkillRanker.Jev
