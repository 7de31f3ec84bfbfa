import SkillRanker.Jev.Endpoint
import SkillRanker.Library.Loops

/-! Hosts of endpoints: which ones are accepted, and what is canonical about them. -/

namespace SkillRanker.Jev.Endpoint

open Library

-- Labels

def lower (text : List Char) : List Char := text.map Char.toLower

theorem lower_lower (text : List Char) : lower (lower text) = lower text := by
  simp only [lower, List.map_map, Function.comp_def, toLower_toLower]

variable {text : List Char}

/-- A text without letters is in lower case. -/
theorem lower_of_lt (noLetters : ∀ char ∈ text, char.toNat < 65)
    : lower text = text := by
  refine (List.map_congr_left fun char mem => ?_).trans (List.map_id text)
  have below := noLetters char mem
  rcases toLower_cases char with ⟨same, _⟩ | ⟨_, _, _⟩
  · exact same
  · omega

variable (text)

theorem all_isDigit_lower
    : (lower text).all Char.isDigit = text.all Char.isDigit := by
  simp [lower, List.all_map, Function.comp_def, isDigit_toLower]

theorem mem_lower_iff {other : Char} (noLetter : other.toNat < 65 ∨ 90 < other.toNat)
    (noSmallLetter : other.toNat < 97 ∨ 122 < other.toNat)
    : other ∈ lower text ↔ other ∈ text := by
  simp [lower, List.mem_map, toLower_eq_iff _ noLetter noSmallLetter]

theorem lower_modifyHead (char : Char) (labels : List (List Char))
    : (labels.modifyHead (char :: ·)).map lower
      = (labels.map lower).modifyHead (char.toLower :: ·) := by
  cases labels <;> rfl

theorem splitOn_lower
    : (lower text).splitOn '.' = (text.splitOn '.').map lower := by
  induction text with
  | nil => rfl
  | cons first rest ih =>
      have dot := toLower_eq_iff first (show '.'.toNat < 65 ∨ 90 < '.'.toNat by decide) (by decide)
      rw [lower, List.map_cons, List.splitOn_cons_eq_if_modifyHead, ← lower, ih,
        List.splitOn_cons_eq_if_modifyHead]
      by_cases separator : first = '.'
      · subst separator
        rfl
      · rw [if_neg (by simpa using fun same => separator (dot.mp same)),
          if_neg (by simpa using separator), lower_modifyHead]

variable {text}

/-- Labels and the dots between them make the host. -/
theorem lower_intercalate (labels : List (List Char))
    : lower (['.'].intercalate labels) = ['.'].intercalate (labels.map lower) := by
  induction labels with
  | nil => rfl
  | cons first rest ih =>
      cases rest with
      | nil => simp
      | cons next others =>
          rw [List.intercalate_cons_cons, List.map_cons, List.map_cons, List.intercalate_cons_cons,
            ← List.map_cons, ← ih]
          simp [lower]

variable {char : Char}

/-- A character of a host is a dot or stands in one of its labels, by induction on the host. -/
theorem mem_label (mem : char ∈ text) (other : char ≠ '.')
    : ∃ label ∈ text.splitOn '.', char ∈ label := by
  induction text with
  | nil => cases mem
  | cons first rest ih =>
      rw [List.splitOn_cons_eq_if_modifyHead]
      obtain ⟨label, labels, split⟩ := List.exists_cons_of_ne_nil (List.splitOn_ne_nil '.' rest)
      rw [split] at ih ⊢
      rcases List.mem_cons.mp mem with rfl | later
      · rw [if_neg (by simpa using other)]
        exact ⟨char :: label, List.mem_cons_self, List.mem_cons_self⟩
      · obtain ⟨found, listed, inside⟩ := ih later
        by_cases separator : first = '.'
        · rw [if_pos (by simpa using separator)]
          exact ⟨found, List.mem_cons_of_mem _ listed, inside⟩
        · rw [if_neg (by simpa using separator)]
          rcases List.mem_cons.mp listed with rfl | others
          · exact ⟨first :: found, List.mem_cons_self, List.mem_cons_of_mem _ inside⟩
          · exact ⟨found, List.mem_cons_of_mem _ others, inside⟩

/-- A host that ends with a dot has an empty label behind it. -/
theorem splitOn_dot (text : List Char) : (text ++ ['.']).splitOn '.' = text.splitOn '.' ++ [[]] := by
  rw [List.splitOn_append_cons_self]
  rfl

theorem getLast?_ne_dot (nonempty : ∀ label ∈ text.splitOn '.', label ≠ [])
    : text.getLast? ≠ some '.' := by
  intro last
  obtain ⟨front, rfl⟩ := List.getLast?_eq_some_iff.mp last
  refine nonempty [] ?_ rfl
  rw [splitOn_dot]
  exact List.mem_append_right _ List.mem_cons_self

-- Accepted hosts

/-- A number of an address is written as it was read, with digits only. -/
theorem of_ipv4Octet {part : List Char} {octet : Nat} (read : ipv4Octet part = .ok octet)
    : decimal 0 octet = part ∧ part ≠ [] ∧ part.all Char.isDigit = true := by
  obtain ⟨_, shape, read⟩ := bind_eq_ok.mp read
  obtain ⟨_, noZeros, read⟩ := bind_eq_ok.mp read
  obtain ⟨value, digits, read⟩ := bind_eq_ok.mp read
  obtain ⟨_, _, read⟩ := bind_eq_ok.mp read
  cases read
  obtain ⟨nonempty, _, allDigits⟩ := ensure_eq_ok.mp shape
  refine ⟨decimal_of_readDigits (require_eq_ok.mp digits) ?_, nonempty, allDigits⟩
  have length := List.length_pos_iff.mpr nonempty
  have plain := ensure_eq_ok.mp noZeros
  by_cases longer : part.length > 1
  · exact .inr fun zero => plain ⟨longer, zero⟩
  · exact .inl (by omega)

/-- The numbers of an address are written as they were read, by induction on its parts. -/
theorem of_mapM_ipv4Octet {parts : List (List Char)} {octets : List Nat}
    (read : parts.mapM ipv4Octet = .ok octets)
    : octets.map (decimal 0) = parts
      ∧ (∀ part ∈ parts, part ≠ [] ∧ part.all Char.isDigit = true)
      ∧ parts.mapM (fun part => (ipv4Octet part).toOption) = some octets := by
  induction parts generalizing octets with
  | nil =>
      cases read
      exact ⟨rfl, fun _ mem => absurd mem List.not_mem_nil, rfl⟩
  | cons part rest ih =>
      rw [List.mapM_cons] at read
      obtain ⟨octet, first, read⟩ := bind_eq_ok.mp read
      obtain ⟨others, later, read⟩ := bind_eq_ok.mp read
      cases read
      obtain ⟨texts, shapes, reread⟩ := ih later
      obtain ⟨text, shape⟩ := of_ipv4Octet first
      refine ⟨by rw [List.map_cons, text, texts], ?_, ?_⟩
      · intro other mem
        rcases List.mem_cons.mp mem with rfl | mem
        · exact shape
        · exact shapes other mem
      · rw [List.mapM_cons, first, reread]
        rfl

variable {host canonical : List Char} {isLoopback : Bool}

/-- What is accepted as an IPv4 address is canonical as it is, and read back as that address. -/
theorem of_canonicalizeIpv4 (accepted : canonicalizeIpv4 host = .ok (canonical, isLoopback))
    : canonical = host
      ∧ (∀ part ∈ host.splitOn '.', part.all Char.isDigit = true)
      ∧ (∀ char ∈ host, char.isDigit = true ∨ char = '.')
      ∧ host.getLast? ≠ some '.'
      ∧ ∃ octets, ipv4FromStr host = some octets ∧ isLoopback = ipv4IsLoopback octets := by
  obtain ⟨_, _, accepted⟩ := bind_eq_ok.mp accepted
  obtain ⟨_, four, accepted⟩ := bind_eq_ok.mp accepted
  obtain ⟨octets, read, accepted⟩ := bind_eq_ok.mp accepted
  cases accepted
  obtain ⟨texts, shapes, reread⟩ := of_mapM_ipv4Octet read
  have whole := @List.intercalate_splitOn _ host _ _ '.'
  refine ⟨by rw [ipv4Text, texts, whole], fun part mem => (shapes part mem).2, ?_, ?_, octets, ?_,
    rfl⟩
  · intro char mem
    by_cases dot : char = '.'
    · exact .inr dot
    · obtain ⟨label, listed, inside⟩ := mem_label mem dot
      exact .inl (List.all_eq_true.mp (shapes label listed).2 char inside)
  · exact getLast?_ne_dot fun label listed => (shapes label listed).1
  · rw [ipv4FromStr, if_pos (ensure_eq_ok.mp four), reread]

/-- What is accepted as a label is written in lower case. -/
theorem of_canonicalLabel {label : List Char} (accepted : canonicalLabel label = .ok canonical)
    : canonical = lower label ∧ label ≠ []
      ∧ (∀ char ∈ lower label, char.isAlphanum = true ∨ char = '-')
      ∧ canonicalLabel (lower label) = .ok (lower label) := by
  obtain ⟨_, nonempty, accepted⟩ := bind_eq_ok.mp accepted
  obtain ⟨⟨⟩, valid, accepted⟩ := bind_eq_ok.mp accepted
  cases accepted
  have some := ensure_eq_ok.mp nonempty
  refine ⟨rfl, some, ?_, ?_⟩
  · obtain ⟨_, _, checked⟩ := bind_eq_ok.mp valid
    obtain ⟨_, _, checked⟩ := bind_eq_ok.mp checked
    intro char mem
    simpa using List.all_eq_true.mp (ensure_eq_ok.mp checked) char mem
  · have again : lower label ≠ [] := by simpa [lower] using some
    have same := lower_lower label
    rw [lower, lower] at same
    rw [canonicalLabel, ensure_bind again, lower, same, valid]
    rfl

/-- What is accepted as labels is written in lower case, by induction on the labels. -/
theorem of_mapM_canonicalLabel {labels canonical : List (List Char)}
    (accepted : labels.mapM canonicalLabel = .ok canonical)
    : canonical = labels.map lower
      ∧ (∀ label ∈ labels,
          label ≠ [] ∧ ∀ char ∈ lower label, char.isAlphanum = true ∨ char = '-')
      ∧ (labels.map lower).mapM canonicalLabel = .ok (labels.map lower) := by
  induction labels generalizing canonical with
  | nil =>
      cases accepted
      exact ⟨rfl, fun _ mem => absurd mem List.not_mem_nil, rfl⟩
  | cons label rest ih =>
      rw [List.mapM_cons] at accepted
      obtain ⟨first, firstAccepted, accepted⟩ := bind_eq_ok.mp accepted
      obtain ⟨others, othersAccepted, accepted⟩ := bind_eq_ok.mp accepted
      cases accepted
      obtain ⟨rfl, shapes, again⟩ := ih othersAccepted
      obtain ⟨rfl, some, chars, firstAgain⟩ := of_canonicalLabel firstAccepted
      refine ⟨rfl, ?_, ?_⟩
      · intro other mem
        rcases List.mem_cons.mp mem with rfl | mem
        · exact ⟨some, chars⟩
        · exact shapes other mem
      · rw [List.map_cons, List.mapM_cons, firstAgain, again]
        rfl

structure AcceptedName (host name : List Char) (isLoopback : Bool) : Prop where
  is : name = withoutRootDot host
  loopback : isLoopback = eqIgnoreAsciiCase host localhost
  several : (name.splitOn '.').length ≠ 1 ∨ isLoopback = true
  notNumeric : (((name.splitOn '.').getLast?).getD []).all Char.isDigit = false
  chars : ∀ char ∈ lower name, char.isAlphanum = true ∨ char = '-' ∨ char = '.'
  undotted : name.getLast? ≠ some '.'
  nonempty : name ≠ []
  again : ((name.splitOn '.').map lower).mapM canonicalLabel = .ok ((name.splitOn '.').map lower)

/-- What is accepted as a host name is written in lower case and without the root's dot. -/
theorem of_canonicalizeHostname (accepted : canonicalizeHostname host = .ok (canonical, isLoopback))
    : ∃ name, canonical = lower name ∧ AcceptedName host name isLoopback := by
  obtain ⟨_, several, accepted⟩ := bind_eq_ok.mp accepted
  obtain ⟨_, notNumeric, accepted⟩ := bind_eq_ok.mp accepted
  obtain ⟨labels, read, accepted⟩ := bind_eq_ok.mp accepted
  cases accepted
  obtain ⟨rfl, shapes, again⟩ := of_mapM_canonicalLabel read
  refine ⟨withoutRootDot host, ?_, rfl, rfl, ensure_eq_ok.mp several, ensure_eq_ok.mp notNumeric,
    ?_, getLast?_ne_dot fun label listed => (shapes label listed).1, ?_, again⟩
  · rw [← lower_intercalate, List.intercalate_splitOn]
  · intro char mem
    by_cases dot : char = '.'
    · exact .inr (.inr dot)
    · obtain ⟨label, listed, inside⟩ := mem_label mem dot
      rw [splitOn_lower] at listed
      obtain ⟨own, ownListed, rfl⟩ := List.mem_map.mp listed
      rcases (shapes own ownListed).2 char inside with alphanumeric | dash
      · exact .inl alphanumeric
      · exact .inr (.inl dash)
  · intro none
    rw [none] at shapes
    exact (shapes [] (by simp)).1 rfl

-- Canonical hosts

theorem eqIgnoreAsciiCase_lower (one two : List Char)
    : eqIgnoreAsciiCase (lower one) two = eqIgnoreAsciiCase one two := by
  have same := lower_lower one
  rw [lower, lower] at same
  rw [eqIgnoreAsciiCase, eqIgnoreAsciiCase, lower, same]

/-- The letter of a hexadecimal number in either case is the small letter in lower case. -/
theorem toLower_x (char : Char)
    : (char.toLower = 'x' ↔ char = 'x' ∨ char = 'X') ∧ char.toLower ≠ 'X' := by
  have capital : ('X' : Char).toNat = 88 := rfl
  have small : ('x' : Char).toNat = 120 := rfl
  rcases toLower_cases char with ⟨same, outside⟩ | ⟨_, _, moved⟩
  · have different : char ≠ 'X' := by
      rintro rfl
      omega
    rw [same]
    exact ⟨⟨.inl, fun either => either.resolve_right different⟩, different⟩
  · simp only [← Char.toNat_inj, ne_eq, moved, capital, small]
    omega

theorem startsWith0x_lower (text : List Char) : startsWith0x (lower text) = startsWith0x text := by
  match text with
  | [] => rfl
  | [_] => simp [startsWith0x, lower]
  | first :: second :: rest =>
      have zero := toLower_eq_iff first (show '0'.toNat < 65 ∨ 90 < '0'.toNat by decide) (by decide)
      obtain ⟨small, capital⟩ := toLower_x second
      simp [startsWith0x, lower, zero, small, capital, Bool.and_or_distrib_left]

theorem isNumericLabel_lower (label : List Char)
    : isNumericLabel (lower label) = isNumericLabel label := by
  rw [isNumericLabel, isNumericLabel, all_isDigit_lower, startsWith0x_lower]
  simp [lower]

theorem looksLikeNumericOrIp_lower (host : List Char)
    : looksLikeNumericOrIp (lower host) = looksLikeNumericOrIp host := by
  rw [looksLikeNumericOrIp, looksLikeNumericOrIp, startsWith0x_lower, splitOn_lower,
    List.all_map]
  simp [Function.comp_def, isNumericLabel_lower]

theorem withoutRootDot_cases (host : List Char)
    : withoutRootDot host = host ∨ host = withoutRootDot host ++ ['.'] := by
  unfold withoutRootDot
  split
  next dotted =>
      refine .inr ?_
      obtain ⟨front, rfl⟩ := List.getLast?_eq_some_iff.mp dotted.1
      rw [List.dropLast_concat]
  next => exact .inl rfl

/-- Whether a host is another one with a dot behind it that could be a numeric address. -/
def dottedNumeric (host : List Char) : Bool :=
  host.getLast? = some '.' && looksLikeNumericOrIp host.dropLast

variable {name : List Char}

section

variable (accepted : AcceptedName host name isLoopback)
include accepted

/-- A name is taken for a numeric address just when it stands before a dot that hides that. -/
theorem AcceptedName.numeric_iff (notNumeric : looksLikeNumericOrIp host = false)
    : looksLikeNumericOrIp name = dottedNumeric host := by
  rcases withoutRootDot_cases host with same | dotted
  · rw [← accepted.is] at same
    subst same
    rw [notNumeric, dottedNumeric, decide_eq_false accepted.undotted, Bool.false_and]
  · rw [← accepted.is] at dotted
    rw [dotted, dottedNumeric]
    simp

/-- The name of the machine itself is that of the host. -/
theorem AcceptedName.loopback_lower
    : eqIgnoreAsciiCase (lower name) localhost = isLoopback := by
  rw [eqIgnoreAsciiCase_lower]
  rcases withoutRootDot_cases host with same | dotted
  · rw [← accepted.is] at same
    rw [accepted.loopback, same]
  · rw [← accepted.is] at dotted
    have far : isLoopback = false := by
      rw [accepted.loopback, dotted, eqIgnoreAsciiCase, decide_eq_false_iff_not]
      intro same
      have dot : '.' ∈ localhost.map Char.toLower := by
        rw [← same]
        exact List.mem_map.mpr ⟨'.', by simp, rfl⟩
      revert dot
      decide
    have several := accepted.several.resolve_right (by simp [far])
    rw [far, eqIgnoreAsciiCase, decide_eq_false_iff_not]
    intro same
    refine several ?_
    rw [← List.length_map (f := lower), ← splitOn_lower, lower, same]
    rfl

theorem AcceptedName.canonicalize
    : canonicalizeHostname (lower name) = .ok (lower name, isLoopback) := by
  have undotted : (lower name).getLast? ≠ some '.' := by
    intro last
    rw [lower, List.getLast?_map, Option.map_eq_some_iff] at last
    obtain ⟨char, own, dot⟩ := last
    rw [(toLower_eq_iff _ (by decide) (by decide)).mp dot] at own
    exact accepted.undotted own
  have whole : withoutRootDot (lower name) = lower name := if_neg fun dotted => undotted dotted.1
  have several : ((lower name).splitOn '.').length ≠ 1
      ∨ eqIgnoreAsciiCase (lower name) localhost = true := by
    rw [accepted.loopback_lower, splitOn_lower, List.length_map]
    exact accepted.several
  have notNumeric : ((((lower name).splitOn '.').getLast?).getD []).all Char.isDigit = false := by
    rw [splitOn_lower, List.getLast?_map]
    have plain := accepted.notNumeric
    cases last : (name.splitOn '.').getLast? with
    | none => simp [last] at plain
    | some label =>
        rw [last] at plain
        rw [Option.map_some, Option.getD_some, all_isDigit_lower]
        exact plain
  unfold canonicalizeHostname
  simp only [whole]
  rw [ensure_bind several, ensure_bind notNumeric, splitOn_lower, accepted.again,
    accepted.loopback_lower, ok_bind, ← lower_intercalate, List.intercalate_splitOn]
  rfl

end

variable {ipv6 : Ipv6Format}

/-- What is accepted as a host: an address in brackets, an IPv4 address or a name. -/
theorem of_canonicalizeHost (accepted : canonicalizeHost ipv6 host = .ok (canonical, isLoopback))
    : (∃ inner addr, host = '[' :: (inner ++ [']']) ∧ ipv6.fromStr inner = some addr
          ∧ canonical = '[' :: (ipv6.display addr ++ [']'])
          ∧ isLoopback = ipv6.isLoopback addr)
      ∨ '[' ∉ host ∧ canonicalizeIpv4 host = .ok (canonical, isLoopback)
      ∨ '[' ∉ host ∧ looksLikeNumericOrIp host = false
        ∧ ∃ name, canonical = lower name ∧ AcceptedName host name isLoopback := by
  obtain ⟨_, _, accepted⟩ := bind_eq_ok.mp accepted
  obtain ⟨_, _, accepted⟩ := bind_eq_ok.mp accepted
  split at accepted
  next bracketed =>
      obtain ⟨addr, read, accepted⟩ := bind_eq_ok.mp accepted
      cases accepted
      obtain ⟨front, rfl⟩ := List.getLast?_eq_some_iff.mp bracketed.2
      cases front with
      | nil => exact absurd bracketed.1 (by decide)
      | cons first inner =>
          have opens : first = '[' := by simpa using bracketed.1
          subst opens
          refine .inl ⟨inner, addr, rfl, ?_, rfl, rfl⟩
          simpa using require_eq_ok.mp read
  next =>
      obtain ⟨_, noBrackets, accepted⟩ := bind_eq_ok.mp accepted
      obtain ⟨noOpening, _⟩ := ensure_eq_ok.mp noBrackets
      split at accepted
      next => exact .inr (.inl ⟨noOpening, accepted⟩)
      next notNumeric =>
          exact .inr (.inr ⟨noOpening, by simpa using notNumeric,
            of_canonicalizeHostname accepted⟩)

theorem ascii_of_isAlphanum (alphanumeric : char.isAlphanum = true)
    : char.toNat < 128 := by
  have below {high : UInt32} (within : char.val ≤ high) (small : high.toNat < 128)
      : char.toNat < 128 :=
    Nat.lt_of_le_of_lt within small
  rcases Bool.or_eq_true_iff.mp alphanumeric with letter | digit
  · rcases Bool.or_eq_true_iff.mp letter with upper | lower
    · exact below (of_decide_eq_true upper).2 (by decide)
    · exact below (of_decide_eq_true (Bool.and_eq_true_iff.mp lower).2) (by decide)
  · exact below (of_decide_eq_true (Bool.and_eq_true_iff.mp digit).2) (by decide)

/-- How a text without brackets is taken for a host. -/
theorem canonicalizeHost_plain (nonempty : host ≠ [])
    (chars : ∀ char ∈ host, char.isAlphanum = true ∨ char = '-' ∨ char = '.')
    : canonicalizeHost ipv6 host
      = if looksLikeNumericOrIp host then canonicalizeIpv4 host
        else canonicalizeHostname host := by
  have ascii : host.all (fun char => decide (char.toNat < 128)) = true := by
    refine List.all_eq_true.mpr fun char mem => decide_eq_true ?_
    rcases chars char mem with alphanumeric | rfl | rfl
    · exact ascii_of_isAlphanum alphanumeric
    · decide
    · decide
  have noBracket : '[' ∉ host ∧ ']' ∉ host := by
    constructor
    · intro mem
      exact absurd (chars _ mem) (by decide)
    · intro mem
      exact absurd (chars _ mem) (by decide)
  have notBracketed : ¬(host.head? = some '[' ∧ host.getLast? = some ']') := fun bracketed =>
    noBracket.1 (List.mem_of_mem_head? bracketed.1)
  rw [canonicalizeHost, ensure_bind nonempty, ensure_bind ascii, if_neg notBracketed]
  exact ensure_bind noBracket

/-- How an address in brackets is taken for a host. -/
theorem canonicalizeHost_display (ipv6 : Ipv6Format) (addr : ipv6.Addr)
    : canonicalizeHost ipv6 ('[' :: (ipv6.display addr ++ [']']))
      = .ok ('[' :: (ipv6.display addr ++ [']']), ipv6.isLoopback addr) := by
  have ascii : ('[' :: (ipv6.display addr ++ [']'])).all (fun char => decide (char.toNat < 128))
      = true := by
    refine List.all_eq_true.mpr fun char mem => decide_eq_true ?_
    rcases List.mem_cons.mp mem with rfl | mem
    · decide
    · rcases List.mem_append.mp mem with inside | last
      · rcases ipv6.display_chars addr char inside with alphanumeric | rfl | rfl
        · exact ascii_of_isAlphanum alphanumeric
        · decide
        · decide
      · rw [List.mem_singleton.mp last]
        decide
  have bracketed : ('[' :: (ipv6.display addr ++ [']'])).head? = some '['
      ∧ ('[' :: (ipv6.display addr ++ [']'])).getLast? = some ']' := by
    refine ⟨rfl, ?_⟩
    rw [← List.cons_append, List.getLast?_concat]
  have inner : (('[' :: (ipv6.display addr ++ [']'])).drop 1).dropLast = ipv6.display addr := by
    simp
  rw [canonicalizeHost, ensure_bind (List.cons_ne_nil _ _), ensure_bind ascii, if_pos bracketed,
    inner, ipv6.fromStr_display]
  rfl

/-- A canonical host is accepted as itself, unless a dot behind it hid that it could be a numeric
address: then it is refused. -/
theorem canonicalizeHost_again (accepted : canonicalizeHost ipv6 host = .ok (canonical, isLoopback))
    : if dottedNumeric host then ∀ result, canonicalizeHost ipv6 canonical ≠ .ok result
      else canonicalizeHost ipv6 canonical = .ok (canonical, isLoopback) := by
  rcases of_canonicalizeHost accepted
    with ⟨inner, addr, rfl, read, rfl, rfl⟩ | ⟨noBracket, ipv4⟩ | ⟨_, notNumeric, name, rfl, named⟩
  · have undotted : dottedNumeric ('[' :: (inner ++ [']'])) = false := by
      rw [dottedNumeric, ← List.cons_append, List.getLast?_concat]
      rfl
    rw [undotted, if_neg Bool.false_ne_true]
    exact canonicalizeHost_display ipv6 addr
  · obtain ⟨rfl, _, _, undotted, _⟩ := of_canonicalizeIpv4 ipv4
    rw [dottedNumeric, decide_eq_false undotted]
    exact accepted
  · rw [← named.numeric_iff notNumeric]
    have nonempty : lower name ≠ [] := by simpa [lower] using named.nonempty
    rw [canonicalizeHost_plain nonempty named.chars, looksLikeNumericOrIp_lower]
    cases looksLikeNumericOrIp name with
    | false => exact named.canonicalize
    | true =>
        rintro ⟨again, loopback⟩ ipv4
        obtain ⟨_, digits, _⟩ := of_canonicalizeIpv4 ipv4
        obtain ⟨last, is⟩ : ∃ last, (name.splitOn '.').getLast? = some last :=
          ⟨_, List.getLast?_eq_some_getLast (List.splitOn_ne_nil '.' name)⟩
        have plain := named.notNumeric
        have numeric := digits (lower last) (by
          rw [splitOn_lower]
          exact List.mem_map_of_mem (List.mem_of_getLast? is))
        rw [is, Option.getD_some] at plain
        rw [all_isDigit_lower, plain] at numeric
        cases numeric

/-- A host without a dot at its end. -/
def undotted (host : List Char) : List Char :=
  if host.getLast? = some '.' then host.dropLast else host

theorem undotted_concat (host : List Char) : undotted (host ++ ['.']) = host := by
  simp [undotted]

theorem undotted_of_ne (last : host.getLast? ≠ some '.')
    : undotted host = host := if_neg last

/-- A host that is no address in brackets is canonical in lower case without its dot. -/
theorem canonical_eq_lower (accepted : canonicalizeHost ipv6 host = .ok (canonical, isLoopback))
    (noBracket : '[' ∉ host)
    : canonical = lower (undotted host) := by
  rcases of_canonicalizeHost accepted
    with ⟨inner, addr, rfl, _⟩ | ⟨_, ipv4⟩ | ⟨_, _, name, rfl, named⟩
  · exact absurd List.mem_cons_self noBracket
  · obtain ⟨rfl, _, chars, last, _⟩ := of_canonicalizeIpv4 ipv4
    rw [undotted_of_ne last, lower_of_lt fun char mem => ?_]
    rcases chars char mem with digit | rfl
    · have bounds := digit_bounds digit
      omega
    · decide
  · rcases withoutRootDot_cases host with same | dotted
    · rw [← named.is] at same
      rw [undotted_of_ne (same ▸ named.undotted), same]
    · rw [← named.is] at dotted
      rw [dotted, undotted_concat]

theorem mem_undotted_iff (host : List Char) (other : char ≠ '.')
    : char ∈ undotted host ↔ char ∈ host := by
  unfold undotted
  split
  next dotted =>
      obtain ⟨front, rfl⟩ := List.getLast?_eq_some_iff.mp dotted
      simp [other]
  next => rfl

/-- Hosts that differ in case or in a dot behind them have one canonical host. -/
theorem canonical_eq_of_undotted {one two canonicalOne canonicalTwo : List Char}
    {loopbackOne loopbackTwo : Bool}
    (acceptedOne : canonicalizeHost ipv6 one = .ok (canonicalOne, loopbackOne))
    (acceptedTwo : canonicalizeHost ipv6 two = .ok (canonicalTwo, loopbackTwo))
    (same : lower (undotted one) = lower (undotted two))
    : canonicalOne = canonicalTwo := by
  have bracket : '[' ∈ one ↔ '[' ∈ two := by
    rw [← mem_undotted_iff one (by decide), ← mem_undotted_iff two (by decide),
      ← mem_lower_iff (undotted one) (by decide) (by decide), same,
      mem_lower_iff _ (by decide) (by decide)]
  by_cases bracketed : '[' ∈ one
  · rcases of_canonicalizeHost acceptedOne with
      ⟨innerOne, addrOne, rfl, readOne, rfl, _⟩ | ⟨noBracket, _⟩ | ⟨noBracket, _⟩
    · rcases of_canonicalizeHost acceptedTwo with
        ⟨innerTwo, addrTwo, rfl, readTwo, rfl, _⟩ | ⟨noBracket, _⟩ | ⟨noBracket, _⟩
      · have plain (inner : List Char)
            : undotted ('[' :: (inner ++ [']'])) = '[' :: (inner ++ [']']) := by
          refine undotted_of_ne ?_
          rw [← List.cons_append, List.getLast?_concat]
          decide
        rw [plain, plain] at same
        have inner : innerOne.map Char.toLower = innerTwo.map Char.toLower := by
          simpa [lower] using same
        rw [ipv6.display_fromStr_case _ _ inner, readTwo] at readOne
        cases readOne
        rfl
      · exact absurd (bracket.mp bracketed) noBracket
      · exact absurd (bracket.mp bracketed) noBracket
    · exact absurd bracketed noBracket
    · exact absurd bracketed noBracket
  · rw [canonical_eq_lower acceptedOne bracketed,
      canonical_eq_lower acceptedTwo (mt bracket.mpr bracketed), same]

/-- A canonical host that was found to be the machine itself is found to be so again. -/
theorem isLoopbackHost_of (accepted : canonicalizeHost ipv6 host = .ok (canonical, true))
    : isLoopbackHost ipv6 canonical = true := by
  unfold isLoopbackHost
  split
  next => rfl
  next notNamed =>
      rcases of_canonicalizeHost accepted
        with ⟨inner, addr, rfl, _, rfl, near⟩ | ⟨_, ipv4⟩ | ⟨_, _, name, rfl, named⟩
      · have notIpv4 : ipv4FromStr ('[' :: (ipv6.display addr ++ [']'])) = none := by
          have opening : '[' ∈ '[' :: (ipv6.display addr ++ [']']) := List.mem_cons_self
          obtain ⟨part, listed, mem⟩ := mem_label opening (by decide)
          unfold ipv4FromStr
          dsimp only
          split
          · refine mapM_eq_none listed ?_
            cases read : ipv4Octet part with
            | error _ => rfl
            | ok octet =>
                have digit := List.all_eq_true.mp (of_ipv4Octet read).2.2 '[' mem
                exact absurd digit (by decide)
          · rfl
        rw [notIpv4]
        have brackets : ('[' :: (ipv6.display addr ++ [']'])).head? = some '['
            ∧ (('[' :: (ipv6.display addr ++ [']'])).drop 1).getLast? = some ']' := by simp
        have inside : (('[' :: (ipv6.display addr ++ [']'])).drop 1).dropLast
            = ipv6.display addr := by simp
        dsimp only
        rw [if_pos brackets, inside, ipv6.fromStr_display]
        exact near.symm
      · obtain ⟨rfl, _, _, _, octets, read, near⟩ := of_canonicalizeIpv4 ipv4
        rw [read]
        exact near.symm
      · exact absurd named.loopback_lower notNamed

end SkillRanker.Jev.Endpoint
