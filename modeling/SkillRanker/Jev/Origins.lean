import SkillRanker.Jev.Hosts

/-! Canonical origins: which texts give the same one, and which are canonical themselves. -/

namespace SkillRanker.Jev.Endpoint

open Library

variable {port : Option Nat} {host authority schemeText input : List Char} {scheme : Scheme}
  {slashed isLoopback : Bool} {ipv6 : Ipv6Format} {origin : CanonicalOrigin}

-- Texts of endpoints

structure IsHostText (host : List Char) : Prop where
  nonempty : host ≠ []
  plain : ∀ char ∈ host, endsAuthority char = false ∧ char ≠ '@'
  colons : (':' ∉ host ∧ host.head? ≠ some '[')
    ∨ ∃ inner, host = '[' :: (inner ++ [']']) ∧ ']' ∉ inner

def portText : Option Nat → List Char
  | some port => ':' :: decimal 0 port
  | none => []

def IsPort (port : Option Nat) : Prop := ∀ value, port = some value → 0 < value ∧ value < 65536

theorem parseStrictPort_decimal {port : Nat} (positive : 0 < port) (small : port < 65536)
    : parseStrictPort (decimal 0 port) = .ok port := by
  have digits : (decimal 0 port).all Char.isDigit = true :=
    List.all_eq_true.mpr fun _ mem => isDigit_of_mem_decimal mem
  have signs : (decimal 0 port).head? ≠ some '+' ∧ (decimal 0 port).head? ≠ some '0' := by
    constructor
    · intro sign
      have mem : '+' ∈ decimal 0 port := List.mem_of_mem_head? sign
      exact absurd (isDigit_of_mem_decimal mem) (by decide)
    · rw [decimal, Nat.zero_sub, List.replicate_zero, List.nil_append]
      exact head?_toDigits_ne positive
  have read : (readDigits (decimal 0 port)).filter (· < 65536) = some port := by
    rw [readDigits_decimal, Option.filter_some, if_pos (by simpa using small)]
  rw [parseStrictPort, ensure_bind (decimal_ne_nil 0 port), ensure_bind signs, ensure_bind digits,
    read]
  exact ensure_bind positive.ne'

theorem of_parseStrictPort {portStr : List Char} {port : Nat}
    (read : parseStrictPort portStr = .ok port)
    : portStr = decimal 0 port ∧ 0 < port ∧ port < 65536 := by
  obtain ⟨_, nonempty, read⟩ := bind_eq_ok.mp read
  obtain ⟨_, noZero, read⟩ := bind_eq_ok.mp read
  obtain ⟨_, _, read⟩ := bind_eq_ok.mp read
  obtain ⟨value, bounded, read⟩ := bind_eq_ok.mp read
  obtain ⟨_, positive, read⟩ := bind_eq_ok.mp read
  cases read
  obtain ⟨digits, small⟩ := Option.filter_eq_some_iff.mp (require_eq_ok.mp bounded)
  refine ⟨(decimal_of_readDigits digits (.inr (ensure_eq_ok.mp noZero).2)).symm,
    Nat.pos_of_ne_zero (ensure_eq_ok.mp positive), by simpa using small⟩

theorem count_portText_le (port : Option Nat) : (portText port).count ':' ≤ 1 := by
  cases port with
  | none => exact Nat.zero_le _
  | some value =>
      have absent : (decimal 0 value).count ':' = 0 :=
        List.count_eq_zero.mpr fun mem => absurd (isDigit_of_mem_decimal mem) (by decide)
      rw [portText, List.count_cons_self, absent]

/-- An authority without a bracket in front is split at its colon, if it has one. -/
theorem parseAuthority_unbracketed {first : Char} {rest : List Char} (other : first ≠ '[')
    (few : (first :: rest).count ':' ≤ 1)
    : (splitOnce ':' (first :: rest) = none
        → parseAuthority (first :: rest) = .ok (first :: rest, none))
      ∧ ∀ host portStr,
          splitOnce ':' (first :: rest) = some (host, portStr)
          → parseAuthority (first :: rest)
            = (parseStrictPort portStr).map fun port => (host, some port) := by
  unfold parseAuthority
  split
  · rename_i stripped same
    exact absurd (List.cons.inj same).1 other
  · rw [ensure_bind few]
    refine ⟨fun none => by rw [none]; rfl, fun host portStr found => ?_⟩
    rw [found]
    cases parsed : parseStrictPort portStr <;>
      simp [parsed, Except.map, bind, Except.bind, pure, Except.pure]

/-- A host and its port are read from the authority that they make. -/
theorem parseAuthority_text (isHost : IsHostText host) (isPort : IsPort port)
    : parseAuthority (host ++ portText port) = .ok (host, port) := by
  rcases isHost.colons with ⟨noColon, noBracket⟩ | ⟨inner, rfl, noBracket⟩
  · obtain ⟨first, rest, rfl⟩ := List.exists_cons_of_ne_nil isHost.nonempty
    have other : first ≠ '[' := by simpa using noBracket
    have few : ((first :: rest) ++ portText port).count ':' ≤ 1 := by
      rw [List.count_append, List.count_eq_zero.mpr noColon, Nat.zero_add]
      exact count_portText_le port
    cases port with
    | none =>
        rw [portText, List.append_nil] at few ⊢
        exact (parseAuthority_unbracketed other few).1 (splitOnce_of_not_mem noColon)
    | some value =>
        obtain ⟨positive, small⟩ := isPort value rfl
        have found := splitOnce_append noColon (decimal 0 value)
        rw [← portText] at found
        refine ((parseAuthority_unbracketed other few).2 _ _ found).trans ?_
        rw [parseStrictPort_decimal positive small]
        rfl
  · rw [List.cons_append, parseAuthority, List.append_assoc, List.singleton_append,
      splitOnce_append noBracket]
    cases port with
    | none => rfl
    | some value =>
        obtain ⟨positive, small⟩ := isPort value rfl
        change (do
            let port ← parseStrictPort (decimal 0 value)
            return ('[' :: (inner ++ [']']), some port)) = _
        rw [parseStrictPort_decimal positive small]
        rfl

theorem of_parseAuthority (read : parseAuthority authority = .ok (host, port))
    : authority = host ++ portText port ∧ IsPort port
      ∧ ((':' ∉ host ∧ host.head? ≠ some '[')
        ∨ ∃ inner, host = '[' :: (inner ++ [']']) ∧ ']' ∉ inner) := by
  unfold parseAuthority at read
  split at read
  next stripped =>
      obtain ⟨⟨inner, afterBracket⟩, bracket, rest⟩ := bind_eq_ok.mp read
      obtain ⟨rfl, absent⟩ := splitOnce_eq_some (require_eq_ok.mp bracket)
      clear read
      dsimp only at rest
      split at rest
      next colonPort =>
          obtain ⟨value, strict, rest⟩ := bind_eq_ok.mp rest
          cases rest
          obtain ⟨rfl, positive, small⟩ := of_parseStrictPort strict
          refine ⟨by simp [portText], ?_, .inr ⟨inner, rfl, absent⟩⟩
          rintro _ ⟨⟩
          exact ⟨positive, small⟩
      next =>
          cases rest
          refine ⟨by simp [portText], ?_, .inr ⟨inner, rfl, absent⟩⟩
          rintro _ ⟨⟩
      next => cases rest
  next unbracketed =>
      have noBracket : authority.head? ≠ some '[' := by
        intro begins
        obtain ⟨rest, rfl⟩ := List.head?_eq_some_iff.mp begins
        exact unbracketed rest rfl
      obtain ⟨_, few, read⟩ := bind_eq_ok.mp read
      split at read
      next front portStr split =>
          obtain ⟨value, strict, read⟩ := bind_eq_ok.mp read
          cases read
          obtain ⟨rfl, absent⟩ := splitOnce_eq_some split
          obtain ⟨rfl, positive, small⟩ := of_parseStrictPort strict
          refine ⟨rfl, ?_, .inl ⟨absent, ?_⟩⟩
          · rintro _ ⟨⟩
            exact ⟨positive, small⟩
          · intro begins
            obtain ⟨rest, rfl⟩ := List.head?_eq_some_iff.mp begins
            exact noBracket rfl
      next whole =>
          cases read
          refine ⟨(List.append_nil _).symm, ?_, .inl ⟨not_mem_splitOnce_eq_some_none whole, noBracket⟩⟩
          rintro _ ⟨⟩

def slashText (slashed : Bool) : List Char := if slashed then ['/'] else []

def endpointText (schemeText host : List Char) (port : Option Nat) (slashed : Bool) : List Char :=
  schemeText ++ schemeMark ++ (host ++ portText port ++ slashText slashed)

theorem length_le_byteCount (text : List Char) : text.length ≤ byteCount text := by
  induction text with
  | nil => exact Nat.le_refl _
  | cons first rest ih =>
      have one := Char.utf8Size_pos first
      rw [byteCount, List.map_cons, List.sum_cons, List.length_cons]
      rw [byteCount] at ih
      omega

theorem byteCount_of_ascii {text : List Char} (ascii : ∀ char ∈ text, char.toNat < 128)
    : byteCount text = text.length := by
  induction text with
  | nil => rfl
  | cons first rest ih =>
      have one : first.utf8Size = 1 := by
        rw [Char.utf8Size_eq_one_iff, UInt32.le_iff_toNat_le]
        exact Nat.le_of_lt_succ (ascii first List.mem_cons_self)
      have later := ih fun char mem => ascii char (List.mem_cons_of_mem _ mem)
      rw [byteCount] at later
      rw [byteCount, List.map_cons, List.sum_cons, later, one, List.length_cons]
      omega

theorem mark_not_mem (named : lower schemeText = scheme.asStr)
    : ':' ∉ schemeText := by
  rw [← mem_lower_iff _ (by decide) (by decide), named]
  cases scheme <;> decide

theorem authority_plain (plain : ∀ char ∈ host, endsAuthority char = false ∧ char ≠ '@')
    : ∀ char ∈ host ++ portText port, endsAuthority char = false ∧ char ≠ '@' := by
  intro char mem
  rcases List.mem_append.mp mem with inHost | inPort
  · exact plain char inHost
  · cases port with
    | none => cases inPort
    | some value =>
        rcases List.mem_cons.mp inPort with rfl | digit
        · decide
        · have bounds := digit_bounds (isDigit_of_mem_decimal digit)
          constructor
          · simp only [endsAuthority, Bool.or_eq_false_iff, beq_eq_false_iff_ne]
            refine ⟨⟨?_, ?_⟩, ?_⟩ <;> rintro rfl <;> revert bounds <;> decide
          · rintro rfl
            revert bounds
            decide

theorem readScheme_eq_ok {schemeRaw : List Char}
    : readScheme schemeRaw = .ok scheme ↔ lower schemeRaw = scheme.asStr := by
  have https : "https".toList.map Char.toLower = Scheme.https.asStr := by decide
  have http : "http".toList.map Char.toLower = Scheme.http.asStr := by decide
  simp only [readScheme, eqIgnoreAsciiCase, https, http, decide_eq_true_eq]
  change _ ↔ schemeRaw.map Char.toLower = scheme.asStr
  constructor
  · intro read
    split at read
    next named =>
        cases read
        exact named
    next =>
        split at read
        next named =>
            cases read
            exact named
        next => cases read
  · intro named
    rw [named]
    cases scheme <;> decide

/-- An authority with nothing but a slash behind it is read for itself. -/
theorem splitAuthority_plain (slashed : Bool) (some : authority ≠ [])
    (plain : ∀ char ∈ authority, endsAuthority char = false ∧ char ≠ '@')
    : splitAuthority (authority ++ slashText slashed) = parseAuthority authority := by
  have whole : authority.takeWhile (!endsAuthority ·) = authority := by
    refine List.takeWhile_eq_self_iff.mpr fun char mem => ?_
    rw [(plain char mem).1]
    rfl
  have nothing : authority.dropWhile (!endsAuthority ·) = [] := by
    refine List.dropWhile_eq_nil_iff.mpr fun char mem => ?_
    rw [(plain char mem).1]
    rfl
  have stops : ∀ first, (slashText slashed).head? = .some first
      → (!endsAuthority first) = false := by
    cases slashed with
    | false => rintro _ ⟨⟩
    | true =>
        rintro _ ⟨⟩
        rfl
  have front : (authority ++ slashText slashed).takeWhile (!endsAuthority ·) = authority := by
    rw [takeWhile_of_stop stops, whole]
  have back : (authority ++ slashText slashed).dropWhile (!endsAuthority ·)
      = slashText slashed := by
    rw [dropWhile_of_stop stops, nothing, List.nil_append]
  have noUserinfo : '@' ∉ authority := fun mem => (plain _ mem).2 rfl
  unfold splitAuthority
  simp only [front, back]
  rw [ensure_bind noUserinfo]
  cases slashed with
  | false =>
      rw [ensure_bind (by decide), ensure_bind (by decide), ensure_bind (by decide),
        ensure_bind (by decide), ensure_bind some]
  | true =>
      rw [ensure_bind (by decide), ensure_bind (by decide), ensure_bind (by decide),
        ensure_bind (by decide), ensure_bind some]

theorem splitEndpoint_plain (slashed : Bool) (named : lower schemeText = scheme.asStr)
    (some : authority ≠ []) (plain : ∀ char ∈ authority, endsAuthority char = false ∧ char ≠ '@')
    (fits
      : byteCount (schemeText ++ schemeMark ++ (authority ++ slashText slashed))
        ≤ maxEndpointInputBytes)
    : splitEndpoint (schemeText ++ schemeMark ++ (authority ++ slashText slashed))
      = (do
          let (host, port) ← parseAuthority authority
          return (scheme, host, port)) := by
  have nonempty : schemeText ++ schemeMark ++ (authority ++ slashText slashed) ≠ [] := by
    simp [schemeMark]
  have found : findText schemeMark (schemeText ++ schemeMark ++ (authority ++ slashText slashed))
      = .some schemeText.length := findText_mark (mark_not_mem named) _
  have length : (schemeText ++ schemeMark).length = schemeText.length + 3 := by
    rw [List.length_append]
    rfl
  have front
      : (schemeText ++ schemeMark ++ (authority ++ slashText slashed)).take schemeText.length
        = schemeText := by
    rw [List.append_assoc, List.take_left]
  have back
      : (schemeText ++ schemeMark ++ (authority ++ slashText slashed)).drop (schemeText.length + 3)
        = authority ++ slashText slashed := by
    rw [← length, List.drop_left]
  rw [splitEndpoint, ensure_bind nonempty, ensure_bind fits, found, require, ok_bind, front, back,
    readScheme_eq_ok.mpr named, ok_bind, splitAuthority_plain slashed some plain]

theorem splitEndpoint_text (named : lower schemeText = scheme.asStr) (isHost : IsHostText host)
    (isPort : IsPort port)
    (fits : byteCount (endpointText schemeText host port slashed) ≤ maxEndpointInputBytes)
    : splitEndpoint (endpointText schemeText host port slashed) = .ok (scheme, host, port) := by
  have some : host ++ portText port ≠ [] := List.append_ne_nil_of_left_ne_nil isHost.nonempty _
  refine (splitEndpoint_plain slashed named some (authority_plain isHost.plain) fits).trans ?_
  rw [parseAuthority_text isHost isPort]
  rfl

/-- What stands behind a scheme is the host and the port that are read from it, and a slash. -/
theorem of_splitAuthority {rest : List Char} (read : splitAuthority rest = .ok (host, port))
    : ∃ slashed, rest = host ++ portText port ++ slashText slashed ∧ IsPort port
        ∧ (host ≠ [] → IsHostText host) := by
  obtain ⟨_, noUserinfo, read⟩ := bind_eq_ok.mp read
  obtain ⟨_, _, read⟩ := bind_eq_ok.mp read
  obtain ⟨_, _, read⟩ := bind_eq_ok.mp read
  obtain ⟨_, _, read⟩ := bind_eq_ok.mp read
  obtain ⟨_, root, read⟩ := bind_eq_ok.mp read
  obtain ⟨_, _, parsed⟩ := bind_eq_ok.mp read
  obtain ⟨whole, isPort, colons⟩ := of_parseAuthority parsed
  have is := List.takeWhile_append_dropWhile (p := (!endsAuthority ·)) (l := rest)
  have isHost : host ≠ [] → IsHostText host := fun nonempty => by
    refine ⟨nonempty, fun char mem => ?_, colons⟩
    have inAuthority : char ∈ rest.takeWhile (!endsAuthority ·) := by
      rw [whole]
      exact List.mem_append_left _ mem
    refine ⟨of_mem_takeWhile_not inAuthority, ?_⟩
    rintro rfl
    exact ensure_eq_ok.mp noUserinfo inAuthority
  rcases ensure_eq_ok.mp root with none | slash
  · exact ⟨false, by rw [← is, none, whole]; rfl, isPort, isHost⟩
  · exact ⟨true, by rw [← is, slash, whole]; rfl, isPort, isHost⟩

/-- The text of an endpoint is made of the parts that are read from it. -/
theorem of_splitEndpoint (read : splitEndpoint input = .ok (scheme, host, port))
    : ∃ schemeText slashed, input = endpointText schemeText host port slashed
        ∧ lower schemeText = scheme.asStr ∧ IsPort port ∧ (host ≠ [] → IsHostText host)
        ∧ byteCount input ≤ maxEndpointInputBytes := by
  obtain ⟨_, _, read⟩ := bind_eq_ok.mp read
  obtain ⟨_, fits, read⟩ := bind_eq_ok.mp read
  obtain ⟨start, found, read⟩ := bind_eq_ok.mp read
  obtain ⟨named, chosen, read⟩ := bind_eq_ok.mp read
  obtain ⟨⟨rawHost, explicitPort⟩, parsed, read⟩ := bind_eq_ok.mp read
  cases read
  obtain ⟨before, after, rfl, rfl⟩ := of_findText (require_eq_ok.mp found)
  have length : (before ++ schemeMark).length = before.length + 3 := by
    rw [List.length_append]
    rfl
  rw [List.append_assoc, List.take_left] at chosen
  rw [← length, List.drop_left] at parsed
  obtain ⟨slashed, rfl, isPort, isHost⟩ := of_splitAuthority parsed
  exact ⟨before, slashed, rfl, readScheme_eq_ok.mp chosen, isPort, isHost, ensure_eq_ok.mp fits⟩

-- Accepted endpoints

/-- What an accepted endpoint is made of, and how its origin comes from that. -/
structure Accepted (ipv6 : Ipv6Format) (input : List Char) (origin : CanonicalOrigin)
    (schemeText rawHost : List Char) (port : Option Nat) (slashed isLoopback : Bool) : Prop where
  text : input = endpointText schemeText rawHost port slashed
  fits : byteCount input ≤ maxEndpointInputBytes
  named : lower schemeText = origin.scheme.asStr
  isHost : IsHostText rawHost
  isPort : IsPort port
  host : canonicalizeHost ipv6 rawHost = .ok (origin.host, isLoopback)
  secure : origin.scheme = .http → isLoopback = true
  originPort : origin.port = port.filter (· ≠ origin.scheme.defaultPort)
  canonical : origin.canonical = canonicalText origin.scheme origin.host origin.port

section

variable {rawHost : List Char}
  (accepted : Accepted ipv6 input origin schemeText rawHost port slashed isLoopback)
include accepted

theorem Accepted.split
    : splitEndpoint input = .ok (origin.scheme, rawHost, port) := by
  have fits := accepted.fits
  rw [accepted.text] at fits ⊢
  exact splitEndpoint_text accepted.named accepted.isHost accepted.isPort fits

theorem Accepted.parse
    : CanonicalOrigin.parse ipv6 input = .ok origin := by
  have secure : ¬(origin.scheme = .http ∧ isLoopback = false) := fun ⟨http, far⟩ =>
    Bool.false_ne_true (far.symm.trans (accepted.secure http))
  rw [CanonicalOrigin.parse, accepted.split, ok_bind]
  dsimp only
  rw [accepted.host, ok_bind]
  dsimp only
  rw [ensure_bind secure, ← accepted.originPort, ← accepted.canonical]
  rfl

end

/-- An accepted endpoint is made of such parts. -/
theorem exists_accepted (parsed : CanonicalOrigin.parse ipv6 input = .ok origin)
    : ∃ schemeText rawHost port slashed isLoopback,
        Accepted ipv6 input origin schemeText rawHost port slashed isLoopback := by
  obtain ⟨⟨scheme, rawHost, port⟩, split, parsed⟩ := bind_eq_ok.mp parsed
  obtain ⟨⟨host, isLoopback⟩, canonical, parsed⟩ := bind_eq_ok.mp parsed
  obtain ⟨_, secure, parsed⟩ := bind_eq_ok.mp parsed
  cases parsed
  obtain ⟨schemeText, slashed, text, named, isPort, isHost, fits⟩ := of_splitEndpoint split
  have some : rawHost ≠ [] := by
    obtain ⟨_, nonempty, _⟩ := bind_eq_ok.mp canonical
    exact ensure_eq_ok.mp nonempty
  refine ⟨schemeText, rawHost, port, slashed, isLoopback, text, fits, named, isHost some, isPort,
    canonical, fun http => ?_, rfl, rfl⟩
  by_contra far
  exact ensure_eq_ok.mp secure ⟨http, Bool.eq_false_iff.mpr far⟩

/-- The grammar of the endpoints: what is accepted, and the origin that it is read as. -/
theorem parse_accepts_iff (ipv6 : Ipv6Format) (input : List Char) (origin : CanonicalOrigin)
    : CanonicalOrigin.parse ipv6 input = .ok origin
      ↔ ∃ schemeText rawHost port slashed isLoopback,
          Accepted ipv6 input origin schemeText rawHost port slashed isLoopback := by
  constructor
  · exact exists_accepted
  · rintro ⟨_, _, _, _, _, accepted⟩
    exact accepted.parse

variable {char : Char}

theorem not_ends_of_alphanum (alphanumeric : char.isAlphanum = true)
    : endsAuthority char = false ∧ char ≠ '@' := by
  constructor
  · simp only [endsAuthority, Bool.or_eq_false_iff, beq_eq_false_iff_ne]
    refine ⟨⟨?_, ?_⟩, ?_⟩ <;> rintro rfl <;> exact absurd alphanumeric (by decide)
  · rintro rfl
    exact absurd alphanumeric (by decide)

/-- A text of letters, digits, dashes and dots is the text of a host. -/
theorem isHostText_plain (nonempty : host ≠ [])
    (chars : ∀ char ∈ host, char.isAlphanum = true ∨ char = '-' ∨ char = '.')
    : IsHostText host ∧ ∀ char ∈ host, char.toNat < 128 := by
  refine ⟨⟨nonempty, fun char mem => ?_, .inl ⟨fun mem => ?_, fun begins => ?_⟩⟩, fun char mem => ?_⟩
  · rcases chars char mem with alphanumeric | rfl | rfl
    · exact not_ends_of_alphanum alphanumeric
    · decide
    · decide
  · exact absurd (chars ':' mem) (by decide)
  · exact absurd (chars '[' (List.mem_of_mem_head? begins)) (by decide)
  · rcases chars char mem with alphanumeric | rfl | rfl
    · exact ascii_of_isAlphanum alphanumeric
    · decide
    · decide

theorem isHostText_display (ipv6 : Ipv6Format) (addr : ipv6.Addr)
    : IsHostText ('[' :: (ipv6.display addr ++ [']']))
      ∧ ∀ char ∈ '[' :: (ipv6.display addr ++ [']']), char.toNat < 128 := by
  have inside : ∀ char ∈ ipv6.display addr,
      (endsAuthority char = false ∧ char ≠ '@') ∧ char.toNat < 128 ∧ char ≠ ']' := by
    intro char mem
    rcases ipv6.display_chars addr char mem with alphanumeric | rfl | rfl
    · refine ⟨not_ends_of_alphanum alphanumeric, ascii_of_isAlphanum alphanumeric, ?_⟩
      rintro rfl
      exact absurd alphanumeric (by decide)
    · decide
    · decide
  have all : ∀ char ∈ '[' :: (ipv6.display addr ++ [']']),
      (endsAuthority char = false ∧ char ≠ '@') ∧ char.toNat < 128 := by
    intro char mem
    rcases List.mem_cons.mp mem with rfl | mem
    · decide
    · rcases List.mem_append.mp mem with within | last
      · exact ⟨(inside char within).1, (inside char within).2.1⟩
      · rw [List.mem_singleton.mp last]
        decide
  exact ⟨⟨List.cons_ne_nil _ _, fun char mem => (all char mem).1,
    .inr ⟨_, rfl, fun mem => (inside _ mem).2.2 rfl⟩⟩, fun char mem => (all char mem).2⟩

variable {canonical : List Char}

/-- A canonical host is the text of a host, of ASCII characters, and hardly longer than the host
was. -/
theorem isHostText_of_canonical
    (accepted : canonicalizeHost ipv6 host = .ok (canonical, isLoopback))
    : IsHostText canonical ∧ (∀ char ∈ canonical, char.toNat < 128)
      ∧ canonical.length ≤ max host.length 47 := by
  rcases of_canonicalizeHost accepted
    with ⟨inner, addr, rfl, read, rfl, rfl⟩ | ⟨_, ipv4⟩ | ⟨_, _, name, rfl, named⟩
  · obtain ⟨isHost, ascii⟩ := isHostText_display ipv6 addr
    have short := ipv6.display_short addr
    refine ⟨isHost, ascii, ?_⟩
    simp only [List.length_cons, List.length_append, List.length_nil]
    omega
  · obtain ⟨rfl, _, chars, _, _⟩ := of_canonicalizeIpv4 ipv4
    obtain ⟨_, nonempty, _⟩ := bind_eq_ok.mp accepted
    obtain ⟨isHost, ascii⟩ := isHostText_plain (ensure_eq_ok.mp nonempty) fun char mem => by
      rcases chars char mem with digit | dot
      · exact .inl (by rw [Char.isAlphanum, digit, Bool.or_true])
      · exact .inr (.inr dot)
    exact ⟨isHost, ascii, le_max_left _ _⟩
  · obtain ⟨isHost, ascii⟩ := isHostText_plain (by simpa [lower] using named.nonempty) named.chars
    refine ⟨isHost, ascii, ?_⟩
    have length : (lower name).length = name.length := List.length_map _
    rcases withoutRootDot_cases host with same | dotted
    · rw [← named.is] at same
      rw [length, same]
      exact le_max_left _ _
    · rw [← named.is] at dotted
      rw [length, dotted, List.length_append]
      omega

theorem canonicalText_eq (scheme : Scheme) (host : List Char) (port : Option Nat)
    : canonicalText scheme host port = endpointText scheme.asStr host port false := by
  cases port <;> simp [canonicalText, endpointText, portText, slashText]

theorem lower_asStr (scheme : Scheme) : lower scheme.asStr = scheme.asStr := by
  cases scheme <;> decide

theorem IsPort.filter (isPort : IsPort port) (p : Nat → Bool)
    : IsPort (port.filter p) := fun value kept =>
  isPort value (Option.filter_eq_some_iff.mp kept).1

theorem length_portText (isPort : IsPort port) : (portText port).length ≤ 6 := by
  cases port with
  | none => exact Nat.zero_le _
  | some value =>
      have mono := length_decimal_mono (Nat.le_of_lt_succ (isPort value rfl).2)
      have five : (decimal 0 65535).length = 5 := by decide
      rw [portText, List.length_cons]
      omega

theorem length_portText_filter (port : Option Nat) (p : Nat → Bool)
    : (portText (port.filter p)).length ≤ (portText port).length := by
  cases port with
  | none => exact Nat.le_refl _
  | some value =>
      rw [Option.filter_some]
      split
      · exact Nat.le_refl _
      · exact Nat.zero_le _

theorem ascii_portText (mem : char ∈ portText port)
    : char.toNat < 128 := by
  cases port with
  | none => cases mem
  | some value =>
      rcases List.mem_cons.mp mem with rfl | digit
      · decide
      · have bounds := digit_bounds (isDigit_of_mem_decimal digit)
        omega

theorem ascii_of_all {text : List Char}
    (ascii : text.all (fun char => decide (char.toNat < 128)) = true) (mem : char ∈ text)
    : char.toNat < 128 :=
  of_decide_eq_true (List.all_eq_true.mp ascii char mem)

section

variable {rawHost : List Char}
  (accepted : Accepted ipv6 input origin schemeText rawHost port slashed isLoopback)
include accepted

/-- A canonical text is no longer than an endpoint may be. -/
theorem Accepted.canonical_fits
    : byteCount origin.canonical ≤ maxEndpointInputBytes := by
  obtain ⟨_, ascii, short⟩ := isHostText_of_canonical accepted.host
  have within : input.length ≤ maxEndpointInputBytes :=
    (length_le_byteCount input).trans accepted.fits
  have named : schemeText.length = origin.scheme.asStr.length := by
    rw [← accepted.named, lower, List.length_map]
  have scheme : origin.scheme.asStr.length ≤ 5 := by cases origin.scheme <;> decide
  have portShort := length_portText accepted.isPort
  have portKept := length_portText_filter port (· ≠ origin.scheme.defaultPort)
  rw [accepted.text] at within
  rw [accepted.canonical, canonicalText_eq, accepted.originPort, byteCount_of_ascii]
  · simp only [endpointText, slashText, List.length_append, schemeMark, List.length_cons,
      maxEndpointInputBytes] at within ⊢
    simp only [Bool.false_eq_true, if_false, List.length_nil] at within ⊢
    omega
  · intro char mem
    simp only [endpointText, slashText, List.mem_append, Bool.false_eq_true, if_false] at mem
    rcases mem with (inScheme | inMark) | (inHost | inPort) | inSlash
    · exact ascii_of_all (by cases origin.scheme <;> decide) inScheme
    · exact ascii_of_all (by decide) inMark
    · exact ascii char inHost
    · exact ascii_portText inPort
    · cases inSlash

theorem Accepted.split_canonical
    : splitEndpoint origin.canonical = .ok (origin.scheme, origin.host, origin.port) := by
  have fits := accepted.canonical_fits
  rw [accepted.canonical, canonicalText_eq] at fits ⊢
  exact splitEndpoint_text (lower_asStr _) (isHostText_of_canonical accepted.host).1
    (accepted.originPort ▸ accepted.isPort.filter _) fits

end

-- Endpoints as they are written

/-- An endpoint as it is written: the scheme in some case, the host, a dot behind it or none, the
port if there is one, and a slash or none. -/
structure Spelling where
  scheme : Scheme
  schemeText : List Char
  named : lower schemeText = scheme.asStr
  host : List Char
  isHost : IsHostText host
  dotted : Bool
  port : Option Nat
  isPort : IsPort port
  slashed : Bool

namespace Spelling

def rawHost (spelling : Spelling) : List Char :=
  if spelling.dotted then spelling.host ++ ['.'] else spelling.host

def text (spelling : Spelling) : List Char :=
  endpointText spelling.schemeText spelling.rawHost spelling.port spelling.slashed

def effectivePort (spelling : Spelling) : Nat := spelling.port.getD spelling.scheme.defaultPort

/-- Two endpoints that differ only in the case of their hosts, in a dot behind them, in a slash or
in a default port that is written out. -/
def Variant (one two : Spelling) : Prop :=
  one.schemeText = two.schemeText ∧ lower one.host = lower two.host
    ∧ one.effectivePort = two.effectivePort

end Spelling

/-- A dot does not stand behind an address in brackets. -/
theorem parseAuthority_dotted {inner behind : List Char} (noBracket : ']' ∉ inner)
    : parseAuthority ('[' :: (inner ++ [']']) ++ ['.'] ++ behind) = .error .invalidHost := by
  have shape : '[' :: (inner ++ [']']) ++ ['.'] ++ behind
      = '[' :: (inner ++ ']' :: '.' :: behind) := by
    simp
  rw [shape, parseAuthority, splitOnce_append noBracket]
  rfl

/-- The host of an accepted endpoint is the one that it is written with, the dot included. -/
theorem Spelling.split {spelling : Spelling} {parts : Scheme × List Char × Option Nat}
    (read : splitEndpoint spelling.text = .ok parts)
    : parts = (spelling.scheme, spelling.rawHost, spelling.port) := by
  obtain ⟨scheme, host, port⟩ := parts
  have fits : byteCount spelling.text ≤ maxEndpointInputBytes := by
    obtain ⟨_, _, _, _, _, _, fits⟩ := of_splitEndpoint read
    exact fits
  have plain : ∀ char ∈ spelling.rawHost, endsAuthority char = false ∧ char ≠ '@' := by
    intro char mem
    unfold Spelling.rawHost at mem
    split at mem
    next =>
        rcases List.mem_append.mp mem with inHost | dot
        · exact spelling.isHost.plain char inHost
        · rw [List.mem_singleton.mp dot]
          decide
    next => exact spelling.isHost.plain char mem
  have some : spelling.rawHost ≠ [] := by
    unfold Spelling.rawHost
    split
    · exact List.append_ne_nil_of_left_ne_nil spelling.isHost.nonempty _
    · exact spelling.isHost.nonempty
  have isHost : IsHostText spelling.rawHost := by
    refine ⟨some, plain, ?_⟩
    rcases spelling.isHost.colons with ⟨noColon, noBracket⟩ | ⟨inner, bracketed, noBracket⟩
    · left
      unfold Spelling.rawHost
      split
      · refine ⟨by simpa using noColon, ?_⟩
        rw [List.head?_append_of_ne_nil _ spelling.isHost.nonempty]
        exact noBracket
      · exact ⟨noColon, noBracket⟩
    · right
      cases dotted : spelling.dotted with
      | false => exact ⟨inner, by rw [Spelling.rawHost, dotted, ← bracketed]; rfl, noBracket⟩
      | true =>
          have dot : spelling.rawHost = '[' :: (inner ++ [']']) ++ ['.'] := by
            rw [Spelling.rawHost, dotted, ← bracketed]
            rfl
          have refused := splitEndpoint_plain spelling.slashed spelling.named
            (List.append_ne_nil_of_left_ne_nil some (portText spelling.port))
            (authority_plain plain) fits
          rw [dot, parseAuthority_dotted noBracket] at refused
          have whole : spelling.text = spelling.schemeText ++ schemeMark
              ++ ('[' :: (inner ++ [']']) ++ ['.'] ++ portText spelling.port
                ++ slashText spelling.slashed) := by
            rw [Spelling.text, endpointText, dot]
          rw [whole, refused] at read
          cases read
  have known := splitEndpoint_text spelling.named isHost spelling.isPort fits
  exact (Except.ok.inj (read.symm.trans known))

/-- An endpoint whose host is a name of labels that could be a numeric address, with the root's
dot behind them. -/
def hidesNumeric (input : List Char) : Bool :=
  match splitEndpoint input with
  | .ok (_, rawHost, _) => dottedNumeric rawHost
  | .error _ => false

section

variable {rawHost : List Char}
  (accepted : Accepted ipv6 input origin schemeText rawHost port slashed isLoopback)
include accepted

theorem Accepted.hidesNumeric_eq
    : hidesNumeric input = dottedNumeric rawHost := by
  rw [hidesNumeric, accepted.split]

/-- A canonical text is accepted as its origin just when no dot hid a numeric address. -/
theorem Accepted.again_iff
    : CanonicalOrigin.parse ipv6 origin.canonical = .ok origin ↔ hidesNumeric input = false := by
  rw [accepted.hidesNumeric_eq]
  have hostAgain := canonicalizeHost_again accepted.host
  constructor
  · intro again
    obtain ⟨_, rawAgain, _, _, _, acceptedAgain⟩ := exists_accepted again
    have same := acceptedAgain.split.symm.trans accepted.split_canonical
    cases hides : dottedNumeric rawHost with
    | false => rfl
    | true =>
        rw [hides, if_pos rfl] at hostAgain
        simp only [Except.ok.injEq, Prod.mk.injEq] at same
        rw [← same.2.1] at hostAgain
        exact absurd acceptedAgain.host (hostAgain _)
  · intro hides
    rw [hides, if_neg Bool.false_ne_true] at hostAgain
    have again
        : Accepted ipv6 origin.canonical origin origin.scheme.asStr origin.host origin.port false
            isLoopback := by
      refine ⟨?_, accepted.canonical_fits, lower_asStr _, (isHostText_of_canonical accepted.host).1,
        ?_, hostAgain, accepted.secure, ?_, accepted.canonical⟩
      · rw [accepted.canonical, canonicalText_eq]
      · rw [accepted.originPort]
        exact accepted.isPort.filter _
      · rw [accepted.originPort]
        simp
    exact again.parse

end

/-- Ports that lead to the same one are written alike once default ports are left out. -/
theorem filter_eq_of_getD {one two : Option Nat} {default : Nat}
    (same : one.getD default = two.getD default)
    : one.filter (· ≠ default) = two.filter (· ≠ default) := by
  cases one <;> cases two <;> simp_all [Option.filter_some]

theorem getLast?_lower
    : (lower host).getLast? = some '.' ↔ host.getLast? = some '.' := by
  rw [lower, List.getLast?_map, Option.map_eq_some_iff]
  constructor
  · rintro ⟨char, last, dot⟩
    rw [last, (toLower_eq_iff _ (by decide) (by decide)).mp dot]
  · exact fun last => ⟨'.', last, rfl⟩

theorem lower_undotted (host : List Char) : lower (undotted host) = undotted (lower host) := by
  unfold undotted
  by_cases dotted : host.getLast? = some '.'
  · rw [if_pos dotted, if_pos (getLast?_lower.mpr dotted), lower, lower, List.map_dropLast]
  · rw [if_neg dotted, if_neg (mt getLast?_lower.mp dotted)]

theorem last_of_dotted
    (accepted : canonicalizeHost ipv6 (host ++ ['.']) = .ok (canonical, isLoopback))
    : host.getLast? ≠ some '.' := by
  rcases of_canonicalizeHost accepted
    with ⟨inner, addr, bracketed, _⟩ | ⟨_, ipv4⟩ | ⟨_, _, name, _, named⟩
  · have last := congrArg List.getLast? bracketed
    rw [List.getLast?_concat, ← List.cons_append, List.getLast?_concat] at last
    exact absurd last (by decide)
  · obtain ⟨_, _, _, undotted, _⟩ := of_canonicalizeIpv4 ipv4
    exact absurd (List.getLast?_concat ..) undotted
  · rcases withoutRootDot_cases (host ++ ['.']) with same | dotted
    · rw [← named.is] at same
      exact absurd (same ▸ List.getLast?_concat ..) named.undotted
    · rw [← named.is] at dotted
      rw [List.append_cancel_right dotted]
      exact named.undotted

/-- The hosts of variants are the same one in lower case and without the dot. -/
theorem Spelling.Variant.undotted_eq {one two : Spelling} (variant : one.Variant two)
    {canonicalOne canonicalTwo : List Char} {loopbackOne loopbackTwo : Bool}
    (acceptedOne : canonicalizeHost ipv6 one.rawHost = .ok (canonicalOne, loopbackOne))
    (acceptedTwo : canonicalizeHost ipv6 two.rawHost = .ok (canonicalTwo, loopbackTwo))
    : lower (undotted one.rawHost) = lower (undotted two.rawHost) := by
  have same : lower one.host = lower two.host := variant.2.1
  have last : one.host.getLast? = some '.' ↔ two.host.getLast? = some '.' := by
    rw [← getLast?_lower, same, getLast?_lower]
  cases oneDotted : one.dotted <;> cases twoDotted : two.dotted <;>
    simp only [Spelling.rawHost, oneDotted, twoDotted, if_true, Bool.false_eq_true, if_false]
      at acceptedOne acceptedTwo ⊢
  · rw [lower_undotted, lower_undotted, same]
  · rw [undotted_concat, undotted_of_ne (mt last.mp (last_of_dotted acceptedTwo)), same]
  · rw [undotted_concat, undotted_of_ne (mt last.mpr (last_of_dotted acceptedOne)), same]
  · rw [undotted_concat, undotted_concat, same]

theorem asStr_injective {one two : Scheme} (same : one.asStr = two.asStr) : one = two := by
  cases one <;> cases two <;> first | rfl | exact absurd same (by decide)

variable {other : CanonicalOrigin}

theorem Spelling.Variant.origin_eq {one two : Spelling} (variant : one.Variant two)
    (parsedOne : CanonicalOrigin.parse ipv6 one.text = .ok origin)
    (parsedTwo : CanonicalOrigin.parse ipv6 two.text = .ok other)
    : other = origin := by
  obtain ⟨_, rawOne, portOne, _, _, acceptedOne⟩ := exists_accepted parsedOne
  obtain ⟨_, rawTwo, portTwo, _, _, acceptedTwo⟩ := exists_accepted parsedTwo
  have partsOne := Spelling.split acceptedOne.split
  have partsTwo := Spelling.split acceptedTwo.split
  simp only [Prod.mk.injEq] at partsOne partsTwo
  obtain ⟨schemeOne, rfl, rfl⟩ := partsOne
  obtain ⟨schemeTwo, rfl, rfl⟩ := partsTwo
  have schemes : one.scheme = two.scheme := by
    refine asStr_injective ?_
    rw [← one.named, ← two.named, variant.1]
  have scheme : other.scheme = origin.scheme := by rw [schemeOne, schemeTwo, schemes]
  have host : other.host = origin.host :=
    (canonical_eq_of_undotted acceptedOne.host acceptedTwo.host
      (variant.undotted_eq acceptedOne.host acceptedTwo.host)).symm
  have port : other.port = origin.port := by
    have effective : one.port.getD one.scheme.defaultPort = two.port.getD one.scheme.defaultPort := by
      have same := variant.2.2
      rw [Spelling.effectivePort, Spelling.effectivePort, ← schemes] at same
      exact same
    rw [acceptedOne.originPort, acceptedTwo.originPort, scheme, schemeOne]
    exact (filter_eq_of_getD effective).symm
  have canonical : other.canonical = origin.canonical := by
    rw [acceptedOne.canonical, acceptedTwo.canonical, scheme, host, port]
  cases origin
  cases other
  simp_all

/-- Accepted endpoints have one canonical text just when they have the same scheme, host and
effective port. -/
theorem canonical_eq_iff {text : List Char} (parsed : CanonicalOrigin.parse ipv6 input = .ok origin)
    (parsedOther : CanonicalOrigin.parse ipv6 text = .ok other)
    : origin.canonical = other.canonical
      ↔ origin.scheme = other.scheme ∧ origin.host = other.host
        ∧ origin.effectivePort = other.effectivePort := by
  obtain ⟨_, _, port, _, _, accepted⟩ := exists_accepted parsed
  obtain ⟨_, _, portOther, _, _, acceptedOther⟩ := exists_accepted parsedOther
  constructor
  · intro same
    have parts := accepted.split_canonical
    rw [same, acceptedOther.split_canonical] at parts
    simp only [Except.ok.injEq, Prod.mk.injEq] at parts
    obtain ⟨scheme, host, port⟩ := parts
    refine ⟨scheme.symm, host.symm, ?_⟩
    rw [CanonicalOrigin.effectivePort, CanonicalOrigin.effectivePort, scheme, port]
  · rintro ⟨scheme, host, effective⟩
    have port : origin.port = other.port := by
      rw [CanonicalOrigin.effectivePort, CanonicalOrigin.effectivePort, ← scheme] at effective
      have filtered := filter_eq_of_getD effective
      have own : origin.port.filter (· ≠ origin.scheme.defaultPort) = origin.port := by
        rw [accepted.originPort]
        simp
      have ownOther : other.port.filter (· ≠ origin.scheme.defaultPort) = other.port := by
        rw [acceptedOther.originPort, ← scheme]
        simp
      rw [own, ownOther] at filtered
      exact filtered
    rw [accepted.canonical, acceptedOther.canonical, scheme, host, port]

/-- The canonical text of an accepted endpoint is accepted as the same origin, its variants have
that origin too, origins have one canonical text just when they have the same scheme, host and
effective port, and plain http leads to the machine itself: all of that holds just when no dot
hides that the host could be a numeric address. -/
theorem canonical_iff_not_hidesNumeric (ipv6 : Ipv6Format) (input : List Char)
    (origin : CanonicalOrigin) (parsed : CanonicalOrigin.parse ipv6 input = .ok origin)
    : (CanonicalOrigin.parse ipv6 origin.canonical = .ok origin
        ∧ (∀ (one two : Spelling) (other : CanonicalOrigin), one.text = input → one.Variant two
            → CanonicalOrigin.parse ipv6 two.text = .ok other → other = origin)
        ∧ (∀ text other, CanonicalOrigin.parse ipv6 text = .ok other
            → (origin.canonical = other.canonical
              ↔ origin.scheme = other.scheme ∧ origin.host = other.host
                ∧ origin.effectivePort = other.effectivePort))
        ∧ (origin.scheme = .http → origin.isLoopback ipv6 = true))
      ↔ hidesNumeric input = false := by
  obtain ⟨_, _, _, _, _, accepted⟩ := exists_accepted parsed
  rw [← accepted.again_iff]
  refine ⟨fun all => all.1, fun again => ⟨again, ?_, ?_, ?_⟩⟩
  · rintro one two other rfl variant parsedOther
    exact variant.origin_eq parsed parsedOther
  · exact fun text other parsedOther => canonical_eq_iff parsed parsedOther
  · intro http
    have near := accepted.secure http
    subst near
    exact isLoopbackHost_of accepted.host

/-- The texts of the one address that is the machine itself. -/
def loopbackFormat : Ipv6Format where
  Addr := Unit
  fromStr text := if text.map Char.toLower = "::1".toList then some () else none
  display _ := "::1".toList
  isLoopback _ := true
  fromStr_display _ := if_pos (by decide)
  display_fromStr_case _ _ same := by rw [same]
  display_chars _ char mem :=
    (List.all_eq_true.mp
        (show "::1".toList.all (fun char => decide (char.isAlphanum = true ∨ char = ':' ∨ char = '.'))
            = true by decide)
        char mem)
      |> of_decide_eq_true
  display_short _ := by decide

/-- A host in capitals, with the root's dot, the default port and a slash. -/
theorem canonical_iff_not_hidesNumeric_spelled
    : CanonicalOrigin.parse loopbackFormat "HTTPS://API.TypeSafe.ai.:443/".toList
          = .ok ⟨.https, "api.typesafe.ai".toList, none, "https://api.typesafe.ai".toList⟩
      ∧ CanonicalOrigin.parse loopbackFormat "https://api.typesafe.ai".toList
        = .ok ⟨.https, "api.typesafe.ai".toList, none, "https://api.typesafe.ai".toList⟩ := by
  have parsed
      : CanonicalOrigin.parse loopbackFormat "HTTPS://API.TypeSafe.ai.:443/".toList
        = .ok ⟨.https, "api.typesafe.ai".toList, none, "https://api.typesafe.ai".toList⟩ := by
    decide +kernel
  exact ⟨parsed, ((canonical_iff_not_hidesNumeric loopbackFormat _ _ parsed).mpr
    (by decide +kernel)).1⟩

/-- With a dot behind it a numeric address is accepted as a name. Without the dot it is refused: so
is the canonical text of that name. -/
theorem canonical_refused
    : CanonicalOrigin.parse loopbackFormat "https://1.0x2.".toList
          = .ok ⟨.https, "1.0x2".toList, none, "https://1.0x2".toList⟩
      ∧ CanonicalOrigin.parse loopbackFormat "https://1.0x2".toList
        = .error .numericIpv4AliasForbidden := by
  decide +kernel

end SkillRanker.Jev.Endpoint
