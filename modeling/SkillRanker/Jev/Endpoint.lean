import SkillRanker.Jev.Diagnostics

/-! Endpoint origins: how the text of an endpoint is taken apart and written canonically. -/

namespace SkillRanker.Jev.Endpoint

open Library

def maxEndpointInputBytes : Nat := 2048

-- Origins

inductive Scheme where
  | https
  | http
deriving DecidableEq

def Scheme.asStr : Scheme → List Char
  | .https => "https".toList
  | .http => "http".toList

def Scheme.defaultPort : Scheme → Nat
  | .https => 443
  | .http => 80

inductive EndpointError where
  | emptyInput
  | inputTooLong (length : Nat)
  | missingScheme
  | unsupportedScheme
  | insecureScheme
  | userinfoForbidden
  | queryForbidden
  | fragmentForbidden
  | nonRootPathForbidden
  | duplicatePathJoin
  | emptyHost
  | invalidHost
  | nonAsciiHostForbidden
  | unbracketedIpv6Forbidden
  | numericIpv4AliasForbidden
  | invalidPort
deriving DecidableEq

structure CanonicalOrigin where
  scheme : Scheme
  host : List Char
  port : Option Nat
  canonical : List Char
deriving DecidableEq

def CanonicalOrigin.effectivePort (origin : CanonicalOrigin) : Nat :=
  origin.port.getD origin.scheme.defaultPort

/-- The addresses of IPv6 and their texts. An address is read back from its text, which has only
digits, colons and dots in it, and a text says the same in either case. -/
structure Ipv6Format where
  Addr : Type
  fromStr : List Char → Option Addr
  display : Addr → List Char
  isLoopback : Addr → Bool
  fromStr_display : ∀ addr, fromStr (display addr) = some addr
  display_fromStr_case : ∀ one two, one.map Char.toLower = two.map Char.toLower
    → fromStr one = fromStr two
  display_chars
    : ∀ addr, ∀ char ∈ display addr, char.isAlphanum = true ∨ char = ':' ∨ char = '.'
  display_short : ∀ addr, (display addr).length ≤ 45

-- Hosts

def eqIgnoreAsciiCase (one two : List Char) : Bool := one.map Char.toLower = two.map Char.toLower

def startsWith0x (text : List Char) : Bool :=
  text.take 2 = ['0', 'x'] || text.take 2 = ['0', 'X']

def isNumericLabel (label : List Char) : Bool :=
  !label.isEmpty && (label.all Char.isDigit || startsWith0x label)

/-- Whether a host could be an IPv4 address or another spelling of one. -/
def looksLikeNumericOrIp (host : List Char) : Bool :=
  startsWith0x host || (host.splitOn '.').all isNumericLabel

/-- One of the four numbers of an IPv4 address, without zeros in front. -/
def ipv4Octet (part : List Char) : Except EndpointError Nat := do
  ensure (part ≠ [] ∧ part.length ≤ 3 ∧ part.all Char.isDigit = true) .numericIpv4AliasForbidden
  ensure (¬(part.length > 1 ∧ part.head? = some '0')) .numericIpv4AliasForbidden
  let val ← require (readDigits part) .numericIpv4AliasForbidden
  ensure (val ≤ 255) .invalidHost
  return val

def ipv4Text (octets : List Nat) : List Char := ['.'].intercalate (octets.map (decimal 0))

def ipv4IsLoopback (octets : List Nat) : Bool := octets.head? = some 127

def canonicalizeIpv4 (host : List Char) : Except EndpointError (List Char × Bool) := do
  ensure (findText ['0', 'x'] host = none ∧ findText ['0', 'X'] host = none)
    .numericIpv4AliasForbidden
  let parts := host.splitOn '.'
  ensure (parts.length = 4) .numericIpv4AliasForbidden
  let octets ← parts.mapM ipv4Octet
  return (ipv4Text octets, ipv4IsLoopback octets)

def validateAsciiLabel (label : List Char) : Except EndpointError Unit := do
  ensure (label ≠ [] ∧ label.length ≤ 63) .invalidHost
  ensure (label.head? ≠ some '-' ∧ label.getLast? ≠ some '-') .invalidHost
  ensure (label.all (fun char => char.isAlphanum || char = '-') = true) .invalidHost

def localhost : List Char := "localhost".toList

def withoutRootDot (host : List Char) : List Char :=
  if host.getLast? = some '.' ∧ host.length > 1 ∧ host.dropLast.getLast? ≠ some '.' then
    host.dropLast
  else host

def canonicalLabel (label : List Char) : Except EndpointError (List Char) := do
  ensure (label ≠ []) .invalidHost
  validateAsciiLabel (label.map Char.toLower)
  return label.map Char.toLower

def canonicalizeHostname (host : List Char) : Except EndpointError (List Char × Bool) := do
  let isLoopback := eqIgnoreAsciiCase host localhost
  let labels := (withoutRootDot host).splitOn '.'
  ensure (labels.length ≠ 1 ∨ isLoopback = true) .invalidHost
  ensure ((labels.getLast?.getD []).all Char.isDigit = false) .numericIpv4AliasForbidden
  let canonicalLabels ← labels.mapM canonicalLabel
  return (['.'].intercalate canonicalLabels, isLoopback)

/-- The canonical text of a host, and whether it is the machine itself. -/
def canonicalizeHost (ipv6 : Ipv6Format) (host : List Char)
    : Except EndpointError (List Char × Bool) := do
  ensure (host ≠ []) .emptyHost
  ensure (host.all (fun char => char.toNat < 128) = true) .nonAsciiHostForbidden
  if host.head? = some '[' ∧ host.getLast? = some ']' then
    let addr ← require (ipv6.fromStr (host.drop 1).dropLast) .invalidHost
    return ('[' :: (ipv6.display addr ++ [']']), ipv6.isLoopback addr)
  ensure ('[' ∉ host ∧ ']' ∉ host) .invalidHost
  if looksLikeNumericOrIp host then canonicalizeIpv4 host else canonicalizeHostname host

/-- The IPv4 address that a text is, as the standard library reads it. -/
def ipv4FromStr (host : List Char) : Option (List Nat) :=
  let parts := host.splitOn '.'
  if parts.length = 4 then parts.mapM fun part => (ipv4Octet part).toOption else none

/-- Whether a canonical host is the machine itself. -/
def isLoopbackHost (ipv6 : Ipv6Format) (host : List Char) : Bool :=
  if eqIgnoreAsciiCase host localhost then true
  else
    match ipv4FromStr host with
    | some octets => ipv4IsLoopback octets
    | none =>
        let inner :=
          if host.head? = some '[' ∧ (host.drop 1).getLast? = some ']' then (host.drop 1).dropLast
          else host
        match ipv6.fromStr inner with
        | some addr => ipv6.isLoopback addr
        | none => false

def CanonicalOrigin.isLoopback (ipv6 : Ipv6Format) (origin : CanonicalOrigin) : Bool :=
  isLoopbackHost ipv6 origin.host

-- Endpoints

def parseStrictPort (portStr : List Char) : Except EndpointError Nat := do
  ensure (portStr ≠ []) .invalidPort
  ensure (portStr.head? ≠ some '+' ∧ portStr.head? ≠ some '0') .invalidPort
  ensure (portStr.all Char.isDigit = true) .invalidPort
  let port ← require ((readDigits portStr).filter (· < 65536)) .invalidPort
  ensure (port ≠ 0) .invalidPort
  return port

def parseAuthority (authority : List Char) : Except EndpointError (List Char × Option Nat) :=
  match authority with
  | '[' :: stripped => do
      let (inner, afterBracket) ← require (splitOnce ']' stripped) .invalidHost
      let host := '[' :: (inner ++ [']'])
      match afterBracket with
      | ':' :: colonPort =>
          let port ← parseStrictPort colonPort
          return (host, some port)
      | [] => return (host, none)
      | _ => throw .invalidHost
  | _ => do
      ensure (authority.count ':' ≤ 1) .unbracketedIpv6Forbidden
      match splitOnce ':' authority with
      | some (host, portStr) =>
          let port ← parseStrictPort portStr
          return (host, some port)
      | none => return (authority, none)

def byteCount (text : List Char) : Nat := (text.map Char.utf8Size).sum

def readScheme (schemeRaw : List Char) : Except EndpointError Scheme :=
  if eqIgnoreAsciiCase schemeRaw "https".toList then .ok .https
  else if eqIgnoreAsciiCase schemeRaw "http".toList then .ok .http
  else .error .unsupportedScheme

/-- The host and the port behind a scheme, with nothing else but a slash. -/
def splitAuthority (rest : List Char) : Except EndpointError (List Char × Option Nat) := do
  let authority := rest.takeWhile (!endsAuthority ·)
  let afterAuth := rest.dropWhile (!endsAuthority ·)
  ensure ('@' ∉ authority) .userinfoForbidden
  ensure ('?' ∉ afterAuth) .queryForbidden
  ensure ('#' ∉ afterAuth) .fragmentForbidden
  ensure
    (¬(afterAuth = "/v1/systemone".toList ∨ afterAuth = "/v1/systemone/".toList
      ∨ afterAuth = "/v1".toList ∨ afterAuth = "/v1/".toList))
    .duplicatePathJoin
  ensure (afterAuth = [] ∨ afterAuth = ['/']) .nonRootPathForbidden
  ensure (authority ≠ []) .emptyHost
  parseAuthority authority

def splitEndpoint (input : List Char)
    : Except EndpointError (Scheme × List Char × Option Nat) := do
  ensure (input ≠ []) .emptyInput
  ensure (byteCount input ≤ maxEndpointInputBytes) (.inputTooLong (byteCount input))
  let colonSlash ← require (findText schemeMark input) .missingScheme
  let scheme ← readScheme (input.take colonSlash)
  let (host, port) ← splitAuthority (input.drop (colonSlash + 3))
  return (scheme, host, port)

def canonicalText (scheme : Scheme) (host : List Char) (port : Option Nat) : List Char :=
  match port with
  | some port => scheme.asStr ++ schemeMark ++ host ++ ':' :: decimal 0 port
  | none => scheme.asStr ++ schemeMark ++ host

def CanonicalOrigin.parse (ipv6 : Ipv6Format) (input : List Char)
    : Except EndpointError CanonicalOrigin := do
  let (scheme, rawHost, explicitPort) ← splitEndpoint input
  let (host, isLoopback) ← canonicalizeHost ipv6 rawHost
  ensure (¬(scheme = .http ∧ isLoopback = false)) .insecureScheme
  let port := explicitPort.filter (· ≠ scheme.defaultPort)
  return { scheme, host, port, canonical := canonicalText scheme host port }

end SkillRanker.Jev.Endpoint
