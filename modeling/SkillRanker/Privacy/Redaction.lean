import Mathlib.Data.List.Sort
import SkillRanker.Identity
import SkillRanker.Library.Json
import SkillRanker.Library.Regex

/-! The redaction of fields, and the inspection of a final payload. -/

namespace SkillRanker.Privacy

open SkillRanker.Library Regex

-- Bounds and texts

def redactionMarker : List Char := "[REDACTED]".toList

def excerptJoin : List Char := " … ".toList

def maxRedactedFieldBytes : Nat := 1024 * 1024

def maxRedactedExcerptScalars : Nat := 12000

def maxInspectedPayloadBytes : Nat := 96 * 1024

/-- `MAX_INSPECTED_PAYLOAD_DEPTH`, which is also the depth that the bounded parser reads to. -/
def maxInspectedPayloadDepth : Nat := 64

def byteSize (text : List Char) : Nat := (text.map Char.utf8Size).sum

theorem byteSize_append (front back : List Char)
    : byteSize (front ++ back) = byteSize front + byteSize back := by
  rw [byteSize, List.map_append, List.sum_append]
  rfl

def isQuote (char : Char) : Bool := char = '"' || char = '\''

/-- What the scan takes from the tables of characters and from logarithms: which characters beyond
ASCII are of words, and whether a text has more than 4.5 bits in a character.
-/
structure Scanner where
  wordBeyondAscii : Char → Bool
  highEntropy : List Char → Bool
  punctuation : wordBeyondAscii '…' = false

namespace Scanner

variable (scanner : Scanner)

def isWord (char : Char) : Bool :=
  if char.toNat < 128 then isAlphanumericOr "_" char else scanner.wordBeyondAscii char

end Scanner

-- Patterns

def isKeyChar (char : Char) : Bool := char.isUpper || char.isDigit

def awsPattern : Regex :=
  seq (firstOf [inOrder [one (· = 'A'), oneOf "KBSC", literal "IA"], literal "ACCA"])
    (between 16 16 (one isKeyChar))

def space : Regex := one isWhitespace

def spaces : Regex := many true space

def githubPattern : Regex :=
  firstOf
    [
      inOrder [literal "gh", oneOf "pousr", literal "_", atLeast 36 (one (isAlphanumericOr ""))],
      inOrder
        [
          literal "github_pat_", atLeast 22 (one (isAlphanumericOr "")), literal "_",
          atLeast 59 (one (isAlphanumericOr "_"))
        ]
    ]

def webTokenPattern : Regex :=
  let part := plus (one (isAlphanumericOr "_-"))
  inOrder [literal "eyJ", part, literal ".", part, literal ".", part]

def bearerPattern : Regex :=
  inOrder
    [
      wordEdge, caseless "bearer", plus space, plus (one (isAlphanumericOrFolded "_-.~+/")),
      many true (one (· = '='))
    ]

def providerKeyPattern : Regex :=
  inOrder [wordEdge, literal "sk-", atLeast 20 (one (isAlphanumericOr "_-"))]

def paymentKeyPattern : Regex :=
  inOrder
    [
      wordEdge, oneOf "rs", literal "k_", firstOf [literal "live", literal "test"], literal "_",
      atLeast 16 (one (isAlphanumericOr ""))
    ]

def basicPattern : Regex :=
  inOrder
    [
      wordEdge, caseless "authorization", spaces, oneOf ":=", spaces, caseless "basic", plus space,
      plus (one (isAlphanumericOrFolded "+/")), many true (one (· = '='))
    ]

def secretKeyword : Regex :=
  let gap := optional (oneOf "_-")
  firstOf
    [
      inOrder
        [
          caseless "aws", gap, caseless "secret",
          optional (inOrder [gap, caseless "access", gap, caseless "key"])
        ],
      inOrder [caseless "secret", gap, caseless "key"],
      inOrder [caseless "api", gap, caseless "key"],
      caseless "password", caseless "passwd", caseless "pwd", caseless "secret", caseless "token",
      caseless "credential"
    ]

/-- A value in quotes, up to the first quote that is not escaped or to the end of the text. -/
def quotedValue (quote : Char) : Regex :=
  inOrder
    [
      one (· = quote),
      many true
        (firstOf
          [
            seq (one (· = '\\')) (one fun _ => true),
            one fun char => char ≠ quote && char ≠ '\\'
          ]),
      firstOf [one (· = quote), seq (optional (one (· = '\\'))) textEnd]
    ]

def isPlainValue (char : Char) : Bool := !(isWhitespace char || char ∈ "\"',;\x7d".toList)

def assignmentPattern : Regex :=
  inOrder
    [
      secretKeyword, optional (oneOf "\"'"), spaces, oneOf ":=", spaces,
      group (firstOf [quotedValue '"', quotedValue '\'', plus (one isPlainValue)])
    ]

def userinfoPattern : Regex :=
  inOrder
    [
      one (fun char => isLetter char || char = '\u212a' || char = '\u017f'),
      many true (one (isAlphanumericOrFolded "+.-")), literal "://",
      group (plus (one fun char => !(isWhitespace char || char ∈ "/\"'<>".toList))), literal "@"
    ]

def slackPattern : Regex :=
  inOrder
    [
      literal "xox", oneOf "baprs", literal "-", between 10 13 (one Char.isDigit), literal "-",
      between 10 13 (one Char.isDigit), many true (one (isAlphanumericOr "-"))
    ]

def webhookPattern : Regex :=
  let part := plus (one (isAlphanumericOr "_-"))
  inOrder
    [literal "https://hooks.slack.com/services/", part, literal "/", part, literal "/", part]

def secretPatterns : List Regex :=
  [
    githubPattern, webTokenPattern, bearerPattern, providerKeyPattern, paymentKeyPattern,
    basicPattern, assignmentPattern, userinfoPattern, slackPattern, webhookPattern
  ]

def privateKeyHeader : Regex :=
  inOrder
    [
      literal "-----BEGIN ",
      group
        (firstOf
          [
            seq
              (optional
                (firstOf
                  [
                    literal "RSA ", literal "DSA ", literal "EC ", literal "OPENSSH ",
                    literal "ENCRYPTED "
                  ]))
              (literal "PRIVATE KEY"),
            literal "PGP PRIVATE KEY BLOCK"
          ]),
      literal "-----"
    ]

def entropyPattern : Regex := atLeast 32 (one (isAlphanumericOr "+/=_-"))

def secretKeyPattern : Regex :=
  inOrder [textStart, many true (one (isAlphanumericOrFolded "_-")), secretKeyword, textEnd]

-- Spans

/-- The positions that a part of a text starts and ends at. -/
abbrev Span := Nat × Nat

/-- Text without the characters at its two ends that are not wanted. -/
def trimMatches (drops : Char → Bool) (text : List Char) : List Char :=
  (text.dropWhile drops).rdropWhile drops

def insideClosingQuotes (value : List Char) (range : Span) : Span :=
  if 2 < value.length ∧ value.head?.any isQuote = true ∧ value.head? = value.getLast? then
    (range.1 + 1, range.2 - 1)
  else range

/-- Neither side of a part has a character of keys. -/
def standsAlone (text : List Char) (found : Found) : Bool :=
  (text.take found.start).getLast?.all (fun char => !isKeyChar char)
    && (text.drop found.stop).head?.all (fun char => !isKeyChar char)

namespace Scanner

variable (scanner : Scanner)

def awsSpans (text : List Char) : List Span :=
  ((findAll scanner.isWord awsPattern text).filter (standsAlone text)).map fun found =>
    (found.start, found.stop)

def secretPart (text : List Char) (found : Found) : Option Span :=
  let range := found.captured.getD (found.start, found.stop)
  let value := slice text range.1 range.2
  if trimMatches isQuote value = redactionMarker then none
  else some (insideClosingQuotes value range)

def patternSpans (text : List Char) : List Span :=
  secretPatterns.flatMap fun pattern =>
    (findAll scanner.isWord pattern text).filterMap (secretPart text)

/-- Private keys up to their footers. A header within an earlier key is no key of its own. -/
def privateKeys (text : List Char) : Nat → List Found → List Span
  | _, [] => []
  | coveredUntil, header :: rest =>
      if header.start < coveredUntil then privateKeys text coveredUntil rest
      else
        let range := header.captured.getD (header.start, header.stop)
        let footer := "-----END ".toList ++ slice text range.1 range.2 ++ "-----".toList
        let covered :=
          match findText footer (text.drop header.stop) with
          | some offset => header.stop + offset + footer.length
          | none => text.length
        (header.start, covered) :: privateKeys text covered rest

def entropySpans (text : List Char) : List Span :=
  ((findAll scanner.isWord entropyPattern text).map fun found => (found.start, found.stop)).filter
    fun span => scanner.highEntropy (slice text span.1 span.2)

def spanLe (span other : Span) : Bool :=
  span.1 < other.1 || (span.1 = other.1 && span.2 ≤ other.2)

/-- Spans in order, with the ones that overlap made one. -/
def mergeFrom : Span → List Span → List Span
  | last, [] => [last]
  | last, span :: rest =>
      if span.1 < last.2 then mergeFrom (last.1, max last.2 span.2) rest
      else last :: mergeFrom span rest

def mergeSpans : List Span → List Span
  | [] => []
  | first :: rest => mergeFrom first rest

def mergedSpans (scanEntropy : Bool) (text : List Char) : List Span :=
  let spans :=
    scanner.awsSpans text ++ scanner.patternSpans text
      ++ privateKeys text 0 (findAll scanner.isWord privateKeyHeader text)
      ++ if scanEntropy then scanner.entropySpans text else []
  mergeSpans (spans.insertionSort fun span other => spanLe span other = true)

end Scanner

-- Fields

inductive RedactionError
  | fieldTooLong
  | outputTooLong
  | excerptTooLong
  | payloadTooLong
  | invalidPayload
  | secretsDetected (count : Nat)
deriving DecidableEq, Repr

structure RedactedField where
  text : List Char
  redactions : Nat
  omittedScalars : Nat
deriving DecidableEq

/-- Scans with the entropy pass or without it. -/
structure Redactor where
  entropy : Bool
deriving DecidableEq, Repr

namespace Redactor

variable (scanner : Scanner) (redactor : Redactor)

def redactField (field : List Char) : Except RedactionError RedactedField :=
  if maxRedactedFieldBytes < byteSize field then .error .fieldTooLong
  else
    let spans := scanner.mergedSpans redactor.entropy field
    let text := replaceParts field redactionMarker 0 spans
    if maxRedactedFieldBytes < byteSize text then .error .outputTooLong
    else
      .ok
        {
          text := text
          redactions := spans.length
          omittedScalars := 0
        }

mutual

def bounded (depth : Nat) : Json → Bool
  | .array items => depth ≤ maxInspectedPayloadDepth && itemsBounded (depth + 1) items
  | .object members =>
      depth ≤ maxInspectedPayloadDepth && (members.map Prod.fst).Nodup
        && membersBounded (depth + 1) members
  | _ => depth ≤ maxInspectedPayloadDepth

def itemsBounded (depth : Nat) : List Json → Bool
  | [] => true
  | item :: rest => bounded depth item && itemsBounded depth rest

def membersBounded (depth : Nat) : List (String × Json) → Bool
  | [] => true
  | (_, value) :: rest => bounded depth value && membersBounded depth rest

end

mutual

def inspectValue (depth : Nat) (sensitiveKey : Bool)
    : Json → Except RedactionError (Nat × Nat)
  | .string text =>
      if maxInspectedPayloadDepth < depth then .error .invalidPayload
      else if sensitiveKey && text.toList ≠ [] && text.toList ≠ redactionMarker then .ok (1, 1)
      else .ok ((scanner.mergedSpans redactor.entropy text.toList).length, 1)
  | .array items =>
      if maxInspectedPayloadDepth < depth then .error .invalidPayload
      else inspectItems (depth + 1) sensitiveKey items
  | .object members =>
      if maxInspectedPayloadDepth < depth then .error .invalidPayload
      else inspectMembers (depth + 1) sensitiveKey members
  | .bool _ | .number _ =>
      if maxInspectedPayloadDepth < depth then .error .invalidPayload
      else .ok (sensitiveKey.toNat, 0)
  | .null => if maxInspectedPayloadDepth < depth then .error .invalidPayload else .ok (0, 0)

def inspectItems (depth : Nat) (sensitiveKey : Bool)
    : List Json → Except RedactionError (Nat × Nat)
  | [] => .ok (0, 0)
  | item :: rest => do
      let (count, strings) ← inspectValue depth sensitiveKey item
      let (more, others) ← inspectItems depth sensitiveKey rest
      return (count + more, strings + others)

def inspectMembers (depth : Nat) (sensitiveKey : Bool)
    : List (String × Json) → Except RedactionError (Nat × Nat)
  | [] => .ok (0, 0)
  | (key, value) :: rest => do
      let here := (scanner.mergedSpans redactor.entropy key.toList).length
      let sensitive := sensitiveKey || isMatch scanner.isWord secretKeyPattern key.toList
      let (count, strings) ← inspectValue depth sensitive value
      let (more, others) ← inspectMembers depth sensitiveKey rest
      return (here + count + more, 1 + strings + others)

end

def inspectPayload (payload : List Char) : Except RedactionError Nat :=
  if maxInspectedPayloadBytes < byteSize payload then .error .payloadTooLong
  else
    match readJson payload with
    | none => .error .invalidPayload
    | some value =>
        if bounded 0 value then do
          let (count, strings) ← inspectValue scanner redactor 0 false value
          ensure (count = 0) (.secretsDetected count)
          return strings
        else .error .invalidPayload

end Redactor

end SkillRanker.Privacy
