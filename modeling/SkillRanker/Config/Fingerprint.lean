import Mathlib.Data.List.Lex
import Mathlib.Data.Prod.Lex
import Mathlib.Data.String.Basic
import SkillRanker.Config.Revalidation
import SkillRanker.Library.Doubles
import SkillRanker.Library.Framing

/-! The fingerprint of a policy: a digest of its effective values, each behind its name. -/

namespace SkillRanker.Config

open SkillRanker.Library

-- Names of values

def Provider.asStr : Provider → String
  | typeSafe => "typesafe"
  | cloudflare => "cloudflare"

def NotificationTurns.asStr : NotificationTurns → String
  | skip => "skip"
  | rank => "rank"

def HookMode.asStr : HookMode → String
  | shadow => "shadow"
  | advisory => "advisory"

def ContextProfile.asStr : ContextProfile → String
  | minimal => "minimal"
  | standard => "standard"

def joined (names : List PathName) : List Char :=
  ['/'].intercalate (names.map fun name => name.text.toList)

def WorkspaceRelativeRoot.asPath (root : WorkspaceRelativeRoot) : String :=
  String.ofList (joined root.names)

def TrustedAbsoluteRoot.asPath (root : TrustedAbsoluteRoot) : String :=
  String.ofList ('/' :: joined root.names)

-- Numbers

structure PolicyNumbers where
  gate : Float.Model
  fits : Float.Model
  wFit : Float.Model
  wPrior : Float.Model
  wPhase : Float.Model

def floatBytes (value : Float.Model) : List UInt8 :=
  let value := if value == Float.Model.ofNat 0 then Float.Model.ofNat 0 else value
  littleEndian 8 value.toBits.toNat

-- Fields

def field (entry : String × List UInt8) : List UInt8 :=
  littleEndian 8 (utf8 entry.1).length ++ utf8 entry.1
    ++ (littleEndian 8 entry.2.length ++ entry.2)

/-- `u8::from` of a truth value. -/
def boolByte (value : Bool) : List UInt8 := [if value then 1 else 0]

def inOrder {α κ : Type} [LinearOrder κ] (key : α → κ) (items : List α) : List α :=
  items.mergeSort fun left right => decide (key left ≤ key right)

def pathKey (names : List PathName) : List String := names.map PathName.text

def SkillRoot.key : SkillRoot → Lex (Bool × List String)
  | workspaceRelative root => toLex (false, pathKey root.names)
  | trustedAbsolute root => toLex (true, pathKey root.names)

def SkillRoot.entry : SkillRoot → String × List UInt8
  | workspaceRelative root => ("relative", utf8 root.asPath)
  | trustedAbsolute root => ("absolute", utf8 root.asPath)

namespace EffectiveConfig

variable (config : EffectiveConfig) (numbers : PolicyNumbers)

def endpointEntry : String × List UInt8 :=
  match config.selectedEndpoint with
  | some endpoint => ("typesafe.endpoint", utf8 endpoint.origin)
  | none => ("typesafe.endpoint.default", [])

def providerEntries : List (String × List UInt8) :=
  match config.provider with
  | .typeSafe => []
  | .cloudflare =>
      ("provider.kind", utf8 config.provider.asStr)
        :: match config.cloudflareAccount with
          | some account => [("cloudflare.account_id", utf8 account.text)]
          | none => []

def contextEntries : List (String × List UInt8) :=
  [
    ("provider.model", utf8 config.model.text),
    ("hook.mode", utf8 config.hookMode.asStr),
    ("hook.notification_turns", utf8 config.notificationTurns.asStr),
    ("context.profile", utf8 config.contextProfile.asStr),
    ("context.no_tools", boolByte config.noTools),
    ("context.messages", littleEndian 4 config.messages),
    ("context.budget_chars", littleEndian 4 config.budgetChars),
    ("context.transcript_roots", littleEndian 8 config.transcriptRoots.length)
  ]

def rankingEntries : List (String × List UInt8) :=
  [
    ("ranking.top", littleEndian 4 config.top),
    ("ranking.shortlist", littleEndian 4 config.shortlist),
    ("ranking.gate", floatBytes numbers.gate),
    ("ranking.fits", floatBytes numbers.fits),
    ("ranking.w_fit", floatBytes numbers.wFit),
    ("ranking.w_prior", floatBytes numbers.wPrior),
    ("ranking.w_phase", floatBytes numbers.wPhase),
    ("ranking.timeout_ms", littleEndian 8 config.timeoutMs),
    ("ranking.exclude_skills", littleEndian 8 config.excludeSkills.length)
  ]

def transcriptRootEntries : List (String × List UInt8) :=
  (inOrder (fun root : TrustedAbsoluteRoot => pathKey root.names) config.transcriptRoots).map fun root =>
    ("root", utf8 root.asPath)

def excludeSkillEntries : List (String × List UInt8) :=
  (inOrder BoundedText.text config.excludeSkills).map fun skill => ("skill", utf8 skill.text)

def rosterRootEntries : List (String × List UInt8) :=
  (inOrder SkillRoot.key config.rosterRoots).map SkillRoot.entry

/-- All fields of a policy, in the order that they are hashed in. -/
def fingerprintEntries : List (String × List UInt8) :=
  [
    ("schema", littleEndian 4 configSchemaVersion),
    ("network.enabled", boolByte config.networkEnabled),
    config.endpointEntry
  ]
    ++ config.providerEntries ++ config.contextEntries ++ config.transcriptRootEntries
    ++ config.rankingEntries numbers ++ config.excludeSkillEntries
    ++ [("roster.roots", littleEndian 8 config.rosterRoots.length)]
    ++ config.rosterRootEntries

def policyFingerprint {Hash : Type} (fromBytes : List UInt8 → Hash) : Hash :=
  fromBytes
    (utf8 "skillranker.policy-fingerprint.v1" ++ (config.fingerprintEntries numbers).flatMap field)

end EffectiveConfig

-- Policies as they are held

def HoldsNumber (number : Float.Model) (value : ℚ) : Prop :=
  number.isFinite ∧ exactValue number = value

/-- The numbers hold those of a configuration, and machine words hold its counts and its sizes. -/
structure PolicyNumbers.Hold (numbers : PolicyNumbers) (config : EffectiveConfig) : Prop where
  gate : HoldsNumber numbers.gate config.gate
  fits : HoldsNumber numbers.fits config.fits
  wFit : HoldsNumber numbers.wFit config.wFit
  wPrior : HoldsNumber numbers.wPrior config.wPrior
  wPhase : HoldsNumber numbers.wPhase config.wPhase
  messages : config.messages ≤ u32Max
  budgetChars : config.budgetChars ≤ u32Max
  top : config.top ≤ u32Max
  shortlist : config.shortlist ≤ u32Max
  timeoutMs : config.timeoutMs ≤ u64Max
  transcriptRoots : config.transcriptRoots.length ≤ usizeMax
  excludeSkills : config.excludeSkills.length ≤ usizeMax
  rosterRoots : config.rosterRoots.length ≤ usizeMax
  endpoint : ∀ endpoint ∈ config.selectedEndpoint, (utf8 endpoint.origin).length ≤ usizeMax
  account : ∀ account ∈ config.cloudflareAccount, (utf8 account.text).length ≤ usizeMax
  transcriptPaths : ∀ root ∈ config.transcriptRoots, (utf8 root.asPath).length ≤ usizeMax
  rosterPaths : ∀ root ∈ config.rosterRoots, root.entry.2.length ≤ usizeMax

end SkillRanker.Config
