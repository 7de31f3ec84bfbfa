import Mathlib.Data.Rat.Defs
import Mathlib.Order.Defs.LinearOrder
import SkillRanker.Config.Roots

/-! The values of a configuration: what is decoded, and what each kind of setting takes. -/

namespace SkillRanker.Config

-- Choices

inductive Provider
  | typeSafe
  | cloudflare
deriving DecidableEq, Repr

def Provider.parse (value : String) : Option Provider :=
  match value with
  | "typesafe" => some .typeSafe
  | "cloudflare" => some .cloudflare
  | _ => none

/-- Ordered by disclosure and spend: to skip is less than to rank. -/
inductive NotificationTurns
  | skip
  | rank
deriving DecidableEq, Repr

def NotificationTurns.parse (text : String) : Option NotificationTurns :=
  match text with
  | "skip" => some .skip
  | "rank" => some .rank
  | _ => none

/-- Ordered by the authority of the advice. -/
inductive HookMode
  | shadow
  | advisory
deriving DecidableEq, Repr

def HookMode.parse (text : String) : Option HookMode :=
  match text with
  | "shadow" => some .shadow
  | "advisory" => some .advisory
  | _ => none

/-- Ordered by disclosure. -/
inductive ContextProfile
  | minimal
  | standard
deriving DecidableEq, Repr

def ContextProfile.parse (text : String) : Option ContextProfile :=
  match text with
  | "minimal" => some .minimal
  | "standard" => some .standard
  | _ => none

def NotificationTurns.place : NotificationTurns → Nat
  | skip => 0
  | rank => 1

def HookMode.place : HookMode → Nat
  | shadow => 0
  | advisory => 1

def ContextProfile.place : ContextProfile → Nat
  | minimal => 0
  | standard => 1

-- Texts

inductive ConfigLayer
  | builtIn
  | trustedUser
  | project
  | environment
  | cli
deriving DecidableEq, Repr

inductive SettingKey
  | networkEnabled
  | networkProxy
  | typesafeApiKey
  | typesafeEndpoint
  | provider
  | cloudflareApiToken
  | cloudflareAccountId
  | providerModel
  | hookMode
  | hookNotificationTurns
  | contextProfile
  | contextNoTools
  | contextMessages
  | contextBudgetChars
  | contextTranscriptRoots
  | rankingTop
  | rankingShortlist
  | rankingGate
  | rankingFits
  | rankingWFit
  | rankingWPrior
  | rankingWPhase
  | rankingTimeoutMs
  | rankingExcludeSkills
  | rosterRoots
  | privacyRedaction
  | privacyRawRetention
deriving DecidableEq, Repr

inductive ConfigProblem
  | unknownKey
  | duplicateKey
  | tooManyEntries
  | forbiddenInLayer
  | reservedSetting
  | wrongType
  | nonFinite
  | outOfRange
  | invalidValue
  | valueTooLong
  | nonUtf8
  | tooManyItems
  | duplicateItem
  | invalidRoot (error : RootError)
  | widensLowerLayer
  | conflict (other : SettingKey)
  | notManagedPolicy
deriving DecidableEq, Repr

/-- `bounded_text`: neither empty nor too long, with no character that identities exclude. -/
def checkText (max : Nat) (text : String) : Except ConfigProblem Unit :=
  if text.isEmpty then .error .invalidValue
  else if text.utf8ByteSize > max then .error .valueTooLong
  else if text.toList.any forbiddenIdentityCharacter then .error .invalidValue
  else .ok ()

structure BoundedText (max : Nat) where
  text : String
  bounded : checkText max text = .ok ()
deriving DecidableEq

def boundedText (max : Nat) (text : String) : Except ConfigProblem (BoundedText max) :=
  match checked : checkText max text with
  | .ok () => .ok { text := text, bounded := checked }
  | .error problem => .error problem

def maxModelBytes : Nat := 128

def maxStringValueBytes : Nat := 4 * 1024

def maxListItems : Nat := 128

def maxRoots : Nat := 32

abbrev ModelName := BoundedText maxModelBytes

abbrev SkillReference := BoundedText maxIdBytes

def defaultModel : ModelName := { text := "jev-latest", bounded := by decide +kernel }

def defaultCloudflareModel : ModelName :=
  { text := "typesafe/jev", bounded := by decide +kernel }

/-- `u8::is_ascii_hexdigit` -/
def isHexDigit (char : Char) : Bool :=
  char.isDigit || ('a' ≤ char && char ≤ 'f') || ('A' ≤ char && char ≤ 'F')

/-- Thirty-two hexadecimal digits, in lower case. -/
structure CloudflareAccountId where
  text : String
deriving DecidableEq

def CloudflareAccountId.parse (value : String) : Except ConfigProblem CloudflareAccountId :=
  if value.utf8ByteSize ≠ 32 ∨ !value.toList.all isHexDigit then .error .invalidValue
  else .ok { text := String.ofList (value.toList.map Char.toLower) }

/-- A configured origin, or the route of an account. -/
structure EndpointOverride where
  origin : String
  cloudflareAccount : Option CloudflareAccountId
  nativeCloudflare : Bool
deriving DecidableEq

-- Kinds

/-- A decoded number with a fraction. -/
inductive RawFloat
  | finite (value : ℚ)
  | nonFinite
deriving DecidableEq

inductive RawValue
  | bool (value : Bool)
  | integer (value : Int)
  | float (value : RawFloat)
  | string (text : String)
  | stringList (items : List String)
deriving DecidableEq

inductive ValueKind
  | bool
  | count (min max : Nat)
  | millis (min max : Nat)
  | unit (min max : ℚ)
  | contextProfile
  | hookMode
  | notificationTurns
  | modelName
  | provider
  | cloudflareAccountId
  | endpoint
  | credential
  | skillReferences
  | trustedAbsoluteRoots
  | skillRoots
  | reserved

/-- `TypedValue`: what a setting of a kind takes. Credentials and reserved settings take nothing. -/
def ValueKind.Typed : ValueKind → Type
  | bool => Bool
  | count min max => { value : Nat // min ≤ value ∧ value ≤ max }
  | millis min max => { value : Nat // min ≤ value ∧ value ≤ max }
  | unit min max => { value : ℚ // min ≤ value ∧ value ≤ max }
  | contextProfile => ContextProfile
  | hookMode => HookMode
  | notificationTurns => NotificationTurns
  | modelName => ModelName
  | provider => Provider
  | cloudflareAccountId => CloudflareAccountId
  | endpoint => EndpointOverride
  | credential => Empty
  | skillReferences => List SkillReference
  | trustedAbsoluteRoots => List TrustedAbsoluteRoot
  | skillRoots => List SkillRoot
  | reserved => Empty

def ValueKind.mergesAsUnion : ValueKind → Bool
  | skillReferences => true
  | skillRoots => true
  | _ => false

def boundedList (max : Nat) (items : List String) : Except ConfigProblem (List String) :=
  if items.length > max then .error .tooManyItems else .ok items

def noDuplicates {α : Type} [DecidableEq α] (items : List α) : Except ConfigProblem Unit :=
  if items.Nodup then .ok () else .error .duplicateItem

/-- `skill_root`: only the trusted user may grant a root outside the workspace. -/
def skillRoot (layer : ConfigLayer) (text : String) : Except RootError SkillRoot :=
  if layer = .trustedUser ∧ isAbsolute text = true then
    (TrustedAbsoluteRoot.parse text).map .trustedAbsolute
  else (WorkspaceRelativeRoot.parse text).map .workspaceRelative

def parseItems {α : Type} [DecidableEq α] (max : Nat) (parse : String → Except ConfigProblem α)
    (items : List String)
    : Except ConfigProblem (List α) := do
  let items ← boundedList max items
  let parsed ← items.mapM parse
  noDuplicates parsed
  return parsed

def boundedInteger (bits min max : Nat) (value : Int)
    : Except ConfigProblem { value : Nat // min ≤ value ∧ value ≤ max } :=
  if value < 0 ∨ 2 ^ bits ≤ value then .error .outOfRange
  else if inside : min ≤ value.toNat ∧ value.toNat ≤ max then .ok ⟨value.toNat, inside⟩
  else .error .outOfRange

def boundedUnit (min max : ℚ) (value : RawFloat)
    : Except ConfigProblem { value : ℚ // min ≤ value ∧ value ≤ max } :=
  match value with
  | .nonFinite => .error .nonFinite
  | .finite value =>
      if inside : min ≤ value ∧ value ≤ max then .ok ⟨value, inside⟩ else .error .outOfRange

/-- What is parsed from a text, where it is valid. -/
def orInvalid {α : Type} (parsed : Option α) : Except ConfigProblem α :=
  match parsed with
  | some value => .ok value
  | none => .error .invalidValue

def typedValue (layer : ConfigLayer) : (kind : ValueKind) → RawValue → Except ConfigProblem kind.Typed
  | .bool, .bool value => .ok value
  | .count min max, .integer value => boundedInteger 32 min max value
  | .millis min max, .integer value => boundedInteger 64 min max value
  | .unit min max, .float value => boundedUnit min max value
  | .unit min max, .integer value =>
      if value.natAbs ≤ 2 ^ 53 then boundedUnit min max (.finite value) else .error .outOfRange
  | .contextProfile, .string text => orInvalid (ContextProfile.parse text)
  | .hookMode, .string text => orInvalid (HookMode.parse text)
  | .notificationTurns, .string text => orInvalid (NotificationTurns.parse text)
  | .provider, .string text => orInvalid (Provider.parse text)
  | .cloudflareAccountId, .string text => CloudflareAccountId.parse text
  | .modelName, .string text => boundedText maxModelBytes text
  | .endpoint, .string text =>
      (boundedText maxStringValueBytes text).map fun origin => {
        origin := origin.text
        cloudflareAccount := none
        nativeCloudflare := false : EndpointOverride }
  | .skillReferences, .stringList items => parseItems maxListItems (boundedText maxIdBytes) items
  | .trustedAbsoluteRoots, .stringList items =>
      parseItems maxRoots (fun item => (TrustedAbsoluteRoot.parse item).mapError .invalidRoot) items
  | .skillRoots, .stringList items =>
      parseItems maxRoots (fun item => (skillRoot layer item).mapError .invalidRoot) items
  | .credential, _ => .error .invalidValue
  | .reserved, _ => .error .invalidValue
  | _, _ => .error .wrongType

end SkillRanker.Config
