import SkillRanker.Config.Values

/-! The registry of the settings: their paths, their kinds, and which layer may set them. -/

namespace SkillRanker.Config

inductive LayerRule
  | forbidden
  | allowed
  /-- Only to keep or to narrow the value of the lower layers. -/
  | restrictOnly
deriving DecidableEq, Repr

inductive Sensitivity
  | ordinary
  | disclosureVolume
  | networkConsent
  | credential
  | routing
  | transcriptAccess
  | skillRootAccess
  | adviceInjection
  | reserved
deriving DecidableEq, Repr

structure KeySpec where
  path : String
  environment : Option String
  cliFlag : Option String
  kind : ValueKind
  sensitivity : Sensitivity
  trustedUser : LayerRule
  project : LayerRule
  environmentRule : LayerRule
  cli : LayerRule
  managedPolicy : Bool

def KeySpec.rule (spec : KeySpec) : ConfigLayer → LayerRule
  | .builtIn => .forbidden
  | .trustedUser => spec.trustedUser
  | .project => spec.project
  | .environment => spec.environmentRule
  | .cli => spec.cli

/-- `spec`: a setting of files, with its rules for the trusted user, the project, the environment and
the command line.
-/
def keySpec (path : String) (kind : ValueKind) (sensitivity : Sensitivity)
    (trustedUser project environmentRule cli : LayerRule)
    : KeySpec where
  path := path
  environment := none
  cliFlag := none
  kind := kind
  sensitivity := sensitivity
  trustedUser := trustedUser
  project := project
  environmentRule := environmentRule
  cli := cli
  managedPolicy := false

def KeySpec.env (spec : KeySpec) (name : String) : KeySpec := { spec with environment := some name }

def KeySpec.flag (spec : KeySpec) (name : String) : KeySpec := { spec with cliFlag := some name }

def KeySpec.managed (spec : KeySpec) : KeySpec := { spec with managedPolicy := true }

def recentNormalizedMessages : Nat := 12

def renderedContextScalars : Nat := 12000

def maxRankSize : Nat := 32

def defaultInvocationDeadlineMs : Nat := 3000

def defaultOutputCleanupReserveMs : Nat := 200

def minTimeoutMs : Nat := defaultOutputCleanupReserveMs + 1

def maxTimeoutMs : Nat := 60000

def SettingKey.spec : SettingKey → KeySpec
  | networkEnabled =>
      keySpec "network.enabled" .bool .networkConsent .allowed .forbidden .forbidden .forbidden
  | networkProxy =>
      keySpec "network.proxy" .reserved .reserved .forbidden .forbidden .forbidden .forbidden
  | typesafeApiKey =>
      (keySpec "typesafe.api_key" .credential .credential .forbidden .forbidden .allowed
        .forbidden).env "TYPESAFE_API_KEY"
  | typesafeEndpoint =>
      (keySpec "typesafe.endpoint" .endpoint .routing .forbidden .forbidden .allowed
        .forbidden).env "TYPESAFE_ENDPOINT"
  | provider =>
      (keySpec "provider.kind" .provider .routing .allowed .forbidden .allowed
        .forbidden).env "SR_PROVIDER"
  | cloudflareApiToken =>
      (keySpec "cloudflare.api_token" .credential .credential .forbidden .forbidden .allowed
        .forbidden).env "CLOUDFLARE_API_TOKEN"
  | cloudflareAccountId =>
      (keySpec "cloudflare.account_id" .cloudflareAccountId .routing .forbidden .forbidden .allowed
        .forbidden).env "CLOUDFLARE_ACCOUNT_ID"
  | providerModel =>
      (keySpec "provider.model" .modelName .routing .allowed .forbidden .allowed
        .forbidden).env "SR_MODEL"
  | hookMode =>
      (keySpec "hook.mode" .hookMode .adviceInjection .allowed .forbidden .forbidden
        .restrictOnly).flag "--shadow"
  | hookNotificationTurns =>
      keySpec "hook.notification_turns" .notificationTurns .disclosureVolume .allowed .restrictOnly
        .forbidden .forbidden
  | contextProfile =>
      (keySpec "context.profile" .contextProfile .disclosureVolume .allowed .restrictOnly .forbidden
        .allowed).flag "--context-profile"
  | contextNoTools =>
      (keySpec "context.no_tools" .bool .disclosureVolume .allowed .restrictOnly .forbidden
        .restrictOnly).flag "--no-tools"
  | contextMessages =>
      ((keySpec "context.messages" (.count 1 recentNormalizedMessages) .disclosureVolume .allowed
        .restrictOnly .allowed .allowed).env "SR_MESSAGES").flag "--messages"
  | contextBudgetChars =>
      ((keySpec "context.budget_chars" (.count 1 renderedContextScalars) .disclosureVolume .allowed
        .restrictOnly .allowed .allowed).env "SR_BUDGET_CHARS").flag "--budget-chars"
  | contextTranscriptRoots =>
      keySpec "context.transcript_roots" .trustedAbsoluteRoots .transcriptAccess .allowed .forbidden
        .forbidden .forbidden
  | rankingTop =>
      ((keySpec "ranking.top" (.count 1 maxRankSize) .ordinary .allowed .allowed .allowed
        .allowed).env "SR_TOP").flag "--top"
  | rankingShortlist =>
      ((keySpec "ranking.shortlist" (.count 1 maxRankSize) .ordinary .allowed .allowed .allowed
        .allowed).env "SR_SHORTLIST").flag "--shortlist"
  | rankingGate =>
      (((keySpec "ranking.gate" (.unit 0 1) .ordinary .allowed .allowed .allowed
        .allowed).env "SR_GATE").flag "--gate").managed
  | rankingFits =>
      (((keySpec "ranking.fits" (.unit 0 1) .ordinary .allowed .allowed .allowed
        .allowed).env "SR_FITS").flag "--fits").managed
  | rankingWFit =>
      (keySpec "ranking.w_fit" (.unit 0 4) .ordinary .allowed .allowed .forbidden .forbidden).managed
  | rankingWPrior =>
      (keySpec "ranking.w_prior" (.unit 0 (1 / 2)) .ordinary .allowed .allowed .forbidden
        .forbidden).managed
  | rankingWPhase =>
      (keySpec "ranking.w_phase" (.unit 0 1) .ordinary .allowed .allowed .forbidden
        .forbidden).managed
  | rankingTimeoutMs =>
      ((keySpec "ranking.timeout_ms" (.millis minTimeoutMs maxTimeoutMs) .ordinary .allowed .forbidden
        .allowed .allowed).env "SR_TIMEOUT_MS").flag "--timeout-ms"
  | rankingExcludeSkills =>
      keySpec "ranking.exclude_skills" .skillReferences .ordinary .allowed .allowed .forbidden
        .forbidden
  | rosterRoots =>
      keySpec "roster.roots" .skillRoots .skillRootAccess .allowed .allowed .forbidden .forbidden
  | privacyRedaction =>
      keySpec "privacy.redaction" .reserved .reserved .forbidden .forbidden .forbidden .forbidden
  | privacyRawRetention =>
      keySpec "privacy.raw_retention" .reserved .reserved .forbidden .forbidden .forbidden .forbidden

/-- `SettingKey::ALL` -/
def SettingKey.all : List SettingKey :=
  [networkEnabled, networkProxy, typesafeApiKey, typesafeEndpoint, provider, cloudflareApiToken,
    cloudflareAccountId, providerModel, hookMode, hookNotificationTurns, contextProfile,
    contextNoTools, contextMessages, contextBudgetChars, contextTranscriptRoots, rankingTop,
    rankingShortlist, rankingGate, rankingFits, rankingWFit, rankingWPrior, rankingWPhase,
    rankingTimeoutMs, rankingExcludeSkills, rosterRoots, privacyRedaction, privacyRawRetention]

def SettingKey.fromPath (path : String) : Option SettingKey := all.find? (·.spec.path = path)

def SettingKey.fromEnvironmentName (name : String) : Option SettingKey :=
  all.find? (·.spec.environment = some name)

abbrev SettingKey.Value (key : SettingKey) : Type := key.spec.kind.Typed

/-- The settings that decide what the program may reach, and where: no project may set them. -/
def SettingKey.isAuthority : SettingKey → Bool
  | networkEnabled => true
  | typesafeApiKey => true
  | typesafeEndpoint => true
  | provider => true
  | cloudflareApiToken => true
  | cloudflareAccountId => true
  | providerModel => true
  | contextTranscriptRoots => true
  | rankingTimeoutMs => true
  | _ => false

theorem SettingKey.forbidden_of_isAuthority {key : SettingKey} (authority : key.isAuthority = true)
    : key.spec.rule .project = .forbidden := by
  cases key <;> first
    | rfl
    | exact absurd authority Bool.false_ne_true

/-- A setting of authority is never only restricted: a layer sets it or does not. -/
theorem SettingKey.rule_of_isAuthority {key : SettingKey} (authority : key.isAuthority = true)
    (layer : ConfigLayer)
    : key.spec.rule layer ≠ .restrictOnly := by
  intro restricted
  cases key <;> first
    | exact absurd authority Bool.false_ne_true
    | (cases layer <;> cases restricted)

end SkillRanker.Config
