import SkillRanker.Config.Layers

/-! The effective configuration: the layers merged over the defaults, each within its authority. -/

namespace SkillRanker.Config

-- Effects

structure EffectFlags where
  offline : Bool
  allowNetwork : Bool
  dryRun : Bool
  noCache : Bool
  noLedger : Bool
  noPersist : Bool
  saveCase : Bool
deriving DecidableEq, Repr

inductive FlagConflict
  | offlineWithAllowNetwork
  | dryRunWithAllowNetwork
  | saveCaseWithDryRun
  | saveCaseWithNoPersist
deriving DecidableEq, Repr

def EffectFlags.conflicts (flags : EffectFlags) : List FlagConflict :=
  (if flags.offline && flags.allowNetwork then [.offlineWithAllowNetwork] else [])
    ++ (if flags.dryRun && flags.allowNetwork then [.dryRunWithAllowNetwork] else [])
    ++ (if flags.saveCase && flags.dryRun then [.saveCaseWithDryRun] else [])
    ++ if flags.saveCase && flags.noPersist then [.saveCaseWithNoPersist] else []

/-- Flags without conflicts. -/
structure EffectPolicy where
  flags : EffectFlags
  agree : flags.conflicts = []

def EffectPolicy.fromFlags (flags : EffectFlags) : Except (List FlagConflict) EffectPolicy :=
  if agree : flags.conflicts = [] then .ok { flags, agree } else .error flags.conflicts

inductive NetworkBlock
  | offline
  | dryRun
deriving DecidableEq, Repr

def EffectPolicy.networkBlock (effects : EffectPolicy) : Option NetworkBlock :=
  if effects.flags.offline then some .offline
  else if effects.flags.dryRun then some .dryRun
  else none

inductive ConsentSource
  | allowNetworkFlag
  | trustedUserConfig
deriving DecidableEq, Repr

/-- The authority for remote transmission. -/
inductive NetworkConsent
  | authorized (source : ConsentSource)
  | notAuthorized
  | blocked (block : NetworkBlock)
deriving DecidableEq, Repr

def NetworkConsent.derive (effects : EffectPolicy) (trustedUserEnabled : Bool) : NetworkConsent :=
  match effects.networkBlock with
  | some block => .blocked block
  | none =>
      if effects.flags.allowNetwork then .authorized .allowNetworkFlag
      else if trustedUserEnabled then .authorized .trustedUserConfig
      else .notAuthorized

-- Effective values

structure EffectiveConfig where
  networkEnabled : Bool
  provider : Provider
  endpoint : Option EndpointOverride
  cloudflareAccount : Option CloudflareAccountId
  nativeEndpoint : Option EndpointOverride
  model : ModelName
  hookMode : HookMode
  notificationTurns : NotificationTurns
  contextProfile : ContextProfile
  noTools : Bool
  messages : Nat
  budgetChars : Nat
  transcriptRoots : List TrustedAbsoluteRoot
  top : Nat
  shortlist : Nat
  gate : ℚ
  fits : ℚ
  wFit : ℚ
  wPrior : ℚ
  wPhase : ℚ
  timeoutMs : Nat
  excludeSkills : List SkillReference
  rosterRoots : List SkillRoot

def threeTenths : ℚ := 5404319552844595 / 18014398509481984

def EffectiveConfig.defaults : EffectiveConfig where
  networkEnabled := false
  provider := .typeSafe
  endpoint := none
  cloudflareAccount := none
  nativeEndpoint := none
  model := defaultModel
  hookMode := .shadow
  notificationTurns := .skip
  contextProfile := .standard
  noTools := false
  messages := recentNormalizedMessages
  budgetChars := renderedContextScalars
  transcriptRoots := []
  top := 5
  shortlist := 8
  gate := threeTenths
  fits := threeTenths
  wFit := 1
  wPrior := 0
  wPhase := 0
  timeoutMs := defaultInvocationDeadlineMs
  excludeSkills := []
  rosterRoots := []

def EffectiveConfig.selectedEndpoint (config : EffectiveConfig) : Option EndpointOverride :=
  match config.provider with
  | .typeSafe => config.endpoint
  | .cloudflare => config.nativeEndpoint

/-- The value would allow more disclosure or authority than the current one; settings without an order
fail closed.
-/
def EffectiveConfig.widens (config : EffectiveConfig) : (key : SettingKey) → key.Value → Bool
  | .hookMode, mode => config.hookMode.place < mode.place
  | .hookNotificationTurns, turns => config.notificationTurns.place < turns.place
  | .contextProfile, profile => config.contextProfile.place < profile.place
  | .contextNoTools, (noTools : Bool) => config.noTools && !noTools
  | .contextMessages, count => config.messages < count.1
  | .contextBudgetChars, count => config.budgetChars < count.1
  | _, _ => true

/-- `union_into`: later layers add items and never remove earlier ones. -/
def unionInto {α : Type} [DecidableEq α] (existing added : List α) : List α :=
  existing ++ added.filter (· ∉ existing)

def EffectiveConfig.apply (config : EffectiveConfig)
    : (key : SettingKey) → key.Value → EffectiveConfig
  | .networkEnabled, value => { config with networkEnabled := value }
  | .networkProxy, value => nomatch value
  | .typesafeApiKey, value => nomatch value
  | .typesafeEndpoint, value => { config with endpoint := some value }
  | .provider, value => { config with provider := value }
  | .cloudflareApiToken, value => nomatch value
  | .cloudflareAccountId, value => { config with cloudflareAccount := some value }
  | .providerModel, value => { config with model := value }
  | .hookMode, value => { config with hookMode := value }
  | .hookNotificationTurns, value => { config with notificationTurns := value }
  | .contextProfile, value => { config with contextProfile := value }
  | .contextNoTools, value => { config with noTools := value }
  | .contextMessages, value => { config with messages := value.1 }
  | .contextBudgetChars, value => { config with budgetChars := value.1 }
  | .contextTranscriptRoots, value => { config with transcriptRoots := value }
  | .rankingTop, value => { config with top := value.1 }
  | .rankingShortlist, value => { config with shortlist := value.1 }
  | .rankingGate, value => { config with gate := value.1 }
  | .rankingFits, value => { config with fits := value.1 }
  | .rankingWFit, value => { config with wFit := value.1 }
  | .rankingWPrior, value => { config with wPrior := value.1 }
  | .rankingWPhase, value => { config with wPhase := value.1 }
  | .rankingTimeoutMs, value => { config with timeoutMs := value.1 }
  | .rankingExcludeSkills, (value : List SkillReference) =>
      { config with excludeSkills := unionInto config.excludeSkills value }
  | .rosterRoots, (value : List SkillRoot) =>
      { config with rosterRoots := unionInto config.rosterRoots value }
  | .privacyRedaction, value => nomatch value
  | .privacyRawRetention, value => nomatch value

-- Merging

/-- Where an effective value comes from; a list that is merged has every layer that added to it. -/
inductive ValueSource
  | single (layer : ConfigLayer)
  | union (layers : List ConfigLayer)
deriving DecidableEq, Repr

structure MergeState where
  effective : EffectiveConfig
  sources : SettingKey → Option ValueSource
  applied : SettingKey → Option ConfigLayer
  sink : IssueSink

def MergeState.start (sink : IssueSink) : MergeState where
  effective := .defaults
  sources _ := none
  applied _ := none
  sink := sink

def MergeState.applyValue (state : MergeState) (layer : ConfigLayer) (key : SettingKey)
    (value : key.Value)
    : MergeState :=
  if key.spec.rule layer = .restrictOnly ∧ state.effective.widens key value = true then
    { state with sink := state.sink.push layer (.known key) .widensLowerLayer }
  else
    let source :=
      if key.spec.kind.mergesAsUnion then
        match state.sources key with
        | some (.union layers) =>
            .union (if layer ∈ layers then layers else layers ++ [layer])
        | _ => .union [layer]
      else .single layer
    {
      effective := state.effective.apply key value
      sources := Function.update state.sources key (some source)
      applied := Function.update state.applied key (some layer)
      sink := state.sink }

def MergeState.applyKey (layer : ConfigLayer) (validated : ValidatedLayer) (state : MergeState)
    (key : SettingKey)
    : MergeState :=
  match validated.values key with
  | some value => state.applyValue layer key value
  | none => state

def MergeState.applyLayer (state : MergeState) (layer : ConfigLayer) (validated : ValidatedLayer)
    : MergeState :=
  SettingKey.all.foldl (applyKey layer validated) state

def ConfigLayer.place : ConfigLayer → Nat
  | builtIn => 0
  | trustedUser => 1
  | project => 2
  | environment => 3
  | cli => 4

def laterLayer (left right : Option ConfigLayer) : Option ConfigLayer :=
  match left, right with
  | some left, some right => if left.place ≤ right.place then some right else some left
  | some left, none => some left
  | none, right => right

/-- More skills are returned than are shortlisted. -/
def MergeState.checkSizes (state : MergeState) : MergeState :=
  if state.effective.top > state.effective.shortlist then
    let layer :=
      (laterLayer (state.applied .rankingTop) (state.applied .rankingShortlist)).getD .builtIn
    { state with
      sink := state.sink.push layer (.known .rankingTop) (.conflict .rankingShortlist) }
  else state

def cloudflareApiOrigin : String := "https://api.cloudflare.com"

def MergeState.settleProvider (state : MergeState) : MergeState :=
  if state.effective.provider = .cloudflare then
    let state :=
      match state.applied .providerModel with
      | none => { state with effective := { state.effective with model := defaultCloudflareModel } }
      | some layer =>
          if state.effective.model.text ≠ defaultCloudflareModel.text then
            { state with sink := state.sink.push layer (.known .providerModel) (.conflict .provider) }
          else state
    { state with
      effective := { state.effective with
        nativeEndpoint := some {
          origin := cloudflareApiOrigin
          cloudflareAccount := state.effective.cloudflareAccount
          nativeCloudflare := true } } }
  else state

def merge (user project environment cli : ValidatedLayer) (sink : IssueSink) : MergeState :=
  let state := (MergeState.start sink).applyLayer .trustedUser user
  let state := state.applyLayer .project project
  let state := state.applyLayer .environment environment
  let state := state.applyLayer .cli cli
  state.checkSizes.settleProvider

-- Resolution

/-- Bounded inputs for one resolution. -/
structure ConfigSources where
  trustedUser : List (String × RawValue)
  project : List (String × RawValue)
  environment : List (OsText × OsText)
  cli : List (String × RawValue)

/-- A validated snapshot for one invocation. -/
structure ResolvedConfig where
  effective : EffectiveConfig
  sources : SettingKey → Option ValueSource
  typesafeCredential : Option ApiCredential
  cloudflareCredential : Option ApiCredential
  environment : ValidatedLayer
  cloudflareIssues : List ConfigIssue
  cli : ValidatedLayer
  generation : Nat

def selectedCloudflareErrors (effective : EffectiveConfig) (issues : List ConfigIssue)
    (sink : IssueSink)
    : IssueSink :=
  if effective.provider = .cloudflare then
    issues.foldl (fun sink issue => sink.push issue.layer issue.key issue.problem) sink
  else sink

variable (parseF64 : String → Option RawFloat)

def ResolvedConfig.resolve (sources : ConfigSources) (generation : Nat)
    : Except ConfigErrors ResolvedConfig :=
  let (user, sink) := validateEntries .trustedUser sources.trustedUser .empty
  let (project, sink) := validateEntries .project sources.project sink
  let (environment, sink) := validateEnvironment parseF64 sources.environment sink
  let (cli, sink) := validateEntries .cli sources.cli sink
  let merged := merge user project environment.layer cli sink
  let sink := selectedCloudflareErrors merged.effective environment.cloudflareIssues merged.sink
  sink.finish {
    effective := merged.effective
    sources := merged.sources
    typesafeCredential := environment.typesafeCredential
    cloudflareCredential := environment.cloudflareCredential
    environment := environment.layer
    cloudflareIssues := environment.cloudflareIssues
    cli := cli
    generation := generation }

def ResolvedConfig.credential (config : ResolvedConfig) : Option ApiCredential :=
  match config.effective.provider with
  | .typeSafe => config.typesafeCredential
  | .cloudflare => config.cloudflareCredential

def ResolvedConfig.networkConsent (config : ResolvedConfig) (effects : EffectPolicy)
    : NetworkConsent :=
  .derive effects config.effective.networkEnabled

end SkillRanker.Config
