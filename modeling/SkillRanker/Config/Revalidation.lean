import SkillRanker.Config.Resolution

/-! Receipts of a policy, and their comparison at the boundaries of an invocation. -/

namespace SkillRanker.Config

-- Boundaries

/-- What the work of an invocation was conditioned on. -/
inductive PolicyField
  | networkConsent
  | credentialPresence
  | provider
  | providerAccount
  | endpoint
  | model
  | contextProfile
  | noTools
  | messages
  | budgetChars
  | transcriptRoots
  | top
  | shortlist
  | gate
  | fits
  | wFit
  | wPrior
  | wPhase
  | excludeSkills
  | rosterRoots
  | hookMode
deriving DecidableEq, Repr

inductive PublicationKind
  | advisory
  | explicit
deriving DecidableEq, Repr

inductive PolicyBoundary
  /-- Before every attempt, also one that is repeated. -/
  | providerAdmission
  | cliPublication (kind : PublicationKind)
  | hookPublication (kind : PublicationKind)
deriving DecidableEq, Repr

def admissionFields : List PolicyField :=
  [.networkConsent, .credentialPresence, .provider, .providerAccount, .endpoint, .model,
    .contextProfile, .noTools, .messages, .budgetChars, .transcriptRoots, .shortlist, .excludeSkills,
    .rosterRoots]

def advisoryFields : List PolicyField :=
  [.provider, .providerAccount, .top, .shortlist, .gate, .fits, .wFit, .wPrior, .wPhase,
    .excludeSkills, .rosterRoots]

def hookAdvisoryFields : List PolicyField :=
  [.provider, .providerAccount, .top, .shortlist, .gate, .fits, .wFit, .wPrior, .wPhase,
    .excludeSkills, .rosterRoots, .hookMode]

def PolicyBoundary.dependencies : PolicyBoundary → List PolicyField
  | providerAdmission => admissionFields
  | cliPublication .advisory => advisoryFields
  | cliPublication .explicit => [.rosterRoots]
  | hookPublication .advisory => hookAdvisoryFields
  | hookPublication .explicit => [.rosterRoots, .hookMode]

-- Receipts

inductive CredentialStatus
  | absent
  | presentFromEnvironment
deriving DecidableEq, Repr

def ResolvedConfig.credentialStatus (config : ResolvedConfig) : CredentialStatus :=
  if config.credential.isSome then .presentFromEnvironment else .absent

def configSchemaVersion : Nat := 1

structure PolicyReceipt where
  schemaVersion : Nat
  generation : Nat
  effects : EffectPolicy
  networkConsent : NetworkConsent
  credential : CredentialStatus
  effective : EffectiveConfig
  sources : SettingKey → Option ValueSource

def ResolvedConfig.receipt (config : ResolvedConfig) (effects : EffectPolicy) : PolicyReceipt where
  schemaVersion := configSchemaVersion
  generation := config.generation
  effects := effects
  networkConsent := config.networkConsent effects
  credential := config.credentialStatus
  effective := config.effective
  sources := config.sources

inductive Revalidation
  | unchanged
  | superseded (changed : List PolicyField)
  | invalidConfiguration
deriving DecidableEq, Repr

def EffectiveConfig.selectedAccount (config : EffectiveConfig) : Option CloudflareAccountId :=
  config.selectedEndpoint.bind EndpointOverride.cloudflareAccount

def PolicyReceipt.changes (receipt current : PolicyReceipt) : PolicyField → Bool
  | .networkConsent => receipt.networkConsent ≠ current.networkConsent
  | .credentialPresence => receipt.credential ≠ current.credential
  | .provider => receipt.effective.provider ≠ current.effective.provider
  | .providerAccount => receipt.effective.selectedAccount ≠ current.effective.selectedAccount
  | .endpoint => receipt.effective.selectedEndpoint ≠ current.effective.selectedEndpoint
  | .model => receipt.effective.model ≠ current.effective.model
  | .contextProfile => receipt.effective.contextProfile ≠ current.effective.contextProfile
  | .noTools => receipt.effective.noTools ≠ current.effective.noTools
  | .messages => receipt.effective.messages ≠ current.effective.messages
  | .budgetChars => receipt.effective.budgetChars ≠ current.effective.budgetChars
  | .transcriptRoots => receipt.effective.transcriptRoots ≠ current.effective.transcriptRoots
  | .top => receipt.effective.top ≠ current.effective.top
  | .shortlist => receipt.effective.shortlist ≠ current.effective.shortlist
  | .gate => receipt.effective.gate ≠ current.effective.gate
  | .fits => receipt.effective.fits ≠ current.effective.fits
  | .wFit => receipt.effective.wFit ≠ current.effective.wFit
  | .wPrior => receipt.effective.wPrior ≠ current.effective.wPrior
  | .wPhase => receipt.effective.wPhase ≠ current.effective.wPhase
  | .excludeSkills => receipt.effective.excludeSkills ≠ current.effective.excludeSkills
  | .rosterRoots => receipt.effective.rosterRoots ≠ current.effective.rosterRoots
  | .hookMode => receipt.effective.hookMode ≠ current.effective.hookMode

/-- Compares effective values, neither their sources nor their generations. -/
def PolicyReceipt.compare (receipt current : PolicyReceipt) (boundary : PolicyBoundary)
    : Revalidation :=
  let changed := boundary.dependencies.filter (receipt.changes current)
  if changed = [] then .unchanged else .superseded changed

/-- Nothing is changed exactly if no dependency is. -/
theorem PolicyReceipt.compare_eq_unchanged {receipt current : PolicyReceipt}
    {boundary : PolicyBoundary}
    : receipt.compare current boundary = .unchanged
      ↔ ∀ field ∈ boundary.dependencies, receipt.changes current field = false := by
  unfold compare
  dsimp only
  split
  next none =>
    have none := List.filter_eq_nil_iff.mp none
    exact ⟨fun _ field mem => Bool.eq_false_iff.mpr (none field mem), fun _ => rfl⟩
  next some =>
    constructor
    · intro superseded
      cases superseded
    · intro none
      refine absurd (List.filter_eq_nil_iff.mpr ?_) some
      exact fun field mem => Bool.eq_false_iff.mp (none field mem)

-- Revalidation

/-- Reads the layers of the files again, with the environment and the command line of before. -/
def ResolvedConfig.reresolveFiles (config : ResolvedConfig)
    (trustedUser project : List (String × RawValue)) (generation : Nat)
    : Except ConfigErrors ResolvedConfig :=
  let (user, sink) := validateEntries .trustedUser trustedUser .empty
  let (project, sink) := validateEntries .project project sink
  let merged := merge user project config.environment config.cli sink
  let sink := selectedCloudflareErrors merged.effective config.cloudflareIssues merged.sink
  sink.finish { config with
    effective := merged.effective
    sources := merged.sources
    generation := generation }

def ResolvedConfig.revalidate (config : ResolvedConfig) (receipt : PolicyReceipt)
    (trustedUser project : List (String × RawValue)) (generation : Nat) (boundary : PolicyBoundary)
    : Revalidation :=
  match config.reresolveFiles trustedUser project generation with
  | .ok current => receipt.compare (current.receipt receipt.effects) boundary
  | .error _ => .invalidConfiguration

-- Resolving again from new sources

-- Passes that report

/-- A pass leaves every sink as it is, or an issue in every sink. -/
def Reporting (pass : IssueSink → IssueSink) : Prop :=
  (∀ sink, pass sink = sink) ∨ ∀ sink, (pass sink).issues ≠ []

theorem reporting_id : Reporting id := .inl fun _ => rfl

variable (layer : ConfigLayer)

theorem reporting_push (key : IssueKey) (problem : ConfigProblem)
    : Reporting fun sink => sink.push layer key problem :=
  .inr fun sink => sink.push_issues_ne_nil layer key problem

namespace Reporting

variable {pass : IssueSink → IssueSink}

/-- A pass forgets no issue. -/
theorem keeps (reports : Reporting pass) {sink : IssueSink} (found : sink.issues ≠ [])
    : (pass sink).issues ≠ [] := by
  rcases reports with same | issue
  · rwa [same sink]
  · exact issue sink

theorem comp {next : IssueSink → IssueSink} (second : Reporting next) (first : Reporting pass)
    : Reporting fun sink => next (pass sink) := by
  rcases first with same | issue
  · simpa only [same] using second
  · exact .inr fun sink => second.keeps (issue sink)

/-- A pass that leaves no issue has nothing to report. -/
theorem silent (reports : Reporting pass) {sink : IssueSink} (none : (pass sink).issues = [])
    (other : IssueSink)
    : pass other = other := by
  rcases reports with same | issue
  · exact same other
  · exact absurd none (issue sink)

end Reporting

/-- A loop reports if its steps do, and go on alike whatever was reported, by induction on the items.
-/
theorem foldl_reporting {α ι : Type} {step : α × IssueSink → ι → α × IssueSink}
    (own
      : ∀ state item first second,
          (step (state, first) item).1 = (step (state, second) item).1)
    (reports : ∀ state item, Reporting fun sink => (step (state, sink) item).2)
    (items : List ι) (state : α)
    : Reporting fun sink => (items.foldl step (state, sink)).2 := by
  induction items generalizing state with
  | nil => exact reporting_id
  | cons item rest ih =>
      have split (sink : IssueSink)
          : (List.foldl step (state, sink) (item :: rest)).2
            = (rest.foldl step ((step (state, .empty) item).1, (step (state, sink) item).2)).2 := by
        rw [List.foldl_cons, own state item .empty sink]
      simp only [split]
      exact (ih _).comp (reports state item)

-- Layers

theorem LayerBuilder.insert_reporting (builder : LayerBuilder) (key : SettingKey)
    (raw : Except ConfigProblem RawValue)
    : Reporting fun sink => (builder.insert key raw sink).2 := by
  unfold insert firstOccurrence checkRule
  by_cases seen : key ∈ builder.seen
  · simp only [if_pos seen]
    exact reporting_push _ _ _
  · simp only [if_neg seen]
    by_cases forbidden : key.spec.rule builder.layer ≠ .forbidden
    · simp only [if_pos forbidden]
      cases raw.bind (typedValue builder.layer key.spec.kind) with
      | ok value => exact reporting_id
      | error problem => exact reporting_push _ _ _
    · simp only [if_neg forbidden]
      exact reporting_push _ _ _

theorem validateEntries_reporting (entries : List (String × RawValue))
    : Reporting fun sink => (validateEntries layer entries sink).2 := by
  unfold validateEntries
  split
  · exact reporting_push _ _ _
  · refine foldl_reporting ?_ ?_ entries (LayerBuilder.new layer)
    · rintro builder ⟨name, raw⟩ first second
      dsimp only
      split
      · exact LayerBuilder.insert_sink _ _ _ _ _
      · rfl
    · rintro builder ⟨name, raw⟩
      dsimp only
      split
      · exact LayerBuilder.insert_reporting _ _ _
      · exact reporting_push _ _ _

variable (parseF64 : String → Option RawFloat)

/-- To read a variable reports its problem; with a Cloudflare input that waits for the provider. -/
theorem ValidatedEnvironment.read_reporting (environment : ValidatedEnvironment) (key : SettingKey)
    (text : Except ConfigProblem String)
    : Reporting fun sink => (environment.read parseF64 key text sink).2 := by
  unfold read
  dsimp only
  split
  · unfold LayerBuilder.firstOccurrence
    by_cases seen : key ∈ environment.builder.seen
    · simp only [if_pos seen]
      exact reporting_push _ _ _
    · simp only [if_neg seen]
      cases text.bind ApiCredential.fromEnvironment with
      | ok found =>
          dsimp only
          split <;> exact reporting_id
      | error problem =>
          dsimp only
          split
          · exact reporting_id
          · exact reporting_push _ _ _
  · split
    · unfold LayerBuilder.firstOccurrence checkRule
      by_cases seen : key ∈ environment.builder.seen
      · simp only [if_pos seen]
        exact reporting_push _ _ _
      · simp only [if_neg seen]
        by_cases forbidden : key.spec.rule .environment ≠ .forbidden
        · simp only [if_pos forbidden]
          split <;> exact reporting_id
        · simp only [if_neg forbidden]
          exact reporting_push _ _ _
    · exact LayerBuilder.insert_reporting _ _ _

theorem ValidatedEnvironment.readAll_reporting (recognized : Nat)
    (environment : ValidatedEnvironment) (vars : List (OsText × OsText))
    : Reporting fun sink => (readAll parseF64 recognized environment sink vars).2 := by
  induction vars generalizing recognized environment with
  | nil => exact reporting_id
  | cons entry rest ih =>
      obtain ⟨name, value⟩ := entry
      cases name with
      | other bytes =>
          simp only [readAll]
          cases (OsText.other bytes).startsWith ['S', 'R', '_'] with
          | true => exact (ih _ _).comp (reporting_push _ _ _)
          | false => exact ih _ _
      | utf8 name =>
          simp only [readAll]
          cases SettingKey.fromEnvironmentName name with
          | none =>
              cases (OsText.utf8 name).startsWith ['S', 'R', '_'] with
              | true => exact (ih _ _).comp (reporting_push _ _ _)
              | false => exact ih _ _
          | some key =>
              dsimp only
              split
              · exact reporting_push _ _ _
              · have same (sink : IssueSink) (text : Except ConfigProblem String)
                    : (environment.read parseF64 key text sink).1
                      = (environment.read parseF64 key text .empty).1 :=
                  environment.read_sink parseF64 key text sink .empty
                simp only [same]
                exact (ih _ _).comp (environment.read_reporting parseF64 key _)

theorem validateEnvironment_reporting (vars : List (OsText × OsText))
    : Reporting fun sink => (validateEnvironment parseF64 vars sink).2 :=
  ValidatedEnvironment.readAll_reporting parseF64 0 .start vars

theorem selectedCloudflareErrors_reporting (effective : EffectiveConfig) (issues : List ConfigIssue)
    : Reporting (selectedCloudflareErrors effective issues) := by
  unfold selectedCloudflareErrors
  split
  · induction issues with
    | nil => exact reporting_id
    | cons issue rest ih => exact ih.comp (reporting_push _ _ _)
  · exact reporting_id

-- Merging

def MergeState.Keeps (step : MergeState → MergeState) : Prop :=
  ∀ state, state.sink.issues ≠ [] → (step state).sink.issues ≠ []

theorem MergeState.applyKey_keeps (validated : ValidatedLayer) (key : SettingKey)
    : Keeps fun state => applyKey layer validated state key := by
  intro state found
  unfold applyKey
  cases validated.values key with
  | none => exact found
  | some value =>
      change (state.applyValue layer key value).sink.issues ≠ []
      unfold applyValue
      split
      · exact IssueSink.push_issues_ne_nil _ _ _ _
      · exact found

/-- A layer forgets no issue, by induction on the keys. -/
theorem MergeState.applyLayer_keeps (validated : ValidatedLayer)
    : Keeps fun state => state.applyLayer layer validated := by
  intro state found
  unfold applyLayer
  induction SettingKey.all generalizing state with
  | nil => exact found
  | cons key rest ih => exact ih _ (applyKey_keeps layer validated key state found)

theorem MergeState.checkSizes_keeps : Keeps checkSizes := by
  intro state found
  unfold checkSizes
  split
  · exact IssueSink.push_issues_ne_nil _ _ _ _
  · exact found

theorem MergeState.settleProvider_keeps : Keeps settleProvider := by
  intro state found
  unfold settleProvider
  split
  · dsimp only
    split
    · exact found
    · split
      · exact IssueSink.push_issues_ne_nil _ _ _ _
      · exact found
  · exact found

theorem merge_keeps (user project environment cli : ValidatedLayer) {sink : IssueSink}
    (found : sink.issues ≠ [])
    : (merge user project environment cli sink).sink.issues ≠ [] := by
  unfold merge
  apply MergeState.settleProvider_keeps
  apply MergeState.checkSizes_keeps
  apply MergeState.applyLayer_keeps
  apply MergeState.applyLayer_keeps
  apply MergeState.applyLayer_keeps
  apply MergeState.applyLayer_keeps
  exact found

-- Resolutions

variable {parseF64}

/-- An accepted resolution has found no issue in its environment and its command line, and keeps what
they give.
-/
structure ResolvedConfig.KeepsProcess (parseF64 : String → Option RawFloat)
    (sources : ConfigSources) (config : ResolvedConfig)
    : Prop where
  environmentSilent
    : ∀ sink, (validateEnvironment parseF64 sources.environment sink).2 = sink
  cliSilent : ∀ sink, (validateEntries .cli sources.cli sink).2 = sink
  environment
    : ∀ sink, (validateEnvironment parseF64 sources.environment sink).1.layer = config.environment
  typesafeCredential
    : ∀ sink,
        (validateEnvironment parseF64 sources.environment sink).1.typesafeCredential
        = config.typesafeCredential
  cloudflareCredential
    : ∀ sink,
        (validateEnvironment parseF64 sources.environment sink).1.cloudflareCredential
        = config.cloudflareCredential
  cloudflareIssues
    : ∀ sink,
        (validateEnvironment parseF64 sources.environment sink).1.cloudflareIssues
        = config.cloudflareIssues
  cli : ∀ sink, (validateEntries .cli sources.cli sink).1 = config.cli

theorem IssueSink.finish_eq_ok {α : Type} {sink : IssueSink} {value result : α}
    : sink.finish value = .ok result ↔ sink.issues = [] ∧ value = result := by
  unfold finish
  split
  next none =>
    rw [Except.ok.injEq]
    exact ⟨fun same => ⟨none, same⟩, And.right⟩
  next some =>
    constructor
    · intro finished
      cases finished
    · intro both
      exact absurd both.1 some

variable {sources : ConfigSources} {config : ResolvedConfig}

theorem ResolvedConfig.keepsProcess {generation : Nat}
    (resolved : resolve parseF64 sources generation = .ok config)
    : config.KeepsProcess parseF64 sources := by
  unfold resolve at resolved
  dsimp only at resolved
  obtain ⟨none, same⟩ := IssueSink.finish_eq_ok.mp resolved
  have merged := not_imp_not.mp (selectedCloudflareErrors_reporting _ _).keeps none
  have cli := not_imp_not.mp (merge_keeps _ _ _ _) merged
  have environment := not_imp_not.mp (validateEntries_reporting .cli sources.cli).keeps cli
  have layer (sink : IssueSink) := validateEnvironment_sink parseF64 sources.environment sink
    (validateEntries .project sources.project
      (validateEntries .trustedUser sources.trustedUser .empty).2).2
  rw [← same]
  exact {
    environmentSilent :=
      (validateEnvironment_reporting parseF64 sources.environment).silent environment
    cliSilent := (validateEntries_reporting .cli sources.cli).silent cli
    environment := fun sink => congrArg ValidatedEnvironment.layer (layer sink)
    typesafeCredential := fun sink =>
      congrArg ValidatedEnvironment.typesafeCredential (layer sink)
    cloudflareCredential := fun sink =>
      congrArg ValidatedEnvironment.cloudflareCredential (layer sink)
    cloudflareIssues := fun sink => congrArg ValidatedEnvironment.cloudflareIssues (layer sink)
    cli := fun sink => validateEntries_sink .cli sources.cli sink _
  }

/-- To read the files again gives what a resolution of the new sources gives, issues included. -/
theorem ResolvedConfig.reresolveFiles_eq_resolve {generation : Nat}
    (resolved : resolve parseF64 sources generation = .ok config)
    (trustedUser project : List (String × RawValue)) (next : Nat)
    : config.reresolveFiles trustedUser project next
      = resolve parseF64 { sources with trustedUser, project } next := by
  have keeps := keepsProcess resolved
  unfold reresolveFiles resolve
  dsimp only
  rw [keeps.environmentSilent, keeps.cliSilent, keeps.environment, keeps.cli,
    keeps.cloudflareIssues, keeps.typesafeCredential, keeps.cloudflareCredential]

/-- The generation of a resolution decides nothing but itself. -/
theorem ResolvedConfig.resolve_generation (sources : ConfigSources) (generation next : Nat)
    : resolve parseF64 sources next
      = (resolve parseF64 sources generation).map fun config =>
          { config with generation := next } := by
  unfold resolve
  dsimp only
  unfold IssueSink.finish
  split <;> rfl

/-- Nothing is changed between two policies of one consent, credential status and values. -/
theorem PolicyReceipt.compare_of_same {receipt current : PolicyReceipt}
    (consent : receipt.networkConsent = current.networkConsent)
    (credential : receipt.credential = current.credential)
    (effective : receipt.effective = current.effective) (boundary : PolicyBoundary)
    : receipt.compare current boundary = .unchanged := by
  refine compare_eq_unchanged.mpr fun field _ => ?_
  cases field <;> simp [changes, consent, credential, effective]

/-- What reading the files again gives for new files, and for the files of before. -/
structure RevalidatesAs (parseF64 : String → Option RawFloat) (sources : ConfigSources)
    (config : ResolvedConfig)
    : Prop where
  succeeds
    : ∀ trustedUser project next generation,
        (∃ current, config.reresolveFiles trustedUser project next = .ok current)
        ↔ ∃ fresh,
            ResolvedConfig.resolve parseF64 { sources with trustedUser, project } generation
            = .ok fresh
  agrees
    : ∀ trustedUser project next generation current fresh,
        config.reresolveFiles trustedUser project next = .ok current
        → ResolvedConfig.resolve parseF64 { sources with trustedUser, project } generation
          = .ok fresh
        → current.effective = fresh.effective
          ∧ current.sources = fresh.sources
          ∧ current.credential = fresh.credential
  unchanged
    : ∀ effects next boundary,
        config.revalidate (config.receipt effects) sources.trustedUser sources.project next boundary
        = .unchanged

/-- An accepted resolution revalidates as a complete resolution of the new sources. -/
theorem revalidatesAs_of_resolved {sources : ConfigSources} {generation : Nat}
    {config : ResolvedConfig}
    (resolved : ResolvedConfig.resolve parseF64 sources generation = .ok config)
    : RevalidatesAs parseF64 sources config where
  succeeds := by
    intro trustedUser project next other
    rw [ResolvedConfig.reresolveFiles_eq_resolve resolved,
      ResolvedConfig.resolve_generation _ next other]
    cases ResolvedConfig.resolve parseF64 { sources with trustedUser, project } next with
    | ok fresh => exact ⟨fun _ => ⟨_, rfl⟩, fun _ => ⟨_, rfl⟩⟩
    | error errors =>
        constructor
        · rintro ⟨_, failed⟩
          cases failed
        · rintro ⟨_, failed⟩
          cases failed
  agrees := by
    intro trustedUser project next other current fresh again first
    rw [ResolvedConfig.reresolveFiles_eq_resolve resolved] at again
    rw [ResolvedConfig.resolve_generation _ next other, again] at first
    cases first
    exact ⟨rfl, rfl, rfl⟩
  unchanged := by
    intro effects next boundary
    unfold ResolvedConfig.revalidate
    rw [ResolvedConfig.reresolveFiles_eq_resolve resolved,
      ResolvedConfig.resolve_generation _ generation next, resolved]
    exact PolicyReceipt.compare_of_same rfl rfl rfl boundary

/-- A user with a list, a project with another, and a provider that the environment selects. -/
def routedSources : ConfigSources where
  trustedUser := [("context.messages", .integer 6), ("ranking.exclude_skills", .stringList ["a"])]
  project := [("ranking.exclude_skills", .stringList ["b"])]
  environment :=
    [
      (.utf8 "SR_PROVIDER", .utf8 "cloudflare"),
      (.utf8 "CLOUDFLARE_ACCOUNT_ID", .utf8 "0123456789abcdef0123456789ABCDEF")
    ]
  cli := [("context.no_tools", .bool true)]

theorem routedSources_revalidate
    : ∃ config,
        ResolvedConfig.resolve (fun _ => none) routedSources 0 = .ok config
        ∧ RevalidatesAs (fun _ => none) routedSources config := by
  have resolves : (ResolvedConfig.resolve (fun _ => none) routedSources 0).isOk = true := by
    decide +kernel
  cases resolved : ResolvedConfig.resolve (fun _ => none) routedSources 0 with
  | error errors =>
      rw [resolved] at resolves
      cases resolves
  | ok config => exact ⟨config, rfl, revalidatesAs_of_resolved resolved⟩

end SkillRanker.Config
