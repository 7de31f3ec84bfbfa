import SkillRanker.Config.Resolution

/-! A project cannot widen what the trusted user, the environment and the command line allow: the
settings of authority do not depend on it, and what it may set it only narrows.
-/

namespace SkillRanker.Config

variable {key : SettingKey} {left right : MergeState} {validated : ValidatedLayer}
  {Admitted : SkillRoot → Prop}

-- Two runs

/-- What the settings of authority come to, and whether a layer has set the model. -/
structure Authority where
  networkEnabled : Bool
  provider : Provider
  endpoint : Option EndpointOverride
  cloudflareAccount : Option CloudflareAccountId
  nativeEndpoint : Option EndpointOverride
  model : ModelName
  transcriptRoots : List TrustedAbsoluteRoot
  timeoutMs : Nat
  modelLayer : Option ConfigLayer

def MergeState.authority (state : MergeState) : Authority where
  networkEnabled := state.effective.networkEnabled
  provider := state.effective.provider
  endpoint := state.effective.endpoint
  cloudflareAccount := state.effective.cloudflareAccount
  nativeEndpoint := state.effective.nativeEndpoint
  model := state.effective.model
  transcriptRoots := state.effective.transcriptRoots
  timeoutMs := state.effective.timeoutMs
  modelLayer := state.applied .providerModel

theorem MergeState.applyValue_authority_of_other (other : key.isAuthority = false)
    (state : MergeState) (layer : ConfigLayer) (value : key.Value)
    : (state.applyValue layer key value).authority = state.authority := by
  unfold applyValue
  split
  · rfl
  · cases key <;> first
      | exact absurd other.symm Bool.false_ne_true
      | exact Empty.elim value
      | rfl

variable (state : MergeState)

/-- A value that does not widen what a layer may only restrict is applied. -/
theorem MergeState.applyValue_of_applies (layer : ConfigLayer) (value : key.Value)
    (applies
      : ¬ (key.spec.rule layer = .restrictOnly ∧ state.effective.widens key value = true))
    : (state.applyValue layer key value).effective = state.effective.apply key value
      ∧ (state.applyValue layer key value).applied
        = Function.update state.applied key (some layer) := by
  unfold applyValue
  rw [if_neg applies]
  exact ⟨rfl, rfl⟩

theorem MergeState.applyValue_authority (agree : left.authority = right.authority)
    (layer : ConfigLayer) (key : SettingKey) (value : key.Value)
    : (left.applyValue layer key value).authority
      = (right.applyValue layer key value).authority := by
  cases isAuthority : key.isAuthority with
  | false =>
      rw [applyValue_authority_of_other isAuthority, applyValue_authority_of_other isAuthority,
        agree]
  | true =>
      have unrestricted := SettingKey.rule_of_isAuthority isAuthority layer
      obtain ⟨leftEffective, leftApplied⟩ :=
        left.applyValue_of_applies layer value fun both => unrestricted both.1
      obtain ⟨rightEffective, rightApplied⟩ :=
        right.applyValue_of_applies layer value fun both => unrestricted both.1
      unfold authority at agree ⊢
      rw [leftEffective, leftApplied, rightEffective, rightApplied]
      rw [Authority.mk.injEq] at agree ⊢
      cases key <;> first
        | exact absurd isAuthority Bool.false_ne_true
        | exact Empty.elim value
        | (simp [EffectiveConfig.apply, agree] <;> rfl)

/-- Settings that no layer has are left as they are. -/
theorem MergeState.applyKey_of_none {layer : ConfigLayer} (unset : validated.values key = none)
    (state : MergeState)
    : state.applyKey layer validated key = state := by
  unfold applyKey
  rw [unset]

theorem MergeState.applyLayer_empty (layer : ConfigLayer)
    : state.applyLayer layer .empty = state := by
  unfold applyLayer
  induction SettingKey.all with
  | nil => rfl
  | cons key rest ih => exact ih

/-- The authority after a layer is told by the authority before it, by induction on the keys. -/
theorem MergeState.applyLayer_authority (agree : left.authority = right.authority)
    (layer : ConfigLayer) (validated : ValidatedLayer)
    : (left.applyLayer layer validated).authority
      = (right.applyLayer layer validated).authority := by
  unfold applyLayer
  induction SettingKey.all generalizing left right with
  | nil => exact agree
  | cons key rest ih =>
      refine ih ?_
      unfold applyKey
      cases validated.values key with
      | none => exact agree
      | some value => exact applyValue_authority agree layer key value

/-- A layer that the project may give leaves the authority as it is, by induction on the keys. -/
theorem MergeState.applyLayer_project_authority (permitted : validated.Permitted .project)
    (state : MergeState)
    : (state.applyLayer .project validated).authority = state.authority := by
  unfold applyLayer
  induction SettingKey.all generalizing state with
  | nil => rfl
  | cons key rest ih =>
      refine (ih _).trans ?_
      cases isAuthority : key.isAuthority with
      | true =>
          have unset := permitted key (SettingKey.forbidden_of_isAuthority isAuthority)
          rw [applyKey_of_none unset]
      | false =>
          unfold applyKey
          cases validated.values key with
          | none => rfl
          | some value => exact applyValue_authority_of_other isAuthority state .project value

theorem MergeState.checkSizes_effective
    : state.checkSizes.effective = state.effective ∧ state.checkSizes.applied = state.applied := by
  unfold checkSizes
  split <;> exact ⟨rfl, rfl⟩

theorem MergeState.settleProvider_authority (agree : left.authority = right.authority)
    : left.settleProvider.authority = right.settleProvider.authority := by
  have split := agree
  unfold authority at split
  rw [Authority.mk.injEq] at split
  obtain ⟨_, provider, _, account, _, model, _, _, layer⟩ := split
  unfold settleProvider
  rw [provider, layer, model]
  split
  · unfold authority at agree ⊢
    rw [Authority.mk.injEq] at agree
    cases right.applied .providerModel with
    | none => simp [agree]
    | some layer =>
        dsimp only
        split <;> simp [agree]
  · exact agree

theorem merge_authority {first second : ValidatedLayer} (firstPermitted : first.Permitted .project)
    (secondPermitted : second.Permitted .project) (user environment cli : ValidatedLayer)
    (firstSink secondSink : IssueSink)
    : (merge user first environment cli firstSink).authority
      = (merge user second environment cli secondSink).authority := by
  have start : (MergeState.start firstSink).authority = (MergeState.start secondSink).authority := rfl
  have afterUser := MergeState.applyLayer_authority start .trustedUser user
  have afterProject :=
    ((MergeState.applyLayer_project_authority firstPermitted _).trans afterUser).trans
      (MergeState.applyLayer_project_authority secondPermitted _).symm
  have afterEnvironment := MergeState.applyLayer_authority afterProject .environment environment
  have afterCli := MergeState.applyLayer_authority afterEnvironment .cli cli
  refine MergeState.settleProvider_authority ?_
  unfold MergeState.authority at afterCli ⊢
  rw [(MergeState.checkSizes_effective _).1, (MergeState.checkSizes_effective _).2,
    (MergeState.checkSizes_effective _).1, (MergeState.checkSizes_effective _).2]
  exact afterCli

variable (parseF64 : String → Option RawFloat)

structure SameAuthority (left right : ResolvedConfig) : Prop where
  networkConsent : ∀ effects, left.networkConsent effects = right.networkConsent effects
  typesafeCredential : left.typesafeCredential = right.typesafeCredential
  cloudflareCredential : left.cloudflareCredential = right.cloudflareCredential
  credential : left.credential = right.credential
  provider : left.effective.provider = right.effective.provider
  endpoint : left.effective.endpoint = right.effective.endpoint
  selectedEndpoint : left.effective.selectedEndpoint = right.effective.selectedEndpoint
  account : left.effective.cloudflareAccount = right.effective.cloudflareAccount
  model : left.effective.model = right.effective.model
  transcriptRoots : left.effective.transcriptRoots = right.effective.transcriptRoots
  timeoutMs : left.effective.timeoutMs = right.effective.timeoutMs

/-- Configurations that differ in the project alone have the same authority. -/
theorem ResolvedConfig.sameAuthority {sources : ConfigSources} {project : List (String × RawValue)}
    {generation later : Nat} {left right : ResolvedConfig}
    (first : resolve parseF64 sources generation = .ok left)
    (second : resolve parseF64 { sources with project } later = .ok right)
    : SameAuthority left right := by
  unfold resolve at first second
  dsimp only at first second
  have leftIs := IssueSink.of_finish first
  have rightIs := IssueSink.of_finish second
  rw [validateEntries_sink .cli sources.cli _ .empty,
    validateEnvironment_sink parseF64 sources.environment _ .empty] at leftIs rightIs
  have merged := merge_authority
    (validateEntries_permitted .project sources.project
      (validateEntries .trustedUser sources.trustedUser .empty).2)
    (validateEntries_permitted .project project
      (validateEntries .trustedUser sources.trustedUser .empty).2)
    (validateEntries .trustedUser sources.trustedUser .empty).1
    (validateEnvironment parseF64 sources.environment .empty).1.layer
    (validateEntries .cli sources.cli .empty).1
  have networkEnabled : left.effective.networkEnabled = right.effective.networkEnabled := by
    rw [leftIs, rightIs]
    exact congrArg Authority.networkEnabled (merged _ _)
  have provider : left.effective.provider = right.effective.provider := by
    rw [leftIs, rightIs]
    exact congrArg Authority.provider (merged _ _)
  have endpoint : left.effective.endpoint = right.effective.endpoint := by
    rw [leftIs, rightIs]
    exact congrArg Authority.endpoint (merged _ _)
  have nativeEndpoint : left.effective.nativeEndpoint = right.effective.nativeEndpoint := by
    rw [leftIs, rightIs]
    exact congrArg Authority.nativeEndpoint (merged _ _)
  have typesafeCredential : left.typesafeCredential = right.typesafeCredential := by
    rw [leftIs, rightIs]
  have cloudflareCredential : left.cloudflareCredential = right.cloudflareCredential := by
    rw [leftIs, rightIs]
  exact {
    networkConsent := fun effects => congrArg (NetworkConsent.derive effects) networkEnabled
    typesafeCredential := typesafeCredential
    cloudflareCredential := cloudflareCredential
    credential := by
      unfold credential
      rw [provider, typesafeCredential, cloudflareCredential]
    provider := provider
    endpoint := endpoint
    selectedEndpoint := by
      unfold EffectiveConfig.selectedEndpoint
      rw [provider, endpoint, nativeEndpoint]
    account := by
      rw [leftIs, rightIs]
      exact congrArg Authority.cloudflareAccount (merged _ _)
    model := by
      rw [leftIs, rightIs]
      exact congrArg Authority.model (merged _ _)
    transcriptRoots := by
      rw [leftIs, rightIs]
      exact congrArg Authority.transcriptRoots (merged _ _)
    timeoutMs := by
      rw [leftIs, rightIs]
      exact congrArg Authority.timeoutMs (merged _ _) }

-- Narrowing

/-- A configuration discloses no more than another one, keeps what that one excludes and reads, and
reads further roots only if they are admitted.
-/
structure Narrows (Admitted : SkillRoot → Prop) (narrow wide : EffectiveConfig) : Prop where
  notificationTurns : narrow.notificationTurns.place ≤ wide.notificationTurns.place
  contextProfile : narrow.contextProfile.place ≤ wide.contextProfile.place
  noTools : wide.noTools = true → narrow.noTools = true
  messages : narrow.messages ≤ wide.messages
  budgetChars : narrow.budgetChars ≤ wide.budgetChars
  excludeSkills : wide.excludeSkills ⊆ narrow.excludeSkills
  rosterRoots : wide.rosterRoots ⊆ narrow.rosterRoots
  transcriptRoots : narrow.transcriptRoots = wide.transcriptRoots
  admitted : ∀ root ∈ narrow.rosterRoots, root ∈ wide.rosterRoots ∨ Admitted root

theorem Narrows.refl (Admitted : SkillRoot → Prop) (config : EffectiveConfig)
    : Narrows Admitted config config where
  notificationTurns := Nat.le_refl _
  contextProfile := Nat.le_refl _
  noTools := id
  messages := Nat.le_refl _
  budgetChars := Nat.le_refl _
  excludeSkills := List.Subset.refl _
  rosterRoots := List.Subset.refl _
  transcriptRoots := rfl
  admitted _ mem := .inl mem

theorem Narrows.trans {first second third : EffectiveConfig} (left : Narrows Admitted first second)
    (right : Narrows Admitted second third)
    : Narrows Admitted first third where
  notificationTurns := left.notificationTurns.trans right.notificationTurns
  contextProfile := left.contextProfile.trans right.contextProfile
  noTools := left.noTools ∘ right.noTools
  messages := left.messages.trans right.messages
  budgetChars := left.budgetChars.trans right.budgetChars
  excludeSkills _ listed := left.excludeSkills (right.excludeSkills listed)
  rosterRoots _ listed := left.rosterRoots (right.rosterRoots listed)
  transcriptRoots := left.transcriptRoots.trans right.transcriptRoots
  admitted root mem := by
    rcases left.admitted root mem with before | admitted
    · exact right.admitted root before
    · exact .inr admitted

theorem subset_unionInto {α : Type} [DecidableEq α] (existing added : List α)
    : existing ⊆ unionInto existing added :=
  List.subset_append_left _ _

theorem mem_unionInto {α : Type} [DecidableEq α] {existing added : List α} {item : α}
    : item ∈ unionInto existing added ↔ item ∈ existing ∨ item ∈ added := by
  unfold unionInto
  rw [List.mem_append, List.mem_filter]
  constructor
  · rintro (before | ⟨new, _⟩)
    · exact .inl before
    · exact .inr new
  · intro listed
    by_cases before : item ∈ existing
    · exact .inl before
    · exact .inr ⟨listed.resolve_left before, by simpa using before⟩

def grantedRoots : (key : SettingKey) → key.Value → List SkillRoot
  | .rosterRoots, (roots : List SkillRoot) => roots
  | _, _ => []

/-- A value of the project narrows what is there, by cases on the setting: some it may not set, some it
may only restrict, and the lists grow.
-/
theorem MergeState.applyValue_narrows (permitted : key.spec.rule .project ≠ .forbidden)
    (value : key.Value) (admitted : ∀ root ∈ grantedRoots key value, Admitted root)
    : Narrows Admitted (state.applyValue .project key value).effective state.effective := by
  by_cases restricted
      : key.spec.rule .project = .restrictOnly ∧ state.effective.widens key value = true
  · unfold applyValue
    rw [if_pos restricted]
    exact .refl _ _
  · rw [(state.applyValue_of_applies .project value restricted).1]
    obtain ⟨turns, profile, tools, messages, budget, excluded, roots, transcripts, listed⟩ :=
      Narrows.refl Admitted state.effective
    cases key with
    | hookNotificationTurns =>
        have kept : ¬ state.effective.notificationTurns.place < NotificationTurns.place value :=
          fun wider => restricted ⟨rfl, decide_eq_true wider⟩
        exact ⟨Nat.le_of_not_lt kept, profile, tools, messages, budget, excluded, roots,
          transcripts, listed⟩
    | contextProfile =>
        have kept : ¬ state.effective.contextProfile.place < ContextProfile.place value :=
          fun wider => restricted ⟨rfl, decide_eq_true wider⟩
        exact ⟨turns, Nat.le_of_not_lt kept, tools, messages, budget, excluded, roots,
          transcripts, listed⟩
    | contextNoTools =>
        have kept : state.effective.noTools = true → value = true := by
          intro withheld
          by_contra shown
          refine restricted ⟨rfl, ?_⟩
          unfold EffectiveConfig.widens
          rw [withheld, Bool.eq_false_iff.mpr shown]
          rfl
        exact ⟨turns, profile, kept, messages, budget, excluded, roots, transcripts, listed⟩
    | contextMessages =>
        have kept : ¬ state.effective.messages < value.1 :=
          fun wider => restricted ⟨rfl, decide_eq_true wider⟩
        exact ⟨turns, profile, tools, Nat.le_of_not_lt kept, budget, excluded, roots, transcripts,
          listed⟩
    | contextBudgetChars =>
        have kept : ¬ state.effective.budgetChars < value.1 :=
          fun wider => restricted ⟨rfl, decide_eq_true wider⟩
        exact ⟨turns, profile, tools, messages, Nat.le_of_not_lt kept, excluded, roots,
          transcripts, listed⟩
    | rankingExcludeSkills =>
        exact ⟨turns, profile, tools, messages, budget, subset_unionInto _ _, roots, transcripts,
          listed⟩
    | rosterRoots =>
        refine ⟨turns, profile, tools, messages, budget, excluded, subset_unionInto _ _,
          transcripts, fun root mem => ?_⟩
        exact (mem_unionInto.mp mem).imp_right (admitted root)
    | rankingTop | rankingShortlist | rankingGate | rankingFits | rankingWFit | rankingWPrior
    | rankingWPhase =>
        exact ⟨turns, profile, tools, messages, budget, excluded, roots, transcripts, listed⟩
    | networkEnabled | networkProxy | typesafeApiKey | typesafeEndpoint | provider
    | cloudflareApiToken | cloudflareAccountId | providerModel | hookMode | contextTranscriptRoots
    | rankingTimeoutMs | privacyRedaction | privacyRawRetention => exact absurd rfl permitted

/-- The layer of the project narrows what is there, by induction on the settings. -/
theorem MergeState.applyLayer_narrows (permitted : validated.Permitted .project)
    (admitted
      : ∀ key value, validated.values key = some value
        → ∀ root ∈ grantedRoots key value, Admitted root)
    (state : MergeState)
    : Narrows Admitted (state.applyLayer .project validated).effective state.effective := by
  unfold applyLayer
  induction SettingKey.all generalizing state with
  | nil => exact .refl _ _
  | cons key rest ih =>
      refine (ih _).trans ?_
      unfold applyKey
      cases set : validated.values key with
      | none => exact .refl _ _
      | some value =>
          refine state.applyValue_narrows (fun forbidden => ?_) value (admitted key value set)
          rw [permitted key forbidden] at set
          cases set

theorem MergeState.settleProvider_narrows {narrow wide : MergeState}
    (narrows : Narrows Admitted narrow.effective wide.effective)
    : Narrows Admitted narrow.settleProvider.effective wide.settleProvider.effective := by
  -- the defaults of a provider touch its model and its route alone
  have apart (state : MergeState)
      : ∃ model nativeEndpoint, state.settleProvider.effective
        = { state.effective with model, nativeEndpoint } := by
    unfold settleProvider
    split
    · dsimp only
      split
      · exact ⟨_, _, rfl⟩
      · split <;> exact ⟨_, _, rfl⟩
    · exact ⟨_, _, rfl⟩
  obtain ⟨_, _, narrowIs⟩ := apart narrow
  obtain ⟨_, _, wideIs⟩ := apart wide
  rw [narrowIs, wideIs]
  obtain ⟨turns, profile, tools, messages, budget, excluded, roots, transcripts, listed⟩ := narrows
  exact ⟨turns, profile, tools, messages, budget, excluded, roots, transcripts, listed⟩

def ListedRoot (entries : List (String × RawValue)) (root : SkillRoot) : Prop :=
  ∃ items text inside, ("roster.roots", .stringList items) ∈ entries ∧ text ∈ items
    ∧ root = .workspaceRelative inside ∧ WorkspaceRelativeRoot.parse text = .ok inside
    ∧ StaysInside 0 (components text)

theorem mem_of_mapM {α β ε : Type} {parse : α → Except ε β} {items : List α} {parsed : List β}
    (mapped : items.mapM parse = .ok parsed) {result : β} (mem : result ∈ parsed)
    : ∃ item ∈ items, parse item = .ok result := by
  induction items generalizing parsed with
  | nil =>
      cases mapped
      exact absurd mem List.not_mem_nil
  | cons first rest ih =>
      rw [List.mapM_cons] at mapped
      cases head : parse first with
      | error problem =>
          rw [head] at mapped
          cases mapped
      | ok value =>
          cases tail : rest.mapM parse with
          | error problem =>
              rw [head, tail] at mapped
              cases mapped
          | ok values =>
              rw [head, tail] at mapped
              cases mapped
              rcases List.mem_cons.mp mem with rfl | later
              · exact ⟨first, List.mem_cons_self, head⟩
              · obtain ⟨item, listed, is⟩ := ih tail later
                exact ⟨item, List.mem_cons_of_mem _ listed, is⟩

theorem mem_of_parseItems {α : Type} [DecidableEq α] {max : Nat}
    {parse : String → Except ConfigProblem α} {items : List String} {parsed : List α}
    (accepted : parseItems max parse items = .ok parsed) {result : α} (mem : result ∈ parsed)
    : ∃ item ∈ items, parse item = .ok result := by
  unfold parseItems boundedList at accepted
  split at accepted
  · cases accepted
  · cases mapped : items.mapM parse with
    | error problem =>
        simp only [mapped, bind, Except.bind] at accepted
        cases accepted
    | ok values =>
        simp only [mapped, bind, Except.bind] at accepted
        cases duplicates : noDuplicates values with
        | error problem =>
            rw [duplicates] at accepted
            cases accepted
        | ok _ =>
            rw [duplicates] at accepted
            cases accepted
            exact mem_of_mapM mapped mem

theorem skillRoot_project {text : String} {root : SkillRoot}
    (accepted : (skillRoot .project text).mapError ConfigProblem.invalidRoot = .ok root)
    : ∃ inside, root = .workspaceRelative inside
        ∧ WorkspaceRelativeRoot.parse text = .ok inside := by
  unfold skillRoot at accepted
  rw [if_neg fun trusted => nomatch trusted.1] at accepted
  cases parsed : WorkspaceRelativeRoot.parse text with
  | error problem =>
      rw [parsed] at accepted
      cases accepted
  | ok inside =>
      rw [parsed] at accepted
      cases accepted
      exact ⟨inside, rfl, rfl⟩

theorem grantedRoots_listed {entries : List (String × RawValue)}
    (comesFrom : validated.ComesFrom .project entries) (key : SettingKey) (value : key.Value)
    (set : validated.values key = some value)
    : ∀ root ∈ grantedRoots key value, ListedRoot entries root := by
  intro root mem
  cases key with
  | rosterRoots =>
      obtain ⟨name, raw, entry, named, typed⟩ := comesFrom .rosterRoots value set
      have path := List.find?_some named
      obtain rfl : "roster.roots" = name := of_decide_eq_true path
      cases raw with
      | stringList items =>
          obtain ⟨text, listed, parsed⟩ := mem_of_parseItems typed mem
          obtain ⟨inside, rfl, is⟩ := skillRoot_project parsed
          exact ⟨items, text, inside, entry, listed, rfl, is, WorkspaceRelativeRoot.staysInside is⟩
      | bool _ => cases typed
      | integer _ => cases typed
      | float _ => cases typed
      | string _ => cases typed
  | _ => exact absurd mem List.not_mem_nil

-- Projects cannot widen

/-- Configurations that differ in the project alone have the same authority; and a project merged over
the trusted user narrows what the user has set, and adds only roots of the workspace that it lists.
-/
theorem project_cannot_widen
    : (∀ (sources : ConfigSources) project generation later left right,
        ResolvedConfig.resolve parseF64 sources generation = .ok left
          → ResolvedConfig.resolve parseF64 { sources with project } later = .ok right
            → SameAuthority left right)
      ∧ ∀ (user : ValidatedLayer) project projectSink sink,
        Narrows (ListedRoot project)
          (merge user (validateEntries .project project projectSink).1 .empty .empty sink).effective
          (merge user .empty .empty .empty sink).effective := by
  refine ⟨fun sources project generation later left right first second =>
    ResolvedConfig.sameAuthority parseF64 first second, fun user project projectSink sink => ?_⟩
  have narrowed := MergeState.applyLayer_narrows
    (validateEntries_permitted .project project projectSink)
    (grantedRoots_listed (validateEntries_comesFrom .project project projectSink))
    ((MergeState.start sink).applyLayer .trustedUser user)
  unfold merge
  dsimp only
  rw [MergeState.applyLayer_empty, MergeState.applyLayer_empty, MergeState.applyLayer_empty,
    MergeState.applyLayer_empty, MergeState.applyLayer_empty]
  refine MergeState.settleProvider_narrows ?_
  rw [(MergeState.checkSizes_effective _).1, (MergeState.checkSizes_effective _).1]
  exact narrowed

def twoProjects : ConfigSources where
  trustedUser := [("network.enabled", .bool true), ("context.messages", .integer 6)]
  project := [("context.messages", .integer 4), ("roster.roots", .stringList ["./skills/"])]
  environment := [(.utf8 "TYPESAFE_API_KEY", .utf8 "key"), (.utf8 "HOME", .utf8 "/home")]
  cli := [("context.no_tools", .bool true)]

def userOver (project : ValidatedLayer) : EffectiveConfig :=
  (merge (validateEntries .trustedUser twoProjects.trustedUser .empty).1 project .empty .empty
    .empty).effective

/-- Both projects resolve, with the same authority; and the one that restricts narrows what the
user has set.
-/
theorem twoProjects_sameAuthority
    : ∃ left right,
      ResolvedConfig.resolve (fun _ => none) twoProjects 0 = .ok left
        ∧ ResolvedConfig.resolve (fun _ => none) { twoProjects with project := [] } 1 = .ok right
        ∧ SameAuthority left right
        ∧ Narrows (ListedRoot twoProjects.project)
          (userOver (validateEntries .project twoProjects.project .empty).1) (userOver .empty)
        ∧ (userOver .empty).messages = 6
        ∧ (userOver (validateEntries .project twoProjects.project .empty).1).messages = 4
        ∧ (userOver (validateEntries .project twoProjects.project .empty).1).rosterRoots.length
          = (userOver .empty).rosterRoots.length + 1 := by
  have accepted {sources : ConfigSources} {generation : Nat}
      (resolves
        : (ResolvedConfig.resolve (fun _ => none) sources generation).isOk = true)
      : ∃ resolved, ResolvedConfig.resolve (fun _ => none) sources generation = .ok resolved := by
    cases result : ResolvedConfig.resolve (fun _ => none) sources generation with
    | error errors =>
        rw [result] at resolves
        cases resolves
    | ok resolved => exact ⟨resolved, rfl⟩
  have withProject : (ResolvedConfig.resolve (fun _ => none) twoProjects 0).isOk = true := by
    decide +kernel
  have without
      : (ResolvedConfig.resolve (fun _ => none) { twoProjects with project := [] } 1).isOk = true := by
    decide +kernel
  obtain ⟨left, first⟩ := accepted withProject
  obtain ⟨right, second⟩ := accepted without
  obtain ⟨same, narrows⟩ := project_cannot_widen fun _ => none
  exact ⟨left, right, first, second, same twoProjects [] 0 1 left right first second,
    narrows _ _ _ _, by decide +kernel, by decide +kernel, by decide +kernel⟩

end SkillRanker.Config
