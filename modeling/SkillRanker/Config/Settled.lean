import Mathlib.Data.List.Nodup
import SkillRanker.Config.Revalidation

/-! What holds of the values of every accepted resolution: no list has a member twice, and the routes
are those that the layers can give.
-/

namespace SkillRanker.Config

-- Values

/-- A list of a setting has no member twice, and a configured endpoint is an origin alone. -/
def SettledValue : (key : SettingKey) → key.Value → Prop
  | .typesafeEndpoint, (endpoint : EndpointOverride) =>
      endpoint.cloudflareAccount = none ∧ endpoint.nativeCloudflare = false
  | .contextTranscriptRoots, (roots : List TrustedAbsoluteRoot) => roots.Nodup
  | .rankingExcludeSkills, (skills : List SkillReference) => skills.Nodup
  | .rosterRoots, (roots : List SkillRoot) => roots.Nodup
  | _, _ => True

theorem nodup_of_parseItems {α : Type} [DecidableEq α] {max : Nat}
    {parse : String → Except ConfigProblem α} {items : List String} {parsed : List α}
    (done : parseItems max parse items = .ok parsed)
    : parsed.Nodup := by
  unfold parseItems noDuplicates at done
  cases bounded : boundedList max items with
  | error problem =>
      rw [bounded] at done
      cases done
  | ok items =>
      rw [bounded] at done
      cases mapped : items.mapM parse with
      | error problem =>
          simp [bind, Except.bind, mapped] at done
      | ok values =>
          simp only [bind, Except.bind, mapped] at done
          split at done
          · cases done
          next checked =>
            split at checked
            next nodup =>
              cases done
              exact nodup
            · cases checked

variable {key : SettingKey}

theorem settledValue_of_typedValue {layer : ConfigLayer} {raw : RawValue} {value : key.Value}
    (typed : typedValue layer key.spec.kind raw = .ok value)
    : SettledValue key value := by
  cases key with
  | typesafeEndpoint =>
      cases raw with
      | string text =>
          change (boundedText maxStringValueBytes text).map _ = .ok value at typed
          cases bounded : boundedText maxStringValueBytes text with
          | error problem =>
              rw [bounded] at typed
              cases typed
          | ok origin =>
              rw [bounded] at typed
              cases typed
              exact ⟨rfl, rfl⟩
      | bool | integer | float | stringList => cases typed
  | contextTranscriptRoots =>
      cases raw with
      | stringList items => exact nodup_of_parseItems typed
      | bool | integer | float | string => cases typed
  | rankingExcludeSkills =>
      cases raw with
      | stringList items => exact nodup_of_parseItems typed
      | bool | integer | float | string => cases typed
  | rosterRoots =>
      cases raw with
      | stringList items => exact nodup_of_parseItems typed
      | bool | integer | float | string => cases typed
  | _ => trivial

-- Layers

def ValidatedLayer.Settled (validated : ValidatedLayer) : Prop :=
  ∀ key value, validated.values key = some value → SettledValue key value

theorem ValidatedLayer.settled_empty : ValidatedLayer.empty.Settled := by
  intro key value set
  cases set

variable {builder : LayerBuilder}

theorem LayerBuilder.settled_record (settled : builder.validated.Settled) {value : key.Value}
    (new : SettledValue key value)
    : (builder.record key value).validated.Settled := by
  intro other set is
  by_cases same : other = key
  · subst same
    rw [builder.record_self] at is
    rwa [← Option.some.inj is]
  · rw [builder.record_of_ne same] at is
    exact settled other set is

theorem LayerBuilder.settled_insert (settled : builder.validated.Settled) (key : SettingKey)
    (raw : Except ConfigProblem RawValue) (sink : IssueSink)
    : (builder.insert key raw sink).1.validated.Settled := by
  unfold insert firstOccurrence checkRule
  by_cases seen : key ∈ builder.seen
  · rwa [if_pos seen]
  · rw [if_neg seen]
    dsimp only
    by_cases forbidden : key.spec.rule builder.layer ≠ .forbidden
    · rw [if_pos forbidden]
      dsimp only
      split
      next value typed =>
        cases raw with
        | error problem => cases typed
        | ok given =>
            have new : SettledValue key value := settledValue_of_typedValue typed
            exact settled_record settled new
      · exact settled
    · rw [if_neg forbidden]
      exact settled

theorem validateEntries_settled (layer : ConfigLayer) (entries : List (String × RawValue))
    (sink : IssueSink)
    : (validateEntries layer entries sink).1.Settled := by
  unfold validateEntries
  split
  · exact ValidatedLayer.settled_empty
  · dsimp only
    refine List.foldlRecOn (motive := fun state : LayerBuilder × IssueSink =>
      state.1.validated.Settled) entries _ ValidatedLayer.settled_empty ?_
    rintro ⟨builder, sink⟩ settled ⟨name, raw⟩ _
    dsimp only
    split
    · exact LayerBuilder.settled_insert settled _ _ _
    · exact settled

variable {parseF64 : String → Option RawFloat}
variable {environment : ValidatedEnvironment}

theorem ValidatedEnvironment.settled_read (settled : environment.layer.Settled) (key : SettingKey)
    (text : Except ConfigProblem String) (sink : IssueSink)
    : (environment.read parseF64 key text sink).1.layer.Settled := by
  unfold read
  dsimp only
  split
  · unfold LayerBuilder.firstOccurrence
    by_cases seen : key ∈ environment.builder.seen
    · rwa [if_pos seen]
    · rw [if_neg seen]
      dsimp only
      split
      · split <;> exact settled
      · split <;> exact settled
  · split
    · unfold LayerBuilder.firstOccurrence checkRule
      by_cases seen : key ∈ environment.builder.seen
      · rwa [if_pos seen]
      · rw [if_neg seen]
        dsimp only
        by_cases forbidden : key.spec.rule .environment ≠ .forbidden
        · rw [if_pos forbidden]
          dsimp only
          split
          next value typed =>
            cases raw : text.bind (environmentRaw parseF64 key.spec.kind) with
            | error problem =>
                rw [raw] at typed
                cases typed
            | ok given =>
                rw [raw] at typed
                have new : SettledValue key value := settledValue_of_typedValue typed
                exact LayerBuilder.settled_record settled new
          · exact settled
        · rw [if_neg forbidden]
          exact settled
    · exact LayerBuilder.settled_insert settled _ _ _

/-- The values of the environment are settled, by induction on the variables. -/
theorem ValidatedEnvironment.settled_readAll (recognized : Nat)
    (settled : environment.layer.Settled) (vars : List (OsText × OsText)) (sink : IssueSink)
    : (readAll parseF64 recognized environment sink vars).1.layer.Settled := by
  induction vars generalizing recognized environment sink with
  | nil => exact settled
  | cons entry rest ih =>
      obtain ⟨name, value⟩ := entry
      unfold readAll
      dsimp only
      split
      · exact ih _ settled _
      · split
        · exact ih _ settled _
        · split
          · exact settled
          · exact ih _ (settled_read settled _ _ _) _

theorem validateEnvironment_settled (vars : List (OsText × OsText)) (sink : IssueSink)
    : (validateEnvironment parseF64 vars sink).1.layer.Settled := by
  have start : ValidatedEnvironment.start.layer.Settled := ValidatedLayer.settled_empty
  exact ValidatedEnvironment.settled_readAll 0 start vars sink

-- Effective values

/-- No list has a member twice, and a configured endpoint is an origin alone. -/
structure EffectiveConfig.Settled (config : EffectiveConfig) : Prop where
  endpoint
    : ∀ endpoint ∈ config.endpoint,
        endpoint.cloudflareAccount = none ∧ endpoint.nativeCloudflare = false
  transcriptRoots : config.transcriptRoots.Nodup
  excludeSkills : config.excludeSkills.Nodup
  rosterRoots : config.rosterRoots.Nodup

theorem EffectiveConfig.settled_defaults : EffectiveConfig.defaults.Settled where
  endpoint _ mem := nomatch mem
  transcriptRoots := .nil
  excludeSkills := .nil
  rosterRoots := .nil

theorem nodup_unionInto {α : Type} [DecidableEq α] {existing added : List α}
    (first : existing.Nodup) (second : added.Nodup)
    : (unionInto existing added).Nodup := by
  unfold unionInto
  refine List.nodup_append.mpr ⟨first, second.filter _, ?_⟩
  intro one mem other mem' same
  have absent := (List.mem_filter.mp mem').2
  rw [decide_eq_true_eq, ← same] at absent
  exact absent mem

theorem EffectiveConfig.settled_apply {config : EffectiveConfig} (settled : config.Settled)
    {value : key.Value} (new : SettledValue key value)
    : (config.apply key value).Settled := by
  obtain ⟨endpoint, transcriptRoots, excludeSkills, rosterRoots⟩ := settled
  cases key with
  | typesafeEndpoint =>
      refine ⟨?_, transcriptRoots, excludeSkills, rosterRoots⟩
      rintro _ ⟨⟩
      exact new
  | contextTranscriptRoots => exact ⟨endpoint, new, excludeSkills, rosterRoots⟩
  | rankingExcludeSkills =>
      exact ⟨endpoint, transcriptRoots, nodup_unionInto excludeSkills new, rosterRoots⟩
  | rosterRoots => exact ⟨endpoint, transcriptRoots, excludeSkills, nodup_unionInto rosterRoots new⟩
  | networkProxy | typesafeApiKey | cloudflareApiToken | privacyRedaction | privacyRawRetention =>
      exact nomatch value
  | _ => exact ⟨endpoint, transcriptRoots, excludeSkills, rosterRoots⟩

theorem MergeState.settled_applyLayer {state : MergeState} (settled : state.effective.Settled)
    (layer : ConfigLayer) {validated : ValidatedLayer} (own : validated.Settled)
    : (state.applyLayer layer validated).effective.Settled := by
  unfold applyLayer
  induction SettingKey.all generalizing state with
  | nil => exact settled
  | cons key rest ih =>
      refine ih ?_
      unfold applyKey
      cases set : validated.values key with
      | none => exact settled
      | some value =>
          change (state.applyValue layer key value).effective.Settled
          unfold applyValue
          split
          · exact settled
          · exact EffectiveConfig.settled_apply settled (own key value set)

def EffectiveConfig.Routed (config : EffectiveConfig) : Prop :=
  config.provider = .cloudflare
    → config.nativeEndpoint
      = some {
          origin := cloudflareApiOrigin
          cloudflareAccount := config.cloudflareAccount
          nativeCloudflare := true }

theorem MergeState.settleProvider_routed {state : MergeState} (settled : state.effective.Settled)
    : state.settleProvider.effective.Settled ∧ state.settleProvider.effective.Routed := by
  obtain ⟨endpoint, transcriptRoots, excludeSkills, rosterRoots⟩ := settled
  unfold settleProvider
  split
  · dsimp only
    split
    · exact ⟨⟨endpoint, transcriptRoots, excludeSkills, rosterRoots⟩, fun _ => rfl⟩
    · split
      · exact ⟨⟨endpoint, transcriptRoots, excludeSkills, rosterRoots⟩, fun _ => rfl⟩
      · exact ⟨⟨endpoint, transcriptRoots, excludeSkills, rosterRoots⟩, fun _ => rfl⟩
  next other =>
    exact ⟨⟨endpoint, transcriptRoots, excludeSkills, rosterRoots⟩, fun is => absurd is other⟩

theorem ResolvedConfig.settled_of_resolved {sources : ConfigSources} {generation : Nat}
    {config : ResolvedConfig} (resolved : resolve parseF64 sources generation = .ok config)
    : config.effective.Settled ∧ config.effective.Routed := by
  unfold resolve at resolved
  dsimp only at resolved
  rw [IssueSink.of_finish resolved]
  unfold merge
  dsimp only
  refine MergeState.settleProvider_routed ?_
  have sizes (state : MergeState) (settled : state.effective.Settled)
      : state.checkSizes.effective.Settled := by
    unfold MergeState.checkSizes
    split <;> exact settled
  apply sizes
  apply MergeState.settled_applyLayer
  · apply MergeState.settled_applyLayer
    · apply MergeState.settled_applyLayer
      · apply MergeState.settled_applyLayer
        · exact EffectiveConfig.settled_defaults
        · exact validateEntries_settled _ _ _
      · exact validateEntries_settled _ _ _
    · exact validateEnvironment_settled _ _
  · exact validateEntries_settled _ _ _

end SkillRanker.Config
