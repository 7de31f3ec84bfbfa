import Mathlib.Data.List.Basic
import Mathlib.Logic.Function.Basic
import SkillRanker.Config.Keys

/-! The validation of a layer: every issue that is found goes into a bounded sink. -/

namespace SkillRanker.Config

-- Issues

inductive IssueKey
  | layer
  | known (key : SettingKey)
  | unknown
deriving DecidableEq, Repr

structure ConfigIssue where
  layer : ConfigLayer
  key : IssueKey
  problem : ConfigProblem
deriving DecidableEq, Repr

/-- All issues of one pass; any of them invalidates the whole policy. -/
structure ConfigErrors where
  issues : List ConfigIssue
  omitted : Nat
deriving DecidableEq, Repr

def maxReportedIssues : Nat := 32

structure IssueSink where
  issues : List ConfigIssue
  omitted : Nat

def IssueSink.empty : IssueSink where
  issues := []
  omitted := 0

def IssueSink.push (sink : IssueSink) (layer : ConfigLayer) (key : IssueKey)
    (problem : ConfigProblem)
    : IssueSink :=
  if sink.issues.length < maxReportedIssues then
    { sink with issues := sink.issues ++ [{ layer, key, problem }] }
  else { sink with omitted := sink.omitted + 1 }

def IssueSink.finish {α : Type} (sink : IssueSink) (value : α) : Except ConfigErrors α :=
  if sink.issues = [] then .ok value
  else
    .error {
      issues := sink.issues
      omitted := sink.omitted }

theorem IssueSink.push_issues_ne_nil (sink : IssueSink) (layer : ConfigLayer) (key : IssueKey)
    (problem : ConfigProblem)
    : (sink.push layer key problem).issues ≠ [] := by
  unfold push
  split
  · simp
  · next full =>
    intro none
    rw [show sink.issues = [] from none] at full
    exact full (by decide)

theorem IssueSink.of_finish {α : Type} {sink : IssueSink} {value result : α}
    (finished : sink.finish value = .ok result)
    : result = value := by
  unfold finish at finished
  split at finished
  · exact (Except.ok.inj finished).symm
  · cases finished

-- Layers

structure ValidatedLayer where
  values : (key : SettingKey) → Option key.Value

def ValidatedLayer.empty : ValidatedLayer where
  values _ := none

def checkRule (key : SettingKey) (layer : ConfigLayer) (sink : IssueSink) : Bool × IssueSink :=
  if key.spec.rule layer ≠ .forbidden then (true, sink)
  else
    let problem :=
      if key.spec.sensitivity = .reserved then ConfigProblem.reservedSetting else .forbiddenInLayer
    (false, sink.push layer (.known key) problem)

structure LayerBuilder where
  layer : ConfigLayer
  seen : List SettingKey
  validated : ValidatedLayer

def LayerBuilder.new (layer : ConfigLayer) : LayerBuilder where
  layer := layer
  seen := []
  validated := .empty

/-- Whether the key comes for the first time; otherwise the sink has its duplicate. -/
def LayerBuilder.firstOccurrence (builder : LayerBuilder) (key : SettingKey) (sink : IssueSink)
    : Bool × LayerBuilder × IssueSink :=
  if key ∈ builder.seen then (false, builder, sink.push builder.layer (.known key) .duplicateKey)
  else (true, { builder with seen := key :: builder.seen }, sink)

def LayerBuilder.record (builder : LayerBuilder) (key : SettingKey) (value : key.Value)
    : LayerBuilder :=
  { builder with
    validated := { values := Function.update builder.validated.values key (some value) } }

def LayerBuilder.insert (builder : LayerBuilder) (key : SettingKey)
    (raw : Except ConfigProblem RawValue) (sink : IssueSink)
    : LayerBuilder × IssueSink :=
  match builder.firstOccurrence key sink with
  | (false, builder, sink) => (builder, sink)
  | (true, builder, sink) =>
      match checkRule key builder.layer sink with
      | (false, sink) => (builder, sink)
      | (true, sink) =>
          match raw.bind (typedValue builder.layer key.spec.kind) with
          | .ok value => (builder.record key value, sink)
          | .error problem => (builder, sink.push builder.layer (.known key) problem)

def maxLayerEntries : Nat := 256

def maxKeyBytes : Nat := 128

def validateEntries (layer : ConfigLayer) (entries : List (String × RawValue)) (sink : IssueSink)
    : ValidatedLayer × IssueSink :=
  if entries.length > maxLayerEntries then
    (.empty, sink.push layer .layer .tooManyEntries)
  else
    let (builder, sink) := entries.foldl
      (fun (builder, sink) (name, raw) =>
        let key := if name.utf8ByteSize ≤ maxKeyBytes then SettingKey.fromPath name else none
        match key with
        | some key => builder.insert key (.ok raw) sink
        | none => (builder, sink.push layer .unknown .unknownKey))
      (LayerBuilder.new layer, sink)
    (builder.validated, sink)

-- The environment

inductive OsText
  | utf8 (text : String)
  | other (bytes : List UInt8)

def OsText.startsWith (given : OsText) (start : List Char) : Bool :=
  match given with
  | .utf8 text => start.isPrefixOf text.toList
  | .other bytes => (start.map fun char => char.toNat.toUInt8).isPrefixOf bytes

def maxCredentialBytes : Nat := 4 * 1024

structure ApiCredential where
  text : String
deriving DecidableEq

def ApiCredential.fromEnvironment (value : String)
    : Except ConfigProblem (Option ApiCredential) :=
  if value.isEmpty then .ok none
  else if value.utf8ByteSize > maxCredentialBytes then .error .valueTooLong
  else if value.toList.any forbiddenIdentityCharacter then .error .invalidValue
  else .ok (some { text := value })

variable (parseF64 : String → Option RawFloat)

def environmentRaw (kind : ValueKind) (text : String) : Except ConfigProblem RawValue :=
  let integer : Except ConfigProblem RawValue :=
    if text.isEmpty ∨ text.utf8ByteSize > 19 ∨ !text.toList.all Char.isDigit then .error .wrongType
    else
      let value := text.toList.foldl (fun value digit => value * 10 + (digit.toNat - '0'.toNat)) 0
      if value < 2 ^ 63 then .ok (.integer value) else .error .outOfRange
  match kind with
  | .bool =>
      if text = "true" then .ok (.bool true)
      else if text = "false" then .ok (.bool false)
      else .error .wrongType
  | .count _ _ => integer
  | .millis _ _ => integer
  | .unit _ _ =>
      match parseF64 text with
      | some value => .ok (.float value)
      | none => .error .wrongType
  | _ => .ok (.string text)

/-- The environment, its credentials apart; issues with the Cloudflare inputs count only where that
provider is selected.
-/
structure ValidatedEnvironment where
  builder : LayerBuilder
  typesafeCredential : Option ApiCredential
  cloudflareCredential : Option ApiCredential
  cloudflareIssues : List ConfigIssue

def ValidatedEnvironment.start : ValidatedEnvironment where
  builder := .new .environment
  typesafeCredential := none
  cloudflareCredential := none
  cloudflareIssues := []

def ValidatedEnvironment.layer (environment : ValidatedEnvironment) : ValidatedLayer :=
  environment.builder.validated

def ValidatedEnvironment.read (environment : ValidatedEnvironment) (key : SettingKey)
    (text : Except ConfigProblem String) (sink : IssueSink)
    : ValidatedEnvironment × IssueSink :=
  let issue (problem : ConfigProblem) : ConfigIssue := {
    layer := .environment
    key := .known key
    problem := problem }
  if key = .typesafeApiKey ∨ key = .cloudflareApiToken then
    match environment.builder.firstOccurrence key sink with
    | (false, builder, sink) => ({ environment with builder }, sink)
    | (true, builder, sink) =>
        let environment := { environment with builder }
        match text.bind ApiCredential.fromEnvironment with
        | .ok found =>
            if key = .typesafeApiKey then ({ environment with typesafeCredential := found }, sink)
            else ({ environment with cloudflareCredential := found }, sink)
        | .error problem =>
            if key = .cloudflareApiToken then
              ({ environment with
                cloudflareIssues := environment.cloudflareIssues ++ [issue problem] }, sink)
            else (environment, sink.push .environment (.known key) problem)
  else if key = .cloudflareAccountId then
    match environment.builder.firstOccurrence key sink with
    | (false, builder, sink) => ({ environment with builder }, sink)
    | (true, builder, sink) =>
        let environment := { environment with builder }
        match checkRule key .environment sink with
        | (false, sink) => (environment, sink)
        | (true, sink) =>
            match (text.bind (environmentRaw parseF64 key.spec.kind)).bind
                (typedValue .environment key.spec.kind) with
            | .ok value => ({ environment with builder := builder.record key value }, sink)
            | .error problem =>
                ({ environment with
                  cloudflareIssues := environment.cloudflareIssues ++ [issue problem] }, sink)
  else
    let (builder, sink) :=
      environment.builder.insert key (text.bind (environmentRaw parseF64 key.spec.kind)) sink
    ({ environment with builder }, sink)

/-- The variables one by one, with the number of those recognized before; other variables than those
of the schema are ignored, except in the namespace of the program.
-/
def ValidatedEnvironment.readAll
    : Nat → ValidatedEnvironment → IssueSink → List (OsText × OsText)
      → ValidatedEnvironment × IssueSink
  | _, environment, sink, [] => (environment, sink)
  | recognized, environment, sink, (name, value) :: rest =>
      let strictNamespace := name.startsWith ['S', 'R', '_']
      match name with
      | .other _ =>
          let sink := if strictNamespace then sink.push .environment .unknown .nonUtf8 else sink
          readAll recognized environment sink rest
      | .utf8 name =>
          match SettingKey.fromEnvironmentName name with
          | none =>
              let sink :=
                if strictNamespace then sink.push .environment .unknown .unknownKey else sink
              readAll recognized environment sink rest
          | some key =>
              if recognized + 1 > maxLayerEntries then
                (environment, sink.push .environment .layer .tooManyEntries)
              else
                let text : Except ConfigProblem String :=
                  match value with
                  | .utf8 text => .ok text
                  | .other _ => .error .nonUtf8
                let (environment, sink) := environment.read parseF64 key text sink
                readAll (recognized + 1) environment sink rest

def validateEnvironment (vars : List (OsText × OsText)) (sink : IssueSink)
    : ValidatedEnvironment × IssueSink :=
  ValidatedEnvironment.readAll parseF64 0 .start sink vars

-- What a layer holds

def ValidatedLayer.Permitted (validated : ValidatedLayer) (layer : ConfigLayer) : Prop :=
  ∀ key, key.spec.rule layer = .forbidden → validated.values key = none

variable (builder : LayerBuilder)

theorem LayerBuilder.record_self (key : SettingKey) (value : key.Value)
    : (builder.record key value).validated.values key = some value :=
  Function.update_self _ _ _

theorem LayerBuilder.record_of_ne {key other : SettingKey} (different : other ≠ key)
    (value : key.Value)
    : (builder.record key value).validated.values other = builder.validated.values other :=
  Function.update_of_ne different _ _

theorem LayerBuilder.insert_permitted {builder : LayerBuilder} {layer : ConfigLayer}
    (own : builder.layer = layer) (permitted : builder.validated.Permitted layer) (key : SettingKey)
    (raw : Except ConfigProblem RawValue) (sink : IssueSink)
    : (builder.insert key raw sink).1.layer = layer
      ∧ (builder.insert key raw sink).1.validated.Permitted layer := by
  unfold insert firstOccurrence
  split
  · next is =>
    split at is
    · cases is
      exact ⟨own, permitted⟩
    · cases is
  · next is =>
    split at is
    · cases is
    · cases is
      split
      · exact ⟨own, permitted⟩
      · next checked =>
        dsimp only at checked ⊢
        split
        · refine ⟨own, fun other forbidden => ?_⟩
          by_cases same : other = key
          · subst same
            unfold checkRule at checked
            rw [own, if_neg (not_not_intro forbidden)] at checked
            cases checked
          · exact (builder.record_of_ne same _).trans (permitted other forbidden)
        · exact ⟨own, permitted⟩

/-- A validated layer sets only what it may set, by induction from the last entry. -/
theorem validateEntries_permitted (layer : ConfigLayer) (entries : List (String × RawValue))
    (sink : IssueSink)
    : (validateEntries layer entries sink).1.Permitted layer := by
  unfold validateEntries
  split
  · exact fun _ _ => rfl
  · dsimp only
    have start : (LayerBuilder.new layer).layer = layer
        ∧ (LayerBuilder.new layer).validated.Permitted layer :=
      ⟨rfl, fun _ _ => rfl⟩
    generalize LayerBuilder.new layer = builder at start
    clear * - start
    induction entries generalizing builder sink with
    | nil => exact start.2
    | cons entry rest ih =>
        obtain ⟨own, permitted⟩ := start
        rw [List.foldl_cons]
        dsimp only
        split
        · exact ih _ _ (LayerBuilder.insert_permitted own permitted _ _ _)
        · exact ih _ _ ⟨own, permitted⟩

def ValidatedLayer.ComesFrom (validated : ValidatedLayer) (layer : ConfigLayer)
    (entries : List (String × RawValue))
    : Prop :=
  ∀ key value, validated.values key = some value
    → ∃ name raw, (name, raw) ∈ entries ∧ SettingKey.fromPath name = some key
      ∧ typedValue layer key.spec.kind raw = .ok value

theorem LayerBuilder.insert_values (key : SettingKey) (raw : RawValue) (sink : IssueSink)
    : (builder.insert key (.ok raw) sink).1.layer = builder.layer
      ∧ ((builder.insert key (.ok raw) sink).1.validated = builder.validated
        ∨ ∃ value, typedValue builder.layer key.spec.kind raw = .ok value
          ∧ (builder.insert key (.ok raw) sink).1.validated
            = (builder.record key value).validated) := by
  unfold insert firstOccurrence checkRule
  by_cases seen : key ∈ builder.seen
  · rw [if_pos seen]
    exact ⟨rfl, .inl rfl⟩
  · rw [if_neg seen]
    dsimp only
    by_cases forbidden : key.spec.rule builder.layer ≠ .forbidden
    · rw [if_pos forbidden]
      dsimp only
      split
      · next value typed => exact ⟨rfl, .inr ⟨value, typed, rfl⟩⟩
      · exact ⟨rfl, .inl rfl⟩
    · rw [if_neg forbidden]
      exact ⟨rfl, .inl rfl⟩

/-- The values of a validated layer come from its entries: every pass of the loop keeps that. -/
theorem validateEntries_comesFrom (layer : ConfigLayer) (entries : List (String × RawValue))
    (sink : IssueSink)
    : (validateEntries layer entries sink).1.ComesFrom layer entries := by
  unfold validateEntries
  split
  · intro key value set
    cases set
  · dsimp only
    refine (List.foldlRecOn (motive := fun state : LayerBuilder × IssueSink =>
      state.1.layer = layer ∧ state.1.validated.ComesFrom layer entries) entries _ ?_ ?_).2
    · refine ⟨rfl, fun key value set => ?_⟩
      cases set
    · rintro ⟨builder, sink⟩ ⟨own, comesFrom⟩ ⟨name, raw⟩ mem
      dsimp only at own comesFrom ⊢
      split
      · next key named =>
        have short : SettingKey.fromPath name = some key := by
          split at named
          · exact named
          · cases named
        obtain ⟨kept, unchanged | ⟨value, typed, recorded⟩⟩ :=
          builder.insert_values key raw sink
        · exact ⟨kept.trans own, unchanged ▸ comesFrom⟩
        · refine ⟨kept.trans own, ?_⟩
          rw [recorded]
          intro other set is
          by_cases same : other = key
          · subst same
            have given : some value = some set := (builder.record_self other value).symm.trans is
            rw [← Option.some.inj given, ← own]
            exact ⟨name, raw, mem, short, typed⟩
          · exact comesFrom other set ((builder.record_of_ne same value).symm.trans is)
      · exact ⟨own, comesFrom⟩

-- Issues do not decide values

/-- A loop whose first component does not depend on the second ends so, by induction on the items. -/
theorem foldl_fst_congr {α β ι : Type} {step : α × β → ι → α × β}
    (own : ∀ left right item, left.1 = right.1 → (step left item).1 = (step right item).1)
    {left right : α × β} (same : left.1 = right.1) (items : List ι)
    : (items.foldl step left).1 = (items.foldl step right).1 := by
  induction items generalizing left right with
  | nil => exact same
  | cons item rest ih => exact ih (own left right item same)

/-- What a builder takes does not depend on the issues so far. -/
theorem LayerBuilder.insert_sink (key : SettingKey) (raw : Except ConfigProblem RawValue)
    (first second : IssueSink)
    : (builder.insert key raw first).1 = (builder.insert key raw second).1 := by
  unfold insert firstOccurrence checkRule
  by_cases seen : key ∈ builder.seen
  · rw [if_pos seen, if_pos seen]
  · rw [if_neg seen, if_neg seen]
    dsimp only
    by_cases forbidden : key.spec.rule builder.layer ≠ .forbidden
    · rw [if_pos forbidden, if_pos forbidden]
      dsimp only
      split <;> rfl
    · rw [if_neg forbidden, if_neg forbidden]

theorem validateEntries_sink (layer : ConfigLayer) (entries : List (String × RawValue))
    (first second : IssueSink)
    : (validateEntries layer entries first).1 = (validateEntries layer entries second).1 := by
  unfold validateEntries
  split
  · rfl
  · have same : (LayerBuilder.new layer, first).1 = (LayerBuilder.new layer, second).1 := rfl
    refine congrArg LayerBuilder.validated (foldl_fst_congr ?_ same entries)
    rintro ⟨left, leftSink⟩ ⟨right, rightSink⟩ ⟨name, raw⟩ same
    obtain rfl : left = right := same
    dsimp only
    split
    · exact LayerBuilder.insert_sink _ _ _ _ _
    · rfl

/-- What the environment gives does not depend on the issues so far. -/
theorem ValidatedEnvironment.read_sink (environment : ValidatedEnvironment) (key : SettingKey)
    (text : Except ConfigProblem String) (first second : IssueSink)
    : (environment.read parseF64 key text first).1
      = (environment.read parseF64 key text second).1 := by
  unfold read
  dsimp only
  split
  · unfold LayerBuilder.firstOccurrence
    by_cases seen : key ∈ environment.builder.seen
    · rw [if_pos seen, if_pos seen]
    · rw [if_neg seen, if_neg seen]
      dsimp only
      split
      · split <;> rfl
      · split <;> rfl
  · split
    · unfold LayerBuilder.firstOccurrence checkRule
      by_cases seen : key ∈ environment.builder.seen
      · rw [if_pos seen, if_pos seen]
      · rw [if_neg seen, if_neg seen]
        dsimp only
        by_cases forbidden : key.spec.rule .environment ≠ .forbidden
        · rw [if_pos forbidden, if_pos forbidden]
          dsimp only
          split <;> rfl
        · rw [if_neg forbidden, if_neg forbidden]
    · dsimp only
      rw [LayerBuilder.insert_sink _ _ _ first second]

/-- What the environment gives does not depend on the issues before it, by induction on the variables.
-/
theorem ValidatedEnvironment.readAll_sink (recognized : Nat) (environment : ValidatedEnvironment)
    (vars : List (OsText × OsText)) (first second : IssueSink)
    : (readAll parseF64 recognized environment first vars).1
      = (readAll parseF64 recognized environment second vars).1 := by
  induction vars generalizing recognized environment first second with
  | nil => rfl
  | cons entry rest ih =>
      obtain ⟨name, value⟩ := entry
      unfold readAll
      dsimp only
      split
      · exact ih _ _ _ _
      · split
        · exact ih _ _ _ _
        · split
          · rfl
          · rw [environment.read_sink parseF64 _ _ first second]
            exact ih _ _ _ _

theorem validateEnvironment_sink (vars : List (OsText × OsText)) (first second : IssueSink)
    : (validateEnvironment parseF64 vars first).1 = (validateEnvironment parseF64 vars second).1 :=
  ValidatedEnvironment.readAll_sink parseF64 0 .start vars first second

end SkillRanker.Config
