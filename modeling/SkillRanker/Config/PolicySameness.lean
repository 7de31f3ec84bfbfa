import SkillRanker.Config.Fingerprint
import SkillRanker.Config.Settled
import SkillRanker.Library.Sorting

/-! Two definitions of one policy: equal fingerprints, and nothing changed at a boundary. The first
compares lists as sets, the second as lists.
-/

namespace SkillRanker.Config

open SkillRanker.Library

-- Fields

/-- A machine word counts the bytes of a name and of its value. -/
def FieldFits (entry : String × List UInt8) : Prop :=
  (utf8 entry.1).length ≤ usizeMax ∧ entry.2.length ≤ usizeMax

theorem utf8_injective : Function.Injective utf8 := by
  intro left right same
  have bytes := Array.toList_inj.mp same
  exact String.toByteArray_inj.mp (ByteArray.ext bytes)

/-- Bytes behind their length, before others. -/
theorem counted_append {left right rest tail : List UInt8} (first : left.length ≤ usizeMax)
    (second : right.length ≤ usizeMax)
    (same
      : littleEndian 8 left.length ++ left ++ rest = littleEndian 8 right.length ++ right ++ tail)
    : left = right ∧ rest = tail := by
  have small {bytes : List UInt8} (fits : bytes.length ≤ usizeMax) : bytes.length < 256 ^ 8 :=
    Nat.lt_of_le_of_lt fits (by decide)
  rw [List.append_assoc, List.append_assoc] at same
  obtain ⟨lengths, remaining⟩ := List.append_inj same (by simp)
  have sized := littleEndian_injective (small first) (small second) lengths
  exact List.append_inj remaining sized

theorem field_append {left right : String × List UInt8} {rest tail : List UInt8}
    (first : FieldFits left) (second : FieldFits right)
    (same : field left ++ rest = field right ++ tail)
    : left = right ∧ rest = tail := by
  unfold field at same
  rw [List.append_assoc, List.append_assoc (_ ++ utf8 right.1)] at same
  obtain ⟨names, remaining⟩ := counted_append first.1 second.1 same
  obtain ⟨values, rests⟩ := counted_append first.2 second.2 remaining
  exact ⟨Prod.ext (utf8_injective names) values, rests⟩

theorem field_ne_nil (entry : String × List UInt8) (rest : List UInt8) : field entry ++ rest ≠ [] := by
  intro none
  have length := congrArg List.length none
  simp [field] at length

theorem fields_injective {left right : List (String × List UInt8)}
    (first : ∀ entry ∈ left, FieldFits entry) (second : ∀ entry ∈ right, FieldFits entry)
    (same : left.flatMap field = right.flatMap field)
    : left = right := by
  induction left generalizing right with
  | nil =>
      cases right with
      | nil => rfl
      | cons entry rest => exact absurd same.symm (field_ne_nil entry _)
  | cons entry rest ih =>
      cases right with
      | nil => exact absurd same (field_ne_nil entry _)
      | cons other others =>
          rw [List.flatMap_cons, List.flatMap_cons] at same
          obtain ⟨heads, tails⟩ :=
            field_append (first entry List.mem_cons_self) (second other List.mem_cons_self) same
          rw [heads, ih (fun one mem => first one (List.mem_cons_of_mem _ mem))
            (fun one mem => second one (List.mem_cons_of_mem _ mem)) tails]

-- Values

theorem floatBytes_eq_iff {left right : Float.Model} {value other : ℚ}
    (first : HoldsNumber left value) (second : HoldsNumber right other)
    : floatBytes left = floatBytes right ↔ value = other := by
  obtain ⟨finite, rfl⟩ := first
  obtain ⟨finite', rfl⟩ := second
  have bytes {one two : Float.Model} (same
      : littleEndian 8 one.toBits.toNat = littleEndian 8 two.toBits.toNat)
      : one = two := by
    have bits := littleEndian_injective one.toBits.toNat_lt two.toBits.toNat_lt same
    obtain ⟨bitsOne, _⟩ := one
    obtain ⟨bitsTwo, _⟩ := two
    cases UInt64.toNat_inj.mp bits
    rfl
  have zero : exactValue (Float.Model.ofNat 0) = 0 := rfl
  have zeroed (number : Float.Model) (finite : number.isFinite)
      : exactValue (if number == Float.Model.ofNat 0 then Float.Model.ofNat 0 else number)
        = exactValue number := by
    split
    next none => rw [zero, (beq_zero_iff finite).mp none]
    · rfl
  unfold floatBytes
  dsimp only
  constructor
  · intro same
    rw [← zeroed left finite, bytes same, zeroed right finite']
  · intro same
    by_cases none : exactValue left = 0
    · rw [if_pos ((beq_zero_iff finite).mpr none),
        if_pos ((beq_zero_iff finite').mpr (same ▸ none))]
    · rw [eq_of_exactValue finite finite' same none]

@[simp]
theorem utf8_inj {left right : String} : utf8 left = utf8 right ↔ left = right :=
  utf8_injective.eq_iff

@[simp]
theorem boolByte_inj {left right : Bool} : boolByte left = boolByte right ↔ left = right := by
  revert left right
  decide

theorem HookMode.asStr_injective : Function.Injective HookMode.asStr := by
  intro left right same
  revert same
  cases left <;> cases right <;> decide +kernel

theorem NotificationTurns.asStr_injective : Function.Injective NotificationTurns.asStr := by
  intro left right same
  revert same
  cases left <;> cases right <;> decide +kernel

theorem ContextProfile.asStr_injective : Function.Injective ContextProfile.asStr := by
  intro left right same
  revert same
  cases left <;> cases right <;> decide +kernel

-- Paths

theorem PathName.text_injective : Function.Injective PathName.text := by
  intro left right same
  obtain ⟨_, _, _⟩ := left
  obtain ⟨_, _, _⟩ := right
  cases same
  rfl

/-- The names of a path are told from its text. -/
theorem joined_injective : Function.Injective joined := by
  have split {names : List PathName} (some : names ≠ [])
      : (joined names).splitOn '/' = names.map fun name => name.text.toList := by
    refine List.splitOn_intercalate '/' ?_ ?_
    · intro part mem
      obtain ⟨name, _, rfl⟩ := List.mem_map.mp mem
      exact name.unsplit
    · simpa using some
  have empty {names : List PathName} (none : joined names = []) : names = [] := by
    by_contra some
    have parts := split some
    rw [none] at parts
    cases names with
    | nil => exact some rfl
    | cons first rest =>
        have text : [] = first.text.toList := (List.cons.inj parts).1
        exact first.named.1 (String.toList_eq_nil_iff.mp text.symm)
  intro left right same
  by_cases none : left = []
  · rw [none] at same ⊢
    exact (empty same.symm).symm
  · have some : right ≠ [] := by
      rintro rfl
      exact none (empty same)
    have parts : left.map (fun name => name.text.toList) = right.map fun name => name.text.toList := by
      rw [← split none, ← split some, same]
    refine List.map_injective_iff.mpr ?_ parts
    intro one other texts
    exact PathName.text_injective (String.toList_inj.mp texts)

theorem TrustedAbsoluteRoot.asPath_injective : Function.Injective TrustedAbsoluteRoot.asPath := by
  intro left right same
  have texts := (List.cons.inj (String.ofList_injective same)).2
  obtain ⟨names⟩ := left
  obtain ⟨others⟩ := right
  cases joined_injective texts
  rfl

theorem WorkspaceRelativeRoot.asPath_injective : Function.Injective WorkspaceRelativeRoot.asPath := by
  intro left right same
  have texts := String.ofList_injective same
  obtain ⟨names⟩ := left
  obtain ⟨others⟩ := right
  cases joined_injective texts
  rfl

theorem SkillRoot.entry_injective : Function.Injective SkillRoot.entry := by
  intro left right same
  have apart : "relative" ≠ "absolute" := by decide +kernel
  obtain ⟨names, paths⟩ := Prod.mk.inj same
  cases left <;> cases right
  · rw [WorkspaceRelativeRoot.asPath_injective (utf8_injective paths)]
  · exact absurd names apart
  · exact absurd names.symm apart
  · rw [TrustedAbsoluteRoot.asPath_injective (utf8_injective paths)]

theorem pathKey_injective : Function.Injective pathKey :=
  List.map_injective_iff.mpr PathName.text_injective

theorem SkillRoot.key_injective : Function.Injective SkillRoot.key := by
  intro left right same
  cases left with
  | workspaceRelative root =>
      cases right with
      | workspaceRelative other =>
          have keys := (Prod.mk.inj (toLex_inj.mp same)).2
          obtain ⟨names⟩ := root
          obtain ⟨others⟩ := other
          cases pathKey_injective keys
          rfl
      | trustedAbsolute other => cases (Prod.mk.inj (toLex_inj.mp same)).1
  | trustedAbsolute root =>
      cases right with
      | workspaceRelative other => cases (Prod.mk.inj (toLex_inj.mp same)).1
      | trustedAbsolute other =>
          have keys := (Prod.mk.inj (toLex_inj.mp same)).2
          obtain ⟨names⟩ := root
          obtain ⟨others⟩ := other
          cases pathKey_injective keys
          rfl

-- Lists as sets

def SameMembers {α : Type} (left right : List α) : Prop := ∀ item, item ∈ left ↔ item ∈ right

/-- Lists without repetition are in one order exactly if they have the same members. -/
theorem inOrder_eq_iff {α κ : Type} [LinearOrder κ] {key : α → κ} (injective : Function.Injective key)
    {left right : List α} (first : left.Nodup) (second : right.Nodup)
    : inOrder key left = inOrder key right ↔ SameMembers left right := by
  unfold inOrder
  constructor
  · intro same item
    have sorted (items : List α) : item ∈ inOrder key items ↔ item ∈ items := List.mem_mergeSort
    rw [← sorted left, ← sorted right]
    unfold inOrder
    rw [same]
  · intro same
    have perm : left.Perm right := (List.perm_ext_iff_of_nodup first second).mpr same
    refine mergeSort_eq_of_perm perm ?_ ?_ ?_
    · intro one two three below above
      exact decide_eq_true (le_trans (of_decide_eq_true below) (of_decide_eq_true above))
    · intro one two
      rw [Bool.or_eq_true, decide_eq_true_eq, decide_eq_true_eq]
      exact le_total _ _
    · intro one _ two _ below above
      exact injective (le_antisymm (of_decide_eq_true below) (of_decide_eq_true above))

-- One policy

/-- Two configurations select the same route; inputs of the other provider do not count. -/
structure SameRoute (left right : EffectiveConfig) : Prop where
  provider : left.provider = right.provider
  endpoint : left.provider = .typeSafe → left.endpoint = right.endpoint
  account : left.provider = .cloudflare → left.cloudflareAccount = right.cloudflareAccount

structure SamePolicy (left right : EffectiveConfig) : Prop where
  networkEnabled : left.networkEnabled = right.networkEnabled
  route : SameRoute left right
  model : left.model = right.model
  hookMode : left.hookMode = right.hookMode
  notificationTurns : left.notificationTurns = right.notificationTurns
  contextProfile : left.contextProfile = right.contextProfile
  noTools : left.noTools = right.noTools
  messages : left.messages = right.messages
  budgetChars : left.budgetChars = right.budgetChars
  transcriptRoots : SameMembers left.transcriptRoots right.transcriptRoots
  top : left.top = right.top
  shortlist : left.shortlist = right.shortlist
  gate : left.gate = right.gate
  fits : left.fits = right.fits
  wFit : left.wFit = right.wFit
  wPrior : left.wPrior = right.wPrior
  wPhase : left.wPhase = right.wPhase
  timeoutMs : left.timeoutMs = right.timeoutMs
  excludeSkills : SameMembers left.excludeSkills right.excludeSkills
  rosterRoots : SameMembers left.rosterRoots right.rosterRoots

variable {left right : EffectiveConfig}

theorem SameRoute.selectedEndpoint (same : SameRoute left right) (first : left.Routed)
    (second : right.Routed)
    : left.selectedEndpoint = right.selectedEndpoint := by
  unfold EffectiveConfig.selectedEndpoint
  rw [← same.provider]
  cases provider : left.provider with
  | typeSafe => exact same.endpoint provider
  | cloudflare =>
      have other : right.provider = .cloudflare := same.provider ▸ provider
      dsimp only
      rw [first provider, second other, same.account provider]

/-- An endpoint of a file or of the environment is told from its origin. -/
theorem endpoint_of_entries (first : left.Settled) (second : right.Settled)
    (typeSafe : left.provider = .typeSafe) (typeSafe' : right.provider = .typeSafe)
    (same : left.endpointEntry = right.endpointEntry)
    : left.endpoint = right.endpoint := by
  unfold EffectiveConfig.endpointEntry EffectiveConfig.selectedEndpoint at same
  rw [typeSafe, typeSafe'] at same
  dsimp only at same
  cases found : left.endpoint with
  | none =>
      cases found' : right.endpoint with
      | none => rfl
      | some other =>
          rw [found, found'] at same
          simp at same
  | some endpoint =>
      cases found' : right.endpoint with
      | none =>
          rw [found, found'] at same
          simp at same
      | some other =>
          rw [found, found'] at same
          obtain ⟨account, native⟩ := first.endpoint endpoint found
          obtain ⟨account', native'⟩ := second.endpoint other found'
          obtain ⟨origin, _, _⟩ := endpoint
          obtain ⟨origin', _, _⟩ := other
          have origins : origin = origin' := by simpa using same
          cases account
          cases account'
          cases native
          cases native'
          rw [origins]

/-- The fields of a route are told from those behind them. -/
theorem route_of_entries {model model' : List UInt8} {rest rest' : List (String × List UInt8)}
    (first : left.Settled) (second : right.Settled)
    (same
      : left.endpointEntry :: (left.providerEntries ++ ("provider.model", model) :: rest)
        = right.endpointEntry :: (right.providerEntries ++ ("provider.model", model') :: rest'))
    : SameRoute left right ∧ model = model' ∧ rest = rest' := by
  obtain ⟨endpoints, same⟩ := List.cons.inj same
  unfold EffectiveConfig.providerEntries at same
  cases provider : left.provider with
  | typeSafe =>
      cases provider' : right.provider with
      | typeSafe =>
          rw [provider, provider'] at same
          obtain ⟨models, rests⟩ := List.cons.inj same
          refine ⟨⟨provider.trans provider'.symm, fun _ => ?_, ?_⟩, (Prod.mk.inj models).2, rests⟩
          · exact endpoint_of_entries first second provider provider' endpoints
          · rw [provider]
            intro other
            cases other
      | cloudflare =>
          rw [provider, provider'] at same
          simp at same
  | cloudflare =>
      cases provider' : right.provider with
      | typeSafe =>
          rw [provider, provider'] at same
          simp at same
      | cloudflare =>
          rw [provider, provider'] at same
          have safe : left.provider = .typeSafe → left.endpoint = right.endpoint := by
            rw [provider]
            intro other
            cases other
          have accounts
              : left.cloudflareAccount = right.cloudflareAccount ∧ model = model' ∧ rest = rest' := by
            cases account : left.cloudflareAccount with
            | none =>
                cases account' : right.cloudflareAccount with
                | none =>
                    rw [account, account'] at same
                    exact ⟨rfl, by simpa using same⟩
                | some other =>
                    rw [account, account'] at same
                    simp at same
            | some one =>
                cases account' : right.cloudflareAccount with
                | none =>
                    rw [account, account'] at same
                    simp at same
                | some other =>
                    rw [account, account'] at same
                    obtain ⟨text⟩ := one
                    obtain ⟨text'⟩ := other
                    simpa using same
          exact ⟨⟨provider.trans provider'.symm, safe, fun _ => accounts.1⟩, accounts.2⟩

/-- A list is told from the fields of its members, in one order. -/
theorem members_of_entries {α κ : Type} [LinearOrder κ] {key : α → κ}
    {entry : α → String × List UInt8} (keyed : Function.Injective key)
    (told : Function.Injective entry) {left right : List α} (first : left.Nodup)
    (second : right.Nodup)
    : (inOrder key left).map entry = (inOrder key right).map entry ↔ SameMembers left right :=
  (List.map_injective_iff.mpr told).eq_iff.trans (inOrder_eq_iff keyed first second)

theorem length_inOrder {α κ : Type} [LinearOrder κ] (key : α → κ) (items : List α)
    : (inOrder key items).length = items.length :=
  List.length_mergeSort items

/-- Lists of the same members without repetition have one length. -/
theorem SameMembers.length_eq {α : Type} {left right : List α} (same : SameMembers left right)
    (first : left.Nodup) (second : right.Nodup)
    : left.length = right.length :=
  ((List.perm_ext_iff_of_nodup first second).mpr same).length_eq

theorem rootPath_injective
    : Function.Injective fun root : TrustedAbsoluteRoot => ("root", utf8 root.asPath) := by
  intro one other same
  exact TrustedAbsoluteRoot.asPath_injective (utf8_injective (Prod.mk.inj same).2)

theorem skillText_injective
    : Function.Injective fun skill : SkillReference => ("skill", utf8 skill.text) := by
  intro one other same
  obtain ⟨_, _⟩ := one
  obtain ⟨_, _⟩ := other
  cases utf8_injective (Prod.mk.inj same).2
  rfl

theorem boundedText_injective {max : Nat}
    : Function.Injective (BoundedText.text : BoundedText max → String) := by
  intro one other same
  obtain ⟨_, _⟩ := one
  obtain ⟨_, _⟩ := other
  cases same
  rfl

theorem rootKey_injective
    : Function.Injective fun root : TrustedAbsoluteRoot => pathKey root.names := by
  intro one other same
  obtain ⟨_⟩ := one
  obtain ⟨_⟩ := other
  cases pathKey_injective same
  rfl

/-- The fields of a policy, split where the lists are. -/
theorem fingerprintEntries_eq (config : EffectiveConfig) (numbers : PolicyNumbers)
    : config.fingerprintEntries numbers
      = ("schema", littleEndian 4 configSchemaVersion)
        :: ("network.enabled", boolByte config.networkEnabled)
        :: config.endpointEntry
        :: (config.providerEntries
          ++ ("provider.model", utf8 config.model.text)
            :: (config.contextEntries.tail
              ++ (config.transcriptRootEntries
                ++ (config.rankingEntries numbers
                  ++ (config.excludeSkillEntries
                    ++ ("roster.roots", littleEndian 8 config.rosterRoots.length)
                      :: config.rosterRootEntries))))) := by
  simp only [EffectiveConfig.fingerprintEntries, EffectiveConfig.contextEntries, List.append_assoc,
    List.cons_append, List.nil_append, List.tail_cons]

/-- Numbers are told from their four bytes, and from their eight. -/
theorem word_inj {value other : Nat} (fits : value ≤ u32Max) (fits' : other ≤ u32Max)
    : littleEndian 4 value = littleEndian 4 other ↔ value = other :=
  ⟨littleEndian_injective (Nat.lt_of_le_of_lt fits (by decide))
    (Nat.lt_of_le_of_lt fits' (by decide)), congrArg _⟩

theorem long_inj {value other : Nat} (fits : value ≤ u64Max) (fits' : other ≤ u64Max)
    : littleEndian 8 value = littleEndian 8 other ↔ value = other :=
  ⟨littleEndian_injective (Nat.lt_of_le_of_lt fits (by decide))
    (Nat.lt_of_le_of_lt fits' (by decide)), congrArg _⟩

variable {numbers numbers' : PolicyNumbers}

section Fields

variable (first : left.Settled) (second : right.Settled)

include first second in
theorem transcriptRootEntries_eq_iff
    : left.transcriptRootEntries = right.transcriptRootEntries
      ↔ SameMembers left.transcriptRoots right.transcriptRoots :=
  members_of_entries rootKey_injective rootPath_injective first.transcriptRoots
    second.transcriptRoots

include first second in
theorem excludeSkillEntries_eq_iff
    : left.excludeSkillEntries = right.excludeSkillEntries
      ↔ SameMembers left.excludeSkills right.excludeSkills :=
  members_of_entries boundedText_injective skillText_injective first.excludeSkills
    second.excludeSkills

include first second in
theorem rosterRootEntries_eq_iff
    : left.rosterRootEntries = right.rosterRootEntries
      ↔ SameMembers left.rosterRoots right.rosterRoots :=
  members_of_entries SkillRoot.key_injective SkillRoot.entry_injective first.rosterRoots
    second.rosterRoots

variable (held : numbers.Hold left) (held' : numbers'.Hold right)

include held held' in
/-- The fields of the context behind the model say how many roots of transcripts follow. -/
theorem contextEntries_eq_iff
    : left.contextEntries.tail = right.contextEntries.tail
      ↔ left.hookMode = right.hookMode
        ∧ left.notificationTurns = right.notificationTurns
        ∧ left.contextProfile = right.contextProfile
        ∧ left.noTools = right.noTools
        ∧ left.messages = right.messages
        ∧ left.budgetChars = right.budgetChars
        ∧ left.transcriptRoots.length = right.transcriptRoots.length := by
  simp only [EffectiveConfig.contextEntries, List.tail_cons, List.cons.injEq, Prod.mk.injEq,
    true_and, and_true, utf8_inj, boolByte_inj, HookMode.asStr_injective.eq_iff,
    NotificationTurns.asStr_injective.eq_iff, ContextProfile.asStr_injective.eq_iff,
    word_inj held.messages held'.messages, word_inj held.budgetChars held'.budgetChars,
    long_inj held.transcriptRoots held'.transcriptRoots]

include held held' in
/-- The fields of the ranking say how many skills that are left out follow. -/
theorem rankingEntries_eq_iff
    : left.rankingEntries numbers = right.rankingEntries numbers'
      ↔ left.top = right.top
        ∧ left.shortlist = right.shortlist
        ∧ left.gate = right.gate
        ∧ left.fits = right.fits
        ∧ left.wFit = right.wFit
        ∧ left.wPrior = right.wPrior
        ∧ left.wPhase = right.wPhase
        ∧ left.timeoutMs = right.timeoutMs
        ∧ left.excludeSkills.length = right.excludeSkills.length := by
  simp only [EffectiveConfig.rankingEntries, List.cons.injEq, Prod.mk.injEq, true_and, and_true,
    floatBytes_eq_iff held.gate held'.gate, floatBytes_eq_iff held.fits held'.fits,
    floatBytes_eq_iff held.wFit held'.wFit, floatBytes_eq_iff held.wPrior held'.wPrior,
    floatBytes_eq_iff held.wPhase held'.wPhase, word_inj held.top held'.top,
    word_inj held.shortlist held'.shortlist, long_inj held.timeoutMs held'.timeoutMs,
    long_inj held.excludeSkills held'.excludeSkills]

end Fields

/-- The fields of two policies are the same exactly if they are one policy. -/
theorem fingerprintEntries_eq_iff (first : left.Settled) (second : right.Settled)
    (routed : left.Routed) (routed' : right.Routed) (held : numbers.Hold left)
    (held' : numbers'.Hold right)
    : left.fingerprintEntries numbers = right.fingerprintEntries numbers'
      ↔ SamePolicy left right := by
  rw [fingerprintEntries_eq, fingerprintEntries_eq]
  constructor
  · intro same
    obtain ⟨_, same⟩ := List.cons.inj same
    obtain ⟨network, same⟩ := List.cons.inj same
    obtain ⟨route, model, same⟩ := route_of_entries first second same
    obtain ⟨context, same⟩ := List.append_inj same rfl
    obtain ⟨hook, turns, profile, noTools, messages, budget, transcripts⟩ :=
      (contextEntries_eq_iff held held').mp context
    have sized : left.transcriptRootEntries.length = right.transcriptRootEntries.length := by
      unfold EffectiveConfig.transcriptRootEntries
      rw [List.length_map, List.length_map, length_inOrder, length_inOrder, transcripts]
    obtain ⟨transcriptRoots, same⟩ := List.append_inj same sized
    obtain ⟨ranking, same⟩ := List.append_inj same rfl
    obtain ⟨top, shortlist, gate, fits, wFit, wPrior, wPhase, timeout, excludes⟩ :=
      (rankingEntries_eq_iff held held').mp ranking
    have sized : left.excludeSkillEntries.length = right.excludeSkillEntries.length := by
      unfold EffectiveConfig.excludeSkillEntries
      rw [List.length_map, List.length_map, length_inOrder, length_inOrder, excludes]
    obtain ⟨excludeSkills, same⟩ := List.append_inj same sized
    obtain ⟨_, rosterRoots⟩ := List.cons.inj same
    exact ⟨boolByte_inj.mp (Prod.mk.inj network).2, route,
      boundedText_injective (utf8_injective model), hook, turns, profile, noTools, messages, budget,
      (transcriptRootEntries_eq_iff first second).mp transcriptRoots, top, shortlist, gate, fits,
      wFit, wPrior, wPhase, timeout, (excludeSkillEntries_eq_iff first second).mp excludeSkills,
      (rosterRootEntries_eq_iff first second).mp rosterRoots⟩
  · intro same
    have endpoints : left.endpointEntry = right.endpointEntry := by
      unfold EffectiveConfig.endpointEntry
      rw [same.route.selectedEndpoint routed routed']
    have providers : left.providerEntries = right.providerEntries := by
      unfold EffectiveConfig.providerEntries
      rw [← same.route.provider]
      cases provider : left.provider with
      | typeSafe => rfl
      | cloudflare => rw [same.route.account provider]
    have contexts : left.contextEntries.tail = right.contextEntries.tail :=
      (contextEntries_eq_iff held held').mpr ⟨same.hookMode, same.notificationTurns,
        same.contextProfile, same.noTools, same.messages, same.budgetChars,
        same.transcriptRoots.length_eq first.transcriptRoots second.transcriptRoots⟩
    have rankings : left.rankingEntries numbers = right.rankingEntries numbers' :=
      (rankingEntries_eq_iff held held').mpr ⟨same.top, same.shortlist, same.gate, same.fits,
        same.wFit, same.wPrior, same.wPhase, same.timeoutMs,
        same.excludeSkills.length_eq first.excludeSkills second.excludeSkills⟩
    rw [same.networkEnabled, endpoints, providers, same.model, contexts, rankings,
      (transcriptRootEntries_eq_iff first second).mpr same.transcriptRoots,
      (excludeSkillEntries_eq_iff first second).mpr same.excludeSkills,
      (rosterRootEntries_eq_iff first second).mpr same.rosterRoots,
      same.rosterRoots.length_eq first.rosterRoots second.rosterRoots]

-- Fingerprints

theorem BoundedText.length_utf8 {max : Nat} (text : BoundedText max)
    : (utf8 text.text).length ≤ max := by
  by_contra long
  rw [utf8_length, Nat.not_le] at long
  have bounded := text.bounded
  unfold checkText at bounded
  split at bounded
  next empty => cases bounded
  next some => cases bounded

theorem length_floatBytes (number : Float.Model) : (floatBytes number).length = 8 :=
  littleEndian_length _ _

theorem mem_inOrder {α κ : Type} [LinearOrder κ] {key : α → κ} {items : List α} {item : α}
    : item ∈ inOrder key items ↔ item ∈ items :=
  List.mem_mergeSort

theorem fieldFits {name : String} {value : List UInt8} (short : (utf8 name).length ≤ usizeMax)
    (fits : value.length ≤ usizeMax)
    : FieldFits (name, value) :=
  ⟨short, fits⟩

/-- A machine word counts the fields of the route. -/
theorem routeFits_of_held (held : numbers.Hold left)
    : FieldFits left.endpointEntry ∧ ∀ entry ∈ left.providerEntries, FieldFits entry := by
  constructor
  · unfold EffectiveConfig.endpointEntry
    cases selected : left.selectedEndpoint with
    | none => exact fieldFits (by decide +kernel) (by decide)
    | some endpoint => exact fieldFits (by decide +kernel) (held.endpoint endpoint selected)
  · unfold EffectiveConfig.providerEntries
    cases left.provider with
    | typeSafe => exact fun _ mem => absurd mem List.not_mem_nil
    | cloudflare =>
        refine List.forall_mem_cons.mpr ⟨fieldFits (by decide +kernel) (by decide +kernel), ?_⟩
        cases account : left.cloudflareAccount with
        | none => exact fun _ mem => absurd mem List.not_mem_nil
        | some given =>
            have fits := held.account given account
            refine List.forall_mem_cons.mpr ⟨fieldFits (by decide +kernel) fits, ?_⟩
            exact fun _ mem => absurd mem List.not_mem_nil

/-- A machine word counts the fields of the lists. -/
theorem listsFit_of_held (held : numbers.Hold left)
    : (∀ entry ∈ left.transcriptRootEntries, FieldFits entry)
      ∧ (∀ entry ∈ left.excludeSkillEntries, FieldFits entry)
      ∧ ∀ entry ∈ left.rosterRootEntries, FieldFits entry := by
  refine ⟨?_, ?_, ?_⟩
  · refine List.forall_mem_map.mpr fun root mem => fieldFits (by decide +kernel) ?_
    exact held.transcriptPaths root (mem_inOrder.mp mem)
  · refine List.forall_mem_map.mpr fun skill _ => fieldFits (by decide +kernel) ?_
    exact Nat.le_trans skill.length_utf8 (by decide)
  · refine List.forall_mem_map.mpr fun root mem => ?_
    have fits := held.rosterPaths root (mem_inOrder.mp mem)
    cases root with
    | workspaceRelative root => exact fieldFits (by decide +kernel) fits
    | trustedAbsolute root => exact fieldFits (by decide +kernel) fits

/-- A machine word counts every field of a policy. -/
theorem fieldFits_of_held (held : numbers.Hold left)
    : ∀ entry ∈ left.fingerprintEntries numbers, FieldFits entry := by
  have counted (width value : Nat) (small : width ≤ usizeMax)
      : (littleEndian width value).length ≤ usizeMax := by
    rwa [littleEndian_length]
  have number (value : Float.Model) : (floatBytes value).length ≤ usizeMax := by
    rw [length_floatBytes]
    decide
  obtain ⟨endpoint, providers⟩ := routeFits_of_held held
  obtain ⟨transcripts, excludes, rosters⟩ := listsFit_of_held held
  have model : (utf8 left.model.text).length ≤ usizeMax :=
    Nat.le_trans left.model.length_utf8 (by decide)
  have mode : (utf8 left.hookMode.asStr).length ≤ usizeMax := by
    cases left.hookMode <;> decide +kernel
  have turns : (utf8 left.notificationTurns.asStr).length ≤ usizeMax := by
    cases left.notificationTurns <;> decide +kernel
  have profile : (utf8 left.contextProfile.asStr).length ≤ usizeMax := by
    cases left.contextProfile <;> decide +kernel
  have bool (value : Bool) : (boolByte value).length ≤ usizeMax :=
    show 1 ≤ usizeMax by decide
  rw [fingerprintEntries_eq]
  simp only [EffectiveConfig.contextEntries, EffectiveConfig.rankingEntries, List.tail_cons,
    List.forall_mem_cons, List.forall_mem_append]
  have number4 {name : String} (value : Nat) (short : (utf8 name).length ≤ usizeMax)
      : FieldFits (name, littleEndian 4 value) := fieldFits short (counted 4 value (by decide))
  have number8 {name : String} (value : Nat) (short : (utf8 name).length ≤ usizeMax)
      : FieldFits (name, littleEndian 8 value) := fieldFits short (counted 8 value (by decide))
  refine ⟨number4 _ (by decide +kernel), fieldFits (by decide +kernel) (bool _), endpoint, providers,
    fieldFits (by decide +kernel) model,
    ⟨fieldFits (by decide +kernel) mode, fieldFits (by decide +kernel) turns,
      fieldFits (by decide +kernel) profile, fieldFits (by decide +kernel) (bool _),
      number4 _ (by decide +kernel), number4 _ (by decide +kernel), number8 _ (by decide +kernel),
      fun _ mem => absurd mem List.not_mem_nil⟩,
    transcripts,
    ⟨number4 _ (by decide +kernel), number4 _ (by decide +kernel),
      fieldFits (by decide +kernel) (number _), fieldFits (by decide +kernel) (number _),
      fieldFits (by decide +kernel) (number _), fieldFits (by decide +kernel) (number _),
      fieldFits (by decide +kernel) (number _), number8 _ (by decide +kernel),
      number8 _ (by decide +kernel), fun _ mem => absurd mem List.not_mem_nil⟩,
    excludes, number8 _ (by decide +kernel), rosters⟩

/-- Equal fingerprints are those of one policy, under a hash that tells bytes apart. -/
theorem policyFingerprint_eq_iff {Hash : Type} {fromBytes : List UInt8 → Hash}
    (collisionFree : Function.Injective fromBytes) (first : left.Settled) (second : right.Settled)
    (routed : left.Routed) (routed' : right.Routed) (held : numbers.Hold left)
    (held' : numbers'.Hold right)
    : left.policyFingerprint numbers fromBytes = right.policyFingerprint numbers' fromBytes
      ↔ SamePolicy left right := by
  unfold EffectiveConfig.policyFingerprint
  rw [← fingerprintEntries_eq_iff first second routed routed' held held']
  constructor
  · intro same
    have fields := List.append_cancel_left (collisionFree same)
    exact fields_injective (fieldFits_of_held held) (fieldFits_of_held held') fields
  · intro same
    rw [same]

-- Comparisons

structure SameOrder (left right : EffectiveConfig) : Prop where
  transcriptRoots : left.transcriptRoots = right.transcriptRoots
  excludeSkills : left.excludeSkills = right.excludeSkills
  rosterRoots : left.rosterRoots = right.rosterRoots

variable {receipt current : PolicyReceipt}

/-- One policy under one consent and one credential status is unchanged at every boundary exactly if
its lists are in one order.
-/
theorem compare_unchanged_iff (same : SamePolicy receipt.effective current.effective)
    (routed : receipt.effective.Routed) (routed' : current.effective.Routed)
    (consent : receipt.networkConsent = current.networkConsent)
    (credential : receipt.credential = current.credential)
    : (∀ boundary, receipt.compare current boundary = .unchanged)
      ↔ SameOrder receipt.effective current.effective := by
  have endpoint := same.route.selectedEndpoint routed routed'
  constructor
  · intro unchanged
    have admission (field : PolicyField) (mem : field ∈ admissionFields)
        : receipt.changes current field = false :=
      PolicyReceipt.compare_eq_unchanged.mp (unchanged .providerAdmission) field mem
    exact {
      transcriptRoots := by simpa using of_decide_eq_false (admission .transcriptRoots (by decide))
      excludeSkills := by simpa using of_decide_eq_false (admission .excludeSkills (by decide))
      rosterRoots := by simpa using of_decide_eq_false (admission .rosterRoots (by decide))
    }
  · intro order boundary
    refine PolicyReceipt.compare_eq_unchanged.mpr fun field _ => ?_
    have account : receipt.effective.selectedAccount = current.effective.selectedAccount := by
      unfold EffectiveConfig.selectedAccount
      rw [endpoint]
    cases field <;>
      simp [PolicyReceipt.changes, consent, credential, endpoint, account, same.route.provider,
        same.model, same.contextProfile, same.noTools, same.messages, same.budgetChars,
        order.transcriptRoots, same.top, same.shortlist, same.gate, same.fits, same.wFit,
        same.wPrior, same.wPhase, order.excludeSkills, order.rosterRoots, same.hookMode]

structure FingerprintDecides {Hash : Type} (fromBytes : List UInt8 → Hash)
    (numbers numbers' : PolicyNumbers) (receipt current : PolicyReceipt)
    : Prop where
  policy
    : receipt.effective.policyFingerprint numbers fromBytes
        = current.effective.policyFingerprint numbers' fromBytes
      ↔ SamePolicy receipt.effective current.effective
  unchanged
    : receipt.effective.policyFingerprint numbers fromBytes
        = current.effective.policyFingerprint numbers' fromBytes
      → receipt.networkConsent = current.networkConsent
      → receipt.credential = current.credential
      → ∀ boundary, receipt.compare current boundary = .unchanged

/-- Two receipts of one policy under one consent and credential status have their lists in one order.
-/
def OneOrder (receipt current : PolicyReceipt) : Prop :=
  SamePolicy receipt.effective current.effective
    → receipt.networkConsent = current.networkConsent
    → receipt.credential = current.credential
    → SameOrder receipt.effective current.effective

variable {parseF64 : String → Option RawFloat} {sources sources' : ConfigSources}
  {generation generation' : Nat} {config other : ResolvedConfig}

/-- The fingerprints of two accepted resolutions decide exactly if no list is in another order. -/
theorem fingerprintDecides_iff {Hash : Type} {fromBytes : List UInt8 → Hash}
    (collisionFree : Function.Injective fromBytes)
    (resolved : ResolvedConfig.resolve parseF64 sources generation = .ok config)
    (resolved' : ResolvedConfig.resolve parseF64 sources' generation' = .ok other)
    (held : numbers.Hold config.effective) (held' : numbers'.Hold other.effective)
    (effects effects' : EffectPolicy)
    : FingerprintDecides fromBytes numbers numbers' (config.receipt effects) (other.receipt effects')
      ↔ OneOrder (config.receipt effects) (other.receipt effects') := by
  obtain ⟨settled, routed⟩ := ResolvedConfig.settled_of_resolved resolved
  obtain ⟨settled', routed'⟩ := ResolvedConfig.settled_of_resolved resolved'
  have policy := policyFingerprint_eq_iff collisionFree settled settled' routed routed' held held'
  constructor
  · intro decides same consent credential
    have unchanged := decides.unchanged (policy.mpr same) consent credential
    exact (compare_unchanged_iff same routed routed' consent credential).mp unchanged
  · intro order
    refine ⟨policy, fun equal consent credential => ?_⟩
    have same := policy.mp equal
    exact (compare_unchanged_iff same routed routed' consent credential).mpr
      (order same consent credential)

-- Two orders

def excluding (user project : List String) : ConfigSources where
  trustedUser := [("ranking.exclude_skills", .stringList user)]
  project := [("ranking.exclude_skills", .stringList project)]
  environment := []
  cli := []

def userFirst : ResolvedConfig :=
  (ResolvedConfig.resolve (fun _ => none) (excluding ["a"] ["b"]) 0).toOption.get
    (by decide +kernel)

def projectFirst : ResolvedConfig :=
  (ResolvedConfig.resolve (fun _ => none) (excluding ["b"] ["a"]) 0).toOption.get
    (by decide +kernel)

def threeTenthsDouble : Float.Model :=
  .pack (.finite .positive 5404319552844595 (-54) (by decide))

def defaultNumbers : PolicyNumbers where
  gate := threeTenthsDouble
  fits := threeTenthsDouble
  wFit := Float.Model.ofNat 1
  wPrior := Float.Model.ofNat 0
  wPhase := Float.Model.ofNat 0

theorem threeTenthsDouble_holds : HoldsNumber threeTenthsDouble threeTenths := by
  have unpacked : threeTenthsDouble.unpack = .finite .positive 5404319552844595 (-54) (by decide) :=
    rfl
  refine ⟨rfl, ?_⟩
  unfold exactValue
  rw [unpacked]
  norm_num [threeTenths]

theorem one_holds : HoldsNumber (Float.Model.ofNat 1) 1 := by
  have unpacked : (Float.Model.ofNat 1).unpack = .finite .positive (2 ^ 52) (-52) (by decide) := rfl
  refine ⟨rfl, ?_⟩
  unfold exactValue
  rw [unpacked]
  norm_num

theorem zero_holds : HoldsNumber (Float.Model.ofNat 0) 0 := ⟨rfl, rfl⟩

theorem ok_of_toOption {ε α : Type} {result : Except ε α} {some : result.toOption.isSome}
    : result = .ok (result.toOption.get some) := by
  cases result with
  | error error => cases some
  | ok value => rfl

theorem defaultNumbers_hold {config : EffectiveConfig}
    (numbers
      : config.gate = threeTenths ∧ config.fits = threeTenths ∧ config.wFit = 1 ∧ config.wPrior = 0
        ∧ config.wPhase = 0)
    (counts
      : config.messages ≤ u32Max ∧ config.budgetChars ≤ u32Max ∧ config.top ≤ u32Max
        ∧ config.shortlist ≤ u32Max ∧ config.timeoutMs ≤ u64Max)
    (skills : config.excludeSkills.length ≤ usizeMax)
    (others
      : config.transcriptRoots = [] ∧ config.rosterRoots = [] ∧ config.selectedEndpoint = none
        ∧ config.cloudflareAccount = none)
    : defaultNumbers.Hold config := by
  obtain ⟨gate, fits, wFit, wPrior, wPhase⟩ := numbers
  obtain ⟨messages, budgetChars, top, shortlist, timeoutMs⟩ := counts
  obtain ⟨transcripts, rosters, endpoint, account⟩ := others
  exact {
    gate := gate ▸ threeTenthsDouble_holds
    fits := fits ▸ threeTenthsDouble_holds
    wFit := wFit ▸ one_holds
    wPrior := wPrior ▸ zero_holds
    wPhase := wPhase ▸ zero_holds
    messages := messages
    budgetChars := budgetChars
    top := top
    shortlist := shortlist
    timeoutMs := timeoutMs
    transcriptRoots := by rw [transcripts]; decide
    excludeSkills := skills
    rosterRoots := by rw [rosters]; decide
    endpoint := by simp [endpoint]
    account := by simp [account]
    transcriptPaths := by simp [transcripts]
    rosterPaths := by simp [rosters]
  }

theorem userFirst_held : defaultNumbers.Hold userFirst.effective :=
  defaultNumbers_hold (by decide +kernel) (by decide +kernel) (by decide +kernel)
    (by decide +kernel)

theorem projectFirst_held : defaultNumbers.Hold projectFirst.effective :=
  defaultNumbers_hold (by decide +kernel) (by decide +kernel) (by decide +kernel)
    (by decide +kernel)

def noFlags : EffectPolicy where
  flags := {
    offline := false
    allowNetwork := false
    dryRun := false
    noCache := false
    noLedger := false
    noPersist := false
    saveCase := false
  }
  agree := rfl

theorem twoOrders_samePolicy : SamePolicy userFirst.effective projectFirst.effective := by
  have first : userFirst.effective.excludeSkills.map BoundedText.text = ["a", "b"] := by
    decide +kernel
  have second : projectFirst.effective.excludeSkills.map BoundedText.text = ["b", "a"] := by
    decide +kernel
  have members : SameMembers userFirst.effective.excludeSkills projectFirst.effective.excludeSkills := by
    have texts (skill : SkillReference)
        : skill.text ∈ userFirst.effective.excludeSkills.map BoundedText.text
          ↔ skill.text ∈ projectFirst.effective.excludeSkills.map BoundedText.text := by
      rw [first, second]
      simp [or_comm]
    intro skill
    have told := texts skill
    rwa [List.mem_map_of_injective boundedText_injective,
      List.mem_map_of_injective boundedText_injective] at told
  have roots : userFirst.effective.rosterRoots = projectFirst.effective.rosterRoots := by
    decide +kernel
  have transcripts : userFirst.effective.transcriptRoots = projectFirst.effective.transcriptRoots := by
    decide +kernel
  constructor <;> first
    | exact members
    | exact fun _ => by rw [roots]
    | exact fun _ => by rw [transcripts]
    | decide +kernel
    | exact ⟨by decide +kernel, fun _ => by decide +kernel, fun _ => by decide +kernel⟩

/-- The two orders have one fingerprint, and one is superseded by the other. -/
theorem twoOrders_not_decided
    : ¬ FingerprintDecides id defaultNumbers defaultNumbers (userFirst.receipt noFlags)
        (projectFirst.receipt noFlags) := by
  intro decides
  have equal := decides.policy.mpr twoOrders_samePolicy
  have unchanged := decides.unchanged equal (by decide +kernel) (by decide +kernel)
    .providerAdmission
  revert unchanged
  decide +kernel

theorem twoOrders_decides_iff
    : FingerprintDecides id defaultNumbers defaultNumbers (userFirst.receipt noFlags)
        (projectFirst.receipt noFlags)
      ↔ OneOrder (userFirst.receipt noFlags) (projectFirst.receipt noFlags) :=
  fingerprintDecides_iff Function.injective_id ok_of_toOption ok_of_toOption userFirst_held
    projectFirst_held noFlags noFlags

end SkillRanker.Config
