import SkillRanker.Evaluation.AllocationBounds
import SkillRanker.Evaluation.Choices
import SkillRanker.Evaluation.Representatives

/-! What the verification of a manifest establishes, and that every drawn manifest passes it and is
replayed.
-/

namespace SkillRanker.Evaluation
open SkillRanker.Library

variable {status : DesignStatus} {manifest : FrozenSampleManifest} {hashing : Hashing}

-- Accepted manifests

def Declared (status : DesignStatus) (check : ℚ → Prop) (probability : Option ℚ) : Prop :=
  if status = .diagnosticFixed then probability = none
  else ∃ declared, probability = some declared ∧ 0 ≤ declared ∧ declared ≤ 1 ∧ check declared

def StratumFits (status : DesignStatus) (families : Nat)
    (actualStrata : List (String × List EvaluationCaseRecord))
    (stratum : String × StratumAllocation)
    : Prop :=
  stratum.2.stratumKey = stratum.1
  ∧ ∃ cases, actualStrata.lookup stratum.1 = some cases
    ∧ stratum.2.populationSize = cases.length ∧ stratum.2.sampleSize ≠ 0
    ∧ stratum.2.sampleSize ≤ stratum.2.populationSize
    ∧ |stratum.2.weight - (cases.length : ℚ) / (families : ℚ)| ≤ tolerance
    ∧ Declared status
        (fun declared =>
          |declared - (stratum.2.sampleSize : ℚ) / (stratum.2.populationSize : ℚ)| ≤ tolerance)
        stratum.2.inclusionProbability

theorem verifyStratum_eq_ok {families : Nat}
    {actualStrata : List (String × List EvaluationCaseRecord)}
    {stratum : String × StratumAllocation}
    : verifyStratum status families actualStrata stratum = .ok ()
      ↔ StratumFits status families actualStrata stratum := by
  unfold verifyStratum StratumFits Declared
  cases status with
  | diagnosticFixed => simp [ensure_eq_ok, require_eq_ok]
  | stratifiedProbabilitySample => simp [ensure_eq_ok, require_eq_ok]
  | fullCensus => simp [ensure_eq_ok, require_eq_ok]

def EntryFits (manifest : FrozenSampleManifest) (reps : List EvaluationCaseRecord)
    (entry : SampledCaseEntry)
    : Prop :=
  ∃ case, reps.find? (fun case => case.key.familyId = entry.caseKey.familyId) = some case
    ∧ entry.caseKey = case.key ∧ stratumKey case = entry.stratumKey
    ∧ ∃ alloc, manifest.strata.lookup entry.stratumKey = some alloc
      ∧ Declared manifest.designStatus (fun declared => some declared = alloc.inclusionProbability)
        entry.inclusionProbability

def EntryCounts.add (state : EntryCounts) (entry : SampledCaseEntry) : EntryCounts :=
  (entry.caseKey.familyId :: state.1,
    fun key => if key = entry.stratumKey then state.2 key + 1 else state.2 key)

variable {entry : SampledCaseEntry} {state : EntryCounts}
variable {reps : List EvaluationCaseRecord}

theorem verifyEntry_eq_ok {next : EntryCounts} {index : Nat}
    : verifyEntry manifest reps state (entry, index) = .ok next
      ↔ entry.sampleOrder = index + 1 ∧ entry.caseKey.familyId ∉ state.1
        ∧ EntryFits manifest reps entry ∧ next = state.add entry := by
  obtain ⟨seenFamilies, counts⟩ := state
  unfold verifyEntry EntryFits Declared EntryCounts.add
  cases manifest.designStatus with
  | diagnosticFixed =>
      simp [ensure_eq_ok, require_eq_ok]
      grind
  | stratifiedProbabilitySample =>
      simp [ensure_eq_ok, require_eq_ok]
      grind
  | fullCensus =>
      simp [ensure_eq_ok, require_eq_ok]
      grind

def EntryCounts.after (state : EntryCounts) (entries : List SampledCaseEntry) : EntryCounts :=
  entries.foldl EntryCounts.add state

theorem EntryCounts.after_counts (state : EntryCounts) (entries : List SampledCaseEntry)
    (key : String)
    : (state.after entries).2 key
      = state.2 key + entries.countP fun entry => entry.stratumKey = key := by
  induction entries generalizing state with
  | nil => rfl
  | cons entry rest ih =>
      rw [show state.after (entry :: rest) = (state.add entry).after rest from rfl, ih,
        List.countP_cons]
      change (if key = entry.stratumKey then state.2 key + 1 else state.2 key) + _ = _
      simp only [decide_eq_true_eq, eq_comm (a := entry.stratumKey)]
      split <;> omega

variable {entries : List SampledCaseEntry}

/-- The entries of a manifest pass exactly if they are numbered in order, are of different families,
and fit, by induction on them.
-/
theorem foldlM_verifyEntry {result : EntryCounts} {first : Nat}
    : (entries.zipIdx first).foldlM (verifyEntry manifest reps) state = .ok result
      ↔ (∀ indexed ∈ entries.zipIdx first, indexed.1.sampleOrder = indexed.2 + 1)
        ∧ (∀ entry ∈ entries, EntryFits manifest reps entry)
        ∧ (∀ entry ∈ entries, entry.caseKey.familyId ∉ state.1)
        ∧ (entries.map (·.caseKey.familyId)).Nodup ∧ result = state.after entries := by
  induction entries generalizing state first with
  | nil =>
      rw [List.zipIdx_nil, List.foldlM_nil, pure_eq_ok]
      simp [EntryCounts.after, eq_comm]
  | cons entry rest ih =>
      rw [List.zipIdx_cons, List.foldlM_cons, bind_eq_ok]
      simp only [verifyEntry_eq_ok, ih, List.forall_mem_cons, List.map_cons, List.nodup_cons]
      rw [show state.after (entry :: rest) = (state.add entry).after rest from rfl]
      constructor
      · rintro ⟨_, ⟨order, fresh, fits, rfl⟩, orders, others, unseen, distinct, rfl⟩
        refine ⟨⟨order, orders⟩, ⟨fits, others⟩, ⟨fresh, fun other mem seen => ?_⟩,
          ⟨?_, distinct⟩, rfl⟩
        · exact unseen other mem (List.mem_cons_of_mem _ seen)
        · intro again
          obtain ⟨other, mem, same⟩ := List.mem_map.mp again
          exact unseen other mem (same ▸ List.mem_cons_self)
      · rintro ⟨⟨order, orders⟩, ⟨fits, others⟩, ⟨fresh, unseen⟩, ⟨alone, distinct⟩, rfl⟩
        refine ⟨_, ⟨order, fresh, fits, rfl⟩, orders, others, fun other mem seen => ?_, distinct,
          rfl⟩
        rcases List.mem_cons.mp seen with same | before
        · exact alone (same ▸ List.mem_map_of_mem mem)
        · exact unseen other mem before

variable {case : EvaluationCaseRecord}

/-- A representative is found by its family. -/
theorem find?_of_distinct (distinct : (reps.map fun case => case.key.familyId).Nodup)
    (mem : case ∈ reps)
    : (reps.find? fun other => other.key.familyId = case.key.familyId) = some case := by
  have some : (reps.find? fun other => other.key.familyId = case.key.familyId).isSome :=
    List.find?_isSome.mpr ⟨case, mem, by simp⟩
  obtain ⟨found, isFound⟩ := Option.isSome_iff_exists.mp some
  have family : found.key.familyId = case.key.familyId := by simpa using List.find?_some isFound
  rw [isFound, List.inj_on_of_nodup_map distinct (List.mem_of_find?_eq_some isFound) mem family]

structure Confirmed (manifest : FrozenSampleManifest) (reps : List EvaluationCaseRecord)
    : Prop where
  families : manifest.totalFrameFamilies = reps.length
  entries : manifest.totalSampledFamilies = manifest.selectedCases.length
  strata : manifest.strata.length = (partitionStrata reps).length
  represented : ∀ stratum ∈ manifest.strata,
    StratumFits manifest.designStatus reps.length (partitionStrata reps) stratum
  numbered : ∀ indexed ∈ manifest.selectedCases.zipIdx, indexed.1.sampleOrder = indexed.2 + 1
  selected : ∀ entry ∈ manifest.selectedCases, EntryFits manifest reps entry
  distinct : (manifest.selectedCases.map (·.caseKey.familyId)).Nodup
  counts : ∀ stratum ∈ manifest.strata,
    (manifest.selectedCases.countP fun entry => entry.stratumKey = stratum.1)
      = stratum.2.sampleSize
  census : manifest.designStatus = .fullCensus
    → manifest.totalSampledFamilies = manifest.totalFrameFamilies
  provenance : manifest.randomizationProvenance = .census → manifest.designStatus = .fullCensus

theorem verifyContents_eq_ok
    : verifyContents manifest reps = .ok () ↔ Confirmed manifest reps := by
  unfold verifyContents
  simp only [bind_eq_ok, ensure_eq_ok, Unique.exists_iff, PUnit.default_eq_unit,
    forM_eq_ok, verifyStratum_eq_ok, foldlM_verifyEntry]
  constructor
  · rintro ⟨families, entries, strata, represented, _,
      ⟨numbered, selected, _, distinct, rfl⟩, counts, census, provenance⟩
    refine { families, entries, strata, represented, numbered, selected, distinct, census,
             provenance, counts := fun stratum mem => ?_ }
    have counted := counts stratum mem
    rw [EntryCounts.after_counts, Nat.zero_add] at counted
    exact counted
  · intro confirmed
    refine ⟨confirmed.families, confirmed.entries, confirmed.strata, confirmed.represented, _,
      ⟨confirmed.numbered, confirmed.selected, fun _ _ => List.not_mem_nil, confirmed.distinct,
        rfl⟩, fun stratum mem => ?_, confirmed.census, confirmed.provenance⟩
    rw [EntryCounts.after_counts, Nat.zero_add]
    exact confirmed.counts stratum mem

variable {cases : List EvaluationCaseRecord}

/-- A manifest is accepted exactly if it passes by itself and the representatives that its split and
rule select from the frame have its digest and confirm it.
-/
theorem verifyManifestAgainstFrame_eq_ok
    : verifyManifestAgainstFrame hashing manifest cases = .ok ()
      ↔ verifyManifest hashing manifest = .ok ()
        ∧ ∃ reps,
            selectFamilyRepresentatives cases manifest.split manifest.representativeRule = .ok reps
            ∧ reps ≠ [] ∧ computeFrameDigest hashing reps = manifest.frameDigest
            ∧ Confirmed manifest reps := by
  unfold verifyManifestAgainstFrame
  simp only [bind_eq_ok, mapError_eq_ok, ensure_eq_ok, Unique.exists_iff,
    PUnit.default_eq_unit, verifyContents_eq_ok]

/-- The entries of a manifest are replayed as the representatives with their keys, in their order,
by induction on them.
-/
theorem replay_entries (known : ∀ entry ∈ entries, ∃ case ∈ reps, case.key = entry.caseKey)
    : ∃ sample,
        (entries.mapM fun entry =>
            require (reps.find? fun case => case.key = entry.caseKey)
              (EvaluationError.manifestVerificationFailure (.lostCase entry.caseKey)))
          = .ok sample
        ∧ sample.map (·.key) = entries.map (·.caseKey) ∧ ∀ case ∈ sample, case ∈ reps := by
  induction entries with
  | nil => exact ⟨[], rfl, rfl, nofun⟩
  | cons entry rest ih =>
      rw [List.forall_mem_cons] at known
      obtain ⟨⟨listed, listedMem, own⟩, others⟩ := known
      obtain ⟨sample, ran, keys, inside⟩ := ih others
      have some : (reps.find? fun case => case.key = entry.caseKey).isSome :=
        List.find?_isSome.mpr ⟨listed, listedMem, by simpa using own⟩
      obtain ⟨case, found⟩ := Option.isSome_iff_exists.mp some
      have key : case.key = entry.caseKey := by simpa using List.find?_some found
      refine ⟨case :: sample, ?_, ?_, ?_⟩
      · rw [List.mapM_cons, found, ran]
        rfl
      · rw [List.map_cons, List.map_cons, key, keys]
      · rw [List.forall_mem_cons]
        exact ⟨List.mem_of_find?_eq_some found, inside⟩

theorem replay_accepted (accepted : verifyManifestAgainstFrame hashing manifest cases = .ok ())
    (selected
      : selectFamilyRepresentatives cases manifest.split manifest.representativeRule = .ok reps)
    (confirmed : Confirmed manifest reps)
    : ∃ sample, replayManifestSample hashing manifest cases = .ok sample
        ∧ sample.map (·.key) = manifest.selectedCases.map (·.caseKey)
        ∧ ∀ case ∈ sample, case ∈ reps := by
  have known : ∀ entry ∈ manifest.selectedCases, ∃ case ∈ reps, case.key = entry.caseKey := by
    intro entry mem
    obtain ⟨case, found, key, _⟩ := confirmed.selected entry mem
    exact ⟨case, List.mem_of_find?_eq_some found, key.symm⟩
  obtain ⟨sample, ran, named⟩ := replay_entries known
  refine ⟨sample, ?_, named⟩
  unfold replayManifestSample
  rw [accepted, ok_bind, selected, ok_bind, ran]

/-- The manifest has exactly as many cases of each represented stratum as it says, and some. -/
theorem Confirmed.samples (confirmed : Confirmed manifest reps) (mem : case ∈ reps)
    : ∃ alloc, manifest.strata.lookup (stratumKey case) = some alloc ∧ 1 ≤ alloc.sampleSize
        ∧ (manifest.selectedCases.countP fun entry => entry.stratumKey = stratumKey case)
          = alloc.sampleSize := by
  have keys : (manifest.strata.map Prod.fst).Perm ((partitionStrata reps).map Prod.fst) := by
    refine List.Subperm.perm_of_length_le (manifest.ordered.nodup.subperm fun key listed => ?_)
      (by rw [List.length_map, List.length_map, confirmed.strata])
    obtain ⟨stratum, stratumMem, rfl⟩ := List.mem_map.mp listed
    obtain ⟨_, group, found, _⟩ := confirmed.represented stratum stratumMem
    exact List.mem_map.mpr ⟨_, mem_of_lookup found, rfl⟩
  obtain ⟨group, grouped, _⟩ : ∃ group, (stratumKey case, group) ∈ groupEntries stratumKey reps
      ∧ case ∈ group := exists_group mem
  have own : stratumKey case ∈ (partitionStrata reps).map Prod.fst := by
    rw [partitionStrata, List.map_map]
    exact List.mem_map.mpr ⟨_, grouped, rfl⟩
  obtain ⟨⟨key, alloc⟩, stratumMem, same⟩ := List.mem_map.mp (keys.mem_iff.mpr own)
  cases same
  obtain ⟨_, _, _, _, sampled, _⟩ := confirmed.represented _ stratumMem
  exact ⟨alloc, manifest.ordered.lookup_eq_some_iff.mpr stratumMem,
    Nat.one_le_iff_ne_zero.mpr sampled, confirmed.counts _ stratumMem⟩

theorem Confirmed.probabilities (confirmed : Confirmed manifest reps)
    (declared
      : (∃ stratum ∈ manifest.strata, stratum.2.inclusionProbability ≠ none)
        ∨ ∃ entry ∈ manifest.selectedCases, entry.inclusionProbability ≠ none)
    : manifest.designStatus ≠ .diagnosticFixed := by
  intro diagnostic
  rcases declared with ⟨stratum, mem, present⟩ | ⟨entry, mem, present⟩
  · obtain ⟨_, _, _, _, _, _, _, probability⟩ := confirmed.represented stratum mem
    rw [diagnostic, Declared, if_pos rfl] at probability
    exact present probability
  · obtain ⟨_, _, _, _, _, _, probability⟩ := confirmed.selected entry mem
    rw [diagnostic, Declared, if_pos rfl] at probability
    exact present probability

-- Drawn manifests

/-- Cases that a stratum gives: different ones of its cases, as many as asked for. -/
structure Picked (cases : List EvaluationCaseRecord) (size : Nat)
    (picked : List EvaluationCaseRecord)
    : Prop where
  distinct : picked.Nodup
  length : picked.length = size
  among : ∀ case ∈ picked, case ∈ cases

theorem picked_of_chosen (distinct : cases.Nodup) {size : Nat} {indices : List Nat}
    (chosen : Chosen cases.length size indices)
    : Picked cases size (indices.filterMap fun index => cases[index]?) where
  distinct := by
    refine chosen.distinct.filterMap ?_
    intro left right case leftAt rightAt
    exact (List.getElem?_inj (List.getElem?_eq_some_iff.mp leftAt).1 distinct).mp
      (leftAt.trans rightAt.symm)
  length := by
    rw [← chosen.length, List.filterMap_length_eq_length]
    intro index mem
    rw [List.getElem?_eq_getElem (chosen.below index mem)]
    rfl
  among case mem := by
    obtain ⟨index, _, found⟩ := List.mem_filterMap.mp mem
    exact List.mem_of_getElem? found

theorem yields_pickCases (fuel : Nat) {size : Nat} (distinct : cases.Nodup)
    (whole : status = .fullCensus → size = cases.length)
    : Yields (pickCases fuel status size cases) (Picked cases size) := by
  unfold pickCases
  split
  · next all => exact yields_pure ⟨distinct, all.symm, fun _ mem => mem⟩
  · next some =>
    rw [if_pos fun full => some (whole full)]
    refine (yields_choiceIndices (yields_boundedU64 _ fuel) cases.length size).bind ?_
    exact fun indices chosen => yields_pure (picked_of_chosen distinct chosen)

section
variable {reps : List EvaluationCaseRecord}

theorem partitionStrata_ordered (reps : List EvaluationCaseRecord)
    : Ordered (partitionStrata reps) :=
  groupEntries_map_ordered _ _ _

/-- The cases of a stratum are the representatives in it, each once, and there are some. -/
theorem mem_partitionStrata {stratum : String × List EvaluationCaseRecord}
    (listed : stratum ∈ partitionStrata reps)
    : stratum.2 ≠ [] ∧ (reps.Nodup → stratum.2.Nodup)
      ∧ ∀ case ∈ stratum.2, case ∈ reps ∧ stratumKey case = stratum.1 := by
  obtain ⟨⟨key, group⟩, grouped, rfl⟩ := List.mem_map.mp listed
  obtain ⟨own, some⟩ := mem_groupEntries.mp grouped
  refine ⟨fun none => some ?_, fun distinct => ?_, fun case mem => ?_⟩
  · have length := congrArg List.length none
    rw [List.length_mergeSort] at length
    exact List.length_eq_zero_iff.mp length
  · refine (List.mergeSort_perm _ _).nodup_iff.mpr ?_
    rw [own]
    exact distinct.filter _
  · exact of_mem_group grouped (List.mem_mergeSort.mp mem)

theorem sum_length_partitionStrata (reps : List EvaluationCaseRecord)
    : ((partitionStrata reps).map fun stratum => stratum.2.length).sum = reps.length := by
  have grouped : ((groupEntries stratumKey reps).map fun group => group.2.length).sum
      = reps.length := sum_length_groupEntries reps
  rw [partitionStrata, List.map_map, ← grouped]
  simp [Function.comp_def]

end

/-- What is drawn of each stratum goes with the stratum. -/
def PickedOf (allocations : List (String × Nat)) (stratum pick : String × List EvaluationCaseRecord)
    : Prop :=
  pick.1 = stratum.1 ∧ Picked stratum.2 ((allocations.lookup stratum.1).getD 0) pick.2

theorem yields_pickStrata (fuel : Nat) {allocations : List (String × Nat)}
    {strata : List (String × List EvaluationCaseRecord)}
    (distinct : ∀ stratum ∈ strata, stratum.2.Nodup)
    (whole
      : status = .fullCensus → ∀ stratum ∈ strata,
          (allocations.lookup stratum.1).getD 0 = stratum.2.length)
    : Yields (pickStrata fuel status allocations strata)
        (List.Forall₂ (PickedOf allocations) strata) := by
  refine yields_mapM fun stratum mem => ?_
  refine (yields_pickCases fuel (distinct stratum mem) fun full => whole full stratum mem).bind ?_
  exact fun picked sound => yields_pure ⟨rfl, sound⟩

def drawnCases (picks : List (String × List EvaluationCaseRecord))
    : List (String × EvaluationCaseRecord) :=
  picks.flatMap fun pick => pick.2.map fun case => (pick.1, case)

variable {picks : List (String × List EvaluationCaseRecord)}

theorem mem_drawnCases {key : String}
    : (key, case) ∈ drawnCases picks ↔ ∃ cases, (key, cases) ∈ picks ∧ case ∈ cases := by
  simp [drawnCases]

/-- The cases drawn of a stratum are as many as were picked of it, by induction on the strata. -/
theorem countP_drawnCases (ordered : Ordered picks) {pick : String × List EvaluationCaseRecord}
    (mem : pick ∈ picks)
    : ((drawnCases picks).countP fun drawn => drawn.1 = pick.1) = pick.2.length := by
  induction picks with
  | nil => cases mem
  | cons first rest ih =>
      obtain ⟨below, restOrdered⟩ := List.pairwise_cons.mp ordered
      rw [drawnCases, List.flatMap_cons, List.countP_append, List.countP_map]
      rcases List.mem_cons.mp mem with rfl | later
      · have others : ((drawnCases rest).countP fun drawn => drawn.1 = pick.1) = 0 := by
          refine List.countP_eq_zero.mpr fun ⟨key, case⟩ drawn => ?_
          obtain ⟨cases, listed, _⟩ := mem_drawnCases.mp drawn
          simpa using (ne_of_lt (below _ listed)).symm
        rw [← drawnCases, others]
        simp [Function.comp_def]
      · rw [← drawnCases, ih restOrdered later]
        simp [Function.comp_def, ne_of_lt (below _ later)]

theorem entriesOf_keys (strata : List (String × StratumAllocation))
    (picks : List (String × List EvaluationCaseRecord))
    : (entriesOf strata picks).map (fun entry => (entry.stratumKey, entry.caseKey))
      = (drawnCases picks).map fun drawn => (drawn.1, drawn.2.key) := by
  rw [entriesOf, List.map_map, ← drawnCases]
  conv_rhs => rw [← List.zipIdx_map_fst 1 (drawnCases picks), List.map_map]
  rfl

variable {strata : List (String × StratumAllocation)}

theorem mem_entriesOf (mem : entry ∈ entriesOf strata picks)
    : ∃ drawn ∈ drawnCases picks, entry.caseKey = drawn.2.key ∧ entry.stratumKey = drawn.1
        ∧ entry.inclusionProbability
          = (strata.lookup drawn.1).bind (·.inclusionProbability) := by
  obtain ⟨⟨drawn, order⟩, listed, rfl⟩ := List.mem_map.mp mem
  exact ⟨drawn, List.fst_mem_of_mem_zipIdx listed, rfl, rfl, rfl⟩

theorem entriesOf_numbered {indexed : SampledCaseEntry × Nat}
    (mem : indexed ∈ (entriesOf strata picks).zipIdx)
    : indexed.1.sampleOrder = indexed.2 + 1 := by
  obtain ⟨entry, index⟩ := indexed
  have placed := List.mk_mem_zipIdx_iff_getElem?.mp mem
  rw [entriesOf, List.getElem?_map, List.getElem?_zipIdx] at placed
  cases found : (drawnCases picks)[index]? with
  | none =>
      rw [drawnCases] at found
      simp [found] at placed
  | some drawn =>
      rw [drawnCases] at found
      rw [found] at placed
      cases placed
      exact Nat.add_comm 1 index

theorem declared_inclusionProbability {sampleSize populationSize : Nat}
    (sized : 1 ≤ sampleSize ∧ sampleSize ≤ populationSize) {check : ℚ → Prop}
    (passes : status ≠ .diagnosticFixed → check ((sampleSize : ℚ) / (populationSize : ℚ)))
    : Declared status check (inclusionProbabilityOf status sampleSize populationSize) := by
  have share : (0 : ℚ) ≤ (sampleSize : ℚ) / (populationSize : ℚ)
      ∧ (sampleSize : ℚ) / (populationSize : ℚ) ≤ 1 := by
    refine ⟨by positivity, (div_le_one (by exact_mod_cast sized.1.trans sized.2)).mpr ?_⟩
    exact_mod_cast sized.2
  unfold Declared
  cases status with
  | diagnosticFixed => rfl
  | stratifiedProbabilitySample => exact ⟨_, rfl, share.1, share.2, passes nofun⟩
  | fullCensus => exact ⟨_, rfl, share.1, share.2, passes nofun⟩

def drawnAllocation (status : DesignStatus) (families : Nat) (allocations : List (String × Nat))
    (stratum : String × List EvaluationCaseRecord)
    : StratumAllocation where
  stratumKey := stratum.1
  populationSize := stratum.2.length
  sampleSize := (allocations.lookup stratum.1).getD 0
  weight := (stratum.2.length : ℚ) / (families : ℚ)
  inclusionProbability :=
    inclusionProbabilityOf status ((allocations.lookup stratum.1).getD 0) stratum.2.length

section
variable {reps : List EvaluationCaseRecord} {allocations : List (String × Nat)}
  {picks : List (String × List EvaluationCaseRecord)}
  (distinct : (reps.map fun case => case.key.familyId).Nodup)
  (picked : List.Forall₂ (PickedOf allocations) (partitionStrata reps) picks)
include picked

theorem picks_ordered : Ordered picks := by
  refine (pairwise_along ?_ picked).mp (partitionStrata_ordered reps)
  intro one two first second here there
  rw [here.1, there.1]

theorem of_mem_drawnCases {drawn : String × EvaluationCaseRecord}
    (mem : drawn ∈ drawnCases picks)
    : drawn.2 ∈ reps ∧ stratumKey drawn.2 = drawn.1
      ∧ ∃ cases, (drawn.1, cases) ∈ partitionStrata reps := by
  obtain ⟨cases, listed, caseMem⟩ := mem_drawnCases.mp mem
  obtain ⟨⟨key, group⟩, grouped, same, sound⟩ := exists_left picked listed
  cases same
  obtain ⟨inFrame, own⟩ := (mem_partitionStrata grouped).2.2 _ (sound.among _ caseMem)
  exact ⟨inFrame, own, group, grouped⟩

theorem length_drawnCases
    (whole
      : ∀ stratum ∈ partitionStrata reps,
          (allocations.lookup stratum.1).getD 0 = stratum.2.length)
    : (drawnCases picks).length = reps.length := by
  have lengths : (partitionStrata reps).map (fun stratum => stratum.2.length)
      = picks.map fun pick => pick.2.length := by
    rw [← List.forall₂_eq_eq_eq, List.forall₂_map_left_iff, List.forall₂_map_right_iff]
    refine ((List.forall₂_and_left _ _).mpr ⟨whole, picked⟩).imp ?_
    rintro stratum pick ⟨all, _, sound⟩
    rw [← all, sound.length]
  rw [← sum_length_partitionStrata reps, lengths, drawnCases, List.length_flatMap]
  simp

include distinct

theorem drawnCases_distinct : ((drawnCases picks).map fun drawn => drawn.2.key.familyId).Nodup := by
  have same : (drawnCases picks).map (fun drawn => drawn.2.key.familyId)
      = (picks.flatMap Prod.snd).map fun case => case.key.familyId := by
    rw [drawnCases, List.map_flatMap, List.map_flatMap]
    simp [Function.comp_def]
  have listed (case : EvaluationCaseRecord) (mem : case ∈ picks.flatMap Prod.snd)
      : ∃ pick ∈ picks, case ∈ pick.2 ∧ case ∈ reps ∧ stratumKey case = pick.1 := by
    obtain ⟨pick, pickMem, caseMem⟩ := List.mem_flatMap.mp mem
    obtain ⟨inFrame, own, _⟩ := of_mem_drawnCases picked
      (mem_drawnCases.mpr ⟨pick.2, pickMem, caseMem⟩)
    exact ⟨pick, pickMem, caseMem, inFrame, own⟩
  rw [same]
  refine List.Nodup.map_on ?_ ?_
  · intro left leftMem right rightMem family
    obtain ⟨_, _, _, leftIn, _⟩ := listed left leftMem
    obtain ⟨_, _, _, rightIn, _⟩ := listed right rightMem
    exact List.inj_on_of_nodup_map distinct leftIn rightIn family
  · refine List.nodup_flatMap.mpr ⟨fun pick mem => ?_, ?_⟩
    · obtain ⟨_, _, _, sound⟩ := exists_left picked mem
      exact sound.distinct
    · refine List.Pairwise.imp_of_mem ?_ (picks_ordered picked)
      intro left right leftMem rightMem below case inLeft inRight
      have leftOwn := (of_mem_drawnCases picked
        (mem_drawnCases.mpr ⟨left.2, leftMem, inLeft⟩)).2.1
      have rightOwn := (of_mem_drawnCases picked
        (mem_drawnCases.mpr ⟨right.2, rightMem, inRight⟩)).2.1
      exact absurd (leftOwn.symm.trans rightOwn) (ne_of_lt below)

theorem confirmed_of_drawn (families : manifest.totalFrameFamilies = reps.length)
    (entries : manifest.totalSampledFamilies = manifest.selectedCases.length)
    (strata
      : manifest.strata
        = strataOf manifest.designStatus reps.length allocations (partitionStrata reps))
    (selected : manifest.selectedCases = entriesOf manifest.strata picks)
    (sized
      : ∀ stratum ∈ partitionStrata reps,
          1 ≤ (allocations.lookup stratum.1).getD 0
          ∧ (allocations.lookup stratum.1).getD 0 ≤ stratum.2.length)
    (whole
      : manifest.designStatus = .fullCensus → ∀ stratum ∈ partitionStrata reps,
          (allocations.lookup stratum.1).getD 0 = stratum.2.length)
    (provenance
      : manifest.randomizationProvenance = .census → manifest.designStatus = .fullCensus)
    : Confirmed manifest reps := by
  have listed {stratum : String × StratumAllocation} (mem : stratum ∈ manifest.strata)
      : ∃ cases, (stratum.1, cases) ∈ partitionStrata reps
          ∧ stratum.2
            = drawnAllocation manifest.designStatus reps.length allocations (stratum.1, cases) := by
    rw [strata] at mem
    obtain ⟨⟨key, cases⟩, grouped, rfl⟩ := List.mem_map.mp mem
    exact ⟨cases, grouped, rfl⟩
  have keys : manifest.selectedCases.map (fun entry => (entry.stratumKey, entry.caseKey))
      = (drawnCases picks).map fun drawn => (drawn.1, drawn.2.key) := by
    rw [selected, entriesOf_keys]
  refine {
    families, entries, provenance
    strata := by rw [strata, strataOf, List.length_map]
    represented := ?_
    numbered := ?_
    selected := ?_
    distinct := ?_
    counts := ?_
    census := ?_ }
  · intro stratum mem
    obtain ⟨cases, grouped, allocated⟩ := listed mem
    obtain ⟨key, alloc⟩ := stratum
    dsimp only at allocated grouped
    subst allocated
    have near (number : ℚ) : |number - number| ≤ tolerance := by
      rw [sub_self, abs_zero]
      exact by unfold tolerance; positivity
    obtain ⟨positive, fits⟩ := sized _ grouped
    exact ⟨rfl, cases, (partitionStrata_ordered reps).lookup_eq_some_iff.mpr grouped, rfl,
      Nat.one_le_iff_ne_zero.mp positive, fits, near _,
      declared_inclusionProbability ⟨positive, fits⟩ fun _ => near _⟩
  · intro indexed mem
    rw [selected] at mem
    exact entriesOf_numbered mem
  · intro entry mem
    rw [selected] at mem
    obtain ⟨⟨key, case⟩, drawnMem, named, inStratum, probability⟩ := mem_entriesOf mem
    obtain ⟨inFrame, own, cases, grouped⟩ := of_mem_drawnCases picked drawnMem
    dsimp only at *
    subst inStratum
    have allocated : manifest.strata.lookup entry.stratumKey
        = some (drawnAllocation manifest.designStatus reps.length allocations
          (entry.stratumKey, cases)) := by
      rw [manifest.ordered.lookup_eq_some_iff, strata]
      exact List.mem_map.mpr ⟨(entry.stratumKey, cases), grouped, rfl⟩
    refine ⟨case, ?_, named, own, _, allocated, ?_⟩
    · rw [named]
      exact find?_of_distinct distinct inFrame
    · rw [probability, allocated, Option.bind_some]
      refine declared_inclusionProbability (sized _ grouped) fun declared => ?_
      cases status : manifest.designStatus with
      | diagnosticFixed => exact absurd status declared
      | stratifiedProbabilitySample => rfl
      | fullCensus => rfl
  · have families := congrArg (List.map fun pair => pair.2.familyId) keys
    rw [List.map_map, List.map_map] at families
    exact families ▸ drawnCases_distinct distinct picked
  · intro stratum mem
    obtain ⟨cases, grouped, allocated⟩ := listed mem
    obtain ⟨pick, pickMem, same, sound⟩ := exists_right picked grouped
    have counted := congrArg (List.countP fun pair => pair.1 = stratum.1) keys
    rw [List.countP_map, List.countP_map] at counted
    have drawn := countP_drawnCases (picks_ordered picked) pickMem
    rw [same] at drawn
    rw [allocated]
    exact counted.trans (drawn.trans sound.length)
  · intro full
    rw [entries, families, ← length_drawnCases picked (whole full)]
    have length := congrArg List.length keys
    rw [List.length_map, List.length_map] at length
    exact length

end

def strataSizesOf (reps : List EvaluationCaseRecord) : List (String × Nat) :=
  (partitionStrata reps).map fun stratum => (stratum.1, stratum.2.length)

theorem strataSizesOf_ordered (reps : List EvaluationCaseRecord) : Ordered (strataSizesOf reps) :=
  List.Pairwise.map _ (fun _ _ below => below) (partitionStrata_ordered reps)

variable {provenance : RandomizationProvenance}

theorem designStatusOf_fullCensus {isFullCensus : Bool}
    : designStatusOf isFullCensus provenance = .fullCensus ↔ isFullCensus = true := by
  cases isFullCensus <;> cases provenance <;> simp [designStatusOf]

/-- A drawn manifest passes by itself and is confirmed by the representatives it was drawn of. -/
theorem confirmed_of_draw {fuel : Nat} {split : EvaluationSplit} {totalSampleSize : Nat}
    {method : AllocationMethod} {rule : FamilyRepresentativeRule} {policyId : String}
    {createdAtUnixMs : Nat} (distinct : (reps.map fun case => case.key.familyId).Nodup)
    (drawn
      : drawStratifiedSampleWithRule hashing fuel reps split totalSampleSize method provenance rule
          policyId createdAtUnixMs
        = some (.ok manifest))
    : verifyManifest hashing manifest = .ok () ∧ manifest.split = split
      ∧ manifest.representativeRule = rule ∧ reps ≠ []
      ∧ computeFrameDigest hashing reps = manifest.frameDigest ∧ Confirmed manifest reps := by
  unfold drawStratifiedSampleWithRule at drawn
  dsimp only at drawn
  split at drawn
  · cases drawn
  next allocations isFullCensus planned =>
  obtain ⟨_, represented, planned⟩ := bind_eq_ok.mp planned
  obtain ⟨allocated, allocates, planned⟩ := bind_eq_ok.mp planned
  obtain ⟨_, censusOnly, planned⟩ := bind_eq_ok.mp planned
  cases pure_eq_ok.mp planned
  have some := ensure_eq_ok.mp represented
  have provenanceFits := ensure_eq_ok.mp censusOnly
  obtain ⟨shares, _⟩ := allocateSampleSizes_done (strataSizesOf_ordered reps) allocates
  have found {stratum : String × List EvaluationCaseRecord} (mem : stratum ∈ partitionStrata reps)
      : ∃ count, allocations.lookup stratum.1 = Option.some count ∧ 1 ≤ count
          ∧ count ≤ stratum.2.length := by
    obtain ⟨count, here, positive, _, fits⟩ :=
      shares.within (stratum.1, stratum.2.length) (List.mem_map.mpr ⟨stratum, mem, rfl⟩)
    exact ⟨count, here, positive, fits⟩
  have sized (stratum) (mem : stratum ∈ partitionStrata reps)
      : 1 ≤ (allocations.lookup stratum.1).getD 0
          ∧ (allocations.lookup stratum.1).getD 0 ≤ stratum.2.length := by
    obtain ⟨count, here, bounds⟩ := found mem
    rw [here]
    exact bounds
  -- a census takes of each stratum what the stratum has
  have whole (full : (allocations.all fun allocation =>
        (strataSizesOf reps).lookup allocation.1 = Option.some allocation.2) = true)
      (stratum) (mem : stratum ∈ partitionStrata reps)
      : (allocations.lookup stratum.1).getD 0 = stratum.2.length := by
    obtain ⟨count, here, _⟩ := found mem
    have all := of_decide_eq_true (List.all_eq_true.mp full _ (mem_of_lookup here))
    have size : (strataSizesOf reps).lookup stratum.1 = Option.some stratum.2.length :=
      (strataSizesOf_ordered reps).lookup_eq_some_iff.mpr (List.mem_map.mpr ⟨stratum, mem, rfl⟩)
    rw [here, Option.getD_some]
    exact Option.some.inj (all.symm.trans size)
  split at drawn
  · cases drawn
  · cases drawn
  next picks left pickedSo =>
  have picked : List.Forall₂ (PickedOf allocations) (partitionStrata reps) picks := by
    refine yields_pickStrata fuel (fun stratum mem => ?_) (fun full => ?_) _ _ _ pickedSo
    · exact (mem_partitionStrata mem).2.1 (List.Nodup.of_map _ distinct)
    · exact whole (designStatusOf_fullCensus.mp full)
  cases drawn
  refine ⟨?_, rfl, rfl, some, rfl, confirmed_of_drawn distinct picked rfl rfl rfl rfl sized ?_ ?_⟩
  · unfold verifyManifest
    simp only [bind_eq_ok, ensure_eq_ok, Unique.exists_iff]
    refine ⟨trivial, trivial, ?_, trivial, rfl⟩
    intro probability
    unfold designStatusOf at probability
    split at probability
    · cases probability
    · cases provenance with
      | osRandom entropySource seed => rfl
      | suppliedManual seed => cases probability
      | suppliedImported seed manifestDigest => cases probability
      | census => cases probability
  · exact fun full => whole (designStatusOf_fullCensus.mp full)
  · exact fun census => designStatusOf_fullCensus.mpr (provenanceFits census)

/-- Over a frame whose families do not span splits, every manifest that is drawn of the selected
representatives is accepted and replays exactly the drawn ones in the drawn order. Every accepted
manifest selects each family at most once, has as many cases of each represented stratum as it says
and at least one, and has probabilities only as a census or as a sample by the randomness of the
system.
-/
theorem drawn_verified_replayed (hashing : Hashing) (cases : List EvaluationCaseRecord)
    (isolated : Isolated cases)
    : (∀ split rule, ∃ reps, selectFamilyRepresentatives cases split rule = .ok reps
        ∧ ∀ fuel totalSampleSize method provenance policyId createdAtUnixMs manifest,
            drawStratifiedSampleWithRule hashing fuel reps split totalSampleSize method provenance
                rule policyId createdAtUnixMs
              = some (.ok manifest)
            → verifyManifestAgainstFrame hashing manifest cases = .ok ()
              ∧ ∃ sample, replayManifestSample hashing manifest cases = .ok sample
                ∧ sample.map (·.key) = manifest.selectedCases.map (·.caseKey)
                ∧ ∀ case ∈ sample, case ∈ reps)
      ∧ ∀ manifest, verifyManifestAgainstFrame hashing manifest cases = .ok ()
        → ∃ reps,
            selectFamilyRepresentatives cases manifest.split manifest.representativeRule = .ok reps
            ∧ (∀ entry ∈ manifest.selectedCases, ∃ case ∈ reps,
                case.key = entry.caseKey ∧ stratumKey case = entry.stratumKey)
            ∧ (manifest.selectedCases.map (·.caseKey.familyId)).Nodup
            ∧ (∀ case ∈ reps, ∃ alloc, manifest.strata.lookup (stratumKey case) = some alloc
                ∧ 1 ≤ alloc.sampleSize
                ∧ (manifest.selectedCases.countP fun entry => entry.stratumKey = stratumKey case)
                  = alloc.sampleSize)
            ∧ ((∃ stratum ∈ manifest.strata, stratum.2.inclusionProbability ≠ none)
                ∨ (∃ entry ∈ manifest.selectedCases, entry.inclusionProbability ≠ none)
                → (manifest.designStatus = .fullCensus
                    ∧ manifest.selectedCases.length = reps.length)
                  ∨ (manifest.designStatus = .stratifiedProbabilitySample
                    ∧ manifest.randomizationProvenance.isOsRandom = true)) := by
  refine ⟨fun split rule => ?_, fun manifest accepted => ?_⟩
  · refine ⟨_, select_eq_ok.mpr ⟨isolated, rfl⟩, ?_⟩
    intro fuel totalSampleSize method provenance policyId createdAtUnixMs manifest drawn
    have selected : selectFamilyRepresentatives cases split rule = .ok _ :=
      select_eq_ok.mpr ⟨isolated, rfl⟩
    obtain ⟨passes, rfl, rfl, some, digest, confirmed⟩ :=
      confirmed_of_draw (representatives_spec selected).1 drawn
    have accepted := verifyManifestAgainstFrame_eq_ok.mpr
      ⟨passes, _, selected, some, digest, confirmed⟩
    exact ⟨accepted, replay_accepted accepted selected confirmed⟩
  · obtain ⟨passes, reps, selected, _, _, confirmed⟩ := verifyManifestAgainstFrame_eq_ok.mp accepted
    refine ⟨reps, selected, fun entry mem => ?_, confirmed.distinct, fun case mem =>
      confirmed.samples mem, fun declared => ?_⟩
    · obtain ⟨case, found, key, own, _⟩ := confirmed.selected entry mem
      exact ⟨case, List.mem_of_find?_eq_some found, key.symm, own⟩
    · have some := confirmed.probabilities declared
      cases status : manifest.designStatus with
      | diagnosticFixed => exact absurd status some
      | stratifiedProbabilitySample =>
          refine Or.inr ⟨rfl, ?_⟩
          unfold verifyManifest at passes
          simp only [bind_eq_ok, ensure_eq_ok, Unique.exists_iff] at passes
          exact passes.2.2.1 status
      | fullCensus =>
          refine Or.inl ⟨rfl, ?_⟩
          rw [← confirmed.entries, ← confirmed.families]
          exact confirmed.census status

def fixedHashing : Hashing where
  hexDigest _ := "0123456789abcdef0123456789abcdef0123456789abcdef0123456789abcdef"
  toBits _ := 0

def caseOfFamily (familyId : String) (replicate : Nat) (promptSummary : Option String)
    : EvaluationCaseRecord :=
  { caseUnderPolicy "policy-1" with
    key := { (caseUnderPolicy "policy-1").key with familyId := familyId, replicate := replicate }
    promptSummary := promptSummary }

namespace FourFamilies

def complete : List EvaluationCaseRecord :=
  [caseOfFamily "family-1" 0 (some "fix the tests"),
    caseOfFamily "family-2" 0 (some "fix the tests")]

def degraded : List EvaluationCaseRecord :=
  [caseOfFamily "family-3" 0 none, caseOfFamily "family-4" 0 none]

/-- Four families of the holdout, one of them replicated, and a family of another split. -/
def frame : List EvaluationCaseRecord :=
  { caseOfFamily "family-5" 0 none with split := .train }
    :: caseOfFamily "family-1" 1 (some "fix the tests") :: (complete ++ degraded)

theorem isolated : Isolated frame := by
  unfold Isolated
  decide +kernel

theorem selected
    : selectFamilyRepresentatives frame .holdout .firstByCaseIdReplicate
      = .ok (complete ++ degraded) := by
  have groups
      : groupEntries (fun case : EvaluationCaseRecord => case.key.familyId)
          (frame.filter (·.split = .holdout))
        = [("family-1",
              [caseOfFamily "family-1" 1 (some "fix the tests"),
                caseOfFamily "family-1" 0 (some "fix the tests")]),
            ("family-2", [caseOfFamily "family-2" 0 (some "fix the tests")]),
            ("family-3", [caseOfFamily "family-3" 0 none]),
            ("family-4", [caseOfFamily "family-4" 0 none])] := by
    decide +kernel
  have replicates
      : [caseOfFamily "family-1" 1 (some "fix the tests"),
            caseOfFamily "family-1" 0 (some "fix the tests")].mergeSort
          FamilyRepresentativeRule.firstByCaseIdReplicate.le
        = [caseOfFamily "family-1" 0 (some "fix the tests"),
            caseOfFamily "family-1" 1 (some "fix the tests")] := by
    refine (mergeSort_eq_of_perm (List.Perm.swap _ _ _) ?_ ?_ (by decide +kernel)).trans
      (List.mergeSort_of_pairwise (by decide +kernel))
    · exact FamilyRepresentativeRule.le_trans _
    · exact FamilyRepresentativeRule.le_total _
  refine select_eq_ok.mpr ⟨isolated, ?_⟩
  have first : firstCases frame .holdout .firstByCaseIdReplicate = complete ++ degraded := by
    rw [firstCases, groups]
    simp only [List.filterMap_cons, replicates, List.mergeSort_singleton]
    rfl
  rw [first]
  exact List.mergeSort_of_pairwise (by decide +kernel)

theorem partition
    : partitionStrata (complete ++ degraded)
      = [("normal:complete", complete), ("normal:degraded", degraded)] := by
  have groups
      : groupEntries stratumKey (complete ++ degraded)
        = [("normal:complete", complete), ("normal:degraded", degraded)] := by
    decide +kernel
  rw [partitionStrata, groups, List.map_cons, List.map_cons, List.map_nil,
    List.mergeSort_of_pairwise (by decide +kernel), List.mergeSort_of_pairwise (by decide +kernel)]

/-- Each stratum gets one of its two families. -/
theorem allocated
    : allocateSampleSizes [("normal:complete", 2), ("normal:degraded", 2)] 2 (.equalPerStratum 1)
      = .ok [("normal:complete", 1), ("normal:degraded", 1)] := by
  have level
      : commonLevel [("normal:complete", 2), ("normal:degraded", 2)] 2 1 2 = 1 := by
    simp [commonLevel, cappedCount]
  have floors
      : checkFloors [("normal:complete", 2), ("normal:degraded", 2)] 2 2 1 = .ok () := by
    decide +kernel
  have represented
      : [("normal:complete", 2), ("normal:degraded", 2)] ≠ ([] : List (String × Nat))
        ∧ ∀ stratum ∈ [("normal:complete", 2), ("normal:degraded", 2)], stratum.2 ≠ 0 := by
    decide +kernel
  have population
      : totalPopulation [("normal:complete", 2), ("normal:degraded", 2)] = .ok 4 := by
    decide +kernel
  rw [allocateSampleSizes, ensure_bind represented, population, ok_bind]
  change (checkFloors _ 2 2 1 >>= _) = _
  rw [floors, ok_bind, if_neg (by decide)]
  change pure (fillUp (commonLevel _ 2 1 2) (2 - cappedCount _ (commonLevel _ 2 1 2)) _) = _
  rw [level]
  rfl

/-- The families that the generator draws: the first of one stratum and the second of the other. -/
theorem picked
    : ∃ left,
        pickStrata 1 .stratifiedProbabilitySample [("normal:complete", 1), ("normal:degraded", 1)]
            [("normal:complete", complete), ("normal:degraded", degraded)]
            (Pcg64Dxsm.fromSeed 7)
          = some
            (.ok
                [("normal:complete", [caseOfFamily "family-1" 0 (some "fix the tests")]),
                  ("normal:degraded", [caseOfFamily "family-4" 0 none])],
              left) :=
  ⟨_, by rfl⟩

/-- One family of each stratum is drawn from the randomness of the system. -/
theorem drawn
    : ∃ manifest,
        drawStratifiedSampleWithRule fixedHashing 1 (complete ++ degraded) .holdout 2
            (.equalPerStratum 1) (.osRandom "os" 7) .firstByCaseIdReplicate "policy-1" 0
          = some (.ok manifest)
        ∧ manifest.designStatus = .stratifiedProbabilitySample
        ∧ manifest.selectedCases.map (fun entry => (entry.stratumKey, entry.caseKey.familyId))
          = [("normal:complete", "family-1"), ("normal:degraded", "family-4")]
        ∧ manifest.selectedCases.map (·.inclusionProbability) = [some (1 / 2), some (1 / 2)] := by
  obtain ⟨left, picks⟩ := picked
  have sizes
      : [("normal:complete", complete), ("normal:degraded", degraded)].map
          (fun stratum => (stratum.1, stratum.2.length))
        = [("normal:complete", 2), ("normal:degraded", 2)] := rfl
  have some : complete ++ degraded ≠ [] := List.cons_ne_nil _ _
  unfold drawStratifiedSampleWithRule
  simp only [partition, sizes, ensure_bind some, allocated, ok_bind]
  rw [ensure_bind (by decide)]
  have plain : (RandomizationProvenance.osRandom "os" 7).seed = 7 := rfl
  have status : designStatusOf false (.osRandom "os" 7) = .stratifiedProbabilitySample := rfl
  have partly
      : ([("normal:complete", 1), ("normal:degraded", 1)].all fun allocation =>
          decide
            ([("normal:complete", 2), ("normal:degraded", 2)].lookup allocation.1
              = Option.some allocation.2))
        = false := by
    decide
  have shares
      : (entriesOf
          (strataOf .stratifiedProbabilitySample 4 [("normal:complete", 1), ("normal:degraded", 1)]
            [("normal:complete", complete), ("normal:degraded", degraded)])
          [("normal:complete", [caseOfFamily "family-1" 0 (Option.some "fix the tests")]),
            ("normal:degraded", [caseOfFamily "family-4" 0 none])]).map
            (·.inclusionProbability)
        = [Option.some (1 / 2), Option.some (1 / 2)] := by
    decide +kernel
  simp only [partly, pure, Except.pure, status, plain, picks]
  exact ⟨_, rfl, rfl, rfl, shares⟩

end FourFamilies

/-- Of four families in two strata two are drawn: the manifest is accepted and replays exactly these,
by the general result.
-/
theorem drawn_replayed_families
    : ∃ manifest sample,
        drawStratifiedSampleWithRule fixedHashing 1 (FourFamilies.complete ++ FourFamilies.degraded)
            .holdout 2 (.equalPerStratum 1) (.osRandom "os" 7) .firstByCaseIdReplicate "policy-1" 0
          = some (.ok manifest)
        ∧ verifyManifestAgainstFrame fixedHashing manifest FourFamilies.frame = .ok ()
        ∧ replayManifestSample fixedHashing manifest FourFamilies.frame = .ok sample
        ∧ sample.map (·.key.familyId) = ["family-1", "family-4"]
        ∧ manifest.selectedCases.map (·.inclusionProbability) = [some (1 / 2), some (1 / 2)]
        ∧ (manifest.selectedCases.map (·.caseKey.familyId)).Nodup
        ∧ manifest.randomizationProvenance.isOsRandom = true := by
  obtain ⟨manifest, made, status, named, shares⟩ := FourFamilies.drawn
  obtain ⟨replays, reads⟩ := drawn_verified_replayed fixedHashing _ FourFamilies.isolated
  obtain ⟨reps, selected, draws⟩ := replays .holdout .firstByCaseIdReplicate
  cases selected.symm.trans FourFamilies.selected
  obtain ⟨accepted, sample, ran, keys, _⟩ := draws _ _ _ _ _ _ _ made
  obtain ⟨_, _, _, distinct, _, probable⟩ := reads manifest accepted
  have declared
      : ∃ entry ∈ manifest.selectedCases, entry.inclusionProbability ≠ none := by
    have half : some (1 / 2) ∈ manifest.selectedCases.map (·.inclusionProbability) :=
      shares ▸ List.mem_cons_self
    obtain ⟨entry, mem, share⟩ := List.mem_map.mp half
    exact ⟨entry, mem, share ▸ Option.some_ne_none _⟩
  have families := congrArg (List.map (·.familyId)) keys
  have listed := congrArg (List.map Prod.snd) named
  rw [List.map_map, List.map_map] at families
  rw [List.map_map] at listed
  refine ⟨manifest, sample, made, accepted, ran, families.trans listed, shares, distinct, ?_⟩
  rcases probable (.inr declared) with ⟨census, _⟩ | ⟨_, random⟩
  · cases status.symm.trans census
  · exact random


end SkillRanker.Evaluation
