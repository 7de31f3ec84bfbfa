import SkillRanker.Learning.Policy
import SkillRanker.Library.Entries

/-! The tables of `config.toml` and the managed `[ranking]` policy in them. -/

namespace SkillRanker.Learning

open SkillRanker.Library SkillRanker.Recommendation

variable {R : Type}
variable {policy : ManagedRankingPolicy R} {key : String}

def configFileDepth : Nat := 32

inductive TomlValue (R : Type)
  | string (text : String)
  | integer (value : Int)
  | float (value : R)
  /-- An infinity or no number, as it is written. -/
  | nonFinite (text : String)
  | boolean (value : Bool)
  | datetime (text : String)
  | array (items : List (TomlValue R))
  | table (entries : List (String × TomlValue R))

abbrev TomlTable (R : Type) : Type := List (String × TomlValue R)

mutual

def TomlValue.fitsDepth (max : Nat) : TomlValue R → Nat → Bool
  | .array items, depth => decide (depth ≤ max) && itemsFitDepth max items (depth + 1)
  | .table entries, depth => decide (depth ≤ max) && entriesFitDepth max entries (depth + 1)
  | .string _, depth => decide (depth ≤ max)
  | .integer _, depth => decide (depth ≤ max)
  | .float _, depth => decide (depth ≤ max)
  | .nonFinite _, depth => decide (depth ≤ max)
  | .boolean _, depth => decide (depth ≤ max)
  | .datetime _, depth => decide (depth ≤ max)

def itemsFitDepth (max : Nat) : List (TomlValue R) → Nat → Bool
  | [], _ => true
  | item :: rest, depth => item.fitsDepth max depth && itemsFitDepth max rest depth

def entriesFitDepth (max : Nat) : List (String × TomlValue R) → Nat → Bool
  | [], _ => true
  | (_, value) :: rest, depth => value.fitsDepth max depth && entriesFitDepth max rest depth

end

mutual

def TomlValue.ordered : TomlValue R → Bool
  | .array items => itemsOrdered items
  | .table entries => entriesOrdered entries
  | .string _ => true
  | .integer _ => true
  | .float _ => true
  | .nonFinite _ => true
  | .boolean _ => true
  | .datetime _ => true

def itemsOrdered : List (TomlValue R) → Bool
  | [] => true
  | item :: rest => item.ordered && itemsOrdered rest

def entriesOrdered : List (String × TomlValue R) → Bool
  | [] => true
  | (key, value) :: rest =>
      value.ordered && rest.all (fun entry => decide (key < entry.1)) && entriesOrdered rest

end

def checkTomlDepth (root : TomlTable R) : Except (LearningError R) Unit :=
  ensure (entriesFitDepth configFileDepth root 1)
    (.malformedInput
      ("config.toml exceeds maximum nesting depth " ++ toString configFileDepth))

section Policies

variable [Field R] [LinearOrder R]

/-- A number of a setting. One that is not finite lies in no setting's range, as -1 does. -/
def tomlAsF64 : TomlValue R → Option R
  | .float value => some value
  | .integer value => some value
  | .nonFinite _ => some (-1)
  | _ => none

def tomlAsInteger : TomlValue R → Option Int
  | .integer value => some value
  | _ => none

/-- `u32::try_from` of a setting. -/
def u32OfSetting (name : String) (value : Int) : Except (LearningError R) Nat :=
  if 0 ≤ value ∧ value ≤ u32Max then .ok value.toNat
  else .error (.malformedInput ("invalid " ++ name ++ " in config.toml"))

/-- The value under a name, or else under the name it had before. -/
def lookupRenamed (ranking : TomlTable R) (name legacy : String) : Option (TomlValue R) :=
  (ranking.lookup name).or (ranking.lookup legacy)

def sizeSetting (ranking : TomlTable R) (name legacy : String) (fallback : Nat)
    : Except (LearningError R) Nat :=
  match (lookupRenamed ranking name legacy).bind tomlAsInteger with
  | some value => u32OfSetting name value
  | none => .ok fallback

def policyOfRanking (ranking : TomlTable R)
    : Except (LearningError R) (ManagedRankingPolicy R) := do
  let baseline : ManagedRankingPolicy R := .baseline
  let number (value : Option (TomlValue R)) (fallback : R) : R :=
    (value.bind tomlAsF64).getD fallback
  let topK ← sizeSetting ranking "top" "top_k" baseline.topK
  let shortlistM ← sizeSetting ranking "shortlist" "shortlist_m" baseline.shortlistM
  return {
    gateThreshold :=
      number (lookupRenamed ranking "gate" "gate_threshold") baseline.gateThreshold
    fitThreshold := number (lookupRenamed ranking "fits" "fit_threshold") baseline.fitThreshold
    wFit := number (ranking.lookup "w_fit") baseline.wFit
    wPrior := number (ranking.lookup "w_prior") baseline.wPrior
    wPhase := number (ranking.lookup "w_phase") baseline.wPhase
    topK := topK
    shortlistM := shortlistM
  }

def settingsOfRoot (root : TomlTable R) : Except (LearningError R) (ManagedRankingPolicy R) :=
  match root.lookup "ranking" with
  | some (.table ranking) => policyOfRanking ranking
  | _ => .ok .baseline

def policyOfRoot (root : TomlTable R) : Except (LearningError R) (ManagedRankingPolicy R) := do
  let policy ← settingsOfRoot root
  policy.validate
  return policy

/-- Sets the managed fields of a `[ranking]` table, under their present names. -/
def setManagedFields (ranking : TomlTable R) (policy : ManagedRankingPolicy R) : TomlTable R :=
  let stripped :=
    removeEntry "shortlist_m" <| removeEntry "top_k" <| removeEntry "fit_threshold" <|
      removeEntry "gate_threshold" ranking
  insertEntry "shortlist" (.integer policy.shortlistM) <|
    insertEntry "top" (.integer policy.topK) <|
    insertEntry "w_phase" (.float policy.wPhase) <|
    insertEntry "w_prior" (.float policy.wPrior) <|
    insertEntry "w_fit" (.float policy.wFit) <|
    insertEntry "fits" (.float policy.fitThreshold) <|
    insertEntry "gate" (.float policy.gateThreshold) stripped

def rankingTable (root : TomlTable R) : Except (LearningError R) (TomlTable R) :=
  match root.lookup "ranking" with
  | none => .ok []
  | some (.table ranking) => .ok ranking
  | some _ => .error (.malformedInput "[ranking] in config.toml is not a table")

def installPolicy (root : TomlTable R) (policy : ManagedRankingPolicy R)
    : Except (LearningError R) (TomlTable R) := do
  let ranking ← rankingTable root
  return insertEntry "ranking" (.table (setManagedFields ranking policy)) root

-- What was installed is read back

omit [Field R] [LinearOrder R] in
/-- A size that is a word is read back. -/
theorem u32OfSetting_natCast {name : String} {size : Nat} (word : size ≤ u32Max)
    : u32OfSetting (R := R) name (size : Int) = .ok size := by
  rw [u32OfSetting, if_pos ⟨Int.natCast_nonneg size, by exact_mod_cast word⟩]
  rfl

theorem policyOfRanking_setManagedFields (ranking : TomlTable R) (valid : policy.Valid)
    : policyOfRanking (setManagedFields ranking policy) = .ok policy := by
  have sizes := valid.sizes
  have large : maxTopK ≤ u32Max := by decide
  have topK : policy.topK ≤ u32Max := by omega
  have shortlistM : policy.shortlistM ≤ u32Max := by omega
  simp [policyOfRanking, setManagedFields, sizeSetting, lookupRenamed, tomlAsF64,
    tomlAsInteger, u32OfSetting_natCast topK, u32OfSetting_natCast shortlistM]

theorem policyOfRoot_installPolicy {root installed : TomlTable R} (valid : policy.Valid)
    (done : installPolicy root policy = .ok installed)
    : policyOfRoot installed = .ok policy := by
  simp only [installPolicy, bind_eq_ok, pure_eq_ok] at done
  obtain ⟨ranking, _, rfl⟩ := done
  have accepted := policy.validate_eq_ok.mpr valid
  simp [policyOfRoot, settingsOfRoot, policyOfRanking_setManagedFields ranking valid, accepted]

variable {entries : TomlTable R}

omit [Field R] [LinearOrder R] in
theorem entriesFitDepth_iff {max depth : Nat}
    : entriesFitDepth max entries depth ↔ ∀ entry ∈ entries, entry.2.fitsDepth max depth := by
  induction entries with
  | nil => simp [entriesFitDepth]
  | cons entry rest ih => simp [entriesFitDepth, ih]

omit [Field R] [LinearOrder R] in
theorem insertEntry_fitsDepth {max depth : Nat} {value : TomlValue R}
    (valueFits : value.fitsDepth max depth) (fits : entriesFitDepth max entries depth)
    : entriesFitDepth max (insertEntry key value entries) depth := by
  apply entriesFitDepth_iff.mpr
  intro entry mem
  rcases of_mem_insertEntry mem with rfl | earlier
  · exact valueFits
  · exact entriesFitDepth_iff.mp fits entry earlier

omit [Field R] [LinearOrder R] in
theorem removeEntry_fitsDepth {max depth : Nat} (fits : entriesFitDepth max entries depth)
    : entriesFitDepth max (removeEntry key entries) depth := by
  apply entriesFitDepth_iff.mpr
  intro entry mem
  exact entriesFitDepth_iff.mp fits entry (of_mem_removeEntry mem)

omit [Field R] [LinearOrder R] in
theorem setManagedFields_fitsDepth {max depth : Nat} {ranking : TomlTable R}
    (fits : entriesFitDepth max ranking depth) (room : depth ≤ max)
    : entriesFitDepth max (setManagedFields ranking policy) depth := by
  have float (value : R) : (TomlValue.float value).fitsDepth max depth := by
    simpa [TomlValue.fitsDepth] using room
  have integer (value : Int) : (TomlValue.integer value : TomlValue R).fitsDepth max depth := by
    simpa [TomlValue.fitsDepth] using room
  unfold setManagedFields
  repeat apply insertEntry_fitsDepth (by first | exact float _ | exact integer _)
  repeat apply removeEntry_fitsDepth
  exact fits

omit [Field R] [LinearOrder R] in
theorem checkTomlDepth_installPolicy {root installed : TomlTable R}
    (fits : checkTomlDepth root = .ok ()) (done : installPolicy root policy = .ok installed)
    : checkTomlDepth installed = .ok () := by
  simp only [installPolicy, bind_eq_ok, pure_eq_ok] at done
  obtain ⟨ranking, found, rfl⟩ := done
  simp only [checkTomlDepth, ensure_eq_ok] at fits ⊢
  have two : 2 ≤ configFileDepth := by decide
  have inner : entriesFitDepth configFileDepth ranking 2 := by
    unfold rankingTable at found
    split at found
    · cases found
      rfl
    · next table standing =>
        cases found
        have mem := mem_of_lookup standing
        have whole := entriesFitDepth_iff.mp fits _ mem
        simpa [TomlValue.fitsDepth, configFileDepth] using whole
    · cases found
  apply insertEntry_fitsDepth _ fits
  simpa [TomlValue.fitsDepth, configFileDepth] using setManagedFields_fitsDepth inner two

-- Installed tables are in order

omit [Field R] [LinearOrder R] in
theorem entriesOrdered_iff
    : entriesOrdered entries ↔ Ordered entries ∧ ∀ entry ∈ entries, entry.2.ordered := by
  induction entries with
  | nil => simp [entriesOrdered, Ordered]
  | cons entry rest ih =>
      simp only [entriesOrdered, Bool.and_eq_true, List.all_eq_true, decide_eq_true_eq, ih,
        Ordered, List.pairwise_cons, List.forall_mem_cons]
      tauto

omit [Field R] [LinearOrder R] in
theorem insertEntry_ordered {value : TomlValue R} (valueOrdered : value.ordered)
    (ordered : entriesOrdered entries)
    : entriesOrdered (insertEntry key value entries) := by
  obtain ⟨keys, values⟩ := entriesOrdered_iff.mp ordered
  apply entriesOrdered_iff.mpr
  refine ⟨keys.insertEntry key value, ?_⟩
  intro entry mem
  rcases of_mem_insertEntry mem with rfl | earlier
  · exact valueOrdered
  · exact values entry earlier

omit [Field R] [LinearOrder R] in
theorem removeEntry_ordered (ordered : entriesOrdered entries)
    : entriesOrdered (removeEntry key entries) := by
  obtain ⟨keys, values⟩ := entriesOrdered_iff.mp ordered
  apply entriesOrdered_iff.mpr
  exact ⟨keys.removeEntry key, fun entry mem => values entry (of_mem_removeEntry mem)⟩

omit [Field R] [LinearOrder R] in
theorem installPolicy_ordered {root installed : TomlTable R} (ordered : entriesOrdered root)
    (done : installPolicy root policy = .ok installed)
    : entriesOrdered installed := by
  simp only [installPolicy, bind_eq_ok, pure_eq_ok] at done
  obtain ⟨ranking, found, rfl⟩ := done
  have inner : entriesOrdered ranking := by
    unfold rankingTable at found
    split at found
    · cases found
      rfl
    · next table standing =>
        cases found
        have whole := (entriesOrdered_iff.mp ordered).2 _ (mem_of_lookup standing)
        simpa [TomlValue.ordered] using whole
    · cases found
  refine insertEntry_ordered ?_ ordered
  rw [TomlValue.ordered]
  unfold setManagedFields
  repeat apply insertEntry_ordered (by rfl)
  repeat apply removeEntry_ordered
  exact inner

end Policies

end SkillRanker.Learning
