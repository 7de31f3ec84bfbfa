import SkillRanker.Evaluation.Manifests

/-! The representatives of the families of a split: who they are, and when the order of the cases
decides about them.
-/

namespace SkillRanker.Evaluation
open SkillRanker.Library

section

variable {case : EvaluationCaseRecord} {permuted : List EvaluationCaseRecord}

-- Isolation

def Isolated (cases : List EvaluationCaseRecord) : Prop :=
  ∀ left ∈ cases, ∀ right ∈ cases,
    left.key.familyId = right.key.familyId → left.split = right.split

variable {rest : List EvaluationCaseRecord}

/-- One more case agrees with the others of its family. -/
theorem isolated_cons
    : Isolated (case :: rest)
      ↔ (∀ other ∈ rest, other.key.familyId = case.key.familyId → case.split = other.split)
        ∧ Isolated rest := by
  refine ⟨fun isolated => ⟨?_, ?_⟩, ?_⟩
  · intro other mem family
    exact isolated case List.mem_cons_self other (List.mem_cons_of_mem _ mem) family.symm
  · intro left leftMem right rightMem
    exact isolated left (List.mem_cons_of_mem _ leftMem) right (List.mem_cons_of_mem _ rightMem)
  · rintro ⟨first, isolated⟩ left leftMem right rightMem family
    rcases List.mem_cons.mp leftMem with rfl | leftLater
    · rcases List.mem_cons.mp rightMem with rfl | rightLater
      · rfl
      · exact first right rightLater family.symm
    · rcases List.mem_cons.mp rightMem with rfl | rightLater
      · exact (first left leftLater family).symm
      · exact isolated left leftLater right rightLater family

def checkCase (known : List (String × EvaluationSplit)) (case : EvaluationCaseRecord)
    : Except EvaluationError (List (String × EvaluationSplit)) :=
  match known.lookup case.key.familyId with
  | some existing => do
      ensure (existing = case.split) (.splitContamination
        ("family '" ++ case.key.familyId ++ "' appears in multiple splits: "
          ++ existing.asStr ++ " and " ++ case.split.asStr))
      return known
  | none => return insertEntry case.key.familyId case.split known

/-- The check passes exactly on cases that agree with the known splits and with each other, by
induction on the cases.
-/
theorem foldlM_checkCase {known : List (String × EvaluationSplit)}
    {cases : List EvaluationCaseRecord}
    : (∃ result, cases.foldlM checkCase known = .ok result)
      ↔ (∀ case ∈ cases, ∀ split, known.lookup case.key.familyId = some split
          → split = case.split)
        ∧ Isolated cases := by
  induction cases generalizing known with
  | nil => exact ⟨fun _ => ⟨nofun, nofun⟩, fun _ => ⟨known, rfl⟩⟩
  | cons case rest ih =>
      rw [List.foldlM_cons, isolated_cons, List.forall_mem_cons]
      cases found : known.lookup case.key.familyId with
      | some existing =>
          by_cases same : existing = case.split
          · have checked : checkCase known case = .ok known := by
              unfold checkCase
              rw [found]
              exact ensure_bind same
            rw [checked, ok_bind, ih]
            refine ⟨fun ⟨agree, isolated⟩ => ⟨⟨?_, agree⟩, ?_, isolated⟩,
              fun ⟨⟨_, agree⟩, _, isolated⟩ => ⟨agree, isolated⟩⟩
            · intro split there
              rw [← Option.some.inj there]
              exact same
            · intro other mem family
              rw [← same]
              exact agree other mem existing (family ▸ found)
          · have refused : ∃ error, checkCase known case = .error error := by
              unfold checkCase
              rw [found]
              exact ⟨_, ensure_bind_error same⟩
            obtain ⟨error, refused⟩ := refused
            rw [refused]
            refine ⟨fun ⟨_, ran⟩ => (nomatch ran), fun ⟨⟨agree, _⟩, _⟩ => ?_⟩
            exact absurd (agree existing rfl) same
      | none =>
          have checked : checkCase known case
              = .ok (insertEntry case.key.familyId case.split known) := by
            unfold checkCase
            rw [found]
            rfl
          rw [checked, ok_bind, ih]
          refine ⟨fun ⟨agree, isolated⟩ => ⟨⟨nofun, ?_⟩, ?_, isolated⟩,
            fun ⟨⟨_, agree⟩, first, isolated⟩ => ⟨?_, isolated⟩⟩
          · intro other mem split there
            refine agree other mem split ?_
            rw [lookup_insertEntry_of_ne, there]
            intro family
            rw [family, found] at there
            cases there
          · intro other mem family
            refine agree other mem _ ?_
            rw [family, lookup_insertEntry_self]
          · intro other mem split there
            by_cases family : other.key.familyId = case.key.familyId
            · rw [family, lookup_insertEntry_self] at there
              rw [← Option.some.inj there]
              exact first other mem family
            · rw [lookup_insertEntry_of_ne family] at there
              exact agree other mem split there

theorem checkSplitIsolation_eq_ok {cases : List EvaluationCaseRecord}
    : checkSplitIsolation cases = .ok () ↔ Isolated cases := by
  have all := @foldlM_checkCase [] cases
  have same : checkSplitIsolation cases = (do
      let _ ← cases.foldlM checkCase []
      return ()) := rfl
  rw [same, bind_eq_ok]
  refine ⟨fun ⟨result, ran, _⟩ => (all.mp ⟨result, ran⟩).2, fun isolated => ?_⟩
  obtain ⟨result, ran⟩ := all.mpr ⟨nofun, isolated⟩
  exact ⟨result, ran, rfl⟩

-- The order of a rule

def FamilyRepresentativeRule.order
    : FamilyRepresentativeRule → EvaluationCaseRecord → EvaluationCaseRecord → Ordering
  | firstByCaseIdReplicate => compareLex (compareOn (·.key.caseId)) (compareOn (·.key.replicate))
  | lowestReplicateFirst => compareLex (compareOn (·.key.replicate)) (compareOn (·.key.caseId))

variable (rule : FamilyRepresentativeRule)

theorem FamilyRepresentativeRule.le_eq (left right : EvaluationCaseRecord)
    : rule.le left right = (rule.order left right).isLE := by
  cases rule <;> rfl

instance (rule : FamilyRepresentativeRule) : Std.TransCmp rule.order := by
  cases rule with
  | firstByCaseIdReplicate =>
      exact inferInstanceAs (Std.TransCmp (compareLex
        (compareOn fun case : EvaluationCaseRecord => case.key.caseId)
        (compareOn fun case : EvaluationCaseRecord => case.key.replicate)))
  | lowestReplicateFirst =>
      exact inferInstanceAs (Std.TransCmp (compareLex
        (compareOn fun case : EvaluationCaseRecord => case.key.replicate)
        (compareOn fun case : EvaluationCaseRecord => case.key.caseId)))

theorem FamilyRepresentativeRule.le_trans (one two three : EvaluationCaseRecord)
    (first : rule.le one two = true) (second : rule.le two three = true)
    : rule.le one three = true := by
  rw [le_eq] at *
  exact Std.TransCmp.isLE_trans first second

theorem FamilyRepresentativeRule.le_total (one two : EvaluationCaseRecord)
    : (rule.le one two || rule.le two one) = true := by
  rw [le_eq, le_eq]
  exact isLE_total one two

def familyLE (left right : EvaluationCaseRecord) : Bool :=
  (compareOn (fun case : EvaluationCaseRecord => case.key.familyId) left right).isLE

theorem familyLE_trans (one two three : EvaluationCaseRecord) (first : familyLE one two = true)
    (second : familyLE two three = true)
    : familyLE one three = true :=
  Std.TransCmp.isLE_trans first second

theorem familyLE_total (one two : EvaluationCaseRecord)
    : (familyLE one two || familyLE two one) = true :=
  isLE_total one two

theorem family_eq_of_familyLE {one two : EvaluationCaseRecord} (below : familyLE one two = true)
    (above : familyLE two one = true)
    : one.key.familyId = two.key.familyId :=
  Std.LawfulEqOrd.eq_of_compare (Std.OrientedCmp.isLE_antisymm below above)

-- Representatives

/-- The cases of a family in a split. -/
def familyCases (cases : List EvaluationCaseRecord) (split : EvaluationSplit) (family : String)
    : List EvaluationCaseRecord :=
  (cases.filter (·.split = split)).filter (·.key.familyId = family)

theorem mem_familyCases {cases : List EvaluationCaseRecord} {split : EvaluationSplit}
    {family : String}
    : case ∈ familyCases cases split family
      ↔ case ∈ cases ∧ case.split = split ∧ case.key.familyId = family := by
  rw [familyCases, List.mem_filter, List.mem_filter, decide_eq_true_iff, decide_eq_true_iff,
    and_assoc]

variable {cases : List EvaluationCaseRecord} {split : EvaluationSplit}
  {rule : FamilyRepresentativeRule}

def firstCases (cases : List EvaluationCaseRecord) (split : EvaluationSplit)
    (rule : FamilyRepresentativeRule)
    : List EvaluationCaseRecord :=
  (groupEntries (fun case : EvaluationCaseRecord => case.key.familyId)
    (cases.filter (·.split = split))).filterMap fun group => (group.2.mergeSort rule.le).head?

variable {representatives : List EvaluationCaseRecord}

/-- The selection succeeds exactly on isolated cases. -/
theorem select_eq_ok
    : selectFamilyRepresentatives cases split rule = .ok representatives
      ↔ Isolated cases ∧ (firstCases cases split rule).mergeSort familyLE = representatives := by
  unfold selectFamilyRepresentatives
  rw [bind_eq_ok, ← checkSplitIsolation_eq_ok]
  refine ⟨fun ⟨_, isolated, done⟩ => ⟨isolated, pure_eq_ok.mp done⟩,
    fun ⟨isolated, done⟩ => ⟨(), isolated, pure_eq_ok.mpr done⟩⟩

/-- A first case is the one that comes first of the cases of its family, by the rule. -/
theorem mem_firstCases
    : case ∈ firstCases cases split rule
      ↔ ((familyCases cases split case.key.familyId).mergeSort rule.le).head? = some case := by
  unfold firstCases
  rw [List.mem_filterMap]
  refine ⟨?_, fun first => ?_⟩
  · rintro ⟨⟨family, group⟩, listed, first⟩
    obtain ⟨rfl, _⟩ := mem_groupEntries.mp listed
    have mem := List.mem_mergeSort.mp (List.mem_of_head? first)
    have own : case.key.familyId = family := of_decide_eq_true (List.mem_filter.mp mem).2
    rw [own]
    exact first
  · refine ⟨(case.key.familyId, familyCases cases split case.key.familyId),
      mem_groupEntries.mpr ⟨rfl, fun none => ?_⟩, first⟩
    have nothing : familyCases cases split case.key.familyId = [] := none
    rw [nothing, List.mergeSort_nil] at first
    cases first

/-- A first case is a case of the split that comes before the others of its family. -/
theorem firstCases_least (mem : case ∈ firstCases cases split rule)
    : case ∈ cases ∧ case.split = split
      ∧ ∀ other ∈ familyCases cases split case.key.familyId, rule.le case other = true := by
  have first := mem_firstCases.mp mem
  obtain ⟨rest, sorted⟩ := List.head?_eq_some_iff.mp first
  obtain ⟨own, least⟩ := head_mergeSort rule.le_trans rule.le_total sorted
  obtain ⟨listed, inSplit, _⟩ := mem_familyCases.mp own
  exact ⟨listed, inSplit, least⟩

theorem exists_firstCase (rule : FamilyRepresentativeRule) (listed : case ∈ cases)
    (inSplit : case.split = split)
    : ∃ first ∈ firstCases cases split rule, first.key.familyId = case.key.familyId := by
  have own : case ∈ familyCases cases split case.key.familyId :=
    mem_familyCases.mpr ⟨listed, inSplit, rfl⟩
  cases sorted : (familyCases cases split case.key.familyId).mergeSort rule.le with
  | nil =>
      have mem := (@List.mem_mergeSort _ rule.le _ _).mpr own
      rw [sorted] at mem
      cases mem
  | cons first rest =>
      have mem := List.mem_mergeSort.mp (sorted ▸ List.mem_cons_self : first ∈ _)
      have family := (mem_familyCases.mp mem).2.2
      refine ⟨first, mem_firstCases.mpr ?_, family⟩
      rw [family, sorted]
      rfl

theorem firstCases_distinct
    : ((firstCases cases split rule).map fun case => case.key.familyId).Nodup := by
  have apart : (firstCases cases split rule).Pairwise
      fun one two => one.key.familyId ≠ two.key.familyId := by
    refine List.pairwise_filterMap.mpr ?_
    refine List.Pairwise.imp_of_mem ?_ (groupEntries_ordered _)
    intro one two oneMem twoMem below first isFirst second isSecond same
    have family (group) (listed : group ∈ groupEntries
          (fun case : EvaluationCaseRecord => case.key.familyId) (cases.filter (·.split = split)))
        (case) (head : (group.2.mergeSort rule.le).head? = some case)
        : case.key.familyId = group.1 :=
      (of_mem_group listed (List.mem_mergeSort.mp (List.mem_of_head? head))).2
    rw [family one oneMem first isFirst, family two twoMem second isSecond] at same
    exact ne_of_lt below same
  exact List.pairwise_map.mpr apart

/-- Representatives are apart by their families and are cases of the split. -/
theorem representatives_spec
    (selected : selectFamilyRepresentatives cases split rule = .ok representatives)
    : (representatives.map fun case => case.key.familyId).Nodup
      ∧ ∀ case ∈ representatives, case ∈ cases ∧ case.split = split := by
  obtain ⟨_, rfl⟩ := select_eq_ok.mp selected
  refine ⟨?_, fun case mem => ?_⟩
  · rw [((List.mergeSort_perm _ familyLE).map _).nodup_iff]
    exact firstCases_distinct
  · obtain ⟨listed, inSplit, _⟩ := firstCases_least (List.mem_mergeSort.mp mem)
    exact ⟨listed, inSplit⟩

-- The order of the cases

/-- In every family of the split the first case by the rule is told apart from the others. -/
def Decided (cases : List EvaluationCaseRecord) (split : EvaluationSplit)
    (rule : FamilyRepresentativeRule)
    : Prop :=
  ∀ left ∈ cases, ∀ right ∈ cases, left.split = split → right.split = split
    → right.key.familyId = left.key.familyId
    → (∀ other ∈ cases, other.split = split → other.key.familyId = left.key.familyId
        → rule.le left other = true)
    → rule.le right left = true → right = left

theorem Decided.perm (decided : Decided cases split rule) (perm : permuted.Perm cases)
    : Decided permuted split rule := by
  intro left leftMem right rightMem leftSplit rightSplit family least below
  exact decided left (perm.mem_iff.mp leftMem) right (perm.mem_iff.mp rightMem) leftSplit
    rightSplit family (fun other mem => least other (perm.mem_iff.mpr mem)) below

theorem mem_firstCases_of_perm (decided : Decided cases split rule) (perm : permuted.Perm cases)
    (mem : case ∈ firstCases permuted split rule)
    : case ∈ firstCases cases split rule := by
  obtain ⟨listed, inSplit, least⟩ := firstCases_least mem
  have caseMem := perm.mem_iff.mp listed
  obtain ⟨first, firstMem, family⟩ := exists_firstCase rule caseMem inSplit
  obtain ⟨firstListed, firstSplit, firstLeast⟩ := firstCases_least firstMem
  have same : case = first := by
    refine decided first firstListed case caseMem firstSplit inSplit family.symm ?_ ?_
    · intro other otherMem otherSplit otherFamily
      exact firstLeast other (mem_familyCases.mpr ⟨otherMem, otherSplit, otherFamily⟩)
    · exact least first (mem_familyCases.mpr ⟨perm.mem_iff.mpr firstListed, firstSplit, family⟩)
  exact same ▸ firstMem

theorem firstCases_perm (decided : Decided cases split rule) (perm : permuted.Perm cases)
    : (firstCases permuted split rule).mergeSort familyLE
      = (firstCases cases split rule).mergeSort familyLE := by
  refine mergeSort_eq_of_perm ?_ familyLE_trans familyLE_total ?_
  · refine (List.perm_ext_iff_of_nodup (List.Nodup.of_map _ firstCases_distinct)
      (List.Nodup.of_map _ firstCases_distinct)).mpr fun case => ?_
    exact ⟨mem_firstCases_of_perm decided perm,
      mem_firstCases_of_perm (decided.perm perm) perm.symm⟩
  · intro one oneMem two twoMem below above
    exact List.inj_on_of_nodup_map firstCases_distinct oneMem twoMem
      (family_eq_of_familyLE below above)

/-- A case that none of its family comes before is first where it is listed first. -/
theorem firstCases_head (inSplit : case.split = split)
    (least
      : ∀ other ∈ rest, other.split = split → other.key.familyId = case.key.familyId
          → rule.le case other = true)
    : case ∈ firstCases (case :: rest) split rule := by
  rw [mem_firstCases]
  have head : familyCases (case :: rest) split case.key.familyId
      = case :: familyCases rest split case.key.familyId := by
    unfold familyCases
    rw [List.filter_cons_of_pos (by simpa using inSplit), List.filter_cons_of_pos (by simp)]
  obtain ⟨before, after, sorted, others, above⟩ := List.mergeSort_cons rule.le_trans rule.le_total
    case (familyCases rest split case.key.familyId)
  have none : before = [] := by
    refine List.eq_nil_iff_forall_not_mem.mpr fun other mem => ?_
    have listed : other ∈ familyCases rest split case.key.familyId := by
      rw [← @List.mem_mergeSort _ rule.le, others]
      exact List.mem_append_left _ mem
    obtain ⟨otherMem, otherSplit, family⟩ := mem_familyCases.mp listed
    have below := least other otherMem otherSplit family
    have notBelow := above other mem
    rw [below] at notBelow
    cases notBelow
  rw [head, sorted, none]
  rfl

theorem Isolated.perm (isolated : Isolated cases) (perm : permuted.Perm cases)
    : Isolated permuted :=
  fun left leftMem right rightMem =>
    isolated left (perm.mem_iff.mp leftMem) right (perm.mem_iff.mp rightMem)

/-- Cases that come first together make representatives of different orders differ. -/
theorem decided_of_same_representatives
    (same
      : ∀ permuted, permuted.Perm cases
          → (selectFamilyRepresentatives permuted split rule).toOption
            = (selectFamilyRepresentatives cases split rule).toOption)
    (isolated : Isolated cases)
    : Decided cases split rule := by
  intro left leftMem right rightMem leftSplit rightSplit family least below
  have listed (case : EvaluationCaseRecord) (mem : case ∈ cases) (inSplit : case.split = split)
      (first : ∀ other ∈ cases, other.split = split → other.key.familyId = case.key.familyId
        → rule.le case other = true)
      : case ∈ firstCases cases split rule := by
    have perm := List.perm_cons_erase mem
    have chosen : case ∈ firstCases (case :: cases.erase case) split rule :=
      firstCases_head inSplit fun other otherMem => first other (List.mem_of_mem_erase otherMem)
    have agree := same _ perm.symm
    rw [select_eq_ok.mpr ⟨isolated.perm perm.symm, rfl⟩, select_eq_ok.mpr ⟨isolated, rfl⟩] at agree
    have lists := Option.some.inj agree
    rw [← @List.mem_mergeSort _ familyLE] at chosen ⊢
    rw [lists] at chosen
    exact chosen
  refine List.inj_on_of_nodup_map firstCases_distinct (listed right rightMem rightSplit ?_)
    (listed left leftMem leftSplit least) family
  intro other otherMem otherSplit otherFamily
  exact rule.le_trans _ _ _ below (least other otherMem otherSplit (otherFamily.trans family))

end

-- Whether the order in which the cases are listed decides what is sampled

variable {rule : FamilyRepresentativeRule}

/-- A selection that succeeds on one order of the cases succeeds on another, and both that fail
give no representatives.
-/
theorem select_toOption_eq {cases : List EvaluationCaseRecord} {split : EvaluationSplit}
    (perm : permuted.Perm cases) (decided : Isolated cases → Decided cases split rule)
    : (selectFamilyRepresentatives permuted split rule).toOption
      = (selectFamilyRepresentatives cases split rule).toOption := by
  cases selected : selectFamilyRepresentatives cases split rule with
  | ok representatives =>
      obtain ⟨isolated, first⟩ := select_eq_ok.mp selected
      have same := firstCases_perm (decided isolated) perm
      rw [select_eq_ok.mpr ⟨isolated.perm perm, same.trans first⟩]
  | error refused =>
      cases reordered : selectFamilyRepresentatives permuted split rule with
      | error _ => rfl
      | ok representatives =>
          obtain ⟨isolated, _⟩ := select_eq_ok.mp reordered
          rw [select_eq_ok.mpr ⟨isolated.perm perm.symm, rfl⟩] at selected
          cases selected

/-- The representatives, their frame digest and a sample of them are the same for every order of
the cases exactly where a family spans splits, so that every order is refused, or where the rule
tells the first case of every family apart.
-/
theorem fileOrder_irrelevant_iff (cases : List EvaluationCaseRecord) (split : EvaluationSplit)
    (rule : FamilyRepresentativeRule)
    : (∀ permuted, permuted.Perm cases
        → (selectFamilyRepresentatives permuted split rule).toOption
            = (selectFamilyRepresentatives cases split rule).toOption
          ∧ (∀ hashing,
              (selectFamilyRepresentatives permuted split rule).toOption.map
                  (computeFrameDigest hashing)
                = (selectFamilyRepresentatives cases split rule).toOption.map
                  (computeFrameDigest hashing))
          ∧ ∀ hashing fuel totalSampleSize allocationMethod provenance policyId createdAtUnixMs,
              (selectFamilyRepresentatives permuted split rule).toOption.map
                  (drawStratifiedSampleWithRule hashing fuel · split totalSampleSize
                    allocationMethod provenance rule policyId createdAtUnixMs)
                = (selectFamilyRepresentatives cases split rule).toOption.map
                  (drawStratifiedSampleWithRule hashing fuel · split totalSampleSize
                    allocationMethod provenance rule policyId createdAtUnixMs))
      ↔ ¬ Isolated cases ∨ Decided cases split rule := by
  refine ⟨fun same => ?_, fun condition permuted perm => ?_⟩
  · by_cases isolated : Isolated cases
    · exact .inr (decided_of_same_representatives (fun permuted perm => (same permuted perm).1)
        isolated)
    · exact .inl isolated
  · have decided (isolated : Isolated cases) : Decided cases split rule :=
      condition.resolve_left (not_not_intro isolated)
    have same := select_toOption_eq perm decided
    refine ⟨same, fun hashing => ?_, ?_⟩
    · rw [same]
    · intros
      rw [same]

-- Two policies

def caseUnderPolicy (policyId : String) : EvaluationCaseRecord where
  schemaVersion := 1
  key := {
    frameId := "frame-1"
    familyId := "family-1"
    caseId := "case-1"
    replicate := 0
    policyId := policyId }
  split := .holdout
  promptSummary := some "fix the tests"
  rosterSkills := ["testing"]
  decision := "suggest"
  suggestedSkills := ["testing"]
  fits := []
  gateScore := none
  relevanceAbstention := false
  operationalFailure := false

/-- Of two cases of a family, the one listed first is chosen unless the rule puts the other before
it.
-/
theorem select_pair {left right : EvaluationCaseRecord} (split : right.split = left.split)
    (family : right.key.familyId = left.key.familyId) (first : rule.le left right = true)
    : (selectFamilyRepresentatives [left, right] left.split rule).toOption = some [left] := by
  have isolated : Isolated [left, right] := by
    intro one oneMem two twoMem _
    simp only [List.mem_cons, List.not_mem_nil, or_false] at oneMem twoMem
    rcases oneMem with rfl | rfl <;> rcases twoMem with rfl | rfl <;> simp only [split]
  have mem : left ∈ firstCases [left, right] left.split rule := by
    refine firstCases_head rfl fun other listed _ _ => ?_
    rw [List.mem_singleton.mp listed]
    exact first
  have all (case : EvaluationCaseRecord) (listed : case ∈ firstCases [left, right] left.split rule)
      : case = left := by
    refine List.inj_on_of_nodup_map firstCases_distinct listed mem ?_
    rcases List.mem_cons.mp (firstCases_least listed).1 with rfl | other
    · rfl
    · rw [List.mem_singleton.mp other]
      exact family
  have only : firstCases [left, right] left.split rule = [left] :=
    List.perm_singleton.mp ((List.perm_ext_iff_of_nodup (List.Nodup.of_map _ firstCases_distinct)
      (List.nodup_singleton left)).mpr fun case =>
        ⟨fun listed => List.mem_singleton.mpr (all case listed),
          fun listed => List.mem_singleton.mp listed ▸ mem⟩)
  rw [select_eq_ok.mpr ⟨isolated, rfl⟩, only, List.mergeSort_singleton]
  rfl

/-- Two cases that differ by their policies only are listed in either order: each order makes
another one the representative.
-/
theorem policies_tied
    : ([caseUnderPolicy "policy-1", caseUnderPolicy "policy-2"].map (·.key)).Nodup
      ∧ [caseUnderPolicy "policy-2", caseUnderPolicy "policy-1"].Perm
          [caseUnderPolicy "policy-1", caseUnderPolicy "policy-2"]
      ∧ (selectFamilyRepresentatives
            [caseUnderPolicy "policy-1", caseUnderPolicy "policy-2"] .holdout
            .firstByCaseIdReplicate).toOption
          = some [caseUnderPolicy "policy-1"]
      ∧ (selectFamilyRepresentatives
            [caseUnderPolicy "policy-2", caseUnderPolicy "policy-1"] .holdout
            .firstByCaseIdReplicate).toOption
          = some [caseUnderPolicy "policy-2"] := by
  refine ⟨by decide, List.Perm.swap _ _ _, ?_, ?_⟩
  · exact select_pair rfl rfl (by decide)
  · exact select_pair rfl rfl (by decide)

end SkillRanker.Evaluation
