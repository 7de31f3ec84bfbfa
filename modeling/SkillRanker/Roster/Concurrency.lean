import SkillRanker.Roster.Discovery

/-! Reading by batches yields what reading in turn does. -/

namespace SkillRanker.Roster

open SkillRanker.Library
open Std

variable {candidate : Candidate}

/-- A checkpoint at the entry of an invocation, which stops nothing. -/
def steady (_ : Site) : Checkpoint := { cancelled := false, now := 0 }

def Calm (clock : Jev.InvocationDeadline) (checks : Site → Checkpoint) : Prop :=
  ∀ site, budget clock (checks site) = .ok ()

theorem steady_passes (site : Site) : budget .default (steady site) = .ok () :=
  rfl

section Sequential

variable {host : Host} {clock : Jev.InvocationDeadline} {checks : Site → Checkpoint}
  {undisturbed : Prop}

variable (calm : undisturbed → Calm clock checks)
include calm

/-- A checkpoint may stop a run and nothing else. -/
theorem budget_follows (site : Site)
    : Follows undisturbed (budget clock (checks site)) (budget .default (steady site)) := by
  rw [steady_passes]
  exact .pass (fun here => calm here site)

variable {prepared : Prepared}

theorem noteRejected_follows (candidates : Nat) {offset : Nat} {rejected : List RejectedCandidate}
    : Follows undisturbed (noteRejected clock checks candidates offset prepared rejected)
        (noteRejected .default steady candidates offset prepared rejected) := by
  induction rejected generalizing offset prepared with
  | nil => exact .refl _
  | cons first rest ih => exact .bind (budget_follows calm _) (fun _ _ => ih)

theorem new_follows (plan : DiscoveryPlan)
    : Follows undisturbed (Prepared.new clock checks plan) (Prepared.new .default steady plan) := by
  refine .bind (budget_follows calm _) (fun _ _ => .bind (.refl _) (fun _ _ => ?_))
  refine .bind (budget_follows calm _) (fun _ _ => .bind (budget_follows calm _) (fun _ _ => ?_))
  exact noteRejected_follows calm _

variable {index : Nat}

theorem consume_follows {overrides : TreeMap String InvocationRestrictions compare}
    {result : Except ReadError BoundedRead}
    : Follows undisturbed
        (consume host clock checks overrides prepared index candidate result)
        (consume host .default steady overrides prepared index candidate result) := by
  refine .bind (.refl _) (fun invocation _ => ?_)
  cases result with
  | error error => exact .refl _
  | ok read => exact .bind (budget_follows calm _) (fun _ _ => .refl _)

theorem consumeAll_follows {overrides : TreeMap String InvocationRestrictions compare}
    {candidates : List Candidate}
    : Follows undisturbed
        (consumeAll host clock checks overrides index prepared candidates)
        (consumeAll host .default steady overrides index prepared candidates) := by
  induction candidates generalizing index prepared with
  | nil => exact .refl _
  | cons candidate rest ih =>
      refine .bind (budget_follows calm _) (fun _ _ => .bind (.bind (.refl _) ?_) (fun _ _ => ih))
      rintro ⟨_ | limit, granted⟩ _
      · exact .refl _
      · exact consume_follows calm

omit calm in
/-- Reading in turn goes on where it stopped. -/
theorem consumeAll_append {overrides : TreeMap String InvocationRestrictions compare}
    {first second : List Candidate}
    : consumeAll host clock checks overrides index prepared (first ++ second)
      = (consumeAll host clock checks overrides index prepared first
          >>= fun prepared =>
            consumeAll host clock checks overrides (index + first.length) prepared second) := by
  induction first generalizing index prepared with
  | nil => rfl
  | cons candidate rest ih =>
      simp only [List.cons_append, consumeAll, bind_assoc, ih, List.length_cons]
      rw [show index + (rest.length + 1) = index + 1 + rest.length by omega]

end Sequential

section Batches

variable {host : Host} {clock : Jev.InvocationDeadline} {checks : Site → Checkpoint}
  {pool : Leaf → Except RuntimeError Unit}
  {overrides : TreeMap String InvocationRestrictions compare} {undisturbed : Prop}

def speculate (host : Host) (overrides : TreeMap String InvocationRestrictions compare)
    (limit : Option Nat) (candidate : Candidate)
    : Option (Except ReadError ParsedRead) :=
  (limit.filter (fun _ => candidate.invocation.isSome)).map
    (fun limit =>
      (readAbsolute host candidate.path limit).map (parseDiscoveredRead host overrides candidate))

variable {index : Nat} {candidates : List Candidate}

theorem readChunk_follows (calm : undisturbed → Calm clock checks) {limit : Option Nat}
    : Follows undisturbed (readChunk host clock checks overrides limit index candidates)
        (.ok (candidates.map (speculate host overrides limit))) := by
  induction candidates generalizing index with
  | nil => exact .refl _
  | cons candidate rest ih =>
      refine .known (.pass (fun here => calm here _)) (.known ih ?_)
      exact .refl _

/-- The blocking pool may refuse work, and nothing else. -/
theorem leaf_follows (ran : undisturbed → ∀ leaf, pool leaf = .ok ()) (leaf : Leaf)
    : Follows undisturbed ((pool leaf).mapError blockingError) (.ok ()) := by
  refine .pass (fun here => ?_)
  rw [ran here]
  rfl

theorem readBatch_follows (calm : undisturbed → Calm clock checks)
    (ran : undisturbed → ∀ leaf, pool leaf = .ok ()) {limit : Option Nat} {first : Nat}
    : Follows undisturbed (readBatch host clock checks pool overrides limit first candidates)
        (.ok (candidates.map (speculate host overrides limit))) := by
  refine .known (leaf_follows ran _) ?_
  refine .known (readChunk_follows calm) (.known (readChunk_follows calm) ?_)
  rw [← List.map_append, List.take_append_drop]
  exact .refl _

variable {prepared : Prepared}

theorem consumeParsed_follows (calm : undisturbed → Calm clock checks)
    {result : Except ReadError BoundedRead}
    : Follows undisturbed
        (consumeParsed clock checks prepared index candidate
          (result.map (parseDiscoveredRead host overrides candidate)))
        (consume host .default steady overrides prepared index candidate result) := by
  refine .bind (.refl _) (fun invocation known => ?_)
  have named : candidate.invocation = some invocation := require_eq_ok.mp known
  cases result with
  | error error => exact .refl _
  | ok read =>
      refine .bind (budget_follows calm _) (fun _ _ => ?_)
      by_cases changed : read.identity ≠ candidate.identity
      · simp only [parseDiscoveredRead, if_pos changed]
        exact .refl _
      · simp only [parseDiscoveredRead, if_neg changed, named]
        cases pathLogicalKey host candidate.path with
        | error error => exact .refl _
        | ok logicalKey =>
            simp only [ok_bind]
            cases host.entry (bindingSpec candidate overrides invocation logicalKey) read with
            | error error => exact .refl _
            | ok entry => exact .refl _

/-- A batch that was read under `limit` fits what remains: each of its candidates has that
limit at its turn.
-/
def Covers (prepared : Prepared) (limit : Nat) (candidates : List Candidate) : Prop :=
  candidates = []
  ∨ (0 < prepared.remaining
    ∧ limit = min prepared.remaining skillFileBytes
    ∧ (candidates.length = 1 ∨ candidates.length * skillFileBytes ≤ prepared.remaining))

variable {next : Prepared} {limit : Nat}

/-- A read within the limit leaves the rest of its batch covered. -/
theorem Covers.tail {rest : List Candidate} (covers : Covers prepared limit (candidate :: rest))
    (charged : next.total ≤ prepared.total + limit)
    : Covers next limit rest := by
  rcases covers with empty | ⟨_, same, fits⟩
  · cases empty
  · by_cases last : rest = []
    · exact .inl last
    · have more : 0 < rest.length := List.length_pos_iff.mpr last
      simp only [Prepared.remaining, List.length_cons, skillFileBytes] at same fits ⊢
      refine .inr ⟨?_, ?_, .inr ?_⟩
      all_goals
        simp only [Prepared.remaining, skillFileBytes]
        omega

/-- Consuming a read charges its length at most. -/
theorem consume_total
    (done
      : consume host clock checks overrides prepared index candidate
          (readAbsolute host candidate.path limit)
        = .ok next)
    : next.total ≤ prepared.total + limit := by
  obtain ⟨invocation, _, done⟩ := bind_eq_ok.mp done
  cases read : readAbsolute host candidate.path limit with
  | error error =>
      rw [read] at done
      cases done
      exact Nat.le_add_right _ _
  | ok found =>
      have within := readAbsolute_within read
      rw [read] at done
      obtain ⟨_, _, done⟩ := bind_eq_ok.mp done
      split at done
      · cases done
        exact Nat.add_le_add_left within _
      · obtain ⟨logicalKey, _, done⟩ := bind_eq_ok.mp done
        split at done
        · cases done
          exact Nat.add_le_add_left within _
        · cases done
          exact Nat.add_le_add_left within _

/-- A candidate without a callable name is noted. -/
theorem readLimit_unnamed (unnamed : candidate.invocation = none) (index : Nat)
    : readLimit prepared index candidate
      = .ok (none, prepared.note index .unsupportedLayout) := by
  rw [readLimit, unnamed]

variable {invocation : InvocationName}

/-- After the last byte, a candidate is rejected. -/
theorem readLimit_spent (named : candidate.invocation = some invocation)
    (spent : prepared.remaining = 0) (index : Nat)
    : readLimit prepared index candidate
      = .ok (none, prepared.reject index .limit invocation) := by
  simp only [readLimit, named, if_pos spent]

theorem resourceLimit_left {remaining : Nat} (left : remaining ≠ 0)
    : resourceLimit (min remaining skillFileBytes) = .ok (min remaining skillFileBytes) := by
  have pos : min remaining skillFileBytes ≠ 0 := by
    simp only [skillFileBytes]
    omega
  rw [resourceLimit, ensure_bind pos]
  rfl

/-- A candidate is read with what remains, up to the size of one file. -/
theorem readLimit_left (named : candidate.invocation = some invocation)
    (left : prepared.remaining ≠ 0) (index : Nat)
    : readLimit prepared index candidate
      = .ok (some (min prepared.remaining skillFileBytes), prepared) := by
  simp only [readLimit, named, if_neg left, resourceLimit_left left]
  rfl

/-- A turn charges the limit at most. -/
theorem consumeNext_total (left : prepared.remaining ≠ 0)
    (done : consumeNext host clock checks overrides prepared index candidate = .ok next)
    : next.total ≤ prepared.total + min prepared.remaining skillFileBytes := by
  cases named : candidate.invocation with
  | none =>
      rw [consumeNext, readLimit_unnamed named] at done
      cases done
      exact Nat.le_add_right _ _
  | some invocation =>
      rw [consumeNext, readLimit_left named left] at done
      exact consume_total done

/-- The turn of a read made with its batch is that of its candidate, where the batch had the
limit of the turn.
-/
theorem mergeNext_follows (calm : undisturbed → Calm clock checks) (left : prepared.remaining ≠ 0)
    : Follows undisturbed
        (mergeNext clock checks prepared index candidate
          (speculate host overrides (some (min prepared.remaining skillFileBytes)) candidate))
        (consumeNext host .default steady overrides prepared index candidate) := by
  cases named : candidate.invocation with
  | none =>
      rw [mergeNext, consumeNext, readLimit_unnamed named]
      exact .refl _
  | some invocation =>
      have read
          : speculate host overrides (some (min prepared.remaining skillFileBytes)) candidate
            = some
                ((readAbsolute host candidate.path (min prepared.remaining skillFileBytes)).map
                  (parseDiscoveredRead host overrides candidate)) := by
        simp [speculate, named]
      rw [mergeNext, consumeNext, readLimit_left named left, read]
      exact consumeParsed_follows calm

/-- Merging the reads of a covered batch is reading its candidates in turn, by induction on
them.
-/
theorem mergeReads_follows (calm : undisturbed → Calm clock checks)
    (covers : Covers prepared limit candidates)
    : Follows undisturbed
        (mergeReads clock checks index prepared
          (candidates.zip (candidates.map (speculate host overrides (some limit)))))
        (consumeAll host .default steady overrides index prepared candidates) := by
  induction candidates generalizing index prepared with
  | nil => exact .refl _
  | cons candidate rest ih =>
      rcases covers with empty | here
      · cases empty
      have covers : Covers prepared limit (candidate :: rest) := .inr here
      obtain ⟨pos, rfl, _⟩ := here
      have left : prepared.remaining ≠ 0 := Nat.ne_of_gt pos
      refine .bind (budget_follows calm _) (fun _ _ => .bind (mergeNext_follows calm left) ?_)
      intro next done
      exact ih (covers.tail (consumeNext_total left done))

/-- After the last byte, candidates are classified as reading in turn does. -/
theorem classify_follows (calm : undisturbed → Calm clock checks) (spent : prepared.remaining = 0)
    : Follows undisturbed (classify clock checks index prepared candidates)
        (consumeAll host .default steady overrides index prepared candidates) := by
  induction candidates generalizing index prepared with
  | nil => exact .refl _
  | cons candidate rest ih =>
      refine .bind (budget_follows calm _) (fun _ _ => ?_)
      cases named : candidate.invocation with
      | none =>
          rw [consumeNext, readLimit_unnamed named]
          exact ih spent
      | some invocation =>
          rw [consumeNext, readLimit_spent named spent]
          exact ih spent

/-- A batch has at most as many candidates as whole files fit what remains. -/
theorem covers_batch (left : ¬ prepared.remaining = 0) (candidates : List Candidate)
    : Covers prepared (min prepared.remaining skillFileBytes)
        (candidates.take (max (prepared.remaining / skillFileBytes) 1)) := by
  by_cases empty : candidates.take (max (prepared.remaining / skillFileBytes) 1) = []
  · exact .inl empty
  · refine .inr ⟨Nat.pos_of_ne_zero left, rfl, ?_⟩
    have more := List.length_pos_iff.mpr empty
    have taken := List.length_take_le (max (prepared.remaining / skillFileBytes) 1) candidates
    have divided := Nat.div_mul_le_self prepared.remaining skillFileBytes
    simp only [skillFileBytes] at *
    omega

theorem consumeBatches_follows (calm : undisturbed → Calm clock checks)
    (ran : undisturbed → ∀ leaf, pool leaf = .ok ()) (next : Nat) (prepared : Prepared)
    (candidates : List Candidate)
    : Follows undisturbed
        (consumeBatches host clock checks pool overrides next prepared candidates)
        (consumeAll host .default steady overrides next prepared candidates) := by
  induction size : candidates.length using Nat.strongRecOn generalizing next prepared candidates with
  | _ size ih =>
      cases candidates with
      | nil =>
          rw [consumeBatches]
          exact .refl _
      | cons candidate rest =>
          rw [consumeBatches]
          refine .known (.pass (fun here => calm here _)) ?_
          by_cases spent : prepared.remaining = 0
          · simp only [if_pos spent]
            exact classify_follows calm spent
          · simp only [if_neg spent, resourceLimit_left spent]
            let count := max (prepared.remaining / skillFileBytes) 1
            have rejoined
                : consumeAll host .default steady overrides next prepared (candidate :: rest)
                  = (consumeAll host .default steady overrides next prepared
                        ((candidate :: rest).take count)
                      >>= fun prepared =>
                        consumeAll host .default steady overrides
                          (next + ((candidate :: rest).take count).length) prepared
                          ((candidate :: rest).drop count)) := by
              rw [← consumeAll_append, List.take_append_drop]
            rw [rejoined]
            refine .known (.refl (.ok (some _))) (.known (readBatch_follows calm ran) ?_)
            refine .bind (mergeReads_follows calm (covers_batch spent _)) (fun _ _ => ?_)
            refine ih _ ?_ _ _ _ rfl
            rw [← size, List.length_drop, List.length_cons]
            omega

end Batches

section Finishing

variable {host : Host} {clock : Jev.InvocationDeadline} {checks : Site → Checkpoint}
  {undisturbed : Prop}

variable (calm : undisturbed → Calm clock checks)
include calm

theorem registerAll_follows {passed : Nat} {registry : Registry} {entries : List SkillEntry}
    : Follows undisturbed
        (registerAll clock (fun step => checks (.resolving step)) passed registry entries)
        (registerAll .default (fun step => steady (.resolving step)) passed registry entries) := by
  induction entries generalizing passed registry with
  | nil => exact .refl _
  | cons entry rest ih =>
      exact .bind (budget_follows calm _) (fun _ _ => .bind (.refl _) (fun _ _ => ih))

theorem resolveNames_follows {passed : Nat} {skills : List ResolvedSkill}
    {named : List (List Position)}
    : Follows undisturbed
        (resolveNames clock (fun step => checks (.resolving step)) passed skills named)
        (resolveNames .default (fun step => steady (.resolving step)) passed skills named) := by
  induction named generalizing passed skills with
  | nil => exact .refl _
  | cons positions rest ih => exact .bind (budget_follows calm _) (fun _ _ => ih)

theorem resolve_follows (entries : List SkillEntry) (partialCoverage : Bool)
    : Follows undisturbed
        (resolve clock (fun step => checks (.resolving step)) entries partialCoverage)
        (resolve .default (fun step => steady (.resolving step)) entries partialCoverage) := by
  refine .bind (budget_follows calm _) (fun _ _ => .bind (.refl _) (fun _ _ => ?_))
  refine .bind (.refl _) (fun _ _ => .bind (.refl _) (fun _ _ => ?_))
  refine .bind (registerAll_follows calm) (fun _ _ => .bind (resolveNames_follows calm) ?_)
  exact fun _ _ => .bind (budget_follows calm _) (fun _ _ => .refl _)

theorem checkpoint_follows (proving : Proving)
    : Follows undisturbed (proving.checkpoint clock checks)
        (proving.checkpoint .default steady) :=
  .bind (budget_follows calm _) (fun _ _ => .refl _)

theorem proveName_follows {snapshots : TreeMap SkillId FileIdentity compare} {name : String}
    {proving : Proving} {roots : List PlannedRoot}
    : Follows undisturbed (proveName host clock checks snapshots name proving roots)
        (proveName host .default steady snapshots name proving roots) := by
  induction roots generalizing proving with
  | nil => exact .refl _
  | cons planned rest ih =>
      refine .bind (checkpoint_follows calm proving) (fun next _ => ?_)
      by_cases supported : ¬ (planned.kind = .project ∨ planned.kind = .user)
      · simp only [if_pos supported]
        exact ih
      · simp only [if_neg supported]
        by_cases spent : next.probes ≥ discoveryFiles
        · simp only [if_pos spent]
          exact .refl _
        · simp only [if_neg spent]
          cases planned.root with
          | none => exact .refl _
          | some root =>
              refine .bind (.refl _) (fun key _ => .bind (checkpoint_follows calm _) ?_)
              intro _ _
              split
              · exact ih
              · exact .refl _

theorem proveNames_follows (roots : List PlannedRoot) (entries : List SkillEntry)
    (withheld : TreeSet String compare)
    : Follows undisturbed (proveNames host clock checks roots entries withheld)
        (proveNames host .default steady roots entries withheld) := by
  have each (snapshots : TreeMap SkillId FileIdentity compare) (proving : Proving)
      (names : List String)
      : Follows undisturbed (proveAll host clock checks snapshots roots proving names)
          (proveAll host .default steady snapshots roots proving names) := by
    induction names generalizing proving with
    | nil => exact .refl _
    | cons name rest ih =>
        refine .bind (checkpoint_follows calm proving) (fun _ _ => ?_)
        exact .bind (proveName_follows calm) (fun _ _ => ih _)
  refine .bind (checkpoint_follows calm _) (fun _ _ => .bind (each _ _ _) (fun _ _ => ?_))
  exact .bind (checkpoint_follows calm _) (fun _ _ => .refl _)

theorem noteLimited_follows {limited : TreeSet String compare} {index : Nat}
    {diagnostics : List (Nat × ResolutionError)} {candidates : List Candidate}
    : Follows undisturbed (noteLimited clock checks limited index diagnostics candidates)
        (noteLimited .default steady limited index diagnostics candidates) := by
  induction candidates generalizing index diagnostics with
  | nil => exact .refl _
  | cons candidate rest ih => exact .bind (budget_follows calm _) (fun _ _ => ih)

theorem finish_follows (plan : DiscoveryPlan) (prepared : Prepared)
    : Follows undisturbed (prepared.finish host clock checks plan)
        (prepared.finish host .default steady plan) := by
  have proven
      : Follows undisturbed (prepared.prove host clock checks plan)
          (prepared.prove host .default steady plan) := by
    unfold Prepared.prove
    split
    · refine .bind (proveNames_follows calm _ _ _) (fun proof _ => ?_)
      split
      · exact .refl _
      · exact .bind (noteLimited_follows calm) (fun _ _ => .refl _)
    · exact .refl _
  exact .bind proven (fun _ _ => .bind (resolve_follows calm _ _) (fun _ _ => .refl _))

theorem readPlan_follows (plan : DiscoveryPlan)
    (overrides : TreeMap String InvocationRestrictions compare)
    : Follows undisturbed (readPlan host clock checks plan overrides)
        (readPlan host .default steady plan overrides) :=
  .bind (new_follows calm plan) (fun _ _ => consumeAll_follows calm)

variable {pool : Leaf → Except RuntimeError Unit}

theorem readPlanConcurrent_follows (ran : undisturbed → ∀ leaf, pool leaf = .ok ())
    (plan : DiscoveryPlan) (overrides : TreeMap String InvocationRestrictions compare)
    : Follows undisturbed (readPlanConcurrent host clock checks pool plan overrides)
        (readPlan host .default steady plan overrides) := by
  refine .known (leaf_follows ran _) (.bind (new_follows calm plan) (fun _ _ => ?_))
  exact consumeBatches_follows calm ran 0 _ _

theorem resolveClaudePlan_follows (plan : DiscoveryPlan)
    (overrides : TreeMap String InvocationRestrictions compare)
    : Follows undisturbed (resolveClaudePlan host clock checks plan overrides)
        (resolveClaudePlan host .default steady plan overrides) :=
  .bind (readPlan_follows calm plan overrides) (fun _ _ => finish_follows calm plan _)

theorem resolveClaudePlanConcurrent_follows (ran : undisturbed → ∀ leaf, pool leaf = .ok ())
    (plan : DiscoveryPlan) (overrides : TreeMap String InvocationRestrictions compare)
    : Follows undisturbed (resolveClaudePlanConcurrent host clock checks pool plan overrides)
        (resolveClaudePlan host .default steady plan overrides) := by
  refine .bind (readPlanConcurrent_follows calm ran plan overrides) (fun _ _ => ?_)
  exact .known (leaf_follows ran _) (finish_follows calm plan _)

end Finishing

/-- Reading a plan by batches and reading it in turn: whatever interrupts either, two runs that
have a result have the same entries, diagnostics, withheld names and bytes, and the same
resolution; undisturbed runs end alike.
-/
theorem reads_agree (host : Host) (clock : Jev.InvocationDeadline)
    (checks others : Site → Checkpoint) (pool : Leaf → Except RuntimeError Unit)
    (plan : DiscoveryPlan) (overrides : TreeMap String InvocationRestrictions compare)
    : let undisturbed :=
        Calm clock checks ∧ Calm clock others ∧ ∀ leaf, pool leaf = .ok ()
      ((∀ left right,
          readPlan host clock checks plan overrides = .ok left
          → readPlanConcurrent host clock others pool plan overrides = .ok right
          → left.entries = right.entries
            ∧ left.diagnostics = right.diagnostics
            ∧ left.withheldNames = right.withheldNames
            ∧ left.total = right.total)
        ∧ (undisturbed
          → readPlan host clock checks plan overrides
            = readPlanConcurrent host clock others pool plan overrides))
      ∧ (∀ left right,
          resolveClaudePlan host clock checks plan overrides = .ok left
          → resolveClaudePlanConcurrent host clock others pool plan overrides = .ok right
          → left = right)
      ∧ (undisturbed
        → resolveClaudePlan host clock checks plan overrides
          = resolveClaudePlanConcurrent host clock others pool plan overrides) := by
  let inTurn := Calm clock checks
  let byBatches := Calm clock others ∧ ∀ leaf, pool leaf = .ok ()
  have turn : inTurn → Calm clock checks := id
  have calm : byBatches → Calm clock others := And.left
  have ran : byBatches → ∀ leaf, pool leaf = .ok () := And.right
  obtain ⟨same, alike⟩ :=
    (readPlan_follows turn plan overrides).agree
      (readPlanConcurrent_follows calm ran plan overrides)
  obtain ⟨sameResolution, alikeResolution⟩ :=
    (resolveClaudePlan_follows turn plan overrides).agree
      (resolveClaudePlanConcurrent_follows calm ran plan overrides)
  refine ⟨⟨?_, fun here => alike here.1 here.2⟩, sameResolution,
    fun here => alikeResolution here.1 here.2⟩
  intro left right first second
  cases same left right first second
  exact ⟨rfl, rfl, rfl, rfl⟩

end SkillRanker.Roster
