import SkillRanker.Evaluation.Sampling

/-! Choices of indices from any source of words: what a choice that comes to an end has made.
The rules say what every value that a sampling may return satisfies.
-/

namespace SkillRanker.Evaluation
open SkillRanker.Library

variable {Source : Type} {α β : Type}

-- Rules

/-- Every value that the sampling returns, from whatever source, satisfies the condition. -/
def Yields (sampling : Sampling Source α) (condition : α → Prop) : Prop :=
  ∀ source value left, Sampled sampling source value left → condition value

variable {condition : α → Prop}

theorem yields_pure {value : α} (holds : condition value)
    : Yields (pure value : Sampling Source α) condition := by
  intro source result left sampled
  cases sampled
  exact holds

theorem yields_throw {error : SamplingError}
    : Yields (throw error : Sampling Source α) condition :=
  fun _ _ _ sampled => nomatch sampled

variable {sampling : Sampling Source α} {next : α → Sampling Source β}

theorem Sampled.parts {source left : Source} {result : β}
    (sampled : Sampled (sampling >>= next) source result left)
    : ∃ value between,
        Sampled sampling source value between ∧ Sampled (next value) between result left := by
  unfold Sampled at *
  change (sampling source).bind _ = _ at sampled
  cases first : sampling source with
  | none =>
      rw [first] at sampled
      cases sampled
  | some outcome =>
      rw [first] at sampled
      obtain ⟨done, between⟩ := outcome
      cases done with
      | error error => cases sampled
      | ok value => exact ⟨value, between, rfl, sampled⟩

theorem Yields.bind {middle : α → Prop} {condition : β → Prop} (first : Yields sampling middle)
    (rest : ∀ value, middle value → Yields (next value) condition)
    : Yields (sampling >>= next) condition := by
  intro source result left sampled
  obtain ⟨value, between, firstSampled, restSampled⟩ := sampled.parts
  exact rest value (first _ _ _ firstSampled) _ _ _ restSampled

theorem Yields.caught {value : α} (first : Yields sampling condition) (fallback : condition value)
    : Yields (tryCatch sampling fun _ => pure value) condition := by
  intro source result left sampled
  unfold Sampled at sampled
  change (sampling source).bind _ = _ at sampled
  cases tried : sampling source with
  | none =>
      rw [tried] at sampled
      cases sampled
  | some outcome =>
      rw [tried] at sampled
      obtain ⟨done, between⟩ := outcome
      cases done with
      | error error =>
          cases sampled
          exact fallback
      | ok kept =>
          cases sampled
          exact first _ _ _ tried

/-- What every step of a fold keeps holds of its result, by induction on the items. -/
theorem yields_foldlM {Invariant : α → Prop} {step : α → β → Sampling Source α}
    {items : List β}
    (kept : ∀ item ∈ items, ∀ value, Invariant value → Yields (step value item) Invariant)
    {start : α} (initially : Invariant start)
    : Yields (items.foldlM step start) Invariant := by
  induction items generalizing start with
  | nil => exact yields_pure initially
  | cons item rest ih =>
      rw [List.foldlM_cons]
      refine (kept item List.mem_cons_self start initially).bind fun next holds => ?_
      exact ih (fun other mem => kept other (List.mem_cons_of_mem item mem)) holds

/-- Samplings of the items one after the other, by induction on the items. -/
theorem yields_mapM {related : α → β → Prop} {step : α → Sampling Source β} {items : List α}
    (each : ∀ item ∈ items, Yields (step item) (related item))
    : Yields (items.mapM step) (List.Forall₂ related items) := by
  induction items with
  | nil => exact yields_pure .nil
  | cons item rest ih =>
      rw [List.mapM_cons]
      refine (each item List.mem_cons_self).bind fun value holds => ?_
      refine (ih fun other mem => each other (List.mem_cons_of_mem item mem)).bind ?_
      intro values others
      exact yields_pure (.cons holds others)

-- Choices

theorem yields_boundedU64 (nextU64 : Source → Nat × Source) (fuel upperBound : Nat)
    : Yields (boundedU64 nextU64 fuel upperBound) (· < upperBound) := by
  unfold boundedU64
  split
  · exact yields_throw
  · next positive =>
    intro source value left sampled
    unfold Sampled at sampled
    change (loop (boundedPass nextU64 upperBound) fuel source).bind _ = _ at sampled
    cases returned : loop (boundedPass nextU64 upperBound) fuel source with
    | none =>
        rw [returned] at sampled
        cases sampled
    | some result =>
        rw [returned] at sampled
        cases sampled
        obtain ⟨last, _, done⟩ := loop_invariant
          (fun _ _ _ _ => trivial) (show (fun _ : Source => True) source from trivial) returned
        unfold boundedPass acceptedDraw at done
        dsimp only at done
        split at done
        · next found =>
          cases done
          split at found
          · rw [← Option.some.inj found]
            exact Nat.mod_lt _ (Nat.pos_of_ne_zero positive)
          · cases found
        · cases done

section
variable {bounded : Nat → Sampling Source Nat}
  (below : ∀ upperBound, Yields (bounded upperBound) (· < upperBound))
include below

theorem yields_shuffleSlice (items : List α)
    : Yields (shuffleSlice bounded items) (·.Perm items) := by
  unfold shuffleSlice
  split
  · exact yields_pure (List.Perm.refl _)
  · next long =>
    refine yields_foldlM ?_ (List.Perm.refl _)
    intro place mem slice perm
    have inside := List.mem_range'_1.mp (List.mem_reverse.mp mem)
    refine ((below (place + 1)).caught (Nat.succ_pos place)).bind fun draw drawn => ?_
    have length := perm.length_eq
    exact yields_pure ((swapAt_perm (by omega) (by omega)).trans perm)

/-- The loop over the last indices chooses distinct ones, by induction on their number. -/
theorem yields_chooseIndices (first size : Nat)
    : Yields ((List.range' first size).foldlM (chooseIndex bounded) (∅, []))
        (fun chosen => chosen.1 = chosen.2.toFinset ∧ Chosen (first + size) size chosen.2) := by
  induction size with
  | zero => exact yields_pure ⟨rfl, List.nodup_nil, rfl, fun _ none => nomatch none⟩
  | succ size ih =>
      rw [List.range'_1_concat, List.foldlM_append]
      refine ih.bind fun chosen ⟨set, sound⟩ => ?_
      have stepped : Yields (chooseIndex bounded chosen (first + size))
          fun chosen => chosen.1 = chosen.2.toFinset
            ∧ Chosen (first + size + 1) (size + 1) chosen.2 := by
        refine (below (first + size + 1)).bind fun draw drawn => ?_
        have step := sound.step (Nat.le_of_lt_succ drawn)
        unfold floydStep at step
        rw [set]
        simp only [List.mem_toFinset]
        split at step
        · next again =>
          rw [if_pos again]
          exact yields_pure ⟨(toFinset_snoc _ _).symm, step⟩
        · next new =>
          rw [if_neg new]
          exact yields_pure ⟨(toFinset_snoc _ _).symm, step⟩
      rw [List.foldlM_cons]
      exact stepped.bind fun _ holds => yields_pure holds

/-- A choice without replacement is of distinct indices below the population, as many as asked for,
and these are not more.
-/
theorem yields_choiceIndices (popSize size : Nat)
    : Yields (choiceIndices bounded popSize size false) (Chosen popSize size) := by
  unfold choiceIndices
  split
  · exact yields_throw
  split
  · exact yields_throw
  · next enough =>
    split
    · next none =>
      subst none
      exact yields_pure ⟨List.nodup_nil, rfl, fun _ none => nomatch none⟩
    · rw [if_neg Bool.false_ne_true]
      refine (yields_chooseIndices below (popSize - size) size).bind fun chosen ⟨_, sound⟩ => ?_
      have whole : popSize - size + size = popSize := by
        simp only [Bool.not_false, true_and, not_lt] at enough
        omega
      intro source value left sampled
      have perm := yields_shuffleSlice below _ _ _ _ sampled
      exact ⟨perm.nodup_iff.mpr sound.distinct, perm.length_eq.trans sound.length,
        fun index mem => whole ▸ sound.below index (perm.mem_iff.mp mem)⟩

end

end SkillRanker.Evaluation
