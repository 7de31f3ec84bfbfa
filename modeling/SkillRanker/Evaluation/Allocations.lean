import Mathlib.Algebra.BigOperators.Group.List.Lemmas
import SkillRanker.Evaluation.Stratified
import SkillRanker.Library.Totals

/-! Allocations of a sample over strata: by levels, and in proportion to the populations.
What is allocated is exactly the budget, and every stratum gets its floor and no more than it has.
-/

namespace SkillRanker.Evaluation
open SkillRanker.Library

variable {strataSizes : List (String × Nat)} {stratum : String × Nat} {floor target : Nat}
  {state : Apportionment}

-- Levels

theorem cappedCount_cons (stratum : String × Nat) (rest : List (String × Nat)) (level : Nat)
    : cappedCount (stratum :: rest) level = min stratum.2 level + cappedCount rest level := by
  simp [cappedCount]

variable {level : Nat}

theorem cappedCount_mono (strataSizes : List (String × Nat)) {higher : Nat} (below : level ≤ higher)
    : cappedCount strataSizes level ≤ cappedCount strataSizes higher :=
  List.sum_le_sum fun stratum _ => min_le_min (Nat.le_refl stratum.2) below

/-- A level that no population exceeds takes all of them. -/
theorem cappedCount_eq_total (covers : ∀ stratum ∈ strataSizes, stratum.2 ≤ level)
    : cappedCount strataSizes level = totalOf strataSizes := by
  unfold cappedCount totalOf
  exact congrArg List.sum
    (List.map_congr_left fun stratum mem => Nat.min_eq_left (covers stratum mem))

def roomAbove (strataSizes : List (String × Nat)) (level : Nat) : Nat :=
  strataSizes.countP fun stratum => level < stratum.2

variable (strataSizes)

/-- The next level takes one more of every stratum that has room. -/
theorem cappedCount_succ (level : Nat)
    : cappedCount strataSizes (level + 1)
      = cappedCount strataSizes level + roomAbove strataSizes level := by
  induction strataSizes with
  | nil => rfl
  | cons stratum rest ih =>
      rw [cappedCount_cons, cappedCount_cons, ih, roomAbove, roomAbove, List.countP_cons]
      split
      · next room =>
        have above := of_decide_eq_true room
        omega
      · next full =>
        have within : ¬ level < stratum.2 := fun above => full (decide_eq_true above)
        omega

/-- What a bisection finds from a level that fits: a level between the two that fits, and none above
it up to the higher one does.
-/
theorem commonLevel_spec (target low high : Nat) (between : low ≤ high)
    (fits : cappedCount strataSizes low ≤ target)
    : low ≤ commonLevel strataSizes target low high
      ∧ commonLevel strataSizes target low high ≤ high
      ∧ cappedCount strataSizes (commonLevel strataSizes target low high) ≤ target
      ∧ (commonLevel strataSizes target low high = high
        ∨ target < cappedCount strataSizes (commonLevel strataSizes target low high + 1)) := by
  fun_induction commonLevel strataSizes target low high with
  | case1 low high below gap mid within ih =>
      have middle : low ≤ mid ∧ mid ≤ high := ⟨by omega, by omega⟩
      obtain ⟨above, least, holds, last⟩ := ih middle.2 within
      exact ⟨Nat.le_trans middle.1 above, least, holds, last⟩
  | case2 low high below gap mid beyond ih =>
      have middle : low < mid ∧ mid ≤ high := ⟨by omega, by omega⟩
      obtain ⟨above, least, holds, last⟩ := ih (by omega) fits
      refine ⟨above, by omega, holds, Or.inr ?_⟩
      rcases last with same | exceeds
      · rw [same, Nat.sub_add_cancel (by omega)]
        exact not_le.mp beyond
      · exact exceeds
  | case3 low high done => exact ⟨Nat.le_refl _, between, fits, Or.inl (by omega)⟩

variable {strataSizes}

theorem fillUp_keys (level remaining : Nat) (strataSizes : List (String × Nat))
    : (fillUp level remaining strataSizes).map Prod.fst = strataSizes.map Prod.fst := by
  induction strataSizes generalizing remaining with
  | nil => rfl
  | cons stratum rest ih =>
      obtain ⟨key, population⟩ := stratum
      unfold fillUp
      dsimp only
      split <;> simp [ih]

/-- A stratum is filled to the level or to its population, or to one above the level within its
population.
-/
theorem exists_fillUp (level remaining : Nat) (mem : stratum ∈ strataSizes)
    : ∃ count, (stratum.1, count) ∈ fillUp level remaining strataSizes
      ∧ (count = min stratum.2 level ∨ count = level + 1 ∧ level < stratum.2) := by
  induction strataSizes generalizing remaining with
  | nil => cases mem
  | cons first rest ih =>
      obtain ⟨key, population⟩ := first
      unfold fillUp
      dsimp only
      rcases List.mem_cons.mp mem with rfl | later
      · split
        · next room =>
          exact ⟨_, List.mem_cons_self, Or.inr (by dsimp only; omega)⟩
        · exact ⟨_, List.mem_cons_self, Or.inl rfl⟩
      · split
        · obtain ⟨count, listed, filled⟩ := ih (remaining - 1) later
          exact ⟨count, List.mem_cons_of_mem _ listed, filled⟩
        · obtain ⟨count, listed, filled⟩ := ih remaining later
          exact ⟨count, List.mem_cons_of_mem _ listed, filled⟩

variable {remaining : Nat}

/-- All that remains is taken where there is room for it, by induction on the strata. -/
theorem totalOf_fillUp (room : remaining ≤ roomAbove strataSizes level)
    : totalOf (fillUp level remaining strataSizes)
      = cappedCount strataSizes level + remaining := by
  induction strataSizes generalizing remaining with
  | nil =>
      obtain rfl : remaining = 0 := by simpa [roomAbove] using room
      rfl
  | cons stratum rest ih =>
      obtain ⟨key, population⟩ := stratum
      rw [roomAbove, List.countP_cons] at room
      unfold fillUp
      dsimp only
      rw [cappedCount_cons]
      split
      · next taken =>
        have above : decide (level < population) = true := decide_eq_true (by omega)
        rw [above, if_pos rfl] at room
        rw [totalOf_cons, ih (by rw [roomAbove]; omega)]
        dsimp only
        omega
      · next full =>
        have fewer : remaining ≤ roomAbove rest level := by
          rw [roomAbove]
          by_cases none : remaining = 0
          · omega
          · have within : decide (level < population) = false := decide_eq_false (by omega)
            rw [within, if_neg Bool.false_ne_true] at room
            omega
        rw [totalOf_cons, ih fewer]
        dsimp only
        omega

-- Floors of a proportional allocation

/-- What an apportionment keeps: a stratum is active or has its floor, the shares and what remains
are the target, and what remains covers the floors of the active strata.
-/
structure Funded (strataSizes : List (String × Nat)) (target floor : Nat) (state : Apportionment)
    : Prop where
  ordered : Ordered state.active
  active : ∀ stratum ∈ state.active, stratum ∈ strataSizes
  tableOrdered : Ordered state.allocated
  fixed : ∀ key count, state.allocated.lookup key = some count
    → ∃ stratum ∈ strataSizes, stratum.1 = key ∧ stratum ∉ state.active
      ∧ count = min floor stratum.2
  shared : ∀ stratum ∈ strataSizes,
    stratum ∉ state.active → state.allocated.lookup stratum.1 = some (min floor stratum.2)
  population : state.activePopulation = totalOf state.active
  spent : totalOf state.allocated + state.remaining = target
  floors : cappedCount state.active floor ≤ state.remaining

theorem cappedCount_remove {entries : List (String × Nat)} (ordered : Ordered entries)
    (mem : stratum ∈ entries) (floor : Nat)
    : cappedCount entries floor
      = min floor stratum.2 + cappedCount (removeEntry stratum.1 entries) floor := by
  unfold cappedCount
  rw [totalOf_removeEntry ordered mem fun stratum => min stratum.2 floor, Nat.min_comm]

theorem mem_fix_active {other : String × Nat}
    : other ∈ (state.fix floor stratum).active ↔ other ∈ state.active ∧ other.1 ≠ stratum.1 := by
  simp [Apportionment.fix, removeEntry]

/-- An active stratum has no share. -/
theorem Funded.fresh (sizesOrdered : Ordered strataSizes)
    (funded : Funded strataSizes target floor state) (mem : stratum ∈ state.active)
    : state.allocated.lookup stratum.1 = none := by
  cases found : state.allocated.lookup stratum.1 with
  | none => rfl
  | some count =>
      obtain ⟨other, otherListed, same, inactive, _⟩ := funded.fixed _ _ found
      have listed := funded.active stratum mem
      exact absurd (sizesOrdered.eq_of_key otherListed listed same ▸ mem) inactive

/-- A stratum that gets its floor leaves the active ones. Nothing is spent that is not there. -/
theorem Funded.fix (sizesOrdered : Ordered strataSizes)
    (funded : Funded strataSizes target floor state) (mem : stratum ∈ state.active)
    : Funded strataSizes target floor (state.fix floor stratum)
      ∧ min floor stratum.2 ≤ state.remaining ∧ stratum.2 ≤ state.activePopulation := by
  have listed := funded.active stratum mem
  have floors := funded.floors
  rw [cappedCount_remove funded.ordered mem] at floors
  have least : stratum.2 ≤ state.activePopulation := by
    rw [funded.population]
    exact le_totalOf mem
  have fresh := funded.fresh sizesOrdered mem
  refine ⟨⟨funded.ordered.removeEntry _, ?_, funded.tableOrdered.insertEntry _ _, ?_, ?_, ?_, ?_,
    ?_⟩, by omega, least⟩
  · intro other otherMem
    exact funded.active other (mem_fix_active.mp otherMem).1
  · intro key count found
    by_cases same : key = stratum.1
    · subst same
      rw [show (state.fix floor stratum).allocated
          = insertEntry stratum.1 (min floor stratum.2) state.allocated from rfl,
        lookup_insertEntry_self] at found
      refine ⟨stratum, listed, rfl, ?_, (Option.some.inj found).symm⟩
      rw [mem_fix_active]
      exact fun both => both.2 rfl
    · obtain ⟨other, otherListed, otherKey, inactive, value⟩ :=
        funded.fixed key count (by rwa [← lookup_insertEntry_of_ne same])
      refine ⟨other, otherListed, otherKey, ?_, value⟩
      rw [mem_fix_active]
      exact fun both => inactive both.1
  · intro other otherListed inactive
    by_cases same : other.1 = stratum.1
    · obtain rfl := sizesOrdered.eq_of_key otherListed listed same
      exact lookup_insertEntry_self _ _ _
    · refine (lookup_insertEntry_of_ne same _ _).trans (funded.shared other otherListed ?_)
      exact fun active => inactive (mem_fix_active.mpr ⟨active, same⟩)
  · change state.activePopulation - stratum.2 = _
    rw [funded.population, totalOf, totalOf_removeEntry funded.ordered mem Prod.snd,
      Nat.add_sub_cancel_left]
    rfl
  · have added := totalOf_insertEntry funded.tableOrdered stratum.1 (min floor stratum.2)
    rw [fresh, Option.getD_none] at added
    have spent := funded.spent
    change totalOf (insertEntry stratum.1 (min floor stratum.2) state.allocated)
      + (state.remaining - min floor stratum.2) = target
    omega
  · change cappedCount (removeEntry stratum.1 state.active) floor
      ≤ state.remaining - min floor stratum.2
    omega

/-- A floor that is above a quota lowers what remains for each family of the others. -/
theorem fix_ratio {population slack : Nat}
    (constrained : remaining * stratum.2 < min floor stratum.2 * population)
    (spends : min floor stratum.2 ≤ state.remaining)
    (ratio : state.remaining * population + slack ≤ remaining * state.activePopulation)
    : (state.fix floor stratum).remaining * population + (slack + 1)
      ≤ remaining * (state.fix floor stratum).activePopulation := by
  change (state.remaining - min floor stratum.2) * population + (slack + 1)
    ≤ remaining * (state.activePopulation - stratum.2)
  have taken := Nat.mul_le_mul_right population spends
  rw [Nat.sub_mul, Nat.mul_sub]
  omega

theorem mem_foldl_fix_active {constrained : List (String × Nat)} {other : String × Nat}
    : other ∈ (constrained.foldl (·.fix floor) state).active
      ↔ other ∈ state.active ∧ ∀ stratum ∈ constrained, other.1 ≠ stratum.1 := by
  induction constrained generalizing state with
  | nil => simp
  | cons stratum rest ih => simp [ih, mem_fix_active, and_assoc]

/-- Strata that get their floors one after the other, by induction on them. -/
theorem funded_foldl {constrained : List (String × Nat)} (sizesOrdered : Ordered strataSizes)
    {population slack : Nat} (funded : Funded strataSizes target floor state)
    (distinct : Ordered constrained)
    (listed
      : ∀ stratum ∈ constrained,
          stratum ∈ state.active ∧ remaining * stratum.2 < min floor stratum.2 * population)
    (ratio : state.remaining * population + slack ≤ remaining * state.activePopulation)
    : Funded strataSizes target floor (constrained.foldl (·.fix floor) state)
      ∧ (constrained.foldl (·.fix floor) state).remaining * population
          + (slack + constrained.length)
        ≤ remaining * (constrained.foldl (·.fix floor) state).activePopulation
      ∧ (constrained.foldl (·.fix floor) state).active.length + constrained.length
        ≤ state.active.length := by
  induction constrained generalizing state slack with
  | nil => exact ⟨funded, ratio, Nat.le_refl _⟩
  | cons stratum rest ih =>
      obtain ⟨below, restDistinct⟩ := List.pairwise_cons.mp distinct
      obtain ⟨mem, constrained⟩ := listed stratum List.mem_cons_self
      obtain ⟨kept, spends, _⟩ := funded.fix sizesOrdered mem
      have others : ∀ other ∈ rest, other ∈ (state.fix floor stratum).active
          ∧ remaining * other.2 < min floor other.2 * population := by
        intro other later
        obtain ⟨active, low⟩ := listed other (List.mem_cons_of_mem _ later)
        exact ⟨mem_fix_active.mpr ⟨active, ne_of_gt (below other later)⟩, low⟩
      obtain ⟨done, kept, shorter⟩ := ih kept restDistinct others
        (fix_ratio constrained spends ratio)
      have fewer : (state.fix floor stratum).active.length < state.active.length :=
        List.length_filter_lt_length_iff_exists.mpr ⟨stratum, mem, by simp⟩
      rw [List.foldl_cons, List.length_cons]
      exact ⟨done, by omega, by omega⟩

/-- The quotas of the strata that have their floors are below these. -/
def Apportionment.Low (strataSizes : List (String × Nat)) (floor : Nat) (state : Apportionment)
    : Prop :=
  ∀ stratum ∈ strataSizes, stratum ∉ state.active → state.constrained floor stratum = true

/-- One round of floors. Some stratum gets its floor, and what remains does not outgrow what is left
of the population. Quotas only fall, so that those below their floors stay there.
-/
theorem funded_round (sizesOrdered : Ordered strataSizes)
    (funded : Funded strataSizes target floor state)
    (room : state.remaining ≤ state.activePopulation)
    (more : state.active.filter (state.constrained floor) ≠ [])
    : Funded strataSizes target floor
        ((state.active.filter (state.constrained floor)).foldl (·.fix floor) state)
      ∧ ((state.active.filter (state.constrained floor)).foldl (·.fix floor) state).remaining
        ≤ ((state.active.filter (state.constrained floor)).foldl (·.fix floor)
            state).activePopulation
      ∧ (state.Low strataSizes floor
        → ((state.active.filter (state.constrained floor)).foldl (·.fix floor) state).Low strataSizes
            floor)
      ∧ ((state.active.filter (state.constrained floor)).foldl (·.fix floor) state).active.length
        < state.active.length := by
  have listed : ∀ stratum ∈ state.active.filter (state.constrained floor),
      stratum ∈ state.active
        ∧ state.remaining * stratum.2 < min floor stratum.2 * state.activePopulation := by
    intro stratum mem
    obtain ⟨active, low⟩ := List.mem_filter.mp mem
    exact ⟨active, of_decide_eq_true low⟩
  obtain ⟨kept, ratio, shorter⟩ := funded_foldl sizesOrdered funded
    (List.Pairwise.filter _ funded.ordered) listed
    (show _ + 0 ≤ _ from Nat.le_refl _)
  have some := List.length_pos_iff.mpr more
  obtain ⟨stratum, mem⟩ := List.exists_mem_of_ne_nil _ more
  have positive : 0 < state.activePopulation := by
    refine Nat.pos_of_ne_zero fun none => ?_
    have low := (listed stratum mem).2
    rw [none, Nat.mul_zero] at low
    exact Nat.not_lt_zero _ low
  have gone (other : String × Nat) (active : other ∈ state.active)
      (inactive
        : other ∉ ((state.active.filter (state.constrained floor)).foldl (·.fix floor) state).active)
      : state.constrained floor other = true := by
    by_contra high
    refine inactive (mem_foldl_fix_active.mpr ⟨active, fun one chosen same => high ?_⟩)
    obtain ⟨oneActive, low⟩ := List.mem_filter.mp chosen
    rwa [sizesOrdered.eq_of_key (funded.active other active) (funded.active one oneActive) same]
  generalize (state.active.filter (state.constrained floor)).foldl (·.fix floor) state = after
    at kept ratio shorter gone ⊢
  refine ⟨kept, ?_, fun low other listed inactive => decide_eq_true ?_, by omega⟩
  · refine Nat.le_of_mul_le_mul_right ((Nat.le_of_add_right_le ratio).trans ?_) positive
    rw [Nat.mul_comm]
    exact Nat.mul_le_mul_left _ room
  · have quota : state.remaining * other.2 < min floor other.2 * state.activePopulation := by
      by_cases active : other ∈ state.active
      · exact of_decide_eq_true (gone other active inactive)
      · exact of_decide_eq_true (low other listed active)
    have left : 0 < after.activePopulation :=
      Nat.pos_of_mul_pos_left (Nat.lt_of_lt_of_le (by omega) ratio)
    refine Nat.lt_of_mul_lt_mul_right (a := state.activePopulation) ?_
    calc after.remaining * other.2 * state.activePopulation
        = after.remaining * state.activePopulation * other.2 := Nat.mul_right_comm _ _ _
      _ ≤ state.remaining * after.activePopulation * other.2 :=
        Nat.mul_le_mul_right _ (Nat.le_of_add_right_le ratio)
      _ = state.remaining * other.2 * after.activePopulation := Nat.mul_right_comm _ _ _
      _ < min floor other.2 * state.activePopulation * after.activePopulation :=
        Nat.mul_lt_mul_of_pos_right quota left
      _ = min floor other.2 * after.activePopulation * state.activePopulation :=
        Nat.mul_right_comm _ _ _

/-- The floors are given until no quota is below its floor. Each round takes an active stratum. -/
theorem fixFloors_spec (sizesOrdered : Ordered strataSizes) {rounds : Nat}
    (funded : Funded strataSizes target floor state)
    (room : state.remaining ≤ state.activePopulation) (low : state.Low strataSizes floor)
    (enough : state.active.length ≤ rounds)
    : Funded strataSizes target floor (fixFloors floor rounds state)
      ∧ (fixFloors floor rounds state).remaining
        ≤ (fixFloors floor rounds state).activePopulation
      ∧ (fixFloors floor rounds state).Low strataSizes floor
      ∧ ∀ stratum ∈ (fixFloors floor rounds state).active,
          (fixFloors floor rounds state).constrained floor stratum = false := by
  induction rounds generalizing state with
  | zero =>
      refine ⟨funded, room, low, ?_⟩
      intro stratum mem
      change stratum ∈ state.active at mem
      rw [List.eq_nil_of_length_eq_zero (Nat.le_zero.mp enough)] at mem
      cases mem
  | succ rounds ih =>
      unfold fixFloors
      dsimp only
      split
      · next none =>
        refine ⟨funded, room, low, ?_⟩
        intro stratum mem
        have empty := List.isEmpty_iff.mp none
        simpa using (List.filter_eq_nil_iff.mp empty) stratum mem
      · next more =>
        have found : state.active.filter (state.constrained floor) ≠ [] :=
          fun empty => more (List.isEmpty_iff.mpr empty)
        obtain ⟨kept, roomy, lower, shorter⟩ := funded_round sizesOrdered funded room found
        exact ih kept roomy (lower low) (by omega)

end SkillRanker.Evaluation
