import Mathlib.Algebra.BigOperators.Group.Finset.Piecewise
import Mathlib.Algebra.BigOperators.Group.Finset.Sigma
import Mathlib.Algebra.Order.BigOperators.Group.Finset
import Mathlib.Data.List.Basic
import Mathlib.Data.Nat.Factorial.Basic

/-! Sequences of draws below given bounds, and how many of them meet a condition. -/

namespace SkillRanker.Library

section

variable {draws : List Nat}

def drawSequences : List Nat → Finset (List Nat)
  | [] => {[]}
  | bound :: bounds =>
      (Finset.range bound ×ˢ drawSequences bounds).image fun pair => pair.1 :: pair.2

theorem mem_drawSequences_nil : draws ∈ drawSequences [] ↔ draws = [] :=
  Finset.mem_singleton

variable {bounds : List Nat}

theorem mem_drawSequences_cons {bound : Nat}
    : draws ∈ drawSequences (bound :: bounds)
      ↔ ∃ draw rest, draws = draw :: rest ∧ draw < bound ∧ rest ∈ drawSequences bounds := by
  simp only [drawSequences, Finset.mem_image, Finset.mem_product, Finset.mem_range, Prod.exists]
  refine ⟨?_, ?_⟩
  · rintro ⟨draw, rest, ⟨below, mem⟩, rfl⟩
    exact ⟨draw, rest, rfl, below, mem⟩
  · rintro ⟨draw, rest, rfl, below, mem⟩
    exact ⟨draw, rest, ⟨below, mem⟩, rfl⟩

theorem length_of_mem_drawSequences (mem : draws ∈ drawSequences bounds)
    : draws.length = bounds.length := by
  induction bounds generalizing draws with
  | nil => rw [mem_drawSequences_nil.mp mem]
  | cons bound bounds ih =>
      obtain ⟨draw, rest, rfl, _, listed⟩ := mem_drawSequences_cons.mp mem
      rw [List.length_cons, List.length_cons, ih listed]

theorem mem_drawSequences_append {first later : List Nat}
    : draws ∈ drawSequences (first ++ later)
      ↔ ∃ head tail, draws = head ++ tail
          ∧ head ∈ drawSequences first ∧ tail ∈ drawSequences later := by
  induction first generalizing draws with
  | nil =>
      refine ⟨fun mem => ⟨[], draws, rfl, mem_drawSequences_nil.mpr rfl, mem⟩, ?_⟩
      rintro ⟨head, tail, rfl, none, mem⟩
      rw [mem_drawSequences_nil.mp none]
      exact mem
  | cons bound bounds ih =>
      rw [List.cons_append, mem_drawSequences_cons]
      refine ⟨?_, ?_⟩
      · rintro ⟨draw, rest, rfl, below, mem⟩
        obtain ⟨head, tail, rfl, headMem, tailMem⟩ := ih.mp mem
        exact ⟨draw :: head, tail, rfl,
          mem_drawSequences_cons.mpr ⟨draw, head, rfl, below, headMem⟩, tailMem⟩
      · rintro ⟨head, tail, rfl, headMem, tailMem⟩
        obtain ⟨draw, rest, rfl, below, mem⟩ := mem_drawSequences_cons.mp headMem
        exact ⟨draw, rest ++ tail, rfl, below, ih.mpr ⟨rest, tail, rfl, mem, tailMem⟩⟩

-- Sums and counts

/-- A sum over sequences is a sum over the first draw and the others. -/
theorem sum_drawSequences_cons (bound : Nat) (bounds : List Nat) (weight : List Nat → Nat)
    : ∑ draws ∈ drawSequences (bound :: bounds), weight draws
      = ∑ draw ∈ Finset.range bound, ∑ rest ∈ drawSequences bounds, weight (draw :: rest) := by
  rw [drawSequences, Finset.sum_image, Finset.sum_product]
  intro first _ other _ same
  obtain ⟨head, tail⟩ := List.cons.inj same
  exact Prod.ext head tail

/-- A sum over sequences for two lists of bounds is a sum over both, by induction on the first. -/
theorem sum_drawSequences_append (first later : List Nat) (weight : List Nat → Nat)
    : ∑ draws ∈ drawSequences (first ++ later), weight draws
      = ∑ head ∈ drawSequences first, ∑ tail ∈ drawSequences later, weight (head ++ tail) := by
  induction first generalizing weight with
  | nil => simp [drawSequences]
  | cons bound bounds ih =>
      rw [List.cons_append, sum_drawSequences_cons, sum_drawSequences_cons]
      exact Finset.sum_congr rfl fun draw _ => ih fun rest => weight (draw :: rest)

/-- How many sequences meet a condition. -/
def countDraws (bounds : List Nat) (condition : List Nat → Prop) [DecidablePred condition] : Nat :=
  ((drawSequences bounds).filter condition).card

variable (condition : List Nat → Prop) [DecidablePred condition]

theorem countDraws_eq_sum (bounds : List Nat)
    : countDraws bounds condition
      = ∑ draws ∈ drawSequences bounds, if condition draws then 1 else 0 :=
  Finset.card_filter condition (drawSequences bounds)

theorem countDraws_nil : countDraws [] condition = if condition [] then 1 else 0 := by
  rw [countDraws_eq_sum, drawSequences, Finset.sum_singleton]

theorem countDraws_cons (bound : Nat) (bounds : List Nat)
    : countDraws (bound :: bounds) condition
      = ∑ draw ∈ Finset.range bound, countDraws bounds fun rest => condition (draw :: rest) := by
  simp only [countDraws_eq_sum, sum_drawSequences_cons]

theorem countDraws_append (first later : List Nat)
    : countDraws (first ++ later) condition
      = ∑ head ∈ drawSequences first, countDraws later fun tail => condition (head ++ tail) := by
  simp only [countDraws_eq_sum, sum_drawSequences_append]

theorem countDraws_snoc (bounds : List Nat) (bound : Nat)
    : countDraws (bounds ++ [bound]) condition
      = ∑ draw ∈ Finset.range bound, countDraws bounds fun head => condition (head ++ [draw]) := by
  have last (weight : List Nat → Nat)
      : ∑ tail ∈ drawSequences [bound], weight tail
        = ∑ draw ∈ Finset.range bound, weight [draw] := by
    simp [drawSequences]
  simp only [countDraws_eq_sum, sum_drawSequences_append, last]
  exact Finset.sum_comm

/-- Conditions that agree on the sequences are met equally often. -/
theorem countDraws_congr {condition other : List Nat → Prop} [DecidablePred condition]
    [DecidablePred other] (agree : ∀ draws ∈ drawSequences bounds, condition draws ↔ other draws)
    : countDraws bounds condition = countDraws bounds other :=
  congrArg Finset.card (Finset.filter_congr agree)

theorem countDraws_eq_zero {condition : List Nat → Prop} [DecidablePred condition]
    (never : ∀ draws ∈ drawSequences bounds, ¬ condition draws)
    : countDraws bounds condition = 0 := by
  rw [countDraws, Finset.filter_eq_empty_iff.mpr never, Finset.card_empty]

end

-- Floyd's choice of distinct indices, and the shuffle of Fisher and Yates

variable {α : Type}

-- Floyd's choice

/-- The draw for an index, or the index itself where the draw has been chosen before. -/
def floydStep (chosen : List Nat) (index draw : Nat) : List Nat :=
  if draw ∈ chosen then chosen ++ [index] else chosen ++ [draw]

/-- The choice that a sequence of draws makes, one for each index from the first. -/
def floyd (first : Nat) (draws : List Nat) : List Nat :=
  (draws.zipIdx first).foldl (fun chosen pair => floydStep chosen pair.2 pair.1) []

/-- The draw for an index is at most the index. -/
def floydBounds (first size : Nat) : List Nat := List.range' (first + 1) size

theorem floydBounds_succ (first size : Nat)
    : floydBounds first (size + 1) = floydBounds first size ++ [first + size + 1] := by
  rw [floydBounds, List.range'_1_concat, floydBounds, Nat.add_right_comm]

theorem floyd_snoc (first : Nat) (draws : List Nat) (draw : Nat)
    : floyd first (draws ++ [draw])
      = floydStep (floyd first draws) (first + draws.length) draw := by
  simp [floyd, List.zipIdx_append]

/-- A choice of distinct indices below a bound. -/
structure Chosen (bound size : Nat) (chosen : List Nat) : Prop where
  distinct : chosen.Nodup
  length : chosen.length = size
  below : ∀ index ∈ chosen, index < bound

theorem Chosen.step {bound size draw : Nat} {chosen : List Nat} (sound : Chosen bound size chosen)
    (drawn : draw ≤ bound)
    : Chosen (bound + 1) (size + 1) (floydStep chosen bound draw) := by
  unfold floydStep
  have fresh : bound ∉ chosen := fun mem => Nat.lt_irrefl _ (sound.below bound mem)
  have added (index : Nat) (new : index ∉ chosen) (small : index ≤ bound)
      : Chosen (bound + 1) (size + 1) (chosen ++ [index]) := by
    refine ⟨?_, by rw [List.length_append, sound.length, List.length_singleton], ?_⟩
    · rw [List.nodup_append]
      refine ⟨sound.distinct, List.nodup_singleton _, ?_⟩
      intro other mem last lastMem same
      rw [List.mem_singleton.mp lastMem] at same
      exact new (same ▸ mem)
    · intro other mem
      rcases List.mem_append.mp mem with before | last
      · exact Nat.lt_succ_of_lt (sound.below other before)
      · rw [List.mem_singleton.mp last]
        exact Nat.lt_succ_of_le small
  split
  · exact added bound fresh (Nat.le_refl _)
  · next new => exact added draw new drawn

/-- A choice is of as many distinct indices as there are draws, by induction on these. -/
theorem floyd_chosen (first size : Nat) (mem : draws ∈ drawSequences (floydBounds first size))
    : Chosen (first + size) size (floyd first draws) := by
  induction size generalizing draws with
  | zero =>
      rw [mem_drawSequences_nil.mp mem]
      exact ⟨List.nodup_nil, rfl, fun _ none => absurd none List.not_mem_nil⟩
  | succ size ih =>
      rw [floydBounds_succ] at mem
      obtain ⟨head, tail, rfl, headMem, tailMem⟩ := mem_drawSequences_append.mp mem
      obtain ⟨draw, rest, rfl, below, none⟩ := mem_drawSequences_cons.mp tailMem
      rw [mem_drawSequences_nil.mp none, floyd_snoc]
      have length : head.length = size := by
        rw [length_of_mem_drawSequences headMem, floydBounds, List.length_range']
      rw [length]
      exact (ih headMem).step (Nat.le_of_lt_succ below)

/-- A step from indices below a bound makes a set exactly if the draw is in it and the set before
was without the new index: without the bound if that is in the set, and else without the draw.
-/
theorem floydStep_toFinset {bound draw : Nat} {chosen : List Nat} {sought : Finset Nat}
    (below : ∀ index ∈ chosen, index < bound) (drawn : draw ≤ bound)
    : (floydStep chosen bound draw).toFinset = sought
      ↔ draw ∈ sought
        ∧ chosen.toFinset = sought.erase (if bound ∈ sought then bound else draw) := by
  have fresh : bound ∉ chosen.toFinset := fun mem =>
    Nat.lt_irrefl _ (below bound (List.mem_toFinset.mp mem))
  have step : (floydStep chosen bound draw).toFinset
      = if draw ∈ chosen.toFinset then insert bound chosen.toFinset
        else insert draw chosen.toFinset := by
    unfold floydStep
    simp only [List.mem_toFinset]
    ext index
    split <;> simp
  rw [step]
  generalize chosen.toFinset = before at fresh
  refine ⟨?_, ?_⟩
  · intro made
    split at made
    · next again =>
      subst made
      refine ⟨Finset.mem_insert_of_mem again, ?_⟩
      rw [if_pos (Finset.mem_insert_self _ _), Finset.erase_insert fresh]
    · next new =>
      subst made
      refine ⟨Finset.mem_insert_self _ _, ?_⟩
      split
      · next present =>
        rcases Finset.mem_insert.mp present with same | old
        · subst same
          rw [Finset.erase_insert new]
        · exact absurd old fresh
      · rw [Finset.erase_insert new]
  · rintro ⟨mem, rfl⟩
    by_cases last : bound ∈ sought
    · rw [if_pos last]
      by_cases same : draw = bound
      · rw [if_neg (by rw [same]; exact Finset.notMem_erase _ _), same,
          Finset.insert_erase last]
      · rw [if_pos (Finset.mem_erase.mpr ⟨same, mem⟩), Finset.insert_erase last]
    · rw [if_neg last, if_neg (Finset.notMem_erase _ _), Finset.insert_erase mem]

/-- Every set of indices is chosen by as many sequences of draws, by induction on its size. -/
theorem countDraws_floyd (first size : Nat) {sought : Finset Nat} (card : sought.card = size)
    (below : ∀ index ∈ sought, index < first + size)
    : countDraws (floydBounds first size) (fun draws => (floyd first draws).toFinset = sought)
      = size.factorial := by
  induction size generalizing sought with
  | zero =>
      rw [Finset.card_eq_zero.mp card]
      change countDraws [] _ = _
      rw [countDraws_nil]
      exact if_pos rfl
  | succ size ih =>
      have each : ∀ draw ∈ Finset.range (first + size + 1),
          countDraws (floydBounds first size)
              (fun head => (floyd first (head ++ [draw])).toFinset = sought)
            = if draw ∈ sought then size.factorial else 0 := by
        intro draw drawn
        have small : draw ≤ first + size := Nat.le_of_lt_succ (Finset.mem_range.mp drawn)
        have agree : ∀ head ∈ drawSequences (floydBounds first size),
            (floyd first (head ++ [draw])).toFinset = sought
              ↔ draw ∈ sought ∧ (floyd first head).toFinset
                = sought.erase (if first + size ∈ sought then first + size else draw) := by
          intro head mem
          have length : head.length = size := by
            rw [length_of_mem_drawSequences mem, floydBounds, List.length_range']
          rw [floyd_snoc, length]
          exact floydStep_toFinset (floyd_chosen first size mem).below small
        rw [countDraws_congr agree]
        by_cases mem : draw ∈ sought
        case neg =>
          rw [if_neg mem]
          exact countDraws_eq_zero fun head _ both => mem both.1
        have removed : (if first + size ∈ sought then first + size else draw) ∈ sought := by
          split
          · next last => exact last
          · exact mem
        have smaller : (sought.erase
            (if first + size ∈ sought then first + size else draw)).card = size := by
          rw [Finset.card_erase_of_mem removed, card, Nat.add_sub_cancel]
        have bounded : ∀ index ∈ sought.erase
            (if first + size ∈ sought then first + size else draw), index < first + size := by
          intro index kept
          obtain ⟨other, listed⟩ := Finset.mem_erase.mp kept
          have almost := below index listed
          split at other
          · omega
          · next absent =>
            have different : index ≠ first + size := fun same => absent (same ▸ listed)
            omega
        rw [if_pos mem, ← ih smaller bounded]
        exact countDraws_congr fun head _ => and_iff_right mem
      have members : (Finset.range (first + size + 1)).filter (· ∈ sought) = sought := by
        ext index
        simp only [Finset.mem_filter, Finset.mem_range, and_iff_right_iff_imp]
        intro mem
        have := below index mem
        omega
      calc countDraws (floydBounds first (size + 1))
            (fun draws => (floyd first draws).toFinset = sought)
          = ∑ draw ∈ Finset.range (first + size + 1),
              if draw ∈ sought then size.factorial else 0 := by
            rw [floydBounds_succ, countDraws_snoc]
            exact Finset.sum_congr rfl each
        _ = (size + 1) * size.factorial := by
            rw [← Finset.sum_filter, members, Finset.sum_const, card]
            rfl
        _ = (size + 1).factorial := (Nat.factorial_succ size).symm

-- The shuffle of Fisher and Yates

def swapAt (items : List α) (left right : Nat) : List α :=
  (items.toArray.swapIfInBounds left right).toList

/-- Each item from the last on changes places with one that is not behind it. -/
def shuffleFrom : Nat → List α → List Nat → List α
  | last + 1, items, draw :: draws => shuffleFrom last (swapAt items (last + 1) draw) draws
  | _, items, _ => items

/-- The draw for a place is at most the place. -/
def shuffleBounds : Nat → List Nat
  | 0 => []
  | last + 1 => (last + 2) :: shuffleBounds last

variable {items : List α}

theorem swapAt_perm {left right : Nat} (leftIn : left < items.length)
    (rightIn : right < items.length)
    : (swapAt items left right).Perm items := by
  unfold swapAt Array.swapIfInBounds
  rw [dif_pos (by simpa using leftIn), dif_pos (by simpa using rightIn)]
  exact Array.perm_iff_toList_perm.mp
    (Array.swap_perm (by simpa using leftIn) (by simpa using rightIn))

theorem getElem?_swapAt {left right : Nat} (leftIn : left < items.length)
    (rightIn : right < items.length) (place : Nat)
    : (swapAt items left right)[place]?
      = if right = place then some items[left]
        else if left = place then some items[right] else items[place]? := by
  unfold swapAt Array.swapIfInBounds
  rw [dif_pos (by simpa using leftIn), dif_pos (by simpa using rightIn), Array.getElem?_toList,
    Array.getElem?_swap]
  simp

variable {last : Nat}

theorem shuffleFrom_perm (within : last = 0 ∨ last < items.length)
    (mem : draws ∈ drawSequences (shuffleBounds last))
    : (shuffleFrom last items draws).Perm items := by
  induction last generalizing items draws with
  | zero =>
      rw [mem_drawSequences_nil.mp mem]
      exact List.Perm.refl _
  | succ last ih =>
      obtain ⟨draw, rest, rfl, below, listed⟩ := mem_drawSequences_cons.mp mem
      have lastIn : last + 1 < items.length := by omega
      have swapped := swapAt_perm lastIn (Nat.lt_of_le_of_lt (Nat.le_of_lt_succ below) lastIn)
      refine (ih (Or.inr ?_) listed).trans swapped
      rw [swapped.length_eq]
      omega

/-- A shuffle leaves the places behind the last, by induction on the places up to it. -/
theorem getElem?_shuffleFrom (within : last = 0 ∨ last < items.length)
    (mem : draws ∈ drawSequences (shuffleBounds last)) {place : Nat} (behind : last < place)
    : (shuffleFrom last items draws)[place]? = items[place]? := by
  induction last generalizing items draws with
  | zero =>
      rw [mem_drawSequences_nil.mp mem]
      rfl
  | succ last ih =>
      obtain ⟨draw, rest, rfl, below, listed⟩ := mem_drawSequences_cons.mp mem
      have lastIn : last + 1 < items.length := by omega
      have drawIn : draw < items.length := by omega
      have length := (swapAt_perm lastIn drawIn).length_eq
      refine (ih (Or.inr (by omega)) listed (by omega)).trans ?_
      rw [getElem?_swapAt lastIn drawIn, if_neg (by omega), if_neg (by omega)]

/-- Lists without repetition that are reorderings of each other and agree behind the first place
agree there too.
-/
theorem eq_of_perm_of_tail {target : List α} (distinct : items.Nodup) (perm : target.Perm items)
    (agree : ∀ place, 0 < place → target[place]? = items[place]?)
    : items = target := by
  cases items with
  | nil => exact perm.eq_nil.symm
  | cons item rest =>
      cases target with
      | nil => cases perm.symm.eq_nil
      | cons first others =>
          have same : others = rest := by
            refine List.ext_getElem? fun place => ?_
            simpa using agree (place + 1) (Nat.succ_pos place)
          subst same
          rcases List.mem_cons.mp (perm.mem_iff.mp List.mem_cons_self) with head | tail
          · rw [head]
          · exact absurd tail (List.nodup_cons.mp (perm.nodup_iff.mpr distinct)).1

/-- Every order that agrees behind the last place is made by one sequence of draws, by induction on
the places: the draw for a place is where its item is.
-/
theorem countDraws_shuffle [DecidableEq α] {target : List α} (distinct : items.Nodup)
    (perm : target.Perm items) (within : last = 0 ∨ last < items.length)
    (agree : ∀ place, last < place → target[place]? = items[place]?)
    : countDraws (shuffleBounds last) (fun draws => shuffleFrom last items draws = target) = 1 := by
  induction last generalizing items with
  | zero =>
      change countDraws [] _ = 1
      rw [countDraws_nil]
      exact if_pos (eq_of_perm_of_tail distinct perm agree)
  | succ last ih =>
      have lastIn : last + 1 < items.length := by omega
      have targetIn : last + 1 < target.length := by rw [perm.length_eq]; exact lastIn
      obtain ⟨place, placeIn, found⟩ :=
        List.getElem_of_mem (perm.mem_iff.mp (List.getElem_mem targetIn))
      have targetDistinct := perm.nodup_iff.mpr distinct
      have early : place ≤ last + 1 := by
        refine Nat.le_of_not_lt fun behind => ?_
        have same := agree place behind
        rw [List.getElem?_eq_getElem placeIn, found, List.getElem?_eq_some_iff] at same
        obtain ⟨_, equal⟩ := same
        exact Nat.ne_of_gt behind ((targetDistinct.getElem_inj_iff).mp equal)
      have each : ∀ draw ∈ Finset.range (last + 2),
          countDraws (shuffleBounds last)
              (fun rest => shuffleFrom (last + 1) items (draw :: rest) = target)
            = if draw = place then 1 else 0 := by
        intro draw drawn
        have drawIn : draw < items.length := by
          have := Finset.mem_range.mp drawn
          omega
        have swapped := swapAt_perm lastIn drawIn
        have length := swapped.length_eq
        split
        · next own =>
          subst own
          refine ih (swapped.nodup_iff.mpr distinct) (perm.trans swapped.symm)
            (Or.inr (by omega)) ?_
          intro other behind
          rw [getElem?_swapAt lastIn drawIn]
          by_cases here : other = last + 1
          · subst here
            rw [List.getElem?_eq_getElem targetIn]
            split
            · next same =>
              subst same
              rw [found]
            · rw [if_pos rfl, found]
          · rw [if_neg (by omega), if_neg (by omega)]
            exact agree other (by omega)
        · next different =>
          refine countDraws_eq_zero fun rest mem made => different ?_
          have room : last = 0 ∨ last < (swapAt items (last + 1) draw).length :=
            Or.inr (by omega)
          have kept := getElem?_shuffleFrom room mem (Nat.lt_succ_self last)
          have moved : (swapAt items (last + 1) draw)[last + 1]? = some items[draw] := by
            rw [getElem?_swapAt lastIn drawIn]
            split
            · next same =>
              subst same
              rfl
            · rw [if_pos rfl]
          change shuffleFrom last (swapAt items (last + 1) draw) rest = target at made
          rw [made, moved, List.getElem?_eq_getElem targetIn, ← found] at kept
          exact ((distinct.getElem_inj_iff).mp (Option.some.inj kept)).symm
      rw [shuffleBounds, countDraws_cons, Finset.sum_congr rfl each, Finset.sum_ite_eq',
        if_pos (Finset.mem_range.mpr (Nat.lt_succ_of_le early))]

-- A shuffled choice

def sampleBounds (first size : Nat) : List Nat :=
  floydBounds first size ++ shuffleBounds (size - 1)

/-- Every ordered choice of distinct indices is made by as many sequences of draws: by one shuffle
of each choice of the set.
-/
theorem countDraws_sample (first size : Nat) {sample : List Nat}
    (chosen : Chosen (first + size) size sample)
    : countDraws (sampleBounds first size) (fun draws =>
          shuffleFrom (size - 1) (floyd first (draws.take size)) (draws.drop size) = sample)
      = size.factorial := by
  have card : sample.toFinset.card = size := by
    rw [List.toFinset_card_of_nodup chosen.distinct, chosen.length]
  have below : ∀ index ∈ sample.toFinset, index < first + size :=
    fun index mem => chosen.below index (List.mem_toFinset.mp mem)
  have each : ∀ head ∈ drawSequences (floydBounds first size),
      countDraws (shuffleBounds (size - 1)) (fun tail =>
          shuffleFrom (size - 1) (floyd first ((head ++ tail).take size))
            ((head ++ tail).drop size) = sample)
        = if (floyd first head).toFinset = sample.toFinset then 1 else 0 := by
    intro head mem
    have length : head.length = size := by
      rw [length_of_mem_drawSequences mem, floydBounds, List.length_range']
    have made := floyd_chosen first size mem
    have within : size - 1 = 0 ∨ size - 1 < (floyd first head).length := by
      rw [made.length]
      omega
    have parts (tail : List Nat)
        : (head ++ tail).take size = head ∧ (head ++ tail).drop size = tail :=
      ⟨List.take_left' length, List.drop_left' length⟩
    simp only [parts]
    split
    · next same =>
      have perm : sample.Perm (floyd first head) :=
        List.perm_of_nodup_nodup_toFinset_eq chosen.distinct made.distinct same.symm
      refine countDraws_shuffle made.distinct perm within fun place behind => ?_
      have long : size ≤ place := by omega
      rw [List.getElem?_eq_none (by rw [chosen.length]; exact long),
        List.getElem?_eq_none (by rw [made.length]; exact long)]
    · next different =>
      refine countDraws_eq_zero fun tail tailMem same => different ?_
      rw [← same]
      exact (List.toFinset_eq_of_perm _ _ (shuffleFrom_perm within tailMem)).symm
  rw [sampleBounds, countDraws_append, Finset.sum_congr rfl each, ← countDraws_eq_sum,
    countDraws_floyd first size card below]

end SkillRanker.Library
