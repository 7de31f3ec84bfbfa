import SkillRanker.Library.Loops
import SkillRanker.Library.Shuffles
import SkillRanker.Primitives

/-! Random choices of an evaluation: the generator, bounded draws by rejection, and choices of
indices without replacement.
-/

namespace SkillRanker.Evaluation
open SkillRanker.Library

inductive SamplingError
  | zeroPopulation
  | invalidSampleSize (size population : Nat)
deriving DecidableEq, Repr

/-- A sampling that moves a source of randomness on, fails with an error, or does not come to an
end on what the source has.
-/
abbrev Sampling (Source : Type) := ExceptT SamplingError (StateT Source Option)

-- The generator

def pcgDefaultMultiplier128 : BitVec 128 := 0x2360ed051fc65da44385df649fccf645#128

def pcgCheapMultiplier : BitVec 64 := 0xda942042e4dd58b5#64

structure Pcg64Dxsm where
  state : BitVec 128
  inc : BitVec 128
deriving DecidableEq, Repr

namespace Pcg64Dxsm

/-- A generator from an initial state and a sequence selector. -/
def seed (initstate initseq : BitVec 128) : Pcg64Dxsm :=
  let inc := (initseq <<< 1) ||| 1#128
  let state := 0#128 * pcgDefaultMultiplier128 + inc
  let state := state + initstate
  let state := state * pcgDefaultMultiplier128 + inc
  { state, inc }

def fromSeed (seed : BitVec 64) : Pcg64Dxsm :=
  let initstate := (seed.setWidth 128 <<< 64)
    ||| ((~~~seed).setWidth 128 ^^^ 0x5851f42d4c957f2d#128)
  let initseq := ((seed.rotateLeft 17).setWidth 128 <<< 64) ||| 0x14057b7ef767814f#128
  Pcg64Dxsm.seed initstate initseq

def step (generator : Pcg64Dxsm) : Pcg64Dxsm :=
  { generator with
    state := generator.state * pcgCheapMultiplier.setWidth 128 + generator.inc }

def dxsmOutput (generator : Pcg64Dxsm) : BitVec 64 :=
  let hi := (generator.state >>> 64).setWidth 64
  let lo := generator.state.setWidth 64 ||| 1#64
  let hi := hi ^^^ (hi >>> 32)
  let hi := hi * pcgCheapMultiplier
  let hi := hi ^^^ (hi >>> 48)
  hi * lo

def nextU64 (generator : Pcg64Dxsm) : Nat × Pcg64Dxsm :=
  (generator.dxsmOutput.toNat, generator.step)

end Pcg64Dxsm

-- Bounded draws

/-- The value that a word stands for, if it is not in the incomplete residue at the top. -/
def acceptedDraw (upperBound candidate : Nat) : Option Nat :=
  if candidate < u64Max - u64Max % upperBound then some (candidate % upperBound) else none

variable {Source : Type}

/-- One candidate of `bounded_u64`. -/
def boundedPass (nextU64 : Source → Nat × Source) (upperBound : Nat) (source : Source)
    : Pass Source (Nat × Source) :=
  let (candidate, after) := nextU64 source
  match acceptedDraw upperBound candidate with
  | some value => .done (value, after)
  | none => .again after

/-- `bounded_u64` on a source of words, for as many candidates as there is fuel. -/
def boundedU64 (nextU64 : Source → Nat × Source) (fuel upperBound : Nat) : Sampling Source Nat :=
  if upperBound = 0 then throw .zeroPopulation
  else ExceptT.lift fun source => loop (boundedPass nextU64 upperBound) fuel source

def givenDraw (upperBound : Nat) : Sampling (List Nat) Nat :=
  if upperBound = 0 then throw .zeroPopulation
  else ExceptT.lift fun draws =>
    match draws with
    | [] => none
    | draw :: rest => if draw < upperBound then some (draw, rest) else none

-- Choices

section
variable (bounded : Nat → Sampling Source Nat)

def shuffleSlice {α : Type} (slice : List α) : Sampling Source (List α) :=
  if slice.length ≤ 1 then return slice
  else
    (List.range' 1 (slice.length - 1)).reverse.foldlM
      (fun slice i => do
        let j ← tryCatch (bounded (i + 1)) fun _ => pure 0
        return swapAt slice i j)
      slice

def chooseIndex (chosen : Finset Nat × List Nat) (j : Nat)
    : Sampling Source (Finset Nat × List Nat) := do
  let t ← bounded (j + 1)
  if t ∈ chosen.1 then return (insert j chosen.1, chosen.2 ++ [j])
  else return (insert t chosen.1, chosen.2 ++ [t])

def choiceIndices (popSize size : Nat) (replace : Bool) : Sampling Source (List Nat) :=
  if popSize = 0 ∧ 0 < size then throw .zeroPopulation
  else if !replace ∧ popSize < size then throw (.invalidSampleSize size popSize)
  else if size = 0 then return []
  else if replace then (List.range size).mapM fun _ => bounded popSize
  else do
    let (_, result) ← (List.range' (popSize - size) size).foldlM (chooseIndex bounded) (∅, [])
    shuffleSlice bounded result

end

/-- `Pcg64Dxsm::permutation` -/
def permutation (bounded : Nat → Sampling Source Nat) (popSize : Nat)
    : Sampling Source (List Nat) :=
  shuffleSlice bounded (List.range popSize)

-- Runs on given draws

/-- What a sampling returns from a source, with what is left of the source. -/
def Sampled {α : Type} (sampling : Sampling Source α) (source : Source) (value : α)
    (left : Source)
    : Prop :=
  sampling source = some (.ok value, left)

theorem sampled_pure {α : Type} (value : α) (source : Source)
    : Sampled (pure value) source value source := rfl

theorem Sampled.bind {α β : Type} {sampling : Sampling Source α} {next : α → Sampling Source β}
    {source between left : Source} {value : α} {result : β}
    (first : Sampled sampling source value between) (rest : Sampled (next value) between result left)
    : Sampled (sampling >>= next) source result left := by
  unfold Sampled at *
  change (sampling source).bind _ = _
  rw [first]
  exact rest

variable {upperBound : Nat}

theorem sampled_givenDraw {draw : Nat} (below : draw < upperBound) (rest : List Nat)
    : Sampled (givenDraw upperBound) (draw :: rest) draw rest := by
  unfold Sampled givenDraw
  rw [if_neg (by omega)]
  change Option.bind (if draw < upperBound then _ else _) _ = _
  rw [if_pos below]
  rfl

/-- The set of a list with one more item. -/
theorem toFinset_snoc (items : List Nat) (item : Nat)
    : (items ++ [item]).toFinset = insert item items.toFinset := by
  ext other
  simp

/-- The choice of indices is Floyd's, by induction on its size. -/
theorem sampled_chooseIndices (first : Nat) {size : Nat} {head : List Nat} (rest : List Nat)
    (mem : head ∈ drawSequences (floydBounds first size))
    : Sampled ((List.range' first size).foldlM (chooseIndex givenDraw) (∅, [])) (head ++ rest)
        ((floyd first head).toFinset, floyd first head) rest := by
  induction size generalizing head rest with
  | zero =>
      rw [mem_drawSequences_nil.mp mem]
      exact sampled_pure _ _
  | succ size ih =>
      rw [floydBounds_succ] at mem
      obtain ⟨before, last, rfl, beforeMem, lastMem⟩ := mem_drawSequences_append.mp mem
      obtain ⟨draw, none, rfl, below, noneMem⟩ := mem_drawSequences_cons.mp lastMem
      rw [mem_drawSequences_nil.mp noneMem]
      have length : before.length = size := by
        rw [length_of_mem_drawSequences beforeMem, floydBounds, List.length_range']
      rw [List.range'_1_concat, List.foldlM_append, List.append_assoc, floyd_snoc, length]
      refine (ih ([draw] ++ rest) beforeMem).bind ?_
      rw [List.foldlM_cons]
      refine Sampled.bind ?_ (sampled_pure _ _)
      refine (sampled_givenDraw below rest).bind ?_
      simp only [List.mem_toFinset]
      unfold floydStep
      split
      all_goals
        rw [toFinset_snoc]
        exact sampled_pure _ _

/-- The loop of a shuffle is the shuffle of Fisher and Yates, by induction on its places. -/
theorem sampled_shuffle {α : Type} {last : Nat} (items : List α) {tail : List Nat}
    (rest : List Nat) (mem : tail ∈ drawSequences (shuffleBounds last))
    : Sampled
        ((List.range' 1 last).reverse.foldlM
          (fun slice i => do
            let j ← tryCatch (givenDraw (i + 1)) fun _ => pure 0
            return swapAt slice i j)
          items)
        (tail ++ rest) (shuffleFrom last items tail) rest := by
  induction last generalizing items tail with
  | zero =>
      rw [mem_drawSequences_nil.mp mem]
      exact sampled_pure _ _
  | succ last ih =>
      obtain ⟨draw, others, rfl, below, listed⟩ := mem_drawSequences_cons.mp mem
      rw [List.range'_1_concat, List.reverse_append, List.reverse_singleton,
        List.singleton_append, List.foldlM_cons]
      have caught : Sampled (tryCatch (givenDraw (1 + last + 1)) fun _ => pure 0)
          (draw :: (others ++ rest)) draw (others ++ rest) := by
        have drawn := sampled_givenDraw (show draw < 1 + last + 1 by omega) (others ++ rest)
        unfold Sampled at drawn ⊢
        change (givenDraw (1 + last + 1) _).bind _ = _
        rw [drawn]
        rfl
      refine Sampled.bind (Sampled.bind caught (sampled_pure _ _)) ?_
      rw [Nat.add_comm 1 last]
      exact ih (swapAt items (last + 1) draw) listed

/-- A choice without replacement on given draws. -/
theorem sampled_choiceIndices {popSize size : Nat} (enough : size ≤ popSize) {head tail : List Nat}
    (headMem : head ∈ drawSequences (floydBounds (popSize - size) size))
    (tailMem : tail ∈ drawSequences (shuffleBounds (size - 1)))
    : Sampled (choiceIndices givenDraw popSize size false) (head ++ tail)
        (shuffleFrom (size - 1) (floyd (popSize - size) head) tail) [] := by
  unfold choiceIndices
  rw [if_neg (by omega), if_neg (by simp; omega)]
  by_cases none : size = 0
  · subst none
    rw [mem_drawSequences_nil.mp headMem, mem_drawSequences_nil.mp tailMem, if_pos rfl]
    exact sampled_pure _ _
  · rw [if_neg none, if_neg Bool.false_ne_true]
    refine (sampled_chooseIndices (popSize - size) tail headMem).bind ?_
    have length := (floyd_chosen (popSize - size) size headMem).length
    change Sampled (shuffleSlice givenDraw (floyd (popSize - size) head)) tail _ []
    unfold shuffleSlice
    rw [length]
    split
    · have single : size - 1 = 0 := by omega
      rw [single] at tailMem ⊢
      rw [mem_drawSequences_nil.mp tailMem]
      exact sampled_pure _ _
    · simpa using sampled_shuffle (floyd (popSize - size) head) [] tailMem

-- Uniformity

theorem accepted_words {value : Nat} (below : value < upperBound)
    : (Finset.range (2 ^ 64)).filter (fun word => acceptedDraw upperBound word = some value)
      = (Finset.range (u64Max / upperBound)).image fun turn => value + upperBound * turn := by
  have whole := Nat.div_add_mod u64Max upperBound
  have largest : u64Max < 2 ^ 64 := by decide
  generalize u64Max / upperBound = turns at whole ⊢
  have threshold : u64Max - u64Max % upperBound = upperBound * turns := by omega
  ext word
  simp only [Finset.mem_filter, Finset.mem_image, Finset.mem_range, acceptedDraw, threshold]
  refine ⟨?_, ?_⟩
  · rintro ⟨_, accepted⟩
    split at accepted
    · next complete =>
      refine ⟨word / upperBound, Nat.div_lt_of_lt_mul complete, ?_⟩
      rw [← Option.some.inj accepted]
      exact Nat.mod_add_div word upperBound
    · cases accepted
  · rintro ⟨turn, inside, rfl⟩
    have complete : value + upperBound * turn < upperBound * turns :=
      calc value + upperBound * turn
          < upperBound * (turn + 1) := by rw [Nat.mul_succ]; omega
        _ ≤ upperBound * turns := Nat.mul_le_mul_left upperBound inside
    refine ⟨by omega, ?_⟩
    rw [if_pos complete, Nat.add_mul_mod_self_left, Nat.mod_eq_of_lt below]

/-- Every value below a bound is drawn by as many words. -/
theorem card_accepted_words {value : Nat} (below : value < upperBound)
    : ((Finset.range (2 ^ 64)).filter
        fun word => acceptedDraw upperBound word = some value).card = u64Max / upperBound := by
  rw [accepted_words below, Finset.card_image_of_injective, Finset.card_range]
  intro first other same
  exact Nat.eq_of_mul_eq_mul_left (Nat.zero_lt_of_lt below) (Nat.add_left_cancel same)

end SkillRanker.Evaluation
