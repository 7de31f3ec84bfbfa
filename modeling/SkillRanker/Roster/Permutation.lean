import Mathlib.Algebra.GroupWithZero.Nat
import SkillRanker.Library.Sorting
import SkillRanker.Roster.Soundness

/-! Resolution does not depend on the order in which entries were discovered. -/

namespace SkillRanker.Roster

open SkillRanker.Library

variable {entries left right : List SkillEntry}

/-- The sum of all bytes where it fits a machine word, by induction on the entries. -/
theorem totalBytes_from {start : Nat} (within : start ≤ usizeMax)
    : entries.foldlM
        (fun sum entry => if sum + entry.bytes ≤ usizeMax then some (sum + entry.bytes) else none)
        start
      = if start + (entries.map SkillEntry.bytes).sum ≤ usizeMax then
          some (start + (entries.map SkillEntry.bytes).sum)
        else none := by
  induction entries generalizing start with
  | nil => simp [within]
  | cons entry rest ih =>
      rw [List.foldlM_cons, List.map_cons, List.sum_cons, ← Nat.add_assoc]
      by_cases fits : start + entry.bytes ≤ usizeMax
      · rw [if_pos fits]
        exact ih fits
      · rw [if_neg fits, if_neg (by omega)]
        rfl

theorem totalBytes_eq (entries : List SkillEntry)
    : totalBytes entries
      = if (entries.map SkillEntry.bytes).sum ≤ usizeMax then
          some (entries.map SkillEntry.bytes).sum
        else none := by
  rw [totalBytes, totalBytes_from (Nat.zero_le _), Nat.zero_add]

theorem totalBytes_perm (same : left.Perm right)
    : totalBytes left = totalBytes right := by
  rw [totalBytes_eq, totalBytes_eq, (same.map SkillEntry.bytes).sum_nat]

def idsOf (entries : List SkillEntry) : List SkillId :=
  entries.map (fun entry => entry.binding.id)

/-- Entries with distinct ids have one order. -/
theorem sortEntries_perm (same : left.Perm right) (distinct : (idsOf left).Nodup)
    : sortEntries left = sortEntries right := by
  refine mergeSort_eq_of_perm same ?_ ?_ ?_
  · intro first second third
    exact Std.TransCmp.isLE_trans
  · intro first second
    exact isLE_total first.binding.id second.binding.id
  · intro one inOne two inTwo below above
    have equal := Std.LawfulEqCmp.eq_of_compare (Std.OrientedCmp.isLE_antisymm below above)
    exact List.inj_on_of_nodup_map distinct inOne inTwo equal

variable {checkpoints : Nat → Checkpoint} {clock : Jev.InvocationDeadline} {partialCoverage : Bool}

/-- Entries with distinct ids resolve alike in every order. -/
theorem resolve_perm (same : left.Perm right) (distinct : (idsOf left).Nodup)
    : resolve clock checkpoints left partialCoverage
      = resolve clock checkpoints right partialCoverage := by
  unfold resolve
  rw [totalBytes_perm same, sortEntries_perm same distinct, same.length_eq]

theorem resolve_shared (shared : ¬ (idsOf entries).Nodup)
    : ∃ error, resolve clock checkpoints entries partialCoverage = .error error := by
  refine eq_error_of_not_ok ?_
  intro roster done
  obtain ⟨placed, skills, placement⟩ := resolve_placement done
  refine shared ?_
  have sorted : (idsOf (sortEntries entries)).Nodup := List.pairwise_map.mpr placement.distinct
  exact ((List.mergeSort_perm entries _).map _).nodup_iff.mp sorted

variable {withheld : List String}

/-- An entry whose name is withheld is unverified when it is resolved. -/
theorem mem_withhold {entry : SkillEntry} (member : entry ∈ entries)
    (named : entry.binding.invocation.text ∈ withheld)
    : ∃ hidden ∈ withhold withheld entries,
        hidden.binding = { entry.binding with visibility := .unverified } := by
  refine ⟨_, List.mem_map.mpr ⟨entry, member, rfl⟩, ?_⟩
  rw [if_pos named]

theorem idsOf_withhold (withheld : List String) (entries : List SkillEntry)
    : idsOf (withhold withheld entries) = idsOf entries := by
  rw [idsOf, withhold, List.map_map]
  refine List.map_congr_left ?_
  intro entry _
  simp only [Function.comp_apply]
  split <;> rfl

theorem withheld_unverified {roster : ResolvedRoster}
    (sound : Sound (withhold withheld entries) roster) {entry : SkillEntry}
    (member : entry ∈ entries) (named : entry.binding.invocation.text ∈ withheld)
    : ∃ binding,
        Ends roster entry binding
        ∧ binding.restrictions.Within entry.binding.restrictions
        ∧ binding.visibility.isVerified = false := by
  obtain ⟨hidden, inHidden, same⟩ := mem_withhold member named
  obtain ⟨binding, ends, settled⟩ := sound.bound hidden inHidden
  rw [Ends, same] at ends
  rw [same] at settled
  refine ⟨binding, ends, settled.restrictions, ?_⟩
  cases verified : binding.visibility.isVerified with
  | false => rfl
  | true =>
      have kept := settled.visibility verified
      rw [kept] at verified
      cases verified

/-- Resolution of any entries with any withheld names: the roster is sound, names that are
withheld have no verified binding, and every order of the entries gives the same roster.
Entries that share an id are refused in every order.
-/
theorem resolve_lawful (clock : Jev.InvocationDeadline) (checkpoints : Nat → Checkpoint)
    (withheld : List String) (entries : List SkillEntry) (partialCoverage : Bool)
    : (∀ roster,
        resolve clock checkpoints (withhold withheld entries) partialCoverage = .ok roster
        → Sound (withhold withheld entries) roster
          ∧ ∀ entry ∈ entries,
              ∃ binding,
                Ends roster entry binding
                ∧ binding.restrictions.Within entry.binding.restrictions
                ∧ (entry.binding.invocation.text ∈ withheld
                  → binding.visibility.isVerified = false))
      ∧ ∀ other,
          entries.Perm other
          → ((idsOf entries).Nodup
              → resolve clock checkpoints (withhold withheld other) partialCoverage
                = resolve clock checkpoints (withhold withheld entries) partialCoverage)
            ∧ (¬ (idsOf entries).Nodup
              → ∃ error,
                  resolve clock checkpoints (withhold withheld other) partialCoverage
                  = .error error) := by
  constructor
  · intro roster done
    obtain ⟨placed, skills, placement⟩ := resolve_placement done
    have sound := placement.sound
    refine ⟨sound, ?_⟩
    intro entry member
    by_cases named : entry.binding.invocation.text ∈ withheld
    · obtain ⟨binding, ends, within, hidden⟩ := withheld_unverified sound member named
      exact ⟨binding, ends, within, fun _ => hidden⟩
    · have kept : entry ∈ withhold withheld entries :=
        List.mem_map.mpr ⟨entry, member, if_neg named⟩
      obtain ⟨binding, ends, settled⟩ := sound.bound entry kept
      exact ⟨binding, ends, settled.restrictions, fun hidden => absurd hidden named⟩
  · intro other same
    have ids : (idsOf other).Perm (idsOf entries) := (same.map _).symm
    constructor
    · intro distinct
      refine resolve_perm (same.map _).symm ?_
      rw [idsOf_withhold]
      exact ids.nodup_iff.mpr distinct
    · intro shared
      refine resolve_shared ?_
      rw [idsOf_withhold]
      exact fun distinct => shared (ids.nodup_iff.mp distinct)

theorem validId_review : validateId "review" = .ok () := by decide +kernel

def sampleEntry (id : SkillId) (inode : UInt64) (content : ContentHash) : SkillEntry :=
  let name : InvocationName := { text := "review", valid := validId_review }
  {
    record :=
      {
        id := id
        source := "project"
        sourcePriority := 0
        invocationName := name
        target := []
        sourceContent := content
        renderedContent := none
        visibility := .verified "1"
        restrictions := .free
        usageKind := .unknown
        forkedContext := false
        dynamicContent := false
        aliases := []
      }
    binding :=
      {
        id := id
        source := "project"
        invocation := name
        visibility := .verified "1"
        restrictions := .free
        priority := none
      }
    identity := { device := 1, inode := inode }
    bytes := 1
  }

/-- Two entries of one id: which error refuses them depends on their order. -/
theorem resolve_order_seen
    : ∃ left right : List SkillEntry,
        left.Perm right
        ∧ resolve .default (fun _ => { cancelled := false, now := 0 }) left false
          ≠ resolve .default (fun _ => { cancelled := false, now := 0 }) right false := by
  let first := sampleEntry "a" 1 "x"
  let changed := sampleEntry "b" 1 "y"
  let apart := sampleEntry "b" 2 "x"
  refine ⟨[first, changed, apart], [first, apart, changed], (List.Perm.swap _ _ _).cons _, ?_⟩
  have sorted (entries : List SkillEntry)
      (ordered
        : entries.Pairwise
            (fun left right => (compare left.binding.id right.binding.id).isLE = true))
      : sortEntries entries = entries :=
    List.mergeSort_of_pairwise ordered
  have one : errorOf (resolve .default (fun _ => { cancelled := false, now := 0 })
      [first, changed, apart] false) = some .changedFile := by
    rw [resolve, sorted [first, changed, apart] (by decide +kernel)]
    decide +kernel
  have two : errorOf (resolve .default (fun _ => { cancelled := false, now := 0 })
      [first, apart, changed] false) = some .duplicateId := by
    rw [resolve, sorted [first, apart, changed] (by decide +kernel)]
    decide +kernel
  intro same
  rw [same, two] at one
  cases one

end SkillRanker.Roster
