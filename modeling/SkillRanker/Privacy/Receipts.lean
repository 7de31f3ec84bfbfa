import SkillRanker.Context.Payload
import SkillRanker.Library.Panics

/-! Disclosure receipts, and their check against a payload. -/

namespace SkillRanker.Privacy

open SkillRanker.Library
open SkillRanker.Config (ContextProfile)
open SkillRanker.Context (ContextQuality RenderedContextPayload RenderedMessage)

inductive SourceCategory
  | userRequest
  | messageHistory
  | toolEvents
  | projectSignals
  | sessionState
deriving DecidableEq, Repr

def SourceCategory.all : List SourceCategory :=
  [.userRequest, .messageHistory, .toolEvents, .projectSignals, .sessionState]

structure CategoryReceipt where
  category : SourceCategory
  includedCount : Nat
  omittedCount : Nat
  truncatedCount : Nat
  redactionCount : Nat
deriving DecidableEq, Repr

structure DisclosureReceipt where
  schemaVersion : Nat
  contextProfile : ContextProfile
  contextQuality : ContextQuality
  noTools : Bool
  categories : List CategoryReceipt
  totalIncluded : Nat
  totalOmitted : Nat
  totalTruncated : Nat
  totalRedactions : Nat
  disclosedBytes : Nat
  disclosedScalars : Nat
deriving DecidableEq

inductive ReceiptVerificationError
  | invalidCategoryInventory
  | countOverflow
  | profileMismatch (receipt payload : ContextProfile)
  | qualityMismatch (receipt payload : ContextQuality)
  | byteCountMismatch (receipt payload : Nat)
  | scalarCountMismatch (receipt payload : Nat)
  | itemCountMismatch (category : SourceCategory) (receipt payload : Nat)
  | totalsInconsistent (expected sum : Nat)
deriving DecidableEq

/-- The sum of two numbers of 64 bits, unless it has more. -/
def checkedAdd (left right : Nat) : Option Nat :=
  if left + right < 2 ^ 64 then some (left + right) else none

/-- The sum of numbers, unless one of the sums on the way overflows. -/
def sumChecked : Nat → List Nat → Option Nat
  | sum, [] => some sum
  | sum, count :: rest => (checkedAdd sum count).bind fun sum => sumChecked sum rest

def itemsOf (payload : RenderedContextPayload) : SourceCategory → Nat
  | .userRequest => if payload.latestUserRequest.isEmpty then 0 else 1
  | .messageHistory => payload.recentMessages.countP fun message => !message.isTool
  | .toolEvents => payload.recentMessages.countP RenderedMessage.isTool
  | .projectSignals =>
      payload.projectSignals.languages.length + payload.projectSignals.toolsOnPath.length
        + payload.projectSignals.dirtyPaths.length
  | .sessionState =>
      payload.sessionState.loadedReferences.length
        + payload.sessionState.explicitExclusions.length

namespace DisclosureReceipt

variable (receipt : DisclosureReceipt)

def category (category : SourceCategory) : Option CategoryReceipt :=
  receipt.categories.find? fun entry => entry.category = category

def checkedTotal (count : CategoryReceipt → Nat) : Except ReceiptVerificationError Nat :=
  require (sumChecked 0 (receipt.categories.map count)) .countOverflow

def checkTotal (count : CategoryReceipt → Nat) (expected : Nat)
    : Except ReceiptVerificationError Unit := do
  let sum ← receipt.checkedTotal count
  ensure (sum = expected) (.totalsInconsistent expected sum)

def checkItems (payload : RenderedContextPayload) (category : SourceCategory)
    : Except ReceiptVerificationError Unit :=
  match receipt.category category with
  | none => .ok ()
  | some entry =>
      ensure (entry.includedCount = itemsOf payload category)
        (.itemCountMismatch category entry.includedCount (itemsOf payload category))

def hasEachCategory : Prop :=
  receipt.categories.length = SourceCategory.all.length
    ∧ ∀ expected ∈ SourceCategory.all,
        receipt.categories.countP (fun entry => entry.category = expected) = 1

instance : Decidable receipt.hasEachCategory :=
  inferInstanceAs (Decidable (_ ∧ _))

def verifyAgainstPayload (payload : RenderedContextPayload)
    : Except ReceiptVerificationError Unit := do
  ensure receipt.hasEachCategory .invalidCategoryInventory
  ensure (receipt.contextProfile = payload.contextProfile)
    (.profileMismatch receipt.contextProfile payload.contextProfile)
  ensure (receipt.contextQuality = payload.contextQuality)
    (.qualityMismatch receipt.contextQuality payload.contextQuality)
  ensure (receipt.disclosedBytes = payload.disclosedBytes)
    (.byteCountMismatch receipt.disclosedBytes payload.disclosedBytes)
  ensure (receipt.disclosedScalars = payload.totalMessageScalars)
    (.scalarCountMismatch receipt.disclosedScalars payload.totalMessageScalars)
  receipt.checkTotal CategoryReceipt.includedCount receipt.totalIncluded
  receipt.checkTotal CategoryReceipt.omittedCount receipt.totalOmitted
  receipt.checkTotal CategoryReceipt.truncatedCount receipt.totalTruncated
  receipt.checkTotal CategoryReceipt.redactionCount receipt.totalRedactions
  SourceCategory.all.forM (receipt.checkItems payload)

-- Totals

/-- The receipt with the totals of its categories, unless a total overflows. -/
def withTotals : Option DisclosureReceipt := do
  let included ← sumChecked 0 (receipt.categories.map CategoryReceipt.includedCount)
  let omitted ← sumChecked 0 (receipt.categories.map CategoryReceipt.omittedCount)
  let truncated ← sumChecked 0 (receipt.categories.map CategoryReceipt.truncatedCount)
  let redactions ← sumChecked 0 (receipt.categories.map CategoryReceipt.redactionCount)
  some { receipt with
    totalIncluded := included
    totalOmitted := omitted
    totalTruncated := truncated
    totalRedactions := redactions
  }

end DisclosureReceipt

-- Receipts that name each category once, with its items and totals, are accepted

variable {receipt base : DisclosureReceipt} {payload : RenderedContextPayload}
  {entry : SourceCategory → CategoryReceipt}

/-- Totals are added to a receipt that keeps all else. -/
theorem withTotals_spec (totalled : base.withTotals = some receipt)
    : (receipt.contextProfile = base.contextProfile
        ∧ receipt.contextQuality = base.contextQuality
        ∧ receipt.disclosedBytes = base.disclosedBytes
        ∧ receipt.disclosedScalars = base.disclosedScalars
        ∧ receipt.categories = base.categories)
      ∧ receipt.checkTotal CategoryReceipt.includedCount receipt.totalIncluded = .ok ()
      ∧ receipt.checkTotal CategoryReceipt.omittedCount receipt.totalOmitted = .ok ()
      ∧ receipt.checkTotal CategoryReceipt.truncatedCount receipt.totalTruncated = .ok ()
      ∧ receipt.checkTotal CategoryReceipt.redactionCount receipt.totalRedactions = .ok () := by
  obtain ⟨included, sumIncluded, totalled⟩ := Option.bind_eq_some_iff.mp totalled
  obtain ⟨omitted, sumOmitted, totalled⟩ := Option.bind_eq_some_iff.mp totalled
  obtain ⟨truncated, sumTruncated, totalled⟩ := Option.bind_eq_some_iff.mp totalled
  obtain ⟨redactions, sumRedactions, totalled⟩ := Option.bind_eq_some_iff.mp totalled
  cases totalled
  have passes {count : CategoryReceipt → Nat} {sum : Nat} {receipt : DisclosureReceipt}
      (is : sumChecked 0 (receipt.categories.map count) = some sum)
      : receipt.checkTotal count sum = .ok () := by
    unfold DisclosureReceipt.checkTotal DisclosureReceipt.checkedTotal
    rw [is]
    exact ensure_eq_ok.mpr rfl
  exact ⟨⟨rfl, rfl, rfl, rfl, rfl⟩, passes sumIncluded, passes sumOmitted, passes sumTruncated,
    passes sumRedactions⟩

/-- The receipt has the entry of each category, and no other one. -/
structure Complete (receipt : DisclosureReceipt) (entry : SourceCategory → CategoryReceipt)
    : Prop where
  categories : receipt.categories = SourceCategory.all.map entry
  own : ∀ category, (entry category).category = category

namespace Complete

theorem category (complete : Complete receipt entry) (category : SourceCategory)
    : receipt.category category = some (entry category) := by
  unfold DisclosureReceipt.category
  rw [complete.categories]
  cases category <;> simp [SourceCategory.all, complete.own]

theorem hasEachCategory (complete : Complete receipt entry) : receipt.hasEachCategory := by
  refine ⟨?_, fun expected _ => ?_⟩
  · rw [complete.categories, List.length_map]
  · rw [complete.categories, List.countP_map]
    have same : SourceCategory.all.countP ((fun item => decide (item.category = expected)) ∘ entry)
        = SourceCategory.all.countP fun category => decide (category = expected) :=
      List.countP_congr fun category _ => by
        simp only [Function.comp_apply, complete.own]
    rw [same]
    cases expected <;> rfl

end Complete

theorem verifyAgainstPayload_of_complete (complete : Complete receipt entry)
    (profile : receipt.contextProfile = payload.contextProfile)
    (quality : receipt.contextQuality = payload.contextQuality)
    (bytes : receipt.disclosedBytes = payload.disclosedBytes)
    (scalars : receipt.disclosedScalars = payload.totalMessageScalars)
    (items : ∀ category, (entry category).includedCount = itemsOf payload category)
    (totalled : base.withTotals = some receipt)
    : receipt.verifyAgainstPayload payload = .ok () := by
  obtain ⟨_, included, omitted, truncated, redactions⟩ := withTotals_spec totalled
  have itemsChecked : SourceCategory.all.forM (receipt.checkItems payload) = .ok () := by
    refine forM_eq_ok.mpr fun category _ => ?_
    unfold DisclosureReceipt.checkItems
    rw [complete.category category]
    exact ensure_eq_ok.mpr (items category)
  unfold DisclosureReceipt.verifyAgainstPayload
  rw [ensure_bind complete.hasEachCategory, ensure_bind profile, ensure_bind quality,
    ensure_bind bytes, ensure_bind scalars, included, ok_bind, omitted, ok_bind, truncated, ok_bind,
    redactions, ok_bind]
  exact itemsChecked

end SkillRanker.Privacy
