import Mathlib.Data.List.Nodup
import SkillRanker.Breaker.Row
import SkillRanker.Library.Machine

/-! Runs of one circuit under any number of holders, and everything one step can do to it. -/

namespace SkillRanker.Breaker

open SkillRanker.Library

-- Runs

inductive Event
  | admitRequest (now leaseMs process counter : Nat) (commit : Commit)
  | settle (ticket : Ticket) (outcome : Outcome) (now : Nat) (commit : Commit)
deriving DecidableEq

def Event.now : Event → Nat
  | .admitRequest now _ _ _ _ => now
  | .settle _ _ now _ => now

/-- What the caller sees; nothing when the change is not known to be kept. -/
inductive Output
  | admission (answer : Option (Except Refusal Ticket))
  | settlement (kept : Bool)

def circuit (protection : Protection) : Machine Row Event Output where
  next row
    | .admitRequest now leaseMs process counter commit =>
        let (after, answer) :=
          transact protection commit row (fun row => row.admitRequest now leaseMs process counter)
        (after, .admission answer)
    | .settle ticket outcome now commit =>
        let (after, settled) :=
          transact protection commit row (fun row => (row.settle ticket outcome now, ()))
        (after, .settlement settled.isSome)

abbrev Step := Transition Row Event Output

-- What one step can do

def Row.lease (row : Row) (token : String) (expiresMs : Nat) : Row :=
  { row with probeToken := some token, probeExpiresMs := expiresMs }

/-- The ends of an admission: the row as it was and no probe, or the lease of the half-open
probe.
-/
inductive AdmitEffect (row : Row) (now leaseMs process counter : Nat)
    : Row × Except Refusal Ticket → Prop
  | kept {reply} (plain : ∀ ticket, reply = .ok ticket → ticket.probe = none)
    : AdmitEffect row now leaseMs process counter (row, reply)
  | granted (half : row.isOpen = true)
    (free : row.probeToken = none ∨ row.probeExpiresMs ≤ now)
    : AdmitEffect row now leaseMs process counter
        (
          row.lease (probeTokenText now process counter) (saturatingAdd now leaseMs),
          .ok
            {
              generation := row.generation
              probe := some (probeTokenText now process counter)
            }
        )

/-- The unexpired probe of an open circuit, under the circuit's generation. -/
structure Row.Probing (row : Row) (ticket : Ticket) (now : Nat) : Prop where
  isOpen : row.isOpen = true
  generation : ticket.generation = row.generation
  probe : ticket.probe.isSome
  token : ticket.probe = row.probeToken
  unexpired : now < row.probeExpiresMs

inductive SettleEffect (row : Row) (ticket : Ticket) (now : Nat) : Outcome → Row → Prop
  | kept {outcome} : SettleEffect row ticket now outcome row
  /-- A closed circuit counts a failure or forgets them. -/
  | counted {outcome failures retryAfterUntilMs} (closed : row.isOpen = false)
    (generation : ticket.generation = row.generation) (few : failures < openAfterFailures)
    : SettleEffect row ticket now outcome { row with failures, retryAfterUntilMs }
  | opened {retryAfterMs failures retryAfterUntilMs} (closed : row.isOpen = false)
    (generation : ticket.generation = row.generation)
    : SettleEffect row ticket now (.transient retryAfterMs)
        (({ row with failures, retryAfterUntilMs } : Row).openFor now baseCooldownMs)
  | reopened {retryAfterMs retryAfterUntilMs cooldownMs} (probing : row.Probing ticket now)
    (capped : cooldownMs ≤ maxCooldownMs)
    : SettleEffect row ticket now (.transient retryAfterMs)
        (({ row with retryAfterUntilMs } : Row).openFor now cooldownMs)
  | closed (probing : row.Probing ticket now)
    : SettleEffect row ticket now .success
        { Row.default with generation := row.generation + 1 }
  | released (probing : row.Probing ticket now)
    : SettleEffect row ticket now .neutral
        { row with probeToken := none, probeExpiresMs := 0 }

/-- Every admission has one of its ends, by its guards in turn. -/
theorem admit_effect (row : Row) (now leaseMs process counter : Nat)
    : AdmitEffect row now leaseMs process counter
        (row.admitRequest now leaseMs process counter) := by
  unfold Row.admitRequest
  split
  · exact .kept (by simp)
  split
  · exact .kept (by simp)
  case isFalse isOpen =>
    split
    · exact .kept (by simp)
    split
    · exact .kept (by simp)
    case isFalse taken =>
      refine .granted (by simpa using isOpen) ?_
      rcases token : row.probeToken with _ | token
      · exact Or.inl rfl
      · exact Or.inr (Nat.not_lt.mp (fun unexpired => taken ⟨by simp [token], unexpired⟩))

theorem settle_effect (row : Row) (ticket : Ticket) (outcome : Outcome) (now : Nat)
    : SettleEffect row ticket now outcome (row.settle ticket outcome now) := by
  unfold Row.settle
  split
  case isTrue => exact .kept
  case isFalse generation =>
    have generation := not_not.mp generation
    split
    case isTrue => exact .kept
    case isFalse fence =>
      by_cases owns : row.OwnsProbe ticket
      · obtain ⟨isOpen, probe, token⟩ := id owns
        have probing : row.Probing ticket now :=
          ⟨isOpen, generation, probe, token,
            Nat.not_le.mp (fun expired => fence ⟨isOpen, Or.inr expired⟩)⟩
        cases outcome with
        | success =>
            simp only [owns, if_true]
            exact .closed probing
        | neutral =>
            simp only [owns, if_true]
            exact .released probing
        | transient retryAfterMs =>
            simp only [owns, if_true]
            exact .reopened probing (Nat.min_le_right _ _)
      · have closed : row.isOpen = false := by
          rcases isOpen : row.isOpen with _ | _
          · rfl
          · exact (fence ⟨isOpen, Or.inl owns⟩).elim
        cases outcome with
        | success =>
            dsimp only
            rw [if_neg owns, if_pos (by simp [closed])]
            exact .counted closed generation (by decide)
        | neutral =>
            simp only [owns, if_false]
            exact .kept
        | transient retryAfterMs =>
            simp only [owns, closed, if_false, Bool.false_eq_true, not_false_eq_true, if_true]
            split
            case isTrue => exact .opened closed generation
            case isFalse few => exact .counted closed generation (Nat.not_le.mp few)

theorem transact_row {Value : Type} (protection : Protection) (commit : Commit) (row : Row)
    (change : Row → Row × Value)
    : (transact protection commit row change).1 = row
      ∨ (transact protection commit row change).1 = (change row).1 := by
  unfold transact
  split
  · exact Or.inl rfl
  · dsimp only
    split
    · exact Or.inl rfl
    · cases commit with
      | done => exact Or.inr rfl
      | failed durable =>
          cases durable
          · exact Or.inl rfl
          · exact Or.inr rfl

-- The probe leases of a run, and what each step does to the row

-- Leases

/-- A probe lease: the ticket of the probe and the end of its time. -/
structure Lease where
  ticket : Ticket
  expiresMs : Nat
deriving DecidableEq, Repr

/-- The lease a step grants: an admission as the probe whose row is kept. -/
def Step.granted (step : Step) : Option Lease :=
  match step.event with
  | .admitRequest now leaseMs process counter _ =>
      match step.before.admitRequest now leaseMs process counter with
      | (row, .ok ticket) =>
          if ticket.probe.isSome ∧ step.after = row then
            some { ticket, expiresMs := row.probeExpiresMs }
          else none
      | (_, .error _) => none
  | .settle _ _ _ _ => none

def Step.Releases (step : Step) (lease : Lease) : Prop :=
  match step.event with
  | .admitRequest _ _ _ _ _ => False
  | .settle ticket _ _ _ => ticket = lease.ticket ∧ step.after ≠ step.before

instance (step : Step) (lease : Lease) : Decidable (step.Releases lease) := by
  unfold Step.Releases
  split <;> infer_instance

def leases (steps : List Step) : List Lease := steps.filterMap Step.granted

def outstanding (steps : List Step) : List Lease :=
  steps.foldl
    (fun held step =>
      held.filter (fun lease => ¬ step.Releases lease) ++ step.granted.toList)
    []

def UniqueTokens (steps : List Step) : Prop :=
  ((leases steps).map (fun lease => lease.ticket.probe)).Nodup

instance (steps : List Step) : Decidable (UniqueTokens steps) :=
  inferInstanceAs (Decidable (List.Nodup _))

variable (steps : List Step)

@[simp]
theorem leases_snoc (step : Step)
    : leases (steps ++ [step]) = leases steps ++ step.granted.toList := by
  cases granted : step.granted <;> simp [leases, List.filterMap_append, granted]

@[simp]
theorem outstanding_snoc (step : Step)
    : outstanding (steps ++ [step])
      = (outstanding steps).filter (fun lease => ¬ step.Releases lease)
        ++ step.granted.toList := by
  simp [outstanding]

/-- Outstanding leases are leases of the run in their order, by induction on the steps. -/
theorem outstanding_sublist
    : (outstanding steps).Sublist (leases steps) := by
  induction steps using List.reverseRecOn with
  | nil => exact List.Sublist.refl _
  | append_singleton steps step ih =>
      rw [outstanding_snoc, leases_snoc]
      exact (List.filter_sublist.trans ih).append (List.Sublist.refl _)

theorem UniqueTokens.eq {steps : List Step} (unique : UniqueTokens steps)
    {left right : Lease} (first : left ∈ leases steps) (second : right ∈ leases steps)
    (same : left.ticket.probe = right.ticket.probe)
    : left = right :=
  List.inj_on_of_nodup_map unique first second same

theorem UniqueTokens.shorter {steps later : List Step} (unique : UniqueTokens (steps ++ later))
    : UniqueTokens steps := by
  have shorter : (leases steps).Sublist (leases (steps ++ later)) := by
    rw [leases, leases, List.filterMap_append]
    exact List.sublist_append_left _ _
  exact List.Nodup.sublist (shorter.map _) unique

-- One step

inductive StepEffect (step : Step) : Prop
  | idle (same : step.after = step.before) (none : step.granted = none)
  | granted {now leaseMs process counter commit token}
    (call : step.event = .admitRequest now leaseMs process counter commit)
    (half : step.before.isOpen = true)
    (free : step.before.probeToken = none ∨ step.before.probeExpiresMs ≤ now)
    (row : step.after = step.before.lease token (saturatingAdd now leaseMs))
    (lease
      : step.granted
        = some
            {
              ticket := { generation := step.before.generation, probe := some token }
              expiresMs := saturatingAdd now leaseMs
            })
  | settled {ticket outcome now commit}
    (call : step.event = .settle ticket outcome now commit)
    (effect : SettleEffect step.before ticket now outcome step.after)

/-- An admission whose row is kept or dropped is one of these. -/
theorem admission_effect {step : Step} {now leaseMs process counter : Nat} {commit : Commit}
    (call : step.event = .admitRequest now leaseMs process counter commit)
    (ends
      : step.after = step.before
        ∨ step.after = (step.before.admitRequest now leaseMs process counter).1)
    : StepEffect step := by
  have grant : step.granted
      = match step.before.admitRequest now leaseMs process counter with
        | (row, .ok ticket) =>
            if ticket.probe.isSome ∧ step.after = row then
              some { ticket, expiresMs := row.probeExpiresMs }
            else none
        | (_, .error _) => none := by
    simp only [Step.granted, call]
  cases answer : step.before.admitRequest now leaseMs process counter with
  | mk admitted reply =>
      have effect := admit_effect step.before now leaseMs process counter
      rw [answer] at ends effect grant
      cases effect with
      | kept plain =>
          refine .idle (by simpa using ends) ?_
          cases reply with
          | error refusal => exact grant
          | ok ticket => simpa [plain ticket rfl] using grant
      | granted half free =>
          by_cases kept : step.after = step.before.lease
              (probeTokenText now process counter) (saturatingAdd now leaseMs)
          · refine .granted call half free kept ?_
            simpa [kept, Row.lease] using grant
          · exact .idle (ends.resolve_right kept) (by simpa [kept] using grant)

theorem step_effect (protection : Protection) (row : Row) (event : Event)
    : StepEffect ((circuit protection).transition row event) := by
  cases event with
  | admitRequest now leaseMs process counter commit =>
      exact admission_effect rfl (transact_row protection commit row
        (fun row => row.admitRequest now leaseMs process counter))
  | settle ticket outcome now commit =>
      refine .settled rfl ?_
      change SettleEffect row ticket now outcome
        (transact protection commit row (fun row => (row.settle ticket outcome now, ()))).1
      rcases transact_row protection commit row
        (fun row => (row.settle ticket outcome now, ())) with same | changed
      · rw [same]
        exact .kept
      · rw [changed]
        exact settle_effect row ticket outcome now

-- The generation

def Step.Opens (step : Step) : Prop := step.before.isOpen = false ∧ step.after.isOpen = true

def Step.Closes (step : Step) : Prop := step.before.isOpen = true ∧ step.after.isOpen = false

/-- An open circuit stays open through a transient failure that is settled and kept. -/
def Step.Reopens (step : Step) : Prop :=
  step.before.isOpen = true
    ∧ step.after.isOpen = true
    ∧ step.after ≠ step.before
    ∧ ∃ ticket retryAfterMs now commit,
        step.event = .settle ticket (.transient retryAfterMs) now commit

theorem StepEffect.generation {step : Step} (effect : StepEffect step)
    : step.after.generation = step.before.generation + 1
        ∧ (step.Opens ∨ step.Reopens ∨ step.Closes)
      ∨ step.after.generation = step.before.generation
        ∧ ¬ (step.Opens ∨ step.Reopens ∨ step.Closes) := by
  have quiet (sameOpen : step.after.isOpen = step.before.isOpen)
      (noReopen : ¬ step.Reopens)
      : ¬ (step.Opens ∨ step.Reopens ∨ step.Closes) := by
    simp only [Step.Opens, Step.Closes, sameOpen, noReopen, false_or, not_or]
    constructor <;> (rintro ⟨left, right⟩; simp [left] at right)
  cases effect with
  | idle same none =>
      exact Or.inr ⟨by rw [same], quiet (by rw [same]) (fun reopens => reopens.2.2.1 same)⟩
  | granted call half free row lease =>
      refine Or.inr ⟨by rw [row]; rfl, quiet (by rw [row]; rfl) ?_⟩
      rintro ⟨_, _, _, _, _, _, _, other⟩
      cases call.symm.trans other
  | @settled ticket outcome now commit call effect =>
      obtain ⟨before, event, output, after⟩ := step
      change SettleEffect before ticket now outcome after at effect
      cases effect with
      | kept => exact Or.inr ⟨rfl, quiet rfl (fun reopens => reopens.2.2.1 rfl)⟩
      | counted closed generation few =>
          exact Or.inr ⟨rfl, quiet rfl (fun reopens => by cases closed.symm.trans reopens.1)⟩
      | opened closed generation => exact Or.inl ⟨rfl, Or.inl ⟨closed, rfl⟩⟩
      | reopened probing capped =>
          refine Or.inl ⟨rfl, Or.inr (Or.inl ⟨probing.isOpen, rfl, ?_, _, _, _, _, call⟩)⟩
          intro same
          exact Nat.succ_ne_self _ (congrArg Row.generation same)
      | closed probing => exact Or.inl ⟨rfl, Or.inr (Or.inr ⟨probing.isOpen, rfl⟩)⟩
      | released probing =>
          refine Or.inr ⟨rfl, quiet rfl ?_⟩
          rintro ⟨_, _, _, _, _, _, _, other⟩
          cases call.symm.trans other

end SkillRanker.Breaker
