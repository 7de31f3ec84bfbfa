import SkillRanker.Primitives

/-! The circuit of one endpoint origin: the pure transitions of its row, and the transaction
or lock under which a caller applies one of them.
-/

namespace SkillRanker.Breaker

-- Limits and values

def openAfterFailures : Nat := 3

def baseCooldownMs : Nat := 30000

def maxCooldownMs : Nat := 300000

def maxRetryAfterMs : Nat := 3600000

/-- What one attempt was admitted under. -/
structure Ticket where
  generation : Nat
  /-- The token of the half-open probe, when the attempt is the probe. -/
  probe : Option String
deriving DecidableEq, Repr

inductive Refusal
  | coolingDown (untilUnixMs : Nat)
  | probeInFlight
deriving DecidableEq, Repr

/-- How an admitted attempt ended, as far as endpoint health is concerned. -/
inductive Outcome
  | success
  | transient (retryAfterMs : Option Nat)
  | neutral
deriving DecidableEq, Repr

structure Row where
  generation : Nat
  isOpen : Bool
  failures : Nat
  cooldownMs : Nat
  openUntilMs : Nat
  probeToken : Option String
  probeExpiresMs : Nat
  retryAfterUntilMs : Nat
deriving DecidableEq, Repr

/-- `Row::default`, also the row of an origin without a stored one. -/
def Row.default : Row :=
  {
    generation := 0
    isOpen := false
    failures := 0
    cooldownMs := 0
    openUntilMs := 0
    probeToken := none
    probeExpiresMs := 0
    retryAfterUntilMs := 0
  }

def hex (value : Nat) : String := String.ofList (Nat.toDigits 16 value)

def probeTokenText (now process counter : Nat) : String :=
  hex now ++ "-" ++ hex process ++ "-" ++ hex counter

-- Transitions

/-- Admits a request, as the half-open probe when the cooldown of an open circuit ended. -/
def Row.admitRequest (row : Row) (now leaseMs process counter : Nat) : Row × Except Refusal Ticket :=
  if now < row.retryAfterUntilMs then
    (row, .error (.coolingDown row.retryAfterUntilMs))
  else if ¬ row.isOpen then
    (row, .ok { generation := row.generation, probe := none })
  else if now < row.openUntilMs then
    (row, .error (.coolingDown row.openUntilMs))
  else if row.probeToken.isSome ∧ now < row.probeExpiresMs then
    (row, .error .probeInFlight)
  else
    let token := probeTokenText now process counter
    (
      { row with probeToken := some token, probeExpiresMs := saturatingAdd now leaseMs },
      .ok { generation := row.generation, probe := some token }
    )

def Row.openFor (row : Row) (now cooldownMs : Nat) : Row :=
  {
    row with
    generation := row.generation + 1
    isOpen := true
    failures := 0
    cooldownMs := cooldownMs
    openUntilMs := saturatingAdd now cooldownMs
    probeToken := none
    probeExpiresMs := 0
  }

/-- Keeps the latest end of a valid `Retry-After`, capped. -/
def Row.delay (row : Row) (now : Nat) (retryAfterMs : Option Nat) : Row :=
  {
    row with
    retryAfterUntilMs :=
      match retryAfterMs with
      | some delay =>
          max row.retryAfterUntilMs (saturatingAdd now (min delay maxRetryAfterMs))
      | none => row.retryAfterUntilMs
  }

def Row.OwnsProbe (row : Row) (ticket : Ticket) : Prop :=
  row.isOpen ∧ ticket.probe.isSome ∧ ticket.probe = row.probeToken

instance (row : Row) (ticket : Ticket) : Decidable (row.OwnsProbe ticket) :=
  inferInstanceAs (Decidable (_ ∧ _ ∧ _))

/-- Settles an attempt. Attempts of another generation, and on an open circuit everything
but the unexpired probe, change nothing at all.
-/
def Row.settle (row : Row) (ticket : Ticket) (outcome : Outcome) (now : Nat) : Row :=
  if ticket.generation ≠ row.generation then row
  else if row.isOpen ∧ (¬ row.OwnsProbe ticket ∨ now ≥ row.probeExpiresMs) then row
  else
    match outcome with
    | .success =>
        if row.OwnsProbe ticket then { Row.default with generation := row.generation + 1 }
        else if ¬ row.isOpen then { row with failures := 0, retryAfterUntilMs := 0 }
        else row
    | .transient retryAfterMs =>
        let delayed := row.delay now retryAfterMs
        if row.OwnsProbe ticket then
          delayed.openFor now (min (max row.cooldownMs baseCooldownMs * 2) maxCooldownMs)
        else if ¬ row.isOpen then
          let counted := { delayed with failures := row.failures + 1 }
          if counted.failures ≥ openAfterFailures then counted.openFor now baseCooldownMs
          else counted
        else delayed
    | .neutral =>
        if row.OwnsProbe ticket then { row with probeToken := none, probeExpiresMs := 0 }
        else row

-- Applying a transition

/-- Where a row lives: in the shared store, or under the lock of one process. -/
inductive Protection
  | shared
  | processLocal
deriving DecidableEq, Repr

def Row.Readable (row : Row) : Prop :=
  row.failures < openAfterFailures ∧ row.cooldownMs ≤ maxCooldownMs

def Row.Within (row : Row) (limit : Nat) : Prop :=
  row.generation ≤ limit
    ∧ row.failures ≤ limit
    ∧ row.cooldownMs ≤ limit
    ∧ row.openUntilMs ≤ limit
    ∧ row.probeExpiresMs ≤ limit
    ∧ row.retryAfterUntilMs ≤ limit

instance (row : Row) : Decidable row.Readable :=
  inferInstanceAs (Decidable (_ ∧ _))

instance (row : Row) (limit : Nat) : Decidable (row.Within limit) :=
  inferInstanceAs (Decidable (_ ∧ _ ∧ _ ∧ _ ∧ _ ∧ _))

/-- Whether a changed row is kept. `sqlite_integer` refuses a value outside the `i64` range
and rolls back; under the lock a generation beyond `u64` overflows, which ends its use.
-/
def Protection.Keeps : Protection → Row → Prop
  | .shared, row => row.Within i64Max
  | .processLocal, row => row.generation ≤ u64Max

instance : (protection : Protection) → (row : Row) → Decidable (protection.Keeps row)
  | .shared, row => inferInstanceAs (Decidable (row.Within i64Max))
  | .processLocal, row => inferInstanceAs (Decidable (row.generation ≤ u64Max))

/-- `transact`: one change of the row, and its value when the caller gets one. A caller
without a value falls back to its own row. `commit` covers everything else that can fail.
-/
def transact {Value : Type} (protection : Protection) (commit : Commit) (row : Row)
    (change : Row → Row × Value)
    : Row × Option Value :=
  if protection = .shared ∧ ¬ row.Readable then (row, none)
  else
    let (after, value) := change row
    if after ≠ row ∧ ¬ protection.Keeps after then (row, none)
    else
      match commit with
      | .failed durable => (if durable then after else row, none)
      | .done => (after, some value)

end SkillRanker.Breaker
