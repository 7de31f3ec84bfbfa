import SkillRanker.Breaker.Fencing

/-! The cooldown of the circuit over whole runs: when it opens, for how long, and what lifts a
`Retry-After`.
-/

namespace SkillRanker.Breaker

open SkillRanker.Library

variable {row : Row} {now : Nat} {protection : Protection}

-- What counts

/-- The step settles a transient failure of the current generation on a closed circuit, and the
settlement is kept.
-/
def Step.failed (step : Step) : Bool :=
  match step.event with
  | .settle ticket (.transient retryAfterMs) now _ =>
      step.before.isOpen = false && ticket.generation = step.before.generation
        && step.after = step.before.settle ticket (.transient retryAfterMs) now
  | _ => false

/-- The step settles a valid response of the current generation on a closed circuit, and the
settlement is kept.
-/
def Step.recovered (step : Step) : Bool :=
  match step.event with
  | .settle ticket .success now _ =>
      step.before.isOpen = false && ticket.generation = step.before.generation
        && step.after = step.before.settle ticket .success now
  | _ => false

instance (row : Row) (ticket : Ticket) (now : Nat) : Decidable (row.Probing ticket now) :=
  decidable_of_iff
    (row.isOpen = true ∧ ticket.generation = row.generation ∧ ticket.probe.isSome
      ∧ ticket.probe = row.probeToken ∧ now < row.probeExpiresMs)
    ⟨fun ⟨isOpen, generation, probe, token, unexpired⟩ =>
        ⟨isOpen, generation, probe, token, unexpired⟩,
      fun probing => ⟨probing.isOpen, probing.generation, probing.probe, probing.token,
        probing.unexpired⟩⟩

def Step.probeFailed (step : Step) : Bool :=
  match step.event with
  | .settle ticket (.transient retryAfterMs) now _ =>
      step.before.Probing ticket now
        && step.after = step.before.settle ticket (.transient retryAfterMs) now
  | _ => false

def Step.probeSucceeded (step : Step) : Bool :=
  match step.event with
  | .settle ticket .success now _ =>
      step.before.Probing ticket now && step.after = step.before.settle ticket .success now
  | _ => false

/-- How many transient failures of the current generation a closed circuit has seen since the last
valid response.
-/
def streak (steps : List Step) : Nat :=
  steps.foldl
    (fun count step =>
      if step.before.isOpen = true then 0
      else if step.failed then count + 1
      else if step.recovered then 0
      else count)
    0

/-- How many probes have failed since the circuit opened. -/
def failedProbes (steps : List Step) : Nat :=
  steps.foldl
    (fun count step =>
      if step.before.isOpen = false then 0
      else if step.probeFailed then count + 1
      else count)
    0

theorem streak_snoc (steps : List Step) (step : Step)
    : streak (steps ++ [step])
      = if step.before.isOpen = true then 0
        else if step.failed then streak steps + 1
        else if step.recovered then 0
        else streak steps := by
  simp [streak]

theorem failedProbes_snoc (steps : List Step) (step : Step)
    : failedProbes (steps ++ [step])
      = if step.before.isOpen = false then 0
        else if step.probeFailed then failedProbes steps + 1
        else failedProbes steps := by
  simp [failedProbes]

-- Settlements

variable {ticket : Ticket}

/-- A closed circuit counts a failure of its generation, opens at the third, and forgets them at
a valid response.
-/
theorem settle_closed (now : Nat) (closed : row.isOpen = false)
    (generation : ticket.generation = row.generation) (outcome : Outcome)
    : row.settle ticket outcome now
      = match outcome with
        | .success => { row with failures := 0, retryAfterUntilMs := 0 }
        | .neutral => row
        | .transient retryAfterMs =>
            let counted := { row.delay now retryAfterMs with failures := row.failures + 1 }
            if row.failures + 1 ≥ openAfterFailures then counted.openFor now baseCooldownMs
            else counted := by
  have owns : ¬row.OwnsProbe ticket := fun owns => by
    have isOpen := owns.1
    rw [closed] at isOpen
    cases isOpen
  unfold Row.settle
  rw [if_neg (by simpa using generation), if_neg (by simp [closed])]
  cases outcome <;> simp [owns, closed]

/-- The probe of an open circuit closes it, opens it for longer, or is given up. -/
theorem settle_probing (probing : row.Probing ticket now) (outcome : Outcome)
    : row.settle ticket outcome now
      = match outcome with
        | .success => { Row.default with generation := row.generation + 1 }
        | .neutral => { row with probeToken := none, probeExpiresMs := 0 }
        | .transient retryAfterMs =>
            (row.delay now retryAfterMs).openFor now
              (min (max row.cooldownMs baseCooldownMs * 2) maxCooldownMs) := by
  have owns : row.OwnsProbe ticket := ⟨probing.isOpen, probing.probe, probing.token⟩
  unfold Row.settle
  rw [if_neg (by simpa using probing.generation),
    if_neg (fun fence => by
      rcases fence.2 with other | expired
      · exact other owns
      · exact absurd probing.unexpired (Nat.not_lt.mpr expired))]
  cases outcome <;> simp [owns]

theorem settle_ignored (other : ¬(row.isOpen = false ∧ ticket.generation = row.generation))
    (stale : ¬row.Probing ticket now) (outcome : Outcome)
    : row.settle ticket outcome now = row := by
  unfold Row.settle
  by_cases generation : ticket.generation = row.generation
  · have isOpen : row.isOpen = true := by
      cases is : row.isOpen with
      | true => rfl
      | false => exact absurd ⟨is, generation⟩ other
    rw [if_neg (by simpa using generation), if_pos]
    refine ⟨isOpen, ?_⟩
    by_cases owns : row.OwnsProbe ticket
    · refine .inr (Nat.not_lt.mp fun unexpired => stale ?_)
      exact ⟨isOpen, generation, owns.2.1, owns.2.2, unexpired⟩
    · exact .inl owns
  · rw [if_pos generation]

-- One step

inductive ClosedStep (step : Step) : Prop
  | quiet (same : step.after = step.before) (failed : step.failed = false)
    (forgotten : step.recovered = true → step.before.failures = 0)
  | recovered (failed : step.failed = false) (recovered : step.recovered = true)
    (row : step.after = { step.before with failures := 0, retryAfterUntilMs := 0 })
  | counted (retryAfterMs : Option Nat) (failed : step.failed = true)
    (few : step.before.failures + 1 < openAfterFailures)
    (row
      : step.after
        = { step.before.delay step.event.now retryAfterMs with
            failures := step.before.failures + 1 })
  | opened (retryAfterMs : Option Nat) (failed : step.failed = true)
    (many : openAfterFailures ≤ step.before.failures + 1)
    (row
      : step.after
        = ({ step.before.delay step.event.now retryAfterMs with
              failures := step.before.failures + 1 } : Row).openFor step.event.now
            baseCooldownMs)

inductive OpenStep (step : Step) : Prop
  | quiet (token : Option String) (expiresMs : Nat) (failed : step.probeFailed = false)
    (row : step.after = { step.before with probeToken := token, probeExpiresMs := expiresMs })
  | reopened (retryAfterMs : Option Nat) (failed : step.probeFailed = true)
    (row
      : step.after
        = (step.before.delay step.event.now retryAfterMs).openFor step.event.now
            (min (max step.before.cooldownMs baseCooldownMs * 2) maxCooldownMs))
  | closed (failed : step.probeFailed = false) (succeeded : step.probeSucceeded = true)
    (row : step.after = { Row.default with generation := step.before.generation + 1 })

variable (protection)

/-- A transition of the circuit keeps what its event does to the row, or leaves the row. -/
theorem settle_ends (row : Row) (ticket : Ticket) (outcome : Outcome) (now : Nat) (commit : Commit)
    : let step := (circuit protection).transition row (.settle ticket outcome now commit)
      step.after = row ∨ step.after = row.settle ticket outcome now :=
  transact_row protection commit row fun row => (row.settle ticket outcome now, ())

theorem admit_ends (row : Row) (now leaseMs process counter : Nat) (commit : Commit)
    : let step :=
        (circuit protection).transition row (.admitRequest now leaseMs process counter commit)
      step.after = row ∨ step.after = (row.admitRequest now leaseMs process counter).1 :=
  transact_row protection commit row fun row => row.admitRequest now leaseMs process counter

/-- Every step on a closed circuit is one of these, by its event and whether it is kept. -/
theorem step_closed (closed : row.isOpen = false) (event : Event)
    : ClosedStep ((circuit protection).transition row event) := by
  cases event with
  | admitRequest now leaseMs process counter commit =>
      refine .quiet ?_ rfl (fun recovered => by cases recovered)
      have same : (row.admitRequest now leaseMs process counter).1 = row := by
        unfold Row.admitRequest
        split
        · rfl
        · rw [if_pos (by simp [closed])]
      rcases admit_ends protection row now leaseMs process counter commit with ends | ends
      · exact ends
      · exact ends.trans same
  | settle ticket outcome now commit =>
      obtain ⟨step, is⟩ : ∃ step : Step,
          step = (circuit protection).transition row (.settle ticket outcome now commit) :=
        ⟨_, rfl⟩
      have ends := settle_ends protection row ticket outcome now commit
      have before : step.before = row := by rw [is]; rfl
      have event : step.event = .settle ticket outcome now commit := by rw [is]; rfl
      dsimp only at ends
      rw [← is] at ends ⊢
      subst before
      by_cases generation : ticket.generation = step.before.generation
      · have settled := settle_closed now closed generation outcome
        cases outcome with
        | success =>
            have failed : step.failed = false := by simp only [Step.failed, event]
            rcases ends with ends | ends
            · refine .quiet ends failed fun recovered => ?_
              simp only [Step.recovered, event, Bool.and_eq_true, decide_eq_true_eq] at recovered
              have kept := recovered.2.symm.trans ends
              rw [settled] at kept
              exact (congrArg Row.failures kept).symm
            · refine .recovered failed ?_ (ends.trans settled)
              simp [Step.recovered, event, closed, generation, ends]
        | neutral =>
            refine .quiet ?_ (by simp only [Step.failed, event])
              (fun recovered => by simp [Step.recovered, event] at recovered)
            rcases ends with ends | ends
            · exact ends
            · exact ends.trans settled
        | transient retryAfterMs =>
            have reading : step.event.now = now := by rw [event]; rfl
            rw [← reading] at settled ends
            by_cases kept : step.after = step.before.settle ticket (.transient retryAfterMs) now
            · have failed : step.failed = true := by
                simp [Step.failed, event, closed, generation, kept]
              by_cases many : step.before.failures + 1 ≥ openAfterFailures
              · refine .opened retryAfterMs failed many ?_
                rw [kept, ← reading, settled]
                exact if_pos many
              · refine .counted retryAfterMs failed (Nat.not_le.mp many) ?_
                rw [kept, ← reading, settled]
                exact if_neg many
            · refine .quiet (ends.resolve_right (reading ▸ kept)) ?_ fun recovered => ?_
              · simp [Step.failed, event, kept]
              · simp [Step.recovered, event] at recovered
      · have ignored : step.before.settle ticket outcome now = step.before :=
          settle_ignored (fun current => generation current.2)
            (fun probing => generation probing.generation) outcome
        refine .quiet ?_ ?_ ?_
        · rcases ends with ends | ends
          · exact ends
          · exact ends.trans ignored
        · simp only [Step.failed, event]
          cases outcome <;> simp [generation]
        · simp only [Step.recovered, event]
          cases outcome <;> simp [generation]

/-- Every step on an open circuit is one of these, by its event and whether it is kept. -/
theorem step_open (isOpen : row.isOpen = true) (event : Event)
    : OpenStep ((circuit protection).transition row event) := by
  cases event with
  | admitRequest now leaseMs process counter commit =>
      obtain ⟨token, expiresMs, lease⟩ : ∃ token expiresMs,
          (row.admitRequest now leaseMs process counter).1
            = { row with probeToken := token, probeExpiresMs := expiresMs } := by
        unfold Row.admitRequest
        repeat' split
        all_goals exact ⟨_, _, rfl⟩
      rcases admit_ends protection row now leaseMs process counter commit with ends | ends
      · exact .quiet row.probeToken row.probeExpiresMs rfl ends
      · exact .quiet token expiresMs rfl (ends.trans lease)
  | settle ticket outcome now commit =>
      obtain ⟨step, is⟩ : ∃ step : Step,
          step = (circuit protection).transition row (.settle ticket outcome now commit) :=
        ⟨_, rfl⟩
      have ends := settle_ends protection row ticket outcome now commit
      have before : step.before = row := by rw [is]; rfl
      have event : step.event = .settle ticket outcome now commit := by rw [is]; rfl
      dsimp only at ends
      rw [← is] at ends ⊢
      subst before
      by_cases probing : step.before.Probing ticket now
      · have settled := settle_probing probing outcome
        cases outcome with
        | success =>
            have failed : step.probeFailed = false := by simp only [Step.probeFailed, event]
            rcases ends with ends | ends
            · exact .quiet step.before.probeToken step.before.probeExpiresMs failed ends
            · refine .closed failed ?_ (ends.trans settled)
              simp [Step.probeSucceeded, event, probing, ends]
        | neutral =>
            have failed : step.probeFailed = false := by simp only [Step.probeFailed, event]
            rcases ends with ends | ends
            · exact .quiet step.before.probeToken step.before.probeExpiresMs failed ends
            · exact .quiet none 0 failed (ends.trans settled)
        | transient retryAfterMs =>
            have reading : step.event.now = now := by rw [event]; rfl
            by_cases kept : step.after = step.before.settle ticket (.transient retryAfterMs) now
            · refine .reopened retryAfterMs ?_ ?_
              · simp [Step.probeFailed, event, probing, kept]
              · rw [kept, settled, reading]
            · refine .quiet step.before.probeToken step.before.probeExpiresMs ?_ (ends.resolve_right kept)
              simp [Step.probeFailed, event, kept]
      · have ignored : step.before.settle ticket outcome now = step.before :=
          settle_ignored (fun current => by
            rw [isOpen] at current
            cases current.1) probing outcome
        refine .quiet step.before.probeToken step.before.probeExpiresMs ?_ ?_
        · simp only [Step.probeFailed, event]
          cases outcome <;> simp [probing]
        · rcases ends with ends | ends
          · exact ends
          · exact ends.trans ignored

theorem step_cases (row : Row) (event : Event)
    : row.isOpen = false ∧ ClosedStep ((circuit protection).transition row event)
      ∨ row.isOpen = true ∧ OpenStep ((circuit protection).transition row event) := by
  cases isOpen : row.isOpen with
  | false => exact .inl ⟨rfl, step_closed protection isOpen event⟩
  | true => exact .inr ⟨rfl, step_open protection isOpen event⟩

variable {protection}

-- Counts

structure Remembers (steps : List Step) (row : Row) : Prop where
  failures : row.isOpen = false → row.failures = streak steps
  closed : row.isOpen = false → row.cooldownMs = 0
  cooldown
    : row.isOpen = true
      → row.cooldownMs = min (baseCooldownMs * 2 ^ failedProbes steps) maxCooldownMs

/-- Doubling a capped cooldown doubles what it would be without the cap. -/
theorem doubled (k : Nat)
    : min (max (min (baseCooldownMs * 2 ^ k) maxCooldownMs) baseCooldownMs * 2) maxCooldownMs
      = min (baseCooldownMs * 2 ^ (k + 1)) maxCooldownMs := by
  have positive : 1 ≤ 2 ^ k := Nat.one_le_two_pow
  simp only [baseCooldownMs, maxCooldownMs, Nat.pow_succ]
  omega

variable {step : Step}

theorem ClosedStep.remembers (effect : ClosedStep step) (closed : step.before.isOpen = false)
    {steps : List Step} (before : Remembers steps step.before)
    : Remembers (steps ++ [step]) step.after := by
  have failures := before.failures closed
  have cooldown := before.closed closed
  cases effect with
  | quiet same failed forgotten =>
      rw [same]
      refine ⟨fun _ => ?_, before.closed, fun isOpen => absurd (closed.symm.trans isOpen) (by decide)⟩
      rw [streak_snoc, if_neg (by simp [closed]), if_neg (by simp [failed])]
      split
      · next recovered => exact forgotten recovered
      · exact failures
  | recovered failed recovered row =>
      rw [row]
      refine ⟨fun _ => ?_, fun _ => cooldown,
        fun isOpen => absurd (closed.symm.trans isOpen) (by decide)⟩
      rw [streak_snoc, if_neg (by simp [closed]), if_neg (by simp [failed]), if_pos recovered]
  | counted _ failed few row =>
      rw [row]
      refine ⟨fun _ => ?_, fun _ => cooldown,
        fun isOpen => absurd (closed.symm.trans isOpen) (by decide)⟩
      rw [streak_snoc, if_neg (by simp [closed]), if_pos failed, ← failures]
  | opened _ failed many row =>
      rw [row]
      refine ⟨fun shut => (by cases shut), fun shut => (by cases shut), fun _ => ?_⟩
      rw [failedProbes_snoc, if_pos closed]
      rfl

theorem OpenStep.remembers (effect : OpenStep step) (isOpen : step.before.isOpen = true)
    {steps : List Step} (before : Remembers steps step.before)
    : Remembers (steps ++ [step]) step.after := by
  have cooldown := before.cooldown isOpen
  have notClosed : ¬step.before.isOpen = false := by simp [isOpen]
  cases effect with
  | quiet _ _ failed row =>
      rw [row]
      refine ⟨fun shut => absurd shut notClosed, fun shut => absurd shut notClosed, fun _ => ?_⟩
      rw [failedProbes_snoc, if_neg notClosed, if_neg (by simp [failed])]
      exact cooldown
  | reopened _ failed row =>
      rw [row]
      refine ⟨fun shut => (by cases shut), fun shut => (by cases shut), fun _ => ?_⟩
      rw [failedProbes_snoc, if_neg notClosed, if_pos failed, ← doubled, ← cooldown]
      rfl
  | closed failed succeeded row =>
      rw [row]
      refine ⟨fun _ => ?_, fun _ => rfl, fun isOpen => by cases isOpen⟩
      rw [streak_snoc, if_pos isOpen]
      rfl

variable (protection)

/-- The row remembers the run, by induction on the run. -/
theorem reach_remembers (events : List Event)
    : Remembers (steps protection events) (reach protection events) := by
  apply (circuit protection).run_induction (motive := fun _ taken row => Remembers taken row)
  · exact Remembers.mk (fun _ => rfl) (fun _ => rfl) fun isOpen => absurd isOpen (by decide)
  · intro earlier event before
    rcases step_cases protection ((circuit protection).final Row.default earlier) event
      with ⟨closed, effect⟩ | ⟨isOpen, effect⟩
    · exact effect.remembers closed before
    · exact effect.remembers isOpen before

-- Times

theorem saturatingAdd_le (left right : Nat) : saturatingAdd left right ≤ left + right :=
  Nat.min_le_left _ _

/-- No step sets an end further ahead of its clock reading than the limits. -/
structure Row.Ahead (row : Row) (now : Nat) : Prop where
  retryAfter : row.retryAfterUntilMs ≤ now + maxRetryAfterMs
  openUntil : row.openUntilMs ≤ now + maxCooldownMs

theorem Row.Ahead.later {later : Nat} (ahead : row.Ahead now) (le : now ≤ later)
    : row.Ahead later :=
  ⟨ahead.retryAfter.trans (Nat.add_le_add_right le _),
    ahead.openUntil.trans (Nat.add_le_add_right le _)⟩

theorem delay_le (bounded : row.retryAfterUntilMs ≤ now + maxRetryAfterMs)
    (retryAfterMs : Option Nat)
    : (row.delay now retryAfterMs).retryAfterUntilMs ≤ now + maxRetryAfterMs := by
  cases retryAfterMs with
  | none => exact bounded
  | some delay =>
      refine max_le bounded ((saturatingAdd_le _ _).trans ?_)
      exact Nat.add_le_add_left (Nat.min_le_right _ _) now

theorem le_delay (row : Row) (now : Nat) (retryAfterMs : Option Nat)
    : row.retryAfterUntilMs ≤ (row.delay now retryAfterMs).retryAfterUntilMs := by
  cases retryAfterMs with
  | none => exact Nat.le_refl _
  | some delay => exact le_max_left _ _

/-- A step keeps the ends near its clock reading. -/
theorem step_ahead (row : Row) (event : Event) (ahead : row.Ahead event.now)
    : ((circuit protection).transition row event).after.Ahead event.now := by
  rcases step_cases protection row event with ⟨_, effect⟩ | ⟨_, effect⟩
  · cases effect with
    | quiet same _ _ =>
        rw [same]
        exact ahead
    | recovered _ _ row =>
        rw [row]
        exact ⟨Nat.zero_le _, ahead.openUntil⟩
    | counted _ _ _ row =>
        rw [row]
        exact ⟨delay_le ahead.retryAfter _, ahead.openUntil⟩
    | opened _ _ _ row =>
        rw [row]
        refine ⟨delay_le ahead.retryAfter _, (saturatingAdd_le _ _).trans ?_⟩
        exact Nat.add_le_add_left (by decide) _
  · cases effect with
    | quiet _ _ _ row =>
        rw [row]
        exact ⟨ahead.retryAfter, ahead.openUntil⟩
    | reopened _ _ row =>
        rw [row]
        refine ⟨delay_le ahead.retryAfter _, (saturatingAdd_le _ _).trans ?_⟩
        exact Nat.add_le_add_left (Nat.min_le_right _ _) _
    | closed _ _ row =>
        rw [row]
        exact ⟨Nat.zero_le _, Nat.zero_le _⟩

-- What a `Retry-After` is worth

/-- The end of the `Retry-After` that a step stores: it settles one with a failure that counts, on
a closed circuit or of the probe, and the settlement is kept.
-/
def Step.stored (step : Step) : Option Nat :=
  match step.event with
  | .settle _ (.transient (some delay)) now _ =>
      if step.failed || step.probeFailed then
        some (saturatingAdd now (min delay maxRetryAfterMs))
      else none
  | _ => none

/-- The step settles a valid response, of a closed circuit or of the probe, and the settlement is
kept.
-/
def Step.cleared (step : Step) : Bool := step.recovered || step.probeSucceeded

theorem stored_le {until_ : Nat} (stored : step.stored = some until_)
    : until_ ≤ step.after.retryAfterUntilMs := by
  obtain ⟨before, event, output, after⟩ := step
  unfold Step.stored at stored
  split at stored
  next ticket delay now commit call =>
      split at stored
      next counts =>
          cases stored
          have kept : after = before.settle ticket (.transient (some delay)) now
              ∧ ((before.isOpen = false ∧ ticket.generation = before.generation)
                ∨ before.Probing ticket now) := by
            dsimp only at call
            subst call
            rcases Bool.or_eq_true _ _ |>.mp counts with failed | failed
            · simp only [Step.failed, Bool.and_eq_true, decide_eq_true_eq] at failed
              exact ⟨failed.2, .inl failed.1⟩
            · simp only [Step.probeFailed, Bool.and_eq_true, decide_eq_true_eq] at failed
              exact ⟨failed.2, .inr failed.1⟩
          obtain ⟨rfl, ⟨closed, generation⟩ | probing⟩ := kept
          · rw [settle_closed now closed generation]
            dsimp only
            split <;> exact le_max_right _ _
          · rw [settle_probing probing]
            exact le_max_right _ _
      next => cases stored
  next => cases stored

/-- Only a valid response brings the end of a `Retry-After` forward. -/
theorem step_retryAfter (row : Row) (event : Event)
    : let step := (circuit protection).transition row event
      row.retryAfterUntilMs ≤ step.after.retryAfterUntilMs ∨ Step.cleared step = true := by
  rcases step_cases protection row event with ⟨_, effect⟩ | ⟨_, effect⟩
  · cases effect with
    | quiet same _ _ => exact .inl (by rw [same]; exact Nat.le_refl _)
    | recovered _ recovered _ =>
        exact .inr (by rw [Step.cleared, recovered]; rfl)
    | counted _ _ _ after => exact .inl (by rw [after]; exact le_delay _ _ _)
    | opened _ _ _ after => exact .inl (by rw [after]; exact le_delay _ _ _)
  · cases effect with
    | quiet _ _ _ after => exact .inl (by rw [after]; exact Nat.le_refl _)
    | reopened _ _ after => exact .inl (by rw [after]; exact le_delay _ _ _)
    | closed _ succeeded _ =>
        exact .inr (by rw [Step.cleared, succeeded, Bool.or_true])

/-- An end that stands in a row stands after a run without a valid response, by induction on the
run.
-/
theorem retryAfter_kept {until_ : Nat} (events : List Event) {start : Row}
    (stands : until_ ≤ start.retryAfterUntilMs)
    (uncleared : ∀ step ∈ (circuit protection).history start events, Step.cleared step = false)
    : until_ ≤ ((circuit protection).final start events).retryAfterUntilMs := by
  induction events generalizing start with
  | nil => exact stands
  | cons event rest ih =>
      have first := uncleared _ List.mem_cons_self
      rcases step_retryAfter protection start event with later | cleared
      · exact ih (stands.trans later) fun step mem => uncleared step (List.mem_cons_of_mem _ mem)
      · rw [cleared] at first
        cases first

variable {protection}

-- The cooldown law

def Step.Admits (step : Step) : Prop := ∃ ticket, step.output = .admission (some (.ok ticket))

structure CooldownLaw (protection : Protection) (steps : List Step) : Prop where
  /-- A closed circuit opens exactly at the third failure in a row. -/
  opens
    : ∀ earlier (step : Step) later,
        steps = earlier ++ step :: later
        → step.before.isOpen = false
        → (step.after.isOpen = true ↔ step.failed = true ∧ streak earlier = 2)
  /-- Each failed probe doubles the cooldown, up to the longest one. -/
  cooldown
    : ∀ earlier (step : Step) later,
        steps = earlier ++ step :: later
        → step.after.isOpen = true
        → step.after.cooldownMs = min (30000 * 2 ^ failedProbes (earlier ++ [step])) 300000
  /-- An opened circuit stays open for its cooldown. -/
  openUntil
    : ∀ step : Step,
        step ∈ steps
        → step.after.isOpen = true
        → step.before.isOpen = false ∨ step.probeFailed = true
        → step.after.openUntilMs = saturatingAdd step.event.now step.after.cooldownMs
  resets
    : ∀ step : Step,
        step ∈ steps
        → step.after.cooldownMs < step.before.cooldownMs
        → step.probeSucceeded = true
  refusals
    : ∀ step : Step,
        step ∈ steps
        → ∀ untilMs,
            step.output = .admission (some (.error (.coolingDown untilMs)))
            → step.event.now < untilMs ∧ untilMs ≤ step.event.now + 3600000
  /-- No attempt is admitted before the end of a stored `Retry-After` that no valid response
  cleared. -/
  retryAfter
    : ∀ earlier (stored : Step) between (step : Step) later untilMs,
        steps = earlier ++ stored :: (between ++ step :: later)
        → stored.stored = some untilMs
        → step.Admits
        → step.event.now < untilMs
        → ∃ clearing ∈ between, Step.cleared clearing = true
  readable
    : ∀ step : Step,
        step ∈ steps
        → step.after.Readable ∧ (protection = .shared → step.after.Within i64Max)

theorem transact_value {Value : Type} {commit : Commit} {change : Row → Row × Value} {value : Value}
    (got : (transact protection commit row change).2 = some value)
    : (change row).2 = value := by
  unfold transact at got
  split at got
  · cases got
  · dsimp only at got
    split at got
    · cases got
    · cases commit with
      | failed durable => cases got
      | done => exact Option.some.inj got

/-- A row that the store keeps is within the integers of the store. -/
theorem transact_within {Value : Type} (commit : Commit) (change : Row → Row × Value)
    (within : row.Within i64Max)
    : (transact .shared commit row change).1.Within i64Max := by
  unfold transact
  split
  · exact within
  · dsimp only
    split
    · exact within
    · next keeps =>
        have after : (change row).1.Within i64Max := by
          by_cases same : (change row).1 = row
          · rw [same]
            exact within
          · by_contra outside
            exact keeps ⟨same, outside⟩
        cases commit with
        | done => exact after
        | failed durable =>
            dsimp only
            split
            · exact after
            · exact within

/-- The store keeps only rows within its integers. -/
theorem reach_within (events : List Event) : (reach .shared events).Within i64Max := by
  have step (row : Row) (event : Event) (within : row.Within i64Max)
      : ((circuit .shared).next row event).1.Within i64Max := by
    cases event with
    | admitRequest now leaseMs process counter commit =>
        exact transact_within commit (fun row : Row => row.admitRequest now leaseMs process counter)
          within
    | settle ticket outcome now commit =>
        exact transact_within commit (fun row : Row => (row.settle ticket outcome now, ())) within
  exact (circuit .shared).invariant (show Row.default.Within i64Max by decide) step events

/-- The ends in the row are near every clock reading behind the run, by induction on the run. -/
theorem reach_ahead (protection : Protection) (events : List Event)
    (clock : events.Pairwise fun one two => one.now ≤ two.now)
    (late : ∀ event ∈ events, event.now ≤ now)
    : (reach protection events).Ahead now := by
  induction events using List.reverseRecOn generalizing now with
  | nil => exact ⟨Nat.zero_le _, Nat.zero_le _⟩
  | append_singleton events event ih =>
      obtain ⟨earlier, _, ordered⟩ := List.pairwise_append.mp clock
      have before := ih earlier fun other mem => ordered other mem event List.mem_cons_self
      have after := step_ahead protection (reach protection events) event before
      rw [reach, Machine.final_snoc]
      exact after.later (late event (by simp))

/-- A refusal for a cooldown names one of the ends of the row, which has not come yet. -/
theorem refused_until {event : Event} {untilMs : Nat}
    (refused
      : ((circuit protection).transition row event).output
        = .admission (some (.error (.coolingDown untilMs))))
    : event.now < untilMs
      ∧ (untilMs = row.retryAfterUntilMs ∨ untilMs = row.openUntilMs) := by
  cases event with
  | settle ticket outcome now commit => cases refused
  | admitRequest now leaseMs process counter commit =>
      have answer : (row.admitRequest now leaseMs process counter).2
          = .error (.coolingDown untilMs) := by
        have value
            : (transact protection commit row fun row =>
                row.admitRequest now leaseMs process counter).2
              = some (.error (.coolingDown untilMs)) := by
          injection refused
        exact transact_value value
      unfold Row.admitRequest at answer
      split at answer
      next early =>
          cases answer
          exact ⟨early, .inl rfl⟩
      next =>
          split at answer
          next => cases answer
          next =>
              split at answer
              next early =>
                  cases answer
                  exact ⟨early, .inr rfl⟩
              next => split at answer <;> cases answer

/-- An attempt is admitted only at or behind the end of the `Retry-After` in the row. -/
theorem retryAfter_le_of_admits {event : Event}
    (admits : Step.Admits ((circuit protection).transition row event))
    : row.retryAfterUntilMs ≤ event.now := by
  obtain ⟨ticket, admitted⟩ := admits
  cases event with
  | settle ticket outcome now commit => cases admitted
  | admitRequest now leaseMs process counter commit =>
      have answer : (row.admitRequest now leaseMs process counter).2 = .ok ticket := by
        have value
            : (transact protection commit row fun row =>
                row.admitRequest now leaseMs process counter).2
              = some (.ok ticket) := by
          injection admitted
        exact transact_value value
      unfold Row.admitRequest at answer
      split at answer
      next => cases answer
      next ended => exact Nat.not_lt.mp ended

/-- A closed circuit opens exactly at the third failure in a row. -/
theorem ClosedStep.opens_iff (effect : ClosedStep step) (closed : step.before.isOpen = false)
    {count : Nat} (failures : step.before.failures = count)
    (few : step.before.failures < openAfterFailures)
    : step.after.isOpen = true ↔ step.failed = true ∧ count = 2 := by
  subst failures
  cases effect with
  | quiet same failed _ => simp [same, closed, failed]
  | recovered failed _ row => simp [row, closed, failed]
  | counted _ failed fewer row =>
      have shut : step.after.isOpen = false := by
        rw [row]
        exact closed
      rw [shut]
      refine ⟨fun isOpen => (by cases isOpen), fun ⟨_, two⟩ => ?_⟩
      rw [two] at fewer
      exact absurd fewer (by decide)
  | opened _ failed many row =>
      have isOpen : step.after.isOpen = true := by
        rw [row]
        rfl
      have two : step.before.failures = 2 := by
        unfold openAfterFailures at few many
        omega
      exact ⟨fun _ => ⟨failed, two⟩, fun _ => isOpen⟩

theorem step_openUntil (protection : Protection) (row : Row) (event : Event)
    : let step := (circuit protection).transition row event
      step.after.isOpen = true
      → row.isOpen = false ∨ Step.probeFailed step = true
      → step.after.openUntilMs = saturatingAdd event.now step.after.cooldownMs := by
  intro step isOpen opened
  rcases step_cases protection row event with ⟨closed, effect⟩ | ⟨wasOpen, effect⟩
  · cases effect with
    | quiet same _ _ =>
        rw [same] at isOpen
        exact absurd (closed.symm.trans isOpen) (by decide)
    | recovered _ _ after =>
        rw [after] at isOpen
        exact absurd (closed.symm.trans isOpen) (by decide)
    | counted _ _ _ after =>
        rw [after] at isOpen
        exact absurd (closed.symm.trans isOpen) (by decide)
    | opened _ _ _ after =>
        rw [after]
        rfl
  · have failed := opened.resolve_left (by simp [wasOpen])
    cases effect with
    | quiet _ _ unfailed _ => exact absurd (unfailed.symm.trans failed) (by decide)
    | reopened _ _ after =>
        rw [after]
        rfl
    | closed unfailed _ _ => exact absurd (unfailed.symm.trans failed) (by decide)

/-- Only a valid response of the probe makes the cooldown shorter. -/
theorem step_resets (protection : Protection) (row : Row) (event : Event)
    (capped : row.cooldownMs ≤ maxCooldownMs) (closedRow : row.isOpen = false → row.cooldownMs = 0)
    : let step := (circuit protection).transition row event
      step.after.cooldownMs < row.cooldownMs → Step.probeSucceeded step = true := by
  intro step shorter
  rcases step_cases protection row event with ⟨closed, effect⟩ | ⟨wasOpen, effect⟩
  · rw [closedRow closed] at shorter
    exact absurd shorter (Nat.not_lt_zero _)
  · cases effect with
    | quiet _ _ _ after =>
        rw [after] at shorter
        exact absurd shorter (Nat.lt_irrefl _)
    | reopened _ _ after =>
        rw [after] at shorter
        change min (max row.cooldownMs baseCooldownMs * 2) maxCooldownMs < row.cooldownMs at shorter
        omega
    | closed _ succeeded _ => exact succeeded

/-- In every run whose clock does not go back, a closed circuit opens exactly at the third failure
in a row, its cooldown doubles with each failed probe up to five minutes and only a valid response
of the probe resets it, a refusal for a cooldown ends within the hour, no attempt is admitted
before a `Retry-After` ends unless a valid response cleared it, and the reader of the store
refuses no row.
-/
theorem circuit_cooldownLaw (protection : Protection) (events : List Event)
    (clock : events.Pairwise fun one two => one.now ≤ two.now)
    : CooldownLaw protection (steps protection events) := by
  have split {earlier : List Step} {step : Step} {later : List Step}
      (eq : steps protection events = earlier ++ step :: later)
      : ∃ first event rest,
          events = first ++ event :: rest ∧ earlier = steps protection first
          ∧ step = (circuit protection).transition (reach protection first) event :=
    (circuit protection).history_split eq
  have known {step : Step} (mem : step ∈ steps protection events)
      : ∃ first event rest,
          events = first ++ event :: rest
          ∧ step = (circuit protection).transition (reach protection first) event :=
    (circuit protection).mem_history mem
  refine ⟨?_, ?_, ?_, ?_, ?_, ?_, ?_⟩
  · intro earlier step later eq closed
    obtain ⟨first, event, rest, -, rfl, rfl⟩ := split eq
    have failures := (reach_remembers protection first).failures closed
    have few := (reach_readable protection first).1
    exact (step_closed protection closed event).opens_iff closed failures few
  · intro earlier step later eq isOpen
    obtain ⟨first, event, rest, -, rfl, rfl⟩ := split eq
    have remembered := reach_remembers protection (first ++ [event])
    rw [steps, reach, Machine.history_snoc, Machine.final_snoc] at remembered
    exact remembered.cooldown isOpen
  · intro step mem isOpen opened
    obtain ⟨first, event, rest, -, rfl⟩ := known mem
    exact step_openUntil protection _ event isOpen opened
  · intro step mem shorter
    obtain ⟨first, event, rest, -, rfl⟩ := known mem
    exact step_resets protection _ event (reach_readable protection first).2
      (reach_remembers protection first).closed shorter
  · intro step mem untilMs refused
    obtain ⟨first, event, rest, rfl, rfl⟩ := known mem
    obtain ⟨-, -, ordered⟩ := List.pairwise_append.mp clock
    have ahead := reach_ahead protection first (List.pairwise_append.mp clock).1
      fun other mem => ordered other mem event List.mem_cons_self
    obtain ⟨early, ends⟩ := refused_until refused
    refine ⟨early, ?_⟩
    rcases ends with rfl | rfl
    · exact ahead.retryAfter
    · exact ahead.openUntil.trans (Nat.add_le_add_left (by decide) _)
  · intro earlier stored between step later untilMs eq keeps admits early
    by_contra uncleared
    have none : ∀ clearing ∈ between, Step.cleared clearing = false := fun clearing mem =>
      Bool.eq_false_iff.mpr fun cleared => uncleared ⟨clearing, mem, cleared⟩
    obtain ⟨first, event, rest, whole, earlierIs, storedIs⟩ := split eq
    -- The steps behind the stored one are a run from the row that it left.
    have behind : (circuit protection).history stored.after rest = between ++ step :: later := by
      have all := eq
      rw [whole, steps, Machine.history_append, earlierIs] at all
      have tail := List.append_cancel_left all
      rw [storedIs]
      exact (List.cons.inj tail).2
    obtain ⟨middle, last, others, -, rfl, rfl⟩ := (circuit protection).history_split behind
    have stands := retryAfter_kept protection middle (stored_le keeps) none
    exact absurd early (Nat.not_lt.mpr (stands.trans (retryAfter_le_of_admits admits)))
  · intro step mem
    obtain ⟨first, event, rest, -, rfl⟩ := known mem
    have readable := reach_readable protection (first ++ [event])
    rw [reach, Machine.final_snoc] at readable
    refine ⟨readable, ?_⟩
    rintro rfl
    have within := reach_within (first ++ [event])
    rw [reach, Machine.final_snoc] at within
    exact within

/-- Three failures and a failed probe, with a `Retry-After` of two minutes. -/
theorem circuit_cooldownLaw_probe
    : let events : List Event :=
        [
          .settle ⟨0, none⟩ (.transient none) 0 .done,
          .settle ⟨0, none⟩ (.transient none) 1 .done,
          .settle ⟨0, none⟩ (.transient none) 2 .done,
          .admitRequest 30002 3000 1 0 .done,
          .settle ⟨1, some (probeTokenText 30002 1 0)⟩ (.transient (some 120000)) 30003 .done,
          .admitRequest 90003 3000 1 1 .done
        ]
      CooldownLaw .shared (steps .shared events)
      ∧ (reach .shared events).cooldownMs = 60000
      ∧ (reach .shared events).retryAfterUntilMs = 150003 := by
  intro events
  exact ⟨circuit_cooldownLaw .shared _ (by decide), by decide +kernel, by decide +kernel⟩

end SkillRanker.Breaker
