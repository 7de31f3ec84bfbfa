import SkillRanker.Breaker.Leases

/-! The fence of the circuit over whole runs: one probe at a time, closed by its holder
alone and untouched by everyone else.
-/

namespace SkillRanker.Breaker

open SkillRanker.Library

variable {step : Step}

-- The invariant

/-- What ties the row to the leases of the run: a token of the row is an outstanding lease
of its generation, and every other outstanding lease has run out.
-/
structure Fence (steps : List Step) (row : Row) : Prop where
  closedRow : row.isOpen = false → row.probeToken = none
  held
    : ∀ token,
        row.probeToken = some token
        → {
            ticket := { generation := row.generation, probe := some token }
            expiresMs := row.probeExpiresMs
          } ∈ outstanding steps
  minted : ∀ lease ∈ leases steps, lease.ticket.probe.isSome
  generation
    : ∀ lease ∈ leases steps,
        lease.ticket.generation ≤ row.generation
        ∧ (row.isOpen = false → lease.ticket.generation < row.generation)
  elapsed
    : ∀ lease ∈ outstanding steps,
        lease.ticket.probe = row.probeToken
        ∨ ∀ now, (∀ step ∈ steps, step.event.now ≤ now) → lease.expiresMs ≤ now

theorem Fence.initial : Fence [] Row.default := by
  refine ⟨fun _ => rfl, ?_, ?_, ?_, ?_⟩
  · intro token held
    cases held
  all_goals
    intro lease member
    cases member

/-- A lease with the token of the row is the lease the row holds. -/
theorem Fence.holder {steps : List Step} {row : Row} (fence : Fence steps row)
    (unique : UniqueTokens steps) {lease : Lease} (member : lease ∈ leases steps)
    (token : lease.ticket.probe = row.probeToken)
    : lease.ticket.generation = row.generation
      ∧ lease.expiresMs = row.probeExpiresMs
      ∧ lease ∈ outstanding steps := by
  obtain ⟨text, minted⟩ := Option.isSome_iff_exists.mp (fence.minted lease member)
  have known := fence.held text (token.symm.trans minted)
  have same := unique.eq member ((outstanding_sublist steps).subset known) minted
  subst same
  exact ⟨rfl, rfl, known⟩

/-- A step that grants no lease and releases none keeps them all. -/
theorem leases_quiet {steps : List Step} (grantless : step.granted = none)
    : leases (steps ++ [step]) = leases steps := by
  rw [leases_snoc, grantless]
  exact List.append_nil _

theorem outstanding_quiet {steps : List Step} (grantless : step.granted = none)
    : outstanding (steps ++ [step])
      = (outstanding steps).filter (fun lease => ¬ step.Releases lease) := by
  rw [outstanding_snoc, grantless]
  exact List.append_nil _

theorem outstanding_idle {steps : List Step} (grantless : step.granted = none)
    (same : step.after = step.before)
    : outstanding (steps ++ [step]) = outstanding steps := by
  rw [outstanding_quiet grantless, List.filter_eq_self]
  intro lease _
  have kept : ¬ step.Releases lease := by
    unfold Step.Releases
    split
    · exact not_false
    · exact fun released => released.2 same
  simpa using kept

/-- Later steps only add to what a clock reading must not precede. -/
theorem reading_earlier {steps : List Step} {now : Nat}
    (late : ∀ taken ∈ steps ++ [step], taken.event.now ≤ now)
    : (∀ taken ∈ steps, taken.event.now ≤ now) ∧ step.event.now ≤ now :=
  ⟨fun taken member => late taken (List.mem_append_left _ member),
    late step (List.mem_append_right _ (List.mem_singleton.mpr rfl))⟩

-- One more step

section

variable {steps : List Step} (fence : Fence steps step.before)
include fence

/-- A step that leaves the row as it was keeps the fence. -/
theorem Fence.idle (grantless : step.granted = none) (same : step.after = step.before)
    : Fence (steps ++ [step]) step.after := by
  have kept : outstanding (steps ++ [step]) = outstanding steps :=
    outstanding_idle grantless same
  rw [same]
  refine ⟨fence.closedRow, ?_, ?_, ?_, ?_⟩
  · rw [kept]
    exact fence.held
  · rw [leases_quiet grantless]
    exact fence.minted
  · rw [leases_quiet grantless]
    exact fence.generation
  · rw [kept]
    intro lease member
    rcases fence.elapsed lease member with held | past
    · exact Or.inl held
    · exact Or.inr (fun now late => past now (reading_earlier late).1)

/-- A granted lease keeps the fence. Witness: the lease it replaces has run out. -/
theorem Fence.granted {now leaseMs process counter : Nat} {commit : Commit} {token : String}
    (unique : UniqueTokens steps)
    (call : step.event = .admitRequest now leaseMs process counter commit)
    (half : step.before.isOpen = true)
    (free : step.before.probeToken = none ∨ step.before.probeExpiresMs ≤ now)
    (row : step.after = step.before.lease token (saturatingAdd now leaseMs))
    (lease
      : step.granted
        = some
            {
              ticket := { generation := step.before.generation, probe := some token }
              expiresMs := saturatingAdd now leaseMs
            })
    : Fence (steps ++ [step]) step.after := by
  have kept : outstanding (steps ++ [step]) = outstanding steps ++ step.granted.toList := by
    rw [outstanding_snoc]
    congr 1
    rw [List.filter_eq_self]
    intro lease _
    simp [Step.Releases, call]
  have isOpen : step.after.isOpen = true := by rw [row]; exact half
  have closed : step.after.isOpen ≠ false := by simp [isOpen]
  refine ⟨fun shut => (closed shut).elim, ?_, ?_, ?_, ?_⟩
  · intro other held
    rw [row] at held ⊢
    cases held
    rw [kept, lease]
    exact List.mem_append_right _ (List.mem_singleton.mpr rfl)
  · intro other member
    rw [leases_snoc, lease] at member
    rcases List.mem_append.mp member with old | new
    · exact fence.minted other old
    · cases List.mem_singleton.mp new
      rfl
  · intro other member
    refine ⟨?_, fun shut => (closed shut).elim⟩
    rw [leases_snoc, lease] at member
    rw [row]
    rcases List.mem_append.mp member with old | new
    · exact (fence.generation other old).1
    · cases List.mem_singleton.mp new
      exact Nat.le_refl _
  · intro other member
    rw [kept, lease] at member
    rcases List.mem_append.mp member with old | new
    · refine Or.inr (fun later late => ?_)
      obtain ⟨before, current⟩ := reading_earlier late
      rcases fence.elapsed other old with held | past
      · have known := (outstanding_sublist steps).subset old
        obtain ⟨_, expires, _⟩ := fence.holder unique known held
        rcases free with none | expired
        · have minted := fence.minted other known
          rw [held, none] at minted
          cases minted
        · rw [call] at current
          exact expires ▸ Nat.le_trans expired current
      · exact past later before
    · cases List.mem_singleton.mp new
      rw [row]
      exact Or.inl rfl

/-- What a settlement must establish to keep the fence when it leaves no token behind. -/
theorem Fence.cleared (grantless : step.granted = none) (token : step.after.probeToken = none)
    (generation
      : ∀ lease ∈ leases steps,
          lease.ticket.generation ≤ step.after.generation
          ∧ (step.after.isOpen = false → lease.ticket.generation < step.after.generation))
    (freed
      : ∀ lease ∈ outstanding steps,
          lease.ticket.probe = step.before.probeToken → step.Releases lease)
    : Fence (steps ++ [step]) step.after := by
  refine ⟨fun _ => token, ?_, ?_, ?_, ?_⟩
  · intro text held
    rw [token] at held
    cases held
  · rw [leases_quiet grantless]
    exact fence.minted
  · intro lease member
    rw [leases_quiet grantless] at member
    exact generation lease member
  · intro lease member
    rw [outstanding_quiet grantless, List.mem_filter] at member
    obtain ⟨old, kept⟩ := member
    rcases fence.elapsed lease old with held | past
    · simp [freed lease old held] at kept
    · exact Or.inr (fun now late => past now (reading_earlier late).1)

theorem Fence.settled {ticket : Ticket} {outcome : Outcome} {now : Nat} {commit : Commit}
    (unique : UniqueTokens steps) (call : step.event = .settle ticket outcome now commit)
    (effect : SettleEffect step.before ticket now outcome step.after)
    : Fence (steps ++ [step]) step.after := by
  have grantless : step.granted = none := by simp only [Step.granted, call]
  have owner (probing : step.before.Probing ticket now) (changed : step.after ≠ step.before)
      : ∀ lease ∈ outstanding steps,
          lease.ticket.probe = step.before.probeToken → step.Releases lease := by
    intro lease member held
    obtain ⟨generation, _, _⟩ :=
      fence.holder unique ((outstanding_sublist steps).subset member) held
    simp only [Step.Releases, call]
    refine ⟨?_, changed⟩
    rcases ticket with ⟨number, probe⟩
    rcases lease with ⟨⟨granted, token⟩, expiresMs⟩
    cases probing.generation
    cases generation
    cases probing.token
    cases held
    rfl
  have unheld (closed : step.before.isOpen = false)
      : ∀ lease ∈ outstanding steps,
          lease.ticket.probe = step.before.probeToken → step.Releases lease := by
    intro lease member held
    have minted := fence.minted lease ((outstanding_sublist steps).subset member)
    rw [held, fence.closedRow closed] at minted
    cases minted
  obtain ⟨before, event, output, after⟩ := step
  change SettleEffect before ticket now outcome after at effect
  have different (row : Row) (generation : row.generation = before.generation + 1)
      : row ≠ before := by
    rintro rfl
    exact Nat.succ_ne_self _ generation.symm
  have advanced (row : Row) (generation : row.generation = before.generation + 1)
      : ∀ lease ∈ leases steps,
          lease.ticket.generation ≤ row.generation
          ∧ (row.isOpen = false → lease.ticket.generation < row.generation) := by
    intro lease member
    have bound := (fence.generation lease member).1
    rw [generation]
    exact ⟨Nat.le_succ_of_le bound, fun _ => Nat.lt_succ_of_le bound⟩
  cases effect with
  | kept => exact fence.idle grantless rfl
  | counted closed generation few =>
      exact fence.cleared grantless (fence.closedRow closed) fence.generation (unheld closed)
  | opened closed generation =>
      exact fence.cleared grantless rfl (advanced _ rfl) (unheld closed)
  | reopened probing capped =>
      exact fence.cleared grantless rfl (advanced _ rfl) (owner probing (different _ rfl))
  | closed probing =>
      exact fence.cleared grantless rfl (advanced _ rfl) (owner probing (different _ rfl))
  | released probing =>
      refine fence.cleared grantless rfl ?_ (owner probing ?_)
      · intro lease member
        exact ⟨(fence.generation lease member).1,
          fun shut => by cases probing.isOpen.symm.trans shut⟩
      · intro same
        have cleared : none = before.probeToken := congrArg Row.probeToken same
        have probe := probing.probe
        rw [probing.token, ← cleared] at probe
        cases probe

end

-- Whole runs

def steps (protection : Protection) (events : List Event) : List Step :=
  (circuit protection).history Row.default events

def reach (protection : Protection) (events : List Event) : Row :=
  (circuit protection).final Row.default events

/-- Every run with unique tokens keeps the fence, by induction on the run. -/
theorem fence_reach (protection : Protection) (events : List Event)
    (unique : UniqueTokens (steps protection events))
    : Fence (steps protection events) (reach protection events) := by
  have fence : UniqueTokens (steps protection events)
      → Fence (steps protection events) (reach protection events) := by
    apply (circuit protection).run_induction
      (motive := fun _ taken row => UniqueTokens taken → Fence taken row)
    · exact fun _ => Fence.initial
    · intro earlier event ih unique
      have before := ih unique.shorter
      have effect := step_effect protection
        ((circuit protection).final Row.default earlier) event
      generalize next : (circuit protection).transition _ event = step at effect unique ⊢
      have row : step.before = (circuit protection).final Row.default earlier := by
        rw [← next]
        rfl
      have after : step.after = ((circuit protection).next
          ((circuit protection).final Row.default earlier) event).1 := by
        rw [← next]
        rfl
      rw [← row] at before
      rw [← after]
      cases effect with
      | idle same none => exact before.idle none same
      | granted call half free shape lease =>
          exact before.granted unique.shorter call half free shape lease
      | settled call effect => exact before.settled unique.shorter call effect
  exact fence unique

theorem StepEffect.readable (effect : StepEffect step) (readable : step.before.Readable)
    : step.after.Readable := by
  cases effect with
  | idle same _ => exact same ▸ readable
  | granted _ _ _ row _ =>
      rw [row]
      exact readable
  | @settled ticket outcome now commit _ effect =>
      obtain ⟨before, event, output, after⟩ := step
      change SettleEffect before ticket now outcome after at effect
      cases effect with
      | kept => exact readable
      | counted _ _ few => exact ⟨few, readable.2⟩
      | opened => exact ⟨Nat.succ_pos _, show baseCooldownMs ≤ maxCooldownMs by decide⟩
      | reopened _ capped => exact ⟨Nat.succ_pos _, capped⟩
      | closed => exact ⟨Nat.succ_pos _, Nat.zero_le _⟩
      | released => exact readable

/-- The reader of the store refuses no row that a run has written. -/
theorem reach_readable (protection : Protection) (events : List Event)
    : (reach protection events).Readable :=
  (circuit protection).invariant (show Row.default.Readable by decide)
    (fun row event readable => (step_effect protection row event).readable readable) events

/-- A settlement with a ticket that no longer speaks for the circuit: of another generation,
not the unexpired probe of an open circuit, or the ticket of a lease that ran out or was
replaced.
-/
def Step.Stale (earlier : List Step) (step : Step) : Prop :=
  ∃ ticket outcome now commit,
    step.event = .settle ticket outcome now commit
    ∧ (ticket.generation ≠ step.before.generation
      ∨ step.before.isOpen = true
        ∧ (ticket.probe = none
          ∨ ticket.probe ≠ step.before.probeToken
          ∨ step.before.probeExpiresMs ≤ now)
      ∨ ∃ lease ∈ leases earlier,
          lease.ticket = ticket
          ∧ (lease.expiresMs ≤ now ∨ ticket.probe ≠ step.before.probeToken))

/-- The step is a success settled with the ticket of an outstanding unexpired lease, the one
the row holds.
-/
def Step.ClosedByHolder (earlier : List Step) (step : Step) : Prop :=
  ∃ lease ∈ outstanding earlier,
    ∃ now commit,
      step.event = .settle lease.ticket .success now commit
      ∧ now < lease.expiresMs
      ∧ lease.ticket.probe = step.before.probeToken

structure Fenced (steps : List Step) : Prop where
  /-- At any time from the last call on, at most one unreleased lease is unexpired. -/
  oneLease
    : ∀ now,
        (∀ step ∈ steps, step.event.now ≤ now)
        → ((outstanding steps).filter (fun lease => now < lease.expiresMs)).length ≤ 1
  closing
    : ∀ earlier (step : Step) later,
        steps = earlier ++ step :: later → step.Closes → step.ClosedByHolder earlier
  stale
    : ∀ earlier (step : Step) later,
        steps = earlier ++ step :: later → step.Stale earlier → step.after = step.before
  /-- The generation grows by one with each opening, reopening and closing, else it stays. -/
  generation
    : ∀ step : Step,
        step ∈ steps
        → step.after.generation = step.before.generation + 1
            ∧ (step.Opens ∨ step.Reopens ∨ step.Closes)
          ∨ step.after.generation = step.before.generation
            ∧ ¬ (step.Opens ∨ step.Reopens ∨ step.Closes)

/-- A list without duplicates whose members are all one has at most one. -/
theorem length_le_one {α : Type} {values : List α} (distinct : values.Nodup)
    (same : ∀ left ∈ values, ∀ right ∈ values, left = right)
    : values.length ≤ 1 := by
  match values, distinct, same with
  | [], _, _ => exact Nat.zero_le _
  | [_], _, _ => exact Nat.le_refl _
  | first :: second :: rest, distinct, same =>
      have eq := same first (by simp) second (by simp)
      simp [eq] at distinct

theorem Fence.oneLease {steps : List Step} {row : Row} (fence : Fence steps row)
    (unique : UniqueTokens steps) {now : Nat}
    (late : ∀ step ∈ steps, step.event.now ≤ now)
    : ((outstanding steps).filter (fun lease => now < lease.expiresMs)).length ≤ 1 := by
  have known := (outstanding_sublist steps).subset
  have held (lease : Lease) (member : lease ∈ outstanding steps)
      (unexpired : now < lease.expiresMs)
      : lease.ticket.probe = row.probeToken :=
    (fence.elapsed lease member).resolve_right
      (fun past => Nat.not_le.mpr unexpired (past now late))
  refine length_le_one ?_ ?_
  · exact ((List.Nodup.of_map _ unique).sublist (outstanding_sublist steps)).filter _
  · intro left first right second
    obtain ⟨first, live⟩ := List.mem_filter.mp first
    obtain ⟨second, also⟩ := List.mem_filter.mp second
    exact unique.eq (known first) (known second)
      ((held left first (by simpa using live)).trans
        (held right second (by simpa using also)).symm)

/-- A circuit closes through the holder of its lease alone, by the ends of a step. -/
theorem Fence.closing {steps : List Step} (fence : Fence steps step.before)
    (effect : StepEffect step) (closes : step.Closes)
    : step.ClosedByHolder steps := by
  obtain ⟨isOpen, shut⟩ := closes
  cases effect with
  | idle same none => cases isOpen.symm.trans (same ▸ shut)
  | granted call half free row lease =>
      rw [row] at shut
      cases half.symm.trans shut
  | @settled ticket outcome now commit call effect =>
      obtain ⟨before, event, output, after⟩ := step
      change SettleEffect before ticket now outcome after at effect
      change event = _ at call
      subst call
      cases effect with
      | kept => cases isOpen.symm.trans shut
      | counted closed => cases isOpen.symm.trans closed
      | opened closed => cases isOpen.symm.trans closed
      | reopened => cases shut
      | released probing => cases probing.isOpen.symm.trans shut
      | closed probing =>
          obtain ⟨token, probe⟩ := Option.isSome_iff_exists.mp probing.probe
          have held := fence.held token (probing.token.symm.trans probe)
          refine ⟨_, held, now, commit, ?_, probing.unexpired, ?_⟩
          · rcases ticket with ⟨number, text⟩
            cases probing.generation
            cases probe
            rfl
          · exact probe.symm.trans probing.token

/-- A stale settlement changes nothing, by the ends of a settlement. -/
theorem Fence.stale {steps : List Step} (fence : Fence steps step.before)
    (unique : UniqueTokens steps) (effect : StepEffect step) (stale : step.Stale steps)
    : step.after = step.before := by
  obtain ⟨ticket, outcome, now, commit, call, why⟩ := stale
  -- the ticket speaks for the row as it stands, so no reason for staleness is left
  have current (generation : ticket.generation = step.before.generation)
      (speaks
        : step.before.isOpen = false
          ∨ ticket.probe.isSome
            ∧ ticket.probe = step.before.probeToken
            ∧ now < step.before.probeExpiresMs)
      : False := by
    rcases why with other | ⟨isOpen, fenced⟩ | ⟨lease, member, rfl, gone⟩
    · exact other generation
    · rcases speaks with closed | ⟨probe, token, unexpired⟩
      · cases isOpen.symm.trans closed
      · rcases fenced with none | other | expired
        · rw [none] at probe
          cases probe
        · exact other token
        · omega
    · rcases speaks with closed | ⟨probe, token, unexpired⟩
      · have older := (fence.generation lease member).2 closed
        omega
      · obtain ⟨_, expires, _⟩ := fence.holder unique member token
        rcases gone with expired | other
        · omega
        · exact other token
  cases effect with
  | idle same none => exact same
  | granted other => cases call.symm.trans other
  | settled other effect =>
      cases call.symm.trans other
      obtain ⟨before, event, output, after⟩ := step
      change SettleEffect before ticket now outcome after at effect
      have probing (live : before.Probing ticket now) : False :=
        current live.generation (Or.inr ⟨live.probe, live.token, live.unexpired⟩)
      cases effect with
      | kept => rfl
      | counted closed generation => exact (current generation (Or.inl closed)).elim
      | opened closed generation => exact (current generation (Or.inl closed)).elim
      | reopened live => exact (probing live).elim
      | closed live => exact (probing live).elim
      | released live => exact (probing live).elim

/-- Circuit breaker fencing: in every run with unique tokens at most one unexpired lease
stands, only its holder's success closes the circuit, stale settlements change nothing and
the generation counts the openings, reopenings and closings.
-/
theorem circuit_fenced (protection : Protection) (events : List Event)
    (unique : UniqueTokens (steps protection events))
    : Fenced (steps protection events) := by
  have split {earlier : List Step} {step : Step} {later : List Step}
      (eq : steps protection events = earlier ++ step :: later)
      : UniqueTokens earlier ∧ Fence earlier step.before ∧ StepEffect step := by
    have shorter : UniqueTokens earlier := UniqueTokens.shorter (eq ▸ unique)
    obtain ⟨first, event, rest, _, rfl, rfl⟩ := (circuit protection).history_split eq
    exact ⟨shorter, fence_reach protection first shorter, step_effect protection _ event⟩
  refine ⟨fun now late => (fence_reach protection events unique).oneLease unique late,
    ?_, ?_, ?_⟩
  · intro earlier step later eq closes
    obtain ⟨_, fence, effect⟩ := split eq
    exact fence.closing effect closes
  · intro earlier step later eq stale
    obtain ⟨shorter, fence, effect⟩ := split eq
    exact fence.stale shorter effect stale
  · intro step member
    obtain ⟨earlier, later, eq⟩ := List.append_of_mem member
    exact (split eq).2.2.generation

/-- Three failures open the circuit, and its probe closes it again. -/
theorem circuit_fenced_probe
    : Fenced
        (steps .shared
          [
            .settle ⟨0, none⟩ (.transient none) 0 .done,
            .settle ⟨0, none⟩ (.transient none) 1 .done,
            .settle ⟨0, none⟩ (.transient none) 2 .done,
            .admitRequest 30002 3000 1 0 .done,
            .settle ⟨1, some (probeTokenText 30002 1 0)⟩ .success 30003 .done
          ]) :=
  circuit_fenced .shared _ (by decide +kernel)

end SkillRanker.Breaker
