import Mathlib.Data.Finset.Basic
import Mathlib.Data.List.Nodup
import SkillRanker.Library.Fallible
import SkillRanker.Primitives

/-! Advisory snoozes: which skills are withheld from one scope at a time, and the planning of
changes to them.
-/

namespace SkillRanker.Snooze

open SkillRanker.Library

variable {target : Option String} {now : Nat}

def maxSnoozes : Nat := 128

def minSnoozeMs : Nat := 60000

def maxSnoozeMs : Nat := 24 * 60 * 60000

def snoozeSchemaVersion : Nat := 1

def maxFieldBytes : Nat := 4096

inductive SnoozeError
  | malformed (why : String)
  | invalidDuration (why : String)
  | tooMany
deriving DecidableEq, Repr

/-- The workspace, session and agent branch that a snooze applies to. -/
structure SnoozeScope where
  workspaceRoot : String
  sessionId : String
  agentBranch : String
deriving DecidableEq, Repr

/-- One snooze. Without a skill it mutes every advisory candidate of its scope. -/
structure SnoozeEntry where
  eventId : String
  workspaceRoot : String
  sessionId : String
  agentBranch : String
  skillId : Option String
  createdAtUnixMs : Nat
  expiresAtUnixMs : Nat
deriving DecidableEq, Repr

inductive EntryStatus
  | active
  /-- Muted: the clock reads before the entry's creation, or is unreadable. -/
  | uncertainExpiry
  | expired
deriving DecidableEq, Repr

def EntryStatus.mutes (status : EntryStatus) : Bool := status ≠ .expired

namespace SnoozeEntry

variable (entry : SnoozeEntry)

def inScope (scope : SnoozeScope) : Bool :=
  entry.workspaceRoot = scope.workspaceRoot
    && entry.sessionId = scope.sessionId
    && entry.agentBranch = scope.agentBranch

def status : Option Nat → EntryStatus
  | none => .uncertainExpiry
  | some now =>
      if now < entry.createdAtUnixMs then .uncertainExpiry
      else if now < entry.expiresAtUnixMs then .active
      else .expired

def targetKey : String × String × String × Option String :=
  (entry.workspaceRoot, entry.sessionId, entry.agentBranch, entry.skillId)

end SnoozeEntry

structure SnoozeSet where
  entries : List SnoozeEntry
deriving DecidableEq, Repr

@[ext]
structure ScopeControls where
  all : Bool
  skills : Finset String
  uncertainExpiry : Nat
deriving DecidableEq

namespace ScopeControls

def empty : ScopeControls := { all := false, skills := ∅, uncertainExpiry := 0 }

def mutes (controls : ScopeControls) (skillId : String) : Bool :=
  controls.all || decide (skillId ∈ controls.skills)

def add (now : Option Nat) (controls : ScopeControls) (entry : SnoozeEntry) : ScopeControls :=
  let status := entry.status now
  if !status.mutes then controls
  else
    let counted :=
      if status = .uncertainExpiry then
        { controls with uncertainExpiry := controls.uncertainExpiry + 1 }
      else controls
    match entry.skillId with
    | some skill => { counted with skills := insert skill counted.skills }
    | none => { counted with all := true }

end ScopeControls

-- Snooze files

structure SnoozeFile where
  schemaVersion : Nat
  snooze : List SnoozeEntry

def checkEntries (targets : List (String × String × String × Option String))
    : List SnoozeEntry → Except SnoozeError Unit
  | [] => .ok ()
  | entry :: rest => do
      let fields :=
        [entry.eventId, entry.workspaceRoot, entry.sessionId, entry.agentBranch,
          entry.skillId.getD "-"]
      ensure (¬ fields.any fun field => field.isEmpty || field.utf8ByteSize > maxFieldBytes)
        (.malformed "empty or oversized field")
      let duration := entry.expiresAtUnixMs - entry.createdAtUnixMs
      ensure (minSnoozeMs ≤ duration ∧ duration ≤ maxSnoozeMs)
        (.malformed "duration out of range")
      ensure (entry.targetKey ∉ targets) (.malformed "two entries for one scope and target")
      checkEntries (entry.targetKey :: targets) rest

namespace SnoozeSet

def decode (parse : String → Option SnoozeFile) (text : String)
    : Except SnoozeError SnoozeSet := do
  let file ← require (parse text) (.malformed "not strict TOML")
  ensure (file.schemaVersion = snoozeSchemaVersion) (.malformed "unsupported schema_version")
  ensure (file.snooze.length ≤ maxSnoozes)
    (.malformed ("more than " ++ toString maxSnoozes ++ " entries"))
  checkEntries [] file.snooze
  return { entries := file.snooze }

def controls (set : SnoozeSet) (scope : SnoozeScope) (nowUnixMs : Option Nat)
    : ScopeControls :=
  (set.entries.filter fun entry => entry.inScope scope).foldl (ScopeControls.add nowUnixMs) .empty

end SnoozeSet

-- Planning

inductive SnoozeChange
  | snooze (eventId : String) (scope : SnoozeScope) (skillId : Option String) (durationMs : Nat)
  | clear (scope : SnoozeScope)

structure PlannedChange where
  next : SnoozeSet
  renewed : Bool
  cleared : Nat
  expiredPruned : Nat
  expiresAtUnixMs : Option Nat

def SnoozeScope.entry (scope : SnoozeScope) (eventId : String) (skillId : Option String)
    (now expires : Nat)
    : SnoozeEntry :=
  {
    eventId := eventId
    workspaceRoot := scope.workspaceRoot
    sessionId := scope.sessionId
    agentBranch := scope.agentBranch
    skillId := skillId
    createdAtUnixMs := now
    expiresAtUnixMs := expires
  }

/-- The entries that have not certainly expired. -/
def SnoozeSet.kept (set : SnoozeSet) (nowUnixMs : Nat) : List SnoozeEntry :=
  set.entries.filter fun entry => entry.status (some nowUnixMs) ≠ .expired

/-- The file after a change, without the entries that have certainly expired. -/
def plan (current : SnoozeSet) (change : SnoozeChange) (nowUnixMs : Nat)
    : Except SnoozeError PlannedChange := do
  let entries := current.kept nowUnixMs
  let expiredPruned := current.entries.length - entries.length
  match change with
  | .clear scope =>
      let others := entries.filter fun entry => !entry.inScope scope
      return {
        next := { entries := others }
        renewed := false
        cleared := entries.length - others.length
        expiredPruned := expiredPruned
        expiresAtUnixMs := none
      }
  | .snooze eventId scope skillId durationMs =>
      ensure (minSnoozeMs ≤ durationMs ∧ durationMs ≤ maxSnoozeMs)
        (.invalidDuration "outside 1m to 24h")
      let expires ← require (checkedAdd nowUnixMs durationMs)
        (.invalidDuration "clock overflow")
      let others := entries.filter fun entry =>
        !(entry.inScope scope && decide (entry.skillId = skillId))
      ensure (others.length < maxSnoozes) .tooMany
      return {
        next := { entries := others ++ [scope.entry eventId skillId nowUnixMs expires] }
        renewed := others.length ≠ entries.length
        cleared := 0
        expiredPruned := expiredPruned
        expiresAtUnixMs := some expires
      }

-- Controls

def SnoozeSet.muting (set : SnoozeSet) (scope : SnoozeScope) (now : Option Nat)
    : List SnoozeEntry :=
  set.entries.filter fun entry => entry.inScope scope && (entry.status now).mutes

/-- Entries that do not mute add nothing, by induction on the entries. -/
theorem foldl_add_filter (now : Option Nat) (entries : List SnoozeEntry)
    (controls : ScopeControls)
    : entries.foldl (ScopeControls.add now) controls
      = (entries.filter fun entry => (entry.status now).mutes).foldl (ScopeControls.add now)
          controls := by
  induction entries generalizing controls with
  | nil => rfl
  | cons entry rest ih =>
      by_cases mutes : (entry.status now).mutes = true
      · rw [List.filter_cons, if_pos mutes, List.foldl_cons, List.foldl_cons, ih]
      · rw [List.filter_cons, if_neg mutes, List.foldl_cons, ih, ScopeControls.add]
        simp [mutes]

theorem controls_eq (set : SnoozeSet) (scope : SnoozeScope) (now : Option Nat)
    : set.controls scope now
      = (set.muting scope now).foldl (ScopeControls.add now) .empty := by
  rw [SnoozeSet.controls, foldl_add_filter, List.filter_filter, SnoozeSet.muting]
  simp only [Bool.and_comm]

def ScopeControls.covers (controls : ScopeControls) : Option String → Bool
  | some skill => controls.mutes skill
  | none => controls.all

/-- Everything is muted before, or by an entry without a skill. -/
theorem all_add (now : Option Nat) (controls : ScopeControls) (entry : SnoozeEntry)
    : (controls.add now entry).all = true
      ↔ controls.all = true ∨ (entry.status now).mutes = true ∧ entry.skillId = none := by
  unfold ScopeControls.add
  dsimp only
  cases mutes : (entry.status now).mutes with
  | false => simp
  | true =>
      cases entry.skillId with
      | none => simp
      | some skill => by_cases uncertain : entry.status now = .uncertainExpiry <;> simp [uncertain]

theorem skills_add (now : Option Nat) (controls : ScopeControls) (entry : SnoozeEntry)
    (skill : String)
    : skill ∈ (controls.add now entry).skills
      ↔ skill ∈ controls.skills
        ∨ (entry.status now).mutes = true ∧ entry.skillId = some skill := by
  unfold ScopeControls.add
  dsimp only
  cases mutes : (entry.status now).mutes with
  | false => simp
  | true =>
      cases entry.skillId with
      | none => by_cases uncertain : entry.status now = .uncertainExpiry <;> simp [uncertain]
      | some other =>
          by_cases uncertain : entry.status now = .uncertainExpiry <;>
            simp [uncertain, eq_comm, or_comm]

theorem covers_iff {controls : ScopeControls}
    : controls.covers target = true
      ↔ controls.all = true ∨ ∃ skill, target = some skill ∧ skill ∈ controls.skills := by
  cases target with
  | none => simp [ScopeControls.covers]
  | some skill => simp [ScopeControls.covers, ScopeControls.mutes]

theorem covers_add {now : Option Nat} {controls : ScopeControls}
    (covered : controls.covers target = true) (entry : SnoozeEntry)
    : (controls.add now entry).covers target = true := by
  rw [covers_iff] at covered ⊢
  rcases covered with all | ⟨skill, rfl, listed⟩
  · exact .inl ((all_add now controls entry).mpr (.inl all))
  · exact .inr ⟨skill, rfl, (skills_add now controls entry skill).mpr (.inl listed)⟩

theorem covers_own (now : Option Nat) (controls : ScopeControls) {entry : SnoozeEntry}
    (mutes : (entry.status now).mutes = true)
    : (controls.add now entry).covers entry.skillId = true := by
  rw [covers_iff]
  cases target : entry.skillId with
  | none => exact .inl ((all_add now controls entry).mpr (.inr ⟨mutes, target⟩))
  | some skill =>
      exact .inr ⟨skill, rfl, (skills_add now controls entry skill).mpr (.inr ⟨mutes, target⟩)⟩

variable {entries : List SnoozeEntry}

/-- Every muting entry of the scope covers its target in the end, by induction on the entries.
-/
theorem covers_foldl {now : Option Nat} {controls : ScopeControls}
    (covered
      : controls.covers target = true
        ∨ ∃ entry ∈ entries, entry.skillId = target ∧ (entry.status now).mutes = true)
    : (entries.foldl (ScopeControls.add now) controls).covers target = true := by
  induction entries generalizing controls with
  | nil => simpa using covered
  | cons first rest ih =>
      refine ih ?_
      rcases covered with already | ⟨entry, mem, rfl, mutes⟩
      · exact .inl (covers_add already first)
      · rcases List.mem_cons.mp mem with rfl | later
        · exact .inl (covers_own now controls mutes)
        · exact .inr ⟨entry, later, rfl, mutes⟩

-- Plans

/-- A set within the limit, with one entry for each scope and target. -/
structure SnoozeSet.Bounded (set : SnoozeSet) : Prop where
  few : set.entries.length ≤ maxSnoozes
  distinct : (set.entries.map SnoozeEntry.targetKey).Nodup

theorem inScope_iff {entry : SnoozeEntry} {scope : SnoozeScope}
    : entry.inScope scope = true
      ↔ entry.workspaceRoot = scope.workspaceRoot
        ∧ entry.sessionId = scope.sessionId
        ∧ entry.agentBranch = scope.agentBranch := by
  simp [SnoozeEntry.inScope, and_assoc]

variable {other : SnoozeScope}

theorem scope_unique {entry : SnoozeEntry} {scope : SnoozeScope} (one : entry.inScope scope = true)
    (two : entry.inScope other = true)
    : scope = other := by
  obtain ⟨workspace, session, branch⟩ := inScope_iff.mp one
  obtain ⟨workspace', session', branch'⟩ := inScope_iff.mp two
  cases scope
  cases other
  simp_all

theorem expired_later {entry : SnoozeEntry} {later : Nat}
    (expired : entry.status (some now) = .expired) (after : now ≤ later)
    : entry.status (some later) = .expired := by
  simp only [SnoozeEntry.status] at *
  grind

/-- Pruning changes no controls from now on. -/
theorem muting_kept (set : SnoozeSet) (scope : SnoozeScope) {later : Nat} (after : now ≤ later)
    : SnoozeSet.muting { entries := set.kept now } scope (some later)
      = set.muting scope (some later) := by
  rw [SnoozeSet.muting, SnoozeSet.kept, List.filter_filter, SnoozeSet.muting]
  refine List.filter_congr fun entry _ => ?_
  by_cases expired : entry.status (some now) = .expired
  · simp [expired_later expired after, EntryStatus.mutes]
  · simp [expired]

def SnoozeChange.scope : SnoozeChange → SnoozeScope
  | .snooze _ scope _ _ => scope
  | .clear scope => scope

def SnoozeSet.others (set : SnoozeSet) (scope : SnoozeScope) (skillId : Option String)
    (now : Nat)
    : List SnoozeEntry :=
  (set.kept now).filter fun entry => !(entry.inScope scope && decide (entry.skillId = skillId))

/-- A planned change does what it is for, and nothing to any other scope. -/
structure Planned (current : SnoozeSet) (change : SnoozeChange) (now : Nat)
    (planned : PlannedChange)
    : Prop where
  bounded : planned.next.Bounded
  /-- The target of a snooze is muted at every time before its expiry. -/
  snoozed
    : ∀ eventId scope skillId durationMs,
        change = .snooze eventId scope skillId durationMs
        → planned.expiresAtUnixMs = some (now + durationMs)
          ∧ ∀ time < now + durationMs,
              (planned.next.controls scope (some time)).covers skillId = true
  /-- A cleared scope has no controls. -/
  cleared
    : ∀ scope, change = .clear scope → ∀ time, planned.next.controls scope time = .empty
  /-- The controls of other scopes are as before from now on. -/
  frame
    : ∀ other,
        other ≠ change.scope
        → ∀ time,
            now ≤ time
            → planned.next.controls other (some time) = current.controls other (some time)

/-- Why a change is refused: the duration of a snooze is out of range or overflows the clock, or
too many others are left.
-/
def SnoozeChange.Refused (current : SnoozeSet) (now : Nat) : SnoozeChange → Prop
  | .snooze _ scope skillId durationMs =>
      ¬ (minSnoozeMs ≤ durationMs ∧ durationMs ≤ maxSnoozeMs)
      ∨ u64Max < now + durationMs
      ∨ maxSnoozes ≤ (current.others scope skillId now).length
  | .clear _ => False

theorem SnoozeSet.Bounded.sublist {set : SnoozeSet} (bounded : set.Bounded)
    (left : entries.Sublist set.entries)
    : SnoozeSet.Bounded { entries := entries } :=
  ⟨Nat.le_trans left.length_le bounded.few, bounded.distinct.sublist (left.map _)⟩

/-- Removing entries of one scope changes no other. -/
theorem muting_others {left : List SnoozeEntry} {scope : SnoozeScope} {remove : SnoozeEntry → Bool}
    (removed : left = entries.filter fun entry => !remove entry)
    (own : ∀ entry, remove entry = true → entry.inScope scope = true) (apart : other ≠ scope)
    (now : Option Nat)
    : SnoozeSet.muting { entries := left } other now
      = SnoozeSet.muting { entries := entries } other now := by
  subst removed
  rw [SnoozeSet.muting, SnoozeSet.muting, List.filter_filter]
  refine List.filter_congr fun entry _ => ?_
  cases inOther : entry.inScope other with
  | false => simp
  | true =>
      cases gone : remove entry with
      | false => simp
      | true => exact absurd (scope_unique inOther (own entry gone)) apart

variable {current : SnoozeSet}

theorem planned_clear (bounded : current.Bounded) (scope : SnoozeScope) (now : Nat)
    : ∃ planned,
        plan current (.clear scope) now = .ok planned
        ∧ Planned current (.clear scope) now planned := by
  refine ⟨_, rfl, ?_, ?_, ?_, ?_⟩
  case refine_1 => exact bounded.sublist (List.filter_sublist.trans List.filter_sublist)
  case refine_2 =>
    intro _ _ _ _ same
    cases same
  case refine_3 =>
    intro cleared same time
    cases same
    have silent : SnoozeSet.muting
        { entries := (current.kept now).filter fun entry => !entry.inScope scope } scope time
        = [] := by
      rw [SnoozeSet.muting, List.filter_filter, List.filter_eq_nil_iff]
      intro entry _
      cases entry.inScope scope <;> simp
    rw [controls_eq, silent]
    rfl
  case refine_4 =>
    intro other apart time after
    rw [controls_eq, controls_eq, ← muting_kept current other after]
    exact congrArg _ (muting_others rfl (fun _ inScope => inScope) apart _)

variable {skillId : Option String}

theorem entry_mutes {scope : SnoozeScope} {eventId : String} {expires time : Nat}
    (before : time < expires)
    : ((scope.entry eventId skillId now expires).status (some time)).mutes = true := by
  unfold SnoozeScope.entry SnoozeEntry.status
  dsimp only
  split
  · rfl
  · rfl

theorem entry_inScope {scope : SnoozeScope} {eventId : String} {expires : Nat}
    : (scope.entry eventId skillId now expires).inScope other = true ↔ scope = other := by
  rw [inScope_iff]
  cases scope
  cases other
  simp [SnoozeScope.entry]

theorem bounded_snooze (bounded : current.Bounded) (eventId : String) (scope : SnoozeScope)
    (skillId : Option String) (expires : Nat)
    (room : (current.others scope skillId now).length < maxSnoozes)
    : SnoozeSet.Bounded
        {
          entries :=
            current.others scope skillId now ++ [scope.entry eventId skillId now expires]
        } := by
  have left : (current.others scope skillId now).Sublist current.entries :=
    List.filter_sublist.trans List.filter_sublist
  constructor
  · rw [List.length_append, List.length_singleton]
    omega
  · rw [List.map_append, List.map_singleton]
    refine List.nodup_append.mpr ⟨(bounded.sublist left).distinct, List.nodup_singleton _, ?_⟩
    intro target listed own last same
    obtain ⟨entry, mem, rfl⟩ := List.mem_map.mp listed
    rw [List.mem_singleton.mp last] at same
    simp only [SnoozeEntry.targetKey, SnoozeScope.entry, Prod.mk.injEq] at same
    obtain ⟨workspace, session, branch, skill⟩ := same
    have inScope : entry.inScope scope = true := inScope_iff.mpr ⟨workspace, session, branch⟩
    have kept := (List.mem_filter.mp mem).2
    simp [inScope, skill] at kept

theorem planned_snooze (bounded : current.Bounded) (eventId : String) (scope : SnoozeScope)
    (skillId : Option String) (durationMs now : Nat)
    (inRange : minSnoozeMs ≤ durationMs ∧ durationMs ≤ maxSnoozeMs)
    (fits : now + durationMs ≤ u64Max)
    (room : (current.others scope skillId now).length < maxSnoozes)
    : ∃ planned,
        plan current (.snooze eventId scope skillId durationMs) now = .ok planned
        ∧ Planned current (.snooze eventId scope skillId durationMs) now planned := by
  have expires : checkedAdd now durationMs = some (now + durationMs) := if_pos fits
  refine ⟨
    {
      next :=
        {
          entries :=
            current.others scope skillId now
              ++ [scope.entry eventId skillId now (now + durationMs)]
        }
      renewed := (current.others scope skillId now).length ≠ (current.kept now).length
      cleared := 0
      expiredPruned := current.entries.length - (current.kept now).length
      expiresAtUnixMs := some (now + durationMs)
    },
    ?_, ?_, ?_, ?_, ?_⟩
  case refine_1 =>
    simp only [plan]
    rw [ensure_bind inRange, expires]
    exact ensure_bind room
  case refine_2 => exact bounded_snooze bounded eventId scope skillId _ room
  case refine_3 =>
    intro _ _ _ _ same
    cases same
    refine ⟨rfl, fun time before => ?_⟩
    refine covers_foldl (.inr ⟨scope.entry eventId skillId now (now + durationMs), ?_, rfl, ?_⟩)
    · rw [List.mem_filter]
      exact ⟨List.mem_append_right _ List.mem_cons_self, entry_inScope.mpr rfl⟩
    · exact entry_mutes before
  case refine_4 =>
    intro _ same
    cases same
  case refine_5 =>
    intro other apart time after
    have outside : (scope.entry eventId skillId now (now + durationMs)).inScope other = false := by
      rw [Bool.eq_false_iff, Ne, entry_inScope]
      exact fun same => apart same.symm
    have new : SnoozeSet.muting
        {
          entries :=
            current.others scope skillId now
              ++ [scope.entry eventId skillId now (now + durationMs)]
        }
        other (some time)
        = SnoozeSet.muting { entries := current.others scope skillId now } other
            (some time) := by
      simp [SnoozeSet.muting, outside]
    rw [controls_eq, controls_eq, ← muting_kept current other after]
    refine congrArg _ (new.trans (muting_others rfl ?_ apart _))
    intro entry removed
    exact (Bool.and_eq_true_iff.mp removed).1

/-- Snooze planning: for every bounded set, change and time, the change is planned as it
should be, or is refused for a reason of its own.
-/
theorem plan_planned {current : SnoozeSet} (bounded : current.Bounded) (change : SnoozeChange)
    (now : Nat)
    : (∃ planned, plan current change now = .ok planned ∧ Planned current change now planned)
      ∨ change.Refused current now ∧ ∃ error, plan current change now = .error error := by
  cases change with
  | clear scope => exact .inl (planned_clear bounded scope now)
  | snooze eventId scope skillId durationMs =>
      by_cases inRange : minSnoozeMs ≤ durationMs ∧ durationMs ≤ maxSnoozeMs
      case neg =>
        refine .inr ⟨.inl inRange, .invalidDuration "outside 1m to 24h", ?_⟩
        simp only [plan]
        exact ensure_bind_error inRange
      by_cases fits : now + durationMs ≤ u64Max
      case neg =>
        have overflow : checkedAdd now durationMs = none := if_neg fits
        refine .inr ⟨.inr (.inl (Nat.not_le.mp fits)), .invalidDuration "clock overflow", ?_⟩
        simp only [plan]
        rw [ensure_bind inRange, overflow]
        rfl
      by_cases room : (current.others scope skillId now).length < maxSnoozes
      · exact .inl (planned_snooze bounded eventId scope skillId durationMs now inRange fits room)
      · have expires : checkedAdd now durationMs = some (now + durationMs) := if_pos fits
        refine .inr ⟨.inr (.inr (Nat.not_lt.mp room)), .tooMany, ?_⟩
        simp only [plan]
        rw [ensure_bind inRange, expires]
        exact ensure_bind_error room

def mainOf (sessionId : String) : SnoozeScope :=
  { workspaceRoot := "/w", sessionId := sessionId, agentBranch := "main" }

/-- A target of the scope that is still muted, an expired one, and one of another scope. -/
def standingSet : SnoozeSet where
  entries :=
    [(mainOf "s1").entry "first" (some "deploy") 4000000 6000000,
      (mainOf "s1").entry "gone" (some "lint") 1000000 2000000,
      (mainOf "s2").entry "other" none 4900000 8000000]

/-- A muted skill is muted for another hour: the expired entry goes, and the other scope stays. -/
theorem plan_planned_renewal
    : ∃ planned,
        plan standingSet (.snooze "again" (mainOf "s1") (some "deploy") 3600000) 5000000
          = .ok planned
        ∧ Planned standingSet (.snooze "again" (mainOf "s1") (some "deploy") 3600000) 5000000
          planned
        ∧ planned.renewed = true
        ∧ planned.expiredPruned = 1
        ∧ planned.next.entries
          = [(mainOf "s2").entry "other" none 4900000 8000000,
            (mainOf "s1").entry "again" (some "deploy") 5000000 8600000] := by
  have bounded : standingSet.Bounded := ⟨by decide, by decide⟩
  have accepted := (plan_planned bounded
    (.snooze "again" (mainOf "s1") (some "deploy") 3600000) 5000000).resolve_right (by
      rintro ⟨range | overflow | full, _⟩
      · exact range (by decide)
      · exact absurd overflow (by decide)
      · exact absurd full (by decide))
  obtain ⟨planned, made, does⟩ := accepted
  have written
      : (plan standingSet (.snooze "again" (mainOf "s1") (some "deploy") 3600000) 5000000).map
          (fun planned => (planned.renewed, planned.expiredPruned, planned.next.entries))
        = .ok
            (true, 1,
              [(mainOf "s2").entry "other" none 4900000 8000000,
                (mainOf "s1").entry "again" (some "deploy") 5000000 8600000]) := by
    decide +kernel
  rw [made] at written
  have parts := Except.ok.inj written
  simp only [Prod.mk.injEq] at parts
  obtain ⟨renewed, pruned, entries⟩ := parts
  exact ⟨planned, made, does, renewed, pruned, entries⟩

end SkillRanker.Snooze
