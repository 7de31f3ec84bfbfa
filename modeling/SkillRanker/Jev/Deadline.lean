import SkillRanker.Library.Fallible
import SkillRanker.Primitives

/-! The deadline of one invocation, measured in milliseconds from its entry. Work stops at
the cleanup reserve, before the deadline itself.
-/

namespace SkillRanker.Jev

open SkillRanker.Library

/-- Why a deadline cannot be built, or no work may start under it. -/
inductive LimitError
  | zeroIsNotUnlimited (name : String)
  | invalidDeadlineReserve (totalMs cleanupReserveMs : Nat)
  | arithmeticOverflow (name : String)
  | deadlineBeforeStart (nowMs startMs : Nat)
  | deadlineExpired (nowMs expiresMs : Nat)
  | deadlineInCleanupReserve (nowMs latestWorkMs expiresMs : Nat)
deriving DecidableEq, Repr

/-- A validated deadline: a positive reserve within the total, ending within the clock. -/
structure InvocationDeadline where
  start : Nat
  total : Nat
  cleanupReserve : Nat
  reserve_pos : 0 < cleanupReserve
  reserve_lt : cleanupReserve < total
  ends : start + total ≤ u64Max
deriving DecidableEq

def InvocationDeadline.new (start total cleanupReserve : Nat)
    : Except LimitError InvocationDeadline :=
  if total = 0 then .error (.zeroIsNotUnlimited "invocation_deadline_total")
  else if reserved : cleanupReserve = 0 then .error (.zeroIsNotUnlimited "cleanup_reserve")
  else if within : total ≤ cleanupReserve then
    .error (.invalidDeadlineReserve total cleanupReserve)
  else if ends : start + total ≤ u64Max then
    .ok
      {
        start := start
        total := total
        cleanupReserve := cleanupReserve
        reserve_pos := Nat.pos_of_ne_zero reserved
        reserve_lt := Nat.not_le.mp within
        ends := ends
      }
  else .error (.arithmeticOverflow "invocation_deadline_end")

def defaultInvocationDeadlineMs : Nat := 3000

def defaultOutputCleanupReserveMs : Nat := 200

/-- `default_from_start` at the entry of an invocation. -/
def InvocationDeadline.default : InvocationDeadline :=
  {
    start := 0
    total := defaultInvocationDeadlineMs
    cleanupReserve := defaultOutputCleanupReserveMs
    reserve_pos := by decide
    reserve_lt := by decide
    ends := by decide
  }

namespace InvocationDeadline

variable (deadline : InvocationDeadline)

def expiresAt : Nat := deadline.start + deadline.total

def latestWorkTime : Nat := deadline.expiresAt - deadline.cleanupReserve

/-- The time left for work at `now`. -/
def remainingBeforeCleanup (now : Nat) : Nat :=
  if now < deadline.start then 0 else deadline.latestWorkTime - now

def ensureCanStartWork (now : Nat) : Except LimitError Unit := do
  ensure (deadline.start ≤ now) (.deadlineBeforeStart now deadline.start)
  ensure (now < deadline.expiresAt) (.deadlineExpired now deadline.expiresAt)
  ensure (now < deadline.latestWorkTime)
    (.deadlineInCleanupReserve now deadline.latestWorkTime deadline.expiresAt)

/-- `EntryClock::admit_new_work`, at the reading `now`. -/
def admitNewWork (now : Nat) : Except LimitError Nat := do
  deadline.ensureCanStartWork now
  return now

end InvocationDeadline

end SkillRanker.Jev
