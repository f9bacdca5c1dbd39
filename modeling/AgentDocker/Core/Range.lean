import AgentDocker.Core.Usage
import AgentDocker.Lib.Outcomes

/-!
# The hours a usage query covers

Usage is kept by the hour, so a query over a span of time is answered from whole hours:
the span begins with the hour it begins in and ends with the one it ends in, the future is
cut off, and so is what is no longer retained.
-/

namespace AgentDocker.Core

open Lib

/-- In nanoseconds, as times are. -/
def oneHour : Time := 3600000000000

/-- A sum within the range of a `DateTime<Utc>`. -/
def checkedAdd (time duration : Time) : Option Time :=
  if -8334601228800000000000 ≤ time + duration ∧ time + duration ≤ 8210266876799999999999 then
    some (time + duration)
  else none

/-- Effective hourly bounds, and how they differ from what was asked. -/
structure Range where
  asOf : Time
  effectiveSince : Time
  effectiveUntil : Time
  retainedSince : Time
  historyTruncated : Bool
  futureUntilClamped : Bool
  includesCurrentHour : Bool
deriving DecidableEq, Repr

namespace Range

/-- Checked before it is rounded, then cut off where retention begins. -/
def new (since upTo : Option Time) (asOf retainedSince : Time) : Except String Range := do
  let since ← okOr (since.or (checkedAdd asOf (-(24 * oneHour))))
    "default usage range is out of range"
  let upTo := upTo.getD asOf
  require (decide (since < upTo) && decide (since ≤ asOf))
    "usage range must be nonempty, ordered and begin no later than now"
  require (decide (retainedSince = hour retainedSince) && decide (retainedSince ≤ hour asOf))
    "retention boundary must be a UTC hour no later than the current hour"
  let clamped := min upTo asOf
  require (decide (since < clamped)) "usage range contains no elapsed time"
  let last ← okOr (if hour clamped = clamped then some clamped
    else checkedAdd (hour clamped) oneHour) "usage upper bound overflows"
  let effectiveSince := max (hour since) retainedSince
  let effectiveUntil := max last retainedSince
  return {
    asOf, effectiveSince, effectiveUntil, retainedSince
    historyTruncated := decide (since < retainedSince)
    futureUntilClamped := decide (asOf < upTo)
    includesCurrentHour :=
      decide (effectiveSince ≤ hour asOf) && decide (hour asOf < effectiveUntil) }

end Range

end AgentDocker.Core
