import AgentDocker.Core.Gate

/-!
# The daemon's record of verdicts

One project's verdicts as the daemon keeps them, next to all it ever recorded:
the second list is what a project without a cap would hold, and no answer of
the daemon reads it. `give` is the recording of one verdict; `codeVerdict`
numbers it first, one more than the last verdict kept.
-/

namespace AgentDocker.Daemon

open AgentDocker.Core

structure Docket where
  kept : List CodeVerdict := []
  recorded : List CodeVerdict := []
deriving DecidableEq, Repr

namespace Docket

/-- One verdict given: refused when too few of the kept ones stand for nobody,
otherwise recorded in place of those forgotten. -/
def give (cap : Nat) (d : Docket) (given : CodeVerdict) : Docket :=
  match toForget d.kept given cap with
  | none => d
  | some forget =>
    { kept := (d.kept.filter fun v => !forget.contains v.id) ++ [given]
      recorded := d.recorded ++ [given] }

/-- The place of the next verdict. -/
def nextSeq (d : Docket) : Nat :=
  ((d.kept.map (·.seq)).max?).getD 0 + 1

/-- A verdict as it is given, numbered by the daemon. -/
def codeVerdict (cap : Nat) (d : Docket) (said : CodeVerdict) : Docket :=
  d.give cap { said with seq := d.nextSeq }

end Docket

end AgentDocker.Daemon
