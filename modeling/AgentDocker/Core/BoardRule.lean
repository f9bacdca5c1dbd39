import AgentDocker.Core.Task

/-!
# Rules on a board

When a card comes into a lane, or has sat in one for some days, a rule comments on
it, moves it, archives it, or starts an agent on it. Whether and when a rule acts is
here; what it does is the daemon's.
-/

namespace AgentDocker.Core

inductive Trigger where
  /-- A card comes into the lane, by any move but a rule's. -/
  | enter (lane : String)
  /-- A card has been in the lane this many days. -/
  | idle (lane : String) (days : Nat)
deriving DecidableEq, Repr

def Trigger.lane : Trigger → String
  | .enter lane | .idle lane _ => lane

inductive RuleAction where
  | comment (text : String)
  | move (lane : String)
  | archive
  /-- Start an agent on the card, at most `max` of this rule's at once. -/
  | start (runtime : String) (args : List String) (max : Nat)
deriving DecidableEq, Repr

def commentChars : Nat := 4000

/-- What a comment says is checked, without the space around it. -/
def checkBody (body : String) : Except TaskError Unit :=
  if body.length = 0 then .error (.invalid "a comment needs words")
  else if commentChars < body.length then
    .error (.invalid "a comment is at most 4000 characters")
  else .ok ()

/-- A rule of a board, its words checked when it was made. -/
structure BoardRule where
  id : String
  project : ProjectId
  board : String
  name : String
  trigger : Trigger
  action : RuleAction
  enabled : Bool
  words : ∀ text, action = .comment text → checkBody text = .ok ()
deriving DecidableEq

namespace BoardRule

variable (r : BoardRule) (t : Task)

/-- The card is on the rule's board and the rule has not acted on it this stay. -/
def awaits : Bool :=
  r.enabled && t.archivedAt.isNone && decide (t.boardSlug = r.board) && !t.fired.contains r.id

/-- Whether the rule acts on a card that just came into `lane` by a move that was
not a rule's. -/
def onEnter (lane : String) : Bool :=
  r.awaits t && decide (r.trigger = .enter lane)

/-- A day, in nanoseconds. -/
def day : Int := 86400000000000

/-- Whether an idle rule is due on a card that sits in `lane`: in it for its days, and
not yet acted on this stay. -/
def idleDue (lane : String) (now : Time) : Bool :=
  match r.trigger with
  | .enter _ => false
  | .idle l days => r.awaits t && decide (l = lane) && decide (days * day ≤ now - t.inLaneSince)

end BoardRule

/-- A card an agent may be started on: one nobody holds, still to do, waiting on
nothing. -/
def startable (t : Task) (openBlocker : TaskId → Bool) : Bool :=
  t.assignee.isNone && t.archivedAt.isNone && !t.column.terminal &&
    decide (t.externalBlocker = "") && !t.blockedBy.any openBlocker

end AgentDocker.Core
