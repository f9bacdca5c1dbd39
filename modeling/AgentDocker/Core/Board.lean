import AgentDocker.Core.Lease

/-!
# Boards

A project's cards are on boards, and a board has lanes. Each lane is of one of a few
categories, which say what being in it means: work goes on, the card has ended, it
waits for a taker. A board has at least one lane, so every card is in one.
-/

namespace AgentDocker.Core

structure ProjectId where
  id : String
deriving DecidableEq, Repr

inductive Column where
  | backlog
  | ready
  | inProgress
  | review
  | done
  | blocked
  | cancelled
deriving DecidableEq, Repr

namespace Column

def asStr : Column → String
  | backlog => "backlog"
  | ready => "ready"
  | inProgress => "in_progress"
  | review => "review"
  | done => "done"
  | blocked => "blocked"
  | cancelled => "cancelled"

def working (c : Column) : Bool := c == inProgress || c == review

/-- Where a card ends: done, or given up. -/
def terminal (c : Column) : Bool := c == done || c == cancelled

/-- Where the person puts a card back for the next taker. -/
def waiting (c : Column) : Bool := c == backlog || c == ready

end Column

structure Lane where
  slug : String
  category : Column
deriving DecidableEq, Repr

structure Board where
  project : ProjectId
  slug : String
  lanes : List Lane
  lanes_ne : lanes ≠ []
  /-- The lane a pull puts a card in. -/
  pullTarget : String
  keyPrefix : String
  /-- The last number handed out for a key. -/
  lastKey : Nat
deriving DecidableEq

namespace Board

def main : String := "main"

def lane (b : Board) (slug : String) : Option Lane := b.lanes.find? fun l => decide (l.slug = slug)

def first (b : Board) (category : Column) : Option Lane :=
  b.lanes.find? fun l => decide (l.category = category)

/-- The lane a card is drawn in: its own when the board has it, else the first of its
category, else the first of all. -/
def laneOf (b : Board) (lane : Option String) (column : Column) : Lane :=
  (((lane.bind b.lane).filter fun l => decide (l.category = column)).or (b.first column)).getD
    (b.lanes.head b.lanes_ne)

/-- The next display key, and the counter moved on. -/
def takeKey (b : Board) : String × Board :=
  (b.keyPrefix ++ "-" ++ toString (b.lastKey + 1), { b with lastKey := b.lastKey + 1 })

end Board

end AgentDocker.Core
