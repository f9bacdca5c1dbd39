import AgentDocker.Core.Board
import AgentDocker.Lib.Walks
import Mathlib.Data.List.Destutter

/-!
# Cards

A card sits in a lane, is held by an agent or by nobody, waits on other cards and may
be part of one. Its stay in a lane begins when it is put there; the rules that have
acted on it during the stay are kept with it.

What its words are checked for (lengths, tags, links) decides whether a change is
made and nothing else: a change comes with what these checks say.
-/

namespace AgentDocker.Core

open Lib

structure TaskId where
  id : String
deriving DecidableEq, Repr

structure Task where
  id : TaskId
  project : ProjectId
  /-- Its display key; empty for a card filed before keys. -/
  key : String
  /-- The project's main board when absent. -/
  board : Option String
  column : Column
  /-- The first of its category when absent or gone. -/
  lane : Option String
  assignee : Option AgentId
  /-- Something off the board it waits on. -/
  externalBlocker : String
  /-- The card it is part of. -/
  parent : Option TaskId
  /-- Cards that must be done first. -/
  blockedBy : List TaskId
  updatedAt : Time
  archivedAt : Option Time
  laneSince : Option Time
  /-- The rules that have acted on it in this lane. -/
  fired : List String
deriving DecidableEq, Repr

inductive TaskError where
  | invalid (reason : String)
  | notYours
  | archived
  | cycle
deriving DecidableEq, Repr

def TaskError.message : TaskError → String
  | invalid reason => reason
  | notYours =>
    "only the card's assignee or the person moves it; an agent takes a card nobody holds by pulling it by name"
  | archived => "the card is archived"
  | cycle => "that would make the card wait on itself"

/-- What an update changes; an inner absence clears. -/
structure TaskEdit where
  assignee : Option (Option AgentId)
  externalBlocker : Option String
  parent : Option (Option TaskId)
  blockedBy : Option (List TaskId)
  /-- The other fields it changes, by name. -/
  others : List String

namespace Task

def blockersMax : Nat := 16

variable (t : Task)

/-- The cards it waits on or is part of. -/
def edges : List TaskId := t.parent.toList ++ t.blockedBy

def boardSlug : String := t.board.getD Board.main

/-- Its references within bounds. -/
def check : Except TaskError Unit :=
  if blockersMax < t.blockedBy.length then .error (.invalid "a card waits on at most sixteen cards")
  else if t.parent = some t.id ∨ t.id ∈ t.blockedBy then .error .cycle
  else .ok ()

/-- A new card, in the lane asked. -/
def file (id : TaskId) (project : ProjectId) (lane : Lane) (externalBlocker : String) (now : Time) :
    Task where
  id := id
  project := project
  key := ""
  board := none
  column := lane.category
  lane := some lane.slug
  assignee := none
  externalBlocker := externalBlocker
  parent := none
  blockedBy := []
  updatedAt := now
  archivedAt := none
  laneSince := some now
  fired := []

def laneOn (b : Board) : Lane := b.laneOf t.lane t.column

/-- Put it in a lane: its category comes with it, and its stay there starts now, with
no rule yet acted on it. -/
def place (lane : Lane) (now : Time) : Task :=
  { t with column := lane.category, lane := some lane.slug, laneSince := some now, fired := [] }

/-- When its stay in its lane began. -/
def inLaneSince : Time := t.laneSince.getD t.updatedAt

/-- Not ended, not archived. -/
def isOpen : Bool := t.archivedAt.isNone && !t.column.terminal

/-- Whether an agent may not change the card. -/
def notTheirs (author : String) : Bool := t.assignee.all fun a => decide (a.id ≠ author)

/-- Move it to a lane, and whether anything changed: its assignee may, and the person
always may. -/
def moveTo (author : String) (human : Bool) (lane : Lane) (now : Time) :
    Except TaskError (Bool × Task) :=
  if t.archivedAt.isSome then .error .archived
  else if !human && t.notTheirs author then .error .notYours
  else if lane.category = t.column ∧ t.lane.all (fun l => decide (l = lane.slug)) then
    -- its lane is said from now on; nothing moved
    .ok (false, { t with lane := some (t.lane.getD lane.slug) })
  else
    .ok (true, { t.place lane now with
      assignee := if human && lane.category.waiting then none else t.assignee
      updatedAt := now })

/-- The fields that differ, by name, for the record. -/
def changed (before after : Task) : List String :=
  (if after.assignee = before.assignee then [] else ["assignee"]) ++
    (if after.externalBlocker = before.externalBlocker then [] else ["external_blocker"]) ++
    (if after.parent = before.parent then [] else ["parent"]) ++
    (if after.blockedBy = before.blockedBy then [] else ["blocked_by"])

/-- Edit what the card says, with what the checks of its words say. -/
def update (author : String) (human : Bool) (edit : TaskEdit) (words : Option TaskError)
    (now : Time) : Except TaskError (List String × Task) :=
  if t.archivedAt.isSome then .error .archived
  else if !human && (edit.assignee.isSome || t.notTheirs author) then .error .notYours
  else
    let next := { t with
      assignee := edit.assignee.getD t.assignee
      externalBlocker := edit.externalBlocker.getD t.externalBlocker
      parent := edit.parent.getD t.parent
      blockedBy := (edit.blockedBy.map (List.destutter (· ≠ ·))).getD t.blockedBy }
    match words, next.check with
    | some error, _ => .error error
    | none, .error error => .error error
    | none, .ok () =>
      let fields := edit.others ++ t.changed next
      .ok (fields, if fields = [] then next else { next with updatedAt := now })

/-- Off the board: the person's to do, or the assignee's for a card that has ended. -/
def archive (author : String) (human : Bool) (now : Time) : Except TaskError Task :=
  if t.archivedAt.isSome then .ok t
  else if !human && !(t.column.terminal && t.assignee.any fun a => decide (a.id = author)) then
    .error .notYours
  else .ok { t with archivedAt := some now, updatedAt := now }

/-- Back on the board where it was: the person's to do. -/
def unarchive (human : Bool) (now : Time) : Except TaskError Task :=
  if !human then .error .notYours
  else if t.archivedAt.isSome then .ok { t with archivedAt := none, updatedAt := now }
  else .ok t

end Task

/-- Whether making `task` wait on `edges` closes a loop; the walk visits at most a few
thousand cards. -/
def closesCycle (task : TaskId) (edges : List TaskId) (next : TaskId → List TaskId) : Bool :=
  walkTo next task 4096 edges.reverse []

end AgentDocker.Core
