import AgentDocker.Core.BoardRule
import AgentDocker.Lib.StableSort
import Mathlib.Data.String.Basic

/-!
# The daemon's cards

Cards are documents of the store. Filing takes a batch, all or none; an update edits
one card; a move puts one in another lane. Each reads the project's cards, works out
the new card and writes it in one commit.

`trace` is not the daemon's: it notes, in the order they are committed, when a card
is placed in a lane and when a rule acts on one.
-/

namespace AgentDocker.Daemon

open AgentDocker.Core Lib

/-- Who asks, and whether it is the person. -/
structure Actor where
  id : String
  human : Bool
deriving DecidableEq, Repr

inductive Mark where
  | placed (task : TaskId)
  | fired (rule : String) (task : TaskId)
deriving DecidableEq, Repr

/-- An agent being started on a card. -/
structure Starting where
  task : TaskId
  /-- The rule that asked; the person when absent. -/
  rule : Option String
  /-- The agent is launched; the card is marked a moment longer. -/
  launched : Bool
deriving DecidableEq, Repr

structure Tasks where
  cards : Keyed Task.id
  boards : List Board
  /-- The board a project has before anybody shapes it. -/
  defaultBoard : ProjectId → Board
  rules : Keyed BoardRule.id
  /-- The rules that started the agents that are live, one an agent. -/
  live : List String
  /-- The cards an agent is being started on. -/
  starting : Keyed Starting.task
  trace : List Mark

namespace Tasks

/-- How many cards of a project are read. -/
def projectCardsMax : Nat := 20000

variable (s : Tasks)

/-- Every card of a project, archived ones too, in the order of their ids. -/
def projectCards (project : ProjectId) : List Task :=
  (sortBy (fun t => t.id.id)
    (s.cards.rows.filter fun t => decide (t.project = project))).take projectCardsMax

def projectBoards (project : ProjectId) : List Board :=
  let stored := s.boards.filter fun b => decide (b.project = project)
  if stored.any fun b => decide (b.slug = Board.main) then stored
  else stored ++ [s.defaultBoard project]

def board (project : ProjectId) (slug : String) : Option Board :=
  (s.projectBoards project).find? fun b => decide (b.slug = slug)

def boardOf (t : Task) : Option Board := s.board t.project t.boardSlug

/-- A board written over the one of its project and slug. -/
def putBoard (b : Board) : Tasks :=
  { s with boards :=
      s.boards.filter (fun b' => !(decide (b'.project = b.project) &&
        decide (b'.slug = b.slug))) ++ [b] }

/-- A card written, with what the commit says of it. -/
def commit (t : Task) (marks : List Mark) : Tasks :=
  { s with cards := s.cards.insert t, trace := s.trace ++ marks }

/-! ## References among cards -/

def eqIgnoreAsciiCase (a b : String) : Bool :=
  decide (a.toList.map Char.toLower = b.toList.map Char.toLower)

/-- The card some words name: its id or its key, else the one card whose id they
begin. -/
def resolveCard (cards : List Task) (words : String) : Except String TaskId :=
  match cards.find? fun t =>
      decide (t.id.id = words) || (decide (t.key ≠ "") && eqIgnoreAsciiCase t.key words) with
  | some found => .ok found.id
  | none =>
    match cards.filter fun t =>
        decide (4 ≤ words.utf8ByteSize) && words.toList.isPrefixOf t.id.id.toList with
    | [one] => .ok one.id
    | [] => .error ("no card of this project matches " ++ words)
    | _ => .error ("more than one card matches " ++ words ++ "; give more of the id")

/-- The edges of the first card of an id. -/
def edgesIn (cards : List Task) (id : TaskId) : List TaskId :=
  ((cards.find? fun t => decide (t.id = id)).map Task.edges).getD []

/-- References resolved one by one, each card once. -/
def resolveBlockers (cards : List Task) : List String → List TaskId → Except String (List TaskId)
  | [], blockers => .ok blockers
  | words :: rest, blockers =>
    match resolveCard cards words with
    | .error message => .error message
    | .ok id => resolveBlockers cards rest (if id ∈ blockers then blockers else blockers ++ [id])

/-- The card words name, when there are any. -/
def resolveParent (cards : List Task) (words : Option String) : Except String (Option TaskId) :=
  match words.filter fun w => decide (w ≠ "") with
  | none => .ok none
  | some words => (resolveCard cards words).map some

/-- The cards a card would wait on or be part of; refused when one is unknown or the
edges would close a loop. -/
def cardEdges (task : TaskId) (cards : List Task) (parent : Option String)
    (blockedBy : List String) : Except String (Option TaskId × List TaskId) :=
  match resolveParent cards parent, resolveBlockers cards blockedBy [] with
  | .error message, _ => .error message
  | .ok _, .error message => .error message
  | .ok parent, .ok blockers =>
    if closesCycle task (parent.toList ++ blockers) (edgesIn cards) then
      .error TaskError.cycle.message
    else .ok (parent, blockers)

/-! ## Filing -/

/-- A card to file: the id it gets, the lane its words name, and what the checks of
its words, lane and plan say. -/
structure NewCard where
  id : TaskId
  reference : Option String
  lane : Lane
  externalBlocker : String
  parent : Option String
  blockedBy : List String
  problem : Option String

structure Filing where
  project : ProjectId
  board : String
  cards : List NewCard

def batchMax : Nat := 50

/-- The cards of a batch as they are made up. -/
structure Draft where
  /-- The project's main board, whose counter numbers its cards. -/
  counter : Board
  problems : List String
  filed : List Task
  /-- The references cards of the batch go by, the last use of each first. -/
  ids : List (String × TaskId)

def labelFor (card : NewCard) (index : Nat) : String :=
  card.reference.getD ("card " ++ toString (index + 1))

def Draft.add (filing : Filing) (now : Time) (d : Draft) (card : NewCard × Nat) : Draft :=
  let label := labelFor card.1 card.2
  match card.1.problem with
  | some problem => { d with problems := d.problems ++ [label ++ ": " ++ problem] }
  | none =>
    let task := { Task.file card.1.id filing.project card.1.lane card.1.externalBlocker now with
      key := d.counter.takeKey.1
      board := if filing.board = Board.main then none else some filing.board }
    { counter := d.counter.takeKey.2
      filed := d.filed ++ [task]
      problems :=
        if card.1.reference.any fun r => (d.ids.lookup r).isSome then
          d.problems ++ [label ++ ": two cards in the batch use this ref"]
        else d.problems
      ids := (card.1.reference.map fun r => (r, card.1.id)).toList ++ d.ids }

/-- The first card of an id gets its edges. -/
def setEdges (id : TaskId) (parent : Option TaskId) (blockedBy : List TaskId) :
    List Task → List Task
  | [] => []
  | t :: rest =>
    if t.id = id then { t with parent, blockedBy } :: rest
    else t :: setEdges id parent blockedBy rest

/-- The batch with its references followed, beside the cards of the project. -/
structure Links where
  problems : List String
  filed : List Task
  everything : List Task

/-- A reference of the batch stands for the id it was given. -/
def toReference (ids : List (String × TaskId)) (words : String) : String :=
  (ids.lookup words).elim words (·.id)

def Links.add (ids : List (String × TaskId)) (l : Links) (card : NewCard × Nat) : Links :=
  match l.problems with
  | _ :: _ => l
  | [] =>
    match cardEdges card.1.id l.everything (card.1.parent.map (toReference ids))
        (card.1.blockedBy.map (toReference ids)) with
    | .error message =>
      { l with problems := [labelFor card.1 card.2 ++ ": " ++ message] }
    | .ok (parent, blockedBy) =>
      { l with
        filed := setEdges card.1.id parent blockedBy l.filed
        everything := setEdges card.1.id parent blockedBy l.everything }

/-- A batch made up against the cards there are: the counter it leaves and the cards
it files, or its problems. -/
def draft (filing : Filing) (counter : Board) (now : Time) : Except String (Board × List Task) :=
  let cards := filing.cards.zipIdx
  let d := cards.foldl (Draft.add filing now) ⟨counter, [], [], []⟩
  match d.problems with
  | _ :: _ => .error ("; ".intercalate d.problems)
  | [] =>
    let l := cards.foldl (Links.add d.ids) ⟨[], d.filed, s.projectCards filing.project ++ d.filed⟩
    match l.problems with
    | _ :: _ => .error ("; ".intercalate l.problems)
    | [] => .ok (d.counter, l.filed)

/-- File one card or a batch, all or none. -/
def fileCards (filing : Filing) (now : Time) (lands : Bool) : Except String (List Task × Tasks) :=
  if filing.cards = [] then .error "file at least one card"
  else if batchMax < filing.cards.length then .error "a batch is at most fifty cards"
  else
    match s.board filing.project filing.board, s.board filing.project Board.main with
    | some _, some counter =>
      match s.draft filing counter now with
      | .error problems => .error problems
      | .ok (counter, filed) =>
        if lands then
          .ok (filed, filed.foldl (fun s t => s.commit t [.placed t.id]) (s.putBoard counter))
        else .error "the card was not recorded"
    | _, _ => .error ("no board is called " ++ filing.board)

/-! ## Updates -/

/-- What an update asks for, and what the checks of everything else it asks for
say. -/
structure Change where
  parent : Option String
  blockedBy : Option (List String)
  assignee : Option (Option AgentId)
  externalBlocker : Option String
  others : List String
  expectedUpdatedAt : Option Time
  words : Option TaskError
  refusal : Option String

/-- The edges an update leaves, worked out when it says anything of them. -/
def changedEdges (t : Task) (change : Change) :
    Except String (Option (Option TaskId) × Option (List TaskId)) :=
  if change.parent.isSome ∨ change.blockedBy.isSome then
    match cardEdges t.id (s.projectCards t.project) (change.parent.or (t.parent.map (·.id)))
        (change.blockedBy.getD (t.blockedBy.map (·.id))) with
    | .error message => .error message
    | .ok (parent, blockers) =>
      .ok (change.parent.map fun words => if words = "" then none else parent,
        change.blockedBy.map fun _ => blockers)
  else .ok (none, none)

variable (actor : Actor) (id : TaskId)

def taskUpdate (change : Change) (now : Time) (lands : Bool) : Except String Tasks :=
  match s.cards.get? id, change.refusal with
  | none, _ => .error "no card matches"
  | some _, some refusal => .error refusal
  | some t, none =>
    if change.expectedUpdatedAt.any fun seen => decide (seen ≠ t.updatedAt) then
      .error "it changed since it was read; read it again and redo the edit"
    else
      match s.changedEdges t change with
      | .error message => .error message
      | .ok (parent, blockedBy) =>
        match t.update actor.id actor.human
            ⟨change.assignee, change.externalBlocker, parent, blockedBy, change.others⟩
            change.words now with
        | .error error => .error error.message
        | .ok (fields, next) =>
          if fields = [] then .ok s
          else if lands then .ok (s.commit next [])
          else .error "the card was not recorded"

/-! ## Moves and the archive -/

/-- A card moved to the lane its words name, and the card when it came into it; its
place among the lane's cards may change too, and words may be said with it. -/
def moveCard (lane : Lane) (reranked said : Bool) (now : Time)
    (lands : Bool) : Except String (Option Task × Tasks) :=
  match s.cards.get? id with
  | none => .error "no card matches"
  | some t =>
    match t.moveTo actor.id actor.human lane now with
    | .error error => .error error.message
    | .ok (moved, next) =>
      -- where it was asked to go is where it is: nothing changes
      if !moved && !reranked && !said then .ok (none, s)
      else if lands then
        let next := if reranked || moved then { next with updatedAt := now } else next
        .ok (if moved then some next else none, s.commit next (if moved then [.placed id] else []))
      else .error "the card was not recorded"

def taskArchive (now : Time) (lands : Bool) : Except String Tasks :=
  match s.cards.get? id with
  | none => .error "no card matches"
  | some t =>
    match t.archive actor.id actor.human now with
    | .error error => .error error.message
    | .ok next =>
      if t.archivedAt.isSome then .ok s
      else if lands then .ok (s.commit next [])
      else .error "the card was not recorded"

def taskUnarchive (now : Time) (lands : Bool) : Except String Tasks :=
  match s.cards.get? id with
  | none => .error "no card matches"
  | some t =>
    match t.unarchive actor.human now with
    | .error error => .error error.message
    | .ok next =>
      if t.archivedAt.isNone then .ok s
      else if lands then .ok (s.commit next [])
      else .error "the card was not recorded"

end Tasks

end AgentDocker.Daemon
