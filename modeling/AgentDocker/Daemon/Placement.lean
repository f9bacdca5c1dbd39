import AgentDocker.Core.Rank
import AgentDocker.Core.Shape
import AgentDocker.Daemon.Rules
import AgentDocker.Lib.Runs
import Mathlib.Data.Prod.Lex

/-!
# Where cards stand

A lane's cards stand in the order of their ranks, then of when they were filed.
A card filed goes to the end of its lane, and so does one that comes into
another; one put beside a card gets a rank between that card's and its
neighbour's. Archiving leaves the rank as it is, and so does the board when it
gets other lanes.

`Placed` keeps, beside the cards, what their order is made of and which lane of
each board agents pull from. A request comes with what its other checks say:
whether the caller's hold on the card has lapsed, and what the leases on it are.
-/

namespace AgentDocker.Core

open Lib

/-- What a lane's order is made of. -/
structure Places where
  rank : TaskId → String
  createdAt : TaskId → Time

namespace Places

/-- Board order: a card's rank, then when it was filed, then its id. -/
def key (p : Places) (t : Task) : String ×ₗ Time ×ₗ String :=
  toLex (p.rank t.id, toLex (p.createdAt t.id, t.id.id))

def order (p : Places) (cards : List Task) : List Task := sortBy p.key cards

end Places

/-- What a pull with no card named found in the pull source. -/
structure Pick where
  card : Option Task
  total : Nat
  held : Nat
  blocked : Nat
deriving DecidableEq

section

variable (caller : AgentId) (openBlocker : TaskId → Bool)

def Pick.look (pick : Pick) (t : Task) : Pick :=
  let pick := { pick with total := pick.total + 1 }
  if t.assignee.any fun a => decide (a ≠ caller) then { pick with held := pick.held + 1 }
  else if decide (t.externalBlocker ≠ "") || t.blockedBy.any openBlocker then
    { pick with blocked := pick.blocked + 1 }
  else { pick with card := pick.card.or (some t) }

/-- The card an agent pulls when it names none: the first in the pull source, in board
order, that is free or already the caller's and is not blocked. -/
def Board.nextReady (b : Board) (source : String) (p : Places) (cards : List Task)
    (caller : AgentId) (openBlocker : TaskId → Bool) : Pick :=
  (p.order (cards.filter fun t => t.archivedAt.isNone && decide ((t.laneOn b).slug = source))).foldl
    (Pick.look caller openBlocker) ⟨none, 0, 0, 0⟩

/-- Whether an agent that names no card may take this one: it is free or already the
caller's, and waits on nothing. -/
def Task.takeable (t : Task) : Bool :=
  !(t.assignee.any fun a => decide (a ≠ caller)) &&
    !(decide (t.externalBlocker ≠ "") || t.blockedBy.any openBlocker)

theorem Pick.look_card (pick : Pick) (t : Task) : (pick.look caller openBlocker t).card =
      if t.takeable caller openBlocker then pick.card.or (some t) else pick.card := by
  unfold look Task.takeable
  split
  · next hheld => rw [hheld, Bool.not_true, Bool.false_and, if_neg Bool.false_ne_true]
  next hfree =>
  rw [Bool.not_eq_true] at hfree
  split
  · next hblocked => rw [hfree, hblocked, Bool.not_true, Bool.and_false, if_neg Bool.false_ne_true]
  next hopen =>
  rw [Bool.not_eq_true] at hopen
  rw [hfree, hopen, Bool.not_false, Bool.and_true, if_pos rfl]

/-- Of the cards looked at, the first that may be taken is picked. -/
theorem Pick.foldl_look_card (cards : List Task)
    (pick : Pick) : (cards.foldl (look caller openBlocker) pick).card =
      pick.card.or (cards.find? (Task.takeable caller openBlocker)) := by
  induction cards generalizing pick with
  | nil => simp
  | cons _ _ ih =>
    rw [List.foldl_cons, ih, look_card, List.find?_cons]
    split <;> simp_all

end

inductive PullError where
  | archived
  | taken (assignee : Option AgentId) (column : Column)
  | invalid (reason : String)
deriving DecidableEq, Repr

/-- An agent takes a card nobody else holds. One it looks for must be in the board's
pull source; one it names may sit in any open lane. -/
def Task.pull (t : Task) (agent : AgentId) (b : Board) (source : String) (named : Bool)
    (now : Time) : Except PullError Task := do
  let inSource := decide ((t.laneOn b).slug = source)
  require t.archivedAt.isNone .archived
  -- in the source a card still naming the caller is theirs to pull again
  require ((inSource || (named && t.isOpen)) &&
    t.assignee.all fun holder => decide (holder = agent) && inSource) (.taken t.assignee t.column)
  require (decide (t.externalBlocker = "")) (.invalid "the card waits on something off the board")
  let placed := if inSource || !t.column.working then
      -- a checked board has its pull target
      (b.lane b.pullTarget).elim t fun target => t.place target now
    else t
  pure { placed with assignee := some agent, updatedAt := now }

/-- Recovery of a card whose holder's lease lapsed, by name. -/
def Task.takeOver (t : Task) (agent holder : AgentId) (now : Time) : Except PullError Task := do
  require t.archivedAt.isNone .archived
  require (t.column.working && decide (t.assignee = some holder)) (.taken t.assignee t.column)
  pure { t with assignee := some agent, updatedAt := now }

end AgentDocker.Core

namespace AgentDocker.Daemon

open AgentDocker.Core Lib

structure Placed extends Places where
  tasks : Tasks
  /-- The lane of a project's board that agents pull from. -/
  pullSource : ProjectId → String → String

namespace Placed

variable (p : Places) (s : Placed)

/-- A lane's cards in board order. -/
def inLane (cards : List Task) (b : Board) (lane : String) : List Task :=
  p.order (cards.filter fun t =>
    t.archivedAt.isNone && decide (t.boardSlug = b.slug) && decide ((t.laneOn b).slug = lane))

/-- A rank at the end of a lane. -/
def rankLast (cards : List Task) (b : Board) (lane : String) (skip : TaskId) : String :=
  Rank.between ((((inLane p cards b lane).reverse.find? fun t => decide (t.id ≠ skip)).map
    fun t => p.rank t.id).filter fun r => decide (r ≠ "")) none

def setRank (id : TaskId) (rank : String) : Places :=
  { p with rank := Function.update p.rank id rank }

/-! ## Filing -/

/-- The ranks of a batch as they are handed out: the last one of each lane, and all of
them. -/
structure Ranking where
  last : List (String × String)
  places : Places

/-- A card filed at the end of its lane, behind those of the batch before it. -/
def Ranking.add (existing : List Task) (b : Board) (now : Time) (r : Ranking) (t : Task) :
    Ranking :=
  let lane := t.lane.getD ""
  let before := (r.last.lookup lane).or (((inLane p existing b lane).getLast?.map
    fun t => p.rank t.id).filter fun r => decide (r ≠ ""))
  let rank := Rank.between before none
  { last := (lane, rank) :: r.last
    places := ⟨Function.update r.places.rank t.id rank,
      Function.update r.places.createdAt t.id now⟩ }

def taskFile (filing : Tasks.Filing) (now : Time) (lands : Bool) : Except String Placed :=
  match s.tasks.board filing.project filing.board with
  | none => .error ("no board is called " ++ filing.board)
  | some b =>
    match s.tasks.fileCards filing now lands with
    | .error message => .error message
    | .ok (filed, tasks) =>
      let r := filed.foldl
        (Ranking.add s.toPlaces (s.tasks.projectCards filing.project) b now) ⟨[], s.toPlaces⟩
      .ok { s with toPlaces := r.places, tasks := tasks }

/-! ## Moves -/

/-- A move as it is asked for: to a lane, to a category, or beside a card. -/
structure Move where
  actor : Actor
  id : TaskId
  /-- The lane its words name. -/
  lane : Option Lane
  column : Option Column
  after : Option TaskId
  before : Option TaskId
  said : Bool
  /-- What the caller's hold on the card says. -/
  refusal : Option String
  now : Time
  lands : Bool

/-- Where to: a lane named, a category, or beside a card named. -/
def destination (b : Board) (m : Move) (beside : Option Task) : Except String Lane :=
  match m.lane, m.column, beside with
  | some lane, _, _ =>
    if lane ∈ b.lanes then .ok lane else .error ("no lane is called " ++ lane.slug)
  | none, some column, _ =>
    match b.first column with
    | some lane => .ok lane
    | none => .error ("no lane is called " ++ column.asStr)
  | none, none, some t => .ok (t.laneOn b)
  | none, none, none => .error "say where: a lane, or a card to sit beside"

/-- The card a reference names, when there is one. -/
def neighbour (id : Option TaskId) : Except String (Option Task) :=
  match id with
  | none => .ok none
  | some id =>
    match s.tasks.cards.get? id with
    | none => .error "no card matches"
    | some t => .ok (some t)

/-- A rank after a card, among the others of the lane. -/
def rankAfter (others : List Task) (x : Task) : String :=
  let next := (others.findIdx? fun t => decide (t.id = x.id)).bind fun i => others[i + 1]?
  Rank.between (some (p.rank x.id)) (next.map fun t => p.rank t.id)

/-- A rank before a card, among the others of the lane. -/
def rankBefore (others : List Task) (x : Task) : String :=
  let previous := (others.findIdx? fun t => decide (t.id = x.id)).bind fun i =>
    if i = 0 then none else others[i - 1]?
  Rank.between (previous.map fun t => p.rank t.id) (some (p.rank x.id))

/-- A card's place in the lane it is moved to: beside the card named, else the end of a
lane it has just come into. -/
def rankNow (cards : List Task) (b : Board) (lane : Lane) (t : Task) (moved : Bool)
    (after before : Option Task) : Option String :=
  let others := (inLane p cards b lane.slug).filter fun o => decide (o.id ≠ t.id)
  match after, before with
  | some x, _ => some (rankAfter p others x)
  | none, some x => some (rankBefore p others x)
  | none, none =>
    if moved || decide (p.rank t.id = "") then some (rankLast p cards b lane.slug t.id) else none

def taskMove (m : Move) : Except String Placed := do
  let some t := s.tasks.cards.get? m.id | .error "no card matches"
  require m.refusal.isNone (m.refusal.getD "")
  let some b := s.tasks.boardOf t | .error ("no board is called " ++ t.boardSlug)
  let after ← s.neighbour m.after
  let before ← s.neighbour m.before
  let lane ← destination b m (after.or before)
  match t.moveTo m.actor.id m.actor.human lane m.now with
  | .error error => .error error.message
  | .ok (moved, _) =>
    let rank := rankNow s.toPlaces (s.tasks.projectCards t.project) b lane t moved after before
    let reranked := rank.any fun r => decide (r ≠ s.rank t.id)
    match s.tasks.moveCard m.actor m.id lane reranked m.said m.now m.lands with
    | .error message => .error message
    | .ok (_, tasks) =>
      .ok { s with
        toPlaces := setRank s.toPlaces t.id (rank.getD (s.rank t.id))
        tasks := tasks }

def withTasks (result : Except String Tasks) : Except String Placed :=
  result.map fun tasks => { s with tasks := tasks }

/-! ## The board's shape -/

def boardUpdate (actor : Actor) (project : ProjectId) (slug : String) (shape : Shape)
    (lands : Bool) : Except String Placed :=
  if !actor.human then .error TaskError.notYours.message
  else
    match s.tasks.board project slug with
    | none => .error ("no board is called " ++ slug)
    | some b =>
      match h : shape.check b.slug with
      | .error reason => .error reason
      | .ok () =>
        if lands then
          .ok { s with
            tasks := s.tasks.putBoard (b.reshape shape (Shape.check_ok h).lanes_ne)
            pullSource := Function.update s.pullSource project
              (Function.update (s.pullSource project) slug shape.pullSource) }
        else .error "the board was not recorded"

/-! ## Pulls -/

/-- What the leases and the registry say of a card being pulled. -/
structure Holds where
  live : AgentId → Bool
  /-- Somebody the card does not name has its lease. -/
  byHand : TaskId → Bool
  /-- The agent the card names has its lease. -/
  held : TaskId → Bool
  /-- The caller gets the lease. -/
  granted : TaskId → Bool

structure Pull where
  agent : AgentId
  task : Option TaskId
  takeOverFrom : Option AgentId
  project : ProjectId
  board : String

inductive PullRefusal where
  | noCard
  | noBoard (slug : String)
  /-- A lease keeps the card as it keeps any resource. -/
  | leased
  | card (error : PullError)
  /-- The open cards it waits on. -/
  | waits (handles : List String)
  | notRecorded
deriving DecidableEq, Repr

inductive PullAnswer where
  | taken (before : Task)
  | renewed (card : Task)
  | nothingReady (pick : Pick)
  | refused (why : PullRefusal)
deriving DecidableEq

/-- A card taken is written with its lease, at the end of its lane when it came into
one. -/
def finishPull (b : Board) (found t next : Task) (granted lands : Bool) : PullAnswer × Placed :=
  let rank := if s.rank t.id = "" ∨ next.lane ≠ some (t.laneOn b).slug then
      rankLast s.toPlaces (s.tasks.projectCards t.project) b (next.laneOn b).slug t.id
    else s.rank t.id
  if !granted then (.refused .leased, s)
  else if lands then
    (.taken found, { s with
      toPlaces := setRank s.toPlaces t.id rank
      tasks := s.tasks.commit next
        (if next.lane = t.lane ∧ next.column = t.column then [] else [.placed t.id]) })
  else (.refused .notRecorded, s)

/-- A card without the agent it still names, when that one has ended. -/
def freed (t : Task) (ended : Option AgentId) : Task :=
  if ended.isSome then { t with assignee := none } else t

/-- A card found or named is taken, unless somebody holds it. -/
def takeCard (p : Pull) (holds : Holds) (found : Task) (now : Time) (lands : Bool) :
    PullAnswer × Placed :=
  match s.tasks.boardOf found with
  | none => (.refused (.noBoard found.boardSlug), s)
  | some b =>
    let named := p.task.isSome
    -- a waiting card still naming an agent that has ended: named, it is free
    let ended := found.assignee.filter fun holder =>
      named && found.column.waiting && !holds.live holder
    let t := freed found ended
    let held := t.assignee.isSome && holds.held t.id
    let lapsed := t.assignee.filter fun _ => !held && t.column.working
    let source := s.pullSource b.project b.slug
    let cards := s.tasks.projectCards t.project
    let waiting := cards.filter fun c => decide (c.id ∈ t.blockedBy) && c.isOpen
    if holds.byHand t.id then (.refused .leased, s)
    else
      match p.takeOverFrom with
      | some holder =>
        -- the hold is live, or the card names somebody else
        if lapsed ≠ some holder then (.refused (.card (.taken t.assignee t.column)), s)
        else
          match t.takeOver p.agent holder now with
          | .error error => (.refused (.card error), s)
          | .ok next => s.finishPull b found t next (holds.granted t.id) lands
      | none =>
        if t.assignee = some p.agent ∧ held then
          -- its own held card: the pull renews its lease
          if !holds.granted t.id then (.refused .leased, s)
          else if lands then
            (.renewed t, { s with tasks := s.tasks.commit { t with updatedAt := now } [] })
          else (.refused .notRecorded, s)
        else if waiting ≠ [] then (.refused (.waits (waiting.map Tasks.handle)), s)
        else
          match t.pull p.agent b source named now with
          | .error error => (.refused (.card error), s)
          | .ok next => s.finishPull b found t next (holds.granted t.id) lands

/-- A running agent takes a card: the one it names, or the first ready one. -/
def taskPull (p : Pull) (holds : Holds) (now : Time) (lands : Bool) : PullAnswer × Placed :=
  match p.task with
  | some id =>
    match s.tasks.cards.get? id with
    | none => (.refused .noCard, s)
    | some t => s.takeCard p holds t now lands
  | none =>
    match s.tasks.board p.project p.board with
    | none => (.refused (.noBoard p.board), s)
    | some b =>
      let cards := s.tasks.projectCards p.project
      let pick := b.nextReady (s.pullSource p.project b.slug) s.toPlaces
        (cards.filter fun t => decide (t.boardSlug = b.slug)) p.agent (Tasks.openIn cards)
      match pick.card with
      | none => (.nothingReady pick, s)
      | some t => s.takeCard p holds t now lands

/-! ## Runs -/

inductive Op where
  | file (filing : Tasks.Filing) (now : Time) (lands : Bool)
  | move (m : Move)
  | archive (actor : Actor) (id : TaskId) (now : Time) (lands : Bool)
  | unarchive (actor : Actor) (id : TaskId) (now : Time) (lands : Bool)
  | boardUpdate (actor : Actor) (project : ProjectId) (slug : String) (shape : Shape) (lands : Bool)
  | pull (p : Pull) (holds : Holds) (now : Time) (lands : Bool)

/-- What is refused changes nothing. -/
def kept (result : Except String Placed) : Placed :=
  match result with
  | .ok s' => s'
  | .error _ => s

def step : Op → Placed
  | .file filing now lands => s.kept (s.taskFile filing now lands)
  | .move m => s.kept (s.taskMove m)
  | .archive actor id now lands => s.kept (s.withTasks (s.tasks.taskArchive actor id now lands))
  | .unarchive actor id now lands => s.kept (s.withTasks (s.tasks.taskUnarchive actor id now lands))
  | .boardUpdate actor project slug shape lands =>
    s.kept (s.boardUpdate actor project slug shape lands)
  | .pull p holds now lands => (s.taskPull p holds now lands).2

/-- No card yet: the boards that were made, and for every other project the board it has
before anybody shapes it. -/
def initial (boards : List Board) (source : ProjectId → String → String)
    (keyPrefix : ProjectId → String) : Placed where
  rank _ := ""
  createdAt _ := 0
  tasks := Tasks.initial boards (fun project => .classic project (keyPrefix project)) .empty
  pullSource := source

end Placed

end AgentDocker.Daemon
