import AgentDocker.Daemon.Tasks

/-!
# Board rules acting, and agents started on cards

A rule acts when a card is filed or moved into its lane, never on a rule's own move,
or, on the minute, once a card has sat in its lane for its days. Starting an agent
runs a process, so a rule only marks the card as being started on; the card is handed
to the agent when it runs.
-/

namespace AgentDocker.Daemon.Tasks

open AgentDocker.Core Lib

/-! ## Starts -/

/-- Whether a card of these still has to be finished. -/
def openIn (cards : List Task) (id : TaskId) : Bool :=
  cards.any fun t => decide (t.id = id) && t.isOpen

/-- What people call a card. -/
def handle (t : Task) : String :=
  if t.key = "" then String.ofList (t.id.id.toList.take 7) else t.key

variable (s : Tasks)

/-- Why an agent may not be started on a card now: what a pull would refuse. -/
def startRefusal (t : Task) : Option String :=
  let cards := if t.blockedBy = [] then [] else s.projectCards t.project
  let waits := (cards.filter fun c => decide (c.id ∈ t.blockedBy) && c.isOpen).map handle
  if startable t (openIn cards) then none
  else if t.assignee.isSome || !t.isOpen then
    some "the card is held, ended or archived; an agent starts on a card nobody holds"
  else if waits ≠ [] then some ("the card waits on " ++ ", ".intercalate waits)
  else some "the card waits on something off the board"

/-- Live agents a rule started, and cards it is starting one on. -/
def startedBy (rule : String) : Nat :=
  (s.live.filter fun r => decide (r = rule)).length +
    (s.starting.rows.filter fun e => decide (e.rule = some rule)).length

/-! ## One rule on one card -/

/-- The author a rule writes as. -/
def ruleAuthor (rule : BoardRule) : String := "rule:" ++ rule.name

/-- A rule's action committed. -/
def act (t : Task) (marks : List Mark) (lands : Bool) : Except String (Option Starting × Tasks) :=
  if lands then .ok (none, s.commit t marks) else .error "the card was not recorded"

/-- One rule's action on a card, in one commit. An agent to start is handed back
instead, and the card is marked as being started on. -/
def applyRule (rule : BoardRule) (t : Task) (now : Time) (lands : Bool) :
    Except String (Option Starting × Tasks) :=
  match s.boardOf t with
  | none => .error ("no board is called " ++ t.boardSlug)
  | some board =>
    match rule.action with
    | .comment text =>
      match checkBody text with
      | .error error => .error error.message
      | .ok () => s.act { t with fired := t.fired ++ [rule.id] } [.fired rule.id t.id] lands
    | .move lane =>
      match board.lane lane with
      | none =>
        .error ("no lane is called " ++ lane ++ "; the board's lanes are " ++
          ", ".intercalate (board.lanes.map (·.slug)))
      | some lane =>
        match t.moveTo (ruleAuthor rule) true lane now with
        | .error error => .error error.message
        | .ok (false, _) => .ok (none, s)
        | .ok (true, next) => s.act next [.fired rule.id t.id, .placed t.id] lands
    | .archive =>
      match t.archive (ruleAuthor rule) true now with
      | .error error => .error error.message
      | .ok next => s.act next [.fired rule.id t.id] lands
    | .start _ _ max =>
      -- full, waiting, or somebody has it: the minute's sweep tries again
      if (s.startRefusal t).isSome || (s.starting.get? t.id).isSome ||
          decide (max ≤ s.startedBy rule.id) then
        .ok (none, s)
      else
        .ok (some ⟨t.id, some rule.id, false⟩,
          { s with starting := s.starting.insert ⟨t.id, some rule.id, false⟩ })

/-! ## Cards that come into a lane -/

/-- How many rules of a project are read. -/
def boardRulesMax : Nat := 2000

/-- The rules, in the order of their ids. -/
def rulesInOrder : List BoardRule := sortBy (fun r => r.id) s.rules.rows

def boardRules (project : ProjectId) : List BoardRule :=
  (s.rulesInOrder.filter fun r => decide (r.project = project)).take boardRulesMax

/-- Each rule on the card as the one before it left it, while it is in the lane. -/
def enterRules (id : TaskId) (lane : String) (now : Time) (lands : String → TaskId → Bool) :
    List BoardRule → Tasks → Tasks
  | [], s => s
  | rule :: rest, s =>
    match s.cards.get? id with
    | none => s
    | some card =>
      if card.archivedAt.isSome || decide (card.lane.getD card.column.asStr ≠ lane) then s
      else
        match s.applyRule rule card now (lands rule.id id) with
        | .ok (_, s') => enterRules id lane now lands rest s'
        | .error _ => enterRules id lane now lands rest s

/-- A card came into a lane by a filing or a move that was not a rule's: every enabled
enter rule of that lane acts on it now. -/
def rulesOnEnter (t : Task) (lane : String) (now : Time) (lands : String → TaskId → Bool) : Tasks :=
  enterRules t.id lane now lands ((s.boardRules t.project).filter fun r => r.onEnter t lane) s

/-- File cards, then let the rules of their lanes act. -/
def taskFile (filing : Filing) (now : Time) (lands : Bool) (ruleLands : String → TaskId → Bool) :
    Except String Tasks :=
  match s.fileCards filing now lands with
  | .error message => .error message
  | .ok (filed, s') =>
    .ok (filed.foldl (fun s t => s.rulesOnEnter t (t.lane.getD "") now ruleLands) s')

/-- Move a card, then let the rules of the lane it came into act. -/
def taskMove (actor : Actor) (id : TaskId) (lane : Lane) (reranked said : Bool) (now : Time)
    (lands : Bool) (ruleLands : String → TaskId → Bool) : Except String Tasks :=
  match s.moveCard actor id lane reranked said now lands with
  | .error message => .error message
  | .ok (none, s') => .ok s'
  | .ok (some t, s') => .ok (s'.rulesOnEnter t lane.slug now ruleLands)

/-! ## The minute's sweep -/

/-- At most this many rule actions on one sweep. -/
def sweepActions : Nat := 50

/-- The rules a sweep looks at. -/
def sweeps (rule : BoardRule) : Bool :=
  rule.enabled &&
    match rule.trigger, rule.action with
    | .idle .., _ => true
    | _, .start .. => true
    | _, _ => false

/-- Whether a rule is due on a card of these. A start rule keeps its lane worked: cards
that came in while it was full, or before it was made. -/
def due (rule : BoardRule) (cards : List Task) (card : Task) (lane : String) (now : Time) : Bool :=
  match rule.trigger, rule.action with
  | .idle .., _ => rule.idleDue card lane now
  | .enter _, .start .. => rule.onEnter card lane && startable card (openIn cards)
  | _, _ => false

/-- One card: the first rule that is due on it acts, and no other this minute. -/
def sweepCard (cards : List Task) (card : Task) (lane : String) (now : Time)
    (lands : String → TaskId → Bool) : List BoardRule → Nat × Tasks → Nat × Tasks
  | [], acc => acc
  | rule :: rest, (acted, s) =>
    if sweepActions ≤ acted then (acted, s)
    else if due rule cards card lane now then
      match s.cards.get? card.id with
      | none => sweepCard cards card lane now lands rest (acted, s)
      | some fresh =>
        if fresh.fired.contains rule.id || fresh.archivedAt.isSome then
          sweepCard cards card lane now lands rest (acted, s)
        else
          match s.applyRule rule fresh now (lands rule.id card.id) with
          | .ok (_, s') => (acted + 1, s')
          | .error _ => (acted, s)
    else sweepCard cards card lane now lands rest (acted, s)

/-- The cards of a project on its boards, each in its lane. -/
def sweepProject (rules : List BoardRule) (now : Time) (lands : String → TaskId → Bool)
    (acc : Nat × Tasks) (project : ProjectId) : Nat × Tasks :=
  let cards := acc.2.projectCards project
  let boards := acc.2.projectBoards project
  let mine := rules.filter fun r => decide (r.project = project)
  (cards.filter fun t => t.archivedAt.isNone).foldl (fun acc card =>
    match boards.find? fun b => decide (b.slug = card.boardSlug) with
    | none => acc
    | some board => sweepCard cards card (card.laneOn board).slug now lands mine acc) acc

/-- Idle rules that are due act, and start rules take the cards still waiting in their
lanes, up to their limits. -/
def sweepRules (now : Time) (lands : String → TaskId → Bool) : Tasks :=
  let rules := s.rulesInOrder.filter sweeps
  let projects := (sortBy (fun p : ProjectId => p.id) (rules.map (·.project))).dedup
  (projects.foldl (sweepProject rules now lands) (0, s)).2

/-! ## Agents on cards -/

/-- The person starts an agent on a card nobody holds. -/
def taskStart (actor : Actor) (id : TaskId) : Except String Tasks :=
  if !actor.human then .error "starting an agent on a card is the person's to do"
  else
    match s.cards.get? id with
    | none => .error "no card matches"
    | some t =>
      match s.startRefusal t with
      | some refusal => .error refusal
      | none =>
        if (s.starting.get? id).isSome then .error "an agent is starting on it already"
        else .ok { s with starting := s.starting.insert ⟨id, none, false⟩ }

/-- The card moved into the board's pull target, unless it is being worked already. -/
def pulled (t : Task) (board : Board) (now : Time) : Bool × Task :=
  match if t.column.working then none else board.lane board.pullTarget with
  | none => (false, t)
  | some target =>
    match t.moveTo "user" true target now with
    | .ok moved => moved
    | .error _ => (false, t)

/-- The card as it is handed to its agent: held, and marked by the rule that asked. -/
def handed (t : Task) (agent : AgentId) (rule : Option String) (now : Time) : Task :=
  { t with assignee := some agent, updatedAt := now, fired := t.fired ++ rule.toList }

/-- The agent a start asked for runs, or could not be launched; the card is handed to
it unless somebody has it by now. -/
def startLaunched (id : TaskId) (agent : Option AgentId) (now : Time) (lands : Bool) : Tasks :=
  match s.starting.get? id, agent with
  | none, _ => s
  | some _, none => s
  | some entry, some agent =>
    if entry.launched then s
    else
      let s := { s with
        live := s.live ++ entry.rule.toList
        starting := s.starting.insert { entry with launched := true } }
      match s.cards.get? id with
      | none => s
      | some t =>
        if (s.startRefusal t).isSome then s
        else
          match s.boardOf t with
          | none => s
          | some board =>
            if lands then
              s.commit (handed (pulled t board now).2 agent entry.rule now)
                ((entry.rule.toList.map fun r => .fired r id) ++
                  if (pulled t board now).1 then [.placed id] else [])
            else s

/-- The card is no longer marked as being started on. -/
def startEnded (id : TaskId) : Tasks := { s with starting := s.starting.erase id }

/-! ## Runs -/

inductive Op where
  | file (filing : Filing) (now : Time) (lands : Bool) (ruleLands : String → TaskId → Bool)
  | update (actor : Actor) (id : TaskId) (change : Change) (now : Time) (lands : Bool)
  | move (actor : Actor) (id : TaskId) (lane : Lane) (reranked said : Bool) (now : Time)
      (lands : Bool) (ruleLands : String → TaskId → Bool)
  | archive (actor : Actor) (id : TaskId) (now : Time) (lands : Bool)
  | unarchive (actor : Actor) (id : TaskId) (now : Time) (lands : Bool)
  | sweep (now : Time) (lands : String → TaskId → Bool)
  | start (actor : Actor) (id : TaskId)
  | launched (id : TaskId) (agent : Option AgentId) (now : Time) (lands : Bool)
  | ended (id : TaskId)
  /-- An agent a rule started ends. -/
  | exited (rule : String)

/-- What is refused changes nothing. -/
def kept (result : Except String Tasks) : Tasks :=
  match result with
  | .ok s' => s'
  | .error _ => s

def step : Op → Tasks
  | .file filing now lands ruleLands => s.kept (s.taskFile filing now lands ruleLands)
  | .update actor id change now lands => s.kept (s.taskUpdate actor id change now lands)
  | .move actor id lane reranked said now lands ruleLands =>
    s.kept (s.taskMove actor id lane reranked said now lands ruleLands)
  | .archive actor id now lands => s.kept (s.taskArchive actor id now lands)
  | .unarchive actor id now lands => s.kept (s.taskUnarchive actor id now lands)
  | .sweep now lands => s.sweepRules now lands
  | .start actor id => s.kept (s.taskStart actor id)
  | .launched id agent now lands => s.startLaunched id agent now lands
  | .ended id => s.startEnded id
  | .exited rule => { s with live := s.live.erase rule }

/-- Boards and rules, and no card yet. -/
def initial (boards : List Board) (defaultBoard : ProjectId → Board) (rules : Keyed BoardRule.id) :
    Tasks :=
  ⟨.empty, boards, defaultBoard, rules, [], .empty, []⟩

end AgentDocker.Daemon.Tasks
