import AgentDocker.Core.Topic
import AgentDocker.Lib.Seeks
import Mathlib.Data.Prod.Lex
import Mathlib.Data.String.Basic

/-!
# The topic log and its readers' cursors

A kept message has a sequence number of its own, one count for every topic, and
the project it is kept for. A subscription replays the newest messages past its
reader's cursors that the reader may see. What is too old, or beyond what one
topic keeps for one project, is pruned, a batch at a time.
-/

namespace AgentDocker.Store

open AgentDocker.Core Lib

structure TopicMessage where
  seq : Nat
  topic : String
  /-- Whom it is kept for; anyone when absent. -/
  project : Option ProjectId
  /-- As it is written, which is how it is compared. -/
  sentAt : String
  json : String
deriving DecidableEq, Repr

/-- What messages are kept by: their topic and whom they are kept for. -/
def TopicMessage.group (m : TopicMessage) : String × Option ProjectId := (m.topic, m.project)

structure TopicCursor where
  agent : AgentId
  topic : String
  seq : Nat
deriving DecidableEq, Repr

def TopicCursor.key (c : TopicCursor) : AgentId × String := (c.agent, c.topic)

structure Topics where
  messages : Keyed TopicMessage.seq
  cursors : Keyed TopicCursor.key

/-- Who is replayed to, and from where. -/
structure ReplayRequest where
  patterns : List String
  /-- The project the reader is confined to. -/
  scope : Option ProjectId
  /-- The agent whose cursors say where each topic starts. -/
  reader : Option AgentId
  /-- A point that replaces the cursors. -/
  after : Option Nat
  perTopic : Nat
  total : Nat

/-- A number as the database takes it. -/
def sqlSeq (seq : Nat) : Nat := min seq 9223372036854775807

namespace Topics

/-! ## Replay -/

/-- The rows a reader is read of a topic, from a start. -/
def waits (topic : String) (start : Nat) (scope : Option ProjectId) (m : TopicMessage) : Bool :=
  decide (m.topic = topic) && decide (start < m.seq) &&
    (scope.isNone || m.project.isNone || decide (m.project = scope))

variable (s : Topics)

def pending (topic : String) (start : Nat) (scope : Option ProjectId) : Nat :=
  (s.messages.rows.filter (waits topic start scope)).length

def newest (topic : String) (start : Nat) (scope : Option ProjectId) (limit : Nat) : List Nat :=
  (((sortBy TopicMessage.seq (s.messages.rows.filter (waits topic start scope))).reverse).take
    limit).map TopicMessage.seq

/-- Where the request starts reading a topic, if it reads it. -/
def startsAt (r : ReplayRequest) (topic : String) : Option Nat :=
  if r.patterns.any fun pattern => Topic.topicMatches pattern topic then
    let held := r.reader.bind fun reader => (s.cursors.get? (reader, topic)).map TopicCursor.seq
    Topic.start r.reader.isSome held r.after
  else none

/-- One topic, offered to the bounds newest first. -/
def visit (r : ReplayRequest) (bound : ReplayBound) (topic : String) : ReplayBound :=
  match s.startsAt r topic with
  | none => bound
  | some start =>
    let waiting := s.pending topic (sqlSeq start) r.scope
    if 0 < waiting then
      (bound.topic waiting).offerAll
        (s.newest topic (sqlSeq start) r.scope (sqlSeq r.perTopic))
    else bound

def topicReplayPlan (r : ReplayRequest) : ReplayPlan :=
  if r.patterns = [] ∨ Topic.start r.reader.isSome none r.after = none then ⟨[], 0, 0⟩
  else
    let topics := s.messages.rows.map TopicMessage.topic
    -- each topic is found by a seek past the last
    (seekAll (s.visit r) topics topics.length none (.new r.perTopic r.total)).finish

/-- The messages themselves, read one by one; and how many were left out. -/
def topicReplay (r : ReplayRequest) : Option (List (Nat × String) × Nat) :=
  let plan := s.topicReplayPlan r
  (plan.seqs.mapM fun seq => (s.messages.get? seq).map fun m => (seq, m.json)).map
    fun messages => (messages, plan.skipped)

/-! ## Retention -/

/-- Rows deleted by number, and how many there were. -/
def delete (seqs : List Nat) : Nat × Topics :=
  ((s.messages.rows.filter fun m => decide (m.seq ∈ seqs)).length,
    { s with messages := s.messages.filter fun m => decide (m.seq ∉ seqs) })

/-- Older than the cutoff, when there is one. -/
def tooOld (cutoff : Option String) (m : TopicMessage) : Bool :=
  cutoff.any fun cutoff => decide (m.sentAt < cutoff)

def inGroup (group : String × Option ProjectId) : List TopicMessage :=
  sortBy TopicMessage.seq (s.messages.rows.filter fun m => decide (m.group = group))

/-- Groups of one topic go by project, those kept for anyone first. -/
def groupKey (group : String × Option ProjectId) : String ×ₗ Bool ×ₗ String :=
  toLex (group.1, toLex (group.2.isSome, (group.2.map ProjectId.id).getD ""))

/-- The groups that have more than the limit, and how many they have. -/
def crowded (limit : Nat) : List ((String × Option ProjectId) × Nat) :=
  ((sortBy groupKey (s.messages.rows.map TopicMessage.group).dedup).map fun group =>
    (group, (s.inGroup group).length)).filter fun g => decide (limit < g.2)

structure Pruning where
  removed : Nat
  budget : Nat
  store : Topics

/-- The oldest of a group beyond the limit go, within the budget. -/
def relieve (limit : Nat) (p : Pruning) (g : (String × Option ProjectId) × Nat) : Pruning :=
  if p.budget = 0 then p
  else
    let oldest := ((p.store.inGroup g.1).take (min (g.2 - limit) p.budget)).map TopicMessage.seq
    let (went, store) := p.store.delete oldest
    ⟨p.removed + went, p.budget - went, store⟩

/-- The old ones first. -/
def expire (cutoff : Option String) (budget : Nat) : Pruning :=
  let old := ((sortBy TopicMessage.seq (s.messages.rows.filter (tooOld cutoff))).take budget).map
    TopicMessage.seq
  let (removed, store) := s.delete old
  ⟨removed, budget - old.length, store⟩

def pruneTopicMessages (cutoff : Option String) (limit batch : Nat) : Nat × Topics :=
  let p := s.expire cutoff (sqlSeq batch)
  let p := (p.store.crowded (sqlSeq limit)).foldl (relieve (sqlSeq limit)) p
  (p.removed, p.store)

/-- One prune after the other. -/
def pruned (cutoff : Option String) (limit batch : Nat) : Nat → Topics → Topics
  | 0, s => s
  | n + 1, s => pruned cutoff limit batch n (s.pruneTopicMessages cutoff limit batch).2

/-- There is nothing left for a prune to remove. -/
def Done (cutoff : Option String) (limit batch : Nat) (s : Topics) : Prop :=
  (s.pruneTopicMessages cutoff limit batch).1 = 0

instance (cutoff : Option String) (limit batch : Nat) (s : Topics) :
    Decidable (Done cutoff limit batch s) :=
  inferInstanceAs (Decidable (_ = _))

end Topics

end AgentDocker.Store
