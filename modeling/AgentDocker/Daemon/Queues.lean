import AgentDocker.Daemon.Messages
import AgentDocker.Lib.StableSort

/-!
# Queues, in memory and on disk

Every agent's queue is kept twice: in memory, where it is read, and as rows of
the `inbox` table, where a daemon that opens the database finds it again. Both
change in one hold of the state lock, the rows first. What follows is every way
the two change: a message sent, held for the person and released later, caught
up with by a newcomer or acknowledged; a record forgotten; and a record retired
into another, which two pieces of code do, each in its own way.

An operation carries what it cannot decide from the queues: whom a message
reaches, how many bytes an envelope is, whether anything else refuses the
operation, and whether its write lands.
-/

namespace AgentDocker.Daemon

open AgentDocker.Core Lib

/-! ## The table -/

/-- A row of the `inbox` table. Its `message_id` column is the message's own. -/
structure InboxRow where
  seq : Nat
  agent : AgentId
  message : Envelope
deriving DecidableEq, Repr

/-- The `inbox` table in the order of its key, which numbers the rows as they
come in. -/
structure InboxTable where
  rows : List InboxRow
  next : Nat
  ordered : rows.Pairwise fun r s => r.seq < s.seq
  below : ∀ r ∈ rows, r.seq < next

namespace InboxTable

def empty : InboxTable := ⟨[], 0, .nil, by simp⟩

variable (t : InboxTable)

/-- A message put in at the end of an agent's queue. -/
def insert (agent : AgentId) (e : Envelope) : InboxTable where
  rows := t.rows ++ [⟨t.next, agent, e⟩]
  next := t.next + 1
  ordered := by
    refine List.pairwise_append.mpr ⟨t.ordered, List.pairwise_singleton _ _, ?_⟩
    intro r hr s hs
    rw [List.mem_singleton.mp hs]
    exact t.below r hr
  below := by
    intro r hr
    rcases List.mem_append.mp hr with hr | hr
    · exact Nat.lt_succ_of_lt (t.below r hr)
    · rw [List.mem_singleton.mp hr]
      exact Nat.lt_succ_self _

def delete (p : InboxRow → Bool) : InboxTable where
  rows := t.rows.filter (!p ·)
  next := t.next
  ordered := t.ordered.sublist List.filter_sublist
  below r hr := t.below r (List.mem_filter.mp hr).1

/-- `UPDATE inbox SET agent`. -/
def rename (f : AgentId → AgentId) : InboxTable where
  rows := t.rows.map fun r => { r with agent := f r.agent }
  next := t.next
  ordered := List.pairwise_map.mpr t.ordered
  below := by
    intro r hr
    obtain ⟨s, hs, rfl⟩ := List.mem_map.mp hr
    exact t.below s hs

/-- The rows of some agents. -/
def ofAgents (p : AgentId → Bool) : List InboxRow :=
  t.rows.filter fun r => p r.agent

/-- One agent's queue as the rows have it. -/
def load (agent : AgentId) : List Envelope :=
  (t.ofAgents fun a => decide (a = agent)).map (·.message)

end InboxTable

/-! ## The state -/

/-- A message kept for the person instead of delivered, with the card that
asks about it. -/
structure HeldMessage where
  question : MessageId
  envelope : Envelope
deriving DecidableEq, Repr

structure Queues where
  inboxes : Inboxes
  table : InboxTable
  held : Keyed HeldMessage.question
  /-- What was said, in the order it was said. -/
  archived : List Envelope
  /-- The ids drawn for messages so far. -/
  drawn : List MessageId

namespace Queues

/-- Nothing sent yet. -/
def empty : Queues := ⟨fun _ => [], .empty, .empty, [], []⟩

/-! ## Messages -/

/-- What `insert_inbox` asks of each recipient's rows. -/
def rowsTake (t : InboxTable) (recipients : List AgentId) : Bool :=
  recipients.all fun a => decide ((t.load a).length < inboxCapacity)

variable (q : Queues) (routes : Routes)

/-- The message path: nobody gets it unless everybody can take it. -/
def publish (e : Envelope) (lands : Bool) : Queues × Bool :=
  let recipients := routes.recipients e
  if recipients.all (fun a => routes.takes (q.inboxes a) e) && rowsTake q.table recipients &&
      lands then
    ({ q with
        inboxes := q.inboxes.push recipients e
        table := recipients.foldl (·.insert · e) q.table
        archived := q.archived ++ [e] }, true)
  else
    (q, false)

def draw (ids : List MessageId) : Queues := { q with drawn := q.drawn ++ ids }

def send (e : Envelope) (lands : Bool) : Queues :=
  ((q.draw [e.id]).publish routes e lands).1

/-- The message is kept, and the card that asks about it is sent. -/
def holdMessage (e card : Envelope) (lands : Bool) : Queues :=
  match (q.draw [e.id, card.id]).publish routes card lands with
  | (q, true) => { q with held := q.held.insert ⟨card.id, e⟩ }
  | (q, false) => q

/-- The person lets a held message go out, as it was. -/
def release (question : MessageId) (lands : Bool) : Queues :=
  match q.held.get? question with
  | none => q
  | some held =>
    match q.publish routes held.envelope lands with
    | (q, true) => { q with held := q.held.erase question }
    | (q, false) => q

/-- The person, or a week gone by, discards it. -/
def dropHeld (question : MessageId) (lands : Bool) : Queues :=
  if lands then { q with held := q.held.erase question } else q

/-! ## Reading -/

/-- The queued messages among these go. -/
def ackInbox (agent : AgentId) (messages : List MessageId) (lands : Bool) : Queues :=
  let acknowledged := ((q.inboxes agent).map (·.id)).filter fun id => decide (id ∈ messages)
  if acknowledged = [] ∨ lands = false then
    q
  else
    { q with
      table := q.table.delete fun r => decide (r.agent = agent ∧ r.message.id ∈ acknowledged)
      inboxes := fun a =>
        if a = agent then (q.inboxes a).filter fun m => decide (m.id ∉ acknowledged)
        else q.inboxes a }

/-- What a newcomer is still told of what was said: the walk skips what is not
for it or queued already, and ends where the queue is full. -/
def late (bytes : Envelope → Nat) (wanted : Envelope → Bool) (queued : List MessageId) :
    List Envelope → Nat → Nat → List Envelope
  | [], _, _ => []
  | e :: rest, count, size =>
    if !wanted e || decide (e.id ∈ queued) then
      late bytes wanted queued rest count size
    else if count ≥ inboxCapacity ∨ size + bytes e > inboxBytes then
      []
    else
      e :: late bytes wanted queued rest (count + 1) (size + bytes e)

def catchUp (agent : AgentId) (wanted : Envelope → Bool) (lands : Bool) : Queues :=
  let queue := q.inboxes agent
  let messages := late routes.bytes wanted (queue.map (·.id)) q.archived queue.length
    (queue.foldl (fun sum m => sum + routes.bytes m) 0)
  if lands then
    { q with
      table := messages.foldl (fun t e => t.insert agent e) q.table
      inboxes := fun a => if a = agent then queue ++ messages else q.inboxes a }
  else
    q

/-! ## Records leaving -/

def remove (agent : AgentId) (lands : Bool) : Queues :=
  if lands then
    { q with
      table := q.table.delete fun r => decide (r.agent = agent)
      inboxes := fun a => if a = agent then [] else q.inboxes a }
  else
    q

def resumeQueueMessages : Nat := 1000

def resumeQueueBytes : Nat := 4 * 1024 * 1024

/-- The one queue of several records' rows, each message once, and the rows
that say one again. A message that comes with two contents refuses it. -/
def planQueue : List InboxRow → List Envelope → Option (List Envelope × List Nat)
  | [], _ => some ([], [])
  | r :: rest, seen =>
    match seen.find? fun m => decide (m.id = r.message.id) with
    | some previous =>
      if previous = r.message then
        (planQueue rest seen).map fun (queue, duplicates) => (queue, r.seq :: duplicates)
      else
        none
    | none =>
      (planQueue rest (r.message :: seen)).map fun (queue, duplicates) =>
        (r.message :: queue, duplicates)

/-- `plan_fold`, as far as it is about the queues. -/
def planFold (bytes : Envelope → Nat) (kept : AgentId) (retired : List AgentId) :
    Option (List Envelope × List Nat) :=
  if retired = [] ∨ kept ∈ retired then
    none
  else
    match planQueue (q.table.ofAgents fun a => decide (a ∈ kept :: retired)) [] with
    | none => none
    | some (queue, duplicates) =>
      if queue.length ≤ resumeQueueMessages ∧
          queue.foldl (fun sum m => sum + bytes m) 0 ≤ resumeQueueBytes then
        some (queue, duplicates)
      else
        none

/-- Retire records into one: the rows become one queue in their order with each
message once, and that queue is the one in memory. -/
def commitFold (kept : AgentId) (retired : List AgentId) (lands : Bool) : Queues :=
  match q.planFold routes.bytes kept retired with
  | none => q
  | some (queue, duplicates) =>
    if lands then
      { q with
        table := (q.table.delete fun r => decide (r.seq ∈ duplicates)).rename
          fun a => if a ∈ retired then kept else a
        inboxes := fun a =>
          if a = kept then queue else if a ∈ retired then [] else q.inboxes a }
    else
      q

/-- Retire a provider session's new record into its prior one: the queues in
memory are put together by when their messages were sent, and the rows only
change hands. -/
def resumeInput (prior caller : AgentId) (lands : Bool) : Queues :=
  if prior = caller ∨ lands = false then
    q
  else
    { q with
      table := q.table.rename fun a => if a = caller then prior else a
      inboxes := fun a =>
        if a = prior then sortBy (·.sentAt) (q.inboxes prior ++ q.inboxes caller)
        else if a = caller then []
        else q.inboxes a }

/-- A daemon that opens the database. -/
def reopen : Queues := { q with inboxes := q.table.load }

/-! ## Runs -/

inductive Op where
  | send (routes : Routes) (e : Envelope) (lands : Bool)
  | hold (routes : Routes) (e card : Envelope) (lands : Bool)
  | release (routes : Routes) (question : MessageId) (lands : Bool)
  | drop (question : MessageId) (lands : Bool)
  | ack (agent : AgentId) (messages : List MessageId) (lands : Bool)
  | catchUp (routes : Routes) (agent : AgentId) (wanted : Envelope → Bool) (lands : Bool)
  | remove (agent : AgentId) (lands : Bool)
  | fold (routes : Routes) (kept : AgentId) (retired : List AgentId) (lands : Bool)
  | resume (prior caller : AgentId) (lands : Bool)
  | reopen

def step : Op → Queues
  | .send routes e lands => q.send routes e lands
  | .hold routes e card lands => q.holdMessage routes e card lands
  | .release routes question lands => q.release routes question lands
  | .drop question lands => q.dropHeld question lands
  | .ack agent messages lands => q.ackInbox agent messages lands
  | .catchUp routes agent wanted lands => q.catchUp routes agent wanted lands
  | .remove agent lands => q.remove agent lands
  | .fold routes kept retired lands => q.commitFold routes kept retired lands
  | .resume prior caller lands => q.resumeInput prior caller lands
  | .reopen => q.reopen

end Queues

end AgentDocker.Daemon
