import AgentDocker.Core.Lease
import Mathlib.Data.List.Dedup

/-!
# Messages

The unit of communication between agents, and what one agent's queue takes. The
payload is JSON that the daemon routes without reading, so it stands here as
its text; how many bytes an envelope is stored as is a parameter, and so is
whom a destination other than one agent reaches at the moment.
-/

namespace AgentDocker.Daemon

open AgentDocker.Core

structure MessageId where
  id : String
deriving DecidableEq, Repr

inductive Destination where
  /-- One agent, by the id its name was resolved to. -/
  | agent (id : AgentId)
  | topic (name : String)
  | project (id : String)
  | channel (id : String)
  | broadcast
deriving DecidableEq, Repr

structure Envelope where
  id : MessageId
  /-- An agent's id, or the name of a sender that has no record. -/
  sender : String
  destination : Destination
  kind : String
  payload : String
  replyTo : Option MessageId
  sentAt : Time
deriving DecidableEq, Repr

def inboxCapacity : Nat := 1000

def inboxBytes : Nat := 4 * 1024 * 1024

/-- Every agent's queue, oldest first. -/
abbrev Inboxes := AgentId → List Envelope

/-- What routing asks of the rest of the daemon. -/
structure Routes where
  /-- How many bytes an envelope is stored as. -/
  bytes : Envelope → Nat
  /-- The live agents a project, a channel's members or everybody comes to. -/
  reached : Destination → List AgentId

namespace Routes

/-- Whether a queue takes one more message: under the count and under the
bytes. -/
def takes (routes : Routes) (queue : List Envelope) (e : Envelope) : Bool :=
  decide (queue.length < inboxCapacity) &&
    decide (queue.foldl (fun sum m => sum + routes.bytes m) 0 + routes.bytes e ≤ inboxBytes)

/-- Who gets a message, each once; a topic has subscribers and no queues. -/
def recipients (routes : Routes) (e : Envelope) : List AgentId :=
  match e.destination with
  | .agent id => [id]
  | .topic _ => []
  | other => ((routes.reached other).filter fun a => a.id != e.sender).dedup

theorem recipients_nodup (routes : Routes) (e : Envelope) : (routes.recipients e).Nodup := by
  unfold recipients
  split
  · exact List.nodup_singleton _
  · exact List.nodup_nil
  · exact List.nodup_dedup _

end Routes

/-- The envelope put at the end of each recipient's queue. -/
def Inboxes.push (inboxes : Inboxes) (recipients : List AgentId) (e : Envelope) : Inboxes :=
  fun a => if a ∈ recipients then inboxes a ++ [e] else inboxes a

/-- The refusal a full queue gives. -/
def inboxFull (agent : AgentId) : String :=
  "Inbox for " ++ agent.short ++ " is full (limit " ++ toString inboxCapacity ++ " messages / " ++
    toString (inboxBytes / (1024 * 1024)) ++
    " MiB). Acknowledge existing messages before retrying; nothing was sent."

/-! ## Questions -/

/-- What happens to a question nobody answers within its stale window. -/
inductive StaleAction where
  | keepWaiting
  | answerDefault (label : String)
  | withdraw
deriving DecidableEq, Repr

/-- A question that waits for an answer. Its words, its options and how it is
shown are read only by what resolves an answer, and are left out. -/
structure Question where
  id : MessageId
  /-- Who is waiting. -/
  asker : AgentId
  /-- Who was asked. -/
  recipient : Destination
  askedAt : Time
  expiresAt : Time
  staleAfterSecs : Option Nat
  staleAction : StaleAction
  staleSince : Option Time
deriving DecidableEq, Repr

/-- What is asked of the records of those who answer. -/
structure People where
  project : AgentId → Option String
  isHuman : AgentId → Bool

namespace Question

def expired (q : Question) (now : Time) : Bool := decide (q.expiresAt ≤ now)

def staleAt (q : Question) : Option Time :=
  q.staleAfterSecs.map fun secs => q.askedAt + (secs : Int)

def addressedTo (q : Question) (agent : AgentId) (project : Option String) : Bool :=
  match q.recipient with
  | .agent id => decide (id = agent)
  | .broadcast => true
  | .project id => decide (project = some id)
  | .topic _ | .channel _ => false

/-- Whether somebody may take the question as put to them. -/
def putTo (q : Question) (people : People) (who : AgentId) : Bool :=
  q.addressedTo who (people.project who) ||
    (people.isHuman who && match q.recipient with
      | .project _ => true
      | _ => false)

end Question

end AgentDocker.Daemon
