import AgentDocker.Daemon.Leases
import AgentDocker.Daemon.Messages

/-!
# Asking a holder to let go

An agent refused a path somebody else holds can ask for it: the daemon sends the
holder a message naming the resource and keeps the request until the holder
answers. An accept releases the request's leases on the holder's behalf, in one
transaction with the answer.

Both operations are one hold of the state lock each. What comes before it is
input: the requester or responder as it was resolved, the resource as it was
localised, the reason or summary trimmed and bounded. So are the ids drawn for
messages, what the project and policy say to a send, what the sweep of due
questions that goes before every message queues, and the journal entry of a
release. The events that name requests are kept apart from the numbered ones
of the lease code, in the order they are said.
-/

namespace AgentDocker.Daemon

open AgentDocker.Core Lib

def releaseRequestTtlSecs : Nat := 24 * 60 * 60

/-- How many requests may wait for an answer at once, over everybody. -/
def maxReleaseRequests : Nat := 256

structure ReleaseAnswer where
  accepted : Bool
  text : Option String
  answeredAt : Time
  released : List LeaseId
deriving DecidableEq, Repr

structure ReleaseRequest where
  /-- The id of the message that asks, which the answer names. -/
  message : MessageId
  requester : AgentId
  holder : AgentId
  resource : ResourceKey
  /-- The holder's leases overlapping it when the request was made. -/
  leases : List LeaseId
  reason : Option String
  askedAt : Time
  expiresAt : Time
  answer : Option ReleaseAnswer
deriving DecidableEq, Repr

def ReleaseRequest.expired (request : ReleaseRequest) (now : Time) : Bool :=
  request.answer.isNone && decide (request.expiresAt ≤ now)

inductive ReleaseEvent where
  | requested (request : ReleaseRequest)
  | expired (request : ReleaseRequest)
  | answered (request : ReleaseRequest)
deriving DecidableEq, Repr

/-- What the two operations ask of the rest of the daemon. -/
structure Desk where
  routes : Routes
  /-- The id that stands for an id: another's, once it was folded into it. -/
  canonicalId : AgentId → AgentId
  /-- Nobody is folded into a record that was folded away itself. -/
  canonical : ∀ a, canonicalId (canonicalId a) = canonicalId a
  /-- The refusal of a send by the sender's project or a policy. -/
  refuses : AgentId → AgentId → Option Response
  /-- The queues after the sweep of due questions. -/
  swept : Inboxes → Inboxes

/-- The daemon as far as release requests go. -/
structure Requests where
  core : State
  inboxes : Inboxes
  pending : Keyed ReleaseRequest.message
  said : List ReleaseEvent

namespace Requests

/-- An agent as a message names it. -/
def agentName (r : Requests) (id : AgentId) : String :=
  match r.core.env.registry id with
  | some agent => if agent.name = "" then id.short else agent.name
  | none => id.short

/-- One request nobody answered in its day goes, with its event. -/
def expireOne (r : Requests) (request : ReleaseRequest) : Requests :=
  match r.core.persist "release request expiry" id with
  | (core, .committed) =>
    { r with core, pending := r.pending.erase request.message,
             said := r.said ++ [.expired request] }
  | (core, _) => { r with core }

/-- Nothing is dropped while storage is failing. -/
def expireReleaseRequests (r : Requests) (now : Time) : Requests :=
  if r.core.storageError.isSome then r
  else
    ((r.pending.rows.filter fun request => request.expired now).insertionSort
      fun a b => a.message.id ≤ b.message.id).foldl expireOne r

/-- What both operations begin with: leases and requests past their time go. -/
def settled (r : Requests) (now : Time) : Requests :=
  { r with core := r.core.expireLeasesAt now }.expireReleaseRequests now

/-- What goes out with a message, in its transaction. -/
structure Publication where
  envelope : Envelope
  released : List Lease
  journal : Option JournalEntry
  event : ReleaseEvent

variable (desk : Desk) (r : Requests)

/-- The message path. -/
def publish (p : Publication) : Requests × Option Response :=
  match r.core.writeFailure with
  | some error => (r, some error)
  | none =>
    let r := { r with inboxes := desk.swept r.inboxes }
    match (desk.routes.recipients p.envelope).find? fun a =>
        !desk.routes.takes (r.inboxes a) p.envelope with
    | some full => (r, some (.error .backpressure (inboxFull full) .none))
    | none =>
      match r.core.commit "message"
          (p.released.map .leaseReleased ++ p.journal.toList.map .journalAppended)
          (fun rows => p.released.foldl (fun rows l => rows.erase l.id) rows)
          (fun t => p.released.foldl (fun t l => (t.release l.id l.holder).1) t) with
      | (core, .committed) =>
        ({ r with core, said := r.said ++ [p.event],
                  inboxes := r.inboxes.push (desk.routes.recipients p.envelope) p.envelope },
          none)
      | (core, _) =>
        ({ r with core }, some (core.writeFailure.getD
          (.error .internal "failed message commit freezes storage" .none)))

/-! ## Asking -/

/-- Who holds what is in the requester's way, each with their leases. -/
def byHolder (leases : List Lease) : List (AgentId × List Lease) :=
  (((leases.map (·.holder)).dedup).insertionSort fun a b => a.id ≤ b.id).map fun h =>
    (h, leases.filter fun l => decide (l.holder = h))

/-- The leases of others that overlap the resource. -/
def inTheWay (t : LeaseTable) (requester : AgentId) (resource : ResourceKey) : List Lease :=
  t.all.filter fun l => decide (l.holder ≠ requester) && l.resource.overlaps resource

/-- Whether a request that waits already asks this holder for this resource. -/
def asks (desk : Desk) (requester holder : AgentId) (resource : ResourceKey)
    (request : ReleaseRequest) : Bool :=
  decide (desk.canonicalId request.requester = requester) &&
    decide (desk.canonicalId request.holder = holder) && decide (request.resource = resource)

/-- The request already waiting on a holder for a resource. -/
def waiting (requester holder : AgentId) (resource : ResourceKey) : Option ReleaseRequest :=
  r.pending.rows.find? (asks desk requester holder resource)

/-- Everything is checked before anything is sent: the requests that wait
already, and the holders to ask. -/
def sorted (desk : Desk) (r : Requests) (requester : AgentId) (resource : ResourceKey) :
    List (AgentId × List Lease) →
      Except Response (List ReleaseRequest × List (AgentId × List Lease))
  | [] => .ok ([], [])
  | (holder, leases) :: rest =>
    match r.waiting desk requester holder resource with
    | some pending =>
      match sorted desk r requester resource rest with
      | .ok (requests, toSend) => .ok (pending :: requests, toSend)
      | .error refusal => .error refusal
    | none =>
      match desk.refuses requester holder with
      | some refusal => .error refusal
      | none =>
        match sorted desk r requester resource rest with
        | .ok (requests, toSend) => .ok (requests, (holder, leases) :: toSend)
        | .error refusal => .error refusal

def describeLeases (leases : List Lease) : String :=
  String.intercalate ", " <| leases.map fun l =>
    l.id.id ++ " " ++ l.mode.display ++ " on " ++ l.resource.key

/-- The request to one holder, under the id drawn for its message. -/
def request (requester holder : AgentId) (resource : ResourceKey) (reason : Option String)
    (leases : List Lease) (now : Time) (message : MessageId) : ReleaseRequest where
  message := message
  requester := requester
  holder := holder
  resource := resource
  leases := leases.map (·.id)
  reason := reason
  askedAt := now
  expiresAt := now + (releaseRequestTtlSecs : Int)
  answer := none

/-- The words of a request. -/
def requestText (name : String) (resource : ResourceKey) (reason : Option String)
    (leases : List Lease) : String :=
  name ++ " asks you to release " ++ resource.key ++ " (" ++ describeLeases leases ++ ")" ++
    (match reason with
      | some reason => ": " ++ reason
      | none => "") ++
    ". Answer with respond_release (accept with a summary of what you changed, or decline with " ++
    "a reason); the daemon releases the lease for you on an accept."

/-- The message of a request, its payload as the words in it. -/
def requestEnvelope (name : String) (asked : ReleaseRequest) (leases : List Lease) : Envelope where
  id := asked.message
  sender := asked.requester.id
  destination := .agent asked.holder
  kind := "release_request"
  payload := requestText name asked.resource asked.reason leases
  replyTo := none
  sentAt := asked.askedAt

/-- The prepared requests go out one after the other; one that does not ends it. -/
def sendAll (desk : Desk) (r : Requests) :
    List (Envelope × ReleaseRequest) → Requests × Except Response (List ReleaseRequest)
  | [] => (r, .ok [])
  | (envelope, asked) :: rest =>
    match r.publish desk ⟨envelope, [], none, .requested asked⟩ with
    | (r, some error) => (r, .error error)
    | (r, none) =>
      match sendAll desk { r with pending := r.pending.insert asked } rest with
      | (r, .ok sent) => (r, .ok (asked :: sent))
      | (r, .error error) => (r, .error error)

/-- The hold of a request, `draw` giving the id of the message to each holder. -/
def requestRelease (requester : AgentId) (resource : ResourceKey)
    (reason : Option String) (now : Time) (draw : AgentId → MessageId) :
    Requests × Except Response (List ReleaseRequest) :=
  let r := r.settled now
  match r.core.writeFailure with
  | some error => (r, .error error)
  | none =>
    match byHolder (inTheWay r.core.leases requester resource) with
    | [] =>
      (r, .error (.error .notFound ("nobody else holds a lease on " ++ resource.key) .none))
    | holders =>
      match r.sorted desk requester resource holders with
      | .error refusal => (r, .error refusal)
      | .ok (requests, toSend) =>
        if r.pending.rows.length + toSend.length > maxReleaseRequests then
          (r, .error (.error .unavailable
            "too many release requests are already waiting for an answer" .none))
        else
          let name := r.agentName requester
          let prepared := toSend.map fun (holder, leases) =>
            let asked := request requester holder resource reason leases now (draw holder)
            (requestEnvelope name asked leases, asked)
          match prepared.find? fun (envelope, asked) =>
              !desk.routes.takes (r.inboxes asked.holder) envelope with
          | some (_, asked) =>
            (r, .error (.error .backpressure (inboxFull asked.holder) .none))
          | none =>
            match r.sendAll desk prepared with
            | (r, .ok sent) => (r, .ok (requests ++ sent))
            | (r, .error error) => (r, .error error)

/-! ## Answering -/

/-- The request's leases that the holder still holds: one it took since is not
what was asked for. -/
def stillHeld (t : LeaseTable) (asked : ReleaseRequest) (responder : AgentId) : List Lease :=
  (asked.leases.filterMap fun id => t.get? id).filter fun l => decide (l.holder = responder)

/-- The words of an answer. -/
def answerText (holderName : String) (asked : ReleaseRequest) (accept : Bool)
    (text : Option String) (released : Nat) : String :=
  (if accept then
    holderName ++ " released " ++ asked.resource.key ++ " (" ++ (match released with
        | 0 => "nothing was still held"
        | 1 => "1 lease"
        | n => toString n ++ " leases") ++ ")"
  else holderName ++ " declined to release " ++ asked.resource.key) ++ (match text with
      | some text => ": " ++ text
      | none => "")

/-- The hold of an answer; `message` is the id drawn for it. -/
def respondRelease (responder : AgentId) (id : MessageId)
    (accept : Bool) (text : Option String) (now : Time) (journal : State.Journal)
    (message : MessageId) : Requests × Except Response ReleaseRequest :=
  let r := r.settled now
  match r.core.writeFailure with
  | some error => (r, .error error)
  | none =>
    match r.pending.get? id with
    | none =>
      (r, .error (.error .notFound
        ("no release request " ++ id.id ++ " is waiting for an answer") .none))
    | some asked =>
      let holder := desk.canonicalId asked.holder
      let requester := desk.canonicalId asked.requester
      if holder ≠ responder then
        (r, .error (.error .forbidden
          ("this release request was put to " ++ r.agentName holder ++ ", not to you") .none))
      else
        let held := if accept then stillHeld r.core.leases asked responder else []
        -- nothing still held is nothing released, and no entry that says so
        let core := if held = [] then r.core else State.readLedger journal.reads r.core
        match core.writeFailure with
        | some error => ({ r with core }, .error error)
        | none =>
          let entry := if held = [] then none else journal.entry
          let answered := { asked with
            holder, requester
            answer := some ⟨accept, text, now, held.map (·.id)⟩ }
          let envelope : Envelope :=
            ⟨message, responder.id, .agent requester, "release_response",
              answerText (r.agentName holder) asked accept text held.length, some id, now⟩
          match { r with core }.publish desk ⟨envelope, held, entry, .answered answered⟩ with
          | (r, some error) => (r, .error error)
          | (r, none) => ({ r with pending := r.pending.erase id }, .ok answered)

end Requests

end AgentDocker.Daemon
