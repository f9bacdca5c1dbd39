import AgentDocker.Daemon.State

/-!
# Lease requests

What the daemon does for a lease request, one hold of the state lock at a
time. `renew`, `release` and the acceptance of a handoff are one hold each. A
claim is several: it attempts, and when it is refused and may wait it takes a
place in the queue, sleeps, and looks at what woke it before it attempts
again. Between two holds anything may happen, so a claim is kept here as the
local variables it carries from one to the next.

A client that goes away drops its request wherever it sleeps; `dropped` is
that.
-/

namespace AgentDocker.Daemon

open AgentDocker.Core Lib

/-! ## Answers -/

def maxLeaseTtlSecs : Nat := 24 * 60 * 60

def taskLeaseSecs : Nat := 4 * 60 * 60

def ttl (secs : Nat) : Time := (min secs maxLeaseTtlSecs : Nat)

def u64Max : Nat := UInt64.size - 1

def leaseError (err : LeaseError) : Response :=
  let code := match err with
    | .conflict .. => ErrorCode.conflict
    | .notFound _ => .notFound
    | .notHolder .. => .forbidden
  .error code err.display .none

def pauseRefusal (pause : Pause) : Response :=
  .error .paused ("the project is paused: " ++ pause.reason ++
    "; finish the step in hand and take nothing new until it is resumed") (.pause pause)

/-- A cycle as a sentence. -/
def describe (cycle : List Blocked) : String :=
  String.intercalate "; " <| cycle.map fun step =>
    step.agent.short ++ " waits for " ++ step.resource.key ++ " held by " ++ step.heldBy.short

def notRunning : Response := .error .invalid "agent is not running" .none

/-- The refusal of a claim by who holds what, with the holders' names. -/
def heldMessage (env : Env) (resource : ResourceKey) (heldBy : List Lease) : String :=
  let holders := heldBy.map fun l =>
    let name := match env.registry l.holder with
      | some agent => if agent.name = "" then "an unknown agent" else agent.name
      | none => "an unknown agent"
    name ++ " (" ++ l.holder.short ++ "; " ++ l.mode.display ++ " on " ++ l.resource.key ++ ")"
  resource.key ++ " is held by " ++ String.intercalate ", " holders

/-- The answer to a claim whose wait another claim ended to break a ring. -/
def endedByDeadlock (leases : LeaseTable) (resource : ResourceKey) (cycle : List Blocked) :
    Response :=
  .error .deadlock ("the wait for " ++ resource.key ++
    " was ended to break a deadlock: " ++ describe cycle)
    (.cycle cycle (leases.holdersOf resource))

namespace State

/-! ## Leases leaving -/

def persistLeaseRemoval (s : State) (lease : Lease) (expired : Bool) : State :=
  let kind : EventKind := if expired then .leaseExpired lease else .leaseReleased lease
  (s.commit "lease removal" [kind] (·.erase lease.id) id).1

/-- Expiry is memory first, then the writes; while fenced it is skipped
whole. -/
def expireLeasesAt (s : State) (now : Time) : State :=
  if s.fenced then
    s
  else
    let (leases, expired) := s.leases.expire now
    expired.foldl (·.persistLeaseRemoval · true) { s with leases := leases }

/-- Liveness, an optional lease and its event in one transition. -/
def commitLeaseActivity (s : State) (lease : Option Lease) (kind : Option EventKind) :
    State × Bool :=
  let write : LeaseTable → LeaseTable := match lease with
    | some lease => (·.insert lease)
    | none => id
  let apply : LeaseTable → LeaseTable := match lease with
    | some lease => (·.restore lease)
    | none => id
  let (s, persisted) := s.commit "lease activity" kind.toList write apply
  (s, persisted == .committed)

/-- Stamp an agent's liveness. -/
def touch (s : State) (agent : AgentId) : State :=
  match s.env.registry agent with
  | some _ => (s.persist "agent" id).1
  | none => s

end State

/-! ## A place in the queue -/

/-- The guard a claim holds its place by. -/
structure Waiting where
  ticket : Option Nat
  resource : ResourceKey
  requester : AgentId
deriving DecidableEq, Repr

namespace Waiting

def new (requester : AgentId) (resource : ResourceKey) : Waiting :=
  ⟨none, resource, requester⟩

/-- Wait as `requester` instead, before any place is taken. -/
def follow (g : Waiting) (requester : AgentId) : Waiting :=
  match g.ticket with
  | none => { g with requester := requester }
  | some _ => g

variable (g : Waiting) (s : State)

/-- Take a place, announcing where in the queue it landed. -/
def joinLocked (mode : LeaseMode) (priority : Int) (now : Time) : State × Waiting :=
  match g.ticket with
  | some _ => (s, g)
  | none =>
    let (queue, ticket) := s.waiting.join g.requester g.resource mode priority now
    let position := (queue.position ticket).getD 0
    (State.emit { s with waiting := queue }
        (.leaseWaiting g.resource g.requester position),
      { g with ticket := some ticket })

/-- Say that a wait ended without one ever having begun. -/
def neverStarted (outcome : WaitOutcome) : State :=
  s.emit (.leaseWaitEnded g.resource g.requester outcome none)

/-- Give the place up. A wait that another claim already ended was said to end
then. -/
def endLocked (outcome : WaitOutcome) : State × Waiting :=
  match g.ticket with
  | none => (s, g)
  | some ticket =>
    match s.waiting.leave ticket with
    | (queue, none) => ({ s with waiting := queue }, { g with ticket := none })
    | (queue, some _) =>
      (State.emit { s with waiting := queue }
          (.leaseWaitEnded g.resource g.requester outcome (some ticket)),
        { g with ticket := none })

/-- The ring this wait was ended to break, when another claim chose it; its
place is already gone, and this forgets the ticket. -/
def deadlocked : State × Waiting × Option (List Blocked) :=
  match g.ticket with
  | none => (s, g, none)
  | some ticket =>
    match s.waiting.deadlocked ticket with
    | none => (s, g, none)
    | some cycle =>
      ({ s with waiting := (s.waiting.leave ticket).1 }, { g with ticket := none },
        some cycle)

end Waiting

namespace State

/-- A claim with no ticket has not waited yet and may always try. -/
def mayAttempt (s : State) (ticket : Option Nat) : Bool :=
  match ticket with
  | none => true
  | some ticket => s.waiting.isNext ticket

/-- Would waiting for this close a cycle? -/
def deadlock (s : State) (requester : AgentId) (resource : ResourceKey) : Option (List Blocked) :=
  Core.deadlock requester resource (s.leases.all.map fun l => (l.resource, l.holder))
    (s.waiting.all.map fun w => (w.agent, w.resource))

/-- The passes of `breakRings`; each ends one queued wait. -/
def breakRingsPass (requester : AgentId) (resource : ResourceKey) (priority : Int) :
    Nat → State → State × Option (List Blocked)
  | 0, s => (s, none)
  | n + 1, s =>
    match s.deadlock requester resource with
    | none => (s, none)
    | some cycle =>
      let v := victim cycle priority s.waiting.all
      let ended := match v.ticket with
        | none => (s.waiting, none)
        | some ticket => s.waiting.breakRing ticket cycle
      match ended with
      | (queue, none) =>
        (State.emit { s with waiting := queue } (.leaseDeadlock cycle cycle[0]?),
          some cycle)
      | (queue, some waiter) =>
        let s := State.emit { s with waiting := queue }
          (.leaseDeadlock cycle cycle[v.step]?)
        breakRingsPass requester resource priority n
          (s.emit (.leaseWaitEnded waiter.resource waiter.agent .deadlock
            (some waiter.ticket)))

/-- Before a claim agrees to wait: break every ring its wait would close. The
ring is returned when this claim is the victim. -/
def breakRings (s : State) (requester : AgentId) (resource : ResourceKey)
    (priority : Int) : State × Option (List Blocked) :=
  breakRingsPass requester resource priority (s.waiting.all.length + 1) s

end State

/-! ## Claims -/

/-- A claim as it was asked for, its agent and resource resolved. -/
structure ClaimArgs where
  resource : ResourceKey
  mode : LeaseMode
  amount : Option Nat
  ttlSecs : Nat
  note : Option String
  waitSecs : Nat
  priority : Int
  automatic : Bool
deriving DecidableEq, Repr

namespace ClaimArgs

def isQuota (args : ClaimArgs) : Bool := args.resource.kind == "quota".toList

/-- The mode a claim takes its lease in: a quota is spent, not occupied. -/
def leaseMode (args : ClaimArgs) : LeaseMode :=
  if args.isQuota then .shared else args.mode

end ClaimArgs

inductive Phase where
  /-- About to attempt. -/
  | attempting
  /-- Asleep, with the refusal it would answer at its deadline. -/
  | waiting (message : String) (heldBy : List Lease)
  | answered (response : Response)
  /-- Its client went away. -/
  | dropped
deriving DecidableEq, Repr

/-- A claim between two holds. The last four fields are no variables of the
source; they say what the claim has been through. -/
structure Claim where
  number : Nat
  args : ClaimArgs
  holder : AgentId
  reportedConflict : Bool
  guard : Waiting
  phase : Phase
  /-- The first ticket that had not been handed out when it was asked for. -/
  askedAt : Nat
  /-- How many events had been published when its last attempt ended. -/
  mark : Nat
  /-- The ticket it joined the queue with. -/
  joined : Option Nat
  /-- Whether a ring had been broken at its wait when its client went away. -/
  ringBroken : Bool
deriving DecidableEq, Repr

namespace Claim

/-- Claim as the record that stays, when the one resolved was folded into
another. -/
def followed (c : Claim) (current : AgentId) : Claim :=
  if current ≠ c.holder then
    { c with holder := current, guard := c.guard.follow current }
  else
    c

def request (c : Claim) : ClaimRequest where
  resource := c.args.resource
  holder := c.holder
  mode := c.args.leaseMode
  ttl := ttl c.args.ttlSecs
  note := c.args.note
  automatic := c.args.automatic

end Claim

/-- What an attempt comes to: an answer with the outcome of the wait it ends,
or a conflict to wait out. -/
abbrev Attempt := Except (Response × WaitOutcome) (String × List Lease)

namespace State

variable (s : State) (c : Claim)

/-- The refusal of a claim on a quota that has no room for it. -/
def overQuota : Option Response :=
  if c.args.isQuota then
    match s.env.quotaCapacity c.holder (String.ofList c.args.resource.value) with
    | none => none
    | some capacity =>
      let want := c.args.amount.getD 1
      let committed := s.leases.committed c.args.resource
      if min (committed + want) u64Max > capacity then
        some (.error .conflict (c.args.resource.key ++ " has " ++
            toString (capacity - committed) ++ " of " ++ toString capacity ++
            " left and " ++ toString want ++ " was asked for")
          (.quota (String.ofList c.args.resource.value) capacity committed want))
      else
        none
  else
    none

section

variable (now : Time) (id : LeaseId)

/-- The lease table's answer, or that somebody is ahead in the queue. -/
def tryClaim : Except LeaseError Claimed :=
  if s.mayAttempt c.guard.ticket then
    (s.leases.claimAs c.request now id).2
  else
    .error (.conflict c.args.resource (s.leases.holdersOf c.args.resource))

/-- Commit a lease the table granted. -/
def grant (lease : Lease) (kind : EventKind) : State × Claim × Attempt :=
  match s.commitLeaseActivity (some lease) (some kind) with
  | (s, true) => (s, c, .error (.lease lease, .claimed))
  | (s, false) =>
    (s, c, .error (s.writeFailure.getD
      (.error .internal "failed lease commit freezes storage" .none), .cancelled))

/-- Agree to wait, unless that would close a ring broken at this claim. -/
def joinQueue (message : String) (heldBy : List Lease) (now : Time) : State × Claim × Attempt :=
  match s.breakRings c.holder c.args.resource c.args.priority with
  | (s, some cycle) =>
    (c.guard.neverStarted s .deadlock, c,
      .error (.error .deadlock ("waiting for " ++ c.args.resource.key ++
        " would deadlock: " ++ describe cycle) (.cycle cycle heldBy), .deadlock))
  | (s, none) =>
    let (s, guard) := c.guard.joinLocked s c.args.mode c.args.priority now
    (s, { c with guard := guard, joined := guard.ticket }, .ok (message, heldBy))

/-- Record a conflict, and wait for it to clear if the claim may. -/
def conflict (s : State) (c : Claim) (heldBy : List Lease) (now : Time) : State × Claim × Attempt :=
  let message := heldMessage s.env c.args.resource heldBy
  let kind : Option EventKind :=
    if c.reportedConflict then none
    else some (.leaseConflict c.args.resource c.holder (heldBy.map (·.holder)))
  match s.commitLeaseActivity none kind with
  | (s, false) =>
    (s, c, .error (s.writeFailure.getD
      (.error .internal "failed conflict commit freezes storage" .none), .cancelled))
  | (s, true) =>
    let c := { c with reportedConflict := true }
    if c.args.waitSecs > 0 ∧ c.guard.ticket = none then
      s.joinQueue c message heldBy now
    else
      (s, c, .ok (message, heldBy))

/-- What the lease table says, and what follows from it. -/
def decideClaim : State × Claim × Attempt :=
  match s.tryClaim c now id with
  | .ok (.new lease) =>
    let (s, watermark) := s.storeRead "lease ledger boundary" fun store =>
      (store, store.changeWatermark)
    let lease := { lease with
      changeSeq := watermark
      amount := if c.args.isQuota then c.args.amount.getD 1 else lease.amount }
    s.grant c lease (.leaseClaimed lease)
  | .ok (.renewed lease) => s.grant c lease (.leaseRenewed lease)
  | .error (.conflict _ heldBy) => s.conflict c heldBy now
  | .error other => (s, c, .error (leaseError other, .cancelled))

/-- An attempt past the checks on its agent: expiry, the quota, the table. -/
def attemptClaim : State × Claim × Attempt :=
  let s := s.expireLeasesAt now
  match s.writeFailure with
  | some error => (s, c, .error (error, .cancelled))
  | none =>
    match s.overQuota c with
    | some refusal =>
      let s := s.touch c.holder
      (s, c, .error (s.writeFailure.getD refusal, .cancelled))
    | none => s.decideClaim c now id

/-- The hold of one attempt, from the checks on its agent on. -/
def attemptHold : State × Claim × Attempt :=
  match s.env.registry c.holder with
  | none => (s, c, .error (notRunning, .cancelled))
  | some agent =>
    if agent.status ≠ .running then
      (s, c, .error (notRunning, .cancelled))
    else
      let c := c.followed agent.id
      match s.writeFailure with
      | some error => (s, c, .error (error, .cancelled))
      | none =>
        match s.env.pauseHolding c.holder with
        | some pause => (s, c, .error (pauseRefusal pause, .cancelled))
        | none => s.attemptClaim c now id

/-- One request fewer is executing. -/
def placeBack : State := { s with inFlight := s.inFlight - 1 }

/-- One attempt. Whatever it answers, the claim's place goes in the same
hold. -/
def attempt : State × Claim :=
  match c.guard.deadlocked s with
  | (s, guard, some cycle) =>
    (s.placeBack, { c with
      guard := guard
      phase := .answered (endedByDeadlock s.leases c.args.resource cycle) })
  | (_, _, none) =>
    match s.attemptHold c now id with
    | (s, c, .error (response, outcome)) =>
      let (s, guard) := c.guard.endLocked s outcome
      (s.placeBack, { c with guard := guard, phase := .answered response })
    | (s, c, .ok (message, heldBy)) =>
      if c.args.waitSecs = 0 then
        (s.placeBack, { c with
          phase := .answered (.error .conflict message (.heldBy heldBy)) })
      else
        (s.placeBack, { c with
          phase := .waiting message heldBy
          mark := s.published.length })

end

/-- What a wake means: a ring broken at this wait first, then the deadline,
then a handover that refuses it another attempt. -/
def wake (message : String) (heldBy : List Lease) (woke : Bool) : State × Claim :=
  match c.guard.deadlocked s with
  | (s, guard, some cycle) =>
    (s, { c with
      guard := guard
      phase := .answered (endedByDeadlock s.leases c.args.resource cycle) })
  | (_, _, none) =>
    if !woke then
      let (s, guard) := c.guard.endLocked s .timeout
      (s, { c with
        guard := guard
        phase := .answered (.error .conflict message (.heldBy heldBy)) })
    else
      match s.transferring with
      | some refusal =>
        let (s, guard) := c.guard.endLocked s .cancelled
        (s, { c with guard := guard, phase := .answered refusal })
      | none => ({ s with inFlight := s.inFlight + 1 }, { c with phase := .attempting })

/-- The client went away: the request's place among those executing, if it has
one, and its place in the queue are given back. -/
def drop : State × Claim :=
  let s := if c.phase = .attempting then s.placeBack else s
  let broken := c.guard.ticket.any fun ticket => (s.waiting.deadlocked ticket).isSome
  let (s, guard) := c.guard.endLocked s .cancelled
  (s, { c with guard := guard, phase := .dropped, ringBroken := broken })

/-- A claim's request, up to its first attempt. -/
def requestClaim (number : Nat) (holder : AgentId) (args : ClaimArgs) : State × Claim :=
  let c (phase : Phase) : Claim :=
    ⟨number, args, holder, false, .new holder args.resource, phase, s.waiting.nextTicket, 0,
      none, false⟩
  match s.storageFailure with
  | some error => (s, c (.answered error))
  | none =>
    match s.transferring with
    | some refusal => (s, c (.answered refusal))
    | none =>
      if !validPriority args.priority then
        (s, c (.answered (.error .invalid ("priority must be from " ++
          toString minPriority ++ " to " ++ toString maxPriority ++ ", not " ++
          toString args.priority) .none)))
      else
        match s.env.pauseHolding holder with
        | some pause => (s, c (.answered (pauseRefusal pause)))
        | none => ({ s with inFlight := s.inFlight + 1 }, c .attempting)

/-! ## Renewals, releases, handoffs -/

def renew (s : State) (holder : AgentId) (lease : LeaseId) (ttlSecs : Nat) (now : Time) :
    State × Response :=
  match s.storageFailure with
  | some error => (s, error)
  | none =>
    if (s.env.registry holder).any (·.status == .running) then
      let s := s.expireLeasesAt now
      match s.writeFailure with
      | some error => (s, error)
      | none =>
        let card := (s.leases.get? lease).any fun l =>
          "task:".toList.isPrefixOf l.resource.asStr.toList
        let ttlSecs := if card then max ttlSecs taskLeaseSecs else ttlSecs
        match (s.leases.renew lease holder (ttl ttlSecs) now).2 with
        | .error err => (s, leaseError err)
        | .ok renewed =>
          match s.commitLeaseActivity (some renewed) (some (.leaseRenewed renewed)) with
          | (s, true) => (s, .lease renewed)
          | (s, false) =>
            (s, s.writeFailure.getD
              (.error .internal "failed renewal freezes storage" .none))
    else
      (s, notRunning)

/-- What the journal makes of a release: how often its ledger is read, and the
entry that comes of it. -/
structure Journal where
  reads : Nat
  entry : Option JournalEntry
deriving DecidableEq, Repr

/-- The reads of the change ledger a journal entry is made from. -/
def readLedger : Nat → State → State
  | 0, s => s
  | n + 1, s => readLedger n (s.storeRead "journal" fun store => (store, ())).1

/-- Deletion and the journal's evidence in one transaction, then memory. -/
def finishRelease (released : List Lease) (journal : Journal) : State :=
  let s := readLedger journal.reads s
  if released = [] then
    match journal.entry with
    | none => s
    | some entry => (s.commit "journal" [.journalAppended entry] id id).1
  else
    (s.commit "release"
      (released.map .leaseReleased ++ journal.entry.toList.map .journalAppended)
      (fun rows => released.foldl (fun rows l => rows.erase l.id) rows)
      (fun t => released.foldl (fun t l => (t.release l.id l.holder).1) t)).1

def release (s : State) (holder : AgentId) (lease : LeaseId) (journal : Journal) :
    State × Response :=
  match s.storageFailure with
  | some error => (s, error)
  | none =>
    match (s.leases.release lease holder).2 with
    | .error err => (s, leaseError err)
    | .ok lease => (s.finishRelease [lease] journal, .lease lease)

def releaseAll (holder : AgentId) (onlyAutomatic : Bool) (journal : Journal) : State × Response :=
  match s.storageFailure with
  | some error => (s, error)
  | none =>
    let released := (s.leases.byHolder holder).filter fun l => !onlyAutomatic || l.automatic
    (s.finishRelease released journal, .leases released)

/-- A handoff to accept: what its sender bundled, and who takes it. -/
structure Handoff where
  checkpoint : String
  sender : AgentId
  recipient : AgentId
  leases : List LeaseId
  transferLeases : Bool
  /-- The recipient's journal cursor, where the bundle moves it on. -/
  cursor : Option (String × Nat)
deriving DecidableEq, Repr

/-- The acceptance of a handoff: memory moves first, and is put back as it was
when the write does not land. -/
def resume (h : Handoff) (now : Time) : State × Response :=
  let before := s.leases.rows.filter fun l => decide (h.transferLeases ∧ l.id ∈ h.leases)
  let (leases, transferred) :=
    if h.transferLeases then s.leases.transferSelected h.sender h.recipient h.leases now
    else (s.leases, [])
  let kinds : List EventKind :=
    .handoffAccepted h.recipient h.checkpoint ::
      transferred.map (.leaseTransferred · h.sender h.recipient) ++
      h.cursor.toList.map fun (project, seq) => .journalRead h.recipient.id project seq
  let s := ({ s with leases := leases }.commit "handoff acceptance" kinds
    (fun rows => transferred.foldl (fun rows l => rows.insert l) rows) id).1
  match s.writeFailure with
  | none => (s, .ok)
  | some error =>
    let back (l : Lease) : Lease :=
      (before.find? fun b => decide (b.id = l.id)).getD { l with holder := h.sender }
    ({ s with leases := transferred.foldl (fun t l => t.restore (back l)) s.leases }, error)

end State

end AgentDocker.Daemon
