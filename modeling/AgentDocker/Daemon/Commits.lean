import AgentDocker.Daemon.State
import AgentDocker.Lib.Outcomes
import AgentDocker.Lib.Runs

/-!
# The event log, and who appends to it

Every change a daemon makes is one transaction that writes rows and appends the
events that tell of it. `commit` numbers the events before the write and takes the
numbers only when it landed; `commitProduced` lets the store compose them. The
handover of coordination has writes of its own, some of them past the fence, and a
successor goes on from the number it found when it opened the database.

Here the rows and the daemon's memory are any types: what a write does to the rows,
what it computes for memory and what memory makes of it are the caller's, and a
write may refuse. The disk's answer to each transaction is an input. The number of
an event is its key, so a second event with a number is refused by the table.
-/

namespace AgentDocker.Daemon

open AgentDocker.Core Lib

/-- The database, as far as coordination goes. -/
structure Database (R : Type) where
  /-- The `coordinator` table, which has one row at most. -/
  transfer : Option Transfer
  rows : R
  events : List Event
  /-- The highest number an event ever had. -/
  sequence : Nat

namespace Database

variable {R A : Type}

/-- Numbers are stored in 64 bits, with a sign. -/
def lastSeq : Nat := 9223372036854775807

variable (db : Database R)

def appendEvent (event : Event) : Except String (Database R) :=
  if lastSeq < event.seq then
    .error "durable event sequence exhausted"
  else if event.seq ∈ db.events.map Event.seq then
    .error "UNIQUE constraint failed: events.seq"
  else
    .ok { db with events := db.events ++ [event], sequence := max db.sequence event.seq }

def appendEvents (events : List Event) : Except String (Database R) :=
  events.foldlM appendEvent db

/-- One transaction: it lands whole or, with an error, not at all. -/
def transact (disk : Option String) (op : Database R → Except String (Database R × A)) :
    Database R × Except String A :=
  match disk with
  | some err => (db, .error err)
  | none =>
    match op db with
    | .error err => (db, .error err)
    | .ok (db, a) => (db, .ok a)

/-- The coordinator row and the event that tells of it. -/
def recordTransfer (transfer : Transfer) (event : Event) : Except String (Database R × Bool) := do
  let db ← { db with transfer := some transfer }.appendEvent event
  pure (db, true)

/-- Record an offer; refused while another transfer is still offered. -/
def offerTransfer (transfer : Transfer) (event : Event) (db : Database R) :
    Except String (Database R × Bool) :=
  match db.transfer with
  | some current =>
    if current.state = .offered ∧ current.id ≠ transfer.id then .ok (db, false)
    else db.recordTransfer transfer event
  | none => db.recordTransfer transfer event

def readdressTransfer (id : String) (successorPid : Nat) (event : Event) (db : Database R) :
    Except String (Database R × Bool) :=
  match db.transfer with
  | none => .ok (db, false)
  | some current =>
    if current.id ≠ id ∨ current.state ≠ .offered then .ok (db, false)
    else db.recordTransfer { current with successorPid := some successorPid } event

/-- Move a transfer out of `offered`, only if it is still there and, when a
pid is given, offered to that pid. -/
def settleTransfer (id : String) (successorPid : Option Nat) (outcome : TransferState)
    (event : Event) (db : Database R) : Except String (Database R × Bool) :=
  match db.transfer with
  | none => .ok (db, false)
  | some current =>
    if current.id ≠ id ∨ current.state ≠ .offered then .ok (db, false)
    else if successorPid.isSome ∧ current.successorPid ≠ successorPid then .ok (db, false)
    else db.recordTransfer { current with state := outcome } event

/-- The transfer a database is in the middle of. -/
def pendingTransfer : Option Transfer :=
  db.transfer.filter fun transfer => decide (transfer.state = .offered)

end Database

/-- A recovery write held back by a daemon that opened fenced: what it makes of the rows,
and the events it appends from the number it is given. -/
abbrev Recovery (R : Type) := R → Nat → Except String (R × List EventKind)

/-- One daemon process. -/
structure Coordinator (R M : Type) where
  pid : Nat
  /-- The transfer the process was started to take over, until it has tried. -/
  takeOver : Option String
  storageError : Option String
  coordination : Coordination
  skippedWrite : Bool
  /-- The successor that may reach the session owners, with its birth. -/
  ownerSuccessor : Option (Nat × Time)
  deferredRecovery : List (Recovery R)
  inFlight : Nat
  nextSeq : Nat
  memory : M
  /-- What was sent to the event channel, oldest first. -/
  published : List Event

/-- A daemon with the database open. -/
structure Session (R M : Type) where
  db : Database R
  daemon : Coordinator R M

namespace Session

variable {R M T A : Type}

variable (s : Session R M)

def fenced : Bool := decide (s.daemon.coordination ≠ .serving)

def transferring : Response :=
  .error .transferring ("the daemon is handing coordination to its successor; " ++
    "nothing was applied, retry against the daemon that answers next") .none

/-- Did the last write land? -/
def writeFailure : Option Response :=
  match s.daemon.storageError with
  | some error =>
    some (.error .storageUnavailable
      ("storage failed (" ++ error ++ "); coordination disabled until daemon restart") .none)
  | none => if s.daemon.skippedWrite && s.fenced then some transferring else none

section

variable (what : String) (disk : Option String)

/-- Write, and say what happened. -/
def persist
    (write : Database R → Except String (Database R × A)) : Session R M × Persisted × Option A :=
  if s.daemon.storageError.isSome then
    (s, .failed, none)
  else if s.fenced then
    ({ s with daemon := { s.daemon with skippedWrite := true } }, .skipped, none)
  else
    match s.db.transact disk write with
    | (_, .error err) =>
      ({ s with daemon := { s.daemon with storageError := some (what ++ ": " ++ err) } },
        .failed, none)
    | (db, .ok a) =>
      (⟨db, { s.daemon with skippedWrite := false }⟩, .committed, some a)

/-- Events that take their numbers from this one on. -/
def numberFrom (first : Nat) (kinds : List EventKind) : List Event :=
  kinds.zipIdx.map fun (kind, index) => ⟨first + index, kind⟩

/-- What follows a transaction that committed: the numbers are used up, memory changes
and the events go out. -/
def advance (events : List Event) (memory : M) : Session R M :=
  { s with
    daemon := { s.daemon with
      nextSeq := s.daemon.nextSeq + events.length
      memory := memory
      published := s.daemon.published ++ events } }

/-- One durable transition, the way every state change is made. -/
def commit (what : String) (kinds : List EventKind) (disk : Option String)
    (write : R → List Event → Except String (R × T)) (apply : M → List Event → T → M) :
    Session R M × Persisted :=
  let events := numberFrom s.daemon.nextSeq kinds
  match s.persist what disk fun db => do
      let (rows, written) ← write db.rows events
      let db ← { db with rows }.appendEvents events
      pure (db, written) with
  | (s, .committed, some written) =>
    (s.advance events (apply s.daemon.memory events written), .committed)
  | (s, persisted, _) => (s, persisted)

/-- A write that is given the first event of a commit. -/
def writeFirst (write : R → Event → Except String R) (rows : R) (events : List Event) :
    Except String (R × Unit) :=
  match events with
  | [] => pure (rows, ())
  | event :: _ => do
      let rows ← write rows event
      pure (rows, ())

/-- One event, a write that returns nothing, and the memory change that follows it. -/
def transition (what : String) (kind : EventKind) (disk : Option String)
    (write : R → Event → Except String R) (apply : M → M) : Session R M × Persisted :=
  s.commit what [kind] disk (writeFirst write) fun memory _ _ => apply memory

/-- For a store that composes the events itself from the first number it is given. -/
def commitProduced
    (write : R → Nat → Except String (R × List EventKind × T)) (apply : M → List Event → T → M) :
    Session R M × Persisted :=
  let first := s.daemon.nextSeq
  match s.persist what disk fun db => do
      let (rows, kinds, written) ← write db.rows first
      let db ← { db with rows }.appendEvents (numberFrom first kinds)
      pure (db, numberFrom first kinds, written) with
  | (s, .committed, some (events, written)) =>
    (s.advance events (apply s.daemon.memory events written), .committed)
  | (s, persisted, _) => (s, persisted)

/-- A write without events. -/
def keep (write : R → Except String R) : Session R M × Persisted :=
  let (s, persisted, _) := s.persist what disk fun db => do
    let rows ← write db.rows
    pure ({ db with rows }, ())
  (s, persisted)

end

/-! ## Handing over -/

/-- Stop writing and record the offer, under the id drawn for it. -/
def offerTransfer (s : Session R M) (id : String) (successorPid : Nat) (disk : Option String) :
    Session R M × Except Response Transfer :=
  match s.writeFailure with
  | some error => (s, .error error)
  | none =>
    if s.fenced then
      (s, .error (.error .conflict "a coordination transfer is already in flight" .none))
    else if s.daemon.inFlight > 0 then
      (s, .error (.error .backpressure (toString s.daemon.inFlight ++
        " mutating request(s) still executing; offer again once they finish") .none))
    else
      let transfer : Transfer := ⟨id, s.daemon.pid, some successorPid, .offered⟩
      let event : Event := ⟨s.daemon.nextSeq, .daemonTransferOffered id successorPid⟩
      match s.db.transact disk (Database.offerTransfer transfer event) with
      | (db, .ok true) =>
        let s := ({ s with db }).advance [event] s.daemon.memory
        ({ s with daemon := { s.daemon with coordination := .quiescing id } }, .ok transfer)
      | (_, .ok false) =>
        (s, .error (.error .conflict
          "another coordination transfer is still offered in the database" .none))
      | (_, .error err) =>
        let s := { s with
          daemon := { s.daemon with storageError := some ("transfer offer: " ++ err) } }
        (s, .error (s.writeFailure.getD
          (.error .storageUnavailable "cannot record the offer" .none)))

/-- Name the successor once it exists; `born` is when its process began. -/
def readdressOffer (transfer : String) (successorPid : Nat) (born : Option Time)
    (disk : Option String) : Session R M × Bool :=
  match s.daemon.coordination with
  | .quiescing current =>
    if current ≠ transfer then (s, false)
    else
      let event : Event := ⟨s.daemon.nextSeq, .daemonTransferReaddressed transfer successorPid⟩
      match s.db.transact disk (Database.readdressTransfer transfer successorPid event) with
      | (db, .ok true) =>
        let s := ({ s with db }).advance [event] s.daemon.memory
        ({ s with
            daemon := { s.daemon with
              ownerSuccessor := born.map fun born => (successorPid, born) } }, true)
      | (_, .ok false) => (s, false)
      | (_, .error _) => (s, false)
  | _ => (s, false)

/-- Take authority back, if the offer is still ours to abort. -/
def abortTransfer (reason : String) (disk : Option String) : Session R M × Bool :=
  let s := { s with daemon := { s.daemon with ownerSuccessor := none } }
  match s.daemon.coordination with
  | .quiescing transfer =>
    let event : Event := ⟨s.daemon.nextSeq, .daemonTransferAborted transfer reason⟩
    -- past the fence: settling is the one write a fenced coordinator may make
    match s.db.transact disk (Database.settleTransfer transfer none .aborted event) with
    | (db, .ok true) =>
      let s := ({ s with db }).advance [event] s.daemon.memory
      ({ s with daemon := { s.daemon with coordination := .serving, skippedWrite := false } },
        true)
    | (_, .ok false) =>
      ({ s with daemon := { s.daemon with coordination := .transferred transfer } }, false)
    | (_, .error _) => (s, false)
  | _ => (s, !s.fenced)

/-- The recovery a fenced open held back, until a write fails; `disk` answers from the
given use on. -/
def runDeferred (disk : Nat → Option String) : List (Recovery R) → Nat → Session R M → Session R M
  | [], _, s => s
  | write :: rest, use, s =>
    let seq := s.daemon.nextSeq
    match s.persist "deferred recovery" (disk use) fun db => do
        let (rows, kinds) ← write db.rows seq
        let db ← { db with rows }.appendEvents (numberFrom seq kinds)
        pure (db, kinds.length) with
    | (s, .failed, _) => s
    | (s, _, used) =>
      runDeferred disk rest (use + 1)
        { s with daemon := { s.daemon with nextSeq := s.daemon.nextSeq + used.getD 0 } }

/-- The successor's first act: accept the offer addressed to it, or learn that it must not
write. -/
def acceptTransfer (transfer : String) (disk : Nat → Option String) :
    Session R M × Except String Unit :=
  let event : Event := ⟨s.daemon.nextSeq, .daemonTransferAccepted transfer⟩
  match s.db.transact (disk 0)
      (Database.settleTransfer transfer (some s.daemon.pid) .accepted event) with
  | (db, .ok true) =>
    let accepted := ({ s with db }).advance [event] s.daemon.memory
    (runDeferred disk s.daemon.deferredRecovery 1
      { accepted with
        daemon := { accepted.daemon with coordination := .serving, deferredRecovery := [] } },
      .ok ())
  | (_, .ok false) =>
    (s, .error ("transfer " ++ transfer ++ " is not offered to this process; refusing to write"))
  | (_, .error err) => (s, .error ("cannot accept transfer " ++ transfer ++ ": " ++ err))

end Session

/-! ## One database, many processes -/

/-- What a process asks of its database. Every write is the caller's: `T` is what writes
hand to memory. -/
inductive Act (R M T : Type) where
  | commit (what : String) (kinds : List EventKind) (disk : Option String)
      (write : R → List Event → Except String (R × T)) (apply : M → List Event → T → M)
  | transition (what : String) (kind : EventKind) (disk : Option String)
      (write : R → Event → Except String R) (apply : M → M)
  | commitProduced (what : String) (disk : Option String)
      (write : R → Nat → Except String (R × List EventKind × T)) (apply : M → List Event → T → M)
  | persist (what : String) (disk : Option String) (write : R → Except String R)
  | offer (id : String) (successorPid : Nat) (disk : Option String)
  | readdress (transfer : String) (successorPid : Nat) (born : Option Time) (disk : Option String)
  | abort (reason : String) (disk : Option String)

def Act.perform {R M T : Type} (s : Session R M) : Act R M T → Session R M
  | .commit what kinds disk write apply => (s.commit what kinds disk write apply).1
  | .transition what kind disk write apply => (s.transition what kind disk write apply).1
  | .commitProduced what disk write apply => (s.commitProduced what disk write apply).1
  | .persist what disk write => (s.keep what disk write).1
  | .offer id successorPid disk => (s.offerTransfer id successorPid disk).1
  | .readdress transfer successorPid born disk =>
    (s.readdressOffer transfer successorPid born disk).1
  | .abort reason disk => (s.abortTransfer reason disk).1

/-- The acts that hand over are asked for, by requests that only a daemon that serves
takes. -/
def Act.handsOver {R M T : Type} : Act R M T → Bool
  | .offer .. | .readdress .. | .abort .. => true
  | _ => false

structure Cluster (R M : Type) where
  db : Database R
  daemons : Keyed (Coordinator.pid : Coordinator R M → Nat)
  /-- The transfer ids drawn so far; a new one is none of these. -/
  drawn : List String

namespace Cluster

variable {R M T : Type}

inductive Op (R M T : Type) where
  /-- A process opens the database, to take over a transfer it was told of or by itself. -/
  | opened (pid : Nat) (takeOver : Option String) (deferred : List (Recovery R)) (memory : M)
  | act (pid : Nat) (act : Act R M T)
  /-- The process takes over, and leaves if it may not. -/
  | accept (pid : Nat) (disk : Nat → Option String)
  /-- So many mutating requests are executing. -/
  | admitted (pid : Nat) (inFlight : Nat)
  | stop (pid : Nat)

/-- A process that has opened the database and done nothing yet. -/
def opening (db : Database R) (pid : Nat) (takeOver : Option String) (deferred : List (Recovery R))
    (memory : M) : Coordinator R M where
  pid := pid
  takeOver := takeOver
  storageError := none
  coordination := match db.pendingTransfer with
    | some transfer => .quiescing transfer.id
    | none => .serving
  skippedWrite := false
  ownerSuccessor := none
  deferredRecovery := if db.pendingTransfer.isSome then deferred else []
  inFlight := 0
  nextSeq := db.sequence + 1
  memory := memory
  published := []

/-- The ids an act draws. -/
def draws : Act R M T → List String
  | .offer id _ _ => [id]
  | _ => []

def put (c : Cluster R M) (s : Session R M) : Cluster R M :=
  { c with db := s.db, daemons := c.daemons.insert s.daemon }

def step (c : Cluster R M) : Op R M T → Cluster R M
  | .opened pid takeOver deferred memory =>
    if (c.daemons.get? pid).isSome || takeOver.any (fun id => decide (id ∉ c.drawn)) then c
    else { c with daemons := c.daemons.insert (opening c.db pid takeOver deferred memory) }
  | .act pid act =>
    match c.daemons.get? pid with
    | none => c
    | some d =>
      if (draws act).any fun id => decide (id ∈ c.drawn) then c
      -- a process that takes over does so before it serves anything
      else if d.takeOver.isSome && act.handsOver then c
      else { c.put (act.perform ⟨c.db, d⟩) with drawn := draws act ++ c.drawn }
  | .accept pid disk =>
    match c.daemons.get? pid with
    | none => c
    | some d =>
      match d.takeOver with
      | none => c
      | some transfer =>
        match (Session.mk c.db { d with takeOver := none }).acceptTransfer transfer disk with
        | (s, .ok ()) => c.put s
        | (_, .error _) => { c with daemons := c.daemons.erase pid }
  | .admitted pid inFlight =>
    match c.daemons.get? pid with
    | none => c
    | some d => { c with daemons := c.daemons.insert { d with inFlight } }
  | .stop pid => { c with daemons := c.daemons.erase pid }

/-- A database that nobody has open. -/
def closed (db : Database R) : Cluster R M := ⟨db, .empty, (db.transfer.map Transfer.id).toList⟩

end Cluster

end AgentDocker.Daemon
