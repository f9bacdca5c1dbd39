import AgentDocker.Daemon.State
import AgentDocker.Lib.Runs

/-!
# Handing the database to a successor

One row of the database, the coordinator row, says whether coordination is
being handed over and to which process. A daemon offers by writing the row and
fences itself; whoever moves the row out of `offered` first, the successor by
accepting or a predecessor by aborting, is the coordinator from then on.

The second half of the file is the world these functions run in: one database
and the processes that have it open. A process acts on the database as it is
now, so a step lends it to the one that acts and takes it back.
-/

namespace AgentDocker.Daemon

open AgentDocker.Core Lib

namespace Store

/-- Record an offer; refused while another transfer is still offered. -/
def offerTransfer (transfer : Transfer) (event : Event) (store : Store) : Store × Bool :=
  match store.transfer with
  | some current =>
    if current.state = .offered ∧ current.id ≠ transfer.id then
      (store, false)
    else
      ({ store with transfer := some transfer, events := store.events ++ [event] }, true)
  | none =>
    ({ store with transfer := some transfer, events := store.events ++ [event] }, true)

def readdressTransfer (id : String) (successorPid : Nat) (event : Event) (store : Store) :
    Store × Bool :=
  match store.transfer with
  | none => (store, false)
  | some current =>
    if current.id ≠ id ∨ current.state ≠ .offered then
      (store, false)
    else
      ({ store with
          transfer := some { current with successorPid := some successorPid }
          events := store.events ++ [event] }, true)

/-- Move a transfer out of `offered`, only if it is still there and, when a
pid is given, offered to that pid. -/
def settleTransfer (id : String) (successorPid : Option Nat) (outcome : TransferState)
    (event : Event) (store : Store) : Store × Bool :=
  match store.transfer with
  | none => (store, false)
  | some current =>
    if current.id ≠ id ∨ current.state ≠ .offered then
      (store, false)
    else if successorPid.isSome ∧ current.successorPid ≠ successorPid then
      (store, false)
    else
      ({ store with
          transfer := some { current with state := outcome }
          events := store.events ++ [event] }, true)

end Store

namespace State

/-- Stop writing and record the offer, under the id drawn for it. -/
def offerTransfer (s : State) (id : String) (successorPid : Nat) :
    State × Except Response Transfer :=
  match s.writeFailure with
  | some error => (s, .error error)
  | none =>
    if s.fenced then
      (s, .error (.error .conflict "a coordination transfer is already in flight" .none))
    else if s.inFlight > 0 then
      (s, .error (.error .backpressure (toString s.inFlight ++
        " mutating request(s) still executing; offer again once they finish") .none))
    else
      let transfer : Transfer := ⟨id, s.pid, some successorPid, .offered⟩
      let event : Event := ⟨s.nextSeq, .daemonTransferOffered id successorPid⟩
      match s.storeOp "transfer offer" (Store.offerTransfer transfer event) with
      | (s, some true) =>
        ({ s with
            nextSeq := s.nextSeq + 1
            published := s.published ++ [event]
            coordination := .quiescing id }, .ok transfer)
      | (s, some false) =>
        (s, .error (.error .conflict
          "another coordination transfer is still offered in the database" .none))
      | (s, none) =>
        (s, .error (s.writeFailure.getD
          (.error .storageUnavailable "cannot record the offer" .none)))

/-- Name the successor once it exists. -/
def readdressOffer (s : State) (transfer : String) (successorPid : Nat) : State × Bool :=
  match s.coordination with
  | .quiescing current =>
    if current ≠ transfer then
      (s, false)
    else
      let event : Event := ⟨s.nextSeq, .daemonTransferReaddressed transfer successorPid⟩
      match s.store.transaction (Store.readdressTransfer transfer successorPid event) with
      | (store, .ok true) =>
        ({ s with
            store := store
            nextSeq := s.nextSeq + 1
            published := s.published ++ [event] }, true)
      | (store, .ok false) => ({ s with store := store }, false)
      | (store, .error _) => ({ s with store := store }, false)
  | _ => (s, false)

/-- Take authority back, if the offer is still ours to abort. -/
def abortTransfer (s : State) (reason : String) : State × Bool :=
  match s.coordination with
  | .quiescing transfer =>
    let event : Event := ⟨s.nextSeq, .daemonTransferAborted transfer reason⟩
    match s.store.transaction (Store.settleTransfer transfer none .aborted event) with
    | (store, .ok true) =>
      ({ s with
          store := store
          coordination := .serving
          skippedWrite := false
          nextSeq := s.nextSeq + 1
          published := s.published ++ [event] }, true)
    | (store, .ok false) =>
      ({ s with store := store, coordination := .transferred transfer }, false)
    | (store, .error _) => ({ s with store := store }, false)
  | _ => (s, !s.fenced)

/-- The recovery a fenced open held back, until a write fails. -/
def runDeferred : List DeferredWrite → State → State
  | [], s => s
  | write :: rest, s =>
    match s.persist "deferred recovery" fun store =>
        { store with
          leases := store.leases.erase write.lease.id
          events := store.events ++ [⟨s.nextSeq, write.kind⟩] } with
    | (s, .failed) => s
    | (s, _) => runDeferred rest { s with nextSeq := s.nextSeq + 1 }

/-- The successor's first act: accept the offer addressed to it. -/
def acceptTransfer (s : State) (transfer : String) : State × Except String Unit :=
  let event : Event := ⟨s.nextSeq, .daemonTransferAccepted transfer⟩
  match s.store.transaction (Store.settleTransfer transfer (some s.pid) .accepted event) with
  | (store, .ok true) =>
    let accepted := { s with
      store := store
      nextSeq := s.nextSeq + 1
      published := s.published ++ [event]
      coordination := .serving
      deferredRecovery := [] }
    (runDeferred s.deferredRecovery accepted, .ok ())
  | (store, .ok false) =>
    ({ s with store := store }, .error ("transfer " ++ transfer ++
      " is not offered to this process; refusing to write"))
  | (store, .error err) =>
    ({ s with store := store },
      .error ("cannot accept transfer " ++ transfer ++ ": " ++ err))

end State

/-! ## Opening a database -/

/-- What a daemon restores its leases into. -/
structure Restored where
  store : Store
  nextSeq : Nat
  leases : LeaseTable
  deferred : List DeferredWrite

/-- One stored lease: dropped when it has expired or its holder is gone, by a
write now or, while an offer is pending, by one held back. -/
def restoreLease (env : Env) (now : Time) (fenced : Bool) (r : Restored) (lease : Lease) :
    Except String Restored :=
  if lease.isExpired now || !env.isLive lease.holder then
    let removal : DeferredWrite := ⟨lease, lease.isExpired now⟩
    if fenced then
      .ok { r with deferred := r.deferred ++ [removal] }
    else
      match r.store.transaction fun store =>
          ({ store with
              leases := store.leases.erase lease.id
              events := store.events ++ [⟨r.nextSeq, removal.kind⟩] }, ()) with
      | (_, .error err) => .error err
      | (store, .ok ()) => .ok { r with store := store, nextSeq := r.nextSeq + 1 }
  else if (r.leases.holdersOf lease.resource).any fun held =>
      decide (held.holder ≠ lease.holder) &&
        (held.mode == .exclusive || lease.mode == .exclusive) then
    .error ("stored lease " ++ lease.id.id ++
      " overlaps another live holder after physical migration; stop the holders and retry")
  else
    .ok { r with leases := r.leases.restore lease }

/-- The highest sequence number stored. -/
def Store.maxEventSeq (store : Store) : Nat :=
  (store.events.map (·.seq)).foldl max 0

/-- The transfer a database is in the middle of. -/
def Store.pendingTransfer (store : Store) : Option Transfer :=
  match store.transfer with
  | some transfer => if transfer.state = .offered then some transfer else none
  | none => none

/-- Open a database: restore what it holds, and serve unless coordination is
being handed over. -/
def withStore (pid : Nat) (env : Env) (now : Time) (store : Store) : Except String State :=
  match store.transaction fun store => (store, store.pendingTransfer) with
  | (_, .error err) => .error err
  | (store, .ok pending) =>
    let start : Restored := ⟨store, store.maxEventSeq + 1, .empty, []⟩
    match store.leases.rows.foldlM (restoreLease env now pending.isSome) start with
    | .error err => .error err
    | .ok r =>
      .ok {
        pid := pid
        store := r.store
        storageError := none
        coordination := match pending with
          | some transfer => .quiescing transfer.id
          | none => .serving
        skippedWrite := false
        inFlight := 0
        deferredRecovery := r.deferred
        env := env
        leases := r.leases
        nextSeq := r.nextSeq
        waiting := .new
        published := [] }

/-! ## One database, many processes -/

structure World where
  store : Store
  daemons : Keyed State.pid
  /-- The transfer ids drawn so far; a new one is none of these. -/
  drawn : List String

namespace World

/-- Whether an event is one of the four only transfers write. -/
def isTransfer : EventKind → Bool
  | .daemonTransferOffered .. | .daemonTransferReaddressed .. | .daemonTransferAccepted ..
  | .daemonTransferAborted .. => true
  | _ => false

inductive Op where
  /-- A process opens the database while an offer is open. -/
  | opened (pid : Nat) (env : Env) (now : Time)
  | offer (pid : Nat) (id : String) (successorPid : Nat)
  | readdress (pid : Nat) (transfer : String) (successorPid : Nat)
  | abort (pid : Nat) (reason : String)
  | accept (pid : Nat) (transfer : String)
  /-- Any ordinary write: some rows, some events, in one transaction. -/
  | write (pid : Nat) (what : String) (kinds : List EventKind)
      (rows : LeaseTable → LeaseTable)
  | stop (pid : Nat)

/-- Let one process act on the database as it is. -/
def act (w : World) (pid : Nat) (f : State → State) : World :=
  match w.daemons.get? pid with
  | none => w
  | some d =>
    let d := f { d with store := w.store }
    { w with store := d.store, daemons := w.daemons.insert d }

def step (w : World) : Op → World
  | .opened pid env now =>
    if w.store.pendingTransfer.isSome && (w.daemons.get? pid).isNone then
      match withStore pid env now w.store with
      | .error _ => { w with store := { w.store with uses := w.store.uses + 1 } }
      | .ok d => { w with store := d.store, daemons := w.daemons.insert d }
    else
      w
  | .offer pid id successorPid =>
    if id ∈ w.drawn then
      w
    else
      { w.act pid (fun s => (s.offerTransfer id successorPid).1) with
        drawn := id :: w.drawn }
  | .readdress pid transfer successorPid =>
    w.act pid fun s => (s.readdressOffer transfer successorPid).1
  | .abort pid reason => w.act pid fun s => (s.abortTransfer reason).1
  | .accept pid transfer => w.act pid fun s => (s.acceptTransfer transfer).1
  | .write pid what kinds rows =>
    w.act pid fun s => (s.commit what (kinds.filter (!isTransfer ·)) rows id).1
  | .stop pid => { w with daemons := w.daemons.erase pid }

/-- One daemon serving a database that has seen no transfer. -/
def start (pid : Nat) (env : Env) (leases : LeaseTable) (faults : Nat → Option String) : World :=
  let d := State.serving pid env leases faults
  ⟨d.store, Keyed.empty.insert d, []⟩

end World

end AgentDocker.Daemon
