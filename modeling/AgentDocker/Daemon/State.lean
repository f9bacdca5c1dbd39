import AgentDocker.Core.Wait

/-!
# The daemon's state and its one way to write

Everything a daemon keeps sits behind one lock, so a hold of the lock is a
function from state to state. What a hold cannot decide for itself is made an
input: the clock, the ids drawn, and whether a write lands. The disk is read
off a fixed list of answers, `faults`: the next transaction, and the next read,
gets the next of them. A statement over all states is one over all of these.

The database is kept as far as the daemon's coordination goes: the coordinator
row, the lease rows and the event table. Agent records are here as what the
lease code asks of them and are not written back: the liveness stamp that
every lease write carries is read by nothing modelled.

`persist` is the one way to an ordinary write. It is refused when storage has
failed before, skipped while the fence is up, and latches the failure when the
disk refuses it; `refused` is what all three leave, and it is nothing anybody
coordinates by.
-/

namespace AgentDocker.Daemon

open AgentDocker.Core Lib

inductive WaitOutcome where
  | claimed
  | timeout
  | cancelled
  | deadlock
deriving DecidableEq, Repr

/-- A project's journal entry, as far as its event names it. -/
structure JournalEntry where
  project : String
  summary : String
deriving DecidableEq, Repr

inductive EventKind where
  | leaseClaimed (lease : Lease)
  | leaseRenewed (lease : Lease)
  | leaseReleased (lease : Lease)
  | leaseExpired (lease : Lease)
  | leaseTransferred (lease : Lease) (sender recipient : AgentId)
  | leaseConflict (resource : ResourceKey) (requester : AgentId) (heldBy : List AgentId)
  | leaseWaiting (resource : ResourceKey) (requester : AgentId) (position : Nat)
  /-- The ticket is ours: the event of the source says whose wait for what
  ended, and which of that agent's waits it was can be told from the queue. It
  is `none` for a wait that was refused before it began. -/
  | leaseWaitEnded (resource : ResourceKey) (requester : AgentId) (outcome : WaitOutcome)
      (ticket : Option Nat)
  | leaseDeadlock (cycle : List Blocked) (victim : Option Blocked)
  | handoffAccepted (agent : AgentId) (checkpoint : String)
  | journalAppended (entry : JournalEntry)
  | journalRead (reader project : String) (seq : Nat)
  | daemonTransferOffered (transfer : String) (successorPid : Nat)
  | daemonTransferReaddressed (transfer : String) (successorPid : Nat)
  | daemonTransferAccepted (transfer : String)
  | daemonTransferAborted (transfer reason : String)
deriving DecidableEq, Repr

structure Event where
  seq : Nat
  kind : EventKind
deriving DecidableEq, Repr

inductive TransferState where
  | offered
  | accepted
  | aborted
deriving DecidableEq, Repr

structure Transfer where
  id : String
  predecessorPid : Nat
  successorPid : Option Nat
  state : TransferState
deriving DecidableEq, Repr

structure Store where
  /-- The `coordinator` table, which has one row at most. -/
  transfer : Option Transfer
  leases : LeaseTable
  events : List Event
  /-- The last sequence number of the `changes` table. -/
  changeWatermark : Nat
  /-- What the disk says to its uses, in order; `none` is yes. -/
  faults : Nat → Option String
  uses : Nat

namespace Store

/-- One transaction: it lands whole or, with an error, not at all. -/
def transaction {α : Type} (store : Store) (op : Store → Store × α) :
    Store × Except String α :=
  match store.faults store.uses with
  | some err => ({ store with uses := store.uses + 1 }, .error err)
  | none =>
    let (store, a) := op { store with uses := store.uses + 1 }
    (store, .ok a)

end Store

inductive Coordination where
  | serving
  | quiescing (transfer : String)
  | transferred (transfer : String)
deriving DecidableEq, Repr

inductive Persisted where
  | committed
  | skipped
  | failed
deriving DecidableEq, Repr

inductive ErrorCode where
  | notFound
  | conflict
  | forbidden
  | invalid
  | internal
  | storageUnavailable
  | backpressure
  | unavailable
  | transferring
  | deadlock
  | paused
deriving DecidableEq, Repr

structure Pause where
  project : String
  reason : String
  by_ : String
  at_ : Time
deriving DecidableEq, Repr

inductive Details where
  | none
  | heldBy (leases : List Lease)
  | cycle (cycle : List Blocked) (heldBy : List Lease)
  | quota (name : String) (capacity committed requested : Nat)
  | pause (pause : Pause)
deriving DecidableEq, Repr

inductive Response where
  | ok
  | lease (lease : Lease)
  | leases (leases : List Lease)
  | error (code : ErrorCode) (message : String) (details : Details)
deriving DecidableEq, Repr

inductive AgentStatus where
  | created
  | running
  | stopping
  | exited (code : Option Int)
  | failed (reason : String)
deriving DecidableEq, Repr

def AgentStatus.isLive : AgentStatus → Bool
  | .created | .running | .stopping => true
  | .exited _ | .failed _ => false

structure AgentRecord where
  id : AgentId
  name : String
  status : AgentStatus
deriving DecidableEq, Repr

/-- What the lease code asks of the rest of the daemon. -/
structure Env where
  /-- The record an id stands for; an id that was folded into another record
  stands for that one. -/
  registry : AgentId → Option AgentRecord
  pauseHolding : AgentId → Option Pause
  quotaCapacity : AgentId → String → Option Nat

/-- Nobody registered, nothing paused, no quotas. -/
def Env.unknown : Env := ⟨fun _ => none, fun _ => none, fun _ _ => none⟩

def Env.isLive (env : Env) (agent : AgentId) : Bool :=
  (env.registry agent).any (·.status.isLive)

/-- A recovery write held back by a daemon that opened fenced: the removal of
a lease that had expired, or whose holder was gone. -/
structure DeferredWrite where
  lease : Lease
  expired : Bool
deriving DecidableEq, Repr

def DeferredWrite.kind (write : DeferredWrite) : EventKind :=
  if write.expired then .leaseExpired write.lease else .leaseReleased write.lease

structure State where
  pid : Nat
  store : Store
  storageError : Option String
  coordination : Coordination
  skippedWrite : Bool
  inFlight : Nat
  deferredRecovery : List DeferredWrite
  env : Env
  leases : LeaseTable
  nextSeq : Nat
  waiting : WaitQueue
  /-- What was sent to the event channel, oldest first. -/
  published : List Event

namespace State

/-- A daemon that has opened a database with these leases in it, serves, and
has done nothing yet. -/
def serving (pid : Nat) (env : Env) (leases : LeaseTable) (faults : Nat → Option String) :
    State where
  pid := pid
  store := ⟨none, leases, [], 0, faults, 0⟩
  storageError := none
  coordination := .serving
  skippedWrite := false
  inFlight := 0
  deferredRecovery := []
  env := env
  leases := leases
  nextSeq := 1
  waiting := .new
  published := []

section

variable (s : State)

/-- Whether writes are fenced off because a transfer is in flight. -/
def fenced : Bool := decide (s.coordination ≠ .serving)

def transferring : Option Response :=
  if s.fenced then
    some (.error .transferring ("the daemon is handing coordination to its successor; " ++
      "nothing was applied, retry against the daemon that answers next") .none)
  else
    none

def storageFailure : Option Response :=
  s.storageError.map fun error =>
    .error .storageUnavailable
      ("storage failed (" ++ error ++ "); coordination disabled until daemon restart") .none

/-- Did the last write land? -/
def writeFailure : Option Response :=
  match s.storageFailure with
  | some error => some error
  | none => if s.skippedWrite then s.transferring else none

/-- Write, and say what happened. -/
def persist (what : String) (write : Store → Store) : State × Persisted :=
  if s.storageError.isSome then
    (s, .failed)
  else if s.fenced then
    ({ s with skippedWrite := true }, .skipped)
  else
    match s.store.transaction fun store => (write store, ()) with
    | (store, .error err) =>
      ({ s with store := store, storageError := some (what ++ ": " ++ err) }, .failed)
    | (store, .ok ()) => ({ s with store := store, skippedWrite := false }, .committed)

/-- The events of one transition, numbered from the next sequence number. -/
def numbered (kinds : List EventKind) : List Event :=
  kinds.zipIdx.map fun (kind, index) => ⟨s.nextSeq + index, kind⟩

/-- One durable transition: the lease rows change and the events are appended
in one transaction, and only then does memory change and do the events go
out. The memory that changes here is the lease table. -/
def commit (what : String) (kinds : List EventKind)
    (write apply : LeaseTable → LeaseTable) : State × Persisted :=
  let events := s.numbered kinds
  match s.persist what fun store =>
      { store with leases := write store.leases, events := store.events ++ events } with
  | (s, .committed) =>
    ({ s with
        nextSeq := s.nextSeq + kinds.length
        leases := apply s.leases
        published := s.published ++ events }, .committed)
  | (s, persisted) => (s, persisted)

def emit (kind : EventKind) : State :=
  (s.commit "event" [kind] id id).1

/-- A store operation that only failed storage refuses: a read, or a write
whose caller has looked at the fence. -/
def storeRead {α : Type} (what : String) (op : Store → Store × α) : State × Option α :=
  if s.storageError.isSome then
    (s, none)
  else
    match s.store.transaction op with
    | (store, .error err) =>
      ({ s with store := store, storageError := some (what ++ ": " ++ err) }, none)
    | (store, .ok a) => ({ s with store := store }, some a)

def storeOp {α : Type} (what : String) (op : Store → Store × α) : State × Option α :=
  if s.storageError.isSome then
    (s, none)
  else if s.fenced then
    ({ s with skippedWrite := true }, none)
  else
    s.storeRead what op

/-! ## Landing or not -/

/-- Whether the next write would land. -/
def lands : Bool :=
  s.storageError.isNone && !s.fenced && (s.store.faults s.store.uses).isNone

/-- What a write that does not land leaves. -/
def refused (what : String) : State :=
  if s.storageError.isSome then
    s
  else if s.fenced then
    { s with skippedWrite := true }
  else
    match s.store.faults s.store.uses with
    | some err =>
      { s with
        store := { s.store with uses := s.store.uses + 1 }
        storageError := some (what ++ ": " ++ err) }
    | none => s

/-- What a transition that lands leaves. -/
def landed (kinds : List EventKind) (write apply : LeaseTable → LeaseTable) : State :=
  { s with
    store := { s.store with
      leases := write s.store.leases
      events := s.store.events ++ s.numbered kinds
      uses := s.store.uses + 1 }
    skippedWrite := false
    nextSeq := s.nextSeq + kinds.length
    leases := apply s.leases
    published := s.published ++ s.numbered kinds }

end

variable {s s' : State} {write : Store → Store} {what : String}

theorem lands_iff : s.lands = true ↔
      s.storageError = none ∧ s.fenced = false ∧ s.store.faults s.store.uses = none := by
  simp [lands, and_assoc]

/-- A transition lands whole or leaves nothing but the news that it did not. -/
theorem commit_eq (s : State) (what : String) (kinds : List EventKind)
    (write apply : LeaseTable → LeaseTable) :
    (s.lands = true ∧ s.commit what kinds write apply = (s.landed kinds write apply, .committed)) ∨
    (s.lands = false ∧ (s.commit what kinds write apply).1 = s.refused what ∧
      (s.commit what kinds write apply).2 ≠ .committed) := by
  unfold commit persist Store.transaction lands refused landed
  cases herr : s.storageError with
  | some => simp
  | none =>
    cases hf : s.fenced with
    | true => simp
    | false => cases hd : s.store.faults s.store.uses <;> simp

/-- Nothing anybody coordinates by has changed: at most, storage is now known
to have failed. -/
structure Untouched (s s' : State) : Prop where
  leases : s'.leases = s.leases
  waiting : s'.waiting = s.waiting
  published : s'.published = s.published
  coordination : s'.coordination = s.coordination
  env : s'.env = s.env
  inFlight : s'.inFlight = s.inFlight
  pid : s'.pid = s.pid
  rows : s'.store.leases = s.store.leases
  transfer : s'.store.transfer = s.store.transfer
  events : s'.store.events = s.store.events
  faults : s'.store.faults = s.store.faults
  latched : s.storageError ≠ none → s'.storageError = s.storageError
  sound : (∀ n, s.store.faults n = none) → s.storageError = none → s'.storageError = none

/-- Using the disk, and learning what it answers. -/
theorem Untouched.of_storage (s : State) (uses : Nat) (err : Option String) (skipped : Bool)
    (latched : s.storageError ≠ none → err = s.storageError)
    (sound : (∀ n, s.store.faults n = none) → s.storageError = none → err = none) :
    Untouched s { s with
      store := { s.store with uses := uses }
      storageError := err
      skippedWrite := skipped } :=
  ⟨rfl, rfl, rfl, rfl, rfl, rfl, rfl, rfl, rfl, rfl, rfl, latched, sound⟩

theorem Untouched.of_healthy (s : State) (uses : Nat) (skipped : Bool) :
    Untouched s { s with store := { s.store with uses := uses }, skippedWrite := skipped } :=
  .of_storage s uses _ skipped (fun _ => rfl) (fun _ h => h)

theorem Untouched.of_failure {err : String} (hs : s.storageError = none)
    (hd : s.store.faults s.store.uses = some err) (uses : Nat) (found : String) :
    Untouched s { s with
      store := { s.store with uses := uses }
      storageError := some found } := by
  refine .of_storage s uses _ s.skippedWrite (absurd hs) fun hgood _ => ?_
  rw [hgood] at hd
  cases hd

theorem Untouched.refl (s : State) : Untouched s s :=
  .of_healthy s _ _

theorem refused_untouched (s : State) (what : String) : Untouched s (s.refused what) := by
  unfold refused
  split
  · exact .refl s
  next herr =>
  split
  · exact .of_healthy s _ _
  · split
    · next hd => exact .of_failure (by simpa using herr) hd _ _
    · exact .refl s

theorem persist_not_committed {p : Persisted} (h : s.persist what write = (s', p))
    (hp : p ≠ .committed) :
    Untouched s s' := by
  unfold persist Store.transaction at h
  split at h
  · cases h
    exact .refl s
  next herr =>
  split at h
  · cases h
    exact .of_healthy s _ _
  · cases hd : s.store.faults s.store.uses with
    | some =>
      rw [hd] at h
      cases h
      exact .of_failure (by simpa using herr) hd _ _
    | none =>
      rw [hd] at h
      cases h
      exact absurd rfl hp

theorem persist_committed (h : s.persist what write = (s', .committed)) : s' = { s with
      store := write { s.store with uses := s.store.uses + 1 }
      skippedWrite := false } := by
  unfold persist Store.transaction at h
  split at h
  · cases h
  · split at h
    · cases h
    · cases hd : s.store.faults s.store.uses with
      | some => rw [hd] at h; cases h
      | none => rw [hd] at h; cases h; rfl

/-- A read changes nothing but what is known of the disk. -/
theorem storeRead_untouched {α : Type} (s : State) (what : String) (read : Store → α) :
    Untouched s (s.storeRead what fun store => (store, read store)).1 := by
  unfold storeRead Store.transaction
  split
  · exact .refl s
  next herr =>
  cases hd : s.store.faults s.store.uses with
  | some => exact .of_failure (by simpa using herr) hd _ _
  | none => exact .of_healthy s _ _

end State

end AgentDocker.Daemon
