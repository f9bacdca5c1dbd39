import AgentDocker.Daemon.Leases
import AgentDocker.Daemon.Reload

/-!
# A daemon at work

A daemon and the claims it has been asked for, moved by one hold of the state
lock at a time. A run is any list of holds, so it is any interleaving of any
number of claims with renewals, releases, expiry, handoffs and the two ends of
a coordination transfer; the clock, the ids drawn and whether a sleeper was
woken are part of a hold's input.

An id drawn for a lease is one no lease has. Agent records change behind the
lease code's back, and the lease table is walked in whatever order it likes:
both are inputs of their own.
-/

namespace AgentDocker.Daemon

open AgentDocker.Core Lib

/-- Whether a claim has not answered and its client is still there. -/
def Claim.inFlight (c : Claim) : Bool :=
  match c.phase with
  | .attempting | .waiting .. => true
  | .answered _ | .dropped => false

/-- Every id is a running agent's, nothing is paused and there are no quotas. -/
def Env.everybody : Env := ⟨fun a => some ⟨a, a.id, .running⟩, fun _ => none, fun _ _ => none⟩

/-- A claim on a path, for an hour. -/
def ClaimArgs.path (path : String) (mode : LeaseMode) (waitSecs : Nat) : ClaimArgs :=
  ⟨⟨"path:" ++ path⟩, mode, none, 3600, none, waitSecs, 0, false⟩

structure Service where
  state : State
  claims : Keyed Claim.number

namespace Service

inductive Op where
  | request (number : Nat) (holder : AgentId) (args : ClaimArgs)
  | attempt (number : Nat) (now : Time) (id : LeaseId)
  | wake (number : Nat) (woke : Bool)
  | drop (number : Nat)
  | renew (holder : AgentId) (lease : LeaseId) (ttlSecs : Nat) (now : Time)
  | release (holder : AgentId) (lease : LeaseId) (journal : State.Journal)
  | releaseAll (holder : AgentId) (onlyAutomatic : Bool) (journal : State.Journal)
  | expire (now : Time)
  | resume (handoff : State.Handoff) (now : Time)
  | offer (id : String) (successorPid : Nat)
  | abort (reason : String)
  /-- Agents come, go, are paused or folded into each other. -/
  | env (env : Env)
  | reorder (rows : List Lease)

/-- One hold of one claim, where `hold` has one for the claim's phase. -/
def advance (w : Service) (number : Nat) (hold : State → Claim → Option (State × Claim)) :
    Service :=
  match w.claims.get? number with
  | none => w
  | some c =>
    match hold w.state c with
    | none => w
    | some (state, c) => ⟨state, w.claims.insert c⟩

def attemptOp (now : Time) (id : LeaseId) (s : State) (c : Claim) : Option (State × Claim) :=
  if c.phase = .attempting ∧ s.leases.get? id = none then some (s.attempt c now id) else none

def wakeOp (woke : Bool) (s : State) (c : Claim) : Option (State × Claim) :=
  match c.phase with
  | .waiting message heldBy => some (s.wake c message heldBy woke)
  | _ => none

def dropOp (s : State) (c : Claim) : Option (State × Claim) :=
  if c.inFlight then some (s.drop c) else none

def step (w : Service) : Op → Service
  | .request number holder args =>
    if (w.claims.get? number).isSome then
      w
    else
      let (state, c) := w.state.requestClaim number holder args
      ⟨state, w.claims.insert c⟩
  | .attempt number now id => w.advance number (attemptOp now id)
  | .wake number woke => w.advance number (wakeOp woke)
  | .drop number => w.advance number dropOp
  | .renew holder lease ttlSecs now =>
    { w with state := (w.state.renew holder lease ttlSecs now).1 }
  | .release holder lease journal =>
    { w with state := (w.state.release holder lease journal).1 }
  | .releaseAll holder onlyAutomatic journal =>
    { w with state := (w.state.releaseAll holder onlyAutomatic journal).1 }
  | .expire now => { w with state := w.state.expireLeasesAt now }
  | .resume handoff now => { w with state := (w.state.resume handoff now).1 }
  | .offer id successorPid => { w with state := (w.state.offerTransfer id successorPid).1 }
  | .abort reason => { w with state := (w.state.abortTransfer reason).1 }
  | .env env => { w with state := { w.state with env := env } }
  | .reorder rows =>
    if h : rows.Perm w.state.leases.rows then
      { w with state := { w.state with leases := w.state.leases.reorder rows h } }
    else
      w

/-- A daemon that has opened a database with these leases in it, and has not
been asked for anything. -/
def start (env : Env) (leases : LeaseTable) (faults : Nat → Option String) : Service :=
  ⟨State.serving 1 env leases faults, .empty⟩

end Service

end AgentDocker.Daemon
