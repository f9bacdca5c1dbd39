import AgentDocker.Codex.Ledger
import AgentDocker.Lib.Runs

/-!
# The Codex input controller

Three stores and one process between them: the ledger file, the daemon's queue
for the agent, and the provider's history of the inputs it accepted. The
controller takes one step at a time, and may stop between any two of them; what
it holds in memory is then lost, and a reopened controller starts from the file.

Some steps leave it in the middle of something. Right after an input is
prepared it is submitted; right after a definitive refusal the prepared input is
rejected; right after the queue has acknowledged a message the ledger does.
`Stage` is where it stands. A step that fails leaves the ledger as it was.
-/

namespace AgentDocker.Codex

/-- One input of the provider's history. -/
structure Item where
  thread : String
  turn : String
  item : String
  text : String
deriving DecidableEq, Repr

def Item.receipt (i : Item) : Receipt := ⟨i.thread, i.turn, i.item⟩

/-- The one item of the conversation that has exactly this input. -/
def findReceipt (history : List Item) (thread : String) (input : String) : Option Receipt :=
  match history.filter fun i => i.thread == thread && i.text == input with
  | [found] => some found.receipt
  | _ => none

/-- Which of the two inputs a step is about. -/
inductive Slot where
  | active
  | steered
deriving DecidableEq, Repr

/-- A slot's prepared input dropped. -/
def Record.reject (r : Record) : Slot → Except String Record
  | .active => r.rejectPrepared
  | .steered => r.rejectSteering

inductive Stage where
  | idle
  /-- The input was prepared and is about to be submitted. -/
  | submitting (slot : Slot) (message input : String)
  /-- The provider refused it for certain. -/
  | refused (slot : Slot) (message : String)
  /-- The daemon's queue has acknowledged the message. -/
  | acknowledged (message : String)
deriving DecidableEq, Repr

/-- How a submission ends, as the provider decides it. -/
inductive Answer where
  /-- Taken as an item of a turn, whether or not the controller hears of it. -/
  | accepted (turn item : String)
  /-- Refused for certain: it never became an input. -/
  | refused
  /-- Not taken, and the controller cannot tell. -/
  | lost
deriving DecidableEq, Repr

/-- An input as it was submitted. -/
structure Submission where
  message : String
  refused : Bool
deriving DecidableEq, Repr

structure Delivery where
  disk : Record := {}
  /-- The controller's copy of the record and where it stands, while one runs. -/
  running : Option (Record × Stage) := none
  /-- What the daemon has queued and not seen acknowledged. -/
  queue : List Envelope := []
  history : List Item := []
  /-- Everything ever queued. -/
  arrived : List Envelope := []
  /-- Everything ever submitted, newest first. -/
  submissions : List Submission := []
deriving DecidableEq, Repr

inductive Op where
  | arrive (e : Envelope)
  | reopen
  | stop
  /-- The provider takes an input of another client of the conversation. -/
  | foreign (item : Item)
  | bindThread (thread : String) (fails : Bool)
  | discardUnusedThread (fails : Bool)
  /-- The provider's questions change. -/
  | review (questions : Questions) (fails : Bool)
  | prepareBound (e : Envelope) (origin : Option Origin) (fails : Bool)
  | prepareSteering (e : Envelope) (turn : String) (fails : Bool)
  | submit (answer : Answer)
  | reject (fails : Bool)
  /-- The provider notifies of an item of its history. -/
  | notify (item : Item) (fails : Bool)
  /-- The receipt of a pending input is looked for in the history. -/
  | recover (input : String) (fails : Bool)
  | acknowledgeQueue (message : String)
  | acknowledgeLedger (fails : Bool)
  | finishSteering (fails : Bool)
  | finish (turn : String) (fails : Bool)

namespace Delivery

/-- The controller saves a record and goes on to `stage`; when it cannot, it is
where it was, with nothing under way. -/
def commit (env : Env) (s : Delivery) (r : Record) (fails : Bool) (next : Except String Record)
    (stage : Stage) : Delivery :=
  match next >>= Record.save env fails with
  | .ok saved => { s with disk := saved, running := some (saved, stage) }
  | .error _ => { s with running := some (r, .idle) }

/-- A pending input that the queue may be told of: it has its receipt and the
queue has not been told. -/
def acknowledgeable (r : Record) (message : String) : Bool :=
  r.pending.any fun a => a.message == message && a.receipt.isSome && !a.acknowledged

/-- The steps of a controller with nothing under way. -/
def idle (env : Env) (s : Delivery) (r : Record) : Op → Delivery
  | .bindThread thread fails => s.commit env r fails (r.bindThread thread) .idle
  | .discardUnusedThread fails => s.commit env r fails r.discardUnusedThread .idle
  | .review questions fails => s.commit env r fails (.ok { r with questions }) .idle
  | .prepareBound e origin fails =>
    if e ∈ s.queue then
      s.commit env r fails (r.prepareBound env e origin)
        (.submitting .active e.id (env.render e))
    else s
  | .prepareSteering e turn fails =>
    if e ∈ s.queue then
      s.commit env r fails (r.prepareSteering env e turn)
        (.submitting .steered e.id (env.render e))
    else s
  | .notify item fails =>
    if item ∈ s.history then s.commit env r fails (r.accept item.text item.receipt) .idle else s
  | .recover input fails =>
    match r.thread.bind fun thread => findReceipt s.history thread input with
    | some receipt => s.commit env r fails (r.accept input receipt) .idle
    | none => s
  | .acknowledgeQueue message =>
    if acknowledgeable r message then
      { s with queue := s.queue.filter fun e => e.id != message,
               running := some (r, .acknowledged message) }
    else s
  | .finishSteering fails => s.commit env r fails r.finishSteering .idle
  | .finish turn fails => s.commit env r fails (r.finish turn) .idle
  | _ => s

/-- The provider decides on a submission. -/
def submitted (s : Delivery) (r : Record) (slot : Slot) (message input : String) : Answer → Delivery
  | .accepted turn item =>
    { s with history := ⟨r.thread.getD "", turn, item, input⟩ :: s.history,
             submissions := ⟨message, false⟩ :: s.submissions,
             running := some (r, .idle) }
  | .refused =>
    { s with submissions := ⟨message, true⟩ :: s.submissions,
             running := some (r, .refused slot message) }
  | .lost =>
    { s with submissions := ⟨message, false⟩ :: s.submissions, running := some (r, .idle) }

def step (env : Env) (s : Delivery) (op : Op) : Delivery :=
  match op with
  | .arrive e =>
    if e.id ∈ s.arrived.map (·.id) then s
    else { s with queue := s.queue ++ [e], arrived := s.arrived ++ [e] }
  | .stop => { s with running := none }
  | .foreign item => { s with history := item :: s.history }
  | .reopen =>
    match s.running, s.disk.validate env with
    | none, .ok () => { s with running := some (s.disk, .idle) }
    | _, _ => s
  | op =>
    match s.running with
    | none => s
    | some (r, .idle) => s.idle env r op
    | some (r, .submitting slot message input) =>
      match op with
      | .submit answer => s.submitted r slot message input answer
      | _ => s
    | some (r, .refused slot _) =>
      match op with
      | .reject fails => s.commit env r fails (r.reject slot) .idle
      | _ => s
    | some (r, .acknowledged message) =>
      match op with
      | .acknowledgeLedger fails => s.commit env r fails (r.acknowledge message) .idle
      | _ => s

end Delivery

end AgentDocker.Codex
