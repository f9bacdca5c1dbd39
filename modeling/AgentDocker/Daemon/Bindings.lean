import AgentDocker.Core.Board
import AgentDocker.Daemon.Registry
import AgentDocker.Lib.Outcomes
import AgentDocker.Lib.StableSort

/-!
# One controller for an agent's queued input

An agent registered from outside has no consumer of its own. A controller can
bind its input: from then on the controller reads the queue, acknowledges it and
reports for it, and shows the token it made. The binding names one provider
generation, a process with a session and a profile, and one controller process.
The daemon keeps a digest of the token, never the token.

A controller that ended is followed by another that binds with the same token. A
provider session that comes back as another process resumes the binding of the
record that ended. Both are refused while a process of the old generation runs.

What the machine says when a request is answered comes with the request: which
processes run, whether a release can be held, whether a write lands. The digest
is a parameter.
-/

namespace AgentDocker.Daemon

open AgentDocker.Core Lib

/-- One process, exactly: a recycled pid is another. -/
structure ProcessIdentity where
  pid : Nat
  startedAt : Time
deriving DecidableEq, Repr

/-- The provider session a controller feeds. -/
structure ProviderGeneration where
  process : ProcessIdentity
  session : String
  profile : String
deriving DecidableEq, Repr

/-- Which conversation of which configuration. -/
def ProviderGeneration.thread (p : ProviderGeneration) : String × String := (p.session, p.profile)

def isControl (c : Char) : Bool :=
  decide (c.toNat < 32) || (decide (127 ≤ c.toNat) && decide (c.toNat ≤ 159))

/-- A name of at most so many bytes, none of them a control character's. -/
def plainName (bytes : Nat) (value : String) : Bool :=
  decide (value ≠ "") && decide (value.utf8ByteSize ≤ bytes) && !value.toList.any isControl

def isAbsolute (path : String) : Bool := decide (path.toList.head? = some '/')

def ProviderGeneration.valid (p : ProviderGeneration) : Bool :=
  decide (0 < p.process.pid) && plainName 256 p.session && plainName 256 p.profile

/-- How the daemon starts a controller again. -/
structure ControllerLaunch where
  executable : String
  args : List String
  cwd : String
  env : List (String × String)
deriving DecidableEq, Repr

def ControllerLaunch.text (value : String) : Bool :=
  decide (value.utf8ByteSize ≤ 4096) && !value.toList.any fun c => decide (c.toNat = 0)

def ControllerLaunch.valid (l : ControllerLaunch) : Bool :=
  isAbsolute l.executable && isAbsolute l.cwd && decide (l.args.length ≤ 64) && l.args.all text &&
    decide (l.env.length ≤ 64) &&
    l.env.all fun (key, value) =>
      decide (key ≠ "") && !key.toList.any (fun c => decide (c = '=')) && text key && text value

/-- The daemon's record of restarting a controller. -/
structure ControllerRestart where
  upgradeRequestedAt : Option Time
  attempts : Nat
  launched : Option ProcessIdentity
  launchedAt : Option Time
  endedAt : Option Time
  exhausted : Bool
deriving DecidableEq, Repr

def ControllerRestart.idle : ControllerRestart := ⟨none, 0, none, none, none, false⟩

structure InputBinding where
  provider : ProviderGeneration
  controller : ProcessIdentity
  controllerSince : Time
  tokenSha256 : String
  boundAt : Time
  controllerGenerations : Nat
  /-- Queued messages that another reader had been offered before. -/
  uncertain : List MessageId
  launch : Option ControllerLaunch
  restart : ControllerRestart
deriving DecidableEq, Repr

namespace InputBinding

variable (b : InputBinding)

def acceptsDigest (digest : String) : Bool :=
  decide (b.tokenSha256 ≠ "") && decide (b.tokenSha256 = digest)

/-- A controller bound: the one the daemon launched, which keeps the count of launches,
or another one. -/
def noteControllerBound (controller : ProcessIdentity) (now : Time) : InputBinding :=
  let launched := decide (b.restart.launched = some controller)
  { b with
    controller := controller
    controllerSince := now
    restart := { b.restart with
      upgradeRequestedAt := none
      attempts := if launched then b.restart.attempts else 0
      exhausted := launched && b.restart.exhausted
      launched := none
      launchedAt := none
      endedAt := none } }

/-- How long a controller must have been bound for its end to start a new count. -/
def controllerStable : Time := 60

/-- The controller ended. -/
def noteControllerEnded (now : Time) : InputBinding :=
  let fresh := b.restart.launched.isNone && decide (controllerStable ≤ now - b.controllerSince)
  { b with
    restart := { b.restart with
      upgradeRequestedAt := none
      attempts := if fresh then 0 else b.restart.attempts
      exhausted := !fresh && b.restart.exhausted
      launched := none
      launchedAt := none
      endedAt := some now } }

/-- A launch, or an attempt that failed before there was a process. -/
def noteLaunch (launched : Option ProcessIdentity) (now : Time) : InputBinding :=
  { b with
    restart := { b.restart with
      attempts := min (b.restart.attempts + 1) 4294967295
      launchedAt := launched.map fun _ => now
      launched := launched
      endedAt := some now } }

end InputBinding

inductive InputReceipt where
  | codex (thread turn item : String)
  | claudeChannel
deriving DecidableEq, Repr

structure ReceivedInput where
  messages : List MessageId
  receipt : InputReceipt
deriving DecidableEq, Repr

def ReceivedInput.valid (r : ReceivedInput) : Bool :=
  decide (r.messages ≠ []) && decide (r.messages.length ≤ 1000) &&
    (r.messages.all fun m => plainName 128 m.id) && decide r.messages.Nodup &&
    match r.receipt with
    | .codex thread turn item =>
      decide (r.messages.length = 1) && plainName 128 thread && plainName 128 turn &&
        plainName 128 item
    | .claudeChannel => true

/-- Evidence of what an agent's input does. -/
structure InputDelivery where
  processStartedAt : Time
  paused : Bool
  pauseReason : Option String
  reportedAt : Time
  received : Option ReceivedInput
  receivedAt : Option Time
  typingUntil : Option Time
deriving DecidableEq, Repr

inductive InputReport where
  | received (input : ReceivedInput)
  | ready
  | paused (reason : String)
  | heldForTyping (ends : Time)
deriving DecidableEq, Repr

/-- An agent's record, as far as its input goes. -/
structure InputRecord where
  id : AgentId
  name : String
  status : AgentStatus
  runtime : String
  managed : Bool
  contained : Bool
  /-- Whether its environment asks for the daemon's own bridge. -/
  codexEnv : Bool
  pid : Option Nat
  processStartedAt : Option Time
  /-- The session it was registered with. -/
  sessionId : Option String
  workdir : Option String
  project : Option ProjectId
  /-- Queued messages a reader without a binding was offered. -/
  legacyOffers : List MessageId
  inputBinding : Option InputBinding
  inputDelivery : Option InputDelivery
deriving DecidableEq

namespace InputRecord

variable (r : InputRecord)

/-- Whether the daemon's own Codex bridge consumes its input. -/
def isCodexInput : Bool :=
  r.managed && !r.contained && decide (r.runtime = "codex") && r.codexEnv

/-- Bound to a thread. -/
def boundTo (thread : String × String) : Bool :=
  r.inputBinding.any fun b => decide (b.provider.thread = thread)

/-- Whether the process is the registered one. -/
def isProcess (p : ProcessIdentity) : Bool :=
  decide (r.pid = some p.pid) && decide (r.processStartedAt = some p.startedAt)

/-- Whatever was reported last, nothing receives input now. -/
def pauseDelivery (reason : String) (now : Time) : InputRecord :=
  let delivery := r.inputDelivery.getD ⟨r.processStartedAt.getD now, false, none, now,
    none, none, none⟩
  { r with
    inputDelivery := some
      { delivery with paused := true, pauseReason := some reason, reportedAt := now } }

end InputRecord

inductive InputDetails where
  | none
  | agent (id : AgentId)
  | bound (provider : ProviderGeneration)
  | controller (process : ProcessIdentity)
deriving DecidableEq, Repr

structure InputRefusal where
  code : ErrorCode
  message : String
  details : InputDetails
deriving DecidableEq, Repr

inductive InputAnswer where
  | refused (why : InputRefusal)
  | ok
  | inputBound (agent : AgentId) (binding : InputBinding) (resumed : Bool)
  | inputResumed (agent retired : AgentId) (binding : InputBinding)
  | inputBatch (agent : AgentId) (messages : List Envelope) (uncertain : List MessageId)
  | messages (messages : List Envelope)
deriving DecidableEq, Repr

/-- What the machine and the rest of the daemon say while a request is answered. -/
structure Host where
  running : ProcessIdentity → Bool
  /-- A path without links and dots. -/
  canonical : String → String
  /-- Why the release of a launch descriptor cannot be held. -/
  pin : AgentId → ControllerLaunch → Option InputRefusal
  /-- The bound controller runs the executable of its descriptor. -/
  verified : Bool
  /-- The path is a file, and its own canonical path. -/
  installed : String → Bool
  /-- The agent holds leases, or is a member of an open channel. -/
  engaged : AgentId → Bool
  /-- Whether the agent recorded observations; nothing where the store cannot say. -/
  observed : AgentId → Option Bool
  /-- A provider report keeps the agent's queue back. -/
  blocked : AgentId → Bool
  /-- An answer held for an ask that waits. -/
  held : MessageId → Bool
  /-- Neither handing over nor without storage. -/
  writable : Bool
  lands : Bool
  /-- Whether the second write of a request lands. -/
  keeps : Bool

structure Inputs where
  records : Keyed InputRecord.id
  aliases : Keyed AgentAlias.retired
  inboxes : Inboxes

namespace Inputs

variable (digest : String → String) (host : Host) (s : Inputs)

def ids : Registry := ⟨s.records.rows.map InputRecord.id, s.aliases⟩

section

variable (reference : AgentId)

def find : Option InputRecord :=
  s.records.get? (s.ids.canonicalId reference)

def put (record : InputRecord) : Inputs :=
  { s with records := s.records.insert record }

def invalid (message : String) : InputRefusal := ⟨.invalid, message, .none⟩

def forbidden (message : String) : InputRefusal := ⟨.forbidden, message, .none⟩

def conflict (message : String) (details : InputDetails) : InputRefusal :=
  ⟨.conflict, message, details⟩

def notFound : InputRefusal := ⟨.notFound, "no agent matches", .none⟩

def notRecorded : InputRefusal := ⟨.storageUnavailable, "the state could not be stored", .none⟩

def tokenValid (token : String) : Bool :=
  decide (32 ≤ token.utf8ByteSize) && decide (token.utf8ByteSize ≤ 128) &&
    token.toList.all fun c => decide ('!' ≤ c) && decide (c ≤ '~')

/-- The first record that has a thread already, apart from these. -/
def boundElsewhere (thread : String × String) (except : List AgentId) : Option InputRecord :=
  s.records.rows.find? fun r => decide (r.id ∉ except) && r.boundTo thread

/-- Messages that are still queued. -/
def stillQueued (queue : List Envelope) (messages : List MessageId) : List MessageId :=
  messages.filter fun m => decide (m ∈ queue.map Envelope.id)

/-! ## Binding -/

/-- The binding is accepted once the release it starts from is held and it is written. -/
def keepBinding (record : InputRecord) (binding : InputBinding) (resumed : Bool) :
    Except InputRefusal (InputAnswer × Inputs) :=
  match binding.launch.bind (host.pin record.id) with
  | some refusal => .error refusal
  | none => do
      let binding := { binding with
        uncertain := stillQueued (s.inboxes record.id) binding.uncertain }
      require host.lands notRecorded
      pure (.inputBound record.id binding resumed,
        s.put { record with inputBinding := some binding })

/-- A bind of a record that has a binding: a lost reply, or the next controller. -/
def bindAgain (record : InputRecord) (existing : InputBinding) (provider : ProviderGeneration)
    (controller : ProcessIdentity) (token : String) (launch : Option ControllerLaunch)
    (now : Time) : Except InputRefusal (InputAnswer × Inputs) := do
  require (existing.acceptsDigest (digest token))
    (forbidden "this agent's input is already bound; the token does not match")
  require (decide (existing.provider = provider))
    (conflict "this agent's input is bound to another provider generation; unbind it first"
      (.bound existing.provider))
  require (launch.all fun l => decide (existing.launch = some l))
    (invalid "the launch descriptor is fixed for the binding's life; unbind first to change it")
  if existing.controller = controller then
    pure (.inputBound record.id existing false, s)
  else do
    require (!host.running existing.controller)
      (conflict "another controller process still holds this binding"
        (.controller existing.controller))
    s.keepBinding host record
      { existing.noteControllerBound controller now with
        controllerGenerations := min (existing.controllerGenerations + 1) 4294967295 } true

def bindInput (provider : ProviderGeneration) (controller : ProcessIdentity)
    (token : String) (launch : Option ControllerLaunch) (now : Time) :
    Except InputRefusal (InputAnswer × Inputs) :=
  match s.find reference with
  | none => .error notFound
  | some record => do
      require (tokenValid token)
        (invalid "a binding token is 32 to 128 printable ASCII characters, made and kept by the controller")
      require (launch.all ControllerLaunch.valid)
        (invalid "a launch descriptor needs an absolute executable and working directory, and bounded arguments and environment")
      require (provider.valid && isAbsolute provider.profile)
        (invalid "the provider generation needs a pid, a session id and an absolute profile path")
      require (!record.isCodexInput)
        (invalid "this session's input is consumed by the daemon's own Codex bridge")
      require record.status.isLive (invalid "the agent is not live")
      require (record.isProcess provider.process)
        (invalid "the provider process must be the agent's registered pid and birth")
      require (decide (record.sessionId = some provider.session))
        (invalid "the provider session must be the agent's registered session_id")
      require (host.running provider.process) (invalid "the provider process is not running")
      require (host.running controller) (invalid "the controller process is not running")
      -- one thread of one profile has one queue
      match s.boundElsewhere provider.thread [record.id] with
      | some other =>
        .error (conflict
          "another record is bound to this thread and profile; resume it or unbind it first"
          (.agent other.id))
      | none =>
        match record.inputBinding with
        | none =>
          s.keepBinding host record
            ⟨provider, controller, now, digest token, now, 1, record.legacyOffers, launch, .idle⟩
            false
        | some existing =>
          s.bindAgain digest host record existing provider controller token launch now

/-- A receiver gets another executable; its controller is stopped and started later. -/
def upgradeController (provider : ProviderGeneration)
    (controller : ProcessIdentity) (previous launch : ControllerLaunch) (token : String)
    (now : Time) : Except InputRefusal (InputAnswer × Inputs) :=
  match s.find reference with
  | none => .error notFound
  | some record => do
      require host.writable ⟨.transferring, "the daemon does not write now", .none⟩
      match record.inputBinding with
      | none => .error (conflict "input is no longer bound" .none)
      | some existing => do
          require (tokenValid token && existing.acceptsDigest (digest token))
            (forbidden "the binding token does not match")
          require (decide (existing.provider = provider) && record.isProcess provider.process &&
              record.status.isLive && host.running provider.process)
            (conflict "the provider generation changed" .none)
          require (launch.valid && previous.valid && decide (launch.args = previous.args) &&
              decide (launch.cwd = previous.cwd) && decide (launch.env = previous.env))
            (invalid "a receiver upgrade may change only its executable")
          -- the reply may have been lost
          if existing.launch = some launch then
            pure (.inputBound record.id existing false, s)
          else do
            require (decide (existing.controller = controller) &&
                decide (existing.launch = some previous))
              (conflict "the controller or its launch descriptor changed" .none)
            require (decide (controller ≠ provider.process))
              (invalid "a receiver upgrade cannot stop its provider")
            require (!existing.restart.launched.any host.running)
              (conflict "a controller restart is already in progress" .none)
            require (!host.running controller || host.verified)
              (conflict
                "the live controller executable could not be verified against its descriptor"
                (.controller controller))
            require (host.installed launch.executable)
              (invalid "the new receiver executable must be an existing canonical file")
            match host.pin record.id launch with
            | some refusal => .error refusal
            | none => do
                let binding := { existing with
                  launch := some launch
                  restart := { ControllerRestart.idle with upgradeRequestedAt := some now } }
                require host.lands notRecorded
                pure (.inputBound record.id binding false,
                  s.put ({ record with inputBinding := some binding }.pauseDelivery
                    "the input receiver is being upgraded" now))

/-- A binding is released by its controller, or by force once that has ended. -/
def mayUnbind (binding : InputBinding) (token : Option String) (force : Bool) :
    Except InputRefusal Unit :=
  match token with
  | some token =>
    require (binding.acceptsDigest (digest token))
      (forbidden "the token does not match this agent's binding")
  | none => do
      require force
        (forbidden
          "unbinding needs the controller's token, or --force once the controller has ended")
      require (!host.running binding.controller)
        (conflict
          "the bound controller process is still running; unbind with its token or stop it first"
          .none)

def unbindInput (token : Option String) (force : Bool) :
    Except InputRefusal (InputAnswer × Inputs) :=
  match s.find reference with
  | none => .error notFound
  | some record =>
    match record.inputBinding with
    | none => pure (.ok, s)
    | some binding => do
        mayUnbind digest host binding token force
        require host.lands notRecorded
        pure (.ok, s.put { record with inputBinding := none })

/-- What supervision writes about a bound controller. -/
inductive ControllerNote where
  | ended (now : Time)
  | exhausted (now : Time)
  | launched (process : Option ProcessIdentity) (now : Time)
  /-- A person's retry. -/
  | reset (now : Time)

def ControllerNote.apply (record : InputRecord) (binding : InputBinding) :
    ControllerNote → InputRecord
  | .ended now =>
    { record with inputBinding := some (binding.noteControllerEnded now) }.pauseDelivery
      "the bound controller ended" now
  | .exhausted now =>
    { record with
      inputBinding := some { binding with
        restart := { binding.restart with exhausted := true } } }.pauseDelivery
      "the bound controller could not be restarted" now
  | .launched process now =>
    { record with inputBinding := some (binding.noteLaunch process now) }
  | .reset now =>
    { record with
      inputBinding := some { binding with
        restart := { binding.restart with
          attempts := 0
          exhausted := false
          launched := none
          launchedAt := none
          endedAt := some now } } }

/-- One restart transition, applied only to the binding it was decided from. -/
def transitionBinding (id : AgentId) (expected : InputBinding) (note : ControllerNote) :
    Except InputRefusal (InputAnswer × Inputs) :=
  match s.records.get? id with
  | none => .error (conflict "the binding changed" .none)
  | some record => do
      require (decide (record.inputBinding = some expected)) (conflict "the binding changed" .none)
      require host.lands notRecorded
      pure (.ok, s.put (note.apply record expected))

def retryController (now : Time) : Except InputRefusal (InputAnswer × Inputs) :=
  match s.find reference with
  | none => .error notFound
  | some record =>
    match record.inputBinding with
    | none => .error ⟨.notFound, "this agent's input is not bound", .none⟩
    | some binding => do
        require binding.launch.isSome
          (invalid "this binding has no launch descriptor; its controller is started by the runtime's own hook")
        require (!host.running binding.controller)
          (conflict "the bound controller is running" .none)
        require (!binding.restart.launched.any host.running)
          (conflict "a controller the daemon launched is starting" .none)
        s.transitionBinding host record.id binding (.reset now)

/-! ## Resuming -/

/-- The messages a caller was offered join what is uncertain. -/
def joinUncertain (queue : List Envelope) (uncertain offers : List MessageId) : List MessageId :=
  stillQueued queue
    (uncertain ++ (stillQueued queue offers).filter fun m => decide (m ∉ uncertain))

/-- The prior record with the caller's process. -/
def resumedRecord (prior caller : InputRecord) (provider : ProviderGeneration)
    (binding : InputBinding) : InputRecord :=
  { prior with
    pid := some provider.process.pid
    processStartedAt := some provider.process.startedAt
    status := caller.status
    sessionId := prior.sessionId.or caller.sessionId
    legacyOffers :=
      prior.legacyOffers ++ caller.legacyOffers.filter fun m => decide (m ∉ prior.legacyOffers)
    inputBinding := some binding }

/-- What memory has after a resumption: the caller's id is an alias, and its queue the
prior record's. -/
def joined (caller canonical : InputRecord) (queue : List Envelope) : Inputs :=
  let left := match s.ids.retireInto caller.id canonical.id with
    | .ok registry => { s with records := s.records.erase caller.id, aliases := registry.aliases }
    -- it is only said; the store has the alias
    | .error _ => s
  { left.put canonical with
    inboxes := fun id =>
      if id = canonical.id then queue else if id = caller.id then [] else s.inboxes id }

/-- A lost reply, asked again: the caller's id is an alias by now. -/
def resumeAgain (reference known predecessor : AgentId) (provider : ProviderGeneration)
    (launch : ControllerLaunch) : Except InputRefusal (InputAnswer × Inputs) :=
  match (s.records.get? known).bind InputRecord.inputBinding with
  | some binding =>
    if decide ((s.find predecessor).map InputRecord.id = some known) &&
        decide (binding.provider = provider) && decide (binding.launch = some launch) then
      pure (.inputResumed known reference binding, s)
    else
      .error (conflict
        "this id was already resumed into another record with a different predecessor, generation or descriptor"
        .none)
  | none =>
    .error (conflict
      "this id was already resumed into another record with a different predecessor, generation or descriptor"
      .none)

/-- A provider session came back as another process: the record of the one that ended
takes it, with its binding and both queues. -/
def resumeInput (reference predecessor : AgentId) (provider : ProviderGeneration)
    (launch : ControllerLaunch) (now : Time) : Except InputRefusal (InputAnswer × Inputs) := do
  require (launch.valid && provider.valid && isAbsolute provider.profile)
    (invalid "resuming needs a valid provider generation with an absolute profile path and a valid launch descriptor")
  match s.aliases.get? reference with
  | some known => s.resumeAgain reference known.canonical predecessor provider launch
  | none =>
    match s.find reference with
    | none => .error notFound
    | some caller => do
        require (caller.status.isLive && !caller.managed && caller.inputBinding.isNone)
          (invalid
            "the caller must be a live, externally registered record without a binding of its own")
        require (caller.isProcess provider.process)
          (invalid "the provider process must be the caller's registered pid and birth")
        require (decide (caller.sessionId = some provider.session))
          (invalid "the provider session must be the caller's registered session_id")
        require (host.running provider.process) (invalid "the caller's process is not running")
        require caller.workdir.isSome (invalid "the caller has no working directory")
        match s.find predecessor with
        | none => .error notFound
        | some prior =>
          match prior.inputBinding with
          | none => .error (invalid "the predecessor has no input binding")
          | some binding => do
              require (decide (prior.id ≠ caller.id) && decide (prior.runtime = caller.runtime) &&
                  decide (binding.provider.thread = provider.thread) &&
                  decide (prior.workdir.map host.canonical = caller.workdir.map host.canonical))
                (invalid "the predecessor must be another record of the same runtime bound to the same thread, profile and checkout")
              require (decide (prior.project = caller.project))
                (conflict "the predecessor's checkout is another project now; resolve by hand"
                  .none)
              match s.boundElsewhere provider.thread [prior.id, caller.id] with
              | some other =>
                .error (conflict "another record is bound to this thread as well; resolve by hand"
                  (.agent other.id))
              | none => do
                  require (!(host.running binding.provider.process ||
                      host.running binding.controller || binding.restart.launched.any host.running))
                    (conflict "a process of the prior generation is still running"
                      (.agent prior.id))
                  require (!host.engaged caller.id)
                    (conflict
                      "the caller already holds leases or channel membership; resolve by hand"
                      .none)
                  require (host.observed caller.id).isSome
                    ⟨.storageUnavailable, "the caller's observations could not be read", .none⟩
                  require (decide (host.observed caller.id = some false))
                    (conflict "the caller has recorded observations of its own; resolve by hand"
                      .none)
                  match host.pin prior.id launch with
                  | some refusal => .error refusal
                  | none => do
                      let queue :=
                        sortBy Envelope.sentAt (s.inboxes prior.id ++ s.inboxes caller.id)
                      let binding := { binding with
                        provider := provider
                        launch := some launch
                        restart := { ControllerRestart.idle with endedAt := some now }
                        uncertain := joinUncertain queue binding.uncertain caller.legacyOffers }
                      require host.lands notRecorded
                      pure (.inputResumed prior.id caller.id binding,
                        s.joined caller (resumedRecord prior caller provider binding) queue)

/-! ## Reading and reporting -/

/-- Whether the token opens this agent's binding; false when it has none at all. -/
def bindingFor (record : InputRecord) (token : Option String) : Except InputRefusal Bool :=
  match record.inputBinding with
  | none => pure false
  | some binding =>
    match token with
    | some token => do
        require (binding.acceptsDigest (digest token))
          (forbidden "this agent's input is bound to a controller; the token does not match")
        pure true
    | none =>
      .error (forbidden "this agent's input is bound to a controller; a token is required")

/-- What is acknowledged leaves the queue; what is not queued says nothing. -/
def ackInbox (id : AgentId) (messages : List MessageId) : Except InputRefusal Inputs :=
  if (s.inboxes id).any fun e => decide (e.id ∈ messages) then do
    require host.lands notRecorded
    pure { s with
      inboxes := Function.update s.inboxes id
        ((s.inboxes id).filter fun e => decide (e.id ∉ messages)) }
  else pure s

/-- Nothing about messages that left the queue is uncertain or offered any more. -/
def delivered (record : InputRecord) (messages : List MessageId) : InputRecord :=
  { record with
    legacyOffers := record.legacyOffers.filter fun m => decide (m ∉ messages)
    inputBinding := record.inputBinding.map fun b =>
      { b with uncertain := b.uncertain.filter fun m => decide (m ∉ messages) } }

/-- Whether the bookkeeping is on file, and what memory has. -/
def forgetDelivered (record : InputRecord) (messages : List MessageId) : Bool × Inputs :=
  if delivered record messages = record then (true, s)
  else if host.keeps then (true, s.put (delivered record messages))
  else (false, s)

/-- A reader without a binding was offered a message. -/
def noteOffer (record : InputRecord) (message : MessageId) : InputRecord :=
  { record with
    legacyOffers := if message ∈ record.legacyOffers then record.legacyOffers
      else record.legacyOffers ++ [message]
    inputBinding := record.inputBinding.map fun b =>
      { b with
        uncertain := if message ∈ b.uncertain then b.uncertain else b.uncertain ++ [message] } }

/-- The record once a reader was offered these, with nothing left of what is not queued. -/
def offered (queue : List Envelope) (record : InputRecord) (messages : List MessageId) :
    InputRecord :=
  (stillQueued queue messages).foldl noteOffer
    { record with legacyOffers := stillQueued queue record.legacyOffers }

def noteLegacyOffers (id : AgentId) (messages : List MessageId) : Inputs :=
  match s.records.get? id with
  | none => s
  | some record =>
    if offered (s.inboxes id) record messages = record then s
    else if host.keeps then s.put (offered (s.inboxes id) record messages)
    else s

/-- The queue up to the first answer that an ask still waits for. -/
def readInbox (id : AgentId) : List Envelope :=
  (s.inboxes id).takeWhile fun e => !host.held e.id

/-- The bound controller's read: it acknowledges what it has receipts for, then takes the
queue. -/
def boundRead (acknowledge : List MessageId) (token : String) :
    Except InputRefusal (InputAnswer × Inputs) :=
  match s.find reference with
  | none => .error notFound
  | some record => do
      let _ ← bindingFor digest record (some token)
      let acked ← s.ackInbox host record.id acknowledge
      let (kept, s) := if acknowledge = [] then (true, acked)
        else acked.forgetDelivered host record acknowledge
      let uncertain := (((s.records.get? record.id).bind InputRecord.inputBinding).map
        InputBinding.uncertain).getD []
      if host.blocked record.id then pure (.inputBatch record.id [] [], s)
      else if kept then pure (.inputBatch record.id (s.readInbox host record.id) uncertain, s)
      else pure (.refused notRecorded, s)

def providerInbox (acknowledge : List MessageId) (token : Option String) :
    Except InputRefusal (InputAnswer × Inputs) :=
  match s.find reference with
  | none => .error notFound
  | some record =>
    if record.inputBinding.isSome then
      match token with
      | some token => s.boundRead digest host reference acknowledge token
      | none =>
        .error (forbidden "this agent's input is bound to a controller; a token is required")
    else do
      require record.isCodexInput
        (invalid "Provider input requires a managed Codex bridge session, or a token for a bound controller.")
      let s ← s.ackInbox host record.id acknowledge
      pure (.messages (if host.blocked record.id then [] else s.readInbox host record.id), s)

/-- White space that is no control character. -/
def isSpace (c : Char) : Bool :=
  decide (c.toNat ∈ [0x20, 0xA0, 0x1680, 0x2028, 0x2029, 0x202F, 0x205F, 0x3000]) ||
    (decide (0x2000 ≤ c.toNat) && decide (c.toNat ≤ 0x200A))

/-- How long a terminal must be quiet. -/
def quiet : Time := 3

/-- What a report makes of the delivery it is about; nothing for a receipt of messages
that are not queued. -/
def reported (queue : List Envelope) (bound codex claude : Bool) (observedAt now : Time)
    (delivery : InputDelivery) : InputReport → Except InputRefusal (Option InputDelivery)
  | .received input => do
      let providerMatches := bound ||
        match input.receipt with
        | .codex _ _ _ => codex
        | .claudeChannel => claude
      require (input.valid && providerMatches) (invalid "invalid provider input receipt")
      let input := { input with messages := stillQueued queue input.messages }
      if input.messages = [] then pure none
      else
        let seen := decide (delivery.received = some input)
        pure (some { delivery with
          received := some input
          receivedAt := if seen then delivery.receivedAt else some now
          paused := false
          pauseReason := none
          typingUntil := none })
  | .ready => pure (some { delivery with paused := false, pauseReason := none })
  | .paused reason => do
      require (!reason.toList.all isSpace && decide (reason.utf8ByteSize ≤ 2048) &&
          !reason.toList.any isControl)
        (invalid "pause reason must be plain text, 1 to 2048 bytes")
      pure (some { delivery with paused := true, pauseReason := some reason, typingUntil := none })
  | .heldForTyping ends => do
      require (decide (observedAt < ends) && decide (ends ≤ observedAt + quiet))
        (invalid "a hold for typing must end within one quiet window of its observation")
      pure (some { delivery with typingUntil := some ends })

/-- A report about an agent's input: the bound controller's, while there is one. -/
def reportInput (processStartedAt observedAt : Time) (report : InputReport)
    (token : Option String) (now : Time) : Except InputRefusal (InputAnswer × Inputs) :=
  match s.find reference with
  | none => .error notFound
  | some record => do
      let bound ← bindingFor digest record token
      let codex := record.isCodexInput
      let claude := !record.contained && decide (record.runtime = "claude-code")
      require (record.status.isLive && decide (record.processStartedAt = some processStartedAt) &&
          (codex || claude || bound))
        (invalid "input report has no matching live provider process")
      require (decide (observedAt ≤ now) && decide (now - observedAt < 5 * 60) &&
          record.inputDelivery.all fun d => decide (d.reportedAt ≤ observedAt))
        (invalid "input report is stale or in the future")
      let delivery := record.inputDelivery.getD
        ⟨processStartedAt, false, none, observedAt, none, none, none⟩
      let next ← reported (s.inboxes record.id) bound codex claude observedAt now delivery report
      match next with
      | none => pure (.ok, s)
      | some delivery => do
          let delivery := { delivery with
            processStartedAt := processStartedAt, reportedAt := observedAt }
          if record.inputDelivery = some delivery then pure (.ok, s)
          else do
            require (record.inputDelivery.all fun d => decide (d.reportedAt ≠ observedAt))
              (invalid "input report conflicts with another observation at the same time")
            require host.lands notRecorded
            pure (.ok, s.put { record with inputDelivery := some delivery })

/-! ## Records -/

/-- A record is forgotten with the ids that stood for it, and its queue. -/
def remove (s : Inputs) (reference : AgentId) : Inputs :=
  let registry := s.ids.remove reference
  let canonical := s.ids.canonicalId reference
  { records := s.records.erase canonical
    aliases := registry.aliases
    inboxes := Function.update s.inboxes canonical [] }

/-- A new agent, without a binding. -/
def register (record : InputRecord) : Inputs :=
  if (s.records.get? record.id).isSome || (s.aliases.get? record.id).isSome then s
  else s.put { record with inputBinding := none }

/-- What supervision sees of an agent's process. -/
def observe (status : AgentStatus) : Inputs :=
  match s.find reference with
  | none => s
  | some record => s.put { record with status }

end

/-! ## Runs -/

inductive Op where
  | register (record : InputRecord)
  | observe (reference : AgentId) (status : AgentStatus)
  | queue (agent : AgentId) (message : Envelope)
  | remove (reference : AgentId)
  | offer (agent : AgentId) (messages : List MessageId)
  | bind (reference : AgentId) (provider : ProviderGeneration) (controller : ProcessIdentity)
      (token : String) (launch : Option ControllerLaunch) (now : Time)
  | upgrade (reference : AgentId) (provider : ProviderGeneration) (controller : ProcessIdentity)
      (previous launch : ControllerLaunch) (token : String) (now : Time)
  | unbind (reference : AgentId) (token : Option String) (force : Bool)
  | resume (reference predecessor : AgentId) (provider : ProviderGeneration)
      (launch : ControllerLaunch) (now : Time)
  | supervise (agent : AgentId) (expected : InputBinding) (note : ControllerNote)
  | retry (reference : AgentId) (now : Time)
  | read (reference : AgentId) (acknowledge : List MessageId) (token : Option String)
  | report (reference : AgentId) (processStartedAt observedAt : Time) (report : InputReport)
      (token : Option String) (now : Time)

/-- The record a request shows a token for, and the token. -/
def Op.token : Op → Option (AgentId × String)
  | .bind reference _ _ token _ _ => some (reference, token)
  | .upgrade reference _ _ _ _ token _ => some (reference, token)
  | .unbind reference token _ => token.map fun t => (reference, t)
  | .read reference _ token => token.map fun t => (reference, t)
  | .report reference _ _ _ token _ => token.map fun t => (reference, t)
  | _ => none

/-- What is refused changes nothing. -/
def settle (result : Except InputRefusal (InputAnswer × Inputs)) : InputAnswer × Inputs :=
  match result with
  | .error why => (.refused why, s)
  | .ok answered => answered

def call : Op → InputAnswer × Inputs
  | .register record => (.ok, s.register record)
  | .observe reference status => (.ok, s.observe reference status)
  | .queue agent message =>
    (.ok, { s with inboxes := Function.update s.inboxes agent (s.inboxes agent ++ [message]) })
  | .remove reference => (.ok, s.remove reference)
  | .offer agent messages => (.ok, s.noteLegacyOffers host agent messages)
  | .bind reference provider controller token launch now =>
    s.settle (s.bindInput digest host reference provider controller token launch now)
  | .upgrade reference provider controller previous launch token now =>
    s.settle (s.upgradeController digest host reference provider controller previous
      launch token now)
  | .unbind reference token force => s.settle (s.unbindInput digest host reference token force)
  | .resume reference predecessor provider launch now =>
    s.settle (s.resumeInput host reference predecessor provider launch now)
  | .supervise agent expected note => s.settle (s.transitionBinding host agent expected note)
  | .retry reference now => s.settle (s.retryController host reference now)
  | .read reference acknowledge token =>
    s.settle (s.providerInbox digest host reference acknowledge token)
  | .report reference processStartedAt observedAt report token now =>
    s.settle (s.reportInput digest host reference processStartedAt observedAt report token now)

/-- A request, with what the machine says while it is answered. -/
def step (input : Host × Op) : Inputs := (s.call digest input.1 input.2).2

def empty : Inputs := ⟨.empty, .empty, fun _ => []⟩

end Inputs

end AgentDocker.Daemon
