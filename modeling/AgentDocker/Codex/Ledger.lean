/-!
# The Codex delivery ledger

One durable provider input at a time, and one more steered into the turn it
started. Queue acknowledgement follows an exact provider receipt; a prepared
input is submitted once and never resubmitted on uncertainty.

Each operation computes the record it would save; `save` checks that record and
writes it, or fails and leaves everything as it was. The record also keeps the
provider's questions, of which the delivery operations only ask whether any is
open: `Questions` is those answers. What the record's check says about them, and
about where an input's MCP servers come from, is a parameter, and so is the JSON
text an envelope is submitted as.
-/

namespace AgentDocker.Codex

def retainedReceipts : Nat := 128

def maxInputBytes : Nat := 1024 * 1024

/-- A queued message, by what the ledger reads of it. -/
structure Envelope where
  id : String
  sender : String
  kind : String
  replyTo : Option String
  body : String
deriving DecidableEq, Repr

/-- Where the MCP servers of an input come from. -/
structure Origin where
  human : String
  servers : List String
deriving DecidableEq, Repr

/-- The provider's word that it took an input. -/
structure Receipt where
  thread : String
  turn : String
  item : String
deriving DecidableEq, Repr

structure Attempt where
  message : String
  input : String
  mcpOrigin : Option Origin
  receipt : Option Receipt
  acknowledged : Bool
deriving DecidableEq, Repr

structure Completed where
  message : String
  receipt : Receipt
deriving DecidableEq, Repr

/-- What the delivery operations ask of the provider's questions. -/
structure Questions where
  /-- A request is unresolved. -/
  reviews : Bool := false
  /-- A temporary response is unresolved. -/
  secretReview : Bool := false
  retiredQuestions : List String := []
  /-- An answer given through MCP is not yet acknowledged. -/
  mcpUnacknowledged : Bool := false
deriving DecidableEq, Repr

structure Record where
  thread : Option String := none
  attempt : Option Attempt := none
  /-- One more input being steered into the accepted active turn. -/
  steering : Option Attempt := none
  completed : List Completed := []
  questions : Questions := {}
deriving DecidableEq, Repr

structure Env where
  /-- The text an envelope is submitted as. -/
  render : Envelope → String
  validOrigin : Origin → Bool
  /-- The record's check of the provider's questions. -/
  validQuestions : Record → Bool

/-! ## Failing -/

def ensure (holds : Bool) (why : String) : Except String Unit :=
  if holds then .ok () else .error why

def context {α : Type} (found : Option α) (why : String) : Except String α :=
  match found with
  | some a => .ok a
  | none => .error why

theorem ensure_bind_ok {α : Type} {holds : Bool} {why : String} {f : Unit → Except String α}
    {x : α} : (ensure holds why >>= f) = .ok x ↔ holds = true ∧ f () = .ok x := by
  cases holds with
  | true => exact ⟨fun h => ⟨rfl, h⟩, fun h => h.2⟩
  | false => exact ⟨fun h => (by cases h), fun h => absurd h.1 (by decide)⟩

theorem context_bind_ok {α β : Type} {found : Option α} {why : String} {f : α → Except String β}
    {x : β} : (context found why >>= f) = .ok x ↔ ∃ a, found = some a ∧ f a = .ok x := by
  cases found with
  | some a =>
    refine ⟨fun h => ⟨a, rfl, h⟩, fun h => ?_⟩
    obtain ⟨_, hb, hf⟩ := h
    cases hb
    exact hf
  | none =>
    refine ⟨fun h => (by cases h), fun h => ?_⟩
    obtain ⟨_, hb, -⟩ := h
    cases hb

/-! ## What a record must be -/

/-- Unicode's control characters. -/
def isControl (c : Char) : Bool :=
  decide (c.toNat < 0x20) || (decide (0x7F ≤ c.toNat) && decide (c.toNat ≤ 0x9F))

def validId (id : String) : Bool :=
  !id.isEmpty && decide (id.utf8ByteSize ≤ 256) && !id.toList.any isControl

namespace Record

variable (env : Env) (r : Record)

/-- The inputs still on their way: the active one, then the steered one. -/
def pending : List Attempt := r.attempt.toList ++ r.steering.toList

def validReceipt (receipt : Receipt) : Bool :=
  r.thread == some receipt.thread && validId receipt.turn && validId receipt.item

/-- Every receipt the record holds, by turn and item. -/
def receipts : List (String × String) :=
  r.completed.map (fun c => (c.receipt.turn, c.receipt.item)) ++
    r.pending.filterMap fun a => a.receipt.map fun receipt => (receipt.turn, receipt.item)

def validAttempt (a : Attempt) : Except String Unit := do
  ensure (a.mcpOrigin.all env.validOrigin) "invalid MCP origin"
  ensure r.thread.isSome "delivery attempt has no retained thread"
  ensure (validId a.message && !a.input.isEmpty && decide (a.input.utf8ByteSize ≤ maxInputBytes))
    "invalid retained Codex input"
  ensure (!a.acknowledged || a.receipt.isSome) "acknowledged input has no provider receipt"
  ensure (a.receipt.all r.validReceipt) "provider receipt has the wrong thread or invalid IDs"
  ensure (!r.completed.any fun done => done.message == a.message)
    "pending input duplicates a completed receipt"

def validSteering (steering : Attempt) : Except String Unit := do
  let active ← context r.attempt "steering has no active input"
  let receipt ← context active.receipt "steering has no accepted turn"
  ensure active.acknowledged "steering precedes the starting input acknowledgement"
  ensure (steering.message != active.message) "steering repeats the starting input"
  ensure (decide (steering.mcpOrigin = active.mcpOrigin)) "steering changes the MCP binding"
  ensure (steering.receipt.all fun s => s.turn == receipt.turn && s.item != receipt.item)
    "steering receipt belongs to another turn or repeats its first item"

def validate : Except String Unit := do
  ensure (r.thread.all validId) "invalid retained Codex thread"
  ensure (decide (r.completed.length ≤ retainedReceipts)) "too many retained Codex receipts"
  ensure (r.completed.all fun c => validId c.message) "invalid retained message ID"
  ensure (r.completed.all fun c => r.validReceipt c.receipt)
    "provider receipt has the wrong thread or invalid IDs"
  ensure (env.validQuestions r) "invalid provider questions"
  r.pending.forM (validAttempt env r)
  ensure (decide r.receipts.Nodup) "multiple inputs share a provider receipt"
  match r.steering with
  | some steering => r.validSteering steering
  | none => pure ()

/-- The record saved, or why it was not; a save may fail without writing. -/
def save (fails : Bool) (next : Record) : Except String Record := do
  next.validate env
  ensure (!fails) "the delivery record could not be written"
  return next

theorem save_ok {env : Env} {fails : Bool} {next saved : Record}
    (h : save env fails next = .ok saved) : saved = next := by
  simp only [save] at h
  cases hvalid : next.validate env with
  | error => rw [hvalid] at h; cases h
  | ok =>
    rw [hvalid] at h
    obtain ⟨-, h⟩ := ensure_bind_ok.mp h
    cases h
    rfl

/-! ## The operations -/

def bindThread (thread : String) : Except String Record := do
  ensure (validId thread) "invalid Codex thread ID"
  ensure (r.thread.all fun old => old == thread) "cannot replace the retained Codex conversation"
  return { r with thread := some thread }

/-- A conversation that never had an input may be replaced. -/
def discardUnusedThread : Except String Record := do
  ensure (r.attempt.isNone && r.completed.isEmpty && decide (r.questions = {}))
    "a conversation with prepared or accepted input cannot be discarded"
  return { r with thread := none }

/-- The attempt a message would make. -/
def plannedInput (e : Envelope) (origin : Option Origin) : Except String Attempt := do
  ensure (!(origin.any fun o => e.kind == "answer" && e.sender == o.human))
    "this human answer has no reconciled tool receipt; it remains queued and cannot become new input"
  ensure (e.replyTo.all fun id => !r.questions.retiredQuestions.contains id)
    "this reply names a retired provider question; it remains queued for review and cannot become new input"
  ensure r.thread.isSome "Codex conversation is not ready"
  ensure (!r.questions.reviews && !r.questions.secretReview)
    "a provider question still needs response recovery"
  ensure (!r.completed.any fun done => done.message == e.id)
    "this input already has a completed provider receipt"
  ensure (decide ((env.render e).utf8ByteSize ≤ maxInputBytes))
    "queued input is too large for the Codex bridge"
  return { message := e.id, input := env.render e, mcpOrigin := origin, receipt := none,
           acknowledged := false }

def prepareBound (e : Envelope) (origin : Option Origin) : Except String Record := do
  ensure (r.attempt.isNone && r.steering.isNone)
    "an earlier Codex input still needs receipt recovery; automatic resubmission is refused"
  let attempt ← plannedInput env r e origin
  return { r with attempt := some attempt }

def prepareSteering (e : Envelope) (turn : String) : Except String Record := do
  let active ← context r.attempt "no active Codex input"
  ensure (active.acknowledged && active.receipt.any fun receipt => receipt.turn == turn)
    "steering requires the exact acknowledged active turn"
  ensure r.steering.isNone "earlier steering still needs receipt recovery"
  ensure (active.message != e.id) "cannot steer the starting input again"
  let attempt ← plannedInput env r e active.mcpOrigin
  return { r with steering := some attempt }

/-- The first pending input that is meant, changed. -/
def onPending (meant : Attempt → Bool) (why : String) (change : Attempt → Except String Attempt) :
    Except String Record :=
  match r.attempt.filter meant with
  | some attempt => do
      let attempt ← change attempt
      return { r with attempt := some attempt }
  | none => do
      let steering ← context (r.steering.filter meant) why
      let steering ← change steering
      return { r with steering := some steering }

def accept (input : String) (receipt : Receipt) : Except String Record := do
  ensure (r.validReceipt receipt) "provider receipt has the wrong thread or invalid IDs"
  r.onPending (fun a => a.input == input) "provider receipt has no prepared input" fun a => do
    ensure (a.receipt.all fun old => decide (old = receipt)) "conflicting provider receipt"
    return { a with receipt := some receipt }

def acknowledge (message : String) : Except String Record :=
  r.onPending (fun a => a.message == message) "queue acknowledgement has no prepared input"
    fun a => do
      ensure a.receipt.isSome "queue acknowledgement requires the exact provider receipt"
      return { a with acknowledged := true }

/-- The receipts kept, the oldest forgotten past the bound. -/
def complete (completed : List Completed) (done : Completed) : List Completed :=
  let all := completed ++ [done]
  all.drop (all.length - retainedReceipts)

def finishSteering : Except String Record := do
  let attempt ← context r.steering "no steering input to finish"
  ensure attempt.acknowledged "steering input still needs acknowledgement"
  let receipt ← context attempt.receipt "steering input has no provider receipt"
  return { r with steering := none, completed := complete r.completed ⟨attempt.message, receipt⟩ }

/-- The server's word that the prepared input never became a turn. -/
def rejectPrepared : Except String Record := do
  let attempt ← context r.attempt "no prepared input to reject"
  ensure (attempt.receipt.isNone && !attempt.acknowledged) "accepted input cannot be rejected"
  return { r with attempt := none }

/-- Only for a definitive refusal to steer. -/
def rejectSteering : Except String Record := do
  let attempt ← context r.steering "no steering input to reject"
  ensure (attempt.receipt.isNone && !attempt.acknowledged) "accepted steering cannot be rejected"
  return { r with steering := none }

def finish (turn : String) : Except String Record := do
  ensure r.steering.isNone "steering input still needs receipt recovery"
  ensure (!r.questions.mcpUnacknowledged) "MCP answer still needs queue acknowledgement"
  ensure (!r.questions.reviews && !r.questions.secretReview)
    "provider turn still has unresolved questions"
  let attempt ← context r.attempt "completed turn has no prepared input"
  let receipt ← context attempt.receipt "completed turn has no provider receipt"
  ensure (attempt.acknowledged && receipt.turn == turn)
    "completed turn does not match the acknowledged input"
  return { r with attempt := none, completed := complete r.completed ⟨attempt.message, receipt⟩ }

end Record

end AgentDocker.Codex
