import AgentDocker.Daemon.Queues
import AgentDocker.Daemon.State

/-!
# Questions

A question is a message that waits: it is opened when it is asked, and it is
over when somebody it was put to answers it, when its asker cancels it, or when
its time is up. An `ask` waits for the answer on its connection, and an answer
that comes meanwhile is held for it; any other answer is left to the queue. A
message that a project holds for the person travels as a question too, its
card, and the answer to a card is a decision about the message.

Every step below is one hold of the state lock. A request that takes the lock
several times, as `answer` does, is several steps with whatever other requests
do in between. Storage works throughout: every commit lands.
-/

namespace AgentDocker.Daemon

open AgentDocker.Core Lib

/-- Ids nobody has drawn before. -/
structure Supply where
  id : Nat → MessageId
  injective : ∀ m n, id m = id n → m = n

/-- Where an accepted answer went. -/
inductive AnswerRoute where
  | toolResult
  | queue
deriving DecidableEq, Repr

/-- The events that are about questions, and the messages sent. -/
inductive QuestionEvent where
  | messageSent (message : MessageId) (sender : String) (destination : Destination) (kind : String)
  | messageHeld (message question : MessageId)
  | heldMessageReleased (message question : MessageId) (decider : String)
  | heldMessageDropped (message question : MessageId) (decider : String)
  | questionOpened (question : MessageId) (expiresAt : Time)
  | questionStale (question : MessageId) (action : StaleAction)
  | questionClosed (question : MessageId) (answer : Option MessageId)
  | questionCancelled (question : MessageId) (agent : AgentId)
  | answerRouted (question answer : MessageId) (route : AnswerRoute)
deriving DecidableEq, Repr

inductive HeldDecision where
  | release
  | drop
deriving DecidableEq, Repr

/-- An answer held for the `ask` that waits for it. -/
structure HeldAnswer where
  answer : MessageId
  question : MessageId
deriving DecidableEq, Repr

/-- How far an `answer` has come. -/
inductive Stage where
  /-- It found the question open. -/
  | looked
  /-- The question is a held message's card. -/
  | deciding
  /-- It is a question like any other. -/
  | replying
deriving DecidableEq, Repr

/-- An `answer` under way, with the question as it found it. -/
structure Answering where
  request : Nat
  question : Question
  stage : Stage
deriving DecidableEq, Repr

/-- An answer that closed a question, and what was so at the moment. -/
structure Acceptance where
  question : Question
  answer : Envelope
  /-- It is the daemon's own, for a question that went stale. -/
  byDefault : Bool
  people : People

/-- What a hold of the lock finds in the rest of the daemon. -/
structure Setting where
  people : People
  routes : Routes
  /-- Whether an agent's queue has room for a message. -/
  room : AgentId → Envelope → Bool
  /-- The payload an answer to a question is accepted with, or why it does not
  fit; the daemon's own default is read differently. -/
  resolves : Bool → Question → String → Except String String
  /-- What a question takes a label as, for its default answer. -/
  defaultAnswer : Question → String → Except String String

inductive Reply where
  | ok
  | sent (message : MessageId)
  | held (message question : MessageId)
  | error (code : ErrorCode) (message : String)
deriving DecidableEq, Repr

/-- One more thing that lands with a message or not at all. -/
inductive DocumentTransition where
  | none
  /-- The message kept, as its card goes out. -/
  | holds (held : HeldMessage)
  /-- The card settled, as its message goes out. -/
  | releases (held : HeldMessage) (decider : String)

namespace DocumentTransition

def event : DocumentTransition → List QuestionEvent
  | .none => []
  | .holds held => [.messageHeld held.envelope.id held.question]
  | .releases held decider => [.heldMessageReleased held.envelope.id held.question decider]

/-- The question it settles without an answer. -/
def closes : DocumentTransition → Option MessageId
  | .releases held _ => some held.question
  | _ => Option.none

end DocumentTransition

/-- A message on its way out. -/
structure Publication where
  envelope : Envelope
  question : Option Question
  document : DocumentTransition
  /-- The open question this is the daemon's default answer to. -/
  defaultFor : Option MessageId

def maxQuestions : Nat := 512

/-- Whom the daemon's own answers are from. -/
def defaultAnswerer : String := "agentd"

/-- Who dropped a held message whose card expired. -/
def expiry : String := "expiry"

/-- How long a held message waits for the person. -/
def heldFor : Time := 7 * 24 * 60 * 60

structure Questions where
  supply : Supply
  /-- How many ids were drawn. -/
  used : Nat
  questions : Keyed Question.id
  heldMessages : Keyed HeldMessage.question
  questionWaiters : List MessageId
  heldAnswers : Keyed HeldAnswer.answer
  /-- Every message as it was put into a queue. -/
  queued : List (AgentId × Envelope)
  events : List QuestionEvent
  answering : Keyed Answering.request
  /-- Every answer that closed a question. -/
  accepted : List Acceptance

namespace Questions

/-- A daemon that nobody has asked anything. -/
def empty (supply : Supply) : Questions :=
  ⟨supply, 0, .empty, .empty, [], .empty, [], [], .empty, []⟩

variable (s : Questions) (w : Setting) (now swept : Time) (p : Publication)

/-- `MessageId::generate`. -/
def drawn : MessageId := s.supply.id s.used

def draw : Questions := { s with used := s.used + 1 }

def emit (events : List QuestionEvent) : Questions :=
  { s with events := s.events ++ events }

/-- Ids in their own order. -/
def sortIds (ids : List MessageId) : List MessageId :=
  ids.insertionSort fun a b => a.id ≤ b.id

/-! ## The message path -/

/-- The question a message closes: the one it is the default for, or else the
one it replies to, if it goes to the asker and comes from somebody the question
was put to. -/
def closed : Option Question :=
  match p.defaultFor with
  | some id => s.questions.get? id
  | none => (p.envelope.replyTo.bind s.questions.get?).filter fun q =>
    decide (p.envelope.destination = .agent q.asker) &&
      q.putTo w.people ⟨p.envelope.sender⟩

/-- The message as it is accepted: a reply that closes a question is its
answer, whichever request carried it. -/
def resolved : Option Question → Except String Envelope
  | none => .ok p.envelope
  | some q =>
    match w.resolves p.defaultFor.isSome q p.envelope.payload with
    | .error reason => .error reason
    | .ok payload => .ok { p.envelope with payload, kind := "answer" }

/-- The card a released message settles, if it is still open. -/
def settled : Option MessageId :=
  p.document.closes.filter fun id => (s.questions.get? id).isSome

/-- Said of a question before the default answer it gets. -/
def staleNotice (closed : Option Question) : List QuestionEvent :=
  if p.defaultFor.isSome then closed.toList.map fun q => .questionStale q.id q.staleAction else []

section

variable (closed : Option Question) (e : Envelope)

/-- What a message's commit announces. -/
def announced : List QuestionEvent :=
  p.document.event ++ staleNotice p closed ++ (s.settled p).toList.map (.questionClosed · none) ++
    [.messageSent e.id e.sender e.destination e.kind] ++
    p.question.toList.map (fun q => .questionOpened q.id q.expiresAt) ++
    closed.toList.map (fun q => .questionClosed q.id (some e.id))

/-- The message's commit. -/
def published : Questions :=
  let closing := closed.toList.map (·.id) ++ (s.settled p).toList
  { s with
    queued := s.queued ++ (w.routes.recipients e).map (·, e)
    questions := (p.question.toList.foldl Keyed.insert s.questions).filter
      fun q => decide (q.id ∉ closing)
    events := s.events ++ s.announced p closed e
    accepted := s.accepted ++ closed.toList.map fun q => ⟨q, e, p.defaultFor.isSome, w.people⟩ }

/-- An accepted answer is held for the `ask` that waits for it; without one the
queue is its route, said at once. -/
def routeAnswer : Questions :=
  match closed with
  | none => s
  | some q =>
    if q.id ∈ s.questionWaiters then
      { s with heldAnswers := s.heldAnswers.insert ⟨e.id, q.id⟩ }
    else
      s.emit [.answerRouted q.id e.id .queue]

end

/-- A message goes out. -/
def deliver (e : Envelope) : Questions :=
  (s.published w p (s.closed w p) e).routeAnswer (s.closed w p) e

/-- `publish_routed`, once the sweep it begins with is done. -/
def publishRouted : Questions × Reply :=
  if p.question.isSome ∧ s.questions.rows.length ≥ maxQuestions then
    (s, .error .unavailable "too many questions are already waiting for an answer")
  else
    match resolved w p (s.closed w p) with
    | .error reason => (s, .error .invalid reason)
    | .ok e =>
      match (w.routes.recipients e).find? (!w.room · e) with
      | some full => (s, .error .backpressure (inboxFull full))
      | none => (s.deliver w p e, .sent e.id)

/-! ## The sweep -/

/-- `close_expired_questions`: what ran out is closed, and a card takes its
message with it. -/
def closeExpired : Questions :=
  let expired := sortIds ((s.questions.rows.filter (·.expired now)).map (·.id))
  let held := expired.filterMap s.heldMessages.get?
  { s with
    events := s.events ++ expired.map (.questionClosed · none) ++
      held.map fun h => .heldMessageDropped h.envelope.id h.question expiry
    questions := s.questions.filter fun q => decide (q.id ∉ expired)
    heldMessages := s.heldMessages.filter fun h => decide (h.question ∉ expired) }

/-- The envelope of a question's default answer. -/
def defaultEnvelope (q : Question) (payload : String) (now : Time) : Envelope :=
  ⟨s.drawn, defaultAnswerer, .agent q.asker, "answer", payload, some q.id, now⟩

/-- A question whose stale window passed: what its asker wanted then. A default
that is refused leaves the question as it is, for the next sweep. -/
def stale (s : Questions) (id : MessageId) : Questions :=
  match (s.questions.get? id).filter (·.staleSince.isNone) with
  | none => s
  | some q =>
    match q.staleAction with
    | .keepWaiting =>
      { s with
        events := s.events ++ [.questionStale q.id .keepWaiting]
        questions := s.questions.insert { q with staleSince := some now } }
    | .answerDefault label =>
      match w.defaultAnswer q label with
      | .error _ => s
      | .ok payload =>
        (s.draw.publishRouted w
          ⟨s.defaultEnvelope q payload now, none, .none, some q.id⟩).1
    | .withdraw =>
      { s with
        events := s.events ++ [.questionStale q.id .withdraw, .questionClosed q.id none]
        questions := s.questions.erase q.id }

def due (q : Question) : Bool :=
  q.staleSince.isNone && !q.expired now && q.staleAt.any (decide <| · ≤ now)

/-- `stale_questions`. -/
def staleQuestions : Questions :=
  (sortIds ((s.questions.rows.filter (due now)).map (·.id))).foldl (stale w now) s

/-- `expire_questions`. -/
def expireQuestions : Questions :=
  (s.closeExpired now).staleQuestions w now

/-- `publish_with_channel`. -/
def publish (envelope : Envelope) (question : Option Question) (document : DocumentTransition) :
    Questions × Reply :=
  (s.expireQuestions w now).publishRouted w ⟨envelope, question, document, none⟩

/-! ## Asking -/

/-- A question as its asker puts it. -/
structure Draft where
  asker : AgentId
  recipient : Destination
  prompt : String
  timeout : Nat
  staleAfterSecs : Option Nat
  staleAction : StaleAction
  /-- What is wrong with its words or its form. -/
  refusal : Option String

def Draft.question (d : Draft) (id : MessageId) (now : Time) : Question :=
  ⟨id, d.asker, d.recipient, now, now + d.timeout, d.staleAfterSecs, d.staleAction, none⟩

def canBeAsked : Destination → Bool
  | .agent _ | .project _ | .broadcast => true
  | .topic _ | .channel _ => false

/-- `open_question`. The clock is read once for the question and once for the
sweep. -/
def openQuestion (d : Draft) : Questions × Reply :=
  match d.refusal with
  | some reason => (s, .error .invalid reason)
  | none =>
    if canBeAsked d.recipient then
      s.draw.publish w swept
        ⟨s.drawn, d.asker.id, d.recipient, "question", d.prompt, none, now⟩
        (some (d.question s.drawn now)) .none
    else
      (s, .error .invalid
        "ask needs one agent, a project, or `all`; a question has to reach somebody who can answer it")

/-- The hold in which `ask` opens its question and begins to wait for it. -/
def ask (d : Draft) : Questions × Reply :=
  match s.openQuestion w now swept d with
  | (s, .sent message) =>
    ({ s with questionWaiters := message :: s.questionWaiters }, .sent message)
  | refused => refused

/-- `send`, with the id a message is made with. -/
def send (e : Envelope) : Questions × Reply :=
  s.draw.publish w swept { e with id := s.drawn } none .none

/-! ## Held messages -/

/-- `HeldMessage::question`: the card goes to the person, in the sender's name,
and never goes stale. -/
def card (e : Envelope) (id : MessageId) (human : AgentId) (now : Time) : Question :=
  ⟨id, ⟨e.sender⟩, .agent human, now, now + heldFor, none, .keepWaiting, none⟩

def cardMessage (held : HeldMessage) (human : AgentId) (prompt : String) (now : Time) : Envelope :=
  ⟨held.question, held.envelope.sender, .agent human, "question", prompt, none, now⟩

/-- The message kept and its card sent, in one commit. -/
def keepHeld (held : HeldMessage) (human : AgentId) (prompt : String) : Questions × Reply :=
  match s.draw.publish w swept (cardMessage held human prompt now)
      (some (card held.envelope held.question human now)) (.holds held) with
  | (s, .sent _) =>
    ({ s with heldMessages := s.heldMessages.insert held },
      .held held.envelope.id held.question)
  | refused => refused

def holdMessage (e : Envelope) (human : AgentId) (prompt : String) : Questions × Reply :=
  s.draw.keepHeld w now swept ⟨s.draw.drawn, { e with id := s.drawn }⟩ human prompt

/-- Discard held messages with their cards. -/
def dropHeld (dropped : List HeldMessage) (decider : String) (closing : Option QuestionEvent) :
    Questions :=
  if dropped = [] then
    s
  else
    { s with
      events := s.events ++ closing.toList ++
        dropped.map fun h => .heldMessageDropped h.envelope.id h.question decider
      questions := s.questions.filter fun q => decide (q.id ∉ dropped.map (·.question))
      heldMessages := s.heldMessages.filter
        fun h => decide (h.question ∉ dropped.map (·.question)) }

/-- The held message goes out as it was, and settles its card if the card is
still open. -/
def releaseHeld (held : HeldMessage) (decider : String) : Questions × Reply :=
  match s.publish w swept held.envelope none (.releases held decider) with
  | (s, .sent message) =>
    ({ s with heldMessages := s.heldMessages.erase held.question }, .sent message)
  | refused => refused

/-- The person's word on a held message. -/
def settleHeld (question : MessageId) (decision : HeldDecision) (decider : String) :
    Questions × Reply :=
  match s.heldMessages.get? question with
  | none =>
    (s, .error .notFound ("no held message waits on question " ++ question.id))
  | some held =>
    match decision with
    | .release => s.releaseHeld w swept held decider
    | .drop => (s.dropHeld [held] decider (some (.questionClosed question none)), .ok)

/-! ## Ending -/

def cancelQuestion (agent : AgentId) (message : MessageId) : Questions × Reply :=
  match s.questions.get? message with
  | none => (s, .ok)
  | some q =>
    if q.asker ≠ agent then
      (s, .error .forbidden "only the asker can cancel this question")
    else
      match s.heldMessages.get? message with
      | some held =>
        (s.dropHeld [held] agent.id (some (.questionCancelled message agent)), .ok)
      | none =>
        ({ s with
            events := s.events ++ [.questionCancelled message agent]
            questions := s.questions.erase message }, .ok)

/-- `answer`, its first hold: is the question open. -/
def look (request : Nat) (message : MessageId) (now : Time) : Questions × Reply :=
  match (s.questions.get? message).filter fun q => !q.expired now with
  | none =>
    (s, .error .notFound ("no question " ++ message.id ++ " is waiting for an answer"))
  | some q => ({ s with answering := s.answering.insert ⟨request, q, .looked⟩ }, .ok)

/-- Its second: is it a card. -/
def sort (request : Nat) : Questions :=
  match s.answering.get? request with
  | some ⟨_, q, .looked⟩ =>
    let stage := if (s.heldMessages.get? q.id).isSome then .deciding else .replying
    { s with answering := s.answering.insert ⟨request, q, stage⟩ }
  | _ => s

/-- The words an answer comes with, once who says them and to whom is known. -/
structure Words where
  sender : String
  destination : Destination
  /-- Whether the policy lets the sender speak, and if not, what it says. -/
  forbidden : Option String
  /-- The answer in the form the question has, or why it has none. -/
  payload : Except String String

/-- The answer goes down the message path, if the question is still open and
was put to whoever answers. -/
def replyWith (q : Question) (words : Words) : Questions × Reply :=
  if (s.questions.get? q.id).isNone then
    (s, .error .notFound "the question was answered or expired")
  else if !q.putTo w.people ⟨words.sender⟩ then
    (s, .error .forbidden "this question was addressed to another recipient")
  else
    match words.forbidden, words.payload with
    | some reason, _ => (s, .error .forbidden reason)
    | none, .error reason => (s, .error .invalid reason)
    | none, .ok payload =>
      s.draw.publish w swept
        ⟨s.drawn, words.sender, words.destination, "answer", payload, some q.id, now⟩
        none .none

def settleRequest (request : Nat) : Questions :=
  { s with answering := s.answering.erase request }

/-- Its last, for a question. -/
def reply (request : Nat) (words : Words) : Questions × Reply :=
  match s.answering.get? request with
  | some ⟨_, q, .replying⟩ =>
    ((s.settleRequest request).expireQuestions w now).replyWith w now swept q words
  | _ => (s, .ok)

/-- Its last, for a card: the person's decision, if it is the person's and is
one. -/
def decideHeld (request : Nat) (decider : AgentId) (decision : Option HeldDecision) :
    Questions × Reply :=
  match s.answering.get? request with
  | some ⟨_, q, .deciding⟩ =>
    if !w.people.isHuman decider then
      (s.settleRequest request,
        .error .forbidden "only the person releases or drops a held message")
    else
      match decision with
      | none =>
        (s.settleRequest request,
          .error .invalid "a held message is answered `Release` or `Drop`")
      | some decision => (s.settleRequest request).settleHeld w swept q.id decision decider.id
  | _ => (s, .ok)

/-! ## Waiting -/

/-- Held answers go where they go, and it is said. -/
def routeHeld (released : List HeldAnswer) (question : MessageId) (route : AnswerRoute) :
    Questions :=
  { s with
    heldAnswers := s.heldAnswers.filter fun h => decide (h ∉ released)
    events := s.events ++ released.map fun h => .answerRouted question h.answer route }

/-- `answer_handed_over`: the waiting `ask` takes the answer that a committed
closure of its question names. -/
def answerHandedOver (question answer : MessageId) (resolves : Bool) : Questions :=
  match s.heldAnswers.get? answer with
  | none => s
  | some held =>
    if .questionClosed question (some answer) ∈ s.events ∧ resolves = true then
      s.routeHeld [held] question .toolResult
    else
      s

/-- `waiter_ended`: what is still held for the question is the queue's now. -/
def waiterEnded (question : MessageId) : Questions :=
  let released := s.heldAnswers.rows.filter fun h => decide (h.question = question)
  { s.routeHeld released question .queue with
    questionWaiters := s.questionWaiters.filter fun q => decide (q ≠ question) }

/-! ## Runs -/

/-- One hold of the lock. Only a connector's senders are held for the person,
and the person is none of them. -/
inductive Op where
  | ask (w : Setting) (now swept : Time) (d : Draft)
  | post (w : Setting) (now swept : Time) (d : Draft)
  | send (w : Setting) (swept : Time) (e : Envelope)
  | hold (w : Setting) (now swept : Time) (e : Envelope) (human : AgentId) (prompt : String)
      (remote : e.sender ≠ human.id)
  | cancel (agent : AgentId) (message : MessageId)
  | sweep (w : Setting) (now : Time)
  | look (request : Nat) (message : MessageId) (now : Time)
  | sort (request : Nat)
  | reply (w : Setting) (now swept : Time) (request : Nat) (words : Words)
  | decide (w : Setting) (swept : Time) (request : Nat) (decider : AgentId)
      (decision : Option HeldDecision)
  | handOver (question answer : MessageId) (resolves : Bool)
  | endWait (question : MessageId)

def step : Op → Questions
  | .ask w now swept d => (s.ask w now swept d).1
  | .post w now swept d => (s.openQuestion w now swept d).1
  | .send w swept e => (s.send w swept e).1
  | .hold w now swept e human prompt _ => (s.holdMessage w now swept e human prompt).1
  | .cancel agent message => (s.cancelQuestion agent message).1
  | .sweep w now => s.expireQuestions w now
  | .look request message now => (s.look request message now).1
  | .sort request => s.sort request
  | .reply w now swept request words => (s.reply w now swept request words).1
  | .decide w swept request decider decision =>
    (s.decideHeld w swept request decider decision).1
  | .handOver question answer resolves => s.answerHandedOver question answer resolves
  | .endWait question => s.waiterEnded question

end Questions

end AgentDocker.Daemon
