import AgentDocker.Daemon.Messages
import AgentDocker.Daemon.State

/-!
# Records and the ids that stand for them

A record that is retired into another leaves, and its id is an alias of the
other's from then on. What named the retired id has to name the one that stays:
the questions that wait, in memory, and the handoffs on file. Two pieces of code
retire records. `commitFold` plans the rewriting of every document and refuses
what would make somebody ask, or hand over to, themselves; `resumeInput` moves
the record.

An operation is one hold of the state lock. A question or a handoff is written
under the ids an earlier hold of its request resolved, so these come with the
operation. So does whether a write lands, with every refusal that is about
neither records nor documents.
-/

namespace AgentDocker.Daemon

open AgentDocker.Core Lib

/-! ## The registry -/

structure AgentAlias where
  retired : AgentId
  canonical : AgentId
deriving DecidableEq, Repr

structure Registry where
  /-- The ids that own a record. -/
  agents : List AgentId
  aliases : Keyed AgentAlias.retired

namespace Registry

def canonicalId (r : Registry) (id : AgentId) : AgentId :=
  match r.aliases.get? id with
  | some known => known.canonical
  | none => id

/-- Retire one record into another, unless one of them is none. -/
def retireInto (r : Registry) (retired canonical : AgentId) : Except String Registry :=
  if retired = canonical then
    .error "self reference"
  else if canonical ∉ r.agents then
    .error "canonical record is missing"
  else if retired ∉ r.agents then
    .error "retired ID owns no record"
  else if r.aliases.rows.any fun known => decide (known.canonical = retired) then
    .error "retired ID is already a canonical alias target"
  else
    .ok ⟨r.agents.filter fun a => decide (a ≠ retired), r.aliases.insert ⟨retired, canonical⟩⟩

/-- The first reason not to fold these records, each in its turn. -/
def foldError (r : Registry) (canonical : AgentId) : List AgentId → List AgentId → Option String
  | [], _ => none
  | id :: rest, seen =>
    if id = canonical then some "self reference"
    else if id ∉ r.agents then some "retired ID owns no record"
    else if id ∈ seen then some "duplicate retired ID"
    else foldError r canonical rest (id :: seen)

/-- An alias of a retired record, pointed at the one that stays. -/
def retarget (retired : List AgentId) (canonical : AgentId) (known : AgentAlias) : AgentAlias :=
  if known.canonical ∈ retired then { known with canonical } else known

theorem retarget_retired (retired : List AgentId) (canonical : AgentId) (known : AgentAlias) :
    (retarget retired canonical known).retired = known.retired := by
  unfold retarget
  split <;> rfl

/-- Retire several records into one, their aliases with them. -/
def foldInto (r : Registry) (retired : List AgentId) (canonical : AgentId) :
    Except String Registry :=
  if canonical ∉ r.agents then
    .error "canonical record is missing"
  else
    match r.foldError canonical retired [] with
    | some reason => .error reason
    | none =>
      .ok ⟨r.agents.filter fun a => decide (a ∉ retired),
        retired.foldl (fun aliases id => aliases.insert ⟨id, canonical⟩)
          (r.aliases.update (retarget retired canonical) (retarget_retired retired canonical))⟩

/-- What memory has after a fold the plan let through; where it finds a reason
against it, it only says so. -/
def folded (r : Registry) (retired : List AgentId) (canonical : AgentId) : Registry :=
  match r.foldInto retired canonical with
  | .ok folded => folded
  | .error _ => r

/-- A record is forgotten with the ids that stood for it. -/
def remove (r : Registry) (id : AgentId) : Registry :=
  let canonical := r.canonicalId id
  ⟨r.agents.filter fun a => decide (a ≠ canonical),
    r.aliases.filter fun known => decide (known.canonical ≠ canonical)⟩

end Registry

/-! ## What names an agent -/

/-- A handoff's bundle, with who accepted its checkpoint. -/
structure HandoffBundle where
  id : String
  sender : AgentId
  recipient : Option AgentId
  acceptedBy : Option AgentId
deriving DecidableEq, Repr

/-- One id put in place of another. -/
def replace (kept old id : AgentId) : AgentId := if id = old then kept else id

def Destination.replace (kept old : AgentId) : Destination → Destination
  | .agent id => .agent (Daemon.replace kept old id)
  | other => other

/-- The question with the retired id replaced; it may not become one its asker
put to itself. -/
def Question.rewrite (kept : AgentId) (q : Question) (old : AgentId) : Option Question :=
  let rewritten := { q with
    asker := replace kept old q.asker
    recipient := q.recipient.replace kept old }
  if q.recipient = .agent q.asker ∨ rewritten.recipient ≠ .agent rewritten.asker then
    some rewritten
  else
    none

def HandoffBundle.rewrite (kept : AgentId) (h : HandoffBundle) (old : AgentId) :
    Option HandoffBundle :=
  let rewritten := { h with
    sender := replace kept old h.sender
    recipient := h.recipient.map (replace kept old) }
  if h.recipient = none ∨ h.recipient = some h.sender ∨
      rewritten.recipient ≠ some rewritten.sender then
    some rewritten
  else
    none

theorem HandoffBundle.rewrite_id {kept old : AgentId} {h h' : HandoffBundle}
    (heq : h.rewrite kept old = some h') : h'.id = h.id := by
  unfold rewrite at heq
  dsimp only at heq
  split at heq <;> cases heq
  rfl

theorem HandoffBundle.foldlM_rewrite_id {kept : AgentId} {retired : List AgentId}
    {h h' : HandoffBundle} (heq : retired.foldlM (rewrite kept) h = some h') : h'.id = h.id := by
  induction retired generalizing h with
  | nil =>
    cases heq
    rfl
  | cons _ _ ih =>
    rw [List.foldlM_cons, Option.bind_eq_bind, Option.bind_eq_some_iff] at heq
    obtain ⟨_, hone, hrest⟩ := heq
    rw [ih hrest, rewrite_id hone]

/-- The bundle as a plan that takes it leaves it. -/
def HandoffBundle.rewritten (kept : AgentId) (retired : List AgentId) (h : HandoffBundle) :
    HandoffBundle :=
  (retired.foldlM (rewrite kept) h).getD h

theorem HandoffBundle.rewritten_id {kept : AgentId} (retired : List AgentId) (h : HandoffBundle) :
    (h.rewritten kept retired).id = h.id := by
  unfold rewritten
  cases heq : retired.foldlM (rewrite kept) h with
  | none => rfl
  | some => exact foldlM_rewrite_id heq

/-! ## The state -/

structure Identities where
  registry : Registry
  /-- The questions that wait for an answer. -/
  questions : Keyed Question.id
  handoffs : Keyed HandoffBundle.id

namespace Identities

/-- Records, and nothing that names them. -/
def start (agents : List AgentId) : Identities := ⟨⟨agents, .empty⟩, .empty, .empty⟩

/-- The question of memory, renamed in one go. -/
def renamed (kept : AgentId) (retired : List AgentId) (q : Question) : Question :=
  { q with
    asker := if q.asker ∈ retired then kept else q.asker
    recipient := match q.recipient with
      | .agent id => .agent (if id ∈ retired then kept else id)
      | other => other }

theorem renamed_id {kept : AgentId} (retired : List AgentId) (q : Question) :
    (renamed kept retired q).id = q.id :=
  rfl

variable (s : Identities)

/-- What a fold is refused for. -/
def planFold (kept : AgentId) (retired : List AgentId) : Bool :=
  decide (retired ≠ []) && decide (kept ∉ retired) &&
    retired.all (fun id => decide (id ∈ s.registry.agents)) && decide retired.Nodup &&
    s.questions.rows.all (fun q => (retired.foldlM (Question.rewrite kept) q).isSome) &&
    s.handoffs.rows.all (fun h => (retired.foldlM (HandoffBundle.rewrite kept) h).isSome) &&
    s.registry.aliases.rows.all fun known =>
      decide (known.retired ∉ retired) && decide (known.retired ≠ kept)

/-- Retire records into one that stays, with everything that named them. -/
def commitFold (kept : AgentId) (retired : List AgentId) (lands : Bool) : Identities :=
  if s.planFold kept retired && lands then
    { registry := s.registry.folded retired kept
      questions := s.questions.update (renamed kept retired) (renamed_id retired)
      handoffs := s.handoffs.update (HandoffBundle.rewritten kept retired)
        (HandoffBundle.rewritten_id retired) }
  else
    s

/-- Retire a provider session's new record into its prior one. -/
def resumeInput (prior caller : AgentId) (lands : Bool) : Identities :=
  if prior ≠ caller ∧ lands = true then
    match s.registry.retireInto caller prior with
    | .ok registry => { s with registry }
    | .error _ => s
  else
    s

/-- Whether the answer of `who` closes a question: the request resolves who
answers, and whom to, and the message path compares them with the question. -/
def answers (people : People) (q : Question) (who : AgentId) : Bool :=
  decide (s.registry.canonicalId q.asker = q.asker) &&
    q.putTo people (s.registry.canonicalId who)

/-- What an agent that accepts a handoff is refused for. -/
def refusal (h : HandoffBundle) (agent : AgentId) : Option Response :=
  if h.recipient.any fun recipient => decide (recipient ≠ agent) then
    some (.error .forbidden "handoff is addressed to another agent" .none)
  else if h.acceptedBy.any fun accepted => decide (accepted ≠ agent) then
    some (.error .conflict "handoff was already accepted by another session" .none)
  else
    none

def acceptHandoff (id : String) (who : AgentId) (lands : Bool) : Identities :=
  match s.handoffs.get? id with
  | none => s
  | some h =>
    if (refusal h (s.registry.canonicalId who)).isNone && lands then
      { s with
        handoffs := s.handoffs.insert
          { h with acceptedBy := some (s.registry.canonicalId who) } }
    else
      s

/-! ## Runs -/

inductive Op where
  | register (agent : AgentId)
  | remove (agent : AgentId) (lands : Bool)
  | ask (q : Question) (lands : Bool)
  /-- Answered, cancelled, withdrawn or expired. -/
  | close (question : MessageId) (lands : Bool)
  | handoff (h : HandoffBundle) (lands : Bool)
  | accept (id : String) (who : AgentId) (lands : Bool)
  | fold (kept : AgentId) (retired : List AgentId) (lands : Bool)
  | resume (prior caller : AgentId) (lands : Bool)

def step : Op → Identities
  | .register agent => { s with registry.agents := s.registry.agents ++ [agent] }
  | .remove agent lands => if lands then { s with registry := s.registry.remove agent } else s
  | .ask q lands => if lands then { s with questions := s.questions.insert q } else s
  | .close question lands =>
    if lands then { s with questions := s.questions.erase question } else s
  -- a handoff on file already is the answer to a second one
  | .handoff h lands =>
    if lands && (s.handoffs.get? h.id).isNone then
      { s with handoffs := s.handoffs.insert h }
    else
      s
  | .accept id who lands => s.acceptHandoff id who lands
  | .fold kept retired lands => s.commitFold kept retired lands
  | .resume prior caller lands => s.resumeInput prior caller lands

end Identities

end AgentDocker.Daemon
