import AgentDocker.Lib.Latest
import AgentDocker.Store.Usage

/-!
# What an agent held, and when

Usage is charged to the card an agent held and to the roles it had when the usage
was made, however late its record arrives. So a card let go and a change of roles
are each kept as an interval: who, what, since when and until when. The interval
of the roles held now is open.

The rows are one table under the key of who, what kind, since when and what; a row
put in takes the place of the one under its key.
-/

namespace AgentDocker.Store

open AgentDocker.Core Lib

inductive HeldKind where
  | card
  | role
deriving DecidableEq, Repr

structure Holding where
  agent : String
  kind : HeldKind
  since : Time
  /-- Absent while it lasts. -/
  upTo : Option Time
  value : String
deriving DecidableEq, Repr

def Holding.key (h : Holding) : String × HeldKind × Time × String :=
  (h.agent, h.kind, h.since, h.value)

structure Holdings where
  rows : Keyed Holding.key
  retainedSince : Option Time

/-- The order a query meets its rows in; it may leave none out. -/
structure Scan where
  read : List Holding → List Holding
  perm : ∀ rows, (read rows).Perm rows

namespace Holdings

def empty : Holdings := ⟨.empty, none⟩

/-- A lease ended for its holder: an exclusive hold on a card of a board is kept,
from when the holder took it to when it ended, or to its expiry if that was
sooner. -/
def usageHoldingEnded (isCard : String → Bool) (s : Holdings) (lease : Lease) (now : Time) :
    Holdings :=
  let resource := lease.resource.asStr.toList
  let card := String.ofList (resource.drop "task:".length)
  if lease.mode = .exclusive ∧ "task:".toList.isPrefixOf resource ∧ isCard card then
    let since := lease.heldSince.getD lease.acquiredAt
    let earlier := if now ≤ lease.expiresAt then now else lease.expiresAt
    { s with rows := s.rows.insert ⟨lease.holder.id, .card, since,
        some (Usage.later since earlier), card⟩ }
  else s

/-- Roles are kept as their label, none as the empty one. -/
def labelOf (role : Option String) : String := role.getD ""

def roleOf (label : String) : Option String := if label = "" then none else some label

def isOpen (agent : String) (h : Holding) : Bool :=
  decide (h.agent = agent) && decide (h.kind = .role) && h.upTo.isNone

/-- The roles an agent has now end. -/
def close (agent : String) (now : Time) (h : Holding) : Holding :=
  if isOpen agent h then { h with upTo := some now } else h

theorem close_key (agent : String) (now : Time) (h : Holding) :
    (close agent now h).key = h.key := by
  unfold close
  split <;> rfl

/-- An agent's roles changed: the interval of those it had closes and one for the
new opens. The first change kept for an agent also keeps what it had since it was
registered. -/
def usageRoleChanged (s : Holdings) (agent : String) (registered : Time)
    (before after : Option String) (now : Time) : Holdings :=
  let closed := s.rows.update (close agent now) (close_key agent now)
  let kept :=
    if (s.rows.rows.filter (isOpen agent)).length = 0 ∧ registered < now then
      closed.insert ⟨agent, .role, registered, some now, labelOf before⟩
    else closed
  { s with rows := kept.insert ⟨agent, .role, now, none, labelOf after⟩ }

/-- The interval contains the instant. -/
def Covers (h : Holding) (time : Time) : Prop :=
  h.since ≤ time ∧ ∀ upTo, h.upTo = some upTo → time < upTo

/-- The window as a test: an open one covers all that is not before it. -/
def covers (h : Holding) (time : Time) : Bool :=
  (Int.decLe h.since time).decide && h.upTo.all fun upTo => (Int.decLt time upTo).decide

theorem covers_iff (h : Holding) (time : Time) : covers h time = true ↔ Covers h time := by
  cases hupTo : h.upTo <;> simp [covers, Covers, hupTo]

instance (h : Holding) (time : Time) : Decidable (Covers h time) :=
  decidable_of_iff (covers h time = true) (covers_iff h time)

def held (scan : Scan) (s : Holdings) (agent : String) (kind : HeldKind) : List Holding :=
  scan.read (s.rows.rows.filter fun h => decide (h.agent = agent) && decide (h.kind = kind))

/-- The roles an agent had at an instant; nothing when they never changed, and the
first kept for an instant before them. -/
def usageRoleHeld (scan : Scan) (s : Holdings) (agent : String) (time : Time) :
    Option (Option String) :=
  ((maxByKey (·.since) ((s.held scan agent .role).filter fun h => decide (Covers h time))).or
    (maxByKey (fun h => OrderDual.toDual h.since) (s.held scan agent .role))).map fun h =>
      roleOf h.value

/-- Intervals that ended before the boundary can charge nothing. -/
def pruneUsage (s : Holdings) (requested : Time) (takes : Holding → Bool) : Holdings :=
  let since := match s.retainedSince with
    | none => requested
    | some committed => Usage.later committed requested
  { rows := s.rows.filter fun h => !(h.upTo.any (fun upTo => decide (upTo < since)) && takes h)
    retainedSince := some since }

/-! ## Runs -/

inductive Op where
  | holdingEnded (isCard : String → Bool) (lease : Lease) (now : Time)
  | roleChanged (agent : String) (registered : Time) (before after : Option String) (now : Time)
  | prune (requested : Time) (takes : Holding → Bool)

def step (s : Holdings) : Op → Holdings
  | .holdingEnded isCard lease now => s.usageHoldingEnded isCard lease now
  | .roleChanged agent registered before after now =>
    s.usageRoleChanged agent registered before after now
  | .prune requested takes => s.pruneUsage requested takes

end Holdings

end AgentDocker.Store
