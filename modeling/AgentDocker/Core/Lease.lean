import AgentDocker.Core.Resource
import AgentDocker.Lib.Keyed
import Mathlib.Data.List.Sort

/-!
# Leases: time-limited claims on shared resources

The lease table is a hash map from lease ids to leases, so its walking order
is nobody's promise: a table is a `Keyed` collection, and everything the
source computes by walking it walks `rows`.

Two inputs of the source's functions are made explicit. `LeaseId::generate`
draws a random id; here the id drawn is an argument. Times are instants on one
line, and a duration is a difference of two.
-/

namespace AgentDocker.Core

open Lib

abbrev Time := Int

structure AgentId where
  id : String
deriving DecidableEq, Repr

/-- Abbreviated form for tables and messages: the first twelve characters. -/
def AgentId.short (a : AgentId) : String := String.ofList (a.id.toList.take 12)

inductive LeaseMode where
  /-- Nobody else may hold any lease on an overlapping resource. -/
  | exclusive
  /-- Others may also hold shared leases; blocks exclusive ones. -/
  | shared
deriving DecidableEq, Repr

def LeaseMode.display : LeaseMode → String
  | .exclusive => "exclusive"
  | .shared => "shared"

structure LeaseId where
  id : String
deriving DecidableEq, Repr

structure Lease where
  id : LeaseId
  resource : ResourceKey
  holder : AgentId
  mode : LeaseMode
  acquiredAt : Time
  /-- When its current holder took it, when that is not `acquiredAt`: the
  moment a handoff passed it on. -/
  heldSince : Option Time
  changeSeq : Option Nat
  expiresAt : Time
  note : Option String
  /-- How much of a `quota:` resource it takes; zero for every other kind. -/
  amount : Nat
  /-- Taken by an adapter for the edit in hand, not asked for by the agent. -/
  automatic : Bool
deriving DecidableEq, Repr

namespace Lease

def isExpired (l : Lease) (now : Time) : Bool := decide (l.expiresAt ≤ now)

/-- Would this lease stop `requester` from taking `mode` on `resource`? -/
def blocks (l : Lease) (requester : AgentId) (mode : LeaseMode) (resource : ResourceKey) : Bool :=
  decide (l.holder ≠ requester) && l.resource.overlaps resource &&
    (l.mode == .exclusive || mode == .exclusive)

/-- Whether two leases may not be in different hands. -/
def conflicts (l k : Lease) : Bool :=
  l.resource.overlaps k.resource && (l.mode == .exclusive || k.mode == .exclusive)

theorem conflicts_comm (l k : Lease) : l.conflicts k = k.conflicts l := by
  rw [conflicts, conflicts, ResourceKey.overlaps_comm, Bool.or_comm]

theorem blocks_eq {l : Lease} {requester : AgentId} {mode : LeaseMode} {resource : ResourceKey} :
    l.blocks requester mode resource = true ↔
      l.holder ≠ requester ∧ l.resource.overlaps resource = true ∧
        (l.mode = .exclusive ∨ mode = .exclusive) := by
  simp [blocks, and_assoc]

/-- The order listings come in: oldest first, the id deciding among equals. -/
def before (l k : Lease) : Prop :=
  l.acquiredAt < k.acquiredAt ∨ (l.acquiredAt = k.acquiredAt ∧ l.id.id ≤ k.id.id)

instance (l k : Lease) : Decidable (l.before k) :=
  inferInstanceAs (Decidable (_ ∨ _))

end Lease

inductive LeaseError where
  | conflict (resource : ResourceKey) (heldBy : List Lease)
  | notFound (id : LeaseId)
  | notHolder (lease : LeaseId) (holder requester : AgentId)
deriving DecidableEq, Repr

def describeHolders (leases : List Lease) : String :=
  String.intercalate ", " <| leases.map fun l =>
    l.holder.short ++ " (" ++ l.mode.display ++ " on " ++ l.resource.key ++ ")"

def LeaseError.display : LeaseError → String
  | .conflict resource heldBy => resource.key ++ " is held by " ++ describeHolders heldBy
  | .notFound id => "lease " ++ id.id ++ " not found"
  | .notHolder lease holder requester =>
    "lease " ++ lease.id ++ " belongs to " ++ holder.id ++ ", not " ++ requester.id

/-- Result of a successful claim. -/
inductive Claimed where
  | new (lease : Lease)
  /-- The holder already had this exact lease; its expiry was extended. -/
  | renewed (lease : Lease)
deriving DecidableEq, Repr

structure ClaimRequest where
  resource : ResourceKey
  holder : AgentId
  mode : LeaseMode
  ttl : Time
  note : Option String
  automatic : Bool
deriving DecidableEq, Repr

abbrev LeaseTable := Keyed Lease.id

namespace LeaseTable

def sorted (t : LeaseTable) (keep : Lease → Bool) : List Lease :=
  (t.rows.filter keep).insertionSort Lease.before

/-- Every lease overlapping `resource`. -/
def holdersOf (t : LeaseTable) (resource : ResourceKey) : List Lease :=
  t.sorted (·.resource.overlaps resource)

def byHolder (t : LeaseTable) (holder : AgentId) : List Lease :=
  t.sorted (decide <| ·.holder = holder)

def all (t : LeaseTable) : List Lease := t.sorted fun _ => true

variable {t : LeaseTable} {l : Lease}

theorem mem_sorted {keep : Lease → Bool} : l ∈ t.sorted keep ↔ l ∈ t ∧ keep l = true := by
  rw [sorted, List.mem_insertionSort, List.mem_filter]
  rfl

theorem mem_byHolder {holder : AgentId} : l ∈ t.byHolder holder ↔ l ∈ t ∧ l.holder = holder := by
  rw [byHolder, mem_sorted, decide_eq_true_eq]

theorem mem_all : l ∈ t.all ↔ l ∈ t := by
  rw [all, mem_sorted, and_iff_left rfl]

variable (t : LeaseTable)

/-- How much of a quota is spoken for, across every live holder of it. -/
def committed (resource : ResourceKey) : Nat :=
  (t.all.filter (decide <| ·.resource = resource)).foldl (· + ·.amount) 0

/-- Remove and return every lease whose TTL has passed. -/
def expire (now : Time) : LeaseTable × List Lease :=
  (t.filter (!·.isExpired now), t.rows.filter (·.isExpired now))

/-- Put a lease back without conflict checks. -/
def restore (lease : Lease) : LeaseTable := t.insert lease

/-- The lease under `id`, if it is `holder`'s to change. -/
def owned (id : LeaseId) (holder : AgentId) : Except LeaseError Lease :=
  match t.get? id with
  | none => .error (.notFound id)
  | some lease =>
    if lease.holder ≠ holder then .error (.notHolder id lease.holder holder)
    else .ok lease

section

variable (request : ClaimRequest)

/-- The lease a claim of what its holder already has in that mode renews. -/
def existing : Option Lease :=
  t.rows.find? fun l => decide (l.holder = request.holder) &&
    decide (l.resource = request.resource) && decide (l.mode = request.mode)

/-- What renewing by a claim makes of a lease: a deliberate claim of what an
adapter held automatically makes it the agent's, never the other way. -/
def renewedBy (now : Time) (l : Lease) : Lease :=
  { l with
    expiresAt := now + request.ttl
    note := if request.note.isSome then request.note else l.note
    automatic := l.automatic && request.automatic }

/-- The lease a claim makes, under the id it drew. -/
def fresh (now : Time) (id : LeaseId) : Lease where
  id := id
  resource := request.resource
  holder := request.holder
  mode := request.mode
  acquiredAt := now
  heldSince := none
  changeSeq := none
  expiresAt := now + request.ttl
  note := request.note
  amount := 0
  automatic := request.automatic

/-- The leases that stop a claim. -/
def inTheWay : List Lease :=
  t.rows.filter (·.blocks request.holder request.mode request.resource)

/-- Take a lease, or learn who is in the way. Claiming a resource you already
hold in the same mode renews it instead of failing. -/
def claimAs (now : Time) (id : LeaseId) : LeaseTable × Except LeaseError Claimed :=
  let t := (t.expire now).1
  match t.existing request with
  | some l =>
    let renewed := renewedBy request now l
    (t.insert renewed, .ok (.renewed renewed))
  | none =>
    let heldBy := t.inTheWay request
    if heldBy ≠ [] then
      (t, .error (.conflict request.resource heldBy))
    else
      let lease := fresh request now id
      (t.insert lease, .ok (.new lease))

end

def renew (id : LeaseId) (holder : AgentId) (ttl now : Time) :
    LeaseTable × Except LeaseError Lease :=
  let t := (t.expire now).1
  match t.owned id holder with
  | .error err => (t, .error err)
  | .ok lease =>
    let lease := { lease with expiresAt := now + ttl }
    (t.insert lease, .ok lease)

def release (id : LeaseId) (holder : AgentId) : LeaseTable × Except LeaseError Lease :=
  match t.owned id holder with
  | .error err => (t, .error err)
  | .ok lease => (t.erase id, .ok lease)

/-- Whether releasing what `holder` holds drops this lease: with
`onlyAutomatic`, only one an adapter took for an edit. -/
def dropped (holder : AgentId) (onlyAutomatic : Bool) (l : Lease) : Bool :=
  decide (l.holder = holder) && (!onlyAutomatic || l.automatic)

/-- Drop the holder's leases: every one, or the automatic ones. -/
def releaseHeld (holder : AgentId) (onlyAutomatic : Bool) : LeaseTable × List Lease :=
  (t.filter (!dropped holder onlyAutomatic ·), t.rows.filter (dropped holder onlyAutomatic))

/-- A lease as its next holder has it. -/
def handedTo (recipient : AgentId) (now : Time) (l : Lease) : Lease :=
  { l with holder := recipient, heldSince := some now }

/-- The rows `moves` picks, handed to `recipient`, and those rows as they now are. -/
def handOver (moves : Lease → Bool) (recipient : AgentId) (now : Time) : LeaseTable × List Lease :=
  (t.update (fun l => if moves l then handedTo recipient now l else l)
      (by intro l; split <;> rfl),
    ((t.rows.filter moves).map (handedTo recipient now)).insertionSort Lease.before)

/-- Move every live lease of `sender` to `recipient` in one step. -/
def transfer (sender recipient : AgentId) (now : Time) : LeaseTable × List Lease :=
  let t := (t.expire now).1
  t.handOver (fun l => decide (l.holder = sender)) recipient now

/-- Whether a handoff that offered `ids` moves this lease. -/
def selected (sender : AgentId) (ids : List LeaseId) (now : Time) (l : Lease) : Bool :=
  decide (l.holder = sender) && decide (l.id ∈ ids) && !l.isExpired now

/-- Transfer only the still-live leases a handoff offered. -/
def transferSelected (sender recipient : AgentId) (ids : List LeaseId)
    (now : Time) : LeaseTable × List Lease :=
  t.handOver (selected sender ids now) recipient now

end LeaseTable

end AgentDocker.Core
