import AgentDocker.Lib.Keyed
import AgentDocker.Lib.Outcomes
import AgentDocker.Lib.StableSort

/-!
# The event log, and reading on from a cursor

Events are rows under their sequence numbers. Old ones are pruned, and the
highest number ever given stays known without them. A client that lost its
stream comes back with the cursor of the last event it saw: which log, which
number, and a digest of the event's text. It is answered with the events after
that one, or told that the log cannot be continued from there.

The digest, the text format of events and the size of a frame are other code's;
a `Codec` stands for them. A query may also fail, and then the whole replay does.
-/

namespace AgentDocker.Store

open Lib

structure EventCursor where
  log : String
  seq : Nat
  digest : String
deriving DecidableEq, Repr

def isHex (value : String) (len : Nat) : Bool :=
  decide (value.length = len) &&
    value.toList.all fun ch => ch.isDigit || (decide ('a' ≤ ch) && decide (ch ≤ 'f'))

/-- The largest number a row can have. -/
def seqMax : Nat := 9223372036854775807

def EventCursor.isValid (cursor : EventCursor) : Bool :=
  isHex cursor.log 32 && decide (cursor.seq ≤ seqMax) &&
    if cursor.seq = 0 then decide (cursor.digest = "") else isHex cursor.digest 64

structure EventRow where
  seq : Nat
  json : String
deriving DecidableEq, Repr

structure EventLog where
  /-- Which log this is. -/
  logId : Option String
  events : Keyed EventRow.seq
  /-- The highest number a row was ever given, as the database keeps it. -/
  sequence : Nat

/-- Events of type `E`, as they are written and read. -/
structure Codec (E : Type) where
  digest : String → String
  parse : String → Option E
  seq : E → Nat
  /-- How long a frame is on the wire. -/
  frameBytes : EventCursor → E → Nat

/-- Bounds of a replay, and of a frame. -/
def eventReplayLimit : Nat := 4096

def eventStreamFrameBytes : Nat := 8 * 1024 * 1024

inductive ReplayError where
  /-- A query or a stored event could not be read. -/
  | storage (reason : String)
  /-- There is no going on from the cursor. -/
  | unavailable (reason : String)
deriving DecidableEq, Repr

inductive Query where
  | logId
  | head
  | anchor
  | count
  | page
deriving DecidableEq, Repr

structure Frame (E : Type) where
  cursor : EventCursor
  event : E
deriving DecidableEq

structure EventReplay (E : Type) where
  start : EventCursor
  head : EventCursor
  frames : List (Frame E)
deriving DecidableEq

namespace EventLog

/-- The highest number ever stored, or 0 when there are none. -/
def maxEventSeq (log : EventLog) : Nat :=
  max log.sequence ((log.events.rows.map EventRow.seq).foldl max 0)

/-- The events after one and up to another, in order. -/
def page (log : EventLog) (startSeq headSeq : Nat) : List EventRow :=
  sortBy EventRow.seq
    (log.events.rows.filter fun row => decide (startSeq < row.seq) && decide (row.seq ≤ headSeq))

/-- How many of them, and how many bytes of text. -/
def measure (log : EventLog) (startSeq headSeq : Nat) : Nat × Nat :=
  let rows := log.events.rows.filter fun row =>
    decide (startSeq < row.seq) && decide (row.seq ≤ headSeq)
  (rows.length, rows.foldl (fun bytes row => bytes + row.json.utf8ByteSize) 0)

variable {E : Type} (c : Codec E) (fails : Query → Option String)

def cursor (log : String) (seq : Nat) (json : String) : EventCursor :=
  ⟨log, seq, if seq = 0 then "" else c.digest json⟩

def ask {α : Type} (query : Query) (answer : α) : Except ReplayError α :=
  match fails query with
  | some reason => .error (.storage reason)
  | none => .ok answer

/-- The event a row holds; its text says the same number as its row. -/
def decode (row : EventRow) : Except ReplayError E :=
  match c.parse row.json with
  | none => .error (.storage "invalid event")
  | some event =>
    if c.seq event = row.seq then .ok event
    else .error (.storage "stored event sequence disagrees with its row")

/-- The cursor the replay starts from, made anew from what is stored. -/
def anchor (log : EventLog) (id : String) (startSeq : Nat) : Except ReplayError EventCursor :=
  if startSeq = 0 then .ok (cursor c id 0 "")
  else do
    let found ← ask fails .anchor ((log.events.get? startSeq).filter fun row =>
      decide (row.json.utf8ByteSize < eventStreamFrameBytes))
    match found with
    | none => .error (.unavailable "event cursor anchor was pruned or exceeds the replay bound")
    | some row =>
      let _ ← decode c row
      pure (cursor c id startSeq row.json)

/-- The rows as frames, each one number after the one before. -/
def frames (id : String) :
    List EventRow → EventCursor → Nat → Except ReplayError (EventCursor × List (Frame E))
  | [], head, _ => pure (head, [])
  | row :: rest, head, bytes => do
      let event ← decode c row
      require (decide (c.seq event = head.seq + 1))
        (.unavailable "event history is not contiguous")
      let head := cursor c id (c.seq event) row.json
      let bytes := bytes + (c.frameBytes head event + 1)
      require (decide (bytes ≤ eventStreamFrameBytes))
        (.unavailable "event replay exceeds the response byte bound")
      let (last, more) ← frames id rest head bytes
      pure (last, ⟨head, event⟩ :: more)

def eventReplay (log : EventLog) (after : Option EventCursor) :
    Except ReplayError (EventReplay E) := do
  let found ← ask fails .logId log.logId
  let some id := found | .error (.storage "no event log identity")
  require (cursor c id 0 "").isValid (.storage "invalid durable event log identity")
  let headSeq ← ask fails .head log.maxEventSeq
  let startSeq := (after.map EventCursor.seq).getD headSeq
  require (after.all fun a => a.isValid && decide (a.log = id) && decide (a.seq ≤ headSeq))
    (.unavailable
      "event cursor is invalid, belongs to another database, or is ahead of durable history")
  let start ← anchor c fails log id startSeq
  require (after.all fun a => decide (a = start))
    (.unavailable "event cursor anchor differs from retained history")
  let (count, bytes) ← ask fails .count (log.measure startSeq headSeq)
  require (decide (count = headSeq - startSeq) && decide (count ≤ eventReplayLimit) &&
      decide (bytes < eventStreamFrameBytes))
    (.unavailable "event history has a gap or exceeds the bounded replay window")
  let rows ← ask fails .page (log.page startSeq headSeq)
  let (head, frames) ← frames c id rows start 0
  pure ⟨start, head, frames⟩

end EventLog

end AgentDocker.Store
