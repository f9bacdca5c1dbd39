import AgentDocker.Host.Reader

/-!
# Sessions

A session goes on from the last committed cursor on a snapshot of the file. It first
hashes what the cursor covers again, in as many passes as that takes: everything, or
only the last record where the snapshot is the generation the cursor was proven
under. Ready, it scans; a batch is committed with its cursor before the next scan, and
the next session goes on from there.

A step is one call, or what a writer does between calls. The error of a pass ends its
session; that of a scan leaves it as it was.
-/

namespace AgentDocker.Host

open Lib

variable {Json Codex Meta Sample Digest : Type}

structure Session (Codex Meta Digest : Type) where
  cursor : Cursor Codex Digest
  checked : Nat
  prefixDigest : Digest
  line : List UInt8
  ready : Bool
  /-- The cursor's parser skipped what is counted since: everything is parsed again. -/
  replayParser : Bool
  /-- The cursor's parser lacks the parent thread, which the first record names. -/
  recoverMeta : Bool
  recovered : Option Meta
  /-- The proof started at byte zero. -/
  whole : Bool
  lastRecord : Option (Anchor Digest)

namespace Session

/-- The anchor a session may start its proof at. -/
def anchorOf (previous captured : Cursor Codex Digest) (unchanged : Bool) :
    Option (Anchor Digest) :=
  if unchanged = true ∧ ¬ (3 ≤ previous.version ∧ previous.version ≤ 6) ∧ previous.version ≠ 7 ∧
      previous.generation = captured.generation then
    previous.lastRecord.filter fun last => decide (last.offset < previous.offset)
  else none

section

variable (h : Digests Digest) (captured : Cursor Codex Digest)
    (previous : Option (Cursor Codex Digest))

def start (unchanged : Bool) : Except ReadError (Session Codex Meta Digest) :=
  match previous with
  | none =>
    .ok { cursor := captured, checked := 0, prefixDigest := h.zero, line := [], ready := false,
          replayParser := false, recoverMeta := false, recovered := none, whole := true,
          lastRecord := none }
  | some previous =>
    let replayParser := decide (3 ≤ previous.version ∧ previous.version ≤ 6)
    let recoverMeta := decide (previous.version = 7)
    if (previous.version ≠ cursorVersion ∧ replayParser = false ∧ recoverMeta = false) ∨
        previous.runtime ≠ captured.runtime ∨ previous.offset > previous.generation.length then
      .error .cursor
    else if previous.generation.identity ≠ captured.generation.identity ∨
        captured.generation.length < previous.generation.length then
      .error .changed
    else
      let anchor := anchorOf previous captured unchanged
      let cursor :=
        if previous.generation ≠ captured.generation then
          { previous with quarantinedAtBudget := none, generation := captured.generation }
        else previous
      .ok { cursor, checked := (anchor.map (·.offset)).getD 0,
            prefixDigest := (anchor.map (·.prefixDigest)).getD h.zero, line := [], ready := false,
            replayParser, recoverMeta, recovered := none, whole := anchor.isNone,
            lastRecord := none }

/-- The proof rehashes every accepted byte. -/
def atSnapshot : Except ReadError (Session Codex Meta Digest) :=
  start h captured previous false

/-- In the generation the cursor was proven under, only its last record. -/
def atUnchangedSnapshot : Except ReadError (Session Codex Meta Digest) :=
  start h captured previous true

end

/-- A piece of a record is hashed with the record it finishes. -/
def hash (f : Formats Json Codex Meta Sample) (h : Digests Digest)
    (s : Session Codex Meta Digest) (piece : List UInt8) : Session Codex Meta Digest :=
  let line := s.line ++ piece
  let checked := s.checked + piece.length
  if line.getLast? = some newline then
    let offset := checked - line.length
    { s with
      checked
      recovered :=
        if s.recoverMeta = true ∧ offset = 0 ∧ s.cursor.runtime = .codex ∧
            line.length ≤ maxRecord then
          (f.decode line).bind f.sessionMeta
        else s.recovered
      lastRecord := some ⟨offset, s.prefixDigest⟩
      prefixDigest := h.recordDigest s.prefixDigest line
      line := [] }
  else { s with checked, line }

/-- The loop of a pass. -/
def prove (f : Formats Json Codex Meta Sample) (h : Digests Digest) :
    List Nat → Session Codex Meta Digest → List UInt8 → Except ReadError (Session Codex Meta Digest)
  | [], s, _ => .ok s
  | buffered :: turns, s, rest =>
    if s.checked < s.cursor.offset then
      let piece := readUntil newline (rest.take (buffered + 1))
      if piece.isEmpty then .ok s
      else if s.line.length + piece.length > maxBatch then .error .validationIncomplete
      else prove f h turns (s.hash f h piece) (rest.drop piece.length)
    else .ok s

section

variable (f : Formats Json Codex Meta Sample) (h : Digests Digest) (s : Session Codex Meta Digest)

/-- What a proof that came to its end changes: an older cursor takes the parent thread
from the first record, or is parsed again from the start. -/
def proven : Session Codex Meta Digest :=
  let s := { s with cursor.lastRecord := s.lastRecord }
  let s :=
    if s.recoverMeta then
      { s with
        cursor.codex := match s.recovered with
          | some found => f.recoverParent s.cursor.codex found
          | none => s.cursor.codex
        cursor.version := cursorVersion
        recovered := none
        recoverMeta := false }
    else s
  if s.replayParser then
    { s with
      cursor := { s.cursor with
        version := cursorVersion, offset := 0, prefixDigest := h.zero, codex := f.start,
        quarantinedAtBudget := none, lastRecord := none }
      checked := 0
      prefixDigest := h.zero
      replayParser := false }
  else s

/-- The proof is at its end where everything is hashed, and then has to have come out
as the cursor says. -/
def conclude [DecidableEq Digest] : Except ReadError (Session Codex Meta Digest) :=
  if s.checked = s.cursor.offset then
    if s.line ≠ [] ∨ s.prefixDigest ≠ s.cursor.prefixDigest then .error .changed
    else .ok ({ s with ready := true }.proven f h)
  else .ok { s with ready := false }

/-- One pass of the proof, of at most `bytes` bytes. -/
def prepareNext [DecidableEq Digest] (opened last : Disk) (bytes elapsed : Nat) (turns : List Nat) :
    Except ReadError (Session Codex Meta Digest) := do
  refuse (bytes = 0 ∨ bytes > maxBatch ∨ elapsed = 0) .budget
  s.cursor.generation.checkWithin opened.generation
  let allowance := min bytes (s.cursor.offset - s.checked)
  let s ← s.prove f h turns ((opened.bytes.drop s.checked).take allowance)
  s.cursor.generation.checkWithin last.generation
  s.conclude f h

/-- Parse and check the new suffix, once the prefix is verified. -/
def scan [DecidableEq Digest] (opened last : Disk) (budget : Budget) (pace : Pace) :
    Except ReadError (Batch Codex Sample Digest × Session Codex Meta Digest) := do
  refuse (s.ready = false) .validationIncomplete
  let batch ← scanChecked f h opened last s.cursor.runtime (some s.cursor) budget true pace
  return (batch, { s with
    cursor := batch.cursor, checked := batch.cursor.offset,
    prefixDigest := batch.cursor.prefixDigest })

end

/-- The last look at a proposal before it is committed. -/
def validate [DecidableEq Codex] [DecidableEq Digest] (s : Session Codex Meta Digest)
    (last : Disk) (cursor : Cursor Codex Digest) : Except ReadError Unit :=
  if s.ready = false ∨ cursor ≠ s.cursor then .error .cursor
  else cursor.generation.checkWithin last.generation

end Session

/-! ## One transcript -/

structure Reading (Codex Meta Sample Digest : Type) where
  disk : Disk
  /-- The snapshot the next session starts from. -/
  captured : Option (Cursor Codex Digest)
  session : Option (Session Codex Meta Digest)
  proposal : Option (Batch Codex Sample Digest)
  committed : Option (Cursor Codex Digest)
  /-- What was committed with the cursors. -/
  samples : List Sample
  gaps : List Gap
  /-- The records the committed cursor was made from. No step reads them. -/
  made : List (List UInt8)

/-- What a writer does during a call. -/
structure Growth where
  bytes : List UInt8 := []
  stamp : Option Nat := none
deriving DecidableEq, Repr

def Disk.grow (d : Disk) (g : Growth) : Disk := d.append g.bytes (g.stamp.getD d.stamp)

namespace Reading

def initial (disk : Disk) : Reading Codex Meta Sample Digest :=
  ⟨disk, none, none, none, none, [], [], []⟩

inductive Op where
  | append (grown : Growth)
  /-- Another file in its place, or other bytes in it, while no session reads it. -/
  | rewrite (disk : Disk)
  | capture (grown : Growth)
  | openSession (unchanged : Bool)
  | prepareNext (bytes elapsed : Nat) (turns : List Nat) (grown : Growth)
  | scan (budget : Budget) (pace : Pace) (grown : Growth)
  /-- A batch, its cursor, its samples and its gaps are written together, or nothing is. -/
  | commit (lands : Bool)

variable [DecidableEq Codex] [DecidableEq Digest]

def step (f : Formats Json Codex Meta Sample) (h : Digests Digest) (runtime : Runtime)
    (s : Reading Codex Meta Sample Digest) : Op → Reading Codex Meta Sample Digest
  | .append grown => { s with disk := s.disk.grow grown }
  | .rewrite disk => { s with disk, session := none, proposal := none }
  | .capture grown =>
    let disk := s.disk.grow grown
    match Cursor.capture f h runtime s.disk disk with
    | .ok captured => { s with disk, captured := some captured }
    | .error _ => { s with disk }
  | .openSession unchanged =>
    match s.captured with
    | none => s
    | some captured =>
      let opened :=
        if unchanged then Session.atUnchangedSnapshot h captured s.committed
        else Session.atSnapshot h captured s.committed
      match opened with
      | .ok session => { s with session := some session, proposal := none }
      | .error _ => { s with session := none, proposal := none }
  | .prepareNext bytes elapsed turns grown =>
    let disk := s.disk.grow grown
    match s.session, s.proposal with
    | some session, none =>
      match session.prepareNext f h s.disk disk bytes elapsed turns with
      | .ok session => { s with disk, session := some session }
      | .error _ => { s with disk, session := none }
    | _, _ => { s with disk }
  | .scan budget pace grown =>
    let disk := s.disk.grow grown
    match s.session, s.proposal with
    | some session, none =>
      match session.scan f h s.disk disk budget pace with
      | .ok (batch, session) => { s with disk, session := some session, proposal := some batch }
      | .error _ => { s with disk }
    | _, _ => { s with disk }
  | .commit lands =>
    match s.session, s.proposal with
    | some session, some batch =>
      if (session.validate s.disk batch.cursor).isOk = true ∧ lands = true then
        { s with
          proposal := none
          committed := some batch.cursor
          samples := s.samples ++ batch.samples
          gaps := s.gaps ++ batch.gaps
          made := s.made ++ batch.lines }
      else { s with session := none, proposal := none }
    | _, _ => s

end Reading

end AgentDocker.Host
