import AgentDocker.Lib.Records

/-!
# Reading a transcript in batches

A transcript is a file of records, one a line, that its writer appends to. A scan
reads complete records from where a cursor stands, within bounds of bytes, records
and time, and proposes the cursor to go on from. A cursor keeps the generation of
the file it belongs to and the chained digest of every record before it.

What the formats mean and the digest are parameters. What the clock and the buffer
of a read do comes with the call: `late` says at which turns of a loop the deadline
has passed, and a list of numbers says how many bytes more than one each turn finds
in the buffer, the deadline passing when the list ends. A writer may append while a
call runs, so a call is given the file it opens and the file it checks last.
-/

namespace AgentDocker.Host

open Lib

def newline : UInt8 := 10

def maxBatch : Nat := 16 * 1024 * 1024

def cursorVersion : Nat := 8

def maxRecord : Nat := 1024 * 1024

def maxRecords : Nat := 4096

inductive Runtime where
  | codex
  | claude
deriving DecidableEq, Repr

structure Budget where
  bytes : Nat
  recordBytes : Nat
  /-- Complete records, ignored ones and gaps included. -/
  records : Nat
  elapsed : Nat
deriving DecidableEq, Repr

def Budget.valid (b : Budget) : Bool :=
  !(decide (b.recordBytes = 0) || decide (b.recordBytes > maxRecord) ||
    decide (b.bytes ≤ b.recordBytes + 1) || decide (b.bytes > maxBatch) ||
    decide (b.records = 0) || decide (b.records > maxRecords) || decide (b.elapsed = 0))

/-- Why a read fails. -/
inductive ReadError where
  | io
  | changed
  | snapshotAdvanced
  | budget
  | validationIncomplete
  | cursor
  | oversized (offset : Nat)
deriving DecidableEq, Repr

def refuse (p : Prop) [Decidable p] (e : ReadError) : Except ReadError Unit :=
  if p then .error e else .ok ()

/-! ## The file -/

structure Generation where
  /-- The file's change metadata. -/
  stamp : Nat
  length : Nat
  identity : Nat
deriving DecidableEq, Repr

structure Disk where
  bytes : List UInt8
  stamp : Nat
  identity : Nat
deriving DecidableEq, Repr

namespace Disk

/-- What a writer appends, and the change metadata the file has then. -/
def append (d : Disk) (bytes : List UInt8) (stamp : Nat) : Disk :=
  { d with bytes := d.bytes ++ bytes, stamp }

def generation (d : Disk) : Generation := ⟨d.stamp, d.bytes.length, d.identity⟩

end Disk

namespace Generation

variable (g observed : Generation)

/-- A standalone read refuses any change, and tells growth apart. -/
def check : Except ReadError Unit :=
  if g = observed then .ok ()
  else if g.identity = observed.identity ∧ observed.length > g.length then
    .error .snapshotAdvanced
  else .error .changed

/-- A session reads within its snapshot: the same file, no shorter. -/
def checkWithin : Except ReadError Unit :=
  match g.check observed with
  | .error .snapshotAdvanced => .ok ()
  | result => result

def admits (within : Bool) : Except ReadError Unit :=
  if within then g.checkWithin observed else g.check observed

end Generation

/-! ## The formats -/

/-- What decides whether a record too large to parse may be passed over. -/
structure Envelope where
  kind : String
  /-- The payload's own kind, where there is a payload and it has one. -/
  payload : Option (Option String)

/-- The parsers of a record's text: `Json` is a decoded record, `Codex` what the Codex
parser carries from one record to the next. -/
structure Formats (Json Codex Meta Sample : Type) where
  decode : List UInt8 → Option Json
  envelope : List UInt8 → Option Envelope
  start : Codex
  feed : Codex → Json → Bool → Except String (Option Sample) × Codex
  claude : Json → Except String (Option Sample)
  sessionMeta : Json → Option Meta
  recoverParent : Codex → Meta → Codex

/-- The digest of a record, chained to those before it. -/
structure Digests (Digest : Type) where
  zero : Digest
  recordDigest : Digest → List UInt8 → Digest

variable {Json Codex Meta Sample Digest : Type}

variable (f : Formats Json Codex Meta Sample) (h : Digests Digest)

/-- Large prompt and tool bodies carry nothing that is counted. -/
def contextNeutralRecord (line : List UInt8) (runtime : Runtime) : Bool :=
  match f.envelope line with
  | none => false
  | some record =>
    match runtime with
    | .codex =>
      decide (record.kind ∈ ["response_item", "compacted"]) ||
        (decide (record.kind = "event_msg") &&
          decide (record.payload.bind id = some "item_completed"))
    | .claude =>
      decide (record.kind ∈ ["user", "progress", "system", "summary", "file-history-snapshot"])

/-- One complete record: what is counted of it, or why nothing is, and what the parser
carries on. -/
def parseRecord (runtime : Runtime) (recordBytes : Nat) (codex : Codex) (offset : Nat)
    (line : List UInt8) : Except String (Option Sample) × Codex :=
  if line.length > recordBytes then
    if contextNeutralRecord f line runtime then (.ok none, codex)
    else (.error "record exceeds the configured size limit", codex)
  else
    match f.decode line with
    | none => (.error "invalid JSON record", codex)
    | some record =>
      match runtime with
      | .codex => f.feed codex record (decide (offset = 0))
      | .claude => (f.claude record, codex)

/-- A complete record that nothing could be counted of. -/
structure Gap where
  offset : Nat
  bytes : Nat
  reason : String
deriving DecidableEq, Repr

/-! ## Cursors -/

/-- A record boundary, with the digest of every record before it. -/
structure Anchor (Digest : Type) where
  offset : Nat
  prefixDigest : Digest
deriving DecidableEq

structure Cursor (Codex Digest : Type) where
  version : Nat
  runtime : Runtime
  generation : Generation
  /-- After a complete record. -/
  offset : Nat
  prefixDigest : Digest
  codex : Codex
  /-- The byte budget that could not finish the record at `offset`. -/
  quarantinedAtBudget : Option Nat
  /-- Where the last record before `offset` starts. -/
  lastRecord : Option (Anchor Digest)
deriving DecidableEq

namespace Cursor

/-- At the start of a generation of the file. -/
def fresh (runtime : Runtime) (generation : Generation) : Cursor Codex Digest :=
  { version := cursorVersion, runtime, generation, offset := 0, prefixDigest := h.zero,
    codex := f.start, quarantinedAtBudget := none, lastRecord := none }

/-- The file's length and identity, nothing parsed: growth between the two looks is no
change of what was seen. -/
def capture (runtime : Runtime) (first again : Disk) : Except ReadError (Cursor Codex Digest) :=
  match first.generation.check again.generation with
  | .ok () => .ok (fresh f h runtime first.generation)
  | .error .snapshotAdvanced => .ok (fresh f h runtime first.generation)
  | .error e => .error e

/-- The loop that hashes records again: the digest of those complete and the part read
of the next. -/
def rehash (h : Digests Digest) (offset : Nat) :
    List Nat → Nat → Digest → List UInt8 → List UInt8 → Except ReadError (Digest × List UInt8)
  | turns, covered, digest, line, rest =>
    if covered < offset then
      match turns with
      | [] => .error .validationIncomplete
      | buffered :: turns =>
        let piece := readUntil newline (rest.take (buffered + 1))
        if piece.isEmpty then .error .changed
        else
          let line := line ++ piece
          let rest := rest.drop piece.length
          if line.getLast? = some newline then
            rehash h offset turns (covered + piece.length) (h.recordDigest digest line) [] rest
          else rehash h offset turns (covered + piece.length) digest line rest
    else .ok (digest, line)

/-- Whether the records from `start` to the cursor still give its digest. -/
def validateSuffix [DecidableEq Digest] (h : Digests Digest) (c : Cursor Codex Digest)
    (opened last : Disk) (start : Nat) (digest : Digest) (turns : List Nat) (late within : Bool) :
    Except ReadError Unit := do
  refuse (c.version ≠ cursorVersion ∨ c.offset > c.generation.length ∨ start > c.offset) .cursor
  c.generation.admits opened.generation within
  refuse (c.offset - start > maxBatch) .validationIncomplete
  let (digest, line) ← rehash h c.offset turns start digest []
    ((opened.bytes.drop start).take (c.offset - start))
  refuse (line ≠ [] ∨ digest ≠ c.prefixDigest) .changed
  refuse (late = true) .validationIncomplete
  c.generation.admits last.generation within

end Cursor

/-! ## Scans -/

/-- Why reading stopped. -/
inductive Stop where
  | complete
  | budget
  | pendingTail
  /-- A record too large for the budget was not finished. -/
  | quarantined
deriving DecidableEq, Repr

/-- What a scan has taken in. -/
structure Taken (Codex Sample Digest : Type) where
  cursor : Cursor Codex Digest
  samples : List Sample := []
  gaps : List Gap := []
  /-- The records themselves: no proposal keeps them, and nothing the reader does
  depends on them. -/
  lines : List (List UInt8) := []

structure Batch (Codex Sample Digest : Type) extends Taken Codex Sample Digest where
  stop : Stop

namespace Taken

/-- One complete record more. -/
def take (recordBytes : Nat) (b : Taken Codex Sample Digest) (line : List UInt8) :
    Taken Codex Sample Digest :=
  let c := b.cursor
  let parsed := parseRecord f c.runtime recordBytes c.codex c.offset line
  { cursor := { c with
      -- a record that could not be read may have carried the context of the next ones
      codex := match parsed.1 with
        | .ok _ => parsed.2
        | .error _ => f.start
      lastRecord := some ⟨c.offset, c.prefixDigest⟩
      prefixDigest := h.recordDigest c.prefixDigest line
      offset := c.offset + line.length }
    samples := match parsed.1 with
      | .ok (some sample) => b.samples ++ [sample]
      | _ => b.samples
    gaps := match parsed.1 with
      | .ok _ => b.gaps
      | .error reason => b.gaps ++ [⟨c.offset, line.length, reason⟩]
    lines := b.lines ++ [line] }

/-- A line of at most the record limit, and of a longer one all that the pass has. -/
def readLine (recordBytes : Nat) (rest : List UInt8) : List UInt8 :=
  let line := readUntil newline (rest.take (recordBytes + 1))
  if line.length > recordBytes ∧ line.getLast? ≠ some newline then
    line ++ readUntil newline (rest.drop line.length)
  else line

/-- The loop of a scan that began at `starting`, within a snapshot of `length` bytes. The
first argument is how many records the budget has left. -/
def loop (f : Formats Json Codex Meta Sample) (h : Digests Digest) (budget : Budget)
    (late : Nat → Bool) (starting length : Nat) :
    Nat → Taken Codex Sample Digest → List UInt8 → Taken Codex Sample Digest × Stop
  | left, b, rest =>
    if b.cursor.offset = length then (b, .complete)
    else
      match left with
      | 0 => (b, .budget)
      | left + 1 =>
        if late left then (b, .budget)
        else
          let line := readLine budget.recordBytes rest
          if line.getLast? = some newline then
            loop f h budget late starting length left (b.take f h budget.recordBytes line)
              (rest.drop line.length)
          else if line.length > budget.recordBytes then
            -- a record is tried once with the whole budget
            if b.cursor.offset > starting then (b, .budget)
            else
              ({ b with cursor.quarantinedAtBudget := some budget.bytes }, .quarantined)
          else if b.cursor.offset + line.length = length then (b, .pendingTail)
          else (b, .budget)

end Taken

/-- What the clock and the buffers do during a scan. -/
structure Pace where
  late : Nat → Bool := fun _ => false
  /-- The whole prefix, where a standalone scan hashes it first. -/
  before : List Nat := []
  /-- The check of the proposal. -/
  after : List Nat := []
  beforeLate : Bool := false
  afterLate : Bool := false

/-- The prefix before a scan: a session has verified it, a standalone scan does now. -/
def verifyPrior [DecidableEq Digest] (h : Digests Digest) (opened : Disk)
    (prior : Cursor Codex Digest) (prepared : Bool) (pace : Pace) : Except ReadError Unit :=
  if prepared then .ok ()
  else prior.validateSuffix h opened opened 0 h.zero pace.before pace.beforeLate false

/-- The cursor a scan reads on from. -/
def scanFrom [DecidableEq Digest] (f : Formats Json Codex Meta Sample) (h : Digests Digest)
    (opened : Disk) (runtime : Runtime) (previous : Option (Cursor Codex Digest)) (budget : Budget)
    (prepared : Bool) (pace : Pace) : Except ReadError (Cursor Codex Digest) :=
  match previous with
  | none => .ok (.fresh f h runtime opened.generation)
  | some prior => do
      refuse (prior.version ≠ cursorVersion ∨ prior.runtime ≠ runtime ∨
        prior.offset > prior.generation.length) .cursor
      prior.generation.admits opened.generation prepared
      verifyPrior h opened prior prepared pace
      refuse (prior.quarantinedAtBudget.any (fun bytes => decide (budget.bytes ≤ bytes)) = true)
        (.oversized prior.offset)
      return { prior with quarantinedAtBudget := none }

/-- A restored boundary is after a complete record. -/
def checkBoundary (opened : Disk) (offset : Nat) : Except ReadError Unit :=
  if offset = 0 then .ok ()
  else
    match opened.bytes[offset - 1]? with
    | none => .error .io
    | some byte => if byte = newline then .ok () else .error .cursor

/-- The records after a cursor, as far as the budget and the snapshot reach. -/
def readOn (opened : Disk) (cursor : Cursor Codex Digest) (budget : Budget) (late : Nat → Bool) :
    Taken Codex Sample Digest × Stop :=
  let boundary := if cursor.offset > 0 then 1 else 0
  let allowance := min (budget.bytes - boundary) (cursor.generation.length - cursor.offset)
  Taken.loop f h budget late cursor.offset cursor.generation.length budget.records { cursor }
    ((opened.bytes.drop cursor.offset).take allowance)

/-- The proposal is read once more: a session's from where it began, a standalone one whole. -/
def recheck [DecidableEq Digest] (h : Digests Digest) (last : Disk)
    (previous : Option (Cursor Codex Digest)) (proposed : Cursor Codex Digest) (prepared : Bool)
    (pace : Pace) : Except ReadError Unit :=
  if prepared then
    match previous with
    | none => .error .cursor
    | some prior =>
      proposed.validateSuffix h last last prior.offset prior.prefixDigest pace.after
        pace.afterLate true
  else proposed.validateSuffix h last last 0 h.zero pace.after pace.afterLate false

variable (f : Formats Json Codex Meta Sample) (h : Digests Digest) (opened last : Disk)
    (runtime : Runtime) (previous : Option (Cursor Codex Digest))

/-- Read on from a cursor. `prepared` is a session's call: it has verified the prefix,
and reads within a snapshot the file may have outgrown. -/
def scanChecked [DecidableEq Digest] (budget : Budget) (prepared : Bool) (pace : Pace) :
    Except ReadError (Batch Codex Sample Digest) := do
  refuse (budget.valid = false) .budget
  let cursor ← scanFrom f h opened runtime previous budget prepared pace
  checkBoundary opened cursor.offset
  let read := readOn f h opened cursor budget pace.late
  cursor.generation.admits last.generation prepared
  recheck h last previous read.1.cursor prepared pace
  cursor.generation.admits last.generation prepared
  return { read.1 with stop := read.2 }

/-- A standalone scan verifies the whole prefix and refuses any change of the file. -/
def scan [DecidableEq Digest]
    (budget : Budget) (pace : Pace) : Except ReadError (Batch Codex Sample Digest) :=
  scanChecked f h opened last runtime previous budget false pace

end AgentDocker.Host
