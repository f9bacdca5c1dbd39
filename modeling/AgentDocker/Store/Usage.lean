import AgentDocker.Core.Registrations
import AgentDocker.Core.Usage
import AgentDocker.Lib.Maps
import AgentDocker.Lib.StableSort

/-!
# The usage tables

Every accounting record a collector meets becomes a row under its source id, so
that meeting it again adds nothing. A row that was counted keeps its
contribution, which names the hourly bucket it is in; a row can instead stand for
another, when two sources name one response. The operations of the store are the
transactions that ingest, reconcile and prune these tables.

A fingerprint is a hash of the sample it was made from; here it is that sample.
Accounting is bounded: a write that leaves the tables over their capacity is
rolled back. How many bytes the tables take is not modelled. `Room` says of a
write, from what the tables were to what they would be, whether it may stay. A
statement with a limit and no order takes rows the database chooses; `Sweep` is
that choice.
-/

namespace AgentDocker.Store

open AgentDocker.Core Lib

/-! ## Rows -/

/-- Whose a sample is, with the card and the roles its agent held. -/
structure Attribution where
  agent : Option String := none
  project : Option String := none
  card : Option String := none
  role : Option String := none
deriving DecidableEq, Repr

structure Bucket where
  attribution : Attribution
  runtime : String
  provider : Option String
  model : Option String
  hour : Time
deriving DecidableEq, Repr

structure Contribution where
  bucket : Bucket
  session : String
  counters : Counters
  /-- Whether it is the provider's own count for one response rather than a
  difference between running totals. -/
  exact : Option Bool
  /-- The thread that spawned the sample's session, kept while that session has
  no record of its own. -/
  parent : Option String
  costUsdMicros : Option Nat
deriving DecidableEq, Repr

inductive Semantics where
  | cumulative
  | response
deriving DecidableEq, Repr

structure Sample where
  sourceId : String
  runtime : String
  format : String
  sessionId : String
  time : Time
  provider : Option String
  model : Option String
  counters : Counters
  semantics : Semantics
  provesZeroBaseline : Bool
  parentSession : Option String
  costUsdMicros : Option Nat
  /-- Other source ids the same response is known by. -/
  aliases : List String
deriving DecidableEq, Repr

inductive Fingerprint where
  /-- The row is another's name for the same response. -/
  | standsFor (target : String)
  | hash (accounting : Sample)
deriving DecidableEq, Repr

structure SampleRow where
  sourceId : String
  fingerprint : Fingerprint
  time : Time
  contribution : Option Contribution
deriving DecidableEq, Repr

/-- Which of a session's two accounts of its tokens is counted. -/
inductive Account where
  | responses
  | totals
deriving DecidableEq, Repr

def Semantics.account : Semantics → Account
  | .response => .responses
  | .cumulative => .totals

structure GapRow where
  key : String
  since : Option Time
  upTo : Time
  session : Option (String × String)
  reason : String
deriving DecidableEq, Repr

structure Usage where
  samples : Keyed SampleRow.sourceId
  buckets : Map Bucket Aggregate
  /-- The last running totals of a session, by runtime and session. -/
  baselines : Map (String × String) Baseline
  accounts : Map (String × String) Account
  gaps : Keyed GapRow.key
  /-- The committed boundary: history before it has been let go. -/
  retainedSince : Option Time

/-- What ingesting samples did, for the events that say so. -/
structure Ingested where
  accepted : Nat := 0
  gaps : Nat := 0
  priced : Nat := 0
  folded : Nat := 0
deriving DecidableEq, Repr

def Ingested.add (a b : Ingested) : Ingested :=
  ⟨a.accepted + b.accepted, a.gaps + b.gaps, a.priced + b.priced, a.folded + b.folded⟩

abbrev Room := Usage → Usage → Bool

/-- The old rows a pruning takes this time. -/
structure Sweep where
  buckets : Bucket → Bool
  samples : String → Bool
  gaps : String → Bool

namespace Usage

def empty : Usage := ⟨.empty, .empty, .empty, .empty, .empty, none⟩

/-! ## Bounded writes and gaps -/

/-- A write that is rolled back when it leaves the tables over capacity. -/
def boundedWrite {α : Type} (room : Room) (s : Usage) (write : Usage → α × Usage) :
    Option α × Usage :=
  if room s (write s).2 then (some (write s).1, (write s).2) else (none, s)

def trackingGapKey : String := "tracking-capacity"

def later (a : Time) (b : Time) : Time := if a ≤ b then b else a

variable (room : Room) (s : Usage)

/-- The one marker that says accounting was refused for want of room. -/
def usageTrackingGap (upTo : Time) : Nat × Usage :=
  match s.gaps.get? trackingGapKey with
  | some row => (0, { s with gaps := s.gaps.insert { row with upTo := later row.upTo upTo } })
  | none =>
    (1, { s with
      gaps := s.gaps.insert ⟨trackingGapKey, none, upTo, none,
        "usage tracking capacity reached; untracked records were not counted"⟩ })

def insertGap (row : GapRow) (s : Usage) : Nat × Usage :=
  if (s.gaps.get? row.key).isSome then (0, s) else (1, { s with gaps := s.gaps.insert row })

def usageGap (row : GapRow) : Nat × Usage :=
  match s.boundedWrite room (insertGap row) with
  | (some count, s) => (count, s)
  | (none, s) => s.usageTrackingGap row.upTo

/-! ## Buckets and rows -/

def usageBucket (bucket : Bucket) : Aggregate :=
  (s.buckets.get bucket).getD .empty

/-- An aggregate of nothing is no row. -/
def writeUsageBucket (bucket : Bucket) (value : Aggregate) : Usage :=
  if value.samples = 0 then { s with buckets := s.buckets.remove bucket }
  else { s with buckets := s.buckets.set bucket value }

/-- The row under an id rewritten. -/
def rewrite (id : String) (fingerprint : Fingerprint → Fingerprint)
    (contribution : Option Contribution) (row : SampleRow) : SampleRow :=
  if row.sourceId = id then
    { row with fingerprint := fingerprint row.fingerprint, contribution }
  else row

theorem rewrite_sourceId (id : String) (fingerprint : Fingerprint → Fingerprint)
    (contribution : Option Contribution) (row : SampleRow) :
    (rewrite id fingerprint contribution row).sourceId = row.sourceId := by
  unfold rewrite
  split <;> rfl

def setContribution (id : String) (contribution : Option Contribution) : Usage :=
  { s with
    samples := s.samples.update (rewrite id (fun f => f) contribution)
      (rewrite_sourceId id _ contribution) }

/-- The row under `id` becomes another's name. -/
def setAlias (id target : String) : Usage :=
  { s with
    samples := s.samples.update (rewrite id (fun _ => .standsFor target) none)
      (rewrite_sourceId id _ none) }

def insertRow (row : SampleRow) : Usage :=
  { s with samples := s.samples.insert row }

/-! ## Names of one response -/

/-- The row that holds the accounting for `id`, followed a few steps. -/
def resolveWithin (s : Usage) : Nat → String → Option (String × Option Contribution)
  | 0, _ => none
  | n + 1, id =>
    match s.samples.get? id with
    | none => none
    | some row =>
      match row.fingerprint with
      | .standsFor target => s.resolveWithin n target
      | .hash _ => some (id, row.contribution)

def usageResolve (id : String) : Option (String × Option Contribution) :=
  s.resolveWithin 4 id

/-- A response already counted under another of its names. -/
def usageAliased (ids : List String) : Option (String × Option Contribution) :=
  ids.findSome? s.usageResolve

/-- A price learnt for a response counted without one. -/
def usagePrice (id : String) (contribution : Option Contribution) (cost : Nat) : Bool × Usage :=
  match contribution with
  | none => (false, s)
  | some c =>
    if c.costUsdMicros.isSome then (false, s)
    else
      match (s.usageBucket c.bucket).price cost with
      | .error _ => (false, s)
      | .ok priced =>
        (true, (s.writeUsageBucket c.bucket priced).setContribution id
          (some { c with costUsdMicros := some cost }))

/-- The price of a folded row joins the one that is kept. -/
def passPrice (keep : String) (cost : Option Nat) : Usage :=
  match cost with
  | none => s
  | some cost =>
    match s.usageResolve keep with
    | none => s
    | some (keep, kept) => (s.usagePrice keep kept cost).2

/-- One response counted twice: `duplicate`'s contribution leaves its bucket and
`duplicate` becomes `keep`'s name. A bucket that cannot give the contribution
back leaves both as they were. -/
def usageFold (duplicate : String) (contribution : Option Contribution) (keep : String) :
    Bool × Usage :=
  match contribution with
  | none => (true, s.setAlias duplicate keep)
  | some c =>
    match (s.usageBucket c.bucket).removePriced c.counters c.exact c.costUsdMicros with
    | .error _ => (false, s)
    | .ok remaining =>
      (true, ((s.writeUsageBucket c.bucket remaining).setAlias duplicate keep).passPrice keep
        c.costUsdMicros)

/-- A name a counted response did not carry before. -/
def learnAlias (sourceId : String) (time : Time) (s : Usage) (name : String) : Nat × Usage :=
  match s.samples.get? name with
  | none => (0, s.insertRow ⟨name, .standsFor sourceId, time, none⟩)
  | some row =>
    match row.fingerprint with
    | .standsFor _ => (0, s)
    | .hash _ =>
      ((s.usageFold name row.contribution sourceId).1.toNat,
        (s.usageFold name row.contribution sourceId).2)

def usageLearnAliases (sourceId : String) (aliases : List String) (time : Time) : Nat × Usage :=
  (aliases.filter fun name => decide (name ≠ sourceId)).foldl
    (fun acc name => (acc.1 + (learnAlias sourceId time acc.2 name).1,
      (learnAlias sourceId time acc.2 name).2)) (0, s)

/-! ## One sample -/

variable (sample : Sample)

/-- What a fingerprint is of: the evidence for a sample is not its accounting, nor
is whose it is, nor its other names; nor, for a response, when one of its records
was observed. -/
def accounting : Sample :=
  { sample with
    provesZeroBaseline := false
    parentSession := none
    aliases := []
    time := match sample.semantics with
      | .response => 0
      | .cumulative => sample.time }

/-- What older builds hashed. -/
def legacy (firstAt : Time) (proves : Bool) : Sample :=
  { sample with
    provesZeroBaseline := proves
    parentSession := none
    time := match sample.semantics with
      | .response => firstAt
      | .cumulative => sample.time }

def conflicts (old : Sample) (firstAt : Time) : Bool :=
  decide (old ≠ accounting sample) && decide (old ≠ legacy sample firstAt false) &&
    decide (old ≠ legacy sample firstAt true)

/-- The price a sample brings to the response another row holds. -/
def takePrice (target : String) (contribution : Option Contribution) : Ingested × Usage :=
  match sample.costUsdMicros with
  | none => ({}, s)
  | some cost =>
    ({ priced := (s.usagePrice target contribution cost).1.toNat },
      (s.usagePrice target contribution cost).2)

/-- A sample whose source id has a row. -/
def replayed (row : SampleRow) : Ingested × Usage :=
  match row.fingerprint with
  | .standsFor target =>
    match s.usageResolve target with
    | none => ({}, s)
    | some (target, contribution) => s.takePrice sample target contribution
  | .hash old =>
    let learnt := s.usageLearnAliases sample.sourceId sample.aliases sample.time
    if conflicts sample old row.time then
      let noted := learnt.2.usageGap room ⟨"conflict:" ++ sample.sourceId, none, sample.time,
        some (sample.runtime, sample.sessionId), "source identity has conflicting accounting"⟩
      ({ folded := learnt.1, gaps := noted.1 }, noted.2)
    else
      ({ folded := learnt.1 }, learnt.2)

/-- Which account a session is counted by already; one counted by totals before
accounts were kept has a baseline. -/
def countedBy (session : String × String) : Option Account :=
  (s.accounts.get session).or ((s.baselines.get session).map fun _ => .totals)

def setAccount : Usage :=
  { s with accounts :=
      s.accounts.set (sample.runtime, sample.sessionId) sample.semantics.account }

/-- What a sample counts: its own figure, or what its running totals add. -/
def observed : Option Counters × Nat × Usage :=
  match sample.semantics with
  | .response => (some sample.counters, 0, s)
  | .cumulative =>
    match observeCumulative (s.baselines.get (sample.runtime, sample.sessionId)) sample.time
        sample.counters sample.provesZeroBaseline with
    | .ok none => (none, 0, s)
    | .ok (some seen) =>
      let noted := match seen.gap with
        | none => (0, s)
        | some gap => s.usageGap room ⟨"baseline:" ++ sample.sourceId, gap.since, gap.upTo,
            some (sample.runtime, sample.sessionId), "unknown initial history or counter reset"⟩
      (seen.contribution, noted.1, { noted.2 with
        baselines := noted.2.baselines.set (sample.runtime, sample.sessionId) seen.baseline })
    | .error _ =>
      let noted := s.usageGap room ⟨"order:" ++ sample.sourceId, none, sample.time,
        some (sample.runtime, sample.sessionId),
        "cumulative source is out of order or inconsistent"⟩
      (none, noted.1, noted.2)

def contributionOf (attribution : Attribution) (counters : Counters) : Contribution where
  bucket := ⟨attribution, sample.runtime, sample.provider, sample.model, hour sample.time⟩
  session := sample.sessionId
  counters := counters
  exact := some (decide (sample.semantics = .response))
  parent := sample.parentSession
  costUsdMicros := sample.costUsdMicros

/-- Put a contribution into its bucket, unless the bucket cannot take it. -/
def count (contribution : Option Contribution) : Option Contribution × Nat × Usage :=
  match contribution with
  | none => (none, 0, s)
  | some c =>
    match (s.usageBucket c.bucket).addPriced c.counters c.exact c.costUsdMicros with
    | .ok aggregate => (some c, 0, s.writeUsageBucket c.bucket aggregate)
    | .error _ =>
      let noted := s.usageGap room ⟨"overflow:" ++ sample.sourceId, none, sample.time,
        some (sample.runtime, sample.sessionId), "usage bucket arithmetic exceeds its range"⟩
      (none, noted.1, noted.2)

/-- The other names of a new row, where they are free. -/
def insertAliases (sourceId : String) (aliases : List String) (time : Time) : Usage :=
  aliases.foldl (fun s name =>
    if (s.samples.get? name).isSome then s
    else s.insertRow ⟨name, .standsFor sourceId, time, none⟩) s

/-- A new sample of a session counted by its account. -/
def record (attribution : Attribution) (retainedSince : Time) : Ingested × Usage :=
  let seen := s.observed room sample
  let contribution := (seen.1.filter fun _ => decide (retainedSince ≤ hour sample.time)).map
    (contributionOf sample attribution)
  let counted := seen.2.2.count room sample contribution
  ({ accepted := 1, gaps := seen.2.1 + counted.2.1 },
    (counted.2.2.insertRow
      ⟨sample.sourceId, .hash (accounting sample), sample.time, counted.1⟩).insertAliases
        sample.sourceId sample.aliases sample.time)

def usageIngestSample (attribution : Attribution) (retainedSince : Time) : Ingested × Usage :=
  match s.samples.get? sample.sourceId with
  | some row => s.replayed room sample row
  | none =>
    match s.usageAliased sample.aliases with
    | some (target, contribution) =>
      (s.insertRow ⟨sample.sourceId, .standsFor target, sample.time, none⟩).takePrice sample
        target contribution
    | none =>
      match s.countedBy (sample.runtime, sample.sessionId) with
      | some account =>
        -- one session is counted by one account, the first it is seen by
        if account = sample.semantics.account then
          s.record room sample attribution retainedSince
        else
          ({}, s)
      | none => (s.setAccount sample).record room sample attribution retainedSince

/-! ## Transactions -/

/-- The boundary: history let go stays gone when less is asked for later. -/
def usageRetainedSince (requested : Time) : Time :=
  match s.retainedSince with
  | none => requested
  | some committed => later committed requested

def prunedRow (since : Time) (sweep : Sweep) (row : SampleRow) : SampleRow :=
  if row.time < since && sweep.samples row.sourceId then { row with contribution := none } else row

theorem prunedRow_sourceId (since : Time) (sweep : Sweep) (row : SampleRow) :
    (prunedRow since sweep row).sourceId = row.sourceId := by
  unfold prunedRow
  split <;> rfl

/-- Rows outlive the contributions let go: old logs cannot bring them back. -/
def pruneUsage (requested : Time) (sweep : Sweep) : Usage :=
  let since := s.usageRetainedSince requested
  { s with
    retainedSince := some since
    buckets := s.buckets.retain fun bucket _ => !(bucket.hour < since && sweep.buckets bucket)
    samples := s.samples.update (prunedRow since sweep) (prunedRow_sourceId since sweep)
    gaps := s.gaps.filter fun row => !(row.upTo < since && sweep.gaps row.key) }

inductive Event where
  | usageRecorded (samples gaps : Nat)
  | usageJoined (priced folded : Nat)
  | usageReconciled (agent : String) (samples : Nat)
deriving DecidableEq, Repr

def usageEvents (recorded : Bool) (done : Ingested) : List Event :=
  (if recorded then [.usageRecorded done.accepted done.gaps] else []) ++
    if 0 < done.priced ∨ 0 < done.folded then [.usageJoined done.priced done.folded] else []

/-- One sample of a batch, its refusal for want of room kept as a gap. -/
def ingestOne (retainedSince now : Time) (acc : Ingested × Usage) (one : Sample × Attribution) :
    Ingested × Usage :=
  match acc.2.boundedWrite room
      fun s => s.usageIngestSample room one.1 one.2 retainedSince with
  | (some done, s) => (acc.1.add done, s)
  | (none, s) =>
    let noted := s.usageTrackingGap (later now one.1.time)
    (acc.1.add { gaps := noted.1 }, noted.2)

/-- The samples of a batch in the order they were made. -/
def ingestAll (retainedSince now : Time) (s : Usage) (samples : List (Sample × Attribution)) :
    Ingested × Usage :=
  (sortBy (fun one => one.1.time) samples).foldl (ingestOne room retainedSince now) ({}, s)

def noteGaps (acc : Ingested × Usage) (gaps : List GapRow) : Ingested × Usage :=
  gaps.foldl (fun acc row =>
    (acc.1.add { gaps := (acc.2.usageGap room row).1 }, (acc.2.usageGap room row).2)) acc

/-- A collected batch. -/
structure Batch where
  samples : List (Sample × Attribution)
  /-- The gaps of its file, each under the digest of where it is. -/
  gaps : List GapRow
  retainedSince : Time
  now : Time

def usageIngest (sweep : Sweep) (s : Usage) (batch : Batch) : Except String (List Event × Usage) :=
  if batch.samples.length ≤ 4096 ∧ batch.gaps.length ≤ 4096 then
    let ingested := noteGaps room
      (ingestAll room (s.usageRetainedSince batch.retainedSince) batch.now s batch.samples)
        batch.gaps
    .ok (usageEvents true ingested.1, ingested.2.pruneUsage batch.retainedSince sweep)
  else
    .error "usage batch exceeds bounds"

/-- A telemetry export, with the reasons its unread events were rejected for. -/
structure Export where
  samples : List (Sample × Attribution)
  rejected : List String
  retainedSince : Time
  now : Time

/-- One gap per reason per hour, however many events give it. -/
def rejections (e : Export) : List GapRow :=
  ((e.rejected.insertionSort (· ≤ ·)).dedup.take 16).map fun reason =>
    ⟨"telemetry:" ++ toString (hour e.now) ++ ":" ++ String.ofList (reason.toList.take 200),
      some (hour e.now), hour e.now + 3600000000000 - 1, none,
      "telemetry event not accounted: " ++ String.ofList (reason.toList.take 200)⟩

def usageIngestTelemetry (sweep : Sweep) (s : Usage) (e : Export) :
    Except String (List Event × Usage) :=
  if e.samples.length + e.rejected.length ≤ 4096 then
    let ingested := noteGaps room
      (ingestAll room (s.usageRetainedSince e.retainedSince) e.now s e.samples) (rejections e)
    .ok (usageEvents (0 < ingested.1.accepted || 0 < ingested.1.gaps) ingested.1,
      ingested.2.pruneUsage (s.usageRetainedSince e.retainedSince) sweep)
  else
    .error "telemetry batch exceeds bounds"

/-! ## Reconciliation -/

/-- Which retained samples one attribution pass takes. -/
structure UsageReconcile where
  runtime : String
  session : String
  attribution : Option Attribution
  window : Option Time × Option Time
  retainedSince : Time
  now : Time

variable (r : UsageReconcile)

/-- The session's own samples that are nobody's, or were counted through its
parent; and those of threads it spawned that are nobody's. -/
def claims (c : Contribution) : Bool :=
  decide (c.bucket.runtime = r.runtime) &&
    ((decide (c.session = r.session) && (c.bucket.attribution.agent.isNone || c.parent.isSome)) ||
      (decide (c.parent = some r.session) && c.bucket.attribution.agent.isNone))

def wanted (since : Time) (row : SampleRow) : Bool :=
  decide (since ≤ row.time) && row.contribution.any (claims r) &&
    (Window.mk r.attribution r.window.1 r.window.2).contains row.time

/-- At most 256 of them, by source id. -/
def selected : List SampleRow :=
  (((s.samples.rows.filter (wanted r (s.usageRetainedSince r.retainedSince))).insertionSort
    fun a b => a.sourceId ≤ b.sourceId)).take 256

/-- Reconciling moves whose the sample is; the card and roles stamped on it when
it was counted are history it keeps. -/
def destination (attribution : Attribution) (bucket : Bucket) : Bucket :=
  { bucket with
    attribution := { bucket.attribution with
      agent := attribution.agent
      project := attribution.project } }

/-- A contribution moved from its bucket to another. -/
def moveTo (id : String) (c : Contribution) (to_ : Bucket) (own : Bool)
    (next previous : Aggregate) : Usage :=
  ((s.writeUsageBucket c.bucket previous).writeUsageBucket to_ next).setContribution id
    (some { c with bucket := to_, parent := if own then none else c.parent })

/-- What a pass has done: samples moved and tracking gaps made. -/
structure Moved where
  count : Nat := 0
  trackingGaps : Nat := 0
deriving DecidableEq, Repr

def reconcileOne (attribution : Attribution) (acc : Moved × Usage)
    (id : String) (c : Contribution) : Except String (Moved × Usage) :=
  let own := decide (c.session = r.session)
  let to_ := destination attribution c.bucket
  if to_ = c.bucket then
    -- already this record's: only how it got here changes
    if own && c.parent.isSome then
      .ok (acc.1, (acc.2.boundedWrite room
        fun s => ((), s.setContribution id (some { c with parent := none }))).2)
    else
      .ok acc
  else
    match (acc.2.usageBucket to_).addPriced c.counters c.exact c.costUsdMicros with
    | .error _ => .ok acc
    | .ok next =>
      match (acc.2.usageBucket c.bucket).removePriced c.counters c.exact c.costUsdMicros with
      | .error reason => .error reason
      | .ok previous =>
        match acc.2.boundedWrite room fun s => ((), s.moveTo id c to_ own next previous) with
        | (some (), s) => .ok ({ acc.1 with count := acc.1.count + 1 }, s)
        | (none, s) =>
          .ok ({ acc.1 with trackingGaps := acc.1.trackingGaps + (s.usageTrackingGap r.now).1 },
            (s.usageTrackingGap r.now).2)

def reconcileRow (attribution : Attribution) (acc : Moved × Usage)
    (row : SampleRow) : Except String (Moved × Usage) :=
  match row.contribution with
  | none => .ok acc
  | some c => reconcileOne room r attribution acc row.sourceId c

def reconcileEvent (agent : String) (moved : Moved) : Option Event :=
  if 0 < moved.count then some (.usageReconciled agent moved.count)
  else if 0 < moved.trackingGaps then some (.usageRecorded 0 moved.trackingGaps)
  else none

def usageReconcile : Except String (Option Event × Usage) :=
  match r.attribution with
  | none => .ok (none, s)
  | some attribution =>
    match attribution.agent with
    | none => .ok (none, s)
    | some agent => do
        let done ← (s.selected r).foldlM (reconcileRow room r attribution) ({}, s)
        return (reconcileEvent agent done.1, done.2)

/-! ## Runs -/

/-- A transaction, with whether the database let it commit. -/
inductive Op where
  | ingest (room : Room) (sweep : Sweep) (batch : Batch) (lands : Bool)
  | telemetry (room : Room) (sweep : Sweep) (e : Export) (lands : Bool)
  | reconcile (room : Room) (r : UsageReconcile) (lands : Bool)
  /-- Folding and pricing a row as their callers do, with what the row holds. -/
  | fold (duplicate keep : String) (lands : Bool)
  | price (id : String) (cost : Nat) (lands : Bool)
  | prune (since : Time) (sweep : Sweep) (lands : Bool)

/-- What a transaction leaves: what it made of the tables when it was committed,
and the tables as they were when it failed. -/
def committed {α : Type} (s : Usage) (result : Except String (α × Usage)) (lands : Bool) : Usage :=
  match result with
  | .ok (_, s') => if lands then s' else s
  | .error _ => s

def step : Op → Usage
  | .ingest room sweep batch lands => s.committed (s.usageIngest room sweep batch) lands
  | .telemetry room sweep e lands => s.committed (s.usageIngestTelemetry room sweep e) lands
  | .reconcile room r lands => s.committed (s.usageReconcile room r) lands
  | .fold duplicate keep lands =>
    match s.samples.get? duplicate with
    | none => s
    | some row => s.committed (.ok (s.usageFold duplicate row.contribution keep)) lands
  | .price id cost lands =>
    match s.samples.get? id with
    | none => s
    | some row => s.committed (.ok (s.usagePrice id row.contribution cost)) lands
  | .prune since sweep lands => s.committed (.ok ((), s.pruneUsage since sweep)) lands

end Usage

end AgentDocker.Store
