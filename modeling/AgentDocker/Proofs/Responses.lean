import AgentDocker.Proofs.Accounting

/-!
# A response told of twice is counted once

A response of Claude is in a transcript, under its message id and with its request
id beside it, and may be in a telemetry event, under the request id alone and with
its price. Which comes first decides which row holds it, and nothing else.

A response goes through stages, and hearing of it moves it to the next: `Stage` is
that machine, and `Tells` says what the tables are when every response is at its
stage. One sample moves one response; what the buckets add up to in the end is
read off the last stages, where the order no longer shows.
-/

namespace AgentDocker.Store

open AgentDocker.Core Lib

/-! ## Responses and their two sources -/

/-- The telemetry event of a response, beside its transcript. -/
structure Agrees (transcript : Sample) (request : String) (event : Sample) : Prop where
  sourceId : event.sourceId = request
  aliases : event.aliases = []
  priced : event.costUsdMicros.isSome = true
  semantics : event.semantics = .response
  runtime : event.runtime = transcript.runtime
  sessionId : event.sessionId = transcript.sessionId
  provider : event.provider = transcript.provider
  model : event.model = transcript.model
  counters : event.counters = transcript.counters
  hour : hour event.time = hour transcript.time

structure Response where
  attribution : Attribution
  request : String
  transcript : Sample
  telemetry : Option Sample
  semantics : transcript.semantics = .response
  aliases : transcript.aliases = [request]
  unpriced : transcript.costUsdMicros = none
  distinct : transcript.sourceId ≠ request
  agrees : ∀ event, telemetry = some event → Agrees transcript request event
deriving DecidableEq

namespace Response

def names (r : Response) : List String := [r.transcript.sourceId, r.request]

def bucket (r : Response) : Bucket :=
  ⟨r.attribution, r.transcript.runtime, r.transcript.provider, r.transcript.model,
    hour r.transcript.time⟩

def price (r : Response) : Option Nat := r.telemetry.bind (·.costUsdMicros)

/-- What a response adds to its bucket, priced when its event was heard. -/
def contribution (r : Response) (heard : Bool) : Contribution where
  bucket := r.bucket
  session := r.transcript.sessionId
  counters := r.transcript.counters
  exact := some true
  parent := none
  costUsdMicros := if heard then r.price else none

end Response

/-- Responses no two of which share a name. -/
structure Responses where
  list : List Response
  nodup : list.Nodup
  distinct : ∀ r ∈ list, ∀ r' ∈ list, ∀ name ∈ r.names, name ∈ r'.names → r = r'

/-- What counting each response of a bucket once counts. -/
def Responses.tally (rs : Responses) (hears : Response → Bool) (b : Bucket) : List Contribution :=
  (rs.list.filter fun r => decide (r.bucket = b)).map fun r => r.contribution (hears r)

/-- All of them together stay within the range of a bucket's figures. -/
def Responses.Fits (rs : Responses) : Prop :=
  ∀ b m, totalOf (Usage.weight m) (rs.tally (fun _ => true) b) < u64Bound

/-! ## Stages -/

inductive Stage where
  | unseen
  /-- The transcript came first; the event may have come since. -/
  | told (heard : Bool)
  /-- The event came, the transcript has not. -/
  | metered
  /-- The transcript came after the event. -/
  | joined

namespace Stage

def transcript : Stage → Bool
  | unseen => false
  | told _ => true
  | metered => false
  | joined => true

def telemetry : Stage → Bool
  | unseen => false
  | told heard => heard
  | metered => true
  | joined => true

def hearTranscript : Stage → Stage
  | unseen => told false
  | metered => joined
  | stage => stage

def hearTelemetry : Stage → Stage
  | unseen => metered
  | told _ => told true
  | stage => stage

@[simp] theorem transcript_hearTranscript {stage : Stage} :
    stage.hearTranscript.transcript = true := by
  cases stage <;> rfl

@[simp] theorem telemetry_hearTranscript {stage : Stage} :
    stage.hearTranscript.telemetry = stage.telemetry := by
  cases stage <;> rfl

@[simp] theorem transcript_hearTelemetry {stage : Stage} :
    stage.hearTelemetry.transcript = stage.transcript := by
  cases stage <;> rfl

@[simp] theorem telemetry_hearTelemetry {stage : Stage} : stage.hearTelemetry.telemetry = true := by
  cases stage <;> rfl

/-- What a response at a stage is counted as. -/
def entry (r : Response) (stage : Stage) : Option Contribution :=
  if stage.transcript || stage.telemetry then some (r.contribution stage.telemetry) else none

/-- The row under `id` holds a sample counted in `b` at a price. -/
def Holds (s : Usage) (id : String) (sample : Sample) (b : Bucket) (cost : Option Nat) : Prop :=
  ∃ row c, s.samples.get? id = some row ∧ row.fingerprint = .hash (Usage.accounting sample) ∧
    row.contribution = some c ∧ c.bucket = b ∧ c.costUsdMicros = cost

/-- The event of a response holds it, under the request id. -/
def Metered (s : Usage) (r : Response) : Prop :=
  ∃ event, r.telemetry = some event ∧ Holds s r.request event r.bucket r.price

/-- The rows of a response at a stage. -/
def Rows (s : Usage) (r : Response) : Stage → Prop
  | unseen => s.samples.get? r.transcript.sourceId = none ∧ s.samples.get? r.request = none
  | told heard =>
    Holds s r.transcript.sourceId r.transcript r.bucket (if heard then r.price else none) ∧
      s.Points r.request r.transcript.sourceId
  | metered => s.samples.get? r.transcript.sourceId = none ∧ Metered s r
  | joined => s.Points r.transcript.sourceId r.request ∧ Metered s r

theorem Rows.congr {s s' : Usage} {r : Response} {stage : Stage} (h : stage.Rows s r)
    (hsame : ∀ name ∈ r.names, s'.samples.get? name = s.samples.get? name) : stage.Rows s' r := by
  have hmessage := hsame r.transcript.sourceId (by simp [Response.names])
  have hrequest := hsame r.request (by simp [Response.names])
  cases stage <;> simpa only [Rows, Metered, Holds, Usage.Points, hmessage, hrequest] using h

end Stage

namespace Usage

variable {rs : Responses} {s s' : Usage} {r : Response} {stage : Response → Stage}

/-- What the responses at their stages add up to in a bucket. -/
def shares (rs : Responses) (stage : Response → Stage) (b : Bucket) (m : Measure) : Nat :=
  totalOf (fun r => adds b m ((stage r).entry r)) rs.list

theorem shares_update (hr : r ∈ rs.list) (stage : Response → Stage) (next : Stage) (b : Bucket)
    (m : Measure) :
    shares rs (Function.update stage r next) b m + adds b m ((stage r).entry r) =
      shares rs stage b m + adds b m (next.entry r) := by
  have hsame : ∀ r' ∈ rs.list, r' ≠ r →
      (fun r' => adds b m ((Function.update stage r next r').entry r')) r' =
        (fun r' => adds b m ((stage r').entry r')) r' := by
    intro r' _ hne
    dsimp only
    rw [Function.update_of_ne hne]
  have h := totalOf_change rs.nodup hr hsame
  rw [Function.update_self] at h
  exact h

theorem weight_contribution_le {heard : Bool} {m : Measure} :
    weight m (r.contribution heard) ≤ weight m (r.contribution true) := by
  cases heard with
  | true => exact Nat.le_refl _
  | false => cases m <;> simp [weight, weigh, Response.contribution]

theorem weight_priced {cost : Nat} (hcost : r.price = some cost) (m : Measure) :
    weight m (r.contribution true) = weight m (r.contribution false) + weighPrice cost m := by
  have hpriced := weigh_priced r.transcript.counters (some true) cost m
  rwa [← hcost] at hpriced

theorem adds_told (r : Response) (heard : Bool) (m : Measure) :
    adds r.bucket m ((Stage.told heard).entry r) = weight m (r.contribution heard) :=
  if_pos rfl

theorem adds_entry_le (r : Response) (stage : Stage) (b : Bucket) (m : Measure) :
    adds b m (stage.entry r) ≤ if r.bucket = b then weight m (r.contribution true) else 0 := by
  unfold Stage.entry
  split
  · show (if r.bucket = b then weight m (r.contribution stage.telemetry) else 0) ≤ _
    split
    · exact weight_contribution_le
    · exact Nat.le_refl _
  · exact Nat.zero_le _

/-- No sample has more than one price. -/
theorem adds_known_le (b : Bucket) (c : Option Contribution) :
    adds b .costKnown c ≤ adds b .samples c := by
  cases c with
  | none => exact Nat.le_refl _
  | some c =>
    simp only [adds, Option.elim_some]
    split
    · cases hcost : c.costUsdMicros <;> simp [weight, weigh, hcost]
    · exact Nat.le_refl _

/-- The figures of a tally, over all responses. -/
theorem totalOf_tally {hears : Response → Bool} {b : Bucket} {m : Measure} :
    totalOf (weight m) (rs.tally hears b) =
      totalOf (fun r => adds b m (some (r.contribution (hears r)))) rs.list := by
  rw [Responses.tally, totalOf_map, totalOf_filter]
  rfl

theorem shares_lt (hfits : rs.Fits) (stage : Response → Stage) (b : Bucket) (m : Measure) :
    shares rs stage b m < u64Bound := by
  have h := hfits b m
  rw [totalOf_tally] at h
  exact Nat.lt_of_le_of_lt (totalOf_le fun r _ => adds_entry_le r (stage r) b m) h

/-! ## The tables at every stage -/

variable {attribution : Attribution} {next : Response → Stage} {room : Room} {event sample : Sample}
  {row : SampleRow} {requested since : Time}

theorem Accounted.ingest (h : s.Accounted) (room : Room) (sample : Sample)
    (attribution : Attribution) (since : Time) :
    (s.usageIngestSample room sample attribution since).2.Accounted := by
  have hpostings : Postings (fun _ _ => True) False s
      (s.usageIngestSample room sample attribution since).2 :=
    usageIngestSample_postings fun _ _ => trivial
  exact h.postings hpostings

/-- No session is counted by running totals. -/
def ByResponses (s : Usage) : Prop :=
  ∀ session account, s.countedBy session = some account → account = .responses

theorem ByResponses.writeUsageBucket (h : s.ByResponses) {bucket : Bucket} {value : Aggregate} :
    (s.writeUsageBucket bucket value).ByResponses := by
  unfold Usage.writeUsageBucket
  split <;> exact h

theorem ByResponses.setAccount (h : s.ByResponses) (hsemantics : sample.semantics = .response) :
    (s.setAccount sample).ByResponses := by
  intro session account hcounted
  unfold countedBy Usage.setAccount at hcounted
  rw [Map.get_set] at hcounted
  split at hcounted
  · rw [hsemantics] at hcounted
    cases hcounted
    rfl
  · exact h session account hcounted

/-- A new response is recorded, its session counted by responses if by nothing
yet. -/
theorem usageIngestSample_new (hby : s.ByResponses) (hsemantics : sample.semantics = .response)
    (hfresh : s.samples.get? sample.sourceId = none) (hnew : s.usageAliased sample.aliases = none) :
    ∃ s₀ : Usage, SameBooks s s₀ ∧ s₀.ByResponses ∧
      s.usageIngestSample room sample attribution since =
        s₀.record room sample attribution since := by
  unfold usageIngestSample
  simp only [hfresh, hnew]
  cases hcounted : s.countedBy (sample.runtime, sample.sessionId) with
  | none => exact ⟨_, setAccount_books s sample, hby.setAccount hsemantics, rfl⟩
  | some account =>
    have haccount : account = sample.semantics.account := by
      rw [hsemantics]
      exact hby _ account hcounted
    exact ⟨s, .refl s, hby, if_pos haccount⟩

/-- What a response told by a sample adds. -/
abbrev whole (sample : Sample) (attribution : Attribution) : Contribution :=
  contributionOf sample attribution sample.counters

/-- The row of such a response. -/
abbrev rowOf (sample : Sample) (attribution : Attribution) : SampleRow :=
  ⟨sample.sourceId, .hash (accounting sample), sample.time, some (whole sample attribution)⟩

/-- A response recorded is put in its bucket and gets its rows. -/
theorem record_response {value : Aggregate} (hsemantics : sample.semantics = .response)
    (hsince : since ≤ hour sample.time)
    (hadd : (s.usageBucket (whole sample attribution).bucket).addPriced sample.counters (some true)
      sample.costUsdMicros = .ok value) :
    (s.record room sample attribution since).2 =
      ((s.writeUsageBucket (whole sample attribution).bucket value).insertRow
        (rowOf sample attribution)).insertAliases sample.sourceId sample.aliases sample.time := by
  have hobserved : s.observed room sample = (some sample.counters, 0, s) := by
    simp only [observed, hsemantics]
  have hexact : (whole sample attribution).exact = some true := by
    simp only [contributionOf, hsemantics, decide_true]
  unfold record
  simp only [hobserved, Option.filter_some, decide_eq_true hsince, if_true, Option.map_some, count,
    hexact]
  rw [show (whole sample attribution).counters = sample.counters from rfl,
    show (whole sample attribution).costUsdMicros = sample.costUsdMicros from rfl, hadd]

theorem usageAliased_single {name : String} (h : s.samples.get? name = none) :
    s.usageAliased [name] = none := by
  simp [usageAliased, usageResolve, resolveWithin, h]

theorem usageResolve_own {id : String} {a : Sample} (hget : s.samples.get? id = some row)
    (hfp : row.fingerprint = .hash a) :
    s.usageResolve id = some (id, row.contribution) := by
  simp only [usageResolve, resolveWithin, hget, hfp]

/-- The same sample again, its other names known. -/
theorem ingest_same (hget : s.samples.get? sample.sourceId = some row)
    (hfp : row.fingerprint = .hash (accounting sample))
    (hknown : (s.usageLearnAliases sample.sourceId sample.aliases sample.time).2 = s) :
    (s.usageIngestSample room sample attribution since).2 = s := by
  have hagrees : conflicts sample (accounting sample) row.time = false := by simp [conflicts]
  simp only [usageIngestSample, hget, replayed, hfp, hagrees, Bool.false_eq_true, if_false, hknown]

/-! ## One sample -/

/-- What the tables are when every response is at its stage. -/
structure Tells (rs : Responses) (stage : Response → Stage) (s : Usage) : Prop where
  accounted : s.Accounted
  rows : ∀ r ∈ rs.list, (stage r).Rows s r
  reads : ∀ b m, (s.usageBucket b).read m = shares rs stage b m
  byResponses : s.ByResponses
  retained : ∀ since, s.retainedSince = some since → ∀ r ∈ rs.list, since ≤ r.bucket.hour

/-- A response heard of again in a way that tells nothing new. -/
theorem Tells.again (h : Tells rs stage s) {next : Stage} (hnext : next = stage r)
    (hs' : (s.usageIngestSample room sample attribution since).2 = s) :
    Tells rs (Function.update stage r next)
      (s.usageIngestSample room sample attribution since).2 := by
  rw [hnext, Function.update_eq_self, hs']
  exact h

section

variable (h : Tells rs stage s) (hr : r ∈ rs.list)
include h hr

/-- One response moves on, by a sample that leaves the rows of the others. -/
theorem Tells.update (next : Stage)
    (hs' : (s.usageIngestSample room sample attribution since).2 = s')
    (hothers : ∀ name, name ∉ r.names → s'.samples.get? name = s.samples.get? name)
    (hrows : next.Rows s' r)
    (hreads : ∀ b m, (s'.usageBucket b).read m + adds b m ((stage r).entry r) =
      (s.usageBucket b).read m + adds b m (next.entry r))
    (hby : s'.ByResponses) (hretained : s'.retainedSince = s.retainedSince) :
    Tells rs (Function.update stage r next)
      (s.usageIngestSample room sample attribution since).2 := by
  refine ⟨h.accounted.ingest room sample attribution since, ?_, ?_, hs' ▸ hby, ?_⟩ <;> rw [hs']
  · intro r' hr'
    by_cases heq : r' = r
    · rw [heq, Function.update_self]
      exact hrows
    · rw [Function.update_of_ne heq]
      refine (h.rows r' hr').congr fun name hname => hothers name fun hmem => heq ?_
      exact rs.distinct r' hr' r hr name hname hmem
  · intro b m
    have := hreads b m
    have := h.reads b m
    have := shares_update hr stage next b m
    omega
  · exact fun since hs => h.retained since (hretained ▸ hs)

section

variable (hfits : rs.Fits) (hstage : stage r = .unseen) (hsince : since ≤ r.bucket.hour)
include hfits hstage hsince

/-- A response is first heard of: whichever source it is, its share is put in its
bucket and its row goes in. -/
theorem Tells.ingest_unseen (heard : Bool) (hsemantics : sample.semantics = .response)
    (hfresh : s.samples.get? sample.sourceId = none) (hnew : s.usageAliased sample.aliases = none)
    (hbucket : (whole sample r.attribution).bucket = r.bucket)
    (hcounters : sample.counters = r.transcript.counters)
    (hcost : sample.costUsdMicros = if heard then r.price else none) :
    ∃ s₁ : Usage, (s.usageIngestSample room sample r.attribution since).2 =
        (s₁.insertRow (rowOf sample r.attribution)).insertAliases sample.sourceId sample.aliases
          sample.time ∧
      s₁.samples = s.samples ∧ s₁.retainedSince = s.retainedSince ∧ s₁.ByResponses ∧
      ∀ b m, (s₁.usageBucket b).read m =
        (s.usageBucket b).read m + adds b m (some (r.contribution heard)) := by
  obtain ⟨s₀, hbooks, hby, hingest⟩ := usageIngestSample_new
    h.byResponses hsemantics hfresh hnew
  have hweight : ∀ m, weigh sample.counters (some true) sample.costUsdMicros m =
      weight m (r.contribution heard) := by
    intro m
    rw [hcounters, hcost]
    rfl
  have hsame : ∀ b, s₀.usageBucket b = s.usageBucket b := fun b => by
    rw [usageBucket, usageBucket, hbooks.buckets]
  have hroom : ∀ m, (s₀.usageBucket r.bucket).read m +
      weigh sample.counters (some true) sample.costUsdMicros m < u64Bound := by
    intro m
    have hnext := shares_update hr stage (.told heard) r.bucket m
    rw [hstage] at hnext
    have hlt := shares_lt hfits (Function.update stage r (.told heard)) r.bucket m
    have hzero : adds r.bucket m (Stage.unseen.entry r) = 0 := rfl
    rw [adds_told] at hnext
    rw [hsame, h.reads, hweight]
    omega
  have hsound : Sound (s₀.usageBucket r.bucket) := hsame _ ▸ h.accounted.sound_usageBucket r.bucket
  obtain ⟨value, hadd⟩ := Aggregate.exists_addPriced hsound.knows hsound.valid rfl hroom
  obtain ⟨-, hvalid, hread, -⟩ :=
    Aggregate.addPriced_ok hsound.knows hsound.valid hsound.bounded rfl hadd
  refine ⟨s₀.writeUsageBucket r.bucket value, ?_, ?_, ?_, ?_, fun b m => ?_⟩
  · have hhour : since ≤ hour sample.time := hsince.trans_eq (congrArg Bucket.hour hbucket).symm
    rw [← hbucket] at hadd ⊢
    rw [hingest, record_response hsemantics hhour hadd]
  · rw [writeUsageBucket_samples, hbooks.samples]
  · rw [writeUsageBucket_retainedSince, hbooks.retainedSince]
  · exact hby.writeUsageBucket
  · have hexchange := exchange_writeUsageBucket s₀ r.bucket none
      (some (r.contribution heard)) hvalid (by simp) (fun c hc => by cases hc; rfl) (fun m => by
        rw [Option.elim_none, Option.elim_some, hread, hweight, Nat.add_zero]) b m
    rw [← hsame]
    exact hexchange

/-- The transcript of a response no source told of. -/
theorem Tells.transcript_unseen : Tells rs (Function.update stage r (.told false))
      (s.usageIngestSample room r.transcript r.attribution since).2 := by
  have hrows := h.rows r hr
  rw [hstage] at hrows
  obtain ⟨hmessage, hrequest⟩ := hrows
  obtain ⟨s₁, hs', hsamples, hretained, hby, hreads⟩ := h.ingest_unseen hr hfits hstage hsince
    false r.semantics hmessage (r.aliases ▸ usageAliased_single hrequest) rfl rfl r.unpriced
  set row := rowOf r.transcript r.attribution
  set link : SampleRow := ⟨r.request, .standsFor r.transcript.sourceId, r.transcript.time, none⟩
  have hfree : ((s₁.insertRow row).samples.get? r.request).isSome = false := by
    rw [get?_insertRow, if_neg (show row.sourceId ≠ r.request from r.distinct), hsamples, hrequest]
    rfl
  have hs' : (s.usageIngestSample room r.transcript r.attribution since).2 =
      (s₁.insertRow row).insertRow link := by
    rw [hs', r.aliases]
    simp only [insertAliases, List.foldl_cons, List.foldl_nil, hfree, Bool.false_eq_true, if_false]
    rfl
  have hget : ∀ name, ((s₁.insertRow row).insertRow link).samples.get? name =
      if r.request = name then some link
      else if r.transcript.sourceId = name then some row else s.samples.get? name := by
    intro name
    rw [get?_insertRow, get?_insertRow, hsamples]
  refine h.update hr (.told false) hs' (fun name hname => ?_) ⟨?_, ?_⟩ (fun b m => ?_) hby hretained
  · have hname : name ≠ r.transcript.sourceId ∧ name ≠ r.request := by
      simpa [Response.names] using hname
    rw [hget, if_neg hname.2.symm, if_neg hname.1.symm]
  · exact ⟨row, _, by rw [hget, if_neg (Ne.symm r.distinct), if_pos rfl], rfl, rfl, rfl, r.unpriced⟩
  · exact ⟨link, by rw [hget, if_pos rfl], rfl⟩
  · rw [hstage]
    exact hreads b m

/-- The event of a response no source told of. -/
theorem Tells.telemetry_unseen (hevent : r.telemetry = some event) :
    Tells rs (Function.update stage r .metered)
      (s.usageIngestSample room event r.attribution since).2 := by
  have hagrees := r.agrees event hevent
  have hprice : event.costUsdMicros = r.price := by rw [Response.price, hevent, Option.bind_some]
  have hbucket : (whole event r.attribution).bucket = r.bucket := by
    simp only [contributionOf, Response.bucket, hagrees.runtime, hagrees.provider, hagrees.model,
      hagrees.hour]
  have hrows := h.rows r hr
  rw [hstage] at hrows
  obtain ⟨hmessage, hrequest⟩ := hrows
  rw [← hagrees.sourceId] at hrequest
  have hnew : s.usageAliased event.aliases = none := by
    rw [hagrees.aliases]
    rfl
  obtain ⟨s₁, hs', hsamples, hretained, hby, hreads⟩ := h.ingest_unseen hr hfits hstage hsince
    true hagrees.semantics hrequest hnew hbucket hagrees.counters hprice
  rw [hagrees.aliases] at hs'
  have hget : ∀ name, (s₁.insertRow (rowOf event r.attribution)).samples.get? name =
      if event.sourceId = name then some (rowOf event r.attribution) else s.samples.get? name := by
    intro name
    rw [get?_insertRow, hsamples]
  refine h.update hr .metered hs' (fun name hname => ?_) ⟨?_, event, hevent, ?_⟩
    (fun b m => ?_) hby hretained
  · have hname : name ≠ r.request := fun heq => hname (by simp [Response.names, heq])
    exact (hget name).trans (if_neg (hagrees.sourceId ▸ Ne.symm hname))
  · exact (hget _).trans ((if_neg (hagrees.sourceId ▸ Ne.symm r.distinct)).trans hmessage)
  · exact ⟨_, _, (hget r.request).trans (if_pos hagrees.sourceId), rfl, rfl, hbucket, hprice⟩
  · rw [hstage]
    exact hreads b m

end

/-- The transcript of a response counted already. -/
theorem Tells.transcript_seen (hstage : stage r ≠ .unseen) :
    Tells rs (Function.update stage r (stage r).hearTranscript)
      (s.usageIngestSample room r.transcript r.attribution since).2 := by
  have hrows := h.rows r hr
  cases hst : stage r with
  | unseen => exact absurd hst hstage
  | told =>
    rw [hst] at hrows
    obtain ⟨⟨_, _, hget, hfp, -⟩, _, hlink, hlinkfp⟩ := hrows
    have hknown : (s.usageLearnAliases r.transcript.sourceId r.transcript.aliases
        r.transcript.time).2 = s := by
      have hother : [r.request].filter (fun name => decide (name ≠ r.transcript.sourceId)) =
          [r.request] := by simp [r.distinct.symm]
      rw [r.aliases, usageLearnAliases, hother]
      simp only [List.foldl_cons, List.foldl_nil, learnAlias, hlink, hlinkfp]
    exact h.again hst.symm (ingest_same hget hfp hknown)
  | joined =>
    rw [hst] at hrows
    obtain ⟨⟨_, hlink, hlinkfp⟩, _, _, _, _, hget, hfp, -⟩ := hrows
    refine h.again hst.symm ?_
    simp only [usageIngestSample, hlink, replayed, hlinkfp, usageResolve_own hget hfp, takePrice,
      r.unpriced]
  | metered =>
    rw [hst] at hrows
    obtain ⟨hmessage, event, hevent, row, c, hget, hrow⟩ := hrows
    have haliased : s.usageAliased r.transcript.aliases = some (r.request, row.contribution) := by
      simp only [r.aliases, usageAliased, List.findSome?_cons, usageResolve_own hget hrow.1]
    have hs' : (s.usageIngestSample room r.transcript r.attribution since).2 =
        s.insertRow ⟨r.transcript.sourceId, .standsFor r.request, r.transcript.time, none⟩ := by
      simp only [usageIngestSample, hmessage, haliased, takePrice, r.unpriced]
    refine h.update hr .joined hs' (fun name hname => ?_) ⟨?_, event, hevent, ?_⟩
      (fun b m => ?_) h.byResponses rfl
    · have hname : name ≠ r.transcript.sourceId := fun heq =>
        hname (by simp [Response.names, heq])
      rw [get?_insertRow, if_neg hname.symm]
    · exact ⟨_, by rw [get?_insertRow, if_pos rfl], rfl⟩
    · exact ⟨row, c, by rw [get?_insertRow, if_neg r.distinct, hget], hrow⟩
    · rw [hst]
      rfl

/-- A response counted without a price can take one. -/
theorem Tells.exists_price (hfits : rs.Fits)
    (hstage : stage r = .told false) {cost : Nat} (hcost : r.price = some cost) :
    ∃ value, (s.usageBucket r.bucket).price cost = .ok value := by
  have hnext := shares_update hr stage (.told true) r.bucket
  simp only [hstage, adds_told, weight_priced hcost] at hnext
  have hroom : (s.usageBucket r.bucket).cost.knownSamples < (s.usageBucket r.bucket).samples := by
    -- with one more price there are still no more prices than samples
    have hknown : shares rs (Function.update stage r (.told true)) r.bucket .costKnown ≤
        shares rs (Function.update stage r (.told true)) r.bucket .samples :=
      totalOf_le fun r' _ => adds_known_le _ _
    have hcosts := hnext .costKnown
    have hsamples := hnext .samples
    have hreadCost : (s.usageBucket r.bucket).cost.knownSamples = _ := h.reads r.bucket .costKnown
    have hreadSamples : (s.usageBucket r.bucket).samples = _ := h.reads r.bucket .samples
    simp only [weighPrice] at hcosts hsamples
    omega
  refine Aggregate.exists_price (h.accounted.sound_usageBucket r.bucket).valid hroom fun m => ?_
  have hlt := shares_lt hfits (Function.update stage r (.told true)) r.bucket m
  have hsum := hnext m
  rw [h.reads]
  omega

/-- The event of a response counted already. -/
theorem Tells.telemetry_seen (hfits : rs.Fits)
    (hevent : r.telemetry = some event) (hstage : stage r ≠ .unseen) :
    Tells rs (Function.update stage r (stage r).hearTelemetry)
      (s.usageIngestSample room event r.attribution since).2 := by
  have hagrees := r.agrees event hevent
  have hprice : r.price = event.costUsdMicros := by rw [Response.price, hevent, Option.bind_some]
  have hrows := h.rows r hr
  have hknown : (s.usageLearnAliases event.sourceId event.aliases event.time).2 = s := by
    rw [hagrees.aliases]
    rfl
  obtain ⟨cost, hcost⟩ := Option.isSome_iff_exists.mp hagrees.priced
  rw [hcost] at hprice
  have hsame : Stage.Metered s r → (s.usageIngestSample room event r.attribution since).2 = s := by
    rintro ⟨event', hevent', _, _, hget, hfp, -⟩
    obtain rfl : event' = event := Option.some.inj (hevent'.symm.trans hevent)
    rw [← hagrees.sourceId] at hget
    exact ingest_same hget hfp hknown
  cases hst : stage r with
  | unseen => exact absurd hst hstage
  | metered | joined =>
    rw [hst] at hrows
    exact h.again hst.symm (hsame hrows.2)
  | told heard =>
    rw [hst] at hrows
    obtain ⟨⟨row, c, hget, hfp, hc, hbucket, hpaid⟩, link, hlink, hlinkfp⟩ := hrows
    rw [← hagrees.sourceId] at hlink
    have hs' : (s.usageIngestSample room event r.attribution since).2 =
        (s.usagePrice r.transcript.sourceId (some c) cost).2 := by
      simp only [usageIngestSample, hlink, replayed, hlinkfp, usageResolve_own hget hfp, takePrice,
        hcost, hc]
    cases heard with
    | true =>
      have hsome : c.costUsdMicros.isSome = true := by
        rw [hpaid, if_pos rfl, hprice]
        rfl
      refine h.again hst.symm (hs'.trans ?_)
      simp only [usagePrice, hsome, if_true]
    | false =>
      have hunpaid : c.costUsdMicros = none := hpaid
      obtain ⟨value, hvalue⟩ := h.exists_price hr hfits hst hprice
      obtain ⟨-, hvalid, hread, -⟩ := Aggregate.price_ok hvalue
      set priced := { c with costUsdMicros := some cost }
      have hs : (s.usagePrice r.transcript.sourceId (some c) cost).2 =
          (s.writeUsageBucket r.bucket value).setContribution r.transcript.sourceId
            (some priced) := by
        simp only [usagePrice, hunpaid, Option.isSome_none, Bool.false_eq_true, if_false, hbucket,
          hvalue, priced]
      have hother : ∀ name, name ≠ r.transcript.sourceId →
          ((s.writeUsageBucket r.bucket value).setContribution r.transcript.sourceId
            (some priced)).samples.get? name = s.samples.get? name := by
        intro name hne
        rw [get?_setContribution, map_rewrite_other hne, writeUsageBucket_samples]
      refine h.update hr (.told true) (hs'.trans hs) (fun name hname => hother name fun heq => ?_)
        ⟨?_, link, ?_, hlinkfp⟩ (fun b m => ?_) h.byResponses.writeUsageBucket
        (writeUsageBucket_retainedSince ..)
      · exact hname (by simp [Response.names, heq])
      · refine ⟨{ row with contribution := some priced }, priced, ?_, hfp, rfl, hbucket,
          hprice.symm⟩
        rw [get?_setContribution, writeUsageBucket_samples, hget, Option.map_some,
          rewrite_same (sourceId_of_get? hget)]
      · rw [hother r.request r.distinct.symm, ← hagrees.sourceId]
        exact hlink
      · have hexchange := exchange_writeUsageBucket s r.bucket (some (r.contribution false))
          (some (r.contribution true)) hvalid (fun c hc => by cases hc; rfl)
          (fun c hc => by cases hc; rfl) (fun m => by
            rw [Option.elim_some, Option.elim_some, hread, weight_priced hprice]
            omega) b m
        rw [hst]
        exact hexchange

end

/-! ## Transactions -/

/-- The sample is one of a response's two. -/
def OneOf (rs : Responses) (one : Sample × Attribution) : Prop :=
  ∃ r ∈ rs.list, one.2 = r.attribution ∧ (one.1 = r.transcript ∨ r.telemetry = some one.1)

def tellsOf (samples : List (Sample × Attribution)) (r : Response) : Bool :=
  samples.any fun one => decide (one.1 = r.transcript)

def metersOf (samples : List (Sample × Attribution)) (r : Response) : Bool :=
  samples.any fun one => decide (r.telemetry = some one.1)

/-- Each response has been heard of by what was heard before and by these. -/
def Advances (rs : Responses) (stage next : Response → Stage)
    (samples : List (Sample × Attribution)) : Prop :=
  ∀ r ∈ rs.list, (next r).transcript = ((stage r).transcript || tellsOf samples r) ∧
    (next r).telemetry = ((stage r).telemetry || metersOf samples r)

theorem Advances.refl (rs : Responses) (stage : Response → Stage) : Advances rs stage stage [] := by
  intro r _
  simp [tellsOf, metersOf]

variable {samples : List (Sample × Attribution)}

theorem Advances.trans {last : Response → Stage} {more : List (Sample × Attribution)}
    (h : Advances rs stage next samples) (h' : Advances rs next last more) :
    Advances rs stage last (samples ++ more) := by
  intro r hr
  obtain ⟨htranscript, htelemetry⟩ := h r hr
  obtain ⟨htranscript', htelemetry'⟩ := h' r hr
  rw [htranscript', htranscript, htelemetry', htelemetry]
  simp [tellsOf, metersOf, Bool.or_assoc]

theorem Advances.congr {more : List (Sample × Attribution)} (h : Advances rs stage next samples)
    (hmem : ∀ one, one ∈ samples ↔ one ∈ more) : Advances rs stage next more := by
  have hany : ∀ p : Sample × Attribution → Bool, samples.any p = more.any p := by
    intro p
    rw [Bool.eq_iff_iff, List.any_eq_true, List.any_eq_true]
    simp only [hmem]
  intro r hr
  simpa only [tellsOf, metersOf, hany] using h r hr

/-- A sample of one response is not a sample of another. -/
theorem sample_eq {r' : Response} (hr : r ∈ rs.list) (hr' : r' ∈ rs.list)
    (h : sample = r.transcript ∨ r.telemetry = some sample)
    (h' : sample = r'.transcript ∨ r'.telemetry = some sample) : r = r' := by
  have hname : ∀ r : Response, (sample = r.transcript ∨ r.telemetry = some sample) →
      sample.sourceId ∈ r.names := by
    intro r h
    rcases h with rfl | hevent
    · exact List.mem_cons_self
    · simp [Response.names, (r.agrees sample hevent).sourceId]
  exact rs.distinct r hr r' hr' sample.sourceId (hname r h) (hname r' h')

/-- One sample moves its response on, and no other. -/
theorem Tells.ingest (h : Tells rs stage s) (hfits : rs.Fits) (room : Room)
    (hsince : ∀ r ∈ rs.list, since ≤ r.bucket.hour) {one : Sample × Attribution}
    (hone : OneOf rs one) :
    ∃ next, Advances rs stage next [one] ∧
      Tells rs next (s.usageIngestSample room one.1 one.2 since).2 := by
  obtain ⟨r, hr, hattribution, hsource⟩ := hone
  rw [hattribution]
  have hany : ∀ p : Sample × Attribution → Bool, [one].any p = p one := by simp
  have hothers : ∀ r' ∈ rs.list, r' ≠ r → tellsOf [one] r' = false ∧ metersOf [one] r' = false := by
    intro r' hr' hne
    constructor
    · rw [tellsOf, hany, decide_eq_false_iff_not]
      exact fun heq => hne (sample_eq hr' hr (.inl heq) hsource)
    · rw [metersOf, hany, decide_eq_false_iff_not]
      exact fun heq => hne (sample_eq hr' hr (.inr heq) hsource)
  have hadvances : ∀ next : Stage, (next.transcript = ((stage r).transcript || tellsOf [one] r) ∧
        next.telemetry = ((stage r).telemetry || metersOf [one] r)) →
      Advances rs stage (Function.update stage r next) [one] := by
    intro next hnext r' hr'
    by_cases heq : r' = r
    · rw [heq, Function.update_self]
      exact hnext
    · rw [Function.update_of_ne heq, (hothers r' hr' heq).1, (hothers r' hr' heq).2, Bool.or_false,
        Bool.or_false]
      exact ⟨rfl, rfl⟩
  rcases hsource with htranscript | hevent
  · have hmeters : metersOf [one] r = false := by
      rw [metersOf, hany, decide_eq_false_iff_not]
      intro hevent
      exact r.distinct (htranscript ▸ (r.agrees one.1 hevent).sourceId)
    refine ⟨Function.update stage r (stage r).hearTranscript, hadvances _ ?_, ?_⟩
    · simp [tellsOf, hmeters, htranscript]
    · rw [htranscript]
      by_cases hst : stage r = .unseen
      · rw [hst]
        exact h.transcript_unseen hr hfits hst (hsince r hr)
      · exact h.transcript_seen hr hst
  · have htells : tellsOf [one] r = false := by
      rw [tellsOf, hany, decide_eq_false_iff_not]
      intro htranscript
      exact r.distinct (htranscript ▸ (r.agrees one.1 hevent).sourceId)
    refine ⟨Function.update stage r (stage r).hearTelemetry, hadvances _ ?_, ?_⟩
    · simp [htells, metersOf, hevent]
    · by_cases hst : stage r = .unseen
      · rw [hst]
        exact h.telemetry_unseen hr hfits hst (hsince r hr) hevent
      · exact h.telemetry_seen hr hfits hevent hst

theorem ingestOne_room (hroom : ∀ s s', room s s' = true) {now : Time} {acc : Ingested × Usage}
    {one : Sample × Attribution} :
    (ingestOne room since now acc one).2 = (acc.2.usageIngestSample room one.1 one.2 since).2 := by
  simp only [ingestOne, boundedWrite, hroom, if_true]

theorem Tells.ingestAll (h : Tells rs stage s) (hfits : rs.Fits) (hroom : ∀ s s', room s s' = true)
    (now : Time) (hsince : ∀ r ∈ rs.list, since ≤ r.bucket.hour)
    (hsamples : ∀ one ∈ samples, OneOf rs one) :
    ∃ next, Advances rs stage next samples ∧
      Tells rs next (s.ingestAll room since now samples).2 := by
  have hperm := sortBy_perm (fun one : Sample × Attribution => one.1.time) samples
  have hfold : ∀ (list : List (Sample × Attribution)) (acc : Ingested × Usage)
      (stage : Response → Stage), (∀ one ∈ list, OneOf rs one) → Tells rs stage acc.2 →
      ∃ next, Advances rs stage next list ∧
        Tells rs next (list.foldl (ingestOne room since now) acc).2 := by
    intro list
    induction list with
    | nil => exact fun acc stage _ hacc => ⟨stage, .refl rs stage, hacc⟩
    | cons one _ ih =>
      intro acc stage hlist hacc
      obtain ⟨mid, hmid, htells⟩ :=
        hacc.ingest hfits room hsince (hlist one List.mem_cons_self)
      rw [← ingestOne_room hroom] at htells
      obtain ⟨next, hnext, hlast⟩ :=
        ih _ mid (fun one hone => hlist one (List.mem_cons_of_mem _ hone)) htells
      exact ⟨next, hmid.trans hnext, hlast⟩
  obtain ⟨next, hnext, htells⟩ := hfold (sortBy (fun one => one.1.time) samples) ({}, s) stage
    (fun one hone => hsamples one (hperm.mem_iff.mp hone)) h
  exact ⟨next, hnext.congr fun one => hperm.mem_iff, htells⟩

/-- Gaps are beside the books. -/
theorem Tells.noteGaps {acc : Ingested × Usage} (h : Tells rs stage acc.2) (gaps : List GapRow) :
    Tells rs stage (noteGaps room acc gaps).2 := by
  refine List.foldlRecOn _ _ (motive := fun acc : Ingested × Usage => Tells rs stage acc.2) h
    fun acc hacc row _ => ?_
  obtain ⟨_, hgaps⟩ := usageGap_gaps room acc.2 row
  rw [hgaps]
  exact { hacc with accounted := hacc.accounted.of_sameBooks ⟨rfl, rfl, rfl⟩ }

theorem usageRetainedSince_le (h : Tells rs stage s)
    (hrequested : ∀ r ∈ rs.list, requested ≤ r.bucket.hour) :
    ∀ r ∈ rs.list, s.usageRetainedSince requested ≤ r.bucket.hour := by
  intro r hr
  unfold usageRetainedSince
  split
  · exact hrequested r hr
  next committed hcommitted =>
  unfold later
  split
  · exact hrequested r hr
  · exact h.retained committed hcommitted r hr

/-- Every response is of an hour that is kept. -/
theorem Tells.prune (h : Tells rs stage s) (sweep : Sweep)
    (hrequested : ∀ r ∈ rs.list, requested ≤ r.bucket.hour) :
    Tells rs stage (s.pruneUsage requested sweep) := by
  have hsince := usageRetainedSince_le h hrequested
  have hget : ∀ id, (s.pruneUsage requested sweep).samples.get? id =
      (s.samples.get? id).map (prunedRow (s.usageRetainedSince requested) sweep) :=
    get?_pruneUsage s requested sweep
  have hpoints : ∀ id target, s.Points id target →
      (s.pruneUsage requested sweep).Points id target := by
    intro id target ⟨row, hrow, hfp⟩
    exact ⟨_, by rw [hget, hrow, Option.map_some], (prunedRow_fingerprint ..).trans hfp⟩
  have hholds : ∀ r ∈ rs.list, ∀ id sample cost, Stage.Holds s id sample r.bucket cost →
      Stage.Holds (s.pruneUsage requested sweep) id sample r.bucket cost := by
    intro r hr id sample cost ⟨row, c, hrow, hfp, hc, hbucket, hcost⟩
    have hhour := (h.accounted.rows id row c hrow hc).2
    have hle : (s.usageRetainedSince requested : Int) ≤ row.time := by
      have := hsince r hr
      rw [← hbucket, hhour] at this
      exact Int.le_trans this (hour_le row.time)
    have hkept : prunedRow (s.usageRetainedSince requested) sweep row = row := by
      simp [prunedRow, Int.not_lt.mpr hle]
    exact ⟨row, c, by rw [hget, hrow, Option.map_some, hkept], hfp, hc, hbucket, hcost⟩
  refine ⟨h.accounted.prune requested sweep, fun r hr => ?_, fun b m => ?_, h.byResponses,
    fun since hs r hr => ?_⟩
  · have hrows := h.rows r hr
    generalize stage r = stage at hrows ⊢
    cases stage with
    | unseen => exact ⟨by rw [hget, hrows.1]; rfl, by rw [hget, hrows.2]; rfl⟩
    | told => exact ⟨hholds r hr _ _ _ hrows.1, hpoints _ _ hrows.2⟩
    | metered =>
      obtain ⟨hmessage, event, hevent, hholds'⟩ := hrows
      exact ⟨by rw [hget, hmessage]; rfl, event, hevent, hholds r hr _ _ _ hholds'⟩
    | joined =>
      obtain ⟨hmessage, event, hevent, hholds'⟩ := hrows
      exact ⟨hpoints _ _ hmessage, event, hevent, hholds r hr _ _ _ hholds'⟩
  · -- a bucket that is let go would have a sample, and so a response
    have hbuckets : (s.pruneUsage requested sweep).buckets.get b = s.buckets.get b := by
      show (s.buckets.retain _).get b = _
      rw [Map.get_retain]
      cases hb : s.buckets.get b with
      | none => rfl
      | some a =>
        refine Option.filter_some_pos ?_
        have hle : ¬ b.hour < s.usageRetainedSince requested := by
          intro hlt
          have hzero : shares rs stage b .samples = 0 := by
            refine totalOf_eq_zero fun r hr => Nat.le_zero.mp ?_
            have hne : r.bucket ≠ b := by
              intro heq
              exact absurd (heq ▸ hsince r hr) (Int.not_le.mpr hlt)
            have := adds_entry_le r (stage r) b .samples
            rwa [if_neg hne] at this
          have hread := h.reads b .samples
          rw [usageBucket, hb, Option.getD_some, hzero] at hread
          have hpos := (h.accounted.stored b a hb).1
          exact absurd hread (Nat.ne_of_gt hpos)
        simp [hle]
    rw [usageBucket, hbuckets]
    exact h.reads b m
  · cases hs
    exact hsince r hr

/-! ## Runs -/

/-- A transaction of these responses' samples that lands: it is within its bounds,
there is room for it, and it lets no response go. -/
def Op.Delivers (rs : Responses) : Op → Prop
  | .ingest room _ batch lands =>
    lands = true ∧ (∀ s s', room s s' = true) ∧ batch.samples.length ≤ 4096 ∧
      batch.gaps.length ≤ 4096 ∧ (∀ r ∈ rs.list, batch.retainedSince ≤ r.bucket.hour) ∧
      ∀ one ∈ batch.samples, OneOf rs one
  | .telemetry room _ e lands =>
    lands = true ∧ (∀ s s', room s s' = true) ∧ e.samples.length + e.rejected.length ≤ 4096 ∧
      (∀ r ∈ rs.list, e.retainedSince ≤ r.bucket.hour) ∧ ∀ one ∈ e.samples, OneOf rs one
  | _ => False

theorem Tells.step (h : Tells rs stage s) (hfits : rs.Fits) {op : Op} (hop : op.Delivers rs) :
    ∃ next, Advances rs stage next op.samples ∧ Tells rs next (s.step op) := by
  cases op with
  | ingest _ sweep batch =>
    obtain ⟨rfl, hroom, hlength, hgaps, hsince, hsamples⟩ := hop
    obtain ⟨next, hnext, htells⟩ := h.ingestAll hfits hroom batch.now
      (usageRetainedSince_le h hsince) hsamples
    refine ⟨next, hnext, ?_⟩
    simp only [Usage.step, committed, usageIngest, if_pos (And.intro hlength hgaps), if_true]
    exact (htells.noteGaps batch.gaps).prune sweep hsince
  | telemetry _ sweep e =>
    obtain ⟨rfl, hroom, hlength, hsince, hsamples⟩ := hop
    obtain ⟨next, hnext, htells⟩ := h.ingestAll hfits hroom e.now
      (usageRetainedSince_le h hsince) hsamples
    refine ⟨next, hnext, ?_⟩
    simp only [Usage.step, committed, usageIngestTelemetry, if_pos hlength, if_true]
    exact (htells.noteGaps (rejections e)).prune sweep (usageRetainedSince_le h hsince)
  | _ => exact hop.elim

theorem Tells.run (h : Tells rs stage s) (hfits : rs.Fits) {ops : List Op}
    (hops : ∀ op ∈ ops, op.Delivers rs) :
    ∃ next, Advances rs stage next (ops.flatMap Op.samples) ∧
      Tells rs next (ops.foldl Usage.step s) := by
  induction ops generalizing s stage with
  | nil => exact ⟨stage, .refl rs stage, h⟩
  | cons op _ ih =>
    obtain ⟨_, hmid, htells⟩ := h.step hfits (hops op List.mem_cons_self)
    obtain ⟨next, hnext, hlast⟩ :=
      ih htells fun op hop => hops op (List.mem_cons_of_mem _ hop)
    exact ⟨next, hmid.trans hnext, hlast⟩

theorem Tells.empty (rs : Responses) : Tells rs (fun _ => .unseen) Usage.empty where
  accounted := .empty
  rows _ _ := ⟨rfl, rfl⟩
  reads b m := (Aggregate.read_empty m).trans (totalOf_eq_zero fun _ _ => rfl).symm
  byResponses _ _ h := by cases h
  retained _ h := by cases h

/-- Transactions that tell of every response by its transcript at least once, with
the events in any place among them. -/
structure Interleaving (rs : Responses) where
  ops : List Op
  delivers : ∀ op ∈ ops, op.Delivers rs
  transcripts : ∀ r ∈ rs.list, tellsOf (ops.flatMap Op.samples) r = true

namespace Interleaving

def final (i : Interleaving rs) : Usage := i.ops.foldl step Usage.empty

/-- Whether the event of a response is among them. -/
def hears (i : Interleaving rs) (r : Response) : Bool := metersOf (i.ops.flatMap Op.samples) r

end Interleaving

/-- A bucket is the recount of contributions, and is there only for some. -/
def CountsAs (s : Usage) (b : Bucket) (cs : List Contribution) : Prop :=
  (cs = [] → s.buckets.get b = none) ∧
    (cs ≠ [] → ∃ a, s.buckets.get b = some a ∧ recount cs = .ok a)

theorem CountsAs.unique {b : Bucket} {cs : List Contribution} (h : s.CountsAs b cs)
    (h' : s'.CountsAs b cs) : s.buckets.get b = s'.buckets.get b := by
  by_cases hcs : cs = []
  · rw [h.1 hcs, h'.1 hcs]
  · obtain ⟨_, hget, ha⟩ := h.2 hcs
    obtain ⟨_, hget', ha'⟩ := h'.2 hcs
    rw [hget, hget', Except.ok.inj (ha.symm.trans ha')]

theorem Interleaving.counts (i : Interleaving rs) (hfits : rs.Fits) (b : Bucket) :
    i.final.CountsAs b (rs.tally i.hears b) := by
  obtain ⟨last, hadvances, htells⟩ := (Tells.empty rs).run hfits i.delivers
  have hentry : ∀ r ∈ rs.list, (last r).entry r = some (r.contribution (i.hears r)) := by
    intro r hr
    obtain ⟨htranscript, htelemetry⟩ := hadvances r hr
    have htold : (last r).transcript = true := by
      rw [htranscript, i.transcripts r hr, Bool.or_true]
    have hheard : (last r).telemetry = i.hears r := by
      rw [htelemetry]
      rfl
    rw [Stage.entry, htold, hheard, Bool.true_or, if_pos rfl]
  have hread : ∀ m, (i.final.usageBucket b).read m = totalOf (weight m) (rs.tally i.hears b) := by
    intro m
    rw [totalOf_tally]
    exact (htells.reads b m).trans (totalOf_congr fun r hr => by rw [hentry r hr])
  have hexact : ∀ c ∈ rs.tally i.hears b, c.exact.isSome = true := by
    intro c hc
    obtain ⟨_, -, rfl⟩ := List.mem_map.mp hc
    rfl
  obtain ⟨hrecount, hsome⟩ := htells.accounted.recount_of_read hexact hread
  constructor
  · intro hnil
    cases hget : i.final.buckets.get b with
    | none => rfl
    | some a =>
      have hzero := hread .samples
      rw [hnil, usageBucket, hget, Option.getD_some] at hzero
      exact absurd hzero (Nat.ne_of_gt (htells.accounted.stored b a hget).1)
  · intro hne
    obtain ⟨a, hget⟩ := Option.isSome_iff_exists.mp (hsome hne)
    exact ⟨a, hget, hrecount a hget⟩

/-- However the transcripts and the events of some responses come and however
often, each bucket counts every response of its own once, at its price if its event
came; so two ways that bring the same events end in the same buckets. -/
theorem responses_counted_once (rs : Responses) (hfits : rs.Fits) (i i' : Interleaving rs) :
    (∀ b, i.final.CountsAs b (rs.tally i.hears b)) ∧ ((∀ r ∈ rs.list, i.hears r = i'.hears r) →
        ∀ b, i.final.buckets.get b = i'.final.buckets.get b) := by
  refine ⟨i.counts hfits, fun hsame b => ?_⟩
  have htally : rs.tally i.hears b = rs.tally i'.hears b := by
    refine List.map_congr_left fun r hr => ?_
    rw [hsame r (List.mem_filter.mp hr).1]
  exact (i.counts hfits b).unique (htally ▸ i'.counts hfits b)

/-- One response, its event priced. -/
def pricedResponse : Response :=
  let transcript : Sample := ⟨"message", "claude-code", "transcript", "session", 7,
    none, some "model",
    { inputTokens := some 100, outputTokens := some 20 }, .response, false, none, none, ["request"]⟩
  { attribution := {}
    request := "request"
    transcript := transcript
    telemetry := some { transcript with
      sourceId := "request", format := "telemetry", time := 9,
      costUsdMicros := some 2500, aliases := [] }
    semantics := rfl
    aliases := rfl
    unpriced := rfl
    distinct := by decide
    agrees := fun event hevent => by
      cases hevent
      exact ⟨rfl, rfl, rfl, rfl, rfl, rfl, rfl, rfl, rfl, by decide⟩ }

def pricedResponses : Responses where
  list := [pricedResponse]
  nodup := by simp
  distinct r hr r' hr' _ _ _ := (List.mem_singleton.mp hr).trans (List.mem_singleton.mp hr').symm

/-- The transcript or the event of the response, by itself. -/
def tellPriced (event : Bool) : Op :=
  let every : Room := fun _ _ => true
  let nothing : Sweep := ⟨fun _ => true, fun _ => true, fun _ => true⟩
  if event then
    .telemetry every nothing ⟨pricedResponse.telemetry.toList.map (·, {}), [], 0, 10⟩ true
  else .ingest every nothing ⟨[(pricedResponse.transcript, {})], [], 0, 10⟩ true

theorem tellPriced_delivers {event : Bool} : (tellPriced event).Delivers pricedResponses := by
  have hsince : ∀ r ∈ pricedResponses.list, (0 : Int) ≤ r.bucket.hour := by
    intro r hr
    rw [List.mem_singleton.mp hr]
    decide
  cases event with
  | false =>
    refine ⟨rfl, fun _ _ => rfl, by decide, by decide, hsince, fun one hone => ?_⟩
    rw [List.mem_singleton.mp hone]
    exact ⟨pricedResponse, List.mem_singleton_self _, rfl, .inl rfl⟩
  | true =>
    refine ⟨rfl, fun _ _ => rfl, by decide, hsince, fun one hone => ?_⟩
    rw [List.mem_singleton.mp hone]
    exact ⟨pricedResponse, List.mem_singleton_self _, rfl, .inr rfl⟩

/-- The transcript and the event in any order that has the transcript. -/
def tellAllPriced (events : List Bool) (h : false ∈ events) : Interleaving pricedResponses where
  ops := events.map tellPriced
  delivers op hop := by
    obtain ⟨_, -, rfl⟩ := List.mem_map.mp hop
    exact tellPriced_delivers
  transcripts r hr := by
    rw [List.mem_singleton.mp hr]
    refine List.any_eq_true.mpr ⟨(pricedResponse.transcript, {}), ?_, by decide⟩
    exact List.mem_flatMap.mpr ⟨_, List.mem_map_of_mem h, List.mem_singleton_self _⟩

theorem pricedResponses_fits : pricedResponses.Fits := by
  intro b m
  rw [totalOf_tally]
  refine Nat.lt_of_le_of_lt (?_ : _ ≤ 2500) (by decide)
  show 0 + adds b m (some (pricedResponse.contribution true)) ≤ 2500
  simp only [adds, Option.elim_some, Nat.zero_add]
  split
  · cases m with
    | sum c | known c => cases c <;> decide
    | _ => decide
  · omega

theorem responses_counted_once_priced : pricedResponses.Fits ∧
      (∀ b, (tellAllPriced [false, true] (by decide)).final.buckets.get b =
        (tellAllPriced [true, true, false, false] (by decide)).final.buckets.get b) ∧
      ((tellAllPriced [true, true, false, false] (by decide)).final.buckets.get
        pricedResponse.bucket).map (fun a => (a.samples, a.cost.sum)) = some (1, 2500) :=
  ⟨pricedResponses_fits, (responses_counted_once _ pricedResponses_fits _ _).2 (fun r hr => by
      rw [List.mem_singleton.mp hr]
      decide), by decide +kernel⟩

end Usage

end AgentDocker.Store
