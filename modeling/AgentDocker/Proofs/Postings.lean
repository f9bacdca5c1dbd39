import AgentDocker.Lib.Outcomes
import AgentDocker.Store.Usage

/-!
# What the transactions write

Every transaction on the usage tables is a sequence of a few writes, each made
where it is allowed: a row put in under a free name, a contribution put into its
bucket, priced, moved to another or taken out, a row made another's name, and the
pruning. `Posting` lists them with what is known where they are made; the
theorems of this module show that nothing else happens. What holds of the tables
is then shown of one posting at a time.

Who may become whose name depends on the samples: `given source name` says that
some sample of `source` carried `name`. A fold asked for by itself is under no
such rule, and only `loose` postings have it.
-/

namespace AgentDocker.Store.Usage

open AgentDocker.Core Lib

/-! ## What gaps leave alone -/

/-- The tables that are counted from, and the boundary. -/
structure SameBooks (s s' : Usage) : Prop where
  samples : s'.samples = s.samples
  buckets : s'.buckets = s.buckets
  retainedSince : s'.retainedSince = s.retainedSince

namespace SameBooks

theorem refl (s : Usage) : SameBooks s s := ⟨rfl, rfl, rfl⟩

theorem of_gaps {s s' : Usage} (h : ∃ gaps, s' = { s with gaps }) : SameBooks s s' := by
  obtain ⟨_, rfl⟩ := h
  exact ⟨rfl, rfl, rfl⟩

end SameBooks

variable {f : Fingerprint → Fingerprint} {c : Option Contribution} {row : SampleRow}
  {other target : String} {s : Usage}

theorem boundedWrite_keeps {α : Type} {P : Usage → Prop} {room : Room} {write : Usage → α × Usage}
    (hs : P s) (hwrite : P (write s).2) :
    P (s.boundedWrite room write).2 := by
  unfold boundedWrite
  split
  · exact hwrite
  · exact hs

theorem usageTrackingGap_gaps {upTo : Time} :
    ∃ gaps, (s.usageTrackingGap upTo).2 = { s with gaps } := by
  unfold usageTrackingGap
  split <;> exact ⟨_, rfl⟩

theorem usageTrackingGap_books (s : Usage) (upTo : Time) :
    SameBooks s (s.usageTrackingGap upTo).2 :=
  .of_gaps usageTrackingGap_gaps

theorem insertGap_gaps {row : GapRow} : ∃ gaps, (insertGap row s).2 = { s with gaps } := by
  unfold insertGap
  split <;> exact ⟨_, rfl⟩

/-- A gap noted, or refused for want of room, is all that changes. -/
theorem usageGap_gaps (room : Room) (s : Usage) (row : GapRow) :
    ∃ gaps, (s.usageGap room row).2 = { s with gaps } := by
  unfold usageGap boundedWrite
  by_cases hroom : room s (insertGap row s).2 = true
  · rw [if_pos hroom]
    exact insertGap_gaps
  · rw [if_neg hroom]
    exact usageTrackingGap_gaps

theorem usageGap_books (room : Room) (s : Usage) (row : GapRow) :
    SameBooks s (s.usageGap room row).2 :=
  .of_gaps (usageGap_gaps room s row)

section

variable (s : Usage)

theorem setAccount_books (sample : Sample) : SameBooks s (s.setAccount sample) :=
  ⟨rfl, rfl, rfl⟩

theorem observed_books (room : Room) (s : Usage) (sample : Sample) :
    SameBooks s (s.observed room sample).2.2 := by
  unfold observed
  split
  · exact .refl s
  · split
    · exact .refl s
    · next seen _ =>
      cases seen.gap with
      | none => exact ⟨rfl, rfl, rfl⟩
      | some gap =>
        have h := usageGap_books room s ⟨"baseline:" ++ sample.sourceId, gap.since, gap.upTo,
          some (sample.runtime, sample.sessionId), "unknown initial history or counter reset"⟩
        exact { h with }
    · exact usageGap_books room s _

/-! ## Rows and their names -/

/-- The row under `id` holds the accounting for its own name. -/
def Own (id : String) : Prop :=
  ∃ row a, s.samples.get? id = some row ∧ row.fingerprint = .hash a

/-- The row under `id` stands for `target`. -/
def Points (id target : String) : Prop :=
  ∃ row, s.samples.get? id = some row ∧ row.fingerprint = .standsFor target

@[simp] theorem writeUsageBucket_samples (bucket : Bucket) (value : Aggregate) :
    (s.writeUsageBucket bucket value).samples = s.samples := by
  unfold writeUsageBucket
  split <;> rfl

@[simp] theorem writeUsageBucket_retainedSince (bucket : Bucket) (value : Aggregate) :
    (s.writeUsageBucket bucket value).retainedSince = s.retainedSince := by
  unfold writeUsageBucket
  split <;> rfl

theorem get?_insertRow (row : SampleRow) (id : String) :
    (s.insertRow row).samples.get? id = if row.sourceId = id then some row else s.samples.get? id :=
  Keyed.get?_insert

theorem get?_setContribution (id other : String) (c : Option Contribution) :
    (s.setContribution id c).samples.get? other =
      (s.samples.get? other).map (rewrite id (fun f => f) c) := by
  rw [setContribution, Keyed.get?_update]

theorem get?_setAlias (id target other : String) : (s.setAlias id target).samples.get? other =
      (s.samples.get? other).map (rewrite id (fun _ => .standsFor target) none) := by
  rw [setAlias, Keyed.get?_update]

theorem get?_pruneUsage (requested : Time) (sweep : Sweep) (id : String) :
    (s.pruneUsage requested sweep).samples.get? id =
      (s.samples.get? id).map (prunedRow (s.usageRetainedSince requested) sweep) := by
  unfold pruneUsage
  rw [Keyed.get?_update]

end

theorem prunedRow_fingerprint (since : Time) (sweep : Sweep) (row : SampleRow) :
    (prunedRow since sweep row).fingerprint = row.fingerprint := by
  unfold prunedRow
  split <;> rfl

variable {id : String}

theorem rewrite_other (h : row.sourceId ≠ id) : rewrite id f c row = row :=
  if_neg h

theorem rewrite_same (h : row.sourceId = id) :
    rewrite id f c row = { row with fingerprint := f row.fingerprint, contribution := c } :=
  if_pos h

theorem sourceId_of_get? (h : s.samples.get? id = some row) : row.sourceId = id :=
  (Keyed.get?_eq_some.mp h).2

/-- Every other row stays as it is. -/
theorem map_rewrite_other (hne : other ≠ id) :
    (s.samples.get? other).map (rewrite id f c) = s.samples.get? other := by
  cases hget : s.samples.get? other with
  | none => rfl
  | some => rw [Option.map_some, rewrite_other (sourceId_of_get? hget ▸ hne)]

/-- Only a row's own rewriting or its own insertion takes its name from it. -/
theorem Own.insertRow (h : s.Own id) (hfresh : s.samples.get? row.sourceId = none) :
    (s.insertRow row).Own id := by
  obtain ⟨r, a, hget, hfp⟩ := h
  have hne : row.sourceId ≠ id := by
    intro heq
    rw [heq, hget] at hfresh
    cases hfresh
  exact ⟨r, a, by rw [get?_insertRow, if_neg hne, hget], hfp⟩

theorem Own.setContribution (h : s.Own id) : (s.setContribution other c).Own id := by
  obtain ⟨r, a, hget, hfp⟩ := h
  refine ⟨rewrite other (fun f => f) c r, a,
    by rw [get?_setContribution, hget, Option.map_some], ?_⟩
  by_cases hr : r.sourceId = other
  · rw [rewrite_same hr, hfp]
  · rw [rewrite_other hr, hfp]

theorem Own.setAlias (h : s.Own id) (hne : id ≠ other) : (s.setAlias other target).Own id := by
  rw [Own, get?_setAlias, map_rewrite_other hne]
  exact h

theorem Own.writeUsageBucket {bucket : Bucket} {value : Aggregate} (h : s.Own id) :
    (s.writeUsageBucket bucket value).Own id := by
  unfold Own
  rw [writeUsageBucket_samples]
  exact h

/-- What resolving a name finds is a row of its own name, with what it holds. -/
theorem resolveWithin_row {n : Nat} (h : s.resolveWithin n id = some (target, c)) :
    ∃ row a, s.samples.get? target = some row ∧ row.fingerprint = .hash a ∧
      row.contribution = c := by
  induction n generalizing id with
  | zero => cases h
  | succ _ ih =>
    rw [resolveWithin] at h
    split at h
    · cases h
    next row hrow =>
    split at h
    · exact ih h
    next a ha =>
    cases h
    exact ⟨row, a, hrow, ha, rfl⟩

theorem usageAliased_row {ids : List String} (h : s.usageAliased ids = some (target, c)) :
    ∃ id ∈ ids, s.usageResolve id = some (target, c) :=
  List.exists_of_findSome?_eq_some h

/-! ## Postings -/

/-- One write, where it is allowed. -/
inductive Posting (given : String → String → Prop) (loose : Prop) (s : Usage) : Usage → Prop where
  /-- Gaps, accounts and baselines are not counted from. -/
  | aside {s' : Usage} (h : SameBooks s s') : Posting given loose s s'
  /-- Another name of a row, where it is free. -/
  | name {name source : String} {time : Time} (hfresh : s.samples.get? name = none)
      (hown : s.Own source) (hgiven : given source name) :
      Posting given loose s (s.insertRow ⟨name, .standsFor source, time, none⟩)
  /-- A response counted already under a name its sample carries. -/
  | replay {name other target : String} {time : Time} {c : Option Contribution}
      (hfresh : s.samples.get? name = none) (hgiven : given name other)
      (hresolve : s.usageResolve other = some (target, c)) :
      Posting given loose s (s.insertRow ⟨name, .standsFor target, time, none⟩)
  /-- A sample remembered and not counted. -/
  | record {name : String} {a : Sample} {time : Time} (hfresh : s.samples.get? name = none) :
      Posting given loose s (s.insertRow ⟨name, .hash a, time, none⟩)
  | count {name : String} {a : Sample} {time : Time} {c : Contribution} {value : Aggregate}
      (hfresh : s.samples.get? name = none) (hexact : c.exact.isSome = true)
      (hhour : c.bucket.hour = hour time)
      (hadd : (s.usageBucket c.bucket).addPriced c.counters c.exact c.costUsdMicros = .ok value) :
      Posting given loose s
        ((s.writeUsageBucket c.bucket value).insertRow ⟨name, .hash a, time, some c⟩)
  | price {id : String} {row : SampleRow} {c : Contribution} {cost : Nat} {value : Aggregate}
      (hrow : s.samples.get? id = some row) (hc : row.contribution = some c)
      (hunpriced : c.costUsdMicros = none)
      (hprice : (s.usageBucket c.bucket).price cost = .ok value) :
      Posting given loose s ((s.writeUsageBucket c.bucket value).setContribution id
        (some { c with costUsdMicros := some cost }))
  /-- A row that holds nothing becomes another's name. -/
  | join {id keep : String} {row : SampleRow} (hrow : s.samples.get? id = some row)
      (hnone : row.contribution = none)
      (hrule : (given keep id ∧ s.Own id ∧ s.Own keep) ∨ loose) :
      Posting given loose s (s.setAlias id keep)
  /-- A row gives its contribution back and becomes another's name. -/
  | fold {id keep : String} {row : SampleRow} {c : Contribution} {value : Aggregate}
      (hrow : s.samples.get? id = some row) (hc : row.contribution = some c)
      (hremove : (s.usageBucket c.bucket).removePriced c.counters c.exact c.costUsdMicros =
        .ok value)
      (hrule : (given keep id ∧ s.Own id ∧ s.Own keep) ∨ loose) :
      Posting given loose s ((s.writeUsageBucket c.bucket value).setAlias id keep)
  | move {id : String} {row : SampleRow} {c : Contribution} {to_ : Bucket} {own : Bool}
      {next previous : Aggregate} (hrow : s.samples.get? id = some row)
      (hc : row.contribution = some c) (hne : to_ ≠ c.bucket) (hhour : to_.hour = c.bucket.hour)
      (hadd : (s.usageBucket to_).addPriced c.counters c.exact c.costUsdMicros = .ok next)
      (hremove :
        (s.usageBucket c.bucket).removePriced c.counters c.exact c.costUsdMicros = .ok previous) :
      Posting given loose s (s.moveTo id c to_ own next previous)
  /-- How a sample got to its record is forgotten. -/
  | settle {id : String} {row : SampleRow} {c : Contribution} (hrow : s.samples.get? id = some row)
      (hc : row.contribution = some c) :
      Posting given loose s (s.setContribution id (some { c with parent := none }))
  | prune {requested : Time} {sweep : Sweep} : Posting given loose s (s.pruneUsage requested sweep)

abbrev Postings (given : String → String → Prop) (loose : Prop) : Usage → Usage → Prop :=
  Relation.ReflTransGen (Posting given loose)

section

variable {given : String → String → Prop} {loose : Prop}

variable {attribution : Attribution} {acc : Ingested × Usage} {events : List Event}
  {aliases : List String} {c : Option Contribution} {room : Room} {sample : Sample}
  {row : SampleRow} {keep name other source : String} {sweep : Sweep} {now time : Time}
  {s s' : Usage} {r : UsageReconcile}

theorem SameBooks.postings (h : SameBooks s s') : Postings given loose s s' :=
  .single (.aside h)

/-! ## Prices and folds -/

variable {id : String}

theorem usagePrice_postings {cost : Nat} (hrow : s.samples.get? id = some row) :
    Postings given loose s (s.usagePrice id row.contribution cost).2 := by
  unfold usagePrice
  split
  · exact .refl
  next c hc =>
  split
  · exact .refl
  next hsome =>
  split
  · exact .refl
  · next value hvalue => exact .single (.price hrow hc (by simpa using hsome) hvalue)

theorem Own.usagePrice {cost : Nat} (h : s.Own other) : (s.usagePrice id c cost).2.Own other := by
  unfold Usage.usagePrice
  split
  · exact h
  · split
    · exact h
    · split
      · exact h
      · exact h.writeUsageBucket.setContribution

theorem passPrice_postings {cost : Option Nat} :
    Postings given loose s (s.passPrice keep cost) := by
  unfold passPrice
  split
  · exact .refl
  · split
    · exact .refl
    next target kept hresolve =>
    obtain ⟨_, _, hrow, -, rfl⟩ := resolveWithin_row hresolve
    exact usagePrice_postings hrow

theorem Own.passPrice {cost : Option Nat} (h : s.Own id) : (s.passPrice keep cost).Own id := by
  unfold Usage.passPrice
  split
  · exact h
  · split
    · exact h
    · exact h.usagePrice

theorem usageFold_postings (hrow : s.samples.get? id = some row)
    (hrule : (given keep id ∧ s.Own id ∧ s.Own keep) ∨ loose) :
    Postings given loose s (s.usageFold id row.contribution keep).2 := by
  unfold usageFold
  split
  · next hnone => exact .single (.join hrow hnone hrule)
  next c hc =>
  split
  · exact .refl
  next value hvalue =>
  exact .head (.fold hrow hc hvalue hrule) passPrice_postings

theorem Own.usageFold (h : s.Own other) (hne : other ≠ id) :
    (s.usageFold id c keep).2.Own other := by
  unfold Usage.usageFold
  split
  · exact h.setAlias hne
  · split
    · exact h
    · exact (h.writeUsageBucket.setAlias hne).passPrice

/-! ## The names a sample brings -/

theorem learnAlias_postings (hown : s.Own source) (hgiven : given source name) :
    Postings given loose s (learnAlias source time s name).2 := by
  unfold learnAlias
  split
  · next hfresh => exact .single (.name hfresh hown hgiven)
  next row hrow =>
  split
  · exact .refl
  · next a ha => exact usageFold_postings hrow (.inl ⟨hgiven, ⟨row, a, hrow, ha⟩, hown⟩)

theorem Own.learnAlias (hown : s.Own source) (hne : source ≠ name) :
    (Usage.learnAlias source time s name).2.Own source := by
  unfold Usage.learnAlias
  split
  · next hfresh => exact hown.insertRow hfresh
  · split
    · exact hown
    · exact hown.usageFold hne

theorem usageLearnAliases_postings (hown : s.Own source)
    (hgiven : ∀ name ∈ aliases, given source name) :
    Postings given loose s (s.usageLearnAliases source aliases time).2 := by
  have h : Postings given loose s (s.usageLearnAliases source aliases time).2 ∧
      (s.usageLearnAliases source aliases time).2.Own source := by
    refine List.foldlRecOn _ _
      (motive := fun acc : Nat × Usage => Postings given loose s acc.2 ∧ acc.2.Own source)
      ⟨.refl, hown⟩ fun acc hacc name hname => ?_
    obtain ⟨hname, hne⟩ := List.mem_filter.mp hname
    exact ⟨hacc.1.trans (learnAlias_postings hacc.2 (hgiven name hname)),
      hacc.2.learnAlias fun heq => of_decide_eq_true hne heq.symm⟩
  exact h.1

theorem insertAliases_postings (hown : s.Own source)
    (hgiven : ∀ name ∈ aliases, given source name) :
    Postings given loose s (s.insertAliases source aliases time) := by
  have h : Postings given loose s (s.insertAliases source aliases time) ∧
      (s.insertAliases source aliases time).Own source := by
    refine List.foldlRecOn _ _ (motive := fun s' => Postings given loose s s' ∧ s'.Own source)
      ⟨.refl, hown⟩ fun s' hs' name hname => ?_
    split
    · exact hs'
    next hfresh =>
    have hfresh : s'.samples.get? name = none := by simpa using hfresh
    exact ⟨hs'.1.tail (.name hfresh hs'.2 (hgiven name hname)), hs'.2.insertRow hfresh⟩
  exact h.1

/-! ## One sample -/

theorem takePrice_postings {target : String} (hrow : s.samples.get? target = some row) :
    Postings given loose s (s.takePrice sample target row.contribution).2 := by
  unfold takePrice
  split
  · exact .refl
  · exact usagePrice_postings hrow

theorem replayed_postings (hrow : s.samples.get? sample.sourceId = some row)
    (hgiven : ∀ name ∈ sample.aliases, given sample.sourceId name) :
    Postings given loose s (s.replayed room sample row).2 := by
  unfold replayed
  split
  · split
    · exact .refl
    next target c hresolve =>
    obtain ⟨_, _, hfound, -, rfl⟩ := resolveWithin_row hresolve
    exact takePrice_postings hfound
  next a ha =>
  have hlearn : Postings given loose s
      (s.usageLearnAliases sample.sourceId sample.aliases sample.time).2 :=
    usageLearnAliases_postings ⟨row, a, hrow, ha⟩ hgiven
  split
  · exact hlearn.trans (usageGap_books room _ _).postings
  · exact hlearn

variable {retainedSince : Time}

/-- A sample that is new: its contribution, its row and its names. -/
theorem record_postings (hfresh : s.samples.get? sample.sourceId = none)
    (hgiven : ∀ name ∈ sample.aliases, given sample.sourceId name) :
    Postings given loose s (s.record room sample attribution retainedSince).2 := by
  have hseen := observed_books room s sample
  unfold record
  generalize s.observed room sample = seen at hseen
  refine .trans hseen.postings (.trans ?_ (insertAliases_postings ?_ hgiven))
  · have hfresh' : seen.2.2.samples.get? sample.sourceId = none := hseen.samples ▸ hfresh
    unfold count
    split
    · exact .single (.record hfresh')
    next c hc =>
    obtain ⟨_, -, rfl⟩ := Option.map_eq_some_iff.mp hc
    split
    · next value hvalue => exact .single (.count hfresh' rfl rfl hvalue)
    · have hgap := usageGap_books room seen.2.2 ⟨"overflow:" ++ sample.sourceId, none, sample.time,
        some (sample.runtime, sample.sessionId), "usage bucket arithmetic exceeds its range"⟩
      exact .trans hgap.postings (.single (.record (hgap.samples ▸ hfresh')))
  · exact ⟨_, _, by rw [get?_insertRow, if_pos rfl], rfl⟩

theorem usageIngestSample_postings (hgiven : ∀ name ∈ sample.aliases, given sample.sourceId name) :
    Postings given loose s (s.usageIngestSample room sample attribution retainedSince).2 := by
  unfold usageIngestSample
  split
  · next row hrow => exact replayed_postings hrow hgiven
  next hfresh =>
  split
  · next target c haliased =>
    obtain ⟨other, hother, hresolve⟩ := usageAliased_row haliased
    obtain ⟨_, _, hrow, -, rfl⟩ := resolveWithin_row hresolve
    refine .head (.replay hfresh (hgiven other hother) hresolve) (takePrice_postings ?_)
    have hne : sample.sourceId ≠ target := by
      intro heq
      rw [heq, hrow] at hfresh
      cases hfresh
    rw [get?_insertRow, if_neg hne, hrow]
  · split
    · split
      · exact record_postings hfresh hgiven
      · exact .refl
    · exact .trans (setAccount_books s sample).postings (record_postings hfresh hgiven)

/-! ## Batches -/

/-- What the samples of a batch carry. -/
def Carries (samples : List (Sample × Attribution)) (source name : String) : Prop :=
  ∃ one ∈ samples, one.1.sourceId = source ∧ name ∈ one.1.aliases

theorem ingestOne_postings {one : Sample × Attribution}
    (hgiven : ∀ name ∈ one.1.aliases, given one.1.sourceId name) :
    Postings given loose acc.2 (ingestOne room retainedSince now acc one).2 := by
  have hwrite : Postings given loose acc.2 (acc.2.boundedWrite room
      fun s => s.usageIngestSample room one.1 one.2 retainedSince).2 :=
    boundedWrite_keeps .refl (usageIngestSample_postings hgiven)
  unfold ingestOne
  split
  · next done s' heq =>
    rw [heq] at hwrite
    exact hwrite
  next s' heq =>
  rw [heq] at hwrite
  exact hwrite.trans (usageTrackingGap_books s' _).postings

theorem ingestAll_postings {samples : List (Sample × Attribution)} :
    Postings (Carries samples) loose s (ingestAll room retainedSince now s samples).2 := by
  refine List.foldlRecOn _ _
    (motive := fun acc : Ingested × Usage => Postings (Carries samples) loose s acc.2)
    .refl fun acc hacc one hone => ?_
  have hmem : one ∈ samples := (sortBy_perm _ samples).mem_iff.mp hone
  exact hacc.trans (ingestOne_postings fun name hname => ⟨one, hmem, rfl, hname⟩)

theorem noteGaps_postings {gaps : List GapRow} :
    Postings given loose acc.2 (noteGaps room acc gaps).2 := by
  refine List.foldlRecOn _ _
    (motive := fun acc' : Ingested × Usage => Postings given loose acc.2 acc'.2)
    .refl fun acc' hacc row _ => ?_
  exact hacc.trans (usageGap_books room acc'.2 row).postings

theorem usageIngest_postings {batch : Batch}
    (h : s.usageIngest room sweep batch = .ok (events, s')) :
    Postings (Carries batch.samples) loose s s' := by
  unfold usageIngest at h
  split at h
  · cases h
    exact (ingestAll_postings.trans noteGaps_postings).tail .prune
  · cases h

theorem usageIngestTelemetry_postings {e : Export}
    (h : s.usageIngestTelemetry room sweep e = .ok (events, s')) :
    Postings (Carries e.samples) loose s s' := by
  unfold usageIngestTelemetry at h
  split at h
  · cases h
    exact (ingestAll_postings.trans noteGaps_postings).tail .prune
  · cases h

/-! ## Reconciliation -/

theorem destination_hour (bucket : Bucket) : (destination attribution bucket).hour = bucket.hour :=
  rfl

/-- Postings that leave every row but one. -/
def Rewrites (given : String → String → Prop) (loose : Prop) (id : String) (s s' : Usage) : Prop :=
  Postings given loose s s' ∧ ∀ other, other ≠ id → s'.samples.get? other = s.samples.get? other

theorem Rewrites.refl (s : Usage) : Rewrites given loose id s s :=
  ⟨.refl, fun _ _ => rfl⟩

/-- One row of a pass: only its own row is written. -/
theorem reconcileOne_postings {acc acc' : Moved × Usage} {c : Contribution}
    (hrow : acc.2.samples.get? id = some row) (hc : row.contribution = some c)
    (h : reconcileOne room r attribution acc id c = .ok acc') :
    Rewrites given loose id acc.2 acc'.2 := by
  have hbounded : ∀ write : Usage → Unit × Usage, Rewrites given loose id acc.2 (write acc.2).2 →
      Rewrites given loose id acc.2 (acc.2.boundedWrite room write).2 :=
    fun _ => boundedWrite_keeps (.refl _)
  unfold reconcileOne at h
  dsimp only at h
  split at h
  · split at h
    · cases h
      refine hbounded _ ⟨.single (.settle hrow hc), fun other hne => ?_⟩
      rw [get?_setContribution, map_rewrite_other hne]
    · cases h
      exact .refl _
  next hne =>
  split at h
  · cases h
    exact .refl _
  next next hadd =>
  split at h
  · cases h
  next previous hremove =>
  have hwrite := hbounded (fun s => ((), s.moveTo id c (destination attribution c.bucket)
    (decide (c.session = r.session)) next previous))
    ⟨.single (.move hrow hc hne (destination_hour _) hadd hremove), fun other hother => by
      rw [moveTo, get?_setContribution, map_rewrite_other hother, writeUsageBucket_samples,
        writeUsageBucket_samples]⟩
  split at h
  · next s' heq =>
    cases h
    rw [heq] at hwrite
    exact hwrite
  next s' heq =>
  cases h
  rw [heq] at hwrite
  have hgap := usageTrackingGap_books s' r.now
  refine ⟨hwrite.1.trans hgap.postings, fun other hother => ?_⟩
  rw [hgap.samples]
  exact hwrite.2 other hother

/-- A pass over rows each still as it was read. -/
theorem reconcileRows_postings {rows : List SampleRow} {acc acc' : Moved × Usage}
    (hnodup : (rows.map (·.sourceId)).Nodup)
    (hrows : ∀ row ∈ rows, acc.2.samples.get? row.sourceId = some row)
    (h : rows.foldlM (reconcileRow room r attribution) acc = .ok acc') :
    Postings given loose acc.2 acc'.2 := by
  induction rows generalizing acc with
  | nil =>
    rw [List.foldlM_nil, pure_eq_ok] at h
    subst h
    exact .refl
  | cons row _ ih =>
    rw [List.foldlM_cons, bind_eq_ok] at h
    obtain ⟨acc₁, hone, hrest⟩ := h
    rw [List.map_cons, List.nodup_cons] at hnodup
    have hstep : Rewrites given loose row.sourceId acc.2 acc₁.2 := by
      unfold reconcileRow at hone
      split at hone
      · cases hone
        exact .refl _
      · next c hc => exact reconcileOne_postings (hrows row List.mem_cons_self) hc hone
    refine hstep.1.trans (ih hnodup.2 (fun other hother => ?_) hrest)
    have hne : other.sourceId ≠ row.sourceId := fun heq =>
      hnodup.1 (heq ▸ List.mem_map_of_mem hother)
    rw [hstep.2 _ hne]
    exact hrows other (List.mem_cons_of_mem _ hother)

theorem usageReconcile_postings {event : Option Event}
    (h : s.usageReconcile room r = .ok (event, s')) :
    Postings given loose s s' := by
  unfold usageReconcile at h
  split at h
  · cases h
    exact .refl
  · split at h
    · cases h
      exact .refl
    · simp only [bind_eq_ok, pure_eq_ok, Prod.mk.injEq] at h
      obtain ⟨_, hdone, -, rfl⟩ := h
      have hsub : ∀ row ∈ s.selected r, row ∈ s.samples := by
        intro row hrow
        have := List.mem_of_mem_take hrow
        rw [List.mem_insertionSort] at this
        exact (List.mem_filter.mp this).1
      have hnodup : ((s.selected r).map (·.sourceId)).Nodup := by
        refine List.Nodup.sublist ((List.take_sublist _ _).map _) ?_
        rw [((List.perm_insertionSort _ _).map _).nodup_iff]
        exact s.samples.nodup.sublist (List.filter_sublist.map _)
      exact reconcileRows_postings hnodup
        (fun row hrow => Keyed.get?_eq_some.mpr ⟨hsub row hrow, rfl⟩) hdone

theorem committed_postings {α : Type} {result : Except String (α × Usage)} {lands : Bool}
    (h : ∀ a s', result = .ok (a, s') → Postings given loose s s') :
    Postings given loose s (s.committed result lands) := by
  unfold committed
  split
  · next a s' =>
    split
    · exact h a s' rfl
    · exact .refl
  · exact .refl

end

/-! ## Runs -/

def Op.samples : Op → List (Sample × Attribution)
  | .ingest _ _ batch _ => batch.samples
  | .telemetry _ _ e _ => e.samples
  | _ => []

/-- What the samples of a transaction carry. -/
def Op.given : Op → String → String → Prop
  | .ingest _ _ batch _ => Carries batch.samples
  | .telemetry _ _ e _ => Carries e.samples
  | _ => fun _ _ => False

/-- Whether a transaction is a fold by itself. -/
def Op.loose : Op → Prop
  | .fold .. => True
  | _ => False

theorem step_postings (s : Usage) (op : Op) : Postings op.given op.loose s (s.step op) := by
  cases op with
  | ingest => exact committed_postings fun _ _ => usageIngest_postings
  | telemetry => exact committed_postings fun _ _ => usageIngestTelemetry_postings
  | reconcile => exact committed_postings fun _ _ => usageReconcile_postings
  | fold duplicate keep lands =>
    unfold step
    dsimp only
    split
    · exact .refl
    next row hrow =>
    refine committed_postings fun folded s' heq => ?_
    have h : Postings (Op.given (.fold duplicate keep lands)) True s
        (s.usageFold duplicate row.contribution keep).2 :=
      usageFold_postings hrow (.inr trivial)
    rw [Except.ok.inj heq] at h
    exact h
  | price id cost lands =>
    unfold step
    dsimp only
    split
    · exact .refl
    next row hrow =>
    refine committed_postings fun priced s' heq => ?_
    have h : Postings (Op.given (.price id cost lands)) False s
        (s.usagePrice id row.contribution cost).2 := usagePrice_postings hrow
    rw [Except.ok.inj heq] at h
    exact h
  | prune =>
    unfold step
    refine committed_postings fun _ s' heq => ?_
    cases heq
    exact .single .prune

end AgentDocker.Store.Usage
