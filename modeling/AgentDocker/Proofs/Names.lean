import AgentDocker.Lib.Runs
import AgentDocker.Proofs.Postings

/-!
# Every name of a response resolves

A transcript names a response by its message id and may carry its request id; a
telemetry event names it by the request id alone. A row that stands for another
points at it, and a fold can point a row that others point at already, so the
question is how far a name can be from the row that holds its accounting.

Two steps: a message row never changes what it points at, and a request row only
ever comes to point at a message row of its own name. `Named` says so, and gives
each row a rank its pointer goes down in.
-/

namespace AgentDocker.Store.Usage

open AgentDocker.Core Lib

/-- The names form a forest whose roots are what resolving a name finds. -/
structure NamesResolve (s : Usage) : Prop where
  acyclic : ∀ id, ¬ Relation.TransGen s.Points id id
  bare : ∀ id target row, s.samples.get? id = some row → row.fingerprint = .standsFor target →
    row.contribution = none
  resolves : ∀ id, (s.samples.get? id).isSome = true →
    ∃ root row a, Relation.ReflTransGen s.Points id root ∧ s.samples.get? root = some row ∧
      row.fingerprint = .hash a ∧ s.usageResolve id = some (root, row.contribution)

/-! ## The samples collectors produce -/

/-- A sample under a request id carries no other name, one under a message id at
most one request id. -/
def Collected (isRequest : String → Bool) (sample : Sample) : Prop :=
  if isRequest sample.sourceId then sample.aliases = []
  else sample.aliases.length ≤ 1 ∧ ∀ name ∈ sample.aliases, isRequest name = true

instance (isRequest : String → Bool) (sample : Sample) :
    Decidable (Collected isRequest sample) := by
  unfold Collected
  infer_instance

/-- A transaction of the collectors: a fold is only ever part of another. -/
def Op.Collects (isRequest : String → Bool) (op : Op) : Prop :=
  ¬ op.loose ∧ ∀ one ∈ op.samples, Collected isRequest one.1

theorem Op.Collects.given {isRequest : String → Bool} {op : Op} (h : op.Collects isRequest)
    {source name : String} (hgiven : op.given source name) :
    isRequest source = false ∧ isRequest name = true := by
  have hcarries : Carries op.samples source name := by
    cases op with
    | ingest | telemetry => exact hgiven
    | _ => exact hgiven.elim
  obtain ⟨one, hone, rfl, hname⟩ := hcarries
  have hone := h.2 one hone
  unfold Collected at hone
  split at hone
  · rw [hone] at hname
    cases hname
  · next hsource => exact ⟨by simpa using hsource, hone.2 name hname⟩

/-! ## Where pointers lead -/

/-- A request row points at a message row of its own name; a message row points
at such a row or at a request row, whatever that has become. -/
structure Named (isRequest : String → Bool) (s : Usage) : Prop where
  bare : ∀ id target row, s.samples.get? id = some row → row.fingerprint = .standsFor target →
    row.contribution = none
  request : ∀ id target, isRequest id = true → s.Points id target →
    isRequest target = false ∧ s.Own target
  message : ∀ id target, isRequest id = false → s.Points id target →
    s.Own target ∨ (isRequest target = true ∧ (s.samples.get? target).isSome = true)

/-- What rows are like after a write, by what they were like before. -/
theorem points_congr {s s' : Usage}
    (h : ∀ id, (s'.samples.get? id).map (·.fingerprint) = (s.samples.get? id).map (·.fingerprint)) :
    (∀ id target, s'.Points id target ↔ s.Points id target) ∧ (∀ id, s'.Own id ↔ s.Own id) ∧
      ∀ id, (s'.samples.get? id).isSome = (s.samples.get? id).isSome := by
  have hmem : ∀ (s : Usage) (id : String) (fp : Fingerprint),
      (∃ row, s.samples.get? id = some row ∧ row.fingerprint = fp) ↔
        (s.samples.get? id).map (·.fingerprint) = some fp := by
    intro s id fp
    rw [Option.map_eq_some_iff]
  refine ⟨fun id target => ?_, fun id => ?_, fun id => ?_⟩
  · rw [Points, Points, hmem, hmem, h]
  · have hown : ∀ s : Usage, s.Own id ↔
        ∃ a, (s.samples.get? id).map (·.fingerprint) = some (.hash a) := by
      intro s
      constructor
      · intro ⟨row, a, hget, hfp⟩
        exact ⟨a, (hmem s id _).mp ⟨row, hget, hfp⟩⟩
      · intro ⟨a, ha⟩
        obtain ⟨row, hget, hfp⟩ := (hmem s id _).mpr ha
        exact ⟨row, a, hget, hfp⟩
    rw [hown, hown, h]
  · have := congrArg Option.isSome (h id)
    rwa [Option.isSome_map, Option.isSome_map] at this

namespace Named

variable {isRequest : String → Bool} {s : Usage}

variable {row : SampleRow} {id target : String} {given : String → String → Prop} {s' : Usage}

theorem isSome_insertRow (h : (s.samples.get? id).isSome = true) :
    ((s.insertRow row).samples.get? id).isSome = true := by
  rw [get?_insertRow]
  split
  · rfl
  · exact h

theorem empty : Usage.empty.Named isRequest where
  bare id target row hget := by cases hget
  request id target _ hp := by
    obtain ⟨_, hget, -⟩ := hp
    cases hget
  message id target _ hp := by
    obtain ⟨_, hget, -⟩ := hp
    cases hget

section

variable (h : s.Named isRequest)
include h

/-- A write that leaves every fingerprint, and gives no pointing row a
contribution. -/
theorem of_fingerprints (hfp : ∀ id, (s'.samples.get? id).map (·.fingerprint) =
      (s.samples.get? id).map (·.fingerprint))
    (hbare : ∀ id target row, s'.samples.get? id = some row → row.fingerprint = .standsFor target →
      row.contribution = none) : s'.Named isRequest := by
  obtain ⟨hpoints, hown, hsome⟩ := points_congr hfp
  refine ⟨hbare, fun id target hid hp => ?_, fun id target hid hp => ?_⟩
  · obtain ⟨hkind, ho⟩ := h.request id target hid ((hpoints id target).mp hp)
    exact ⟨hkind, (hown target).mpr ho⟩
  · refine (h.message id target hid ((hpoints id target).mp hp)).imp (hown target).mpr ?_
    intro ⟨hkind, hs⟩
    exact ⟨hkind, (hsome target).trans hs⟩

theorem of_sameBooks (hbooks : SameBooks s s') : s'.Named isRequest := by
  refine h.of_fingerprints (fun id => by rw [hbooks.samples]) ?_
  rw [hbooks.samples]
  exact h.bare

/-- A contribution changed in a row that holds one. -/
theorem setContribution {c : Contribution} {c' : Option Contribution}
    (hs' : ∀ other, s'.samples.get? other = (s.samples.get? other).map (rewrite id (fun f => f) c'))
    (hrow : s.samples.get? id = some row) (hc : row.contribution = some c) :
    s'.Named isRequest := by
  have hkept : ∀ r, (rewrite id (fun f => f) c' r).fingerprint = r.fingerprint := by
    intro r
    unfold rewrite
    split <;> rfl
  refine h.of_fingerprints (fun other => ?_) fun other target r hget hfp => ?_
  · rw [hs', Option.map_map]
    exact Option.map_congr fun r _ => hkept r
  · rw [hs'] at hget
    obtain ⟨r₀, hr₀, rfl⟩ := Option.map_eq_some_iff.mp hget
    rw [hkept] at hfp
    have hne : r₀.sourceId ≠ id := by
      intro heq
      have hsame : r₀ = row := by
        rw [← sourceId_of_get? hr₀, heq, hrow] at hr₀
        exact (Option.some.inj hr₀).symm
      have := h.bare other target r₀ hr₀ hfp
      rw [hsame, hc] at this
      cases this
    rw [rewrite_other hne]
    exact h.bare other target r₀ hr₀ hfp

theorem writeUsageBucket (bucket : Bucket) (value : Aggregate) :
    (s.writeUsageBucket bucket value).Named isRequest := by
  refine h.of_fingerprints (fun id => by rw [writeUsageBucket_samples]) ?_
  rw [writeUsageBucket_samples]
  exact h.bare

/-- A row put in under a free name, pointing where it may. -/
theorem insertRow (hfresh : s.samples.get? row.sourceId = none)
    (hbare : ∀ target, row.fingerprint = .standsFor target → row.contribution = none)
    (hpoints : ∀ target, row.fingerprint = .standsFor target →
      s.Own target ∧ (isRequest row.sourceId = true → isRequest target = false)) :
    (s.insertRow row).Named isRequest := by
  have hold : ∀ id target, (s.insertRow row).Points id target →
      (id = row.sourceId ∧ row.fingerprint = .standsFor target) ∨ s.Points id target := by
    intro id target hp
    obtain ⟨r, hget, hfp⟩ := hp
    rw [get?_insertRow] at hget
    split at hget
    · next heq =>
      cases hget
      exact .inl ⟨heq.symm, hfp⟩
    · exact .inr ⟨r, hget, hfp⟩
  refine ⟨fun id target r hget hfp => ?_, fun id target hid hp => ?_, fun id target hid hp => ?_⟩
  · rw [get?_insertRow] at hget
    split at hget
    · cases hget
      exact hbare target hfp
    · exact h.bare id target r hget hfp
  · rcases hold id target hp with ⟨rfl, hfp⟩ | hp
    · obtain ⟨hown, hkind⟩ := hpoints target hfp
      exact ⟨hkind hid, hown.insertRow hfresh⟩
    · obtain ⟨hkind, hown⟩ := h.request id target hid hp
      exact ⟨hkind, hown.insertRow hfresh⟩
  · rcases hold id target hp with ⟨rfl, hfp⟩ | hp
    · exact .inl ((hpoints target hfp).1.insertRow hfresh)
    · refine (h.message id target hid hp).imp (fun hown => hown.insertRow hfresh) ?_
      intro hkept
      exact ⟨hkept.1, isSome_insertRow hkept.2⟩

/-- A request row comes to point at a message row of its own name. -/
theorem setAlias {keep : String}
    (hs' : ∀ other, s'.samples.get? other =
      (s.samples.get? other).map (rewrite id (fun _ => .standsFor keep) none))
    (hid : isRequest id = true) (hkeep : isRequest keep = false) (hown : s.Own keep) :
    s'.Named isRequest := by
  have hsome : ∀ other, (s'.samples.get? other).isSome = (s.samples.get? other).isSome := by
    intro other
    rw [hs', Option.isSome_map]
  have hstays : ∀ other, other ≠ id → s.Own other → s'.Own other := by
    intro other hne hown
    rw [Own, hs', map_rewrite_other hne]
    exact hown
  have hne : keep ≠ id := fun heq => by
    rw [heq, hid] at hkeep
    cases hkeep
  have hold : ∀ other target, s'.Points other target →
      (other = id ∧ target = keep) ∨ (other ≠ id ∧ s.Points other target) := by
    rintro other _ ⟨r, hget, hfp⟩
    rw [hs'] at hget
    by_cases hother : other = id
    · obtain ⟨_, hr₀, rfl⟩ := Option.map_eq_some_iff.mp hget
      rw [rewrite_same ((sourceId_of_get? hr₀).trans hother)] at hfp
      exact .inl ⟨hother, (Fingerprint.standsFor.inj hfp).symm⟩
    · rw [map_rewrite_other hother] at hget
      exact .inr ⟨hother, r, hget, hfp⟩
  refine ⟨fun other target r hget hfp => ?_, fun other target ho hp => ?_,
    fun other target ho hp => ?_⟩
  · rw [hs'] at hget
    obtain ⟨r₀, hr₀, rfl⟩ := Option.map_eq_some_iff.mp hget
    by_cases hr : r₀.sourceId = id
    · rw [rewrite_same hr]
    · rw [rewrite_other hr] at hfp ⊢
      exact h.bare other target r₀ hr₀ hfp
  · rcases hold other target hp with ⟨-, rfl⟩ | ⟨-, hp⟩
    · exact ⟨hkeep, hstays _ hne hown⟩
    · obtain ⟨hkind, ht⟩ := h.request other target ho hp
      refine ⟨hkind, hstays target (fun heq => ?_) ht⟩
      rw [heq, hid] at hkind
      cases hkind
  · rcases hold other target hp with ⟨rfl, -⟩ | ⟨-, hp⟩
    · rw [hid] at ho
      cases ho
    · -- a row that pointed at `id` points at a request row still
      rcases h.message other target ho hp with ht | ⟨hkind, hs⟩
      · by_cases heq : target = id
        · obtain ⟨_, _, hget, -⟩ := ht
          exact .inr ⟨heq ▸ hid, by rw [hsome, hget]; rfl⟩
        · exact .inl (hstays target heq ht)
      · exact .inr ⟨hkind, (hsome target).trans hs⟩

theorem prune (requested : Time) (sweep : Sweep) :
    (s.pruneUsage requested sweep).Named isRequest := by
  refine h.of_fingerprints (fun id => ?_) fun id target r hr hfp => ?_
  · rw [get?_pruneUsage, Option.map_map]
    exact Option.map_congr fun r _ => prunedRow_fingerprint _ sweep r
  · rw [get?_pruneUsage] at hr
    obtain ⟨r₀, hr₀, rfl⟩ := Option.map_eq_some_iff.mp hr
    rw [prunedRow_fingerprint] at hfp
    unfold prunedRow
    split
    · rfl
    · exact h.bare id target r₀ hr₀ hfp

section

variable
    (hgiven : ∀ source name, given source name → isRequest source = false ∧ isRequest name = true)
include hgiven

theorem posting (hposting : Posting given False s s') : s'.Named isRequest := by
  cases hposting with
  | aside hbooks => exact h.of_sameBooks hbooks
  | name hfresh hown hg =>
    refine h.insertRow hfresh (fun _ _ => rfl) fun target heq => ?_
    cases heq
    exact ⟨hown, fun _ => (hgiven _ _ hg).1⟩
  | replay hfresh hg hresolve =>
    refine h.insertRow hfresh (fun _ _ => rfl) fun target heq => ?_
    cases heq
    obtain ⟨row, a, hrow, hfp, -⟩ := resolveWithin_row hresolve
    refine ⟨⟨row, a, hrow, hfp⟩, fun hname => ?_⟩
    rw [(hgiven _ _ hg).1] at hname
    cases hname
  | record hfresh => exact h.insertRow hfresh (fun _ _ => rfl) nofun
  | @count _ _ _ c value hfresh =>
    have hwritten := h.writeUsageBucket c.bucket value
    exact hwritten.insertRow (by rw [writeUsageBucket_samples]; exact hfresh)
      nofun nofun
  | price hrow hc =>
    exact h.setContribution (fun other => by
      rw [get?_setContribution, writeUsageBucket_samples]) hrow hc
  | join _ _ hrule =>
    obtain ⟨hg, -, hkeep⟩ := hrule.resolve_right id
    exact h.setAlias (fun other => get?_setAlias s _ _ other) (hgiven _ _ hg).2
      (hgiven _ _ hg).1 hkeep
  | fold _ _ _ hrule =>
    obtain ⟨hg, -, hkeep⟩ := hrule.resolve_right id
    exact h.setAlias (fun other => by rw [get?_setAlias, writeUsageBucket_samples])
      (hgiven _ _ hg).2 (hgiven _ _ hg).1 hkeep
  | move hrow hc =>
    exact h.setContribution (fun other => by
      rw [moveTo, get?_setContribution, writeUsageBucket_samples, writeUsageBucket_samples]) hrow hc
  | settle hrow hc =>
    exact h.setContribution (fun other => get?_setContribution s _ other _) hrow hc
  | prune => exact h.prune _ _

theorem postings (hpostings : Postings given False s s') : s'.Named isRequest := by
  induction hpostings with
  | refl => exact h
  | tail _ hposting ih => exact ih.posting hgiven hposting

end

theorem step {op : Op} (hop : op.Collects isRequest) :
    (s.step op).Named isRequest := by
  have hpostings := step_postings s op
  rw [eq_false hop.1] at hpostings
  exact h.postings (fun _ _ => hop.given) hpostings

end

/-! ## The forest -/

open Classical in
/-- How far a row can be from its root. -/
noncomputable def rank (isRequest : String → Bool) (s : Usage) (id : String) : Nat :=
  if s.Own id then 0 else if isRequest id then 1 else 2

theorem not_own_of_points (hp : s.Points id target) : ¬ s.Own id := by
  intro ⟨row', a, hget', hfp'⟩
  obtain ⟨_, hget, hfp⟩ := hp
  rw [hget] at hget'
  cases hget'
  rw [hfp] at hfp'
  cases hfp'

theorem rank_lt_four : rank isRequest s id < 4 := by
  unfold rank
  split
  · omega
  · split <;> omega

variable (h : s.Named isRequest)
include h

theorem rank_lt (hp : s.Points id target) : rank isRequest s target < rank isRequest s id := by
  have hid := not_own_of_points hp
  cases hkind : isRequest id with
  | true =>
    obtain ⟨-, hown⟩ := h.request id target hkind hp
    simp [rank, hid, hkind, hown]
  | false =>
    rcases h.message id target hkind hp with hown | ⟨htarget, -⟩
    · simp [rank, hid, hkind, hown]
    · simp only [rank, hid, hkind, htarget, if_true, if_false, Bool.false_eq_true]
      split <;> omega

theorem acyclic (id : String) : ¬ Relation.TransGen s.Points id id := by
  have hdown : ∀ a b, Relation.TransGen s.Points a b → rank isRequest s b < rank isRequest s a := by
    intro a b hab
    induction hab with
    | single hp => exact h.rank_lt hp
    | tail _ hp ih => exact (h.rank_lt hp).trans ih
  intro hcycle
  exact Nat.lt_irrefl _ (hdown id id hcycle)

/-- The end of a pointer is a row. -/
theorem isSome_of_points (hp : s.Points id target) : (s.samples.get? target).isSome = true := by
  have hown : s.Own target → (s.samples.get? target).isSome = true := by
    intro ⟨row, a, hget, _⟩
    rw [hget]
    rfl
  cases hkind : isRequest id with
  | true => exact hown (h.request id target hkind hp).2
  | false => exact (h.message id target hkind hp).elim hown (·.2)

/-- With more steps than its rank a name is followed to its root. -/
theorem resolveWithin_root (n : Nat) :
    ∀ id, rank isRequest s id < n → (s.samples.get? id).isSome = true →
      ∃ root row a, Relation.ReflTransGen s.Points id root ∧ s.samples.get? root = some row ∧
        row.fingerprint = .hash a ∧ s.resolveWithin n id = some (root, row.contribution) := by
  induction n with
  | zero => intro id hlt
            omega
  | succ _ ih =>
    intro id hlt hsome
    obtain ⟨row, hget⟩ := Option.isSome_iff_exists.mp hsome
    cases hfp : row.fingerprint with
    | hash a => exact ⟨id, row, a, .refl, hget, hfp, by simp only [resolveWithin, hget, hfp]⟩
    | standsFor target =>
      have hp : s.Points id target := ⟨row, hget, hfp⟩
      have hrank := h.rank_lt hp
      obtain ⟨root, r, a, hpath, hroot, hr, hresolve⟩ :=
        ih target (by omega) (h.isSome_of_points hp)
      exact ⟨root, r, a, .head hp hpath, hroot, hr, by
        simp only [resolveWithin, hget, hfp, hresolve]⟩

theorem namesResolve : s.NamesResolve where
  acyclic := h.acyclic
  bare := h.bare
  resolves id hsome := h.resolveWithin_root 4 id rank_lt_four hsome

end Named

/-- However the collectors' samples come and share request ids, every name that
has a row leads to the one row that holds the accounting. -/
theorem collected_names_resolve (isRequest : String → Bool) (ops : List Op)
    (hops : ∀ op ∈ ops, op.Collects isRequest) : Always step NamesResolve Usage.empty ops := by
  have hnamed : Always step (Named isRequest) Usage.empty ops :=
    always_of_each (C := fun _ op => op.Collects isRequest) Named.empty
      (fun s op h hop => h.step hop) (Each.of_mem hops)
  exact hnamed.imp fun _ h => h.namesResolve

/-- Two messages share a request: the second is known by itself, the request is
counted, the first is seen to be that request, and last the second. -/
def sharedRequest : List Op :=
  let seen (name : String) (aliases : List String) : Op :=
    .ingest (fun _ _ => true) ⟨fun _ => false, fun _ => false, fun _ => false⟩
      ⟨[(⟨name, "claude", "claude-jsonl", "s", 0, none, none, { inputTokens := some 1 },
        .response, false, none, none, aliases⟩, {})], [], 0, 0⟩ true
  [seen "msg2" [], seen "req" [], seen "msg1" ["req"], seen "msg2" ["req"]]

theorem collected_names_resolve_shared : (∀ op ∈ sharedRequest, op.Collects (· == "req")) ∧
      Always step NamesResolve Usage.empty sharedRequest ∧
      ((sharedRequest.foldl step Usage.empty).usageResolve "msg1").map (·.1) = some "msg2" := by
  have hcollects : ∀ op ∈ sharedRequest, op.Collects (· == "req") := by
    simp [sharedRequest, Op.Collects, Op.loose, Op.samples, Collected]
  exact ⟨hcollects, collected_names_resolve _ _ hcollects, by decide +kernel⟩

end AgentDocker.Store.Usage
