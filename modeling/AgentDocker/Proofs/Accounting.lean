import AgentDocker.Lib.Runs
import AgentDocker.Lib.Totals
import AgentDocker.Proofs.Aggregates
import AgentDocker.Proofs.Postings

/-!
# A bucket is the sum of its contributions

Above the retained boundary every bucket is what its contributions add up to,
and every contribution has its bucket. Below it the two tables are pruned each
at its own pace, and nothing is said.

The invariant is an equation for every figure of every bucket: what the bucket
reads is the total over the rows. One posting changes both sides alike.
-/

namespace AgentDocker.Store.Usage

open AgentDocker.Core Lib

/-- The bucket is not below the boundary. -/
def Retains (s : Usage) (b : Bucket) : Prop :=
  ∀ since, s.retainedSince = some since → since ≤ b.hour

/-- What the retained contributions to a bucket are. -/
def contributions (s : Usage) (b : Bucket) : List Contribution :=
  (s.samples.rows.filterMap (·.contribution)).filter fun c => decide (c.bucket = b)

/-- The aggregate of a list of contributions, counted afresh. -/
def recount (cs : List Contribution) : Except String Aggregate :=
  cs.foldlM (fun a c => a.addPriced c.counters c.exact c.costUsdMicros) .empty

/-- Every bucket the boundary leaves is the recount of its contributions, and no
contribution to such a bucket lacks it. -/
def Conserves (s : Usage) : Prop :=
  ∀ b, s.Retains b → (∀ a, s.buckets.get b = some a → recount (s.contributions b) = .ok a) ∧
      (s.contributions b ≠ [] → (s.buckets.get b).isSome = true)

/-! ## Figures over rows -/

/-- What a contribution adds to its bucket. -/
def weight (m : Measure) (c : Contribution) : Nat := weigh c.counters c.exact c.costUsdMicros m

/-- What a row's contribution adds to `b`. -/
def adds (b : Bucket) (m : Measure) (c : Option Contribution) : Nat :=
  c.elim 0 fun c => if c.bucket = b then weight m c else 0

/-- What the rows add up to in `b`. -/
def figure (s : Usage) (b : Bucket) (m : Measure) : Nat :=
  totalOf (fun row => adds b m row.contribution) s.samples.rows

variable {a value : Aggregate} {b : Bucket} {c : Contribution} {cs : List Contribution} {s : Usage}

theorem figure_insertRow {row : SampleRow} (hfresh : s.samples.get? row.sourceId = none)
    {m : Measure} : (s.insertRow row).figure b m = s.figure b m + adds b m row.contribution := by
  have h : (s.insertRow row).figure b m +
      ((s.samples.get? row.sourceId).map fun row => adds b m row.contribution).getD 0 =
        s.figure b m + adds b m row.contribution := s.samples.totalOf_insert row
  rw [hfresh] at h
  exact h

/-- Rewriting one row exchanges what it added for what it adds now. -/
theorem figure_rewrite (s' : Usage) {id : String} (row : SampleRow) {f : Fingerprint → Fingerprint}
    {c : Option Contribution}
    (hs' : s'.samples = s.samples.update (rewrite id f c) (rewrite_sourceId id f c))
    (hrow : s.samples.get? id = some row) (b : Bucket) (m : Measure) :
    s'.figure b m + adds b m row.contribution = s.figure b m + adds b m c := by
  have h : totalOf (fun row => adds b m row.contribution)
      (s.samples.update (rewrite id f c) (rewrite_sourceId id f c)).rows +
        ((s.samples.get? id).map fun row => adds b m row.contribution).getD 0 =
      s.figure b m + (((s.samples.get? id).map (rewrite id f c)).map fun row =>
          adds b m row.contribution).getD 0 :=
    Keyed.totalOf_update fun _ hne => rewrite_other hne
  simp only [hrow, Option.map_some, Option.getD_some, rewrite_same (sourceId_of_get? hrow)] at h
  unfold figure at h ⊢
  rw [hs']
  exact h

/-! ## Buckets -/

/-- What a stored aggregate always is. -/
structure Sound (a : Aggregate) : Prop where
  knows : a.exact.isSome = true
  valid : a.Valid
  bounded : a.Bounded

/-- A sample taken out of a bucket leaves one as good. -/
theorem Sound.removed {a' : Aggregate} (h : Sound a) (hexact : c.exact.isSome = true)
    (hremove : a.removePriced c.counters c.exact c.costUsdMicros = .ok a') :
    Sound a' ∧ ∀ m, a.read m = a'.read m + weight m c := by
  obtain ⟨hknows, hvalid, hread⟩ := Aggregate.removePriced_ok h.knows hexact hremove
  refine ⟨⟨hknows, hvalid, fun m => ?_⟩, hread⟩
  have := h.bounded m
  have := hread m
  omega

/-- And so does one put into it. -/
theorem Sound.added {a' : Aggregate} (h : Sound a) (hexact : c.exact.isSome = true)
    (hadd : a.addPriced c.counters c.exact c.costUsdMicros = .ok a') :
    Sound a' ∧ ∀ m, a'.read m = a.read m + weight m c := by
  obtain ⟨hknows, hvalid, hread, hbounded⟩ :=
    Aggregate.addPriced_ok h.knows h.valid h.bounded hexact hadd
  exact ⟨⟨hknows, hvalid, hbounded⟩, hread⟩

theorem sound_empty : Sound .empty where
  knows := rfl
  valid := Aggregate.empty_valid
  bounded m := by
    rw [Aggregate.read_empty]
    decide

theorem get_writeUsageBucket {b' : Bucket} :
    (s.writeUsageBucket b value).buckets.get b' =
      if b' = b then (if value.samples = 0 then none else some value) else s.buckets.get b' := by
  unfold writeUsageBucket
  split
  · exact Map.get_remove
  · exact Map.get_set

theorem read_writeUsageBucket (hvalid : value.Valid) {b' : Bucket} {m : Measure} :
    ((s.writeUsageBucket b value).usageBucket b').read m =
      if b' = b then value.read m else (s.usageBucket b').read m := by
  unfold usageBucket
  rw [get_writeUsageBucket]
  by_cases hb : b' = b
  · rw [if_pos hb, if_pos hb]
    by_cases hzero : value.samples = 0
    · rw [if_pos hzero, Aggregate.read_eq_zero hvalid hzero]
      exact Aggregate.read_empty m
    · rw [if_neg hzero, Option.getD_some]
  · rw [if_neg hb, if_neg hb]

/-- A bucket rewritten so that it gives back what one contribution added and
takes what another adds; the other buckets are as they were. -/
theorem exchange_writeUsageBucket (s : Usage) (bucket : Bucket) (old new : Option Contribution)
    (hvalid : value.Valid) (hold : ∀ c, old = some c → c.bucket = bucket)
    (hnew : ∀ c, new = some c → c.bucket = bucket)
    (hread : ∀ m, value.read m + old.elim 0 (weight m) =
      (s.usageBucket bucket).read m + new.elim 0 (weight m)) (b : Bucket) (m : Measure) :
    ((s.writeUsageBucket bucket value).usageBucket b).read m + adds b m old =
      (s.usageBucket b).read m + adds b m new := by
  have hadds : ∀ o : Option Contribution, (∀ c, o = some c → c.bucket = bucket) →
      adds b m o = if b = bucket then o.elim 0 (weight m) else 0 := by
    intro o ho
    cases o with
    | none => simp [adds]
    | some c =>
      rw [← ho c rfl]
      simp only [adds, Option.elim_some, eq_comm]
  rw [read_writeUsageBucket hvalid, hadds old hold, hadds new hnew]
  by_cases hb : b = bucket
  · subst hb
    rw [if_pos rfl, if_pos rfl, if_pos rfl]
    exact hread m
  · rw [if_neg hb, if_neg hb, if_neg hb]

/-! ## The invariant -/

/-- No bucket is stored empty. -/
def Filled (s : Usage) : Prop := ∀ b a, s.buckets.get b = some a → 0 < a.samples ∧ Sound a

/-- A contribution of that time counts in the bucket of its hour. -/
def Dated (time : Time) (c : Contribution) : Prop :=
  c.exact.isSome = true ∧ c.bucket.hour = hour time

structure Accounted (s : Usage) : Prop where
  stored : s.Filled
  rows : ∀ id row c, s.samples.get? id = some row → row.contribution = some c → Dated row.time c
  conserved : ∀ b, s.Retains b → ∀ m, (s.usageBucket b).read m = s.figure b m

namespace Accounted

variable {value : Aggregate} {b : Bucket} {c : Contribution} {loose : Prop} {row : SampleRow}
  {given : String → String → Prop} {sweep : Sweep} {s s' : Usage}

section

variable (h : s.Accounted)
include h

theorem sound_usageBucket (b : Bucket) : Sound (s.usageBucket b) := by
  unfold usageBucket
  cases hget : s.buckets.get b with
  | none => exact sound_empty
  | some a => exact (h.stored b a hget).2

omit h in
theorem filled_write (h : s.Filled) (hsound : Sound value) :
    (s.writeUsageBucket b value).Filled := by
  intro b' a hget
  rw [get_writeUsageBucket] at hget
  split at hget
  · split at hget
    · cases hget
    next hne =>
    cases hget
    exact ⟨Nat.pos_of_ne_zero hne, hsound⟩
  · exact h b' a hget

/-- The equation, kept by a write that exchanges one contribution for another on
both its sides. -/
theorem conserved_of_exchange (old new : Option Contribution)
    (hsince : s'.retainedSince = s.retainedSince) (hbuckets : ∀ b m,
      (s'.usageBucket b).read m + adds b m old = (s.usageBucket b).read m + adds b m new)
    (hfigure : ∀ b m, s'.figure b m + adds b m old = s.figure b m + adds b m new) :
    ∀ b, s'.Retains b → ∀ m, (s'.usageBucket b).read m = s'.figure b m := by
  intro b hb m
  have hretains : s.Retains b := fun since hs => hb since (hsince.trans hs)
  have := h.conserved b hretains m
  have := hbuckets b m
  have := hfigure b m
  omega

/-- A row put in, and its contribution into its bucket. -/
theorem inserted (row : SampleRow) (hfresh : s.samples.get? row.sourceId = none)
    (hsamples : s'.samples = s.samples.insert row) (hsince : s'.retainedSince = s.retainedSince)
    (hstored : s'.Filled) (hrow : ∀ c, row.contribution = some c → Dated row.time c)
    (hbuckets : ∀ b m, (s'.usageBucket b).read m =
      (s.usageBucket b).read m + adds b m row.contribution) : s'.Accounted where
  stored := hstored
  rows id r c hget hc := by
    rw [hsamples, Keyed.get?_insert] at hget
    split at hget
    · cases hget
      exact hrow c hc
    · exact h.rows id r c hget hc
  conserved := h.conserved_of_exchange none row.contribution hsince hbuckets fun b m => by
    rw [← figure_insertRow hfresh, figure, hsamples]
    rfl

variable {id : String}

/-- A row rewritten, and what it held exchanged for what it holds. -/
theorem rewritten {f : Fingerprint → Fingerprint} {new : Option Contribution}
    (hrow : s.samples.get? id = some row)
    (hsamples : s'.samples = s.samples.update (rewrite id f new) (rewrite_sourceId id f new))
    (hsince : s'.retainedSince = s.retainedSince) (hstored : s'.Filled)
    (hnew : ∀ c, new = some c → Dated row.time c)
    (hbuckets : ∀ b m, (s'.usageBucket b).read m + adds b m row.contribution =
      (s.usageBucket b).read m + adds b m new) :
    s'.Accounted where
  stored := hstored
  rows other r c hget hr := by
    rw [hsamples, Keyed.get?_update] at hget
    obtain ⟨r₀, hr₀, rfl⟩ := Option.map_eq_some_iff.mp hget
    by_cases hid : r₀.sourceId = id
    · rw [rewrite_same hid] at hr ⊢
      rw [← sourceId_of_get? hr₀, hid, hrow] at hr₀
      cases hr₀
      exact hnew c hr
    · rw [rewrite_other hid] at hr ⊢
      exact h.rows other r₀ c hr₀ hr
  conserved := h.conserved_of_exchange row.contribution new hsince hbuckets
    (figure_rewrite s' row hsamples hrow)

theorem of_sameBooks (hbooks : SameBooks s s') : s'.Accounted where
  stored b a hget := h.stored b a (hbooks.buckets ▸ hget)
  rows id row c hrow := h.rows id row c (hbooks.samples ▸ hrow)
  conserved b hb m := by
    have hretains : s.Retains b := fun since hs => hb since (hbooks.retainedSince.trans hs)
    have := h.conserved b hretains m
    unfold usageBucket figure at *
    rw [hbooks.buckets, hbooks.samples]
    exact this

/-- A row without a contribution changes no figure. -/
theorem insertRow (hfresh : s.samples.get? row.sourceId = none)
    (hnone : row.contribution = none) : (s.insertRow row).Accounted := by
  refine h.inserted row hfresh rfl rfl h.stored (fun c hc => ?_) fun b m => ?_
  · rw [hnone] at hc
    cases hc
  · rw [hnone]
    rfl

theorem count {name : String} {a : Sample} {time : Time} (hfresh : s.samples.get? name = none)
    (hexact : c.exact.isSome = true) (hhour : c.bucket.hour = hour time)
    (hadd : (s.usageBucket c.bucket).addPriced c.counters c.exact c.costUsdMicros = .ok value) :
    ((s.writeUsageBucket c.bucket value).insertRow ⟨name, .hash a, time, some c⟩).Accounted := by
  obtain ⟨hsound, hread⟩ := (h.sound_usageBucket c.bucket).added hexact hadd
  refine h.inserted ⟨name, .hash a, time, some c⟩ hfresh ?_ ?_ (filled_write h.stored hsound)
    (fun c' hc' => ?_) ?_
  · rw [Usage.insertRow, writeUsageBucket_samples]
  · rw [Usage.insertRow, writeUsageBucket_retainedSince]
  · cases hc'
    exact ⟨hexact, hhour⟩
  · exact exchange_writeUsageBucket s _ none _ hsound.valid (by simp) (by simp) hread

section

variable (hrow : s.samples.get? id = some row)
include hrow

theorem price {cost : Nat} (hc : row.contribution = some c) (hunpriced : c.costUsdMicros = none)
    (hprice : (s.usageBucket c.bucket).price cost = .ok value) :
    ((s.writeUsageBucket c.bucket value).setContribution id
      (some { c with costUsdMicros := some cost })).Accounted := by
  have hbucket := h.sound_usageBucket c.bucket
  obtain ⟨hexact, hvalid, hread, hbounded⟩ := Aggregate.price_ok hprice
  refine h.rewritten hrow (by rw [Usage.setContribution, writeUsageBucket_samples])
    (writeUsageBucket_retainedSince ..)
    (filled_write h.stored ⟨hexact ▸ hbucket.knows, hvalid, hbounded hbucket.bounded⟩)
    (fun c' hc' => ?_) ?_
  · cases hc'
    exact h.rows id row c hrow hc
  · rw [hc]
    refine exchange_writeUsageBucket s _ _ _ hvalid (by simp) (by simp) fun m => ?_
    have hweight : weight m { c with costUsdMicros := some cost } =
        weight m c + weighPrice cost m := by
      unfold weight
      rw [hunpriced]
      exact weigh_priced c.counters c.exact cost m
    rw [Option.elim_some, Option.elim_some, hread, hweight]
    omega

theorem join {keep : String} (hnone : row.contribution = none) : (s.setAlias id keep).Accounted :=
  h.rewritten hrow rfl rfl h.stored (by simp) fun b m => by
    rw [hnone]
    rfl

theorem fold {keep : String} (hc : row.contribution = some c)
    (hremove : (s.usageBucket c.bucket).removePriced c.counters c.exact c.costUsdMicros =
      .ok value) :
    ((s.writeUsageBucket c.bucket value).setAlias id keep).Accounted := by
  obtain ⟨hsound, hread⟩ :=
    (h.sound_usageBucket c.bucket).removed (h.rows id row c hrow hc).1 hremove
  refine h.rewritten hrow (by rw [setAlias, writeUsageBucket_samples])
    (writeUsageBucket_retainedSince ..) (filled_write h.stored hsound) (by simp) ?_
  rw [hc]
  exact exchange_writeUsageBucket s _ _ _ hsound.valid (by simp) (by simp) fun m => (hread m).symm

end

omit h in
theorem usageBucket_write_other {b' : Bucket} (hne : b' ≠ b) :
    (s.writeUsageBucket b value).usageBucket b' = s.usageBucket b' := by
  unfold usageBucket
  rw [get_writeUsageBucket, if_neg hne]

theorem move {to_ : Bucket} {own : Bool} {next previous : Aggregate}
    (hrow : s.samples.get? id = some row) (hc : row.contribution = some c) (hne : to_ ≠ c.bucket)
    (hhour : to_.hour = c.bucket.hour)
    (hadd : (s.usageBucket to_).addPriced c.counters c.exact c.costUsdMicros = .ok next)
    (hremove : (s.usageBucket c.bucket).removePriced c.counters c.exact c.costUsdMicros =
      .ok previous) :
    (s.moveTo id c to_ own next previous).Accounted := by
  have hexact := (h.rows id row c hrow hc).1
  obtain ⟨hprevious, hgiven⟩ := (h.sound_usageBucket c.bucket).removed hexact hremove
  obtain ⟨hnext, htaken⟩ := (h.sound_usageBucket to_).added hexact hadd
  refine h.rewritten hrow
    (by rw [moveTo, Usage.setContribution, writeUsageBucket_samples, writeUsageBucket_samples])
    (by simp [moveTo, Usage.setContribution])
    (filled_write (filled_write h.stored hprevious) hnext) (fun c' hc' => ?_) fun b m => ?_
  · cases hc'
    exact ⟨hexact, hhour.trans (h.rows id row c hrow hc).2⟩
  · have hfirst := exchange_writeUsageBucket s c.bucket (some c) none hprevious.valid
      (by simp) (by simp) (fun m => (hgiven m).symm) b m
    have hread : ∀ m, next.read m =
        ((s.writeUsageBucket c.bucket previous).usageBucket to_).read m + weight m c := by
      rw [usageBucket_write_other hne]
      exact htaken
    have hsecond := exchange_writeUsageBucket (s.writeUsageBucket c.bucket previous) to_ none
      (some { c with bucket := to_, parent := if own then none else c.parent })
      hnext.valid (by simp) (by simp) hread b m
    show (((s.writeUsageBucket c.bucket previous).writeUsageBucket to_ next).usageBucket b).read m +
      _ = _
    rw [hc]
    omega

theorem settle (hrow : s.samples.get? id = some row) (hc : row.contribution = some c) :
    (s.setContribution id (some { c with parent := none })).Accounted := by
  refine h.rewritten hrow rfl rfl h.stored (fun c' hc' => ?_) fun b m => ?_
  · cases hc'
    exact h.rows id row c hrow hc
  · rw [hc]
    rfl

omit h in
theorem le_later_left {a b : Int} : a ≤ later a b := by
  unfold later
  split <;> omega

omit h in
/-- The boundary only moves on. -/
theorem retains_of_pruned {requested : Time} (h : (s.pruneUsage requested sweep).Retains b) :
    s.Retains b ∧ s.usageRetainedSince requested ≤ b.hour := by
  have hle : s.usageRetainedSince requested ≤ b.hour := h _ rfl
  refine ⟨fun since hs => Int.le_trans ?_ hle, hle⟩
  rw [usageRetainedSince, hs]
  exact le_later_left

/-- What is let go was made before the boundary, so it was in a bucket before
it. -/
theorem adds_prunedRow (hrow : row ∈ s.samples) {since : Time} (hb : since ≤ b.hour) (m : Measure) :
    adds b m (prunedRow since sweep row).contribution = adds b m row.contribution := by
  unfold prunedRow
  split
  · next hold =>
    have hold : row.time < since := by
      rw [Bool.and_eq_true, decide_eq_true_eq] at hold
      exact hold.1
    cases hc : row.contribution with
    | none => rfl
    | some c =>
      have hhour := (h.rows row.sourceId row c (Keyed.get?_eq_some.mpr ⟨hrow, rfl⟩) hc).2
      have hne : c.bucket ≠ b := by
        intro heq
        rw [heq] at hhour
        have hle : (b.hour : Int) ≤ row.time := hhour ▸ hour_le row.time
        exact absurd (Int.lt_of_lt_of_le (Int.lt_of_le_of_lt hle hold) hb) (Int.lt_irrefl _)
      simp [adds, hne]
  · rfl

theorem prune (requested : Time) (sweep : Sweep) : (s.pruneUsage requested sweep).Accounted where
  stored b a hget := by
    have hget : (s.buckets.retain fun bucket _ => !(bucket.hour < s.usageRetainedSince requested &&
        sweep.buckets bucket)).get b = some a := hget
    rw [Map.get_retain, Option.filter_eq_some_iff] at hget
    exact h.stored b a hget.1
  rows id row c hget hc := by
    have hget : (s.samples.update (prunedRow (s.usageRetainedSince requested) sweep)
        (prunedRow_sourceId _ sweep)).get? id = some row := hget
    rw [Keyed.get?_update] at hget
    obtain ⟨row₀, hrow₀, rfl⟩ := Option.map_eq_some_iff.mp hget
    have htime : (prunedRow (s.usageRetainedSince requested) sweep row₀).time = row₀.time := by
      unfold prunedRow
      split <;> rfl
    rw [htime]
    unfold prunedRow at hc
    split at hc
    · cases hc
    · exact h.rows id row₀ c hrow₀ hc
  conserved b hb m := by
    obtain ⟨hretains, hle⟩ := retains_of_pruned hb
    have hbucket : (s.pruneUsage requested sweep).usageBucket b = s.usageBucket b := by
      unfold usageBucket pruneUsage
      have hnot : ¬ b.hour < s.usageRetainedSince requested := Int.not_lt.mpr hle
      simp only [Map.get_retain]
      cases s.buckets.get b with
      | none => rfl
      | some => rw [Option.filter_some_pos (by simp [hnot])]
    have hfigure : (s.pruneUsage requested sweep).figure b m = s.figure b m := by
      unfold figure pruneUsage
      simp only [Keyed.update, totalOf_map]
      exact totalOf_congr fun row hrow => h.adds_prunedRow hrow hle m
    rw [hbucket, hfigure]
    exact h.conserved b hretains m

/-- No posting leaves the books out of balance. -/
theorem posting (hposting : Posting given loose s s') : s'.Accounted := by
  cases hposting with
  | aside hbooks => exact h.of_sameBooks hbooks
  | name hfresh | replay hfresh | record hfresh => exact h.insertRow hfresh rfl
  | count hfresh hexact hhour hadd => exact h.count hfresh hexact hhour hadd
  | price hrow hc hunpriced hprice => exact h.price hrow hc hunpriced hprice
  | join hrow hnone => exact h.join hrow hnone
  | fold hrow hc hremove => exact h.fold hrow hc hremove
  | move hrow hc hne hhour hadd hremove => exact h.move hrow hc hne hhour hadd hremove
  | settle hrow hc => exact h.settle hrow hc
  | prune => exact h.prune _ _

theorem postings (hpostings : Postings given loose s s') : s'.Accounted := by
  induction hpostings with
  | refl => exact h
  | tail _ hposting ih => exact ih.posting hposting

end

theorem empty : Usage.empty.Accounted where
  stored b a hget := by cases hget
  rows id row c hget := by cases hget
  conserved b _ m := Aggregate.read_empty m

end Accounted

/-! ## Counting afresh -/

/-- Contributions whose figures fit are counted without a refusal, whatever their
order. -/
theorem foldlM_addPriced (ha : Sound a) (hexact : ∀ c ∈ cs, c.exact.isSome = true)
    (hfits : ∀ m, a.read m + totalOf (weight m) cs < u64Bound) :
    ∃ a', cs.foldlM (fun a c => a.addPriced c.counters c.exact c.costUsdMicros) a = .ok a' ∧
      Sound a' ∧ ∀ m, a'.read m = a.read m + totalOf (weight m) cs := by
  induction cs generalizing a with
  | nil => exact ⟨a, rfl, ha, fun m => rfl⟩
  | cons c rest ih =>
    have hc := hexact c List.mem_cons_self
    have hfits' : ∀ m, a.read m + weigh c.counters c.exact c.costUsdMicros m < u64Bound := by
      intro m
      have := hfits m
      rw [totalOf_cons] at this
      unfold weight at this
      omega
    obtain ⟨a₁, hadd⟩ := Aggregate.exists_addPriced ha.knows ha.valid hc hfits'
    obtain ⟨ha₁, hread⟩ := ha.added hc hadd
    have hsum : ∀ m, a₁.read m + totalOf (weight m) rest =
        a.read m + totalOf (weight m) (c :: rest) := by
      intro m
      rw [hread, totalOf_cons]
      omega
    obtain ⟨a', hfold, hsound, hread'⟩ := ih ha₁
      (fun c hc => hexact c (List.mem_cons_of_mem _ hc)) fun m => hsum m ▸ hfits m
    refine ⟨a', ?_, hsound, fun m => (hread' m).trans (hsum m)⟩
    rw [List.foldlM_cons, hadd]
    exact hfold

/-- A figure over the rows is that over the contributions they hold. -/
theorem figure_eq {m : Measure} : s.figure b m = totalOf (weight m) (s.contributions b) := by
  unfold figure contributions
  induction s.samples.rows with
  | nil => rfl
  | cons row _ ih =>
    rw [totalOf_cons, ih]
    cases hc : row.contribution with
    | none =>
      rw [List.filterMap_cons_none hc]
      simp [adds]
    | some c =>
      rw [List.filterMap_cons_some hc]
      by_cases hb : c.bucket = b
      · rw [List.filter_cons_of_pos (by simpa using hb), totalOf_cons]
        simp [adds, hb]
      · rw [List.filter_cons_of_neg (by simpa using hb)]
        simp [adds, hb]

theorem Accounted.exact_of_mem (h : s.Accounted) (hc : c ∈ s.contributions b) :
    c.exact.isSome = true := by
  obtain ⟨hmem, -⟩ := List.mem_filter.mp hc
  obtain ⟨row, hrow, hcon⟩ := List.mem_filterMap.mp hmem
  exact (h.rows row.sourceId row c (Keyed.get?_eq_some.mpr ⟨hrow, rfl⟩) hcon).1

/-- A bucket that reads what contributions add up to is their recount. -/
theorem Accounted.recount_of_read (h : s.Accounted) (hexact : ∀ c ∈ cs, c.exact.isSome = true)
    (hread : ∀ m, (s.usageBucket b).read m = totalOf (weight m) cs) :
    (∀ a, s.buckets.get b = some a → recount cs = .ok a) ∧
      (cs ≠ [] → (s.buckets.get b).isSome = true) := by
  constructor
  · intro a hget
    have hbucket : s.usageBucket b = a := by rw [usageBucket, hget, Option.getD_some]
    rw [hbucket] at hread
    have hsound := (h.stored b a hget).2
    have hfits : ∀ m, Aggregate.empty.read m + totalOf (weight m) cs < u64Bound := by
      intro m
      rw [Aggregate.read_empty, Nat.zero_add, ← hread]
      exact hsound.bounded m
    obtain ⟨_, hfold, hsound', hread'⟩ := foldlM_addPriced sound_empty hexact hfits
    refine hfold.trans (congrArg Except.ok
      (Aggregate.eq_of_read hsound'.knows hsound.knows fun m => ?_))
    rw [hread', hread, Aggregate.read_empty, Nat.zero_add]
  · intro hne
    by_contra hnone
    have hempty : s.usageBucket b = .empty := by
      rw [usageBucket, Option.not_isSome_iff_eq_none.mp hnone, Option.getD_none]
    have hzero := hread .samples
    rw [hempty, Aggregate.read_empty] at hzero
    obtain ⟨c, _, hcs⟩ := List.exists_cons_of_ne_nil hne
    have hone : weight .samples c = 1 := rfl
    rw [hcs, totalOf_cons, hone] at hzero
    omega

theorem Accounted.conserves (h : s.Accounted) : s.Conserves := fun b hb =>
  h.recount_of_read (fun _ hc => h.exact_of_mem hc) fun m =>
    (h.conserved b hb m).trans figure_eq

/-- In every state the store reaches, in whatever order its transactions come and
whichever of them fail, every bucket at or after the boundary is the aggregate
of the retained contributions that name it, and no such contribution is without
its bucket. -/
theorem usage_conserved (ops : List Op) : Always step Conserves Usage.empty ops :=
  (always_of_invariant Accounted.empty fun s op h => h.postings (step_postings s op)).imp
    fun _ h => h.conserves

end AgentDocker.Store.Usage
