import AgentDocker.Store.Topics

/-!
# What a subscriber is replayed is its own

Two logs that agree on what a subscriber may see give it the same replay,
whatever else is in them. A topic nobody wrote for it contributes nothing, and
of the others only rows it may see are counted and offered, so the bounds are
filled by these alone.

Retention is per topic and project. A group's messages go by their age and by
how many newer ones the group has, and neither asks about other groups. The
budget of one prune does: other projects' traffic can use it up. But a prune
only ever removes what the group would lose anyway, so once there is nothing
left to remove, each group has what it would have had alone. `survivors` is
that, and no prune changes it.
-/

namespace AgentDocker.Store.Topics

open AgentDocker.Core Lib Keyed

/-- Two logs that a subscriber cannot tell apart. -/
structure Agree (scope : Option ProjectId) (reader : Option AgentId) (s s' : Topics) : Prop where
  messages : ∀ m, Topic.visible m.project scope = true → (m ∈ s.messages ↔ m ∈ s'.messages)
  cursors : ∀ m ∈ s.messages, Topic.visible m.project scope = true → ∀ agent, reader = some agent →
    s.cursors.get? (agent, m.topic) = s'.cursors.get? (agent, m.topic)

theorem rows_nodup {t : Keyed TopicMessage.seq} : t.rows.Nodup := t.nodup.of_map

/-- Rows that two tables share come in the same order. -/
theorem sortBy_filter_congr {t t' : Keyed TopicMessage.seq} {p : TopicMessage → Bool}
    (h : ∀ m, p m = true → (m ∈ t ↔ m ∈ t')) :
    sortBy TopicMessage.seq (t.rows.filter p) = sortBy TopicMessage.seq (t'.rows.filter p) := by
  have hperm : (t.rows.filter p).Perm (t'.rows.filter p) := by
    refine (List.perm_ext_iff_of_nodup (rows_nodup.filter p) (rows_nodup.filter p)).mpr ?_
    intro m
    rw [List.mem_filter, List.mem_filter]
    exact and_congr_left fun hp => h m hp
  refine sortBy_eq_of_perm (hperm.trans (sortBy_perm _ _).symm) (pairwise_lt_sortBy ?_)
  exact t'.nodup.sublist (List.filter_sublist.map _)

/-! ## Replay -/

variable {groups : List ((String × Option ProjectId) × Nat)} {seqs : List Nat} {seq : Nat}
  {reader : Option AgentId} {b : ReplayBound} {topic : String} {m : TopicMessage}

/-- The rows read are those the reader may see. -/
theorem visible_of_waits {start : Nat} {scope : Option ProjectId}
    (h : waits topic start scope m = true) :
    m.topic = topic ∧ Topic.visible m.project scope = true := by
  simp only [waits, Bool.and_eq_true, decide_eq_true_eq] at h
  refine ⟨h.1.1, ?_⟩
  cases hproject : m.project with
  | none => rfl
  | some =>
    cases scope with
    | none => rfl
    | some => simpa [hproject, Topic.visible] using h.2

variable {s s' : Topics} {r : ReplayRequest}

theorem pending_congr (h : Agree r.scope r.reader s s') {start : Nat} :
    s.pending topic start r.scope = s'.pending topic start r.scope := by
  have hsame := sortBy_filter_congr (p := waits topic start r.scope) fun m hm =>
    h.messages m (visible_of_waits hm).2
  have hlength := congrArg List.length hsame
  rwa [(sortBy_perm _ _).length_eq, (sortBy_perm _ _).length_eq] at hlength

theorem newest_congr (h : Agree r.scope r.reader s s') {start limit : Nat} :
    s.newest topic start r.scope limit = s'.newest topic start r.scope limit := by
  unfold newest
  rw [sortBy_filter_congr fun m hm => h.messages m (visible_of_waits hm).2]

/-- Whether a topic has something the reader may see. -/
def hasVisible (s : Topics) (scope : Option ProjectId) (topic : String) : Bool :=
  s.messages.rows.any fun m => decide (m.topic = topic) && Topic.visible m.project scope

theorem hasVisible_iff {scope : Option ProjectId} :
    s.hasVisible scope topic = true ↔
      ∃ m ∈ s.messages, m.topic = topic ∧ Topic.visible m.project scope = true := by
  simp [hasVisible, mem_def]

theorem hasVisible_congr (h : Agree r.scope r.reader s s') (topic : String) :
    s.hasVisible r.scope topic = s'.hasVisible r.scope topic := by
  rw [Bool.eq_iff_iff, hasVisible_iff, hasVisible_iff]
  refine exists_congr fun m => ?_
  constructor
  · rintro ⟨hm, htopic, hvisible⟩
    exact ⟨(h.messages m hvisible).mp hm, htopic, hvisible⟩
  · rintro ⟨hm, htopic, hvisible⟩
    exact ⟨(h.messages m hvisible).mpr hm, htopic, hvisible⟩

/-- A topic with nothing for the reader is passed over. -/
theorem visit_of_not_visible (h : s.hasVisible r.scope topic ≠ true) {bound : ReplayBound} :
    s.visit r bound topic = bound := by
  unfold visit
  split
  · rfl
  next start _ =>
  have hnone : s.pending topic (sqlSeq start) r.scope = 0 := by
    refine List.length_eq_zero_iff.mpr (List.filter_eq_nil_iff.mpr fun m hm hwaits => h ?_)
    exact hasVisible_iff.mpr ⟨m, hm, visible_of_waits hwaits⟩
  rw [hnone, if_neg (Nat.lt_irrefl 0)]

theorem visit_congr (h : Agree r.scope r.reader s s') (htopic : s.hasVisible r.scope topic = true)
    (bound : ReplayBound) :
    s.visit r bound topic = s'.visit r bound topic := by
  obtain ⟨m, hm, rfl, hvisible⟩ := hasVisible_iff.mp htopic
  have hstart : s.startsAt r m.topic = s'.startsAt r m.topic := by
    unfold startsAt
    cases hreader : r.reader with
    | none => rfl
    | some agent =>
      rw [Option.bind_some, Option.bind_some, h.cursors m hm hvisible agent hreader]
  unfold visit
  rw [hstart]
  simp only [pending_congr h, newest_congr h]

/-- The topics that matter, in order. -/
theorem topics_congr (h : Agree r.scope r.reader s s') :
    (distinct (s.messages.rows.map TopicMessage.topic)).filter (s.hasVisible r.scope) =
      (distinct (s'.messages.rows.map TopicMessage.topic)).filter (s'.hasVisible r.scope) := by
  have hin : ∀ (s : Topics) (topic : String),
      topic ∈ (distinct (s.messages.rows.map TopicMessage.topic)).filter (s.hasVisible r.scope) ↔
        s.hasVisible r.scope topic = true := by
    intro s topic
    rw [List.mem_filter, mem_distinct]
    refine and_iff_right_of_imp fun hvisible => ?_
    obtain ⟨m, hm, htopic, -⟩ := hasVisible_iff.mp hvisible
    exact List.mem_map.mpr ⟨m, hm, htopic⟩
  refine eq_of_mem_iff ((distinct_pairwise _).filter _) ((distinct_pairwise _).filter _) ?_
  intro topic
  rw [hin, hin, hasVisible_congr h]

/-- Reading every topic comes to reading those with something for the reader. -/
theorem foldl_visit (s : Topics) (r : ReplayRequest) (topics : List String) {bound : ReplayBound} :
    topics.foldl (s.visit r) bound =
      (topics.filter (s.hasVisible r.scope)).foldl (s.visit r) bound := by
  induction topics generalizing bound with
  | nil => rfl
  | cons topic _ ih =>
    by_cases hvisible : s.hasVisible r.scope topic = true
    · rw [List.filter_cons_of_pos hvisible, List.foldl_cons, List.foldl_cons, ih]
    · rw [List.filter_cons_of_neg hvisible, List.foldl_cons, visit_of_not_visible hvisible, ih]

theorem topicReplayPlan_congr (h : Agree r.scope r.reader s s') :
    s.topicReplayPlan r = s'.topicReplayPlan r := by
  unfold topicReplayPlan
  split
  · rfl
  · dsimp only
    rw [seekAll_eq, seekAll_eq, foldl_visit s, foldl_visit s', topics_congr h]
    refine congrArg ReplayBound.finish (List.foldl_ext _ _ _ fun bound topic htopic => ?_)
    refine visit_congr h ?_ bound
    rw [hasVisible_congr h]
    exact (List.mem_filter.mp htopic).2

/-! ## The messages themselves -/

/-- Everything held so far is a message the reader may see. -/
def Held (s : Topics) (scope : Option ProjectId) (seqs : List Nat) : Prop :=
  ∀ seq ∈ seqs, ∃ m ∈ s.messages, m.seq = seq ∧ Topic.visible m.project scope = true

variable {scope : Option ProjectId}

theorem Held.offer (h : s.Held scope b.kept) (hseq : s.Held scope [seq]) :
    s.Held scope (b.offer seq).2.kept := by
  unfold ReplayBound.offer
  split
  · exact h
  · split
    · exact h
    next kept hroom =>
    have hsub : ∀ n ∈ kept, n ∈ b.kept := by
      unfold ReplayBound.room at hroom
      split at hroom
      · obtain ⟨_, -, hroom⟩ := Option.bind_eq_some_iff.mp hroom
        split at hroom
        · cases hroom
          exact fun n hn => List.mem_of_mem_erase hn
        · cases hroom
      · cases hroom
        exact fun n hn => hn
    intro n hn
    rcases List.mem_cons.mp hn with rfl | hn
    · exact hseq n (List.mem_singleton_self n)
    · exact h n (hsub n hn)

theorem Held.offerAll (h : s.Held scope b.kept) (hseqs : s.Held scope seqs) :
    s.Held scope (b.offerAll seqs).kept := by
  induction seqs generalizing b with
  | nil => exact h
  | cons _ _ ih =>
    have hone := h.offer fun n hn => hseqs n (List.mem_singleton.mp hn ▸ List.mem_cons_self)
    unfold ReplayBound.offerAll
    dsimp only
    split
    · exact ih hone fun n hn => hseqs n (List.mem_cons_of_mem _ hn)
    · exact hone

theorem held_newest {start limit : Nat} : s.Held scope (s.newest topic start scope limit) := by
  intro seq hseq
  obtain ⟨m, hm, rfl⟩ := List.mem_map.mp hseq
  have hm := (sortBy_perm _ _).mem_iff.mp (List.mem_reverse.mp (List.mem_of_mem_take hm))
  obtain ⟨hm, hwaits⟩ := List.mem_filter.mp hm
  exact ⟨m, hm, rfl, (visible_of_waits hwaits).2⟩

theorem Held.visit (h : s.Held r.scope b.kept) (topic : String) :
    s.Held r.scope (s.visit r b topic).kept := by
  unfold Topics.visit
  split
  · exact h
  · dsimp only
    split
    · exact Held.offerAll (b := b.topic _) h held_newest
    · exact h

/-- What is replayed is what the reader may see. -/
theorem held_plan (s : Topics) (r : ReplayRequest) : s.Held r.scope (s.topicReplayPlan r).seqs := by
  unfold topicReplayPlan
  split
  · simp [Held]
  · dsimp only
    rw [seekAll_eq]
    have hfold : s.Held r.scope
        ((distinct (s.messages.rows.map TopicMessage.topic)).foldl (s.visit r)
          (.new r.perTopic r.total)).kept :=
      List.foldlRecOn _ _ (motive := fun b : ReplayBound => s.Held r.scope b.kept)
        (by simp [Held, ReplayBound.new]) fun b h topic _ => h.visit topic
    intro seq hseq
    exact hfold seq ((sortBy_perm _ _).mem_iff.mp hseq)

theorem get?_congr (h : Agree scope r.reader s s') (hseq : s.Held scope [seq]) :
    ∃ m, s.messages.get? seq = some m ∧ s'.messages.get? seq = some m := by
  obtain ⟨m, hm, rfl, hvisible⟩ := hseq seq (List.mem_singleton_self seq)
  exact ⟨m, get?_eq_some.mpr ⟨hm, rfl⟩, get?_eq_some.mpr ⟨(h.messages m hvisible).mp hm, rfl⟩⟩

/-- Reading messages that are there reads them all, in both logs alike. -/
theorem mapM_congr (h : Agree r.scope r.reader s s') (hseqs : s.Held r.scope seqs) : ∃ messages,
      (seqs.mapM fun seq => (s.messages.get? seq).map fun m => (seq, m.json)) = some messages ∧
      (seqs.mapM fun seq => (s'.messages.get? seq).map fun m => (seq, m.json)) = some messages := by
  induction seqs with
  | nil => exact ⟨[], rfl, rfl⟩
  | cons seq _ ih =>
    obtain ⟨m, hm, hm'⟩ := get?_congr h fun n hn =>
      hseqs n (List.mem_singleton.mp hn ▸ List.mem_cons_self)
    obtain ⟨messages, hrest, hrest'⟩ := ih fun n hn => hseqs n (List.mem_cons_of_mem _ hn)
    refine ⟨(seq, m.json) :: messages, ?_, ?_⟩
    · rw [List.mapM_cons, hm, hrest]
      rfl
    · rw [List.mapM_cons, hm', hrest']
      rfl

theorem topicReplay_congr (h : Agree r.scope r.reader s s') :
    ∃ replay, s.topicReplay r = some replay ∧ s'.topicReplay r = some replay := by
  obtain ⟨messages, hs, hs'⟩ := mapM_congr h (s.held_plan r)
  refine ⟨(messages, (s.topicReplayPlan r).skipped), ?_, ?_⟩
  · unfold topicReplay
    dsimp only
    rw [hs]
    rfl
  · unfold topicReplay
    dsimp only
    rw [← topicReplayPlan_congr h, hs']
    rfl

/-! ## Retention -/

variable {cutoff : Option String} {limit budget : Nat} {group : String × Option ProjectId}

/-- What a group has that is not too old, oldest first. -/
def fresh (cutoff : Option String) (s : Topics) (group : String × Option ProjectId) :
    List TopicMessage :=
  (s.inGroup group).filter fun m => !tooOld cutoff m

/-- What a group keeps in the end: the newest of those not too old. -/
def survivors (cutoff : Option String) (limit : Nat) (s : Topics)
    (group : String × Option ProjectId) : List TopicMessage :=
  (s.fresh cutoff group).drop ((s.fresh cutoff group).length - limit)

theorem mem_inGroup : m ∈ s.inGroup group ↔ m ∈ s.messages ∧ m.group = group := by
  rw [inGroup, (sortBy_perm _ _).mem_iff, List.mem_filter, decide_eq_true_eq]
  rfl

theorem nodup_inGroup : ((s.inGroup group).map TopicMessage.seq).Nodup := by
  rw [inGroup, ((sortBy_perm _ _).map _).nodup_iff]
  exact s.messages.nodup.sublist (List.filter_sublist.map _)

/-- What is deleted by number leaves its group, and the rest stays in order. -/
theorem inGroup_delete (seqs : List Nat) : (s.delete seqs).2.inGroup group =
      (s.inGroup group).filter fun m => decide (m.seq ∉ seqs) := by
  unfold inGroup
  rw [filter_sortBy_eq (s.messages.nodup.sublist (List.filter_sublist.map _))]
  refine congrArg (sortBy TopicMessage.seq) ?_
  show (s.messages.rows.filter _).filter _ = _
  rw [List.filter_filter, List.filter_filter]
  exact List.filter_congr fun m _ => Bool.and_comm ..

/-- Deleting rows of other groups leaves a group. -/
theorem inGroup_delete_other {gone : List TopicMessage} (hgone : ∀ m ∈ gone, m ∈ s.messages)
    (hother : ∀ m ∈ gone, m.group ≠ group) :
    (s.delete (gone.map TopicMessage.seq)).2.inGroup group = s.inGroup group := by
  rw [inGroup_delete, List.filter_eq_self]
  intro m hm
  obtain ⟨hm, hgroup⟩ := mem_inGroup.mp hm
  refine decide_eq_true fun hmem => ?_
  obtain ⟨d, hd, heq⟩ := List.mem_map.mp hmem
  rw [eq_of_key_eq (hgone d hd) hm heq] at hd
  exact hother m hd hgroup

/-- Rows told apart by number, without the first few. -/
theorem filter_not_mem_take {l : List TopicMessage} (h : (l.map TopicMessage.seq).Nodup) {n : Nat} :
    l.filter (fun m => decide (m.seq ∉ (l.take n).map TopicMessage.seq)) = l.drop n := by
  have hsplit := List.take_append_drop n l
  have hdisjoint : ∀ m ∈ l.drop n, m.seq ∉ (l.take n).map TopicMessage.seq := by
    intro m hm hmem
    rw [← hsplit, List.map_append] at h
    exact (List.nodup_append.mp h).2.2 _ hmem _ (List.mem_map_of_mem hm) rfl
  calc l.filter (fun m => decide (m.seq ∉ (l.take n).map TopicMessage.seq))
      = (l.take n ++ l.drop n).filter
        fun m => decide (m.seq ∉ (l.take n).map TopicMessage.seq) := by
        rw [hsplit]
    _ = l.drop n := by
        rw [List.filter_append, List.filter_eq_nil_iff.mpr, List.filter_eq_self.mpr,
          List.nil_append]
        · exact fun m hm => decide_eq_true (hdisjoint m hm)
        · exact fun m hm => by simpa using List.mem_map_of_mem hm

theorem fresh_delete_old {gone : List TopicMessage} (hgone : ∀ m ∈ gone, m ∈ s.messages)
    (hold : ∀ m ∈ gone, tooOld cutoff m = true) :
    (s.delete (gone.map TopicMessage.seq)).2.fresh cutoff group = s.fresh cutoff group := by
  unfold fresh
  rw [inGroup_delete, List.filter_filter]
  refine List.filter_congr fun m hm => ?_
  cases hm' : tooOld cutoff m with
  | true => rfl
  | false =>
    refine decide_eq_true fun hmem => ?_
    obtain ⟨d, hd, heq⟩ := List.mem_map.mp hmem
    have hsame := eq_of_key_eq (hgone d hd) (mem_inGroup.mp hm).1 heq
    rw [← hsame, hold d hd] at hm'
    cases hm'

theorem fresh_of_no_old (h : ∀ m ∈ s.messages, tooOld cutoff m = false) :
    s.fresh cutoff group = s.inGroup group :=
  List.filter_eq_self.mpr fun m hm => by rw [h m (mem_inGroup.mp hm).1, Bool.not_false]

/-- The rows the old ones are chosen from. -/
def expiring (cutoff : Option String) (budget : Nat) (s : Topics) : List TopicMessage :=
  (sortBy TopicMessage.seq (s.messages.rows.filter (tooOld cutoff))).take budget

theorem mem_expiring (h : m ∈ s.expiring cutoff budget) : m ∈ s.messages ∧ tooOld cutoff m = true :=
  List.mem_filter.mp ((sortBy_perm _ _).mem_iff.mp (List.mem_of_mem_take h))

theorem survivors_expire (budget : Nat) :
    (s.expire cutoff budget).store.survivors cutoff limit group =
      s.survivors cutoff limit group := by
  have hfresh : (s.expire cutoff budget).store.fresh cutoff group = s.fresh cutoff group :=
    fresh_delete_old (fun m hm => (mem_expiring hm).1)
      fun m hm => (mem_expiring hm).2
  unfold survivors
  rw [hfresh]

/-- Where budget is left, nothing old is. -/
theorem no_old_of_budget (h : (s.expire cutoff budget).budget ≠ 0) :
    ∀ m ∈ (s.expire cutoff budget).store.messages, tooOld cutoff m = false := by
  intro m hm
  obtain ⟨hm, hstays⟩ := mem_filter.mp hm
  refine Bool.eq_false_iff.mpr fun hold => ?_
  have hmem : m ∈ sortBy TopicMessage.seq (s.messages.rows.filter (tooOld cutoff)) :=
    (sortBy_perm _ _).mem_iff.mpr (List.mem_filter.mpr ⟨hm, hold⟩)
  have hall : s.expiring cutoff budget =
      sortBy TopicMessage.seq (s.messages.rows.filter (tooOld cutoff)) := by
    refine List.take_of_length_le ?_
    replace h : budget - ((s.expiring cutoff budget).map TopicMessage.seq).length ≠ 0 := h
    rw [List.length_map, expiring, List.length_take] at h
    omega
  refine of_decide_eq_true hstays (List.mem_map_of_mem ?_)
  show m ∈ s.expiring cutoff budget
  rwa [hall]

/-! ### Groups that have too many -/

variable {p : Pruning} {g : (String × Option ProjectId) × Nat}

/-- A group that is relieved loses its oldest, and others lose nothing. -/
theorem inGroup_relieve (h : p.budget ≠ 0) : (relieve limit p g).store.inGroup group =
      if group = g.1 then (p.store.inGroup group).drop (min (g.2 - limit) p.budget)
      else p.store.inGroup group := by
  unfold relieve
  rw [if_neg h]
  split
  · next heq =>
    rw [inGroup_delete, heq]
    exact filter_not_mem_take nodup_inGroup
  next hne =>
  refine inGroup_delete_other (fun m hm => ?_) fun m hm heq => hne ?_
  · exact (mem_inGroup.mp (List.mem_of_mem_take hm)).1
  · rw [← heq]
    exact (mem_inGroup.mp (List.mem_of_mem_take hm)).2

theorem mem_relieve (hm : m ∈ (relieve limit p g).store.messages) : m ∈ p.store.messages := by
  unfold relieve at hm
  split at hm
  · exact hm
  · exact (mem_filter.mp hm).1

theorem relieve_of_budget (h : p.budget = 0) : relieve limit p g = p := by
  rw [relieve, if_pos h]

theorem survivors_relieve (hold : ∀ m ∈ p.store.messages, tooOld cutoff m = false)
    (hcount : g.2 = (p.store.inGroup g.1).length) :
    (relieve limit p g).store.survivors cutoff limit group =
      p.store.survivors cutoff limit group := by
  by_cases hbudget : p.budget = 0
  · rw [relieve_of_budget hbudget]
  · unfold survivors
    rw [fresh_of_no_old hold, fresh_of_no_old fun m hm => hold m (mem_relieve hm),
      inGroup_relieve hbudget]
    split
    · next heq =>
      rw [hcount, heq, List.drop_drop, List.length_drop]
      refine congrArg (fun n => (p.store.inGroup g.1).drop n) ?_
      omega
    · rfl

/-- The groups come once each, with as many messages as they have. -/
structure Counted (s : Topics) (groups : List ((String × Option ProjectId) × Nat)) : Prop where
  nodup : (groups.map Prod.fst).Nodup
  count : ∀ g ∈ groups, g.2 = (s.inGroup g.1).length

theorem Counted.relieve {rest : List ((String × Option ProjectId) × Nat)}
    (h : Counted p.store (g :: rest)) : Counted (relieve limit p g).store rest := by
  obtain ⟨hnew, hnodup⟩ := List.nodup_cons.mp (List.map_cons ▸ h.nodup)
  refine ⟨hnodup, fun g' hg' => ?_⟩
  rw [h.count g' (List.mem_cons_of_mem _ hg')]
  by_cases hbudget : p.budget = 0
  · rw [relieve_of_budget hbudget]
  · rw [inGroup_relieve hbudget, if_neg]
    exact fun heq => hnew (heq ▸ List.mem_map_of_mem hg')

theorem counted_crowded (s : Topics) (limit : Nat) : Counted s (s.crowded limit) := by
  have hfst : ∀ l : List (String × Option ProjectId),
      (l.map fun group => (group, (s.inGroup group).length)).map Prod.fst = l := by
    intro l
    rw [List.map_map]
    exact List.map_id _
  constructor
  · refine List.Nodup.sublist (List.filter_sublist.map _) ?_
    rw [hfst, (sortBy_perm _ _).nodup_iff]
    exact List.nodup_dedup _
  · intro g hg
    obtain ⟨_, -, rfl⟩ := List.mem_map.mp (List.mem_filter.mp hg).1
    rfl

theorem survivors_foldl (hold : ∀ m ∈ p.store.messages, tooOld cutoff m = false)
    (h : Counted p.store groups) :
    (groups.foldl (relieve limit) p).store.survivors cutoff limit group =
      p.store.survivors cutoff limit group := by
  induction groups generalizing p with
  | nil => rfl
  | cons g _ ih =>
    rw [List.foldl_cons, ih (fun m hm => hold m (mem_relieve hm)) h.relieve,
      survivors_relieve hold (h.count g List.mem_cons_self)]

theorem foldl_relieve_of_budget (h : p.budget = 0) : groups.foldl (relieve limit) p = p := by
  induction groups with
  | nil => rfl
  | cons _ _ ih => rw [List.foldl_cons, relieve_of_budget h, ih]

/-! ### A prune -/

variable {batch : Nat}

/-- No prune changes what a group keeps in the end. -/
theorem survivors_prune :
    (s.pruneTopicMessages cutoff limit batch).2.survivors cutoff (sqlSeq limit) group =
      s.survivors cutoff (sqlSeq limit) group := by
  unfold pruneTopicMessages
  generalize sqlSeq batch = budget
  dsimp only
  refine Eq.trans ?_ (survivors_expire budget)
  by_cases hbudget : (s.expire cutoff budget).budget = 0
  · rw [foldl_relieve_of_budget hbudget]
  · exact survivors_foldl (no_old_of_budget hbudget) (counted_crowded _ _)

theorem survivors_pruned {n : Nat} :
    (pruned cutoff limit batch n s).survivors cutoff (sqlSeq limit) group =
      s.survivors cutoff (sqlSeq limit) group := by
  induction n generalizing s with
  | zero => rfl
  | succ _ ih => rw [pruned, ih, survivors_prune]

theorem removed_le_foldl (groups : List ((String × Option ProjectId) × Nat)) :
    p.removed ≤ (groups.foldl (relieve limit) p).removed := by
  induction groups generalizing p with
  | nil => exact Nat.le_refl _
  | cons _ _ ih =>
    refine le_trans ?_ ih
    unfold relieve
    split
    · exact Nat.le_refl _
    · exact Nat.le_add_right _ _

/-- What is chosen to be deleted is there to be deleted. -/
theorem delete_fst_pos (s : Topics) (gone : List TopicMessage) (hgone : ∀ m ∈ gone, m ∈ s.messages)
    (hne : gone ≠ []) : 0 < (s.delete (gone.map TopicMessage.seq)).1 := by
  obtain ⟨m, hm⟩ := List.exists_mem_of_ne_nil gone hne
  refine List.length_pos_of_mem (List.mem_filter.mpr ⟨hgone m hm, ?_⟩)
  exact decide_eq_true (List.mem_map_of_mem hm)

theorem relieve_removes (hbudget : p.budget ≠ 0) (hcount : g.2 = (p.store.inGroup g.1).length)
    (hover : limit < g.2) : p.removed < (relieve limit p g).removed := by
  have hpos := delete_fst_pos p.store
    ((p.store.inGroup g.1).take (min (g.2 - limit) p.budget))
    (fun m hm => (mem_inGroup.mp (List.mem_of_mem_take hm)).1) fun hnil => by
      have hlength := congrArg List.length hnil
      rw [List.length_take, ← hcount, List.length_nil] at hlength
      omega
  unfold relieve
  rw [if_neg hbudget]
  dsimp only
  omega

theorem length_le_of_crowded (h : s.crowded limit = []) : (s.inGroup group).length ≤ limit := by
  rcases hgroup : s.inGroup group with _ | ⟨m, _⟩
  · exact Nat.zero_le _
  · rw [← hgroup]
    have hm : m ∈ s.inGroup group := hgroup ▸ List.mem_cons_self
    obtain ⟨hm, hg⟩ := mem_inGroup.mp hm
    have hmem : (group, (s.inGroup group).length) ∈
        (sortBy groupKey (s.messages.rows.map TopicMessage.group).dedup).map fun group =>
          (group, (s.inGroup group).length) := by
      refine List.mem_map.mpr ⟨group, (sortBy_perm _ _).mem_iff.mpr (List.mem_dedup.mpr ?_), rfl⟩
      exact List.mem_map.mpr ⟨m, hm, hg⟩
    have hsmall := List.filter_eq_nil_iff.mp h _ hmem
    simpa using hsmall

/-- When a prune removes nothing, there is nothing old and no group has too many. -/
theorem inGroup_of_done (hbatch : sqlSeq batch ≠ 0) (h : Done cutoff limit batch s) :
    s.inGroup group = s.survivors cutoff (sqlSeq limit) group := by
  unfold Done pruneTopicMessages at h
  generalize sqlSeq batch = budget at hbatch h
  generalize sqlSeq limit = limit at h ⊢
  dsimp only at h
  have hexpire : (s.expire cutoff budget).removed = 0 :=
    Nat.le_zero.mp (h ▸ removed_le_foldl _)
  have hnone : s.expiring cutoff budget = [] := by
    by_contra hne
    exact (delete_fst_pos s _ (fun m hm => (mem_expiring hm).1) hne).ne' hexpire
  have hleft : (s.expire cutoff budget).budget = budget := by
    show budget - ((s.expiring cutoff budget).map TopicMessage.seq).length = budget
    rw [hnone]
    rfl
  have hbudget : (s.expire cutoff budget).budget ≠ 0 := by
    rwa [hleft]
  have hgroups : (s.expire cutoff budget).store.crowded limit = [] := by
    rcases hcrowded : (s.expire cutoff budget).store.crowded limit with _ | ⟨g, rest⟩
    · rfl
    · have hcounted := counted_crowded (s.expire cutoff budget).store limit
      have hover : limit < g.2 := by
        have hg : g ∈ (s.expire cutoff budget).store.crowded limit := hcrowded ▸ List.mem_cons_self
        simpa using (List.mem_filter.mp hg).2
      rw [hcrowded] at h hcounted
      have hone := relieve_removes hbudget (hcounted.count g List.mem_cons_self) hover
      have hmore : _ ≤ (List.foldl (relieve limit) (s.expire cutoff budget) (g :: rest)).removed :=
        removed_le_foldl rest
      omega
  have hsame : (s.expire cutoff budget).store.inGroup group = s.inGroup group := by
    show (s.delete ((s.expiring cutoff budget).map TopicMessage.seq)).2.inGroup group = _
    rw [inGroup_delete, hnone]
    exact List.filter_eq_self.mpr fun m _ => rfl
  have hlength : ((s.expire cutoff budget).store.inGroup group).length ≤ limit :=
    length_le_of_crowded hgroups
  rw [← survivors_expire budget, survivors, fresh_of_no_old (no_old_of_budget hbudget),
    Nat.sub_eq_zero_of_le hlength, List.drop_zero, hsame]

theorem delete_nil : s.delete [] = (0, s) := by
  unfold delete
  rw [filter_eq_self fun m _ => decide_eq_true List.not_mem_nil]
  simp

/-- A prune of nothing changes nothing. -/
theorem prune_of_no_batch (h : sqlSeq batch = 0) :
    (s.pruneTopicMessages cutoff limit batch).2 = s := by
  have hexpire : s.expire cutoff 0 = ⟨0, 0, s⟩ := by
    unfold expire
    rw [List.take_zero, List.map_nil]
    dsimp only
    rw [delete_nil]
    rfl
  unfold pruneTopicMessages
  dsimp only
  rw [h, hexpire, foldl_relieve_of_budget rfl]

theorem pruned_of_no_batch (h : sqlSeq batch = 0) {n : Nat} :
    pruned cutoff limit batch n s = s := by
  induction n with
  | zero => rfl
  | succ _ ih => rw [pruned, prune_of_no_batch h, ih]

/-! ### Running a prune to its end -/

theorem delete_length :
    (s.delete seqs).1 + (s.delete seqs).2.messages.rows.length = s.messages.rows.length := by
  have hsplit := List.length_eq_length_filter_add (l := s.messages.rows)
    fun m => decide (m.seq ∈ seqs)
  refine Eq.trans (congrArg ((s.delete seqs).1 + ·) ?_) hsplit.symm
  refine congrArg List.length (List.filter_congr fun m _ => ?_)
  exact decide_not

theorem relieve_length :
    (relieve limit p g).removed + (relieve limit p g).store.messages.rows.length =
      p.removed + p.store.messages.rows.length := by
  unfold relieve
  split
  · rfl
  · dsimp only
    rw [Nat.add_assoc, delete_length]

theorem prune_length : (s.pruneTopicMessages cutoff limit batch).1 +
      (s.pruneTopicMessages cutoff limit batch).2.messages.rows.length =
        s.messages.rows.length := by
  have hfold : ∀ (groups : List ((String × Option ProjectId) × Nat)) (limit : Nat) (p : Pruning),
      (groups.foldl (relieve limit) p).removed +
        (groups.foldl (relieve limit) p).store.messages.rows.length =
      p.removed + p.store.messages.rows.length := by
    intro groups limit p
    induction groups generalizing p with
    | nil => rfl
    | cons _ _ ih => rw [List.foldl_cons, ih, relieve_length]
  exact (hfold _ _ _).trans delete_length

/-- Prunes come to an end. -/
theorem exists_done (cutoff : Option String) (limit batch : Nat) (s : Topics) :
    ∃ n, Done cutoff limit batch (pruned cutoff limit batch n s) := by
  induction hn : s.messages.rows.length using Nat.strong_induction_on generalizing s with
  | _ _ ih =>
    by_cases hdone : Done cutoff limit batch s
    · exact ⟨0, hdone⟩
    · have hlength : (s.pruneTopicMessages cutoff limit batch).1 + _ = _ := prune_length
      have hpos : (s.pruneTopicMessages cutoff limit batch).1 ≠ 0 := hdone
      obtain ⟨k, hk⟩ := ih _ (by omega) (s.pruneTopicMessages cutoff limit batch).2 rfl
      exact ⟨k + 1, hk⟩

/-- A group that everybody in it may be seen by the reader is the same in both logs. -/
theorem inGroup_congr (h : Agree scope reader s s')
    (hvisible : Topic.visible group.2 scope = true) : s.inGroup group = s'.inGroup group := by
  refine sortBy_filter_congr fun m hm => h.messages m ?_
  rw [← of_decide_eq_true hm] at hvisible
  exact hvisible

theorem survivors_congr (h : Agree scope reader s s')
    (hvisible : Topic.visible group.2 scope = true) :
    s.survivors cutoff limit group = s'.survivors cutoff limit group := by
  unfold survivors fresh
  rw [inGroup_congr h hvisible]

theorem pruned_congr (h : Agree scope reader s s') {n n' : Nat}
    (hdone : Done cutoff limit batch (pruned cutoff limit batch n s))
    (hdone' : Done cutoff limit batch (pruned cutoff limit batch n' s'))
    (hvisible : Topic.visible m.project scope = true) :
    m ∈ (pruned cutoff limit batch n s).messages ↔
      m ∈ (pruned cutoff limit batch n' s').messages := by
  by_cases hbatch : sqlSeq batch = 0
  · rw [pruned_of_no_batch hbatch, pruned_of_no_batch hbatch]
    exact h.messages m hvisible
  · have hin : ∀ s : Topics, m ∈ s.messages ↔ m ∈ s.inGroup m.group := fun s =>
      ⟨fun hm => mem_inGroup.mpr ⟨hm, rfl⟩, fun hm => (mem_inGroup.mp hm).1⟩
    rw [hin, hin, inGroup_of_done hbatch hdone, inGroup_of_done hbatch hdone', survivors_pruned,
      survivors_pruned, survivors_congr h hvisible]

/-- Two logs a subscriber cannot tell apart replay the same to it, and keep the same for
it once prunes are through with them. -/
theorem replay_confined (s s' : Topics) (r : ReplayRequest) (h : Agree r.scope r.reader s s') :
    s.topicReplayPlan r = s'.topicReplayPlan r ∧
    (∃ replay, s.topicReplay r = some replay ∧ s'.topicReplay r = some replay) ∧
    ∀ cutoff limit batch, (∃ n, Done cutoff limit batch (pruned cutoff limit batch n s)) ∧
      (∃ n, Done cutoff limit batch (pruned cutoff limit batch n s')) ∧
      ∀ n n', Done cutoff limit batch (pruned cutoff limit batch n s) →
        Done cutoff limit batch (pruned cutoff limit batch n' s') →
        ∀ m, Topic.visible m.project r.scope = true →
          (m ∈ (pruned cutoff limit batch n s).messages ↔
            m ∈ (pruned cutoff limit batch n' s').messages) :=
  ⟨topicReplayPlan_congr h, topicReplay_congr h, fun cutoff limit batch =>
    ⟨exists_done cutoff limit batch s, exists_done cutoff limit batch s',
      fun _ _ hdone hdone' _ hvisible => pruned_congr h hdone hdone' hvisible⟩⟩

namespace Sample

def older : TopicMessage := ⟨1, "reviews", some ⟨"alpha"⟩, "2026-01-01", "older"⟩

def mine : TopicMessage := ⟨3, "reviews", some ⟨"alpha"⟩, "2026-01-03", "mine"⟩

def theirs : List TopicMessage :=
  [⟨2, "reviews", some ⟨"beta"⟩, "2026-01-02", "theirs"⟩,
    ⟨4, "reviews", some ⟨"beta"⟩, "2026-01-04", "theirs"⟩]

def quiet : Topics := ⟨⟨[older, mine], by decide⟩, .empty⟩

def busy : Topics := ⟨⟨[older, mine] ++ theirs, by decide⟩, .empty⟩

def request : ReplayRequest := ⟨["#"], some ⟨"alpha"⟩, some ⟨"reader"⟩, none, 1, 1⟩

theorem agree : Agree request.scope request.reader quiet busy := by
  have hother : ∀ m ∈ theirs, Topic.visible m.project request.scope = false := by decide
  refine ⟨fun m hvisible => ?_, fun m _ _ agent _ => rfl⟩
  show m ∈ [older, mine] ↔ m ∈ [older, mine] ++ theirs
  rw [List.mem_append]
  exact (or_iff_left fun hm => by simp [hother m hm] at hvisible).symm

end Sample

/-- Another project's messages on the topic, the newest of all among them, and room for
one: the first of the subscriber's goes, and the second stays. -/
theorem replay_confined_busy : Sample.busy.topicReplayPlan Sample.request = ⟨[3], 1, 1⟩ ∧
      Done none 1 1 (pruned none 1 1 2 Sample.busy) ∧
      Sample.older ∉ (pruned none 1 1 2 Sample.busy).messages ∧
      Sample.mine ∈ (pruned none 1 1 2 Sample.busy).messages := by
  have h := replay_confined Sample.quiet Sample.busy Sample.request Sample.agree
  have hdone : Done none 1 1 (pruned none 1 1 2 Sample.busy) := by decide +kernel
  have hsame := (h.2.2 none 1 1).2.2 1 2 (by decide +kernel) hdone
  refine ⟨h.1.symm.trans (by decide +kernel), hdone, ?_, ?_⟩
  · exact (hsame Sample.older (by decide)).not.mp (by decide +kernel)
  · exact (hsame Sample.mine (by decide)).mp (by decide +kernel)

end AgentDocker.Store.Topics
