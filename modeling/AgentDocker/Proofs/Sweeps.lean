import AgentDocker.Proofs.CardGraph
import AgentDocker.Lib.Totals

/-!
# Rules that come to act

On the minute a sweep goes over the cards, project by project, and the first rule due on
a card acts on it; at most fifty act in all, and the rest wait for the next minute. A rule
that says something or archives has less to do each time: a card it has spoken on keeps
it from speaking again, and an archived card is out of reach. One that moves a card or
starts agents may take an action of every sweep, and such a card is busy. So while fewer
cards before a card are busy than a sweep has actions, a sweep gets to the card or leaves
less to do; and its turn is the rule's, once those before it on the card have spoken.

A start rule that is full acts on nothing, is counted as acting, and ends the card's
turn; it is due again the next minute, and a rule after it never gets one.
-/

namespace AgentDocker.Daemon.Tasks

open AgentDocker.Core Lib Keyed

variable {s s' : Tasks} {t : Task} {now : Time}

/-- Every commit lands. -/
def landing : String → TaskId → Bool := fun _ _ => true

/-- Nothing but sweeps, one after the other. -/
def sweptAt (s : Tasks) (clock : Nat → Time) : Nat → Tasks
  | 0 => s
  | n + 1 => (sweptAt s clock n).sweepRules (clock n) landing

/-! ## Who else takes a turn -/

/-- Whether a rule may come to be due, by some time, on a card that stays where it is: an
idle rule waits for its days, and a start rule for the cards the card waits on. -/
def mayTake (rule : BoardRule) (t : Task) (lane : String) (last : Time) : Bool :=
  sweeps rule && decide (rule.project = t.project) && rule.awaits t &&
    decide (rule.trigger.lane = lane) &&
    match rule.trigger with
    | .idle _ days => decide (days * BoardRule.day ≤ last - t.inLaneSince)
    | .enter _ => startable t fun _ => false

/-- Whether a rule says something or archives: it has less to do afterwards. -/
def plain (rule : BoardRule) : Bool :=
  match rule.action with
  | .comment _ | .archive => true
  | .move _ | .start .. => false

/-- Whether a card may take an action of every sweep until some time: a rule may come to
move it, or to ask for an agent on it. -/
def busy (s : Tasks) (last : Time) (t : Task) : Bool :=
  (s.boardOf t).any fun board =>
    s.rules.rows.any fun r => mayTake r t (t.laneOn board).slug last && !plain r

/-- A sweep takes projects by their ids, and the cards of each by theirs. -/
def Before (c t : Task) : Prop :=
  c.project.id < t.project.id ∨ c.project = t.project ∧ c.id.id < t.id.id

instance (c t : Task) : Decidable (Before c t) := inferInstanceAs (Decidable (_ ∨ _ ∧ _))

/-- How many cards of these are busy. -/
def busyAmong (s : Tasks) (last : Time) (P : Task → Prop) [DecidablePred P] : Nat :=
  s.cards.rows.countP fun c => s.busy last c && decide (P c)

variable {rule : BoardRule} {last : Time}

/-- A rule that is due on a card may have come to be due on it with fewer rules having
acted. -/
theorem due_mayTake {cards : List Task} {lane : String} {fired : List String}
    (hproject : rule.project = t.project) (hfired : t.fired ⊆ fired) (hlast : now ≤ last)
    (h : due rule cards { t with fired } lane now = true) : mayTake rule t lane last = true := by
  obtain ⟨hawaits, hsweeps⟩ := due_awaits h
  have hawaits : rule.awaits t = true := by
    simp only [BoardRule.awaits, Bool.and_eq_true, Bool.not_eq_true', List.contains_eq_mem,
      decide_eq_false_iff_not] at hawaits ⊢
    exact ⟨hawaits.1, fun hmem => hawaits.2 (hfired hmem)⟩
  simp only [mayTake, hsweeps, hproject, hawaits, decide_true, Bool.true_and]
  unfold due at h
  split at h
  · next l days htrigger =>
    rw [BoardRule.idleDue, htrigger] at h
    simp only [Bool.and_eq_true, decide_eq_true_eq] at h
    have hdays : days * BoardRule.day ≤ last - t.inLaneSince :=
      Int.le_trans h.2 (Int.sub_le_sub_right hlast _)
    simp [htrigger, Trigger.lane, h.1.2, hdays]
  · next l runtime args max htrigger haction =>
    simp only [BoardRule.onEnter, htrigger, Bool.and_eq_true, decide_eq_true_eq,
      Trigger.enter.injEq] at h
    have hstart : startable t (fun _ => false) = true := by
      have := h.2
      simp only [startable, Bool.and_eq_true] at this ⊢
      exact ⟨this.1, by simp⟩
    simp [htrigger, Trigger.lane, h.1.2, hstart]
  · cases h

section

variable {P Q : Task → Prop} [DecidablePred P] [DecidablePred Q] (hsub : ∀ c, P c → Q c)

include hsub

theorem countP_busy_le (s : Tasks) (last : Time) (l : List Task) :
    (l.countP fun c => s.busy last c && decide (P c)) ≤
    l.countP fun c => s.busy last c && decide (Q c) := by
  refine List.countP_mono_left fun c _ hc => ?_
  rw [Bool.and_eq_true, decide_eq_true_eq] at hc ⊢
  exact hc.imp_right (hsub c)

theorem busyAmong_mono : s.busyAmong last P ≤ s.busyAmong last Q := countP_busy_le hsub s last _

/-- One more busy card among more cards. -/
theorem busyAmong_add_le (ht : t ∈ s.cards) (hQ : Q t) (hP : ¬ P t) :
    s.busyAmong last P + (if s.busy last t then 1 else 0) ≤ s.busyAmong last Q := by
  obtain ⟨pre, post, hrows⟩ := List.append_of_mem ht
  have hpre := countP_busy_le hsub s last pre
  have hpost := countP_busy_le hsub s last post
  simp only [busyAmong, hrows, List.countP_append, List.countP_cons, hQ, hP, decide_true,
    decide_false, Bool.and_true, Bool.and_false, Bool.false_eq_true, if_false]
  omega

end

theorem Before.irrefl : ¬ Before t t := by
  simp [Before]

theorem Before.trans {a b c : Task} (h : Before a b) (h' : Before b c) : Before a c := by
  rcases h with h | ⟨h, hid⟩
  · rcases h' with h' | ⟨h', -⟩
    · exact .inl (lt_trans h h')
    · exact .inl (h' ▸ h)
  · rcases h' with h' | ⟨h', hid'⟩
    · exact .inl (h ▸ h')
    · exact .inr ⟨h.trans h', lt_trans hid hid'⟩

theorem Before.same {a b c : Task} (h : a.Same b) : Before a c ↔ Before b c := by
  rw [Before, Before, h.id, h.project]

/-! ## What is left to do -/

/-- The rules a sweep goes over, by their ids. -/
def sweptRules (s : Tasks) : List BoardRule := s.rulesInOrder.filter sweeps

theorem mem_sweptRules : rule ∈ s.sweptRules ↔ rule ∈ s.rules ∧ sweeps rule = true := by
  rw [sweptRules, List.mem_filter, rulesInOrder, (sortBy_perm _ _).mem_iff]
  rfl

theorem pairwise_sweptRules : s.sweptRules.Pairwise fun r r' => r.id < r'.id :=
  (pairwise_lt_sortBy s.rules.nodup).filter _

/-- What swept rules may still do to a card. -/
def pending (rules : List BoardRule) (t : Task) : Nat :=
  if t.archivedAt.isSome then 0 else 1 + (rules.filter fun r => decide (r.id ∉ t.fired)).length

theorem pending_fired {rules : List BoardRule} (hrule : rule ∈ rules) (hfired : rule.id ∉ t.fired)
    (hopen : t.archivedAt = none) :
    pending rules { t with fired := t.fired ++ [rule.id] } < pending rules t := by
  have hsub : rules.filter (fun r => decide (r.id ∉ t.fired ++ [rule.id])) =
      (rules.filter fun r => decide (r.id ∉ t.fired)).filter fun r => decide (r.id ≠ rule.id) := by
    rw [List.filter_filter]
    refine List.filter_congr fun r _ => ?_
    rw [← Bool.decide_and]
    exact decide_eq_decide.mpr (by simp [and_comm])
  have hless : ((rules.filter fun r => decide (r.id ∉ t.fired)).filter
      fun r => decide (r.id ≠ rule.id)).length <
      (rules.filter fun r => decide (r.id ∉ t.fired)).length :=
    List.length_filter_lt_length_iff_exists.mpr
      ⟨rule, List.mem_filter.mpr ⟨hrule, decide_eq_true hfired⟩, by simp⟩
  simp only [pending, hopen, Option.isSome_none, Bool.false_eq_true, if_false]
  rw [hsub]
  omega

theorem pending_archived {rules : List BoardRule} (hopen : t.archivedAt = none) :
    pending rules { t with archivedAt := some now, updatedAt := now } < pending rules t := by
  simp only [pending, hopen, Option.isSome_some, Option.isSome_none, Bool.false_eq_true,
    if_false, if_true]
  omega

theorem applyRule_comment {board : Board} {text : String} (haction : rule.action = .comment text)
    (hboard : s.boardOf t = some board) : s.applyRule rule t now true =
      .ok (none, s.commit { t with fired := t.fired ++ [rule.id] } [.fired rule.id t.id]) := by
  simp [applyRule, hboard, haction, rule.words text haction, act]

theorem applyRule_archive {board : Board} (haction : rule.action = .archive)
    (hboard : s.boardOf t = some board) (hopen : t.archivedAt = none) :
    s.applyRule rule t now true =
      .ok (none, s.commit { t with archivedAt := some now, updatedAt := now }
        [.fired rule.id t.id]) := by
  simp [applyRule, hboard, haction, Task.archive, hopen, act]

/-! ## What a sweep leaves alone -/

theorem Acts.board (h : Acts s rule t now s') (p : ProjectId) (slug : String) :
    s'.board p slug = s.board p slug := by
  cases h <;> rfl

/-- Cards other than the one acted on. -/
theorem Acts.get?_of_ne (h : Acts s rule t now s') {id : TaskId} (hne : t.id ≠ id) :
    s'.cards.get? id = s.cards.get? id := by
  cases h with
  | stands | asks => rfl
  | comments | archives => exact get?_insert.trans (if_neg hne)
  | moves _ _ _ hsame => exact get?_insert.trans (if_neg (hsame.id ▸ hne))

/-- A rule due on a card stays due while the card is in its lane. -/
theorem idleDue_of_le {lane : String} {later : Time} {fired : List String}
    (h : rule.idleDue t lane now = true) (hfired : rule.id ∉ fired) (hle : now ≤ later) :
    rule.idleDue { t with fired } lane later = true := by
  unfold BoardRule.idleDue at h ⊢
  split at h
  · cases h
  next l days htrigger =>
  simp only [BoardRule.awaits, Bool.and_eq_true, decide_eq_true_eq] at h ⊢
  obtain ⟨⟨⟨⟨⟨henabled, hopen⟩, hboard⟩, -⟩, hlane⟩, hdays⟩ := h
  refine ⟨⟨⟨⟨⟨henabled, hopen⟩, hboard⟩, by simpa using hfired⟩, hlane⟩, ?_⟩
  exact Int.le_trans hdays (Int.sub_le_sub_right hle _)

/-! ## One turn -/

/-- A card as it was but for more rules that have acted on it, unless it is archived. -/
def Like (c c' : Task) : Prop :=
  c'.archivedAt.isSome ∨ ∃ fired, c.fired ⊆ fired ∧ c' = { c with fired }

section

variable (s : Tasks) (last : Time) (t : Task) (rule : BoardRule)

/-- The cards that run out of actions to take from the card: those before it that are not
busy, and the card itself. -/
def counted : List Task :=
  s.cards.rows.filter fun c => decide (c = t) || (decide (Before c t) && !s.busy last c)

/-- What is left to do on a card. -/
def pendingIn (v : Tasks) (c : Task) : Nat :=
  ((v.cards.get? c.id).map (pending s.sweptRules)).getD 0

def left (v : Tasks) : Nat := totalOf (s.pendingIn v) (s.counted last t)

/-- The rule has acted on the card. -/
def Acted (v : Tasks) : Prop := ∃ new, v.trace = s.trace ++ new ∧ .fired rule.id t.id ∈ new

/-- Where sweeps have come to while the rule has yet to act on the card. -/
structure Course (v : Tasks) : Prop where
  same : SameCards s v
  board : ∀ p slug, v.board p slug = s.board p slug
  trace : ∃ new, v.trace = s.trace ++ new
  calm : ∀ c ∈ s.cards, Before c t → s.busy last c = false →
    ∃ c', v.cards.get? c.id = some c' ∧ Like c c'
  awaits : ∃ fired, t.fired ⊆ fired ∧ v.cards.get? t.id = some { t with fired } ∧ rule.id ∉ fired

/-- The rule has acted, or less is left to do than before. -/
def Onward (most : Nat) (v : Tasks) : Prop :=
  Acted s t rule v ∨ Course s last t rule v ∧ s.left last t v < most

end

variable {v v' : Tasks} {c fresh : Task}

theorem mem_counted : c ∈ s.counted last t ↔ c ∈ s.cards ∧
    (c = t ∨ Before c t ∧ s.busy last c = false) := by
  simp [counted, mem_def]

/-- A turn of a card that is not counted on leaves as much to do. -/
theorem left_eq (hframe : ∀ id ≠ fresh.id, v'.cards.get? id = v.cards.get? id)
    (hnot : ∀ c ∈ s.counted last t, c.id ≠ fresh.id) : s.left last t v' = s.left last t v :=
  totalOf_congr fun c hc => by rw [pendingIn, pendingIn, hframe c.id (hnot c hc)]

/-- A turn that leaves less to do on a card that is counted on leaves less to do. -/
theorem left_lt {next : Task} (hc : c ∈ s.counted last t) (hget : v.cards.get? c.id = some fresh)
    (hless : pending s.sweptRules next < pending s.sweptRules fresh)
    (hid : next.id = c.id) (marks : List Mark) :
    s.left last t (v.commit next marks) < s.left last t v := by
  have hnodup : (s.counted last t).Nodup := (s.cards.filter _).nodup.of_map
  have hrest : ∀ b ∈ s.counted last t, b ≠ c →
      s.pendingIn (v.commit next marks) b = s.pendingIn v b := by
    intro b hb hne
    have hother : next.id ≠ b.id := fun heq => hne
      (eq_of_key_eq (mem_counted.mp hb).1 (mem_counted.mp hc).1 (heq.symm.trans hid))
    rw [pendingIn, pendingIn, commit, get?_insert, if_neg hother]
  have hchange := totalOf_change hnodup hc hrest
  have hnew : s.pendingIn (v.commit next marks) c = pending s.sweptRules next := by
    rw [pendingIn, commit, get?_insert, if_pos hid]
    rfl
  have hold : s.pendingIn v c = pending s.sweptRules fresh := by
    rw [pendingIn, hget]
    rfl
  rw [left, left]
  omega

theorem Course.acts {r : BoardRule} (h : Course s last t rule v) (hfresh : fresh ∈ v.cards)
    (hact : Acts v r fresh now v') (hcalm : ∀ c ∈ s.cards, Before c t → s.busy last c = false →
      c.id = fresh.id → ∃ c', v'.cards.get? c.id = some c' ∧ Like c c')
    (hawaits : fresh.id = t.id → ∃ fired, t.fired ⊆ fired ∧
      v'.cards.get? t.id = some { t with fired } ∧ rule.id ∉ fired) :
    Course s last t rule v' where
  same := h.same.trans (hact.sameCards hfresh)
  board p slug := (hact.board p slug).trans (h.board p slug)
  trace := by
    obtain ⟨new, hnew⟩ := h.trace
    obtain ⟨marks, hmarks, -⟩ := hact.trace
    exact ⟨new ++ marks, by rw [hmarks, hnew, List.append_assoc]⟩
  calm c hc hbefore hbusy := by
    by_cases hid : c.id = fresh.id
    · exact hcalm c hc hbefore hbusy hid
    · rw [hact.get?_of_ne (Ne.symm hid)]
      exact h.calm c hc hbefore hbusy
  awaits := by
    by_cases hid : fresh.id = t.id
    · exact hawaits hid
    · rw [hact.get?_of_ne hid]
      exact h.awaits

/-- A card that is not busy is as it was, while it is open. -/
theorem Course.eq_of_calm (h : Course s last t rule v) (hc : c ∈ s.cards) (hbefore : Before c t)
    (hbusy : s.busy last c = false) (hget : v.cards.get? c.id = some fresh)
    (hopen : fresh.archivedAt = none) : ∃ fired, c.fired ⊆ fired ∧ fresh = { c with fired } := by
  obtain ⟨_, hget', hlike⟩ := h.calm c hc hbefore hbusy
  rw [hget] at hget'
  cases hget'
  exact hlike.resolve_left (by simp [hopen])

theorem plain_of_due {board : Board} {cards : List Task} {fired : List String}
    (hlast : now ≤ last) (hbusy : s.busy last c = false) (hboard : s.boardOf c = some board)
    (hrule : rule ∈ s.rules) (hproject : rule.project = c.project) (hfired : c.fired ⊆ fired)
    (hdue : due rule cards { c with fired } (c.laneOn board).slug now = true) :
    plain rule = true := by
  have hmay : mayTake rule c (c.laneOn board).slug last = true :=
    due_mayTake hproject hfired hlast hdue
  simp only [busy, hboard, Option.any_some, List.any_eq_false] at hbusy
  simpa [hmay] using hbusy rule hrule

/-- A rule that says something or archives acts on a card it has not acted on, leaves the
card as it was otherwise and less to do on it. -/
theorem applyRule_plain {board : Board} {rules : List BoardRule} (hplain : plain rule = true)
    (hboard : s.boardOf t = some board) (hopen : t.archivedAt = none) (hfired : rule.id ∉ t.fired)
    (hrule : rule ∈ rules) (now : Time) :
    ∃ next, s.applyRule rule t now true = .ok (none, s.commit next [.fired rule.id t.id]) ∧
      next.id = t.id ∧ Like t next ∧ pending rules next < pending rules t := by
  cases haction : rule.action with
  | comment =>
    exact ⟨_, applyRule_comment haction hboard, rfl, .inr ⟨_, List.subset_append_left .., rfl⟩,
      pending_fired hrule hfired hopen⟩
  | archive =>
    exact ⟨_, applyRule_archive haction hboard hopen, rfl, .inl rfl, pending_archived hopen⟩
  | move | start => simp [plain, haction] at hplain

/-- The swept rules of a project. -/
def rulesOf (s : Tasks) (p : ProjectId) : List BoardRule :=
  s.sweptRules.filter fun r => decide (r.project = p)

theorem mem_rulesOf {p : ProjectId} :
    rule ∈ s.rulesOf p ↔ (rule ∈ s.rules ∧ sweeps rule = true) ∧ rule.project = p := by
  rw [rulesOf, List.mem_filter, mem_sweptRules, decide_eq_true_eq]

/-- One card of a project, as a sweep reads it at the project's beginning. -/
def takeTurn (s : Tasks) (now : Time) (v : Tasks) (p : ProjectId) (acc : Nat × Tasks)
    (card : Task) : Nat × Tasks :=
  match v.board p card.boardSlug with
  | none => acc
  | some board =>
    sweepCard (v.projectCards p) card (card.laneOn board).slug now landing (s.rulesOf p) acc

section

variable {p : ProjectId} {acc : Nat × Tasks} {card : Task} {l : List Task} {most : Nat}

theorem sweepProject_eq : sweepProject s.sweptRules now landing acc p =
      ((acc.2.projectCards p).filter fun t => t.archivedAt.isNone).foldl
        (s.takeTurn now acc.2 p) acc := rfl

/-- What a turn leaves on record stays. -/
theorem Acted.turn (h : Acted s t rule acc.2) : Acted s t rule (s.takeTurn now v p acc card).2 := by
  unfold takeTurn
  split
  · exact h
  rcases sweepCard_cases with heq | ⟨_, -, _, _, -, -, hopen, -, happly, heq⟩ <;> rw [heq]
  · exact h
  · obtain ⟨new, hnew, hmem⟩ := h
    obtain ⟨marks, hmarks, -⟩ := (applyRule_ok hopen happly).trace
    exact ⟨new ++ marks, by rw [hmarks, hnew, List.append_assoc], List.mem_append_left _ hmem⟩

theorem pairwise_projectCards : (v.projectCards p).Pairwise fun c c' => c.id.id < c'.id.id := by
  have hnodup : ((v.cards.rows.filter fun t => decide (t.project = p)).map
      fun t => t.id.id).Nodup := by
    have hids := ((v.cards.filter fun t => decide (t.project = p)).nodup).map
      (f := TaskId.id) fun a b h => by cases a; cases b; exact congrArg _ h
    rwa [List.map_map] at hids
  exact (pairwise_lt_sortBy hnodup).sublist (List.take_sublist _ _)

section

variable (hlast : now ≤ last)

include hlast

/-- A turn that a rule takes of a card that is not busy: only rules with less to do come
due on it, so that less is left to do. -/
theorem Course.calm_turn {board : Board} {cards : List Task} {fired : List String}
    {r : BoardRule} (h : Course s last t rule v) (hc : c ∈ s.cards) (hne : c.id ≠ t.id)
    (hcalm : Before c t ∧ s.busy last c = false) (hboard : s.boardOf c = some board)
    (hr : r ∈ s.rulesOf c.project) (hgrown : c.fired ⊆ fired)
    (hdue : due r cards { c with fired } (c.laneOn board).slug now = true)
    (hget : v.cards.get? c.id = some fresh) (hopen : fresh.archivedAt = none)
    (hfired : r.id ∉ fresh.fired) (happly : v.applyRule r fresh now true = .ok (start, v')) :
    Course s last t rule v' ∧ s.left last t v' < s.left last t v := by
  obtain ⟨hrule, hproject⟩ := mem_rulesOf.mp hr
  obtain ⟨fired', hgrown', rfl⟩ := h.eq_of_calm hc hcalm.1 hcalm.2 hget hopen
  have hon : v.boardOf { c with fired := fired' } = some board :=
    (h.board c.project c.boardSlug).trans hboard
  have hplain := plain_of_due hlast hcalm.2 hboard hrule.1 hproject hgrown hdue
  obtain ⟨next, hnext, hid, hlike, hless⟩ := applyRule_plain hplain hon hopen hfired
    (mem_sweptRules.mpr hrule) now
  have hact := applyRule_ok hopen happly
  rw [hnext] at happly
  cases happly
  refine ⟨h.acts (get?_eq_some.mp hget).1 hact (fun u hu _ _ heq => ?_) fun heq => absurd heq hne,
    left_lt (mem_counted.mpr ⟨hc, .inr hcalm⟩) hget hless hid [.fired r.id c.id]⟩
  obtain rfl : u = c := eq_of_key_eq hu hc heq
  refine ⟨next, get?_insert.trans (if_pos hid), hlike.imp_right ?_⟩
  rintro ⟨_, hmore, rfl⟩
  exact ⟨_, List.Subset.trans hgrown' hmore, rfl⟩

/-- Another card takes one action at most, and none for ever unless it is busy. -/
theorem Course.other (hacc : Course s last t rule acc.2) (hv : Course s last t rule v)
    (hcard : card ∈ v.projectCards p) (hopen : card.archivedAt = none) (hne : card.id ≠ t.id)
    (hc : c ∈ s.cards) (hsame : c.Same card) :
    let next := s.takeTurn now v p acc card
    Course s last t rule next.2 ∧ s.left last t next.2 ≤ s.left last t acc.2 ∧
      next.1 + s.left last t next.2 ≤ acc.1 + s.left last t acc.2 +
        if Before c t ∧ s.busy last c = false then 0 else 1 := by
  obtain ⟨hmem, rfl⟩ := mem_of_mem_projectCards hcard
  dsimp only
  unfold takeTurn
  split
  · exact ⟨hacc, Nat.le_refl _, Nat.le_add_right ..⟩
  next board hboard =>
  rcases sweepCard_cases with
    heq | ⟨r, hr, fresh, result, hdue, hget, hfopen, hfired, happly, heq⟩ <;> rw [heq]
  · exact ⟨hacc, Nat.le_refl _, Nat.le_add_right ..⟩
  rw [hsame.id] at hget hne
  by_cases hcalm : Before c t ∧ s.busy last c = false
  · have hread : v.cards.get? c.id = some card := get?_eq_some.mpr ⟨hmem, hsame.id⟩
    obtain ⟨_, hgrown, rfl⟩ := hv.eq_of_calm hc hcalm.1 hcalm.2 hread hopen
    obtain ⟨hcourse, hleft⟩ := hacc.calm_turn hlast hc hne hcalm
      ((hv.board c.project c.boardSlug).symm.trans hboard) hr hgrown hdue hget hfopen hfired happly
    refine ⟨hcourse, hleft.le, ?_⟩
    rw [if_pos hcalm, Nat.add_right_comm]
    exact Nat.add_lt_add_left hleft acc.1
  · rw [if_neg hcalm]
    obtain ⟨hfresh, hid⟩ := get?_eq_some.mp hget
    have hact : Acts acc.2 r fresh now result.2 := applyRule_ok hfopen happly
    have hnot : ∀ u ∈ s.counted last t, u.id ≠ fresh.id := by
      intro u hu heq
      obtain ⟨humem, hu⟩ := mem_counted.mp hu
      obtain rfl : u = c := eq_of_key_eq humem hc (heq.trans hid)
      exact hu.elim (fun hut => hne (hut ▸ rfl)) hcalm
    have hleft : s.left last t result.2 = s.left last t acc.2 :=
      left_eq (fun id hother => hact.get?_of_ne (Ne.symm hother)) hnot
    refine ⟨hacc.acts hfresh hact (fun u hu hbefore hbusy heq => ?_)
      fun heq => absurd (hid.symm.trans heq) hne, hleft.le, ?_⟩
    · exact absurd heq (hnot u (mem_counted.mpr ⟨hu, .inr ⟨hbefore, hbusy⟩⟩))
    · rw [hleft]
      omega

/-! ## One sweep -/

/-- What is counted while a sweep is on its way to the card. -/
def OnTheWay (s : Tasks) (last : Time) (t : Task) (rule : BoardRule) (most n : Nat)
    (acc : Nat × Tasks) : Prop :=
  Course s last t rule acc.2 ∧ s.left last t acc.2 ≤ most ∧ acc.1 + s.left last t acc.2 ≤ most + n

omit hlast in
theorem OnTheWay.mono {n n' : Nat} (hle : n ≤ n') (h : OnTheWay s last t rule most n acc) :
    OnTheWay s last t rule most n' acc :=
  ⟨h.1, h.2.1, h.2.2.trans (Nat.add_le_add_left hle _)⟩

/-- Cards of a project before the card: only the busy ones go on taking actions. -/
theorem OnTheWay.cards {Q : Task → Prop} [DecidablePred Q] (hv : Course s last t rule v)
    (ht : t ∈ s.cards) (hl : l.Sublist (v.projectCards p))
    (hopen : ∀ card ∈ l, card.archivedAt = none ∧ Before card t)
    (hbegins : ∀ c : Task, c.project.id < p.id → Q c)
    (hends : ∀ card ∈ l, ∀ c : Task, Before c card ∨ c.Same card → Q c)
    (h : OnTheWay s last t rule most (s.busyAmong last fun c => c.project.id < p.id) acc) :
    OnTheWay s last t rule most (s.busyAmong last Q) (l.foldl (s.takeTurn now v p) acc) := by
  have hfiled : ∀ card ∈ l, ∃ c ∈ s.cards, c.Same card ∧ s.cards.get? card.id = some c ∧
      card.project = p := by
    intro card hcard
    obtain ⟨hmem, hproject⟩ := mem_of_mem_projectCards (hl.subset hcard)
    obtain ⟨c, hc, hsame⟩ := hv.same.back card hmem
    exact ⟨c, hc, hsame, get?_eq_some.mpr ⟨hc, hsame.id.symm⟩, hproject⟩
  have hnot : ∀ {c card : Task}, c.Same card → ¬ Before c card :=
    fun hsame h => Before.irrefl ((Before.same hsame).mp h)
  refine foldl_bounded (P := OnTheWay s last t rule most)
    (fun card => s.busyAmong last fun c => Before c card)
    (fun card => (s.busyAmong last fun c => Before c card) +
      if (s.cards.get? card.id).any (s.busy last) then 1 else 0)
    .mono (fun card hcard acc hacc => ?_) ?_ (fun card hcard => ?_) (fun card hcard => ?_)
    (busyAmong_mono hbegins) h
  · obtain ⟨c, hc, hsame, hget, -⟩ := hfiled card hcard
    obtain ⟨hcardopen, hbefore⟩ := hopen card hcard
    rw [← Before.same hsame] at hbefore
    have hne : card.id ≠ t.id := by
      intro heq
      obtain rfl : c = t := eq_of_key_eq hc ht (hsame.id.symm.trans heq)
      exact Before.irrefl hbefore
    obtain ⟨hcourse, hle, hsum⟩ :=
      hacc.1.other hlast hv (hl.subset hcard) hcardopen hne hc hsame
    refine ⟨hcourse, hle.trans hacc.2.1, ?_⟩
    have := hacc.2.2
    simp only [hget, Option.any_some]
    cases hbusy : s.busy last c <;> simp only [hbusy, hbefore, true_and, Bool.true_eq_false,
      if_true, if_false, Bool.false_eq_true] at hsum ⊢ <;> omega
  · refine (pairwise_projectCards.sublist hl).imp_of_mem fun {a b} ha hb hlt => ?_
    obtain ⟨_, hc, hsame, hget, hproject⟩ := hfiled a ha
    obtain ⟨-, -, -, -, hproject'⟩ := hfiled b hb
    have hab : Before a b := .inr ⟨hproject.trans hproject'.symm, hlt⟩
    rw [hget]
    exact busyAmong_add_le (fun x hx => hx.trans hab) hc ((Before.same hsame).mpr hab) (hnot hsame)
  · obtain ⟨-, -, -, -, rfl⟩ := hfiled card hcard
    exact busyAmong_mono fun c hc => .inl hc
  · obtain ⟨c, hc, hsame, hget, -⟩ := hfiled card hcard
    rw [hget]
    exact busyAmong_add_le (fun x hx => hends card hcard x (.inl hx)) hc
      (hends card hcard c (.inr hsame)) (hnot hsame)

/-- A project before the card's. -/
theorem OnTheWay.project (ht : t ∈ s.cards) (hp : p.id < t.project.id)
    (h : OnTheWay s last t rule most (s.busyAmong last fun c => c.project.id < p.id) acc) :
    OnTheWay s last t rule most (s.busyAmong last fun c => c.project.id ≤ p.id)
      (sweepProject s.sweptRules now landing acc p) := by
  rw [sweepProject_eq]
  refine h.cards hlast h.1 ht List.filter_sublist (fun card hcard => ?_) (fun c hc => hc.le) ?_
  · obtain ⟨hcard, hopen⟩ := List.mem_filter.mp hcard
    rw [← (mem_of_mem_projectCards hcard).2] at hp
    exact ⟨Option.isNone_iff_eq_none.mp hopen, .inl hp⟩
  · intro card hcard c hc
    rw [← (mem_of_mem_projectCards (List.mem_of_mem_filter hcard)).2]
    rcases hc with (hlt | ⟨heq, -⟩) | hsame
    · exact hlt.le
    · rw [heq]
    · rw [hsame.project]

/-- Cards after the card's turn: what is left to do does not grow. -/
theorem course_rest (hl : ∀ card ∈ l, card ∈ v.projectCards p ∧ card.archivedAt = none ∧
      (Course s last t rule v → card.id ≠ t.id))
    (h : Acted s t rule acc.2 ∨
      Course s last t rule v ∧ Course s last t rule acc.2 ∧ s.left last t acc.2 < most) :
    Onward s last t rule most (l.foldl (s.takeTurn now v p) acc).2 := by
  refine (List.foldlRecOn l _ (motive := fun acc : Nat × Tasks => Acted s t rule acc.2 ∨
    Course s last t rule v ∧ Course s last t rule acc.2 ∧ s.left last t acc.2 < most) h
    fun acc hacc card hcard => ?_).imp_right And.right
  obtain ⟨hmem, hopen, hne⟩ := hl card hcard
  rcases hacc with hacted | ⟨hv, hacc, hless⟩
  · exact .inl hacted.turn
  · obtain ⟨_, hc, hsame⟩ := hv.same.back card (mem_of_mem_projectCards hmem).1
    obtain ⟨hcourse, hle, -⟩ := hacc.other hlast hv hmem hopen (hne hv) hc hsame
    exact .inr ⟨hv, hcourse, Nat.lt_of_le_of_lt hle hless⟩

end

/-- A rule that says something on idle cards and is due, on a card of its board on which
the rules before it do no more and before which not too many are busy. -/
structure Heard (s : Tasks) (last now : Time) (t : Task) (rule : BoardRule) (board : Board) :
    Prop where
  made : rule ∈ s.rules
  comments : ∃ text, rule.action = .comment text
  idles : ∃ lane days, rule.trigger = .idle lane days
  filed : t ∈ s.cards
  project : rule.project = t.project
  on : s.boardOf t = some board
  earlier : ∀ r ∈ s.rules, r.id < rule.id → mayTake r t (t.laneOn board).slug last = true →
    ∃ text, r.action = .comment text
  room : (s.members t.project).card ≤ projectCardsMax
  few : (s.busyAmong last fun c => Before c t) < sweepActions
  inTime : now ≤ last
  idle : ∀ fired, rule.id ∉ fired → rule.idleDue { t with fired } (t.laneOn board).slug now = true

variable {board : Board} {fired : List String} {cards : List Task}

section

variable (h : Heard s last now t rule board)
include h

theorem Heard.due (hnot : rule.id ∉ fired) :
    due rule cards { t with fired } (t.laneOn board).slug now = true := by
  obtain ⟨_, _, htrigger⟩ := h.idles
  unfold Tasks.due
  rw [htrigger]
  exact h.idle fired hnot

theorem Heard.open_swept (hnot : rule.id ∉ fired) :
    t.archivedAt = none ∧ rule ∈ s.rulesOf t.project := by
  have hdue : Tasks.due rule [] { t with fired } _ now = true := h.due hnot
  obtain ⟨hawaits, hsweeps⟩ := due_awaits hdue
  simp only [BoardRule.awaits, Bool.and_eq_true, Option.isNone_iff_eq_none] at hawaits
  exact ⟨hawaits.1.1.2, mem_rulesOf.mpr ⟨⟨h.made, hsweeps⟩, h.project⟩⟩

/-- The rule that takes the turn of the card is the rule itself, or one before it. -/
theorem Heard.takes {pre post : List BoardRule} {r : BoardRule} (hfired : t.fired ⊆ fired)
    (hrules : s.rulesOf t.project = pre ++ r :: post) (hmine : rule ∈ s.rulesOf t.project)
    (hpre : rule ∉ pre)
    (hdue : Tasks.due r cards { t with fired } (t.laneOn board).slug now = true) :
    r ∈ s.sweptRules ∧ ∃ text, r.action = .comment text := by
  have hsorted : (s.rulesOf t.project).Pairwise fun r r' => r.id < r'.id :=
    pairwise_sweptRules.filter _
  have hr : r ∈ s.rulesOf t.project := by simp [hrules]
  obtain ⟨hr, hproject⟩ := mem_rulesOf.mp hr
  refine ⟨mem_sweptRules.mpr hr, ?_⟩
  rw [hrules] at hmine hsorted
  rcases List.mem_cons.mp ((List.mem_append.mp hmine).resolve_left hpre) with heq | hpost
  · exact heq ▸ h.comments
  · have hlt := (List.pairwise_cons.mp (List.pairwise_append.mp hsorted).2.1).1 rule hpost
    exact h.earlier r hr.1 hlt (due_mayTake hproject hfired h.inTime hdue)

omit h in
/-- On the card itself the rule acts, or one before it that says something, as long as
actions are left. -/
theorem Course.own (hacc : Course s last t rule acc.2) (hv : Course s last t rule v)
    (h : Heard s last now t rule board) (hcard : card ∈ v.projectCards t.project)
    (hid : card.id = t.id) :
    let next := s.takeTurn now v t.project acc card
    Acted s t rule next.2 ∨ Course s last t rule next.2 ∧
      s.left last t next.2 ≤ s.left last t acc.2 ∧
      (acc.1 < sweepActions → s.left last t next.2 < s.left last t acc.2) := by
  obtain ⟨hmem, -⟩ := mem_of_mem_projectCards hcard
  obtain ⟨fired, hgrown, hread, hnot⟩ := hv.awaits
  obtain rfl : card = { t with fired } :=
    Option.some.inj ((get?_eq_some.mpr ⟨hmem, hid⟩).symm.trans hread)
  obtain ⟨fired', hgrown', hget', hnot'⟩ := hacc.awaits
  have hon : acc.2.boardOf { t with fired := fired' } = some board :=
    (hacc.board t.project t.boardSlug).trans h.on
  obtain ⟨hopen, hmine⟩ := h.open_swept hnot
  have hfound : v.board t.project (Task.boardSlug { t with fired }) = some board :=
    (hv.board t.project t.boardSlug).trans h.on
  have htake : s.takeTurn now v t.project acc { t with fired } =
      sweepCard (v.projectCards t.project) { t with fired } (t.laneOn board).slug now landing
        (s.rulesOf t.project) acc := by
    rw [takeTurn, hfound]
    rfl
  have hturn := sweepCard_turn (v.projectCards t.project) { t with fired } (t.laneOn board).slug now
    landing (s.rulesOf t.project) acc
  dsimp only
  rw [htake]
  generalize sweepCard _ _ _ _ _ _ acc = acc' at hturn ⊢
  cases hturn with
  | spent hspent => exact .inr ⟨hacc, Nat.le_refl _, fun h => absurd hspent (Nat.not_le.mpr h)⟩
  | idle hidle =>
    have hskip := hidle rule hmine (h.due hnot) _ hget'
    simp [hopen, hnot'] at hskip
  | takes _ _ r _ hrules hdue hpre hget hfopen hfired =>
    rw [hget'] at hget
    cases hget
    obtain ⟨hswept, _, haction⟩ :=
      h.takes hgrown hrules hmine (fun hmem => hnot' (hpre rule hmem (h.due hnot))) hdue
    have happly : acc.2.applyRule r { t with fired := fired' } now true = .ok (none,
        acc.2.commit { t with fired := fired' ++ [r.id] } [.fired r.id t.id]) :=
      applyRule_comment haction hon
    have hact := applyRule_ok hfopen happly
    rw [landing, happly]
    dsimp only
    by_cases heq : r.id = rule.id
    · obtain ⟨new, hnew⟩ := hacc.trace
      refine .inl ⟨new ++ [.fired r.id t.id], ?_, by simp [heq]⟩
      rw [commit, hnew, List.append_assoc]
    · have hpending : pending s.sweptRules { t with fired := fired' ++ [r.id] } <
          pending s.sweptRules { t with fired := fired' } :=
        pending_fired (t := { t with fired := fired' }) hswept hfired hopen
      have hcounted : t ∈ s.counted last t := mem_counted.mpr ⟨h.filed, .inl rfl⟩
      have hleft := left_lt hcounted hget' hpending rfl [.fired r.id t.id]
      refine .inr ⟨hacc.acts (get?_eq_some.mp hget').1 hact
        (fun u hu hbefore _ hid => ?_) fun _ => ?_, hleft.le, fun _ => hleft⟩
      · obtain rfl : u = t := eq_of_key_eq hu h.filed hid
        exact absurd hbefore Before.irrefl
      · exact ⟨fired' ++ [r.id], List.Subset.trans hgrown' (List.subset_append_left ..),
          get?_insert.trans (if_pos rfl), by simp [hnot', Ne.symm heq]⟩

/-- The card's project: its turn comes while actions are left, or less is left to do. -/
theorem OnTheWay.own
    (hacc : OnTheWay s last t rule most (s.busyAmong last fun c => c.project.id < t.project.id)
      acc) :
    Onward s last t rule most (sweepProject s.sweptRules now landing acc t.project).2 := by
  obtain ⟨fired, -, hget, hnot⟩ := hacc.1.awaits
  have hroom := hacc.1.same.members_eq.symm ▸ h.room
  have hread : { t with fired } ∈ acc.2.projectCards t.project :=
    (mem_projectCards hroom).mpr ⟨(get?_eq_some.mp hget).1, rfl⟩
  have hall : ∀ card ∈ (acc.2.projectCards t.project).filter fun t => t.archivedAt.isNone,
      card ∈ acc.2.projectCards t.project ∧ card.archivedAt = none := by simp
  have hsub : ((acc.2.projectCards t.project).filter fun t => t.archivedAt.isNone).Sublist
      (acc.2.projectCards t.project) := List.filter_sublist
  have hmine : { t with fired } ∈
      (acc.2.projectCards t.project).filter fun t => t.archivedAt.isNone :=
    List.mem_filter.mpr ⟨hread, by simp [(h.open_swept hnot).1]⟩
  rw [sweepProject_eq]
  obtain ⟨pre, _, hsplit⟩ := List.append_of_mem hmine
  rw [hsplit] at hall hsub ⊢
  have hsorted := List.pairwise_append.mp (pairwise_projectCards.sublist hsub)
  have hbefore : ∀ card ∈ pre, Before card t := fun card hcard =>
    .inr ⟨(mem_of_mem_projectCards (hall card (List.mem_append_left _ hcard)).1).2,
      hsorted.2.2 card hcard { t with fired } List.mem_cons_self⟩
  rw [List.foldl_append, List.foldl_cons]
  obtain ⟨hcourse, hle, _⟩ := hacc.cards (Q := fun c => Before c t) h.inTime hacc.1 h.filed
    ((List.sublist_append_left _ _).trans hsub)
    (fun card hcard => ⟨(hall card (List.mem_append_left _ hcard)).2, hbefore card hcard⟩)
    (fun c hc => .inl hc) fun card hcard c hc => hc.elim (·.trans (hbefore card hcard))
      fun hsame => (Before.same hsame).mpr (hbefore card hcard)
  refine course_rest h.inTime (fun card hcard => ?_)
    ((hcourse.own hacc.1 h hread rfl).imp_right fun ⟨hnext, hless, hacts⟩ => ⟨hacc.1, hnext, ?_⟩)
  · obtain ⟨hmem, hcardopen⟩ := hall card (List.mem_append_right _ (List.mem_cons_of_mem _ hcard))
    refine ⟨hmem, hcardopen, fun _ heq => ?_⟩
    have hlt : t.id.id < card.id.id := (List.pairwise_cons.mp hsorted.2.1).1 card hcard
    exact lt_irrefl _ (heq ▸ hlt)
  · -- fewer actions are taken before its turn than there are, or some of those counted on
    have hfew := h.few
    by_cases hleft : (pre.foldl (s.takeTurn now acc.2 t.project) acc).1 < sweepActions
    · exact Nat.lt_of_lt_of_le (hacts hleft) hle
    · omega

end

/-- A sweep in which the rule does not act on the card leaves less to do. -/
theorem Course.sweep (hv : Course s last t rule v) (h : Heard s last now t rule board) :
    Onward s last t rule (s.left last t v) (v.sweepRules now landing) := by
  have hsame : v.rulesInOrder.filter sweeps = s.sweptRules := by
    rw [sweptRules, rulesInOrder, rulesInOrder, hv.same.rules]
  rw [sweepRules, hsame]
  generalize hprojects : (sortBy (fun p : ProjectId => p.id)
    (s.sweptRules.map (·.project))).dedup = projects
  have hp : t.project ∈ projects := by
    obtain ⟨_, -, -, hnot⟩ := hv.awaits
    rw [← hprojects, List.mem_dedup, (sortBy_perm _ _).mem_iff, ← h.project]
    exact List.mem_map_of_mem (List.mem_of_mem_filter (h.open_swept hnot).2)
  have hsorted : projects.Pairwise fun p q => p.id < q.id := by
    rw [← hprojects]
    refine ((pairwise_sortBy _ _).sublist (List.dedup_sublist _)).imp₂ (fun p q hle hne => ?_)
      (List.nodup_dedup _)
    exact lt_of_le_of_ne hle fun heq => hne (by cases p; cases q; exact congrArg _ heq)
  obtain ⟨before, after, rfl⟩ := List.append_of_mem hp
  obtain ⟨hbefore, hafter, hcross⟩ := List.pairwise_append.mp hsorted
  have hway : OnTheWay s last t rule (s.left last t v)
      (s.busyAmong last fun c => c.project.id < t.project.id)
      (before.foldl (sweepProject s.sweptRules now landing) (0, v)) := by
    refine foldl_bounded (P := OnTheWay s last t rule (s.left last t v)) (n := 0)
      (fun p => s.busyAmong last fun c => c.project.id < p.id)
      (fun p => s.busyAmong last fun c => c.project.id ≤ p.id) .mono (fun p hp acc hacc => ?_)
      ?_ (fun _ _ => Nat.zero_le _) (fun p hp => ?_) (Nat.zero_le _) ⟨hv, Nat.le_refl _, by simp⟩
    · exact hacc.project h.inTime h.filed (hcross p hp _ List.mem_cons_self)
    · refine hbefore.imp fun {p q} hlt => ?_
      exact busyAmong_mono fun c hc => lt_of_le_of_lt hc hlt
    · exact busyAmong_mono fun c hc => lt_of_le_of_lt hc (hcross p hp _ List.mem_cons_self)
  rw [List.foldl_append, List.foldl_cons]
  refine List.foldlRecOn after _ (motive := fun acc : Nat × Tasks =>
    Onward s last t rule (s.left last t v) acc.2) (hway.own h) ?_
  intro acc hacc p hlater
  rw [sweepProject_eq]
  refine course_rest h.inTime (fun card hcard => ?_) (hacc.imp_right fun hacc => ⟨hacc.1, hacc⟩)
  obtain ⟨hcard, hopen⟩ := List.mem_filter.mp hcard
  refine ⟨hcard, Option.isNone_iff_eq_none.mp hopen, fun hcourse heq => ?_⟩
  -- a card of the same id is the card, whose project is not this one
  obtain ⟨hmem, hproject⟩ := mem_of_mem_projectCards hcard
  obtain ⟨c, hc, hsame⟩ := hcourse.same.back card hmem
  obtain rfl : c = t := eq_of_key_eq hc h.filed (hsame.id.symm.trans heq)
  have hlt := (List.pairwise_cons.mp hafter).1 p hlater
  rw [← hproject, hsame.project] at hlt
  exact lt_irrefl _ hlt

end

/-! ## Every due rule acts -/

/-- A rule that says something on idle cards and is due on a card acts on it, sooner or
later, if the rules before it that come to be due on the card say something too and fewer
cards before the card are busy than a sweep has actions. Both are asked only until as
many sweeps are over as there is left to do. -/
theorem due_comment_acts (s : Tasks) (clock : Nat → Time) (rule : BoardRule) (t : Task)
    (board : Board) (text lane : String) (days : Nat) (last : Time) (hrule : rule ∈ s.rules)
    (haction : rule.action = .comment text) (htrigger : rule.trigger = .idle lane days)
    (ht : t ∈ s.cards) (hproject : rule.project = t.project) (hboard : s.boardOf t = some board)
    (hdue : rule.idleDue t (t.laneOn board).slug (clock 0) = true)
    (hclock : ∀ n, clock n ≤ clock (n + 1)) (hroom : (s.members t.project).card ≤ projectCardsMax)
    (hlast : clock (s.left last t s) ≤ last)
    (hearlier : ∀ r ∈ s.rules, r.id < rule.id → mayTake r t (t.laneOn board).slug last = true →
      ∃ words, r.action = .comment words)
    (hfew : (s.busyAmong last fun c => Before c t) < sweepActions) :
    ∃ n new, (s.sweptAt clock n).trace = s.trace ++ new ∧ .fired rule.id t.id ∈ new := by
  have hawaits : rule.awaits t = true := by
    rw [BoardRule.idleDue, htrigger] at hdue
    simp only [Bool.and_eq_true] at hdue
    exact hdue.1.1
  simp only [BoardRule.awaits, Bool.and_eq_true, Bool.not_eq_true', List.contains_eq_mem,
    decide_eq_false_iff_not] at hawaits
  have hstart : Course s last t rule s :=
    ⟨.refl s, fun _ _ => rfl, ⟨[], by simp⟩, fun c hc _ _ => ⟨c, get?_eq_some.mpr ⟨hc, rfl⟩,
        .inr ⟨c.fired, List.Subset.refl _, rfl⟩⟩,
      t.fired, List.Subset.refl _, get?_eq_some.mpr ⟨ht, rfl⟩, hawaits.2⟩
  have hmono : Monotone clock := monotone_nat_of_le_succ hclock
  -- there is only so much to do
  by_contra hnever
  have hinv : ∀ n, n ≤ s.left last t s + 1 → Course s last t rule (s.sweptAt clock n) ∧
      s.left last t (s.sweptAt clock n) + n ≤ s.left last t s := by
    intro n hn
    induction n with
    | zero => exact ⟨hstart, Nat.le_refl _⟩
    | succ n ih =>
      obtain ⟨hcourse, _⟩ := ih (by omega)
      have hheard : Heard s last (clock n) t rule board :=
        ⟨hrule, ⟨text, haction⟩, ⟨lane, days, htrigger⟩, ht, hproject, hboard, hearlier, hroom,
          hfew, (hmono (by omega)).trans hlast, fun fired hfired =>
            idleDue_of_le hdue hfired (hmono (Nat.zero_le n))⟩
      rcases hcourse.sweep hheard with hacted | ⟨hcourse', _⟩
      · exact absurd ⟨n + 1, hacted⟩ hnever
      · refine ⟨hcourse', ?_⟩
        show s.left last t ((s.sweptAt clock n).sweepRules (clock n) landing) + (n + 1) ≤
          s.left last t s
        omega
  have := (hinv (s.left last t s + 1) (Nat.le_refl _)).2
  omega

namespace Full

open Demo

/-- An agent is started on cards that come in, one at a time. -/
def starts (id : String) : BoardRule :=
  ⟨id, project, Board.main, "work", .enter "ready", .start "codex" [] 1, true, by simp⟩

/-- A card nobody holds. -/
def waiting (id : String) (p : ProjectId) : Task := Task.file ⟨id⟩ p ⟨"ready", .ready⟩ "" 0

def card : Task := waiting "c0ffee000001" project

/-- The card sits in the lane, and the one agent of the start rule is live. -/
def full : Tasks :=
  ⟨Keyed.empty.insert card, [], Demo.board,
    (Keyed.empty.insert (starts "a1")).insert (reminds "b1" "ready"), ["a1"], .empty, []⟩

/-- A project whose turn comes first, where cards that sit for a day are moved on. -/
def ahead : ProjectId := ⟨"ahead"⟩

def moves : BoardRule :=
  ⟨"a2", ahead, Board.main, "move on", .idle "ready" 1, .move "review", true, by simp⟩

/-- Another rule speaks of the card first, one that archives it is not due for weeks, and
the full one comes last. Two cards that rules move or start agents on come before it. -/
def crowd : Tasks :=
  ⟨((Keyed.empty.insert (waiting "c0ffee000009" ahead)).insert
    (waiting "c0ffee000000" project)).insert card, [], Demo.board,
    ((((Keyed.empty.insert (tidies "a0" "ready" 30)).insert (reminds "a1" "ready")).insert
      moves).insert (reminds "b1" "ready")).insert (starts "c1"), ["c1"], .empty, []⟩

/-- Successive minutes from a day after the card was filed. -/
def clock (n : Nat) : Time := BoardRule.day + n * 60000000000

theorem clock_le (n : Nat) : clock n ≤ clock (n + 1) := by
  have h : (BoardRule.day : Int) + (n : Int) * 60000000000 ≤
      BoardRule.day + ((n + 1 : Nat) : Int) * 60000000000 := by omega
  exact h

/-- The full rule takes the card's turn and does nothing, whatever the time. -/
theorem sweepRules_full : full.sweepRules now landing = full := by
  have hrules : full.rulesInOrder.filter sweeps =
      [starts "a1", reminds "b1" "ready"] := by decide +kernel
  have hprojects : (sortBy (fun p : ProjectId => p.id)
      (([starts "a1", reminds "b1" "ready"] : List BoardRule).map (·.project))).dedup =
        [project] := by
    decide +kernel
  have hdue : due (starts "a1") [card] card (card.laneOn (Demo.board project)).slug now = true := by
    show ((starts "a1").onEnter card (card.laneOn (Demo.board project)).slug &&
      startable card (openIn [card])) = true
    decide +kernel
  have hget : full.cards.get? card.id = some card := by decide +kernel
  have happly : full.applyRule (starts "a1") card now true = .ok (none, full) := by
    have hboard : full.boardOf card = some (Demo.board project) := by decide +kernel
    have hfull : ((full.startRefusal card).isSome || (full.starting.get? card.id).isSome ||
        decide (1 ≤ full.startedBy (starts "a1").id)) = true := by decide +kernel
    rw [applyRule, hboard]
    exact if_pos hfull
  have hturn : sweepCard [card] card (card.laneOn (Demo.board project)).slug now landing
      [starts "a1", reminds "b1" "ready"] (0, full) = (1, full) := by
    rw [sweepCard, if_neg (by decide), if_pos hdue, hget]
    dsimp only
    rw [if_neg (by decide +kernel), landing, happly]
  have hproject : sweepProject [starts "a1", reminds "b1" "ready"] now landing (0, full) project =
      (1, full) := by
    exact hturn
  simp only [sweepRules, hrules, hprojects, List.foldl_cons, List.foldl_nil, hproject]

theorem sweptAt_full {n : Nat} : full.sweptAt clock n = full := by
  induction n with
  | zero => rfl
  | succ _ ih => rw [sweptAt, ih, sweepRules_full]

end Full

theorem due_comment_acts_crowd :
    ∃ n new, (Full.crowd.sweptAt Full.clock n).trace = Full.crowd.trace ++ new ∧
      .fired "b1" Full.card.id ∈ new := by
  refine due_comment_acts Full.crowd Full.clock (Demo.reminds "b1" "ready") Full.card
    (Demo.board Demo.project) "still here" "ready" 1 (Full.clock 10) ?_ rfl rfl ?_ rfl
    (by decide +kernel) (by decide +kernel) Full.clock_le (by decide +kernel) (by decide +kernel) ?_
    (by decide +kernel)
  · exact mem_insert.mpr (.inr ⟨mem_insert.mpr (.inl rfl), by decide⟩)
  · exact mem_insert.mpr (.inl rfl)
  · -- the rules that move and archive cards are before this one too
    have honly : ∀ r ∈ Full.crowd.rules.rows, r.id < "b1" →
        mayTake r Full.card (Full.card.laneOn (Demo.board Demo.project)).slug (Full.clock 10) =
          true →
        r = Demo.reminds "a1" "ready" := by decide +kernel
    intro r hr hlt htake
    rw [honly r hr hlt htake]
    exact ⟨"still here", rfl⟩

/-- A start rule that is full keeps the rules after it from ever acting. -/
theorem full_start_rule_starves_the_next :
    ¬ ∀ (s : Tasks) (clock : Nat → Time) (rule : BoardRule) (t : Task) (board : Board)
      (text lane : String) (days : Nat), rule ∈ s.rules → rule.action = .comment text →
      rule.trigger = .idle lane days → t ∈ s.cards → rule.project = t.project →
      s.boardOf t = some board → rule.idleDue t (t.laneOn board).slug (clock 0) = true →
      (∀ n, clock n ≤ clock (n + 1)) → (s.members t.project).card ≤ projectCardsMax →
      ∃ n new, (s.sweptAt clock n).trace = s.trace ++ new ∧ .fired rule.id t.id ∈ new := by
  intro hall
  obtain ⟨_, new, htrace, hnew⟩ := hall Full.full Full.clock (Demo.reminds "b1" "ready") Full.card
    (Demo.board Demo.project) "still here" "ready" 1 (mem_insert.mpr (.inl rfl)) rfl rfl
    (mem_insert.mpr (.inl rfl)) rfl (by decide +kernel) (by decide +kernel) Full.clock_le
    (by decide +kernel)
  rw [Full.sweptAt_full] at htrace
  have hnone : new = [] := List.self_eq_append_right.mp htrace
  rw [hnone] at hnew
  cases hnew

end AgentDocker.Daemon.Tasks
