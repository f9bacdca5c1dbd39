import AgentDocker.Proofs.CardWrites
import AgentDocker.Lib.Spells
import AgentDocker.Lib.Runs

/-!
# A rule acts once in a stay

A card's stay in a lane begins when it is placed there. The rules that have acted on
it during the stay are kept with it, and a rule kept there does not act again. One
action is not noted: a rule that archives a card leaves no mark on it, since an
archived card is out of every rule's reach. A card taken off the archive is back in
the same stay, and an idle rule that archived it archives it once more.

What is kept along a run is therefore that a rule which has acted in this stay is
noted with the card, or has archived it: then the card is still archived, or the rule
is one that acts only when a card comes in.
-/

namespace AgentDocker.Daemon

open AgentDocker.Core Lib Keyed

/-- The card a mark is of. -/
def Mark.task : Mark → TaskId
  | placed task => task
  | fired _ task => task

namespace Tasks

variable {s s' : Tasks} {t next : Task} {now : Time}

/-- No rule acts twice on a card between two placements of it. -/
def ActsOnce (s : Tasks) : Prop :=
  ∀ (rule : String) (card : TaskId), OnceBetween (.placed card) (.fired rule card) s.trace

/-- The marks of a card's stay. -/
def stay (s : Tasks) (card : TaskId) : List Mark := since (.placed card) s.trace

/-- A rule that will not act on the card again in this stay, unless it is taken off the
archive. -/
def Spent (rules : Keyed BoardRule.id) (rule : String) (t : Task) : Prop :=
  rule ∈ t.fired ∨ ∃ r ∈ rules, r.id = rule ∧ r.action = .archive ∧ r.enabled = true ∧
    r.project = t.project ∧ r.board = t.boardSlug ∧
    (t.archivedAt.isSome = true ∨ ∃ lane, r.trigger = .enter lane)

variable {marks : List Mark} {p : ProjectId} {r rule : String} {lands : String → TaskId → Bool}

theorem Spent.mono {rules : Keyed BoardRule.id} (h : Spent rules rule t)
    (hproject : next.project = t.project) (hboard : next.boardSlug = t.boardSlug)
    (hfired : t.fired ⊆ next.fired)
    (hopen : t.archivedAt.isSome = true → next.archivedAt.isSome = true) :
    Spent rules rule next := by
  rcases h with h | ⟨r, hr, hid, haction, henabled, hrp, hrb, hkept⟩
  · exact .inl (hfired h)
  · exact .inr ⟨r, hr, hid, haction, henabled, hrp.trans hproject.symm, hrb.trans hboard.symm,
      hkept.imp_left hopen⟩

/-! ## What is kept along a run -/

/-- Only start rules have agents started. -/
def Starts (rules : Keyed BoardRule.id) (e : Starting) : Prop :=
  ∀ rule, e.rule = some rule →
    ∃ r ∈ rules, r.id = rule ∧ ∃ runtime args max, r.action = .start runtime args max

structure Stays (s : Tasks) : Prop where
  once : ActsOnce s
  /-- A rule that has acted in this stay is spent. -/
  spent : ∀ rule card, .fired rule card ∈ s.stay card → ∃ t ∈ s.cards, t.id = card ∧
    Spent s.rules rule t
  asked : ∀ e ∈ s.starting, Starts s.rules e
  /-- The rule of an agent still to launch has not acted in this stay. -/
  waiting : ∀ e ∈ s.starting, e.launched = false → ∀ rule, e.rule = some rule →
    .fired rule e.task ∉ s.stay e.task

theorem Stays.spent_of_mem (hs : Stays s) (ht : t ∈ s.cards) (h : .fired rule t.id ∈ s.stay t.id) :
    Spent s.rules rule t := by
  obtain ⟨_, ht', hid, hspent⟩ := hs.spent rule t.id h
  exact eq_of_key_eq ht' ht hid ▸ hspent

/-- One more agent to start, or one launched. -/
theorem Stays.starting {entry : Starting} {live : List String} (hs : Stays s)
    (hasked : Starts s.rules entry)
    (hwaiting : entry.launched = false → ∀ rule, entry.rule = some rule →
      .fired rule entry.task ∉ s.stay entry.task) :
    Stays (s.starts live (s.starting.insert entry)) where
  once := hs.once
  spent := hs.spent
  asked e he := by
    rcases mem_insert.mp he with rfl | ⟨he, -⟩
    · exact hasked
    · exact hs.asked e he
  waiting e he := by
    rcases mem_insert.mp he with rfl | ⟨he, -⟩
    · exact hwaiting
    · exact hs.waiting e he

variable {id : TaskId}

/-- Marks of one card change no other card's stay. -/
theorem mem_since_other {trace : List Mark} {card : TaskId} (hmarks : ∀ m ∈ marks, m.task = id)
    (hne : card ≠ id) :
    .fired rule card ∈ since (.placed card) (trace ++ marks) ↔
      .fired rule card ∈ since (.placed card) trace := by
  have hplaced : Mark.placed card ∉ marks := fun hmem => hne (hmarks _ hmem)
  rw [since_append hplaced, List.mem_append]
  exact or_iff_left fun hmem => hne (hmarks _ hmem)

/-- A commit of one card, under marks of it. -/
theorem Stays.commit (hs : Stays s) (hmarks : ∀ m ∈ marks, m.task = next.id)
    (honce : ∀ rule, OnceBetween (.placed next.id) (.fired rule next.id) (s.trace ++ marks))
    (hspent : ∀ rule, .fired rule next.id ∈ since (.placed next.id) (s.trace ++ marks) →
      Spent s.rules rule next)
    (hwaiting : ∀ e ∈ s.starting, e.task = next.id → e.launched = false → ∀ rule,
      e.rule = some rule → .fired rule next.id ∉ since (.placed next.id) (s.trace ++ marks)) :
    Stays (s.commit next marks) where
  once rule card := by
    by_cases hcard : card = next.id
    · exact hcard ▸ honce rule
    · exact (hs.once rule card).append fun hmem => hcard (hmarks _ hmem)
  spent rule card hmem := by
    by_cases hcard : card = next.id
    · rw [hcard] at hmem
      exact ⟨next, mem_insert.mpr (.inl rfl), hcard.symm, hspent rule hmem⟩
    · obtain ⟨t, ht, hid, htspent⟩ := hs.spent rule card ((mem_since_other hmarks hcard).mp hmem)
      exact ⟨t, mem_insert.mpr (.inr ⟨ht, hid ▸ hcard⟩), hid, htspent⟩
  asked := hs.asked
  waiting e he hlaunched rule hrule := by
    by_cases hcard : e.task = next.id
    · show .fired rule e.task ∉ since (.placed e.task) (s.trace ++ marks)
      rw [hcard]
      exact hwaiting e he hcard hlaunched rule hrule
    · exact fun hmem => hs.waiting e he hlaunched rule hrule
        ((mem_since_other hmarks hcard).mp hmem)

/-- A card written in its stay, with the rules spent on it still spent. -/
theorem Stays.commit_quiet (hs : Stays s) (ht : t ∈ s.cards) (hid : next.id = t.id)
    (hspent : ∀ rule, Spent s.rules rule t → Spent s.rules rule next) :
    Stays (s.commit next []) := by
  refine hs.commit (by simp) (fun rule => ?_)
    (fun rule hmem => ?_) fun e he hcard hlaunched rule hrule => ?_
  · rw [List.append_nil]
    exact hs.once rule next.id
  · rw [List.append_nil, hid] at hmem
    exact hspent rule (hs.spent_of_mem ht hmem)
  · rw [List.append_nil, ← hcard]
    exact hs.waiting e he hlaunched rule hrule

/-- A card placed begins a stay. -/
theorem Stays.commit_placed (hs : Stays s) : Stays (s.commit next [.placed next.id]) := by
  have hnone : ∀ rule, .fired rule next.id ∉ since (.placed next.id)
      (s.trace ++ [.placed next.id]) := by
    intro rule
    rw [since_concat, if_pos rfl]
    exact List.not_mem_nil
  exact hs.commit (by simp [Mark.task]) (fun rule => (hs.once rule next.id).append (by simp))
    (fun rule hmem => absurd hmem (hnone rule)) fun _ _ _ _ rule _ => hnone rule

/-- A rule acts on a card for the first time in its stay, and is spent. -/
theorem Stays.commit_fired (hs : Stays s) (ht : t ∈ s.cards) (hid : next.id = t.id)
    (hnew : .fired rule t.id ∉ s.stay t.id) (hspent : Spent s.rules rule next)
    (hkeeps : ∀ r, Spent s.rules r t → Spent s.rules r next)
    (hwaiting : ∀ e ∈ s.starting, e.task = t.id → e.launched = false → e.rule ≠ some rule) :
    Stays (s.commit next [.fired rule t.id]) := by
  have hsince : since (.placed t.id) (s.trace ++ [.fired rule t.id]) = s.stay t.id ++
      [.fired rule t.id] := by
    rw [since_concat, if_neg (by simp)]
    rfl
  refine hs.commit (by simp [Mark.task, hid]) (fun r => ?_) (fun r hmem => ?_)
    fun e he hcard hlaunched r hr hmem => ?_
  · rw [hid]
    refine (hs.once r t.id).concat fun heq => ?_
    rw [← heq]
    exact hnew
  · rw [hid, hsince] at hmem
    rcases List.mem_append.mp hmem with hmem | hmem
    · exact hkeeps r (hs.spent_of_mem ht hmem)
    · rw [List.mem_singleton, Mark.fired.injEq] at hmem
      exact hmem.1 ▸ hspent
  · rw [hid, hsince] at hmem
    rw [hid] at hcard
    rcases List.mem_append.mp hmem with hmem | hmem
    · rw [← hcard] at hmem
      exact hs.waiting e he hlaunched r hr hmem
    · rw [List.mem_singleton, Mark.fired.injEq] at hmem
      exact hwaiting e he hcard hlaunched (hmem.1 ▸ hr)

/-- A rule acts on a card for the first time in its stay, and ends it. -/
theorem Stays.commit_ended (hs : Stays s) (hid : next.id = t.id)
    (hnew : .fired rule t.id ∉ s.stay t.id) :
    Stays (s.commit next [.fired rule t.id, .placed t.id]) := by
  have hmarks : s.trace ++ [.fired rule t.id, .placed t.id] =
      (s.trace ++ [.fired rule t.id]) ++ [.placed t.id] := by simp
  have hnone : ∀ r, .fired r t.id ∉ since (.placed t.id)
      (s.trace ++ [.fired rule t.id, .placed t.id]) := by
    intro r
    rw [hmarks, since_concat, if_pos rfl]
    exact List.not_mem_nil
  refine hs.commit (by simp [Mark.task, hid]) (fun r => ?_) (fun r hmem => ?_)
    fun e _ _ _ r _ => ?_
  · rw [hid, hmarks]
    refine ((hs.once r t.id).concat fun heq => ?_).append (by simp)
    rw [← heq]
    exact hnew
  · rw [hid] at hmem
    exact absurd hmem (hnone r)
  · rw [hid]
    exact hnone r

/-! ## Rules -/

/-- A rule acts on an open card of its board on which it has not acted in this stay. -/
theorem Stays.acts {rule : BoardRule} (hs : Stays s) (ht : t ∈ s.cards) (hrule : rule ∈ s.rules)
    (henabled : rule.enabled = true) (hproject : rule.project = t.project)
    (hboard : rule.board = t.boardSlug) (hnew : .fired rule.id t.id ∉ s.stay t.id)
    (hact : Acts s rule t now s') : Stays s' := by
  -- a rule that starts no agent has none to launch
  have hidle : (∀ runtime args max, rule.action ≠ .start runtime args max) →
      ∀ e ∈ s.starting, e.task = t.id → e.launched = false → e.rule ≠ some rule.id := by
    intro hnot e he _ _ heq
    obtain ⟨_, hr, hid, runtime, args, max, haction⟩ := hs.asked e he rule.id heq
    rw [eq_of_key_eq hr hrule hid] at haction
    exact hnot runtime args max haction
  cases hact with
  | stands => exact hs
  | comments _ haction =>
    have hid : ({ t with fired := t.fired ++ [rule.id] } : Task).id = t.id := rfl
    refine hs.commit_fired ht hid hnew (.inl (by simp)) (fun r hr => ?_) (hidle (by simp [haction]))
    exact hr.mono rfl rfl (List.subset_append_left _ _) id
  | moves _ _ _ hsame => exact hs.commit_ended hsame.id hnew
  | archives haction =>
    have hid : ({ t with archivedAt := some now, updatedAt := now } : Task).id = t.id := rfl
    refine hs.commit_fired ht hid hnew ?_ (fun r hr => ?_) (hidle (by simp [haction]))
    · exact .inr ⟨rule, hrule, rfl, haction, henabled, hproject, hboard, .inl rfl⟩
    · exact hr.mono rfl rfl (List.Subset.refl _) fun _ => rfl
  | asks runtime args max haction =>
    refine hs.starting (fun r hr => ?_) fun _ r hr => ?_
    · exact ⟨rule, hrule, Option.some.inj hr, runtime, args, max, haction⟩
    · exact Option.some.inj hr ▸ hnew

/-- A rule a sweep applies has not acted in this stay. -/
theorem Stays.swept (hs : Stays s) (h : Swept now s s') : Stays s' := by
  induction h with
  | refl => exact hs
  | @tail _ _ _ _ _ hrule ht hopen hfired henabled hproject hboard hsweeps hact ih =>
    refine ih.acts ht hrule henabled hproject hboard (fun hmem => ?_) hact
    rcases ih.spent_of_mem ht hmem with hmem | ⟨_, hr, hid, haction, -, -, -, hkept⟩
    · exact hfired hmem
    · rw [eq_of_key_eq hr hrule hid] at haction hkept
      rcases hkept with hshelved | ⟨_, hlane⟩
      · simp [hopen] at hshelved
      · simp [sweeps, haction, hlane] at hsweeps

/-- Another rule's acting does not make one act. -/
theorem Acts.stay {rule : BoardRule} (h : Acts s rule t now s') (hne : r ≠ rule.id) {card : TaskId}
    (hnew : .fired r card ∉ s.stay card) : .fired r card ∉ s'.stay card := by
  obtain ⟨marks, htrace, hmarks⟩ := h.trace
  have hother : Mark.fired r card ∉ marks := by
    intro hmem
    rcases hmarks _ hmem with heq | heq
    · cases heq
    · exact hne (Mark.fired.inj heq).1
  rw [Tasks.stay, htrace]
  by_cases hplaced : Mark.placed card ∈ marks
  · exact fun hmem => hother (mem_of_mem_since_append hplaced hmem)
  · rw [since_append hplaced, List.mem_append, not_or]
    exact ⟨hnew, hother⟩

/-- Nor does a rule's acting on another card. -/
theorem Acts.stay_other {rule : BoardRule} (h : Acts s rule t now s') {card : TaskId}
    (hne : card ≠ t.id) (hnew : .fired r card ∉ s.stay card) : .fired r card ∉ s'.stay card := by
  obtain ⟨_, htrace, hmarks⟩ := h.trace
  rw [Tasks.stay, htrace, mem_since_other (fun m hm => ?_) hne]
  · exact hnew
  · rcases hmarks m hm with rfl | rfl <;> rfl

/-- The rules of a lane a card came into, none of which has acted on it in this
stay. -/
theorem Stays.enterRules {lane : String} {rules : List BoardRule} (hs : Stays s)
    (hnodup : (rules.map BoardRule.id).Nodup)
    (hrules : ∀ r ∈ rules, r ∈ s.rules ∧ r.enabled = true ∧
      ∀ t, s.cards.get? id = some t → r.project = t.project ∧ r.board = t.boardSlug)
    (hnew : ∀ r ∈ rules, .fired r.id id ∉ s.stay id) :
    Stays (Tasks.enterRules id lane now lands rules s) ∧
      ∀ r card, card ≠ id → .fired r card ∉ s.stay card →
        .fired r card ∉ (Tasks.enterRules id lane now lands rules s).stay card := by
  induction rules generalizing s with
  | nil => exact ⟨hs, fun _ _ _ h => h⟩
  | cons rule rest ih =>
    rw [List.map_cons, List.nodup_cons] at hnodup
    have hrest : ∀ r ∈ rest, r.id ≠ rule.id :=
      fun r hr heq => hnodup.1 (heq ▸ List.mem_map_of_mem hr)
    rw [Tasks.enterRules]
    split
    · exact ⟨hs, fun _ _ _ h => h⟩
    next card hget =>
    split
    · exact ⟨hs, fun _ _ _ h => h⟩
    next hstop =>
    simp only [Bool.or_eq_true, not_or, Option.not_isSome_iff_eq_none] at hstop
    obtain ⟨hcard, hid⟩ := get?_eq_some.mp hget
    split
    · next s' hact =>
      have hact := applyRule_ok hstop.1 hact
      obtain ⟨hrule, henabled, hon⟩ := hrules rule List.mem_cons_self
      obtain ⟨hproject, hboard⟩ := hon card hget
      have hs' := hs.acts hcard hrule henabled hproject hboard
        (by rw [hid]; exact hnew rule List.mem_cons_self) hact
      have hsame := hact.sameCards hcard
      have hrules' : ∀ r ∈ rest, r ∈ s'.rules ∧ r.enabled = true ∧
          ∀ t, s'.cards.get? id = some t → r.project = t.project ∧ r.board = t.boardSlug := by
        intro r hr
        obtain ⟨hr, henabled, hon⟩ := hrules r (List.mem_cons_of_mem _ hr)
        refine ⟨hsame.rules ▸ hr, henabled, fun t' ht' => ?_⟩
        have hsame' := hsame.get? hcard (by rw [hid]; exact ht')
        obtain ⟨hproject, hboard⟩ := hon card hget
        exact ⟨hproject.trans hsame'.project.symm, hboard.trans hsame'.boardSlug.symm⟩
      obtain ⟨hstays, hother⟩ := ih hs' hnodup.2 hrules' fun r hr =>
        hact.stay (hrest r hr) (hnew r (List.mem_cons_of_mem _ hr))
      refine ⟨hstays, fun r c hne hc => hother r c hne ?_⟩
      exact hact.stay_other (hid.symm ▸ hne) hc
    · exact ih hs hnodup.2 (fun r hr => hrules r (List.mem_cons_of_mem _ hr))
        fun r hr => hnew r (List.mem_cons_of_mem _ hr)

theorem mem_boardRules {r : BoardRule} (h : r ∈ s.boardRules p) :
    r ∈ s.rules ∧ r.project = p := by
  obtain ⟨hmem, hp⟩ := List.mem_filter.mp (List.mem_of_mem_take h)
  exact ⟨(sortBy_perm _ _).mem_iff.mp hmem, of_decide_eq_true hp⟩

theorem nodup_boardRules : ((s.boardRules p).map BoardRule.id).Nodup := by
  have hperm : (s.rulesInOrder.map BoardRule.id).Nodup :=
    ((sortBy_perm _ _).map BoardRule.id).nodup_iff.mpr s.rules.nodup
  exact hperm.sublist (((List.take_sublist _ _).trans List.filter_sublist).map _)

/-- A card that was just placed, in a stay no rule has acted in. -/
theorem Stays.rulesOnEnter (lane : String) (now : Time) (lands : String → TaskId → Bool)
    (hs : Stays s)
    (ht : ∀ t', s.cards.get? t.id = some t' → t.Same t')
    (hnew : ∀ rule, .fired rule t.id ∉ s.stay t.id) :
    Stays (s.rulesOnEnter t lane now lands) ∧ ∀ r card, card ≠ t.id → .fired r card ∉ s.stay card →
        .fired r card ∉ (s.rulesOnEnter t lane now lands).stay card := by
  refine hs.enterRules (nodup_boardRules.sublist (List.filter_sublist.map _)) (fun r hr => ?_)
    fun r _ => hnew r.id
  obtain ⟨hr, hon⟩ := List.mem_filter.mp hr
  obtain ⟨hrule, hproject⟩ := mem_boardRules hr
  simp only [BoardRule.onEnter, BoardRule.awaits, Bool.and_eq_true, decide_eq_true_eq] at hon
  refine ⟨hrule, hon.1.1.1.1, fun t' ht' => ?_⟩
  have hsame := ht t' ht'
  exact ⟨hproject.trans hsame.project.symm, hon.1.1.2.symm.trans hsame.boardSlug.symm⟩

/-- What is done to a card by hand in its stay. -/
theorem Stays.hand (hs : Stays s) (ht : t ∈ s.cards) (h : Hand s t s') : Stays s' := by
  cases h with
  | stands => exact hs
  | keeps _ hsame hfired hopen =>
    exact hs.commit_quiet ht hsame.id fun rule hspent =>
      hspent.mono hsame.project hsame.boardSlug (by rw [hfired]; exact List.Subset.refl _)
        (by rw [hopen]; exact id)
  | archives now =>
    have hid : ({ t with archivedAt := some now, updatedAt := now } : Task).id = t.id := rfl
    exact hs.commit_quiet ht hid fun rule hspent =>
      hspent.mono rfl rfl (List.Subset.refl _) fun _ => rfl

/-! ## Filing -/

theorem Stays.foldl_commit (hs : Stays s) (filed : List Task) :
    Stays (filed.foldl (fun s t => s.commit t [.placed t.id]) s) := by
  induction filed generalizing s with
  | nil => exact hs
  | cons _ _ ih => exact ih hs.commit_placed

/-- The rules act on one card of a batch after the other. -/
theorem Stays.foldl_rulesOnEnter {filed : List Task} (hs : Stays s)
    (hnodup : (filed.map Task.id).Nodup)
    (hcards : ∀ t ∈ filed, ∀ t', s.cards.get? t.id = some t' → t.Same t')
    (hnew : ∀ t ∈ filed, ∀ rule, .fired rule t.id ∉ s.stay t.id) :
    Stays (filed.foldl (fun s t => s.rulesOnEnter t (t.lane.getD "") now lands) s) := by
  induction filed generalizing s with
  | nil => exact hs
  | cons t rest ih =>
    rw [List.map_cons, List.nodup_cons] at hnodup
    have hne : ∀ u ∈ rest, u.id ≠ t.id := fun u hu heq => hnodup.1 (heq ▸ List.mem_map_of_mem hu)
    obtain ⟨hstays, hother⟩ := hs.rulesOnEnter (t.lane.getD "") now lands
      (hcards t List.mem_cons_self) (hnew t List.mem_cons_self)
    refine ih hstays hnodup.2 (fun u hu u' hu' => ?_) fun u hu rule => ?_
    · have hsame : SameCards s (s.rulesOnEnter t (t.lane.getD "") now lands) :=
        rulesOnEnter_sameCards
      obtain ⟨hmem, hid⟩ := get?_eq_some.mp hu'
      obtain ⟨u₀, hu₀, hsame₀⟩ := hsame.back u' hmem
      exact (hcards u (List.mem_cons_of_mem _ hu) u₀
        (get?_eq_some.mpr ⟨hu₀, hsame₀.id.symm.trans hid⟩)).trans hsame₀
    · exact hother rule u.id (hne u hu) (hnew u (List.mem_cons_of_mem _ hu) rule)

theorem Stays.taskFile {filing : Filing} {lands : Bool} {ruleLands : String → TaskId → Bool}
    (hs : Stays s) (hids : (filing.cards.map NewCard.id).Nodup)
    (hfresh : ∀ card ∈ filing.cards, s.cards.get? card.id = none)
    (h : s.taskFile filing now lands ruleLands = .ok s') : Stays s' := by
  rw [Tasks.taskFile] at h
  split at h
  · cases h
  next filed s₁ hfile =>
  cases h
  obtain ⟨hnodup, -, hcards⟩ := fileCards_adds hids hfresh hfile
  obtain ⟨_, after, -, _, rfl⟩ := fileCards_ok hfile
  have hboard : Stays (s.putBoard after) := { hs with }
  refine (hboard.foldl_commit filed).foldl_rulesOnEnter hnodup
    (fun t ht t' ht' => ?_) fun t ht rule => ?_
  · obtain ⟨hmem', hid⟩ := get?_eq_some.mp ht'
    have hmem := (hcards t).mpr (.inl ht)
    exact eq_of_key_eq hmem hmem' hid.symm ▸ .refl t
  · rw [Tasks.stay, Tasks.foldl_commit]
    intro hmem
    have := mem_of_mem_since_append
      (List.mem_map_of_mem (f := fun t : Task => Mark.placed t.id) ht) hmem
    simp at this

/-! ## Starts -/

theorem Stays.launching (hs : Stays s) {entry : Starting}
    (hentry : s.starting.get? id = some entry) : Stays (s.launching entry) := by
  refine hs.starting ?_ fun hlaunched => by cases hlaunched
  exact hs.asked entry (get?_eq_some.mp hentry).1

theorem Stays.launches (hs : Stays s) (h : Launches s id now s') : Stays s' := by
  cases h with
  | stands => exact hs
  | marks _ hentry => exact hs.launching hentry
  | hands entry hentry hlaunched t board agent hcard hopen =>
    have hs' := hs.launching hentry
    obtain ⟨hmem, htask⟩ := get?_eq_some.mp hentry
    obtain ⟨ht, rfl⟩ := get?_eq_some.mp hcard
    have ht' : t ∈ (s.launching entry).cards := ht
    cases hpulled : pulled t board now with
    | mk moved next =>
      obtain ⟨hsame, _, hfired⟩ := pulled_ok hopen hpulled
      have hid : (handed next agent entry.rule now).id = t.id := hsame.id
      have hsame' : t.Same (handed next agent entry.rule now) :=
        { hsame with }
      cases hrule : entry.rule with
      | none =>
        rw [hrule] at hid hsame'
        cases moved with
        | true =>
          rw [← hid]
          exact hs'.commit_placed
        | false =>
          refine hs'.commit_quiet ht' hid fun r hr =>
            hr.mono hsame'.project hsame'.boardSlug ?_ (by simp [hopen])
          show t.fired ⊆ next.fired ++ []
          rw [hfired]
          simp
      | some rule =>
        rw [hrule] at hid hsame'
        have hnew : .fired rule t.id ∉ (s.launching entry).stay t.id := by
          rw [← htask]
          exact hs.waiting entry hmem hlaunched rule hrule
        cases moved with
        | true => exact hs'.commit_ended hid hnew
        | false =>
          have hkept : next.fired = t.fired := hfired
          refine hs'.commit_fired ht' hid hnew (.inl (by simp [handed])) (fun r hr => ?_) ?_
          · refine hr.mono hsame'.project hsame'.boardSlug ?_ (by simp [hopen])
            show t.fired ⊆ next.fired ++ [rule]
            rw [hkept]
            exact List.subset_append_left _ _
          · -- the start of this card is the one just launched
            intro e he hcard hwaits
            rcases mem_insert.mp he with rfl | ⟨-, hne⟩
            · cases hwaits
            · exact absurd (hcard.trans htask.symm) hne

/-! ## Runs -/

/-- Cards come off the archive only on boards where no rule archives cards that
sit. -/
def Restorable (s : Tasks) : Op → Prop
  | .unarchive _ id _ _ => ∀ t ∈ s.cards, t.id = id → ∀ r ∈ s.rules, r.enabled = true →
      r.project = t.project → r.board = t.boardSlug → r.action = .archive →
        ∃ lane, r.trigger = .enter lane
  | _ => True

theorem Stays.step {op : Op} (hs : Stays s) (hgenerated : s.Generated op)
    (hrestorable : s.Restorable op) : Stays (s.step op) := by
  cases op with
  | file =>
    exact kept_of hs fun s' => hs.taskFile hgenerated.1 hgenerated.2
  | update =>
    refine kept_of hs fun s' h => ?_
    obtain ⟨_, _, _, hget, -, rfl | ⟨_, hid, hproject, hboard, hfired, hopen, -, -, rfl⟩⟩ :=
      taskUpdate_ok h
    · exact hs
    · refine hs.commit_quiet (get?_eq_some.mp hget).1 hid fun rule hspent => ?_
      refine hspent.mono hproject ?_ (by rw [hfired]; exact List.Subset.refl _)
        (by rw [hopen]; exact id)
      rw [Task.boardSlug, Task.boardSlug, hboard]
  | move actor id lane reranked said now lands ruleLands =>
    rw [Tasks.step, taskMove]
    cases h : s.moveCard actor id lane reranked said now lands with
    | error => exact hs
    | ok result =>
      obtain ⟨_ | next, _⟩ := result
      · obtain ⟨_, ht, hhand⟩ := moveCard_ok h
        exact hs.hand ht hhand
      · obtain ⟨_, _, -, rfl⟩ := moveCard_ok h
        have hplaced : Stays (s.commit next [.placed next.id]) := hs.commit_placed
        refine (hplaced.rulesOnEnter lane.slug now ruleLands (fun t' ht' => ?_) fun rule => ?_).1
        · rw [Tasks.commit, get?_insert, if_pos rfl] at ht'
          cases ht'
          exact .refl next
        · rw [Tasks.stay, Tasks.commit, since_concat, if_pos rfl]
          exact List.not_mem_nil
  | archive _ _ now =>
    refine kept_of hs fun s' h => ?_
    obtain ⟨_, hget, rfl | ⟨hopen, rfl⟩⟩ := taskArchive_ok h
    · exact hs
    · exact hs.hand (get?_eq_some.mp hget).1 (.archives now hopen)
  | unarchive _ _ now =>
    refine kept_of hs fun s' h => ?_
    obtain ⟨t, hget, rfl | rfl⟩ := taskUnarchive_ok h
    · exact hs
    · obtain ⟨ht, hid⟩ := get?_eq_some.mp hget
      have hidle := hrestorable t ht hid
      have hid' : ({ t with archivedAt := none, updatedAt := now } : Task).id = t.id := rfl
      refine hs.commit_quiet ht hid' fun rule hspent => ?_
      rcases hspent with hmem | ⟨r, hr, hrid, haction, henabled, hrp, hrb, -⟩
      · exact .inl hmem
      · exact .inr ⟨r, hr, hrid, haction, henabled, hrp, hrb,
          .inr (hidle r hr henabled hrp hrb haction)⟩
  | sweep => exact hs.swept sweepRules_swept
  | start =>
    refine kept_of hs fun s' h => ?_
    obtain ⟨-, rfl⟩ := taskStart_ok h
    exact hs.starting (fun _ hrule => by cases hrule) fun _ _ hrule => by cases hrule
  | launched => exact hs.launches startLaunched_launches
  | ended =>
    exact ⟨hs.once, hs.spent, fun e he => hs.asked e (mem_erase.mp he).1,
      fun e he => hs.waiting e (mem_erase.mp he).1⟩
  | exited => exact { hs with }

namespace Shelf

open Demo

/-- Cards that come in as done are archived. -/
def clears : BoardRule :=
  ⟨"a2", project, Board.main, "clear", .enter "done", .archive, true, archive_words⟩

def spoken : Keyed BoardRule.id := (Keyed.empty.insert clears).insert (reminds "b1" "backlog")

def tidied : Keyed BoardRule.id := Keyed.empty.insert (tidies "a1" "backlog" 1)

def filing : NewCard := card "c0ffee000001"

def file : Op := .file ⟨project, Board.main, [filing]⟩ 0 true fun _ _ => true

def sweepOn (days : Int) : Op := .sweep (days * BoardRule.day) fun _ _ => true

/-- Filed, archived by the rule, taken off the archive, and swept once more. -/
def again : List Op := [file, sweepOn 1, .unarchive person filing.id BoardRule.day true, sweepOn 2]

/-- Filed and spoken of, done and archived by the rule for that, and taken off the archive. -/
def restored : List Op :=
  [file, sweepOn 1, sweepOn 2,
    .move person filing.id ⟨"done", .done⟩ false false (2 * BoardRule.day) true fun _ _ => true,
    .unarchive person filing.id (2 * BoardRule.day) true, sweepOn 4]

def filedCard : Task :=
  { Task.file filing.id project backlog "" 0 with key := (Demo.board project).takeKey.1 }

variable (rules : Keyed BoardRule.id)

/-- The board with the card filed. -/
def filed : Tasks :=
  ((initial [] Demo.board rules).putBoard (Demo.board project).takeKey.2).commit filedCard
    [.placed filing.id]

theorem step_file
    (h : (((filed rules).boardRules project).filter fun r => r.onEnter filedCard "backlog") = []) :
    (initial [] Demo.board rules).step file = filed rules := by
  have hfile : (initial [] Demo.board rules).fileCards ⟨project, Board.main, [filing]⟩ 0 true =
      .ok ([filedCard], filed rules) :=
    fileCards_plain rfl rfl rfl rfl rfl rfl
  rw [file, Tasks.step, Tasks.taskFile, hfile]
  show Tasks.enterRules _ _ _ _ (((filed rules).boardRules project).filter fun r =>
    r.onEnter filedCard "backlog") (filed rules) = filed rules
  rw [h, Tasks.enterRules]

theorem trace_again : (run step (initial [] Demo.board tidied) again).trace =
    [.placed filing.id, .fired "a1" filing.id, .fired "a1" filing.id] := by
  rw [again, run, List.foldl_cons, step_file tidied (by decide +kernel)]
  decide +kernel

theorem trace_restored : (run step (initial [] Demo.board spoken) restored).trace =
    [.placed filing.id, .fired "b1" filing.id, .placed filing.id, .fired "a2" filing.id] := by
  rw [restored, run, List.foldl_cons, step_file spoken (by decide +kernel)]
  decide +kernel

theorem restorable : Each step Restorable (initial [] Demo.board spoken) restored := by
  refine ⟨trivial, trivial, trivial, trivial, ?_, trivial, trivial⟩
  rw [step_file spoken (by decide +kernel)]
  have honly : ∀ r ∈ (run step (filed spoken) ((restored.drop 1).take 3)).rules.rows,
      r.action = .archive → r = clears := by decide +kernel
  intro t _ _ r hr _ _ _ harchive
  exact ⟨"done", by rw [honly r hr harchive]; rfl⟩

end Shelf

/-- A rule acts on a card at most once in each stay. -/
theorem rules_act_once_a_stay (boards : List Board) (defaultBoard : ProjectId → Board)
    (rules : Keyed BoardRule.id) (ops : List Op)
    (hgenerated : Each step Generated (initial boards defaultBoard rules) ops)
    (hrestorable : Each step Restorable (initial boards defaultBoard rules) ops) :
    Always step ActsOnce (initial boards defaultBoard rules) ops := by
  have hempty : Stays (initial boards defaultBoard rules) := by
    refine ⟨fun rule card mid hmid _ => ?_, fun _ _ h => absurd h List.not_mem_nil,
      fun e he => absurd he not_mem_empty, fun e he => absurd he not_mem_empty⟩
    rw [List.infix_nil.mp hmid]
    exact Nat.zero_le 1
  exact (always_of_each hempty (fun s op hs hop => hs.step hop.1 hop.2)
    (hgenerated.and hrestorable)).imp fun s hs => hs.once

theorem rules_act_once_a_stay_swept :
    Always step ActsOnce (initial [] Demo.board Shelf.spoken) Shelf.restored ∧
      (run step (initial [] Demo.board Shelf.spoken) Shelf.restored).trace.count
        (.fired "b1" Shelf.filing.id) = 1 := by
  rw [Shelf.trace_restored]
  refine ⟨rules_act_once_a_stay [] Demo.board Shelf.spoken _ ?_ Shelf.restorable, by decide⟩
  exact ⟨⟨by simp, fun _ _ => rfl⟩, trivial, trivial, trivial, trivial, trivial, trivial⟩

/-- A card taken off the archive is archived once more in the same stay. -/
theorem shelved_card_is_archived_twice_a_stay :
    ¬ ∀ (boards : List Board) (defaultBoard : ProjectId → Board) (rules : Keyed BoardRule.id)
      (ops : List Op), Each step Generated (initial boards defaultBoard rules) ops →
      Always step ActsOnce (initial boards defaultBoard rules) ops := by
  intro hall
  have honce := (hall [] Demo.board Shelf.tidied Shelf.again
    ⟨⟨by simp, fun _ _ => rfl⟩, trivial, trivial, trivial, trivial⟩).last "a1" Shelf.filing.id
  rw [Shelf.trace_again] at honce
  have hcount := honce [.fired "a1" Shelf.filing.id, .fired "a1" Shelf.filing.id]
    ⟨[.placed Shelf.filing.id], [], rfl⟩ (by decide)
  exact absurd hcount (by decide)

end Tasks

end AgentDocker.Daemon
