import AgentDocker.Proofs.Lanes

/-!
# A card put beside another

A move beside a card gives the moved card a rank between that card's and its
neighbour's. Between two different ranks there is always one, so the moved card
comes to stand right there and nobody else moves.

Two cards of a lane can have one rank. A card off the board keeps its rank, and
the next one filed is given the same; put back, the two share it. Then there is
nothing between them, and what is put after the first comes to stand after the
second.

So a move does what it was asked exactly when the two cards it puts another
between have different ranks, and the moved card is among those the daemon
reads.
-/

namespace AgentDocker.Daemon.Placed

open AgentDocker.Core Lib Keyed

/-! ## What a move does -/

/-- A card in a lane, as a move leaves it there. -/
structure InLane (lane : Lane) (t w : Task) : Prop where
  id : w.id = t.id
  project : w.project = t.project
  board : w.board = t.board
  archivedAt : w.archivedAt = none
  column : w.column = lane.category
  lane : t.lane.isSome → w.lane = some lane.slug

/-- A move that is not refused. -/
structure Moves (s : Placed) (m : Move) (t : Task) (b : Board) (after before : Option Task)
    (lane : Lane) (w : Task) (s' : Placed) : Prop where
  card : s.tasks.cards.get? m.id = some t
  onBoard : s.tasks.boardOf t = some b
  namedAfter : s.neighbour m.after = .ok after
  namedBefore : s.neighbour m.before = .ok before
  target : destination b m (after.or before) = .ok lane
  written : InLane lane t w
  places : ∃ moved, s'.toPlaces = setRank s.toPlaces t.id
    ((rankNow s.toPlaces (s.tasks.projectCards t.project) b lane t moved after before).getD
      (s.rank t.id))
  tasks : (s'.tasks = s.tasks ∧ w = t) ∨ ∃ marks, s'.tasks = s.tasks.commit w marks

variable {actor : Actor} {agent : AgentId} {b : Board} {lands moved : Bool} {holds : Holds}
  {lane : Lane} {l : List Task} {m : Move} {after before : Option Task} {p : Places}
  {r slug source : String} {found next t w x : Task} {filing : Tasks.Filing} {now : Time}

theorem moveTo_inLane {author : String} {human : Bool}
    (h : t.moveTo author human lane now = .ok (moved, next)) :
    InLane lane t next ∧ (moved = false → t.lane.isSome → next = t) := by
  obtain ⟨-, hsame, hopen, hcolumn, hlane, hmoved⟩ := Task.moveTo_ok h
  refine ⟨⟨hsame.id, hsame.project, hsame.board, hopen, hcolumn, hlane⟩, fun hstays => ?_⟩
  rw [hstays, if_neg (by simp)] at hmoved
  exact hmoved.2

variable {id : TaskId}

theorem moveCard_inLane {s s' : Tasks} {reranked said : Bool} {came : Option Task}
    (hcard : s.cards.get? id = some t) (hlane : t.lane.isSome)
    (hmove : t.moveTo actor.id actor.human lane now = .ok (moved, next))
    (h : s.moveCard actor id lane reranked said now lands = .ok (came, s')) :
    ∃ w, InLane lane t w ∧ ((s' = s ∧ w = t) ∨ ∃ marks, s' = s.commit w marks) := by
  obtain ⟨hin, hsame⟩ := moveTo_inLane hmove
  unfold Tasks.moveCard at h
  simp only [hcard, hmove] at h
  split at h
  · next hstands =>
    cases h
    have hmoved : moved = false := by
      cases moved with
      | false => rfl
      | true => simp at hstands
    refine ⟨next, hin, .inl ⟨rfl, hsame hmoved hlane⟩⟩
  · split at h
    · cases h
      refine ⟨_, ?_, .inr ⟨_, rfl⟩⟩
      split
      · exact { hin with }
      · exact hin
    · cases h

theorem taskMove_moves {s s' : Placed} (hlanes : ∀ t ∈ s.tasks.cards, t.lane.isSome)
    (h : s.taskMove m = .ok s') :
    ∃ t b after before lane w, Moves s m t b after before lane w s' ∧
      s'.pullSource = s.pullSource := by
  unfold taskMove at h
  cases hcard : s.tasks.cards.get? m.id with
  | none => simp [hcard] at h
  | some t =>
    have hlane := hlanes t (get?_eq_some.mp hcard).1
    cases hboard : s.tasks.boardOf t with
    | none => simp [hcard, hboard, bind_eq_ok] at h
    | some b =>
      simp only [hcard, hboard, bind_eq_ok, require_ok, exists_const] at h
      obtain ⟨-, after, hafter, before, hbefore, lane, hdest, h⟩ := h
      split at h
      · cases h
      next moved next hmove =>
      split at h
      · cases h
      next came tasks hwrite =>
      cases h
      obtain ⟨w, hin, htasks⟩ := moveCard_inLane hcard hlane hmove hwrite
      exact ⟨t, b, after, before, lane, w, ⟨hcard, hboard, hafter, hbefore, hdest,
        hin, ⟨moved, rfl⟩, htasks⟩, rfl⟩

/-! ## Along a run -/

/-- Every card has a rank and a lane of its own, and no board has two lanes of one
slug. -/
structure Ordered (s : Placed) : Prop where
  ranks : ∀ t ∈ s.tasks.cards, Rank.Proper (s.rank t.id)
  lanes : ∀ t ∈ s.tasks.cards, t.lane.isSome
  stored : ∀ b ∈ s.tasks.boards, b.Distinct
  unshaped : ∀ project, (s.tasks.defaultBoard project).Distinct

variable {s s' : Placed}

theorem Ordered.board (h : s.Ordered) {project : ProjectId}
    (hb : s.tasks.board project slug = some b) : b.Distinct := by
  have hmem : b ∈ s.tasks.projectBoards project := List.mem_of_find?_eq_some hb
  rw [Tasks.projectBoards] at hmem
  split at hmem
  · exact h.stored b (List.mem_filter.mp hmem).1
  · rcases List.mem_append.mp hmem with hmem | hmem
    · exact h.stored b (List.mem_filter.mp hmem).1
    · rw [List.mem_singleton.mp hmem]
      exact h.unshaped project

/-- The cards of a lane that were read have proper ranks. -/
theorem Ordered.read (h : s.Ordered) {project : ProjectId} (ht : t ∈ s.tasks.projectCards project) :
    Rank.Proper (s.rank t.id) :=
  h.ranks t (Tasks.mem_of_mem_projectCards ht).1

theorem Ordered.congr (h : s.Ordered) (hplaces : s'.toPlaces = s.toPlaces)
    (htasks : s'.tasks = s.tasks) : s'.Ordered where
  ranks := by
    rw [hplaces, htasks]
    exact h.ranks
  lanes := htasks ▸ h.lanes
  stored := htasks ▸ h.stored
  unshaped := htasks ▸ h.unshaped

theorem Ordered.reranked (h : s.Ordered) (id : TaskId) (hr : Rank.Proper r) :
    Ordered { s with toPlaces := setRank s.toPlaces id r } where
  ranks t ht := by
    show Rank.Proper (Function.update s.rank id r t.id)
    by_cases hid : t.id = id
    · rwa [hid, Function.update_self]
    · rw [Function.update_of_ne hid]
      exact h.ranks t ht
  lanes := h.lanes
  stored := h.stored
  unshaped := h.unshaped

/-- Writing a card with a lane and a proper rank. -/
theorem Ordered.commit (h : s.Ordered) (hlane : w.lane.isSome) (hr : Rank.Proper r)
    (marks : List Mark) :
    Ordered { s with toPlaces := setRank s.toPlaces w.id r, tasks := s.tasks.commit w marks } where
  ranks t ht := by
    rw [rank_setRank]
    rcases mem_insert.mp ht with rfl | ⟨ht, hne⟩
    · rwa [if_pos rfl]
    · rw [if_neg hne]
      exact h.ranks t ht
  lanes t ht := by
    rcases mem_insert.mp ht with rfl | ⟨ht, -⟩
    · exact hlane
    · exact h.lanes t ht
  stored := h.stored
  unshaped := h.unshaped

theorem setRank_self : setRank p id (p.rank id) = p := by
  unfold setRank
  rw [Function.update_eq_self]

/-- Writing a card where it stands. -/
theorem Ordered.rewrite (h : s.Ordered) (ht : t ∈ s.tasks.cards) (hid : w.id = t.id)
    (hlane : w.lane.isSome) (marks : List Mark) :
    Ordered { s with tasks := s.tasks.commit w marks } := by
  have hcommit := h.commit hlane (hid ▸ h.ranks t ht) marks
  rwa [hid, setRank_self] at hcommit

theorem proper_rankLast {project : ProjectId} (h : s.Ordered) {lane : String} {skip : TaskId} :
    Rank.Proper (rankLast s.toPlaces (s.tasks.projectCards project) b lane skip) := by
  refine Rank.proper_between (fun r hr => ?_) (by simp) (by simp)
  obtain ⟨hr, -⟩ := Option.filter_eq_some_iff.mp hr
  obtain ⟨_, ht, rfl⟩ := Option.map_eq_some_iff.mp hr
  have ht := List.mem_reverse.mp (List.mem_of_find?_eq_some ht)
  exact h.read (mem_inLane.mp ht).1

theorem proper_gap {pre post : List Task} (hl : p.Sorted (pre ++ post))
    (hranks : ∀ t ∈ pre ++ post, Rank.Proper (p.rank t.id)) : Rank.Proper (gapRank p pre post) := by
  refine Rank.proper_between (fun r hr => ?_) (fun r hr => ?_) (fun a ha r hr => ?_)
  · obtain ⟨t, ht, rfl⟩ := Option.mem_map.mp hr
    exact hranks t (by simp [List.mem_of_getLast? ht])
  · obtain ⟨t, ht, rfl⟩ := Option.mem_map.mp hr
    exact hranks t (by simp [List.mem_of_head? ht])
  · obtain ⟨t, ht, rfl⟩ := Option.mem_map.mp ha
    obtain ⟨u, hu, rfl⟩ := Option.mem_map.mp hr
    exact Places.rank_le_of_key_lt ((List.pairwise_append.mp hl).2.2 t (List.mem_of_getLast? ht) u
      (List.mem_of_head? hu))

theorem findIdx_none (h : x.id ∉ l.map Task.id) :
    (l.findIdx? fun t => decide (t.id = x.id)) = none := by
  refine List.findIdx?_eq_none_iff.mpr fun t ht => decide_eq_false fun heq => h ?_
  exact heq ▸ List.mem_map_of_mem ht

/-- Beside a card of the lane in its gap, beside any other at its own rank. -/
theorem proper_beside (hnodup : (l.map Task.id).Nodup) (hl : p.Sorted l)
    (hranks : ∀ t ∈ l, Rank.Proper (p.rank t.id)) (hx : Rank.Proper (p.rank x.id)) :
    Rank.Proper (rankAfter p l x) ∧ Rank.Proper (rankBefore p l x) := by
  by_cases hmem : x.id ∈ l.map Task.id
  · obtain ⟨_, hy, hid⟩ := List.mem_map.mp hmem
    obtain ⟨pre, post, hsplit⟩ := List.append_of_mem hy
    rw [rankAfter_split hnodup hsplit hid.symm, rankBefore_split hnodup hsplit hid.symm]
    rw [hsplit] at hl hranks
    have hbefore := proper_gap hl hranks
    rw [List.append_cons] at hl hranks
    exact ⟨proper_gap hl hranks, hbefore⟩
  · rw [rankAfter, rankBefore, findIdx_none hmem]
    have hown : ∀ r ∈ some (p.rank x.id), Rank.Proper r := fun r hr => by cases hr; exact hx
    exact ⟨Rank.proper_between hown (by simp) (by simp),
      Rank.proper_between (by simp) hown (by simp)⟩

theorem neighbour_ok {id : Option TaskId} {x : Option Task} (h : s.neighbour id = .ok x) :
    x.map Task.id = id ∧ ∀ t ∈ x, t ∈ s.tasks.cards := by
  unfold neighbour at h
  split at h
  · cases h
    exact ⟨rfl, by simp⟩
  · split at h
    · cases h
    next t ht =>
    cases h
    obtain ⟨hmem, hid⟩ := get?_eq_some.mp ht
    refine ⟨by rw [Option.map_some, hid], fun u hu => ?_⟩
    cases hu
    exact hmem

theorem neighbour_some (h : s.tasks.cards.get? id = some t) :
    s.neighbour (some id) = .ok (some t) := by
  simp only [neighbour, h]

theorem proper_rankNow (h : s.Ordered) {project : ProjectId}
    (hafter : ∀ x ∈ after, x ∈ s.tasks.cards) (hbefore : ∀ x ∈ before, x ∈ s.tasks.cards) :
    ∀ r ∈ rankNow s.toPlaces (s.tasks.projectCards project) b lane t moved after before,
      Rank.Proper r := by
  intro r hr
  have hnodup : ((others s.toPlaces (s.tasks.projectCards project) b lane.slug t.id).map
      Task.id).Nodup := nodup_others (Tasks.nodup_projectCards project) t.id
  have hsorted : s.Sorted (others s.toPlaces (s.tasks.projectCards project) b lane.slug t.id) :=
    sorted_others (Tasks.nodup_projectCards project) t.id
  have hranks : ∀ u ∈ others s.toPlaces (s.tasks.projectCards project) b lane.slug t.id,
      Rank.Proper (s.rank u.id) := fun u hu => h.read (mem_others.mp hu).1
  unfold rankNow at hr
  cases after with
  | some x =>
    cases hr
    exact (proper_beside hnodup hsorted hranks (h.ranks x (hafter x rfl))).1
  | none =>
    cases before with
    | some x =>
      cases hr
      exact (proper_beside hnodup hsorted hranks (h.ranks x (hbefore x rfl))).2
    | none =>
      dsimp only at hr
      split at hr
      · cases hr
        exact proper_rankLast h
      · cases hr

theorem taskMove_ordered (h : s.Ordered) (hmove : s.taskMove m = .ok s') : s'.Ordered := by
  obtain ⟨t, b, after, before, lane, w, hm, -⟩ := taskMove_moves h.lanes hmove
  obtain ⟨ht, _⟩ := get?_eq_some.mp hm.card
  obtain ⟨moved, hplaces⟩ := hm.places
  have hproper : Rank.Proper ((rankNow s.toPlaces (s.tasks.projectCards t.project) b lane t moved
      after before).getD (s.rank t.id)) := by
    cases hrank : rankNow s.toPlaces
      (s.tasks.projectCards t.project) b lane t moved after before with
    | none => exact h.ranks t ht
    | some r =>
      exact proper_rankNow h (neighbour_ok hm.namedAfter).2 (neighbour_ok hm.namedBefore).2 r hrank
  have hlane : w.lane.isSome := by rw [hm.written.lane (h.lanes t ht)]; rfl
  rcases hm.tasks with ⟨htasks, -⟩ | ⟨marks, htasks⟩
  · exact (h.reranked t.id hproper).congr hplaces htasks
  · have hcommit := h.commit hlane hproper marks
    rw [hm.written.id] at hcommit
    exact hcommit.congr hplaces htasks

/-- The ranks a batch is given, one after the other. -/
structure Ranking.Sound (s : Placed) (r : Ranking) (done : List Task) : Prop where
  last : ∀ lane rank, r.last.lookup lane = some rank → Rank.Proper rank
  filed : ∀ t ∈ done, Rank.Proper (r.places.rank t.id)
  kept : ∀ id, Rank.Proper (s.rank id) → Rank.Proper (r.places.rank id)

theorem Ranking.sound_add (h : s.Ordered) {project : ProjectId} {r : Ranking} {done : List Task}
    (hr : r.Sound s done) :
    (Ranking.add s.toPlaces (s.tasks.projectCards project) b now r t).Sound s (done ++ [t]) := by
  have hproper : Rank.Proper (Rank.between ((r.last.lookup (t.lane.getD "")).or
      (((inLane s.toPlaces (s.tasks.projectCards project) b (t.lane.getD "")).getLast?.map
        fun t => s.rank t.id).filter fun r => decide (r ≠ ""))) none) := by
    refine Rank.proper_between (fun rank hrank => ?_) (by simp) (by simp)
    rcases Option.or_eq_some_iff.mp hrank with hlast | ⟨-, hlast⟩
    · exact hr.last _ rank hlast
    · obtain ⟨hlast, -⟩ := Option.filter_eq_some_iff.mp hlast
      obtain ⟨_, hu, rfl⟩ := Option.map_eq_some_iff.mp hlast
      exact h.read (mem_inLane.mp (List.mem_of_getLast? hu)).1
  have hupdate : ∀ id, (id = t.id ∨ Rank.Proper (r.places.rank id)) →
      Rank.Proper ((Ranking.add s.toPlaces (s.tasks.projectCards project) b now r t).places.rank
        id) := by
    intro id hid
    show Rank.Proper (Function.update r.places.rank t.id _ id)
    by_cases heq : id = t.id
    · rw [heq, Function.update_self]
      exact hproper
    · rw [Function.update_of_ne heq]
      exact hid.resolve_left heq
  refine ⟨fun lane rank hlast => ?_, fun u hu => hupdate u.id ?_, fun id hid => ?_⟩
  · unfold Ranking.add at hlast
    rw [List.lookup_cons] at hlast
    split at hlast
    · cases hlast
      exact hproper
    · exact hr.last lane rank hlast
  · rcases List.mem_append.mp hu with hu | hu
    · exact .inr (hr.filed u hu)
    · exact .inl (congrArg _ (List.mem_singleton.mp hu))
  · exact hupdate id (.inr (hr.kept id hid))

theorem Ranking.sound_foldl (h : s.Ordered) {project : ProjectId} {filed : List Task} :
    (filed.foldl (Ranking.add s.toPlaces (s.tasks.projectCards project) b now)
      ⟨[], s.toPlaces⟩).Sound s filed := by
  induction filed using List.reverseRecOn with
  | nil => exact ⟨by simp, by simp, fun _ h => h⟩
  | append_singleton _ _ ih =>
    rw [List.foldl_append, List.foldl_cons, List.foldl_nil]
    exact Ranking.sound_add h ih

theorem mem_putBoard {tasks : Tasks} {c : Board} (h : c ∈ (tasks.putBoard b).boards) :
    c ∈ tasks.boards ∨ c = b := by
  rcases List.mem_append.mp h with h | h
  · exact .inl (List.mem_filter.mp h).1
  · exact .inr (List.mem_singleton.mp h)

theorem taskFile_ordered (h : s.Ordered) (hfile : s.taskFile filing now lands = .ok s') :
    s'.Ordered := by
  unfold taskFile at hfile
  split at hfile
  · cases hfile
  next b _ =>
  split at hfile
  · cases hfile
  next filed tasks hcards =>
  cases hfile
  obtain ⟨_, _, hcounter, hdraft, rfl⟩ := Tasks.fileCards_ok hcards
  obtain ⟨hlanes, -⟩ := Tasks.draft_ok hdraft
  obtain ⟨-, hfiled⟩ := Tasks.draft_new hdraft
  have hranks : (filed.foldl (Ranking.add s.toPlaces
      (s.tasks.projectCards filing.project) b now) ⟨[], s.toPlaces⟩).Sound s filed :=
    Ranking.sound_foldl h
  rw [Tasks.foldl_commit]
  refine ⟨fun t ht => ?_, fun t ht => ?_, fun c hc => ?_, h.unshaped⟩
  · rcases mem_of_mem_foldl_insert ht with ht | ht
    · exact hranks.filed t ht
    · exact hranks.kept t.id (h.ranks t ht)
  · rcases mem_of_mem_foldl_insert ht with ht | ht
    · exact (hfiled t ht).2
    · exact h.lanes t ht
  · rcases mem_putBoard hc with hc | rfl
    · exact h.stored c hc
    · rw [Board.Distinct, hlanes]
      exact h.board hcounter

/-- A request that writes at most one card, and leaves it in its lane. -/
theorem withTasks_ordered {result : Except String Tasks} (h : s.Ordered)
    (hresult : ∀ tasks, result = .ok tasks → tasks = s.tasks ∨
      ∃ t ∈ s.tasks.cards, ∃ w : Task, tasks = s.tasks.commit w [] ∧ w.id = t.id ∧ w.lane = t.lane)
    (hok : s.withTasks result = .ok s') : s'.Ordered := by
  cases result with
  | error => cases hok
  | ok tasks =>
    cases hok
    rcases hresult tasks rfl with rfl | ⟨t, ht, _, rfl, hid, hlane⟩
    · exact h
    · exact h.rewrite ht hid (hlane ▸ h.lanes t ht) []

theorem archive_ordered (h : s.Ordered)
    (harchive : s.withTasks (s.tasks.taskArchive actor id now lands) = .ok s') : s'.Ordered := by
  refine withTasks_ordered h (fun tasks htasks => ?_) harchive
  obtain ⟨t, hget, rfl | ⟨-, rfl⟩⟩ := Tasks.taskArchive_ok htasks
  · exact .inl rfl
  · exact .inr ⟨t, (get?_eq_some.mp hget).1, _, rfl, rfl, rfl⟩

theorem unarchive_ordered (h : s.Ordered)
    (hun : s.withTasks (s.tasks.taskUnarchive actor id now lands) = .ok s') : s'.Ordered := by
  refine withTasks_ordered h (fun tasks htasks => ?_) hun
  obtain ⟨t, hget, rfl | rfl⟩ := Tasks.taskUnarchive_ok htasks
  · exact .inl rfl
  · exact .inr ⟨t, (get?_eq_some.mp hget).1, _, rfl, rfl, rfl⟩

/-- An update that lands writes the board in the shape and the lane agents pull from. -/
theorem boardUpdate_ok {project : ProjectId} {shape : Shape}
    (h : s.boardUpdate actor project slug shape lands = .ok s') :
    ∃ b, ∃ hcheck : shape.check b.slug = .ok (), s.tasks.board project slug = some b ∧ s' = { s with
        tasks := s.tasks.putBoard (b.reshape shape (Shape.check_ok hcheck).lanes_ne)
        pullSource := Function.update s.pullSource project
          (Function.update (s.pullSource project) slug shape.pullSource) } := by
  unfold boardUpdate at h
  split at h
  · cases h
  · split at h
    · cases h
    next b hb =>
    split at h
    · cases h
    next hcheck =>
    split at h
    · cases h
      exact ⟨b, hcheck, hb, rfl⟩
    · cases h

theorem boardUpdate_ordered {project : ProjectId} {shape : Shape} (h : s.Ordered)
    (hupdate : s.boardUpdate actor project slug shape lands = .ok s') :
    s'.Ordered := by
  obtain ⟨_, hcheck, -, rfl⟩ := boardUpdate_ok hupdate
  refine { h with stored := fun c hc => ?_ }
  rcases mem_putBoard hc with hc | rfl
  · exact h.stored c hc
  · exact Board.reshape_distinct (Shape.check_ok hcheck)

/-! ### Pulls -/

theorem pull_ok {named : Bool} (h : t.pull agent b source named now = .ok next) :
    next.id = t.id ∧ (t.lane.isSome → next.lane.isSome) := by
  simp only [Task.pull, bind_eq_ok, require_ok, pure_eq_ok, exists_const] at h
  obtain ⟨-, -, -, rfl⟩ := h
  split
  · cases b.lane b.pullTarget with
    | none => exact ⟨rfl, id⟩
    | some => exact ⟨rfl, fun _ => rfl⟩
  · exact ⟨rfl, id⟩

theorem takeOver_ok {holder : AgentId} (h : t.takeOver agent holder now = .ok next) :
    next.id = t.id ∧ next.lane = t.lane := by
  simp only [Task.takeOver, bind_eq_ok, require_ok, pure_eq_ok, exists_const] at h
  obtain ⟨-, -, rfl⟩ := h
  exact ⟨rfl, rfl⟩

theorem finishPull_ordered {granted : Bool} (h : s.Ordered) (ht : Rank.Proper (s.rank t.id))
    (hid : next.id = t.id) (hlane : next.lane.isSome) :
    (s.finishPull b found t next granted lands).2.Ordered := by
  unfold finishPull
  dsimp only
  split
  · exact h
  · split
    · rw [← hid]
      refine h.commit hlane ?_ _
      split
      · exact proper_rankLast h
      · rwa [hid]
    · exact h

theorem freed_same (t : Task) (ended : Option AgentId) :
    (freed t ended).id = t.id ∧ (freed t ended).lane = t.lane := by
  unfold freed
  split <;> exact ⟨rfl, rfl⟩

theorem takeCard_ordered {p : Pull} (h : s.Ordered) (hfound : found ∈ s.tasks.cards) :
    (s.takeCard p holds found now lands).2.Ordered := by
  unfold takeCard
  split
  · exact h
  next b _ =>
  dsimp only
  have hsame := freed_same found (found.assignee.filter fun holder =>
    p.task.isSome && found.column.waiting && !holds.live holder)
  generalize freed found _ = t at hsame ⊢
  have hlane : t.lane.isSome := hsame.2 ▸ h.lanes found hfound
  have hproper : Rank.Proper (s.rank t.id) := hsame.1 ▸ h.ranks found hfound
  split
  · exact h
  · split
    · split
      · exact h
      · split
        · exact h
        next next hnext =>
        obtain ⟨hid, hl⟩ := takeOver_ok hnext
        exact finishPull_ordered h hproper hid (hl ▸ hlane)
    · split
      · split
        · exact h
        · split
          · exact h.rewrite (w := { t with updatedAt := now }) hfound hsame.1 hlane []
          · exact h
      · split
        · exact h
        · split
          · exact h
          next next hnext =>
          obtain ⟨hid, hl⟩ := pull_ok hnext
          exact finishPull_ordered h hproper hid (hl hlane)

theorem nextReady_mem {cards : List Task} {caller : AgentId} {openBlocker : TaskId → Bool}
    (h : (b.nextReady source p cards caller openBlocker).card = some t) : t ∈ cards := by
  rw [Board.nextReady, Pick.foldl_look_card, Option.none_or] at h
  exact (List.mem_filter.mp ((p.order_perm _).mem_iff.mp (List.mem_of_find?_eq_some h))).1

theorem taskPull_ordered {p : Pull} (h : s.Ordered) :
    (s.taskPull p holds now lands).2.Ordered := by
  unfold taskPull
  split
  · split
    · exact h
    · next t hget => exact takeCard_ordered h (get?_eq_some.mp hget).1
  · split
    · exact h
    · dsimp only
      split
      · exact h
      next t hpick =>
      have ht := (List.mem_filter.mp (nextReady_mem hpick)).1
      exact takeCard_ordered h (Tasks.mem_of_mem_projectCards ht).1

theorem kept_ordered {result : Except String Placed} (h : s.Ordered)
    (hok : ∀ s', result = .ok s' → s'.Ordered) : (s.kept result).Ordered := by
  cases result with
  | error => exact h
  | ok s' => exact hok s' rfl

theorem step_ordered (h : s.Ordered) {op : Op} : (s.step op).Ordered := by
  cases op with
  | file => exact kept_ordered h fun _ => taskFile_ordered h
  | move => exact kept_ordered h fun _ => taskMove_ordered h
  | archive => exact kept_ordered h fun _ => archive_ordered h
  | unarchive => exact kept_ordered h fun _ => unarchive_ordered h
  | boardUpdate =>
    exact kept_ordered h fun _ => boardUpdate_ordered h
  | pull => exact taskPull_ordered h

theorem run_ordered {boards : List Board} (hboards : ∀ b ∈ boards, b.Distinct)
    {source : ProjectId → String → String} {keyPrefix : ProjectId → String} {ops : List Op} :
    (run step (initial boards source keyPrefix) ops).Ordered := by
  refine Always.last (always_of_invariant ?_ fun s op h => step_ordered h)
  exact ⟨fun t ht => absurd ht not_mem_empty, fun t ht => absurd ht not_mem_empty,
    hboards, fun project => Board.classic_distinct project _⟩

/-! ## A move beside a card -/

/-- A lane's cards, by their ids, in order. -/
def laneOrder (s : Placed) (project : ProjectId) (b : Board) (lane : String) : List TaskId :=
  (inLane s.toPlaces (s.tasks.projectCards project) b lane).map Task.id

/-- The lane a move goes to. -/
def Goes (s : Placed) (m : Move) (b : Board) (lane : Lane) : Prop :=
  ∃ after before, s.neighbour m.after = .ok after ∧ s.neighbour m.before = .ok before ∧
    destination b m (after.or before) = .ok lane

/-- The card is one of those the daemon reads of its project. -/
def Read (s : Placed) (project : ProjectId) (c : TaskId) : Prop :=
  c ∈ (s.tasks.projectCards project).map Task.id

theorem destination_mem {beside : Option Task} (h : destination b m beside = .ok lane) :
    lane ∈ b.lanes := by
  unfold destination at h
  split at h
  · split at h
    · next hmem =>
      cases h
      exact hmem
    · cases h
  · split at h
    · next lane hfirst =>
      cases h
      exact List.mem_of_find?_eq_some hfirst
    · cases h
  · cases h
    exact Board.laneOf_mem _ _
  · cases h

theorem Moves.drawn (h : s.Ordered) (hm : Moves s m t b after before lane w s') :
    drawn b lane.slug w = true := by
  have ht := (get?_eq_some.mp hm.card).1
  have hslug : b.slug = t.boardSlug := by simpa using List.find?_some hm.onBoard
  have hboard : w.boardSlug = b.slug := by
    rw [hslug, Task.boardSlug, hm.written.board, Task.boardSlug]
  have hlane : w.laneOn b = lane := by
    rw [Task.laneOn, hm.written.lane (h.lanes t ht), hm.written.column]
    exact Board.laneOf_own (h.board hm.onBoard) (destination_mem hm.target)
  simp [Placed.drawn, hm.written.archivedAt, hboard, hlane]

theorem Moves.projectCards (hm : Moves s m t b after before lane w s') (project : ProjectId) :
    s'.tasks.projectCards project = (s.tasks.projectCards project).map (Tasks.replace w) := by
  have ht := (get?_eq_some.mp hm.card).1
  rcases hm.tasks with ⟨htasks, rfl⟩ | ⟨marks, htasks⟩
  · rw [htasks]
    refine (List.map_congr_left fun u hu => ?_).trans (List.map_id _) |>.symm
    unfold Tasks.replace
    split
    · next heq => exact eq_of_key_eq ht (Tasks.mem_of_mem_projectCards hu).1 heq.symm
    · rfl
  · rw [htasks]
    exact Tasks.projectCards_commit ht hm.written.id hm.written.project marks project

/-- A move after a card, or before it, puts the moved card right there, with the others
as they were, if and only if it is one of those read and the card it comes to stand
against has another rank. -/
theorem taskMove_beside {boards : List Board} (hboards : ∀ b ∈ boards, b.Distinct)
    (source : ProjectId → String → String) (keyPrefix : ProjectId → String) (ops : List Op)
    (s s' : Placed) (hs : s = run step (initial boards source keyPrefix) ops) (m : Move)
    (hmove : s.taskMove m = .ok s') (t : Task) (ht : s.tasks.cards.get? m.id = some t) (b : Board)
    (hb : s.tasks.boardOf t = some b) (lane : Lane) (hlane : s.Goes m b lane) (x : TaskId)
    (hx : x ∈ s.laneOrder t.project b lane.slug) (hother : x ≠ m.id) :
    (m.after = some x →
      (PlacedAfter (s.laneOrder t.project b lane.slug) (s'.laneOrder t.project b lane.slug) m.id x ↔
        s.Read t.project m.id ∧ RoomAfter s.rank (s.laneOrder t.project b lane.slug) m.id x)) ∧
    (m.after = none → m.before = some x → (PlacedBefore (s.laneOrder t.project b lane.slug)
        (s'.laneOrder t.project b lane.slug) m.id x ↔
        s.Read t.project m.id ∧ RoomBefore s.rank (s.laneOrder t.project b lane.slug) m.id x)) ∧
    ((s.tasks.cards.rows.filter fun u => decide (u.project = t.project)).length ≤
      Tasks.projectCardsMax → s.Read t.project m.id) := by
  have h : s.Ordered := hs ▸ run_ordered hboards
  obtain ⟨t', b', after, before, lane', w, hm, -⟩ := taskMove_moves h.lanes hmove
  obtain rfl : t = t' := Option.some.inj (ht.symm.trans hm.card)
  obtain rfl : b = b' := Option.some.inj (hb.symm.trans hm.onBoard)
  obtain ⟨after', before', hafter, hbefore, hdest⟩ := hlane
  obtain rfl : after = after' := Except.ok.inj (hm.namedAfter.symm.trans hafter)
  obtain rfl : before = before' := Except.ok.inj (hm.namedBefore.symm.trans hbefore)
  obtain rfl : lane' = lane := Except.ok.inj (hm.target.symm.trans hdest)
  obtain ⟨htmem, hid⟩ := get?_eq_some.mp ht
  have hwid : w.id = m.id := hm.written.id.trans hid
  obtain ⟨_, hplaces⟩ := hm.places
  obtain ⟨x, hin, rfl⟩ := List.mem_map.mp hx
  have hx : x ∈ others s.toPlaces (s.tasks.projectCards t.project) b lane'.slug w.id := by
    obtain ⟨hread, hdrawn⟩ := mem_inLane.mp hin
    exact mem_others.mpr ⟨hread, hdrawn, hwid ▸ hother⟩
  have hranks : ∀ u ∈ others s.toPlaces (s.tasks.projectCards t.project) b lane'.slug w.id,
      Rank.Proper (s.rank u.id) := fun u hu => h.read (mem_others.mp hu).1
  unfold laneOrder Read
  rw [hm.projectCards, hplaces, ← hwid]
  refine ⟨fun hx' => ?_, fun hnone hx' => ?_, fun hle => ?_⟩
  · rw [hx'] at hafter
    obtain ⟨_, rfl, hy⟩ := Option.map_eq_some_iff.mp (neighbour_ok hafter).1
    simp only [rankNow, Option.getD_some, ← hm.written.id]
    exact placedAfter_iff (Tasks.nodup_projectCards _) (hm.drawn h) hx hy hranks
  · rw [hnone] at hafter
    rw [hx'] at hbefore
    obtain ⟨_, rfl, hy⟩ := Option.map_eq_some_iff.mp (neighbour_ok hbefore).1
    obtain rfl : after = none := Option.map_eq_none_iff.mp (neighbour_ok hafter).1
    simp only [rankNow, Option.getD_some, ← hm.written.id]
    exact placedBefore_iff (Tasks.nodup_projectCards _) (hm.drawn h) hx hy hranks
  · -- everything is read of a project that is not too large
    rw [hm.written.id]
    refine List.mem_map_of_mem ?_
    rw [Tasks.projectCards, List.take_of_length_le
      (by rw [(sortBy_perm _ _).length_eq]; exact hle), (sortBy_perm _ _).mem_iff]
    exact List.mem_filter.mpr ⟨htmem, decide_eq_true rfl⟩

namespace Shelf

open Demo

def file (id : String) (now : Time) : Op := .file ⟨project, Board.main, [card id]⟩ now true

/-- What filing a card that names no other leaves. -/
def filed (s : Placed) (id : String) (now : Time) : Placed :=
  let counter := (s.tasks.board project Board.main).getD (Demo.board project)
  let t := { Task.file ⟨id⟩ project backlog "" now with key := counter.takeKey.1 }
  { s with
    toPlaces := (Ranking.add s.toPlaces (s.tasks.projectCards project) counter now
      ⟨[], s.toPlaces⟩ t).places
    tasks := (s.tasks.putBoard counter.takeKey.2).commit t [.placed t.id] }

theorem step_file (s : Placed) (id : String) (now : Time)
    (h : (s.tasks.board project Board.main).isSome = true) :
    s.step (file id now) = filed s id now := by
  obtain ⟨_, hcounter⟩ := Option.isSome_iff_exists.mp h
  have hfile : s.tasks.fileCards ⟨project, Board.main, [card id]⟩ now true = _ :=
    Tasks.fileCards_plain rfl rfl rfl rfl hcounter rfl
  show s.kept (s.taskFile _ _ _) = _
  unfold taskFile filed
  simp only [hcounter, hfile, Option.getD_some, List.foldl_cons, List.foldl_nil]
  rfl

/-- The person puts the last card after the first. -/
def move : Move := ⟨person, ⟨"c"⟩, none, none, some ⟨"a"⟩, none, false, none, 5, true⟩

def start : Placed := initial [] (fun _ _ => "ready") fun _ => "AD"

def threeOps : List Op := [file "a" 0, file "b" 1, file "c" 2]

/-- The first was off the board while the second was filed. -/
def shelvedOps : List Op :=
  [file "a" 0, .archive person ⟨"a"⟩ 1 true, file "b" 2, .unarchive person ⟨"a"⟩ 3 true, file "c" 4]

def three : Placed := filed (filed (filed start "a" 0) "b" 1) "c" 2

def shelved : Placed :=
  filed (step (filed (step (filed start "a" 0) (.archive person ⟨"a"⟩ 1 true)) "b" 2)
    (.unarchive person ⟨"a"⟩ 3 true)) "c" 4

theorem run_three : run step start threeOps = three := by
  simp only [threeOps, run, List.foldl_cons, List.foldl_nil]
  rw [step_file start "a" 0 (by decide +kernel), step_file _ "b" 1 (by decide +kernel),
    step_file _ "c" 2 (by decide +kernel)]
  rfl

theorem run_shelved : run step start shelvedOps = shelved := by
  simp only [shelvedOps, run, List.foldl_cons, List.foldl_nil]
  rw [step_file start "a" 0 (by decide +kernel), step_file _ "b" 2 (by decide +kernel),
    step_file _ "c" 4 (by decide +kernel)]
  rfl

theorem eq_ok_kept (s : Placed) {result : Except String Placed} (h : result.isOk = true) :
    result = .ok (s.kept result) := by
  cases result with
  | error => cases h
  | ok => rfl

/-- The board once it has numbered three cards. -/
def numbered : Board := { Demo.board project with lastKey := 3 }

def first : Task :=
  { Task.file ⟨"a"⟩ project backlog "" 0 with key := (Demo.board project).takeKey.1 }

def last : Task :=
  { Task.file ⟨"c"⟩ project backlog "" 2 with
    key := (Board.takeKey { Demo.board project with lastKey := 2 }).1 }

theorem others_of_last : ([⟨"a"⟩, ⟨"b"⟩, ⟨"c"⟩] : List TaskId).filter
    (fun i => decide (i ≠ ⟨"c"⟩)) = [] ++ ⟨"a"⟩ :: [⟨"b"⟩] := by
  decide

end Shelf

open Demo Placed.Shelf

/-- Two cards share a rank, and what is put after the first stands after the second. -/
theorem shelved_displaced :
    ∃ s', (run step start shelvedOps).taskMove move = .ok s' ∧
      ⟨"a"⟩ ∈ (run step start shelvedOps).laneOrder project (board project) "backlog" ∧
      ¬ PlacedAfter ((run step start shelvedOps).laneOrder project (board project) "backlog")
        (s'.laneOrder project (board project) "backlog") ⟨"c"⟩ ⟨"a"⟩ := by
  rw [run_shelved]
  refine ⟨_, eq_ok_kept shelved (by decide +kernel), by decide +kernel, ?_⟩
  have horder : shelved.laneOrder project (board project) "backlog" =
      [⟨"a"⟩, ⟨"b"⟩, ⟨"c"⟩] := by decide +kernel
  have horder' : (shelved.kept (shelved.taskMove move)).laneOrder project
      (board project) "backlog" = [⟨"a"⟩, ⟨"b"⟩, ⟨"c"⟩] := by decide +kernel
  rintro ⟨_, _, hbefore, hafter⟩
  rw [horder] at hbefore
  rw [horder'] at hafter
  rw [others_of_last] at hbefore
  obtain ⟨rfl, rfl⟩ := split_unique (by decide) hbefore
  exact absurd hafter (by decide)

/-- Cards of different ranks, and one comes between two of them. -/
theorem taskMove_beside_three : PlacedAfter (three.laneOrder project numbered "backlog")
      ((three.kept (three.taskMove move)).laneOrder project numbered "backlog") ⟨"c"⟩ ⟨"a"⟩ := by
  have hcard : three.tasks.cards.get? ⟨"c"⟩ = some last := by decide +kernel
  have hboard : three.tasks.boardOf last = some numbered := by decide +kernel
  have horder : three.laneOrder project numbered "backlog" =
      [⟨"a"⟩, ⟨"b"⟩, ⟨"c"⟩] := by decide +kernel
  have hfirst : three.tasks.cards.get? ⟨"a"⟩ = some first := by decide +kernel
  have hgoes : three.Goes move numbered backlog :=
    ⟨some first, none, neighbour_some hfirst, rfl, by decide +kernel⟩
  have hin : ⟨"a"⟩ ∈ three.laneOrder project numbered "backlog" := by
    rw [horder]
    simp
  have hbeside := (taskMove_beside (by simp) _ _ threeOps three _ run_three.symm move
    (eq_ok_kept three (by decide +kernel)) last hcard numbered hboard backlog hgoes
    ⟨"a"⟩ hin (by decide)).1 rfl
  refine hbeside.mpr ⟨by unfold Read; decide +kernel, fun pre next post hnext => ?_⟩
  replace hnext : (three.laneOrder project numbered "backlog").filter
    (fun i => decide (i ≠ ⟨"c"⟩)) = pre ++ ⟨"a"⟩ :: next :: post := hnext
  rw [horder, others_of_last] at hnext
  obtain ⟨-, hnext⟩ := split_unique (by decide) hnext
  cases hnext
  decide +kernel

end AgentDocker.Daemon.Placed
