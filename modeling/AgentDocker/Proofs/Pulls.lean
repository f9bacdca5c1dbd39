import AgentDocker.Proofs.Placement

/-!
# What an agent that names no card takes

The pull source of a checked board is a Ready lane, and a card drawn there is
one of two kinds. It is ready, by its own lane or as the first lane of its
category; or the board has no lane of its category at all, and the board's first
lane, where such cards are drawn, is the pull source.

A card of the second kind is taken like any other, whatever it is: the person's
backlog, once a board without a Backlog lane puts its Ready lane first. So
agents are kept to ready cards exactly where the first lane is another, or every
card that has no lane stands behind a ready one that may be taken.
-/

namespace AgentDocker.Core

open Lib

namespace Board

/-- The lane of the cards that have none of their own. -/
def firstLane (b : Board) : Lane := b.lanes.head b.lanes_ne

variable {b : Board} {lane : Option String} {column : Column} {source : String}

theorem first_eq_none : b.first column = none ↔ ∀ l ∈ b.lanes, l.category ≠ column := by
  simp [first]

/-- A card that has no lane of its category is drawn in the first of all. -/
theorem laneOf_stray (h : b.first column = none) : b.laneOf lane column = b.firstLane := by
  have hown : (lane.bind b.lane).filter (fun l => decide (l.category = column)) = none := by
    refine Option.eq_none_iff_forall_not_mem.mpr fun l hl => ?_
    obtain ⟨hbind, hcategory⟩ := Option.filter_eq_some_iff.mp hl
    obtain ⟨_, -, hlane⟩ := Option.bind_eq_some_iff.mp hbind
    exact first_eq_none.mp h l (List.mem_of_find?_eq_some hlane) (by simpa using hcategory)
  rw [laneOf, hown, h]
  rfl

/-- Every other card is drawn in a lane of its category. -/
theorem laneOf_category (h : b.first column ≠ none) : (b.laneOf lane column).category = column := by
  unfold laneOf
  cases hown : (lane.bind b.lane).filter fun l => decide (l.category = column) with
  | some => simpa using (Option.filter_eq_some_iff.mp hown).2
  | none =>
    obtain ⟨_, hl⟩ := Option.ne_none_iff_exists'.mp h
    rw [Option.none_or, hl]
    simpa using List.find?_some hl

/-- The lane agents pull from is a Ready one, and the only one of its slug. -/
structure PullsFrom (b : Board) (source : String) : Prop where
  distinct : b.Distinct
  ready : ∃ l ∈ b.lanes, l.slug = source ∧ l.category = .ready

theorem PullsFrom.category (h : b.PullsFrom source) {l : Lane} (hl : l ∈ b.lanes)
    (hslug : l.slug = source) : l.category = .ready := by
  obtain ⟨_, hk, hkslug, hready⟩ := h.ready
  rw [List.inj_on_of_nodup_map h.distinct hl hk (hslug.trans hkslug.symm), hready]

theorem PullsFrom.first_ready (h : b.PullsFrom source) : b.first .ready ≠ none := by
  obtain ⟨k, hk, -, hready⟩ := h.ready
  exact fun hnone => first_eq_none.mp hnone k hk hready

/-- What is drawn in the pull source and is not ready has no lane on the board. -/
theorem PullsFrom.stray (h : b.PullsFrom source) (hslug : (b.laneOf lane column).slug = source)
    (hready : column ≠ .ready) : b.first column = none ∧ b.firstLane.slug = source := by
  have hnone : b.first column = none := by
    by_contra hsome
    have hcategory := h.category (laneOf_mem lane column) hslug
    rw [laneOf_category hsome] at hcategory
    exact hready hcategory
  rw [laneOf_stray hnone] at hslug
  exact ⟨hnone, hslug⟩

theorem pullsFrom_reshape {shape : Shape} (h : shape.Sound) :
    (b.reshape shape h.lanes_ne).PullsFrom shape.pullSource := by
  obtain ⟨l, hl, hsource⟩ := h.source
  exact ⟨reshape_distinct h, l.toLane, List.mem_map_of_mem hl, hsource⟩

/-! ## What is picked -/

variable {p : Places} {cards : List Task} {caller : AgentId} {openBlocker : TaskId → Bool}

/-- What a pull that names no card may take: a card of the pull source that is still on
the board, free or the caller's, and waits on nothing. -/
structure Offers (b : Board) (source : String) (caller : AgentId) (openBlocker : TaskId → Bool)
    (t : Task) : Prop where
  onBoard : t.archivedAt = none
  drawn : (t.laneOn b).slug = source
  takeable : t.takeable caller openBlocker = true

/-- The card picked is the first of those offered, in board order. -/
theorem nextReady_eq_some (hids : (cards.map Task.id).Nodup) {t : Task} :
    (b.nextReady source p cards caller openBlocker).card = some t ↔
      t ∈ cards ∧ b.Offers source caller openBlocker t ∧
        ∀ u ∈ cards, b.Offers source caller openBlocker u → u = t ∨ p.key t < p.key u := by
  have hkeys : (((cards.filter fun t =>
      t.archivedAt.isNone && decide ((t.laneOn b).slug = source))).map p.key).Nodup :=
    p.nodup_key (Daemon.Placed.nodup_filter_id hids _)
  rw [nextReady, Pick.foldl_look_card, Option.none_or, Places.order, find?_sortBy_eq_some hkeys]
  simp only [List.mem_filter, Bool.and_eq_true, Option.isNone_iff_eq_none, decide_eq_true_eq]
  constructor
  · rintro ⟨⟨ht, hboard, hdrawn⟩, htake, hleast⟩
    exact ⟨ht, ⟨hboard, hdrawn, htake⟩, fun u hu hoffer =>
      hleast u ⟨hu, hoffer.onBoard, hoffer.drawn⟩ hoffer.takeable⟩
  · rintro ⟨ht, hoffer, hleast⟩
    exact ⟨⟨ht, hoffer.onBoard, hoffer.drawn⟩, hoffer.takeable, fun u hu htake =>
      hleast u hu.1 ⟨hu.2.1, hu.2.2, htake⟩⟩

/-- Something is picked when something is offered. -/
theorem exists_nextReady (hids : (cards.map Task.id).Nodup) {t : Task} (ht : t ∈ cards)
    (hoffer : b.Offers source caller openBlocker t) :
    ∃ u, (b.nextReady source p cards caller openBlocker).card = some u ∧
      (t = u ∨ p.key u < p.key t) := by
  have hsome : (b.nextReady source p cards caller openBlocker).card.isSome = true := by
    rw [nextReady, Pick.foldl_look_card, Option.none_or, List.find?_isSome]
    refine ⟨t, (p.order_perm _).mem_iff.mpr (List.mem_filter.mpr ⟨ht, ?_⟩), hoffer.takeable⟩
    simp [hoffer.onBoard, hoffer.drawn]
  obtain ⟨u, hu⟩ := Option.isSome_iff_exists.mp hsome
  exact ⟨u, hu, ((nextReady_eq_some hids).mp hu).2.2 t ht hoffer⟩

/-- A card nobody has a lane for stands behind a ready one. -/
def Covered (b : Board) (source : String) (p : Places) (cards : List Task) (caller : AgentId)
    (openBlocker : TaskId → Bool) : Prop :=
  ∀ t ∈ cards, b.first t.column = none → t.archivedAt = none →
    t.takeable caller openBlocker = true →
    ∃ r ∈ cards, r.column = .ready ∧ b.Offers source caller openBlocker r ∧ p.key r < p.key t

/-- Agents are kept to ready cards exactly where the first lane is not the pull source,
or every card without a lane is covered. -/
theorem PullsFrom.picks_ready_iff (h : b.PullsFrom source) (hids : (cards.map Task.id).Nodup) :
    (∀ t, (b.nextReady source p cards caller openBlocker).card = some t → t.column = .ready) ↔
      b.firstLane.slug ≠ source ∨ b.Covered source p cards caller openBlocker := by
  constructor
  · intro hready
    refine or_iff_not_imp_left.mpr fun hfirst t ht hstray hboard htake => ?_
    rw [not_not] at hfirst
    have hoffer : b.Offers source caller openBlocker t :=
      ⟨hboard, by rw [Task.laneOn, laneOf_stray hstray, hfirst], htake⟩
    obtain ⟨u, hu, hle⟩ := exists_nextReady (p := p) hids ht hoffer
    obtain ⟨hmem, hu', -⟩ := (nextReady_eq_some hids).mp hu
    refine ⟨u, hmem, hready u hu, hu', hle.resolve_left ?_⟩
    rintro rfl
    rw [hready t hu] at hstray
    exact h.first_ready hstray
  · intro hcond t hpick
    obtain ⟨ht, hoffer, hleast⟩ := (nextReady_eq_some hids).mp hpick
    by_contra hready
    obtain ⟨hstray, hfirst⟩ := h.stray hoffer.drawn hready
    rcases hcond with hfirst' | hcovered
    · exact hfirst' hfirst
    · obtain ⟨r, hr, hrready, hroffer, hlt⟩ := hcovered t ht hstray hoffer.onBoard hoffer.takeable
      rcases hleast r hr hroffer with rfl | hlt'
      · exact hready hrready
      · exact lt_asymm hlt hlt'

end Board

end AgentDocker.Core

namespace AgentDocker.Daemon.Placed

open AgentDocker.Core Lib

variable {s : Placed} {p : Pull} {holds : Holds} {now : Time} {lands : Bool}

theorem finishPull_taken {b : Board} {found t next before : Task} {granted : Bool}
    (h : (s.finishPull b found t next granted lands).1 = .taken before) : before = found := by
  unfold finishPull at h
  dsimp only at h
  split at h
  · cases h
  · split at h
    · cases h
      rfl
    · cases h

/-- What is taken is the card found. -/
theorem takeCard_taken {found before : Task}
    (h : (s.takeCard p holds found now lands).1 = .taken before) : before = found := by
  unfold takeCard at h
  dsimp only at h
  split at h
  · cases h
  · split at h
    · cases h
    · split at h
      · split at h
        · cases h
        · split at h
          · cases h
          · exact finishPull_taken h
      · split at h
        · split at h
          · cases h
          · split at h <;> cases h
        · split at h
          · cases h
          · split at h
            · cases h
            · exact finishPull_taken h

/-- The cards of a board. -/
def boardCards (s : Placed) (project : ProjectId) (b : Board) : List Task :=
  (s.tasks.projectCards project).filter fun t => decide (t.boardSlug = b.slug)

/-- The card a pull picks for an agent that names none. -/
def picked (s : Placed) (p : Pull) (b : Board) : Option Task :=
  (b.nextReady (s.pullSource p.project b.slug) s.toPlaces (s.boardCards p.project b) p.agent
    (Tasks.openIn (s.tasks.projectCards p.project))).card

theorem taskPull_taken {before : Task} (hnone : p.task = none)
    (h : (s.taskPull p holds now lands).1 = .taken before) :
    ∃ b, s.tasks.board p.project p.board = some b ∧ s.picked p b = some before := by
  unfold taskPull at h
  rw [hnone] at h
  dsimp only at h
  split at h
  · cases h
  next b hb =>
  split at h
  · cases h
  next t hpick =>
  rw [takeCard_taken h]
  exact ⟨b, hb, hpick⟩

/-- A card to be taken, in a category. -/
def loose (column : Column) : Task :=
  { Task.file ⟨"a"⟩ ⟨"p"⟩ ⟨"", column⟩ "" 0 with lane := none }

theorem loose_takeable (column : Column) (caller : AgentId) (openBlocker : TaskId → Bool) :
    (loose column).takeable caller openBlocker = true := rfl

/-- Without a lane for some category a board that pulls from its first lane lets a card
of that category be taken. -/
theorem picks_ready_always_iff {b : Board} {source : String} (h : b.PullsFrom source) :
    (∀ p cards caller openBlocker, (cards.map Task.id).Nodup → ∀ t,
      (b.nextReady source p cards caller openBlocker).card = some t → t.column = .ready) ↔
      b.firstLane.slug ≠ source ∨ ∀ column, b.first column ≠ none := by
  constructor
  · intro hready
    refine or_iff_not_imp_left.mpr fun hfirst column hstray => ?_
    rw [not_not] at hfirst
    have hids : ([loose column].map Task.id).Nodup := List.nodup_singleton _
    have hpicks := (h.picks_ready_iff hids).mp
      (hready ⟨fun _ => "", fun _ => 0⟩ [loose column] ⟨"a"⟩ (fun _ => false) hids)
    obtain ⟨_, hr, hrready, -⟩ := hpicks.resolve_left (not_not.mpr hfirst) (loose column)
      (List.mem_singleton_self _) hstray rfl (loose_takeable ..)
    rw [List.mem_singleton.mp hr] at hrready
    rw [show column = .ready from hrready] at hstray
    exact h.first_ready hstray
  · intro hcond p cards caller openBlocker hids
    exact (h.picks_ready_iff hids).mpr
      (hcond.imp_right fun hall t _ hstray => absurd hstray (hall t.column))

/-- A daemon that pulls from a lane picks from it. -/
theorem picked_ready {b : Board} {source : String} {t : Task} (h : b.PullsFrom source)
    (hsource : s.pullSource p.project b.slug = source)
    (hcond : b.firstLane.slug ≠ source ∨
      b.Covered source s.toPlaces (s.boardCards p.project b) p.agent
      (Tasks.openIn (s.tasks.projectCards p.project)))
    (hpick : s.picked p b = some t) : t.column = .ready := by
  rw [picked, hsource] at hpick
  exact (h.picks_ready_iff (nodup_filter_id (Tasks.nodup_projectCards _) _)).mpr hcond t hpick

/-- On a board in a checked shape, a pull that names no card takes one that was ready if
and only if the first lane is not the pull source or every card without a lane is
covered. The shape's pull source is the daemon's once the update lands. -/
theorem nextReady_ready_iff (b : Board) (shape : Shape) (h : shape.check b.slug = .ok ()) :
    let b' := b.reshape shape (Shape.check_ok h).lanes_ne
    (∀ p cards caller openBlocker, (cards.map Task.id).Nodup →
      ((∀ t, (b'.nextReady shape.pullSource p cards caller openBlocker).card = some t →
          t.column = .ready) ↔
        b'.firstLane.slug ≠ shape.pullSource ∨
          b'.Covered shape.pullSource p cards caller openBlocker)) ∧
    ((∀ p cards caller openBlocker, (cards.map Task.id).Nodup → ∀ t,
        (b'.nextReady shape.pullSource p cards caller openBlocker).card = some t →
          t.column = .ready) ↔
      b'.firstLane.slug ≠ shape.pullSource ∨ ∀ column, b'.first column ≠ none) ∧
    (∀ (s : Placed) (p : Pull) (holds : Holds) (now : Time) (lands : Bool) (t : Task),
      p.task = none → s.tasks.board p.project p.board = some b' →
      (s.taskPull p holds now lands).1 = .taken t →
      s.picked p b' = some t ∧ (s.pullSource p.project b'.slug = shape.pullSource →
        (b'.firstLane.slug ≠ shape.pullSource ∨ b'.Covered shape.pullSource s.toPlaces
          (s.boardCards p.project b') p.agent (Tasks.openIn (s.tasks.projectCards p.project))) →
        t.column = .ready)) ∧
    ∀ (s s' : Placed) (actor : Actor) (lands : Bool), s.tasks.board b.project b.slug = some b →
      s.boardUpdate actor b.project b.slug shape lands = .ok s' →
      s'.tasks.board b.project b.slug = some b' ∧
        s'.pullSource b.project b'.slug = shape.pullSource := by
  have hpulls := b.pullsFrom_reshape (Shape.check_ok h)
  refine ⟨fun p cards caller openBlocker hids => hpulls.picks_ready_iff hids,
    picks_ready_always_iff hpulls, fun s p holds now lands t hnone hboard htaken => ?_,
    fun s s' actor lands hboard hupdate => ?_⟩
  · obtain ⟨_, hb₁, hpick⟩ := taskPull_taken hnone htaken
    rw [hboard] at hb₁
    cases hb₁
    exact ⟨hpick, fun hsource hcond => picked_ready hpulls hsource hcond hpick⟩
  · obtain ⟨_, _, hb₁, rfl⟩ := boardUpdate_ok hupdate
    rw [hboard] at hb₁
    cases hb₁
    exact ⟨Tasks.board_putBoard, by simp [Board.reshape]⟩

namespace Shelf

open Demo

/-- A board without a Backlog lane. -/
def flat : Shape :=
  ⟨"Flat", [⟨⟨"ready", .ready⟩, "Ready"⟩, ⟨⟨"in_progress", .inProgress⟩, "Doing"⟩,
    ⟨⟨"done", .done⟩, "Done"⟩], "ready", "in_progress"⟩

/-- A board with one, before the lane agents take cards from. -/
def kept : Shape :=
  ⟨"Main", [⟨⟨"backlog", .backlog⟩, "Backlog"⟩, ⟨⟨"ready", .ready⟩, "Ready"⟩,
    ⟨⟨"in_progress", .inProgress⟩, "In progress"⟩, ⟨⟨"done", .done⟩, "Done"⟩], "ready",
      "in_progress"⟩

def flatten : Op := .boardUpdate person project Board.main flat true

def flatOps : List Op := [file "a" 0, flatten]

/-- The second of two cards is made ready. -/
def readied : Placed :=
  (filed (filed start "a" 0) "b" 1).step
    (.move ⟨person, ⟨"b"⟩, none, some .ready, none, none, false, none, 2, true⟩)

def second : Task :=
  { Task.file ⟨"b"⟩ project ⟨"ready", .ready⟩ "" 2 with
    key := (Board.takeKey { Demo.board project with lastKey := 1 }).1 }

def shaped : Placed := readied.step (.boardUpdate person project Board.main kept true)

def pull : Pull := ⟨⟨"x"⟩, none, none, project, Board.main⟩

def free : Holds := ⟨fun _ => true, fun _ => false, fun _ => false, fun _ => true⟩

end Shelf

open Demo Placed.Shelf

/-- An agent that names no card takes one of the person's backlog. -/
theorem flat_takes_backlog :
    ∃ t, ((run step start flatOps).taskPull pull free 2 true).1 = .taken t ∧
      t ∈ (run step start flatOps).tasks.cards ∧
      t.lane = some "backlog" ∧ t.column = .backlog := by
  have hrun : run step start flatOps = step (filed start "a" 0) flatten := by
    show step (step start (file "a" 0)) flatten = _
    rw [step_file start "a" 0 (by decide +kernel)]
  rw [hrun]
  exact ⟨first, rfl, by decide +kernel, by decide, by decide⟩

/-- A board that keeps its Backlog lane first: an agent takes the ready card of two. -/
theorem nextReady_ready_iff_classic : Shelf.kept.check (board project).slug = .ok () ∧
      (∀ p cards caller openBlocker, (cards.map Task.id).Nodup → ∀ t,
        (((board project).reshape Shelf.kept (by simp [Shelf.kept])).nextReady
          "ready" p cards caller openBlocker).card = some t → t.column = .ready) ∧
      ∃ t, (shaped.taskPull pull free 3 true).1 = .taken t ∧ t.id = ⟨"b"⟩ ∧ t.column = .ready := by
  have hready := nextReady_ready_iff { board project with lastKey := 2 } Shelf.kept
    (by decide +kernel)
  obtain ⟨hboard, hsource⟩ := hready.2.2.2 readied shaped person true
    (by decide +kernel) (eq_ok_kept readied (by decide +kernel))
  have htaken : (shaped.taskPull pull free 3 true).1 = .taken second := by decide +kernel
  refine ⟨by decide +kernel, hready.2.1.mpr (.inl (by decide)), second, htaken, rfl, ?_⟩
  exact (hready.2.2.1 _ _ _ _ _ _ rfl hboard htaken).2 hsource (.inl (by decide))

end AgentDocker.Daemon.Placed
