import AgentDocker.Core.Shape
import AgentDocker.Daemon.Rules

/-!
# What a step writes

Each function on cards is inverted once: what it wrote, over which card, and under
which marks. A write over a card that is there keeps its id, its project and its
board, and all but an update keep what it waits on; whatever is said of cards, of
stays and of rules along a run is read off these.
-/

namespace AgentDocker.Core.Task

/-! ## Cards -/

/-- The same card, on its board, waiting on what it waited on. -/
structure Same (t t' : Task) : Prop where
  id : t'.id = t.id
  project : t'.project = t.project
  board : t'.board = t.board
  edges : t'.edges = t.edges

theorem Same.refl (t : Task) : t.Same t := ⟨rfl, rfl, rfl, rfl⟩

theorem Same.trans {t t' t'' : Task} (h : t.Same t') (h' : t'.Same t'') : t.Same t'' :=
  ⟨h'.id.trans h.id, h'.project.trans h.project, h'.board.trans h.board, h'.edges.trans h.edges⟩

theorem Same.boardSlug {t t' : Task} (h : t.Same t') : t'.boardSlug = t.boardSlug := by
  rw [Task.boardSlug, h.board, Task.boardSlug]

variable {t next : Task} {author : String} {human : Bool} {lane : Lane} {now : Time}

/-- A move that is not refused leaves the card in the lane, and a card that was there
already stays as it is. -/
theorem moveTo_ok {moved : Bool} (h : t.moveTo author human lane now = .ok (moved, next)) :
    t.archivedAt = none ∧ t.Same next ∧ next.archivedAt = none ∧ next.column = lane.category ∧
      (t.lane.isSome → next.lane = some lane.slug) ∧
      (if moved then next.fired = [] else next.fired = t.fired ∧ (t.lane.isSome → next = t)) := by
  rw [moveTo] at h
  split at h
  · cases h
  next hopen =>
  have hopen : t.archivedAt = none := by simpa using hopen
  split at h
  · cases h
  · split at h
    · next hthere =>
      cases h
      refine ⟨hopen, ⟨rfl, rfl, rfl, rfl⟩, hopen, hthere.1.symm, fun hlane => ?_, rfl,
        fun hlane => ?_⟩
      · obtain ⟨_, hslug⟩ := Option.isSome_iff_exists.mp hlane
        have hslug' := hthere.2
        rw [hslug, Option.all_some, decide_eq_true_eq] at hslug'
        rw [hslug, Option.getD_some, hslug']
      · obtain ⟨_, hslug⟩ := Option.isSome_iff_exists.mp hlane
        rw [hslug, Option.getD_some, ← hslug]
    · cases h
      exact ⟨hopen, ⟨rfl, rfl, rfl, rfl⟩, hopen, rfl, fun _ => rfl, rfl⟩

theorem archive_ok (hopen : t.archivedAt = none) (h : t.archive author human now = .ok next) :
    next = { t with archivedAt := some now, updatedAt := now } := by
  rw [archive, hopen, if_neg (by simp)] at h
  split at h
  · cases h
  · exact (Except.ok.inj h).symm

theorem unarchive_ok (hshelved : t.archivedAt.isSome) (h : t.unarchive human now = .ok next) :
    human = true ∧ next = { t with archivedAt := none, updatedAt := now } := by
  cases human with
  | false => simp [unarchive] at h
  | true =>
    rw [unarchive, if_neg (by simp), if_pos hshelved] at h
    exact ⟨rfl, (Except.ok.inj h).symm⟩

/-- An update keeps the card where it is, and leaves the edges it is given. -/
theorem update_ok {edit : TaskEdit} {words : Option TaskError} {fields : List String}
    (h : t.update author human edit words now = .ok (fields, next)) :
    next.id = t.id ∧ next.project = t.project ∧ next.board = t.board ∧ next.fired = t.fired ∧
      next.archivedAt = t.archivedAt ∧ next.parent = edit.parent.getD t.parent ∧
      next.blockedBy = (edit.blockedBy.map (List.destutter (· ≠ ·))).getD t.blockedBy := by
  rw [update] at h
  split at h
  · cases h
  · split at h
    · cases h
    · dsimp only at h
      split at h
      · cases h
      · cases h
      · cases h
        split <;> exact ⟨rfl, rfl, rfl, rfl, rfl, rfl, rfl⟩

end AgentDocker.Core.Task

namespace AgentDocker.Daemon.Tasks

open AgentDocker.Core Lib Keyed

variable {s s' : Tasks} {t : Task} {now : Time} {lands : Bool}

/-- What holds before a request and of whatever it leads to holds after it. -/
theorem kept_of {P : Tasks → Prop} {result : Except String Tasks} (hs : P s)
    (h : ∀ s', result = .ok s' → P s') : P (s.kept result) := by
  cases result with
  | error => exact hs
  | ok s' => exact h s' rfl

/-! ## The same cards -/

/-- The cards there were, each on its board and waiting on what it waited on, and the
rules there were. -/
structure SameCards (s s' : Tasks) : Prop where
  rules : s'.rules = s.rules
  back : ∀ t' ∈ s'.cards, ∃ t ∈ s.cards, t.Same t'
  forth : ∀ t ∈ s.cards, ∃ t' ∈ s'.cards, t.Same t'

/-- What touches neither cards nor rules. -/
theorem SameCards.of_eq (hcards : s'.cards = s.cards) (hrules : s'.rules = s.rules) :
    SameCards s s' := by
  refine ⟨hrules, ?_, ?_⟩ <;> rw [hcards] <;> exact fun t ht => ⟨t, ht, .refl t⟩

theorem SameCards.refl (s : Tasks) : SameCards s s := .of_eq rfl rfl

variable {actor : Actor} {after counter : Board} {rule : BoardRule} {filing : Filing} {l : Links}
  {ids : List (String × TaskId)} {marks : List Mark} {acc : Nat × Tasks} {card : NewCard × Nat}
  {start : Option Starting} {p : ProjectId} {lane : String} {next : Task} {s₁ s₂ s₃ : Tasks}

theorem SameCards.trans (h : SameCards s₁ s₂) (h' : SameCards s₂ s₃) : SameCards s₁ s₃ where
  rules := h'.rules.trans h.rules
  back t ht := by
    obtain ⟨t', ht', hsame'⟩ := h'.back t ht
    obtain ⟨t'', ht'', hsame''⟩ := h.back t' ht'
    exact ⟨t'', ht'', hsame''.trans hsame'⟩
  forth t ht := by
    obtain ⟨t', ht', hsame'⟩ := h.forth t ht
    obtain ⟨t'', ht'', hsame''⟩ := h'.forth t' ht'
    exact ⟨t'', ht'', hsame'.trans hsame''⟩

/-- The card of an id is the one there was. -/
theorem SameCards.get? (h : SameCards s s') {t' : Task} (ht : t ∈ s.cards)
    (ht' : s'.cards.get? t.id = some t') : t.Same t' := by
  obtain ⟨hmem, hid⟩ := get?_eq_some.mp ht'
  obtain ⟨t₀, ht₀, hsame⟩ := h.back t' hmem
  have heq : t₀ = t := eq_of_key_eq ht₀ ht (hsame.id.symm.trans hid)
  exact heq ▸ hsame

/-- A card written over itself. -/
theorem SameCards.commit (ht : t ∈ s.cards) (hsame : t.Same next) :
    SameCards s (s.commit next marks) where
  rules := rfl
  back t' ht' := by
    rcases mem_insert.mp ht' with rfl | ⟨hmem, -⟩
    · exact ⟨t, ht, hsame⟩
    · exact ⟨t', hmem, .refl t'⟩
  forth t' ht' := by
    by_cases hid : t'.id = next.id
    · have heq : t' = t := eq_of_key_eq ht' ht (hid.trans hsame.id)
      exact ⟨next, mem_insert.mpr (.inl rfl), heq ▸ hsame⟩
    · exact ⟨t', mem_insert.mpr (.inr ⟨ht', hid⟩), .refl t'⟩

/-! ## Rules -/

/-- What a rule does to an open card: nothing, or one commit, or it asks for an
agent. -/
inductive Acts (s : Tasks) (rule : BoardRule) (t : Task) (now : Time) : Tasks → Prop where
  | stands : Acts s rule t now s
  | comments (text : String) (haction : rule.action = .comment text) : Acts s rule t now
        (s.commit { t with fired := t.fired ++ [rule.id] } [.fired rule.id t.id])
  | moves (next : Task) (to_ : String) (haction : rule.action = .move to_) (hsame : t.Same next)
      (hopen : next.archivedAt = none) (hfired : next.fired = []) :
      Acts s rule t now (s.commit next [.fired rule.id t.id, .placed t.id])
  | archives (haction : rule.action = .archive) : Acts s rule t now
        (s.commit { t with archivedAt := some now, updatedAt := now } [.fired rule.id t.id])
  | asks (runtime : String) (args : List String) (max : Nat)
      (haction : rule.action = .start runtime args max) (hfree : s.starting.get? t.id = none) :
      Acts s rule t now { s with starting := s.starting.insert ⟨t.id, some rule.id, false⟩ }

theorem act_ok (h : s.act t marks lands = .ok (start, s')) : s' = s.commit t marks := by
  rw [act] at h
  split at h
  · cases h
    rfl
  · cases h

theorem applyRule_ok (hopen : t.archivedAt = none)
    (h : s.applyRule rule t now lands = .ok (start, s')) : Acts s rule t now s' := by
  rw [applyRule] at h
  split at h
  · cases h
  · split at h
    · next text haction =>
      split at h
      · cases h
      · rw [act_ok h]
        exact .comments text haction
    · next to_ haction =>
      split at h
      · cases h
      · split at h
        · cases h
        · cases h
          exact .stands
        next next hmove =>
        obtain ⟨-, hsame, hopen', -, -, hfired⟩ := Task.moveTo_ok hmove
        rw [act_ok h]
        exact .moves next to_ haction hsame hopen' hfired
    · next haction =>
      split at h
      · cases h
      next next harchive =>
      rw [act_ok h, Task.archive_ok hopen harchive]
      exact .archives haction
    next runtime args max haction =>
    split at h
    · cases h
      exact .stands
    next hfree =>
    cases h
    simp only [Bool.or_eq_true, not_or, Option.not_isSome_iff_eq_none] at hfree
    exact .asks runtime args max haction hfree.1.2

theorem Acts.sameCards (h : Acts s rule t now s') (ht : t ∈ s.cards) : SameCards s s' := by
  cases h with
  | stands => exact .refl s
  | comments | archives => exact .commit ht ⟨rfl, rfl, rfl, rfl⟩
  | moves _ _ _ hsame => exact .commit ht hsame
  | asks => exact .of_eq rfl rfl

/-- The marks a rule leaves are of its card. -/
theorem Acts.trace (h : Acts s rule t now s') :
    ∃ marks, s'.trace = s.trace ++ marks ∧ ∀ m ∈ marks, m = .placed t.id ∨
      m = .fired rule.id t.id := by
  cases h with
  | stands | asks => exact ⟨[], by simp, by simp⟩
  | comments | moves | archives => exact ⟨_, rfl, by simp⟩

variable {id : TaskId}

/-- What rules do to a card that came into a lane keeps the cards. -/
theorem enterRules_sameCards {lands : String → TaskId → Bool} {rules : List BoardRule} (s : Tasks) :
    SameCards s (enterRules id lane now lands rules s) := by
  induction rules generalizing s with
  | nil => exact .refl s
  | cons _ _ ih =>
    rw [enterRules]
    split
    · exact .refl s
    next card hget =>
    split
    · exact .refl s
    next hstop =>
    simp only [Bool.or_eq_true, not_or, Option.not_isSome_iff_eq_none] at hstop
    split
    · next hact =>
      exact ((applyRule_ok hstop.1 hact).sameCards (get?_eq_some.mp hget).1).trans (ih _)
    · exact ih s

theorem rulesOnEnter_sameCards {lands : String → TaskId → Bool} :
    SameCards s (s.rulesOnEnter t lane now lands) :=
  enterRules_sameCards s

/-! ## The sweep -/

/-- A run of rules acting on open cards they have not acted on, each a rule that is
swept, on a card of its board. -/
inductive Swept (now : Time) (s : Tasks) : Tasks → Prop where
  | refl : Swept now s s
  | tail {s' s'' : Tasks} (h : Swept now s s') (rule : BoardRule) (t : Task)
      (hrule : rule ∈ s'.rules)
      (ht : t ∈ s'.cards) (hopen : t.archivedAt = none) (hfired : rule.id ∉ t.fired)
      (henabled : rule.enabled) (hproject : rule.project = t.project)
      (hboard : rule.board = t.boardSlug) (hsweeps : sweeps rule) (hact : Acts s' rule t now s'') :
      Swept now s s''

theorem Swept.trans (h : Swept now s₁ s₂) (h' : Swept now s₂ s₃) : Swept now s₁ s₃ := by
  induction h' with
  | refl => exact h
  | tail _ rule t hrule ht hopen hfired henabled hproject hboard hsweeps hact ih =>
    exact .tail ih rule t hrule ht hopen hfired henabled hproject hboard hsweeps hact

theorem Swept.sameCards (h : Swept now s s') : SameCards s s' := by
  induction h with
  | refl => exact .refl s
  | tail _ _ _ _ ht _ _ _ _ _ _ hact ih => exact ih.trans (hact.sameCards ht)

variable {cards : List Task}

/-- A rule that is due awaits the card and is one a sweep looks at. -/
theorem due_awaits {card : Task} (h : due rule cards card lane now = true) :
    rule.awaits card = true ∧ sweeps rule = true := by
  have henabled : rule.awaits card = true → rule.enabled = true := by
    intro hawaits
    simp only [BoardRule.awaits, Bool.and_eq_true] at hawaits
    exact hawaits.1.1.1
  unfold due at h
  split at h
  · next _ _ htrigger =>
    rw [BoardRule.idleDue, htrigger] at h
    simp only [Bool.and_eq_true] at h
    exact ⟨h.1.1, by simp [sweeps, henabled h.1.1, htrigger]⟩
  · next htrigger haction =>
    simp only [BoardRule.onEnter, Bool.and_eq_true] at h
    exact ⟨h.1.1, by simp [sweeps, henabled h.1.1, htrigger, haction]⟩
  · cases h

section

variable {card : Task} {lands : String → TaskId → Bool} {rules : List BoardRule}

/-- What a card's turn comes to: no more actions are left, no rule is due that has not
acted, or the first of these takes it. -/
inductive Turn (cards : List Task) (card : Task) (lane : String) (now : Time)
    (lands : String → TaskId → Bool) (rules : List BoardRule) (acc : Nat × Tasks) :
    Nat × Tasks → Prop where
  | spent (h : sweepActions ≤ acc.1) : Turn cards card lane now lands rules acc acc
  | idle (h : ∀ r ∈ rules, due r cards card lane now = true → ∀ fresh,
      acc.2.cards.get? card.id = some fresh → r.id ∈ fresh.fired ∨ fresh.archivedAt.isSome) :
      Turn cards card lane now lands rules acc acc
  | takes (pre post : List BoardRule) (rule : BoardRule) (fresh : Task)
      (hrules : rules = pre ++ rule :: post) (hdue : due rule cards card lane now = true)
      (hpre : ∀ r ∈ pre, due r cards card lane now = true → r.id ∈ fresh.fired)
      (hget : acc.2.cards.get? card.id = some fresh) (hopen : fresh.archivedAt = none)
      (hfired : rule.id ∉ fresh.fired) : Turn cards card lane now lands rules acc
        (match acc.2.applyRule rule fresh now (lands rule.id card.id) with
          | .ok (_, s') => (acc.1 + 1, s')
          | .error _ => acc)

/-- A rule that is not due, or has acted, is passed over. -/
theorem Turn.skip {acc' : Nat × Tasks} (h : Turn cards card lane now lands rules acc acc')
    (hskip : due rule cards card lane now = true → ∀ fresh,
      acc.2.cards.get? card.id = some fresh → rule.id ∈ fresh.fired ∨ fresh.archivedAt.isSome) :
    Turn cards card lane now lands (rule :: rules) acc acc' := by
  cases h with
  | spent h => exact .spent h
  | idle h => exact .idle (List.forall_mem_cons.mpr ⟨hskip, h⟩)
  | takes pre post r fresh hrules hdue hpre hget hopen hfired =>
    refine .takes (rule :: pre) post r fresh (by rw [hrules, List.cons_append]) hdue
      (List.forall_mem_cons.mpr ⟨fun hdue => ?_, hpre⟩) hget hopen hfired
    exact (hskip hdue fresh hget).resolve_right (by simp [hopen])

theorem sweepCard_turn (cards : List Task) (card : Task) (lane : String) (now : Time)
    (lands : String → TaskId → Bool) (rules : List BoardRule) (acc : Nat × Tasks) :
    Turn cards card lane now lands rules acc (sweepCard cards card lane now lands rules acc) := by
  induction rules with
  | nil => exact .idle (by simp)
  | cons rule rest ih =>
    rw [sweepCard]
    split
    · next hspent => exact .spent hspent
    split
    · next hdue =>
      split
      · next hgone => exact ih.skip fun _ fresh hget => by simp [hgone] at hget
      next fresh hget =>
      split
      · next hskip =>
        refine ih.skip fun _ fresh' hget' => ?_
        rw [hget] at hget'
        cases hget'
        simpa using hskip
      next hskip =>
      simp only [Bool.or_eq_true, not_or, Option.not_isSome_iff_eq_none,
        List.contains_eq_mem, decide_eq_true_eq] at hskip
      exact .takes [] rest rule fresh rfl hdue (by simp) hget hskip.2 hskip.1
    · next hdue => exact ih.skip fun h => absurd h hdue

/-- A turn leaves everything as it is, or a rule that is due has acted on the card. -/
theorem sweepCard_cases : sweepCard cards card lane now lands rules acc = acc ∨
    ∃ rule ∈ rules, ∃ fresh result, due rule cards card lane now = true ∧
      acc.2.cards.get? card.id = some fresh ∧ fresh.archivedAt = none ∧ rule.id ∉ fresh.fired ∧
      acc.2.applyRule rule fresh now (lands rule.id card.id) = .ok result ∧
      sweepCard cards card lane now lands rules acc = (acc.1 + 1, result.2) := by
  have hturn := sweepCard_turn cards card lane now lands rules acc
  generalize sweepCard cards card lane now lands rules acc = acc' at hturn ⊢
  cases hturn with
  | spent | idle => exact .inl rfl
  | takes _ _ rule fresh hrules hdue _ hget hopen hfired =>
    cases hact : acc.2.applyRule rule fresh now (lands rule.id card.id) with
    | error => exact .inl rfl
    | ok => exact .inr ⟨rule, by simp [hrules], fresh, _, hdue, hget, hopen, hfired, hact, rfl⟩

theorem sweepCard_swept (hrules : ∀ r ∈ rules, r ∈ acc.2.rules ∧ r.project = card.project)
    (hcard : ∀ t, acc.2.cards.get? card.id = some t → card.Same t) :
    Swept now acc.2 (sweepCard cards card lane now lands rules acc).2 := by
  rcases sweepCard_cases with
    heq | ⟨rule, hmem, fresh, _, hdue, hget, hopen, hfired, hact, heq⟩ <;> rw [heq]
  · exact .refl
  obtain ⟨hawaits, hsweeps⟩ := due_awaits hdue
  simp only [BoardRule.awaits, Bool.and_eq_true, decide_eq_true_eq] at hawaits
  have hsame := hcard fresh hget
  obtain ⟨hrule, hproject⟩ := hrules rule hmem
  exact .tail .refl rule fresh hrule (get?_eq_some.mp hget).1 hopen hfired
    hawaits.1.1.1 (hproject.trans hsame.project.symm)
    (hawaits.1.2.symm.trans hsame.boardSlug.symm) hsweeps (applyRule_ok hopen hact)

end

theorem mem_of_mem_projectCards (h : t ∈ s.projectCards p) : t ∈ s.cards ∧ t.project = p := by
  have h := (sortBy_perm _ _).mem_iff.mp (List.mem_of_mem_take h)
  exact ⟨List.mem_of_mem_filter h, by simpa using (List.mem_filter.mp h).2⟩

theorem nodup_projectCards (p : ProjectId) : ((s.projectCards p).map Task.id).Nodup := by
  have hnodup : ((s.cards.rows.filter fun t => decide (t.project = p)).map Task.id).Nodup :=
    (s.cards.filter _).nodup
  rw [projectCards, List.map_take]
  exact (((sortBy_perm _ _).map Task.id).nodup_iff.mpr hnodup).sublist (List.take_sublist _ _)

/-- A board written is the one found. -/
theorem board_putBoard {b : Board} : (s.putBoard b).board b.project b.slug = some b := by
  have hnone : ((s.boards.filter fun b' =>
      !(decide (b'.project = b.project) && decide (b'.slug = b.slug))).filter fun b' =>
        decide (b'.project = b.project)).find? (fun b' => decide (b'.slug = b.slug)) = none := by
    rw [List.find?_eq_none]
    intro b' hb'
    obtain ⟨hb', hp⟩ := List.mem_filter.mp hb'
    have hother := (List.mem_filter.mp hb').2
    simpa [of_decide_eq_true hp] using hother
  rw [board, projectBoards, putBoard, List.filter_append, List.filter_singleton, decide_eq_true rfl]
  split
  · rw [List.find?_append, hnone]
    simp
  · rw [List.find?_append, List.find?_append, hnone]
    simp

theorem sweepProject_swept {rules : List BoardRule} {lands : String → TaskId → Bool}
    (hrules : ∀ r ∈ rules, r ∈ acc.2.rules) :
    Swept now acc.2 (sweepProject rules now lands acc p).2 := by
  refine List.foldlRecOn _ _ (motive := fun acc' : Nat × Tasks => Swept now acc.2 acc'.2) .refl ?_
  intro acc' hswept card hcard
  split
  · exact hswept
  · obtain ⟨hmem, hproject⟩ := mem_of_mem_projectCards (List.mem_of_mem_filter hcard)
    have hsame := hswept.sameCards
    refine hswept.trans (sweepCard_swept ?_ fun t ht => hsame.get? hmem ht)
    intro r hr
    obtain ⟨hr, hp⟩ := List.mem_filter.mp hr
    exact ⟨hsame.rules ▸ hrules r hr, (of_decide_eq_true hp).trans hproject.symm⟩

theorem sweepRules_swept {lands : String → TaskId → Bool} :
    Swept now s (s.sweepRules now lands) := by
  refine List.foldlRecOn _ _ (motive := fun acc : Nat × Tasks => Swept now s acc.2) .refl ?_
  intro acc hswept p _
  refine hswept.trans (sweepProject_swept fun r hr => ?_)
  rw [hswept.sameCards.rules]
  exact (sortBy_perm _ _).mem_iff.mp (List.mem_of_mem_filter hr)

/-! ## Updates, moves and the archive -/

/-- What a person or an agent does to a card by hand. -/
inductive Hand (s : Tasks) (t : Task) : Tasks → Prop where
  | stands : Hand s t s
  /-- Written where it is: an order among its lane's cards, words said with a move. -/
  | keeps (next : Task) (hsame : t.Same next) (hfired : next.fired = t.fired)
      (hopen : next.archivedAt = t.archivedAt) : Hand s t (s.commit next [])
  | archives (now : Time) (hopen : t.archivedAt = none) :
      Hand s t (s.commit { t with archivedAt := some now, updatedAt := now } [])

/-- An open card that is archived is as it was otherwise. -/
theorem taskArchive_ok (h : s.taskArchive actor id now lands = .ok s') :
    ∃ t, s.cards.get? id = some t ∧ (s' = s ∨ (t.archivedAt = none ∧
      s' = s.commit { t with archivedAt := some now, updatedAt := now } [])) := by
  rw [taskArchive] at h
  split at h
  · cases h
  next t hget =>
  refine ⟨t, hget, ?_⟩
  split at h
  · cases h
  next next harchive =>
  split at h
  · cases h
    exact .inl rfl
  next hopen =>
  have hopen : t.archivedAt = none := by simpa using hopen
  split at h
  · cases h
    rw [Task.archive_ok hopen harchive]
    exact .inr ⟨hopen, rfl⟩
  · cases h

/-- A card taken off the archive is put back as it was. -/
theorem taskUnarchive_ok (h : s.taskUnarchive actor id now lands = .ok s') :
    ∃ t, s.cards.get? id = some t ∧
      (s' = s ∨ s' = s.commit { t with archivedAt := none, updatedAt := now } []) := by
  rw [taskUnarchive] at h
  split at h
  · cases h
  next t hget =>
  refine ⟨t, hget, ?_⟩
  split at h
  · cases h
  next next hun =>
  split at h
  · cases h
    exact .inl rfl
  next hshelved =>
  have hshelved : t.archivedAt.isSome := by
    cases ha : t.archivedAt <;> simp [ha] at hshelved ⊢
  split at h
  · cases h
    rw [(Task.unarchive_ok hshelved hun).2]
    exact .inr rfl
  · cases h

/-- A move leaves the card in its lane, or puts it in the lane asked. -/
theorem moveCard_ok {lane : Lane} {reranked said : Bool} {moved : Option Task}
    (h : s.moveCard actor id lane reranked said now lands = .ok (moved, s')) :
    ∃ t ∈ s.cards, match moved with
      | none => Hand s t s'
      | some next => t.Same next ∧ s' = s.commit next [.placed next.id] := by
  rw [moveCard] at h
  split at h
  · cases h
  next t hget =>
  obtain ⟨ht, rfl⟩ := get?_eq_some.mp hget
  refine ⟨t, ht, ?_⟩
  split at h
  · cases h
  next did next hmove =>
  obtain ⟨hopen, hsame, hopen', -, -, hfired⟩ := Task.moveTo_ok hmove
  split at h
  · cases h
    exact .stands
  · split at h
    · dsimp only at h
      cases did with
      | true =>
        simp only [Bool.or_true, if_true, ← hsame.id] at h
        cases h
        exact ⟨⟨hsame.id, hsame.project, hsame.board, hsame.edges⟩, rfl⟩
      | false =>
        cases h
        refine .keeps _ ?_ ?_ ?_
        · split
          · exact { hsame with }
          · exact hsame
        · split <;> exact hfired.1
        · split <;> exact hopen'.trans hopen.symm
    · cases h

/-- An update writes nothing, or the card where it is with the edges worked out. -/
theorem taskUpdate_ok {change : Change} (h : s.taskUpdate actor id change now lands = .ok s') :
    ∃ t parent blockedBy, s.cards.get? id = some t ∧
      s.changedEdges t change = .ok (parent, blockedBy) ∧
      (s' = s ∨ ∃ next : Task, next.id = t.id ∧ next.project = t.project ∧ next.board = t.board ∧
        next.fired = t.fired ∧ next.archivedAt = t.archivedAt ∧ next.parent = parent.getD t.parent ∧
        next.blockedBy = (blockedBy.map (List.destutter (· ≠ ·))).getD t.blockedBy ∧
        s' = s.commit next []) := by
  rw [taskUpdate] at h
  split at h
  · cases h
  · cases h
  next t hget _ =>
  split at h
  · cases h
  · split at h
    · cases h
    next parent blockedBy hedges =>
    refine ⟨t, parent, blockedBy, hget, hedges, ?_⟩
    split at h
    · cases h
    next fields next hupdate =>
    split at h
    · cases h
      exact .inl rfl
    · split at h
      · cases h
        obtain ⟨hid, hproject, hboard, hfired, hopen, hparent, hblocked⟩ :=
          Task.update_ok hupdate
        exact .inr ⟨next, hid, hproject, hboard, hfired, hopen, hparent, hblocked, rfl⟩
      · cases h

/-! ## Filing -/

/-- A card of a filing: of its project and board, on the board, with no rule acted
on it. -/
structure New (filing : Filing) (t : Task) : Prop where
  project : t.project = filing.project
  board : t.boardSlug = filing.board
  archivedAt : t.archivedAt = none
  fired : t.fired = []

/-- A draft without problems is of every card so far, each in a lane and waiting on
nothing yet, and numbers them on the board it was given. -/
theorem draft_filed {cards : List (NewCard × Nat)} :
    let d := cards.foldl (Draft.add filing now) ⟨counter, [], [], []⟩
    d.problems = [] → d.filed.map Task.id = cards.map (·.1.id) ∧ d.counter.lanes = counter.lanes ∧
      ∀ t ∈ d.filed, New filing t ∧ t.lane.isSome ∧ t.edges = [] := by
  induction cards using List.reverseRecOn with
  | nil => simp
  | append_singleton cards card ih =>
    simp only [List.foldl_append, List.foldl_cons, List.foldl_nil] at ih ⊢
    generalize cards.foldl (Draft.add filing now) ⟨counter, [], [], []⟩ = d at ih ⊢
    intro h
    unfold Draft.add at h ⊢
    cases hproblem : card.1.problem with
    | some => simp [hproblem] at h
    | none =>
      simp only [hproblem] at h ⊢
      have hd : d.problems = [] := by
        split at h
        · simp at h
        · exact h
      obtain ⟨hids, hlanes, hnew⟩ := ih hd
      refine ⟨by simp [hids, Task.file], hlanes, fun t ht => ?_⟩
      rcases List.mem_append.mp ht with ht | ht
      · exact hnew t ht
      · rw [List.mem_singleton.mp ht]
        refine ⟨⟨rfl, ?_, rfl, rfl⟩, rfl, rfl⟩
        rw [Task.boardSlug]
        split
        · next hmain => rw [hmain, Option.getD_none]
        · rfl

theorem map_id_setEdges (id : TaskId) (parent : Option TaskId) (blockedBy : List TaskId)
    (cards : List Task) : (setEdges id parent blockedBy cards).map Task.id = cards.map Task.id := by
  induction cards with
  | nil => rfl
  | cons _ _ ih =>
    rw [setEdges]
    split
    · rfl
    · rw [List.map_cons, ih, List.map_cons]

/-- Every card is as it was but for its edges. -/
theorem mem_setEdges {parent : Option TaskId} {blockedBy : List TaskId}
    (h : t ∈ setEdges id parent blockedBy cards) :
    t ∈ cards ∨ ∃ t₀ ∈ cards, t = { t₀ with parent, blockedBy } := by
  induction cards with
  | nil => exact absurd h List.not_mem_nil
  | cons t₀ _ ih =>
    rw [setEdges] at h
    split at h
    · rcases List.mem_cons.mp h with rfl | h
      · exact .inr ⟨t₀, List.mem_cons_self, rfl⟩
      · exact .inl (List.mem_cons_of_mem _ h)
    · rcases List.mem_cons.mp h with rfl | h
      · exact .inl List.mem_cons_self
      · rcases ih h with h | ⟨t₁, h₁, heq⟩
        · exact .inl (List.mem_cons_of_mem _ h)
        · exact .inr ⟨t₁, List.mem_cons_of_mem _ h₁, heq⟩

theorem Links.add_new (h : ∀ t ∈ l.filed, New filing t ∧ t.lane.isSome) :
    ∀ t ∈ (Links.add ids l card).filed, New filing t ∧ t.lane.isSome := by
  unfold Links.add
  split
  · exact h
  · split
    · exact h
    · intro t ht
      rcases mem_setEdges ht with ht | ⟨t₀, ht₀, rfl⟩
      · exact h t ht
      · obtain ⟨⟨hproject, hboard, hopen, hfired⟩, hlane⟩ := h t₀ ht₀
        exact ⟨⟨hproject, hboard, hopen, hfired⟩, hlane⟩

theorem Links.add_ids : (Links.add ids l card).filed.map Task.id = l.filed.map Task.id := by
  unfold Links.add
  split
  · rfl
  · split
    · rfl
    · exact map_id_setEdges _ _ _ _

variable {filed : List Task}

/-- What a filing that lands commits: a counter, and the cards of a draft. -/
theorem fileCards_ok (h : s.fileCards filing now lands = .ok (filed, s')) :
    ∃ counter after, s.board filing.project Board.main = some counter ∧
      s.draft filing counter now = .ok (after, filed) ∧
      s' = filed.foldl (fun s t => s.commit t [.placed t.id]) (s.putBoard after) := by
  rw [fileCards] at h
  split at h
  · cases h
  · split at h
    · cases h
    · split at h
      · next counter _ hcounter =>
        split at h
        · cases h
        next after filed hdraft =>
        split at h
        · cases h
          exact ⟨_, _, hcounter, hdraft, rfl⟩
        · cases h
      · cases h

/-- A draft that is filed: the cards asked for are made up without a problem, and then
their references are followed. -/
theorem draft_ok (h : s.draft filing counter now = .ok (after, filed)) :
    after.lanes = counter.lanes ∧ ∃ ids drafted, drafted.map Task.id = filing.cards.map NewCard.id ∧
      (∀ t ∈ drafted, New filing t ∧ t.lane.isSome ∧ t.edges = []) ∧
      filed = (filing.cards.zipIdx.foldl (Links.add ids)
        ⟨[], drafted, s.projectCards filing.project ++ drafted⟩).filed := by
  unfold draft at h
  dsimp only at h
  split at h
  · cases h
  next hproblems =>
  split at h
  · cases h
  · cases h
    obtain ⟨hids, hlanes, hnew⟩ := draft_filed hproblems
    have hzip : filing.cards.zipIdx.map (·.1.id) =
        (filing.cards.zipIdx.map Prod.fst).map NewCard.id :=
      List.map_map.symm
    rw [hzip, List.zipIdx_map_fst] at hids
    exact ⟨hlanes, _, _, hids, hnew, rfl⟩

/-- The cards of a filing are those asked for, each new and in a lane. -/
theorem draft_new (h : s.draft filing counter now = .ok (after, filed)) :
    filed.map Task.id = filing.cards.map NewCard.id ∧ ∀ t ∈ filed, New filing t ∧
      t.lane.isSome := by
  obtain ⟨-, _, _, hids, hnew, rfl⟩ := draft_ok h
  refine List.foldlRecOn _ _ (motive := fun l : Links =>
    l.filed.map Task.id = filing.cards.map NewCard.id ∧ ∀ t ∈ l.filed, New filing t ∧ t.lane.isSome)
    ⟨hids, fun t ht => ⟨(hnew t ht).1, (hnew t ht).2.1⟩⟩ ?_
  intro l hl card _
  exact ⟨Links.add_ids.trans hl.1, Links.add_new hl.2⟩

/-- A card that names no other is filed as it is asked for. -/
theorem fileCards_plain {card : NewCard} (hparent : card.parent = none)
    (hblockedBy : card.blockedBy = []) (hreference : card.reference = none)
    (hproblem : card.problem = none) (hcounter : s.board p Board.main = some counter)
    (ht : t = { Task.file card.id p card.lane card.externalBlocker now with
      key := counter.takeKey.1 }) :
    s.fileCards ⟨p, Board.main, [card]⟩ now true =
      .ok ([t], (s.putBoard counter.takeKey.2).commit t [.placed t.id]) := by
  have hadd : Draft.add ⟨p, Board.main, [card]⟩ now ⟨counter, [], [], []⟩ (card, 0) =
      ⟨counter.takeKey.2, [], [t], []⟩ := by
    simp [Draft.add, hproblem, hreference, ht, Task.file]
  have hedges : cardEdges card.id (s.projectCards p ++ [t]) none [] = .ok (none, []) := by
    simp [cardEdges, resolveParent, resolveBlockers, closesCycle, walkTo]
  have hset : setEdges card.id none [] [t] = [t] := by
    simp [setEdges, ht, Task.file]
  have hdraft : s.draft ⟨p, Board.main, [card]⟩ counter now = .ok (counter.takeKey.2, [t]) := by
    simp only [draft, List.zipIdx_cons, List.zipIdx_nil, List.foldl_cons, List.foldl_nil,
      hadd, Links.add, hparent, hblockedBy, Option.map_none, List.map_nil, hedges, hset]
  rw [fileCards, if_neg (by simp), if_neg (by simp [batchMax])]
  simp only [hcounter, hdraft]
  rfl

/-- The ids a filing generates are new: no two the same, and none a card's. -/
def Generated (s : Tasks) : Op → Prop
  | .file filing .. =>
    (filing.cards.map NewCard.id).Nodup ∧ ∀ card ∈ filing.cards, s.cards.get? card.id = none
  | _ => True

/-- A batch committed, card by card. -/
theorem foldl_commit (filed : List Task) (s : Tasks) :
    filed.foldl (fun s t => s.commit t [.placed t.id]) s = { s with
      cards := filed.foldl Keyed.insert s.cards
      trace := s.trace ++ filed.map fun t => .placed t.id } := by
  induction filed generalizing s with
  | nil => simp
  | cons _ _ ih =>
    rw [List.foldl_cons, ih]
    simp [commit]

/-- A filing that lands adds its cards, none of which was there, to those there are. -/
theorem fileCards_adds (hids : (filing.cards.map NewCard.id).Nodup)
    (hfresh : ∀ card ∈ filing.cards, s.cards.get? card.id = none)
    (h : s.fileCards filing now lands = .ok (filed, s')) :
    (filed.map Task.id).Nodup ∧ (∀ t ∈ filed, s.cards.get? t.id = none) ∧
      ∀ t, t ∈ s'.cards ↔ t ∈ filed ∨ t ∈ s.cards := by
  obtain ⟨_, _, -, hdraft, rfl⟩ := fileCards_ok h
  obtain ⟨hfiled, -⟩ := draft_new hdraft
  have hnodup : (filed.map Task.id).Nodup := hfiled ▸ hids
  have hnone : ∀ t ∈ filed, s.cards.get? t.id = none := by
    intro t ht
    have hmem : t.id ∈ filing.cards.map NewCard.id := hfiled ▸ List.mem_map_of_mem ht
    obtain ⟨card, hcard, hid⟩ := List.mem_map.mp hmem
    exact hid ▸ hfresh card hcard
  refine ⟨hnodup, hnone, fun t => ?_⟩
  rw [foldl_commit, mem_foldl_insert hnodup]
  constructor
  · exact Or.imp_right And.left
  · exact Or.imp_right fun ht => ⟨ht, fun x hx => get?_eq_none.mp (hnone x hx) t ht⟩

/-! ## Starts -/

theorem taskStart_ok (h : s.taskStart actor id = .ok s') : s.starting.get? id = none ∧
      s' = { s with starting := s.starting.insert ⟨id, none, false⟩ } := by
  rw [taskStart] at h
  split at h
  · cases h
  · split at h
    · cases h
    · split at h
      · cases h
      · split at h
        · cases h
        next hfree =>
        cases h
        exact ⟨by simpa using hfree, rfl⟩

/-- A card pulled stays in its lane, or its stay there ends. -/
theorem pulled_ok {board : Board} {moved : Bool} (hopen : t.archivedAt = none)
    (h : pulled t board now = (moved, next)) :
    t.Same next ∧ next.archivedAt = none ∧ next.fired = if moved then [] else t.fired := by
  unfold pulled at h
  split at h
  · cases h
    exact ⟨.refl t, hopen, rfl⟩
  · split at h
    · next hmove =>
      subst h
      obtain ⟨-, hsame, hopen', -, -, hfired⟩ := Task.moveTo_ok hmove
      refine ⟨hsame, hopen', ?_⟩
      cases moved with
      | true => exact hfired
      | false => exact hfired.1
    · cases h
      exact ⟨.refl t, hopen, rfl⟩

/-- The agents that are live and the cards being started on, and nothing else. -/
def starts (s : Tasks) (live : List String) (starting : Keyed Starting.task) : Tasks :=
  { s with live, starting }

/-- The start of an agent on a card that is marked as launched. -/
def launching (s : Tasks) (entry : Starting) : Tasks :=
  s.starts (s.live ++ entry.rule.toList) (s.starting.insert { entry with launched := true })

/-- What the end of a launch does: nothing, mark the start, or hand over the card. -/
inductive Launches (s : Tasks) (id : TaskId) (now : Time) : Tasks → Prop where
  | stands : Launches s id now s
  | marks (entry : Starting) (hentry : s.starting.get? id = some entry)
      (hlaunched : entry.launched = false) : Launches s id now (s.launching entry)
  | hands (entry : Starting) (hentry : s.starting.get? id = some entry)
      (hlaunched : entry.launched = false) (t : Task) (board : Board) (agent : AgentId)
      (hcard : s.cards.get? id = some t) (hopen : t.archivedAt = none) :
      Launches s id now
        ((s.launching entry).commit (handed (pulled t board now).2 agent entry.rule now)
          ((entry.rule.toList.map fun r => .fired r id) ++
            if (pulled t board now).1 then [.placed id] else []))

theorem startRefusal_of_archived (h : t.archivedAt.isSome) : (s.startRefusal t).isSome := by
  rw [startRefusal]
  cases ha : t.archivedAt with
  | none => simp [ha] at h
  | some => simp [startable, ha, Task.isOpen]

theorem startLaunched_launches {agent : Option AgentId} :
    Launches s id now (s.startLaunched id agent now lands) := by
  unfold startLaunched
  split
  · exact .stands
  · exact .stands
  next entry agent hget =>
  split
  · exact .stands
  next hlaunched =>
  have hlaunched : entry.launched = false := by simpa using hlaunched
  dsimp only
  split
  · exact .marks entry hget hlaunched
  next t ht =>
  split
  · exact .marks entry hget hlaunched
  next hrefusal =>
  split
  · exact .marks entry hget hlaunched
  next board _ =>
  split
  · refine .hands entry hget hlaunched t board agent ht ?_
    rw [← Option.not_isSome_iff_eq_none]
    exact fun hshelved => hrefusal (startRefusal_of_archived hshelved)
  · exact .marks entry hget hlaunched

end AgentDocker.Daemon.Tasks

/-! ## A board to run on -/

namespace AgentDocker.Daemon.Demo

open AgentDocker.Core

def project : ProjectId := ⟨"demo"⟩

def backlog : Lane := ⟨"backlog", .backlog⟩

/-- The board a project has before anybody shapes it. -/
def board (p : ProjectId) : Board := .classic p "AD"

def person : Actor := ⟨"user", true⟩

/-- A card that names no other. -/
def card (id : String) : Tasks.NewCard := ⟨⟨id⟩, none, backlog, "", none, [], none⟩

/-- Cards that sit in a lane for a day are spoken of. -/
def reminds (id lane : String) : BoardRule :=
  ⟨id, project, Board.main, "remind", .idle lane 1, .comment "still here", true, fun text h => by
    cases h
    decide⟩

theorem archive_words (text : String) (h : RuleAction.archive = .comment text) :
    checkBody text = .ok () := by
  cases h

/-- Cards that sit in a lane are archived. -/
def tidies (id lane : String) (days : Nat) : BoardRule :=
  ⟨id, project, Board.main, "tidy", .idle lane days, .archive, true, archive_words⟩

end AgentDocker.Daemon.Demo
