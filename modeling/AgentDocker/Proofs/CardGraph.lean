import AgentDocker.Proofs.CardWrites
import AgentDocker.Lib.Runs

/-!
# Cards that wait on each other

Cards of a project wait on each other and are part of each other. A new edge is
looked at before it is made: a walk from where it leads must not come to the card it
leaves. The walk enters a bounded number of cards, so what it says is right of the
projects it can walk whole, and in these no card ever waits on itself, over however
many others.

A batch is a list of single cards whose edges are made one after the other, in the
graph the earlier ones left.
-/

namespace AgentDocker.Daemon.Tasks

open AgentDocker.Core Lib Keyed Relation

variable {s s' : Tasks} {p : ProjectId} {cards : List Task}

/-! ## The graph of a list of cards -/

/-- Every edge leads to a card of the list. -/
def Closed (cards : List Task) : Prop := ∀ a, ∀ b ∈ edgesIn cards a, b ∈ cards.map Task.id

variable {lands : Bool} {change : Change} {base filed : List Task}
  {blockedBy blockers : List TaskId} {parentWords : Option String} {parent : Option TaskId}
  {t : Task} {a b task : TaskId} {now : Time}

theorem mem_edgesIn (h : b ∈ edgesIn cards a) : ∃ t ∈ cards, t.id = a ∧ b ∈ t.edges := by
  rw [edgesIn] at h
  cases hfind : cards.find? fun t => decide (t.id = a) with
  | none => simp [hfind] at h
  | some t =>
    rw [hfind] at h
    exact ⟨t, List.mem_of_find?_eq_some hfind, by simpa using List.find?_some hfind, h⟩

/-- Where ids are told apart, a card's edges are those of its id. -/
theorem edgesIn_eq (hnodup : (cards.map Task.id).Nodup) (ht : t ∈ cards) :
    edgesIn cards t.id = t.edges := by
  have hget : (⟨cards, hnodup⟩ : Keyed Task.id).get? t.id = some t := get?_eq_some.mpr ⟨ht, rfl⟩
  rw [Keyed.get?] at hget
  rw [edgesIn, hget]
  rfl

theorem edgesIn_cons {rest : List Task} :
    edgesIn (t :: rest) a = if t.id = a then t.edges else edgesIn rest a := by
  by_cases ha : t.id = a <;> simp [edgesIn, ha]

variable {id : TaskId}

/-- New edges of one card, in the graph there was. -/
theorem edge_setEdges (h : b ∈ edgesIn (setEdges id parent blockedBy cards) a) :
    b ∈ edgesIn cards a ∨ (a = id ∧ b ∈ parent.toList ++ blockedBy) := by
  induction cards with
  | nil => exact .inl h
  | cons t _ ih =>
    rw [edgesIn_cons]
    rw [setEdges] at h
    by_cases hid : t.id = id
    · rw [if_pos hid, edgesIn_cons] at h
      by_cases ha : t.id = a
      · rw [if_pos ha] at h
        exact .inr ⟨ha.symm.trans hid, h⟩
      · rw [if_neg ha] at h ⊢
        exact .inl h
    · rw [if_neg hid, edgesIn_cons] at h
      by_cases ha : t.id = a
      · rw [if_pos ha] at h ⊢
        exact .inl h
      · rw [if_neg ha] at h ⊢
        exact ih h

theorem setEdges_append (h : id ∉ base.map Task.id) :
    setEdges id parent blockedBy (base ++ filed) = base ++ setEdges id parent blockedBy filed := by
  induction base with
  | nil => rfl
  | cons _ _ ih =>
    rw [List.map_cons, List.mem_cons, not_or] at h
    rw [List.cons_append, setEdges, if_neg (Ne.symm h.1), ih h.2, List.cons_append]

/-! ## References -/

theorem resolveCard_mem {words : String} (h : resolveCard cards words = .ok id) :
    id ∈ cards.map Task.id := by
  rw [resolveCard] at h
  split at h
  · next found hfind =>
    cases h
    exact List.mem_map_of_mem (List.mem_of_find?_eq_some hfind)
  · split at h
    · next one hone =>
      cases h
      have hmem : one ∈ [one] := List.mem_singleton.mpr rfl
      rw [← hone] at hmem
      exact List.mem_map_of_mem (List.mem_of_mem_filter hmem)
    · cases h
    · cases h

variable {words : List String}

theorem resolveBlockers_mem {found : List TaskId}
    (h : resolveBlockers cards words blockers = .ok found)
    (hblockers : ∀ b ∈ blockers, b ∈ cards.map Task.id) : ∀ b ∈ found, b ∈ cards.map Task.id := by
  induction words generalizing blockers with
  | nil =>
    cases h
    exact hblockers
  | cons _ _ ih =>
    rw [resolveBlockers] at h
    split at h
    · cases h
    next id hid =>
    refine ih h fun b hb => ?_
    split at hb
    · exact hblockers b hb
    · rcases List.mem_append.mp hb with hb | hb
      · exact hblockers b hb
      · rw [List.mem_singleton.mp hb]
        exact resolveCard_mem hid

theorem resolveParent_mem {words : Option String} (h : resolveParent cards words = .ok parent) :
    ∀ b ∈ parent.toList, b ∈ cards.map Task.id := by
  rw [resolveParent] at h
  split at h
  · cases h
    simp
  next words _ =>
  cases hresolve : resolveCard cards words with
  | error =>
    rw [hresolve] at h
    cases h
  | ok =>
    rw [hresolve] at h
    cases h
    intro b hb
    rw [Option.toList_some, List.mem_singleton] at hb
    exact hb ▸ resolveCard_mem hresolve

/-- Edges that were looked at lead to cards, and the walk from them did not come to
the card they leave. -/
theorem cardEdges_ok (h : cardEdges task cards parentWords words = .ok (parent, blockers)) :
    (∀ b ∈ parent.toList ++ blockers, b ∈ cards.map Task.id) ∧
      closesCycle task (parent.toList ++ blockers) (edgesIn cards) = false := by
  rw [cardEdges] at h
  split at h
  · cases h
  · cases h
  next hparent hblockers =>
  split at h
  · cases h
  next hcycle =>
  cases h
  refine ⟨fun b hb => ?_, by simpa using hcycle⟩
  rcases List.mem_append.mp hb with hb | hb
  · exact resolveParent_mem hparent b hb
  · exact resolveBlockers_mem hblockers (by simp) b hb

/-- The cards a walk can tell apart from the one it looks for, and that one. -/
def walkable : Nat := 4098

/-- In a project the walk enters whole, no edge looked at leads to the card. -/
theorem cardEdges_not_reaches (hclosed : Closed cards) (htask : task ∈ cards.map Task.id)
    (hroom : (cards.map Task.id).toFinset.card ≤ walkable)
    (h : cardEdges task cards parentWords words = .ok (parent, blockers)) :
    ∀ b ∈ parent.toList ++ blockers, ¬ ReflTransGen (Edge (edgesIn cards)) b task := by
  obtain ⟨hmem, hcycle⟩ := cardEdges_ok h
  intro b hb
  have hstack : ∀ a ∈ (parent.toList ++ blockers).reverse, a ∈ cards.map Task.id :=
    fun a ha => hmem a (List.mem_reverse.mp ha)
  exact not_reaches_of_walkTo (fun a _ => hclosed a) htask hroom
    ⟨List.nodup_nil, List.not_mem_nil, by simp, hstack, by simp⟩ hcycle
    (.inr (List.mem_reverse.mpr hb))

/-! ## A batch -/

/-- A batch among the cards of its project, so far free of loops. -/
structure Linked (base : List Task) (ids : List TaskId) (l : Links) : Prop where
  everything : l.everything = base ++ l.filed
  ids : l.filed.map Task.id = ids
  acyclic : Acyclic (Edge (edgesIn l.everything))
  closed : Closed l.everything

theorem Linked.add {ids : List TaskId} {l : Links} {refs : List (String × TaskId)}
    {card : NewCard × Nat} (hl : Linked base ids l) (hcard : card.1.id ∈ ids)
    (hfresh : card.1.id ∉ base.map Task.id)
    (hroom : (base.map Task.id ++ ids).toFinset.card ≤ walkable) :
    Linked base ids (Links.add refs l card) := by
  unfold Links.add
  split
  · exact hl
  · split
    · exact { hl with }
    next parent blockers hedges =>
    have hids : l.everything.map Task.id = base.map Task.id ++ ids := by
      rw [hl.everything, List.map_append, hl.ids]
    have hmem : card.1.id ∈ l.everything.map Task.id := by
      rw [hids]
      exact List.mem_append_right _ hcard
    refine ⟨?_, ?_, ?_, ?_⟩
    · dsimp only
      rw [hl.everything, setEdges_append hfresh]
    · exact (map_id_setEdges _ _ _ _).trans hl.ids
    · refine hl.acyclic.extend (fun a b hab => edge_setEdges hab) ?_
      exact cardEdges_not_reaches hl.closed hmem (by rw [hids]; exact hroom) hedges
    · intro a b hb
      rw [map_id_setEdges]
      rcases edge_setEdges hb with hb | ⟨-, hb⟩
      · exact hl.closed a b hb
      · exact (cardEdges_ok hedges).1 b hb

/-- Cards that wait on nothing add no edge. -/
theorem edgesIn_append (hfiled : ∀ t ∈ filed, t.edges = []) (h : b ∈ edgesIn (base ++ filed) a) :
    b ∈ edgesIn base a := by
  rw [edgesIn, List.find?_append] at h
  cases hfind : base.find? fun t => decide (t.id = a) with
  | some =>
    rw [hfind] at h
    rw [edgesIn, hfind]
    exact h
  | none =>
    rw [hfind, Option.none_or] at h
    obtain ⟨t, ht, -, hb⟩ := mem_edgesIn h
    rw [hfiled t ht] at hb
    cases hb

theorem draft_linked {filing : Filing} {counter after : Board}
    (h : s.draft filing counter now = .ok (after, filed))
    (hfresh : ∀ card ∈ filing.cards, s.cards.get? card.id = none)
    (hacyclic : Acyclic (Edge (edgesIn (s.projectCards filing.project))))
    (hclosed : Closed (s.projectCards filing.project))
    (hroom : ((s.projectCards filing.project).map Task.id ++
      filing.cards.map NewCard.id).toFinset.card ≤ walkable) :
    Acyclic (Edge (edgesIn (s.projectCards filing.project ++ filed))) ∧
      Closed (s.projectCards filing.project ++ filed) := by
  obtain ⟨-, refs, drafted, hids, hnew, rfl⟩ := draft_ok h
  have hplain : ∀ t ∈ drafted, t.edges = [] := fun t ht => (hnew t ht).2.2
  have hlinked := List.foldlRecOn filing.cards.zipIdx (Links.add refs) (motive := fun l : Links =>
      Linked (s.projectCards filing.project) (filing.cards.map NewCard.id) l)
    (b := ⟨[], drafted, s.projectCards filing.project ++ drafted⟩)
    ⟨rfl, hids, hacyclic.mono fun a b hab => edgesIn_append hplain hab, fun a b hb => by
      rw [List.map_append]
      exact List.mem_append_left _ (hclosed a b (edgesIn_append hplain hb))⟩ ?_
  · rw [← hlinked.everything]
    exact ⟨hlinked.acyclic, hlinked.closed⟩
  · intro l hl card hcard
    have hmem : card.1 ∈ filing.cards := by
      have := List.mem_map_of_mem (f := Prod.fst) hcard
      rwa [List.zipIdx_map_fst] at this
    refine hl.add (List.mem_map_of_mem hmem) (fun hin => ?_) hroom
    obtain ⟨t, ht, hid⟩ := List.mem_map.mp hin
    exact get?_eq_none.mp (hfresh card.1 hmem) t (mem_of_mem_projectCards ht).1 hid

/-! ## The graph of a project -/

/-- A card of the project waits on another or is part of it. -/
def Waits (s : Tasks) (p : ProjectId) (a b : TaskId) : Prop :=
  ∃ t ∈ s.cards, t.project = p ∧ t.id = a ∧ b ∈ t.edges

/-- The cards of a project, archived ones too. -/
def members (s : Tasks) (p : ProjectId) : Finset TaskId :=
  ((s.cards.rows.filter fun t => decide (t.project = p)).map Task.id).toFinset

theorem mem_members : a ∈ s.members p ↔ ∃ t ∈ s.cards, t.project = p ∧ t.id = a := by
  rw [members, List.mem_toFinset, List.mem_map]
  constructor
  · rintro ⟨t, ht, rfl⟩
    exact ⟨t, List.mem_of_mem_filter ht, by simpa using (List.mem_filter.mp ht).2, rfl⟩
  · rintro ⟨t, ht, hp, rfl⟩
    exact ⟨t, List.mem_filter.mpr ⟨ht, decide_eq_true hp⟩, rfl⟩

/-- A project small enough is read whole. -/
theorem mem_projectCards (hroom : (s.members p).card ≤ projectCardsMax) :
    t ∈ s.projectCards p ↔ t ∈ s.cards ∧ t.project = p := by
  refine ⟨mem_of_mem_projectCards, fun ⟨ht, hp⟩ => ?_⟩
  have hnodup : ((s.cards.rows.filter fun t => decide (t.project = p)).map Task.id).Nodup :=
    (s.cards.filter _).nodup
  rw [members, List.toFinset_card_of_nodup hnodup, List.length_map] at hroom
  rw [projectCards, List.take_of_length_le (by rw [(sortBy_perm _ _).length_eq]; exact hroom)]
  exact (sortBy_perm _ _).mem_iff.mpr (List.mem_filter.mpr ⟨ht, decide_eq_true hp⟩)

/-- The graph of a project, free of loops, and its edges within it. -/
structure Graph (p : ProjectId) (s : Tasks) : Prop where
  acyclic : Acyclic (s.Waits p)
  closed : ∀ a b, s.Waits p a b → b ∈ s.members p

theorem edge_projectCards (h : Edge (edgesIn (s.projectCards p)) a b) : s.Waits p a b := by
  obtain ⟨t, ht, hid, hb⟩ := mem_edgesIn h
  obtain ⟨hmem, hp⟩ := mem_of_mem_projectCards ht
  exact ⟨t, hmem, hp, hid, hb⟩

section

variable (hroom : (s.members p).card ≤ projectCardsMax)

include hroom

theorem edge_of_waits {a b : TaskId} (h : s.Waits p a b) :
    Edge (edgesIn (s.projectCards p)) a b := by
  obtain ⟨t, ht, hp, rfl, hb⟩ := h
  show b ∈ edgesIn (s.projectCards p) t.id
  rw [edgesIn_eq (nodup_projectCards p) ((mem_projectCards hroom).mpr ⟨ht, hp⟩)]
  exact hb

theorem toFinset_projectCards : ((s.projectCards p).map Task.id).toFinset = s.members p := by
  ext a
  rw [List.mem_toFinset, List.mem_map, mem_members]
  constructor
  · rintro ⟨t, ht, rfl⟩
    obtain ⟨hmem, hp⟩ := (mem_projectCards hroom).mp ht
    exact ⟨t, hmem, hp, rfl⟩
  · rintro ⟨t, ht, hp, rfl⟩
    exact ⟨t, (mem_projectCards hroom).mpr ⟨ht, hp⟩, rfl⟩

theorem Graph.closed_projectCards (h : Graph p s) : Closed (s.projectCards p) := by
  intro a b hb
  rw [← List.mem_toFinset, toFinset_projectCards hroom]
  exact h.closed a b (edge_projectCards hb)

end

/-! ## Steps -/

theorem SameCards.members_eq (h : SameCards s s') : s'.members p = s.members p := by
  ext a
  rw [mem_members, mem_members]
  constructor
  · rintro ⟨t, ht, rfl, rfl⟩
    obtain ⟨t₀, ht₀, hsame⟩ := h.back t ht
    exact ⟨t₀, ht₀, hsame.project.symm, hsame.id.symm⟩
  · rintro ⟨t, ht, rfl, rfl⟩
    obtain ⟨t₀, ht₀, hsame⟩ := h.forth t ht
    exact ⟨t₀, ht₀, hsame.project, hsame.id⟩

/-- No edge is new, and no card is gone. -/
theorem Graph.of_waits (hs : Graph p s) (hwaits : ∀ a b, s'.Waits p a b → s.Waits p a b)
    (hmembers : s.members p ⊆ s'.members p) : Graph p s' :=
  ⟨hs.acyclic.mono hwaits, fun a b hab => hmembers (hs.closed a b (hwaits a b hab))⟩

theorem SameCards.graph (h : SameCards s s') (hs : Graph p s) : Graph p s' := by
  refine hs.of_waits ?_ h.members_eq.ge
  rintro _ _ ⟨t, ht, rfl, rfl, hb⟩
  obtain ⟨t₀, ht₀, hsame⟩ := h.back t ht
  exact ⟨t₀, ht₀, hsame.project.symm, hsame.id.symm, hsame.edges ▸ hb⟩

/-- New cards of a project beside those there are. -/
theorem members_filed (hcards : ∀ t, t ∈ s'.cards ↔ t ∈ filed ∨ t ∈ s.cards)
    (hproject : ∀ t ∈ filed, t.project = p) :
    s'.members p = s.members p ∪ (filed.map Task.id).toFinset := by
  ext a
  rw [Finset.mem_union, mem_members, mem_members, List.mem_toFinset, List.mem_map]
  constructor
  · rintro ⟨t, ht, hp, rfl⟩
    rcases (hcards t).mp ht with ht | ht
    · exact .inr ⟨t, ht, rfl⟩
    · exact .inl ⟨t, ht, hp, rfl⟩
  · rintro (⟨t, ht, hp, rfl⟩ | ⟨t, ht, rfl⟩)
    · exact ⟨t, (hcards t).mpr (.inr ht), hp, rfl⟩
    · exact ⟨t, (hcards t).mpr (.inl ht), hproject t ht, rfl⟩

/-- A filing that lands adds its cards, with edges that close no loop. -/
theorem Graph.fileCards {filing : Filing} (hs : Graph p s)
    (h : s.fileCards filing now lands = .ok (filed, s'))
    (hids : (filing.cards.map NewCard.id).Nodup)
    (hfresh : ∀ card ∈ filing.cards, s.cards.get? card.id = none)
    (hroom' : (s'.members p).card ≤ walkable) : Graph p s' := by
  obtain ⟨_, _, -, hdraft, -⟩ := fileCards_ok h
  obtain ⟨hfiled, hnew⟩ := draft_new hdraft
  obtain ⟨hnodup, hnone, hcards⟩ := fileCards_adds hids hfresh h
  by_cases hp : filing.project = p
  · have hproject : ∀ t ∈ filed, t.project = p := fun t ht => (hnew t ht).1.project.trans hp
    have hmembers := members_filed hcards hproject
    have hroom : (s.members p).card ≤ projectCardsMax := by
      have hle : (s.members p).card ≤ (s'.members p).card := by
        rw [hmembers]
        exact Finset.card_le_card Finset.subset_union_left
      exact (hle.trans hroom').trans (by decide)
    have hevery : ∀ t, t ∈ s'.cards → t.project = p → t ∈ s.projectCards p ++ filed := by
      intro t ht htp
      rcases (hcards t).mp ht with ht | ht
      · exact List.mem_append_right _ ht
      · exact List.mem_append_left _ ((mem_projectCards hroom).mpr ⟨ht, htp⟩)
    obtain ⟨hacyclic, hclosed⟩ := draft_linked hdraft hfresh
      (by rw [hp]; exact hs.acyclic.mono fun a b hab => edge_projectCards hab)
      (by rw [hp]; exact hs.closed_projectCards hroom)
      (by
        rw [hp, List.toFinset_append, toFinset_projectCards hroom, ← hfiled, ← hmembers]
        exact hroom')
    rw [hp] at hacyclic hclosed
    have hboth : ((s.projectCards p ++ filed).map Task.id).Nodup := by
      rw [List.map_append]
      refine List.Nodup.append (nodup_projectCards _) hnodup fun a ha ha' => ?_
      obtain ⟨t, ht, rfl⟩ := List.mem_map.mp ha
      obtain ⟨t', ht', hid⟩ := List.mem_map.mp ha'
      exact get?_eq_none.mp (hnone t' ht') t (mem_of_mem_projectCards ht).1 hid.symm
    have hedge : ∀ a b, s'.Waits p a b → Edge (edgesIn (s.projectCards p ++ filed)) a b := by
      rintro _ b ⟨t, ht, htp, rfl, hb⟩
      show b ∈ edgesIn (s.projectCards p ++ filed) t.id
      rw [edgesIn_eq hboth (hevery t ht htp)]
      exact hb
    refine ⟨hacyclic.mono hedge, fun a b hab => ?_⟩
    rw [hmembers, ← toFinset_projectCards hroom, ← List.toFinset_append, ← List.map_append,
      List.mem_toFinset]
    exact hclosed a b (hedge a b hab)
  · -- the cards are another project's
    refine hs.of_waits ?_ fun a ha => ?_
    · rintro _ _ ⟨t, ht, htp, rfl, hb⟩
      rcases (hcards t).mp ht with ht | ht
      · exact absurd ((hnew t ht).1.project.symm.trans htp) hp
      · exact ⟨t, ht, htp, rfl, hb⟩
    · obtain ⟨t, ht, htp, hid⟩ := mem_members.mp ha
      exact mem_members.mpr ⟨t, (hcards t).mpr (.inr ht), htp, hid⟩

/-- The edges an update leaves are those there were and those it looked at. -/
theorem changedEdges_ok {next : Task} {parent : Option (Option TaskId)}
    {blockedBy : Option (List TaskId)} (h : s.changedEdges t change = .ok (parent, blockedBy))
    (hparent : next.parent = parent.getD t.parent)
    (hblockedBy : next.blockedBy = (blockedBy.map (List.destutter (· ≠ ·))).getD t.blockedBy) :
    next.edges = t.edges ∨ ∃ parentWords words found blockers,
      cardEdges t.id (s.projectCards t.project) parentWords words = .ok (found, blockers) ∧
        ∀ b ∈ next.edges, b ∈ t.edges ∨ b ∈ found.toList ++ blockers := by
  rw [changedEdges] at h
  split at h
  · split at h
    · cases h
    next found blockers hedges =>
    cases h
    refine .inr ⟨_, _, found, blockers, hedges, fun b hb => ?_⟩
    rw [Task.edges, hparent, hblockedBy, List.mem_append] at hb
    rw [Task.edges, List.mem_append, List.mem_append]
    rcases hb with hb | hb
    · cases hchange : change.parent with
      | none =>
        rw [hchange] at hb
        exact .inl (.inl hb)
      | some =>
        rw [hchange, Option.map_some, Option.getD_some] at hb
        split at hb
        · cases hb
        · exact .inr (.inl hb)
    · cases hchange : change.blockedBy with
      | none =>
        rw [hchange] at hb
        exact .inl (.inr hb)
      | some =>
        rw [hchange] at hb
        exact .inr (.inr ((List.destutter_sublist _ _).mem hb))
  · cases h
    left
    rw [Task.edges, hparent, hblockedBy]
    rfl

theorem Graph.taskUpdate {actor : Actor} (hs : Graph p s) (hroom : (s.members p).card ≤ walkable)
    (h : s.taskUpdate actor id change now lands = .ok s') : Graph p s' := by
  obtain ⟨t, _, _, hget, hedges, hs'⟩ := taskUpdate_ok h
  have ht : t ∈ s.cards := (get?_eq_some.mp hget).1
  rcases hs' with rfl | ⟨next, hid, hproject, hboard, -, -, hparent, hblocked, rfl⟩
  · exact hs
  · rcases changedEdges_ok hedges hparent hblocked with
      hsame | ⟨_, _, found, blockers, hlooked, hnext⟩
    · exact (SameCards.commit ht ⟨hid, hproject, hboard, hsame⟩).graph hs
    · have hmembers : (s.commit next []).members p = s.members p := by
        ext a
        rw [mem_members, mem_members]
        constructor
        · rintro ⟨u, hu, hp, rfl⟩
          rcases mem_insert.mp hu with rfl | ⟨hu, -⟩
          · exact ⟨t, ht, hproject.symm.trans hp, hid.symm⟩
          · exact ⟨u, hu, hp, rfl⟩
        · rintro ⟨u, hu, hp, rfl⟩
          by_cases heq : u.id = next.id
          · have hut : u = t := eq_of_key_eq hu ht (heq.trans hid)
            exact ⟨next, mem_insert.mpr (.inl rfl), hproject.trans (hut ▸ hp), heq.symm⟩
          · exact ⟨u, mem_insert.mpr (.inr ⟨hu, heq⟩), hp, rfl⟩
      have hwaits : ∀ a b, (s.commit next []).Waits p a b →
          s.Waits p a b ∨ (t.project = p ∧ a = t.id ∧ b ∈ found.toList ++ blockers) := by
        rintro _ b ⟨u, hu, hp, rfl, hb⟩
        rcases mem_insert.mp hu with rfl | ⟨hu, -⟩
        · rcases hnext b hb with hb | hb
          · exact .inl ⟨t, ht, hproject.symm.trans hp, hid.symm, hb⟩
          · exact .inr ⟨hproject.symm.trans hp, hid, hb⟩
        · exact .inl ⟨u, hu, hp, rfl, hb⟩
      by_cases hp : t.project = p
      · rw [hp] at hlooked
        have hread : (s.members p).card ≤ projectCardsMax := hroom.trans (by decide)
        have hmem : t.id ∈ (s.projectCards p).map Task.id :=
          List.mem_map_of_mem ((mem_projectCards hread).mpr ⟨ht, hp⟩)
        have hreach := cardEdges_not_reaches (hs.closed_projectCards hread) hmem
          (by rw [toFinset_projectCards hread]; exact hroom) hlooked
        refine ⟨hs.acyclic.extend (fun a b hab => (hwaits a b hab).imp_right And.right)
          fun b hb hway => hreach b hb
            (ReflTransGen.mono (fun _ _ => edge_of_waits hread) _ _ hway),
          fun a b hab => ?_⟩
        rw [hmembers]
        rcases hwaits a b hab with hab | ⟨-, -, hb⟩
        · exact hs.closed a b hab
        · rw [← toFinset_projectCards hread, List.mem_toFinset]
          exact (cardEdges_ok hlooked).1 b hb
      · exact hs.of_waits
          (fun a b hab => (hwaits a b hab).resolve_right fun h => hp h.1) hmembers.ge

theorem foldl_rulesOnEnter_sameCards (now : Time) (lands : String → TaskId → Bool)
    (filed : List Task) (s : Tasks) :
    SameCards s (filed.foldl (fun s t => s.rulesOnEnter t (t.lane.getD "") now lands) s) := by
  induction filed generalizing s with
  | nil => exact .refl s
  | cons _ _ ih => exact rulesOnEnter_sameCards.trans (ih _)

theorem Hand.sameCards (h : Hand s t s') (ht : t ∈ s.cards) : SameCards s s' := by
  cases h with
  | stands => exact .refl s
  | keeps _ hsame => exact .commit ht hsame
  | archives => exact .commit ht ⟨rfl, rfl, rfl, rfl⟩

theorem Launches.sameCards (h : Launches s id now s') : SameCards s s' := by
  cases h with
  | stands => exact .refl s
  | marks => exact .of_eq rfl rfl
  | hands entry _ _ t board agent hcard hopen =>
    obtain ⟨hsame, -⟩ := pulled_ok hopen (Prod.mk.eta (p := pulled t board now)).symm
    have hhanded : t.Same (handed (pulled t board now).2 agent entry.rule now) := { hsame with }
    have hmarked : SameCards s (s.launching entry) := .of_eq rfl rfl
    have hmem : t ∈ (s.launching entry).cards := (get?_eq_some.mp hcard).1
    exact hmarked.trans (.commit hmem hhanded)

theorem Graph.step {op : Op} (hs : Graph p s) (hgenerated : s.Generated op)
    (hroom : (s.members p).card ≤ walkable) (hroom' : ((s.step op).members p).card ≤ walkable) :
    Graph p (s.step op) := by
  cases op with
  | file filing now lands ruleLands =>
    rw [Tasks.step, taskFile] at hroom' ⊢
    cases h : s.fileCards filing now lands with
    | error =>
      exact hs
    | ok result =>
      obtain ⟨filed, s'⟩ := result
      rw [h] at hroom'
      have hrules := foldl_rulesOnEnter_sameCards now ruleLands filed s'
      refine hrules.graph (hs.fileCards h hgenerated.1 hgenerated.2 ?_)
      rw [← hrules.members_eq]
      exact hroom'
  | update => exact kept_of hs fun s' => hs.taskUpdate hroom
  | move actor id lane reranked said now lands =>
    rw [Tasks.step, taskMove]
    cases h : s.moveCard actor id lane reranked said now lands with
    | error => exact hs
    | ok result =>
      obtain ⟨_ | _, _⟩ := result
      · obtain ⟨_, ht, hhand⟩ := moveCard_ok h
        exact (hhand.sameCards ht).graph hs
      · obtain ⟨_, ht, hsame, rfl⟩ := moveCard_ok h
        exact ((SameCards.commit ht hsame).trans rulesOnEnter_sameCards).graph hs
  | archive _ _ now =>
    refine kept_of hs fun s' h => ?_
    obtain ⟨t, hget, rfl | ⟨-, rfl⟩⟩ := taskArchive_ok h
    · exact hs
    · have hsame : t.Same { t with archivedAt := some now, updatedAt := now } :=
        ⟨rfl, rfl, rfl, rfl⟩
      exact (SameCards.commit (get?_eq_some.mp hget).1 hsame).graph hs
  | unarchive _ _ now =>
    refine kept_of hs fun s' h => ?_
    obtain ⟨t, hget, rfl | rfl⟩ := taskUnarchive_ok h
    · exact hs
    · have hsame : t.Same { t with archivedAt := none, updatedAt := now } := ⟨rfl, rfl, rfl, rfl⟩
      exact (SameCards.commit (get?_eq_some.mp hget).1 hsame).graph hs
  | sweep => exact sweepRules_swept.sameCards.graph hs
  | start =>
    refine kept_of hs fun s' h => ?_
    obtain ⟨-, rfl⟩ := taskStart_ok h
    exact hs.of_waits (fun _ _ h => h) fun _ h => h
  | launched => exact startLaunched_launches.sameCards.graph hs
  | ended | exited => exact hs.of_waits (fun _ _ h => h) fun _ h => h

/-! ## A chain the walk does not come to the end of -/

namespace Chain

open Demo

/-- Twelve digits, in the order the cards are filed. -/
def cardId (i : Nat) : TaskId := ⟨String.ofList ('0' :: Nat.toDigits 10 (10000000000 + i))⟩

/-- The card before it, if any. -/
def before : Nat → List TaskId
  | 0 => []
  | i + 1 => [cardId i]

def newCard (i : Nat) : NewCard := ⟨cardId i, none, backlog, "", none, (before i).map (·.id), none⟩

def filing (i : Nat) : Filing := ⟨project, Board.main, [newCard i]⟩

def fileOp (i : Nat) : Op := .file (filing i) 0 true fun _ _ => true

/-- The first card waits on the last of so many. -/
def closing (last : Nat) : Op :=
  .update person (cardId 0)
    ⟨none, some [(cardId last).id], none, none, [], none, none, none⟩ 0 true

def empty : Tasks := initial [] Demo.board .empty

variable {i j last n : Nat} {b : TaskId}

theorem cardId_inj (h : cardId i = cardId j) : i = j := by
  have hdigits := (List.cons.inj (String.ofList_injective (TaskId.mk.inj h))).2
  have hnumbers := congrArg (Nat.ofDigitChars 10 · 0) hdigits
  simpa [Nat.ofDigitChars_toDigits] using hnumbers

theorem cardId_ne (h : i ≠ j) : cardId i ≠ cardId j := fun heq => h (cardId_inj heq)

/-- A key of the board's is no card's id. -/
theorem key_ne_id : eqIgnoreAsciiCase ("AD" ++ "-" ++ toString n) (cardId i).id = false := by
  rw [eqIgnoreAsciiCase, decide_eq_false_iff_not]
  intro h
  have hA : "AD".toList = ['A', 'D'] := by decide
  have h := congrArg List.head? h
  rw [cardId, String.toList_ofList, String.toList_append, String.toList_append, hA] at h
  simp only [List.cons_append, List.map_cons, List.head?_cons] at h
  exact absurd h (by decide)

/-- Cards of the chain, each waiting at most on the one before it. -/
def Descending (cards : List Task) : Prop :=
  ∀ t ∈ cards, ∃ i, t.id = cardId i ∧ (∀ b ∈ t.edges, b ∈ before i) ∧
    ∃ n : Nat, t.key = "AD" ++ "-" ++ toString n

theorem Descending.edge (h : Descending cards) (hb : b ∈ edgesIn cards (cardId i)) :
    b ∈ before i := by
  obtain ⟨t, ht, hid, hb⟩ := mem_edgesIn hb
  obtain ⟨_, hid', hedges, -⟩ := h t ht
  rw [cardId_inj (hid.symm.trans hid')]
  exact hedges b hb

theorem Descending.reaches (h : Descending cards)
    (hb : ReflTransGen (Edge (edgesIn cards)) (cardId i) b) : ∃ j ≤ i, b = cardId j := by
  induction hb with
  | refl => exact ⟨i, Nat.le_refl i, rfl⟩
  | tail _ hedge ih =>
    obtain ⟨j, _, rfl⟩ := ih
    have hmem := h.edge hedge
    cases j with
    | zero => cases hmem
    | succ k => exact ⟨k, by omega, List.mem_singleton.mp hmem⟩

/-- An id of the chain names its card. -/
theorem Descending.resolve (h : Descending cards) (hmem : cardId i ∈ cards.map Task.id) :
    resolveCard cards (cardId i).id = .ok (cardId i) := by
  rw [resolveCard]
  split
  · next found hfind =>
    obtain ⟨-, -, -, _, hkey⟩ := h found (List.mem_of_find?_eq_some hfind)
    have hfound := List.find?_some hfind
    rw [hkey, key_ne_id, Bool.and_false, Bool.or_false, decide_eq_true_eq] at hfound
    have hid : found.id = cardId i := congrArg TaskId.mk hfound
    rw [hid]
  next hnone =>
  obtain ⟨t, ht, hid⟩ := List.mem_map.mp hmem
  have := List.find?_eq_none.mp hnone t ht
  simp [hid] at this

/-- A new card may wait on the one before it. -/
theorem Descending.cardEdges (h : Descending cards) (hmem : ∀ b ∈ before n, b ∈ cards.map Task.id) :
    Tasks.cardEdges (cardId n) cards none ((before n).map (·.id)) = .ok (none, before n) := by
  have hblockers : resolveBlockers cards ((before n).map (·.id)) [] = .ok (before n) := by
    cases n with
    | zero => rfl
    | succ k =>
        have hk := h.resolve (hmem (cardId k) (List.mem_singleton.mpr rfl))
        simp [before, resolveBlockers, hk]
  have hcycle : closesCycle (cardId n) (before n) (edgesIn cards) = false := by
    rw [← Bool.not_eq_true]
    intro hwalk
    obtain ⟨_, ha, hway⟩ := reaches_of_walkTo hwalk
    cases n with
    | zero => cases ha
    | succ =>
      rw [List.mem_singleton.mp (List.mem_reverse.mp ha)] at hway
      obtain ⟨_, _, heq⟩ := h.reaches hway
      exact cardId_ne (by omega) heq
  rw [Tasks.cardEdges, hblockers]
  simp [resolveParent, hcycle]

/-- So many cards filed, each waiting on the one before it. -/
structure Chained (n : Nat) (s : Tasks) : Prop where
  rules : s.rules = .empty
  board : ∃ b, s.board project Board.main = some b ∧ b.project = project ∧ b.slug = Board.main ∧
    b.keyPrefix = "AD"
  card : ∀ t ∈ s.cards, ∃ i < n, t.id = cardId i ∧ t.project = project ∧ t.edges = before i ∧
    t.archivedAt = none ∧ ∃ n : Nat, t.key = "AD" ++ "-" ++ toString n
  full : ∀ i < n, ∃ t ∈ s.cards, t.id = cardId i

theorem Chained.members_card (h : Chained n s) : (s.members project).card ≤ n := by
  have hsub : s.members project ⊆ (Finset.range n).image cardId := by
    intro a ha
    obtain ⟨t, ht, -, rfl⟩ := mem_members.mp ha
    obtain ⟨i, hi, hid, -⟩ := h.card t ht
    exact Finset.mem_image.mpr ⟨i, Finset.mem_range.mpr hi, hid.symm⟩
  calc (s.members project).card ≤ ((Finset.range n).image cardId).card := Finset.card_le_card hsub
    _ ≤ (Finset.range n).card := Finset.card_image_le
    _ = n := Finset.card_range n

theorem Chained.descending (h : Chained n s) : Descending (s.projectCards project) := by
  intro t ht
  obtain ⟨i, _, hid, -, hedges, -, hkey⟩ := h.card t (mem_of_mem_projectCards ht).1
  exact ⟨i, hid, fun b hb => hedges ▸ hb, hkey⟩

/-- Each of the cards is there, and waits on the one before it. -/
theorem Chained.nth (h : Chained n s) (hn : n ≤ projectCardsMax) (hi : i < n) :
    ∃ t ∈ s.cards, t.id = cardId i ∧ t.project = project ∧ t.edges = before i ∧
      t.archivedAt = none ∧ t ∈ s.projectCards project := by
  obtain ⟨t, ht, hid⟩ := h.full i hi
  obtain ⟨_, _, hid', hproject, hedges, hopen, -⟩ := h.card t ht
  rw [cardId_inj (hid'.symm.trans hid)] at hedges
  exact ⟨t, ht, hid, hproject, hedges, hopen,
    (Tasks.mem_projectCards (h.members_card.trans hn)).mpr ⟨ht, hproject⟩⟩

theorem Chained.mem_projectCards (h : Chained n s) (hn : n ≤ projectCardsMax) (hi : i < n) :
    cardId i ∈ (s.projectCards project).map Task.id := by
  obtain ⟨_, -, hid, -, -, -, hread⟩ := h.nth hn hi
  exact hid ▸ List.mem_map_of_mem hread

/-- The card a filing of the chain makes, before its references are followed. -/
def draftCard (n : Nat) (b : Board) : Task :=
  { Task.file (cardId n) project backlog "" 0 with key := b.takeKey.1 }

/-- The card as it is filed. -/
def filedCard (n : Nat) (b : Board) : Task := { draftCard n b with blockedBy := before n }

theorem Chained.draft (h : Chained n s) (hn : n < projectCardsMax) {b : Board}
    (hbegins : b.keyPrefix = "AD") :
    s.draft (filing n) b 0 = .ok (b.takeKey.2, [filedCard n b]) := by
  have hdescending : Descending (s.projectCards project ++ [draftCard n b]) := by
    intro t ht
    rcases List.mem_append.mp ht with ht | ht
    · exact h.descending t ht
    · rw [List.mem_singleton.mp ht]
      refine ⟨n, rfl, by simp [draftCard, Task.file, Task.edges], b.lastKey + 1, ?_⟩
      rw [← hbegins]
      rfl
  have hedges := hdescending.cardEdges (n := n) fun a ha => by
    cases n with
    | zero => cases ha
    | succ =>
      rw [List.mem_singleton.mp ha, List.map_append]
      exact List.mem_append_left _ (h.mem_projectCards (by omega) (by omega))
  have hadd : Draft.add (filing n) 0 ⟨b, [], [], []⟩ (newCard n, 0) =
      ⟨b.takeKey.2, [], [draftCard n b], []⟩ := by
    rfl
  have hrefs : (newCard n).blockedBy.map (toReference []) = (before n).map (·.id) := List.map_id' _
  have hset : setEdges (cardId n) none (before n) [draftCard n b] = [filedCard n b] := by
    rw [setEdges, if_pos (by rfl)]
    rfl
  have hlink : (Links.add [] ⟨[], [draftCard n b], s.projectCards project ++ [draftCard n b]⟩
      (newCard n, 0)) = ⟨[], [filedCard n b],
        setEdges (cardId n) none (before n) (s.projectCards project ++ [draftCard n b])⟩ := by
    unfold Links.add
    rw [hrefs]
    rw [show Tasks.cardEdges (newCard n).id _ ((newCard n).parent.map (toReference [])) _ =
      _ from hedges]
    dsimp only
    rw [show setEdges (newCard n).id none (before n) [draftCard n b] = _ from hset]
    rfl
  simp only [Tasks.draft, filing, List.zipIdx_cons, List.zipIdx_nil, List.foldl_cons,
    List.foldl_nil]
  rw [show Draft.add ⟨project, Board.main, [newCard n]⟩ 0 ⟨b, [], [], []⟩ (newCard n, 0) =
    _ from hadd]
  rw [hlink]

theorem rulesOnEnter_of_empty {t : Task} {lane : String} {now : Time}
    {lands : String → TaskId → Bool} (h : s.rules = .empty) :
    s.rulesOnEnter t lane now lands = s := by
  rw [rulesOnEnter, boardRules, rulesInOrder, h]
  rfl

theorem Chained.file (h : Chained n s) (hn : n < projectCardsMax) :
    s.Generated (fileOp n) ∧ Chained (n + 1) (s.step (fileOp n)) := by
  obtain ⟨b, hb, hproject, hslug, hbegins⟩ := h.board
  have hfresh : s.cards.get? (cardId n) = none := by
    rw [get?_eq_none]
    intro t ht hid
    obtain ⟨_, _, hid', -⟩ := h.card t ht
    exact cardId_ne (by omega) (hid.symm.trans hid')
  refine ⟨⟨by simp [filing], fun card hcard => ?_⟩, ?_⟩
  · rw [List.mem_singleton.mp hcard]
    exact hfresh
  · have hfile : s.fileCards (filing n) 0 true = .ok ([filedCard n b],
        (s.putBoard b.takeKey.2).commit (filedCard n b) [.placed (cardId n)]) := by
      have hb' : s.board (filing n).project (filing n).board = some b := hb
      have hc' : s.board (filing n).project Board.main = some b := hb
      rw [fileCards, if_neg (by simp [filing]), if_neg (by simp [filing, batchMax])]
      simp only [hb', hc', h.draft hn hbegins]
      rfl
    have hstep : s.step (fileOp n) =
        (s.putBoard b.takeKey.2).commit (filedCard n b) [.placed (cardId n)] := by
      rw [fileOp, Tasks.step, taskFile, hfile]
      exact rulesOnEnter_of_empty h.rules
    rw [hstep]
    refine ⟨h.rules, ⟨b.takeKey.2, ?_, hproject, hslug, hbegins⟩, ?_, ?_⟩
    · rw [← hproject, ← hslug]
      exact board_putBoard (s := s) (b := b.takeKey.2)
    · intro t ht
      rcases mem_insert.mp ht with rfl | ⟨ht, -⟩
      · refine ⟨n, by omega, rfl, rfl, rfl, rfl, b.lastKey + 1, ?_⟩
        rw [← hbegins]
        rfl
      · obtain ⟨i, _, hrest⟩ := h.card t ht
        exact ⟨i, by omega, hrest⟩
    · intro i hi
      rcases Nat.lt_succ_iff_lt_or_eq.mp hi with hi | rfl
      · obtain ⟨t, ht, hid⟩ := h.full i hi
        refine ⟨t, mem_insert.mpr (.inr ⟨ht, ?_⟩), hid⟩
        rw [hid]
        exact cardId_ne (by omega)
      · exact ⟨_, mem_insert.mpr (.inl rfl), rfl⟩

/-- Filing so many cards, each waiting on the one before it. -/
def files (n : Nat) : List Op := (List.range n).map fileOp

theorem files_chained (hn : n ≤ projectCardsMax) : Each step Generated empty (files n) ∧
      Always step (fun s => (s.members project).card ≤ n) empty (files n) ∧
      Chained n (run step empty (files n)) := by
  induction n with
  | zero =>
    refine ⟨trivial, Nat.le_refl 0, rfl, ⟨Demo.board project, by decide, rfl, rfl, rfl⟩,
      fun t ht => ?_, by simp⟩
    exact absurd ht not_mem_empty
  | succ n ih =>
    obtain ⟨heach, hroom, hchained⟩ := ih (by omega)
    obtain ⟨hgenerated, hstep⟩ := hchained.file (by omega)
    rw [files, List.range_succ, List.map_append, ← files, run_append]
    refine ⟨heach.append ⟨hgenerated, trivial⟩, ?_, hstep⟩
    exact (hroom.imp fun s hs => hs.trans (Nat.le_succ n)).append
      ⟨hchained.members_card.trans (Nat.le_succ n), hstep.members_card⟩

/-- The walk from the last card of a chain stops one card short of the first. -/
theorem walkTo_chain {succ : TaskId → List TaskId}
    (hsucc : ∀ i < last, succ (cardId (i + 1)) = [cardId i]) (j : Nat) {seen : List TaskId}
    (hseen : ∀ a ∈ seen, ∃ k, j < k ∧ k ≤ last ∧ a = cardId k) (hj : j ≤ last) (hpos : 0 < j)
    (hlen : 4097 < seen.length + j) : walkTo succ (cardId 0) 4096 [cardId j] seen = false := by
  have hne : cardId j ≠ cardId 0 := cardId_ne (by omega)
  rw [walkTo, if_neg hne]
  by_cases hfull : 4096 < seen.length
  · rw [if_pos (.inl hfull), walkTo]
  · have hnew : cardId j ∉ seen := by
      intro hmem
      obtain ⟨_, _, _, heq⟩ := hseen _ hmem
      exact cardId_ne (by omega) heq
    rw [if_neg (by simp [hfull, hnew])]
    obtain ⟨i, rfl⟩ : ∃ i, j = i + 1 := ⟨j - 1, by omega⟩
    rw [hsucc i (by omega)]
    refine walkTo_chain hsucc i (fun a ha => ?_) (by omega) (by omega) ?_
    · rcases List.mem_cons.mp ha with rfl | ha
      · exact ⟨i + 1, by omega, by omega, rfl⟩
      · obtain ⟨k, _, hk', heq⟩ := hseen a ha
        exact ⟨k, by omega, hk', heq⟩
    · rw [List.length_cons]
      omega
termination_by j

section

variable (h : Chained (last + 1) s) (hlong : walkable ≤ last) (hmax : last < projectCardsMax)
include h hlong hmax

/-- The first card may wait on the last of a chain longer than the walk. -/
theorem Chained.cardEdges :
    Tasks.cardEdges (cardId 0) (s.projectCards project) none [(cardId last).id] =
      .ok (none, [cardId last]) := by
  have hwalk : walkable = 4098 := rfl
  have hresolve := h.descending.resolve (h.mem_projectCards (by omega) (Nat.lt_succ_self last))
  have hsucc : ∀ i < last, edgesIn (s.projectCards project) (cardId (i + 1)) = [cardId i] := by
    intro i hi
    obtain ⟨_, -, hid, -, hedges, -, hmem⟩ := h.nth (by omega) (i := i + 1) (by omega)
    rw [← hid, edgesIn_eq (nodup_projectCards _) hmem, hedges]
    rfl
  have hcycle : closesCycle (cardId 0) [cardId last] (edgesIn (s.projectCards project)) = false :=
    walkTo_chain hsucc last (by simp) (Nat.le_refl last) (by omega)
      (by rw [List.length_nil]; omega)
  simp [Tasks.cardEdges, resolveParent, resolveBlockers, hresolve, hcycle]

theorem Chained.closing : (s.step (closing last)).Waits project (cardId 0) (cardId last) ∧
      ∀ i < last, (s.step (closing last)).Waits project (cardId (i + 1)) (cardId i) := by
  have hwalk : walkable = 4098 := rfl
  obtain ⟨t, ht, hid, hproject, hedges, hopen, -⟩ := h.nth hmax (i := 0) (by omega)
  have hget : s.cards.get? (cardId 0) = some t := get?_eq_some.mpr ⟨ht, hid⟩
  obtain ⟨hparent, hblocked⟩ : t.parent = none ∧ t.blockedBy = [] := by
    simpa [Task.edges, before] using hedges
  have hne : cardId 0 ≠ cardId last := cardId_ne (by omega)
  have hstep : s.step (Chain.closing last) =
      s.commit { t with blockedBy := [cardId last], updatedAt := 0 } [] := by
    have hchanged : s.changedEdges t ⟨none, some [(cardId last).id], none, none, [],
        none, none, none⟩ = .ok (none, some [cardId last]) := by
      rw [changedEdges, if_pos (by simp), hid, hproject, hparent]
      have hedges := h.cardEdges hlong hmax
      simp only [Option.map_none, Option.or_none, Option.getD_some, hedges]
      rfl
    rw [Chain.closing, Tasks.step, taskUpdate, hget]
    simp only [hchanged]
    simp [Task.update, hopen, Task.check, Task.blockersMax, hparent, hid, hne,
      Task.changed, hblocked, kept, person]
  rw [hstep]
  refine ⟨⟨_, mem_insert.mpr (.inl rfl), hproject, hid, by simp [Task.edges]⟩, fun i hi => ?_⟩
  obtain ⟨u, hu, huid, huproject, huedges, -⟩ := h.nth hmax (i := i + 1) (by omega)
  refine ⟨u, mem_insert.mpr (.inr ⟨hu, ?_⟩), huproject, huid,
    by rw [huedges]; exact List.mem_singleton.mpr rfl⟩
  rw [huid, hid]
  exact cardId_ne (by omega)

/-- From the last card the chain leads back to the first. -/
theorem Chained.ring : ¬ Acyclic ((s.step (Chain.closing last)).Waits project) := by
  obtain ⟨hlast, hchain⟩ := h.closing hlong hmax
  have hdown : ∀ i ≤ last,
      ReflTransGen ((s.step (Chain.closing last)).Waits project) (cardId i) (cardId 0) := by
    intro i hi
    induction i with
    | zero => exact .refl
    | succ i ih => exact .head (hchain i (by omega)) (ih (by omega))
  exact fun hacyclic => hacyclic (cardId 0) (.head' hlast (hdown last (Nat.le_refl _)))

end

theorem exists_ring (hlong : walkable ≤ last) (hmax : last < projectCardsMax) :
    ∃ ops, Each step Generated empty ops ∧ ¬ Acyclic ((run step empty ops).Waits project) := by
  obtain ⟨heach, -, hchained⟩ := files_chained (n := last + 1) hmax
  refine ⟨files (last + 1) ++ [closing last], heach.append ⟨trivial, trivial⟩, ?_⟩
  rw [run_append]
  exact hchained.ring hlong hmax

end Chain

/-! ## Runs -/

/-- No card of a project the walk can enter whole ever waits on itself. -/
theorem cards_never_wait_in_a_ring (boards : List Board) (defaultBoard : ProjectId → Board)
    (rules : Keyed BoardRule.id) (p : ProjectId) (ops : List Op)
    (hgenerated : Each step Generated (initial boards defaultBoard rules) ops)
    (hroom : Always step (fun s => (s.members p).card ≤ walkable)
      (initial boards defaultBoard rules) ops) :
    Always step (fun s => Acyclic (s.Waits p)) (initial boards defaultBoard rules) ops := by
  have hempty : Graph p (initial boards defaultBoard rules) := by
    have hnone : ∀ a b, ¬ (initial boards defaultBoard rules).Waits p a b := by
      rintro _ _ ⟨_, ht, -⟩
      exact not_mem_empty ht
    refine ⟨fun a hring => ?_, fun a b hab => absurd hab (hnone a b)⟩
    cases hring with
    | single hab | tail _ hab => exact hnone _ _ hab
  refine (always_of_each hempty (C := fun s op => s.Generated op ∧ (s.members p).card ≤ walkable ∧
    ((s.step op).members p).card ≤ walkable) ?_ ?_).imp fun s hs => hs.acyclic
  · exact fun s op hs hop => hs.step hop.1 hop.2.1 hop.2.2
  · exact hgenerated.and (hroom.each.and hroom.each_next)

theorem cards_never_wait_in_a_ring_of_three :
    Always step (fun s => Acyclic (s.Waits Demo.project)) (initial [] Demo.board .empty)
      (Chain.files 3) := by
  obtain ⟨hgenerated, hroom, -⟩ := Chain.files_chained (n := 3) (by decide)
  exact cards_never_wait_in_a_ring [] Demo.board .empty Demo.project _ hgenerated
    (hroom.imp fun s hs => hs.trans (by decide))

/-- A chain of one card more is closed to a ring: the walk stops short of its end. -/
theorem long_chain_closes_a_ring :
    ¬ ∀ (boards : List Board) (defaultBoard : ProjectId → Board) (rules : Keyed BoardRule.id)
      (p : ProjectId) (ops : List Op), Each step Generated (initial boards defaultBoard rules) ops →
      Always step (fun s => Acyclic (s.Waits p)) (initial boards defaultBoard rules) ops := by
  intro hall
  obtain ⟨ops, heach, hring⟩ := Chain.exists_ring (Nat.le_refl _) (by decide)
  exact hring (hall [] Demo.board .empty Demo.project ops heach).last

end AgentDocker.Daemon.Tasks
