import AgentDocker.Daemon.Placement
import AgentDocker.Proofs.CardWrites

/-!
# The order of a lane

A lane's cards are sorted by keys that tell them apart, so the order is the one
their ranks give, and writing one card moves that card and no other. What a
card put beside another comes to stand next to is decided by the two ranks it
is put between: between two different ones there is always another, and between
two of the same there is none.
-/

namespace AgentDocker.Core.Places

open Lib

variable {p : Places} {t u : Task}

theorem key_lt_iff : p.key t < p.key u ↔ p.rank t.id < p.rank u.id ∨
    p.rank t.id = p.rank u.id ∧ (p.createdAt t.id < p.createdAt u.id ∨
      p.createdAt t.id = p.createdAt u.id ∧ t.id.id < u.id.id) := by
  unfold key
  rw [Prod.Lex.toLex_lt_toLex, Prod.Lex.toLex_lt_toLex]

theorem rank_le_of_key_lt (h : p.key t < p.key u) : p.rank t.id ≤ p.rank u.id :=
  (key_lt_iff.mp h).elim le_of_lt fun h => h.1.le

theorem id_eq_of_key_eq (h : p.key t = p.key u) : t.id = u.id :=
  congrArg TaskId.mk (congrArg (fun k => (ofLex (ofLex k).2).2) h)

/-- Cards of different ids are told apart. -/
theorem nodup_key {cards : List Task} (h : (cards.map Task.id).Nodup) :
    (cards.map p.key).Nodup := by
  rw [List.Nodup, List.pairwise_map] at *
  exact h.imp fun hne heq => hne (id_eq_of_key_eq heq)

theorem order_perm (cards : List Task) : (p.order cards).Perm cards := sortBy_perm _ _

/-- In the order of their keys. -/
abbrev Sorted (p : Places) (cards : List Task) : Prop := cards.Pairwise fun a b => p.key a < p.key b

theorem sorted_order {cards : List Task} (h : (cards.map Task.id).Nodup) :
    p.Sorted (p.order cards) :=
  pairwise_lt_sortBy (nodup_key h)

end AgentDocker.Core.Places

namespace AgentDocker.Daemon

open AgentDocker.Core Lib

/-! ## The cards read, once one is written -/

namespace Tasks

/-- A card in place of the one of its id. -/
def replace (w : Task) (t : Task) : Task := if t.id = w.id then w else t

theorem replace_id {w t : Task} : (replace w t).id = t.id := by
  unfold replace
  split
  · next h => exact h.symm
  · rfl

theorem map_id_replace {w : Task} {cards : List Task} :
    (cards.map (replace w)).map Task.id = cards.map Task.id := by
  rw [List.map_map]
  exact List.map_congr_left fun t _ => replace_id

variable {s : Tasks} {t w : Task}

theorem mem_map_replace {cards : List Task} {u : Task} (ht : t ∈ cards) (hid : w.id = t.id) :
    u ∈ cards.map (replace w) ↔ u = w ∨ (u ∈ cards ∧ u.id ≠ w.id) := by
  simp only [List.mem_map, replace]
  constructor
  · rintro ⟨_, hv, rfl⟩
    split
    · exact .inl rfl
    · next hne => exact .inr ⟨hv, hne⟩
  · rintro (rfl | ⟨hu, hne⟩)
    · exact ⟨t, ht, if_pos hid.symm⟩
    · exact ⟨u, hu, if_neg hne⟩

theorem rows_insert_perm (ht : t ∈ s.cards) (hid : w.id = t.id) :
    (s.cards.insert w).rows.Perm (s.cards.rows.map (replace w)) := by
  have hrows : ((s.cards.rows.map (replace w)).map Task.id).Nodup := by
    rw [map_id_replace]
    exact s.cards.nodup
  refine (List.perm_ext_iff_of_nodup (s.cards.insert w).nodup.of_map hrows.of_map).mpr fun u => ?_
  rw [mem_map_replace (Keyed.mem_def.mp ht) hid]
  exact Keyed.mem_insert

/-- The cards of a project, once one of the store's is written. -/
theorem projectCards_commit (ht : t ∈ s.cards) (hid : w.id = t.id)
    (hproject : w.project = t.project) (marks : List Mark) (p : ProjectId) :
    (s.commit w marks).projectCards p = (s.projectCards p).map (replace w) := by
  have hsame : ∀ u ∈ s.cards.rows, (replace w u).project = u.project := by
    intro u hu
    unfold replace
    split
    · next heq => rw [hproject, Keyed.eq_of_key_eq ht hu (hid.symm.trans heq.symm)]
    · rfl
  have hfilter : (s.cards.rows.map (replace w)).filter (fun t => decide (t.project = p)) =
      (s.cards.rows.filter fun t => decide (t.project = p)).map (replace w) := by
    rw [List.filter_map]
    refine congrArg _ (List.filter_congr fun u hu => ?_)
    simp [hsame u hu]
  have hids : ((s.cards.rows.filter fun t => decide (t.project = p)).map fun t =>
      t.id.id).Nodup := by
    have hnodup : ((s.cards.rows.filter fun t => decide (t.project = p)).map Task.id).Nodup :=
      s.cards.nodup.sublist (List.filter_sublist.map _)
    rw [List.Nodup, List.pairwise_map] at *
    exact hnodup.imp fun hne heq => hne (congrArg TaskId.mk heq)
  have hsort : sortBy (fun t => t.id.id)
      ((s.cards.insert w).rows.filter fun t => decide (t.project = p)) =
        (sortBy (fun t => t.id.id) (s.cards.rows.filter fun t => decide (t.project = p))).map
          (replace w) := by
    refine sortBy_eq_of_perm ?_ ?_
    · refine ((rows_insert_perm ht hid).filter _).trans ?_
      rw [hfilter]
      exact (sortBy_perm _ _).symm.map _
    · rw [List.pairwise_map]
      exact (pairwise_lt_sortBy hids).imp fun h => by rwa [replace_id, replace_id]
  rw [projectCards, projectCards, List.map_take, ← hsort]
  rfl

end Tasks

namespace Placed

/-! ## A lane, once one of its cards has another rank -/

section Lane

variable {p : Places} {cards : List Task} {b : Board} {lane : String}

/-- Whether a card is one of a lane's. -/
def drawn (b : Board) (lane : String) (t : Task) : Bool :=
  t.archivedAt.isNone && decide (t.boardSlug = b.slug) && decide ((t.laneOn b).slug = lane)

theorem mem_inLane {t : Task} : t ∈ inLane p cards b lane ↔ t ∈ cards ∧ drawn b lane t = true :=
  (p.order_perm _).mem_iff.trans List.mem_filter

theorem nodup_filter_id {l : List Task} (h : (l.map Task.id).Nodup) (q : Task → Bool) :
    ((l.filter q).map Task.id).Nodup :=
  h.sublist (List.filter_sublist.map _)

theorem nodup_inLane (h : (cards.map Task.id).Nodup) :
    ((inLane p cards b lane).map Task.id).Nodup :=
  ((p.order_perm _).map _).nodup_iff.mpr (nodup_filter_id h _)

/-- A lane's cards but one, in order. -/
def others (p : Places) (cards : List Task) (b : Board) (lane : String) (c : TaskId) : List Task :=
  (inLane p cards b lane).filter fun t => decide (t.id ≠ c)

theorem sorted_others (h : (cards.map Task.id).Nodup) (c : TaskId) :
    p.Sorted (others p cards b lane c) :=
  (p.sorted_order (nodup_filter_id h _)).filter _

theorem mem_others {t : Task} {c : TaskId} :
    t ∈ others p cards b lane c ↔ t ∈ cards ∧ drawn b lane t = true ∧ t.id ≠ c := by
  rw [others, List.mem_filter, mem_inLane, decide_eq_true_eq, and_assoc]

variable {w : Task} {r : String}

theorem rank_setRank (id : TaskId) :
    (setRank p w.id r).rank id = if id = w.id then r else p.rank id := by
  by_cases h : id = w.id
  · rw [if_pos h, h]
    exact Function.update_self ..
  · rw [if_neg h]
    exact Function.update_of_ne h ..

theorem key_setRank {t : Task} (h : t.id ≠ w.id) : (setRank p w.id r).key t = p.key t := by
  unfold Places.key
  rw [rank_setRank, if_neg h]
  rfl

/-- A lane once a card is written with the rank. -/
abbrev written (p : Places) (cards : List Task) (b : Board) (lane : String) (w : Task)
    (r : String) : List Task :=
  inLane (setRank p w.id r) (cards.map (Tasks.replace w)) b lane

/-- A card written into a lane is there beside the others. -/
theorem written_perm (h : (cards.map Task.id).Nodup) (hread : w.id ∈ cards.map Task.id)
    (hw : drawn b lane w = true) :
    (written p cards b lane w r).Perm (w :: others p cards b lane w.id) := by
  obtain ⟨_, ht, hid⟩ := List.mem_map.mp hread
  have hleft : ((written p cards b lane w r).map Task.id).Nodup :=
    nodup_inLane (Tasks.map_id_replace.symm ▸ h)
  have hright : ((w :: others p cards b lane w.id).map Task.id).Nodup := by
    refine List.nodup_cons.mpr ⟨fun hmem => ?_, nodup_filter_id (nodup_inLane h) _⟩
    obtain ⟨_, hu, hsame⟩ := List.mem_map.mp hmem
    exact (mem_others.mp hu).2.2 hsame
  refine (List.perm_ext_iff_of_nodup hleft.of_map hright.of_map).mpr fun u => ?_
  rw [mem_inLane, Tasks.mem_map_replace ht hid.symm, List.mem_cons, mem_others]
  constructor
  · rintro ⟨rfl | ⟨hu, hne⟩, hdrawn⟩
    · exact .inl rfl
    · exact .inr ⟨hu, hdrawn, hne⟩
  · rintro (rfl | ⟨hu, hdrawn, hne⟩)
    · exact ⟨.inl rfl, hw⟩
    · exact ⟨.inr ⟨hu, hne⟩, hdrawn⟩

theorem sorted_written (h : (cards.map Task.id).Nodup) :
    (setRank p w.id r).Sorted (written p cards b lane w r) :=
  Places.sorted_order (nodup_filter_id (Tasks.map_id_replace.symm ▸ h) _)

/-- With a rank between those of two neighbours, it stands between them. -/
theorem written_between (h : (cards.map Task.id).Nodup) (hread : w.id ∈ cards.map Task.id)
    (hw : drawn b lane w = true) {pre post : List Task}
    (hsplit : others p cards b lane w.id = pre ++ post)
    (hpre : ∀ t ∈ pre, p.rank t.id < r) (hpost : ∀ t ∈ post, r < p.rank t.id) :
    written p cards b lane w r = pre ++ w :: post := by
  have hmem : ∀ t ∈ pre ++ post, t.id ≠ w.id := fun t ht =>
    (mem_others.mp (hsplit ▸ ht : t ∈ others p cards b lane w.id)).2.2
  have hold : p.Sorted (others p cards b lane w.id) := sorted_others h w.id
  rw [hsplit] at hold
  have hkeys : (setRank p w.id r).Sorted (pre ++ post) := by
    refine hold.imp_of_mem fun ha hb hlt => ?_
    rwa [key_setRank (hmem _ ha), key_setRank (hmem _ hb)]
  obtain ⟨hl, hr, hlr⟩ := List.pairwise_append.mp hkeys
  have hbelow : ∀ t ∈ pre, (setRank p w.id r).key t < (setRank p w.id r).key w := by
    intro t ht
    rw [Places.key_lt_iff, rank_setRank, rank_setRank, if_pos rfl,
      if_neg (hmem t (List.mem_append_left _ ht))]
    exact .inl (hpre t ht)
  have habove : ∀ t ∈ post, (setRank p w.id r).key w < (setRank p w.id r).key t := by
    intro t ht
    rw [Places.key_lt_iff, rank_setRank, rank_setRank, if_pos rfl,
      if_neg (hmem t (List.mem_append_right _ ht))]
    exact .inl (hpost t ht)
  have hsorted : (setRank p w.id r).Sorted (pre ++ w :: post) := by
    refine List.pairwise_append.mpr ⟨hl, List.pairwise_cons.mpr ⟨habove, hr⟩, fun a ha b hb => ?_⟩
    rcases List.mem_cons.mp hb with rfl | hb
    · exact hbelow a ha
    · exact hlr a ha b hb
  have hperm := written_perm (p := p) (r := r) h hread hw
  rw [hsplit] at hperm
  refine (hperm.trans List.perm_middle.symm).eq_of_pairwise ?_ (sorted_written h) hsorted
  exact fun a b _ _ hab hba => absurd hab hba.not_gt

/-- The ranks of a lane do not go down. -/
theorem ranks_of_order {order : List TaskId} (h : (cards.map Task.id).Nodup)
    (horder : (written p cards b lane w r).map Task.id = order) :
    order.Pairwise fun i j => (setRank p w.id r).rank i ≤ (setRank p w.id r).rank j := by
  rw [← horder, List.pairwise_map]
  exact (sorted_written h).imp Places.rank_le_of_key_lt

theorem mem_read_of_mem_written {c : TaskId} (h : c ∈ (written p cards b lane w r).map Task.id) :
    c ∈ cards.map Task.id := by
  obtain ⟨_, ht, rfl⟩ := List.mem_map.mp h
  rw [← Tasks.map_id_replace]
  exact List.mem_map_of_mem (mem_inLane.mp ht).1

end Lane

/-! ## Beside a card -/

/-- `c` right after `x`, and the others as they were. -/
def PlacedAfter (order order' : List TaskId) (c x : TaskId) : Prop :=
  ∃ pre post, order.filter (fun i => decide (i ≠ c)) = pre ++ x :: post ∧
    order' = pre ++ x :: c :: post

/-- `c` right before `x`, and the others as they were. -/
def PlacedBefore (order order' : List TaskId) (c x : TaskId) : Prop :=
  ∃ pre post, order.filter (fun i => decide (i ≠ c)) = pre ++ x :: post ∧
    order' = pre ++ c :: x :: post

/-- The card that comes after `x`, but for `c`, has another rank. -/
def RoomAfter (rank : TaskId → String) (order : List TaskId) (c x : TaskId) : Prop :=
  ∀ pre next post, order.filter (fun i => decide (i ≠ c)) = pre ++ x :: next :: post →
    rank next ≠ rank x

/-- The card that comes before `x`, but for `c`, has another rank. -/
def RoomBefore (rank : TaskId → String) (order : List TaskId) (c x : TaskId) : Prop :=
  ∀ pre previous post, order.filter (fun i => decide (i ≠ c)) = pre ++ previous :: x :: post →
    rank previous ≠ rank x

/-- Something that is in a list once splits it in one way. -/
theorem split_unique {α : Type} {x : α} {pre pre' post post' : List α}
    (hnodup : (pre ++ x :: post).Nodup) (h : pre ++ x :: post = pre' ++ x :: post') :
    pre = pre' ∧ post = post' := by
  obtain ⟨hx, -⟩ := List.nodup_cons.mp (List.perm_middle.nodup_iff.mp hnodup)
  rw [List.mem_append, not_or] at hx
  obtain ⟨hpre, -, hpost⟩ := (List.append_cons_inj_of_notMem hx.1 hx.2).mp h
  exact ⟨hpre, hpost⟩

section Beside

variable {p : Places} {cards : List Task} {b : Board} {lane : String} {w x y : Task}
    {pre post : List Task}

/-- The rank of a card put between two lists of cards. -/
abbrev gapRank (p : Places) (pre post : List Task) : String :=
  Rank.between (pre.getLast?.map fun t => p.rank t.id) (post.head?.map fun t => p.rank t.id)

theorem map_id_others {c : TaskId} :
    ((inLane p cards b lane).map Task.id).filter (fun i => decide (i ≠ c)) =
      (others p cards b lane c).map Task.id := by
  rw [List.filter_map]
  rfl

theorem nodup_others (h : (cards.map Task.id).Nodup) (c : TaskId) :
    ((others p cards b lane c).map Task.id).Nodup :=
  nodup_filter_id (nodup_inLane h) _

theorem findIdx_split {l : List Task} (hnodup : (l.map Task.id).Nodup) (hl : l = pre ++ x :: post)
    (hid : y.id = x.id) : (l.findIdx? fun t => decide (t.id = y.id)) = some pre.length := by
  subst hl
  rw [List.map_append, List.map_cons, List.nodup_append] at hnodup
  have hnone : (pre.findIdx? fun t => decide (t.id = y.id)) = none := by
    refine List.findIdx?_eq_none_iff.mpr fun t ht => ?_
    rw [decide_eq_false_iff_not, hid]
    exact hnodup.2.2 _ (List.mem_map_of_mem ht) _ List.mem_cons_self
  rw [List.findIdx?_append, hnone, Option.none_or, List.findIdx?_cons, hid]
  simp

theorem rankAfter_split {l : List Task} (hnodup : (l.map Task.id).Nodup)
    (hl : l = pre ++ x :: post) (hid : y.id = x.id) :
    rankAfter p l y = gapRank p (pre ++ [x]) post := by
  unfold rankAfter
  rw [gapRank, List.getLast?_concat, findIdx_split hnodup hl hid, Option.bind_some, hid, hl,
    List.getElem?_append_right (by omega)]
  cases post <;> simp

theorem rankBefore_split {l : List Task} (hnodup : (l.map Task.id).Nodup)
    (hl : l = pre ++ x :: post) (hid : y.id = x.id) :
    rankBefore p l y = gapRank p pre (x :: post) := by
  unfold rankBefore
  rw [gapRank, findIdx_split hnodup hl hid, Option.bind_some, hid]
  by_cases hnil : pre.length = 0
  · rw [if_pos hnil, List.length_eq_zero_iff.mp hnil]
    rfl
  · rw [if_neg hnil, hl, List.getElem?_append_left (by omega), List.getLast?_eq_getElem?]
    rfl

/-- It is enough to look at the two cards it comes between. -/
theorem written_neighbours {r : String} (h : (cards.map Task.id).Nodup)
    (hread : w.id ∈ cards.map Task.id) (hw : drawn b lane w = true)
    (hsplit : others p cards b lane w.id = pre ++ post)
    (hpre : ∀ t ∈ pre.getLast?, p.rank t.id < r) (hpost : ∀ t ∈ post.head?, r < p.rank t.id) :
    (written p cards b lane w r).map Task.id = pre.map Task.id ++ w.id :: post.map Task.id := by
  have hsorted : p.Sorted (others p cards b lane w.id) := sorted_others h w.id
  rw [hsplit] at hsorted
  obtain ⟨hl, hr, -⟩ := List.pairwise_append.mp hsorted
  rw [written_between h hread hw hsplit ?_ ?_, List.map_append, List.map_cons]
  · intro t ht
    obtain ⟨front, last, rfl⟩ : ∃ front last, pre = front ++ [last] :=
      ⟨_, _, (List.dropLast_append_getLast (List.ne_nil_of_mem ht)).symm⟩
    have hlast := hpre last (by simp)
    rcases List.mem_append.mp ht with ht | ht
    · have hlt := (List.pairwise_append.mp hl).2.2 t ht last (by simp)
      exact lt_of_le_of_lt (Places.rank_le_of_key_lt hlt) hlast
    · rwa [List.mem_singleton.mp ht]
  · intro t ht
    cases post with
    | nil => cases ht
    | cons first =>
      have hfirst := hpost first rfl
      rcases List.mem_cons.mp ht with rfl | ht
      · exact hfirst
      · have hlt := (List.pairwise_cons.mp hr).1 t ht
        exact lt_of_lt_of_le hfirst (Places.rank_le_of_key_lt hlt)

/-- Put between two cards of proper ranks: right there if and only if the ranks differ. -/
theorem gap_iff (h : (cards.map Task.id).Nodup) (hw : drawn b lane w = true)
    (hsplit : others p cards b lane w.id = pre ++ post)
    (hranks : ∀ t ∈ others p cards b lane w.id, Rank.Proper (p.rank t.id)) :
    (written p cards b lane w (gapRank p pre post)).map Task.id =
        pre.map Task.id ++ w.id :: post.map Task.id ↔
      w.id ∈ cards.map Task.id ∧
        ∀ l ∈ pre.getLast?, ∀ n ∈ post.head?, p.rank l.id ≠ p.rank n.id := by
  rw [hsplit] at hranks
  constructor
  · intro hplaced
    refine ⟨mem_read_of_mem_written (by rw [hplaced]; simp), fun l hl n hn hsame => ?_⟩
    -- The rank that was found is above both, and yet the moved card comes first.
    have hsorted := (List.pairwise_append.mp (ranks_of_order h hplaced)).2.1
    have hn' : n ∈ others p cards b lane w.id := by rw [hsplit]; simp [List.mem_of_head? hn]
    have hle := (List.pairwise_cons.mp hsorted).1 n.id (List.mem_map_of_mem (List.mem_of_head? hn))
    rw [rank_setRank, rank_setRank, if_pos rfl, if_neg (mem_others.mp hn').2.2, gapRank,
      Option.mem_def.mp hl, Option.mem_def.mp hn, Option.map_some, Option.map_some, hsame] at hle
    exact absurd (Rank.lt_between_self _) hle.not_gt
  · rintro ⟨hread, hroom⟩
    have hsorted : p.Sorted (others p cards b lane w.id) := sorted_others h w.id
    rw [hsplit] at hsorted
    have hwithin : Rank.Within (pre.getLast?.map fun t => p.rank t.id)
        (post.head?.map fun t => p.rank t.id) (gapRank p pre post) := by
      refine Rank.within_between ?_ ?_ ?_
      · intro r hr
        obtain ⟨t, ht, rfl⟩ := Option.mem_map.mp hr
        exact (hranks t (by simp [List.mem_of_getLast? ht])).1
      · intro r hr
        obtain ⟨t, ht, rfl⟩ := Option.mem_map.mp hr
        exact hranks t (by simp [List.mem_of_head? ht])
      · intro a ha r hr
        obtain ⟨l, hl, rfl⟩ := Option.mem_map.mp ha
        obtain ⟨n, hn, rfl⟩ := Option.mem_map.mp hr
        have hlt := (List.pairwise_append.mp hsorted).2.2 l (List.mem_of_getLast? hl) n
          (List.mem_of_head? hn)
        exact lt_of_le_of_ne (Places.rank_le_of_key_lt hlt) (hroom l hl n hn)
    exact written_neighbours h hread hw hsplit
      (fun t ht => hwithin.above _ (Option.mem_map_of_mem _ ht))
      (fun t ht => hwithin.below _ (Option.mem_map_of_mem _ ht))

variable (h : (cards.map Task.id).Nodup) (hw : drawn b lane w = true)
    (hx : x ∈ others p cards b lane w.id) (hid : y.id = x.id)
    (hranks : ∀ t ∈ others p cards b lane w.id, Rank.Proper (p.rank t.id))
include h hw hx hid hranks

/-- Put after a card, among cards of proper ranks: right there if and only if the
next one has another rank. -/
theorem placedAfter_iff : PlacedAfter ((inLane p cards b lane).map Task.id)
        ((written p cards b lane w (rankAfter p (others p cards b lane w.id) y)).map Task.id)
        w.id x.id ↔
      w.id ∈ cards.map Task.id ∧
        RoomAfter p.rank ((inLane p cards b lane).map Task.id) w.id x.id := by
  obtain ⟨pre, post, hsplit⟩ := List.append_of_mem hx
  have hids : ((others p cards b lane w.id).map Task.id).Nodup := nodup_others h w.id
  have hgap := gap_iff h hw (hsplit.trans (List.append_cons pre x post)) hranks
  rw [← rankAfter_split hids hsplit hid, List.getLast?_concat] at hgap
  rw [hsplit, List.map_append, List.map_cons] at hids
  rw [PlacedAfter, RoomAfter, map_id_others, hsplit, List.map_append, List.map_cons, ← hsplit]
  constructor
  · rintro ⟨_, _, heq, hplaced⟩
    obtain ⟨rfl, rfl⟩ := split_unique hids heq
    obtain ⟨hread, hroom⟩ := hgap.mp (by simpa using hplaced)
    refine ⟨hread, fun pre₂ next post₂ heq₂ hsame => ?_⟩
    obtain ⟨-, hpost⟩ := split_unique hids heq₂
    obtain ⟨n, _, rfl, rfl, -⟩ := List.map_eq_cons_iff.mp hpost
    exact hroom x rfl n rfl hsame.symm
  · rintro ⟨hread, hroom⟩
    have hplaced := hgap.mpr ⟨hread, fun l hl n hn hsame => by
      obtain ⟨rest, rfl⟩ := List.head?_eq_some_iff.mp hn
      cases hl
      exact hroom (pre.map Task.id) n.id (rest.map Task.id) (by simp) hsame.symm⟩
    exact ⟨_, _, rfl, by simpa using hplaced⟩

/-- Put before a card, likewise. -/
theorem placedBefore_iff : PlacedBefore ((inLane p cards b lane).map Task.id)
        ((written p cards b lane w (rankBefore p (others p cards b lane w.id) y)).map Task.id)
        w.id x.id ↔
      w.id ∈ cards.map Task.id ∧
        RoomBefore p.rank ((inLane p cards b lane).map Task.id) w.id x.id := by
  obtain ⟨_, post, hsplit⟩ := List.append_of_mem hx
  have hids : ((others p cards b lane w.id).map Task.id).Nodup := nodup_others h w.id
  have hgap := gap_iff h hw hsplit hranks
  rw [← rankBefore_split hids hsplit hid] at hgap
  rw [hsplit, List.map_append, List.map_cons] at hids
  rw [PlacedBefore, RoomBefore, map_id_others, hsplit, List.map_append, List.map_cons, ← hsplit]
  constructor
  · rintro ⟨_, _, heq, hplaced⟩
    obtain ⟨rfl, rfl⟩ := split_unique hids heq
    obtain ⟨hread, hroom⟩ := hgap.mp hplaced
    refine ⟨hread, fun pre₂ previous post₂ heq₂ hsame => ?_⟩
    rw [List.append_cons pre₂] at heq₂
    obtain ⟨hpre, -⟩ := split_unique hids heq₂
    obtain ⟨_, _, rfl, rfl, hlast⟩ := List.map_eq_append_iff.mp hpre
    obtain ⟨v, rfl, rfl⟩ := List.map_eq_singleton_iff.mp hlast
    exact hroom v (by simp) x rfl hsame
  · rintro ⟨hread, hroom⟩
    refine ⟨_, _, rfl, hgap.mpr ⟨hread, fun l hl n hn => ?_⟩⟩
    obtain ⟨rest, rfl⟩ := List.getLast?_eq_some_iff.mp hl
    cases hn
    exact hroom (rest.map Task.id) l.id (post.map Task.id) (by simp)

end Beside

end Placed

end AgentDocker.Daemon
