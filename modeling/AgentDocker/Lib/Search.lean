import Mathlib.Data.List.Basic
import Mathlib.Logic.Relation

/-!
# Depth-first search for a way to a goal

`search` is the recursive search every textbook has, with its two mutable
variables made explicit: the edges of the way it is on, and the nodes it has
entered. A node entered once is not entered again, which makes the search
linear and is why its answer needs an argument: a node may be skipped because
it was a dead end for another way.

It is a dead end for every way. The nodes on the way the search is on are the
only ones a dead end was ever measured against, and a way through one of them
can be cut short there. So the search finds a way if there is one, and the way
it finds is the first one: at every node the first edge that leads on to the
goal without crossing the way already taken.
-/

namespace AgentDocker.Lib

variable {α ε : Type}

/-- What a search leaves: whether it arrived, by which edges, and the nodes it
has entered. -/
structure Visit (α ε : Type) where
  found : Bool
  path : List ε
  seen : List α
deriving DecidableEq, Repr

section Search

variable [DecidableEq α]

/-- The edges out of one node, in order, until one leads to the goal. -/
def scan (visit : α → List ε → List α → Visit α ε) (goal : α) :
    List (ε × α) → List ε → List α → Visit α ε
  | [], path, seen => ⟨false, path, seen⟩
  | (e, b) :: rest, path, seen =>
    if b = goal then
      ⟨true, path ++ [e], seen⟩
    else if b ∈ seen then
      scan visit goal rest path seen
    else
      let v := visit b (path ++ [e]) (b :: seen)
      if v.found then v else scan visit goal rest v.path.dropLast v.seen

def search (succ : α → List (ε × α)) (goal : α) : Nat → α → List ε → List α → Visit α ε
  | 0, _, path, seen => ⟨false, path, seen⟩
  | n + 1, a, path, seen => scan (search succ goal n) goal (succ a) path seen

end Search

section Ways

variable (succ : α → List (ε × α)) (goal : α)

/-- A way from a node to the goal that enters no node of `avoid`. -/
inductive Reaches (avoid : List α) : α → Prop
  | hit {a : α} {e : ε} (h : (e, goal) ∈ succ a) : Reaches avoid a
  | via {a b : α} {e : ε} (h : (e, b) ∈ succ a) (hb : b ∉ avoid)
      (hnext : Reaches avoid b) : Reaches avoid a

/-- An edge not worth taking: not to the goal, and from where it leads every
way to the goal enters a node of `avoid`. -/
def DeadEnd (avoid : List α) (b : α) : Prop :=
  b ≠ goal ∧ (b ∉ avoid → ¬ Reaches succ goal avoid b)

/-- The way that takes, at every node, the first edge that is not a dead end. -/
inductive First : List α → α → List ε → Prop
  | hit {avoid : List α} {a : α} {e : ε} {pre post : List (ε × α)}
      (h : succ a = pre ++ (e, goal) :: post)
      (hpre : ∀ x ∈ pre, DeadEnd succ goal avoid x.2) : First avoid a [e]
  | via {avoid : List α} {a b : α} {e : ε} {pre post : List (ε × α)} {way : List ε}
      (h : succ a = pre ++ (e, b) :: post)
      (hpre : ∀ x ∈ pre, DeadEnd succ goal avoid x.2) (hgoal : b ≠ goal)
      (hb : b ∉ avoid) (hnext : First (b :: avoid) b way) : First avoid a (e :: way)

/-- A way that enters no node twice. -/
inductive Way : List α → α → List ε → Prop
  | hit {avoid : List α} {a : α} {e : ε} (h : (e, goal) ∈ succ a) : Way avoid a [e]
  | via {avoid : List α} {a b : α} {e : ε} {way : List ε} (h : (e, b) ∈ succ a)
      (hgoal : b ≠ goal) (hb : b ∉ avoid) (hnext : Way (b :: avoid) b way) :
      Way avoid a (e :: way)

end Ways

variable {succ : α → List (ε × α)} {goal : α} {avoid : List α} {a b : α}

theorem Reaches.antitone {avoid' : List α} (h : Reaches succ goal avoid' a)
    (hle : ∀ c ∈ avoid, c ∈ avoid') : Reaches succ goal avoid a := by
  induction h with
  | hit h => exact .hit h
  | via h hb _ ih => exact .via h (fun hc => hb (hle _ hc)) ih

/-- A way that may pass the goal, cut short where it first does. -/
theorem Reaches.of_transGen {r : α → α → Prop} (hr : ∀ a b, r a b → ∃ e, (e, b) ∈ succ a)
    (h : Relation.TransGen r a goal) : Reaches succ goal [goal] a := by
  induction h using Relation.TransGen.head_induction_on with
  | single hab =>
    obtain ⟨_, he⟩ := hr _ _ hab
    exact .hit he
  | @head _ b hab _ ih =>
    obtain ⟨_, he⟩ := hr _ _ hab
    by_cases hb : b = goal
    · rw [hb] at he
      exact .hit he
    · exact .via he (by simpa using hb) ih

/-- A way either keeps clear of a node or can be started there. -/
theorem Reaches.clear_or_restart [DecidableEq α] (h : Reaches succ goal avoid a) :
    Reaches succ goal (b :: avoid) a ∨ Reaches succ goal (b :: avoid) b := by
  induction h with
  | hit h => exact .inl (.hit h)
  | @via _ c _ h hc _ ih =>
    rcases ih with ih | ih
    · by_cases hcb : c = b
      · rw [hcb] at ih
        exact .inr ih
      · exact .inl (.via h (by simp [hcb, hc]) ih)
    · exact .inr ih

theorem First.reaches {way : List ε} (h : First succ goal avoid a way) :
    Reaches succ goal avoid a := by
  induction h with
  | @hit _ _ e _ _ h => exact .hit (e := e) (by rw [h]; simp)
  | @via _ _ _ e _ _ _ h _ _ hb _ ih =>
    refine .via (e := e) (by rw [h]; simp) hb (ih.antitone fun c hc => ?_)
    exact List.mem_cons_of_mem _ hc

theorem First.way {way : List ε} (h : First succ goal avoid a way) :
    Way succ goal avoid a way := by
  induction h with
  | hit h => exact .hit (by rw [h]; simp)
  | via h _ hgoal hb _ ih => exact .via (by rw [h]; simp) hgoal hb ih

/-- A way goes over edges. -/
theorem Way.edge {way : List ε} (h : Way succ goal avoid a way) :
    ∀ e ∈ way, ∃ a b, (e, b) ∈ succ a := by
  induction h with
  | hit h =>
    intro e he
    cases List.mem_singleton.mp he
    exact ⟨_, _, h⟩
  | via h _ _ _ ih =>
    intro e he
    rcases List.mem_cons.mp he with rfl | he
    · exact ⟨_, _, h⟩
    · exact ih e he

theorem Way.mono {succ' : α → List (ε × α)} {way : List ε} (h : Way succ goal avoid a way)
    (hle : ∀ a, ∀ x ∈ succ a, x ∈ succ' a) : Way succ' goal avoid a way := by
  induction h with
  | hit h => exact .hit (hle _ _ h)
  | via h hgoal hb _ ih => exact .via (hle _ _ h) hgoal hb ih

/-- The first element to fail a test splits a list in one way. -/
theorem split_first_unique {β : Type} {p : β → Prop} {pre pre' post post' : List β}
    {x x' : β} (h : pre ++ x :: post = pre' ++ x' :: post') (hpre : ∀ y ∈ pre, p y)
    (hx : ¬ p x) (hpre' : ∀ y ∈ pre', p y) (hx' : ¬ p x') : x = x' := by
  classical
  have hfirst := congrArg (fun l => (l.dropWhile fun y => decide (p y)).head?) h
  rw [List.dropWhile_append_of_pos (by simpa using hpre),
    List.dropWhile_append_of_pos (by simpa using hpre'),
      List.dropWhile_cons_of_neg (by simpa using hx),
    List.dropWhile_cons_of_neg (by simpa using hx')] at hfirst
  exact Option.some.inj hfirst

variable {seen : List α} {n : Nat} {e : ε}

theorem not_deadEnd_goal : ¬ DeadEnd succ goal avoid (e, goal).2 :=
  fun h => h.1 rfl

theorem First.not_deadEnd {way : List ε} (hb : b ∉ avoid) (h : First succ goal (b :: avoid) b way) :
    ¬ DeadEnd succ goal avoid (e, b).2 :=
  fun hd => hd.2 hb (h.reaches.antitone fun _ hc => List.mem_cons_of_mem _ hc)

/-- There is one first way. -/
theorem First.unique {way way' : List ε} (h : First succ goal avoid a way)
    (h' : First succ goal avoid a way') : way = way' := by
  induction h generalizing way' with
  | hit hs hpre =>
    cases h' with
    | hit hs' hpre' =>
      have hx := split_first_unique (hs.symm.trans hs') hpre not_deadEnd_goal
        hpre' not_deadEnd_goal
      rw [(Prod.mk.inj hx).1]
    | via hs' hpre' hgoal hb hnext =>
      have hx := split_first_unique (hs.symm.trans hs') hpre not_deadEnd_goal
        hpre' (hnext.not_deadEnd hb)
      exact absurd (Prod.mk.inj hx).2.symm hgoal
  | via hs hpre hgoal hb hnext ih =>
    cases h' with
    | hit hs' hpre' =>
      have hx := split_first_unique (hs.symm.trans hs') hpre (hnext.not_deadEnd hb)
        hpre' not_deadEnd_goal
      exact absurd (Prod.mk.inj hx).2 hgoal
    | via hs' hpre' _ hb' hnext' =>
      have hx := split_first_unique (hs.symm.trans hs') hpre (hnext.not_deadEnd hb)
        hpre' (hnext'.not_deadEnd hb')
      obtain ⟨rfl, rfl⟩ := Prod.mk.inj hx
      rw [ih hnext']

/-! ## The search finds the first way -/

/-- What the search knows about the nodes it has entered: those on the way it
is on, and dead ends. -/
structure Entered (succ : α → List (ε × α)) (goal : α) (avoid seen : List α) : Prop where
  goal_mem : goal ∈ avoid
  avoid_seen : ∀ b ∈ avoid, b ∈ seen
  dead : ∀ b ∈ seen, b ∉ avoid → ¬ Reaches succ goal avoid b

/-- What a search may answer: the first way, or that there is none and what it
entered on the way to knowing so. -/
structure Answer (succ : α → List (ε × α)) (goal : α) (avoid : List α) (a : α)
    (path : List ε) (seen : List α) (v : Visit α ε) : Prop where
  found : v.found = true → ∃ way, First succ goal avoid a way ∧ v.path = path ++ way
  lost : v.found = false → ¬ Reaches succ goal avoid a
  path_eq : v.found = false → v.path = path
  seen_le : ∀ b ∈ seen, b ∈ v.seen
  entered : v.found = false → Entered succ goal avoid v.seen

theorem Entered.push (h : Entered succ goal avoid seen) :
    Entered succ goal (b :: avoid) (b :: seen) where
  goal_mem := List.mem_cons_of_mem _ h.goal_mem
  avoid_seen c hc := by
    rcases List.mem_cons.mp hc with rfl | hc
    · exact List.mem_cons_self
    · exact List.mem_cons_of_mem _ (h.avoid_seen c hc)
  dead c hc hca hr := by
    rw [List.mem_cons, not_or] at hca
    have hcs : c ∈ seen := (List.mem_cons.mp hc).resolve_left hca.1
    exact h.dead c hcs hca.2 (hr.antitone fun _ hd => List.mem_cons_of_mem _ hd)

/-- A dead end found behind a node is one without that node, too: a way
through the node could start there, and no way does. -/
theorem Entered.pop [DecidableEq α] (h : Entered succ goal (b :: avoid) seen) (hgoal : goal ∈ avoid)
    (hb : ¬ Reaches succ goal (b :: avoid) b) :
    Entered succ goal avoid seen where
  goal_mem := hgoal
  avoid_seen c hc := h.avoid_seen c (List.mem_cons_of_mem _ hc)
  dead c hc hca hr := by
    rcases hr.clear_or_restart (b := b) with hr | hr
    · by_cases hcb : c = b
      · rw [hcb] at hr
        exact hb hr
      · exact h.dead c hc (by simp [hcb, hca]) hr
    · exact hb hr

/-- No way leads on from a node all of whose edges are dead ends. -/
theorem not_reaches_of_deadEnds (h : ∀ x ∈ succ a, DeadEnd succ goal avoid x.2) :
    ¬ Reaches succ goal avoid a := by
  intro hr
  cases hr with
  | hit he => exact (h _ he).1 rfl
  | via he hb hnext => exact (h _ he).2 hb hnext

/-- From the goal itself, having entered nothing else. -/
theorem entered_goal : Entered succ goal [goal] [goal] :=
  ⟨by simp, by simp, by simp⟩

variable [DecidableEq α] {nodes : List α}

/-- How many nodes the search may still enter. -/
def unseen (nodes seen : List α) : Nat := (nodes.filter (· ∉ seen)).length

theorem unseen_anti {seen' : List α} (h : ∀ b ∈ seen, b ∈ seen') :
    unseen nodes seen' ≤ unseen nodes seen := by
  refine (List.monotone_filter_right nodes fun b hb => ?_).length_le
  simp only [decide_eq_true_eq] at hb ⊢
  exact fun hs => hb (h b hs)

theorem unseen_lt (hb : b ∈ nodes) (hs : b ∉ seen) :
    unseen nodes (b :: seen) < unseen nodes seen := by
  have h : nodes.filter (· ∉ b :: seen) = (nodes.filter (· ∉ seen)).filter (· ≠ b) := by
    rw [List.filter_filter]
    refine List.filter_congr fun c _ => ?_
    simp
  rw [unseen, unseen, h, List.length_filter_lt_length_iff_exists]
  exact ⟨b, List.mem_filter.mpr ⟨hb, by simpa using hs⟩, by simp⟩

variable (hsucc : ∀ a, ∀ x ∈ succ a, x.2 ∈ nodes)
include hsucc

/-- The scan of one node's edges, behind edges that were dead ends, given that
visits from here on answer right. -/
theorem scan_answer {visit : α → List ε → List α → Visit α ε}
    (hvisit : ∀ {avoid : List α} {b : α} (path : List ε) (seen : List α),
      b ∈ avoid → Entered succ goal avoid seen → unseen nodes seen < n →
      Answer succ goal avoid b path seen (visit b path seen)) (edges done : List (ε × α))
    (path : List ε) (seen : List α) (hsplit : succ a = done ++ edges)
    (hdone : ∀ x ∈ done, DeadEnd succ goal avoid x.2) (hent : Entered succ goal avoid seen)
    (hfuel : unseen nodes seen ≤ n) :
    Answer succ goal avoid a path seen (scan visit goal edges path seen) := by
  induction edges generalizing done path seen with
  | nil =>
    rw [List.append_nil] at hsplit
    exact ⟨nofun, fun _ => not_reaches_of_deadEnds (by rw [hsplit]; exact hdone),
      fun _ => rfl, fun _ h => h, fun _ => hent⟩
  | cons x rest ih =>
    obtain ⟨e, b⟩ := x
    have hmem : (e, b) ∈ succ a := by rw [hsplit]; simp
    -- The rest of the edges once this one is known to be a dead end.
    have hrest : ∀ seen', DeadEnd succ goal avoid b → Entered succ goal avoid seen' →
        (∀ c ∈ seen, c ∈ seen') →
        Answer succ goal avoid a path seen' (scan visit goal rest path seen') := by
      intro seen' hdead hent' hle
      refine ih (done ++ [(e, b)]) path seen' (by rw [hsplit]; simp) ?_ hent'
        (Nat.le_trans (unseen_anti hle) hfuel)
      intro y hy
      rcases List.mem_append.mp hy with hy | hy
      · exact hdone y hy
      · rw [List.mem_singleton.mp hy]
        exact hdead
    rw [scan]
    split
    · next hgoal =>
      subst hgoal
      exact ⟨fun _ => ⟨[e], .hit hsplit hdone, rfl⟩, nofun, nofun, fun _ h => h, nofun⟩
    next hgoal =>
    split
    · next hseen =>
      exact hrest seen ⟨hgoal, fun hba => hent.dead b hseen hba⟩ hent fun _ h => h
    next hseen =>
    have hba : b ∉ avoid := fun h => hseen (hent.avoid_seen b h)
    have hlt : unseen nodes (b :: seen) < unseen nodes seen :=
      unseen_lt (hsucc a (e, b) hmem) hseen
    have hv := hvisit (path ++ [e]) (b :: seen) List.mem_cons_self
      (hent.push (b := b)) (by omega)
    dsimp only
    split
    · next hfound =>
      refine ⟨fun _ => ?_, fun h => absurd hfound (by simp [h]),
        fun h => absurd hfound (by simp [h]),
        fun c hc => hv.seen_le c (List.mem_cons_of_mem _ hc),
        fun h => absurd hfound (by simp [h])⟩
      obtain ⟨way, hway, hpath⟩ := hv.found hfound
      refine ⟨e :: way, .via hsplit hdone hgoal hba hway, ?_⟩
      rw [hpath]
      simp
    next hlost =>
    have hlost : (visit b (path ++ [e]) (b :: seen)).found = false := by
      simpa using hlost
    have hent' := (hv.entered hlost).pop hent.goal_mem (hv.lost hlost)
    have hle : ∀ c ∈ seen, c ∈ (visit b (path ++ [e]) (b :: seen)).seen :=
      fun c hc => hv.seen_le c (List.mem_cons_of_mem _ hc)
    have hdead : DeadEnd succ goal avoid b :=
      ⟨hgoal, fun _ => hent'.dead b (hv.seen_le b List.mem_cons_self) hba⟩
    have hans := hrest _ hdead hent' hle
    rw [hv.path_eq hlost, List.dropLast_concat]
    exact { hans with seen_le := fun c hc => hans.seen_le c (hle c hc) }

/-- A search with fuel for every node it has not entered answers right. -/
theorem search_answer (path : List ε) (seen : List α)
    (ha : a ∈ avoid) (hent : Entered succ goal avoid seen) (hfuel : unseen nodes seen < n) :
    Answer succ goal avoid a path seen (search succ goal n a path seen) := by
  induction n generalizing avoid a path seen with
  | zero => omega
  | succ _ ih =>
    exact scan_answer hsucc (fun path seen => ih path seen) (succ a) [] path seen rfl
      (by simp) hent (by omega)

theorem search_found_iff (hfuel : nodes.length < n) {way : List ε} :
    (search succ goal n goal [] [goal]).found = true ∧
        (search succ goal n goal [] [goal]).path = way ↔
      First succ goal [goal] goal way := by
  have hlt : unseen nodes [goal] < n := Nat.lt_of_le_of_lt (List.length_filter_le ..) hfuel
  have hans := search_answer hsucc [] [goal] List.mem_cons_self entered_goal hlt
  constructor
  · rintro ⟨hfound, rfl⟩
    obtain ⟨_, hway, hpath⟩ := hans.found hfound
    rw [hpath, List.nil_append]
    exact hway
  · intro hway
    cases hfound : (search succ goal n goal [] [goal]).found with
    | false => exact absurd hway.reaches (hans.lost hfound)
    | true =>
      obtain ⟨_, hway', hpath⟩ := hans.found hfound
      rw [hpath, List.nil_append]
      exact ⟨rfl, hway'.unique hway⟩

theorem search_lost (hfuel : nodes.length < n)
    (h : (search succ goal n goal [] [goal]).found = false) :
    ¬ Reaches succ goal [goal] goal := by
  have hlt : unseen nodes [goal] < n := Nat.lt_of_le_of_lt (List.length_filter_le ..) hfuel
  exact (search_answer hsucc [] [goal] List.mem_cons_self entered_goal hlt).lost h

end AgentDocker.Lib
