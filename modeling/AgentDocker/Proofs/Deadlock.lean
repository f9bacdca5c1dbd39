import AgentDocker.Daemon.Service
import Mathlib.Data.Prod.Lex
import Mathlib.Data.String.Basic

/-!
# Is a deadlock one?

The search for a ring sees who holds what and who waits for what, and neither
side's mode. So it takes a step from an agent that waits for a shared lease to
one that holds another shared lease of it, though neither keeps the other from
anything.

The ring it reports is the first way back to the requester: from each agent
over the oldest lease of what it wants from whose holder the requester can
still be reached. Its answer is right if and only if no step of that way is
between two that share. Which ring is the first depends on nothing but the
leases' ages, and every ring there is can be; so the answers are right whatever
the ages if and only if no ring has such a step.
-/

namespace AgentDocker

open AgentDocker.Core Lib

/-! ## Leases of other ages -/

namespace Core

variable {k l : Lease}

theorem Lease.before_iff :
    l.before k ↔ toLex (l.acquiredAt, l.id.id) ≤ toLex (k.acquiredAt, k.id.id) := by
  rw [Prod.Lex.toLex_le_toLex]
  rfl

instance : Std.Total Lease.before where
  total l k := by
    rw [Lease.before_iff, Lease.before_iff]
    exact le_total ..

instance : IsTrans Lease Lease.before where
  trans l k m hlk hkm := by
    rw [Lease.before_iff] at *
    exact hlk.trans hkm

theorem Lease.id_eq_of_before (hlk : l.before k) (hkl : k.before l) : l.id = k.id := by
  rw [Lease.before_iff] at hlk hkl
  have heq := toLex.injective (le_antisymm hlk hkl)
  exact congrArg LeaseId.mk (Prod.mk.inj heq).2

/-- A lease taken at another time. -/
def Lease.aged (age : LeaseId → Time) (l : Lease) : Lease := { l with acquiredAt := age l.id }

/-- The same leases, taken at other times. -/
def LeaseTable.aged (t : LeaseTable) (age : LeaseId → Time) : LeaseTable :=
  t.update (Lease.aged age) fun _ => rfl

theorem LeaseTable.mem_aged {t : LeaseTable} {age : LeaseId → Time} :
    l ∈ t.aged age ↔ ∃ k ∈ t, k.aged age = l :=
  List.mem_map

/-- Leases of the right ages are listed in any order. -/
theorem LeaseTable.exists_aged (t : LeaseTable) {order : List Lease} (h : order.Perm t.rows) :
    ∃ age, (t.aged age).all = order.map (Lease.aged age) := by
  let age : LeaseId → Time := fun id => (order.map Lease.id).idxOf id
  have hnodup : (order.map Lease.id).Nodup := (h.map _).nodup_iff.mpr t.nodup
  refine ⟨age, ?_⟩
  have hperm : (t.aged age).all.Perm (order.map (Lease.aged age)) := by
    refine (List.perm_insertionSort _ _).trans ?_
    rw [List.filter_true]
    exact (h.map _).symm
  refine hperm.eq_of_pairwise (fun l k hl hk hlk hkl => ?_) (List.pairwise_insertionSort _ _) ?_
  · exact Keyed.eq_of_key_eq (mem_all.mp hl) (mem_all.mp (hperm.mem_iff.mpr hk))
      (Lease.id_eq_of_before hlk hkl)
  · rw [List.pairwise_map, List.pairwise_iff_getElem]
    intro i j hi hj hij
    left
    have hage : ∀ n (hn : n < order.length), age order[n].id = n := by
      intro n hn
      have := hnodup.idxOf_getElem n (by simpa using hn)
      rw [List.getElem_map] at this
      exact congrArg _ this
    show age order[i].id < age order[j].id
    rw [hage i hi, hage j hj]
    exact Int.ofNat_lt.mpr hij

end Core

namespace Daemon.State

/-! ## Any ring may be the first -/

section Order

variable {requester : AgentId} {resource : ResourceKey} {waits : List (AgentId × ResourceKey)}

/-- The steps of the search over a list of leases. -/
def stepsOver (requester : AgentId) (resource : ResourceKey)
    (waits : List (AgentId × ResourceKey)) (leases : List Lease) :
    AgentId → List (Blocked × AgentId) :=
  stepsFrom requester resource (leases.map fun l => (l.resource, l.holder)) waits

variable {agent b : AgentId} {e : Blocked} {leases : List Lease}

theorem mem_stepsOver : (e, b) ∈ stepsOver requester resource waits leases agent ↔
      ∃ want, wants requester resource waits agent = some want ∧ e = ⟨agent, want, b⟩ ∧
        b ≠ agent ∧ ∃ l ∈ leases, l.holder = b ∧ l.resource.overlaps want = true := by
  unfold stepsOver stepsFrom
  cases wants requester resource waits agent with
  | none => simp
  | some want =>
    simp only [mem_stepsFor, List.mem_map, Prod.mk.injEq, Option.some.injEq]
    constructor
    · rintro ⟨rfl, hne, _, ⟨l, hl, rfl, rfl⟩, hov⟩
      exact ⟨want, rfl, rfl, hne, l, hl, rfl, hov⟩
    · rintro ⟨_, rfl, rfl, hne, l, hl, rfl, hov⟩
      exact ⟨rfl, hne, l.resource, ⟨l, hl, rfl, rfl⟩, hov⟩

/-- A lease a step goes over, wherever it stands in the list. -/
theorem stepsOver_split (h : (e, b) ∈ stepsOver requester resource waits leases agent) :
    ∃ l ∈ leases, l.holder = b ∧ ∀ front rest, ∃ pre post,
      stepsOver requester resource waits (front ++ l :: rest) agent = pre ++ (e, b) :: post ∧
        ∀ x ∈ pre, ∃ k ∈ front, k.holder = x.2 := by
  obtain ⟨_, hwants, rfl, hne, l, hl, rfl, hov⟩ := mem_stepsOver.mp h
  refine ⟨l, hl, rfl, fun front rest => ?_⟩
  refine ⟨stepsOver requester resource waits front agent,
    stepsOver requester resource waits rest agent, ?_, ?_⟩
  · simp only [stepsOver, stepsFrom, hwants, List.map_append, List.map_cons, stepsFor_append,
      stepsFor_cons _ hov hne]
  · rintro ⟨_, _⟩ hx
    obtain ⟨-, -, -, -, k, hk, hholder, -⟩ := mem_stepsOver.mp hx
    exact ⟨k, hk, hholder⟩

/-- With the leases of a way at the front of the list, it is the first. -/
theorem exists_first {avoid : List AgentId} {a : AgentId} {ring : List Blocked}
    (h : Way (stepsOver requester resource waits leases) requester avoid a ring) :
    ∃ way : List Lease, (∀ l ∈ way, l ∈ leases) ∧ (way.map Lease.holder).Nodup ∧
      (∀ l ∈ way, l.holder = requester ∨ l.holder ∉ avoid) ∧
      ∀ front rest, (∀ l ∈ front, l.holder ∈ avoid ∧ l.holder ≠ requester) →
        First (stepsOver requester resource waits (front ++ way ++ rest)) requester avoid a
          ring := by
  induction h with
  | hit h =>
    obtain ⟨l, hl, hholder, hsplit⟩ := stepsOver_split h
    refine ⟨[l], by simpa using hl, by simp, by simp [hholder], fun front rest hfront => ?_⟩
    obtain ⟨_, _, heq, hpre⟩ := hsplit front rest
    refine .hit (by simpa using heq) fun x hx => ?_
    obtain ⟨k, hk, hkx⟩ := hpre x hx
    rw [← hkx]
    exact ⟨(hfront k hk).2, fun hnot => absurd (hfront k hk).1 hnot⟩
  | via h hgoal hb _ ih =>
    obtain ⟨l, hl, rfl, hsplit⟩ := stepsOver_split h
    obtain ⟨way, hway, hnodup, hnew, hfirst⟩ := ih
    refine ⟨l :: way, ?_, ?_, ?_, fun front rest hfront => ?_⟩
    · simpa using ⟨hl, hway⟩
    · refine List.nodup_cons.mpr ⟨fun hmem => ?_, hnodup⟩
      obtain ⟨k, hk, hkl⟩ := List.mem_map.mp hmem
      rcases hnew k hk with hreq | hnot
      · exact hgoal (hkl.symm.trans hreq)
      · exact hnot (hkl ▸ List.mem_cons_self)
    · intro k hk
      rcases List.mem_cons.mp hk with rfl | hk
      · exact .inr hb
      · exact (hnew k hk).imp id fun hnot hmem => hnot (List.mem_cons_of_mem _ hmem)
    · obtain ⟨_, _, heq, hpre⟩ := hsplit front (way ++ rest)
      have hnext := hfirst (front ++ [l]) rest fun k hk => by
        rcases List.mem_append.mp hk with hk | hk
        · exact ⟨List.mem_cons_of_mem _ (hfront k hk).1, (hfront k hk).2⟩
        · cases List.mem_singleton.mp hk
          exact ⟨List.mem_cons_self, hgoal⟩
      refine .via (by simpa using heq) (fun x hx => ?_) hgoal hb (by simpa using hnext)
      obtain ⟨k, hk, hkx⟩ := hpre x hx
      rw [← hkx]
      exact ⟨(hfront k hk).2, fun hnot => absurd (hfront k hk).1 hnot⟩

end Order

/-! ## Who excludes whom -/

section Rings

variable (s : State) (requester : AgentId) (resource : ResourceKey) (mode : LeaseMode)

/-- The mode an agent on a ring asked for: the requester in its request, any
other in the wait the search knows of. -/
def asksFor (agent : AgentId) : Option LeaseMode :=
  if agent = requester then some mode
  else (s.waiting.all.reverse.find? fun w => decide (w.agent = agent)).map Waiter.mode

/-- Whether the one a step names holds a lease that would block the agent of
the step in the mode it asked for. -/
def Excludes (step : Blocked) : Prop :=
  ∃ asked ∈ s.asksFor requester mode step.agent, ∃ l ∈ s.leases.rows,
    l.holder = step.heldBy ∧ l.blocks step.agent asked step.resource = true

instance : DecidablePred (s.Excludes requester mode) := fun step =>
  inferInstanceAs (Decidable (∃ asked ∈ s.asksFor requester mode step.agent, _))

/-- No ring reported names anybody who is not in the way. -/
def NeverFalse : Prop :=
  ∀ cycle, s.deadlock requester resource = some cycle →
    ∀ step ∈ cycle, s.Excludes requester mode step

/-- Whether a step is between two of whom one asked for it exclusively, or the
other has some of it exclusively. -/
def Exclusive (step : Blocked) : Prop :=
  s.asksFor requester mode step.agent = some .exclusive ∨ ∃ l ∈ s.leases, l.holder = step.heldBy ∧
      l.resource.overlaps step.resource = true ∧ l.mode = .exclusive

def steps : AgentId → List (Blocked × AgentId) :=
  stepsOver requester resource (s.waiting.all.map fun w => (w.agent, w.resource)) s.leases.all

/-- A ring through the requester: each of its agents wants something that
overlaps what the next one holds, and none is in it twice. -/
def Ring : List Blocked → Prop :=
  Way (s.steps requester resource) requester [requester] requester

/-- The ring that goes, from every agent, over the oldest lease of what it
wants from whose holder the requester can still be reached. -/
def FirstRing : List Blocked → Prop :=
  First (s.steps requester resource) requester [requester] requester

/-- The state with the same leases, taken at other times. -/
def aged (age : LeaseId → Time) : State := { s with leases := s.leases.aged age }

end Rings

variable {s : State} {requester : AgentId} {resource : ResourceKey} {mode : LeaseMode}

theorem asksFor_of_wants {agent : AgentId} {want : ResourceKey}
    (h : wants requester resource (s.waiting.all.map fun w => (w.agent, w.resource)) agent =
      some want) :
    ∃ asked, s.asksFor requester mode agent = some asked := by
  unfold wants at h
  unfold asksFor
  split at h
  · next heq => exact ⟨mode, if_pos heq⟩
  next hne =>
  rw [if_neg hne]
  rw [waitingOn, ← List.map_reverse, List.find?_map, Option.map_map] at h
  obtain ⟨w, hw, -⟩ := Option.map_eq_some_iff.mp h
  exact ⟨w.mode, Option.map_eq_some_iff.mpr ⟨w, hw, rfl⟩⟩

variable {step : Blocked} {ring : List Blocked}

/-- Along a ring, who is excluded is a matter of the modes. -/
theorem Ring.excludes_iff (h : s.Ring requester resource ring) (hstep : step ∈ ring) :
    s.Excludes requester mode step ↔ s.Exclusive requester mode step := by
  obtain ⟨_, _, hedge⟩ := h.edge step hstep
  obtain ⟨_, hwants, rfl, hne, l, hl, hholder, hov⟩ := mem_stepsOver.mp hedge
  constructor
  · rintro ⟨_, hasked, l, hl, hholder, hblocks⟩
    obtain ⟨-, hov, hexcl | rfl⟩ := Lease.blocks_eq.mp hblocks
    · exact .inr ⟨l, hl, hholder, hov, hexcl⟩
    · exact .inl hasked
  · rintro (hexcl | ⟨k, hk, hkb, hov', hexcl⟩)
    · refine ⟨.exclusive, hexcl, l, LeaseTable.mem_all.mp hl, hholder, ?_⟩
      exact Lease.blocks_eq.mpr ⟨hholder ▸ hne, hov, .inr rfl⟩
    · obtain ⟨asked, hasked⟩ := asksFor_of_wants hwants
      refine ⟨asked, hasked, k, hk, hkb, Lease.blocks_eq.mpr ⟨?_, hov', .inl hexcl⟩⟩
      rw [hkb]
      exact hne

theorem neverFalse_iff : s.NeverFalse requester resource mode ↔
    ∀ ring, s.FirstRing requester resource ring →
      ∀ step ∈ ring, s.Exclusive requester mode step := by
  refine forall_congr' fun ring => ?_
  rw [deadlock, deadlock_eq_some]
  refine forall_congr' fun hring => forall₂_congr fun step hstep => ?_
  exact Ring.excludes_iff hring.way hstep

theorem stepsOver_aged {waits : List (AgentId × ResourceKey)} {leases : List Lease}
    {age : LeaseId → Time} :
    stepsOver requester resource waits (leases.map (Lease.aged age)) =
      stepsOver requester resource waits leases := by
  rw [stepsOver, stepsOver, List.map_map]
  rfl

/-- Every ring is the first one at some ages of the leases. -/
theorem ring_iff_exists_aged :
    s.Ring requester resource ring ↔ ∃ age, (s.aged age).FirstRing requester resource ring := by
  constructor
  · intro h
    obtain ⟨way, hway, hnodup, -, hfirst⟩ := exists_first h
    obtain ⟨_, hperm, hsub⟩ : way.Subperm s.leases.rows :=
      List.subperm_of_subset (hnodup.of_map _) fun l hl => LeaseTable.mem_all.mp (hway l hl)
    obtain ⟨rest, hrest⟩ := hsub.exists_perm_append
    have horder : (way ++ rest).Perm s.leases.rows :=
      (hperm.symm.append_right rest).trans hrest.symm
    obtain ⟨age, hage⟩ := s.leases.exists_aged horder
    refine ⟨age, ?_⟩
    have hfirst := hfirst [] rest (by simp)
    rw [List.nil_append, ← stepsOver_aged, ← hage] at hfirst
    exact hfirst
  · rintro ⟨_, h⟩
    refine h.way.mono fun a ⟨e, b⟩ hx => ?_
    obtain ⟨want, hwants, he, hne, _, hl, hholder, hov⟩ := mem_stepsOver.mp hx
    obtain ⟨k, hk, rfl⟩ := LeaseTable.mem_aged.mp (LeaseTable.mem_all.mp hl)
    exact mem_stepsOver.mpr
      ⟨want, hwants, he, hne, k, LeaseTable.mem_all.mpr hk, hholder, hov⟩

theorem exclusive_aged {age : LeaseId → Time} :
    (s.aged age).Exclusive requester mode step ↔ s.Exclusive requester mode step := by
  refine or_congr_right ⟨?_, ?_⟩
  · rintro ⟨_, hl, hl'⟩
    obtain ⟨k, hk, rfl⟩ := LeaseTable.mem_aged.mp hl
    exact ⟨k, hk, hl'⟩
  · rintro ⟨k, hk, hk'⟩
    exact ⟨k.aged age, LeaseTable.mem_aged.mpr ⟨k, hk, rfl⟩, hk'⟩

/-- Whoever a ring names is really in the way if and only if no step of the
first ring is between two that share; and that is so whatever the ages of the
leases if and only if no ring at all has such a step. -/
theorem neverFalse_iff_exclusive (s : State) (requester : AgentId) (resource : ResourceKey)
    (mode : LeaseMode) :
    (s.NeverFalse requester resource mode ↔ ∀ ring, s.FirstRing requester resource ring →
        ∀ step ∈ ring, s.Exclusive requester mode step) ∧
    ((∀ age, (s.aged age).NeverFalse requester resource mode) ↔
      ∀ ring, s.Ring requester resource ring → ∀ step ∈ ring, s.Exclusive requester mode step) := by
  refine ⟨neverFalse_iff, ?_⟩
  simp only [neverFalse_iff, exclusive_aged, ring_iff_exists_aged]
  exact ⟨fun h ring ⟨age, hring⟩ => h age ring hring, fun h age ring hring => h ring ⟨age, hring⟩⟩

/-- One reads where another writes, and a third, who has what the first wants
next, waits to read beside them. -/
def readers : List Service.Op :=
  [.request 1 ⟨"a"⟩ (.path "/p/a" .shared 0), .attempt 1 0 ⟨"l1"⟩,
    .request 2 ⟨"b"⟩ (.path "/q" .exclusive 0), .attempt 2 1 ⟨"l2"⟩,
    .request 3 ⟨"c"⟩ (.path "/p/c" .exclusive 0), .attempt 3 2 ⟨"l3"⟩,
    .request 4 ⟨"b"⟩ (.path "/p" .shared 60), .attempt 4 3 ⟨"l4"⟩]

theorem readers_false_deadlock :
    ¬ (run Service.step (Service.start .everybody .empty fun _ => none) readers).state.NeverFalse
      ⟨"a"⟩ ⟨"path:/q"⟩ .exclusive := by
  intro h
  exact absurd (h [⟨⟨"a"⟩, ⟨"path:/q"⟩, ⟨"b"⟩⟩, ⟨⟨"b"⟩, ⟨"path:/p"⟩, ⟨"a"⟩⟩] (by decide))
    (by decide)

end Daemon.State

end AgentDocker
