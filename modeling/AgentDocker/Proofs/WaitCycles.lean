import AgentDocker.Proofs.Holds

/-!
# The rings a claim's wait would close

`deadlock` answers a question about a graph: an agent points at every other
agent that holds something overlapping what it waits for, the requester at
those that hold something overlapping what it asks for. The search reports a
cycle of that graph through the requester exactly when there is one, and what
it reports is one that visits nobody twice.

The source collects the waits into a map before it searches, so of an agent
that waits more than once it knows the wait listed last: `known`. With one wait
an agent nothing is lost.

`breakRings` breaks such rings one after the other, each at the wait of the
lowest priority, the youngest among equals, and looks again. The ring it stops
at need not be the first: a claim that closes two of them may end a wait in the
first and be refused because of the second.
-/

namespace AgentDocker

open AgentDocker.Core Lib

namespace Core

section Graph

variable (requester : AgentId) (resource : ResourceKey)
    (holders : List (ResourceKey × AgentId)) (waits : List (AgentId × ResourceKey))

/-- What an agent waits for once the requester waits for `resource`. -/
def WaitsFor (agent : AgentId) (want : ResourceKey) : Prop :=
  if agent = requester then want = resource else (agent, want) ∈ waits

/-- Another agent holds something that overlaps what this one waits for. -/
def WaitEdge (a b : AgentId) : Prop :=
  b ≠ a ∧ ∃ want, WaitsFor requester resource waits a want ∧
    ∃ held, (held, b) ∈ holders ∧ held.overlaps want = true

/-- A path of the graph from an agent to the requester, step by step. -/
structure WaitPath (a : AgentId) (path : List Blocked) : Prop where
  starts : path.head?.map Blocked.agent = some a
  ends : path.getLast?.map Blocked.heldBy = some requester
  linked : path.IsChain fun step next => step.heldBy = next.agent
  wants : ∀ step ∈ path, WaitsFor requester resource waits step.agent step.resource
  other : ∀ step ∈ path, step.heldBy ≠ step.agent
  held : ∀ step ∈ path, ∃ held, (held, step.heldBy) ∈ holders ∧ held.overlaps step.resource = true
  once : (path.map Blocked.agent).Nodup

/-- A cycle through the requester. -/
def WaitCycle (path : List Blocked) : Prop :=
  WaitPath requester resource holders waits requester path

end Graph

/-- The waits the search knows of: each agent's last. -/
def known (waits : List (AgentId × ResourceKey)) : List (AgentId × ResourceKey) :=
  waits.filter fun w => decide (waitingOn waits w.1 = some w.2)

variable {c d : Candidate} {waits : List (AgentId × ResourceKey)} {cycle : List Blocked}
  {waiters : List Waiter}

theorem mem_known {agent : AgentId} {want : ResourceKey} :
    (agent, want) ∈ known waits ↔ waitingOn waits agent = some want := by
  rw [known, List.mem_filter, decide_eq_true_eq, and_iff_right_iff_imp]
  intro h
  obtain ⟨w, hfind, rfl⟩ := Option.map_eq_some_iff.mp h
  have hagent : w.1 = agent := by simpa using List.find?_some hfind
  rw [← hagent]
  exact List.mem_reverse.mp (List.mem_of_find?_eq_some hfind)

/-- With one wait an agent, the search knows them all. -/
theorem known_eq_self (hone : (waits.map Prod.fst).Nodup) : known waits = waits := by
  refine List.filter_eq_self.mpr fun w hw => ?_
  refine decide_eq_true (waitingOn_eq_some hw fun r hr => ?_)
  exact congrArg Prod.snd (List.inj_on_of_nodup_map hone hr hw rfl)

section Search

variable {requester : AgentId} {resource : ResourceKey}
    {holders : List (ResourceKey × AgentId)} {waits : List (AgentId × ResourceKey)}

theorem wants_eq_some {agent : AgentId} {want : ResourceKey} :
    wants requester resource waits agent = some want ↔
      WaitsFor requester resource (known waits) agent want := by
  unfold wants WaitsFor
  split
  · rw [Option.some.injEq, eq_comm]
  · exact mem_known.symm

variable {a b : AgentId} {e : Blocked} {avoid : List AgentId} {path : List Blocked}

theorem mem_stepsFrom : (e, b) ∈ stepsFrom requester resource holders waits a ↔
      ∃ want, WaitsFor requester resource (known waits) a want ∧ e = ⟨a, want, b⟩ ∧ b ≠ a ∧
        ∃ held, (held, b) ∈ holders ∧ held.overlaps want = true := by
  simp only [← wants_eq_some, stepsFrom]
  cases wants requester resource waits a with
  | none => simp
  | some want =>
    simp only [mem_stepsFor, Option.some.injEq]
    constructor
    · intro h
      exact ⟨want, rfl, h⟩
    · rintro ⟨_, rfl, h⟩
      exact h

theorem WaitEdge.step (h : WaitEdge requester resource holders (known waits) a b) :
    ∃ e, (e, b) ∈ stepsFrom requester resource holders waits a := by
  obtain ⟨hne, want, hwant, hheld⟩ := h
  exact ⟨_, mem_stepsFrom.mpr ⟨want, hwant, rfl, hne, hheld⟩⟩

theorem WaitEdge.of_step (h : (e, b) ∈ stepsFrom requester resource holders waits a) :
    WaitEdge requester resource holders (known waits) a b := by
  obtain ⟨want, hwant, -, hne, hheld⟩ := mem_stepsFrom.mp h
  exact ⟨hne, want, hwant, hheld⟩

/-- A way of the search is a path of the graph. -/
theorem transGen_of_reaches
    (h : Reaches (stepsFrom requester resource holders waits) requester avoid a) :
    Relation.TransGen (WaitEdge requester resource holders (known waits)) a requester := by
  induction h with
  | hit h => exact .single (.of_step h)
  | via h _ _ ih => exact .head (.of_step h) ih

/-- A way of the search is such a path, and everybody on it but where it starts
is somebody it had not passed. -/
theorem WaitPath.of_way
    (h : Way (stepsFrom requester resource holders waits) requester avoid a path) (ha : a ∈ avoid) :
    WaitPath requester resource holders (known waits) a path ∧
      ∀ step ∈ path, step.agent = a ∨ step.agent ∉ avoid := by
  induction h with
  | hit h =>
    obtain ⟨_, hwant, rfl, hne, hheld⟩ := mem_stepsFrom.mp h
    refine ⟨⟨rfl, rfl, .singleton _, ?_, ?_, ?_, by simp⟩, by simp⟩ <;>
      simp only [List.mem_singleton, forall_eq]
    · exact hwant
    · exact hne
    · exact hheld
  | @via _ a b _ way h _ hb hnext ih =>
    obtain ⟨_, hwant, rfl, hne, hheld⟩ := mem_stepsFrom.mp h
    obtain ⟨hrest, hclear⟩ := ih List.mem_cons_self
    obtain ⟨next, rest, rfl⟩ : ∃ next rest, way = next :: rest := by
      cases hnext with
      | hit | via => exact ⟨_, _, rfl⟩
    have hagent : next.agent = b := by simpa using hrest.starts
    refine ⟨⟨rfl, ?_, ?_, ?_, ?_, ?_, ?_⟩, ?_⟩
    · rw [List.getLast?_cons_cons]
      exact hrest.ends
    · exact List.isChain_cons_cons.mpr ⟨hagent.symm, hrest.linked⟩
    · exact List.forall_mem_cons.mpr ⟨hwant, hrest.wants⟩
    · exact List.forall_mem_cons.mpr ⟨hne, hrest.other⟩
    · exact List.forall_mem_cons.mpr ⟨hheld, hrest.held⟩
    · -- Nobody further on is one of those already passed, `a` among them.
      refine List.nodup_cons.mpr ⟨fun hmem => ?_, hrest.once⟩
      obtain ⟨step, hstep, hsame⟩ := List.mem_map.mp hmem
      rcases hclear step hstep with hb' | hnew
      · exact hne (hb'.symm.trans hsame)
      · exact hnew (hsame ▸ List.mem_cons_of_mem _ ha)
    · refine List.forall_mem_cons.mpr ⟨.inl rfl, fun step hstep => .inr ?_⟩
      rcases hclear step hstep with hb' | hnew
      · rw [hb']
        exact hb
      · exact fun hmem => hnew (List.mem_cons_of_mem _ hmem)

theorem deadlock_cycle (h : deadlock requester resource holders waits = some path) :
    WaitCycle requester resource holders (known waits) path :=
  (WaitPath.of_way (deadlock_eq_some.mp h).way (List.mem_singleton_self requester)).1

/-- A cycle is reported if and only if the graph the search knows has one. -/
theorem deadlock_isSome : (deadlock requester resource holders waits).isSome = true ↔
      Relation.TransGen (WaitEdge requester resource holders (known waits)) requester
        requester := by
  constructor
  · intro h
    obtain ⟨_, hpath⟩ := Option.isSome_iff_exists.mp h
    exact transGen_of_reaches (deadlock_eq_some.mp hpath).reaches
  · intro h
    cases hd : deadlock requester resource holders waits with
    | some => rfl
    | none =>
      have hreach : Reaches (stepsFrom requester resource holders waits) requester
          [requester] requester := .of_transGen (fun _ _ => WaitEdge.step) h
      exact absurd hreach (deadlock_eq_none hd)

/-- What the search answers with some other fuel. -/
def deadlockWithin (requester : AgentId) (resource : ResourceKey)
    (holders : List (ResourceKey × AgentId)) (waits : List (AgentId × ResourceKey))
    (fuel : Nat) : Option (List Blocked) :=
  let v := walk requester holders (waitingOn waits) fuel requester resource [] [requester]
  if v.found then some v.path else none

/-- The search comes to an end by itself: fuel for one visit more than there
are leases is never used up. -/
theorem deadlockWithin_eq {fuel : Nat} (hfuel : holders.length < fuel) :
    deadlockWithin requester resource holders waits fuel =
      deadlock requester resource holders waits := by
  refine Option.ext fun path => ?_
  have hnodes : (holders.map Prod.snd).length < fuel := by simpa using hfuel
  rw [deadlock_eq_some, ← search_found_iff stepsFrom_holder hnodes, deadlockWithin]
  simp only [walk_eq_search _ requester resource _ _ (show wants requester resource waits
    requester = some resource by simp [wants])]
  split
  · next h => simp [h]
  · next h => simp [h]

end Search

/-- The search ends, finds a cycle through the requester if and only if there
is one, and what it reports is one. -/
theorem deadlock_iff_cycle (requester : AgentId) (resource : ResourceKey)
    (holders : List (ResourceKey × AgentId)) (waits : List (AgentId × ResourceKey))
    (hone : (waits.map Prod.fst).Nodup) :
    (∀ fuel, holders.length < fuel → deadlockWithin requester resource holders waits fuel =
      deadlock requester resource holders waits) ∧
    ((deadlock requester resource holders waits).isSome = true ↔
      Relation.TransGen (WaitEdge requester resource holders waits) requester requester) ∧
    ∀ path, deadlock requester resource holders waits = some path →
      WaitCycle requester resource holders waits path := by
  refine ⟨fun fuel hfuel => deadlockWithin_eq hfuel, ?_, fun path hpath => ?_⟩
  · rw [deadlock_isSome, known_eq_self hone]
  · rw [← known_eq_self hone]
    exact deadlock_cycle hpath

theorem deadlock_iff_cycle_pair :
    WaitCycle ⟨"a"⟩ ⟨"path:/b"⟩ [(⟨"path:/a"⟩, ⟨"a"⟩), (⟨"path:/b"⟩, ⟨"b"⟩)]
      [(⟨"b"⟩, ⟨"path:/a"⟩)]
      [⟨⟨"a"⟩, ⟨"path:/b"⟩, ⟨"b"⟩⟩, ⟨⟨"b"⟩, ⟨"path:/a"⟩, ⟨"a"⟩⟩] :=
  (deadlock_iff_cycle ⟨"a"⟩ ⟨"path:/b"⟩ [(⟨"path:/a"⟩, ⟨"a"⟩), (⟨"path:/b"⟩, ⟨"b"⟩)]
    [(⟨"b"⟩, ⟨"path:/a"⟩)] (by decide)).2.2 _ (by decide)

/-! ## The wait a ring is broken at -/

theorem Candidate.yields_iff : c.yields d = true ↔
    d.priority < c.priority ∨ d.priority = c.priority ∧
      (d.ticket = none ∨ ∃ t u, c.ticket = some t ∧ d.ticket = some u ∧ t ≤ u) := by
  obtain ⟨-, _, t⟩ := c
  obtain ⟨-, _, u⟩ := d
  cases t <;> cases u <;> simp [yields]

theorem Candidate.yields_refl (c : Candidate) : c.yields c = true := by
  rw [yields_iff]
  cases h : c.ticket <;> simp

theorem Candidate.yields_trans {e : Candidate} (hcd : c.yields d = true) (hde : d.yields e = true) :
    c.yields e = true := by
  rw [yields_iff] at *
  rcases hcd with hlt | ⟨heq, hcd⟩
  · left
    omega
  · rcases hde with _ | ⟨heq', hde⟩
    · left
      omega
    · refine .inr ⟨heq'.trans heq, hde.imp_right ?_⟩
      rintro ⟨_, u, ht, hu, hle⟩
      rcases hcd with hnone | ⟨r, _, hr, hs, hle'⟩
      · rw [hnone] at ht
        cases ht
      · rw [hs] at ht
        cases ht
        exact ⟨r, u, hr, hu, hle'.trans hle⟩

theorem Candidate.yields_total (h : ¬ c.yields d = true) : d.yields c = true := by
  rw [yields_iff] at *
  cases hc : c.ticket <;> cases hd : d.ticket <;> simp [hc, hd] at h ⊢ <;> omega

/-- The fold keeps the best victim it has seen. -/
theorem foldl_yields_best (rest : List Candidate) (first : Candidate) : ∀ c ∈ first :: rest,
      c.yields (rest.foldl (fun best c => if best.yields c then c else best) first) = true := by
  induction rest generalizing first with
  | nil =>
    intro c hc
    rw [List.mem_singleton.mp hc]
    exact first.yields_refl
  | cons d _ ih =>
    have hbest := ih (if first.yields d then d else first)
    have hkept := hbest _ List.mem_cons_self
    have hboth : first.yields (if first.yields d then d else first) = true ∧
        d.yields (if first.yields d then d else first) = true := by
      split
      · next h => exact ⟨h, d.yields_refl⟩
      · next h => exact ⟨first.yields_refl, Candidate.yields_total h⟩
    intro c hc
    rcases List.mem_cons.mp hc with rfl | hc
    · exact Candidate.yields_trans hboth.1 hkept
    · rcases List.mem_cons.mp hc with rfl | hc
      · exact Candidate.yields_trans hboth.2 hkept
      · exact hbest c (List.mem_cons_of_mem _ hc)

/-- A queued wait that is part of a ring: every step but the first is one. -/
def OnRing (cycle : List Blocked) (w : Waiter) : Prop :=
  ∃ step ∈ cycle.drop 1, w.agent = step.agent ∧ w.resource = step.resource

/-- What the waits of a ring are to the choice of its victim. -/
def ringCandidates (cycle : List Blocked) (waiters : List Waiter) : List Candidate :=
  (cycle.zipIdx.drop 1).flatMap fun (blocked, step) =>
    (waiters.filter fun w => decide (w.agent = blocked.agent) &&
      decide (w.resource = blocked.resource)).map fun w =>
        (⟨step, w.priority, some w.ticket⟩ : Candidate)

theorem mem_ringCandidates (h : c ∈ ringCandidates cycle waiters) :
    ∃ w ∈ waiters, OnRing cycle w ∧ c.priority = w.priority ∧ c.ticket = some w.ticket := by
  obtain ⟨⟨blocked, _⟩, hstep, hc⟩ := List.mem_flatMap.mp h
  obtain ⟨w, hw, rfl⟩ := List.mem_map.mp hc
  obtain ⟨hmem, hon⟩ := List.mem_filter.mp hw
  have hstep : blocked ∈ cycle.drop 1 := by
    have := List.mem_map_of_mem (f := Prod.fst) hstep
    rwa [List.map_drop, List.zipIdx_map_fst] at this
  exact ⟨w, hmem, ⟨blocked, hstep, by simpa using hon⟩, rfl, rfl⟩

theorem exists_ringCandidate {w : Waiter} (hw : w ∈ waiters) (hon : OnRing cycle w) :
    ∃ step, ⟨step, w.priority, some w.ticket⟩ ∈ ringCandidates cycle waiters := by
  obtain ⟨blocked, hstep, hagent, hresource⟩ := hon
  rw [← List.zipIdx_map_fst 0 cycle, ← List.map_drop] at hstep
  obtain ⟨⟨blocked, step⟩, hmem, rfl⟩ := List.mem_map.mp hstep
  refine ⟨step, List.mem_flatMap.mpr ⟨(blocked, step), hmem, ?_⟩⟩
  refine List.mem_map.mpr ⟨w, List.mem_filter.mpr ⟨hw, ?_⟩, rfl⟩
  simpa using ⟨hagent, hresource⟩

/-- The victim is the newcomer or a wait of the ring, and no other of these
would do better. -/
theorem victim_best {priority : Int} :
    ∃ chosen, (victim cycle priority waiters).ticket = chosen.ticket ∧
      (chosen = ⟨0, priority, none⟩ ∨ chosen ∈ ringCandidates cycle waiters) ∧
      Candidate.yields ⟨0, priority, none⟩ chosen = true ∧
      ∀ c ∈ ringCandidates cycle waiters, c.yields chosen = true := by
  have hlist : ∃ first rest,
      ringCandidates cycle waiters ++ [⟨0, priority, none⟩] = first :: rest := by
    cases ringCandidates cycle waiters with
    | nil | cons => exact ⟨_, _, rfl⟩
  obtain ⟨first, rest, hlist⟩ := hlist
  have hmem := foldl_yields_mem rest first
  have hbest := foldl_yields_best rest first
  rw [← hlist, List.mem_append, List.mem_singleton] at hmem
  simp only [← hlist, List.mem_append, List.mem_singleton] at hbest
  refine ⟨_, ?_, hmem.symm, hbest _ (.inr rfl), fun c hc => hbest c (.inl hc)⟩
  rw [ringCandidates] at hlist
  rw [victim, hlist]

/-- The wait a ring is broken at: of a lower priority than the newcomer's, the
lowest of the ring, the youngest of those. -/
structure RingVictim (queue : List Waiter) (priority : Int) (cycle : List Blocked)
    (w : Waiter) : Prop where
  queued : w ∈ queue
  onRing : OnRing cycle w
  lower : w.priority < priority
  lowest : ∀ v ∈ queue, OnRing cycle v → w.priority ≤ v.priority
  latest : ∀ v ∈ queue, OnRing cycle v → v.priority = w.priority → v.ticket ≤ w.ticket

theorem victim_some {priority : Int} {ticket : Nat}
    (h : (victim cycle priority waiters).ticket = some ticket) :
    ∃ w, RingVictim waiters priority cycle w ∧ w.ticket = ticket := by
  obtain ⟨_, hticket, hchosen, hnew, hbest⟩ := victim_best
  rw [h] at hticket
  rcases hchosen with rfl | hchosen
  · cases hticket
  · obtain ⟨w, hw, hon, hpriority, hsame⟩ := mem_ringCandidates hchosen
    have hyield : ∀ v ∈ waiters, OnRing cycle v →
        w.priority < v.priority ∨ w.priority = v.priority ∧ v.ticket ≤ w.ticket := by
      intro v hv hvon
      obtain ⟨_, hstep⟩ := exists_ringCandidate hv hvon
      have hyields := Candidate.yields_iff.mp (hbest _ hstep)
      simpa [hpriority, hsame] using hyields
    refine ⟨w, ⟨hw, hon, ?_, fun v hv hvon => ?_, fun v hv hvon heq => ?_⟩, ?_⟩
    · have hyields := Candidate.yields_iff.mp hnew
      simpa [hpriority, hsame] using hyields
    · have := hyield v hv hvon
      omega
    · have := hyield v hv hvon
      omega
    · rw [hsame] at hticket
      exact (Option.some.inj hticket).symm

/-- The newcomer is the victim of a ring none of whose waits has a lower
priority. -/
theorem victim_none {priority : Int} (h : (victim cycle priority waiters).ticket = none) :
    ∀ w ∈ waiters, OnRing cycle w → priority ≤ w.priority := by
  obtain ⟨_, hticket, hchosen, -, hbest⟩ := victim_best
  rw [h] at hticket
  rcases hchosen with rfl | hchosen
  · intro w hw hon
    obtain ⟨_, hstep⟩ := exists_ringCandidate hw hon
    have hyields := Candidate.yields_iff.mp (hbest _ hstep)
    simp only at hyields
    omega
  · obtain ⟨_, -, -, -, hsome⟩ := mem_ringCandidates hchosen
    rw [hsome] at hticket
    cases hticket

end Core

/-! ## Ring after ring -/

namespace Daemon.State

def holders (s : State) : List (ResourceKey × AgentId) :=
  s.leases.all.map fun l => (l.resource, l.holder)

def waitsOf (queue : List Waiter) : List (AgentId × ResourceKey) :=
  queue.map fun w => (w.agent, w.resource)

/-- The waits ended, one after the other: each was the victim of a ring through
the requester, in the queue the earlier ones had left. -/
inductive RingsEnded (requester : AgentId) (resource : ResourceKey) (priority : Int)
    (holders : List (ResourceKey × AgentId)) :
    List Waiter → List Waiter → List Waiter → Prop
  | done (queue : List Waiter) : RingsEnded requester resource priority holders queue [] queue
  | next {queue ended queue' : List Waiter} {cycle : List Blocked} {w : Waiter}
      (hcycle : WaitCycle requester resource holders (known (waitsOf queue)) cycle)
      (hvictim : RingVictim queue priority cycle w)
      (hrest : RingsEnded requester resource priority holders (queue.filter (· ≠ w)) ended
        queue') :
      RingsEnded requester resource priority holders queue (w :: ended) queue'

section Passes

variable {requester : AgentId} {resource : ResourceKey} {priority : Int}

theorem RingsEnded.queue_eq {holders : List (ResourceKey × AgentId)}
    {queue ended queue' : List Waiter}
    (h : RingsEnded requester resource priority holders queue ended queue') :
    queue' = queue.filter (· ∉ ended) := by
  induction h with
  | done => simp
  | next _ _ _ ih =>
    rw [ih, List.filter_filter]
    refine List.filter_congr fun v _ => ?_
    simp [Bool.and_comm]

/-- One pass: no ring is left, or the newcomer is refused because of one, or a
wait is ended and the search goes on. -/
inductive RingPass (requester : AgentId) (resource : ResourceKey) (priority : Int)
    (s : State) : Prop
  | clear (hnone : s.deadlock requester resource = none)
      (heq : ∀ n, breakRingsPass requester resource priority (n + 1) s = (s, none))
  | refused (s' : State) (cycle : List Blocked)
      (hcycle : s.deadlock requester resource = some cycle)
      (hwaiting : s'.waiting = s.waiting) (hleases : s'.leases = s.leases)
      (hpriority : ∀ w ∈ s.waiting.all, OnRing cycle w → priority ≤ w.priority)
      (heq : ∀ n, breakRingsPass requester resource priority (n + 1) s = (s', some cycle))
  | ended (s' : State) (cycle : List Blocked) (w : Waiter)
      (hcycle : s.deadlock requester resource = some cycle)
      (hvictim : RingVictim s.waiting.all priority cycle w)
      (hwaiting : s'.waiting.all = s.waiting.all.filter (· ≠ w))
      (hleases : s'.leases = s.leases)
      (heq : ∀ n, breakRingsPass requester resource priority (n + 1) s =
        breakRingsPass requester resource priority n s')

theorem ringPass {s : State} : RingPass requester resource priority s := by
  cases hd : s.deadlock requester resource with
  | none => exact .clear hd fun n => by rw [breakRingsPass, hd]
  | some cycle =>
    cases hv : (victim cycle priority s.waiting.all).ticket with
    | none =>
      refine .refused (s.emit (.leaseDeadlock cycle cycle[0]?)) cycle hd (emit_waiting ..)
        (emit_leases ..) (victim_none hv) fun n => ?_
      simp only [breakRingsPass, hd, hv]
    | some =>
      obtain ⟨w, hw, rfl⟩ := victim_some hv
      have hget := Keyed.get?_eq_some.mpr ⟨hw.queued, rfl⟩
      obtain ⟨hended, hwaiters, -, -⟩ := WaitQueue.breakRing_some cycle hget
      rcases hr : s.waiting.breakRing w.ticket cycle with ⟨queue, _⟩
      rw [hr] at hended hwaiters
      cases hended
      refine .ended ((State.emit { s with waiting := queue } (.leaseDeadlock cycle
        cycle[(victim cycle priority s.waiting.all).step]?)).emit
          (.leaseWaitEnded w.resource w.agent .deadlock (some w.ticket))) cycle w hd hw
            ?_ ?_ fun n => ?_
      · rw [emit_waiting, emit_waiting]
        show queue.waiters.rows = _
        rw [hwaiters]
        refine List.filter_congr fun v hv => ?_
        have hsame : v.ticket = w.ticket ↔ v = w :=
          ⟨Keyed.eq_of_key_eq hv hw.queued, congrArg _⟩
        simp [hsame]
      · rw [emit_leases, emit_leases]
      · simp only [breakRingsPass, hd, hv, hr]

theorem ended_length {s s' : State} {cycle : List Blocked} {w : Waiter}
    (hvictim : RingVictim s.waiting.all priority cycle w)
    (hwaiting : s'.waiting.all = s.waiting.all.filter (· ≠ w)) :
    s'.waiting.all.length < s.waiting.all.length := by
  rw [hwaiting]
  exact List.length_filter_lt_length_iff_exists.mpr ⟨w, hvictim.queued, by simp⟩

/-- Fuel for one pass more than there are waiters is never used up. -/
theorem breakRingsPass_eq {s : State} {n m : Nat} (hn : s.waiting.all.length < n)
    (hm : s.waiting.all.length < m) :
    breakRingsPass requester resource priority n s =
      breakRingsPass requester resource priority m s := by
  induction n generalizing s m with
  | zero => omega
  | succ _ ih =>
    obtain ⟨m, rfl⟩ : ∃ k, m = k + 1 := ⟨m - 1, by omega⟩
    cases ringPass with
    | clear _ heq | refused _ _ _ _ _ _ heq => rw [heq, heq]
    | ended _ _ _ _ hvictim hwaiting _ heq =>
      have hlt := ended_length hvictim hwaiting
      rw [heq, heq]
      exact ih (by omega) (by omega)

/-- What breaking the rings of a claim leaves, and what its answer means. -/
structure RingsAnswered (requester : AgentId) (resource : ResourceKey) (priority : Int)
    (s s' : State) (answer : Option (List Blocked)) (ended : List Waiter) : Prop where
  leases : s'.leases = s.leases
  ended : RingsEnded requester resource priority s.holders s.waiting.all ended s'.waiting.all
  clear : answer = none → ¬ Relation.TransGen (WaitEdge requester resource s.holders
    (known (waitsOf s'.waiting.all))) requester requester
  refused : ∀ cycle, answer = some cycle →
    WaitCycle requester resource s.holders (known (waitsOf s'.waiting.all)) cycle ∧
      ∀ w ∈ s'.waiting.all, OnRing cycle w → priority ≤ w.priority

theorem breakRingsPass_answered {s : State} {n : Nat} (hn : s.waiting.all.length < n) :
    ∃ ended, RingsAnswered requester resource priority s
      (breakRingsPass requester resource priority n s).1
      (breakRingsPass requester resource priority n s).2 ended := by
  induction n generalizing s with
  | zero => omega
  | succ _ ih =>
    cases ringPass with
    | clear hnone heq =>
      rw [heq]
      refine ⟨[], rfl, .done _, fun _ hring => ?_, nofun⟩
      have hsome : (s.deadlock requester resource).isSome = true :=
        deadlock_isSome.mpr hring
      rw [hnone] at hsome
      cases hsome
    | refused _ _ hcycle hwaiting hleases hpriority heq =>
      rw [heq]
      refine ⟨[], hleases, hwaiting ▸ .done _, nofun, fun found hfound => ?_⟩
      cases hfound
      rw [hwaiting]
      exact ⟨deadlock_cycle hcycle, hpriority⟩
    | ended s' _ w hcycle hvictim hwaiting hleases heq =>
      have hlt := ended_length hvictim hwaiting
      obtain ⟨ended, hrest⟩ := @ih s' (by omega)
      have hholders : s'.holders = s.holders := by rw [holders, holders, hleases]
      have hended := hrest.ended
      have hclear := hrest.clear
      have hrefused := hrest.refused
      rw [hholders, hwaiting] at hended
      rw [hholders] at hclear hrefused
      rw [heq]
      exact ⟨w :: ended, hrest.leases.trans hleases,
        .next (deadlock_cycle hcycle) hvictim hended, hclear, hrefused⟩

end Passes

/-- Breaking rings comes to an end, and ends waits of a lower priority only,
each the lowest and the youngest of its ring. Answered nothing, no ring is left
among the waits the search knows, so none at all where nobody waits twice.
Refused, it is because of a ring of waits still queued, none of them of a lower
priority; waits ended before it were the victims of other rings. -/
theorem breakRings_answered (s : State) (requester : AgentId) (resource : ResourceKey)
    (priority : Int) :
    (∀ fuel, s.waiting.all.length < fuel → breakRingsPass requester resource priority fuel s =
      s.breakRings requester resource priority) ∧
    (∃ ended, RingsAnswered requester resource priority s
      (s.breakRings requester resource priority).1
      (s.breakRings requester resource priority).2 ended ∧
      (s.breakRings requester resource priority).1.waiting.all = s.waiting.all.filter (· ∉ ended)) ∧
    (((waitsOf s.waiting.all).map Prod.fst).Nodup →
      (s.breakRings requester resource priority).2 = none →
      ¬ Relation.TransGen (WaitEdge requester resource s.holders
        (waitsOf (s.breakRings requester resource priority).1.waiting.all))
          requester requester) := by
  obtain ⟨ended, hanswered⟩ := @breakRingsPass_answered requester resource priority s _
    (Nat.lt_succ_self s.waiting.all.length)
  have hqueue := hanswered.ended.queue_eq
  refine ⟨fun fuel hfuel => breakRingsPass_eq hfuel (Nat.lt_succ_self _),
    ⟨ended, hanswered, hqueue⟩, fun hone hnone => ?_⟩
  have hsub : ((waitsOf (s.breakRings requester resource priority).1.waiting.all).map
      Prod.fst).Sublist ((waitsOf s.waiting.all).map Prod.fst) := by
    rw [breakRings, hqueue]
    exact (List.filter_sublist.map _).map _
  have hclear := hanswered.clear hnone
  rw [← breakRings] at hclear
  rwa [known_eq_self (hone.sublist hsub)] at hclear

/-- One who holds what both others want asks for what both of them hold. The
first of the two waits at a lower priority, the second does not. -/
def twoRings : State :=
  (run Service.step (Service.start .everybody .empty fun _ => none)
    [.request 1 ⟨"r"⟩ (.path "/r" .exclusive 0), .attempt 1 0 ⟨"l1"⟩,
      .request 2 ⟨"a"⟩ (.path "/p/a" .exclusive 0), .attempt 2 1 ⟨"l2"⟩,
      .request 3 ⟨"b"⟩ (.path "/p/b" .exclusive 0), .attempt 3 2 ⟨"l3"⟩,
      .request 4 ⟨"a"⟩ { ClaimArgs.path "/r" .exclusive 60 with priority := -1 },
      .attempt 4 3 ⟨"l4"⟩,
      .request 5 ⟨"b"⟩ (.path "/r" .exclusive 60), .attempt 5 4 ⟨"l5"⟩]).state

/-- One waits for what the requester holds, and then for something else. -/
def waitsTwice : State :=
  (run Service.step (Service.start .everybody .empty fun _ => none)
    [.request 1 ⟨"r"⟩ (.path "/r" .exclusive 0), .attempt 1 0 ⟨"l1"⟩,
      .request 2 ⟨"a"⟩ (.path "/p" .exclusive 0), .attempt 2 1 ⟨"l2"⟩,
      .request 3 ⟨"b"⟩ (.path "/b" .exclusive 0), .attempt 3 2 ⟨"l3"⟩,
      .request 4 ⟨"a"⟩ (.path "/r" .exclusive 60), .attempt 4 3 ⟨"l4"⟩,
      .request 5 ⟨"a"⟩ (.path "/b" .exclusive 60), .attempt 5 4 ⟨"l5"⟩]).state

theorem refused_after_ending : ((twoRings.breakRings ⟨"r"⟩ ⟨"path:/p"⟩ 0).2.isSome = true ∧
      ∃ w ∈ twoRings.waiting.all, w ∉ (twoRings.breakRings ⟨"r"⟩ ⟨"path:/p"⟩ 0).1.waiting.all) ∧
    ((waitsTwice.breakRings ⟨"r"⟩ ⟨"path:/p"⟩ 0).2 = none ∧
      Relation.TransGen (WaitEdge ⟨"r"⟩ ⟨"path:/p"⟩ waitsTwice.holders
        (waitsOf (waitsTwice.breakRings ⟨"r"⟩ ⟨"path:/p"⟩ 0).1.waiting.all))
          ⟨"r"⟩ ⟨"r"⟩) := by
  refine ⟨⟨by decide +kernel, by decide +kernel⟩, by decide +kernel, ?_⟩
  refine .head (b := ⟨"a"⟩) ⟨by decide, ⟨"path:/p"⟩, ?_, ⟨"path:/p"⟩, ?_, ?_⟩
    (.single ⟨by decide, ⟨"path:/r"⟩, ?_, ⟨"path:/r"⟩, ?_, ?_⟩)
  · rw [WaitsFor, if_pos rfl]
  · decide +kernel
  · decide
  · rw [WaitsFor, if_neg (by decide)]
    decide +kernel
  · decide +kernel
  · decide

end Daemon.State

end AgentDocker
