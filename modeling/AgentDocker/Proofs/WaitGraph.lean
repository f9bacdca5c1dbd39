import AgentDocker.Lib.Rings
import AgentDocker.Proofs.Places

/-!
# Waiting on each other

Two graphs say who is stuck on whom. The first is on agents, with an edge from
an agent that waits to every other that holds something in its way; it is the
one the deadlock check searches, and it never has a ring. The second is on the
waiters themselves and has a further kind of edge, because a claim also waits
for those ahead of it in the queue. The check does not look at those, so a ring
that takes one of them can close.

Both are about agents that have one claim in flight at a time, and leases that
are not handed over behind the claims' backs.
-/

namespace AgentDocker.Daemon

open AgentDocker.Core Lib Keyed Relation

/-- The record an id stands for. -/
def Env.record (env : Env) (agent : AgentId) : AgentId :=
  match env.registry agent with
  | some record => record.id
  | none => agent

theorem Claim.seen_holder (c : Claim) {env : Env} :
    (c.seen env).holder = c.holder ∨ (c.seen env).holder = env.record c.holder := by
  unfold Claim.seen Claim.followed Env.record
  split
  · exact .inl rfl
  next agent hreg =>
  split
  · split
    · rw [hreg]
      exact .inr rfl
    · exact .inl rfl
  · exact .inl rfl

namespace State

/-- An agent waits for something another holds something overlapping of. -/
def WaitsFor (s : State) (a b : AgentId) : Prop :=
  ∃ w ∈ s.waiting.waiters, w.agent = a ∧
    ∃ l ∈ s.leases, l.holder = b ∧ b ≠ a ∧ l.resource.overlaps w.resource = true

variable {s s' : State}

theorem WaitsFor.mono (hq : ∀ w ∈ s'.waiting.waiters, w ∈ s.waiting.waiters)
    (hl : s'.leases.Shadows s.leases) {a b : AgentId} (h : s'.WaitsFor a b) :
    s.WaitsFor a b := by
  obtain ⟨w, hw, ha, l', hl', hb, hne, hov⟩ := h
  obtain ⟨l, hmem, hres, hholder, -⟩ := hl l' hl'
  exact ⟨w, hq w hw, ha, l, hmem, hholder ▸ hb, hne, hres ▸ hov⟩

theorem Passed.shadows {time : Option Time} {more : List Event} (h : Passed time s s' more) :
    s'.leases.Shadows s.leases :=
  .of_subset h.kept

end State

namespace Service

/-- Every agent has at most one claim in flight, and a record with a place in a
queue is not folded into another. -/
def OneEach (w : Service) : Prop :=
  (∀ c ∈ w.claims.rows, ∀ d ∈ w.claims.rows, c.inFlight = true → d.inFlight = true →
    w.state.env.record c.holder = w.state.env.record d.holder → c = d) ∧
  ∀ c ∈ w.claims.rows, c.guard.ticket ≠ none → w.state.env.record c.holder = c.holder

instance : DecidablePred OneEach := fun w =>
  inferInstanceAs (Decidable ((∀ c ∈ w.claims.rows, _) ∧ ∀ c ∈ w.claims.rows, _))

/-- Whether a step leaves every lease with its holder or with nobody. -/
def KeepsHolders : Op → Prop
  | .resume handoff _ => handoff.transferLeases = false
  | _ => True

instance : DecidablePred KeepsHolders
  | .resume handoff _ => inferInstanceAs (Decidable (handoff.transferLeases = false))
  | .request .. | .attempt .. | .wake .. | .drop .. | .renew .. | .release ..
  | .releaseAll .. | .expire .. | .offer .. | .abort .. | .env .. | .reorder .. =>
    .isTrue trivial

/-- Nobody waits under another's name. -/
def Own (claims : Keyed Claim.number) : Prop :=
  ∀ c ∈ claims, c.guard.ticket ≠ none → c.guard.requester = c.holder

variable {w w' : Service} {op : Op} {c : Claim}

/-- A claim that waits is not in flight for the agent another claim attempts
for. -/
theorem OneEach.ne_seen (h : OneEach w) {d : Claim} (hc : c ∈ w.claims)
    (hflight : c.inFlight = true) (hd : d ∈ w.claims) (hdf : d.inFlight = true)
    (hticket : d.guard.ticket ≠ none) (hne : d ≠ c) :
    d.holder ≠ (c.seen w.state.env).holder := by
  intro heq
  refine hne (h.1 d hd c hc hdf hflight ?_)
  rcases c.seen_holder with hs | hs
  · rw [heq, hs]
  · rw [h.2 d hd hticket, heq, hs]

theorem Went.own (hw : Went w op w') (h : Own w.claims)
    (hl : Linked w.state.waiting w.claims) (hone : OneEach w) : Own w'.claims := by
  cases hw with
  | still | aside => exact h
  | asked _ asked =>
    intro d hd ht
    rcases mem_insert.mp hd with rfl | ⟨hd, -⟩
    · exact absurd asked.ticket ht
    · exact h d hd ht
  | @turn _ _ c _ _ _ _ mem inFlight turn =>
    intro d hd ht
    rcases mem_insert.mp hd with rfl | ⟨hd, -⟩
    · cases turn with
      | woke => exact h c mem ht
      | read _ _ finishes | ended _ _ _ _ _ _ finishes | granted _ _ _ _ _ _ _ _ _ _ finishes
      | deadlocked _ _ _ _ finishes =>
        exact absurd finishes.ticket ht
      | answered =>
        have := ((hl.sits c mem).waits (by simpa using ht)).2
        omega
      | waited _ _ _ ticket =>
        rw [Claim.seen_guard _ ticket, h c mem ticket]
        rcases c.seen_holder with hs | hs
        · exact hs.symm
        · rw [hs, hone.2 c mem ticket]
      | joined _ _ _ ticket =>
        exact c.seen_requester _ ticket ((hl.sits c mem).named inFlight ticket)
    · exact h d hd ht

variable {s s' : State} {q : WaitQueue} {u v : Waiter}

/-- Behind every waiter stands a claim in flight of the same agent. -/
theorem exists_waiting {claims : Keyed Claim.number} (hl : Linked q claims) (hown : Own claims)
    (hv : v ∈ q.waiters) :
    ∃ d ∈ claims, d.guard.ticket = some v.ticket ∧ d.inFlight = true ∧ v.agent = d.holder := by
  obtain ⟨d, hd, hdt⟩ := hl.placed v.ticket (.inl ⟨v, hv, rfl⟩)
  have hticket : d.guard.ticket ≠ none := by simp [hdt]
  have hsits := hl.sits d hd
  exact ⟨d, hd, hdt, (hsits.waits hticket).1, (hsits.wants v hv hdt).1.trans (hown d hd hticket)⟩

/-- The agent a claim attempts for waits, if at all, in that claim's place. -/
theorem OneEach.not_waiting (h : OneEach w) (hl : Linked q w.claims) (hown : Own w.claims)
    (hc : c ∈ w.claims) (hflight : c.inFlight = true) (hv : v ∈ q.waiters)
    (hne : c.guard.ticket ≠ some v.ticket) :
    v.agent ≠ (c.seen w.state.env).holder := by
  obtain ⟨_, hd, hdt, hdf, hagent⟩ := exists_waiting hl hown hv
  rw [hagent]
  refine h.ne_seen hc hflight hd hdf (by simp [hdt]) ?_
  rintro rfl
  exact hne hdt

/-- No agent waits twice. -/
theorem OneEach.waiter_unique (h : OneEach w) (hl : Linked q w.claims) (hown : Own w.claims)
    (hv : v ∈ q.waiters) (hu : u ∈ q.waiters) (heq : u.agent = v.agent) : u = v := by
  obtain ⟨d, hd, hdt, hdf, hdv⟩ := exists_waiting hl hown hv
  obtain ⟨e, he, het, hef, heu⟩ := exists_waiting hl hown hu
  have hsame := h.1 e he d hd hef hdf (by rw [← heu, ← hdv, heq])
  rw [hsame, hdt] at het
  exact eq_of_key_eq hu hv (Option.some.inj het).symm

/-- A wait the deadlock check found nothing against closes no ring. -/
theorem OneEach.not_ring (h : OneEach w) {n : Waiter} {more : List Event}
    (hl : Linked s.waiting w.claims) (hown : Own w.claims) (hc : c ∈ w.claims)
    (hflight : c.inFlight = true) (hticket : c.guard.ticket = none)
    (hclear : s.deadlock (c.seen w.state.env).holder n.resource = none)
    (hjoins : State.Joined s s' n more) (hagent : n.agent = (c.seen w.state.env).holder) :
    ¬ TransGen s'.WaitsFor n.agent n.agent := by
  intro hring
  rw [← hagent] at hclear
  refine deadlock_eq_none hclear (.of_transGen (fun a b hab => ?_) hring)
  obtain ⟨v, hv, rfl, l, hmem, rfl, hne, hov⟩ := hab
  rw [hjoins.leases] at hmem
  have hwants : wants n.agent n.resource (s.waiting.all.map fun w => (w.agent, w.resource))
      v.agent = some v.resource := by
    unfold wants
    rcases (hjoins.queued v).mp hv with rfl | hv
    · rw [if_pos rfl]
    · have hother := h.not_waiting hl hown hc hflight hv (by simp [hticket])
      rw [if_neg (hagent ▸ hother)]
      refine waitingOn_eq_some (List.mem_map.mpr ⟨v, hv, rfl⟩) fun r hr => ?_
      obtain ⟨_, hu, heq⟩ := List.mem_map.mp hr
      obtain ⟨hua, rfl⟩ := Prod.mk.inj heq
      rw [h.waiter_unique hl hown hv hu hua]
  rw [stepsFrom, hwants]
  refine ⟨_, mem_stepsFor.mpr ⟨rfl, hne, l.resource, ?_, hov⟩⟩
  exact List.mem_map.mpr ⟨l, LeaseTable.mem_all.mpr hmem, rfl⟩

/-- The waiter a claim would become. -/
def newcomer (s : State) (c : Claim) (now : Time) : Waiter :=
  ⟨s.waiting.nextTicket, (c.seen s.env).holder, c.args.resource, c.args.mode, now, c.args.priority⟩

/-- What a step does to the two graphs. -/
inductive Shift (w : Service) (op : Op) (s' : State) : Prop
  | shrinks (queue : ∀ v ∈ s'.waiting.waiters, v ∈ w.state.waiting.waiters)
      (leases : s'.leases.Shadows w.state.leases)
  /-- An agent that does not wait any more gets a lease. -/
  | grants (x : AgentId)
      (queue : ∀ v ∈ s'.waiting.waiters, v ∈ w.state.waiting.waiters ∧ v.agent ≠ x)
      (leases : ∀ l' ∈ s'.leases, l'.holder = x ∨ ∃ l ∈ w.state.leases,
        l'.resource = l.resource ∧ l'.holder = l.holder ∧ l'.mode = l.mode)
  /-- An agent that did not wait waits, and closes no ring of holders. -/
  | joins (c : Claim) (now : Time) (acts : op.acts = some (c.number, some now))
      (mem : c ∈ w.claims) (ticket : c.guard.ticket = none) (waits : 0 < c.args.waitSecs)
      (queue : ∀ v ∈ s'.waiting.waiters, v = newcomer w.state c now ∨ v ∈ w.state.waiting.waiters)
      (leases : s'.leases.Shadows w.state.leases)
      (ring : ¬ TransGen s'.WaitsFor (newcomer w.state c now).agent
        (newcomer w.state c now).agent)

theorem KeepsHolders.handed (h : KeepsHolders op) (l : Lease) : op.handed l = l.holder := by
  cases op with
  | resume handoff now =>
    have hmoves : handoff.moves now l = false := by
      rw [State.Handoff.moves, show handoff.transferLeases = false from h, Bool.false_and]
    show handoff.handed now l = l.holder
    rw [State.Handoff.handed, hmoves]
    rfl
  | _ => rfl

theorem Went.shift (hw : Went w op w') (hl : Linked w.state.waiting w.claims)
    (hown : Own w.claims) (hone : OneEach w) (hop : KeepsHolders op) :
    Shift w op w'.state := by
  have hsub : w.state.leases.Shadows w.state.leases := .of_subset fun _ h => h
  cases hw with
  | still | asked => exact .shrinks (fun _ hv => hv) hsub
  | aside _ aside =>
    refine .shrinks (fun v hv => aside.waiting ▸ hv) fun l' hl' => ?_
    obtain ⟨l, hmem, -, hres, hmode, hholder, -⟩ := aside.kept l' hl'
    rw [hop.handed, or_self] at hholder
    exact ⟨l, hmem, hres, hholder, hmode⟩
  | @turn _ _ c _ _ acts _ mem inFlight turn =>
    cases turn with
    | woke => exact .shrinks (fun _ hv => hv) hsub
    | read =>
      exact .shrinks (fun v hv => (WaitQueue.mem_leave.mp hv).1) hsub
    | ended passed _ _ _ ends =>
      refine .shrinks (fun v hv => ?_) (ends.leases ▸ passed.shadows)
      rw [ends.waiting, passed.waiting] at hv
      exact (Waiting.mem_left.mp hv).1
    | granted passed _ ticket _ _ _ _ takes _ ends =>
      refine .grants (c.seen w.state.env).holder (fun v hv => ?_) fun l' hl' => ?_
      · rw [ends.waiting.trans (congrArg (Waiting.left _) passed.waiting)] at hv
        obtain ⟨hv, hne⟩ := Waiting.mem_left.mp hv
        exact ⟨hv, hone.not_waiting hl hown mem inFlight hv (ticket ▸ hne)⟩
      · rw [ends.leases] at hl'
        rcases mem_insert.mp hl' with rfl | ⟨hl', -⟩
        · exact .inl takes.holder
        · exact .inr ⟨l', passed.kept l' hl', rfl, rfl, rfl⟩
    | deadlocked passed _ _ rings =>
      refine .shrinks (fun v hv => ?_) (rings.leases ▸ passed.shadows)
      rw [← passed.waiting]
      exact ((rings.queued v).mp hv).1
    | answered passed | waited passed =>
      exact .shrinks (fun v hv => passed.waiting ▸ hv) passed.shadows
    | @joined now s₁ s₂ _ _ _ _ _ _ _ passed unfenced refuses ticket waits rings clear
        joins =>
        have hsits := hl.sits c mem
        have hname := c.seen_requester w.state.env ticket (hsits.named inFlight ticket)
        have hnew : (⟨s₂.waiting.nextTicket, (c.seen w.state.env).guard.requester,
            c.guard.resource, c.args.mode, now, c.args.priority⟩ : Waiter) =
              newcomer w.state c now := by
          rw [newcomer, rings.nextTicket, passed.waiting, hname, hsits.resource]
        rw [hnew] at joins
        have hl₂ : Linked s₂.waiting w.claims := (passed.waiting ▸ hl).rings rings
        refine .joins c now acts mem ticket waits (fun v hv => ?_) ?_ ?_
        · rcases (joins.queued v).mp hv with rfl | hv
          · exact .inl rfl
          · rw [← passed.waiting]
            exact .inr ((rings.queued v).mp hv).1
        · rw [joins.leases, rings.leases]
          exact passed.shadows
        · exact hone.not_ring hl₂ hown mem inFlight ticket clear joins rfl

/-! ## No ring of holders -/

theorem Shift.acyclic (hs : Shift w op s') (h : Acyclic w.state.WaitsFor) :
    Acyclic s'.WaitsFor := by
  cases hs with
  | shrinks queue leases => exact h.mono fun a b => State.WaitsFor.mono queue leases
  | grants x queue leases =>
    refine h.add_vertex (x := x) (fun a b hab => ?_) fun hx => ?_
    · obtain ⟨v, hv, rfl, l', hl', rfl, hne, hov⟩ := hab
      rcases leases l' hl' with hx | ⟨l, hmem, hres, hholder, -⟩
      · exact .inr (.inr hx)
      · exact .inl ⟨v, (queue v hv).1, rfl, l, hmem, hholder.symm, hne, hres ▸ hov⟩
    · -- The agent that got the lease waits for nobody.
      obtain ⟨_, ⟨v, hv, hagent, -⟩, -⟩ := TransGen.head'_iff.mp hx
      exact (queue v hv).2 hagent
  | joins _ _ _ _ _ _ queue leases ring =>
    refine h.add_vertex (fun a b hab => ?_) ring
    obtain ⟨v, hv, rfl, l', hl', rfl, hne, hov⟩ := hab
    rcases queue v hv with rfl | hv
    · exact .inr (.inl rfl)
    · obtain ⟨l, hmem, hres, hholder, -⟩ := leases l' hl'
      exact .inl ⟨v, hv, rfl, l, hmem, hholder.symm, hne, hres ▸ hov⟩

/-- What a run of agents with one claim in flight each keeps. -/
structure Untangled (w : Service) : Prop where
  linked : Linked w.state.waiting w.claims
  own : Own w.claims
  acyclic : Acyclic w.state.WaitsFor

theorem Untangled.start (env : Env) (leases : LeaseTable) (faults : Nat → Option String) :
    Untangled (start env leases faults) where
  linked := .empty
  own c hc := absurd hc not_mem_empty
  acyclic a ha := by
    obtain ⟨_, ⟨_, hv, -⟩, -⟩ := TransGen.head'_iff.mp ha
    exact absurd hv not_mem_empty

theorem Untangled.step (h : Untangled w) (hone : OneEach w) (hop : KeepsHolders op) :
    Untangled (w.step op) where
  linked := (step_went w op).linked h.linked
  own := (step_went w op).own h.own h.linked hone
  acyclic := ((step_went w op).shift h.linked h.own hone hop).acyclic h.acyclic

theorem untangled_run {env : Env} {leases : LeaseTable} {faults : Nat → Option String}
    {ops : List Op} (hone : Always Service.step OneEach (start env leases faults) ops)
    (hops : ∀ op ∈ ops, KeepsHolders op) :
    Always Service.step Untangled (start env leases faults) ops :=
  always_of_each (.start env leases faults) (fun _ _ h hc => h.step hc.1 hc.2)
    (hone.each.and (.of_mem hops))

/-- Agents that each have one claim in flight never wait for each other in a
ring of holders, whatever the interleaving. -/
theorem no_ring_of_holders (env : Env) (leases : LeaseTable) (faults : Nat → Option String)
    (ops : List Op) (hone : Always Service.step OneEach (start env leases faults) ops)
    (hops : ∀ op ∈ ops, KeepsHolders op) :
    Always Service.step (fun w => Acyclic w.state.WaitsFor) (start env leases faults) ops :=
  (untangled_run hone hops).imp fun _ h => h.acyclic

/-- Two agents that hold a part of a directory each, and then want what the
other has: the second is refused. -/
def crossing : List Op :=
  [.request 1 ⟨"a"⟩ (.path "/src/a" .exclusive 0), .attempt 1 0 ⟨"l1"⟩,
    .request 2 ⟨"b"⟩ (.path "/src/b" .exclusive 0), .attempt 2 0 ⟨"l2"⟩,
    .request 3 ⟨"a"⟩ (.path "/src/b" .exclusive 60), .attempt 3 1 ⟨"l3"⟩,
    .request 4 ⟨"b"⟩ (.path "/src/a" .exclusive 60), .attempt 4 2 ⟨"l4"⟩]

theorem crossing_no_ring : Always Service.step (fun w => Acyclic w.state.WaitsFor)
      (start .everybody .empty fun _ => none) crossing :=
  no_ring_of_holders .everybody .empty (fun _ => none) crossing (by decide) (by decide)

/-! ## Rings that go through the queue -/

/-- Held up by a lease. -/
def ByLease (t : LeaseTable) (w v : Waiter) : Prop :=
  ∃ l ∈ t.rows, l.holder = v.agent ∧ l.blocks w.agent w.mode w.resource = true

/-- Held up by one who is ahead and in the way. -/
def ByQueue (w v : Waiter) : Prop := v.aheadOf w = true ∧ v.blocks w = true

def HeldUp (t : LeaseTable) (w v : Waiter) : Prop := ByLease t w v ∨ ByQueue w v

instance (t : LeaseTable) (w v : Waiter) : Decidable (HeldUp t w v) :=
  inferInstanceAs (Decidable ((∃ l ∈ t.rows, _) ∨ (_ ∧ _)))

def queued (q : WaitQueue) : Set Waiter := {v | v ∈ q.waiters}

/-- No group of waiting claims is stuck on itself. -/
def NobodyStuck (w : Service) : Prop :=
  ∀ S ⊆ queued w.state.waiting, ¬ Stuck (HeldUp w.state.leases) S

/-- Whether a claim that attempts, and may come to wait, would close no ring
that takes a step through the queue. -/
def ClosesNoQueueRing (w : Service) (op : Op) : Prop :=
  ∀ c ∈ w.claims, ∀ now, op.acts = some (c.number, some now) → c.guard.ticket = none →
    0 < c.args.waitSecs →
    let n := newcomer w.state c now
    let r := within (insert n (queued w.state.waiting)) (HeldUp w.state.leases)
    ¬ ∃ v u, ReflTransGen r n v ∧ (r v u ∧ ByQueue v u) ∧ ReflTransGen r u n

theorem ByLease.mono {t t' : LeaseTable} {w : Waiter} (h : ByLease t' w v)
    (hl : ∀ l' ∈ t', l'.holder = v.agent → ∃ l ∈ t, l'.resource = l.resource ∧
      l'.holder = l.holder ∧ l'.mode = l.mode) : ByLease t w v := by
  obtain ⟨l', hl', hholder, hblocks⟩ := h
  obtain ⟨l, hmem, hres, hhold, hmode⟩ := hl l' hl' hholder
  refine ⟨l, hmem, hhold ▸ hholder, ?_⟩
  rw [Lease.blocks_eq] at hblocks ⊢
  rwa [← hres, ← hhold, ← hmode]

theorem ByLease.waitsFor (h : within (queued s.waiting) (ByLease s.leases) v u) :
    s.WaitsFor v.agent u.agent := by
  obtain ⟨hv, -, l, hmem, hholder, hblocks⟩ := h
  obtain ⟨hne, hov, -⟩ := Lease.blocks_eq.mp hblocks
  exact ⟨v, hv, rfl, l, hmem, hholder, hholder ▸ hne, hov⟩

theorem Shift.unstuck (hs : Shift w op s')
    (h : Acyclic (within (queued w.state.waiting) (HeldUp w.state.leases)))
    (hop : ClosesNoQueueRing w op) :
    Acyclic (within (queued s'.waiting) (HeldUp s'.leases)) := by
  cases hs with
  | shrinks queue leases =>
    refine h.mono fun v u ⟨hv, hu, hvu⟩ => ⟨queue v hv, queue u hu, ?_⟩
    exact hvu.imp_left fun hlease => hlease.mono fun l' hl' _ => leases l' hl'
  | grants _ queue leases =>
    refine h.mono fun v u ⟨hv, hu, hvu⟩ => ⟨(queue v hv).1, (queue u hu).1, ?_⟩
    refine hvu.imp_left fun hlease => hlease.mono fun l' hl' hholder => ?_
    exact (leases l' hl').resolve_left fun hx => (queue u hu).2 (hholder.symm.trans hx)
  | joins c now acts mem ticket waits queue leases ring =>
    -- Every edge there is now was there for the newcomer to be checked against.
    have hmono : ∀ v u, within (queued s'.waiting) (HeldUp s'.leases) v u →
        within (insert (newcomer w.state c now) (queued w.state.waiting))
          (HeldUp w.state.leases) v u := by
      rintro v u ⟨hv, hu, hvu⟩
      refine ⟨queue v hv, queue u hu, ?_⟩
      exact hvu.imp_left fun hlease => hlease.mono fun l' hl' _ => leases l' hl'
    refine h.add_vertex (x := newcomer w.state c now) (fun v u hvu => ?_) fun hring => ?_
    · obtain ⟨hv, hu, hheld⟩ := hmono v u hvu
      rcases hv with rfl | hv
      · exact .inr (.inl rfl)
      · rcases hu with rfl | hu
        · exact .inr (.inr rfl)
        · exact .inl ⟨hv, hu, hheld⟩
    · have hsplit : TransGen (fun v u => within (queued s'.waiting) (ByLease s'.leases) v u ∨
          (within (queued s'.waiting) (HeldUp s'.leases) v u ∧ ByQueue v u))
          (newcomer w.state c now) (newcomer w.state c now) := by
        refine TransGen.mono (fun v u hvu => ?_) _ _ hring
        obtain ⟨hv, hu, hlease | hqueue⟩ := hvu
        · exact .inl ⟨hv, hu, hlease⟩
        · exact .inr ⟨⟨hv, hu, .inr hqueue⟩, hqueue⟩
      rcases transGen_or hsplit with hleases | ⟨v, u, hnv, ⟨hvu, hqueue⟩, hun⟩
      · exact ring (TransGen.lift Waiter.agent (fun v u => ByLease.waitsFor) _ _ hleases)
      · have hboth : ∀ v u, within (queued s'.waiting) (ByLease s'.leases) v u ∨
            (within (queued s'.waiting) (HeldUp s'.leases) v u ∧ ByQueue v u) →
            within (insert (newcomer w.state c now) (queued w.state.waiting))
              (HeldUp w.state.leases) v u := by
          rintro v u (⟨hv, hu, hlease⟩ | ⟨hvu, -⟩)
          · exact hmono v u ⟨hv, hu, .inl hlease⟩
          · exact hmono v u hvu
        exact hop c mem now acts ticket waits ⟨v, u, ReflTransGen.mono hboth _ _ hnv,
          ⟨hmono v u hvu, hqueue⟩, ReflTransGen.mono hboth _ _ hun⟩

/-- Among agents that each have one claim in flight, no group of waiting claims
is stuck on itself if no claim comes to wait that closes a ring through the
queue. -/
theorem nobody_stuck (env : Env) (leases : LeaseTable) (faults : Nat → Option String)
    (ops : List Op) (hone : Always Service.step OneEach (start env leases faults) ops)
    (hops : ∀ op ∈ ops, KeepsHolders op)
    (hrings : Each Service.step ClosesNoQueueRing (start env leases faults) ops) :
    Always Service.step NobodyStuck (start env leases faults) ops := by
  have halways : Always Service.step (fun w => Untangled w ∧
      Acyclic (within (queued w.state.waiting) (HeldUp w.state.leases)))
      (start env leases faults) ops := by
    refine always_of_each ⟨.start env leases faults, fun v hv => ?_⟩ (fun w op h hc => ?_)
      ((hone.each.and (.of_mem hops)).and hrings)
    · obtain ⟨_, ⟨hv, -⟩, -⟩ := TransGen.head'_iff.mp hv
      exact absurd hv not_mem_empty
    · have hshift := (step_went w op).shift h.1.linked h.1.own hc.1.1 hc.1.2
      exact ⟨h.1.step hc.1.1 hc.1.2, hshift.unstuck h.2 hc.2⟩
  refine halways.imp fun w h S hS => ?_
  exact h.2.not_stuck (List.finite_toSet w.state.waiting.waiters.rows) hS

/-- None of those queued is held up by the one that attempts. -/
def NobodyBehind (w : Service) (op : Op) : Prop :=
  ∀ t ∈ op.acts, ∀ now ∈ t.2, ∀ c ∈ w.claims.rows, c.number = t.1 →
    ∀ v ∈ w.state.waiting.waiters.rows, ¬ HeldUp w.state.leases v (newcomer w.state c now)

instance (w : Service) (op : Op) : Decidable (NobodyBehind w op) := by
  unfold NobodyBehind
  infer_instance

theorem not_heldUp_self {t : LeaseTable} : ¬ HeldUp t v v := by
  rintro (⟨_, -, hholder, hblocks⟩ | ⟨hahead, -⟩)
  · exact (Lease.blocks_eq.mp hblocks).1 hholder
  · rw [Waiter.aheadOf_iff] at hahead
    omega

/-- A ring comes back to its newcomer, through somebody held up by it. -/
theorem NobodyBehind.closesNoQueueRing (h : NobodyBehind w op) : ClosesNoQueueRing w op := by
  rintro c hc now hacts - - _ _ ⟨_, _, -, ⟨hvu, -⟩, hun⟩
  obtain ⟨x, -, hx, -, hheld⟩ := TransGen.tail'_iff.mp (TransGen.head' hvu hun)
  rcases hx with rfl | hx
  · exact not_heldUp_self hheld
  · exact h _ hacts now rfl c hc rfl x hx hheld

/-- Somebody who waits for a directory because of one file in it, and the holder
of that file, who then waits behind them for another: `v` for `w`'s lease, `w`
for `v`'s place. -/
def tangled : List Op :=
  [.request 1 ⟨"z"⟩ (.path "/a/z" .exclusive 0), .attempt 1 0 ⟨"l1"⟩,
    .request 2 ⟨"w"⟩ (.path "/a/x" .exclusive 0), .attempt 2 0 ⟨"l2"⟩,
    .request 3 ⟨"v"⟩ (.path "/a" .exclusive 60), .attempt 3 1 ⟨"l3"⟩,
    .request 4 ⟨"w"⟩ (.path "/a/z" .exclusive 60), .attempt 4 2 ⟨"l4"⟩]

/-- Two who hold nothing queue up behind `v` instead; then all goes on. -/
def queueing : List Op :=
  tangled.take 6 ++ [.request 4 ⟨"u"⟩ (.path "/a/z" .exclusive 60), .attempt 4 2 ⟨"l4"⟩,
      .request 5 ⟨"y"⟩ (.path "/a/x" .shared 60), .attempt 5 3 ⟨"l5"⟩,
      .release ⟨"z"⟩ ⟨"l1"⟩ ⟨0, none⟩, .release ⟨"w"⟩ ⟨"l2"⟩ ⟨0, none⟩,
      .wake 3 true, .attempt 3 4 ⟨"l6"⟩, .release ⟨"v"⟩ ⟨"l6"⟩ ⟨0, none⟩,
      .wake 4 true, .attempt 4 5 ⟨"l7"⟩]

theorem queueing_nobody_stuck :
    Always Service.step NobodyStuck (start .everybody .empty fun _ => none) queueing ∧
      (run Service.step (start .everybody .empty fun _ => none)
        (queueing.take 10)).state.waiting.waiters.rows.map Waiter.agent =
          [⟨"v"⟩, ⟨"u"⟩, ⟨"y"⟩] := by
  have hbehind : Each Service.step NobodyBehind (start .everybody .empty fun _ => none)
      queueing := by decide +kernel
  exact ⟨nobody_stuck .everybody .empty (fun _ => none) queueing (by decide +kernel) (by decide)
    (hbehind.imp fun _ _ => NobodyBehind.closesNoQueueRing), by decide +kernel⟩

theorem tangled_stuck : ¬ ∀ ops : List Op,
      Always Service.step OneEach (start .everybody .empty fun _ => none) ops →
      (∀ op ∈ ops, KeepsHolders op) →
      Always Service.step NobodyStuck (start .everybody .empty fun _ => none) ops := by
  intro h
  have hlast := (h tangled (by decide) (by decide)).last
  refine hlast {v | v ∈ (run Service.step (start .everybody .empty fun _ => none)
    tangled).state.waiting.waiters.rows} (fun v hv => hv) ⟨?_, ?_⟩
  · exact ⟨⟨0, ⟨"v"⟩, ⟨"path:/a"⟩, .exclusive, 1, 0⟩, by decide⟩
  · show ∀ v ∈ (run Service.step (start .everybody .empty fun _ => none)
      tangled).state.waiting.waiters.rows, ∃ u ∈ (run Service.step
        (start .everybody .empty fun _ => none) tangled).state.waiting.waiters.rows, _
    decide

end Service

end AgentDocker.Daemon
