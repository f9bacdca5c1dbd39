import AgentDocker.Proofs.Places

/-!
# Nobody sleeps through their turn

A claim that was refused sleeps until an event says that what it waits for may
be free. So whatever unblocks it has to say so: a lease that leaves, a waiter
ahead that goes. `Heard` is that account of a hold, and every hold gives it but
two. A handoff moves a lease from hand to hand and announces it by an event no
sleeper listens to; and while the daemon is fenced a place is given up in
silence.
-/

namespace AgentDocker.Daemon

open AgentDocker.Core Lib

/-- The events `wait_for_release` returns on. -/
def EventKind.wakes (resource : ResourceKey) : EventKind → Bool
  | .leaseReleased lease => lease.resource.overlaps resource
  | .leaseExpired lease => lease.resource.overlaps resource
  | .leaseWaitEnded freed _ _ _ => freed.overlaps resource
  | _ => false

/-- Whether an event wakes everybody who waits for something that overlaps. -/
def EventKind.Frees (kind : EventKind) (freed : ResourceKey) : Prop :=
  ∀ resource, freed.overlaps resource = true → kind.wakes resource = true

namespace State

/-- Whether an attempt of this claim would be granted now: it is next in the
queue and no lease of another agent blocks it. -/
def wouldGrant (s : State) (c : Claim) : Bool :=
  s.storageError.isNone && !s.fenced && c.guard.ticket.any s.waiting.isNext &&
    (s.leases.inTheWay c.request).isEmpty

variable {c : Claim} {more : List Event} {time : Option Time} {s s' : State}

theorem wouldGrant_iff : s.wouldGrant c = true ↔ s.storageError = none ∧ s.fenced = false ∧
      c.guard.ticket ≠ none ∧ ¬ s.Refuses c := by
  have hfree : s.leases.inTheWay c.request = [] ↔
      ¬ ∃ l ∈ s.leases, l.blocks c.holder c.args.leaseMode c.args.resource = true := by
    rw [LeaseTable.inTheWay, List.filter_eq_nil_iff, not_exists]
    simp only [not_and]
    rfl
  unfold wouldGrant Refuses mayAttempt
  rw [not_or, ← hfree]
  cases c.guard.ticket <;> simp [and_assoc]

/-- The account a hold gives of what it takes away. -/
structure Heard (handed : Lease → AgentId) (s s' : State) (more : List Event) : Prop where
  published : s'.published = s.published ++ more
  latched : s.storageError ≠ none → s'.storageError ≠ none
  leases : ∀ l ∈ s.leases, (∃ l' ∈ s'.leases, l'.resource = l.resource ∧ l'.mode = l.mode ∧
      (l'.holder = l.holder ∨ l'.holder = handed l)) ∨
    s'.storageError ≠ none ∨ ∃ e ∈ more, e.kind.Frees l.resource
  waiters : ∀ v ∈ s.waiting.waiters, v ∈ s'.waiting.waiters ∨ s'.storageError ≠ none ∨
    ∃ e ∈ more, e.kind.Frees v.resource

theorem Heard.trans {s'' : State} {more' : List Event} (h : Heard Lease.holder s s' more)
    (h' : Heard Lease.holder s' s'' more') :
    Heard Lease.holder s s'' (more ++ more') where
  published := by rw [h'.published, h.published, List.append_assoc]
  latched hs := h'.latched (h.latched hs)
  leases l hl := by
    rcases h.leases l hl with ⟨l', hl', hres, hmode, hholder⟩ | hsaid
    · rcases h'.leases l' hl' with ⟨l'', hl'', hres', hmode', hholder'⟩ | hsaid
      · rw [or_self] at hholder hholder'
        exact .inl ⟨l'', hl'', hres'.trans hres, hmode'.trans hmode,
          .inl (hholder'.trans hholder)⟩
      · exact .inr (said_right (hres ▸ hsaid))
    · exact .inr (said_left h'.latched hsaid)
  waiters v hv := by
    rcases h.waiters v hv with hv | hsaid
    · exact (h'.waiters v hv).imp_right said_right
    · exact .inr (said_left h'.latched hsaid)

/-- A part of a hold that moves no lease. -/
theorem Heard.of_queue (h : Moved s s' more) (hleases : s'.leases = s.leases)
    (hwaiters : ∀ v ∈ s.waiting.waiters, v ∈ s'.waiting.waiters ∨ s'.storageError ≠ none ∨
      ∃ e ∈ more, e.kind.Frees v.resource) : Heard Lease.holder s s' more :=
  ⟨h.published, h.latched, fun l hl => .inl ⟨l, hleases ▸ hl, rfl, rfl, .inl rfl⟩, hwaiters⟩

theorem Aside.heard {handed : Lease → AgentId} (h : Aside time handed s s' more) :
    Heard handed s s' more where
  published := h.published
  latched := h.latched
  leases l hl := by
    rcases h.said l hl with hkept | herr | ⟨e, he, hk⟩
    · exact .inl hkept
    · exact .inr (.inl herr)
    · refine .inr (.inr ⟨e, he, fun resource hov => ?_⟩)
      rcases hk with hk | hk <;> rw [hk] <;> exact hov
  waiters v hv := .inl (h.waiting ▸ hv)

theorem Passed.heard (h : Passed time s s' more) : Heard Lease.holder s s' more :=
  h.aside.heard

theorem Joined.heard {w : Waiter} (h : Joined s s' w more) : Heard Lease.holder s s' more :=
  .of_queue h.toMoved h.leases fun v hv => .inl ((h.queued v).mpr (.inr hv))

theorem RingsBroken.heard {ended : List Waiter} (h : RingsBroken s s' ended more)
    (hf : s.fenced = false) :
    Heard Lease.holder s s' more := by
  refine .of_queue h.toMoved h.leases fun v hv => ?_
  by_cases hend : v ∈ ended
  · rcases h.said hf v hend with herr | ⟨e, he, hk⟩
    · exact .inr (.inl herr)
    · refine .inr (.inr ⟨e, he, fun resource hov => ?_⟩)
      rw [hk]
      exact hov
  · exact .inl ((h.queued v).mpr ⟨hv, hend⟩)

/-- A place given up is heard of where no fence is up. -/
theorem Ended.heard {g : Waiting} {outcome : WaitOutcome} (h : Ended g s s' outcome more)
    (hf : ∀ t, g.ticket = some t → s.waiting.Queued t → s.fenced = false)
    (hres : ∀ v ∈ s.waiting.waiters, g.ticket = some v.ticket → v.resource = g.resource) :
    Heard Lease.holder s s' more := by
  refine .of_queue h.toMoved h.leases fun v hv => ?_
  by_cases hg : g.ticket = some v.ticket
  · have hqueued : s.waiting.Queued v.ticket := ⟨v, hv, rfl⟩
    rcases h.said (hf _ hg hqueued) v.ticket hg hqueued with herr | ⟨e, he, hk⟩
    · exact .inr (.inl herr)
    · refine .inr (.inr ⟨e, he, fun resource hov => ?_⟩)
      rw [hk]
      exact hres v hv hg ▸ hov
  · rw [h.waiting]
    exact .inl (Waiting.mem_left.mpr ⟨hv, hg⟩)

/-- A lease granted takes no other lease's place, but that of the one it
renews. -/
theorem landed_heard {now : Time} {id : LeaseId} {lease : Lease} {kinds : List EventKind}
    (hid : ∀ l ∈ s.leases, l.id ≠ id) (takes : Takes c s.leases now id lease) :
    Heard Lease.holder s (s.landed kinds (·.insert lease) (·.restore lease))
      (s.numbered kinds) := by
  refine ⟨rfl, fun h => h, fun l hl => .inl ?_, fun v hv => .inl hv⟩
  by_cases heq : l.id = lease.id
  · rcases takes.named with ⟨hnew, -⟩ | ⟨k, hk, hkid, hres, hholder, hmode⟩
    · exact absurd (heq.trans hnew) (hid l hl)
    · rw [Keyed.eq_of_key_eq hl hk (heq.trans hkid.symm)]
      exact ⟨lease, Keyed.mem_insert.mpr (.inl rfl), hres.symm, hmode.symm, .inl hholder.symm⟩
  · exact ⟨l, Keyed.mem_insert.mpr (.inr ⟨hl, heq⟩), rfl, rfl, .inl rfl⟩

end State

namespace Service

variable {w w' : Service} {op : Op}

variable {c c' d : Claim} {handed : Lease → AgentId} {more : List Event} {t : Nat}
  {time : Option Time} {s s' : State} {q : WaitQueue} {u : Waiter}

theorem turn_heard (h : State.Turn s c time s' c') {claims : Keyed Claim.number}
    (hl : Linked s.waiting claims) (hc : c ∈ claims)
    (hserving : ∀ t, c.guard.ticket = some t → s.waiting.Queued t → s.fenced = false) :
    ∃ more, s.Heard Lease.holder s' more := by
  have hres : ∀ g : Waiting, g.ticket = c.guard.ticket → g.resource = c.guard.resource →
      ∀ v ∈ s.waiting.waiters, g.ticket = some v.ticket → v.resource = g.resource := by
    intro g hgt hgr v hv hg
    have hsits := hl.sits c hc
    rw [hgr, hsits.resource]
    exact (hsits.wants v hv (hgt ▸ hg)).2.1
  cases h with
  | woke => exact ⟨[], ((State.Passed.refl none s).inFlight _).heard⟩
  | @read _ _ _ _ _ broken =>
    refine ⟨[], .of_queue (.inMemory ..) rfl fun v hv => .inl ?_⟩
    -- A ring was broken at this wait, so its place is gone already.
    obtain ⟨b, hb, rfl⟩ := broken
    exact WaitQueue.mem_leave.mpr ⟨hv, s.waiting.apart v hv b hb⟩
  | ended passed ticket resource _ ends =>
    refine ⟨_, passed.heard.trans (ends.heard (fun t ht hq => ?_) ?_)⟩
    · rw [ticket] at ht
      rw [passed.waiting] at hq
      exact passed.fenced.trans (hserving t ht hq)
    · rw [passed.waiting]
      exact hres _ ticket resource
  | granted passed lands ticket resource _ _ fresh takes _ ends =>
    have hid := fun l hl => fresh l (passed.kept l hl)
    refine ⟨_, (passed.heard.trans (State.landed_heard hid takes)).trans
      (ends.heard (fun _ _ _ => (State.lands_iff.mp lands).2.1) ?_)⟩
    have hwants := hres _ ticket resource
    rw [← passed.waiting] at hwants
    exact hwants
  | deadlocked passed unfenced _ rings =>
    exact ⟨_, passed.heard.trans (rings.heard (passed.fenced.trans unfenced))⟩
  | answered passed | waited passed => exact ⟨_, passed.heard⟩
  | joined passed unfenced _ _ _ rings _ joins =>
    exact ⟨_, (passed.heard.trans (rings.heard (passed.fenced.trans unfenced))).trans
      joins.heard⟩

/-! ## The account of a sleeper -/

/-- A claim that waits is still refused, or has been told. -/
structure Told (s : State) (c : Claim) : Prop where
  mark : c.mark ≤ s.published.length
  told : s.storageError = none → s.Refuses c ∨
    ∃ e ∈ s.published.drop c.mark, e.kind.wakes c.args.resource = true

/-- Not being next, told by a waiter who is. -/
theorem not_next {v : Waiter} (hv : v ∈ q.waiters) (hu : u ∈ q.waiters)
    (hahead : v.aheadOf u = true) (hblocks : v.blocks u = true) :
    q.isNext u.ticket = false := by
  rw [← Bool.not_eq_true, WaitQueue.isNext_iff hu]
  intro h
  rw [h v hv hahead] at hblocks
  cases hblocks

theorem exists_ahead (hu : u ∈ q.waiters) (h : q.isNext u.ticket = false) :
    ∃ v ∈ q.waiters, v.aheadOf u = true ∧ v.blocks u = true := by
  rw [← Bool.not_eq_true, WaitQueue.isNext_iff hu] at h
  push Not at h
  obtain ⟨v, hv, hahead, hblocks⟩ := h
  exact ⟨v, hv, hahead, by simpa using hblocks⟩

theorem isNext_of_not_queued (h : ¬ q.Queued t) : q.isNext t = false := by
  rw [← Bool.not_eq_true]
  exact fun hnext => h (WaitQueue.isNext_mem hnext)

/-- A refusal that ends is heard of by the claim refused. -/
theorem refuses_heard (h : s.Refuses d) (hh : s.Heard handed s' more)
    (ha : Arrivals s.waiting s'.waiting) (hsits : Sits s.waiting d) (hdt : d.guard.ticket = some t)
    (hhanded : ∀ l ∈ s.leases, l.blocks d.holder d.args.leaseMode d.args.resource = true →
      handed l ≠ d.holder) :
    s'.Refuses d ∨ s'.storageError ≠ none ∨ ∃ e ∈ more, e.kind.wakes d.args.resource = true := by
  rcases h with hmay | ⟨l, hl, hblocks⟩
  · rw [hdt] at hmay
    -- The waiter under the ticket afterwards, if any, is the one before.
    have hsame : ∀ u' ∈ s'.waiting.waiters, u'.ticket = t → u' ∈ s.waiting.waiters := by
      intro u' hu' ht
      rcases ha.old u' hu' with hu | hlate
      · exact hu
      · have := hsits.lt_nextTicket hdt
        omega
    have hrefuses : s'.waiting.isNext t = false → s'.Refuses d := by
      intro hnext
      left
      rw [hdt]
      exact hnext
    by_cases hq' : s'.waiting.Queued t
    · obtain ⟨u, hu', rfl⟩ := hq'
      have hu := hsame u hu' rfl
      obtain ⟨v, hv, hahead, hblocks⟩ := exists_ahead hu hmay
      rcases hh.waiters v hv with hv' | herr | ⟨e, he, hfrees⟩
      · exact .inl (hrefuses (not_next hv' hu' hahead hblocks))
      · exact .inr (.inl herr)
      · refine .inr (.inr ⟨e, he, hfrees _ ?_⟩)
        rw [Waiter.blocks, Bool.and_eq_true] at hblocks
        rw [← (hsits.wants u hu hdt).2.1]
        exact hblocks.1
    · exact .inl (hrefuses (isNext_of_not_queued hq'))
  · have hb := Lease.blocks_eq.mp hblocks
    rcases hh.leases l hl with ⟨l', hl', hres, hmode, hholder⟩ | herr | ⟨e, he, hfrees⟩
    · refine .inl (.inr ⟨l', hl', Lease.blocks_eq.mpr ⟨?_, hres ▸ hb.2.1, hmode ▸ hb.2.2⟩⟩)
      rcases hholder with hholder | hholder
      · rw [hholder]
        exact hb.1
      · rw [hholder]
        exact hhanded l hl hblocks
    · exact .inr (.inl herr)
    · exact .inr (.inr ⟨e, he, hfrees _ hb.2.1⟩)

theorem Told.heard (h : Told s d) (hh : s.Heard handed s' more) (ha : Arrivals s.waiting s'.waiting)
    (hsits : Sits s.waiting d) (hdt : d.guard.ticket = some t)
    (hhanded : ∀ l ∈ s.leases, l.blocks d.holder d.args.leaseMode d.args.resource = true →
      handed l ≠ d.holder) : Told s' d := by
  have hdrop : s'.published.drop d.mark = s.published.drop d.mark ++ more := by
    rw [hh.published, List.drop_append_of_le_length h.mark]
  constructor
  · rw [hh.published, List.length_append]
    exact h.mark.trans (Nat.le_add_right _ _)
  · intro hs'
    have hs : s.storageError = none := by
      by_contra herr
      exact hh.latched herr hs'
    rw [hdrop]
    rcases h.told hs with hrefuses | ⟨e, he, hwakes⟩
    · rcases refuses_heard hrefuses hh ha hsits hdt hhanded with hr | herr | ⟨e, he, hwakes⟩
      · exact .inl hr
      · exact absurd hs' herr
      · exact .inr ⟨e, List.mem_append_right _ he, hwakes⟩
    · exact .inr ⟨e, List.mem_append_left _ he, hwakes⟩

/-- Whether no waiting claim is handed the very lease that is in its way. -/
def HandsPast (w : Service) (op : Op) : Prop :=
  ∀ c ∈ w.claims.rows, c.guard.ticket ≠ none → ∀ l ∈ w.state.leases.rows,
    l.blocks c.holder c.args.leaseMode c.args.resource = true → op.handed l ≠ c.holder

instance (w : Service) (op : Op) : Decidable (HandsPast w op) :=
  inferInstanceAs (Decidable (∀ c ∈ w.claims.rows, _ → ∀ l ∈ w.state.leases.rows, _))

def AllTold (w : Service) : Prop :=
  ∀ c ∈ w.claims, c.guard.ticket ≠ none → Told w.state c

/-- A claim that goes on waiting after its own hold was refused in it. -/
theorem turn_told (h : State.Turn s c time s' c') (hsits : Sits s.waiting c)
    (htold : c.guard.ticket ≠ none → Told s c) (hticket : c'.guard.ticket ≠ none) :
    Told s' c' := by
  cases h with
  | woke => exact ⟨(htold hticket).mark, (htold hticket).told⟩
  | read _ _ finishes | ended _ _ _ _ _ _ finishes | granted _ _ _ _ _ _ _ _ _ _ finishes
  | deadlocked _ _ _ _ finishes =>
    exact absurd finishes.ticket hticket
  | answered =>
    have := (hsits.waits (by simpa using hticket)).2
    omega
  | waited _ _ refuses => exact ⟨le_rfl, fun _ => .inl refuses⟩
  | joined _ _ refuses ticket _ rings _ joins =>
    refine ⟨le_rfl, fun _ => .inl (.inr ?_)⟩
    rcases refuses with hmay | hblocks
    · rw [c.seen_ticket, ticket] at hmay
      cases hmay
    · rw [joins.leases, rings.leases]
      exact hblocks

theorem Went.allTold (hw : Went w op w') (h : AllTold w) (hl : Linked w.state.waiting w.claims)
    (hserving : EndsServing w op) (hpast : HandsPast w op) : AllTold w' := by
  have hsome : ∀ d : Claim, d.guard.ticket ≠ none → ∃ t, d.guard.ticket = some t :=
    fun d => Option.ne_none_iff_exists'.mp
  have harrivals := hw.arrivals
  cases hw with
  | still => exact h
  | asked _ asked =>
    intro d hd ht
    rcases Keyed.mem_insert.mp hd with rfl | ⟨hd, -⟩
    · exact absurd asked.ticket ht
    · exact ⟨(h d hd ht).mark, (h d hd ht).told⟩
  | @turn _ _ c _ _ _ holds mem _ turn =>
    obtain ⟨more, hheard⟩ := turn_heard turn hl mem (hserving.unfenced mem holds)
    intro d hd ht
    rcases Keyed.mem_insert.mp hd with rfl | ⟨hd, -⟩
    · exact turn_told turn (hl.sits c mem) (h c mem) ht
    · obtain ⟨t, hdt⟩ := hsome d ht
      refine (h d hd ht).heard hheard harrivals (hl.sits d hd) hdt fun l _ hblocks => ?_
      exact (Lease.blocks_eq.mp hblocks).1
  | aside _ aside =>
    intro d hd ht
    obtain ⟨t, hdt⟩ := hsome d ht
    exact (h d hd ht).heard aside.heard harrivals (hl.sits d hd) hdt fun l hl' =>
      hpast d hd ht l hl'

/-- Whoever would be granted their claim has been woken since it was refused. -/
def NoLostWakeUp (w : Service) : Prop :=
  ∀ c ∈ w.claims.rows, w.state.wouldGrant c = true →
    ∃ e ∈ w.state.published.drop c.mark, e.kind.wakes c.args.resource = true

instance : DecidablePred NoLostWakeUp := fun w =>
  inferInstanceAs (Decidable (∀ c ∈ w.claims.rows, _ → ∃ e ∈ w.state.published.drop c.mark, _))

/-- No wake-up is lost in a run in which no waiting claim is handed the lease
it waits for, and no place in the queue is given up behind the fence. -/
theorem no_lost_wake_up (env : Env) (leases : LeaseTable) (faults : Nat → Option String)
    (ops : List Op) (hserving : Each Service.step EndsServing (start env leases faults) ops)
    (hpast : Each Service.step HandsPast (start env leases faults) ops) :
    Always Service.step NoLostWakeUp (start env leases faults) ops := by
  have halways : Always Service.step (fun w => Linked w.state.waiting w.claims ∧ AllTold w)
      (start env leases faults) ops := by
    refine always_of_each ⟨.empty, fun c hc => absurd hc Keyed.not_mem_empty⟩
      (fun w op h hc => ?_) (hserving.and hpast)
    have hwent := step_went w op
    exact ⟨hwent.linked h.1, hwent.allTold h.2 h.1 hc.1 hc.2⟩
  refine halways.imp fun w h c hc hgrant => ?_
  obtain ⟨hsound, -, hticket, hfree⟩ := State.wouldGrant_iff.mp hgrant
  exact ((h.2 c hc hticket).told hsound).resolve_left hfree

/-- A claim that waits for a lease until its holder releases it. -/
def released : List Op :=
  [.request 1 ⟨"a"⟩ (.path "/src" .exclusive 0), .attempt 1 0 ⟨"l1"⟩,
    .request 2 ⟨"b"⟩ (.path "/src/main.rs" .exclusive 60), .attempt 2 1 ⟨"l2"⟩,
    .release ⟨"a"⟩ ⟨"l1"⟩ ⟨0, none⟩]

theorem released_no_lost_wake_up :
    Always Service.step NoLostWakeUp (start .everybody .empty fun _ => none) released :=
  no_lost_wake_up .everybody .empty (fun _ => none) released (by decide) (by decide)

/-- The same, with a handoff of the lease in place of its release. -/
def handedTo : List Op :=
  released.take 4 ++ [.resume ⟨"checkpoint", ⟨"a"⟩, ⟨"b"⟩, [⟨"l1"⟩], true, none⟩ 2]

theorem handedTo_lost_wake_up : ¬ ∀ ops : List Op,
      Always Service.step NoLostWakeUp (start .everybody .empty fun _ => none) ops := by
  intro h
  exact absurd (h handedTo).last (by decide)

/-- The one ahead gives up behind the fence of a handover that is then aborted,
and the one behind, whom no lease blocks any more, is not told. -/
def leftInSilence : List Op :=
  [.request 1 ⟨"a"⟩ (.path "/src/a" .exclusive 0), .attempt 1 0 ⟨"l1"⟩,
    .request 2 ⟨"d"⟩ (.path "/src/d" .exclusive 0), .attempt 2 0 ⟨"l2"⟩,
    .request 3 ⟨"b"⟩ (.path "/src" .exclusive 60), .attempt 3 1 ⟨"l3"⟩,
    .request 4 ⟨"c"⟩ (.path "/src/d" .exclusive 90), .attempt 4 2 ⟨"l4"⟩,
    .release ⟨"d"⟩ ⟨"l2"⟩ ⟨0, none⟩, .wake 4 true, .attempt 4 3 ⟨"l5"⟩,
    .offer "reload" 2, .wake 3 false, .abort "successor failed"]

example : ¬ NoLostWakeUp (run step (start .everybody .empty fun _ => none) leftInSilence) := by
  decide

end Service

end AgentDocker.Daemon
