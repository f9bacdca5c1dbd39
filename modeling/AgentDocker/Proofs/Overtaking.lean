import AgentDocker.Proofs.Places

/-!
# Nobody is overtaken

A claim with a ticket attempts only when it is next, so it takes its lease from
nobody who stands ahead of it. A claim without one always attempts: whatever is
free it takes, and if somebody has been waiting for that and a little more, they
are overtaken.
-/

namespace AgentDocker.Daemon

open AgentDocker.Core Lib

/-- Whether a waiter would be overtaken by this claim if `holder` were granted
it: another agent's, who joined before the claim was asked for, with the same
or a higher priority, and one of the two excludes the other. -/
def Claim.Overtakes (c : Claim) (holder : AgentId) (v : Waiter) : Prop :=
  v.agent ≠ holder ∧ v.ticket < c.askedAt ∧ c.args.priority ≤ v.priority ∧
    v.resource.overlaps c.args.resource = true ∧
    (v.mode = .exclusive ∨ c.args.mode = .exclusive)

instance (c : Claim) (holder : AgentId) : DecidablePred (c.Overtakes holder) := fun v =>
  inferInstanceAs (Decidable (v.agent ≠ holder ∧ _))

/-- A lease that is new after a claim's hold was granted to it: it was its turn,
and no live lease was in its way. -/
theorem turn_new {s s' : State} {c c' : Claim} {time : Option Time} {l : Lease}
    (h : State.Turn s c time s' c') (hl : l ∈ s'.leases) (hnew : ∀ k ∈ s.leases, k.id ≠ l.id) :
    l.holder = (c.seen s.env).holder ∧ s.mayAttempt c.guard.ticket = true ∧
      ∃ now, time = some now ∧ ∀ k ∈ s.leases, k.isExpired now = false →
        k.blocks (c.seen s.env).holder c.args.leaseMode c.args.resource = false := by
  have hold : l ∉ s.leases := fun hmem => hnew l hmem rfl
  cases h with
  | woke | read => exact absurd hl hold
  | ended passed _ _ _ ends =>
    rw [ends.leases] at hl
    exact absurd (passed.kept l hl) hold
  | granted passed _ _ _ _ may _ takes _ ends =>
    rw [ends.leases] at hl
    rcases Keyed.mem_insert.mp hl with rfl | ⟨hl, -⟩
    · refine ⟨takes.holder, ?_, _, rfl, fun k hk hlive => ?_⟩
      · unfold State.mayAttempt at may ⊢
        rwa [passed.waiting] at may
      · rcases takes.named with ⟨-, hfree⟩ | ⟨k', hk', hid, -⟩
        · have := hfree k (passed.unexpired k hk (by simpa using hlive)) hlive
          rwa [c.seen_args] at this
        · exact absurd hid (hnew k' (passed.kept k' hk'))
    · exact absurd (passed.kept l hl) hold
  | deadlocked passed _ _ rings =>
    rw [rings.leases] at hl
    exact absurd (passed.kept l hl) hold
  | answered passed | waited passed => exact absurd (passed.kept l hl) hold
  | joined passed _ _ _ _ rings _ joins =>
    rw [joins.leases, rings.leases] at hl
    exact absurd (passed.kept l hl) hold

/-- Whoever is next has nobody to overtake. -/
theorem not_overtakes_of_next {q : WaitQueue} {c : Claim} {t : Nat} (hsits : Sits q c)
    (hct : c.guard.ticket = some t) (hnext : q.isNext t = true) {v : Waiter} (hv : v ∈ q.waiters)
    {holder : AgentId} : ¬ c.Overtakes holder v := by
  rintro ⟨-, _, _, hov, hmode⟩
  obtain ⟨u, hu, rfl⟩ := WaitQueue.isNext_mem hnext
  obtain ⟨-, hres, humode, _, _⟩ := hsits.wants u hu hct
  have hahead : v.aheadOf u = true := by
    rw [Waiter.aheadOf_iff]
    omega
  have hfree := (WaitQueue.isNext_iff hu).mp hnext v hv hahead
  simp only [Waiter.blocks, hres, humode, hov, Bool.true_and, Bool.or_eq_false_iff,
    beq_eq_false_iff_ne] at hfree
  exact hmode.elim hfree.1 hfree.2

namespace Service

/-- A claim granted a lease nobody had before overtakes no waiter. -/
def NoOvertaking (w : Service) (op : Op) : Prop :=
  ∀ c ∈ w.claims.rows, op.holds w.state c = true → ∀ l ∈ (w.step op).state.leases.rows,
    w.state.leases.get? l.id = none → ∀ v ∈ w.state.waiting.waiters.rows, ¬ c.Overtakes l.holder v

/-- A first attempt that no live lease is in the way of has no waiter to
overtake. -/
def FirstInTurn (w : Service) (op : Op) : Prop :=
  ∀ c ∈ w.claims.rows, op.holds w.state c = true → c.guard.ticket = none → ∀ now ∈ op.time,
      (∃ l ∈ w.state.leases.rows, l.isExpired now = false ∧
        l.blocks (c.seen w.state.env).holder c.args.leaseMode c.args.resource = true) ∨
      ∀ v ∈ w.state.waiting.waiters.rows, ¬ c.Overtakes (c.seen w.state.env).holder v

instance (w : Service) (op : Op) : Decidable (NoOvertaking w op) :=
  inferInstanceAs (Decidable (∀ c ∈ w.claims.rows, _ → ∀ l ∈ (w.step op).state.leases.rows,
    _ → ∀ v ∈ w.state.waiting.waiters.rows, _))

instance (w : Service) (op : Op) : Decidable (FirstInTurn w op) :=
  inferInstanceAs (Decidable (∀ c ∈ w.claims.rows, _ → _ → ∀ now ∈ op.time, _))

theorem FirstInTurn.noOvertaking {w : Service} {op : Op}
    (hl : Linked w.state.waiting w.claims) (h : FirstInTurn w op) : NoOvertaking w op := by
  intro c hc hholds l hmem hnew v hv
  obtain ⟨_, _, _, hacts, hturn, hstep⟩ := step_of_holds hc hholds
  rw [hstep] at hmem
  obtain ⟨hholder, hmay, now, rfl, hfree⟩ := turn_new hturn hmem (Keyed.get?_eq_none.mp hnew)
  cases hct : c.guard.ticket with
  | none =>
    rcases h c hc hholds hct now (Op.time_of_acts hacts) with ⟨k, hk, hlive, hblocks⟩ | hnone
    · rw [hfree k hk hlive] at hblocks
      cases hblocks
    · rw [hholder]
      exact hnone v hv
  | some =>
    rw [hct] at hmay
    exact not_overtakes_of_next (hl.sits c hc) hct hmay hv

/-- Nobody is overtaken in a run in which every first attempt that could be
granted is made when no waiter is there to be overtaken. -/
theorem no_overtaking (env : Env) (leases : LeaseTable) (faults : Nat → Option String)
    (ops : List Op) (h : Each step FirstInTurn (start env leases faults) ops) :
    Each step NoOvertaking (start env leases faults) ops :=
  ((linked_run env leases faults ops).each.and h).imp fun _ _ h => h.2.noOvertaking h.1

/-- One waits for a directory because of a file in it, another takes a file
elsewhere, and then the file is released. -/
def inTurn : List Op :=
  [.request 1 ⟨"a"⟩ (.path "/src/a" .exclusive 0), .attempt 1 0 ⟨"l1"⟩,
    .request 2 ⟨"b"⟩ (.path "/src" .exclusive 60), .attempt 2 1 ⟨"l2"⟩,
    .request 3 ⟨"c"⟩ (.path "/doc" .exclusive 60), .attempt 3 2 ⟨"l3"⟩,
    .release ⟨"a"⟩ ⟨"l1"⟩ ⟨0, none⟩, .wake 2 true, .attempt 2 3 ⟨"l4"⟩]

theorem inTurn_no_overtaking :
    Each step NoOvertaking (start .everybody .empty fun _ => none) inTurn :=
  no_overtaking .everybody .empty (fun _ => none) inTurn (by decide)

/-- The same, but the third takes another file of the directory. -/
def pastTheQueue : List Op :=
  inTurn.take 4 ++ [.request 3 ⟨"c"⟩ (.path "/src/c" .exclusive 60), .attempt 3 2 ⟨"l3"⟩]

theorem pastTheQueue_overtakes :
    ¬ ∀ ops : List Op, Each step NoOvertaking (start .everybody .empty fun _ => none) ops := by
  intro h
  exact absurd (h pastTheQueue) (by decide)

end Service

end AgentDocker.Daemon
