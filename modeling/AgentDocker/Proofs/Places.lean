import AgentDocker.Proofs.Steps

/-!
# Claims and their places

A claim that waits holds a ticket, and the queue holds a waiter under it, or
the ring its wait was ended to break. `Linked` says that the two agree, in
both directions: no place without its claim, no ticket without a place or a
ring, and on every place what its claim asked for.
-/

namespace AgentDocker.Daemon

open AgentDocker.Core Lib

theorem Waiting.follow_of_ticket {g : Waiting} {requester : AgentId} (h : g.ticket ≠ none) :
    g.follow requester = g := by
  unfold Waiting.follow
  split
  · next hnone => exact absurd hnone h
  · rfl

namespace Claim

variable {c : Claim}

/-- A claim that waits keeps the name it waits under. -/
theorem seen_guard (env : Env) (h : c.guard.ticket ≠ none) : (c.seen env).guard = c.guard := by
  unfold seen followed
  split
  · rfl
  · split
    · split
      · exact Waiting.follow_of_ticket h
      · rfl
    · rfl

/-- A claim that does not wait yet would wait under its holder's name. -/
theorem seen_requester (env : Env) (h : c.guard.ticket = none)
    (hname : c.guard.requester = c.holder) :
    (c.seen env).guard.requester = (c.seen env).holder := by
  unfold seen followed Waiting.follow
  split
  · exact hname
  · split
    · split
      · rw [h]
      · exact hname
    · exact hname

end Claim

/-- What holds of a claim and the queue it may have a place in. -/
structure Sits (q : WaitQueue) (c : Claim) : Prop where
  held : ∀ t, c.guard.ticket = some t → q.Queued t ∨ q.RingBroken t
  waits : c.guard.ticket ≠ none → c.inFlight = true ∧ 0 < c.args.waitSecs
  wants : ∀ w ∈ q.waiters, c.guard.ticket = some w.ticket →
    w.agent = c.guard.requester ∧ w.resource = c.args.resource ∧ w.mode = c.args.mode ∧
      w.priority = c.args.priority ∧ c.askedAt ≤ w.ticket
  asked : c.askedAt ≤ q.nextTicket
  resource : c.guard.resource = c.args.resource
  named : c.inFlight = true → c.guard.ticket = none → c.guard.requester = c.holder

namespace Sits

variable {q q' : WaitQueue} {c : Claim} {t : Nat}

theorem lt_nextTicket (h : Sits q c) (ht : c.guard.ticket = some t) : t < q.nextTicket := by
  rcases h.held t ht with ⟨w, hw, rfl⟩ | ⟨b, hb, rfl⟩
  · exact q.fresh w hw
  · exact q.brokenFresh b hb

/-- A claim that holds no place sits with any queue. -/
theorem of_no_ticket (hticket : c.guard.ticket = none) (hasked : c.askedAt ≤ q.nextTicket)
    (hresource : c.guard.resource = c.args.resource)
    (hname : c.inFlight = true → c.guard.requester = c.holder) : Sits q c := by
  refine ⟨?_, fun h => absurd hticket h, ?_, hasked, hresource, fun hf _ => hname hf⟩
  · intro t ht
    rw [hticket] at ht
    cases ht
  · intro w _ ht
    rw [hticket] at ht
    cases ht

/-- A queue that keeps a claim's place, and adds none under its ticket. -/
theorem mono (h : Sits q c) (hnext : q.nextTicket ≤ q'.nextTicket)
    (hkept : ∀ t, c.guard.ticket = some t → q.Queued t ∨ q.RingBroken t →
      q'.Queued t ∨ q'.RingBroken t)
    (hold : ∀ w ∈ q'.waiters, c.guard.ticket = some w.ticket → w ∈ q.waiters) : Sits q' c where
  held t ht := hkept t ht (h.held t ht)
  waits := h.waits
  wants w hw ht := h.wants w (hold w hw ht) ht
  asked := h.asked.trans hnext
  resource := h.resource
  named := h.named

end Sits

/-- The queue and the claims agree on who waits. -/
structure Linked (q : WaitQueue) (claims : Keyed Claim.number) : Prop where
  sits : ∀ c ∈ claims, Sits q c
  placed : ∀ t, q.Queued t ∨ q.RingBroken t → ∃ c ∈ claims, c.guard.ticket = some t
  alone : ∀ c ∈ claims, ∀ d ∈ claims, ∀ t, c.guard.ticket = some t → d.guard.ticket = some t → c = d

variable {c c' : Claim} {q q' : WaitQueue}

/-- The claims of a table in which one was replaced. -/
theorem mem_replaced {claims : Keyed Claim.number} {d : Claim} (hc : c ∈ claims)
    (hnumber : c'.number = c.number) :
    d ∈ claims.insert c' ↔ d = c' ∨ (d ∈ claims ∧ d ≠ c) := by
  rw [Keyed.mem_insert, hnumber]
  refine or_congr_right (and_congr_right fun hd => not_congr ?_)
  exact ⟨fun h => Keyed.eq_of_key_eq hd hc h, congrArg _⟩

namespace Linked

variable {q q' : WaitQueue} {claims : Keyed Claim.number} {c c' : Claim}

theorem empty : Linked .new .empty where
  sits := by simp
  placed := by simp [WaitQueue.Queued, WaitQueue.RingBroken, WaitQueue.new]
  alone := by simp

/-- One claim more, without a place. -/
theorem request (h : Linked q claims) (hnew : ∀ d ∈ claims, d.number ≠ c.number)
    (hsits : Sits q c) (hticket : c.guard.ticket = none) : Linked q (claims.insert c) := by
  have hmem : ∀ d, d ∈ claims.insert c ↔ d = c ∨ d ∈ claims := by
    intro d
    rw [Keyed.mem_insert]
    exact or_congr_right (and_iff_left_of_imp fun hd => hnew d hd)
  have hold : ∀ d ∈ claims.insert c, ∀ t, d.guard.ticket = some t → d ∈ claims := by
    intro d hd t ht
    rcases (hmem d).mp hd with rfl | hd
    · rw [hticket] at ht
      cases ht
    · exact hd
  constructor
  · intro d hd
    rcases (hmem d).mp hd with rfl | hd
    · exact hsits
    · exact h.sits d hd
  · intro t ht
    obtain ⟨d, hd, hdt⟩ := h.placed t ht
    exact ⟨d, (hmem d).mpr (.inr hd), hdt⟩
  · intro d hd e he t hdt het
    exact h.alone d (hold d hd t hdt) e (hold e he t het) t hdt het

section

variable (h : Linked q claims) (hc : c ∈ claims)
include h hc

/-- One claim replaced, and the queue with it. -/
theorem replace (hnumber : c'.number = c.number)
    (hsits : Sits q' c') (hothers : ∀ d ∈ claims, d ≠ c → Sits q' d)
    (hplaced : ∀ t, q'.Queued t ∨ q'.RingBroken t → c'.guard.ticket = some t ∨
      (c.guard.ticket ≠ some t ∧ (q.Queued t ∨ q.RingBroken t)))
    (halone : ∀ t, c'.guard.ticket = some t → ∀ d ∈ claims, d ≠ c →
      d.guard.ticket ≠ some t) : Linked q' (claims.insert c') := by
  have hmem : ∀ d, d ∈ claims.insert c' ↔ d = c' ∨ (d ∈ claims ∧ d ≠ c) :=
    fun d => mem_replaced hc hnumber
  constructor
  · intro d hd
    rcases (hmem d).mp hd with rfl | ⟨hd, hne⟩
    · exact hsits
    · exact hothers d hd hne
  · intro t ht
    rcases hplaced t ht with hc't | ⟨hct, ht⟩
    · exact ⟨c', (hmem c').mpr (.inl rfl), hc't⟩
    · obtain ⟨d, hd, hdt⟩ := h.placed t ht
      refine ⟨d, (hmem d).mpr (.inr ⟨hd, ?_⟩), hdt⟩
      rintro rfl
      exact hct hdt
  · intro d hd e he t hdt het
    rcases (hmem d).mp hd with rfl | ⟨hd, hdc⟩
    · rcases (hmem e).mp he with rfl | ⟨he, hec⟩
      · rfl
      · exact absurd het (halone t hdt e he hec)
    · rcases (hmem e).mp he with heq | ⟨he, -⟩
      · exact absurd hdt (halone t (heq ▸ het) d hd hdc)
      · exact h.alone d hd e he t hdt het

/-- A claim goes on with the place it has. -/
theorem stay (hnumber : c'.number = c.number)
    (hsits : Sits q c') (hticket : c'.guard.ticket = c.guard.ticket) :
    Linked q (claims.insert c') := by
  refine h.replace hc hnumber hsits (fun d hd _ => h.sits d hd) (fun t ht => ?_)
    (fun t ht d hd hdc hdt => ?_)
  · by_cases hct : c.guard.ticket = some t
    · exact .inl (hticket.trans hct)
    · exact .inr ⟨hct, ht⟩
  · exact hdc (h.alone d hd c hc t hdt (hticket ▸ ht))

/-- A claim gives up the place it has. -/
theorem leave {g : Waiting}
    (hg : g.ticket = c.guard.ticket) {ring : Bool} (hfin : c.Finishes c' ring) :
    Linked (g.left q) (claims.insert c') := by
  have hsits : ∀ q : WaitQueue, c.askedAt ≤ q.nextTicket → Sits q c' := by
    intro q hq
    refine .of_no_ticket hfin.ticket (hfin.askedAt ▸ hq) ?_ fun hflight => ?_
    · rw [hfin.resource, hfin.args, (h.sits c hc).resource]
    · rw [hfin.finished] at hflight
      cases hflight
  have hsame : ∀ t, (g.left q).Queued t ∨ (g.left q).RingBroken t ↔
      (q.Queued t ∨ q.RingBroken t) ∧ c.guard.ticket ≠ some t := by
    intro t
    rw [Waiting.queued_left, Waiting.ringBroken_left, or_and_right, hg]
  have hnext := g.left_nextTicket q
  refine h.replace hc hfin.number (hsits _ (hnext ▸ (h.sits c hc).asked)) (fun d hd hdc => ?_)
    (fun t ht => .inr ?_) (fun t ht => ?_)
  · refine (h.sits d hd).mono hnext.ge (fun t hdt ht => ?_) fun w hw _ =>
      (Waiting.mem_left.mp hw).1
    -- Another claim's ticket is another ticket, and stays.
    exact (hsame t).mpr ⟨ht, fun hct => hdc (h.alone d hd c hc t hdt hct)⟩
  · obtain ⟨ht, hct⟩ := (hsame t).mp ht
    exact ⟨hct, ht⟩
  · rw [hfin.ticket] at ht
    cases ht

end

variable {more : List Event} {s s' : State}

/-- Rings are broken: places become rings to read. -/
theorem rings {ended : List Waiter} (h : Linked s.waiting claims)
    (hr : State.RingsBroken s s' ended more) :
    Linked s'.waiting claims := by
  have hsame : ∀ t, s'.waiting.Queued t ∨ s'.waiting.RingBroken t ↔
      s.waiting.Queued t ∨ s.waiting.RingBroken t := by
    intro t
    rw [hr.broken]
    constructor
    · rintro (⟨w, hw, rfl⟩ | hb | ⟨w, hw, rfl⟩)
      · exact .inl ⟨w, ((hr.queued w).mp hw).1, rfl⟩
      · exact .inr hb
      · exact .inl ⟨w, hr.victims w hw, rfl⟩
    · rintro (⟨w, hw, rfl⟩ | hb)
      · by_cases hend : w ∈ ended
        · exact .inr (.inr ⟨w, hend, rfl⟩)
        · exact .inl ⟨w, (hr.queued w).mpr ⟨hw, hend⟩, rfl⟩
      · exact .inr (.inl hb)
  refine ⟨fun d hd => ?_, fun t ht => h.placed t ((hsame t).mp ht), h.alone⟩
  refine (h.sits d hd).mono hr.nextTicket.ge (fun t _ ht => (hsame t).mpr ht) fun w hw _ => ?_
  exact ((hr.queued w).mp hw).1

/-- A claim takes a place. -/
theorem join {w : Waiter} (h : Linked s.waiting claims) (hc : c ∈ claims)
    (hct : c.guard.ticket = none) (hnumber : c'.number = c.number) (hj : State.Joined s s' w more)
    (hticket : c'.guard.ticket = some w.ticket) (hsits : Sits s'.waiting c') :
    Linked s'.waiting (claims.insert c') := by
  have hold : ∀ d ∈ claims, d.guard.ticket ≠ some w.ticket := by
    intro d hd hdt
    have := (h.sits d hd).lt_nextTicket hdt
    have := hj.ticket
    omega
  have hnone : ∀ t, c.guard.ticket ≠ some t := by simp [hct]
  refine h.replace hc hnumber hsits (fun d hd _ => ?_) (fun t ht => ?_)
    (fun t ht d hd _ hdt => ?_)
  · refine (h.sits d hd).mono (by rw [hj.nextTicket]; omega) (fun t _ ht => ?_)
      (fun v hv hdv => ?_)
    · rcases ht with ⟨v, hv, rfl⟩ | _
      · exact .inl ⟨v, (hj.queued v).mpr (.inr hv), rfl⟩
      · exact .inr (by unfold WaitQueue.RingBroken; rwa [hj.broken])
    · rcases (hj.queued v).mp hv with rfl | hv
      · exact absurd hdv (hold d hd)
      · exact hv
  · rcases ht with ⟨v, hv, rfl⟩ | hb
    · rcases (hj.queued v).mp hv with rfl | hv
      · exact .inl hticket
      · exact .inr ⟨hnone _, .inl ⟨v, hv, rfl⟩⟩
    · unfold WaitQueue.RingBroken at hb
      rw [hj.broken] at hb
      exact .inr ⟨hnone _, .inr hb⟩
  · rw [hticket] at ht
    exact hold d hd (hdt.trans ht.symm)

/-- What a claim keeps when it goes on under the name an attempt sees. -/
theorem Sits.seen {env : Env} (h : Sits q c) (hnumber : c'.args = c.args)
    (hasked : c'.askedAt = c.askedAt) (hholder : c'.holder = (c.seen env).holder)
    (hguard : c'.guard = (c.seen env).guard)
    (hflight : c.guard.ticket ≠ none → c'.inFlight = true) (hc : c.inFlight = true) :
    Sits q c' := by
  by_cases ht : c.guard.ticket = none
  · refine .of_no_ticket ?_ (hasked ▸ h.asked) ?_ fun _ => ?_
    · rw [hguard, c.seen_ticket, ht]
    · rw [hguard, c.seen_resource, h.resource, hnumber]
    · rw [hguard, hholder]
      exact c.seen_requester env ht (h.named hc ht)
  · rw [Claim.seen_guard env ht] at hguard
    have hwaits := h.waits ht
    refine ⟨hguard ▸ h.held, fun _ => ⟨hflight ht, hnumber ▸ hwaits.2⟩, ?_, hasked ▸ h.asked,
      ?_, fun _ hnone => absurd (hguard ▸ hnone) ht⟩
    · rw [hguard, hnumber, hasked]
      exact h.wants
    · rw [hguard, hnumber]
      exact h.resource

theorem turn {time : Option Time} (h : Linked s.waiting claims) (hc : c ∈ claims)
    (hflight : c.inFlight = true) (ht : State.Turn s c time s' c') :
    Linked s'.waiting (claims.insert c') := by
  have hsits := h.sits c hc
  cases ht with
  | woke =>
    refine h.stay hc rfl ?_ rfl
    exact { hsits with
      waits := fun ht => ⟨rfl, (hsits.waits ht).2⟩
      named := fun _ ht => hsits.named hflight ht }
  | read ticket _ finishes =>
    have hleft := h.leave hc rfl finishes
    rwa [Waiting.left, ticket] at hleft
  | ended passed ticket _ _ ends _ finishes =>
    rw [ends.waiting, passed.waiting]
    exact h.leave hc ticket finishes
  | granted passed _ ticket _ _ _ _ _ _ ends finishes =>
    rw [ends.waiting.trans (congrArg (Waiting.left _) passed.waiting)]
    exact h.leave hc ticket finishes
  | deadlocked passed _ ticket rings finishes =>
    rw [← passed.waiting] at h
    have hrings := h.rings rings
    have hleft := hrings.leave hc rfl finishes
    rwa [Waiting.left, ticket] at hleft
  | answered passed =>
    rw [passed.waiting]
    refine h.stay hc (c.seen_number _) ?_ (c.seen_ticket _)
    refine Sits.seen hsits (c.seen_args s.env) (c.seen_askedAt s.env) rfl rfl (fun ht => ?_)
      hflight
    have := (hsits.waits ht).2
    omega
  | waited passed =>
    rw [passed.waiting]
    refine h.stay hc (c.seen_number _) ?_ (c.seen_ticket _)
    exact Sits.seen hsits (c.seen_args s.env) (c.seen_askedAt s.env) rfl rfl (fun _ => rfl)
      hflight
  | joined passed _ _ ticket waits rings _ joins =>
    rw [← passed.waiting] at h
    have hrings := h.rings rings
    have hasked := (hrings.sits c hc).asked
    have hnext := joins.nextTicket
    refine hrings.join hc ticket (c.seen_number _) joins rfl
      ⟨fun t ht => ?_, fun _ => ⟨rfl, c.seen_args s.env ▸ waits⟩, fun w hw ht => ?_, ?_, ?_,
        fun _ hnone => absurd hnone (Option.some_ne_none _)⟩
    · exact .inl ⟨_, (joins.queued _).mpr (.inl rfl), Option.some.inj ht⟩
    · rcases (joins.queued w).mp hw with rfl | hw
      · rw [c.seen_args, c.seen_askedAt]
        exact ⟨rfl, hsits.resource, rfl, rfl, hasked⟩
      · have hold := WaitQueue.fresh _ w hw
        have hnew := Option.some.inj ht
        omega
    · rw [c.seen_askedAt]
      omega
    · rw [c.seen_args, c.seen_resource]
      exact hsits.resource

end Linked

/-! ## Arrivals -/

/-- Whoever is in a queue later was in it before, or has a ticket that had not
been handed out. -/
structure Arrivals (q q' : WaitQueue) : Prop where
  nextTicket : q.nextTicket ≤ q'.nextTicket
  old : ∀ v ∈ q'.waiters, v ∈ q.waiters ∨ q.nextTicket ≤ v.ticket

theorem Arrivals.of_subset (hnext : q'.nextTicket = q.nextTicket)
    (h : ∀ v ∈ q'.waiters, v ∈ q.waiters) : Arrivals q q' :=
  ⟨hnext.ge, fun v hv => .inl (h v hv)⟩

theorem Arrivals.refl (q : WaitQueue) : Arrivals q q := .of_subset rfl fun _ hv => hv

theorem Arrivals.left (g : Waiting) (q : WaitQueue) : Arrivals q (g.left q) :=
  .of_subset (g.left_nextTicket q) fun _ hv => (Waiting.mem_left.mp hv).1

/-- A ticket that is out of the queue stays out. -/
theorem Arrivals.not_queued (h : Arrivals q q') {t : Nat} (ht : t < q.nextTicket)
    (hq : ¬ q.Queued t) : ¬ q'.Queued t := by
  rintro ⟨v, hv, rfl⟩
  rcases h.old v hv with hv | _
  · exact hq ⟨v, hv, rfl⟩
  · omega

theorem turn_arrivals {s s' : State} {time : Option Time} (h : State.Turn s c time s' c') :
    Arrivals s.waiting s'.waiting := by
  cases h with
  | woke => exact .refl _
  | read =>
    exact .of_subset rfl fun v hv => (WaitQueue.mem_leave.mp hv).1
  | ended passed _ _ _ ends =>
    rw [ends.waiting, passed.waiting]
    exact .left _ _
  | granted passed _ _ _ _ _ _ _ _ ends =>
    rw [ends.waiting.trans (congrArg (Waiting.left _) passed.waiting)]
    exact .left _ _
  | deadlocked passed _ _ rings =>
    rw [← passed.waiting]
    exact .of_subset rings.nextTicket fun v hv => ((rings.queued v).mp hv).1
  | answered passed | waited passed =>
    rw [passed.waiting]
    exact .refl _
  | joined passed _ _ _ _ rings _ joins =>
    rw [← passed.waiting]
    have hnext := joins.nextTicket
    have hrings := rings.nextTicket
    refine ⟨by omega, fun v hv => ?_⟩
    rcases (joins.queued v).mp hv with rfl | hv
    · exact .inr hrings.ge
    · exact .inl ((rings.queued v).mp hv).1

namespace Service

/-- Whether a claim has a place in the queue. -/
def placed (w : Service) (c : Claim) : Bool :=
  c.guard.ticket.any fun t => decide (w.state.waiting.Queued t)

/-- No claim with a place in the queue acts while the daemon is fenced. -/
def EndsServing (w : Service) (op : Op) : Prop :=
  w.state.fenced = true → ∀ c ∈ w.claims.rows, op.holds w.state c = true → w.placed c = false

instance (w : Service) (op : Op) : Decidable (EndsServing w op) :=
  inferInstanceAs (Decidable (_ → ∀ c ∈ w.claims.rows, _ → _))

variable {op : Op} {w w' : Service}

theorem EndsServing.unfenced (h : EndsServing w op) {c : Claim} (hc : c ∈ w.claims)
    (hholds : op.holds w.state c = true) (t : Nat) (ht : c.guard.ticket = some t)
    (hq : w.state.waiting.Queued t) :
    w.state.fenced = false := by
  by_contra hf
  have hplaced := h (by simpa using hf) c hc hholds
  rw [placed, ht, Option.any_some, decide_eq_false_iff_not] at hplaced
  exact hplaced hq

theorem Went.arrivals (hw : Went w op w') : Arrivals w.state.waiting w'.state.waiting := by
  cases hw with
  | still | asked => exact .refl _
  | turn _ _ _ _ turn => exact turn_arrivals turn
  | aside _ aside =>
    rw [aside.waiting]
    exact .refl _

theorem Went.linked (hw : Went w op w') (h : Linked w.state.waiting w.claims) :
    Linked w'.state.waiting w'.claims := by
  cases hw with
  | still => exact h
  | asked new asked =>
    refine h.request new (.of_no_ticket asked.ticket asked.askedAt.le asked.resource ?_)
      asked.ticket
    exact fun _ => asked.requester
  | turn _ _ mem inFlight turn => exact h.turn mem inFlight turn
  | aside _ aside =>
    rw [aside.waiting]
    exact h

/-- In every run, the queue and the claims agree. -/
theorem linked_run (env : Env) (leases : LeaseTable) (faults : Nat → Option String)
    (ops : List Op) :
    Always step (fun w => Linked w.state.waiting w.claims) (start env leases faults) ops :=
  always_of_invariant Linked.empty fun w op h => (step_went w op).linked h

end Service

end AgentDocker.Daemon
