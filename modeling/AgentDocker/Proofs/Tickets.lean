import AgentDocker.Proofs.Places

/-!
# Every wait ends once

Whoever takes a ticket is in the queue until a hold takes it out, and that hold
says so: in the claim's own answer, when its client goes away, or when another
claim breaks a ring at it. The account of it is kept part by part of a hold
(`Counts`), and what it comes to is that a ticket which is out stays as it is
(`Keeps`).

The one part that keeps no account is a place given up behind the fence: the
event that would say so is skipped with every other write.
-/

namespace AgentDocker.Daemon

open AgentDocker.Core Lib Keyed

namespace State

/-- Who is in the queue has not been said to end, and who is out has, once. -/
structure Tallied (s : State) : Prop where
  waits : ∀ t, s.waiting.Queued t ∨ s.waiting.nextTicket ≤ t → endings s.published t = []
  ended : ∀ t < s.waiting.nextTicket, ¬ s.waiting.Queued t → (endings s.published t).length = 1
  broken : ∀ t, s.waiting.RingBroken t → endings s.published t = [.deadlock]

/-- A part of a hold that says of every wait it ends that it ended. -/
structure Counts (s s' : State) (more : List Event) : Prop where
  published : s'.published = s.published ++ more
  arrivals : Arrivals s.waiting s'.waiting
  joins : ∀ t < s'.waiting.nextTicket, s.waiting.nextTicket ≤ t → s'.waiting.Queued t
  ends : ∀ t, s.waiting.Queued t → ¬ s'.waiting.Queued t → (endings more t).length = 1
  quiet : ∀ t, (s.waiting.Queued t → s'.waiting.Queued t) → endings more t = []
  broken : ∀ t, s'.waiting.RingBroken t → s.waiting.RingBroken t ∨ endings more t = [.deadlock]

/-- A part of a hold that keeps the account, and whatever is settled in it. -/
structure Keeps (s s' : State) : Prop where
  tallied : s.Tallied → s'.Tallied
  nextTicket : s.waiting.nextTicket ≤ s'.waiting.nextTicket
  settled : ∀ t < s.waiting.nextTicket, ¬ s.waiting.Queued t →
    ¬ s'.waiting.Queued t ∧ endings s'.published t = endings s.published t ∧
      (s'.waiting.RingBroken t → s.waiting.RingBroken t)

variable {c c' : Claim} {t : Nat} {time : Option Time} {s s' : State} {q : WaitQueue}

theorem Keeps.trans {s'' : State} (h : Keeps s s') (h' : Keeps s' s'') :
    Keeps s s'' where
  tallied hs := h'.tallied (h.tallied hs)
  nextTicket := h.nextTicket.trans h'.nextTicket
  settled t ht hq := by
    obtain ⟨hq', hsame, hbroken⟩ := h.settled t ht hq
    obtain ⟨hq'', hsame', hbroken'⟩ := h'.settled t (ht.trans_le h.nextTicket) hq'
    exact ⟨hq'', hsame'.trans hsame, fun hb => hbroken (hbroken' hb)⟩

theorem not_queued_of_le (h : q.nextTicket ≤ t) : ¬ q.Queued t := by
  rintro ⟨w, hw, rfl⟩
  have := q.fresh w hw
  omega

theorem not_queued_of_broken (h : q.RingBroken t) : ¬ q.Queued t := by
  obtain ⟨b, hb, rfl⟩ := h
  rintro ⟨w, hw, heq⟩
  exact q.apart w hw b hb heq

section Counts

variable {s s' : State} {more : List Event}

variable {t : Nat} {time : Option Time}

theorem Counts.silent (h : Counts s s' more) (hq : ¬ s.waiting.Queued t) : endings more t = [] :=
  h.quiet t fun hq' => absurd hq' hq

theorem Counts.tallied (h : Counts s s' more) (hs : s.Tallied) : s'.Tallied := by
  constructor
  · intro t ht
    rw [h.published, endings_append]
    rcases ht with hq' | hnext
    · rw [h.quiet t fun _ => hq', hs.waits t, List.append_nil]
      obtain ⟨v, hv, rfl⟩ := hq'
      rcases h.arrivals.old v hv with hv | hlate
      · exact .inl ⟨v, hv, rfl⟩
      · exact .inr hlate
    · have hle := h.arrivals.nextTicket.trans hnext
      rw [h.silent (not_queued_of_le hle), hs.waits t (.inr hle), List.append_nil]
  · intro t ht hq'
    rw [h.published, endings_append, List.length_append]
    have hlt : t < s.waiting.nextTicket := by
      by_contra hle
      exact hq' (h.joins t ht (by omega))
    by_cases hq : s.waiting.Queued t
    · rw [hs.waits t (.inl hq), h.ends t hq hq', List.length_nil]
    · rw [hs.ended t hlt hq, h.silent hq, List.length_nil]
  · intro t hb
    rw [h.published, endings_append]
    rcases h.broken t hb with hb | hmore
    · rw [hs.broken t hb, h.silent (not_queued_of_broken hb), List.append_nil]
    · have hq : s.waiting.Queued t := by
        by_contra hq
        rw [h.silent hq] at hmore
        cases hmore
      rw [hs.waits t (.inl hq), hmore, List.nil_append]

theorem Counts.keeps (h : Counts s s' more) : Keeps s s' := by
  refine ⟨h.tallied, h.arrivals.nextTicket, fun t ht hq => ⟨h.arrivals.not_queued ht hq, ?_, ?_⟩⟩
  · rw [h.published, endings_append, h.silent hq, List.append_nil]
  · intro hb
    refine (h.broken t hb).resolve_right fun hmore => ?_
    rw [h.silent hq] at hmore
    cases hmore

/-- Whatever leaves the queue alone and ends no wait. -/
theorem Counts.of_quiet (hp : s'.published = s.published ++ more)
    (hw : s'.waiting = s.waiting) (hq : Quiet more) : Counts s s' more where
  published := hp
  arrivals := hw ▸ .refl _
  joins t ht hle := by
    rw [hw] at ht
    omega
  ends t hqt hqt' := absurd (hw ▸ hqt) hqt'
  quiet t _ := hq.endings t
  broken t hb := .inl (hw ▸ hb)

theorem Passed.keeps (h : Passed time s s' more) : Keeps s s' :=
  (Counts.of_quiet h.published h.waiting h.quiet).keeps

theorem Aside.keeps {handed : Lease → AgentId} (h : Aside time handed s s' more) : Keeps s s' :=
  (Counts.of_quiet h.published h.waiting h.quiet).keeps

theorem landed_healthy (hl : s.lands = true) (hf : ∀ n, s.store.faults n = none)
    {kinds : List EventKind} {write apply : LeaseTable → LeaseTable} :
    (s.landed kinds write apply).Healthy :=
  ⟨hf, (lands_iff.mp hl).1, (lands_iff.mp hl).2.1⟩

theorem landed_keeps (hl : s.lands = true) {kind : EventKind} (hkind : ∀ t, kind.ends t = none)
    {write apply : LeaseTable → LeaseTable} : Keeps s (s.landed [kind] write apply) := by
  have hsent : s.sent [kind] = s.numbered [kind] := if_pos hl
  have hcounts : Counts s (s.landed [kind] write apply) (s.sent [kind]) :=
    .of_quiet (by rw [hsent]; rfl) rfl (sent_quiet (by simpa using hkind))
  exact hcounts.keeps

theorem RingsBroken.keeps {ended : List Waiter} (h : RingsBroken s s' ended more)
    (hs : s.Healthy) : Keeps s s' := by
  have hends : ∀ t, s.waiting.Queued t → (¬ s'.waiting.Queued t ↔ ∃ w ∈ ended, w.ticket = t) := by
    rintro _ ⟨w, hw, rfl⟩
    constructor
    · intro hq'
      by_contra hend
      refine hq' ⟨w, (h.queued w).mpr ⟨hw, fun hmem => hend ⟨w, hmem, rfl⟩⟩, rfl⟩
    · rintro ⟨v, hv, heq⟩ ⟨u, hu, heq'⟩
      obtain ⟨hu, hnot⟩ := (h.queued u).mp hu
      have := eq_of_key_eq hu (h.victims v hv) (heq'.trans heq.symm)
      exact hnot (this ▸ hv)
  refine Counts.keeps ⟨h.published, .of_subset h.nextTicket fun v hv => ((h.queued v).mp hv).1,
    fun t ht hle => ?_, fun t hq hq' => ?_, fun t hq => ?_, fun t hb => ?_⟩
  · have := h.nextTicket
    omega
  · rw [h.endings hs, if_pos ((hends t hq).mp hq'), List.length_singleton]
  · rw [h.endings hs, if_neg]
    rintro ⟨w, hw, rfl⟩
    have hqw : s.waiting.Queued w.ticket := ⟨w, h.victims w hw, rfl⟩
    exact (hends _ hqw).mpr ⟨w, hw, rfl⟩ (hq hqw)
  · rcases (h.broken t).mp hb with hb | hend
    · exact .inl hb
    · exact .inr (by rw [h.endings hs, if_pos hend])

theorem Joined.keeps {w : Waiter} (h : Joined s s' w more) : Keeps s s' := by
  have hnext := h.nextTicket
  have hticket := h.ticket
  refine Counts.keeps ⟨h.published, ⟨by omega, fun v hv => ?_⟩, fun t ht hle => ?_,
    fun t hq hq' => ?_, fun t _ => h.quiet.endings t, fun t hb => .inl ?_⟩
  · rcases (h.queued v).mp hv with rfl | hv
    · exact .inr hticket.ge
    · exact .inl hv
  · exact ⟨w, (h.queued w).mpr (.inl rfl), by omega⟩
  · obtain ⟨v, hv, rfl⟩ := hq
    exact absurd ⟨v, (h.queued v).mpr (.inr hv), rfl⟩ hq'
  · unfold WaitQueue.RingBroken at hb ⊢
    rwa [h.broken] at hb

theorem Ended.keeps {g : Waiting} {outcome : WaitOutcome} (h : Ended g s s' outcome more)
    (hlands : ∀ t, g.ticket = some t → s.waiting.Queued t → s.lands = true) : Keeps s s' := by
  have hwaiting := h.waiting
  refine Counts.keeps ⟨h.published, hwaiting ▸ .left g _, fun t ht hle => ?_,
    fun t hq hq' => ?_, fun t hq => ?_, fun t hb => .inl ?_⟩
  · rw [hwaiting, g.left_nextTicket] at ht
    omega
  · rw [hwaiting, Waiting.queued_left, not_and, not_not] at hq'
    rw [h.endings, if_pos ⟨hlands t (hq' hq) hq, hq' hq, hq⟩, List.length_singleton]
  · rw [h.endings, if_neg]
    rintro ⟨-, hg, hqt⟩
    have hq' := hq hqt
    rw [hwaiting, Waiting.queued_left] at hq'
    exact hq'.2 hg
  · rw [hwaiting, Waiting.ringBroken_left] at hb
    exact hb.1

/-- A wait that was said to end when its ring was broken is not said again. -/
theorem read_keeps (hb : s.waiting.RingBroken t) {n : Nat} :
    Keeps s { s with waiting := (s.waiting.leave t).1, inFlight := n } := by
  let s' : State := { s with waiting := (s.waiting.leave t).1, inFlight := n }
  have hcounts : Counts s s' [] := by
    refine ⟨(List.append_nil _).symm,
      .of_subset rfl fun v hv => (WaitQueue.mem_leave.mp hv).1, fun u hu hle => ?_,
      fun u hq hq' => ?_, fun _ _ => rfl, fun u hu => .inl ?_⟩
    · exact absurd hu hle.not_gt
    · obtain ⟨v, hv, rfl⟩ := hq
      refine absurd ⟨v, WaitQueue.mem_leave.mpr ⟨hv, ?_⟩, rfl⟩ hq'
      rintro rfl
      exact not_queued_of_broken hb ⟨v, hv, rfl⟩
    · obtain ⟨b, hb, rfl⟩ := hu
      exact ⟨b, (WaitQueue.mem_leave_broken.mp hb).1, rfl⟩
  exact hcounts.keeps

end Counts

/-- A claim's turn keeps the account, unless it gives a place up behind the
fence. -/
theorem Turn.keeps (h : Turn s c time s' c') (hf : ∀ n, s.store.faults n = none)
    (hs : s.storageError = none)
    (hserving : ∀ t, c.guard.ticket = some t → s.waiting.Queued t → s.fenced = false) :
    Keeps s s' := by
  have hhealthy : s.fenced = false → ∀ {time s₁ more}, Passed time s s₁ more → s₁.Healthy :=
    fun hfence _ _ _ hp => hp.toMoved.healthy ⟨hf, hs, hfence⟩
  cases h with
  | woke => exact ((Passed.refl none s).inFlight _).keeps
  | read _ broken => exact read_keeps broken
  | ended passed ticket _ _ ends =>
    refine passed.keeps.trans (ends.keeps fun t ht hq => ?_)
    rw [ticket] at ht
    rw [passed.waiting] at hq
    exact (hhealthy (hserving t ht hq) passed).lands
  | granted passed lands _ _ _ _ _ _ quiet ends =>
    refine (passed.keeps.trans (landed_keeps lands quiet)).trans (ends.keeps fun _ _ _ => ?_)
    exact (landed_healthy lands (passed.faults ▸ hf) ..).lands
  | deadlocked passed unfenced _ rings =>
    exact passed.keeps.trans (rings.keeps (hhealthy unfenced passed))
  | answered passed | waited passed => exact passed.keeps
  | joined passed unfenced _ _ _ rings _ joins =>
    exact (passed.keeps.trans (rings.keeps (hhealthy unfenced passed))).trans joins.keeps

/-- Behind the fence a claim can only give its place up, and nothing is said. -/
theorem Turn.silent (h : Turn s c time s' c') (hfenced : s.fenced = true)
    (hct : c.guard.ticket = some t) (hq : s.waiting.Queued t) (hs : endings s.published t = []) :
    ¬ s'.waiting.Queued t ∧ endings s'.published t = [] := by
  have hno : s.fenced ≠ false := by simp [hfenced]
  cases h with
  | woke unfenced
  | deadlocked _ unfenced | answered _ unfenced | waited _ unfenced | joined _ unfenced =>
    exact absurd unfenced hno
  | read ticket broken =>
    cases ticket.symm.trans hct
    exact absurd hq (not_queued_of_broken broken)
  | ended passed ticket _ _ ends =>
    constructor
    · rw [ends.waiting, Waiting.queued_left, ticket]
      exact fun hq' => hq'.2 hct
    · rw [ends.published, passed.published, endings_append, endings_append, hs,
        passed.quiet.endings, ends.endings, if_neg]
      · rfl
      · rintro ⟨hlands, -⟩
        exact hno (passed.fenced ▸ (lands_iff.mp hlands).2.1)
  | granted passed lands =>
    exact absurd (passed.fenced ▸ (lands_iff.mp lands).2.1) hno

end State

/-! ## The account of a claim -/

/-- A claim and the ticket it took: it holds it until it is over, and then the
ticket is out, for a ring if and only if the claim is over for one. -/
structure Recorded (s : State) (c : Claim) : Prop where
  took : ∀ t, c.guard.ticket = some t → c.joined = some t
  holds : c.inFlight = true → ∀ t, c.joined = some t → c.guard.ticket = some t
  finished : c.inFlight = false → ∀ t, c.joined = some t →
    t < s.waiting.nextTicket ∧ ¬ s.waiting.Queued t ∧ ¬ s.waiting.RingBroken t ∧
      (endings s.published t = [.deadlock] ↔ c.overForRing = true)

namespace Recorded

variable {s s' : State} {c c' : Claim}

theorem of_not_joined (hjoined : c.joined = none) (hticket : c.guard.ticket = none) :
    Recorded s c := by
  constructor <;> simp [hjoined, hticket]

/-- A claim that goes on with the place it has. -/
theorem of_inFlight (hflight : c.inFlight = true) (h : c.joined = c.guard.ticket) :
    Recorded s c := by
  refine ⟨fun t ht => h.trans ht, fun _ t ht => h.symm.trans ht, fun hover => ?_⟩
  rw [hflight] at hover
  cases hover

theorem keeps (h : Recorded s c) (hk : State.Keeps s s') : Recorded s' c where
  took := h.took
  holds := h.holds
  finished hdone t ht := by
    obtain ⟨hlt, hq, hb, hring⟩ := h.finished hdone t ht
    obtain ⟨hq', hsame, hb'⟩ := hk.settled t hlt hq
    exact ⟨hlt.trans_le hk.nextTicket, hq', fun hb'' => hb (hb' hb''), hsame ▸ hring⟩

variable (h : Recorded s c) (hflight : c.inFlight = true)
include h hflight

theorem not_joined (hticket : c.guard.ticket = none) : c.joined = none := by
  cases hj : c.joined with
  | none => rfl
  | some t =>
    rw [h.holds hflight t hj] at hticket
    cases hticket

theorem joined_eq : c.joined = c.guard.ticket := by
  cases ht : c.guard.ticket with
  | none => exact h.not_joined hflight ht
  | some t => exact h.took t ht

/-- A claim that gives up the place it has. -/
theorem finish {ring : Bool}
    (hfin : c.Finishes c' ring)
    (hout : ∀ t, c.guard.ticket = some t → t < s'.waiting.nextTicket ∧
      ¬ s'.waiting.Queued t ∧ ¬ s'.waiting.RingBroken t ∧
        (endings s'.published t = [.deadlock] ↔ ring = true)) : Recorded s' c' := by
  refine ⟨fun t ht => ?_, fun hflight' => ?_, fun _ t ht => ?_⟩
  · rw [hfin.ticket] at ht
    cases ht
  · rw [hfin.finished] at hflight'
    cases hflight'
  · rw [hfin.overForRing]
    rw [hfin.joined] at ht
    exact hout t (h.holds hflight t ht)

/-- A claim that gives its place up and says so. -/
theorem finish_ended (hfin : c.Finishes c' false)
    (hsits : Sits s.waiting c) (hunbroken : ∀ t, c.guard.ticket = some t → ¬ s.waiting.RingBroken t)
    {s₁ : State} (hs₁ : s₁.Tallied) (hw : s₁.waiting = s.waiting) {g : Waiting}
    (hg : g.ticket = c.guard.ticket) {outcome : WaitOutcome} {more : List Event}
    (hends : State.Ended g s₁ s' outcome more) (hplain : outcome ≠ .deadlock)
    (hlands : ∀ t, c.guard.ticket = some t → s.waiting.Queued t → s₁.lands = true) :
    Recorded s' c' := by
  refine h.finish hflight hfin fun t hct => ?_
  have hq := (hsits.held t hct).resolve_right (hunbroken t hct)
  have hgt := hg.trans hct
  have hends_t : endings s'.published t = [outcome] := by
    rw [hends.published, endings_append, hs₁.waits t (.inl (hw ▸ hq)), hends.endings,
      if_pos ⟨hlands t hct hq, hgt, hw ▸ hq⟩, List.nil_append]
  rw [hends_t, hends.waiting, hw, g.left_nextTicket, Waiting.queued_left, Waiting.ringBroken_left]
  refine ⟨hsits.lt_nextTicket hct, fun hq => hq.2 hgt, fun hb => hb.2 hgt, ?_⟩
  simpa using hplain

/-- A claim that reads that a ring was broken at it. -/
theorem finish_read (hfin : c.Finishes c' true) (hs : s.Tallied) {t : Nat}
    (hct : c.guard.ticket = some t) (hb : s.waiting.RingBroken t) (n : Nat) :
    Recorded { s with waiting := (s.waiting.leave t).1, inFlight := n } c' := by
  refine h.finish hflight hfin fun u hu => ?_
  cases hct.symm.trans hu
  have hends := hs.broken t hb
  obtain ⟨b, hb, rfl⟩ := hb
  refine ⟨s.waiting.brokenFresh b hb, ?_, ?_, by simpa using hends⟩
  · rintro ⟨_, hv, heq⟩
    exact (WaitQueue.mem_leave.mp hv).2 heq
  · rintro ⟨_, hd, heq⟩
    exact (WaitQueue.mem_leave_broken.mp hd).2 heq

end Recorded

variable {c c' : Claim} {time : Option Time} {s s' : State}

theorem turn_recorded (h : State.Turn s c time s' c') (hf : ∀ n, s.store.faults n = none)
    (hs : s.storageError = none)
    (hserving : ∀ t, c.guard.ticket = some t → s.waiting.Queued t → s.fenced = false)
    (ht : s.Tallied) (hsits : Sits s.waiting c) (hflight : c.inFlight = true)
    (hrec : Recorded s c) :
    Recorded s' c' := by
  have hjoined := hrec.joined_eq hflight
  cases h with
  | woke => exact .of_inFlight rfl hjoined
  | read ticket broken finishes => exact hrec.finish_read hflight finishes ht ticket broken _
  | ended passed ticket _ unbroken ends plain finishes =>
    refine hrec.finish_ended hflight finishes hsits unbroken (passed.keeps.tallied ht)
      passed.waiting ticket ends plain fun t hct hq => ?_
    exact (passed.toMoved.healthy ⟨hf, hs, hserving t hct hq⟩).lands
  | granted passed lands ticket _ unbroken _ _ _ quiet ends finishes =>
    refine hrec.finish_ended hflight finishes hsits unbroken
      ((State.landed_keeps lands quiet).tallied (passed.keeps.tallied ht)) passed.waiting
      ticket ends (by decide) fun _ _ _ => ?_
    exact (State.landed_healthy lands (passed.faults ▸ hf) ..).lands
  | deadlocked _ _ ticket _ finishes =>
    refine .of_not_joined ?_ finishes.ticket
    rw [finishes.joined, hjoined, ticket]
  | answered =>
    have hnone : c.guard.ticket = none := by
      by_contra hticket
      have := (hsits.waits hticket).2
      omega
    refine .of_not_joined ?_ ?_
    · rw [c.seen_joined, hjoined, hnone]
    · rw [c.seen_ticket, hnone]
  | waited =>
    refine .of_inFlight rfl ?_
    rw [c.seen_joined, c.seen_ticket, hjoined]
  | joined => exact .of_inFlight rfl rfl

/-- A claim takes one ticket at most, and is the only one that takes tickets
in its turn. -/
theorem turn_joined (h : State.Turn s c time s' c') (hflight : c.inFlight = true)
    (hrec : Recorded s c) :
    (∀ t, c.joined = some t → c'.joined = some t) ∧
      ∀ t < s'.waiting.nextTicket, s.waiting.nextTicket ≤ t → c'.joined = some t := by
  have hnew : s'.waiting.nextTicket = s.waiting.nextTicket → ∀ t < s'.waiting.nextTicket,
      s.waiting.nextTicket ≤ t → c'.joined = some t := by
    omega
  cases h with
  | woke => exact ⟨fun _ ht => ht, hnew rfl⟩
  | read _ _ finishes => exact ⟨fun _ ht => finishes.joined.trans ht, hnew rfl⟩
  | ended passed _ _ _ ends _ finishes =>
    refine ⟨fun _ ht => finishes.joined.trans ht, hnew ?_⟩
    rw [ends.waiting, Waiting.left_nextTicket, passed.waiting]
  | granted passed _ _ _ _ _ _ _ _ ends finishes =>
    refine ⟨fun _ ht => finishes.joined.trans ht, hnew ?_⟩
    rw [ends.waiting, Waiting.left_nextTicket, ← passed.waiting]
    rfl
  | deadlocked passed _ _ rings finishes =>
    refine ⟨fun _ ht => finishes.joined.trans ht, hnew ?_⟩
    rw [rings.nextTicket, passed.waiting]
  | answered passed | waited passed =>
    exact ⟨fun _ ht => (c.seen_joined _).trans ht, hnew (by rw [passed.waiting])⟩
  | joined passed _ _ ticket _ rings _ joins =>
    have hnone := hrec.not_joined hflight ticket
    have hnext := joins.nextTicket
    have hrings := rings.nextTicket
    rw [passed.waiting] at hrings
    refine ⟨fun t ht => ?_, fun t ht hle => congrArg some (by omega)⟩
    rw [hnone] at ht
    cases ht

namespace Service

/-- What a run without storage failures keeps, as long as no place is given up
behind the fence. -/
structure Settled (w : Service) : Prop where
  linked : Linked w.state.waiting w.claims
  faultless : ∀ n, w.state.store.faults n = none
  sound : w.state.storageError = none
  tallied : w.state.Tallied
  recorded : ∀ c ∈ w.claims, Recorded w.state c
  owned : ∀ t < w.state.waiting.nextTicket, ∃ c ∈ w.claims, c.joined = some t

variable {op : Op} {w : Service}

theorem Went.settled {w' : Service} (hw : Went w op w') (h : Settled w)
    (hserving : EndsServing w op) : Settled w' := by
  have hlinked := hw.linked h.linked
  cases hw with
  | still => exact h
  | @asked _ _ n _ new asked =>
    have hkeeps := ((State.Passed.refl none w.state).inFlight n).keeps
    refine ⟨hlinked, h.faultless, h.sound, hkeeps.tallied h.tallied, fun d hd => ?_, fun t ht => ?_⟩
    · rcases mem_insert.mp hd with rfl | ⟨hd, -⟩
      · exact .of_not_joined asked.joined asked.ticket
      · exact (h.recorded d hd).keeps hkeeps
    · obtain ⟨d, hd, hdt⟩ := h.owned t ht
      exact ⟨d, mem_insert.mpr (.inr ⟨hd, new d hd⟩), hdt⟩
  | @turn _ _ c c' _ _ holds mem inFlight turn =>
    have hunfenced := hserving.unfenced mem holds
    have hkeeps := turn.keeps h.faultless h.sound hunfenced
    obtain ⟨_, hmoved⟩ := turn.moved
    refine ⟨hlinked, hmoved.faults ▸ h.faultless, hmoved.sound h.faultless h.sound,
      hkeeps.tallied h.tallied, fun d hd => ?_, fun t ht => ?_⟩
    · rcases mem_insert.mp hd with rfl | ⟨hd, -⟩
      · exact turn_recorded turn h.faultless h.sound hunfenced h.tallied
          (h.linked.sits c mem) inFlight (h.recorded c mem)
      · exact (h.recorded d hd).keeps hkeeps
    · obtain ⟨hold, hnew⟩ := turn_joined turn inFlight (h.recorded c mem)
      by_cases hlt : t < w.state.waiting.nextTicket
      · obtain ⟨d, hd, hdt⟩ := h.owned t hlt
        by_cases hdc : d.number = c'.number
        · cases eq_of_key_eq hd mem (hdc.trans turn.number)
          exact ⟨c', mem_insert.mpr (.inl rfl), hold t hdt⟩
        · exact ⟨d, mem_insert.mpr (.inr ⟨hd, hdc⟩), hdt⟩
      · exact ⟨c', mem_insert.mpr (.inl rfl), hnew t ht (by omega)⟩
  | aside _ aside =>
    exact ⟨hlinked, aside.faults ▸ h.faultless, aside.sound h.faultless h.sound,
      aside.keeps.tallied h.tallied, fun d hd => (h.recorded d hd).keeps aside.keeps,
      aside.waiting ▸ h.owned⟩

/-- The account of every wait. A ticket handed out is some claim's; it is in the
queue and nothing was said, or it is out and that was said once. Of a claim that is over, the
ticket is out, no ring is left to read, and it was said to end for a ring if
and only if the claim is over for one. No ticket is both queued and the end of
a ring, and nothing is left when every claim is over. -/
def Accounted (w : Service) : Prop :=
  (∀ t < w.state.waiting.nextTicket, (∃ c ∈ w.claims.rows, c.joined = some t) ∧
    ((w.state.waiting.Queued t ∧ endings w.state.published t = []) ∨
      (¬ w.state.waiting.Queued t ∧ (endings w.state.published t).length = 1))) ∧
  (∀ c ∈ w.claims.rows, c.inFlight = false → ∀ t ∈ c.joined,
    ¬ w.state.waiting.Queued t ∧ ¬ w.state.waiting.RingBroken t ∧
      (endings w.state.published t = [.deadlock] ↔ c.overForRing = true)) ∧
  (∀ v ∈ w.state.waiting.waiters.rows, ¬ w.state.waiting.RingBroken v.ticket) ∧
  ((∀ c ∈ w.claims.rows, c.inFlight = false) →
    w.state.waiting.waiters.rows = [] ∧ w.state.waiting.broken.rows = [])

instance : DecidablePred Accounted := fun w => by
  unfold Accounted
  infer_instance

theorem Settled.accounted (h : Settled w) : Accounted w := by
  refine ⟨fun t ht => ?_, fun c hc hover t ht => ?_, fun v hv hb => ?_, fun hover => ?_⟩
  · refine ⟨h.owned t ht, ?_⟩
    by_cases hq : w.state.waiting.Queued t
    · exact .inl ⟨hq, h.tallied.waits t (.inl hq)⟩
    · exact .inr ⟨hq, h.tallied.ended t ht hq⟩
  · exact ((h.recorded c hc).finished hover t ht).2
  · exact State.not_queued_of_broken hb ⟨v, hv, rfl⟩
  · -- Whoever has a place or a ring to read is in flight.
    have hnone : ∀ t, ¬ (w.state.waiting.Queued t ∨ w.state.waiting.RingBroken t) := by
      intro t ht
      obtain ⟨c, hc, hct⟩ := h.linked.placed t ht
      have hflight := ((h.linked.sits c hc).waits (by simp [hct])).1
      rw [hover c hc] at hflight
      cases hflight
    exact ⟨List.eq_nil_iff_forall_not_mem.mpr fun v hv => hnone _ (.inl ⟨v, hv, rfl⟩),
      List.eq_nil_iff_forall_not_mem.mpr fun b hb => hnone _ (.inr ⟨b, hb, rfl⟩)⟩

/-- A place given up behind the fence is in no account. -/
theorem Settled.not_accounted (h : Settled w) (hserving : ¬ EndsServing w op) :
    ¬ Accounted (w.step op) := by
  unfold EndsServing at hserving
  push Not at hserving
  obtain ⟨hfenced, c, hc, hholds, hplaced⟩ := hserving
  obtain ⟨t, hct, hq⟩ : ∃ t, c.guard.ticket = some t ∧ w.state.waiting.Queued t := by
    simpa [placed, Option.any_eq_true] using hplaced
  obtain ⟨_, _, _, -, hturn, hstep⟩ := step_of_holds hc hholds
  have hlt := (h.linked.sits c hc).lt_nextTicket hct
  have hle := (turn_arrivals hturn).nextTicket
  have hsilent := hturn.silent hfenced hct hq (h.tallied.waits t (.inl hq))
  rintro ⟨hall, -⟩
  rw [hstep] at hall
  rcases (hall t (hlt.trans_le hle)).2 with ⟨hq', -⟩ | ⟨-, hone⟩
  · exact hsilent.1 hq'
  · rw [hsilent.2] at hone
    cases hone

theorem Settled.start (env : Env) (leases : LeaseTable) :
    Settled (start env leases fun _ => none) where
  linked := .empty
  faultless _ := rfl
  sound := rfl
  tallied := ⟨fun _ _ => rfl, fun t ht => absurd ht (Nat.not_lt_zero t), by
    simp [Service.start, State.serving, WaitQueue.RingBroken, WaitQueue.new]⟩
  recorded c hc := absurd hc not_mem_empty
  owned t ht := absurd ht (Nat.not_lt_zero t)

/-- Without storage failures, every wait of a run is accounted for in every
state if and only if no place is given up behind the fence; and a ticket that
is out of the queue never comes back, in any run. -/
theorem waits_accounted_iff (env : Env) (leases : LeaseTable) (ops : List Op) :
    (Always step Accounted (start env leases fun _ => none) ops ↔
      Each step EndsServing (start env leases fun _ => none) ops) ∧
    ∀ more t, t < (run step (start env leases fun _ => none) ops).state.waiting.nextTicket →
      ¬ (run step (start env leases fun _ => none) ops).state.waiting.Queued t →
        ¬ (run step (start env leases fun _ => none) (ops ++ more)).state.waiting.Queued t := by
  constructor
  · exact always_iff_each_of_invariant (.start env leases) (fun w h => h.accounted)
      (fun w op h hserving => (step_went w op).settled h hserving)
      fun w op h hserving => h.not_accounted hserving
  · intro more t ht hq
    rw [run_append]
    have hout : Always step (fun w => t < w.state.waiting.nextTicket ∧
        ¬ w.state.waiting.Queued t) (run step (Service.start env leases fun _ => none) ops)
          more := by
      refine always_of_invariant ⟨ht, hq⟩ fun w op h => ?_
      have harrivals := (step_went w op).arrivals
      exact ⟨h.1.trans_le harrivals.nextTicket, harrivals.not_queued h.1 h.2⟩
    exact hout.last.2

/-- A claim that waits when the daemon hands over, and is woken. -/
def refusedByHandover : List Op :=
  [.request 1 ⟨"a"⟩ (.path "/src" .exclusive 0), .attempt 1 0 ⟨"l1"⟩,
    .request 2 ⟨"b"⟩ (.path "/src/main.rs" .exclusive 60), .attempt 2 1 ⟨"l2"⟩,
    .offer "reload" 2, .wake 2 true]

theorem refusedByHandover_not_accounted :
    ¬ ∀ ops : List Op, Always step Accounted (start .everybody .empty fun _ => none) ops := by
  intro h
  exact absurd (h refusedByHandover).last (by decide)

end Service

end AgentDocker.Daemon
