import AgentDocker.Proofs.Holds
import AgentDocker.Proofs.LeaseTable

/-!
# What a claim's turn can come to

A claim acts in three ways: it attempts, it decides what a wake means, or its
client goes away. Each is one hold, and `Turn` lists what the hold can leave:
the claim read that a ring was broken at it, gave its place up with an answer,
was granted its lease, was refused for a ring, went on waiting, or took a
place. Every statement about runs of the daemon goes through this list.
-/

namespace AgentDocker.Daemon

open AgentDocker.Core Lib

namespace Response

def isDeadlock : Response → Bool
  | .error .deadlock _ _ => true
  | _ => false

/-- A refusal, and not for a ring. -/
def isPlain : Response → Bool
  | .error .deadlock _ _ | .lease _ => false
  | _ => true

theorem isDeadlock_of_isPlain {response : Response} (h : response.isPlain = true) :
    response.isDeadlock = false := by
  unfold isDeadlock
  split
  · cases h
  · rfl

end Response

def ClaimArgs.want (args : ClaimArgs) : Nat := args.amount.getD 1

namespace Claim

/-- The claim its attempt goes on with: in the name of the record that stays,
if its agent runs at all. -/
def seen (c : Claim) (env : Env) : Claim :=
  match env.registry c.holder with
  | none => c
  | some agent => if agent.status = .running then c.followed agent.id else c

/-- Whether a claim is over for a ring: it answered so, or its client went away
behind the ring. -/
def overForRing (c : Claim) : Bool :=
  match c.phase with
  | .answered response => response.isDeadlock
  | .dropped => c.ringBroken
  | .attempting | .waiting .. => false

/-- A claim that has come to its end and holds no place. -/
structure Finishes (c c' : Claim) (ring : Bool) : Prop where
  number : c'.number = c.number
  args : c'.args = c.args
  askedAt : c'.askedAt = c.askedAt
  joined : c'.joined = c.joined
  resource : c'.guard.resource = c.guard.resource
  ticket : c'.guard.ticket = none
  finished : c'.inFlight = false
  overForRing : c'.overForRing = ring

theorem follow_ticket {g : Waiting} {requester : AgentId} :
    (g.follow requester).ticket = g.ticket ∧ (g.follow requester).resource = g.resource := by
  unfold Waiting.follow
  split
  · exact ⟨rfl, rfl⟩
  · exact ⟨rfl, rfl⟩

/-- Following a record changes nothing of a claim but its name. -/
theorem seen_same (c : Claim) (env : Env) :
    (c.seen env).number = c.number ∧ (c.seen env).args = c.args ∧
      (c.seen env).askedAt = c.askedAt ∧ (c.seen env).joined = c.joined ∧
      (c.seen env).guard.ticket = c.guard.ticket ∧
      (c.seen env).guard.resource = c.guard.resource := by
  unfold seen followed
  split
  · exact ⟨rfl, rfl, rfl, rfl, rfl, rfl⟩
  · split
    · split
      · exact ⟨rfl, rfl, rfl, rfl, follow_ticket ..⟩
      · exact ⟨rfl, rfl, rfl, rfl, rfl, rfl⟩
    · exact ⟨rfl, rfl, rfl, rfl, rfl, rfl⟩

variable (c : Claim) (env : Env)

@[simp] theorem seen_number : (c.seen env).number = c.number := (c.seen_same env).1

@[simp] theorem seen_args : (c.seen env).args = c.args := (c.seen_same env).2.1

@[simp] theorem seen_askedAt : (c.seen env).askedAt = c.askedAt := (c.seen_same env).2.2.1

@[simp] theorem seen_joined : (c.seen env).joined = c.joined := (c.seen_same env).2.2.2.1

@[simp] theorem seen_ticket : (c.seen env).guard.ticket = c.guard.ticket :=
  (c.seen_same env).2.2.2.2.1

@[simp] theorem seen_resource : (c.seen env).guard.resource = c.guard.resource :=
  (c.seen_same env).2.2.2.2.2

/-- An answered claim that has let go of its place. -/
theorem finishes_seen (reported : Bool) {response : Response} {ring : Bool}
    (h : response.isDeadlock = ring) :
    c.Finishes { c.seen env with
      reportedConflict := reported
      guard := { (c.seen env).guard with ticket := none }
      phase := .answered response } ring :=
  ⟨c.seen_number env, c.seen_args env, c.seen_askedAt env, c.seen_joined env,
    c.seen_resource env, rfl, rfl, h⟩

end Claim

namespace State

/-- Whether an attempt of this claim would be told to wait: it is not next in
the queue, or somebody's lease is in its way. -/
def Refuses (s : State) (c : Claim) : Prop :=
  s.mayAttempt c.guard.ticket = false ∨
    ∃ l ∈ s.leases, l.blocks c.holder c.args.leaseMode c.args.resource = true

/-- Whether this is the lease a grant of the claim makes or renews: under the id
it drew, with no live lease in its way, or under the id of the one it renews. -/
structure Takes (c : Claim) (t : LeaseTable) (now : Time) (id : LeaseId) (lease : Lease) :
    Prop where
  resource : lease.resource = c.args.resource
  holder : lease.holder = c.holder
  mode : lease.mode = c.args.leaseMode
  named : (lease.id = id ∧ ∀ l ∈ t, l.isExpired now = false →
      l.blocks c.holder c.args.leaseMode c.args.resource = false) ∨
    ∃ l ∈ t, l.id = lease.id ∧ l.resource = lease.resource ∧
      l.holder = lease.holder ∧ l.mode = lease.mode

/-- The lease a grant makes or renews, the table being `t` when it does. -/
inductive Grants (c : Claim) (t : LeaseTable) (now : Time) (id : LeaseId) (lease : Lease) : Prop
  | new (named : lease.id = id) (resource : lease.resource = c.args.resource)
      (holder : lease.holder = c.holder) (mode : lease.mode = c.args.leaseMode)
      (amount : c.args.isQuota = true → lease.amount = c.args.want)
      (free : ∀ l ∈ t, l.isExpired now = false →
        l.blocks c.holder c.args.leaseMode c.args.resource = false)
  | renewed {l : Lease} (mem : l ∈ t) (live : l.isExpired now = false)
      (holds : l.holder = c.holder) (on : l.resource = c.args.resource)
      (mode : l.mode = c.args.leaseMode) (eq : lease = LeaseTable.renewedBy c.request now l)

theorem Grants.takes {c : Claim} {t : LeaseTable} {now : Time} {id : LeaseId} {lease : Lease}
    (h : Grants c t now id lease) : Takes c t now id lease := by
  cases h with
  | new named resource holder mode _ free => exact ⟨resource, holder, mode, .inl ⟨named, free⟩⟩
  | @renewed l mem _ holds on mode eq =>
    subst eq
    exact ⟨on, holds, mode, .inr ⟨l, mem, rfl, rfl, rfl, rfl⟩⟩

/-- A place taken at the end of the queue's arrivals. -/
structure Joined (s s' : State) (w : Waiter) (more : List Event) : Prop
    extends Moved s s' more where
  leases : s'.leases = s.leases
  rows : s'.store.leases = s.store.leases
  ticket : w.ticket = s.waiting.nextTicket
  nextTicket : s'.waiting.nextTicket = s.waiting.nextTicket + 1
  queued : ∀ v, v ∈ s'.waiting.waiters ↔ v = w ∨ v ∈ s.waiting.waiters
  broken : s'.waiting.broken = s.waiting.broken
  quiet : Quiet more

/-- What the checks and the table make of an attempt. -/
inductive Held (s : State) (c : Claim) (now : Time) (id : LeaseId) :
    State → Claim → Attempt → Prop
  | refused {response : Response} (plain : response.isPlain = true) :
      Held s c now id s c (.error (response, .cancelled))
  | granted {lease : Lease} {kind : EventKind} (lands : s.lands = true)
      (may : s.mayAttempt c.guard.ticket = true) (room : s.overQuota c = none)
      (grants : Grants c s.leases now id lease) (quiet : ∀ t, kind.ends t = none) :
      Held s c now id (s.landed [kind] (·.insert lease) (·.restore lease)) c
        (.error (.lease lease, .claimed))
  | deadlocked {s' : State} {more : List Event} {ended : List Waiter} {response : Response}
      (unfenced : s.fenced = false) (ticket : c.guard.ticket = none)
      (rings : RingsBroken s s' ended more) (ring : response.isDeadlock = true) :
      Held s c now id s' { c with reportedConflict := true } (.error (response, .deadlock))
  | conflicted {message : String} {heldBy : List Lease} (unfenced : s.fenced = false)
      (refuses : s.Refuses c) (stays : 0 < c.args.waitSecs → c.guard.ticket ≠ none) :
      Held s c now id s { c with reportedConflict := true } (.ok (message, heldBy))
  | joined {s₁ s' : State} {more more' : List Event} {ended : List Waiter} {message : String}
      {heldBy : List Lease} (unfenced : s.fenced = false) (refuses : s.Refuses c)
      (ticket : c.guard.ticket = none) (waits : 0 < c.args.waitSecs)
      (rings : RingsBroken s s₁ ended more) (clear : s₁.deadlock c.holder c.args.resource = none)
      (joins : Joined s₁ s' ⟨s₁.waiting.nextTicket, c.guard.requester, c.guard.resource,
        c.args.mode, now, c.args.priority⟩ more') :
      Held s c now id s'
        { c with
          reportedConflict := true
          guard := { c.guard with ticket := some s₁.waiting.nextTicket }
          joined := some s₁.waiting.nextTicket } (.ok (message, heldBy))

/-- The same, after what passes before. -/
def Comes (s : State) (c : Claim) (now : Time) (id : LeaseId) (s' : State) (c' : Claim)
    (result : Attempt) : Prop :=
  ∃ s₁ more, Passed (some now) s s₁ more ∧ Held s₁ c now id s' c' result

variable {result : Attempt} {c c' : Claim} {more : List Event} {heldBy : List Lease}
  {time : Option Time} {response : Response} {s s' : State} {now : Time} {g : Waiting}
  {id : LeaseId}

theorem Held.comes (h : Held s c now id s' c' result) : Comes s c now id s' c' result :=
  ⟨s, _, .refl _ s, h⟩

theorem Comes.after {s₀ : State} (h₀ : Passed (some now) s₀ s more)
    (h : Comes s c now id s' c' result) : Comes s₀ c now id s' c' result := by
  obtain ⟨s₁, _, passed, held⟩ := h
  exact ⟨s₁, _, h₀.trans passed, held⟩

theorem storageFailure_plain (h : s.storageFailure = some response) : response.isPlain = true := by
  obtain ⟨_, -, rfl⟩ := Option.map_eq_some_iff.mp h
  rfl

theorem transferring_plain (h : s.transferring = some response) : response.isPlain = true := by
  unfold transferring at h
  split at h
  · cases h
    rfl
  · cases h

theorem writeFailure_plain (h : s.writeFailure = some response) : response.isPlain = true := by
  unfold writeFailure at h
  split at h
  · next hs =>
    cases h
    exact storageFailure_plain hs
  · split at h
    · exact transferring_plain h
    · cases h

theorem writeFailure_getD_plain (s : State) (h : response.isPlain = true) :
    (s.writeFailure.getD response).isPlain = true := by
  cases hw : s.writeFailure with
  | none => exact h
  | some => exact writeFailure_plain hw

theorem overQuota_plain (h : s.overQuota c = some response) : response.isPlain = true := by
  unfold overQuota at h
  split at h
  · split at h
    · cases h
    · dsimp only at h
      split at h
      · cases h
        rfl
      · cases h
  · cases h

theorem joinLocked_spec (hg : g.ticket = none) {mode : LeaseMode} {priority : Int} :
    (g.joinLocked s mode priority now).2 =
        { g with ticket := some s.waiting.nextTicket } ∧
      ∃ more, Joined s (g.joinLocked s mode priority now).1
        ⟨s.waiting.nextTicket, g.requester, g.resource, mode, now, priority⟩ more := by
  unfold Waiting.joinLocked
  rw [hg]
  let q := (s.waiting.join g.requester g.resource mode priority now).1
  have hm : Moved s { s with waiting := q } [] := .inMemory ..
  refine ⟨rfl, _, hm.trans (emit_moved ..), emit_leases .., emit_rows .., rfl, ?_,
    fun v => ?_, ?_, ?_⟩
  · rw [emit_waiting]
    rfl
  · rw [emit_waiting]
    exact WaitQueue.mem_join
  · rw [emit_waiting]
    rfl
  · exact sent_quiet (by simp [EventKind.ends])

theorem grant_held {lease : Lease} {kind : EventKind} (may : s.mayAttempt c.guard.ticket = true)
    (room : s.overQuota c = none) (grants : Grants c s.leases now id lease)
    (quiet : ∀ t, kind.ends t = none)
    (h : s.grant c lease kind = (s', c', result)) : Comes s c now id s' c' result := by
  unfold grant commitLeaseActivity at h
  dsimp only at h
  rcases commit_eq s "lease activity" [kind] (·.insert lease) (·.restore lease) with
    ⟨hl, hc⟩ | ⟨hl, hc, hp⟩
  · rw [Option.toList_some, hc] at h
    cases h
    exact (Held.granted hl may room grants quiet).comes
  · have hpass : Passed (some now) s (s.commit "lease activity" [kind] (·.insert lease)
        (·.restore lease)).1 (s.sent [kind]) := by
      refine .of_leases_eq (commit_moved ..) (commit_waiting ..) ?_ ?_
        (sent_quiet (by simpa using quiet))
      · rw [commit_leases, hl]
        rfl
      · rw [commit_rows, hl]
        rfl
    rcases hr : s.commit "lease activity" [kind] (·.insert lease) (·.restore lease) with
      ⟨s₁, p⟩
    rw [hr] at hpass hp
    rw [Option.toList_some, hr] at h
    have hbeq : (p == .committed) = false := beq_false_of_ne hp
    simp only [hbeq] at h
    cases h
    exact ⟨_, _, hpass, .refused (writeFailure_getD_plain _ rfl)⟩

theorem joinQueue_held {message : String} (unfenced : s.fenced = false) (refuses : s.Refuses c)
    (ticket : c.guard.ticket = none) (waits : 0 < c.args.waitSecs)
    (h : s.joinQueue { c with reportedConflict := true } message heldBy now = (s', c', result)) :
    Held s c now id s' c' result := by
  unfold joinQueue at h
  rcases hb : s.breakRings c.holder c.args.resource c.args.priority with ⟨s₂, found⟩
  rw [hb] at h
  obtain ⟨_, _, hrings, hclear⟩ := breakRings_spec _ _ _ _ hb
  cases found with
  | some =>
    cases h
    have hsaid := RingsBroken.of_emit s₂
      (.leaseWaitEnded c.guard.resource c.guard.requester .deadlock none) fun _ => rfl
    exact .deadlocked unfenced ticket (hrings.trans hsaid) rfl
  | none =>
    obtain ⟨hguard, _, hjoined⟩ :=
      joinLocked_spec ticket
    dsimp only at h
    rw [hguard] at h
    cases h
    exact .joined unfenced refuses ticket waits hrings (hclear rfl) hjoined

/-- Recording liveness, with or without an event, moves no lease. -/
theorem commitLeaseActivity_none (now : Time) (s : State) (kind : Option EventKind)
    (hquiet : ∀ k ∈ kind, ∀ t, k.ends t = none) :
    (∃ more, Passed (some now) s (s.commitLeaseActivity none kind).1 more) ∧
      (s.commitLeaseActivity none kind).1.leases = s.leases ∧
      ((s.commitLeaseActivity none kind).2 = true → s.fenced = false) := by
  refine ⟨⟨_, commit_id_passed s "lease activity" fun k hk => ?_⟩, ?_, fun h => ?_⟩
  · exact hquiet k (Option.mem_toList.mp hk)
  · refine (commit_leases ..).trans ?_
    split <;> rfl
  · have hc := (commit_committed s "lease activity" kind.toList id id).mp (eq_of_beq h)
    exact (lands_iff.mp hc).2.1

theorem conflict_held (refuses : s.Refuses c) (h : s.conflict c heldBy now = (s', c', result)) :
    Comes s c now id s' c' result := by
  unfold conflict at h
  dsimp only at h
  obtain ⟨⟨_, hpass⟩, hleases, hunfenced⟩ := commitLeaseActivity_none now s
    (if c.reportedConflict then none
      else some (.leaseConflict c.args.resource c.holder (heldBy.map (·.holder))))
    (by
      intro k hk
      split at hk
      · cases hk
      · cases hk
        exact fun _ => rfl)
  split at h
  · next s₁ hr =>
    rw [hr] at hpass
    cases h
    exact ⟨_, _, hpass, .refused (writeFailure_getD_plain _ rfl)⟩
  next s₁ hr =>
  rw [hr] at hpass hleases hunfenced
  have hf : s₁.fenced = false := hpass.fenced.trans (hunfenced rfl)
  have hrefuses : s₁.Refuses c := by
    unfold Refuses mayAttempt at refuses ⊢
    rwa [hpass.waiting, hleases]
  split at h
  · next hwait => exact ⟨_, _, hpass, joinQueue_held hf hrefuses hwait.2 hwait.1 h⟩
  next hwait =>
  cases h
  exact ⟨_, _, hpass, .conflicted hf hrefuses fun hw ht => hwait ⟨hw, ht⟩⟩

theorem decideClaim_held (room : s.overQuota c = none)
    (h : s.decideClaim c now id = (s', c', result)) :
    Comes s c now id s' c' result := by
  unfold decideClaim tryClaim at h
  cases hmay : s.mayAttempt c.guard.ticket with
  | false =>
    rw [hmay] at h
    exact conflict_held (.inl hmay) h
  | true =>
    rw [hmay, if_pos rfl] at h
    have hends := LeaseTable.claimAs_ends s.leases c.request now id
    generalize s.leases.claimAs c.request now id = out at hends h
    cases hends with
    | made _ free =>
      have hread : Passed (some now) s _ [] :=
        storeRead_passed s "lease ledger boundary" (·.changeWatermark)
      have hsame := storeRead_untouched s "lease ledger boundary" (·.changeWatermark)
      rcases hs : s.storeRead "lease ledger boundary" fun store =>
        (store, store.changeWatermark) with ⟨s₁, watermark⟩
      rw [hs] at hread hsame
      simp only [hs] at h
      have hmay₁ : s₁.mayAttempt c.guard.ticket = true := by
        unfold mayAttempt at hmay ⊢
        rwa [hread.waiting]
      have hroom : s₁.overQuota c = none := by
        unfold overQuota at room ⊢
        rwa [hsame.leases, hsame.env]
      refine (grant_held hmay₁ hroom (.new rfl rfl rfl rfl (fun hquota => if_pos hquota)
        fun l hl hlive => ?_) (fun _ => rfl) h).after hread
      rw [hsame.leases] at hl
      refine Bool.eq_false_iff.mpr fun hblocks => free l ⟨hl, ?_⟩ (Lease.blocks_eq.mp hblocks)
      simpa [Lease.isExpired] using hlive
    | renewed live same =>
      refine grant_held hmay room (.renewed live.1 ?_ same.1 same.2.1 same.2.2 rfl) (fun _ => rfl) h
      simpa [Lease.isExpired] using live.2
    | @refused heldBy _ blocked _ held =>
      obtain ⟨l, hl⟩ := List.exists_mem_of_ne_nil heldBy blocked
      obtain ⟨hlive, hway⟩ := (held l).mp hl
      exact conflict_held (.inr ⟨l, hlive.1, Lease.blocks_eq.mpr hway⟩) h

theorem attemptClaim_held (h : s.attemptClaim c now id = (s', c', result)) :
    Comes s c now id s' c' result := by
  unfold attemptClaim at h
  dsimp only at h
  obtain ⟨_, hpass⟩ := expireLeasesAt_passed s now
  split at h
  · next hw =>
    cases h
    exact ⟨_, _, hpass, .refused (writeFailure_plain hw)⟩
  · split at h
    · next refusal hq =>
      cases h
      exact ⟨_, _, hpass.trans (touch_passed _ _),
        .refused (writeFailure_getD_plain _ (overQuota_plain hq))⟩
    · next hq => exact (decideClaim_held hq h).after hpass

theorem attemptHold_held (h : s.attemptHold c now id = (s', c', result)) :
    Comes s (c.seen s.env) now id s' c' result := by
  unfold attemptHold at h
  unfold Claim.seen
  cases hreg : s.env.registry c.holder with
  | none =>
    rw [hreg] at h
    cases h
    exact (Held.refused rfl).comes
  | some agent =>
    rw [hreg] at h
    dsimp only at h ⊢
    by_cases hrun : agent.status = .running
    · rw [if_neg (not_not.mpr hrun)] at h
      rw [if_pos hrun]
      split at h
      · next hw =>
        cases h
        exact (Held.refused (writeFailure_plain hw)).comes
      · split at h
        · cases h
          exact (Held.refused rfl).comes
        · exact attemptClaim_held h
    · rw [if_pos hrun] at h
      rw [if_neg hrun]
      cases h
      exact (Held.refused rfl).comes

/-! ## Turns -/

/-- How many requests are executing is nobody's business here. -/
theorem Moved.inFlight (h : Moved s s' more) (n : Nat) : Moved s { s' with inFlight := n } more :=
  { h with }

theorem Passed.inFlight (h : Passed time s s' more) (n : Nat) :
    Passed time s { s' with inFlight := n } more :=
  { h with mirrors := h.mirrors.trans (.of_same (fun _ => Iff.rfl) rfl fun h => h) }

theorem Ended.inFlight {outcome : WaitOutcome} (h : Ended g s s' outcome more) (n : Nat) :
    Ended g s { s' with inFlight := n } outcome more :=
  { h with }

theorem RingsBroken.inFlight {ended : List Waiter} (h : RingsBroken s s' ended more) (n : Nat) :
    RingsBroken s { s' with inFlight := n } ended more :=
  { h with }

theorem Joined.inFlight {w : Waiter} (h : Joined s s' w more) (n : Nat) :
    Joined s { s' with inFlight := n } w more :=
  { h with }

/-- What one hold of a claim leaves; an attempt has a time. -/
inductive Turn (s : State) (c : Claim) : Option Time → State → Claim → Prop
  /-- Woken to attempt again. -/
  | woke {n : Nat} (unfenced : s.fenced = false) :
      Turn s c none { s with inFlight := n } { c with phase := .attempting }
  /-- It saw, or its client never will, that a ring was broken at its wait. -/
  | read {time : Option Time} {t n : Nat} {c' : Claim} (ticket : c.guard.ticket = some t)
      (broken : s.waiting.RingBroken t) (finishes : c.Finishes c' true) :
      Turn s c time { s with waiting := (s.waiting.leave t).1, inFlight := n } c'
  /-- It came to an end without a lease. -/
  | ended {time : Option Time} {s₁ s' : State} {more more' : List Event} {g : Waiting}
      {outcome : WaitOutcome} {c' : Claim} (passed : Passed time s s₁ more)
      (ticket : g.ticket = c.guard.ticket)
      (resource : g.resource = c.guard.resource)
      (unbroken : ∀ t, c.guard.ticket = some t → ¬ s.waiting.RingBroken t)
      (ends : Ended g s₁ s' outcome more') (plain : outcome ≠ .deadlock)
      (finishes : c.Finishes c' false) : Turn s c time s' c'
  | granted {now : Time} {s₁ s' : State} {more more' : List Event} {g : Waiting}
      {id : LeaseId} {lease : Lease} {kind : EventKind} {c' : Claim}
      (passed : Passed (some now) s s₁ more)
      (lands : s₁.lands = true) (ticket : g.ticket = c.guard.ticket)
      (resource : g.resource = c.guard.resource)
      (unbroken : ∀ t, c.guard.ticket = some t → ¬ s.waiting.RingBroken t)
      (may : s₁.mayAttempt c.guard.ticket = true) (fresh : ∀ l ∈ s.leases, l.id ≠ id)
      (takes : Takes (c.seen s.env) s₁.leases now id lease) (quiet : ∀ t, kind.ends t = none)
      (ends : Ended g (s₁.landed [kind] (·.insert lease) (·.restore lease)) s' .claimed more')
      (finishes : c.Finishes c' false) : Turn s c (some now) s' c'
  /-- Its wait would close a ring that is broken at it. -/
  | deadlocked {now : Time} {s₁ s' : State} {more more' : List Event} {ended : List Waiter}
      {c' : Claim} (passed : Passed (some now) s s₁ more) (unfenced : s.fenced = false)
      (ticket : c.guard.ticket = none) (rings : RingsBroken s₁ s' ended more')
      (finishes : c.Finishes c' true) : Turn s c (some now) s' c'
  /-- Refused, and it would not wait. -/
  | answered {now : Time} {s' : State} {more : List Event} {response : Response}
      (passed : Passed (some now) s s' more) (unfenced : s.fenced = false)
      (waits : c.args.waitSecs = 0) (plain : response.isDeadlock = false) :
      Turn s c (some now) s'
        { c.seen s.env with reportedConflict := true, phase := .answered response }
  | waited {now : Time} {s' : State} {more : List Event} {message : String}
      {heldBy : List Lease} (passed : Passed (some now) s s' more) (unfenced : s.fenced = false)
      (refuses : s'.Refuses (c.seen s.env)) (ticket : c.guard.ticket ≠ none)
      (waits : 0 < c.args.waitSecs) :
      Turn s c (some now) s'
        { c.seen s.env with
          reportedConflict := true
          phase := .waiting message heldBy
          mark := s'.published.length }
  | joined {now : Time} {s₁ s₂ s' : State} {more more' more'' : List Event}
      {ended : List Waiter} {message : String} {heldBy : List Lease}
      (passed : Passed (some now) s s₁ more)
      (unfenced : s.fenced = false) (refuses : s₁.Refuses (c.seen s.env))
      (ticket : c.guard.ticket = none) (waits : 0 < c.args.waitSecs)
      (rings : RingsBroken s₁ s₂ ended more')
      (clear : s₂.deadlock (c.seen s.env).holder c.args.resource = none)
      (joins : Joined s₂ s' ⟨s₂.waiting.nextTicket, (c.seen s.env).guard.requester,
        c.guard.resource, c.args.mode, now, c.args.priority⟩ more'') :
      Turn s c (some now) s'
        { c.seen s.env with
          reportedConflict := true
          guard := { (c.seen s.env).guard with ticket := some s₂.waiting.nextTicket }
          joined := some s₂.waiting.nextTicket
          phase := .waiting message heldBy
          mark := s'.published.length }

section

variable (h : Turn s c time s' c')
include h

theorem Turn.moved : ∃ more, Moved s s' more := by
  cases h with
  | woke => exact ⟨_, (Moved.refl s).inFlight _⟩
  | read =>
    exact ⟨[], .inMemory ..⟩
  | ended passed _ _ _ ends =>
    exact ⟨_, passed.toMoved.trans ends.toMoved⟩
  | granted passed _ _ _ _ _ _ _ _ ends =>
    exact ⟨_, (passed.toMoved.trans (landed_moved ..)).trans ends.toMoved⟩
  | deadlocked passed _ _ rings =>
    exact ⟨_, passed.toMoved.trans rings.toMoved⟩
  | answered passed | waited passed => exact ⟨_, passed.toMoved⟩
  | joined passed _ _ _ _ rings _ joins =>
    exact ⟨_, (passed.toMoved.trans rings.toMoved).trans joins.toMoved⟩

/-- A hold changes neither a claim's number nor what it asks for. -/
theorem Turn.same : c'.number = c.number ∧ c'.args = c.args := by
  cases h with
  | woke => exact ⟨rfl, rfl⟩
  | read _ _ finishes | ended _ _ _ _ _ _ finishes | granted _ _ _ _ _ _ _ _ _ _ finishes
  | deadlocked _ _ _ _ finishes =>
    exact ⟨finishes.number, finishes.args⟩
  | answered | waited | joined => exact ⟨c.seen_number _, c.seen_args _⟩

theorem Turn.number : c'.number = c.number := h.same.1

theorem Turn.args : c'.args = c.args := h.same.2

theorem Turn.mirroring : Mirroring time s s' := by
  cases h with
  | woke | read => exact .of_same (fun _ => Iff.rfl) rfl fun h => h
  | ended passed _ _ _ ends =>
    exact passed.mirrors.trans (ends.toMoved.mirroring ends.leases ends.rows)
  | granted passed lands _ _ _ _ _ _ _ ends =>
    refine (passed.mirrors.trans (landed_mirroring lands _ fun hsame l => ?_)).trans
      (ends.toMoved.mirroring ends.leases ends.rows)
    rw [LeaseTable.restore, Keyed.mem_insert, Keyed.mem_insert, hsame]
  | deadlocked passed _ _ rings =>
    exact passed.mirrors.trans (rings.toMoved.mirroring rings.leases rings.rows)
  | answered passed | waited passed => exact passed.mirrors
  | joined passed _ _ _ _ rings _ joins =>
    exact (passed.mirrors.trans (rings.toMoved.mirroring rings.leases rings.rows)).trans
      (joins.toMoved.mirroring joins.leases joins.rows)

end

/-- Reading a broken ring, and the two ways it can go. -/
theorem deadlocked_cases (g : Waiting) (s : State) :
    (∃ t cycle, g.ticket = some t ∧ s.waiting.RingBroken t ∧
      g.deadlocked s = ({ s with waiting := (s.waiting.leave t).1 },
        { g with ticket := none }, some cycle)) ∨
    ((∀ t, g.ticket = some t → ¬ s.waiting.RingBroken t) ∧ g.deadlocked s = (s, g, none)) := by
  unfold Waiting.deadlocked
  cases hg : g.ticket with
  | none =>
    exact .inr ⟨by simp, rfl⟩
  | some t =>
    dsimp only
    cases hd : s.waiting.deadlocked t with
    | none =>
      refine .inr ⟨?_, rfl⟩
      rintro _ ht ⟨⟨_, _⟩, hb, rfl⟩
      cases ht
      rw [WaitQueue.deadlocked_eq_some.mpr hb] at hd
      cases hd
    | some cycle =>
      exact .inl ⟨t, cycle, rfl, ⟨_, WaitQueue.deadlocked_eq_some.mp hd, rfl⟩, rfl⟩

theorem attempt_turn (s : State) (c : Claim) (now : Time) (id : LeaseId)
    (hid : s.leases.get? id = none) :
    Turn s c (some now) (s.attempt c now id).1 (s.attempt c now id).2 := by
  unfold attempt
  rcases deadlocked_cases c.guard s with ⟨_, _, ht, hb, hd⟩ | ⟨hunbroken, hd⟩
  · rw [hd]
    exact .read ht hb ⟨rfl, rfl, rfl, rfl, rfl, rfl, rfl, rfl⟩
  · rw [hd]
    rcases hr : s.attemptHold c now id with ⟨s', _, _⟩
    obtain ⟨s₁, _, passed, hheld⟩ := attemptHold_held hr
    have hfresh := Keyed.get?_eq_none.mp hid
    have hfenced : s₁.fenced = false → s.fenced = false := fun h => passed.fenced ▸ h
    cases hheld with
    | refused plain =>
      obtain ⟨hguard, _, hends⟩ := endLocked_spec (c.seen s.env).guard s' .cancelled
      refine .ended passed (c.seen_ticket _) (c.seen_resource _) hunbroken (hends.inFlight _)
        (by simp) ?_
      dsimp only
      rw [hguard]
      exact c.finishes_seen s.env _ (Response.isDeadlock_of_isPlain plain)
    | granted lands may _ grants quiet =>
      obtain ⟨hguard, _, hends⟩ := endLocked_spec (c.seen s.env).guard
        (landed _ _ _ _) .claimed
      rw [c.seen_ticket] at may
      refine .granted passed lands (c.seen_ticket _) (c.seen_resource _) hunbroken may
        hfresh grants.takes quiet (hends.inFlight _) ?_
      dsimp only
      rw [hguard]
      exact c.finishes_seen s.env _ rfl
    | deadlocked unfenced ticket rings ring =>
      have hnone : ∀ outcome, (c.seen s.env).guard.endLocked s' outcome =
          (s', (c.seen s.env).guard) := by
        intro outcome
        rw [Waiting.endLocked, ticket]
      dsimp only
      rw [hnone]
      refine .deadlocked passed (hfenced unfenced) (c.seen_ticket s.env ▸ ticket)
        (rings.inFlight _) ?_
      have hfin := c.finishes_seen s.env true ring
      rwa [← ticket] at hfin
    | conflicted unfenced refuses stays =>
      dsimp only
      by_cases hwait : (c.seen s.env).args.waitSecs = 0
      · rw [if_pos hwait]
        rw [c.seen_args] at hwait
        exact .answered (passed.inFlight _) (hfenced unfenced) hwait rfl
      · rw [if_neg hwait]
        have hticket := stays (Nat.pos_of_ne_zero hwait)
        rw [c.seen_args] at hwait
        rw [c.seen_ticket] at hticket
        exact .waited (passed.inFlight _) (hfenced unfenced) refuses hticket
          (Nat.pos_of_ne_zero hwait)
    | joined unfenced refuses ticket waits rings clear joins =>
      dsimp only
      rw [if_neg (Nat.pos_iff_ne_zero.mp waits)]
      rw [c.seen_args] at waits clear joins
      rw [c.seen_resource] at joins
      exact .joined passed (hfenced unfenced) refuses (c.seen_ticket s.env ▸ ticket) waits rings
        clear (joins.inFlight _)

theorem wake_turn (s : State) (c : Claim) (message : String) (heldBy : List Lease) (woke : Bool) :
    Turn s c none (s.wake c message heldBy woke).1 (s.wake c message heldBy woke).2 := by
  unfold wake
  rcases deadlocked_cases c.guard s with ⟨_, _, ht, hb, hd⟩ | ⟨hunbroken, hd⟩
  · rw [hd]
    exact .read ht hb ⟨rfl, rfl, rfl, rfl, rfl, rfl, rfl, rfl⟩
  · rw [hd]
    dsimp only
    split
    · obtain ⟨hguard, _, hends⟩ := endLocked_spec c.guard s .timeout
      refine .ended (.refl _ s) rfl rfl hunbroken hends (by simp) ?_
      rw [hguard]
      exact ⟨rfl, rfl, rfl, rfl, rfl, rfl, rfl, rfl⟩
    · split
      · next refusal hr =>
        obtain ⟨hguard, _, hends⟩ := endLocked_spec c.guard s .cancelled
        refine .ended (.refl _ s) rfl rfl hunbroken hends (by simp) ?_
        rw [hguard]
        exact ⟨rfl, rfl, rfl, rfl, rfl, rfl, rfl,
          Response.isDeadlock_of_isPlain (transferring_plain hr)⟩
      · next hr => exact .woke (transferring_eq_none.mp hr)

theorem drop_turn (s : State) (c : Claim) : Turn s c none (s.drop c).1 (s.drop c).2 := by
  obtain ⟨n, hn⟩ : ∃ n, (if c.phase = .attempting then s.placeBack else s) =
      { s with inFlight := n } := by
    split
    · exact ⟨_, rfl⟩
    · exact ⟨s.inFlight, rfl⟩
  unfold drop
  rw [hn]
  dsimp only
  by_cases hb : ∃ t, c.guard.ticket = some t ∧ s.waiting.RingBroken t
  · obtain ⟨t, ht, hbroken⟩ := hb
    -- A wait ended for a ring is not queued any more, so nothing is said.
    have hgone : s.waiting.waiters.get? t = none := by
      obtain ⟨b, hb, rfl⟩ := hbroken
      exact Keyed.get?_eq_none.mpr fun w hw => s.waiting.apart w hw b hb
    have hends : c.guard.endLocked { s with inFlight := n } .cancelled =
        ({ s with waiting := (s.waiting.leave t).1, inFlight := n },
          { c.guard with ticket := none }) := by
      unfold Waiting.endLocked WaitQueue.leave
      rw [ht]
      simp only [hgone]
    rw [hends]
    refine .read ht hbroken ⟨rfl, rfl, rfl, rfl, rfl, rfl, rfl, ?_⟩
    obtain ⟨⟨_, _⟩, hmem, rfl⟩ := hbroken
    rw [ht, Option.any_some, WaitQueue.deadlocked_eq_some.mpr hmem]
    rfl
  · obtain ⟨hguard, _, hends⟩ := endLocked_spec c.guard { s with inFlight := n } .cancelled
    refine .ended ((Passed.refl _ s).inFlight n) rfl rfl (fun t ht hbroken => hb ⟨t, ht, hbroken⟩)
      hends (by simp) ?_
    rw [hguard]
    refine ⟨rfl, rfl, rfl, rfl, rfl, rfl, rfl, ?_⟩
    show c.guard.ticket.any _ = false
    rw [Option.any_eq_false]
    intro t ht
    cases hcycle : s.waiting.deadlocked t with
    | none => rfl
    | some => exact absurd ⟨t, ht, _, WaitQueue.deadlocked_eq_some.mp hcycle, rfl⟩ hb

end State

end AgentDocker.Daemon
