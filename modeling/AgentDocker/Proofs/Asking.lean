import AgentDocker.Daemon.ReleaseRequests
import AgentDocker.Proofs.Steps

/-!
# What a release request asks for

An agent that asks for a resource is answered with one request for each holder
in its way. A request made now lists what its holder has now. A request that
waits already is answered again instead, and lists what the holder had when it
was made: a lease the holder took since is in nobody's request, and an accept
leaves it where it is.

`requestRelease_lists` says that this is the only way a lease in the way goes
unasked for, and that an accept lets go of the leases its request lists and of
no others.
-/

namespace AgentDocker.Daemon

open AgentDocker.Core Lib Keyed

namespace State

/-! ## Writes that were seen to land -/

/-- A write nobody would call failed has landed, and none had failed before. -/
theorem persist_of_writeFailure {s s' : State} {what : String} {write : Store → Store}
    {p : Persisted} (h : s.persist what write = (s', p)) (hok : s'.writeFailure = none) :
    p = .committed ∧ s.writeFailure = none := by
  rw [writeFailure_eq_none] at hok ⊢
  unfold persist Store.transaction at h
  split at h
  · next herr =>
    cases h
    rw [hok.1] at herr
    cases herr
  next herr =>
  split at h
  · next hf =>
    cases h
    have : s.fenced = false := hok.2 rfl
    rw [this] at hf
    cases hf
  next hf =>
  cases hd : s.store.faults s.store.uses with
  | some =>
    rw [hd] at h
    cases h
    cases hok.1
  | none =>
    rw [hd] at h
    cases h
    exact ⟨rfl, by simpa using herr, fun _ => by simpa using hf⟩

end State

namespace Requests

/-! ## Requests that ran out -/

theorem expireOne_leases {r : Requests} {request : ReleaseRequest} :
    (r.expireOne request).core.leases = r.core.leases := by
  unfold expireOne
  split
  · next core h =>
    rw [State.persist_committed h]
  · next core p hp h => exact (State.persist_not_committed h hp).leases

variable {requester responder : AgentId} {draw : AgentId → MessageId} {desk : Desk} {l : Lease}
  {t : LeaseTable} {requests : List ReleaseRequest} {message : MessageId}
  {reason text : Option String} {answered asked : ReleaseRequest} {r r' : Requests}
  {resource : ResourceKey} {journal : State.Journal} {now : Time}

theorem expireOne_ok {request : ReleaseRequest}
    (h : (r.expireOne request).core.writeFailure = none) : r.core.writeFailure = none ∧
      (r.expireOne request).pending = r.pending.erase request.message := by
  unfold expireOne at h ⊢
  split at h
  · next core hp => exact ⟨(State.persist_of_writeFailure hp h).2, rfl⟩
  · next core p hne hp => exact absurd (State.persist_of_writeFailure hp h).1 hne

theorem foldl_expireOne_leases {expired : List ReleaseRequest} :
    (expired.foldl expireOne r).core.leases = r.core.leases := by
  induction expired generalizing r with
  | nil => rfl
  | cons _ _ ih => rw [List.foldl_cons, ih, expireOne_leases]

theorem foldl_expireOne_ok {expired : List ReleaseRequest}
    (h : (expired.foldl expireOne r).core.writeFailure = none) :
    r.core.writeFailure = none ∧ (expired.foldl expireOne r).pending.rows =
        r.pending.rows.filter fun q => decide (∀ e ∈ expired, q.message ≠ e.message) := by
  induction expired generalizing r with
  | nil => exact ⟨h, by simp⟩
  | cons _ _ ih =>
    rw [List.foldl_cons] at h ⊢
    obtain ⟨hone, hrows⟩ := ih h
    obtain ⟨hok, hpending⟩ := expireOne_ok hone
    refine ⟨hok, ?_⟩
    rw [hrows, hpending, Keyed.erase, Keyed.filter, List.filter_filter]
    refine List.filter_congr fun q _ => ?_
    simp [Bool.and_comm]

theorem expireReleaseRequests_leases :
    (r.expireReleaseRequests now).core.leases = r.core.leases := by
  unfold expireReleaseRequests
  split
  · rfl
  · exact foldl_expireOne_leases

/-- With every write landed, the requests left are the ones not run out. -/
theorem expireReleaseRequests_ok (h : (r.expireReleaseRequests now).core.writeFailure = none) :
    (r.expireReleaseRequests now).pending.rows = r.pending.rows.filter fun q => !q.expired now := by
  unfold expireReleaseRequests at h ⊢
  split
  · next herr =>
    rw [if_pos herr] at h
    rw [(State.writeFailure_eq_none.mp h).1] at herr
    cases herr
  next herr =>
  rw [if_neg herr] at h
  rw [(foldl_expireOne_ok h).2]
  refine List.filter_congr fun q hq => ?_
  -- a request that runs out is the only one under its message
  simp only [List.mem_insertionSort, List.mem_filter, and_imp]
  rw [Bool.eq_iff_iff, decide_eq_true_iff, Bool.not_eq_true']
  constructor
  · intro hne
    by_contra hexp
    exact hne q hq (by simpa using hexp) rfl
  · intro hexp e he hexp' heq
    rw [← eq_of_key_eq (t := r.pending) hq he heq, hexp] at hexp'
    cases hexp'

/-! ## Asking -/

/-- A live lease of somebody else on something overlapping the resource. -/
def Blocks (r : Requests) (requester : AgentId) (resource : ResourceKey) (now : Time)
    (l : Lease) : Prop :=
  l ∈ r.core.leases ∧ l.isExpired now = false ∧ l.holder ≠ requester ∧
    l.resource.overlaps resource = true

/-- The request that still waits at a time on a holder for a resource. -/
def standing (desk : Desk) (r : Requests) (requester holder : AgentId) (resource : ResourceKey)
    (now : Time) : Option ReleaseRequest :=
  r.pending.rows.find? fun q => !q.expired now && asks desk requester holder resource q

theorem mem_inTheWay : l ∈ inTheWay t requester resource ↔
      l ∈ t ∧ l.holder ≠ requester ∧ l.resource.overlaps resource = true := by
  simp [inTheWay, LeaseTable.mem_all]

theorem mem_byHolder {leases : List Lease} {h : AgentId} {ls : List Lease} :
    (h, ls) ∈ byHolder leases ↔
      (∃ l ∈ leases, l.holder = h) ∧ ls = leases.filter fun l => decide (l.holder = h) := by
  simp only [byHolder, List.mem_map, List.mem_insertionSort, List.mem_dedup, Prod.mk.injEq]
  constructor
  · rintro ⟨_, ha, rfl, rfl⟩
    exact ⟨ha, rfl⟩
  · rintro ⟨ha, rfl⟩
    exact ⟨h, ha, rfl, rfl⟩

/-- Each holder is answered for by the request that waits on it, or asked. -/
theorem sorted_ok {holders : List (AgentId × List Lease)} {toSend : List (AgentId × List Lease)}
    (h : r.sorted desk requester resource holders = .ok (requests, toSend)) :
    requests = holders.filterMap (fun p => r.waiting desk requester p.1 resource) ∧
      toSend = holders.filter fun p => (r.waiting desk requester p.1 resource).isNone := by
  induction holders generalizing requests toSend with
  | nil =>
    cases h
    exact ⟨rfl, rfl⟩
  | cons p rest ih =>
    obtain ⟨holder, _⟩ := p
    rw [sorted] at h
    cases hw : r.waiting desk requester holder resource with
    | some =>
      cases hrest : sorted desk r requester resource rest with
      | error => simp [hw, hrest] at h
      | ok =>
        simp only [hw, hrest, Except.ok.injEq, Prod.mk.injEq] at h
        obtain ⟨hq, hs⟩ := ih hrest
        simp [hw, ← h.1, ← h.2, hq, hs]
    | none =>
      cases href : desk.refuses requester holder with
      | some => simp [hw, href] at h
      | none =>
        cases hrest : sorted desk r requester resource rest with
        | error => simp [hw, href, hrest] at h
        | ok =>
          simp only [hw, href, hrest, Except.ok.injEq, Prod.mk.injEq] at h
          obtain ⟨hq, hs⟩ := ih hrest
          simp [hw, ← h.1, ← h.2, hq, hs]

theorem sendAll_ok {prepared : List (Envelope × ReleaseRequest)} {sent : List ReleaseRequest}
    (h : r.sendAll desk prepared = (r', .ok sent)) :
    sent = prepared.map Prod.snd := by
  induction prepared generalizing r sent with
  | nil =>
    cases h
    rfl
  | cons _ _ ih =>
    rw [sendAll] at h
    split at h
    · cases h
    next r₁ hpub =>
    split at h
    · next r₂ more hrest =>
      cases h
      rw [ih hrest, List.map_cons]
    · cases h

theorem requestRelease_ok
    (h : r.requestRelease desk requester resource reason now draw = (r', .ok requests)) :
    (r.settled now).core.writeFailure = none ∧
      ∀ q, q ∈ requests ↔ ∃ p ∈ byHolder (inTheWay (r.settled now).core.leases requester resource),
        (r.settled now).waiting desk requester p.1 resource = some q ∨
          ((r.settled now).waiting desk requester p.1 resource = none ∧
            request requester p.1 resource reason p.2 now (draw p.1) = q) := by
  unfold requestRelease at h
  dsimp only at h
  split at h
  · cases h
  next hok =>
  refine ⟨hok, fun q => ?_⟩
  split at h
  · cases h
  · split at h
    · cases h
    next known toSend hsorted =>
    obtain ⟨hknown, hsend⟩ := sorted_ok hsorted
    split at h
    · cases h
    · split at h
      · cases h
      · split at h
        · next r₂ sent hsent =>
          cases h
          rw [sendAll_ok hsent, hknown, hsend]
          simp only [List.mem_append, List.mem_filterMap, List.mem_map, List.mem_filter,
            Option.isNone_iff_eq_none]
          constructor
          · rintro (⟨p, hp, hq⟩ | ⟨_, ⟨p, ⟨hp, hnone⟩, rfl⟩, rfl⟩)
            · exact ⟨p, hp, .inl hq⟩
            · exact ⟨p, hp, .inr ⟨hnone, rfl⟩⟩
          · rintro ⟨p, hp, hq | ⟨hnone, rfl⟩⟩
            · exact .inl ⟨p, hp, hq⟩
            · exact .inr ⟨_, ⟨p, ⟨hp, hnone⟩, rfl⟩, rfl⟩
        · cases h

theorem settled_leases : (r.settled now).core.leases = (r.core.expireLeasesAt now).leases :=
  expireReleaseRequests_leases

theorem Blocks.mem_inTheWay (h : r.Blocks requester resource now l) :
    l ∈ inTheWay (r.settled now).core.leases requester resource := by
  obtain ⟨hmem, hlive, hholder, hover⟩ := h
  rw [Requests.mem_inTheWay, settled_leases]
  obtain ⟨_, hpass⟩ := State.expireLeasesAt_passed r.core now
  exact ⟨hpass.unexpired l hmem fun t ht => Option.mem_some.mp ht ▸ hlive, hholder, hover⟩

/-- The request a decided state finds waiting is the one still standing. -/
theorem settled_waiting (h : (r.settled now).core.writeFailure = none) {holder : AgentId} :
    (r.settled now).waiting desk requester holder resource =
      r.standing desk requester holder resource now := by
  unfold waiting standing settled
  rw [expireReleaseRequests_ok h, List.find?_filter]
  simp only [Bool.decide_and, Bool.decide_eq_true]

theorem standing_holder {holder : AgentId} {q : ReleaseRequest}
    (h : r.standing desk requester holder resource now = some q) :
    desk.canonicalId q.holder = holder := by
  have := List.find?_some h
  simp only [asks, Bool.and_eq_true, decide_eq_true_eq] at this
  exact this.2.1.2

/-- What a request that succeeds answers with, lease by lease. -/
theorem mem_requests
    (h : r.requestRelease desk requester resource reason now draw = (r', .ok requests))
    {q : ReleaseRequest} :
    q ∈ requests ↔ ∃ k ∈ inTheWay (r.settled now).core.leases requester resource,
      r.standing desk requester k.holder resource now = some q ∨
        (r.standing desk requester k.holder resource now = none ∧
          request requester k.holder resource reason
            ((inTheWay (r.settled now).core.leases requester resource).filter
              fun l => decide (l.holder = k.holder)) now (draw k.holder) = q) := by
  obtain ⟨hok, hmem⟩ := requestRelease_ok h
  simp only [hmem, settled_waiting hok, Prod.exists, mem_byHolder]
  constructor
  · rintro ⟨_, _, ⟨⟨k, hk, rfl⟩, rfl⟩, hq⟩
    exact ⟨k, hk, hq⟩
  · rintro ⟨k, hk, hq⟩
    exact ⟨k.holder, _, ⟨⟨k, hk, rfl⟩, rfl⟩, hq⟩

/-- A lease in the way is listed by a request put to its holder exactly when
no request that waited on the holder already leaves it out. -/
theorem listed_iff
    (h : r.requestRelease desk requester resource reason now draw = (r', .ok requests))
    (hl : r.Blocks requester resource now l) :
    (∃ q ∈ requests, desk.canonicalId q.holder = desk.canonicalId l.holder ∧ l.id ∈ q.leases) ↔
      ∀ q, r.standing desk requester l.holder resource now = some q → l.id ∈ q.leases := by
  have hway := hl.mem_inTheWay
  constructor
  · rintro ⟨_, hq', hholder, hid⟩ _ hq
    obtain ⟨k, _, hstanding | ⟨hnone, rfl⟩⟩ := (mem_requests h).mp hq'
    · have hk' : k.holder = l.holder := by
        rw [← standing_holder hstanding, hholder, ← standing_holder hq, desk.canonical]
      rw [hk', hq] at hstanding
      cases hstanding
      exact hid
    · -- a request made now lists leases of its own holder only
      obtain ⟨m, hm, hmid⟩ := List.mem_map.mp hid
      obtain ⟨hm, hmk⟩ := List.mem_filter.mp hm
      have hml : m = l := eq_of_key_eq (Requests.mem_inTheWay.mp hm).1
        (Requests.mem_inTheWay.mp hway).1 hmid
      rw [← of_decide_eq_true hmk, hml, hq] at hnone
      cases hnone
  · intro hall
    cases hq : r.standing desk requester l.holder resource now with
    | some q =>
      refine ⟨q, (mem_requests h).mpr ⟨l, hway, .inl hq⟩, ?_, hall q hq⟩
      rw [← standing_holder hq, desk.canonical]
    | none =>
      refine ⟨_, (mem_requests h).mpr ⟨l, hway, .inr ⟨hq, rfl⟩⟩, rfl, ?_⟩
      exact List.mem_map_of_mem (List.mem_filter.mpr ⟨hway, decide_eq_true rfl⟩)

/-! ## Answering -/

theorem publish_ok {p : Publication} (h : r.publish desk p = (r', none)) :
    r'.core.leases = p.released.foldl (fun t l => (t.release l.id l.holder).1) r.core.leases := by
  unfold publish at h
  split at h
  · cases h
  · dsimp only at h
    split at h
    · cases h
    · split at h
      · next core hcommit =>
        cases h
        rcases State.commit_eq r.core "message" _ _ _ with ⟨-, heq⟩ | ⟨-, -, hne⟩
        · rw [heq] at hcommit
          cases hcommit
          rfl
        · rw [hcommit] at hne
          exact absurd rfl hne
      · cases h

theorem mem_stillHeld :
    l ∈ stillHeld t asked responder ↔ l ∈ t ∧ l.id ∈ asked.leases ∧ l.holder = responder := by
  simp only [stillHeld, List.mem_filter, List.mem_filterMap, get?_eq_some, decide_eq_true_eq]
  constructor
  · rintro ⟨⟨_, hid, hl, rfl⟩, hholder⟩
    exact ⟨hl, hid, hholder⟩
  · rintro ⟨hl, hid, hholder⟩
    exact ⟨⟨l.id, hid, hl, rfl⟩, hholder⟩

/-- An accept lets go of the leases its request lists that the holder still
has. -/
theorem respondRelease_ok {id : MessageId} (hasked : r.pending.get? id = some asked)
    (h : r.respondRelease desk responder id true text now journal message = (r', .ok answered)) :
    r'.core.leases = (stillHeld (r.settled now).core.leases asked responder).foldl
        (fun t l => (t.release l.id l.holder).1) (r.settled now).core.leases := by
  unfold respondRelease at h
  dsimp only at h
  split at h
  · cases h
  next hok =>
  have hrows := expireReleaseRequests_ok hok
  split at h
  · cases h
  next found hfound =>
  have heq : found = asked := by
    obtain ⟨hmem, hid⟩ := get?_eq_some.mp hfound
    obtain ⟨hmem', hid'⟩ := get?_eq_some.mp hasked
    rw [mem_def, settled, hrows, List.mem_filter] at hmem
    exact eq_of_key_eq (t := r.pending) hmem.1 hmem' (hid.trans hid'.symm)
  rw [heq] at h
  split at h
  · cases h
  · simp only [if_true] at h
    split at h
    · cases h
    · split at h
      · cases h
      next r₂ hpub =>
      cases h
      rw [publish_ok hpub]
      split
      · rfl
      · rw [State.readLedger_leases]

/-- The leases an accept lets go of, of those its responder holds. -/
theorem accept_releases_iff {id : MessageId} (hasked : r.pending.get? id = some asked)
    (h : r.respondRelease desk responder id true text now journal message = (r', .ok answered))
    (hl : l ∈ r.core.leases) (hlive : l.isExpired now = false) (hholder : l.holder = responder) :
    l ∉ r'.core.leases ↔ l.id ∈ asked.leases := by
  have hl' : l ∈ (r.settled now).core.leases := by
    rw [settled_leases]
    obtain ⟨_, hpass⟩ := State.expireLeasesAt_passed r.core now
    exact hpass.unexpired l hl fun t ht => Option.mem_some.mp ht ▸ hlive
  rw [respondRelease_ok hasked h, State.mem_foldl_release]
  · constructor
    · intro hgone
      by_contra hid
      refine hgone ⟨hl', fun m hm heq => hid ?_⟩
      rw [heq]
      exact (mem_stillHeld.mp hm).2.1
    · rintro hid ⟨-, hne⟩
      exact hne l (mem_stillHeld.mpr ⟨hl', hid, hholder⟩) rfl
  · intro m hm n hn heq
    rw [eq_of_key_eq hn (mem_stillHeld.mp hm).1 heq]

/-- Every live lease in a requester's way is listed by a request put to its
holder exactly when each request that waited on a holder already lists all the
holder has in the way; and a holder that accepts a request lets go of what it
lists, and of nothing else. -/
theorem requestRelease_lists (desk : Desk) (r r' : Requests) (requester : AgentId)
    (resource : ResourceKey) (reason : Option String) (now : Time) (draw : AgentId → MessageId)
    (requests : List ReleaseRequest)
    (h : r.requestRelease desk requester resource reason now draw = (r', .ok requests)) :
    ((∀ l, r.Blocks requester resource now l → ∃ q ∈ requests,
        desk.canonicalId q.holder = desk.canonicalId l.holder ∧ l.id ∈ q.leases) ↔
      ∀ l, r.Blocks requester resource now l →
        ∀ q, r.standing desk requester l.holder resource now = some q → l.id ∈ q.leases) ∧
    ∀ q ∈ requests, ∀ (s s' : Requests) (responder : AgentId) (text : Option String)
      (later : Time) (journal : State.Journal) (message : MessageId) (answered : ReleaseRequest),
      s.pending.get? q.message = some q →
      s.respondRelease desk responder q.message true text later journal message =
        (s', .ok answered) →
      ∀ l ∈ s.core.leases, l.isExpired later = false → l.holder = responder →
        (l ∉ s'.core.leases ↔ l.id ∈ q.leases) := by
  refine ⟨forall₂_congr fun l hl => listed_iff h hl, ?_⟩
  intro q _ s s' responder text later journal message answered hq hs l hl hlive hholder
  exact accept_releases_iff hq hs hl hlive hholder

/-- A desk that routes to one agent only and refuses nobody. -/
def plain : Desk where
  routes := ⟨fun _ => 0, fun _ => []⟩
  canonicalId := id
  canonical _ := rfl
  refuses _ _ := none
  swept := id

def repo : ResourceKey := ⟨"path:/repo"⟩

/-- The holder's exclusive lease on `repo`, for an hour. -/
def holding (id : LeaseId) (now : Time) : Lease :=
  LeaseTable.fresh ⟨repo, ⟨"holder"⟩, .exclusive, 3600, none, false⟩ now id

/-- The holder has one lease, and nobody has asked for anything. -/
def unasked : Requests :=
  ⟨.serving 1 .everybody (Keyed.empty.insert (holding ⟨"l1"⟩ 0)) fun _ => none, fun _ => [],
    .empty, []⟩

/-- Asking for `repo`, under one message id for each time it is asked. -/
def ask (r : Requests) (now : Time) (message : String) :
    Requests × Except Response (List ReleaseRequest) :=
  r.requestRelease plain ⟨"asker"⟩ repo none now fun _ => ⟨message⟩

/-- The holder's accept of a request. -/
def accept (r : Requests) (request : String) (now : Time) (message : String) :
    Requests × Except Response ReleaseRequest :=
  r.respondRelease plain ⟨"holder"⟩ ⟨request⟩ true none now ⟨0, none⟩ ⟨message⟩

/-- The holder was asked, released its lease of its own accord and took the
resource again. -/
def reclaimed : Requests :=
  let r := (unasked.ask 1 "m1").1
  let core := (r.core.release ⟨"holder"⟩ ⟨"l1"⟩ ⟨0, none⟩).1
  { r with core := (core.commitLeaseActivity (some (holding ⟨"l2"⟩ 2))
      (some (.leaseClaimed (holding ⟨"l2"⟩ 2)))).1 }

/-- Asked again, the daemon answers with the request that waits, which names the
lease that is gone; the holder accepts it and keeps the one in the way. -/
theorem reclaimed_goesUnasked : ∃ requests, (reclaimed.ask 3 "m2").2 = .ok requests ∧
      requests.map (·.message) = [⟨"m1"⟩] ∧
      (¬ ∀ l, reclaimed.Blocks ⟨"asker"⟩ repo 3 l → ∃ q ∈ requests,
        plain.canonicalId q.holder = plain.canonicalId l.holder ∧ l.id ∈ q.leases) ∧
      ((reclaimed.ask 3 "m2").1.accept "m1" 4 "m3").2.isOk = true ∧
      holding ⟨"l2"⟩ 2 ∈ ((reclaimed.ask 3 "m2").1.accept "m1" 4 "m3").1.core.leases := by
  have hl : reclaimed.Blocks ⟨"asker"⟩ repo 3 (holding ⟨"l2"⟩ 2) := by
    unfold Blocks
    decide +kernel
  exact ⟨[request ⟨"asker"⟩ ⟨"holder"⟩ repo none [holding ⟨"l1"⟩ 0] 1 ⟨"m1"⟩], by decide +kernel,
    by decide +kernel, fun h => absurd (h _ hl) (by decide +kernel), by decide +kernel,
    by decide +kernel⟩

/-- Asked once, the holder is asked for its lease, and lets it go. -/
theorem unasked_isAsked : (∃ requests, (unasked.ask 1 "m1").2 = .ok requests ∧
      ∀ l, unasked.Blocks ⟨"asker"⟩ repo 1 l → ∃ q ∈ requests,
        plain.canonicalId q.holder = plain.canonicalId l.holder ∧ l.id ∈ q.leases) ∧
      unasked.Blocks ⟨"asker"⟩ repo 1 (holding ⟨"l1"⟩ 0) ∧
      holding ⟨"l1"⟩ 0 ∉ ((unasked.ask 1 "m1").1.accept "m1" 2 "m2").1.core.leases := by
  have hasked : (unasked.ask 1 "m1").2 =
      .ok [request ⟨"asker"⟩ ⟨"holder"⟩ repo none [holding ⟨"l1"⟩ 0] 1 ⟨"m1"⟩] := by
    decide +kernel
  have h := requestRelease_lists plain unasked _ ⟨"asker"⟩ repo none 1 (fun _ => ⟨"m1"⟩) _
    (Prod.ext rfl hasked)
  have hl : unasked.Blocks ⟨"asker"⟩ repo 1 (holding ⟨"l1"⟩ 0) := by
    unfold Blocks
    decide +kernel
  refine ⟨⟨_, hasked, h.1.mpr fun l _ q hq => ?_⟩, hl, ?_⟩
  · have hnone : unasked.standing plain ⟨"asker"⟩ l.holder repo 1 = none := rfl
    cases hq
  · exact (h.2 _ (List.mem_singleton_self _) (unasked.ask 1 "m1").1 _ ⟨"holder"⟩ none 2 ⟨0, none⟩
      ⟨"m2"⟩ _ (by decide +kernel) (Prod.ext rfl (by decide +kernel)) _ (by decide +kernel)
      (by decide +kernel) (by decide +kernel)).mpr (by decide +kernel)

end Requests

end AgentDocker.Daemon
